/-!
Environment variables in text. Where the references are depends on the text alone; the values are put
in without being read again, and references to unknown names stay as they were written.
-/
namespace CheckCost

abbrev Environment := List (String × String)

namespace Environment

/-- A character of the text, or a reference as it was written after its dollar sign. -/
inductive Piece where
  | literal (c : Char)
  | reference (name written : List Char)
  deriving DecidableEq, Repr

def isNameChar (c : Char) : Bool := c.isAlphanum || c = '_'

/-- The reference that a text begins with after a dollar sign: a name in braces, which is any text, or
the longest name of letters, digits and underscores. -/
def reference? : List Char → Option Piece
  | '\x7b' :: rest =>
    let name := rest.takeWhile (· ≠ '\x7d')
    if name.length < rest.length then
      some (.reference name ('\x7b' :: name ++ ['\x7d']))
    else none
  | cs =>
    let name := cs.takeWhile isNameChar
    if name.isEmpty then none else some (.reference name name)

/-- How many characters a piece has after the first. -/
def Piece.extent : Piece → Nat
  | literal _ => 0
  | reference _ written => written.length

/-- The pieces of a text after so many characters that belong to the piece before. -/
def piecesAfter : Nat → List Char → List Piece
  | _, [] => []
  | skip + 1, _ :: rest => piecesAfter skip rest
  | 0, c :: rest =>
    let piece := if c = '$' then (reference? rest).getD (.literal c) else .literal c
    piece :: piecesAfter piece.extent rest

def pieces (text : String) : List Piece := piecesAfter 0 text.toList

def value (env : Environment) : Piece → List Char
  | .literal c => [c]
  | .reference name written =>
    match env.lookup (String.ofList name) with
    | some value => value.toList
    | none => '$' :: written

def expand (env : Environment) (text : String) : String :=
  String.ofList ((pieces text).flatMap env.value)

def names (text : String) : List String :=
  (pieces text).filterMap fun
    | .literal _ => none
    | .reference name _ => some (String.ofList name)

end Environment

end CheckCost
