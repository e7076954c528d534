/-!
Styled text for terminals. Codes that set the style come before the text, one code that resets it
comes after; without codes the same text is plain.
-/
namespace CheckCost.Text

inductive Color where
  | red
  | green
  | yellow
  | cyan
  | brightGreen
  | brightBlue
  deriving DecidableEq, Repr

def Color.code : Color → Nat
  | red => 31
  | green => 32
  | yellow => 33
  | cyan => 36
  | brightGreen => 92
  | brightBlue => 94

inductive Emphasis where
  | bold
  | dim
  | underline
  deriving DecidableEq, Repr

def Emphasis.code : Emphasis → Nat
  | bold => 1
  | dim => 2
  | underline => 4

def styleCode (code : Nat) : String := s!"\x1b[{code}m"

def resetCode : String := styleCode 0

/-- The color comes first, then the emphases as they are listed. -/
def styled (color : Option Color) (emphases : List Emphasis) (text : String) : String :=
  let codes := (color.map Color.code).toList ++ emphases.map Emphasis.code
  String.join (codes.map styleCode) ++ text ++ resetCode

def isCodeChar (c : Char) : Bool := c.isDigit || c = ';' || c = '?'

/-- How many characters a code takes that begins after the escape character. -/
def codeLength? : List Char → Option Nat
  | '[' :: rest =>
    let arguments := rest.takeWhile isCodeChar
    match rest.drop arguments.length with
    | c :: _ => if c.isAlpha then some (arguments.length + 2) else none
    | [] => none
  | _ => none

/-- Leaves codes out, after so many characters that belong to one. -/
def plainAfter : Nat → List Char → List Char
  | _, [] => []
  | skip + 1, _ :: rest => plainAfter skip rest
  | 0, c :: rest =>
    match if c = '\x1b' then codeLength? rest else none with
    | some length => plainAfter length rest
    | none => c :: plainAfter 0 rest

def plain (text : String) : String := String.ofList (plainAfter 0 text.toList)

end CheckCost.Text
