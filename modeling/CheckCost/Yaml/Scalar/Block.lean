import CheckCost.Text.DecimalDigit
import CheckCost.Yaml.Cursor
import CheckCost.Yaml.Fault

/-!
Scalars of whole lines, introduced by a bar or an angle. Under a bar line breaks stay; under an angle
they are folded except around lines that are indented more. A header says what happens to the breaks at
the end and how deep the lines are indented.
-/
namespace CheckCost.Yaml.Block

/-- The breaks at the end of the text: all but one are dropped, all are, or none is. -/
inductive Chomping where
  | clip
  | strip
  | keep
  deriving DecidableEq, Repr

structure Header where
  chomping : Chomping
  /-- How far the lines are indented below their parent, if the header says so. -/
  increment : Option Nat

def chomping? : Char → Option Chomping
  | '+' => some .keep
  | '-' => some .strip
  | _ => none

/-- The digit of the header here, if there is one, and the place after it. Zero is no depth. -/
def increment (cursor : Cursor) : Except Fault (Option Nat × Cursor) :=
  match Text.asciiDigit? cursor.peek with
  | some 0 => failed .blockScalar
  | some depth => .ok (some depth, cursor.step)
  | none => .ok (none, cursor)

/-- The two indicators of a header, in either order. -/
def header (cursor : Cursor) : Except Fault (Header × Cursor) := do
  let (header, after) ←
    match chomping? cursor.peek with
    | some chomping => do
      let (depth, after) ← increment cursor.step
      pure (Header.mk chomping depth, after)
    | none => do
      let (depth, after) ← increment cursor
      match depth, chomping? after.peek with
      | some _, some chomping => pure (Header.mk chomping depth, after.step)
      | _, _ => pure (Header.mk .clip depth, after)
  if isGapOrEnd after.peek then return (header, after) else failed .blockScalar

/-- The rest of the header's line may only hold a comment. -/
def restOfLine (cursor : Cursor) : Except Fault Cursor :=
  let after := cursor.skipSpaces.skipComment
  if endsLine after.peek then .ok after.skipLineBreak else failed .blockScalar

def skipIndent (indent : Nat) (cursor : Cursor) : Cursor :=
  cursor.skip (min (indent - cursor.column) (cursor.span (· = ' ')).1.length)

/-- Blank lines, and the place in the next line after its indentation. -/
def breaks (indent : Nat) : Nat → Cursor → List Char → List Char × Cursor
  | 0, cursor, done => (done.reverse, cursor)
  | fuel + 1, cursor, done =>
    let indented := skipIndent indent cursor
    match indented.lineBreak? with
    | some (c, after) => breaks indent fuel after (c :: done)
    | none => (done.reverse, indented)

def breaksAt (indent : Nat) (cursor : Cursor) : List Char × Cursor :=
  breaks indent (cursor.rest.length + 1) cursor []

/-- Blank lines before the first line with text, and the widest indentation among all of them. -/
def measure : Nat → Cursor → List Char → Nat → List Char × Nat × Cursor
  | 0, cursor, done, widest => (done.reverse, widest, cursor)
  | fuel + 1, cursor, done, widest =>
    let indented := cursor.skipSpaces
    let width := max widest indented.column
    match indented.lineBreak? with
    | some (c, after) => measure fuel after (c :: done) width
    | none => (done.reverse, width, indented)

/-- What a line break between two lines of text becomes, given the blank lines that follow it. -/
def joint (folded leadsWithText nextLeadsWithText : Bool) (c : Char) (blank : List Char) : List Char :=
  if folded && c = '\n' && leadsWithText && nextLeadsWithText then
    if blank.isEmpty then [' '] else []
  else [c]

def ending (chomping : Chomping) (last blank : List Char) : List Char :=
  match chomping with
  | .strip => []
  | .clip => last
  | .keep => last ++ blank

/-- Reads the lines from one with text on; `blank` holds the blank lines before it. -/
def lines (folded : Bool) (chomping : Chomping) (indent : Nat) :
    Nat → Cursor → List Char → List Char → List Char × Cursor
  | 0, cursor, done, _ => (done, cursor)
  | fuel + 1, cursor, done, blank =>
    if cursor.column = indent && !atEnd cursor.peek then
      let leadsWithText := !isSpaceOrTab cursor.peek
      let (line, after) := cursor.span (!isBreak ·)
      let text := done ++ blank ++ line
      match after.lineBreak? with
      | none => (text, after)
      | some (c, next) =>
        let (more, start) := breaksAt indent next
        if start.column = indent && !atEnd start.peek then
          lines folded chomping indent fuel start
            (text ++ joint folded leadsWithText (!isSpaceOrTab start.peek) c more) more
        else (text ++ ending chomping [c] more, start)
    else (done ++ ending chomping [] blank, cursor)

/-- Reads a scalar from its indicator on, for a parent whose lines are indented by less than
`minimum`. -/
def scan (folded : Bool) (minimum : Nat) (cursor : Cursor) : Except Fault (List Char × Cursor) := do
  let (header, afterHeader) ← header cursor.step
  let body ← restOfLine afterHeader
  let fuel := body.rest.length + 1
  let least := max 1 minimum
  match header.increment with
  | some depth =>
    let indent := least + depth - 1
    let (blank, start) := breaksAt indent body
    return lines folded header.chomping indent fuel start [] blank
  | none =>
    let (blank, widest, start) := measure fuel body [] 0
    return lines folded header.chomping (max least widest) fuel start [] blank

end CheckCost.Yaml.Block
