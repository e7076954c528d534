/-!
A place in a YAML text: the characters from there on, with the line and the column that layout depends
on. The end of the text reads as NUL, which no document holds.
-/
namespace CheckCost.Yaml

structure Cursor where
  rest : List Char
  /-- How many characters came before. -/
  index : Nat
  line : Nat
  column : Nat
  deriving DecidableEq, Repr

def atEnd (c : Char) : Bool := c = '\x00'

def isBreak (c : Char) : Bool :=
  c = '\r' || c = '\n' || c = '\u0085' || c = '\u2028' || c = '\u2029'

def isSpaceOrTab (c : Char) : Bool := c = ' ' || c = '\t'

/-- A line break or the end of the text. -/
def endsLine (c : Char) : Bool := isBreak c || atEnd c

/-- A space, a line break or the end of the text. -/
def isGapOrEnd (c : Char) : Bool := c = ' ' || endsLine c

/-- As before, or a tab. -/
def endsWord (c : Char) : Bool := c = '\t' || isGapOrEnd c

/-- Line breaks between two words: a single line feed becomes a space, further breaks stay. -/
def fold (first : Char) (more : List Char) : List Char :=
  if first != '\n' then first :: more else if more.isEmpty then [' '] else more

namespace Cursor

def ofChars (cs : List Char) : Cursor := ⟨cs, 0, 0, 0⟩

def peekAt (cursor : Cursor) (distance : Nat) : Char := cursor.rest.getD distance '\x00'

def peek (cursor : Cursor) : Char := cursor.peekAt 0

/-- A carriage return before a line feed does not break the line itself, and a byte order mark has no
width. -/
def step (cursor : Cursor) : Cursor :=
  match cursor.rest with
  | [] => cursor
  | c :: rest =>
    if isBreak c && !(c = '\r' && rest.head? = some '\n') then
      ⟨rest, cursor.index + 1, cursor.line + 1, 0⟩
    else
      ⟨rest, cursor.index + 1, cursor.line, if c = '\ufeff' then cursor.column else cursor.column + 1⟩

def skip (cursor : Cursor) : Nat → Cursor
  | 0 => cursor
  | n + 1 => cursor.step.skip n

/-- The longest run of characters of a class, and the place after it. -/
def span (p : Char → Bool) (cursor : Cursor) : List Char × Cursor :=
  let run := cursor.rest.takeWhile p
  (run, cursor.skip run.length)

def skipWhile (p : Char → Bool) (cursor : Cursor) : Cursor := (cursor.span p).2

def skipSpaces (cursor : Cursor) : Cursor := cursor.skipWhile (· = ' ')

/-- Goes past a comment, if there is one, to the end of the line. -/
def skipComment (cursor : Cursor) : Cursor :=
  if cursor.peek = '#' then cursor.skipWhile (!isBreak ·) else cursor

/-- The line break here and the place after it. All breaks count as a line feed except the two
separators of Unicode. -/
def lineBreak? (cursor : Cursor) : Option (Char × Cursor) :=
  let c := cursor.peek
  if c = '\u2028' || c = '\u2029' then some (c, cursor.step)
  else if isBreak c then
    some ('\n', cursor.skip (if c = '\r' && cursor.peekAt 1 = '\n' then 2 else 1))
  else none

def skipLineBreak (cursor : Cursor) : Cursor :=
  match cursor.lineBreak? with
  | some (_, after) => after
  | none => cursor

/-- Three equal marks that are a word of their own. -/
def isMark (cursor : Cursor) (mark : Char) : Bool :=
  cursor.peek = mark && cursor.peekAt 1 = mark && cursor.peekAt 2 = mark && endsWord (cursor.peekAt 3)

/-- The start or the end of a document, if the line begins here. -/
def isDocumentMark (cursor : Cursor) : Bool := cursor.isMark '-' || cursor.isMark '.'

end Cursor

end CheckCost.Yaml
