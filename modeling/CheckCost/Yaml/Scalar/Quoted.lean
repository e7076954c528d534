import CheckCost.Text.CodeUnit
import CheckCost.Text.Hexadecimal
import CheckCost.Yaml.Cursor
import CheckCost.Yaml.Fault

/-!
Scalars in quotes. Single quotes know no escape but the doubled quote; double quotes have escapes for
single characters, for code points and for line breaks. In both, line breaks are folded.
-/
namespace CheckCost.Yaml.Quoted

/-- Text and the place after it. -/
abbrev Scanned := Except Fault (List Char × Cursor)

/-- What a single character means after a backslash. -/
def escapes : List (Char × Char) :=
  [('0', '\x00'), ('a', '\x07'), ('b', '\x08'), ('t', '\t'), ('\t', '\t'), ('n', '\n'),
    ('v', '\x0b'), ('f', '\x0c'), ('r', '\r'), ('e', '\x1b'), (' ', ' '), ('"', '"'), ('\\', '\\'),
    ('/', '/'), ('N', '\u0085'), ('_', '\u00a0'), ('L', '\u2028'), ('P', '\u2029')]

/-- How many hexadecimal digits follow these letters after a backslash. -/
def codeLengths : List (Char × Nat) := [('x', 2), ('u', 4), ('U', 8)]

/-- Blank lines, from the start of a line on. -/
def breaks : Nat → Cursor → List Char → Scanned
  | 0, cursor, done => .ok (done.reverse, cursor)
  | fuel + 1, cursor, done =>
    if cursor.isDocumentMark then failed .quotedScalar
    else
      let indented := cursor.skipWhile isSpaceOrTab
      match indented.lineBreak? with
      | some (c, after) => breaks fuel after (c :: done)
      | none => .ok (done.reverse, indented)

def breaksAt (cursor : Cursor) : Scanned := breaks (cursor.rest.length + 1) cursor []

/-- What is between two words: blanks on one line, or folded line breaks. -/
def gap (cursor : Cursor) : Scanned :=
  let (blanks, after) := cursor.span isSpaceOrTab
  if atEnd after.peek then failed .quotedScalar
  else
    match after.lineBreak? with
    | none => .ok (blanks, after)
    | some (first, next) => do
      let (more, stopped) ← breaksAt next
      return (fold first more, stopped)

/-- The number that so many hexadecimal digits write, and the place after them. -/
def code (length : Nat) (cursor : Cursor) : Except Fault (Nat × Cursor) :=
  let digits := cursor.rest.take length
  match if digits.length < length then none else Text.hexValue? digits with
  | some value => .ok (value, cursor.skip length)
  | none => failed .escapedScalar

/-- The character of a code point. Halves are not joined, not even two that make a pair. -/
def character (value : Nat) : Except Fault Char :=
  if 0x10FFFF < value then .error (.codePoint value)
  else if Text.isHalf value then .error (.half value)
  else .ok (Char.ofNat value)

def escape (cursor : Cursor) : Scanned :=
  let c := cursor.peek
  match escapes.lookup c, codeLengths.lookup c with
  | some meant, _ => .ok ([meant], cursor.step)
  | none, some length => do
    let (value, after) ← code length cursor.step
    return ([← character value], after)
  | none, none =>
    match cursor.lineBreak? with
    | some (_, after) => breaksAt after
    | none => failed .escapedScalar

/-- Characters that are neither blank nor special in quotes. -/
def isOrdinary (c : Char) : Bool := !(c = '\'' || c = '"' || c = '\\' || endsWord c)

/-- Reads up to the next blank, line break, end or closing quote. -/
def words (double : Bool) : Nat → Cursor → List Char → Scanned
  | 0, cursor, done => .ok (done, cursor)
  | fuel + 1, cursor, done =>
    let (run, after) := cursor.span isOrdinary
    let text := done ++ run
    let c := after.peek
    if !double && c = '\'' && after.peekAt 1 = '\'' then words double fuel (after.skip 2) (text ++ ['\''])
    else if (double && c = '\'') || (!double && (c = '"' || c = '\\')) then
      words double fuel after.step (text ++ [c])
    else if double && c = '\\' then do
      let (meant, next) ← escape after.step
      words double fuel next (text ++ meant)
    else .ok (text, after)

/-- Reads words and the gaps between them up to the closing quote. -/
def scanFrom (double : Bool) : Nat → Cursor → List Char → Scanned
  | 0, _, _ => failed .quotedScalar
  | fuel + 1, cursor, done => do
    let (text, after) ← words double (cursor.rest.length + 1) cursor done
    if after.peek = (if double then '"' else '\'') then return (text, after.step)
    let (blanks, next) ← gap after
    scanFrom double fuel next (text ++ blanks)

def scan (double : Bool) (cursor : Cursor) : Scanned :=
  scanFrom double (cursor.rest.length + 1) cursor.step []

end CheckCost.Yaml.Quoted
