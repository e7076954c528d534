import CheckCost.Yaml.Cursor

/-!
Scalars without quotes. They end at a comment, at a colon before a gap, at brackets and commas inside
flow collections, and where a line is not indented enough. Line breaks inside them are folded.
-/
namespace CheckCost.Yaml.Plain

def isFlowMark (c : Char) : Bool :=
  c = ',' || c = '?' || c = '[' || c = ']' || c = '\x7b' || c = '\x7d'

/-- A colon ends a scalar only before these. -/
def endsKey (inFlow : Bool) (c : Char) : Bool :=
  endsWord c || (inFlow && c != '?' && isFlowMark c)

/-- The characters up to the next place where the scalar may end. -/
def word (inFlow : Bool) : List Char → List Char
  | [] => []
  | c :: rest =>
    if endsWord c || (c = ':' && endsKey inFlow (rest.headD '\x00')) || (inFlow && isFlowMark c) then []
    else c :: word inFlow rest

/-- What is between two words: blanks on one line, or folded line breaks. `broke` tells that a line
ended, after which a key may begin. -/
structure Gap where
  folded : List Char
  broke : Bool
  after : Cursor

/-- Further breaks after the first, with the spaces among them; nothing if a document mark stops it. -/
def breaks : Nat → Cursor → List Char → Option (List Char) × Cursor
  | 0, cursor, done => (some done.reverse, cursor)
  | fuel + 1, cursor, done =>
    if cursor.peek = ' ' then breaks fuel cursor.step done
    else
      match cursor.lineBreak? with
      | none => (some done.reverse, cursor)
      | some (c, after) =>
        if after.isDocumentMark then (none, after) else breaks fuel after (c :: done)

def gap (cursor : Cursor) : Gap :=
  let (spaces, after) := cursor.span (· = ' ')
  match after.lineBreak? with
  | none => ⟨spaces, false, after⟩
  | some (first, next) =>
    if next.isDocumentMark then ⟨[], true, next⟩
    else
      match breaks (next.rest.length + 1) next [] with
      | (none, stopped) => ⟨[], true, stopped⟩
      | (some more, stopped) => ⟨fold first more, true, stopped⟩

/-- The text of a scalar, whether the last gap ended a line, and the place after that gap. -/
structure Scanned where
  text : List Char
  broke : Bool
  after : Cursor

/-- Reads on at a word; `spaces` lies between it and the text so far. A line belongs to the scalar only
if it is indented by `indent` at least, unless it is inside a flow collection. -/
def scanFrom (inFlow : Bool) (indent : Nat) : Nat → Cursor → List Char → List Char → Bool → Scanned
  | 0, cursor, done, _, broke => ⟨done, broke, cursor⟩
  | fuel + 1, cursor, done, spaces, broke =>
    let run := if cursor.peek = '#' then [] else word inFlow cursor.rest
    if run.isEmpty then ⟨done, broke, cursor⟩
    else
      let found := gap (cursor.skip run.length)
      let text := done ++ spaces ++ run
      if found.folded.isEmpty || found.after.peek = '#' ||
          (!inFlow && found.after.column < indent) then ⟨text, found.broke, found.after⟩
      else scanFrom inFlow indent fuel found.after text found.folded found.broke

def scan (inFlow : Bool) (indent : Nat) (cursor : Cursor) : Scanned :=
  scanFrom inFlow indent (cursor.rest.length + 1) cursor [] [] false

end CheckCost.Yaml.Plain
