import CheckCost.Yaml.Scalar.Block
import CheckCost.Yaml.Scalar.Plain
import CheckCost.Yaml.Scalar.Quoted
import CheckCost.Yaml.Token

/-!
From text to tokens. Outside brackets indentation opens and closes collections. A key is only known for
one when its colon comes; until then its place is kept, so that the tokens before it can be put in
there. The list of tokens ends with the end of the text or with the fault that stopped the reading,
which hides what might still have become a key.
-/
namespace CheckCost.Yaml

/-- Where a key may have begun. -/
structure PossibleKey where
  /-- How many tokens were there before it. -/
  place : Nat
  /-- Nothing but a key can stand there. -/
  required : Bool
  index : Nat
  line : Nat
  column : Nat
  deriving DecidableEq, Repr

structure Layout where
  cursor : Cursor
  /-- The tokens so far, the last one first. -/
  tokens : List Token
  count : Nat
  /-- How many brackets are open. -/
  depth : Nat
  /-- The columns of the open block collections, the innermost first. -/
  indents : List Nat
  /-- A key may begin here. -/
  allowsKey : Bool
  /-- The last possible key inside each number of brackets. -/
  keys : List (Nat × PossibleKey)

namespace Layout

def start (cs : List Char) : Layout := ⟨.ofChars cs, [], 0, 0, [], true, []⟩

def inFlow (layout : Layout) : Bool := layout.depth != 0

/-- The least column that belongs to the innermost collection. -/
def minimum (layout : Layout) : Nat :=
  match layout.indents with
  | [] => 0
  | indent :: _ => indent + 1

def push (layout : Layout) (token : Token) : Layout :=
  { layout with tokens := token :: layout.tokens, count := layout.count + 1 }

/-- Puts a token behind so many others. -/
def pushAt (layout : Layout) (place : Nat) (token : Token) : Layout :=
  { layout with
    tokens := layout.tokens.insertIdx (layout.count - place) token
    count := layout.count + 1 }

/-- A key must not be longer than this. -/
def longestKey : Nat := 1024

def PossibleKey.isStale (cursor : Cursor) (key : PossibleKey) : Bool :=
  key.line != cursor.line || longestKey < cursor.index - key.index

/-- Forgets the keys whose colon can no longer come. -/
def dropStaleKeys (layout : Layout) : Except Fault Layout :=
  let isStale := fun (entry : Nat × PossibleKey) => PossibleKey.isStale layout.cursor entry.2
  if layout.keys.any fun entry => isStale entry && entry.2.required then failed .simpleKey
  else .ok { layout with keys := layout.keys.filter (!isStale ·) }

def dropKey (layout : Layout) : Except Fault Layout :=
  match layout.keys.lookup layout.depth with
  | some key =>
    if key.required then failed .simpleKey
    else .ok { layout with keys := layout.keys.filter (·.1 != layout.depth) }
  | none => .ok layout

def noteKey (layout : Layout) : Except Fault Layout :=
  if !layout.allowsKey then .ok layout
  else do
    let cursor := layout.cursor
    let key : PossibleKey :=
      { place := layout.count
        required := !layout.inFlow && layout.indents.head? = some cursor.column
        index := cursor.index
        line := cursor.line
        column := cursor.column }
    let cleared ← layout.dropKey
    return { cleared with keys := (layout.depth, key) :: cleared.keys }

/-- Closes the innermost collections as long as they are to be closed. -/
def closeWhile (closes : Nat → Bool) (layout : Layout) : Layout :=
  let closed := layout.indents.takeWhile closes
  closed.foldl (fun layout _ => layout.push .blockEnd)
    { layout with indents := layout.indents.drop closed.length }

/-- Closes the block collections that a line at this column does not belong to. -/
def closeTo (column : Nat) (layout : Layout) : Layout :=
  if layout.inFlow then layout else layout.closeWhile (column < ·)

def closeAll (layout : Layout) : Layout :=
  if layout.inFlow then layout else layout.closeWhile fun _ => true

/-- A collection at this column would be inside the innermost one. -/
def opensAt (layout : Layout) (column : Nat) : Bool :=
  !layout.inFlow && layout.minimum ≤ column

/-- Opens a block collection here, unless it is open already. -/
def openBlock (token : Token) (layout : Layout) : Layout :=
  if layout.opensAt layout.cursor.column then
    { layout with indents := layout.cursor.column :: layout.indents }.push token
  else layout

def skip (n : Nat) (layout : Layout) : Layout := { layout with cursor := layout.cursor.skip n }

def allowKey (allowsKey : Bool) (layout : Layout) : Layout := { layout with allowsKey }

/-- Goes to the next token. After a line break outside brackets a key may begin. -/
def toNextToken : Nat → Layout → Layout
  | 0, layout => layout
  | fuel + 1, layout =>
    let cursor := layout.cursor.skipSpaces.skipComment
    match cursor.lineBreak? with
    | some (_, after) =>
      toNextToken fuel { layout with cursor := after, allowsKey := layout.allowsKey || !layout.inFlow }
    | none => { layout with cursor }

def streamEnd (layout : Layout) : Except Fault Layout := do
  return (← layout.closeAll.dropKey).push .streamEnd

def directive (layout : Layout) : Except Fault Layout := do
  let cleared := (← layout.closeAll.dropKey).allowKey false
  let (token, cursor) ← Property.directive layout.cursor
  return { cleared with cursor }.push token

def documentMark (token : Token) (layout : Layout) : Except Fault Layout := do
  return (((← layout.closeAll.dropKey).allowKey false).skip 3).push token

def flowStart (token : Token) (layout : Layout) : Except Fault Layout := do
  let noted := (← layout.noteKey).allowKey true
  return ({ noted with depth := noted.depth + 1 }.skip 1).push token

def flowEnd (token : Token) (layout : Layout) : Except Fault Layout := do
  let cleared := (← layout.dropKey).allowKey false
  return ({ cleared with depth := cleared.depth - 1 }.skip 1).push token

def flowEntry (layout : Layout) : Except Fault Layout := do
  return (((← layout.dropKey).allowKey true).skip 1).push .flowEntry

def blockEntry (layout : Layout) : Except Fault Layout := do
  if !layout.inFlow && !layout.allowsKey then malformed .misplacedEntry
  let cleared ← ((layout.openBlock .blockSequenceStart).allowKey true).dropKey
  return (cleared.skip 1).push .blockEntry

def key (layout : Layout) : Except Fault Layout := do
  if !layout.inFlow && !layout.allowsKey then malformed .misplacedKey
  let cleared ← ((layout.openBlock .blockMappingStart).allowKey !layout.inFlow).dropKey
  return (cleared.skip 1).push .key

/-- Puts the tokens of a key, and of the mapping that it begins, where the key was noted. -/
def confirmKey (key : PossibleKey) (layout : Layout) : Layout :=
  let opens := layout.opensAt key.column
  let confirmed :=
    { layout with keys := layout.keys.filter (·.1 != layout.depth) }.pushAt key.place .key
  if opens then
    { confirmed with indents := key.column :: confirmed.indents }.pushAt key.place .blockMappingStart
  else confirmed

def value (layout : Layout) : Except Fault Layout := do
  match layout.keys.lookup layout.depth with
  | some key => return (((layout.confirmKey key).allowKey false).skip 1).push .value
  | none =>
    if !layout.inFlow && !layout.allowsKey then malformed .misplacedValue
    let cleared ← ((layout.openBlock .blockMappingStart).allowKey !layout.inFlow).dropKey
    return (cleared.skip 1).push .value

def property (scan : Cursor → Except Fault (Token × Cursor)) (layout : Layout) :
    Except Fault Layout := do
  let noted := (← layout.noteKey).allowKey false
  let (token, cursor) ← scan layout.cursor
  return { noted with cursor }.push token

def aliasToken (cursor : Cursor) : Except Fault (Token × Cursor) := do
  let (name, after) ← Property.name .aliasName cursor
  return (.aliasOf name, after)

def anchorToken (cursor : Cursor) : Except Fault (Token × Cursor) := do
  let (name, after) ← Property.name .anchor cursor
  return (.anchor name, after)

def quotedToken (double : Bool) (cursor : Cursor) : Except Fault (Token × Cursor) := do
  let (text, after) ← Quoted.scan double cursor
  return (.scalar text false, after)

def blockScalar (folded : Bool) (layout : Layout) : Except Fault Layout := do
  let cleared ← (layout.allowKey true).dropKey
  let (text, cursor) ← Block.scan folded layout.minimum layout.cursor
  return { cleared with cursor }.push (.scalar text false)

def plain (layout : Layout) : Except Fault Layout := do
  let noted ← layout.noteKey
  let scanned := Plain.scan layout.inFlow layout.minimum layout.cursor
  return { noted with cursor := scanned.after, allowsKey := scanned.broke }.push
    (.scalar scanned.text true)

/-- A plain scalar can begin here. Some marks begin one only before another character of a word. -/
def beginsPlain (layout : Layout) : Bool :=
  let c := layout.cursor.peek
  !(endsWord c || "-?:,[]\x7b\x7d#&*!|>'\"%@\x60".toList.contains c) ||
    (!endsWord (layout.cursor.peekAt 1) && (c = '-' || (!layout.inFlow && (c = '?' || c = ':'))))

def token (layout : Layout) : Except Fault Layout :=
  let cursor := layout.cursor
  let c := cursor.peek
  let standsAlone := endsWord (cursor.peekAt 1)
  if atEnd c then layout.streamEnd
  else if c = '%' && cursor.column = 0 then layout.directive
  else if cursor.column = 0 && cursor.isMark '-' then layout.documentMark .documentStart
  else if cursor.column = 0 && cursor.isMark '.' then layout.documentMark .documentEnd
  else if c = '[' then layout.flowStart .flowSequenceStart
  else if c = '\x7b' then layout.flowStart .flowMappingStart
  else if c = ']' then layout.flowEnd .flowSequenceEnd
  else if c = '\x7d' then layout.flowEnd .flowMappingEnd
  else if c = ',' then layout.flowEntry
  else if c = '-' && standsAlone then layout.blockEntry
  else if c = '?' && (layout.inFlow || standsAlone) then layout.key
  else if c = ':' && (layout.inFlow || standsAlone) then layout.value
  else if c = '*' then layout.property aliasToken
  else if c = '&' then layout.property anchorToken
  else if c = '!' then layout.property Property.tag
  else if c = '|' && !layout.inFlow then layout.blockScalar false
  else if c = '>' && !layout.inFlow then layout.blockScalar true
  else if c = '\'' then layout.property (quotedToken false)
  else if c = '"' then layout.property (quotedToken true)
  else if layout.beginsPlain then layout.plain
  else failed .nextToken

def next (layout : Layout) : Except Fault Layout := do
  let there := toNextToken (layout.cursor.rest.length + 1) layout
  let settled ← there.dropStaleKeys
  (settled.closeTo settled.cursor.column).token

/-- The place of the first key whose colon may still come, or else of the next token. -/
def horizon (layout : Layout) : Nat :=
  let pending := layout.keys.filter (!PossibleKey.isStale layout.cursor ·.2)
  (pending.map (·.2.place)).foldl min layout.count

/-- The tokens so far that will stay as they are, the last one first. -/
def decided (layout : Layout) : List Token := layout.tokens.drop (layout.count - layout.horizon)

/-- All tokens from here on. Each step but the last takes a character at least. -/
def run : Nat → Layout → List Token
  | 0, layout => layout.tokens.reverse
  | fuel + 1, layout =>
    match layout.next with
    | .error fault => (Token.fault fault :: layout.decided).reverse
    | .ok after =>
      if after.tokens.head? = some .streamEnd then after.tokens.reverse else run fuel after

end Layout

def isDocumentChar (c : Char) : Bool :=
  c = '\t' || c = '\n' || c = '\r' || (' ' ≤ c && c ≤ '~') || c = '\u0085' ||
    ('\u00a0' ≤ c && c ≤ '\ufffd') || 0x10000 ≤ c.toNat

/-- The tokens of a text. A byte order mark at its start is no part of it. -/
def Token.ofChars (cs : List Char) : List Token :=
  match cs.find? (!isDocumentChar ·) with
  | some c => [.fault (.malformed (.character c.toNat))]
  | none =>
    let layout := Layout.start cs
    let cursor := if layout.cursor.peek = '\ufeff' then layout.cursor.step else layout.cursor
    { layout with cursor }.run (cs.length + 1)

end CheckCost.Yaml
