import CheckCost.Number.Numeral
import CheckCost.Text.Hexadecimal
import CheckCost.Text.Utf8
import CheckCost.Yaml.Cursor
import CheckCost.Yaml.Fault

/-!
The tokens of a YAML text, and those among them that are written on their own: directives, names of
anchors and tags.
-/
namespace CheckCost.Yaml

inductive Directive where
  | version (major : Nat)
  | handle (handle address : List Char)
  | other
  deriving DecidableEq, Repr

inductive Token where
  | directive (directive : Directive)
  | documentStart
  | documentEnd
  | streamEnd
  | blockSequenceStart
  | blockMappingStart
  | blockEnd
  | flowSequenceStart
  | flowMappingStart
  | flowSequenceEnd
  | flowMappingEnd
  | key
  | value
  | blockEntry
  | flowEntry
  | aliasOf (name : List Char)
  | anchor (name : List Char)
  /-- A tag; without a handle the suffix is all of it. -/
  | tag (handle : Option (List Char)) (suffix : List Char)
  | scalar (text : List Char) (plain : Bool)
  /-- Nothing can be read from here on. -/
  | fault (fault : Fault)
  deriving DecidableEq, Repr

def Token.name : Token → String
  | directive _ => "<directive>"
  | documentStart => "<document start>"
  | documentEnd => "<document end>"
  | streamEnd => "<stream end>"
  | blockSequenceStart => "<block sequence start>"
  | blockMappingStart => "<block mapping start>"
  | blockEnd => "<block end>"
  | flowSequenceStart => "["
  | flowMappingStart => "\x7b"
  | flowSequenceEnd => "]"
  | flowMappingEnd => "\x7d"
  | key => "?"
  | value => ":"
  | blockEntry => "-"
  | flowEntry => ","
  | aliasOf _ => "<alias>"
  | anchor _ => "<anchor>"
  | tag .. => "<tag>"
  | scalar .. => "<scalar>"
  | fault _ => "<fault>"

def isNameChar (c : Char) : Bool := c.isAlphanum || c = '-' || c = '_'

/-- Characters of an address, apart from the escapes in it. -/
def isAddressChar (c : Char) : Bool := c.isAlphanum || "-;/?:@&=+$,_.!~*'()[]".toList.contains c

namespace Property

/-- The name after the mark of an anchor or an alias. -/
def name (activity : Activity) (cursor : Cursor) : Except Fault (List Char × Cursor) :=
  let (name, after) := cursor.step.span isNameChar
  let c := after.peek
  if name.isEmpty then failed activity
  else if endsWord c || "?:,]\x7d%@\x60".toList.contains c then .ok (name, after)
  else failed activity

/-- A handle: an exclamation mark, or a name between two of them. -/
def handle (activity : Activity) (cursor : Cursor) : Except Fault (List Char × Cursor) :=
  if cursor.peek != '!' then failed activity
  else if cursor.peekAt 1 = ' ' then .ok (['!'], cursor.step)
  else
    let (name, after) := cursor.step.span isNameChar
    if after.peek = '!' then .ok ('!' :: name ++ ['!'], after.step) else failed activity

/-- The bytes that consecutive percent signs with two digits each write. -/
def escapedBytes (activity : Activity) : Nat → Cursor → List UInt8 → Except Fault (List UInt8 × Cursor)
  | 0, cursor, done => .ok (done.reverse, cursor)
  | fuel + 1, cursor, done =>
    if cursor.peek != '%' then .ok (done.reverse, cursor)
    else
      match Text.hexDigit? (cursor.peekAt 1), Text.hexDigit? (cursor.peekAt 2) with
      | some high, some low =>
        escapedBytes activity fuel (cursor.skip 3) (UInt8.ofNat (high * 16 + low) :: done)
      | _, _ => failed activity

/-- Reads on in an address; `scanning` is what goes wrong if an escape in it does. -/
def addressFrom (scanning : Activity) : Nat → Cursor → List Char → Except Fault (List Char × Cursor)
  | 0, cursor, done => .ok (done, cursor)
  | fuel + 1, cursor, done =>
    let (run, after) := cursor.span isAddressChar
    if after.peek != '%' then .ok (done ++ run, after)
    else do
      let (bytes, next) ← escapedBytes scanning (after.rest.length + 1) after []
      match Text.Utf8.decode bytes with
      | .ok cs => addressFrom scanning fuel next (done ++ run ++ cs)
      | .error _ => failed scanning

/-- An address, which is not empty. -/
def address (scanning parsing : Activity) (cursor : Cursor) : Except Fault (List Char × Cursor) := do
  let (cs, after) ← addressFrom scanning (cursor.rest.length + 1) cursor []
  if after.index = cursor.index then failed parsing else return (cs, after)

/-- Another exclamation mark stands in the word that begins here. -/
def hasHandle (cursor : Cursor) : Bool :=
  ((cursor.step.rest.takeWhile (!isGapOrEnd ·)).contains '!')

def tag (cursor : Cursor) : Except Fault (Token × Cursor) := do
  let c := cursor.peekAt 1
  let (token, after) ←
    if c = '<' then do
      let (suffix, after) ← address .tag .tagAddress (cursor.skip 2)
      if after.peek = '>' then pure (Token.tag none suffix, after.step) else failed .tagAddress
    else if endsWord c then pure (Token.tag none ['!'], cursor.step)
    else do
      let (handle, afterHandle) ←
        if hasHandle cursor then handle .tag cursor else pure (['!'], cursor.step)
      let (suffix, after) ← address .tag .tagAddress afterHandle
      pure (Token.tag (some handle) suffix, after)
  if isGapOrEnd after.peek then return (token, after) else failed .tag

def isDigit (c : Char) : Bool := '0' ≤ c && c ≤ '9'

/-- The number that digits write, one at least. -/
def number (cursor : Cursor) : Except Fault (Nat × Cursor) :=
  let (digits, after) := cursor.span isDigit
  if digits.isEmpty then failed .directive
  else if NumberFault.digitLimit < digits.length then .error (.number (.tooManyDigits digits.length))
  else .ok (Number.natOf (digits.filterMap Text.asciiDigit?), after)

def version (cursor : Cursor) : Except Fault (Directive × Cursor) := do
  let (major, afterMajor) ← number cursor.skipSpaces
  if afterMajor.peek != '.' then failed .directive
  let (_, after) ← number afterMajor.step
  if isGapOrEnd after.peek then return (.version major, after) else failed .directive

def handleDirective (cursor : Cursor) : Except Fault (Directive × Cursor) := do
  let (handle, afterHandle) ← handle .directive cursor.skipSpaces
  if afterHandle.peek != ' ' then failed .directive
  let (address, after) ← address .directive .directiveAddress afterHandle.skipSpaces
  if isGapOrEnd after.peek then return (.handle handle address, after) else failed .directive

/-- Reads a directive from its percent sign on to the end of its line. -/
def directive (cursor : Cursor) : Except Fault (Token × Cursor) := do
  let (name, afterName) := cursor.step.span isNameChar
  if name.isEmpty || !isGapOrEnd afterName.peek then failed .directive
  let (directive, after) ←
    if name = "YAML".toList then version afterName
    else if name = "TAG".toList then handleDirective afterName
    else pure (Directive.other, afterName.skipWhile (!isBreak ·))
  let lineEnd := after.skipSpaces.skipComment
  if endsLine lineEnd.peek then return (.directive directive, lineEnd.skipLineBreak)
  else failed .directive

end Property

end CheckCost.Yaml
