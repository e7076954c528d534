import CheckCost.Number.Fault

/-!
Why a text is no usable YAML document. Either its form is wrong, or a number in it is too long, or it is
well formed and a scalar does not have the value that its tag promises.
-/
namespace CheckCost.Yaml

/-- What was being done when the text turned out malformed. -/
inductive Activity where
  | nextToken
  | simpleKey
  | directive
  | directiveAddress
  | anchor
  | aliasName
  | tag
  | tagAddress
  | blockScalar
  | quotedScalar
  | escapedScalar
  | node
  | blockNode
  | flowNode
  | blockCollection
  | blockMapping
  | flowSequence
  | flowMapping
  | mapping
  | orderedMap
  | pairs
  deriving DecidableEq, Repr

def Activity.phrase : Activity → String
  | nextToken => "scanning for the next token"
  | simpleKey => "scanning a simple key"
  | directive => "scanning a directive"
  | directiveAddress => "parsing a directive"
  | anchor => "scanning an anchor"
  | aliasName => "scanning an alias"
  | tag => "scanning a tag"
  | tagAddress => "parsing a tag"
  | blockScalar => "scanning a block scalar"
  | quotedScalar => "scanning a quoted scalar"
  | escapedScalar => "scanning a double-quoted scalar"
  | node => "parsing a node"
  | blockNode => "parsing a block node"
  | flowNode => "parsing a flow node"
  | blockCollection => "parsing a block collection"
  | blockMapping => "parsing a block mapping"
  | flowSequence => "parsing a flow sequence"
  | flowMapping => "parsing a flow mapping"
  | mapping => "constructing a mapping"
  | orderedMap => "constructing an ordered map"
  | pairs => "constructing pairs"

inductive Trouble where
  | during (activity : Activity)
  /-- A character that no document may hold. -/
  | character (code : Nat)
  | misplacedEntry
  | misplacedKey
  | misplacedValue
  /-- Something else stands where a document has to begin. -/
  | noDocumentStart (found : String)
  | secondVersion
  | foreignVersion
  | secondHandle (handle : String)
  | secondDocument
  | unknownAlias (name : String)
  | secondAnchor (name : String)
  | unknownTag (tag : String)
  /-- A node of one kind where its tag needs another. -/
  | wrongKind (needed found : String)
  | notAscii (text : String)
  | notBase64 (reason : String)
  deriving DecidableEq, Repr

/-- At least four hexadecimal digits. -/
def codeDigits (code : Nat) : String :=
  let digits := Nat.toDigits 16 code
  String.ofList (List.replicate (4 - digits.length) '0' ++ digits)

def Trouble.message : Trouble → String
  | during activity => s!"while {activity.phrase}"
  | character code =>
    s!"unacceptable character #x{codeDigits code}: special characters are not allowed"
  | misplacedEntry => "sequence entries are not allowed here"
  | misplacedKey => "mapping keys are not allowed here"
  | misplacedValue => "mapping values are not allowed here"
  | noDocumentStart found =>
    s!"expected '<document start>', but found {Text.quoted found}"
  | secondVersion => "found duplicate YAML directive"
  | foreignVersion => "found incompatible YAML document (version 1.* is required)"
  | secondHandle handle => s!"duplicate tag handle {Text.quoted handle}"
  | secondDocument => "expected a single document in the stream"
  | unknownAlias name => s!"found undefined alias {Text.quoted name}"
  | secondAnchor name => s!"found duplicate anchor {Text.quoted name}; first occurrence"
  | unknownTag tag => s!"could not determine a constructor for the tag {Text.quoted tag}"
  | wrongKind needed found => s!"expected a {needed} node, but found {found}"
  | notAscii text => s!"failed to convert base64 data into ascii: {text}"
  | notBase64 reason => s!"failed to decode base64 data: {reason}"

/-- Why a scalar that looks like a moment is none. -/
inductive MomentFault where
  | form
  | year
  | month
  | day
  | hour
  | minute
  | second
  /-- An offset from universal time of a day or more, in minutes. -/
  | offset (minutes : Int)
  deriving DecidableEq, Repr

/-- Parts of a span of time that are not zero. -/
def spanText (minutes : Int) : String :=
  let days := minutes.fdiv 1440
  let seconds := minutes.fmod 1440 * 60
  let parts :=
    (if days = 0 then [] else [s!"days={days}"]) ++
      (if seconds = 0 then [] else [s!"seconds={seconds}"])
  let shown := ", ".intercalate parts
  s!"datetime.timedelta({shown})"

def MomentFault.message : MomentFault → String
  | form => "'NoneType' object has no attribute 'groupdict'"
  | year => "year 0 is out of range"
  | month => "month must be in 1..12"
  | day => "day is out of range for month"
  | hour => "hour must be in 0..23"
  | minute => "minute must be in 0..59"
  | second => "second must be in 0..59"
  | offset minutes =>
    "offset must be a timedelta strictly between -timedelta(hours=24) and timedelta(hours=24), not " ++
      spanText minutes ++ "."

inductive Fault where
  | malformed (trouble : Trouble)
  | number (fault : NumberFault)
  | moment (fault : MomentFault)
  /-- A scalar tagged as an integer or a double that holds no digit at all. -/
  | noDigits
  /-- A scalar tagged as a truth value that is no word for one. -/
  | noTruth (word : String)
  /-- A collection that names a scalar which stands for it, tagged as a moment. -/
  | noText
  /-- An escape for a number that is no code point. -/
  | codePoint (code : Nat)
  /-- An escape for half of a pair, which the texts of this library do not hold. -/
  | half (code : Nat)
  deriving DecidableEq, Repr

/-- Codes from here on are not even looked up. -/
def codeLimit : Nat := 0x80000000

def Fault.message : Fault → String
  | malformed trouble => trouble.message
  | number fault => fault.message
  | moment fault => fault.message
  | noDigits => "string index out of range"
  | noTruth word => Text.quoted word
  | noText => "expected string or bytes-like object, got 'list'"
  | codePoint code =>
    if code < codeLimit then "chr() arg not in range(0x110000)"
    else "Python int too large to convert to C int"
  | half _ => "half of a surrogate pair"

def malformed (trouble : Trouble) : Except Fault α := .error (.malformed trouble)

def failed (activity : Activity) : Except Fault α := malformed (.during activity)

end CheckCost.Yaml
