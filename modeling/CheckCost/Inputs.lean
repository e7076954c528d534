import CheckCost.FileText
import CheckCost.Json.Reader
import CheckCost.Path
import CheckCost.Text.Blank

/-!
The two input files of a report, each a JSON array. A file that holds none counts as empty and leaves a
warning. What stops the reading is an integer that is too long, arrays and objects that nest too deep, and
a path that no file can have.
-/
namespace CheckCost

inductive ArrayFault where
  | unreadable (path : Path) (fault : FileFault)
  | notUtf8 (path : Path) (fault : Text.Utf8.Fault)
  | empty (path : Path)
  /-- The text is no JSON from this offset on, which lies at that line and column. -/
  | malformed (path : Path) (complaint : Json.Complaint) (offset line column : Nat)
  | notArray (path : Path) (kind : String)
  deriving DecidableEq, Repr

namespace ArrayFault

def message : ArrayFault → String
  | unreadable path fault => s!"cannot read {path.text}: {fault.reason}"
  | notUtf8 path fault => s!"{path.text} is not valid UTF-8: {fault.message}"
  | empty path => s!"{path.text} is empty"
  | malformed path complaint offset line column =>
    s!"invalid JSON in {path.text}: {complaint.message}: line {line} column {column} (char {offset})"
  | notArray path kind => s!"{path.text} must contain a JSON array, got {kind}"

/-- What is wrong where the text still has so many characters `left`. -/
def locate (path : Path) (cs : List Char) (complaint : Json.Complaint) (left : Nat) : ArrayFault :=
  let offset := cs.length - left
  let before := cs.take offset
  let line := before.count '\n' + 1
  let column := (before.reverse.takeWhile (· != '\n')).length + 1
  malformed path complaint offset line column

end ArrayFault

inductive InputFault where
  | array (fault : ArrayFault)
  | number (fault : NumberFault)
  | tooDeep (container : Json.Container)
  /-- Half of a pair without the other half, which the texts of this library do not hold. -/
  | half (unit : Nat)
  /-- No file can have the path. -/
  | impossiblePath
  deriving DecidableEq, Repr

def InputFault.message : InputFault → String
  | array fault => fault.message
  | number fault => fault.message
  | tooDeep container =>
    s!"maximum recursion depth exceeded while decoding a JSON {container.name} from a unicode string"
  | half _ => "half of a surrogate pair"
  | impossiblePath => FileFault.nul.reason

structure Inputs where
  trace : List Json
  types : List Json
  warnings : List String

namespace Inputs

/-- The room that the files are read with: what a thread of its own leaves of a thousand calls. -/
def usualRoom : Json.Room := some 989

def arrayOfText (room : Json.Room) (path : Path) (cs : List Char) : Except InputFault (List Json) :=
  if cs.all Text.isGap then .error (.array (.empty path))
  else
    match Json.ofCharsWithin room cs with
    | .error (.malformed complaint left) => .error (.array (.locate path cs complaint left))
    | .error (.number fault) => .error (.number fault)
    | .error (.tooDeep container) => .error (.tooDeep container)
    | .error (.half unit) => .error (.half unit)
    | .ok (.arr items) => .ok items
    | .ok .null => .error (.array (.empty path))
    | .ok value => .error (.array (.notArray path value.kind))

def array (room : Json.Room) (path : Path) : FileContent → Except InputFault (List Json)
  | .error .nul => .error .impossiblePath
  | .error fault => .error (.array (.unreadable path fault))
  | .ok bytes =>
    match FileText.ofBytes bytes with
    | .error fault => .error (.array (.notUtf8 path fault))
    | .ok cs => arrayOfText room path cs

/-- The array in a file, or none and a warning. -/
def arrayOrWarning (room : Json.Room) (label : String) (path : Path) (content : FileContent) :
    Except InputFault (List Json × List String) :=
  match array room path content with
  | .ok items => .ok (items, [])
  | .error (.array fault) => .ok ([], [s!"{label} file treated as empty: {fault.message}"])
  | .error fault => .error fault

def ofFiles (room : Json.Room) (tracePath typesPath : Path) (trace types : FileContent) :
    Except InputFault Inputs := do
  let (traceRows, traceWarnings) ← arrayOrWarning room "trace" tracePath trace
  let (typesRows, typesWarnings) ← arrayOrWarning room "types" typesPath types
  return ⟨traceRows, typesRows, traceWarnings ++ typesWarnings⟩

end Inputs

end CheckCost
