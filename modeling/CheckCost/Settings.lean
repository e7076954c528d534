import CheckCost.Settings.Raw
import CheckCost.Settings.Validation

/-!
The settings of a report. Every setting has a default; all problems of all settings are reported at
once.
-/
namespace CheckCost

structure Settings where
  traceFile : Path
  typesFile : Path
  pattern : String
  fileLimit : Int
  symbolLimit : Int
  strategy : Strategy
  kinds : CheckKinds
  /-- A path that holds this text is third-party. -/
  dependencyMarker : String
  /-- So many characters of a name are shown. -/
  nameWidth : Int
  /-- Other paths are relative to this one. -/
  base : Path

inductive SettingsFault where
  /-- A name is no text. -/
  | foreignName
  | invalid (problems : List Problem)
  /-- An input file has a path that no file can have. -/
  | impossiblePath
  deriving DecidableEq, Repr

namespace Settings

def locate (working : Path) (settings : Settings) (file : Path) : Path :=
  Path.resolve working (settings.base.join file)

def tracePath (working : Path) (settings : Settings) : Path :=
  settings.locate working settings.traceFile

def typesPath (working : Path) (settings : Settings) : Path :=
  settings.locate working settings.typesFile

/-- A setting's value, or its default, or what is wrong with it. -/
def read (raw : RawSettings) (field : String) (default : α)
    (check : Yaml.Value → Except (List Problem) α) : Except (List Problem) α :=
  match raw.lookup field with
  | some value => check value
  | none => .ok default

/-- A check of a value that is not a list. -/
def single (check : Yaml.Value → Except ProblemKind α) (field : String) (value : Yaml.Value) :
    Except (List Problem) α :=
  (check value).mapError fun kind => [⟨field, none, kind⟩]

def readSingle (raw : RawSettings) (field : String) (default : α)
    (check : Yaml.Value → Except ProblemKind α) : Except (List Problem) α :=
  read raw field default (single check field)

def problemsOf : Except (List Problem) α → List Problem
  | .ok _ => []
  | .error problems => problems

def validate (working : Path) (raw : RawSettings) : Except (List Problem) Settings :=
  let traceFile := readSingle raw "trace_file" (Path.ofString "./.tsTrace/trace.json") Validation.path
  let typesFile := readSingle raw "types_file" (Path.ofString "./.tsTrace/types.json") Validation.path
  let pattern := readSingle raw "pattern" "**/*" Validation.text
  let fileLimit := readSingle raw "file_limit" 50 (Validation.integerFrom 0)
  let symbolLimit := readSingle raw "symbol_limit" 10 (Validation.integerFrom 0)
  let strategy := readSingle raw "strategy" .files Validation.strategy
  let names := read raw "check_names" CheckKinds.structural.names (Validation.texts "check_names")
  let categories :=
    read raw "check_categories" CheckKinds.structural.categories (Validation.texts "check_categories")
  let marker := readSingle raw "dependency_marker" "/node_modules" Validation.text
  let nameWidth := readSingle raw "name_width" 30 (Validation.integerFrom 1)
  let base := readSingle raw "cwd" working Validation.path
  let settings : Except (List Problem) Settings := do
    return {
      traceFile := ← traceFile
      typesFile := ← typesFile
      pattern := ← pattern
      fileLimit := ← fileLimit
      symbolLimit := ← symbolLimit
      strategy := ← strategy
      kinds := ⟨← names, ← categories⟩
      dependencyMarker := ← marker
      nameWidth := ← nameWidth
      base := ← base }
  settings.mapError fun _ =>
    problemsOf traceFile ++ problemsOf typesFile ++ problemsOf pattern ++ problemsOf fileLimit ++
      problemsOf symbolLimit ++ problemsOf strategy ++ problemsOf names ++ problemsOf categories ++
      problemsOf marker ++ problemsOf nameWidth ++ problemsOf base

/-- The settings of a file, or of none, with explicit ones over them. -/
def ofRaw (working : Path) (raw overrides : RawSettings) : Except SettingsFault Settings := do
  let merged := raw.canonical.override overrides
  let settings ← (validate working merged).mapError .invalid
  if (settings.base.join settings.traceFile).holdsNul || (settings.base.join settings.typesFile).holdsNul
  then .error .impossiblePath
  else .ok settings

def description (working : Path) (settings : Settings) : List (String × Json) :=
  [("trace_file", .str (settings.tracePath working).text),
    ("types_file", .str (settings.typesPath working).text),
    ("pattern", .str settings.pattern),
    ("file_limit", .int settings.fileLimit),
    ("symbol_limit", .int settings.symbolLimit),
    ("mode", .str settings.strategy.name),
    ("cwd", .str settings.base.text)]

end Settings

end CheckCost
