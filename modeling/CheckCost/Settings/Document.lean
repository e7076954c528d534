import CheckCost.Environment
import CheckCost.FileText
import CheckCost.Settings
import CheckCost.Yaml.Meaning

/-!
Settings files. Environment variables are expanded in the whole text before it is read as YAML; an
empty document counts as an empty mapping.
-/
namespace CheckCost

inductive DocumentFault where
  | unreadable (path : Path) (fault : FileFault)
  | notUtf8 (fault : Text.Utf8.Fault)
  | notYaml (path : Path) (fault : Yaml.Fault)
  | notMapping (path : Path) (kind : String)
  | settings (fault : SettingsFault)
  deriving DecidableEq, Repr

namespace SettingsFault

def heading (problems : List Problem) : String :=
  let count := problems.length
  if count = 1 then "1 validation error for RankConfig"
  else s!"{count} validation errors for RankConfig"

def message : SettingsFault → String
  | foreignName => "keywords must be strings"
  | invalid problems => heading problems
  | impossiblePath => FileFault.nul.reason

end SettingsFault

namespace DocumentFault

def message : DocumentFault → String
  | unreadable path fault =>
    s!"cannot read config {path.text}: [Errno {fault.code}] {fault.reason}: " ++ Text.quoted path.text
  | notUtf8 fault => fault.message
  | notYaml path fault => s!"cannot read config {path.text}: {fault.message}"
  | notMapping path kind => s!"config {path.text} must contain a mapping, got {kind}"
  | settings fault => fault.message

end DocumentFault

namespace Settings

def mappingOf (env : Environment) (path : Path) (text : String) :
    Except DocumentFault (List (Yaml.Value × Yaml.Value)) := do
  let value ← (Yaml.Value.ofText (env.expand text)).mapError (.notYaml path)
  match value with
  | .map fields => return fields
  | value => if value.isEmpty then return [] else .error (.notMapping path value.kind)

/-- A path that no file can have is refused like one in the settings. -/
def notRead (path : Path) : FileFault → DocumentFault
  | .nul => .settings .impossiblePath
  | fault => .unreadable path fault

def mapping (env : Environment) (path : Path) (content : FileContent) :
    Except DocumentFault (List (Yaml.Value × Yaml.Value)) := do
  let bytes ← content.mapError (notRead path)
  let text ← (FileText.ofBytes bytes).mapError .notUtf8
  mappingOf env path (String.ofList text)

/-- The settings of a mapping, with explicit ones over them. -/
def ofMapping (working : Path) (fields : List (Yaml.Value × Yaml.Value)) (overrides : RawSettings) :
    Except SettingsFault Settings :=
  match RawSettings.ofFields? fields with
  | some raw => ofRaw working raw overrides
  | none => .error .foreignName

def ofFile (env : Environment) (working path : Path) (content : FileContent)
    (overrides : RawSettings) : Except DocumentFault Settings := do
  let fields ← mapping env path content
  (ofMapping working fields overrides).mapError .settings

end Settings

end CheckCost
