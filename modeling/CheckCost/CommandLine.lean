import CheckCost.CommandLine.Options
import CheckCost.Report.Assembly
import CheckCost.Report.Document
import CheckCost.Report.Text
import CheckCost.Settings.Document

/-!
The command: it settles what to do from its options and a settings file, reads the two inputs, and
writes the report. How files are read is left open.
-/
namespace CheckCost.CommandLine

inductive RunFault where
  | settings (fault : DocumentFault)
  | inputs (fault : InputFault)
  | report (fault : ReportFault)
  deriving DecidableEq, Repr

namespace RunFault

/-- A fault that the user is told about. Any other one breaks the command off. -/
def isExplained : RunFault → Bool
  | settings (.unreadable ..) | settings (.notMapping ..) => true
  | settings (.notYaml _ (.malformed _)) => true
  | settings (.settings (.invalid _)) => true
  | report (.pattern _) => true
  | _ => false

def message : RunFault → String
  | settings fault => fault.message
  | inputs fault => fault.message
  | report fault => fault.message

def explanation (fault : RunFault) : String := Text.plain s!"ts-rank: {fault.message}"

end RunFault

variable {m : Type → Type} [Monad m]

def settingsFor (read : Path → m FileContent) (env : Environment) (working : Path)
    (options : Options) : m (Except DocumentFault Settings) := do
  match options.config with
  | none =>
    return (Settings.ofRaw working [] options.overrides).mapError .settings
  | some path =>
    return Settings.ofFile env working path (← read path) options.overrides

def inputsFor (room : Json.Room) (read : Path → m FileContent) (working : Path) (settings : Settings) :
    m (Except InputFault Inputs) := do
  let tracePath := settings.tracePath working
  let typesPath := settings.typesPath working
  return Inputs.ofFiles room tracePath typesPath (← read tracePath) (← read typesPath)

def reportFor (room : Json.Room) (read : Path → m FileContent) (working : Path) (settings : Settings) :
    m (Except RunFault (Report Float)) := do
  match ← inputsFor room read working settings with
  | .error fault => return .error (.inputs fault)
  | .ok inputs => return (Report.ofInputs settings inputs).mapError .report

def run (read : Path → m FileContent) (env : Environment) (working : Path) (options : Options) :
    m (Except RunFault (Settings × Report Float)) := do
  match ← settingsFor read env working options with
  | .error fault => return .error (.settings fault)
  | .ok settings =>
    return (← reportFor Inputs.usualRoom read working settings).map fun report => (settings, report)

def output (working : Path) (format : OutputFormat) (elapsed : Float) (settings : Settings)
    (report : Report Float) : String :=
  match format with
  | .json => report.printed
  | .text => report.text working settings (some elapsed)

end CheckCost.CommandLine
