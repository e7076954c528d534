import CheckCost.Glob.Inclusion
import CheckCost.Inputs
import CheckCost.Ranking
import CheckCost.Settings

/-!
The report on loaded inputs: events and types are read, joined, filtered and ranked.
-/
namespace CheckCost

inductive ReportFault where
  | row (fault : RowFault)
  | pattern (fault : Glob.Fault)
  deriving DecidableEq, Repr

def ReportFault.message : ReportFault → String
  | row fault => fault.message
  | pattern fault => fault.message

instance : MonadLift (Except NumberFault) (Except ReportFault) where
  monadLift := Except.mapError fun fault => .row (.number fault)

instance : MonadLift (Except RowFault) (Except ReportFault) where
  monadLift := Except.mapError ReportFault.row

instance : MonadLift (Except Glob.Fault) (Except ReportFault) where
  monadLift := Except.mapError ReportFault.pattern

def Inputs.metrics [Duration D] (kinds : CheckKinds) (marker : String) (inputs : Inputs) :
    Except RowFault (List (Metric D)) := do
  let trace : Trace D ← Trace.ofRows inputs.trace
  let catalog ← Catalog.ofRows inputs.types
  let index ← CheckIndex.ofTrace kinds trace
  return catalog.metrics index marker

/-- A pattern that cannot be used is an error even if there is nothing to filter. -/
def Report.ofInputs [Duration D] (settings : Settings) (inputs : Inputs) :
    Except ReportFault (Report D) := do
  let metrics ← inputs.metrics settings.kinds settings.dependencyMarker
  let kept ← Glob.select settings.pattern metrics
  let limits : Limits := ⟨settings.fileLimit, settings.symbolLimit⟩
  let counts : Counts := ⟨inputs.trace.length, inputs.types.length, metrics.length⟩
  Report.ofMetrics settings.strategy limits counts inputs.warnings kept

end CheckCost
