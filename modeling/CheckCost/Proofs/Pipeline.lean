import CheckCost.Proofs.Outcome
import CheckCost.Report.Assembly

/-!
A report taken apart into its stages: it is there exactly if the metrics, the pattern and the ranking are.
-/
namespace CheckCost

open Outcome

variable {D : Type} [Duration D]

theorem Inputs.metrics_ok_iff {kinds : CheckKinds} {marker : String} {inputs : Inputs}
    {metrics : List (Metric D)} :
    inputs.metrics kinds marker = .ok metrics ↔
      ∃ (trace : Trace D) (catalog : Catalog) (index : CheckIndex D),
        Trace.ofRows inputs.trace = .ok trace ∧ Catalog.ofRows inputs.types = .ok catalog ∧
          CheckIndex.ofTrace kinds trace = .ok index ∧ catalog.metrics index marker = metrics := by
  constructor
  · intro run
    obtain ⟨trace, readTrace, run⟩ := bind_ok_iff.mp run
    obtain ⟨catalog, readCatalog, run⟩ := bind_ok_iff.mp run
    obtain ⟨index, built, run⟩ := bind_ok_iff.mp run
    exact ⟨trace, catalog, index, mapError_ok_iff.mp readTrace, readCatalog, mapError_ok_iff.mp built,
      Except.ok.inj run⟩
  · rintro ⟨trace, catalog, index, readTrace, readCatalog, built, rfl⟩
    refine bind_ok_iff.mpr ⟨trace, mapError_ok_iff.mpr readTrace, ?_⟩
    refine bind_ok_iff.mpr ⟨catalog, readCatalog, ?_⟩
    exact bind_ok_iff.mpr ⟨index, mapError_ok_iff.mpr built, rfl⟩

/-- The report that the settings ask for of some metrics. -/
def Report.ofFound (settings : Settings) (inputs : Inputs) (metrics kept : List (Metric D)) :
    Except NumberFault (Report D) :=
  ofMetrics settings.strategy ⟨settings.fileLimit, settings.symbolLimit⟩
    ⟨inputs.trace.length, inputs.types.length, metrics.length⟩ inputs.warnings kept

theorem Report.ofInputs_ok_iff {settings : Settings} {inputs : Inputs} {report : Report D} :
    ofInputs settings inputs = .ok report ↔
      ∃ metrics glob, inputs.metrics settings.kinds settings.dependencyMarker = .ok metrics ∧
        Glob.compile settings.pattern = .ok glob ∧
          ofFound settings inputs metrics (glob.filter metrics) = .ok report := by
  constructor
  · intro run
    obtain ⟨metrics, found, run⟩ := bind_ok_iff.mp run
    obtain ⟨kept, selected, run⟩ := bind_ok_iff.mp run
    obtain ⟨glob, compiled, same⟩ := bind_ok_iff.mp (mapError_ok_iff.mp selected)
    cases same
    exact ⟨metrics, glob, mapError_ok_iff.mp found, compiled, mapError_ok_iff.mp run⟩
  · rintro ⟨metrics, glob, found, compiled, run⟩
    refine bind_ok_iff.mpr ⟨metrics, mapError_ok_iff.mpr found, ?_⟩
    have selected : Glob.select settings.pattern metrics = .ok (glob.filter metrics) :=
      bind_ok_iff.mpr ⟨glob, compiled, rfl⟩
    refine bind_ok_iff.mpr ⟨glob.filter metrics, mapError_ok_iff.mpr selected, ?_⟩
    exact mapError_ok_iff.mpr run

/-- The settings of a report by symbols, all others at their defaults. -/
def Settings.bySymbols : Settings where
  traceFile := Path.ofString "./.tsTrace/trace.json"
  typesFile := Path.ofString "./.tsTrace/types.json"
  pattern := "**/*"
  fileLimit := 50
  symbolLimit := 10
  strategy := .symbols
  kinds := .structural
  dependencyMarker := "/node_modules"
  nameWidth := 30
  base := Path.ofString "/"

end CheckCost
