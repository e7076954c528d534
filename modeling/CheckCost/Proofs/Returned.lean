import CheckCost.Proofs.CheckIndex
import CheckCost.Proofs.Numbering
import CheckCost.Proofs.Pipeline
import CheckCost.Proofs.Readable

/-!
When there is a report. With a pattern that can be used, only rows that cannot be read and groups without
a percentage stand in its way.
-/
namespace CheckCost

open Outcome

/-- A type with an id is read whole, and each event as far as its kind asks for. -/
structure Inputs.AreReadable (kinds : CheckKinds) (inputs : Inputs) : Prop where
  trace : ∀ fields, .obj fields ∈ inputs.trace → Event.IsReadable kinds fields
  types : ∀ fields, .obj fields ∈ inputs.types → Json.hasField fields "id" = true → Entry.IsReadable fields

theorem Trace.ofRows_succeeds_iff (rows : List Json) :
    (∃ trace : Trace Float, ofRows rows = .ok trace) ↔ ∀ fields, .obj fields ∈ rows →
      ¬ (Json.field fields "ts").IsBeyondDoubles ∧ ¬ (Json.field fields "dur").IsBeyondDoubles := by
  unfold ofRows
  rw [mapM_succeeds_iff]
  simp only [Json.mem_objects, Event.ofFields_succeeds_iff]

/-- The checks of a trace are indexed exactly if the rows of allowed kinds have subjects that are read. -/
theorem CheckIndex.ofRows_succeeds_iff {D : Type} [Duration D] {kinds : CheckKinds} {rows : List Json}
    {trace : Trace D} (read : Trace.ofRows rows = .ok trace) :
    (∃ index, ofTrace kinds trace = .ok index) ↔ ∀ fields, .obj fields ∈ rows →
      Event.IsAllowed kinds fields → ¬ (Event.subjectOf fields).IsInfinite := by
  have related := mapM_ok_iff.mp read
  rw [ofTrace_succeeds_iff]
  constructor
  · intro each fields row allowed
    obtain ⟨event, member, parts⟩ := related_of_mem related.flip (Json.mem_objects.mpr row)
    obtain ⟨source, isCheck⟩ := Event.parts_of_ofFields parts
    rw [← Event.idOf_succeeds_iff, ← source]
    exact each event member ((isCheck kinds).mpr allowed)
  · intro each event member check
    obtain ⟨fields, row, parts⟩ := related_of_mem related member
    obtain ⟨source, isCheck⟩ := Event.parts_of_ofFields parts
    rw [source, Event.idOf_succeeds_iff]
    exact each fields (Json.mem_objects.mp row) ((isCheck kinds).mp check)

theorem Inputs.metrics_succeeds_iff (kinds : CheckKinds) (marker : String) (inputs : Inputs) :
    (∃ metrics : List (Metric Float), inputs.metrics kinds marker = .ok metrics) ↔
      inputs.AreReadable kinds := by
  constructor
  · rintro ⟨metrics, run⟩
    obtain ⟨trace, catalog, index, readTrace, readCatalog, built, _⟩ := metrics_ok_iff.mp run
    have times := (Trace.ofRows_succeeds_iff inputs.trace).mp ⟨trace, readTrace⟩
    have subjects := (CheckIndex.ofRows_succeeds_iff readTrace).mp ⟨index, built⟩
    refine ⟨?_, (Catalog.ofRows_succeeds_iff inputs.types).mp ⟨catalog, readCatalog⟩⟩
    intro fields row
    exact ⟨(times fields row).1, (times fields row).2, subjects fields row⟩
  · intro readable
    obtain ⟨trace, readTrace⟩ := (Trace.ofRows_succeeds_iff inputs.trace).mpr fun fields row =>
      ⟨(readable.trace fields row).start, (readable.trace fields row).duration⟩
    obtain ⟨catalog, readCatalog⟩ := (Catalog.ofRows_succeeds_iff inputs.types).mpr readable.types
    obtain ⟨index, built⟩ := (CheckIndex.ofRows_succeeds_iff readTrace).mpr fun fields row =>
      (readable.trace fields row).subject
    exact ⟨_, metrics_ok_iff.mpr ⟨trace, catalog, index, readTrace, readCatalog, built, rfl⟩⟩

theorem Report.ofMetrics_succeeds_iff {strategy : Strategy} {limits : Limits} {counts : Counts}
    {warnings : List String} {metrics : List (Metric Float)} :
    (∃ report, ofMetrics strategy limits counts warnings metrics = .ok report) ↔
      ∀ group ∈ Ranking.groups strategy limits.groups metrics,
        Duration.HasShare (Ranking.total group.2) (Ranking.total metrics) := by
  simp only [← Duration.floatShare_succeeds_iff]
  exact ofMetrics_returned_iff strategy limits counts warnings metrics

/-- A report is returned exactly if the rows can be read and each group of the metrics that the pattern
keeps has a percentage of their total. -/
theorem Report.returned_iff {settings : Settings} {inputs : Inputs} {glob : Glob}
    (compiled : Glob.compile settings.pattern = .ok glob) :
    (∃ report : Report Float, ofInputs settings inputs = .ok report) ↔
      inputs.AreReadable settings.kinds ∧
        ∀ metrics, inputs.metrics settings.kinds settings.dependencyMarker = .ok metrics →
          ∀ group ∈ Ranking.groups settings.strategy settings.fileLimit (glob.filter metrics),
            Duration.HasShare (Ranking.total group.2) (Ranking.total (glob.filter metrics)) := by
  rw [← Inputs.metrics_succeeds_iff settings.kinds settings.dependencyMarker]
  constructor
  · rintro ⟨report, run⟩
    obtain ⟨metrics, same, found, sameGlob, assembled⟩ := ofInputs_ok_iff.mp run
    cases compiled.symm.trans sameGlob
    refine ⟨⟨metrics, found⟩, ?_⟩
    intro others foundOthers
    cases found.symm.trans foundOthers
    exact ofMetrics_succeeds_iff.mp ⟨report, assembled⟩
  · rintro ⟨⟨metrics, found⟩, shares⟩
    obtain ⟨report, assembled⟩ : ∃ report, ofFound settings inputs metrics (glob.filter metrics) = .ok report :=
      ofMetrics_succeeds_iff.mpr (shares metrics found)
    exact ⟨report, ofInputs_ok_iff.mpr ⟨metrics, glob, found, compiled, assembled⟩⟩

/-- Rows that are no objects, and strange values that something is made of. -/
def Inputs.strange : Inputs where
  trace :=
    [.null, .int 3, .obj [],
      .obj [("cat", .str "check"), ("name", .str "structuredTypeRelatedTo"), ("dur", .str "long"),
        ("args", .obj [("sourceId", .str "7")])]]
  types :=
    [.str "type", .obj [("symbolName", .str "A")],
      .obj [("id", .str " 7 "), ("symbolName", .int 5), ("flags", .str "ab"),
        ("firstDeclaration", .obj [("path", .int 1), ("start", .arr []), ("end", .null)])]]
  warnings := []

theorem Report.returned_of_strange_rows :
    ∃ glob, Glob.compile Settings.bySymbols.pattern = .ok glob ∧
      (∃ report : Report Float, ofInputs .bySymbols .strange = .ok report ∧ report.metricCount = 1) ∧
        Inputs.strange.AreReadable Settings.bySymbols.kinds ∧
          ∀ metrics, Inputs.strange.metrics Settings.bySymbols.kinds Settings.bySymbols.dependencyMarker =
              .ok metrics →
            ∀ group ∈ Ranking.groups .symbols Settings.bySymbols.fileLimit (glob.filter metrics),
              Duration.HasShare (Ranking.total group.2) (Ranking.total (glob.filter metrics)) := by
  have shown : (ofInputs (D := Float) .bySymbols .strange).toOption.map (fun report => report.metricCount) =
      some 1 := by decide +kernel
  obtain ⟨report, run, count⟩ := ok_of_toOption shown
  obtain ⟨_, glob, _, compiled, _⟩ := ofInputs_ok_iff.mp run
  exact ⟨glob, compiled, ⟨report, run, count⟩, (Report.returned_iff compiled).mp ⟨report, run⟩⟩

/-- A check of an allowed kind whose subject is beyond all integers. -/
def Inputs.unbounded : Inputs where
  trace :=
    [.obj [("cat", .str "check"), ("name", .str "structuredTypeRelatedTo"), ("dur", .int 1),
        ("args", .obj [("sourceId", .float (1.0 / 0.0))])]]
  types := []
  warnings := []

/-- A row is not always skipped: an infinite subject ends the run. -/
theorem Report.refused_of_infinite_subject :
    (∃ glob, Glob.compile Settings.bySymbols.pattern = .ok glob) ∧
      ofInputs (D := Float) .bySymbols .unbounded = .error (.row (.number .infinite)) ∧
        ¬ ∃ report : Report Float, ofInputs .bySymbols .unbounded = .ok report := by
  have refused : ofInputs (D := Float) .bySymbols .unbounded = .error (.row (.number .infinite)) := rfl
  refine ⟨⟨_, rfl⟩, refused, ?_⟩
  rintro ⟨report, run⟩
  rw [refused] at run
  cases run

end CheckCost
