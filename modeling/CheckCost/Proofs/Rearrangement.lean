import CheckCost.Proofs.Correlation
import CheckCost.Proofs.Grouping
import CheckCost.Proofs.Readable
import Mathlib.Logic.Relation

/-!
Changes to the inputs that leave the metrics of each file as they are. Checks of different types and
declarations in different files may change places, and rows that give no metric may come and go.
-/
namespace CheckCost

open Classical Outcome

/-- The row is an allowed check of the type. -/
def Trace.ChecksType (kinds : CheckKinds) (id : Int) (row : Json) : Prop :=
  ∃ fields, row = .obj fields ∧ Event.IsAllowed kinds fields ∧
    Event.idOf (Event.subjectOf fields) = .ok (some id)

/-- The row declares a type in the file. -/
def Catalog.DeclaresIn (path : String) (row : Json) : Prop :=
  ∃ fields declared, DeclaresType row fields declared ∧ (Json.field declared "path").text = path

/-- The row declares a type, and some row of the trace is an allowed check of it. -/
def Catalog.IsMeasured (kinds : CheckKinds) (trace : List Json) (row : Json) : Prop :=
  ∃ fields declared id, DeclaresType row fields declared ∧ (Json.field fields "id").integer = .ok id ∧
    ∃ check ∈ trace, Trace.ChecksType kinds id check

def Catalog.CountsIn (kinds : CheckKinds) (trace : List Json) (path : String) (row : Json) : Prop :=
  IsMeasured kinds trace row ∧ DeclaresIn path row

namespace Inputs

/-- A change to the inputs: rows that change places, or one that comes or goes. -/
inductive Change (kinds : CheckKinds) : Inputs → Inputs → Prop where
  /-- Allowed checks of one type keep their order. -/
  | reorderTrace {rows others types : List Json} {warnings : List String} (perm : rows.Perm others)
      (order : ∀ id, rows.filter (Trace.ChecksType kinds id) = others.filter (Trace.ChecksType kinds id)) :
      Change kinds ⟨rows, types, warnings⟩ ⟨others, types, warnings⟩
  /-- Declarations in one file keep their order. -/
  | reorderTypes {trace rows others : List Json} {warnings : List String} (perm : rows.Perm others)
      (order : ∀ path, rows.filter (Catalog.DeclaresIn path) = others.filter (Catalog.DeclaresIn path)) :
      Change kinds ⟨trace, rows, warnings⟩ ⟨trace, others, warnings⟩
  | insertTrace {row : Json} {types : List Json} {warnings : List String} (before after : List Json)
      (idle : ∀ id, ¬ Trace.ChecksType kinds id row) :
      Change kinds ⟨before ++ after, types, warnings⟩ ⟨before ++ row :: after, types, warnings⟩
  | deleteTrace {row : Json} {types : List Json} {warnings : List String} (before after : List Json)
      (idle : ∀ id, ¬ Trace.ChecksType kinds id row) :
      Change kinds ⟨before ++ row :: after, types, warnings⟩ ⟨before ++ after, types, warnings⟩
  | insertTypes {row : Json} {trace : List Json} {warnings : List String} (before after : List Json)
      (idle : ¬ Catalog.IsMeasured kinds trace row) :
      Change kinds ⟨trace, before ++ after, warnings⟩ ⟨trace, before ++ row :: after, warnings⟩
  | deleteTypes {row : Json} {trace : List Json} {warnings : List String} (before after : List Json)
      (idle : ¬ Catalog.IsMeasured kinds trace row) :
      Change kinds ⟨trace, before ++ row :: after, warnings⟩ ⟨trace, before ++ after, warnings⟩

theorem filter_swap {chosen : Json → Prop} {first second : Json} (apart : chosen first → ¬ chosen second)
    (before after : List Json) : (before ++ first :: second :: after).filter chosen =
      (before ++ second :: first :: after).filter chosen := by
  rw [List.filter_append, List.filter_append]
  by_cases pass : chosen first
  · have other := apart pass
    simp [List.filter_cons, other]
  · simp [List.filter_cons, pass]

/-- Neighbours in a trace may change places unless they are checks of one type. -/
theorem Change.swapTrace {kinds : CheckKinds} {first second : Json} {types : List Json}
    {warnings : List String} (before after : List Json)
    (apart : ∀ id, Trace.ChecksType kinds id first → ¬ Trace.ChecksType kinds id second) :
    Change kinds ⟨before ++ first :: second :: after, types, warnings⟩
      ⟨before ++ second :: first :: after, types, warnings⟩ :=
  .reorderTrace (.append_left before (.swap second first after))
    fun id => filter_swap (apart id) before after

/-- Neighbours in a catalog may change places unless they are declarations in one file. -/
theorem Change.swapTypes {kinds : CheckKinds} {first second : Json} {trace : List Json}
    {warnings : List String} (before after : List Json)
    (apart : ∀ path, Catalog.DeclaresIn path first → ¬ Catalog.DeclaresIn path second) :
    Change kinds ⟨trace, before ++ first :: second :: after, warnings⟩
      ⟨trace, before ++ second :: first :: after, warnings⟩ :=
  .reorderTypes (.append_left before (.swap second first after))
    fun path => filter_swap (apart path) before after

/-- The inputs have the same checks of each type, and in each file the same declarations of checked types. -/
structure Alike (kinds : CheckKinds) (inputs others : Inputs) : Prop where
  checks : ∀ id, inputs.trace.filter (Trace.ChecksType kinds id) =
    others.trace.filter (Trace.ChecksType kinds id)
  types : ∀ path, inputs.types.filter (Catalog.CountsIn kinds inputs.trace path) =
    others.types.filter (Catalog.CountsIn kinds others.trace path)

variable {kinds : CheckKinds}

theorem Alike.symm {inputs others : Inputs} (alike : Alike kinds inputs others) :
    Alike kinds others inputs :=
  ⟨fun id => (alike.checks id).symm, fun path => (alike.types path).symm⟩

theorem Alike.trans {inputs between others : Inputs} (first : Alike kinds inputs between)
    (second : Alike kinds between others) : Alike kinds inputs others :=
  ⟨fun id => (first.checks id).trans (second.checks id),
    fun path => (first.types path).trans (second.types path)⟩

theorem isMeasured_congr {rows others : List Json}
    (same : ∀ id, rows.filter (Trace.ChecksType kinds id) = others.filter (Trace.ChecksType kinds id))
    (row : Json) : Catalog.IsMeasured kinds rows row ↔ Catalog.IsMeasured kinds others row := by
  have named : ∀ id, (∃ check ∈ rows, Trace.ChecksType kinds id check) ↔
      ∃ check ∈ others, Trace.ChecksType kinds id check := by
    intro id
    have members : ∀ check, check ∈ rows.filter (Trace.ChecksType kinds id) ↔
        check ∈ others.filter (Trace.ChecksType kinds id) := by
      intro check
      rw [same id]
    simpa [List.mem_filter] using exists_congr members
  unfold Catalog.IsMeasured
  simp only [named]

theorem alike_of_checks {rows others types : List Json} {warnings : List String}
    (same : ∀ id, rows.filter (Trace.ChecksType kinds id) = others.filter (Trace.ChecksType kinds id)) :
    Alike kinds ⟨rows, types, warnings⟩ ⟨others, types, warnings⟩ where
  checks := same
  types path := by
    refine List.filter_congr ?_
    intro row _
    exact decide_eq_decide.mpr (and_congr_left' (isMeasured_congr same row))

theorem alike_insertTrace {row : Json} {before after types : List Json} {warnings : List String}
    (idle : ∀ id, ¬ Trace.ChecksType kinds id row) :
    Alike kinds ⟨before ++ after, types, warnings⟩ ⟨before ++ row :: after, types, warnings⟩ := by
  refine alike_of_checks ?_
  intro id
  rw [List.filter_append, List.filter_append, List.filter_cons_of_neg (by simpa using idle id)]

theorem alike_insertTypes {row : Json} {trace before after : List Json} {warnings : List String}
    (idle : ¬ Catalog.IsMeasured kinds trace row) :
    Alike kinds ⟨trace, before ++ after, warnings⟩ ⟨trace, before ++ row :: after, warnings⟩ where
  checks _ := rfl
  types path := by
    dsimp only
    rw [List.filter_append, List.filter_append, List.filter_cons_of_neg (by simp [Catalog.CountsIn, idle])]

theorem filter_countsIn (trace rows : List Json) (path : String) :
    rows.filter (Catalog.CountsIn kinds trace path) =
      (rows.filter (Catalog.DeclaresIn path)).filter (Catalog.IsMeasured kinds trace) := by
  rw [List.filter_filter]
  refine List.filter_congr ?_
  intro row _
  rw [Bool.eq_iff_iff, Bool.and_eq_true, decide_eq_true_iff, decide_eq_true_iff, decide_eq_true_iff]
  exact Iff.rfl

theorem Change.alike {inputs others : Inputs} (change : Change kinds inputs others) :
    Alike kinds inputs others := by
  cases change with
  | reorderTrace _ order => exact alike_of_checks order
  | reorderTypes _ order =>
    refine ⟨fun _ => rfl, ?_⟩
    intro path
    rw [filter_countsIn, filter_countsIn, order path]
  | insertTrace _ _ idle => exact alike_insertTrace idle
  | deleteTrace _ _ idle => exact (alike_insertTrace idle).symm
  | insertTypes _ _ idle => exact alike_insertTypes idle
  | deleteTypes _ _ idle => exact (alike_insertTypes idle).symm

theorem alike_of_changes {inputs others : Inputs}
    (changes : Relation.ReflTransGen (Change kinds) inputs others) : Alike kinds inputs others := by
  induction changes with
  | refl => exact ⟨fun _ => rfl, fun _ => rfl⟩
  | tail _ change ih => exact ih.trans change.alike

end Inputs

section Readers

variable {D : Type} [Duration D]

theorem Trace.Reads.unique {rows : List Json} {first second : Trace D} (readsFirst : Reads rows first)
    (readsSecond : Reads rows second) : first = second := by
  induction readsFirst generalizing second with
  | nil => cases readsSecond; rfl
  | skip other _ ih =>
    cases readsSecond with
    | skip _ more => exact ih more
    | read => exact absurd rfl (other _)
  | read first _ ih =>
    cases readsSecond with
    | skip other => exact absurd rfl (other _)
    | read again more =>
      rw [Except.ok.inj (first.symm.trans again), ih more]

/-- The events that pass a test come from the rows that pass one, if only events of such rows do. -/
theorem Trace.Reads.filter {rows : List Json} {trace : Trace D} (reads : Reads rows trace)
    (chosen : Json → Prop) {test : Event D → Bool}
    (covers : ∀ fields event, Event.ofFields fields = .ok event → test event = true → chosen (.obj fields)) :
    ∃ part, Reads (rows.filter chosen) part ∧ part.filter test = trace.filter test := by
  induction reads with
  | nil => exact ⟨[], .nil, rfl⟩
  | @skip row rest trace other _ ih =>
    obtain ⟨part, more, same⟩ := ih
    by_cases pass : chosen row
    · rw [List.filter_cons_of_pos (by simpa using pass)]
      exact ⟨part, .skip other more, same⟩
    · rw [List.filter_cons_of_neg (by simpa using pass)]
      exact ⟨part, more, same⟩
  | @read fields event rest trace first _ ih =>
    obtain ⟨part, more, same⟩ := ih
    by_cases pass : chosen (.obj fields)
    · rw [List.filter_cons_of_pos (by simpa using pass)]
      exact ⟨event :: part, .read first more, by simp [List.filter_cons, same]⟩
    · have fails : ¬ test event = true := fun passes => pass (covers fields event first passes)
      rw [List.filter_cons_of_neg (by simpa using pass), List.filter_cons_of_neg fails]
      exact ⟨part, more, same⟩

theorem Catalog.Reads.unique {rows : List Json} {first second : Catalog} (readsFirst : Reads rows first)
    (readsSecond : Reads rows second) : first = second := by
  induction readsFirst generalizing second with
  | nil => cases readsSecond; rfl
  | skip other _ ih =>
    cases readsSecond with
    | skip _ more => exact ih more
    | read candidate => exact absurd candidate (other _)
  | read candidate first _ ih =>
    cases readsSecond with
    | skip other => exact absurd candidate (other _)
    | read candidate' again more =>
      obtain ⟨rfl, _⟩ := candidate
      cases candidate'.1
      rw [Except.ok.inj (first.symm.trans again), ih more]

/-- What is made of the entries comes from the rows that pass a test, if something is only made of such. -/
theorem Catalog.Reads.filterMap {rows : List Json} {catalog : Catalog} (reads : Reads rows catalog)
    (chosen : Json → Prop) {make : Entry → Option β}
    (covers : ∀ fields entry made, Json.hasField fields "id" = true → Entry.ofFields fields = .ok entry →
      make entry = some made → chosen (.obj fields)) :
    ∃ part, Reads (rows.filter chosen) part ∧ part.filterMap make = catalog.filterMap make := by
  induction reads with
  | nil => exact ⟨[], .nil, rfl⟩
  | @skip row rest catalog other _ ih =>
    obtain ⟨part, more, same⟩ := ih
    by_cases pass : chosen row
    · rw [List.filter_cons_of_pos (by simpa using pass)]
      exact ⟨part, .skip other more, same⟩
    · rw [List.filter_cons_of_neg (by simpa using pass)]
      exact ⟨part, more, same⟩
  | @read row fields entry rest catalog candidate first _ ih =>
    obtain ⟨part, more, same⟩ := ih
    by_cases pass : chosen row
    · rw [List.filter_cons_of_pos (by simpa using pass)]
      exact ⟨entry :: part, .read candidate first more, by simp [List.filterMap_cons, same]⟩
    · have nothing : make entry = none := by
        obtain ⟨rfl, id⟩ := candidate
        cases made : make entry with
        | none => rfl
        | some value => exact absurd (covers fields entry value id first made) pass
      rw [List.filter_cons_of_neg (by simpa using pass), List.filterMap_cons_none nothing]
      exact ⟨part, more, same⟩

theorem Event.checksType_of_measures {kinds : CheckKinds} {id : Int} {fields : List (String × Json)}
    {event : Event D} (read : ofFields fields = .ok event) (measures : event.Measures kinds id) :
    Trace.ChecksType kinds id (.obj fields) := by
  obtain ⟨source, allowed⟩ := parts_of_ofFields read
  refine ⟨fields, rfl, (allowed kinds).mp ?_, source.symm.trans measures.subject⟩
  rw [measures_iff, isCheckOf, Bool.and_eq_true] at measures
  exact measures.2

/-- The last check of a type depends on its checks alone. -/
theorem Inputs.Alike.get?_eq {kinds : CheckKinds} {inputs others : Inputs} (alike : Alike kinds inputs others)
    {trace other : Trace D} {index indexOther : CheckIndex D} (reads : Trace.Reads inputs.trace trace)
    (readsOther : Trace.Reads others.trace other) (run : CheckIndex.ofTrace kinds trace = .ok index)
    (runOther : CheckIndex.ofTrace kinds other = .ok indexOther) (id : Int) :
    index.get? id = indexOther.get? id := by
  have covers : ∀ fields (event : Event D), Event.ofFields fields = .ok event →
      event.isCheckOf kinds id = true → Trace.ChecksType kinds id (.obj fields) :=
    fun fields event read check => Event.checksType_of_measures read ((Event.measures_iff kinds id event).mpr check)
  obtain ⟨part, partReads, same⟩ := reads.filter (Trace.ChecksType kinds id) covers
  obtain ⟨partOther, partReadsOther, sameOther⟩ := readsOther.filter (Trace.ChecksType kinds id) covers
  rw [← alike.checks id] at partReadsOther
  rw [CheckIndex.get?_ofTrace_eq run, CheckIndex.get?_ofTrace_eq runOther, ← same, ← sameOther,
    partReads.unique partReadsOther]

theorem Entry.measured_of_metric? {kinds : CheckKinds} {marker : String} {rows : List Json} {trace : Trace D}
    {index : CheckIndex D} {fields : List (String × Json)} {entry : Entry} {metric : Metric D}
    (reads : Trace.Reads rows trace) (run : CheckIndex.ofTrace kinds trace = .ok index)
    (id : Json.hasField fields "id" = true) (read : Entry.ofFields fields = .ok entry)
    (found : entry.metric? index marker = some metric) :
    Catalog.CountsIn kinds rows metric.path (.obj fields) := by
  obtain ⟨declared, checked, declares, joins⟩ := joins_of_metric? reads run id read found
  obtain ⟨row, member, event, readEvent, measures⟩ := joins.check.hasCheck
  exact ⟨⟨fields, declared, metric.type.id, declares, joins.id, .obj row, member,
    Event.checksType_of_measures readEvent measures⟩, fields, declared, declares, joins.path.symm⟩

omit [Duration D] in
theorem Entry.metric?_congr {index other : CheckIndex D} (same : ∀ id, index.get? id = other.get? id)
    (marker : String) (entry : Entry) : entry.metric? index marker = entry.metric? other marker := by
  cases entry with
  | intrinsic => rfl
  | named type => simp only [metric?, same]

omit [Duration D] in
theorem Ranking.inFile_metrics (path : String) (catalog : Catalog) (index : CheckIndex D) (marker : String) :
    inFile path (catalog.metrics index marker) =
      catalog.filterMap fun entry => (entry.metric? index marker).filter (·.path = path) := by
  unfold inFile Catalog.metrics
  rw [List.filter_filterMap]

/-- Inputs that are alike give each file the same metrics in the same order. -/
theorem Inputs.Alike.inFile_eq {kinds : CheckKinds} {inputs others : Inputs} (alike : Alike kinds inputs others)
    {marker : String} {metrics metricsOther : List (Metric D)}
    (run : inputs.metrics kinds marker = .ok metrics) (runOther : others.metrics kinds marker = .ok metricsOther)
    (path : String) : Ranking.inFile path metrics = Ranking.inFile path metricsOther := by
  obtain ⟨trace, catalog, index, readTrace, readCatalog, built, rfl⟩ := metrics_ok_iff.mp run
  obtain ⟨other, catalogOther, indexOther, readOther, readCatalogOther, builtOther, rfl⟩ :=
    metrics_ok_iff.mp runOther
  have reads := Trace.reads_of_ofRows readTrace
  have readsOther := Trace.reads_of_ofRows readOther
  have same := alike.get?_eq reads readsOther built builtOther
  rw [Ranking.inFile_metrics, Ranking.inFile_metrics]
  simp only [Entry.metric?_congr same]
  have covers : ∀ rows (trace : Trace D) (index : CheckIndex D), Trace.Reads rows trace →
      CheckIndex.ofTrace kinds trace = .ok index → (∀ id, index.get? id = indexOther.get? id) →
      ∀ fields entry made, Json.hasField fields "id" = true → Entry.ofFields fields = .ok entry →
        (entry.metric? indexOther marker).filter (·.path = path) = some made →
          Catalog.CountsIn kinds rows path (.obj fields) := by
    intro rows trace index reads built same fields entry made id read found
    obtain ⟨found, inside⟩ := Option.filter_eq_some_iff.mp found
    rw [← Entry.metric?_congr same] at found
    rw [← of_decide_eq_true inside]
    exact Entry.measured_of_metric? reads built id read found
  obtain ⟨part, partReads, made⟩ := (Catalog.reads_of_ofRows readCatalog).filterMap
    (Catalog.CountsIn kinds inputs.trace path)
    (covers inputs.trace trace index reads built same)
  obtain ⟨partOther, partReadsOther, madeOther⟩ := (Catalog.reads_of_ofRows readCatalogOther).filterMap
    (Catalog.CountsIn kinds others.trace path)
    (covers others.trace other indexOther readsOther builtOther fun _ => rfl)
  rw [← alike.types path] at partReadsOther
  rw [← made, ← madeOther, partReads.unique partReadsOther]

end Readers

end CheckCost
