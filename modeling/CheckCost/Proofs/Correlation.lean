import CheckCost.Proofs.CheckIndex
import CheckCost.Proofs.Pipeline
import CheckCost.Proofs.Rows
import Mathlib.Tactic.ByContra

/-!
Which rows of the catalog become metrics. A row does if it declares a type that an allowed check of the
trace is about; its metric has the last such check. The relations speak of the raw rows alone.
-/
namespace CheckCost

open Outcome

variable {D : Type}

/-- An allowed check of the type. -/
structure Event.Measures (kinds : CheckKinds) (id : Int) (event : Event D) : Prop where
  category : event.category ∈ kinds.categories
  name : event.name ∈ kinds.names
  subject : event.source = .ok (some id)

def Event.isCheckOf (kinds : CheckKinds) (id : Int) (event : Event D) : Bool :=
  event.isAbout id && event.isCheck kinds

/-- The row is an object with an id, a name, and a declaration `declared` that has a path. -/
structure Catalog.DeclaresType (row : Json) (fields declared : List (String × Json)) : Prop where
  object : row = .obj fields
  id : Json.hasField fields "id" = true
  name : Json.hasField fields "symbolName" = true
  declaration : Json.field fields "firstDeclaration" = .obj declared
  path : (Json.field declared "path").isEmpty = false

variable [Duration D]

/-- Of the rows of a trace, the object `fields` is the last one whose event is an allowed check of the
type. -/
structure Trace.LastCheck (kinds : CheckKinds) (rows : List Json) (id : Int)
    (fields : List (String × Json)) (event : Event D) : Prop where
  read : Event.ofFields fields = .ok event
  measures : event.Measures kinds id
  last : ∃ before after, rows = before ++ .obj fields :: after ∧
    ∀ other, .obj other ∈ after →
      ∀ later : Event D, Event.ofFields other = .ok later → ¬ later.Measures kinds id

/-- Some row of the trace gives an allowed check of the type. -/
def Trace.HasCheck (D : Type) [Duration D] (kinds : CheckKinds) (rows : List Json) (id : Int) : Prop :=
  ∃ fields, .obj fields ∈ rows ∧ ∃ event : Event D, Event.ofFields fields = .ok event ∧
    event.Measures kinds id

/-- The row of the catalog declares a type that some allowed check of the trace is about. -/
def Catalog.Qualifies (D : Type) [Duration D] (kinds : CheckKinds) (trace : List Json) (row : Json) :
    Prop :=
  ∃ fields declared id, DeclaresType row fields declared ∧ (Json.field fields "id").integer = .ok id ∧
    Trace.HasCheck D kinds trace id

/-- The metric joins the row `fields` of the catalog, whose declaration is `declared`, with the row
`checked` of the trace. -/
structure Metric.Joins (kinds : CheckKinds) (marker : String) (trace : List Json)
    (fields declared checked : List (String × Json)) (metric : Metric D) : Prop where
  id : (Json.field fields "id").integer = .ok metric.type.id
  name : metric.name = (Json.field fields "symbolName").text
  path : metric.path = (Json.field declared "path").text
  type : Entry.ofFields fields = .ok (.named metric.type)
  declaration : Declaration.ofJson (.obj declared) = .ok (some metric.declaration)
  check : Trace.LastCheck kinds trace metric.type.id checked metric.check
  subject : metric.check.source = .ok (some metric.type.id)
  duration : Duration.ofJson (Json.field checked "dur") = .ok metric.duration
  dependency : metric.isDependency = true ↔ marker.toList <:+: metric.path.toList

omit [Duration D] in
theorem Event.measures_iff (kinds : CheckKinds) (id : Int) (event : Event D) :
    event.Measures kinds id ↔ event.isCheckOf kinds id = true := by
  unfold isCheckOf
  rw [Bool.and_eq_true, isAbout_iff]
  constructor
  · intro h
    exact ⟨h.subject, by simp [isCheck, h.category, h.name]⟩
  · rintro ⟨subject, check⟩
    simp only [isCheck, Bool.and_eq_true, List.contains_iff_mem] at check
    exact ⟨check.1, check.2, subject⟩

omit [Duration D] in
theorem CheckIndex.get?_ofTrace_eq {kinds : CheckKinds} {trace : Trace D} {index : CheckIndex D}
    (run : CheckIndex.ofTrace kinds trace = .ok index) (id : Int) :
    index.get? id = (trace.filter (Event.isCheckOf kinds id)).getLast? := by
  rw [CheckIndex.get?_ofTrace run, List.filter_filter]
  rfl

theorem Event.duration_of_ofFields {fields : List (String × Json)} {event : Event D}
    (read : Event.ofFields fields = .ok event) :
    Duration.ofJson (Json.field fields "dur") = .ok event.duration := by
  obtain ⟨start, _, read⟩ := bind_ok_iff.mp read
  obtain ⟨duration, found, read⟩ := bind_ok_iff.mp read
  cases read
  exact found

theorem Trace.Reads.no_check {kinds : CheckKinds} {rows : List Json} {trace : Trace D} {id : Int}
    (reads : Reads rows trace) (none : trace.filter (Event.isCheckOf kinds id) = []) :
    ∀ fields, .obj fields ∈ rows →
      ∀ event : Event D, Event.ofFields fields = .ok event → ¬ event.Measures kinds id := by
  intro fields member event read measures
  obtain ⟨found, inside, again⟩ := reads.event_of_row member
  have same : found = event := Except.ok.inj (again.symm.trans read)
  subst found
  exact List.filter_eq_nil_iff.mp none event inside ((Event.measures_iff kinds id event).mp measures)

/-- The last check of the events is the last check of the rows. -/
theorem Trace.Reads.last_check {kinds : CheckKinds} {rows : List Json} {trace : Trace D} {id : Int}
    {event : Event D} (reads : Reads rows trace)
    (last : (trace.filter (Event.isCheckOf kinds id)).getLast? = some event) :
    ∃ fields, LastCheck kinds rows id fields event := by
  -- a check of a later row wins, and if there is none the first row holds it
  induction reads with
  | nil => simp at last
  | @skip row rest trace other more ih =>
    obtain ⟨fields, read, measures, before, after, eq, unchecked⟩ := ih last
    exact ⟨fields, read, measures, row :: before, after, by simp [eq], unchecked⟩
  | @read fields first rest trace head more ih =>
    by_cases later : trace.filter (Event.isCheckOf kinds id) = []
    · by_cases checks : first.isCheckOf kinds id = true
      · rw [List.filter_cons_of_pos checks, later] at last
        cases last
        have measures := (Event.measures_iff kinds id first).mpr checks
        exact ⟨fields, head, measures, [], rest, rfl, more.no_check later⟩
      · rw [List.filter_cons_of_neg checks, later] at last
        simp at last
    · have inside : (trace.filter (Event.isCheckOf kinds id)).getLast? = some event := by
        rw [← last, List.filter_cons]
        split
        · rw [List.getLast?_cons, List.getLast?_eq_some_getLast later]
          rfl
        · rfl
      obtain ⟨found, read, measures, before, after, eq, unchecked⟩ := ih inside
      exact ⟨found, read, measures, .obj fields :: before, after, by simp [eq], unchecked⟩

theorem Trace.LastCheck.hasCheck {kinds : CheckKinds} {rows : List Json} {id : Int}
    {fields : List (String × Json)} {event : Event D} (last : LastCheck kinds rows id fields event) :
    HasCheck D kinds rows id := by
  obtain ⟨before, after, eq, _⟩ := last.last
  exact ⟨fields, by simp [eq], event, last.read, last.measures⟩

/-- An entry that was read from a row has a name and a place exactly if the row gives them. -/
theorem Entry.ofFields_named {fields : List (String × Json)} {type : NamedType}
    (read : Entry.ofFields fields = .ok (.named type)) :
    Json.hasField fields "symbolName" = true ∧
      (Json.field fields "id").integer = .ok type.id ∧
      type.name = (Json.field fields "symbolName").text ∧
      Declaration.ofJson (Json.field fields "firstDeclaration") = .ok type.declaration := by
  obtain ⟨flags, _, read⟩ := bind_ok_iff.mp read
  split at read
  · rename_i named
    obtain ⟨found, inner, read⟩ := bind_ok_iff.mp read
    cases read
    have inner := mapError_ok_iff.mp inner
    obtain ⟨id, readId, inner⟩ := bind_ok_iff.mp inner
    obtain ⟨recursion, _, inner⟩ := bind_ok_iff.mp inner
    obtain ⟨instantiated, _, inner⟩ := bind_ok_iff.mp inner
    obtain ⟨declaration, readDeclaration, inner⟩ := bind_ok_iff.mp inner
    cases inner
    exact ⟨named, readId, rfl, readDeclaration⟩
  · obtain ⟨id, _, read⟩ := bind_ok_iff.mp read
    cases read

theorem Entry.ofFields_intrinsic {fields : List (String × Json)} {id : Int} {name : Option String}
    {flags : List String} (read : Entry.ofFields fields = .ok (.intrinsic id name flags)) :
    Json.hasField fields "symbolName" = false := by
  obtain ⟨flags, _, read⟩ := bind_ok_iff.mp read
  split at read
  · obtain ⟨found, _, read⟩ := bind_ok_iff.mp read
    cases read
  · rename_i unnamed
    simpa using unnamed

theorem Declaration.ofJson_ok {value : Json} {found : Option Declaration}
    (read : Declaration.ofJson value = .ok found) :
    (∃ declared declaration, found = some declaration ∧ value = .obj declared ∧
        (Json.field declared "path").isEmpty = false ∧
        declaration.path = (Json.field declared "path").text) ∨
      (found = none ∧ ∀ declared, value = .obj declared →
        (Json.field declared "path").isEmpty = true) := by
  unfold Declaration.ofJson at read
  split at read
  · rename_i declared
    by_cases empty : (Json.field declared "path").isEmpty = true
    · simp only [empty, if_true] at read
      cases read
      exact Or.inr ⟨rfl, fun _ same => by cases same; exact empty⟩
    · simp only [empty, Bool.false_eq_true, if_false] at read
      obtain ⟨start, _, read⟩ := bind_ok_iff.mp read
      obtain ⟨finish, _, read⟩ := bind_ok_iff.mp read
      cases read
      exact Or.inl ⟨declared, _, rfl, rfl, by simpa using empty, rfl⟩
  · rename_i other
    cases read
    exact Or.inr ⟨rfl, fun declared same => absurd same (other declared)⟩

/-- The metric of an entry joins the entry's row with the last check of its type. -/
theorem Entry.joins_of_metric? {kinds : CheckKinds} {marker : String} {rows : List Json}
    {trace : Trace D} {index : CheckIndex D} {fields : List (String × Json)} {entry : Entry}
    {metric : Metric D} (reads : Trace.Reads rows trace) (run : CheckIndex.ofTrace kinds trace = .ok index)
    (id : Json.hasField fields "id" = true) (read : Entry.ofFields fields = .ok entry)
    (found : entry.metric? index marker = some metric) :
    ∃ declared checked, Catalog.DeclaresType (.obj fields) fields declared ∧
      Metric.Joins kinds marker rows fields declared checked metric := by
  cases entry with
  | intrinsic => simp [metric?] at found
  | named type =>
    obtain ⟨name, readId, readName, readPlace⟩ := ofFields_named read
    simp only [metric?, Option.bind_eq_bind, Option.bind_eq_some_iff, Option.pure_def,
      Option.some.injEq] at found
    obtain ⟨declaration, place, check, last, rfl⟩ := found
    rw [place] at readPlace
    rcases Declaration.ofJson_ok readPlace with ⟨declared, _, same, object, path, text⟩ | ⟨same, _⟩
    · cases same
      rw [CheckIndex.get?_ofTrace_eq run] at last
      obtain ⟨checked, checks⟩ := reads.last_check last
      refine ⟨declared, checked, ⟨rfl, id, name, object, path⟩, ?_⟩
      exact {
        id := readId
        name := readName
        path := text
        type := read
        declaration := by rw [← object]; exact readPlace
        check := checks
        subject := checks.measures.subject
        duration := Event.duration_of_ofFields checks.read
        dependency := Text.occurs_iff marker.toList declaration.path.toList }
    · cases same

theorem Entry.not_qualifies_of_metric? {kinds : CheckKinds} {marker : String} {rows : List Json}
    {trace : Trace D} {index : CheckIndex D} {fields : List (String × Json)} {entry : Entry}
    (reads : Trace.Reads rows trace) (run : CheckIndex.ofTrace kinds trace = .ok index)
    (read : Entry.ofFields fields = .ok entry) (none : entry.metric? index marker = .none) :
    ¬ Catalog.Qualifies D kinds rows (.obj fields) := by
  rintro ⟨_, declared, id, declares, readId, checked, member, event, readEvent, measures⟩
  cases declares.object
  cases entry with
  | intrinsic =>
    have unnamed := ofFields_intrinsic read
    rw [declares.name] at unnamed
    cases unnamed
  | named type =>
    obtain ⟨_, sameId, _, readPlace⟩ := ofFields_named read
    have same : type.id = id := Except.ok.inj (sameId.symm.trans readId)
    subst same
    rcases Declaration.ofJson_ok readPlace with ⟨_, declaration, place, _⟩ | ⟨_, pathless⟩
    · have unchecked : index.get? type.id = .none := by
        cases last : index.get? type.id with
        | none => rfl
        | some check => simp [metric?, place, last] at none
      rw [CheckIndex.get?_ofTrace_eq run, List.getLast?_eq_none_iff] at unchecked
      exact reads.no_check unchecked checked member event readEvent measures
    · have empty := pathless declared declares.declaration
      rw [declares.path] at empty
      cases empty

/-- The metrics of a catalog follow its rows. -/
theorem Catalog.Reads.metrics {kinds : CheckKinds} (marker : String) {rows types : List Json}
    {trace : Trace D} {index : CheckIndex D} {catalog : Catalog} (traced : Trace.Reads rows trace)
    (run : CheckIndex.ofTrace kinds trace = .ok index) (reads : Reads types catalog)
    [DecidablePred (Qualifies D kinds rows)] :
    List.Forall₂ (fun row metric => ∃ fields declared checked, DeclaresType row fields declared ∧
        Metric.Joins kinds marker rows fields declared checked metric)
      (types.filter (Qualifies D kinds rows)) (catalog.metrics index marker) := by
  induction reads with
  | nil => exact .nil
  | @skip row rest catalog other more ih =>
    have out : ¬ Qualifies D kinds rows row := by
      rintro ⟨fields, declared, _, declares, _⟩
      exact other fields ⟨declares.object, declares.id⟩
    rw [List.filter_cons_of_neg (by simpa using out)]
    exact ih
  | @read row fields entry rest catalog candidate first more ih =>
    obtain ⟨rfl, id⟩ := candidate
    cases found : entry.metric? index marker with
    | none =>
      have out := Entry.not_qualifies_of_metric? traced run first found
      rw [List.filter_cons_of_neg (by simpa using out)]
      unfold Catalog.metrics
      rw [List.filterMap_cons_none found]
      exact ih
    | some metric =>
      obtain ⟨declared, checked, declares, joins⟩ := Entry.joins_of_metric? traced run id first found
      have qualifies : Qualifies D kinds rows (.obj fields) :=
        ⟨fields, declared, metric.type.id, declares, joins.id, joins.check.hasCheck⟩
      rw [List.filter_cons_of_pos (by simpa using qualifies)]
      unfold Catalog.metrics
      rw [List.filterMap_cons_some found]
      exact .cons ⟨fields, declared, checked, declares, joins⟩ ih

open Classical in
/-- The metrics are those of the qualifying rows of the catalog, one for each in the order of the rows.
Rows that share an id each have their own. -/
theorem Inputs.metrics_follow_rows {kinds : CheckKinds} {marker : String} {inputs : Inputs}
    {metrics : List (Metric D)} (run : inputs.metrics kinds marker = .ok metrics) :
    List.Forall₂ (fun row metric => ∃ fields declared checked,
        Catalog.DeclaresType row fields declared ∧
          Metric.Joins kinds marker inputs.trace fields declared checked metric)
      (inputs.types.filter (Catalog.Qualifies D kinds inputs.trace)) metrics := by
  obtain ⟨trace, catalog, index, readTrace, readCatalog, built, rfl⟩ := metrics_ok_iff.mp run
  exact Catalog.Reads.metrics marker (Trace.reads_of_ofRows readTrace) built (Catalog.reads_of_ofRows readCatalog)

/-- Two rows of the catalog share the id of a type that was checked twice. -/
def Inputs.shared : Inputs where
  trace :=
    [.null,
      .obj [("cat", .str "check"), ("name", .str "structuredTypeRelatedTo"), ("dur", .int 7),
        ("args", .obj [("sourceId", .int 1)])],
      .obj [("cat", .str "check"), ("name", .str "structuredTypeRelatedTo"), ("dur", .float 2.5),
        ("args", .obj [("sourceId", .str "1")])],
      .obj [("cat", .str "parse"), ("args", .obj [("sourceId", .int 1)])]]
  types :=
    [.obj [("id", .int 1), ("symbolName", .str "A"),
        ("firstDeclaration", .obj [("path", .str "/src/a.ts")])],
      .obj [("id", .int 2), ("symbolName", .str "B"),
        ("firstDeclaration", .obj [("path", .str "/src/b.ts")])],
      .obj [("id", .int 1), ("intrinsicName", .str "any")],
      .obj [("id", .int 1), ("symbolName", .str "C"),
        ("firstDeclaration", .obj [("path", .str "/lib/c.ts")])]]
  warnings := []

open Classical in
theorem Inputs.metrics_follow_shared_rows :
    ∃ metrics : List (Metric Float), shared.metrics .structural "/lib/" = .ok metrics ∧
      metrics.map (fun metric => (metric.name, metric.duration, metric.isDependency)) =
        [("A", 2.5, false), ("C", 2.5, true)] ∧
      List.Forall₂ (fun row metric => ∃ fields declared checked,
          Catalog.DeclaresType row fields declared ∧
            Metric.Joins .structural "/lib/" shared.trace fields declared checked metric)
        (shared.types.filter (Catalog.Qualifies Float .structural shared.trace)) metrics := by
  have shown : ((shared.metrics .structural "/lib/").toOption.map fun metrics =>
      metrics.map fun metric => (metric.name, (metric.duration : Float), metric.isDependency)) =
        some [("A", 2.5, false), ("C", 2.5, true)] := by decide +kernel
  obtain ⟨metrics, run, shown⟩ := ok_of_toOption shown
  exact ⟨metrics, run, shown, Inputs.metrics_follow_rows run⟩

end CheckCost
