import CheckCost.Proofs.Accounting
import CheckCost.Proofs.Rearrangement

/-!
What a file report depends on. The order in which the files first came is lost when they are sorted, so only
the metrics of each file in their order matter, and of these only their sum is seen by other files.
-/
namespace CheckCost

open Outcome

/-- What a group says of its own metrics, apart from their share of the grand total. -/
def RankedGroup.own (group : RankedGroup D) : Nat × String × D × Nat × List (RankedItem D) :=
  (group.rank, group.key, group.total, group.count, group.items)

namespace Ranking

section Files

variable {D : Type} {first second : List (Metric D)}

theorem perm_of_inFile_eq (same : ∀ path, inFile path first = inFile path second) : first.Perm second := by
  classical
  rw [List.perm_iff_count]
  intro metric
  -- a metric comes as often as it does in its own file
  have own : ∀ metrics : List (Metric D), (inFile metric.path metrics).count metric = metrics.count metric :=
    fun metrics => List.count_filter (by simp)
  rw [← own first, ← own second, same]

theorem IsGrouping.mem_iff {groups : List (String × List (Metric D))} {metrics : List (Metric D)}
    (grouping : IsGrouping groups metrics) (group : String × List (Metric D)) :
    group ∈ groups ↔ (∃ metric ∈ metrics, metric.path = group.1) ∧ group.2 = inFile group.1 metrics := by
  constructor
  · intro member
    exact ⟨(grouping.files group.1).mp (List.mem_map_of_mem member), grouping.members group member⟩
  · rintro ⟨some, members⟩
    obtain ⟨found, inside, key⟩ := List.mem_map.mp ((grouping.files group.1).mpr some)
    have same : found = group := Prod.ext key (by rw [grouping.members found inside, key, members])
    exact same ▸ inside

theorem byFile_perm (same : ∀ path, inFile path first = inFile path second) :
    (byFile first).Perm (byFile second) := by
  have groupingFirst := isGrouping_byFile first
  have groupingSecond := isGrouping_byFile second
  rw [List.perm_ext_iff_of_nodup (.of_map _ groupingFirst.distinct) (.of_map _ groupingSecond.distinct)]
  intro group
  have perm := perm_of_inFile_eq same
  simp only [groupingFirst.mem_iff, groupingSecond.mem_iff, same, perm.mem_iff]

theorem inFile_filter (glob : Glob) (path : String) (metrics : List (Metric D)) :
    inFile path (glob.filter metrics) = (inFile path metrics).filter fun metric => glob.includes metric.path := by
  unfold inFile Glob.filter
  rw [List.filter_filter, List.filter_filter]
  exact List.filter_congr fun metric _ => Bool.and_comm _ _

variable [Duration D]

theorem byTotal_eq_of_perm {groups others : List (String × List (Metric D))} (perm : groups.Perm others)
    (distinct : (groups.map (·.1)).Nodup) : byTotal groups = byTotal others := by
  -- sorting by key leaves one order, whichever the groups had
  have keys : groups.mergeSort (fun a b => !decide (b.1 < a.1)) =
      others.mergeSort fun a b => !decide (b.1 < a.1) := by
    refine List.Perm.eq_of_pairwise ?_ (byKey_pairwise distinct)
      (byKey_pairwise ((perm.map _).nodup_iff.mp distinct)) ?_
    · intro a b _ _ less more
      exact absurd more (String.lt_asymm less)
    · exact (List.mergeSort_perm _ _).trans (perm.trans (List.mergeSort_perm _ _).symm)
  unfold byTotal
  rw [keys]

theorem groups_files_eq (same : ∀ path, inFile path first = inFile path second) (limit : Int) :
    groups .files limit first = groups .files limit second := by
  unfold groups
  rw [byTotal_eq_of_perm (byFile_perm same) (isGrouping_byFile first).distinct]

/-- The grand total only enters the percentages. -/
theorem ranked_own {grand other : D} {itemLimit : Int} {rank : Nat} {groups : List (String × List (Metric D))}
    {result resultOther : List (RankedGroup D)} (run : ranked grand itemLimit rank groups = .ok result)
    (runOther : ranked other itemLimit rank groups = .ok resultOther) :
    result.map RankedGroup.own = resultOther.map RankedGroup.own := by
  induction groups generalizing rank result resultOther with
  | nil =>
    cases run
    cases runOther
    rfl
  | cons group rest ih =>
    obtain ⟨_, _, run⟩ := bind_ok_iff.mp run
    obtain ⟨later, more, run⟩ := bind_ok_iff.mp run
    obtain ⟨_, _, runOther⟩ := bind_ok_iff.mp runOther
    obtain ⟨laterOther, moreOther, runOther⟩ := bind_ok_iff.mp runOther
    cases run
    cases runOther
    rw [List.map_cons, List.map_cons, ih more moreOther]
    rfl

end Files

end Ranking

namespace Report

theorem ofMetrics_metricCount {D : Type} [Duration D] {strategy : Strategy} {limits : Limits}
    {counts : Counts} {warnings : List String} {metrics : List (Metric D)} {report : Report D}
    (run : ofMetrics strategy limits counts warnings metrics = .ok report) :
    report.metricCount = counts.metrics := by
  obtain ⟨groups, _, eq⟩ := bind_ok_iff.mp run
  cases eq
  rfl

/-- Two reports on inputs that are alike come from the same metrics in each file. -/
theorem stages_of_alike {D : Type} [Duration D] {settings : Settings} {inputs others : Inputs}
    {report other : Report D} (alike : Inputs.Alike settings.kinds inputs others)
    (run : ofInputs settings inputs = .ok report) (runOther : ofInputs settings others = .ok other) :
    ∃ metrics metricsOther kept keptOther,
      (∀ path, Ranking.inFile path metrics = Ranking.inFile path metricsOther) ∧
      (∀ path, Ranking.inFile path kept = Ranking.inFile path keptOther) ∧
      ofFound settings inputs metrics kept = .ok report ∧
      ofFound settings others metricsOther keptOther = .ok other := by
  obtain ⟨metrics, glob, found, compiled, assembled⟩ := ofInputs_ok_iff.mp run
  obtain ⟨metricsOther, globOther, foundOther, compiledOther, assembledOther⟩ := ofInputs_ok_iff.mp runOther
  cases compiled.symm.trans compiledOther
  have same := alike.inFile_eq found foundOther
  refine ⟨metrics, metricsOther, glob.filter metrics, glob.filter metricsOther, same, ?_, assembled,
    assembledOther⟩
  intro path
  rw [Ranking.inFile_filter, Ranking.inFile_filter, same]

theorem own_of_alike {D : Type} [Duration D] {settings : Settings} {inputs others : Inputs}
    {report other : Report D} (files : settings.strategy = .files)
    (alike : Inputs.Alike settings.kinds inputs others)
    (run : ofInputs settings inputs = .ok report) (runOther : ofInputs settings others = .ok other) :
    report.metricCount = other.metricCount ∧ report.filteredCount = other.filteredCount ∧
      report.groups.map RankedGroup.own = other.groups.map RankedGroup.own := by
  obtain ⟨metrics, metricsOther, kept, keptOther, same, sameKept, assembled, assembledOther⟩ :=
    stages_of_alike alike run runOther
  unfold ofFound at assembled assembledOther
  rw [files] at assembled assembledOther
  obtain ⟨ranked, _, count⟩ := ofMetrics_ok assembled
  obtain ⟨rankedOther, _, countOther⟩ := ofMetrics_ok assembledOther
  rw [← Ranking.groups_files_eq sameKept] at rankedOther
  refine ⟨?_, ?_, Ranking.ranked_own ranked rankedOther⟩
  · rw [ofMetrics_metricCount assembled, ofMetrics_metricCount assembledOther]
    exact (Ranking.perm_of_inFile_eq same).length_eq
  · rw [count, countOther, (Ranking.perm_of_inFile_eq sameKept).length_eq]

theorem groups_of_alike {settings : Settings} {inputs others : Inputs} {report other : Report ℚ}
    (files : settings.strategy = .files) (alike : Inputs.Alike settings.kinds inputs others)
    (run : ofInputs settings inputs = .ok report) (runOther : ofInputs settings others = .ok other) :
    report.grandTotal = other.grandTotal ∧ report.groups = other.groups := by
  obtain ⟨metrics, metricsOther, kept, keptOther, _, sameKept, assembled, assembledOther⟩ :=
    stages_of_alike alike run runOther
  unfold ofFound at assembled assembledOther
  rw [files] at assembled assembledOther
  obtain ⟨ranked, grand, _⟩ := ofMetrics_ok assembled
  obtain ⟨rankedOther, grandOther, _⟩ := ofMetrics_ok assembledOther
  have total := Ranking.total_perm (Ranking.perm_of_inFile_eq sameKept)
  rw [← Ranking.groups_files_eq sameKept, ← total] at rankedOther
  exact ⟨by rw [grand, grandOther, total], Except.ok.inj (ranked.symm.trans rankedOther)⟩

/-- The file reports on inputs that changes lead between show the same groups, whatever durations are. Over
exact numbers the grand totals and the percentages are the same too. -/
theorem unchanged_by_rearrangement {settings : Settings} {inputs others : Inputs}
    (files : settings.strategy = .files)
    (changes : Relation.ReflTransGen (Inputs.Change settings.kinds) inputs others) :
    (∀ (D : Type) [Duration D] (report other : Report D), ofInputs settings inputs = .ok report →
      ofInputs settings others = .ok other →
        report.metricCount = other.metricCount ∧ report.filteredCount = other.filteredCount ∧
          report.groups.map RankedGroup.own = other.groups.map RankedGroup.own) ∧
    (∀ report other : Report ℚ, ofInputs settings inputs = .ok report →
      ofInputs settings others = .ok other →
        report.grandTotal = other.grandTotal ∧ report.groups = other.groups) := by
  have alike := Inputs.alike_of_changes changes
  constructor
  · intro D _ report other run runOther
    exact own_of_alike files alike run runOther
  · intro report other run runOther
    exact groups_of_alike files alike run runOther

/-- There is a file report if all files have a share of the grand total, whatever their order and the limit
are. -/
theorem ofMetrics_of_shares {D : Type} [Duration D] {limits : Limits} {counts : Counts}
    {warnings : List String} {metrics : List (Metric D)}
    (shares : (Ranking.byFile metrics).all (fun group =>
      (Duration.share (Ranking.total group.2) (Ranking.total metrics)).isOk) = true) :
    ∃ report : Report D, ofMetrics .files limits counts warnings metrics = .ok report := by
  refine (ofMetrics_returned_iff ..).mpr ?_
  intro group member
  have share := List.all_eq_true.mp shares group (Ranking.mem_byFile_of_mem member)
  cases run : Duration.share (Ranking.total group.2) (Ranking.total metrics) with
  | error fault => simp [run, Except.isOk, Except.toBool] at share
  | ok percentage => exact ⟨percentage, rfl⟩

/-- The metrics and the pattern can be used, and each file that is kept has a share. -/
def sharesEachFile (D : Type) [Duration D] (settings : Settings) (inputs : Inputs) : Bool :=
  match inputs.metrics (D := D) settings.kinds settings.dependencyMarker, Glob.compile settings.pattern with
  | .ok metrics, .ok glob =>
    (Ranking.byFile (glob.filter metrics)).all fun group =>
      (Duration.share (Ranking.total group.2) (Ranking.total (glob.filter metrics))).isOk
  | _, _ => false

theorem returned_of_sharesEachFile {D : Type} [Duration D] {settings : Settings} {inputs : Inputs}
    (files : settings.strategy = .files) (shares : sharesEachFile D settings inputs = true) :
    ∃ report : Report D, ofInputs settings inputs = .ok report := by
  unfold sharesEachFile at shares
  split at shares
  · rename_i metrics glob found compiled
    obtain ⟨report, assembled⟩ :
        ∃ report, ofFound settings inputs metrics (glob.filter metrics) = .ok report := by
      unfold ofFound
      rw [files]
      exact ofMetrics_of_shares shares
    exact ⟨report, ofInputs_ok_iff.mpr ⟨metrics, glob, found, compiled, assembled⟩⟩
  · cases shares

end Report

def Settings.byFiles : Settings := { Settings.bySymbols with strategy := .files }

/-- A check of a type that took so long. -/
def Trace.sampleRow (id duration : Int) : Json :=
  .obj [("cat", .str "check"), ("name", .str "structuredTypeRelatedTo"), ("dur", .int duration),
    ("args", .obj [("sourceId", .int id)])]

def Catalog.sampleRow (id : Int) (name path : String) : Json :=
  .obj [("id", .int id), ("symbolName", .str name), ("firstDeclaration", .obj [("path", .str path)])]

/-- Checks of two types, of which the second is declared in two files. -/
def Inputs.ordered : Inputs where
  trace := [Trace.sampleRow 1 7, Trace.sampleRow 2 2, Trace.sampleRow 1 3]
  types := [Catalog.sampleRow 1 "A" "/a.ts", Catalog.sampleRow 2 "B" "/b.ts", Catalog.sampleRow 2 "C" "/a.ts"]
  warnings := []

/-- The same rows but for one that is no object; the other file comes first. -/
def Inputs.rearranged : Inputs where
  trace := [.null, Trace.sampleRow 2 2, Trace.sampleRow 1 7, Trace.sampleRow 1 3]
  types := [Catalog.sampleRow 2 "B" "/b.ts", Catalog.sampleRow 1 "A" "/a.ts", Catalog.sampleRow 2 "C" "/a.ts"]
  warnings := []

theorem Trace.eq_of_checksType_sampleRow {kinds : CheckKinds} {id subject duration : Int}
    (checks : ChecksType kinds id (sampleRow subject duration)) : id = subject := by
  obtain ⟨fields, object, _, read⟩ := checks
  cases object
  have subjectRead : Event.idOf (.int subject) = .ok (some id) := read
  cases subjectRead
  rfl

theorem Catalog.eq_of_declaresIn_sampleRow {id : Int} {name path place : String}
    (declares : DeclaresIn place (sampleRow id name path)) : place = path := by
  obtain ⟨fields, declared, declares, text⟩ := declares
  cases declares.object
  cases declares.declaration
  exact text.symm

theorem Inputs.rearranged_of_ordered :
    Relation.ReflTransGen (Change Settings.byFiles.kinds) ordered rearranged := by
  have checks : ∀ id, Trace.ChecksType Settings.byFiles.kinds id (Trace.sampleRow 1 7) →
      ¬ Trace.ChecksType Settings.byFiles.kinds id (Trace.sampleRow 2 2) := by
    intro id first second
    have one := Trace.eq_of_checksType_sampleRow first
    have two := Trace.eq_of_checksType_sampleRow second
    omega
  have places : ∀ path, Catalog.DeclaresIn path (Catalog.sampleRow 1 "A" "/a.ts") →
      ¬ Catalog.DeclaresIn path (Catalog.sampleRow 2 "B" "/b.ts") := by
    intro path first second
    have one := Catalog.eq_of_declaresIn_sampleRow first
    have two := Catalog.eq_of_declaresIn_sampleRow second
    simp [one] at two
  have idle : ∀ id, ¬ Trace.ChecksType Settings.byFiles.kinds id .null := by
    intro id checks
    obtain ⟨_, object, _⟩ := checks
    cases object
  have swapped : Change Settings.byFiles.kinds ordered
      ⟨[Trace.sampleRow 2 2, Trace.sampleRow 1 7, Trace.sampleRow 1 3], ordered.types, []⟩ :=
    .swapTrace [] _ checks
  have inserted : Change Settings.byFiles.kinds
      ⟨[Trace.sampleRow 2 2, Trace.sampleRow 1 7, Trace.sampleRow 1 3], ordered.types, []⟩
      ⟨rearranged.trace, ordered.types, []⟩ :=
    .insertTrace [] _ idle
  have moved : Change Settings.byFiles.kinds ⟨rearranged.trace, ordered.types, []⟩ rearranged :=
    .swapTypes [] _ places
  exact .tail (.tail (.single swapped) inserted) moved

theorem Report.unchanged_in_other_order :
    (∃ report other : Report Float, ofInputs .byFiles .ordered = .ok report ∧
      ofInputs .byFiles .rearranged = .ok other ∧ report.metricCount = other.metricCount ∧
        report.filteredCount = other.filteredCount ∧
          report.groups.map RankedGroup.own = other.groups.map RankedGroup.own) ∧
      ∃ report other : Report ℚ, ofInputs .byFiles .ordered = .ok report ∧
        ofInputs .byFiles .rearranged = .ok other ∧ report.grandTotal = other.grandTotal ∧
          report.groups = other.groups := by
  have files : Settings.byFiles.strategy = .files := rfl
  obtain ⟨same, exactly⟩ := Report.unchanged_by_rearrangement files Inputs.rearranged_of_ordered
  constructor
  · have shares : sharesEachFile Float .byFiles .ordered = true := by decide +kernel
    have sharesOther : sharesEachFile Float .byFiles .rearranged = true := by decide +kernel
    obtain ⟨report, run⟩ := returned_of_sharesEachFile files shares
    obtain ⟨other, runOther⟩ := returned_of_sharesEachFile files sharesOther
    exact ⟨report, other, run, runOther, same Float report other run runOther⟩
  · have shares : sharesEachFile ℚ .byFiles .ordered = true := by decide +kernel
    have sharesOther : sharesEachFile ℚ .byFiles .rearranged = true := by decide +kernel
    obtain ⟨report, run⟩ := returned_of_sharesEachFile files shares
    obtain ⟨other, runOther⟩ := returned_of_sharesEachFile files sharesOther
    exact ⟨report, other, run, runOther, exactly report other run runOther⟩

end CheckCost
