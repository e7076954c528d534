import CheckCost.Proofs.Grouping
import CheckCost.Proofs.Numbering
import CheckCost.Proofs.Sorting

/-!
The ranking by files. The groups are the files that come first when all are ordered by falling total and
equal totals by path, each with what its own metrics add up to.
-/
namespace CheckCost

open OrderedDuration Outcome

variable {D : Type} [Duration D]

namespace Ranking

def fileTotal (metrics : List (Metric D)) (path : String) : D := total (inFile path metrics)

/-- The file costs more, or as much and its path is the lower one. -/
def Precedes (metrics : List (Metric D)) (first second : String) : Prop :=
  Duration.below (fileTotal metrics second) (fileTotal metrics first) = true ∨
    Duration.below (fileTotal metrics second) (fileTotal metrics first) = false ∧
      Duration.below (fileTotal metrics first) (fileTotal metrics second) = false ∧ first < second

end Ranking

/-- The report shows the first files of the list, which are all files of the metrics in their order, and
totals over all metrics. -/
structure Report.RanksFiles (limit : Nat) (metrics : List (Metric D)) (files : List String)
    (report : Report D) : Prop where
  distinct : files.Nodup
  complete : ∀ path, path ∈ files ↔ ∃ metric ∈ metrics, metric.path = path
  ordered : files.Pairwise (Ranking.Precedes metrics)
  kept : report.groups.map (·.key) = files.take limit
  keys : (report.groups.map (·.key)).Nodup
  omitted : ∀ group ∈ report.groups, ∀ path ∈ files.drop limit,
    Ranking.Precedes metrics group.key path
  ranks : report.groups.map (·.rank) = List.range' 1 report.groups.length
  totals : ∀ group ∈ report.groups,
    group.total = Duration.toMillis (Ranking.fileTotal metrics group.key)
  counts : ∀ group ∈ report.groups, group.count = (Ranking.inFile group.key metrics).length
  falling : report.groups.Pairwise fun upper lower => lower.percentage ≤ upper.percentage
  grandTotal : report.grandTotal = Duration.toMillis (Ranking.total metrics)
  filteredCount : report.filteredCount = metrics.length

namespace Ranking

omit [Duration D] in
theorem IsGrouping.perm {groups others : List (String × List (Metric D))} {metrics : List (Metric D)}
    (grouping : IsGrouping groups metrics) (perm : others.Perm groups) : IsGrouping others metrics where
  distinct := (perm.map _).nodup_iff.mpr grouping.distinct
  members group member := grouping.members group (perm.mem_iff.mp member)
  files path := by
    rw [(perm.map _).mem_iff]
    exact grouping.files path

theorem byTotal_perm (groups : List (String × List (Metric D))) : (byTotal groups).Perm groups :=
  (byDuration_perm _ _).trans (List.mergeSort_perm _ _)

omit [Duration D] in
theorem byKey_pairwise {groups : List (String × List (Metric D))} (distinct : (groups.map (·.1)).Nodup) :
    (groups.mergeSort fun a b => !decide (b.1 < a.1)).Pairwise fun a b => a.1 < b.1 := by
  have trans : ∀ a b c : String × List (Metric D), (!decide (b.1 < a.1)) = true →
      (!decide (c.1 < b.1)) = true → (!decide (c.1 < a.1)) = true := by
    intro a b c ab bc
    simp only [Bool.not_eq_true', decide_eq_false_iff_not, String.not_lt] at ab bc ⊢
    exact String.le_trans ab bc
  have total : ∀ a b : String × List (Metric D),
      (!decide (b.1 < a.1) || !decide (a.1 < b.1)) = true := by
    intro a b
    simp only [Bool.or_eq_true, Bool.not_eq_true', decide_eq_false_iff_not, String.not_lt]
    exact String.le_total _ _
  have sorted := List.pairwise_mergeSort trans total groups
  have perm := List.mergeSort_perm groups fun a b => !decide (b.1 < a.1)
  have keys := (perm.map (·.1)).nodup_iff.mpr distinct
  rw [List.Nodup, List.pairwise_map] at keys
  refine (sorted.and keys).imp ?_
  rintro a b ⟨notAfter, different⟩
  simp only [Bool.not_eq_true', decide_eq_false_iff_not, String.not_lt] at notAfter
  by_contra notBefore
  exact different (String.le_antisymm notAfter (String.not_lt.mp notBefore))

variable [OrderedDuration D]

theorem byTotal_pairwise {groups : List (String × List (Metric D))} (distinct : (groups.map (·.1)).Nodup)
    (numbers : ∀ group ∈ groups, IsNumber (total group.2)) :
    (byTotal groups).Pairwise fun a b =>
      place (total b.2) < place (total a.2) ∨ place (total b.2) = place (total a.2) ∧ a.1 < b.1 := by
  refine byDuration_pairwise ?_ (byKey_pairwise distinct)
  intro group member
  exact numbers group (List.mem_mergeSort.mp member)

theorem precedes_of_place {metrics : List (Metric D)} {first second : String}
    (numberFirst : IsNumber (fileTotal metrics first)) (numberSecond : IsNumber (fileTotal metrics second))
    (lies : place (fileTotal metrics second) < place (fileTotal metrics first) ∨
      place (fileTotal metrics second) = place (fileTotal metrics first) ∧ first < second) :
    Precedes metrics first second := by
  rcases lies with less | ⟨same, lower⟩
  · exact Or.inl ((below_iff numberSecond numberFirst).mpr less)
  · refine Or.inr ⟨?_, ?_, lower⟩
    · rw [← Bool.not_eq_true, below_iff numberSecond numberFirst]
      exact same.not_lt
    · rw [← Bool.not_eq_true, below_iff numberFirst numberSecond]
      exact same.not_gt

omit [OrderedDuration D] in
theorem IsGrouping.total_of_mem {groups : List (String × List (Metric D))} {metrics : List (Metric D)}
    (grouping : IsGrouping groups metrics) {group : String × List (Metric D)} (member : group ∈ groups) :
    total group.2 = fileTotal metrics group.1 := by
  rw [grouping.members group member]
  rfl

theorem IsGrouping.isNumber_of_mem {groups : List (String × List (Metric D))} {metrics : List (Metric D)}
    (grouping : IsGrouping groups metrics)
    (numbers : ∀ metric ∈ metrics, IsNumber (fileTotal metrics metric.path))
    {group : String × List (Metric D)} (member : group ∈ groups) : IsNumber (fileTotal metrics group.1) := by
  obtain ⟨metric, inside, path⟩ := (grouping.files group.1).mp (List.mem_map.mpr ⟨group, member, rfl⟩)
  rw [← path]
  exact numbers metric inside

theorem byTotal_byFile_pairwise {metrics : List (Metric D)}
    (numbers : ∀ metric ∈ metrics, IsNumber (fileTotal metrics metric.path)) :
    (byTotal (byFile metrics)).Pairwise fun a b =>
      place (total b.2) < place (total a.2) ∨ place (total b.2) = place (total a.2) ∧ a.1 < b.1 := by
  have grouping := isGrouping_byFile metrics
  refine byTotal_pairwise grouping.distinct ?_
  intro group member
  rw [grouping.total_of_mem member]
  exact grouping.isNumber_of_mem numbers member

/-- The files of sorted groups are in the order of their totals. -/
theorem IsGrouping.precedes_pairwise {groups : List (String × List (Metric D))} {metrics : List (Metric D)}
    (grouping : IsGrouping groups metrics)
    (numbers : ∀ metric ∈ metrics, IsNumber (fileTotal metrics metric.path))
    (sorted : groups.Pairwise fun a b =>
      place (total b.2) < place (total a.2) ∨ place (total b.2) = place (total a.2) ∧ a.1 < b.1) :
    (groups.map (·.1)).Pairwise (Precedes metrics) := by
  rw [List.pairwise_map]
  refine sorted.imp_of_mem ?_
  intro a b memberA memberB lies
  rw [grouping.total_of_mem memberA, grouping.total_of_mem memberB] at lies
  exact precedes_of_place (grouping.isNumber_of_mem numbers memberA)
    (grouping.isNumber_of_mem numbers memberB) lies

/-- Percentages follow the totals that the groups were sorted by. -/
theorem percentages_pairwise {grand : D} {itemLimit : Int} {groups : List (String × List (Metric D))}
    {result : List (RankedGroup D)} (shows : List.Forall₂ (Shows grand itemLimit) groups result)
    (sorted : groups.Pairwise fun a b =>
      place (total b.2) < place (total a.2) ∨ place (total b.2) = place (total a.2) ∧ a.1 < b.1) :
    result.Pairwise fun upper lower => lower.percentage ≤ upper.percentage := by
  refine pairwise_of_related ?_ shows sorted
  intro a b shownA shownB showsA showsB lies
  refine share_mono ?_ showsB.percentage showsA.percentage
  rcases lies with less | ⟨same, _⟩
  · exact less.le
  · exact same.le

end Ranking

/-- The groups of a file report come from the files in their order; numbering them keeps what was sorted. -/
theorem Report.ranksFiles_of_ofMetrics [OrderedDuration D] {limits : Limits} {counts : Counts}
    {warnings : List String} {metrics : List (Metric D)} {report : Report D}
    (run : ofMetrics .files limits counts warnings metrics = .ok report) (limit : 0 ≤ limits.groups)
    (numbers : ∀ metric ∈ metrics, IsNumber (Ranking.fileTotal metrics metric.path)) :
    ∃ files, report.RanksFiles limits.groups.toNat metrics files := by
  obtain ⟨ranked, grandTotal, filteredCount⟩ := ofMetrics_ok run
  obtain ⟨shows, ranks⟩ := Ranking.ranked_ok ranked
  have grouping := (Ranking.isGrouping_byFile metrics).perm (Ranking.byTotal_perm _)
  have sorted := Ranking.byTotal_byFile_pairwise numbers
  have kept : Ranking.groups .files limits.groups metrics =
      (Ranking.byTotal (Ranking.byFile metrics)).take limits.groups.toNat :=
    Ranking.upTo_of_nonneg limit _
  rw [kept] at shows ranks
  generalize Ranking.byTotal (Ranking.byFile metrics) = all at grouping sorted shows ranks
  have ordered := grouping.precedes_pairwise numbers sorted
  have keys : report.groups.map (·.key) = (all.map (·.1)).take limits.groups.toNat := by
    rw [Ranking.keys_of_shows shows, List.map_take]
  have member : ∀ group ∈ report.groups, ∃ source ∈ all,
      Ranking.Shows (Ranking.total metrics) limits.items source group := by
    intro group inside
    obtain ⟨source, taken, showsGroup⟩ := related_of_mem shows inside
    exact ⟨source, List.mem_of_mem_take taken, showsGroup⟩
  refine ⟨all.map (·.1), ?_⟩
  exact {
    distinct := grouping.distinct
    complete := grouping.files
    ordered := ordered
    kept := keys
    keys := by
      rw [keys]
      exact grouping.distinct.sublist (List.take_sublist _ _)
    omitted := by
      intro group inside path later
      have early : group.key ∈ (all.map (·.1)).take limits.groups.toNat := by
        rw [← keys]
        exact List.mem_map.mpr ⟨group, inside, rfl⟩
      rw [← List.take_append_drop limits.groups.toNat (all.map (·.1)), List.pairwise_append] at ordered
      exact ordered.2.2 group.key early path later
    ranks := by
      rw [ranks, ← shows.length_eq]
    totals := by
      intro group inside
      obtain ⟨source, found, showsGroup⟩ := member group inside
      rw [showsGroup.total, showsGroup.key, grouping.total_of_mem found]
    counts := by
      intro group inside
      obtain ⟨source, found, showsGroup⟩ := member group inside
      rw [showsGroup.count, showsGroup.key, grouping.members source found]
    falling := Ranking.percentages_pairwise shows (sorted.sublist (List.take_sublist _ _))
    grandTotal := grandTotal
    filteredCount := filteredCount }

/-- On doubles the ranking needs only that no file's total is undefined; totals may be infinite or
negative. -/
theorem Report.ranks_files {limits : Limits} {counts : Counts} {warnings : List String}
    {metrics : List (Metric Float)} {report : Report Float}
    (run : ofMetrics .files limits counts warnings metrics = .ok report) (limit : 0 ≤ limits.groups)
    (numbers : ∀ metric ∈ metrics, (Ranking.fileTotal metrics metric.path).isNaN = false) :
    ∃ files, report.RanksFiles limits.groups.toNat metrics files :=
  ranksFiles_of_ofMetrics run limit numbers

/-- A check of a type in a file that took so long. -/
def Metric.sample (path : String) (duration : Float) : Metric Float where
  type := ⟨1, "A", [], none, none, none, .null⟩
  declaration := ⟨path, ⟨1, 1⟩, ⟨2, 1⟩⟩
  check := ⟨"check", "structuredTypeRelatedTo", "X", 0.0, duration, []⟩
  isDependency := false

def Ranking.twoFiles : List (Metric Float) :=
  [.sample "/a.ts" 3.0, .sample "/b.ts" 2.0, .sample "/a.ts" 1.0]

theorem Ranking.groups_twoFiles :
    groups .files 1 twoFiles = [("/a.ts", [.sample "/a.ts" 3.0, .sample "/a.ts" 1.0])] := by
  have files : byFile twoFiles =
      [("/a.ts", [.sample "/a.ts" 3.0, .sample "/a.ts" 1.0]), ("/b.ts", [.sample "/b.ts" 2.0])] := rfl
  have keys : (byFile twoFiles).mergeSort (fun a b => !decide (b.1 < a.1)) = byFile twoFiles := by
    refine List.mergeSort_of_pairwise ?_
    rw [files, List.pairwise_pair]
    decide +kernel
  have totals : byDuration (fun group => total group.2) (byFile twoFiles) = byFile twoFiles := by
    refine List.mergeSort_of_pairwise ?_
    rw [files, List.pairwise_pair]
    decide +kernel
  unfold groups byTotal
  dsimp only
  rw [keys, totals]
  rfl

theorem Report.ranks_two_files :
    ∃ report : Report Float, ofMetrics .files ⟨1, 5⟩ ⟨3, 3, 3⟩ [] Ranking.twoFiles = .ok report ∧
      report.groups.map (fun group => (group.key, group.percentage)) = [("/a.ts", 67)] ∧
      ∃ files, report.RanksFiles 1 Ranking.twoFiles files := by
  have share : Duration.share (Ranking.total [Metric.sample "/a.ts" 3.0, .sample "/a.ts" 1.0])
      (Ranking.total Ranking.twoFiles) = .ok 67 := by decide +kernel
  have numbers : ∀ metric ∈ Ranking.twoFiles,
      (Ranking.fileTotal Ranking.twoFiles metric.path).isNaN = false := by decide +kernel
  have run : ∃ report : Report Float,
      ofMetrics .files ⟨1, 5⟩ ⟨3, 3, 3⟩ [] Ranking.twoFiles = .ok report ∧
      report.groups.map (fun group => (group.key, group.percentage)) = [("/a.ts", 67)] := by
    unfold ofMetrics
    rw [Ranking.groups_twoFiles]
    simp only [Ranking.ranked, share]
    exact ⟨_, rfl, rfl⟩
  obtain ⟨report, run, shown⟩ := run
  exact ⟨report, run, shown, Report.ranks_files run (by decide) numbers⟩

end CheckCost
