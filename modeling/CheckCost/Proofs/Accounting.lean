import CheckCost.Proofs.FileRanking
import CheckCost.Proofs.Percentages
import Mathlib.Data.List.Dedup

/-!
What the two strategies say of the same metrics. The files divide the metrics, and the third-party files
are all of third-party code, so both reports account for the same cost in coarser and finer parts.
-/
namespace CheckCost

open Outcome

namespace Ranking

section Members

variable {D : Type}

theorem insert_flatten_perm (key : String) (metric : Metric D) (groups : List (String × List (Metric D))) :
    ((insert key metric groups).flatMap (·.2)).Perm (metric :: groups.flatMap (·.2)) := by
  induction groups with
  | nil => exact List.Perm.refl _
  | cons group rest ih =>
    obtain ⟨known, members⟩ := group
    by_cases same : known = key
    · simp only [insert, same, if_true, List.flatMap_cons, List.append_assoc, List.singleton_append]
      exact List.perm_middle
    · simp only [insert, same, if_false, List.flatMap_cons]
      exact (ih.append_left members).trans List.perm_middle

/-- The groups of the files hold the metrics, each as often as it came. -/
theorem byFile_flatten_perm (metrics : List (Metric D)) :
    ((byFile metrics).flatMap (·.2)).Perm metrics := by
  -- the last metric is inserted into the groups of those before it
  induction metrics using List.reverseRecOn with
  | nil => exact List.Perm.refl _
  | append_singleton metrics metric ih =>
    have step : byFile (metrics ++ [metric]) = insert metric.path metric (byFile metrics) := by
      unfold byFile
      rw [List.foldl_append]
      rfl
    rw [step]
    exact (insert_flatten_perm _ _ _).trans
      ((ih.cons metric).trans (List.perm_append_singleton metric metrics).symm)

/-- Choosing groups by key chooses their members by path. -/
theorem flatten_filter (test : String → Bool) {groups : List (String × List (Metric D))}
    (paths : ∀ group ∈ groups, ∀ metric ∈ group.2, metric.path = group.1) :
    (groups.filter fun group => test group.1).flatMap (·.2) =
      (groups.flatMap (·.2)).filter fun metric => test metric.path := by
  induction groups with
  | nil => rfl
  | cons group rest ih =>
    rw [List.forall_mem_cons] at paths
    rw [List.flatMap_cons, List.filter_append, ← ih paths.2]
    by_cases chosen : test group.1 = true
    · have all : group.2.filter (fun metric => test metric.path) = group.2 := by
        rw [List.filter_eq_self]
        intro metric member
        rw [paths.1 metric member]
        exact chosen
      rw [List.filter_cons, if_pos chosen, List.flatMap_cons, all]
    · have none : group.2.filter (fun metric => test metric.path) = [] := by
        rw [List.filter_eq_nil_iff]
        intro metric member
        rw [paths.1 metric member]
        exact chosen
      rw [List.filter_cons, if_neg chosen, none, List.nil_append]

theorem IsGrouping.path_of_mem {groups : List (String × List (Metric D))} {metrics : List (Metric D)}
    (grouping : IsGrouping groups metrics) :
    ∀ group ∈ groups, ∀ metric ∈ group.2, metric.path = group.1 := by
  intro group member metric inside
  rw [grouping.members group member] at inside
  exact of_decide_eq_true (List.mem_filter.mp inside).2

/-- There are as many groups as there are different paths. -/
theorem IsGrouping.length_eq {groups : List (String × List (Metric D))} {metrics : List (Metric D)}
    (grouping : IsGrouping groups metrics) : groups.length = (metrics.map Metric.path).dedup.length := by
  have same : (groups.map (·.1)).Perm (metrics.map Metric.path).dedup := by
    rw [List.perm_ext_iff_of_nodup grouping.distinct (List.nodup_dedup _)]
    intro path
    rw [grouping.files, List.mem_dedup, List.mem_map]
  rw [← List.length_map (·.1), same.length_eq]

theorem upTo_of_length_le {limit : Int} {items : List α} (fits : (items.length : Int) ≤ limit) :
    upTo limit items = items := by
  rw [upTo_of_nonneg (by omega)]
  exact List.take_of_length_le (by omega)

end Members

section Shown

variable {D : Type} [Duration D]

theorem items_perm {limit : Int} {metrics : List (Metric D)} (fits : (metrics.length : Int) ≤ limit) :
    (items limit metrics).Perm (metrics.map item) := by
  have sorted := byDuration_perm Metric.duration metrics
  unfold items
  rw [upTo_of_length_le (by rwa [sorted.length_eq])]
  exact sorted.map item

variable {grand : D} {itemLimit : Int} {groups : List (String × List (Metric D))}
  {result : List (RankedGroup D)}

theorem shows_filter (test : String → Bool) (shows : List.Forall₂ (Shows grand itemLimit) groups result) :
    List.Forall₂ (Shows grand itemLimit) (groups.filter fun group => test group.1)
      (result.filter fun group => test group.key) := by
  induction shows with
  | nil => exact .nil
  | @cons group shown groups result first rest ih =>
    by_cases chosen : test group.1 = true
    · rw [List.filter_cons, if_pos chosen, List.filter_cons, if_pos (by rwa [first.key])]
      exact .cons first ih
    · rw [List.filter_cons, if_neg chosen, List.filter_cons, if_neg (by rwa [first.key])]
      exact ih

theorem counts_of_shows (shows : List.Forall₂ (Shows grand itemLimit) groups result) :
    (result.map (·.count)).sum = (groups.flatMap (·.2)).length := by
  induction shows with
  | nil => rfl
  | cons first rest ih =>
    rw [List.map_cons, List.sum_cons, List.flatMap_cons, List.length_append, first.count, ih]

theorem items_of_shows (shows : List.Forall₂ (Shows grand itemLimit) groups result)
    (fits : ∀ group ∈ groups, (group.2.length : Int) ≤ itemLimit) :
    (result.flatMap (·.items)).Perm ((groups.flatMap (·.2)).map item) := by
  induction shows with
  | nil => exact List.Perm.refl _
  | cons first rest ih =>
    rw [List.forall_mem_cons] at fits
    rw [List.flatMap_cons, List.flatMap_cons, List.map_append, first.items]
    exact (items_perm fits.1).append (ih fits.2)

end Shown

theorem total_append (first second : List (Metric ℚ)) :
    total (first ++ second) = total first + total second := by
  simp only [total_eq_sum, List.map_append, List.sum_append]

theorem total_perm {first second : List (Metric ℚ)} (perm : first.Perm second) :
    total first = total second := by
  rw [total_eq_sum, total_eq_sum]
  exact (perm.map Metric.duration).sum_eq

theorem totals_of_shows {grand : ℚ} {itemLimit : Int} {groups : List (String × List (Metric ℚ))}
    {result : List (RankedGroup ℚ)} (shows : List.Forall₂ (Shows grand itemLimit) groups result) :
    (result.map (·.total)).sum = Duration.toMillis (total (groups.flatMap (·.2))) := by
  have millis (x : ℚ) : Duration.toMillis x = x / 1000 := rfl
  induction shows with
  | nil => simp [total_eq_sum, millis]
  | cons first rest ih =>
    rw [List.map_cons, List.sum_cons, List.flatMap_cons, total_append, first.total, ih, millis, millis,
      millis, add_div]

/-- The groups of a file report that shows all files. -/
theorem groups_files_all {D : Type} [Duration D] {limit : Int} {metrics : List (Metric D)}
    (all : ((metrics.map Metric.path).dedup.length : Int) ≤ limit) :
    IsGrouping (groups .files limit metrics) metrics ∧
      ((groups .files limit metrics).flatMap (·.2)).Perm metrics := by
  have sorted := byTotal_perm (byFile metrics)
  have grouping := (isGrouping_byFile metrics).perm sorted
  have whole : groups .files limit metrics = byTotal (byFile metrics) :=
    upTo_of_length_le (by rwa [grouping.length_eq])
  rw [whole]
  exact ⟨grouping, (sorted.flatMap_right _).trans (byFile_flatten_perm metrics)⟩

theorem groups_symbols_perm {D : Type} [Duration D] (limit : Int) (metrics : List (Metric D)) :
    ((groups .symbols limit metrics).flatMap (·.2)).Perm metrics := by
  have parts := List.filter_append_perm (·.isDependency) metrics
  simpa [groups, byOrigin] using List.perm_append_comm.trans parts

/-- What the files that pass a test cost together. -/
theorem part_of_files {grand : ℚ} {limit itemLimit : Int} {metrics : List (Metric ℚ)}
    {result : List (RankedGroup ℚ)} (test : String → Bool)
    (all : ((metrics.map Metric.path).dedup.length : Int) ≤ limit)
    (shows : List.Forall₂ (Shows grand itemLimit) (groups .files limit metrics) result) :
    ((result.filter fun group => test group.key).map (·.total)).sum =
        Duration.toMillis (total (metrics.filter fun metric => test metric.path)) ∧
      ((result.filter fun group => test group.key).map (·.count)).sum =
        (metrics.filter fun metric => test metric.path).length := by
  obtain ⟨grouping, members⟩ := groups_files_all all
  have part := members.filter fun metric => test metric.path
  rw [← flatten_filter test grouping.path_of_mem] at part
  have chosen := shows_filter test shows
  constructor
  · rw [totals_of_shows chosen, total_perm part]
  · rw [counts_of_shows chosen, part.length_eq]

end Ranking

theorem Catalog.isDependency_of_mem {D : Type} {catalog : Catalog} {index : CheckIndex D} {marker : String}
    {metric : Metric D} (member : metric ∈ catalog.metrics index marker) :
    metric.isDependency = decide (marker.toList <:+: metric.path.toList) := by
  obtain ⟨entry, _, found⟩ := List.mem_filterMap.mp member
  cases entry with
  | intrinsic => simp [Entry.metric?] at found
  | named type =>
    simp only [Entry.metric?, Option.bind_eq_bind, Option.bind_eq_some_iff, Option.pure_def,
      Option.some.injEq] at found
    obtain ⟨declaration, _, check, _, rfl⟩ := found
    rw [Bool.eq_iff_iff, decide_eq_true_iff]
    exact Text.occurs_iff marker.toList declaration.path.toList

namespace Report

/-- Over exact numbers every group has a percentage, so there is always a report. -/
theorem ofMetrics_exact (strategy : Strategy) (limits : Limits) (counts : Counts) (warnings : List String)
    (metrics : List (Metric ℚ)) :
    ∃ report : Report ℚ, ofMetrics strategy limits counts warnings metrics = .ok report :=
  (ofMetrics_returned_iff strategy limits counts warnings metrics).mpr fun _ _ => ⟨_, rfl⟩

/-- A report whose groups hold all metrics lists all of them, if there is room. -/
theorem items_perm_metrics {D : Type} [Duration D] {strategy : Strategy} {limits : Limits} {counts : Counts}
    {warnings : List String} {metrics : List (Metric D)} {report : Report D}
    (whole : ((Ranking.groups strategy limits.groups metrics).flatMap (·.2)).Perm metrics)
    (room : (metrics.length : Int) ≤ limits.items)
    (run : ofMetrics strategy limits counts warnings metrics = .ok report) :
    (report.groups.flatMap (·.items)).Perm (metrics.map Ranking.item) := by
  obtain ⟨ranked, _⟩ := ofMetrics_ok run
  obtain ⟨shows, _⟩ := Ranking.ranked_ok ranked
  refine (Ranking.items_of_shows shows ?_).trans (whole.map _)
  intro group member
  have few := (Ranking.groups_sublist member).length_le
  omega

/-- A report by files and one by symbols, with the groups `source` and `dependencies`, account for the same
cost: what the files with the marker in their paths cost is what third-party code costs. -/
structure Agree (marker : String) (files symbols : Report ℚ) (source dependencies : RankedGroup ℚ) :
    Prop where
  groups : symbols.groups = [source, dependencies]
  keys : source.key = "source" ∧ dependencies.key = "dependencies"
  ranks : source.rank = 1 ∧ dependencies.rank = 2
  dependencyTotal : dependencies.total =
    ((files.groups.filter fun group => marker.toList <:+: group.key.toList).map (·.total)).sum
  dependencyCount : dependencies.count =
    ((files.groups.filter fun group => marker.toList <:+: group.key.toList).map (·.count)).sum
  sourceTotal : source.total =
    ((files.groups.filter fun group => ¬ marker.toList <:+: group.key.toList).map (·.total)).sum
  sourceCount : source.count =
    ((files.groups.filter fun group => ¬ marker.toList <:+: group.key.toList).map (·.count)).sum
  fileTotals : (files.groups.map (·.total)).sum = files.grandTotal
  symbolTotals : (symbols.groups.map (·.total)).sum = symbols.grandTotal
  grandTotals : files.grandTotal = symbols.grandTotal
  fileCounts : (files.groups.map (·.count)).sum = files.filteredCount
  symbolCounts : (symbols.groups.map (·.count)).sum = symbols.filteredCount
  filteredCounts : files.filteredCount = symbols.filteredCount

/-- Metrics that have the marker in their paths exactly if they are third-party are divided by the files
into the same two parts. -/
theorem agree_of_marked {marker : String} {metrics : List (Metric ℚ)} {fileLimits symbolLimits : Limits}
    {fileCounts symbolCounts : Counts} {fileWarnings symbolWarnings : List String} {files symbols : Report ℚ}
    (marked : ∀ metric ∈ metrics, metric.isDependency = decide (marker.toList <:+: metric.path.toList))
    (all : ((metrics.map Metric.path).dedup.length : Int) ≤ fileLimits.groups)
    (runFiles : ofMetrics .files fileLimits fileCounts fileWarnings metrics = .ok files)
    (runSymbols : ofMetrics .symbols symbolLimits symbolCounts symbolWarnings metrics = .ok symbols) :
    ∃ source dependencies, Agree marker files symbols source dependencies := by
  obtain ⟨rankedFiles, fileGrand, fileCount⟩ := ofMetrics_ok runFiles
  obtain ⟨rankedSymbols, symbolGrand, symbolCount⟩ := ofMetrics_ok runSymbols
  obtain ⟨showsFiles, _⟩ := Ranking.ranked_ok rankedFiles
  obtain ⟨showsSymbols, ranks⟩ := Ranking.ranked_ok rankedSymbols
  obtain ⟨_, members⟩ := Ranking.groups_files_all all
  have origins : metrics.filter (·.isDependency) =
      metrics.filter fun metric => marker.toList <:+: metric.path.toList :=
    List.filter_congr marked
  have others : metrics.filter (!·.isDependency) =
      metrics.filter fun metric => ¬ marker.toList <:+: metric.path.toList := by
    refine List.filter_congr ?_
    intro metric member
    rw [marked metric member, decide_not]
  have symbolTotals := Ranking.totals_of_shows showsSymbols
  have symbolSizes := Ranking.counts_of_shows showsSymbols
  have both := Ranking.groups_symbols_perm symbolLimits.groups metrics
  rw [Ranking.total_perm both] at symbolTotals
  rw [both.length_eq] at symbolSizes
  obtain ⟨thirdTotal, thirdCount⟩ := Ranking.part_of_files
    (fun path => marker.toList <:+: path.toList) all showsFiles
  obtain ⟨ownTotal, ownCount⟩ := Ranking.part_of_files
    (fun path => ¬ marker.toList <:+: path.toList) all showsFiles
  obtain ⟨source, _, showsSource, showsRest, groups⟩ := List.forall₂_cons_left_iff.mp showsSymbols
  obtain ⟨dependencies, _, showsDependencies, showsNone, rfl⟩ := List.forall₂_cons_left_iff.mp showsRest
  cases showsNone
  rw [groups] at ranks symbolTotals symbolSizes
  simp only [List.map_cons, List.map_nil, Ranking.groups, Ranking.byOrigin, List.length_cons,
    List.length_nil, List.range'_succ, List.range'_zero, List.cons.injEq, and_true] at ranks
  exact ⟨source, dependencies, {
    groups := groups
    keys := ⟨showsSource.key, showsDependencies.key⟩
    ranks := ranks
    dependencyTotal := by rw [showsDependencies.total, origins, thirdTotal]
    dependencyCount := by rw [showsDependencies.count, origins, thirdCount]
    sourceTotal := by rw [showsSource.total, others, ownTotal]
    sourceCount := by rw [showsSource.count, others, ownCount]
    fileTotals := by rw [Ranking.totals_of_shows showsFiles, Ranking.total_perm members, fileGrand]
    symbolTotals := by rw [groups, symbolTotals, symbolGrand]
    grandTotals := by rw [fileGrand, symbolGrand]
    fileCounts := by rw [Ranking.counts_of_shows showsFiles, members.length_eq, fileCount]
    symbolCounts := by rw [groups, symbolSizes, symbolCount]
    filteredCounts := by rw [fileCount, symbolCount] }⟩

/-- A report that shows all files and one by symbols on the metrics of a catalog account for the same cost,
whatever the marker and the index are. No file is divided between third-party code and the rest, and with
room for all items both reports list the same ones. -/
theorem strategies_agree (catalog : Catalog) (index : CheckIndex ℚ) (marker : String)
    (fileLimits symbolLimits : Limits) (fileCounts symbolCounts : Counts)
    (fileWarnings symbolWarnings : List String)
    (all : (((catalog.metrics index marker).map Metric.path).dedup.length : Int) ≤ fileLimits.groups) :
    ∃ files symbols source dependencies,
      ofMetrics .files fileLimits fileCounts fileWarnings (catalog.metrics index marker) = .ok files ∧
      ofMetrics .symbols symbolLimits symbolCounts symbolWarnings (catalog.metrics index marker) =
        .ok symbols ∧
      Agree marker files symbols source dependencies ∧
      (∀ first ∈ catalog.metrics index marker, ∀ second ∈ catalog.metrics index marker,
        first.path = second.path → first.isDependency = second.isDependency) ∧
      (((catalog.metrics index marker).length : Int) ≤ fileLimits.items →
        ((catalog.metrics index marker).length : Int) ≤ symbolLimits.items →
          (files.groups.flatMap (·.items)).Perm (symbols.groups.flatMap (·.items))) := by
  have marked : ∀ metric ∈ catalog.metrics index marker,
      metric.isDependency = decide (marker.toList <:+: metric.path.toList) :=
    fun metric => Catalog.isDependency_of_mem
  generalize catalog.metrics index marker = metrics at all marked ⊢
  obtain ⟨files, runFiles⟩ := ofMetrics_exact .files fileLimits fileCounts fileWarnings metrics
  obtain ⟨symbols, runSymbols⟩ := ofMetrics_exact .symbols symbolLimits symbolCounts symbolWarnings metrics
  obtain ⟨source, dependencies, agree⟩ := agree_of_marked marked all runFiles runSymbols
  refine ⟨files, symbols, source, dependencies, runFiles, runSymbols, agree, ?_, ?_⟩
  · intro first memberFirst second memberSecond path
    rw [marked first memberFirst, marked second memberSecond, path]
  · intro roomFiles roomSymbols
    exact (items_perm_metrics (Ranking.groups_files_all all).2 roomFiles runFiles).trans
      (items_perm_metrics (Ranking.groups_symbols_perm _ _) roomSymbols runSymbols).symm

end Report

theorem Report.strategies_agree_on_shared_rows :
    ∃ (catalog : Catalog) (index : CheckIndex ℚ),
      (catalog.metrics index "/lib/").map (fun metric => (metric.path, metric.duration, metric.isDependency)) =
        [("/src/a.ts", 5 / 2, false), ("/lib/c.ts", 5 / 2, true)] ∧
      ∃ files symbols source dependencies,
        ofMetrics .files ⟨2, 2⟩ ⟨4, 4, 2⟩ [] (catalog.metrics index "/lib/") = .ok files ∧
        ofMetrics .symbols ⟨0, 2⟩ ⟨4, 4, 2⟩ [] (catalog.metrics index "/lib/") = .ok symbols ∧
        Agree "/lib/" files symbols source dependencies ∧
        (files.groups.flatMap (·.items)).Perm (symbols.groups.flatMap (·.items)) := by
  have shown : (Inputs.shared.metrics (D := ℚ) .structural "/lib/").toOption.map
      (List.map fun metric => (metric.path, metric.duration, metric.isDependency)) =
        some [("/src/a.ts", 5 / 2, false), ("/lib/c.ts", 5 / 2, true)] := by decide +kernel
  obtain ⟨_, run, shown⟩ := ok_of_toOption shown
  obtain ⟨_, catalog, index, _, _, _, rfl⟩ := Inputs.metrics_ok_iff.mp run
  have length : (catalog.metrics index "/lib/").length = 2 := by
    simpa using congrArg List.length shown
  have paths : (catalog.metrics index "/lib/").map Metric.path = ["/src/a.ts", "/lib/c.ts"] := by
    simpa [Function.comp_def] using congrArg (List.map Prod.fst) shown
  have all : (((catalog.metrics index "/lib/").map Metric.path).dedup.length : Int) ≤ 2 := by
    rw [paths]
    decide
  obtain ⟨files, symbols, source, dependencies, runFiles, runSymbols, agree, _, items⟩ :=
    Report.strategies_agree catalog index "/lib/" ⟨2, 2⟩ ⟨0, 2⟩ ⟨4, 4, 2⟩ ⟨4, 4, 2⟩ [] [] all
  exact ⟨catalog, index, shown, files, symbols, source, dependencies, runFiles, runSymbols, agree,
    items (by simp [length]) (by simp [length])⟩

end CheckCost
