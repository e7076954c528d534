import CheckCost.Proofs.Independence

/-!
A file report on the metrics that a glob keeps. A glob looks at paths only, so a file is kept or dropped whole
and what is left of the ranking is the ranking of what is left.
-/
namespace CheckCost

open OrderedDuration Outcome

/-- What a group says of its own metrics, apart from its place in the report. -/
def RankedGroup.contents (group : RankedGroup D) : String × D × Nat × List (RankedItem D) :=
  (group.key, group.total, group.count, group.items)

/-- The second report has the groups of the first whose files the glob keeps. They are numbered anew, and
their percentages are of what the kept metrics add up to. -/
structure Report.Restricts {D : Type} [Duration D] (glob : Glob) (metrics : List (Metric D))
    (whole kept : Report D) : Prop where
  groups : kept.groups.map RankedGroup.contents =
    (whole.groups.filter fun group => glob.includes group.key).map RankedGroup.contents
  ranks : kept.groups.map (·.rank) = List.range' 1 kept.groups.length
  grandTotal : kept.grandTotal = Duration.toMillis (Ranking.total (glob.filter metrics))
  percentages : ∀ group ∈ kept.groups,
    Duration.share (Ranking.fileTotal metrics group.key) (Ranking.total (glob.filter metrics)) =
      .ok group.percentage
  files : ∀ path, Ranking.inFile path (glob.filter metrics) =
    if glob.includes path then Ranking.inFile path metrics else []

namespace Ranking

section Files

variable {D : Type}

/-- All metrics of a file share the fate of its path. -/
theorem inFile_filter_eq (glob : Glob) (path : String) (metrics : List (Metric D)) :
    inFile path (glob.filter metrics) = if glob.includes path then inFile path metrics else [] := by
  rw [inFile_filter]
  have same : ∀ metric ∈ inFile path metrics, metric.path = path := by
    intro metric member
    exact of_decide_eq_true (List.mem_filter.mp member).2
  split
  · rename_i included
    rw [List.filter_eq_self]
    intro metric member
    rw [same metric member]
    exact included
  · rename_i excluded
    rw [List.filter_eq_nil_iff]
    intro metric member
    rw [same metric member]
    exact excluded

theorem IsGrouping.filter {groups : List (String × List (Metric D))} {metrics : List (Metric D)}
    (grouping : IsGrouping groups metrics) (glob : Glob) :
    IsGrouping (groups.filter fun group => glob.includes group.1) (glob.filter metrics) where
  distinct := grouping.distinct.sublist (List.filter_sublist.map _)
  members := by
    intro group member
    obtain ⟨inside, included⟩ := List.mem_filter.mp member
    rw [inFile_filter_eq, if_pos included]
    exact grouping.members group inside
  files := by
    intro path
    constructor
    · intro member
      obtain ⟨group, chosen, rfl⟩ := List.mem_map.mp member
      obtain ⟨inside, included⟩ := List.mem_filter.mp chosen
      obtain ⟨metric, found, same⟩ := (grouping.files group.1).mp (List.mem_map_of_mem inside)
      exact ⟨metric, List.mem_filter.mpr ⟨found, by rwa [same]⟩, same⟩
    · rintro ⟨metric, member, rfl⟩
      obtain ⟨found, included⟩ := List.mem_filter.mp member
      obtain ⟨group, inside, same⟩ := List.mem_map.mp ((grouping.files metric.path).mpr ⟨metric, found, rfl⟩)
      exact List.mem_map.mpr ⟨group, List.mem_filter.mpr ⟨inside, by rwa [same]⟩, same⟩

/-- Metrics have one grouping, up to the order of the files. -/
theorem IsGrouping.perm_of_isGrouping {groups others : List (String × List (Metric D))}
    {metrics : List (Metric D)} (grouping : IsGrouping groups metrics) (other : IsGrouping others metrics) :
    groups.Perm others := by
  rw [List.perm_ext_iff_of_nodup (.of_map _ grouping.distinct) (.of_map _ other.distinct)]
  intro group
  rw [grouping.mem_iff, other.mem_iff]

end Files

variable {D : Type} [Duration D]

theorem fileTotal_filter {glob : Glob} {path : String} (included : glob.includes path = true)
    (metrics : List (Metric D)) : fileTotal (glob.filter metrics) path = fileTotal metrics path := by
  unfold fileTotal
  rw [inFile_filter_eq, if_pos included]

/-- Sorting the groups that are left gives what is left of the sorted groups: both are in the one order of
falling totals and rising paths. -/
theorem byTotal_filter [OrderedDuration D] {metrics : List (Metric D)}
    (numbers : ∀ metric ∈ metrics, IsNumber (fileTotal metrics metric.path)) (glob : Glob) :
    byTotal (byFile (glob.filter metrics)) =
      (byTotal (byFile metrics)).filter fun group => glob.includes group.1 := by
  have numbersKept : ∀ metric ∈ glob.filter metrics,
      IsNumber (fileTotal (glob.filter metrics) metric.path) := by
    intro metric member
    obtain ⟨found, included⟩ := List.mem_filter.mp member
    rw [fileTotal_filter included]
    exact numbers metric found
  have grouping := (isGrouping_byFile metrics).perm (byTotal_perm _)
  have groupingKept := (isGrouping_byFile (glob.filter metrics)).perm (byTotal_perm _)
  refine List.Perm.eq_of_pairwise ?_ (byTotal_byFile_pairwise numbersKept)
    ((byTotal_byFile_pairwise numbers).filter _) (groupingKept.perm_of_isGrouping (grouping.filter glob))
  -- no two groups stand before each other
  intro a b _ _ first second
  rcases first with less | ⟨same, lower⟩
  · rcases second with more | ⟨tie, _⟩
    · exact absurd more less.not_gt
    · exact absurd tie less.ne'
  · rcases second with more | ⟨_, upper⟩
    · exact absurd more same.not_gt
    · exact absurd upper (String.lt_asymm lower)

theorem groups_files_filter [OrderedDuration D] {limit : Int} {metrics : List (Metric D)}
    (all : ((metrics.map Metric.path).dedup.length : Int) ≤ limit)
    (numbers : ∀ metric ∈ metrics, IsNumber (fileTotal metrics metric.path)) (glob : Glob) :
    groups .files limit (glob.filter metrics) =
      (groups .files limit metrics).filter fun group => glob.includes group.1 := by
  have length : (byTotal (byFile metrics)).length = (metrics.map Metric.path).dedup.length :=
    ((isGrouping_byFile metrics).perm (byTotal_perm _)).length_eq
  have fewer := List.length_filter_le (fun group => glob.includes group.1) (byTotal (byFile metrics))
  unfold groups
  dsimp only
  rw [byTotal_filter numbers, upTo_of_length_le (by omega), upTo_of_length_le (by omega)]

theorem contents_of_shows {grand : D} {itemLimit : Int} {groups : List (String × List (Metric D))}
    {result : List (RankedGroup D)} (shows : List.Forall₂ (Shows grand itemLimit) groups result) :
    result.map RankedGroup.contents = groups.map fun group =>
      (group.1, Duration.toMillis (total group.2), group.2.length, items itemLimit group.2) := by
  induction shows with
  | nil => rfl
  | cons first rest ih =>
    rw [List.map_cons, List.map_cons, ih, RankedGroup.contents, first.key, first.total, first.count,
      first.items]

end Ranking

theorem Report.restricts_of_ofMetrics {D : Type} [Duration D] [OrderedDuration D] {limits : Limits}
    {counts countsKept : Counts} {warnings warningsKept : List String} {metrics : List (Metric D)}
    {glob : Glob} {whole kept : Report D}
    (run : ofMetrics .files limits counts warnings metrics = .ok whole)
    (runKept : ofMetrics .files limits countsKept warningsKept (glob.filter metrics) = .ok kept)
    (all : ((metrics.map Metric.path).dedup.length : Int) ≤ limits.groups)
    (numbers : ∀ metric ∈ metrics, IsNumber (Ranking.fileTotal metrics metric.path)) :
    Restricts glob metrics whole kept := by
  obtain ⟨ranked, _, _⟩ := ofMetrics_ok run
  obtain ⟨rankedKept, grandTotal, _⟩ := ofMetrics_ok runKept
  obtain ⟨shows, _⟩ := Ranking.ranked_ok ranked
  obtain ⟨showsKept, ranks⟩ := Ranking.ranked_ok rankedKept
  rw [showsKept.length_eq] at ranks
  rw [Ranking.groups_files_filter all numbers glob] at showsKept
  have chosen := Ranking.shows_filter (fun path => glob.includes path) shows
  refine ⟨?_, ranks, grandTotal, ?_, fun path => Ranking.inFile_filter_eq glob path metrics⟩
  · rw [Ranking.contents_of_shows showsKept, Ranking.contents_of_shows chosen]
  · intro group member
    obtain ⟨source, inside, showsGroup⟩ := related_of_mem showsKept member
    have grouping := (Ranking.groups_files_all all).1
    rw [showsGroup.key, ← grouping.total_of_mem (List.mem_of_mem_filter inside)]
    exact showsGroup.percentage

/-- With room for all files, a file report on the metrics that a glob keeps is the report on all of them with
the other files left out. No total of a file may be undefined, else the files have no order. -/
theorem Report.filtering_keeps_files {limits : Limits} {counts countsKept : Counts}
    {warnings warningsKept : List String} {metrics : List (Metric Float)} {glob : Glob}
    {whole kept : Report Float}
    (run : ofMetrics .files limits counts warnings metrics = .ok whole)
    (runKept : ofMetrics .files limits countsKept warningsKept (glob.filter metrics) = .ok kept)
    (all : ((metrics.map Metric.path).dedup.length : Int) ≤ limits.groups)
    (numbers : ∀ metric ∈ metrics, (Ranking.fileTotal metrics metric.path).isNaN = false) :
    Restricts glob metrics whole kept :=
  restricts_of_ofMetrics run runKept all numbers

/-- Of two files the pattern keeps the cheaper one, which then has rank and percentage of its own. -/
theorem Report.filtering_keeps_one_of_two_files :
    ∃ (glob : Glob) (whole kept : Report Float), Glob.compile "\x7bb,c\x7d.ts" = .ok glob ∧
      ofMetrics .files ⟨2, 5⟩ ⟨3, 3, 3⟩ [] Ranking.twoFiles = .ok whole ∧
      ofMetrics .files ⟨2, 5⟩ ⟨3, 3, 3⟩ [] (glob.filter Ranking.twoFiles) = .ok kept ∧
      kept.groups.map (fun group => (group.rank, group.key, group.percentage)) = [(1, "/b.ts", 100)] ∧
      Restricts glob Ranking.twoFiles whole kept := by
  have filtered : ((Glob.compile "\x7bb,c\x7d.ts").toOption.map fun glob =>
      Ranking.twoFiles.map fun metric => glob.includes metric.path) = some [false, true, false] := by
    decide +kernel
  obtain ⟨glob, compiled, included⟩ := ok_of_toOption filtered
  simp only [Ranking.twoFiles, List.map_cons, List.map_nil, List.cons.injEq, and_true] at included
  have rest : glob.filter Ranking.twoFiles = [.sample "/b.ts" 2.0] := by
    simp [Glob.filter, Ranking.twoFiles, included]
  have shares : (Ranking.byFile Ranking.twoFiles).all (fun group =>
      (Duration.share (Ranking.total group.2) (Ranking.total Ranking.twoFiles)).isOk) = true := by
    decide +kernel
  obtain ⟨whole, run⟩ : ∃ whole : Report Float,
      ofMetrics .files ⟨2, 5⟩ ⟨3, 3, 3⟩ [] Ranking.twoFiles = .ok whole := Report.ofMetrics_of_shares shares
  have one : Ranking.groups .files 2 [Metric.sample "/b.ts" 2.0] = [("/b.ts", [.sample "/b.ts" 2.0])] := by
    simp [Ranking.groups, Ranking.byTotal, Ranking.byDuration, Ranking.byFile, Ranking.insert, Ranking.upTo]
    rfl
  have share : Duration.share (Ranking.total [Metric.sample "/b.ts" 2.0])
      (Ranking.total [Metric.sample "/b.ts" 2.0]) = .ok 100 := by decide +kernel
  have runKept : ∃ kept : Report Float,
      ofMetrics .files ⟨2, 5⟩ ⟨3, 3, 3⟩ [] (glob.filter Ranking.twoFiles) = .ok kept ∧
      kept.groups.map (fun group => (group.rank, group.key, group.percentage)) = [(1, "/b.ts", 100)] := by
    unfold ofMetrics
    rw [rest, one]
    simp only [Ranking.ranked, share]
    exact ⟨_, rfl, rfl⟩
  obtain ⟨kept, runKept, shown⟩ := runKept
  have all : (((Ranking.twoFiles).map Metric.path).dedup.length : Int) ≤ 2 := by decide
  have numbers : ∀ metric ∈ Ranking.twoFiles,
      (Ranking.fileTotal Ranking.twoFiles metric.path).isNaN = false := by decide +kernel
  exact ⟨glob, whole, kept, compiled, run, runKept, shown,
    Report.filtering_keeps_files run runKept all numbers⟩

end CheckCost
