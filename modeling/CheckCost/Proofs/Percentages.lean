import CheckCost.Proofs.Correlation
import CheckCost.Proofs.ExactDuration
import CheckCost.Proofs.Grouping
import CheckCost.Proofs.Numbering
import Mathlib.Algebra.Order.BigOperators.Group.List

/-!
When percentages are percentages. A total between zero and the grand total has one from 0 to 100, but a
trace may hold negative durations, and then nothing keeps a total there.
-/
namespace CheckCost

open Outcome

namespace Ranking

variable {D : Type}

theorem mem_upTo {limit : Int} {items : List α} {a : α} (member : a ∈ upTo limit items) : a ∈ items := by
  unfold upTo at member
  split at member
  · exact List.mem_of_mem_take member
  · exact List.mem_of_mem_take member

theorem mem_byFile_of_mem [Duration D] {limit : Int} {metrics : List (Metric D)}
    {group : String × List (Metric D)} (member : group ∈ groups .files limit metrics) :
    group ∈ byFile metrics := by
  have sorted := mem_upTo member
  unfold byTotal byDuration at sorted
  rwa [List.mem_mergeSort, List.mem_mergeSort] at sorted

/-- A group of either strategy holds some of the metrics, in their order. -/
theorem groups_sublist [Duration D] {strategy : Strategy} {limit : Int} {metrics : List (Metric D)}
    {group : String × List (Metric D)} (member : group ∈ groups strategy limit metrics) :
    group.2.Sublist metrics := by
  cases strategy with
  | files =>
    rw [(isGrouping_byFile metrics).members group (mem_byFile_of_mem member)]
    exact List.filter_sublist
  | symbols =>
    have origin : group ∈ byOrigin metrics := member
    simp only [byOrigin, List.mem_cons, List.not_mem_nil, or_false] at origin
    rcases origin with rfl | rfl
    · exact List.filter_sublist
    · exact List.filter_sublist

theorem total_eq_sum (metrics : List (Metric ℚ)) : total metrics = (metrics.map Metric.duration).sum :=
  List.sum_eq_foldl.symm

theorem total_range {members metrics : List (Metric ℚ)} (some : members.Sublist metrics)
    (nonneg : ∀ metric ∈ metrics, 0 ≤ metric.duration) : 0 ≤ total members ∧ total members ≤ total metrics := by
  rw [total_eq_sum, total_eq_sum]
  have durations : ∀ d ∈ metrics.map Metric.duration, 0 ≤ d := by
    intro d member
    obtain ⟨metric, inside, rfl⟩ := List.mem_map.mp member
    exact nonneg metric inside
  have sublist := some.map Metric.duration
  constructor
  · exact List.sum_nonneg fun d member => durations d (sublist.subset member)
  · exact sublist.sum_le_sum durations

end Ranking

/-- Every metric has the duration of some row of the trace. -/
theorem Inputs.duration_of_metric {D : Type} [Duration D] {kinds : CheckKinds} {marker : String}
    {inputs : Inputs} {metrics : List (Metric D)} (run : inputs.metrics kinds marker = .ok metrics)
    {metric : Metric D} (member : metric ∈ metrics) :
    ∃ fields, .obj fields ∈ inputs.trace ∧
      Duration.ofJson (Json.field fields "dur") = .ok metric.duration := by
  classical
  obtain ⟨trace, catalog, index, readTrace, readCatalog, built, rfl⟩ := metrics_ok_iff.mp run
  have related := Catalog.Reads.metrics marker (Trace.reads_of_ofRows readTrace) built
    (Catalog.reads_of_ofRows readCatalog)
  obtain ⟨_, _, _, _, checked, _, joins⟩ := related_of_mem related member
  obtain ⟨before, after, rows, _⟩ := joins.check.last
  exact ⟨checked, by simp [rows], joins.duration⟩

/-- A percentage is in its range exactly if the total is close enough to that of the grand total. The unit
of the totals does not matter. -/
theorem Ranking.Shows.percentage_range {grand : ℚ} {itemLimit : Int} {group : String × List (Metric ℚ)}
    {shown : RankedGroup ℚ} (shows : Shows grand itemLimit group shown) :
    0 ≤ shown.percentage ∧ shown.percentage ≤ 100 ↔
      (0 < Duration.toMillis grand →
        -3 * Duration.toMillis grand < 200 * shown.total ∧
          200 * shown.total < 201 * Duration.toMillis grand) := by
  have share : Duration.exactShare (Ranking.total group.2) grand = shown.percentage := Except.ok.inj shows.percentage
  have millis (x : ℚ) : Duration.toMillis x = x / 1000 := rfl
  rw [← share, shows.total, millis, millis]
  by_cases positive : 0 < grand
  · rw [Duration.exactShare_range positive]
    constructor
    · rintro ⟨low, high⟩ _
      constructor <;> linarith
    · intro inside
      obtain ⟨low, high⟩ := inside (by linarith)
      constructor <;> linarith
  · have none : Duration.exactShare (Ranking.total group.2) grand = 0 := if_pos (not_lt.mp positive)
    rw [none]
    constructor
    · intro _ more
      exact absurd (by linarith) positive
    · intro _
      exact ⟨le_rfl, by norm_num⟩

theorem Ranking.Shows.percentage_of_nonneg {itemLimit : Int} {group : String × List (Metric ℚ)}
    {shown : RankedGroup ℚ} {metrics : List (Metric ℚ)} (shows : Shows (Ranking.total metrics) itemLimit group shown)
    (some : group.2.Sublist metrics) (nonneg : ∀ metric ∈ metrics, 0 ≤ metric.duration) :
    0 ≤ shown.percentage ∧ shown.percentage ≤ 100 := by
  obtain ⟨low, high⟩ := total_range some nonneg
  have millis (x : ℚ) : Duration.toMillis x = x / 1000 := rfl
  rw [shows.percentage_range, shows.total, millis, millis]
  intro positive
  constructor <;> linarith

/-- All groups of a report have their percentages from 0 to 100 if no measured duration is negative, and
otherwise exactly if their totals are close enough to that range of the grand total. -/
theorem Report.percentages_in_range {settings : Settings} {inputs : Inputs} {report : Report ℚ}
    (run : ofInputs settings inputs = .ok report) :
    ((∀ group ∈ report.groups, 0 ≤ group.percentage ∧ group.percentage ≤ 100) ↔
      ∀ group ∈ report.groups, 0 < report.grandTotal →
        -3 * report.grandTotal < 200 * group.total ∧ 200 * group.total < 201 * report.grandTotal) ∧
      ((∀ fields, .obj fields ∈ inputs.trace →
          ∀ duration : ℚ, Duration.ofJson (Json.field fields "dur") = .ok duration → 0 ≤ duration) →
        ∀ group ∈ report.groups, 0 ≤ group.percentage ∧ group.percentage ≤ 100) := by
  obtain ⟨metrics, glob, found, _, assembled⟩ := ofInputs_ok_iff.mp run
  obtain ⟨ranked, grandTotal, _⟩ := ofMetrics_ok assembled
  obtain ⟨shows, _⟩ := Ranking.ranked_ok ranked
  constructor
  · rw [grandTotal]
    constructor
    · intro inRange group member
      obtain ⟨source, _, showsGroup⟩ := related_of_mem shows member
      exact showsGroup.percentage_range.mp (inRange group member)
    · intro close group member
      obtain ⟨source, _, showsGroup⟩ := related_of_mem shows member
      exact showsGroup.percentage_range.mpr (close group member)
  · intro nonneg group member
    obtain ⟨source, inside, showsGroup⟩ := related_of_mem shows member
    refine showsGroup.percentage_of_nonneg (Ranking.groups_sublist inside) ?_
    intro metric kept
    have filtered : metric ∈ metrics := (List.mem_filter.mp kept).1
    obtain ⟨fields, row, duration⟩ := Inputs.duration_of_metric found filtered
    exact nonneg fields row metric.duration duration

/-- A check of one type with a negative duration beside one of another type. -/
def Inputs.negative : Inputs where
  trace :=
    [.obj [("cat", .str "check"), ("name", .str "structuredTypeRelatedTo"), ("dur", .int (-1)),
        ("args", .obj [("sourceId", .int 1)])],
      .obj [("cat", .str "check"), ("name", .str "structuredTypeRelatedTo"), ("dur", .int 2),
        ("args", .obj [("sourceId", .int 2)])]]
  types :=
    [.obj [("id", .int 1), ("symbolName", .str "A"),
        ("firstDeclaration", .obj [("path", .str "/src/a.ts")])],
      .obj [("id", .int 2), ("symbolName", .str "B"),
        ("firstDeclaration", .obj [("path", .str "/node_modules/b.ts")])]]
  warnings := []

/-- A negative duration takes the percentages out of their range: it makes the grand total less than the
total of the other group. -/
theorem Report.percentages_of_negative_duration :
    ∃ report : Report Float, ofInputs .bySymbols .negative = .ok report ∧
      report.groups.map (fun group => (group.key, group.percentage)) =
        [("source", -99), ("dependencies", 200)] ∧
      ¬ ∀ group ∈ report.groups, 0 ≤ group.percentage ∧ group.percentage ≤ 100 := by
  have shown : ((ofInputs .bySymbols .negative).toOption.map fun report : Report Float =>
      report.groups.map fun group => (group.key, group.percentage)) =
        some [("source", -99), ("dependencies", 200)] := by decide +kernel
  obtain ⟨report, run, shown⟩ := ok_of_toOption shown
  refine ⟨report, run, shown, ?_⟩
  intro inRange
  have member : ("source", (-99 : Int)) ∈ report.groups.map fun group => (group.key, group.percentage) := by
    rw [shown]
    exact List.mem_cons_self ..
  obtain ⟨group, inside, same⟩ := List.mem_map.mp member
  have low := (inRange group inside).1
  have percentage : group.percentage = -99 := congrArg Prod.snd same
  omega

theorem Report.percentages_of_shared_rows :
    ∃ report : Report ℚ, ofInputs .bySymbols .shared = .ok report ∧
      report.groups.map (fun group => (group.key, group.percentage)) =
        [("source", 100), ("dependencies", 0)] ∧
      ((∀ group ∈ report.groups, 0 ≤ group.percentage ∧ group.percentage ≤ 100) ↔
        ∀ group ∈ report.groups, 0 < report.grandTotal →
          -3 * report.grandTotal < 200 * group.total ∧
            200 * group.total < 201 * report.grandTotal) ∧
        ((∀ fields, .obj fields ∈ Inputs.shared.trace →
            ∀ duration : ℚ, Duration.ofJson (Json.field fields "dur") = .ok duration → 0 ≤ duration) →
          ∀ group ∈ report.groups, 0 ≤ group.percentage ∧ group.percentage ≤ 100) := by
  have shown : ((ofInputs .bySymbols .shared).toOption.map fun report : Report ℚ =>
      report.groups.map fun group => (group.key, group.percentage)) =
        some [("source", 100), ("dependencies", 0)] := by decide +kernel
  obtain ⟨report, run, shown⟩ := ok_of_toOption shown
  exact ⟨report, run, shown, Report.percentages_in_range run⟩

end CheckCost
