import CheckCost.Proofs.Json.Bare
import CheckCost.Proofs.Percentages
import CheckCost.Report.Document

/-!
When the numbers of a report are finite. An infinite or undefined duration of a metric always shows in the
grand total, and a group that overflows beside a positive grand total has no percentage, but nothing keeps a
report from being made if the grand total is not positive or no group is shown.
-/
namespace CheckCost

open Outcome Number

namespace Duration

/-- A sum of doubles is finite only if all of them are, and all sums on the way. -/
theorem isFinite_foldl {start : Float} {durations : List Float}
    (finite : (durations.foldl (· + ·) start).isFinite = true) :
    start.isFinite = true ∧ ∀ duration ∈ durations, duration.isFinite = true := by
  induction durations generalizing start with
  | nil => exact ⟨finite, List.forall_mem_nil _⟩
  | cons duration rest ih =>
    obtain ⟨sum, later⟩ := ih finite
    rw [isFinite_eq, Option.isSome_iff_exists] at sum
    obtain ⟨v, value⟩ := sum
    rw [value?_add] at value
    obtain ⟨p, q, valueStart, valueDuration, _⟩ := roundedWith_fit_iff.mp value
    rw [List.forall_mem_cons, isFinite_eq, isFinite_eq, valueStart, valueDuration]
    exact ⟨rfl, rfl, later⟩

theorem value?_thousand : value? 1000.0 = some 1000 := by decide +kernel

theorem toMillis_value {x : Float} {v : ℚ} (value : value? x = some v) :
    value? (toMillis x) = some (rounded (v / 1000)) := by
  refine quotient_value_iff.mpr ⟨v, value, Or.inr ⟨1000, value?_thousand, by norm_num, ?_, rfl⟩⟩
  have small := value?_lt value
  have top : (2 : ℚ) ^ (1024 : ℤ) = 2 ^ (54 : ℤ) * 2 ^ (970 : ℤ) := by
    rw [← zpow_add₀ (by norm_num)]
    rfl
  have unit : (0 : ℚ) < 2 ^ (970 : ℤ) := by positivity
  rw [abs_div, abs_of_pos (by norm_num : (0 : ℚ) < 1000)]
  rw [top] at small ⊢
  generalize (2 : ℚ) ^ (970 : ℤ) = u at small unit ⊢
  norm_num at small ⊢
  linarith

theorem isFinite_toMillis (x : Float) : (toMillis x : Float).isFinite = x.isFinite := by
  rw [isFinite_eq, isFinite_eq]
  cases value : value? x with
  | some v => rw [toMillis_value value]; rfl
  | none =>
    cases quotient : value? (toMillis x) with
    | none => rfl
    | some w =>
      obtain ⟨v, known, _⟩ := quotient_value_iff.mp quotient
      rw [value] at known
      cases known

/-- Milliseconds are positive only if the microseconds are. -/
theorem not_le_zero_of_toMillis {x : Float} (finite : x.isFinite = true) (positive : 0.0 < (toMillis x : Float)) :
    ¬ x ≤ 0.0 := by
  rw [isFinite_eq, Option.isSome_iff_exists] at finite
  obtain ⟨v, value⟩ := finite
  have millis := toMillis_value value
  rw [lt_iff_level (isNaN_of_value? value?_zero) (isNaN_of_value? millis), level_eq value?_zero,
    level_eq millis] at positive
  rw [le_iff_level (isNaN_of_value? value) (isNaN_of_value? value?_zero), level_eq value, level_eq value?_zero]
  intro none
  have below := rounded_mono (div_nonpos_of_nonpos_of_nonneg none (by norm_num : (0 : ℚ) ≤ 1000))
  rw [rounded_zero] at below
  exact absurd positive below.not_gt

/-- Far enough from the largest double: so many durations cannot overflow together. -/
def IsModerate (x : Float) : Prop := ∃ v, value? x = some v ∧ |v| ≤ 2 ^ (960 : ℤ)

theorem units_lt {n : ℕ} (few : n < 2 ^ 53) : (n : ℚ) * 2 ^ (960 : ℤ) < 2 ^ (1024 : ℤ) - 2 ^ (970 : ℤ) := by
  have top : (2 : ℚ) ^ (1024 : ℤ) = 2 ^ (64 : ℤ) * 2 ^ (960 : ℤ) := by
    rw [← zpow_add₀ (by norm_num)]
    rfl
  have gap : (2 : ℚ) ^ (970 : ℤ) = 2 ^ (10 : ℤ) * 2 ^ (960 : ℤ) := by
    rw [← zpow_add₀ (by norm_num)]
    rfl
  have unit : (0 : ℚ) < 2 ^ (960 : ℤ) := by positivity
  have count : (n : ℚ) < 2 ^ 53 := by exact_mod_cast few
  rw [top, gap, ← sub_mul]
  refine mul_lt_mul_of_pos_right (count.trans ?_) unit
  norm_num

theorem isRounded_units {n : ℕ} (few : n < 2 ^ 53) : IsRounded ((n : ℚ) * 2 ^ (960 : ℤ)) := by
  refine ⟨n, 960, ?_, by norm_num, by rw [Int.cast_natCast]⟩
  rw [Nat.abs_cast]
  exact_mod_cast few

theorem isFinite_foldl_of_moderate {start : Float} {durations : List Float} {n : ℕ} {p : ℚ}
    (value : value? start = some p) (size : |p| ≤ n * 2 ^ (960 : ℤ)) (few : n + durations.length < 2 ^ 53)
    (moderate : ∀ duration ∈ durations, IsModerate duration) :
    (durations.foldl (· + ·) start).isFinite = true := by
  induction durations generalizing start n p with
  | nil =>
    rw [List.foldl_nil, isFinite_eq, value]
    rfl
  | cons duration rest ih =>
    rw [List.forall_mem_cons] at moderate
    obtain ⟨q, valueDuration, sizeDuration⟩ := moderate.1
    rw [List.length_cons] at few
    have count : n + 1 < 2 ^ 53 := by omega
    have more : |p + q| ≤ (n + 1 : ℕ) * 2 ^ (960 : ℤ) := by
      rw [Nat.cast_add_one, add_one_mul]
      exact (abs_add_le p q).trans (add_le_add size sizeDuration)
    have sum : value? (start + duration) = some (rounded (p + q)) := by
      rw [value?_add]
      exact roundedWith_fit_iff.mpr ⟨p, q, value, valueDuration, more.trans_lt (units_lt count), rfl⟩
    have later : n + 1 + rest.length < 2 ^ 53 := by omega
    refine ih sum ?_ later moderate.2
    rw [← rounded_abs]
    exact (rounded_mono more).trans_eq (isRounded_units count).rounded_eq

/-- A group has a percentage of a positive grand total only if it did not overflow. -/
theorem isFinite_of_share {total grand : Float} {percentage : Int} (positive : ¬ grand ≤ 0.0)
    (share : floatShare total grand = .ok percentage) : total.isFinite = true := by
  rcases floatShare_succeeds_iff.mp ⟨percentage, share⟩ with none | ⟨t, value, _⟩
  · exact absurd none positive
  · rw [isFinite_eq, value]
    rfl

end Duration

namespace Ranking

theorem isFinite_of_total {metrics : List (Metric Float)} (finite : (total metrics).isFinite = true) :
    ∀ metric ∈ metrics, metric.duration.isFinite = true := by
  obtain ⟨_, durations⟩ := Duration.isFinite_foldl finite
  intro metric member
  exact durations metric.duration (List.mem_map_of_mem member)

theorem isFinite_total_of_moderate {metrics : List (Metric Float)} (few : metrics.length < 2 ^ 53)
    (moderate : ∀ metric ∈ metrics, Duration.IsModerate metric.duration) :
    (total metrics).isFinite = true := by
  refine Duration.isFinite_foldl_of_moderate (n := 0) value?_zero (by simp) (by simpa using few) ?_
  intro duration member
  obtain ⟨metric, inside, rfl⟩ := List.mem_map.mp member
  exact moderate metric inside

theorem exists_of_mem_items {D : Type} [Duration D] {limit : Int} {metrics : List (Metric D)}
    {shown : RankedItem D} (member : shown ∈ items limit metrics) : ∃ metric ∈ metrics, item metric = shown := by
  obtain ⟨metric, listed, same⟩ := List.mem_map.mp member
  exact ⟨metric, List.mem_mergeSort.mp (mem_upTo listed), same⟩

end Ranking

namespace Report

structure IsFinite (report : Report Float) : Prop where
  grandTotal : report.grandTotal.isFinite = true
  totals : ∀ group ∈ report.groups, group.total.isFinite = true
  items : ∀ group ∈ report.groups, ∀ item ∈ group.items, item.duration.isFinite = true

/-- Of a report that was made only the totals need to be looked at, and those of groups only if the grand total
is not positive. -/
theorem isFinite_of_ofMetrics {strategy : Strategy} {limits : Limits} {counts : Counts}
    {warnings : List String} {metrics : List (Metric Float)} {report : Report Float}
    (run : ofMetrics strategy limits counts warnings metrics = .ok report) :
    report.IsFinite ↔ report.grandTotal.isFinite = true ∧
      (0.0 < report.grandTotal ∨ ∀ group ∈ report.groups, group.total.isFinite = true) := by
  obtain ⟨ranked, grandTotal, _⟩ := ofMetrics_ok run
  obtain ⟨shows, _⟩ := Ranking.ranked_ok ranked
  constructor
  · intro finite
    exact ⟨finite.grandTotal, Or.inr finite.totals⟩
  · rintro ⟨grand, rest⟩
    have whole : (Ranking.total metrics).isFinite = true := by
      rwa [grandTotal, Duration.isFinite_toMillis] at grand
    refine ⟨grand, ?_, ?_⟩
    · rcases rest with positive | totals
      · intro group member
        obtain ⟨source, _, showsGroup⟩ := related_of_mem shows member
        rw [grandTotal] at positive
        rw [showsGroup.total, Duration.isFinite_toMillis]
        exact Duration.isFinite_of_share (Duration.not_le_zero_of_toMillis whole positive)
          showsGroup.percentage
      · exact totals
    · intro group member item listed
      obtain ⟨source, inside, showsGroup⟩ := related_of_mem shows member
      rw [showsGroup.items] at listed
      obtain ⟨metric, found, rfl⟩ := Ranking.exists_of_mem_items listed
      have kept := (Ranking.groups_sublist inside).subset found
      exact (Duration.isFinite_toMillis _).trans (Ranking.isFinite_of_total whole metric kept)

end Report

namespace Json

theorem itemsFinite_eq (items : List Json) : itemsFinite items = items.all isFinite := by
  induction items with
  | nil => rfl
  | cons item rest ih => rw [itemsFinite, List.all_cons, ih]

end Json

namespace Report

theorem isFinite_document (report : Report Float) : report.document.isFinite = true ↔ report.IsFinite := by
  have item (shown : RankedItem Float) : shown.document.isFinite = shown.duration.isFinite := by
    simp [RankedItem.document, Json.isFinite, Json.fieldsFinite]
  have group (shown : RankedGroup Float) : shown.document.isFinite =
      (shown.total.isFinite && shown.items.all (·.duration.isFinite)) := by
    simp [RankedGroup.document, Json.isFinite, Json.fieldsFinite, Json.itemsFinite_eq, List.all_map,
      Function.comp_def, item]
  have texts : report.warnings.all (fun _ => true) = true := List.all_eq_true.mpr fun _ _ => rfl
  have whole : report.document.isFinite = (report.grandTotal.isFinite &&
      report.groups.all fun shown => shown.total.isFinite && shown.items.all (·.duration.isFinite)) := by
    simp only [document, Json.isFinite, Json.fieldsFinite, Json.itemsFinite_eq, List.all_map,
      Function.comp_def, group, texts, Bool.and_true, Bool.true_and]
  rw [whole]
  simp only [Bool.and_eq_true, List.all_eq_true]
  constructor
  · rintro ⟨grandTotal, groups⟩
    exact ⟨grandTotal, fun shown member => (groups shown member).1, fun shown member => (groups shown member).2⟩
  · intro finite
    exact ⟨finite.grandTotal, fun shown member => ⟨finite.totals shown member, finite.items shown member⟩⟩

/-- A report on fewer than 2 ^ 53 metrics none of which took long enough. -/
theorem isFinite_of_moderate {strategy : Strategy} {limits : Limits} {counts : Counts}
    {warnings : List String} {metrics : List (Metric Float)} {report : Report Float}
    (run : ofMetrics strategy limits counts warnings metrics = .ok report) (few : metrics.length < 2 ^ 53)
    (moderate : ∀ metric ∈ metrics, Duration.IsModerate metric.duration) : report.IsFinite := by
  obtain ⟨ranked, grandTotal, _⟩ := ofMetrics_ok run
  obtain ⟨shows, _⟩ := Ranking.ranked_ok ranked
  refine (isFinite_of_ofMetrics run).mpr ⟨?_, Or.inr ?_⟩
  · rw [grandTotal, Duration.isFinite_toMillis]
    exact Ranking.isFinite_total_of_moderate few moderate
  · intro group member
    obtain ⟨source, inside, showsGroup⟩ := related_of_mem shows member
    have part := Ranking.groups_sublist inside
    rw [showsGroup.total, Duration.isFinite_toMillis]
    refine Ranking.isFinite_total_of_moderate (part.length_le.trans_lt few) ?_
    intro metric found
    exact moderate metric (part.subset found)

/-- The numbers of a returned report are finite exactly if the grand total is and either it is positive or the
totals of the groups are finite too; durations of up to 2 ^ 960 see to both. Then, and only then, the JSON text
has none of the words that are no JSON outside of its literals. -/
theorem finite_iff {settings : Settings} {inputs : Inputs} {report : Report Float}
    (run : ofInputs settings inputs = .ok report) :
    (report.IsFinite ↔ report.grandTotal.isFinite = true ∧
      (0.0 < report.grandTotal ∨ ∀ group ∈ report.groups, group.total.isFinite = true)) ∧
    (report.IsFinite ↔ ∀ word ∈ Json.foreignWords, ¬ word.toList <:+: Json.bare report.printed) ∧
    (report.filteredCount < 2 ^ 53 →
      (∀ fields, .obj fields ∈ inputs.trace → ∀ duration : Float,
        Duration.ofJson (Json.field fields "dur") = .ok duration → Duration.IsModerate duration) →
      report.IsFinite) := by
  obtain ⟨metrics, glob, found, _, assembled⟩ := ofInputs_ok_iff.mp run
  refine ⟨isFinite_of_ofMetrics assembled, ?_, ?_⟩
  · rw [← isFinite_document]
    exact Json.isFinite_iff_bare report.document
  · intro few moderate
    obtain ⟨_, _, filteredCount⟩ := ofMetrics_ok assembled
    rw [filteredCount] at few
    refine isFinite_of_moderate assembled few ?_
    intro metric kept
    obtain ⟨fields, row, duration⟩ := Inputs.duration_of_metric found (List.mem_filter.mp kept).1
    exact moderate fields row metric.duration duration

end Report

theorem Report.finite_of_shared_rows :
    ∃ report : Report Float, ofInputs .bySymbols .shared = .ok report ∧
      report.grandTotal.isFinite = true ∧ 0.0 < report.grandTotal ∧ report.IsFinite ∧
        ∀ word ∈ Json.foreignWords, ¬ word.toList <:+: Json.bare report.printed := by
  have shown : ((ofInputs .bySymbols .shared).toOption.map fun report : Report Float =>
      (report.grandTotal.isFinite, decide (0.0 < report.grandTotal))) = some (true, true) := by
    decide +kernel
  obtain ⟨report, run, shown⟩ := ok_of_toOption shown
  obtain ⟨grand, positive⟩ := Prod.mk.inj shown
  obtain ⟨totals, words, _⟩ := Report.finite_iff run
  have finite := totals.mpr ⟨grand, Or.inl (of_decide_eq_true positive)⟩
  exact ⟨report, run, grand, of_decide_eq_true positive, finite, words.mp finite⟩

/-- A check of an infinite negative duration. -/
def Inputs.bottomless : Inputs where
  trace :=
    [.obj [("cat", .str "check"), ("name", .str "structuredTypeRelatedTo"), ("dur", .float (-1.0 / 0.0)),
      ("args", .obj [("sourceId", .int 1)])]]
  types :=
    [.obj [("id", .int 1), ("symbolName", .str "A"), ("firstDeclaration", .obj [("path", .str "/src/a.ts")])]]
  warnings := []

/-- An infinite negative duration goes through to the report, since no percentage is taken of a grand total
that is not positive. -/
theorem Report.infinite_of_negative_infinity :
    ∃ report : Report Float, ofInputs .bySymbols .bottomless = .ok report ∧
      report.groups.map (fun group => (group.key, group.total.isFinite, group.percentage)) =
        [("source", false, 0), ("dependencies", true, 0)] ∧
      ¬ report.IsFinite ∧ ∃ word ∈ Json.foreignWords, word.toList <:+: Json.bare report.printed := by
  have shown : ((ofInputs .bySymbols .bottomless).toOption.map fun report : Report Float =>
      report.groups.map fun group => (group.key, group.total.isFinite, group.percentage)) =
        some [("source", false, 0), ("dependencies", true, 0)] := by decide +kernel
  obtain ⟨report, run, shown⟩ := ok_of_toOption shown
  have infinite : ¬ report.IsFinite := by
    intro finite
    have member : ("source", false, (0 : Int)) ∈
        report.groups.map fun group => (group.key, group.total.isFinite, group.percentage) := by
      rw [shown]
      exact List.mem_cons_self ..
    obtain ⟨group, inside, same⟩ := List.mem_map.mp member
    have total : group.total.isFinite = false := congrArg (fun entry => entry.2.1) same
    rw [finite.totals group inside] at total
    cases total
  refine ⟨report, run, shown, infinite, ?_⟩
  by_contra none
  push Not at none
  exact infinite ((isFinite_document report).mp ((Json.isFinite_iff_bare report.document).mpr none))

end CheckCost
