import CheckCost.Proofs.Outcome
import CheckCost.Ranking

/-!
Numbering the groups of a report. There is a numbered group for each group, unless one of them has no
percentage.
-/
namespace CheckCost

open Outcome

variable {D : Type} [Duration D]

namespace Ranking

/-- What a numbered group says of a group, but for its rank. -/
structure Shows (grand : D) (itemLimit : Int) (group : String × List (Metric D)) (shown : RankedGroup D) :
    Prop where
  key : shown.key = group.1
  total : shown.total = Duration.toMillis (Ranking.total group.2)
  percentage : Duration.share (Ranking.total group.2) grand = .ok shown.percentage
  count : shown.count = group.2.length
  items : shown.items = Ranking.items itemLimit group.2

theorem ranked_ok {grand : D} {itemLimit : Int} {rank : Nat} {groups : List (String × List (Metric D))}
    {result : List (RankedGroup D)} (run : ranked grand itemLimit rank groups = .ok result) :
    List.Forall₂ (Shows grand itemLimit) groups result ∧
      result.map (·.rank) = List.range' rank groups.length := by
  induction groups generalizing rank result with
  | nil =>
    cases run
    exact ⟨.nil, rfl⟩
  | cons group rest ih =>
    obtain ⟨key, members⟩ := group
    obtain ⟨percentage, share, run⟩ := bind_ok_iff.mp run
    obtain ⟨later, more, eq⟩ := bind_ok_iff.mp run
    cases eq
    obtain ⟨shows, ranks⟩ := ih more
    refine ⟨.cons ⟨rfl, rfl, share, rfl, rfl⟩ shows, ?_⟩
    rw [List.map_cons, ranks]
    rfl

theorem ranked_succeeds_iff (grand : D) (itemLimit : Int) (rank : Nat)
    (groups : List (String × List (Metric D))) :
    (∃ result, ranked grand itemLimit rank groups = .ok result) ↔
      ∀ group ∈ groups, ∃ percentage, Duration.share (total group.2) grand = .ok percentage := by
  induction groups generalizing rank with
  | nil => exact iff_of_true ⟨[], rfl⟩ (fun _ member => by cases member)
  | cons group rest ih =>
    rw [List.forall_mem_cons, ← ih (rank + 1)]
    constructor
    · rintro ⟨result, run⟩
      obtain ⟨percentage, share, run⟩ := bind_ok_iff.mp run
      obtain ⟨later, more, _⟩ := bind_ok_iff.mp run
      exact ⟨⟨percentage, share⟩, later, more⟩
    · rintro ⟨⟨percentage, share⟩, later, more⟩
      exact ⟨_, bind_ok_iff.mpr ⟨percentage, share, bind_ok_iff.mpr ⟨later, more, rfl⟩⟩⟩

theorem keys_of_shows {grand : D} {itemLimit : Int} {groups : List (String × List (Metric D))}
    {result : List (RankedGroup D)} (shows : List.Forall₂ (Shows grand itemLimit) groups result) :
    result.map (·.key) = groups.map (·.1) := by
  induction shows with
  | nil => rfl
  | cons first rest ih => rw [List.map_cons, List.map_cons, first.key, ih]

theorem upTo_of_nonneg {limit : Int} (nonneg : 0 ≤ limit) (items : List α) :
    upTo limit items = items.take limit.toNat := by
  unfold upTo
  rw [if_neg (by omega)]

end Ranking

theorem Report.ofMetrics_ok {strategy : Strategy} {limits : Limits} {counts : Counts}
    {warnings : List String} {metrics : List (Metric D)} {report : Report D}
    (run : ofMetrics strategy limits counts warnings metrics = .ok report) :
    Ranking.ranked (Ranking.total metrics) limits.items 1 (Ranking.groups strategy limits.groups metrics) =
        .ok report.groups ∧
      report.grandTotal = Duration.toMillis (Ranking.total metrics) ∧
      report.filteredCount = metrics.length := by
  obtain ⟨groups, ranked, eq⟩ := bind_ok_iff.mp run
  cases eq
  exact ⟨ranked, rfl, rfl⟩

theorem Report.ofMetrics_returned_iff (strategy : Strategy) (limits : Limits) (counts : Counts)
    (warnings : List String) (metrics : List (Metric D)) :
    (∃ report, ofMetrics strategy limits counts warnings metrics = .ok report) ↔
      ∀ group ∈ Ranking.groups strategy limits.groups metrics, ∃ percentage,
        Duration.share (Ranking.total group.2) (Ranking.total metrics) = .ok percentage := by
  rw [← Ranking.ranked_succeeds_iff (Ranking.total metrics) limits.items 1]
  unfold ofMetrics
  rw [bind_succeeds_iff]
  constructor
  · intro returned
    obtain ⟨groups, run, _⟩ := returned
    exact ⟨groups, run⟩
  · intro numbered
    obtain ⟨groups, run⟩ := numbered
    exact ⟨groups, run, _, rfl⟩

end CheckCost
