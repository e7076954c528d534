import CheckCost.Proofs.Share
import CheckCost.Ranking

/-!
Sorting by falling duration. Doubles that are no numbers have no place in the order, so the laws are about
lists of numbers; exact numbers have no such exception.
-/
namespace CheckCost

/-- Durations with a place in the order of numbers, but for those that are none. Percentages follow that
order. -/
class OrderedDuration (D : Type) [Duration D] where
  IsNumber : D → Prop
  place : D → ℚ
  below_iff {x y : D} : IsNumber x → IsNumber y → (Duration.below x y = true ↔ place x < place y)
  share_mono {less more grand : D} {lower upper : Int} : place less ≤ place more →
    Duration.share less grand = .ok lower → Duration.share more grand = .ok upper → lower ≤ upper

instance : OrderedDuration Float where
  IsNumber x := x.isNaN = false
  place := Number.level
  below_iff := by
    intro x y numberX numberY
    rw [← Number.lt_iff_level numberX numberY]
    exact decide_eq_true_iff
  share_mono := Duration.floatShare_mono

namespace Ranking

open OrderedDuration

/-- A stable sort orders its members, and those that are tied as they were before. -/
theorem pairwise_mergeSort_stable {le : α → α → Bool} {before : α → α → Prop}
    (trans : ∀ a b c, le a b = true → le b c = true → le a c = true)
    (total : ∀ a b, (le a b || le b a) = true) {items : List α} (ordered : items.Pairwise before) :
    (items.mergeSort le).Pairwise fun a b => le a b = true ∧ (le b a = true → before a b) := by
  -- the first member is put before all that it is tied with, and the rest stays as it was sorted
  induction items with
  | nil => simp
  | cons first rest ih =>
    obtain ⟨front, back, eq, restEq, above⟩ := List.mergeSort_cons trans total first rest
    have falls := List.pairwise_mergeSort trans total (first :: rest)
    rw [eq, List.pairwise_append, List.pairwise_cons] at falls
    have sorted := ih (List.pairwise_cons.mp ordered).2
    rw [restEq, List.pairwise_append] at sorted
    rw [eq, List.pairwise_append, List.pairwise_cons]
    refine ⟨sorted.1, ⟨?_, sorted.2.1⟩, ?_⟩
    · intro later member
      have sorted : later ∈ rest.mergeSort le := by
        rw [restEq]
        exact List.mem_append_right front member
      have inside := List.mem_mergeSort.mp sorted
      exact ⟨falls.2.1.1 later member, fun _ => (List.pairwise_cons.mp ordered).1 later inside⟩
    · intro earlier member later place
      rcases List.mem_cons.mp place with rfl | behind
      · have strict := above earlier member
        refine ⟨falls.2.2 earlier member later (List.mem_cons_self ..), fun tie => ?_⟩
        rw [tie] at strict
        cases strict
      · exact sorted.2.2 earlier member later behind

variable {D : Type} [Duration D] [OrderedDuration D]

theorem byDuration_eq {duration : α → D} {items : List α}
    (numbers : ∀ a ∈ items, IsNumber (duration a)) :
    byDuration duration items =
      items.mergeSort fun a b => decide (place (duration b) ≤ place (duration a)) := by
  have same : ∀ a ∈ items, ∀ b ∈ items, (!Duration.below (duration a) (duration b)) =
      decide (place (duration b) ≤ place (duration a)) := by
    intro a memberA b memberB
    rw [Bool.eq_iff_iff, Bool.not_eq_true', ← Bool.not_eq_true,
      below_iff (numbers a memberA) (numbers b memberB), not_lt, decide_eq_true_iff]
  have mapped := List.map_mergeSort (f := id)
    (r := fun a b => !Duration.below (duration a) (duration b))
    (s := fun a b => decide (place (duration b) ≤ place (duration a))) same
  rw [List.map_id, List.map_id] at mapped
  exact mapped

omit [OrderedDuration D] in
theorem byDuration_perm (duration : α → D) (items : List α) : (byDuration duration items).Perm items :=
  List.mergeSort_perm _ _

/-- Durations fall, and where they do not the members stand as they did before. -/
theorem byDuration_pairwise {duration : α → D} {before : α → α → Prop} {items : List α}
    (numbers : ∀ a ∈ items, IsNumber (duration a)) (ordered : items.Pairwise before) :
    (byDuration duration items).Pairwise fun a b =>
      place (duration b) < place (duration a) ∨ place (duration b) = place (duration a) ∧ before a b := by
  rw [byDuration_eq numbers]
  have trans : ∀ a b c : α, decide (place (duration b) ≤ place (duration a)) = true →
      decide (place (duration c) ≤ place (duration b)) = true →
        decide (place (duration c) ≤ place (duration a)) = true := by
    intro a b c ab bc
    rw [decide_eq_true_iff] at ab bc ⊢
    exact bc.trans ab
  have total : ∀ a b : α, (decide (place (duration b) ≤ place (duration a)) ||
      decide (place (duration a) ≤ place (duration b))) = true := by
    intro a b
    rw [Bool.or_eq_true, decide_eq_true_iff, decide_eq_true_iff]
    exact le_total _ _
  refine (pairwise_mergeSort_stable trans total ordered).imp ?_
  intro a b lies
  simp only [decide_eq_true_iff] at lies
  rcases lies.1.lt_or_eq with less | tie
  · exact Or.inl less
  · exact Or.inr ⟨tie, lies.2 tie.ge⟩

end Ranking

end CheckCost
