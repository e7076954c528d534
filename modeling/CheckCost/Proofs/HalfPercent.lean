import CheckCost.Proofs.Number.Integers
import CheckCost.Proofs.Share

/-!
The percentage of whole microseconds, which should turn to the next integer at each half percent. Because the
quotient and the percentage are rounded before the half is added, it turns at the middle between two doubles next
to the half: for four of the halves after it, for all others before it.
-/
namespace CheckCost

namespace Number

/-! A number to either side of the middle between two doubles. -/

theorem le_nearestEven_of_middle_lt {x : ℚ} {n : ℤ} (above : n - 1 / 2 < x) : n ≤ nearestEven x := by
  by_contra low
  have next : (nearestEven x : ℚ) + 1 ≤ n := by exact_mod_cast not_le.mp low
  have gap := (abs_le.mp (isNearest_nearestEven x).gap_le).2
  linarith

theorem nearestEven_lt_of_lt_middle {x : ℚ} {n : ℤ} (below : x < n - 1 / 2) : nearestEven x < n := by
  by_contra high
  have more : (n : ℚ) ≤ nearestEven x := by exact_mod_cast not_lt.mp high
  have gap := (abs_le.mp (isNearest_nearestEven x).gap_le).1
  linarith

theorem le_rounded_of_middle_lt {m e : ℤ} (full : 2 ^ 52 < m) (few : m ≤ 2 ^ 53) (least : -1074 ≤ e) {x : ℚ}
    (above : (m - 1 / 2) * 2 ^ e < x) : m * 2 ^ e ≤ rounded x := by
  have unit : (0 : ℚ) < 2 ^ e := by positivity
  have bottom : ((2 ^ 52 : ℤ) : ℚ) + 1 ≤ m := by exact_mod_cast full
  have top : (m : ℚ) ≤ ((2 ^ 53 : ℤ) : ℚ) := by exact_mod_cast few
  rcases lt_or_ge x (2 ^ (53 + e)) with inside | outside
  · have large : 2 ^ (52 + e) ≤ x := by
      rw [gridBottom_eq]
      refine (mul_le_mul_of_nonneg_right ?_ unit.le).trans above.le
      push_cast at bottom ⊢
      linarith
    have pos : 0 < x := (by positivity : (0 : ℚ) < 2 ^ (52 + e)).trans_le large
    have grid : gridExponent x = e :=
      gridExponent_eq least (by rwa [abs_of_pos pos]) (Or.inr (by rwa [abs_of_pos pos])) pos.ne'
    have digits := le_nearestEven_of_middle_lt ((lt_div_iff₀ unit).mpr above)
    unfold rounded
    rw [grid]
    exact mul_le_mul_of_nonneg_right (by exact_mod_cast digits) unit.le
  · calc (m : ℚ) * 2 ^ e ≤ 2 ^ (53 + e) := by
          rw [gridTop_eq]
          exact mul_le_mul_of_nonneg_right top unit.le
      _ = rounded (2 ^ (53 + e)) := (rounded_two_pow (by omega)).symm
      _ ≤ rounded x := rounded_mono outside

theorem rounded_le_of_lt_middle {m e : ℤ} (full : 2 ^ 52 < m) (few : m ≤ 2 ^ 53) (least : -1074 ≤ e) {x : ℚ}
    (below : x < (m - 1 / 2) * 2 ^ e) : rounded x ≤ (m - 1) * 2 ^ e := by
  have unit : (0 : ℚ) < 2 ^ e := by positivity
  have bottom : ((2 ^ 52 : ℤ) : ℚ) + 1 ≤ m := by exact_mod_cast full
  have top : (m : ℚ) ≤ ((2 ^ 53 : ℤ) : ℚ) := by exact_mod_cast few
  rcases lt_or_ge x (2 ^ (52 + e)) with small | large
  · calc rounded x ≤ rounded (2 ^ (52 + e)) := rounded_mono small.le
      _ = 2 ^ (52 + e) := rounded_two_pow (by omega)
      _ ≤ (m - 1) * 2 ^ e := by
          rw [gridBottom_eq]
          exact mul_le_mul_of_nonneg_right (by linarith) unit.le
  · have pos : 0 < x := (by positivity : (0 : ℚ) < 2 ^ (52 + e)).trans_le large
    have inside : x < 2 ^ (53 + e) := by
      rw [gridTop_eq]
      refine below.trans_le (mul_le_mul_of_nonneg_right ?_ unit.le)
      push_cast at top ⊢
      linarith
    have grid : gridExponent x = e :=
      gridExponent_eq least (by rwa [abs_of_pos pos]) (Or.inr (by rwa [abs_of_pos pos])) pos.ne'
    have digits := nearestEven_lt_of_lt_middle ((div_lt_iff₀ unit).mpr below)
    unfold rounded
    rw [grid]
    have digits : (nearestEven (x / 2 ^ e) : ℚ) ≤ m - 1 := by exact_mod_cast Int.le_sub_one_of_lt digits
    exact mul_le_mul_of_nonneg_right digits unit.le

theorem value?_ofNat {n : ℕ} (few : n < 2 ^ 53) : value? (Float.ofNat n) = some (n : ℚ) := by
  have digits : IsRounded (n : ℚ) := by
    have := isRounded_int (n := n) (by rw [Nat.abs_cast]; exact_mod_cast few)
    exact_mod_cast this
  have size : |(n : ℚ)| < 2 ^ (1024 : ℤ) := by
    rw [Nat.abs_cast]
    calc (n : ℚ) < 2 ^ (53 : ℤ) := by exact_mod_cast few
      _ ≤ 2 ^ (1024 : ℤ) := zpow_le_zpow_right₀ (by norm_num) (by norm_num)
  rw [(isPacked_ofNat n).value, digits.rounded_eq, fit, if_pos size]

end Number

namespace Duration

open Number

/-- The percentage of a quotient of natural numbers with a half rounded up. -/
def halfUp (total grand : ℕ) : ℤ := (200 * total + grand) / (2 * grand)

/-- The quotient from which on there should be so many percent. -/
def half (k : ℤ) : ℚ := (2 * k - 1) / 200

/-- The place of the last digit of the doubles just below that quotient. -/
def halfExponent (k : ℤ) : ℤ := Int.clog 2 (half k) - 53

/-- The digits of the first double that gives so many percent: one next to the half. -/
def firstDigits (k : ℤ) : ℤ :=
  let digits := ⌈half k / 2 ^ halfExponent k⌉
  if k ≤ percentOf ((digits - 1) * 2 ^ halfExponent k) then digits - 1 else digits

/-- The middle between that double and the one before it. -/
def turn (k : ℤ) : ℚ := (firstDigits k - 1 / 2) * 2 ^ halfExponent k

/-- The halves after which the percentage turns. -/
def lateHalves : List ℤ := [15, 29, 57, 58]

/-- What is computed for each half. -/
structure Turns (k : ℤ) : Prop where
  full : 2 ^ 52 < firstDigits k
  few : firstDigits k ≤ 2 ^ 53
  places : -60 ≤ halfExponent k ∧ halfExponent k ≤ -53
  less : percentOf ((firstDigits k - 1) * 2 ^ halfExponent k) < k
  enough : k ≤ percentOf (firstDigits k * 2 ^ halfExponent k)
  near : |turn k - half k| < 1 / (200 * 2 ^ 45)
  late : half k ≤ turn k ↔ k ∈ lateHalves

theorem turns {k : ℤ} (low : 1 ≤ k) (high : k ≤ 100) : Turns k := by
  -- all hundred halves are looked at, since no rule tells which of them are late
  have computed : ∀ k ∈ Finset.Icc (1 : ℤ) 100,
      2 ^ 52 < firstDigits k ∧ firstDigits k ≤ 2 ^ 53 ∧ (-60 ≤ halfExponent k ∧ halfExponent k ≤ -53) ∧
        percentOf ((firstDigits k - 1) * 2 ^ halfExponent k) < k ∧
        k ≤ percentOf (firstDigits k * 2 ^ halfExponent k) ∧
        |turn k - half k| < 1 / (200 * 2 ^ 45) ∧ (half k ≤ turn k ↔ k ∈ lateHalves) := by
    decide +kernel
  obtain ⟨full, few, places, less, enough, near, late⟩ := computed k (Finset.mem_Icc.mpr ⟨low, high⟩)
  exact ⟨full, few, places, less, enough, near, late⟩

/-! The double of a quotient, which never lies at a turn. -/

theorem rounded_quotient_range {total grand : ℕ} (positive : 0 < grand) (part : total ≤ grand) :
    0 ≤ rounded (total / grand) ∧ rounded (total / grand) ≤ 1 := by
  have small : (total : ℚ) / grand ≤ 1 := (div_le_one (by exact_mod_cast positive)).mpr (by exact_mod_cast part)
  have one : rounded 1 = 1 := IsRounded.rounded_eq (by exact_mod_cast isRounded_int (n := 1) (by norm_num))
  have := rounded_mono small
  exact ⟨rounded_nonneg (by positivity), by rwa [one] at this⟩

theorem floatShare_ofNat {total grand : ℕ} (positive : 0 < grand) (part : total ≤ grand)
    (few : grand < 2 ^ 53) :
    floatShare (Float.ofNat total) (Float.ofNat grand) = .ok (percentOf (rounded (total / grand))) := by
  have pos : (0 : ℚ) < grand := by exact_mod_cast positive
  have whole := value?_ofNat few
  have small : (total : ℚ) / grand ≤ 1 := (div_le_one pos).mpr (by exact_mod_cast part)
  obtain ⟨nonneg, smallRounded⟩ := rounded_quotient_range positive part
  have bound : (100 : ℚ) < 2 ^ (1024 : ℤ) - 2 ^ (970 : ℤ) := by
    have tail : (2 : ℚ) ^ (7 : ℤ) ≤ 2 ^ (970 : ℤ) := zpow_le_zpow_right₀ (by norm_num) (by norm_num)
    have lead : 2 * (2 : ℚ) ^ (970 : ℤ) ≤ 2 ^ (1024 : ℤ) := by
      rw [← largestUnit_eq]
      exact zpow_le_zpow_right₀ (by norm_num) (by norm_num)
    calc (100 : ℚ) < 2 ^ (7 : ℤ) := by norm_num
      _ ≤ 2 ^ (970 : ℤ) := tail
      _ ≤ 2 ^ (1024 : ℤ) - 2 ^ (970 : ℤ) := by rwa [le_sub_iff_add_le, ← two_mul]
  refine floatShare_ok_iff.mpr (Or.inr ⟨?_, rounded (total / grand), ?_, ?_, rfl⟩)
  · rw [le_iff_level (isNaN_of_value? whole) (isNaN_of_value? value?_zero), level_eq whole, level_eq value?_zero]
    exact not_le.mpr pos
  · have measured := value?_ofNat (part.trans_lt few)
    refine quotient_value_iff.mpr ⟨total, measured, Or.inr ⟨grand, whole, pos.ne', ?_, rfl⟩⟩
    rw [abs_of_nonneg (by positivity : (0 : ℚ) ≤ total / grand)]
    exact lt_of_le_of_lt (by linarith only [small]) bound
  · rw [abs_of_nonneg (mul_nonneg nonneg (by norm_num))]
    exact lt_of_le_of_lt (by linarith only [smallRounded]) bound

theorem le_percentOf_iff {k : ℤ} (low : 1 ≤ k) (high : k ≤ 100) {x : ℚ} (apart : x ≠ turn k) :
    k ≤ percentOf (rounded x) ↔ turn k < x := by
  have turns := turns low high
  have least : -1074 ≤ halfExponent k := by
    have := turns.places
    omega
  rcases lt_or_gt_of_ne apart with before | after
  · refine iff_of_false (not_le.mpr ?_) before.not_gt
    exact (percentOf_mono (rounded_le_of_lt_middle turns.full turns.few least before)).trans_lt turns.less
  · refine iff_of_true ?_ after
    exact turns.enough.trans (percentOf_mono (le_rounded_of_middle_lt turns.full turns.few least after))

/-- A quotient that lies in the middle between two doubles has more digits in its denominator. -/
theorem quotient_ne_turn {k : ℤ} (low : 1 ≤ k) (high : k ≤ 100) {total grand : ℕ} (positive : 0 < grand)
    (few : grand < 2 ^ 53) : (total : ℚ) / grand ≠ turn k := by
  intro same
  have pos : (0 : ℚ) < grand := by exact_mod_cast positive
  obtain ⟨_, place⟩ := (turns low high).places
  obtain ⟨more, places⟩ := Int.le.dest place
  have unit : (2 : ℚ) ^ halfExponent k * 2 ^ (53 + more) = 1 := by
    rw [← zpow_natCast, ← zpow_add₀ (by norm_num)]
    exact (congrArg _ (by push_cast; omega)).trans (zpow_zero _)
  have scaled : ((2 * firstDigits k - 1 : ℤ) : ℚ) * grand = total * 2 ^ (54 + more) := by
    rw [div_eq_iff pos.ne'] at same
    rw [same, turn, show 54 + more = 53 + more + 1 by omega, pow_succ]
    push_cast
    linear_combination (-(2 * firstDigits k - 1) * (grand : ℚ)) * unit
  have divides : (2 : ℤ) ^ (54 + more) ∣ grand := by
    have odd : IsCoprime (2 : ℤ) (2 * firstDigits k - 1) := ⟨firstDigits k, -1, by ring⟩
    refine (odd.pow_left (m := 54 + more)).dvd_of_dvd_mul_left (Dvd.intro_left (total : ℤ) ?_)
    exact_mod_cast scaled.symm
  have large := Int.le_of_dvd (by exact_mod_cast positive) divides
  have steps : (2 : ℤ) ^ 54 ≤ 2 ^ (54 + more) := pow_le_pow_right₀ (by norm_num) (by omega)
  have : (grand : ℤ) < 2 ^ 53 := by exact_mod_cast few
  linarith

/-! The percentage that it should be. -/

theorem le_halfUp_iff {total grand : ℕ} (positive : 0 < grand) (k : ℤ) :
    k ≤ halfUp total grand ↔ half k ≤ total / grand := by
  have pos : (0 : ℚ) < grand := by exact_mod_cast positive
  unfold halfUp half
  rw [Int.le_ediv_iff_mul_le (by omega), le_div_iff₀ pos, div_mul_eq_mul_div, div_le_iff₀ (by norm_num)]
  constructor
  · intro le
    have : ((k * (2 * grand) : ℤ) : ℚ) ≤ ((200 * total + grand : ℤ) : ℚ) := by exact_mod_cast le
    push_cast at this
    linarith
  · intro le
    have : ((k * (2 * grand) : ℤ) : ℚ) ≤ ((200 * total + grand : ℤ) : ℚ) := by
      push_cast
      linarith
    exact_mod_cast this

theorem halfUp_range {total grand : ℕ} (positive : 0 < grand) (part : total ≤ grand) :
    0 ≤ halfUp total grand ∧ halfUp total grand ≤ 100 := by
  unfold halfUp
  constructor
  · positivity
  · rw [← Int.lt_add_one_iff, Int.ediv_lt_iff_lt_mul (by omega)]
    omega

theorem percentOf_range {x : ℚ} (nonneg : 0 ≤ x) (small : x ≤ 1) : 0 ≤ percentOf x ∧ percentOf x ≤ 100 := by
  have zero : percentOf 0 = 0 := by decide +kernel
  have one : percentOf 1 = 100 := by decide +kernel
  have low := percentOf_mono nonneg
  have high := percentOf_mono small
  omega

theorem eq_iff_of_range {a b : ℤ} (rangeA : 0 ≤ a ∧ a ≤ 100) (rangeB : 0 ≤ b ∧ b ≤ 100) :
    a = b ↔ ∀ k, 1 ≤ k → k ≤ 100 → (k ≤ a ↔ k ≤ b) := by
  constructor
  · rintro rfl k _ _
    exact Iff.rfl
  · intro same
    rcases lt_trichotomy a b with less | equal | more
    · have := (same b (by omega) rangeB.2).mpr le_rfl
      omega
    · exact equal
    · have := (same a (by omega) rangeA.2).mp le_rfl
      omega

/-! Turns lie so near to their halves that they stay apart from all other halves, and from all quotients of not
too large numbers but the half itself. -/

theorem half_succ (k : ℤ) : half (k + 1) = half k + 1 / 100 := by
  unfold half
  push_cast
  ring

theorem turn_lt_half_succ {k : ℤ} (low : 1 ≤ k) (high : k ≤ 100) : turn k < half (k + 1) := by
  have near := (abs_lt.mp (turns low high).near).2
  rw [half_succ]
  linarith

theorem half_lt_turn_succ {k : ℤ} (low : 0 ≤ k) (high : k < 100) : half k < turn (k + 1) := by
  have near := (abs_lt.mp (turns (by omega : 1 ≤ k + 1) (by omega)).near).1
  rw [half_succ] at near
  linarith

theorem quotient_eq_half_iff {total grand : ℕ} (positive : 0 < grand) (k : ℤ) :
    (total : ℚ) / grand = half k ↔ 200 * total = (2 * k - 1) * grand := by
  have pos : (grand : ℚ) ≠ 0 := by exact_mod_cast positive.ne'
  unfold half
  rw [div_eq_div_iff pos (by norm_num), mul_comm (total : ℚ)]
  exact_mod_cast Iff.rfl

theorem quotient_far_of_half {total grand : ℕ} (positive : 0 < grand) (moderate : grand ≤ 2 ^ 45) {k : ℤ}
    (other : 200 * total ≠ (2 * k - 1) * grand) : 1 / (200 * 2 ^ 45) ≤ |(total : ℚ) / grand - half k| := by
  have pos : (0 : ℚ) < grand := by exact_mod_cast positive
  have bound : (grand : ℚ) ≤ 2 ^ 45 := by exact_mod_cast moderate
  have whole : (1 : ℚ) ≤ |200 * (total : ℚ) - (2 * k - 1) * grand| := by
    exact_mod_cast Int.one_le_abs (sub_ne_zero.mpr other)
  have gap : (total : ℚ) / grand - half k = (200 * total - (2 * k - 1) * grand) / (200 * grand) := by
    unfold half
    field_simp
  rw [gap, abs_div, abs_of_pos (by positivity : (0 : ℚ) < 200 * grand)]
  exact div_le_div₀ (by positivity) whole (by positivity) (by linarith)

theorem turn_lt_iff_half_le {total grand : ℕ} (positive : 0 < grand) (moderate : grand ≤ 2 ^ 45) {k : ℤ}
    (low : 1 ≤ k) (high : k ≤ 100) (noTie : k ∈ lateHalves → 200 * total ≠ (2 * k - 1) * grand) :
    turn k < (total : ℚ) / grand ↔ half k ≤ total / grand := by
  have turns := turns low high
  by_cases same : (total : ℚ) / grand = half k
  · have early : k ∉ lateHalves := fun late => noTie late ((quotient_eq_half_iff positive k).mp same)
    rw [same]
    exact iff_of_true (not_le.mp (mt turns.late.mp early)) le_rfl
  · have far := quotient_far_of_half positive moderate (mt (quotient_eq_half_iff positive k).mpr same)
    have near := abs_lt.mp turns.near
    rcases le_abs.mp far with after | before
    · exact iff_of_true (by linarith) (by linarith)
    · exact iff_of_false (by linarith) (by linarith)

/-- The percentage of whole microseconds turns at the turns and not at the halves, and is one off at most. In
particular it is a half rounded up if the measured time is not too long, unless it is one of four halves. -/
theorem share_turns {total grand : ℕ} (positive : 0 < grand) (part : total ≤ grand) (few : grand < 2 ^ 53) :
    ∃ percentage, floatShare (Float.ofNat total) (Float.ofNat grand) = .ok percentage ∧
      (0 ≤ percentage ∧ percentage ≤ 100) ∧
      (∀ k, 1 ≤ k → k ≤ 100 → (k ≤ percentage ↔ turn k < (total : ℚ) / grand)) ∧
      (percentage = halfUp total grand ↔
        ∀ k, 1 ≤ k → k ≤ 100 → (turn k < (total : ℚ) / grand ↔ half k ≤ (total : ℚ) / grand)) ∧
      |percentage - halfUp total grand| ≤ 1 ∧
      (∀ k ∈ lateHalves, 200 * total = (2 * k - 1) * grand →
        halfUp total grand = k ∧ percentage = k - 1) ∧
      (grand ≤ 2 ^ 45 → (∀ k ∈ lateHalves, 200 * total ≠ (2 * k - 1) * grand) →
        percentage = halfUp total grand) := by
  refine ⟨percentOf (rounded (total / grand)), floatShare_ofNat positive part few, ?_⟩
  obtain ⟨nonneg, small⟩ := rounded_quotient_range positive part
  have range := percentOf_range nonneg small
  have should := halfUp_range positive part
  have atTurns : ∀ k, 1 ≤ k → k ≤ 100 →
      (k ≤ percentOf (rounded (total / grand)) ↔ turn k < (total : ℚ) / grand) :=
    fun k low high => le_percentOf_iff low high (quotient_ne_turn low high positive few)
  have atHalves : ∀ k, k ≤ halfUp total grand ↔ half k ≤ (total : ℚ) / grand := le_halfUp_iff positive
  generalize percentOf (rounded (total / grand)) = percentage at range atTurns ⊢
  have equal : percentage = halfUp total grand ↔
      ∀ k, 1 ≤ k → k ≤ 100 → (turn k < (total : ℚ) / grand ↔ half k ≤ (total : ℚ) / grand) := by
    rw [eq_iff_of_range range should]
    refine forall_congr' fun k => forall_congr' fun low => forall_congr' fun high => ?_
    rw [atTurns k low high, atHalves k]
  refine ⟨range, atTurns, equal, ?near, ?late, ?moderate⟩
  case near =>
    -- between two turns lies a half, and between two halves a turn
    refine abs_le.mpr ⟨?_, ?_⟩
    · by_contra far
      have measured := (atHalves (halfUp total grand)).mp le_rfl
      have before := turn_lt_half_succ (k := halfUp total grand - 1) (by omega) (by omega)
      rw [sub_add_cancel] at before
      have := (atTurns _ (by omega) (by omega)).mpr (before.trans_le measured)
      omega
    · by_contra far
      have measured := (atTurns percentage (by omega) (by omega)).mp le_rfl
      have before := half_lt_turn_succ (k := percentage - 1) (by omega) (by omega)
      rw [sub_add_cancel] at before
      have := (atHalves _).mpr (before.trans measured).le
      omega
  case late =>
    intro k late tie
    have bounds : ∀ k ∈ lateHalves, 2 ≤ k ∧ k ≤ 100 := by decide
    obtain ⟨low, high⟩ := bounds k late
    have measured := (quotient_eq_half_iff positive k).mpr tie
    have reached := (atHalves k).mpr measured.ge
    have missed : ¬ k + 1 ≤ halfUp total grand := by
      rw [atHalves, measured, half_succ]
      linarith
    have turned : ¬ k ≤ percentage := by
      rw [atTurns k (by omega) high, measured]
      exact not_lt.mpr ((turns (by omega) high).late.mpr late)
    have before := turn_lt_half_succ (k := k - 1) (by omega) (by omega)
    rw [sub_add_cancel, ← measured] at before
    have := (atTurns (k - 1) (by omega) (by omega)).mpr before
    exact ⟨by omega, by omega⟩
  case moderate =>
    intro moderate noTie
    exact equal.mpr fun k low high => turn_lt_iff_half_le positive moderate low high (noTie k)

/-- An eighth is no such half, and is rounded up. -/
theorem share_of_eighth : floatShare (Float.ofNat 1) (Float.ofNat 8) = .ok 13 := by
  obtain ⟨percentage, share, _, _, _, _, _, right⟩ :=
    share_turns (show 0 < 8 by decide) (show 1 ≤ 8 by decide) (show 8 < 2 ^ 53 by decide)
  rw [share, right (by decide) (by decide)]
  rfl

/-- The quotient 57 / 200 is a half, and is rounded down. -/
theorem share_of_late_half :
    floatShare (Float.ofNat 57) (Float.ofNat 200) = .ok 28 ∧ halfUp 57 200 = 29 ∧
      ¬ ∀ total grand : ℕ, 0 < grand → total ≤ grand → grand < 2 ^ 53 →
        floatShare (Float.ofNat total) (Float.ofNat grand) = .ok (halfUp total grand) := by
  have computed : percentOf (rounded ((57 : ℕ) / (200 : ℕ))) = 28 := by decide +kernel
  have share := floatShare_ofNat (show 0 < 200 by decide) (show 57 ≤ 200 by decide) (by decide)
  rw [computed] at share
  refine ⟨share, rfl, fun all => ?_⟩
  have up := all 57 200 (by decide) (by decide) (by decide)
  rw [share] at up
  exact absurd (Except.ok.inj up) (by decide)

end Duration

end CheckCost
