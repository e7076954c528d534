import CheckCost.Duration
import CheckCost.Proofs.Number.Order
import CheckCost.Proofs.Outcome

/-!
The percentage that a total of doubles is of a grand total: three roundings and a truncation of the exact
percentage, all of which keep the order of the totals. There is none if a number on the way is not finite.
-/
namespace CheckCost

namespace Number

/-- The integer next to a number in the direction of zero. -/
def towardZero (x : ℚ) : ℤ := if x < 0 then -⌊-x⌋ else ⌊x⌋

theorem towardZero_mono {x y : ℚ} (le : x ≤ y) : towardZero x ≤ towardZero y := by
  unfold towardZero
  split
  · split
    · have := Int.floor_mono (neg_le_neg le)
      omega
    · have low : 0 ≤ ⌊-x⌋ := Int.floor_nonneg.mpr (by linarith)
      have high : 0 ≤ ⌊y⌋ := Int.floor_nonneg.mpr (by linarith)
      omega
  · rw [if_neg (by linarith)]
    exact Int.floor_mono le

/-- What is truncated to zero may have been negative. -/
theorem towardZero_range {x : ℚ} : 0 ≤ towardZero x ∧ towardZero x ≤ 100 ↔ -1 < x ∧ x < 101 := by
  unfold towardZero
  split
  · rename_i negative
    have low : 0 ≤ -⌊-x⌋ ↔ -1 < x := by
      rw [Int.floor_neg, neg_neg, Int.le_ceil_iff]
      norm_num
    have high : 0 ≤ ⌊-x⌋ := Int.floor_nonneg.mpr (by linarith)
    rw [low]
    constructor
    · rintro ⟨above, _⟩
      exact ⟨above, by linarith⟩
    · rintro ⟨above, _⟩
      exact ⟨above, by omega⟩
  · rename_i nonneg
    have low : 0 ≤ ⌊x⌋ := Int.floor_nonneg.mpr (not_lt.mp nonneg)
    have high : ⌊x⌋ ≤ 100 ↔ x < 101 := by
      rw [← Int.lt_add_one_iff, Int.floor_lt]
      norm_num
    rw [high]
    constructor
    · rintro ⟨_, below⟩
      exact ⟨by linarith, below⟩
    · rintro ⟨_, below⟩
      exact ⟨low, below⟩

theorem Binary.floor_eq (x : Binary) : (x.floor : ℤ) = ⌊(x.m : ℚ) * 2 ^ x.q⌋ := by
  have ratio : (x.m : ℚ) * 2 ^ x.q = (x.ratio.1 : ℕ) / (x.ratio.2 : ℕ) := by
    simp only [Binary.ratio, Nat.pow_eq]
    push_cast
    rw [mul_div_assoc, ← zpow_natCast, ← zpow_natCast, ← zpow_sub₀ (by norm_num)]
    congr 2
    omega
  rw [ratio, Rat.floor_natCast_div_natCast]
  rfl

/-- Only a finite double has an integer, and that is its number truncated. -/
theorem truncate_ok_iff {x : Float} {n : ℤ} :
    truncate x = .ok n ↔ ∃ v, value? x = some v ∧ towardZero v = n := by
  unfold truncate value?
  cases Double.ofFloat x with
  | infinite negative => simp [Double.value?]
  | undefined => simp [Double.value?]
  | finite negative magnitude =>
    have nonneg : (0 : ℚ) ≤ magnitude.m * 2 ^ magnitude.q := by positivity
    have whole : towardZero ((if negative then -1 else 1) * (magnitude.m * 2 ^ magnitude.q)) =
        signed negative magnitude.floor := by
      unfold signed towardZero
      rw [Binary.floor_eq]
      cases negative with
      | false => simp [not_lt.mpr nonneg]
      | true =>
        rcases nonneg.eq_or_lt with zero | pos
        · simp [← zero]
        · simp [pos]
    simp only [Double.value?, Except.ok.injEq, Option.some.injEq, exists_eq_left', whole]

theorem truncate_succeeds_iff (x : Float) :
    (∃ n, truncate x = .ok n) ↔ (value? x).isSome = true := by
  rw [Option.isSome_iff_exists]
  constructor
  · rintro ⟨n, whole⟩
    obtain ⟨v, value, _⟩ := truncate_ok_iff.mp whole
    exact ⟨v, value⟩
  · rintro ⟨v, value⟩
    exact ⟨_, truncate_ok_iff.mpr ⟨v, value, rfl⟩⟩

theorem value?_zero : value? 0.0 = some 0 := by decide +kernel

theorem value?_half : value? 0.5 = some (1 / 2) := by decide +kernel

theorem value?_hundred : value? 100.0 = some 100 := by decide +kernel

/-- A result of rounding is finite if its operands are and it stays below the middle between the largest
double and the next power of two. -/
theorem roundedWith_fit_iff {operation : ℚ → ℚ → ℚ} {first second : Option ℚ} {result : ℚ} :
    (roundedWith operation first second).bind fit = some result ↔
      ∃ p q, first = some p ∧ second = some q ∧
        |operation p q| < 2 ^ (1024 : ℤ) - 2 ^ (970 : ℤ) ∧ result = rounded (operation p q) := by
  cases first with
  | none => simp [roundedWith]
  | some p =>
    cases second with
    | none => simp [roundedWith]
    | some q =>
      simp only [roundedWith, fit, Option.bind_some, Option.map_some, Option.ite_none_right_eq_some,
        Option.some.injEq, exists_and_left, exists_eq_left', abs_rounded_lt_iff]
      rw [eq_comm (a := result)]

end Number

namespace Duration

open Number

theorem quotient_value_iff {total grand : Float} {x : ℚ} :
    value? (total / grand) = some x ↔ ∃ t, value? total = some t ∧
      (grand.isInf = true ∧ x = 0 ∨ ∃ g, value? grand = some g ∧ g ≠ 0 ∧
        |t / g| < 2 ^ (1024 : ℤ) - 2 ^ (970 : ℤ) ∧ x = rounded (t / g)) := by
  rw [value?_div]
  unfold roundedQuotient
  cases measured : value? total with
  | none => cases infinite : grand.isInf <;> simp
  | some t =>
    cases infinite : grand.isInf with
    | true =>
      have none : value? grand = none := by
        cases value : value? grand with
        | none => rfl
        | some g =>
          rw [isInf_of_value? value] at infinite
          cases infinite
      simp [none, fit, eq_comm]
    | false =>
      cases whole : value? grand with
      | none => simp
      | some g =>
        by_cases zero : g = 0
        · simp [zero]
        · simp only [zero, fit, Bool.false_eq_true, if_false, Option.bind_some,
            Option.ite_none_right_eq_some, Option.some.injEq, abs_rounded_lt_iff, exists_eq_left',
            false_and, false_or, ne_eq, not_false_eq_true, true_and]
          rw [eq_comm (a := x)]

/-- The percentage that a quotient of doubles gives. -/
def percentOf (x : ℚ) : ℤ := towardZero (rounded (rounded (x * 100) + 1 / 2))

theorem percentOf_mono {x y : ℚ} (le : x ≤ y) : percentOf x ≤ percentOf y := by
  refine towardZero_mono (rounded_mono (add_le_add_left (rounded_mono ?_) _))
  exact mul_le_mul_of_nonneg_right le (by norm_num)

/-- What a percentage is, and when there is one. Adding the half cannot lead out of the doubles. -/
theorem floatShare_ok_iff {total grand : Float} {percentage : ℤ} :
    floatShare total grand = .ok percentage ↔
      grand ≤ 0.0 ∧ percentage = 0 ∨
        ¬ grand ≤ 0.0 ∧ ∃ x, value? (total / grand) = some x ∧
          |x * 100| < 2 ^ (1024 : ℤ) - 2 ^ (970 : ℤ) ∧ percentage = percentOf x := by
  unfold floatShare
  by_cases none : grand ≤ 0.0
  · simp [none, eq_comm]
  · simp only [none, if_false, false_and, false_or, not_false_eq_true, true_and]
    rw [truncate_ok_iff]
    constructor
    · rintro ⟨v, value, whole⟩
      rw [value?_add] at value
      obtain ⟨product, half, valueProduct, valueHalf, _, rfl⟩ := roundedWith_fit_iff.mp value
      cases value?_half.symm.trans valueHalf
      rw [value?_mul] at valueProduct
      obtain ⟨x, hundred, quotient, valueHundred, small, rfl⟩ := roundedWith_fit_iff.mp valueProduct
      cases value?_hundred.symm.trans valueHundred
      exact ⟨x, quotient, small, whole.symm⟩
    · rintro ⟨x, quotient, small, rfl⟩
      refine ⟨_, ?_, rfl⟩
      rw [value?_add]
      refine roundedWith_fit_iff.mpr ⟨rounded (x * 100), 1 / 2, ?_, value?_half, ?_, rfl⟩
      · rw [value?_mul]
        exact roundedWith_fit_iff.mpr ⟨x, 100, quotient, value?_hundred, small, rfl⟩
      · exact abs_rounded_add_half_lt small

theorem pos_of_not_le_zero {x : Float} {v : ℚ} (value : value? x = some v) (positive : ¬ x ≤ 0.0) : 0 < v := by
  rw [le_iff_level (isNaN_of_value? value) (isNaN_of_value? value?_zero), level_eq value,
    level_eq value?_zero] at positive
  exact not_le.mp positive

theorem floatShare_mono {less more grand : Float} {lower upper : ℤ}
    (le : level less ≤ level more) (shareLess : floatShare less grand = .ok lower)
    (shareMore : floatShare more grand = .ok upper) : lower ≤ upper := by
  rcases floatShare_ok_iff.mp shareLess with ⟨_, rfl⟩ | ⟨positive, x, quotientX, _, rfl⟩
  · rcases floatShare_ok_iff.mp shareMore with ⟨_, rfl⟩ | ⟨positive, _⟩
    · exact le_rfl
    · contradiction
  · rcases floatShare_ok_iff.mp shareMore with ⟨nonpos, _⟩ | ⟨_, y, quotientY, _, rfl⟩
    · contradiction
    · apply percentOf_mono
      obtain ⟨t, valueT, caseX⟩ := quotient_value_iff.mp quotientX
      obtain ⟨u, valueU, caseY⟩ := quotient_value_iff.mp quotientY
      rw [level_eq valueT, level_eq valueU] at le
      rcases caseX with ⟨infinite, rfl⟩ | ⟨g, valueG, _, _, rfl⟩
      · rcases caseY with ⟨_, rfl⟩ | ⟨h, valueH, _⟩
        · exact le_rfl
        · rw [isInf_of_value? valueH] at infinite
          cases infinite
      · rcases caseY with ⟨infinite, _⟩ | ⟨h, valueH, _, _, rfl⟩
        · rw [isInf_of_value? valueG] at infinite
          cases infinite
        · cases valueG.symm.trans valueH
          exact rounded_mono (div_le_div_of_nonneg_right le (pos_of_not_le_zero valueG positive).le)

/-- The total has a percentage of the grand total: it is finite, and so is the quotient turned into a
percentage, unless nothing was measured. -/
def HasShare (total grand : Float) : Prop :=
  grand ≤ 0.0 ∨ ∃ t, value? total = some t ∧
    (grand.isInf = true ∨ ∃ g, value? grand = some g ∧
      |rounded (t / g) * 100| < 2 ^ (1024 : ℤ) - 2 ^ (970 : ℤ))

theorem floatShare_succeeds_iff {total grand : Float} :
    (∃ percentage, floatShare total grand = .ok percentage) ↔ HasShare total grand := by
  unfold HasShare
  constructor
  · rintro ⟨percentage, share⟩
    rcases floatShare_ok_iff.mp share with ⟨none, _⟩ | ⟨_, x, quotient, small, _⟩
    · exact Or.inl none
    · obtain ⟨t, valueT, infinite | ⟨g, valueG, _, _, rfl⟩⟩ := quotient_value_iff.mp quotient
      · exact Or.inr ⟨t, valueT, Or.inl infinite.1⟩
      · exact Or.inr ⟨t, valueT, Or.inr ⟨g, valueG, small⟩⟩
  · intro measured
    by_cases none : grand ≤ 0.0
    · exact ⟨0, floatShare_ok_iff.mpr (Or.inl ⟨none, rfl⟩)⟩
    · rcases measured with _ | ⟨t, valueT, infinite | ⟨g, valueG, small⟩⟩
      · contradiction
      · have zero : value? (total / grand) = some 0 :=
          quotient_value_iff.mpr ⟨t, valueT, Or.inl ⟨infinite, rfl⟩⟩
        refine ⟨_, floatShare_ok_iff.mpr (Or.inr ⟨none, 0, zero, ?_, rfl⟩)⟩
        rw [zero_mul, abs_zero, sub_pos]
        exact zpow_lt_zpow_right₀ (by norm_num) (by norm_num)
      · have quotient : value? (total / grand) = some (rounded (t / g)) := by
          refine quotient_value_iff.mpr ⟨t, valueT, Or.inr ⟨g, valueG, ?_, ?_, rfl⟩⟩
          · exact (pos_of_not_le_zero valueG none).ne'
          · rw [← abs_rounded_lt_iff]
            rw [abs_mul, abs_of_pos (by norm_num : (0 : ℚ) < 100)] at small
            have nonneg := abs_nonneg (rounded (t / g))
            have unit : (0 : ℚ) < 2 ^ (970 : ℤ) := by positivity
            generalize (2 : ℚ) ^ (970 : ℤ) = u at small unit
            generalize (2 : ℚ) ^ (1024 : ℤ) = top at small ⊢
            linarith
        exact ⟨_, floatShare_ok_iff.mpr (Or.inr ⟨none, _, quotient, small, rfl⟩)⟩

end Duration

end CheckCost
