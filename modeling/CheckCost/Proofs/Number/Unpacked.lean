import CheckCost.Proofs.Number.Rounding

/-!
The arithmetic of doubles in its unpacked form: a sign, a mantissa and an exponent. Each operation
computes some leading digits of a result and how the rest lies to them, and rounds from that; the result
is the exact one rounded.
-/
namespace CheckCost.Number

open Float.Model Float.Model.UnpackedFloat

def signFactor : UnpackedFloat.Sign → ℚ
  | .negative => -1
  | .positive => 1

/-- The number that an unpacked double is, unless it is infinite or undefined. -/
def unpackedValue? : UnpackedFloat → Option ℚ
  | .finite sign m e _ => some (signFactor sign * (m * 2 ^ e))
  | .zero _ => some 0
  | _ => none

/-- The mantissa has 53 digits, or fewer at the least exponent. -/
structure IsCanonical (m : ℕ) (e : ℤ) : Prop where
  few : m < 2 ^ 53
  least : -1074 ≤ e
  full : 2 ^ 52 ≤ m ∨ e = -1074

def Canonical : UnpackedFloat → Prop
  | .finite _ m e _ => IsCanonical m e
  | _ => True

/-- The mantissa in halves, with the first bit that was shifted out. -/
def halves (em : ExtendedMantissa) : ℕ := 2 * em.mantissa + em.roundBit.toNat

/-- What an extended mantissa tells about a number: its double lies at the halves or, if the last bit says
so, strictly between them and the next half. -/
structure Describes (em : ExtendedMantissa) (t : ℚ) : Prop where
  exact : em.stickyBit = false → 2 * t = halves em
  between : em.stickyBit = true → halves em < 2 * t ∧ 2 * t < halves em + 1

theorem Describes.bounds {em : ExtendedMantissa} {t : ℚ} (describes : Describes em t) :
    halves em ≤ 2 * t ∧ 2 * t < halves em + 1 := by
  cases sticky : em.stickyBit with
  | false =>
    have eq := describes.exact sticky
    constructor <;> linarith
  | true =>
    have between := describes.between sticky
    exact ⟨between.1.le, between.2⟩

theorem Describes.mantissa_le {em : ExtendedMantissa} {t : ℚ} (describes : Describes em t) :
    em.mantissa ≤ t := by
  have low := describes.bounds.1
  have bit : (0 : ℚ) ≤ em.roundBit.toNat := by positivity
  unfold halves at low
  push_cast at low
  linarith

theorem Describes.lt_mantissa {em : ExtendedMantissa} {t : ℚ} (describes : Describes em t) :
    t < em.mantissa + 1 := by
  have high := describes.bounds.2
  have bit : (em.roundBit.toNat : ℚ) ≤ 1 := by exact_mod_cast em.roundBit.toNat_le
  unfold halves at high
  push_cast at high
  linarith

theorem halves_shiftRightOne (em : ExtendedMantissa) : halves em.shiftRightOne = em.mantissa := by
  unfold halves ExtendedMantissa.shiftRightOne
  rcases Nat.mod_two_eq_zero_or_one em.mantissa with even | odd
  · simp only [even]
    simp
    omega
  · simp only [odd]
    simp
    omega

/-- Shifting a bit out halves the number. The bit becomes the round bit, and what that told before is
kept in the sticky bit. -/
theorem Describes.shiftRightOne {em : ExtendedMantissa} {t : ℚ} (describes : Describes em t) :
    Describes em.shiftRightOne (t / 2) := by
  have low := describes.mantissa_le
  have high := describes.lt_mantissa
  have halved : 2 * (t / 2) = t := by ring
  obtain ⟨m, round, sticky⟩ := em
  constructor
  · intro clear
    rw [halves_shiftRightOne, halved]
    simp only [ExtendedMantissa.shiftRightOne, Bool.or_eq_false_iff] at clear
    obtain ⟨rfl, rfl⟩ := clear
    have eq := describes.exact rfl
    simp only [halves, Bool.toNat_false] at eq
    push_cast at eq
    linarith
  · intro set
    rw [halves_shiftRightOne, halved]
    refine ⟨lt_of_le_of_ne low ?_, high⟩
    rintro rfl
    cases sticky with
    | false =>
      have eq := describes.exact rfl
      simp only [ExtendedMantissa.shiftRightOne, Bool.or_false] at set
      simp [halves, set] at eq
    | true =>
      have between := (describes.between rfl).1
      have bit : (0 : ℚ) ≤ round.toNat := by positivity
      simp only [halves] at between
      push_cast at between
      linarith

theorem Describes.shiftRight {em : ExtendedMantissa} {t : ℚ} (describes : Describes em t) (n : ℕ) :
    Describes (em >>> n) (t / 2 ^ n) := by
  induction n with
  | zero =>
    rw [pow_zero, div_one]
    exact describes
  | succ n ih =>
    have step := ih.shiftRightOne
    rw [div_div, ← pow_succ] at step
    exact step

/-- A tie goes up from an odd integer. -/
theorem isNearest_tie {t : ℚ} {m : ℕ} (tie : 2 * t = 2 * m + 1) : IsNearest t (m + m % 2 : ℕ) := by
  right
  rcases Nat.mod_two_eq_zero_or_one m with even | odd
  · rw [even]
    refine ⟨?_, by exact_mod_cast Nat.even_iff.mpr even⟩
    rw [abs_eq (by norm_num)]
    left
    push_cast
    linarith
  · rw [odd]
    refine ⟨?_, by exact_mod_cast (Nat.odd_iff.mpr odd).add_one⟩
    rw [abs_eq (by norm_num)]
    right
    push_cast
    linarith

theorem Describes.roundedMantissa {em : ExtendedMantissa} {t : ℚ} (describes : Describes em t) :
    (em.roundedMantissa : ℤ) = nearestEven t := by
  obtain ⟨m, round, sticky⟩ := em
  symm
  rw [nearestEven_eq_iff]
  have exact := describes.exact
  have between := describes.between
  cases round <;> cases sticky <;>
    simp only [halves, ExtendedMantissa.roundedMantissa, ExtendedMantissa.accuracy,
      Accuracy.roundToNearestEven, Bool.toNat_false, Bool.toNat_true] at exact between ⊢
  case false.false =>
    have eq := exact trivial
    left
    push_cast at eq ⊢
    rw [abs_lt]
    constructor <;> linarith
  case false.true =>
    have lies := between trivial
    left
    push_cast at lies ⊢
    rw [abs_lt]
    constructor <;> linarith
  case true.false =>
    have eq := exact trivial
    push_cast at eq
    exact isNearest_tie eq
  case true.true =>
    have lies := between trivial
    left
    push_cast at lies ⊢
    rw [abs_lt]
    constructor <;> linarith

theorem ofMantissaAndAccuracy_mantissa (m : ℕ) (accuracy : Accuracy) :
    (ExtendedMantissa.ofMantissaAndAccuracy m accuracy).mantissa = m := by
  unfold ExtendedMantissa.ofMantissaAndAccuracy
  split <;> rfl

theorem describes_exact (m : ℕ) : Describes (.ofMantissaAndAccuracy m .exact) m := by
  constructor
  · intro _
    simp [halves, ExtendedMantissa.ofMantissaAndAccuracy]
  · intro set
    cases set

theorem targetExponent_eq (total : ℤ) :
    Format.binary64.targetExponent total = max (total - 53) (-1074) := rfl

theorem lt_two_pow_log2 (m : ℕ) : (m : ℚ) + 1 ≤ 2 ^ ((m.log2 : ℤ) + 1) := by
  exact_mod_cast (Nat.lt_log2_self : m < 2 ^ (m.log2 + 1))

theorem two_pow_log2_le {m : ℕ} (pos : m ≠ 0) : (2 : ℚ) ^ (m.log2 : ℤ) ≤ m := by
  exact_mod_cast Nat.log2_self_le pos

/-- The exponent that the leading digits are shifted to is the one of the whole number. -/
theorem gridExponent_eq_target {m : ℕ} {e : ℤ} {accuracy : Accuracy} {t : ℚ}
    (describes : Describes (.ofMantissaAndAccuracy m accuracy) t) (pos : t ≠ 0)
    (enough : e ≤ Format.binary64.targetExponent (totalExponent m e)) :
    gridExponent (t * 2 ^ e) = Format.binary64.targetExponent (totalExponent m e) := by
  have low := describes.mantissa_le
  have high := describes.lt_mantissa
  rw [ofMantissaAndAccuracy_mantissa] at low high
  rw [targetExponent_eq] at enough ⊢
  unfold totalExponent at enough ⊢
  have nonneg : 0 ≤ t := (Nat.cast_nonneg m).trans low
  have size : |t * 2 ^ e| = t * 2 ^ e := abs_of_nonneg (by positivity)
  apply gridExponent_eq (le_max_right _ _)
  · rw [size]
    calc t * 2 ^ e < 2 ^ ((m.log2 : ℤ) + 1) * 2 ^ e :=
          mul_lt_mul_of_pos_right (high.trans_le (lt_two_pow_log2 m)) (by positivity)
      _ = 2 ^ ((m.log2 : ℤ) + 1 + e) := (zpow_add₀ (by norm_num) _ _).symm
      _ ≤ 2 ^ (53 + max ((m.log2 : ℤ) + 1 + e - 53) (-1074)) :=
          zpow_le_zpow_right₀ (by norm_num) (by omega)
  · by_cases least : max ((m.log2 : ℤ) + 1 + e - 53) (-1074) = -1074
    · exact Or.inl least
    · right
      have mantissa : m ≠ 0 := by
        rintro rfl
        rw [Nat.log2_zero] at enough least
        omega
      rw [size]
      calc (2 : ℚ) ^ (52 + max ((m.log2 : ℤ) + 1 + e - 53) (-1074)) = 2 ^ ((m.log2 : ℤ) + e) := by
            congr 1
            omega
        _ = 2 ^ (m.log2 : ℤ) * 2 ^ e := zpow_add₀ (by norm_num) _ _
        _ ≤ t * 2 ^ e :=
            mul_le_mul_of_nonneg_right ((two_pow_log2_le mantissa).trans low) (by positivity)
  · positivity

/-- After rounding at most one digit is too many. -/
theorem shiftToTargetExponent_rounded {r : ℕ} {e : ℤ} (few : r ≤ 2 ^ 53) (least : -1074 ≤ e)
    (full : 2 ^ 52 ≤ r ∨ e = -1074) :
    IsCanonical (shiftToTargetExponent Format.binary64 r e .exact).1.mantissa
        (shiftToTargetExponent Format.binary64 r e .exact).2 ∧
      ((shiftToTargetExponent Format.binary64 r e .exact).1.mantissa : ℚ) *
        2 ^ (shiftToTargetExponent Format.binary64 r e .exact).2 = r * 2 ^ e := by
  unfold shiftToTargetExponent shiftToExponent
  simp only [targetExponent_eq, totalExponent]
  rcases few.lt_or_eq with less | rfl
  · have bits : r.log2 ≤ 52 := by
      by_cases zero : r = 0
      · simp [zero]
      · have := (Nat.log2_lt zero).mpr less
        omega
    have still : (max ((r.log2 : ℤ) + 1 + e - 53) (-1074) - e).toNat = 0 := by omega
    have same : (ExtendedMantissa.ofMantissaAndAccuracy r .exact >>> 0).mantissa = r := rfl
    rw [still, same, Nat.cast_zero, add_zero]
    exact ⟨⟨less, least, full⟩, rfl⟩
  · have once : (max (((2 ^ 53 : ℕ).log2 : ℤ) + 1 + e - 53) (-1074) - e).toNat = 1 := by
      rw [Nat.log2_two_pow]
      omega
    rw [once]
    refine ⟨⟨by decide, by omega, Or.inl (by decide)⟩, ?_⟩
    have digits : (ExtendedMantissa.ofMantissaAndAccuracy (2 ^ 53) .exact >>> 1).mantissa = 2 ^ 52 := rfl
    rw [digits, Nat.cast_one, zpow_add₀ (by norm_num)]
    push_cast
    ring

/-- The digits that rounding keeps, before a carry is shifted out. -/
structure RoundsTo (digits : ExtendedMantissa × ℤ) (x : ℚ) : Prop where
  value : (digits.1.roundedMantissa : ℚ) * 2 ^ digits.2 = rounded x
  few : digits.1.roundedMantissa ≤ 2 ^ 53
  least : -1074 ≤ digits.2
  full : 2 ^ 52 ≤ digits.1.roundedMantissa ∨ digits.2 = -1074

theorem shiftToTargetExponent_eq {m k : ℕ} {e : ℤ} {accuracy : Accuracy}
    (target : e + k = Format.binary64.targetExponent (totalExponent m e)) :
    shiftToTargetExponent Format.binary64 m e accuracy =
      (ExtendedMantissa.ofMantissaAndAccuracy m accuracy >>> k, e + k) := by
  have shift : (Format.binary64.targetExponent (totalExponent m e) - e).toNat = k := by omega
  simp only [shiftToTargetExponent, shiftToExponent, shift]

theorem roundsTo_zero {m k : ℕ} {e : ℤ} {accuracy : Accuracy}
    (describes : Describes (.ofMantissaAndAccuracy m accuracy) 0)
    (target : e + k = Format.binary64.targetExponent (totalExponent m e)) :
    RoundsTo (ExtendedMantissa.ofMantissaAndAccuracy m accuracy >>> k, e + k) 0 := by
  have digits := (describes.shiftRight k).roundedMantissa
  rw [zero_div, nearestEven_zero] at digits
  have none : (ExtendedMantissa.ofMantissaAndAccuracy m accuracy >>> k).roundedMantissa = 0 := by
    exact_mod_cast digits
  have low := describes.mantissa_le
  rw [ofMantissaAndAccuracy_mantissa] at low
  have mantissa : m = 0 := by exact_mod_cast le_antisymm low (Nat.cast_nonneg m)
  rw [targetExponent_eq, totalExponent, mantissa, Nat.log2_zero] at target
  have least : e + (k : ℤ) = -1074 := by omega
  exact ⟨by simp [none, rounded_zero], by simp [none], least.ge, Or.inr least⟩

theorem shiftToTargetExponent_roundsTo {m : ℕ} {e : ℤ} {accuracy : Accuracy} {t : ℚ}
    (describes : Describes (.ofMantissaAndAccuracy m accuracy) t)
    (enough : e ≤ Format.binary64.targetExponent (totalExponent m e)) :
    RoundsTo (shiftToTargetExponent Format.binary64 m e accuracy) (t * 2 ^ e) := by
  obtain ⟨k, target⟩ := Int.le.dest enough
  rw [shiftToTargetExponent_eq target]
  by_cases zero : t = 0
  · subst zero
    rw [zero_mul]
    exact roundsTo_zero describes target
  · have grid : gridExponent (t * 2 ^ e) = e + k := by
      rw [gridExponent_eq_target describes zero enough, target]
    have scaled : t / 2 ^ k = t * 2 ^ e / 2 ^ (e + k) := by
      rw [zpow_add₀ (by norm_num), zpow_natCast]
      field_simp
    have pos : 0 < t * 2 ^ e := by
      have nonneg := (Nat.cast_nonneg _).trans describes.mantissa_le
      have := lt_of_le_of_ne nonneg (Ne.symm zero)
      positivity
    have value : ((ExtendedMantissa.ofMantissaAndAccuracy m accuracy >>> k).roundedMantissa : ℚ) *
        2 ^ (e + k) = rounded (t * 2 ^ e) := by
      unfold rounded
      rw [grid, ← scaled, ← (describes.shiftRight k).roundedMantissa]
      norm_cast
    have unit : (0 : ℚ) < 2 ^ (e + k) := by positivity
    refine ⟨value, ?_, grid ▸ le_gridExponent _, ?_⟩
    · have top := rounded_le_gridTop (t * 2 ^ e)
      rw [← value, grid, gridTop_eq, mul_le_mul_iff_left₀ unit] at top
      exact_mod_cast top
    · by_cases high : e + (k : ℤ) = -1074
      · exact Or.inr high
      · left
        have least := le_gridExponent (t * 2 ^ e)
        have bottom := gridBottom_le_rounded pos (by omega)
        rw [← value, grid, gridBottom_eq, mul_le_mul_iff_left₀ unit] at bottom
        exact_mod_cast bottom

theorem ofDigits_value (sign : UnpackedFloat.Sign) {m : ℕ} {e : ℤ} (canonical : IsCanonical m e) :
    let result : UnpackedFloat :=
      if h : m = 0 then .zero sign else .finite sign m e (Nat.pos_of_ne_zero h)
    Canonical result ∧ unpackedValue? result = some (signFactor sign * (m * 2 ^ e)) := by
  intro result
  by_cases zero : m = 0
  · have eq : result = .zero sign := dif_pos zero
    rw [eq, zero]
    refine ⟨trivial, ?_⟩
    rw [Nat.cast_zero, zero_mul, mul_zero]
    rfl
  · have eq : result = .finite sign m e (Nat.pos_of_ne_zero zero) := dif_neg zero
    rw [eq]
    exact ⟨canonical, rfl⟩

/-- Whatever the leading digits are, the result is the rounded number. -/
theorem roundWithAccuracy_value {m : ℕ} {e : ℤ} {accuracy : Accuracy} {t : ℚ}
    (sign : UnpackedFloat.Sign) (describes : Describes (.ofMantissaAndAccuracy m accuracy) t)
    (enough : e ≤ Format.binary64.targetExponent (totalExponent m e)) :
    Canonical (roundWithAccuracy Format.binary64 sign m e accuracy) ∧
      unpackedValue? (roundWithAccuracy Format.binary64 sign m e accuracy) =
        some (signFactor sign * rounded (t * 2 ^ e)) := by
  have first := shiftToTargetExponent_roundsTo describes enough
  obtain ⟨canonical, value⟩ := shiftToTargetExponent_rounded first.few first.least first.full
  rw [← first.value, ← value]
  exact ofDigits_value sign canonical

end CheckCost.Number
