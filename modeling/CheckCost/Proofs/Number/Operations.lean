import Mathlib
import CheckCost.Proofs.Number.Unpacked

/-!
Sums, products and quotients of unpacked doubles. Where both operands are finite the result is the exact
one rounded, and nowhere else is it finite but for a finite number by an infinite one.
-/
namespace CheckCost.Number

open Float.Model Float.Model.UnpackedFloat

/-- The operation on the numbers, rounded. -/
def roundedWith (operation : ℚ → ℚ → ℚ) (first second : Option ℚ) : Option ℚ :=
  first.bind fun p => second.map fun q => rounded (operation p q)

/-- A quotient: none by zero, and zero by an infinite number. -/
def roundedQuotient (first second : Option ℚ) (infinite : Bool) : Option ℚ :=
  if infinite then first.map fun _ => 0
  else first.bind fun p => second.bind fun q => if q = 0 then none else some (rounded (p / q))

theorem IsCanonical.isRounded {m : ℕ} {e : ℤ} (canonical : IsCanonical m e) (sign : UnpackedFloat.Sign) :
    IsRounded (signFactor sign * (m * 2 ^ e)) := by
  have size : |(m : ℤ)| < 2 ^ 53 := by
    rw [Nat.abs_cast]
    exact_mod_cast canonical.few
  cases sign with
  | positive => exact ⟨m, e, size, canonical.least, by simp [signFactor]⟩
  | negative => exact ⟨-m, e, by rwa [abs_neg], canonical.least, by simp [signFactor]⟩

theorem Canonical.rounded_value {x : UnpackedFloat} {v : ℚ} (canonical : Canonical x)
    (value : unpackedValue? x = some v) : rounded v = v := by
  cases x with
  | finite sign m e pos =>
    cases value
    exact (IsCanonical.isRounded canonical sign).rounded_eq
  | zero sign =>
    cases value
    exact rounded_zero
  | infinity sign => cases value
  | notANumber => cases value

theorem signFactor_neg (sign : UnpackedFloat.Sign) : signFactor (-sign) = -signFactor sign := by
  cases sign with
  | positive => rfl
  | negative => exact (neg_neg (1 : ℚ)).symm

theorem signFactor_mul (s t : UnpackedFloat.Sign) : signFactor (s * t) = signFactor s * signFactor t := by
  cases s <;> cases t <;> decide +kernel

theorem signFactor_div (s t : UnpackedFloat.Sign) : signFactor (s / t) = signFactor s / signFactor t := by
  cases s <;> cases t <;> decide +kernel

theorem signed_ne_zero (sign : UnpackedFloat.Sign) {m : ℕ} (e : ℤ) (pos : 0 < m) :
    signFactor sign * ((m : ℚ) * 2 ^ e) ≠ 0 := by
  have factor : signFactor sign ≠ 0 := by cases sign <;> norm_num [signFactor]
  have mantissa : (m : ℚ) ≠ 0 := by exact_mod_cast pos.ne'
  positivity

theorem rounded_sign (sign : UnpackedFloat.Sign) (x : ℚ) :
    rounded (signFactor sign * x) = signFactor sign * rounded x := by
  cases sign with
  | positive => simp [signFactor]
  | negative => simp [signFactor, rounded_neg]

theorem log2_mul_two_pow {m : ℕ} (pos : m ≠ 0) (k : ℕ) : (m * 2 ^ k).log2 = m.log2 + k := by
  rw [Nat.log2_eq_iff (by positivity)]
  have low := Nat.log2_self_le pos
  have high := Nat.lt_log2_self (n := m)
  constructor
  · rw [pow_add]
    exact Nat.mul_le_mul_right _ low
  · rw [add_right_comm, pow_add]
    exact Nat.mul_lt_mul_of_pos_right high (by positivity)

theorem targetExponent_mono {a b : ℤ} (le : a ≤ b) :
    Format.binary64.targetExponent a ≤ Format.binary64.targetExponent b := by
  rw [targetExponent_eq, targetExponent_eq]
  omega

theorem decreaseExponent_value (m : ℕ) (e target : ℤ) :
    ((decreaseExponent m e target).1 : ℚ) * 2 ^ (decreaseExponent m e target).2 = m * 2 ^ e := by
  unfold decreaseExponent
  simp only [Nat.shiftLeft_eq]
  rw [zpow_sub₀ (by norm_num)]
  push_cast
  rw [zpow_natCast]
  field_simp

theorem decreaseExponent_exponent (m : ℕ) (e target : ℤ) :
    (decreaseExponent m e target).2 = min e target := by
  unfold decreaseExponent
  dsimp only
  omega

theorem round_value {m : ℕ} (pos : m ≠ 0) (e : ℤ) (sign : UnpackedFloat.Sign) :
    Canonical (UnpackedFloat.round Format.binary64 sign m e) ∧
      unpackedValue? (UnpackedFloat.round Format.binary64 sign m e) =
        some (rounded (signFactor sign * (m * 2 ^ e))) := by
  have value := decreaseExponent_value m e (Format.binary64.targetExponent (totalExponent m e))
  have exponent := decreaseExponent_exponent m e (Format.binary64.targetExponent (totalExponent m e))
  have total : totalExponent (decreaseExponent m e (Format.binary64.targetExponent (totalExponent m e))).1
      (decreaseExponent m e (Format.binary64.targetExponent (totalExponent m e))).2 =
        totalExponent m e := by
    unfold decreaseExponent totalExponent
    simp only [Nat.shiftLeft_eq, log2_mul_two_pow pos]
    omega
  have rounds := roundWithAccuracy_value sign
    (describes_exact (decreaseExponent m e (Format.binary64.targetExponent (totalExponent m e))).1)
    (by rw [total, exponent]; exact min_le_right _ _)
  rw [value, ← rounded_sign] at rounds
  exact rounds

theorem normalize_value (m e : ℤ) (sign : UnpackedFloat.Sign) :
    Canonical (UnpackedFloat.normalize Format.binary64 m e sign) ∧
      unpackedValue? (UnpackedFloat.normalize Format.binary64 m e sign) = some (rounded (m * 2 ^ e)) := by
  unfold UnpackedFloat.normalize
  rcases lt_trichotomy m 0 with neg | rfl | pos
  · have side : compare m 0 = .lt := compare_lt_iff_lt.mpr neg
    rw [side]
    have rounds := round_value (m := (-m).toNat) (by omega) e .negative
    have size : (((-m).toNat : ℕ) : ℚ) = -m := by
      have : (((-m).toNat : ℕ) : ℤ) = -m := Int.toNat_of_nonneg (by omega)
      exact_mod_cast this
    have value : signFactor .negative * (-(m : ℚ) * 2 ^ e) = m * 2 ^ e := by simp [signFactor]
    rw [size, value] at rounds
    exact rounds
  · have side : compare (0 : ℤ) 0 = .eq := compare_eq_iff_eq.mpr rfl
    rw [side]
    exact ⟨trivial, by simp [unpackedValue?, rounded_zero]⟩
  · have side : compare m 0 = .gt := compare_gt_iff_gt.mpr pos
    rw [side]
    have rounds := round_value (m := m.toNat) (by omega) e .positive
    have size : ((m.toNat : ℕ) : ℚ) = m := by
      have : ((m.toNat : ℕ) : ℤ) = m := Int.toNat_of_nonneg pos.le
      exact_mod_cast this
    have value : signFactor .positive * ((m : ℚ) * 2 ^ e) = m * 2 ^ e := by simp [signFactor]
    rw [size, value] at rounds
    exact rounds

theorem apply_cast (sign : UnpackedFloat.Sign) (m : ℕ) : ((sign.apply m : ℤ) : ℚ) = signFactor sign * m := by
  cases sign with
  | positive => simp [Sign.apply, signFactor]
  | negative => simp [Sign.apply, signFactor]

/-- A finite sum is exact but for its rounding, also where leading digits cancel. -/
theorem add_finite (s₁ s₂ : UnpackedFloat.Sign) (m₁ m₂ : ℕ) (e₁ e₂ : ℤ) (pos₁ : 0 < m₁) (pos₂ : 0 < m₂) :
    Canonical (UnpackedFloat.add Format.binary64 (.finite s₁ m₁ e₁ pos₁) (.finite s₂ m₂ e₂ pos₂)) ∧
      unpackedValue? (UnpackedFloat.add Format.binary64 (.finite s₁ m₁ e₁ pos₁) (.finite s₂ m₂ e₂ pos₂)) =
        some (rounded (signFactor s₁ * (m₁ * 2 ^ e₁) + signFactor s₂ * (m₂ * 2 ^ e₂))) := by
  have first := decreaseExponent_value m₁ e₁ (min e₁ e₂)
  have second := decreaseExponent_value m₂ e₂ (min e₁ e₂)
  rw [decreaseExponent_exponent, min_eq_right (min_le_left _ _)] at first
  rw [decreaseExponent_exponent, min_eq_right (min_le_right _ _)] at second
  have sum := normalize_value
    (s₁.apply (decreaseExponent m₁ e₁ (min e₁ e₂)).1 + s₂.apply (decreaseExponent m₂ e₂ (min e₁ e₂)).1)
    (min e₁ e₂) .positive
  rw [Int.cast_add, apply_cast, apply_cast, add_mul, mul_assoc, mul_assoc, first, second] at sum
  exact sum

theorem add_value {a b : UnpackedFloat} (canonicalA : Canonical a) (canonicalB : Canonical b) :
    Canonical (UnpackedFloat.add Format.binary64 a b) ∧
      unpackedValue? (UnpackedFloat.add Format.binary64 a b) =
        roundedWith (· + ·) (unpackedValue? a) (unpackedValue? b) := by
  cases a with
  | notANumber => exact ⟨trivial, rfl⟩
  | infinity s =>
    cases b with
    | infinity t =>
      simp only [UnpackedFloat.add]
      split <;> exact ⟨trivial, rfl⟩
    | notANumber => exact ⟨trivial, rfl⟩
    | zero t => exact ⟨trivial, rfl⟩
    | finite t m e pos => exact ⟨trivial, rfl⟩
  | zero s =>
    cases b with
    | infinity t => exact ⟨trivial, rfl⟩
    | notANumber => exact ⟨trivial, rfl⟩
    | zero t =>
      have sum : roundedWith (· + ·) (some 0) (some 0) = some 0 := by simp [roundedWith, rounded_zero]
      simp only [UnpackedFloat.add]
      split <;> exact ⟨trivial, sum.symm⟩
    | finite t m e pos =>
      refine ⟨canonicalB, ?_⟩
      have same := canonicalB.rounded_value rfl
      simp [UnpackedFloat.add, roundedWith, unpackedValue?, same]
  | finite s m e pos =>
    cases b with
    | infinity t => exact ⟨trivial, rfl⟩
    | notANumber => exact ⟨trivial, rfl⟩
    | zero t =>
      refine ⟨canonicalA, ?_⟩
      have same := canonicalA.rounded_value rfl
      simp [UnpackedFloat.add, roundedWith, unpackedValue?, same]
    | finite t n f posB => exact add_finite s t m n e f pos posB

/-- A product has all digits that it needs: one factor has 53, or the exponent is below the least. -/
theorem mul_digits {m₁ m₂ : ℕ} {e₁ e₂ : ℤ} (canonical₁ : IsCanonical m₁ e₁) (canonical₂ : IsCanonical m₂ e₂)
    (pos₁ : 0 < m₁) (pos₂ : 0 < m₂) :
    e₁ + e₂ ≤ Format.binary64.targetExponent (totalExponent (m₁ * m₂) (e₁ + e₂)) := by
  rw [targetExponent_eq, totalExponent]
  by_cases full : 2 ^ 52 ≤ m₁ * m₂
  · have := (Nat.le_log2 (by positivity)).mpr full
    omega
  · have small₁ : ¬ 2 ^ 52 ≤ m₁ := fun large => full (large.trans (Nat.le_mul_of_pos_right m₁ pos₂))
    have small₂ : ¬ 2 ^ 52 ≤ m₂ := fun large => full (large.trans (Nat.le_mul_of_pos_left m₂ pos₁))
    have least₁ := canonical₁.full.resolve_left small₁
    have least₂ := canonical₂.full.resolve_left small₂
    omega

theorem mul_value {a b : UnpackedFloat} (canonicalA : Canonical a) (canonicalB : Canonical b) :
    Canonical (UnpackedFloat.mul Format.binary64 a b) ∧
      unpackedValue? (UnpackedFloat.mul Format.binary64 a b) =
        roundedWith (· * ·) (unpackedValue? a) (unpackedValue? b) := by
  have left (q : ℚ) : roundedWith (· * ·) (some 0) (some q) = some 0 := by
    simp [roundedWith, rounded_zero]
  have right (p : ℚ) : roundedWith (· * ·) (some p) (some 0) = some 0 := by
    simp [roundedWith, rounded_zero]
  cases a with
  | notANumber => exact ⟨trivial, rfl⟩
  | infinity s => cases b <;> exact ⟨trivial, rfl⟩
  | zero s =>
    cases b with
    | infinity t => exact ⟨trivial, rfl⟩
    | notANumber => exact ⟨trivial, rfl⟩
    | zero t => exact ⟨trivial, (left _).symm⟩
    | finite t m e pos => exact ⟨trivial, (left _).symm⟩
  | finite s m e pos =>
    cases b with
    | infinity t => exact ⟨trivial, rfl⟩
    | notANumber => exact ⟨trivial, rfl⟩
    | zero t => exact ⟨trivial, (right _).symm⟩
    | finite t n f posB =>
      have product := roundWithAccuracy_value (s * t) (describes_exact (m * n))
        (mul_digits canonicalA canonicalB pos posB)
      rw [← rounded_sign, signFactor_mul, zpow_add₀ (by norm_num), Nat.cast_mul] at product
      refine ⟨product.1, product.2.trans ?_⟩
      simp only [roundedWith, unpackedValue?, Option.bind_some, Option.map_some]
      congr 2
      ring

theorem describes_inexact {m : ℕ} {t : ℚ} {side : Ordering} (low : m < t) (high : t < m + 1)
    (half : side.Compares (2 * t) (2 * m + 1)) :
    Describes (.ofMantissaAndAccuracy m (.inexact side)) t := by
  cases side with
  | lt =>
    have less : 2 * t < 2 * m + 1 := half
    constructor
    · intro clear
      cases clear
    · intro _
      simp only [ExtendedMantissa.ofMantissaAndAccuracy, halves, Bool.toNat_false]
      push_cast
      constructor <;> linarith
  | eq =>
    have same : 2 * t = 2 * m + 1 := half
    constructor
    · intro _
      simp only [ExtendedMantissa.ofMantissaAndAccuracy, halves, Bool.toNat_true]
      push_cast
      exact same
    · intro set
      cases set
  | gt =>
    have more : 2 * m + 1 < 2 * t := half
    constructor
    · intro clear
      cases clear
    · intro _
      simp only [ExtendedMantissa.ofMantissaAndAccuracy, halves, Bool.toNat_true]
      push_cast
      constructor <;> linarith

/-- Twice the remainder lies to the divisor as the fraction does to the half. -/
theorem compares_half {q r b : ℕ} (pos : 0 < b) :
    (compare (2 * r) b).Compares (2 * ((q : ℚ) + r / b)) (2 * q + 1) := by
  have posB : (0 : ℚ) < b := by exact_mod_cast pos
  have sides := (compare_iff (2 * r) b).mp rfl
  have twice : 2 * ((q : ℚ) + r / b) = 2 * q + (2 * r : ℕ) / b := by
    push_cast
    ring
  rw [twice]
  cases side : compare (2 * r) b with
  | lt =>
    rw [side] at sides
    exact add_lt_add_right ((div_lt_one posB).mpr (by exact_mod_cast sides)) _
  | eq =>
    rw [side] at sides
    exact congrArg _ ((div_eq_one_iff_eq posB.ne').mpr (by exact_mod_cast sides))
  | gt =>
    rw [side] at sides
    exact add_lt_add_right ((one_lt_div posB).mpr (by exact_mod_cast sides)) _

/-- The remainder of a division tells how the quotient lies between two integers. -/
theorem describes_quotient (a : ℕ) {b : ℕ} (pos : 0 < b) :
    Describes (.ofMantissaAndAccuracy (a / b) (accuracyOfFraction (a % b) b)) ((a : ℚ) / b) := by
  have posB : (0 : ℚ) < b := by exact_mod_cast pos
  have parts : (a : ℚ) / b = (a / b : ℕ) + (a % b : ℕ) / b := by
    have whole : (a : ℚ) = b * (a / b : ℕ) + (a % b : ℕ) := by exact_mod_cast (Nat.div_add_mod a b).symm
    field_simp
    linarith
  have less : ((a % b : ℕ) : ℚ) / b < 1 := by
    rw [div_lt_one posB]
    exact_mod_cast Nat.mod_lt a pos
  rw [parts]
  unfold accuracyOfFraction
  split
  · rename_i zero
    rw [zero]
    simpa using describes_exact (a / b)
  · rename_i nonzero
    have above : 0 < ((a % b : ℕ) : ℚ) / b := by
      have : (0 : ℚ) < (a % b : ℕ) := by exact_mod_cast Nat.pos_of_ne_zero nonzero
      positivity
    exact describes_inexact (by linarith) (by linarith) (compares_half pos)

theorem log2_le_of_div {a b : ℕ} (posA : a ≠ 0) (posB : b ≠ 0) :
    a.log2 ≤ b.log2 + (a / b).log2 + 1 := by
  have upper : a < 2 ^ (b.log2 + (a / b).log2 + 2) := by
    calc a < b * (a / b + 1) := Nat.lt_mul_div_succ a (Nat.pos_of_ne_zero posB)
      _ ≤ 2 ^ (b.log2 + 1) * 2 ^ ((a / b).log2 + 1) :=
          Nat.mul_le_mul Nat.lt_log2_self.le Nat.lt_log2_self
      _ = 2 ^ (b.log2 + (a / b).log2 + 2) := by rw [← pow_add]; congr 1; omega
  have := (Nat.log2_lt posA).mpr upper
  omega

/-- A quotient has all digits that it needs: the dividend was shifted far enough. -/
theorem div_digits {m₁ m₂ : ℕ} (e₁ e₂ : ℤ) (pos₁ : m₁ ≠ 0) (pos₂ : m₂ ≠ 0) {target : ℤ} {k : ℕ}
    (shift : e₁ - e₂ = target + k)
    (low : target ≤ Format.binary64.targetExponent (totalExponent m₁ e₁ - totalExponent m₂ e₂)) :
    target ≤ Format.binary64.targetExponent (totalExponent (m₁ * 2 ^ k / m₂) target) := by
  have log := log2_mul_two_pow pos₁ k
  have log₁ : ((m₁ * 2 ^ k).log2 : ℤ) = m₁.log2 + k := by exact_mod_cast log
  by_cases none : m₁ * 2 ^ k / m₂ = 0
  · have less : m₁ * 2 ^ k < m₂ := (Nat.div_eq_zero_iff.mp none).resolve_left pos₂
    have logs : (m₁ * 2 ^ k).log2 < m₂.log2 + 1 :=
      (Nat.log2_lt (by positivity)).mpr (less.trans Nat.lt_log2_self)
    rw [targetExponent_eq] at low ⊢
    unfold totalExponent at low
    omega
  · refine low.trans (targetExponent_mono ?_)
    have logs := log2_le_of_div (a := m₁ * 2 ^ k) (by positivity) pos₂
    unfold totalExponent
    omega

theorem div_finite (s₁ s₂ : UnpackedFloat.Sign) {m₁ m₂ : ℕ} (e₁ e₂ : ℤ) (pos₁ : 0 < m₁) (pos₂ : 0 < m₂) :
    Canonical (UnpackedFloat.div Format.binary64 (.finite s₁ m₁ e₁ pos₁) (.finite s₂ m₂ e₂ pos₂)) ∧
      unpackedValue? (UnpackedFloat.div Format.binary64 (.finite s₁ m₁ e₁ pos₁) (.finite s₂ m₂ e₂ pos₂)) =
        some (rounded (signFactor s₁ * (m₁ * 2 ^ e₁) / (signFactor s₂ * (m₂ * 2 ^ e₂)))) := by
  simp only [UnpackedFloat.div, divCore, Nat.shiftLeft_eq]
  generalize chosen :
    min (e₁ - e₂) (Format.binary64.targetExponent (totalExponent m₁ e₁ - totalExponent m₂ e₂)) = target
  have low : target ≤ Format.binary64.targetExponent (totalExponent m₁ e₁ - totalExponent m₂ e₂) := by
    rw [← chosen]
    exact min_le_right _ _
  have below : target ≤ e₁ - e₂ := by
    rw [← chosen]
    exact min_le_left _ _
  generalize shifted : (e₁ - e₂ - target).toNat = k
  have shift : e₁ - e₂ = target + k := by omega
  have quotient := roundWithAccuracy_value (s₁ / s₂) (describes_quotient (m₁ * 2 ^ k) pos₂)
    (div_digits e₁ e₂ pos₁.ne' pos₂.ne' shift low)
  have size : ((m₁ * 2 ^ k : ℕ) : ℚ) / m₂ * 2 ^ target = m₁ * 2 ^ e₁ / (m₂ * 2 ^ e₂) := by
    have exponent : (2 : ℚ) ^ k * 2 ^ target * 2 ^ e₂ = 2 ^ e₁ := by
      rw [← zpow_natCast, ← zpow_add₀ (by norm_num), ← zpow_add₀ (by norm_num)]
      congr 1
      omega
    rw [← exponent]
    push_cast
    have posM : (m₂ : ℚ) ≠ 0 := by exact_mod_cast pos₂.ne'
    field_simp
  rw [← rounded_sign, signFactor_div, size, ← mul_div_mul_comm] at quotient
  exact quotient

theorem div_value {a b : UnpackedFloat} :
    Canonical (UnpackedFloat.div Format.binary64 a b) ∧
      unpackedValue? (UnpackedFloat.div Format.binary64 a b) =
        roundedQuotient (unpackedValue? a) (unpackedValue? b) b.isInf := by
  have zero (q : ℚ) : roundedQuotient (some 0) (some q) false = if q = 0 then none else some 0 := by
    simp [roundedQuotient, rounded_zero]
  have byZero (first : Option ℚ) : roundedQuotient first (some 0) false = none := by
    cases first <;> simp [roundedQuotient]
  cases a with
  | notANumber => cases b <;> exact ⟨trivial, rfl⟩
  | infinity s => cases b <;> exact ⟨trivial, rfl⟩
  | zero s =>
    cases b with
    | infinity t => exact ⟨trivial, rfl⟩
    | notANumber => exact ⟨trivial, rfl⟩
    | zero t => exact ⟨trivial, (byZero _).symm⟩
    | finite t n f posB =>
      refine ⟨trivial, ?_⟩
      have nonzero := signed_ne_zero t f posB
      simp [UnpackedFloat.div, UnpackedFloat.isInf, unpackedValue?, zero, nonzero]
  | finite s m e pos =>
    cases b with
    | infinity t => exact ⟨trivial, rfl⟩
    | notANumber => exact ⟨trivial, rfl⟩
    | zero t => exact ⟨trivial, (byZero _).symm⟩
    | finite t n f posB =>
      have quotient := div_finite s t e f pos posB
      have nonzero := signed_ne_zero t f posB
      refine ⟨quotient.1, quotient.2.trans ?_⟩
      simp [roundedQuotient, UnpackedFloat.isInf, unpackedValue?, nonzero]

end CheckCost.Number
