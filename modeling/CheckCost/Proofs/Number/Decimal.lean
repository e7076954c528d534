import CheckCost.Number.Numeral
import CheckCost.Proofs.Number.Integers

/-!
The double that decimal digits are read as. It is the number that they write, rounded, unless that is too large
for a double; digits too far from the point are not even looked at.
-/
namespace CheckCost.Number

open Float.Model Float.Model.UnpackedFloat

theorem unpacked_quotient {n e : ℕ} (pos : n ≠ 0) (some : 0 < e) (near : e ≤ 2 ^ 11 + n.log2) :
    Canonical (UnpackedFloat.ofScientific Format.binary64 n (-e)) ∧
      unpackedValue? (UnpackedFloat.ofScientific Format.binary64 n (-e)) = Option.some (rounded (n / 10 ^ e)) := by
  have power : 0 < 10 ^ e := by positivity
  have quotient := div_finite .positive .positive 0 0 (Nat.pos_of_ne_zero pos) power
  have digits : UnpackedFloat.ofScientific Format.binary64 n (-e) =
      UnpackedFloat.div Format.binary64 (.finite .positive n 0 (Nat.pos_of_ne_zero pos))
        (.finite .positive (10 ^ e) 0 power) := by
    have limit : (0 : ℤ) < 2 ^ Format.binary64.exponentBits := by positivity
    have bits : (2 : ℤ) ^ Format.binary64.exponentBits = 2 ^ 11 := rfl
    have few : ¬ (-e : ℤ) < -(2 ^ Format.binary64.exponentBits + n.log2) := by
      rw [bits]
      omega
    unfold UnpackedFloat.ofScientific
    rw [dif_neg pos, if_neg (by omega), if_neg few, if_neg (by omega)]
    simp only [neg_neg, Int.toNat_natCast]
  have value : signFactor .positive * ((n : ℚ) * 2 ^ (0 : ℤ)) /
      (signFactor .positive * ((10 ^ e : ℕ) * 2 ^ (0 : ℤ))) = n / 10 ^ e := by
    simp [signFactor]
  rwa [value, ← digits] at quotient

theorem value?_powerOfTen : ∀ e, ∀ listed : e < Float.exactlyRepresentablePowersOfTen.size,
    value? Float.exactlyRepresentablePowersOfTen[e] = some (10 ^ e) := by decide +kernel

theorem toFloat_toUInt64 {n : ℕ} (few : n < 2 ^ 53) : value? n.toUInt64.toFloat = some (n : ℚ) := by
  have whole : n.toUInt64.toNat = n := by
    rw [Nat.toUInt64_eq, UInt64.toNat_ofNat']
    omega
  have value := value?_toFloat n.toUInt64 (by rwa [whole])
  rwa [whole] at value

theorem value?_product {n e : ℕ} (pos : n ≠ 0) (near : e ≤ 2 ^ 11) :
    value? (Float.ofScientific n false e) = fit (rounded (n * 10 ^ e)) := by
  unfold Float.ofScientific
  by_cases fast : n < 2 ^ 53 ∧ e ≤ 22
  · have listed : e < Float.exactlyRepresentablePowersOfTen.size := Nat.lt_succ_of_le fast.2
    rw [dif_pos fast]
    dsimp only
    rw [if_neg (by decide), value?_mul, toFloat_toUInt64 fast.1, value?_powerOfTen e listed]
    rfl
  · rw [dif_neg fast]
    have rounds := ofScientific_value pos near
    exact (unpack_pack_value rounds.1).trans (by rw [rounds.2]; rfl)

theorem value?_quotient {n e : ℕ} (pos : n ≠ 0) (some : 0 < e) (near : e ≤ 2 ^ 11 + n.log2) :
    value? (Float.ofScientific n true e) = fit (rounded (n / 10 ^ e)) := by
  unfold Float.ofScientific
  by_cases fast : n < 2 ^ 53 ∧ e ≤ 22
  · have listed : e < Float.exactlyRepresentablePowersOfTen.size := Nat.lt_succ_of_le fast.2
    have power := value?_powerOfTen e listed
    rw [dif_pos fast]
    dsimp only
    rw [if_pos rfl, value?_div, toFloat_toUInt64 fast.1, power, isInf_of_value? power]
    simp [roundedQuotient]
  · rw [dif_neg fast]
    dsimp only
    rw [if_pos rfl, Int.negOfNat_eq]
    have rounds := unpacked_quotient pos some near
    exact (unpack_pack_value rounds.1).trans (by rw [rounds.2]; rfl)

/-! Digits by their number and the place of the first one. -/

theorem lt_pow_digits (n : ℕ) : n < 10 ^ (Nat.toDigits 10 n).length :=
  (Nat.length_toDigits_le_iff (by decide) Nat.length_toDigits_pos).mp le_rfl

theorem pow_digits_le {n : ℕ} (pos : n ≠ 0) : 10 ^ ((Nat.toDigits 10 n).length - 1) ≤ n := by
  have some := Nat.length_toDigits_pos (b := 10) (n := n)
  rcases Nat.eq_zero_or_pos ((Nat.toDigits 10 n).length - 1) with one | more
  · rw [one, pow_zero]
    omega
  · by_contra less
    have := (Nat.length_toDigits_le_iff (by decide) more).mpr (not_le.mp less)
    omega

theorem digits_le_log2 {n : ℕ} : (Nat.toDigits 10 n).length ≤ n.log2 + 1 := by
  rw [Nat.length_toDigits_le_iff (by decide) (Nat.succ_pos _)]
  exact Nat.lt_log2_self.trans_le (Nat.pow_le_pow_left (by decide) _)

theorem scaled_far {n : ℕ} {e : ℤ} (pos : n ≠ 0) (far : farPlace < e + (Nat.toDigits 10 n).length) :
    fit (rounded (n * 10 ^ e)) = none := by
  have large : (2 : ℚ) ^ (1024 : ℤ) ≤ n * 10 ^ e := by
    have digits : (10 : ℚ) ^ (((Nat.toDigits 10 n).length : ℤ) - 1) ≤ n := by
      have some := Nat.length_toDigits_pos (b := 10) (n := n)
      rw [← Nat.cast_one, ← Nat.cast_sub some, zpow_natCast]
      exact_mod_cast pow_digits_le pos
    calc (2 : ℚ) ^ (1024 : ℤ) ≤ 10 ^ (400 : ℤ) := by decide +kernel
      _ ≤ 10 ^ (((Nat.toDigits 10 n).length : ℤ) - 1 + e) := by
          unfold farPlace at far
          exact zpow_le_zpow_right₀ (by norm_num) (by omega)
      _ = 10 ^ (((Nat.toDigits 10 n).length : ℤ) - 1) * 10 ^ e := zpow_add₀ (by norm_num) _ _
      _ ≤ n * 10 ^ e := mul_le_mul_of_nonneg_right digits (by positivity)
  have := rounded_mono large
  rw [rounded_two_pow (by norm_num)] at this
  exact if_neg (not_lt.mpr (this.trans (le_abs_self _)))

theorem rounded_of_tiny {x : ℚ} (pos : 0 < x) (tiny : x < 2 ^ (-1075 : ℤ)) : rounded x = 0 := by
  have unit : (0 : ℚ) < 2 ^ (-1074 : ℤ) := by positivity
  have half : (2 : ℚ) ^ (-1074 : ℤ) = 2 * 2 ^ (-1075 : ℤ) := zpow_one_add₀ (by norm_num) (-1075)
  have grid : gridExponent x = -1074 := by
    refine gridExponent_eq le_rfl ?_ (Or.inl rfl) pos.ne'
    rw [abs_of_pos pos]
    exact tiny.trans (zpow_lt_zpow_right₀ (by norm_num) (by norm_num))
  have near : IsNearest (x / 2 ^ (-1074 : ℤ)) 0 := by
    left
    have scaled : x / 2 ^ (-1074 : ℤ) < 1 / 2 := by
      rw [div_lt_iff₀ unit, half]
      linarith
    rw [Int.cast_zero, sub_zero, abs_of_nonneg (by positivity)]
    linarith
  rw [rounded_eq_of_nearest grid near, Int.cast_zero, zero_mul]

theorem scaled_near {n : ℕ} {e : ℤ} (pos : n ≠ 0) (near : e + (Nat.toDigits 10 n).length < -farPlace) :
    rounded (n * 10 ^ e) = 0 := by
  refine rounded_of_tiny (by positivity) ?_
  have digits : (n : ℚ) ≤ 10 ^ ((Nat.toDigits 10 n).length : ℤ) := by exact_mod_cast (lt_pow_digits n).le
  calc (n : ℚ) * 10 ^ e ≤ 10 ^ ((Nat.toDigits 10 n).length : ℤ) * 10 ^ e :=
        mul_le_mul_of_nonneg_right digits (by positivity)
    _ = 10 ^ (((Nat.toDigits 10 n).length : ℤ) + e) := (zpow_add₀ (by norm_num) _ _).symm
    _ ≤ 10 ^ (-400 : ℤ) := by
        unfold farPlace at near
        exact zpow_le_zpow_right₀ (by norm_num) (by omega)
    _ < 2 ^ (-1075 : ℤ) := by decide +kernel

theorem value?_ofScientific {n : ℕ} {e : ℤ} (pos : n ≠ 0) (below : e ≤ 2 ^ 11) (above : -e ≤ 2 ^ 11 + n.log2) :
    value? (Float.ofScientific n (e < 0) e.natAbs) = fit (rounded (n * 10 ^ e)) := by
  rcases le_or_gt 0 e with nonneg | negative
  · obtain ⟨k, rfl⟩ := Int.eq_ofNat_of_zero_le nonneg
    rw [decide_eq_false (not_lt.mpr nonneg), Int.natAbs_natCast, zpow_natCast]
    exact value?_product pos (by exact_mod_cast below)
  · obtain ⟨k, same⟩ := Int.eq_ofNat_of_zero_le (neg_nonneg.mpr negative.le)
    obtain rfl : e = -(k : ℤ) := by omega
    rw [decide_eq_true negative, Int.natAbs_neg, Int.natAbs_natCast, zpow_neg, zpow_natCast, ← div_eq_mul_inv]
    exact value?_quotient pos (by omega) (by omega)

/-- The digits are read as the number that they write, rounded. -/
theorem value?_scaled (n : ℕ) (e : ℤ) : value? (scaled n e) = fit (rounded (n * 10 ^ e)) := by
  have none : value? 0.0 = fit 0 := by decide +kernel
  have beyond : value? (Float.ofScientific 1 false farPlace.toNat) = Option.none := by decide +kernel
  have log := digits_le_log2 (n := n)
  unfold scaled
  by_cases zero : n = 0
  · rw [if_pos zero, zero, Nat.cast_zero, zero_mul, rounded_zero, none]
  · rw [if_neg zero]
    dsimp only
    by_cases far : farPlace < e + (Nat.toDigits 10 n).length
    · rw [if_pos far, beyond, scaled_far zero far]
    · by_cases near : e + (Nat.toDigits 10 n).length < -farPlace
      · rw [if_neg far, if_pos near, scaled_near zero near, none]
      · rw [if_neg far, if_neg near]
        unfold farPlace at far near
        exact value?_ofScientific zero (by omega) (by omega)

end CheckCost.Number
