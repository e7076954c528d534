import CheckCost.Proofs.Number.Order

/-!
The double nearest to an integer. It is the integer rounded, unless the integer is beyond all finite
doubles.
-/
namespace CheckCost.Number

open Float.Model Float.Model.UnpackedFloat

/-- A double that some unpacked one with this value was packed into. -/
def IsPacked (x : Float) (v : ℚ) : Prop :=
  ∃ unpacked, Canonical unpacked ∧ unpackedValue? unpacked = some v ∧
    x = .ofModel (Float.Model.pack unpacked)

theorem IsPacked.isInf_iff {x : Float} {v : ℚ} (packed : IsPacked x v) :
    x.isInf = true ↔ ¬ |v| < 2 ^ (1024 : ℤ) := by
  obtain ⟨unpacked, canonical, value, rfl⟩ := packed
  exact isInf_pack canonical value

theorem IsPacked.value {x : Float} {v : ℚ} (packed : IsPacked x v) : value? x = fit v := by
  obtain ⟨unpacked, canonical, value, rfl⟩ := packed
  rw [unpack_pack_value canonical, value, Option.bind_some]

theorem value?_toFloat (n : UInt64) (small : n.toNat < 2 ^ 53) : value? n.toFloat = some (n.toNat : ℚ) := by
  have rounds := normalize_value n.toNat 0 .positive
  have few : IsRounded (n.toNat : ℚ) := by
    have := isRounded_int (n := n.toNat) (by rw [Nat.abs_cast]; exact_mod_cast small)
    exact_mod_cast this
  have size : |(n.toNat : ℚ)| < 2 ^ (1024 : ℤ) := by
    rw [Nat.abs_cast]
    calc (n.toNat : ℚ) < 2 ^ (53 : ℤ) := by exact_mod_cast small
      _ ≤ 2 ^ (1024 : ℤ) := zpow_le_zpow_right₀ (by norm_num) (by norm_num)
  refine (unpack_pack_value rounds.1).trans ?_
  rw [rounds.2, Option.bind_some, zpow_zero, mul_one, Int.cast_natCast, few.rounded_eq, fit, if_pos size]

/-- Any other number with zeros at its end is rounded with enough digits in reserve. -/
theorem ofScientific_value {n : ℕ} (pos : n ≠ 0) {e : ℕ} (near : e ≤ 2 ^ 11) :
    Canonical (UnpackedFloat.ofScientific Format.binary64 n e) ∧
      unpackedValue? (UnpackedFloat.ofScientific Format.binary64 n e) = some (rounded (n * 10 ^ e)) := by
  have wide : n <<< 53 * 10 ^ e = n * 10 ^ e * 2 ^ 53 := by
    rw [Nat.shiftLeft_eq]
    ring
  have enough : (-53 + 0 : ℤ) ≤
      Format.binary64.targetExponent (totalExponent (n <<< 53 * 10 ^ e) (-53 + 0)) := by
    rw [targetExponent_eq, totalExponent, wide, log2_mul_two_pow (by positivity)]
    omega
  have rounds := roundWithAccuracy_value (.positive * .positive) (describes_exact (n <<< 53 * 10 ^ e)) enough
  have digits : UnpackedFloat.ofScientific Format.binary64 n e =
      roundWithAccuracy Format.binary64 (.positive * .positive) (n <<< 53 * 10 ^ e) (-53 + 0) .exact := by
    have limit : ¬ (e : ℤ) > 2 ^ Format.binary64.exponentBits := by
      have bits : (2 : ℤ) ^ Format.binary64.exponentBits = 2 ^ 11 := rfl
      rw [bits]
      omega
    have nonneg : ¬ (e : ℤ) < -(2 ^ Format.binary64.exponentBits + n.log2) := by
      have bits : (0 : ℤ) < 2 ^ Format.binary64.exponentBits := by positivity
      omega
    unfold UnpackedFloat.ofScientific
    rw [dif_neg pos, if_neg limit, if_neg nonneg, if_pos (Int.natCast_nonneg e)]
    rfl
  have value : signFactor (.positive * .positive) * rounded (((n <<< 53 * 10 ^ e : ℕ) : ℚ) * 2 ^ (-53 + 0 : ℤ)) =
      rounded (n * 10 ^ e) := by
    have cancel : ((2 ^ 53 : ℕ) : ℚ) * 2 ^ (-53 + 0 : ℤ) = 1 := by norm_num
    rw [signFactor_mul, wide, Nat.cast_mul, mul_assoc _ _ ((2 : ℚ) ^ (-53 + 0 : ℤ)), cancel, mul_one]
    simp [signFactor]
  rwa [value, ← digits] at rounds

theorem isPacked_ofNat (n : ℕ) : IsPacked (Float.ofNat n) (rounded n) := by
  have scientific : Float.ofNat n = Float.ofScientific n false 0 := rfl
  rw [scientific]
  unfold Float.ofScientific
  split
  · rename_i small
    have whole : n.toUInt64.toNat = n := by
      rw [Nat.toUInt64_eq, UInt64.toNat_ofNat']
      omega
    have value := value?_toFloat n.toUInt64 (by rw [whole]; exact small.1)
    have one : value? (Float.ofBits 0x3FF0000000000000) = some 1 := by decide +kernel
    have product := mul_value (canonical_unpack n.toUInt64.toFloat)
      (canonical_unpack (Float.ofBits 0x3FF0000000000000))
    refine ⟨_, product.1, ?_, rfl⟩
    rw [product.2, ← value?_eq, ← value?_eq, value, one, whole]
    simp [roundedWith]
  · rename_i large
    have pos : n ≠ 0 := by
      rintro rfl
      exact large (by decide)
    have rounds := ofScientific_value pos (Nat.zero_le _)
    rw [pow_zero, mul_one] at rounds
    exact ⟨_, rounds.1, rounds.2, rfl⟩

theorem neg_unpacked {x : UnpackedFloat} (canonical : Canonical x) :
    Canonical x.neg ∧ unpackedValue? x.neg = (unpackedValue? x).map Neg.neg := by
  cases x with
  | notANumber => exact ⟨trivial, rfl⟩
  | infinity sign => exact ⟨trivial, rfl⟩
  | zero sign => exact ⟨trivial, by simp [UnpackedFloat.neg, unpackedValue?]⟩
  | finite sign m e pos =>
    refine ⟨canonical, ?_⟩
    simp [UnpackedFloat.neg, unpackedValue?, signFactor_neg]

theorem value?_neg (x : Float) : value? x.neg = (value? x).map Neg.neg := by
  have negated := neg_unpacked (canonical_unpack x)
  refine (unpack_pack_value negated.1).trans ?_
  rw [negated.2, ← value?_eq]
  cases value : value? x with
  | none => rfl
  | some v =>
    rw [Option.map_some, Option.bind_some, fit, abs_neg, if_pos (value?_lt value)]

theorem isInf_neg (x : Float) : x.neg.isInf = x.isInf := by
  have value := value?_neg x
  cases number : value? x with
  | some v =>
    rw [number, Option.map_some] at value
    rw [isInf_of_value? value, isInf_of_value? number]
  | none =>
    have packed : x.neg.isInf = (Double.ofNat (UnpackedFloat.pack Format.binary64 x.toModel.unpack.neg).toNat).isInfinite :=
      (isInf_eq _).trans (congrArg _ (double_pack _))
    rw [packed]
    show _ = x.toModel.unpack.isInf
    rw [value?_eq] at number
    cases unpacked : x.toModel.unpack with
    | notANumber => decide
    | infinity sign => cases sign <;> decide
    | zero sign =>
      rw [unpacked] at number
      cases number
    | finite sign m e pos =>
      rw [unpacked] at number
      cases number

theorem isInf_ofInt (n : ℤ) : (Float.ofInt n).isInf = true ↔ ¬ |rounded n| < 2 ^ (1024 : ℤ) := by
  cases n with
  | ofNat n => exact (isPacked_ofNat n).isInf_iff
  | negSucc n =>
    have negated : ((Int.negSucc n : ℤ) : ℚ) = -((n + 1 : ℕ) : ℚ) := by push_cast; ring
    rw [negated, rounded_neg, abs_neg, ← (isPacked_ofNat (n + 1)).isInf_iff]
    exact Bool.eq_iff_iff.mp (isInf_neg _)

/-- An integer has a nearest finite double up to the middle between the largest one and the next power of
two. -/
theorem nearest_ok_iff (n : ℤ) : (∃ x, nearest n = .ok x) ↔ |n| < 2 ^ 1024 - 2 ^ 970 := by
  have bound : |(n : ℚ)| < 2 ^ (1024 : ℤ) - 2 ^ (970 : ℤ) ↔ |n| < 2 ^ 1024 - 2 ^ 970 := by
    rw [← Int.cast_abs]
    exact_mod_cast Iff.rfl
  rw [← bound, ← abs_rounded_lt_iff]
  unfold nearest
  dsimp only
  split
  · rename_i high
    refine iff_of_false ?_ ((isInf_ofInt n).mp high)
    rintro ⟨x, eq⟩
    cases eq
  · rename_i fits
    exact iff_of_true ⟨_, rfl⟩ (not_not.mp (mt (isInf_ofInt n).mpr fits))

end CheckCost.Number
