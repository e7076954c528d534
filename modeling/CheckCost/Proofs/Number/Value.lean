import CheckCost.Number.Binary
import CheckCost.Proofs.Number.Operations

/-!
The number that a double is, and what the operations on doubles make of it. A result that would be too
large is infinite.
-/
namespace CheckCost.Number

open Float.Model Float.Model.UnpackedFloat

/-- The number that a double is, unless it is infinite or undefined. -/
def Double.value? : Double → Option ℚ
  | .finite negative magnitude =>
    some ((if negative then -1 else 1) * (magnitude.m * 2 ^ magnitude.q))
  | _ => none

def Double.isInfinite : Double → Bool
  | .infinite _ => true
  | _ => false

def Double.isUndefined : Double → Bool
  | .undefined => true
  | _ => false

def value? (x : Float) : Option ℚ := (Double.ofFloat x).value?

/-- A number that is too large for a finite double is lost. -/
def fit (x : ℚ) : Option ℚ := if |x| < 2 ^ (1024 : ℤ) then some x else none

def Double.ofParts (negative : Bool) (exponent fraction : ℕ) : Double :=
  if exponent = 0x7FF then if fraction = 0 then .infinite negative else .undefined
  else if exponent = 0 then .finite negative ⟨fraction, -1074, false⟩
  else .finite negative ⟨2 ^ 52 + fraction, (exponent : ℤ) - 1075, fraction = 0 && 1 < exponent⟩

def Double.ofNat (bits : ℕ) : Double :=
  ofParts (bits / 2 ^ 63 % 2 == 1) (bits / 2 ^ 52 % 2 ^ 11) (bits % 2 ^ 52)

theorem Double.ofBits_eq (bits : UInt64) : Double.ofBits bits = ofNat bits.toNat := by
  have negative : (bits >>> 63 == 1) = (bits.toNat / 2 ^ 63 % 2 == 1) := by
    rw [Bool.eq_iff_iff, beq_iff_eq, beq_iff_eq, ← UInt64.toNat_inj, UInt64.toNat_shiftRight]
    have := bits.toNat_lt
    simp only [Nat.shiftRight_eq_div_pow]
    show bits.toNat / 2 ^ 63 = 1 ↔ _
    omega
  have exponent : ((bits >>> 52) &&& 0x7FF).toNat = bits.toNat / 2 ^ 52 % 2 ^ 11 := by
    rw [UInt64.toNat_and, UInt64.toNat_shiftRight, Nat.shiftRight_eq_div_pow]
    exact Nat.and_two_pow_sub_one_eq_mod _ 11
  have fraction : (bits &&& 0xFFFFFFFFFFFFF).toNat = bits.toNat % 2 ^ 52 := by
    rw [UInt64.toNat_and]
    exact Nat.and_two_pow_sub_one_eq_mod _ 52
  unfold Double.ofBits ofNat ofParts
  rw [negative, exponent, fraction]
  rfl

theorem unpackExponent_toNat (bits : BitVec Format.binary64.numBits) :
    (unpackExponent bits : BitVec Format.binary64.exponentBits).toNat = bits.toNat / 2 ^ 52 % 2 ^ 11 := by
  simp [unpackExponent, Nat.shiftRight_eq_div_pow]

theorem unpackMantissa_toNat (bits : BitVec Format.binary64.numBits) :
    (unpackMantissa bits : BitVec Format.binary64.mantissaBitsWithoutImplicit).toNat =
      bits.toNat % 2 ^ 52 := by
  simp [unpackMantissa]

theorem unpackSign_factor (bits : BitVec Format.binary64.numBits) :
    signFactor (Sign.ofBitVec (unpackSign bits)) = if bits.toNat / 2 ^ 63 % 2 == 1 then -1 else 1 := by
  have bit : (unpackSign bits).toNat = bits.toNat / 2 ^ 63 % 2 := by
    rw [← Nat.shiftRight_eq_div_pow]
    exact BitVec.extractLsb'_toNat 63 1 bits
  unfold Sign.ofBitVec
  rcases Nat.mod_two_eq_zero_or_one (bits.toNat / 2 ^ 63) with zero | one
  · have clear : unpackSign bits = 0#1 := BitVec.eq_of_toNat_eq (by rw [bit, zero]; rfl)
    rw [if_pos clear, zero]
    rfl
  · have set : unpackSign bits ≠ 0#1 := by
      intro clear
      rw [clear, one] at bit
      cases bit
    rw [if_neg set, one]
    rfl

/-- The two forms of a double agree. -/
structure Unpacks (x : UnpackedFloat) (double : Double) : Prop where
  canonical : Canonical x
  value : unpackedValue? x = double.value?
  infinite : x.isInf = double.isInfinite
  undefined : x.isNaN = double.isUndefined

theorem unpackExponent_full (bits : BitVec Format.binary64.numBits) :
    (unpackExponent bits : BitVec Format.binary64.exponentBits) = -1#_ ↔
      bits.toNat / 2 ^ 52 % 2 ^ 11 = 0x7FF := by
  rw [← BitVec.toNat_inj, unpackExponent_toNat]
  rfl

theorem unpackExponent_zero (bits : BitVec Format.binary64.numBits) :
    (unpackExponent bits : BitVec Format.binary64.exponentBits) = 0#_ ↔ bits.toNat / 2 ^ 52 % 2 ^ 11 = 0 := by
  rw [← BitVec.toNat_inj, unpackExponent_toNat]
  rfl

theorem unpackMantissa_zero (bits : BitVec Format.binary64.numBits) :
    (unpackMantissa bits : BitVec Format.binary64.mantissaBitsWithoutImplicit) = 0#_ ↔
      bits.toNat % 2 ^ 52 = 0 := by
  rw [← BitVec.toNat_inj, unpackMantissa_toNat]
  rfl

/-- The first digit of a full mantissa is not stored. -/
theorem implicit_toNat (bits : BitVec Format.binary64.numBits) :
    (1#1 ++ (unpackMantissa bits : BitVec Format.binary64.mantissaBitsWithoutImplicit)).toNat =
      2 ^ 52 + bits.toNat % 2 ^ 52 := by
  rw [BitVec.toNat_append, ← Nat.shiftLeft_add_eq_or_of_lt (BitVec.isLt _), unpackMantissa_toNat]
  rfl

theorem unpacks (bits : BitVec Format.binary64.numBits) :
    Unpacks (UnpackedFloat.unpack Format.binary64 bits) (Double.ofNat bits.toNat) := by
  have exponent := unpackExponent_toNat bits
  have fraction := unpackMantissa_toNat bits
  have sign := unpackSign_factor bits
  have implicit := implicit_toNat bits
  have size := Nat.mod_lt bits.toNat (by norm_num : 0 < 2 ^ 52)
  have range := Nat.mod_lt (bits.toNat / 2 ^ 52) (by norm_num : 0 < 2 ^ 11)
  unfold UnpackedFloat.unpack Double.ofNat Double.ofParts
  dsimp only
  by_cases top : bits.toNat / 2 ^ 52 % 2 ^ 11 = 0x7FF
  · rw [if_pos ((unpackExponent_full bits).mpr top), if_pos top]
    by_cases zero : bits.toNat % 2 ^ 52 = 0
    · rw [if_pos ((unpackMantissa_zero bits).mpr zero), if_pos zero]
      exact ⟨trivial, rfl, rfl, rfl⟩
    · rw [if_neg (mt (unpackMantissa_zero bits).mp zero), if_neg zero]
      exact ⟨trivial, rfl, rfl, rfl⟩
  · rw [if_neg (mt (unpackExponent_full bits).mp top), if_neg top]
    by_cases low : bits.toNat / 2 ^ 52 % 2 ^ 11 = 0
    · rw [if_pos ((unpackExponent_zero bits).mpr low), if_pos low]
      by_cases zero : bits.toNat % 2 ^ 52 = 0
      · rw [dif_pos ((unpackMantissa_zero bits).mpr zero)]
        refine ⟨trivial, ?_, rfl, rfl⟩
        simp only [unpackedValue?, Double.value?, zero, Nat.cast_zero, zero_mul, mul_zero]
      · rw [dif_neg (mt (unpackMantissa_zero bits).mp zero)]
        have same : ((unpackExponent bits : BitVec Format.binary64.exponentBits).toNat : ℤ) -
            (Format.binary64.exponentBias + Format.binary64.mantissaBitsWithoutImplicit) + 1 = -1074 := by
          rw [exponent, low]
          rfl
        refine ⟨⟨by rw [fraction]; omega, same.ge, Or.inr same⟩, ?_, rfl, rfl⟩
        simp only [unpackedValue?, Double.value?, same, sign, fraction]
    · rw [if_neg (mt (unpackExponent_zero bits).mp low), if_neg low]
      have same : ((unpackExponent bits : BitVec Format.binary64.exponentBits).toNat : ℤ) -
          (Format.binary64.exponentBias + Format.binary64.mantissaBitsWithoutImplicit) =
            (bits.toNat / 2 ^ 52 % 2 ^ 11 : ℕ) - 1075 := by
        rw [exponent]
        rfl
      refine ⟨⟨by rw [implicit]; omega, by rw [same]; omega, Or.inl (by rw [implicit]; omega)⟩, ?_, rfl, rfl⟩
      simp only [unpackedValue?, Double.value?, same, sign, implicit]

theorem unpacks_float (x : Float) : Unpacks x.toModel.unpack (Double.ofFloat x) := by
  unfold Double.ofFloat Float.toBits
  rw [Double.ofBits_eq]
  exact unpacks x.toModel.toBits.toBitVec

theorem value?_eq (x : Float) : value? x = unpackedValue? x.toModel.unpack :=
  (unpacks_float x).value.symm

theorem canonical_unpack (x : Float) : Canonical x.toModel.unpack := (unpacks_float x).canonical

theorem isInf_eq (x : Float) : x.isInf = (Double.ofFloat x).isInfinite := (unpacks_float x).infinite

theorem isNaN_eq (x : Float) : x.isNaN = (Double.ofFloat x).isUndefined := (unpacks_float x).undefined

theorem isSome_value? (x : Float) : (value? x).isSome = (!x.isInf && !x.isNaN) := by
  rw [isInf_eq, isNaN_eq, value?]
  cases Double.ofFloat x <;> rfl

theorem isFinite_eq (x : Float) : x.isFinite = (value? x).isSome := by
  rw [value?_eq]
  show x.toModel.unpack.isFinite = _
  cases x.toModel.unpack <;> rfl

theorem isNaN_of_value? {x : Float} {v : ℚ} (value : value? x = some v) : x.isNaN = false := by
  have number := isSome_value? x
  rw [value, Option.isSome_some, eq_comm, Bool.and_eq_true, Bool.not_eq_true', Bool.not_eq_true'] at number
  exact number.2

theorem isInf_of_value? {x : Float} {v : ℚ} (value : value? x = some v) : x.isInf = false := by
  have number := isSome_value? x
  rw [value, Option.isSome_some, eq_comm, Bool.and_eq_true, Bool.not_eq_true', Bool.not_eq_true'] at number
  exact number.1

theorem packComponents_toNat (sign : UnpackedFloat.Sign)
    (exponent : BitVec Format.binary64.exponentBits)
    (fraction : BitVec Format.binary64.mantissaBitsWithoutImplicit) :
    (packComponents Format.binary64 sign exponent fraction).toNat =
      (sign.toBitVec.toNat * 2 ^ 11 + exponent.toNat) * 2 ^ 52 + fraction.toNat := by
  unfold packComponents
  rw [BitVec.toNat_append, BitVec.toNat_append, ← Nat.shiftLeft_add_eq_or_of_lt (BitVec.isLt _),
    ← Nat.shiftLeft_add_eq_or_of_lt (BitVec.isLt _), Nat.shiftLeft_eq, Nat.shiftLeft_eq]

theorem ofNat_packComponents (sign : UnpackedFloat.Sign)
    (exponent : BitVec Format.binary64.exponentBits)
    (fraction : BitVec Format.binary64.mantissaBitsWithoutImplicit) :
    Double.ofNat (packComponents Format.binary64 sign exponent fraction).toNat =
      Double.ofParts (sign.toBitVec.toNat == 1) exponent.toNat fraction.toNat := by
  rw [packComponents_toNat]
  have small : exponent.toNat < 2 ^ 11 := exponent.isLt
  have less : fraction.toNat < 2 ^ 52 := fraction.isLt
  have bit : sign.toBitVec.toNat < 2 := sign.toBitVec.isLt
  generalize sign.toBitVec.toNat = s at bit ⊢
  generalize exponent.toNat = e at small ⊢
  generalize fraction.toNat = f at less ⊢
  unfold Double.ofNat
  have first : ((s * 2 ^ 11 + e) * 2 ^ 52 + f) / 2 ^ 63 % 2 = s := by omega
  have middle : ((s * 2 ^ 11 + e) * 2 ^ 52 + f) / 2 ^ 52 % 2 ^ 11 = e := by omega
  have last : ((s * 2 ^ 11 + e) * 2 ^ 52 + f) % 2 ^ 52 = f := by omega
  rw [first, middle, last]

theorem signFactor_eq (sign : UnpackedFloat.Sign) :
    signFactor sign = if sign.toBitVec.toNat == 1 then -1 else 1 := by
  cases sign <;> rfl

theorem IsCanonical.abs_lt_iff {m : ℕ} {e : ℤ} (canonical : IsCanonical m e) (sign : UnpackedFloat.Sign) :
    |signFactor sign * ((m : ℚ) * 2 ^ e)| < 2 ^ (1024 : ℤ) ↔ e ≤ 971 := by
  have size : |signFactor sign * ((m : ℚ) * 2 ^ e)| = m * 2 ^ e := by
    rw [abs_mul, abs_of_nonneg (by positivity : (0 : ℚ) ≤ m * 2 ^ e)]
    cases sign <;> simp [signFactor]
  rw [size]
  constructor
  · intro less
    by_contra high
    have full : (2 : ℚ) ^ (52 : ℤ) ≤ m := by
      exact_mod_cast canonical.full.resolve_right (by omega)
    have large : (2 : ℚ) ^ (1024 : ℤ) ≤ m * 2 ^ e := by
      calc (2 : ℚ) ^ (1024 : ℤ) ≤ 2 ^ (52 + e) := zpow_le_zpow_right₀ (by norm_num) (by omega)
        _ = 2 ^ (52 : ℤ) * 2 ^ e := zpow_add₀ (by norm_num) _ _
        _ ≤ m * 2 ^ e := mul_le_mul_of_nonneg_right full (by positivity)
    exact absurd less (not_lt.mpr large)
  · intro low
    have few : (m : ℚ) < 2 ^ (53 : ℤ) := by exact_mod_cast canonical.few
    calc (m : ℚ) * 2 ^ e < 2 ^ (53 : ℤ) * 2 ^ e := mul_lt_mul_of_pos_right few (by positivity)
      _ = 2 ^ (53 + e) := (zpow_add₀ (by norm_num) _ _).symm
      _ ≤ 2 ^ (1024 : ℤ) := zpow_le_zpow_right₀ (by norm_num) (by omega)

/-- The exponent is stored with an offset, and the first of 53 digits is not. -/
theorem pack_finite (sign : UnpackedFloat.Sign) {m : ℕ} {e : ℤ} (pos : 0 < m) :
    UnpackedFloat.pack Format.binary64 (.finite sign m e pos) =
      if 2 ^ 11 ≤ (e + 1075).toNat + 1 then packedInfinity Format.binary64 sign
      else if m.log2 + 1 = 53 then
        packComponents Format.binary64 sign (BitVec.ofNat 11 (e + 1075).toNat) (BitVec.ofNat 52 m)
      else packComponents Format.binary64 sign 0#11 (BitVec.ofNat 52 m) := by
  have bias : e + Format.binary64.exponentBias + Format.binary64.mantissaBitsWithoutImplicit = e + 1075 := by
    rw [add_assoc]
    rfl
  unfold UnpackedFloat.pack
  simp only [bias]
  rfl

theorem pack_overflow (sign : UnpackedFloat.Sign) {m : ℕ} {e : ℤ} (pos : 0 < m) (high : ¬ e ≤ 971) :
    UnpackedFloat.pack Format.binary64 (.finite sign m e pos) = packedInfinity Format.binary64 sign := by
  rw [pack_finite, if_pos (by omega)]

theorem value_pack_finite (sign : UnpackedFloat.Sign) {m : ℕ} {e : ℤ} (pos : 0 < m)
    (canonical : IsCanonical m e) (high : e ≤ 971) :
    (Double.ofNat (UnpackedFloat.pack Format.binary64 (.finite sign m e pos)).toNat).value? =
      some (signFactor sign * (m * 2 ^ e)) := by
  have small := canonical.few
  have least := canonical.least
  have width : m.log2 + 1 = 53 ↔ 2 ^ 52 ≤ m := by
    have := (Nat.log2_lt pos.ne').mpr small
    rw [← Nat.le_log2 pos.ne']
    omega
  rw [pack_finite, if_neg (by omega)]
  by_cases full : 2 ^ 52 ≤ m
  · have exponent : (BitVec.ofNat 11 (e + 1075).toNat).toNat = (e + 1075).toNat := by
      rw [BitVec.toNat_ofNat]
      omega
    have fraction : (BitVec.ofNat 52 m).toNat = m - 2 ^ 52 := by
      rw [BitVec.toNat_ofNat]
      omega
    have whole : 2 ^ 52 + (m - 2 ^ 52) = m := by omega
    have place : (((e + 1075).toNat : ℕ) : ℤ) - 1075 = e := by omega
    rw [if_pos (width.mpr full), ofNat_packComponents, exponent, fraction, Double.ofParts,
      if_neg (by omega), if_neg (by omega)]
    simp only [Double.value?, whole, place, signFactor_eq]
  · have subnormal : e = -1074 := canonical.full.resolve_left full
    have fraction : (BitVec.ofNat 52 m).toNat = m := Nat.mod_eq_of_lt (not_le.mp full)
    rw [if_neg (mt width.mp full), ofNat_packComponents, fraction, Double.ofParts, if_neg (by decide),
      if_pos (by decide)]
    simp only [Double.value?, subnormal, signFactor_eq]

/-- Packing keeps a finite double but for one that is too large. -/
theorem value_pack {x : UnpackedFloat} (canonical : Canonical x) :
    (Double.ofNat (UnpackedFloat.pack Format.binary64 x).toNat).value? = (unpackedValue? x).bind fit := by
  cases x with
  | notANumber => decide
  | infinity sign => cases sign <;> decide
  | zero sign =>
    have bits : Double.ofNat (UnpackedFloat.pack Format.binary64 (.zero sign)).toNat =
        Double.ofParts (sign.toBitVec.toNat == 1) 0 0 := ofNat_packComponents sign 0 0
    rw [bits]
    simp [Double.ofParts, Double.value?, unpackedValue?, fit]
  | finite sign m e pos =>
    have canonical : IsCanonical m e := canonical
    have value : unpackedValue? (.finite sign m e pos) = some (signFactor sign * (m * 2 ^ e)) := rfl
    rw [value, Option.bind_some]
    unfold fit
    simp only [canonical.abs_lt_iff sign]
    by_cases high : e ≤ 971
    · rw [if_pos high]
      exact value_pack_finite sign pos canonical high
    · rw [pack_overflow sign pos high, if_neg high]
      cases sign <;> decide

theorem double_pack (x : UnpackedFloat) :
    Double.ofFloat (.ofModel (Float.Model.pack x)) =
      Double.ofNat (UnpackedFloat.pack Format.binary64 x).toNat := by
  unfold Double.ofFloat Float.toBits
  rw [Double.ofBits_eq]
  rfl

theorem unpack_pack_value {x : UnpackedFloat} (canonical : Canonical x) :
    value? (.ofModel (Float.Model.pack x)) = (unpackedValue? x).bind fit := by
  unfold value?
  rw [double_pack]
  exact value_pack canonical

theorem isInf_pack {x : UnpackedFloat} {v : ℚ} (canonical : Canonical x) (value : unpackedValue? x = some v) :
    (Float.ofModel (Float.Model.pack x)).isInf = true ↔ ¬ |v| < 2 ^ (1024 : ℤ) := by
  have packed := unpack_pack_value canonical
  rw [value, Option.bind_some, fit] at packed
  have number := isSome_value? (.ofModel (Float.Model.pack x))
  by_cases small : |v| < 2 ^ (1024 : ℤ)
  · rw [packed, if_pos small] at number
    simp_all
  · refine iff_of_true ?_ small
    rw [isInf_eq, double_pack]
    cases x with
    | notANumber => cases value
    | infinity sign => cases value
    | zero sign =>
      cases value
      exact absurd (by simp) small
    | finite sign m e pos =>
      cases value
      rw [pack_overflow sign pos (mt (IsCanonical.abs_lt_iff canonical sign).mpr small)]
      cases sign <;> decide

/-- A sum of doubles is their exact sum, rounded. -/
theorem value?_add (x y : Float) :
    value? (x + y) = (roundedWith (· + ·) (value? x) (value? y)).bind fit := by
  have sum := add_value (canonical_unpack x) (canonical_unpack y)
  rw [value?_eq x, value?_eq y, ← sum.2]
  exact unpack_pack_value sum.1

theorem value?_mul (x y : Float) :
    value? (x * y) = (roundedWith (· * ·) (value? x) (value? y)).bind fit := by
  have product := mul_value (canonical_unpack x) (canonical_unpack y)
  rw [value?_eq x, value?_eq y, ← product.2]
  exact unpack_pack_value product.1

theorem value?_div (x y : Float) :
    value? (x / y) = (roundedQuotient (value? x) (value? y) y.isInf).bind fit := by
  have quotient := div_value (a := x.toModel.unpack) (b := y.toModel.unpack)
  rw [value?_eq x, value?_eq y]
  refine (unpack_pack_value quotient.1).trans ?_
  rw [quotient.2]
  rfl

end CheckCost.Number
