import CheckCost.Proofs.Number.Value
import Mathlib.Order.Compare

/-!
The order of doubles is the order of numbers, if an infinite double lies where the next double after the
finite ones would.
-/
namespace CheckCost.Number

open Float.Model Float.Model.UnpackedFloat

def unpackedLevel : UnpackedFloat → ℚ
  | .infinity sign => signFactor sign * 2 ^ (1024 : ℤ)
  | x => (unpackedValue? x).getD 0

/-- The place of a double in the order of numbers. -/
def level (x : Float) : ℚ := unpackedLevel x.toModel.unpack

theorem Double.value?_lt {bits : ℕ} {v : ℚ} (value : (Double.ofNat bits).value? = some v) :
    |v| < 2 ^ (1024 : ℤ) := by
  have fraction := Nat.mod_lt bits (by norm_num : 0 < 2 ^ 52)
  have range := Nat.mod_lt (bits / 2 ^ 52) (by norm_num : 0 < 2 ^ 11)
  have sign (negative : Bool) (x : ℚ) : |(if negative then -1 else 1) * x| = |x| := by
    cases negative <;> simp
  unfold Double.ofNat Double.ofParts at value
  split at value
  · split at value <;> cases value
  · split at value
    · cases value
      rw [sign, abs_of_nonneg (by positivity)]
      have few : ((bits % 2 ^ 52 : ℕ) : ℚ) ≤ 2 ^ (52 : ℤ) := by exact_mod_cast fraction.le
      calc ((bits % 2 ^ 52 : ℕ) : ℚ) * 2 ^ (-1074 : ℤ) ≤ 2 ^ (52 : ℤ) * 2 ^ (-1074 : ℤ) :=
            mul_le_mul_of_nonneg_right few (by positivity)
        _ < 2 ^ (1024 : ℤ) := by
            rw [← zpow_add₀ (by norm_num)]
            exact zpow_lt_zpow_right₀ (by norm_num) (by norm_num)
    · cases value
      rw [sign, abs_of_nonneg (by positivity)]
      have few : ((2 ^ 52 + bits % 2 ^ 52 : ℕ) : ℚ) < 2 ^ (53 : ℤ) := by
        exact_mod_cast (by omega : 2 ^ 52 + bits % 2 ^ 52 < 2 ^ 53)
      calc ((2 ^ 52 + bits % 2 ^ 52 : ℕ) : ℚ) * 2 ^ ((bits / 2 ^ 52 % 2 ^ 11 : ℕ) - 1075 : ℤ) <
            2 ^ (53 : ℤ) * 2 ^ ((bits / 2 ^ 52 % 2 ^ 11 : ℕ) - 1075 : ℤ) :=
            mul_lt_mul_of_pos_right few (by positivity)
        _ ≤ 2 ^ (1024 : ℤ) := by
            rw [← zpow_add₀ (by norm_num)]
            exact zpow_le_zpow_right₀ (by norm_num) (by omega)

theorem value?_lt {x : Float} {v : ℚ} (value : value? x = some v) : |v| < 2 ^ (1024 : ℤ) := by
  unfold value? Double.ofFloat at value
  rw [Double.ofBits_eq] at value
  exact Double.value?_lt value

theorem level_eq {x : Float} {v : ℚ} (value : value? x = some v) : level x = v := by
  rw [value?_eq] at value
  unfold level
  cases unpacked : x.toModel.unpack <;> rw [unpacked] at value
  · cases value
  · cases value
  · rw [unpackedLevel, value]
    · rfl
    · intro sign same
      cases same
  · rw [unpackedLevel, value]
    · rfl
    · intro sign same
      cases same

/-- Of two positive doubles the one with the larger exponent is larger, for its mantissa is full. -/
theorem IsCanonical.compares {m₁ m₂ : ℕ} {e₁ e₂ : ℤ} (canonical₁ : IsCanonical m₁ e₁)
    (canonical₂ : IsCanonical m₂ e₂) :
    ((compare e₁ e₂).then (compare m₁ m₂)).Compares ((m₁ : ℚ) * 2 ^ e₁) (m₂ * 2 ^ e₂) := by
  have larger {m n : ℕ} {e f : ℤ} (canonicalM : IsCanonical m e) (canonicalN : IsCanonical n f)
      (less : e < f) : (m : ℚ) * 2 ^ e < n * 2 ^ f := by
    have least := canonicalM.least
    have few : (m : ℚ) < 2 ^ (53 : ℤ) := by exact_mod_cast canonicalM.few
    have full : (2 : ℚ) ^ (52 : ℤ) ≤ n := by exact_mod_cast canonicalN.full.resolve_right (by omega)
    calc (m : ℚ) * 2 ^ e < 2 ^ (53 : ℤ) * 2 ^ e := mul_lt_mul_of_pos_right few (by positivity)
      _ = 2 ^ (53 + e) := (zpow_add₀ (by norm_num) _ _).symm
      _ ≤ 2 ^ (52 + f) := zpow_le_zpow_right₀ (by norm_num) (by omega)
      _ = 2 ^ (52 : ℤ) * 2 ^ f := zpow_add₀ (by norm_num) _ _
      _ ≤ n * 2 ^ f := mul_le_mul_of_nonneg_right full (by positivity)
  rcases lt_trichotomy e₁ e₂ with less | rfl | more
  · rw [compare_lt_iff_lt.mpr less]
    exact larger canonical₁ canonical₂ less
  · rw [compare_eq_iff_eq.mpr rfl]
    have unit : (0 : ℚ) < 2 ^ e₁ := by positivity
    rcases lt_trichotomy m₁ m₂ with less | rfl | more
    · rw [compare_lt_iff_lt.mpr less]
      exact mul_lt_mul_of_pos_right (by exact_mod_cast less) unit
    · rw [compare_eq_iff_eq.mpr rfl]
      exact rfl
    · rw [compare_gt_iff_gt.mpr more]
      exact mul_lt_mul_of_pos_right (by exact_mod_cast more) unit
  · rw [compare_gt_iff_gt.mpr more]
    exact larger canonical₂ canonical₁ more

/-- The comparison tells how two numbers lie to each other. -/
def Orders (result : Option Ordering) (x y : ℚ) : Prop := ∃ order, result = some order ∧ order.Compares x y

theorem orders_finite (s t : UnpackedFloat.Sign) {m n : ℕ} {e f : ℤ} (pos : 0 < m) (posN : 0 < n)
    (canonicalM : IsCanonical m e) (canonicalN : IsCanonical n f) :
    Orders (UnpackedFloat.compare (.finite s m e pos) (.finite t n f posN))
      (signFactor s * (m * 2 ^ e)) (signFactor t * (n * 2 ^ f)) := by
  have sizeM : (0 : ℚ) < m * 2 ^ e := by positivity
  have sizeN : (0 : ℚ) < n * 2 ^ f := by positivity
  cases s with
  | negative =>
    cases t with
    | negative =>
      refine ⟨_, rfl, ?_⟩
      rw [Ordering.compares_swap]
      have compares := canonicalM.compares canonicalN
      revert compares
      simp only [signFactor, neg_one_mul]
      cases ((compare e f).then (compare m n)) with
      | lt => exact neg_lt_neg
      | eq => exact fun same => (congrArg Neg.neg same).symm
      | gt => exact neg_lt_neg
    | positive =>
      refine ⟨.lt, rfl, ?_⟩
      show -1 * ((m : ℚ) * 2 ^ e) < 1 * (n * 2 ^ f)
      linarith
  | positive =>
    cases t with
    | negative =>
      refine ⟨.gt, rfl, ?_⟩
      show -1 * ((n : ℚ) * 2 ^ f) < 1 * (m * 2 ^ e)
      linarith
    | positive =>
      refine ⟨_, rfl, ?_⟩
      simp only [signFactor, one_mul]
      exact canonicalM.compares canonicalN

/-- An infinite double lies outside of all finite ones. -/
theorem orders_infinity (s : UnpackedFloat.Sign) {b : UnpackedFloat} {v : ℚ}
    (value : unpackedValue? b = some v) (small : |v| < 2 ^ (1024 : ℤ)) :
    Orders (UnpackedFloat.compare (.infinity s) b) (signFactor s * 2 ^ (1024 : ℤ)) v := by
  obtain ⟨low, high⟩ := abs_lt.mp small
  cases s with
  | negative =>
    refine ⟨.lt, ?_, (neg_one_mul ((2 : ℚ) ^ (1024 : ℤ))).trans_lt low⟩
    cases b <;> first | rfl | cases value
  | positive =>
    refine ⟨.gt, ?_, high.trans_eq (one_mul _).symm⟩
    cases b <;> first | rfl | cases value

theorem orders_to_infinity (t : UnpackedFloat.Sign) {a : UnpackedFloat} {v : ℚ}
    (value : unpackedValue? a = some v) (small : |v| < 2 ^ (1024 : ℤ)) :
    Orders (UnpackedFloat.compare a (.infinity t)) v (signFactor t * 2 ^ (1024 : ℤ)) := by
  obtain ⟨low, high⟩ := abs_lt.mp small
  cases t with
  | negative =>
    refine ⟨.gt, ?_, (neg_one_mul ((2 : ℚ) ^ (1024 : ℤ))).trans_lt low⟩
    rcases a with _ | _ | _ | ⟨s, m, e, pos⟩
    · cases value
    · cases value
    · rfl
    · cases s <;> rfl
  | positive =>
    refine ⟨.lt, ?_, high.trans_eq (one_mul _).symm⟩
    rcases a with _ | _ | _ | ⟨s, m, e, pos⟩
    · cases value
    · cases value
    · rfl
    · cases s <;> rfl

theorem orders_infinities (s t : UnpackedFloat.Sign) :
    Orders (UnpackedFloat.compare (.infinity s) (.infinity t)) (signFactor s * 2 ^ (1024 : ℤ))
      (signFactor t * 2 ^ (1024 : ℤ)) := by
  have bound : (0 : ℚ) < 2 ^ (1024 : ℤ) := by positivity
  cases s <;> cases t
  · exact ⟨.eq, rfl, rfl⟩
  · exact ⟨.lt, rfl, mul_lt_mul_of_pos_right (by norm_num [signFactor]) bound⟩
  · exact ⟨.gt, rfl, mul_lt_mul_of_pos_right (by norm_num [signFactor]) bound⟩
  · exact ⟨.eq, rfl, rfl⟩

theorem orders_zero (s : UnpackedFloat.Sign) {b : UnpackedFloat} {v : ℚ} (value : unpackedValue? b = some v) :
    Orders (UnpackedFloat.compare (.zero s) b) 0 v := by
  cases b with
  | notANumber => cases value
  | infinity t => cases value
  | zero t =>
    cases value
    exact ⟨.eq, rfl, rfl⟩
  | finite t n f pos =>
    cases value
    have size : (0 : ℚ) < n * 2 ^ f := by positivity
    cases t with
    | negative => exact ⟨.gt, rfl, (neg_one_mul ((n : ℚ) * 2 ^ f)).trans_lt (neg_lt_zero.mpr size)⟩
    | positive => exact ⟨.lt, rfl, size.trans_eq (one_mul _).symm⟩

theorem orders_to_zero (t s : UnpackedFloat.Sign) {m : ℕ} {e : ℤ} (pos : 0 < m) :
    Orders (UnpackedFloat.compare (.finite s m e pos) (.zero t)) (signFactor s * (m * 2 ^ e)) 0 := by
  have size : (0 : ℚ) < m * 2 ^ e := by positivity
  cases s with
  | negative => exact ⟨.lt, rfl, (neg_one_mul ((m : ℚ) * 2 ^ e)).trans_lt (neg_lt_zero.mpr size)⟩
  | positive => exact ⟨.gt, rfl, size.trans_eq (one_mul _).symm⟩

theorem orders_unpacked {a b : UnpackedFloat} (canonicalA : Canonical a) (canonicalB : Canonical b)
    (smallA : ∀ v, unpackedValue? a = some v → |v| < 2 ^ (1024 : ℤ))
    (smallB : ∀ v, unpackedValue? b = some v → |v| < 2 ^ (1024 : ℤ))
    (numberA : a.isNaN = false) (numberB : b.isNaN = false) :
    Orders (UnpackedFloat.compare a b) (unpackedLevel a) (unpackedLevel b) := by
  cases a with
  | notANumber => cases numberA
  | infinity s =>
    cases b with
    | notANumber => cases numberB
    | infinity t => exact orders_infinities s t
    | zero t => exact orders_infinity s rfl (smallB _ rfl)
    | finite t n f posN => exact orders_infinity s rfl (smallB _ rfl)
  | zero s =>
    cases b with
    | notANumber => cases numberB
    | infinity t => exact orders_to_infinity t rfl (smallA _ rfl)
    | zero t => exact orders_zero s rfl
    | finite t n f posN => exact orders_zero s rfl
  | finite s m e pos =>
    cases b with
    | notANumber => cases numberB
    | infinity t => exact orders_to_infinity t rfl (smallA _ rfl)
    | zero t => exact orders_to_zero t s pos
    | finite t n f posN => exact orders_finite s t pos posN canonicalA canonicalB

theorem unpacked_small (x : Float) :
    ∀ v, unpackedValue? x.toModel.unpack = some v → |v| < 2 ^ (1024 : ℤ) := by
  intro v value
  rw [← value?_eq] at value
  exact value?_lt value

theorem orders_level {x y : Float} (numberX : x.isNaN = false) (numberY : y.isNaN = false) :
    Orders (UnpackedFloat.compare x.toModel.unpack y.toModel.unpack) (level x) (level y) :=
  orders_unpacked (canonical_unpack x) (canonical_unpack y) (unpacked_small x) (unpacked_small y)
    numberX numberY

theorem lt_iff_level {x y : Float} (numberX : x.isNaN = false) (numberY : y.isNaN = false) :
    x < y ↔ level x < level y := by
  obtain ⟨order, result, compares⟩ := orders_level numberX numberY
  have meaning : x < y ↔
      decide ((UnpackedFloat.compare x.toModel.unpack y.toModel.unpack == some .lt) = true) = true := Iff.rfl
  rw [← compares.eq_lt, meaning, decide_eq_true_iff, result, beq_iff_eq, Option.some_inj]

theorem le_iff_level {x y : Float} (numberX : x.isNaN = false) (numberY : y.isNaN = false) :
    x ≤ y ↔ level x ≤ level y := by
  obtain ⟨order, result, compares⟩ := orders_level numberX numberY
  have meaning : x ≤ y ↔
      decide ((UnpackedFloat.compare x.toModel.unpack y.toModel.unpack).any (·.isLE) = true) = true := Iff.rfl
  rw [← compares.ne_gt, meaning, decide_eq_true_iff, result]
  cases order <;> simp [Ordering.isLE]

end CheckCost.Number
