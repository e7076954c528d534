import CheckCost.Number.Shortest
import CheckCost.Proofs.Number.Order

/-!
The fewest digits of a double. They write a number that is rounded to the double, for they lie within the reals
that are nearer to it than to its neighbours; a double is known by that number and its sign.
-/
namespace CheckCost.Number

/-! Doubles by their parts. -/

/-- The digits of a double, and where the gap below it is narrow. -/
structure Binary.IsDouble (x : Binary) : Prop where
  canonical : IsCanonical x.m x.q
  narrow : x.narrowBelow = true ↔ x.m = 2 ^ 52 ∧ -1074 < x.q

theorem ofNat_parts {n : ℕ} {negative : Bool} {x : Binary} (finite : Double.ofNat n = .finite negative x) :
    negative = (n / 2 ^ 63 % 2 == 1) ∧ n / 2 ^ 52 % 2 ^ 11 ≠ 0x7FF ∧
      (n / 2 ^ 52 % 2 ^ 11 = 0 ∧ x = ⟨n % 2 ^ 52, -1074, false⟩ ∨
        n / 2 ^ 52 % 2 ^ 11 ≠ 0 ∧
          x = ⟨2 ^ 52 + n % 2 ^ 52, (n / 2 ^ 52 % 2 ^ 11 : ℕ) - 1075,
            n % 2 ^ 52 = 0 && 1 < n / 2 ^ 52 % 2 ^ 11⟩) := by
  unfold Double.ofNat Double.ofParts at finite
  split at finite
  · split at finite <;> cases finite
  · next inside =>
    split at finite
    · next low =>
      cases finite
      exact ⟨rfl, inside, Or.inl ⟨low, rfl⟩⟩
    · next high =>
      cases finite
      exact ⟨rfl, inside, Or.inr ⟨high, rfl⟩⟩

theorem isDouble_of_ofFloat {x : Float} {negative : Bool} {magnitude : Binary}
    (finite : Double.ofFloat x = .finite negative magnitude) : magnitude.IsDouble := by
  unfold Double.ofFloat at finite
  rw [Double.ofBits_eq] at finite
  obtain ⟨-, -, ⟨low, rfl⟩ | ⟨high, rfl⟩⟩ := ofNat_parts finite
  · refine ⟨⟨?_, le_rfl, Or.inr rfl⟩, ?_⟩
    · dsimp only
      omega
    · simp
  · refine ⟨⟨?_, ?_, Or.inl ?_⟩, ?_⟩
    · dsimp only
      omega
    · dsimp only
      omega
    · dsimp only
      omega
    · simp only [Bool.and_eq_true, decide_eq_true_eq]
      omega

theorem eq_of_parts {x y : Float} {negative : Bool} {a b : Binary} (first : Double.ofFloat x = .finite negative a)
    (second : Double.ofFloat y = .finite negative b) (mantissas : a.m = b.m) (exponents : a.q = b.q) : x = y := by
  unfold Double.ofFloat at first second
  rw [Double.ofBits_eq] at first second
  have bits : x.toBits.toNat = y.toBits.toNat := by
    have smallX := x.toBits.toNat_lt
    have smallY := y.toBits.toNat_lt
    obtain ⟨signX, -, partsX⟩ := ofNat_parts first
    obtain ⟨signY, -, partsY⟩ := ofNat_parts second
    have signs := Bool.eq_iff_iff.mp (signX.symm.trans signY)
    simp only [beq_iff_eq] at signs
    rcases partsX with ⟨lowX, rfl⟩ | ⟨highX, rfl⟩
    · rcases partsY with ⟨lowY, rfl⟩ | ⟨highY, rfl⟩
      · dsimp only at mantissas exponents
        omega
      · dsimp only at mantissas exponents
        omega
    · rcases partsY with ⟨lowY, rfl⟩ | ⟨highY, rfl⟩
      · dsimp only at mantissas exponents
        omega
      · dsimp only at mantissas exponents
        omega
  have models : x.toModel.toBits = y.toModel.toBits := UInt64.toNat_inj.mp bits
  obtain ⟨⟨bitsX, _⟩⟩ := x
  obtain ⟨⟨bitsY, _⟩⟩ := y
  cases models
  rfl

/-- A double other than zero is known by its number. -/
theorem eq_of_value? {x y : Float} {v : ℚ} (nonzero : v ≠ 0) (first : value? x = some v)
    (second : value? y = some v) : x = y := by
  unfold value? at first second
  cases partsX : Double.ofFloat x with
  | infinite => rw [partsX] at first; cases first
  | undefined => rw [partsX] at first; cases first
  | finite negativeX a =>
    cases partsY : Double.ofFloat y with
    | infinite => rw [partsY] at second; cases second
    | undefined => rw [partsY] at second; cases second
    | finite negativeY b =>
      rw [partsX] at first
      rw [partsY] at second
      have sizes := (Option.some.inj first).trans (Option.some.inj second).symm
      have nonnegA : (0 : ℚ) ≤ a.m * 2 ^ a.q := by positivity
      have nonnegB : (0 : ℚ) ≤ b.m * 2 ^ b.q := by positivity
      have number := Option.some.inj first
      have signs : negativeX = negativeY := by
        cases negativeX <;> cases negativeY
        · rfl
        · simp only [Bool.false_eq_true, if_false, if_true] at sizes number
          exact absurd (by linarith) nonzero
        · simp only [Bool.false_eq_true, if_false, if_true] at sizes number
          exact absurd (by linarith) nonzero
        · rfl
      subst signs
      have same : (a.m : ℚ) * 2 ^ a.q = b.m * 2 ^ b.q := by
        cases negativeX with
        | false => simpa using sizes
        | true => simpa using sizes
      have compares := (isDouble_of_ofFloat partsX).canonical.compares (isDouble_of_ofFloat partsY).canonical
      obtain ⟨exponents, mantissas⟩ := Ordering.then_eq_eq.mp (compares.eq_eq.mpr same)
      exact eq_of_parts partsX partsY (compare_eq_iff_eq.mp mantissas) (compare_eq_iff_eq.mp exponents)

/-! Decimals near a double. -/

def Decimal.value (d : Decimal) : ℚ := d.digits * 10 ^ d.exponent

theorem pow_toNat {b : ℚ} (nonzero : b ≠ 0) (i : ℤ) : b ^ i.toNat = b ^ i * b ^ (-i).toNat := by
  rw [← zpow_natCast, ← zpow_natCast, ← zpow_add₀ nonzero]
  congr 1
  omega

theorem compareScaled_compares (a : ℕ) (i : ℤ) (b : ℕ) (j : ℤ) :
    (compareScaled a i b j).Compares ((a : ℚ) * 10 ^ i) (b * 2 ^ j) := by
  have unit : (0 : ℚ) < 10 ^ (-i).toNat * 2 ^ (-j).toNat := by positivity
  have left : ((a * Nat.pow 10 i.toNat * Nat.pow 2 (-j).toNat : ℕ) : ℚ) =
      a * 10 ^ i * (10 ^ (-i).toNat * 2 ^ (-j).toNat) := by
    simp only [Nat.pow_eq]
    push_cast
    rw [pow_toNat (by norm_num) i]
    ring
  have right : ((b * Nat.pow 2 j.toNat * Nat.pow 10 (-i).toNat : ℕ) : ℚ) =
      b * 2 ^ j * (10 ^ (-i).toNat * 2 ^ (-j).toNat) := by
    simp only [Nat.pow_eq]
    push_cast
    rw [pow_toNat (by norm_num) j]
    ring
  unfold compareScaled
  generalize a * Nat.pow 10 i.toNat * Nat.pow 2 (-j).toNat = m at left ⊢
  generalize b * Nat.pow 2 j.toNat * Nat.pow 10 (-i).toNat = n at right ⊢
  rcases lt_trichotomy m n with less | rfl | more
  · rw [compare_lt_iff_lt.mpr less]
    have : (m : ℚ) < n := by exact_mod_cast less
    rw [left, right] at this
    exact lt_of_mul_lt_mul_right this unit.le
  · rw [compare_eq_iff_eq.mpr rfl]
    exact mul_right_cancel₀ unit.ne' (left.symm.trans right)
  · rw [compare_gt_iff_gt.mpr more]
    have : (n : ℚ) < m := by exact_mod_cast more
    rw [left, right] at this
    exact lt_of_mul_lt_mul_right this unit.le

/-- The least number that reads back, in units of the last digit. -/
def Binary.low (x : Binary) : ℚ := if x.narrowBelow then x.m - 1 / 4 else x.m - 1 / 2

/-- A decimal that reads back lies within half a gap of the double, and at the middle of a gap only if the double
is the even one of the two. -/
theorem bounds_of_readsBack {x : Binary} {d : Decimal} (pos : 0 < x.m) (reads : x.readsBack d = true) :
    (x.low * 2 ^ x.q ≤ d.value ∧ d.value ≤ (x.m + 1 / 2) * 2 ^ x.q) ∧
      (¬ Even x.m → x.low * 2 ^ x.q ≠ d.value ∧ d.value ≠ (x.m + 1 / 2) * 2 ^ x.q) := by
  have quarter : (2 : ℚ) ^ x.q = 4 * 2 ^ (x.q - 2) := by
    rw [zpow_sub₀ (by norm_num)]
    norm_num
    ring
  have low : x.low * 2 ^ x.q = ((if x.narrowBelow then 4 * x.m - 1 else 4 * x.m - 2 : ℕ) : ℚ) * 2 ^ (x.q - 2) := by
    unfold Binary.low
    rw [quarter]
    split
    · rw [Nat.cast_sub (by omega)]
      push_cast
      ring
    · rw [Nat.cast_sub (by omega)]
      push_cast
      ring
  have high : ((x.m : ℚ) + 1 / 2) * 2 ^ x.q = ((4 * x.m + 2 : ℕ) : ℚ) * 2 ^ (x.q - 2) := by
    rw [quarter]
    push_cast
    ring
  have fromLow := compareScaled_compares d.digits d.exponent
    (if x.narrowBelow then 4 * x.m - 1 else 4 * x.m - 2) (x.q - 2)
  have fromHigh := compareScaled_compares d.digits d.exponent (4 * x.m + 2) (x.q - 2)
  rw [← low] at fromLow
  rw [← high] at fromHigh
  unfold Binary.readsBack at reads
  simp only [Bool.and_eq_true, Bool.or_eq_true, beq_iff_eq] at reads
  obtain ⟨above, below⟩ := reads
  refine ⟨⟨?_, ?_⟩, ?_⟩
  · rcases above with more | ⟨_, same⟩
    · rw [more] at fromLow
      exact le_of_lt fromLow
    · rw [same] at fromLow
      exact ge_of_eq fromLow
  · rcases below with less | ⟨_, same⟩
    · rw [less] at fromHigh
      exact le_of_lt fromHigh
    · rw [same] at fromHigh
      exact le_of_eq fromHigh
  · intro odd
    rw [Nat.even_iff] at odd
    constructor
    · rcases above with more | ⟨even, _⟩
      · rw [more] at fromLow
        exact ne_of_lt fromLow
      · contradiction
    · rcases below with less | ⟨even, _⟩
      · rw [less] at fromHigh
        exact ne_of_lt fromHigh
      · contradiction

/-- A number between the middles of the gaps around a double, if it is written with its last digit. -/
theorem rounded_of_between {v : ℚ} {m : ℕ} {q : ℤ} (few : m < 2 ^ 53) (least : -1074 ≤ q) (pos : 0 < m)
    (full : q = -1074 ∨ 2 ^ (52 + q) ≤ v) (low : (m - 1 / 2) * 2 ^ q ≤ v) (high : v ≤ (m + 1 / 2) * 2 ^ q)
    (ends : ¬ Even m → (m - 1 / 2) * 2 ^ q ≠ v ∧ v ≠ (m + 1 / 2) * 2 ^ q) : rounded v = m * 2 ^ q := by
  have unit : (0 : ℚ) < 2 ^ q := by positivity
  have one : (1 : ℚ) ≤ m := by exact_mod_cast pos
  have positive : 0 < v := (mul_pos (by linarith) unit).trans_le low
  have top : v < 2 ^ (53 + q) := by
    have whole : (m : ℚ) + 1 ≤ 2 ^ 53 := by exact_mod_cast few
    rw [gridTop_eq]
    refine high.trans_lt (mul_lt_mul_of_pos_right ?_ unit)
    push_cast
    linarith only [whole]
  have grid : gridExponent v = q := by
    refine gridExponent_eq least ?_ ?_ positive.ne'
    · rwa [abs_of_pos positive]
    · rwa [abs_of_pos positive]
  have above : (m : ℚ) - 1 / 2 ≤ v / 2 ^ q := (le_div_iff₀ unit).mpr low
  have below : v / 2 ^ q ≤ m + 1 / 2 := (div_le_iff₀ unit).mpr high
  have gap : |2 * (v / 2 ^ q - (m : ℤ))| ≤ 1 := by
    rw [Int.cast_natCast, abs_le]
    constructor <;> linarith
  -- at a tie the number is one of the ends, which belong to the double if its last digit is even
  have near : IsNearest (v / 2 ^ q) m := by
    rcases gap.lt_or_eq with less | tie
    · exact Or.inl less
    · refine Or.inr ⟨tie, ?_⟩
      by_contra odd
      obtain ⟨notLow, notHigh⟩ := ends (by exact_mod_cast odd)
      have whole : v / 2 ^ q * 2 ^ q = v := div_mul_cancel₀ v unit.ne'
      rw [Int.cast_natCast] at tie
      rcases (abs_eq (by norm_num)).mp tie with up | down
      · exact notHigh (by rw [← whole, show v / 2 ^ q = m + 1 / 2 by linarith])
      · exact notLow (by rw [← whole, show v / 2 ^ q = m - 1 / 2 by linarith])
  exact_mod_cast rounded_eq_of_nearest grid near

/-- Just below a power of two the gaps are half as wide. -/
theorem rounded_of_below {v : ℚ} {q : ℤ} (least : -1074 < q) (low : (2 ^ 52 - 1 / 4) * 2 ^ q ≤ v)
    (high : v < 2 ^ (52 + q)) : rounded v = 2 ^ 52 * 2 ^ q := by
  have unit : (0 : ℚ) < 2 ^ (q - 1) := by positivity
  have half : (2 : ℚ) ^ q = 2 * 2 ^ (q - 1) := by
    rw [← zpow_one_add₀ (by norm_num)]
    congr 1
    omega
  have top : (2 : ℚ) ^ (52 + q) = 2 ^ 53 * 2 ^ (q - 1) := by
    rw [show 52 + q = 53 + (q - 1) by omega, gridTop_eq]
    norm_num
  rw [half] at low ⊢
  rw [top] at high
  have above : (2 : ℚ) ^ 53 - 1 / 2 ≤ v / 2 ^ (q - 1) := (le_div_iff₀ unit).mpr (by linarith)
  have below : v / 2 ^ (q - 1) < 2 ^ 53 := (div_lt_iff₀ unit).mpr high
  have positive : 0 < v := (mul_pos (by norm_num) (by positivity)).trans_le low
  have grid : gridExponent v = q - 1 := by
    refine gridExponent_eq (by omega) ?_ (Or.inr ?_) positive.ne'
    · rw [abs_of_pos positive, gridTop_eq]
      exact_mod_cast high
    · rw [abs_of_pos positive, gridBottom_eq]
      push_cast
      linarith
  have near : IsNearest (v / 2 ^ (q - 1)) (2 ^ 53 : ℤ) := by
    have gap : |2 * (v / 2 ^ (q - 1) - ((2 ^ 53 : ℤ) : ℚ))| ≤ 1 := by
      rw [abs_le]
      push_cast
      constructor <;> linarith
    rcases gap.lt_or_eq with less | tie
    · exact Or.inl less
    · exact Or.inr ⟨tie, by decide⟩
  rw [rounded_eq_of_nearest grid near]
  push_cast
  ring

/-- What reads back is rounded to the double. -/
theorem rounded_of_readsBack {x : Binary} {d : Decimal} (double : x.IsDouble) (pos : 0 < x.m)
    (reads : x.readsBack d = true) : rounded d.value = x.m * 2 ^ x.q := by
  obtain ⟨⟨low, high⟩, ends⟩ := bounds_of_readsBack pos reads
  obtain ⟨few, least, full⟩ := double.canonical
  have unit : (0 : ℚ) < 2 ^ x.q := by positivity
  cases narrow : x.narrowBelow with
  | false =>
    rw [Binary.low, narrow, if_neg (by decide)] at low ends
    refine rounded_of_between few least pos ?_ low high ends
    by_cases bottom : x.q = -1074
    · exact Or.inl bottom
    · right
      have other : x.m ≠ 2 ^ 52 := by
        intro same
        rw [double.narrow.mpr ⟨same, by omega⟩] at narrow
        cases narrow
      have large : (2 : ℚ) ^ 52 + 1 ≤ x.m := by
        have := full.resolve_right bottom
        exact_mod_cast (by omega : 2 ^ 52 + 1 ≤ x.m)
      rw [gridBottom_eq]
      refine (mul_le_mul_of_nonneg_right ?_ unit.le).trans low
      push_cast
      linarith only [large]
  | true =>
    obtain ⟨power, high'⟩ := double.narrow.mp narrow
    have digits : (x.m : ℚ) = 2 ^ 52 := by exact_mod_cast power
    rw [Binary.low, narrow, if_pos rfl] at low
    -- below the power of two the grid is twice as fine, and the end of the interval is nearer
    rcases le_or_gt (2 ^ (52 + x.q)) d.value with inside | below
    · refine rounded_of_between few least pos (Or.inr inside) ?_ high ?_
      · exact (mul_le_mul_of_nonneg_right (by linarith) unit.le).trans low
      · intro odd
        exact absurd (by rw [power]; decide) odd
    · rw [digits] at low ⊢
      exact rounded_of_below high' low below

theorem readsBack_of_onGrid? {x : Binary} {exponent : ℤ} {d : Decimal} (found : x.onGrid? exponent = some d) :
    x.readsBack d = true := by
  unfold Binary.onGrid? at found
  dsimp only at found
  split at found
  · cases found
  · cases found
    assumption
  · cases found
    assumption
  · split at found
    · cases found
      assumption
    · cases found
      assumption
    · split at found
      · cases found
        assumption
      · cases found
        assumption

theorem value_exact (x : Binary) : x.exact.value = x.m * 2 ^ x.q := by
  unfold Binary.exact Decimal.value
  split
  · next nonneg =>
    obtain ⟨k, eq⟩ := Int.eq_ofNat_of_zero_le nonneg
    simp [eq]
  · next negative =>
    obtain ⟨k, eq⟩ := Int.eq_ofNat_of_zero_le (neg_nonneg.mpr (not_le.mp negative).le)
    obtain eq : x.q = -(k : ℤ) := by omega
    have power : (5 : ℚ) ^ k * 10 ^ (-(k : ℤ)) = 2 ^ (-(k : ℤ)) := by
      rw [zpow_neg, zpow_neg, zpow_natCast, zpow_natCast, show (10 : ℚ) = 5 * 2 by norm_num, mul_pow]
      field_simp
    rw [eq]
    simp only [neg_neg, Int.toNat_natCast, Nat.pow_eq]
    push_cast
    rw [mul_assoc, power]

/-- The fewest digits of a double are rounded to it. -/
theorem rounded_shortest {x : Binary} (double : x.IsDouble) (pos : 0 < x.m) :
    rounded x.shortest.value = x.m * 2 ^ x.q := by
  unfold Binary.shortest
  dsimp only
  cases found : (List.range 17).findSome? fun n : ℕ => x.onGrid? (x.scale - n - 1) with
  | none =>
    have digits := (double.canonical.isRounded .positive).rounded_eq
    simpa [signFactor, value_exact] using digits
  | some d =>
    obtain ⟨n, -, onGrid⟩ := List.exists_of_findSome?_eq_some found
    exact rounded_of_readsBack double pos (readsBack_of_onGrid? onGrid)

end CheckCost.Number
