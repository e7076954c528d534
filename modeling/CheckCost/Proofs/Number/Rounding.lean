import Mathlib.Algebra.Order.Field.Power
import Mathlib.Algebra.Order.Field.Rat
import Mathlib.Data.Int.Log
import Mathlib.Data.Rat.Floor
import Mathlib.Tactic.FieldSimp
import Mathlib.Tactic.Linarith
import Mathlib.Tactic.Positivity
import Mathlib.Tactic.Ring

/-!
Rounding exact numbers to doubles of any size: a number goes to the nearest multiple of the power of two
that leaves 53 digits, and of two multiples that are as near to the even one.
-/
namespace CheckCost.Number

/-- No integer is nearer to the number, and an odd one is strictly the nearest. -/
def IsNearest (x : ℚ) (n : ℤ) : Prop := |2 * (x - n)| < 1 ∨ |2 * (x - n)| = 1 ∧ Even n

def nearestEven (x : ℚ) : ℤ :=
  if 2 * Int.fract x < 1 ∨ 2 * Int.fract x = 1 ∧ Even ⌊x⌋ then ⌊x⌋ else ⌊x⌋ + 1

/-- The exponent of the last of 53 digits, or the least that a double can have. -/
def gridExponent (x : ℚ) : ℤ := max (Int.log 2 |x| - 52) (-1074)

/-- The number rounded to a double, if doubles had no bound above. -/
def rounded (x : ℚ) : ℚ := nearestEven (x / 2 ^ gridExponent x) * 2 ^ gridExponent x

/-- The number has at most 53 digits, none of which is below the last digit of the least double. -/
def IsRounded (x : ℚ) : Prop := ∃ m e : ℤ, |m| < 2 ^ 53 ∧ -1074 ≤ e ∧ x = m * 2 ^ e

theorem IsNearest.gap_le {x : ℚ} {n : ℤ} (near : IsNearest x n) : |2 * (x - n)| ≤ 1 := by
  rcases near with less | ⟨tie, _⟩
  · exact less.le
  · exact tie.le

theorem IsNearest.even {x : ℚ} {n : ℤ} (near : IsNearest x n) (tie : |2 * (x - n)| = 1) : Even n := by
  rcases near with less | ⟨_, even⟩
  · exact absurd tie less.ne
  · exact even

/-- Nearest integers keep the order of the numbers. -/
theorem IsNearest.le {x y : ℚ} {n m : ℤ} (le : x ≤ y) (first : IsNearest x n) (second : IsNearest y m) :
    n ≤ m := by
  -- otherwise both numbers are the middle between the two integers, one of which is odd
  by_contra less
  have gap : (m : ℚ) + 1 ≤ n := by exact_mod_cast not_le.mp less
  have above := (abs_le.mp first.gap_le).1
  have below := (abs_le.mp second.gap_le).2
  have next : n = m + 1 := by
    have : (n : ℚ) = m + 1 := by linarith
    exact_mod_cast this
  have evenN := first.even (by rw [abs_eq (by norm_num)]; right; linarith)
  have evenM := second.even (by rw [abs_eq (by norm_num)]; left; linarith)
  rw [next] at evenN
  exact Int.not_even_iff_odd.mpr evenM.add_one evenN

theorem IsNearest.unique {x : ℚ} {n m : ℤ} (first : IsNearest x n) (second : IsNearest x m) : n = m :=
  le_antisymm (first.le le_rfl second) (second.le le_rfl first)

theorem IsNearest.neg {x : ℚ} {n : ℤ} (near : IsNearest x n) : IsNearest (-x) (-n) := by
  have same : |2 * (-x - ((-n : ℤ) : ℚ))| = |2 * (x - n)| := by
    rw [← abs_neg]
    congr 1
    push_cast
    ring
  unfold IsNearest
  rw [same, even_neg]
  exact near

theorem isNearest_int (n : ℤ) : IsNearest n n := by
  left
  simp

theorem isNearest_nearestEven (x : ℚ) : IsNearest x (nearestEven x) := by
  have split := Int.floor_add_fract x
  have low := Int.fract_nonneg x
  have high := Int.fract_lt_one x
  unfold nearestEven
  split
  · rename_i down
    have gap : 2 * (x - ⌊x⌋) = 2 * Int.fract x := by linarith
    unfold IsNearest
    rw [gap, abs_of_nonneg (by linarith)]
    exact down
  · rename_i up
    have gap : 2 * (x - (⌊x⌋ + 1 : ℤ)) = -(2 - 2 * Int.fract x) := by push_cast; linarith
    unfold IsNearest
    rw [gap, abs_neg, abs_of_nonneg (by linarith)]
    rcases lt_trichotomy (2 * Int.fract x) 1 with less | tie | more
    · exact absurd (Or.inl less) up
    · right
      refine ⟨by linarith, ?_⟩
      have odd : ¬ Even ⌊x⌋ := fun even => up (Or.inr ⟨tie, even⟩)
      exact (Int.not_even_iff_odd.mp odd).add_one
    · left
      linarith

theorem nearestEven_eq_iff {x : ℚ} {n : ℤ} : nearestEven x = n ↔ IsNearest x n := by
  constructor
  · rintro rfl
    exact isNearest_nearestEven x
  · intro near
    exact (isNearest_nearestEven x).unique near

theorem nearestEven_mono {x y : ℚ} (le : x ≤ y) : nearestEven x ≤ nearestEven y :=
  (isNearest_nearestEven x).le le (isNearest_nearestEven y)

theorem nearestEven_int (n : ℤ) : nearestEven n = n := nearestEven_eq_iff.mpr (isNearest_int n)

theorem nearestEven_zero : nearestEven 0 = 0 := by
  exact_mod_cast nearestEven_int 0

theorem nearestEven_neg (x : ℚ) : nearestEven (-x) = -nearestEven x :=
  nearestEven_eq_iff.mpr (isNearest_nearestEven x).neg

theorem gridTop_eq (e : ℤ) : (2 : ℚ) ^ (53 + e) = ((2 ^ 53 : ℤ) : ℚ) * 2 ^ e := by
  rw [zpow_add₀ (by norm_num)]
  norm_num

theorem gridBottom_eq (e : ℤ) : (2 : ℚ) ^ (52 + e) = ((2 ^ 52 : ℤ) : ℚ) * 2 ^ e := by
  rw [zpow_add₀ (by norm_num)]
  norm_num

theorem gridExponent_neg (x : ℚ) : gridExponent (-x) = gridExponent x := by
  simp [gridExponent]

theorem le_gridExponent (x : ℚ) : -1074 ≤ gridExponent x := le_max_right _ _

theorem abs_lt_gridTop (x : ℚ) : |x| < 2 ^ (53 + gridExponent x) := by
  have top : |x| < 2 ^ (Int.log 2 |x| + 1) := by
    exact_mod_cast Int.lt_zpow_succ_log_self (R := ℚ) (by norm_num : 1 < 2) |x|
  have exponent : Int.log 2 |x| + 1 ≤ 53 + gridExponent x := by
    have := le_max_left (Int.log 2 |x| - 52) (-1074)
    unfold gridExponent
    omega
  exact top.trans_le (zpow_le_zpow_right₀ (by norm_num) exponent)

/-- Above the least exponent all 53 digits are used. -/
theorem gridBottom_le_abs {x : ℚ} (pos : x ≠ 0) (high : -1074 < gridExponent x) :
    2 ^ (52 + gridExponent x) ≤ |x| := by
  have exponent : 52 + gridExponent x = Int.log 2 |x| := by
    unfold gridExponent at high ⊢
    omega
  rw [exponent]
  exact_mod_cast Int.zpow_log_le_self (R := ℚ) (by norm_num : 1 < 2) (abs_pos.mpr pos)

/-- The exponent is the only one whose 53 digits, perhaps with a leading zero at the least exponent,
hold the number. -/
theorem gridExponent_eq {x : ℚ} {e : ℤ} (least : -1074 ≤ e) (top : |x| < 2 ^ (53 + e))
    (bottom : e = -1074 ∨ 2 ^ (52 + e) ≤ |x|) (pos : x ≠ 0) : gridExponent x = e := by
  have abs : 0 < |x| := abs_pos.mpr pos
  have upper : Int.log 2 |x| < 53 + e := by
    rw [← Int.lt_zpow_iff_log_lt (by norm_num) abs]
    exact_mod_cast top
  unfold gridExponent
  rcases bottom with rfl | bottom
  · omega
  · have lower : 52 + e ≤ Int.log 2 |x| := by
      rw [← Int.zpow_le_iff_le_log (by norm_num) abs]
      exact_mod_cast bottom
    omega

theorem rounded_eq_of_nearest {v : ℚ} {e n : ℤ} (grid : gridExponent v = e) (near : IsNearest (v / 2 ^ e) n) :
    rounded v = n * 2 ^ e := by
  rw [rounded, grid, nearestEven_eq_iff.mpr near]

theorem gridExponent_mono {x y : ℚ} (pos : x ≠ 0) (le : |x| ≤ |y|) :
    gridExponent x ≤ gridExponent y := by
  have := Int.log_mono_right (b := 2) (abs_pos.mpr pos) le
  unfold gridExponent
  omega

theorem rounded_zero : rounded 0 = 0 := by
  simp [rounded, nearestEven_zero]

theorem rounded_neg (x : ℚ) : rounded (-x) = -rounded x := by
  unfold rounded
  rw [gridExponent_neg, neg_div, nearestEven_neg]
  push_cast
  ring

theorem rounded_nonneg {x : ℚ} (nonneg : 0 ≤ x) : 0 ≤ rounded x := by
  have digits : 0 ≤ nearestEven (x / 2 ^ gridExponent x) := by
    rw [← nearestEven_zero]
    exact nearestEven_mono (by positivity)
  have : (0 : ℚ) ≤ nearestEven (x / 2 ^ gridExponent x) := by exact_mod_cast digits
  unfold rounded
  positivity

theorem rounded_le_gridTop (x : ℚ) : rounded x ≤ 2 ^ (53 + gridExponent x) := by
  have scaled : x / 2 ^ gridExponent x ≤ ((2 ^ 53 : ℤ) : ℚ) := by
    rw [div_le_iff₀ (by positivity), ← gridTop_eq]
    exact (le_abs_self x).trans (abs_lt_gridTop x).le
  have digits : (nearestEven (x / 2 ^ gridExponent x) : ℚ) ≤ ((2 ^ 53 : ℤ) : ℚ) := by
    have := nearestEven_mono scaled
    rw [nearestEven_int] at this
    exact_mod_cast this
  rw [gridTop_eq]
  exact mul_le_mul_of_nonneg_right digits (by positivity)

theorem gridBottom_le_rounded {x : ℚ} (pos : 0 < x) (high : -1074 < gridExponent x) :
    2 ^ (52 + gridExponent x) ≤ rounded x := by
  have scaled : ((2 ^ 52 : ℤ) : ℚ) ≤ x / 2 ^ gridExponent x := by
    rw [le_div_iff₀ (by positivity), ← gridBottom_eq]
    exact (gridBottom_le_abs pos.ne' high).trans_eq (abs_of_pos pos)
  have digits : ((2 ^ 52 : ℤ) : ℚ) ≤ nearestEven (x / 2 ^ gridExponent x) := by
    have := nearestEven_mono scaled
    rw [nearestEven_int] at this
    exact_mod_cast this
  rw [gridBottom_eq]
  exact mul_le_mul_of_nonneg_right digits (by positivity)

theorem rounded_mono_of_pos {x y : ℚ} (pos : 0 < x) (le : x ≤ y) : rounded x ≤ rounded y := by
  have posY := pos.trans_le le
  have sizes : |x| ≤ |y| := by
    rw [abs_of_pos pos, abs_of_pos posY]
    exact le
  have grids := gridExponent_mono pos.ne' sizes
  rcases grids.lt_or_eq with less | same
  · have high : -1074 < gridExponent y := (le_gridExponent x).trans_lt less
    calc rounded x ≤ 2 ^ (53 + gridExponent x) := rounded_le_gridTop x
      _ ≤ 2 ^ (52 + gridExponent y) := zpow_le_zpow_right₀ (by norm_num) (by omega)
      _ ≤ rounded y := gridBottom_le_rounded posY high
  · unfold rounded
    rw [same]
    have digits := nearestEven_mono
      (div_le_div_of_nonneg_right le (by positivity : (0 : ℚ) ≤ 2 ^ gridExponent y))
    exact mul_le_mul_of_nonneg_right (by exact_mod_cast digits) (by positivity)

theorem rounded_mono {x y : ℚ} (le : x ≤ y) : rounded x ≤ rounded y := by
  -- only two numbers of one sign are compared by their digits
  rcases lt_or_ge 0 x with pos | nonpos
  · exact rounded_mono_of_pos pos le
  · have low : rounded x ≤ 0 := by
      have := rounded_nonneg (neg_nonneg.mpr nonpos)
      rw [rounded_neg] at this
      linarith
    rcases le_or_gt 0 y with nonneg | neg
    · exact low.trans (rounded_nonneg nonneg)
    · have := rounded_mono_of_pos (neg_pos.mpr neg) (neg_le_neg le)
      rw [rounded_neg, rounded_neg] at this
      linarith

theorem IsRounded.rounded_eq {x : ℚ} (few : IsRounded x) : rounded x = x := by
  obtain ⟨m, e, digits, least, rfl⟩ := few
  by_cases zero : m = 0
  · simp [zero, rounded_zero]
  · have pos : (m : ℚ) * 2 ^ e ≠ 0 := by positivity
    have size : |(m : ℚ) * 2 ^ e| < 2 ^ (53 + e) := by
      rw [abs_mul, abs_of_pos (by positivity : (0 : ℚ) < 2 ^ e), gridTop_eq]
      exact mul_lt_mul_of_pos_right (by exact_mod_cast digits) (by positivity)
    have grid : gridExponent ((m : ℚ) * 2 ^ e) ≤ e := by
      have upper : Int.log 2 |(m : ℚ) * 2 ^ e| < 53 + e := by
        rw [← Int.lt_zpow_iff_log_lt (by norm_num) (abs_pos.mpr pos)]
        exact_mod_cast size
      unfold gridExponent
      omega
    obtain ⟨shift, eq⟩ := Int.le.dest grid
    have whole : (m : ℚ) * 2 ^ e / 2 ^ gridExponent ((m : ℚ) * 2 ^ e) = ((m * 2 ^ shift : ℤ) : ℚ) := by
      rw [mul_div_assoc, ← zpow_sub₀ (by norm_num)]
      push_cast
      congr 1
      rw [← zpow_natCast]
      congr 1
      omega
    unfold rounded
    rw [whole, nearestEven_int, ← whole]
    field_simp

theorem isRounded_int {n : ℤ} (small : |n| < 2 ^ 53) : IsRounded n :=
  ⟨n, 0, small, by norm_num, by simp⟩

/-- The middle below an even integer already goes up to it. -/
theorem nearestEven_lt_iff {x : ℚ} {n : ℤ} (even : Even n) : nearestEven x < n ↔ x < n - 1 / 2 := by
  constructor
  · intro less
    by_contra high
    have middle : IsNearest ((n : ℚ) - 1 / 2) n := by
      right
      refine ⟨?_, even⟩
      rw [abs_eq (by norm_num)]
      right
      ring
    have up := nearestEven_mono (not_lt.mp high)
    rw [nearestEven_eq_iff.mpr middle] at up
    omega
  · intro low
    by_contra high
    have gap := (abs_le.mp (isNearest_nearestEven x).gap_le).1
    have up : (n : ℚ) ≤ nearestEven x := by exact_mod_cast not_lt.mp high
    linarith

theorem rounded_abs (x : ℚ) : rounded |x| = |rounded x| := by
  rcases le_total 0 x with nonneg | nonpos
  · rw [abs_of_nonneg nonneg, abs_of_nonneg (rounded_nonneg nonneg)]
  · have mirrored := rounded_nonneg (neg_nonneg.mpr nonpos)
    rw [rounded_neg] at mirrored
    rw [abs_of_nonpos nonpos, rounded_neg, abs_of_nonpos (by linarith)]

theorem largestUnit_eq : (2 : ℚ) ^ (971 : ℤ) = 2 * 2 ^ (970 : ℤ) := zpow_one_add₀ (by norm_num) 970

theorem rounded_two_pow {e : ℤ} (least : -1074 ≤ e) : rounded (2 ^ e) = 2 ^ e :=
  IsRounded.rounded_eq ⟨1, e, by norm_num, least, by simp⟩

theorem rounded_of_large {y : ℚ} (large : 2 ^ (1023 : ℤ) ≤ y) (inside : y < 2 ^ (1024 : ℤ)) :
    rounded y = nearestEven (y / 2 ^ (971 : ℤ)) * 2 ^ (971 : ℤ) := by
  have pos : 0 < y := (by positivity : (0 : ℚ) < 2 ^ (1023 : ℤ)).trans_le large
  have grid : gridExponent y = 971 :=
    gridExponent_eq (by norm_num) (by rw [abs_of_pos pos]; exact inside)
      (Or.inr (by rw [abs_of_pos pos]; exact large)) pos.ne'
  unfold rounded
  rw [grid]

/-- Numbers from the middle between the largest double and the next power of two on round to that power
or more. -/
theorem abs_rounded_lt_iff (x : ℚ) :
    |rounded x| < 2 ^ (1024 : ℤ) ↔ |x| < 2 ^ (1024 : ℤ) - 2 ^ (970 : ℤ) := by
  have unit : (0 : ℚ) < 2 ^ (971 : ℤ) := by positivity
  have top : (2 : ℚ) ^ (1024 : ℤ) = ((2 ^ 53 : ℤ) : ℚ) * 2 ^ (971 : ℤ) := gridTop_eq 971
  have bottom : (2 : ℚ) ^ (1023 : ℤ) = ((2 ^ 52 : ℤ) : ℚ) * 2 ^ (971 : ℤ) := gridBottom_eq 971
  have half : (2 : ℚ) ^ (970 : ℤ) = 2 ^ (971 : ℤ) / 2 := by
    rw [largestUnit_eq]
    ring
  rw [← rounded_abs]
  generalize |x| = y
  rcases lt_or_ge y (2 ^ (1023 : ℤ)) with small | large
  · have below := rounded_mono small.le
    rw [rounded_two_pow (by norm_num), bottom] at below
    rw [bottom] at small
    rw [top, half]
    generalize (2 : ℚ) ^ (971 : ℤ) = u at unit small below
    push_cast at small below ⊢
    constructor <;> intro _ <;> linarith
  · rcases lt_or_ge y (2 ^ (1024 : ℤ)) with inside | outside
    · have digits := nearestEven_lt_iff (x := y / 2 ^ (971 : ℤ)) (n := 2 ^ 53) (by decide)
      rw [rounded_of_large large inside, top, mul_lt_mul_iff_left₀ unit, half]
      rw [Int.cast_lt, digits, div_lt_iff₀ unit]
      generalize (2 : ℚ) ^ (971 : ℤ) = u
      rw [sub_mul, one_div, inv_mul_eq_div]
    · have above := rounded_mono outside
      rw [rounded_two_pow (by norm_num)] at above
      constructor
      · intro less
        exact absurd less (not_lt.mpr above)
      · intro less
        have gap : (2 : ℚ) ^ (1024 : ℤ) - 2 ^ (970 : ℤ) < 2 ^ (1024 : ℤ) := sub_lt_self _ (by positivity)
        exact absurd outside (not_le.mpr (less.trans gap))

/-- What stays below that middle rounds at most to the largest double. -/
theorem abs_rounded_le_largest {x : ℚ} (small : |x| < 2 ^ (1024 : ℤ) - 2 ^ (970 : ℤ)) :
    |rounded x| ≤ 2 ^ (1024 : ℤ) - 2 ^ (971 : ℤ) := by
  have unit : (0 : ℚ) < 2 ^ (971 : ℤ) := by positivity
  have top : (2 : ℚ) ^ (1024 : ℤ) = ((2 ^ 53 : ℤ) : ℚ) * 2 ^ (971 : ℤ) := gridTop_eq 971
  have bottom : (2 : ℚ) ^ (1023 : ℤ) = ((2 ^ 52 : ℤ) : ℚ) * 2 ^ (971 : ℤ) := gridBottom_eq 971
  have finite := (abs_rounded_lt_iff x).mpr small
  have inside : |x| < 2 ^ (1024 : ℤ) := small.trans (sub_lt_self _ (by positivity))
  rw [← rounded_abs] at finite ⊢
  rcases lt_or_ge |x| (2 ^ (1023 : ℤ)) with low | large
  · have below := rounded_mono low.le
    rw [rounded_two_pow (by norm_num), bottom] at below
    rw [top]
    generalize (2 : ℚ) ^ (971 : ℤ) = u at unit below
    push_cast at below ⊢
    linarith
  · rw [rounded_of_large large inside] at finite ⊢
    rw [top, mul_lt_mul_iff_left₀ unit, Int.cast_lt] at finite
    have digits : (nearestEven (|x| / 2 ^ (971 : ℤ)) : ℚ) ≤ ((2 ^ 53 - 1 : ℤ) : ℚ) := by
      exact_mod_cast Int.le_sub_one_of_lt finite
    calc nearestEven (|x| / 2 ^ (971 : ℤ)) * (2 : ℚ) ^ (971 : ℤ)
        ≤ ((2 ^ 53 - 1 : ℤ) : ℚ) * 2 ^ (971 : ℤ) := mul_le_mul_of_nonneg_right digits unit.le
      _ = 2 ^ (1024 : ℤ) - 2 ^ (971 : ℤ) := by
        rw [top]
        generalize (2 : ℚ) ^ (971 : ℤ) = u
        push_cast
        ring

theorem abs_rounded_add_half_lt {x : ℚ} (small : |x| < 2 ^ (1024 : ℤ) - 2 ^ (970 : ℤ)) :
    |rounded x + 1 / 2| < 2 ^ (1024 : ℤ) - 2 ^ (970 : ℤ) := by
  have largest := abs_rounded_le_largest small
  have unit : (1 : ℚ) ≤ 2 ^ (970 : ℤ) := one_le_zpow₀ (by norm_num) (by norm_num)
  have sum : |rounded x + 1 / 2| ≤ |rounded x| + 1 / 2 := by
    have := abs_add_le (rounded x) (1 / 2)
    rwa [abs_of_pos (by norm_num : (0 : ℚ) < 1 / 2)] at this
  rw [largestUnit_eq] at largest
  generalize (2 : ℚ) ^ (970 : ℤ) = u at largest unit ⊢
  generalize (2 : ℚ) ^ (1024 : ℤ) = top at largest ⊢
  linarith

end CheckCost.Number
