import CheckCost.Proofs.Sorting

/-!
Durations as exact numbers: those of the trace are the doubles that are read from it, and nothing is
rounded after that but percentages.
-/
namespace CheckCost

namespace Duration

/-- The number that the double of a value is. Infinite and undefined doubles are none. -/
def exactOfJson (value : Json) : Except NumberFault ℚ := do
  let x ← floatOfJson value
  match Number.value? x with
  | some v => .ok v
  | none => .error (if x.isInf then .infinite else .undefined)

/-- The percentage, a half rounded up; below zero it is rounded towards zero. -/
def exactShare (total grand : ℚ) : ℤ :=
  if grand ≤ 0 then 0 else Number.towardZero (total / grand * 100 + 1 / 2)

instance : Duration ℚ where
  zero := 0
  add x y := x + y
  below x y := x < y
  toMillis x := x / 1000
  share total grand := .ok (exactShare total grand)
  ofJson := exactOfJson

theorem exactShare_mono {less more : ℚ} (grand : ℚ) (le : less ≤ more) :
    exactShare less grand ≤ exactShare more grand := by
  unfold exactShare
  split
  · exact le_rfl
  · rename_i positive
    have pos : 0 ≤ grand := (not_le.mp positive).le
    have quotients := div_le_div_of_nonneg_right le pos
    exact Number.towardZero_mono (by linarith)

/-- Truncation leaves the percentages just outside of the range out of it. -/
theorem exactShare_range {total grand : ℚ} (positive : 0 < grand) :
    0 ≤ exactShare total grand ∧ exactShare total grand ≤ 100 ↔
      -3 * grand < 200 * total ∧ 200 * total < 201 * grand := by
  have whole : total / grand * grand = total := div_mul_cancel₀ total positive.ne'
  unfold exactShare
  rw [if_neg (not_le.mpr positive), Number.towardZero_range]
  generalize total / grand = x at whole ⊢
  rw [← whole]
  constructor
  · rintro ⟨low, high⟩
    constructor <;> nlinarith
  · rintro ⟨low, high⟩
    constructor <;> nlinarith

end Duration

instance : OrderedDuration ℚ where
  IsNumber _ := True
  place x := x
  below_iff := by
    intro x y _ _
    exact decide_eq_true_iff
  share_mono := by
    intro less more grand lower upper le shareLess shareMore
    cases shareLess
    cases shareMore
    exact Duration.exactShare_mono grand le

end CheckCost
