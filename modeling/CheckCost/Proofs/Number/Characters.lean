import CheckCost.Number.Notation
import CheckCost.Proofs.Number.Value

/-!
The characters that numerals are written with: digits, signs, a point and the mark of an exponent.
-/
namespace CheckCost.Number

def inNumeral (c : Char) : Bool := c.isDigit || ['.', 'e', '+', '-'].contains c

def IsNumeral (cs : List Char) : Prop := ∀ c ∈ cs, inNumeral c = true

@[simp] theorem isNumeral_nil : IsNumeral [] := List.forall_mem_nil _

@[simp] theorem isNumeral_cons {c : Char} {cs : List Char} :
    IsNumeral (c :: cs) ↔ inNumeral c = true ∧ IsNumeral cs := List.forall_mem_cons

@[simp] theorem isNumeral_append {first second : List Char} :
    IsNumeral (first ++ second) ↔ IsNumeral first ∧ IsNumeral second := List.forall_mem_append

theorem IsNumeral.subset {cs some : List Char} (whole : IsNumeral cs) (part : some ⊆ cs) : IsNumeral some :=
  fun c member => whole c (part member)

@[simp] theorem isNumeral_natDigits (n : Nat) : IsNumeral (natDigits n) := by
  intro c member
  have digit := Nat.isDigit_of_mem_toDigits (by norm_num) (by norm_num) member
  simp [inNumeral, digit]

@[simp] theorem isNumeral_zeroes (n : Nat) : IsNumeral (zeroes n) := by
  intro c member
  rw [List.eq_of_mem_replicate member]
  rfl

theorem isNumeral_exponentMark (exponent : Int) : IsNumeral (exponentMark exponent) := by
  unfold exponentMark
  split <;> simp <;> decide

theorem isNumeral_layout {digits : List Char} (numeral : IsNumeral digits) (exponent : Int) :
    IsNumeral (layout digits exponent) := by
  have point : inNumeral '.' = true := by decide
  have zero : inNumeral '0' = true := by decide
  unfold layout
  split
  · split
    · simp [point, zero, numeral]
    · have whole := numeral.subset (List.take_subset (exponent.toNat + 1) digits)
      have fraction := numeral.subset (List.drop_subset (exponent.toNat + 1) digits)
      dsimp only
      split <;> simp [point, zero, whole, fraction]
  · cases digits with
    | nil => exact isNumeral_nil
    | cons first rest =>
      rw [isNumeral_cons] at numeral
      dsimp only
      split <;> simp [point, numeral, isNumeral_exponentMark]

theorem Binary.isNumeral_shown (x : Binary) : IsNumeral x.shown := by
  unfold Binary.shown
  split
  · simp [inNumeral]
  · refine isNumeral_layout ?_ _
    refine (isNumeral_natDigits x.shortest.digits).subset ?_
    intro c member
    have kept := List.dropWhile_subset _ (List.mem_reverse.mp member)
    exact List.mem_reverse.mp kept

theorem isNumeral_minus {cs : List Char} (negative : Bool) (numeral : IsNumeral cs) :
    IsNumeral (minus negative cs) := by
  have sign : inNumeral '-' = true := by decide
  cases negative <;> simp [minus, sign, numeral]

end CheckCost.Number
