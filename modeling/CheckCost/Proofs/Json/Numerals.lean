import CheckCost.Proofs.Json.Reading
import CheckCost.Proofs.Number.Decimal
import CheckCost.Proofs.Number.Shortest

/-!
Numbers as they are written. Their texts lie in the grammar and mean the numbers again: an integer by its digits, a
double because the digits that are written are rounded to it.
-/
namespace CheckCost.Json

open Grammar Number

/-! Digits. -/

theorem digits_natDigits (n : ℕ) : Digits (natDigits n) :=
  ⟨Nat.toDigits_ne_nil, fun _ member => Nat.isDigit_of_mem_toDigits (by decide) (by decide) member⟩

theorem digitsValue_natDigits (n : ℕ) : digitsValue (natDigits n) = n :=
  (digitsValue_eq (digits_natDigits n).all).trans Nat.ofDigitChars_ten_toDigits

theorem eq_zero_of_head {n : ℕ} (zero : (natDigits n).head? = some '0') : n = 0 := by
  -- the first digit stays when the last one is taken off
  induction n using Nat.strongRecOn with
  | ind n ih =>
    unfold natDigits at zero ih
    by_cases small : n < 10
    · rw [Nat.toDigits_of_lt_base small] at zero
      have all : ∀ n < 10, n.digitChar = '0' → n = 0 := by decide
      exact all n small (Option.some.inj zero)
    · rw [Nat.toDigits_of_base_le (by decide) (not_lt.mp small),
        List.head?_append_of_ne_nil _ Nat.toDigits_ne_nil] at zero
      have := ih (n / 10) (by omega) zero
      omega

theorem whole_natDigits (n : ℕ) : Whole (natDigits n) := by
  refine ⟨digits_natDigits n, ?_⟩
  intro zero
  rw [eq_zero_of_head zero]
  rfl

/-- Digits that begin with no zero, and the place of the first one. -/
structure IsLeading (digits : List Char) (exponent : ℤ) (v : ℚ) : Prop where
  run : Digits digits
  head : digits.head? ≠ some '0'
  value : (Nat.ofDigitChars 10 digits 0 : ℚ) * 10 ^ (exponent + 1 - digits.length) = v

theorem exists_zeroes_at_end (cs : List Char) :
    ∃ k, cs = (cs.reverse.dropWhile (· == '0')).reverse ++ List.replicate k '0' := by
  have all : ∀ c ∈ cs.reverse.takeWhile (· == '0'), c = '0' := by
    intro c member
    simpa using List.mem_takeWhile_imp member
  refine ⟨(cs.reverse.takeWhile (· == '0')).length, ?_⟩
  rw [← List.reverse_replicate, ← List.eq_replicate_of_mem all, ← List.reverse_append,
    List.takeWhile_append_dropWhile, List.reverse_reverse]

theorem isLeading_leading {d : Decimal} (pos : d.digits ≠ 0) : IsLeading d.leading.1 d.leading.2 d.value := by
  obtain ⟨k, parts⟩ := exists_zeroes_at_end (natDigits d.digits)
  unfold Decimal.leading Decimal.value
  dsimp only
  generalize ((natDigits d.digits).reverse.dropWhile (· == '0')).reverse = digits at parts ⊢
  have some : digits ≠ [] := by
    rintro rfl
    refine pos (eq_zero_of_head ?_)
    rw [parts, List.nil_append, List.head?_replicate, if_neg]
    rintro rfl
    exact Nat.toDigits_ne_nil parts
  refine ⟨⟨some, ?_⟩, ?_, ?_⟩
  · intro c member
    refine (digits_natDigits d.digits).all c ?_
    rw [parts]
    exact List.mem_append_left _ member
  · intro zero
    refine pos (eq_zero_of_head ?_)
    rw [parts, List.head?_append_of_ne_nil _ some, zero]
  · have number : d.digits = 10 ^ k * Nat.ofDigitChars 10 digits 0 := by
      rw [← Nat.ofDigitChars_replicate_zero, ← Nat.ofDigitChars_append, ← parts]
      exact Nat.ofDigitChars_ten_toDigits.symm
    have place : d.exponent + ((natDigits d.digits).length : ℤ) - 1 + 1 - digits.length = k + d.exponent := by
      rw [parts, List.length_append, List.length_replicate]
      push_cast
      ring
    rw [place, number, zpow_add₀ (by norm_num), zpow_natCast]
    push_cast
    ring

/-! Zeros in front. -/

theorem isDigit_of_mem_zeroes (k : ℕ) : ∀ c ∈ zeroes k, isDigit c = true := by
  intro c member
  rw [List.eq_of_mem_replicate member]
  rfl

theorem digits_zeroes_append {digits : List Char} (k : ℕ) (run : Digits digits) : Digits (zeroes k ++ digits) :=
  ⟨by simp [run.some], List.forall_mem_append.mpr ⟨isDigit_of_mem_zeroes k, run.all⟩⟩

theorem ofDigitChars_zeroes_append (k : ℕ) (digits : List Char) :
    Nat.ofDigitChars 10 (zeroes k ++ digits) 0 = Nat.ofDigitChars 10 digits 0 := by
  rw [zeroes, Nat.ofDigitChars_append, Nat.ofDigitChars_replicate_zero, Nat.mul_zero]

theorem signed_natAbs (n : ℤ) : signed (n < 0) n.natAbs = n := by
  by_cases negative : n < 0
  · rw [signed, if_pos (decide_eq_true negative)]
    omega
  · rw [decide_eq_false negative, signed, if_neg (by decide)]
    omega

theorem exponent_exponentMark (exponent : ℤ) : Exponent (exponentMark exponent) (some exponent) := by
  have digits := digits_zeroes_append (2 - (natDigits exponent.natAbs).length) (digits_natDigits exponent.natAbs)
  have value : digitsValue (zeroes (2 - (natDigits exponent.natAbs).length) ++ natDigits exponent.natAbs) =
      exponent.natAbs := by
    rw [digitsValue_eq digits.all, ofDigitChars_zeroes_append]
    exact Nat.ofDigitChars_ten_toDigits
  unfold exponentMark
  dsimp only
  rw [List.cons_append, List.cons_append]
  generalize zeroes (2 - (natDigits exponent.natAbs).length) ++ natDigits exponent.natAbs = run at digits value
  have sign := signed_natAbs exponent
  by_cases negative : exponent < 0
  · have mark : Exponent ('e' :: (['-'] ++ run)) (some (signed true (digitsValue run))) :=
      .mark (Or.inl rfl) (by decide) digits
    rw [decide_eq_true negative, ← value] at sign
    rw [if_pos negative]
    rwa [sign] at mark
  · have mark : Exponent ('e' :: (['+'] ++ run)) (some (signed false (digitsValue run))) :=
      .mark (Or.inl rfl) (by decide) digits
    rw [decide_eq_false negative, ← value] at sign
    rw [if_neg negative]
    rwa [sign] at mark

/-! The three layouts. -/

/-- A text that means the double nearest to the number. -/
def Writes (negative : Bool) (cs : List Char) (v : ℚ) : Prop :=
  ∃ (n : ℕ) (e : ℤ), (n : ℚ) * 10 ^ e = v ∧
    Unsigned negative cs (.float (if negative then -scaled n e else scaled n e))

theorem writes_of_parts {negative : Bool} {whole fraction places mark : List Char} {exponent : Option ℤ} {v : ℚ}
    (first : Whole whole) (second : Fraction fraction places) (third : Exponent mark exponent)
    (broken : fraction ++ mark ≠ [])
    (value : (Nat.ofDigitChars 10 (whole ++ places) 0 : ℚ) * 10 ^ (exponent.getD 0 - places.length) = v) :
    Writes negative (whole ++ (fraction ++ mark)) v := by
  have all : ∀ c ∈ whole ++ places, isDigit c = true := by
    refine List.forall_mem_append.mpr ⟨first.digits.all, ?_⟩
    cases second with
    | none => exact List.forall_mem_nil _
    | point run => exact run.all
  refine ⟨digitsValue (whole ++ places), exponent.getD 0 - places.length, ?_, .real first second third broken rfl⟩
  rwa [digitsValue_eq all]

theorem writes_of_places {negative : Bool} {whole places : List Char} {v : ℚ} (first : Whole whole)
    (second : Digits places)
    (value : (Nat.ofDigitChars 10 (whole ++ places) 0 : ℚ) * 10 ^ (-(places.length : ℤ)) = v) :
    Writes negative (whole ++ '.' :: places) v := by
  rw [← zero_sub] at value
  have writes : Writes negative _ v := writes_of_parts first (.point second) .none (by simp) value
  rwa [List.append_nil] at writes

section

variable {digits : List Char} {exponent : ℤ} {v : ℚ}

/-- Digits that begin as leading digits do are the whole part of a number. -/
theorem IsLeading.whole (leading : IsLeading digits exponent v) {cs : List Char} (run : Digits cs)
    (same : cs.head? = digits.head?) : Whole cs :=
  ⟨run, fun zero => absurd (same.symm.trans zero) leading.head⟩

theorem IsLeading.writes_below (leading : IsLeading digits exponent v) (less : exponent < 0) (negative : Bool) :
    Writes negative ('0' :: '.' :: (zeroes (exponent.natAbs - 1) ++ digits)) v := by
  refine writes_of_places (whole_natDigits 0) (digits_zeroes_append (exponent.natAbs - 1) leading.run) ?_
  rw [← leading.value]
  show (Nat.ofDigitChars 10 (zeroes 1 ++ (zeroes (exponent.natAbs - 1) ++ digits)) 0 : ℚ) * _ = _
  rw [ofDigitChars_zeroes_append, ofDigitChars_zeroes_append]
  congr 2
  rw [zeroes, List.length_append, List.length_replicate]
  omega

theorem IsLeading.writes_zeroes (leading : IsLeading digits exponent v) (nonneg : 0 ≤ exponent)
    (short : digits.length ≤ exponent.toNat + 1) (negative : Bool) :
    Writes negative (digits ++ zeroes (exponent.toNat + 1 - digits.length) ++ '.' :: ['0']) v := by
  have whole : Digits (digits ++ zeroes (exponent.toNat + 1 - digits.length)) :=
    ⟨by simp [leading.run.some], List.forall_mem_append.mpr ⟨leading.run.all, isDigit_of_mem_zeroes _⟩⟩
  have same : (digits ++ zeroes (exponent.toNat + 1 - digits.length)).head? = digits.head? :=
    List.head?_append_of_ne_nil _ leading.run.some
  refine writes_of_places (leading.whole whole same) (digits_natDigits 0) ?_
  rw [← leading.value, List.append_assoc]
  show (Nat.ofDigitChars 10 (digits ++ (zeroes _ ++ zeroes 1)) 0 : ℚ) * 10 ^ (-1 : ℤ) = _
  rw [zeroes, zeroes, ← List.replicate_add, Nat.ofDigitChars_append, Nat.ofDigitChars_replicate_zero]
  have place : exponent + 1 - digits.length = ((exponent.toNat + 1 - digits.length + 1 : ℕ) : ℤ) + -1 := by omega
  rw [place, zpow_add₀ (by norm_num), zpow_natCast]
  push_cast
  ring

theorem IsLeading.writes_inside (leading : IsLeading digits exponent v) (nonneg : 0 ≤ exponent)
    (long : exponent.toNat + 1 < digits.length) (negative : Bool) :
    Writes negative (digits.take (exponent.toNat + 1) ++ '.' :: digits.drop (exponent.toNat + 1)) v := by
  have whole : Digits (digits.take (exponent.toNat + 1)) := by
    refine ⟨?_, fun c member => leading.run.all c (List.mem_of_mem_take member)⟩
    rw [← List.length_pos_iff, List.length_take]
    omega
  have places : Digits (digits.drop (exponent.toNat + 1)) := by
    refine ⟨?_, fun c member => leading.run.all c (List.mem_of_mem_drop member)⟩
    rw [← List.length_pos_iff, List.length_drop]
    omega
  have same : (digits.take (exponent.toNat + 1)).head? = digits.head? := by
    rw [List.head?_take, if_neg (Nat.succ_ne_zero _)]
  refine writes_of_places (leading.whole whole same) places ?_
  rw [List.take_append_drop, ← leading.value]
  congr 2
  rw [List.length_drop]
  omega

theorem IsLeading.writes_exponent {first : Char} {rest : List Char}
    (leading : IsLeading (first :: rest) exponent v) (negative : Bool) :
    Writes negative (first :: ((if rest.isEmpty then [] else '.' :: rest) ++ exponentMark exponent)) v := by
  have whole : Whole [first] := by
    refine leading.whole ⟨by simp, ?_⟩ rfl
    intro c member
    rw [List.mem_singleton.mp member]
    exact leading.run.all first (List.mem_cons_self ..)
  have mark := exponent_exponentMark exponent
  cases rest with
  | nil =>
    show Writes negative ([first] ++ ([] ++ exponentMark exponent)) v
    refine writes_of_parts whole .none mark (by simp [exponentMark]) ?_
    rw [← leading.value]
    congr 2
    simp
  | cons second rest =>
    have places : Digits (second :: rest) :=
      ⟨by simp, fun c member => leading.run.all c (List.mem_cons_of_mem first member)⟩
    refine writes_of_parts whole (.point places) mark (by simp) ?_
    rw [← leading.value]
    congr 2
    simp only [List.length_cons, Option.getD_some]
    push_cast
    ring

theorem IsLeading.writes_layout (leading : IsLeading digits exponent v) (negative : Bool) :
    Writes negative (layout digits exponent) v := by
  unfold layout
  split
  · split
    · next less => exact leading.writes_below less negative
    · next nonneg =>
      dsimp only
      rcases le_or_gt digits.length (exponent.toNat + 1) with short | long
      · rw [List.take_of_length_le short, List.drop_of_length_le short]
        exact leading.writes_zeroes (not_lt.mp nonneg) short negative
      · have some : (digits.drop (exponent.toNat + 1)).isEmpty = false := by
          simpa using long
        rw [some, Nat.sub_eq_zero_of_le long.le, zeroes, List.replicate_zero, List.append_nil, if_neg (by decide)]
        exact leading.writes_inside (not_lt.mp nonneg) long negative
  · cases digits with
    | nil => exact absurd rfl leading.run.some
    | cons first rest => exact leading.writes_exponent negative

end

/-! Doubles. -/

/-- The two zeros differ by their sign only. -/
theorem eq_zero_of_parts {x : Float} {negative : Bool} {magnitude : Binary}
    (parts : Double.ofFloat x = .finite negative magnitude) (zero : magnitude.m = 0) :
    x = if negative then -0.0 else 0.0 := by
  have least := (isDouble_of_ofFloat parts).canonical.full
  have low : magnitude.q = -1074 := least.resolve_left (by omega)
  cases negative with
  | false =>
    have other : Double.ofFloat 0.0 = .finite false ⟨0, -1074, false⟩ := by decide +kernel
    exact eq_of_parts parts other zero low
  | true =>
    have other : Double.ofFloat (-0.0) = .finite true ⟨0, -1074, false⟩ := by decide +kernel
    exact eq_of_parts parts other zero low

/-- A number that is rounded to the magnitude of a double is read as that double. -/
theorem eq_scaled_of_parts {x : Float} {negative : Bool} {magnitude : Binary}
    (parts : Double.ofFloat x = .finite negative magnitude) (pos : 0 < magnitude.m) {n : ℕ} {e : ℤ}
    (near : rounded (n * 10 ^ e) = magnitude.m * 2 ^ magnitude.q) :
    x = if negative then -scaled n e else scaled n e := by
  have size : (magnitude.m : ℚ) * 2 ^ magnitude.q ≠ 0 := by positivity
  have value : value? x = some ((if negative then -1 else 1) * ((magnitude.m : ℚ) * 2 ^ magnitude.q)) := by
    rw [value?, parts, Double.value?]
  have small : |(magnitude.m : ℚ) * 2 ^ magnitude.q| < 2 ^ (1024 : ℤ) := by
    have bound := value?_lt value
    cases negative <;> simpa using bound
  have read : value? (scaled n e) = some ((magnitude.m : ℚ) * 2 ^ magnitude.q) := by
    rw [value?_scaled, near, fit, if_pos small]
  cases negative with
  | false =>
    rw [if_neg (by decide), one_mul] at value
    exact eq_of_value? size value read
  | true =>
    rw [if_pos rfl, neg_one_mul] at value
    exact eq_of_value? (neg_ne_zero.mpr size) value ((value?_neg _).trans (congrArg _ read))

theorem numeral_of_unsigned {negative : Bool} {cs : List Char} {value : Json}
    (number : Unsigned negative cs value) : Numeral (minus negative cs) value := by
  cases negative with
  | false => exact .plain number
  | true => exact .minus number

theorem unsigned_shown {x : Float} {negative : Bool} {magnitude : Binary}
    (parts : Double.ofFloat x = .finite negative magnitude) : Unsigned negative magnitude.shown (.float x) := by
  unfold Binary.shown
  split
  · next zero =>
    have writes : Writes negative ['0', '.', '0'] 0 :=
      writes_of_places (whole_natDigits 0) (digits_natDigits 0) (zero_mul _)
    obtain ⟨n, e, value, number⟩ := writes
    have power : (10 : ℚ) ^ e ≠ 0 := by positivity
    have none : n = 0 := by exact_mod_cast (mul_eq_zero.mp value).resolve_right power
    rwa [none, scaled, if_pos rfl, ← eq_zero_of_parts parts zero] at number
  · next some =>
    have pos := Nat.pos_of_ne_zero some
    have near := rounded_shortest (isDouble_of_ofFloat parts) pos
    -- zero is never rounded to a positive magnitude
    have digits : magnitude.shortest.digits ≠ 0 := by
      intro none
      rw [Decimal.value, none, Nat.cast_zero, zero_mul, rounded_zero] at near
      exact absurd near.symm (by positivity)
    obtain ⟨n, e, value, number⟩ := (isLeading_leading digits).writes_layout negative
    rw [← value] at near
    rwa [← eq_scaled_of_parts parts pos near] at number

/-- The text of a finite double means that double, the negative zero among them. -/
theorem numeral_shown {x : Float} (finite : x.isFinite = true) :
    Numeral (shown inDocument x).toList (.float x) := by
  rw [isFinite_eq, value?] at finite
  unfold shown
  cases parts : Double.ofFloat x with
  | infinite =>
    rw [parts] at finite
    cases finite
  | undefined =>
    rw [parts] at finite
    cases finite
  | finite negative magnitude =>
    rw [Double.shown, String.toList_ofList]
    exact numeral_of_unsigned (unsigned_shown parts)

/-! Integers. -/

theorem unsigned_natDigits (negative : Bool) (n : ℕ) :
    Unsigned negative (natDigits n) (.int (signed negative n)) := by
  have number : Unsigned negative _ _ := .integer (whole_natDigits n)
  rwa [digitsValue_natDigits] at number

theorem toList_toString (n : ℤ) : (toString n).toList = minus (n < 0) (natDigits n.natAbs) := by
  cases n with
  | ofNat n =>
    show n.repr.toList = natDigits n
    rw [Nat.repr_eq_ofList_toDigits, String.toList_ofList, natDigits]
  | negSucc n =>
    rw [minus, if_pos (decide_eq_true (Int.negSucc_lt_zero n))]
    show ("-" ++ (n + 1).repr).toList = '-' :: natDigits (n + 1)
    rw [String.toList_append, Nat.repr_eq_ofList_toDigits]
    exact congrArg _ String.toList_ofList

theorem numeral_int (n : ℤ) : Numeral (toString n).toList (.int n) := by
  have number := unsigned_natDigits (n < 0) n.natAbs
  rw [signed_natAbs] at number
  rw [toList_toString]
  exact numeral_of_unsigned number

end CheckCost.Json
