import CheckCost.Json.Reader
import CheckCost.Text.Blank
import Mathlib.Data.List.Infix
import Mathlib.Data.List.TakeWhile

/-!
Texts that end the reading. Whatever else is wrong with a text, the reader complains of a place in it. Only
an integer of too many digits, wherever the reader comes upon one, half of a pair, and an array or object for which
there is no room are refused without a place.
-/
namespace CheckCost.Json

/-- The text has more digits in a row than an integer may have, as many as the fault says. -/
def WritesTooMany (cs : List Char) (fault : NumberFault) : Prop :=
  ∃ digits, digits <:+: cs ∧ (∀ c ∈ digits, isDigit c = true) ∧
    NumberFault.digitLimit < digits.length ∧ fault = .tooManyDigits digits.length

def isOpening (c : Char) : Bool := c = '[' || c = '\x7b'

/-- The text has more brackets and braces that open something than there is room for. -/
def OpensTooMany (room : Room) (cs : List Char) : Prop :=
  ∃ levels, room = some levels ∧ levels < cs.countP isOpening

/-- What a reader leaves is the end of its text, and what it refuses without a place is in the text. -/
inductive Within (room : Room) (cs : List Char) : Reading α → Prop where
  | read {result : α} {rest : List Char} (suffix : rest <:+ cs) : Within room cs (.ok (result, rest))
  | malformed {complaint : Complaint} {left : Nat} : Within room cs (.error (.malformed complaint left))
  | number {fault : NumberFault} (long : WritesTooMany cs fault) : Within room cs (.error (.number fault))
  | deep {container : Container} (deep : OpensTooMany room cs) : Within room cs (.error (.tooDeep container))
  | half {unit : Nat} : Within room cs (.error (.half unit))

namespace Within

variable {room : Room}

theorem of_part {outer : Room} {cs place : List Char} {reading : Reading α} (within : Within room place reading)
    (suffix : place <:+ cs) (opens : OpensTooMany room place → OpensTooMany outer cs) : Within outer cs reading := by
  cases within with
  | read rest => exact .read (rest.trans suffix)
  | malformed => exact .malformed
  | number long =>
    obtain ⟨digits, inside, run⟩ := long
    exact .number ⟨digits, inside.trans suffix.isInfix, run⟩
  | deep deep => exact .deep (opens deep)
  | half => exact .half

theorem of_suffix {cs place : List Char} {reading : Reading α} (within : Within room place reading)
    (suffix : place <:+ cs) : Within room cs reading := by
  refine within.of_part suffix ?_
  intro ⟨levels, limited, more⟩
  exact ⟨levels, limited, Nat.lt_of_lt_of_le more suffix.sublist.countP_le⟩

theorem of_error {cs : List Char} {refusal : Refusal}
    (within : Within room cs (.error refusal : Reading α)) : Within room cs (.error refusal : Reading β) := by
  cases within with
  | malformed => exact .malformed
  | number long => exact .number long
  | deep deep => exact .deep deep
  | half => exact .half

theorem rest {cs rest : List Char} {result : α} (within : Within room cs (.ok (result, rest))) : rest <:+ cs := by
  cases within with
  | read suffix => exact suffix

/-- The room after an opening is one less. -/
theorem of_inside {c : Char} {cs : List Char} {reading : Reading α} (within : Within room.inside cs reading)
    (opening : isOpening c = true) (left : room ≠ some 0) : Within room (c :: cs) reading := by
  refine within.of_part (List.suffix_cons c cs) ?_
  intro ⟨levels, limited, more⟩
  obtain ⟨outer, rfl, rfl⟩ := Option.map_eq_some_iff.mp limited
  have positive : outer ≠ 0 := fun zero => left (congrArg some zero)
  refine ⟨outer, rfl, ?_⟩
  rw [List.countP_cons_of_pos opening]
  omega

/-- What begins at an opening, if there is room for it. -/
theorem of_opening {c : Char} {cs : List Char} {container : Container} {reading : Reading α}
    (within : Within room.inside cs reading) (opening : isOpening c = true) :
    Within room (c :: cs) (if room = some 0 then .error (.tooDeep container) else reading) := by
  split
  · next none => exact .deep ⟨0, none, by simp [opening]⟩
  · next left => exact within.of_inside opening left

end Within

section Parts

variable (room : Room)

theorem skipSpace_suffix (cs : List Char) : skipSpace cs <:+ cs := List.dropWhile_suffix _

theorem tail_suffix_of_skipSpace {cs tail : List Char} {c : Char} (eq : skipSpace cs = c :: tail) : tail <:+ cs :=
  (List.suffix_cons c tail).trans (eq ▸ skipSpace_suffix cs)

theorem codeUnit_within (cs : List Char) : Within room cs (codeUnit cs) := by
  unfold codeUnit
  split
  · exact .read (List.drop_suffix 4 cs)
  · exact .malformed

theorem unicodeEscape_within (cs : List Char) : Within room cs (unicodeEscape cs) := by
  have first := codeUnit_within room cs
  unfold unicodeEscape
  split
  · rename_i refusal eq
    rw [eq] at first
    exact first.of_error
  · rename_i unit rest eq
    rw [eq] at first
    split
    · rename_i more _
      have second := codeUnit_within room more
      have inside : more <:+ cs := (List.suffix_append ['\\', 'u'] more).trans first.rest
      split
      · rename_i refusal eq
        rw [eq] at second
        exact (second.of_suffix inside).of_error
      · rename_i low tail eq
        rw [eq] at second
        split
        · exact .read (second.rest.trans inside)
        · exact .half
    · split
      · exact .half
      · exact .read first.rest

theorem stringFrom_within (opening fuel : Nat) (done cs : List Char) :
    Within room cs (stringFrom opening fuel done cs) := by
  fun_induction stringFrom opening fuel done cs with
  | case1 => exact .malformed
  | case2 => exact .malformed
  | case3 => exact .read (List.suffix_cons _ _)
  | case4 => exact .malformed
  | case5 fuel done rest c tail eq ih =>
    have escaped := unicodeEscape_within room rest
    rw [eq] at escaped
    exact ih.of_suffix (escaped.rest.trans (List.suffix_append ['\\', 'u'] rest))
  | case6 fuel done rest refusal eq =>
    have escaped := unicodeEscape_within room rest
    rw [eq] at escaped
    exact escaped.of_error.of_suffix (List.suffix_append ['\\', 'u'] rest)
  | case7 fuel done c rest _ meant eq ih => exact ih.of_suffix (List.suffix_append ['\\', c] rest)
  | case8 => exact .malformed
  | case9 => exact .malformed
  | case10 fuel done c rest _ _ _ _ _ ih => exact ih.of_suffix (List.suffix_cons c rest)

theorem wholePart_append (cs : List Char) : (wholePart cs).1 ++ (wholePart cs).2 = cs := by
  unfold wholePart
  split
  · rfl
  · exact List.takeWhile_append_dropWhile

theorem wholePart_digits (cs : List Char) : ∀ c ∈ (wholePart cs).1, isDigit c = true := by
  unfold wholePart
  split
  · simp [isDigit]
  · intro c member
    exact List.mem_takeWhile_imp member

theorem fractionPart_suffix (cs : List Char) : (fractionPart cs).2 <:+ cs := by
  unfold fractionPart
  split
  · rename_i rest
    dsimp only
    split
    · exact List.suffix_rfl
    · exact (List.dropWhile_suffix _).trans (List.suffix_cons _ _)
  · exact List.suffix_rfl

theorem sign_suffix (cs : List Char) : (Number.sign cs).2 <:+ cs := by
  unfold Number.sign
  split
  · exact List.suffix_cons _ _
  · exact List.suffix_cons _ _
  · exact List.suffix_rfl

theorem exponentPart_suffix (cs : List Char) : (exponentPart cs).2 <:+ cs := by
  unfold exponentPart
  split
  · rename_i c rest
    split
    · dsimp only
      split
      · exact List.suffix_rfl
      · exact ((List.dropWhile_suffix _).trans (sign_suffix rest)).trans (List.suffix_cons c rest)
    · exact List.suffix_rfl
  · exact List.suffix_rfl

theorem unsigned?_within {negative : Bool} {cs rest : List Char} {outcome : Except Refusal Json}
    (found : unsigned? negative cs = some (outcome, rest)) :
    Within room cs (outcome.map fun value => (value, rest)) := by
  have whole := wholePart_append cs
  have afterWhole : (wholePart cs).2 <:+ cs := ⟨_, whole⟩
  have after := ((exponentPart_suffix _).trans (fractionPart_suffix _)).trans afterWhole
  unfold unsigned? at found
  dsimp only at found
  split at found
  · cases found
  · split at found
    · split at found
      · rename_i long
        cases found
        exact .number ⟨_, ⟨[], _, whole⟩, wholePart_digits cs, long, rfl⟩
      · cases found
        exact .read after
    · cases found
      exact .read after

theorem word?_suffix {cs rest : List Char} {found : Json} (run : word? cs = some (found, rest)) :
    rest <:+ cs := by
  obtain ⟨word, _, eq⟩ := List.exists_of_findSome?_eq_some run
  dsimp only at eq
  split at eq
  · cases eq
    exact List.drop_suffix _ _
  · cases eq

theorem scalar_within (cs : List Char) : Within room cs (scalar cs) := by
  unfold scalar
  split
  · rename_i found eq
    exact .read (word?_suffix eq)
  · dsimp only
    split
    · rename_i eq
      split at eq
      · exact (unsigned?_within room eq).of_suffix (List.suffix_cons _ _)
      · exact unsigned?_within room eq
    · rename_i eq
      split at eq
      · exact (unsigned?_within room eq).of_error.of_suffix (List.suffix_cons _ _)
      · exact (unsigned?_within room eq).of_error
    · exact .malformed

theorem string_within (cs : List Char) : Within room cs (string cs) := stringFrom_within _ _ _ _ _

end Parts

section Steps

variable {fuel : Nat} (values : ∀ room cs, Within room cs (value fuel room cs))
  (arrays : ∀ room done cs, Within room cs (items fuel room done cs))
  (objects : ∀ room done cs, Within room cs (fields fuel room done cs))

include arrays objects in
theorem value_step (room : Room) (cs : List Char) : Within room cs (value (fuel + 1) room cs) := by
  unfold value
  split
  · exact .malformed
  · rename_i room _ _ _ _ rest same
    have text := string_within room rest
    split
    · rename_i eq
      rw [eq] at text
      exact .read (text.rest.trans (List.suffix_cons _ rest))
    · rename_i eq
      rw [eq] at text
      exact text.of_error.of_suffix (List.suffix_cons _ rest)
  · rename_i rest same
    cases same
    refine Within.of_opening ?_ (by decide)
    split
    · rename_i eq
      exact .read (tail_suffix_of_skipSpace eq)
    · exact (arrays _ _ _).of_suffix (skipSpace_suffix rest)
  · rename_i rest same
    cases same
    refine Within.of_opening ?_ (by decide)
    split
    · rename_i eq
      exact .read (tail_suffix_of_skipSpace eq)
    · exact (objects _ _ _).of_suffix (skipSpace_suffix rest)
  · exact scalar_within _ _

include values arrays in
theorem items_step (room : Room) (done : List Json) (cs : List Char) :
    Within room cs (items (fuel + 1) room done cs) := by
  have item := values room cs
  unfold items
  split
  · rename_i eq
    rw [eq] at item
    exact item.of_error
  · rename_i rest eq
    rw [eq] at item
    refine Within.of_suffix ?_ item.rest
    split
    · rename_i eq
      exact .read (tail_suffix_of_skipSpace eq)
    · rename_i tail eq
      exact (arrays _ _ _).of_suffix ((skipSpace_suffix tail).trans (tail_suffix_of_skipSpace eq))
    · exact .malformed

include values objects in
theorem fields_step (room : Room) (done : List (String × Json)) (cs : List Char) :
    Within room cs (fields (fuel + 1) room done cs) := by
  unfold fields
  split
  · exact .malformed
  · rename_i room _ _ _ _ _ _ rest same
    cases same
    have name := string_within room rest
    refine Within.of_suffix ?_ (List.suffix_cons _ rest)
    split
    · rename_i eq
      rw [eq] at name
      exact name.of_error
    · rename_i afterName eq
      rw [eq] at name
      refine Within.of_suffix ?_ name.rest
      split
      · rename_i afterColon eq
        have item := (values room (skipSpace afterColon)).of_suffix
          ((skipSpace_suffix afterColon).trans (tail_suffix_of_skipSpace eq))
        split
        · rename_i eq
          rw [eq] at item
          exact item.of_error
        · rename_i afterValue eq
          rw [eq] at item
          refine Within.of_suffix ?_ item.rest
          split
          · rename_i eq
            exact .read (tail_suffix_of_skipSpace eq)
          · rename_i tail eq
            exact (objects _ _ _).of_suffix ((skipSpace_suffix tail).trans (tail_suffix_of_skipSpace eq))
          · exact .malformed
      · exact .malformed
  · exact .malformed

end Steps

theorem readers_within (fuel : Nat) :
    (∀ room cs, Within room cs (value fuel room cs)) ∧
      (∀ room done cs, Within room cs (items fuel room done cs)) ∧
        ∀ room done cs, Within room cs (fields fuel room done cs) := by
  -- for the three readers at once, as each calls the others with less fuel
  induction fuel with
  | zero =>
    refine ⟨?_, ?_, ?_⟩
    · intro room cs
      unfold value
      exact .malformed
    · intro room done cs
      unfold items
      exact .malformed
    · intro room done cs
      unfold fields
      exact .malformed
  | succ fuel ih =>
    obtain ⟨values, arrays, objects⟩ := ih
    exact ⟨value_step arrays objects, items_step values arrays, fields_step values objects⟩

theorem ofCharsWithin_within {room : Room} {cs : List Char} {refusal : Refusal}
    (refused : ofCharsWithin room cs = .error refusal) : Within room cs (.error refusal : Reading Json) := by
  have start := (readers_within (2 * cs.length + 2)).1 room (skipSpace cs)
  unfold ofCharsWithin at refused
  split at refused
  · cases refused
    exact .malformed
  · split at refused
    · rename_i other eq
      cases refused
      rw [eq] at start
      exact start.of_suffix (skipSpace_suffix cs)
    · split at refused
      · cases refused
      · cases refused
        exact .malformed

theorem writesTooMany_of_ofCharsWithin {room : Room} {cs : List Char} {fault : NumberFault}
    (refused : ofCharsWithin room cs = .error (.number fault)) : WritesTooMany cs fault := by
  cases ofCharsWithin_within refused with
  | number long => exact long

theorem opensTooMany_of_ofCharsWithin {room : Room} {cs : List Char} {container : Container}
    (refused : ofCharsWithin room cs = .error (.tooDeep container)) : OpensTooMany room cs := by
  cases ofCharsWithin_within refused with
  | deep deep => exact deep

/-! Room. -/

/-- There is no room for what is read, or there is as good as any. -/
def Fits (reading unlimited : Reading Json) : Prop :=
  (∃ container, reading = .error (.tooDeep container)) ∨ reading = unlimited

section Fits

variable {fuel : Nat}

def FitsValues (fuel : Nat) : Prop := ∀ room cs, Fits (value fuel room cs) (value fuel none cs)

def FitsItems (fuel : Nat) : Prop := ∀ room done cs, Fits (items fuel room done cs) (items fuel none done cs)

def FitsFields (fuel : Nat) : Prop := ∀ room done cs, Fits (fields fuel room done cs) (fields fuel none done cs)

theorem value_fits (arrays : FitsItems fuel) (objects : FitsFields fuel) : FitsValues (fuel + 1) := by
  intro room cs
  cases cs with
  | nil => exact .inr rfl
  | cons c rest =>
    by_cases bracket : c = '['
    · subst bracket
      rw [value, value, if_neg (Option.some_ne_none 0).symm]
      split
      · exact .inl ⟨_, rfl⟩
      · split
        · exact .inr rfl
        · exact arrays room.inside [] (skipSpace rest)
    · by_cases brace : c = '\x7b'
      · subst brace
        rw [value, value, if_neg (Option.some_ne_none 0).symm]
        split
        · exact .inl ⟨_, rfl⟩
        · split
          · exact .inr rfl
          · exact objects room.inside [] (skipSpace rest)
      · refine .inr ?_
        by_cases quote : c = '"'
        · subst quote
          rfl
        · rw [value, value] <;> simp_all

theorem items_fits (values : FitsValues fuel) (arrays : FitsItems fuel) : FitsItems (fuel + 1) := by
  intro room done cs
  rw [items, items]
  obtain ⟨container, deep⟩ | same := values room cs
  · rw [deep]
    exact .inl ⟨container, rfl⟩
  · rw [same]
    split
    · exact .inr rfl
    · split
      · exact .inr rfl
      · exact arrays _ _ _
      · exact .inr rfl

theorem fields_fits (values : FitsValues fuel) (objects : FitsFields fuel) : FitsFields (fuel + 1) := by
  intro room done cs
  cases cs with
  | nil => exact .inr rfl
  | cons c rest =>
    by_cases quote : c = '"'
    · subst quote
      rw [fields, fields]
      split
      · exact .inr rfl
      · split
        · rename_i afterColon _
          obtain ⟨container, deep⟩ | same := values room (skipSpace afterColon)
          · rw [deep]
            exact .inl ⟨container, rfl⟩
          · rw [same]
            split
            · exact .inr rfl
            · split
              · exact .inr rfl
              · exact objects _ _ _
              · exact .inr rfl
        · exact .inr rfl
    · refine .inr ?_
      rw [fields, fields] <;> simp_all

end Fits

theorem readers_fit (fuel : Nat) : FitsValues fuel ∧ FitsItems fuel ∧ FitsFields fuel := by
  induction fuel with
  | zero =>
    refine ⟨?_, ?_, ?_⟩
    · intro room cs
      exact .inr rfl
    · intro room done cs
      exact .inr rfl
    · intro room done cs
      exact .inr rfl
  | succ fuel ih =>
    obtain ⟨values, arrays, objects⟩ := ih
    exact ⟨value_fits arrays objects, items_fits values arrays, fields_fits values objects⟩

/-- A text for which there is room is read as if there were room without end. -/
theorem ofCharsWithin_eq (room : Room) (cs : List Char)
    (fits : ∀ container, ofCharsWithin room cs ≠ .error (.tooDeep container)) :
    ofCharsWithin room cs = ofChars cs := by
  unfold ofChars ofCharsWithin at *
  obtain ⟨container, deep⟩ | same := (readers_fit (2 * cs.length + 2)).1 room (skipSpace cs)
  · split
    · rfl
    · next unmarked =>
      rw [if_neg unmarked, deep] at fits
      exact absurd rfl (fits container)
  · rw [same]

/-! Texts that are refused. -/

/-- The first characters of all values but numbers without a sign. -/
def starts : List Char := ['"', '[', '\x7b', 'n', 't', 'f', 'N', 'I', '-']

theorem word?_of_plain {c : Char} (rest : List Char) (plain : c ∉ starts) : word? (c :: rest) = none := by
  simp only [starts, List.mem_cons, List.not_mem_nil, or_false, not_or] at plain
  simp [word?, words, plain, @eq_comm Char _ c]

theorem value_of_plain (fuel : Nat) (room : Room) {c : Char} (rest : List Char) (plain : c ∉ starts) :
    value (fuel + 1) room (c :: rest) = scalar (c :: rest) := by
  simp only [starts, List.mem_cons, List.not_mem_nil, or_false, not_or] at plain
  unfold value
  split
  · rename_i impossible
    cases impossible
  · simp_all
  · simp_all
  · simp_all
  · rfl

theorem scalar_of_plain {c : Char} (rest : List Char) (plain : c ∉ starts) :
    scalar (c :: rest) =
      match unsigned? false (c :: rest) with
      | some (.ok number, tail) => .ok (number, tail)
      | some (.error refusal, _) => .error refusal
      | none => refuse .value (c :: rest) := by
  have other := word?_of_plain rest plain
  have unsigned : c ≠ '-' := by
    rintro rfl
    simp [starts] at plain
  simp only [scalar, other]
  split
  all_goals simp_all

theorem gap_bounds {c : Char} (gap : Text.isGap c = true) : c.toNat ≤ 0x20 ∨ 0x85 ≤ c.toNat := by
  simp only [Text.isGap, Text.isBlank, Text.blankRanges, List.any_cons, List.any_nil, Bool.or_eq_true,
    Bool.and_eq_true, decide_eq_true_eq, Bool.false_eq_true, or_false] at gap
  omega

theorem digit_bounds {c : Char} : isDigit c = true ↔ 0x30 ≤ c.toNat ∧ c.toNat ≤ 0x39 := by
  simp [isDigit, Char.le_def, UInt32.le_iff_toNat_le]

theorem plain_of_digit {c : Char} (digit : isDigit c = true) : c ∉ starts := by
  have none : starts.all (fun d => !isDigit d) = true := by decide
  intro member
  have noDigit := List.all_eq_true.mp none c member
  simp [digit] at noDigit

theorem plain_of_gap {c : Char} (gap : Text.isGap c = true) : c ∉ starts := by
  have none : starts.all (fun d => !Text.isGap d) = true := by decide
  intro member
  have noGap := List.all_eq_true.mp none c member
  simp [gap] at noGap

theorem value_of_gaps (fuel : Nat) (room : Room) {cs : List Char} (gaps : ∀ c ∈ cs, Text.isGap c = true) :
    value (fuel + 1) room cs = refuse .value cs := by
  cases cs with
  | nil => rfl
  | cons c rest =>
    have gap := gaps c (List.mem_cons_self ..)
    have bounds := gap_bounds gap
    have noDigit : isDigit c = false := by
      rw [← Bool.not_eq_true, digit_bounds]
      omega
    have nothing : unsigned? false (c :: rest) = none := by
      have zero : c ≠ '0' := by
        rintro rfl
        simp [isDigit] at noDigit
      simp [unsigned?, wholePart, zero, noDigit]
    have plain := plain_of_gap gap
    rw [value_of_plain fuel room rest plain, scalar_of_plain rest plain, nothing]

/-- A text of gaps alone is malformed, also where the gaps are no space for the reader. -/
theorem ofCharsWithin_of_gaps (room : Room) {cs : List Char} (gaps : ∀ c ∈ cs, Text.isGap c = true) :
    ∃ complaint left, ofCharsWithin room cs = .error (.malformed complaint left) := by
  have left : ∀ c ∈ skipSpace cs, Text.isGap c = true :=
    fun c member => gaps c ((skipSpace_suffix cs).subset member)
  unfold ofCharsWithin
  split
  · exact ⟨_, _, rfl⟩
  · rw [value_of_gaps _ room left]
    exact ⟨_, _, rfl⟩

theorem unsigned?_of_long {c : Char} {more : List Char} (all : ∀ d ∈ c :: more, isDigit d = true)
    (nonzero : c ≠ '0') (long : NumberFault.digitLimit < (c :: more).length) :
    unsigned? false (c :: (more ++ [']'])) =
      some (.error (.number (.tooManyDigits (c :: more).length)), [']']) := by
  have whole : wholePart (c :: (more ++ [']'])) = (c :: more, [']']) := by
    have taken : ((c :: more) ++ [']']).takeWhile isDigit = c :: more := by
      rw [List.takeWhile_append_of_pos all]
      simp [isDigit]
    have dropped : ((c :: more) ++ [']']).dropWhile isDigit = [']'] := by
      rw [List.dropWhile_append_of_pos all]
      simp [isDigit]
    unfold wholePart
    split
    · rename_i same
      exact absurd (List.cons.inj same).1 nonzero
    · exact Prod.ext taken dropped
  rw [List.length_cons] at long
  simp [unsigned?, whole, fractionPart, exponentPart, long]

theorem skipSpace_of_solid {c : Char} (rest : List Char) (solid : isSpace c = false) :
    skipSpace (c :: rest) = c :: rest :=
  List.dropWhile_cons_of_neg (by simp [solid])

theorem value_of_items (fuel : Nat) {room : Room} (left : room ≠ some 0) {c : Char} (rest : List Char)
    (solid : isSpace c = false) (inside : c ≠ ']') :
    value (fuel + 1) room ('[' :: c :: rest) = items fuel room.inside [] (c :: rest) := by
  rw [value, if_neg left, skipSpace_of_solid rest solid]
  split
  · rename_i same
    exact absurd (List.cons.inj same).1 inside
  · rfl

/-- An array of one integer of too many digits. -/
theorem ofCharsWithin_of_long {room : Room} (left : room ≠ some 0) {c : Char} {more : List Char}
    (all : ∀ d ∈ c :: more, isDigit d = true) (nonzero : c ≠ '0')
    (long : NumberFault.digitLimit < (c :: more).length) :
    ofCharsWithin room ('[' :: c :: (more ++ [']'])) = .error (.number (.tooManyDigits (c :: more).length)) := by
  have digit := all c (List.mem_cons_self ..)
  have plain := plain_of_digit digit
  have bounds := digit_bounds.mp digit
  have solid : isSpace c = false := by
    simp only [isSpace, Bool.or_eq_false_iff, beq_eq_false_iff_ne, ne_eq]
    refine ⟨⟨⟨?_, ?_⟩, ?_⟩, ?_⟩
    all_goals
      rintro rfl
      simp at bounds
  have inside : c ≠ ']' := by
    rintro rfl
    simp at bounds
  have item : ∀ fuel, value (fuel + 1) room.inside (c :: (more ++ [']'])) =
      .error (.number (.tooManyDigits (c :: more).length)) := by
    intro fuel
    rw [value_of_plain fuel _ _ plain, scalar_of_plain _ plain, unsigned?_of_long all nonzero long]
  have array : ∀ fuel, value (fuel + 3) room ('[' :: c :: (more ++ [']'])) =
      .error (.number (.tooManyDigits (c :: more).length)) := by
    intro fuel
    rw [value_of_items _ left _ solid inside, items, item]
  unfold ofCharsWithin
  rw [if_neg (by simp), skipSpace_of_solid _ (by decide)]
  have fuel : 2 * ('[' :: c :: (more ++ [']'])).length + 2 = 2 * (more.length + 2) + 1 + 3 := by
    simp
    omega
  rw [fuel, array]

end CheckCost.Json
