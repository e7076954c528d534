import CheckCost.Json.Printer
import CheckCost.Proofs.Number.Characters
import Mathlib.Data.List.Infix

/-!
JSON text apart from its string literals. What stands there shows whether all numbers are finite: those that
are not are written as words, which are no JSON.
-/
namespace CheckCost.Json

/-- Where a reader of JSON text stands: between string literals, inside one, or after a backslash inside one. -/
inductive Place where
  | outside
  | inside
  | escaped
  deriving DecidableEq

namespace Place

def after : Place → Char → Place
  | outside, c => if c = '"' then inside else outside
  | inside, c => if c = '"' then outside else if c = '\\' then escaped else inside
  | escaped, _ => inside

def afterAll (place : Place) (cs : List Char) : Place := cs.foldl after place

end Place

def bareFrom : Place → List Char → List Char
  | _, [] => []
  | .outside, c :: rest => if c = '"' then bareFrom .inside rest else c :: bareFrom .outside rest
  | place, c :: rest => bareFrom (place.after c) rest

/-- The characters of a JSON text that stand outside of its string literals. -/
def bare (text : String) : List Char := bareFrom .outside text.toList

theorem bareFrom_append (place : Place) (first second : List Char) :
    bareFrom place (first ++ second) = bareFrom place first ++ bareFrom (place.afterAll first) second := by
  induction first generalizing place with
  | nil => simp [bareFrom, Place.afterAll]
  | cons c rest ih =>
    cases place with
    | outside =>
      by_cases quote : c = '"' <;> simp [bareFrom, Place.afterAll, Place.after, quote, ih]
    | inside => simp [bareFrom, Place.afterAll, ih]
    | escaped => simp [bareFrom, Place.afterAll, ih]

theorem Place.afterAll_append (place : Place) (first second : List Char) :
    place.afterAll (first ++ second) = (place.afterAll first).afterAll second := List.foldl_append

/-- Characters inside a literal that do not end it. -/
structure IsHidden (cs : List Char) : Prop where
  stays : Place.inside.afterAll cs = .inside
  hidden : bareFrom .inside cs = []

theorem IsHidden.append {first second : List Char} (left : IsHidden first) (right : IsHidden second) :
    IsHidden (first ++ second) where
  stays := by rw [Place.afterAll_append, left.stays, right.stays]
  hidden := by rw [bareFrom_append, left.hidden, left.stays, right.hidden, List.nil_append]

theorem isHidden_cons {c : Char} {rest : List Char} (quote : c ≠ '"') (backslash : c ≠ '\\')
    (hidden : IsHidden rest) : IsHidden (c :: rest) where
  stays := by simpa [Place.afterAll, Place.after, quote, backslash] using hidden.stays
  hidden := by simpa [bareFrom, Place.after, quote, backslash] using hidden.hidden

theorem isHidden_escape (c : Char) {rest : List Char} (hidden : IsHidden rest) :
    IsHidden ('\\' :: c :: rest) where
  stays := by simpa [Place.afterAll, Place.after] using hidden.stays
  hidden := by simpa [bareFrom, Place.after] using hidden.hidden

theorem isHidden_nil : IsHidden [] := ⟨rfl, rfl⟩

theorem isHidden_hexDigits (n width : Nat) : IsHidden (Text.hexDigits n width) := by
  have digits : ∀ k < 16, Nat.digitChar k ≠ '"' ∧ Nat.digitChar k ≠ '\\' := by decide
  induction width generalizing n with
  | zero => exact isHidden_nil
  | succ width ih =>
    obtain ⟨quote, backslash⟩ := digits (n % 16) (Nat.mod_lt _ (by norm_num))
    exact (ih (n / 16)).append (isHidden_cons quote backslash isHidden_nil)

theorem isHidden_unitEscape (unit : Nat) : IsHidden (unitEscape unit) :=
  isHidden_escape 'u' (isHidden_hexDigits unit 4)

theorem isHidden_escapeChar (c : Char) : IsHidden (escapeChar c) := by
  unfold escapeChar
  split
  case h_8 quote backslash _ _ _ _ _ =>
    split
    · exact isHidden_cons quote backslash isHidden_nil
    · split
      · exact isHidden_unitEscape _
      · exact (isHidden_unitEscape _).append (isHidden_unitEscape _)
  all_goals exact isHidden_escape _ isHidden_nil

theorem isHidden_escaped (cs : List Char) : IsHidden (cs.flatMap escapeChar) := by
  induction cs with
  | nil => exact isHidden_nil
  | cons c rest ih => exact (isHidden_escapeChar c).append ih

mutual

/-- All doubles of a value are finite. -/
def isFinite : Json → Bool
  | float value => value.isFinite
  | arr items => itemsFinite items
  | obj fields => fieldsFinite fields
  | _ => true

def itemsFinite : List Json → Bool
  | [] => true
  | item :: rest => isFinite item && itemsFinite rest

def fieldsFinite : List (String × Json) → Bool
  | [] => true
  | (_, value) :: rest => isFinite value && fieldsFinite rest

end

/-- How doubles that are not finite are written. -/
def foreignWords : List String := ["NaN", "Infinity", "-Infinity"]

/-- What part of a printed text tells of its doubles: either no letter of the foreign words stands outside of
its literals, or one of the words does. -/
structure Tells (finite : Bool) (text : String) : Prop where
  closed : Place.outside.afterAll text.toList = .outside
  plain : finite = true → ∀ c ∈ bare text, c ≠ 'N' ∧ c ≠ 'I'
  foreign : finite = false → ∃ word ∈ foreignWords, word.toList <:+: bare text

theorem bare_append {first second : String} (closed : Place.outside.afterAll first.toList = .outside) :
    bare (first ++ second) = bare first ++ bare second := by
  unfold bare
  rw [String.toList_append, bareFrom_append, closed]

theorem Tells.append {finiteFirst finiteSecond : Bool} {first second : String}
    (left : Tells finiteFirst first) (right : Tells finiteSecond second) :
    Tells (finiteFirst && finiteSecond) (first ++ second) where
  closed := by rw [String.toList_append, Place.afterAll_append, left.closed, right.closed]
  plain := by
    intro finite c member
    rw [Bool.and_eq_true] at finite
    rw [bare_append left.closed] at member
    rcases List.mem_append.mp member with early | late
    · exact left.plain finite.1 c early
    · exact right.plain finite.2 c late
  foreign := by
    intro infinite
    rw [bare_append left.closed]
    rcases Bool.and_eq_false_iff.mp infinite with here | there
    · obtain ⟨word, known, inside⟩ := left.foreign here
      exact ⟨word, known, inside.trans (List.infix_append_left ..)⟩
    · obtain ⟨word, known, inside⟩ := right.foreign there
      exact ⟨word, known, inside.trans (List.infix_append_right ..)⟩

theorem bareFrom_outside {cs : List Char} (quoteless : '"' ∉ cs) :
    bareFrom .outside cs = cs ∧ Place.outside.afterAll cs = .outside := by
  induction cs with
  | nil => exact ⟨rfl, rfl⟩
  | cons c rest ih =>
    rw [List.mem_cons, not_or] at quoteless
    obtain ⟨same, stays⟩ := ih quoteless.2
    have quote : c ≠ '"' := Ne.symm quoteless.1
    exact ⟨by simp [bareFrom, quote, same], by simpa [Place.afterAll, Place.after, quote] using stays⟩

/-- Neither does the character begin a literal nor is it in one of the foreign words. -/
def isPlain (c : Char) : Bool := c != '"' && c != 'N' && c != 'I'

theorem tells_plain (text : String) (plain : text.toList.all isPlain = true) : Tells true text := by
  have chars : ∀ c ∈ text.toList, c ≠ '"' ∧ c ≠ 'N' ∧ c ≠ 'I' := by
    simpa [isPlain, and_assoc] using plain
  have outside : '"' ∉ text.toList := fun member => (chars _ member).1 rfl
  obtain ⟨same, stays⟩ := bareFrom_outside outside
  refine ⟨stays, ?_, fun infinite => by cases infinite⟩
  intro _ c member
  unfold bare at member
  rw [same] at member
  exact (chars c member).2

theorem tells_numeral {cs : List Char} (numeral : Number.IsNumeral cs) : Tells true (String.ofList cs) := by
  refine tells_plain _ ?_
  rw [String.toList_ofList, List.all_eq_true]
  intro c member
  by_contra letter
  have known : c = '"' ∨ c = 'N' ∨ c = 'I' := by
    simpa [isPlain, imp_iff_not_or, or_assoc] using letter
  have inside := numeral c member
  rcases known with rfl | rfl | rfl <;> cases inside

theorem tells_literal (text : String) : Tells true (literal text) := by
  have hidden := isHidden_escaped text.toList
  have quoted : (literal text).toList = '"' :: text.toList.flatMap escapeChar ++ ['"'] :=
    String.toList_ofList
  have nothing : bare (literal text) = [] := by
    unfold bare
    rw [quoted, List.cons_append, bareFrom, if_pos rfl, bareFrom_append, hidden.hidden, hidden.stays]
    rfl
  refine ⟨?_, ?_, fun infinite => by cases infinite⟩
  · rw [quoted, List.cons_append]
    show Place.inside.afterAll (text.toList.flatMap escapeChar ++ ['"']) = _
    rw [Place.afterAll_append, hidden.stays]
    rfl
  · intro _ c member
    rw [nothing] at member
    cases member

theorem tells_lineBreak (depth : Nat) : Tells true (lineBreak depth) := by
  refine tells_plain _ ?_
  unfold lineBreak
  rw [String.toList_ofList, List.all_cons, List.all_replicate]
  simp [isPlain]

theorem tells_nat (n : Nat) : Tells true n.repr := tells_numeral (Number.isNumeral_natDigits n)

theorem tells_int (value : Int) : Tells true (toString value) := by
  cases value with
  | ofNat n => exact tells_nat n
  | negSucc n => exact (tells_plain _ rfl).append (tells_nat (n + 1))

theorem tells_float (value : Float) : Tells value.isFinite (Number.shown Number.inDocument value) := by
  have infinite : ∀ negative, Tells false (String.ofList (Number.minus negative "Infinity".toList)) := by
    intro negative
    refine ⟨by cases negative <;> decide, fun finite => (by cases finite), fun _ => ?_⟩
    cases negative <;> decide
  rw [Number.isFinite_eq]
  unfold Number.shown Number.value?
  cases Number.Double.ofFloat value with
  | finite negative magnitude =>
    exact tells_numeral (Number.isNumeral_minus negative magnitude.isNumeral_shown)
  | infinite negative => exact infinite negative
  | undefined => exact ⟨by decide, fun finite => (by cases finite), fun _ => by decide⟩

mutual

theorem tells_printAt (depth : Nat) (value : Json) : Tells (isFinite value) (printAt depth value) := by
  cases value with
  | null =>
    rw [printAt]
    exact tells_plain _ rfl
  | bool value =>
    cases value <;> rw [printAt] <;> exact tells_plain _ rfl
  | int value =>
    rw [printAt]
    exact tells_int value
  | float value =>
    rw [isFinite, printAt]
    exact tells_float value
  | str text =>
    rw [printAt]
    exact tells_literal text
  | arr items =>
    cases items with
    | nil =>
      rw [printAt]
      exact tells_plain _ rfl
    | cons item rest =>
      have first := tells_printAt (depth + 1) item
      have others := tells_printItems (depth + 1) rest
      have start := (tells_plain "[" rfl).append (tells_lineBreak (depth + 1))
      have finish := (tells_lineBreak depth).append (tells_plain "]" rfl)
      simpa [isFinite, itemsFinite, printAt, String.append_assoc] using
        start.append (first.append (others.append finish))
  | obj fields =>
    cases fields with
    | nil =>
      rw [printAt]
      exact tells_plain _ rfl
    | cons field rest =>
      obtain ⟨name, value⟩ := field
      have first := tells_printAt (depth + 1) value
      have others := tells_printFields (depth + 1) rest
      have start := (tells_plain "\x7b" rfl).append (tells_lineBreak (depth + 1))
      have label := (tells_literal name).append (tells_plain ": " rfl)
      have finish := (tells_lineBreak depth).append (tells_plain "\x7d" rfl)
      simpa [isFinite, fieldsFinite, printAt, String.append_assoc] using
        start.append (label.append (first.append (others.append finish)))

theorem tells_printItems (depth : Nat) (items : List Json) :
    Tells (itemsFinite items) (printItems depth items) := by
  cases items with
  | nil => exact tells_plain _ rfl
  | cons item rest =>
    have first := tells_printAt depth item
    have others := tells_printItems depth rest
    have start := (tells_plain "," rfl).append (tells_lineBreak depth)
    simpa [itemsFinite, printItems, String.append_assoc] using start.append (first.append others)

theorem tells_printFields (depth : Nat) (fields : List (String × Json)) :
    Tells (fieldsFinite fields) (printFields depth fields) := by
  cases fields with
  | nil => exact tells_plain _ rfl
  | cons field rest =>
    obtain ⟨name, value⟩ := field
    have first := tells_printAt depth value
    have others := tells_printFields depth rest
    have start := (tells_plain "," rfl).append (tells_lineBreak depth)
    have label := (tells_literal name).append (tells_plain ": " rfl)
    simpa [fieldsFinite, printFields, String.append_assoc] using
      start.append (label.append (first.append others))

end

/-- The printed text of a value holds one of the foreign words outside of its literals exactly if one of the
doubles is not finite. -/
theorem isFinite_iff_bare (value : Json) :
    isFinite value = true ↔ ∀ word ∈ foreignWords, ¬ word.toList <:+: bare value.print := by
  have tells := tells_printAt 0 value
  constructor
  · intro finite word known inside
    have letters : ∀ word ∈ foreignWords, 'N' ∈ word.toList ∨ 'I' ∈ word.toList := by decide
    rcases letters word known with letter | letter
    · exact (tells.plain finite 'N' (inside.subset letter)).1 rfl
    · exact (tells.plain finite 'I' (inside.subset letter)).2 rfl
  · intro none
    cases finite : isFinite value with
    | true => rfl
    | false =>
      rw [finite] at tells
      obtain ⟨word, known, inside⟩ := tells.foreign rfl
      exact absurd inside (none word known)

end CheckCost.Json
