import CheckCost.Catalog
import CheckCost.Proofs.Number.Integers
import CheckCost.Proofs.Outcome
import CheckCost.Proofs.Share
import CheckCost.Trace

/-!
Which values and rows can be read. Most strange values fall back to something; the predicates name the
ones that do not.
-/
namespace CheckCost

open Outcome

namespace Json

/-- The value stands for an integer: a truth value, an integer, a finite double or a numeral. -/
def IsInteger : Json → Prop
  | .bool _ | .int _ => True
  | .float x => (Number.value? x).isSome = true
  | .str text => ∃ n, Number.integer? text = .ok n
  | _ => False

/-- The value is no double, or a finite one. -/
def IsFinite : Json → Prop
  | .float x => (Number.value? x).isSome = true
  | _ => True

def IsInfinite : Json → Prop
  | .float x => x.isInf = true
  | _ => False

/-- An integer that is not below the middle between the largest double and the next power of two. -/
def IsBeyondDoubles : Json → Prop
  | .int n => 2 ^ 1024 - 2 ^ 970 ≤ |n|
  | _ => False

theorem integer_succeeds_iff (value : Json) : (∃ n, value.integer = .ok n) ↔ value.IsInteger := by
  cases value with
  | null => simp [integer, IsInteger]
  | bool b => simp [integer, IsInteger]
  | int n => simp [integer, IsInteger]
  | float x => exact Number.truncate_succeeds_iff x
  | str text => exact Iff.rfl
  | arr items => simp [integer, IsInteger]
  | obj fields => simp [integer, IsInteger]

theorem integerOrZero_succeeds_iff (value : Json) :
    (∃ n, value.integerOrZero = .ok n) ↔ value.isEmpty = true ∨ value.IsInteger := by
  unfold integerOrZero
  by_cases empty : value.isEmpty = true
  · simp [empty]
  · simp [empty, integer_succeeds_iff]

theorem integer?_succeeds_iff (value : Json) : (∃ n, value.integer? = .ok n) ↔ value.IsFinite := by
  cases value with
  | float x =>
    show (∃ n, some <$> Number.truncate x = .ok n) ↔ _
    rw [IsFinite, ← Number.truncate_succeeds_iff]
    cases Number.truncate x <;> simp [Functor.map, Except.map]
  | null => simp [integer?, IsFinite]
  | bool b => simp [integer?, IsFinite]
  | int n => simp [integer?, IsFinite]
  | str text => simp [integer?, IsFinite]
  | arr items => simp [integer?, IsFinite]
  | obj fields => simp [integer?, IsFinite]

end Json

theorem Duration.floatOfJson_succeeds_iff (value : Json) :
    (∃ x, floatOfJson value = .ok x) ↔ ¬ value.IsBeyondDoubles := by
  unfold floatOfJson
  split
  · rename_i empty
    refine iff_of_true ⟨_, rfl⟩ ?_
    cases value with
    | int n =>
      have zero : n = 0 := by simpa [Json.isEmpty] using empty
      subst zero
      rw [Json.IsBeyondDoubles, abs_zero, not_le, sub_pos]
      exact pow_lt_pow_right₀ (by norm_num) (by norm_num)
    | _ => exact not_false
  · cases value with
    | int n =>
      show (∃ x, Number.nearest n = .ok x) ↔ _
      rw [Number.nearest_ok_iff, Json.IsBeyondDoubles, not_le]
    | str text =>
      refine iff_of_true ?_ not_false
      dsimp only
      split <;> exact ⟨_, rfl⟩
    | _ => exact iff_of_true ⟨_, rfl⟩ not_false

theorem Number.integer?_ne_infinite (text : String) : integer? text ≠ .error .infinite := by
  unfold integer?
  dsimp only
  split
  · exact fun eq => by cases eq
  · split
    · exact fun eq => by cases eq
    · split
      · exact fun eq => by cases eq
      · exact fun eq => by cases eq

theorem Event.idOf_succeeds_iff (value : Json) : (∃ id, idOf value = .ok id) ↔ ¬ value.IsInfinite := by
  cases value with
  | float x =>
    rw [Json.IsInfinite, Number.isInf_eq]
    have integer : (Json.float x).integer = Number.truncate x := rfl
    unfold idOf
    dsimp only
    rw [integer]
    unfold Number.truncate
    cases Number.Double.ofFloat x with
    | finite negative magnitude => exact iff_of_true ⟨_, rfl⟩ Bool.false_ne_true
    | infinite negative => exact iff_of_false (by rintro ⟨id, eq⟩; cases eq) (not_not.mpr rfl)
    | undefined => exact iff_of_true ⟨_, rfl⟩ Bool.false_ne_true
  | str text =>
    refine iff_of_true ?_ not_false
    have integer : (Json.str text).integer = Number.integer? text := rfl
    unfold idOf
    dsimp only
    rw [integer]
    cases numeral : Number.integer? text with
    | ok id => exact ⟨_, rfl⟩
    | error fault =>
      cases fault with
      | infinite => exact absurd numeral (Number.integer?_ne_infinite text)
      | _ => exact ⟨_, rfl⟩
  | null => exact iff_of_true ⟨_, rfl⟩ not_false
  | bool b => exact iff_of_true ⟨_, rfl⟩ not_false
  | int n => exact iff_of_true ⟨_, rfl⟩ not_false
  | arr items => exact iff_of_true ⟨_, rfl⟩ not_false
  | obj fields => exact iff_of_true ⟨_, rfl⟩ not_false

/-- A position is readable unless it is an object with a line or character that stands for no integer. -/
def Position.IsReadable (value : Json) : Prop :=
  ∀ fields, value = .obj fields → ∀ name ∈ ["line", "character"],
    (Json.field fields name).isEmpty = true ∨ (Json.field fields name).IsInteger

/-- Only a declaration with a path has its positions read. -/
def Declaration.IsReadable (value : Json) : Prop :=
  ∀ fields, value = .obj fields → (Json.field fields "path").isEmpty = false →
    ∀ name ∈ ["start", "end"], Position.IsReadable (Json.field fields name)

/-- Flags have members to list, or are empty. -/
def Json.HasMembers (value : Json) : Prop :=
  value.isEmpty = true ∨ (∃ items, value = .arr items) ∨ (∃ text, value = .str text) ∨
    ∃ fields, value = .obj fields

structure Entry.IsReadable (fields : List (String × Json)) : Prop where
  flags : (Json.field fields "flags").HasMembers
  id : (Json.field fields "id").IsInteger
  recursionId : Json.hasField fields "symbolName" = true → (Json.field fields "recursionId").IsFinite
  instantiatedType :
    Json.hasField fields "symbolName" = true → (Json.field fields "instantiatedType").IsFinite
  declaration : Json.hasField fields "symbolName" = true →
    Declaration.IsReadable (Json.field fields "firstDeclaration")

theorem Position.ofJson_succeeds_iff (value : Json) : (∃ position, ofJson value = .ok position) ↔ IsReadable value := by
  have fieldwise (fields : List (String × Json)) :
      (∃ position : Position, (do
        let line ← (Json.field fields "line").integerOrZero
        let character ← (Json.field fields "character").integerOrZero
        return ⟨line, character⟩ : Except NumberFault Position) = .ok position) ↔
        ∀ name ∈ ["line", "character"],
          (Json.field fields name).isEmpty = true ∨ (Json.field fields name).IsInteger := by
    simp only [List.forall_mem_cons, List.not_mem_nil, false_imp_iff, implies_true, and_true]
    rw [← Json.integerOrZero_succeeds_iff, ← Json.integerOrZero_succeeds_iff, bind_succeeds_iff]
    constructor
    · rintro ⟨line, readLine, more⟩
      obtain ⟨character, readCharacter, _⟩ := bind_succeeds_iff.mp more
      exact ⟨⟨line, readLine⟩, character, readCharacter⟩
    · rintro ⟨⟨line, readLine⟩, character, readCharacter⟩
      exact ⟨line, readLine, bind_succeeds_iff.mpr ⟨character, readCharacter, _, rfl⟩⟩
  unfold IsReadable
  cases value with
  | obj fields =>
    refine (fieldwise fields).trans ?_
    constructor
    · intro read other same
      cases same
      exact read
    · intro read
      exact read fields rfl
  | _ => exact iff_of_true ((fieldwise []).mpr fun _ _ => Or.inl rfl) (fun _ other => by cases other)

theorem Declaration.ofJson_succeeds_iff (value : Json) :
    (∃ declaration, ofJson value = .ok declaration) ↔ IsReadable value := by
  cases value with
  | obj fields =>
    have some : IsReadable (.obj fields) ↔ ((Json.field fields "path").isEmpty = false →
        ∀ name ∈ ["start", "end"], Position.IsReadable (Json.field fields name)) := by
      constructor
      · intro read
        exact read fields rfl
      · intro read other same
        cases same
        exact read
    rw [some]
    simp only [List.forall_mem_cons, List.not_mem_nil, false_imp_iff, implies_true, and_true,
      ← Position.ofJson_succeeds_iff]
    unfold ofJson
    by_cases empty : (Json.field fields "path").isEmpty = true
    · simp only [empty, if_true]
      exact iff_of_true ⟨_, rfl⟩ (fun other => by cases other)
    · rw [Bool.not_eq_true] at empty
      simp only [empty, Bool.false_eq_true, if_false, forall_const]
      rw [bind_succeeds_iff]
      constructor
      · rintro ⟨start, readStart, more⟩
        obtain ⟨finish, readFinish, _⟩ := bind_succeeds_iff.mp more
        exact ⟨⟨start, readStart⟩, finish, readFinish⟩
      · rintro ⟨⟨start, readStart⟩, finish, readFinish⟩
        exact ⟨start, readStart, bind_succeeds_iff.mpr ⟨finish, readFinish, _, rfl⟩⟩
  | _ => exact iff_of_true ⟨_, rfl⟩ (fun _ other => by cases other)

theorem flagsOf_succeeds_iff (value : Json) : (∃ flags, flagsOf value = .ok flags) ↔ value.HasMembers := by
  unfold flagsOf Json.HasMembers
  by_cases empty : value.isEmpty = true
  · simp [empty]
  · simp only [empty]
    cases value <;> simp

theorem NamedType.ofFields_succeeds_iff (flags : List String) (fields : List (String × Json)) :
    (∃ type, ofFields flags fields = .ok type) ↔
      (Json.field fields "id").IsInteger ∧ (Json.field fields "recursionId").IsFinite ∧
        (Json.field fields "instantiatedType").IsFinite ∧
          Declaration.IsReadable (Json.field fields "firstDeclaration") := by
  rw [← Json.integer_succeeds_iff, ← Json.integer?_succeeds_iff, ← Json.integer?_succeeds_iff,
    ← Declaration.ofJson_succeeds_iff]
  constructor
  · rintro ⟨type, run⟩
    obtain ⟨id, readId, run⟩ := bind_ok_iff.mp run
    obtain ⟨recursion, readRecursion, run⟩ := bind_ok_iff.mp run
    obtain ⟨instantiated, readInstantiated, run⟩ := bind_ok_iff.mp run
    obtain ⟨declaration, readDeclaration, _⟩ := bind_ok_iff.mp run
    exact ⟨⟨id, readId⟩, ⟨recursion, readRecursion⟩, ⟨instantiated, readInstantiated⟩,
      declaration, readDeclaration⟩
  · rintro ⟨⟨id, readId⟩, ⟨recursion, readRecursion⟩, ⟨instantiated, readInstantiated⟩,
      declaration, readDeclaration⟩
    refine bind_succeeds_iff.mpr ⟨id, readId, ?_⟩
    refine bind_succeeds_iff.mpr ⟨recursion, readRecursion, ?_⟩
    refine bind_succeeds_iff.mpr ⟨instantiated, readInstantiated, ?_⟩
    exact bind_succeeds_iff.mpr ⟨declaration, readDeclaration, _, rfl⟩

theorem Entry.ofFields_succeeds_iff (fields : List (String × Json)) :
    (∃ entry, ofFields fields = .ok entry) ↔ IsReadable fields := by
  have readable : IsReadable fields ↔ (Json.field fields "flags").HasMembers ∧
      (Json.field fields "id").IsInteger ∧ (Json.hasField fields "symbolName" = true →
        (Json.field fields "recursionId").IsFinite ∧ (Json.field fields "instantiatedType").IsFinite ∧
          Declaration.IsReadable (Json.field fields "firstDeclaration")) := by
    constructor
    · intro read
      exact ⟨read.flags, read.id, fun named =>
        ⟨read.recursionId named, read.instantiatedType named, read.declaration named⟩⟩
    · rintro ⟨flags, id, more⟩
      exact ⟨flags, id, fun named => (more named).1, fun named => (more named).2.1,
        fun named => (more named).2.2⟩
  rw [readable, ← flagsOf_succeeds_iff]
  unfold ofFields
  rw [bind_succeeds_iff]
  by_cases named : Json.hasField fields "symbolName" = true
  · simp only [named, if_true, forall_const]
    constructor
    · rintro ⟨flags, readFlags, entry, run⟩
      obtain ⟨type, run, _⟩ := bind_ok_iff.mp run
      exact ⟨⟨flags, readFlags⟩, (NamedType.ofFields_succeeds_iff flags fields).mp
        ⟨type, mapError_ok_iff.mp run⟩⟩
    · rintro ⟨⟨flags, readFlags⟩, read⟩
      obtain ⟨type, run⟩ := (NamedType.ofFields_succeeds_iff flags fields).mpr read
      exact ⟨flags, readFlags, _, bind_ok_iff.mpr ⟨type, mapError_ok_iff.mpr run, rfl⟩⟩
  · rw [Bool.not_eq_true] at named
    simp only [named, Bool.false_eq_true, if_false, false_imp_iff, and_true,
      ← Json.integer_succeeds_iff]
    constructor
    · rintro ⟨flags, readFlags, entry, run⟩
      obtain ⟨id, readId, _⟩ := bind_ok_iff.mp run
      exact ⟨⟨flags, readFlags⟩, id, mapError_ok_iff.mp readId⟩
    · rintro ⟨⟨flags, readFlags⟩, id, readId⟩
      exact ⟨flags, readFlags, _, bind_ok_iff.mpr ⟨id, mapError_ok_iff.mpr readId, rfl⟩⟩

/-- The value that tells what an event is about. -/
def Event.subjectOf (fields : List (String × Json)) : Json :=
  match Json.field fields "args" with
  | .obj args => Json.field args "sourceId"
  | _ => .null

/-- The row is of an allowed kind. -/
def Event.IsAllowed (kinds : CheckKinds) (fields : List (String × Json)) : Prop :=
  (Json.field fields "cat").textOrEmpty ∈ kinds.categories ∧
    (Json.field fields "name").textOrEmpty ∈ kinds.names

/-- The times of the row are doubles, and a check tells what it is about. -/
structure Event.IsReadable (kinds : CheckKinds) (fields : List (String × Json)) : Prop where
  start : ¬ (Json.field fields "ts").IsBeyondDoubles
  duration : ¬ (Json.field fields "dur").IsBeyondDoubles
  subject : IsAllowed kinds fields → ¬ (subjectOf fields).IsInfinite

theorem Event.ofFields_succeeds_iff (fields : List (String × Json)) :
    (∃ event : Event Float, ofFields fields = .ok event) ↔
      ¬ (Json.field fields "ts").IsBeyondDoubles ∧ ¬ (Json.field fields "dur").IsBeyondDoubles := by
  rw [← Duration.floatOfJson_succeeds_iff, ← Duration.floatOfJson_succeeds_iff]
  constructor
  · rintro ⟨event, run⟩
    obtain ⟨start, readStart, run⟩ := bind_ok_iff.mp run
    obtain ⟨duration, readDuration, _⟩ := bind_ok_iff.mp run
    exact ⟨⟨start, readStart⟩, duration, readDuration⟩
  · rintro ⟨⟨start, readStart⟩, duration, readDuration⟩
    exact ⟨_, bind_ok_iff.mpr ⟨start, readStart, bind_ok_iff.mpr ⟨duration, readDuration, rfl⟩⟩⟩

/-- What an event has from its row beside its times. -/
theorem Event.parts_of_ofFields {D : Type} [Duration D] {fields : List (String × Json)} {event : Event D}
    (read : ofFields fields = .ok event) :
    event.source = idOf (subjectOf fields) ∧
      ∀ kinds, event.isCheck kinds = true ↔ IsAllowed kinds fields := by
  obtain ⟨start, _, read⟩ := bind_ok_iff.mp read
  obtain ⟨duration, _, read⟩ := bind_ok_iff.mp read
  cases read
  constructor
  · unfold source subjectOf
    cases Json.field fields "args" <;> rfl
  · intro kinds
    simp [isCheck, IsAllowed]

theorem Json.mem_objects {rows : List Json} {fields : List (String × Json)} :
    fields ∈ objects rows ↔ .obj fields ∈ rows := by
  unfold objects
  rw [List.mem_filterMap]
  constructor
  · rintro ⟨row, member, eq⟩
    cases row <;> cases eq
    exact member
  · intro member
    exact ⟨.obj fields, member, rfl⟩

theorem Catalog.mem_candidates {rows : List Json} {fields : List (String × Json)} :
    fields ∈ candidates rows ↔ .obj fields ∈ rows ∧ Json.hasField fields "id" = true := by
  unfold candidates
  rw [List.mem_filterMap]
  constructor
  · rintro ⟨row, member, eq⟩
    cases row with
    | obj found =>
      dsimp only at eq
      split at eq
      · rename_i id
        cases eq
        exact ⟨member, id⟩
      · cases eq
    | _ => cases eq
  · rintro ⟨member, id⟩
    exact ⟨.obj fields, member, if_pos id⟩

theorem Catalog.ofRows_succeeds_iff (rows : List Json) :
    (∃ catalog, ofRows rows = .ok catalog) ↔
      ∀ fields, .obj fields ∈ rows → Json.hasField fields "id" = true → Entry.IsReadable fields := by
  unfold ofRows
  rw [mapM_succeeds_iff]
  constructor
  · intro each fields member id
    exact (Entry.ofFields_succeeds_iff fields).mp (each fields (mem_candidates.mpr ⟨member, id⟩))
  · intro each fields member
    obtain ⟨row, id⟩ := mem_candidates.mp member
    exact (Entry.ofFields_succeeds_iff fields).mpr (each fields row id)

end CheckCost
