import Mathlib.Data.List.Forall2

/-!
Computations that can fail, taken apart at their success. A run succeeds exactly if its steps do, and
one over a list relates its results to the members.
-/
namespace CheckCost.Outcome

theorem bind_ok_iff {first : Except ε α} {next : α → Except ε β} {result : β} :
    first >>= next = .ok result ↔ ∃ value, first = .ok value ∧ next value = .ok result := by
  cases first <;> simp [bind, Except.bind]

theorem map_ok_iff {first : Except ε α} {f : α → β} {result : β} :
    first.map f = .ok result ↔ ∃ value, first = .ok value ∧ f value = result := by
  cases first <;> simp [Except.map]

theorem mapError_ok_iff {first : Except ε α} {f : ε → ε'} {result : α} :
    first.mapError f = .ok result ↔ first = .ok result := by
  cases first <;> simp [Except.mapError]

theorem bind_error_iff {first : Except ε α} {next : α → Except ε β} {fault : ε} :
    first >>= next = .error fault ↔
      first = .error fault ∨ ∃ value, first = .ok value ∧ next value = .error fault := by
  cases first <;> simp [bind, Except.bind]

theorem mapError_error_iff {first : Except ε α} {f : ε → ε'} {fault : ε'} :
    first.mapError f = .error fault ↔ ∃ cause, first = .error cause ∧ f cause = fault := by
  cases first <;> simp [Except.mapError]

theorem toOption_eq_some_iff {run : Except ε α} {result : α} : run.toOption = some result ↔ run = .ok result := by
  cases run <;> simp [Except.toOption]

theorem ok_of_toOption {run : Except ε α} {f : α → β} {shown : β}
    (eq : run.toOption.map f = some shown) : ∃ result, run = .ok result ∧ f result = shown := by
  cases run with
  | error fault => cases eq
  | ok result => exact ⟨result, rfl, Option.some.inj eq⟩

/-- A list is read exactly if each of its members is, one result for each in the same order. -/
theorem mapM_ok_iff {f : α → Except ε β} {inputs : List α} {results : List β} :
    inputs.mapM f = .ok results ↔ List.Forall₂ (fun input result => f input = .ok result) inputs results := by
  induction inputs generalizing results with
  | nil => simp [pure, Except.pure, eq_comm]
  | cons input rest ih =>
    rw [List.mapM_cons, bind_ok_iff, List.forall₂_cons_left_iff]
    constructor
    · rintro ⟨result, read, more⟩
      obtain ⟨later, readLater, eq⟩ := bind_ok_iff.mp more
      exact ⟨result, later, read, ih.mp readLater, (Except.ok.inj eq).symm⟩
    · rintro ⟨result, later, read, readLater, rfl⟩
      exact ⟨result, read, bind_ok_iff.mpr ⟨later, ih.mpr readLater, rfl⟩⟩

theorem bind_succeeds_iff {first : Except ε α} {next : α → Except ε β} :
    (∃ result, first >>= next = .ok result) ↔
      ∃ value, first = .ok value ∧ ∃ result, next value = .ok result := by
  constructor
  · rintro ⟨result, run⟩
    obtain ⟨value, done, more⟩ := bind_ok_iff.mp run
    exact ⟨value, done, result, more⟩
  · rintro ⟨value, done, result, more⟩
    exact ⟨result, bind_ok_iff.mpr ⟨value, done, more⟩⟩

theorem mapM_succeeds_iff {f : α → Except ε β} {inputs : List α} :
    (∃ results, inputs.mapM f = .ok results) ↔ ∀ input ∈ inputs, ∃ result, f input = .ok result := by
  induction inputs with
  | nil => simp [pure, Except.pure]
  | cons input rest ih =>
    rw [List.mapM_cons, bind_succeeds_iff, List.forall_mem_cons, ← ih]
    constructor
    · rintro ⟨result, read, results, more⟩
      obtain ⟨later, readLater, _⟩ := bind_ok_iff.mp more
      exact ⟨⟨result, read⟩, later, readLater⟩
    · rintro ⟨⟨result, read⟩, later, readLater⟩
      exact ⟨result, read, result :: later, bind_ok_iff.mpr ⟨later, readLater, rfl⟩⟩

theorem related_of_mem {r : α → β → Prop} {inputs : List α} {results : List β}
    (related : List.Forall₂ r inputs results) {result : β} (member : result ∈ results) :
    ∃ input ∈ inputs, r input result := by
  induction related with
  | nil => cases member
  | cons first rest ih =>
    rcases List.mem_cons.mp member with rfl | later
    · exact ⟨_, List.mem_cons_self .., first⟩
    · obtain ⟨input, inside, found⟩ := ih later
      exact ⟨input, List.mem_cons_of_mem _ inside, found⟩

/-- What holds of the members in their order holds of the results, if it carries over to them. -/
theorem pairwise_of_related {r : α → β → Prop} {before : α → α → Prop} {after : β → β → Prop}
    {inputs : List α} {results : List β}
    (carries : ∀ a b c d, r a c → r b d → before a b → after c d)
    (related : List.Forall₂ r inputs results) (ordered : inputs.Pairwise before) :
    results.Pairwise after := by
  induction related with
  | nil => exact .nil
  | cons first rest ih =>
    rw [List.pairwise_cons] at ordered ⊢
    refine ⟨?_, ih ordered.2⟩
    intro result member
    obtain ⟨input, inside, found⟩ := related_of_mem rest member
    exact carries _ _ _ _ first found (ordered.1 input inside)

end CheckCost.Outcome
