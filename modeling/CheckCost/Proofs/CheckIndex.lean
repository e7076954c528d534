import CheckCost.CheckIndex
import CheckCost.Proofs.Outcome

/-!
What an index holds after a run of checks: of each type the last check that is about it.
-/
namespace CheckCost

/-- The event tells that it is about the type. -/
def Event.isAbout (id : Int) (event : Event D) : Bool :=
  match event.source with
  | .ok (some subject) => subject == id
  | _ => false

theorem Event.isAbout_iff {id : Int} {event : Event D} :
    event.isAbout id = true ↔ event.source = .ok (some id) := by
  unfold Event.isAbout
  split
  · rename_i subject same
    simp [same]
  · rename_i other
    constructor
    · intro h; cases h
    · intro h; exact absurd h (other id)

namespace CheckIndex

/-- The index after a check, unless its subject is refused. -/
def added (index : CheckIndex D) (event : Event D) : Except NumberFault (CheckIndex D) :=
  (index.add event).2.map fun _ => (index.add event).1

theorem ofTrace_eq (kinds : CheckKinds) (trace : Trace D) :
    ofTrace kinds trace = (trace.filter (Event.isCheck kinds)).foldlM added empty := rfl

theorem get?_add (index : CheckIndex D) (event : Event D) (id : Int) :
    (index.add event).1.get? id = if event.isAbout id then some event else index.get? id := by
  unfold add Event.isAbout
  cases event.source with
  | error fault => rfl
  | ok subject =>
    cases subject with
    | none => rfl
    | some subject =>
      by_cases same : subject = id
      · subst subject
        simpa [get?] using Entries.lookup_put id event index.entries
      · simpa [get?, same] using Entries.lookup_put_of_ne subject event index.entries (Ne.symm same)

/-- A run keeps for each type the last check that is about it, and what it began with for the rest. -/
theorem get?_run {events : List (Event D)} {index result : CheckIndex D}
    (run : events.foldlM added index = .ok result) (id : Int) :
    result.get? id = (events.filter (Event.isAbout id)).getLast?.or (index.get? id) := by
  induction events generalizing index with
  | nil =>
    cases run
    simp
  | cons event rest ih =>
    rw [List.foldlM_cons, Outcome.bind_ok_iff] at run
    obtain ⟨next, step, run⟩ := run
    obtain ⟨_, _, eq⟩ := Outcome.map_ok_iff.mp step
    rw [ih run, ← eq, get?_add]
    by_cases about : event.isAbout id
    · simp only [about, if_true, List.filter_cons_of_pos, List.getLast?_cons]
      cases (rest.filter (Event.isAbout id)).getLast? <;> simp
    · simp [about]

theorem get?_ofTrace {kinds : CheckKinds} {trace : Trace D} {index : CheckIndex D}
    (run : ofTrace kinds trace = .ok index) (id : Int) :
    index.get? id = ((trace.filter (Event.isCheck kinds)).filter (Event.isAbout id)).getLast? := by
  rw [ofTrace_eq] at run
  simpa [get?, empty] using get?_run run id

theorem added_succeeds_iff (index : CheckIndex D) (event : Event D) :
    (∃ next, added index event = .ok next) ↔ ∃ id, event.source = .ok id := by
  unfold added add
  cases event.source with
  | error fault => simp [Except.map]
  | ok subject => cases subject <;> simp [Except.map]

/-- A run ends well exactly if no subject is refused, whatever the index it began with. -/
theorem run_succeeds_iff (events : List (Event D)) (index : CheckIndex D) :
    (∃ result, events.foldlM added index = .ok result) ↔ ∀ event ∈ events, ∃ id, event.source = .ok id := by
  induction events generalizing index with
  | nil => exact iff_of_true ⟨index, rfl⟩ (fun _ member => by cases member)
  | cons event rest ih =>
    rw [List.foldlM_cons, Outcome.bind_succeeds_iff, List.forall_mem_cons, ← added_succeeds_iff index]
    constructor
    · rintro ⟨next, step, run⟩
      exact ⟨⟨next, step⟩, (ih next).mp run⟩
    · rintro ⟨⟨next, step⟩, later⟩
      exact ⟨next, step, (ih next).mpr later⟩

theorem ofTrace_succeeds_iff (kinds : CheckKinds) (trace : Trace D) :
    (∃ index, ofTrace kinds trace = .ok index) ↔
      ∀ event ∈ trace, event.isCheck kinds = true → ∃ id, event.source = .ok id := by
  rw [ofTrace_eq, run_succeeds_iff]
  simp only [List.mem_filter, and_imp]

end CheckIndex

end CheckCost
