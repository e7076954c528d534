import CheckCost.Proofs.CheckIndex
import CheckCost.Proofs.Entries
import CheckCost.Proofs.Readable
import Mathlib.Data.Finset.Dedup

/-!
What an index tells of all checks that were ever added to it. A refused subject strikes after its check was
counted, and the next checks are added to the index that it leaves behind.
-/
namespace CheckCost

/-- The type that the event is about. One whose subject is refused is about none. -/
def Event.subject? (event : Event D) : Option Int :=
  match event.source with
  | .ok subject => subject
  | .error _ => none

theorem Event.subject?_eq_some_iff {event : Event D} {id : Int} :
    event.subject? = some id ↔ event.source = .ok (some id) := by
  unfold Event.subject?
  cases event.source with
  | ok subject => simp
  | error fault => simp

/-! Members in the order in which they first came. -/

theorem eraseDups_concat [BEq α] [LawfulBEq α] (items : List α) (item : α) :
    (items ++ [item]).eraseDups =
      if items.eraseDups.contains item then items.eraseDups else items.eraseDups ++ [item] := by
  rw [List.eraseDups_append]
  by_cases known : item ∈ items
  · simp [known, List.removeAll]
  · simp [known, List.removeAll, List.eraseDups_cons]

theorem nodup_eraseDups [BEq α] [LawfulBEq α] (items : List α) : items.eraseDups.Nodup := by
  induction items using List.reverseRecOn with
  | nil => simp
  | append_singleton rest item ih =>
    rw [eraseDups_concat]
    exact Entries.nodup_adjoin ih item

theorem length_eraseDups [DecidableEq α] (items : List α) : items.eraseDups.length = items.toFinset.card := by
  rw [← List.toFinset_card_of_nodup (nodup_eraseDups items)]
  congr 1
  ext item
  simp

theorem card_eq_length_iff [DecidableEq α] (items : List α) :
    items.toFinset.card = items.length ↔ items.Nodup := by
  simpa using Multiset.toFinset_card_eq_card_iff_nodup (m := (items : Multiset α))

namespace CheckIndex

/-- The index that the calls leave behind, those that end in a refusal included. -/
def afterAll (index : CheckIndex D) (events : List (Event D)) : CheckIndex D :=
  events.foldl (fun index event => (index.add event).1) index

theorem afterAll_concat (index : CheckIndex D) (events : List (Event D)) (event : Event D) :
    index.afterAll (events ++ [event]) = ((index.afterAll events).add event).1 := by
  simp [afterAll]

/-! What one call does. -/

theorem checkCount_add (index : CheckIndex D) (event : Event D) :
    (index.add event).1.checkCount = index.checkCount + 1 := by
  unfold add
  cases event.source with
  | error fault => rfl
  | ok subject => cases subject <;> rfl

/-- A check without a subject, be it absent or refused, is only counted. -/
theorem add_of_no_subject (index : CheckIndex D) {event : Event D} (none : event.subject? = none) :
    (index.add event).1 = { index with checkCount := index.checkCount + 1 } := by
  unfold Event.subject? at none
  unfold add
  cases source : event.source with
  | error fault => rfl
  | ok subject =>
    rw [source] at none
    cases none
    rfl

theorem ids_add_of_subject (index : CheckIndex D) {event : Event D} {id : Int}
    (subject : event.subject? = some id) :
    (index.add event).1.ids = if index.ids.contains id then index.ids else index.ids ++ [id] := by
  have source := Event.subject?_eq_some_iff.mp subject
  have entries : (index.add event).1.entries = Entries.put id event index.entries := by simp [add, source]
  rw [ids, entries]
  exact Entries.keys_put id event index.entries

theorem add_error_iff (index : CheckIndex D) (event : Event D) (fault : NumberFault) :
    (index.add event).2 = .error fault ↔ event.source = .error fault := by
  unfold add
  cases event.source with
  | error fault => simp
  | ok subject => cases subject <;> simp

/-- A call ends in a refusal exactly if the subject is an infinite double. -/
theorem add_refuses_iff (index : CheckIndex D) (event : Event D) :
    (∃ fault, (index.add event).2 = .error fault) ↔ (Json.field event.args "sourceId").IsInfinite := by
  have read := Event.idOf_succeeds_iff (Json.field event.args "sourceId")
  rw [← not_iff_not, ← read]
  simp only [add_error_iff, Event.source]
  cases Event.idOf (Json.field event.args "sourceId") with
  | ok id => simp
  | error fault => simp

/-! What a run of calls does, by the call that was made last. -/

theorem checkCount_afterAll (events : List (Event D)) : (empty.afterAll events).checkCount = events.length := by
  induction events using List.reverseRecOn with
  | nil => rfl
  | append_singleton rest event ih => rw [afterAll_concat, checkCount_add, ih, List.length_append]; rfl

theorem ids_afterAll (events : List (Event D)) :
    (empty.afterAll events).ids = (events.filterMap Event.subject?).eraseDups := by
  -- from the end of the run, as only the last call sees all types before it
  induction events using List.reverseRecOn with
  | nil => rfl
  | append_singleton rest event ih =>
    rw [afterAll_concat, List.filterMap_append]
    cases subject : event.subject? with
    | none =>
      rw [add_of_no_subject _ subject, List.filterMap_cons_none subject, List.filterMap_nil, List.append_nil]
      exact ih
    | some id =>
      rw [ids_add_of_subject _ subject, ih]
      simpa [subject] using (eraseDups_concat (rest.filterMap Event.subject?) id).symm

theorem get?_afterAll (events : List (Event D)) (id : Int) :
    (empty.afterAll events).get? id = (events.filter (Event.isAbout id)).getLast? := by
  induction events using List.reverseRecOn with
  | nil => rfl
  | append_singleton rest event ih =>
    rw [afterAll_concat, get?_add, ih, List.filter_append]
    by_cases about : event.isAbout id
    · simp [about]
    · simp [about]

theorem size_eq (index : CheckIndex D) : index.size = index.ids.length := by
  simp [size, ids, Entries.keys]

theorem contains_iff (index : CheckIndex D) (id : Int) : index.contains id = true ↔ id ∈ index.ids :=
  Entries.isSome_lookup_iff id index.entries

theorem size_afterAll (events : List (Event D)) :
    (empty.afterAll events).size = (events.filterMap Event.subject?).toFinset.card := by
  rw [size_eq, ids_afterAll, length_eraseDups]

/-- As many types as calls are known exactly if every call found a subject, and no two of them the same. -/
theorem checkCount_eq_size_iff (events : List (Event D)) :
    (empty.afterAll events).checkCount = (empty.afterAll events).size ↔
      (∀ event ∈ events, ∃ id, event.source = .ok (some id)) ∧
        events.Pairwise fun first second => first.subject? ≠ second.subject? := by
  have found := List.length_filterMap_le Event.subject? events
  have types := List.toFinset_card_le (events.filterMap Event.subject?)
  have all : (events.filterMap Event.subject?).length = events.length ↔
      ∀ event ∈ events, ∃ id, event.source = .ok (some id) := by
    simp only [List.filterMap_length_eq_length, Option.isSome_iff_exists, Event.subject?_eq_some_iff]
  rw [checkCount_afterAll, size_afterAll]
  constructor
  · intro same
    have subjects := all.mp (by omega)
    have distinct := (card_eq_length_iff _).mp (by omega : (events.filterMap Event.subject?).toFinset.card = _)
    refine ⟨subjects, ?_⟩
    refine (List.pairwise_filterMap.mp distinct).imp_of_mem ?_
    intro first second member _ apart same
    obtain ⟨id, subject⟩ := subjects first member
    have known := Event.subject?_eq_some_iff.mpr subject
    exact apart id known id (same.symm.trans known) rfl
  · rintro ⟨subjects, apart⟩
    have distinct : (events.filterMap Event.subject?).Nodup := by
      refine List.pairwise_filterMap.mpr (apart.imp ?_)
      rintro first second other id subject _ later rfl
      exact other (subject.trans later.symm)
    have := all.mpr subjects
    have := (card_eq_length_iff _).mpr distinct
    omega

/-- What an index tells after any calls. All are counted, and the types are listed in the order in which their
first check came, each once and with its last check. A call that finds no subject, or has it refused, changes
nothing but the count. -/
theorem keeps_history (events : List (Event D)) :
    let index := empty.afterAll events
    let subjects := events.filterMap Event.subject?
    index.checkCount = events.length ∧
    index.ids = subjects.eraseDups ∧ index.ids.Nodup ∧
    (∀ id, index.get? id = (events.filter (Event.isAbout id)).getLast?) ∧
    (∀ id, (index.contains id = true ↔ index.get? id ≠ none) ∧
      (index.contains id = true ↔ id ∈ index.ids)) ∧
    index.size = subjects.toFinset.card ∧
    (∀ event : Event D, event.subject? = none →
      (index.add event).1 = { index with checkCount := index.checkCount + 1 }) ∧
    (∀ event : Event D, (∃ fault, (index.add event).2 = .error fault) ↔
      (Json.field event.args "sourceId").IsInfinite) ∧
    (index.checkCount = index.size ↔
      (∀ event ∈ events, ∃ id, event.source = .ok (some id)) ∧
        events.Pairwise fun first second => first.subject? ≠ second.subject?) := by
  intro index subjects
  have order : index.ids = subjects.eraseDups := ids_afterAll events
  refine ⟨checkCount_afterAll events, order, ?_, get?_afterAll events, ?_, size_afterAll events, ?_, ?_,
    checkCount_eq_size_iff events⟩
  · rw [order]
    exact nodup_eraseDups subjects
  · exact fun id => ⟨Option.isSome_iff_ne_none, contains_iff index id⟩
  · exact fun event none => add_of_no_subject index none
  · exact add_refuses_iff index

end CheckIndex

end CheckCost
