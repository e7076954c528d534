import CheckCost.Catalog
import CheckCost.Proofs.Outcome
import CheckCost.Trace

/-!
Reading rows one after the other. Both readers are described by relations that grow row by row, so that
later proofs can follow the rows and need not know how the readers collect their results.
-/
namespace CheckCost

open Outcome

/-- The trace has an event of each row that is an object, in the order of the rows. -/
inductive Trace.Reads [Duration D] : List Json → Trace D → Prop where
  | nil : Reads [] []
  | skip {row : Json} {rest : List Json} {trace : Trace D}
      (other : ∀ fields, row ≠ .obj fields) (more : Reads rest trace) : Reads (row :: rest) trace
  | read {fields : List (String × Json)} {event : Event D} {rest : List Json} {trace : Trace D}
      (first : Event.ofFields fields = .ok event) (more : Reads rest trace) :
      Reads (.obj fields :: rest) (event :: trace)

theorem Trace.ofRows_skip [Duration D] {row : Json} (other : ∀ fields, row ≠ .obj fields)
    (rest : List Json) : (ofRows (row :: rest) : Except NumberFault (Trace D)) = ofRows rest := by
  cases row <;> simp_all [ofRows, Json.objects]

theorem Trace.ofRows_read [Duration D] (fields : List (String × Json)) (rest : List Json) :
    (ofRows (.obj fields :: rest) : Except NumberFault (Trace D)) =
      Event.ofFields fields >>= fun event => ofRows rest >>= fun trace => .ok (event :: trace) := by
  simp [ofRows, Json.objects, pure, Except.pure]

theorem Trace.reads_of_ofRows [Duration D] {rows : List Json} {trace : Trace D}
    (run : ofRows rows = .ok trace) : Reads rows trace := by
  induction rows generalizing trace with
  | nil =>
    cases run
    exact .nil
  | cons row rest ih =>
    by_cases object : ∃ fields, row = .obj fields
    · obtain ⟨fields, rfl⟩ := object
      rw [ofRows_read, bind_ok_iff] at run
      obtain ⟨event, first, run⟩ := run
      obtain ⟨later, more, eq⟩ := bind_ok_iff.mp run
      cases eq
      exact .read first (ih more)
    · have other : ∀ fields, row ≠ .obj fields := fun fields eq => object ⟨fields, eq⟩
      rw [ofRows_skip other] at run
      exact .skip other (ih run)

theorem Trace.Reads.event_of_row [Duration D] {rows : List Json} {trace : Trace D}
    (reads : Reads rows trace) {fields : List (String × Json)} (member : .obj fields ∈ rows) :
    ∃ event ∈ trace, Event.ofFields fields = .ok event := by
  induction reads with
  | nil => simp at member
  | skip other more ih =>
    rcases List.mem_cons.mp member with same | later
    · exact absurd same.symm (other fields)
    · exact ih later
  | read first more ih =>
    rcases List.mem_cons.mp member with same | later
    · cases same
      exact ⟨_, by simp, first⟩
    · obtain ⟨event, found, read⟩ := ih later
      exact ⟨event, by simp [found], read⟩

/-- The row is an object with an id. -/
def Catalog.IsCandidate (row : Json) (fields : List (String × Json)) : Prop :=
  row = .obj fields ∧ Json.hasField fields "id" = true

/-- The catalog has an entry of each row that is an object with an id, in the order of the rows. -/
inductive Catalog.Reads : List Json → Catalog → Prop where
  | nil : Reads [] []
  | skip {row : Json} {rest : List Json} {catalog : Catalog}
      (other : ∀ fields, ¬ IsCandidate row fields) (more : Reads rest catalog) :
      Reads (row :: rest) catalog
  | read {row : Json} {fields : List (String × Json)} {entry : Entry} {rest : List Json}
      {catalog : Catalog} (candidate : IsCandidate row fields)
      (first : Entry.ofFields fields = .ok entry) (more : Reads rest catalog) :
      Reads (row :: rest) (entry :: catalog)

theorem Catalog.ofRows_skip {row : Json} (other : ∀ fields, ¬ IsCandidate row fields)
    (rest : List Json) : ofRows (row :: rest) = ofRows rest := by
  cases row <;> simp_all [ofRows, candidates, IsCandidate]

theorem Catalog.ofRows_read {row : Json} {fields : List (String × Json)}
    (candidate : IsCandidate row fields) (rest : List Json) :
    ofRows (row :: rest) =
      Entry.ofFields fields >>= fun entry => ofRows rest >>= fun catalog => .ok (entry :: catalog) := by
  obtain ⟨rfl, id⟩ := candidate
  simp [ofRows, candidates, id, pure, Except.pure]

theorem Catalog.reads_of_ofRows {rows : List Json} {catalog : Catalog}
    (run : ofRows rows = .ok catalog) : Reads rows catalog := by
  induction rows generalizing catalog with
  | nil =>
    cases run
    exact .nil
  | cons row rest ih =>
    by_cases has : ∃ fields, IsCandidate row fields
    · obtain ⟨fields, candidate⟩ := has
      rw [ofRows_read candidate, bind_ok_iff] at run
      obtain ⟨entry, first, run⟩ := run
      obtain ⟨later, more, eq⟩ := bind_ok_iff.mp run
      cases eq
      exact .read candidate first (ih more)
    · have other : ∀ fields, ¬ IsCandidate row fields := fun fields is => has ⟨fields, is⟩
      rw [ofRows_skip other] at run
      exact .skip other (ih run)

end CheckCost
