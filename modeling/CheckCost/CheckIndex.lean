import CheckCost.Entries
import CheckCost.Trace

/-!
Checks by the type they are about. A later check of a type replaces the earlier one and keeps its place
in the order.
-/
namespace CheckCost

structure CheckIndex (D : Type) where
  /-- How many checks were added, those without a subject included. -/
  checkCount : Nat
  /-- The last check of each subject, in the order in which the subjects first came. -/
  entries : List (Int × Event D)

namespace CheckIndex

def empty : CheckIndex D := ⟨0, []⟩

def ids (index : CheckIndex D) : List Int := Entries.keys index.entries

def size (index : CheckIndex D) : Nat := index.entries.length

def get? (index : CheckIndex D) (id : Int) : Option (Event D) := index.entries.lookup id

def contains (index : CheckIndex D) (id : Int) : Bool := (index.get? id).isSome

/-- The index after a check, and what became of reading its subject. Every check counts, but only one
with a subject is kept. -/
def add (index : CheckIndex D) (event : Event D) : CheckIndex D × Except NumberFault Unit :=
  let counted := { index with checkCount := index.checkCount + 1 }
  match event.source with
  | .ok (some id) => ({ counted with entries := Entries.put id event index.entries }, .ok ())
  | .ok none => (counted, .ok ())
  | .error fault => (counted, .error fault)

def ofTrace (kinds : CheckKinds) (trace : Trace D) : Except NumberFault (CheckIndex D) :=
  (trace.filter (Event.isCheck kinds)).foldlM
    (fun index event =>
      let (next, outcome) := index.add event
      outcome.map fun _ => next)
    empty

end CheckIndex

end CheckCost
