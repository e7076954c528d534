import CheckCost.Duration
import CheckCost.Json.Display
import CheckCost.Json.Integer

/-!
Events of a compiler trace. Rows that are not objects are left out; missing or strange fields of the
others fall back to empty text, zero durations and absent subjects.
-/
namespace CheckCost

structure Event (D : Type) where
  category : String
  name : String
  phase : String
  start : D
  duration : D
  args : List (String × Json)

namespace Event

/-- The id that an argument holds. Null, truth values and whatever writes no integer hold none; only an
infinite double is refused. -/
def idOf (value : Json) : Except NumberFault (Option Int) :=
  match value with
  | .null | .bool _ => .ok none
  | value =>
    match value.integer with
    | .ok id => .ok (some id)
    | .error .infinite => .error .infinite
    | .error _ => .ok none

/-- The id of the type that the event is about. -/
def source (event : Event D) : Except NumberFault (Option Int) :=
  idOf (Json.field event.args "sourceId")

/-- The id of the type that the subject was compared with. -/
def target (event : Event D) : Except NumberFault (Option Int) :=
  idOf (Json.field event.args "targetId")

def ofFields [Duration D] (fields : List (String × Json)) : Except NumberFault (Event D) := do
  let start ← Duration.ofJson (Json.field fields "ts")
  let duration ← Duration.ofJson (Json.field fields "dur")
  return {
    category := (Json.field fields "cat").textOrEmpty
    name := (Json.field fields "name").textOrEmpty
    phase := (Json.field fields "ph").textOrEmpty
    start
    duration
    args :=
      match Json.field fields "args" with
      | .obj args => args
      | _ => [] }

end Event

abbrev Trace (D : Type) := List (Event D)

/-- The fields of the rows that are objects. -/
def Json.objects (rows : List Json) : List (List (String × Json)) :=
  rows.filterMap fun
    | .obj fields => some fields
    | _ => none

def Trace.ofRows [Duration D] (rows : List Json) : Except NumberFault (Trace D) :=
  (Json.objects rows).mapM Event.ofFields

/-- Which events count as checks: those of an allowed category and an allowed name. -/
structure CheckKinds where
  names : List String
  categories : List String

/-- Structural comparisons of types, in either category of the checker. -/
def CheckKinds.structural : CheckKinds := ⟨["structuredTypeRelatedTo"], ["check", "checkTypes"]⟩

def Event.isCheck (kinds : CheckKinds) (event : Event D) : Bool :=
  kinds.categories.contains event.category && kinds.names.contains event.name

end CheckCost
