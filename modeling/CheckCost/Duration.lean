import CheckCost.Json.Basic
import CheckCost.Number.Numeral

/-!
What the rankings ask of a measured duration. The program measures in doubles; all laws about totals
need only these operations, so they can also be read over exact numbers.
-/
namespace CheckCost

/-- Durations in microseconds. -/
class Duration (D : Type) where
  zero : D
  add : D → D → D
  /-- The first duration is strictly less than the second. -/
  below : D → D → Bool
  toMillis : D → D
  /-- The whole percentage that a total is of a grand total, a half rounded up; zero if nothing was
  measured. -/
  share : D → D → Except NumberFault Int
  /-- The duration that a value of a trace gives. Values that write no number give zero. -/
  ofJson : Json → Except NumberFault D

namespace Duration

def floatShare (total grand : Float) : Except NumberFault Int :=
  if grand ≤ 0.0 then .ok 0 else Number.truncate (total / grand * 100.0 + 0.5)

def floatOfJson (value : Json) : Except NumberFault Float :=
  if value.isEmpty then .ok 0.0
  else
    match value with
    | .bool _ => .ok 1.0
    | .int n => Number.nearest n
    | .float x => .ok x
    | .str text =>
      match Number.real? text with
      | .ok x => .ok x
      | .error _ => .ok 0.0
    | _ => .ok 0.0

instance : Duration Float where
  zero := 0.0
  add x y := x + y
  below x y := x < y
  toMillis x := x / 1000.0
  share := floatShare
  ofJson := floatOfJson

/-- Added up from left to right. -/
def sum [Duration D] (durations : List D) : D := durations.foldl add zero

end Duration

end CheckCost
