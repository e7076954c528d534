import CheckCost.Json.Basic
import CheckCost.Number.Numeral

/-!
Integers out of values. A double loses its fraction, a text has to write an integer, and the truth
values count as one and zero.
-/
namespace CheckCost.Json

def integer : Json → Except NumberFault Int
  | bool value => .ok (if value then 1 else 0)
  | int value => .ok value
  | float value => Number.truncate value
  | str text => Number.integer? text
  | value => .error (.noInteger value.kind)

/-- As the integer, with zero for an empty value. -/
def integerOrZero (value : Json) : Except NumberFault Int :=
  if value.isEmpty then .ok 0 else value.integer

/-- The integer of a number; any other value has none. -/
def integer? : Json → Except NumberFault (Option Int)
  | int value => .ok (some value)
  | float value => some <$> Number.truncate value
  | _ => .ok none

end CheckCost.Json
