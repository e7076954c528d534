import CheckCost.Text.Quoted

/-!
Why a value is no number: the causes, and the wording of each.
-/
namespace CheckCost

inductive NumberFault where
  /-- An infinite value where an integer is needed. -/
  | infinite
  /-- A value that is not a number where an integer is needed. -/
  | undefined
  /-- A text that writes no integer in the base. -/
  | notInteger (base : Nat) (text : String)
  | notReal (text : String)
  /-- An integer of more digits than may be read. -/
  | tooManyDigits (digits : Nat)
  /-- An integer beyond every finite double. -/
  | tooLarge
  | noInteger (kind : String)
  deriving DecidableEq, Repr

namespace NumberFault

/-- The longest integer that may be read, in digits. -/
def digitLimit : Nat := 4300

def shownLimit : Nat := 200

def message : NumberFault → String
  | infinite => "cannot convert float infinity to integer"
  | undefined => "cannot convert float NaN to integer"
  | notInteger base text =>
    let shown := String.ofList ((Text.quoted text).toList.take shownLimit)
    s!"invalid literal for int() with base {base}: {shown}"
  | notReal text => s!"could not convert string to float: {Text.quoted text}"
  | tooManyDigits digits =>
    s!"Exceeds the limit ({digitLimit} digits) for integer string conversion: value has {digits} " ++
      "digits; use sys.set_int_max_str_digits() to increase the limit"
  | tooLarge => "int too large to convert to float"
  | noInteger kind =>
    s!"int() argument must be a string, a bytes-like object or a real number, not '{kind}'"

end NumberFault

end CheckCost
