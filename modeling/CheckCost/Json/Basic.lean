/-!
JSON values as the input files hold them. Integers and doubles are kept apart, since only integers are
exact; an object is a list of fields in the order in which their names first occurred.
-/
namespace CheckCost

inductive Json where
  | null
  | bool (value : Bool)
  | int (value : Int)
  | float (value : Float)
  | str (text : String)
  | arr (items : List Json)
  | obj (fields : List (String × Json))
  deriving Inhabited

namespace Json

/-- Null, false, zero, and whatever holds nothing. -/
def isEmpty : Json → Bool
  | null => true
  | bool value => !value
  | int value => value == 0
  | float value => value == 0.0
  | str text => text.isEmpty
  | arr items => items.isEmpty
  | obj fields => fields.isEmpty

/-- The value under a name, null if there is none. -/
def field (fields : List (String × Json)) (name : String) : Json :=
  (fields.lookup name).getD null

def hasField (fields : List (String × Json)) (name : String) : Bool :=
  (fields.lookup name).isSome

def kind : Json → String
  | null => "NoneType"
  | bool _ => "bool"
  | int _ => "int"
  | float _ => "float"
  | str _ => "str"
  | arr _ => "list"
  | obj _ => "dict"

end Json

end CheckCost
