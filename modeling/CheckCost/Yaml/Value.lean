import CheckCost.Entries
import CheckCost.Json.Basic
import CheckCost.Number.Binary
import CheckCost.Yaml.Moment

/-!
Values that documents stand for. A mapping lists its fields in the order in which their keys first
occurred; numbers and truth values that are equal are one key.
-/
namespace CheckCost.Yaml

inductive Value where
  | null
  | bool (value : Bool)
  | int (value : Int)
  | float (value : Float)
  | str (text : String)
  | bytes (content : List UInt8)
  | moment (moment : Moment)
  | seq (items : List Value)
  | map (fields : List (Value × Value))
  | set (items : List Value)
  | pair (first second : Value)

namespace Value

def kind : Value → String
  | null => "NoneType"
  | bool _ => "bool"
  | int _ => "int"
  | float _ => "float"
  | str _ => "str"
  | bytes _ => "bytes"
  | moment (.date _) => "date"
  | moment (.time ..) => "datetime"
  | seq _ => "list"
  | map _ => "dict"
  | set _ => "set"
  | pair .. => "tuple"

/-- Null, false, zero, and whatever holds nothing. -/
def isEmpty : Value → Bool
  | null => true
  | bool value => !value
  | int value => value == 0
  | float value => value == 0.0
  | str text => text.isEmpty
  | bytes content => content.isEmpty
  | moment _ => false
  | seq items => items.isEmpty
  | map fields => fields.isEmpty
  | set items => items.isEmpty
  | pair .. => false

/-- Sequences, mappings and sets are no keys. -/
def isKey : Value → Bool
  | seq _ | map _ | set _ => false
  | pair first second => first.isKey && second.isKey
  | _ => true

/-- The integer that a key counts as. -/
def integer? : Value → Option Int
  | bool value => some (if value then 1 else 0)
  | int value => some value
  | float value => if Number.isWhole value then (Number.truncate value).toOption else none
  | _ => none

/-- Two keys are one. -/
def sameKey (a b : Value) : Bool :=
  match a.integer?, b.integer? with
  | some m, some n => m == n
  | none, none =>
    match a, b with
    | null, null => true
    | float x, float y => x == y || (x.isNaN && y.isNaN)
    | str s, str t => s == t
    | bytes s, bytes t => s == t
    | moment s, moment t => s == t
    | pair s t, pair u v => s.sameKey u && t.sameKey v
    | _, _ => false
  | _, _ => false

instance : BEq Value := ⟨sameKey⟩

/-- A mapping of fields, some of whose keys may be the same. -/
def ofFields (fields : List (Value × Value)) : List (Value × Value) := Entries.putAll [] fields

mutual

/-- The same value as a document would hold it. -/
def ofJson : Json → Value
  | .null => null
  | .bool value => bool value
  | .int value => int value
  | .float value => float value
  | .str text => str text
  | .arr items => seq (ofItems items)
  | .obj fields => map (ofNamed fields)

def ofItems : List Json → List Value
  | [] => []
  | item :: rest => ofJson item :: ofItems rest

def ofNamed : List (String × Json) → List (Value × Value)
  | [] => []
  | (name, value) :: rest => (str name, ofJson value) :: ofNamed rest

end

end Value

end CheckCost.Yaml
