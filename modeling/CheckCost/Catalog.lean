import CheckCost.Json.Display
import CheckCost.Json.Integer

/-!
The catalog of types that the compiler wrote beside the trace. Rows that are not objects or have no id
are left out; of the others a field that cannot be read is an error.
-/
namespace CheckCost

structure Position where
  line : Int
  character : Int
  deriving DecidableEq, Repr

structure Declaration where
  path : String
  start : Position
  finish : Position
  deriving DecidableEq, Repr

structure NamedType where
  id : Int
  name : String
  flags : List String
  recursionId : Option Int
  instantiatedType : Option Int
  declaration : Option Declaration
  display : Json

inductive Entry where
  | named (type : NamedType)
  /-- Built into the compiler, or without a name. -/
  | intrinsic (id : Int) (name : Option String) (flags : List String)

abbrev Catalog := List Entry

inductive RowFault where
  | number (fault : NumberFault)
  | notIterable (kind : String)
  deriving DecidableEq, Repr

def RowFault.message : RowFault → String
  | number fault => fault.message
  | notIterable kind => s!"'{kind}' object is not iterable"

instance : MonadLift (Except NumberFault) (Except RowFault) where
  monadLift := Except.mapError RowFault.number

/-- A text lists its characters, an object its names. -/
def flagsOf (value : Json) : Except RowFault (List String) :=
  if value.isEmpty then .ok []
  else
    match value with
    | .arr items => .ok (items.map Json.text)
    | .str text => .ok (text.toList.map fun c => String.ofList [c])
    | .obj fields => .ok (fields.map (·.1))
    | value => .error (.notIterable value.kind)

def Position.ofJson (value : Json) : Except NumberFault Position := do
  let fields :=
    match value with
    | .obj fields => fields
    | _ => []
  let line ← (Json.field fields "line").integerOrZero
  let character ← (Json.field fields "character").integerOrZero
  return ⟨line, character⟩

/-- Only an object with a path declares a type. -/
def Declaration.ofJson (value : Json) : Except NumberFault (Option Declaration) :=
  match value with
  | .obj fields => do
    let path := Json.field fields "path"
    if path.isEmpty then return none
    let start ← Position.ofJson (Json.field fields "start")
    let finish ← Position.ofJson (Json.field fields "end")
    return some ⟨path.text, start, finish⟩
  | _ => .ok none

def NamedType.ofFields (flags : List String) (fields : List (String × Json)) :
    Except NumberFault NamedType := do
  let id ← (Json.field fields "id").integer
  let recursionId ← (Json.field fields "recursionId").integer?
  let instantiatedType ← (Json.field fields "instantiatedType").integer?
  let declaration ← Declaration.ofJson (Json.field fields "firstDeclaration")
  return {
    id
    name := (Json.field fields "symbolName").text
    flags
    recursionId
    instantiatedType
    declaration
    display := Json.field fields "display" }

/-- The name that a value writes, unless it is null. -/
def nameOf : Json → Option String
  | .null => none
  | value => some value.text

def Entry.ofFields (fields : List (String × Json)) : Except RowFault Entry := do
  let flags ← flagsOf (Json.field fields "flags")
  if Json.hasField fields "symbolName" then
    return .named (← NamedType.ofFields flags fields)
  else
    let id ← (Json.field fields "id").integer
    return .intrinsic id (nameOf (Json.field fields "intrinsicName")) flags

/-- The fields of the rows that are objects with an id. -/
def Catalog.candidates (rows : List Json) : List (List (String × Json)) :=
  rows.filterMap fun
    | .obj fields => if Json.hasField fields "id" then some fields else none
    | _ => none

def Catalog.ofRows (rows : List Json) : Except RowFault Catalog :=
  (Catalog.candidates rows).mapM Entry.ofFields

end CheckCost
