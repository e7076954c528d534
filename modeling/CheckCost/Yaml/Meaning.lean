import CheckCost.Number.Radix
import CheckCost.Text.Base64
import CheckCost.Yaml.Document
import CheckCost.Yaml.Value

/-!
What nodes mean. Collections are made before what they hold, level by level, so that of several faults
the one nearest to the root is reported; a collection is refused as a key before anything in it is made.
Mappings first take the fields that others lend them.
-/
namespace CheckCost.Yaml

/-! Scalars. -/

namespace Scalar

def withoutRules (cs : List Char) : List Char := cs.filter (· != '_')

/-- Takes a sign off; there has to be something before and after it. -/
def signed (cs : List Char) : Except Fault (Bool × List Char) :=
  match cs with
  | [] => .error .noDigits
  | c :: rest => if c = '-' then .ok (true, rest) else if c = '+' then .ok (false, rest) else .ok (false, cs)

def number (result : Except NumberFault α) : Except Fault α := result.mapError .number

/-- The places of a number to the base sixty, added up from the last one on. -/
def sexagesimal (places : List Int) : Int := places.foldl (fun n place => n * 60 + place) 0

def magnitude (body : List Char) : Except Fault Int :=
  match body with
  | [] => .error .noDigits
  | ['0'] => .ok 0
  | '0' :: 'b' :: rest => number (Number.integerIn? 2 (String.ofList rest))
  | '0' :: 'x' :: rest => number (Number.integerIn? 16 (String.ofList rest))
  | '0' :: _ => number (Number.integerIn? 8 (String.ofList body))
  | _ =>
    if body.contains ':' then
      number (sexagesimal <$>
        (Tag.colonParts body).mapM fun part => Number.integer? (String.ofList part))
    else number (Number.integer? (String.ofList body))

def int (cs : List Char) : Except Fault Value := do
  let (negative, body) ← signed (withoutRules cs)
  let n ← magnitude body
  return .int (if negative then -n else n)

/-- The sum of the places, the last one first, each with its power of sixty. -/
def sexagesimalFloat (power : Int) (sum : Float) : List Float → Except NumberFault Float
  | [] => .ok sum
  | place :: rest => do
    let weight ← Number.nearest power
    sexagesimalFloat (power * 60) (sum + place * weight) rest

def floatMagnitude (body : List Char) : Except NumberFault Float :=
  if body = ".inf".toList then .ok (1.0 / 0.0)
  else if body = ".nan".toList then .ok (0.0 / 0.0)
  else if body.contains ':' then do
    let places ← (Tag.colonParts body).mapM fun part => Number.real? (String.ofList part)
    sexagesimalFloat 1 0.0 places.reverse
  else Number.real? (String.ofList body)

def float (cs : List Char) : Except Fault Value := do
  let (negative, body) ← signed ((withoutRules cs).map Char.toLower)
  let x ← number (floatMagnitude body)
  return .float (if negative then -x else x)

def bool (cs : List Char) : Except Fault Value :=
  let word := String.ofList (cs.map Char.toLower)
  if ["yes", "true", "on"].contains word then .ok (.bool true)
  else if ["no", "false", "off"].contains word then .ok (.bool false)
  else .error (.noTruth word)

/-- Why a text is not all ASCII, by its first run of other characters. -/
def asciiFault? (cs : List Char) : Option String :=
  let isAscii := fun (c : Char) => c.toNat < 128
  let offset := (cs.takeWhile isAscii).length
  match (cs.drop offset).takeWhile (!isAscii ·) with
  | [] => none
  | [c] =>
    let shown := String.ofList (Text.codeEscape c.toNat)
    some (s!"'ascii' codec can't encode character '{shown}' in position {offset}: " ++
      "ordinal not in range(128)")
  | run =>
    let last := offset + run.length - 1
    some (s!"'ascii' codec can't encode characters in position {offset}-{last}: " ++
      "ordinal not in range(128)")

def binary (cs : List Char) : Except Fault Value :=
  match asciiFault? cs with
  | some reason => malformed (.notAscii reason)
  | none =>
    match Text.Base64.decode cs with
    | .ok content => .ok (.bytes content)
    | .error fault => malformed (.notBase64 fault.message)

end Scalar

namespace Node

mutual

/-- One more than the longest way down. -/
def height : Node → Nat
  | scalar .. | enclosing .. => 1
  | seq _ items => heightItems items + 1
  | map _ fields => heightFields fields + 1

def heightItems : List Node → Nat
  | [] => 0
  | item :: rest => max (height item) (heightItems rest)

def heightFields : List (Node × Node) → Nat
  | [] => 0
  | (key, value) :: rest => max (max (height key) (height value)) (heightFields rest)

end

mutual

/-- The fields that a mapping is lent, and its own. -/
def split : List (Node × Node) → Except Fault (List (Node × Node) × List (Node × Node))
  | [] => .ok ([], [])
  | (key, value) :: rest => do
    if key.tag = .merge then
      let here ← lenders value
      let (lent, own) ← split rest
      return (here ++ lent, own)
    else
      let (lent, own) ← split rest
      return (lent, (key, value) :: own)

/-- What a mapping lends, or all mappings of a list, the last one first. -/
def lenders : Node → Except Fault (List (Node × Node))
  | map _ fields => do
    let (lent, own) ← split fields
    return lent ++ own
  | seq _ items => lentItems items
  | enclosing _ .mapping => .ok []
  | _ => failed .mapping

def lentItems : List Node → Except Fault (List (Node × Node))
  | [] => .ok []
  | item :: rest => do
    if item.shape != .mapping then failed .mapping
    let here ← lenders item
    let others ← lentItems rest
    return others ++ here

end

/-- The text of a scalar. A mapping may name a scalar that stands for it. -/
def scalarText : Nat → Node → Except Fault (List Char)
  | _, scalar _ text => .ok text
  | fuel + 1, map _ own =>
    match own.find? (·.1.tag = .value) with
    | some (_, value) => scalarText fuel value
    | none => malformed (.wrongKind "scalar" Shape.mapping.name)
  | _, node => malformed (.wrongKind "scalar" node.shape.name)

/-- A value, with the first fault on each level below. -/
structure Outcome where
  value : Value
  levels : List (Option Fault)

namespace Outcome

/-- The first fault of each level, of two parts one after the other. -/
def both : List (Option Fault) → List (Option Fault) → List (Option Fault)
  | [], levels | levels, [] => levels
  | a :: rest, b :: others => a.or b :: both rest others

def ofScalar : Except Fault Value → Outcome
  | .ok value => ⟨value, []⟩
  | .error fault => ⟨.null, [some fault]⟩

def require (condition : Bool) (fault : Fault) : List (Option Fault) :=
  if condition then [] else [some fault]

/-- A collection, which is made first and filled on the next level in these steps. -/
def filled (value : Value) (steps : List (List (Option Fault))) : Outcome :=
  ⟨value, none :: steps.foldl both []⟩

def fault? (outcome : Outcome) : Option Fault := outcome.levels.findSome? id

end Outcome

/-- A key that stands for its mapping elsewhere is just a text as a key. -/
def asKey : Node → Node
  | scalar .value text => scalar .str text
  | node => node

/-- The single field that each item of an ordered list has to be. -/
def onlyField? : Node → Option (Node × Node)
  | map _ [field] => some field
  | _ => none

/-- What a node means; `fuel` is its height at least. -/
def outcome : Nat → Node → Outcome
  | 0, _ => ⟨.null, []⟩
  | fuel + 1, node =>
    let scalarOf := fun (read : List Char → Except Fault Value) =>
      Outcome.ofScalar (do read (← scalarText fuel node))
    let fieldsOf := fun (make : List (Value × Value) → Value) =>
      match node with
      | map .. | enclosing _ .mapping =>
        match lenders node with
        | .error fault => Outcome.filled (make []) [Outcome.require false fault]
        | .ok list =>
          let made := list.map fun (key, value) => (outcome fuel (asKey key), outcome fuel value)
          Outcome.filled (make (Value.ofFields (made.map fun (key, value) => (key.value, value.value))))
            (made.flatMap fun (key, value) =>
              [key.levels, Outcome.require key.value.isKey (.malformed (.during .mapping)), value.levels])
      | _ =>
        Outcome.filled (make [])
          [Outcome.require false (.malformed (.wrongKind "mapping" node.shape.name))]
    let pairsOf := fun (activity : Activity) =>
      match node with
      | seq _ items =>
        let made := items.map fun item =>
          (onlyField? item).map fun (key, value) => (outcome fuel key, outcome fuel value)
        Outcome.filled
          (.seq (made.filterMap fun field => field.map fun (key, value) => .pair key.value value.value))
          (made.flatMap fun
            | some (key, value) => [key.levels, value.levels]
            | none => [Outcome.require false (.malformed (.during activity))])
      | enclosing _ .sequence => Outcome.filled (.seq []) []
      | _ => Outcome.filled (.seq []) [Outcome.require false (.malformed (.during activity))]
    match node.tag with
    | .null => scalarOf fun _ => .ok .null
    | .bool => scalarOf Scalar.bool
    | .int => scalarOf Scalar.int
    | .float => scalarOf Scalar.float
    | .binary => scalarOf Scalar.binary
    | .timestamp => scalarOf fun cs =>
      if node.shape = .scalar then (Value.moment <$> Moment.ofChars cs).mapError .moment else .error .noText
    | .str => scalarOf fun cs => .ok (.str (String.ofList cs))
    | .seq =>
      match node with
      | seq _ items =>
        let made := items.map (outcome fuel)
        Outcome.filled (.seq (made.map Outcome.value)) (made.map Outcome.levels)
      | enclosing _ .sequence => Outcome.filled (.seq []) []
      | _ =>
        Outcome.filled (.seq [])
          [Outcome.require false (.malformed (.wrongKind "sequence" node.shape.name))]
    | .map => fieldsOf .map
    | .set => fieldsOf fun list => .set (list.map (·.1))
    | .orderedMap => pairsOf .orderedMap
    | .pairs => pairsOf .pairs
    | .merge | .value | .other _ =>
      Outcome.ofScalar (malformed (.unknownTag node.tag.address))

def value (node : Node) : Except Fault Value :=
  let made := outcome node.height node
  match made.fault? with
  | some fault => .error fault
  | none => .ok made.value

end Node

/-- The value of the document that a text holds; null if it holds none. -/
def Value.ofText (text : String) : Except Fault Value := do
  match ← Document.node? (Token.ofChars text.toList) with
  | some node => node.value
  | none => return .null

end CheckCost.Yaml
