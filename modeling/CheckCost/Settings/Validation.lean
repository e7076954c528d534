import CheckCost.Number.Numeral
import CheckCost.Path
import CheckCost.Ranking
import CheckCost.Text.Utf8
import CheckCost.Yaml.Value

/-!
Checking single settings. Values are taken leniently where nothing is lost: whole doubles and texts
that write an integer are integers. A value that does not fit is a problem with a place and a kind.
-/
namespace CheckCost

inductive ProblemKind where
  | intType
  | intFromFloat
  | finiteNumber
  | intParsing
  | intParsingSize
  | tooSmall
  | stringType
  | stringUnicode
  | listType
  | choice
  | pathType
  deriving DecidableEq, Repr

def ProblemKind.name : ProblemKind → String
  | intType => "int_type"
  | intFromFloat => "int_from_float"
  | finiteNumber => "finite_number"
  | intParsing => "int_parsing"
  | intParsingSize => "int_parsing_size"
  | tooSmall => "greater_than_equal"
  | stringType => "string_type"
  | stringUnicode => "string_unicode"
  | listType => "list_type"
  | choice => "enum"
  | pathType => "path_type"

/-- What is wrong with a setting, or with one of the items that it lists. -/
structure Problem where
  field : String
  item : Option Nat
  kind : ProblemKind
  deriving DecidableEq, Repr

namespace Validation

open ProblemKind

/-- The longest numeral that is converted, its minus included. -/
def longestInteger : Nat := 4300

/-- Whole doubles from here on are not converted. -/
def wholeLimit : Int := Int.pow 2 63

def isDigit (c : Char) : Bool := '0' ≤ c && c ≤ '9'

/-- A numeral begins with more digits than are converted, and none of them is an idle zero. -/
def isTooLong (cs : List Char) : Bool :=
  let (sign, body) := if cs.head? = some '-' then (1, cs.drop 1) else (0, cs)
  let digits := body.takeWhile isDigit
  digits.head? != some '0' && longestInteger < sign + digits.length

/-- The digits of a numeral in which single underscores may stand between digits. -/
def digits? : List Char → Option (List Char)
  | [] => none
  | [c] => if isDigit c then some [c] else none
  | c :: '_' :: rest => if isDigit c then (digits? rest).map (c :: ·) else none
  | c :: rest => if isDigit c then (digits? rest).map (c :: ·) else none

/-- The text from its first digit that counts on, or from a minus behind zeros. Underscores may stand among
the zeros in any number. -/
def withoutLeadingZeros (cs : List Char) : List Char :=
  let isIdle := fun (c : Char) => c = '0' || c = '_'
  let idle := cs.takeWhile isIdle
  match idle.head?, cs.drop idle.length with
  | some '0', c :: rest =>
    if isDigit c || c = '-' then c :: rest else idle.getLastD '0' :: c :: rest
  | some '0', [] => [idle.getLastD '0']
  | _, _ => cs

/-- The text before a point that only zeros follow, one at least. -/
def withoutZeros (cs : List Char) : Option (List Char) :=
  match cs.dropWhile (· != '.') with
  | [] => some cs
  | _ :: zeros =>
    if !zeros.isEmpty && zeros.all (· = '0') then some (cs.takeWhile (· != '.')) else none

/-- The digits of a numeral and whether it is negative, which a minus behind leading zeros tells as well. -/
def numeral? (cs : List Char) : Option (Bool × List Char) := do
  let (negative, body) := Number.sign cs
  if !(body.head?.any isDigit) then none
  match withoutLeadingZeros body with
  | '-' :: rest =>
    let rest ← withoutZeros rest
    let digits ← digits? (if rest.head? = some '_' then rest.drop 1 else rest)
    if negative || (digits.head? = some '0' && digits.length != 1) then none
    return (true, digits)
  | rest => return (negative, ← digits? (← withoutZeros rest))

/-- The integer that a text writes: blanks around it, a sign, digits, and zeros after a point. -/
def integerOfText (text : String) : Except ProblemKind Int :=
  let trimmed := Text.trimBlanks text.toList
  if isTooLong trimmed then .error intParsingSize
  else
    match numeral? trimmed with
    | none => .error intParsing
    | some (negative, digits) =>
      if longestInteger < digits.length + (if negative then 1 else 0) then .error intParsing
      else .ok (Number.signed negative (Number.natOf (digits.filterMap Text.asciiDigit?)))

def integerOfFloat (x : Float) : Except ProblemKind Int :=
  match Number.truncate x with
  | .error _ => .error finiteNumber
  | .ok n =>
    if !Number.isWhole x then .error intFromFloat
    else if wholeLimit ≤ n.natAbs then .error intParsingSize
    else .ok n

def text : Yaml.Value → Except ProblemKind String
  | .str text => .ok text
  | .bytes content =>
    match Text.Utf8.decode content with
    | .ok cs => .ok (String.ofList cs)
    | .error _ => .error stringUnicode
  | _ => .error stringType

def integer (value : Yaml.Value) : Except ProblemKind Int :=
  match value with
  | .bool b => .ok (if b then 1 else 0)
  | .int n => .ok n
  | .float x => integerOfFloat x
  | value =>
    match text value with
    | .ok text => integerOfText text
    | .error stringUnicode => .error intParsing
    | .error _ => .error intType

def integerFrom (least : Int) (value : Yaml.Value) : Except ProblemKind Int := do
  let n ← integer value
  if n < least then .error tooSmall else .ok n

def strategy (value : Yaml.Value) : Except ProblemKind Strategy :=
  match text value with
  | .ok name =>
    match Strategy.ofName? name with
    | some strategy => .ok strategy
    | none => .error choice
  | .error _ => .error choice

/-- Bytes are no path, not even those that encode a text. -/
def path : Yaml.Value → Except ProblemKind Path
  | .str text => .ok (Path.ofString text)
  | _ => .error pathType

/-- The texts of a list, or the problems of all its items. -/
def textsFrom (field : String) (index : Nat) : List Yaml.Value → Except (List Problem) (List String)
  | [] => .ok []
  | item :: rest =>
    match text item, textsFrom field (index + 1) rest with
    | .ok text, .ok texts => .ok (text :: texts)
    | .ok _, .error problems => .error problems
    | .error kind, .ok _ => .error [⟨field, some index, kind⟩]
    | .error kind, .error problems => .error (⟨field, some index, kind⟩ :: problems)

def texts (field : String) (value : Yaml.Value) : Except (List Problem) (List String) :=
  match value with
  | .seq items | .set items => textsFrom field 0 items
  | _ => .error [⟨field, none, listType⟩]

end Validation

end CheckCost
