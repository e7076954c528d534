import CheckCost.Text.Hexadecimal
import CheckCost.Yaml.Moment

/-!
Tags of nodes. A scalar without quotes and without a tag of its own gets one from its form.
-/
namespace CheckCost.Yaml

inductive Tag where
  | null
  | bool
  | int
  | float
  | binary
  | timestamp
  | str
  | seq
  | map
  | set
  | orderedMap
  | pairs
  /-- The key whose mappings are taken into its own. -/
  | merge
  /-- The key of a mapping that stands for a scalar. -/
  | value
  | other (address : List Char)
  deriving DecidableEq, Repr

namespace Tag

/-- The start of the addresses of the common tags. -/
def common : String := "tag:yaml.org,2002:"

def named : List (String × Tag) :=
  [("null", null), ("bool", bool), ("int", int), ("float", float), ("binary", binary),
    ("timestamp", timestamp), ("str", str), ("seq", seq), ("map", map), ("set", set),
    ("omap", orderedMap), ("pairs", pairs), ("merge", merge), ("value", value)]

def ofAddress (cs : List Char) : Tag :=
  let found := named.find? fun entry => (common ++ entry.1).toList = cs
  (found.map (·.2)).getD (other cs)

def address : Tag → String
  | other cs => String.ofList cs
  | tag => ((named.find? fun entry => entry.2 = tag).map (common ++ ·.1)).getD ""

/-! Forms of scalars. -/

def isDigit (c : Char) : Bool := '0' ≤ c && c ≤ '9'

def isDigitOrRule (c : Char) : Bool := isDigit c || c = '_'

def afterSign : List Char → List Char
  | '-' :: rest | '+' :: rest => rest
  | cs => cs

/-- Some characters, all of a class. -/
def isRun (p : Char → Bool) (cs : List Char) : Bool := !cs.isEmpty && cs.all p

/-- A digit of the class, then digits and underscores. -/
def isNumeral (first : Char → Bool) : List Char → Bool
  | c :: rest => first c && rest.all isDigitOrRule
  | [] => false

/-- One digit, or two that write a number below sixty. -/
def isSexagesimal : List Char → Bool
  | [c] => isDigit c
  | [c, d] => '0' ≤ c && c ≤ '5' && isDigit d
  | _ => false

/-- The parts of a text between its colons. -/
def colonParts (cs : List Char) : List (List Char) :=
  cs.foldr (fun c parts =>
    if c = ':' then [] :: parts
    else
      match parts with
      | part :: rest => (c :: part) :: rest
      | [] => [[c]]) [[]]

/-- A numeral and places to the base sixty after it, one at least. -/
def isBaseSixty (first : Char → Bool) (cs : List Char) : Bool :=
  match colonParts cs with
  | whole :: place :: places => isNumeral first whole && (place :: places).all isSexagesimal
  | _ => false

def isNonzeroDigit (c : Char) : Bool := isDigit c && c != '0'

def isHexOrRule (c : Char) : Bool := (Text.hexDigit? c).isSome || c = '_'

/-- Binary, octal, decimal, hexadecimal, or to the base sixty. -/
def isInt (cs : List Char) : Bool :=
  let body := afterSign cs
  let radix :=
    match body with
    | '0' :: 'b' :: rest => isRun (fun c => c = '0' || c = '1' || c = '_') rest
    | '0' :: 'x' :: rest => isRun isHexOrRule rest
    | '0' :: rest => rest.all fun c => ('0' ≤ c && c ≤ '7') || c = '_'
    | _ => isNumeral isNonzeroDigit body
  radix || isBaseSixty isNonzeroDigit body

/-- Nothing, or an exponent with its sign. -/
def isExponent : List Char → Bool
  | [] => true
  | mark :: sign :: rest =>
    (mark = 'e' || mark = 'E') && (sign = '+' || sign = '-') && isRun isDigit rest
  | _ => false

/-- Digits and underscores, perhaps with an exponent after them. -/
def isFraction (cs : List Char) : Bool := isExponent (cs.dropWhile isDigitOrRule)

/-- With a point, or a word for one of the doubles that are no numbers. -/
def isFloat (cs : List Char) : Bool :=
  let body := afterSign cs
  let whole := body.takeWhile (· != '.')
  let afterWhole := body.dropWhile (· != '.')
  let decimal :=
    match afterWhole with
    | _ :: fraction =>
      (isNumeral isDigit whole && isFraction fraction) ||
        (isBaseSixty isDigit whole && fraction.all isDigitOrRule)
    | [] => false
  let bare :=
    match cs with
    | '.' :: fraction => (fraction.head?.any isDigit) && isFraction fraction
    | _ => false
  decimal || bare || [".inf", ".Inf", ".INF"].contains (String.ofList body) ||
    [".nan", ".NaN", ".NAN"].contains (String.ofList cs)

/-- Each word in lower case, capitalized, or in upper case. -/
def truthWords : List String :=
  ["yes", "Yes", "YES", "no", "No", "NO", "true", "True", "TRUE", "false", "False", "FALSE", "on",
    "On", "ON", "off", "Off", "OFF"]

def nullWords : List String := ["", "~", "null", "Null", "NULL"]

def ofPlain (cs : List Char) : Tag :=
  let text := String.ofList cs
  if truthWords.contains text then bool
  else if isFloat cs then float
  else if isInt cs then int
  else if text = "<<" then merge
  else if nullWords.contains text then null
  else if Moment.isWritten cs then timestamp
  else if text = "=" then value
  else str

end Tag

end CheckCost.Yaml
