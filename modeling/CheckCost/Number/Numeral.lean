import CheckCost.Number.Binary
import CheckCost.Text.Blank
import CheckCost.Text.DecimalDigit

/-!
Numbers in text. Blanks may surround a numeral, a sign may precede it, its digits may be those of any
script, and one underscore may stand between two digits.
-/
namespace CheckCost.Number

open CheckCost.Text

/-- Reads on after a digit: further digits, each perhaps after one underscore. -/
def moreDigits : List Char → List Nat × List Char
  | '_' :: c :: rest =>
    match decimalDigit? c with
    | some d => let (ds, tail) := moreDigits rest; (d :: ds, tail)
    | none => ([], '_' :: c :: rest)
  | c :: rest =>
    match decimalDigit? c with
    | some d => let (ds, tail) := moreDigits rest; (d :: ds, tail)
    | none => ([], c :: rest)
  | [] => ([], [])

/-- The digits that the text begins with, none or more, and the rest of the text. -/
def digitRun (cs : List Char) : List Nat × List Char :=
  if cs.head? = some '_' then ([], cs) else moreDigits cs

def natOf (digits : List Nat) : Nat := digits.foldl (fun n d => n * 10 + d) 0

/-- Takes a sign off; the first part tells a minus. -/
def sign : List Char → Bool × List Char
  | '-' :: rest => (true, rest)
  | '+' :: rest => (false, rest)
  | cs => (false, cs)

def integer? (text : String) : Except NumberFault Int :=
  let (negative, body) := sign (trimBlanks text.toList)
  let (digits, rest) := digitRun body
  if digits.isEmpty || rest.head? = some '_' then .error (.notInteger 10 text)
  else if NumberFault.digitLimit < digits.length then .error (.tooManyDigits digits.length)
  else if rest.isEmpty then .ok (signed negative (natOf digits))
  else .error (.notInteger 10 text)

/-- No double has a leading digit at a place this far from the point. -/
def farPlace : Int := 400

/-- The double nearest to digits * 10 ^ exponent. -/
def scaled (digits : Nat) (exponent : Int) : Float :=
  if digits = 0 then 0.0
  else
    let place := exponent + (Nat.toDigits 10 digits).length
    if farPlace < place then Float.ofScientific 1 false farPlace.toNat
    else if place < -farPlace then 0.0
    else Float.ofScientific digits (exponent < 0) exponent.natAbs

/-- The exponent that a text begins with, zero if it begins with none. -/
def exponentPart : List Char → Int × List Char
  | c :: rest =>
    if c = 'e' || c = 'E' then
      let (negative, body) := sign rest
      let (digits, tail) := digitRun body
      if digits.isEmpty then (0, c :: rest) else (signed negative (natOf digits), tail)
    else (0, c :: rest)
  | [] => (0, [])

/-- The number without a sign that a text writes: digits, perhaps a point and more digits, perhaps an
exponent. There is a digit on at least one side of the point. -/
def magnitude? (cs : List Char) : Option Float :=
  let (whole, afterWhole) := digitRun cs
  let (fraction, afterFraction) :=
    match afterWhole with
    | '.' :: rest => digitRun rest
    | rest => ([], rest)
  let (exponent, rest) := exponentPart afterFraction
  if (whole.isEmpty && fraction.isEmpty) || !rest.isEmpty then none
  else some (scaled (natOf (whole ++ fraction)) (exponent - fraction.length))

/-- The words for infinity and for no number at all, in either case. -/
def special? (cs : List Char) : Option Float :=
  let word := String.ofList (cs.map Char.toLower)
  if word = "inf" || word = "infinity" then some (1.0 / 0.0)
  else if word = "nan" then some (0.0 / 0.0)
  else none

def real? (text : String) : Except NumberFault Float :=
  let (negative, body) := sign (trimBlanks text.toList)
  match (special? body).or (magnitude? body) with
  | some x => .ok (if negative then -x else x)
  | none => .error (.notReal text)

end CheckCost.Number
