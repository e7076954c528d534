import CheckCost.Number.Shortest

/-!
How doubles are written. In values and reports a double has the fewest digits that identify it: in
positional notation from 10 ^ -4 up to 10 ^ 16, otherwise with a signed exponent of two digits or more.
A measured amount has a fixed number of places instead.
-/
namespace CheckCost.Number

def natDigits (n : Nat) : List Char := Nat.toDigits 10 n

/-- The digits without zeros at the end, and the exponent of the leading digit. -/
def Decimal.leading (d : Decimal) : List Char × Int :=
  let digits := natDigits d.digits
  ((digits.reverse.dropWhile (· == '0')).reverse, d.exponent + (digits.length : Int) - 1)

def zeroes (n : Nat) : List Char := List.replicate n '0'

/-- Exponents of the leading digit that are written positionally. -/
def positional (exponent : Int) : Bool := -4 ≤ exponent && exponent < 16

def exponentMark (exponent : Int) : List Char :=
  let digits := natDigits exponent.natAbs
  'e' :: (if exponent < 0 then '-' else '+') :: zeroes (2 - digits.length) ++ digits

def layout (digits : List Char) (exponent : Int) : List Char :=
  if positional exponent then
    if exponent < 0 then '0' :: '.' :: zeroes (exponent.natAbs - 1) ++ digits
    else
      let whole := exponent.toNat + 1
      let fraction := digits.drop whole
      digits.take whole ++ zeroes (whole - digits.length) ++ '.' ::
        (if fraction.isEmpty then ['0'] else fraction)
  else
    match digits with
    | [] => []
    | first :: rest => first :: (if rest.isEmpty then [] else '.' :: rest) ++ exponentMark exponent

def minus (negative : Bool) (cs : List Char) : List Char := if negative then '-' :: cs else cs

def Binary.shown (x : Binary) : List Char :=
  if x.m = 0 then ['0', '.', '0']
  else
    let (digits, exponent) := x.shortest.leading
    layout digits exponent

/-- The texts of the two infinities and of the undefined value, where they differ from use to use. -/
structure Specials where
  infinite : String
  undefined : String

def Double.shown (specials : Specials) : Double → String
  | .finite negative magnitude => String.ofList (minus negative magnitude.shown)
  | .infinite negative => String.ofList (minus negative specials.infinite.toList)
  | .undefined => specials.undefined

def inText : Specials := ⟨"inf", "nan"⟩

def inDocument : Specials := ⟨"Infinity", "NaN"⟩

def shown (specials : Specials) (x : Float) : String := (Double.ofFloat x).shown specials

/-- Rounds to the nearest integer; a half goes to the even neighbour. -/
def roundDiv (num den : Nat) : Nat :=
  let quotient := num / den
  match compare (2 * (num % den)) den with
  | .lt => quotient
  | .gt => quotient + 1
  | .eq => if quotient % 2 = 0 then quotient else quotient + 1

/-- The exact value rounded to so many places, with leading zeros up to the unit. -/
def Binary.fixed (places : Nat) (x : Binary) : List Char :=
  let (num, den) := x.ratio
  let digits := natDigits (roundDiv (num * Nat.pow 10 places) den)
  let padded := zeroes (places + 1 - digits.length) ++ digits
  let whole := padded.take (padded.length - places)
  if places = 0 then whole else whole ++ '.' :: padded.drop (padded.length - places)

def fixed (places : Nat) (x : Float) : String :=
  match Double.ofFloat x with
  | .finite negative magnitude => String.ofList (minus negative (magnitude.fixed places))
  | special => special.shown inText

end CheckCost.Number
