import CheckCost.Number.Numeral

/-!
Integers to other bases than ten. The letter of the base may stand before the digits.
-/
namespace CheckCost.Number

open CheckCost.Text

/-- The value of a digit of any script or of a letter after them. -/
def digitValue? (c : Char) : Option Nat :=
  match decimalDigit? c with
  | some d => some d
  | none =>
    let lower := c.toLower
    if 'a' ≤ lower && lower ≤ 'z' then some (lower.toNat - 'a'.toNat + 10) else none

def radixDigit? (base : Nat) (c : Char) : Option Nat := (digitValue? c).filter (· < base)

/-- The letter that may follow a zero before the digits. -/
def radixLetter? (base : Nat) : Option Char :=
  if base = 2 then some 'b' else if base = 8 then some 'o' else if base = 16 then some 'x' else none

def afterRadix (base : Nat) (cs : List Char) : List Char :=
  match cs with
  | '0' :: letter :: rest => if radixLetter? base = some letter.toLower then rest else cs
  | _ => cs

def integerIn? (base : Nat) (text : String) : Except NumberFault Int :=
  let (negative, body) := sign (trimBlanks text.toList)
  let digits := afterRadix base body
  match digits.mapM (radixDigit? base) with
  | some (d :: ds) => .ok (signed negative ((d :: ds).foldl (fun n d => n * base + d) 0))
  | _ => .error (.notInteger base text)

end CheckCost.Number
