import CheckCost.Number.Binary

/-!
The fewest decimal digits that read back to a double. A decimal reads back if it lies in the interval
of reals that round to the double, ends included exactly when the significand is even. For each count
of digits only the two neighbours of the double on that decimal grid are tried.
-/
namespace CheckCost.Number

/-- The number digits * 10 ^ exponent. -/
structure Decimal where
  digits : Nat
  exponent : Int
  deriving DecidableEq, Repr

/-- Compares a * 10 ^ i with b * 2 ^ j. -/
def compareScaled (a : Nat) (i : Int) (b : Nat) (j : Int) : Ordering :=
  compare (a * Nat.pow 10 i.toNat * Nat.pow 2 (-j).toNat) (b * Nat.pow 2 j.toNat * Nat.pow 10 (-i).toNat)

/-- The decimal is among the reals that round to the double. -/
def Binary.readsBack (x : Binary) (d : Decimal) : Bool :=
  let low := if x.narrowBelow then 4 * x.m - 1 else 4 * x.m - 2
  let closed := x.m % 2 == 0
  let fromLow := compareScaled d.digits d.exponent low (x.q - 2)
  let fromHigh := compareScaled d.digits d.exponent (4 * x.m + 2) (x.q - 2)
  (fromLow == .gt || closed && fromLow == .eq) && (fromHigh == .lt || closed && fromHigh == .eq)

/-- The least k for which the double is below 10 ^ k. The binary logarithm leaves three candidates. -/
def Binary.scale (x : Binary) : Int :=
  let (num, den) := x.ratio
  let guess := ((num.log2 : Int) - den.log2) * 1233 / 4096
  let below (k : Int) : Bool := num * Nat.pow 10 (-k).toNat < den * Nat.pow 10 k.toNat
  if below guess then guess else if below (guess + 1) then guess + 1 else guess + 2

/-- Of the two neighbours on the grid 10 ^ exponent the one that reads back, the nearer one if both
do, and the even one if they are equally near. -/
def Binary.onGrid? (x : Binary) (exponent : Int) : Option Decimal :=
  let (num, den) := x.ratio
  let unit := den * Nat.pow 10 exponent.toNat
  let scaled := num * Nat.pow 10 (-exponent).toNat
  let floor := scaled / unit
  let low : Decimal := ⟨floor, exponent⟩
  let high : Decimal := ⟨floor + 1, exponent⟩
  match x.readsBack low, x.readsBack high with
  | false, false => none
  | true, false => some low
  | false, true => some high
  | true, true =>
    match compare (2 * (scaled % unit)) unit with
    | .lt => some low
    | .gt => some high
    | .eq => some (if floor % 2 = 0 then low else high)

/-- The value itself, written out. -/
def Binary.exact (x : Binary) : Decimal :=
  if 0 ≤ x.q then ⟨x.m * Nat.pow 2 x.q.toNat, 0⟩ else ⟨x.m * Nat.pow 5 (-x.q).toNat, x.q⟩

/-- Seventeen digits always read back, so the exact value is only there to make the search total. -/
def Binary.shortest (x : Binary) : Decimal :=
  let scale := x.scale
  ((List.range 17).findSome? fun (n : Nat) => x.onGrid? (scale - n - 1)).getD x.exact

end CheckCost.Number
