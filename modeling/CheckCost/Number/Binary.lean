import CheckCost.Number.Fault

/-!
Doubles as exact numbers: a finite one is m * 2 ^ q with a sign. All digits are chosen from this form
in natural arithmetic, and integers are taken from it.
-/
namespace CheckCost.Number

/-- The magnitude of a finite double. -/
structure Binary where
  m : Nat
  q : Int
  /-- The gap to the double below is half the gap to the one above. -/
  narrowBelow : Bool
  deriving DecidableEq, Repr

inductive Double where
  | finite (negative : Bool) (magnitude : Binary)
  | infinite (negative : Bool)
  | undefined
  deriving DecidableEq, Repr

def Double.ofBits (bits : UInt64) : Double :=
  let negative := bits >>> 63 == 1
  let exponent := ((bits >>> 52) &&& 0x7FF).toNat
  let fraction := (bits &&& 0xFFFFFFFFFFFFF).toNat
  if exponent = 0x7FF then if fraction = 0 then .infinite negative else .undefined
  else if exponent = 0 then .finite negative ⟨fraction, -1074, false⟩
  else .finite negative ⟨Nat.pow 2 52 + fraction, (exponent : Int) - 1075, fraction = 0 && 1 < exponent⟩

def Double.ofFloat (x : Float) : Double := .ofBits x.toBits

/-- The numerator and the denominator of a magnitude. -/
def Binary.ratio (x : Binary) : Nat × Nat := (x.m * Nat.pow 2 x.q.toNat, Nat.pow 2 (-x.q).toNat)

/-- The largest integer that is not above the magnitude. -/
def Binary.floor (x : Binary) : Nat := x.ratio.1 / x.ratio.2

def signed (negative : Bool) (n : Nat) : Int := if negative then -(n : Int) else n

/-- The integer next to the double in the direction of zero. -/
def truncate (x : Float) : Except NumberFault Int :=
  match Double.ofFloat x with
  | .finite negative magnitude => .ok (signed negative magnitude.floor)
  | .infinite _ => .error .infinite
  | .undefined => .error .undefined

def isWhole (x : Float) : Bool :=
  match Double.ofFloat x with
  | .finite _ magnitude => magnitude.ratio.1 % magnitude.ratio.2 == 0
  | _ => false

def nearest (n : Int) : Except NumberFault Float :=
  let x := Float.ofInt n
  if x.isInf then .error .tooLarge else .ok x

end CheckCost.Number
