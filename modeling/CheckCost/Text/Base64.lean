/-!
Bytes in base 64, read leniently: characters outside the alphabet are passed over, and enough padding
ends the text.
-/
namespace CheckCost.Text.Base64

inductive Fault where
  /-- One character is left after so many. -/
  | lone (characters : Nat)
  | padding
  deriving DecidableEq, Repr

def Fault.message : Fault → String
  | lone characters =>
    s!"Invalid base64-encoded string: number of data characters ({characters}) cannot be 1 more " ++
      "than a multiple of 4"
  | padding => "Incorrect padding"

def digit? (c : Char) : Option Nat :=
  if 'A' ≤ c && c ≤ 'Z' then some (c.toNat - 'A'.toNat)
  else if 'a' ≤ c && c ≤ 'z' then some (c.toNat - 'a'.toNat + 26)
  else if '0' ≤ c && c ≤ '9' then some (c.toNat - '0'.toNat + 52)
  else if c = '+' then some 62
  else if c = '/' then some 63
  else none

/-- Where the reading is inside a group of four characters: how many of them were seen, the bits that
are left of them, and how much padding came last. -/
structure Group where
  seen : Nat
  bits : Nat
  pads : Nat

/-- What a group becomes with six more bits, and the byte that they complete. -/
def Group.add (group : Group) (digit : Nat) : Group × List UInt8 :=
  match group.seen with
  | 0 => (⟨1, digit, 0⟩, [])
  | 1 => (⟨2, digit % 16, 0⟩, [UInt8.ofNat (group.bits * 4 + digit / 16)])
  | 2 => (⟨3, digit % 4, 0⟩, [UInt8.ofNat (group.bits * 16 + digit / 4)])
  | _ => (⟨0, 0, 0⟩, [UInt8.ofNat (group.bits * 64 + digit)])

def decodeFrom (group : Group) (done : List UInt8) : List Char → Except Fault (List UInt8)
  | [] =>
    if group.seen = 0 then .ok done.reverse
    else if group.seen = 1 then .error (.lone (done.length / 3 * 4 + 1))
    else .error .padding
  | c :: rest =>
    if c = '=' then
      let pads := if 2 ≤ group.seen then group.pads + 1 else group.pads
      if 2 ≤ group.seen && 4 ≤ group.seen + pads then .ok done.reverse
      else decodeFrom { group with pads } done rest
    else
      match digit? c with
      | none => decodeFrom group done rest
      | some digit =>
        let (next, bytes) := group.add digit
        decodeFrom next (bytes ++ done) rest

def decode (cs : List Char) : Except Fault (List UInt8) := decodeFrom ⟨0, 0, 0⟩ [] cs

end CheckCost.Text.Base64
