import CheckCost.Text.Hexadecimal

/-!
UTF-8, strictly. Bytes that are no text are refused with the place and the length of the longest part
of a sequence that was still well formed.
-/
namespace CheckCost.Text.Utf8

inductive Defect where
  | start
  | continuation
  | truncated
  deriving DecidableEq, Repr

/-- The bytes from `offset` on, `length` of them, begin a sequence that cannot go on. -/
structure Fault where
  offset : Nat
  length : Nat
  lead : UInt8
  defect : Defect
  deriving DecidableEq, Repr

def Defect.reason : Defect → String
  | .start => "invalid start byte"
  | .continuation => "invalid continuation byte"
  | .truncated => "unexpected end of data"

def Fault.message (fault : Fault) : String :=
  let place :=
    if fault.length = 1 then
      s!"byte 0x{String.ofList (hexDigits fault.lead.toNat 2)} in position {fault.offset}"
    else s!"bytes in position {fault.offset}-{fault.offset + fault.length - 1}"
  s!"'utf-8' codec can't decode {place}: {fault.defect.reason}"

/-- A sequence that has begun: how many bytes were seen and are missing, the bounds of the next one,
and the bits collected so far. -/
structure Pending where
  lead : UInt8
  seen : Nat
  missing : Nat
  low : UInt8
  high : UInt8
  code : Nat

/-- What a byte outside ASCII begins. Overlong forms, surrogates and code points past the last one
are kept out by the bounds of the second byte. -/
def begin? (b : UInt8) : Option Pending :=
  if b < 0xC2 then none
  else if b < 0xE0 then some ⟨b, 1, 1, 0x80, 0xBF, b.toNat - 0xC0⟩
  else if b < 0xF0 then
    some ⟨b, 1, 2, if b = 0xE0 then 0xA0 else 0x80, if b = 0xED then 0x9F else 0xBF, b.toNat - 0xE0⟩
  else if b < 0xF5 then
    some ⟨b, 1, 3, if b = 0xF0 then 0x90 else 0x80, if b = 0xF4 then 0x8F else 0xBF, b.toNat - 0xF0⟩
  else none

def Pending.fault (p : Pending) (offset : Nat) (defect : Defect) : Fault :=
  ⟨offset - p.seen, p.seen, p.lead, defect⟩

/-- Reads on at `offset` with a sequence perhaps begun; `done` holds the characters so far, last first. -/
def decodeFrom (offset : Nat) (pending : Option Pending) (done : List Char) :
    List UInt8 → Except Fault (List Char)
  | [] =>
    match pending with
    | none => .ok done.reverse
    | some p => .error (p.fault offset .truncated)
  | b :: rest =>
    match pending with
    | none =>
      if b < 0x80 then decodeFrom (offset + 1) none (Char.ofNat b.toNat :: done) rest
      else
        match begin? b with
        | none => .error ⟨offset, 1, b, .start⟩
        | some p => decodeFrom (offset + 1) (some p) done rest
    | some p =>
      if p.low ≤ b && b ≤ p.high then
        let code := p.code * 64 + (b.toNat - 0x80)
        if p.missing = 1 then decodeFrom (offset + 1) none (Char.ofNat code :: done) rest
        else
          decodeFrom (offset + 1) (some ⟨p.lead, p.seen + 1, p.missing - 1, 0x80, 0xBF, code⟩) done rest
      else .error (p.fault offset .continuation)

def decode (bytes : List UInt8) : Except Fault (List Char) := decodeFrom 0 none [] bytes

end CheckCost.Text.Utf8
