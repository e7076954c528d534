/-!
Code units of sixteen bits. A character outside the first plane is written as a pair of halves.
-/
namespace CheckCost.Text

def isHighHalf (unit : Nat) : Bool := 0xD800 ≤ unit && unit < 0xDC00

def isLowHalf (unit : Nat) : Bool := 0xDC00 ≤ unit && unit < 0xE000

def joinHalves (high low : Nat) : Nat := 0x10000 + (high - 0xD800) * 0x400 + (low - 0xDC00)

/-- Half of a pair, which on its own is no character. -/
def isHalf (unit : Nat) : Bool := isHighHalf unit || isLowHalf unit

end CheckCost.Text
