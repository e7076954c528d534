import CheckCost.Glob.CharSet

/-!
Languages of single segments, with complements. A text is matched by taking derivatives: what is left
to match after a character. Alternatives are kept apart and without repetition, so that the derivatives
of a language stay few.
-/
namespace CheckCost.Glob

inductive Wild where
  | nothing
  | empty
  | one (set : CharSet)
  | seq (first second : Wild)
  | alt (first second : Wild)
  | many (body : Wild)
  /-- Every text but those of the body. -/
  | other (body : Wild)
  deriving DecidableEq, Repr

namespace Wild

def run : Wild := many (one .any)

def nullable : Wild → Bool
  | nothing => false
  | empty => true
  | one _ => false
  | seq first second => nullable first && nullable second
  | alt first second => nullable first || nullable second
  | many _ => true
  | other body => !nullable body

def among (w : Wild) : Wild → Bool
  | alt first second => decide (w = first) || among w second
  | v => decide (w = v)

def union : Wild → Wild → Wild
  | nothing, w => w
  | alt first second, w => union first (union second w)
  | v, nothing => v
  | v, w => if among v w then w else alt v w

def concat : Wild → Wild → Wild
  | nothing, _ => nothing
  | empty, w => w
  | seq first second, w => seq first (concat second w)
  | alt first second, w => union (concat first w) (concat second w)
  | v, w => seq v w

/-- What may follow the character in the texts that begin with it. -/
def derive (c : Char) : Wild → Wild
  | nothing => nothing
  | empty => nothing
  | one set => if set.contains c then empty else nothing
  | seq first second =>
    if nullable first then union (concat (derive c first) second) (derive c second)
    else concat (derive c first) second
  | alt first second => union (derive c first) (derive c second)
  | many body => concat (derive c body) (many body)
  | other body => other (derive c body)

def accepts (w : Wild) : List Char → Bool
  | [] => nullable w
  | c :: rest => accepts (derive c w) rest

def sequence (parts : List Wild) : Wild := parts.foldr concat empty

def anyOf (alternatives : List Wild) : Wild := alternatives.foldr union nothing

end Wild

end CheckCost.Glob
