import CheckCost.Number.Numeral

/-!
Braces in globs. A group in braces stands for its alternatives, or for a range of numbers or letters.
Expansions are counted before they are formed, so a range of any length can be refused.
-/
namespace CheckCost.Glob

inductive Piece where
  | char (c : Char)
  /-- Numbers from the first to the last by a step, padded with zeros to a width. -/
  | numbers (first last : Int) (step width : Nat)
  /-- Characters between two letters by a step. -/
  | letters (first last : Char) (step : Nat)
  | choice (slots : List (List Piece))

namespace Piece

def terms (distance step : Nat) : Nat := distance / step + 1

/-- The term of that index, from one end towards the other. -/
def term (first last : Int) (step index : Nat) : Int :=
  if first ≤ last then first + step * index else first - step * index

/-- The digits of a number behind its sign, with zeros to fill the width, sign included. -/
def padded (width : Nat) (n : Int) : List Char :=
  let digits := Nat.toDigits 10 n.natAbs
  let sign := if n < 0 then ['-'] else []
  sign ++ List.replicate (width - sign.length - digits.length) '0' ++ digits

/-- A backslash between the capital and the small letters stands for nothing. -/
def letter (n : Int) : List Char :=
  let c := Char.ofNat n.toNat
  if c = '\\' then [] else [c]

mutual

def count : Piece → Nat
  | char _ => 1
  | numbers first last step _ => terms (last - first).natAbs step
  | letters first last step => terms ((last.toNat : Int) - first.toNat).natAbs step
  | choice slots => countSlots slots

def countSlot : List Piece → Nat
  | [] => 1
  | piece :: rest => count piece * countSlot rest

def countSlots : List (List Piece) → Nat
  | [] => 0
  | slot :: rest => countSlot slot + countSlots rest

end

/-- Every text of the first list before every text of the second. -/
def product (firsts seconds : List (List Char)) : List (List Char) :=
  firsts.flatMap fun first => seconds.map (first ++ ·)

mutual

def expand : Piece → List (List Char)
  | char c => [[c]]
  | numbers first last step width =>
    (List.range (terms (last - first).natAbs step)).map fun index =>
      padded width (term first last step index)
  | letters first last step =>
    (List.range (terms ((last.toNat : Int) - first.toNat).natAbs step)).map fun index =>
      letter (term first.toNat last.toNat step index)
  | choice slots => expandSlots slots

def expandSlot : List Piece → List (List Char)
  | [] => [[]]
  | piece :: rest => product (expand piece) (expandSlot rest)

def expandSlots : List (List Piece) → List (List Char)
  | [] => []
  | slot :: rest => expandSlot slot ++ expandSlots rest

end

theorem product_length (firsts seconds : List (List Char)) :
    (product firsts seconds).length = firsts.length * seconds.length := by
  simp [product, List.length_flatMap, List.map_const']

mutual

theorem expand_length (piece : Piece) : (expand piece).length = count piece := by
  cases piece with
  | char c => rfl
  | numbers first last step width => simp [expand, count]
  | letters first last step => simp [expand, count]
  | choice slots => simpa [expand, count] using expandSlots_length slots

theorem expandSlot_length (slot : List Piece) : (expandSlot slot).length = countSlot slot := by
  cases slot with
  | nil => rfl
  | cons piece rest =>
    rw [expandSlot, countSlot, product_length, expand_length piece, expandSlot_length rest]

theorem expandSlots_length (slots : List (List Piece)) :
    (expandSlots slots).length = countSlots slots := by
  cases slots with
  | nil => rfl
  | cons slot rest =>
    rw [expandSlots, countSlots, List.length_append, expandSlot_length slot,
      expandSlots_length rest]

end

end Piece

/-! Ranges. -/

/-- A signed run of decimal digits. -/
structure Operand where
  value : Int
  length : Nat
  /-- A zero before another digit, perhaps after a minus, asks for padding. -/
  zeroed : Bool

namespace Operand

def read? (cs : List Char) : Option (Operand × List Char) :=
  let (negative, body) := Number.sign cs
  let digits := body.takeWhile fun c => (Text.decimalDigit? c).isSome
  if digits.isEmpty then none
  else
    let value := Number.natOf (digits.filterMap Text.decimalDigit?)
    let length := cs.length - body.length + digits.length
    let zeroed := digits.head? = some '0' && 1 < digits.length && cs.head? != some '+'
    some (⟨Number.signed negative value, length, zeroed⟩, body.drop digits.length)

end Operand

/-- The step of a range after its last operand, and the closing brace. The sign of a step does not
count, and a step of zero is one of one. -/
def stepEnd? (cs : List Char) : Option (Nat × List Char) :=
  match cs with
  | '\x7d' :: rest => some (1, rest)
  | '.' :: '.' :: more =>
    match Operand.read? more with
    | some (step, '\x7d' :: rest) => some (if step.value = 0 then 1 else step.value.natAbs, rest)
    | _ => none
  | _ => none

def numbers? (cs : List Char) : Option (Piece × List Char) :=
  match Operand.read? cs with
  | some (first, '.' :: '.' :: more) =>
    match Operand.read? more with
    | some (last, tail) =>
      (stepEnd? tail).map fun (step, rest) =>
        let width := if first.zeroed || last.zeroed then max first.length last.length else 0
        (.numbers first.value last.value step width, rest)
    | none => none
  | _ => none

def isLetter (c : Char) : Bool := ('A' ≤ c && c ≤ 'Z') || ('a' ≤ c && c ≤ 'z')

def letters? (cs : List Char) : Option (Piece × List Char) :=
  match cs with
  | first :: '.' :: '.' :: last :: tail =>
    if isLetter first && isLetter last then
      (stepEnd? tail).map fun (step, rest) => (.letters first last step, rest)
    else none
  | _ => none

def range? (cs : List Char) : Option (Piece × List Char) := (numbers? cs).or (letters? cs)

/-! Groups. -/

/-- A group in braces that is not closed yet. All lists are in reverse order. -/
structure OpenBrace where
  complete : List (List Piece)
  current : List Piece

/-- What has been read: the open groups, the innermost first, and the pieces outside. -/
structure BraceReading where
  groups : List OpenBrace
  outside : List Piece

namespace BraceReading

def start : BraceReading := ⟨[], []⟩

/-- Adds pieces, the last one first. -/
def add (pieces : List Piece) (reading : BraceReading) : BraceReading :=
  match reading.groups with
  | [] => { reading with outside := pieces ++ reading.outside }
  | group :: rest =>
    { reading with groups := { group with current := pieces ++ group.current } :: rest }

def enter (reading : BraceReading) : BraceReading :=
  { reading with groups := ⟨[], []⟩ :: reading.groups }

def comma (reading : BraceReading) : BraceReading :=
  match reading.groups with
  | [] => reading.add [.char ',']
  | group :: rest =>
    { reading with groups := ⟨group.current :: group.complete, []⟩ :: rest }

/-- A group without a comma is text when it is closed. The outermost one is not even closed. -/
def leave (reading : BraceReading) : BraceReading :=
  match reading.groups with
  | [] => reading.add [.char '\x7d']
  | ⟨[], current⟩ :: [] => { reading with groups := [⟨[], .char '\x7d' :: current⟩] }
  | ⟨[], current⟩ :: rest =>
    { reading with groups := rest }.add (Piece.char '\x7d' :: current ++ [Piece.char '\x7b'])
  | ⟨complete, current⟩ :: rest =>
    { reading with groups := rest }.add [.choice ((current :: complete).reverse.map List.reverse)]

def unclosed (group : OpenBrace) : List Piece :=
  [Piece.char ','].intercalate (group.current :: group.complete) ++ [.char '\x7b']

def pieces (reading : BraceReading) : List Piece :=
  ((reading.groups.map unclosed).flatten ++ reading.outside).reverse

end BraceReading

/-- Reads on. An escaped character and a brace after a dollar sign are text. -/
def readBraces : Nat → BraceReading → List Char → BraceReading
  | 0, reading, _ => reading
  | _ + 1, reading, [] => reading
  | fuel + 1, reading, '\\' :: c :: rest =>
    readBraces fuel (reading.add [.char c, .char '\\']) rest
  | fuel + 1, reading, '$' :: '\x7b' :: rest =>
    readBraces fuel (reading.add [.char '\x7b', .char '$']) rest
  | fuel + 1, reading, '\x7b' :: rest =>
    match range? rest with
    | some (piece, tail) => readBraces fuel (reading.add [piece]) tail
    | none => readBraces fuel reading.enter rest
  | fuel + 1, reading, '\x7d' :: rest => readBraces fuel reading.leave rest
  | fuel + 1, reading, ',' :: rest => readBraces fuel reading.comma rest
  | fuel + 1, reading, c :: rest => readBraces fuel (reading.add [.char c]) rest

/-- The pieces of what follows in a pattern. Each step takes a character at least. -/
def piecesWithin (cs : List Char) : List Piece := (readBraces cs.length .start cs).pieces

/-- The pieces of a pattern. Empty braces at its very start are text, whatever follows. -/
def piecesOf : List Char → List Piece
  | '\x7b' :: '\x7d' :: rest => .char '\x7b' :: .char '\x7d' :: piecesWithin rest
  | cs => piecesWithin cs

end CheckCost.Glob
