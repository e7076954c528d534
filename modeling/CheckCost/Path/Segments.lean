/-!
The parts of a text between its slashes. Slashes in a row divide no more than one does, and slashes at
either end add no part.
-/
namespace CheckCost.Path

/-- A part that has been collected, last character first. -/
def part (collected : List Char) : List (List Char) :=
  if collected.isEmpty then [] else [collected.reverse]

def segmentsFrom (collected : List Char) : List Char → List (List Char)
  | [] => part collected
  | c :: rest =>
    if c = '/' then part collected ++ segmentsFrom [] rest else segmentsFrom (c :: collected) rest

def segments (cs : List Char) : List (List Char) := segmentsFrom [] cs

/-- The segments that stand for a directory itself and for the one above. -/
def isDots (segment : List Char) : Bool := segment == ['.'] || segment == ['.', '.']

theorem segmentsFrom_ne_nil (collected cs : List Char) :
    ∀ segment ∈ segmentsFrom collected cs, segment ≠ [] := by
  induction cs generalizing collected with
  | nil => intro segment h; unfold segmentsFrom part at h; split at h <;> simp_all
  | cons c rest ih =>
    intro segment h
    unfold segmentsFrom at h
    split at h
    · rcases List.mem_append.1 h with h | h
      · unfold part at h; split at h <;> simp_all
      · exact ih [] segment h
    · exact ih (c :: collected) segment h

theorem segments_ne_nil (cs : List Char) : ∀ segment ∈ segments cs, segment ≠ [] :=
  segmentsFrom_ne_nil [] cs

end CheckCost.Path
