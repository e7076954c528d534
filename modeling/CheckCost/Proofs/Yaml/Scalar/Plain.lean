import CheckCost.Proofs.Yaml.Seam
import CheckCost.Yaml.Scalar.Plain

/-!
Plain scalars in a part of a text and in the whole. A scalar that comes to the end of the part ends there if the line
after it is not indented enough.
-/
namespace CheckCost.Yaml

namespace Cursor

theorem lineBreak?_eq_none {cursor : Cursor} (word : isBreak cursor.peek = false) : cursor.lineBreak? = none := by
  have separator : ¬(cursor.peek = '\u2028' ∨ cursor.peek = '\u2029') := by
    rintro (eq | eq) <;> rw [eq] at word <;> exact absurd word (by decide)
  simp [lineBreak?, separator, word]

end Cursor

theorem isBreak_of_word {c : Char} (word : endsWord c = false) : isBreak c = false := by
  by_contra broken
  rw [Bool.not_eq_false] at broken
  simp [endsWord, isGapOrEnd, endsLine, broken] at word

namespace Plain

open Seam

variable {seam : Seam} {c d : Cursor}

theorem word_append (inFlow : Bool) {cs : List Char} (last : cs.getLast? = some '\n') (tail : List Char) :
    word inFlow (cs ++ tail) = word inFlow cs ∧ (word inFlow cs).length < cs.length := by
  induction cs with
  | nil => cases last
  | cons x r ih =>
    cases r with
    | nil =>
      rw [List.getLast?_singleton, Option.some.injEq] at last
      subst last
      exact ⟨rfl, Nat.zero_lt_one⟩
    | cons y r =>
      obtain ⟨same, shorter⟩ := ih (by rwa [List.getLast?_cons_cons] at last)
      rw [List.cons_append, word, word, same, List.cons_append, List.headD_cons, List.headD_cons]
      split
      · exact ⟨rfl, Nat.zero_lt_succ _⟩
      · exact ⟨rfl, Nat.succ_lt_succ shorter⟩

theorem word_length_le (inFlow : Bool) (cs : List Char) : (word inFlow cs).length ≤ cs.length := by
  induction cs with
  | nil => exact Nat.le_refl 0
  | cons x r ih =>
    rw [word]
    split
    · exact Nat.zero_le _
    · exact Nat.succ_le_succ ih

theorem inside_word (inside : seam.Inside c d) (inFlow : Bool) :
    word inFlow d.rest = word inFlow c.rest ∧
      seam.Inside (c.skip (word inFlow c.rest).length) (d.skip (word inFlow c.rest).length) := by
  by_cases alone : seam.tail = []
  · rw [inside.rest, alone, List.append_nil]
    exact ⟨rfl, inside.skip_inside (word_length_le ..) (.inl alone)⟩
  · obtain ⟨same, shorter⟩ := word_append inFlow (inside.last alone) seam.tail
    rw [inside.rest, same]
    exact ⟨rfl, inside.skip_inside (word_length_le ..) (.inr shorter)⟩

/-! Between two words. -/

theorem breaks_of_spaces {n fuel : Nat} {x : Char} {rest : List Char}
    (text : d.rest = List.replicate n ' ' ++ x :: rest) (word : endsWord x = false) (enough : n < fuel)
    (done : List Char) : breaks fuel d done = (some done.reverse, d.skip n) := by
  obtain ⟨fuel, rfl⟩ : ∃ k, fuel = k + 1 := ⟨fuel - 1, by omega⟩
  induction n generalizing d fuel with
  | zero =>
    have first := Cursor.peek_cons text
    have space : x ≠ ' ' := by
      rintro rfl
      exact absurd word (by decide)
    have none : d.lineBreak? = none := Cursor.lineBreak?_eq_none (by rw [first]; exact isBreak_of_word word)
    rw [breaks, first, if_neg space, none]
    rfl
  | succ n ih =>
    rw [List.replicate_succ, List.cons_append] at text
    obtain ⟨fuel, rfl⟩ : ∃ k, fuel = k + 1 := ⟨fuel - 1, by omega⟩
    have after : d.step.rest = List.replicate n ' ' ++ x :: rest := by rw [Cursor.rest_step, text, List.tail_cons]
    rw [breaks, if_pos (Cursor.peek_cons text), ih after fuel (by omega)]
    rfl

theorem breaks_of_done {fuel : Nat} (ended : c.rest = []) (done : List Char) :
    breaks fuel c done = (some done.reverse, c) := by
  cases fuel with
  | zero => rfl
  | succ fuel =>
    have first := Cursor.peek_of_done ended
    have none : c.lineBreak? = none := Cursor.lineBreak?_eq_none (by rw [first]; rfl)
    rw [breaks, first, if_neg (by decide), none]

theorem breaks_agrees {fuel fuel' : Nat} (within : seam.Within c d) (enough : c.rest.length < fuel)
    (enough' : d.rest.length < fuel') (done : List Char) :
    (breaks fuel' d done).1 = (breaks fuel c done).1 ∧
      seam.Reaches (breaks fuel c done).2 (breaks fuel' d done).2 ∧
      (breaks fuel c done).2.rest.length ≤ c.rest.length := by
  induction fuel generalizing c d fuel' done with
  | zero => exact absurd enough (Nat.not_lt_zero _)
  | succ fuel ih =>
    rcases within.inside_or with inside | ⟨joined, ended⟩
    · obtain ⟨fuel', rfl⟩ : ∃ k, fuel' = k + 1 := ⟨fuel' - 1, by omega⟩
      rw [breaks, breaks, inside.peek]
      by_cases space : c.peek = ' '
      · have left := Cursor.length_step (Cursor.rest_ne_nil (by rw [space]; decide) : c.rest ≠ [])
        have left' := Cursor.length_step (Cursor.rest_ne_nil (by rw [inside.peek, space]; decide) : d.rest ≠ [])
        rw [if_pos space, if_pos space]
        obtain ⟨same, reached, shorter⟩ := ih inside.step (by omega) (show _ < fuel' by omega) done
        exact ⟨same, reached, by omega⟩
      · rw [if_neg space, if_neg space]
        rcases inside.lineBreak? with ⟨none, none'⟩ | ⟨feed, c', d', broken, broken', next, shorter⟩
        · rw [none, none']
          exact ⟨rfl, .inl inside, Nat.le_refl _⟩
        · rw [broken, broken']
          simp only [next.isDocumentMark]
          by_cases mark : c'.isDocumentMark = true
          · rw [if_pos mark, if_pos mark]
            exact ⟨rfl, .inl (next.inside_of_isDocumentMark mark), Nat.le_of_lt shorter⟩
          · rw [if_neg mark, if_neg mark]
            have longer : d'.rest.length < d.rest.length := by
              rw [next.rest, inside.rest, List.length_append, List.length_append]
              omega
            obtain ⟨same, reached, less⟩ := ih next (by omega) (show _ < fuel' by omega) (feed :: done)
            exact ⟨same, reached, by omega⟩
    · obtain ⟨x, rest, ahead, -, word, -⟩ := within.ahead ended joined
      have longer : seam.margin < fuel' := by
        rw [ahead, List.length_append, List.length_replicate] at enough'
        omega
      rw [breaks_of_done ended, breaks_of_spaces ahead word longer]
      exact ⟨rfl, .inr (within.lands ended joined), Nat.le_refl _⟩

theorem gap_agrees (inside : seam.Inside c d) :
    (gap d).folded = (gap c).folded ∧ (gap d).broke = (gap c).broke ∧ seam.Reaches (gap c).after (gap d).after ∧
      (gap c).after.rest.length ≤ c.rest.length := by
  obtain ⟨same, next, shorter⟩ := inside.span (p := (· = ' ')) (by decide)
  unfold gap
  generalize c.span (· = ' ') = run, d.span (· = ' ') = run' at same next shorter
  obtain ⟨spaces, after⟩ := run
  obtain ⟨spaces', after'⟩ := run'
  simp only at same next shorter ⊢
  subst same
  rcases next.lineBreak? with ⟨none, none'⟩ | ⟨feed, c', d', broken, broken', later, less⟩
  · rw [none, none']
    exact ⟨rfl, rfl, .inl next, shorter⟩
  · rw [broken, broken']
    simp only [later.isDocumentMark]
    by_cases mark : c'.isDocumentMark = true
    · rw [if_pos mark, if_pos mark]
      exact ⟨rfl, rfl, .inl (later.inside_of_isDocumentMark mark), Nat.le_of_lt (Nat.lt_of_lt_of_le less shorter)⟩
    · rw [if_neg mark, if_neg mark]
      obtain ⟨more, reached, fewer⟩ :=
        breaks_agrees later (Nat.lt_succ_self c'.rest.length) (Nat.lt_succ_self d'.rest.length) []
      generalize breaks (c'.rest.length + 1) c' [] = found, breaks (d'.rest.length + 1) d' [] = found' at *
      obtain ⟨found, stopped⟩ := found
      obtain ⟨found', stopped'⟩ := found'
      simp only at more reached fewer
      subst more
      cases found' with
      | none => exact ⟨rfl, rfl, reached, by simp only; omega⟩
      | some more => exact ⟨rfl, rfl, reached, by simp only; omega⟩

/-! Whole scalars. -/

/-- A scalar that is not inside brackets ends where the line after the part begins. -/
def Stops (seam : Seam) (inFlow : Bool) (indent : Nat) : Prop :=
  seam.tail = [] ∨ inFlow = false ∧ seam.margin < indent

theorem scanFrom_of_done {inFlow : Bool} {indent fuel : Nat} (ended : c.rest = []) (done spaces : List Char)
    (broke : Bool) : scanFrom inFlow indent fuel c done spaces broke = ⟨done, broke, c⟩ := by
  cases fuel with
  | zero => rfl
  | succ fuel =>
    have none : (if c.peek = '#' then [] else word inFlow c.rest) = [] := by rw [ended, word, ite_self]
    rw [scanFrom]
    simp only [none, List.isEmpty_nil, if_true]

/-- What was scanned in the part and in the whole. -/
structure ScansAlike (seam : Seam) (size : Nat) (found found' : Scanned) : Prop where
  text : found'.text = found.text
  broke : found'.broke = found.broke
  after : seam.Reaches found.after found'.after
  shorter : found.after.rest.length ≤ size

theorem scanFrom_agrees {inFlow : Bool} {indent fuel fuel' : Nat} (inside : seam.Inside c d)
    (enough : c.rest.length < fuel) (enough' : d.rest.length < fuel') (done spaces : List Char) (broke : Bool)
    (stops : (scanFrom inFlow indent fuel c done spaces broke).after.rest = [] → Stops seam inFlow indent) :
    ScansAlike seam c.rest.length (scanFrom inFlow indent fuel c done spaces broke)
      (scanFrom inFlow indent fuel' d done spaces broke) := by
  induction fuel generalizing c d fuel' done spaces broke with
  | zero => exact absurd enough (Nat.not_lt_zero _)
  | succ fuel ih =>
    obtain ⟨fuel', rfl⟩ : ∃ k, fuel' = k + 1 := ⟨fuel' - 1, by omega⟩
    obtain ⟨sameWord, next⟩ := inside_word inside inFlow
    rw [scanFrom] at stops ⊢
    rw [scanFrom]
    simp only [inside.peek, sameWord] at stops ⊢
    by_cases comment : c.peek = '#'
    · simp only [comment, if_true, List.isEmpty_nil]
      exact ⟨rfl, rfl, .inl inside, Nat.le_refl _⟩
    simp only [comment, if_false] at stops ⊢
    cases run : word inFlow c.rest with
    | nil => exact ⟨rfl, rfl, .inl inside, Nat.le_refl _⟩
    | cons x r =>
      simp only [run, List.isEmpty_cons, Bool.false_eq_true, if_false] at next stops ⊢
      obtain ⟨folded, broken, reached, shorter⟩ := gap_agrees next
      have less : (gap (c.skip (x :: r).length)).after.rest.length < c.rest.length := by
        have := word_length_le inFlow c.rest
        rw [run] at this
        rw [Cursor.rest_skip, List.length_drop] at shorter
        simp only [List.length_cons] at this shorter ⊢
        omega
      generalize gap (c.skip (x :: r).length) = found, gap (d.skip (x :: r).length) = found' at *
      rw [folded, broken]
      rcases reached with within | lands
      · rw [within.peek, within.column]
        split
        · exact ⟨rfl, rfl, .inl within, Nat.le_of_lt less⟩
        · next goesOn =>
          rw [if_neg goesOn] at stops
          have less' : found'.after.rest.length < d.rest.length := by
            rw [within.rest, inside.rest, List.length_append, List.length_append]
            omega
          obtain ⟨text, broke, after, fewer⟩ := ih within (by omega) (show _ < fuel' by omega) _ _ _ stops
          exact ⟨text, broke, after, by omega⟩
      · -- the part is at its end, so nothing more is read of it, and the line after it is not indented enough
        rw [scanFrom_of_done lands.done, ite_self] at stops ⊢
        obtain ⟨outside, narrow⟩ := (stops lands.done).resolve_left lands.joined
        have column := lands.facts.2.1
        have ends : (found.folded.isEmpty || decide (found'.after.peek = '#') ||
            (!inFlow && decide (found'.after.column < indent))) = true := by
          rw [column, outside, decide_eq_true narrow, Bool.not_false, Bool.true_and, Bool.or_true]
        rw [if_pos ends]
        exact ⟨rfl, rfl, .inr lands, Nat.le_of_lt less⟩

theorem scan_agrees {inFlow : Bool} {indent : Nat} (inside : seam.Inside c d)
    (stops : (scan inFlow indent c).after.rest = [] → Stops seam inFlow indent) :
    ScansAlike seam c.rest.length (scan inFlow indent c) (scan inFlow indent d) :=
  scanFrom_agrees inside (Nat.lt_succ_self _) (Nat.lt_succ_self _) [] [] false stops

/-- What begins with a word is read at least to the end of that word. -/
theorem scan_length_lt {inFlow : Bool} {cursor : Cursor} (indent : Nat) (noComment : cursor.peek ≠ '#')
    (starts : word inFlow cursor.rest ≠ []) :
    (scan inFlow indent cursor).after.rest.length < cursor.rest.length := by
  have fits := word_length_le inFlow cursor.rest
  have filled := List.length_pos_of_ne_nil starts
  obtain ⟨-, -, -, shorter⟩ := gap_agrees (inside_alone (cursor.skip (word inFlow cursor.rest).length))
  rw [Cursor.rest_skip, List.length_drop] at shorter
  have less : (gap (cursor.skip (word inFlow cursor.rest).length)).after.rest.length < cursor.rest.length := by omega
  rw [scan, scanFrom]
  simp only [noComment, if_false, List.isEmpty_iff, starts]
  split
  · exact less
  · exact Nat.lt_of_le_of_lt (scanFrom_agrees (inside_alone _) less less _ _ _ fun _ => .inl rfl).shorter less

end Plain

end CheckCost.Yaml
