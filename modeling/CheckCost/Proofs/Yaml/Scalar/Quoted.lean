import CheckCost.Proofs.Yaml.Scalar.Plain
import CheckCost.Yaml.Scalar.Quoted

/-!
Quoted scalars in a part of a text and in the whole. A scalar that is closed in the part is the same in the whole.
-/
namespace CheckCost.Yaml.Quoted

open Seam

variable {seam : Seam} {c d : Cursor}

theorem isSpaceOrTab_word (x : Char) (blank : isSpaceOrTab x = true) : endsWord x = true := by
  simp only [isSpaceOrTab, Bool.or_eq_true, decide_eq_true_eq] at blank
  rcases blank with rfl | rfl <;> rfl

theorem Within.lineBreak?_of_done (within : seam.Within c d) (done : c.rest = []) (joined : seam.tail ≠ []) :
    (d.skip seam.margin).lineBreak? = none := by
  obtain ⟨⟨x, rest, text, _, word, _⟩, _⟩ := (within.lands done joined).facts
  exact Cursor.lineBreak?_eq_none (by rw [Cursor.peek_cons text]; exact isBreak_of_word word)

/-! Between two words. -/

theorem breaks_agrees {fuel fuel' : Nat} (within : seam.Within c d) (enough : c.rest.length < fuel)
    (enough' : d.rest.length < fuel') (done : List Char) :
    Agrees seam seam.Reaches c.rest.length (breaks fuel c done) (breaks fuel' d done) := by
  induction fuel generalizing c d fuel' done with
  | zero => exact absurd enough (Nat.not_lt_zero _)
  | succ fuel ih =>
    obtain ⟨fuel', rfl⟩ : ∃ k, fuel' = k + 1 := ⟨fuel' - 1, by omega⟩
    rw [breaks, breaks, within.isDocumentMark]
    split
    · exact .refused _
    rcases within.inside_or with inside | ⟨joined, ended⟩
    · obtain ⟨-, next, shorter⟩ := inside.span (p := isSpaceOrTab) (by decide)
      simp only [Cursor.skipWhile]
      rcases next.lineBreak? with ⟨none, none'⟩ | ⟨feed, c', d', broken, broken', later, less⟩
      · rw [none, none']
        exact .ok (.inl next) shorter
      · rw [broken, broken']
        have longer : d'.rest.length < d.rest.length := by
          rw [later.rest, inside.rest, List.length_append, List.length_append]
          omega
        exact (ih later (by omega) (by omega) (feed :: done)).mono (fun _ _ => id) (by omega)
    · have stays : c.lineBreak? = none :=
        Cursor.lineBreak?_eq_none (by rw [Cursor.peek_of_done ended]; rfl)
      simp only [Cursor.skipWhile, Seam.span_of_done ended, stays,
        within.span_of_done ended joined (p := isSpaceOrTab) rfl isSpaceOrTab_word,
        Within.lineBreak?_of_done within ended joined]
      exact .ok (.inr (within.lands ended joined)) (Nat.le_refl _)

theorem breaksAt_agrees (within : seam.Within c d) :
    Agrees seam seam.Reaches c.rest.length (breaksAt c) (breaksAt d) :=
  breaks_agrees within (Nat.lt_succ_self _) (Nat.lt_succ_self _) []

theorem gap_agrees (inside : seam.Inside c d) :
    Agrees seam seam.Reaches c.rest.length (gap c) (gap d) := by
  obtain ⟨same, next, shorter⟩ := inside.span (p := isSpaceOrTab) (by decide)
  unfold gap
  simp only [same, next.peek]
  split
  · exact .refused _
  · rcases next.lineBreak? with ⟨none, none'⟩ | ⟨feed, c', d', broken, broken', later, less⟩
    · rw [none, none']
      exact .ok (.inl next) shorter
    · rw [broken, broken']
      exact (breaksAt_agrees later).bind fun more _ _ reached fewer => .ok reached (Nat.le_trans fewer (by omega))

/-! Escapes. -/

theorem hexValue?_of_not_digit {c : Char} (other : Text.hexDigit? c = none) {cs : List Char} (member : c ∈ cs) :
    Text.hexValue? cs = none := by
  obtain ⟨before, after, rfl⟩ := List.append_of_mem member
  have stays (cs : List Char) :
      cs.foldl (fun value c => do return (← value) * 16 + (← Text.hexDigit? c)) (none : Option Nat) = none := by
    induction cs with
    | nil => rfl
    | cons c rest ih => exact ih
  unfold Text.hexValue?
  rw [List.foldl_append, List.foldl_cons, other]
  cases List.foldl (fun value c => do return (← value) * 16 + (← Text.hexDigit? c)) (some 0) before <;>
    exact stays after

/-- The digits of a code end before the line does. -/
theorem code_agrees (inside : seam.Inside c d) (length : Nat) :
    Agrees seam seam.Inside c.rest.length (code length c) (code length d) := by
  have refuses {cursor : Cursor} (feed : '\n' ∈ cursor.rest.take length) :
      code length cursor = failed .escapedScalar := by
    unfold code
    simp only [hexValue?_of_not_digit (c := '\n') rfl feed, ite_self]
  have ends {cursor : Cursor} (short : (cursor.rest.take length).length < length) :
      code length cursor = failed .escapedScalar := by
    unfold code
    simp only [short, if_true]
  by_cases enough : length ≤ c.rest.length
  · have same : d.rest.take length = c.rest.take length := by
      rw [inside.rest, List.take_append_of_le_length enough]
    have full : ¬(c.rest.take length).length < length := by
      rw [List.length_take]
      omega
    unfold code
    simp only [same, full, if_false]
    cases found : Text.hexValue? (c.rest.take length) with
    | none => exact .refused _
    | some value =>
      refine .ok (inside.skip_inside enough ?_) (c.length_skip_le length)
      by_contra beyond
      rw [not_or, Nat.not_lt] at beyond
      have feed : '\n' ∈ c.rest.take length := by
        rw [List.take_of_length_le beyond.2]
        exact List.mem_of_getLast? (inside.last beyond.1)
      rw [hexValue?_of_not_digit rfl feed] at found
      cases found
  · have refused : code length d = failed .escapedScalar := by
      by_cases alone : seam.tail = []
      · refine ends ?_
        rw [inside.rest, alone, List.append_nil, List.length_take]
        omega
      · refine refuses ?_
        rw [inside.rest, List.take_append, List.take_of_length_le (by omega)]
        exact List.mem_append_left _ (List.mem_of_getLast? (inside.last alone))
    rw [ends (by rw [List.length_take]; omega), refused]
    exact .refused _

theorem escape_agrees (inside : seam.Inside c d) :
    Agrees seam seam.Reaches c.rest.length (escape c) (escape d) := by
  have shorter := c.length_step_le
  unfold escape
  simp only [inside.peek]
  cases simple : escapes.lookup c.peek with
  | some meant =>
    have word : c.peek ≠ '\n' := by
      intro feed
      have none : escapes.lookup '\n' = none := rfl
      rw [feed, none] at simple
      cases simple
    exact .ok (.inl (inside.step_of_peek word)) shorter
  | none =>
    cases coded : codeLengths.lookup c.peek with
    | some length =>
      have word : c.peek ≠ '\n' := by
        intro feed
        have none : codeLengths.lookup '\n' = none := rfl
        rw [feed, none] at coded
        cases coded
      refine (code_agrees (inside.step_of_peek word) length).bind fun value c' d' next less => ?_
      cases character value with
      | error => exact .refused _
      | ok meant => exact .ok (.inl next) (Nat.le_trans less shorter)
    | none =>
      rcases inside.lineBreak? with ⟨none, none'⟩ | ⟨feed, c', d', broken, broken', later, less⟩
      · simp only [none, none']
        exact .refused _
      · simp only [broken, broken']
        exact (breaksAt_agrees later).mono (fun _ _ => id) (Nat.le_of_lt less)

/-! Whole scalars. -/

theorem words_of_done {double : Bool} {fuel : Nat} (ended : c.rest = []) (done : List Char) :
    words double fuel c done = .ok (done, c) := by
  cases fuel with
  | zero => rfl
  | succ fuel =>
    rw [words]
    simp only [Seam.span_of_done ended, Cursor.peek_of_done ended, List.append_nil]
    simp

/-- Quotes that are open at the end stay open. -/
theorem open_of_done (double : Bool) (ended : c.rest = []) :
    (c.peek ≠ if double = true then '"' else '\'') ∧ gap c = failed .quotedScalar := by
  refine ⟨?_, ?_⟩
  · rw [Cursor.peek_of_done ended]
    cases double <;> decide
  · unfold gap
    simp only [Seam.span_of_done ended, Cursor.peek_of_done ended]
    rfl

theorem scanFrom_of_done {double : Bool} {fuel : Nat} (ended : c.rest = []) (done : List Char) :
    scanFrom double fuel c done = failed .quotedScalar := by
  cases fuel with
  | zero => rfl
  | succ fuel =>
    obtain ⟨unclosed, stops⟩ := open_of_done double ended
    rw [scanFrom, words_of_done ended]
    simp only [bind, Except.bind, unclosed, if_false, stops]
    rfl

/-- Either the words come to the end of the part, or they are the same in the whole. -/
def EndsOrAgrees (seam : Seam) (size : Nat) (part whole : Scanned) : Prop :=
  (seam.tail ≠ [] ∧ ∃ text c, part = .ok (text, c) ∧ c.rest = []) ∨ Agrees seam seam.Inside size part whole

theorem isDoubled_eq (inside : seam.Inside c d) (double : Bool) :
    (!double && decide (c.peek = '\'') && decide (d.peekAt 1 = '\'')) =
      (!double && decide (c.peek = '\'') && decide (c.peekAt 1 = '\'')) := by
  by_cases quote : c.peek = '\''
  · rw [inside.peekAt_one (by rw [quote]; decide)]
  · simp [quote]

theorem isDoubled_within {double : Bool} (inside : seam.Inside c d)
    (doubled : (!double && decide (c.peek = '\'') && decide (c.peekAt 1 = '\'')) = true) :
    seam.Within (c.skip 2) (d.skip 2) ∧ (c.skip 2).rest.length ≤ c.step.rest.length := by
  simp only [Bool.and_eq_true, decide_eq_true_eq] at doubled
  have next : seam.Inside c.step d.step := inside.step_of_peek (by rw [doubled.1.2]; decide)
  exact ⟨next.step, c.step.length_step_le⟩

/-- Words go on after an escape. -/
theorem EndsOrAgrees.escape {double : Bool} {fuel fuel' size : Nat} (inside : seam.Inside c d) (text : List Char)
    (later : ∀ c' d', seam.Within c' d' → c'.rest.length ≤ c.rest.length → ∀ text,
      EndsOrAgrees seam size (words double fuel c' text) (words double fuel' d' text)) :
    EndsOrAgrees seam size (Quoted.escape c >>= fun found => words double fuel found.2 (text ++ found.1))
      (Quoted.escape d >>= fun found => words double fuel' found.2 (text ++ found.1)) := by
  have agrees := escape_agrees inside
  generalize Quoted.escape c = found, Quoted.escape d = found' at agrees ⊢
  cases agrees with
  | error same =>
    refine .inr (.error fun alone => ?_)
    rw [same alone]
    rfl
  | ok reached fewer =>
    rcases reached with place | lands
    · exact later _ _ place.toWithin fewer _
    · exact .inl ⟨lands.joined, _, _, words_of_done lands.done _, lands.done⟩

theorem words_agrees {double : Bool} {fuel fuel' : Nat} (within : seam.Within c d) (enough : c.rest.length < fuel)
    (enough' : d.rest.length < fuel') (done : List Char) :
    EndsOrAgrees seam c.rest.length (words double fuel c done) (words double fuel' d done) := by
  induction fuel generalizing c d fuel' done with
  | zero => exact absurd enough (Nat.not_lt_zero _)
  | succ fuel ih =>
    rcases within.inside_or with inside | ⟨joined, ended⟩
    swap
    · exact .inl ⟨joined, done, c, words_of_done ended done, ended⟩
    obtain ⟨fuel', rfl⟩ : ∃ k, fuel' = k + 1 := ⟨fuel' - 1, by omega⟩
    obtain ⟨run, next, shorter⟩ := inside.span (p := isOrdinary) (by decide)
    have total : (d.span isOrdinary).2.rest.length ≤ d.rest.length := by
      rw [next.rest, inside.rest, List.length_append, List.length_append]
      omega
    rw [words, words]
    simp only [run]
    generalize (c.span isOrdinary).2 = after, (d.span isOrdinary).2 = after' at next shorter total ⊢
    generalize done ++ (c.span isOrdinary).1 = text
    -- reads on after one more character
    have later (some : after.peek ≠ '\x00') (c' d' : Cursor) (place : seam.Within c' d')
        (fewer : c'.rest.length ≤ after.step.rest.length) (text : List Char) :
        EndsOrAgrees seam c.rest.length (words double fuel c' text) (words double fuel' d' text) := by
      have one := Cursor.length_step (Cursor.rest_ne_nil some)
      have less' : d'.rest.length < d.rest.length := by
        rw [place.rest, List.length_append]
        rw [next.rest, List.length_append] at total
        omega
      exact (ih place (by omega) (by omega) text).imp_right fun agrees =>
        agrees.mono (fun _ _ => id) (by omega)
    rw [next.peek, isDoubled_eq next]
    by_cases doubled : (!double && decide (after.peek = '\'') && decide (after.peekAt 1 = '\'')) = true
    · have quote : after.peek ≠ '\x00' := by
        simp only [Bool.and_eq_true, decide_eq_true_eq] at doubled
        rw [doubled.1.2]
        decide
      obtain ⟨place, fewer⟩ := isDoubled_within next doubled
      rw [if_pos doubled, if_pos doubled]
      exact later quote _ _ place fewer _
    rw [if_neg doubled, if_neg doubled]
    by_cases foreign : (double && decide (after.peek = '\'') ||
        !double && (decide (after.peek = '"') || decide (after.peek = '\\'))) = true
    · have mark : after.peek = '\'' ∨ after.peek = '"' ∨ after.peek = '\\' := by
        simp only [Bool.or_eq_true, Bool.and_eq_true, decide_eq_true_eq] at foreign
        tauto
      have some : after.peek ≠ '\x00' := by
        rcases mark with eq | eq | eq <;> rw [eq] <;> decide
      rw [if_pos foreign, if_pos foreign]
      exact later some _ _ next.step (Nat.le_refl _) _
    rw [if_neg foreign, if_neg foreign]
    by_cases escaped : (double && decide (after.peek = '\\')) = true
    · have slash : after.peek = '\\' := by
        simp only [Bool.and_eq_true, decide_eq_true_eq] at escaped
        exact escaped.2
      rw [if_pos escaped, if_pos escaped]
      exact EndsOrAgrees.escape (next.step_of_peek (by rw [slash]; decide)) text (later (by rw [slash]; decide))
    rw [if_neg escaped, if_neg escaped]
    exact .inr (.ok next shorter)

theorem scanFrom_agrees {double : Bool} {fuel fuel' : Nat} (inside : seam.Inside c d) (fits : fuel ≤ fuel')
    (same : seam.tail = [] → fuel' = fuel) (done : List Char) :
    Agrees seam seam.Inside c.rest.length (scanFrom double fuel c done) (scanFrom double fuel' d done) := by
  induction fuel generalizing c d fuel' done with
  | zero => exact .error fun alone => by rw [same alone, scanFrom]; rfl
  | succ fuel ih =>
    obtain ⟨fuel', rfl⟩ : ∃ k, fuel' = k + 1 := ⟨fuel' - 1, by omega⟩
    rw [scanFrom, scanFrom]
    rcases words_agrees inside.toWithin (Nat.lt_succ_self _) (Nat.lt_succ_self _) done with
      ⟨joined, text, c', read, ended⟩ | agrees
    · -- the part ends inside the quotes
      obtain ⟨unclosed, stops⟩ := open_of_done double ended
      rw [read]
      simp only [bind, Except.bind, unclosed, if_false, stops]
      exact .error fun alone => absurd alone joined
    · refine agrees.bind fun text c' d' place fewer => ?_
      simp only [place.peek]
      by_cases quote : c'.peek = if double = true then '"' else '\''
      · have word : c'.peek ≠ '\n' := by
          rw [quote]
          cases double <;> decide
        rw [if_pos quote, if_pos quote]
        exact .ok (place.step_of_peek word) (Nat.le_trans c'.length_step_le fewer)
      · rw [if_neg quote, if_neg quote]
        refine (gap_agrees place).bind fun blanks c'' d'' reached fewer' => ?_
        rcases reached with place' | lands
        · exact (ih place' (by omega) (fun alone => by have := same alone; omega) _).mono (fun _ _ => id) (by omega)
        · rw [scanFrom_of_done lands.done]
          exact .error fun alone => absurd alone lands.joined

theorem scan_agrees {double : Bool} (inside : seam.Inside c d) (quote : c.peek = if double then '"' else '\'') :
    Agrees seam seam.Inside c.step.rest.length (scan double c) (scan double d) := by
  have word : c.peek ≠ '\n' := by
    rw [quote]
    cases double <;> decide
  have longer : d.rest.length = c.rest.length + seam.tail.length := by rw [inside.rest, List.length_append]
  exact scanFrom_agrees (inside.step_of_peek word) (by omega)
    (fun alone => by rw [longer, alone, List.length_nil]) []

end CheckCost.Yaml.Quoted
