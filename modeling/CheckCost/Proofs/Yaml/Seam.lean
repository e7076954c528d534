import CheckCost.Yaml.Fault
import CheckCost.Yaml.Cursor
import Mathlib.Data.List.Basic
import Mathlib.Data.List.TakeDrop

/-!
A part of a text and the whole of it. The part ends with a line feed, and the line after it begins with a word; so what
is read inside the part is read alike in the whole, wherever that stands.
-/
namespace CheckCost.Yaml

/-! Cursors. -/

namespace Cursor

theorem rest_step (cursor : Cursor) : cursor.step.rest = cursor.rest.tail := by
  unfold step
  split
  · next none => simp [none]
  · next cs => split <;> simp [cs]

theorem rest_skip (cursor : Cursor) (n : Nat) : (cursor.skip n).rest = cursor.rest.drop n := by
  induction n generalizing cursor with
  | zero => rfl
  | succ n ih => rw [skip, ih, rest_step, List.drop_tail]

theorem peek_cons {cursor : Cursor} {c : Char} {rest : List Char} (text : cursor.rest = c :: rest) :
    cursor.peek = c := by
  rw [peek, peekAt, text]
  rfl

theorem peek_of_done {cursor : Cursor} (done : cursor.rest = []) : cursor.peek = '\x00' := by
  rw [peek, peekAt, done]
  rfl

theorem rest_ne_nil {cursor : Cursor} (some : cursor.peek ≠ '\x00') : cursor.rest ≠ [] :=
  fun done => some (peek_of_done done)

theorem length_step {cursor : Cursor} (filled : cursor.rest ≠ []) :
    cursor.step.rest.length + 1 = cursor.rest.length := by
  have := List.length_pos_of_ne_nil filled
  rw [rest_step, List.length_tail]
  omega

theorem length_step_le (cursor : Cursor) : cursor.step.rest.length ≤ cursor.rest.length := by
  rw [rest_step, List.length_tail]
  exact Nat.sub_le ..

theorem length_skip_le (cursor : Cursor) (n : Nat) : (cursor.skip n).rest.length ≤ cursor.rest.length := by
  rw [rest_skip, List.length_drop]
  exact Nat.sub_le ..

theorem peekAt_succ (cursor : Cursor) (n : Nat) : cursor.peekAt (n + 1) = cursor.step.peekAt n := by
  unfold peekAt
  rw [rest_step]
  cases cursor.rest <;> rfl

theorem isMark_eq (cursor : Cursor) (mark : Char) :
    cursor.isMark mark =
      (cursor.peek = mark && cursor.step.peek = mark && cursor.step.step.peek = mark &&
        endsWord cursor.step.step.step.peek) := by
  unfold isMark
  rw [peekAt_succ, peekAt_succ cursor 1, peekAt_succ cursor 2, peekAt_succ cursor.step 0, peekAt_succ cursor.step 1,
    peekAt_succ cursor.step.step 0]
  rfl

end Cursor

/-- The text goes on with a line whose first word stands at this column. -/
structure GoesOn (margin : Nat) (tail : List Char) : Prop where
  word : ∃ c rest, tail = List.replicate margin ' ' ++ c :: rest ∧ endsWord c = false ∧ c ≠ '#'
  noMark : (Cursor.ofChars tail).isDocumentMark = false

/-- Where a part of a text ends, what follows it there, and how much longer the whole is before the part. -/
structure Seam where
  goal : Cursor
  tail : List Char
  margin : Nat
  index : Int
  line : Int
  begins : tail ≠ [] → goal.column = 0 ∧ GoesOn margin tail

namespace Seam

variable {seam : Seam} {c d c' d' : Cursor}

/-- A place in the part and the same one in the whole. -/
structure Within (seam : Seam) (c d : Cursor) : Prop where
  rest : d.rest = c.rest ++ seam.tail
  column : d.column = c.column
  index : (d.index : Int) = c.index + seam.index
  line : (d.line : Int) = c.line + seam.line
  goal : c.skip c.rest.length = seam.goal
  closed : seam.tail = [] ∨ c.rest = [] ∨ c.rest.getLast? = some '\n'

/-- Some of the part is left. -/
structure Inside (seam : Seam) (c d : Cursor) : Prop extends seam.Within c d where
  more : seam.tail = [] ∨ c.rest ≠ []

theorem Within.inside_or (within : seam.Within c d) :
    seam.Inside c d ∨ seam.tail ≠ [] ∧ c.rest = [] := by
  by_cases alone : seam.tail = []
  · exact .inl ⟨within, .inl alone⟩
  · by_cases done : c.rest = []
    · exact .inr ⟨alone, done⟩
    · exact .inl ⟨within, .inr done⟩

/-- A text as a part of itself. -/
def alone (c : Cursor) : Seam := ⟨c.skip c.rest.length, [], 0, 0, 0, fun joined => absurd rfl joined⟩

theorem inside_alone (c : Cursor) : (alone c).Inside c c :=
  ⟨⟨(List.append_nil _).symm, rfl, (Int.add_zero _).symm, (Int.add_zero _).symm, rfl, .inl rfl⟩, .inl rfl⟩

theorem Inside.last (inside : seam.Inside c d) (joined : seam.tail ≠ []) : c.rest.getLast? = some '\n' :=
  (inside.closed.resolve_left joined).resolve_left (inside.more.resolve_left joined)

theorem Inside.peek (inside : seam.Inside c d) : d.peek = c.peek := by
  unfold Cursor.peek Cursor.peekAt
  rw [inside.rest]
  cases left : c.rest with
  | nil => rw [inside.more.resolve_right (by simp [left]), List.append_nil]
  | cons => rfl

theorem Inside.step (inside : seam.Inside c d) : seam.Within c.step d.step := by
  have rest := inside.rest
  cases left : c.rest with
  | nil =>
    have alone : seam.tail = [] := inside.more.resolve_right (by simp [left])
    rw [left, alone] at rest
    have stays : c.step = c ∧ d.step = d := by simp [Cursor.step, left, rest]
    rw [stays.1, stays.2]
    exact inside.toWithin
  | cons x r =>
    rw [left, List.cons_append] at rest
    have breaks : (isBreak x && !(x = '\r' && (r ++ seam.tail).head? = some '\n')) =
        (isBreak x && !(x = '\r' && r.head? = some '\n')) := by
      cases r with
      | cons => rfl
      | nil =>
        by_cases alone : seam.tail = []
        · rw [alone]
          rfl
        · have feed := inside.last alone
          rw [left, List.getLast?_singleton, Option.some.injEq] at feed
          simp [feed]
    have goal : c.step.skip r.length = seam.goal := by
      have goal := inside.goal
      rwa [left, List.length_cons, Cursor.skip] at goal
    have closed : seam.tail = [] ∨ r = [] ∨ r.getLast? = some '\n' := by
      refine inside.closed.imp_right fun closed => ?_
      rw [left] at closed
      cases r with
      | nil => exact .inl rfl
      | cons => exact .inr (closed.resolve_left (List.cons_ne_nil _ _))
    have after : c.step.rest = r := by rw [Cursor.rest_step, left, List.tail_cons]
    refine ⟨?rest, ?column, ?index, ?line, by rw [after, goal], by rwa [after]⟩
    case rest => rw [Cursor.rest_step, Cursor.rest_step, left, rest, List.tail_cons, List.tail_cons]
    all_goals simp only [Cursor.step, left, rest, breaks, inside.column]
    case column => split <;> rfl
    case index =>
      have index := inside.index
      split <;> (simp only; omega)
    case line =>
      have line := inside.line
      split <;> (simp only; omega)

theorem Inside.step_of_peek (inside : seam.Inside c d) (word : c.peek ≠ '\n') : seam.Inside c.step d.step := by
  refine ⟨inside.step, ?_⟩
  by_cases alone : seam.tail = []
  · exact .inl alone
  · refine .inr ?_
    have feed := inside.last alone
    rw [Cursor.rest_step]
    unfold Cursor.peek Cursor.peekAt at word
    intro none
    cases left : c.rest with
    | nil => simp [left] at feed
    | cons x r =>
      simp_all

theorem Inside.skip (inside : seam.Inside c d) {n : Nat} (enough : n ≤ c.rest.length) :
    seam.Within (c.skip n) (d.skip n) := by
  induction n generalizing c d with
  | zero => exact inside.toWithin
  | succ n ih =>
    have left : n ≤ c.step.rest.length := by
      rw [Cursor.rest_step, List.length_tail]
      omega
    rcases inside.step.inside_or with next | ⟨_, done⟩
    · exact ih next left
    · rw [done, List.length_nil, Nat.le_zero] at left
      rw [left]
      exact inside.step

theorem Inside.skip_inside (inside : seam.Inside c d) {n : Nat} (enough : n ≤ c.rest.length)
    (left : seam.tail = [] ∨ n < c.rest.length) : seam.Inside (c.skip n) (d.skip n) := by
  refine ⟨inside.skip enough, left.imp_right fun less none => ?_⟩
  rw [Cursor.rest_skip, List.drop_eq_nil_iff] at none
  exact absurd less (Nat.not_lt.mpr none)

theorem takeWhile_append_of_last {p : Char → Bool} (newline : p '\n' = false) {cs : List Char}
    (last : cs.getLast? = some '\n') (tail : List Char) :
    (cs ++ tail).takeWhile p = cs.takeWhile p ∧ (cs.takeWhile p).length < cs.length := by
  induction cs with
  | nil => cases last
  | cons x r ih =>
    rw [List.cons_append, List.takeWhile_cons, List.takeWhile_cons]
    by_cases fits : p x = true
    · cases r with
      | nil =>
        rw [List.getLast?_singleton, Option.some.injEq] at last
        rw [last, newline] at fits
        cases fits
      | cons y r =>
        obtain ⟨same, shorter⟩ := ih (by rwa [List.getLast?_cons_cons] at last)
        rw [if_pos fits, if_pos fits, same, List.length_cons, List.length_cons]
        exact ⟨rfl, Nat.succ_lt_succ shorter⟩
    · simp [fits]

/-- A run of characters ends inside the part if it holds no line feed. -/
theorem Inside.span (inside : seam.Inside c d) {p : Char → Bool} (newline : p '\n' = false) :
    (d.span p).1 = (c.span p).1 ∧ seam.Inside (c.span p).2 (d.span p).2 ∧
      (c.span p).2.rest.length ≤ c.rest.length := by
  have run : (c.rest ++ seam.tail).takeWhile p = c.rest.takeWhile p ∧
      (seam.tail = [] ∨ (c.rest.takeWhile p).length < c.rest.length) := by
    by_cases alone : seam.tail = []
    · rw [alone, List.append_nil]
      exact ⟨rfl, .inl rfl⟩
    · obtain ⟨same, shorter⟩ := takeWhile_append_of_last newline (inside.last alone) seam.tail
      exact ⟨same, .inr shorter⟩
  unfold Cursor.span
  rw [inside.rest, run.1]
  exact ⟨rfl, inside.skip_inside (List.takeWhile_sublist p).length_le run.2, c.length_skip_le _⟩

/-! Marks and line breaks. -/

theorem Inside.peekAt_one (inside : seam.Inside c d) (word : c.peek ≠ '\n') : d.peekAt 1 = c.peekAt 1 := by
  rw [Cursor.peekAt_succ, Cursor.peekAt_succ]
  exact (inside.step_of_peek word).peek

theorem Inside.isMark (inside : seam.Inside c d) {mark : Char} (word : mark ≠ '\n') :
    d.isMark mark = c.isMark mark := by
  rw [Cursor.isMark_eq, Cursor.isMark_eq, inside.peek]
  by_cases first : c.peek = mark
  · have second := inside.step_of_peek (first ▸ word)
    rw [second.peek]
    by_cases again : c.step.peek = mark
    · have third := second.step_of_peek (again ▸ word)
      rw [third.peek]
      by_cases twice : c.step.step.peek = mark
      · rw [(third.step_of_peek (twice ▸ word)).peek]
      · simp [twice]
    · simp [again]
  · simp [first]

theorem isDocumentMark_congr (same : d.rest = c.rest) : d.isDocumentMark = c.isDocumentMark := by
  unfold Cursor.isDocumentMark Cursor.isMark Cursor.peek Cursor.peekAt
  rw [same]

theorem Within.isDocumentMark (within : seam.Within c d) : d.isDocumentMark = c.isDocumentMark := by
  rcases within.inside_or with inside | ⟨joined, done⟩
  · unfold Cursor.isDocumentMark
    rw [inside.isMark (by decide), inside.isMark (by decide)]
  · have next : d.rest = (Cursor.ofChars seam.tail).rest := by rw [within.rest, done, List.nil_append]; rfl
    rw [isDocumentMark_congr next, (seam.begins joined).2.noMark,
      isDocumentMark_congr (c := Cursor.ofChars []) done]
    rfl

theorem Within.inside_of_peek (within : seam.Within c d) (some : c.peek ≠ '\x00') : seam.Inside c d := by
  rcases within.inside_or with inside | ⟨_, done⟩
  · exact inside
  · exact absurd (by rw [Cursor.peek, Cursor.peekAt, done]; rfl) some

theorem Within.inside_of_isDocumentMark (within : seam.Within c d) (mark : c.isDocumentMark = true) :
    seam.Inside c d := by
  refine within.inside_of_peek fun none => ?_
  simp [Cursor.isDocumentMark, Cursor.isMark, none] at mark

/-- The line break of the part is that of the whole, and something is read. -/
theorem Inside.lineBreak? (inside : seam.Inside c d) :
    c.lineBreak? = none ∧ d.lineBreak? = none ∨
      ∃ feed c' d', c.lineBreak? = some (feed, c') ∧ d.lineBreak? = some (feed, d') ∧ seam.Within c' d' ∧
        c'.rest.length < c.rest.length := by
  have shorter (some : c.peek ≠ '\x00') : c.step.rest.length < c.rest.length := by
    have := Cursor.length_step (Cursor.rest_ne_nil some)
    omega
  unfold Cursor.lineBreak?
  simp only [inside.peek]
  by_cases separator : c.peek = '\u2028' ∨ c.peek = '\u2029'
  · have word : c.peek ≠ '\x00' := by
      rcases separator with eq | eq <;> rw [eq] <;> decide
    have holds : (decide (c.peek = '\u2028') || decide (c.peek = '\u2029')) = true := by simpa using separator
    exact .inr ⟨_, _, _, if_pos holds, if_pos holds, inside.step, shorter word⟩
  · by_cases broken : isBreak c.peek = true
    · have word : c.peek ≠ '\x00' := by
        intro none
        rw [none] at broken
        exact absurd broken (by decide)
      by_cases pair : c.peek = '\r' ∧ c.peekAt 1 = '\n'
      · have next := inside.step_of_peek (by rw [pair.1]; decide)
        have same : d.peekAt 1 = c.peekAt 1 := inside.peekAt_one (by rw [pair.1]; decide)
        refine .inr ⟨'\n', c.skip 2, d.skip 2, ?_, ?_, next.step, ?_⟩
        · simp [pair, isBreak]
        · simp [pair, same, isBreak]
        · exact Nat.lt_of_le_of_lt c.step.length_step_le (shorter word)
      · have lone : ¬(c.peek = '\r' ∧ d.peekAt 1 = '\n') := by
          rintro ⟨carriage, feed⟩
          rw [inside.peekAt_one (by rw [carriage]; decide)] at feed
          exact pair ⟨carriage, feed⟩
        refine .inr ⟨'\n', c.skip 1, d.skip 1, ?_, ?_, inside.step, shorter word⟩
        · simp [separator, broken, pair]
        · simp [separator, broken, lone]
    · exact .inl ⟨by simp [separator, broken], by simp [separator, broken]⟩

/-! The line after the part. -/

/-- Where the line after the part has its first word. -/
structure Lands (seam : Seam) (c d : Cursor) : Prop where
  joined : seam.tail ≠ []
  done : c.rest = []
  place : ∃ next, seam.Within c next ∧ d = next.skipSpaces

theorem Within.column_of_done (within : seam.Within c d) (done : c.rest = []) (joined : seam.tail ≠ []) :
    c.column = 0 := by
  have goal := within.goal
  rw [done] at goal
  rw [show c = seam.goal from goal]
  exact (seam.begins joined).1

theorem skip_spaces {cursor : Cursor} {n : Nat} {rest : List Char}
    (spaces : cursor.rest = List.replicate n ' ' ++ rest) :
    (cursor.skip n).rest = rest ∧ (cursor.skip n).column = cursor.column + n ∧
      (cursor.skip n).line = cursor.line ∧ (cursor.skip n).index = cursor.index + n := by
  induction n generalizing cursor with
  | zero => exact ⟨spaces, rfl, rfl, rfl⟩
  | succ n ih =>
    rw [List.replicate_succ, List.cons_append] at spaces
    have step : cursor.step = ⟨List.replicate n ' ' ++ rest, cursor.index + 1, cursor.line, cursor.column + 1⟩ := by
      simp only [Cursor.step, spaces]
      rfl
    have after := ih (show cursor.step.rest = _ by rw [step])
    rw [Cursor.skip]
    rw [step] at after ⊢
    refine ⟨after.1, ?_, after.2.2.1, ?_⟩
    · rw [after.2.1]
      simp only
      omega
    · rw [after.2.2.2]
      simp only
      omega

theorem Within.ahead (within : seam.Within c d) (done : c.rest = []) (joined : seam.tail ≠ []) :
    ∃ x rest, d.rest = List.replicate seam.margin ' ' ++ x :: rest ∧
      seam.tail = List.replicate seam.margin ' ' ++ x :: rest ∧ endsWord x = false ∧ x ≠ '#' := by
  obtain ⟨x, rest, tail, word, comment⟩ := (seam.begins joined).2.word
  exact ⟨x, rest, by rw [within.rest, done, List.nil_append, tail], tail, word, comment⟩

theorem span_of_done {p : Char → Bool} (done : c.rest = []) : c.span p = ([], c) := by
  unfold Cursor.span
  rw [done]
  rfl

/-- What skips blanks goes from the end of the part to the first word of the next line. -/
theorem Within.span_of_done (within : seam.Within c d) (done : c.rest = []) (joined : seam.tail ≠ [])
    {p : Char → Bool} (space : p ' ' = true) (word : ∀ x, p x = true → endsWord x = true) :
    d.span p = (List.replicate seam.margin ' ', d.skip seam.margin) := by
  obtain ⟨x, rest, ahead, -, first, -⟩ := within.ahead done joined
  have stops : ¬p x = true := fun fits => by
    rw [word x fits] at first
    cases first
  have run : d.rest.takeWhile p = List.replicate seam.margin ' ' := by
    rw [ahead, List.takeWhile_append_of_pos (by simp [List.mem_replicate, space]), List.takeWhile_cons_of_neg stops,
      List.append_nil]
  unfold Cursor.span
  simp only [run, List.length_replicate]

theorem Within.skipSpaces_of_done (within : seam.Within c d) (done : c.rest = []) (joined : seam.tail ≠ []) :
    d.skipSpaces = d.skip seam.margin := by
  unfold Cursor.skipSpaces Cursor.skipWhile
  rw [within.span_of_done done joined (by decide) fun x fits => ?_]
  rw [of_decide_eq_true fits]
  decide

theorem Within.lands (within : seam.Within c d) (done : c.rest = []) (joined : seam.tail ≠ []) :
    seam.Lands c (d.skip seam.margin) :=
  ⟨joined, done, d, within, (within.skipSpaces_of_done done joined).symm⟩

/-- The first word of the next line, and where it stands. -/
theorem Lands.facts (lands : seam.Lands c d) :
    (∃ x rest, d.rest = x :: rest ∧ seam.tail = List.replicate seam.margin ' ' ++ x :: rest ∧
      endsWord x = false ∧ x ≠ '#') ∧
    d.column = seam.margin ∧ (d.line : Int) = c.line + seam.line := by
  obtain ⟨joined, done, next, within, rfl⟩ := lands
  obtain ⟨x, rest, ahead, tail, word, comment⟩ := within.ahead done joined
  obtain ⟨after, column, line, _⟩ := skip_spaces ahead
  rw [within.skipSpaces_of_done done joined]
  refine ⟨⟨x, rest, after, tail, word, comment⟩, ?_, ?_⟩
  · rw [column, within.column, within.column_of_done done joined, Nat.zero_add]
  · rw [line, within.line]

/-- A place before the end of the part and the same one in the whole, or that end and the first word after it. -/
def Reaches (seam : Seam) (c d : Cursor) : Prop := seam.Inside c d ∨ seam.Lands c d

/-- A reading of the part and one of the whole that come to corresponding places with the same value. What fails in
the part need not fail in the whole if that goes on. -/
inductive Agrees (seam : Seam) (place : Cursor → Cursor → Prop) (size : Nat) :
    Except Fault (α × Cursor) → Except Fault (α × Cursor) → Prop where
  | ok {value : α} {c d : Cursor} (reached : place c d) (shorter : c.rest.length ≤ size) :
      Agrees seam place size (.ok (value, c)) (.ok (value, d))
  | error {fault : Fault} {other : Except Fault (α × Cursor)} (same : seam.tail = [] → other = .error fault) :
      Agrees seam place size (.error fault) other

variable {place last : Cursor → Cursor → Prop} {size more : Nat}

theorem Agrees.refused (fault : Fault) :
    Agrees seam place size (.error fault : Except Fault (α × Cursor)) (.error fault) := .error fun _ => rfl

theorem Agrees.bind {first first' : Except Fault (α × Cursor)}
    {next next' : α × Cursor → Except Fault (β × Cursor)} (agrees : Agrees seam place size first first')
    (then_ : ∀ value c d, place c d → c.rest.length ≤ size →
      Agrees seam last more (next (value, c)) (next' (value, d))) :
    Agrees seam last more (first >>= next) (first' >>= next') := by
  cases agrees with
  | ok reached shorter => exact then_ _ _ _ reached shorter
  | error same =>
    refine .error fun alone => ?_
    rw [same alone]
    rfl

theorem Agrees.mono {first first' : Except Fault (α × Cursor)}
    (agrees : Agrees seam place size first first') (weaker : ∀ c d, place c d → last c d) (fits : size ≤ more) :
    Agrees seam last more first first' := by
  cases agrees with
  | ok reached shorter => exact .ok (weaker _ _ reached) (Nat.le_trans shorter fits)
  | error same => exact .error same

end Seam

end CheckCost.Yaml
