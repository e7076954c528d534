import CheckCost.Proofs.Yaml.Scalar.Quoted
import CheckCost.Yaml.Scalar.Block

/-!
Scalars of whole lines in a part of a text and in the whole. A scalar that comes to the end of the part ends there if
the line after it is not indented enough.
-/
namespace CheckCost.Yaml

namespace Seam

variable {seam : Seam} {c d : Cursor}

theorem Inside.skipComment (inside : seam.Inside c d) :
    seam.Inside c.skipComment d.skipComment ∧ c.skipComment.rest.length ≤ c.rest.length := by
  unfold Cursor.skipComment
  rw [inside.peek]
  split
  · obtain ⟨-, next, shorter⟩ := inside.span (p := (!isBreak ·)) (by decide)
    exact ⟨next, shorter⟩
  · exact ⟨inside, Nat.le_refl _⟩

theorem Inside.skipSpaces (inside : seam.Inside c d) :
    seam.Inside c.skipSpaces d.skipSpaces ∧ c.skipSpaces.rest.length ≤ c.rest.length := by
  obtain ⟨-, next, shorter⟩ := inside.span (p := (· = ' ')) (by decide)
  exact ⟨next, shorter⟩

theorem Inside.skipLineBreak (inside : seam.Inside c d) :
    seam.Within c.skipLineBreak d.skipLineBreak ∧ c.skipLineBreak.rest.length ≤ c.rest.length := by
  unfold Cursor.skipLineBreak
  rcases inside.lineBreak? with ⟨none, none'⟩ | ⟨feed, c', d', broken, broken', next, shorter⟩
  · rw [none, none']
    exact ⟨inside.toWithin, Nat.le_refl _⟩
  · rw [broken, broken']
    exact ⟨next, Nat.le_of_lt shorter⟩

end Seam

namespace Block

open Seam

variable {seam : Seam} {c d : Cursor}

/-! Headers. -/

theorem increment_agrees (inside : seam.Inside c d) :
    Agrees seam seam.Inside c.rest.length (increment c) (increment d) := by
  unfold increment
  rw [inside.peek]
  have digit {depth : Nat} (read : Text.asciiDigit? c.peek = some depth) : c.peek ≠ '\n' := by
    have none : Text.asciiDigit? '\n' = none := rfl
    rintro feed
    rw [feed, none] at read
    cases read
  split
  · exact .refused _
  · next depth read =>
    exact .ok (inside.step_of_peek (digit read)) c.length_step_le
  · exact .ok inside (Nat.le_refl _)

theorem pos_of_increment {depth : Nat} {after : Cursor} (read : increment c = .ok (some depth, after)) :
    1 ≤ depth := by
  unfold increment at read
  split at read
  · cases read
  · next known other found =>
    cases read
    exact Nat.one_le_iff_ne_zero.mpr other
  · cases read

theorem header_agrees (inside : seam.Inside c d) :
    Agrees seam seam.Inside c.rest.length (header c) (header d) := by
  have mark {chomping : Chomping} {cursor : Cursor} (read : chomping? cursor.peek = some chomping) :
      cursor.peek ≠ '\n' := by
    have none : chomping? '\n' = none := rfl
    rintro feed
    rw [feed, none] at read
    cases read
  have ends (header : Header) {c' d' : Cursor} (next : seam.Inside c' d') (fewer : c'.rest.length ≤ c.rest.length) :
      Agrees seam seam.Inside c.rest.length
        (if isGapOrEnd c'.peek then pure (header, c') else failed .blockScalar)
        (if isGapOrEnd d'.peek then pure (header, d') else failed .blockScalar) := by
    rw [next.peek]
    split
    · exact .ok next fewer
    · exact .refused _
  unfold header
  rw [inside.peek]
  cases first : chomping? c.peek with
  | some chomping =>
    refine (increment_agrees (inside.step_of_peek (mark first))).bind fun depth c' d' next fewer => ?_
    exact ends _ next (Nat.le_trans fewer c.length_step_le)
  | none =>
    refine (increment_agrees inside).bind fun depth c' d' next fewer => ?_
    simp only [next.peek]
    cases depth with
    | none => exact ends _ next fewer
    | some depth =>
      cases second : chomping? c'.peek with
      | none => exact ends _ next fewer
      | some chomping => exact ends _ (next.step_of_peek (mark second)) (Nat.le_trans c'.length_step_le fewer)

theorem pos_of_header {found : Header} {after : Cursor} (read : header c = .ok (found, after)) :
    ∀ depth, found.increment = some depth → 1 ≤ depth := by
  have ends {size : Option Nat} {chomping : Chomping} {next : Cursor}
      (read : (if isGapOrEnd next.peek then pure (Header.mk chomping size, next) else failed .blockScalar) =
        Except.ok (found, after)) : found.increment = size := by
    split at read <;> cases read
    rfl
  have deep {start next : Cursor} {size : Option Nat} (read : increment start = .ok (size, next)) :
      ∀ depth, size = some depth → 1 ≤ depth := by
    rintro depth rfl
    exact pos_of_increment read
  unfold header at read
  cases first : chomping? c.peek with
  | some chomping =>
    rw [first] at read
    cases size : increment c.step with
    | error => simp [size, bind, Except.bind] at read
    | ok found =>
      simp only [size, bind, Except.bind, pure, Except.pure] at read
      rw [ends read]
      exact deep size
  | none =>
    rw [first] at read
    cases size : increment c with
    | error => simp [size, bind, Except.bind] at read
    | ok found =>
      obtain ⟨depth, next⟩ := found
      simp only [size, bind, Except.bind, pure, Except.pure] at read
      split at read <;> (rw [ends read]; exact deep size)

theorem restOfLine_agrees (inside : seam.Inside c d) :
    (∃ c' d', restOfLine c = .ok c' ∧ restOfLine d = .ok d' ∧ seam.Within c' d' ∧ c'.rest.length ≤ c.rest.length) ∨
      restOfLine c = failed .blockScalar ∧ restOfLine d = failed .blockScalar := by
  obtain ⟨spaces, shorter⟩ := inside.skipSpaces
  obtain ⟨comment, fewer⟩ := spaces.skipComment
  unfold restOfLine
  simp only [comment.peek]
  split
  · obtain ⟨next, less⟩ := comment.skipLineBreak
    exact .inl ⟨_, _, rfl, rfl, next, by omega⟩
  · exact .inr ⟨rfl, rfl⟩

/-! Blank lines. -/

theorem skipIndent_inside (inside : seam.Inside c d) (indent : Nat) :
    seam.Inside (skipIndent indent c) (skipIndent indent d) ∧
      (skipIndent indent c).rest.length ≤ c.rest.length := by
  obtain ⟨same, next, -⟩ := inside.span (p := (· = ' ')) (by decide)
  unfold skipIndent
  rw [same, inside.column]
  have run : (c.span (· = ' ')).1.length ≤ c.rest.length := (List.takeWhile_sublist _).length_le
  have fits : min (indent - c.column) (c.span (· = ' ')).1.length ≤ c.rest.length := by omega
  refine ⟨inside.skip_inside fits (next.more.imp_right fun left => ?_), c.length_skip_le _⟩
  have := List.length_pos_of_ne_nil left
  rw [show (c.span (· = ' ')).2 = c.skip (c.span (· = ' ')).1.length from rfl, Cursor.rest_skip,
    List.length_drop] at this
  omega

theorem skipIndent_of_done (indent : Nat) (ended : c.rest = []) : skipIndent indent c = c := by
  unfold skipIndent
  rw [Seam.span_of_done ended]
  simp [Cursor.skip]

theorem skipIndent_lands (within : seam.Within c d) (ended : c.rest = []) (joined : seam.tail ≠ []) {indent : Nat}
    (narrow : seam.margin < indent) : skipIndent indent d = d.skip seam.margin := by
  unfold skipIndent
  rw [within.span_of_done ended joined (by decide) fun x fits => by rw [of_decide_eq_true fits]; decide,
    within.column, within.column_of_done ended joined, List.length_replicate]
  congr
  omega

theorem breaks_of_done {indent fuel : Nat} (ended : c.rest = []) (done : List Char) :
    breaks indent fuel c done = (done.reverse, c) := by
  cases fuel with
  | zero => rfl
  | succ fuel =>
    have none : c.lineBreak? = none := Cursor.lineBreak?_eq_none (by rw [Cursor.peek_of_done ended]; rfl)
    rw [breaks]
    simp only [skipIndent_of_done indent ended, none]

/-- The line after the part is not part of a scalar with this indentation. -/
def Stops (seam : Seam) (indent : Nat) : Prop := seam.tail = [] ∨ seam.margin < indent

theorem breaks_agrees {indent fuel fuel' : Nat} (within : seam.Within c d) (enough : c.rest.length < fuel)
    (enough' : d.rest.length < fuel') (done : List Char)
    (stops : (breaks indent fuel c done).2.rest = [] → Stops seam indent) :
    (breaks indent fuel' d done).1 = (breaks indent fuel c done).1 ∧
      seam.Reaches (breaks indent fuel c done).2 (breaks indent fuel' d done).2 ∧
      (breaks indent fuel c done).2.rest.length ≤ c.rest.length := by
  induction fuel generalizing c d fuel' done with
  | zero => exact absurd enough (Nat.not_lt_zero _)
  | succ fuel ih =>
    obtain ⟨fuel', rfl⟩ : ∃ k, fuel' = k + 1 := ⟨fuel' - 1, by omega⟩
    rcases within.inside_or with inside | ⟨joined, ended⟩
    · obtain ⟨next, shorter⟩ := skipIndent_inside inside indent
      rw [breaks] at stops ⊢
      rw [breaks]
      rcases next.lineBreak? with ⟨none, none'⟩ | ⟨feed, c', d', broken, broken', later, less⟩
      · rw [none, none']
        exact ⟨rfl, .inl next, shorter⟩
      · rw [broken] at stops ⊢
        rw [broken']
        have longer : d'.rest.length < d.rest.length := by
          rw [later.rest, inside.rest, List.length_append, List.length_append]
          omega
        obtain ⟨same, reached, fewer⟩ := ih later (by omega) (show _ < fuel' by omega) (feed :: done) stops
        exact ⟨same, reached, Nat.le_trans fewer (by omega)⟩
    · rw [breaks_of_done ended] at stops ⊢
      have narrow := (stops ended).resolve_left joined
      have none := Quoted.Within.lineBreak?_of_done within ended joined
      rw [breaks]
      simp only [skipIndent_lands within ended joined narrow, none]
      exact ⟨trivial, .inr (within.lands ended joined), Nat.le_refl _⟩

theorem measure_agrees {fuel fuel' : Nat} (within : seam.Within c d) (enough : c.rest.length < fuel)
    (enough' : d.rest.length < fuel') (done : List Char) (widest : Nat) :
    (measure fuel' d done widest).1 = (measure fuel c done widest).1 ∧
      (seam.Inside (measure fuel c done widest).2.2 (measure fuel' d done widest).2.2 ∧
          (measure fuel' d done widest).2.1 = (measure fuel c done widest).2.1 ∨
        seam.Lands (measure fuel c done widest).2.2 (measure fuel' d done widest).2.2 ∧
          (measure fuel' d done widest).2.1 = max (measure fuel c done widest).2.1 seam.margin) ∧
      (measure fuel c done widest).2.2.rest.length ≤ c.rest.length := by
  induction fuel generalizing c d fuel' done widest with
  | zero => exact absurd enough (Nat.not_lt_zero _)
  | succ fuel ih =>
    obtain ⟨fuel', rfl⟩ : ∃ k, fuel' = k + 1 := ⟨fuel' - 1, by omega⟩
    rw [measure, measure]
    rcases within.inside_or with inside | ⟨joined, ended⟩
    · obtain ⟨next, shorter⟩ := inside.skipSpaces
      rw [next.column]
      rcases next.lineBreak? with ⟨none, none'⟩ | ⟨feed, c', d', broken, broken', later, less⟩
      · rw [none, none']
        exact ⟨rfl, .inl ⟨next, rfl⟩, shorter⟩
      · rw [broken, broken']
        have longer : d'.rest.length < d.rest.length := by
          rw [later.rest, inside.rest, List.length_append, List.length_append]
          omega
        obtain ⟨same, reached, fewer⟩ := ih later (by omega) (show _ < fuel' by omega) (feed :: done)
          (max widest c.skipSpaces.column)
        exact ⟨same, reached, Nat.le_trans fewer (by omega)⟩
    · have stays : c.skipSpaces = c := by
        unfold Cursor.skipSpaces Cursor.skipWhile
        rw [Seam.span_of_done ended]
      have none : c.lineBreak? = none := Cursor.lineBreak?_eq_none (by rw [Cursor.peek_of_done ended]; rfl)
      have lands := within.lands ended joined
      rw [stays, none, within.skipSpaces_of_done ended joined, Quoted.Within.lineBreak?_of_done within ended joined]
      refine ⟨rfl, .inr ⟨lands, ?_⟩, Nat.le_refl _⟩
      simp only [lands.facts.2.1, within.column_of_done ended joined, Nat.max_zero]

/-! Lines. -/

theorem ends_of_done {indent : Nat} (ended : c.rest = []) :
    ¬(decide (c.column = indent) && !atEnd c.peek) = true := by
  rw [Cursor.peek_of_done ended]
  simp [atEnd]

theorem ends_of_lands {indent : Nat} (lands : seam.Lands c d) (stops : Stops seam indent) :
    ¬(decide (d.column = indent) && !atEnd d.peek) = true := by
  rw [lands.facts.2.1]
  simp [Nat.ne_of_lt (stops.resolve_left lands.joined)]

theorem lines_of_done {folded : Bool} {chomping : Chomping} {indent fuel : Nat} (ended : c.rest = [])
    (done blank : List Char) : (lines folded chomping indent fuel c done blank).2 = c := by
  cases fuel with
  | zero => rfl
  | succ fuel => rw [lines, if_neg (ends_of_done ended)]

/-- What was read of a scalar in the part and in the whole. -/
structure ReadsAlike (seam : Seam) (size : Nat) (found found' : List Char × Cursor) : Prop where
  text : found'.1 = found.1
  after : seam.Reaches found.2 found'.2
  shorter : found.2.rest.length ≤ size

theorem ReadsAlike.agrees {size more : Nat} {found found' : List Char × Cursor}
    (alike : ReadsAlike seam size found found') (fits : size ≤ more) :
    Agrees seam seam.Reaches more (.ok found) (.ok found') := by
  obtain ⟨text, c⟩ := found
  obtain ⟨text', d⟩ := found'
  obtain ⟨rfl, after, shorter⟩ := alike
  exact .ok after (Nat.le_trans shorter fits)

theorem breaksAt_agrees {indent : Nat} (within : seam.Within c d)
    (stops : (breaksAt indent c).2.rest = [] → Stops seam indent) :
    ReadsAlike seam c.rest.length (breaksAt indent c) (breaksAt indent d) := by
  obtain ⟨same, reached, shorter⟩ := breaks_agrees within (Nat.lt_succ_self _) (Nat.lt_succ_self _) [] stops
  exact ⟨same, reached, shorter⟩

theorem breaksAt_length_le (indent : Nat) (cursor : Cursor) :
    (breaksAt indent cursor).2.rest.length ≤ cursor.rest.length :=
  (breaksAt_agrees (inside_alone cursor).toWithin fun _ => .inl rfl).shorter

theorem lines_agrees {folded : Bool} {chomping : Chomping} {indent fuel fuel' : Nat} (reaches : seam.Reaches c d)
    (enough : c.rest.length < fuel) (enough' : d.rest.length < fuel') (done blank : List Char)
    (stops : (lines folded chomping indent fuel c done blank).2.rest = [] → Stops seam indent) :
    ReadsAlike seam c.rest.length (lines folded chomping indent fuel c done blank)
      (lines folded chomping indent fuel' d done blank) := by
  induction fuel generalizing c d fuel' done blank with
  | zero => exact absurd enough (Nat.not_lt_zero _)
  | succ fuel ih =>
    obtain ⟨fuel', rfl⟩ : ∃ k, fuel' = k + 1 := ⟨fuel' - 1, by omega⟩
    rcases reaches with inside | lands
    · rw [lines] at stops ⊢
      rw [lines]
      simp only [inside.peek, inside.column] at stops ⊢
      by_cases goesOn : (decide (c.column = indent) && !atEnd c.peek) = true
      · obtain ⟨sameLine, next, shorter⟩ := inside.span (p := (!isBreak ·)) (by decide)
        rw [if_pos goesOn] at stops
        rw [if_pos goesOn, if_pos goesOn, sameLine]
        rcases next.lineBreak? with ⟨none, none'⟩ | ⟨feed, c', d', broken, broken', later, less⟩
        · rw [none, none']
          exact ⟨rfl, .inl next, shorter⟩
        · rw [broken] at stops ⊢
          rw [broken']
          simp only at stops ⊢
          have longer : d'.rest.length < d.rest.length := by
            rw [later.rest, inside.rest, List.length_append, List.length_append]
            omega
          have stopsHere : (breaksAt indent c').2.rest = [] → Stops seam indent := fun ended =>
            stops (by rw [if_neg (ends_of_done ended)]; exact ended)
          obtain ⟨more, reached, fewer⟩ := breaksAt_agrees later stopsHere
          have fewer' : (breaksAt indent d').2.rest.length ≤ d'.rest.length := breaksAt_length_le indent d'
          simp only [more] at stops ⊢
          by_cases again :
              (decide ((breaksAt indent c').2.column = indent) && !atEnd (breaksAt indent c').2.peek) = true
          · have here : seam.Inside (breaksAt indent c').2 (breaksAt indent d').2 :=
              reached.resolve_right fun lands => ends_of_done lands.done again
            rw [here.column, here.peek, if_pos again, if_pos again]
            rw [if_pos again] at stops
            obtain ⟨text, after, least⟩ := ih reached (by omega) (show _ < fuel' by omega) _ _ stops
            exact ⟨text, after, by omega⟩
          · have again' : ¬(decide ((breaksAt indent d').2.column = indent) &&
                !atEnd (breaksAt indent d').2.peek) = true := by
              rcases reached with here | lands
              · rwa [here.column, here.peek]
              · exact ends_of_lands lands (stopsHere lands.done)
            rw [if_neg again, if_neg again']
            exact ⟨rfl, reached, by simp only; omega⟩
      · rw [if_neg goesOn, if_neg goesOn]
        exact ⟨rfl, .inl inside, Nat.le_refl _⟩
    · rw [lines, if_neg (ends_of_done lands.done)] at stops ⊢
      rw [lines, if_neg (ends_of_lands lands (stops lands.done))]
      exact ⟨rfl, .inr lands, Nat.le_refl _⟩

/-! Whole scalars. -/

/-- The text of a scalar whose header is read, from the next line on. -/
def textFrom (folded : Bool) (minimum : Nat) (header : Header) (body : Cursor) : List Char × Cursor :=
  match header.increment with
  | some depth =>
    let start := breaksAt (max 1 minimum + depth - 1) body
    lines folded header.chomping (max 1 minimum + depth - 1) (body.rest.length + 1) start.2 [] start.1
  | none =>
    let start := measure (body.rest.length + 1) body [] 0
    lines folded header.chomping (max (max 1 minimum) start.2.1) (body.rest.length + 1) start.2.2 [] start.1

theorem scan_eq (folded : Bool) (minimum : Nat) (cursor : Cursor) :
    scan folded minimum cursor = (do
      let (header, afterHeader) ← header cursor.step
      let body ← restOfLine afterHeader
      return textFrom folded minimum header body) := by
  unfold scan textFrom
  refine bind_congr fun found => bind_congr fun body => ?_
  cases found.1.increment <;> rfl

theorem measure_length_le (cursor : Cursor) :
    (measure (cursor.rest.length + 1) cursor [] 0).2.2.rest.length ≤ cursor.rest.length :=
  (measure_agrees (inside_alone cursor).toWithin (Nat.lt_succ_self _) (Nat.lt_succ_self _) [] 0).2.2

theorem textFrom_agrees {folded : Bool} {minimum : Nat} {found : Header} (within : seam.Within c d)
    (deep : ∀ depth, found.increment = some depth → 1 ≤ depth)
    (stops : (textFrom folded minimum found c).2.rest = [] → Stops seam minimum) :
    ReadsAlike seam c.rest.length (textFrom folded minimum found c) (textFrom folded minimum found d) := by
  have wider {indent : Nat} (wide : minimum ≤ indent) (narrow : Stops seam minimum) : Stops seam indent :=
    narrow.imp_right fun less => Nat.lt_of_lt_of_le less wide
  unfold textFrom at stops ⊢
  cases increment : found.increment with
  | some depth =>
    have := deep depth increment
    simp only [increment] at stops ⊢
    have wide : minimum ≤ max 1 minimum + depth - 1 := by omega
    generalize max 1 minimum + depth - 1 = indent at *
    have stopsHere : (breaksAt indent c).2.rest = [] → Stops seam indent := fun ended => by
      rw [lines_of_done ended] at stops
      exact wider wide (stops ended)
    obtain ⟨blank, reached, fewer⟩ := breaksAt_agrees within stopsHere
    have fewer' := breaksAt_length_le indent d
    rw [blank]
    obtain ⟨text, after, less⟩ := lines_agrees reached (Nat.lt_succ_of_le fewer) (Nat.lt_succ_of_le fewer') [] _
      fun ended => wider wide (stops ended)
    exact ⟨text, after, Nat.le_trans less fewer⟩
  | none =>
    simp only [increment] at stops ⊢
    obtain ⟨blank, reached, fewer⟩ :=
      measure_agrees within (Nat.lt_succ_self c.rest.length) (Nat.lt_succ_self d.rest.length) [] 0
    have fewer' := measure_length_le d
    generalize measure (c.rest.length + 1) c [] 0 = start, measure (d.rest.length + 1) d [] 0 = start' at *
    have place : seam.Reaches start.2.2 start'.2.2 ∧
        max (max 1 minimum) start'.2.1 = max (max 1 minimum) start.2.1 := by
      rcases reached with ⟨inside, same⟩ | ⟨lands, wider⟩
      · exact ⟨.inl inside, by rw [same]⟩
      · rw [lines_of_done lands.done] at stops
        have := (stops lands.done).resolve_left lands.joined
        exact ⟨.inr lands, by omega⟩
    rw [blank, place.2]
    obtain ⟨text, after, less⟩ := lines_agrees place.1 (Nat.lt_succ_of_le fewer) (Nat.lt_succ_of_le fewer') [] _
      fun ended => wider (by omega) (stops ended)
    exact ⟨text, after, Nat.le_trans less fewer⟩

theorem scan_agrees {folded : Bool} {minimum : Nat} (inside : seam.Inside c d) (mark : c.peek ≠ '\n')
    (stops : ∀ text after, scan folded minimum c = .ok (text, after) → after.rest = [] → Stops seam minimum) :
    Agrees seam seam.Reaches c.step.rest.length (scan folded minimum c) (scan folded minimum d) := by
  rw [scan_eq] at stops
  rw [scan_eq, scan_eq]
  have headers := header_agrees (inside.step_of_peek mark)
  generalize read : header c.step = first, header d.step = first' at headers stops
  cases headers with
  | error same => exact .error fun alone => by rw [same alone]; rfl
  | @ok found c' d' next fewer =>
    simp only [bind, Except.bind, pure, Except.pure] at stops ⊢
    rcases restOfLine_agrees next with ⟨body, body', rest, rest', later, less⟩ | ⟨failed, failed'⟩
    · rw [rest] at stops ⊢
      rw [rest']
      exact (textFrom_agrees later (pos_of_header read) fun ended => stops _ _ rfl ended).agrees (by omega)
    · rw [failed, failed']
      exact .refused _

end Block

end CheckCost.Yaml
