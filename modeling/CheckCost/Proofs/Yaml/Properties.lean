import CheckCost.Proofs.Yaml.Scalar.Block
import CheckCost.Yaml.Token

/-!
Names, tags and directives in a part of a text and in the whole. None of them goes over the end of a line, so each one
of the part is the same in the whole.
-/
namespace CheckCost.Yaml.Property

open Seam

variable {seam : Seam} {c d : Cursor} {activity : Activity}

theorem name_agrees (inside : seam.Inside c d) (mark : c.peek ≠ '\n') :
    Agrees seam seam.Inside c.step.rest.length (name activity c) (name activity d) := by
  obtain ⟨same, next, shorter⟩ := (inside.step_of_peek mark).span (p := isNameChar) (by decide)
  unfold name
  simp only [same, next.peek]
  split
  · exact .refused _
  · split
    · exact .ok next shorter
    · exact .refused _

/-! Handles and addresses. -/

theorem handle_agrees (inside : seam.Inside c d) :
    Agrees seam seam.Inside c.step.rest.length (handle activity c) (handle activity d) := by
  unfold handle
  rw [inside.peek]
  by_cases mark : c.peek = '!'
  · have word : c.peek ≠ '\n' := by rw [mark]; decide
    have first := inside.step_of_peek word
    obtain ⟨same, next, shorter⟩ := first.span (p := isNameChar) (by decide)
    simp only [inside.peekAt_one word, mark, bne_self_eq_false, Bool.false_eq_true, if_false, same, next.peek]
    split
    · exact .ok first (Nat.le_refl _)
    · split
      · next closed =>
        refine .ok (next.step_of_peek (by rw [closed]; decide)) ?_
        exact Nat.le_trans (Cursor.length_step_le _) shorter
      · exact .refused _
  · simp only [mark, bne_iff_ne, ne_eq, not_false_eq_true, if_true]
    exact .refused _

theorem escapedBytes_agrees {fuel fuel' : Nat} (inside : seam.Inside c d) (enough : c.rest.length < fuel)
    (enough' : d.rest.length < fuel') (done : List UInt8) :
    Agrees seam seam.Inside (if c.peek = '%' then c.step.rest.length else c.rest.length)
      (escapedBytes activity fuel c done) (escapedBytes activity fuel' d done) := by
  induction fuel generalizing c d fuel' done with
  | zero => exact absurd enough (Nat.not_lt_zero _)
  | succ fuel ih =>
    obtain ⟨fuel', rfl⟩ : ∃ k, fuel' = k + 1 := ⟨fuel' - 1, by omega⟩
    have digit {cursor : Cursor} {value : Nat} (read : Text.hexDigit? cursor.peek = some value) :
        cursor.peek ≠ '\n' := by
      have none : Text.hexDigit? '\n' = none := rfl
      rintro feed
      rw [feed, none] at read
      cases read
    rw [escapedBytes, escapedBytes, inside.peek]
    by_cases mark : c.peek = '%'
    · have word : c.peek ≠ '\n' := by rw [mark]; decide
      have first := inside.step_of_peek word
      have left := Cursor.length_step (Cursor.rest_ne_nil (by rw [mark]; decide) : c.rest ≠ [])
      have left' := Cursor.length_step (Cursor.rest_ne_nil (by rw [inside.peek, mark]; decide) : d.rest ≠ [])
      simp only [mark, bne_self_eq_false, Bool.false_eq_true, if_false, if_true, Cursor.peekAt_succ,
        show ∀ cursor : Cursor, cursor.peekAt 0 = cursor.peek from fun _ => rfl, first.peek]
      cases high : Text.hexDigit? c.step.peek with
      | none => exact .refused _
      | some high' =>
        have second := first.step_of_peek (digit high)
        rw [second.peek]
        cases low : Text.hexDigit? c.step.step.peek with
        | none => exact .refused _
        | some low' =>
          have third : seam.Inside (c.skip 3) (d.skip 3) := second.step_of_peek (digit low)
          have fewer : (c.skip 3).rest.length ≤ c.step.rest.length :=
            Nat.le_trans (Cursor.length_step_le _) (Cursor.length_step_le _)
          have fewer' : (d.skip 3).rest.length ≤ d.step.rest.length :=
            Nat.le_trans (Cursor.length_step_le _) (Cursor.length_step_le _)
          refine (ih third (by omega) (by omega) _).mono (fun _ _ => id) ?_
          have := Cursor.length_step_le (c.skip 3)
          split <;> omega
    · simp only [mark, bne_iff_ne, ne_eq, not_false_eq_true, if_true, if_false]
      exact .ok inside (Nat.le_refl _)

theorem addressFrom_agrees {fuel fuel' : Nat} (inside : seam.Inside c d) (enough : c.rest.length < fuel)
    (enough' : d.rest.length < fuel') (done : List Char) :
    Agrees seam seam.Inside c.rest.length (addressFrom activity fuel c done) (addressFrom activity fuel' d done) := by
  induction fuel generalizing c d fuel' done with
  | zero => exact absurd enough (Nat.not_lt_zero _)
  | succ fuel ih =>
    obtain ⟨fuel', rfl⟩ : ∃ k, fuel' = k + 1 := ⟨fuel' - 1, by omega⟩
    obtain ⟨same, next, shorter⟩ := inside.span (p := isAddressChar) (by decide)
    rw [addressFrom, addressFrom]
    simp only [same, next.peek]
    generalize c.span isAddressChar = run, d.span isAddressChar = run' at *
    by_cases mark : run.2.peek = '%'
    · have left := Cursor.length_step (Cursor.rest_ne_nil (by rw [mark]; decide) : run.2.rest ≠ [])
      have bytes : Agrees seam seam.Inside _ (escapedBytes activity _ run.2 []) _ :=
        escapedBytes_agrees next (Nat.lt_succ_self _) (Nat.lt_succ_self _) []
      simp only [mark, bne_self_eq_false, Bool.false_eq_true, if_false, if_true] at bytes ⊢
      refine bytes.bind fun read c' d' later fewer => ?_
      have less : d'.rest.length < d.rest.length := by
        rw [later.rest, inside.rest, List.length_append, List.length_append]
        omega
      cases decoded : Text.Utf8.decode read with
      | error => exact .refused _
      | ok cs => exact (ih later (by omega) (by omega) _).mono (fun _ _ => id) (by omega)
    · simp only [mark, bne_iff_ne, ne_eq, not_false_eq_true, if_true]
      exact .ok next shorter

theorem address_agrees {scanning parsing : Activity} (inside : seam.Inside c d) :
    Agrees seam seam.Inside c.rest.length (address scanning parsing c) (address scanning parsing d) := by
  unfold address
  refine (addressFrom_agrees inside (Nat.lt_succ_self _) (Nat.lt_succ_self _) []).bind fun cs c' d' next fewer => ?_
  have here := inside.index
  have there := next.index
  have same : d'.index = d.index ↔ c'.index = c.index := by omega
  simp only [same]
  split
  · exact .refused _
  · exact .ok next fewer

/-! Tags. -/

theorem hasHandle_eq (inside : seam.Inside c d) (mark : c.peek ≠ '\n') : hasHandle d = hasHandle c := by
  have next := inside.step_of_peek mark
  unfold hasHandle
  by_cases alone : seam.tail = []
  · rw [next.rest, alone, List.append_nil]
  · rw [next.rest, (takeWhile_append_of_last (by decide) (next.last alone) seam.tail).1]

theorem tag_agrees (inside : seam.Inside c d) (mark : c.peek = '!') :
    Agrees seam seam.Inside c.step.rest.length (tag c) (tag d) := by
  have word : c.peek ≠ '\n' := by rw [mark]; decide
  have first := inside.step_of_peek word
  have ends (token : Token) {c' d' : Cursor} (next : seam.Inside c' d') (fewer : c'.rest.length ≤ c.step.rest.length) :
      Agrees seam seam.Inside c.step.rest.length
        (if isGapOrEnd c'.peek then pure (token, c') else failed .tag)
        (if isGapOrEnd d'.peek then pure (token, d') else failed .tag) := by
    rw [next.peek]
    split
    · exact .ok next fewer
    · exact .refused _
  unfold tag
  rw [inside.peekAt_one word, hasHandle_eq inside word]
  by_cases opens : c.peekAt 1 = '<'
  · have second : seam.Inside (c.skip 2) (d.skip 2) := first.step_of_peek (by
      rw [Cursor.peek, ← Cursor.peekAt_succ, opens]
      decide)
    have shorter : (c.skip 2).rest.length ≤ c.step.rest.length := Cursor.length_step_le c.step
    simp only [opens, if_true]
    refine (address_agrees second).bind fun suffix c' d' next fewer => ?_
    simp only [next.peek]
    by_cases closed : c'.peek = '>'
    · simp only [closed, if_true]
      refine ends _ (next.step_of_peek (by rw [closed]; decide)) ?_
      exact Nat.le_trans (Cursor.length_step_le _) (Nat.le_trans fewer shorter)
    · simp only [closed, if_false]
      exact .refused _
  · simp only [opens, if_false]
    by_cases lone : endsWord (c.peekAt 1) = true
    · simp only [lone, if_true]
      exact ends _ first (Nat.le_refl _)
    · simp only [lone, Bool.false_eq_true, if_false]
      by_cases named : hasHandle c = true
      · simp only [named, if_true]
        refine (handle_agrees inside).bind fun found c' d' next fewer => ?_
        refine (address_agrees next).bind fun suffix c'' d'' later fewest => ?_
        exact ends _ later (Nat.le_trans fewest fewer)
      · simp only [named, Bool.false_eq_true, if_false]
        refine (address_agrees first).bind fun suffix c' d' next fewer => ?_
        exact ends _ next fewer

/-! Directives. -/

theorem number_agrees (inside : seam.Inside c d) :
    Agrees seam seam.Inside c.rest.length (number c) (number d) := by
  obtain ⟨same, next, shorter⟩ := inside.span (p := isDigit) (by decide)
  unfold number
  simp only [same]
  split
  · exact .refused _
  · split
    · exact .refused _
    · exact .ok next shorter

theorem version_agrees (inside : seam.Inside c d) :
    Agrees seam seam.Inside c.rest.length (version c) (version d) := by
  obtain ⟨spaces, less⟩ := inside.skipSpaces
  unfold version
  refine (number_agrees spaces).bind fun major c' d' next fewer => ?_
  simp only [next.peek]
  by_cases dot : c'.peek = '.'
  · simp only [dot, bne_self_eq_false, Bool.false_eq_true, if_false]
    refine (number_agrees (next.step_of_peek (by rw [dot]; decide))).bind fun minor c'' d'' later fewest => ?_
    simp only [later.peek]
    split
    · exact .ok later (Nat.le_trans fewest (Nat.le_trans (Cursor.length_step_le _) (Nat.le_trans fewer less)))
    · exact .refused _
  · simp only [dot, bne_iff_ne, ne_eq, not_false_eq_true, if_true]
    exact .refused _

theorem handleDirective_agrees (inside : seam.Inside c d) :
    Agrees seam seam.Inside c.rest.length (handleDirective c) (handleDirective d) := by
  obtain ⟨spaces, less⟩ := inside.skipSpaces
  unfold handleDirective
  refine (handle_agrees spaces).bind fun found c' d' next fewer => ?_
  simp only [next.peek]
  by_cases space : c'.peek = ' '
  · obtain ⟨start, shorter⟩ := next.skipSpaces
    simp only [space, bne_self_eq_false, Bool.false_eq_true, if_false]
    refine (address_agrees start).bind fun suffix c'' d'' later fewest => ?_
    simp only [later.peek]
    split
    · have := Cursor.length_step_le c.skipSpaces
      exact .ok later (by omega)
    · exact .refused _
  · simp only [space, bne_iff_ne, ne_eq, not_false_eq_true, if_true]
    exact .refused _

theorem directive_agrees (inside : seam.Inside c d) (mark : c.peek ≠ '\n') :
    Agrees seam seam.Within c.step.rest.length (directive c) (directive d) := by
  obtain ⟨same, next, shorter⟩ := (inside.step_of_peek mark).span (p := isNameChar) (by decide)
  have ends (found : Directive) {c' d' : Cursor} (next : seam.Inside c' d')
      (fewer : c'.rest.length ≤ c.step.rest.length) :
      Agrees seam seam.Within c.step.rest.length
        (if endsLine c'.skipSpaces.skipComment.peek then
          pure (Token.directive found, c'.skipSpaces.skipComment.skipLineBreak) else failed .directive)
        (if endsLine d'.skipSpaces.skipComment.peek then
          pure (Token.directive found, d'.skipSpaces.skipComment.skipLineBreak) else failed .directive) := by
    obtain ⟨spaces, less⟩ := next.skipSpaces
    obtain ⟨comment, least⟩ := spaces.skipComment
    obtain ⟨later, lower⟩ := comment.skipLineBreak
    rw [comment.peek]
    split
    · exact .ok later (by omega)
    · exact .refused _
  unfold directive
  simp only [same, next.peek]
  generalize c.step.span isNameChar = run, d.step.span isNameChar = run' at *
  split
  · exact .refused _
  · split
    · exact (version_agrees next).bind fun found c' d' later fewer => ends found later (Nat.le_trans fewer shorter)
    · split
      · exact (handleDirective_agrees next).bind fun found c' d' later fewer =>
          ends found later (Nat.le_trans fewer shorter)
      · obtain ⟨-, later, fewer⟩ := next.span (p := (!isBreak ·)) (by decide)
        rw [pure_bind, pure_bind]
        exact ends .other later (Nat.le_trans fewer shorter)

end CheckCost.Yaml.Property
