import CheckCost.Proofs.Yaml.Layout

/-!
Single tokens in a part of a text and in the whole. A token that begins in the part is the same in the whole; only a
scalar that comes to the end of the part has to be kept from going on.
-/
namespace CheckCost.Yaml.Layout

open Seam

variable {seam : Seam} {base base' : List Token} {a b : Layout}

/-- What is left after a token: something was read, unless the text ended. -/
structure Follows (seam : Seam) (base base' : List Token) (size : Nat) (a b : Layout) : Prop where
  alike : Alike seam base base' (Between seam) a b
  shorter : a.cursor.rest.length < size ∨ a.tokens.head? = some .streamEnd
  head : b.tokens.head? = a.tokens.head?

theorem dropKey_eq {cleared : Layout} (dropped : a.dropKey = .ok cleared) :
    cleared = { a with keys := cleared.keys } := by
  unfold dropKey at dropped
  split at dropped
  · split at dropped <;> cases dropped
    rfl
  · cases dropped
    rfl

theorem noteKey_eq {noted : Layout} (read : a.noteKey = .ok noted) : noted = { a with keys := noted.keys } := by
  unfold noteKey at read
  split at read
  · cases read
    rfl
  · cases dropped : a.dropKey with
    | error => simp [dropped, bind, Except.bind] at read
    | ok cleared =>
      simp only [dropped, bind, Except.bind, pure, Except.pure] at read
      cases read
      rw [dropKey_eq dropped]

theorem closeWhile_cursor (closes : Nat → Bool) (layout : Layout) :
    (layout.closeWhile closes).cursor = layout.cursor := by
  have pushes (closed : List Nat) (layout : Layout) :
      (closed.foldl (fun layout _ => layout.push .blockEnd) layout).cursor = layout.cursor := by
    induction closed generalizing layout with
    | nil => rfl
    | cons _ closed ih => exact ih (layout.push .blockEnd)
  exact pushes _ _

theorem closeAll_cursor (layout : Layout) : layout.closeAll.cursor = layout.cursor := by
  unfold closeAll
  split
  · rfl
  · exact closeWhile_cursor _ layout

theorem openBlock_cursor (token : Token) (layout : Layout) : (layout.openBlock token).cursor = layout.cursor := by
  unfold openBlock
  split <;> rfl

theorem confirmKey_cursor (key : PossibleKey) (layout : Layout) :
    (layout.confirmKey key).cursor = layout.cursor := by
  unfold confirmKey
  simp only
  split <;> rfl

theorem Follows.inside {size : Nat} (alike : Alike seam base base' seam.Inside a b)
    (shorter : a.cursor.rest.length < size) (token : Token) :
    Follows seam base base' size (a.push token) (b.push token) :=
  ⟨(alike.push token).mono fun _ _ inside => .inl inside.toWithin, .inl shorter, rfl⟩

theorem Follows.step {c : Cursor} (alike : Alike seam base base' seam.Inside a b) (here : a.cursor = c)
    (some : c.peek ≠ '\x00') (word : c.peek ≠ '\n') (token : Token) :
    Follows seam base base' c.rest.length ((a.skip 1).push token) ((b.skip 1).push token) := by
  subst here
  have next := alike.moved (alike.cursor.step_of_peek word)
  have less := Cursor.length_step (Cursor.rest_ne_nil some)
  exact Follows.inside next (by simp only; omega) token

/-! Marks. -/

theorem streamEnd_matches (alike : Alike seam base base' seam.Inside a b) :
    Matches seam (Follows seam base base' a.cursor.rest.length) a.streamEnd b.streamEnd := by
  refine alike.closeAll.dropKey.bind fun cleared cleared' _ later => .ok ⟨?_, .inr rfl, rfl⟩
  exact (later.push .streamEnd).mono fun _ _ inside => .inl inside.toWithin

theorem directive_matches (alike : Alike seam base base' seam.Inside a b) (some : a.cursor.peek ≠ '\x00')
    (word : a.cursor.peek ≠ '\n') :
    Matches seam (Follows seam base base' a.cursor.rest.length) a.directive b.directive := by
  have less := Cursor.length_step (Cursor.rest_ne_nil some)
  refine alike.closeAll.dropKey.bind fun cleared cleared' _ later => ?_
  refine (Property.directive_agrees alike.cursor word).matches.bind fun found found' _ ⟨token, reached, shorter⟩ => ?_
  refine .ok ⟨?_, .inl (by simp only [push]; omega), congrArg Option.some token⟩
  rw [token]
  exact ((later.allowKey false).moved (show Between seam found.2 found'.2 from .inl reached)).push found.1

theorem documentMark_matches (alike : Alike seam base base' seam.Inside a b) {mark : Char}
    (marked : a.cursor.isMark mark = true) (some : mark ≠ '\x00') (word : mark ≠ '\n') (token : Token) :
    Matches seam (Follows seam base base' a.cursor.rest.length) (a.documentMark token) (b.documentMark token) := by
  rw [Cursor.isMark_eq] at marked
  simp only [Bool.and_eq_true, decide_eq_true_eq] at marked
  obtain ⟨⟨⟨first, second⟩, third⟩, -⟩ := marked
  refine alike.closeAll.dropKey.bind fun cleared cleared' dropped later => ?_
  have here : cleared.cursor = a.cursor := by
    rw [dropKey_eq dropped]
    exact closeAll_cursor a
  rw [← here] at first second third ⊢
  have less := Cursor.length_step (Cursor.rest_ne_nil (first ▸ some) : cleared.cursor.rest ≠ [])
  have fewer : (cleared.cursor.skip 3).rest.length ≤ cleared.cursor.step.rest.length :=
    Nat.le_trans (Cursor.length_step_le _) (Cursor.length_step_le _)
  have next : seam.Inside (cleared.cursor.skip 3) (cleared'.cursor.skip 3) :=
    ((later.cursor.step_of_peek (first ▸ word)).step_of_peek (second ▸ word)).step_of_peek (third ▸ word)
  exact .ok (Follows.inside ((later.allowKey false).moved next) (by simp only; omega) token)

theorem flowStart_matches (alike : Alike seam base base' seam.Inside a b) (some : a.cursor.peek ≠ '\x00')
    (word : a.cursor.peek ≠ '\n') (token : Token) :
    Matches seam (Follows seam base base' a.cursor.rest.length) (a.flowStart token) (b.flowStart token) := by
  refine alike.noteKey.bind fun noted noted' read later => ?_
  have here : noted.cursor = a.cursor := by rw [noteKey_eq read]
  exact .ok (Follows.step ((later.allowKey true).deepened (· + 1)) here some word token)

theorem flowEnd_matches (alike : Alike seam base base' seam.Inside a b) (some : a.cursor.peek ≠ '\x00')
    (word : a.cursor.peek ≠ '\n') (token : Token) :
    Matches seam (Follows seam base base' a.cursor.rest.length) (a.flowEnd token) (b.flowEnd token) := by
  refine alike.dropKey.bind fun cleared cleared' dropped later => ?_
  have here : cleared.cursor = a.cursor := by rw [dropKey_eq dropped]
  exact .ok (Follows.step ((later.allowKey false).deepened (· - 1)) here some word token)

theorem flowEntry_matches (alike : Alike seam base base' seam.Inside a b) (some : a.cursor.peek ≠ '\x00')
    (word : a.cursor.peek ≠ '\n') :
    Matches seam (Follows seam base base' a.cursor.rest.length) a.flowEntry b.flowEntry := by
  refine alike.dropKey.bind fun cleared cleared' dropped later => ?_
  have here : cleared.cursor = a.cursor := by rw [dropKey_eq dropped]
  exact .ok (Follows.step (later.allowKey true) here some word .flowEntry)

/-- Opens a collection, or finds it open, and goes past its mark. -/
theorem opened_matches (alike : Alike seam base base' seam.Inside a b) (some : a.cursor.peek ≠ '\x00')
    (word : a.cursor.peek ≠ '\n') (opening token : Token) (allowsKey : Bool) :
    Matches seam (Follows seam base base' a.cursor.rest.length)
      (do
        let cleared ← ((a.openBlock opening).allowKey allowsKey).dropKey
        return (cleared.skip 1).push token)
      (do
        let cleared ← ((b.openBlock opening).allowKey allowsKey).dropKey
        return (cleared.skip 1).push token) := by
  refine ((alike.openBlock opening).allowKey allowsKey).dropKey.bind fun cleared cleared' dropped later => ?_
  have here : cleared.cursor = a.cursor := by
    rw [dropKey_eq dropped]
    exact openBlock_cursor opening a
  exact .ok (Follows.step later here some word token)

theorem blockEntry_matches (alike : Alike seam base base' seam.Inside a b) (some : a.cursor.peek ≠ '\x00')
    (word : a.cursor.peek ≠ '\n') :
    Matches seam (Follows seam base base' a.cursor.rest.length) a.blockEntry b.blockEntry := by
  unfold blockEntry
  rw [alike.inFlow, alike.allowsKey]
  split
  · exact .refused _
  · exact opened_matches alike some word .blockSequenceStart .blockEntry true

theorem key_matches (alike : Alike seam base base' seam.Inside a b) (some : a.cursor.peek ≠ '\x00')
    (word : a.cursor.peek ≠ '\n') :
    Matches seam (Follows seam base base' a.cursor.rest.length) a.key b.key := by
  unfold key
  rw [alike.inFlow, alike.allowsKey]
  split
  · exact .refused _
  · exact opened_matches alike some word .blockMappingStart .key (!a.inFlow)

theorem value_matches (alike : Alike seam base base' seam.Inside a b) (some : a.cursor.peek ≠ '\x00')
    (word : a.cursor.peek ≠ '\n') :
    Matches seam (Follows seam base base' a.cursor.rest.length) a.value b.value := by
  unfold value
  rw [alike.depth, alike.inFlow, alike.allowsKey]
  rcases forall₂_lookup alike.keys a.depth with ⟨none, none'⟩ | ⟨key, key', found, found', same⟩
  · rw [none, none']
    simp only
    split
    · exact .refused _
    · exact opened_matches alike some word .blockMappingStart .value (!a.inFlow)
  · rw [found, found']
    exact .ok (Follows.step ((alike.confirmKey same).allowKey false) (confirmKey_cursor key a) some word .value)

/-! Words. -/

theorem property_matches (alike : Alike seam base base' seam.Inside a b) (some : a.cursor.peek ≠ '\x00')
    {scan : Cursor → Except Fault (Token × Cursor)}
    (agrees : Agrees seam seam.Inside a.cursor.step.rest.length (scan a.cursor) (scan b.cursor)) :
    Matches seam (Follows seam base base' a.cursor.rest.length) (a.property scan) (b.property scan) := by
  have less := Cursor.length_step (Cursor.rest_ne_nil some)
  refine alike.noteKey.bind fun noted noted' read later => ?_
  refine agrees.matches.bind fun found found' _ ⟨token, reached, shorter⟩ => .ok ?_
  rw [token]
  exact Follows.inside ((later.allowKey false).moved reached) (by simp only; omega) found.1

theorem aliasToken_agrees {c d : Cursor} (inside : seam.Inside c d) (word : c.peek ≠ '\n') :
    Agrees seam seam.Inside c.step.rest.length (aliasToken c) (aliasToken d) :=
  (Property.name_agrees inside word).bind fun _ _ _ next fewer => .ok next fewer

theorem anchorToken_agrees {c d : Cursor} (inside : seam.Inside c d) (word : c.peek ≠ '\n') :
    Agrees seam seam.Inside c.step.rest.length (anchorToken c) (anchorToken d) :=
  (Property.name_agrees inside word).bind fun _ _ _ next fewer => .ok next fewer

theorem quotedToken_agrees {c d : Cursor} (double : Bool) (inside : seam.Inside c d)
    (quote : c.peek = if double then '"' else '\'') :
    Agrees seam seam.Inside c.step.rest.length (quotedToken double c) (quotedToken double d) :=
  (Quoted.scan_agrees inside quote).bind fun _ _ _ next fewer => .ok next fewer

/-- A scalar at the end of the part does not go on after it. -/
def Halts (seam : Seam) (layout : Layout) : Prop :=
  seam.tail = [] ∨ layout.depth = 0 ∧ seam.margin < layout.minimum ∨
    ∀ text plain, layout.tokens.head? ≠ some (.scalar text plain)

theorem blockScalar_matches (alike : Alike seam base base' seam.Inside a b) (some : a.cursor.peek ≠ '\x00')
    (word : a.cursor.peek ≠ '\n') {folded : Bool}
    (halts : ∀ later, a.blockScalar folded = .ok later → later.cursor.rest = [] → Halts seam later) :
    Matches seam (Follows seam base base' a.cursor.rest.length) (a.blockScalar folded) (b.blockScalar folded) := by
  have less := Cursor.length_step (Cursor.rest_ne_nil some)
  unfold blockScalar at halts ⊢
  refine (alike.allowKey true).dropKey.bind fun cleared cleared' dropped later => ?_
  have same := dropKey_eq dropped
  have minimum : cleared.minimum = a.minimum := by rw [same]; rfl
  rw [dropped] at halts
  rw [alike.minimum]
  refine (Block.scan_agrees alike.cursor word fun text after read ended => ?_).matches.bind
    fun found found' read ⟨text, reached, shorter⟩ => .ok ⟨?_, .inl (by simp only [push]; omega), ?_⟩
  · rcases halts ({ cleared with cursor := after }.push (.scalar text false))
      (by simp only [bind, Except.bind, read, pure, Except.pure]) ended with alone | ⟨-, narrow⟩ | other
    · exact .inl alone
    · exact .inr (minimum ▸ narrow)
    · exact absurd rfl (other text false)
  · rw [text]
    exact (later.moved (reached.imp_left Inside.toWithin)).push _
  · simp only [push, text, List.head?_cons]

theorem word_of_beginsPlain (begins : a.beginsPlain = true) :
    a.cursor.peek ≠ '#' ∧ Plain.word a.inFlow a.cursor.rest ≠ [] := by
  unfold beginsPlain at begins
  cases text : a.cursor.rest with
  | nil =>
    rw [Cursor.peek_of_done text] at begins
    simp [endsWord, isGapOrEnd, endsLine, atEnd] at begins
  | cons x rest =>
    have second : a.cursor.peekAt 1 = rest.headD '\x00' := by
      rw [Cursor.peekAt, text]
      cases rest <;> rfl
    simp only [Cursor.peek_cons text, second] at begins ⊢
    have marks : "-?:,[]\x7b\x7d#&*!|>'\"%@\x60".toList =
        ['-', '?', ':', ',', '[', ']', '\x7b', '\x7d', '#', '&', '*', '!', '|', '>', '\'', '"', '%', '@', '\x60'] := rfl
    rw [marks] at begins
    simp only [Bool.or_eq_true, Bool.not_eq_true', Bool.or_eq_false_iff, Bool.and_eq_true, decide_eq_true_eq,
      List.contains_eq_mem, decide_eq_false_iff_not] at begins
    rcases begins with ⟨word, other⟩ | ⟨next, dash | ⟨outside, question | colon⟩⟩
    · simp_all [Plain.word, Plain.isFlowMark]
    · subst dash
      simp [Plain.word, Plain.isFlowMark, endsWord, isGapOrEnd, endsLine, isBreak, atEnd]
    · subst question
      simp [Plain.word, outside, endsWord, isGapOrEnd, endsLine, isBreak, atEnd]
    · subst colon
      simp only [Plain.word, Plain.endsKey, outside, next]
      simp [endsWord, isGapOrEnd, endsLine, isBreak, atEnd]

theorem plain_matches (alike : Alike seam base base' seam.Inside a b) (begins : a.beginsPlain = true)
    (halts : ∀ later, a.plain = .ok later → later.cursor.rest = [] → Halts seam later) :
    Matches seam (Follows seam base base' a.cursor.rest.length) a.plain b.plain := by
  obtain ⟨noComment, starts⟩ := word_of_beginsPlain begins
  have less := Plain.scan_length_lt a.minimum noComment starts
  unfold plain at halts ⊢
  refine alike.noteKey.bind fun noted noted' read later => ?_
  have same := noteKey_eq read
  have minimum : noted.minimum = a.minimum := by rw [same]; rfl
  have depth : noted.depth = a.depth := by rw [same]
  rw [read] at halts
  rw [alike.minimum, alike.inFlow]
  have scanned : Plain.ScansAlike seam a.cursor.rest.length (Plain.scan a.inFlow a.minimum a.cursor)
      (Plain.scan a.inFlow a.minimum b.cursor) := Plain.scan_agrees alike.cursor fun ended => by
    rcases halts _ rfl ended with alone | ⟨outside, narrow⟩ | other
    · exact .inl alone
    · refine .inr ⟨?_, minimum ▸ narrow⟩
      rw [inFlow, ← depth, show noted.depth = 0 from outside]
      rfl
    · exact absurd rfl (other _ true)
  simp only [scanned.text, scanned.broke]
  have reached : Between seam (Plain.scan a.inFlow a.minimum a.cursor).after
      (Plain.scan a.inFlow a.minimum b.cursor).after := scanned.after.imp_left Inside.toWithin
  exact .ok ⟨((later.allowKey (Plain.scan a.inFlow a.minimum a.cursor).broke).moved reached).push _, .inl less, rfl⟩

/-! Any token. -/

theorem beginsPlain_eq (alike : Alike seam base base' seam.Inside a b) (word : a.cursor.peek ≠ '\n') :
    b.beginsPlain = a.beginsPlain := by
  unfold beginsPlain
  rw [alike.cursor.peek, alike.cursor.peekAt_one word, alike.inFlow]

/-- The same choice in both, with what is known of the result. -/
theorem matches_ite {related : Layout → Layout → Prop} {result : Layout → Prop} {p q : Prop} [Decidable p] [Decidable q]
    {first second first' second' : Except Fault Layout} (same : q ↔ p)
    (known : ∀ later, (if p then first else second) = .ok later → result later)
    (yes : p → (∀ later, first = .ok later → result later) → Matches seam related first first')
    (no : ¬p → (∀ later, second = .ok later → result later) → Matches seam related second second') :
    Matches seam related (if p then first else second) (if q then first' else second') := by
  by_cases holds : p
  · rw [if_pos holds] at known ⊢
    rw [if_pos (same.mpr holds)]
    exact yes holds known
  · rw [if_neg holds] at known ⊢
    rw [if_neg (mt same.mp holds)]
    exact no holds known

theorem token_matches (alike : Alike seam base base' seam.Inside a b) (word : a.cursor.peek ≠ '\n')
    (halts : ∀ later, a.token = .ok later → later.cursor.rest = [] → Halts seam later) :
    Matches seam (Follows seam base base' a.cursor.rest.length) a.token b.token := by
  have inside := alike.cursor
  have peek := inside.peek
  have second := inside.peekAt_one word
  have column := inside.column
  have inFlow := alike.inFlow
  unfold token at halts ⊢
  dsimp only at halts ⊢
  refine matches_ite (by rw [peek]) halts (fun _ _ => streamEnd_matches alike) fun more halts => ?_
  have some : a.cursor.peek ≠ '\x00' := by simpa [atEnd] using more
  refine matches_ite (by rw [peek, column]) halts (fun _ _ => directive_matches alike some word) fun _ halts => ?_
  refine matches_ite (by rw [column, inside.isMark (by decide)]) halts (fun marked _ => ?_) fun _ halts => ?_
  · exact documentMark_matches alike (Bool.and_eq_true_iff.mp marked).2 (by decide) (by decide) _
  refine matches_ite (by rw [column, inside.isMark (by decide)]) halts (fun marked _ => ?_) fun _ halts => ?_
  · exact documentMark_matches alike (Bool.and_eq_true_iff.mp marked).2 (by decide) (by decide) _
  refine matches_ite (by rw [peek]) halts (fun _ _ => flowStart_matches alike some word _) fun _ halts => ?_
  refine matches_ite (by rw [peek]) halts (fun _ _ => flowStart_matches alike some word _) fun _ halts => ?_
  refine matches_ite (by rw [peek]) halts (fun _ _ => flowEnd_matches alike some word _) fun _ halts => ?_
  refine matches_ite (by rw [peek]) halts (fun _ _ => flowEnd_matches alike some word _) fun _ halts => ?_
  refine matches_ite (by rw [peek]) halts (fun _ _ => flowEntry_matches alike some word) fun _ halts => ?_
  refine matches_ite (by rw [peek, second]) halts (fun _ _ => blockEntry_matches alike some word) fun _ halts => ?_
  refine matches_ite (by rw [peek, second, inFlow]) halts (fun _ _ => key_matches alike some word) fun _ halts => ?_
  refine matches_ite (by rw [peek, second, inFlow]) halts (fun _ _ => value_matches alike some word) fun _ halts => ?_
  refine matches_ite (by rw [peek]) halts (fun _ _ => ?_) fun _ halts => ?_
  · exact property_matches alike some (aliasToken_agrees inside word)
  refine matches_ite (by rw [peek]) halts (fun _ _ => ?_) fun _ halts => ?_
  · exact property_matches alike some (anchorToken_agrees inside word)
  refine matches_ite (by rw [peek]) halts (fun mark _ => ?_) fun _ halts => ?_
  · exact property_matches alike some (Property.tag_agrees inside mark)
  refine matches_ite (by rw [peek, inFlow]) halts (fun _ halts => blockScalar_matches alike some word halts)
    fun _ halts => ?_
  refine matches_ite (by rw [peek, inFlow]) halts (fun _ halts => blockScalar_matches alike some word halts)
    fun _ halts => ?_
  refine matches_ite (by rw [peek]) halts (fun quote _ => ?_) fun _ halts => ?_
  · exact property_matches alike some (quotedToken_agrees false inside quote)
  refine matches_ite (by rw [peek]) halts (fun quote _ => ?_) fun _ halts => ?_
  · exact property_matches alike some (quotedToken_agrees true inside quote)
  refine matches_ite (by rw [beginsPlain_eq alike word]) halts (fun begins halts => plain_matches alike begins halts)
    fun _ _ => ?_
  exact .refused _

end CheckCost.Yaml.Layout
