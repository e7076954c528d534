import CheckCost.Proofs.Yaml.Properties
import CheckCost.Yaml.Layout
import Mathlib.Data.List.Forall2

/-!
Layout in a part of a text and in the whole. Both take the same steps as long as something of the part is left: the
same collections open and close and the same tokens are put in, behind whatever tokens came before.
-/
namespace CheckCost.Yaml

namespace Seam

/-- Two readings that come to related results, or both to the same fault. What fails in the part need not fail in the
whole if that goes on. -/
inductive Matches (seam : Seam) (related : α → β → Prop) : Except Fault α → Except Fault β → Prop where
  | ok {a : α} {b : β} (holds : related a b) : Matches seam related (.ok a) (.ok b)
  | error {fault : Fault} {other : Except Fault β} (same : seam.tail = [] → other = .error fault) :
      Matches seam related (.error fault) other

variable {seam : Seam} {related : α → β → Prop} {later : α' → β' → Prop}

theorem Matches.refused (fault : Fault) : Matches seam related (.error fault) (.error fault) := .error fun _ => rfl

theorem Matches.bind {first : Except Fault α} {first' : Except Fault β} {next : α → Except Fault α'}
    {next' : β → Except Fault β'} (agrees : Matches seam related first first')
    (then_ : ∀ a b, first = .ok a → related a b → Matches seam later (next a) (next' b)) :
    Matches seam later (first >>= next) (first' >>= next') := by
  cases agrees with
  | ok holds => exact then_ _ _ rfl holds
  | error same =>
    refine .error fun alone => ?_
    rw [same alone]
    rfl

theorem Matches.mono {later : α → β → Prop} {first : Except Fault α} {first' : Except Fault β}
    (agrees : Matches seam related first first') (weaker : ∀ a b, related a b → later a b) :
    Matches seam later first first' := by
  cases agrees with
  | ok holds => exact .ok (weaker _ _ holds)
  | error same => exact .error same

theorem Agrees.matches {place : Cursor → Cursor → Prop} {size : Nat} {first first' : Except Fault (α × Cursor)}
    (agrees : Agrees seam place size first first') :
    Matches seam (fun found found' => found'.1 = found.1 ∧ place found.2 found'.2 ∧ found.2.rest.length ≤ size)
      first first' := by
  cases agrees with
  | ok reached shorter => exact .ok ⟨rfl, reached, shorter⟩
  | error same => exact .error same

/-! Lines. -/

theorem line_le_step (c : Cursor) : c.line ≤ c.step.line := by
  unfold Cursor.step
  split
  · exact Nat.le_refl _
  · split
    · exact Nat.le_succ _
    · exact Nat.le_refl _

theorem line_lt_skip {n : Nat} {c : Cursor} {before : List Char} (text : c.rest = before ++ ['\n'])
    (whole : n = c.rest.length) : c.line < (c.skip n).line := by
  subst whole
  induction before generalizing c with
  | nil =>
    rw [text]
    simp [Cursor.skip, Cursor.step, text, isBreak]
  | cons x r ih =>
    have rest : c.step.rest = r ++ ['\n'] := by rw [Cursor.rest_step, text]; rfl
    have next := ih rest
    rw [rest] at next
    rw [text, List.cons_append, List.length_cons, Cursor.skip]
    exact Nat.lt_of_le_of_lt (line_le_step c) next

theorem Inside.line_lt {c d : Cursor} (inside : seam.Inside c d) (joined : seam.tail ≠ []) :
    c.line < seam.goal.line := by
  obtain ⟨before, text⟩ := List.getLast?_eq_some_iff.mp (inside.last joined)
  rw [← inside.goal]
  exact line_lt_skip text rfl

end Seam

namespace Layout

open Seam

/-- A possible key of the part and the same one of the whole, which has other tokens before the part. -/
structure SameKey (seam : Seam) (base base' : List Token) (key key' : PossibleKey) : Prop where
  behind : base.length ≤ key.place
  place : key'.place + base.length = key.place + base'.length
  required : key'.required = key.required
  index : (key'.index : Int) = key.index + seam.index
  line : (key'.line : Int) = key.line + seam.line
  column : key'.column = key.column
  above : seam.tail = [] ∨ key.line < seam.goal.line

/-- A layout of the part and one of the whole. -/
structure Alike (seam : Seam) (base base' : List Token) (place : Cursor → Cursor → Prop) (a b : Layout) : Prop where
  cursor : place a.cursor b.cursor
  tokens : ∃ new, a.tokens = new ++ base ∧ b.tokens = new ++ base'
  count : a.count = a.tokens.length ∧ b.count = b.tokens.length
  depth : b.depth = a.depth
  indents : b.indents = a.indents
  allowsKey : b.allowsKey = a.allowsKey
  keys : List.Forall₂ (fun entry entry' => entry'.1 = entry.1 ∧ SameKey seam base base' entry.2 entry'.2)
    a.keys b.keys

variable {seam : Seam} {base base' : List Token} {place : Cursor → Cursor → Prop} {a b : Layout}

theorem forall₂_filter {R : α → β → Prop} {p : α → Bool} {q : β → Bool} (same : ∀ a b, R a b → q b = p a)
    {as : List α} {bs : List β} (related : List.Forall₂ R as bs) :
    List.Forall₂ R (as.filter p) (bs.filter q) := by
  induction related with
  | nil => exact .nil
  | @cons a b as bs here _ ih =>
    rw [List.filter_cons, List.filter_cons, same a b here]
    split
    · exact .cons here ih
    · exact ih

theorem forall₂_any {R : α → β → Prop} {p : α → Bool} {q : β → Bool} (same : ∀ a b, R a b → q b = p a)
    {as : List α} {bs : List β} (related : List.Forall₂ R as bs) : bs.any q = as.any p := by
  induction related with
  | nil => rfl
  | @cons a b as bs here _ ih => rw [List.any_cons, List.any_cons, same a b here, ih]

theorem forall₂_lookup {R : α → β → Prop} {as : List (Nat × α)} {bs : List (Nat × β)}
    (related : List.Forall₂ (fun a b => b.1 = a.1 ∧ R a.2 b.2) as bs) (depth : Nat) :
    as.lookup depth = none ∧ bs.lookup depth = none ∨
      ∃ a b, as.lookup depth = some a ∧ bs.lookup depth = some b ∧ R a b := by
  induction related with
  | nil => exact .inl ⟨rfl, rfl⟩
  | @cons a b as bs here _ ih =>
    rw [List.lookup_cons, List.lookup_cons, here.1]
    cases depth == a.1 with
    | true => exact .inr ⟨a.2, b.2, rfl, rfl, here.2⟩
    | false => exact ih

/-! Small steps. -/

namespace Alike

theorem moved {later : Cursor → Cursor → Prop} (alike : Alike seam base base' place a b) {c d : Cursor}
    (reached : later c d) : Alike seam base base' later { a with cursor := c } { b with cursor := d } :=
  ⟨reached, alike.tokens, alike.count, alike.depth, alike.indents, alike.allowsKey, alike.keys⟩

theorem stayed {later : Cursor → Cursor → Prop} (alike : Alike seam base base' place a b)
    (reached : later a.cursor b.cursor) : Alike seam base base' later a b :=
  ⟨reached, alike.tokens, alike.count, alike.depth, alike.indents, alike.allowsKey, alike.keys⟩

theorem mono {later : Cursor → Cursor → Prop} (alike : Alike seam base base' place a b)
    (weaker : ∀ c d, place c d → later c d) : Alike seam base base' later a b :=
  alike.stayed (weaker _ _ alike.cursor)

theorem allowKey (alike : Alike seam base base' place a b) (allowsKey : Bool) :
    Alike seam base base' place (a.allowKey allowsKey) (b.allowKey allowsKey) :=
  ⟨alike.cursor, alike.tokens, alike.count, alike.depth, alike.indents, rfl, alike.keys⟩

theorem push (alike : Alike seam base base' place a b) (token : Token) :
    Alike seam base base' place (a.push token) (b.push token) := by
  obtain ⟨new, tokens, tokens'⟩ := alike.tokens
  refine ⟨alike.cursor, ⟨token :: new, ?_, ?_⟩, ⟨?_, ?_⟩, alike.depth, alike.indents, alike.allowsKey, alike.keys⟩
  · rw [Layout.push, tokens, List.cons_append]
  · rw [Layout.push, tokens', List.cons_append]
  · simp only [Layout.push, alike.count.1, List.length_cons]
  · simp only [Layout.push, alike.count.2, List.length_cons]

theorem inFlow (alike : Alike seam base base' place a b) : b.inFlow = a.inFlow := by
  unfold Layout.inFlow
  rw [alike.depth]

theorem minimum (alike : Alike seam base base' place a b) : b.minimum = a.minimum := by
  unfold Layout.minimum
  rw [alike.indents]

theorem opensAt (alike : Alike seam base base' place a b) (column : Nat) : b.opensAt column = a.opensAt column := by
  unfold Layout.opensAt
  rw [alike.inFlow, alike.minimum]

theorem indented (alike : Alike seam base base' place a b) (indents : List Nat) :
    Alike seam base base' place { a with indents } { b with indents } :=
  ⟨alike.cursor, alike.tokens, alike.count, alike.depth, rfl, alike.allowsKey, alike.keys⟩

theorem deepened (alike : Alike seam base base' place a b) (change : Nat → Nat) :
    Alike seam base base' place { a with depth := change a.depth } { b with depth := change b.depth } :=
  ⟨alike.cursor, alike.tokens, alike.count, congrArg change alike.depth, alike.indents, alike.allowsKey, alike.keys⟩

theorem closeWhile (alike : Alike seam base base' place a b) (closes : Nat → Bool) :
    Alike seam base base' place (a.closeWhile closes) (b.closeWhile closes) := by
  have pushes (closed : List Nat) {a b : Layout} (alike : Alike seam base base' place a b) :
      Alike seam base base' place (closed.foldl (fun layout _ => layout.push .blockEnd) a)
        (closed.foldl (fun layout _ => layout.push .blockEnd) b) := by
    induction closed generalizing a b with
    | nil => exact alike
    | cons _ closed ih => exact ih (alike.push .blockEnd)
  unfold Layout.closeWhile
  rw [alike.indents]
  exact pushes _ (alike.indented _)

theorem closeTo (alike : Alike seam base base' place a b) (column : Nat) :
    Alike seam base base' place (a.closeTo column) (b.closeTo column) := by
  unfold Layout.closeTo
  rw [alike.inFlow]
  split
  · exact alike
  · exact alike.closeWhile _

theorem closeAll (alike : Alike seam base base' place a b) :
    Alike seam base base' place a.closeAll b.closeAll := by
  unfold Layout.closeAll
  rw [alike.inFlow]
  split
  · exact alike
  · exact alike.closeWhile _

theorem dropKey (alike : Alike seam base base' place a b) :
    Matches seam (Alike seam base base' place) a.dropKey b.dropKey := by
  unfold Layout.dropKey
  rw [alike.depth]
  rcases forall₂_lookup alike.keys a.depth with ⟨none, none'⟩ | ⟨key, key', found, found', same⟩
  · rw [none, none']
    exact .ok alike
  · rw [found, found']
    simp only [same.required]
    split
    · exact .refused _
    · refine .ok ⟨alike.cursor, alike.tokens, alike.count, rfl, alike.indents, alike.allowsKey, ?_⟩
      exact forall₂_filter (fun _ _ related => by rw [related.1]) alike.keys

theorem noteKey (alike : Alike seam base base' seam.Inside a b) :
    Matches seam (Alike seam base base' seam.Inside) a.noteKey b.noteKey := by
  unfold Layout.noteKey
  rw [alike.allowsKey]
  split
  · exact .ok alike
  · refine alike.dropKey.bind fun cleared cleared' _ later => ?_
    refine .ok ⟨later.cursor, later.tokens, later.count, later.depth, later.indents, later.allowsKey, ?_⟩
    obtain ⟨new, tokens, tokens'⟩ := alike.tokens
    refine .cons ⟨alike.depth, ?_⟩ later.keys
    have inside := alike.cursor
    refine ⟨?behind, ?place, ?required, inside.index, inside.line, inside.column, ?above⟩
    case behind =>
      simp only [alike.count.1, tokens, List.length_append]
      omega
    case place =>
      simp only [alike.count.1, alike.count.2, tokens, tokens', List.length_append]
      omega
    case required => simp only [alike.inFlow, alike.indents, inside.column]
    case above =>
      by_cases alone : seam.tail = []
      · exact .inl alone
      · exact .inr (inside.line_lt alone)

theorem openBlock (alike : Alike seam base base' seam.Inside a b) (token : Token) :
    Alike seam base base' seam.Inside (a.openBlock token) (b.openBlock token) := by
  unfold Layout.openBlock
  rw [alike.opensAt, alike.cursor.column]
  split
  · rw [alike.indents]
    exact (alike.indented _).push token
  · exact alike

theorem insertIdx_append {n : Nat} {new : List Token} (within : n ≤ new.length) (token : Token) (base : List Token) :
    (new ++ base).insertIdx n token = new.insertIdx n token ++ base := by
  induction new generalizing n with
  | nil =>
    rw [Nat.le_zero.mp within]
    rfl
  | cons x new ih =>
    cases n with
    | zero => rfl
    | succ n =>
      rw [List.cons_append, List.insertIdx_succ_cons, List.insertIdx_succ_cons, ih (Nat.le_of_succ_le_succ within)]
      rfl

theorem pushAt (alike : Alike seam base base' place a b) {n m : Nat} (behind : base.length ≤ n)
    (same : m + base.length = n + base'.length) (token : Token) :
    Alike seam base base' place (a.pushAt n token) (b.pushAt m token) := by
  obtain ⟨new, tokens, tokens'⟩ := alike.tokens
  have within : a.count - n ≤ new.length := by
    rw [alike.count.1, tokens, List.length_append]
    omega
  have distance : b.count - m = a.count - n := by
    rw [alike.count.1, alike.count.2, tokens, tokens', List.length_append, List.length_append]
    omega
  refine ⟨alike.cursor, ⟨new.insertIdx (a.count - n) token, ?_, ?_⟩, ⟨?_, ?_⟩, alike.depth, alike.indents,
    alike.allowsKey, alike.keys⟩
  · rw [Layout.pushAt, tokens, insertIdx_append within]
  · rw [Layout.pushAt, tokens', distance, insertIdx_append within]
  · simp only [Layout.pushAt]
    rw [List.length_insertIdx_of_le_length (by rw [← alike.count.1]; omega), alike.count.1]
  · simp only [Layout.pushAt]
    rw [List.length_insertIdx_of_le_length (by rw [← alike.count.2]; omega), alike.count.2]

theorem confirmKey (alike : Alike seam base base' place a b) {key key' : PossibleKey}
    (same : SameKey seam base base' key key') :
    Alike seam base base' place (a.confirmKey key) (b.confirmKey key') := by
  have without : Alike seam base base' place { a with keys := a.keys.filter (·.1 != a.depth) }
      { b with keys := b.keys.filter (·.1 != b.depth) } := by
    refine ⟨alike.cursor, alike.tokens, alike.count, alike.depth, alike.indents, alike.allowsKey, ?_⟩
    exact forall₂_filter (fun _ _ related => by rw [related.1, alike.depth]) alike.keys
  have confirmed := without.pushAt same.behind same.place .key
  unfold Layout.confirmKey
  simp only [alike.opensAt, same.column]
  split
  · have opened := (confirmed.indented (key.column :: a.indents)).pushAt same.behind same.place .blockMappingStart
    simpa only [Layout.pushAt, alike.indents] using opened
  · exact confirmed

end Alike

/-! To the next token. -/

/-- Between two tokens, or after the last one of the part. -/
def Between (seam : Seam) (c d : Cursor) : Prop := seam.Within c d ∨ seam.Lands c d

theorem stays_of_word {d : Cursor} {x : Char} {rest : List Char} (text : d.rest = x :: rest)
    (word : endsWord x = false) (noComment : x ≠ '#') :
    d.skipSpaces = d ∧ d.skipComment = d ∧ d.lineBreak? = none := by
  have first := Cursor.peek_cons text
  have space : x ≠ ' ' := by
    rintro rfl
    exact absurd word (by decide)
  refine ⟨?_, ?_, Cursor.lineBreak?_eq_none (by rw [first]; exact isBreak_of_word word)⟩
  · have none : d.rest.takeWhile (· = ' ') = [] := by simp [text, space]
    simp only [Cursor.skipSpaces, Cursor.skipWhile, Cursor.span, none]
    rfl
  · rw [Cursor.skipComment, first, if_neg noComment]

theorem stays_of_done {c : Cursor} (done : c.rest = []) :
    c.skipSpaces = c ∧ c.skipComment = c ∧ c.lineBreak? = none := by
  have first := Cursor.peek_of_done done
  refine ⟨?_, ?_, Cursor.lineBreak?_eq_none (by rw [first]; rfl)⟩
  · rw [Cursor.skipSpaces, Cursor.skipWhile, Seam.span_of_done done]
  · rw [Cursor.skipComment, first, if_neg (by decide)]

theorem toNextToken_of_done {fuel : Nat} (done : a.cursor.rest = []) : toNextToken fuel a = a := by
  cases fuel with
  | zero => rfl
  | succ fuel =>
    obtain ⟨spaces, comment, none⟩ := stays_of_done done
    rw [toNextToken]
    simp only [spaces, comment, none]

theorem peek_of_toNextToken {fuel : Nat} (enough : a.cursor.rest.length < fuel) :
    (toNextToken fuel a).cursor.peek ≠ '\n' := by
  induction fuel generalizing a with
  | zero => exact absurd enough (Nat.not_lt_zero _)
  | succ fuel ih =>
    obtain ⟨spaces, shorter⟩ := (inside_alone a.cursor).skipSpaces
    obtain ⟨comment, fewer⟩ := spaces.skipComment
    rw [toNextToken]
    rcases comment.lineBreak? with ⟨none, -⟩ | ⟨feed, after, -, broken, -, -, less⟩
    · simp only [none]
      intro feed
      simp [Cursor.lineBreak?, feed, isBreak] at none
    · simp only [broken]
      exact ih (by simp only; omega)

theorem length_toNextToken_le (fuel : Nat) (layout : Layout) :
    (toNextToken fuel layout).cursor.rest.length ≤ layout.cursor.rest.length := by
  induction fuel generalizing layout with
  | zero => exact Nat.le_refl _
  | succ fuel ih =>
    obtain ⟨spaces, shorter⟩ := (inside_alone layout.cursor).skipSpaces
    obtain ⟨comment, fewer⟩ := spaces.skipComment
    rw [toNextToken]
    rcases comment.lineBreak? with ⟨none, -⟩ | ⟨feed, after, -, broken, -, -, less⟩
    · simp only [none]
      exact Nat.le_trans fewer shorter
    · simp only [broken]
      exact Nat.le_trans (ih _) (by simp only; omega)

theorem Alike.toNextToken {fuel fuel' : Nat} (alike : Alike seam base base' (Between seam) a b)
    (enough : a.cursor.rest.length < fuel) (enough' : b.cursor.rest.length < fuel') :
    Alike seam base base' seam.Reaches (toNextToken fuel a) (toNextToken fuel' b) := by
  induction fuel generalizing a b fuel' with
  | zero => exact absurd enough (Nat.not_lt_zero _)
  | succ fuel ih =>
    obtain ⟨fuel', rfl⟩ : ∃ k, fuel' = k + 1 := ⟨fuel' - 1, by omega⟩
    have atEnd {d : Cursor} (lands : seam.Lands a.cursor d) (there : b.cursor.skipSpaces = d) :
        Alike seam base base' seam.Reaches (Layout.toNextToken (fuel + 1) a)
          (Layout.toNextToken (fuel' + 1) b) := by
      obtain ⟨⟨x, rest, text, -, word, noComment⟩, -⟩ := lands.facts
      obtain ⟨-, comment, none⟩ := stays_of_word text word noComment
      rw [toNextToken_of_done lands.done, Layout.toNextToken]
      simp only [there, comment, none]
      exact alike.moved (.inr lands)
    rcases alike.cursor with within | lands
    · rcases within.inside_or with inside | ⟨joined, done⟩
      · obtain ⟨spaces, shorter⟩ := inside.skipSpaces
        obtain ⟨comment, fewer⟩ := spaces.skipComment
        rw [Layout.toNextToken, Layout.toNextToken]
        rcases comment.lineBreak? with ⟨none, none'⟩ | ⟨feed, c, d, broken, broken', next, less⟩
        · simp only [none, none']
          exact alike.moved (.inl comment)
        · simp only [broken, broken']
          have longer : d.rest.length < b.cursor.rest.length := by
            rw [next.rest, inside.rest, List.length_append, List.length_append]
            omega
          have moved : Alike seam base base' (Between seam)
              { a with cursor := c, allowsKey := a.allowsKey || !a.inFlow }
              { b with cursor := d, allowsKey := b.allowsKey || !b.inFlow } := by
            rw [alike.allowsKey, alike.inFlow]
            exact (alike.allowKey (a.allowsKey || !a.inFlow)).moved (show Between seam c d from .inl next)
          exact ih moved (by simp only; omega) (show _ < fuel' by simp only; omega)
      · exact atEnd (within.lands done joined) (within.skipSpaces_of_done done joined)
    · obtain ⟨⟨x, rest, text, -, word, noComment⟩, -⟩ := lands.facts
      exact atEnd lands (stays_of_word text word noComment).1

theorem Lands.goal_line {c d : Cursor} (lands : seam.Lands c d) : c.line = seam.goal.line := by
  obtain ⟨-, done, next, within, -⟩ := lands
  have goal := within.goal
  rw [done] at goal
  rw [show c = seam.goal from goal]

/-- A key of the part is of no use on the line after it. -/
theorem isStale_of_lands {c d : Cursor} (lands : seam.Lands c d) {key key' : PossibleKey}
    (same : SameKey seam base base' key key') :
    PossibleKey.isStale c key = true ∧ PossibleKey.isStale d key' = true := by
  have line := same.line
  have below := same.above.resolve_left lands.joined
  have here := Lands.goal_line lands
  have there := lands.facts.2.2
  have stale : (key.line != c.line) = true := bne_iff_ne.mpr (by omega)
  have stale' : (key'.line != d.line) = true := bne_iff_ne.mpr (by omega)
  unfold PossibleKey.isStale
  rw [stale, stale', Bool.true_or, Bool.true_or]
  exact ⟨rfl, rfl⟩

theorem isStale_eq {c d : Cursor} (reaches : seam.Reaches c d) {key key' : PossibleKey}
    (same : SameKey seam base base' key key') : PossibleKey.isStale d key' = PossibleKey.isStale c key := by
  rcases reaches with inside | lands
  · have line := same.line
    have index := same.index
    have hereLine := inside.line
    have hereIndex := inside.index
    have sameLine : (key'.line != d.line) = (key.line != c.line) := by
      rw [Bool.eq_iff_iff, bne_iff_ne, bne_iff_ne]
      omega
    have sameIndex : d.index - key'.index = c.index - key.index := by omega
    unfold PossibleKey.isStale
    rw [sameLine, sameIndex]
  · obtain ⟨stale, stale'⟩ := isStale_of_lands lands same
    rw [stale, stale']

theorem Alike.dropStaleKeys (alike : Alike seam base base' place a b) (reaches : seam.Reaches a.cursor b.cursor) :
    Matches seam (Alike seam base base' place) a.dropStaleKeys b.dropStaleKeys := by
  unfold Layout.dropStaleKeys
  have stale : ∀ entry entry' : Nat × PossibleKey,
      entry'.1 = entry.1 ∧ SameKey seam base base' entry.2 entry'.2 →
        PossibleKey.isStale b.cursor entry'.2 = PossibleKey.isStale a.cursor entry.2 :=
    fun _ _ related => isStale_eq reaches related.2
  have any := forall₂_any (p := fun entry => PossibleKey.isStale a.cursor entry.2 && entry.2.required)
    (q := fun entry => PossibleKey.isStale b.cursor entry.2 && entry.2.required)
    (fun entry entry' related => by rw [stale _ _ related, related.2.required]) alike.keys
  simp only [any]
  split
  · exact .refused _
  · refine .ok ⟨alike.cursor, alike.tokens, alike.count, alike.depth, alike.indents, alike.allowsKey, ?_⟩
    exact forall₂_filter (fun _ _ related => by rw [stale _ _ related]) alike.keys

end Layout

end CheckCost.Yaml
