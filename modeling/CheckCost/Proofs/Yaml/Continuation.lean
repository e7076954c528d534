import CheckCost.Proofs.Yaml.Steps

/-!
The tokens of a text that goes on. If a text ends with a line, outside brackets, and more lines follow, the tokens
are those of the text without its end, and then those of the further lines in the collections that are still open.
-/
namespace CheckCost.Yaml

namespace Layout

open Seam

variable {seam : Seam} {base base' : List Token} {place : Cursor → Cursor → Prop} {a b : Layout}

/-- The place of the next token. -/
def settled (layout : Layout) : Layout := toNextToken (layout.cursor.rest.length + 1) layout

theorem next_eq (layout : Layout) :
    layout.next = (do
      let fresh ← layout.settled.dropStaleKeys
      (fresh.closeTo fresh.cursor.column).token) := rfl

theorem next_of_fresh {fresh : Layout} (dropped : a.settled.dropStaleKeys = .ok fresh) :
    a.next = (fresh.closeTo fresh.cursor.column).token := by
  rw [next_eq, dropped]
  simp only [bind, Except.bind]

theorem fresh_of_next {after : Layout} (read : a.next = .ok after) :
    ∃ fresh, a.settled.dropStaleKeys = .ok fresh ∧ (fresh.closeTo fresh.cursor.column).token = .ok after := by
  cases dropped : a.settled.dropStaleKeys with
  | error => simp [next_eq, dropped, bind, Except.bind] at read
  | ok fresh => exact ⟨fresh, rfl, (next_of_fresh dropped).symm.trans read⟩

theorem dropStaleKeys_eq {fresh : Layout} (dropped : a.dropStaleKeys = .ok fresh) :
    fresh = { a with keys := fresh.keys } := by
  unfold dropStaleKeys at dropped
  simp only at dropped
  split at dropped <;> cases dropped
  rfl

theorem closeTo_cursor (column : Nat) (layout : Layout) : (layout.closeTo column).cursor = layout.cursor := by
  unfold closeTo
  split
  · rfl
  · exact closeWhile_cursor _ layout

theorem length_settled_le (layout : Layout) : layout.settled.cursor.rest.length ≤ layout.cursor.rest.length :=
  length_toNextToken_le _ layout

theorem Alike.settled (alike : Alike seam base base' (Between seam) a b) :
    Alike seam base base' seam.Reaches a.settled b.settled :=
  alike.toNextToken (Nat.lt_succ_self _) (Nat.lt_succ_self _)

/-- As long as something of the part is left, the next token is the same. -/
theorem next_matches (alike : Alike seam base base' (Between seam) a b)
    (inside : seam.Inside a.settled.cursor b.settled.cursor)
    (halts : ∀ later, a.next = .ok later → later.cursor.rest = [] → Halts seam later) :
    Matches seam (Follows seam base base' a.cursor.rest.length) a.next b.next := by
  have place : Alike seam base base' seam.Inside a.settled b.settled := alike.settled.stayed inside
  rw [next_eq] at halts ⊢
  rw [next_eq]
  refine (place.dropStaleKeys (.inl inside)).bind fun fresh fresh' dropped later => ?_
  have here : fresh.cursor = a.settled.cursor := by rw [dropStaleKeys_eq dropped]
  have word : (fresh.closeTo fresh.cursor.column).cursor.peek ≠ '\n' := by
    rw [closeTo_cursor, here]
    exact peek_of_toNextToken (Nat.lt_succ_self _)
  rw [later.cursor.column]
  rw [dropped] at halts
  have size : (fresh.closeTo fresh.cursor.column).cursor.rest.length ≤ a.cursor.rest.length := by
    rw [closeTo_cursor, here]
    exact length_settled_le a
  refine (token_matches (later.closeTo fresh.cursor.column) word halts).mono fun after after' follows => ?_
  exact ⟨follows.alike, follows.shorter.imp_left fun less => Nat.lt_of_lt_of_le less size, follows.head⟩

/-! Runs. -/

attribute [local irreducible] next in
theorem run_succ (fuel : Nat) (layout : Layout) :
    run (fuel + 1) layout =
      match layout.next with
      | .error fault => (Token.fault fault :: layout.decided).reverse
      | .ok after => if after.tokens.head? = some .streamEnd then after.tokens.reverse else run fuel after := rfl

theorem run_of_ok {fuel : Nat} {after : Layout} (read : a.next = .ok after) :
    run (fuel + 1) a = if after.tokens.head? = some .streamEnd then after.tokens.reverse else run fuel after := by
  rw [run_succ, read]

theorem run_of_error {fuel : Nat} {fault : Fault} (read : a.next = .error fault) :
    run (fuel + 1) a = (Token.fault fault :: a.decided).reverse := by
  rw [run_succ, read]

/-! The same text after other tokens. -/

theorem foldl_min_alike {keys keys' : List (Nat × PossibleKey)}
    (related : List.Forall₂ (fun entry entry' => entry'.1 = entry.1 ∧ SameKey seam base base' entry.2 entry'.2)
      keys keys') (n n' : Nat) (behind : base.length ≤ n) (same : n' + base.length = n + base'.length) :
    base.length ≤ (keys.map (·.2.place)).foldl min n ∧
      (keys'.map (·.2.place)).foldl min n' + base.length = (keys.map (·.2.place)).foldl min n + base'.length := by
  induction related generalizing n n' with
  | nil => exact ⟨behind, same⟩
  | cons here _ ih =>
    have place := here.2.place
    exact ih _ _ (Nat.le_min.mpr ⟨behind, here.2.behind⟩) (by dsimp only; omega)

/-- Both have decided on the same tokens behind those that came before. -/
theorem Alike.decided (alike : Alike seam base base' place a b) (reaches : seam.Reaches a.cursor b.cursor) :
    ∃ new, a.decided = new ++ base ∧ b.decided = new ++ base' := by
  obtain ⟨new, tokens, tokens'⟩ := alike.tokens
  have count : a.count = new.length + base.length := by rw [alike.count.1, tokens, List.length_append]
  have count' : b.count = new.length + base'.length := by rw [alike.count.2, tokens', List.length_append]
  have pending := forall₂_filter (p := fun entry => !PossibleKey.isStale a.cursor entry.2)
    (q := fun entry => !PossibleKey.isStale b.cursor entry.2)
    (fun entry entry' related => by rw [isStale_eq reaches related.2]) alike.keys
  obtain ⟨behind, same⟩ := foldl_min_alike pending a.count b.count (by omega) (by omega)
  have undecided : b.count - b.horizon = a.count - a.horizon := by
    simp only [horizon]
    omega
  have fits : a.count - a.horizon ≤ new.length := by
    simp only [horizon]
    omega
  refine ⟨new.drop (a.count - a.horizon), ?_, ?_⟩
  · rw [Layout.decided, tokens, List.drop_append_of_le_length fits]
  · rw [Layout.decided, undecided, tokens', List.drop_append_of_le_length fits]

/-- Two runs that give the same tokens after those that came before. -/
def RunsAlike (base base' : List Token) (tokens tokens' : List Token) : Prop :=
  ∃ new, tokens = base.reverse ++ new ∧ tokens' = base'.reverse ++ new

theorem RunsAlike.of_alike (alike : Alike seam base base' place a b) :
    RunsAlike base base' a.tokens.reverse b.tokens.reverse := by
  obtain ⟨new, tokens, tokens'⟩ := alike.tokens
  exact ⟨new.reverse, by rw [tokens, List.reverse_append], by rw [tokens', List.reverse_append]⟩

theorem RunsAlike.run_of_next {fuel fuel' size : Nat} {after after' : Layout}
    (first : a.next = .ok after) (first' : b.next = .ok after') (follows : Follows seam base base' size after after')
    (later : after.tokens.head? ≠ some .streamEnd → RunsAlike base base' (run fuel after) (run fuel' after')) :
    RunsAlike base base' (run (fuel + 1) a) (run (fuel' + 1) b) := by
  rw [run_of_ok first, run_of_ok first', follows.head]
  split
  · exact .of_alike follows.alike
  · next more => exact later more

theorem run_alike {fuel fuel' : Nat} (alike : Alike seam base base' (Between seam) a b) (alone : seam.tail = [])
    (enough : a.cursor.rest.length < fuel) (enough' : b.cursor.rest.length < fuel') :
    RunsAlike base base' (run fuel a) (run fuel' b) := by
  induction fuel generalizing a b fuel' with
  | zero => exact absurd enough (Nat.not_lt_zero _)
  | succ fuel ih =>
    obtain ⟨fuel', rfl⟩ : ∃ k, fuel' = k + 1 := ⟨fuel' - 1, by omega⟩
    have length {c d : Cursor} (between : Between seam c d) : d.rest.length = c.rest.length := by
      rcases between with within | lands
      · rw [within.rest, alone, List.append_nil]
      · exact absurd alone lands.joined
    have inside : seam.Inside a.settled.cursor b.settled.cursor :=
      alike.settled.cursor.resolve_right fun lands => lands.joined alone
    have nexts := next_matches alike inside fun _ _ _ => .inl alone
    generalize first : a.next = next, first' : b.next = next' at nexts
    cases nexts with
    | @error fault _ same =>
      have reaches : seam.Reaches a.cursor b.cursor :=
        alike.cursor.elim (fun within => .inl ⟨within, .inl alone⟩) .inr
      obtain ⟨new, tokens, tokens'⟩ := alike.decided reaches
      refine ⟨new.reverse ++ [.fault fault], ?_, ?_⟩
      · rw [run_of_error first, tokens, List.reverse_cons, List.reverse_append, List.append_assoc]
      · rw [run_of_error (first'.trans (same alone)), tokens', List.reverse_cons, List.reverse_append,
          List.append_assoc]
    | ok follows =>
      refine .run_of_next first first' follows fun more => ih follows.alike ?_ ?_
      · have := follows.shorter.resolve_right more
        omega
      · have := follows.shorter.resolve_right more
        have := length alike.cursor
        have := length follows.alike.cursor
        omega

/-! The end of the part. -/

/-- The layout before the last token, which is the end of the text; none if there is a fault. -/
def final : Nat → Layout → Option Layout
  | 0, _ => none
  | fuel + 1, layout =>
    match layout.next with
    | .error _ => none
    | .ok after => if after.tokens.head? = some .streamEnd then some layout else final fuel after

attribute [local irreducible] next in
theorem final_succ (fuel : Nat) (layout : Layout) :
    final (fuel + 1) layout =
      match layout.next with
      | .error _ => none
      | .ok after => if after.tokens.head? = some .streamEnd then some layout else final fuel after := rfl

theorem final_cases {fuel : Nat} {last : Layout} (found : final (fuel + 1) a = some last) :
    ∃ after, a.next = .ok after ∧
      (after.tokens.head? = some .streamEnd ∧ last = a ∨
        after.tokens.head? ≠ some .streamEnd ∧ final fuel after = some last) := by
  rw [final_succ] at found
  cases first : a.next with
  | error => simp [first] at found
  | ok after =>
    simp only [first] at found
    refine ⟨after, rfl, ?_⟩
    split at found
    · next ended => exact .inl ⟨ended, (Option.some.inj found).symm⟩
    · next more => exact .inr ⟨more, found⟩

/-- The run over a text from its last layout. -/
theorem run_of_final {fuel : Nat} {last : Layout} (found : final fuel a = some last) :
    ∃ ended, last.next = .ok ended ∧ ended.tokens.head? = some .streamEnd ∧ run fuel a = ended.tokens.reverse := by
  induction fuel generalizing a with
  | zero => cases found
  | succ fuel ih =>
    obtain ⟨after, first, ⟨ended, rfl⟩ | ⟨more, later⟩⟩ := final_cases found
    · exact ⟨after, first, ended, by rw [run_of_ok first, if_pos ended]⟩
    · obtain ⟨ended, last, head, tokens⟩ := ih later
      exact ⟨ended, last, head, by rw [run_of_ok first, if_neg more, tokens]⟩

theorem closeWhile_eq (closes : Nat → Bool) (layout : Layout) :
    layout.closeWhile closes =
      { layout with
        tokens := List.replicate (layout.indents.takeWhile closes).length .blockEnd ++ layout.tokens
        count := layout.count + (layout.indents.takeWhile closes).length
        indents := layout.indents.dropWhile closes } := by
  have pushes (closed : List Nat) (layout : Layout) :
      closed.foldl (fun layout _ => layout.push .blockEnd) layout =
        { layout with
          tokens := List.replicate closed.length .blockEnd ++ layout.tokens
          count := layout.count + closed.length } := by
    induction closed generalizing layout with
    | nil => rfl
    | cons _ closed ih =>
      rw [List.foldl_cons, ih, List.length_cons, List.replicate_succ']
      simp only [push, List.append_assoc, List.singleton_append]
      congr 1
      omega
  have rest : layout.indents.drop (layout.indents.takeWhile closes).length = layout.indents.dropWhile closes := by
    have split := List.takeWhile_append_dropWhile (p := closes) (l := layout.indents)
    calc layout.indents.drop _ = (layout.indents.takeWhile closes ++ layout.indents.dropWhile closes).drop _ := by
          rw [split]
      _ = layout.indents.dropWhile closes := List.drop_left
  unfold closeWhile
  simp only [pushes, rest]

theorem toNextToken_eq (fuel : Nat) (layout : Layout) :
    toNextToken fuel layout =
      { layout with
        cursor := (toNextToken fuel layout).cursor
        allowsKey := (toNextToken fuel layout).allowsKey } := by
  induction fuel generalizing layout with
  | zero => rfl
  | succ fuel ih =>
    rw [toNextToken]
    split
    · rw [ih]
    · rfl

theorem settled_eq (layout : Layout) :
    layout.settled = { layout with cursor := layout.settled.cursor, allowsKey := layout.settled.allowsKey } :=
  toNextToken_eq _ layout

theorem token_of_done (done : a.cursor.rest = []) : a.token = a.streamEnd := by
  unfold token
  simp only [Cursor.peek_of_done done]
  exact if_pos rfl

/-- At the end of the text, outside brackets, all collections are closed. -/
theorem next_of_done {after : Layout} (done : a.settled.cursor.rest = []) (read : a.next = .ok after) :
    after.tokens.head? = some .streamEnd ∧
      (a.depth = 0 → after.tokens = .streamEnd :: (List.replicate a.indents.length .blockEnd ++ a.tokens)) := by
  obtain ⟨fresh, dropped, read⟩ := fresh_of_next read
  have same := dropStaleKeys_eq dropped
  have ended : (fresh.closeTo fresh.cursor.column).cursor.rest = [] := by
    rw [closeTo_cursor, same]
    exact done
  rw [token_of_done ended, streamEnd] at read
  cases cleared : (fresh.closeTo fresh.cursor.column).closeAll.dropKey with
  | error => simp [cleared, bind, Except.bind] at read
  | ok last =>
    simp only [cleared, bind, Except.bind, pure, Except.pure, Except.ok.injEq] at read
    subst read
    refine ⟨rfl, fun outside => ?_⟩
    have depth : fresh.depth = 0 := by
      rw [same, settled_eq]
      exact outside
    have tokens : fresh.tokens = a.tokens ∧ fresh.indents = a.indents := by
      rw [same, settled_eq]
      exact ⟨rfl, rfl⟩
    have all (indents : List Nat) : indents.takeWhile (fun _ => true) = indents := by
      induction indents with
      | nil => rfl
      | cons _ _ ih => rw [List.takeWhile_cons_of_pos rfl, ih]
    have split := List.takeWhile_append_dropWhile (p := (fresh.cursor.column < ·)) (l := a.indents)
    have length := congrArg List.length split
    rw [List.length_append, Nat.add_comm] at length
    rw [dropKey_eq cleared]
    simp only [push, closeAll, closeTo, inFlow, depth, bne_self_eq_false, Bool.false_eq_true, if_false,
      closeWhile_eq, tokens.1, tokens.2, all, ← List.append_assoc, List.replicate_append_replicate, length]

theorem length_of_between {c d : Cursor} (between : Between seam c d) :
    d.rest.length ≤ c.rest.length + seam.tail.length ∧
      (c.rest ≠ [] → d.rest.length = c.rest.length + seam.tail.length) := by
  rcases between with within | lands
  · have length : d.rest.length = c.rest.length + seam.tail.length := by rw [within.rest, List.length_append]
    exact ⟨Nat.le_of_eq length, fun _ => length⟩
  · obtain ⟨⟨x, rest, text, tail, -⟩, -⟩ := lands.facts
    refine ⟨?_, fun more => absurd lands.done more⟩
    rw [text, tail, List.length_append, List.length_replicate]
    omega

/-- Both runs come to the end of the part. -/
theorem final_alike {fuel fuel' : Nat} {last : Layout} (alike : Alike seam base base' (Between seam) a b)
    (found : final fuel a = some last) (halts : Halts seam last) (enough : b.cursor.rest.length < fuel') :
    ∃ last' more, run fuel' b = run more last' ∧ last'.cursor.rest.length < more ∧
      Alike seam base base' (Between seam) last last' := by
  induction fuel generalizing a b fuel' with
  | zero => cases found
  | succ fuel ih =>
    obtain ⟨after, first, ⟨ended, rfl⟩ | ⟨more, found⟩⟩ := final_cases found
    · exact ⟨b, fuel', rfl, enough, alike⟩
    · obtain ⟨fuel', rfl⟩ : ∃ k, fuel' = k + 1 := ⟨fuel' - 1, by omega⟩
      have inside : seam.Inside a.settled.cursor b.settled.cursor :=
        alike.settled.cursor.resolve_right fun lands => more (next_of_done lands.done first).1
      have halts' : ∀ later, a.next = .ok later → later.cursor.rest = [] → Halts seam later := by
        intro later read ended
        rw [first, Except.ok.injEq] at read
        subst read
        obtain ⟨fuel, rfl⟩ : ∃ k, fuel = k + 1 := by
          cases fuel with
          | zero => cases found
          | succ k => exact ⟨k, rfl⟩
        obtain ⟨next, read, ⟨-, rfl⟩ | ⟨again, -⟩⟩ := final_cases found
        · exact halts
        · have stays : after.settled.cursor.rest = [] := by rw [settled, toNextToken_of_done ended, ended]
          exact absurd (next_of_done stays read).1 again
      have nexts := next_matches alike inside halts'
      rw [first] at nexts
      generalize first' : b.next = next' at nexts
      cases nexts with
      | @ok _ after' follows =>
        have less := follows.shorter.resolve_right more
        have before := (length_of_between alike.cursor).2 (List.ne_nil_of_length_pos (by omega))
        have later := (length_of_between follows.alike.cursor).1
        rw [run_of_ok first', follows.head, if_neg more]
        exact ih follows.alike found (by omega)

theorem forall₂_filter_nil {R : α → β → Prop} {q : β → Bool} (none : ∀ a b, R a b → q b = false)
    {as : List α} {bs : List β} (related : List.Forall₂ R as bs) : bs.filter q = [] := by
  induction related with
  | nil => rfl
  | @cons a b as bs here _ ih => rw [List.filter_cons, none a b here, if_neg Bool.false_ne_true, ih]

/-- The layout of further lines, with these collections open. -/
def further (indents : List Nat) (cs : List Char) : Layout := ⟨.ofChars cs, [], 0, 0, indents, true, []⟩

end Layout

/-- The tokens of further lines of a text in which collections at these columns are open. -/
def Token.continuing (indents : List Nat) (cs : List Char) : List Token :=
  (Layout.further indents cs).run (cs.length + 1)

namespace Layout

open Seam

variable {seam : Seam} {a b : Layout}

theorem closeTo_of_outside {column : Nat} (outside : a.depth = 0) :
    a.closeTo column =
      { a with
        tokens := List.replicate (a.indents.takeWhile (column < ·)).length .blockEnd ++ a.tokens
        count := a.count + (a.indents.takeWhile (column < ·)).length
        indents := a.indents.dropWhile (column < ·) } := by
  have block : a.inFlow = false := by
    rw [inFlow, outside]
    rfl
  rw [closeTo, block, closeWhile_eq]
  rfl

/-- The first token of further lines, if nothing is to be closed before it. -/
theorem next_further {indents : List Nat} {margin : Nat} {x : Char} (rest : List Char)
    (word : endsWord x = false) (noComment : x ≠ '#') (closed : indents.takeWhile (margin < ·) = []) :
    ∃ e : Cursor, e.rest = x :: rest ∧ e.column = margin ∧
      (further indents (List.replicate margin ' ' ++ x :: rest)).next =
        { further indents (List.replicate margin ' ' ++ x :: rest) with cursor := e }.token := by
  have begins : (Cursor.ofChars (List.replicate margin ' ' ++ x :: rest)).rest = _ := rfl
  obtain ⟨after, column, -, -⟩ := skip_spaces begins
  have space : x ≠ ' ' := by
    rintro rfl
    exact absurd word (by decide)
  have spaces : (List.replicate margin ' ' ++ x :: rest).takeWhile (· = ' ') = List.replicate margin ' ' := by
    rw [List.takeWhile_append_of_pos (by simp [List.mem_replicate]), List.takeWhile_cons_of_neg (by simpa using space),
      List.append_nil]
  generalize List.replicate margin ' ' ++ x :: rest = text at *
  have skipped : (Cursor.ofChars text).skipSpaces = (Cursor.ofChars text).skip margin := by
    simp only [Cursor.skipSpaces, Cursor.skipWhile, Cursor.span, Cursor.ofChars, spaces, List.length_replicate]
  obtain ⟨-, comment, none⟩ := stays_of_word after word noComment
  generalize (Cursor.ofChars text).skip margin = e at *
  have settles : (further indents text).settled = { further indents text with cursor := e } := by
    rw [settled, toNextToken]
    simp only [further, skipped, comment, none]
  have fresh : { further indents text with cursor := e }.dropStaleKeys =
      .ok { further indents text with cursor := e } :=
    rfl
  have opened : indents.dropWhile (margin < ·) = indents := by
    have split := List.takeWhile_append_dropWhile (p := (margin < ·)) (l := indents)
    rwa [closed, List.nil_append] at split
  have there : e.column = margin := column.trans (Nat.zero_add _)
  have still : { further indents text with cursor := e }.closeTo e.column =
      { further indents text with cursor := e } := by
    rw [closeTo_of_outside rfl]
    simp only [further, there, closed, opened, List.length_nil, List.replicate_zero, List.nil_append, Nat.add_zero]
  refine ⟨e, after, there, ?_⟩
  rw [next_eq, settles, fresh]
  exact congrArg token still

theorem dropStaleKeys_of_lands {base base' : List Token} {place : Cursor → Cursor → Prop} {fresh : Layout}
    (alike : Alike seam base base' place a b) (lands : seam.Lands a.cursor b.cursor)
    (dropped : a.dropStaleKeys = .ok fresh) : b.dropStaleKeys = .ok { b with keys := [] } := by
  have drops := alike.dropStaleKeys (.inr lands)
  rw [dropped] at drops
  have none : b.keys.filter (fun entry => !PossibleKey.isStale b.cursor entry.2) = [] :=
    forall₂_filter_nil (fun _ _ related => by rw [(isStale_of_lands lands related.2).2]; rfl) alike.keys
  cases dropped' : b.dropStaleKeys with
  | error => rw [dropped'] at drops; cases drops
  | ok fresh' =>
    unfold dropStaleKeys at dropped'
    simp only [none] at dropped'
    split at dropped' <;> cases dropped'
    rfl

/-- The same place after other tokens. -/
theorem alike_further (indents : List Nat) (text : List Char) {e : Cursor} (rest : b.cursor.rest = e.rest)
    (column : b.cursor.column = e.column) (count : b.count = b.tokens.length) (depth : b.depth = 0)
    (same : b.indents = indents) (allows : b.allowsKey = true) (keys : b.keys = []) :
    ∃ seam : Seam, seam.tail = [] ∧
      Alike seam [] b.tokens seam.Inside { further indents text with cursor := e } b := by
  refine ⟨⟨e.skip e.rest.length, [], 0, b.cursor.index - e.index, b.cursor.line - e.line, absurd rfl⟩, rfl, ?_⟩
  refine ⟨⟨⟨?_, column, ?_, ?_, rfl, .inl rfl⟩, .inl rfl⟩, ⟨[], rfl, rfl⟩, ⟨rfl, count⟩, depth, same, allows, ?_⟩
  · rw [rest, List.append_nil]
  · simp only
    omega
  · simp only
    omega
  · rw [keys]
    exact .nil

theorem takeWhile_dropWhile (p : Nat → Bool) (columns : List Nat) : (columns.dropWhile p).takeWhile p = [] := by
  induction columns with
  | nil => rfl
  | cons column columns ih =>
    rw [List.dropWhile_cons]
    split
    · exact ih
    · next keeps => exact List.takeWhile_cons_of_neg keeps

/-- A run that goes on from where further lines begin gives their tokens. -/
theorem continuing_alike {base' : List Token} {indents : List Nat} {text : List Char} {e : Cursor} {more : Nat}
    {next : Layout} (begins : Alike seam [] base' seam.Inside { further indents text with cursor := e } b)
    (alone : seam.tail = []) (word : e.peek ≠ '\n') (fits : e.rest.length ≤ text.length)
    (first : (further indents text).next = { further indents text with cursor := e }.token)
    (first' : next.next = b.token) (enough : b.cursor.rest.length ≤ more)
    (sound : ∀ fault, (Token.continuing indents text).head? ≠ some (.fault fault)) :
    RunsAlike [] base' (Token.continuing indents text) (run (more + 1) next) := by
  have length : b.cursor.rest.length = e.rest.length := by rw [begins.cursor.rest, alone, List.append_nil]
  have firsts := token_matches begins word fun _ _ _ => .inl alone
  rw [← first, ← first'] at firsts
  generalize read : (further indents text).next = result, read' : next.next = result' at firsts
  cases firsts with
  | @error fault =>
    refine absurd ?_ (sound fault)
    rw [Token.continuing, run_of_error read]
    rfl
  | ok follows =>
    refine .run_of_next read read' follows fun goesOn => ?_
    have less : _ < e.rest.length := follows.shorter.resolve_right goesOn
    have fewer := (length_of_between follows.alike.cursor).1
    rw [alone, List.length_nil] at fewer
    exact run_alike follows.alike alone (by omega) (by omega)

/-- After the part the whole goes on like its further lines on their own. -/
theorem run_of_lands {last last' ended : Layout} {more : Nat} (alike : Alike seam [] [] (Between seam) last last')
    (joined : seam.tail ≠ []) (done : last.settled.cursor.rest = []) (outside : last.depth = 0)
    (allows : last.settled.allowsKey = true) (read : last.next = .ok ended) (enough : last'.cursor.rest.length < more)
    (sound : ∀ fault, (Token.continuing (last.indents.dropWhile (seam.margin < ·)) seam.tail).head? ≠
      some (.fault fault)) :
    run more last' =
      last.tokens.reverse ++ List.replicate (last.indents.takeWhile (seam.margin < ·)).length .blockEnd ++
        Token.continuing (last.indents.dropWhile (seam.margin < ·)) seam.tail := by
  obtain ⟨more, rfl⟩ : ∃ k, more = k + 1 := ⟨more - 1, by omega⟩
  have reached := alike.settled
  have lands : seam.Lands last.settled.cursor last'.settled.cursor :=
    reached.cursor.resolve_left fun inside => inside.more.elim joined fun more => more done
  obtain ⟨⟨x, rest, text, tail, word, noComment⟩, column, -⟩ := lands.facts
  obtain ⟨e, ahead, there, first⟩ :=
    next_further rest word noComment (takeWhile_dropWhile (seam.margin < ·) last.indents)
  rw [← tail] at first
  -- nothing is left of the keys of the part, and what the line does not belong to is closed
  obtain ⟨fresh, dropped, -⟩ := fresh_of_next read
  have next := next_of_fresh (dropStaleKeys_of_lands reached lands dropped)
  obtain ⟨there', line⟩ : ∃ layout : Layout, layout = { last'.settled with keys := [] } := ⟨_, rfl⟩
  rw [← line] at next
  obtain ⟨new, tokens, tokens'⟩ := alike.tokens
  rw [List.append_nil] at tokens tokens'
  have settles := settled_eq last'
  have same : there'.tokens = last.tokens ∧ there'.count = last.tokens.length ∧ there'.indents = last.indents ∧
      there'.depth = 0 := by
    rw [line, settles, tokens, ← tokens']
    exact ⟨rfl, alike.count.2, alike.indents, alike.depth.trans outside⟩
  have place : there'.cursor = last'.settled.cursor := by rw [line]
  have allows' : there'.allowsKey = true := by
    rw [line]
    exact reached.allowsKey.trans allows
  have keys : there'.keys = [] := by rw [line]
  rw [place, column, closeTo_of_outside same.2.2.2] at next
  obtain ⟨seam', alone, begins⟩ := alike_further (last.indents.dropWhile (seam.margin < ·)) seam.tail (e := e)
    (b := { there' with
      tokens := List.replicate (there'.indents.takeWhile (seam.margin < ·)).length .blockEnd ++ there'.tokens
      count := there'.count + (there'.indents.takeWhile (seam.margin < ·)).length
      indents := there'.indents.dropWhile (seam.margin < ·) })
    (by rw [ahead, ← text, ← place]) (by rw [there, ← column, ← place])
    (by simp only [same.1, same.2.1, List.length_append, List.length_replicate, Nat.add_comm])
    same.2.2.2 (by simp only [same.2.2.1]) allows' keys
  simp only [same.1, same.2.2.1] at begins next
  have noBreak : e.peek ≠ '\n' := by
    rw [Cursor.peek_cons ahead]
    rintro rfl
    exact absurd word (by decide)
  have left : there'.cursor.rest.length ≤ more := by
    rw [place]
    exact Nat.le_trans (length_settled_le last') (Nat.le_of_lt_succ enough)
  have fits : e.rest.length ≤ seam.tail.length := by
    rw [ahead, tail, List.length_append]
    exact Nat.le_add_left ..
  obtain ⟨rest, further, whole⟩ := continuing_alike begins alone noBreak fits first next left sound
  rw [whole, further, List.reverse_append, List.reverse_replicate, List.reverse_nil, List.nil_append]

/-! Texts. -/

/-- The layout of a text before its first token. A byte order mark at its start is no part of it. -/
def opening (cs : List Char) : Layout :=
  { start cs with cursor := if (Cursor.ofChars cs).peek = '\ufeff' then (Cursor.ofChars cs).step else .ofChars cs }

/-- A scalar that comes to the end of the text has to belong to a collection that the next line is not part of. -/
def halts (margin : Nat) (layout : Layout) : Bool :=
  match layout.tokens with
  | .scalar .. :: _ => margin < layout.minimum
  | _ => true

end Layout

/-- The tokens of a text that further lines go on with from this column, without its end, and the columns of the
collections that are open there; none if they are not lines of their own. -/
def Token.pause? (margin : Nat) (cs : List Char) : Option (List Token × List Nat) := do
  let layout := Layout.opening cs
  let last ← layout.final (cs.length + 1)
  if (layout.cursor.rest.isEmpty || cs.getLast? = some '\n') && last.settled.cursor.rest.isEmpty && last.depth = 0 &&
      last.settled.allowsKey && last.halts margin then
    some (last.tokens.reverse ++ List.replicate (last.indents.takeWhile (margin < ·)).length .blockEnd,
      last.indents.dropWhile (margin < ·))
  else none

namespace Layout

open Seam

theorem ofChars_eq {cs : List Char} (good : cs.find? (!isDocumentChar ·) = none) :
    Token.ofChars cs = (opening cs).run (cs.length + 1) := by
  unfold Token.ofChars
  rw [good]
  rfl

theorem column_of_last {c : Cursor} {n : Nat} (last : c.rest.getLast? = some '\n') (whole : n = c.rest.length) :
    (c.skip n).column = 0 := by
  obtain ⟨before, text⟩ := List.getLast?_eq_some_iff.mp last
  clear last
  subst whole
  induction before generalizing c with
  | nil =>
    rw [text]
    simp [Cursor.skip, Cursor.step, text, isBreak]
  | cons x r ih =>
    have rest : c.step.rest = r ++ ['\n'] := by rw [Cursor.rest_step, text]; rfl
    have next := ih rest
    rw [rest] at next
    rw [text, List.cons_append, List.length_cons, Cursor.skip]
    exact next

/-- What a text that can be gone on with has to be. -/
structure Pauses (margin : Nat) (cs : List Char) (last : Layout) : Prop where
  found : (opening cs).final (cs.length + 1) = some last
  closed : (opening cs).cursor.rest = [] ∨ cs.getLast? = some '\n'
  done : last.settled.cursor.rest = []
  outside : last.depth = 0
  allows : last.settled.allowsKey = true
  halts : last.halts margin = true

theorem pauses_of_pause? {margin : Nat} {cs : List Char} {tokens : List Token} {columns : List Nat}
    (paused : Token.pause? margin cs = some (tokens, columns)) :
    ∃ last, Pauses margin cs last ∧ columns = last.indents.dropWhile (margin < ·) ∧
      tokens = last.tokens.reverse ++ List.replicate (last.indents.takeWhile (margin < ·)).length .blockEnd := by
  unfold Token.pause? at paused
  cases found : (opening cs).final (cs.length + 1) with
  | none => simp [found] at paused
  | some last =>
    simp only [found, Option.bind_eq_bind, Option.bind_some] at paused
    split at paused
    · next holds =>
      simp only [Bool.and_eq_true, Bool.or_eq_true, List.isEmpty_iff, decide_eq_true_eq] at holds
      obtain ⟨⟨⟨⟨closed, done⟩, outside⟩, allows⟩, halts⟩ := holds
      cases paused
      exact ⟨last, ⟨found, closed, done, outside, allows, halts⟩, rfl, rfl⟩
    · cases paused

theorem ofChars_of_pause {margin : Nat} {cs : List Char} {tokens : List Token} {columns : List Nat}
    (paused : Token.pause? margin cs = some (tokens, columns)) (good : cs.find? (!isDocumentChar ·) = none) :
    Token.ofChars cs = tokens ++ List.replicate columns.length .blockEnd ++ [.streamEnd] := by
  obtain ⟨last, pauses, rfl, rfl⟩ := pauses_of_pause? paused
  obtain ⟨ended, read, -, run⟩ := run_of_final pauses.found
  have split := congrArg List.length (List.takeWhile_append_dropWhile (p := (margin < ·)) (l := last.indents))
  rw [List.length_append] at split
  rw [ofChars_eq good, run, (next_of_done pauses.done read).2 pauses.outside, List.reverse_cons, List.reverse_append,
    List.reverse_replicate, ← split, ← List.replicate_append_replicate]
  simp only [List.append_assoc]

theorem opening_cursor (cs : List Char) :
    (∃ rest, cs = '\ufeff' :: rest ∧ (opening cs).cursor = ⟨rest, 1, 0, 0⟩) ∨
      cs.head? ≠ some '\ufeff' ∧ (opening cs).cursor = .ofChars cs := by
  unfold opening
  cases cs with
  | nil => exact .inr ⟨by simp, rfl⟩
  | cons x rest =>
    by_cases mark : x = '\ufeff'
    · subst mark
      exact .inl ⟨rest, rfl, rfl⟩
    · refine .inr ⟨by simpa using mark, ?_⟩
      have other : (Cursor.ofChars (x :: rest)).peek ≠ '\ufeff' := mark
      simp only [if_neg other]

/-- The first place of a text is that of the same text with more lines. -/
theorem opening_alike {margin : Nat} {cs tail : List Char} (goes : GoesOn margin tail)
    (fresh : cs = [] → tail.head? ≠ some '\ufeff')
    (closed : (opening cs).cursor.rest = [] ∨ cs.getLast? = some '\n') :
    ∃ seam : Seam, seam.tail = tail ∧ seam.margin = margin ∧
      Alike seam [] [] (Between seam) (opening cs) (opening (cs ++ tail)) := by
  have last : (opening cs).cursor.rest = [] ∨ (opening cs).cursor.rest.getLast? = some '\n' := by
    refine closed.elim .inl fun closed => ?_
    rcases opening_cursor cs with ⟨rest, rfl, place⟩ | ⟨-, place⟩
    · rw [place]
      cases rest with
      | nil => exact .inl rfl
      | cons => exact .inr (by rwa [List.getLast?_cons_cons] at closed)
    · rw [place]
      exact .inr closed
  have column : ((opening cs).cursor.skip (opening cs).cursor.rest.length).column = 0 := by
    rcases last with done | last
    · rw [done]
      rcases opening_cursor cs with ⟨_, -, place⟩ | ⟨-, place⟩ <;>
        (rw [place]; rfl)
    · exact column_of_last last rfl
  refine ⟨⟨(opening cs).cursor.skip (opening cs).cursor.rest.length, tail, margin, 0, 0, fun _ => ⟨column, goes⟩⟩,
    rfl, rfl, ⟨.inl ?_, ⟨[], rfl, rfl⟩, ⟨rfl, rfl⟩, rfl, rfl, rfl, .nil⟩⟩
  have whole : (opening (cs ++ tail)).cursor =
      { (opening cs).cursor with rest := (opening cs).cursor.rest ++ tail } := by
    rcases opening_cursor cs with ⟨rest, rfl, place⟩ | ⟨other, place⟩
    · rw [place]
      rfl
    · rw [place]
      rcases opening_cursor (cs ++ tail) with ⟨rest, marked, -⟩ | ⟨-, place'⟩
      · have head : (cs ++ tail).head? = some '\ufeff' := by rw [marked]; rfl
        cases cs with
        | nil => exact absurd head (fresh rfl)
        | cons => exact absurd head other
      · rw [place']
        rfl
  rw [whole]
  exact ⟨rfl, rfl, (Int.add_zero _).symm, (Int.add_zero _).symm, rfl, .inr last⟩

/-- The tokens of a text with further lines. -/
theorem ofChars_append {margin : Nat} {cs tail : List Char} {tokens : List Token} {columns : List Nat}
    (paused : Token.pause? margin cs = some (tokens, columns)) (goes : GoesOn margin tail)
    (fresh : cs = [] → tail.head? ≠ some '\ufeff') (good : (cs ++ tail).find? (!isDocumentChar ·) = none)
    (sound : ∀ fault, (Token.continuing columns tail).head? ≠ some (.fault fault)) :
    Token.ofChars (cs ++ tail) = tokens ++ Token.continuing columns tail := by
  obtain ⟨last, pauses, rfl, rfl⟩ := pauses_of_pause? paused
  obtain ⟨ended, read, -, -⟩ := run_of_final pauses.found
  obtain ⟨seam, rfl, rfl, alike⟩ := opening_alike goes fresh pauses.closed
  have joined : seam.tail ≠ [] := by
    obtain ⟨x, rest, text, -⟩ := goes.word
    rw [text]
    simp
  have halts : Halts seam last := by
    have halts := pauses.halts
    unfold Layout.halts at halts
    split at halts
    · exact .inr (.inl ⟨pauses.outside, of_decide_eq_true halts⟩)
    · next other =>
      refine .inr (.inr fun text plain head => ?_)
      obtain ⟨tokens, some⟩ := List.head?_eq_some_iff.mp head
      exact other _ _ _ some
  have enough : (opening (cs ++ seam.tail)).cursor.rest.length < (cs ++ seam.tail).length + 1 := by
    rcases opening_cursor (cs ++ seam.tail) with ⟨rest, text, place⟩ | ⟨-, place⟩ <;> rw [place]
    · rw [text]
      exact Nat.lt_succ_of_lt (Nat.lt_succ_self _)
    · exact Nat.lt_succ_self _
  obtain ⟨last', more, run, left, later⟩ := final_alike alike pauses.found halts enough
  rw [ofChars_eq good, run]
  exact run_of_lands later joined pauses.done pauses.outside pauses.allows read left sound

end Layout

end CheckCost.Yaml
