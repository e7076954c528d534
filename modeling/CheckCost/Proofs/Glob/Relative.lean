import CheckCost.Proofs.Glob.Anchoring
import CheckCost.Proofs.Glob.Matching

/-!
Relative patterns. One without braces matches a path if it matches what is left of the path after some
segments without dots. The prefix that anchors the pattern is two stars in front of its own segments.
-/
namespace CheckCost

namespace Path

theorem segmentsFrom_collected {collected : List Char} (some : collected ≠ []) (cs : List Char) :
    segmentsFrom collected cs =
      (collected.reverse ++ cs.takeWhile (· ≠ '/')) :: segments (cs.dropWhile (· ≠ '/')) := by
  induction cs generalizing collected with
  | nil => simp [segmentsFrom, segments, part, some]
  | cons c rest ih =>
    by_cases slash : c = '/'
    · simp [segmentsFrom, segments, part, some, slash]
    · simp [segmentsFrom, slash, ih]

theorem segments_cons {c : Char} (plain : c ≠ '/') (rest : List Char) :
    segments (c :: rest) = (c :: rest.takeWhile (· ≠ '/')) :: segments (rest.dropWhile (· ≠ '/')) := by
  rw [segments, segmentsFrom, if_neg plain, segmentsFrom_collected (by simp)]
  rfl

end Path

namespace Glob

/-! The slashes at the start of a path. -/

theorem Route.segments_dropSlashes (cs : List Char) :
    (Route.ofChars (cs.dropWhile (· = '/'))).segments = Path.segments cs :=
  Path.segments_dropSlashes cs

/-- A path with a segment ends as it does without the slashes at its start. -/
theorem Route.closed_dropSlashes {cs : List Char} (named : Path.segments cs ≠ []) :
    (Route.ofChars (cs.dropWhile (· = '/'))).closed = decide (cs.getLast? = some '/') := by
  have left : cs.dropWhile (· = '/') ≠ [] := by
    intro none
    rw [← Path.segments_dropSlashes, none] at named
    exact named rfl
  have ends := List.getLast?_append_of_ne_nil (cs.takeWhile (· = '/')) left
  rw [List.takeWhile_append_dropWhile] at ends
  rw [ends]
  rfl

/-! Texts without an opening brace. -/

/-- Outside of braces a character stands for itself, except the one that escapes the next. -/
theorem readBraces_outside {c : Char} {rest : List Char} (text : '\x7b' ∉ c :: rest)
    (bare : c = '\\' → rest = []) (fuel : Nat) (outside : List Piece) :
    readBraces (fuel + 1) ⟨[], outside⟩ (c :: rest) = readBraces fuel ⟨[], .char c :: outside⟩ rest := by
  by_cases closing : c = '\x7d'
  · subst closing
    rfl
  · by_cases comma : c = ','
    · subst comma
      rfl
    · rw [readBraces]
      · rfl
      · intro d more escape eq
        simp [bare escape] at eq
      · intro more _ eq
        simp [eq] at text
      · rintro rfl
        simp at text
      · exact closing
      · exact comma

theorem readBraces_text {fuel : Nat} {cs : List Char} (outside : List Piece) (text : '\x7b' ∉ cs)
    (enough : cs.length ≤ fuel) :
    readBraces fuel ⟨[], outside⟩ cs = ⟨[], (cs.map Piece.char).reverse ++ outside⟩ := by
  -- On the fuel and not on the text, since an escape takes two characters in one step.
  induction fuel generalizing cs outside with
  | zero =>
    have none : cs = [] := List.length_eq_zero_iff.mp (Nat.le_zero.mp enough)
    subst none
    rfl
  | succ fuel ih =>
    cases cs with
    | nil => rfl
    | cons c rest =>
      by_cases bare : c = '\\' → rest = []
      · have shorter : '\x7b' ∉ rest := fun member => text (List.mem_cons_of_mem c member)
        rw [readBraces_outside text bare, ih _ shorter (Nat.le_of_succ_le_succ enough)]
        simp
      · rw [Classical.not_imp] at bare
        obtain ⟨rfl, more⟩ := bare
        obtain ⟨d, rest, rfl⟩ := List.exists_cons_of_ne_nil more
        simp only [List.mem_cons, not_or, List.length_cons] at text enough
        have step : readBraces (fuel + 1) ⟨[], outside⟩ ('\\' :: d :: rest) =
            readBraces fuel ⟨[], .char d :: .char '\\' :: outside⟩ rest := rfl
        rw [step, ih _ text.2.2 (by omega)]
        simp

theorem piecesWithin_text {cs : List Char} (text : '\x7b' ∉ cs) : piecesWithin cs = cs.map Piece.char := by
  rw [piecesWithin, BraceReading.start, readBraces_text [] text (Nat.le_refl _)]
  simp [BraceReading.pieces]

theorem expandSlot_text (cs : List Char) : Piece.expandSlot (cs.map Piece.char) = [cs] := by
  induction cs with
  | nil => rfl
  | cons c rest ih => simp [Piece.expandSlot, Piece.expand, Piece.product, ih]

theorem expansionsWithin_text {cs : List Char} (text : '\x7b' ∉ cs) : expansionsWithin cs = [cs] := by
  rw [expansionsWithin, piecesWithin_text text, expandSlot_text]

theorem withoutHere_suffix (cs : List Char) : withoutHere cs <:+ cs := by
  fun_induction withoutHere cs with
  | case1 rest ih => exact ih.trans ⟨['.', '/'], rfl⟩
  | case2 cs => exact List.suffix_refl cs

theorem expansions_anchor_text {pattern : List Char} (text : '\x7b' ∉ pattern) :
    expansions (anchor pattern) = [anchor pattern] := by
  have rest : '\x7b' ∉ withoutHere pattern := fun member => text ((withoutHere_suffix pattern).subset member)
  rw [expansions_anchor, expansionsWithin_text rest, anchor_eq]
  split <;> rfl

/-- A pattern without braces stands for itself. -/
theorem compile_text {pattern : String} (text : '\x7b' ∉ pattern.toList) :
    compile pattern = .ok ⟨anchor pattern.toList, [Pattern.ofChars (anchor pattern.toList)]⟩ := by
  have rest : '\x7b' ∉ withoutHere pattern.toList :=
    fun member => text ((withoutHere_suffix pattern.toList).subset member)
  rw [compile_ok (by simp [expansionsWithin_text rest, expansionLimit]), expansions_anchor_text text]
  rfl

theorem matchesPath_text {pattern : String} (text : '\x7b' ∉ pattern.toList) (path : String) :
    let glob : Glob := ⟨anchor pattern.toList, [Pattern.ofChars (anchor pattern.toList)]⟩
    matchesPath pattern path =
      .ok ((Pattern.ofChars (anchor pattern.toList)).matchesRoute (Route.ofChars (glob.subject path))) := by
  rw [matchesPath, compile_text text]
  simp [bind, Except.bind, pure, Except.pure, includes]

/-! The prefix of a relative pattern as a segment. -/

theorem segments_anywhere (cs : List Char) :
    Path.segments (anywhere ++ cs) = ['*', '*'] :: Path.segments cs := by
  simp [anywhere, Path.segments, Path.segmentsFrom, Path.part]

theorem getLast?_anywhere {cs : List Char} (filled : cs ≠ []) :
    (anywhere ++ cs).getLast? = cs.getLast? :=
  List.getLast?_append_of_ne_nil _ filled

namespace Pattern

theorem merged_anyDepth {rest : List Segment} (other : rest.head? ≠ some .anyDepth) :
    merged (.anyDepth :: rest) = .anyDepth :: merged rest := by
  rw [merged]
  intro more _ eq
  subst eq
  exact other rfl

theorem ofChars_anywhere (cs : List Char) :
    ofChars (anywhere ++ cs) =
      ⟨false, merged (.anyDepth :: (Path.segments cs).map Segment.ofChars),
        (anywhere ++ cs).getLast? = some '/'⟩ := by
  have stars : Segment.ofChars ['*', '*'] = .anyDepth := rfl
  simp only [ofChars, Route.ofChars, segments_anywhere, List.map_cons, stars]
  rfl

end Pattern

/-- A text that begins neither with a slash nor with two stars begins with a segment that is not two stars. -/
theorem segments_of_free {cs : List Char} (filled : cs ≠ []) (free : ¬ IsAnchored cs) :
    ∃ first rest, Path.segments cs = first :: rest ∧ first ≠ ['*', '*'] := by
  cases cs with
  | nil => exact absurd rfl filled
  | cons c more =>
    have plain : c ≠ '/' := by
      rintro rfl
      exact free (Or.inl ⟨more, rfl⟩)
    refine ⟨_, _, Path.segments_cons plain more, ?_⟩
    intro stars
    simp only [List.cons.injEq] at stars
    obtain ⟨rfl, star⟩ := stars
    have begins : ['*'] <+: more := star ▸ List.takeWhile_prefix _
    exact free (Or.inr (by simpa using begins))

/-- The prefix adds two stars in front of the segments. -/
theorem ofChars_of_free {cs : List Char} (filled : cs ≠ []) (free : ¬ IsAnchored cs) :
    (∃ guarded wild rest, (Pattern.ofChars cs).segments = .named guarded wild :: rest) ∧
    (Pattern.ofChars cs).absolute = false ∧
    Pattern.ofChars (anywhere ++ cs) =
      { Pattern.ofChars cs with segments := .anyDepth :: (Pattern.ofChars cs).segments } := by
  obtain ⟨first, rest, segments, other⟩ := segments_of_free filled free
  obtain ⟨guarded, wild, named⟩ : ∃ guarded wild, Segment.ofChars first = .named guarded wild :=
    ⟨_, _, if_neg other⟩
  have relative : (Pattern.ofChars cs).absolute = false := by
    simp only [Pattern.ofChars, Route.ofChars, decide_eq_false_iff_not]
    intro slash
    obtain ⟨more, rfl⟩ := List.head?_eq_some_iff.mp slash
    exact free (Or.inl ⟨more, rfl⟩)
  refine ⟨?_, relative, ?_⟩
  · refine ⟨guarded, wild, Pattern.merged (rest.map Segment.ofChars), ?_⟩
    simp only [Pattern.ofChars, Route.ofChars, segments, List.map_cons, named, Pattern.merged]
  · rw [Pattern.ofChars_anywhere, getLast?_anywhere filled, Pattern.merged_anyDepth]
    · simp only [Pattern.ofChars] at relative ⊢
      rw [relative]
      rfl
    · rw [segments, List.map_cons, named]
      simp

theorem withoutHere_of_direct {cs : List Char} (direct : ¬ ['.', '/'] <+: cs) : withoutHere cs = cs := by
  unfold withoutHere
  split
  · exact absurd ⟨_, rfl⟩ direct
  · rfl

theorem subject_of_free {glob : Glob} (free : glob.anchored.head? ≠ some '/') (path : String) :
    glob.subject path = path.toList.dropWhile (· = '/') :=
  if_neg free

/-- Two stars in front of a pattern that begins with a segment of its own take what the path begins with. -/
theorem Pattern.matches_anyDepth {pattern : Pattern} {route : Route} (relative : route.absolute = false)
    (own : pattern.absolute = false)
    (named : ∃ guarded wild rest, pattern.segments = .named guarded wild :: rest) :
    { pattern with segments := .anyDepth :: pattern.segments }.Matches route ↔
      ∃ front rest, route.segments = front ++ rest ∧
        (∀ segment ∈ front, Path.isDots segment = false) ∧ rest ≠ [] ∧
          pattern.Matches ⟨false, rest, route.closed⟩ := by
  obtain ⟨guarded, wild, later, begins⟩ := named
  have more : pattern.segments ≠ [] := by simp [begins]
  have own_cut {slash : Prop} {rest : List (List Char)} (cuts : Pattern.Cuts slash pattern.segments rest) :
      rest ≠ [] := by
    rw [begins, Pattern.cuts_named] at cuts
    obtain ⟨segment, back, rfl, _⟩ := cuts
    exact List.cons_ne_nil segment back
  constructor
  · intro matched
    obtain ⟨front, rest, eq, plain, cuts⟩ := (Pattern.cuts_cons _ _ more _).mp matched.cut
    have left := own_cut cuts
    have filled : route.segments ≠ [] := by simp [eq, left]
    refine ⟨front, rest, eq, plain, left, ?_, ?_, ?_, ?_⟩
    · simp [own]
    · simp
    · intro closed
      exact ⟨(matched.closed closed).1, Or.inr left⟩
    · exact cuts.imp fun slash => Or.inr (slash.resolve_left filled)
  · intro splits
    obtain ⟨front, rest, eq, plain, left, matched⟩ := splits
    have filled : route.segments ≠ [] := by simp [eq, left]
    refine ⟨?_, ?_, ?_, ?_⟩
    · simp [own]
    · simp [relative]
    · intro closed
      exact ⟨(matched.closed closed).1, Or.inr filled⟩
    · refine (Pattern.cuts_cons _ _ more _).mpr ⟨front, rest, eq, plain, matched.cut.imp ?_⟩
      exact fun slash => Or.inr (slash.resolve_left left)

/-- A relative pattern without braces matches a path exactly if the path's segments are some without dots and
then some that the pattern matches on its own, with the slash at the end of the path or without. -/
theorem matches_at_any_depth {pattern : String} (filled : pattern.toList ≠ [])
    (text : '\x7b' ∉ pattern.toList) (free : ¬ IsAnchored pattern.toList)
    (direct : ¬ ['.', '/'] <+: pattern.toList) (path : String) :
    ∃ answer, matchesPath pattern path = .ok answer ∧
      (answer = true ↔ ∃ front rest, Path.segments path.toList = front ++ rest ∧
        (∀ segment ∈ front, segment ≠ Path.here ∧ segment ≠ Path.above) ∧ rest ≠ [] ∧
          (Pattern.ofChars pattern.toList).Matches ⟨false, rest, path.toList.getLast? = some '/'⟩) := by
  have anchored : anchor pattern.toList = anywhere ++ pattern.toList := by
    rw [anchor_eq, withoutHere_of_direct direct, if_neg free]
  obtain ⟨named, own, prefixed⟩ := ofChars_of_free filled free
  refine ⟨_, matchesPath_text text path, ?_⟩
  rw [Pattern.matchesRoute_iff, anchored, subject_of_free (by simp [anywhere]), prefixed,
    Pattern.matches_anyDepth (Route.relative_dropSlashes _) own named]
  simp only [Route.segments_dropSlashes, Path.isDots_eq_false_iff]
  apply exists_congr
  intro front
  apply exists_congr
  intro rest
  apply and_congr_right
  intro eq
  apply and_congr_right
  intro _
  apply and_congr_right
  intro left
  rw [Route.closed_dropSlashes (by simp [eq, left])]

theorem matches_source_directory :
    (matchesPath "src/**" "/proj/src/a/b.ts").toOption = some true ∧
    ∃ front rest, Path.segments "/proj/src/a/b.ts".toList = front ++ rest ∧
      (∀ segment ∈ front, segment ≠ Path.here ∧ segment ≠ Path.above) ∧ rest ≠ [] ∧
        (Pattern.ofChars "src/**".toList).Matches ⟨false, rest, false⟩ := by
  have shown : (matchesPath "src/**" "/proj/src/a/b.ts").toOption = some true := by decide +kernel
  obtain ⟨answer, run, decides⟩ := @matches_at_any_depth "src/**" (by decide) (by decide)
    (by decide) (by decide) "/proj/src/a/b.ts"
  rw [run] at shown
  have yes : answer = true := Option.some.inj shown
  exact ⟨by rw [run]; exact shown, decides.mp yes⟩

end Glob

end CheckCost
