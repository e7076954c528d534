import CheckCost.Glob.Pattern
import CheckCost.Proofs.Glob.DefaultPattern

/-!
What a pattern matches, said without searching: the languages of single segments, and a whole path as one
block of segments for each segment of the pattern. The derivatives and the search through a path decide it.
-/
namespace CheckCost.Glob

namespace Wild

/-- The text is one of the language. -/
def Matches : Wild → List Char → Prop
  | nothing, _ => False
  | empty, cs => cs = []
  | one set, cs => ∃ c, cs = [c] ∧ set.contains c = true
  | seq first second, cs => ∃ front back, cs = front ++ back ∧ first.Matches front ∧ second.Matches back
  | alt first second, cs => first.Matches cs ∨ second.Matches cs
  | many body, cs => ∃ parts : List (List Char), cs = parts.flatten ∧ ∀ part ∈ parts, body.Matches part
  | other body, cs => ¬ body.Matches cs

theorem matches_of_among {w v : Wild} {cs : List Char} (found : among w v = true) (reads : w.Matches cs) :
    v.Matches cs := by
  fun_induction among w v with
  | case1 first second ih =>
    rw [Bool.or_eq_true, decide_eq_true_iff] at found
    rcases found with rfl | later
    · exact Or.inl reads
    · exact Or.inr (ih later)
  | case2 v =>
    rw [decide_eq_true_iff] at found
    exact found ▸ reads

theorem union_matches (v w : Wild) (cs : List Char) :
    (union v w).Matches cs ↔ v.Matches cs ∨ w.Matches cs := by
  fun_induction union v w with
  | case1 w => simp [Matches]
  | case2 first second w ih₁ ih₂ => rw [ih₂, ih₁, Matches, or_assoc]
  | case3 v => simp [Matches]
  | case4 v w _ _ _ found =>
    constructor
    · exact Or.inr
    · rintro (left | right)
      · exact matches_of_among found left
      · exact right
  | case5 => rfl

theorem concat_matches (v w : Wild) (cs : List Char) :
    (concat v w).Matches cs ↔ (seq v w).Matches cs := by
  fun_induction concat v w generalizing cs with
  | case1 w => simp [Matches]
  | case2 w => simp [Matches]
  | case3 first second w ih =>
    simp only [Matches, ih]
    constructor
    · rintro ⟨front, _, rfl, reads, middle, back, rfl, more, rest⟩
      exact ⟨front ++ middle, back, by simp, ⟨front, middle, rfl, reads, more⟩, rest⟩
    · rintro ⟨_, back, rfl, ⟨front, middle, rfl, reads, more⟩, rest⟩
      exact ⟨front, middle ++ back, by simp, reads, middle, back, rfl, more, rest⟩
  | case4 first second w ih₁ ih₂ =>
    rw [union_matches, ih₁, ih₂]
    simp only [Matches, or_and_right, and_or_left, exists_or]
  | case5 => rfl

theorem nullable_iff (w : Wild) : w.nullable = true ↔ w.Matches [] := by
  induction w with
  | nothing => simp [nullable, Matches]
  | empty => simp [nullable, Matches]
  | one set => simp [nullable, Matches]
  | seq first second ih₁ ih₂ => simp [nullable, Matches, ih₁, ih₂, and_assoc]
  | alt first second ih₁ ih₂ => simp [nullable, Matches, ih₁, ih₂]
  | many body ih => exact iff_of_true rfl ⟨[], rfl, by simp⟩
  | other body ih => simp [nullable, Matches, ← ih]

/-- The first character is one of the first part that has any. -/
theorem many_matches_cons (body : Wild) (c : Char) (cs : List Char) :
    (many body).Matches (c :: cs) ↔
      ∃ front back, cs = front ++ back ∧ body.Matches (c :: front) ∧ (many body).Matches back := by
  constructor
  · rintro ⟨parts, eq, reads⟩
    induction parts with
    | nil => cases eq
    | cons part parts ih =>
      rw [List.forall_mem_cons] at reads
      cases part with
      | nil => exact ih eq reads.2
      | cons d front =>
        simp only [List.flatten_cons, List.cons_append, List.cons.injEq] at eq
        obtain ⟨rfl, rfl⟩ := eq
        exact ⟨front, parts.flatten, rfl, reads.1, parts, rfl, reads.2⟩
  · rintro ⟨front, _, rfl, reads, parts, rfl, more⟩
    refine ⟨(c :: front) :: parts, rfl, ?_⟩
    rw [List.forall_mem_cons]
    exact ⟨reads, more⟩

theorem seq_matches_cons (first second : Wild) (c : Char) (cs : List Char) :
    (seq first second).Matches (c :: cs) ↔
      (∃ front back, cs = front ++ back ∧ first.Matches (c :: front) ∧ second.Matches back) ∨
        first.Matches [] ∧ second.Matches (c :: cs) := by
  constructor
  · rintro ⟨front, back, eq, reads, more⟩
    cases front with
    | nil =>
      cases eq
      exact Or.inr ⟨reads, more⟩
    | cons d front =>
      cases eq
      exact Or.inl ⟨front, back, rfl, reads, more⟩
  · rintro (⟨front, back, rfl, reads, more⟩ | ⟨reads, more⟩)
    · exact ⟨c :: front, back, rfl, reads, more⟩
    · exact ⟨[], c :: cs, rfl, reads, more⟩

theorem derive_matches (c : Char) (w : Wild) (cs : List Char) :
    (derive c w).Matches cs ↔ w.Matches (c :: cs) := by
  induction w generalizing cs with
  | nothing => rfl
  | empty => simp [derive, Matches]
  | one set =>
    unfold derive
    split
    · next inside => simp [Matches, inside]
    · next outside => simp [Matches, outside]
  | seq first second ih₁ ih₂ =>
    have front : (concat (derive c first) second).Matches cs ↔
        ∃ front back, cs = front ++ back ∧ first.Matches (c :: front) ∧ second.Matches back := by
      simp only [concat_matches, Matches, ih₁]
    rw [seq_matches_cons, ← nullable_iff, derive]
    split
    · next skips => simp [union_matches, front, ih₂, skips]
    · next keeps => simp [front, keeps]
  | alt first second ih₁ ih₂ => rw [derive, union_matches, ih₁, ih₂, Matches]
  | many body ih =>
    rw [derive, concat_matches, many_matches_cons]
    simp only [Matches, ih]
  | other body ih => simp only [derive, Matches, ih]

/-- Derivatives decide the language. -/
theorem accepts_iff (w : Wild) (cs : List Char) : w.accepts cs = true ↔ w.Matches cs := by
  induction cs generalizing w with
  | nil => exact nullable_iff w
  | cons c rest ih => rw [accepts, ih, derive_matches]

end Wild

/-- A segment of a pattern takes a block of a path's segments: two stars any block without dots, another one
a single segment of its language. -/
def Segment.Takes : Segment → List (List Char) → Prop
  | anyDepth, block => ∀ segment ∈ block, Path.isDots segment = false
  | named guarded wild, block =>
    ∃ segment, block = [segment] ∧ (guarded = true → Path.isDots segment = false) ∧ wild.Matches segment

namespace Pattern

/-- The path is cut into blocks, one for each segment of the pattern. Two stars at the end of the pattern may
have the empty block only behind a slash. -/
def Cuts (slash : Prop) (pattern : List Segment) (segments : List (List Char)) : Prop :=
  ∃ blocks, blocks.flatten = segments ∧ List.Forall₂ Segment.Takes pattern blocks ∧
    (pattern.getLast? = some .anyDepth → blocks.getLast? = some [] → slash)

/-- The rules of patterns without braces. The start of the path counts as a slash. -/
structure Matches (pattern : Pattern) (route : Route) : Prop where
  rooted : pattern.absolute = true → route.absolute = true
  free : route.absolute = true → pattern.absolute = true ∨ pattern.segments.head? = some .anyDepth
  closed : pattern.closed = true →
    route.closed = true ∧ (pattern.segments = [] ∨ route.segments ≠ [])
  cut : Cuts (route.segments = [] ∨ route.closed = true) pattern.segments route.segments

theorem Cuts.imp {slash other : Prop} {pattern : List Segment} {segments : List (List Char)}
    (cuts : Cuts slash pattern segments) (carries : slash → other) : Cuts other pattern segments := by
  obtain ⟨blocks, eq, takes, ends⟩ := cuts
  exact ⟨blocks, eq, takes, fun stars none => carries (ends stars none)⟩

theorem cuts_nil (slash : Prop) (segments : List (List Char)) : Cuts slash [] segments ↔ segments = [] := by
  constructor
  · rintro ⟨blocks, rfl, takes, _⟩
    cases takes
    rfl
  · rintro rfl
    exact ⟨[], rfl, .nil, by simp⟩

theorem cuts_last (slash : Prop) (segments : List (List Char)) :
    Cuts slash [.anyDepth] segments ↔
      (∀ segment ∈ segments, Path.isDots segment = false) ∧ (segments ≠ [] ∨ slash) := by
  constructor
  · rintro ⟨blocks, rfl, takes, last⟩
    obtain ⟨block, _, plain, none, rfl⟩ := List.forall₂_cons_left_iff.mp takes
    cases none
    simp only [List.flatten_cons, List.flatten_nil, List.append_nil]
    refine ⟨plain, ?_⟩
    by_cases empty : block = []
    · exact Or.inr (last rfl (by simp [empty]))
    · exact Or.inl empty
  · rintro ⟨plain, some⟩
    refine ⟨[segments], by simp, .cons plain .nil, ?_⟩
    intro _ empty
    simp only [List.getLast?_singleton, Option.some.injEq] at empty
    exact some.resolve_left (absurd empty)

/-- The last segment and block are those after the first, if any are. -/
theorem cuts_cons (slash : Prop) (segment : Segment) {rest : List Segment} (more : rest ≠ [])
    (segments : List (List Char)) :
    Cuts slash (segment :: rest) segments ↔
      ∃ block back, segments = block ++ back ∧ segment.Takes block ∧ Cuts slash rest back := by
  have last {α : Type} (first : α) {items : List α} (some : items ≠ []) :
      (first :: items).getLast? = items.getLast? := by
    rw [List.getLast?_cons, List.getLast?_eq_some_getLast some]
    rfl
  have filled {blocks : List (List (List Char))} (takes : List.Forall₂ Segment.Takes rest blocks) :
      blocks ≠ [] := by
    rintro rfl
    cases takes
    exact more rfl
  constructor
  · rintro ⟨blocks, rfl, takes, ends⟩
    obtain ⟨block, blocks, first, later, rfl⟩ := List.forall₂_cons_left_iff.mp takes
    rw [last _ more, last _ (filled later)] at ends
    exact ⟨block, blocks.flatten, rfl, first, blocks, rfl, later, ends⟩
  · rintro ⟨block, _, rfl, first, blocks, rfl, later, ends⟩
    refine ⟨block :: blocks, rfl, .cons first later, ?_⟩
    rw [last _ more, last _ (filled later)]
    exact ends

theorem cuts_named (slash : Prop) (guarded : Bool) (wild : Wild) (rest : List Segment)
    (segments : List (List Char)) :
    Cuts slash (.named guarded wild :: rest) segments ↔
      ∃ segment back, segments = segment :: back ∧ (guarded = true → Path.isDots segment = false) ∧
        wild.Matches segment ∧ Cuts slash rest back := by
  by_cases more : rest = []
  · subst more
    constructor
    · rintro ⟨blocks, rfl, takes, _⟩
      obtain ⟨_, _, ⟨segment, rfl, plain, reads⟩, none, rfl⟩ := List.forall₂_cons_left_iff.mp takes
      cases none
      exact ⟨segment, [], rfl, plain, reads, (cuts_nil slash []).mpr rfl⟩
    · rintro ⟨segment, back, rfl, plain, reads, none⟩
      rw [cuts_nil] at none
      subst none
      exact ⟨[[segment]], rfl, .cons ⟨segment, rfl, plain, reads⟩ .nil, by simp⟩
  · rw [cuts_cons _ _ more]
    constructor
    · rintro ⟨_, back, rfl, ⟨segment, rfl, plain, reads⟩, cuts⟩
      exact ⟨segment, back, rfl, plain, reads, cuts⟩
    · rintro ⟨segment, back, rfl, plain, reads, cuts⟩
      exact ⟨[segment], back, rfl, ⟨segment, rfl, plain, reads⟩, cuts⟩

/-- The search finds a way to cut the path if there is one. -/
theorem fits_iff (slash : Bool) (pattern : List Segment) (segments : List (List Char)) :
    fits slash pattern segments = true ↔ Cuts (slash = true) pattern segments := by
  induction pattern generalizing segments with
  | nil => rw [fits, cuts_nil, List.isEmpty_iff]
  | cons segment rest ih =>
    cases segment with
    | named guarded wild =>
      rw [cuts_named]
      cases segments with
      | nil => simp [fits]
      | cons segment more => simp [fits, ih, Wild.accepts_iff, and_assoc, imp_iff_not_or]
    | anyDepth =>
      by_cases more : rest = []
      · subst more
        rw [cuts_last]
        simp [fits]
      · rw [cuts_cons _ _ more, fits, afterSkipping_iff]
        · simp only [ih]
          rfl
        · simpa using more

theorem sameStart_iff (pattern : Pattern) (route : Route) :
    pattern.sameStart route = true ↔
      (pattern.absolute = true → route.absolute = true) ∧
        (route.absolute = true → pattern.absolute = true ∨ pattern.segments.head? = some .anyDepth) := by
  unfold sameStart
  cases pattern.absolute <;> cases route.absolute <;> simp

theorem sameEnd_iff (pattern : Pattern) (route : Route) :
    pattern.sameEnd route = true ↔
      (pattern.closed = true → route.closed = true ∧ (pattern.segments = [] ∨ route.segments ≠ [])) := by
  unfold sameEnd
  cases pattern.closed <;> simp

theorem matchesRoute_iff (pattern : Pattern) (route : Route) :
    pattern.matchesRoute route = true ↔ pattern.Matches route := by
  rw [matchesRoute, Bool.and_eq_true, Bool.and_eq_true, sameStart_iff, sameEnd_iff, fits_iff]
  simp only [Bool.or_eq_true, List.isEmpty_iff]
  constructor
  · intro all
    obtain ⟨⟨⟨rooted, free⟩, closed⟩, cut⟩ := all
    exact ⟨rooted, free, closed, cut⟩
  · intro matched
    exact ⟨⟨⟨matched.rooted, matched.free⟩, matched.closed⟩, matched.cut⟩

end Pattern

end CheckCost.Glob
