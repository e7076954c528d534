import CheckCost.Proofs.Outcome
import CheckCost.Report.Assembly

/-!
Anchoring and braces. The prefix that anchors a relative pattern is read before the braces are, and stands
before each expansion of the rest; only empty braces at the start of the rest are not at the start any more.
-/
namespace CheckCost.Glob

open Outcome

/-! Reading braces with more text before them. -/

namespace BraceReading

/-- The same reading after more pieces outside of all groups, in reverse order. -/
def after (before : List Piece) (reading : BraceReading) : BraceReading :=
  { reading with outside := reading.outside ++ before }

variable (before : List Piece) (reading : BraceReading)

theorem add_after (pieces : List Piece) : (reading.after before).add pieces = (reading.add pieces).after before := by
  obtain ⟨groups, outside⟩ := reading
  cases groups with
  | nil => simp [after, add]
  | cons group rest => rfl

theorem enter_after : (reading.after before).enter = reading.enter.after before := rfl

theorem comma_after : (reading.after before).comma = reading.comma.after before := by
  obtain ⟨groups, outside⟩ := reading
  cases groups with
  | nil => exact add_after before ⟨[], outside⟩ [.char ',']
  | cons group rest => rfl

theorem leave_after : (reading.after before).leave = reading.leave.after before := by
  obtain ⟨groups, outside⟩ := reading
  cases groups with
  | nil => exact add_after before ⟨[], outside⟩ [.char '\x7d']
  | cons group rest =>
    obtain ⟨complete, current⟩ := group
    cases complete with
    | nil =>
      cases rest with
      | nil => rfl
      | cons outer more => rfl
    | cons slot slots => exact add_after before ⟨rest, outside⟩ _

theorem pieces_after : (reading.after before).pieces = before.reverse ++ reading.pieces := by
  simp [pieces, after]

end BraceReading

theorem readBraces_after (before : List Piece) (fuel : Nat) (reading : BraceReading) (cs : List Char) :
    readBraces fuel (reading.after before) cs = (readBraces fuel reading cs).after before := by
  fun_induction readBraces fuel reading cs with
  | case1 => rfl
  | case2 => rfl
  | case3 fuel reading c rest ih => rw [readBraces, BraceReading.add_after, ih]
  | case4 fuel reading rest ih => rw [readBraces, BraceReading.add_after, ih]
  | case5 fuel reading rest piece tail found ih =>
    simp only [readBraces, found, BraceReading.add_after, ih]
  | case6 fuel reading rest missing ih =>
    simp only [readBraces, missing, BraceReading.enter_after, ih]
  | case7 fuel reading rest ih => rw [readBraces, BraceReading.leave_after, ih]
  | case8 fuel reading rest ih => rw [readBraces, BraceReading.comma_after, ih]
  | case9 fuel reading c rest escape dollar opening closing comma ih =>
    rw [readBraces, BraceReading.add_after, ih] <;> assumption

/-- The characters that mean something for the braces. -/
def structural : List Char := ['\\', '$', '\x7b', '\x7d', ',']

theorem readBraces_plain {c : Char} (plain : c ∉ structural) (fuel : Nat) (reading : BraceReading)
    (rest : List Char) :
    readBraces (fuel + 1) reading (c :: rest) = readBraces fuel (reading.add [.char c]) rest := by
  rw [readBraces] <;> simp_all [structural]

theorem piecesWithin_plain {c : Char} (plain : c ∉ structural) (rest : List Char) :
    piecesWithin (c :: rest) = .char c :: piecesWithin rest :=
  calc piecesWithin (c :: rest)
      = (readBraces rest.length (BraceReading.start.after [.char c]) rest).pieces :=
        congrArg BraceReading.pieces (readBraces_plain plain rest.length .start rest)
    _ = .char c :: piecesWithin rest := by
        rw [readBraces_after, BraceReading.pieces_after]
        rfl

/-! The expansions of a pattern. -/

/-- The texts that a pattern's braces stand for, with repetitions. -/
def expansions (cs : List Char) : List (List Char) := Piece.expandSlot (piecesOf cs)

/-- The texts that the braces of a text behind another text stand for. -/
def expansionsWithin (cs : List Char) : List (List Char) := Piece.expandSlot (piecesWithin cs)

theorem expansions_eq {cs : List Char} (filled : ¬ ['\x7b', '\x7d'] <+: cs) :
    expansions cs = expansionsWithin cs := by
  unfold expansions piecesOf
  split
  · exact absurd ⟨_, rfl⟩ filled
  · rfl

theorem expansionsWithin_plain {c : Char} (plain : c ∉ structural) (rest : List Char) :
    expansionsWithin (c :: rest) = (expansionsWithin rest).map (c :: ·) := by
  simp [expansionsWithin, piecesWithin_plain plain, Piece.expandSlot, Piece.expand, Piece.product]

/-- The prefix of a relative pattern. -/
def anywhere : List Char := ['*', '*', '/']

theorem expansions_anywhere (cs : List Char) :
    expansions (anywhere ++ cs) = (expansionsWithin cs).map (anywhere ++ ·) := by
  have filled : ¬ ['\x7b', '\x7d'] <+: anywhere ++ cs := by simp [anywhere]
  have star : '*' ∉ structural := by decide
  have slash : '/' ∉ structural := by decide
  rw [expansions_eq filled]
  simp [anywhere, expansionsWithin_plain star, expansionsWithin_plain slash, Function.comp_def]

/-- The text starts at the root or with two stars. -/
def IsAnchored (cs : List Char) : Prop := ['/'] <+: cs ∨ ['*', '*'] <+: cs

instance (cs : List Char) : Decidable (IsAnchored cs) := inferInstanceAs (Decidable (_ ∨ _))

theorem anchor_eq (pattern : List Char) :
    anchor pattern =
      if IsAnchored (withoutHere pattern) then withoutHere pattern
      else anywhere ++ withoutHere pattern := by
  unfold anchor
  split
  · next rest eq => rw [eq, if_pos (.inl ⟨rest, rfl⟩)]
  · next rest eq => rw [eq, if_pos (.inr ⟨rest, rfl⟩)]
  · next root stars =>
    refine (if_neg ?_).symm
    rintro (⟨rest, eq⟩ | ⟨rest, eq⟩)
    · exact root rest eq.symm
    · exact stars rest eq.symm

theorem expansions_anchor (pattern : List Char) :
    expansions (anchor pattern) =
      if IsAnchored (withoutHere pattern) then expansionsWithin (withoutHere pattern)
      else (expansionsWithin (withoutHere pattern)).map (anywhere ++ ·) := by
  rw [anchor_eq]
  split
  · next anchored =>
    refine expansions_eq ?_
    intro ⟨rest, eq⟩
    rw [← eq] at anchored
    simp [IsAnchored] at anchored
  · exact expansions_anywhere _

/-! Using a pattern. -/

theorem countSlot_anchor (pattern : List Char) :
    Piece.countSlot (piecesOf (anchor pattern)) = (expansionsWithin (withoutHere pattern)).length := by
  rw [← Piece.expandSlot_length]
  change (expansions (anchor pattern)).length = _
  rw [expansions_anchor]
  split
  · rfl
  · exact List.length_map ..

theorem compile_error {pattern : String}
    (many : expansionLimit < (expansionsWithin (withoutHere pattern.toList)).length) :
    compile pattern = .error ⟨pattern⟩ :=
  if_pos (by rwa [countSlot_anchor])

theorem compile_ok {pattern : String}
    (few : (expansionsWithin (withoutHere pattern.toList)).length ≤ expansionLimit) :
    compile pattern =
      .ok ⟨anchor pattern.toList, (expansions (anchor pattern.toList)).map Pattern.ofChars⟩ :=
  if_neg (by rw [countSlot_anchor]; exact Nat.not_lt.mpr few)

theorem includes_iff (glob : Glob) (path : String) :
    glob.includes path = true ↔
      ∃ pattern ∈ glob.patterns, pattern.matchesRoute (Route.ofChars (glob.subject path)) = true :=
  List.any_eq_true

/-- The braces of a pattern are read the same with the prefix and without, unless the pattern begins with
empty ones. A pattern with too many expansions is refused for all paths and for all metrics, and any other
pattern decides about each path alone: one of the anchored expansions has to match. -/
theorem evaluates_uniformly (pattern : String) :
    let rest := withoutHere pattern.toList
    let anchored := anchor pattern.toList
    (expansions anchored =
      if IsAnchored rest then expansionsWithin rest else (expansionsWithin rest).map (anywhere ++ ·)) ∧
    (¬ ['\x7b', '\x7d'] <+: rest → expansionsWithin rest = expansions rest) ∧
    (1000 < (expansionsWithin rest).length →
      (∀ path, matchesPath pattern path = .error ⟨pattern⟩) ∧
      ∀ (D : Type) (metrics : List (Metric D)), select pattern metrics = .error ⟨pattern⟩) ∧
    ((expansionsWithin rest).length ≤ 1000 →
      ∃ glob, compile pattern = .ok glob ∧ glob.anchored = anchored ∧
        (∀ path, ∃ answer, matchesPath pattern path = .ok answer ∧
          (answer = true ↔ ∃ expansion ∈ expansions anchored,
            (Pattern.ofChars expansion).matchesRoute (Route.ofChars (glob.subject path)) = true)) ∧
        ∀ (D : Type) (metrics : List (Metric D)), select pattern metrics =
          .ok (metrics.filter fun metric => (matchesPath pattern metric.path).toOption == some true)) := by
  intro rest anchored
  refine ⟨expansions_anchor _, fun filled => (expansions_eq filled).symm, ?_, ?_⟩
  · intro many
    have refused := compile_error many
    exact ⟨fun path => by rw [matchesPath, refused]; rfl, fun D metrics => by rw [select, refused]; rfl⟩
  · intro few
    have compiled := compile_ok few
    have answered : ∀ path, matchesPath pattern path = .ok _ := fun path => by
      rw [matchesPath, compiled]
      rfl
    refine ⟨_, compiled, rfl, ?_, ?_⟩
    · intro path
      refine ⟨_, answered path, ?_⟩
      rw [includes_iff]
      simp only [List.mem_map, exists_exists_and_eq_and, anchored]
    · intro D metrics
      rw [select, compiled]
      simp [answered, filter, bind, Except.bind, pure, Except.pure, Except.toOption]

/-- A pattern that begins with empty braces: behind the prefix they take the comma. -/
theorem prefix_opens_empty_braces :
    let pattern := "\x7b\x7d,a\x7d"
    let rest := withoutHere pattern.toList
    ¬ IsAnchored rest ∧ expansions rest = [rest] ∧
    expansions (anchor pattern.toList) = ["**/\x7d".toList, "**/a".toList] ∧
    expansions (anchor pattern.toList) ≠ (expansions rest).map (anywhere ++ ·) ∧
    (matchesPath pattern "a").toOption = some true ∧
    (matchesPath pattern pattern).toOption = some false := by
  decide +kernel

end CheckCost.Glob
