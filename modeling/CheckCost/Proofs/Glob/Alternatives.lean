import CheckCost.Proofs.Glob.Relative

/-!
Two alternatives in braces. The whole is anchored before the braces are read, so each alternative is taken at
any depth. It means what it does alone unless it starts at the root, with `./`, or with two stars that are
not a segment of their own.
-/
namespace CheckCost.Glob

open Number

/-! A range of numbers or letters has no comma, so braces with a comma are a group. -/

theorem sign_within (cs : List Char) : ∃ taken, cs = taken ++ (sign cs).2 ∧ ',' ∉ taken := by
  unfold sign
  split
  · exact ⟨['-'], rfl, by decide⟩
  · exact ⟨['+'], rfl, by decide⟩
  · exact ⟨[], rfl, by simp⟩

theorem Operand.read?_within {cs rest : List Char} {operand : Operand}
    (found : Operand.read? cs = some (operand, rest)) : ∃ taken, cs = taken ++ rest ∧ ',' ∉ taken := by
  obtain ⟨before, eq, plain⟩ := sign_within cs
  cases signed : sign cs with
  | mk negative body =>
    simp only [Operand.read?, signed] at found eq
    split at found
    · cases found
    · simp only [Option.some.injEq, Prod.mk.injEq] at found
      obtain ⟨_, rfl⟩ := found
      refine ⟨before ++ body.takeWhile fun c => (Text.decimalDigit? c).isSome, ?_, ?_⟩
      · rw [List.append_assoc, List.prefix_iff_eq_append.mp (List.takeWhile_prefix _)]
        exact eq
      · intro member
        rcases List.mem_append.mp member with early | late
        · exact plain early
        · have digit := List.all_eq_true.mp List.all_takeWhile ',' late
          exact absurd digit (by decide)

theorem stepEnd?_within {cs rest : List Char} {step : Nat} (found : stepEnd? cs = some (step, rest)) :
    ∃ taken, cs = taken ++ '\x7d' :: rest ∧ ',' ∉ taken := by
  unfold stepEnd? at found
  split at found
  · cases found
    exact ⟨[], rfl, by simp⟩
  · next more =>
    split at found
    · next operand tail read =>
      cases found
      obtain ⟨taken, rfl, plain⟩ := Operand.read?_within read
      exact ⟨'.' :: '.' :: taken, rfl, by simpa using plain⟩
    · cases found
  · cases found

theorem numbers?_within {cs rest : List Char} {piece : Piece} (found : numbers? cs = some (piece, rest)) :
    ∃ taken, cs = taken ++ '\x7d' :: rest ∧ ',' ∉ taken := by
  unfold numbers? at found
  split at found
  · next first more readFirst =>
    split at found
    · next last tail readLast =>
      obtain ⟨⟨step, left⟩, ends, eq⟩ := Option.map_eq_some_iff.mp found
      cases eq
      obtain ⟨one, rfl, plainOne⟩ := Operand.read?_within readFirst
      obtain ⟨two, rfl, plainTwo⟩ := Operand.read?_within readLast
      obtain ⟨three, rfl, plainThree⟩ := stepEnd?_within ends
      exact ⟨one ++ '.' :: '.' :: (two ++ three), by simp, by simp [plainOne, plainTwo, plainThree]⟩
    · cases found
  · cases found

theorem letters?_within {cs rest : List Char} {piece : Piece} (found : letters? cs = some (piece, rest)) :
    ∃ taken, cs = taken ++ '\x7d' :: rest ∧ ',' ∉ taken := by
  unfold letters? at found
  split at found
  · next first last tail =>
    split at found
    · next letters =>
      obtain ⟨⟨step, left⟩, ends, eq⟩ := Option.map_eq_some_iff.mp found
      cases eq
      obtain ⟨taken, rfl, plain⟩ := stepEnd?_within ends
      have comma : isLetter ',' = false := by decide
      refine ⟨first :: '.' :: '.' :: last :: taken, rfl, ?_⟩
      intro member
      simp only [Bool.and_eq_true] at letters
      simp only [List.mem_cons] at member
      rcases member with rfl | dot | dot | rfl | later
      · simp [comma] at letters
      · cases dot
      · cases dot
      · simp [comma] at letters
      · exact plain later
    · cases found
  · cases found

theorem range?_within {cs rest : List Char} {piece : Piece} (found : range? cs = some (piece, rest)) :
    ∃ taken, cs = taken ++ '\x7d' :: rest ∧ ',' ∉ taken := by
  rcases Option.or_eq_some_iff.mp found with numbers | ⟨_, letters⟩
  · exact numbers?_within numbers
  · exact letters?_within letters

/-- Of two marks in a text the one stands before the other. -/
theorem mem_or_mem_of_split {a b : Char} (different : a ≠ b) {front rest before after : List Char}
    (eq : front ++ a :: rest = before ++ b :: after) : b ∈ front ∨ a ∈ before := by
  induction front generalizing before with
  | nil =>
    cases before with
    | nil => exact absurd (List.cons.inj eq).1 different
    | cons c before =>
      obtain ⟨rfl, _⟩ := List.cons.inj eq
      exact Or.inr List.mem_cons_self
  | cons c front ih =>
    cases before with
    | nil =>
      obtain ⟨rfl, _⟩ := List.cons.inj eq
      exact Or.inl List.mem_cons_self
    | cons d before =>
      rcases ih (List.cons.inj eq).2 with later | later
      · exact Or.inl (List.mem_cons_of_mem c later)
      · exact Or.inr (List.mem_cons_of_mem d later)

theorem range?_of_comma {first : List Char} (closed : '\x7d' ∉ first) (rest : List Char) :
    range? (first ++ ',' :: rest) = none := by
  cases found : range? (first ++ ',' :: rest) with
  | none => rfl
  | some range =>
    obtain ⟨piece, left⟩ := range
    obtain ⟨taken, eq, plain⟩ := range?_within found
    rcases mem_or_mem_of_split (by decide) eq with brace | comma
    · exact absurd brace closed
    · exact absurd comma plain

/-! Reading the group. -/

theorem BraceReading.add_add (first second : List Piece) (reading : BraceReading) :
    (reading.add first).add second = reading.add (second ++ first) := by
  obtain ⟨groups, outside⟩ := reading
  cases groups <;> simp [add]

theorem BraceReading.add_nil (reading : BraceReading) : reading.add [] = reading := by
  obtain ⟨groups, outside⟩ := reading
  cases groups <;> rfl

theorem readBraces_plains {cs : List Char} (plain : ∀ c ∈ cs, c ∉ structural) (fuel : Nat)
    (reading : BraceReading) (rest : List Char) :
    readBraces (cs.length + fuel) reading (cs ++ rest) =
      readBraces fuel (reading.add (cs.map Piece.char).reverse) rest := by
  induction cs generalizing reading with
  | nil => simp [BraceReading.add_nil]
  | cons c more ih =>
    rw [List.forall_mem_cons] at plain
    have length : (c :: more).length + fuel = more.length + fuel + 1 := by
      simp only [List.length_cons]
      omega
    rw [length, List.cons_append, readBraces_plain plain.1, ih plain.2, BraceReading.add_add]
    simp

def eitherOf (first second : List Char) : List Char := '\x7b' :: (first ++ ',' :: (second ++ ['\x7d']))

def either (first second : String) : String := "\x7b" ++ first ++ "," ++ second ++ "\x7d"

theorem toList_either (first second : String) :
    (either first second).toList = eitherOf first.toList second.toList := by
  simp [either, eitherOf]

theorem piecesWithin_either {first second : List Char} (plainFirst : ∀ c ∈ first, c ∉ structural)
    (plainSecond : ∀ c ∈ second, c ∉ structural) :
    piecesWithin (eitherOf first second) = [.choice [first.map .char, second.map .char]] := by
  have closed : '\x7d' ∉ first := fun member => plainFirst _ member (by decide)
  have length : (eitherOf first second).length = first.length + (second.length + 1 + 1) + 1 := by
    simp [eitherOf]
  have opened := range?_of_comma closed (second ++ ['\x7d'])
  rw [piecesWithin, length, eitherOf]
  simp only [readBraces, opened]
  rw [readBraces_plains plainFirst, readBraces, readBraces_plains plainSecond, readBraces, readBraces]
  simp [BraceReading.start, BraceReading.enter, BraceReading.add, BraceReading.comma, BraceReading.leave,
    BraceReading.pieces]

theorem expansionsWithin_either {first second : List Char} (plainFirst : ∀ c ∈ first, c ∉ structural)
    (plainSecond : ∀ c ∈ second, c ∉ structural) :
    expansionsWithin (eitherOf first second) = [first, second] := by
  simp [expansionsWithin, piecesWithin_either plainFirst plainSecond, Piece.expandSlot, Piece.expand,
    Piece.expandSlots, Piece.product, expandSlot_text]

theorem compile_either {first second : String} (plainFirst : ∀ c ∈ first.toList, c ∉ structural)
    (plainSecond : ∀ c ∈ second.toList, c ∉ structural) :
    compile (either first second) =
      .ok ⟨anywhere ++ eitherOf first.toList second.toList,
        [Pattern.ofChars (anywhere ++ first.toList), Pattern.ofChars (anywhere ++ second.toList)]⟩ := by
  have stays : withoutHere (either first second).toList = eitherOf first.toList second.toList := by
    rw [toList_either]
    rfl
  have free : ¬ IsAnchored (eitherOf first.toList second.toList) := by simp [IsAnchored, eitherOf]
  have two := expansionsWithin_either plainFirst plainSecond
  rw [compile_ok (by simp [stays, two, expansionLimit]), expansions_anchor, anchor_eq, stays, if_neg free,
    if_neg free, two]
  rfl

/-! What an alternative means. -/

theorem matchesPath_anywhere {alternative : String} (text : '\x7b' ∉ alternative.toList) (path : String) :
    matchesPath ("**/" ++ alternative) path =
      .ok ((Pattern.ofChars (anywhere ++ alternative.toList)).matchesRoute
        (Route.ofChars (path.toList.dropWhile (· = '/')))) := by
  have shape : ("**/" ++ alternative).toList = anywhere ++ alternative.toList := String.toList_append
  have prefixed : '\x7b' ∉ ("**/" ++ alternative).toList := by
    rw [shape]
    simpa [anywhere] using text
  have stays : anchor (anywhere ++ alternative.toList) = anywhere ++ alternative.toList := rfl
  rw [matchesPath_text prefixed, shape, stays, subject_of_free (by simp [anywhere])]

/-- Anchoring adds nothing to it but the prefix, if that. -/
structure StandsFree (cs : List Char) : Prop where
  free : ¬ ['/'] <+: cs
  direct : ¬ ['.', '/'] <+: cs
  whole : ['*', '*'] <+: cs → cs = ['*', '*'] ∨ anywhere <+: cs

theorem ofChars_of_stars {cs : List Char} (stars : cs = ['*', '*'] ∨ anywhere <+: cs) :
    Pattern.ofChars (anywhere ++ cs) = Pattern.ofChars cs := by
  rcases stars with rfl | ⟨rest, rfl⟩
  · rfl
  · have last : (anywhere ++ (anywhere ++ rest)).getLast? = (anywhere ++ rest).getLast? :=
      getLast?_anywhere (by simp [anywhere])
    have stars : Segment.ofChars ['*', '*'] = .anyDepth := rfl
    rw [Pattern.ofChars_anywhere, Pattern.ofChars_anywhere, last, segments_anywhere, List.map_cons, stars,
      Pattern.merged]

theorem anchor_of_direct {cs : List Char} (direct : ¬ ['.', '/'] <+: cs) :
    anchor cs = if IsAnchored cs then cs else anywhere ++ cs := by
  rw [anchor_eq, withoutHere_of_direct direct]

theorem ofChars_of_standsFree {cs : List Char} (stands : StandsFree cs) :
    Pattern.ofChars (anywhere ++ cs) = Pattern.ofChars (anchor cs) ∧ (anchor cs).head? ≠ some '/' := by
  rw [anchor_of_direct stands.direct]
  split
  · next anchored =>
    have stars := anchored.resolve_left stands.free
    refine ⟨ofChars_of_stars (stands.whole stars), ?_⟩
    obtain ⟨rest, rfl⟩ := stars
    simp
  · exact ⟨rfl, by simp [anywhere]⟩

theorem matchesPath_of_standsFree {alternative : String} (text : '\x7b' ∉ alternative.toList)
    (stands : StandsFree alternative.toList) (path : String) :
    matchesPath alternative path = matchesPath ("**/" ++ alternative) path := by
  obtain ⟨same, free⟩ := ofChars_of_standsFree stands
  rw [matchesPath_anywhere text, matchesPath_text text, same, subject_of_free free]

namespace Pattern

theorem merged_ne_nil {segments : List Segment} (named : segments ≠ []) : merged segments ≠ [] := by
  fun_induction merged segments with
  | case1 rest ih => exact ih (List.cons_ne_nil _ _)
  | case2 segment rest _ ih => exact List.cons_ne_nil _ _
  | case3 => exact named

/-- The two stars of the prefix may take nothing, whether they are merged into other stars or not. -/
theorem Matches.anywhere {cs : List Char} {route other : Route} (named : Path.segments cs ≠ [])
    (matched : (ofChars cs).Matches route) (relative : other.absolute = false)
    (segments : other.segments = route.segments)
    (closed : route.segments ≠ [] → other.closed = route.closed) :
    (ofChars (anywhere ++ cs)).Matches other := by
  have filled : cs ≠ [] := by
    rintro rfl
    exact named rfl
  have some : merged ((Path.segments cs).map Segment.ofChars) ≠ [] :=
    merged_ne_nil (by simpa using named)
  have cuts : Cuts (other.segments = [] ∨ other.closed = true)
      (merged ((Path.segments cs).map Segment.ofChars)) other.segments := by
    rw [segments]
    refine matched.cut.imp ?_
    intro slash
    by_cases empty : route.segments = []
    · exact Or.inl empty
    · rw [closed empty]
      exact Or.inr (slash.resolve_left empty)
  rw [ofChars_anywhere, getLast?_anywhere filled]
  refine ⟨by simp, by simp [relative], ?_, ?_⟩
  · intro ends
    obtain ⟨ends, left⟩ := matched.closed ends
    have left := left.resolve_left some
    rw [closed left, segments]
    exact ⟨ends, Or.inr left⟩
  -- Stars of its own are merged with those of the prefix; without any, the prefix takes the empty block.
  · by_cases stars : ((Path.segments cs).map Segment.ofChars).head? = Option.some .anyDepth
    · obtain ⟨rest, eq⟩ := List.head?_eq_some_iff.mp stars
      rw [eq] at cuts ⊢
      rwa [merged]
    · rw [merged_anyDepth stars]
      exact (cuts_cons _ _ some _).mpr ⟨[], _, rfl, by simp [Segment.Takes], cuts⟩

end Pattern

theorem matchesPath_anywhere_of_alone {alternative : String} (text : '\x7b' ∉ alternative.toList)
    (direct : ¬ ['.', '/'] <+: alternative.toList) (named : ∃ c ∈ alternative.toList, c ≠ '/')
    {path : String} (alone : matchesPath alternative path = .ok true) :
    matchesPath ("**/" ++ alternative) path = .ok true := by
  have relative := Route.relative_dropSlashes path.toList
  have some := (Path.segments_ne_nil_iff _).mpr named
  rw [matchesPath_text text, Except.ok.injEq, Pattern.matchesRoute_iff, anchor_of_direct direct] at alone
  rw [matchesPath_anywhere text, Except.ok.injEq, Pattern.matchesRoute_iff]
  split at alone
  · next anchored =>
    by_cases root : alternative.toList.head? = Option.some '/'
    · rw [subject, if_pos root] at alone
      refine alone.anywhere some relative (Route.segments_dropSlashes _) ?_
      exact fun left => Route.closed_dropSlashes left
    · rw [subject_of_free root] at alone
      exact alone.anywhere some relative rfl fun _ => rfl
  · rwa [subject_of_free (by simp [anywhere])] at alone

/-- Two alternatives in braces match what either of them matches at any depth. One that stands free matches
the same alone, and one that is no `./` and no root alone never matches more alone than in the braces. -/
theorem alternatives_at_any_depth {first second : String} (plainFirst : ∀ c ∈ first.toList, c ∉ structural)
    (plainSecond : ∀ c ∈ second.toList, c ∉ structural) (path : String) :
    ∃ inFirst inSecond,
      matchesPath ("**/" ++ first) path = .ok inFirst ∧
      matchesPath ("**/" ++ second) path = .ok inSecond ∧
      matchesPath (either first second) path = .ok (inFirst || inSecond) ∧
      ∀ alternative ∈ [first, second],
        (StandsFree alternative.toList →
          matchesPath alternative path = matchesPath ("**/" ++ alternative) path) ∧
        (¬ ['.', '/'] <+: alternative.toList → (∃ c ∈ alternative.toList, c ≠ '/') →
          matchesPath alternative path = .ok true → matchesPath ("**/" ++ alternative) path = .ok true) := by
  have text : ∀ alternative ∈ [first, second], '\x7b' ∉ alternative.toList := by
    intro alternative member brace
    simp only [List.mem_cons, List.not_mem_nil, or_false] at member
    rcases member with rfl | rfl
    · exact plainFirst _ brace (by decide)
    · exact plainSecond _ brace (by decide)
  refine ⟨_, _, matchesPath_anywhere (text first (by simp)) path,
    matchesPath_anywhere (text second (by simp)) path, ?_, ?_⟩
  · have subject := @subject_of_free
      ⟨anywhere ++ eitherOf first.toList second.toList,
        [Pattern.ofChars (anywhere ++ first.toList), Pattern.ofChars (anywhere ++ second.toList)]⟩
      (by simp [anywhere]) path
    rw [matchesPath, compile_either plainFirst plainSecond]
    simp only [bind, Except.bind, pure, Except.pure, includes, subject, List.any_cons, List.any_nil,
      Bool.or_false]
  · intro alternative member
    constructor
    · intro stands
      exact matchesPath_of_standsFree (text alternative member) stands path
    · intro direct named alone
      exact matchesPath_anywhere_of_alone (text alternative member) direct named alone

/-- A root in the braces is found at any depth. -/
theorem root_alternative_at_any_depth :
    ∃ inFirst inSecond,
      matchesPath ("**/" ++ "*.ts") "/proj/lib/a.js" = .ok inFirst ∧
      matchesPath ("**/" ++ "/lib/**") "/proj/lib/a.js" = .ok inSecond ∧
      matchesPath (either "*.ts" "/lib/**") "/proj/lib/a.js" = .ok (inFirst || inSecond) ∧
      inFirst = false ∧ inSecond = true := by
  have plainFirst : ∀ c ∈ "*.ts".toList, c ∉ structural := by simp [structural]
  have plainSecond : ∀ c ∈ "/lib/**".toList, c ∉ structural := by simp [structural]
  obtain ⟨inFirst, inSecond, runFirst, runSecond, run, _⟩ :=
    alternatives_at_any_depth plainFirst plainSecond "/proj/lib/a.js"
  have no : (matchesPath ("**/" ++ "*.ts") "/proj/lib/a.js").toOption = some false := by decide +kernel
  have yes : (matchesPath ("**/" ++ "/lib/**") "/proj/lib/a.js").toOption = some true := by decide +kernel
  rw [runFirst] at no
  rw [runSecond] at yes
  exact ⟨inFirst, inSecond, runFirst, runSecond, run, Option.some.inj no, Option.some.inj yes⟩

/-- An alternative at the root, one with `./` and one with two stars before a letter: each means something
else alone than in braces. -/
theorem alternatives_differ_alone :
    ((matchesPath (either "/a" "b") "/x/a").toOption = some true ∧
      (matchesPath "/a" "/x/a").toOption = some false ∧ (matchesPath "b" "/x/a").toOption = some false) ∧
    ((matchesPath (either "./a" "b") "/a").toOption = some false ∧
      (matchesPath "./a" "/a").toOption = some true) ∧
    ((matchesPath (either "**a" "b") "/x/a").toOption = some true ∧
      (matchesPath "**a" "/x/a").toOption = some false ∧ (matchesPath "b" "/x/a").toOption = some false) := by
  decide +kernel

end CheckCost.Glob
