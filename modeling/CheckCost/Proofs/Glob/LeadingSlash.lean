import CheckCost.Proofs.Glob.Relative

/-!
Slashes and `./` at the start. To a relative pattern a slash before the path does not matter, and `./` before
the pattern matters to no pattern. But a slash behind `./` is taken for the root.
-/
namespace CheckCost.Glob

/-- A slash, or some `./` and then a slash. -/
inductive IsRooted : List Char → Prop where
  | slash (rest : List Char) : IsRooted ('/' :: rest)
  | here {rest : List Char} : IsRooted rest → IsRooted ('.' :: '/' :: rest)

theorem isRooted_iff (cs : List Char) : IsRooted cs ↔ (withoutHere cs).head? = some '/' := by
  fun_induction withoutHere cs with
  | case1 rest ih =>
    rw [← ih]
    constructor
    · intro rooted
      cases rooted with
      | here rooted => exact rooted
    · exact .here
  | case2 cs other =>
    constructor
    · intro rooted
      cases rooted with
      | slash rest => rfl
      | here => exact absurd rfl (other _)
    · intro slash
      obtain ⟨rest, rfl⟩ := List.head?_eq_some_iff.mp slash
      exact .slash rest

theorem head?_anchor (pattern : List Char) : (anchor pattern).head? = some '/' ↔ IsRooted pattern := by
  rw [isRooted_iff, anchor_eq]
  split
  · rfl
  · next free =>
    constructor
    · intro slash
      simp [anywhere] at slash
    · intro slash
      obtain ⟨rest, eq⟩ := List.head?_eq_some_iff.mp slash
      exact absurd (Or.inl ⟨rest, eq.symm⟩) free

theorem anchored_of_compile {pattern : String} {glob : Glob} (compiled : compile pattern = .ok glob) :
    glob = ⟨anchor pattern.toList, (expansions (anchor pattern.toList)).map Pattern.ofChars⟩ := by
  by_cases few : (expansionsWithin (withoutHere pattern.toList)).length ≤ expansionLimit
  · rw [compile_ok few] at compiled
    exact (Except.ok.inj compiled).symm
  · rw [compile_error (Nat.not_le.mp few)] at compiled
    cases compiled

theorem matchesPath_toOption (pattern path : String) :
    (matchesPath pattern path).toOption = (compile pattern).toOption.map fun glob => glob.includes path := by
  unfold matchesPath
  cases compile pattern <;> rfl

theorem compile_here (pattern : String) : (compile ("./" ++ pattern)).toOption = (compile pattern).toOption := by
  have same : anchor ("./" ++ pattern).toList = anchor pattern.toList := by
    rw [String.toList_append]
    rfl
  unfold compile
  rw [same]
  dsimp only
  split <;> rfl

/-- A pattern that is not from the root does not see the slash before a path. -/
theorem includes_slash_of_free {glob : Glob} (free : glob.anchored.head? ≠ some '/') (path : String) :
    glob.includes ("/" ++ path) = glob.includes path := by
  have same : glob.subject ("/" ++ path) = glob.subject path := by
    rw [subject_of_free free, subject_of_free free, String.toList_append]
    rfl
  rw [includes, same, includes]

/-- Two slashes at the start of a path are one. -/
theorem includes_slash_of_slash (glob : Glob) {path : String} (slash : ['/'] <+: path.toList) :
    glob.includes ("/" ++ path) = glob.includes path := by
  by_cases free : glob.anchored.head? = some '/'
  · obtain ⟨rest, eq⟩ := slash
    have same : Route.ofChars ('/' :: path.toList) = Route.ofChars path.toList := by
      rw [← eq]
      simp [Route.ofChars, Path.segments, Path.segmentsFrom, Path.part]
    have subjects (path : String) : glob.subject path = path.toList := if_pos free
    rw [includes, includes, subjects, subjects, String.toList_append]
    change (glob.patterns.any fun pattern => pattern.matchesRoute (Route.ofChars ('/' :: path.toList))) = _
    rw [same]
  · exact includes_slash_of_free free path

/-- All expansions of a pattern from the root are from the root. -/
theorem absolute_of_rooted {pattern : List Char} (rooted : IsRooted pattern) :
    ∀ expansion ∈ expansions (anchor pattern), (Pattern.ofChars expansion).absolute = true := by
  obtain ⟨rest, eq⟩ := List.head?_eq_some_iff.mp ((head?_anchor pattern).mpr rooted)
  have slash : '/' ∉ structural := by decide
  rw [eq, expansions_eq (by simp), expansionsWithin_plain slash]
  intro expansion member
  obtain ⟨tail, _, rfl⟩ := List.mem_map.mp member
  rfl

theorem includes_of_rooted {pattern path : String} {glob : Glob} (compiled : compile pattern = .ok glob)
    (rooted : IsRooted pattern.toList) (free : ¬ ['/'] <+: path.toList) : glob.includes path = false := by
  have shape := anchored_of_compile compiled
  have subject : glob.subject path = path.toList := by
    refine if_pos ?_
    rw [shape]
    exact (head?_anchor _).mpr rooted
  have relative : (Route.ofChars path.toList).absolute = false := by
    simp only [Route.ofChars, decide_eq_false_iff_not]
    intro slash
    obtain ⟨rest, eq⟩ := List.head?_eq_some_iff.mp slash
    exact free ⟨rest, eq.symm⟩
  rw [← Bool.not_eq_true, includes_iff, subject]
  intro includes
  obtain ⟨candidate, member, found⟩ := includes
  rw [Pattern.matchesRoute_iff] at found
  rw [shape] at member
  obtain ⟨expansion, inside, rfl⟩ := List.mem_map.mp member
  have absolute := found.rooted (absolute_of_rooted rooted expansion inside)
  rw [relative] at absolute
  cases absolute

/-- With `./` in front a pattern stays the same. With a slash in front a path stays the same to a pattern
unless the pattern has a slash, perhaps behind some `./`, and the path has none: then the pattern cannot
match the path, but may match it with the slash. -/
theorem slash_matters_iff (pattern path : String) :
    (matchesPath ("./" ++ pattern) path).toOption = (matchesPath pattern path).toOption ∧
    (matchesPath pattern ("/" ++ path) = matchesPath pattern path ↔
      ¬ (IsRooted pattern.toList ∧ ¬ ['/'] <+: path.toList ∧
        matchesPath pattern ("/" ++ path) = .ok true)) := by
  constructor
  · rw [matchesPath_toOption, matchesPath_toOption, compile_here]
  · cases compiled : compile pattern with
    | error fault => simp [matchesPath, compiled, bind, Except.bind]
    | ok glob =>
      have answers (path : String) : matchesPath pattern path = .ok (glob.includes path) := by
        rw [matchesPath, compiled]
        rfl
      rw [answers, answers, Except.ok.injEq, Except.ok.injEq]
      by_cases rooted : IsRooted pattern.toList
      · by_cases slash : ['/'] <+: path.toList
        · simp [includes_slash_of_slash glob slash, slash]
        · simp [includes_of_rooted compiled rooted slash, rooted, slash]
      · have free : glob.anchored.head? ≠ some '/' := by
          rw [anchored_of_compile compiled]
          exact mt (head?_anchor _).mp rooted
        simp [includes_slash_of_free free, rooted]

/-- A pattern without a slash at its start that is taken for one from the root. -/
theorem root_behind_here :
    let pattern := ".//src"
    ¬ ['/'] <+: pattern.toList ∧ IsRooted pattern.toList ∧
    (matchesPath pattern "src").toOption = some false ∧
    (matchesPath pattern ("/" ++ "src")).toOption = some true ∧
    matchesPath pattern ("/" ++ "src") ≠ matchesPath pattern "src" := by
  have without : (matchesPath ".//src" "src").toOption = some false := by decide +kernel
  have within : (matchesPath ".//src" ("/" ++ "src")).toOption = some true := by decide +kernel
  refine ⟨by decide, .here (.slash _), without, within, ?_⟩
  intro same
  rw [same, without] at within
  cases within

end CheckCost.Glob
