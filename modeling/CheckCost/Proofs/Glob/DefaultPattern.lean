import CheckCost.Proofs.Outcome
import CheckCost.Report.Assembly

/-!
What the default pattern keeps. It was meant to keep every file, but two stars leave out no segment of dots
and a star matches none, so a path that makes a detour is not kept, and neither is one made of slashes.
-/
namespace CheckCost

open Outcome

namespace Path

theorem segmentsFrom_slashes (cs : List Char) (slashes : ∀ c ∈ cs, c = '/') : segmentsFrom [] cs = [] := by
  induction cs with
  | nil => rfl
  | cons c rest ih =>
    rw [segmentsFrom, if_pos (slashes c (List.mem_cons_self ..))]
    exact ih fun d member => slashes d (List.mem_cons_of_mem c member)

theorem segmentsFrom_ne_nil_of_collected {collected : List Char} (some : collected ≠ []) (cs : List Char) :
    segmentsFrom collected cs ≠ [] := by
  induction cs generalizing collected with
  | nil => simp [segmentsFrom, part, some]
  | cons c rest ih =>
    unfold segmentsFrom
    split
    · simp [part, some]
    · exact ih (List.cons_ne_nil c collected)

/-- A path has a segment unless it is made of slashes. -/
theorem segments_ne_nil_iff (cs : List Char) : segments cs ≠ [] ↔ ∃ c ∈ cs, c ≠ '/' := by
  constructor
  · intro some
    by_contra none
    push Not at none
    exact some (segmentsFrom_slashes cs none)
  · rintro ⟨c, member, other⟩
    unfold segments
    induction cs with
    | nil => cases member
    | cons d rest ih =>
      unfold segmentsFrom
      split
      · rename_i slash
        rcases List.mem_cons.mp member with rfl | later
        · exact absurd slash other
        · exact ih later
      · exact segmentsFrom_ne_nil_of_collected (List.cons_ne_nil d []) rest

theorem segments_dropSlashes (cs : List Char) : segments (cs.dropWhile (· = '/')) = segments cs := by
  induction cs with
  | nil => rfl
  | cons c rest ih =>
    by_cases slash : c = '/'
    · rw [List.dropWhile_cons_of_pos (by simpa using slash), ih]
      simp [segments, segmentsFrom, part, slash]
    · rw [List.dropWhile_cons_of_neg (by simpa using slash)]

/-- The path has a segment, and none of its segments stands for a directory itself or the one above. -/
structure IsDirect (path : String) : Prop where
  named : ∃ c ∈ path.toList, c ≠ '/'
  forward : ∀ segment ∈ segments path.toList, segment ≠ here ∧ segment ≠ above

instance (path : String) : Decidable (IsDirect path) :=
  -- by the members of the list, never by all characters
  have : Decidable (∃ c ∈ path.toList, c ≠ '/') := List.decidableBEx _ path.toList
  decidable_of_iff ((∃ c ∈ path.toList, c ≠ '/') ∧
      ∀ segment ∈ segments path.toList, segment ≠ here ∧ segment ≠ above)
    ⟨fun ⟨named, forward⟩ => ⟨named, forward⟩, fun direct => ⟨direct.named, direct.forward⟩⟩

theorem isDots_eq_false_iff (segment : List Char) :
    isDots segment = false ↔ segment ≠ here ∧ segment ≠ above := by
  simp [isDots, here, above]

end Path

namespace Glob

namespace Pattern

/-- What is skipped is a beginning of the path without segments of dots. -/
theorem afterSkipping_iff (rest : List (List Char) → Bool) (segments : List (List Char)) :
    afterSkipping rest segments = true ↔
      ∃ before after, segments = before ++ after ∧
        (∀ segment ∈ before, Path.isDots segment = false) ∧ rest after = true := by
  induction segments with
  | nil => simp [afterSkipping]
  | cons segment more ih =>
    rw [afterSkipping, Bool.or_eq_true, Bool.and_eq_true, Bool.not_eq_true', ih]
    constructor
    · rintro (now | ⟨plain, before, after, rfl, skipped, later⟩)
      · exact ⟨[], segment :: more, rfl, by simp, now⟩
      · refine ⟨segment :: before, after, rfl, ?_, later⟩
        rw [List.forall_mem_cons]
        exact ⟨plain, skipped⟩
    · rintro ⟨before, after, eq, skipped, fits⟩
      cases before with
      | nil =>
        cases eq
        exact Or.inl fits
      | cons first before =>
        cases eq
        rw [List.forall_mem_cons] at skipped
        exact Or.inr ⟨skipped.1, before, after, rfl, skipped.2, fits⟩

/-- The star of a pattern is read as a run with nothing after it. -/
theorem star_accepts (cs : List Char) : (Wild.seq .run .empty).accepts cs = true := by
  induction cs with
  | nil => rfl
  | cons c rest ih =>
    have again : (Wild.seq .run .empty).derive c = .seq .run .empty := by
      simp [Wild.derive, Wild.run, Wild.nullable, Wild.concat, Wild.union, CharSet.contains_any]
    rw [Wild.accepts, again, ih]

theorem fits_star_iff (slash : Bool) (segments : List (List Char)) :
    fits slash [.named true (.seq .run .empty)] segments = true ↔
      ∃ segment, segments = [segment] ∧ Path.isDots segment = false := by
  cases segments with
  | nil => simp [fits]
  | cons segment more => cases more <;> simp [fits, star_accepts]

/-- Segments without dots in front of one more are segments without dots, of which there is one at least. -/
theorem fits_stars_iff (slash : Bool) (segments : List (List Char)) :
    fits slash [.anyDepth, .named true (.seq .run .empty)] segments = true ↔
      segments ≠ [] ∧ ∀ segment ∈ segments, Path.isDots segment = false := by
  rw [fits, afterSkipping_iff]
  · simp only [fits_star_iff]
    constructor
    · rintro ⟨before, _, rfl, skipped, last, rfl, plain⟩
      refine ⟨by simp, ?_⟩
      intro segment member
      rcases List.mem_append.mp member with early | late
      · exact skipped segment early
      · rw [List.mem_singleton.mp late]
        exact plain
    · rintro ⟨some, plain⟩
      refine ⟨segments.dropLast, [segments.getLast some], (List.dropLast_append_getLast some).symm, ?_,
        segments.getLast some, rfl, plain _ (List.getLast_mem some)⟩
      intro segment early
      exact plain segment (List.dropLast_subset segments early)
  · intro none
    cases none

end Pattern

/-- Some segments, and one more. -/
def atAnyDepth : Glob :=
  ⟨['*', '*', '/', '*'], [⟨false, [.anyDepth, .named true (.seq .run .empty)], false⟩]⟩

theorem compile_stars : compile "**/*" = .ok atAnyDepth := rfl

theorem Route.relative_dropSlashes (cs : List Char) :
    (Route.ofChars (cs.dropWhile (· = '/'))).absolute = false := by
  have stays := List.head?_dropWhile_not (· = '/') cs
  unfold ofChars
  rw [decide_eq_false_iff_not]
  intro slash
  simp [slash] at stays

theorem atAnyDepth_includes_iff (path : String) : atAnyDepth.includes path = true ↔ Path.IsDirect path := by
  have relative := Route.relative_dropSlashes path.toList
  have segments : (Route.ofChars (path.toList.dropWhile (· = '/'))).segments = Path.segments path.toList :=
    Path.segments_dropSlashes path.toList
  have subject : atAnyDepth.subject path = path.toList.dropWhile (· = '/') := rfl
  unfold includes
  rw [subject]
  generalize Route.ofChars (path.toList.dropWhile (· = '/')) = route at relative segments ⊢
  have fits : atAnyDepth.patterns.any (fun pattern => pattern.matchesRoute route) =
      Pattern.fits (route.segments.isEmpty || route.closed)
        [.anyDepth, .named true (.seq .run .empty)] route.segments := by
    simp [atAnyDepth, Pattern.matchesRoute, Pattern.sameStart, Pattern.sameEnd, relative]
  rw [fits, Pattern.fits_stars_iff, segments, Path.segments_ne_nil_iff]
  simp only [Path.isDots_eq_false_iff]
  exact ⟨fun ⟨named, forward⟩ => ⟨named, forward⟩, fun direct => ⟨direct.named, direct.forward⟩⟩

theorem atAnyDepth_filter (metrics : List (Metric D)) :
    atAnyDepth.filter metrics = metrics.filter fun metric => Path.IsDirect metric.path := by
  unfold filter
  refine List.filter_congr ?_
  intro metric _
  rw [Bool.eq_iff_iff, atAnyDepth_includes_iff, decide_eq_true_iff]

/-- Of any metrics the default pattern keeps those with direct paths, so it keeps all of them exactly if
every path is direct. -/
theorem default_keeps_all_iff (metrics : List (Metric D)) :
    ∃ glob, compile "**/*" = .ok glob ∧
      glob.filter metrics = metrics.filter (fun metric => Path.IsDirect metric.path) ∧
      (glob.filter metrics = metrics ↔ ∀ metric ∈ metrics, Path.IsDirect metric.path) := by
  refine ⟨atAnyDepth, compile_stars, atAnyDepth_filter metrics, ?_⟩
  rw [atAnyDepth_filter, List.filter_eq_self]
  simp only [decide_eq_true_iff]

end Glob

/-- A checked type whose path goes up from a directory that it went down to. -/
def Inputs.detour : Inputs where
  trace :=
    [.obj [("cat", .str "check"), ("name", .str "structuredTypeRelatedTo"), ("dur", .int 5),
      ("args", .obj [("sourceId", .int 1)])]]
  types :=
    [.obj [("id", .int 1), ("symbolName", .str "A"),
      ("firstDeclaration", .obj [("path", .str "/src/../a.ts")])]]
  warnings := []

/-- The default pattern drops the only metric of a trace and a catalog. -/
theorem Glob.default_drops_detour :
    ∃ (metrics : List (Metric Float)) (glob : Glob),
      Inputs.detour.metrics .structural "/node_modules" = .ok metrics ∧ compile "**/*" = .ok glob ∧
        metrics.map Metric.path = ["/src/../a.ts"] ∧ glob.filter metrics = [] ∧
          glob.filter metrics ≠ metrics := by
  have shown : (Inputs.detour.metrics (D := Float) .structural "/node_modules").toOption.map
      (List.map Metric.path) = some ["/src/../a.ts"] := by decide +kernel
  obtain ⟨metrics, run, paths⟩ := ok_of_toOption shown
  have none : atAnyDepth.filter metrics = [] := by
    rw [atAnyDepth_filter, List.filter_eq_nil_iff]
    intro metric member
    have path : metric.path = "/src/../a.ts" := by
      rw [← List.mem_singleton, ← paths]
      exact List.mem_map_of_mem member
    rw [path]
    decide +kernel
  refine ⟨metrics, atAnyDepth, run, compile_stars, paths, none, ?_⟩
  rw [none]
  rintro rfl
  cases paths

end CheckCost
