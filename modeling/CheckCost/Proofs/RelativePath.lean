import CheckCost.Report.Text
import Mathlib.Data.List.Induction
import Mathlib.Data.List.TakeWhile

/-!
Paths as a report shows them. What is printed is the way from the base directory to the file, up to the last
directory that both have in common and down from there; taken from the base directory it leads to the file.
-/
namespace CheckCost.Path

/-! Places. -/

/-- One step of a way, from a place given by its parts. -/
def enter (place : List (List Char)) (part : List Char) : List (List Char) :=
  if part = [] ∨ part = here then place
  else if part = above then place.dropLast
  else place ++ [part]

/-- Where a text leads from a place: part by part between its slashes, from the root if it starts with one. -/
def arrive (place : List (List Char)) (text : List Char) : List (List Char) :=
  (text.splitOn '/').foldl enter (if text.head? = some '/' then [] else place)

/-- How many parts two places have in common from the root on. -/
def shared (start goal : List (List Char)) : Nat :=
  ((start.zip goal).takeWhile fun parts => parts.1 = parts.2).length

/-- The steps up and down that lead from one place to the other. -/
def steps (start goal : List (List Char)) : List (List Char) :=
  List.replicate (start.length - shared start goal) above ++ goal.drop (shared start goal)

/-- The same steps, or the place itself if there are none. -/
def stepsShown (start goal : List (List Char)) : List (List Char) :=
  if steps start goal = [] then [here] else steps start goal

/-- The way from one place to the other, as a text. -/
def way (start goal : List (List Char)) : List Char := ['/'].intercalate (stepsShown start goal)

/-- What a place can be called inside its directory. -/
structure IsName (part : List Char) : Prop where
  filled : part ≠ []
  other : part ≠ here
  below : part ≠ above
  whole : '/' ∉ part

/-! Reading a path and following it is the same. -/

theorem segmentsFrom_eq (collected cs : List Char) :
    segmentsFrom collected cs = (List.splitOnPPrepend (· == '/') cs collected).filter (· ≠ []) := by
  induction cs generalizing collected with
  | nil => cases collected <;> simp [segmentsFrom, part, List.splitOnPPrepend]
  | cons c rest ih =>
    by_cases slash : c = '/'
    · cases collected <;> simp [segmentsFrom, part, List.splitOnPPrepend, slash, ih]
    · simp [segmentsFrom, List.splitOnPPrepend, slash, ih]

theorem not_mem_of_mem_splitOn {part cs : List Char} (member : part ∈ cs.splitOn '/') : '/' ∉ part := by
  have free : ∀ (cs collected : List Char), '/' ∉ collected →
      ∀ part ∈ List.splitOnPPrepend (· == '/') cs collected, '/' ∉ part := by
    intro cs
    induction cs with
    | nil => intro collected free; simpa [List.splitOnPPrepend] using free
    | cons c rest ih =>
      intro collected free
      by_cases slash : c = '/'
      · simpa [List.splitOnPPrepend, slash, free] using ih [] List.not_mem_nil
      · simpa [List.splitOnPPrepend, slash] using ih (c :: collected) (by simp [free, Ne.symm slash])
  exact free cs [] List.not_mem_nil part member

theorem foldl_enter_parts (text : String) (place : List (List Char)) :
    (ofString text).parts.foldl enter place = (text.toList.splitOn '/').foldl enter place := by
  have parts : (ofString text).parts = ((text.toList.splitOn '/').filter (· ≠ [])).filter (· ≠ here) :=
    congrArg (List.filter (· ≠ here)) (segmentsFrom_eq [] text.toList)
  rw [parts, List.filter_filter, List.foldl_filter]
  congr
  funext place part
  simp only [enter]
  grind

theorem foldl_step {parts : List (List Char)} (proper : ∀ part ∈ parts, part ≠ [] ∧ part ≠ here)
    (down : List (List Char)) : (parts.foldl step down).reverse = parts.foldl enter down.reverse := by
  induction parts generalizing down with
  | nil => rfl
  | cons part rest ih =>
    obtain ⟨first, later⟩ := List.forall_mem_cons.mp proper
    rw [List.foldl_cons, List.foldl_cons, ih later]
    congr
    have proper : ¬(part = [] ∨ part = here) := not_or.mpr first
    rw [step, enter, if_neg proper]
    split <;> simp

theorem proper_parts (text : String) : ∀ part ∈ (ofString text).parts, part ≠ [] ∧ part ≠ here := by
  intro part member
  obtain ⟨segment, other⟩ := List.mem_filter.mp member
  exact ⟨segments_ne_nil _ _ segment, by simpa using other⟩

theorem isAbsolute_ofString (text : String) :
    (ofString text).isAbsolute = true ↔ text.toList.head? = some '/' := by
  unfold isAbsolute ofString slashesOf
  cases text.toList with
  | nil => simp
  | cons c rest =>
    by_cases slash : c = '/'
    · simp only [slash, decide_true, List.takeWhile_cons_of_pos, List.length_cons, List.head?_cons, iff_true]
      split <;> simp
    · simp [slash]

theorem settled_eq_arrive (working text : String) :
    settled (ofString working) (ofString text) = arrive (arrive [] working.toList) text.toList := by
  have base : (ofString working).parts.foldl enter [] = arrive [] working.toList := by
    rw [foldl_enter_parts, arrive, ite_self]
  unfold settled settle join
  by_cases absolute : (ofString text).isAbsolute = true
  · rw [if_pos absolute, foldl_step (proper_parts text), List.reverse_nil, foldl_enter_parts, arrive,
      if_pos ((isAbsolute_ofString text).mp absolute)]
  · have proper : ∀ part ∈ (ofString working).parts ++ (ofString text).parts, part ≠ [] ∧ part ≠ here :=
      List.forall_mem_append.mpr ⟨proper_parts working, proper_parts text⟩
    rw [if_neg absolute, foldl_step proper, List.foldl_append, List.reverse_nil, base, foldl_enter_parts]
    exact congrArg (List.foldl enter · _) (if_neg (absolute ∘ (isAbsolute_ofString text).mpr)).symm

theorem isName_of_mem_enter {place : List (List Char)} {part : List Char} (named : ∀ name ∈ place, IsName name)
    (whole : '/' ∉ part) : ∀ name ∈ enter place part, IsName name := by
  intro name member
  unfold enter at member
  split at member
  · exact named name member
  · next proper =>
    rw [not_or] at proper
    split at member
    · exact named name (List.dropLast_subset place member)
    · next below =>
      rcases List.mem_append.mp member with known | new
      · exact named name known
      · cases List.mem_singleton.mp new
        exact ⟨proper.1, proper.2, below, whole⟩

theorem isName_of_mem_arrive {place : List (List Char)} (named : ∀ name ∈ place, IsName name) (text : List Char) :
    ∀ name ∈ arrive place text, IsName name := by
  unfold arrive
  have start : ∀ name ∈ if text.head? = some '/' then [] else place, IsName name := by
    split
    · exact fun _ member => absurd member List.not_mem_nil
    · exact named
  have whole : ∀ part ∈ text.splitOn '/', '/' ∉ part := fun _ => not_mem_of_mem_splitOn
  generalize text.splitOn '/' = parts at whole ⊢
  induction parts using List.reverseRecOn with
  | nil => exact start
  | append_singleton parts part ih =>
    rw [List.foldl_append]
    exact isName_of_mem_enter (ih fun part member => whole part (List.mem_append_left _ member))
      (whole part (List.mem_append_right _ (List.mem_singleton_self part)))

/-! The way between two places. -/

theorem shared_cons (part next : List Char) (start goal : List (List Char)) :
    shared (part :: start) (next :: goal) = if part = next then shared start goal + 1 else 0 := by
  unfold shared
  rw [List.zip_cons_cons, List.takeWhile_cons]
  by_cases same : part = next <;> simp [same]

theorem route_eq_steps (start goal : List (List Char)) : route start goal = steps start goal := by
  fun_induction route start goal with
  | case1 start next goal ih => simp [steps, shared_cons, ih]
  | case2 part start next goal differ => simp [steps, shared_cons, differ]
  | case3 start goal apart =>
    have none : shared start goal = 0 := by
      unfold shared
      cases start with
      | nil => rfl
      | cons part rest =>
        cases goal with
        | nil => rfl
        | cons next others => exact absurd rfl (apart part rest next others rfl)
    simp [steps, none]

theorem take_shared (start goal : List (List Char)) :
    start.take (shared start goal) = goal.take (shared start goal) := by
  induction start generalizing goal with
  | nil => simp [shared]
  | cons part rest ih =>
    cases goal with
    | nil => simp [shared]
    | cons next others =>
      rw [shared_cons]
      split
      · next same => rw [List.take_succ_cons, List.take_succ_cons, ih, same]
      · rfl

theorem foldl_enter_above (place : List (List Char)) (n : Nat) :
    (List.replicate n above).foldl enter place = place.take (place.length - n) := by
  induction n generalizing place with
  | zero => simp
  | succ n ih =>
    have up : enter place above = place.dropLast := if_neg (by decide)
    rw [List.replicate_succ, List.foldl_cons, up, ih, List.dropLast_eq_take, List.take_take, List.length_take]
    congr 1
    omega

theorem foldl_enter_names {down : List (List Char)} (named : ∀ name ∈ down, IsName name)
    (place : List (List Char)) : down.foldl enter place = place ++ down := by
  induction down generalizing place with
  | nil => simp
  | cons name rest ih =>
    obtain ⟨first, later⟩ := List.forall_mem_cons.mp named
    rw [List.foldl_cons, ih later]
    simp [enter, first.filled, first.other, first.below]

theorem foldl_enter_steps {start goal : List (List Char)} (named : ∀ name ∈ goal, IsName name) :
    (steps start goal).foldl enter start = goal := by
  have down : ∀ name ∈ goal.drop (shared start goal), IsName name :=
    fun name member => named name (List.mem_of_mem_drop member)
  have fits : shared start goal ≤ start.length := by
    calc shared start goal
      _ ≤ (start.zip goal).length := (List.takeWhile_sublist _).length_le
      _ ≤ start.length := List.length_zip ▸ min_le_left ..
  rw [steps, List.foldl_append, foldl_enter_above, foldl_enter_names down, Nat.sub_sub_self fits, take_shared,
    List.take_append_drop]

theorem stepsShown_ne_nil (start goal : List (List Char)) : stepsShown start goal ≠ [] := by
  unfold stepsShown
  split
  · decide
  · assumption

theorem mem_stepsShown {start goal : List (List Char)} (named : ∀ name ∈ goal, IsName name) {part : List Char}
    (member : part ∈ stepsShown start goal) : part ≠ [] ∧ '/' ∉ part := by
  unfold stepsShown at member
  split at member
  · rw [List.mem_singleton.mp member]
    decide
  · rcases List.mem_append.mp member with up | down
    · rw [List.eq_of_mem_replicate up]
      decide
    · have name := named part (List.mem_of_mem_drop down)
      exact ⟨name.filled, name.whole⟩

theorem splitOn_way {start goal : List (List Char)} (named : ∀ name ∈ goal, IsName name) :
    (way start goal).splitOn '/' = stepsShown start goal :=
  List.splitOn_intercalate '/' (fun _ member => (mem_stepsShown named member).2) (stepsShown_ne_nil start goal)

theorem arrive_way {start goal : List (List Char)} (named : ∀ name ∈ goal, IsName name) :
    arrive start (way start goal) = goal := by
  have relative : (way start goal).head? ≠ some '/' := by
    -- a text that starts with a slash has an empty part before it
    intro rooted
    obtain ⟨rest, text⟩ := List.head?_eq_some_iff.mp rooted
    have first : [] ∈ stepsShown start goal := by
      rw [← splitOn_way named, text, List.splitOn, List.splitOnP_cons_eq_if_modifyHead]
      simp
    exact (mem_stepsShown named first).1 rfl
  have stays : (steps start goal).foldl enter start = goal := foldl_enter_steps named
  rw [arrive, if_neg relative, splitOn_way named, stepsShown]
  split
  · next none =>
    rw [none] at stays
    exact stays
  · exact stays

theorem flatMap_dropLast {parts : List (List Char)} (some : parts ≠ []) :
    parts.dropLast.flatMap (fun part => part ++ ['/']) ++ parts.getLast some = ['/'].intercalate parts := by
  induction parts with
  | nil => contradiction
  | cons part rest ih =>
    cases rest with
    | nil => simp
    | cons next others =>
      have more : next :: others ≠ [] := by simp
      rw [List.dropLast_cons_of_ne_nil more, List.flatMap_cons, List.append_assoc, List.getLast_cons more, ih more]
      simp [List.intercalate_cons_cons]

end CheckCost.Path

namespace CheckCost.Report

open CheckCost.Path CheckCost.Text

theorem file_eq {path : String} (named : path ≠ "") (working base : Path) :
    file working base path =
      let shown := stepsShown (settled working base) (settled working (.ofString path))
      String.ofList (shown.dropLast.flatMap fun part => part ++ ['/']) ++
        styled none [.bold, .underline] (String.ofList (shown.getLast (stepsShown_ne_nil _ _))) := by
  have filled : path.isEmpty = false := by simpa using named
  have last (parts : List (List Char)) (some : parts ≠ []) : parts.getLast some = parts.getLast?.getD [] := by
    rw [List.getLast?_eq_some_getLast some, Option.getD_some]
  simp only [file, filled, relative, Bool.false_eq_true, if_false, route_eq_steps, last, stepsShown]
  cases steps (settled working base) (settled working (.ofString path)) <;> rfl

theorem styled_eq_codes (text : String) :
    styled none [.bold, .underline] text = "\x1b[1m\x1b[4m" ++ text ++ "\x1b[0m" := by
  have codes : String.join ([Emphasis.bold, .underline].map fun emphasis => styleCode emphasis.code) =
      "\x1b[1m\x1b[4m" := by decide
  have reset : resetCode = "\x1b[0m" := by decide
  rw [← codes, ← reset]
  rfl

/-- What is printed of a path, its two codes and the reset apart, is the way from the base directory to the file, and this text leads
from the base directory to the file. The styled part is the last one of the text. -/
theorem file_leads_back (working base path : String) (named : path ≠ "") :
    let root := arrive [] working.toList
    let start := arrive root base.toList
    let goal := arrive root path.toList
    ∃ front last : List Char,
      file (.ofString working) (.ofString base) path =
        String.ofList front ++ "\x1b[1m\x1b[4m" ++ String.ofList last ++ "\x1b[0m" ∧
      front ++ last = way start goal ∧
      arrive start (front ++ last) = goal ∧
      ((front ++ last).splitOn '/').getLast? = some last ∧
      '/' ∉ last := by
  intro root start goal
  have names : ∀ name ∈ goal, IsName name :=
    isName_of_mem_arrive (isName_of_mem_arrive (fun _ member => absurd member List.not_mem_nil) _) _
  have some := stepsShown_ne_nil start goal
  let front := (stepsShown start goal).dropLast.flatMap fun part => part ++ ['/']
  let last := (stepsShown start goal).getLast some
  have text : front ++ last = way start goal := flatMap_dropLast some
  have final : ((way start goal).splitOn '/').getLast? = Option.some last := by
    rw [splitOn_way names]
    exact List.getLast?_eq_some_getLast some
  refine ⟨front, last, ?shown, text, ?back, ?final, ?whole⟩
  case shown =>
    have shown := file_eq named (.ofString working) (.ofString base)
    simp only [settled_eq_arrive, styled_eq_codes, ← String.append_assoc] at shown
    exact shown
  case back =>
    rw [text]
    exact arrive_way names
  case final =>
    rw [text]
    exact final
  case whole => exact not_mem_of_mem_splitOn (List.mem_of_getLast? final)

/-- A base directory and a path with detours, the file above the directory. -/
theorem file_leads_back_upwards :
    "../b//./c" ≠ "" ∧
      file (.ofString "/w") (.ofString "x/../y/z/") "../b//./c" =
        "../../../b/\x1b[1m\x1b[4mc\x1b[0m" ∧
      arrive [['w'], ['y'], ['z']] "../../../b/c".toList = [['b'], ['c']] := by
  have named : "../b//./c" ≠ "" := by decide
  obtain ⟨front, last, shown, text, back, _, _⟩ := file_leads_back "/w" "x/../y/z/" "../b//./c" named
  have way : way [['w'], ['y'], ['z']] [['b'], ['c']] = "../../../b/c".toList := by decide
  refine ⟨named, by decide +kernel, ?_⟩
  rw [← way]
  exact text ▸ back

end CheckCost.Report
