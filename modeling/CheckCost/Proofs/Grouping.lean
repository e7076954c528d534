import CheckCost.Ranking
import Mathlib.Data.List.Induction
import Mathlib.Data.List.Nodup

/-!
Grouping metrics by file: each file has one group, which holds all of its metrics in their order.
-/
namespace CheckCost.Ranking

variable {D : Type}

def inFile (path : String) (metrics : List (Metric D)) : List (Metric D) :=
  metrics.filter fun metric => metric.path = path

/-- The groups are those of the files of the metrics. -/
structure IsGrouping (groups : List (String × List (Metric D))) (metrics : List (Metric D)) : Prop where
  distinct : (groups.map (·.1)).Nodup
  members : ∀ group ∈ groups, group.2 = inFile group.1 metrics
  files : ∀ path, path ∈ groups.map (·.1) ↔ ∃ metric ∈ metrics, metric.path = path

theorem keys_insert (key : String) (metric : Metric D) (groups : List (String × List (Metric D))) :
    (insert key metric groups).map (·.1) =
      if key ∈ groups.map (·.1) then groups.map (·.1) else groups.map (·.1) ++ [key] := by
  induction groups with
  | nil => rfl
  | cons group rest ih =>
    obtain ⟨known, members⟩ := group
    by_cases same : known = key
    · simp [insert, same]
    · simp only [insert, same, if_false, List.map_cons, ih, List.mem_cons, Ne.symm same, false_or]
      split <;> rfl

/-- A group after an insertion is another file's as it was, or the file's with the metric at its end. -/
theorem mem_insert {key : String} {metric : Metric D} {groups : List (String × List (Metric D))}
    {group : String × List (Metric D)} (distinct : (groups.map (·.1)).Nodup)
    (member : group ∈ insert key metric groups) :
    group ∈ groups ∧ group.1 ≠ key ∨ (∃ members, (key, members) ∈ groups ∧ group = (key, members ++ [metric])) ∨
      key ∉ groups.map (·.1) ∧ group = (key, [metric]) := by
  induction groups with
  | nil =>
    simp only [insert, List.mem_singleton] at member
    exact Or.inr (Or.inr ⟨by simp, member⟩)
  | cons first rest ih =>
    obtain ⟨known, members⟩ := first
    rw [List.map_cons, List.nodup_cons] at distinct
    by_cases same : known = key
    · subst same
      simp only [insert, if_true, List.mem_cons] at member
      rcases member with rfl | later
      · exact Or.inr (Or.inl ⟨members, by simp, rfl⟩)
      · have other : group.1 ≠ known := by
          rintro rfl
          exact distinct.1 (List.mem_map.mpr ⟨group, later, rfl⟩)
        exact Or.inl ⟨by simp [later], other⟩
    · simp only [insert, same, if_false, List.mem_cons] at member
      rcases member with rfl | later
      · exact Or.inl ⟨by simp, same⟩
      · rcases ih distinct.2 later with ⟨kept, other⟩ | ⟨old, kept, eq⟩ | ⟨fresh, eq⟩
        · exact Or.inl ⟨by simp [kept], other⟩
        · exact Or.inr (Or.inl ⟨old, by simp [kept], eq⟩)
        · exact Or.inr (Or.inr ⟨by simpa [Ne.symm same] using fresh, eq⟩)

theorem inFile_append (path : String) (metrics : List (Metric D)) (metric : Metric D) :
    inFile path (metrics ++ [metric]) =
      if metric.path = path then inFile path metrics ++ [metric] else inFile path metrics := by
  unfold inFile
  rw [List.filter_append]
  by_cases same : metric.path = path <;> simp [same]

theorem inFile_eq_nil {path : String} {metrics : List (Metric D)}
    (none : ¬ ∃ metric ∈ metrics, metric.path = path) : inFile path metrics = [] := by
  rw [inFile, List.filter_eq_nil_iff]
  intro metric member
  simpa using fun same => none ⟨metric, member, same⟩

theorem IsGrouping.insert {groups : List (String × List (Metric D))} {metrics : List (Metric D)}
    (grouping : IsGrouping groups metrics) (metric : Metric D) :
    IsGrouping (insert metric.path metric groups) (metrics ++ [metric]) where
  distinct := by
    rw [keys_insert]
    split
    · exact grouping.distinct
    · rename_i fresh
      rw [List.nodup_append]
      refine ⟨grouping.distinct, List.nodup_singleton _, ?_⟩
      intro known inside key single
      rw [List.mem_singleton] at single
      rintro rfl
      exact fresh (single ▸ inside)
  members := by
    intro group member
    rw [inFile_append]
    rcases mem_insert grouping.distinct member with ⟨kept, other⟩ | ⟨old, kept, rfl⟩ | ⟨fresh, rfl⟩
    · rw [if_neg (Ne.symm other)]
      exact grouping.members group kept
    · rw [if_pos rfl, ← grouping.members _ kept]
    · rw [if_pos rfl, inFile_eq_nil (mt (grouping.files metric.path).mpr fresh)]
      rfl
  files := by
    intro path
    rw [keys_insert]
    have old := grouping.files path
    simp only [List.mem_append, List.mem_singleton, or_and_right, exists_or, exists_eq_left, ← old]
    split
    · rename_i known
      constructor
      · exact Or.inl
      · rintro (inside | rfl)
        · exact inside
        · exact known
    · simp only [List.mem_append, List.mem_singleton, eq_comm]

theorem isGrouping_byFile (metrics : List (Metric D)) : IsGrouping (byFile metrics) metrics := by
  -- from the end of the list: the last metric is inserted into the grouping of those before it
  induction metrics using List.reverseRecOn with
  | nil => exact ⟨by simp [byFile], by simp [byFile], by simp [byFile]⟩
  | append_singleton metrics metric ih =>
    have step := ih.insert metric
    unfold byFile at step ⊢
    rw [List.foldl_append]
    exact step

end CheckCost.Ranking
