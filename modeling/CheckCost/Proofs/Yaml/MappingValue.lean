import CheckCost.Proofs.Entries
import CheckCost.Proofs.Outcome
import CheckCost.Yaml.Meaning
import Mathlib.Data.List.Basic
import Mathlib.Data.List.Forall2

/-!
What a mapping stands for, field by field. What a node stands for does not depend on how much may be made of it, and
one field of a mapping matters to its own key only.
-/
namespace CheckCost.Yaml.Node

/-! Heights. -/

theorem height_pos (node : Node) : 0 < node.height := by
  cases node <;> simp [height]

theorem height_le_of_mem {items : List Node} {item : Node} (member : item ∈ items) :
    item.height ≤ heightItems items := by
  induction items with
  | nil => cases member
  | cons first rest ih =>
    rw [heightItems]
    rcases List.mem_cons.mp member with rfl | later
    · exact Nat.le_max_left ..
    · exact Nat.le_trans (ih later) (Nat.le_max_right ..)

/-- The key and the value of a field are no higher than this. -/
def Within (bound : Nat) (field : Node × Node) : Prop := field.1.height ≤ bound ∧ field.2.height ≤ bound

theorem Within.mono {bound more : Nat} {field : Node × Node} (within : Within bound field) (enough : bound ≤ more) :
    Within more field := ⟨Nat.le_trans within.1 enough, Nat.le_trans within.2 enough⟩

theorem within_cons (key value : Node) (rest : List (Node × Node)) :
    Within (heightFields ((key, value) :: rest)) (key, value) := by
  constructor <;> simp only [heightFields] <;> omega

theorem within_of_mem {fields : List (Node × Node)} {field : Node × Node} (member : field ∈ fields) :
    Within (heightFields fields) field := by
  induction fields with
  | nil => cases member
  | cons first rest ih =>
    rcases List.mem_cons.mp member with rfl | later
    · exact within_cons ..
    · exact (ih later).mono (Nat.le_max_right ..)

mutual

/-- Fields that are lent come from inside. -/
theorem within_of_split : ∀ (fields lent own : List (Node × Node)), split fields = .ok (lent, own) →
    ∀ field ∈ lent ++ own, Within (heightFields fields) field
  | [], _, _, run => by
    cases run
    exact fun _ none => nomatch none
  | (key, value) :: rest, lent, own, run => by
    rw [split] at run
    split at run
    · obtain ⟨here, lends, run⟩ := Outcome.bind_ok_iff.mp run
      obtain ⟨⟨lent', own'⟩, others, run⟩ := Outcome.bind_ok_iff.mp run
      cases run
      intro field member
      rw [List.append_assoc] at member
      rcases List.mem_append.mp member with here | later
      · refine (within_of_lenders value _ lends field here).mono ?_
        simp only [heightFields]
        omega
      · exact (within_of_split rest _ _ others field later).mono (Nat.le_max_right ..)
    · obtain ⟨⟨lent', own'⟩, others, run⟩ := Outcome.bind_ok_iff.mp run
      cases run
      intro field member
      rcases List.mem_append.mp member with early | late
      · exact (within_of_split rest _ _ others field (List.mem_append_left _ early)).mono (Nat.le_max_right ..)
      · rcases List.mem_cons.mp late with rfl | late
        · exact within_cons ..
        · exact (within_of_split rest _ _ others field (List.mem_append_right _ late)).mono (Nat.le_max_right ..)

theorem within_of_lenders : ∀ (node : Node) (fields : List (Node × Node)), lenders node = .ok fields →
    ∀ field ∈ fields, Within (node.height - 1) field
  | .map _ own, fields, run => by
    rw [lenders] at run
    obtain ⟨⟨lent, kept⟩, parts, run⟩ := Outcome.bind_ok_iff.mp run
    cases run
    exact within_of_split own _ _ parts
  | .seq _ items, fields, run => within_of_lentItems items fields run
  | .enclosing _ .mapping, _, run => by
    cases run
    exact fun _ none => nomatch none
  | .enclosing _ .scalar, _, run => nomatch run
  | .enclosing _ .sequence, _, run => nomatch run
  | .scalar .., _, run => nomatch run

theorem within_of_lentItems : ∀ (items : List Node) (fields : List (Node × Node)), lentItems items = .ok fields →
    ∀ field ∈ fields, Within (heightItems items) field
  | [], _, run => by
    cases run
    exact fun _ none => nomatch none
  | item :: rest, fields, run => by
    rw [lentItems] at run
    split at run
    · cases run
    obtain ⟨here, lends, run⟩ := Outcome.bind_ok_iff.mp run
    obtain ⟨others, later, run⟩ := Outcome.bind_ok_iff.mp run
    cases run
    rw [heightItems]
    intro field member
    rcases List.mem_append.mp member with late | early
    · exact (within_of_lentItems rest _ later field late).mono (Nat.le_max_right ..)
    · refine (within_of_lenders item _ lends field early).mono ?_
      omega

end

/-! How much may be made of a node. -/

theorem scalarText_map {fuel : Nat} {tag : Tag} {fields : List (Node × Node)} (enough : heightFields fields ≤ fuel) :
    scalarText fuel (map tag fields) =
      match fields.find? (·.1.tag = .value) with
      | some (_, value) => scalarText (fuel - 1) value
      | none => malformed (.wrongKind "scalar" Shape.mapping.name) := by
  cases fuel with
  | zero =>
    cases fields with
    | nil => simp [scalarText, shape]
    | cons field rest =>
      have higher : field.1.height ≤ 0 := Nat.le_trans (within_cons field.1 field.2 rest).1 enough
      exact absurd (height_pos field.1) (Nat.not_lt.mpr higher)
  | succ fuel => rfl

theorem scalarText_eq {fuel more : Nat} {node : Node} (enough : node.height ≤ fuel + 1)
    (enough' : node.height ≤ more + 1) : scalarText fuel node = scalarText more node := by
  induction bound : node.height using Nat.strongRecOn generalizing fuel more node with
  | ind bound ih =>
    cases node with
    | map tag fields =>
      rw [height] at enough enough' bound
      rw [scalarText_map (Nat.le_of_succ_le_succ enough), scalarText_map (Nat.le_of_succ_le_succ enough')]
      cases found : fields.find? (·.1.tag = .value) with
      | none => rfl
      | some field =>
        have within := (within_of_mem (List.mem_of_find?_eq_some found)).2
        exact ih _ (by omega) (by omega) (by omega) rfl
    | _ => cases fuel <;> cases more <;> simp [scalarText]

theorem height_asKey (node : Node) : (asKey node).height = node.height := by
  unfold asKey
  split <;> simp [height]

theorem within_of_onlyField? {item : Node} {field : Node × Node} (only : onlyField? item = some field) :
    field.1.height < item.height ∧ field.2.height < item.height := by
  unfold onlyField? at only
  split at only
  · next tag other =>
    cases only
    have within := within_cons field.1 field.2 []
    exact ⟨Nat.lt_succ_of_le within.1, Nat.lt_succ_of_le within.2⟩
  · cases only

/-- A node stands for the same whatever more may be made. -/
theorem outcome_eq {fuel more : Nat} {node : Node} (enough : node.height ≤ fuel) (enough' : node.height ≤ more) :
    outcome fuel node = outcome more node := by
  induction fuel generalizing more node with
  | zero => exact absurd (height_pos node) (by omega)
  | succ fuel ih =>
    obtain ⟨more, rfl⟩ : ∃ k, more = k + 1 := ⟨more - 1, by have := height_pos node; omega⟩
    have text := scalarText_eq enough enough'
    have part {node' : Node} (inside : node'.height ≤ node.height - 1) : outcome fuel node' = outcome more node' :=
      ih (by omega) (by omega)
    cases node with
    | scalar tag written => cases tag <;> simp only [outcome, text]
    | enclosing tag shape => cases tag <;> cases shape <;> simp only [outcome, text, lenders] <;> rfl
    | seq tag items =>
      have whole : items.map (outcome fuel) = items.map (outcome more) :=
        List.map_congr_left fun item member => part (height_le_of_mem member)
      have pairs : (items.map fun item => (onlyField? item).map fun x => (outcome fuel x.1, outcome fuel x.2)) =
          items.map fun item => (onlyField? item).map fun x => (outcome more x.1, outcome more x.2) := by
        refine List.map_congr_left fun item member => ?_
        cases only : onlyField? item with
        | none => rfl
        | some field =>
          have within := within_of_onlyField? only
          have inside := height_le_of_mem member
          simp only [Option.map_some, part (Nat.le_trans (Nat.le_of_lt within.1) inside),
            part (Nat.le_trans (Nat.le_of_lt within.2) inside)]
      cases tag <;> simp only [outcome, text, whole, pairs]
    | map tag fields =>
      cases lends : lenders (map tag fields) with
      | error => cases tag <;> simp only [outcome, text, lends]
      | ok list =>
        have made : (list.map fun x => (outcome fuel (asKey x.1), outcome fuel x.2)) =
            list.map fun x => (outcome more (asKey x.1), outcome more x.2) := by
          refine List.map_congr_left fun field member => ?_
          have within := within_of_lenders _ _ lends field member
          simp only [part (Nat.le_trans (Nat.le_of_eq (height_asKey field.1)) within.1), part within.2]
        cases tag <;> simp only [outcome, text, lends, made]

/-! Mappings. -/

/-- What a node stands for, if there is no fault in it. -/
def meaning (node : Node) : Value := (outcome node.height node).value

theorem eq_meaning_of_value {node : Node} {found : Value} (value : node.value = .ok found) : found = node.meaning := by
  unfold Node.value at value
  simp only at value
  split at value
  · cases value
  · exact (Except.ok.inj value).symm

variable {before later : List (Node × Node)}

theorem split_append : split (before ++ later) = (do
    let first ← split before
    let second ← split later
    return (first.1 ++ second.1, first.2 ++ second.2)) := by
  induction before with
  | nil =>
    rw [List.nil_append]
    cases split later <;> rfl
  | cons field rest ih =>
    obtain ⟨key, value⟩ := field
    rw [List.cons_append, split, split, ih]
    split
    · cases lenders value <;> cases split rest <;> cases split later <;>
        simp [bind, Except.bind, pure, Except.pure]
    · cases split rest <;> cases split later <;> rfl

/-- The fields of a mapping, those that others lend it first, and the place of one that is its own. -/
theorem lenders_around {tag : Tag} {key value : Node} (own : key.tag ≠ .merge) :
    lenders (map tag (before ++ (key, value) :: later)) = (do
      let first ← split before
      let second ← split later
      return first.1 ++ second.1 ++ first.2 ++ (key, value) :: second.2) := by
  rw [lenders, split_append, split, if_neg own]
  cases split before <;> cases split later <;> simp [bind, Except.bind, pure, Except.pure]

/-- A mapping stands for its fields. -/
theorem value_map {fields : List (Node × Node)} {found : Value} (value : (map .map fields).value = .ok found) :
    ∃ list, lenders (map .map fields) = .ok list ∧
      found = .map (Value.ofFields (list.map fun field => ((asKey field.1).meaning, field.2.meaning))) := by
  have whole := eq_meaning_of_value value
  rw [meaning, height] at whole
  unfold outcome at whole
  cases lends : lenders (map .map fields) with
  | error fault =>
    simp [Node.value, height, outcome, tag, lends, Outcome.filled, Outcome.require, Outcome.fault?,
      Outcome.both] at value
  | ok list =>
    simp only [tag, lends, Outcome.filled, List.map_map] at whole
    refine ⟨list, rfl, whole.trans ?_⟩
    refine congrArg (fun fields => Value.map (Value.ofFields fields)) (List.map_congr_left fun field member => ?_)
    have within := within_of_lenders _ _ lends field member
    have key := outcome_eq (Nat.le_trans (Nat.le_of_eq (height_asKey field.1)) within.1) (Nat.le_refl _)
    have part := outcome_eq within.2 (Nat.le_refl _)
    simp only [Function.comp, meaning]
    rw [← key, ← part]
    rfl

theorem ofScalar_ne_map {made : Except Fault Value} {entries : List (Value × Value)}
    (other : made ≠ .ok (.map entries)) : (Outcome.ofScalar made).value ≠ .map entries := by
  rintro eq
  cases made with
  | error => cases eq
  | ok value => exact other (congrArg Except.ok eq)

/-- A scalar is read as no mapping. -/
theorem ne_map_of_scalar {text : Except Fault (List Char)} {read : List Char → Except Fault Value}
    {entries : List (Value × Value)} (never : ∀ cs, read cs ≠ .ok (.map entries)) :
    (Outcome.ofScalar (do read (← text))).value ≠ .map entries := by
  refine ofScalar_ne_map fun made => ?_
  obtain ⟨cs, -, made⟩ := Outcome.bind_ok_iff.mp made
  exact never cs made

/-- A mapping with another tag stands for no mapping. -/
theorem meaning_ne_map {tag : Tag} (other : tag ≠ .map) (fields : List (Node × Node)) (entries : List (Value × Value)) :
    (map tag fields).meaning ≠ .map entries := by
  rw [meaning, height]
  unfold outcome
  cases tag with
  | map => exact absurd rfl other
  | set =>
    simp only [Node.tag]
    cases lenders (map .set fields) <;> exact fun eq => nomatch eq
  | bool =>
    refine ne_map_of_scalar fun cs read => ?_
    simp only [Scalar.bool] at read
    split at read
    · cases read
    · split at read <;> cases read
  | int =>
    refine ne_map_of_scalar fun cs read => ?_
    obtain ⟨_, -, read⟩ := Outcome.bind_ok_iff.mp read
    obtain ⟨_, -, read⟩ := Outcome.bind_ok_iff.mp read
    cases read
  | float =>
    refine ne_map_of_scalar fun cs read => ?_
    obtain ⟨_, -, read⟩ := Outcome.bind_ok_iff.mp read
    obtain ⟨_, -, read⟩ := Outcome.bind_ok_iff.mp read
    cases read
  | binary =>
    refine ne_map_of_scalar fun cs read => ?_
    unfold Scalar.binary at read
    split at read
    · cases read
    · split at read <;> cases read
  | timestamp =>
    refine ne_map_of_scalar fun cs read => ?_
    cases read
  | null | str => exact ne_map_of_scalar fun _ eq => nomatch eq
  | seq | orderedMap | pairs | merge | value | other => exact fun eq => nomatch eq

/-- A key that is read as a value is no mark of fields that others lend. -/
theorem not_merge_of_value {key : Node} {name : Value} (keyed : (asKey key).value = .ok name) : key.tag ≠ .merge := by
  intro merge
  have same : (asKey key).tag = .merge := by
    unfold asKey
    split
    · cases merge
    · exact merge
  obtain ⟨n, height⟩ := Nat.exists_eq_add_one.mpr (height_pos (asKey key))
  rw [Node.value, height] at keyed
  unfold outcome at keyed
  rw [same] at keyed
  cases keyed

/-- What the value of one field is matters to its own key only. -/
theorem sameBut_of_field {key value value' : Node} {name : Value} {found found' : List (Value × Value)}
    (keyed : (asKey key).value = .ok name)
    (read : (map .map (before ++ (key, value) :: later)).value = .ok (.map found))
    (read' : (map .map (before ++ (key, value') :: later)).value = .ok (.map found')) :
    Entries.SameBut name found found' := by
  have own := not_merge_of_value keyed
  obtain ⟨list, lends, eq⟩ := value_map read
  obtain ⟨list', lends', eq'⟩ := value_map read'
  cases eq
  cases eq'
  rw [lenders_around own] at lends lends'
  obtain ⟨first, before_split, lends⟩ := Outcome.bind_ok_iff.mp lends
  obtain ⟨second, later_split, lends⟩ := Outcome.bind_ok_iff.mp lends
  rw [before_split, later_split] at lends'
  cases lends
  cases lends'
  generalize first.1 ++ second.1 ++ first.2 = front
  rw [List.map_append, List.map_append, List.map_cons, List.map_cons, ← eq_meaning_of_value keyed]
  exact Entries.sameBut_putAll_around ..

end CheckCost.Yaml.Node
