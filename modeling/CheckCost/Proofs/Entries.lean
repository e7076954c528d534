import CheckCost.Entries
import Mathlib.Data.List.Forall2
import Mathlib.Data.List.Infix
import Mathlib.Data.List.Nodup

/-!
Lists of entries after changes: each key has the last value that it was given, and the keys stand in the order in
which they first came.
-/
namespace CheckCost.Entries

/-- A new member comes last, and one that is known changes nothing: so none is listed twice. -/
theorem nodup_adjoin [BEq α] [LawfulBEq α] {items : List α} (distinct : items.Nodup) (item : α) :
    (if items.contains item then items else items ++ [item]).Nodup := by
  split
  · exact distinct
  · next new =>
    rw [List.nodup_append]
    refine ⟨distinct, List.nodup_singleton item, ?_⟩
    rintro other early _ last rfl
    rw [List.mem_singleton.mp last] at early
    exact new (List.contains_iff_mem.mpr early)

/-- The keys of a list of entries after a put: a key that is known keeps its place, and a new one comes last. -/
theorem keys_put [BEq κ] [LawfulBEq κ] (key : κ) (value : α) (entries : List (κ × α)) :
    keys (put key value entries) =
      if (keys entries).contains key then keys entries else keys entries ++ [key] := by
  split
  · next known => exact keys_put_of_mem key value entries (List.contains_iff_mem.mp known)
  · next new =>
    rw [put_of_not_mem key value entries (mt List.contains_iff_mem.mpr new), keys, List.map_append]
    rfl

theorem isSome_lookup_iff [BEq κ] [LawfulBEq κ] (key : κ) (entries : List (κ × α)) :
    (entries.lookup key).isSome = true ↔ key ∈ keys entries := by
  simp only [List.lookup_isSome_iff, keys, List.mem_map, beq_iff_eq, eq_comm (a := key)]

theorem lookup_eq_some_of_mem [BEq κ] [LawfulBEq κ] {key : κ} {value : α} {entries : List (κ × α)}
    (distinct : (keys entries).Nodup) (member : (key, value) ∈ entries) : entries.lookup key = some value := by
  induction entries with
  | nil => cases member
  | cons entry rest ih =>
    rw [keys, List.map_cons, List.nodup_cons] at distinct
    rcases List.mem_cons.mp member with rfl | later
    · simp
    · have other : key ≠ entry.1 := by
        rintro rfl
        exact distinct.1 (List.mem_map.mpr ⟨_, later, rfl⟩)
      rw [List.lookup_cons, beq_false_of_ne other]
      exact ih distinct.2 later

theorem lookup_map_values [BEq κ] [LawfulBEq κ] (value : κ → α → β) (entries : List (κ × α))
    (key : κ) :
    (entries.map fun (key, old) => (key, value key old)).lookup key = (entries.lookup key).map (value key) := by
  induction entries with
  | nil => rfl
  | cons entry rest ih =>
    obtain ⟨known, old⟩ := entry
    by_cases same : key = known
    · simp [same]
    · simpa [List.lookup_cons, beq_false_of_ne same] using ih

/-- The last value under a key that is wanted. -/
def last? (wanted : κ → Bool) (entries : List (κ × α)) : Option α :=
  (entries.filter fun entry => wanted entry.1).getLast?.map Prod.snd

theorem last?_concat (wanted : κ → Bool) (entries : List (κ × α)) (entry : κ × α) :
    last? wanted (entries ++ [entry]) = if wanted entry.1 then some entry.2 else last? wanted entries := by
  unfold last?
  rw [List.filter_append]
  by_cases found : wanted entry.1 <;> simp [found]

theorem last?_append (wanted : κ → Bool) (first second : List (κ × α)) :
    last? wanted (first ++ second) = (last? wanted second).or (last? wanted first) := by
  unfold last?
  rw [List.filter_append, List.getLast?_append, Option.map_or]

theorem last?_congr {wanted other : κ → Bool} (same : ∀ key, wanted key = other key)
    (entries : List (κ × α)) : last? wanted entries = last? other entries := by
  rw [funext same]

theorem last?_filter (wanted kept : κ → Bool) (entries : List (κ × α))
    (keeps : ∀ key, wanted key = true → kept key = true) :
    last? wanted (entries.filter fun entry => kept entry.1) = last? wanted entries := by
  unfold last?
  rw [List.filter_filter]
  congr 2
  refine List.filter_congr fun entry _ => ?_
  have := keeps entry.1
  cases found : wanted entry.1 <;> simp_all

theorem last?_map (wanted : κ' → Bool) (rename : κ → κ') (entries : List (κ × α)) :
    last? wanted (entries.map fun (key, value) => (rename key, value)) =
      last? (fun key => wanted (rename key)) entries := by
  unfold last?
  rw [List.filter_map, List.getLast?_map, Option.map_map]
  rfl

/-- After all changes a key has the last value that they give it, or its old one. -/
theorem lookup_putAll [BEq κ] [LawfulBEq κ] (key : κ) (entries changes : List (κ × α)) :
    (putAll entries changes).lookup key = (last? (· == key) changes).or (entries.lookup key) := by
  induction changes using List.reverseRecOn with
  | nil => rfl
  | append_singleton rest change ih =>
    obtain ⟨changed, value⟩ := change
    have step : putAll entries (rest ++ [(changed, value)]) = put changed value (putAll entries rest) := by
      simp [putAll]
    rw [step, last?_concat]
    by_cases same : changed = key
    · subst changed
      simp [lookup_put]
    · simpa [same, lookup_put_of_ne changed value _ (Ne.symm same)] using ih

theorem nodup_keys_putAll [BEq κ] [LawfulBEq κ] (changes : List (κ × α)) :
    (keys (putAll [] changes)).Nodup := by
  induction changes using List.reverseRecOn with
  | nil => exact List.nodup_nil
  | append_singleton rest change ih =>
    have step : putAll [] (rest ++ [change]) = put change.1 change.2 (putAll [] rest) := by simp [putAll]
    rw [step, keys_put]
    exact nodup_adjoin ih change.1

theorem mem_keys_putAll [BEq κ] [LawfulBEq κ] {key : κ} {changes : List (κ × α)} :
    key ∈ keys (putAll [] changes) ↔ key ∈ keys changes := by
  rw [← isSome_lookup_iff, lookup_putAll, List.lookup_nil, Option.or_none, last?, Option.isSome_map,
    List.getLast?_isSome, ne_eq, List.filter_eq_nil_iff, keys, List.mem_map]
  simp

theorem putAll_append_of_nodup [BEq κ] [LawfulBEq κ] (entries changes : List (κ × α))
    (distinct : (keys (entries ++ changes)).Nodup) : putAll entries changes = entries ++ changes := by
  induction changes generalizing entries with
  | nil => simp [putAll]
  | cons change rest ih =>
    have new : change.1 ∉ keys entries := by
      intro known
      rw [keys, List.map_append, List.map_cons] at distinct
      exact (List.nodup_append.mp distinct).2.2 _ known _ (List.mem_cons_self ..) rfl
    have step : putAll entries (change :: rest) = putAll (entries ++ [change]) rest := by
      simp [putAll, put_of_not_mem change.1 change.2 entries new]
    rw [step, ih (entries ++ [change]) (by simpa using distinct), List.append_assoc]
    rfl

/-! Entries that differ under one key. -/

/-- The same keys, with the same values but those of one key. -/
def SameBut [BEq κ] (key : κ) : List (κ × α) → List (κ × α) → Prop :=
  List.Forall₂ fun entry entry' =>
    entry.1 = entry'.1 ∧ (entry.2 = entry'.2 ∨ entry.1 = key ∨ (entry.1 == key) = true)

section SameBut

variable [BEq κ] {key : κ} {entries entries' : List (κ × α)}

theorem SameBut.refl (key : κ) (entries : List (κ × α)) : SameBut key entries entries :=
  List.forall₂_same.mpr fun _ _ => ⟨rfl, .inl rfl⟩

theorem SameBut.put (same : SameBut key entries entries') (known : κ) (value : α) :
    SameBut key (put known value entries) (put known value entries') := by
  induction same with
  | nil => exact .refl key _
  | @cons entry entry' rest rest' first later ih =>
    obtain ⟨name, old⟩ := entry
    obtain ⟨_, old'⟩ := entry'
    obtain ⟨rfl, alike⟩ := first
    unfold Entries.put
    split
    · exact .cons ⟨rfl, .inl rfl⟩ later
    · exact .cons ⟨rfl, alike⟩ ih

/-- The values that are put under the key itself may differ. -/
theorem SameBut.put_key (same : SameBut key entries entries') (value value' : α) :
    SameBut key (Entries.put key value entries) (Entries.put key value' entries') := by
  induction same with
  | nil => exact .cons ⟨rfl, .inr (.inl rfl)⟩ .nil
  | @cons entry entry' rest rest' first later ih =>
    obtain ⟨name, old⟩ := entry
    obtain ⟨_, old'⟩ := entry'
    obtain ⟨rfl, alike⟩ := first
    unfold Entries.put
    split
    · next found => exact .cons ⟨rfl, .inr (.inr found)⟩ later
    · exact .cons ⟨rfl, alike⟩ ih

theorem SameBut.putAll (same : SameBut key entries entries') (changes : List (κ × α)) :
    SameBut key (putAll entries changes) (putAll entries' changes) := by
  induction changes generalizing entries entries' with
  | nil => exact same
  | cons change rest ih => exact ih (same.put change.1 change.2)

theorem sameBut_putAll_around (entries before later : List (κ × α)) (value value' : α) :
    SameBut key (putAll entries (before ++ (key, value) :: later))
      (putAll entries (before ++ (key, value') :: later)) := by
  simp only [Entries.putAll, List.foldl_append, List.foldl_cons]
  exact ((SameBut.refl key _).put_key value value').putAll later

end SameBut

end CheckCost.Entries
