/-!
Lists of entries by key, in the order in which the keys first came.
-/
namespace CheckCost.Entries

def keys (entries : List (κ × α)) : List κ := entries.map (·.1)

/-- Sets the value of a key: a known key keeps its place and a new one comes last. -/
def put [BEq κ] (key : κ) (value : α) : List (κ × α) → List (κ × α)
  | [] => [(key, value)]
  | (known, old) :: rest =>
    if known == key then (known, value) :: rest else (known, old) :: put key value rest

def putAll [BEq κ] (entries changes : List (κ × α)) : List (κ × α) :=
  changes.foldl (fun done (key, value) => put key value done) entries

theorem keys_put_of_mem [BEq κ] [LawfulBEq κ] (key : κ) (value : α) (entries : List (κ × α))
    (h : key ∈ keys entries) : keys (put key value entries) = keys entries := by
  induction entries with
  | nil => simp [keys] at h
  | cons entry rest ih =>
    obtain ⟨known, old⟩ := entry
    by_cases same : known = key
    · simp [put, keys, same]
    · have : key ∈ keys rest := by simp_all [keys, eq_comm]
      simpa [put, keys, same] using ih this

theorem put_of_not_mem [BEq κ] [LawfulBEq κ] (key : κ) (value : α) (entries : List (κ × α))
    (h : key ∉ keys entries) : put key value entries = entries ++ [(key, value)] := by
  induction entries with
  | nil => rfl
  | cons entry rest ih =>
    obtain ⟨known, old⟩ := entry
    simp only [keys, List.map_cons, List.mem_cons, not_or] at h
    simp [put, Ne.symm h.1, ih h.2]

theorem lookup_put [BEq κ] [LawfulBEq κ] (key : κ) (value : α) (entries : List (κ × α)) :
    (put key value entries).lookup key = some value := by
  induction entries with
  | nil => simp [put]
  | cons entry rest ih =>
    obtain ⟨known, old⟩ := entry
    by_cases same : known = key
    · simp [put, same]
    · have other : (key == known) = false := by simpa using Ne.symm same
      simp [put, same, List.lookup_cons, other, ih]

theorem lookup_put_of_ne [BEq κ] [LawfulBEq κ] (key : κ) (value : α) (entries : List (κ × α))
    {other : κ} (ne : other ≠ key) : (put key value entries).lookup other = entries.lookup other := by
  induction entries with
  | nil => simp [put, List.lookup_cons, beq_false_of_ne ne]
  | cons entry rest ih =>
    obtain ⟨known, old⟩ := entry
    by_cases same : known = key
    · subst known
      simp [put, List.lookup_cons, beq_false_of_ne ne]
    · simp [put, same, List.lookup_cons, ih]

end CheckCost.Entries
