import CheckCost.Proofs.Entries
import CheckCost.Proofs.Outcome
import CheckCost.Settings

/-!
Which of several values of a setting counts. An explicit one counts before any of a file, and of those in a file
the last under any of the setting's names; a setting that is not given at all has its default. Nothing else in
the settings matters, so a name may be exchanged for the one that it stands for.
-/
namespace CheckCost

namespace Settings

/-- The settings with the values that they have where they are not given, in the order in which they are checked.
The directory is that of the process. -/
def defaults (directory : String) : RawSettings :=
  [("trace_file", .str "./.tsTrace/trace.json"), ("types_file", .str "./.tsTrace/types.json"),
    ("pattern", .str "**/*"), ("file_limit", .int 50), ("symbol_limit", .int 10), ("strategy", .str "files"),
    ("check_names", .seq [.str "structuredTypeRelatedTo"]),
    ("check_categories", .seq [.str "check", .str "checkTypes"]), ("dependency_marker", .str "/node_modules"),
    ("name_width", .int 30), ("cwd", .str directory)]

def fieldNames : List String := Entries.keys (defaults "")

end Settings

namespace RawSettings

open Entries

/-- A setting's own name and those that stand for it. -/
def namesOf (field : String) : List String :=
  field :: (aliases.filter fun entry => entry.2 == field).map Prod.fst

/-- The last explicit value of a setting that is not null. -/
def explicit? (overrides : RawSettings) (field : String) : Option Yaml.Value :=
  last? (· == field) (overrides.filter fun entry => isGiven entry.2)

/-- The last value under any of the names of a setting. -/
def lastOf? (raw : RawSettings) (field : String) : Option Yaml.Value :=
  last? (fun name => (namesOf field).contains name) raw

/-- The value of a setting that counts, if it is given at all. -/
def chosen (raw overrides : RawSettings) (field : String) : Option Yaml.Value :=
  (overrides.explicit? field).or (raw.lastOf? field)

/-- Every setting by its own name, with the value that counts or else its default. -/
def settled (directory : String) (raw overrides : RawSettings) : RawSettings :=
  (Settings.defaults directory).map fun (field, value) => (field, (chosen raw overrides field).getD value)

theorem canonicalName_eq_iff {field : String} (known : field ∈ Settings.fieldNames) (name : String) :
    (canonicalName name == field) = (namesOf field).contains name := by
  have plain : ∀ field ∈ Settings.fieldNames, aliases.lookup field = none := by decide
  have distinct : (keys aliases).Nodup := by decide
  have stands : aliases.lookup name = some field ↔ (name, field) ∈ aliases := by
    constructor
    · intro found
      obtain ⟨before, after, split, -⟩ := List.lookup_eq_some_iff.mp found
      simp [split]
    · exact lookup_eq_some_of_mem distinct
  rw [Bool.eq_iff_iff, beq_iff_eq, List.contains_iff_mem]
  have listed : name ∈ namesOf field ↔ name = field ∨ aliases.lookup name = some field := by
    simp [namesOf, stands]
  rw [listed]
  unfold canonicalName
  constructor
  · cases found : aliases.lookup name with
    | none => exact Or.inl
    | some other => exact fun same => .inr (congrArg some same)
  · rintro (rfl | found)
    · simp [plain name known]
    · simp [found]

theorem lookup_canonical {field : String} (known : field ∈ Settings.fieldNames) (raw : RawSettings) :
    raw.canonical.lookup field = raw.lastOf? field := by
  unfold canonical lastOf?
  rw [lookup_putAll, last?_map, last?_congr (canonicalName_eq_iff known), List.lookup_nil, Option.or_none]

/-- What the settings of a file and the explicit ones are merged to has the value that counts. -/
theorem lookup_merged {field : String} (known : field ∈ Settings.fieldNames) (raw overrides : RawSettings) :
    (raw.canonical.override overrides).lookup field = chosen raw overrides field := by
  unfold override chosen explicit?
  rw [lookup_putAll, lookup_canonical known]

theorem lastOf?_append (first second : RawSettings) (field : String) :
    lastOf? (first ++ second) field = (lastOf? second field).or (lastOf? first field) :=
  last?_append _ first second

theorem lastOf?_filter {field : String} (kept : String → Bool)
    (keeps : ∀ name, (namesOf field).contains name = true → kept name = true) (raw : RawSettings) :
    lastOf? (raw.filter fun entry => kept entry.1) field = raw.lastOf? field :=
  last?_filter _ kept raw keeps

theorem lastOf?_congr_name {field name other : String} (known : field ∈ Settings.fieldNames)
    (same : canonicalName name = canonicalName other) (value : Yaml.Value) :
    lastOf? [(name, value)] field = lastOf? [(other, value)] field := by
  unfold lastOf?
  have named : ∀ key, (namesOf field).contains key = (canonicalName key == field) :=
    fun key => (canonicalName_eq_iff known key).symm
  rw [last?_congr named, last?_congr named]
  simp only [last?, List.filter_cons, same, List.filter_nil]
  split <;> rfl

theorem canonicalName_of_mem_keys {raw : RawSettings} {name : String} (known : name ∈ keys raw.canonical) :
    canonicalName name = name := by
  obtain ⟨entry, renamed, rfl⟩ := List.mem_map.mp (mem_keys_putAll.mp known)
  obtain ⟨given, -, rfl⟩ := List.mem_map.mp renamed
  exact canonicalName_idem given.1

/-- Settings under their own names only, each once, are left as they are. -/
theorem canonical_idem (raw : RawSettings) : raw.canonical.canonical = raw.canonical := by
  have kept : raw.canonical.map (fun (name, value) => (canonicalName name, value)) = raw.canonical := by
    calc raw.canonical.map (fun (name, value) => (canonicalName name, value))
      _ = raw.canonical.map id := List.map_congr_left fun entry member =>
          congrArg (·, entry.2) (canonicalName_of_mem_keys (List.mem_map_of_mem member))
      _ = raw.canonical := List.map_id _
  have distinct : (keys ([] ++ raw.canonical)).Nodup := nodup_keys_putAll _
  rw [canonical, kept, putAll_append_of_nodup [] raw.canonical distinct, List.nil_append]

theorem lastOf?_canonical {field : String} (known : field ∈ Settings.fieldNames) (raw : RawSettings) :
    raw.canonical.lastOf? field = raw.lastOf? field := by
  rw [← lookup_canonical known, canonical_idem, lookup_canonical known]

/-! Settings that are all given, each by its own name. -/

theorem lastOf?_settled {field : String} (known : field ∈ Settings.fieldNames) (directory : String)
    (raw overrides : RawSettings) :
    (settled directory raw overrides).lastOf? field =
      (chosen raw overrides field).or ((Settings.defaults directory).lookup field) := by
  have names : keys (settled directory raw overrides) = Settings.fieldNames := rfl
  have distinct : (keys ([] ++ settled directory raw overrides)).Nodup := by
    rw [List.nil_append, names]
    decide
  have plain : (settled directory raw overrides).canonical = settled directory raw overrides :=
    putAll_append_of_nodup [] _ distinct
  have given : ((Settings.defaults directory).lookup field).isSome := (isSome_lookup_iff ..).mpr known
  obtain ⟨value, default⟩ := Option.isSome_iff_exists.mp given
  rw [← lookup_canonical known, plain, settled,
    lookup_map_values fun field value => (chosen raw overrides field).getD value, default]
  cases chosen raw overrides field <;> rfl

end RawSettings

namespace Settings

open RawSettings Outcome

variable {working : Path}

/-! Checking depends on the values that count, setting by setting. -/

theorem read_congr {first second : RawSettings} {field : String} (same : first.lookup field = second.lookup field)
    (default : α) (check : Yaml.Value → Except (List Problem) α) :
    read first field default check = read second field default check := by
  unfold read
  rw [same]

theorem validate_congr {first second : RawSettings}
    (same : ∀ field ∈ fieldNames, first.lookup field = second.lookup field) :
    validate working first = validate working second := by
  unfold validate readSingle
  rw [read_congr (same "trace_file" (by decide)), read_congr (same "types_file" (by decide)),
    read_congr (same "pattern" (by decide)), read_congr (same "file_limit" (by decide)),
    read_congr (same "symbol_limit" (by decide)), read_congr (same "strategy" (by decide)),
    read_congr (same "check_names" (by decide)), read_congr (same "check_categories" (by decide)),
    read_congr (same "dependency_marker" (by decide)), read_congr (same "name_width" (by decide)),
    read_congr (same "cwd" (by decide))]

theorem read_default {first second : RawSettings} {field : String} {value : Yaml.Value}
    (filled : second.lookup field = (first.lookup field).or (some value)) {default : α}
    {check : Yaml.Value → Except (List Problem) α} (passes : check value = .ok default) :
    read second field default check = read first field default check := by
  unfold read
  rw [filled]
  cases first.lookup field with
  | none => exact passes
  | some given => rfl

/-- Every default passes the check of its setting, and gives the value that the setting has without it. -/
theorem validate_defaults {directory : String} (here : Path.ofString directory = working)
    {first second : RawSettings}
    (filled : ∀ field ∈ fieldNames,
      second.lookup field = (first.lookup field).or ((defaults directory).lookup field)) :
    validate working second = validate working first := by
  subst here
  unfold validate readSingle
  rw [read_default (filled "trace_file" (by decide)), read_default (filled "types_file" (by decide)),
    read_default (filled "pattern" (by decide)), read_default (filled "file_limit" (by decide)),
    read_default (filled "symbol_limit" (by decide)), read_default (filled "strategy" (by decide)),
    read_default (filled "check_names" (by decide)), read_default (filled "check_categories" (by decide)),
    read_default (filled "dependency_marker" (by decide)), read_default (filled "name_width" (by decide)),
    read_default (filled "cwd" (by decide))]
  all_goals rfl

/-! The settings themselves, and the problems with them. -/

theorem ofRaw_congr {raw overrides raw' overrides' : RawSettings}
    (same : ∀ field ∈ fieldNames, chosen raw overrides field = chosen raw' overrides' field) :
    ofRaw working raw overrides = ofRaw working raw' overrides' := by
  have merged : ∀ field ∈ fieldNames,
      (raw.canonical.override overrides).lookup field = (raw'.canonical.override overrides').lookup field := by
    intro field known
    rw [lookup_merged known, lookup_merged known, same field known]
  simp only [ofRaw, validate_congr merged]

theorem ofRaw_congr_lastOf {raw raw' overrides : RawSettings}
    (same : ∀ field ∈ fieldNames, overrides.explicit? field = none → raw.lastOf? field = raw'.lastOf? field) :
    ofRaw working raw overrides = ofRaw working raw' overrides := by
  refine ofRaw_congr fun field known => ?_
  unfold chosen
  cases given : overrides.explicit? field with
  | some value => rfl
  | none => rw [same field known given]

theorem ofRaw_error_iff {raw : RawSettings} {fault : SettingsFault} :
    ofRaw working raw overrides = .error fault ↔
      (∃ problems, validate working (raw.canonical.override overrides) = .error problems ∧
        .invalid problems = fault) ∨
        ∃ settings, validate working (raw.canonical.override overrides) = .ok settings ∧
          ((settings.base.join settings.traceFile).holdsNul ∨ (settings.base.join settings.typesFile).holdsNul) ∧
            .impossiblePath = fault := by
  unfold ofRaw
  simp only [bind_error_iff, mapError_error_iff, mapError_ok_iff]
  refine or_congr Iff.rfl (exists_congr fun settings => and_congr_right fun _ => ?_)
  split
  · next nul => simp_all
  · next free => simp_all

/-- What is wrong with settings is what is wrong with the mapping that they come to. -/
theorem ofRaw_invalid_iff {raw overrides : RawSettings} {problems : List Problem} :
    ofRaw working raw overrides = .error (.invalid problems) ↔
      validate working (raw.canonical.override overrides) = .error problems := by
  constructor
  · intro run
    obtain ⟨others, wrong, same⟩ | ⟨_, _, _, other⟩ := ofRaw_error_iff.mp run
    · cases same
      exact wrong
    · cases other
  · intro wrong
    exact ofRaw_error_iff.mpr (.inl ⟨problems, wrong, rfl⟩)

theorem validate_of_ofRaw {raw overrides : RawSettings} {settings : Settings}
    (run : ofRaw working raw overrides = .ok settings) :
    validate working (raw.canonical.override overrides) = .ok settings := by
  obtain ⟨valid, checked, run⟩ := bind_ok_iff.mp run
  split at run
  · cases run
  · cases run
    exact mapError_ok_iff.mp checked

/-- The raw settings and the explicit ones come to one mapping, which is what is checked. A setting in it is its
explicit value, or else the last one under any of its names, or else its default. Entries of other names, entries that
an explicit value replaces, and the choice between names for one setting do not matter, neither to the settings nor to
what is found wrong with them. -/
theorem follows_precedence (working : Path) (raw overrides : RawSettings) :
    (∀ problems, ofRaw working raw overrides = .error (.invalid problems) ↔
      validate working (raw.canonical.override overrides) = .error problems) ∧
    (∀ settings, ofRaw working raw overrides = .ok settings →
      validate working (raw.canonical.override overrides) = .ok settings) ∧
    (∀ field ∈ fieldNames, (raw.canonical.override overrides).lookup field = chosen raw overrides field) ∧
    (∀ directory, Path.ofString directory = working →
      ofRaw working raw overrides = ofRaw working (settled directory raw overrides) []) ∧
    (∀ raw' overrides', (∀ field ∈ fieldNames, chosen raw' overrides' field = chosen raw overrides field) →
      ofRaw working raw' overrides' = ofRaw working raw overrides) ∧
    ofRaw working (raw.filter fun entry => fieldNames.contains (canonicalName entry.1)) overrides =
      ofRaw working raw overrides ∧
    (∀ before name value after, raw = before ++ (name, value) :: after →
      ofRaw working (before ++ (canonicalName name, value) :: after) overrides = ofRaw working raw overrides) ∧
    ofRaw working raw.canonical overrides = ofRaw working raw overrides ∧
    raw.canonical.canonical = raw.canonical ∧
    (∀ field, (overrides.explicit? field).isSome →
      ofRaw working (raw.filter fun entry => canonicalName entry.1 != field) overrides =
        ofRaw working raw overrides) := by
  refine ⟨fun _ => ofRaw_invalid_iff, fun _ => validate_of_ofRaw,
    fun field known => lookup_merged known raw overrides, ?filled, fun raw' overrides' => ofRaw_congr, ?unknown,
    ?renamed, ?canonical, canonical_idem raw, ?explicit⟩
  case filled =>
    intro directory here
    have filled : ∀ field ∈ fieldNames,
        ((settled directory raw overrides).canonical.override []).lookup field =
          ((raw.canonical.override overrides).lookup field).or ((defaults directory).lookup field) := by
      intro field known
      rw [lookup_merged known, lookup_merged known]
      exact lastOf?_settled known directory raw overrides
    simp only [ofRaw, validate_defaults here filled]
  case unknown =>
    let kept (name : String) : Bool := fieldNames.contains (canonicalName name)
    refine ofRaw_congr_lastOf fun field known _ => lastOf?_filter kept (fun name named => ?_) raw
    rw [← canonicalName_eq_iff known, beq_iff_eq] at named
    simpa [kept, named] using known
  case renamed =>
    -- the one entry counts for the same field under either name, and the others are the same
    rintro before name value after rfl
    refine ofRaw_congr_lastOf fun field known _ => ?_
    have same := lastOf?_congr_name known (canonicalName_idem name) value
    have split (entry : String × Yaml.Value) :
        lastOf? (before ++ entry :: after) field =
          ((lastOf? after field).or (lastOf? [entry] field)).or (lastOf? before field) := by
      rw [← List.singleton_append, lastOf?_append, lastOf?_append]
    rw [split, split, same]
  case canonical =>
    exact ofRaw_congr_lastOf fun field known _ => lastOf?_canonical known raw
  case explicit =>
    intro field given
    let kept (name : String) : Bool := canonicalName name != field
    refine ofRaw_congr_lastOf fun other known missing => lastOf?_filter kept (fun name named => ?_) raw
    rw [← canonicalName_eq_iff known, beq_iff_eq] at named
    refine bne_iff_ne.mpr ?_
    rw [named]
    rintro rfl
    rw [missing] at given
    cases given

example :
    chosen [("FILE_TYPE_LIMIT", .int 1), ("symbol_limit", .int 2), ("logCount", .int 3)] [("symbol_limit", .null)]
      "symbol_limit" = some (.int 3) := rfl

end Settings

end CheckCost
