import CheckCost.Entries
import CheckCost.Yaml.Value

/-!
Settings before they are checked: values by name. Some names stand for others. Of several names for one
setting the last one wins, and what is given explicitly wins over a file.
-/
namespace CheckCost

abbrev RawSettings := List (String × Yaml.Value)

namespace RawSettings

def aliases : List (String × String) :=
  [("FILE_LIMIT", "file_limit"), ("FILE_TYPE_LIMIT", "symbol_limit"), ("TRACE_FILE", "trace_file"),
    ("TYPES_FILE", "types_file"), ("PATTERN", "pattern"), ("logCount", "symbol_limit"),
    ("traceFile", "trace_file"), ("typesFile", "types_file"), ("mode", "strategy")]

def canonicalName (name : String) : String := (aliases.lookup name).getD name

def canonical (raw : RawSettings) : RawSettings :=
  Entries.putAll [] (raw.map fun (name, value) => (canonicalName name, value))

def isGiven (value : Yaml.Value) : Bool :=
  match value with
  | .null => false
  | _ => true

/-- Explicit settings replace others. They have to use the settings' own names, and null is none. -/
def override (raw overrides : RawSettings) : RawSettings :=
  Entries.putAll raw (overrides.filter fun (_, value) => isGiven value)

/-- The fields of a mapping whose keys are all text. -/
def ofFields? (fields : List (Yaml.Value × Yaml.Value)) : Option RawSettings :=
  fields.mapM fun
    | (.str name, value) => some (name, value)
    | _ => none

theorem canonicalName_idem (name : String) :
    canonicalName (canonicalName name) = canonicalName name := by
  have settled : ∀ entry ∈ aliases, aliases.lookup entry.2 = none := by decide
  unfold canonicalName
  cases found : aliases.lookup name with
  | none => simp [found]
  | some other =>
    obtain ⟨before, after, split, -⟩ := List.lookup_eq_some_iff.1 found
    have : aliases.lookup other = none := settled (name, other) (by simp [split])
    simp [this]

end RawSettings

end CheckCost
