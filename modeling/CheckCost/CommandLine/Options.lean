import CheckCost.CommandLine.Arguments
import CheckCost.Settings

/-!
The options of the command and the settings that they give.
-/
namespace CheckCost

inductive OutputFormat where
  | text
  | json
  deriving DecidableEq, Repr

def OutputFormat.ofName? (name : String) : Option OutputFormat :=
  if name = "text" then some text else if name = "json" then some json else none

namespace CommandLine

inductive OptionName where
  | traceFile
  | typesFile
  | pattern
  | fileLimit
  | symbolLimit
  | mode
  | checkName
  | dependencyMarker
  | format
  | config
  | verbose
  deriving DecidableEq, Repr

open OptionName in
def specs : List (Spec OptionName) :=
  [⟨traceFile, "--trace-file", none, true⟩, ⟨typesFile, "--types-file", none, true⟩,
    ⟨pattern, "--pattern", some 'p', true⟩, ⟨fileLimit, "--file-limit", some 'f', true⟩,
    ⟨symbolLimit, "--symbol-limit", some 't', true⟩, ⟨mode, "--mode", some 'm', true⟩,
    ⟨checkName, "--check-name", none, true⟩,
    ⟨dependencyMarker, "--dependency-marker", none, true⟩, ⟨format, "--format", none, true⟩,
    ⟨config, "--config", none, true⟩, ⟨verbose, "--verbose", some 'v', false⟩]

structure Options where
  /-- Settings that were given, under their own names. -/
  overrides : RawSettings
  format : OutputFormat
  config : Option Path

/-- An option that has to fit, if it is given; nothing if it does not. -/
def fitting? (read : String → Option α) : Option String → Option (Option α)
  | none => some none
  | some value => (read value).map some

def integer? (text : String) : Option Int := (Number.integer? text).toOption

def setting (name : String) (make : α → Yaml.Value) (value : Option α) : RawSettings :=
  (value.map fun given => (name, make given)).toList

/-- The options that arguments give. Those that are not understood give none. -/
def options? (arguments : List String) : Option Options := do
  let given ← parse? specs arguments
  let fileLimit ← fitting? integer? (last? given .fileLimit)
  let symbolLimit ← fitting? integer? (last? given .symbolLimit)
  let mode ← fitting? Strategy.ofName? (last? given .mode)
  let format ← fitting? OutputFormat.ofName? (last? given .format)
  let names := values given .checkName
  let path := fun (text : String) => Yaml.Value.str (Path.ofString text).text
  return {
    overrides :=
      setting "trace_file" path (last? given .traceFile) ++
        setting "types_file" path (last? given .typesFile) ++
        setting "pattern" .str (last? given .pattern) ++
        setting "file_limit" .int fileLimit ++
        setting "symbol_limit" .int symbolLimit ++
        setting "strategy" (fun mode => .str (Strategy.name mode)) mode ++
        setting "check_names" (fun names => .seq (names.map .str))
          (if names.isEmpty then none else some names) ++
        setting "dependency_marker" .str (last? given .dependencyMarker)
    format := format.getD .text
    config := (last? given .config).bind fun text =>
      if text.isEmpty then none else some (Path.ofString text) }

end CommandLine

end CheckCost
