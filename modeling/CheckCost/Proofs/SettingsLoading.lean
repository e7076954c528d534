import CheckCost.CommandLine
import CheckCost.Proofs.Precedence
import CheckCost.Proofs.Text.Utf8
import Mathlib.Data.List.Infix

/-!
Loading the settings. What is loaded is in range, and most of what can be wrong with a file is explained to the
user. Some of it breaks the command off, and a document that counts as empty passes for a mapping. No more than the
first is said of a text that writes half of a pair, and of a document that holds itself or nests deeper than every
reader follows it.
-/
namespace CheckCost

open Outcome

/-! Documents that nest. -/

namespace Yaml

/-- The token begins a collection. -/
def Token.opens : Token → Bool
  | .blockSequenceStart | .blockMappingStart | .flowSequenceStart | .flowMappingStart => true
  | _ => false

/-- The token ends a collection. -/
def Token.closes : Token → Bool
  | .blockEnd | .flowSequenceEnd | .flowMappingEnd => true
  | _ => false

/-- Nowhere among the tokens are more collections open. -/
def Token.OpenAtMost (levels : Nat) (tokens : List Token) : Prop :=
  ∀ first ∈ tokens.inits, first.countP opens ≤ first.countP closes + levels

instance (levels : Nat) (tokens : List Token) : Decidable (Token.OpenAtMost levels tokens) :=
  inferInstanceAs (Decidable
    (∀ first ∈ tokens.inits, first.countP Token.opens ≤ first.countP Token.closes + levels))

/-- With what its aliases stand for written out, the node has so many levels at most. One that holds itself has
no end. -/
inductive Node.HasLevels : Nat → Node → Prop where
  | scalar {n : Nat} (tag : Tag) (text : List Char) : HasLevels (n + 1) (.scalar tag text)
  | seq {n : Nat} (tag : Tag) {items : List Node} (inside : ∀ item ∈ items, HasLevels n item) :
      HasLevels (n + 1) (.seq tag items)
  | map {n : Nat} (tag : Tag) {fields : List (Node × Node)} (keys : ∀ field ∈ fields, HasLevels n field.1)
      (values : ∀ field ∈ fields, HasLevels n field.2) : HasLevels (n + 1) (.map tag fields)

/-- Every reader follows a document so far down. Of the thousand calls that it may make inside each other, no level
takes more than four. -/
def safeLevels : Nat := 128

end Yaml

namespace FileContent

/-- The bytes are a text in UTF-8; its lines end with line feeds. -/
def HoldsText (content : FileContent) (text : String) : Prop :=
  ∃ written : String, content = .ok written.toUTF8.data.toList ∧
    text = String.ofList (FileText.unifyLineEnds written.toList)

/-- The text is a document of this value once the variables are put in. -/
def HoldsDocument (env : Environment) (content : FileContent) (value : Yaml.Value) : Prop :=
  ∃ text, content.HoldsText text ∧ Yaml.Value.ofText (env.expand text) = .ok value

/-- The text writes no half of a pair, and its document neither holds itself nor nests too deep. -/
structure IsOrdinary (env : Environment) (content : FileContent) : Prop where
  whole : ∀ text code, content.HoldsText text → Yaml.Value.ofText (env.expand text) ≠ .error (.half code)
  nests : ∀ text, content.HoldsText text →
    Yaml.Token.OpenAtMost Yaml.safeLevels (Yaml.Token.ofChars (env.expand text).toList)
  ends : ∀ text node, content.HoldsText text →
    Yaml.Document.node? (Yaml.Token.ofChars (env.expand text).toList) = .ok (some node) →
      node.HasLevels Yaml.safeLevels

/-- The document is a mapping of these fields, or one that counts as empty. -/
inductive HoldsFields (env : Environment) (content : FileContent) : List (Yaml.Value × Yaml.Value) → Prop where
  | mapping {fields : List (Yaml.Value × Yaml.Value)} (holds : content.HoldsDocument env (.map fields)) :
      HoldsFields env content fields
  | empty {value : Yaml.Value} (holds : content.HoldsDocument env value) (empty : value.isEmpty = true) :
      HoldsFields env content []

/-- What is wrong with a file, its text, its document, its names or its paths, without being explained. -/
inductive BreaksOff (env : Environment) (working : Path) (overrides : RawSettings) : FileContent → Prop where
  | path : BreaksOff env working overrides (.error .nul)
  | bytes {bytes : List UInt8} (noText : ∀ text : String, text.toUTF8.data.toList ≠ bytes) :
      BreaksOff env working overrides (.ok bytes)
  | value {content : FileContent} {text : String} {fault : Yaml.Fault} (holds : content.HoldsText text)
      (refused : Yaml.Value.ofText (env.expand text) = .error fault)
      (wellFormed : ∀ trouble, fault ≠ .malformed trouble) (whole : ∀ code, fault ≠ .half code) :
      BreaksOff env working overrides content
  | name {content : FileContent} {fields : List (Yaml.Value × Yaml.Value)} (holds : content.HoldsFields env fields)
      (foreign : ∃ field ∈ fields, ∀ name, field.1 ≠ .str name) : BreaksOff env working overrides content
  | input {content : FileContent} {fields : List (Yaml.Value × Yaml.Value)} {raw : RawSettings} {settings : Settings}
      (holds : content.HoldsFields env fields) (named : RawSettings.ofFields? fields = some raw)
      (valid : Settings.validate working (raw.canonical.override overrides) = .ok settings)
      (nul : (settings.base.join settings.traceFile).holdsNul ∨ (settings.base.join settings.typesFile).holdsNul) :
      BreaksOff env working overrides content

end FileContent

namespace Settings

/-- The numbers are those that limits and a width can be. -/
structure InRange (settings : Settings) : Prop where
  files : 0 ≤ settings.fileLimit
  symbols : 0 ≤ settings.symbolLimit
  width : 1 ≤ settings.nameWidth

/-! Settings that are returned. -/

theorem integerFrom_ok {least n : Int} {value : Yaml.Value} (run : Validation.integerFrom least value = .ok n) :
    least ≤ n := by
  obtain ⟨read, _, checked⟩ := bind_ok_iff.mp run
  split at checked
  · cases checked
  · next enough =>
    cases checked
    exact Int.not_lt.mp enough

theorem readSingle_ok {raw : RawSettings} {field : String} {default result : α}
    {check : Yaml.Value → Except ProblemKind α} (run : readSingle raw field default check = .ok result) :
    result = default ∨ ∃ value, check value = .ok result := by
  unfold readSingle read at run
  split at run
  · exact .inr ⟨_, mapError_ok_iff.mp run⟩
  · cases run
    exact .inl rfl

theorem le_of_readSingle {raw : RawSettings} {field : String} {least default n : Int} (fits : least ≤ default)
    (run : readSingle raw field default (Validation.integerFrom least) = .ok n) : least ≤ n := by
  obtain rfl | ⟨value, checked⟩ := readSingle_ok run
  · exact fits
  · exact integerFrom_ok checked

theorem inRange_of_validate {working : Path} {raw : RawSettings} {settings : Settings}
    (run : validate working raw = .ok settings) : settings.InRange := by
  have run := mapError_ok_iff.mp run
  obtain ⟨traceFile, _, run⟩ := bind_ok_iff.mp run
  obtain ⟨typesFile, _, run⟩ := bind_ok_iff.mp run
  obtain ⟨pattern, _, run⟩ := bind_ok_iff.mp run
  obtain ⟨fileLimit, files, run⟩ := bind_ok_iff.mp run
  obtain ⟨symbolLimit, symbols, run⟩ := bind_ok_iff.mp run
  obtain ⟨strategy, _, run⟩ := bind_ok_iff.mp run
  obtain ⟨names, _, run⟩ := bind_ok_iff.mp run
  obtain ⟨categories, _, run⟩ := bind_ok_iff.mp run
  obtain ⟨marker, _, run⟩ := bind_ok_iff.mp run
  obtain ⟨nameWidth, width, run⟩ := bind_ok_iff.mp run
  obtain ⟨base, _, run⟩ := bind_ok_iff.mp run
  cases run
  exact ⟨le_of_readSingle (by decide) files, le_of_readSingle (by decide) symbols,
    le_of_readSingle (by decide) width⟩

end Settings

/-! What is read of a file. -/

namespace FileContent

theorem holdsText_iff {content : FileContent} {cs : List Char} :
    content.HoldsText (String.ofList cs) ↔ ∃ bytes, content = .ok bytes ∧ FileText.ofBytes bytes = .ok cs := by
  constructor
  · intro ⟨written, content, text⟩
    have decoded := Text.Utf8.decode_eq_text_iff.mpr (Eq.refl written.toUTF8.data.toList)
    refine ⟨_, content, ?_⟩
    rw [FileText.ofBytes, decoded, String.ofList_inj.mp text]
    rfl
  · intro ⟨bytes, content, read⟩
    obtain ⟨decoded, eq, lines⟩ := map_ok_iff.mp read
    have encoded : (String.ofList decoded).toUTF8.data.toList = bytes :=
      Text.Utf8.decode_eq_text_iff.mp (by rwa [String.toList_ofList])
    exact ⟨String.ofList decoded, by rw [content, encoded], by rw [String.toList_ofList, lines]⟩

theorem ofBytes_fails_iff {bytes : List UInt8} :
    (∃ fault, FileText.ofBytes bytes = .error fault) ↔ ∀ text : String, text.toUTF8.data.toList ≠ bytes := by
  constructor
  · intro ⟨fault, refused⟩ text encoded
    rw [FileText.ofBytes, Text.Utf8.decode_eq_text_iff.mpr encoded] at refused
    cases refused
  · intro noText
    cases read : FileText.ofBytes bytes with
    | error fault => exact ⟨fault, rfl⟩
    | ok cs =>
      obtain ⟨written, content, _⟩ := holdsText_iff.mpr ⟨bytes, rfl, read⟩
      exact absurd (Except.ok.inj content).symm (noText written)

theorem HoldsText.unique {content : FileContent} {text other : String} (holds : content.HoldsText text)
    (again : content.HoldsText other) : text = other := by
  rw [← String.ofList_toList (s := text)] at holds
  rw [← String.ofList_toList (s := other)] at again
  obtain ⟨bytes, rfl, read⟩ := holdsText_iff.mp holds
  obtain ⟨_, same, read'⟩ := holdsText_iff.mp again
  cases same
  exact String.toList_inj.mp (Except.ok.inj (read.symm.trans read'))

/-- Why a file gives no fields. -/
inductive Refuses (env : Environment) (path : Path) : FileContent → DocumentFault → Prop where
  | file {cause : FileFault} : Refuses env path (.error cause) (Settings.notRead path cause)
  | bytes {bytes : List UInt8} {cause : Text.Utf8.Fault} (refused : FileText.ofBytes bytes = .error cause) :
      Refuses env path (.ok bytes) (.notUtf8 cause)
  | value {content : FileContent} {text : String} {cause : Yaml.Fault} (holds : content.HoldsText text)
      (refused : Yaml.Value.ofText (env.expand text) = .error cause) : Refuses env path content (.notYaml path cause)
  | kind {content : FileContent} {value : Yaml.Value} (holds : content.HoldsDocument env value)
      (other : ∀ fields, value ≠ .map fields) (filled : value.isEmpty = false) :
      Refuses env path content (.notMapping path value.kind)

end FileContent

namespace Settings

variable {env : Environment} {working path : Path} {content : FileContent} {overrides : RawSettings}

theorem mapping_of_holdsText {text : String} (holds : content.HoldsText text) :
    mapping env path content = mappingOf env path text := by
  rw [← String.ofList_toList (s := text)] at holds ⊢
  obtain ⟨bytes, rfl, read⟩ := FileContent.holdsText_iff.mp holds
  simp only [mapping, Except.mapError, read, bind, Except.bind]

theorem mapping_of_holdsFields {fields : List (Yaml.Value × Yaml.Value)} (holds : content.HoldsFields env fields) :
    mapping env path content = .ok fields := by
  cases holds with
  | mapping holds =>
    obtain ⟨text, written, read⟩ := holds
    rw [mapping_of_holdsText written, mappingOf, read]
    rfl
  | @empty value holds empty =>
    obtain ⟨text, written, read⟩ := holds
    rw [mapping_of_holdsText written, mappingOf, read]
    cases value <;> simp_all [Yaml.Value.isEmpty, Except.mapError, bind, Except.bind, pure, Except.pure]

theorem mapping_of_refuses {fault : DocumentFault} (refuses : content.Refuses env path fault) :
    mapping env path content = .error fault := by
  cases refuses with
  | file => rfl
  | bytes refused =>
    simp only [mapping, Except.mapError, refused, bind, Except.bind]
  | value holds refused =>
    rw [mapping_of_holdsText holds, mappingOf, refused]
    rfl
  | @kind _ value holds other filled =>
    obtain ⟨text, written, read⟩ := holds
    rw [mapping_of_holdsText written, mappingOf, read]
    cases value <;> simp_all [Except.mapError, bind, Except.bind]

/-- A file gives the fields of its document, or there is a reason why it gives none. -/
theorem mapping_cases (env : Environment) (path : Path) (content : FileContent) :
    (∃ fields, content.HoldsFields env fields) ∨ ∃ fault, content.Refuses env path fault := by
  cases content with
  | error cause => exact .inr ⟨_, .file⟩
  | ok bytes =>
    cases decoded : FileText.ofBytes bytes with
    | error cause => exact .inr ⟨_, .bytes decoded⟩
    | ok cs =>
      have written := FileContent.holdsText_iff.mpr ⟨bytes, rfl, decoded⟩
      cases read : Yaml.Value.ofText (env.expand (String.ofList cs)) with
      | error cause => exact .inr ⟨_, .value written read⟩
      | ok value =>
        have holds : FileContent.HoldsDocument env (.ok bytes) value := ⟨_, written, read⟩
        by_cases empty : value.isEmpty = true
        · exact .inl ⟨[], .empty holds empty⟩
        · by_cases map : ∃ fields, value = .map fields
          · obtain ⟨fields, rfl⟩ := map
            exact .inl ⟨fields, .mapping holds⟩
          · exact .inr ⟨_, .kind holds (not_exists.mp map) (Bool.not_eq_true _ ▸ empty)⟩

theorem mapping_ok_iff {fields : List (Yaml.Value × Yaml.Value)} :
    mapping env path content = .ok fields ↔ content.HoldsFields env fields := by
  constructor
  · intro run
    obtain ⟨others, holds⟩ | ⟨fault, refuses⟩ := mapping_cases env path content
    · cases run.symm.trans (mapping_of_holdsFields holds)
      exact holds
    · cases run.symm.trans (mapping_of_refuses refuses)
  · exact mapping_of_holdsFields

theorem mapping_error_iff {fault : DocumentFault} :
    mapping env path content = .error fault ↔ content.Refuses env path fault := by
  constructor
  · intro run
    obtain ⟨fields, holds⟩ | ⟨other, refuses⟩ := mapping_cases env path content
    · cases run.symm.trans (mapping_of_holdsFields holds)
    · cases run.symm.trans (mapping_of_refuses refuses)
      exact refuses
  · exact mapping_of_refuses

/-! Settings that are not returned. -/

theorem ofFields?_cons (key value : Yaml.Value) (rest : List (Yaml.Value × Yaml.Value)) :
    RawSettings.ofFields? ((key, value) :: rest) =
      match key with
      | .str name => (RawSettings.ofFields? rest).map ((name, value) :: ·)
      | _ => none := by
  unfold RawSettings.ofFields?
  rw [List.mapM_cons]
  cases key with
  | str name => exact (Option.map_eq_bind ..).symm
  | _ => rfl

theorem ofFields?_eq_none_iff {fields : List (Yaml.Value × Yaml.Value)} :
    RawSettings.ofFields? fields = none ↔ ∃ field ∈ fields, ∀ name, field.1 ≠ .str name := by
  induction fields with
  | nil => simp [RawSettings.ofFields?]
  | cons field rest ih =>
    obtain ⟨key, value⟩ := field
    rw [ofFields?_cons]
    cases key with
    | str name => simpa using ih
    | _ => simp

/-! Loading as a whole. -/

theorem ofMapping_of_named {fields : List (Yaml.Value × Yaml.Value)} {raw : RawSettings}
    (named : RawSettings.ofFields? fields = some raw) :
    ofMapping working fields overrides = ofRaw working raw overrides := by
  rw [ofMapping, named]

theorem ofFile_error_iff {fault : DocumentFault} :
    ofFile env working path content overrides = .error fault ↔
      content.Refuses env path fault ∨
        ∃ fields, content.HoldsFields env fields ∧
          ∃ cause, ofMapping working fields overrides = .error cause ∧ .settings cause = fault := by
  unfold ofFile
  simp only [bind_error_iff, mapError_error_iff, mapping_error_iff, mapping_ok_iff]

theorem ofFile_of_holdsFields {fields : List (Yaml.Value × Yaml.Value)} (holds : content.HoldsFields env fields) :
    ofFile env working path content overrides = (ofMapping working fields overrides).mapError .settings := by
  rw [ofFile, mapping_of_holdsFields holds]
  rfl

theorem ofFile_of_refuses {fault : DocumentFault} (refuses : content.Refuses env path fault) :
    ofFile env working path content overrides = .error fault := by
  rw [ofFile, mapping_of_refuses refuses]
  rfl

theorem ofMapping_ok {fields : List (Yaml.Value × Yaml.Value)} {settings : Settings}
    (run : ofMapping working fields overrides = .ok settings) : settings.InRange := by
  unfold ofMapping at run
  split at run
  · exact inRange_of_validate (validate_of_ofRaw run)
  · cases run

theorem inRange_of_ofFile {settings : Settings} (run : ofFile env working path content overrides = .ok settings) :
    settings.InRange := by
  obtain ⟨fields, _, run⟩ := bind_ok_iff.mp run
  exact ofMapping_ok (mapError_ok_iff.mp run)

theorem breaksOff_of_refuses (ordinary : content.IsOrdinary env) {fault : DocumentFault}
    (refuses : content.Refuses env path fault)
    (silent : (CommandLine.RunFault.settings fault).isExplained = false) :
    content.BreaksOff env working overrides := by
  cases refuses with
  | @file cause =>
    cases cause with
    | nul => exact .path
    | _ => cases silent
  | bytes refused => exact .bytes (FileContent.ofBytes_fails_iff.mp ⟨_, refused⟩)
  | @value _ _ cause holds refused =>
    refine .value holds refused ?_ ?_
    · rintro trouble rfl
      cases silent
    · rintro code rfl
      exact ordinary.whole _ code holds refused
  | kind => cases silent

theorem breaksOff_of_ofMapping {fields : List (Yaml.Value × Yaml.Value)} {cause : SettingsFault}
    (holds : content.HoldsFields env fields) (refused : ofMapping working fields overrides = .error cause)
    (silent : (CommandLine.RunFault.settings (.settings cause)).isExplained = false) :
    content.BreaksOff env working overrides := by
  cases named : RawSettings.ofFields? fields with
  | none => exact .name holds (ofFields?_eq_none_iff.mp named)
  | some raw =>
    rw [ofMapping_of_named named] at refused
    obtain ⟨problems, _, rfl⟩ | ⟨settings, valid, nul, rfl⟩ := ofRaw_error_iff.mp refused
    · cases silent
    · exact .input holds named valid nul

theorem unexplained_of_breaksOff (broken : content.BreaksOff env working overrides) :
    ∃ fault, ofFile env working path content overrides = .error fault ∧
      (CommandLine.RunFault.settings fault).isExplained = false := by
  cases broken with
  | path => exact ⟨_, ofFile_of_refuses .file, rfl⟩
  | bytes noText =>
    obtain ⟨cause, refused⟩ := FileContent.ofBytes_fails_iff.mpr noText
    exact ⟨_, ofFile_of_refuses (.bytes refused), rfl⟩
  | @value _ text cause holds refused wellFormed =>
    refine ⟨_, ofFile_of_refuses (.value holds refused), ?_⟩
    -- only a malformed text is explained
    cases cause with
    | malformed trouble => exact absurd rfl (wellFormed trouble)
    | _ => rfl
  | name holds foreign =>
    refine ⟨.settings .foreignName, ?_, rfl⟩
    rw [ofFile_of_holdsFields holds, ofMapping, ofFields?_eq_none_iff.mpr foreign]
    rfl
  | input holds named valid nul =>
    refine ⟨.settings .impossiblePath, ?_, rfl⟩
    have refused := ofRaw_error_iff.mpr (.inr ⟨_, valid, nul, rfl⟩)
    rw [ofFile_of_holdsFields holds, ofMapping_of_named named, refused]
    rfl

theorem unexplained_iff (ordinary : content.IsOrdinary env) :
    (∃ fault, ofFile env working path content overrides = .error fault ∧
      (CommandLine.RunFault.settings fault).isExplained = false) ↔ content.BreaksOff env working overrides := by
  constructor
  · intro ⟨fault, run, silent⟩
    obtain refuses | ⟨fields, holds, cause, refused, rfl⟩ := ofFile_error_iff.mp run
    · exact breaksOff_of_refuses ordinary refuses silent
    · exact breaksOff_of_ofMapping holds refused silent
  · exact unexplained_of_breaksOff

theorem ofFile_notMapping_iff {value : Yaml.Value} (holds : content.HoldsDocument env value) :
    ofFile env working path content overrides = .error (.notMapping path value.kind) ↔
      (∀ fields, value ≠ .map fields) ∧ value.isEmpty = false := by
  constructor
  · intro run
    have never : ∀ fields, ¬ content.HoldsFields env fields := by
      intro fields holds
      rw [ofFile_of_holdsFields holds] at run
      obtain ⟨cause, _, other⟩ := mapError_error_iff.mp run
      cases other
    refine ⟨?_, ?_⟩
    · rintro fields rfl
      exact never fields (.mapping holds)
    · rw [← Bool.not_eq_true]
      exact fun empty => never [] (.empty holds empty)
  · intro ⟨other, filled⟩
    exact ofFile_of_refuses (.kind holds other filled)

theorem ofFile_of_empty {value : Yaml.Value} (holds : content.HoldsDocument env value)
    (empty : value.isEmpty = true) :
    ofFile env working path content overrides = (ofRaw working [] overrides).mapError .settings :=
  ofFile_of_holdsFields (.empty holds empty)

theorem noBytes_holdsDocument (env : Environment) : FileContent.HoldsDocument env (.ok []) .null := by
  have noText : FileContent.HoldsText (.ok []) "" := FileContent.holdsText_iff.mpr ⟨[], rfl, rfl⟩
  have unchanged : env.expand "" = "" := rfl
  exact ⟨"", noText, by rw [unchanged]; rfl⟩

end Settings

end CheckCost
