import CheckCost.CommandLine
import CheckCost.Proofs.Json.Refusal
import CheckCost.Proofs.Outcome

/-!
Loading the two inputs. A file that holds no array counts as one that holds an empty array, and a warning
tells of it; the other file is read as ever. What ends the loading is an integer of too many digits, an array or
object for which there is no room inside the others, or a path that no file can have. Nothing is said of files that
write half of a pair, which is no character.
-/
namespace CheckCost

open Outcome

namespace FileContent

/-- The bytes are a text that writes an array of these items. -/
def HoldsArray (content : FileContent) (items : List Json) : Prop :=
  ∃ bytes cs, content = .ok bytes ∧ FileText.ofBytes bytes = .ok cs ∧ Json.ofChars cs = .ok (.arr items)

section Room

variable (room : Json.Room)

inductive Stops : FileContent → InputFault → Prop where
  | path : Stops (.error .nul) .impossiblePath
  | number {bytes : List UInt8} {cs : List Char} {fault : NumberFault} (text : FileText.ofBytes bytes = .ok cs)
      (refused : Json.ofCharsWithin room cs = .error (.number fault)) : Stops (.ok bytes) (.number fault)
  | deep {bytes : List UInt8} {cs : List Char} {container : Json.Container} (text : FileText.ofBytes bytes = .ok cs)
      (refused : Json.ofCharsWithin room cs = .error (.tooDeep container)) : Stops (.ok bytes) (.tooDeep container)

/-- The reader comes upon no half of a pair. -/
def IsWhole (content : FileContent) : Prop :=
  ∀ bytes cs unit, content = .ok bytes → FileText.ofBytes bytes = .ok cs →
    Json.ofCharsWithin room cs ≠ .error (.half unit)

/-- There is no array, and nothing that ends the loading. -/
structure IsLost (content : FileContent) : Prop where
  noArray : ∀ items, ¬ content.HoldsArray items
  goesOn : ∀ fault, ¬ content.Stops room fault
  whole : content.IsWhole room

/-- What a side of the inputs comes to: the items of its array, or no rows and one warning. -/
inductive Gives (label : String) (path : Path) (content : FileContent) : List Json → List String → Prop where
  | rows {items : List Json} (holds : content.HoldsArray items) (goesOn : ∀ fault, ¬ content.Stops room fault) :
      Gives label path content items []
  | warning {fault : ArrayFault} (lost : content.IsLost room)
      (refused : Inputs.array room path content = .error (.array fault)) :
      Gives label path content [] [s!"{label} file treated as empty: {fault.message}"]

end Room

variable {room : Json.Room}

/-- What ends the reading of a text is what its reader refuses without a place. -/
theorem Stops.refused {bytes : List UInt8} {cs : List Char} {fault : InputFault}
    (text : FileText.ofBytes bytes = .ok cs) (stops : Stops room (.ok bytes) fault) :
    (∃ number, Json.ofCharsWithin room cs = .error (.number number) ∧ fault = .number number) ∨
      ∃ container, Json.ofCharsWithin room cs = .error (.tooDeep container) ∧ fault = .tooDeep container := by
  cases stops with
  | number again refused =>
    cases text.symm.trans again
    exact .inl ⟨_, refused, rfl⟩
  | deep again refused =>
    cases text.symm.trans again
    exact .inr ⟨_, refused, rfl⟩

theorem Stops.unique {content : FileContent} {fault other : InputFault} (first : content.Stops room fault)
    (second : content.Stops room other) : fault = other := by
  cases first with
  | path =>
    cases second
    rfl
  | number text refused =>
    obtain ⟨number, again, rfl⟩ | ⟨container, again, rfl⟩ := second.refused text
    · cases refused.symm.trans again
      rfl
    · cases refused.symm.trans again
  | deep text refused =>
    obtain ⟨number, again, rfl⟩ | ⟨container, again, rfl⟩ := second.refused text
    · cases refused.symm.trans again
    · cases refused.symm.trans again
      rfl

theorem not_stops_of_ok {bytes : List UInt8} {cs : List Char} {value : Json}
    (text : FileText.ofBytes bytes = .ok cs) (read : Json.ofCharsWithin room cs = .ok value) (fault : InputFault) :
    ¬ Stops room (.ok bytes) fault := by
  intro stops
  obtain ⟨number, refused, _⟩ | ⟨container, refused, _⟩ := stops.refused text
  · cases read.symm.trans refused
  · cases read.symm.trans refused

theorem holdsArray_of_read {bytes : List UInt8} {cs : List Char} {items : List Json}
    (text : FileText.ofBytes bytes = .ok cs) (read : Json.ofCharsWithin room cs = .ok (.arr items)) :
    HoldsArray (.ok bytes) items := by
  have unlimited := Json.ofCharsWithin_eq room cs (by simp [read])
  exact ⟨bytes, cs, rfl, text, unlimited ▸ read⟩

/-- A text is lost if it writes no array and nothing but its form is wrong. -/
theorem isLost_of_text {bytes : List UInt8} {cs : List Char} (text : FileText.ofBytes bytes = .ok cs)
    (noArray : ∀ items, Json.ofCharsWithin room cs ≠ .ok (.arr items))
    (malformed : ∀ refusal, Json.ofCharsWithin room cs = .error refusal →
      ∃ complaint left, refusal = .malformed complaint left) : IsLost room (.ok bytes) := by
  have never : ∀ refusal, (∀ complaint left, refusal ≠ .malformed complaint left) →
      Json.ofCharsWithin room cs ≠ .error refusal := by
    intro refusal other refused
    obtain ⟨complaint, left, same⟩ := malformed refusal refused
    exact other complaint left same
  have unlimited := Json.ofCharsWithin_eq room cs fun container => never _ (by simp)
  refine ⟨?noArray, ?goesOn, ?whole⟩
  case noArray =>
    intro items ⟨_, _, same, again, array⟩
    cases same
    cases text.symm.trans again
    exact noArray items (unlimited.trans array)
  case goesOn =>
    intro fault stops
    obtain ⟨number, refused, _⟩ | ⟨container, refused, _⟩ := stops.refused text
    · exact never _ (by simp) refused
    · exact never _ (by simp) refused
  case whole =>
    intro _ _ unit same again
    cases same
    cases text.symm.trans again
    exact never _ (by simp)

theorem isLost_of_no_text {content : FileContent} (here : content ≠ .error .nul)
    (noText : ∀ bytes cs, content = .ok bytes → FileText.ofBytes bytes ≠ .ok cs) : content.IsLost room := by
  refine ⟨?noArray, ?goesOn, ?whole⟩
  case noArray =>
    intro items ⟨bytes, cs, same, text, _⟩
    exact noText bytes cs same text
  case goesOn =>
    intro fault stops
    cases stops with
    | path => exact here rfl
    | number text => exact noText _ _ rfl text
    | deep text => exact noText _ _ rfl text
  case whole => exact fun bytes cs _ same text => absurd text (noText bytes cs same)

end FileContent

namespace Inputs

/-- What becomes of a file that is read as an array. -/
inductive Reads (room : Json.Room) (content : FileContent) : Except InputFault (List Json) → Prop where
  | rows {items : List Json} (holds : content.HoldsArray items) (goesOn : ∀ fault, ¬ content.Stops room fault) :
      Reads room content (.ok items)
  | stops {fault : InputFault} (stops : content.Stops room fault) (other : ∀ lost, fault ≠ .array lost) :
      Reads room content (.error fault)
  | half {unit : Nat} (broken : ¬ content.IsWhole room) : Reads room content (.error (.half unit))
  | lost {fault : ArrayFault} (lost : content.IsLost room) : Reads room content (.error (.array fault))

variable {room : Json.Room}

theorem arrayOfText_reads (path : Path) {bytes : List UInt8} {cs : List Char}
    (text : FileText.ofBytes bytes = .ok cs) : Reads room (.ok bytes) (arrayOfText room path cs) := by
  unfold arrayOfText
  split
  · -- the reader is not asked, but it would refuse a text of gaps as malformed
    rename_i gaps
    obtain ⟨complaint, left, refused⟩ := Json.ofCharsWithin_of_gaps room (List.all_eq_true.mp gaps)
    exact .lost (FileContent.isLost_of_text text (by simp [refused]) (by simp [refused]))
  · cases read : Json.ofCharsWithin room cs with
    | error refusal =>
      cases refusal with
      | malformed => exact .lost (FileContent.isLost_of_text text (by simp [read]) (by simp [read]))
      | number => exact .stops (.number text read) (by simp)
      | tooDeep => exact .stops (.deep text read) (by simp)
      | half => exact .half fun whole => whole _ _ _ rfl text read
    | ok value =>
      cases value with
      | arr items => exact .rows (FileContent.holdsArray_of_read text read) (FileContent.not_stops_of_ok text read)
      | _ => exact .lost (FileContent.isLost_of_text text (by simp [read]) (by simp [read]))

theorem array_reads (room : Json.Room) (path : Path) (content : FileContent) :
    Reads room content (array room path content) := by
  cases content with
  | error fault =>
    by_cases nul : fault = .nul
    · subst nul
      exact .stops .path (by simp)
    · have lost : FileContent.IsLost room (.error fault) :=
        FileContent.isLost_of_no_text (by simpa using nul) (by simp)
      cases fault with
      | nul => exact absurd rfl nul
      | _ => exact .lost lost
  | ok bytes =>
    cases text : FileText.ofBytes bytes with
    | error fault =>
      have lost : FileContent.IsLost room (.ok bytes) := by
        refine FileContent.isLost_of_no_text (by simp) ?_
        intro _ _ same read
        cases same
        cases text.symm.trans read
      have refused : array room path (.ok bytes) = .error (.array (.notUtf8 path fault)) := by
        simp only [array, text]
      exact refused ▸ .lost lost
    | ok cs =>
      have read : array room path (.ok bytes) = arrayOfText room path cs := by simp only [array, text]
      exact read ▸ arrayOfText_reads path text

end Inputs

namespace FileContent

variable {room : Json.Room}

theorem Gives.not_stops {label : String} {path : Path} {content : FileContent} {rows : List Json}
    {warnings : List String} (gives : content.Gives room label path rows warnings) (fault : InputFault) :
    ¬ content.Stops room fault := by
  cases gives with
  | rows _ goesOn => exact goesOn fault
  | warning lost => exact lost.goesOn fault

/-- The text of an array without items. -/
def noRows : FileContent := .ok [0x5B, 0x5D]

open Classical in
/-- A lost file replaced by one with an empty array. -/
noncomputable def mended (room : Json.Room) (content : FileContent) : FileContent :=
  if content.IsLost room then noRows else content

end FileContent

namespace Inputs

variable {room : Json.Room}

/-- What a side comes to, or why it comes to nothing. -/
inductive Side (room : Json.Room) (label : String) (path : Path) (content : FileContent) :
    Except InputFault (List Json × List String) → Prop where
  | gives {rows : List Json} {warnings : List String} (gives : content.Gives room label path rows warnings) :
      Side room label path content (.ok (rows, warnings))
  | stops {fault : InputFault} (stops : content.Stops room fault) : Side room label path content (.error fault)
  | half {fault : InputFault} (broken : ¬ content.IsWhole room) : Side room label path content (.error fault)

theorem arrayOrWarning_side (room : Json.Room) (label : String) (path : Path) (content : FileContent) :
    Side room label path content (arrayOrWarning room label path content) := by
  have reads := array_reads room path content
  unfold arrayOrWarning
  generalize read : array room path content = result at reads
  cases reads with
  | rows holds goesOn => exact .gives (.rows holds goesOn)
  | @stops fault stops other =>
    cases fault with
    | array lost => exact absurd rfl (other lost)
    | _ => exact .stops stops
  | half broken => exact .half broken
  | lost lost => exact .gives (.warning lost read)

theorem arrayOrWarning_noRows (left : room ≠ some 0) (label : String) (path : Path) :
    arrayOrWarning room label path .noRows = .ok ([], []) := by
  have text : FileText.ofBytes [0x5B, 0x5D] = .ok ['[', ']'] := rfl
  have read : Json.ofCharsWithin room ['[', ']'] = .ok (.arr []) := by
    simp [Json.ofCharsWithin, Json.skipSpace, Json.isSpace, Json.value, left]
  have shown : arrayOfText room path ['[', ']'] = .ok [] := by
    simp only [arrayOfText, read]
    rfl
  simp only [arrayOrWarning, array, FileContent.noRows, text, shown]

/-- A mended file gives the same rows and no warning. -/
theorem arrayOrWarning_mended (left : room ≠ some 0) (label : String) (path : Path) (content : FileContent) :
    arrayOrWarning room label path (content.mended room) =
      (arrayOrWarning room label path content).map fun side => (side.1, []) := by
  have side := arrayOrWarning_side room label path content
  unfold FileContent.mended
  generalize read : arrayOrWarning room label path content = result at side
  cases side with
  | gives gives =>
    cases gives with
    | rows holds =>
      have kept : ¬ content.IsLost room := fun lost => lost.noArray _ holds
      rw [if_neg kept, read]
      rfl
    | warning lost =>
      rw [if_pos lost, arrayOrWarning_noRows left]
      rfl
  | @stops fault stops =>
    have kept : ¬ content.IsLost room := fun lost => lost.goesOn fault stops
    rw [if_neg kept, read]
    rfl
  | half broken =>
    have kept : ¬ content.IsLost room := fun lost => broken lost.whole
    rw [if_neg kept, read]
    rfl

theorem gives_of_arrayOrWarning {label : String} {path : Path} {content : FileContent} {rows : List Json}
    {warnings : List String} (run : arrayOrWarning room label path content = .ok (rows, warnings)) :
    content.Gives room label path rows warnings := by
  have side := arrayOrWarning_side room label path content
  generalize arrayOrWarning room label path content = result at run side
  subst run
  cases side with
  | gives gives => exact gives

theorem ofFiles_ok {tracePath typesPath : Path} {trace types : FileContent} {inputs : Inputs}
    (run : ofFiles room tracePath typesPath trace types = .ok inputs) :
    ∃ traceWarnings typesWarnings, trace.Gives room "trace" tracePath inputs.trace traceWarnings ∧
      types.Gives room "types" typesPath inputs.types typesWarnings ∧
        inputs.warnings = traceWarnings ++ typesWarnings := by
  obtain ⟨⟨traceRows, traceWarnings⟩, readTrace, run⟩ := bind_ok_iff.mp run
  obtain ⟨⟨typesRows, typesWarnings⟩, readTypes, run⟩ := bind_ok_iff.mp run
  cases run
  exact ⟨traceWarnings, typesWarnings, gives_of_arrayOrWarning readTrace, gives_of_arrayOrWarning readTypes, rfl⟩

theorem arrayOrWarning_succeeds {content : FileContent} (whole : content.IsWhole room)
    (goesOn : ∀ fault, ¬ content.Stops room fault) (label : String) (path : Path) :
    ∃ side, arrayOrWarning room label path content = .ok side := by
  have side := arrayOrWarning_side room label path content
  generalize arrayOrWarning room label path content = result at side
  cases side with
  | gives gives => exact ⟨_, rfl⟩
  | stops stops => exact absurd stops (goesOn _)
  | half broken => exact absurd whole broken

theorem ofFiles_succeeds_iff (tracePath typesPath : Path) {trace types : FileContent}
    (wholeTrace : trace.IsWhole room) (wholeTypes : types.IsWhole room) :
    (∃ inputs, ofFiles room tracePath typesPath trace types = .ok inputs) ↔
      (∀ fault, ¬ trace.Stops room fault) ∧ ∀ fault, ¬ types.Stops room fault := by
  constructor
  · intro ⟨inputs, run⟩
    obtain ⟨_, _, traceGives, typesGives, _⟩ := ofFiles_ok run
    exact ⟨traceGives.not_stops, typesGives.not_stops⟩
  · intro ⟨traceGoesOn, typesGoesOn⟩
    obtain ⟨traceSide, readTrace⟩ := arrayOrWarning_succeeds wholeTrace traceGoesOn "trace" tracePath
    obtain ⟨typesSide, readTypes⟩ := arrayOrWarning_succeeds wholeTypes typesGoesOn "types" typesPath
    exact ⟨⟨traceSide.1, typesSide.1, traceSide.2 ++ typesSide.2⟩, by rw [ofFiles, readTrace, readTypes]; rfl⟩

theorem ofFiles_of_stops {trace : FileContent} {fault : InputFault} (whole : trace.IsWhole room)
    (stops : trace.Stops room fault) (tracePath typesPath : Path) (types : FileContent) :
    ofFiles room tracePath typesPath trace types = .error fault := by
  have side := arrayOrWarning_side room "trace" tracePath trace
  generalize read : arrayOrWarning room "trace" tracePath trace = result at side
  cases side with
  | gives gives => exact absurd stops (gives.not_stops fault)
  | stops again =>
    rw [ofFiles, read, again.unique stops]
    rfl
  | half broken => exact absurd whole broken

theorem ofFiles_mended (left : room ≠ some 0) (tracePath typesPath : Path) (trace types : FileContent) :
    ofFiles room tracePath typesPath (trace.mended room) (types.mended room) =
      (ofFiles room tracePath typesPath trace types).map fun inputs => { inputs with warnings := [] } := by
  unfold ofFiles
  rw [arrayOrWarning_mended left, arrayOrWarning_mended left]
  cases arrayOrWarning room "trace" tracePath trace with
  | error fault => rfl
  | ok side =>
    cases arrayOrWarning room "types" typesPath types with
    | error fault => rfl
    | ok other => rfl

end Inputs

def Report.silent (report : Report D) : Report D := { report with warnings := [] }

theorem Report.ofMetrics_silent {D : Type} [Duration D] (strategy : Strategy) (limits : Limits) (counts : Counts)
    (warnings : List String) (metrics : List (Metric D)) :
    ofMetrics strategy limits counts [] metrics =
      (ofMetrics strategy limits counts warnings metrics).map silent := by
  unfold ofMetrics
  dsimp only
  cases Ranking.ranked (Ranking.total metrics) limits.items 1 (Ranking.groups strategy limits.groups metrics) with
  | error fault => rfl
  | ok groups => rfl

/-- The warnings of the inputs only reach the warnings of the report. -/
theorem Report.ofInputs_silent {D : Type} [Duration D] (settings : Settings) (inputs : Inputs) :
    ofInputs (D := D) settings { inputs with warnings := [] } = (ofInputs settings inputs).map silent := by
  have same : Inputs.metrics (D := D) settings.kinds settings.dependencyMarker { inputs with warnings := [] } =
      inputs.metrics settings.kinds settings.dependencyMarker := rfl
  unfold ofInputs
  rw [same]
  cases inputs.metrics (D := D) settings.kinds settings.dependencyMarker with
  | error fault => rfl
  | ok metrics =>
    change (Except.mapError _ (Glob.select settings.pattern metrics) >>= _) =
      (Except.mapError _ (Glob.select settings.pattern metrics) >>= _).map silent
    cases Glob.select settings.pattern metrics with
    | error fault => rfl
    | ok kept =>
      change (ofMetrics _ _ _ [] _).mapError _ = ((ofMetrics _ _ _ inputs.warnings _).mapError _).map silent
      rw [ofMetrics_silent _ _ _ inputs.warnings]
      cases ofMetrics settings.strategy ⟨settings.fileLimit, settings.symbolLimit⟩
          ⟨inputs.trace.length, inputs.types.length, metrics.length⟩ inputs.warnings kept with
      | error fault => rfl
      | ok report => rfl

/-! A long integer. -/

theorem Text.Utf8.decodeFrom_ascii {bytes : List UInt8} (ascii : ∀ b ∈ bytes, b < 0x80) (offset : Nat)
    (done : List Char) : decodeFrom offset none done bytes =
      .ok (done.reverse ++ bytes.map fun b => Char.ofNat b.toNat) := by
  induction bytes generalizing offset done with
  | nil => simp [decodeFrom]
  | cons b rest ih =>
    simp only [List.forall_mem_cons] at ascii
    simp [decodeFrom, ascii.1, ih ascii.2]

theorem FileText.unifyLineEnds_of_no_return {cs : List Char} (none : '\r' ∉ cs) : unifyLineEnds cs = cs := by
  fun_induction unifyLineEnds cs with
  | case1 rest ih => simp at none
  | case2 c rest _ ih =>
    simp only [List.mem_cons, not_or] at none
    rw [ih none.2, if_neg (Ne.symm none.1)]
  | case3 => rfl

/-- The text of an array of one integer, which is written with so many ones. -/
def FileContent.ones (count : Nat) : FileContent := .ok (0x5B :: (List.replicate count 0x31 ++ [0x5D]))

theorem FileContent.ofBytes_ones (count : Nat) :
    FileText.ofBytes (0x5B :: (List.replicate (count + 1) 0x31 ++ [0x5D])) =
      .ok ('[' :: '1' :: (List.replicate count '1' ++ [']'])) := by
  have ascii : ∀ b ∈ (0x5B :: (List.replicate (count + 1) 0x31 ++ [0x5D]) : List UInt8), b < 0x80 := by
    intro b member
    simp only [List.mem_cons, List.mem_append, List.mem_replicate, List.not_mem_nil, or_false] at member
    rcases member with rfl | ⟨_, rfl⟩ | rfl
    all_goals decide
  have none : '\r' ∉ '[' :: '1' :: (List.replicate count '1' ++ [']']) := by
    simp [List.mem_replicate]
  have decoded : Text.Utf8.decode (0x5B :: (List.replicate (count + 1) 0x31 ++ [0x5D])) =
      .ok ('[' :: '1' :: (List.replicate count '1' ++ [']'])) := by
    rw [Text.Utf8.decode, Text.Utf8.decodeFrom_ascii ascii]
    simp [List.replicate_succ, List.map_replicate]
  rw [FileText.ofBytes, decoded]
  exact congrArg Except.ok (FileText.unifyLineEnds_of_no_return none)

theorem FileContent.ones_stops {room : Json.Room} (left : room ≠ some 0) {count : Nat}
    (long : NumberFault.digitLimit < count + 1) :
    (ones (count + 1)).Stops room (.number (.tooManyDigits (count + 1))) := by
  refine .number (ofBytes_ones count) ?_
  have ones : ∀ d ∈ '1' :: List.replicate count '1', Json.isDigit d = true := by
    intro d member
    simp only [List.mem_cons, List.mem_replicate] at member
    rcases member with rfl | ⟨_, rfl⟩
    all_goals decide
  have refused := Json.ofCharsWithin_of_long left ones (by decide) (by simpa using long)
  simpa using refused

theorem Inputs.ofFiles_of_long (tracePath typesPath : Path) (types : FileContent) {room : Json.Room}
    (left : room ≠ some 0) {count : Nat} (long : NumberFault.digitLimit < count + 1) :
    ofFiles room tracePath typesPath (.ones (count + 1)) types = .error (.number (.tooManyDigits (count + 1))) := by
  have stops := FileContent.ones_stops left long
  have whole : (FileContent.ones (count + 1)).IsWhole room := by
    intro bytes cs unit same text half
    cases same
    obtain ⟨_, refused, _⟩ | ⟨_, refused, _⟩ := stops.refused text
    · cases half.symm.trans refused
    · cases half.symm.trans refused
  exact ofFiles_of_stops whole stops tracePath typesPath types

namespace CommandLine

theorem reportFor_mended {room : Json.Room} (left : room ≠ some 0) {m : Type → Type} [Monad m] [LawfulMonad m]
    (read : Path → m FileContent) (working : Path) (settings : Settings) :
    reportFor room (fun path => FileContent.mended room <$> read path) working settings =
      Except.map Report.silent <$> reportFor room read working settings := by
  simp only [reportFor, inputsFor, bind_map_left, bind_assoc, pure_bind, map_bind, Inputs.ofFiles_mended left]
  refine bind_congr fun trace => bind_congr fun types => ?_
  cases Inputs.ofFiles room (settings.tracePath working) (settings.typesPath working) trace types with
  | error fault =>
    rw [map_pure]
    rfl
  | ok inputs =>
    simp only [Except.map, Report.ofInputs_silent, map_pure]
    cases Report.ofInputs (D := Float) settings inputs with
    | error fault => rfl
    | ok report => rfl

/-- Inputs are returned exactly if neither file ends the loading. Each side then depends on its own file
alone, and each lost file leaves one warning. A file only ends the loading by more digits in a row than an
integer may have, or by more openings than there is room for. With the lost files mended, the run comes to the
same but for the warnings. -/
theorem loads_one_side_at_a_time (room : Json.Room) (tracePath typesPath : Path) (trace types : FileContent)
    (left : room ≠ some 0) (wholeTrace : trace.IsWhole room) (wholeTypes : types.IsWhole room) :
    ((∃ inputs, Inputs.ofFiles room tracePath typesPath trace types = .ok inputs) ↔
      (∀ fault, ¬ trace.Stops room fault) ∧ ∀ fault, ¬ types.Stops room fault) ∧
    (∀ inputs, Inputs.ofFiles room tracePath typesPath trace types = .ok inputs →
      ∃ traceWarnings typesWarnings, trace.Gives room "trace" tracePath inputs.trace traceWarnings ∧
        types.Gives room "types" typesPath inputs.types typesWarnings ∧
          inputs.warnings = traceWarnings ++ typesWarnings) ∧
    (∀ bytes fault, FileContent.Stops room (.ok bytes) fault → ∃ cs, FileText.ofBytes bytes = .ok cs ∧
      ((∃ number, fault = .number number ∧ Json.WritesTooMany cs number) ∨
        ∃ container, fault = .tooDeep container ∧ Json.OpensTooMany room cs)) ∧
    ∀ (m : Type → Type) [Monad m] [LawfulMonad m]
      (read : Path → m { content : FileContent // content.IsWhole room }) (working : Path) (settings : Settings),
      reportFor room (fun path => (fun content => content.val.mended room) <$> read path) working settings =
        Except.map Report.silent <$> reportFor room (fun path => Subtype.val <$> read path) working settings := by
  refine ⟨Inputs.ofFiles_succeeds_iff tracePath typesPath wholeTrace wholeTypes, ?_, ?_, ?_⟩
  · intro inputs run
    exact Inputs.ofFiles_ok run
  · intro bytes fault stops
    cases stops with
    | number text refused => exact ⟨_, text, .inl ⟨_, rfl, Json.writesTooMany_of_ofCharsWithin refused⟩⟩
    | deep text refused => exact ⟨_, text, .inr ⟨_, rfl, Json.opensTooMany_of_ofCharsWithin refused⟩⟩
  · intro m _ _ read working settings
    have mended := reportFor_mended left (fun path => Subtype.val <$> read path) working settings
    simpa only [Functor.map_map] using mended

theorem loads_types_of_missing_trace :
    Inputs.usualRoom ≠ some 0 ∧ FileContent.IsWhole Inputs.usualRoom (.error .missing) ∧
      FileContent.IsWhole Inputs.usualRoom (.ok [0x5B, 0x37, 0x5D]) ∧
      ∃ traceWarnings typesWarnings,
        FileContent.Gives Inputs.usualRoom "trace" (Path.ofString "trace.json") (.error .missing) []
          traceWarnings ∧
        FileContent.Gives Inputs.usualRoom "types" (Path.ofString "types.json") (.ok [0x5B, 0x37, 0x5D]) [.int 7]
          typesWarnings ∧
        ["trace file treated as empty: cannot read trace.json: No such file or directory"] =
          traceWarnings ++ typesWarnings := by
  have left : Inputs.usualRoom ≠ some 0 := by decide
  have wholeTrace : FileContent.IsWhole Inputs.usualRoom (.error .missing) := by
    intro _ _ _ same
    cases same
  have wholeTypes : FileContent.IsWhole Inputs.usualRoom (.ok [0x5B, 0x37, 0x5D]) := by
    intro _ _ _ same text half
    cases same
    cases text
    cases half
  refine ⟨left, wholeTrace, wholeTypes, ?_⟩
  exact (loads_one_side_at_a_time Inputs.usualRoom (Path.ofString "trace.json") (Path.ofString "types.json")
    (.error .missing) (.ok [0x5B, 0x37, 0x5D]) left wholeTrace wholeTypes).2.1 ⟨[], [.int 7], _⟩ rfl

end CommandLine

/-- A file that is no array is not always treated as empty. -/
theorem Inputs.refused_of_long_integer :
    ofFiles usualRoom (Path.ofString "trace.json") (Path.ofString "types.json") (.ones 4301) .noRows =
        .error (.number (.tooManyDigits 4301)) ∧
      ¬ ∃ inputs, ofFiles usualRoom (Path.ofString "trace.json") (Path.ofString "types.json") (.ones 4301) .noRows =
        .ok inputs := by
  have left : usualRoom ≠ some 0 := by decide
  have refused := ofFiles_of_long (Path.ofString "trace.json") (Path.ofString "types.json") .noRows left
    (show NumberFault.digitLimit < 4300 + 1 by decide)
  refine ⟨refused, ?_⟩
  intro returned
  obtain ⟨inputs, run⟩ := returned
  cases refused.symm.trans run

end CheckCost
