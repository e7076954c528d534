import CheckCost.Proofs.Yaml.Continuation
import CheckCost.Proofs.Yaml.RootMapping

/-!
The text of one field of a document that is a block mapping. If it is one field on its own after the text before, and
the text after goes on with another field, then the other fields are what they are whatever this text is.
-/
namespace CheckCost.Yaml.Document

open Node

/-- The first tokens of a field whose key stands at this column, if collections are open at these columns. -/
def fieldStart (columns : List Nat) : List Token := if columns.isEmpty then [.blockMappingStart, .key] else [.key]

/-- A text after which a field may begin at this column, the columns of the collections that are open there, and the
fields that it has. -/
inductive StopsAt (margin : Nat) (text : List Char) : List Nat → List (Node × Node) → Prop where
  /-- The field would be the first one. -/
  | opening {tokens : List Token} {tag : Tag} {place : Source} (paused : Token.pause? margin text = some (tokens, []))
      (opened : opening? (tokens ++ [.blockMappingStart]) = some (tag, place)) (nothing : place.tokens = []) :
      StopsAt margin text [] []
  /-- The field would follow others. -/
  | fields {tokens : List Token} {tag : Tag} {fields : List (Node × Node)}
      (paused : Token.pause? margin text = some (tokens, [margin]))
      (whole : blockMapping? (Token.ofChars text) = some (tag, fields, [.streamEnd])) :
      StopsAt margin text [margin] fields

/-- A text that begins with another field at this column. -/
def Continues (margin : Nat) (text : List Char) : Prop :=
  GoesOn margin text ∧ [.key] <+: Token.continuing [margin] text

/-- A text that adds one field of this key to the fields before, so many, and leaves the text after to others. -/
structure AddsField (margin : Nat) (before field after : List Char) (columns : List Nat) (count : Nat) (key : Node) :
    Prop where
  goes : GoesOn margin field
  fresh : before = [] → field.head? ≠ some '\ufeff'
  begins : fieldStart columns <+: Token.continuing columns field
  /-- The text as far as its end is a block mapping with one more field. -/
  adds : ∃ tag fields value left, blockMapping? (Token.ofChars (before ++ field)) = some (tag, fields, left) ∧
    fields.drop count = [(key, value)] ∧ (after ≠ [] → left = [.streamEnd])
  /-- More fields may follow it at the same column. -/
  ends : after ≠ [] → ∃ tokens, Token.pause? margin (before ++ field) = some (tokens, [margin])
  /-- No name that it gives is used after it. -/
  names : ∀ name, .anchor name ∈ Token.continuing columns field → .aliasOf name ∉ Token.continuing [margin] after

variable {margin count : Nat} {before field field' after text : List Char} {columns : List Nat}
  {fields : List (Node × Node)} {key : Node}

/-- A text with any other character is no document. -/
theorem good_of_node? {result : Option Node} (read : node? (Token.ofChars text) = .ok result) :
    text.find? (!isDocumentChar ·) = none := by
  cases found : text.find? (!isDocumentChar ·) with
  | none => rfl
  | some c =>
    have refused : Token.ofChars text = [.fault (.malformed (.character c.toNat))] := by
      unfold Token.ofChars
      rw [found]
    rw [refused] at read
    cases read

theorem good_of_append {cs rest : List Char} (good : (cs ++ rest).find? (!isDocumentChar ·) = none) :
    cs.find? (!isDocumentChar ·) = none := by
  rw [List.find?_append, Option.or_eq_none_iff] at good
  exact good.1

/-- The tokens before the end of a block are the same. -/
theorem append_blockEnd_inj {tokens tokens' : List Token}
    (same : tokens ++ List.replicate [margin].length .blockEnd ++ [.streamEnd] = tokens' ++ .blockEnd :: [.streamEnd]) :
    tokens = tokens' := by
  rw [List.append_assoc] at same
  exact List.append_cancel_right same

/-- Where the text stops, a field is read from a place that depends on this text alone. -/
theorem StopsAt.passes (stops : StopsAt margin before columns fields) (good : before.find? (!isDocumentChar ·) = none) :
    ∃ used tag place, Passes used tag fields place ∧
      ∀ field tokens, GoesOn margin field → (before = [] → field.head? ≠ some '\ufeff') →
        (before ++ field).find? (!isDocumentChar ·) = none →
        Token.continuing columns field = fieldStart columns ++ tokens →
        Token.ofChars (before ++ field) = used ++ .key :: tokens := by
  cases stops with
  | @opening tokens tag place paused opened nothing =>
    obtain ⟨used, front, passes⟩ := passes_opening opened
    rw [nothing, List.append_nil] at front
    refine ⟨used, tag, place, passes, fun field rest goes fresh good begins => ?_⟩
    rw [Layout.ofChars_append paused goes fresh good (by rw [begins]; simp [fieldStart]), begins, ← front]
    simp [fieldStart]
  | @fields tokens tag fields paused whole =>
    obtain ⟨used, place, front, passes⟩ := passes_of_blockMapping? whole
    obtain rfl := append_blockEnd_inj ((Layout.ofChars_of_pause paused good).symm.trans front)
    refine ⟨tokens, tag, place, passes, fun field rest goes fresh good begins => ?_⟩
    rw [Layout.ofChars_append paused goes fresh good (by rw [begins]; simp [fieldStart]), begins]
    simp [fieldStart]

/-- What the text of a field comes to after such a place. -/
structure Added (used : List Token) (tag : Tag) (fields : List (Node × Node)) (place : Source) (tokens : List Token)
    (key value : Node) (text : List Char) (more left : List Token) (next : Source) : Prop where
  whole : blockMapping? (Token.ofChars text) = some (tag, fields ++ [(key, value)], left)
  takes : Takes [] (place.on (.key :: tokens)) more next
  ends : next.tokens = .blockEnd :: left
  passes : Passes (used ++ more) tag (fields ++ [(key, value)]) next

theorem AddsField.added {used tokens : List Token} {tag : Tag} {place : Source}
    (adds : AddsField margin before field after columns fields.length key) (passes : Passes used tag fields place)
    (lexed : Token.ofChars (before ++ field) = used ++ .key :: tokens) :
    ∃ value more left next, Added used tag fields place tokens key value (before ++ field) more left next ∧
      (after ≠ [] → left = [.streamEnd]) := by
  obtain ⟨tag', fields', value, left, whole, one, last⟩ := adds.adds
  have read := whole
  rw [lexed] at read
  obtain ⟨rfl, rest, more, next, rfl, takes, ends, passes'⟩ := passes.blockMapping? read
  rw [List.drop_left] at one
  subst one
  exact ⟨value, more, left, next, ⟨whole, takes, ends, passes'⟩, last⟩

/-- Names in the field are given by its tokens. -/
theorem Added.given {used tokens more left : List Token} {tag : Tag} {place next : Source} {value : Node}
    {name : List Char} (added : Added used tag fields place tokens key value text more left next)
    (given : .anchor name ∈ more) : .anchor name ∈ tokens := by
  have member : .anchor name ∈ (place.on (.key :: tokens)).tokens := by
    rw [added.takes.tokens]
    exact List.mem_append_left _ given
  simpa [Source.on] using member

/-- The field and those after it, which are read from where it ends. -/
theorem Added.node {used tokens more later : List Token} {tag : Tag} {place next : Source} {value : Node}
    {result : Option Node}
    (added : Added used tag fields place tokens key value (before ++ field) more [.streamEnd] next)
    (lexed : Token.ofChars (before ++ field) = used ++ .key :: tokens) (begins : GoesOn margin field)
    (ends : ∃ tokens, Token.pause? margin (before ++ field) = some (tokens, [margin])) (goes : GoesOn margin after)
    (continues : Token.continuing [margin] after = .key :: later)
    (read : node? (Token.ofChars (before ++ field ++ after)) = .ok result) :
    ∃ n rest last, blockFields n (next.on (.key :: later)) = .ok (rest, last) ∧
      result = some (.map tag (fields ++ (key, value) :: rest)) := by
  have good := good_of_node? read
  obtain ⟨front, paused⟩ := ends
  have alone := Layout.ofChars_of_pause paused (good_of_append good)
  have reads : (.key :: tokens : List Token) = more ++ .blockEnd :: [.streamEnd] := added.ends ▸ added.takes.tokens
  rw [lexed, reads, ← List.append_assoc] at alone
  obtain rfl := append_blockEnd_inj alone.symm
  have filled : before ++ field ≠ [] := by
    obtain ⟨c, rest, text, -⟩ := begins.word
    simp [text]
  rw [Layout.ofChars_append paused goes (fun empty => absurd empty filled) good (by rw [continues]; simp), continues]
    at read
  obtain ⟨n, rest, last, fields_read, eq⟩ := added.passes.node read
  exact ⟨n, rest, last, fields_read, by rw [eq, List.append_assoc]; rfl⟩

/-- Two texts for one field: all other fields are the same. -/
theorem fields_around {result result' : Option Node} (stops : StopsAt margin before columns fields)
    (adds : AddsField margin before field after columns fields.length key)
    (adds' : AddsField margin before field' after columns fields.length key)
    (more : after ≠ [] → Continues margin after)
    (read : node? (Token.ofChars (before ++ field ++ after)) = .ok result)
    (read' : node? (Token.ofChars (before ++ field' ++ after)) = .ok result') :
    ∃ tag value value' rest, result = some (.map tag (fields ++ (key, value) :: rest)) ∧
      result' = some (.map tag (fields ++ (key, value') :: rest)) := by
  have good := good_of_append (good_of_node? read)
  have good' := good_of_append (good_of_node? read')
  obtain ⟨used, tag, place, passes, lexes⟩ := stops.passes (good_of_append good)
  obtain ⟨tokens, begins⟩ := adds.begins
  obtain ⟨tokens', begins'⟩ := adds'.begins
  have lexed := lexes field tokens adds.goes adds.fresh good begins.symm
  have lexed' := lexes field' tokens' adds'.goes adds'.fresh good' begins'.symm
  obtain ⟨value, used₁, left, next, added, last⟩ := adds.added passes lexed
  obtain ⟨value', used₂, left', next', added', last'⟩ := adds'.added passes lexed'
  refine ⟨tag, value, value', ?_⟩
  by_cases none : after = []
  · subst none
    rw [List.append_nil] at read read'
    exact ⟨[], node_of_blockMapping? added.whole read, node_of_blockMapping? added'.whole read'⟩
  · obtain ⟨goes, later, continues⟩ := more none
    obtain rfl := last none
    obtain rfl := last' none
    obtain ⟨n, rest, end₁, fields_read, rfl⟩ := added.node lexed adds.goes (adds.ends none) goes continues.symm read
    obtain ⟨n', rest', end₂, fields_read', rfl⟩ :=
      added'.node lexed' adds'.goes (adds'.ends none) goes continues.symm read'
    have same : rest' = rest := by
      refine fields_of_names added.takes added'.takes (fun name refers => ⟨fun given => ?_, fun given => ?_⟩)
        fields_read fields_read'
      · exact adds.names name (begins ▸ List.mem_append_right _ (added.given given)) (continues ▸ refers)
      · exact adds'.names name (begins' ▸ List.mem_append_right _ (added'.given given)) (continues ▸ refers)
    rw [same]
    exact ⟨rest, rfl, rfl⟩

end CheckCost.Yaml.Document
