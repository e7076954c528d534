import CheckCost.Proofs.Yaml.Nodes

/-!
Names of nodes matter only to the aliases that are read. Two readings of the same tokens that know different nodes by
name come to the same result if no alias among the tokens tells them apart.
-/
namespace CheckCost.Yaml.Node

/-- The same tokens, with names that no alias among them tells apart. -/
structure SameNames (source source' : Source) : Prop where
  tokens : source'.tokens = source.tokens
  handles : source'.handles = source.handles
  names : ∀ name, .aliasOf name ∈ source.tokens → source'.anchors.lookup name = source.anchors.lookup name

namespace SameNames

variable {source source' : Source}

theorem head (same : SameNames source source') : source'.head = source.head := by
  rw [Source.head, Source.head, same.tokens]

theorem rest (same : SameNames source source') : SameNames source.rest source'.rest :=
  ⟨congrArg (List.drop 1) same.tokens, same.handles,
    fun name member => same.names name (List.drop_subset 1 _ member)⟩

theorem named (same : SameNames source source') (anchor : Option (List Char)) (node : Node) :
    SameNames (source.name anchor node) (source'.name anchor node) := by
  cases anchor with
  | none => exact same
  | some given =>
    refine ⟨same.tokens, same.handles, fun name member => ?_⟩
    simp only [Source.name, List.lookup_cons]
    split
    · rfl
    · exact same.names name member

end SameNames

/-- A reading that comes to the same result from both, if it comes to a result. -/
def Agrees (reading : Source → Except Fault (α × Source)) : Prop :=
  ∀ source source' result result' after after', SameNames source source' →
    reading source = .ok (result, after) → reading source' = .ok (result', after') →
    result' = result ∧ SameNames after after'

namespace Agrees

theorem pure (result : α) : Agrees fun source => .ok (result, source) := by
  intro _ _ _ _ _ _ same read read'
  cases read
  cases read'
  exact ⟨rfl, same⟩

theorem refused (trouble : Trouble) : Agrees (α := α) fun source => source.refuse trouble :=
  fun _ _ _ _ _ _ _ read _ => (error_of_refuse read).elim

theorem bind {f : Source → Except Fault (α × Source)} {g : α → Source → Except Fault (β × Source)}
    (first : Agrees f) (later : ∀ value, Agrees (g value)) :
    Agrees fun source => f source >>= fun found => g found.1 found.2 := by
  intro source source' result result' after after' same read read'
  obtain ⟨⟨value, middle⟩, one, two⟩ := Outcome.bind_ok_iff.mp read
  obtain ⟨⟨value', middle'⟩, one', two'⟩ := Outcome.bind_ok_iff.mp read'
  obtain ⟨rfl, meets⟩ := first _ _ _ _ _ _ same one one'
  exact later value' _ _ _ _ _ _ meets two two'

theorem rest {f : Source → Except Fault (α × Source)} (later : Agrees f) : Agrees fun source => f source.rest :=
  fun _ _ _ _ _ _ same => later _ _ _ _ _ _ same.rest

/-- A choice by the next token. -/
theorem of_head {f : Source → Except Fault (α × Source)}
    (each : ∀ token, ∃ g, Agrees g ∧ ∀ source, source.head = token → f source = g source) : Agrees f := by
  intro source source' result result' after after' same read read'
  obtain ⟨g, agrees, eq⟩ := each source.head
  rw [eq source rfl] at read
  rw [eq source' same.head] at read'
  exact agrees _ _ _ _ _ _ same read read'

/-- A choice by a test of the next token. -/
theorem ite {p : Token → Prop} [DecidablePred p] {f g : Source → Except Fault (α × Source)} (yes : Agrees f)
    (no : Agrees g) : Agrees fun source => if p source.head then f source else g source := by
  intro source source' result result' after after' same read read'
  simp only [same.head] at read read'
  by_cases holds : p source.head
  · rw [if_pos holds] at read read'
    exact yes _ _ _ _ _ _ same read read'
  · rw [if_neg holds] at read read'
    exact no _ _ _ _ _ _ same read read'

/-- What begins with this token reads it and then goes on. -/
theorem token {f g : Source → Except Fault (α × Source)} {token : Token} (more : token ≠ .streamEnd)
    (later : Agrees g) (same : ∀ (source : Source) tokens, f (source.on (token :: tokens)) = g (source.on tokens)) :
    ∃ g, Agrees g ∧ ∀ source, source.head = token → f source = g source := by
  refine ⟨fun source => g source.rest, later.rest, fun source ahead => ?_⟩
  obtain ⟨tokens, front, rest⟩ := tokens_of_head ahead more
  have whole : source = source.on (token :: tokens) := by
    rw [← front]
    rfl
  change f source = g source.rest
  rw [rest, ← same, ← whole]

theorem here {f : Source → Except Fault (α × Source)} {token : Token} (g : Source → Except Fault (α × Source))
    (agrees : Agrees g) (same : ∀ source : Source, source.head = token → f source = g source) :
    ∃ g, Agrees g ∧ ∀ source, source.head = token → f source = g source := ⟨g, agrees, same⟩

end Agrees

/-! Single nodes. -/

theorem addressOf_anchors (source : Source) (anchors : List (List Char × Node)) (handle : Option (List Char))
    (suffix : List Char) : addressOf { source with anchors } handle suffix = addressOf source handle suffix := rfl

/-- Properties do not depend on names. -/
theorem properties_anchors (source : Source) (anchors : List (List Char × Node)) :
    properties { source with anchors } =
      (properties source).map fun found => (found.1, { found.2 with anchors }) := by
  have head : Source.head { source with anchors } = source.head := rfl
  have next : Source.head (Source.rest { source with anchors }) = source.rest.head := rfl
  unfold properties
  rw [head, next]
  split <;> first | rfl | (simp only [addressOf_anchors]; cases addressOf source _ _ <;> rfl)

theorem agrees_properties : Agrees properties := by
  intro source source' found found' after after' same read read'
  obtain ⟨used, -, front, left, -⟩ := from_of_properties read
  have other : source' = { source with anchors := source'.anchors } := by
    obtain ⟨tokens', anchors', handles'⟩ := source'
    obtain ⟨rfl, rfl, -⟩ := same
    rfl
  rw [other, properties_anchors, read] at read'
  cases read'
  exact ⟨rfl, rfl, rfl, fun name member => by
    rw [left]
    exact same.names name (front ▸ List.mem_append_right _ member)⟩

theorem agrees_leaf (anchor : Option (List Char)) (node : Node) (fuel : Nat) : Agrees (leaf anchor node fuel) := by
  intro source source' result result' after after' same read read'
  obtain ⟨⟨⟩, -, read⟩ := Outcome.bind_ok_iff.mp read
  obtain ⟨⟨⟩, -, read'⟩ := Outcome.bind_ok_iff.mp read'
  cases read
  cases read'
  exact ⟨rfl, same.named anchor node⟩

theorem agrees_collection {anchor : Option (List Char)} {opened : Node} {make : α → Node} {fuel : Nat}
    {parts : Nat → Source → Except Fault (α × Source)} (agrees : Agrees (parts fuel)) :
    Agrees (collection anchor opened make parts fuel) := by
  intro source source' result result' after after' same read read'
  obtain ⟨⟨⟩, -, read⟩ := Outcome.bind_ok_iff.mp read
  obtain ⟨⟨found, middle⟩, inner, read⟩ := Outcome.bind_ok_iff.mp read
  obtain ⟨⟨⟩, -, read'⟩ := Outcome.bind_ok_iff.mp read'
  obtain ⟨⟨found', middle'⟩, inner', read'⟩ := Outcome.bind_ok_iff.mp read'
  cases read
  cases read'
  obtain ⟨rfl, meets⟩ := agrees _ _ _ _ _ _ (same.named anchor opened) inner inner'
  exact ⟨rfl, meets.named anchor (make found')⟩

/-! Nodes and collections together. -/

structure AllAgree (fuel : Nat) : Prop where
  read : ∀ setting, Agrees (read fuel setting)
  content : ∀ setting properties, Agrees (content fuel setting properties)
  readUnless : ∀ stop setting, Agrees (readUnless stop fuel setting)
  blockItems : Agrees (blockItems fuel)
  indentlessItems : Agrees (indentlessItems fuel)
  blockFields : Agrees (blockFields fuel)
  flowItems : ∀ first, Agrees (flowItems fuel first)
  flowFields : ∀ first, Agrees (flowFields fuel first)

section Steps

variable {fuel : Nat}

theorem agrees_content (all : AllAgree fuel) (setting : Setting) (properties : Properties) :
    Agrees (content (fuel + 1) setting properties) := by
  obtain ⟨anchor, address⟩ := properties
  refine .of_head fun token => ?_
  by_cases none : beginsNone setting token = true
  · refine Agrees.here (bare setting ⟨anchor, address⟩) ?_ fun source head => content_bare (by rwa [head])
    intro source source' result result' after after' same read read'
    obtain ⟨node, eq⟩ := bare_eq_leaf read
    rw [eq fuel] at read read'
    exact agrees_leaf anchor node fuel _ _ _ _ _ _ same read read'
  · rw [Bool.not_eq_true] at none
    cases token with
    | scalar text plain =>
      exact Agrees.token (by simp) (agrees_leaf anchor _ fuel) fun _ _ => content_scalar
    | flowSequenceStart =>
      exact Agrees.token (by simp) (agrees_collection (all.flowItems true)) fun _ _ => content_flowSequence
    | flowMappingStart =>
      exact Agrees.token (by simp) (agrees_collection (all.flowFields true)) fun _ _ => content_flowMapping
    | blockSequenceStart =>
      have block : setting.isBlock = true := by simpa [beginsNone] using none
      exact Agrees.token (by simp) (agrees_collection all.blockItems) fun _ _ => content_blockSequence block
    | blockMappingStart =>
      have block : setting.isBlock = true := by simpa [beginsNone] using none
      exact Agrees.token (by simp) (agrees_collection all.blockFields) fun _ _ => content_blockMapping block
    | blockEntry =>
      have field : setting = .field := by simpa [beginsNone] using none
      subst field
      exact Agrees.here _ (agrees_collection all.indentlessItems) fun _ head => content_blockEntry head
    | fault fault =>
      refine Agrees.here (fun _ => .error fault) ?_ fun _ head => content_fault head
      intro _ _ _ _ _ _ _ read
      cases read
    | _ => simp [beginsNone] at none

/-- This is the only place where a name is looked up. -/
theorem agrees_read (all : AllAgree fuel) (setting : Setting) : Agrees (read (fuel + 1) setting) := by
  intro source source' result result' after after' same read read'
  by_cases refers : ∃ name, source.head = .aliasOf name
  · obtain ⟨name, head⟩ := refers
    obtain ⟨tokens, front, -⟩ := tokens_of_head head (by simp)
    have known := same.names name (front ▸ List.mem_cons_self)
    rw [show source = source.on (.aliasOf name :: tokens) by rw [← front]; rfl, read_alias] at read
    rw [show source' = source'.on (.aliasOf name :: tokens) by rw [← front, ← same.tokens]; rfl, read_alias] at read'
    simp only [named, Source.on, known] at read read'
    cases found : source.anchors.lookup name with
    | none =>
      rw [found] at read
      cases read
    | some node =>
      rw [found] at read read'
      cases read
      cases read'
      exact ⟨rfl, rfl, same.handles, fun other member => same.names other (front ▸ List.mem_cons_of_mem _ member)⟩
  · rw [not_exists] at refers
    rw [read_other refers] at read
    rw [read_other fun name head => refers name (same.head ▸ head)] at read'
    exact agrees_properties.bind (fun found => all.content setting found) _ _ _ _ _ _ same read read'

theorem agrees_readUnless (all : AllAgree fuel) (stop : Token → Bool) (setting : Setting) :
    Agrees (readUnless stop (fuel + 1) setting) := by
  have choice := Agrees.ite (p := fun token => stop token = true) (Agrees.pure missing) (all.read setting)
  intro source source'
  simpa only [readUnless] using choice source source'

theorem agrees_field (all : AllAgree fuel) (stopKey stop : Token → Bool) (setting : Setting) :
    Agrees (field stopKey stop setting fuel) := by
  refine (all.readUnless stopKey setting).bind (g := fun key source =>
    valueOf stop setting fuel source >>= fun value => .ok ((key, value.1), value.2)) fun key => ?_
  have value : Agrees (valueOf stop setting fuel) :=
    Agrees.ite (p := fun token => token = .value) (all.readUnless stop setting).rest (.pure missing)
  exact value.bind (g := fun value source => .ok ((key, value), source)) fun _ => .pure _

/-- One part of a collection and then the others. -/
theorem Agrees.part {f : Source → Except Fault (α × Source)} {others : Source → Except Fault (List β × Source)}
    (first : Agrees f) (later : Agrees others) (ofPart : α → β) :
    Agrees fun source => do
      let part ← f source
      let parts ← others part.2
      return (ofPart part.1 :: parts.1, parts.2) :=
  first.bind (g := fun part source => others source >>= fun parts => .ok (ofPart part :: parts.1, parts.2))
    fun part => later.bind (g := fun parts source => .ok (ofPart part :: parts, source)) fun _ => .pure _

theorem agrees_blockItems (all : AllAgree fuel) : Agrees (blockItems (fuel + 1)) := by
  refine .of_head fun token => ?_
  cases token with
  | blockEntry =>
    exact Agrees.token (by simp) ((all.readUnless itemStop .block).part all.blockItems id) fun _ _ => blockItems_entry
  | blockEnd => exact Agrees.token (by simp) (.pure []) fun _ _ => rfl
  | _ => exact Agrees.here _ (.refused _) fun source head => by rw [blockItems, head]; rfl

theorem agrees_indentlessItems (all : AllAgree fuel) : Agrees (indentlessItems (fuel + 1)) := by
  refine .of_head fun token => ?_
  by_cases entry : token = .blockEntry
  · subst entry
    exact Agrees.token (by simp) ((all.readUnless indentlessStop .block).part all.indentlessItems id)
      fun _ _ => indentlessItems_entry
  · exact Agrees.here _ (.pure []) fun source head => indentlessItems_end (by rwa [head])

theorem agrees_blockFields (all : AllAgree fuel) : Agrees (blockFields (fuel + 1)) := by
  refine .of_head fun token => ?_
  cases token with
  | key =>
    exact Agrees.token (by simp) ((agrees_field all fieldStop fieldStop .field).part all.blockFields id)
      fun _ _ => blockFields_key
  | blockEnd => exact Agrees.token (by simp) (.pure []) fun _ _ => rfl
  | _ => exact Agrees.here _ (.refused _) fun source head => by rw [blockFields, head]; rfl

theorem agrees_entriesFrom (all : AllAgree fuel) (close : Token) (stop : Token → Bool) (ofField : Node × Node → β)
    (ofNode : Node → β) {others : Nat → Source → Except Fault (List β × Source)} (agrees : Agrees (others fuel)) :
    Agrees (entriesFrom close stop ofField ofNode others fuel) :=
  Agrees.ite (p := fun token => token = .key) ((agrees_field all _ stop .flow).part agrees ofField).rest <|
    Agrees.ite (p := fun token => token = close) (Agrees.pure []).rest ((all.read .flow).part agrees ofNode)

theorem agrees_flow (all : AllAgree fuel) {close : Token} {stop : Token → Bool} {ofField : Node × Node → β}
    {ofNode : Node → β} {reading : Nat → Bool → Source → Except Fault (List β × Source)}
    (flow : IsFlow close stop ofField ofNode reading) (agrees : ∀ first, Agrees (reading fuel first)) (first : Bool) :
    Agrees (reading (fuel + 1) first) := by
  have entries : Agrees (entriesFrom close stop ofField ofNode (fun n => reading n false) fuel) :=
    agrees_entriesFrom all close stop ofField ofNode (agrees false)
  intro source source' result result' after after' same read read'
  by_cases closed : source.head = close
  · rw [flow.closes _ _ _ closed] at read
    rw [flow.closes _ _ _ (same.head.trans closed)] at read'
    exact (Agrees.pure []).rest _ _ _ _ _ _ same read read'
  have closed' : source'.head ≠ close := by rwa [same.head]
  cases first with
  | true =>
    rw [flow.first _ _ closed] at read
    rw [flow.first _ _ closed'] at read'
    exact entries _ _ _ _ _ _ same read read'
  | false =>
    have comma : source.head = .flowEntry := by_contra fun other => flow.refuses _ _ _ closed other read
    rw [flow.next _ _ closed comma] at read
    rw [flow.next _ _ closed' (same.head.trans comma)] at read'
    exact entries.rest _ _ _ _ _ _ same read read'

end Steps

theorem allAgree (fuel : Nat) : AllAgree fuel := by
  induction fuel with
  | zero =>
    refine ⟨fun _ _ _ _ _ _ _ _ read => ?_, fun _ _ _ _ _ _ _ _ _ read => ?_, fun _ _ _ _ _ _ _ _ _ read => ?_,
      fun _ _ _ _ _ _ _ read => ?_, fun _ _ _ _ _ _ _ read => ?_, fun _ _ _ _ _ _ _ read => ?_,
      fun _ _ _ _ _ _ _ _ read => ?_, fun _ _ _ _ _ _ _ _ read => ?_⟩ <;>
      exact (error_of_refuse read).elim
  | succ fuel all =>
    exact ⟨agrees_read all, agrees_content all, agrees_readUnless all, agrees_blockItems all,
      agrees_indentlessItems all, agrees_blockFields all, agrees_flow all isFlow_flowItems all.flowItems,
      agrees_flow all isFlow_flowFields all.flowFields⟩

end CheckCost.Yaml.Node
