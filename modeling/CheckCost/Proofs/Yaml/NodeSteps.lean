import CheckCost.Proofs.Outcome
import CheckCost.Yaml.Node

/-!
How nodes are read: each reading by the token that it begins with, and put together from readings of its parts.
-/
namespace CheckCost.Yaml.Node

/-- The same place with other tokens from there on. -/
def Source.on (source : Source) (tokens : List Token) : Source := { source with tokens }

theorem tokens_of_head {source : Source} {token : Token} (ahead : source.head = token) (more : token ≠ .streamEnd) :
    ∃ tokens, source.tokens = token :: tokens ∧ source.rest = source.on tokens := by
  unfold Source.head at ahead
  cases tokens : source.tokens with
  | nil =>
    rw [tokens] at ahead
    exact absurd ahead.symm more
  | cons first rest =>
    rw [tokens] at ahead
    subst ahead
    refine ⟨rest, rfl, ?_⟩
    rw [Source.rest, tokens]
    rfl

theorem error_of_refuse {source : Source} {trouble : Trouble} {result : α}
    (read : source.refuse trouble = .ok result) : False := by
  unfold Source.refuse at read
  split at read <;> cases read

/-! Properties. -/

/-- The tokens that properties are read from. -/
inductive Properties.From (source : Source) : List Token → Properties → Prop where
  | none : From source [] ⟨none, none⟩
  | anchor (name : List Char) : From source [.anchor name] ⟨some name, none⟩
  | tag {handle : Option (List Char)} {suffix address : List Char}
      (known : addressOf source handle suffix = .ok address) : From source [.tag handle suffix] ⟨none, some address⟩
  | anchorTag (name : List Char) {handle : Option (List Char)} {suffix address : List Char}
      (known : addressOf source handle suffix = .ok address) :
      From source [.anchor name, .tag handle suffix] ⟨some name, some address⟩
  | tagAnchor (name : List Char) {handle : Option (List Char)} {suffix address : List Char}
      (known : addressOf source handle suffix = .ok address) :
      From source [.tag handle suffix, .anchor name] ⟨some name, some address⟩

/-- What follows such tokens is no property as well. -/
def endsProperties : List Token → Token → Bool
  | [], .anchor _ | [], .tag .. | [.anchor _], .tag .. | [.tag ..], .anchor _ | [.tag ..], .fault _ => false
  | _, _ => true

section Properties

variable {source after : Source} {used tokens : List Token} {found : Properties}

theorem properties_of_from (given : Properties.From source used found)
    (ends : endsProperties used (tokens.headD .streamEnd) = true) :
    properties (source.on (used ++ tokens)) = .ok (found, source.on tokens) := by
  cases given with
  | none =>
    cases tokens with
    | nil => rfl
    | cons token _ => cases token <;> first | rfl | cases ends
  | anchor name =>
    cases tokens with
    | nil => rfl
    | cons token _ => cases token <;> first | rfl | cases ends
  | @tag handle suffix address known =>
    have same : addressOf (source.on (.tag handle suffix :: tokens)) handle suffix = .ok address := known
    have alone : properties (source.on (.tag handle suffix :: tokens)) = (do
        let address ← addressOf (source.on (.tag handle suffix :: tokens)) handle suffix
        return (⟨none, some address⟩, source.on tokens)) := by
      cases tokens with
      | nil => rfl
      | cons token _ => cases token <;> first | rfl | cases ends
    exact alone.trans (by rw [same]; rfl)
  | @anchorTag name handle suffix address known =>
    exact Outcome.bind_ok_iff.mpr ⟨address, known, rfl⟩
  | @tagAnchor name handle suffix address known =>
    exact Outcome.bind_ok_iff.mpr ⟨address, known, rfl⟩

theorem from_of_properties (read : properties source = .ok (found, after)) :
    ∃ used, Properties.From source used found ∧ source.tokens = used ++ after.tokens ∧
      after = source.on after.tokens ∧ endsProperties used after.head = true := by
  unfold properties at read
  split at read
  · next name handle suffix first second =>
    obtain ⟨tokens, front, rest⟩ := tokens_of_head first (by simp)
    obtain ⟨others, front', rest'⟩ := tokens_of_head second (by simp)
    obtain ⟨address, known, read⟩ := Outcome.bind_ok_iff.mp read
    cases read
    rw [rest']
    refine ⟨_, .anchorTag name known, ?_, ?_, rfl⟩
    · rw [front, ← show source.rest.tokens = tokens by rw [rest]; rfl, front']
      rfl
    · rw [rest]
      rfl
  · next name first none =>
    obtain ⟨tokens, front, rest⟩ := tokens_of_head first (by simp)
    cases read
    rw [rest]
    refine ⟨_, .anchor name, front, rfl, ?_⟩
    rw [rest] at none
    cases next : (source.on tokens).head <;> first | rfl | exact absurd next (none _ _)
  · next handle suffix name first second =>
    obtain ⟨tokens, front, rest⟩ := tokens_of_head first (by simp)
    obtain ⟨others, front', rest'⟩ := tokens_of_head second (by simp)
    obtain ⟨address, known, read⟩ := Outcome.bind_ok_iff.mp read
    cases read
    rw [rest']
    refine ⟨_, .tagAnchor name known, ?_, ?_, rfl⟩
    · rw [front, ← show source.rest.tokens = tokens by rw [rest]; rfl, front']
      rfl
    · rw [rest]
      rfl
  · cases read
  · next handle suffix first noAnchor noFault =>
    obtain ⟨tokens, front, rest⟩ := tokens_of_head first (by simp)
    obtain ⟨address, known, read⟩ := Outcome.bind_ok_iff.mp read
    cases read
    rw [rest]
    refine ⟨_, .tag known, front, rfl, ?_⟩
    rw [rest] at noAnchor noFault
    cases next : (source.on tokens).head <;>
      first | rfl | exact absurd next (noAnchor _) | exact absurd next (noFault _)
  · next noAnchor noTag _ _ _ =>
    cases read
    refine ⟨_, .none, rfl, rfl, ?_⟩
    cases first : source.head <;> first | rfl | exact absurd first (noAnchor _) | exact absurd first (noTag _ _)

end Properties

/-! Single nodes. -/

section Single

variable {source : Source} {tokens : List Token} {fuel : Nat} {setting : Setting} {anchor address : Option (List Char)}

theorem name_on (node : Node) (source : Source) (tokens : List Token) :
    (source.on tokens).name anchor node = (source.name anchor node).on tokens := by
  cases anchor <;> rfl

/-- A node that has no parts to be read. -/
def leaf (anchor : Option (List Char)) (node : Node) (_ : Nat) (source : Source) : Except Fault (Node × Source) := do
  checkAnchor source anchor
  return (node, source.name anchor node)

/-- A node with parts, which has its name while they are read. -/
def collection (anchor : Option (List Char)) (opened : Node) (make : α → Node)
    (parts : Nat → Source → Except Fault (α × Source)) (fuel : Nat) (source : Source) :
    Except Fault (Node × Source) := do
  checkAnchor source anchor
  let (found, after) ← parts fuel (source.name anchor opened)
  return (make found, after.name anchor (make found))

/-- The node that an alias names. -/
def named (name : List Char) (_ : Nat) (source : Source) : Except Fault (Node × Source) :=
  match source.anchors.lookup name with
  | some node => .ok (node, source)
  | none => malformed (.unknownAlias (String.ofList name))

theorem read_alias {name : List Char} :
    read (fuel + 1) setting (source.on (.aliasOf name :: tokens)) = named name fuel (source.on tokens) := rfl

theorem read_other (other : ∀ name, source.head ≠ .aliasOf name) :
    read (fuel + 1) setting source = (do
      let (properties, source) ← properties source
      content fuel setting properties source) := by
  obtain ⟨tokens, anchors, handles⟩ := source
  cases tokens with
  | nil => rfl
  | cons token _ =>
    cases token with
    | aliasOf => exact absurd rfl (other _)
    | _ => rfl

theorem content_scalar {text : List Char} {plain : Bool} :
    content (fuel + 1) setting ⟨anchor, address⟩ (source.on (.scalar text plain :: tokens)) =
      leaf anchor (scalar (scalarTag address plain text) text) fuel (source.on tokens) := rfl

theorem content_flowSequence :
    content (fuel + 1) setting ⟨anchor, address⟩ (source.on (.flowSequenceStart :: tokens)) =
      collection anchor (enclosing (collectionTag address .seq) .sequence) (seq (collectionTag address .seq))
        (fun n => flowItems n true) fuel (source.on tokens) := by
  cases anchor <;> rfl

theorem content_flowMapping :
    content (fuel + 1) setting ⟨anchor, address⟩ (source.on (.flowMappingStart :: tokens)) =
      collection anchor (enclosing (collectionTag address .map) .mapping) (map (collectionTag address .map))
        (fun n => flowFields n true) fuel (source.on tokens) := by
  cases anchor <;> rfl

theorem content_blockSequence (block : setting.isBlock = true) :
    content (fuel + 1) setting ⟨anchor, address⟩ (source.on (.blockSequenceStart :: tokens)) =
      collection anchor (enclosing (collectionTag address .seq) .sequence) (seq (collectionTag address .seq))
        blockItems fuel (source.on tokens) := by
  refine (if_pos block).trans ?_
  cases anchor <;> rfl

theorem content_blockMapping (block : setting.isBlock = true) :
    content (fuel + 1) setting ⟨anchor, address⟩ (source.on (.blockMappingStart :: tokens)) =
      collection anchor (enclosing (collectionTag address .map) .mapping) (map (collectionTag address .map))
        blockFields fuel (source.on tokens) := by
  refine (if_pos block).trans ?_
  cases anchor <;> rfl

theorem content_blockEntry (ahead : source.head = .blockEntry) :
    content (fuel + 1) .field ⟨anchor, address⟩ source =
      collection anchor (enclosing (collectionTag address .seq) .sequence) (seq (collectionTag address .seq))
        indentlessItems fuel source := by
  rw [content]
  simp only [ahead]
  rfl

theorem content_fault {fault : Fault} {properties : Properties} (ahead : source.head = .fault fault) :
    content (fuel + 1) setting properties source = .error fault := by
  rw [content]
  simp only [ahead]

/-- What begins no node in this setting. -/
def beginsNone (setting : Setting) : Token → Bool
  | .scalar .. | .flowSequenceStart | .flowMappingStart => false
  | .blockEntry => setting != .field
  | .blockSequenceStart | .blockMappingStart => !setting.isBlock
  | .fault _ => false
  | _ => true

theorem content_bare {properties : Properties} (none : beginsNone setting source.head = true) :
    content (fuel + 1) setting properties source = bare setting properties source := by
  obtain ⟨anchor, address⟩ := properties
  rw [content]
  cases ahead : source.head <;> simp_all [beginsNone]

/-- What properties alone make, if they are read. -/
theorem bare_eq_leaf {properties : Properties} {result : Node × Source}
    (read : bare setting properties source = .ok result) :
    ∃ node, ∀ fuel, bare setting properties = leaf properties.anchor node fuel := by
  unfold bare at read
  split at read
  · next given =>
    refine ⟨scalar (scalarTag properties.tag true []) [], fun fuel => ?_⟩
    funext place
    exact if_pos given
  · exact (error_of_refuse read).elim

theorem not_read_of_blockEnd {result : Node × Source} (ends : source.head = .blockEnd) :
    read fuel setting source ≠ .ok result := by
  intro read
  have first : endsProperties [] (source.tokens.headD .streamEnd) = true := congrArg (endsProperties []) ends
  have given : properties source = .ok (⟨none, none⟩, source) := properties_of_from .none first
  cases fuel with
  | zero => exact error_of_refuse read
  | succ fuel =>
    rw [read_other (by simp [ends]), given] at read
    cases fuel with
    | zero => exact error_of_refuse read
    | succ fuel =>
      have bared : bare setting ⟨none, none⟩ source = .ok result := by
        have same : content (fuel + 1) setting ⟨none, none⟩ source = _ :=
          content_bare (congrArg (beginsNone setting) ends)
        exact same.symm.trans read
      exact error_of_refuse bared

end Single

/-! Collections. -/

section Collections

variable {fuel : Nat} {source : Source} {tokens : List Token}

/-- The value of a field, which may be missing. -/
def valueOf (stop : Token → Bool) (setting : Setting) (fuel : Nat) (source : Source) : Except Fault (Node × Source) :=
  if source.head = .value then readUnless stop fuel setting source.rest else .ok (missing, source)

/-- A key after its mark, and its value. -/
def field (stopKey stop : Token → Bool) (setting : Setting) (fuel : Nat) (source : Source) :
    Except Fault ((Node × Node) × Source) := do
  let key ← readUnless stopKey fuel setting source
  let value ← valueOf stop setting fuel key.2
  return ((key.1, value.1), value.2)

/-- What ends the key or the value of a field in a block. -/
def fieldStop (token : Token) : Bool := token = .key || token = .value || token = .blockEnd

theorem blockFields_key :
    blockFields (fuel + 1) (source.on (.key :: tokens)) = (do
      let found ← field fieldStop fieldStop .field fuel (source.on tokens)
      let fields ← blockFields fuel found.2
      return (found.1 :: fields.1, fields.2)) := by
  rw [blockFields]
  unfold field valueOf
  simp only [Source.head, Source.on, List.headD_cons, Source.rest, List.drop_succ_cons, List.drop_zero, bind_assoc,
    pure_bind]
  refine bind_congr fun key => ?_
  by_cases given : key.2.tokens.headD .streamEnd = .value
  · simp only [given, if_true]
    rfl
  · simp only [given, if_false]
    rfl

/-- What ends an item of a block. -/
def itemStop (token : Token) : Bool := token = .blockEntry || token = .blockEnd

theorem blockItems_entry :
    blockItems (fuel + 1) (source.on (.blockEntry :: tokens)) = (do
      let item ← readUnless itemStop fuel .block (source.on tokens)
      let items ← blockItems fuel item.2
      return (item.1 :: items.1, items.2)) := rfl

/-- What ends an item of a sequence that is not indented. -/
def indentlessStop (token : Token) : Bool :=
  token = .blockEntry || token = .key || token = .value || token = .blockEnd

theorem indentlessItems_entry :
    indentlessItems (fuel + 1) (source.on (.blockEntry :: tokens)) = (do
      let item ← readUnless indentlessStop fuel .block (source.on tokens)
      let items ← indentlessItems fuel item.2
      return (item.1 :: items.1, items.2)) := rfl

theorem indentlessItems_end (other : source.head ≠ .blockEntry) :
    indentlessItems (fuel + 1) source = .ok ([], source) := by
  rw [indentlessItems]
  split
  · next entry => exact absurd entry other
  · rfl

/-- Entries between brackets, after what comes before one of them. -/
def entriesFrom (close : Token) (stop : Token → Bool) (ofField : Node × Node → β) (ofNode : Node → β)
    (others : Nat → Source → Except Fault (List β × Source)) (fuel : Nat) (source : Source) :
    Except Fault (List β × Source) :=
  if source.head = .key then do
    let found ← field (fun token => token = .value || stop token) stop .flow fuel source.rest
    let entries ← others fuel found.2
    return (ofField found.1 :: entries.1, entries.2)
  else if source.head = close then .ok ([], source.rest)
  else do
    let node ← read fuel .flow source
    let entries ← others fuel node.2
    return (ofNode node.1 :: entries.1, entries.2)

/-- A reading of brackets: it ends at the closing one, and all entries but the first follow a comma. -/
structure IsFlow (close : Token) (stop : Token → Bool) (ofField : Node × Node → β) (ofNode : Node → β)
    (reading : Nat → Bool → Source → Except Fault (List β × Source)) : Prop where
  closes : ∀ n first source, source.head = close → reading (n + 1) first source = .ok ([], source.rest)
  first : ∀ n source, source.head ≠ close →
    reading (n + 1) true source = entriesFrom close stop ofField ofNode (fun n => reading n false) n source
  next : ∀ n source, source.head ≠ close → source.head = .flowEntry →
    reading (n + 1) false source = entriesFrom close stop ofField ofNode (fun n => reading n false) n source.rest
  refuses : ∀ n source result, source.head ≠ close → source.head ≠ .flowEntry →
    reading (n + 1) false source ≠ .ok result

/-- What ends an entry of a sequence or a mapping in brackets. -/
def flowStop (close token : Token) : Bool := token = .flowEntry || token = close

theorem flowItems_first (n : Nat) (source : Source) (other : source.head ≠ .flowSequenceEnd) :
    flowItems (n + 1) true source =
      entriesFrom .flowSequenceEnd (flowStop .flowSequenceEnd) (fun found => map .map [found]) id
        (fun n => flowItems n false) n source := by
  rw [flowItems, if_neg other]
  simp only [Bool.not_true, Bool.false_and, Bool.false_eq_true, if_false, if_true]
  unfold entriesFrom
  split
  · next key =>
    simp only [if_pos key]
    unfold field valueOf
    simp only [bind_assoc, pure_bind]
    refine bind_congr fun key => ?_
    by_cases given : key.2.head = .value
    · simp only [given, if_true]
      rfl
    · simp only [given, if_false]
      rfl
  · next closed => exact absurd closed other
  · next noKey _ =>
    rw [if_neg noKey, if_neg other]
    rfl

theorem flowItems_next (n : Nat) (source : Source) (other : source.head ≠ .flowSequenceEnd)
    (comma : source.head = .flowEntry) :
    flowItems (n + 1) false source =
      entriesFrom .flowSequenceEnd (flowStop .flowSequenceEnd) (fun found => map .map [found]) id
        (fun n => flowItems n false) n source.rest := by
  by_cases closed : source.rest.head = .flowSequenceEnd
  · have ends : entriesFrom .flowSequenceEnd (flowStop .flowSequenceEnd) (fun found => map .map [found]) id
        (fun n => flowItems n false) n source.rest = .ok ([], source.rest.rest) := by
      rw [entriesFrom, if_neg (by simp [closed]), if_pos closed]
    rw [ends, flowItems, if_neg other]
    simp [comma, closed]
    rfl
  · rw [← flowItems_first n source.rest closed, flowItems, if_neg other, flowItems, if_neg closed]
    simp [comma]

theorem isFlow_flowItems :
    IsFlow .flowSequenceEnd (flowStop .flowSequenceEnd) (fun found => map .map [found]) id flowItems where
  closes n first source closed := by rw [flowItems, if_pos closed]
  first := flowItems_first
  next := flowItems_next
  refuses n source result other comma read := by
    rw [flowItems, if_neg other, if_pos (by simp [comma])] at read
    exact error_of_refuse read

theorem flowFields_first (n : Nat) (source : Source) (other : source.head ≠ .flowMappingEnd) :
    flowFields (n + 1) true source =
      entriesFrom .flowMappingEnd (flowStop .flowMappingEnd) id (fun key => (key, missing))
        (fun n => flowFields n false) n source := by
  rw [flowFields, if_neg other]
  simp only [Bool.not_true, Bool.false_and, Bool.false_eq_true, if_false, if_true]
  unfold entriesFrom
  split
  · next key =>
    simp only [if_pos key]
    unfold field valueOf
    simp only [bind_assoc, pure_bind]
    refine bind_congr fun key => ?_
    by_cases given : key.2.head = .value
    · simp only [given, if_true]
      rfl
    · simp only [given, if_false]
      rfl
  · next closed => exact absurd closed other
  · next noKey _ =>
    rw [if_neg noKey, if_neg other]

theorem flowFields_next (n : Nat) (source : Source) (other : source.head ≠ .flowMappingEnd)
    (comma : source.head = .flowEntry) :
    flowFields (n + 1) false source =
      entriesFrom .flowMappingEnd (flowStop .flowMappingEnd) id (fun key => (key, missing))
        (fun n => flowFields n false) n source.rest := by
  by_cases closed : source.rest.head = .flowMappingEnd
  · have ends : entriesFrom .flowMappingEnd (flowStop .flowMappingEnd) id (fun key => (key, missing))
        (fun n => flowFields n false) n source.rest = .ok ([], source.rest.rest) := by
      rw [entriesFrom, if_neg (by simp [closed]), if_pos closed]
    rw [ends, flowFields, if_neg other]
    simp [comma, closed]
    rfl
  · rw [← flowFields_first n source.rest closed, flowFields, if_neg other, flowFields, if_neg closed]
    simp [comma]

theorem isFlow_flowFields :
    IsFlow .flowMappingEnd (flowStop .flowMappingEnd) id (fun key => (key, missing)) flowFields where
  closes n first source closed := by rw [flowFields, if_pos closed]
  first := flowFields_first
  next := flowFields_next
  refuses n source result other comma read := by
    rw [flowFields, if_neg other, if_pos (by simp [comma])] at read
    exact error_of_refuse read

end Collections

end CheckCost.Yaml.Node
