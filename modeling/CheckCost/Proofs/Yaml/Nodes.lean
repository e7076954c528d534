import CheckCost.Proofs.Yaml.NodeSteps
import Mathlib.Data.List.Basic

/-!
Reading nodes does not depend on what follows them, nor on how much more could be read. Where a block mapping ends
another field may follow as well.
-/
namespace CheckCost.Yaml.Node

/-- What may stand instead of the tokens after a node: the same, but anything from the end of a block on, or another
field instead. -/
inductive Instead : List Token → List Token → Prop where
  | same (tokens : List Token) : Instead tokens tokens
  | ended (tokens tokens' : List Token) : Instead (.blockEnd :: tokens) (.blockEnd :: tokens')
  | field (tokens tokens' : List Token) : Instead (.blockEnd :: tokens) (.key :: tokens')
  | behind (token : Token) {tokens tokens' : List Token} (later : Instead tokens tokens') :
      Instead (token :: tokens) (token :: tokens')

/-- Two beginnings that are the same, but where a block ends another field may begin. -/
def BeginsLike (tokens tokens' : List Token) : Prop :=
  tokens'.headD .streamEnd = tokens.headD .streamEnd ∨
    tokens.headD .streamEnd = .blockEnd ∧ tokens'.headD .streamEnd = .key

namespace Instead

variable {tokens tokens' : List Token}

theorem append (instead : Instead tokens tokens') (used : List Token) :
    Instead (used ++ tokens) (used ++ tokens') := by
  induction used with
  | nil => exact instead
  | cons token _ ih => exact .behind token ih

theorem head (instead : Instead tokens tokens') : BeginsLike tokens tokens' := by
  cases instead with
  | same | ended | behind => exact .inl rfl
  | field => exact .inr ⟨rfl, rfl⟩

/-- What does not begin where a block ends begins alike. -/
theorem head_of_ne (instead : Instead tokens tokens') (more : tokens.headD .streamEnd ≠ .blockEnd) :
    tokens'.headD .streamEnd = tokens.headD .streamEnd :=
  instead.head.resolve_right fun ends => more ends.1

/-- A test that does not tell the end of a block from another field. -/
theorem stops (instead : Instead tokens tokens') {stop : Token → Bool} (ends : stop .blockEnd = stop .key) :
    stop (tokens'.headD .streamEnd) = stop (tokens.headD .streamEnd) := by
  rcases instead.head with same | ⟨ended, key⟩
  · rw [same]
  · rw [ended, key, ends]

end Instead

/-- What a reading takes: these tokens, and names that they or earlier ones give. -/
structure Takes (earlier : List Token) (source : Source) (used : List Token) (after : Source) : Prop where
  tokens : source.tokens = used ++ after.tokens
  anchors : ∃ new, after.anchors = new ++ source.anchors ∧ ∀ entry ∈ new, .anchor entry.1 ∈ earlier ++ used
  handles : after.handles = source.handles

namespace Takes

variable {earlier later used more : List Token} {source middle after : Source}

theorem nothing (source : Source) : Takes earlier source [] source :=
  ⟨rfl, ⟨[], rfl, fun _ none => nomatch none⟩, rfl⟩

theorem trans (first : Takes earlier source used middle) (second : Takes later middle more after)
    (known : ∀ token ∈ later, token ∈ earlier ++ used) : Takes earlier source (used ++ more) after := by
  obtain ⟨new, anchors, names⟩ := first.anchors
  obtain ⟨new', anchors', names'⟩ := second.anchors
  refine ⟨by rw [first.tokens, second.tokens, List.append_assoc], ⟨new' ++ new, ?_, ?_⟩,
    second.handles.trans first.handles⟩
  · rw [anchors', anchors, List.append_assoc]
  · intro entry member
    rw [← List.append_assoc]
    rcases List.mem_append.mp member with member | member
    · rcases List.mem_append.mp (names' entry member) with member | member
      · exact List.mem_append_left _ (known _ member)
      · exact List.mem_append_right _ member
    · exact List.mem_append_left _ (names entry member)

/-- One token at the front. -/
theorem cons {token : Token} {tokens : List Token} (ahead : source.tokens = token :: tokens)
    (second : Takes earlier (source.on tokens) used after) : Takes earlier source (token :: used) after := by
  obtain ⟨new, anchors, names⟩ := second.anchors
  refine ⟨by rw [ahead, List.cons_append, ← second.tokens]; rfl, ⟨new, anchors, fun entry member => ?_⟩,
    second.handles⟩
  rcases List.mem_append.mp (names entry member) with member | member
  · exact List.mem_append_left _ member
  · exact List.mem_append_right _ (List.mem_cons_of_mem _ member)

end Takes

/-- The tokens that an anchor comes from. -/
def Properties.given (properties : Properties) : List Token := (properties.anchor.map Token.anchor).toList

/-- Tokens of properties that were taken: what follows does not matter as long as it is no property itself. -/
theorem properties_reads {source after : Source} {found : Properties}
    (read : properties source = .ok (found, after)) :
    ∃ used, Takes [] source used after ∧ (∀ token ∈ found.given, token ∈ used) ∧
      ∀ tokens, BeginsLike after.tokens tokens →
        properties (source.on (used ++ tokens)) = .ok (found, after.on tokens) := by
  obtain ⟨used, given, front, same, ends⟩ := from_of_properties read
  have takes : Takes [] source used after :=
    ⟨front, ⟨[], by rw [same]; rfl, fun _ none => nomatch none⟩, by rw [same]; rfl⟩
  refine ⟨used, takes, ?_, fun tokens begins => ?_⟩
  · cases given <;> simp [Properties.given]
  · have ends' : endsProperties used (tokens.headD .streamEnd) = true := by
      rcases begins with first | ⟨-, key⟩
      · exact (congrArg (endsProperties used) first).trans ends
      · rw [key]
        cases given <;> rfl
    rw [same]
    exact properties_of_from given ends'

/-! Readings. -/

/-- A reading that takes the same tokens here whatever follows them and however much more could be read. -/
def ReadsAt (earlier : List Token) (instead : List Token → List Token → Prop)
    (reading : Nat → Source → Except Fault (α × Source)) (fuel : Nat) (source : Source) : Prop :=
  ∀ result after, reading fuel source = .ok (result, after) →
    ∃ used, Takes earlier source used after ∧
      ∀ more tokens, fuel ≤ more → instead after.tokens tokens →
        reading more (source.on (used ++ tokens)) = .ok (result, after.on tokens)

def Reads (earlier : List Token) (instead : List Token → List Token → Prop)
    (reading : Nat → Source → Except Fault (α × Source)) (fuel : Nat) : Prop :=
  ∀ source, ReadsAt earlier instead reading fuel source

section Readings

variable {earlier : List Token} {instead : List Token → List Token → Prop} {fuel : Nat} {source : Source}

theorem Reads.pure (result : α) : Reads earlier instead (fun _ source => .ok (result, source)) fuel := by
  intro source _ _ read
  cases read
  exact ⟨[], .nothing source, fun _ _ _ _ => rfl⟩

theorem ReadsAt.bind {f : Nat → Source → Except Fault (α × Source)}
    {g : α → Nat → Source → Except Fault (β × Source)} (reads : ReadsAt earlier Instead f fuel source)
    (later : ∀ value, Reads [] instead (g value) fuel)
    (weaker : ∀ tokens tokens', instead tokens tokens' → Instead tokens tokens') :
    ReadsAt earlier instead (fun n source => f n source >>= fun found => g found.1 n found.2) fuel source := by
  intro result after read
  obtain ⟨⟨value, middle⟩, one, two⟩ := Outcome.bind_ok_iff.mp read
  obtain ⟨used, takes, again⟩ := reads _ _ one
  obtain ⟨more, takes', again'⟩ := later value middle _ _ two
  refine ⟨used ++ more, takes.trans takes' (fun _ none => nomatch none), fun n tokens enough same => ?_⟩
  have front := again n (more ++ tokens) enough (by
    rw [takes'.tokens]
    exact (weaker _ _ same).append more)
  simp only
  rw [List.append_assoc, front]
  exact again' n tokens enough same

/-- A reading whose result is changed afterwards. -/
theorem ReadsAt.map {f : Nat → Source → Except Fault (α × Source)} (reads : ReadsAt earlier Instead f fuel source)
    (g : α → β) : ReadsAt earlier Instead (fun n source => f n source >>= fun found => .ok (g found.1, found.2))
      fuel source :=
  reads.bind (g := fun value _ source => .ok (g value, source)) (fun value => .pure (g value)) fun _ _ => id

/-- What begins with this token reads it and then goes on. -/
theorem ReadsAt.token {f g : Nat → Source → Except Fault (α × Source)} {token : Token} {tokens : List Token}
    (front : source.tokens = token :: tokens) (goesOn : ReadsAt earlier instead g fuel (source.on tokens))
    (same : ∀ n tokens, f n (source.on (token :: tokens)) = g n (source.on tokens)) :
    ReadsAt earlier instead f fuel source := by
  intro result after read
  have whole : source = source.on (token :: tokens) := by
    rw [← front]
    rfl
  rw [whole, same] at read
  obtain ⟨used, takes, again⟩ := goesOn _ _ read
  refine ⟨token :: used, takes.cons front, fun more tokens enough stands => ?_⟩
  rw [List.cons_append, same]
  exact again more tokens enough stands

/-- What reads the same wherever such a token is next. -/
theorem ReadsAt.here {f g : Nat → Source → Except Fault (α × Source)}
    (goesOn : ReadsAt earlier instead g fuel source)
    (weaker : ∀ tokens tokens', instead tokens tokens' → Instead tokens tokens')
    (more : source.head ≠ .blockEnd) (same : ∀ n place, place.head = source.head → f n place = g n place) :
    ReadsAt earlier instead f fuel source := by
  intro result after read
  rw [same _ _ rfl] at read
  obtain ⟨used, takes, again⟩ := goesOn _ _ read
  refine ⟨used, takes, fun n tokens enough stands => ?_⟩
  rw [same]
  · exact again n tokens enough stands
  · have begins := ((weaker _ _ stands).append used).head_of_ne (by rw [← takes.tokens]; exact more)
    rw [← takes.tokens] at begins
    exact begins

/-- One step of a reading. -/
theorem ReadsAt.step {f : Nat → Source → Except Fault (α × Source)}
    (reads : ReadsAt earlier instead (fun n => f (n + 1)) fuel source) :
    ReadsAt earlier instead f (fuel + 1) source := by
  intro result after read
  obtain ⟨used, takes, again⟩ := reads result after read
  refine ⟨used, takes, fun n tokens enough stands => ?_⟩
  obtain ⟨n, rfl⟩ : ∃ k, n = k + 1 := ⟨n - 1, by omega⟩
  exact again n tokens (by omega) stands

end Readings

/-! Names. -/

section Named

variable {earlier : List Token} {fuel : Nat} {source : Source} {anchor address : Option (List Char)}

theorem Takes.name (anchor address : Option (List Char)) (node : Node) (source : Source) :
    Takes (Properties.given ⟨anchor, address⟩) source [] (source.name anchor node) := by
  cases anchor with
  | none => exact .nothing source
  | some name =>
    refine ⟨rfl, ⟨[(name, node)], rfl, fun entry member => ?_⟩, rfl⟩
    rw [List.mem_singleton.mp member]
    exact List.mem_cons_self

theorem leaf_reads (address : Option (List Char)) (node : Node) {instead : List Token → List Token → Prop} :
    Reads (Properties.given ⟨anchor, address⟩) instead (leaf anchor node) fuel := by
  intro source result after read
  obtain ⟨⟨⟩, checked, read⟩ := Outcome.bind_ok_iff.mp read
  cases read
  refine ⟨[], .name anchor address node source, fun more tokens _ _ => ?_⟩
  rw [leaf, show checkAnchor (source.on ([] ++ tokens)) anchor = .ok () from checked]
  exact congrArg (fun after => Except.ok (node, after)) (name_on node source tokens)

theorem collection_reads (address : Option (List Char)) {opened : Node} {make : α → Node}
    {parts : Nat → Source → Except Fault (α × Source)} (reads : Reads [] Instead parts fuel) :
    Reads (Properties.given ⟨anchor, address⟩) Instead (collection anchor opened make parts) fuel := by
  intro source result after read
  obtain ⟨⟨⟩, checked, read⟩ := Outcome.bind_ok_iff.mp read
  obtain ⟨⟨found, middle⟩, inner, read⟩ := Outcome.bind_ok_iff.mp read
  cases read
  obtain ⟨used, takes, again⟩ := reads _ _ _ inner
  have named := (Takes.name anchor address opened source).trans takes fun _ none => nomatch none
  have whole := named.trans (.name anchor address (make found) middle) fun token given => List.mem_append_left _ given
  rw [List.nil_append, List.append_nil] at whole
  refine ⟨used, whole, fun more tokens enough stands => ?_⟩
  have kept : (middle.name anchor (make found)).tokens = middle.tokens := by cases anchor <;> rfl
  rw [kept] at stands
  have inner' := again more tokens enough stands
  rw [collection, show checkAnchor (source.on (used ++ tokens)) anchor = .ok () from checked, name_on]
  simp only [bind, Except.bind, inner', name_on]
  rfl

theorem named_reads (name : List Char) {instead : List Token → List Token → Prop} :
    Reads [] instead (named name) fuel := by
  intro source result after read
  unfold named at read
  cases known : source.anchors.lookup name with
  | none =>
    rw [known] at read
    cases read
  | some node =>
    rw [known] at read
    cases read
    refine ⟨[], .nothing source, fun more tokens _ _ => ?_⟩
    rw [named, show (source.on ([] ++ tokens)).anchors.lookup name = some result from known]
    rfl

end Named

/-! Nodes and collections together, by induction on how much may be read. -/

/-- All readings take the same tokens whatever follows. Items of a block take one token at least. -/
structure AllRead (fuel : Nat) : Prop where
  read : ∀ setting, Reads [] Instead (fun n => read n setting) fuel
  content : ∀ setting properties, Reads properties.given Instead (fun n => content n setting properties) fuel
  readUnless : ∀ instead stop setting,
    (∀ tokens tokens', instead tokens tokens' →
      Instead tokens tokens' ∧ stop (tokens'.headD .streamEnd) = stop (tokens.headD .streamEnd)) →
    Reads [] instead (fun n => readUnless stop n setting) fuel
  blockItems : ∀ source result after, blockItems fuel source = .ok (result, after) →
    ∃ token used, Takes [] source (token :: used) after ∧
      ∀ more tokens, fuel ≤ more → Instead after.tokens tokens →
        blockItems more (source.on (token :: used ++ tokens)) = .ok (result, after.on tokens)
  indentlessItems : Reads [] Instead indentlessItems fuel
  blockFields : Reads [] Instead blockFields fuel
  flowItems : ∀ first, Reads [] Instead (fun n => flowItems n first) fuel
  flowFields : ∀ first, Reads [] Instead (fun n => flowFields n first) fuel

section Steps

variable {fuel : Nat}

theorem reads_content (all : AllRead fuel) (setting : Setting) (properties : Properties) :
    Reads properties.given Instead (fun n => content n setting properties) (fuel + 1) := by
  obtain ⟨anchor, address⟩ := properties
  intro source
  by_cases none : beginsNone setting source.head = true
  · intro result after read
    simp only [content_bare none] at read
    obtain ⟨node, same⟩ := bare_eq_leaf read
    have leaves : Reads (Properties.given ⟨anchor, address⟩) Instead (leaf anchor node) fuel := leaf_reads address node
    obtain ⟨used, takes, again⟩ := leaves source result after (same fuel ▸ read)
    refine ⟨used, takes, fun more tokens enough stands => ?_⟩
    obtain ⟨more, rfl⟩ : ∃ k, more = k + 1 := ⟨more - 1, by omega⟩
    have none' : beginsNone setting (source.on (used ++ tokens)).head = true := by
      rcases (stands.append used).head with head | ⟨-, head⟩
      · rw [← takes.tokens] at head
        exact (congrArg (beginsNone setting) head).trans none
      · exact congrArg (beginsNone setting) head
    simp only [content_bare none', same fuel]
    exact again fuel tokens (Nat.le_refl _) stands
  · rw [Bool.not_eq_true] at none
    cases head : source.head with
    | scalar text plain =>
      obtain ⟨tokens, front, -⟩ := tokens_of_head head (by simp)
      exact .step <| .token front (leaf_reads address _ _) fun _ _ => content_scalar
    | flowSequenceStart =>
      obtain ⟨tokens, front, -⟩ := tokens_of_head head (by simp)
      exact .step <| .token front (collection_reads address (all.flowItems true) _) fun _ _ => content_flowSequence
    | flowMappingStart =>
      obtain ⟨tokens, front, -⟩ := tokens_of_head head (by simp)
      exact .step <| .token front (collection_reads address (all.flowFields true) _) fun _ _ => content_flowMapping
    | blockSequenceStart =>
      obtain ⟨tokens, front, -⟩ := tokens_of_head head (by simp)
      have block : setting.isBlock = true := by simpa [beginsNone, head] using none
      have items : Reads [] Instead blockItems fuel := by
        intro source result after read
        obtain ⟨token, used, reads⟩ := all.blockItems source result after read
        exact ⟨token :: used, reads⟩
      exact .step <| .token front (collection_reads address items _) fun _ _ => content_blockSequence block
    | blockMappingStart =>
      obtain ⟨tokens, front, -⟩ := tokens_of_head head (by simp)
      have block : setting.isBlock = true := by simpa [beginsNone, head] using none
      exact .step <| .token front (collection_reads address all.blockFields _) fun _ _ => content_blockMapping block
    | blockEntry =>
      have field : setting = .field := by simpa [beginsNone, head] using none
      subst field
      exact .step <| .here (collection_reads address all.indentlessItems _) (fun _ _ => id) (by simp [head])
        fun _ place same => content_blockEntry (same.trans head)
    | fault fault =>
      intro result after read
      simp only [content_fault head] at read
      cases read
    | _ => simp [beginsNone, head] at none

theorem reads_read (all : AllRead fuel) (setting : Setting) :
    Reads [] Instead (fun n => read n setting) (fuel + 1) := by
  intro source
  by_cases refers : ∃ name, source.head = .aliasOf name
  · obtain ⟨name, head⟩ := refers
    obtain ⟨tokens, front, -⟩ := tokens_of_head head (by simp)
    exact .step <| .token front (named_reads name _) fun _ _ => read_alias
  · rw [not_exists] at refers
    intro result after read
    simp only [read_other refers] at read
    obtain ⟨⟨found, middle⟩, first, second⟩ := Outcome.bind_ok_iff.mp read
    obtain ⟨used, takes, given, again⟩ := properties_reads first
    obtain ⟨more, takes', again'⟩ := all.content setting found _ _ _ second
    refine ⟨used ++ more, takes.trans takes' given, fun n tokens enough stands => ?_⟩
    obtain ⟨n, rfl⟩ : ∃ k, n = k + 1 := ⟨n - 1, by omega⟩
    have other : ∀ name, (source.on (used ++ more ++ tokens)).head ≠ .aliasOf name := by
      intro name head
      rcases (stands.append (used ++ more)).head with same | ⟨-, key⟩
      · refine refers name (Eq.trans ?_ (same.symm.trans head))
        rw [Source.head, takes.tokens, takes'.tokens, List.append_assoc]
      · exact absurd (key.symm.trans head) (by simp)
    have front := again (more ++ tokens) (by
      rw [takes'.tokens]
      exact (stands.append more).head)
    simp only [read_other other]
    rw [List.append_assoc, front]
    exact again' n tokens (by omega) stands

theorem reads_readUnless (all : AllRead fuel) (instead : List Token → List Token → Prop) (stop : Token → Bool)
    (setting : Setting)
    (weaker : ∀ tokens tokens', instead tokens tokens' →
      Instead tokens tokens' ∧ stop (tokens'.headD .streamEnd) = stop (tokens.headD .streamEnd)) :
    Reads [] instead (fun n => readUnless stop n setting) (fuel + 1) := by
  intro source result after read
  simp only [readUnless] at read
  by_cases stops : stop source.head = true
  · rw [if_pos stops] at read
    cases read
    refine ⟨[], .nothing source, fun more tokens enough stands => ?_⟩
    obtain ⟨more, rfl⟩ : ∃ k, more = k + 1 := ⟨more - 1, by omega⟩
    have stops' : stop (source.on ([] ++ tokens)).head = true := (weaker _ _ stands).2.trans stops
    simp only [readUnless, if_pos stops']
    rfl
  · rw [if_neg stops] at read
    obtain ⟨used, takes, again⟩ := all.read setting _ _ _ read
    refine ⟨used, takes, fun more tokens enough stands => ?_⟩
    obtain ⟨more, rfl⟩ : ∃ k, more = k + 1 := ⟨more - 1, by omega⟩
    have head : (source.on (used ++ tokens)).head = source.head := by
      have same := ((weaker _ _ stands).1.append used).head_of_ne (by
        rw [← takes.tokens]
        exact fun ends => not_read_of_blockEnd ends read)
      rwa [← takes.tokens] at same
    have goesOn : ¬stop (source.on (used ++ tokens)).head = true := by rwa [head]
    simp only [readUnless, if_neg goesOn]
    exact again more tokens (by omega) (weaker _ _ stands).1

/-- A value is read like any node, but a missing one stays missing. -/
theorem reads_valueOf (all : AllRead fuel) (stop : Token → Bool) (setting : Setting)
    (ends : stop .blockEnd = stop .key) : Reads [] Instead (valueOf stop setting) fuel := by
  intro source
  by_cases given : source.head = .value
  · obtain ⟨tokens, front, -⟩ := tokens_of_head given (by simp)
    have values := all.readUnless Instead stop setting (fun _ _ stands => ⟨stands, stands.stops ends⟩)
    exact .token front (values _) fun _ _ => rfl
  · intro result after read
    rw [valueOf, if_neg given] at read
    cases read
    refine ⟨[], .nothing source, fun more tokens _ stands => ?_⟩
    have given' : (source.on ([] ++ tokens)).head ≠ .value := by
      rcases stands.head with same | ⟨-, key⟩
      · exact fun value => given (same.symm.trans value)
      · exact fun value => absurd (key.symm.trans value) (by simp)
    rw [valueOf, if_neg given']
    rfl

theorem reads_field (all : AllRead fuel) (stopKey stop : Token → Bool) (setting : Setting)
    (endsKey : stopKey .blockEnd = stopKey .key) (ends : stop .blockEnd = stop .key) :
    Reads [] Instead (field stopKey stop setting) fuel := by
  intro source
  have keys := all.readUnless Instead stopKey setting (fun _ _ stands => ⟨stands, stands.stops endsKey⟩) source
  refine keys.bind
    (g := fun key n source => valueOf stop setting n source >>= fun value => .ok ((key, value.1), value.2))
    (fun key source => ?_) fun _ _ => id
  exact (reads_valueOf all stop setting ends source).map fun value => (key, value)

theorem reads_blockFields (all : AllRead fuel) : Reads [] Instead blockFields (fuel + 1) := by
  intro source
  by_cases begins : source.head = .key
  · obtain ⟨tokens, front, -⟩ := tokens_of_head begins (by simp)
    have fields := reads_field all fieldStop fieldStop .field rfl rfl (source.on tokens)
    refine .step <| .token front (fields.bind
      (g := fun found n source => blockFields n source >>= fun fields => .ok (found :: fields.1, fields.2))
      (fun found source => ?_) fun _ _ => id) fun _ _ => blockFields_key
    exact (all.blockFields source).map fun fields => found :: fields
  by_cases ends : source.head = .blockEnd
  · obtain ⟨tokens, front, -⟩ := tokens_of_head ends (by simp)
    exact .step <| .token front (Reads.pure [] _) fun _ _ => rfl
  · intro result after read
    rw [blockFields] at read
    split at read
    · next key => exact absurd key begins
    · next blockEnd => exact absurd blockEnd ends
    · exact (error_of_refuse read).elim

/-- More that begins alike. -/
def Behind (tokens tokens' : List Token) : Prop :=
  Instead tokens tokens' ∧ tokens'.headD .streamEnd = tokens.headD .streamEnd

theorem reads_blockItems (all : AllRead fuel) (source : Source) (result : List Node) (after : Source)
    (read : blockItems (fuel + 1) source = .ok (result, after)) :
    ∃ token used, Takes [] source (token :: used) after ∧
      ∀ more tokens, fuel + 1 ≤ more → Instead after.tokens tokens →
        blockItems more (source.on (token :: used ++ tokens)) = .ok (result, after.on tokens) := by
  by_cases begins : source.head = .blockEntry
  · obtain ⟨tokens, front, -⟩ := tokens_of_head begins (by simp)
    have whole : source = source.on (.blockEntry :: tokens) := by
      rw [← front]
      rfl
    rw [whole, blockItems_entry] at read
    obtain ⟨⟨item, middle⟩, first, read⟩ := Outcome.bind_ok_iff.mp read
    obtain ⟨⟨items, last⟩, second, read⟩ := Outcome.bind_ok_iff.mp read
    cases read
    obtain ⟨used, takes, again⟩ := all.readUnless Behind itemStop .block
      (fun _ _ behind => ⟨behind.1, congrArg itemStop behind.2⟩) _ _ _ first
    obtain ⟨token, others, takes', again'⟩ := all.blockItems _ _ _ second
    refine ⟨.blockEntry, used ++ token :: others, (takes.trans takes' (fun _ none => nomatch none)).cons front,
      fun more tokens enough stands => ?_⟩
    obtain ⟨more, rfl⟩ : ∃ k, more = k + 1 := ⟨more - 1, by omega⟩
    have front := again more (token :: others ++ tokens) (by omega) (by
      rw [takes'.tokens]
      exact ⟨stands.append (token :: others), rfl⟩)
    rw [List.cons_append, List.append_assoc, blockItems_entry]
    exact Outcome.bind_ok_iff.mpr ⟨_, front, Outcome.bind_ok_iff.mpr ⟨_, again' more tokens (by omega) stands, rfl⟩⟩
  by_cases ends : source.head = .blockEnd
  · obtain ⟨tokens, front, rest⟩ := tokens_of_head ends (by simp)
    have whole : source = source.on (.blockEnd :: tokens) := by
      rw [← front]
      rfl
    rw [whole] at read
    cases read
    exact ⟨.blockEnd, [], Takes.cons front (.nothing _), fun more tokens enough stands => by
      obtain ⟨more, rfl⟩ : ∃ k, more = k + 1 := ⟨more - 1, by omega⟩
      rfl⟩
  · rw [blockItems] at read
    split at read
    · next entry => exact absurd entry begins
    · next blockEnd => exact absurd blockEnd ends
    · exact (error_of_refuse read).elim

theorem reads_indentlessItems (all : AllRead fuel) : Reads [] Instead indentlessItems (fuel + 1) := by
  intro source
  by_cases begins : source.head = .blockEntry
  · obtain ⟨tokens, front, -⟩ := tokens_of_head begins (by simp)
    have items := all.readUnless Instead indentlessStop .block (fun _ _ stands => ⟨stands, stands.stops rfl⟩)
      (source.on tokens)
    refine .step <| .token front (items.bind
      (g := fun item n source => indentlessItems n source >>= fun items => .ok (item :: items.1, items.2))
      (fun item source => ?_) fun _ _ => id) fun _ _ => indentlessItems_entry
    exact (all.indentlessItems source).map fun items => item :: items
  · intro result after read
    rw [indentlessItems_end begins] at read
    cases read
    refine ⟨[], .nothing source, fun more tokens enough stands => ?_⟩
    obtain ⟨more, rfl⟩ : ∃ k, more = k + 1 := ⟨more - 1, by omega⟩
    refine indentlessItems_end fun entry => ?_
    rcases stands.head with same | ⟨-, key⟩
    · exact begins (same.symm.trans entry)
    · exact absurd (key.symm.trans entry) (by simp)

/-! Brackets. -/

theorem reads_entriesFrom (all : AllRead fuel) {close : Token} {stop : Token → Bool} (ofField : Node × Node → β)
    (ofNode : Node → β) {others : Nat → Source → Except Fault (List β × Source)} (reads : Reads [] Instead others fuel)
    (bracket : close ≠ .key ∧ close ≠ .streamEnd) (ends : stop .blockEnd = stop .key) :
    Reads [] Instead (entriesFrom close stop ofField ofNode others) fuel := by
  intro source
  by_cases key : source.head = .key
  · obtain ⟨tokens, front, -⟩ := tokens_of_head key (by simp)
    have fields := reads_field all (fun token => token = .value || stop token) stop .flow (by simpa using ends) ends
      (source.on tokens)
    refine .token front (fields.bind
      (g := fun found n source => others n source >>= fun entries => .ok (ofField found :: entries.1, entries.2))
      (fun found source => ?_) fun _ _ => id) fun _ _ => if_pos rfl
    exact (reads source).map fun entries => ofField found :: entries
  by_cases closed : source.head = close
  · obtain ⟨tokens, front, -⟩ := tokens_of_head closed bracket.2
    exact .token front (Reads.pure [] _) fun _ _ => (if_neg bracket.1).trans (if_pos rfl)
  by_cases ended : source.head = .blockEnd
  · intro result after read
    rw [entriesFrom, if_neg key, if_neg closed] at read
    obtain ⟨node, first, -⟩ := Outcome.bind_ok_iff.mp read
    exact absurd first (not_read_of_blockEnd ended)
  · have nodes := all.read .flow source
    refine .here (nodes.bind
      (g := fun node n source => others n source >>= fun entries => .ok (ofNode node :: entries.1, entries.2))
      (fun node source => ?_) fun _ _ => id) (fun _ _ => id) ended fun n place same => ?_
    · exact (reads source).map fun entries => ofNode node :: entries
    · rw [entriesFrom, if_neg (by rwa [same]), if_neg (by rwa [same])]
      rfl

theorem reads_flow (all : AllRead fuel) {close : Token} {stop : Token → Bool} {ofField : Node × Node → β}
    {ofNode : Node → β} {reading : Nat → Bool → Source → Except Fault (List β × Source)}
    (flow : IsFlow close stop ofField ofNode reading)
    (reads : ∀ first, Reads [] Instead (fun n => reading n first) fuel)
    (bracket : close ≠ .key ∧ close ≠ .streamEnd ∧ close ≠ .flowEntry) (ends : stop .blockEnd = stop .key)
    (first : Bool) : Reads [] Instead (fun n => reading n first) (fuel + 1) := by
  intro source
  by_cases closed : source.head = close
  · obtain ⟨tokens, front, -⟩ := tokens_of_head closed bracket.2.1
    exact .step <| .token front (Reads.pure [] _) fun n tokens => flow.closes n first _ rfl
  have entries := reads_entriesFrom all ofField ofNode (reads false) ⟨bracket.1, bracket.2.1⟩ ends
  cases first with
  | true =>
    by_cases ended : source.head = .blockEnd
    · intro result after read
      simp only [flow.first _ _ closed] at read
      rw [entriesFrom, if_neg (by simp [ended]), if_neg closed] at read
      obtain ⟨node, first, -⟩ := Outcome.bind_ok_iff.mp read
      exact absurd first (not_read_of_blockEnd ended)
    · exact .step <| .here (entries source) (fun _ _ => id) ended fun n place same => flow.first n place (by rwa [same])
  | false =>
    by_cases comma : source.head = .flowEntry
    · obtain ⟨tokens, front, -⟩ := tokens_of_head comma (by simp)
      exact .step <| .token front (entries _) fun n tokens => flow.next n _ (Ne.symm bracket.2.2) rfl
    · intro result after read
      exact absurd read (flow.refuses _ _ _ closed comma)

end Steps

theorem allRead (fuel : Nat) : AllRead fuel := by
  induction fuel with
  | zero =>
    refine ⟨fun _ _ _ _ read => ?_, fun _ _ _ _ _ read => ?_, fun _ _ _ _ _ _ _ read => ?_, fun _ _ _ read => ?_,
      fun _ _ _ read => ?_, fun _ _ _ read => ?_, fun _ _ _ _ read => ?_, fun _ _ _ _ read => ?_⟩ <;>
      exact (error_of_refuse read).elim
  | succ fuel all =>
    exact ⟨reads_read all, reads_content all, reads_readUnless all, reads_blockItems all, reads_indentlessItems all,
      reads_blockFields all, reads_flow all isFlow_flowItems all.flowItems (by decide) rfl,
      reads_flow all isFlow_flowFields all.flowFields (by decide) rfl⟩

end CheckCost.Yaml.Node
