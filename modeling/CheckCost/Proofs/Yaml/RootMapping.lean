import CheckCost.Proofs.Yaml.Names
import CheckCost.Yaml.Document

/-!
A document that is a block mapping, read field by field: after some fields the others are read from a place that
depends on the text up to there alone.
-/
namespace CheckCost.Yaml

open Node

namespace Node

variable {fuel : Nat} {source after : Source} {fields : List (Node × Node)}

/-- Where the fields of a block end others may follow, which are read from there. -/
theorem blockFields_ends (read : blockFields fuel source = .ok (fields, after)) :
    ∃ used place, Takes [] source used place ∧ place.tokens = .blockEnd :: after.tokens ∧
      (used = [] ∧ place = source ∧ fields = [] ∨ ∃ more, used = .key :: more) ∧
      ∀ more tokens found last, fuel ≤ more →
        blockFields more (source.on (used ++ .key :: tokens)) = .ok (found, last) →
        ∃ rest later, blockFields later (place.on (.key :: tokens)) = .ok (rest, last) ∧ found = fields ++ rest := by
  induction fuel generalizing source fields with
  | zero => exact (error_of_refuse read).elim
  | succ fuel ih =>
    by_cases begins : source.head = .key
    · obtain ⟨tokens, front, -⟩ := tokens_of_head begins (by simp)
      rw [show source = source.on (.key :: tokens) by rw [← front]; rfl, blockFields_key] at read
      obtain ⟨⟨first, middle⟩, one, read⟩ := Outcome.bind_ok_iff.mp read
      obtain ⟨⟨others, last⟩, two, read⟩ := Outcome.bind_ok_iff.mp read
      cases read
      obtain ⟨used, takes, again⟩ := reads_field (allRead fuel) fieldStop fieldStop .field rfl rfl _ _ _ one
      obtain ⟨used', place, takes', ends, -, goesOn⟩ := ih two
      refine ⟨.key :: (used ++ used'), place, (takes.trans takes' (fun _ none => nomatch none)).cons front, ends,
        .inr ⟨_, rfl⟩, fun more tokens found last enough read' => ?_⟩
      obtain ⟨more, rfl⟩ : ∃ k, more = k + 1 := ⟨more - 1, by omega⟩
      have front : field fieldStop fieldStop .field more (source.on (used ++ (used' ++ .key :: tokens))) =
          .ok (first, middle.on (used' ++ .key :: tokens)) := again more _ (by omega) (by
        rw [takes'.tokens, ends]
        exact (Instead.field _ _).append used')
      rw [List.cons_append, List.append_assoc, blockFields_key, front] at read'
      obtain ⟨-, ⟨⟩, read'⟩ := Outcome.bind_ok_iff.mp read'
      obtain ⟨⟨found', last'⟩, two', read'⟩ := Outcome.bind_ok_iff.mp read'
      cases read'
      obtain ⟨rest, later, reads, rfl⟩ := goesOn more tokens _ _ (by omega) two'
      exact ⟨rest, later, reads, rfl⟩
    by_cases ended : source.head = .blockEnd
    · obtain ⟨tokens, front, rest⟩ := tokens_of_head ended (by simp)
      rw [show source = source.on (.blockEnd :: tokens) by rw [← front]; rfl] at read
      cases read
      exact ⟨[], source, .nothing source, front, .inl ⟨rfl, rfl, rfl⟩,
        fun more tokens found last _ read' => ⟨found, more, read', rfl⟩⟩
    · rw [blockFields] at read
      split at read
      · next key => exact absurd key begins
      · next blockEnd => exact absurd blockEnd ended
      · exact (error_of_refuse read).elim

/-- How much may be read does not matter to what is read. -/
theorem blockFields_mono {more : Nat} (read : blockFields fuel source = .ok (fields, after)) (enough : fuel ≤ more) :
    blockFields more source = .ok (fields, after) := by
  obtain ⟨used, takes, again⟩ := (allRead fuel).blockFields _ _ _ read
  have same := again more after.tokens enough (.same _)
  rwa [← takes.tokens] at same

theorem blockFields_unique {more : Nat} {fields' : List (Node × Node)} {after' : Source}
    (read : blockFields fuel source = .ok (fields, after)) (read' : blockFields more source = .ok (fields', after')) :
    fields' = fields ∧ after' = after := by
  have one := blockFields_mono read (Nat.le_max_left fuel more)
  rw [blockFields_mono read' (Nat.le_max_right fuel more)] at one
  cases one
  exact ⟨rfl, rfl⟩

/-- What begins a node that has these properties. -/
theorem head_of_properties {found : Properties} (given : properties source = .ok (found, after)) :
    (∃ name, source.head = .anchor name) ∨ (∃ handle suffix, source.head = .tag handle suffix) ∨
      source.head = after.head := by
  obtain ⟨used, found, front, -, -⟩ := from_of_properties given
  unfold Source.head
  rw [front]
  cases found with
  | none => exact .inr (.inr rfl)
  | anchor name | anchorTag name => exact .inl ⟨name, rfl⟩
  | tag | tagAnchor => exact .inr (.inl ⟨_, _, rfl⟩)

/-- A node that is a block mapping. -/
theorem read_blockMapping {found : Properties} {node : Node} {beginning last : Source}
    (given : properties beginning = .ok (found, source)) (first : source.head = .blockMappingStart)
    (read : read fuel .block beginning = .ok (node, last)) :
    ∃ n fields after,
      blockFields n (source.name found.anchor (.enclosing (collectionTag found.tag .map) .mapping)).rest =
        .ok (fields, after) ∧ node = .map (collectionTag found.tag .map) fields := by
  have other : ∀ name, beginning.head ≠ .aliasOf name := by
    rintro name head
    rcases head_of_properties given with ⟨_, other⟩ | ⟨_, _, other⟩ | other <;> simp_all
  cases fuel with
  | zero => exact (error_of_refuse read).elim
  | succ fuel =>
    rw [read_other other, given] at read
    cases fuel with
    | zero => exact (error_of_refuse read).elim
    | succ fuel =>
      obtain ⟨anchor, address⟩ := found
      obtain ⟨tokens, front, rest⟩ := tokens_of_head first (by simp)
      change content (fuel + 1) .block ⟨anchor, address⟩ source = .ok (node, last) at read
      rw [show source = source.on (.blockMappingStart :: tokens) by rw [← front]; rfl, content_blockMapping rfl] at read
      obtain ⟨⟨⟩, -, read⟩ := Outcome.bind_ok_iff.mp read
      obtain ⟨⟨fields, after⟩, inner, read⟩ := Outcome.bind_ok_iff.mp read
      cases read
      refine ⟨fuel, fields, after, ?_, rfl⟩
      rw [← inner, ← rest]
      cases anchor <;> rfl

end Node

namespace Document

/-- Where the node of a document begins. -/
def beginning? (tokens : List Token) : Option Source :=
  match tokens.head? with
  | some (.directive _) | some .documentStart | some .streamEnd => (start tokens).toOption.join
  | _ => some ⟨tokens, [], usualHandles⟩

/-- The tag of a document that is a block mapping, and the place of its first field. -/
def opening? (tokens : List Token) : Option (Tag × Source) := do
  let beginning ← beginning? tokens
  let (⟨anchor, address⟩, source) ← (properties beginning).toOption
  let tag := collectionTag address .map
  if source.head = .blockMappingStart then some (tag, (source.name anchor (.enclosing tag .mapping)).rest) else none

/-- A document that is a block mapping: its tag, its fields and what comes after them. -/
def blockMapping? (tokens : List Token) : Option (Tag × List (Node × Node) × List Token) := do
  let (tag, place) ← opening? tokens
  let (fields, after) ← (blockFields (fuel place.tokens) place).toOption
  some (tag, fields, after.tokens)

/-! Everything before the first field. -/

section Opening

variable {tokens rest : List Token} {tag : Tag} {place : Source}

theorem directives_other {versioned : Bool} {handles : List (List Char × List Char)}
    (other : ∀ directive, tokens.head? ≠ some (.directive directive)) :
    directives versioned handles tokens = .ok (handles ++ usualHandles, tokens) := by
  cases tokens with
  | nil => rfl
  | cons token _ =>
    cases token with
    | directive => exact absurd rfl (other _)
    | _ => rfl

/-- Directives stay the same whatever follows them that is none. -/
theorem directives_append {versioned : Bool} {handles found : List (List Char × List Char)}
    (read : directives versioned handles tokens = .ok (found, rest)) :
    ∃ used, tokens = used ++ rest ∧ ∀ more, (∀ directive, more.head? ≠ some (.directive directive)) →
      directives versioned handles (used ++ more) = .ok (found, more) := by
  induction tokens generalizing versioned handles with
  | nil =>
    cases read
    exact ⟨[], rfl, fun more other => directives_other other⟩
  | cons token tokens ih =>
    by_cases isDirective : ∃ directive, token = .directive directive
    · obtain ⟨directive, rfl⟩ := isDirective
      cases directive with
      | version major =>
        rw [directives] at read
        split at read
        · cases read
        · next unversioned =>
          split at read
          · cases read
          · next known =>
            obtain ⟨used, rfl, again⟩ := ih read
            refine ⟨_ :: used, rfl, fun more other => ?_⟩
            rw [List.cons_append, directives, if_neg unversioned, if_neg known]
            exact again more other
      | handle name address =>
        rw [directives] at read
        split at read
        · cases read
        · next fresh =>
          obtain ⟨used, rfl, again⟩ := ih read
          refine ⟨_ :: used, rfl, fun more other => ?_⟩
          rw [List.cons_append, directives, if_neg fresh]
          exact again more other
      | other =>
        obtain ⟨used, rfl, again⟩ := ih read
        exact ⟨_ :: used, rfl, again⟩
    · have other : ∀ directive, (token :: tokens).head? ≠ some (.directive directive) :=
        fun directive head => isDirective ⟨directive, Option.some.inj head⟩
      rw [directives_other other] at read
      cases read
      exact ⟨[], rfl, fun more other => directives_other other⟩

/-- The same for the start mark. -/
theorem start_append {beginning : Source} (read : start tokens = .ok (some beginning))
    (first : tokens.head? ≠ some .documentEnd) :
    beginning.anchors = [] ∧ ∃ used, used ≠ [] ∧ tokens = used ++ beginning.tokens ∧
      ∀ more, start (used ++ more) = .ok (some (beginning.on more)) := by
  have whole : ∀ more : List Token, more.head? = tokens.head? → more.dropWhile (· = .documentEnd) = more := by
    intro more same
    cases more with
    | nil => rfl
    | cons token _ =>
      refine List.dropWhile_cons_of_neg fun mark => first ?_
      rw [← same, of_decide_eq_true mark]
      rfl
  unfold start at read
  simp only [whole tokens rfl] at read
  split at read
  · cases read
  · next more =>
    obtain ⟨⟨handles, rest⟩, marks, read⟩ := Outcome.bind_ok_iff.mp read
    split at read
    · next mark =>
      cases read
      obtain ⟨used, rfl, again⟩ := directives_append marks
      obtain ⟨left, rfl, -⟩ : ∃ left, rest = .documentStart :: left ∧ _ := tokens_of_head mark (by simp)
      refine ⟨rfl, used ++ [.documentStart], by simp, by simp [Source.rest], fun later => ?_⟩
      have same : (used ++ [Token.documentStart] ++ later).head? = (used ++ .documentStart :: left).head? := by
        cases used <;> rfl
      unfold start
      simp only [whole _ same, same, if_neg more]
      rw [List.append_assoc, List.singleton_append, again _ (by simp)]
      rfl
    · exact (error_of_refuse read).elim

theorem start_of_join {beginning : Source} (begins : (start tokens).toOption.join = some beginning) :
    start tokens = .ok (some beginning) := by
  cases found : start tokens with
  | error =>
    rw [found] at begins
    cases begins
  | ok source =>
    rw [found] at begins
    exact congrArg Except.ok begins

theorem beginning?_append {beginning : Source} (begins : beginning? tokens = some beginning) :
    beginning.anchors = [] ∧ ∃ used, tokens = used ++ beginning.tokens ∧
      ∀ more, more.head? = beginning.tokens.head? → beginning? (used ++ more) = some (beginning.on more) := by
  by_cases marked : (∃ directive, tokens.head? = some (.directive directive)) ∨ tokens.head? = some .documentStart ∨
      tokens.head? = some .streamEnd
  · have started : ∀ more : List Token, more.head? = tokens.head? → beginning? more = (start more).toOption.join := by
      intro more same
      unfold beginning?
      rw [same]
      rcases marked with ⟨directive, head⟩ | head | head <;> rw [head]
    have read : start tokens = .ok (some beginning) := start_of_join ((started tokens rfl).symm.trans begins)
    have first : tokens.head? ≠ some .documentEnd := by
      rcases marked with ⟨directive, head⟩ | head | head <;> simp [head]
    obtain ⟨anchors, used, some, rfl, again⟩ := start_append read first
    refine ⟨anchors, used, rfl, fun more _ => ?_⟩
    have same : (used ++ more).head? = (used ++ beginning.tokens).head? := by
      cases used with
      | nil => exact absurd rfl some
      | cons => rfl
    rw [started _ same, again]
    rfl
  · have bare : ∀ more : List Token, more.head? = tokens.head? →
        beginning? more = Option.some ⟨more, [], usualHandles⟩ := by
      intro more same
      unfold beginning?
      rw [same]
      split
      · next directive head => exact absurd (.inl ⟨directive, head⟩) marked
      · next head => exact absurd (.inr (.inl head)) marked
      · next head => exact absurd (.inr (.inr head)) marked
      · rfl
    rw [bare tokens rfl] at begins
    cases begins
    exact ⟨rfl, [], rfl, bare⟩

/-- What an opening is made of. -/
theorem opening?_eq_some_iff : opening? tokens = some (tag, place) ↔
    ∃ beginning found source, beginning? tokens = some beginning ∧ properties beginning = .ok (found, source) ∧
      source.head = .blockMappingStart ∧ tag = collectionTag found.tag .map ∧
      place = (source.name found.anchor (.enclosing tag .mapping)).rest := by
  constructor
  · intro opened
    obtain ⟨beginning, begins, opened⟩ := Option.bind_eq_some_iff.mp opened
    obtain ⟨⟨found, source⟩, given, opened⟩ := Option.bind_eq_some_iff.mp opened
    simp only at opened
    split at opened
    · next first =>
      cases opened
      exact ⟨beginning, found, source, begins, Outcome.toOption_eq_some_iff.mp given, first, rfl, rfl⟩
    · cases opened
  · rintro ⟨beginning, found, source, begins, given, first, rfl, rfl⟩
    refine Option.bind_eq_some_iff.mpr ⟨_, begins,
      Option.bind_eq_some_iff.mpr ⟨_, Outcome.toOption_eq_some_iff.mpr given, if_pos first⟩⟩

/-- The place of the first field depends on the tokens before it alone. -/
theorem opening?_append (opened : opening? tokens = some (tag, place)) :
    ∃ used, tokens = used ++ .blockMappingStart :: place.tokens ∧
      ∀ more, opening? (used ++ .blockMappingStart :: more) = some (tag, place.on more) := by
  obtain ⟨beginning, found, source, begins, given, first, eq, rfl⟩ := opening?_eq_some_iff.mp opened
  obtain ⟨-, used, rfl, again⟩ := beginning?_append begins
  obtain ⟨used', takes, -, again'⟩ := properties_reads given
  obtain ⟨tokens, front, rest⟩ := tokens_of_head first (by simp)
  have left : (source.name found.anchor (.enclosing tag .mapping)).rest.tokens = tokens := by
    cases found.anchor <;> exact congrArg Source.tokens rest
  rw [left, takes.tokens, front]
  refine ⟨used ++ used', (List.append_assoc ..).symm, fun more => opening?_eq_some_iff.mpr
    ⟨beginning.on (used' ++ .blockMappingStart :: more), found, source.on (.blockMappingStart :: more), ?_,
      again' (.blockMappingStart :: more) (.inl (by rw [front]; rfl)), rfl, eq, ?_⟩⟩
  · rw [List.append_assoc]
    refine again _ ?_
    rw [takes.tokens, front]
    cases used' <;> rfl
  · rw [name_on]
    rfl

/-- A mark at the start, or a node without one. -/
theorem marked_or_bare (tokens : List Token) :
    beginning? tokens = (start tokens).toOption.join ∧
        node? tokens = (do
          match ← start tokens with
          | some source => complete (content source)
          | none => return none) ∨
      beginning? tokens = some ⟨tokens, [], usualHandles⟩ ∧
        node? tokens = complete (Node.read (fuel tokens) .block ⟨tokens, [], usualHandles⟩) := by
  unfold beginning? node?
  cases tokens.head? with
  | none => exact .inr ⟨rfl, rfl⟩
  | some token => cases token <;> first | exact .inl ⟨rfl, rfl⟩ | exact .inr ⟨rfl, rfl⟩

theorem node?_of_beginning? {beginning : Source} (begins : beginning? tokens = some beginning) :
    node? tokens = complete (content beginning) ∨
      node? tokens = complete (Node.read (fuel tokens) .block beginning) := by
  rcases marked_or_bare tokens with ⟨marked, reads⟩ | ⟨bare, reads⟩
  · rw [marked] at begins
    rw [reads, start_of_join begins]
    exact .inl rfl
  · rw [bare] at begins
    cases begins
    exact .inr reads

/-- The node of a document that is a block mapping. -/
theorem node_of_opening? {result : Option Node} (opened : opening? tokens = some (tag, place))
    (read : node? tokens = .ok result) :
    ∃ n fields after, blockFields n place = .ok (fields, after) ∧ result = some (.map tag fields) := by
  obtain ⟨beginning, found, source, begins, given, first, rfl, rfl⟩ := opening?_eq_some_iff.mp opened
  have inside : isBoundary beginning.head = false := by
    rcases head_of_properties given with ⟨_, head⟩ | ⟨_, _, head⟩ | head <;> simp [head, first, isBoundary]
  obtain ⟨fuel, reads⟩ : ∃ n, node? tokens = complete (Node.read n .block beginning) := by
    rcases node?_of_beginning? begins with reads | reads
    · rw [content, if_neg (by simp [inside])] at reads
      exact ⟨_, reads⟩
    · exact ⟨_, reads⟩
  rw [reads] at read
  obtain ⟨⟨root, last⟩, one, read⟩ := Outcome.bind_ok_iff.mp read
  obtain ⟨⟨⟩, -, read⟩ := Outcome.bind_ok_iff.mp read
  cases read
  obtain ⟨n, fields, after, inner, rfl⟩ := read_blockMapping given first one
  exact ⟨n, fields, after, inner, rfl⟩

end Opening

/-! Field by field. -/

/-- After these tokens of a block mapping such fields have been read, and the others are read from a place that
depends on these tokens alone. -/
def Passes (used : List Token) (tag : Tag) (fields : List (Node × Node)) (place : Source) : Prop :=
  ∀ tokens, ∃ first, opening? (used ++ .key :: tokens) = some (tag, first) ∧
    ∀ n found last, blockFields n first = .ok (found, last) →
      ∃ rest later, blockFields later (place.on (.key :: tokens)) = .ok (rest, last) ∧ found = fields ++ rest

section Fields

variable {tokens used left : List Token} {tag tag' : Tag} {place : Source} {fields fields' : List (Node × Node)}

theorem passes_opening (opened : opening? tokens = some (tag, place)) :
    ∃ used, tokens = used ++ place.tokens ∧ Passes used tag [] place := by
  obtain ⟨used, rfl, again⟩ := opening?_append opened
  refine ⟨used ++ [.blockMappingStart], by simp, fun more => ⟨_, ?_, fun n found last read => ⟨found, n, read, rfl⟩⟩⟩
  rw [List.append_assoc]
  exact again _

/-- Further fields may be read. -/
theorem Passes.further {n : Nat} {rest : List (Node × Node)} {after : Source} (passes : Passes used tag fields place)
    (read : blockFields n (place.on tokens) = .ok (rest, after)) :
    ∃ more next, Takes [] (place.on tokens) more next ∧ next.tokens = .blockEnd :: after.tokens ∧
      Passes (used ++ more) tag (fields ++ rest) next := by
  obtain ⟨more, next, takes, ends, ⟨rfl, rfl, rfl⟩ | ⟨more, rfl⟩, goesOn⟩ := blockFields_ends read
  · refine ⟨[], _, takes, ends, ?_⟩
    rw [List.append_nil, List.append_nil]
    exact passes
  · refine ⟨_, next, takes, ends, fun tokens' => ?_⟩
    rw [List.append_assoc]
    obtain ⟨first, opened, reads⟩ := passes (more ++ .key :: tokens')
    refine ⟨first, opened, fun n found last whole => ?_⟩
    obtain ⟨found', later, part, rfl⟩ := reads n found last whole
    obtain ⟨rest', later', part', rfl⟩ :=
      goesOn _ tokens' _ _ (Nat.le_max_left _ later) (blockFields_mono part (Nat.le_max_right _ later))
    exact ⟨rest', later', part', (List.append_assoc ..).symm⟩

theorem blockMapping?_eq_some_iff : blockMapping? tokens = some (tag, fields, left) ↔
    ∃ first after, opening? tokens = some (tag, first) ∧
      blockFields (fuel first.tokens) first = .ok (fields, after) ∧ left = after.tokens := by
  constructor
  · intro whole
    obtain ⟨⟨tag, first⟩, opened, whole⟩ := Option.bind_eq_some_iff.mp whole
    obtain ⟨⟨fields, after⟩, read, whole⟩ := Option.bind_eq_some_iff.mp whole
    cases whole
    exact ⟨first, after, opened, Outcome.toOption_eq_some_iff.mp read, rfl⟩
  · rintro ⟨first, after, opened, read, rfl⟩
    exact Option.bind_eq_some_iff.mpr ⟨_, opened,
      Option.bind_eq_some_iff.mpr ⟨_, Outcome.toOption_eq_some_iff.mpr read, rfl⟩⟩

/-- A block mapping on its own, which more fields may follow. -/
theorem passes_of_blockMapping? (whole : blockMapping? tokens = some (tag, fields, left)) :
    ∃ used place, tokens = used ++ .blockEnd :: left ∧ Passes used tag fields place := by
  obtain ⟨first, after, opened, read, rfl⟩ := blockMapping?_eq_some_iff.mp whole
  obtain ⟨used, front, passes⟩ := passes_opening opened
  obtain ⟨more, next, takes, ends, passes'⟩ := passes.further (show blockFields _ (first.on first.tokens) = _ from read)
  refine ⟨used ++ more, next, ?_, passes'⟩
  rw [front, List.append_assoc, ← ends, ← takes.tokens]
  rfl

/-- A block mapping on its own, some of whose fields were read before. -/
theorem Passes.blockMapping? (passes : Passes used tag fields place)
    (whole : Document.blockMapping? (used ++ .key :: tokens) = some (tag', fields', left)) :
    tag' = tag ∧ ∃ rest more next, fields' = fields ++ rest ∧ Takes [] (place.on (.key :: tokens)) more next ∧
      next.tokens = .blockEnd :: left ∧ Passes (used ++ more) tag fields' next := by
  obtain ⟨first, after, opened, read, rfl⟩ := blockMapping?_eq_some_iff.mp whole
  obtain ⟨first', opened', reads⟩ := passes tokens
  rw [opened] at opened'
  cases opened'
  obtain ⟨rest, later, part, rfl⟩ := reads _ _ _ read
  obtain ⟨more, next, takes, ends, passes'⟩ := passes.further part
  exact ⟨rfl, rest, more, next, rfl, takes, ends, passes'⟩

/-- The node of a document goes on with the fields that are read from there. -/
theorem Passes.node {result : Option Node} (passes : Passes used tag fields place)
    (read : node? (used ++ .key :: tokens) = .ok result) :
    ∃ n rest last, blockFields n (place.on (.key :: tokens)) = .ok (rest, last) ∧
      result = some (.map tag (fields ++ rest)) := by
  obtain ⟨first, opened, reads⟩ := passes tokens
  obtain ⟨n, found, last, whole, rfl⟩ := node_of_opening? opened read
  obtain ⟨rest, later, part, rfl⟩ := reads _ _ _ whole
  exact ⟨later, rest, last, part, rfl⟩

theorem node_of_blockMapping? {result : Option Node} (whole : blockMapping? tokens = some (tag, fields, left))
    (read : node? tokens = .ok result) : result = some (.map tag fields) := by
  obtain ⟨first, after, opened, one, rfl⟩ := blockMapping?_eq_some_iff.mp whole
  obtain ⟨n, found, last, two, rfl⟩ := node_of_opening? opened read
  rw [(blockFields_unique one two).1]

/-- Names that are given in between are not looked up later. -/
theorem lookup_of_takes {source next : Source} {more : List Token} {name : List Char}
    (takes : Takes [] source more next) (other : .anchor name ∉ more) : next.anchors.lookup name = source.anchors.lookup name := by
  obtain ⟨new, anchors, given⟩ := takes.anchors
  have none : new.lookup name = none := by
    rw [List.lookup_eq_none_iff]
    rintro entry member
    rw [bne_iff_ne]
    rintro rfl
    exact other (given entry member)
  rw [anchors, List.lookup_append, none, Option.none_or]

/-- Fields after different tokens are the same if they refer to no name that is given there. -/
theorem fields_of_names {between between' more more' : List Token} {next next' last last' : Source} {n n' : Nat}
    (takes : Takes [] (place.on between) more next) (takes' : Takes [] (place.on between') more' next')
    (names : ∀ name, .aliasOf name ∈ tokens → .anchor name ∉ more ∧ .anchor name ∉ more')
    (read : blockFields n (next.on tokens) = .ok (fields, last))
    (read' : blockFields n' (next'.on tokens) = .ok (fields', last')) : fields' = fields := by
  have same : SameNames (next.on tokens) (next'.on tokens) :=
    ⟨rfl, takes'.handles.trans takes.handles.symm, fun name member =>
      (lookup_of_takes takes' (names name member).2).trans (lookup_of_takes takes (names name member).1).symm⟩
  exact ((allAgree (max n n')).blockFields _ _ _ _ _ _ same (blockFields_mono read (Nat.le_max_left ..))
    (blockFields_mono read' (Nat.le_max_right ..))).1

end Fields

end Document

end CheckCost.Yaml
