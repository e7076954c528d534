import CheckCost.Yaml.Tag
import CheckCost.Yaml.Token

/-!
Nodes of a document, read from its tokens. Every node has its tag; an alias stands for the node that it
names, which must have begun before.
-/
namespace CheckCost.Yaml

inductive Shape where
  | scalar
  | sequence
  | mapping
  deriving DecidableEq, Repr

def Shape.name : Shape → String
  | scalar => "scalar"
  | sequence => "sequence"
  | mapping => "mapping"

inductive Node where
  | scalar (tag : Tag) (text : List Char)
  | seq (tag : Tag) (items : List Node)
  | map (tag : Tag) (fields : List (Node × Node))
  /-- An alias of a collection that holds it. -/
  | enclosing (tag : Tag) (shape : Shape)

namespace Node

def tag : Node → Tag
  | scalar tag _ | seq tag _ | map tag _ | enclosing tag _ => tag

def shape : Node → Shape
  | scalar .. => .scalar
  | seq .. => .sequence
  | map .. => .mapping
  | enclosing _ shape => shape

/-- A scalar that is not written at all. -/
def missing : Node := scalar .null []

/-- The tokens that are left, the nodes with names so far, the last one first, and what the handles of
tags stand for. -/
structure Source where
  tokens : List Token
  anchors : List (List Char × Node)
  handles : List (List Char × List Char)

namespace Source

def head (source : Source) : Token := source.tokens.headD .streamEnd

def rest (source : Source) : Source := { source with tokens := source.tokens.drop 1 }

/-- The fault that stopped the reading of tokens here, or else the given one. -/
def refuse (source : Source) (trouble : Trouble) : Except Fault α :=
  match source.head with
  | .fault fault => .error fault
  | _ => malformed trouble

def expected (source : Source) (activity : Activity) : Except Fault α :=
  source.refuse (.during activity)

/-- Gives a node its name, if it has one. -/
def name (anchor : Option (List Char)) (node : Node) (source : Source) : Source :=
  match anchor with
  | some anchor => { source with anchors := (anchor, node) :: source.anchors }
  | none => source

end Source

/-- What may stand before a node. -/
structure Properties where
  anchor : Option (List Char)
  /-- The address of its tag. -/
  tag : Option (List Char)

/-- The address that a tag stands for. -/
def addressOf (source : Source) (handle : Option (List Char)) (suffix : List Char) :
    Except Fault (List Char) :=
  match handle with
  | none => .ok suffix
  | some handle =>
    match source.handles.lookup handle with
    | some address => .ok (address ++ suffix)
    | none => failed .node

/-- An anchor and a tag, in either order, or one of them or none. What follows a tag is looked at before its
handle. -/
def properties (source : Source) : Except Fault (Properties × Source) :=
  match source.head, source.rest.head with
  | .anchor name, .tag handle suffix => do
    return (⟨some name, some (← addressOf source handle suffix)⟩, source.rest.rest)
  | .anchor name, _ => .ok (⟨some name, none⟩, source.rest)
  | .tag handle suffix, .anchor name => do
    return (⟨some name, some (← addressOf source handle suffix)⟩, source.rest.rest)
  | .tag .., .fault fault => .error fault
  | .tag handle suffix, _ => do
    return (⟨none, some (← addressOf source handle suffix)⟩, source.rest)
  | _, _ => .ok (⟨none, none⟩, source)

/-- The tag of a scalar. A lone exclamation mark asks for the tag of the same text without quotes. -/
def scalarTag (address : Option (List Char)) (plain : Bool) (text : List Char) : Tag :=
  match address with
  | some ['!'] => .ofPlain text
  | some address => .ofAddress address
  | none => if plain then .ofPlain text else .str

def collectionTag (address : Option (List Char)) (usual : Tag) : Tag :=
  match address with
  | some ['!'] | none => usual
  | some address => .ofAddress address

/-- A name is given once only. -/
def checkAnchor (source : Source) : Option (List Char) → Except Fault Unit
  | some name =>
    if (source.anchors.lookup name).isSome then
      malformed (.secondAnchor (String.ofList name))
    else .ok ()
  | none => .ok ()

/-- Where a node may stand: which collections it may be. -/
inductive Setting where
  | flow
  | block
  /-- A sequence need not be indented either. -/
  | field
  deriving DecidableEq, Repr

def Setting.isBlock (setting : Setting) : Bool := setting != .flow

/-- Properties without anything after them make an empty scalar. -/
def bare (setting : Setting) (properties : Properties) (source : Source) : Except Fault (Node × Source) :=
  if properties.anchor.isSome || properties.tag.isSome then do
    checkAnchor source properties.anchor
    let node := scalar (scalarTag properties.tag true []) []
    return (node, source.name properties.anchor node)
  else source.expected (if setting.isBlock then .blockNode else .flowNode)

mutual

def read : Nat → Setting → Source → Except Fault (Node × Source)
  | 0, _, source => source.expected .node
  | fuel + 1, setting, source =>
    match source.head with
    | .aliasOf name =>
      match source.anchors.lookup name with
      | some node => .ok (node, source.rest)
      | none => malformed (.unknownAlias (String.ofList name))
    | _ => do
      let (properties, source) ← properties source
      content fuel setting properties source

def content : Nat → Setting → Properties → Source → Except Fault (Node × Source)
  | 0, _, _, source => source.expected .node
  | fuel + 1, setting, ⟨anchor, address⟩, source => do
    let sequence := collectionTag address .seq
    let mapping := collectionTag address .map
    let opened := fun (tag : Tag) (shape : Shape) => source.name anchor (enclosing tag shape)
    let closed := fun (node : Node) (after : Source) => (node, after.name anchor node)
    let checked := checkAnchor source anchor
    match source.head with
    | .blockEntry =>
      if setting = .field then
        checked
        let (items, after) ← indentlessItems fuel (opened sequence .sequence)
        return closed (seq sequence items) after
      else bare setting ⟨anchor, address⟩ source
    | .scalar text plain =>
      checked
      return closed (scalar (scalarTag address plain text) text) source.rest
    | .flowSequenceStart =>
      checked
      let (items, after) ← flowItems fuel true (opened sequence .sequence).rest
      return closed (seq sequence items) after
    | .flowMappingStart =>
      checked
      let (fields, after) ← flowFields fuel true (opened mapping .mapping).rest
      return closed (map mapping fields) after
    | .blockSequenceStart =>
      if setting.isBlock then
        checked
        let (items, after) ← blockItems fuel (opened sequence .sequence).rest
        return closed (seq sequence items) after
      else bare setting ⟨anchor, address⟩ source
    | .blockMappingStart =>
      if setting.isBlock then
        checked
        let (fields, after) ← blockFields fuel (opened mapping .mapping).rest
        return closed (map mapping fields) after
      else bare setting ⟨anchor, address⟩ source
    | .fault fault => .error fault
    | _ => bare setting ⟨anchor, address⟩ source

/-- Reads a node unless one of the tokens that follow a node is next. -/
def readUnless (stop : Token → Bool) : Nat → Setting → Source → Except Fault (Node × Source)
  | 0, _, source => source.expected .node
  | fuel + 1, setting, source =>
    if stop source.head then .ok (missing, source) else read fuel setting source

def blockItems : Nat → Source → Except Fault (List Node × Source)
  | 0, source => source.expected .blockCollection
  | fuel + 1, source =>
    match source.head with
    | .blockEntry => do
      let stop := fun token => token = Token.blockEntry || token = .blockEnd
      let (item, after) ← readUnless stop fuel .block source.rest
      let (items, last) ← blockItems fuel after
      return (item :: items, last)
    | .blockEnd => .ok ([], source.rest)
    | _ => source.expected .blockCollection

/-- Reads a sequence that is not indented below its key; what comes after it belongs to the mapping. -/
def indentlessItems : Nat → Source → Except Fault (List Node × Source)
  | 0, source => source.expected .blockCollection
  | fuel + 1, source =>
    match source.head with
    | .blockEntry => do
      let stop := fun token =>
        token = Token.blockEntry || token = .key || token = .value || token = .blockEnd
      let (item, after) ← readUnless stop fuel .block source.rest
      let (items, last) ← indentlessItems fuel after
      return (item :: items, last)
    | _ => .ok ([], source)

def blockFields : Nat → Source → Except Fault (List (Node × Node) × Source)
  | 0, source => source.expected .blockMapping
  | fuel + 1, source =>
    match source.head with
    | .key => do
      let stop := fun token => token = Token.key || token = .value || token = .blockEnd
      let (key, afterKey) ← readUnless stop fuel .field source.rest
      let (value, after) ←
        if afterKey.head = .value then readUnless stop fuel .field afterKey.rest
        else pure (missing, afterKey)
      let (fields, last) ← blockFields fuel after
      return ((key, value) :: fields, last)
    | .blockEnd => .ok ([], source.rest)
    | _ => source.expected .blockMapping

/-- Reads items between brackets; `first` tells that none was read yet. A field without braces is a
mapping of its own. -/
def flowItems : Nat → Bool → Source → Except Fault (List Node × Source)
  | 0, _, source => source.expected .flowSequence
  | fuel + 1, first, source =>
    if source.head = .flowSequenceEnd then .ok ([], source.rest)
    else if !first && source.head != .flowEntry then source.expected .flowSequence
    else do
      let source := if first then source else source.rest
      let stop := fun token => token = Token.flowEntry || token = .flowSequenceEnd
      match source.head with
      | .key => do
        let stopKey := fun token => token = Token.value || stop token
        let (key, afterKey) ← readUnless stopKey fuel .flow source.rest
        let (value, after) ←
          if afterKey.head = .value then readUnless stop fuel .flow afterKey.rest
          else pure (missing, afterKey)
        let (items, last) ← flowItems fuel false after
        return (map .map [(key, value)] :: items, last)
      | .flowSequenceEnd => return ([], source.rest)
      | _ => do
        let (item, after) ← read fuel .flow source
        let (items, last) ← flowItems fuel false after
        return (item :: items, last)

/-- Reads fields between braces. A node on its own is a key without a value. -/
def flowFields : Nat → Bool → Source → Except Fault (List (Node × Node) × Source)
  | 0, _, source => source.expected .flowMapping
  | fuel + 1, first, source =>
    if source.head = .flowMappingEnd then .ok ([], source.rest)
    else if !first && source.head != .flowEntry then source.expected .flowMapping
    else do
      let source := if first then source else source.rest
      let stop := fun token => token = Token.flowEntry || token = .flowMappingEnd
      match source.head with
      | .key => do
        let stopKey := fun token => token = Token.value || stop token
        let (key, afterKey) ← readUnless stopKey fuel .flow source.rest
        let (value, after) ←
          if afterKey.head = .value then readUnless stop fuel .flow afterKey.rest
          else pure (missing, afterKey)
        let (fields, last) ← flowFields fuel false after
        return ((key, value) :: fields, last)
      | .flowMappingEnd => return ([], source.rest)
      | _ => do
        let (key, after) ← read fuel .flow source
        let (fields, last) ← flowFields fuel false after
        return ((key, missing) :: fields, last)

end

end Node

end CheckCost.Yaml
