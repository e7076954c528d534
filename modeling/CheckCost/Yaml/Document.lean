import CheckCost.Yaml.Layout
import CheckCost.Yaml.Node

/-!
The document of a text: directives, a start mark, a node, an end mark, most of which may be missing. A
text holds at most one.
-/
namespace CheckCost.Yaml.Document

/-- The handles that need no directive. -/
def usualHandles : List (List Char × List Char) :=
  [(['!'], ['!']), (['!', '!'], Tag.common.toList)]

/-- Takes the directives off and adds up what handles stand for. -/
def directives (versioned : Bool) (handles : List (List Char × List Char)) :
    List Token → Except Fault (List (List Char × List Char) × List Token)
  | .directive (.version major) :: rest =>
    if versioned then malformed .secondVersion
    else if major != 1 then malformed .foreignVersion
    else directives true handles rest
  | .directive (.handle handle address) :: rest =>
    if (handles.lookup handle).isSome then malformed (.secondHandle (String.ofList handle))
    else directives versioned ((handle, address) :: handles) rest
  | .directive .other :: rest => directives versioned handles rest
  | tokens => .ok (handles ++ usualHandles, tokens)

/-- Reads what precedes a document that has a start mark; nothing if the text ends. -/
def start (tokens : List Token) : Except Fault (Option Node.Source) :=
  let tokens := tokens.dropWhile (· = .documentEnd)
  if tokens.head? = some .streamEnd then .ok none
  else do
    let (handles, tokens) ← directives false [] tokens
    let source : Node.Source := ⟨tokens, [], handles⟩
    if source.head = .documentStart then return some source.rest
    else source.refuse (.noDocumentStart source.head.name)

def isBoundary : Token → Bool
  | .directive _ | .documentStart | .documentEnd | .streamEnd => true
  | _ => false

/-- No node takes more steps: each level of nesting takes a token and a few steps at most. -/
def fuel (tokens : List Token) : Nat := 4 * tokens.length + 4

/-- The node after a start mark, which may be missing. -/
def content (source : Node.Source) : Except Fault (Node × Node.Source) :=
  if isBoundary source.head then .ok (Node.missing, source)
  else Node.read (fuel source.tokens) .block source

def finish (source : Node.Source) : Except Fault Unit := do
  let source := if source.head = .documentEnd then source.rest else source
  match ← start source.tokens with
  | none => return ()
  | some _ => malformed .secondDocument

/-- A document that was read, if nothing comes after it. -/
def complete (reading : Except Fault (Node × Node.Source)) : Except Fault (Option Node) := do
  let (node, rest) ← reading
  finish rest
  return some node

/-- The node of the only document; none if the text holds no document. -/
def node? (tokens : List Token) : Except Fault (Option Node) :=
  match tokens.head? with
  | some (.directive _) | some .documentStart | some .streamEnd => do
    match ← start tokens with
    | some source => complete (content source)
    | none => return none
  | _ => complete (Node.read (fuel tokens) .block ⟨tokens, [], usualHandles⟩)

end CheckCost.Yaml.Document
