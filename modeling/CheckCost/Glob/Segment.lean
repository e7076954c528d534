import CheckCost.Glob.Wild
import CheckCost.Path.Segments

/-!
Segments of a glob. Inside a segment stand wildcards, character classes, escapes, and groups such as
`@(a|b)`, which nest; a group that is not closed is text.
-/
namespace CheckCost.Glob

/-- How often one of a group's alternatives has to match. -/
inductive GroupKind where
  | once
  | atMostOnce
  | anyTimes
  | atLeastOnce
  | never
  deriving DecidableEq, Repr

namespace GroupKind

def ofChar? : Char → Option GroupKind
  | '@' => some once
  | '?' => some atMostOnce
  | '*' => some anyTimes
  | '+' => some atLeastOnce
  | '!' => some never
  | _ => none

def wild (kind : GroupKind) (body : Wild) : Wild :=
  match kind with
  | once => body
  | atMostOnce => .union .empty body
  | anyTimes => .many body
  | atLeastOnce => .concat body (.many body)
  | never => .other body

/-- What the character before the parenthesis means if the group is not closed. -/
def alone : GroupKind → Wild
  | once => .one (.only '@')
  | atMostOnce => .one .any
  | anyTimes => .run
  | atLeastOnce => .one (.only '+')
  | never => .one (.only '!')

end GroupKind

inductive Token where
  | char (c : Char)
  | set (chars : CharSet)
  | run
  | opening (kind : GroupKind)
  | bar
  | closing
  deriving DecidableEq, Repr

namespace Token

/-- The token at the start of a text that is not empty. A backslash at the end is no token. -/
def read? : List Char → Option Token × List Char
  | '\\' :: c :: rest => (some (char c), rest)
  | ['\\'] => (none, [])
  | '[' :: rest =>
    match CharSet.read? rest with
    | some (chars, tail) => (some (set chars), tail)
    | none => (some (char '['), rest)
  | c :: rest =>
    match GroupKind.ofChar? c, rest with
    | some kind, '(' :: tail => (some (opening kind), tail)
    | _, _ =>
      let token :=
        match c with
        | '*' => run
        | '?' => set .any
        | '|' => bar
        | ')' => closing
        | c => char c
      (some token, rest)
  | [] => (none, [])

def listFrom : Nat → List Char → List Token
  | 0, _ => []
  | _ + 1, [] => []
  | fuel + 1, cs =>
    let (token, rest) := read? cs
    token.toList ++ listFrom fuel rest

def list (cs : List Char) : List Token := listFrom cs.length cs

end Token

/-- A group that is not closed yet: the alternatives that are complete, and the parts of the one that
is being read. All lists are in reverse order. -/
structure OpenGroup where
  kind : GroupKind
  complete : List (List Wild)
  current : List Wild

/-- What has been read of a segment: the open groups, the innermost first, and the parts outside. -/
structure Reading where
  groups : List OpenGroup
  outside : List Wild

namespace Reading

def start : Reading := ⟨[], []⟩

def add (part : Wild) (reading : Reading) : Reading :=
  match reading.groups with
  | [] => { reading with outside := part :: reading.outside }
  | group :: rest => { reading with groups := { group with current := part :: group.current } :: rest }

def char (c : Char) : Wild := .one (.only c)

def next (reading : Reading) (token : Token) : Reading :=
  match token, reading.groups with
  | .char c, _ => reading.add (char c)
  | .set chars, _ => reading.add (.one chars)
  | .run, _ => reading.add .run
  | .opening kind, groups => { reading with groups := ⟨kind, [], []⟩ :: groups }
  | .bar, group :: rest =>
    let divided := { group with complete := group.current :: group.complete, current := [] }
    { reading with groups := divided :: rest }
  | .closing, group :: rest =>
    let alternatives := (group.current :: group.complete).reverse.map fun parts =>
      Wild.sequence parts.reverse
    { reading with groups := rest }.add (group.kind.wild (Wild.anyOf alternatives))
  | .bar, [] => reading.add (char '|')
  | .closing, [] => reading.add (char ')')

/-- The parts of a group that turned out not to be closed, in reverse order. -/
def unclosed (group : OpenGroup) : List Wild :=
  [char '|'].intercalate (group.current :: group.complete) ++ [char '(', group.kind.alone]

/-- All parts in reverse order, those of open groups as text. -/
def parts (reading : Reading) : List Wild :=
  (reading.groups.map unclosed).flatten ++ reading.outside

end Reading

def wildOf (tokens : List Token) : Wild :=
  Wild.sequence (tokens.foldl Reading.next .start).parts.reverse

inductive Segment where
  /-- Two stars: any number of segments. -/
  | anyDepth
  /-- A guarded one does not match the segments of dots. -/
  | named (guarded : Bool) (wild : Wild)
  deriving DecidableEq, Repr

namespace Segment

/-- A segment is guarded if it begins with a wildcard, a class or a group. -/
def guards : List Token → Bool
  | .set _ :: _ => true
  | .run :: _ => true
  | .opening _ :: _ => true
  | _ => false

def ofChars (cs : List Char) : Segment :=
  if cs = ['*', '*'] then anyDepth
  else
    let tokens := Token.list cs
    named (guards tokens) (wildOf tokens)

end Segment

end CheckCost.Glob
