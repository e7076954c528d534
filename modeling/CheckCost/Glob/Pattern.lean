import CheckCost.Glob.Segment

/-!
Patterns without braces, matched against whole paths segment by segment.
-/
namespace CheckCost.Glob

structure Route where
  absolute : Bool
  segments : List (List Char)
  /-- The text ends with a slash. -/
  closed : Bool
  deriving DecidableEq, Repr

def Route.ofChars (cs : List Char) : Route :=
  ⟨cs.head? = some '/', Path.segments cs, cs.getLast? = some '/'⟩

structure Pattern where
  absolute : Bool
  segments : List Segment
  closed : Bool
  deriving DecidableEq, Repr

namespace Pattern

/-- Two stars that follow two stars add nothing. -/
def merged : List Segment → List Segment
  | .anyDepth :: .anyDepth :: rest => merged (.anyDepth :: rest)
  | segment :: rest => segment :: merged rest
  | [] => []

def ofChars (cs : List Char) : Pattern :=
  let route := Route.ofChars cs
  ⟨route.absolute, merged (route.segments.map Segment.ofChars), route.closed⟩

/-- Some of the segments may be left out at the front, unless they consist of dots, so that the rest
has the property. -/
def afterSkipping (rest : List (List Char) → Bool) : List (List Char) → Bool
  | [] => rest []
  | segment :: more =>
    rest (segment :: more) || (!Path.isDots segment && afterSkipping rest more)

/-- The segments of a path fit those of a pattern. Two stars at the end of a pattern need a slash
before them, or the start of the path; `slash` tells that the path ends with either. -/
def fits (slash : Bool) : List Segment → List (List Char) → Bool
  | [], segments => segments.isEmpty
  | [.anyDepth], segments => segments.all (!Path.isDots ·) && (!segments.isEmpty || slash)
  | .anyDepth :: rest, segments => afterSkipping (fits slash rest) segments
  | .named _ _ :: _, [] => false
  | .named guarded wild :: rest, segment :: more =>
    !(guarded && Path.isDots segment) && wild.accepts segment && fits slash rest more

/-- Only a pattern from the root, or one that begins with two stars, matches a path from the root. -/
def sameStart (pattern : Pattern) (route : Route) : Bool :=
  if pattern.absolute then route.absolute
  else !route.absolute || pattern.segments.head? = some .anyDepth

/-- A closed pattern needs a closed path, with a segment if the pattern has one. -/
def sameEnd (pattern : Pattern) (route : Route) : Bool :=
  !pattern.closed || route.closed && (pattern.segments.isEmpty || !route.segments.isEmpty)

def matchesRoute (pattern : Pattern) (route : Route) : Bool :=
  pattern.sameStart route && pattern.sameEnd route &&
    fits (route.segments.isEmpty || route.closed) pattern.segments route.segments

end Pattern

end CheckCost.Glob
