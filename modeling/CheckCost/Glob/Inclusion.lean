import CheckCost.Glob.Braces
import CheckCost.Glob.Pattern
import CheckCost.Metric
import CheckCost.Text.Quoted

/-!
Which files a report includes. The user's pattern is anchored first: one that is relative may match at
any depth.
-/
namespace CheckCost

namespace Glob

/-- A pattern that was asked for has too many expansions. -/
structure Fault where
  pattern : String
  deriving DecidableEq, Repr

def expansionLimit : Nat := 1000

def Fault.message (fault : Fault) : String :=
  s!"invalid glob pattern {Text.quoted fault.pattern}: " ++
    s!"Pattern limit exceeded the limit of {expansionLimit}"

/-- Leaves out all `./` at the start. -/
def withoutHere : List Char → List Char
  | '.' :: '/' :: rest => withoutHere rest
  | cs => cs

def anchor (pattern : List Char) : List Char :=
  match withoutHere pattern with
  | '/' :: rest => '/' :: rest
  | '*' :: '*' :: rest => '*' :: '*' :: rest
  | relative => ['*', '*', '/'] ++ relative

end Glob

structure Glob where
  anchored : List Char
  patterns : List Glob.Pattern

namespace Glob

def compile (pattern : String) : Except Fault Glob :=
  let text := anchor pattern.toList
  let pieces := piecesOf text
  if expansionLimit < Piece.countSlot pieces then .error ⟨pattern⟩
  else .ok ⟨text, (Piece.expandSlot pieces).map Pattern.ofChars⟩

/-- Only a pattern from the root looks at the slashes at the start of a path. -/
def subject (glob : Glob) (path : String) : List Char :=
  if glob.anchored.head? = some '/' then path.toList else path.toList.dropWhile (· = '/')

def includes (glob : Glob) (path : String) : Bool :=
  let route := Route.ofChars (glob.subject path)
  glob.patterns.any fun pattern => pattern.matchesRoute route

def filter (glob : Glob) (metrics : List (Metric D)) : List (Metric D) :=
  metrics.filter fun metric => glob.includes metric.path

/-- Whether a pattern includes a path, if it can be used. -/
def matchesPath (pattern path : String) : Except Fault Bool := do
  let glob ← compile pattern
  return glob.includes path

/-- The metrics whose paths a pattern includes, if it can be used. -/
def select (pattern : String) (metrics : List (Metric D)) : Except Fault (List (Metric D)) := do
  let glob ← compile pattern
  return glob.filter metrics

end Glob

end CheckCost
