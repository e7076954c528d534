import CheckCost.Path.Segments

/-!
Paths of files. A path is a root and the parts below it; parts that only say "here" are dropped when it
is read, parts that lead upwards stay until it is resolved. Between two resolved paths there is a
relative one.
-/
namespace CheckCost

structure Path where
  /-- How many slashes the path starts with: none if it is relative, and at most two. -/
  slashes : Nat
  parts : List (List Char)
  deriving DecidableEq, Repr

namespace Path

def here : List Char := ['.']

def above : List Char := ['.', '.']

/-- Exactly two slashes at the start are a root of their own, more are one. -/
def slashesOf (cs : List Char) : Nat :=
  let count := (cs.takeWhile (· = '/')).length
  if 2 < count then 1 else count

def ofString (text : String) : Path :=
  ⟨slashesOf text.toList, (segments text.toList).filter (· ≠ here)⟩

def joined : List (List Char) → List Char
  | [] => []
  | [part] => part
  | part :: rest => part ++ '/' :: joined rest

/-- The path without anything in it is the place itself. -/
def text (path : Path) : String :=
  let cs := List.replicate path.slashes '/' ++ joined path.parts
  String.ofList (if cs.isEmpty then here else cs)

def isAbsolute (path : Path) : Bool := path.slashes != 0

/-- The second path as seen from the first; an absolute one stays as it is. -/
def join (base path : Path) : Path :=
  if path.isAbsolute then path else ⟨base.slashes, base.parts ++ path.parts⟩

/-- Goes down a part, or up; `down` holds the parts so far, the last one first. Nothing is above the
root. -/
def step (down : List (List Char)) (part : List Char) : List (List Char) :=
  if part = above then down.drop 1 else part :: down

/-- The parts after every way up has been taken. -/
def settle (parts : List (List Char)) : List (List Char) := (parts.foldl step []).reverse

/-- The parts of a path from the root on, for the working directory `working`. -/
def settled (working path : Path) : List (List Char) := settle (working.join path).parts

def resolve (working path : Path) : Path := ⟨1, settled working path⟩

/-- The parts that lead from one directory to a place. -/
def route : List (List Char) → List (List Char) → List (List Char)
  | part :: start, next :: goal =>
    if part = next then route start goal
    else List.replicate (start.length + 1) above ++ next :: goal
  | start, goal => List.replicate start.length above ++ goal

def relative (working directory path : Path) : Path :=
  ⟨0, route (settled working directory) (settled working path)⟩

/-- No file has a name that holds the character NUL. -/
def holdsNul (path : Path) : Bool := path.parts.any (·.contains '\x00')

end Path

end CheckCost
