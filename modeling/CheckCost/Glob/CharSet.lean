/-!
Sets of characters in globs: ranges in brackets, perhaps negated, with escapes and named classes. The
named classes hold ASCII characters only.
-/
namespace CheckCost.Glob

/-- All characters in one of the closed ranges, or all in none of them. -/
structure CharSet where
  negated : Bool
  ranges : List (Char × Char)
  deriving DecidableEq, Repr

namespace CharSet

def contains (set : CharSet) (c : Char) : Bool :=
  set.negated != set.ranges.any fun range => range.1 ≤ c && c ≤ range.2

def only (c : Char) : CharSet := ⟨false, [(c, c)]⟩

def any : CharSet := ⟨true, []⟩

def named : List (String × List (Char × Char)) :=
  [("alnum", [('0', '9'), ('A', 'Z'), ('a', 'z')]),
    ("alpha", [('A', 'Z'), ('a', 'z')]),
    ("ascii", [('\x00', '\x7f')]),
    ("blank", [('\t', '\t'), (' ', ' ')]),
    ("cntrl", [('\x00', '\x1f'), ('\x7f', '\x7f')]),
    ("digit", [('0', '9')]),
    ("graph", [('!', '~')]),
    ("lower", [('a', 'z')]),
    ("print", [(' ', '~')]),
    ("punct", [('!', '/'), (':', '@'), ('[', '\x60'), ('\x7b', '~')]),
    ("space", [('\t', '\r'), (' ', ' ')]),
    ("upper", [('A', 'Z')]),
    ("word", [('0', '9'), ('A', 'Z'), ('_', '_'), ('a', 'z')]),
    ("xdigit", [('0', '9'), ('A', 'F'), ('a', 'f')])]

/-- A named class after its opening bracket, as in `:alpha:]`. -/
def named? (cs : List Char) : Option (List (Char × Char) × List Char) :=
  named.findSome? fun (name, ranges) =>
    let spelled := ':' :: name.toList ++ [':', ']']
    if spelled.isPrefixOf cs then some (ranges, cs.drop spelled.length) else none

/-- The character that ends a range; a closing bracket or a named class ends none. -/
def rangeEnd? : List Char → Option (Char × List Char)
  | [] => none
  | ']' :: _ => none
  | '\\' :: c :: rest => some (c, rest)
  | '[' :: rest => if (named? rest).isSome then none else some ('[', rest)
  | c :: rest => some (c, rest)

/-- The range of a single character that has not become the start of a longer one. -/
def single (start : Option Char) : List (Char × Char) := start.toList.map fun c => (c, c)

/-- Reads the ranges up to the closing bracket. `start` is the last single character, which a hyphen
would turn into the start of a range; none may follow a range or a named class directly. A range whose
ends are in the wrong order is empty. -/
def rangesFrom : Nat → Option Char → List (Char × Char) → List Char →
    Option (List (Char × Char) × List Char)
  | 0, _, _, _ => none
  | _ + 1, _, _, [] => none
  | _ + 1, start, done, ']' :: rest => some (done ++ single start, rest)
  | _ + 1, _, _, '/' :: _ => none
  | _ + 1, _, _, ['\\'] => none
  | fuel + 1, start, done, '\\' :: c :: rest => rangesFrom fuel (some c) (done ++ single start) rest
  | fuel + 1, start, done, '[' :: rest =>
    match named? rest with
    | some (ranges, tail) => rangesFrom fuel none (done ++ single start ++ ranges) tail
    | none => rangesFrom fuel (some '[') (done ++ single start) rest
  | fuel + 1, some first, done, '-' :: rest =>
    match rangeEnd? rest with
    | some (last, tail) =>
      rangesFrom fuel none (if last < first then done else done ++ [(first, last)]) tail
    | none => rangesFrom fuel (some '-') (done ++ single (some first)) rest
  | fuel + 1, start, done, c :: rest => rangesFrom fuel (some c) (done ++ single start) rest

/-- The ranges of a class; a closing bracket at its very start is a character like others. -/
def ranges? (cs : List Char) : Option (List (Char × Char) × List Char) :=
  match cs with
  | ']' :: rest => rangesFrom (cs.length + 1) (some ']') [] rest
  | _ => rangesFrom (cs.length + 1) none [] cs

def read? (cs : List Char) : Option (CharSet × List Char) :=
  let (negated, body) :=
    match cs with
    | '!' :: rest => (true, rest)
    | '^' :: rest => (true, rest)
    | _ => (false, cs)
  (ranges? body).map fun (ranges, rest) => (⟨negated, ranges⟩, rest)

theorem contains_any (c : Char) : any.contains c = true := rfl

end CharSet

end CheckCost.Glob
