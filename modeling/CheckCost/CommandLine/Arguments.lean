/-!
Arguments of a command. Long options may carry their value after an equals sign, short ones directly;
otherwise the next argument is the value, whatever it looks like. Short options without a value may be
joined. Only options are understood, no other arguments.
-/
namespace CheckCost.CommandLine

/-- An option that a command knows, under the names that it may be written with. -/
structure Spec (ι : Type) where
  id : ι
  long : String
  short : Option Char
  takesValue : Bool

structure Given (ι : Type) where
  id : ι
  value : Option String
  deriving DecidableEq, Repr

variable {ι : Type}

def findLong (specs : List (Spec ι)) (name : List Char) : Option (Spec ι) :=
  specs.find? fun spec => spec.long.toList = name

def findShort (specs : List (Spec ι)) (letter : Char) : Option (Spec ι) :=
  specs.find? fun spec => spec.short = some letter

/-- What one argument gives, and whether its last option still needs the next argument as its value. -/
structure Parsed (ι : Type) where
  given : List (Given ι)
  pending : Option ι

/-- Short options that are joined, from the next letter on. -/
def shortOptions? (specs : List (Spec ι)) : List Char → Option (Parsed ι)
  | [] => some ⟨[], none⟩
  | letter :: rest => do
    let spec ← findShort specs letter
    if spec.takesValue then
      if rest.isEmpty then return ⟨[], some spec.id⟩
      else return ⟨[⟨spec.id, some (String.ofList rest)⟩], none⟩
    else
      let parsed ← shortOptions? specs rest
      return { parsed with given := ⟨spec.id, none⟩ :: parsed.given }

def longOption? (spec : Spec ι) (value : Option String) : Option (Parsed ι) :=
  match spec.takesValue, value with
  | true, some value => some ⟨[⟨spec.id, some value⟩], none⟩
  | true, none => some ⟨[], some spec.id⟩
  | false, none => some ⟨[⟨spec.id, none⟩], none⟩
  | false, some _ => none

/-- The name before the first equals sign, and the value after it. -/
def splitValue (cs : List Char) : List Char × Option String :=
  match cs.dropWhile (· != '=') with
  | [] => (cs, none)
  | _ :: value => (cs.takeWhile (· != '='), some (String.ofList value))

def option? (specs : List (Spec ι)) (cs : List Char) : Option (Parsed ι) :=
  let (name, value) := splitValue cs
  match findLong specs name with
  | some spec => longOption? spec value
  | none =>
    match cs with
    | '-' :: '-' :: _ => none
    | '-' :: letters => shortOptions? specs letters
    | _ => none

/-- Reads arguments in their order; `pending` is the option that the next one is the value of. -/
def parseFrom (specs : List (Spec ι)) (pending : Option ι) : List String → Option (List (Given ι))
  | [] => if pending.isSome then none else some []
  | argument :: rest =>
    match pending with
    | some id => (parseFrom specs none rest).map (⟨id, some argument⟩ :: ·)
    | none =>
      let cs := argument.toList
      if cs = ['-', '-'] then if rest.isEmpty then some [] else none
      else if cs.head? = some '-' && 1 < cs.length then do
        let parsed ← option? specs cs
        return parsed.given ++ (← parseFrom specs parsed.pending rest)
      else none

def parse? (specs : List (Spec ι)) (arguments : List String) : Option (List (Given ι)) :=
  parseFrom specs none arguments

def values [DecidableEq ι] (given : List (Given ι)) (id : ι) : List String :=
  given.filterMap fun option => if option.id = id then option.value else none

/-- The last value counts. -/
def last? [DecidableEq ι] (given : List (Given ι)) (id : ι) : Option String :=
  (values given id).getLast?

end CheckCost.CommandLine
