import CheckCost.Entries
import CheckCost.Json.Basic
import CheckCost.Number.Numeral
import CheckCost.Text.CodeUnit
import CheckCost.Text.Hexadecimal

/-!
Reading JSON text. A refusal names what was missed and how many characters were left there, from which
the place in the text follows. Besides the standard's numbers the words for the infinities and for no
number are read, and of two fields of one name the later value stays. A text may also nest deeper than
there is room for, and it may write half of a pair, which no text can hold.
-/
namespace CheckCost.Json

inductive Complaint where
  | value
  | comma
  | colon
  | propertyName
  | endOfText
  | unterminated
  | control
  | escape
  | codeUnit
  | byteOrderMark
  deriving DecidableEq, Repr

def Complaint.message : Complaint → String
  | value => "Expecting value"
  | comma => "Expecting ',' delimiter"
  | colon => "Expecting ':' delimiter"
  | propertyName => "Expecting property name enclosed in double quotes"
  | endOfText => "Extra data"
  | unterminated => "Unterminated string starting at"
  | control => "Invalid control character at"
  | escape => "Invalid \\escape"
  | codeUnit => "Invalid \\uXXXX escape"
  | byteOrderMark => "Unexpected UTF-8 BOM (decode using utf-8-sig)"

/-- What brackets and braces hold. -/
inductive Container where
  | array
  | object
  deriving DecidableEq, Repr

def Container.name : Container → String
  | array => "array"
  | object => "object"

/-- Why a text is not read: it is malformed with so many characters `left`, it writes an integer that is
too long, or it nests too deep. -/
inductive Refusal where
  | malformed (complaint : Complaint) (left : Nat)
  | number (fault : NumberFault)
  | tooDeep (container : Container)
  /-- An escape for half of a pair without the other half. It would be no character of a text. -/
  | half (unit : Nat)
  deriving DecidableEq, Repr

abbrev Reading (α : Type) := Except Refusal (α × List Char)

def refuse (complaint : Complaint) (place : List Char) : Except Refusal α :=
  .error (.malformed complaint place.length)

def isSpace (c : Char) : Bool := c == ' ' || c == '\t' || c == '\n' || c == '\r'

def skipSpace (cs : List Char) : List Char := cs.dropWhile isSpace

/-- The four hexadecimal digits after `\u`; a text that ends with them is not read. -/
def codeUnit (cs : List Char) : Reading Nat :=
  match hexUnit? with
  | some unit => .ok (unit, cs.drop 4)
  | none => .error (.malformed .codeUnit (cs.length + 1))
where
  hexUnit? : Option Nat := if cs.length < 5 then none else Text.hexValue? (cs.take 4)

/-- The character written after `\u`, from one code unit or from a pair of halves. -/
def unicodeEscape (cs : List Char) : Reading Char :=
  match codeUnit cs with
  | .error refusal => .error refusal
  | .ok (unit, rest) =>
    match Text.isHighHalf unit, rest with
    | true, '\\' :: 'u' :: more =>
      match codeUnit more with
      | .error refusal => .error refusal
      | .ok (second, tail) =>
        if Text.isLowHalf second then .ok (Char.ofNat (Text.joinHalves unit second), tail)
        else .error (.half unit)
    | _, _ => if Text.isHalf unit then .error (.half unit) else .ok (Char.ofNat unit, rest)

def shortEscape? : Char → Option Char
  | '"' => some '"'
  | '\\' => some '\\'
  | '/' => some '/'
  | 'b' => some '\x08'
  | 'f' => some '\x0c'
  | 'n' => some '\n'
  | 'r' => some '\r'
  | 't' => some '\t'
  | _ => none

/-- Reads a string after its opening quote, where the text still had `opening` characters. -/
def stringFrom (opening : Nat) : Nat → List Char → List Char → Reading String
  | 0, _, _ => .error (.malformed .unterminated opening)
  | _ + 1, _, [] => .error (.malformed .unterminated opening)
  | _ + 1, done, '"' :: rest => .ok (String.ofList done.reverse, rest)
  | _ + 1, _, ['\\'] => .error (.malformed .unterminated opening)
  | fuel + 1, done, '\\' :: 'u' :: rest =>
    match unicodeEscape rest with
    | .ok (c, tail) => stringFrom opening fuel (c :: done) tail
    | .error refusal => .error refusal
  | fuel + 1, done, '\\' :: c :: rest =>
    match shortEscape? c with
    | some meant => stringFrom opening fuel (meant :: done) rest
    | none => refuse .escape ('\\' :: c :: rest)
  | fuel + 1, done, c :: rest =>
    if c.toNat < 0x20 then refuse .control (c :: rest) else stringFrom opening fuel (c :: done) rest

/-- Reads a string after its opening quote. Each step takes a character at least. -/
def string (cs : List Char) : Reading String := stringFrom (cs.length + 1) (cs.length + 1) [] cs

def isDigit (c : Char) : Bool := '0' ≤ c && c ≤ '9'

/-- The whole part of a number: a single zero, or digits that begin with another one. -/
def wholePart : List Char → List Char × List Char
  | '0' :: rest => (['0'], rest)
  | cs => (cs.takeWhile isDigit, cs.dropWhile isDigit)

/-- A point with digits after it. -/
def fractionPart : List Char → Option (List Char) × List Char
  | '.' :: rest =>
    let digits := rest.takeWhile isDigit
    if digits.isEmpty then (none, '.' :: rest) else (some digits, rest.dropWhile isDigit)
  | cs => (none, cs)

def digitsValue (digits : List Char) : Nat := Number.natOf (digits.filterMap Text.asciiDigit?)

/-- The letter of an exponent with digits after it. -/
def exponentPart (cs : List Char) : Option Int × List Char :=
  match cs with
  | c :: rest =>
    if c == 'e' || c == 'E' then
      let (negative, body) := Number.sign rest
      let digits := body.takeWhile isDigit
      if digits.isEmpty then (none, cs)
      else (some (Number.signed negative (digitsValue digits)), body.dropWhile isDigit)
    else (none, cs)
  | [] => (none, cs)

/-- The number without a sign at the start of the text. With a fraction or an exponent it is a double,
otherwise an integer. -/
def unsigned? (negative : Bool) (cs : List Char) : Option (Except Refusal Json × List Char) :=
  let (whole, afterWhole) := wholePart cs
  let (fraction, afterFraction) := fractionPart afterWhole
  let (exponent, rest) := exponentPart afterFraction
  if whole.isEmpty then none
  else if fraction.isNone && exponent.isNone then
    if NumberFault.digitLimit < whole.length then
      some (.error (.number (.tooManyDigits whole.length)), rest)
    else some (.ok (int (Number.signed negative (digitsValue whole))), rest)
  else
    let places := fraction.getD []
    let x := Number.scaled (digitsValue (whole ++ places)) (exponent.getD 0 - places.length)
    some (.ok (float (if negative then -x else x)), rest)

def words : List (String × Json) :=
  [("null", null), ("true", bool true), ("false", bool false), ("NaN", float (0.0 / 0.0)),
    ("Infinity", float (1.0 / 0.0)), ("-Infinity", float (-1.0 / 0.0))]

def word? (cs : List Char) : Option (Json × List Char) :=
  words.findSome? fun (name, value) =>
    if name.toList.isPrefixOf cs then some (value, cs.drop name.length) else none

def scalar (cs : List Char) : Reading Json :=
  match word? cs with
  | some found => .ok found
  | none =>
    let number :=
      match cs with
      | '-' :: rest => unsigned? true rest
      | _ => unsigned? false cs
    match number with
    | some (.ok value, rest) => .ok (value, rest)
    | some (.error refusal, _) => .error refusal
    | none => refuse .value cs

/-- How many arrays and objects may still be opened inside each other; none for any number. -/
abbrev Room := Option Nat

/-- The room inside the next array or object. -/
def Room.inside (room : Room) : Room := room.map (· - 1)

mutual

/-- Reads one value, which begins where the text begins. -/
def value : Nat → Room → List Char → Reading Json
  | 0, _, cs => refuse .value cs
  | _ + 1, _, '"' :: rest =>
    match string rest with
    | .ok (text, tail) => .ok (str text, tail)
    | .error refusal => .error refusal
  | fuel + 1, room, '[' :: rest =>
    if room = some 0 then .error (.tooDeep .array)
    else
      match skipSpace rest with
      | ']' :: tail => .ok (arr [], tail)
      | cs => items fuel room.inside [] cs
  | fuel + 1, room, '\x7b' :: rest =>
    if room = some 0 then .error (.tooDeep .object)
    else
      match skipSpace rest with
      | '\x7d' :: tail => .ok (obj [], tail)
      | cs => fields fuel room.inside [] cs
  | _ + 1, _, cs => scalar cs

/-- Reads the items of an array from the next one on; `done` holds those before it, last first. -/
def items : Nat → Room → List Json → List Char → Reading Json
  | 0, _, _, cs => refuse .value cs
  | fuel + 1, room, done, cs =>
    match value fuel room cs with
    | .error refusal => .error refusal
    | .ok (item, rest) =>
      match skipSpace rest with
      | ']' :: tail => .ok (arr (item :: done).reverse, tail)
      | ',' :: tail => items fuel room (item :: done) (skipSpace tail)
      | place => refuse .comma place

/-- Reads the fields of an object from the next one on; `done` holds those before it. -/
def fields : Nat → Room → List (String × Json) → List Char → Reading Json
  | 0, _, _, cs => refuse .value cs
  | fuel + 1, room, done, '"' :: rest =>
    match string rest with
    | .error refusal => .error refusal
    | .ok (name, afterName) =>
      match skipSpace afterName with
      | ':' :: afterColon =>
        match value fuel room (skipSpace afterColon) with
        | .error refusal => .error refusal
        | .ok (item, afterValue) =>
          match skipSpace afterValue with
          | '\x7d' :: tail => .ok (obj (Entries.put name item done), tail)
          | ',' :: tail => fields fuel room (Entries.put name item done) (skipSpace tail)
          | place => refuse .comma place
      | place => refuse .colon place
  | _ + 1, _, _, cs => refuse .propertyName cs

end

/-- Reads a whole text: one value with space around it. Every two steps take a character at least. -/
def ofCharsWithin (room : Room) (cs : List Char) : Except Refusal Json :=
  if cs.head? = some '\ufeff' then refuse .byteOrderMark cs
  else
    match value (2 * cs.length + 2) room (skipSpace cs) with
    | .error refusal => .error refusal
    | .ok (result, rest) =>
      match skipSpace rest with
      | [] => .ok result
      | place => refuse .endOfText place

/-- Reads a whole text however deep it nests. -/
def ofChars (cs : List Char) : Except Refusal Json := ofCharsWithin none cs

end CheckCost.Json
