import CheckCost.Json.Basic
import CheckCost.Number.Notation
import CheckCost.Text.Hexadecimal

/-!
Writing JSON text in ASCII, with two more spaces of indentation at each level. Characters outside
ASCII are written as escapes, those outside the first plane as a pair of halves.
-/
namespace CheckCost.Json

def unitEscape (unit : Nat) : List Char := '\\' :: 'u' :: Text.hexDigits unit 4

def escapeChar (c : Char) : List Char :=
  match c with
  | '"' => ['\\', '"']
  | '\\' => ['\\', '\\']
  | '\n' => ['\\', 'n']
  | '\r' => ['\\', 'r']
  | '\t' => ['\\', 't']
  | '\x08' => ['\\', 'b']
  | '\x0c' => ['\\', 'f']
  | c =>
    if ' ' ≤ c && c ≤ '~' then [c]
    else if c.toNat < 0x10000 then unitEscape c.toNat
    else
      let offset := c.toNat - 0x10000
      unitEscape (0xD800 + offset / 0x400) ++ unitEscape (0xDC00 + offset % 0x400)

def literal (text : String) : String :=
  String.ofList ('"' :: text.toList.flatMap escapeChar ++ ['"'])

def lineBreak (depth : Nat) : String := String.ofList ('\n' :: List.replicate (2 * depth) ' ')

mutual

def printAt (depth : Nat) : Json → String
  | null => "null"
  | bool true => "true"
  | bool false => "false"
  | int value => toString value
  | float value => Number.shown Number.inDocument value
  | str text => literal text
  | arr [] => "[]"
  | arr (item :: rest) =>
    "[" ++ lineBreak (depth + 1) ++ printAt (depth + 1) item ++ printItems (depth + 1) rest ++
      lineBreak depth ++ "]"
  | obj [] => "\x7b\x7d"
  | obj ((name, value) :: rest) =>
    "\x7b" ++ lineBreak (depth + 1) ++ literal name ++ ": " ++ printAt (depth + 1) value ++
      printFields (depth + 1) rest ++ lineBreak depth ++ "\x7d"

/-- Further items, each after a comma on a line of its own. -/
def printItems (depth : Nat) : List Json → String
  | [] => ""
  | item :: rest => "," ++ lineBreak depth ++ printAt depth item ++ printItems depth rest

def printFields (depth : Nat) : List (String × Json) → String
  | [] => ""
  | (name, value) :: rest =>
    "," ++ lineBreak depth ++ literal name ++ ": " ++ printAt depth value ++ printFields depth rest

end

def print (value : Json) : String := printAt 0 value

end CheckCost.Json
