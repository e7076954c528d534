import CheckCost.Json.Basic
import CheckCost.Number.Notation

/-!
Values as text. A string stands for itself, any other value is shown in its display form, in which
strings are quoted and containers are listed in brackets.
-/
namespace CheckCost.Json

mutual

def display : Json → String
  | null => "None"
  | bool true => "True"
  | bool false => "False"
  | int value => toString value
  | float value => Number.shown Number.inText value
  | str text => Text.quoted text
  | arr items => "[" ++ ", ".intercalate (displayItems items) ++ "]"
  | obj fields => "\x7b" ++ ", ".intercalate (displayFields fields) ++ "\x7d"

def displayItems : List Json → List String
  | [] => []
  | item :: rest => display item :: displayItems rest

def displayFields : List (String × Json) → List String
  | [] => []
  | (name, value) :: rest => (Text.quoted name ++ ": " ++ display value) :: displayFields rest

end

/-- The text of a value: of a string the string itself, of any other value its display form. -/
def text : Json → String
  | str text => text
  | value => display value

/-- The text of a value that may be missing: an empty one has the empty text. -/
def textOrEmpty (value : Json) : String := if value.isEmpty then "" else value.text

end CheckCost.Json
