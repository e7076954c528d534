import CheckCost.Json.Reader

/-!
The grammar of JSON text in the standard. Each rule takes a text, what the text means, and what is left of it after
the part that the rule stands for. Halves of a pair alone, which the standard allows but which mean no character,
are left out.
-/
namespace CheckCost.Json.Grammar

/-- Any amount of white space. -/
inductive Gap : List Char → List Char → Prop where
  | none (rest : List Char) : Gap rest rest
  | more {c : Char} {cs rest : List Char} (space : isSpace c = true) (gap : Gap cs rest) : Gap (c :: cs) rest

/-- One digit or more. -/
structure Digits (cs : List Char) : Prop where
  some : cs ≠ []
  all : ∀ c ∈ cs, isDigit c = true

/-- The whole part of a number, which has no zeros in front. -/
structure Whole (cs : List Char) : Prop where
  digits : Digits cs
  minimal : cs.head? = some '0' → cs = ['0']

inductive Fraction : List Char → List Char → Prop where
  | none : Fraction [] []
  | point {digits : List Char} (run : Digits digits) : Fraction ('.' :: digits) digits

inductive Exponent : List Char → Option Int → Prop where
  | none : Exponent [] none
  | mark {letter : Char} {sign digits : List Char} {negative : Bool} (known : letter = 'e' ∨ letter = 'E')
      (signed : (sign, negative) ∈ [([], false), (['+'], false), (['-'], true)]) (run : Digits digits) :
      Exponent (letter :: (sign ++ digits)) (some (Number.signed negative (digitsValue digits)))

/-- A number without its sign. One with a fraction or an exponent is the double nearest to it. -/
inductive Unsigned (negative : Bool) : List Char → Json → Prop where
  | integer {whole : List Char} (first : Whole whole) :
      Unsigned negative whole (.int (Number.signed negative (digitsValue whole)))
  | real {whole fraction places mark : List Char} {exponent : Option Int} {x : Float} (first : Whole whole)
      (second : Fraction fraction places) (third : Exponent mark exponent) (broken : fraction ++ mark ≠ [])
      (near : x = Number.scaled (digitsValue (whole ++ places)) (exponent.getD 0 - places.length)) :
      Unsigned negative (whole ++ (fraction ++ mark)) (.float (if negative then -x else x))

inductive Numeral : List Char → Json → Prop where
  | plain {cs : List Char} {value : Json} (number : Unsigned false cs value) : Numeral cs value
  | minus {cs : List Char} {value : Json} (number : Unsigned true cs value) : Numeral ('-' :: cs) value

/-- The letters that stand for a character after a backslash. -/
def shortEscapes : List (Char × Char) :=
  [('"', '"'), ('\\', '\\'), ('/', '/'), ('b', '\x08'), ('f', '\x0c'), ('n', '\n'), ('r', '\r'), ('t', '\t')]

/-- The four hexadecimal digits of a code unit. -/
structure CodeUnit (digits : List Char) (unit : Nat) : Prop where
  four : digits.length = 4
  value : Text.hexValue? digits = some unit

/-- The characters of a string up to its closing quote, and that quote. -/
inductive Body : List Char → List Char → List Char → Prop where
  | close (rest : List Char) : Body ('"' :: rest) [] rest
  | plain {c : Char} {cs text rest : List Char} (visible : 0x20 ≤ c.toNat) (quote : c ≠ '"')
      (backslash : c ≠ '\\') (more : Body cs text rest) : Body (c :: cs) (c :: text) rest
  | short {letter meant : Char} {cs text rest : List Char} (known : (letter, meant) ∈ shortEscapes)
      (more : Body cs text rest) : Body ('\\' :: letter :: cs) (meant :: text) rest
  | unit {digits : List Char} {c : Char} {cs text rest : List Char} (unit : CodeUnit digits c.toNat)
      (more : Body cs text rest) : Body ('\\' :: 'u' :: (digits ++ cs)) (c :: text) rest
  | pair {first second : List Char} {high low : Nat} {c : Char} {cs text rest : List Char}
      (left : CodeUnit first high) (right : CodeUnit second low) (isHigh : Text.isHighHalf high = true)
      (isLow : Text.isLowHalf low = true) (joined : c.toNat = Text.joinHalves high low) (more : Body cs text rest) :
      Body ('\\' :: 'u' :: (first ++ '\\' :: 'u' :: (second ++ cs))) (c :: text) rest

mutual

inductive Value : List Char → Json → List Char → Prop where
  | null (rest : List Char) : Value ("null".toList ++ rest) .null rest
  | yes (rest : List Char) : Value ("true".toList ++ rest) (.bool true) rest
  | no (rest : List Char) : Value ("false".toList ++ rest) (.bool false) rest
  | number {cs rest : List Char} {value : Json} (numeral : Numeral cs value) : Value (cs ++ rest) value rest
  | string {cs text rest : List Char} (body : Body cs text rest) :
      Value ('"' :: cs) (.str (String.ofList text)) rest
  | emptyArray {cs rest : List Char} (gap : Gap cs (']' :: rest)) : Value ('[' :: cs) (.arr []) rest
  | array {cs start rest : List Char} {items : List Json} (gap : Gap cs start) (inner : Items start items rest) :
      Value ('[' :: cs) (.arr items) rest
  | emptyObject {cs rest : List Char} (gap : Gap cs ('\x7d' :: rest)) : Value ('\x7b' :: cs) (.obj []) rest
  | object {cs start rest : List Char} {fields : List (String × Json)} (gap : Gap cs start)
      (inner : Fields start fields rest) : Value ('\x7b' :: cs) (.obj fields) rest

/-- The items of an array up to its closing bracket, and that bracket. -/
inductive Items : List Char → List Json → List Char → Prop where
  | last {cs after rest : List Char} {item : Json} (value : Value cs item after) (gap : Gap after (']' :: rest)) :
      Items cs [item] rest
  | more {cs after next start rest : List Char} {item : Json} {items : List Json} (value : Value cs item after)
      (gap : Gap after (',' :: next)) (resume : Gap next start) (others : Items start items rest) :
      Items cs (item :: items) rest

/-- The fields of an object up to its closing brace, and that brace. -/
inductive Fields : List Char → List (String × Json) → List Char → Prop where
  | last {cs name label colon start after rest : List Char} {item : Json} (body : Body cs name label)
      (named : Gap label (':' :: colon)) (gap : Gap colon start) (value : Value start item after)
      (finish : Gap after ('\x7d' :: rest)) : Fields ('"' :: cs) [(String.ofList name, item)] rest
  | more {cs name label colon start after next second rest : List Char} {item : Json}
      {fields : List (String × Json)} (body : Body cs name label) (named : Gap label (':' :: colon))
      (gap : Gap colon start) (value : Value start item after) (finish : Gap after (',' :: next))
      (resume : Gap next second) (others : Fields second fields rest) : Fields ('"' :: cs) ((String.ofList name, item) :: fields) rest

end

/-- A whole text: one value with white space around it. -/
structure Document (cs : List Char) (value : Json) : Prop where
  parts : ∃ start after, Gap cs start ∧ Value start value after ∧ Gap after []

end CheckCost.Json.Grammar
