import CheckCost.Json.Printer
import CheckCost.Proofs.Json.Bare
import CheckCost.Proofs.Json.Numerals

/-!
Printed values. The text of a value is in ASCII and, if all its doubles are finite, in the grammar, where it means
that value; so whatever reads the grammar reads the value back.
-/
namespace CheckCost.Json

open Grammar

/-! Code units. -/

theorem hexValue?_hexDigits (n width : ℕ) : Text.hexValue? (Text.hexDigits n width) = some (n % 16 ^ width) := by
  have digits : ∀ k < 16, Text.hexDigit? (Nat.digitChar k) = some k := by decide
  induction width generalizing n with
  | zero => simp [Text.hexDigits, Text.hexValue?, Nat.mod_one]
  | succ width ih =>
    have last := digits (n % 16) (Nat.mod_lt _ (by norm_num))
    have first := ih (n / 16)
    unfold Text.hexValue? at first ⊢
    rw [Text.hexDigits, List.foldl_append, first, List.foldl_cons, List.foldl_nil, last, pow_succ', Nat.mod_mul]
    exact congrArg some (by ring)

theorem codeUnit_hexDigits {unit : ℕ} (small : unit < 0x10000) : CodeUnit (Text.hexDigits unit 4) unit := by
  refine ⟨Text.hexDigits_length unit 4, ?_⟩
  rw [hexValue?_hexDigits]
  exact congrArg some (Nat.mod_eq_of_lt small)

/-! Strings. -/

/-- A character outside the first plane is read from its two halves. -/
theorem body_pair {c : Char} {cs text rest : List Char} (beyond : 0x10000 ≤ c.toNat) (more : Body cs text rest) :
    Body (unitEscape (0xD800 + (c.toNat - 0x10000) / 0x400) ++
      unitEscape (0xDC00 + (c.toNat - 0x10000) % 0x400) ++ cs) (c :: text) rest := by
  have valid : c.toNat < 0xD800 ∨ 0xDFFF < c.toNat ∧ c.toNat < 0x110000 := c.valid
  have left := codeUnit_hexDigits (by omega : 0xD800 + (c.toNat - 0x10000) / 0x400 < 0x10000)
  have right := codeUnit_hexDigits (by omega : 0xDC00 + (c.toNat - 0x10000) % 0x400 < 0x10000)
  have isHigh : Text.isHighHalf (0xD800 + (c.toNat - 0x10000) / 0x400) = true := by
    simp only [Text.isHighHalf, Bool.and_eq_true, decide_eq_true_eq]
    omega
  have isLow : Text.isLowHalf (0xDC00 + (c.toNat - 0x10000) % 0x400) = true := by
    simp only [Text.isLowHalf, Bool.and_eq_true, decide_eq_true_eq]
    omega
  have joined : c.toNat = Text.joinHalves (0xD800 + (c.toNat - 0x10000) / 0x400)
      (0xDC00 + (c.toNat - 0x10000) % 0x400) := by
    unfold Text.joinHalves
    omega
  have pair := Body.pair left right isHigh isLow joined more
  simpa [unitEscape] using pair

theorem body_escapeChar (c : Char) {cs text rest : List Char} (more : Body cs text rest) :
    Body (escapeChar c ++ cs) (c :: text) rest := by
  unfold escapeChar
  split
  case h_8 quote backslash _ _ _ _ _ =>
    split
    · next visible =>
      have low : ' ' ≤ c := by simp_all
      exact .plain low quote backslash more
    · split
      · next small =>
        have unit := Body.unit (codeUnit_hexDigits small) more
        simpa [unitEscape] using unit
      · next beyond => exact body_pair (not_lt.mp beyond) more
  all_goals exact .short (by decide) more

theorem body_escaped (text rest : List Char) : Body (text.flatMap escapeChar ++ '"' :: rest) text rest := by
  induction text with
  | nil => exact .close rest
  | cons c text ih =>
    rw [List.flatMap_cons, List.append_assoc]
    exact body_escapeChar c ih

theorem literal_toList (text : String) (rest : List Char) :
    (literal text).toList ++ rest = '"' :: (text.toList.flatMap escapeChar ++ '"' :: rest) := by
  rw [literal, String.toList_ofList]
  simp

theorem value_literal (text : String) (rest : List Char) :
    Value ((literal text).toList ++ rest) (.str text) rest := by
  have derived := Value.string (body_escaped text.toList rest)
  rwa [String.ofList_toList, ← literal_toList] at derived

/-! Lines. -/

theorem gap_lineBreak (depth : ℕ) (rest : List Char) : Gap ((lineBreak depth).toList ++ rest) rest := by
  have spaces : ∀ k, Gap (List.replicate k ' ' ++ rest) rest := by
    intro k
    induction k with
    | zero => exact .none rest
    | succ k ih => exact .more (by decide) ih
  rw [lineBreak, String.toList_ofList]
  exact .more (by decide) (spaces _)

/-! Values. What follows the text of a value is left of it. -/

mutual

theorem value_printAt (depth : ℕ) (value : Json) (finite : isFinite value = true) (rest : List Char) :
    Value ((printAt depth value).toList ++ rest) value rest := by
  cases value with
  | null =>
    rw [printAt]
    exact .null rest
  | bool value =>
    cases value with
    | true =>
      rw [printAt]
      exact .yes rest
    | false =>
      rw [printAt]
      exact .no rest
  | int n =>
    rw [printAt]
    exact .number (numeral_int n)
  | float x =>
    rw [isFinite] at finite
    rw [printAt]
    exact .number (numeral_shown finite)
  | str text =>
    rw [printAt]
    exact value_literal text rest
  | arr items =>
    cases items with
    | nil =>
      rw [printAt]
      exact .emptyArray (.none _)
    | cons item others =>
      rw [isFinite, itemsFinite, Bool.and_eq_true] at finite
      have first := value_printAt (depth + 1) item finite.1
      have derived := Value.array (gap_lineBreak (depth + 1) _)
        (items_printItems (depth + 1) others finite.2 depth rest (first _))
      simpa [printAt] using derived
  | obj fields =>
    cases fields with
    | nil =>
      rw [printAt]
      exact .emptyObject (.none _)
    | cons field others =>
      obtain ⟨name, value⟩ := field
      rw [isFinite, fieldsFinite, Bool.and_eq_true] at finite
      have first := value_printAt (depth + 1) value finite.1
      have derived := Value.object (gap_lineBreak (depth + 1) _)
        (fields_printFields (depth + 1) others finite.2 depth rest name (first _))
      simpa [printAt, literal_toList] using derived

/-- An item and those after it, up to the closing bracket on a line of its own. -/
theorem items_printItems (depth : ℕ) (items : List Json) (finite : itemsFinite items = true) (outer : ℕ)
    (rest : List Char) {cs : List Char} {item : Json}
    (value : Value cs item ((printItems depth items).toList ++ ((lineBreak outer).toList ++ ']' :: rest))) :
    Items cs (item :: items) rest := by
  cases items with
  | nil => exact .last value (gap_lineBreak outer _)
  | cons next others =>
    rw [itemsFinite, Bool.and_eq_true] at finite
    have read := value_printAt depth next finite.1
    have derived := items_printItems depth others finite.2 outer rest (read _)
    refine .more value ?_ (gap_lineBreak depth _) derived
    have text : (printItems depth (next :: others)).toList = ',' :: ((lineBreak depth).toList ++
        ((printAt depth next).toList ++ (printItems depth others).toList)) := by
      simp [printItems]
    rw [text]
    simpa using Gap.none _

theorem fields_printFields (depth : ℕ) (fields : List (String × Json)) (finite : fieldsFinite fields = true)
    (outer : ℕ) (rest : List Char) (name : String) {cs : List Char} {item : Json}
    (value : Value cs item ((printFields depth fields).toList ++ ((lineBreak outer).toList ++ '\x7d' :: rest))) :
    Fields ('"' :: (name.toList.flatMap escapeChar ++ '"' :: ':' :: ' ' :: cs)) ((name, item) :: fields) rest := by
  have body := body_escaped name.toList (':' :: ' ' :: cs)
  have space : Gap (' ' :: cs) cs := .more (by decide) (.none cs)
  cases fields with
  | nil =>
    have derived := Fields.last body (.none _) space value (gap_lineBreak outer _)
    rwa [String.ofList_toList] at derived
  | cons field others =>
    obtain ⟨next, second⟩ := field
    rw [fieldsFinite, Bool.and_eq_true] at finite
    have read := value_printAt depth second finite.1
    have further := fields_printFields depth others finite.2 outer rest next (read _)
    have text : (printFields depth ((next, second) :: others)).toList = ',' :: ((lineBreak depth).toList ++
        ((literal next).toList ++ (':' :: ' ' :: ((printAt depth second).toList ++
          (printFields depth others).toList)))) := by
      simp [printFields]
    -- the next field opens with the quote of its name
    have comma : Gap ((printFields depth ((next, second) :: others)).toList ++
        ((lineBreak outer).toList ++ '\x7d' :: rest)) (',' :: ((lineBreak depth).toList ++ ('"' ::
          (next.toList.flatMap escapeChar ++ '"' :: ':' :: ' ' :: ((printAt depth second).toList ++
            ((printFields depth others).toList ++ ((lineBreak outer).toList ++ '\x7d' :: rest))))))) := by
      rw [text, ← literal_toList]
      simpa using Gap.none _
    have derived := Fields.more body (.none _) space value comma (gap_lineBreak depth _) further
    rwa [String.ofList_toList] at derived

end

theorem document_print {value : Json} (finite : isFinite value = true) : Document value.print.toList value := by
  have derived := value_printAt 0 value finite []
  rw [List.append_nil] at derived
  exact ⟨value.print.toList, [], .none _, derived, .none []⟩

/-! ASCII. -/

def IsAscii (cs : List Char) : Prop := ∀ c ∈ cs, c.toNat < 0x80

@[simp] theorem isAscii_append {first second : List Char} :
    IsAscii (first ++ second) ↔ IsAscii first ∧ IsAscii second := List.forall_mem_append

@[simp] theorem isAscii_cons {c : Char} {cs : List Char} : IsAscii (c :: cs) ↔ c.toNat < 0x80 ∧ IsAscii cs :=
  List.forall_mem_cons

@[simp] theorem isAscii_nil : IsAscii [] := List.forall_mem_nil _

@[simp] theorem isAscii_replicate_space (k : ℕ) : IsAscii (List.replicate k ' ') := by
  intro c member
  rw [List.eq_of_mem_replicate member]
  decide

theorem isAscii_hexDigits (n width : ℕ) : IsAscii (Text.hexDigits n width) := by
  have digits : ∀ k < 16, (Nat.digitChar k).toNat < 0x80 := by decide
  induction width generalizing n with
  | zero => exact isAscii_nil
  | succ width ih =>
    have last := digits (n % 16) (Nat.mod_lt _ (by norm_num))
    simp [Text.hexDigits, ih, last]

theorem isAscii_unitEscape (unit : ℕ) : IsAscii (unitEscape unit) := by
  simp [unitEscape, isAscii_hexDigits]

theorem isAscii_escapeChar (c : Char) : IsAscii (escapeChar c) := by
  unfold escapeChar
  split
  case h_8 =>
    split
    · next visible =>
      rw [Bool.and_eq_true, decide_eq_true_eq, decide_eq_true_eq] at visible
      have last : c.toNat ≤ '~'.toNat := visible.2
      have code : '~'.toNat = 0x7E := rfl
      exact isAscii_cons.mpr ⟨by omega, isAscii_nil⟩
    · split
      · exact isAscii_unitEscape _
      · exact isAscii_append.mpr ⟨isAscii_unitEscape _, isAscii_unitEscape _⟩
  all_goals simp

theorem isAscii_literal (text : String) : IsAscii (literal text).toList := by
  have inner : IsAscii (text.toList.flatMap escapeChar) := by
    intro c member
    obtain ⟨d, _, inside⟩ := List.mem_flatMap.mp member
    exact isAscii_escapeChar d c inside
  simp [literal, inner]

theorem isAscii_lineBreak (depth : ℕ) : IsAscii (lineBreak depth).toList := by
  simp [lineBreak]

theorem isAscii_of_numeral {cs : List Char} (numeral : Number.IsNumeral cs) : IsAscii cs := by
  intro c member
  have inside := numeral c member
  simp only [Number.inNumeral, Bool.or_eq_true, List.contains_iff_mem] at inside
  rcases inside with digit | mark
  · have bounds := digit_bounds.mp digit
    omega
  · have marks : IsAscii ['.', 'e', '+', '-'] := by simp
    exact marks c mark

theorem isAscii_int (n : ℤ) : IsAscii (toString n).toList := by
  rw [toList_toString]
  exact isAscii_of_numeral (Number.isNumeral_minus _ (Number.isNumeral_natDigits _))

theorem isAscii_shown (x : Float) : IsAscii (Number.shown Number.inDocument x).toList := by
  unfold Number.shown
  cases Number.Double.ofFloat x with
  | finite negative magnitude =>
    rw [Number.Double.shown, String.toList_ofList]
    exact isAscii_of_numeral (Number.isNumeral_minus negative magnitude.isNumeral_shown)
  | infinite negative => cases negative <;> simp [Number.Double.shown, Number.minus, Number.inDocument]
  | undefined => simp [Number.Double.shown, Number.inDocument]

mutual

/-- No value needs characters outside ASCII. -/
theorem isAscii_printAt (depth : ℕ) (value : Json) : IsAscii (printAt depth value).toList := by
  cases value with
  | null =>
    simp [printAt]
  | bool value => cases value <;> simp [printAt]
  | int n =>
    rw [printAt]
    exact isAscii_int n
  | float x =>
    rw [printAt]
    exact isAscii_shown x
  | str text =>
    rw [printAt]
    exact isAscii_literal text
  | arr items =>
    cases items with
    | nil => simp [printAt]
    | cons item others =>
      have first := isAscii_printAt (depth + 1) item
      have following := isAscii_printItems (depth + 1) others
      simp [printAt, first, following, isAscii_lineBreak]
  | obj fields =>
    cases fields with
    | nil => simp [printAt]
    | cons field others =>
      obtain ⟨name, value⟩ := field
      have first := isAscii_printAt (depth + 1) value
      have following := isAscii_printFields (depth + 1) others
      simp [printAt, first, following, isAscii_lineBreak, isAscii_literal]

theorem isAscii_printItems (depth : ℕ) (items : List Json) : IsAscii (printItems depth items).toList := by
  cases items with
  | nil => exact isAscii_nil
  | cons item others =>
    have first := isAscii_printAt depth item
    have following := isAscii_printItems depth others
    simp [printItems, first, following, isAscii_lineBreak]

theorem isAscii_printFields (depth : ℕ) (fields : List (String × Json)) :
    IsAscii (printFields depth fields).toList := by
  cases fields with
  | nil => exact isAscii_nil
  | cons field others =>
    obtain ⟨name, value⟩ := field
    have first := isAscii_printAt depth value
    have following := isAscii_printFields depth others
    simp [printFields, first, following, isAscii_lineBreak, isAscii_literal]

end

/-! Reading back. -/

/-- A parser of the standard, which may give up on integers of too many digits and on names that come twice. -/
def IsParser (parse : List Char → Option Json) : Prop :=
  ∀ cs value, Document cs value → IsReadable value → parse cs = some value

theorem isParser_ofChars : IsParser fun cs => (ofChars cs).toOption := by
  intro cs value document readable
  exact congrArg Except.toOption (ofChars_of_document document readable)

/-- Nothing of a value is lost in a text. -/
structure Keeps (text : String) (value : Json) : Prop where
  ascii : IsAscii text.toList
  document : Document text.toList value
  parsed : ∀ parse, IsParser parse → parse text.toList = some value
  read : ofChars text.toList = .ok value

theorem keeps_print {value : Json} (finite : isFinite value = true) (readable : IsReadable value) :
    Keeps value.print value where
  ascii := isAscii_printAt 0 value
  document := document_print finite
  parsed := fun _ parser => parser _ _ (document_print finite) readable
  read := ofChars_of_document (document_print finite) readable

theorem eq_of_keeps {text : String} {first second : Json} (left : Keeps text first) (right : Keeps text second) :
    first = second :=
  Option.some.inj ((left.parsed _ isParser_ofChars).symm.trans (right.parsed _ isParser_ofChars))

end CheckCost.Json
