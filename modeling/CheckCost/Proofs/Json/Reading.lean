import CheckCost.Number.Notation
import CheckCost.Proofs.Json.Grammar
import CheckCost.Proofs.Json.Refusal

/-!
What the grammar derives is read, and read as what it means: the reader stops nowhere before the end of a part and
passes over no more than it. Only names that come twice in an object and integers of too many digits are excepted.
-/
namespace CheckCost.Json

open Grammar

mutual

/-- All integers have few enough digits, and the names within each object differ. -/
def IsReadable : Json → Prop
  | int n => (Number.natDigits n.natAbs).length ≤ NumberFault.digitLimit
  | arr items => ItemsReadable items
  | obj fields => (Entries.keys fields).Nodup ∧ FieldsReadable fields
  | _ => True

def ItemsReadable : List Json → Prop
  | [] => True
  | item :: rest => IsReadable item ∧ ItemsReadable rest

def FieldsReadable : List (String × Json) → Prop
  | [] => True
  | (_, value) :: rest => IsReadable value ∧ FieldsReadable rest

end

/-! White space. -/

theorem skipSpace_of_gap {cs rest : List Char} (gap : Gap cs rest) : skipSpace cs = skipSpace rest := by
  induction gap with
  | none => rfl
  | more space gap ih => rw [← ih, skipSpace, List.dropWhile_cons_of_pos space, skipSpace]

theorem length_of_gap {cs rest : List Char} (gap : Gap cs rest) : rest.length ≤ cs.length := by
  induction gap with
  | none => exact le_rfl
  | more space gap ih =>
    rw [List.length_cons]
    omega

/-- No number goes on here. -/
def Stops (rest : List Char) : Prop :=
  ∀ c ∈ rest.head?, isDigit c = false ∧ c ≠ '.' ∧ c ≠ 'e' ∧ c ≠ 'E'

theorem stops_of_gap {cs rest : List Char} (gap : Gap cs rest) (stops : Stops rest) : Stops cs := by
  cases gap with
  | none => exact stops
  | more space gap =>
    intro c same
    cases same
    simp only [isSpace, Bool.or_eq_true, beq_iff_eq, or_assoc] at space
    rcases space with rfl | rfl | rfl | rfl <;> decide

theorem stops_of_head {c : Char} (rest : List Char) (closing : c ∈ [',', ']', '\x7d']) : Stops (c :: rest) := by
  intro d same
  cases same
  simp only [List.mem_cons, List.not_mem_nil, or_false] at closing
  rcases closing with rfl | rfl | rfl <;> decide

/-! Numbers. -/

theorem takeWhile_digits {digits rest : List Char} (all : ∀ c ∈ digits, isDigit c = true)
    (stop : ∀ c ∈ rest.head?, isDigit c = false) :
    (digits ++ rest).takeWhile isDigit = digits ∧ (digits ++ rest).dropWhile isDigit = rest := by
  rw [List.takeWhile_append_of_pos all, List.dropWhile_append_of_pos all]
  cases rest with
  | nil => simp
  | cons c rest =>
    have none : ¬ isDigit c = true := by simp [stop c rfl]
    rw [List.takeWhile_cons_of_neg none, List.dropWhile_cons_of_neg none, List.append_nil]
    exact ⟨rfl, rfl⟩

theorem wholePart_of_whole {whole rest : List Char} (first : Whole whole)
    (stop : ∀ c ∈ rest.head?, isDigit c = false) : wholePart (whole ++ rest) = (whole, rest) := by
  obtain ⟨taken, left⟩ := takeWhile_digits first.digits.all stop
  cases whole with
  | nil => exact absurd rfl first.digits.some
  | cons c more =>
    by_cases zero : c = '0'
    · have single := first.minimal (by rw [zero]; rfl)
      rw [single]
      rfl
    · unfold wholePart
      split
      · next same => exact absurd (List.cons.inj same).1 zero
      · rw [taken, left]

/-- What the fraction of a number is read as. -/
theorem fractionPart_of_fraction {fraction places rest : List Char} (second : Fraction fraction places)
    (stop : ∀ c ∈ rest.head?, isDigit c = false ∧ c ≠ '.') :
    fractionPart (fraction ++ rest) = (if fraction = [] then none else some places, rest) := by
  cases second with
  | none =>
    cases rest with
    | nil => rfl
    | cons c rest =>
      have other := (stop c rfl).2
      simp [fractionPart, other]
  | point run =>
    obtain ⟨taken, left⟩ := takeWhile_digits run.all fun c head => (stop c head).1
    simp [fractionPart, taken, left, run.some]

theorem sign_of_known {sign digits rest : List Char} {negative : Bool}
    (known : (sign, negative) ∈ [([], false), (['+'], false), (['-'], true)]) (run : Digits digits) :
    Number.sign (sign ++ (digits ++ rest)) = (negative, digits ++ rest) := by
  simp only [List.mem_cons, Prod.mk.injEq, List.not_mem_nil, or_false] at known
  rcases known with ⟨rfl, rfl⟩ | ⟨rfl, rfl⟩ | ⟨rfl, rfl⟩
  · cases digits with
    | nil => exact absurd rfl run.some
    | cons c more =>
      have digit := run.all c (List.mem_cons_self ..)
      unfold Number.sign
      split
      · next same =>
        cases (List.cons.inj same).1
        cases digit
      · next same =>
        cases (List.cons.inj same).1
        cases digit
      · rfl
  · rfl
  · rfl

theorem exponentPart_of_exponent {mark rest : List Char} {exponent : Option Int} (third : Exponent mark exponent)
    (stops : Stops rest) : exponentPart (mark ++ rest) = (exponent, rest) := by
  cases third with
  | none =>
    cases rest with
    | nil => rfl
    | cons c rest =>
      obtain ⟨-, -, small, large⟩ := stops c rfl
      simp [exponentPart, small, large]
  | @mark letter sign digits negative known signed run =>
    obtain ⟨taken, left⟩ := takeWhile_digits run.all fun c head => (stops c head).1
    have letters : (letter == 'e' || letter == 'E') = true := by simpa using known
    have body : Number.sign (sign ++ (digits ++ rest)) = _ := sign_of_known signed run
    simp [exponentPart, letters, body, taken, left, run.some]

theorem stop_of_fraction {fraction places rest : List Char} (second : Fraction fraction places)
    (stop : ∀ c ∈ rest.head?, isDigit c = false) : ∀ c ∈ (fraction ++ rest).head?, isDigit c = false := by
  cases second with
  | none => exact stop
  | point run =>
    intro c same
    cases same
    decide

theorem stop_of_exponent {mark rest : List Char} {exponent : Option Int} (third : Exponent mark exponent)
    (stops : Stops rest) : ∀ c ∈ (mark ++ rest).head?, isDigit c = false ∧ c ≠ '.' := by
  cases third with
  | none => exact fun c head => ⟨(stops c head).1, (stops c head).2.1⟩
  | mark known signed run =>
    intro c same
    cases same
    rcases known with rfl | rfl <;> decide

theorem digitsValue_eq {digits : List Char} (all : ∀ c ∈ digits, isDigit c = true) :
    digitsValue digits = Nat.ofDigitChars 10 digits 0 := by
  have generally : ∀ n, (digits.filterMap Text.asciiDigit?).foldl (fun n d => n * 10 + d) n =
      Nat.ofDigitChars 10 digits n := by
    induction digits with
    | nil => intro n; rfl
    | cons c rest ih =>
      intro n
      have digit : Text.asciiDigit? c = some (c.toNat - '0'.toNat) := if_pos (all c (List.mem_cons_self ..))
      rw [List.filterMap_cons_some digit, List.foldl_cons, Nat.ofDigitChars_cons, Nat.mul_comm n]
      exact ih (fun d member => all d (List.mem_cons_of_mem c member)) _
  exact generally 0

/-- Without zeros in front no number has a shorter text. -/
theorem length_of_whole {whole : List Char} (first : Whole whole) {limit : Nat} (pos : 0 < limit)
    (short : (Number.natDigits (digitsValue whole)).length ≤ limit) : whole.length ≤ limit := by
  unfold Number.natDigits at short
  rw [Nat.length_toDigits_le_iff (by decide) pos, digitsValue_eq first.digits.all] at short
  cases whole with
  | nil => exact Nat.zero_le _
  | cons c more =>
    by_cases zero : c = '0'
    · rw [first.minimal (by rw [zero]; rfl)]
      exact pos
    · have bounds := digit_bounds.mp (first.digits.all c (List.mem_cons_self ..))
      have leading : 1 ≤ c.toNat - '0'.toNat := by
        have other : c.toNat ≠ '0'.toNat := fun same => zero (Char.toNat_inj.mp same)
        have code : '0'.toNat = 0x30 := rfl
        omega
      rw [Nat.ofDigitChars_cons, Nat.ofDigitChars_eq_ofDigitChars_zero] at short
      have large : 10 ^ more.length ≤ 10 ^ more.length * (10 * 0 + (c.toNat - '0'.toNat)) :=
        Nat.le_mul_of_pos_right _ (by omega)
      exact (Nat.pow_lt_pow_iff_right (by decide)).mp (by omega : 10 ^ more.length < 10 ^ limit)

theorem unsigned?_of_unsigned {negative : Bool} {cs rest : List Char} {value : Json}
    (number : Unsigned negative cs value) (readable : IsReadable value) (stops : Stops rest) :
    unsigned? negative (cs ++ rest) = some (.ok value, rest) := by
  cases number with
  | integer first =>
    have stop : ∀ c ∈ rest.head?, isDigit c = false := fun c head => (stops c head).1
    have fraction := fractionPart_of_fraction .none fun c head => ⟨(stops c head).1, (stops c head).2.1⟩
    have exponent := exponentPart_of_exponent .none stops
    rw [List.nil_append] at fraction exponent
    have digits : (Number.signed negative (digitsValue cs)).natAbs = digitsValue cs := by
      cases negative <;> simp [Number.signed]
    have short : ¬ NumberFault.digitLimit < cs.length := by
      rw [IsReadable, digits] at readable
      exact not_lt.mpr (length_of_whole first (by decide) readable)
    simp [unsigned?, wholePart_of_whole first stop, fraction, exponent, first.digits.some, short]
  | @real whole fraction places mark exponent x first second third broken near =>
    have stopMark := stop_of_exponent third stops
    have stop := stop_of_fraction second fun c head => (stopMark c head).1
    rw [List.append_assoc, List.append_assoc]
    subst near
    have isReal : (decide (fraction = []) && exponent.isNone) = false := by
      rw [Bool.and_eq_false_iff, decide_eq_false_iff_not, ← Bool.not_eq_true, ← not_and_or]
      rintro ⟨rfl, whole⟩
      cases third with
      | none => exact broken rfl
      | mark => cases whole
    have isWhole : (if fraction = [] then none else some places).isNone = decide (fraction = []) := by
      split <;> simp_all
    have digits : (if fraction = [] then none else some places).getD [] = places := by
      cases second <;> rfl
    simp only [unsigned?, wholePart_of_whole first stop, fractionPart_of_fraction second stopMark,
      exponentPart_of_exponent third stops, isWhole, digits, isReal]
    simp [first.digits.some]

theorem head_of_whole {whole : List Char} (first : Whole whole) :
    ∃ c more, whole = c :: more ∧ isDigit c = true := by
  cases whole with
  | nil => exact absurd rfl first.digits.some
  | cons c more => exact ⟨c, more, rfl, first.digits.all c (List.mem_cons_self ..)⟩

theorem head_of_unsigned {negative : Bool} {cs : List Char} {value : Json} (number : Unsigned negative cs value) :
    ∃ c more, cs = c :: more ∧ isDigit c = true := by
  cases number with
  | integer first => exact head_of_whole first
  | @real whole fraction places mark exponent x first second third broken near =>
    obtain ⟨c, more, rfl, digit⟩ := head_of_whole first
    exact ⟨c, more ++ (fraction ++ mark), rfl, digit⟩

theorem scalar_of_numeral {cs rest : List Char} {value : Json} (numeral : Numeral cs value)
    (readable : IsReadable value) (stops : Stops rest) : scalar (cs ++ rest) = .ok (value, rest) := by
  cases numeral with
  | plain number =>
    have read := unsigned?_of_unsigned number readable stops
    obtain ⟨c, more, rfl, digit⟩ := head_of_unsigned number
    rw [List.cons_append] at read ⊢
    rw [scalar_of_plain _ (plain_of_digit digit), read]
  | @minus cs _ number =>
    have read := unsigned?_of_unsigned number readable stops
    obtain ⟨c, more, rfl, digit⟩ := head_of_unsigned number
    have letter : c ≠ 'I' := by
      rintro rfl
      cases digit
    have noWord : word? ('-' :: c :: (more ++ rest)) = none := by
      simp [word?, words, letter, @eq_comm Char _ c]
    rw [List.cons_append] at read
    simp [scalar, noWord, read]

theorem value_of_numeral {cs rest : List Char} {value : Json} (numeral : Numeral cs value)
    (readable : IsReadable value) (stops : Stops rest) (fuel : Nat) :
    Json.value (fuel + 1) none (cs ++ rest) = .ok (value, rest) := by
  rw [← scalar_of_numeral numeral readable stops]
  cases numeral with
  | plain number =>
    obtain ⟨c, more, rfl, digit⟩ := head_of_unsigned number
    exact value_of_plain fuel none _ (plain_of_digit digit)
  | minus number => simp [Json.value]

/-! Strings. -/

theorem body_ne_nil {cs text rest : List Char} (body : Body cs text rest) : cs ≠ [] := by
  cases body <;> simp

theorem length_of_body {cs text rest : List Char} (body : Body cs text rest) : rest.length < cs.length := by
  induction body with
  | close => simp
  | plain visible quote backslash more ih =>
    rw [List.length_cons]
    omega
  | short known more ih =>
    simp only [List.length_cons]
    omega
  | unit unit more ih =>
    simp only [List.length_cons, List.length_append]
    omega
  | pair left right isHigh isLow joined more ih =>
    simp only [List.length_cons, List.length_append]
    omega

theorem codeUnit_of_digits {digits cs : List Char} {unit : Nat} (written : CodeUnit digits unit) (some : cs ≠ []) :
    codeUnit (digits ++ cs) = .ok (unit, cs) := by
  have four := written.four
  have more := List.length_pos_iff.mpr some
  have long : ¬ (digits ++ cs).length < 5 := by
    rw [List.length_append]
    omega
  have hex : codeUnit.hexUnit? (digits ++ cs) = Option.some unit := by
    rw [codeUnit.hexUnit?, if_neg long, List.take_left' four, written.value]
  simp [codeUnit, hex, List.drop_left' four]

theorem not_half_of_char (c : Char) : Text.isHighHalf c.toNat = false ∧ Text.isHalf c.toNat = false := by
  have valid : c.toNat < 0xD800 ∨ 0xDFFF < c.toNat ∧ c.toNat < 0x110000 := c.valid
  simp only [Text.isHalf, Text.isHighHalf, Text.isLowHalf, Bool.or_eq_false_iff, Bool.and_eq_false_iff,
    decide_eq_false_iff_not]
  omega

theorem unicodeEscape_of_unit {digits cs : List Char} {c : Char} (written : CodeUnit digits c.toNat)
    (some : cs ≠ []) : unicodeEscape (digits ++ cs) = .ok (c, cs) := by
  obtain ⟨high, half⟩ := not_half_of_char c
  simp [unicodeEscape, codeUnit_of_digits written some, high, half]

theorem unicodeEscape_of_pair {first second cs : List Char} {high low : Nat} {c : Char} (left : CodeUnit first high)
    (right : CodeUnit second low) (isHigh : Text.isHighHalf high = true) (isLow : Text.isLowHalf low = true)
    (joined : c.toNat = Text.joinHalves high low) (some : cs ≠ []) :
    unicodeEscape (first ++ '\\' :: 'u' :: (second ++ cs)) = .ok (c, cs) := by
  have same : Char.ofNat (Text.joinHalves high low) = c := by rw [← joined, Char.ofNat_toNat]
  simp [unicodeEscape, codeUnit_of_digits left, codeUnit_of_digits right some, isHigh, isLow, same]

theorem shortEscape?_of_known {letter meant : Char} (known : (letter, meant) ∈ shortEscapes) :
    letter ≠ 'u' ∧ shortEscape? letter = some meant := by
  have all : ∀ entry ∈ shortEscapes, entry.1 ≠ 'u' ∧ shortEscape? entry.1 = some entry.2 := by decide
  exact all (letter, meant) known

theorem stringFrom_of_body {cs text rest : List Char} (body : Body cs text rest) (opening : Nat) {fuel : Nat}
    (enough : cs.length ≤ fuel) (done : List Char) :
    stringFrom opening fuel done cs = .ok (String.ofList (done.reverse ++ text), rest) := by
  induction body generalizing fuel done with
  | close rest =>
    cases fuel with
    | zero => cases enough
    | succ fuel => simp [stringFrom]
  | plain visible quote backslash more ih =>
    cases fuel with
    | zero => cases enough
    | succ fuel =>
      have next := ih (Nat.le_of_succ_le_succ enough)
      simp [stringFrom, backslash, not_lt.mpr visible, next]
  | short known more ih =>
    obtain ⟨other, meaning⟩ := shortEscape?_of_known known
    cases fuel with
    | zero => cases enough
    | succ fuel =>
      have next := ih (Nat.le_of_succ_le (Nat.le_of_succ_le_succ enough))
      simp [stringFrom, meaning, next]
  | @unit digits c cs text rest unit more ih =>
    have escaped := unicodeEscape_of_unit unit (body_ne_nil more)
    cases fuel with
    | zero => cases enough
    | succ fuel =>
      have shorter : cs.length ≤ fuel := by
        simp only [List.length_cons, List.length_append] at enough
        omega
      have next := ih shorter
      simp [stringFrom, escaped, next]
  | @pair first second high low c cs text rest left right isHigh isLow joined more ih =>
    have escaped := unicodeEscape_of_pair left right isHigh isLow joined (body_ne_nil more)
    cases fuel with
    | zero => cases enough
    | succ fuel =>
      have shorter : cs.length ≤ fuel := by
        simp only [List.length_cons, List.length_append] at enough
        omega
      have next := ih shorter
      simp [stringFrom, escaped, next]

theorem string_of_body {cs text rest : List Char} (body : Body cs text rest) :
    string cs = .ok (String.ofList text, rest) :=
  stringFrom_of_body body _ (Nat.le_succ _) []

/-! Values, and the items and fields within them. -/

theorem solid_of_digit {c : Char} (digit : isDigit c = true) :
    isSpace c = false ∧ c ≠ ']' ∧ c ≠ '\x7d' ∧ c ≠ '\ufeff' := by
  have bounds := digit_bounds.mp digit
  have other {d : Char} (outside : d.toNat < 0x30 ∨ 0x39 < d.toNat) : c ≠ d := by
    rintro rfl
    omega
  have solid : isSpace c = false := by
    simp [isSpace, other]
  exact ⟨solid, other (by decide), other (by decide), other (by decide)⟩

/-- The first character of a value is no white space and closes nothing. -/
theorem head_of_value {cs rest : List Char} {value : Json} (derived : Value cs value rest) :
    ∃ c more, cs = c :: more ∧ isSpace c = false ∧ c ≠ ']' ∧ c ≠ '\x7d' ∧ c ≠ '\ufeff' := by
  cases derived with
  | null => exact ⟨_, _, rfl, by decide⟩
  | yes => exact ⟨_, _, rfl, by decide⟩
  | no => exact ⟨_, _, rfl, by decide⟩
  | string => exact ⟨_, _, rfl, by decide⟩
  | emptyArray => exact ⟨_, _, rfl, by decide⟩
  | array => exact ⟨_, _, rfl, by decide⟩
  | emptyObject => exact ⟨_, _, rfl, by decide⟩
  | object => exact ⟨_, _, rfl, by decide⟩
  | number numeral =>
    cases numeral with
    | minus number => exact ⟨_, _, rfl, by decide⟩
    | plain number =>
      obtain ⟨c, more, rfl, digit⟩ := head_of_unsigned number
      exact ⟨c, _, rfl, solid_of_digit digit⟩

theorem head_of_items {cs rest : List Char} {items : List Json} (derived : Items cs items rest) :
    ∃ c more, cs = c :: more ∧ isSpace c = false ∧ c ≠ ']' ∧ c ≠ '\x7d' ∧ c ≠ '\ufeff' := by
  cases derived with
  | last value => exact head_of_value value
  | more value => exact head_of_value value

theorem head_of_fields {cs rest : List Char} {fields : List (String × Json)} (derived : Fields cs fields rest) :
    ∃ more, cs = '"' :: more := by
  cases derived <;> exact ⟨_, rfl⟩

theorem skipSpace_of_start {cs start : List Char} (gap : Gap cs start)
    (head : ∃ c more, start = c :: more ∧ isSpace c = false) : skipSpace cs = start := by
  obtain ⟨c, more, rfl, solid⟩ := head
  rw [skipSpace_of_gap gap, skipSpace_of_solid _ solid]

theorem skipSpace_of_mark {cs rest : List Char} {c : Char} (gap : Gap cs (c :: rest)) (solid : isSpace c = false) :
    skipSpace cs = c :: rest := skipSpace_of_start gap ⟨c, rest, rfl, solid⟩

theorem length_of_read {fuel : Nat} {cs rest : List Char} {value : Json}
    (read : Json.value fuel none cs = .ok (value, rest)) : rest.length ≤ cs.length := by
  have within := (readers_within fuel).1 none cs
  rw [read] at within
  exact within.rest.length_le

section Readers

variable {fuel : Nat}

/-- With so much fuel the reader gets through every value that the grammar derives. -/
def ReadsValues (fuel : Nat) : Prop :=
  ∀ {cs value rest}, Value cs value rest → IsReadable value → Stops rest → 2 * cs.length ≤ fuel →
    Json.value fuel none cs = .ok (value, rest)

def ReadsItems (fuel : Nat) : Prop :=
  ∀ {cs items rest} (done : List Json), Items cs items rest → ItemsReadable items → 2 * cs.length + 1 ≤ fuel →
    Json.items fuel none done cs = .ok (arr (done.reverse ++ items), rest)

def ReadsFields (fuel : Nat) : Prop :=
  ∀ {cs fields rest} (done : List (String × Json)), Fields cs fields rest → FieldsReadable fields →
    (Entries.keys (done ++ fields)).Nodup → 2 * cs.length + 1 ≤ fuel →
      Json.fields fuel none done cs = .ok (obj (done ++ fields), rest)

theorem value_reads (arrays : ReadsItems fuel) (objects : ReadsFields fuel) : ReadsValues (fuel + 1) := by
  intro cs value rest derived readable stops enough
  cases derived with
  | null =>
    simp [Json.value, scalar, word?, words]
    rfl
  | yes =>
    simp [Json.value, scalar, word?, words]
    rfl
  | no =>
    simp [Json.value, scalar, word?, words]
    rfl
  | number numeral => exact value_of_numeral numeral readable stops fuel
  | string body => simp [Json.value, string_of_body body]
  | emptyArray gap => simp [Json.value, skipSpace_of_mark gap (by decide)]
  | @array cs start _ items gap inner =>
    have shorter := length_of_gap gap
    rw [List.length_cons] at enough
    have read := arrays [] inner readable (by omega)
    obtain ⟨c, more, rfl, solid, inside, -⟩ := head_of_items inner
    simp [Json.value, Room.inside, skipSpace_of_mark gap solid, inside, read]
  | emptyObject gap => simp [Json.value, skipSpace_of_mark gap (by decide)]
  | @object cs start _ fields gap inner =>
    have shorter := length_of_gap gap
    rw [List.length_cons] at enough
    obtain ⟨distinct, readable⟩ := readable
    have read := objects [] inner readable distinct (by omega)
    obtain ⟨more, rfl⟩ := head_of_fields inner
    simp [Json.value, Room.inside, skipSpace_of_mark gap (by decide), read]

theorem items_reads (values : ReadsValues fuel) (arrays : ReadsItems fuel) : ReadsItems (fuel + 1) := by
  intro cs items rest done derived readable enough
  cases derived with
  | last value gap =>
    have stops := stops_of_gap gap (stops_of_head rest (by decide))
    have read := values value readable.1 stops (by omega)
    simp [Json.items, read, skipSpace_of_mark gap (by decide)]
  | @more _ after next start _ item items value gap resume others =>
    have stops := stops_of_gap gap (stops_of_head next (by decide))
    have read := values value readable.1 stops (by omega)
    have first := length_of_read read
    have second := length_of_gap gap
    have third := length_of_gap resume
    rw [List.length_cons] at second
    have readOthers := arrays (item :: done) others readable.2 (by omega)
    obtain ⟨c, more, head, solid, -⟩ := head_of_items others
    have skipped := skipSpace_of_start resume ⟨c, more, head, solid⟩
    simp [Json.items, read, skipSpace_of_mark gap (by decide), skipped, readOthers]

theorem not_mem_of_distinct {done fields : List (String × Json)} {name : String} {item : Json}
    (distinct : (Entries.keys (done ++ (name, item) :: fields)).Nodup) : name ∉ Entries.keys done := by
  intro known
  rw [Entries.keys, List.map_append] at distinct
  exact (List.nodup_append.mp distinct).2.2 name known name (List.mem_cons_self ..) rfl

theorem fields_reads (values : ReadsValues fuel) (objects : ReadsFields fuel) : ReadsFields (fuel + 1) := by
  intro cs fields rest done derived readable distinct enough
  cases derived with
  | @last cs name label colon start after _ item body named gap value finish =>
    have stops := stops_of_gap finish (stops_of_head rest (by decide))
    have first := length_of_body body
    have second := length_of_gap named
    have third := length_of_gap gap
    rw [List.length_cons] at second enough
    have read := values value readable.1 stops (by omega)
    obtain ⟨c, more, head, solid, -⟩ := head_of_value value
    have skipped := skipSpace_of_start gap ⟨c, more, head, solid⟩
    have new := not_mem_of_distinct distinct
    simp [Json.fields, string_of_body body, skipSpace_of_mark named (by decide), skipped, read,
      skipSpace_of_mark finish (by decide), Entries.put_of_not_mem _ _ _ new]
  | @more cs name label colon start after next second _ item fields body named gap value finish resume others =>
    have stops := stops_of_gap finish (stops_of_head next (by decide))
    have first := length_of_body body
    have atColon := length_of_gap named
    have atValue := length_of_gap gap
    have atComma := length_of_gap finish
    have atName := length_of_gap resume
    rw [List.length_cons] at atColon atComma enough
    have read := values value readable.1 stops (by omega)
    have left := length_of_read read
    obtain ⟨c, more, head, solid, -⟩ := head_of_value value
    have skipped := skipSpace_of_start gap ⟨c, more, head, solid⟩
    obtain ⟨quoted, rfl⟩ := head_of_fields others
    have new := not_mem_of_distinct distinct
    have put := Entries.put_of_not_mem (String.ofList name) item done new
    have readOthers := objects (done ++ [(String.ofList name, item)]) others readable.2
      (by simpa using distinct) (by omega)
    simp [Json.fields, string_of_body body, skipSpace_of_mark named (by decide), skipped, read,
      skipSpace_of_mark finish (by decide), put, skipSpace_of_mark resume (by decide), readOthers]

end Readers

theorem readers_read (fuel : Nat) : ReadsValues fuel ∧ ReadsItems fuel ∧ ReadsFields fuel := by
  -- on the fuel and not on the derivation, since the readers of items and fields take theirs from it
  induction fuel with
  | zero =>
    refine ⟨?_, ?_, ?_⟩
    · intro cs value rest derived _ _ enough
      obtain ⟨c, more, rfl, -⟩ := head_of_value derived
      cases enough
    · intro cs items rest done derived _ enough
      cases enough
    · intro cs fields rest done derived _ _ enough
      cases enough
  | succ fuel ih =>
    obtain ⟨values, arrays, objects⟩ := ih
    exact ⟨value_reads arrays objects, items_reads values arrays, fields_reads values objects⟩

/-- The reader reads every text of the standard as what it means. -/
theorem ofChars_of_document {cs : List Char} {value : Json} (document : Document cs value)
    (readable : IsReadable value) : ofChars cs = .ok value := by
  obtain ⟨start, after, before, derived, finish⟩ := document.parts
  obtain ⟨c, more, head, solid, -, -, mark⟩ := head_of_value derived
  have stops : Stops after := stops_of_gap finish (fun c none => by cases none)
  have shorter := length_of_gap before
  have read := (readers_read (2 * cs.length + 2)).1 derived readable stops (by omega)
  have skipped := skipSpace_of_start before ⟨c, more, head, solid⟩
  have noMark : cs.head? ≠ some '\ufeff' := by
    cases before with
    | none =>
      rw [head]
      exact fun same => mark (Option.some.inj same)
    | more space =>
      rintro ⟨⟩
      cases space
  have ends : skipSpace after = [] := skipSpace_of_gap finish
  simp [ofChars, ofCharsWithin, noMark, skipped, read, ends]

end CheckCost.Json
