import CheckCost.Text.Utf8
import Mathlib.Data.List.Basic

/-!
What bytes are text. Decoding succeeds exactly on the bytes that encode characters, and gives these
characters back.
-/
namespace CheckCost.Text.Utf8

/-- A byte after the first one of a sequence. -/
def IsTail (b : UInt8) : Prop := 0x80 ≤ b ∧ b ≤ 0xBF

/-- A sequence of bytes, and the code point that it stands for. -/
inductive Sequence : List UInt8 → Nat → Prop where
  | one {b : UInt8} (ascii : b < 0x80) : Sequence [b] b.toNat
  | two {b b₁ : UInt8} (lower : 0xC2 ≤ b) (upper : b < 0xE0) (tail : IsTail b₁) :
      Sequence [b, b₁] ((b.toNat - 0xC0) * 64 + (b₁.toNat - 0x80))
  | three {b b₁ b₂ : UInt8} (lower : 0xE0 ≤ b) (upper : b < 0xF0) (tail : IsTail b₁)
      (least : b = 0xE0 → 0xA0 ≤ b₁) (most : b = 0xED → b₁ ≤ 0x9F) (last : IsTail b₂) :
      Sequence [b, b₁, b₂] (((b.toNat - 0xE0) * 64 + (b₁.toNat - 0x80)) * 64 + (b₂.toNat - 0x80))
  | four {b b₁ b₂ b₃ : UInt8} (lower : 0xF0 ≤ b) (upper : b < 0xF5) (tail : IsTail b₁)
      (least : b = 0xF0 → 0x90 ≤ b₁) (most : b = 0xF4 → b₁ ≤ 0x8F) (next : IsTail b₂)
      (last : IsTail b₃) :
      Sequence [b, b₁, b₂, b₃]
        ((((b.toNat - 0xF0) * 64 + (b₁.toNat - 0x80)) * 64 + (b₂.toNat - 0x80)) * 64 + (b₃.toNat - 0x80))

/-! The sequences that the decoder takes. -/

theorem decodeFrom_pending_iff {offset : Nat} {p : Pending} {done cs : List Char} {bytes : List UInt8} :
    decodeFrom offset (some p) done bytes = .ok cs ↔
      ∃ b rest, bytes = b :: rest ∧ p.low ≤ b ∧ b ≤ p.high ∧
        if p.missing = 1 then
          decodeFrom (offset + 1) none (Char.ofNat (p.code * 64 + (b.toNat - 0x80)) :: done) rest = .ok cs
        else
          decodeFrom (offset + 1)
            (some ⟨p.lead, p.seen + 1, p.missing - 1, 0x80, 0xBF, p.code * 64 + (b.toNat - 0x80)⟩) done rest =
              .ok cs := by
  cases bytes with
  | nil => simp [decodeFrom]
  | cons b rest =>
    by_cases fits : p.low ≤ b ∧ b ≤ p.high
    · by_cases last : p.missing = 1 <;> simp [decodeFrom, fits, last]
    · simp only [decodeFrom, Bool.and_eq_true, decide_eq_true_eq, fits, if_false, List.cons.injEq]
      constructor
      · intro run
        cases run
      · rintro ⟨_, _, ⟨rfl, rfl⟩, low, high, _⟩
        exact absurd ⟨low, high⟩ fits

theorem begin?_two {b : UInt8} (lower : 0xC2 ≤ b) (upper : b < 0xE0) :
    begin? b = some ⟨b, 1, 1, 0x80, 0xBF, b.toNat - 0xC0⟩ := by
  simp [begin?, upper, UInt8.not_lt.mpr lower]

theorem begin?_three {b : UInt8} (lower : 0xE0 ≤ b) (upper : b < 0xF0) :
    begin? b =
      some ⟨b, 1, 2, if b = 0xE0 then 0xA0 else 0x80, if b = 0xED then 0x9F else 0xBF, b.toNat - 0xE0⟩ := by
  have notTwo : ¬ b < 0xC2 := UInt8.not_lt.mpr (UInt8.le_trans (by decide) lower)
  simp [begin?, notTwo, upper, UInt8.not_lt.mpr lower]

theorem begin?_four {b : UInt8} (lower : 0xF0 ≤ b) (upper : b < 0xF5) :
    begin? b =
      some ⟨b, 1, 3, if b = 0xF0 then 0x90 else 0x80, if b = 0xF4 then 0x8F else 0xBF, b.toNat - 0xF0⟩ := by
  have notTwo : ¬ b < 0xC2 := UInt8.not_lt.mpr (UInt8.le_trans (by decide) lower)
  have notThree : ¬ b < 0xE0 := UInt8.not_lt.mpr (UInt8.le_trans (by decide) lower)
  simp [begin?, notTwo, notThree, upper, UInt8.not_lt.mpr lower]

theorem begin?_cases {b : UInt8} {p : Pending} (begun : begin? b = some p) :
    (0xC2 ≤ b ∧ b < 0xE0) ∨ (0xE0 ≤ b ∧ b < 0xF0) ∨ (0xF0 ≤ b ∧ b < 0xF5) := by
  unfold begin? at begun
  split at begun
  · cases begun
  · next notTwo =>
    split at begun
    · next upper => exact .inl ⟨UInt8.not_lt.mp notTwo, upper⟩
    · next notThree =>
      split at begun
      · next upper => exact .inr (.inl ⟨UInt8.not_lt.mp notThree, upper⟩)
      · next notFour =>
        split at begun
        · next upper => exact .inr (.inr ⟨UInt8.not_lt.mp notFour, upper⟩)
        · cases begun

theorem decodeFrom_cons_ascii {b : UInt8} (ascii : b < 0x80) (offset : Nat) (done : List Char) (rest : List UInt8) :
    decodeFrom offset none done (b :: rest) =
      decodeFrom (offset + 1) none (Char.ofNat b.toNat :: done) rest := by
  simp [decodeFrom, ascii]

theorem decodeFrom_begun {b : UInt8} {p : Pending} (wide : ¬ b < 0x80) (begun : begin? b = some p)
    (offset : Nat) (done : List Char) (rest : List UInt8) :
    decodeFrom offset none done (b :: rest) = decodeFrom (offset + 1) (some p) done rest := by
  simp [decodeFrom, wide, begun]

/-- The bounds of a second byte, the narrower ones after one lead each. -/
theorem second_iff {b b₁ strict lax least most : UInt8} (wider : 0x80 ≤ least) (narrower : most ≤ 0xBF) :
    ((if b = strict then least else 0x80) ≤ b₁ ∧ b₁ ≤ if b = lax then most else 0xBF) ↔
      IsTail b₁ ∧ (b = strict → least ≤ b₁) ∧ (b = lax → b₁ ≤ most) := by
  unfold IsTail
  constructor
  · intro ⟨low, high⟩
    refine ⟨⟨?_, ?_⟩, ?_, ?_⟩
    · split at low
      · exact UInt8.le_trans wider low
      · exact low
    · split at high
      · exact UInt8.le_trans high narrower
      · exact high
    · intro same
      rwa [if_pos same] at low
    · intro same
      rwa [if_pos same] at high
  · intro ⟨tail, low, high⟩
    constructor
    · split
      · next same => exact low same
      · exact tail.1
    · split
      · next same => exact high same
      · exact tail.2

theorem sequence_of_decodeFrom {offset : Nat} {done cs : List Char} {b : UInt8} {more : List UInt8}
    (run : decodeFrom offset none done (b :: more) = .ok cs) :
    ∃ sequence code rest, b :: more = sequence ++ rest ∧ Sequence sequence code ∧
      decodeFrom (offset + sequence.length) none (Char.ofNat code :: done) rest = .ok cs := by
  by_cases ascii : b < 0x80
  · rw [decodeFrom_cons_ascii ascii] at run
    exact ⟨[b], b.toNat, more, rfl, .one ascii, run⟩
  cases begun : begin? b with
  | none => simp [decodeFrom, ascii, begun] at run
  | some p =>
    rw [decodeFrom_begun ascii begun] at run
    obtain ⟨lower, upper⟩ | ⟨lower, upper⟩ | ⟨lower, upper⟩ := begin?_cases begun
    · cases begun.symm.trans (begin?_two lower upper)
      obtain ⟨b₁, rest, rfl, low, high, run⟩ := decodeFrom_pending_iff.mp run
      exact ⟨[b, b₁], _, rest, rfl, .two lower upper ⟨low, high⟩, run⟩
    · cases begun.symm.trans (begin?_three lower upper)
      obtain ⟨b₁, rest, rfl, low, high, run⟩ := decodeFrom_pending_iff.mp run
      obtain ⟨tail, least, most⟩ := (second_iff (by decide) (by decide)).mp ⟨low, high⟩
      obtain ⟨b₂, rest, rfl, low, high, run⟩ := decodeFrom_pending_iff.mp run
      exact ⟨[b, b₁, b₂], _, rest, rfl, .three lower upper tail least most ⟨low, high⟩, run⟩
    · cases begun.symm.trans (begin?_four lower upper)
      obtain ⟨b₁, rest, rfl, low, high, run⟩ := decodeFrom_pending_iff.mp run
      obtain ⟨tail, least, most⟩ := (second_iff (by decide) (by decide)).mp ⟨low, high⟩
      obtain ⟨b₂, rest, rfl, low₂, high₂, run⟩ := decodeFrom_pending_iff.mp run
      obtain ⟨b₃, rest, rfl, low₃, high₃, run⟩ := decodeFrom_pending_iff.mp run
      exact ⟨[b, b₁, b₂, b₃], _, rest, rfl,
        .four lower upper tail least most ⟨low₂, high₂⟩ ⟨low₃, high₃⟩, run⟩

theorem decodeFrom_sequence {sequence : List UInt8} {code : Nat} (valid : Sequence sequence code)
    (offset : Nat) (done cs : List Char) (rest : List UInt8)
    (run : decodeFrom (offset + sequence.length) none (Char.ofNat code :: done) rest = .ok cs) :
    decodeFrom offset none done (sequence ++ rest) = .ok cs := by
  cases valid with
  | one ascii => exact (decodeFrom_cons_ascii ascii ..).trans run
  | @two b b₁ lower upper tail =>
    have wide : ¬ b < 0x80 := UInt8.not_lt.mpr (UInt8.le_trans (by decide) lower)
    rw [List.cons_append, decodeFrom_begun wide (begin?_two lower upper)]
    exact decodeFrom_pending_iff.mpr ⟨_, _, rfl, tail.1, tail.2, run⟩
  | @three b b₁ b₂ lower upper tail least most last =>
    have wide : ¬ b < 0x80 := UInt8.not_lt.mpr (UInt8.le_trans (by decide) lower)
    have bounds := (second_iff (by decide) (by decide)).mpr ⟨tail, least, most⟩
    rw [List.cons_append, decodeFrom_begun wide (begin?_three lower upper)]
    refine decodeFrom_pending_iff.mpr ⟨_, _, rfl, bounds.1, bounds.2, ?_⟩
    exact decodeFrom_pending_iff.mpr ⟨_, _, rfl, last.1, last.2, run⟩
  | @four b b₁ b₂ b₃ lower upper tail least most next last =>
    have wide : ¬ b < 0x80 := UInt8.not_lt.mpr (UInt8.le_trans (by decide) lower)
    have bounds := (second_iff (by decide) (by decide)).mpr ⟨tail, least, most⟩
    rw [List.cons_append, decodeFrom_begun wide (begin?_four lower upper)]
    refine decodeFrom_pending_iff.mpr ⟨_, _, rfl, bounds.1, bounds.2, ?_⟩
    refine decodeFrom_pending_iff.mpr ⟨_, _, rfl, next.1, next.2, ?_⟩
    exact decodeFrom_pending_iff.mpr ⟨_, _, rfl, last.1, last.2, run⟩

/-! Sequences and characters. -/

theorem val_ofNat {n : Nat} (valid : n < 0xD800 ∨ 0xDFFF < n ∧ n < 0x110000) : (Char.ofNat n).val.toNat = n := by
  have valid : n.isValidChar := valid
  rw [Char.ofNat, dif_pos valid]
  rfl

theorem ofNat_eq {n : Nat} {b : UInt8} (eq : n = b.toNat) : UInt8.ofNat n = b := by
  rw [eq, UInt8.ofNat_toNat]

/-- A sequence stands for a character, and this character is written as the sequence. -/
theorem Sequence.encodes {sequence : List UInt8} {code : Nat} (valid : Sequence sequence code) :
    String.utf8EncodeChar (Char.ofNat code) = sequence := by
  cases valid with
  | one ascii =>
    simp only [UInt8.lt_iff_toNat_lt, UInt8.reduceToNat] at ascii
    rw [String.utf8EncodeChar, val_ofNat (by omega), if_pos (by omega), UInt8.ofNat_toNat]
  | two lower upper tail =>
    simp only [IsTail, UInt8.le_iff_toNat_le, UInt8.lt_iff_toNat_lt, UInt8.reduceToNat] at lower upper tail
    rw [String.utf8EncodeChar, val_ofNat (by omega), if_neg (by omega), if_pos (by omega)]
    simp only [List.cons.injEq, and_true]
    exact ⟨ofNat_eq (by omega), ofNat_eq (by omega)⟩
  | three lower upper tail least most last =>
    simp only [IsTail, UInt8.le_iff_toNat_le, UInt8.lt_iff_toNat_lt, ← UInt8.toNat_inj, UInt8.reduceToNat]
      at lower upper tail least most last
    rw [String.utf8EncodeChar, val_ofNat (by omega), if_neg (by omega), if_neg (by omega), if_pos (by omega)]
    simp only [List.cons.injEq, and_true]
    exact ⟨ofNat_eq (by omega), ofNat_eq (by omega), ofNat_eq (by omega)⟩
  | four lower upper tail least most next last =>
    simp only [IsTail, UInt8.le_iff_toNat_le, UInt8.lt_iff_toNat_lt, ← UInt8.toNat_inj, UInt8.reduceToNat]
      at lower upper tail least most next last
    rw [String.utf8EncodeChar, val_ofNat (by omega), if_neg (by omega), if_neg (by omega), if_neg (by omega)]
    simp only [List.cons.injEq, and_true]
    exact ⟨ofNat_eq (by omega), ofNat_eq (by omega), ofNat_eq (by omega), ofNat_eq (by omega)⟩

theorem Sequence.of_code {sequence : List UInt8} {code n : Nat} (valid : Sequence sequence code) (eq : code = n) :
    Sequence sequence n := eq ▸ valid

theorem sequence_utf8EncodeChar (c : Char) : Sequence (String.utf8EncodeChar c) c.toNat := by
  have valid : c.val.toNat < 0xD800 ∨ 0xDFFF < c.val.toNat ∧ c.val.toNat < 0x110000 := c.valid
  change Sequence _ c.val.toNat
  unfold String.utf8EncodeChar
  generalize c.val.toNat = n at valid
  dsimp only
  split
  · refine Sequence.of_code (.one ?_) ?_
    all_goals
      simp only [UInt8.lt_iff_toNat_lt, UInt8.reduceToNat, UInt8.toNat_ofNat']
      omega
  split
  · refine Sequence.of_code (.two ?_ ?_ ?_) ?_
    all_goals
      simp only [IsTail, UInt8.le_iff_toNat_le, UInt8.lt_iff_toNat_lt, UInt8.reduceToNat, UInt8.toNat_ofNat']
      omega
  split
  · refine Sequence.of_code (.three ?_ ?_ ?_ ?_ ?_ ?_) ?_
    all_goals
      simp only [IsTail, UInt8.le_iff_toNat_le, UInt8.lt_iff_toNat_lt, ← UInt8.toNat_inj, UInt8.reduceToNat,
        UInt8.toNat_ofNat']
      omega
  · refine Sequence.of_code (.four ?_ ?_ ?_ ?_ ?_ ?_ ?_) ?_
    all_goals
      simp only [IsTail, UInt8.le_iff_toNat_le, UInt8.lt_iff_toNat_lt, ← UInt8.toNat_inj, UInt8.reduceToNat,
        UInt8.toNat_ofNat']
      omega

/-! Whole texts. -/

theorem Sequence.length_pos {sequence : List UInt8} {code : Nat} (valid : Sequence sequence code) :
    0 < sequence.length := by
  cases valid <;> exact Nat.zero_lt_succ _

-- by the length of the bytes: what is left after a sequence is shorter
theorem encodes_of_decodeFrom {bytes : List UInt8} {offset : Nat} {done cs : List Char}
    (run : decodeFrom offset none done bytes = .ok cs) :
    ∃ more, cs = done.reverse ++ more ∧ more.flatMap String.utf8EncodeChar = bytes := by
  match bytes with
  | [] => exact ⟨[], by simpa [decodeFrom, eq_comm] using run, rfl⟩
  | b :: others =>
    obtain ⟨sequence, code, rest, split, valid, run⟩ := sequence_of_decodeFrom run
    have shorter : rest.length < (b :: others).length := by
      rw [split, List.length_append]
      exact Nat.lt_add_of_pos_left valid.length_pos
    obtain ⟨more, rfl, encoded⟩ := encodes_of_decodeFrom run
    refine ⟨Char.ofNat code :: more, by simp, ?_⟩
    rw [List.flatMap_cons, valid.encodes, encoded, split]
termination_by bytes.length
decreasing_by exact shorter

theorem decodeFrom_encodes (cs : List Char) (offset : Nat) (done : List Char) :
    decodeFrom offset none done (cs.flatMap String.utf8EncodeChar) = .ok (done.reverse ++ cs) := by
  induction cs generalizing offset done with
  | nil => simp [decodeFrom]
  | cons c rest ih =>
    rw [List.flatMap_cons]
    refine decodeFrom_sequence (sequence_utf8EncodeChar c) offset done _ _ ?_
    rw [ih, Char.ofNat_toNat]
    simp

theorem decode_ok_iff {bytes : List UInt8} {cs : List Char} :
    decode bytes = .ok cs ↔ cs.flatMap String.utf8EncodeChar = bytes := by
  constructor
  · intro run
    obtain ⟨more, rfl, encoded⟩ := encodes_of_decodeFrom run
    exact encoded
  · rintro rfl
    exact decodeFrom_encodes cs 0 []

/-- Exactly the bytes of a text are decoded, and as its characters. -/
theorem decode_eq_text_iff {bytes : List UInt8} {text : String} :
    decode bytes = .ok text.toList ↔ text.toUTF8.data.toList = bytes := by
  have written : text.toUTF8.data.toList = text.toList.flatMap String.utf8EncodeChar := by
    rw [String.toUTF8_eq_toByteArray, ← String.utf8Encode_toList, List.utf8Encode, List.data_toByteArray]
  rw [decode_ok_iff, written]

end CheckCost.Text.Utf8
