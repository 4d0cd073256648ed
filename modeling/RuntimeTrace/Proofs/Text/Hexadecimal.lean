import Mathlib.Algebra.Group.Nat.Even
import RuntimeTrace.Proofs.Activity.GuidText
import RuntimeTrace.Proofs.Text.Ascii

/-!
# Which texts are read as bytes

A text of digits is read exactly when the digits can be paired, and what is read is
written again as the same digits in lowercase (`isSome_bytes?`, `flatMap_byteDigits_of_bytes?`).

A byte buffer is read from less tidy text.  Blanks go first, wherever they stand.  What is
left is paired, and here the reader takes more than digits: a plus sign may stand in the
place of a high digit.  Such a sign counts for a zero, and that is all it does
(`pairs?_eq_bytes?`).  So the texts that are accepted are those that spell bytes once their
signs are replaced by zeros, and text without a sign in the place of a high digit is
accepted exactly when it consists of paired digits.

The pairs are pairs of bytes as well as of characters, though a character of several bytes
may fall into two pairs: a byte of such a character is no digit, and neither is the
character (`decodeBytes?_bytesOf`).

Main statement: `buffer_text_accepted`.
-/

namespace RuntimeTrace
namespace Hexadecimal

/-! ## One digit -/

/-- A character in one of the three runs of digits has a number in one of three ranges. -/
theorem isHexDigit_iff (c : Char) :
    c.isHexDigit = true ↔ 48 ≤ c.toNat ∧ c.toNat ≤ 57 ∨ 97 ≤ c.toNat ∧ c.toNat ≤ 102 ∨
      65 ≤ c.toNat ∧ c.toNat ≤ 70 := by
  simp only [Char.isHexDigit, Char.isDigit, Bool.or_eq_true, Bool.and_eq_true, decide_eq_true_eq,
    ge_iff_le, UInt32.le_iff_toNat_le, or_assoc]
  rfl

theorem lt_of_isHexDigit {c : Char} (h : c.isHexDigit = true) : c.toNat < 128 := by
  rcases (isHexDigit_iff c).mp h with h | h | h <;> omega

/-- **Exactly the digits have a value.** -/
theorem isSome_digitValue? (c : Char) : (digitValue? c).isSome = c.isHexDigit := by
  have hruns : (digitValue? c).isSome = true ↔
      ('0' ≤ c ∧ c ≤ '9') ∨ ('a' ≤ c ∧ c ≤ 'f') ∨ ('A' ≤ c ∧ c ≤ 'F') := by
    unfold digitValue?
    split_ifs <;> simp_all
  rw [Bool.eq_iff_iff, hruns, isHexDigit_iff]
  rfl

/-- The digits, each with its value and its lowercase form. -/
theorem digit_of_isHexDigit {c : Char} (h : c.isHexDigit = true) :
    ∃ n < 16, digitValue? c = some n ∧ digit n = c.toLower := by
  have hlt := lt_of_isHexDigit h
  revert h
  apply Utf8.forall_ascii ?_ hlt
  decide

theorem digit_of_digitValue? {c : Char} {n : Nat} (h : digitValue? c = some n) :
    n < 16 ∧ digit n = c.toLower := by
  have hc : c.isHexDigit = true := by rw [← isSome_digitValue?, h, Option.isSome_some]
  obtain ⟨m, hm, hvalue, hdigit⟩ := digit_of_isHexDigit hc
  obtain rfl := Option.some.inj (hvalue.symm.trans h)
  exact ⟨hm, hdigit⟩

/-- A byte made of two digits has these digits. -/
theorem byteDigits_of_lt {h l : Nat} (hh : h < 16) (hl : l < 16) :
    byteDigits (UInt8.ofNat (16 * h + l)) = [digit h, digit l] := by
  have hnat : (UInt8.ofNat (16 * h + l)).toNat = 16 * h + l := by
    rw [UInt8.toNat_ofNat']
    omega
  have hhigh : (16 * h + l) / 16 = h := by omega
  have hlow : (16 * h + l) % 16 = l := by omega
  rw [byteDigits, hnat, hhigh, hlow]

/-! ## Paired digits -/

/-- Digits that can be paired. -/
def SpellsBytes (cs : List Char) : Prop := Even cs.length ∧ ∀ c ∈ cs, c.isHexDigit = true

theorem spellsBytes_cons_cons (high low : Char) (rest : List Char) :
    SpellsBytes (high :: low :: rest) ↔
      high.isHexDigit = true ∧ low.isHexDigit = true ∧ SpellsBytes rest := by
  simp only [SpellsBytes, List.length_cons, List.forall_mem_cons, Nat.even_add_one, not_not]
  tauto

/-- **Digits are read as bytes exactly when they can be paired.** -/
theorem isSome_bytes? (cs : List Char) : (bytes? cs).isSome = true ↔ SpellsBytes cs := by
  fun_induction bytes? cs with
  | case1 => simp [SpellsBytes]
  | case2 c => simp [SpellsBytes]
  | case3 high low rest ih =>
    rw [spellsBytes_cons_cons, ← isSome_digitValue?, ← isSome_digitValue?, ← ih]
    cases digitValue? high <;> cases digitValue? low <;> cases bytes? rest <;> simp

/-- **The bytes that were read have the same digits**, in lowercase. -/
theorem flatMap_byteDigits_of_bytes? {cs : List Char} {bytes : List UInt8}
    (h : bytes? cs = some bytes) : bytes.flatMap byteDigits = cs.map Char.toLower := by
  fun_induction bytes? cs generalizing bytes with
  | case1 =>
    rw [← Option.some.inj h]
    rfl
  | case2 c => exact absurd h (by simp)
  | case3 high low rest ih =>
    obtain ⟨h, hhigh, h⟩ := Option.bind_eq_some_iff.mp h
    obtain ⟨l, hlow, h⟩ := Option.bind_eq_some_iff.mp h
    obtain ⟨bs, hrest, h⟩ := Option.bind_eq_some_iff.mp h
    obtain rfl := Option.some.inj h
    obtain ⟨hh, hhigh⟩ := digit_of_digitValue? hhigh
    obtain ⟨hl, hlow⟩ := digit_of_digitValue? hlow
    rw [List.flatMap_cons, byteDigits_of_lt hh hl, ih hrest, hhigh, hlow]
    rfl

theorem length_of_bytes? {cs : List Char} {bytes : List UInt8} (h : bytes? cs = some bytes) :
    cs.length = 2 * bytes.length := by
  rw [← length_flatMap_byteDigits, flatMap_byteDigits_of_bytes? h, List.length_map]

/-! ## Signs -/

/-- The characters with a zero for each plus sign in the place of a high digit. -/
def unsigned : List Char → List Char
  | high :: low :: rest => (if high = '+' then '0' else high) :: low :: unsigned rest
  | cs => cs

/-- No plus sign stands in the place of a high digit. -/
def SignFree (cs : List Char) : Prop := ∀ i, cs[2 * i]? ≠ some '+'

theorem mem_unsigned {c : Char} (hc : c ≠ '+') {cs : List Char} (h : c ∈ cs) :
    c ∈ unsigned cs := by
  fun_induction unsigned cs with
  | case1 high low rest ih =>
    rw [List.mem_cons, List.mem_cons]
    rw [List.mem_cons, List.mem_cons] at h
    rcases h with rfl | rfl | h
    · exact Or.inl (if_neg hc).symm
    · exact Or.inr (Or.inl rfl)
    · exact Or.inr (Or.inr (ih h))
  | case2 cs hcs => exact h

theorem unsigned_of_signFree {cs : List Char} (h : SignFree cs) : unsigned cs = cs := by
  fun_induction unsigned cs with
  | case1 high low rest ih =>
    have hhigh : high ≠ '+' := fun heq => h 0 (congrArg some heq)
    have hrest : SignFree rest := fun i hi => h (i + 1) hi
    rw [if_neg hhigh, ih hrest]
  | case2 cs h => rfl

/-- **A sign counts for a zero**, and for nothing else. -/
theorem pairs?_eq_bytes? (cs : List Char) : pairs? cs = bytes? (unsigned cs) := by
  fun_induction unsigned cs with
  | case1 high low rest ih =>
    rw [pairs?, bytes?, ih, pairValue?]
    by_cases hsign : high = '+'
    · subst hsign
      have hplus : digitValue? '+' = none := by decide
      have hzero : digitValue? '0' = some 0 := by decide
      rw [if_pos rfl, hplus, hzero]
      cases digitValue? low with
      | none => rfl
      | some l =>
        show (bytes? (unsigned rest)).bind (fun bs => some (UInt8.ofNat l :: bs)) =
          (bytes? (unsigned rest)).bind (fun bs => some (UInt8.ofNat (16 * 0 + l) :: bs))
        rw [Nat.mul_zero, Nat.zero_add]
    · rw [if_neg hsign]
      cases digitValue? high <;> cases digitValue? low <;> simp [hsign]
  | case2 cs h =>
    rcases cs with _ | ⟨high, _ | ⟨low, rest⟩⟩
    · rfl
    · rfl
    · exact absurd rfl (h high low rest)

/-! ## Buffers -/

/-- The characters of a text without its blanks. -/
def cleaned (text : String) : List Char := text.toList.filter fun c => !isBlank c

theorem decode?_eq_bytes? (text : String) : decode? text = bytes? (unsigned (cleaned text)) :=
  pairs?_eq_bytes? (cleaned text)

/-- A character from 128 on is refused wherever it stands. -/
theorem pairs?_eq_none {cs : List Char} (h : ∃ c ∈ cs, 128 ≤ c.toNat) :
    pairs? (cs.filter fun c => !isBlank c) = none := by
  obtain ⟨c, hc, hlarge⟩ := h
  have hsmall : ∀ d : Char, d.toNat < 128 → c ≠ d := by
    rintro d hd rfl
    omega
  have hblank : isBlank c = false := by
    simp [isBlank, hsmall]
  have hkept : c ∈ cs.filter fun c => !isBlank c := List.mem_filter.mpr ⟨hc, by simp [hblank]⟩
  rw [pairs?_eq_bytes?, ← Option.not_isSome_iff_eq_none, isSome_bytes?]
  rintro ⟨-, hdigits⟩
  have hdigit := hdigits c (mem_unsigned (hsmall '+' (by decide)) hkept)
  exact absurd (lt_of_isHexDigit hdigit) (Nat.not_lt_of_le hlarge)

/-- Reads a buffer from the bytes of its text, two at a time, dropping blanks first. -/
def decodeBytes? (bytes : List UInt8) : Option (List UInt8) :=
  pairs? ((bytes.filter fun b => !isBlank (Utf8.charOf b)).map Utf8.charOf)

/-- **Read byte by byte, a buffer is the same.** -/
theorem decodeBytes?_bytesOf (text : String) :
    decodeBytes? (Utf8.bytesOf text) = decode? text := by
  have hfilter : decodeBytes? (Utf8.bytesOf text) =
      pairs? (((Utf8.bytesOf text).map Utf8.charOf).filter fun c => !isBlank c) := by
    rw [List.filter_map]
    rfl
  rw [hfilter, decode?]
  rcases Utf8.map_charOf_bytesOf_or text with hsame | ⟨hchars, hbytes⟩
  · rw [hsame]
  · rw [pairs?_eq_none hchars, pairs?_eq_none hbytes]

theorem toList_encode (buffer : List UInt8) :
    (encode buffer).toList = buffer.flatMap byteDigits :=
  String.toList_ofList

/-- **The texts that are accepted.**  Without its blanks, and with a zero for each plus sign in
the place of a high digit, the text has to consist of digits that can be paired; the buffer is
then written as these digits in lowercase.  Where no sign stands in such a place, these are
the digits of the text itself, and any other text is refused.  All this is said of characters,
and read byte by byte the text gives the same. -/
theorem buffer_text_accepted (text : String) :
    decodeBytes? (Utf8.bytesOf text) = decode? text ∧
    ((decode? text).isSome = true ↔ SpellsBytes (unsigned (cleaned text))) ∧
    (∀ buffer, decode? text = some buffer →
      (encode buffer).toList = (unsigned (cleaned text)).map Char.toLower) ∧
    (SignFree (cleaned text) →
      ((decode? text).isSome = true ↔ SpellsBytes (cleaned text)) ∧
      (¬ SpellsBytes (cleaned text) → decode? text = none) ∧
      ∀ buffer, decode? text = some buffer →
        (encode buffer).toList = (cleaned text).map Char.toLower) := by
  have haccepted : (decode? text).isSome = true ↔ SpellsBytes (unsigned (cleaned text)) := by
    rw [decode?_eq_bytes?, isSome_bytes?]
  have hwritten : ∀ buffer, decode? text = some buffer →
      (encode buffer).toList = (unsigned (cleaned text)).map Char.toLower := by
    intro buffer h
    rw [decode?_eq_bytes?] at h
    rw [toList_encode, flatMap_byteDigits_of_bytes? h]
  refine ⟨decodeBytes?_bytesOf text, haccepted, hwritten, fun hfree => ?_⟩
  rw [unsigned_of_signFree hfree] at haccepted hwritten
  refine ⟨haccepted, fun hother => ?_, hwritten⟩
  rw [← Option.not_isSome_iff_eq_none, haccepted]
  exact hother

/-- Blanks within a pair, and digits of both cases. -/
theorem buffer_text_accepted_mixedCase :
    SignFree (cleaned "0 a\n0B") ∧ decode? "0 a\n0B" = some [10, 11] ∧
      (encode [10, 11]).toList = ['0', 'a', '0', 'b'] := by
  have hcleaned : cleaned "0 a\n0B" = ['0', 'a', '0', 'B'] := by decide
  have hfree : SignFree (cleaned "0 a\n0B") := by
    rw [hcleaned]
    intro i hi
    exact absurd (List.mem_of_getElem? hi) (by decide)
  have hread : decode? "0 a\n0B" = some [10, 11] := by decide
  obtain ⟨-, -, hwritten⟩ := (buffer_text_accepted "0 a\n0B").2.2.2 hfree
  refine ⟨hfree, hread, ?_⟩
  rw [hwritten [10, 11] hread, hcleaned]
  decide

/-- **A sign is accepted where a digit should stand**: not every text that is read consists of
digits. -/
theorem sign_taken_for_digit :
    decode? "+f" = some [15] ∧
      ¬ ∀ text : String, (decode? text).isSome = true ↔ SpellsBytes (cleaned text) := by
  have hread : decode? "+f" = some [15] := by decide
  have hcleaned : cleaned "+f" = ['+', 'f'] := by decide
  refine ⟨hread, fun h => ?_⟩
  have hspells : SpellsBytes (cleaned "+f") := by
    rw [← h "+f", hread, Option.isSome_some]
  rw [hcleaned] at hspells
  exact absurd (hspells.2 '+' List.mem_cons_self) (by decide)

end Hexadecimal
end RuntimeTrace
