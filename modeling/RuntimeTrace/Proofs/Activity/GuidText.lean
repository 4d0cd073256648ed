import Mathlib.Data.List.Basic
import RuntimeTrace.Activity.Id

/-!
# The text of an identifier tells which it is

The GUID text shuffles the bytes of an identifier, writes two digits for each and
puts dashes between the digits.  Each of the three can be undone: the digits of a
byte read back as that byte (`bytes?_flatMap_byteDigits`), the dashes are the only
characters that are no digits (`filter_dashed`), and turning round the leading groups
twice changes nothing (`mixedEndian_mixedEndian`).

So the text of an identifier is read as that identifier (`parse_text`), identifiers with
the same text are the same (`text_injective`), and a text without a dash is the text of
none (`dash_mem_text`).
-/

namespace RuntimeTrace

/-! ## Digits -/

namespace Hexadecimal

/-- A digit reads back as its value. -/
theorem digitValue?_digit {n : Nat} (h : n < 16) : digitValue? (digit n) = some n := by
  have hall : ∀ n < 16, digitValue? (digit n) = some n := by decide
  exact hall n h

theorem digit_ne_dash {n : Nat} (h : n < 16) : digit n ≠ '-' := by
  have hall : ∀ n < 16, digit n ≠ '-' := by decide
  exact hall n h

theorem digit_ne_brace {n : Nat} (h : n < 16) : digit n ≠ '{' := by
  have hall : ∀ n < 16, digit n ≠ '{' := by decide
  exact hall n h

theorem high_lt (b : UInt8) : b.toNat / 16 < 16 := by
  have hb : b.toNat < 256 := b.toNat_lt
  omega

theorem low_lt (b : UInt8) : b.toNat % 16 < 16 := Nat.mod_lt _ (by decide)

/-- A byte is the value of its two digits. -/
theorem ofNat_high_low (b : UInt8) : UInt8.ofNat (16 * (b.toNat / 16) + b.toNat % 16) = b := by
  rw [Nat.div_add_mod, UInt8.ofNat_toNat]

/-- **The digits of some bytes read back as these bytes.** -/
theorem bytes?_flatMap_byteDigits (bytes : List UInt8) :
    bytes? (bytes.flatMap byteDigits) = some bytes := by
  induction bytes with
  | nil => rfl
  | cons b rest ih =>
    rw [List.flatMap_cons, byteDigits, List.cons_append, List.cons_append, List.nil_append, bytes?,
      digitValue?_digit (high_lt b), digitValue?_digit (low_lt b), ih]
    show some (UInt8.ofNat (16 * (b.toNat / 16) + b.toNat % 16) :: rest) = some (b :: rest)
    rw [ofNat_high_low]

theorem ne_dash_of_mem_flatMap_byteDigits {bytes : List UInt8} {c : Char}
    (h : c ∈ bytes.flatMap byteDigits) : c ≠ '-' := by
  obtain ⟨b, -, hc⟩ := List.mem_flatMap.mp h
  rw [byteDigits, List.mem_cons, List.mem_singleton] at hc
  rcases hc with rfl | rfl
  · exact digit_ne_dash (high_lt b)
  · exact digit_ne_dash (low_lt b)

theorem length_flatMap_byteDigits (bytes : List UInt8) :
    (bytes.flatMap byteDigits).length = 2 * bytes.length := by
  induction bytes with
  | nil => rfl
  | cons b rest ih =>
    rw [List.flatMap_cons, List.length_append, ih, List.length_cons]
    show 2 + 2 * rest.length = 2 * (rest.length + 1)
    omega

end Hexadecimal

namespace ActivityId

/-! ## Dashes and groups -/

/-- The five groups of digits between the dashes are all digits. -/
theorem groups_append (digits : List Char) :
    digits.take 8 ++ ((digits.drop 8).take 4 ++ ((digits.drop 12).take 4 ++
      ((digits.drop 16).take 4 ++ digits.drop 20))) = digits := by
  have hstep : ∀ n, (digits.drop n).take 4 ++ digits.drop (n + 4) = digits.drop n := by
    intro n
    rw [← List.drop_drop, List.take_append_drop]
  rw [hstep 16, hstep 12, hstep 8, List.take_append_drop]

/-- **Without its dashes** a dashed text is the digits it was made of. -/
theorem filter_dashed {digits : List Char} (h : ∀ c ∈ digits, c ≠ '-') :
    (dashed digits).filter (· != '-') = digits := by
  have hkeep : ∀ part : List Char, (∀ c ∈ part, c ∈ digits) → part.filter (· != '-') = part := by
    intro part hpart
    apply List.filter_eq_self.mpr
    exact fun c hc => bne_iff_ne.mpr (h c (hpart c hc))
  have hdrop : ∀ n, ∀ c ∈ digits.drop n, c ∈ digits := fun n c => List.mem_of_mem_drop
  have htake : ∀ n, ∀ c ∈ (digits.drop n).take 4, c ∈ digits :=
    fun n c hc => hdrop n c (List.mem_of_mem_take hc)
  simp only [dashed, List.append_assoc, List.cons_append, List.filter_append, List.filter_cons,
    bne_self_eq_false, Bool.false_eq_true, ↓reduceIte]
  rw [hkeep _ fun c => List.mem_of_mem_take, hkeep _ (htake 8), hkeep _ (htake 12),
    hkeep _ (htake 16), hkeep _ (hdrop 20)]
  exact groups_append digits

/-- Turning the groups round twice is no change. -/
theorem mixedEndian_mixedEndian (bytes : List UInt8) : mixedEndian (mixedEndian bytes) = bytes := by
  fun_cases mixedEndian bytes with
  | case1 => rfl
  | case2 bytes h =>
    rw [mixedEndian]
    exact h

theorem length_mixedEndian (bytes : List UInt8) : (mixedEndian bytes).length = bytes.length := by
  fun_cases mixedEndian bytes <;> rfl

/-- Thirty-two digits with their dashes have the shape of a GUID. -/
theorem hasGuidShape_dashed {digits : List Char} (h : digits.length = 32) :
    hasGuidShape (dashed digits) = true := by
  simp [hasGuidShape, dashed, h]

/-- No brace is taken off a text that does not begin with one. -/
theorem unbrace_of_head?_ne {cs : List Char} (h : cs.head? ≠ some '{') : unbrace cs = cs := by
  unfold unbrace
  split
  · exact absurd rfl h
  · rfl

/-! ## The text -/

theorem toList_text (id : ActivityId) :
    id.text.toList = dashed ((mixedEndian id.bytes).flatMap Hexadecimal.byteDigits) :=
  String.toList_ofList

/-- The text of an identifier begins with a digit. -/
theorem head?_text (id : ActivityId) : id.text.toList.head? ≠ some '{' := by
  obtain ⟨b, rest, hmixed⟩ : ∃ b rest, mixedEndian id.bytes = b :: rest := by
    apply List.exists_cons_of_length_pos
    rw [length_mixedEndian, id.length_bytes]
    decide
  rw [toList_text, hmixed, List.flatMap_cons]
  exact fun h => Hexadecimal.digit_ne_brace (Hexadecimal.high_lt b) (Option.some.inj h)

/-- **The text of an identifier is read as that identifier.** -/
theorem parse_text (id : ActivityId) : parse id.text = .ok id := by
  have hlength : ((mixedEndian id.bytes).flatMap Hexadecimal.byteDigits).length = 32 := by
    rw [Hexadecimal.length_flatMap_byteDigits, length_mixedEndian, id.length_bytes]
  have hid : ofBytes? (mixedEndian (mixedEndian id.bytes)) = some id := by
    rw [mixedEndian_mixedEndian, ofBytes?, dif_pos id.length_bytes]
  rw [parse, unbrace_of_head?_ne id.head?_text, toList_text,
    if_pos (hasGuidShape_dashed hlength),
    filter_dashed fun c => Hexadecimal.ne_dash_of_mem_flatMap_byteDigits,
    Hexadecimal.bytes?_flatMap_byteDigits]
  dsimp only
  rw [hid]

/-- **Identifiers with the same text are the same.** -/
theorem text_injective : Function.Injective text := by
  intro a b h
  apply Except.ok.inj (ε := ActivityIdError)
  rw [← parse_text a, ← parse_text b, h]

/-- There is a dash in the text of an identifier. -/
theorem dash_mem_text (id : ActivityId) : '-' ∈ id.text.toList := by
  rw [toList_text]
  simp [dashed]

end ActivityId
end RuntimeTrace
