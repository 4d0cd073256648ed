import RuntimeTrace.Text.Utf16

/-!
# Text survives its sixteen-bit units

Decoding takes units off the front one at a time and looks one unit ahead for the second
half of a pair.  A character of the basic plane is never a surrogate, and every other one
is written as a high surrogate and a low one; so in the units of a text the decoder never
meets an unpaired surrogate, and it reads one character where one was written
(`decode_units_append`), whatever follows.

The zero unit is kept for the end of text.  It is written by the character zero and by no
other (`zero_mem_encode`).
-/

namespace RuntimeTrace
namespace Utf16

/-! ## One step of the decoder -/

/-- A unit that is no surrogate is a character by itself. -/
theorem decode_cons_of_scalar {u : UInt16} (hhigh : isHigh u = false) (hlow : isLow u = false)
    (rest : List UInt16) : decode (u :: rest) = Char.ofNat u.toNat :: decode rest := by
  cases rest with
  | nil => simp [decode, hhigh, hlow]
  | cons v rest => simp [decode, hhigh, hlow]

/-- A high surrogate and a low one are a character together. -/
theorem decode_cons_of_pair {u v : UInt16} (hhigh : isHigh u = true) (hlow : isLow v = true)
    (rest : List UInt16) : decode (u :: v :: rest) = pair u v :: decode rest := by
  simp [decode, hhigh, hlow]

/-! ## The units of a character -/

/-- A character is outside the range of the surrogates and below `0x110000`. -/
theorem toNat_char (c : Char) :
    c.toNat < 0xD800 ∨ 0xDFFF < c.toNat ∧ c.toNat < 0x110000 := c.valid

/-- The numbers of the two surrogates of a character beyond the basic plane. -/
theorem toNat_surrogates {c : Char} (h : ¬ c.toNat < 0x10000) :
    (UInt16.ofNat (0xD800 + (c.toNat - 0x10000) / 0x400)).toNat =
        0xD800 + (c.toNat - 0x10000) / 0x400 ∧
      (UInt16.ofNat (0xDC00 + (c.toNat - 0x10000) % 0x400)).toNat =
        0xDC00 + (c.toNat - 0x10000) % 0x400 := by
  have hc := toNat_char c
  rw [UInt16.toNat_ofNat', UInt16.toNat_ofNat']
  omega

/-- **A character is read back** from its units, whatever follows them. -/
theorem decode_units_append (c : Char) (rest : List UInt16) :
    decode (units c ++ rest) = c :: decode rest := by
  have hc := toNat_char c
  unfold units
  by_cases hbasic : c.toNat < 0x10000
  · have hunit : (UInt16.ofNat c.toNat).toNat = c.toNat := by
      rw [UInt16.toNat_ofNat']
      omega
    have hhigh : isHigh (UInt16.ofNat c.toNat) = false := by
      rw [isHigh, hunit]
      simp only [Bool.and_eq_false_iff, decide_eq_false_iff_not]
      omega
    have hlow : isLow (UInt16.ofNat c.toNat) = false := by
      rw [isLow, hunit]
      simp only [Bool.and_eq_false_iff, decide_eq_false_iff_not]
      omega
    rw [if_pos hbasic, List.singleton_append, decode_cons_of_scalar hhigh hlow, hunit,
      Char.ofNat_toNat]
  · obtain ⟨hfirst, hsecond⟩ := toNat_surrogates hbasic
    have hhigh : isHigh (UInt16.ofNat (0xD800 + (c.toNat - 0x10000) / 0x400)) = true := by
      rw [isHigh, hfirst]
      simp only [Bool.and_eq_true, decide_eq_true_eq]
      omega
    have hlow : isLow (UInt16.ofNat (0xDC00 + (c.toNat - 0x10000) % 0x400)) = true := by
      rw [isLow, hsecond]
      simp only [Bool.and_eq_true, decide_eq_true_eq]
      omega
    have hpair : 0x10000 + (0xD800 + (c.toNat - 0x10000) / 0x400 - 0xD800) * 0x400 +
        (0xDC00 + (c.toNat - 0x10000) % 0x400 - 0xDC00) = c.toNat := by omega
    rw [if_neg hbasic]
    show decode (_ :: _ :: rest) = _
    rw [decode_cons_of_pair hhigh hlow, pair, hfirst, hsecond, hpair, Char.ofNat_toNat]

/-- **Text is read back** from its units. -/
theorem decode_encode (cs : List Char) : decode (encode cs) = cs := by
  induction cs with
  | nil => rfl
  | cons c cs ih =>
    show decode (units c ++ encode cs) = c :: cs
    rw [decode_units_append, ih]

/-! ## The zero unit -/

/-- Only the character zero is written with the zero unit. -/
theorem zero_mem_units {c : Char} : 0 ∈ units c ↔ c = Char.ofNat 0 := by
  have hc := toNat_char c
  unfold units
  by_cases hbasic : c.toNat < 0x10000
  · rw [if_pos hbasic, List.mem_singleton, ← UInt16.toNat_inj, UInt16.toNat_ofNat',
      UInt16.toNat_zero]
    constructor
    · intro h
      have hzero : c.toNat = 0 := by omega
      rw [← hzero, Char.ofNat_toNat]
    · rintro rfl
      rfl
  · obtain ⟨hfirst, hsecond⟩ := toNat_surrogates hbasic
    constructor
    · -- neither surrogate is zero
      rw [if_neg hbasic, List.mem_cons, List.mem_singleton, ← UInt16.toNat_inj,
        ← UInt16.toNat_inj, hfirst, hsecond, UInt16.toNat_zero]
      omega
    · rintro rfl
      exact absurd (by decide) hbasic

theorem zero_mem_encode {cs : List Char} : 0 ∈ encode cs ↔ Char.ofNat 0 ∈ cs := by
  rw [encode, List.mem_flatMap]
  simp only [zero_mem_units, exists_eq_right]

end Utf16
end RuntimeTrace
