import Mathlib.Data.List.Basic
import Mathlib.Tactic.SplitIfs

/-!
# Text by bytes and by characters

A text can be gone over byte by byte or character by character.  Below 128 a character is one
byte, of the same number.  From 128 on it takes several, and the first of them is from 128 on
as well.  So a reader that refuses whatever is from 128 on need not care which it is given:
the text is the same by bytes and by characters, or is refused as both
(`map_charOf_bytesOf_or`).

Only characters below 128 have a letter case, so what is to be said of letter case is a check of
these.
-/

namespace RuntimeTrace
namespace Utf8

/-- The bytes of a text. -/
def bytesOf (t : String) : List UInt8 := t.toUTF8.data.toList

/-- The character whose number is a byte. -/
def charOf (b : UInt8) : Char := Char.ofNat b.toNat

theorem toNat_charOf (b : UInt8) : (charOf b).toNat = b.toNat := by
  have hb : b.toNat < 256 := b.toNat_lt
  rw [charOf, Char.ofNat, dif_pos (Or.inl (by omega))]
  rfl

/-- What holds of the characters below 128 one by one. -/
theorem forall_ascii {P : Char → Prop} (h : ∀ k < 128, P (Char.ofNat k)) {c : Char}
    (hc : c.toNat < 128) : P c := by
  rw [← Char.ofNat_toNat c]
  exact h c.toNat hc

theorem bytesOf_eq (t : String) : bytesOf t = t.toList.flatMap String.utf8EncodeChar := by
  rw [bytesOf, String.toUTF8, ← String.utf8Encode_toList, List.utf8Encode, List.data_toByteArray]

/-- A character below 128 is one byte. -/
theorem map_charOf_utf8EncodeChar {c : Char} (h : c.toNat < 128) :
    (String.utf8EncodeChar c).map charOf = [c] := by
  have hle : c.val.toNat ≤ 127 := Nat.le_of_lt_succ h
  have hnat : (UInt8.ofNat c.toNat).toNat = c.toNat := by
    rw [UInt8.toNat_ofNat']
    omega
  simp only [String.utf8EncodeChar, hle, ↓reduceIte, List.map_cons, List.map_nil, charOf]
  show [Char.ofNat (UInt8.ofNat c.toNat).toNat] = [c]
  rw [hnat, Char.ofNat_toNat]

/-- Any other character has a byte from 128 on. -/
theorem exists_mem_utf8EncodeChar {c : Char} (h : 128 ≤ c.toNat) :
    ∃ b ∈ String.utf8EncodeChar c, 128 ≤ b.toNat := by
  have hle : ¬ c.val.toNat ≤ 127 := Nat.not_le_of_lt h
  have hlead : ∀ n m k : Nat, 0 < m → m + k ≤ 256 → 128 ≤ k →
      128 ≤ (UInt8.ofNat (n % m + k)).toNat := by
    intro n m k hm hk hbound
    have hmod : n % m < m := Nat.mod_lt n hm
    rw [UInt8.toNat_ofNat']
    omega
  simp only [String.utf8EncodeChar, hle, ↓reduceIte]
  split_ifs
  · exact ⟨_, List.mem_cons_self, hlead _ 32 192 (by decide) (by decide) (by decide)⟩
  · exact ⟨_, List.mem_cons_self, hlead _ 16 224 (by decide) (by decide) (by decide)⟩
  · exact ⟨_, List.mem_cons_self, hlead _ 8 240 (by decide) (by decide) (by decide)⟩

theorem map_charOf_bytesOf {t : String} (h : ∀ c ∈ t.toList, c.toNat < 128) :
    (bytesOf t).map charOf = t.toList := by
  rw [bytesOf_eq, List.map_flatMap]
  calc t.toList.flatMap (fun c => (String.utf8EncodeChar c).map charOf)
      = t.toList.flatMap (fun c => [c]) :=
        List.flatMap_congr fun c hc => map_charOf_utf8EncodeChar (h c hc)
    _ = t.toList := List.flatMap_singleton' t.toList

/-- **A text is the same by bytes and by characters**, or both have something from 128 on. -/
theorem map_charOf_bytesOf_or (t : String) :
    (bytesOf t).map charOf = t.toList ∨
      (∃ c ∈ t.toList, 128 ≤ c.toNat) ∧ ∃ c ∈ (bytesOf t).map charOf, 128 ≤ c.toNat := by
  by_cases hlarge : ∃ c ∈ t.toList, 128 ≤ c.toNat
  · obtain ⟨c, hc, hlarge⟩ := hlarge
    obtain ⟨b, hb, hle⟩ := exists_mem_utf8EncodeChar hlarge
    have hmem : b ∈ bytesOf t := by
      rw [bytesOf_eq]
      exact List.mem_flatMap.mpr ⟨c, hc, hb⟩
    refine Or.inr ⟨⟨c, hc, hlarge⟩, charOf b, List.mem_map_of_mem hmem, ?_⟩
    rw [toNat_charOf]
    exact hle
  · refine Or.inl (map_charOf_bytesOf fun c hc => Nat.lt_of_not_le fun hle => ?_)
    exact hlarge ⟨c, hc, hle⟩

/-! ## Letter case -/

theorem toLower_of_le {c : Char} (h : 128 ≤ c.toNat) : c.toLower = c := by
  apply dif_neg
  rintro ⟨-, hle⟩
  have hupper : c.toNat ≤ 90 := UInt32.le_iff_toNat_le.mp hle
  omega

theorem toUpper_of_le {c : Char} (h : 128 ≤ c.toNat) : c.toUpper = c := by
  apply dif_neg
  rintro ⟨-, hle⟩
  have hlower : c.toNat ≤ 122 := UInt32.le_iff_toNat_le.mp hle
  omega

theorem toLower_eq_dash_iff (c : Char) : c.toLower = '-' ↔ c = '-' := by
  rcases Nat.lt_or_ge c.toNat 128 with hlt | hle
  · exact forall_ascii (P := fun c => c.toLower = '-' ↔ c = '-') (by decide) hlt
  · rw [toLower_of_le hle]

theorem toUpper_toLower (c : Char) : c.toLower.toUpper = c.toUpper := by
  rcases Nat.lt_or_ge c.toNat 128 with hlt | hle
  · exact forall_ascii (P := fun c => c.toLower.toUpper = c.toUpper) (by decide) hlt
  · rw [toLower_of_le hle]

theorem toLower_toUpper (c : Char) : c.toUpper.toLower = c.toLower := by
  rcases Nat.lt_or_ge c.toNat 128 with hlt | hle
  · exact forall_ascii (P := fun c => c.toUpper.toLower = c.toLower) (by decide) hlt
  · rw [toUpper_of_le hle]

end Utf8
end RuntimeTrace
