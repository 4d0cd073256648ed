import RuntimeTrace.Proofs.Text.Surrogates
import RuntimeTrace.Proofs.Wire.Fields

/-!
# Reading text without a length

Text in a payload has neither a length nor, if the payload was cut off, an end.  Any bytes may
stand where text is read, so the question is what reading makes of arbitrary bytes, of an odd
number of them and of units that are no text.

There are two parts to the answer.  The units that belong to the text are those before the
first zero unit, or all whole units if none is zero (`UnitsUpTo`); the zero unit is taken with
them, and a last byte without a partner is left (`takeUnits_eq_iff`).  The text is then what
these units say, each unpaired surrogate as one replacement character, and that is said in
units again: the text is the one written as the mended units (`readText_eq_iff`).

Main statement: `text_read_in_whole_units`.
-/

namespace RuntimeTrace
namespace Wire

/-! ## Taking units -/

/-- At the front of the bytes stand these units, none of which is zero, and behind them either
the zero unit and the rest, or the rest alone, which is less than a unit. -/
def UnitsUpTo (bytes : List UInt8) (units : List UInt16) (rest : List UInt8) : Prop :=
  0 ∉ units ∧
    (bytes = unitBytes units ++ 0 :: 0 :: rest ∨ bytes = unitBytes units ++ rest ∧ rest.length < 2)

/-- A unit is written as the two bytes it was read from. -/
theorem unitBytes_ofNat_value (b c : UInt8) (units : List UInt16) :
    unitBytes (UInt16.ofNat (LittleEndian.value [b, c]) :: units) = b :: c :: unitBytes units := by
  have hb : b.toNat < 256 := b.toNat_lt
  have hc : c.toNat < 256 := c.toNat_lt
  have hvalue : LittleEndian.value [b, c] = b.toNat + 256 * c.toNat := by simp
  have hunit : (UInt16.ofNat (LittleEndian.value [b, c])).toNat = b.toNat + 256 * c.toNat := by
    rw [hvalue, UInt16.toNat_ofNat']
    omega
  have hlow : UInt8.ofNat (b.toNat + 256 * c.toNat) = b := by
    rw [← UInt8.toNat_inj, UInt8.toNat_ofNat']
    omega
  have hhigh : UInt8.ofNat ((b.toNat + 256 * c.toNat) / 256) = c := by
    rw [← UInt8.toNat_inj, UInt8.toNat_ofNat']
    omega
  rw [unitBytes_cons, hunit, hlow, hhigh]

/-- Units behind which less than a unit is left are taken to the last. -/
theorem takeUnits_of_cut {units : List UInt16} (h : 0 ∉ units) {rest : List UInt8}
    (hrest : rest.length < 2) : takeUnits (unitBytes units ++ rest) = (units, rest) := by
  have hnone : takeUnits rest = ([], rest) := by
    match rest, hrest with
    | [], _ => rfl
    | [_], _ => rfl
  rw [takeUnits_append h, hnone, List.append_nil]

/-- The units that are taken are the ones before the end of the text. -/
theorem unitsUpTo_takeUnits (bytes : List UInt8) :
    UnitsUpTo bytes (takeUnits bytes).1 (takeUnits bytes).2 := by
  induction bytes using takeUnits.induct with
  | case1 b c rest u hzero =>
    have hbytes := unitBytes_ofNat_value b c []
    rw [show UInt16.ofNat (LittleEndian.value [b, c]) = 0 from hzero] at hbytes
    have htaken : takeUnits (b :: c :: rest) = ([], rest) := by rw [takeUnits, if_pos hzero]
    rw [htaken]
    refine ⟨List.not_mem_nil, Or.inl ?_⟩
    have hpair : [b, c] = [0, 0] := hbytes.symm
    exact congrArg (· ++ rest) hpair
  | case2 b c rest u hzero units behind h ih =>
    rw [h] at ih
    have htaken : takeUnits (b :: c :: rest) = (u :: units, behind) := by
      rw [takeUnits, if_neg hzero, h]
    rw [htaken]
    obtain ⟨hnone, hbytes⟩ := ih
    refine ⟨?_, ?_⟩
    · rw [List.mem_cons, not_or]
      exact ⟨fun heq => hzero heq.symm, hnone⟩
    · rw [unitBytes_ofNat_value]
      exact hbytes.imp (congrArg fun bs => b :: c :: bs)
        (And.imp_left (congrArg fun bs => b :: c :: bs))
  | case3 bytes h =>
    have htaken : takeUnits bytes = ([], bytes) := by
      rw [takeUnits]
      exact h
    rw [htaken]
    refine ⟨List.not_mem_nil, Or.inr ⟨rfl, ?_⟩⟩
    rcases bytes with _ | ⟨b, _ | ⟨c, rest⟩⟩
    · exact Nat.zero_lt_two
    · exact Nat.one_lt_two
    · exact absurd rfl (h b c rest)

/-- **Units are taken up to the first zero unit**, or all of them if none is zero. -/
theorem takeUnits_eq_iff {bytes : List UInt8} {units : List UInt16} {rest : List UInt8} :
    takeUnits bytes = (units, rest) ↔ UnitsUpTo bytes units rest := by
  constructor
  · intro h
    have htaken := unitsUpTo_takeUnits bytes
    rwa [h] at htaken
  · rintro ⟨hnone, rfl | ⟨rfl, hrest⟩⟩
    · exact takeUnits_unitBytes hnone rest
    · exact takeUnits_of_cut hnone hrest

/-! ## Reading -/

theorem readText_of_lt {bytes : List UInt8} (h : bytes.length < 2) :
    readText bytes = (none, bytes) := by
  rw [readText, if_pos h]

theorem readText_of_le {bytes : List UInt8} (h : 2 ≤ bytes.length) :
    readText bytes =
      (some (String.ofList (Utf16.decode (takeUnits bytes).1)), (takeUnits bytes).2) := by
  rw [readText, if_neg (Nat.not_lt.mpr h)]

/-- Text is what units say if it is written as the units, mended. -/
theorem eq_ofList_decode_iff {text : String} {units : List UInt16} :
    text = String.ofList (Utf16.decode units) ↔
      Utf16.encode text.toList = Utf16.mended units := by
  constructor
  · rintro rfl
    rw [String.toList_ofList, Utf16.encode_decode]
  · intro h
    have hread := congrArg Utf16.decode (h.trans (Utf16.encode_decode units).symm)
    rw [Utf16.decode_encode, Utf16.decode_encode] at hread
    rw [← hread, String.ofList_toList]

/-- **Text is read from the units up to its end**, and is what they say once they are mended. -/
theorem readText_eq_iff {bytes : List UInt8} {text : String} {rest : List UInt8} :
    readText bytes = (some text, rest) ↔
      2 ≤ bytes.length ∧ ∃ units, UnitsUpTo bytes units rest ∧
        Utf16.encode text.toList = Utf16.mended units := by
  by_cases hlength : 2 ≤ bytes.length
  · rw [readText_of_le hlength, Prod.mk.injEq, Option.some.injEq]
    constructor
    · rintro ⟨htext, rfl⟩
      exact ⟨hlength, _, unitsUpTo_takeUnits bytes, eq_ofList_decode_iff.mp htext.symm⟩
    · rintro ⟨-, units, hunits, htext⟩
      rw [takeUnits_eq_iff.mpr hunits]
      exact ⟨(eq_ofList_decode_iff.mpr htext).symm, rfl⟩
  · rw [readText_of_lt (Nat.lt_of_not_le hlength)]
    constructor
    · intro h
      exact absurd (congrArg Prod.fst h) nofun
    · rintro ⟨h, -⟩
      exact absurd h hlength

/-- The character that is written as the end of text is never read. -/
theorem zero_notMem_of_readText {bytes : List UInt8} {text : String} {rest : List UInt8}
    (h : readText bytes = (some text, rest)) : Char.ofNat 0 ∉ text.toList := by
  obtain ⟨-, units, hunits, htext⟩ := readText_eq_iff.mp h
  rw [← eq_ofList_decode_iff] at htext
  rw [htext, String.toList_ofList]
  exact fun hmem => hunits.1 (Utf16.zero_mem_decode hmem)

/-- **Text in whole units.**  Of fewer than two bytes no text is read and none is taken.  Of
two and more some text is always read: what is taken are the whole units before the first zero
unit and that unit, or all whole units if none is zero, and never a byte alone; the text is
what the units before the end say, each unpaired surrogate as one replacement character, and
does not hold the character that ends text.  So text without that character is read back from
its units and a zero unit, whatever stands behind them, and exactly that is left. -/
theorem text_read_in_whole_units (bytes : List UInt8) :
    (bytes.length < 2 → readText bytes = (none, bytes)) ∧
    (2 ≤ bytes.length → ∃ text rest, readText bytes = (some text, rest)) ∧
    (∀ text rest, readText bytes = (some text, rest) ↔
      2 ≤ bytes.length ∧ ∃ units, UnitsUpTo bytes units rest ∧
        Utf16.encode text.toList = Utf16.mended units) ∧
    (∀ text rest, readText bytes = (some text, rest) → Char.ofNat 0 ∉ text.toList) ∧
    ∀ (text : String) (rest : List UInt8), Char.ofNat 0 ∉ text.toList →
      readText (unitBytes (Utf16.encode text.toList) ++ 0 :: 0 :: rest) = (some text, rest) := by
  refine ⟨readText_of_lt, fun h => ⟨_, _, readText_of_le h⟩, fun text rest => readText_eq_iff,
    fun text rest => zero_notMem_of_readText, fun text rest h => ?_⟩
  have hread := readText_bytes h rest
  rwa [show (Field.text text).bytes ++ rest =
    unitBytes (Utf16.encode text.toList) ++ 0 :: 0 :: rest from List.append_assoc _ _ _] at hread

/-- A high surrogate alone, a pair, a low surrogate alone, and a byte without a partner. -/
def damagedUnits : List UInt8 := [0x3D, 0xD8, 0x3D, 0xD8, 0x00, 0xDE, 0x00, 0xDE, 0x41]

theorem text_read_in_whole_units_damaged :
    [7].length < 2 ∧ readText [7] = (none, [7]) ∧
    2 ≤ damagedUnits.length ∧
    readText damagedUnits =
      (some (String.ofList [Char.ofNat 0xFFFD, Char.ofNat 0x1F600, Char.ofNat 0xFFFD]), [0x41]) ∧
    Char.ofNat 0 ∉ [Char.ofNat 0xFFFD, Char.ofNat 0x1F600, Char.ofNat 0xFFFD] ∧
    readText (unitBytes (Utf16.encode "pa".toList) ++ 0 :: 0 :: [7]) = (some "pa", [7]) := by
  have hunits : UnitsUpTo damagedUnits [0xD83D, 0xD83D, 0xDE00, 0xDE00] [0x41] :=
    ⟨by decide, Or.inr (by decide)⟩
  have hread : readText damagedUnits =
      (some (String.ofList [Char.ofNat 0xFFFD, Char.ofNat 0x1F600, Char.ofNat 0xFFFD]),
        [0x41]) := by
    refine ((text_read_in_whole_units damagedUnits).2.2.1 _ _).mpr ⟨by decide, _, hunits, ?_⟩
    rw [String.toList_ofList]
    decide
  have hzero := (text_read_in_whole_units damagedUnits).2.2.2.1 _ _ hread
  rw [String.toList_ofList] at hzero
  exact ⟨by decide, (text_read_in_whole_units [7]).1 (by decide), by decide, hread, hzero,
    (text_read_in_whole_units [7]).2.2.2.2 "pa" [7] (by decide)⟩

end Wire
end RuntimeTrace
