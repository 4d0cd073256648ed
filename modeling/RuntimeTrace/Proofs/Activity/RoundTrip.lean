import Mathlib.Tactic.SplitIfs
import RuntimeTrace.Activity.Decoding
import RuntimeTrace.Activity.Encoding

/-!
# What the writer spells, the reader reads

A path is written half-byte by half-byte and read the same way, but the two sides
keep different books.  The writer holds the finished bytes and the byte in
progress, and tells the halves apart by whether that byte is zero; the reader
holds the bytes that are left and a flag.  `cursorAt` joins them: the place where a
reader of the finished identifier stands when it has read what a writer had
written at some moment.

## Reading backwards from the end

A writer in the middle of a path does not know its finished identifier, so the
induction runs over the segments that are still to come.  `Spells bytes w rest`
says that `bytes` begin with what `w` has written and that the reader, put where
`w` stands, finds exactly the segments `rest`.  Writing one more segment in front
keeps this (`spells_of_putSegment`), and a writer that has finished spells no
further segment.

## The spare byte

A value from 256 to 4095 whose length stands in a high half is followed by a byte
that is always zero.  The reader drops a zero byte after such a value when the
byte behind it is not zero.  It could go wrong in two ways, and neither occurs.

* The same value with its length in a low half has no spare byte.  But the
  segment after it starts with a half-byte that is not zero, so nothing is
  dropped: bytes that begin with zero at a segment boundary are zero throughout
  (`noGap`).
* With no segment behind it the spare byte is not dropped.  Then the reader meets
  a zero half-byte instead of the end, and stops all the same.

Main statement: `path?_of_encode?`.
-/

namespace RuntimeTrace

/-! ## Half-bytes as numbers -/

theorem toNat_shiftLeft_four (half : UInt8) (h : half.toNat < 16) :
    (half <<< 4).toNat = 16 * half.toNat := by
  have hfour : (4 : UInt8).toNat % 8 = 4 := rfl
  rw [UInt8.toNat_shiftLeft, hfour, Nat.shiftLeft_eq]
  omega

/-- A half-byte fits beside a byte whose low half is empty. -/
theorem toNat_or_half {byte : UInt8} (hbyte : byte.toNat % 16 = 0) (half : UInt8)
    (h : half.toNat < 16) :
    (byte ||| half).toNat = byte.toNat + half.toNat := by
  have hsplit : byte.toNat = 2 ^ 4 * (byte.toNat / 16) := by omega
  rw [UInt8.toNat_or, hsplit, ← Nat.two_pow_add_eq_or_of_lt (i := 4) h]

theorem ne_zero_of_toNat_pos {b : UInt8} (h : 0 < b.toNat) : b ≠ 0 := by
  rintro rfl
  exact absurd h (by decide)

/-! ## Reading one item at a time -/

namespace HalfByteCursor

theorem segments?_of_segment {c c' : HalfByteCursor} {s : Segment}
    (h : c.next = .segment s c') : c.segments? = c'.segments?.map (s :: ·) := by
  rw [segments?]
  split
  · rename_i hc
    rw [h] at hc
    exact absurd hc (by simp)
  · rename_i hc
    rw [h] at hc
    exact absurd hc (by simp)
  · rename_i hc
    rw [h] at hc
    simp only [Item.segment.injEq] at hc
    rw [hc.1, hc.2]

theorem segments?_of_finish {c : HalfByteCursor} (h : c.next = .finish) :
    c.segments? = some [] := by
  rw [segments?]
  split
  · rfl
  · rename_i hc
    rw [h] at hc
    exact absurd hc (by simp)
  · rename_i hc
    rw [h] at hc
    exact absurd hc (by simp)

/-- At a zero half-byte, or behind the last byte, the path ends. -/
theorem segments?_of_peek? {c : HalfByteCursor} (h : ∀ half ∈ c.peek?, half = 0) :
    c.segments? = some [] := by
  apply segments?_of_finish
  unfold next
  cases hpeek : c.peek? with
  | none => rfl
  | some half =>
    rw [h half hpeek]
    rfl

/-! ### The three kinds of segment -/

theorem next_of_small {c : HalfByteCursor} {half : Nat} (hpeek : c.peek? = some half)
    (hpos : 1 ≤ half) (hle : half ≤ 10) :
    c.next = .segment (Segment.plain (UInt32.ofNat half)) c.advance := by
  unfold next
  rw [hpeek]
  split
  · rename_i h
    exact absurd h (by simp)
  · rename_i h
    rw [Option.some.injEq] at h
    omega
  · rename_i h
    rw [Option.some.injEq] at h
    subst h
    rw [if_pos hle]

theorem next_of_length {c : HalfByteCursor} {length : Nat} (hpeek : c.peek? = some length)
    (hle : 12 ≤ length) : c.next = c.valueItem length false := by
  unfold next
  rw [hpeek]
  split
  · rename_i h
    exact absurd h (by simp)
  · rename_i h
    rw [Option.some.injEq] at h
    omega
  · rename_i h
    rw [Option.some.injEq] at h
    subst h
    rw [if_neg (by omega), if_neg (by omega)]

theorem next_of_overflow {c : HalfByteCursor} {length : Nat} (hpeek : c.peek? = some 11)
    (hlength : c.advance.peek? = some length) (hle : 12 ≤ length) :
    c.next = c.advance.valueItem length true := by
  unfold next
  rw [hpeek]
  simp only [hlength, Nat.reduceLeDiff, ↓reduceIte, if_pos hle]

/-- **A length reads back with its bytes.**  The low half of the byte that holds a
length in its high half is the top of the value. -/
theorem readValue?_append {b : UInt8} {low : Bool} {width n top : Nat} {value : UInt32}
    (tail : List UInt8) (htop : top = if low then 0 else b.toNat % 16)
    (hvalue : value.toNat = top <<< (8 * width) + n) (hn : n < Nat.pow 256 width) :
    (HalfByteCursor.mk (b :: (LittleEndian.bytes width n ++ tail)) low).readValue? (11 + width) =
      some (value, ⟨skipSpare value.toNat tail, false⟩) := by
  have hwidth : 11 + width - 11 = width := by omega
  have htake : (LittleEndian.bytes width n ++ tail).take width = LittleEndian.bytes width n :=
    List.take_left' (LittleEndian.length_bytes width n)
  have hdrop : (LittleEndian.bytes width n ++ tail).drop width = tail :=
    List.drop_left' (LittleEndian.length_bytes width n)
  have hlength : ¬ (LittleEndian.bytes width n ++ tail).length < width := by
    rw [List.length_append, LittleEndian.length_bytes]
    omega
  have hmod : value.toNat % UInt32.size = value.toNat := Nat.mod_eq_of_lt value.toNat_lt
  simp only [readValue?, hwidth]
  rw [if_neg hlength, htake, hdrop, LittleEndian.value_bytes, Nat.mod_eq_of_lt hn, ← htop,
    ← hvalue, hmod, UInt32.ofNat_toNat]

/-! ### The spare byte -/

/-- Bytes that begin with zero are zero throughout. -/
def NoGap (bytes : List UInt8) : Prop := bytes.head? = some 0 → ∀ b ∈ bytes, b = 0

theorem noGap_of_head_ne_zero {b : UInt8} {bytes : List UInt8} (h : b ≠ 0) :
    NoGap (b :: bytes) := by
  intro hhead
  rw [List.head?_cons, Option.some.injEq] at hhead
  exact absurd hhead h

/-- Where there is no gap nothing is taken for a spare byte. -/
theorem skipSpare_of_noGap {bytes : List UInt8} (h : NoGap bytes) (value : Nat) :
    skipSpare value bytes = bytes := by
  unfold skipSpare
  split
  · rename_i b c more
    rw [if_neg]
    rintro ⟨-, -, rfl, hc⟩
    exact hc (h rfl c (by simp))
  · rfl

/-- A spare byte makes no difference to what follows, whether it is dropped or is
taken for the end of the path. -/
theorem segments?_skipSpare_zero {value : Nat} {tail : List UInt8} (hlow : 0x100 ≤ value)
    (hhigh : value ≤ 0xFFF) :
    (HalfByteCursor.mk (skipSpare value (0 :: tail)) false).segments? =
      (HalfByteCursor.mk tail false).segments? := by
  have hzero : ∀ more : List UInt8,
      (HalfByteCursor.mk (0 :: more) false).segments? = some [] := by
    intro more
    apply segments?_of_peek?
    intro half hhalf
    simpa [peek?] using hhalf.symm
  cases tail with
  | nil =>
    have hnil : (HalfByteCursor.mk [] false).segments? = some [] := by
      apply segments?_of_peek?
      intro half hhalf
      simp [peek?] at hhalf
    rw [hnil]
    exact hzero []
  | cons c more =>
    by_cases hc : c = 0
    · subst hc
      rw [hzero more]
      simp only [skipSpare, ne_eq, not_true_eq_false, and_false, ↓reduceIte]
      exact hzero (0 :: more)
    · simp only [skipSpare, ne_eq, hc, hlow, hhigh, not_false_eq_true, and_self, ↓reduceIte]

end HalfByteCursor

/-! ## Where the reader stands -/

namespace PathWriter

open HalfByteCursor

/-- Where a reader of `bytes` stands when it has read what `w` has written. -/
def cursorAt (w : PathWriter) (bytes : List UInt8) : HalfByteCursor :=
  ⟨bytes.drop w.position, w.current != 0⟩

/-- `bytes` begin with what `w` has written, down to the high half of its byte in
progress. -/
structure Carries (bytes : List UInt8) (w : PathWriter) : Prop where
  finished : w.finished <+: bytes
  high : w.current ≠ 0 → ∃ b rest, bytes.drop w.position = b :: rest ∧
    b.toNat / 16 = w.current.toNat / 16

/-- The low half of the byte in progress is free, and the path has room for it. -/
structure Sound (w : PathWriter) : Prop where
  low : w.current.toNat % 16 = 0
  position_le : w.position ≤ capacity
  position_lt : w.current ≠ 0 → w.position < capacity

theorem sound_start : start.Sound := ⟨rfl, by decide, fun h => absurd rfl h⟩

/-- At a byte boundary only the position matters. -/
theorem sound_of_boundary {finished : List UInt8} (h : finished.length ≤ capacity) :
    (PathWriter.mk finished 0).Sound :=
  ⟨rfl, h, fun hne => absurd rfl hne⟩

theorem carries_at_boundary {w : PathWriter} {bytes : List UInt8} (hcurrent : w.current = 0)
    (h : w.finished <+: bytes) : Carries bytes w :=
  ⟨h, fun hne => absurd hcurrent hne⟩

/-! ### One half-byte -/

theorem putHalf_of_eq_zero {w : PathWriter} (h : w.current = 0) (half : UInt8) :
    w.putHalf half = ⟨w.finished, half <<< 4⟩ := by
  rw [putHalf, if_pos h]

theorem putHalf_of_ne_zero {w : PathWriter} (h : w.current ≠ 0) (half : UInt8) :
    w.putHalf half = ⟨w.finished ++ [w.current ||| half], 0⟩ := by
  rw [putHalf, if_neg h]

theorem Sound.putHalf {w : PathWriter} (hw : w.Sound) (hposition : w.position < capacity)
    (half : UInt8) (hlt : half.toNat < 16) : (w.putHalf half).Sound := by
  by_cases hcurrent : w.current = 0
  · rw [putHalf_of_eq_zero hcurrent]
    refine ⟨?_, hw.position_le, fun _ => hposition⟩
    show (half <<< 4).toNat % 16 = 0
    rw [toNat_shiftLeft_four half hlt]
    omega
  · rw [putHalf_of_ne_zero hcurrent]
    apply sound_of_boundary
    rw [List.length_append, List.length_singleton]
    exact hposition

/-- **A half-byte reads back**: the reader finds it where the writer stood, and
the next thing to read is where the writer stood after it. -/
theorem carries_of_putHalf {w : PathWriter} {half : UInt8} {bytes : List UInt8} (hw : w.Sound)
    (hpos : 0 < half.toNat) (hlt : half.toNat < 16) (h : Carries bytes (w.putHalf half)) :
    Carries bytes w ∧ (w.cursorAt bytes).peek? = some half.toNat ∧
      (w.cursorAt bytes).advance = (w.putHalf half).cursorAt bytes := by
  by_cases hcurrent : w.current = 0
  · rw [putHalf_of_eq_zero hcurrent] at h ⊢
    have hshift : (half <<< 4).toNat = 16 * half.toNat := toNat_shiftLeft_four half hlt
    have hne : half <<< 4 ≠ 0 := ne_zero_of_toNat_pos (by omega)
    obtain ⟨b, rest, hdrop, hb⟩ := h.high hne
    have hcursor : w.cursorAt bytes = ⟨b :: rest, false⟩ := by
      rw [cursorAt, hcurrent]
      exact congrArg (HalfByteCursor.mk · false) hdrop
    refine ⟨carries_at_boundary hcurrent h.finished, ?_, ?_⟩
    · rw [hcursor]
      show some (b.toNat / 16) = some half.toNat
      rw [hb, hshift, Nat.mul_div_cancel_left _ (by omega)]
    · rw [hcursor, cursorAt]
      have hflag : (half <<< 4 != 0) = true := bne_iff_ne.mpr hne
      rw [hflag]
      exact congrArg (HalfByteCursor.mk · true) hdrop.symm
  · rw [putHalf_of_ne_zero hcurrent] at h ⊢
    obtain ⟨rest, hrest⟩ := h.finished
    have hor := toNat_or_half hw.low half hlt
    have hlow := hw.low
    have hdrop : bytes.drop w.position = (w.current ||| half) :: rest := by
      rw [← hrest, List.append_assoc]
      exact List.drop_left
    have hcursor : w.cursorAt bytes = ⟨(w.current ||| half) :: rest, true⟩ := by
      rw [cursorAt, hdrop, bne_iff_ne.mpr hcurrent]
    refine ⟨⟨⟨(w.current ||| half) :: rest, ?_⟩, fun _ => ⟨_, rest, hdrop, ?_⟩⟩, ?_, ?_⟩
    · rw [← hrest, List.append_assoc]
      rfl
    · rw [hor]
      omega
    · rw [hcursor]
      show some ((w.current ||| half).toNat % 16) = some half.toNat
      rw [hor, Option.some.injEq]
      omega
    · rw [hcursor, cursorAt, ← hrest]
      exact congrArg (HalfByteCursor.mk · false) List.drop_left.symm

/-! ### One value -/

/-- What a value leaves behind: the byte its length is in, `width` bytes that read
as `n`, and perhaps a spare byte.  The length takes the half of the first byte that
is next; if that is the high half, the low half holds the top of the value. -/
structure WritesValue (w : PathWriter) (value : UInt32) (first : UInt8) (width n : Nat)
    (spare : List UInt8) : Prop where
  one_le : 1 ≤ width
  length_eq : (if w.current != 0 then first.toNat % 16 else first.toNat / 16) = 11 + width
  high : w.current ≠ 0 → first.toNat / 16 = w.current.toNat / 16
  value_eq : value.toNat =
    (if w.current != 0 then 0 else first.toNat % 16) <<< (8 * width) + n
  lt : n < Nat.pow 256 width
  spare_eq : spare = [] ∨ spare = [0] ∧ 0x100 ≤ value.toNat ∧ value.toNat ≤ 0xFFF

theorem one_le_widthOf (value : UInt32) : 1 ≤ widthOf value := by
  unfold widthOf
  split_ifs <;> decide

theorem widthOf_le (value : UInt32) : widthOf value ≤ 4 := by
  unfold widthOf
  split_ifs <;> decide

/-- A value fits the bytes it is given. -/
theorem lt_pow_widthOf (value : UInt32) : value.toNat < Nat.pow 256 (widthOf value) := by
  have hvalue : value.toNat < 0x100000000 := value.toNat_lt
  unfold widthOf
  split_ifs with h1 h2 h3
  · exact h1
  · exact h2
  · exact h3
  · exact hvalue

/-- Whole bytes behind a first byte: what they leave, and that there was room. -/
theorem putBytes_eq_some {finished : List UInt8} {first : UInt8} {width n : Nat}
    {w' : PathWriter}
    (h : (PathWriter.mk (finished ++ [first]) 0).putBytes width n = some w') :
    w' = ⟨finished ++ first :: LittleEndian.bytes width n, 0⟩ ∧ w'.position ≤ capacity := by
  unfold putBytes at h
  split at h
  · rename_i hroom
    rw [Option.some.injEq] at h
    subst h
    refine ⟨by rw [List.append_assoc]; rfl, ?_⟩
    simp only [position, List.length_append, LittleEndian.length_bytes] at hroom ⊢
    exact hroom
  · exact absurd h (by simp)

/-- The bytes of a value below 4096 whose top is kept elsewhere: one that counts,
and a zero byte if the value needs two. -/
theorem bytes_mod_of_lt {value : UInt32} (h : value.toNat < 4096) :
    ∃ spare, LittleEndian.bytes (widthOf value) (value.toNat % 256) =
        LittleEndian.bytes 1 (value.toNat % 256) ++ spare ∧
      (spare = [] ∨ spare = [0] ∧ 0x100 ≤ value.toNat ∧ value.toNat ≤ 0xFFF) := by
  by_cases hsmall : value.toNat < 0x100
  · have hwidth : widthOf value = 1 := by rw [widthOf, if_pos hsmall]
    rw [hwidth]
    exact ⟨[], (List.append_nil _).symm, Or.inl rfl⟩
  · have hwidth : widthOf value = 2 := by rw [widthOf, if_neg hsmall, if_pos (by omega)]
    have hzero : value.toNat % 256 / 256 = 0 := by omega
    rw [hwidth]
    refine ⟨[0], ?_, Or.inr ⟨rfl, by omega, by omega⟩⟩
    simp only [LittleEndian.bytes, hzero, List.cons_append, List.nil_append]
    rfl

section PutValue

variable {w w' : PathWriter} {value : UInt32}

/-- A length as a half-byte. -/
theorem toNat_length (value : UInt32) :
    (UInt8.ofNat (11 + widthOf value)).toNat = 11 + widthOf value := by
  have hwidth := widthOf_le value
  rw [UInt8.toNat_ofNat']
  omega

/-- The length lands in a low half. -/
theorem writesValue_of_ne_zero (hw : w.Sound) (hcurrent : w.current ≠ 0)
    (h : w.putValue value = some w') :
    ∃ first width n, WritesValue w value first width n [] ∧
      w' = ⟨w.finished ++ first :: LittleEndian.bytes width n, 0⟩ ∧ w'.position ≤ capacity := by
  have hlength := toNat_length value
  have hwidth := widthOf_le value
  have hor := toNat_or_half hw.low (UInt8.ofNat (11 + widthOf value)) (by omega)
  have hlow := hw.low
  have hflag : (w.current != 0) = true := bne_iff_ne.mpr hcurrent
  simp only [putValue, putHalf_of_ne_zero hcurrent, ↓reduceIte] at h
  refine ⟨w.current ||| UInt8.ofNat (11 + widthOf value), widthOf value, value.toNat,
    ⟨one_le_widthOf value, ?_, fun _ => by omega, ?_, lt_pow_widthOf value, Or.inl rfl⟩,
    putBytes_eq_some h⟩
  · rw [if_pos hflag]
    omega
  · rw [if_pos hflag, Nat.zero_shiftLeft, Nat.zero_add]

/-- The length lands in a high half, and the low half takes the top of the value. -/
theorem writesValue_of_lt (hcurrent : w.current = 0) (hsmall : value.toNat < 4096)
    (h : w.putValue value = some w') :
    ∃ first width n spare, WritesValue w value first width n spare ∧
      w' = ⟨w.finished ++ first :: (LittleEndian.bytes width n ++ spare), 0⟩ ∧
      w'.position ≤ capacity := by
  have hlength := toNat_length value
  have hwidth := widthOf_le value
  have hshift := toNat_shiftLeft_four (UInt8.ofNat (11 + widthOf value)) (by omega)
  have hne : UInt8.ofNat (11 + widthOf value) <<< 4 ≠ 0 := ne_zero_of_toNat_pos (by omega)
  have hflag : ¬ (w.current != 0) = true := by simp [hcurrent]
  have hfirst : (UInt8.ofNat (0xC0 + value.toNat / 256)).toNat = 0xC0 + value.toNat / 256 := by
    rw [UInt8.toNat_ofNat']
    omega
  obtain ⟨spare, hspare, hcases⟩ := bytes_mod_of_lt hsmall
  simp only [putValue, putHalf_of_eq_zero hcurrent, if_neg hne, if_pos hsmall, close] at h
  obtain ⟨hw', hposition⟩ := putBytes_eq_some h
  refine ⟨UInt8.ofNat (0xC0 + value.toNat / 256), 1, value.toNat % 256, spare,
    ⟨Nat.le_refl 1, ?_, fun hc => absurd hcurrent hc, ?_, Nat.mod_lt _ (by decide), hcases⟩,
    ?_, hposition⟩
  · rw [if_neg hflag, hfirst]
    omega
  · rw [if_neg hflag, hfirst, Nat.shiftLeft_eq]
    omega
  · rw [hw', hspare]

/-- The length lands in a high half, and the low half stays empty. -/
theorem writesValue_of_le (hcurrent : w.current = 0) (hlarge : ¬ value.toNat < 4096)
    (h : w.putValue value = some w') :
    ∃ first width n, WritesValue w value first width n [] ∧
      w' = ⟨w.finished ++ first :: LittleEndian.bytes width n, 0⟩ ∧ w'.position ≤ capacity := by
  have hlength := toNat_length value
  have hwidth := widthOf_le value
  have hshift := toNat_shiftLeft_four (UInt8.ofNat (11 + widthOf value)) (by omega)
  have hne : UInt8.ofNat (11 + widthOf value) <<< 4 ≠ 0 := ne_zero_of_toNat_pos (by omega)
  have hflag : ¬ (w.current != 0) = true := by simp [hcurrent]
  have hempty : (UInt8.ofNat (11 + widthOf value) <<< 4).toNat % 16 = 0 := by omega
  simp only [putValue, putHalf_of_eq_zero hcurrent, if_neg hne, if_neg hlarge, close] at h
  refine ⟨UInt8.ofNat (11 + widthOf value) <<< 4, widthOf value, value.toNat,
    ⟨one_le_widthOf value, ?_, fun hc => absurd hcurrent hc, ?_, lt_pow_widthOf value,
      Or.inl rfl⟩, putBytes_eq_some h⟩
  · rw [if_neg hflag]
    omega
  · rw [if_neg hflag, hempty, Nat.zero_shiftLeft, Nat.zero_add]

/-- **Everything a value can leave behind.** -/
theorem exists_writesValue (hw : w.Sound) (h : w.putValue value = some w') :
    ∃ first width n spare, WritesValue w value first width n spare ∧
      w' = ⟨w.finished ++ first :: (LittleEndian.bytes width n ++ spare), 0⟩ ∧
      w'.position ≤ capacity := by
  by_cases hcurrent : w.current = 0
  · by_cases hsmall : value.toNat < 4096
    · exact writesValue_of_lt hcurrent hsmall h
    · obtain ⟨first, width, n, hwrites, hw', hposition⟩ := writesValue_of_le hcurrent hsmall h
      refine ⟨first, width, n, [], hwrites, ?_, hposition⟩
      rw [hw', List.append_nil]
  · obtain ⟨first, width, n, hwrites, hw', hposition⟩ := writesValue_of_ne_zero hw hcurrent h
    refine ⟨first, width, n, [], hwrites, ?_, hposition⟩
    rw [hw', List.append_nil]

theorem Sound.putValue (hw : w.Sound) (h : w.putValue value = some w') :
    w'.Sound ∧ w'.current = 0 := by
  obtain ⟨first, width, n, spare, -, rfl, hposition⟩ := exists_writesValue hw h
  exact ⟨sound_of_boundary hposition, rfl⟩

/-- **A value reads back**, up to a spare byte that the reader may or may not see. -/
theorem carries_of_putValue {bytes : List UInt8} (hw : w.Sound)
    (h : w.putValue value = some w') (hcarries : Carries bytes w')
    (hgap : NoGap (bytes.drop w'.position)) (overflow : Bool) :
    Carries bytes w ∧ ∃ length next, 12 ≤ length ∧ (w.cursorAt bytes).peek? = some length ∧
      (w.cursorAt bytes).valueItem length overflow = .segment ⟨value, overflow⟩ next ∧
      next.segments? = (w'.cursorAt bytes).segments? := by
  obtain ⟨first, width, n, spare, hwrites, rfl, -⟩ := exists_writesValue hw h
  obtain ⟨tail, rfl⟩ := hcarries.finished
  have hone := hwrites.one_le
  -- the bytes from where `w` stood, and from where the value ends
  have hbytes : (w.finished ++ first :: (LittleEndian.bytes width n ++ spare)) ++ tail =
      w.finished ++ first :: (LittleEndian.bytes width n ++ (spare ++ tail)) := by
    simp only [List.append_assoc, List.cons_append]
  have hdrop : ((w.finished ++ first :: (LittleEndian.bytes width n ++ spare)) ++ tail).drop
      w.position = first :: (LittleEndian.bytes width n ++ (spare ++ tail)) := by
    rw [hbytes]
    exact List.drop_left
  rw [show ((w.finished ++ first :: (LittleEndian.bytes width n ++ spare)) ++ tail).drop
    (PathWriter.mk (w.finished ++ first :: (LittleEndian.bytes width n ++ spare)) 0).position =
    tail from List.drop_left] at hgap
  refine ⟨⟨⟨_, hbytes.symm⟩, fun hcurrent => ⟨first, _, hdrop, hwrites.high hcurrent⟩⟩, 11 + width,
    ⟨skipSpare value.toNat (spare ++ tail), false⟩, by omega, ?_, ?_, ?_⟩
  · rw [cursorAt, hdrop, ← hwrites.length_eq]
    rfl
  · rw [cursorAt, hdrop, valueItem,
      readValue?_append (spare ++ tail) rfl hwrites.value_eq hwrites.lt]
  · have hnext : (PathWriter.mk (w.finished ++ first :: (LittleEndian.bytes width n ++ spare))
        0).cursorAt ((w.finished ++ first :: (LittleEndian.bytes width n ++ spare)) ++ tail) =
        ⟨tail, false⟩ := congrArg (HalfByteCursor.mk · false) List.drop_left
    rw [hnext]
    rcases hwrites.spare_eq with rfl | ⟨rfl, hlow, hhigh⟩
    · rw [List.nil_append, skipSpare_of_noGap hgap]
    · exact segments?_skipSpare_zero hlow hhigh

end PutValue

/-! ### Segments -/

/-- `bytes` begin with what `w` has written, and go on with these segments. -/
structure Spells (bytes : List UInt8) (w : PathWriter) (segments : List Segment) : Prop where
  carries : Carries bytes w
  reads : (w.cursorAt bytes).segments? = some segments
  noGap : w.current = 0 → NoGap (bytes.drop w.position)

/-- Whatever begins with a half-byte that is not zero leaves no gap. -/
theorem noGap_of_peek? {w : PathWriter} {bytes : List UInt8} {half : Nat}
    (hpeek : (w.cursorAt bytes).peek? = some half) (hpos : 0 < half) (hcurrent : w.current = 0) :
    NoGap (bytes.drop w.position) := by
  rw [cursorAt, hcurrent] at hpeek
  cases hdrop : bytes.drop w.position with
  | nil =>
    rw [hdrop] at hpeek
    exact absurd hpeek (by simp [peek?])
  | cons b rest =>
    rw [hdrop] at hpeek
    have hhigh : b.toNat / 16 = half := Option.some.inj hpeek
    apply noGap_of_head_ne_zero
    apply ne_zero_of_toNat_pos
    omega

/-- Everything a segment can do to a writer. -/
theorem putSegment_cases {w w' : PathWriter} {s : Segment} (h : w.putSegment s = some w') :
    w.position < capacity ∧
      ((s.overflow = true ∧ (w.putHalf 11).putValue s.value = some w') ∨
        (s.overflow = false ∧ 1 ≤ s.value.toNat ∧ s.value.toNat ≤ 10 ∧
          w' = w.putHalf (UInt8.ofNat s.value.toNat)) ∨
        (s.overflow = false ∧ w.putValue s.value = some w')) := by
  unfold putSegment at h
  split_ifs at h with hfull hoverflow hroom hsmall
  · exact ⟨by omega, Or.inl ⟨hoverflow, h⟩⟩
  · exact ⟨by omega, Or.inr (Or.inl ⟨eq_false_of_ne_true hoverflow, hsmall.1, hsmall.2,
      (Option.some.inj h).symm⟩)⟩
  · exact ⟨by omega, Or.inr (Or.inr ⟨eq_false_of_ne_true hoverflow, h⟩)⟩

theorem Sound.putSegment {w w' : PathWriter} {s : Segment} (hw : w.Sound)
    (h : w.putSegment s = some w') : w'.Sound := by
  obtain ⟨hposition, ⟨-, h⟩ | ⟨-, -, hle, rfl⟩ | ⟨-, h⟩⟩ := putSegment_cases h
  · exact ((hw.putHalf hposition 11 (by decide)).putValue h).1
  · apply hw.putHalf hposition _
    rw [UInt8.toNat_ofNat']
    omega
  · exact (hw.putValue h).1

/-- **One more segment in front.** -/
theorem spells_of_putSegment {w w' : PathWriter} {s : Segment} {bytes : List UInt8}
    {rest : List Segment} (hw : w.Sound) (h : w.putSegment s = some w')
    (hrest : Spells bytes w' rest) : Spells bytes w (s :: rest) := by
  obtain ⟨value, overflow⟩ := s
  obtain ⟨hposition, ⟨hoverflow, hput⟩ | ⟨hoverflow, hone, hten, rfl⟩ | ⟨hoverflow, hput⟩⟩ :=
    putSegment_cases h
  · -- the prefix, then the length and its bytes
    dsimp only at hoverflow hput
    subst hoverflow
    have hsound := hw.putHalf hposition 11 (by decide)
    have hgap := hrest.noGap (hsound.putValue hput).2
    obtain ⟨hcarries', length, next, hlength, hpeek', hitem, hnext⟩ :=
      carries_of_putValue hsound hput hrest.carries hgap true
    obtain ⟨hcarries, hpeek, hadvance⟩ :=
      carries_of_putHalf hw (by decide) (by decide) hcarries'
    rw [← hadvance] at hpeek' hitem
    refine ⟨hcarries, ?_, noGap_of_peek? hpeek (by decide)⟩
    rw [segments?_of_segment ((next_of_overflow hpeek hpeek' hlength).trans hitem), hnext,
      hrest.reads]
    rfl
  · -- a value that is its own half-byte
    dsimp only at hoverflow hone hten hrest
    subst hoverflow
    have hhalf : (UInt8.ofNat value.toNat).toNat = value.toNat := by
      rw [UInt8.toNat_ofNat']
      omega
    obtain ⟨hcarries, hpeek, hadvance⟩ :=
      carries_of_putHalf hw (by omega) (by omega) hrest.carries
    rw [hhalf] at hpeek
    refine ⟨hcarries, ?_, noGap_of_peek? hpeek hone⟩
    rw [segments?_of_segment (next_of_small hpeek hone hten), hadvance, hrest.reads,
      UInt32.ofNat_toNat]
    rfl
  · dsimp only at hoverflow hput
    subst hoverflow
    have hgap := hrest.noGap (hw.putValue hput).2
    obtain ⟨hcarries, length, next, hlength, hpeek, hitem, hnext⟩ :=
      carries_of_putValue hw hput hrest.carries hgap false
    refine ⟨hcarries, ?_, noGap_of_peek? hpeek (by omega)⟩
    rw [segments?_of_segment ((next_of_length hpeek hlength).trans hitem), hnext, hrest.reads]
    rfl

/-- Where a writer has stopped only zeros follow. -/
theorem drop_toBytes {w : PathWriter} (hw : w.Sound) :
    w.toBytes.drop w.position = (w.current :: List.replicate capacity 0).take
      (capacity - w.position) := by
  have htake : w.finished.take capacity = w.finished := List.take_of_length_le hw.position_le
  rw [toBytes, List.take_append, htake]
  exact List.drop_left

theorem spells_toBytes {w : PathWriter} (hw : w.Sound) : Spells w.toBytes w [] := by
  have hdrop := drop_toBytes hw
  have hfinished : w.finished <+: w.toBytes := by
    rw [toBytes, List.take_append, List.take_of_length_le hw.position_le]
    exact List.prefix_append _ _
  by_cases hcurrent : w.current = 0
  · have hzeros : ∀ b ∈ w.toBytes.drop w.position, b = 0 := by
      intro b hb
      rw [hdrop, hcurrent] at hb
      rcases List.mem_cons.mp (List.mem_of_mem_take hb) with rfl | hb
      · rfl
      · exact List.eq_of_mem_replicate hb
    refine ⟨carries_at_boundary hcurrent hfinished, ?_, fun _ _ => hzeros⟩
    apply segments?_of_peek?
    intro half hhalf
    rw [cursorAt, hcurrent] at hhalf
    cases hrest : w.toBytes.drop w.position with
    | nil => simp [hrest, peek?] at hhalf
    | cons b rest =>
      have hb := hzeros b (by rw [hrest]; exact List.mem_cons_self)
      simp only [hrest, hb, peek?, Option.mem_def, Option.some.injEq] at hhalf
      exact hhalf.symm
  · have hlt := hw.position_lt hcurrent
    obtain ⟨room, hroom⟩ : ∃ room, capacity - w.position = room + 1 :=
      ⟨capacity - w.position - 1, by omega⟩
    rw [hroom, List.take_succ_cons] at hdrop
    refine ⟨⟨hfinished, fun _ => ⟨_, _, hdrop, rfl⟩⟩, ?_, fun h => absurd h hcurrent⟩
    apply segments?_of_peek?
    intro half hhalf
    rw [cursorAt, hdrop, bne_iff_ne.mpr hcurrent] at hhalf
    have hlow : w.current.toNat % 16 = half := Option.some.inj hhalf
    rw [← hlow]
    exact hw.low

/-- **A finished path spells its segments**, whatever was written before them. -/
theorem spells_of_putSegments {w w' : PathWriter} {segments : List Segment} (hw : w.Sound)
    (h : w.putSegments segments = some w') : Spells w'.toBytes w segments := by
  induction segments generalizing w with
  | nil =>
    rw [putSegments, Option.some.injEq] at h
    subst h
    exact spells_toBytes hw
  | cons s rest ih =>
    rw [putSegments] at h
    split at h
    · rename_i w₁ hs
      exact spells_of_putSegment hw hs (ih (hw.putSegment hs) h)
    · exact absurd h (by simp)

end PathWriter

/-! ## The identifier of a path -/

namespace ActivityId

theorem pathBytes_ofPath {path : List UInt8} (h : path.length = 12) (processId : UInt32) :
    (ofPath path h processId).pathBytes = path :=
  List.take_left' h

theorem checksum_ofPath {path : List UInt8} (h : path.length = 12) (processId : UInt32) :
    (ofPath path h processId).checksum = expectedChecksum path ^^^ processId := by
  have hdrop : (ofPath path h processId).bytes.drop 12 =
      LittleEndian.bytes 4 (expectedChecksum path ^^^ processId).toNat := List.drop_left' h
  rw [checksum, hdrop, LittleEndian.value_bytes,
    Nat.mod_eq_of_lt (expectedChecksum path ^^^ processId).toNat_lt, UInt32.ofNat_toNat]

end ActivityId

namespace ActivityPath

/-- **A path of no process reads back**: where its segments fit the identifier, the
reader finds the same segments in the same order, with their values and their
markers, and no process. -/
theorem path?_of_encode? (segments : List Segment) (id : ActivityId)
    (h : encode? ⟨none, segments⟩ = some id) : id.path? = some ⟨none, segments⟩ := by
  unfold encode? at h
  split at h
  · rename_i w hw
    rw [Option.some.injEq] at h
    subst h
    have hsegments := (PathWriter.spells_of_putSegments PathWriter.sound_start hw).reads
    have hcursor : PathWriter.start.cursorAt w.toBytes = ⟨w.toBytes, false⟩ := rfl
    rw [hcursor] at hsegments
    have hchecksum := ActivityId.checksum_ofPath w.length_toBytes 0
    have hbytes := ActivityId.pathBytes_ofPath w.length_toBytes 0
    rw [UInt32.xor_zero] at hchecksum
    simp only [ActivityId.path?, ActivityId.hasPathChecksum, Option.getD_none, hchecksum, hbytes,
      hsegments, UInt32.xor_self, beq_self_eq_true, ↓reduceIte]
  · exact absurd h (by simp)

/-- Every kind of segment in one path: a value in a low half, a spare byte, an
overflow segment and a zero. -/
theorem path?_of_encode?_mixed :
    ∃ id, encode? ⟨none, [.plain 1, .plain 700, .plain 300, ⟨4000, true⟩, .plain 0]⟩ = some id ∧
      id.path? = some ⟨none, [.plain 1, .plain 700, .plain 300, ⟨4000, true⟩, .plain 0]⟩ := by
  obtain ⟨id, h⟩ := Option.isSome_iff_exists.mp (by decide :
    (encode? ⟨none, [.plain 1, .plain 700, .plain 300, ⟨4000, true⟩, .plain 0]⟩).isSome = true)
  exact ⟨id, h, path?_of_encode? _ _ h⟩

end ActivityPath
end RuntimeTrace
