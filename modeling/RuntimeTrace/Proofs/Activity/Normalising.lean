import RuntimeTrace.Proofs.Activity.Capacity
import RuntimeTrace.Proofs.Activity.Processes

/-!
# Any identifier can be read

Most identifiers were never written as paths, and about one in four thousand of the random
ones has a checksum that fits.  The reader has to cope with whatever it finds in the path
bytes: a length at the very end, a run that goes beyond it, an overflow prefix with no
length behind it, a value written longer than it need be, and four bytes behind a half-byte
that is shifted out.

## Bytes by index

A cursor holds the bytes that are left, and cannot run past them.  Here the same reader
goes over the sixteen bytes of an identifier by index, as they lie in memory, and every look
at a byte is checked: a look behind the twelve path bytes would be the error `OutsidePath`.
There is none, and what is read is the same (`pathByIndex_eq`).

## What is read is a path that can be written

A segment takes at least one half-byte, so there are at most twenty-four
(`length_le_remaining`).  A process that is found in the checksum is one that leaves the
compared bits alone.  So a path that was read is one that the writer can do justice to:
wherever it fits the path bytes in the writer's own layout, it reads back, even if it was
found in another.

Main statement: `any_identifier_read_safely`.
-/

namespace RuntimeTrace

namespace HalfByteCursor

theorem segments?_of_malformed {c : HalfByteCursor} (h : c.next = .malformed) :
    c.segments? = none := by
  rw [segments?]
  split
  · rename_i hc
    rw [h] at hc
    exact absurd hc (by simp)
  · rfl
  · rename_i hc
    rw [h] at hc
    exact absurd hc (by simp)

end HalfByteCursor

/-! ## Reading by index -/

/-- A half-byte of an identifier: the index of its byte, and which half it is. -/
structure HalfBytePlace where
  index : Nat
  low : Bool
  deriving DecidableEq, Repr

namespace HalfBytePlace

open PathWriter (capacity)

/-- What can stand at a place. -/
inductive Item where
  /-- The path ends here. -/
  | finish
  /-- No path reads like this. -/
  | malformed
  /-- One segment, and where the next one begins. -/
  | segment (s : Segment) (next : HalfBytePlace)

/-- The next half-byte. -/
def advance (p : HalfBytePlace) : HalfBytePlace :=
  if p.low then ⟨p.index + 1, false⟩ else ⟨p.index, true⟩

section Reading

variable (id : ActivityId)

/-- The byte at an index, which has to be one of the path. -/
def byteAt (index : Nat) : Except OutsidePath UInt8 :=
  if index < capacity then .ok (id.bytes[index]?.getD 0) else .error ⟨index⟩

/-- The half-byte at a place, if the path goes as far. -/
def halfAt (p : HalfBytePlace) : Except OutsidePath (Option UInt8) :=
  if capacity ≤ p.index then .ok none
  else (byteAt id p.index).map fun b => some (if p.low then b &&& 0x0F else b >>> 4)

/-- Shifts the bytes of a run into a word, the last one first. -/
def runAt (start : Nat) : Nat → UInt32 → Except OutsidePath UInt32
  | 0, value => .ok value
  | width + 1, value =>
    (byteAt id (start + width)).bind fun b => runAt start width (value <<< 8 ||| b.toUInt32)

/-- The index behind a value.  A zero byte with another byte behind it is passed over, if the
value is one from 256 to 4095. -/
def indexBehind (value : UInt32) (index : Nat) : Except OutsidePath Nat :=
  if 0x100 ≤ value ∧ value ≤ 0xFFF ∧ index + 1 < capacity then
    (byteAt id index).bind fun b =>
      if b = 0 then (byteAt id (index + 1)).map fun c => if c ≠ 0 then index + 1 else index
      else .ok index
  else .ok index

/-- The bits of a value that stand beside its length. -/
def topAt (p : HalfBytePlace) : Except OutsidePath UInt32 :=
  if p.low then .ok 0 else (byteAt id p.index).map fun b => (b &&& 0x0F).toUInt32

/-- The value that a length announces, and where it ends. -/
def valueAt (p : HalfBytePlace) (length : Nat) :
    Except OutsidePath (Option (UInt32 × HalfBytePlace)) :=
  let start := p.index + 1
  let width := length - 11
  (topAt id p).bind fun top =>
    if capacity < start + width then .ok none
    else (runAt id start width top).bind fun value =>
      (indexBehind id value (start + width)).map fun next => some (value, ⟨next, false⟩)

/-- A value that a length announces, as an item. -/
def valueItemAt (p : HalfBytePlace) (length : Nat) (overflow : Bool) : Except OutsidePath Item :=
  (valueAt id p length).map fun read =>
    match read with
    | some (value, next) => .segment ⟨value, overflow⟩ next
    | none => .malformed

/-- The value of an overflow segment, with the length at a place in front of it. -/
def overflowItemAt (p : HalfBytePlace) : Except OutsidePath Item :=
  (halfAt id p).bind fun read =>
    match read with
    | none => .ok .malformed
    | some length => if 12 ≤ length then valueItemAt id p length.toNat true else .ok .malformed

/-- What stands at a place. -/
def itemAt (p : HalfBytePlace) : Except OutsidePath Item :=
  (halfAt id p).bind fun read =>
    match read with
    | none => .ok .finish
    | some half =>
      if half = 0 then .ok .finish
      else if half ≤ 10 then .ok (.segment (Segment.plain half.toUInt32) p.advance)
      else if half = 11 then overflowItemAt id p.advance
      else valueItemAt id p half.toNat false

end Reading

/-! ### The cursor at a place -/

/-- The bytes of the path from a place on. -/
def cursor (id : ActivityId) (p : HalfBytePlace) : HalfByteCursor :=
  ⟨id.pathBytes.drop p.index, p.low⟩

variable (id : ActivityId)

theorem length_pathBytes : id.pathBytes.length = capacity := by
  rw [ActivityId.pathBytes, List.length_take, id.length_bytes]
  rfl

/-- A byte of the path is the first of those that are left. -/
theorem byteAt_of_lt {index : Nat} (h : index < capacity) :
    ∃ b, byteAt id index = .ok b ∧
      id.pathBytes.drop index = b :: id.pathBytes.drop (index + 1) := by
  have hlength := length_pathBytes id
  refine ⟨id.pathBytes.get ⟨index, by omega⟩, ?_, List.drop_eq_getElem_cons (by omega)⟩
  have hget : id.bytes[index]? = id.pathBytes[index]? := (List.getElem?_take_of_lt h).symm
  rw [byteAt, if_pos h, hget, List.getElem?_eq_getElem (by omega), Option.getD_some,
    List.get_eq_getElem]

theorem drop_eq_nil {index : Nat} (h : capacity ≤ index) : id.pathBytes.drop index = [] :=
  List.drop_eq_nil_of_le (by rw [length_pathBytes]; exact h)

theorem toNat_and_half (b : UInt8) : (b &&& 0x0F).toNat = b.toNat % 16 := by
  rw [UInt8.toNat_and]
  exact Nat.and_two_pow_sub_one_eq_mod b.toNat 4

theorem toNat_shiftRight_half (b : UInt8) : (b >>> 4).toNat = b.toNat / 16 := by
  rw [UInt8.toNat_shiftRight, Nat.shiftRight_eq_div_pow]
  rfl

theorem cursor_advance (p : HalfBytePlace) : cursor id p.advance = (cursor id p).advance := by
  obtain ⟨index, low⟩ := p
  cases low with
  | false => rfl
  | true =>
    show HalfByteCursor.mk (id.pathBytes.drop (index + 1)) false =
      ⟨(id.pathBytes.drop index).tail, false⟩
    rw [List.tail_drop]

/-- **A half-byte is the same** by index and by cursor. -/
theorem halfAt_eq (p : HalfBytePlace) :
    ∃ read, halfAt id p = .ok read ∧ read.map UInt8.toNat = (cursor id p).peek? ∧
      (read.isSome = true → p.index < capacity) := by
  rw [halfAt]
  by_cases hend : capacity ≤ p.index
  · refine ⟨none, if_pos hend, ?_, fun h => absurd h (by simp)⟩
    rw [cursor, drop_eq_nil id hend]
    rfl
  · have hlt : p.index < capacity := Nat.lt_of_not_le hend
    obtain ⟨b, hb, hdrop⟩ := byteAt_of_lt id hlt
    rw [if_neg hend, hb]
    refine ⟨_, rfl, ?_, fun _ => hlt⟩
    rw [cursor, hdrop]
    show some (if p.low = true then b &&& 0x0F else b >>> 4).toNat =
      some (if p.low = true then b.toNat % 16 else b.toNat / 16)
    split_ifs
    · rw [toNat_and_half]
    · rw [toNat_shiftRight_half]

/-! ### Runs -/

theorem value_append_singleton (bytes : List UInt8) (b : UInt8) :
    LittleEndian.value (bytes ++ [b]) =
      LittleEndian.value bytes + Nat.pow 256 bytes.length * b.toNat := by
  induction bytes with
  | nil =>
    show b.toNat + 0 = 0 + 1 * b.toNat
    omega
  | cons c rest ih =>
    have hpow : Nat.pow 256 (rest.length + 1) * b.toNat =
        256 * (Nat.pow 256 rest.length * b.toNat) := by
      rw [← Nat.mul_assoc, Nat.mul_comm 256]
      rfl
    rw [List.cons_append, LittleEndian.value_cons, LittleEndian.value_cons, ih, List.length_cons,
      hpow, Nat.mul_add, Nat.add_assoc]

/-- One more byte is shifted into a word, and what does not fit is shifted out. -/
theorem toNat_shift_or (value : UInt32) (b : UInt8) :
    (value <<< 8 ||| b.toUInt32).toNat = (256 * value.toNat + b.toNat) % UInt32.size := by
  have hb : b.toNat < 2 ^ 8 := b.toNat_lt
  have height : (8 : UInt32).toNat % 32 = 8 := rfl
  have hsize : UInt32.size = 256 * 0x1000000 := rfl
  have hshift : (value <<< 8).toNat = 2 ^ 8 * (value.toNat % 0x1000000) := by
    rw [UInt32.toNat_shiftLeft, height, Nat.shiftLeft_eq]
    omega
  rw [UInt32.toNat_or, hshift, UInt8.toNat_toUInt32, ← Nat.two_pow_add_eq_or_of_lt hb, hsize]
  omega

/-- **A run is read from its last byte to its first**, and comes to the same. -/
theorem runAt_eq {start width : Nat} (h : start + width ≤ capacity) (value : UInt32) :
    runAt id start width value = .ok (UInt32.ofNat
      (value.toNat <<< (8 * width) +
        LittleEndian.value ((id.pathBytes.drop start).take width))) := by
  induction width generalizing value with
  | zero => simp [runAt]
  | succ width ih =>
    obtain ⟨b, hb, hdrop⟩ := byteAt_of_lt id (show start + width < capacity by omega)
    have hlength : ((id.pathBytes.drop start).take width).length = width := by
      rw [List.length_take, List.length_drop, length_pathBytes]
      omega
    have htake : (id.pathBytes.drop start).take (width + 1) =
        (id.pathBytes.drop start).take width ++ [b] := by
      rw [List.take_add, List.drop_drop, hdrop]
      rfl
    rw [runAt, hb]
    show runAt id start width (value <<< 8 ||| b.toUInt32) = _
    rw [ih (by omega), htake, value_append_singleton, hlength]
    congr 1
    apply UInt32.toNat_inj.mp
    have hpow : 2 ^ (8 * width) = Nat.pow 256 width := Nat.pow_mul 2 8 width
    have hpow' : 2 ^ (8 * (width + 1)) = 256 * Nat.pow 256 width := by
      rw [Nat.mul_succ, Nat.pow_add, hpow, Nat.mul_comm]
    rw [UInt32.toNat_ofNat', UInt32.toNat_ofNat', toNat_shift_or, Nat.shiftLeft_eq,
      Nat.shiftLeft_eq, hpow, hpow', Nat.add_mod, Nat.mod_mul_mod, ← Nat.add_mod, Nat.add_mul]
    have hleft : value.toNat * (256 * Nat.pow 256 width) =
        256 * value.toNat * Nat.pow 256 width := by
      rw [← Nat.mul_assoc, Nat.mul_comm value.toNat]
    rw [hleft, Nat.mul_comm b.toNat]
    congr 1
    omega

/-- **The same spare byte is passed over.** -/
theorem indexBehind_eq (value : UInt32) {index : Nat} (h : index ≤ capacity) :
    ∃ next, indexBehind id value index = .ok next ∧
      id.pathBytes.drop next =
        HalfByteCursor.skipSpare value.toNat (id.pathBytes.drop index) := by
  have hlow : 0x100 ≤ value ↔ 0x100 ≤ value.toNat := UInt32.le_iff_toNat_le
  have hhigh : value ≤ 0xFFF ↔ value.toNat ≤ 0xFFF := UInt32.le_iff_toNat_le
  simp only [indexBehind, hlow, hhigh]
  by_cases hnext : index + 1 < capacity
  · obtain ⟨b, hb, hdrop⟩ := byteAt_of_lt id (show index < capacity by omega)
    obtain ⟨c, hc, hdrop'⟩ := byteAt_of_lt id hnext
    have hskip : HalfByteCursor.skipSpare value.toNat (id.pathBytes.drop index) =
        if 0x100 ≤ value.toNat ∧ value.toNat ≤ 0xFFF ∧ b = 0 ∧ c ≠ 0 then
          id.pathBytes.drop (index + 1) else id.pathBytes.drop index := by
      rw [hdrop, hdrop', HalfByteCursor.skipSpare]
    rw [hskip, hb, hc]
    by_cases hspare : 0x100 ≤ value.toNat ∧ value.toNat ≤ 0xFFF ∧ b = 0 ∧ c ≠ 0
    · obtain ⟨hl, hh, hb0, hc0⟩ := hspare
      refine ⟨index + 1, ?_, (if_pos ⟨hl, hh, hb0, hc0⟩).symm⟩
      rw [if_pos ⟨hl, hh, hnext⟩]
      show (if b = 0 then (Except.ok (if c ≠ 0 then index + 1 else index) :
        Except OutsidePath Nat) else .ok index) = .ok (index + 1)
      rw [if_pos hb0, if_pos hc0]
    · refine ⟨index, ?_, (if_neg hspare).symm⟩
      split_ifs with hrange
      · show (if b = 0 then (Except.ok (if c ≠ 0 then index + 1 else index) :
          Except OutsidePath Nat) else .ok index) = .ok index
        split_ifs with hb0 hc0
        · exact absurd ⟨hrange.1, hrange.2.1, hb0, hc0⟩ hspare
        · rfl
        · rfl
      · rfl
  · refine ⟨index, if_neg fun hrange => hnext hrange.2.2, ?_⟩
    have hlength : (id.pathBytes.drop index).length ≤ 1 := by
      rw [List.length_drop, length_pathBytes]
      omega
    cases hrest : id.pathBytes.drop index with
    | nil => rfl
    | cons b rest =>
      cases rest with
      | nil => rfl
      | cons c more =>
        rw [hrest] at hlength
        exact absurd hlength (by simp)

/-- **A value is the same**, and ends at the same place. -/
theorem valueAt_eq {p : HalfBytePlace} (h : p.index < capacity) (length : Nat) :
    ∃ read, valueAt id p length = .ok read ∧
      read.map (fun r => (r.1, cursor id r.2)) = (cursor id p).readValue? length := by
  obtain ⟨index, low⟩ := p
  replace h : index < capacity := h
  obtain ⟨b, hb, hdrop⟩ := byteAt_of_lt id h
  have hrest : (id.pathBytes.drop (index + 1)).length = capacity - (index + 1) := by
    rw [List.length_drop, length_pathBytes]
  obtain ⟨top, htop, htopNat⟩ : ∃ top, topAt id ⟨index, low⟩ = .ok top ∧
      top.toNat = if low = true then 0 else b.toNat % 16 := by
    cases low with
    | false =>
      refine ⟨(b &&& 0x0F).toUInt32, ?_, ?_⟩
      · show (byteAt id index).map _ = _
        rw [hb]
        rfl
      · rw [UInt8.toNat_toUInt32, toNat_and_half]
        rfl
    | true => exact ⟨0, rfl, rfl⟩
  simp only [valueAt, htop, cursor, hdrop, HalfByteCursor.readValue?, hrest, Except.bind]
  by_cases hfits : capacity < index + 1 + (length - 11)
  · refine ⟨none, if_pos hfits, ?_⟩
    have hshort : capacity - (index + 1) < length - 11 := by omega
    rw [if_pos hshort]
    rfl
  · have hle : index + 1 + (length - 11) ≤ capacity := Nat.le_of_not_lt hfits
    have hlong : ¬ capacity - (index + 1) < length - 11 := by omega
    obtain ⟨value, hrun, hvalue⟩ : ∃ value, runAt id (index + 1) (length - 11) top = .ok value ∧
        value.toNat = ((if low = true then 0 else b.toNat % 16) <<< (8 * (length - 11)) +
          LittleEndian.value ((id.pathBytes.drop (index + 1)).take (length - 11))) %
            UInt32.size :=
      ⟨_, runAt_eq id hle top, by rw [UInt32.toNat_ofNat', htopNat]⟩
    obtain ⟨next, hnext, hskip⟩ := indexBehind_eq id value hle
    refine ⟨some (value, ⟨next, false⟩), ?_, ?_⟩
    · rw [if_neg hfits, hrun]
      show (indexBehind id value _).map _ = _
      rw [hnext]
      rfl
    · rw [if_neg hlong, ← hvalue, UInt32.ofNat_toNat, List.drop_drop, ← hskip]
      rfl

/-! ### Items -/

/-- What stands at a place, for a reader with a cursor. -/
def Item.follow (id : ActivityId) : Item → HalfByteCursor.Item
  | .finish => .finish
  | .malformed => .malformed
  | .segment s next => .segment s (cursor id next)

/-- **An item is the same** by index and by cursor. -/
theorem valueItemAt_eq {p : HalfBytePlace} (h : p.index < capacity) (length : Nat)
    (overflow : Bool) :
    ∃ item, valueItemAt id p length overflow = .ok item ∧
      item.follow id = (cursor id p).valueItem length overflow := by
  obtain ⟨read, hread, hvalue⟩ := valueAt_eq id h length
  rw [valueItemAt, hread, HalfByteCursor.valueItem, ← hvalue]
  cases read with
  | none => exact ⟨.malformed, rfl, rfl⟩
  | some read => exact ⟨.segment ⟨read.1, overflow⟩ read.2, rfl, rfl⟩

theorem overflowItemAt_eq {p : HalfBytePlace} (hpeek : (cursor id p).peek? = some 11) :
    ∃ item, overflowItemAt id p.advance = .ok item ∧ item.follow id = (cursor id p).next := by
  obtain ⟨read, hread, hlength, hbound⟩ := halfAt_eq id p.advance
  rw [cursor_advance] at hlength
  rw [overflowItemAt, hread]
  cases read with
  | none =>
    refine ⟨.malformed, rfl, ?_⟩
    rw [HalfByteCursor.next, hpeek]
    simp only [← hlength]
    rfl
  | some length =>
    replace hlength : (cursor id p).advance.peek? = some length.toNat := hlength.symm
    have htwelve : 12 ≤ length ↔ 12 ≤ length.toNat := UInt8.le_iff_toNat_le
    by_cases hle : 12 ≤ length
    · obtain ⟨item, hitem, hfollow⟩ := valueItemAt_eq id (hbound rfl) length.toNat true
      refine ⟨item, (if_pos hle).trans hitem, ?_⟩
      rw [HalfByteCursor.next_of_overflow hpeek hlength (htwelve.mp hle), hfollow, cursor_advance]
    · refine ⟨.malformed, if_neg hle, ?_⟩
      rw [HalfByteCursor.next, hpeek]
      simp only [hlength, if_neg (mt htwelve.mpr hle)]
      rfl

theorem itemAt_eq (p : HalfBytePlace) :
    ∃ item, itemAt id p = .ok item ∧ item.follow id = (cursor id p).next := by
  obtain ⟨read, hread, hpeek, hbound⟩ := halfAt_eq id p
  rw [itemAt, hread]
  cases read with
  | none =>
    refine ⟨.finish, rfl, ?_⟩
    rw [HalfByteCursor.next, ← hpeek]
    rfl
  | some half =>
    replace hpeek : (cursor id p).peek? = some half.toNat := hpeek.symm
    have hzero : half = 0 ↔ half.toNat = 0 := by rw [← UInt8.toNat_inj]; rfl
    have hten : half ≤ 10 ↔ half.toNat ≤ 10 := UInt8.le_iff_toNat_le
    have heleven : half = 11 ↔ half.toNat = 11 := by rw [← UInt8.toNat_inj]; rfl
    simp only [Except.bind, hzero, hten, heleven]
    by_cases hfinish : half.toNat = 0
    · refine ⟨.finish, if_pos hfinish, ?_⟩
      rw [HalfByteCursor.next, hpeek, hfinish]
      rfl
    rw [if_neg hfinish]
    by_cases hsmall : half.toNat ≤ 10
    · refine ⟨_, if_pos hsmall, ?_⟩
      rw [HalfByteCursor.next_of_small hpeek (Nat.pos_of_ne_zero hfinish) hsmall,
        ← cursor_advance, UInt32.ofNat_uInt8ToNat]
      rfl
    rw [if_neg hsmall]
    by_cases hprefix : half.toNat = 11
    · rw [if_pos hprefix]
      exact overflowItemAt_eq id (hpeek.trans (congrArg some hprefix))
    · rw [if_neg hprefix]
      obtain ⟨item, hitem, hfollow⟩ := valueItemAt_eq id (hbound rfl) half.toNat false
      refine ⟨item, hitem, ?_⟩
      rw [HalfByteCursor.next_of_length hpeek (by omega), hfollow]

variable {id}

theorem next_of_itemAt {p : HalfBytePlace} {item : Item} (h : itemAt id p = .ok item) :
    (cursor id p).next = item.follow id := by
  obtain ⟨item', hitem, hfollow⟩ := itemAt_eq id p
  rw [h, Except.ok.injEq] at hitem
  rw [← hfollow, hitem]

/-! ### Whole paths -/

/-- Reads segments from a place on, to the end of the path. -/
def segmentsAt (id : ActivityId) (p : HalfBytePlace) :
    Except OutsidePath (Option (List Segment)) :=
  match h : itemAt id p with
  | .error e => .error e
  | .ok .finish => .ok (some [])
  | .ok .malformed => .ok none
  | .ok (.segment s next) =>
    have : (cursor id next).remaining < (cursor id p).remaining :=
      HalfByteCursor.remaining_lt_of_next (next_of_itemAt h)
    (segmentsAt id next).map fun read => read.map (s :: ·)
termination_by (cursor id p).remaining

/-- **The segments are the same**, and no look goes behind the path. -/
theorem segmentsAt_eq (id : ActivityId) (p : HalfBytePlace) :
    segmentsAt id p = .ok (cursor id p).segments? := by
  fun_induction segmentsAt id p with
  | case1 p e h =>
    obtain ⟨item, hitem, -⟩ := itemAt_eq id p
    rw [h] at hitem
    exact absurd hitem (by simp)
  | case2 p h => rw [HalfByteCursor.segments?_of_finish (next_of_itemAt h)]
  | case3 p h => rw [HalfByteCursor.segments?_of_malformed (next_of_itemAt h)]
  | case4 p s next h hlt ih =>
    rw [HalfByteCursor.segments?_of_segment (next_of_itemAt h), ih]
    rfl

end HalfBytePlace

namespace ActivityId

/-- The path that an identifier spells, read by index. -/
def pathByIndex (id : ActivityId) : Except OutsidePath (Option ActivityPath) :=
  if id.hasPathChecksum 0 then
    (HalfBytePlace.segmentsAt id ⟨0, false⟩).map fun read =>
      read.map fun segments =>
        let folded := id.checksum ^^^ expectedChecksum id.pathBytes
        ⟨if folded = 0 then none else some folded, segments⟩
  else .ok none

/-- **No look goes behind the path bytes**, and what is read is the same. -/
theorem pathByIndex_eq (id : ActivityId) : id.pathByIndex = .ok id.path? := by
  rw [pathByIndex, path?, HalfBytePlace.segmentsAt_eq]
  split_ifs
  · show Except.ok _ = _
    congr 1
    rw [HalfBytePlace.cursor, List.drop_zero]
    cases (HalfByteCursor.mk id.pathBytes false).segments? with
    | none => rfl
    | some segments => rfl
  · rfl

end ActivityId

/-! ## Paths that were read -/

namespace HalfByteCursor

/-- **A segment for each half-byte**, at most. -/
theorem length_le_remaining (c : HalfByteCursor) {segments : List Segment}
    (h : c.segments? = some segments) : segments.length ≤ c.remaining := by
  fun_induction segments? c generalizing segments with
  | case1 c hnext =>
    rw [← Option.some.inj h]
    exact Nat.zero_le _
  | case2 c hnext => exact absurd h (by simp)
  | case3 c s c' hnext hlt ih =>
    obtain ⟨rest, hrest, rfl⟩ := Option.map_eq_some_iff.mp h
    have hle := ih hrest
    rw [List.length_cons]
    omega

end HalfByteCursor

/-- The process of a path is one that a checksum gives away. -/
def ActivityPath.HasFoundProcess (path : ActivityPath) : Prop :=
  ∀ p, path.processId = some p → 0 < p.toNat ∧ p.toNat < 0x100000

namespace ActivityId

/-- A path that was read has the segments that the path bytes spell, and the process that
the checksum differs by. -/
theorem path?_eq_some_iff {id : ActivityId} {path : ActivityPath} :
    id.path? = some path ↔ id.hasPathChecksum 0 = true ∧
      (HalfByteCursor.mk id.pathBytes false).segments? = some path.segments ∧
      path.processId = if id.checksum ^^^ expectedChecksum id.pathBytes = 0 then none
        else some (id.checksum ^^^ expectedChecksum id.pathBytes) := by
  obtain ⟨processId, segments⟩ := path
  rw [path?]
  cases id.hasPathChecksum 0 with
  | false => simp
  | true =>
    cases (HalfByteCursor.mk id.pathBytes false).segments? with
    | none => simp
    | some read =>
      simp only [↓reduceIte, Option.some.injEq, ActivityPath.mk.injEq, true_and]
      rw [and_comm, @eq_comm _ processId]

/-- **A process that is found leaves the compared bits alone**, and is not zero. -/
theorem hasFoundProcess_of_path? {id : ActivityId} {path : ActivityPath}
    (h : id.path? = some path) : path.HasFoundProcess := by
  obtain ⟨hchecksum, -, hprocess⟩ := path?_eq_some_iff.mp h
  intro p hp
  rw [hp] at hprocess
  split_ifs at hprocess with hzero
  rw [Option.some.injEq] at hprocess
  subst hprocess
  constructor
  · exact Nat.pos_of_ne_zero fun h => hzero (UInt32.toNat_inj.mp h)
  · apply and_comparedBits_eq_zero_iff.mp
    refine @and_eq_zero_of_xor_and_eq (expectedChecksum id.pathBytes) 0xFFF00000 _ ?_
    rw [UInt32.xor_comm, UInt32.xor_assoc, UInt32.xor_self, UInt32.xor_zero]
    simpa [hasPathChecksum] using hchecksum

end ActivityId

/-- **A path whose process can be found reads back** from the identifier that it is given. -/
theorem ActivityPath.path?_of_encode?_of_process {path : ActivityPath} {id : ActivityId}
    (hprocess : path.HasFoundProcess) (h : path.encode? = some id) : id.path? = some path := by
  obtain ⟨processId, segments⟩ := path
  obtain ⟨w, hw, rfl⟩ := encode?_eq_some_iff.mp h
  have hread := PathWriter.segments?_toBytes hw
  cases processId with
  | none =>
    have hnone : (0 : UInt32) &&& 0xFFF00000 = 0 := rfl
    exact ActivityId.path?_ofPath w.length_toBytes hread hnone
  | some p =>
    obtain ⟨hpos, hlt⟩ := hprocess p rfl
    have hne : p ≠ 0 := by
      rintro rfl
      exact absurd hpos (by decide)
    rw [Option.getD_some, ActivityId.path?_ofPath w.length_toBytes hread
      (ActivityId.and_comparedBits_eq_zero_iff.mpr hlt), if_neg hne]

namespace ActivityId

/-- **Any sixteen bytes are read safely, and what is read can be written.**

* Read by index, no look goes behind the twelve path bytes, and the answer is the same.
* A path that is read has at most twenty-four segments, and no process or one above zero
  and below `2 ^ 20`.
* Its segments are those of any other path with the same twelve bytes.
* Written again, if it fits, it reads as itself. -/
theorem any_identifier_read_safely (id : ActivityId) :
    id.pathByIndex = .ok id.path? ∧
    ∀ path, id.path? = some path →
      path.segments.length ≤ 24 ∧
      (∀ p, path.processId = some p → 0 < p.toNat ∧ p.toNat < 0x100000) ∧
      (∀ (other : ActivityId) (otherPath : ActivityPath),
        other.bytes.take 12 = id.bytes.take 12 → other.path? = some otherPath →
          otherPath.segments = path.segments) ∧
      ∀ again, path.encode? = some again → again.path? = some path := by
  refine ⟨id.pathByIndex_eq, fun path hpath => ?_⟩
  have hprocess := hasFoundProcess_of_path? hpath
  obtain ⟨-, hsegments, -⟩ := path?_eq_some_iff.mp hpath
  refine ⟨?_, hprocess, ?_, fun again => path.path?_of_encode?_of_process hprocess⟩
  · have hle := HalfByteCursor.length_le_remaining _ hsegments
    rw [HalfByteCursor.remaining, HalfBytePlace.length_pathBytes] at hle
    exact hle
  · intro other otherPath hbytes hother
    obtain ⟨-, hsegments', -⟩ := path?_eq_some_iff.mp hother
    have hsame : other.pathBytes = id.pathBytes := hbytes
    rw [hsame, hsegments, Option.some.injEq] at hsegments'
    exact hsegments'.symm

/-- The small number five behind a length, in process seven: the writer has a shorter layout
for it, in which it reads the same. -/
theorem any_identifier_read_safely_relaid :
    ∃ (id again : ActivityId) (path : ActivityPath), id.path? = some path ∧
      path.encode? = some again ∧ again.bytes ≠ id.bytes ∧ again.path? = some path := by
  have hread : (HalfByteCursor.mk (0xC0 :: 5 :: List.replicate 10 0) false).segments? =
      some [.plain 5] := by
    have hnext : (HalfByteCursor.mk (0xC0 :: 5 :: List.replicate 10 0) false).next =
        .segment (.plain 5) ⟨List.replicate 10 0, false⟩ := rfl
    rw [HalfByteCursor.segments?_of_segment hnext, HalfByteCursor.segments?_of_peek? (by decide)]
    rfl
  have hpath := path?_ofPath (by decide) hread (show (7 : UInt32) &&& 0xFFF00000 = 0 by decide)
  obtain ⟨again, hagain⟩ := Option.isSome_iff_exists.mp (by decide :
    (ActivityPath.encode? ⟨some 7, [.plain 5]⟩).isSome = true)
  refine ⟨_, again, ⟨some 7, [.plain 5]⟩, hpath, hagain, ?_,
    ((any_identifier_read_safely _).2 _ hpath).2.2.2 again hagain⟩
  have hfirst : (ActivityPath.encode? ⟨some 7, [.plain 5]⟩).map (·.bytes.head?) =
      some (some 0x50) := by decide
  intro hbytes
  rw [hagain, Option.map_some, hbytes] at hfirst
  exact absurd hfirst (by decide)

end ActivityId
end RuntimeTrace
