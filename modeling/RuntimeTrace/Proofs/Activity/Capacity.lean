import Mathlib.Data.Nat.Log
import RuntimeTrace.Proofs.Activity.RoundTrip

/-!
# What fits into twelve bytes

A path is refused when it does not fit, and whether it fits can be told by counting
half-bytes.  A small value takes one, a length and the bytes behind it take the more the
higher the half in which the length lands, and twenty-four is all there are.  The writer
does no such counting.  It knows the byte it is at, and tells the halves of that byte apart
by whether it is still zero.

## The count and the writer

`halves` is the count that a writer stands for: two for each finished byte, and one if the
byte in progress is not empty.  One segment moves the writer as it moves the count, and
fails with it (`halves_putSegment`); so a whole path does (`halves_putSegments`).

## Bytes in place

An identifier is sixteen bytes, and only the first twelve belong to the path.  A
`PathBuffer` is filled in place: a half-byte is added to the byte at its position, a run is
written one byte at a time, and a run that does not fit is found out only when it has
arrived at the end, with part of it written.  Here every write is checked.  A write behind
the twelve bytes would be the error `OutsidePath`, and there is none: the buffer goes
through the states of the writer (`PathWriter.inPlace`), whether or not the path fits, and
ends as the same identifier (`encodeInPlace_eq`).

Main statement: `encodes_within_budget`.
-/

namespace RuntimeTrace

/-- A byte that does not belong to the path is used. -/
structure OutsidePath where
  index : Nat
  deriving DecidableEq, Repr

/-! ## Filling a buffer -/

/-- The sixteen bytes of an identifier, filled in place up to a position. -/
structure PathBuffer where
  bytes : List UInt8
  position : Nat
  deriving DecidableEq, Repr

namespace PathBuffer

open PathWriter (capacity widthOf)

/-- Nothing written yet. -/
def empty : PathBuffer := ⟨List.replicate 16 0, 0⟩

/-- The byte at the position. -/
def current (b : PathBuffer) : UInt8 := b.bytes[b.position]?.getD 0

/-- The next byte. -/
def forward (b : PathBuffer) : PathBuffer := { b with position := b.position + 1 }

/-- Writes the byte at the position, which has to be one of the path. -/
def store (b : PathBuffer) (byte : UInt8) : Except OutsidePath PathBuffer :=
  if b.position < capacity then .ok { b with bytes := b.bytes.set b.position byte }
  else .error ⟨b.position⟩

/-- Writes a half-byte into the high half of an empty byte, or into the low half of another. -/
def putHalf (b : PathBuffer) (half : UInt8) : Except OutsidePath PathBuffer :=
  if b.current = 0 then b.store (half <<< 4)
  else (b.store (b.current ||| half)).map forward

/-- Writes the low bytes of a value one by one, until there is no room. -/
def putRun : Nat → UInt32 → PathBuffer → Except OutsidePath (Option PathBuffer)
  | 0, _, b => .ok (some b)
  | width + 1, value, b =>
    if capacity ≤ b.position then .ok none
    else (b.store value.toUInt8).bind fun b => putRun width (value >>> 8) b.forward

/-- Writes the length of a value, and then its bytes. -/
def putValue (b : PathBuffer) (value : UInt32) : Except OutsidePath (Option PathBuffer) :=
  (b.putHalf (UInt8.ofNat (11 + widthOf value))).bind fun b =>
    if b.position < capacity ∧ b.current ≠ 0 then
      if value < 4096 then
        (b.store ((0xC0 : UInt8) ||| (value >>> 8).toUInt8)).bind fun b =>
          putRun (widthOf value) (value &&& 0xFF) b.forward
      else putRun (widthOf value) value b.forward
    else putRun (widthOf value) value b

/-- Writes one segment, if it fits. -/
def putSegment (b : PathBuffer) (s : Segment) : Except OutsidePath (Option PathBuffer) :=
  if capacity ≤ b.position then .ok none
  else if s.overflow then
    if capacity ≤ b.position + 2 then .ok none
    else (b.putHalf 11).bind fun b => b.putValue s.value
  else if 1 ≤ s.value.toNat ∧ s.value.toNat ≤ 10 then
    (b.putHalf s.value.toUInt8).map some
  else b.putValue s.value

/-- Writes a list of segments, if they all fit. -/
def fill : PathBuffer → List Segment → Except OutsidePath (Option PathBuffer)
  | b, [] => .ok (some b)
  | b, s :: rest =>
    (b.putSegment s).bind fun next =>
      match next with
      | some b => b.fill rest
      | none => .ok none

end PathBuffer

/-- The identifier of a path, filled in place; the checksum is put behind the path last. -/
def ActivityPath.encodeInPlace (path : ActivityPath) : Except OutsidePath (Option ActivityId) :=
  (PathBuffer.empty.fill path.segments).map fun filled =>
    filled.bind fun b =>
      let bytes := b.bytes.take PathWriter.capacity
      let checksum := ActivityId.expectedChecksum bytes ^^^ path.processId.getD 0
      ActivityId.ofBytes? (bytes ++ LittleEndian.bytes 4 checksum.toNat)

/-! ## The buffer follows the writer -/

namespace PathWriter

open PathBuffer

/-- The buffer of a writer: zeros behind what is written. -/
def inPlace (w : PathWriter) : PathBuffer :=
  ⟨w.finished ++ w.current :: List.replicate (15 - w.position) 0, w.position⟩

@[simp] theorem position_inPlace (w : PathWriter) : w.inPlace.position = w.position := rfl

@[simp] theorem current_inPlace (w : PathWriter) : w.inPlace.current = w.current := by
  simp [inPlace, PathBuffer.current, position]

section Steps

variable {finished : List UInt8} {current : UInt8}

theorem store_inPlace (h : finished.length < capacity) (byte : UInt8) :
    (mk finished current).inPlace.store byte = .ok (mk finished byte).inPlace := by
  rw [store, if_pos (show (mk finished current).inPlace.position < capacity from h)]
  simp [inPlace, position]

/-- Behind the byte in progress lies an empty one. -/
theorem forward_inPlace (h : finished.length < capacity) :
    (mk finished current).inPlace.forward = (mk (finished ++ [current]) 0).inPlace := by
  have hzeros : 15 - finished.length = (15 - (finished.length + 1)) + 1 := by
    simp only [capacity] at h
    omega
  simp only [forward, inPlace, position, hzeros, List.replicate_succ, List.length_append,
    List.length_singleton, List.append_assoc, List.cons_append, List.nil_append]

theorem putHalf_inPlace (h : finished.length < capacity) (half : UInt8) :
    (mk finished current).inPlace.putHalf half =
      .ok ((mk finished current).putHalf half).inPlace := by
  rw [PathBuffer.putHalf, current_inPlace]
  by_cases hcurrent : current = 0
  · rw [if_pos hcurrent, putHalf_of_eq_zero hcurrent, store_inPlace h]
  · rw [if_neg hcurrent, putHalf_of_ne_zero hcurrent, store_inPlace h]
    exact congrArg Except.ok (forward_inPlace h)

/-- A run of bytes at a boundary. -/
theorem putBytes_boundary (finished : List UInt8) (width n : Nat) :
    (mk finished 0).putBytes width n =
      if finished.length + width ≤ capacity then
        some ⟨finished ++ LittleEndian.bytes width n, 0⟩ else none := rfl

theorem toNat_shiftRight_eight (value : UInt32) : (value >>> 8).toNat = value.toNat / 256 := by
  rw [UInt32.toNat_shiftRight, Nat.shiftRight_eq_div_pow]
  rfl

/-- **A run is written byte by byte**, or given up where the path ends. -/
theorem putRun_inPlace (h : finished.length ≤ capacity) (width : Nat) (value : UInt32) :
    putRun width value (mk finished 0).inPlace =
      .ok (((mk finished 0).putBytes width value.toNat).map inPlace) := by
  induction width generalizing finished value with
  | zero =>
    rw [putRun, putBytes_boundary, Nat.add_zero, if_pos h, LittleEndian.bytes, List.append_nil]
    rfl
  | succ width ih =>
    have hposition : (mk finished 0).inPlace.position = finished.length := rfl
    rw [putRun, hposition, putBytes_boundary]
    by_cases hfull : capacity ≤ finished.length
    · rw [if_pos hfull, if_neg (by omega)]
      rfl
    · have hroom : finished.length < capacity := Nat.lt_of_not_le hfull
      have hlength : (finished ++ [value.toUInt8]).length = finished.length + 1 :=
        List.length_append
      rw [if_neg hfull, store_inPlace hroom]
      show putRun width (value >>> 8) (mk finished value.toUInt8).inPlace.forward = _
      rw [forward_inPlace hroom, ih (by omega), toNat_shiftRight_eight, putBytes_boundary, hlength,
        Nat.add_right_comm, Nat.add_assoc, List.append_assoc]
      rfl

/-- The first byte of a value below 4096: a length of one, and the top four bits. -/
theorem twelve_or_high {value : UInt32} (h : value.toNat < 4096) :
    (0xC0 : UInt8) ||| (value >>> 8).toUInt8 = UInt8.ofNat (0xC0 + value.toNat / 256) := by
  have hhigh : ((value >>> 8).toUInt8).toNat = value.toNat / 256 := by
    rw [UInt32.toNat_toUInt8, toNat_shiftRight_eight]
    omega
  apply UInt8.toNat_inj.mp
  rw [toNat_or_half rfl _ (by omega), hhigh, UInt8.toNat_ofNat']
  show 0xC0 + value.toNat / 256 = _
  omega

theorem toNat_and_low (value : UInt32) : (value &&& 0xFF).toNat = value.toNat % 256 := by
  rw [UInt32.toNat_and]
  exact Nat.and_two_pow_sub_one_eq_mod value.toNat 8

/-- **A value is written in place** as the writer writes it. -/
theorem putValue_inPlace (h : finished.length < capacity) (value : UInt32) :
    (mk finished current).inPlace.putValue value =
      .ok (((mk finished current).putValue value).map inPlace) := by
  have hroom : ∀ byte : UInt8, (finished ++ [byte]).length ≤ capacity := by
    intro byte
    rw [List.length_append]
    exact h
  rw [PathBuffer.putValue, putHalf_inPlace h]
  show (if ((mk finished current).putHalf _).position < capacity ∧
    ((mk finished current).putHalf _).inPlace.current ≠ 0 then _ else _) = _
  rw [current_inPlace, PathWriter.putValue]
  by_cases hcurrent : current = 0
  · -- the length lands in a high half, and the low half of its byte is free
    have hlength := toNat_length value
    have hwidth := widthOf_le value
    have hshift := toNat_shiftLeft_four (UInt8.ofNat (11 + widthOf value)) (by omega)
    have hne : UInt8.ofNat (11 + widthOf value) <<< 4 ≠ 0 := ne_zero_of_toNat_pos (by omega)
    rw [putHalf_of_eq_zero hcurrent, if_pos ⟨h, hne⟩]
    dsimp only
    rw [if_neg hne]
    by_cases hsmall : value.toNat < 4096
    · have hlt : value < 4096 := UInt32.lt_iff_toNat_lt.mpr hsmall
      rw [if_pos hlt, if_pos hsmall, store_inPlace h, twelve_or_high hsmall, ← toNat_and_low]
      show putRun _ _ (mk finished _).inPlace.forward = _
      rw [forward_inPlace h]
      exact putRun_inPlace (hroom _) _ _
    · have hle : ¬ value < 4096 := fun hlt => hsmall (UInt32.lt_iff_toNat_lt.mp hlt)
      rw [if_neg hle, if_neg hsmall, forward_inPlace h]
      exact putRun_inPlace (hroom _) _ _
  · rw [putHalf_of_ne_zero hcurrent, if_neg (fun hc => hc.2 rfl)]
    dsimp only
    rw [if_pos rfl]
    exact putRun_inPlace (hroom _) _ _

end Steps

variable {w : PathWriter}

theorem position_putHalf_le (w : PathWriter) (half : UInt8) :
    (w.putHalf half).position ≤ w.position + 1 := by
  by_cases hcurrent : w.current = 0
  · rw [putHalf_of_eq_zero hcurrent]
    exact Nat.le_succ _
  · rw [putHalf_of_ne_zero hcurrent, position, List.length_append]
    exact Nat.le_refl _

/-- **A segment is written in place** as the writer writes it. -/
theorem putSegment_inPlace (s : Segment) :
    w.inPlace.putSegment s = .ok ((w.putSegment s).map inPlace) := by
  rw [PathBuffer.putSegment, PathWriter.putSegment, position_inPlace]
  split_ifs with hfull hoverflow hroom hsmall
  · rfl
  · rfl
  · have hnext : (w.putHalf 11).finished.length < capacity := by
      have hposition : (w.putHalf 11).finished.length ≤ w.position + 1 := position_putHalf_le w 11
      omega
    rw [putHalf_inPlace (Nat.lt_of_not_le hfull)]
    exact putValue_inPlace hnext s.value
  · rw [putHalf_inPlace (Nat.lt_of_not_le hfull)]
    rfl
  · exact putValue_inPlace (Nat.lt_of_not_le hfull) s.value

theorem fill_inPlace (segments : List Segment) :
    w.inPlace.fill segments = .ok ((w.putSegments segments).map inPlace) := by
  induction segments generalizing w with
  | nil => rfl
  | cons s rest ih =>
    rw [fill, putSegment_inPlace, putSegments]
    cases w.putSegment s with
    | none => rfl
    | some w' => exact ih

/-- The path bytes of a buffer are those of its writer. -/
theorem take_inPlace (w : PathWriter) : w.inPlace.bytes.take capacity = w.toBytes := by
  rw [inPlace, toBytes, List.take_append, List.take_append]
  congr 1
  cases hroom : capacity - w.finished.length with
  | zero => rfl
  | succ k =>
    simp only [capacity] at hroom
    simp only [List.take_succ_cons, List.take_replicate, position, capacity]
    congr 2
    omega

end PathWriter

/-- **Filled in place, the identifier is the same**, and no byte behind the path is written
before the checksum. -/
theorem ActivityPath.encodeInPlace_eq (path : ActivityPath) :
    path.encodeInPlace = .ok path.encode? := by
  have hempty : PathBuffer.empty = PathWriter.start.inPlace := rfl
  rw [encodeInPlace, encode?, hempty, PathWriter.fill_inPlace]
  cases PathWriter.start.putSegments path.segments with
  | none => rfl
  | some w =>
    show Except.ok (ActivityId.ofBytes? (w.inPlace.bytes.take PathWriter.capacity ++ _)) = _
    rw [PathWriter.take_inPlace, ActivityId.ofBytes?,
      dif_pos (by rw [List.length_append, w.length_toBytes, LittleEndian.length_bytes]; rfl)]
    rfl

/-! ## Counting half-bytes -/

/-- The bytes that a value needs: its digits to the base 256. -/
def bytesNeeded (value : UInt32) : Nat := Nat.log 256 value.toNat + 1

/-- The half-bytes a segment takes where `h` of them are taken. -/
def Segment.cost (s : Segment) (h : Nat) : Nat :=
  if s.overflow then if h % 2 = 0 then 2 + 2 * bytesNeeded s.value else 3 + 2 * bytesNeeded s.value
  else if 1 ≤ s.value.toNat ∧ s.value.toNat ≤ 10 then 1
  else if h % 2 = 0 then 2 + 2 * bytesNeeded s.value else 1 + 2 * bytesNeeded s.value

/-- A number of half-bytes, if there are as many. -/
def within? (h : Nat) : Option Nat := if 24 < h then none else some h

/-- The half-bytes that are taken after one more segment. -/
def charge? (h : Nat) (s : Segment) : Option Nat :=
  if 24 ≤ h then none
  else if s.overflow ∧ 20 ≤ h then none
  else within? (h + s.cost h)

/-- The half-bytes that are taken after a list of segments. -/
def budget? : Nat → List Segment → Option Nat
  | h, [] => some h
  | h, s :: rest => (charge? h s).bind fun h => budget? h rest

namespace PathWriter

/-- The writer gives a value the bytes that it needs. -/
theorem widthOf_eq (value : UInt32) : widthOf value = bytesNeeded value := by
  have hlt : value.toNat < 0x100000000 := value.toNat_lt
  have hlog : ∀ m, m ≠ 0 → 256 ^ m ≤ value.toNat → value.toNat < 256 ^ (m + 1) →
      Nat.log 256 value.toNat = m :=
    fun m hm hle hlt => (Nat.log_eq_iff (Or.inl hm)).mpr ⟨hle, hlt⟩
  unfold widthOf bytesNeeded
  split_ifs with h1 h2 h3
  · rw [Nat.log_of_lt h1]
  · rw [hlog 1 (by decide) (by omega) (by omega)]
  · rw [hlog 2 (by decide) (by omega) (by omega)]
  · rw [hlog 3 (by decide) (by omega) (by omega)]

/-- The half-bytes a writer has taken. -/
def halves (w : PathWriter) : Nat := 2 * w.position + if w.current = 0 then 0 else 1

theorem halves_boundary (finished : List UInt8) : (mk finished 0).halves = 2 * finished.length :=
  rfl

/-- A half-byte that is written counts for one. -/
theorem halves_putHalf (w : PathWriter) {half : UInt8} (hpos : 0 < half.toNat)
    (hlt : half.toNat < 16) : (w.putHalf half).halves = w.halves + 1 := by
  by_cases hcurrent : w.current = 0
  · have hshift := toNat_shiftLeft_four half hlt
    have hne : half <<< 4 ≠ 0 := ne_zero_of_toNat_pos (by omega)
    rw [putHalf_of_eq_zero hcurrent, halves, halves, if_neg hne, if_pos hcurrent]
    rfl
  · rw [putHalf_of_ne_zero hcurrent, halves_boundary, halves, if_neg hcurrent, List.length_append]
    rfl

/-- A run counts for two half-bytes a byte. -/
theorem halves_putBytes (finished : List UInt8) (width n : Nat) :
    ((mk finished 0).putBytes width n).map halves = within? (2 * (finished.length + width)) := by
  rw [putBytes_boundary, capacity, within?]
  split_ifs
  · omega
  · rw [Option.map_some, halves_boundary, List.length_append, LittleEndian.length_bytes]
  · rfl
  · omega

/-- **A value counts for its length and its bytes**, and for a free half-byte if the length
lands in a high half. -/
theorem halves_putValue (w : PathWriter) (value : UInt32) :
    (w.putValue value).map halves = within? (w.halves +
      if w.halves % 2 = 0 then 2 + 2 * bytesNeeded value else 1 + 2 * bytesNeeded value) := by
  have hlength := toNat_length value
  have hwidth := widthOf_le value
  -- either way the bytes begin behind the byte in progress
  have hnext : ∀ byte : UInt8, ∀ n, ((mk (w.finished ++ [byte]) 0).putBytes (widthOf value) n).map
      halves = within? (2 * w.position + 2 + 2 * widthOf value) := by
    intro byte n
    rw [halves_putBytes, List.length_append, List.length_singleton, position]
    congr 1
    omega
  rw [← widthOf_eq, putValue]
  by_cases hcurrent : w.current = 0
  · have hshift := toNat_shiftLeft_four (UInt8.ofNat (11 + widthOf value)) (by omega)
    have hne : UInt8.ofNat (11 + widthOf value) <<< 4 ≠ 0 := ne_zero_of_toNat_pos (by omega)
    have heven : w.halves = 2 * w.position := by rw [halves, if_pos hcurrent, Nat.add_zero]
    rw [putHalf_of_eq_zero hcurrent, heven, if_pos (Nat.mul_mod_right 2 _)]
    dsimp only
    rw [if_neg hne, ← Nat.add_assoc]
    split_ifs with hsmall
    · exact hnext _ _
    · exact hnext _ _
  · have hodd : w.halves = 2 * w.position + 1 := by rw [halves, if_neg hcurrent]
    have hmod : ¬ (2 * w.position + 1) % 2 = 0 := by omega
    rw [putHalf_of_ne_zero hcurrent, hodd, if_neg hmod, ← Nat.add_assoc]
    dsimp only
    rw [if_pos rfl]
    exact hnext _ _

/-- **One segment moves the writer as it moves the count**, and fails with it. -/
theorem halves_putSegment (w : PathWriter) (s : Segment) :
    (w.putSegment s).map halves = charge? w.halves s := by
  have hhalves : w.halves = 2 * w.position ∨ w.halves = 2 * w.position + 1 := by
    rw [halves]
    split_ifs
    · exact Or.inl rfl
    · exact Or.inr rfl
  have hfull : capacity ≤ w.position ↔ 24 ≤ w.halves := by
    rw [capacity]
    omega
  have hshort : capacity ≤ w.position + 2 ↔ 20 ≤ w.halves := by
    rw [capacity]
    omega
  simp only [putSegment, charge?, hfull, hshort, Segment.cost]
  by_cases hend : 24 ≤ w.halves
  · rw [if_pos hend, if_pos hend, Option.map_none]
  rw [if_neg hend, if_neg hend]
  by_cases hoverflow : s.overflow = true
  · rw [if_pos hoverflow, if_pos hoverflow]
    by_cases hroom : 20 ≤ w.halves
    · rw [if_pos hroom, if_pos ⟨hoverflow, hroom⟩, Option.map_none]
    · -- the prefix takes a half-byte, so the length lands in the other half
      rw [if_neg hroom, if_neg (fun h => hroom h.2), halves_putValue,
        halves_putHalf w (by decide) (by decide)]
      congr 1
      split_ifs <;> omega
  · have hplain : ¬ (s.overflow = true ∧ 20 ≤ w.halves) := fun h => hoverflow h.1
    rw [if_neg hoverflow, if_neg hoverflow, if_neg hplain]
    by_cases hsmall : 1 ≤ s.value.toNat ∧ s.value.toNat ≤ 10
    · have hhalf : (UInt8.ofNat s.value.toNat).toNat = s.value.toNat := by
        rw [UInt8.toNat_ofNat']
        omega
      rw [if_pos hsmall, if_pos hsmall, Option.map_some,
        halves_putHalf w (by omega) (by omega), within?, if_neg (by omega)]
    · rw [if_neg hsmall, if_neg hsmall, halves_putValue]

/-- **So does a list of segments.** -/
theorem halves_putSegments (w : PathWriter) (segments : List Segment) :
    (w.putSegments segments).map halves = budget? w.halves segments := by
  induction segments generalizing w with
  | nil => rfl
  | cons s rest ih =>
    rw [putSegments, budget?, ← halves_putSegment]
    cases w.putSegment s with
    | none => rfl
    | some w' => exact ih w'

/-- **Behind the half-bytes that are taken the path is zero.** -/
theorem getElem?_toBytes (w : PathWriter) {i : Nat} (hle : (w.halves + 1) / 2 ≤ i)
    (hlt : i < capacity) : w.toBytes[i]? = some 0 := by
  have htaken : w.finished.length ≤ i ∧ (i = w.finished.length → w.current = 0) := by
    rw [halves, position] at hle
    split_ifs at hle with hcurrent
    · exact ⟨by omega, fun _ => hcurrent⟩
    · exact ⟨by omega, fun h => by omega⟩
  rw [toBytes, List.getElem?_take_of_lt hlt, List.getElem?_append_right htaken.1]
  cases hindex : i - w.finished.length with
  | zero => rw [List.getElem?_cons_zero, htaken.2 (by omega)]
  | succ k =>
    rw [List.getElem?_cons_succ, List.getElem?_replicate, if_pos (by omega)]

end PathWriter

namespace ActivityPath

/-- **What fits, and what is written.**  A path is encoded exactly when its segments stay
within the twenty-four half-bytes; filled in place, no byte behind the twelve is written on
the way, whether it fits or not; and behind the half-bytes that are taken the path bytes are
zero. -/
theorem encodes_within_budget (path : ActivityPath) :
    (path.encode?.isSome = true ↔ (budget? 0 path.segments).isSome = true) ∧
    path.encodeInPlace = .ok path.encode? ∧
    ∀ id h, path.encode? = some id → budget? 0 path.segments = some h →
      ∀ i, (h + 1) / 2 ≤ i → i < 12 → id.bytes[i]? = some 0 := by
  have hcount : (PathWriter.start.putSegments path.segments).map PathWriter.halves =
      budget? 0 path.segments := PathWriter.halves_putSegments PathWriter.start path.segments
  refine ⟨?_, path.encodeInPlace_eq, ?_⟩
  · rw [← hcount, Option.isSome_map, encode?]
    cases PathWriter.start.putSegments path.segments with
    | none => rfl
    | some w => rfl
  · intro id h hid hh i hle hlt
    rw [← hcount] at hh
    obtain ⟨w, hw, rfl⟩ := Option.map_eq_some_iff.mp hh
    simp only [encode?, hw, Option.some.injEq] at hid
    subst hid
    have hpath : i < w.toBytes.length := by
      rw [w.length_toBytes]
      exact hlt
    exact (List.getElem?_append_left hpath).trans (w.getElem?_toBytes hle hlt)

/-- A small value, one behind the marker and one of two bytes take fourteen half-bytes, and the
five bytes behind them are zero. -/
theorem encodes_within_budget_mixed :
    let path : ActivityPath := ⟨none, [.plain 1, ⟨4000, true⟩, .plain 300]⟩
    budget? 0 path.segments = some 14 ∧
      ∃ id, path.encode? = some id ∧ path.encodeInPlace = .ok (some id) ∧
        ∀ i, 7 ≤ i → i < 12 → id.bytes[i]? = some 0 := by
  intro path
  have hbudget : budget? 0 path.segments = some 14 := by decide
  obtain ⟨hfits, hinPlace, hzero⟩ := encodes_within_budget path
  obtain ⟨id, hid⟩ := Option.isSome_iff_exists.mp (hfits.mpr (by rw [hbudget]; rfl))
  rw [hid] at hinPlace
  exact ⟨hbudget, id, hid, hinPlace, hzero id 14 hid hbudget⟩

end ActivityPath
end RuntimeTrace
