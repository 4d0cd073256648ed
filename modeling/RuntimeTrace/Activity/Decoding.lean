import RuntimeTrace.Activity.Id
import RuntimeTrace.Activity.Path

/-!
# Reading a path out of an identifier

Nothing marks an identifier as a path but its checksum, so the reader first asks
whether the checksum fits.  A producer may have folded its process id into the
checksum; when that id is not known, only the top twelve bits of the word are
compared, which a process id below `2 ^ 20` leaves alone.

The segments are then read half-byte by half-byte.  A `HalfByteCursor` is the
bytes still to be read and which half of the first is next, so there is no index
that could run past the end: a missing byte is an empty list.
-/

namespace RuntimeTrace

/-- Whether the checksum of an identifier fits its path bytes.  Process zero
stands for an unknown process. -/
def ActivityId.hasPathChecksum (id : ActivityId) (processId : UInt32) : Bool :=
  let expected := ActivityId.expectedChecksum id.pathBytes
  if processId = 0 then id.checksum &&& 0xFFF00000 == expected &&& 0xFFF00000
  else id.checksum == expected ^^^ processId || id.checksum == expected

/-- The bytes still to be read, and whether the low half of the first is next. -/
structure HalfByteCursor where
  rest : List UInt8
  low : Bool
  deriving DecidableEq, Repr

namespace HalfByteCursor

/-- Half-bytes still to be read. -/
def remaining (c : HalfByteCursor) : Nat := 2 * c.rest.length - if c.low then 1 else 0

/-- The next half-byte. -/
def peek? (c : HalfByteCursor) : Option Nat :=
  match c.rest with
  | [] => none
  | b :: _ => some (if c.low then b.toNat % 16 else b.toNat / 16)

/-- The cursor past the next half-byte. -/
def advance (c : HalfByteCursor) : HalfByteCursor :=
  if c.low then ⟨c.rest.tail, false⟩ else ⟨c.rest, true⟩

/-- Skips the zero byte after a value from 256 to 4095, which is there exactly
when more bytes follow and the next of them is zero and the one after is not. -/
def skipSpare (value : Nat) (bytes : List UInt8) : List UInt8 :=
  match bytes with
  | b :: c :: more =>
    if 0x100 ≤ value ∧ value ≤ 0xFFF ∧ b = 0 ∧ c ≠ 0 then c :: more else bytes
  | _ => bytes

/-- Reads the whole bytes that a length announces.  When the length stands in a
high half, the low half below it holds the top bits of the value. -/
def readValue? (c : HalfByteCursor) (length : Nat) : Option (UInt32 × HalfByteCursor) :=
  match c.rest with
  | [] => none
  | b :: bytes =>
    let width := length - 11
    if bytes.length < width then none
    else
      let top := if c.low then 0 else b.toNat % 16
      let value :=
        (top <<< (8 * width) + LittleEndian.value (bytes.take width)) % UInt32.size
      some (UInt32.ofNat value, ⟨skipSpare value (bytes.drop width), false⟩)

/-- What the next half-bytes say. -/
inductive Item where
  /-- The path ends here. -/
  | finish
  /-- No path reads like this. -/
  | malformed
  /-- One segment, and where the next one begins. -/
  | segment (s : Segment) (next : HalfByteCursor)

/-- A value that a length announces, as an item. -/
def valueItem (c : HalfByteCursor) (length : Nat) (overflow : Bool) : Item :=
  match c.readValue? length with
  | some (value, next) => .segment ⟨value, overflow⟩ next
  | none => .malformed

/-- Reads the next item. -/
def next (c : HalfByteCursor) : Item :=
  match c.peek? with
  | none => .finish
  | some 0 => .finish
  | some half =>
    if half ≤ 10 then .segment (Segment.plain (UInt32.ofNat half)) c.advance
    else if half = 11 then
      match c.advance.peek? with
      | some length => if 12 ≤ length then c.advance.valueItem length true else .malformed
      | none => .malformed
    else c.valueItem half false

theorem length_skipSpare_le (value : Nat) (bytes : List UInt8) :
    (skipSpare value bytes).length ≤ bytes.length := by
  unfold skipSpare
  split
  · split <;> simp
  · exact Nat.le_refl _

theorem remaining_advance_lt {c : HalfByteCursor} (h : c.rest ≠ []) :
    c.advance.remaining < c.remaining := by
  obtain ⟨rest, low⟩ := c
  cases rest with
  | nil => exact absurd rfl h
  | cons b bytes =>
    have hlength : (b :: bytes).length = bytes.length + 1 := List.length_cons
    cases low
    · show 2 * (b :: bytes).length - 1 < 2 * (b :: bytes).length - 0
      omega
    · show 2 * bytes.length - 0 < 2 * (b :: bytes).length - 1
      omega

theorem rest_ne_nil_of_peek? {c : HalfByteCursor} {n : Nat} (h : c.peek? = some n) :
    c.rest ≠ [] := by
  intro hc
  simp [peek?, hc] at h

theorem remaining_lt_of_valueItem {c : HalfByteCursor} {length : Nat} {overflow : Bool}
    {s : Segment} {c' : HalfByteCursor}
    (h : c.valueItem length overflow = .segment s c') : c'.remaining < c.remaining := by
  obtain ⟨rest, low⟩ := c
  cases rest with
  | nil => simp [valueItem, readValue?] at h
  | cons b bytes =>
    unfold valueItem readValue? at h
    simp only at h
    split at h
    · rename_i hval
      split at hval
      · exact absurd hval (by simp)
      · simp only [Option.some.injEq, Prod.mk.injEq] at hval
        simp only [Item.segment.injEq] at h
        rw [← h.2, ← hval.2]
        have hle := length_skipSpare_le
          (((if low then 0 else b.toNat % 16) <<< (8 * (length - 11)) +
            LittleEndian.value (bytes.take (length - 11))) % UInt32.size) (bytes.drop (length - 11))
        rw [List.length_drop] at hle
        simp only [remaining, List.length_cons]
        cases low <;> simp at hle ⊢ <;> omega
    · exact absurd h (by simp)

/-- **A segment takes at least one half-byte**, so reading segments ends. -/
theorem remaining_lt_of_next {c c' : HalfByteCursor} {s : Segment}
    (h : c.next = .segment s c') : c'.remaining < c.remaining := by
  unfold next at h
  split at h
  · exact absurd h (by simp)
  · exact absurd h (by simp)
  · rename_i half hpeek _
    have hne := rest_ne_nil_of_peek? ‹c.peek? = some half›
    have hadv := remaining_advance_lt hne
    split at h
    · simp only [Item.segment.injEq] at h
      rw [← h.2]
      exact hadv
    · split at h
      · split at h
        · split at h
          · exact Nat.lt_trans (remaining_lt_of_valueItem h) hadv
          · exact absurd h (by simp)
        · exact absurd h (by simp)
      · exact remaining_lt_of_valueItem h

/-- Reads segments to the end of the path. -/
def segments? (c : HalfByteCursor) : Option (List Segment) :=
  match h : c.next with
  | .finish => some []
  | .malformed => none
  | .segment s c' =>
    have : c'.remaining < c.remaining := remaining_lt_of_next h
    (c'.segments?).map (s :: ·)
termination_by c.remaining

end HalfByteCursor

namespace ActivityId

/-- The path that an identifier spells, if it is one. -/
def path? (id : ActivityId) : Option ActivityPath :=
  if id.hasPathChecksum 0 then
    match (HalfByteCursor.mk id.pathBytes false).segments? with
    | some segments =>
      let folded := id.checksum ^^^ expectedChecksum id.pathBytes
      some ⟨if folded = 0 then none else some folded, segments⟩
    | none => none
  else none

end ActivityId
end RuntimeTrace
