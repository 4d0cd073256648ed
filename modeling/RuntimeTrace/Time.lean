import RuntimeTrace.Binary64

/-!
# Instants and durations

The trace clock counts nanoseconds in sixty-four bits.  An instant and a duration
are different things --- instants are compared and subtracted, durations are
added up --- so they are different types over the same word.

Events may arrive out of order and sums may exceed the clock, so neither
subtraction nor addition wraps: a difference that would be negative is zero, and
a sum that would overflow stays at the last representable value.  The two
`toNat` equations say exactly that, and later arguments about time use nothing
else.

Seconds, milliseconds and microseconds are for display only.  Each is the count
of nanoseconds rounded to a double and then divided, so it carries two roundings.
-/

namespace RuntimeTrace

/-- A point on the trace clock, in nanoseconds. -/
structure Instant where
  nanos : UInt64
  deriving DecidableEq, Repr, Inhabited

/-- A span of time, in nanoseconds. -/
structure Duration where
  nanos : UInt64
  deriving DecidableEq, Repr, Inhabited

/-- The sum of two words, held at the largest word. -/
def saturatingAdd (a b : UInt64) : UInt64 :=
  if a.toNat + b.toNat < UInt64.size then a + b else 0xFFFFFFFFFFFFFFFF

/-- The difference of two words, held at zero. -/
def saturatingSub (a b : UInt64) : UInt64 :=
  if b.toNat ≤ a.toNat then a - b else 0

theorem toNat_saturatingAdd (a b : UInt64) :
    (saturatingAdd a b).toNat = min (a.toNat + b.toNat) (UInt64.size - 1) := by
  unfold saturatingAdd
  split
  · rename_i h
    rw [UInt64.toNat_add, Nat.mod_eq_of_lt h]
    omega
  · rename_i h
    have : (0xFFFFFFFFFFFFFFFF : UInt64).toNat = UInt64.size - 1 := by decide
    rw [this]
    omega

theorem toNat_saturatingSub (a b : UInt64) :
    (saturatingSub a b).toNat = a.toNat - b.toNat := by
  unfold saturatingSub
  split
  · rename_i h
    exact UInt64.toNat_sub_of_le _ _ (UInt64.le_iff_toNat_le.mpr h)
  · rename_i h
    have : (0 : UInt64).toNat = 0 := rfl
    rw [this]
    omega

/-- Nanoseconds as a double, divided by a unit. -/
def nanosIn (unit : Nat) (nanos : UInt64) : Binary64 :=
  (Binary64.ofNat nanos.toNat).divNat unit

namespace Instant

/-- Nanoseconds as a natural number. -/
def toNat (t : Instant) : Nat := t.nanos.toNat

/-- The time elapsed since an earlier instant, zero when it is in fact later. -/
def since (t earlier : Instant) : Duration := ⟨saturatingSub t.nanos earlier.nanos⟩

/-- The instant a duration later, held at the end of the clock. -/
def plus (t : Instant) (d : Duration) : Instant := ⟨saturatingAdd t.nanos d.nanos⟩

/-- Seconds since the clock started. -/
def seconds (t : Instant) : Binary64 := nanosIn 1000000000 t.nanos

/-- Milliseconds since the clock started. -/
def millis (t : Instant) : Binary64 := nanosIn 1000000 t.nanos

/-- Microseconds since the clock started. -/
def micros (t : Instant) : Binary64 := nanosIn 1000 t.nanos

/-- Seconds with three places. -/
def text (t : Instant) : String := t.seconds.fixed 3 ++ "s"

/-- The earlier of two instants. -/
def earlier (s t : Instant) : Instant := if t.nanos < s.nanos then t else s

end Instant

namespace Duration

/-- No time at all. -/
def zero : Duration := ⟨0⟩

/-- Nanoseconds as a natural number. -/
def toNat (d : Duration) : Nat := d.nanos.toNat

/-- The sum of two durations, held at the longest one. -/
def plus (d e : Duration) : Duration := ⟨saturatingAdd d.nanos e.nanos⟩

/-- The length in seconds. -/
def seconds (d : Duration) : Binary64 := nanosIn 1000000000 d.nanos

/-- The length in milliseconds. -/
def millis (d : Duration) : Binary64 := nanosIn 1000000 d.nanos

/-- The length in microseconds. -/
def micros (d : Duration) : Binary64 := nanosIn 1000 d.nanos

/-- A length of no nanoseconds. -/
def isZero (d : Duration) : Bool := d.nanos == 0

/-- A reported number of milliseconds, cut to whole nanoseconds.  Negative
numbers and not-a-numbers count as zero, and what exceeds the clock stays at its
end. -/
def ofMillis (ms : Binary64) : Duration :=
  if ms.isNaN || ms.isNegative then zero
  else if !ms.isFinite then ⟨0xFFFFFFFFFFFFFFFF⟩
  else ⟨(ms.mulNat 1000000).toUInt64⟩

/-- From a thousand milliseconds on, seconds with two places; below, milliseconds
with three. -/
def text (d : Duration) : String :=
  if (Binary64.ofNat 1000).bits ≤ d.millis.bits then d.seconds.fixed 2 ++ "s"
  else d.millis.fixed 3 ++ "ms"

end Duration

@[simp] theorem Instant.toNat_since (t earlier : Instant) :
    (t.since earlier).toNat = t.toNat - earlier.toNat :=
  toNat_saturatingSub _ _

@[simp] theorem Instant.toNat_plus (t : Instant) (d : Duration) :
    (t.plus d).toNat = min (t.toNat + d.toNat) (UInt64.size - 1) :=
  toNat_saturatingAdd _ _

@[simp] theorem Duration.toNat_plus (d e : Duration) :
    (d.plus e).toNat = min (d.toNat + e.toNat) (UInt64.size - 1) :=
  toNat_saturatingAdd _ _

end RuntimeTrace
