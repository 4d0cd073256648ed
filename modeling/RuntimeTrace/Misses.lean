/-!
# Correlation misses

Traces begin in the middle of things and lose events.  A stop without a start, a
detail of an unknown request, a start on top of an open start: none of these is
an error.  The event is dropped and counted, and the counts are reported.
-/

namespace RuntimeTrace

/-- Events that fitted nothing, by kind. -/
structure Misses where
  /-- Closing events with nothing open to close. -/
  orphanStops : Nat
  /-- Details of something that is not open. -/
  orphanDetails : Nat
  /-- Starts that met something already open. -/
  duplicateStarts : Nat
  /-- Binary payloads that are no event. -/
  undecodablePayloads : Nat
  deriving DecidableEq, Repr

namespace Misses

/-- No misses. -/
def none : Misses := ⟨0, 0, 0, 0⟩

/-- All misses together. -/
def total (m : Misses) : Nat :=
  m.orphanStops + m.orphanDetails + m.duplicateStarts + m.undecodablePayloads

/-- The misses of two components, kind by kind. -/
def add (m n : Misses) : Misses :=
  ⟨m.orphanStops + n.orphanStops, m.orphanDetails + n.orphanDetails,
    m.duplicateStarts + n.duplicateStarts, m.undecodablePayloads + n.undecodablePayloads⟩

/-- The misses of any number of components. -/
def sum (ms : List Misses) : Misses := ms.foldl add none

/-- One more orphan stop. -/
def orphanStop (m : Misses) : Misses := { m with orphanStops := m.orphanStops + 1 }

/-- One more orphan detail. -/
def orphanDetail (m : Misses) : Misses := { m with orphanDetails := m.orphanDetails + 1 }

/-- One more duplicate start. -/
def duplicateStart (m : Misses) : Misses := { m with duplicateStarts := m.duplicateStarts + 1 }

/-- One more undecodable payload. -/
def undecodable (m : Misses) : Misses :=
  { m with undecodablePayloads := m.undecodablePayloads + 1 }

/-- `m`, with one more duplicate start if a start met something open. -/
def duplicateStartIf (m : Misses) (met : Bool) : Misses := if met then m.duplicateStart else m

theorem duplicateStarts_duplicateStartIf (m : Misses) (met : Bool) :
    (m.duplicateStartIf met).duplicateStarts = m.duplicateStarts + met.toNat := by
  cases met <;> rfl

theorem orphanStops_duplicateStartIf (m : Misses) (met : Bool) :
    (m.duplicateStartIf met).orphanStops = m.orphanStops := by
  cases met <;> rfl

end Misses
end RuntimeTrace
