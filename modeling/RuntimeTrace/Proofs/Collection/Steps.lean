import RuntimeTrace.Collection

/-!
# What an event does to what is open

An event that does not name its collection is taken in one of three ways: no collection
is open and it is missed, it is of the collection that goes on beside a background one,
or it is of the background one.  The equations below say, for each event and each way,
what comes out and what the tracker is afterwards, so that an argument about a trace
follows the collection it is about and never looks into the step.
-/

namespace RuntimeTrace
namespace OpenCollection

/-- The collection with the sizes reported for it. -/
def withSizes (c : OpenCollection) (sizes : GenerationSizes) : OpenCollection :=
  { c with report := { c.report with heapSizes := sizes } }

/-- The collection with what its history says about compaction. -/
def withMechanisms (c : OpenCollection) (mechanisms : UInt32) : OpenCollection :=
  { c with report :=
    { c.report with isCompacting := mechanisms &&& CollectionTracker.compactionBit != 0 } }

/-- The collection, held back with its end fixed. -/
def ended (c : OpenCollection) (now : Instant) : OpenCollection :=
  { c with report := c.finishAt now }

end OpenCollection

namespace CollectionTracker

variable {t : CollectionTracker} {c : OpenCollection}

/-! ## No collection is open -/

theorem takeHeapSizes_of_idle (he : t.ephemeral = none) (hb : t.background = none) (now : Instant)
    (sizes : GenerationSizes) :
    t.takeHeapSizes now sizes = (none, { t with misses := t.misses.orphanDetail }) := by
  simp [takeHeapSizes, currentKind?, he, hb]

theorem takeHeapHistory_of_idle (he : t.ephemeral = none) (hb : t.background = none)
    (generations : List GenerationChange) :
    t.takeHeapHistory generations = { t with misses := t.misses.orphanDetail } := by
  simp [takeHeapHistory, currentKind?, he, hb]

theorem takeGlobalHistory_of_idle (he : t.ephemeral = none) (hb : t.background = none)
    (now : Instant) (condemned mechanisms : UInt32) :
    t.takeGlobalHistory now condemned mechanisms =
      (none, { t with misses := t.misses.orphanDetail }) := by
  simp [takeGlobalHistory, currentKind?, he, hb]

theorem takeRestart_of_idle (he : t.ephemeral = none) (hb : t.background = none)
    (hh : t.held = none) (now : Instant) :
    t.takeRestart now = (none, { t with suspension := none, misses := t.misses.orphanStop }) := by
  simp [takeRestart, currentKind?, he, hb, hh]

/-! ## A background collection is open, and no other -/

theorem takeHeapSizes_of_background (he : t.ephemeral = none) (hb : t.background = some c)
    (now : Instant) (sizes : GenerationSizes) :
    t.takeHeapSizes now sizes = (none, { t with background := some (c.withSizes sizes) }) := by
  simp [takeHeapSizes, currentKind?, modifyCurrent, he, hb, OpenCollection.withSizes]

theorem takeHeapHistory_of_background (he : t.ephemeral = none) (hb : t.background = some c)
    (generations : List GenerationChange) :
    t.takeHeapHistory generations = { t with background := some (c.addHistory generations) } := by
  simp [takeHeapHistory, currentKind?, modifyCurrent, he, hb]

theorem takeGlobalHistory_of_background (he : t.ephemeral = none) (hb : t.background = some c)
    (now : Instant) (condemned mechanisms : UInt32) :
    t.takeGlobalHistory now condemned mechanisms =
      if condemned = 2 ∧ c.report.generation = condemned then
        (some ((c.withMechanisms mechanisms).finishAt now), { t with background := none })
      else (none, { t with background := some (c.withMechanisms mechanisms) }) := by
  by_cases hclose : condemned = 2 ∧ c.report.generation = condemned
  · obtain ⟨rfl, hgeneration⟩ := hclose
    simp [takeGlobalHistory, currentKind?, modifyCurrent, he, hb, hgeneration,
      OpenCollection.withMechanisms]
  · rw [if_neg hclose]
    by_cases hcondemned : condemned = 2
    · have hgeneration : c.report.generation ≠ condemned := fun h => hclose ⟨hcondemned, h⟩
      simp [takeGlobalHistory, currentKind?, modifyCurrent, he, hb, hgeneration,
        OpenCollection.withMechanisms]
    · simp [takeGlobalHistory, currentKind?, modifyCurrent, he, hb, hcondemned,
        OpenCollection.withMechanisms]

theorem takeRestart_of_background (he : t.ephemeral = none) (hb : t.background = some c)
    (hh : t.held = none) (now : Instant) :
    t.takeRestart now =
      (none,
        { t with background := some (c.restart now t.suspension), suspension := none }) := by
  simp [takeRestart, currentKind?, modifyCurrent, he, hb, hh]

/-! ## Another collection is open -/

theorem takeHeapHistory_of_ephemeral (he : t.ephemeral = some c)
    (generations : List GenerationChange) :
    t.takeHeapHistory generations = { t with ephemeral := some (c.addHistory generations) } := by
  simp [takeHeapHistory, currentKind?, modifyCurrent, he]

theorem takeGlobalHistory_of_ephemeral (he : t.ephemeral = some c) (now : Instant)
    (condemned mechanisms : UInt32) :
    t.takeGlobalHistory now condemned mechanisms =
      (none, { t with ephemeral := some (c.withMechanisms mechanisms) }) := by
  simp [takeGlobalHistory, currentKind?, modifyCurrent, he, OpenCollection.withMechanisms]

/-- Under `restartEnd` the sizes are taken in, and the collection goes on. -/
theorem takeHeapSizes_goesOn (hrule : t.closeRule = .restartEnd) (he : t.ephemeral = some c)
    (now : Instant) (sizes : GenerationSizes) :
    t.takeHeapSizes now sizes = (none, { t with ephemeral := some (c.withSizes sizes) }) := by
  simp [takeHeapSizes, currentKind?, modifyCurrent, hrule, he, OpenCollection.withSizes]

/-- Under `heapStats` the sizes end a collection for which no thread is suspended. -/
theorem takeHeapSizes_ends (hrule : t.closeRule = .heapStats) (he : t.ephemeral = some c)
    (hc : c.suspensionStart = none) (hs : t.suspension = none) (now : Instant)
    (sizes : GenerationSizes) :
    t.takeHeapSizes now sizes =
      (some ((c.withSizes sizes).finishAt now), { t with ephemeral := none }) := by
  simp [takeHeapSizes, currentKind?, modifyCurrent, hrule, he, hc, hs, OpenCollection.withSizes]

/-- Under `heapStats` a collection for which threads are suspended is held back, in the
place of the one held back before. -/
theorem takeHeapSizes_holds (hrule : t.closeRule = .heapStats) (he : t.ephemeral = some c)
    (hc : c.suspensionStart ≠ none ∨ t.suspension ≠ none) (now : Instant)
    (sizes : GenerationSizes) :
    t.takeHeapSizes now sizes =
      (t.held.map OpenCollection.report,
        { t with ephemeral := none, held := some ((c.withSizes sizes).ended now) }) := by
  have hsuspended : ¬ (c.suspensionStart = none ∧ t.suspension = none) := fun h =>
    hc.elim (fun hne => hne h.1) fun hne => hne h.2
  simp [takeHeapSizes, currentKind?, modifyCurrent, release, hrule, he, hsuspended,
    OpenCollection.withSizes, OpenCollection.ended, OpenCollection.finishAt]

/-- The threads of the collection that is held back restart. -/
theorem takeRestart_of_held (hh : t.held = some c) (now : Instant) :
    t.takeRestart now =
      (some (c.restart now t.suspension).report, { t with held := none, suspension := none }) := by
  simp [takeRestart, hh]

/-- Under `restartEnd` the restart ends a collection. -/
theorem takeRestart_ends (hrule : t.closeRule = .restartEnd) (he : t.ephemeral = some c)
    (hh : t.held = none) (now : Instant) :
    t.takeRestart now =
      (some ((c.restart now t.suspension).finishAt now),
        { t with ephemeral := none, suspension := none }) := by
  simp [takeRestart, currentKind?, modifyCurrent, hrule, he, hh]

/-- Under `heapStats` a collection goes on when its threads restart. -/
theorem takeRestart_goesOn (hrule : t.closeRule = .heapStats) (he : t.ephemeral = some c)
    (hh : t.held = none) (now : Instant) :
    t.takeRestart now =
      (none, { t with ephemeral := some (c.restart now t.suspension), suspension := none }) := by
  simp [takeRestart, currentKind?, modifyCurrent, hrule, he, hh]

end CollectionTracker
end RuntimeTrace
