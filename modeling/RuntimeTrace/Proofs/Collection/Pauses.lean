import RuntimeTrace.Proofs.Collection.Memory

/-!
# Pauses and suspensions

A tracker keeps instants at which threads were suspended: one waits for a collection,
and each collection may have brought one along.  A restart charges the time since one
of them.  If what is kept is always the suspension that goes on, and that once, every
restart charges that suspension or nothing, and the pauses reported in a trace are
together no longer than its suspensions.

`KeepsPresent` is this invariant.  Most inputs keep it at no cost: what was charged
stays, comes out or is forgotten, and no suspension is kept that was not kept before
(`Keeps`).  A suspension and a restart are treated on their own.

The restart is where it can fail.  It settles with one collection, and clears what it
finds there and what waits.  When the background collection brought the suspension
along and another collection is open, the restart finds the other one, and the
background collection keeps an instant that the next restart charges from.  `Settles` says
of a tracker that a restart does not find it so.

In a trace in which suspensions and restarts alternate, all restarts find the suspension they
end exactly if none of them comes while another collection is open and the background one is
suspended (`settles_iff`), which is read off the inputs (`OtherOpen`, `BackgroundSuspended`).
The bound, `pauses_le_suspensions`, has this hypothesis; without it the bound is false, by as
much as the time between two suspensions.
-/

namespace RuntimeTrace

/-! ## What is charged and what is kept -/

/-- The pauses charged to a collection so far. -/
def OpenCollection.paused (c : OpenCollection) : Nat := c.report.pauseDuration.toNat

/-- The pauses of a collection, if there is one. -/
def pausedOf (o : Option OpenCollection) : Nat := (o.map OpenCollection.paused).getD 0

/-- The pauses that a result reports. -/
def reportedPause (result : Option ClosedCollection) : Nat :=
  (result.map fun r => r.pauseDuration.toNat).getD 0

@[simp] theorem pausedOf_none : pausedOf none = 0 := rfl

@[simp] theorem pausedOf_some (c : OpenCollection) : pausedOf (some c) = c.paused := rfl

@[simp] theorem reportedPause_none : reportedPause none = 0 := rfl

@[simp] theorem reportedPause_finishAt (c : OpenCollection) (now : Instant) :
    reportedPause (some (c.finishAt now)) = c.paused := rfl

@[simp] theorem reportedPause_report (c : OpenCollection) :
    reportedPause (some c.report) = c.paused := rfl

@[simp] theorem reportedPause_map_report (o : Option OpenCollection) :
    reportedPause (o.map OpenCollection.report) = pausedOf o := by
  cases o <;> rfl

/-! ## A restart of one collection -/

namespace OpenCollection

/-- **A restart charges the time since one suspension at most**, the one the collection
brought along or the one that waits. -/
theorem paused_restart_le (c : OpenCollection) (now : Instant) {waiting : Option Instant}
    {time : Nat}
    (htime : ∀ i, c.suspensionStart = some i ∨ waiting = some i → now.toNat - i.toNat ≤ time) :
    (c.restart now waiting).paused ≤ c.paused + time := by
  have hplus : ∀ pause : Duration, (c.report.pauseDuration.plus pause).toNat ≤
      c.report.pauseDuration.toNat + pause.toNat := by
    intro pause
    rw [Duration.toNat_plus]
    exact Nat.min_le_left _ _
  unfold restart
  dsimp only
  cases hor : c.suspensionStart.or waiting with
  | none => exact Nat.le_add_right _ _
  | some i =>
    have hi : now.toNat - i.toNat ≤ time := by
      apply htime
      rcases Option.or_eq_some_iff.mp hor with h | ⟨-, h⟩
      · exact Or.inl h
      · exact Or.inr h
    have hcharge := hplus (now.since i)
    rw [Instant.toNat_since] at hcharge
    exact Nat.le_trans hcharge (Nat.add_le_add_left hi _)

end OpenCollection

/-! ## Suspensions in a trace -/

namespace CollectionInput

/-- When the suspension that goes on after an input began, given when the one before it
did. -/
def suspendedSince (since : Option Instant) : CollectionInput → Option Instant
  | .event context (.suspendBegin _) => some context.time
  | .event _ .restartEnd => none
  | _ => since

/-- The suspension that an input ends, as a length of time. -/
def suspendedTime (since : Option Instant) : CollectionInput → Nat
  | .event context .restartEnd => (since.map fun i => context.time.toNat - i.toNat).getD 0
  | _ => 0

/-- No suspension begins while one goes on, and none ends that did not begin. -/
def InTurn (since : Option Instant) : CollectionInput → Prop
  | .event _ (.suspendBegin _) => since = none
  | .event _ .restartEnd => since ≠ none
  | _ => True

instance decidableInTurn (since : Option Instant) : (x : CollectionInput) →
    Decidable (x.InTurn since)
  | .event _ (.suspendBegin _) => inferInstanceAs (Decidable (since = none))
  | .event _ .restartEnd => inferInstanceAs (Decidable (since ≠ none))
  | .event _ (.triggered _) | .event _ (.start ..) | .event _ (.heapStats _)
  | .event _ (.perHeapHistory _) | .event _ (.globalHeapHistory ..) | .reset => isTrue trivial

/-- Suspensions and restarts alternate in a trace. -/
def Alternate (since : Option Instant) : List CollectionInput → Prop
  | [] => True
  | x :: rest => x.InTurn since ∧ Alternate (x.suspendedSince since) rest

instance decidableAlternate : (since : Option Instant) → (inputs : List CollectionInput) →
    Decidable (Alternate since inputs)
  | _, [] => isTrue trivial
  | since, x :: rest =>
    haveI := decidableAlternate (x.suspendedSince since) rest
    inferInstanceAs (Decidable (x.InTurn since ∧ Alternate (x.suspendedSince since) rest))

/-- How long threads are suspended in a trace: the time from each suspension to its
restart. -/
def totalSuspension (since : Option Instant) : List CollectionInput → Nat
  | [] => 0
  | x :: rest => x.suspendedTime since + totalSuspension (x.suspendedSince since) rest

/-- When an event happened; an order to forget has no time. -/
def time? : CollectionInput → Option Instant
  | .event context _ => some context.time
  | .reset => none

/-- The clock does not go back in a trace. -/
def Timely (inputs : List CollectionInput) : Prop :=
  (inputs.filterMap time?).Pairwise fun earlier later => earlier.toNat ≤ later.toNat

instance (inputs : List CollectionInput) : Decidable (Timely inputs) :=
  inferInstanceAs (Decidable (List.Pairwise _ _))

end CollectionInput

namespace CollectionTracker

variable {t : CollectionTracker} {c c' : OpenCollection} {rule : CloseRule}
  {inputs : List CollectionInput}

/-- The pauses charged to collections that were not reported yet. -/
def charged (t : CollectionTracker) : Nat :=
  pausedOf t.background + pausedOf t.ephemeral + pausedOf t.held

/-- The suspensions that are kept: the one that waits, and those that collections
brought along.  In this order a suspension only ever moves to a neighbour, so what is
kept after a step is a part of the list before it. -/
def kept (t : CollectionTracker) : List Instant :=
  (suspensionOf t.background).toList ++ t.suspension.toList ++
    (suspensionOf t.ephemeral).toList ++ (suspensionOf t.held).toList

/-- A collection is held back only for a suspension. -/
def HoldsForSuspension (t : CollectionTracker) : Prop :=
  t.held = none ∨ t.suspension ≠ none ∨ suspensionOf t.held ≠ none

/-- What is kept of suspensions is the present one, if there is one, in one place. -/
structure KeepsPresent (t : CollectionTracker) (present : Option Instant) : Prop where
  isPresent : ∀ i ∈ t.kept, present = some i
  once : t.kept.length ≤ 1
  held : t.HoldsForSuspension

/-! ## Inputs that cost nothing -/

/-- A result and the next state, for which no time was charged and no suspension begun. -/
structure Keeps (t : CollectionTracker) (result : Option ClosedCollection × CollectionTracker) :
    Prop where
  charged : result.2.charged + reportedPause result.1 ≤ t.charged
  kept : List.Sublist result.2.kept t.kept
  held : t.HoldsForSuspension → result.2.HoldsForSuspension

theorem KeepsPresent.of_keeps {present : Option Instant} (h : t.KeepsPresent present)
    {result : Option ClosedCollection × CollectionTracker} (hresult : t.Keeps result) :
    result.2.KeepsPresent present ∧ result.2.charged + reportedPause result.1 ≤ t.charged := by
  refine ⟨⟨?_, ?_, hresult.held h.held⟩, hresult.charged⟩
  · exact fun i hi => h.isPresent i (hresult.kept.subset hi)
  · exact Nat.le_trans hresult.kept.length_le h.once

theorem keeps_misses (t : CollectionTracker) (misses : Misses) :
    t.Keeps (none, { t with misses := misses }) :=
  ⟨Nat.le_refl _, List.Sublist.refl _, id⟩

/-- What is learnt about a collection besides its pauses. -/
theorem keeps_background (hb : t.background = some c) (hpaused : c'.paused = c.paused)
    (hstart : c'.suspensionStart = c.suspensionStart) :
    t.Keeps (none, { t with background := some c' }) := by
  refine ⟨?_, ?_, id⟩
  · simp [charged, hb, hpaused]
  · simp [kept, hb, hstart]

theorem keeps_ephemeral (he : t.ephemeral = some c) (hpaused : c'.paused = c.paused)
    (hstart : c'.suspensionStart = c.suspensionStart) :
    t.Keeps (none, { t with ephemeral := some c' }) := by
  refine ⟨?_, ?_, id⟩
  · simp [charged, he, hpaused]
  · simp [kept, he, hstart]

theorem keeps_closeBackground (hb : t.background = some c) {r : ClosedCollection}
    (hr : reportedPause (some r) = c.paused) :
    t.Keeps (some r, { t with background := none }) := by
  refine ⟨?_, ?_, id⟩
  · simp only [charged, hb, hr, pausedOf_none, pausedOf_some]
    omega
  · simp [kept]

theorem keeps_closeEphemeral (he : t.ephemeral = some c) {r : ClosedCollection}
    (hr : reportedPause (some r) = c.paused) :
    t.Keeps (some r, { t with ephemeral := none }) := by
  refine ⟨?_, ?_, id⟩
  · simp only [charged, he, hr, pausedOf_none, pausedOf_some]
    omega
  · simp [kept]

/-- A collection is held back, and the one held back before it comes out. -/
theorem keeps_hold (he : t.ephemeral = some c) (hpaused : c'.paused = c.paused)
    (hstart : c'.suspensionStart = c.suspensionStart)
    (hwaits : c.suspensionStart ≠ none ∨ t.suspension ≠ none) :
    t.Keeps (t.held.map OpenCollection.report, { t with ephemeral := none, held := some c' }) := by
  refine ⟨?_, ?_, ?_⟩
  · simp only [charged, he, hpaused, reportedPause_map_report, pausedOf_none, pausedOf_some]
    omega
  · simp [kept, he, hstart]
  · intro _
    rcases hwaits with hwaits | hwaits
    · refine Or.inr (Or.inr ?_)
      show c'.suspensionStart ≠ none
      rw [hstart]
      exact hwaits
    · exact Or.inr (Or.inl hwaits)

theorem paused_opened (context : EventContext) (count depth reason mode : UInt32)
    (suspension : Option Instant) :
    (opened context count depth reason mode suspension).paused = 0 :=
  rfl

/-- A collection opens and takes the waiting suspension along. -/
theorem keeps_start (t : CollectionTracker) (context : EventContext)
    (count depth reason mode : UInt32) :
    t.Keeps (t.step context (.start count depth reason mode)) := by
  rw [step, release]
  dsimp only
  unfold openCollection
  split
  · refine ⟨?_, ?_, fun _ => Or.inl rfl⟩
    · simp only [charged, reportedPause_map_report, pausedOf_some, pausedOf_none, paused_opened]
      omega
    · simp [kept, opened]
  · refine ⟨?_, ?_, fun _ => Or.inl rfl⟩
    · simp only [charged, reportedPause_map_report, pausedOf_some, pausedOf_none, paused_opened]
      omega
    · simp [kept, opened]

/-- A trigger lets go of what is held back and throws the rest away. -/
theorem keeps_triggered (t : CollectionTracker) (context : EventContext) (reason : UInt32) :
    t.Keeps (t.step context (.triggered reason)) := by
  refine ⟨?_, ?_, fun _ => Or.inl rfl⟩
  · simp [step, release, reset, charged]
  · simp [step, release, reset, kept]

theorem keeps_reset (t : CollectionTracker) : t.Keeps (none, t.reset) := by
  refine ⟨?_, ?_, fun _ => Or.inl rfl⟩
  · simp [reset, charged]
  · simp [reset, kept]

theorem keeps_takeHeapSizes (t : CollectionTracker) (now : Instant) (sizes : GenerationSizes) :
    t.Keeps (t.takeHeapSizes now sizes) := by
  cases he : t.ephemeral with
  | none =>
    cases hb : t.background with
    | none =>
      rw [takeHeapSizes_of_idle he hb]
      exact t.keeps_misses _
    | some c =>
      rw [takeHeapSizes_of_background he hb]
      exact keeps_background hb rfl rfl
  | some c =>
    cases hrule : t.closeRule with
    | restartEnd =>
      rw [takeHeapSizes_goesOn hrule he]
      exact keeps_ephemeral he rfl rfl
    | heapStats =>
      by_cases hwaits : c.suspensionStart ≠ none ∨ t.suspension ≠ none
      · rw [takeHeapSizes_holds hrule he hwaits]
        exact keeps_hold he rfl rfl hwaits
      · obtain ⟨hc, hs⟩ := not_or.mp hwaits
        rw [takeHeapSizes_ends hrule he (Classical.not_not.mp hc) (Classical.not_not.mp hs)]
        exact keeps_closeEphemeral he rfl

theorem keeps_takeHeapHistory (t : CollectionTracker) (generations : List GenerationChange) :
    t.Keeps (none, t.takeHeapHistory generations) := by
  cases he : t.ephemeral with
  | some c =>
    rw [takeHeapHistory_of_ephemeral he]
    exact keeps_ephemeral he rfl rfl
  | none =>
    cases hb : t.background with
    | none =>
      rw [takeHeapHistory_of_idle he hb]
      exact t.keeps_misses _
    | some c =>
      rw [takeHeapHistory_of_background he hb]
      exact keeps_background hb rfl rfl

theorem keeps_takeGlobalHistory (t : CollectionTracker) (now : Instant)
    (condemned mechanisms : UInt32) : t.Keeps (t.takeGlobalHistory now condemned mechanisms) := by
  cases he : t.ephemeral with
  | some c =>
    rw [takeGlobalHistory_of_ephemeral he]
    exact keeps_ephemeral he rfl rfl
  | none =>
    cases hb : t.background with
    | none =>
      rw [takeGlobalHistory_of_idle he hb]
      exact t.keeps_misses _
    | some c =>
      rw [takeGlobalHistory_of_background he hb]
      split
      · exact keeps_closeBackground hb rfl
      · exact keeps_background hb rfl rfl

/-! ## A suspension and its restart -/

theorem mem_kept {i : Instant} :
    i ∈ t.kept ↔ suspensionOf t.background = some i ∨ t.suspension = some i ∨
      suspensionOf t.ephemeral = some i ∨ suspensionOf t.held = some i := by
  simp [kept]

/-- While no thread is suspended, no suspension is kept, and nothing is held back. -/
theorem keepsPresent_none_iff : t.KeepsPresent none ↔ t.kept = [] ∧ t.held = none := by
  constructor
  · intro h
    have hkept : t.kept = [] := by
      rw [List.eq_nil_iff_forall_not_mem]
      intro i hi
      exact absurd (h.isPresent i hi) (by simp)
    refine ⟨hkept, ?_⟩
    rcases h.held with hnone | hs | hh
    · exact hnone
    · obtain ⟨i, hi⟩ := Option.ne_none_iff_exists'.mp hs
      have hmem : i ∈ t.kept := mem_kept.mpr (Or.inr (Or.inl hi))
      rw [hkept] at hmem
      exact absurd hmem (by simp)
    · obtain ⟨i, hi⟩ := Option.ne_none_iff_exists'.mp hh
      have hmem : i ∈ t.kept := mem_kept.mpr (Or.inr (Or.inr (Or.inr hi)))
      rw [hkept] at hmem
      exact absurd hmem (by simp)
  · rintro ⟨hkept, hheld⟩
    refine ⟨?_, ?_, Or.inl hheld⟩
    · rw [hkept]
      exact fun i hi => absurd hi (by simp)
    · rw [hkept]
      exact Nat.zero_le 1

/-- A suspension is kept where it waits, and lets go of what was held back. -/
theorem keepsPresent_suspendBegin (h : t.KeepsPresent none) (context : EventContext)
    (reason : UInt32) :
    (t.step context (.suspendBegin reason)).2.KeepsPresent (some context.time) ∧
      (t.step context (.suspendBegin reason)).2.charged +
        reportedPause (t.step context (.suspendBegin reason)).1 ≤ t.charged := by
  obtain ⟨hkept, hheld⟩ := keepsPresent_none_iff.mp h
  have hafter : (t.step context (.suspendBegin reason)).2.kept = [context.time] := by
    simp only [kept, List.append_eq_nil_iff] at hkept
    obtain ⟨⟨⟨hbackground, -⟩, hephemeral⟩, -⟩ := hkept
    simp [step, release, kept, hbackground, hephemeral]
  refine ⟨⟨?_, ?_, Or.inl rfl⟩, ?_⟩
  · rw [hafter]
    simp
  · rw [hafter]
    exact Nat.le_refl 1
  · simp [step, release, charged]

/-- A restart finds what is kept: no collection is open that would take it from a
background collection that brought the suspension along. -/
def Settles (t : CollectionTracker) : Prop :=
  t.ephemeral = none ∨ suspensionOf t.background = none

instance (t : CollectionTracker) : Decidable t.Settles :=
  inferInstanceAs (Decidable (_ ∨ _))

theorem length_kept (t : CollectionTracker) :
    t.kept.length = (suspensionOf t.background).isSome.toNat + t.suspension.isSome.toNat +
      (suspensionOf t.ephemeral).isSome.toNat + (suspensionOf t.held).isSome.toNat := by
  have hlength : ∀ o : Option Instant, o.toList.length = o.isSome.toNat := by
    intro o
    cases o <;> rfl
  rw [kept, List.length_append, List.length_append, List.length_append, hlength, hlength, hlength,
    hlength]

/-- What is kept is kept once: a suspension for which a collection is held back is not
that of an open one. -/
theorem KeepsPresent.open_of_held {present : Option Instant} (h : t.KeepsPresent present)
    (hh : t.held = some c) :
    suspensionOf t.background = none ∧ suspensionOf t.ephemeral = none := by
  have honce : t.kept.length ≤ 1 := h.once
  rw [length_kept] at honce
  have hwaits : t.suspension.isSome.toNat + (suspensionOf t.held).isSome.toNat ≠ 0 := by
    rcases h.held with hnone | hs | hheld
    · rw [hh] at hnone
      exact absurd hnone (by simp)
    · rw [Option.isSome_iff_ne_none.mpr hs, Bool.toNat_true]
      omega
    · rw [Option.isSome_iff_ne_none.mpr hheld, Bool.toNat_true]
      omega
  have hnone : ∀ o : Option Instant, o.isSome.toNat = 0 → o = none := by
    intro o ho
    cases o with
    | none => rfl
    | some i => exact absurd ho (by simp)
  exact ⟨hnone _ (by omega), hnone _ (by omega)⟩

/-- **A restart charges the present suspension at most**, and leaves none. -/
theorem keepsPresent_takeRestart {since : Instant} (h : t.KeepsPresent (some since))
    (hsettles : t.Settles) (now : Instant) :
    (t.takeRestart now).2.KeepsPresent none ∧
      (t.takeRestart now).2.charged + reportedPause (t.takeRestart now).1 ≤
        t.charged + (now.toNat - since.toNat) := by
  have hpaused : ∀ c : OpenCollection, (∀ i, c.suspensionStart = some i → i ∈ t.kept) →
      (c.restart now t.suspension).paused ≤ c.paused + (now.toNat - since.toNat) := by
    intro c hc
    refine c.paused_restart_le now fun i hi => ?_
    have hmem : i ∈ t.kept := hi.elim (hc i) fun hs => mem_kept.mpr (Or.inr (Or.inl hs))
    have hsince : since = i := Option.some.inj (h.isPresent i hmem)
    exact Nat.le_of_eq (by rw [hsince])
  rw [keepsPresent_none_iff]
  cases hh : t.held with
  | some c =>
    obtain ⟨hbackground, hephemeral⟩ := h.open_of_held hh
    have hc : (c.restart now t.suspension).paused ≤ c.paused + (now.toNat - since.toNat) :=
      hpaused c fun i hi => mem_kept.mpr (Or.inr (Or.inr (Or.inr (by rw [hh]; exact hi))))
    rw [takeRestart_of_held hh]
    refine ⟨⟨?_, rfl⟩, ?_⟩
    · simp [kept, hbackground, hephemeral]
    · simp only [charged, hh, pausedOf_some, pausedOf_none, reportedPause_report]
      omega
  | none =>
    cases he : t.ephemeral with
    | some c =>
      have hbackground : suspensionOf t.background = none := by
        rcases hsettles with hnone | hnone
        · rw [he] at hnone
          exact absurd hnone (by simp)
        · exact hnone
      have hc : (c.restart now t.suspension).paused ≤ c.paused + (now.toNat - since.toNat) :=
        hpaused c fun i hi => mem_kept.mpr (Or.inr (Or.inr (Or.inl (by rw [he]; exact hi))))
      cases hrule : t.closeRule with
      | heapStats =>
        rw [takeRestart_goesOn hrule he hh]
        refine ⟨⟨?_, hh⟩, ?_⟩
        · simp [kept, hbackground, hh]
        · simp only [charged, he, pausedOf_some, reportedPause_none]
          omega
      | restartEnd =>
        rw [takeRestart_ends hrule he hh]
        refine ⟨⟨?_, hh⟩, ?_⟩
        · simp [kept, hbackground, hh]
        · simp only [charged, he, pausedOf_some, pausedOf_none, reportedPause_finishAt]
          omega
    | none =>
      cases hb : t.background with
      | none =>
        rw [takeRestart_of_idle he hb hh]
        refine ⟨⟨?_, hh⟩, ?_⟩
        · simp [kept, he, hb, hh]
        · simp [charged, he, hb, hh]
      | some c =>
        have hc : (c.restart now t.suspension).paused ≤ c.paused + (now.toNat - since.toNat) :=
          hpaused c fun i hi => mem_kept.mpr (Or.inl (by rw [hb]; exact hi))
        rw [takeRestart_of_background he hb hh]
        refine ⟨⟨?_, hh⟩, ?_⟩
        · simp [kept, he, hh]
        · simp only [charged, hb, pausedOf_some, reportedPause_none]
          omega

/-! ## Traces -/

/-- The pauses that results report, together. -/
def totalPause : List (Option ClosedCollection) → Nat
  | [] => 0
  | result :: rest => reportedPause result + totalPause rest

/-- **One input** charges no more than the suspension it ends, and keeps the invariant. -/
theorem keepsPresent_feed {since : Option Instant} {x : CollectionInput}
    (h : t.KeepsPresent since) (hturn : x.InTurn since)
    (hsettles : ∀ context, x = .event context .restartEnd → t.Settles) :
    (t.feed x).2.KeepsPresent (x.suspendedSince since) ∧
      (t.feed x).2.charged + reportedPause (t.feed x).1 ≤ t.charged + x.suspendedTime since := by
  cases x with
  | reset => exact h.of_keeps t.keeps_reset
  | event context event =>
    cases event with
    | triggered reason => exact h.of_keeps (t.keeps_triggered context reason)
    | start count depth reason mode =>
      exact h.of_keeps (t.keeps_start context count depth reason mode)
    | heapStats sizes => exact h.of_keeps (t.keeps_takeHeapSizes context.time sizes)
    | perHeapHistory generations => exact h.of_keeps (t.keeps_takeHeapHistory generations)
    | globalHeapHistory condemned mechanisms =>
      exact h.of_keeps (t.keeps_takeGlobalHistory context.time condemned mechanisms)
    | suspendBegin reason =>
      obtain rfl : since = none := hturn
      exact keepsPresent_suspendBegin h context reason
    | restartEnd =>
      obtain ⟨i, rfl⟩ := Option.ne_none_iff_exists'.mp hturn
      exact keepsPresent_takeRestart h (hsettles context rfl) context.time

/-- **Pauses of a run.**  What is reported in a run and what is charged at its end was
charged at its start, or was a suspension in it. -/
theorem charged_run {since : Option Instant} {inputs : List CollectionInput}
    (h : t.KeepsPresent since) (halternate : CollectionInput.Alternate since inputs)
    (hsettles : ∀ n context, inputs[n]? = some (.event context .restartEnd) →
      (Run.after feed t (inputs.take n)).Settles) :
    (Run.after feed t inputs).charged + totalPause (Run.outputs feed t inputs) ≤
      t.charged + CollectionInput.totalSuspension since inputs := by
  induction inputs generalizing t since with
  | nil => exact Nat.le_refl _
  | cons x rest ih =>
    obtain ⟨hturn, hrest⟩ := halternate
    have hfirst : ∀ context, x = .event context .restartEnd → t.Settles := fun context hx =>
      hsettles 0 context (congrArg some hx)
    obtain ⟨hpresent, hstep⟩ := keepsPresent_feed h hturn hfirst
    have hrun := ih hpresent hrest fun n context hx => hsettles (n + 1) context hx
    rw [Run.after_cons, Run.outputs_cons, totalPause, CollectionInput.totalSuspension]
    omega

/-- A new tracker keeps nothing. -/
theorem keepsPresent_start (rule : CloseRule) : (start rule).KeepsPresent none :=
  keepsPresent_none_iff.mpr ⟨rfl, rfl⟩

/-- What is kept is the present suspension before every input, as long as the restarts find
it. -/
theorem keepsPresent_before {n : Nat} (halternate : CollectionInput.Alternate none inputs)
    (hn : n ≤ inputs.length)
    (hsettles : ∀ m context, m < n → inputs[m]? = some (.event context .restartEnd) →
      (before rule inputs m).Settles) :
    ∃ present, (before rule inputs n).KeepsPresent present ∧
      CollectionInput.Alternate present (inputs.drop n) := by
  induction n with
  | zero => exact ⟨none, keepsPresent_start rule, halternate⟩
  | succ n ih =>
    have hx : inputs[n]? = some inputs[n] := List.getElem?_eq_getElem hn
    obtain ⟨present, hpresent, hrest⟩ := ih (Nat.le_of_succ_le hn)
      fun m context hm => hsettles m context (Nat.lt_succ_of_lt hm)
    rw [List.drop_eq_getElem_cons hn] at hrest
    obtain ⟨hturn, hrest⟩ := hrest
    have hfeed := keepsPresent_feed hpresent hturn fun context hrestart =>
      hsettles n context (Nat.lt_succ_self n) (hx.trans (congrArg some hrestart))
    refine ⟨_, ?_, hrest⟩
    rw [before, following, Run.after_take_succ feed (start rule) hx]
    exact hfeed.1

/-- **The suspension of a background collection** is kept as the trace says, as long as the
restarts find it. -/
theorem background_before_iff {n : Nat} (halternate : CollectionInput.Alternate none inputs)
    (hn : n ≤ inputs.length)
    (hsettles : ∀ m context, m < n → inputs[m]? = some (.event context .restartEnd) →
      (before rule inputs m).Settles) :
    suspensionOf (before rule inputs n).background ≠ none ↔ BackgroundSuspended rule inputs n := by
  refine Run.after_take_iff_since feed (Q := fun t => suspensionOf t.background ≠ none)
    (by simp [start]) hn ?_
  intro m x hm hx
  have hle : m ≤ inputs.length := Nat.le_of_lt (List.getElem?_eq_some_iff.mp hx).1
  obtain ⟨hruled, hsound⟩ := ruled_and_sound_before rule hx
  obtain ⟨present, hpresent, -⟩ := keepsPresent_before halternate hle
    fun k context hk => hsettles k context (Nat.lt_trans hk hm)
  -- a restart that finds the suspension finds its collection alone
  have halone : suspensionOf (before rule inputs m).background ≠ none → x.restarts →
      (before rule inputs m).ephemeral = none ∧ (before rule inputs m).held = none := by
    intro hkept hrestarts
    obtain ⟨context, rfl⟩ := CollectionInput.exists_restartEnd hrestarts
    refine ⟨(hsettles m context hm hx).resolve_right hkept, ?_⟩
    cases hh : (before rule inputs m).held with
    | none => rfl
    | some c => exact absurd (hpresent.open_of_held hh).1 hkept
  rw [hx, Option.any_some, Option.any_some, Option.any_some, ← suspension_before_iff rule hle,
    ← ephemeral_before_iff rule hle]
  refine (feed_memory hruled hsound x).2.2.trans (or_congr_right (and_congr_right fun hkept => ?_))
  have hrestarts := and_iff_left_of_imp (halone hkept)
  rw [hrestarts]
  simp [or_assoc]

/-- **Every restart finds the suspension it ends** exactly if none comes while another collection
is open and the background one has kept, since its start, the suspension that it brought along.
The trace tells, given that suspensions and restarts alternate. -/
theorem settles_iff (rule : CloseRule) (halternate : CollectionInput.Alternate none inputs) :
    (∀ n context, inputs[n]? = some (.event context .restartEnd) →
      (before rule inputs n).Settles) ↔
    ∀ n context, inputs[n]? = some (.event context .restartEnd) →
      ¬ (OtherOpen rule inputs n ∧ BackgroundSuspended rule inputs n) := by
  have hrestart : ∀ n context, inputs[n]? = some (.event context .restartEnd) →
      (∀ m context, m < n → inputs[m]? = some (.event context .restartEnd) →
        (before rule inputs m).Settles) →
      ((before rule inputs n).Settles ↔
        ¬ (OtherOpen rule inputs n ∧ BackgroundSuspended rule inputs n)) := by
    intro n context hx hearlier
    have hle : n ≤ inputs.length := Nat.le_of_lt (List.getElem?_eq_some_iff.mp hx).1
    rw [← ephemeral_before_iff rule hle, ← background_before_iff halternate hle hearlier,
      Classical.not_and_iff_not_or_not, Classical.not_not, Classical.not_not, Settles]
  constructor
  · intro h n context hx
    exact (hrestart n context hx fun m context _ => h m context).mp (h n context hx)
  · intro h n
    induction n using Nat.strongRecOn with
    | ind n ih =>
      intro context hx
      exact (hrestart n context hx fun m context hm => ih m hm context).mpr (h n context hx)

/-- **Pauses are not invented.**  Under either rule, and in every trace in which
suspensions and restarts alternate and no restart comes while another collection is open and
the background one has kept, since its start, the suspension that it brought along, the
pauses of all reported collections are together no longer than the suspensions. -/
theorem pauses_le_suspensions (rule : CloseRule) (inputs : List CollectionInput)
    (halternate : CollectionInput.Alternate none inputs)
    (hrestarts : ∀ n context, inputs[n]? = some (.event context .restartEnd) →
      ¬ (OtherOpen rule inputs n ∧ BackgroundSuspended rule inputs n)) :
    totalPause (results rule inputs) ≤ CollectionInput.totalSuspension none inputs := by
  have hrun := charged_run (keepsPresent_start rule) halternate
    ((settles_iff rule halternate).mpr hrestarts)
  have hstart : (start rule).charged = 0 := rfl
  rw [hstart] at hrun
  exact Nat.le_trans (Nat.le_add_left _ _) (by rwa [Nat.zero_add] at hrun)

/-- A background collection is over with its suspension when another one starts. -/
theorem pauses_le_suspensions_besideBackground :
    let about (time : UInt64) : EventContext :=
      ⟨⟨time⟩, 7, 0, ActivityId.nil, ActivityId.nil, 0, none⟩
    let inputs : List CollectionInput :=
      [.event (about 10) (.suspendBegin 0), .event (about 11) (.start 1 2 0 1),
        .event (about 15) .restartEnd, .event (about 20) (.suspendBegin 0),
        .event (about 21) (.start 2 0 0 2), .event (about 25) (.heapStats GenerationSizes.zero),
        .event (about 30) .restartEnd, .event (about 40) (.globalHeapHistory 2 0)]
    CollectionInput.Timely inputs ∧ CollectionInput.Alternate none inputs ∧
      (∀ n context, inputs[n]? = some (.event context .restartEnd) →
        ¬ (OtherOpen .restartEnd inputs n ∧ BackgroundSuspended .restartEnd inputs n)) ∧
      OtherOpen .restartEnd inputs 6 ∧ BackgroundSuspended .restartEnd inputs 2 ∧
      totalPause (results .restartEnd inputs) = 15 ∧
      totalPause (results .restartEnd inputs) ≤ CollectionInput.totalSuspension none inputs := by
  intro about inputs
  have halternate : CollectionInput.Alternate none inputs := by decide
  have hrestarts : ∀ n context, inputs[n]? = some (.event context .restartEnd) →
      ¬ (OtherOpen .restartEnd inputs n ∧ BackgroundSuspended .restartEnd inputs n) := by
    intro n context hx
    match n, hx with
    | 0, hx => cases hx
    | 1, hx => cases hx
    | 2, _ => decide
    | 3, hx => cases hx
    | 4, hx => cases hx
    | 5, hx => cases hx
    | 6, _ => decide
    | 7, hx => cases hx
    | n + 8, hx => cases hx
  exact ⟨by decide, halternate, hrestarts, by decide, by decide, by decide,
    pauses_le_suspensions .restartEnd inputs halternate hrestarts⟩

/-- A background collection brings the first suspension along, and another collection
is open when the threads restart. -/
def staleSuspension : List CollectionInput :=
  let about (time : UInt64) : EventContext :=
    ⟨⟨time⟩, 7, 0, ActivityId.nil, ActivityId.nil, 0, none⟩
  [.event (about 0) (.suspendBegin 0), .event (about 1) (.start 1 2 0 1),
    .event (about 2) (.start 2 0 0 0), .event (about 10) .restartEnd,
    .event (about 12) (.heapStats GenerationSizes.zero), .event (about 100) (.suspendBegin 0),
    .event (about 110) .restartEnd, .event (about 120) (.globalHeapHistory 2 0)]

/-- **The bound fails without its last hypothesis.**  The second restart charges the
background collection from the first suspension on, under either rule: 110 for
suspensions of 20 together. -/
theorem pauses_exceed_suspensions :
    CollectionInput.Timely staleSuspension ∧ CollectionInput.Alternate none staleSuspension ∧
      CollectionInput.totalSuspension none staleSuspension = 20 ∧
      ∀ rule, totalPause (results rule staleSuspension) = 110 := by
  refine ⟨by decide, by decide, by decide, ?_⟩
  intro rule
  cases rule with
  | heapStats => decide
  | restartEnd => decide

end CollectionTracker
end RuntimeTrace
