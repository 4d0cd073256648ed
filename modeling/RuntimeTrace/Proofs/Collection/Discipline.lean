import RuntimeTrace.Proofs.Collection.Pauses

/-!
# Which collection may be where

A tracker has a place for a background collection, one for any other, and one for a collection
that is held back.  The types do not say which collection may be in which place, nor which
places may be taken at the same time.  The steps see to that: in every state that inputs lead to
the tracker is `Disciplined`.

So some of what a step provides for does not happen.  A collection that is held back is never in
the way of another that the sizes end, since it would have to be held back while that one was
open; and the background collection is always of generation two, so that the history of
generation two which finds it ends it.  `Releases` lists what can come out of a step, with
the place it comes from, and the discipline strikes out one line of the list.

What holds of every collection is carried along on its own.  `Survives` says that a property
is had by each collection that starts and is not lost by what an event adds, and then all
collections of a run have it, those that are reported included (`report_of_survives`).  The first
suspension of a collection is one of its pauses, for every trace, and a collection ends no earlier
than it starts, if the clock does not go back: there the property speaks of the inputs
that are still to come.

Main statement: `collections_are_disciplined`.
-/

namespace RuntimeTrace

/-- The event shows that the restart of a collection held back was lost. -/
def CollectionEvent.letsGo : CollectionEvent → Bool
  | .triggered _ | .start .. | .suspendBegin _ => true
  | _ => false

namespace CollectionTracker

variable {t : CollectionTracker} {c : OpenCollection} {context : EventContext}
  {event : CollectionEvent} {r : ClosedCollection}

/-! ## What comes out of a step -/

/-- What an event gives away, and from which place. -/
inductive Releases (t : CollectionTracker) (context : EventContext) :
    CollectionEvent → ClosedCollection → Prop where
  /-- A collection is held back no longer, and goes without its pause. -/
  | lost {event : CollectionEvent} {c : OpenCollection} (hheld : t.held = some c)
      (hevent : event.letsGo = true) : Releases t context event c.report
  /-- A collection that is held back makes room for the next. -/
  | displaced {c next : OpenCollection} (hheld : t.held = some c)
      (hopen : t.ephemeral = some next) (sizes : GenerationSizes) :
      Releases t context (.heapStats sizes) c.report
  /-- The threads of the collection that is held back restart. -/
  | restarted {c : OpenCollection} (hheld : t.held = some c) :
      Releases t context .restartEnd (c.restart context.time t.suspension).report
  /-- The sizes end a collection. -/
  | sized {c : OpenCollection} (hopen : t.ephemeral = some c) (sizes : GenerationSizes) :
      Releases t context (.heapStats sizes) ((c.withSizes sizes).finishAt context.time)
  /-- The restart ends a collection. -/
  | resumed {c : OpenCollection} (hopen : t.ephemeral = some c) :
      Releases t context .restartEnd
        ((c.restart context.time t.suspension).finishAt context.time)
  /-- The history of generation two ends the background collection. -/
  | background {c : OpenCollection} (hopen : t.background = some c) (mechanisms : UInt32) :
      Releases t context (.globalHeapHistory 2 mechanisms)
        ((c.withMechanisms mechanisms).finishAt context.time)

theorem releases_takeHeapSizes {sizes : GenerationSizes}
    (h : (t.takeHeapSizes context.time sizes).1 = some r) :
    t.Releases context (.heapStats sizes) r := by
  cases he : t.ephemeral with
  | none =>
    cases hb : t.background with
    | none =>
      rw [takeHeapSizes_of_idle he hb] at h
      exact absurd h (by simp)
    | some c =>
      rw [takeHeapSizes_of_background he hb] at h
      exact absurd h (by simp)
  | some c =>
    cases hrule : t.closeRule with
    | restartEnd =>
      rw [takeHeapSizes_goesOn hrule he] at h
      exact absurd h (by simp)
    | heapStats =>
      by_cases hwaits : c.suspensionStart ≠ none ∨ t.suspension ≠ none
      · rw [takeHeapSizes_holds hrule he hwaits] at h
        obtain ⟨before, hheld, rfl⟩ := Option.map_eq_some_iff.mp h
        exact .displaced hheld he sizes
      · obtain ⟨hc, hs⟩ := not_or.mp hwaits
        rw [takeHeapSizes_ends hrule he (Classical.not_not.mp hc) (Classical.not_not.mp hs)] at h
        rw [← Option.some.inj h]
        exact .sized he sizes

theorem releases_takeGlobalHistory {condemned mechanisms : UInt32}
    (h : (t.takeGlobalHistory context.time condemned mechanisms).1 = some r) :
    t.Releases context (.globalHeapHistory condemned mechanisms) r := by
  cases he : t.ephemeral with
  | some c =>
    rw [takeGlobalHistory_of_ephemeral he] at h
    exact absurd h (by simp)
  | none =>
    cases hb : t.background with
    | none =>
      rw [takeGlobalHistory_of_idle he hb] at h
      exact absurd h (by simp)
    | some c =>
      rw [takeGlobalHistory_of_background he hb] at h
      split at h
      · rename_i hclose
        obtain ⟨rfl, -⟩ := hclose
        rw [← Option.some.inj h]
        exact .background hb mechanisms
      · exact absurd h (by simp)

theorem releases_takeRestart (h : (t.takeRestart context.time).1 = some r) :
    t.Releases context .restartEnd r := by
  cases hh : t.held with
  | some c =>
    rw [takeRestart_of_held hh] at h
    rw [← Option.some.inj h]
    exact .restarted hh
  | none =>
    cases he : t.ephemeral with
    | some c =>
      cases hrule : t.closeRule with
      | heapStats =>
        rw [takeRestart_goesOn hrule he hh] at h
        exact absurd h (by simp)
      | restartEnd =>
        rw [takeRestart_ends hrule he hh] at h
        rw [← Option.some.inj h]
        exact .resumed he
    | none =>
      cases hb : t.background with
      | none =>
        rw [takeRestart_of_idle he hb hh] at h
        exact absurd h (by simp)
      | some c =>
        rw [takeRestart_of_background he hb hh] at h
        exact absurd h (by simp)

/-- **What comes out of a step** is in the list. -/
theorem releases_of_step (h : (t.step context event).1 = some r) :
    t.Releases context event r := by
  have hlost : t.release.1 = some r → event.letsGo = true → t.Releases context event r := by
    intro hreleased hevent
    obtain ⟨c, hheld, rfl⟩ := Option.map_eq_some_iff.mp hreleased
    exact .lost hheld hevent
  cases event with
  | triggered reason => exact hlost h rfl
  | start count depth reason mode => exact hlost h rfl
  | suspendBegin reason => exact hlost h rfl
  | heapStats sizes => exact releases_takeHeapSizes h
  | perHeapHistory generations => exact absurd h (by simp [step])
  | globalHeapHistory condemned mechanisms => exact releases_takeGlobalHistory h
  | restartEnd => exact releases_takeRestart h

/-! ## What holds of every collection -/

/-- Every collection has a property, in whichever place. -/
structure All (t : CollectionTracker) (P : OpenCollection → Prop) : Prop where
  background : ∀ c, t.background = some c → P c
  ephemeral : ∀ c, t.ephemeral = some c → P c
  held : ∀ c, t.held = some c → P c

/-- A property that an event gives to the collection it starts and takes from none. -/
structure Survives (P : OpenCollection → Prop) (context : EventContext)
    (event : CollectionEvent) : Prop where
  opened : ∀ count depth reason mode suspension, event = .start count depth reason mode →
    P (opened context count depth reason mode suspension)
  withSizes : ∀ c sizes, P c → P (c.withSizes sizes)
  addHistory : ∀ c generations, P c → P (c.addHistory generations)
  withMechanisms : ∀ c mechanisms, P c → P (c.withMechanisms mechanisms)
  restart : ∀ c waiting, P c → P (c.restart context.time waiting)
  ended : ∀ c, P c → P (c.ended context.time)

variable {P : OpenCollection → Prop}

theorem all_reset (t : CollectionTracker) : t.reset.All P :=
  ⟨by simp [reset], by simp [reset], by simp [reset]⟩

theorem All.setBackground (h : t.All P) (hc : P c) :
    { t with background := some c }.All P :=
  ⟨by rintro _ ⟨⟩; exact hc, h.ephemeral, h.held⟩

theorem All.setEphemeral (h : t.All P) (hc : P c) : { t with ephemeral := some c }.All P :=
  ⟨h.background, by rintro _ ⟨⟩; exact hc, h.held⟩

/-- What the current collection is told changes only that one. -/
theorem All.modifyCurrent (h : t.All P) {f : OpenCollection → OpenCollection}
    (hf : ∀ c, P c → P (f c)) : (t.modifyCurrent f).All P := by
  unfold CollectionTracker.modifyCurrent
  split
  · rename_i c hc
    exact h.setEphemeral (hf c (h.ephemeral c hc))
  · refine ⟨fun c hc => ?_, h.ephemeral, h.held⟩
    obtain ⟨before, hbefore, rfl⟩ := Option.map_eq_some_iff.mp hc
    exact hf before (h.background before hbefore)

theorem All.openCollection (h : t.All P) {count depth reason mode : UInt32}
    (hopened : ∀ suspension, P (opened context count depth reason mode suspension)) :
    (t.openCollection context count depth reason mode).All P := by
  unfold CollectionTracker.openCollection
  dsimp only
  split
  · exact ⟨by rintro _ ⟨⟩; exact hopened _, h.ephemeral, h.held⟩
  · exact ⟨h.background, by rintro _ ⟨⟩; exact hopened _, h.held⟩

/-- Nothing is added where a collection is let go of. -/
theorem All.release (h : t.All P) : t.release.2.All P :=
  ⟨h.background, h.ephemeral, fun _ hc => absurd hc (by simp [CollectionTracker.release])⟩

theorem All.takeHeapSizes (h : t.All P) {sizes : GenerationSizes}
    (hP : Survives P context (.heapStats sizes)) :
    (t.takeHeapSizes context.time sizes).2.All P := by
  have hnone : ∀ c, (none : Option OpenCollection) = some c → P c := by simp
  cases he : t.ephemeral with
  | none =>
    cases hb : t.background with
    | none =>
      rw [takeHeapSizes_of_idle he hb]
      exact ⟨h.background, h.ephemeral, h.held⟩
    | some c =>
      rw [takeHeapSizes_of_background he hb]
      exact h.setBackground (hP.withSizes c sizes (h.background c hb))
  | some c =>
    have hsized : P (c.withSizes sizes) := hP.withSizes c sizes (h.ephemeral c he)
    cases hrule : t.closeRule with
    | restartEnd =>
      rw [takeHeapSizes_goesOn hrule he]
      exact h.setEphemeral hsized
    | heapStats =>
      by_cases hwaits : c.suspensionStart ≠ none ∨ t.suspension ≠ none
      · rw [takeHeapSizes_holds hrule he hwaits]
        exact ⟨h.background, hnone, by rintro _ ⟨⟩; exact hP.ended _ hsized⟩
      · obtain ⟨hc, hs⟩ := not_or.mp hwaits
        rw [takeHeapSizes_ends hrule he (Classical.not_not.mp hc) (Classical.not_not.mp hs)]
        exact ⟨h.background, hnone, h.held⟩

theorem All.takeGlobalHistory (h : t.All P) {condemned mechanisms : UInt32}
    (hP : Survives P context (.globalHeapHistory condemned mechanisms)) :
    (t.takeGlobalHistory context.time condemned mechanisms).2.All P := by
  cases he : t.ephemeral with
  | some c =>
    rw [takeGlobalHistory_of_ephemeral he]
    exact h.setEphemeral (hP.withMechanisms c mechanisms (h.ephemeral c he))
  | none =>
    cases hb : t.background with
    | none =>
      rw [takeGlobalHistory_of_idle he hb]
      exact ⟨h.background, h.ephemeral, h.held⟩
    | some c =>
      rw [takeGlobalHistory_of_background he hb]
      split
      · exact ⟨by simp, h.ephemeral, h.held⟩
      · exact h.setBackground (hP.withMechanisms c mechanisms (h.background c hb))

theorem All.takeRestart (h : t.All P) (hP : Survives P context .restartEnd) :
    (t.takeRestart context.time).2.All P := by
  have hnone : ∀ c, (none : Option OpenCollection) = some c → P c := by simp
  have hidle : { t with suspension := none }.All P := ⟨h.background, h.ephemeral, h.held⟩
  unfold CollectionTracker.takeRestart
  dsimp only
  split
  · exact ⟨h.background, h.ephemeral, hnone⟩
  · split
    · exact ⟨h.background, h.ephemeral, h.held⟩
    · have hcurrent := hidle.modifyCurrent fun c => hP.restart c t.suspension
      split
      · exact ⟨hcurrent.background, hnone, hcurrent.held⟩
      · exact hcurrent

/-- **What survives an event** still holds of every collection after it. -/
theorem All.step (h : t.All P) (hP : Survives P context event) :
    (t.step context event).2.All P := by
  cases event with
  | triggered reason => exact all_reset t.release.2
  | start count depth reason mode =>
    exact h.release.openCollection fun suspension => hP.opened _ _ _ _ suspension rfl
  | suspendBegin reason => exact ⟨h.background, h.ephemeral, h.release.held⟩
  | heapStats sizes => exact h.takeHeapSizes hP
  | perHeapHistory generations =>
    show (t.takeHeapHistory generations).All P
    unfold takeHeapHistory
    split
    · exact ⟨h.background, h.ephemeral, h.held⟩
    · exact h.modifyCurrent fun c => hP.addHistory c generations
  | globalHeapHistory condemned mechanisms => exact h.takeGlobalHistory hP
  | restartEnd => exact h.takeRestart hP

/-- What survives an event holds of the collection that the event gives away. -/
theorem Releases.exists_of_all (hr : t.Releases context event r) (h : t.All P)
    (hP : Survives P context event) : ∃ c, P c ∧ c.report = r := by
  cases hr with
  | lost hheld => exact ⟨_, h.held _ hheld, rfl⟩
  | displaced hheld => exact ⟨_, h.held _ hheld, rfl⟩
  | restarted hheld => exact ⟨_, hP.restart _ _ (h.held _ hheld), rfl⟩
  | sized hopen sizes => exact ⟨_, hP.ended _ (hP.withSizes _ _ (h.ephemeral _ hopen)), rfl⟩
  | resumed hopen => exact ⟨_, hP.ended _ (hP.restart _ _ (h.ephemeral _ hopen)), rfl⟩
  | background hopen mechanisms =>
    exact ⟨_, hP.ended _ (hP.withMechanisms _ _ (h.background _ hopen)), rfl⟩

section Run

variable {rule : CloseRule} {inputs : List CollectionInput}

/-- A property that may speak of the position, and survives the inputs of a trace, holds of
every collection at every position. -/
theorem all_before {P : Nat → OpenCollection → Prop}
    (hP : ∀ n context event, inputs[n]? = some (.event context event) →
      Survives (P n) context event)
    (hsucc : ∀ n c, P n c → P (n + 1) c) {n : Nat} (hn : n ≤ inputs.length) :
    (before rule inputs n).All (P n) := by
  refine Run.after_take_induction feed (P := fun n t => t.All (P n)) ?_ ?_ n hn
  · exact ⟨by simp [start], by simp [start], by simp [start]⟩
  · intro n x hx h
    have hnext : ∀ {t : CollectionTracker}, t.All (P n) → t.All (P (n + 1)) := fun h =>
      ⟨fun c hc => hsucc n c (h.background c hc), fun c hc => hsucc n c (h.ephemeral c hc),
        fun c hc => hsucc n c (h.held c hc)⟩
    cases x with
    | reset => exact all_reset _
    | event context event => exact hnext (h.step (hP n context event hx))

/-- **What survives the inputs of a trace** holds of every collection that is reported. -/
theorem report_of_survives {P : Nat → OpenCollection → Prop}
    (hP : ∀ n context event, inputs[n]? = some (.event context event) →
      Survives (P n) context event)
    (hsucc : ∀ n c, P n c → P (n + 1) c) {j : Nat}
    (hreported : (results rule inputs)[j]? = some (some r)) : ∃ c, P j c ∧ c.report = r := by
  rw [getElem?_results, Option.map_eq_some_iff] at hreported
  obtain ⟨x, hx, hr⟩ := hreported
  have hj : j ≤ inputs.length := Nat.le_of_lt (List.getElem?_eq_some_iff.mp hx).1
  cases x with
  | reset => exact absurd hr (by simp [feed])
  | event context event =>
    exact (releases_of_step hr).exists_of_all (all_before hP hsucc hj) (hP j context event hx)

end Run

/-! ## Pauses and ends -/

/-- The first suspension charged to a collection is one of its pauses. -/
def FirstOfPauses (c : OpenCollection) : Prop :=
  c.report.suspensionDuration.toNat ≤ c.report.pauseDuration.toNat

theorem FirstOfPauses.restart (h : FirstOfPauses c) (now : Instant) (waiting : Option Instant) :
    FirstOfPauses (c.restart now waiting) := by
  unfold OpenCollection.restart
  dsimp only
  split
  · rename_i i hi
    have hpause : (now.since i).toNat < UInt64.size := UInt64.toNat_lt_size _
    have hfirst : c.report.suspensionDuration.toNat < UInt64.size := UInt64.toNat_lt_size _
    unfold FirstOfPauses at h
    show (if c.suspendedOnce then c.report.suspensionDuration else now.since i).toNat ≤
      (c.report.pauseDuration.plus (now.since i)).toNat
    rw [Duration.toNat_plus]
    split <;> omega
  · exact h

/-- Only a restart charges anything. -/
theorem survives_firstOfPauses (context : EventContext) (event : CollectionEvent) :
    Survives FirstOfPauses context event where
  opened _ _ _ _ _ _ := Nat.le_refl 0
  withSizes _ _ h := h
  addHistory _ _ h := h
  withMechanisms _ _ h := h
  restart _ waiting h := h.restart context.time waiting
  ended _ h := h

end CollectionTracker

namespace CollectionInput

/-- The time of the event at position `n`. -/
def TimeAt (inputs : List CollectionInput) (n : Nat) (time : Instant) : Prop :=
  ∃ x, inputs[n]? = some x ∧ x.time? = some time

theorem Timely.le {inputs : List CollectionInput} (h : Timely inputs) {m n : Nat} {s t : Instant}
    (hs : TimeAt inputs m s) (ht : TimeAt inputs n t) (hmn : m ≤ n) : s.toNat ≤ t.toNat := by
  obtain ⟨x, hx, hs⟩ := hs
  obtain ⟨y, hy, ht⟩ := ht
  rcases Nat.lt_or_eq_of_le hmn with hlt | rfl
  · exact Run.rel_of_pairwise_filterMap h hlt hx hs hy ht
  · rw [hx, Option.some.injEq] at hy
    rw [← hy, hs, Option.some.injEq] at ht
    exact Nat.le_of_eq (congrArg Instant.toNat ht)

end CollectionInput

namespace CollectionTracker

variable {t : CollectionTracker} {c : OpenCollection} {context : EventContext}
  {event : CollectionEvent} {r : ClosedCollection} {rule : CloseRule}
  {inputs : List CollectionInput}

/-- A collection is not over before it starts, nor will it be if it ends at position `n` or
later. -/
structure EndsInTime (inputs : List CollectionInput) (n : Nat) (c : OpenCollection) : Prop where
  start_le_finish : c.report.start.toNat ≤ c.report.finish.toNat
  start_le : ∀ m time, n ≤ m → CollectionInput.TimeAt inputs m time →
    c.report.start.toNat ≤ time.toNat

theorem EndsInTime.restart {n : Nat} (h : EndsInTime inputs n c) (now : Instant)
    (waiting : Option Instant) : EndsInTime inputs n (c.restart now waiting) := by
  unfold OpenCollection.restart
  dsimp only
  split <;> exact ⟨h.start_le_finish, h.start_le⟩

theorem survives_endsInTime (htimely : CollectionInput.Timely inputs) {n : Nat}
    (hinput : inputs[n]? = some (.event context event)) :
    Survives (EndsInTime inputs n) context event := by
  have hnow : CollectionInput.TimeAt inputs n context.time := ⟨_, hinput, rfl⟩
  exact {
    opened := fun _ _ _ _ _ _ => ⟨Nat.le_refl _, fun m time hnm htime =>
      htimely.le hnow htime hnm⟩
    withSizes := fun _ _ h => ⟨h.start_le_finish, h.start_le⟩
    addHistory := fun _ _ h => ⟨h.start_le_finish, h.start_le⟩
    withMechanisms := fun _ _ h => ⟨h.start_le_finish, h.start_le⟩
    restart := fun _ waiting h => h.restart context.time waiting
    ended := fun _ h => ⟨h.start_le n context.time (Nat.le_refl n) hnow, h.start_le⟩ }

end CollectionTracker

/-- A collection of generation two that runs beside the program. -/
def ClosedCollection.IsBackground (r : ClosedCollection) : Prop :=
  r.generation = 2 ∧ r.mode = .background

theorem ClosedCollection.isBackground_iff (r : ClosedCollection) :
    r.IsBackground ↔ r.identity.kind = .background := by
  unfold IsBackground CollectionIdentity.kind identity
  simp

namespace CollectionTracker

variable {t : CollectionTracker} {context : EventContext} {event : CollectionEvent}
  {r : ClosedCollection} {rule : CloseRule}

/-- **Which collection may be where.** -/
structure Disciplined (t : CollectionTracker) (rule : CloseRule) : Prop where
  closeRule : t.closeRule = rule
  background : ∀ c, t.background = some c → c.report.IsBackground
  ephemeral : ∀ c, t.ephemeral = some c → ¬ c.report.IsBackground
  held : ∀ c, t.held = some c → ¬ c.report.IsBackground
  /-- No collection is held back while another is open beside the background one. -/
  apart : t.ephemeral = none ∨ t.held = none
  heldRule : t.held ≠ none → rule = .heapStats

/-- **Inputs lead to disciplined trackers.** -/
theorem disciplined_following (rule : CloseRule) (inputs : List CollectionInput) :
    (following rule inputs).Disciplined rule := by
  have hsound : (following rule inputs).places.Sound := by
    have h := (@waits_before rule inputs inputs.length (Nat.le_refl _)).1
    rwa [before, List.take_length] at h
  have hruled := ruled_following rule inputs
  have hplace : ∀ {o : Option OpenCollection} {c : OpenCollection}, o = some c →
      o.map OpenCollection.identity = some c.report.identity := by
    rintro _ c rfl
    rfl
  have hephemeral : ∀ {c : OpenCollection}, c.report.identity.kind = .ephemeral →
      ¬ c.report.IsBackground := by
    intro c hkind hbackground
    rw [(c.report.isBackground_iff).mp hbackground] at hkind
    exact absurd hkind (by simp)
  refine ⟨hruled.closeRule, ?_, ?_, ?_, ?_, hruled.held⟩
  · intro c hc
    exact (c.report.isBackground_iff).mpr (hsound.kind .background _ (hplace hc))
  · exact fun c hc => hephemeral (hsound.kind_of_ephemeral (hplace hc))
  · exact fun c hc => hephemeral (hsound.kind_of_held (hplace hc))
  · exact hsound.one.imp Option.map_eq_none_iff.mp Option.map_eq_none_iff.mp

/-- Sizes let go of nothing while a collection is held back, and leave it there. -/
theorem Disciplined.takeHeapSizes_of_held (h : t.Disciplined rule) {c : OpenCollection}
    (hheld : t.held = some c) (now : Instant) (sizes : GenerationSizes) :
    (t.takeHeapSizes now sizes).1 = none ∧ (t.takeHeapSizes now sizes).2.held = some c := by
  have he : t.ephemeral = none := by
    rcases h.apart with he | hnone
    · exact he
    · rw [hheld] at hnone
      exact absurd hnone (by simp)
  cases hb : t.background with
  | none =>
    rw [takeHeapSizes_of_idle he hb]
    exact ⟨rfl, hheld⟩
  | some b =>
    rw [takeHeapSizes_of_background he hb]
    exact ⟨rfl, hheld⟩

/-- **The history of generation two ends the background collection** that it finds. -/
theorem Disciplined.takeGlobalHistory_of_background (h : t.Disciplined rule) {c : OpenCollection}
    (he : t.ephemeral = none) (hb : t.background = some c) (now : Instant) (mechanisms : UInt32) :
    t.takeGlobalHistory now 2 mechanisms =
      (some ((c.withMechanisms mechanisms).finishAt now), { t with background := none }) := by
  rw [CollectionTracker.takeGlobalHistory_of_background he hb, if_pos ⟨rfl, (h.background c hb).1⟩]

/-- A background collection is given away by one event only. -/
theorem Releases.event_of_isBackground (hr : t.Releases context event r) (h : t.Disciplined rule)
    (hbackground : r.IsBackground) :
    ∃ mechanisms, event = .globalHeapHistory 2 mechanisms := by
  have hrestart : ∀ (c : OpenCollection) now waiting,
      (c.restart now waiting).report.IsBackground → c.report.IsBackground := by
    intro c now waiting hc
    rw [ClosedCollection.isBackground_iff] at hc ⊢
    rwa [← OpenCollection.identity, identity_restart] at hc
  cases hr with
  | lost hheld => exact absurd hbackground (h.held _ hheld)
  | displaced hheld => exact absurd hbackground (h.held _ hheld)
  | restarted hheld => exact absurd (hrestart _ _ _ hbackground) (h.held _ hheld)
  | @sized c hopen sizes =>
    exact absurd (show c.report.IsBackground from hbackground) (h.ephemeral c hopen)
  | resumed hopen => exact absurd (hrestart _ _ _ hbackground) (h.ephemeral _ hopen)
  | background hopen mechanisms => exact ⟨mechanisms, rfl⟩

theorem Disciplined.exists_history (h : t.Disciplined rule) {x : CollectionInput}
    (hout : (t.feed x).1 = some r) (hbackground : r.IsBackground) :
    ∃ context mechanisms, x = .event context (.globalHeapHistory 2 mechanisms) := by
  cases x with
  | reset => exact absurd hout (by simp [feed])
  | event context event =>
    obtain ⟨mechanisms, rfl⟩ := (releases_of_step hout).event_of_isBackground h hbackground
    exact ⟨context, mechanisms, rfl⟩

/-- The background collection is the current one if it is open, and no other is. -/
theorem of_currentKind?_eq_background (h : t.currentKind? = some .background) :
    t.ephemeral = none ∧ ∃ c, t.background = some c := by
  unfold currentKind? at h
  cases he : t.ephemeral with
  | some c =>
    rw [he] at h
    exact absurd h (by simp)
  | none =>
    cases hb : t.background with
    | none =>
      rw [he, hb] at h
      exact absurd h (by simp)
    | some c => exact ⟨rfl, c, rfl⟩

/-- **Collections are disciplined.**  Under either rule, and after every sequence of inputs:

* the place of the background collection has only background collections of generation two, the
  other places have none, no collection is held back while another is open beside the background
  one, and none is held back except under the rule that sizes end a collection;
* sizes never find a collection held back that would be in their way: they let go of none, and
  leave it where it is;
* the history of generation two ends the background collection if that is the current one.

Of the collections that were reported:

* background collections came out with a history of generation two, and with no other event;
* the first suspension is not longer than all pauses together;
* the end is not before the start, if the clock does not go back. -/
theorem collections_are_disciplined (rule : CloseRule) (inputs : List CollectionInput) :
    (following rule inputs).Disciplined rule ∧
    (∀ context sizes c, (following rule inputs).held = some c →
      ((following rule inputs).step context (.heapStats sizes)).1 = none ∧
        ((following rule inputs).step context (.heapStats sizes)).2.held = some c) ∧
    (∀ context mechanisms, (following rule inputs).currentKind? = some .background →
      ∃ c, (following rule inputs).background = some c ∧
        (following rule inputs).step context (.globalHeapHistory 2 mechanisms) =
          (some ((c.withMechanisms mechanisms).finishAt context.time),
            { following rule inputs with background := none })) ∧
    ∀ (j : Nat) (r : ClosedCollection), (results rule inputs)[j]? = some (some r) →
      (r.IsBackground → ∃ context mechanisms,
        inputs[j]? = some (.event context (.globalHeapHistory 2 mechanisms))) ∧
      r.suspensionDuration.toNat ≤ r.pauseDuration.toNat ∧
      (CollectionInput.Timely inputs → r.start.toNat ≤ r.finish.toNat) := by
  have hdisciplined := disciplined_following rule inputs
  refine ⟨hdisciplined, ?_, ?_, ?_⟩
  · intro context sizes c hheld
    exact hdisciplined.takeHeapSizes_of_held hheld context.time sizes
  · intro context mechanisms hcurrent
    obtain ⟨he, c, hb⟩ := of_currentKind?_eq_background hcurrent
    exact ⟨c, hb, hdisciplined.takeGlobalHistory_of_background he hb context.time mechanisms⟩
  · intro j r hreported
    refine ⟨?_, ?_, ?_⟩
    · intro hbackground
      rw [getElem?_results, Option.map_eq_some_iff] at hreported
      obtain ⟨x, hx, hout⟩ := hreported
      obtain ⟨context, mechanisms, rfl⟩ :=
        (disciplined_following rule (inputs.take j)).exists_history hout hbackground
      exact ⟨context, mechanisms, hx⟩
    · obtain ⟨c, hfirst, rfl⟩ := report_of_survives (P := fun _ => FirstOfPauses)
        (fun _ context event _ => survives_firstOfPauses context event) (fun _ _ h => h) hreported
      exact hfirst
    · intro htimely
      obtain ⟨c, hends, rfl⟩ := report_of_survives (P := EndsInTime inputs)
        (fun _ _ _ hinput => survives_endsInTime htimely hinput)
        (fun n _ h => ⟨h.start_le_finish, fun m time hnm => h.start_le m time (by omega)⟩)
        hreported
      exact hends.start_le_finish

/-- A collection is held back beside a background one; then its threads restart, and the history
ends the background one. -/
theorem collections_are_disciplined_besideBackground :
    let about (time : UInt64) : EventContext :=
      ⟨⟨time⟩, 7, 0, ActivityId.nil, ActivityId.nil, 0, none⟩
    let inputs : List CollectionInput :=
      [.event (about 1) (.start 1 2 0 1), .event (about 2) (.suspendBegin 0),
        .event (about 3) (.start 2 0 0 0), .event (about 4) (.heapStats GenerationSizes.zero)]
    let inFull : List CollectionInput :=
      inputs ++ [.event (about 6) .restartEnd, .event (about 9) (.globalHeapHistory 2 0)]
    let t := following .heapStats inputs
    t.Disciplined .heapStats ∧
      (∃ c, t.held = some c ∧ (t.step (about 5) (.heapStats GenerationSizes.zero)).1 = none ∧
        (t.step (about 5) (.heapStats GenerationSizes.zero)).2.held = some c) ∧
      t.currentKind? = some .background ∧
      (∃ c, t.background = some c ∧ t.step (about 5) (.globalHeapHistory 2 0) =
        (some ((c.withMechanisms 0).finishAt ⟨5⟩), { t with background := none })) ∧
      CollectionInput.Timely inFull ∧
      (∃ r, (results .heapStats inFull)[4]? = some (some r) ∧ r.pauseDuration = ⟨4⟩ ∧
        r.suspensionDuration.toNat ≤ r.pauseDuration.toNat ∧
        r.start.toNat ≤ r.finish.toNat) ∧
      ∃ r context mechanisms, (results .heapStats inFull)[5]? = some (some r) ∧
        r.IsBackground ∧ inFull[5]? = some (.event context (.globalHeapHistory 2 mechanisms)) := by
  intro about inputs inFull t
  obtain ⟨c, hheld⟩ : ∃ c, t.held = some c := ⟨_, rfl⟩
  obtain ⟨r, hr, hpause⟩ : ∃ r, (results .heapStats inFull)[4]? = some (some r) ∧
      r.pauseDuration = ⟨4⟩ := ⟨_, rfl, by decide⟩
  obtain ⟨r', hr', hbackground⟩ : ∃ r, (results .heapStats inFull)[5]? = some (some r) ∧
      r.IsBackground := ⟨_, rfl, rfl, rfl⟩
  have hcurrent : t.currentKind? = some .background := by decide
  have htimely : CollectionInput.Timely inFull := by decide
  obtain ⟨hdisciplined, hsizes, hhistory, -⟩ := collections_are_disciplined .heapStats inputs
  obtain ⟨-, -, -, hreports⟩ := collections_are_disciplined .heapStats inFull
  obtain ⟨-, hfirst, hends⟩ := hreports 4 r hr
  obtain ⟨context, mechanisms, hevent⟩ := (hreports 5 r' hr').1 hbackground
  exact ⟨hdisciplined, ⟨c, hheld, hsizes (about 5) _ c hheld⟩, hcurrent,
    hhistory (about 5) 0 hcurrent, htimely, ⟨r, hr, hpause, hfirst, hends htimely⟩,
    r', context, mechanisms, hr', hbackground, hevent⟩

end CollectionTracker
end RuntimeTrace
