import RuntimeTrace.Proofs.Collection.Accounting
import RuntimeTrace.Proofs.Collection.Steps

/-!
# What a tracker of collections remembers

Which collection a restart settles with, and which suspension it charges, is decided by what the
tracker has kept of earlier inputs.  That can be said of the inputs alone.  A collection other
than a background one is open when one was started and nothing has ended it since, and what ends
it is for the rule to say (`OtherOpen`).  A suspension waits when it began and nothing has taken
it along or let go of it since (`SuspensionWaits`).  Both are what the tracker goes by, in every
trace (`ephemeral_before_iff`, `suspension_before_iff`).

A background collection that starts while a suspension waits brings it along, and it should be
over with the next restart (`BackgroundSuspended`).  Whether the tracker sees it so depends on the
restarts that came before, and is shown with them.

What each event does to the three is said once for each event, and from it for a step
(`feed_memory`).  It depends on the rule, which no input changes and under which alone a
collection is held back (`Ruled`).
-/

namespace RuntimeTrace

/-! ## What an input does to what is remembered -/

namespace CollectionInput

/-- The input starts a collection of a kind. -/
def starts (kind : CollectionKind) (x : CollectionInput) : Bool :=
  x.started?.any fun id => id.kind = kind

/-- Threads are suspended. -/
@[simp] def suspends : CollectionInput → Bool
  | .event _ (.suspendBegin _) => true
  | _ => false

/-- Threads restart. -/
@[simp] def restarts : CollectionInput → Bool
  | .event _ .restartEnd => true
  | _ => false

theorem exists_restartEnd {x : CollectionInput} (h : x.restarts) :
    ∃ context, x = .event context .restartEnd := by
  unfold restarts at h
  split at h
  · exact ⟨_, rfl⟩
  · exact absurd h (by simp)

/-- What is open is thrown away. -/
@[simp] def discards : CollectionInput → Bool
  | .event _ (.triggered _) | .reset => true
  | _ => false

/-- The history of a collection of generation two. -/
@[simp] def condemnsTwo : CollectionInput → Bool
  | .event _ (.globalHeapHistory condemned _) => condemned == 2
  | _ => false

/-- The input ends a collection that is not a background one, or throws it away. -/
@[simp] def endsOther : CloseRule → CollectionInput → Bool
  | .heapStats, .event _ (.heapStats _) => true
  | .restartEnd, .event _ .restartEnd => true
  | _, x => x.discards

/-- No suspension waits after the input, unless it begins one. -/
def settlesSuspension (x : CollectionInput) : Bool :=
  x.started?.isSome || x.restarts || x.discards

end CollectionInput

open CollectionInput (starts suspends restarts discards condemnsTwo endsOther settlesSuspension)

/-- A collection other than a background one is open: it was started, and was not ended since. -/
def OtherOpen (rule : CloseRule) (inputs : List CollectionInput) (n : Nat) : Prop :=
  Run.Since (fun i => inputs[i]?.any (starts .ephemeral)) (fun m => inputs[m]?.any (endsOther rule))
    n

/-- Threads were suspended, and since then they have not restarted, no collection has started, and
none was thrown away. -/
def SuspensionWaits (inputs : List CollectionInput) (n : Nat) : Prop :=
  Run.Since (fun i => inputs[i]?.any suspends) (fun m => inputs[m]?.any settlesSuspension) n

/-- A background collection started while a suspension waited.  Since then no threads have
restarted, it was neither replaced nor thrown away, and no history of generation two found it
alone. -/
def BackgroundSuspended (rule : CloseRule) (inputs : List CollectionInput) (n : Nat) : Prop :=
  Run.Since (fun i => inputs[i]?.any (starts .background) ∧ SuspensionWaits inputs i)
    (fun m => inputs[m]?.any (fun x => x.starts .background || x.discards || x.restarts) ∨
      inputs[m]?.any condemnsTwo ∧ ¬ OtherOpen rule inputs m) n

instance (rule : CloseRule) (inputs : List CollectionInput) (n : Nat) :
    Decidable (OtherOpen rule inputs n) :=
  inferInstanceAs (Decidable (Run.Since _ _ n))

instance (inputs : List CollectionInput) (n : Nat) : Decidable (SuspensionWaits inputs n) :=
  inferInstanceAs (Decidable (Run.Since _ _ n))

instance (rule : CloseRule) (inputs : List CollectionInput) (n : Nat) :
    Decidable (BackgroundSuspended rule inputs n) :=
  inferInstanceAs (Decidable (Run.Since _ _ n))

/-! ## What a tracker goes by -/

/-- The suspension that a collection, if there is one, brought along. -/
def suspensionOf (o : Option OpenCollection) : Option Instant :=
  o.bind OpenCollection.suspensionStart

@[simp] theorem suspensionOf_none : suspensionOf none = none := rfl

@[simp] theorem suspensionOf_some (c : OpenCollection) :
    suspensionOf (some c) = c.suspensionStart := rfl

namespace OpenCollection

@[simp] theorem suspensionStart_restart (c : OpenCollection) (now : Instant)
    (waiting : Option Instant) : (c.restart now waiting).suspensionStart = none := by
  unfold restart
  dsimp only
  split <;> rfl

end OpenCollection

namespace CollectionTracker

variable {t : CollectionTracker} {rule : CloseRule} {inputs : List CollectionInput}
  {context : EventContext}

/-! ## The rule -/

/-- The rule of a tracker, under which alone a collection is held back. -/
structure Ruled (t : CollectionTracker) (rule : CloseRule) : Prop where
  closeRule : t.closeRule = rule
  held : t.held ≠ none → rule = .heapStats

theorem Ruled.modifyCurrent (h : t.Ruled rule) (f : OpenCollection → OpenCollection) :
    (t.modifyCurrent f).Ruled rule := by
  unfold CollectionTracker.modifyCurrent
  split <;> exact ⟨h.closeRule, h.held⟩

theorem Ruled.release (h : t.Ruled rule) : t.release.2.Ruled rule :=
  ⟨h.closeRule, fun hne => absurd rfl hne⟩

theorem Ruled.openCollection (h : t.Ruled rule) (count depth reason mode : UInt32) :
    (t.openCollection context count depth reason mode).Ruled rule := by
  unfold CollectionTracker.openCollection
  dsimp only
  split <;> exact ⟨h.closeRule, h.held⟩

/-- Sizes are the only event that holds a collection back, and under one rule only. -/
theorem Ruled.takeHeapSizes (h : t.Ruled rule) (now : Instant) (sizes : GenerationSizes) :
    (t.takeHeapSizes now sizes).2.Ruled rule := by
  unfold CollectionTracker.takeHeapSizes
  split
  · exact ⟨h.closeRule, h.held⟩
  · have hsized := h.modifyCurrent fun c =>
      { c with report := { c.report with heapSizes := sizes } }
    dsimp only
    split
    · rename_i c hrule hc
      have hheapStats : rule = .heapStats := hsized.closeRule.symm.trans hrule
      split <;> exact ⟨hsized.closeRule, fun _ => hheapStats⟩
    · exact hsized

theorem Ruled.takeGlobalHistory (h : t.Ruled rule) (now : Instant)
    (condemned mechanisms : UInt32) :
    (t.takeGlobalHistory now condemned mechanisms).2.Ruled rule := by
  unfold CollectionTracker.takeGlobalHistory
  split
  · exact ⟨h.closeRule, h.held⟩
  · have hnoted := h.modifyCurrent fun c =>
      { c with report := { c.report with isCompacting := mechanisms &&& compactionBit != 0 } }
    dsimp only
    split
    · exact hnoted
    · split
      · split
        · exact ⟨hnoted.closeRule, hnoted.held⟩
        · exact hnoted
      · exact hnoted

theorem Ruled.takeRestart (h : t.Ruled rule) (now : Instant) :
    (t.takeRestart now).2.Ruled rule := by
  have hidle : { t with suspension := none }.Ruled rule := ⟨h.closeRule, h.held⟩
  unfold CollectionTracker.takeRestart
  dsimp only
  split
  · exact ⟨h.closeRule, fun hne => absurd rfl hne⟩
  · split
    · exact ⟨h.closeRule, h.held⟩
    · have hrestarted := hidle.modifyCurrent fun c => c.restart now t.suspension
      split
      · exact ⟨hrestarted.closeRule, hrestarted.held⟩
      · exact hrestarted

theorem Ruled.feed (h : t.Ruled rule) (x : CollectionInput) : (t.feed x).2.Ruled rule := by
  have hreset : ∀ {t : CollectionTracker}, t.Ruled rule → t.reset.Ruled rule := fun h =>
    ⟨h.closeRule, fun hne => absurd rfl hne⟩
  cases x with
  | reset => exact hreset h
  | event context event =>
    cases event with
    | triggered reason => exact hreset h.release
    | start count depth reason mode => exact h.release.openCollection count depth reason mode
    | suspendBegin reason => exact ⟨h.release.closeRule, h.release.held⟩
    | heapStats sizes => exact h.takeHeapSizes context.time sizes
    | perHeapHistory generations =>
      show (t.takeHeapHistory generations).Ruled rule
      unfold takeHeapHistory
      split
      · exact ⟨h.closeRule, h.held⟩
      · exact h.modifyCurrent _
    | globalHeapHistory condemned mechanisms =>
      exact h.takeGlobalHistory context.time condemned mechanisms
    | restartEnd => exact h.takeRestart context.time

theorem ruled_following (rule : CloseRule) (inputs : List CollectionInput) :
    (following rule inputs).Ruled rule := by
  have hrun : (before rule inputs inputs.length).Ruled rule :=
    Run.after_take_induction feed (P := fun _ t => t.Ruled rule)
      ⟨rfl, fun hne => absurd rfl hne⟩ (fun _ x _ h => h.feed x) inputs.length (Nat.le_refl _)
  rwa [before, List.take_length] at hrun

/-! ## One event at a time -/

/-- The sizes end the other collection under one rule, and no suspension. -/
theorem takeHeapSizes_memory (t : CollectionTracker) (now : Instant) (sizes : GenerationSizes) :
    ((t.takeHeapSizes now sizes).2.ephemeral ≠ none ↔
        t.ephemeral ≠ none ∧ t.closeRule ≠ .heapStats) ∧
      (t.takeHeapSizes now sizes).2.suspension = t.suspension ∧
      suspensionOf (t.takeHeapSizes now sizes).2.background = suspensionOf t.background := by
  cases he : t.ephemeral with
  | none =>
    cases hb : t.background with
    | none => simp [takeHeapSizes_of_idle he hb, he, hb]
    | some c => simp [takeHeapSizes_of_background he hb, he, OpenCollection.withSizes]
  | some c =>
    cases hrule : t.closeRule with
    | restartEnd => simp [takeHeapSizes_goesOn hrule he]
    | heapStats =>
      by_cases hwaits : c.suspensionStart ≠ none ∨ t.suspension ≠ none
      · simp [takeHeapSizes_holds hrule he hwaits]
      · obtain ⟨hc, hs⟩ := not_or.mp hwaits
        simp [takeHeapSizes_ends hrule he (Classical.not_not.mp hc) (Classical.not_not.mp hs)]

/-- Sizes before and after end nothing. -/
theorem takeHeapHistory_memory (t : CollectionTracker) (generations : List GenerationChange) :
    ((t.takeHeapHistory generations).ephemeral ≠ none ↔ t.ephemeral ≠ none) ∧
      (t.takeHeapHistory generations).suspension = t.suspension ∧
      suspensionOf (t.takeHeapHistory generations).background = suspensionOf t.background := by
  cases he : t.ephemeral with
  | some c => simp [takeHeapHistory_of_ephemeral he]
  | none =>
    cases hb : t.background with
    | none => simp [takeHeapHistory_of_idle he hb, he, hb]
    | some c => simp [takeHeapHistory_of_background he hb, he, OpenCollection.addHistory]

/-- What is in the place of the background collection is of generation two. -/
theorem generation_of_background (hsound : t.places.Sound) {c : OpenCollection}
    (hb : t.background = some c) : c.report.generation = 2 := by
  have hplace : t.places.background = some c.identity := congrArg (Option.map _) hb
  have hkind := hsound.kind .background c.identity hplace
  rw [CollectionIdentity.kind] at hkind
  split at hkind
  · rename_i htest
    rw [Bool.and_eq_true, beq_iff_eq] at htest
    exact htest.1
  · exact absurd hkind (by simp)

/-- The history of generation two ends a background collection that is alone. -/
theorem takeGlobalHistory_memory (hgeneration : ∀ c, t.background = some c →
    c.report.generation = 2) (now : Instant) (condemned mechanisms : UInt32) :
    ((t.takeGlobalHistory now condemned mechanisms).2.ephemeral ≠ none ↔ t.ephemeral ≠ none) ∧
      (t.takeGlobalHistory now condemned mechanisms).2.suspension = t.suspension ∧
      (suspensionOf (t.takeGlobalHistory now condemned mechanisms).2.background ≠ none ↔
        suspensionOf t.background ≠ none ∧ ¬ (condemned = 2 ∧ t.ephemeral = none)) := by
  cases he : t.ephemeral with
  | some c => simp [takeGlobalHistory_of_ephemeral he]
  | none =>
    cases hb : t.background with
    | none => simp [takeGlobalHistory_of_idle he hb, he, hb]
    | some c =>
      by_cases hcondemned : condemned = 2
      · simp [takeGlobalHistory_of_background he hb, he, hgeneration c hb, hcondemned]
      · simp [takeGlobalHistory_of_background he hb, he, hcondemned, OpenCollection.withMechanisms]

/-- The restart ends the other collection under the other rule.  It ends the suspension that
waits, and that of a background collection that is alone. -/
theorem takeRestart_memory (hone : t.ephemeral = none ∨ t.held = none) (now : Instant) :
    ((t.takeRestart now).2.ephemeral ≠ none ↔ t.ephemeral ≠ none ∧ t.closeRule ≠ .restartEnd) ∧
      (t.takeRestart now).2.suspension = none ∧
      (suspensionOf (t.takeRestart now).2.background ≠ none ↔
        suspensionOf t.background ≠ none ∧ ¬ (t.ephemeral = none ∧ t.held = none)) := by
  cases hh : t.held with
  | some c =>
    have he : t.ephemeral = none := hone.resolve_right (by simp [hh])
    simp [takeRestart_of_held hh, he]
  | none =>
    cases he : t.ephemeral with
    | some c =>
      cases hrule : t.closeRule with
      | heapStats => simp [takeRestart_goesOn hrule he hh]
      | restartEnd => simp [takeRestart_ends hrule he hh]
    | none =>
      cases hb : t.background with
      | none => simp [takeRestart_of_idle he hb hh, he, hb]
      | some c => simp [takeRestart_of_background he hb hh, he]

/-- A start opens a collection of its kind, which takes the waiting suspension along. -/
theorem start_memory (t : CollectionTracker) (context : EventContext)
    (count depth reason mode : UInt32) :
    let x : CollectionInput := .event context (.start count depth reason mode)
    ((t.feed x).2.ephemeral ≠ none ↔ x.starts .ephemeral ∨ t.ephemeral ≠ none) ∧
      (t.feed x).2.suspension = none ∧
      (suspensionOf (t.feed x).2.background ≠ none ↔ x.starts .background ∧ t.suspension ≠ none ∨
        suspensionOf t.background ≠ none ∧ ¬ x.starts .background) := by
  intro x
  have hkind := kind_started context count depth reason mode
  by_cases hbackground : startsBackground depth mode = true
  · simp [x, feed, step, release, openCollection, opened, starts, CollectionInput.started?,
      hbackground, hkind]
  · simp [x, feed, step, release, openCollection, opened, starts, CollectionInput.started?,
      hbackground, hkind]

/-- **One input** changes what is remembered as the inputs say.  A restart ends the suspension
of a background collection that it finds alone. -/
theorem feed_memory (h : t.Ruled rule) (hsound : t.places.Sound) (x : CollectionInput) :
    ((t.feed x).2.ephemeral ≠ none ↔
        x.starts .ephemeral ∨ t.ephemeral ≠ none ∧ ¬ x.endsOther rule) ∧
      ((t.feed x).2.suspension ≠ none ↔
        x.suspends ∨ t.suspension ≠ none ∧ ¬ x.settlesSuspension) ∧
      (suspensionOf (t.feed x).2.background ≠ none ↔
        x.starts .background ∧ t.suspension ≠ none ∨ suspensionOf t.background ≠ none ∧
          ¬ (x.starts .background ∨ x.discards ∨
            x.restarts ∧ t.ephemeral = none ∧ t.held = none ∨
            x.condemnsTwo ∧ t.ephemeral = none)) := by
  obtain ⟨rfl, -⟩ := h
  have hone : t.ephemeral = none ∨ t.held = none :=
    hsound.one.imp Option.map_eq_none_iff.mp Option.map_eq_none_iff.mp
  cases x with
  | reset => simp [feed, reset, starts, CollectionInput.started?, settlesSuspension]
  | event context event =>
    cases event with
    | triggered reason =>
      simp [feed, step, release, reset, starts, CollectionInput.started?, settlesSuspension]
    | start count depth reason mode =>
      obtain ⟨he, hs, hb⟩ := t.start_memory context count depth reason mode
      rw [he, hs, hb]
      simp [settlesSuspension, CollectionInput.started?]
    | suspendBegin reason => simp [feed, step, release, starts, CollectionInput.started?]
    | heapStats sizes =>
      obtain ⟨he, hs, hb⟩ := t.takeHeapSizes_memory context.time sizes
      rw [feed, step, he, hs, hb]
      cases t.closeRule with
      | heapStats => simp [starts, CollectionInput.started?, settlesSuspension]
      | restartEnd => simp [starts, CollectionInput.started?, settlesSuspension]
    | perHeapHistory generations =>
      obtain ⟨he, hs, hb⟩ := t.takeHeapHistory_memory generations
      rw [feed, step, he, hs, hb]
      simp [starts, CollectionInput.started?, settlesSuspension]
    | globalHeapHistory condemned mechanisms =>
      obtain ⟨he, hs, hb⟩ := takeGlobalHistory_memory
        (fun _ => generation_of_background hsound) context.time condemned mechanisms
      rw [feed, step, he, hs, hb]
      simp [starts, CollectionInput.started?, settlesSuspension]
    | restartEnd =>
      obtain ⟨he, hs, hb⟩ := takeRestart_memory hone context.time
      rw [feed, step, he, hs, hb]
      cases t.closeRule with
      | heapStats => simp [starts, CollectionInput.started?, settlesSuspension]
      | restartEnd => simp [starts, CollectionInput.started?, settlesSuspension]

/-! ## What is remembered, read off the trace -/

theorem ruled_and_sound_before (rule : CloseRule) {m : Nat} {x : CollectionInput}
    (hx : inputs[m]? = some x) :
    (before rule inputs m).Ruled rule ∧ (before rule inputs m).places.Sound :=
  ⟨ruled_following rule (inputs.take m),
    (waits_before (Nat.le_of_lt (List.getElem?_eq_some_iff.mp hx).1)).1⟩

/-- **The other collection** is open when it was started and not ended since. -/
theorem ephemeral_before_iff (rule : CloseRule) {n : Nat} (hn : n ≤ inputs.length) :
    (before rule inputs n).ephemeral ≠ none ↔ OtherOpen rule inputs n := by
  refine Run.after_take_iff_since feed (Q := fun t => t.ephemeral ≠ none) (by simp [start]) hn ?_
  intro m x _ hx
  obtain ⟨hruled, hsound⟩ := ruled_and_sound_before rule hx
  rw [hx, Option.any_some]
  exact (feed_memory hruled hsound x).1

/-- **A suspension** waits when it began and was not settled since. -/
theorem suspension_before_iff (rule : CloseRule) {n : Nat} (hn : n ≤ inputs.length) :
    (before rule inputs n).suspension ≠ none ↔ SuspensionWaits inputs n := by
  refine Run.after_take_iff_since feed (Q := fun t => t.suspension ≠ none) (by simp [start]) hn ?_
  intro m x _ hx
  obtain ⟨hruled, hsound⟩ := ruled_and_sound_before rule hx
  rw [hx, Option.any_some]
  exact (feed_memory hruled hsound x).2.1

end CollectionTracker
end RuntimeTrace
