import RuntimeTrace.Proofs.Collection.Accounting
import RuntimeTrace.Proofs.Collection.Steps

/-!
# The two rules agree on complete traces

The rules differ in one thing: what the report of sizes and the restart do to an open
collection other than a background one.  Anything else a tracker does without looking
at its rule (`feed_under`).

A trace in which every such collection is reported in full, with its threads suspended
before it and restarted after its sizes, gives the rules no occasion to come apart for
longer than one event.  Under `heapStats` the sizes end the collection and it is held
back; under `restartEnd` it stays open; and the restart, which comes next, charges the
same pause to the same collection in both and lets go of it.  What is left is the same
state again, and of the two reports only the end differs.

Such a trace is a list of stretches (`Stretch`), cut where no collection other than a
background one is open (`Quiet`).  The proof is an induction over the stretches, and
within a stretch a run of one tracker that stands for both.
-/

namespace RuntimeTrace

/-! ## Complete traces -/

/-- A report of what a collection did, which ends a background collection at most. -/
inductive HistoryReport where
  | generations (context : EventContext) (changes : List GenerationChange)
  | global (context : EventContext) (condemned mechanisms : UInt32)

/-- The event of a report. -/
def HistoryReport.input : HistoryReport → CollectionInput
  | .generations context changes => .event context (.perHeapHistory changes)
  | .global context condemned mechanisms => .event context (.globalHeapHistory condemned mechanisms)

/-- All that is reported of a collection, other than a background one, for which the
threads are suspended. -/
structure CompleteCollection where
  suspended : EventContext
  suspendReason : UInt32
  started : EventContext
  count : UInt32
  depth : UInt32
  reason : UInt32
  mode : UInt32
  notBackground : CollectionTracker.startsBackground depth mode = false
  histories : List HistoryReport
  sized : EventContext
  sizes : GenerationSizes
  restarted : EventContext

namespace CompleteCollection

/-- The events up to the sizes. -/
def opening (k : CompleteCollection) : List CollectionInput :=
  .event k.suspended (.suspendBegin k.suspendReason) ::
    .event k.started (.start k.count k.depth k.reason k.mode) ::
    k.histories.map HistoryReport.input

/-- The report of sizes. -/
def sizesInput (k : CompleteCollection) : CollectionInput := .event k.sized (.heapStats k.sizes)

/-- The restart. -/
def restartInput (k : CompleteCollection) : CollectionInput := .event k.restarted .restartEnd

/-- Which collection it is. -/
def identity (k : CompleteCollection) : CollectionIdentity :=
  ⟨k.started.processId, k.count, k.depth, CollectionReason.ofCode k.reason,
    CollectionMode.ofCode k.mode, k.started.time⟩

end CompleteCollection

/-- A part of a trace between two points at which no collection is open, or a
background one only. -/
inductive Stretch where
  | collection (k : CompleteCollection)
  /-- A background collection starts. -/
  | background (suspended : EventContext) (suspendReason : UInt32) (started : EventContext)
      (count reason : UInt32) (restarted : EventContext)
  | sizes (context : EventContext) (reported : GenerationSizes)
  | history (report : HistoryReport)
  /-- The threads stand still. -/
  | pause (suspended : EventContext) (suspendReason : UInt32) (restarted : EventContext)
  | trigger (context : EventContext) (reason : UInt32)

namespace Stretch

/-- The events of a stretch. -/
def inputs : Stretch → List CollectionInput
  | .collection k => k.opening ++ [k.sizesInput, k.restartInput]
  | .background suspended suspendReason started count reason restarted =>
    [.event suspended (.suspendBegin suspendReason), .event started (.start count 2 reason 1),
      .event restarted .restartEnd]
  | .sizes context reported => [.event context (.heapStats reported)]
  | .history report => [report.input]
  | .pause suspended suspendReason restarted =>
    [.event suspended (.suspendBegin suspendReason), .event restarted .restartEnd]
  | .trigger context reason => [.event context (.triggered reason)]

/-- The events of several stretches, one after the other. -/
def trace (stretches : List Stretch) : List CollectionInput := stretches.flatMap inputs

theorem trace_cons (s : Stretch) (rest : List Stretch) :
    trace (s :: rest) = s.inputs ++ trace rest :=
  rfl

theorem trace_append (earlier later : List Stretch) :
    trace (earlier ++ later) = trace earlier ++ trace later :=
  List.flatMap_append

end Stretch

namespace CollectionTracker

/-! ## What a rule decides -/

/-- The tracker, following a rule. -/
def under (t : CollectionTracker) (rule : CloseRule) : CollectionTracker :=
  { t with closeRule := rule }

/-- What the rule of a tracker has no say in: any event while no collection is open
other than a background one, and any event but the sizes and the restart. -/
def Unruled (t : CollectionTracker) : CollectionInput → Prop
  | .event _ (.heapStats _) => t.ephemeral = none
  | .event _ .restartEnd => t.ephemeral = none
  | _ => True

/-- **A rule has a say in the sizes and the restart only**, and only while a collection
other than a background one is open. -/
theorem feed_under {t : CollectionTracker} {x : CollectionInput} (h : t.Unruled x)
    (rule : CloseRule) :
    (t.under rule).feed x = ((t.feed x).1, (t.feed x).2.under rule) := by
  cases x with
  | reset => rfl
  | event context event =>
    cases event with
    | triggered reason => rfl
    | start count depth reason mode =>
      simp only [feed, step, release, openCollection]
      split <;> rfl
    | suspendBegin reason => rfl
    | heapStats sizes =>
      have he : t.ephemeral = none := h
      rw [feed, feed, step, step]
      cases hb : t.background with
      | none =>
        rw [takeHeapSizes_of_idle he hb, takeHeapSizes_of_idle (t := t.under rule) he hb]
        rfl
      | some c =>
        rw [takeHeapSizes_of_background he hb,
          takeHeapSizes_of_background (t := t.under rule) he hb]
        rfl
    | perHeapHistory generations =>
      rw [feed, feed, step, step]
      cases he : t.ephemeral with
      | some c =>
        rw [takeHeapHistory_of_ephemeral he, takeHeapHistory_of_ephemeral (t := t.under rule) he]
        rfl
      | none =>
        cases hb : t.background with
        | none =>
          rw [takeHeapHistory_of_idle he hb, takeHeapHistory_of_idle (t := t.under rule) he hb]
          rfl
        | some c =>
          rw [takeHeapHistory_of_background he hb,
            takeHeapHistory_of_background (t := t.under rule) he hb]
          rfl
    | globalHeapHistory condemned mechanisms =>
      rw [feed, feed, step, step]
      cases he : t.ephemeral with
      | some c =>
        rw [takeGlobalHistory_of_ephemeral he,
          takeGlobalHistory_of_ephemeral (t := t.under rule) he]
        rfl
      | none =>
        cases hb : t.background with
        | none =>
          rw [takeGlobalHistory_of_idle he hb, takeGlobalHistory_of_idle (t := t.under rule) he hb]
          rfl
        | some c =>
          rw [takeGlobalHistory_of_background he hb,
            takeGlobalHistory_of_background (t := t.under rule) he hb]
          split <;> rfl
    | restartEnd =>
      have he : t.ephemeral = none := h
      rw [feed, feed, step, step]
      cases hh : t.held with
      | some c =>
        rw [takeRestart_of_held hh, takeRestart_of_held (t := t.under rule) hh]
        rfl
      | none =>
        cases hb : t.background with
        | none =>
          rw [takeRestart_of_idle he hb hh, takeRestart_of_idle (t := t.under rule) he hb hh]
          rfl
        | some c =>
          rw [takeRestart_of_background he hb hh,
            takeRestart_of_background (t := t.under rule) he hb hh]
          rfl

/-! ## Two trackers side by side -/

/-- Two trackers take in the same inputs.  They agree on what was missed at every point,
and the results at a position are in a relation that depends on the position. -/
def InStep (alike : Nat → Option ClosedCollection → Option ClosedCollection → Prop)
    (t₁ t₂ : CollectionTracker) : List CollectionInput → Prop
  | [] => t₁.misses = t₂.misses
  | x :: rest => t₁.misses = t₂.misses ∧ alike 0 (t₁.feed x).1 (t₂.feed x).1 ∧
      InStep (fun n => alike (n + 1)) (t₁.feed x).2 (t₂.feed x).2 rest

variable {alike : Nat → Option ClosedCollection → Option ClosedCollection → Prop}
  {t₁ t₂ : CollectionTracker}

theorem InStep.append {xs ys : List CollectionInput} (hxs : InStep alike t₁ t₂ xs)
    (hys : InStep (fun n => alike (n + xs.length)) (Run.after feed t₁ xs) (Run.after feed t₂ xs)
      ys) :
    InStep alike t₁ t₂ (xs ++ ys) := by
  induction xs generalizing alike t₁ t₂ with
  | nil => exact hys
  | cons x rest ih => exact ⟨hxs.1, hxs.2.1, ih hxs.2.2 hys⟩

theorem InStep.mono {alike' : Nat → Option ClosedCollection → Option ClosedCollection → Prop}
    (h : ∀ n o o', alike n o o' → alike' n o o') {xs : List CollectionInput}
    (hxs : InStep alike t₁ t₂ xs) : InStep alike' t₁ t₂ xs := by
  induction xs generalizing alike alike' t₁ t₂ with
  | nil => exact hxs
  | cons x rest ih =>
    exact ⟨hxs.1, h 0 _ _ hxs.2.1, ih (fun n => h (n + 1)) hxs.2.2⟩

/-- Trackers in step agree after every part of the inputs. -/
theorem InStep.misses_eq {xs : List CollectionInput} (hxs : InStep alike t₁ t₂ xs) (n : Nat) :
    (Run.after feed t₁ (xs.take n)).misses = (Run.after feed t₂ (xs.take n)).misses := by
  induction xs generalizing alike t₁ t₂ n with
  | nil =>
    rw [List.take_nil]
    exact hxs
  | cons x rest ih =>
    cases n with
    | zero => exact hxs.1
    | succ n => exact ih hxs.2.2 n

/-- Trackers in step give results in the relation. -/
theorem InStep.results_alike {xs : List CollectionInput} (hxs : InStep alike t₁ t₂ xs) {n : Nat}
    {o o' : Option ClosedCollection} (h : (Run.outputs feed t₁ xs)[n]? = some o)
    (h' : (Run.outputs feed t₂ xs)[n]? = some o') : alike n o o' := by
  induction xs generalizing alike t₁ t₂ n with
  | nil => exact absurd h (by simp [Run.outputs])
  | cons x rest ih =>
    cases n with
    | zero =>
      rw [Run.outputs_cons, List.getElem?_cons_zero, Option.some.injEq] at h h'
      rw [← h, ← h']
      exact hxs.2.1
    | succ n => exact ih hxs.2.2 h h'

/-! ## Where no rule has a say -/

/-- No collection is open or held back, other than a background one. -/
structure Quiet (t : CollectionTracker) : Prop where
  sound : t.places.Sound
  none_waits : t.places.waiting? .ephemeral = none

namespace Quiet

variable {t : CollectionTracker}

theorem ephemeral_eq_none (ht : t.Quiet) : t.ephemeral = none :=
  Option.map_eq_none_iff.mp (Option.or_eq_none_iff.mp ht.none_waits).1

theorem held_eq_none (ht : t.Quiet) : t.held = none :=
  Option.map_eq_none_iff.mp (Option.or_eq_none_iff.mp ht.none_waits).2

theorem unruled (ht : t.Quiet) (x : CollectionInput) : t.Unruled x := by
  have he : t.ephemeral = none := ht.ephemeral_eq_none
  unfold Unruled
  split
  · exact he
  · exact he
  · trivial

/-- Only a background collection is reported. -/
theorem kind_of_result (ht : t.Quiet) {x : CollectionInput} {r : ClosedCollection}
    (h : (t.feed x).1 = some r) : r.identity.kind = .background := by
  have hwaits : t.places.waiting? r.identity.kind = some r.identity :=
    (t.moves_feed x).waiting?_of_out ht.sound (by rw [h]; rfl)
  cases hkind : r.identity.kind with
  | background => rfl
  | ephemeral =>
    rw [hkind, ht.none_waits] at hwaits
    exact absurd hwaits (by simp)

/-- It stays so until a collection starts that is not a background one. -/
theorem feed_of_background (ht : t.Quiet) {x : CollectionInput}
    (hx : ∀ id, x.started? = some id → id.kind = .background) : (t.feed x).2.Quiet := by
  have hmove := t.moves_feed x
  refine ⟨hmove.sound ht.sound, Option.eq_none_iff_forall_ne_some.mpr ?_⟩
  intro id hid
  rcases hmove.waiting?_after ht.sound hid with ⟨hstarted, hkind⟩ | ⟨hbefore, -⟩
  · rw [hx id hstarted] at hkind
    exact absurd hkind (by decide)
  · rw [ht.none_waits] at hbefore
    exact absurd hbefore (by simp)

end Quiet

/-- From one state on, trackers that follow the two rules stay in step, and in the end
they again differ in the rule only, with a property that does not depend on it. -/
def KeepsStep (alike : Nat → Option ClosedCollection → Option ClosedCollection → Prop)
    (P : CollectionTracker → Prop) (t : CollectionTracker) (xs : List CollectionInput) : Prop :=
  InStep alike (t.under .heapStats) (t.under .restartEnd) xs ∧
    ∃ t' : CollectionTracker, P t' ∧ ∀ rule, Run.after feed (t.under rule) xs = t'.under rule

variable {P Q : CollectionTracker → Prop} {t : CollectionTracker}

theorem KeepsStep.nil (ht : P t) : KeepsStep alike P t [] :=
  ⟨rfl, t, ht, fun _ => rfl⟩

theorem KeepsStep.cons {x : CollectionInput} {rest : List CollectionInput} (hx : t.Unruled x)
    (halike : alike 0 (t.feed x).1 (t.feed x).1)
    (hrest : KeepsStep (fun n => alike (n + 1)) P (t.feed x).2 rest) :
    KeepsStep alike P t (x :: rest) := by
  obtain ⟨hstep, t', ht', hafter⟩ := hrest
  refine ⟨⟨rfl, ?_, ?_⟩, t', ht', ?_⟩
  · rw [feed_under hx, feed_under hx]
    exact halike
  · rw [feed_under hx, feed_under hx]
    exact hstep
  · intro rule
    rw [Run.after_cons, feed_under hx]
    exact hafter rule

theorem KeepsStep.append {xs ys : List CollectionInput} (hxs : KeepsStep alike P t xs)
    (hys : ∀ t', P t' → KeepsStep (fun n => alike (n + xs.length)) Q t' ys) :
    KeepsStep alike Q t (xs ++ ys) := by
  obtain ⟨hstep, t', ht', hafter⟩ := hxs
  obtain ⟨hstep', t'', ht'', hafter'⟩ := hys t' ht'
  refine ⟨hstep.append ?_, t'', ht'', ?_⟩
  · rw [hafter, hafter]
    exact hstep'
  · intro rule
    rw [Run.after_append, hafter, hafter']

/-- Nothing happens to other collections while only background ones start. -/
theorem Quiet.keepsStep (ht : t.Quiet)
    (hsame : ∀ n o, (∀ r, o = some r → r.identity.kind = .background) → alike n o o)
    {xs : List CollectionInput}
    (hxs : ∀ x ∈ xs, ∀ id, x.started? = some id → id.kind = .background) :
    KeepsStep alike Quiet t xs := by
  induction xs generalizing alike t with
  | nil => exact KeepsStep.nil ht
  | cons x rest ih =>
    have hrest : KeepsStep (fun n => alike (n + 1)) Quiet (t.feed x).2 rest :=
      ih (ht.feed_of_background (hxs x (List.mem_cons_self ..))) (fun n => hsame (n + 1))
        fun y hy => hxs y (List.mem_cons_of_mem x hy)
    exact KeepsStep.cons (ht.unruled x) (hsame 0 _ fun r => ht.kind_of_result) hrest

/-! ## A collection from its suspension to its restart -/

/-- The pause does not depend on whether the end is fixed already. -/
theorem report_restart_ended (c : OpenCollection) (now restarted : Instant)
    (waiting : Option Instant) :
    ((c.ended now).restart restarted waiting).report =
      (c.restart restarted waiting).finishAt now := by
  unfold OpenCollection.restart OpenCollection.ended
  dsimp only
  split <;> rfl

/-- A collection is open and keeps the instant at which its threads were suspended. -/
structure Collecting (k : CompleteCollection) (t : CollectionTracker) : Prop where
  sound : t.places.Sound
  held : t.held = none
  isOpen : ∃ c, t.ephemeral = some c ∧ c.identity = k.identity ∧
    c.suspensionStart = some k.suspended.time

variable {k : CompleteCollection}

/-- The start takes the suspension along. -/
theorem Quiet.collecting (ht : t.Quiet) (k : CompleteCollection) :
    ∃ t₁ t₂ : CollectionTracker,
      t.feed (.event k.suspended (.suspendBegin k.suspendReason)) = (none, t₁) ∧
      t₁.feed (.event k.started (.start k.count k.depth k.reason k.mode)) = (none, t₂) ∧
      Collecting k t₂ := by
  let suspend : CollectionInput := .event k.suspended (.suspendBegin k.suspendReason)
  let opens : CollectionInput := .event k.started (.start k.count k.depth k.reason k.mode)
  let c : OpenCollection :=
    opened k.started k.count k.depth k.reason k.mode (some k.suspended.time)
  let t₁ : CollectionTracker := { t with held := none, suspension := some k.suspended.time }
  let t₂ : CollectionTracker :=
    { t₁ with
      ephemeral := some c
      suspension := none
      misses := t.misses.duplicateStartIf t.ephemeral.isSome }
  have hsuspend : t.feed suspend = (none, t₁) := by
    rw [feed, step, release, ht.held_eq_none]
    rfl
  have hopens : t₁.feed opens = (none, t₂) := by
    simp only [opens, feed, step, release, openCollection, k.notBackground]
    rfl
  have hsound₁ : t₁.places.Sound := by
    have hmoved := (t.moves_feed suspend).sound ht.sound
    rwa [hsuspend] at hmoved
  have hsound₂ : t₂.places.Sound := by
    have hmoved := (t₁.moves_feed opens).sound hsound₁
    rwa [hopens] at hmoved
  exact ⟨t₁, t₂, hsuspend, hopens, hsound₂, rfl, c, rfl, rfl, rfl⟩

/-- A report of what the collection did leaves it open. -/
theorem Collecting.history (hc : Collecting k t) (report : HistoryReport) :
    ∃ t', t.feed report.input = (none, t') ∧ Collecting k t' := by
  obtain ⟨c, he, hidentity, hsuspended⟩ := hc.isOpen
  obtain ⟨t', c', hfeed, he', hheld, hsame⟩ : ∃ (t' : CollectionTracker) (c' : OpenCollection),
      t.feed report.input = (none, t') ∧ t'.ephemeral = some c' ∧ t'.held = t.held ∧
        (c'.identity, c'.suspensionStart) = (c.identity, c.suspensionStart) := by
    cases report with
    | generations context changes =>
      have hfeed := takeHeapHistory_of_ephemeral he changes
      exact ⟨_, _, congrArg (Prod.mk none) hfeed, rfl, rfl, rfl⟩
    | global context condemned mechanisms =>
      have hfeed := takeGlobalHistory_of_ephemeral he context.time condemned mechanisms
      exact ⟨_, _, hfeed, rfl, rfl, rfl⟩
  obtain ⟨hidentity', hsuspended'⟩ := Prod.mk.inj hsame
  have hsound : t'.places.Sound := by
    have hmoved := (t.moves_feed report.input).sound hc.sound
    rwa [hfeed] at hmoved
  exact ⟨t', hfeed, hsound, hheld.trans hc.held, c', he', hidentity'.trans hidentity,
    hsuspended'.trans hsuspended⟩

/-- However many reports a collection has, it is open after them. -/
theorem Collecting.keepsStep_histories (hc : Collecting k t) (hnone : ∀ n, alike n none none)
    (histories : List HistoryReport) :
    KeepsStep alike (Collecting k) t (histories.map HistoryReport.input) := by
  induction histories generalizing alike t with
  | nil => exact KeepsStep.nil hc
  | cons report rest ih =>
    obtain ⟨t', hfeed, hc'⟩ := hc.history report
    have hunruled : t.Unruled report.input := by
      cases report <;> trivial
    refine KeepsStep.cons hunruled ?_ ?_
    · rw [hfeed]
      exact hnone 0
    · rw [hfeed]
      exact ih hc' fun n => hnone (n + 1)

/-- **Up to its sizes** a collection is the same for both rules. -/
theorem Quiet.keepsStep_opening (ht : t.Quiet) (hnone : ∀ n, alike n none none)
    (k : CompleteCollection) : KeepsStep alike (Collecting k) t k.opening := by
  obtain ⟨t₁, t₂, hsuspend, hopens, hc⟩ := ht.collecting k
  refine KeepsStep.cons trivial ?_ ?_
  · rw [hsuspend]
    exact hnone 0
  · rw [hsuspend]
    refine KeepsStep.cons trivial ?_ ?_
    · rw [hopens]
      exact hnone 1
    · rw [hopens]
      exact hc.keepsStep_histories (fun n => hnone (n + 1 + 1)) k.histories

/-- The tracker that a collection and its suspension have left. -/
def left (t : CollectionTracker) : CollectionTracker :=
  { t with ephemeral := none, suspension := none }

/-- What a collection left is quiet. -/
theorem Collecting.quiet_left (hc : Collecting k t) : t.left.Quiet := by
  have hnone : t.left.places.waiting? .ephemeral = none := by
    show (none : Option CollectionIdentity).or (t.held.map OpenCollection.identity) = none
    rw [hc.held]
    rfl
  refine ⟨⟨?_, Or.inl rfl⟩, hnone⟩
  intro kind id hwaits
  cases kind with
  | background => exact hc.sound.kind .background id hwaits
  | ephemeral =>
    rw [hnone] at hwaits
    exact absurd hwaits (by simp)

/-- How a rule takes a collection from its sizes to its restart: nothing comes out with
the sizes, and with the restart a report, with nothing else missed or left. -/
structure Closes (k : CompleteCollection) (t : CollectionTracker) (rule : CloseRule)
    (r : ClosedCollection) (between : CollectionTracker) : Prop where
  sizes : (t.under rule).feed k.sizesInput = (none, between)
  misses : between.misses = t.misses
  restart : between.feed k.restartInput = (some r, t.left.under rule)

/-- Under `heapStats` the sizes fix the end, and the restart lets go of the collection. -/
theorem closes_heapStats {c : OpenCollection} (he : t.ephemeral = some c) (hh : t.held = none)
    (hc : c.suspensionStart ≠ none) (k : CompleteCollection) :
    ∃ between, Closes k t .heapStats
      (((c.withSizes k.sizes).restart k.restarted.time t.suspension).finishAt k.sized.time)
      between := by
  have hsizes := takeHeapSizes_holds (t := t.under .heapStats) rfl he (Or.inl hc) k.sized.time
    k.sizes
  have hnone : (t.under .heapStats).held = none := hh
  rw [hnone] at hsizes
  refine ⟨_, hsizes, rfl, ?_⟩
  rw [CompleteCollection.restartInput, feed, step, takeRestart_of_held rfl, report_restart_ended]
  simp only [left, under, hh]

/-- Under `restartEnd` the collection is open until the restart. -/
theorem closes_restartEnd {c : OpenCollection} (he : t.ephemeral = some c) (hh : t.held = none)
    (k : CompleteCollection) :
    ∃ between, Closes k t .restartEnd
      (((c.withSizes k.sizes).restart k.restarted.time t.suspension).finishAt k.restarted.time)
      between := by
  let between : CollectionTracker :=
    { t.under .restartEnd with ephemeral := some (c.withSizes k.sizes) }
  have hsizes := takeHeapSizes_goesOn (t := t.under .restartEnd) rfl he k.sized.time k.sizes
  have hrestart := takeRestart_ends (t := between) rfl rfl hh k.restarted.time
  exact ⟨between, hsizes, rfl, hrestart⟩

/-- **The sizes and the restart end the collection under either rule**, with the same
report but for its end. -/
theorem Collecting.closes (hc : Collecting k t) :
    ∃ (r : ClosedCollection) (t₁ t₂ : CollectionTracker), r.identity = k.identity ∧
      Closes k t .heapStats { r with finish := k.sized.time } t₁ ∧
      Closes k t .restartEnd { r with finish := k.restarted.time } t₂ := by
  obtain ⟨c, he, hidentity, hsuspended⟩ := hc.isOpen
  have hne : c.suspensionStart ≠ none := by
    rw [hsuspended]
    exact Option.some_ne_none _
  obtain ⟨t₁, hcloses₁⟩ := closes_heapStats he hc.held hne k
  obtain ⟨t₂, hcloses₂⟩ := closes_restartEnd he hc.held k
  have hreport : ((c.withSizes k.sizes).restart k.restarted.time t.suspension).report.identity =
      k.identity :=
    (identity_restart (c.withSizes k.sizes) k.restarted.time t.suspension).trans hidentity
  exact ⟨_, t₁, t₂, hreport, hcloses₁, hcloses₂⟩

theorem Collecting.keepsStep_closing (hc : Collecting k t) (hnone : alike 0 none none)
    (hended : ∀ r : ClosedCollection, r.identity = k.identity →
      alike 1 (some { r with finish := k.sized.time })
        (some { r with finish := k.restarted.time })) :
    KeepsStep alike Quiet t [k.sizesInput, k.restartInput] := by
  obtain ⟨r, t₁, t₂, hidentity, hcloses₁, hcloses₂⟩ := hc.closes
  refine ⟨⟨rfl, ?_, ?_⟩, t.left, hc.quiet_left, ?_⟩
  · rw [hcloses₁.sizes, hcloses₂.sizes]
    exact hnone
  · rw [hcloses₁.sizes, hcloses₂.sizes]
    refine ⟨hcloses₁.misses.trans hcloses₂.misses.symm, ?_, ?_⟩
    · rw [hcloses₁.restart, hcloses₂.restart]
      exact hended r hidentity
    · rw [hcloses₁.restart, hcloses₂.restart]
      exact rfl
  · intro rule
    rw [Run.after_cons, Run.after_cons, Run.after_nil]
    cases rule with
    | heapStats => rw [hcloses₁.sizes, hcloses₁.restart]
    | restartEnd => rw [hcloses₂.sizes, hcloses₂.restart]

/-! ## Whole traces -/

/-- A collection is complete with the input at position `n`. -/
def CompleteAt (stretches : List Stretch) (n : Nat) (k : CompleteCollection) : Prop :=
  ∃ earlier later, stretches = earlier ++ .collection k :: later ∧
    (Stretch.trace (earlier ++ [.collection k])).length = n + 1

/-- What the two rules give at a position: nothing, or the same report of a background
collection, or reports of a collection that is complete there which differ in the end
only. -/
inductive Alike (stretches : List Stretch) (n : Nat) :
    Option ClosedCollection → Option ClosedCollection → Prop where
  | nothing : Alike stretches n none none
  | background {r : ClosedCollection} (hkind : r.identity.kind = .background) :
      Alike stretches n (some r) (some r)
  | other {r : ClosedCollection} {k : CompleteCollection} (hcomplete : CompleteAt stretches n k)
      (hidentity : r.identity = k.identity) :
      Alike stretches n (some { r with finish := k.sized.time })
        (some { r with finish := k.restarted.time })

/-- Earlier stretches do not matter. -/
theorem Alike.cons (s : Stretch) {stretches : List Stretch} {n : Nat}
    {o o' : Option ClosedCollection} (h : Alike stretches n o o') :
    Alike (s :: stretches) (n + s.inputs.length) o o' := by
  cases h with
  | nothing => exact .nothing
  | background hkind => exact .background hkind
  | other hcomplete hidentity =>
    obtain ⟨earlier, later, rfl, hlength⟩ := hcomplete
    refine .other ⟨s :: earlier, later, rfl, ?_⟩ hidentity
    rw [List.cons_append, Stretch.trace_cons, List.length_append, hlength]
    omega

/-- **One stretch** keeps the trackers in step. -/
theorem Quiet.keepsStep_stretch (ht : t.Quiet) (s : Stretch) (later : List Stretch) :
    KeepsStep (Alike (s :: later)) Quiet t s.inputs := by
  have hsame : ∀ n o, (∀ r : ClosedCollection, o = some r → r.identity.kind = .background) →
      Alike (s :: later) n o o := by
    intro n o hkind
    cases o with
    | none => exact .nothing
    | some r => exact .background (hkind r rfl)
  cases s with
  | collection k =>
    have hopening := ht.keepsStep_opening (fun n => hsame n none (by simp)) k
    refine hopening.append fun t' hc => ?_
    refine hc.keepsStep_closing (hsame _ none (by simp)) fun r hidentity => ?_
    refine .other ⟨[], later, rfl, ?_⟩ hidentity
    simp [Stretch.trace, Stretch.inputs]
    omega
  | background suspended suspendReason started count reason restarted =>
    refine ht.keepsStep hsame ?_
    simp [Stretch.inputs, CollectionInput.started?, CollectionIdentity.kind, CollectionMode.ofCode]
  | sizes context reported =>
    exact ht.keepsStep hsame (by simp [Stretch.inputs, CollectionInput.started?])
  | history report =>
    refine ht.keepsStep hsame ?_
    cases report <;> simp [Stretch.inputs, HistoryReport.input, CollectionInput.started?]
  | pause suspended suspendReason restarted =>
    exact ht.keepsStep hsame (by simp [Stretch.inputs, CollectionInput.started?])
  | trigger context reason =>
    exact ht.keepsStep hsame (by simp [Stretch.inputs, CollectionInput.started?])

/-- The stretches are taken one after the other. -/
theorem Quiet.keepsStep_trace (ht : t.Quiet) (stretches : List Stretch) :
    KeepsStep (Alike stretches) Quiet t (Stretch.trace stretches) := by
  induction stretches generalizing t with
  | nil => exact KeepsStep.nil ht
  | cons s rest ih =>
    rw [Stretch.trace_cons]
    refine (ht.keepsStep_stretch s rest).append ?_
    intro t' ht'
    obtain ⟨hstep, hafter⟩ := ih ht'
    exact ⟨hstep.mono fun n o o' halike => halike.cons s, hafter⟩

/-- A new tracker is quiet. -/
theorem quiet_start (rule : CloseRule) : (start rule).Quiet := by
  have hnone : ∀ kind, (start rule).places.waiting? kind = none := by
    intro kind
    cases kind <;> rfl
  refine ⟨⟨?_, Or.inl rfl⟩, hnone .ephemeral⟩
  intro kind id hwaits
  rw [hnone kind] at hwaits
  exact absurd hwaits (by simp)

/-- **A complete collection is reported** where its threads restart, under either rule. -/
theorem reported_of_completeAt {stretches : List Stretch} {n : Nat}
    (h : CompleteAt stretches n k) :
    ∃ r : ClosedCollection, r.identity = k.identity ∧
      (results .heapStats (Stretch.trace stretches))[n]? =
        some (some { r with finish := k.sized.time }) ∧
      (results .restartEnd (Stretch.trace stretches))[n]? =
        some (some { r with finish := k.restarted.time }) := by
  obtain ⟨earlier, later, rfl, hlength⟩ := h
  obtain ⟨-, t', hquiet, hearlier⟩ := (quiet_start .heapStats).keepsStep_trace earlier
  have hopening : KeepsStep (fun _ _ _ => True) (Collecting k) t' k.opening :=
    hquiet.keepsStep_opening (fun _ => trivial) k
  obtain ⟨-, t'', hc, hopened⟩ := hopening
  obtain ⟨r, t₁, t₂, hidentity, hcloses₁, hcloses₂⟩ := hc.closes
  -- the inputs before the restart, and the states they lead to
  let inputs := Stretch.trace earlier ++ (k.opening ++ [k.sizesInput])
  have hinputs : Stretch.trace (earlier ++ .collection k :: later) =
      inputs ++ k.restartInput :: Stretch.trace later := by
    simp [inputs, Stretch.trace_append, Stretch.trace_cons, Stretch.inputs]
  have hn : inputs.length = n := by
    have hlast : (Stretch.trace [.collection k]).length = k.opening.length + 2 := by
      simp [Stretch.trace, Stretch.inputs]
    rw [Stretch.trace_append, List.length_append, hlast] at hlength
    simp only [inputs, List.length_append, List.length_singleton]
    omega
  have hafter : ∀ rule, Run.after feed (start rule) inputs =
      ((t''.under rule).feed k.sizesInput).2 := by
    intro rule
    have hstart := hearlier rule
    rw [Run.after_append, Run.after_append, Run.after_cons, Run.after_nil, ← hopened rule]
    exact congrArg (fun t => ((Run.after feed t k.opening).feed k.sizesInput).2) hstart
  refine ⟨r, hidentity, ?_, ?_⟩
  · rw [results, hinputs, ← hn, Run.getElem?_outputs_append, hafter, hcloses₁.sizes,
      hcloses₁.restart]
  · rw [results, hinputs, ← hn, Run.getElem?_outputs_append, hafter, hcloses₂.sizes,
      hcloses₂.restart]

/-- **The two rules agree on complete traces.**  On any sequence of stretches, trackers
that follow the two rules report at the same positions: the same of a background
collection, and of another collection the same but for its end, which is when its sizes
were reported under `heapStats` and when its threads restarted under `restartEnd`.
Every collection that is complete is reported so, and the trackers count the same
misses at every point. -/
theorem rules_agree (stretches : List Stretch) :
    (results .heapStats (Stretch.trace stretches)).length =
        (results .restartEnd (Stretch.trace stretches)).length ∧
      (∀ n o o', (results .heapStats (Stretch.trace stretches))[n]? = some o →
        (results .restartEnd (Stretch.trace stretches))[n]? = some o' → Alike stretches n o o') ∧
      (∀ n k, CompleteAt stretches n k → ∃ r : ClosedCollection, r.identity = k.identity ∧
        (results .heapStats (Stretch.trace stretches))[n]? =
          some (some { r with finish := k.sized.time }) ∧
        (results .restartEnd (Stretch.trace stretches))[n]? =
          some (some { r with finish := k.restarted.time })) ∧
      ∀ n, (before .heapStats (Stretch.trace stretches) n).misses =
        (before .restartEnd (Stretch.trace stretches) n).misses := by
  obtain ⟨hstep, -⟩ := (quiet_start .heapStats).keepsStep_trace stretches
  refine ⟨?_, ?_, ?_, ?_⟩
  · rw [results, results, Run.length_outputs, Run.length_outputs]
  · intro n o o' h h'
    exact hstep.results_alike h h'
  · exact fun n k => reported_of_completeAt
  · exact hstep.misses_eq

/-- A collection beside a background one ends at 6 or at 7, the background one at 9 under both
rules. -/
theorem rules_agree_besideBackground :
    let about (time : UInt64) : EventContext :=
      ⟨⟨time⟩, 7, 0, ActivityId.nil, ActivityId.nil, 0, none⟩
    let beside : CompleteCollection :=
      { suspended := about 4, suspendReason := 0, started := about 5, count := 2, depth := 0,
        reason := 0, mode := 0, notBackground := by decide, histories := [], sized := about 6,
        sizes := GenerationSizes.zero, restarted := about 7 }
    let stretches : List Stretch :=
      [.background (about 1) 0 (about 2) 1 0 (about 3), .collection beside,
        .history (.global (about 9) 2 0)]
    let trace := Stretch.trace stretches
    CompleteAt stretches 6 beside ∧
      (∃ r : ClosedCollection, r.identity = beside.identity ∧
        (results .heapStats trace)[6]? = some (some { r with finish := ⟨6⟩ }) ∧
        (results .restartEnd trace)[6]? = some (some { r with finish := ⟨7⟩ })) ∧
      (∃ r r', (results .heapStats trace)[7]? = some (some r) ∧
        (results .restartEnd trace)[7]? = some (some r') ∧ r.finish = ⟨9⟩ ∧ r'.finish = ⟨9⟩ ∧
        Alike stretches 7 (some r) (some r')) ∧
      (results .heapStats trace).length = (results .restartEnd trace).length ∧
      (before .heapStats trace 8).misses = (before .restartEnd trace 8).misses := by
  intro about beside stretches trace
  have hcomplete : CompleteAt stretches 6 beside :=
    ⟨[.background (about 1) 0 (about 2) 1 0 (about 3)], [.history (.global (about 9) 2 0)], rfl,
      rfl⟩
  obtain ⟨hlength, halike, hreported, hmisses⟩ := rules_agree stretches
  obtain ⟨r, hr, hfinish⟩ : ∃ r, (results .heapStats trace)[7]? = some (some r) ∧
      r.finish = ⟨9⟩ := ⟨_, rfl, by decide⟩
  obtain ⟨r', hr', hfinish'⟩ : ∃ r, (results .restartEnd trace)[7]? = some (some r) ∧
      r.finish = ⟨9⟩ := ⟨_, rfl, by decide⟩
  exact ⟨hcomplete, hreported 6 beside hcomplete,
    ⟨r, r', hr, hr', hfinish, hfinish', halike 7 _ _ hr hr'⟩, hlength, hmisses 8⟩

end CollectionTracker
end RuntimeTrace
