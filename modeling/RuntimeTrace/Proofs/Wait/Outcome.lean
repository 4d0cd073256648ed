import RuntimeTrace.Proofs.Run
import RuntimeTrace.Proofs.Table
import RuntimeTrace.Wait

/-!
# What one event does to the waits

An event begins a wait or ends one.  A beginning always leads to the same: the thread
waits.  An end has three outcomes, by what it finds: nothing, a wait that was too
short, or one to report.  `Outcome` lists the four, and `exists_outcome` says that a
step is one of them.

What the rest needs of a step is read off that list once and for all: the tracker keeps
its threshold, the thread of the event waits afterwards if the event began a wait and
does not otherwise (`get?_feed`), what is reported is a function of what the thread
waited for (`fst_feed`), and each event is counted in one place
(`balance_feed`).

## Names

The names of a stack depend on which methods are known, and other parts of a program
make methods known between two waits.  So an input carries the symbols of its moment,
whatever they are, and reports are compared without their call stacks.
-/

namespace RuntimeTrace

namespace WaitEvent

/-- What the thread of an event begins to wait for. -/
def target? : WaitEvent → Option WaitTarget
  | .start _ => some .monitor
  | .handleStart _ => some .waitHandle
  | .stop _ _ => none
  | .handleStop => none

/-- Whether the end of a wait says that the code that waited is managed. -/
def managed? : WaitEvent → Option Bool
  | .start _ => none
  | .handleStart _ => none
  | .stop flags _ => some (flags == 0)
  | .handleStop => some true

/-- An event begins a wait or ends one. -/
theorem isSome_managed? (event : WaitEvent) : event.managed?.isSome = !event.target?.isSome := by
  cases event <;> rfl

end WaitEvent

/-- A report without the names of its stack. -/
def ClosedWait.unnamed (w : ClosedWait) : ClosedWait := { w with callStack := [] }

/-- An event of a wait in its context, with the symbols known at its moment. -/
structure WaitInput where
  symbols : Symbols
  context : EventContext
  event : WaitEvent

namespace WaitInput

/-- An input without the symbols of its moment. -/
def bare (x : WaitInput) : EventContext × WaitEvent := (x.context, x.event)

/-- The thread that begins or ends to wait. -/
def thread (x : WaitInput) : ProcessId × ThreadId := WaitTracker.threadOf x.context

/-- The wait that an input begins. -/
def opens? (x : WaitInput) : Option OpenWait :=
  x.event.target?.map fun target => ⟨x.context.time, target, x.context.stack⟩

/-- The report of a wait that an input ends. -/
def report (x : WaitInput) (wait : OpenWait) (managed : Bool) : ClosedWait where
  processId := x.context.processId
  threadId := x.context.threadId
  start := wait.start
  duration := x.context.time.since wait.start
  target := wait.target
  isManaged := wait.target == .waitHandle || managed
  callStack := (WaitTracker.stackNames x.symbols wait.stack).1

/-- What is reported, names apart, when the thread of the input waits for this. -/
def closes? (x : WaitInput) (minWait : Duration) (waiting : Option OpenWait) :
    Option ClosedWait :=
  x.event.managed?.bind fun managed => waiting.bind fun wait =>
    if (x.context.time.since wait.start).nanos < minWait.nanos then none
    else some (x.report wait managed).unnamed

end WaitInput

namespace WaitTracker

/-- Takes in an input. -/
def feed (t : WaitTracker) (x : WaitInput) : Option ClosedWait × WaitTracker :=
  ((t.step x.symbols x.context x.event).1, (t.step x.symbols x.context x.event).2.1)

/-! ## The four outcomes -/

/-- What becomes of an input, by what it is and what its thread waits for. -/
inductive Outcome (t : WaitTracker) (x : WaitInput) : Option ClosedWait → WaitTracker → Prop where
  /-- A wait begins, over one that may still go on. -/
  | begins {wait : OpenWait} (hopens : x.opens? = some wait) :
      Outcome t x none
        { t with
          waiting := t.waiting.insert x.thread wait
          misses := t.misses.duplicateStartIf (t.waiting.contains x.thread) }
  /-- A wait ends that nobody saw begin. -/
  | orphan {managed : Bool} (hends : x.event.managed? = some managed)
      (hnone : t.waiting.get? x.thread = none) :
      Outcome t x none { t with misses := t.misses.orphanStop }
  /-- A wait ends below the threshold. -/
  | ignores {managed : Bool} {wait : OpenWait} (hends : x.event.managed? = some managed)
      (hwait : t.waiting.get? x.thread = some wait)
      (hshort : (x.context.time.since wait.start).nanos < t.minWait.nanos) :
      Outcome t x none
        { t with waiting := t.waiting.erase x.thread, tooShort := t.tooShort + 1 }
  /-- A wait ends and is reported. -/
  | reports {managed : Bool} {wait : OpenWait} (hends : x.event.managed? = some managed)
      (hwait : t.waiting.get? x.thread = some wait)
      (hlong : ¬ (x.context.time.since wait.start).nanos < t.minWait.nanos) :
      Outcome t x (some (x.report wait managed)) { t with waiting := t.waiting.erase x.thread }

theorem outcome_finish (t : WaitTracker) (x : WaitInput) {managed : Bool}
    (hends : x.event.managed? = some managed) :
    t.Outcome x (t.finish x.symbols x.context managed).1
      (t.finish x.symbols x.context managed).2.1 := by
  unfold finish
  dsimp only
  split
  · rename_i hnone
    exact .orphan hends hnone
  · rename_i wait hwait
    split
    · rename_i hshort
      exact .ignores hends hwait hshort
    · rename_i hlong
      exact .reports hends hwait hlong

/-- **A step is one of the four outcomes.** -/
theorem exists_outcome (t : WaitTracker) (x : WaitInput) :
    ∃ result t', t.feed x = (result, t') ∧ t.Outcome x result t' := by
  obtain ⟨symbols, context, event⟩ := x
  refine ⟨_, _, rfl, ?_⟩
  cases event with
  | start flags => exact .begins rfl
  | handleStart source => exact .begins rfl
  | stop flags durationNs =>
    exact outcome_finish t ⟨symbols, context, .stop flags durationNs⟩ rfl
  | handleStop => exact outcome_finish t ⟨symbols, context, .handleStop⟩ rfl

/-! ## What a step leaves and gives -/

variable {x : WaitInput}

/-- What begins a wait does not end one. -/
theorem opens?_of_ends {managed : Bool} (h : x.event.managed? = some managed) :
    x.opens? = none := by
  have hsome := x.event.isSome_managed?
  rw [h, Option.isSome_some] at hsome
  rw [WaitInput.opens?, Option.map_eq_none_iff]
  simpa using hsome.symm

/-- What begins a wait ends none. -/
theorem managed?_of_opens {wait : OpenWait} (h : x.opens? = some wait) :
    x.event.managed? = none := by
  rw [Option.eq_none_iff_forall_ne_some]
  intro managed hmanaged
  rw [opens?_of_ends hmanaged] at h
  exact absurd h (by simp)

theorem minWait_feed (t : WaitTracker) (x : WaitInput) : (t.feed x).2.minWait = t.minWait := by
  obtain ⟨result, t', hfeed, houtcome⟩ := t.exists_outcome x
  rw [hfeed]
  cases houtcome <;> rfl

/-- A lookup after the event of a thread that no longer waits. -/
theorem get?_erase_thread (t : WaitTracker) (x : WaitInput) (thread : ProcessId × ThreadId) :
    (t.waiting.erase x.thread).get? thread =
      if x.thread = thread then none else t.waiting.get? thread := by
  by_cases h : x.thread = thread
  · rw [if_pos h, h, Table.get?_erase_self]
  · rw [if_neg h, Table.get?_erase_of_ne _ fun heq => h heq.symm]

/-- **After its event a thread waits for what the event began**, and all other threads
go on as before. -/
theorem get?_feed (t : WaitTracker) (x : WaitInput) (thread : ProcessId × ThreadId) :
    (t.feed x).2.waiting.get? thread =
      if x.thread = thread then x.opens? else t.waiting.get? thread := by
  obtain ⟨result, t', hfeed, houtcome⟩ := t.exists_outcome x
  rw [hfeed]
  cases houtcome with
  | begins hopens =>
    rw [Table.get?_insert, hopens]
    by_cases h : x.thread = thread
    · rw [if_pos h, if_pos h.symm]
    · rw [if_neg h, if_neg fun heq => h heq.symm]
  | orphan hends hnone =>
    rw [opens?_of_ends hends]
    split
    · rename_i h
      rw [← h, hnone]
    · rfl
  | ignores hends hwait hshort => rw [opens?_of_ends hends, get?_erase_thread]
  | reports hends hwait hlong => rw [opens?_of_ends hends, get?_erase_thread]

/-- **What is reported** depends on the event and on what its thread waits for. -/
theorem fst_feed (t : WaitTracker) (x : WaitInput) :
    (t.feed x).1 = x.event.managed?.bind fun managed =>
      (t.waiting.get? x.thread).bind fun wait =>
        if (x.context.time.since wait.start).nanos < t.minWait.nanos then none
        else some (x.report wait managed) := by
  obtain ⟨result, t', hfeed, houtcome⟩ := t.exists_outcome x
  rw [hfeed]
  cases houtcome with
  | begins hopens => rw [managed?_of_opens hopens]; rfl
  | orphan hends hnone => rw [hends, hnone]; rfl
  | ignores hends hwait hshort =>
    rw [hends, hwait, Option.bind_some, Option.bind_some, if_pos hshort]
  | reports hends hwait hlong =>
    rw [hends, hwait, Option.bind_some, Option.bind_some, if_neg hlong]

/-- What is reported, names apart. -/
theorem unnamed_fst_feed (t : WaitTracker) (x : WaitInput) :
    (t.feed x).1.map ClosedWait.unnamed =
      x.closes? t.minWait (t.waiting.get? x.thread) := by
  rw [fst_feed, WaitInput.closes?, Option.map_bind]
  congr 1
  funext managed
  rw [Function.comp_apply, Option.map_bind]
  congr 1
  funext wait
  rw [Function.comp_apply]
  split
  · rfl
  · rfl

/-- Waits that go on, were given up or were too short. -/
def keptCount (t : WaitTracker) : Nat := t.openCount + t.misses.duplicateStarts + t.tooShort

/-- **Every event is counted once**: a beginning with the waits, an end with the reports,
the waits that were too short or the ends without a beginning. -/
theorem balance_feed (t : WaitTracker) (x : WaitInput) :
    t.keptCount + x.event.target?.isSome.toNat =
        (t.feed x).2.keptCount + (t.feed x).1.isSome.toNat ∧
      t.tooShort + t.misses.orphanStops + x.event.managed?.isSome.toNat =
        (t.feed x).2.tooShort + (t.feed x).2.misses.orphanStops + (t.feed x).1.isSome.toNat := by
  obtain ⟨result, t', hfeed, houtcome⟩ := t.exists_outcome x
  have hmanaged := x.event.isSome_managed?
  have hopens : x.opens?.isSome = x.event.target?.isSome := Option.isSome_map
  rw [hfeed]
  unfold keptCount openCount
  cases houtcome with
  | @begins wait hbegins =>
    rw [hbegins, Option.isSome_some] at hopens
    rw [← hopens] at hmanaged
    have hsize := t.waiting.size_insert x.thread wait
    rw [Misses.duplicateStarts_duplicateStartIf, Misses.orphanStops_duplicateStartIf, ← hopens,
      hmanaged]
    refine ⟨?_, rfl⟩
    simp only [Option.isSome_none, Bool.toNat_true, Bool.toNat_false]
    omega
  | orphan hends hnone =>
    rw [opens?_of_ends hends, Option.isSome_none] at hopens
    rw [← hopens, hends]
    exact ⟨rfl, rfl⟩
  | ignores hends hwait hshort =>
    rw [opens?_of_ends hends, Option.isSome_none] at hopens
    have hsize := Table.size_erase hwait
    rw [← hopens, hends]
    simp only [Option.isSome_none, Option.isSome_some, Bool.toNat_true, Bool.toNat_false]
    omega
  | reports hends hwait hlong =>
    rw [opens?_of_ends hends, Option.isSome_none] at hopens
    have hsize := Table.size_erase hwait
    rw [← hopens, hends]
    refine ⟨?_, rfl⟩
    simp only [Option.isSome_some, Bool.toNat_true, Bool.toNat_false]
    omega

end WaitTracker
end RuntimeTrace
