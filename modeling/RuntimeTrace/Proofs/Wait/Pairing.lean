import RuntimeTrace.Proofs.Wait.Outcome

/-!
# Waits are paired thread by thread

All threads of all processes share one table, so what a thread waits for could be
changed by an event of another.  It is not: what a thread waits for is what its own last
event began (`get?_before_iff`).  The induction is over the trace, and `get?_feed` says
what each event does to it.

With that, a report is described by the trace alone.  The end of a wait is reported
exactly when the last event of its thread before it began a wait, and long enough ago
(`exists_report_iff`).  It also follows that a thread gives the same reports when
its events are taken in alone (`reports_of_thread`).

The counts need no positions.  Each event is counted once where it happens, and so it
is along a run (`balance`).

Main statement: `waits_paired`.
-/

namespace RuntimeTrace
namespace WaitTracker

/-- The tracker before the input at a position. -/
def before (minWait : Duration) (inputs : List WaitInput) (n : Nat) : WaitTracker :=
  Run.after feed (start minWait) (inputs.take n)

/-- What each input gives. -/
def results (minWait : Duration) (inputs : List WaitInput) : List (Option ClosedWait) :=
  Run.outputs feed (start minWait) inputs

variable {minWait : Duration} {inputs : List WaitInput}

theorem getElem?_results (minWait : Duration) (inputs : List WaitInput) (n : Nat) :
    (results minWait inputs)[n]? = inputs[n]?.map fun x => ((before minWait inputs n).feed x).1 :=
  Run.getElem?_outputs feed (start minWait) inputs n

/-- The threshold never changes. -/
theorem minWait_after (t : WaitTracker) (inputs : List WaitInput) :
    (Run.after feed t inputs).minWait = t.minWait := by
  induction inputs generalizing t with
  | nil => rfl
  | cons x rest ih =>
    rw [Run.after_cons, ih]
    exact t.minWait_feed x

/-! ## The last event of a thread -/

/-- Position `i` is the last before `n` that belongs to a thread. -/
structure LastOf (inputs : List WaitInput) (i n : Nat) (thread : ProcessId × ThreadId)
    (x : WaitInput) : Prop where
  lt : i < n
  here : inputs[i]? = some x
  thread_eq : x.thread = thread
  last : ∀ m y, i < m → m < n → inputs[m]? = some y → y.thread ≠ thread

variable {thread : ProcessId × ThreadId}

theorem lastOf_zero {i : Nat} {x : WaitInput} : ¬ LastOf inputs i 0 thread x :=
  fun h => Nat.not_lt_zero i h.lt

/-- Right after an event of the thread that event is the last. -/
theorem lastOf_succ_self {n i : Nat} {x y : WaitInput} (hx : inputs[n]? = some x)
    (hthread : x.thread = thread) : LastOf inputs i (n + 1) thread y ↔ i = n ∧ y = x := by
  constructor
  · intro h
    have hin : i = n := by
      rcases Nat.lt_succ_iff_lt_or_eq.mp h.lt with hlt | heq
      · exact absurd hthread (h.last n x hlt (Nat.lt_succ_self n) hx)
      · exact heq
    subst hin
    exact ⟨rfl, Option.some.inj (h.here.symm.trans hx)⟩
  · rintro ⟨rfl, rfl⟩
    refine ⟨Nat.lt_succ_self i, hx, hthread, ?_⟩
    intro m y him hmi
    exact absurd (Nat.lt_succ_iff.mp hmi) (Nat.not_le.mpr him)

/-- An event of another thread changes nothing. -/
theorem lastOf_succ_of_ne {n i : Nat} {x y : WaitInput} (hx : inputs[n]? = some x)
    (hthread : x.thread ≠ thread) :
    LastOf inputs i (n + 1) thread y ↔ LastOf inputs i n thread y := by
  constructor
  · intro h
    have hin : i ≠ n := by
      rintro rfl
      apply hthread
      rw [Option.some.inj (hx.symm.trans h.here), h.thread_eq]
    refine ⟨by have := h.lt; omega, h.here, h.thread_eq, ?_⟩
    exact fun m z him hmn => h.last m z him (Nat.lt_succ_of_lt hmn)
  · intro h
    refine ⟨Nat.lt_succ_of_lt h.lt, h.here, h.thread_eq, ?_⟩
    intro m z him hmn hz
    rcases Nat.lt_succ_iff_lt_or_eq.mp hmn with hlt | rfl
    · exact h.last m z him hlt hz
    · rwa [← Option.some.inj (hx.symm.trans hz)]

/-- **A thread waits for what its last event began.** -/
theorem get?_before_iff {n : Nat} (hn : n ≤ inputs.length) {wait : OpenWait} :
    (before minWait inputs n).waiting.get? thread = some wait ↔
      ∃ i x, LastOf inputs i n thread x ∧ x.opens? = some wait := by
  refine Run.after_take_induction feed (P := fun n t => ∀ {wait : OpenWait},
    t.waiting.get? thread = some wait ↔
      ∃ i x, LastOf inputs i n thread x ∧ x.opens? = some wait) ?_ ?_ n hn
  · intro wait
    constructor
    · intro h
      exact absurd h (by simp [start])
    · rintro ⟨i, x, hlast, -⟩
      exact absurd hlast lastOf_zero
  · intro n x hx ih wait
    rw [get?_feed]
    by_cases hthread : x.thread = thread
    · simp only [if_pos hthread, lastOf_succ_self hx hthread]
      simp
    · simp only [if_neg hthread, lastOf_succ_of_ne hx hthread]
      exact ih

/-! ## Reports -/

/-- Position `j` ends a wait that the last event of its thread before it, at position
`i`, began long enough ago. -/
structure PairedAt (minWait : Duration) (inputs : List WaitInput) (i j : Nat) (x y : WaitInput)
    (target : WaitTarget) (managed : Bool) : Prop where
  last : LastOf inputs i j y.thread x
  begins : x.event.target? = some target
  here : inputs[j]? = some y
  ends : y.event.managed? = some managed
  long : minWait.toNat ≤ y.context.time.toNat - x.context.time.toNat

/-- The wait between two inputs, names apart. -/
def between (x y : WaitInput) (target : WaitTarget) (managed : Bool) : ClosedWait where
  processId := y.context.processId
  threadId := y.context.threadId
  start := x.context.time
  duration := y.context.time.since x.context.time
  target := target
  isManaged := target == .waitHandle || managed
  callStack := []

/-- What an end reports, as a condition on what its thread waits for. -/
theorem closes?_eq_some_iff {y : WaitInput} {waiting : Option OpenWait} {w : ClosedWait} :
    y.closes? minWait waiting = some w ↔ ∃ managed wait, y.event.managed? = some managed ∧
      waiting = some wait ∧ minWait.toNat ≤ y.context.time.toNat - wait.start.toNat ∧
      w = (y.report wait managed).unnamed := by
  have hlong : ∀ wait : OpenWait, ¬ (y.context.time.since wait.start).nanos < minWait.nanos ↔
      minWait.toNat ≤ y.context.time.toNat - wait.start.toNat := by
    intro wait
    rw [UInt64.lt_iff_toNat_lt, Nat.not_lt, ← Instant.toNat_since]
    rfl
  simp only [WaitInput.closes?, Option.bind_eq_some_iff, Option.ite_none_left_eq_some, hlong,
    Option.some.injEq, eq_comm (b := w)]
  constructor
  · rintro ⟨managed, hends, wait, hwaiting, hlong, hw⟩
    exact ⟨managed, wait, hends, hwaiting, hlong, hw⟩
  · rintro ⟨managed, wait, hends, hwaiting, hlong, hw⟩
    exact ⟨managed, hends, wait, hwaiting, hlong, hw⟩

/-- **A wait is reported exactly where a pair of events ends.** -/
theorem exists_report_iff {j : Nat} {w : ClosedWait} :
    (∃ r, (results minWait inputs)[j]? = some (some r) ∧ r.unnamed = w) ↔
      ∃ i x y target managed, PairedAt minWait inputs i j x y target managed ∧
        w = between x y target managed := by
  have hfeed : ∀ y, ((before minWait inputs j).feed y).1.map ClosedWait.unnamed =
      y.closes? minWait ((before minWait inputs j).waiting.get? y.thread) := by
    intro y
    rw [unnamed_fst_feed, show (before minWait inputs j).minWait = minWait from minWait_after _ _]
  have hreport : (∃ r, (results minWait inputs)[j]? = some (some r) ∧ r.unnamed = w) ↔
      ∃ y, inputs[j]? = some y ∧
        y.closes? minWait ((before minWait inputs j).waiting.get? y.thread) = some w := by
    rw [getElem?_results]
    constructor
    · rintro ⟨r, hr, rfl⟩
      obtain ⟨y, hy, hfst⟩ := Option.map_eq_some_iff.mp hr
      exact ⟨y, hy, by rw [← hfeed, hfst]; rfl⟩
    · rintro ⟨y, hy, hcloses⟩
      obtain ⟨r, hr, hw⟩ := Option.map_eq_some_iff.mp ((hfeed y).trans hcloses)
      exact ⟨r, by rw [hy, Option.map_some, hr], hw⟩
  rw [hreport]
  constructor
  · rintro ⟨y, hy, hcloses⟩
    obtain ⟨managed, wait, hends, hwaiting, hlong, rfl⟩ := closes?_eq_some_iff.mp hcloses
    have hj : j ≤ inputs.length := Nat.le_of_lt (List.getElem?_eq_some_iff.mp hy).1
    obtain ⟨i, x, hlast, hopens⟩ := (get?_before_iff hj).mp hwaiting
    obtain ⟨target, hbegins, rfl⟩ := Option.map_eq_some_iff.mp hopens
    exact ⟨i, x, y, target, managed, ⟨hlast, hbegins, hy, hends, hlong⟩, rfl⟩
  · rintro ⟨i, x, y, target, managed, hpaired, rfl⟩
    have hj : j ≤ inputs.length := Nat.le_of_lt (List.getElem?_eq_some_iff.mp hpaired.here).1
    have hopens : x.opens? = some ⟨x.context.time, target, x.context.stack⟩ := by
      rw [WaitInput.opens?, hpaired.begins]
      rfl
    have hwaiting : (before minWait inputs j).waiting.get? y.thread =
        some ⟨x.context.time, target, x.context.stack⟩ :=
      (get?_before_iff hj).mpr ⟨i, x, hpaired.last, hopens⟩
    exact ⟨y, hpaired.here, closes?_eq_some_iff.mpr
      ⟨managed, _, hpaired.ends, hwaiting, hpaired.long, rfl⟩⟩

/-! ## Counts -/

/-- How many inputs begin a wait. -/
def beginCount (inputs : List WaitInput) : Nat := inputs.countP fun x => x.event.target?.isSome

/-- How many inputs end a wait. -/
def endCount (inputs : List WaitInput) : Nat := inputs.countP fun x => x.event.managed?.isSome

/-- How many waits are reported. -/
def reportCount (outputs : List (Option ClosedWait)) : Nat := outputs.countP Option.isSome

/-- **Every event of a run is counted once.** -/
theorem balance (t : WaitTracker) (inputs : List WaitInput) :
    t.keptCount + beginCount inputs =
        (Run.after feed t inputs).keptCount + reportCount (Run.outputs feed t inputs) ∧
      t.tooShort + t.misses.orphanStops + endCount inputs =
        (Run.after feed t inputs).tooShort + (Run.after feed t inputs).misses.orphanStops +
          reportCount (Run.outputs feed t inputs) := by
  have hcons : ∀ {α : Type} (p : α → Bool) (a : α) (rest : List α),
      (a :: rest).countP p = (p a).toNat + rest.countP p := by
    intro α p a rest
    rw [List.countP_cons, Nat.add_comm]
    cases p a <;> rfl
  induction inputs generalizing t with
  | nil => exact ⟨rfl, rfl⟩
  | cons x rest ih =>
    obtain ⟨hkept, hends⟩ := t.balance_feed x
    obtain ⟨hkept', hends'⟩ := ih (t.feed x).2
    have hreports := hcons Option.isSome (t.feed x).1 (Run.outputs feed (t.feed x).2 rest)
    have hbegins := hcons (fun x => x.event.target?.isSome) x rest
    have hstops := hcons (fun x => x.event.managed?.isSome) x rest
    rw [Run.after_cons, Run.outputs_cons, beginCount, endCount, reportCount, hbegins, hstops,
      hreports]
    unfold beginCount at hkept'
    unfold endCount at hends'
    unfold reportCount at hkept' hends'
    omega

/-! ## One thread alone -/

/-- What the inputs of a thread give, names apart. -/
def reportsOf (thread : ProcessId × ThreadId) (inputs : List WaitInput)
    (outputs : List (Option ClosedWait)) : List (Option ClosedWait) :=
  ((inputs.zip outputs).filter fun x => x.1.thread == thread).map
    fun x => x.2.map ClosedWait.unnamed

/-- Inputs that differ in their symbols begin and report the same, names apart. -/
theorem congr_of_bare {x y : WaitInput} (h : x.bare = y.bare) :
    x.thread = y.thread ∧ x.opens? = y.opens? ∧ x.closes? = y.closes? := by
  obtain ⟨symbols, context, event⟩ := x
  obtain ⟨symbols', context', event'⟩ := y
  obtain ⟨rfl, rfl⟩ := Prod.mk.inj h
  exact ⟨rfl, rfl, rfl⟩

/-- **A thread gives the same reports when it is alone.**  The induction carries along
that in both runs it waits for the same. -/
theorem reports_of_thread {t part : WaitTracker} (hminWait : t.minWait = part.minWait)
    (hwaiting : t.waiting.get? thread = part.waiting.get? thread) {own : List WaitInput}
    (hown : own.map WaitInput.bare =
      (inputs.filter fun x => x.thread == thread).map WaitInput.bare) :
    (Run.outputs feed part own).map (Option.map ClosedWait.unnamed) =
      reportsOf thread inputs (Run.outputs feed t inputs) := by
  induction inputs generalizing t part own with
  | nil =>
    rw [List.map_eq_nil_iff.mp hown]
    rfl
  | cons x rest ih =>
    by_cases hthread : x.thread = thread
    · rw [List.filter_cons_of_pos (by simpa using hthread), List.map_cons,
        List.map_eq_cons_iff] at hown
      obtain ⟨y, own', rfl, hbare, hown'⟩ := hown
      obtain ⟨hthread', hopens, hcloses⟩ := congr_of_bare hbare
      rw [hthread] at hthread'
      have hminWait' : (t.feed x).2.minWait = (part.feed y).2.minWait := by
        rw [minWait_feed, minWait_feed, hminWait]
      have hwaiting' :
          (t.feed x).2.waiting.get? thread = (part.feed y).2.waiting.get? thread := by
        rw [get?_feed, get?_feed, if_pos hthread, if_pos hthread', hopens]
      have hrest := ih hminWait' hwaiting' hown'
      have hhead : (part.feed y).1.map ClosedWait.unnamed =
          (t.feed x).1.map ClosedWait.unnamed := by
        rw [unnamed_fst_feed, unnamed_fst_feed, hthread, hthread', hminWait, hwaiting, hcloses]
      rw [Run.outputs_cons, List.map_cons, hhead, hrest, reportsOf, reportsOf, Run.outputs_cons,
        List.zip_cons_cons, List.filter_cons_of_pos (by simpa using hthread)]
      rfl
    · rw [List.filter_cons_of_neg (by simpa using hthread)] at hown
      have hminWait' : (t.feed x).2.minWait = part.minWait := by rw [minWait_feed, hminWait]
      have hwaiting' : (t.feed x).2.waiting.get? thread = part.waiting.get? thread := by
        rw [get?_feed, if_neg hthread, hwaiting]
      have hrest := ih hminWait' hwaiting' hown
      rw [hrest, reportsOf, reportsOf, Run.outputs_cons, List.zip_cons_cons,
        List.filter_cons_of_neg (by simpa using hthread)]

/-- **Waits are paired thread by thread**, in every trace of any threads of any
processes.

* A report at position `j`, names apart, is of the wait between the input there, which
  ends a wait, and the last input of the same thread before it, if that begins one and
  the time between them is not below the threshold; and every such pair is reported.
* At every point the waits that began so far go on, were given up, were reported or
  were too short, and those that ended so far were reported, were too short or had not
  been seen to begin.
* Each thread gives, names apart, what it gives when its inputs are taken in alone,
  whatever symbols are known at their moments. -/
theorem waits_paired (minWait : Duration) (inputs : List WaitInput) :
    (∀ j w, (∃ r, (results minWait inputs)[j]? = some (some r) ∧ r.unnamed = w) ↔
      ∃ i x y target managed, PairedAt minWait inputs i j x y target managed ∧
        w = between x y target managed) ∧
    (∀ n, beginCount (inputs.take n) =
        (before minWait inputs n).openCount + (before minWait inputs n).misses.duplicateStarts +
          reportCount ((results minWait inputs).take n) + (before minWait inputs n).tooShort ∧
      endCount (inputs.take n) =
        reportCount ((results minWait inputs).take n) + (before minWait inputs n).tooShort +
          (before minWait inputs n).misses.orphanStops) ∧
    ∀ thread own, own.map WaitInput.bare =
        (inputs.filter fun x => x.thread == thread).map WaitInput.bare →
      (results minWait own).map (Option.map ClosedWait.unnamed) =
        reportsOf thread inputs (results minWait inputs) := by
  refine ⟨fun j w => exists_report_iff, ?_, fun thread own hown => reports_of_thread rfl rfl hown⟩
  intro n
  obtain ⟨hkept, hends⟩ := (start minWait).balance (inputs.take n)
  have hempty : (start minWait).keptCount = 0 := rfl
  have hnone : (start minWait).tooShort + (start minWait).misses.orphanStops = 0 := rfl
  rw [hempty, Run.outputs_take, keptCount] at hkept
  rw [hnone, Run.outputs_take] at hends
  unfold before results
  omega

/-- A wait of thread `tid` of process seven. -/
def waitAt (time : UInt64) (tid : ThreadId) (symbols : Symbols) (event : WaitEvent) : WaitInput :=
  ⟨symbols, ⟨⟨time⟩, 7, tid, ActivityId.nil, ActivityId.nil, 0, none⟩, event⟩

/-- Two threads: the first begins twice before it ends, the second ends within its wait
and once more. -/
def twoThreads : List WaitInput :=
  [waitAt 10 1 Symbols.empty (.handleStart 0), waitAt 12 2 Symbols.empty (.start 0),
    waitAt 15 1 Symbols.empty (.start 0), waitAt 18 2 Symbols.empty (.stop 1 (Binary64.ofNat 6)),
    waitAt 19 2 Symbols.empty .handleStop, waitAt 40 1 Symbols.empty (.stop 0 (Binary64.ofNat 25))]

theorem waits_paired_twoThreads :
    let symbols := Symbols.empty.addMethod ⟨16, 4, "Main"⟩
    let own := [waitAt 10 1 symbols (.handleStart 0), waitAt 15 1 symbols (.start 0),
      waitAt 40 1 symbols (.stop 0 (Binary64.ofNat 25))]
    own.map WaitInput.bare =
        (twoThreads.filter fun x => x.thread == (7, 1)).map WaitInput.bare ∧
      (results ⟨5⟩ own).map (Option.map ClosedWait.unnamed) =
        reportsOf (7, 1) twoThreads (results ⟨5⟩ twoThreads) ∧
      (results ⟨5⟩ twoThreads).map (Option.map ClosedWait.duration) =
        [none, none, none, some ⟨6⟩, none, some ⟨25⟩] := by
  refine ⟨rfl, ?_, by decide⟩
  exact (waits_paired ⟨5⟩ twoThreads).2.2 (7, 1) _ rfl

end WaitTracker
end RuntimeTrace
