import Mathlib.Data.List.Forall2
import RuntimeTrace.Proofs.Process.Naming

/-!
# Settings hide waits

How a trace is read is a matter of taste: which families, when a collection is done, how
short a wait is too short to report.  For waits it should make no difference but one.  Of two
policies that both read waits, the one with the larger threshold reports those waits of the
other that reach it.

That is so up to names.  The policies run through the trace side by side, and at each record
the same threads wait for the same things (`Alongside`), since no setting has a say in that.
So they report the same waits, if they report them, with the same stacks.  But what a
setting hides is not always without effect.  A short wait that is reported, or a sample
that is read, asks for the names of its stack, and answers are kept; a policy that hides it
asks later, when a method may have been loaded in between.  Then one report has a number
where the other has a name.

This needs an address that is seen before any method that contains it is loaded.  All
other addresses are named alike, and if there are none of this kind the reports are the same
in all they say: `waits_under_policies`.  That the two may differ otherwise is
`short_wait_changes_name`.
-/

namespace RuntimeTrace

theorem WaitInput.duration_report (x : WaitInput) (wait : OpenWait) (managed : Bool) :
    (x.report wait managed).duration = x.context.time.since wait.start := rfl

/-- A record ends a wait. -/
def Record.Ends (record : Record) (w : ClosedWait) : Prop :=
  ∃ event, record.payload = .wait event ∧ event.managed?.isSome ∧
    WaitTracker.threadOf record.context = (w.processId, w.threadId) ∧
    w.duration = record.context.time.since w.start

/-- One wait, in two reports.  They agree in all but the names of the stack, which is that of
the record that began the wait; and they agree in the name of every address that was not
seen too early by the end of the wait. -/
structure SameWait (records : List Record) (w w' : ClosedWait) : Prop where
  unnamed : w.unnamed = w'.unnamed
  names : ∃ before last, before ++ [last] <+: records ∧ last.Ends w ∧
    ∃ first ∈ before, ∃ wait, first.Begins (w.processId, w.threadId) wait ∧
      wait.start = w.start ∧ wait.target = w.target ∧
      ∃ name name' : UInt64 → String,
        w.callStack = (wait.stack.getD []).map name ∧
        w'.callStack = (wait.stack.getD []).map name' ∧
        ∀ a ∈ wait.stack.getD [], name a = name' a ∨ SeenBeforeLoad before a

/-- Without addresses that are seen too early there is no difference. -/
theorem SameWait.eq {records : List Record} {w w' : ClosedWait} (h : SameWait records w w')
    (hearly : ∀ a, ¬ SeenBeforeLoad records a) : w = w' := by
  obtain ⟨before, last, hlast, -, -, -, wait, -, -, -, name, name', hstack, hstack', hnames⟩ :=
    h.names
  have hbefore : before <+: records := (List.prefix_append before [last]).trans hlast
  have hsame : w.callStack = w'.callStack := by
    rw [hstack, hstack']
    exact List.map_congr_left fun a ha => (hnames a ha).resolve_right fun hseen =>
      hearly a (hseen.mono hbefore)
  have hunnamed := h.unnamed
  cases w
  cases w'
  simp only [ClosedWait.unnamed, ClosedWait.mk.injEq] at hunnamed hsame ⊢
  exact ⟨hunnamed.1, hunnamed.2.1, hunnamed.2.2.1, hunnamed.2.2.2.1, hunnamed.2.2.2.2.1,
    hunnamed.2.2.2.2.2.1, hsame⟩

namespace ProcessState

variable {native : NativeNames} {records past : List Record} {s s' : ProcessState}

theorem minWait_step (s : ProcessState) (record : Record) :
    (s.step record).2.waits.minWait = s.waits.minWait := by
  cases hread : s.policy.families.contains .contention with
  | false =>
    have hsame : (s.step record).2.waits = s.waits := samePart_step hread record
    rw [hsame]
  | true =>
    rw [(step_waits hread record).2, onWaits, Run.attend]
    cases record.wait? with
    | none => rfl
    | some x => exact s.waits.minWait_feed _

/-- Two processes that have seen the same records, both of which read waits. -/
structure Alongside (native : NativeNames) (past : List Record) (s s' : ProcessState) :
    Prop where
  left : Remembers native past s
  right : Remembers native past s'
  readLeft : s.policy.families.contains .contention = true
  readRight : s'.policy.families.contains .contention = true
  waiting : ∀ thread, s.waits.waiting.get? thread = s'.waits.waiting.get? thread

/-- **No setting has a say** in who waits for what. -/
theorem Alongside.step (h : Alongside native past s s') (record : Record) :
    Alongside native (past ++ [record]) (s.step record).2 (s'.step record).2 where
  left := h.left.step record
  right := h.right.step record
  readLeft := by rw [policy_step, h.readLeft]
  readRight := by rw [policy_step, h.readRight]
  waiting thread := by
    rw [(step_waits h.readLeft record).2, (step_waits h.readRight record).2, onWaits, onWaits,
      Run.attend, Run.attend]
    cases record.wait? with
    | none => exact h.waiting thread
    | some x =>
      rw [WaitTracker.get?_feed, WaitTracker.get?_feed, h.waiting]
      rfl

/-- A wait that both report is the same wait in both reports. -/
theorem Alongside.sameWait (h : Alongside native past s s') {record : Record}
    (hpast : past ++ [record] <+: records) {event : WaitEvent}
    (hevent : record.payload = .wait event) {managed : Bool}
    (hmanaged : event.managed? = some managed) {wait : OpenWait}
    (hwait : s'.waits.waiting.get? (WaitTracker.threadOf record.context) = some wait) :
    SameWait records (WaitInput.report ⟨s.symbols, record.context, event⟩ wait managed)
      (WaitInput.report ⟨s'.symbols, record.context, event⟩ wait managed) := by
  refine ⟨rfl, past, record, hpast, ⟨event, hevent, ?_, rfl, rfl⟩, ?_⟩
  · rw [hmanaged, Option.isSome_some]
  · obtain ⟨first, hfirst, hbegins⟩ := h.right.waiting _ wait hwait
    refine ⟨first, hfirst, wait, hbegins, rfl, rfl,
      fun a => Frame.shownName ⟨a, (s.symbols.resolve a).1⟩,
      fun a => Frame.shownName ⟨a, (s'.symbols.resolve a).1⟩, ?_, ?_, fun a ha => ?_⟩
    · exact congrArg Prod.fst (WaitTracker.stackNames_eq s.symbols wait.stack)
    · exact congrArg Prod.fst (WaitTracker.stackNames_eq s'.symbols wait.stack)
    · have hseen := h.right.seen hwait ha
      have hname := h.left.named (List.prefix_refl past) rfl hseen
      have hname' := h.right.named (List.prefix_refl past) rfl hseen
      exact (hname.unique hname' (List.prefix_refl past) (List.prefix_refl past)).imp
        (congrArg fun symbol => Frame.shownName ⟨a, symbol⟩) id

/-- **What is reported at a record**: under the larger threshold, what is reported under the
smaller if it reaches the larger. -/
theorem Alongside.report (h : Alongside native past s s')
    (hle : s.waits.minWait.nanos ≤ s'.waits.minWait.nanos) {record : Record}
    (hpast : past ++ [record] <+: records) :
    Option.Rel (SameWait records)
      (((s.step record).1.bind Interval.wait?).filter fun w =>
        s'.waits.minWait.nanos ≤ w.duration.nanos)
      ((s'.step record).1.bind Interval.wait?) := by
  rw [(step_waits h.readLeft record).1, (step_waits h.readRight record).1, onWaits, onWaits,
    Run.attend, Run.attend]
  cases hx : record.wait? with
  | none => exact .none
  | some x =>
    obtain ⟨event, hevent, rfl⟩ := Record.exists_event_of_wait? hx
    dsimp only
    rw [WaitTracker.fst_feed, WaitTracker.fst_feed, h.waiting]
    dsimp only [WaitInput.thread]
    cases hmanaged : event.managed? with
    | none => exact .none
    | some managed =>
      cases hwait : s'.waits.waiting.get? (WaitTracker.threadOf record.context) with
      | none => exact .none
      | some wait =>
        rw [Option.bind_some, Option.bind_some, Option.bind_some, Option.bind_some]
        by_cases hlong : s'.waits.minWait.nanos ≤ (record.context.time.since wait.start).nanos
        · rw [if_neg (UInt64.not_lt.mpr (UInt64.le_trans hle hlong)),
            if_neg (UInt64.not_lt.mpr hlong), Option.filter_some, WaitInput.duration_report,
            if_pos (decide_eq_true hlong)]
          exact .some (h.sameWait hpast hevent hmanaged hwait)
        · rw [if_pos (UInt64.not_le.mp hlong)]
          split
          · exact .none
          · rw [Option.filter_some, WaitInput.duration_report,
              if_neg fun hdecide => hlong (of_decide_eq_true hdecide)]
            exact .none

/-- **What is reported over a run** is so related record by record. -/
theorem Alongside.reports {rest : List Record} {threshold : Duration}
    (h : Alongside native past s s') (hle : s.waits.minWait.nanos ≤ threshold.nanos)
    (hthreshold : s'.waits.minWait = threshold) (hrecords : past ++ rest = records) :
    List.Forall₂ (fun o o' : Option Interval => Option.Rel (SameWait records)
        ((o.bind Interval.wait?).filter fun w => threshold.nanos ≤ w.duration.nanos)
        (o'.bind Interval.wait?))
      (Run.outputs ProcessState.step s rest) (Run.outputs ProcessState.step s' rest) := by
  induction rest generalizing past s s' with
  | nil => exact .nil
  | cons record rest ih =>
    have hrecords' : past ++ [record] ++ rest = records := by
      rw [List.append_assoc, List.singleton_append, hrecords]
    subst hthreshold
    refine .cons (h.report hle ⟨rest, hrecords'⟩)
      (ih (h.step record) ?_ (s'.minWait_step record) hrecords')
    rw [minWait_step]
    exact hle

/-- The waits that a process reports, in the order in which they end. -/
def waitsUnder (processId : ProcessId) (native : NativeNames) (policy : Policy)
    (records : List Record) : List ClosedWait :=
  (Run.results step ((start processId policy).setNative native) records).filterMap
    Interval.wait?

/-- **Settings hide waits.**  Of two policies that both read waits, the one with the larger
threshold reports those waits of the other that reach it, in the same order.  A report is the
same in all but the names of its stack, and in those that are not of an address that was seen
too early; so if there is no such address, in all. -/
theorem waits_under_policies (processId : ProcessId) (native : NativeNames) (P Q : Policy)
    (hP : P.families.contains .contention = true) (hQ : Q.families.contains .contention = true)
    (hle : P.minWait.nanos ≤ Q.minWait.nanos) (records : List Record) :
    let long := (waitsUnder processId native P records).filter fun w =>
      Q.minWait.nanos ≤ w.duration.nanos
    List.Forall₂ (SameWait records) long (waitsUnder processId native Q records) ∧
      ((∀ a, ¬ SeenBeforeLoad records a) → long = waitsUnder processId native Q records) := by
  intro long
  have hstart : Alongside native [] ((start processId P).setNative native)
      ((start processId Q).setNative native) :=
    ⟨remembers_start processId P native, remembers_start processId Q native, hP, hQ,
      fun _ => rfl⟩
  have hreports := hstart.reports hle (rfl : _ = Q.minWait) (List.nil_append records)
  have hlong : List.Forall₂ (SameWait records) long (waitsUnder processId native Q records) := by
    unfold long waitsUnder Run.results
    rw [List.filterMap_filterMap, List.filter_filterMap, List.filterMap_filterMap]
    exact List.rel_filterMap (fun o o' hrel => hrel) hreports
  refine ⟨hlong, fun hearly => ?_⟩
  exact List.forall₂_eq_eq_eq ▸ hlong.imp fun w w' hsame => hsame.eq hearly

/-- The context of a record of process seven. -/
def aboutSeven (time : UInt64) (stack : Option (List UInt64)) : EventContext :=
  ⟨⟨time⟩, 7, 1, ActivityId.nil, ActivityId.nil, 0, stack⟩

/-- A method that contains the address 4112. -/
def worker : Record :=
  ⟨aboutSeven 20 none, .methodLoad ⟨4096, 256, "App", "Worker", "void  ()"⟩⟩

/-- A short wait. -/
def shortWait : List Record :=
  [⟨aboutSeven 0 (some [4112]), .wait (.start 0)⟩,
    ⟨aboutSeven 10 none, .wait (.stop 0 Binary64.zero)⟩]

/-- A long wait at the same address. -/
def longWait : List Record :=
  [⟨aboutSeven 100 (some [4112]), .wait (.start 0)⟩,
    ⟨aboutSeven 300 none, .wait (.stop 0 Binary64.zero)⟩]

/-- Only waits are read, and those that reach a threshold are reported. -/
def waitsFrom (threshold : UInt64) : Policy := ⟨.heapStats, .only .contention, ⟨threshold⟩⟩

/-- The method is loaded before its address is seen, and both policies give its name. -/
theorem waits_under_policies_workerFirst :
    let records := worker :: (shortWait ++ longWait)
    let long := (waitsUnder 7 (fun _ => none) (waitsFrom 0) records).filter fun w =>
      (100 : UInt64) ≤ w.duration.nanos
    (∀ a, ¬ SeenBeforeLoad records a) ∧
      long = waitsUnder 7 (fun _ => none) { Policy.default with minWait := ⟨100⟩ } records ∧
      long.map ClosedWait.callStack = [["App.Worker()"]] := by
  intro records long
  have hearly : ∀ a, ¬ SeenBeforeLoad records a := by
    rintro a ⟨before, later, hrecords, ⟨record, hrecord, -⟩, -, m, hm, -⟩
    cases before with
    | nil => exact absurd hrecord (by simp)
    | cons first before =>
      -- the one load is the first record, so none is behind it
      have hrest : shortWait ++ longWait = before ++ later := (List.cons.inj hrecords).2
      have hnone : Record.methods (shortWait ++ longWait) = [] := rfl
      rw [hrest, Record.methods, List.filterMap_append, List.append_eq_nil_iff] at hnone
      rw [Record.methods, hnone.2] at hm
      exact absurd hm (by simp)
  refine ⟨hearly, ?_, by decide⟩
  exact (waits_under_policies 7 (fun _ => none) (waitsFrom 0)
    { Policy.default with minWait := ⟨100⟩ } rfl rfl (by decide) records).2 hearly

/-- **A wait that is not reported changes a name.**  The method is loaded between the short
wait and the long one.  Where the short wait is reported, its address is a number from then
on; where it is not, the long wait is the first to ask. -/
theorem short_wait_changes_name :
    let records := shortWait ++ worker :: longWait
    let all := waitsUnder 7 (fun _ => none) (waitsFrom 0) records
    let long := waitsUnder 7 (fun _ => none) (waitsFrom 100) records
    (waitsFrom 0).families.contains .contention = true ∧
      (waitsFrom 100).families.contains .contention = true ∧
      (waitsFrom 0).minWait.nanos ≤ (waitsFrom 100).minWait.nanos ∧
      all.map ClosedWait.callStack = [["0x1010"], ["0x1010"]] ∧
      long.map ClosedWait.callStack = [["App.Worker()"]] ∧
      all.filter (fun w => (100 : UInt64) ≤ w.duration.nanos) ≠ long := by
  decide

end ProcessState
end RuntimeTrace
