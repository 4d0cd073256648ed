import RuntimeTrace.Proofs.Process.Parts
import RuntimeTrace.Proofs.Symbols

/-!
# Where the names of a process come from

The names in a report are answers, and an answer may have been given long before the report.
This file keeps track of when.  The methods a process knows are those of the loads it has
seen; an address is asked for only once a record has brought it in a stack; and so every
answer is the name the address had after some part of the trace that already held such a
record (`Named`).

Two such names of one address are the same, unless a method that contains the address was
loaded between the two moments.  Then the address had been seen before any such method was
loaded (`SeenBeforeLoad`), which a well-behaved runtime does not do to code that it runs:
it loads a method before a stack can hold an address in it.

What a process remembers after a part of the trace is `Remembers`, and `Remembers.step` that
it remembers so after one record more, whatever the families it reads.
-/

namespace RuntimeTrace

namespace WaitTracker

/-- The names of a stack, and what naming them leaves. -/
theorem stackNames_eq (symbols : Symbols) (stack : Option (List UInt64)) :
    stackNames symbols stack =
      ((stack.getD []).map fun a => Frame.shownName ⟨a, (symbols.resolve a).1⟩,
        (symbols.frames (stack.getD [])).2) := by
  cases stack with
  | none => rfl
  | some addresses =>
    show ((symbols.frames addresses).1.map Frame.shownName, (symbols.frames addresses).2) = _
    rw [Option.getD_some, symbols.fst_frames, List.map_map]
    rfl

/-- An event of a wait asks for the stack of a wait that goes on, or for nothing. -/
theorem exists_symbols_step (t : WaitTracker) (symbols : Symbols) (context : EventContext)
    (event : WaitEvent) : ∃ addresses,
      (t.step symbols context event).2.2 = (symbols.frames addresses).2 ∧
      ∀ a ∈ addresses, ∃ thread wait, t.waiting.get? thread = some wait ∧
        a ∈ wait.stack.getD [] := by
  have hnothing : ∀ a ∈ ([] : List UInt64), ∃ thread wait,
      t.waiting.get? thread = some wait ∧ a ∈ wait.stack.getD [] := by simp
  have hfinish : ∀ managed, ∃ addresses,
      (t.finish symbols context managed).2.2 = (symbols.frames addresses).2 ∧
      ∀ a ∈ addresses, ∃ thread wait, t.waiting.get? thread = some wait ∧
        a ∈ wait.stack.getD [] := by
    intro managed
    unfold finish
    dsimp only
    split
    · exact ⟨[], rfl, hnothing⟩
    · rename_i wait hwait
      split
      · exact ⟨[], rfl, hnothing⟩
      · refine ⟨wait.stack.getD [], ?_, fun a ha => ⟨_, wait, hwait, ha⟩⟩
        rw [stackNames_eq]
  cases event with
  | start flags => exact ⟨[], rfl, hnothing⟩
  | handleStart source => exact ⟨[], rfl, hnothing⟩
  | stop flags durationNs => exact hfinish (flags == 0)
  | handleStop => exact hfinish true

end WaitTracker

/-! ## What a trace says of names -/

namespace Record

/-- The method that a record makes known. -/
def method? (record : Record) : Option Method :=
  match record.payload with
  | .methodLoad load => some (.ofLoad load)
  | _ => none

/-- The methods that a trace makes known, in the order they were loaded. -/
def methods (records : List Record) : List Method := records.filterMap method?

/-- The addresses that a record brings to be named, now or when the wait that it begins
ends. -/
def stackToName (record : Record) : List UInt64 :=
  match record.payload with
  | .sample _ => record.context.stack.getD []
  | .wait event => if event.target?.isSome then record.context.stack.getD [] else []
  | _ => []

/-- A record begins a wait of a thread. -/
def Begins (record : Record) (thread : ProcessId × ThreadId) (wait : OpenWait) : Prop :=
  ∃ event target, record.payload = .wait event ∧ event.target? = some target ∧
    WaitTracker.threadOf record.context = thread ∧
    wait = ⟨record.context.time, target, record.context.stack⟩

theorem Begins.stackToName {record : Record} {thread : ProcessId × ThreadId} {wait : OpenWait}
    (h : record.Begins thread wait) : record.stackToName = wait.stack.getD [] := by
  obtain ⟨event, target, hpayload, htarget, -, rfl⟩ := h
  rw [Record.stackToName, hpayload]
  exact if_pos (by rw [htarget, Option.isSome_some])

end Record

/-- The trace brings the address in a stack to be named. -/
def Seen (records : List Record) (a : UInt64) : Prop :=
  ∃ record ∈ records, a ∈ record.stackToName

/-- **The address is seen too early**: before any method that contains it is loaded, though
one is later. -/
def SeenBeforeLoad (records : List Record) (a : UInt64) : Prop :=
  ∃ before later, records = before ++ later ∧ Seen before a ∧
    (∀ m ∈ Record.methods before, m.contains a = false) ∧
    ∃ m ∈ Record.methods later, m.contains a = true

/-- The name an address has by what is known after these records. -/
def nameAfter (native : NativeNames) (records : List Record) (a : UInt64) : String :=
  Symbols.lookup ⟨Record.methods records, native, Table.empty, 0⟩ a

/-- A name that the address had at some moment since it was seen. -/
def Named (native : NativeNames) (records : List Record) (a : UInt64) (name : String) : Prop :=
  ∃ before, before <+: records ∧ Seen before a ∧ name = nameAfter native before a

variable {native : NativeNames} {records past past' : List Record} {a : UInt64}

theorem Seen.append (h : Seen past a) (more : List Record) : Seen (past ++ more) a := by
  obtain ⟨record, hrecord, ha⟩ := h
  exact ⟨record, List.mem_append_left more hrecord, ha⟩

theorem Named.mono {name : String} (h : Named native past a name) (hpast : past <+: past') :
    Named native past' a name := by
  obtain ⟨before, hbefore, hseen, hname⟩ := h
  exact ⟨before, hbefore.trans hpast, hseen, hname⟩

theorem SeenBeforeLoad.mono (h : SeenBeforeLoad past a) (hpast : past <+: past') :
    SeenBeforeLoad past' a := by
  obtain ⟨before, later, rfl, hseen, hnone, m, hm, hcontains⟩ := h
  obtain ⟨more, rfl⟩ := hpast
  refine ⟨before, later ++ more, List.append_assoc _ _ _, hseen, hnone, m, ?_, hcontains⟩
  rw [Record.methods, List.filterMap_append]
  exact List.mem_append_left _ hm

/-- **Names last** from the moment the address is seen, unless it is seen too early. -/
theorem nameAfter_eq_or (hseen : Seen past a) (hpast : past <+: past') :
    nameAfter native past a = nameAfter native past' a ∨ SeenBeforeLoad past' a := by
  obtain ⟨between, rfl⟩ := hpast
  have hmethods : Record.methods (past ++ between) =
      Record.methods past ++ Record.methods between := List.filterMap_append
  unfold nameAfter Symbols.lookup
  rw [hmethods, List.find?_append]
  cases hearly : (Record.methods past).find? fun m => m.contains a with
  | some m => exact .inl rfl
  | none =>
    cases hlate : (Record.methods between).find? fun m => m.contains a with
    | none => exact .inl rfl
    | some m =>
      exact .inr ⟨past, between, rfl, hseen,
        fun m hm => Bool.eq_false_iff.mpr (List.find?_eq_none.mp hearly m hm),
        m, List.mem_of_find?_eq_some hlate, (List.find?_some hlate :)⟩

/-- **Two names of an address** are the same, unless it is seen too early. -/
theorem Named.unique {name name' : String} (h : Named native past a name)
    (h' : Named native past' a name') (hpast : past <+: records) (hpast' : past' <+: records) :
    name = name' ∨ SeenBeforeLoad records a := by
  obtain ⟨before, hbefore, hseen, rfl⟩ := h
  obtain ⟨before', hbefore', hseen', rfl⟩ := h'
  have hrecords := hbefore.trans hpast
  have hrecords' := hbefore'.trans hpast'
  rcases List.prefix_or_prefix_of_prefix hrecords hrecords' with hle | hle
  · exact (nameAfter_eq_or hseen hle).imp id fun h => h.mono hrecords'
  · exact (nameAfter_eq_or hseen' hle).imp Eq.symm fun h => h.mono hrecords

/-! ## What a process remembers -/

namespace ProcessState

variable {s : ProcessState} {record : Record}

/-- What a process remembers of the records it has seen: the methods, answers that were
right at some moment, and the beginnings of waits that go on. -/
structure Remembers (native : NativeNames) (past : List Record) (s : ProcessState) : Prop where
  methods : s.symbols.methods = Record.methods past
  resolver : s.symbols.native = native
  answers : ∀ a name, s.symbols.answers.get? a = some name → Named native past a name
  waiting : ∀ thread wait, s.waits.waiting.get? thread = some wait →
    ∃ record ∈ past, record.Begins thread wait

theorem remembers_start (processId : ProcessId) (policy : Policy) (native : NativeNames) :
    Remembers native [] ((start processId policy).setNative native) where
  methods := rfl
  resolver := rfl
  answers _ _ h := absurd h (by simp [start, setNative, Symbols.setNative, Symbols.empty])
  waiting _ _ h := absurd h (by simp [start, setNative, WaitTracker.start])

/-- The stack of a wait that goes on has been seen. -/
theorem Remembers.seen (h : Remembers native past s) {thread : ProcessId × ThreadId}
    {wait : OpenWait} (hwait : s.waits.waiting.get? thread = some wait)
    (ha : a ∈ wait.stack.getD []) : Seen past a := by
  obtain ⟨record, hrecord, hbegins⟩ := h.waiting thread wait hwait
  exact ⟨record, hrecord, hbegins.stackToName ▸ ha⟩

/-- **The name of an address that has been seen** is one it had since. -/
theorem Remembers.named (h : Remembers native past s) (hpast : past <+: past')
    (hmethods : Record.methods past' = Record.methods past) (hseen : Seen past' a) :
    Named native past' a (s.symbols.resolve a).1 := by
  rw [Symbols.resolve_fst]
  cases hanswer : s.symbols.answers.get? a with
  | some name => exact (h.answers a name hanswer).mono hpast
  | none =>
    refine ⟨past', List.prefix_refl past', hseen, ?_⟩
    exact Symbols.lookup_congr (h.methods.trans hmethods.symm) h.resolver a

/-- What reading a record does to the names: it makes a method known, or asks for the names
of a stack that it brings or that a wait has kept. -/
theorem absorb_symbols (s : ProcessState) (record : Record) :
    (∃ m, record.method? = some m ∧ (s.absorb record).2.symbols = s.symbols.addMethod m) ∨
    record.method? = none ∧ ∃ addresses,
      (s.absorb record).2.symbols = (s.symbols.frames addresses).2 ∧
      ∀ a ∈ addresses, a ∈ record.stackToName ∨
        ∃ thread wait, s.waits.waiting.get? thread = some wait ∧ a ∈ wait.stack.getD [] := by
  have hnothing : ∀ a ∈ ([] : List UInt64), a ∈ record.stackToName ∨
      ∃ thread wait, s.waits.waiting.get? thread = some wait ∧ a ∈ wait.stack.getD [] := by simp
  obtain ⟨context, payload⟩ := record
  cases payload with
  | methodLoad load => exact .inl ⟨_, rfl, rfl⟩
  | wait event =>
    obtain ⟨addresses, hsymbols, hkept⟩ :=
      s.waits.exists_symbols_step s.symbols context event
    exact .inr ⟨rfl, addresses, hsymbols, fun a ha => .inr (hkept a ha)⟩
  | networkBytes provider eventId data =>
    refine .inr ⟨rfl, [], ?_, hnothing⟩
    unfold absorb onNetworkBytes
    dsimp only
    split
    · rfl
    · rfl
  | sample sample =>
    refine .inr ⟨rfl, context.stack.getD [], ?_, fun a ha => .inl ha⟩
    obtain ⟨time, processId, threadId, activityId, relatedActivityId, keywords, stack⟩ := context
    cases sample with
    | processor => cases stack <;> rfl
    | allocation typeName amount isLarge => cases stack <;> rfl
  | collection event => exact .inr ⟨rfl, [], rfl, hnothing⟩
  | network event => exact .inr ⟨rfl, [], rfl, hnothing⟩
  | incident event => exact .inr ⟨rfl, [], rfl, hnothing⟩
  | unclassified provider eventId => exact .inr ⟨rfl, [], rfl, hnothing⟩

/-- Loads of methods are always read. -/
theorem method?_of_not_reads (h : s.reads record.payload = false) : record.method? = none := by
  obtain ⟨context, payload⟩ := record
  cases payload with
  | methodLoad load => exact Bool.noConfusion h
  | _ => rfl

/-- What a record means to the waits, with the names of the process. -/
def onWaits (s : ProcessState) (record : Record) : Option ClosedWait × WaitTracker :=
  Run.attend Record.wait? (fun t x => t.feed ⟨s.symbols, x.1, x.2⟩) s.waits record

/-- **What a record does to the waits**, and what is reported of them. -/
theorem step_waits (hread : s.policy.families.contains .contention = true) (record : Record) :
    (s.step record).1.bind Interval.wait? = (s.onWaits record).1 ∧
      (s.step record).2.waits = (s.onWaits record).2 :=
  Prod.mk.inj (step_of_absorb waits Record.family_of_wait? (fun _ => rfl)
    (s.absorb_parts record).2.2 hread)

/-- A wait that goes on after a record went on before it, or begins with it. -/
theorem waiting_step {thread : ProcessId × ThreadId} {wait : OpenWait}
    (h : (s.step record).2.waits.waiting.get? thread = some wait) :
    s.waits.waiting.get? thread = some wait ∨ record.Begins thread wait := by
  cases hread : s.policy.families.contains .contention with
  | false =>
    have hsame : (s.step record).2.waits = s.waits := samePart_step hread record
    exact .inl (hsame ▸ h)
  | true =>
    have hwaits := (step_waits hread record).2
    obtain ⟨context, payload⟩ := record
    cases payload with
    | wait event =>
      have hfeed : (s.step ⟨context, .wait event⟩).2.waits =
          (s.waits.feed ⟨s.symbols, context, event⟩).2 := hwaits
      rw [hfeed, WaitTracker.get?_feed] at h
      split at h
      · rename_i hthread
        obtain ⟨target, htarget, hwait⟩ := Option.map_eq_some_iff.mp h
        exact .inr ⟨event, target, rfl, htarget, hthread, hwait.symm⟩
      · exact .inl h
    | _ =>
      have hsame : (s.step _).2.waits = s.waits := hwaits
      exact .inl (hsame ▸ h)

/-- **A process remembers** one record more. -/
theorem Remembers.step (h : Remembers native past s) (record : Record) :
    Remembers native (past ++ [record]) (s.step record).2 := by
  have hpast : past <+: past ++ [record] := List.prefix_append past [record]
  have hloaded : Record.methods (past ++ [record]) =
      Record.methods past ++ record.method?.toList := by
    rw [Record.methods, List.filterMap_append, List.filterMap_cons, Record.methods]
    cases record.method? with
    | none => rfl
    | some m => rfl
  have hwaiting : ∀ thread wait, (s.step record).2.waits.waiting.get? thread = some wait →
      ∃ record' ∈ past ++ [record], record'.Begins thread wait := by
    intro thread wait hwait
    rcases waiting_step hwait with hold | hnew
    · obtain ⟨record', hrecord', hbegins⟩ := h.waiting thread wait hold
      exact ⟨record', List.mem_append_left _ hrecord', hbegins⟩
    · exact ⟨record, List.mem_append_right _ List.mem_cons_self, hnew⟩
  have hold : ∀ a name, s.symbols.answers.get? a = some name →
      Named native (past ++ [record]) a name := fun a name hanswer =>
    (h.answers a name hanswer).mono hpast
  cases hreads : s.reads record.payload with
  | false =>
    have hnone := method?_of_not_reads hreads
    have hsymbols : (s.step record).2.symbols = s.symbols := by rw [step_of_not_reads hreads]
    refine ⟨?_, hsymbols ▸ h.resolver, hsymbols ▸ hold, hwaiting⟩
    rw [hsymbols, hloaded, hnone, h.methods, Option.toList_none, List.append_nil]
  | true =>
    rw [step_of_reads hreads] at hwaiting ⊢
    rcases s.absorb_symbols record with ⟨m, hm, hsymbols⟩ | ⟨hnone, addresses, hsymbols, hseen⟩
    · refine ⟨?_, hsymbols ▸ h.resolver, hsymbols ▸ hold, hwaiting⟩
      rw [hsymbols, hloaded, hm, ← h.methods]
      rfl
    · have hmethods : Record.methods (past ++ [record]) = Record.methods past := by
        rw [hloaded, hnone, Option.toList_none, List.append_nil]
      obtain ⟨hknown, hresolver⟩ := s.symbols.known_frames addresses
      refine ⟨?_, ?_, fun a name hanswer => ?_, hwaiting⟩
      · rw [hsymbols, hknown, hmethods, h.methods]
      · rw [hsymbols, hresolver, h.resolver]
      · rw [hsymbols, Symbols.get?_answers_frames] at hanswer
        split at hanswer
        · rename_i ha
          obtain rfl := Option.some.inj hanswer
          refine h.named hpast hmethods ?_
          rcases hseen a ha with hhere | ⟨thread, wait, hwait, hkept⟩
          · exact ⟨record, List.mem_append_right _ List.mem_cons_self, hhere⟩
          · exact (h.seen hwait hkept).append [record]
        · exact hold a name hanswer

end ProcessState
end RuntimeTrace
