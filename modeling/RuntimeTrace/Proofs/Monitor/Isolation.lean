import RuntimeTrace.Monitor
import RuntimeTrace.Proofs.Collection.Places
import RuntimeTrace.Proofs.Request.Lifetime
import RuntimeTrace.Proofs.Run
import RuntimeTrace.Proofs.Wait.Outcome

/-!
# Processes do not disturb each other

The records of all processes reach a monitor in one sequence, interleaved in any way.
This file shows that nothing is lost by that: what is known about a process afterwards,
and the intervals that were reported for it, are what a monitor of this process alone
would have found in its own records.

## How the runs are compared

A step of a monitor is a step of one process (`step_of_watched`), or none at all
(`step_of_unwatched`).  Seen from a process `p`, a run of the monitor is therefore a
run of `p` on the records that it hears of (`heard`), and this is one induction over the
records for the state (`get?_after`) and one for what comes out (`results_of`).

The second needs that an interval says which process it is of, and says it truly.  The
three trackers learn that at different moments.  A request and a wait name the process of
the event that ends them, but a collection names the process of the event that *started*
it, maybe long before.  So what is carried along the run is that every collection a
process keeps, open or held back, is its own (`Owns`).

The main statement is `processes_isolated`.
-/

namespace RuntimeTrace

/-- The records of one process. -/
def Record.ofProcess (p : ProcessId) (records : List Record) : List Record :=
  records.filter fun record => record.context.processId = p

theorem Record.processId_of_mem_ofProcess {p : ProcessId} {records : List Record}
    {record : Record} (h : record ∈ Record.ofProcess p records) : record.context.processId = p :=
  of_decide_eq_true (List.mem_filter.mp h).2

theorem Record.ofProcess_eq_nil {p : ProcessId} {records : List Record} :
    Record.ofProcess p records = [] ↔ ¬ ∃ record ∈ records, record.context.processId = p := by
  rw [ofProcess, List.filter_eq_nil_iff]
  simp

/-! ## What a process reports is its own -/

namespace ProcessState

variable {s : ProcessState} {p : ProcessId}

/-- Every collection that waits is of this process. -/
def Owns (s : ProcessState) (p : ProcessId) : Prop :=
  s.collections.places.All fun id => id.processId = p

theorem owns_start (p : ProcessId) (policy : Policy) : (start p policy).Owns p := by
  constructor <;> exact fun _ h => absurd h (by simp [start, CollectionTracker.start,
    CollectionTracker.places])

/-- A collection is started by the process of the event. -/
theorem processId_of_started {context : EventContext} {event : CollectionEvent}
    {id : CollectionIdentity} (h : (CollectionInput.event context event).started? = some id) :
    id.processId = context.processId := by
  cases event with
  | start count depth reason mode =>
    rw [CollectionInput.started?, Option.some.injEq] at h
    rw [← h]
  | _ => exact absurd h (by simp [CollectionInput.started?])

/-- A step keeps the collections of a process its own, and what it gives is of the process. -/
def KeepsOwn (p : ProcessId) (result : Option Interval × ProcessState) : Prop :=
  result.2.Owns p ∧ ∀ interval, result.1 = some interval → interval.processId = p

/-- A step that has nothing to do with collections and gives nothing. -/
theorem KeepsOwn.none {s' : ProcessState} (h : s.Owns p) (hs : s'.collections = s.collections) :
    KeepsOwn p (none, s') := by
  refine ⟨?_, fun _ h => absurd h (by simp)⟩
  rw [Owns, hs]
  exact h

theorem keepsOwn_onCollection (h : s.Owns p) {context : EventContext}
    (hp : context.processId = p) (event : CollectionEvent) :
    KeepsOwn p (s.onCollection context event) := by
  have hmove := s.collections.moves_feed (.event context event)
  refine ⟨hmove.all h fun id hid => (processId_of_started hid).trans hp, ?_⟩
  intro interval hinterval
  obtain ⟨closed, hclosed, rfl⟩ := Option.map_eq_some_iff.mp hinterval
  have hout : ((s.collections.feed (.event context event)).1.map ClosedCollection.identity) =
      some closed.identity := congrArg _ hclosed
  exact hmove.all_out h hout

theorem keepsOwn_onWait (h : s.Owns p) {context : EventContext} (hp : context.processId = p)
    (event : WaitEvent) : KeepsOwn p (s.onWait context event) := by
  refine ⟨h, ?_⟩
  intro interval hinterval
  obtain ⟨closed, hclosed, rfl⟩ := Option.map_eq_some_iff.mp hinterval
  obtain ⟨result, t', hfeed, houtcome⟩ := s.waits.exists_outcome ⟨s.symbols, context, event⟩
  obtain rfl : result = some closed := (congrArg Prod.fst hfeed).symm.trans hclosed
  cases houtcome with
  | reports hends hwait hlong => exact hp

theorem keepsOwn_onNetwork (h : s.Owns p) {context : EventContext} (hp : context.processId = p)
    (event : NetworkEvent) : KeepsOwn p (s.onNetwork context event) := by
  refine ⟨h, ?_⟩
  intro interval hinterval
  obtain ⟨closed, hclosed, rfl⟩ := Option.map_eq_some_iff.mp hinterval
  have hstep : (s.requests.step context event).1 = some closed := hclosed
  rw [RequestTracker.step_fst, Option.bind_eq_some_iff] at hstep
  obtain ⟨outcome, -, hclosed⟩ := hstep
  obtain ⟨request, -, rfl⟩ := Option.map_eq_some_iff.mp hclosed
  exact hp

theorem keepsOwn_absorb (h : s.Owns p) {record : Record} (hp : record.context.processId = p) :
    KeepsOwn p (s.absorb record) := by
  obtain ⟨context, payload⟩ := record
  cases payload with
  | collection event => exact keepsOwn_onCollection h hp event
  | wait event => exact keepsOwn_onWait h hp event
  | network event => exact keepsOwn_onNetwork h hp event
  | networkBytes provider eventId data =>
    show KeepsOwn p (s.onNetworkBytes context provider eventId data)
    unfold onNetworkBytes
    split
    · exact keepsOwn_onNetwork h hp _
    · exact .none h rfl
  | sample sample =>
    refine .none h ?_
    unfold onSample onProcessorSample onAllocation
    split <;> dsimp only <;> split <;> rfl
  | methodLoad load => exact .none h rfl
  | incident event => exact .none h rfl
  | unclassified provider eventId => exact .none h rfl

/-- **A process that hears only of itself** reports only of itself. -/
theorem keepsOwn_step (h : s.Owns p) {record : Record} (hp : record.context.processId = p) :
    KeepsOwn p (s.step record) := by
  unfold step
  split
  · exact keepsOwn_absorb h hp
  · exact .none h rfl

/-- What a process reports over a run is of the process. -/
theorem processId_of_results (h : s.Owns p) {records : List Record}
    (hrecords : ∀ record ∈ records, record.context.processId = p) :
    ∀ interval ∈ Run.results step s records, interval.processId = p := by
  induction records generalizing s with
  | nil => exact fun interval hinterval => absurd hinterval (by simp)
  | cons record rest ih =>
    rw [List.forall_mem_cons] at hrecords
    have hstep := keepsOwn_step h hrecords.1
    intro interval hinterval
    rw [Run.results_cons, List.mem_append, Option.mem_toList] at hinterval
    rcases hinterval with hnow | hlater
    · exact hstep.2 interval hnow
    · exact ih hstep.1 hrecords.2 interval hlater

end ProcessState

/-! ## One step -/

namespace MonitorStats

/-- Counts what came of a record, if anything did. -/
def countResult (s : MonitorStats) (result : Option Interval) : MonitorStats :=
  result.elim s s.countInterval

/-- The intervals of all kinds. -/
def completed (s : MonitorStats) : Nat := s.collections + s.requests + s.waits

theorem completed_countResult (s : MonitorStats) (result : Option Interval) :
    (s.countResult result).completed = s.completed + result.toList.length := by
  cases result with
  | none => rfl
  | some interval =>
    cases interval <;> simp only [countResult, Option.elim, countInterval, completed,
      Option.toList, List.length_singleton] <;> omega

theorem records_countResult (s : MonitorStats) (result : Option Interval) :
    (s.countResult result).records = s.records := by
  rcases result with _ | (_ | _ | _) <;> rfl

theorem skipped_countResult (s : MonitorStats) (result : Option Interval) :
    (s.countResult result).skipped = s.skipped := by
  rcases result with _ | (_ | _ | _) <;> rfl

end MonitorStats

namespace Monitor

variable {m : Monitor} {record : Record} {p : ProcessId}

/-- The outlet may fill or close; nothing else depends on it. -/
theorem exists_send (m : Monitor) (interval : Interval) :
    ∃ outlet dropped, m.send interval = { m with outlet := outlet, dropped := dropped } := by
  unfold send
  split
  · exact ⟨m.outlet, m.dropped, rfl⟩
  · split
    · exact ⟨_, m.dropped, rfl⟩
    · split
      · exact ⟨_, m.dropped, rfl⟩
      · exact ⟨m.outlet, _, rfl⟩

/-- A record of a process that is not of interest is counted, twice. -/
theorem step_of_unwatched (h : m.watches record.context.processId = false) :
    m.step record = (none, { m with
      stats := { m.stats with
        records := m.stats.records + 1
        skipped := m.stats.skipped + 1 } }) := by
  have hwatches : ∀ stats, ({ m with stats := stats } : Monitor).watches
      record.context.processId = false := fun _ => h
  unfold step
  dsimp only
  rw [hwatches, if_neg (by simp)]

/-- **A step of a monitor is a step of one process**, and what comes of it is counted and
kept. -/
theorem step_of_watched (h : m.watches record.context.processId = true) :
    ∃ outlet dropped, m.step record =
      (((m.stateOf record.context.processId).step record).1,
        { policy := m.policy
          target := m.target
          stats := MonitorStats.countResult { m.stats with records := m.stats.records + 1 }
            ((m.stateOf record.context.processId).step record).1
          processes := m.processes.insert record.context.processId
            ((m.stateOf record.context.processId).step record).2
          kept := m.kept.map
            (· ++ ((m.stateOf record.context.processId).step record).1.toList.flatMap
              Interval.traceEvents)
          outlet := outlet
          dropped := dropped }) := by
  have hwatches : ∀ stats, ({ m with stats := stats } : Monitor).watches
      record.context.processId = true := fun _ => h
  have hstate : ∀ stats, ({ m with stats := stats } : Monitor).stateOf
      record.context.processId = m.stateOf record.context.processId := fun _ => rfl
  unfold step
  dsimp only
  rw [hwatches, if_pos rfl, hstate]
  obtain ⟨result, state⟩ := (m.stateOf record.context.processId).step record
  cases result with
  | none =>
    refine ⟨m.outlet, m.dropped, ?_⟩
    simp [MonitorStats.countResult]
  | some interval =>
    dsimp only
    unfold passOn
    obtain ⟨outlet, dropped, hsend⟩ := exists_send _ interval
    rw [hsend]
    refine ⟨outlet, dropped, ?_⟩
    simp [MonitorStats.countResult]

/-- What a step gives. -/
theorem fst_step (m : Monitor) (record : Record) :
    (m.step record).1 = if m.watches record.context.processId then
      ((m.stateOf record.context.processId).step record).1 else none := by
  cases h : m.watches record.context.processId with
  | false =>
    rw [step_of_unwatched h]
    rfl
  | true =>
    obtain ⟨outlet, dropped, hstep⟩ := step_of_watched h
    rw [hstep]
    rfl

theorem settings_step (m : Monitor) (record : Record) :
    (m.step record).2.policy = m.policy ∧ (m.step record).2.target = m.target := by
  cases h : m.watches record.context.processId with
  | false =>
    rw [step_of_unwatched h]
    exact ⟨rfl, rfl⟩
  | true =>
    obtain ⟨outlet, dropped, hstep⟩ := step_of_watched h
    rw [hstep]
    exact ⟨rfl, rfl⟩

theorem watches_step (m : Monitor) (record : Record) (p : ProcessId) :
    (m.step record).2.watches p = m.watches p := by
  rw [watches, (m.settings_step record).2, watches]

/-- A process hears of a record: the record is its own, and it is of interest. -/
def hears (m : Monitor) (p : ProcessId) (record : Record) : Bool :=
  m.watches p && record.context.processId == p

theorem hears_iff :
    m.hears p record = true ↔ m.watches p = true ∧ record.context.processId = p := by
  rw [hears, Bool.and_eq_true, beq_iff_eq]

/-- **A lookup after a step** finds a new state under the process of the record, and what
was there before under any other. -/
theorem get?_step (m : Monitor) (record : Record) (p : ProcessId) :
    (m.step record).2.processes.get? p =
      if m.hears p record then some ((m.stateOf p).step record).2 else m.processes.get? p := by
  by_cases hp : record.context.processId = p
  · subst hp
    cases h : m.watches record.context.processId with
    | false =>
      have hears : ¬ m.hears record.context.processId record = true := by
        rw [hears_iff, h]
        simp
      rw [step_of_unwatched h, if_neg hears]
    | true =>
      obtain ⟨outlet, dropped, hstep⟩ := step_of_watched h
      rw [hstep, Table.get?_insert, if_pos rfl, if_pos (hears_iff.mpr ⟨h, rfl⟩)]
  · rw [if_neg fun hears => hp (hears_iff.mp hears).2]
    cases h : m.watches record.context.processId with
    | false => rw [step_of_unwatched h]
    | true =>
      obtain ⟨outlet, dropped, hstep⟩ := step_of_watched h
      rw [hstep, Table.get?_insert, if_neg fun heq => hp heq.symm]

theorem stateOf_step (m : Monitor) (record : Record) (p : ProcessId) :
    (m.step record).2.stateOf p =
      if m.hears p record then ((m.stateOf p).step record).2 else m.stateOf p := by
  rw [stateOf, get?_step, (m.settings_step record).1]
  split
  · rfl
  · rfl

/-- An interval that comes out is of the process of the record. -/
theorem processId_of_fst_step {interval : Interval}
    (hown : (m.stateOf record.context.processId).Owns record.context.processId)
    (h : (m.step record).1 = some interval) : interval.processId = record.context.processId := by
  rw [fst_step] at h
  split at h
  · exact (ProcessState.keepsOwn_step hown rfl).2 interval h
  · exact absurd h (by simp)

/-! ## A run, seen from one process -/

/-- The records that a process hears of. -/
def heard (m : Monitor) (p : ProcessId) (records : List Record) : List Record :=
  records.filter fun record => m.hears p record

theorem heard_cons (m : Monitor) (p : ProcessId) (record : Record) (rest : List Record) :
    m.heard p (record :: rest) =
      if m.hears p record then record :: m.heard p rest else m.heard p rest :=
  List.filter_cons

/-- What a process hears of does not depend on what was read before. -/
theorem heard_step (m : Monitor) (record : Record) (p : ProcessId) (records : List Record) :
    (m.step record).2.heard p records = m.heard p records := by
  unfold heard hears
  rw [watches_step]

/-- **What is known about a process** after a run is what it makes of the records it hears
of; without any, and unknown before, it stays unknown. -/
theorem get?_after (m : Monitor) (p : ProcessId) (records : List Record) :
    (Run.after step m records).processes.get? p =
      if m.processes.get? p = none ∧ m.heard p records = [] then none
      else some (Run.after ProcessState.step (m.stateOf p) (m.heard p records)) := by
  induction records generalizing m with
  | nil =>
    rw [Run.after_nil, heard, List.filter_nil, Run.after_nil, stateOf]
    cases m.processes.get? p with
    | none => rfl
    | some state => rfl
  | cons record rest ih =>
    rw [Run.after_cons, ih, heard_step, get?_step, stateOf_step, heard_cons]
    split
    · rw [if_neg fun h => absurd h.1 (by simp), if_neg fun h => absurd h.2 (by simp)]
      rfl
    · rfl

/-- Every process keeps collections of its own only. -/
def Sound (m : Monitor) : Prop := ∀ p, (m.stateOf p).Owns p

theorem Sound.step (h : m.Sound) (record : Record) : (m.step record).2.Sound := by
  intro p
  rw [stateOf_step]
  split
  · rename_i hears
    exact (ProcessState.keepsOwn_step (h p) (hears_iff.mp hears).2).1
  · exact h p

/-- **What comes out of a run for a process** is what comes out of the run of the process
alone. -/
theorem results_of (hm : m.Sound) (p : ProcessId) (records : List Record) :
    (Run.results step m records).filter (fun interval => interval.processId = p) =
      Run.results ProcessState.step (m.stateOf p) (m.heard p records) := by
  induction records generalizing m with
  | nil => rfl
  | cons record rest ih =>
    have hrest := ih (hm.step record)
    rw [heard_step, stateOf_step] at hrest
    rw [Run.results_cons, List.filter_append, hrest, heard_cons]
    have howner : ∀ interval ∈ (m.step record).1.toList,
        interval.processId = record.context.processId :=
      fun interval h => processId_of_fst_step (hm _) (Option.mem_toList.mp h)
    by_cases hears : m.hears p record = true
    · obtain ⟨hwatches, rfl⟩ := hears_iff.mp hears
      rw [if_pos hears, if_pos hears, Run.results_cons,
        List.filter_eq_self.mpr fun interval h => decide_eq_true (howner interval h), fst_step,
        if_pos hwatches]
    · rw [if_neg hears, if_neg hears]
      suffices hnone :
          (m.step record).1.toList.filter (fun interval => interval.processId = p) = [] by
        rw [hnone, List.nil_append]
      rw [List.filter_eq_nil_iff]
      intro interval h hp
      rw [decide_eq_true_eq, howner interval h] at hp
      -- a record of `p` that `p` does not hear of is of no interest, and gives nothing
      have hwatches : ¬ m.watches record.context.processId = true := by
        rw [hp]
        exact fun hwatches => hears (hears_iff.mpr ⟨hwatches, hp⟩)
      rw [fst_step, if_neg hwatches] at h
      exact absurd h (by simp)

/-! ## What is counted and kept -/

theorem stats_step (m : Monitor) (record : Record) :
    (m.step record).2.stats.records = m.stats.records + 1 ∧
      (m.step record).2.stats.skipped =
        m.stats.skipped + (!m.watches record.context.processId).toNat ∧
      (m.step record).2.stats.completed =
        m.stats.completed + (m.step record).1.toList.length := by
  cases h : m.watches record.context.processId with
  | false =>
    rw [step_of_unwatched h]
    exact ⟨rfl, rfl, rfl⟩
  | true =>
    obtain ⟨outlet, dropped, hstep⟩ := step_of_watched h
    rw [hstep, MonitorStats.records_countResult, MonitorStats.skipped_countResult,
      MonitorStats.completed_countResult]
    exact ⟨rfl, rfl, rfl⟩

theorem kept_step (m : Monitor) (record : Record) :
    (m.step record).2.kept =
      m.kept.map (· ++ (m.step record).1.toList.flatMap Interval.traceEvents) := by
  cases h : m.watches record.context.processId with
  | false =>
    rw [step_of_unwatched h]
    simp
  | true =>
    obtain ⟨outlet, dropped, hstep⟩ := step_of_watched h
    rw [hstep]

/-- **Every record is counted**, as one of no interest if it is, and so is every interval. -/
theorem stats_after (m : Monitor) (records : List Record) :
    (Run.after step m records).stats.records = m.stats.records + records.length ∧
      (Run.after step m records).stats.skipped = m.stats.skipped +
        records.countP (fun record => !m.watches record.context.processId) ∧
      (Run.after step m records).stats.completed =
        m.stats.completed + (Run.results step m records).length := by
  induction records generalizing m with
  | nil => exact ⟨rfl, rfl, rfl⟩
  | cons record rest ih =>
    obtain ⟨hrecords, hskipped, hcompleted⟩ := ih (m.step record).2
    obtain ⟨hrecords', hskipped', hcompleted'⟩ := m.stats_step record
    simp only [watches_step] at hskipped
    rw [Run.after_cons, Run.results_cons, List.length_append, List.length_cons, List.countP_cons,
      hrecords, hskipped, hcompleted, hrecords', hskipped', hcompleted']
    refine ⟨by omega, ?_, by omega⟩
    cases m.watches record.context.processId with
    | false => simp only [Bool.not_false, Bool.toNat_true, if_true]; omega
    | true => simp

/-- **The events of every interval are kept**, in order. -/
theorem kept_after (m : Monitor) (records : List Record) :
    (Run.after step m records).kept =
      m.kept.map (· ++ (Run.results step m records).flatMap Interval.traceEvents) := by
  induction records generalizing m with
  | nil => simp
  | cons record rest ih =>
    rw [Run.after_cons, ih, kept_step, Run.results_cons, List.flatMap_append, Option.map_map]
    congr 1
    funext events
    exact List.append_assoc _ _ _

/-! ## Isolation -/

section Start

variable (policy : Policy) (target : Option ProcessId) (keepsEvents : Bool)
  (outlet : Option Outlet)

/-- At the start every process of interest hears all its records, and no other any. -/
theorem heard_start (p : ProcessId) (records : List Record) :
    (start policy target keepsEvents outlet).heard p records =
      if (start policy target keepsEvents outlet).watches p then Record.ofProcess p records
      else [] := by
  unfold heard hears
  split
  · rename_i h
    simp only [h, Bool.true_and]
    rfl
  · rename_i h
    simp [h]

theorem sound_start : (start policy target keepsEvents outlet).Sound :=
  fun p => ProcessState.owns_start p policy

/-- **A process of interest that occurs is known**, in the state that it reaches alone, and no
other is. -/
theorem get?_after_start (p : ProcessId) (records : List Record) :
    (Run.after step (start policy target keepsEvents outlet) records).processes.get? p =
      if (start policy target keepsEvents outlet).watches p = true ∧
          ∃ record ∈ records, record.context.processId = p then
        some (Run.after ProcessState.step (.start p policy) (Record.ofProcess p records))
      else none := by
  rw [get?_after, heard_start]
  by_cases hwatches : (start policy target keepsEvents outlet).watches p = true
  · rw [if_pos hwatches]
    simp only [hwatches, true_and]
    by_cases hoccurs : ∃ record ∈ records, record.context.processId = p
    · rw [if_pos hoccurs, if_neg fun h => Record.ofProcess_eq_nil.mp h.2 hoccurs]
      rfl
    · rw [if_neg hoccurs, if_pos ⟨rfl, Record.ofProcess_eq_nil.mpr hoccurs⟩]
  · rw [if_neg hwatches, if_pos ⟨rfl, rfl⟩, if_neg fun h => hwatches h.1]

/-- **Processes are isolated.**  However the records of the processes are mixed, a process
of interest that occurs is in the state that it reaches alone, on its own records, and no
other process is known.  What came out for it is what comes out of it alone, and is of
this process.  All records are counted, those of no interest once more, and so are the
intervals of the three kinds, whose events are kept in order. -/
theorem processes_isolated (records : List Record) :
    let m := start policy target keepsEvents outlet
    let final := Run.after step m records
    let emitted := Run.results step m records
    (∀ p, final.processes.get? p =
      if m.watches p = true ∧ ∃ record ∈ records, record.context.processId = p then
        some (Run.after ProcessState.step (.start p policy) (Record.ofProcess p records))
      else none) ∧
    (∀ p, emitted.filter (fun interval => interval.processId = p) =
      if m.watches p = true then
        Run.results ProcessState.step (.start p policy) (Record.ofProcess p records)
      else []) ∧
    (∀ p, ∀ interval ∈
        Run.results ProcessState.step (.start p policy) (Record.ofProcess p records),
      interval.processId = p) ∧
    final.stats.records = records.length ∧
    final.stats.skipped = records.countP (fun record => !m.watches record.context.processId) ∧
    final.stats.collections + final.stats.requests + final.stats.waits = emitted.length ∧
    final.kept = if keepsEvents then some (emitted.flatMap Interval.traceEvents) else none := by
  intro m final emitted
  obtain ⟨hrecords, hskipped, hcompleted⟩ := m.stats_after records
  refine ⟨fun p => get?_after_start policy target keepsEvents outlet p records, ?_, ?_,
    hrecords.trans (Nat.zero_add _), hskipped.trans (Nat.zero_add _),
    hcompleted.trans (Nat.zero_add _), ?_⟩
  · intro p
    rw [results_of (sound_start policy target keepsEvents outlet), heard_start]
    split
    · rfl
    · rfl
  · intro p
    exact ProcessState.processId_of_results (ProcessState.owns_start p policy)
      fun record => Record.processId_of_mem_ofProcess
  · rw [m.kept_after records]
    cases keepsEvents with
    | false => rfl
    | true => rfl

end Start

/-- Processes seven and eight collect at the same time, and process nine waits; of interest is
only process seven. -/
def interleaved : List Record :=
  let about (time : UInt64) (p : ProcessId) : EventContext :=
    ⟨⟨time⟩, p, 1, ActivityId.nil, ActivityId.nil, 0, none⟩
  [⟨about 10 7, .collection (.start 1 2 0 1)⟩, ⟨about 11 8, .collection (.start 1 0 0 0)⟩,
    ⟨about 12 9, .wait (.handleStart 0)⟩, ⟨about 20 8, .collection (.heapStats .zero)⟩,
    ⟨about 25 7, .collection (.globalHeapHistory 2 0)⟩]

theorem processes_isolated_interleaved :
    let final := Run.after step (start .default (some 7) false none) interleaved
    let emitted := Run.results step (start .default (some 7) false none) interleaved
    ∃ interval ∈
        Run.results ProcessState.step (.start 7 .default) (Record.ofProcess 7 interleaved),
      interval.processId = 7 ∧ interval.duration = ⟨15⟩ ∧
      emitted.filter (fun interval => interval.processId = 7) = [interval] ∧
      final.processes.get? 8 = none ∧ final.stats = ⟨5, 1, 0, 0, 3⟩ := by
  obtain ⟨hknown, hemitted, hown, -⟩ :=
    processes_isolated .default (some 7) false none interleaved
  have halone : ∃ interval, Run.results ProcessState.step (.start 7 .default)
      (Record.ofProcess 7 interleaved) = [interval] ∧ interval.duration = ⟨15⟩ := ⟨_, rfl, rfl⟩
  obtain ⟨interval, halone, hduration⟩ := halone
  have hmem : interval ∈
      Run.results ProcessState.step (.start 7 .default) (Record.ofProcess 7 interleaved) := by
    rw [halone]
    exact List.mem_singleton_self interval
  exact ⟨interval, hmem, hown 7 interval hmem, hduration, (hemitted 7).trans halone, hknown 8, rfl⟩

end Monitor
end RuntimeTrace
