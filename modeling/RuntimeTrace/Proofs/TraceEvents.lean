import Mathlib.Data.List.Forall2
import Mathlib.Data.List.Sort
import RuntimeTrace.Proofs.Binary64
import RuntimeTrace.TraceEvents

/-!
# What an exported file shows

Every interval is shown as one or more *spans*: itself, and the phases of a request after it.
A span is a stretch of trace time, and nothing in it depends on other intervals.  A file has
one event for each span, and with it comes the choice of an origin that all of them share.

The origin is the earliest start (`isOrigin_origin`), so the differences that the file shows
are true differences of the trace clock: none of them was cut off at zero, although `since`
would do that.  It depends on the starts alone and not on their order.

The names of lanes are sorted twice, by process and within a process by lane.  Both orders
are strict, so the list of named lanes is determined by its members, and these are read off
the kinds of the intervals.  A thread may have the number of a shared lane; its waits
do not name the lane.

Main statement: `file_shows_intervals`.
-/

namespace RuntimeTrace

/-! ## Spans -/

/-- A stretch of trace time that is to be shown. -/
structure Span where
  name : String
  processId : ProcessId
  lane : Nat
  start : Instant
  duration : Duration

/-- The completed phases of a leg under their names, in the order in which a request goes
through them. -/
def LegPhases.named (lead : String) (p : LegPhases) : List (String × PhaseSpan) :=
  [("dns", p.completed.dns), ("socket", p.completed.socket), ("tls", p.completed.tls),
    ("request/response", p.completed.requestResponse)].filterMap
      fun (name, timing?) => timing?.map fun timing => (lead ++ name, timing)

namespace Interval

/-- The name under which an interval is shown. -/
def name : Interval → String
  | .collection c => "GC #" ++ toString c.number.toNat ++ " gen" ++ toString c.generation.toNat
  | .request r => r.title
  | .wait w => w.callStack.head?.getD "contention"

/-- The number of the lane in which an interval stands. -/
def lane : Interval → Nat
  | .collection _ => 0
  | .request _ => 1
  | .wait w => w.threadId.toNat

/-- The completed phases of a request, those of the redirected leg last. -/
def phases : Interval → List (String × PhaseSpan)
  | .request r => r.phases.named "" ++
    match r.redirect with
    | some leg => leg.phases.named "redirect "
    | none => []
  | _ => []

/-- What is shown of an interval: itself, and then its phases. -/
def spans (i : Interval) : List Span :=
  ⟨i.name, i.processId, i.lane, i.start, i.duration⟩ ::
    i.phases.map fun (name, timing) => ⟨name, i.processId, 1, timing.start, timing.duration⟩

end Interval

/-- The span that an event shows. -/
def TraceEvent.span (event : TraceEvent) : Span :=
  ⟨event.name, event.processId, event.lane.number, event.start, event.duration⟩

theorem LegPhases.map_span_traceEvents (p : LegPhases) (processId : ProcessId) (lead : String) :
    (p.traceEvents processId lead).map TraceEvent.span = (p.named lead).map
      fun (name, timing) => ⟨name, processId, 1, timing.start, timing.duration⟩ := by
  obtain ⟨⟨dns, socket, tls, requestResponse⟩, begun, queueing⟩ := p
  cases dns <;> cases socket <;> cases tls <;> cases requestResponse <;> rfl

/-- **The events of an interval show its spans**, one each and in order. -/
theorem Interval.map_span_traceEvents (i : Interval) :
    i.traceEvents.map TraceEvent.span = i.spans := by
  cases i with
  | collection c => rfl
  | wait w => rfl
  | request r =>
    refine congrArg (List.cons _) ?_
    rw [phases, List.map_append, List.map_append, LegPhases.map_span_traceEvents]
    refine congrArg _ ?_
    cases r.redirect with
    | none => rfl
    | some leg => exact LegPhases.map_span_traceEvents _ _ _

/-- The lane of the events of an interval. -/
def Interval.commonLane : Interval → Lane
  | .collection _ => .collections
  | .request _ => .requests
  | .wait w => .thread w.threadId

theorem Interval.commonLane_eq_collections {i : Interval} :
    i.commonLane = .collections ↔ ∃ c, i = .collection c := by
  cases i <;> simp [commonLane]

theorem Interval.commonLane_eq_requests {i : Interval} :
    i.commonLane = .requests ↔ ∃ r, i = .request r := by
  cases i <;> simp [commonLane]

theorem LegPhases.of_mem_traceEvents {p : LegPhases} {processId : ProcessId} {lead : String}
    {event : TraceEvent} (h : event ∈ p.traceEvents processId lead) :
    event.processId = processId ∧ event.lane = .requests := by
  obtain ⟨-, -, rfl⟩ := List.mem_map.mp h
  exact ⟨rfl, rfl⟩

/-- All events of an interval stand in one lane of its process. -/
theorem Interval.of_mem_traceEvents {i : Interval} {event : TraceEvent}
    (h : event ∈ i.traceEvents) : event.processId = i.processId ∧ event.lane = i.commonLane := by
  cases i with
  | collection c =>
    obtain rfl := List.mem_singleton.mp h
    exact ⟨rfl, rfl⟩
  | wait w =>
    obtain rfl := List.mem_singleton.mp h
    exact ⟨rfl, rfl⟩
  | request r =>
    rcases List.mem_cons.mp h with rfl | h
    · exact ⟨rfl, rfl⟩
    · rcases List.mem_append.mp h with h | h
      · exact LegPhases.of_mem_traceEvents h
      · cases hleg : r.redirect with
        | none =>
          rw [hleg] at h
          exact absurd h List.not_mem_nil
        | some leg =>
          rw [hleg] at h
          exact LegPhases.of_mem_traceEvents h

theorem Interval.traceEvents_ne_nil (i : Interval) : i.traceEvents ≠ [] := by
  cases i <;> exact List.cons_ne_nil _ _

namespace TraceEvents

/-- The events of intervals that are added one after another. -/
def collect (intervals : List Interval) : List TraceEvent :=
  intervals.foldl (fun events interval => events ++ interval.traceEvents) []

theorem collect_eq (intervals : List Interval) :
    collect intervals = intervals.flatMap Interval.traceEvents :=
  List.flatMap_eq_foldl.symm

theorem map_span_collect (intervals : List Interval) :
    (collect intervals).map TraceEvent.span = intervals.flatMap Interval.spans := by
  rw [collect_eq, List.map_flatMap]
  exact congrArg (fun f => intervals.flatMap f) (funext Interval.map_span_traceEvents)

/-! ## The origin -/

/-- The earliest start of some spans, zero if there are none. -/
structure IsOrigin (spans : List Span) (origin : Instant) : Prop where
  le : ∀ span ∈ spans, origin.toNat ≤ span.start.toNat
  attained : spans = [] ∧ origin = ⟨0⟩ ∨ ∃ span ∈ spans, span.start = origin

/-- **The origin of a file is the earliest start.** -/
theorem isOrigin_origin (events : List TraceEvent) :
    IsOrigin (events.map TraceEvent.span) (origin events) := by
  fun_induction origin events with
  | case1 => exact ⟨by simp, .inl ⟨rfl, rfl⟩⟩
  | case2 event => exact ⟨by simp [TraceEvent.span], .inr ⟨event.span, by simp, rfl⟩⟩
  | case3 event rest hrest ih =>
    have hrest' : rest.map TraceEvent.span ≠ [] := by simpa using hrest
    have hattained := ih.attained.resolve_left fun h => hrest' h.1
    rw [List.map_cons]
    unfold Instant.earlier
    split
    · rename_i hlt
      rw [UInt64.lt_iff_toNat_lt] at hlt
      refine ⟨List.forall_mem_cons.mpr ⟨hlt.le, ih.le⟩, .inr ?_⟩
      exact hattained.imp fun span h => ⟨List.mem_cons_of_mem _ h.1, h.2⟩
    · rename_i hlt
      rw [UInt64.lt_iff_toNat_lt, not_lt] at hlt
      refine ⟨List.forall_mem_cons.mpr ⟨le_rfl, fun span h => hlt.trans (ih.le span h)⟩, .inr ?_⟩
      exact ⟨event.span, List.mem_cons_self, rfl⟩

/-- The order of spans is not seen in their origin. -/
theorem IsOrigin.eq_of_perm {spans spans' : List Span} {origin origin' : Instant}
    (h : IsOrigin spans origin) (h' : IsOrigin spans' origin') (hperm : spans.Perm spans') :
    origin = origin' := by
  rcases h.attained with ⟨rfl, rfl⟩ | ⟨span, hspan, hstart⟩
  · rcases h'.attained with ⟨-, rfl⟩ | ⟨span, hspan, -⟩
    · rfl
    · rw [← hperm.mem_iff] at hspan
      exact absurd hspan List.not_mem_nil
  · rcases h'.attained with ⟨rfl, -⟩ | ⟨span', hspan', hstart'⟩
    · rw [hperm.mem_iff] at hspan
      exact absurd hspan List.not_mem_nil
    · have hle := h.le span' (hperm.mem_iff.mpr hspan')
      have hle' := h'.le span (hperm.mem_iff.mp hspan)
      rw [hstart'] at hle
      rw [hstart] at hle'
      exact congrArg Instant.mk (UInt64.toNat_inj.mp (hle.antisymm hle'))

/-! ## Events -/

/-- An event shows a span, with its start relative to an origin that is not later. -/
structure Shows (origin : Instant) (span : Span) (event : Json) : Prop where
  complete : event.get? "ph" = some (.string "X")
  name : event.get? "name" = some (.string span.name)
  process : event.get? "pid" = some (.nat span.processId.toNat)
  lane : event.get? "tid" = some (.nat span.lane)
  length : event.get? "dur" = some (.float span.duration.micros)
  place : ∃ elapsed : Duration, origin.toNat + elapsed.toNat = span.start.toNat ∧
    event.get? "ts" = some (.float elapsed.micros)

theorem shows_eventJson {origin : Instant} {event : TraceEvent}
    (h : origin.toNat ≤ event.start.toNat) : Shows origin event.span (eventJson origin event) where
  complete := rfl
  name := rfl
  process := rfl
  lane := rfl
  length := congrArg some (number_nanosIn 1000 event.duration.nanos)
  place := by
    refine ⟨event.start.since origin, ?_, congrArg some (number_nanosIn 1000 _)⟩
    rw [Instant.toNat_since]
    exact Nat.add_sub_cancel' h

theorem forall₂_shows (events : List TraceEvent) :
    List.Forall₂ (Shows (origin events)) (events.map TraceEvent.span)
      (events.map (eventJson (origin events))) := by
  rw [List.forall₂_map_left_iff, List.forall₂_map_right_iff, List.forall₂_same]
  exact fun event h => shows_eventJson ((isOrigin_origin events).le _ (List.mem_map_of_mem h))

/-! ## Lanes -/

/-- A sorted list without its repetitions is strictly sorted. -/
theorem pairwise_eraseDups {l : List ProcessId} (h : l.Pairwise (· ≤ ·)) :
    l.eraseDups.Pairwise (· < ·) := by
  match l with
  | [] => exact .nil
  | p :: l =>
    have hshorter : (l.filter fun q => !q == p).length < l.length + 1 :=
      Nat.lt_succ_of_le (List.length_filter_le _ _)
    -- what is left of the tail is a shorter list, and not the tail itself
    rw [List.pairwise_cons] at h
    rw [List.eraseDups_cons]
    refine .cons (fun q hq => ?_) (pairwise_eraseDups (h.2.filter _))
    rw [List.mem_eraseDups, List.mem_filter, Bool.not_eq_true', beq_eq_false_iff_ne] at hq
    exact UInt32.lt_of_le_of_ne (h.1 q hq.1) hq.2.symm
termination_by l.length

theorem mem_processes {events : List TraceEvent} {p : ProcessId} :
    p ∈ processes events ↔ ∃ event ∈ events, event.processId = p := by
  rw [processes, List.mem_eraseDups, List.mem_mergeSort, List.mem_map]

theorem pairwise_processes (events : List TraceEvent) :
    (processes events).Pairwise (· < ·) := by
  have htrans : ∀ p q r : ProcessId, decide (p ≤ q) → decide (q ≤ r) → decide (p ≤ r) := by
    simp only [decide_eq_true_eq]
    exact fun p q r => UInt32.le_trans
  have htotal : ∀ p q : ProcessId, decide (p ≤ q) || decide (q ≤ p) := by
    simp only [Bool.or_eq_true, decide_eq_true_eq]
    exact UInt32.le_total
  have hsorted := List.pairwise_mergeSort htrans htotal (events.map TraceEvent.processId)
  exact pairwise_eraseDups (hsorted.imp of_decide_eq_true)

theorem mem_titledLanes {events : List TraceEvent} {p : ProcessId} {lane : Lane} :
    (p, lane) ∈ titledLanes events ↔ lane ∈ Lane.titled ∧
      ∃ event ∈ events, event.processId = p ∧ event.lane = lane := by
  simp only [titledLanes, List.mem_flatMap, List.mem_map, List.mem_filter, List.any_eq_true,
    Bool.and_eq_true, beq_iff_eq, Prod.mk.injEq, mem_processes]
  constructor
  · rintro ⟨_, -, _, h, rfl, rfl⟩
    exact h
  · rintro ⟨hlane, event, hevent, hp, hl⟩
    exact ⟨p, ⟨event, hevent, hp⟩, lane, ⟨hlane, event, hevent, hp, hl⟩, rfl, rfl⟩

theorem processes_eq_of_perm {events events' : List TraceEvent} (h : events.Perm events') :
    processes events = processes events' := by
  refine (pairwise_processes events).eq_of_mem_iff (pairwise_processes events') fun p => ?_
  simp only [mem_processes, h.mem_iff]

theorem laneEntries_eq_of_perm {events events' : List TraceEvent} (h : events.Perm events') :
    laneEntries events = laneEntries events' := by
  simp only [laneEntries, titledLanes, processes_eq_of_perm h, h.any_eq]

/-- The lanes that are named, by number. -/
def named (events : List TraceEvent) : List (ProcessId × Nat) :=
  (titledLanes events).map fun (p, lane) => (p, lane.number)

/-- **The named lanes are strictly sorted**, by process and then by number. -/
theorem pairwise_named (events : List TraceEvent) :
    (named events).Pairwise fun a b => a.1 < b.1 ∨ a.1 = b.1 ∧ a.2 < b.2 := by
  rw [named, List.pairwise_map, titledLanes, List.pairwise_flatMap]
  constructor
  · intro p _
    rw [List.pairwise_map]
    have htitled : Lane.titled.Pairwise fun a b => a.number < b.number := by
      simp [Lane.titled, Lane.number]
    exact (htitled.filter _).imp fun hlt => .inr ⟨rfl, hlt⟩
  · refine (pairwise_processes events).imp fun hlt a ha b hb => .inl ?_
    obtain ⟨-, -, rfl⟩ := List.mem_map.mp ha
    obtain ⟨-, -, rfl⟩ := List.mem_map.mp hb
    exact hlt

/-- An entry names a lane. -/
structure NamesLane (lane : ProcessId × Nat) (entry : Json) : Prop where
  metadata : entry.get? "ph" = some (.string "M")
  name : entry.get? "name" = some (.string "thread_name")
  process : entry.get? "pid" = some (.nat lane.1.toNat)
  number : entry.get? "tid" = some (.nat lane.2)
  title : entry.get? "args" =
    some (.object [("name", .string (if lane.2 = 0 then "GC" else "HTTP"))])

theorem forall₂_filterMap {α β : Type} {r : α → β → Prop} {f : α → Option β} {l : List α}
    (h : ∀ a ∈ l, ∃ b, f a = some b ∧ r a b) : List.Forall₂ r l (l.filterMap f) := by
  induction l with
  | nil => exact .nil
  | cons a l ih =>
    rw [List.forall_mem_cons] at h
    obtain ⟨b, hb, hr⟩ := h.1
    rw [List.filterMap_cons_some hb]
    exact .cons hr (ih h.2)

theorem forall₂_namesLane (events : List TraceEvent) :
    List.Forall₂ NamesLane (named events) (laneEntries events) := by
  rw [named, List.forall₂_map_left_iff, laneEntries]
  refine forall₂_filterMap fun (p, lane) h => ?_
  have hlane := (mem_titledLanes.mp h).1
  simp only [Lane.titled, List.mem_cons, List.not_mem_nil, or_false] at hlane
  rcases hlane with rfl | rfl <;> exact ⟨_, rfl, rfl, rfl, rfl, rfl, rfl⟩

/-- A lane is used exactly by the intervals that stand in it. -/
theorem exists_mem_collect {intervals : List Interval} {p : ProcessId} {lane : Lane} :
    (∃ event ∈ collect intervals, event.processId = p ∧ event.lane = lane) ↔
      ∃ i ∈ intervals, i.processId = p ∧ i.commonLane = lane := by
  rw [collect_eq]
  constructor
  · rintro ⟨event, hevent, rfl, rfl⟩
    obtain ⟨i, hi, hmem⟩ := List.mem_flatMap.mp hevent
    obtain ⟨hp, hlane⟩ := Interval.of_mem_traceEvents hmem
    exact ⟨i, hi, hp.symm, hlane.symm⟩
  · rintro ⟨i, hi, rfl, rfl⟩
    obtain ⟨event, hmem⟩ := List.exists_mem_of_ne_nil _ i.traceEvents_ne_nil
    exact ⟨event, List.mem_flatMap.mpr ⟨i, hi, hmem⟩, Interval.of_mem_traceEvents hmem⟩

/-- **A lane is named if a collection or a request stands in it.** -/
theorem mem_named {intervals : List Interval} {p : ProcessId} {n : Nat} :
    (p, n) ∈ named (collect intervals) ↔
      n = 0 ∧ (∃ c, Interval.collection c ∈ intervals ∧ c.processId = p) ∨
      n = 1 ∧ ∃ r, Interval.request r ∈ intervals ∧ r.processId = p := by
  have hmem : (p, n) ∈ named (collect intervals) ↔ ∃ lane ∈ Lane.titled, n = lane.number ∧
      ∃ i ∈ intervals, i.processId = p ∧ i.commonLane = lane := by
    simp only [named, List.mem_map, Prod.exists, Prod.mk.injEq, mem_titledLanes,
      exists_mem_collect]
    constructor
    · rintro ⟨_, lane, ⟨hlane, h⟩, rfl, rfl⟩
      exact ⟨lane, hlane, rfl, h⟩
    · rintro ⟨lane, hlane, rfl, h⟩
      exact ⟨p, lane, ⟨hlane, h⟩, rfl, rfl⟩
  rw [hmem]
  simp only [Lane.titled, List.mem_cons, List.not_mem_nil, or_false, exists_eq_or_imp,
    exists_eq_left]
  refine or_congr (and_congr_right fun _ => ?_) (and_congr_right fun _ => ?_)
  · simp only [Interval.commonLane_eq_collections]
    constructor
    · rintro ⟨_, hi, hp, c, rfl⟩
      exact ⟨c, hi, hp⟩
    · rintro ⟨c, hc, hp⟩
      exact ⟨_, hc, hp, c, rfl⟩
  · simp only [Interval.commonLane_eq_requests]
    constructor
    · rintro ⟨_, hi, hp, r, rfl⟩
      exact ⟨r, hi, hp⟩
    · rintro ⟨r, hr, hp⟩
      exact ⟨_, hr, hp, r, rfl⟩

/-! ## The file -/

/-- A file with these events and names of lanes. -/
def file (complete names : List Json) : Json :=
  .object [("traceEvents", .array (complete ++ names)), ("displayTimeUnit", .string "ms")]

/-- **A file shows the intervals that were added to it.**  For any intervals, added in any
order,

* it has one complete event for each interval, each followed by one for each completed phase
  if the interval is a request, and these are as many as are counted;
* each has the process, the lane and the length of its span, and stands as far from the
  origin as the span's start is from it, to the nanosecond before it is shown in microseconds;
* the origin is the earliest start;
* the names of lanes follow, one for each process and lane in which a collection or a request
  stands, by process and then by lane;
* in another order the intervals only have their complete events in another order. -/
theorem file_shows_intervals (intervals : List Interval) :
    ∃ origin complete names lanes,
      toJson (collect intervals) = file complete names ∧
      (collect intervals).length = complete.length ∧
      List.Forall₂ (Shows origin) (intervals.flatMap Interval.spans) complete ∧
      IsOrigin (intervals.flatMap Interval.spans) origin ∧
      List.Forall₂ NamesLane lanes names ∧
      lanes.Pairwise (fun a b => a.1 < b.1 ∨ a.1 = b.1 ∧ a.2 < b.2) ∧
      (∀ p n, (p, n) ∈ lanes ↔
        n = 0 ∧ (∃ c, Interval.collection c ∈ intervals ∧ c.processId = p) ∨
        n = 1 ∧ ∃ r, Interval.request r ∈ intervals ∧ r.processId = p) ∧
      ∀ intervals', intervals.Perm intervals' → ∃ complete',
        complete.Perm complete' ∧ toJson (collect intervals') = file complete' names := by
  refine ⟨origin (collect intervals), _, laneEntries (collect intervals),
    named (collect intervals), rfl, (List.length_map _).symm, ?_, ?_, forall₂_namesLane _,
    pairwise_named _, fun p n => mem_named, ?_⟩
  · rw [← map_span_collect]
    exact forall₂_shows _
  · rw [← map_span_collect]
    exact isOrigin_origin _
  · intro intervals' h
    have hevents : (collect intervals).Perm (collect intervals') := by
      rw [collect_eq, collect_eq]
      exact h.flatMap_right _
    have horigin : origin (collect intervals) = origin (collect intervals') :=
      (isOrigin_origin _).eq_of_perm (isOrigin_origin _) (hevents.map _)
    refine ⟨(collect intervals').map (eventJson (origin (collect intervals'))), ?_, ?_⟩
    · rw [horigin]
      exact hevents.map _
    · rw [laneEntries_eq_of_perm hevents]
      rfl

/-- A wait of thread 1 in one process, and in another a request whose first phase began before
both. -/
def earlyPhase : List Interval :=
  [.wait ⟨9, 1, ⟨30⟩, ⟨5⟩, .monitor, true, []⟩,
    .request {
      processId := 7
      activity := "//1/1/"
      url := ""
      start := ⟨40⟩
      duration := ⟨20⟩
      outcome := .completed 200
      protocolVersion := none
      connectionId := none
      phases := ⟨PerPhase.none.set .dns (some ⟨⟨10⟩, ⟨0⟩, ⟨4⟩⟩), PerPhase.none, none⟩
      tlsProtocol := none
      handshakeError := none
      responseStatus := none
      redirect := none }]

theorem file_shows_intervals_earlyPhase :
    ∃ origin complete names lanes,
      toJson (collect earlyPhase) = file complete names ∧
      origin = ⟨10⟩ ∧ IsOrigin (earlyPhase.flatMap Interval.spans) origin ∧
      complete.length = 3 ∧ (7, 1) ∈ lanes ∧ (9, 1) ∉ lanes ∧
      List.Forall₂ NamesLane lanes names ∧
      earlyPhase.Perm earlyPhase.reverse ∧
      ∃ complete', complete.Perm complete' ∧
        toJson (collect earlyPhase.reverse) = file complete' names := by
  obtain ⟨origin, complete, names, lanes, hfile, hlength, -, horigin, hnames, -, hlanes, horder⟩ :=
    file_shows_intervals earlyPhase
  have hperm : earlyPhase.Perm earlyPhase.reverse := (List.reverse_perm _).symm
  have hspans : earlyPhase.flatMap Interval.spans =
      [⟨"contention", 9, 1, ⟨30⟩, ⟨5⟩⟩, ⟨"//1/1/", 7, 1, ⟨40⟩, ⟨20⟩⟩,
        ⟨"dns", 7, 1, ⟨10⟩, ⟨4⟩⟩] := by rfl
  have hten : origin = ⟨10⟩ := by
    have hle : origin.toNat ≤ 10 := horigin.le ⟨"dns", 7, 1, ⟨10⟩, ⟨4⟩⟩ (by simp [hspans])
    have hattained := horigin.attained
    rw [hspans] at hattained
    simp only [List.mem_cons, List.not_mem_nil, or_false, exists_eq_or_imp, exists_eq_left,
      reduceCtorEq, false_and, false_or] at hattained
    rcases hattained with rfl | rfl | rfl
    · exact absurd hle (by decide)
    · exact absurd hle (by decide)
    · rfl
  refine ⟨origin, complete, names, lanes, hfile, hten, horigin, hlength.symm.trans rfl, ?_, ?_,
    hnames, hperm, horder _ hperm⟩
  · exact (hlanes 7 1).mpr (.inr ⟨rfl, _, List.mem_cons_of_mem _ List.mem_cons_self, rfl⟩)
  · intro hmem
    rcases (hlanes 9 1).mp hmem with ⟨hzero, -⟩ | ⟨-, r, hr, hp⟩
    · exact absurd hzero (by decide)
    · simp only [earlyPhase, List.mem_cons, List.not_mem_nil, or_false, reduceCtorEq, false_or,
        Interval.request.injEq] at hr
      subst hr
      exact absurd hp (by decide)

end TraceEvents
end RuntimeTrace
