import Mathlib.Algebra.GroupWithZero.Nat
import Mathlib.Data.List.Basic
import RuntimeTrace.Proofs.Request.Timeline

/-!
# Waits and phases tile a request

The wait for a phase counts from the end of the latest phase before it that is complete.  Which
one that is depends on what came so far, and a phase that ends late, or twice, is counted in the
waits of others or not at all.  Where the phases come in their order, though, the latest phase
before is the last one that ended, for every choice of phases that do come.  The waits and the
phases are then laid end to end: together they last from the start of the request to the end of
its last phase.

`Orderly` says what is asked of the events: no phase begins or ends twice, none begins or ends
after a later one has begun or ended, and the times are in order.  A phase that begins may stay
open, an event that ends a phase which has not begun counts for nothing, and all other events may
come as they like.  `Tiled` is what holds of an open request then.  Only the events of the request
have to be in order, not the trace.

Main statement: `waits_and_durations_tile`.
-/

namespace RuntimeTrace

namespace Phase

/-- The phases up to a phase, and the others. -/
theorem exists_all_eq (phase : Phase) :
    ∃ after, all = phase.before.reverse ++ phase :: after ∧
      ∀ other ∈ after, ¬ (other = phase ∨ other ∈ phase.before) := by
  cases phase <;> exact ⟨_, rfl, by decide⟩

theorem notMem_before_self (phase : Phase) : phase ∉ phase.before := by
  cases phase <;> decide

/-- Of two phases one comes before the other. -/
theorem mem_before_of_ne {phase other : Phase} (hne : other ≠ phase) (h : phase ∉ other.before) :
    other ∈ phase.before := by
  revert hne h
  cases phase <;> cases other <;> decide

end Phase

namespace PerPhase

variable {α : Type} {p q : PerPhase α} {phase : Phase}

/-- What there is for a phase, with the phase. -/
def paired? (p : PerPhase α) (phase : Phase) : Option (Phase × α) := (p.get phase).map (phase, ·)

/-- What there is, if there is nothing for the phases after a given one. -/
theorem toList_upTo (h : ∀ other a, p.get other = some a → other = phase ∨ other ∈ phase.before) :
    p.toList = (phase.before.filterMap p.paired?).reverse ++ (p.paired? phase).toList := by
  obtain ⟨after, hall, hafter⟩ := phase.exists_all_eq
  have hnone : after.filterMap p.paired? = [] := by
    rw [List.filterMap_eq_nil_iff]
    intro other hother
    rw [paired?, Option.map_eq_none_iff, Option.eq_none_iff_forall_ne_some]
    exact fun a ha => hafter other hother (h other a ha)
  show Phase.all.filterMap p.paired? = _
  rw [hall, List.filterMap_append, List.filterMap_reverse, List.filterMap_cons, hnone]
  cases p.paired? phase <;> rfl

theorem toList_of_before (h : ∀ other a, p.get other = some a → other ∈ phase.before) :
    p.toList = (phase.before.filterMap p.paired?).reverse := by
  have hnone : p.paired? phase = Option.none := by
    rw [paired?, Option.map_eq_none_iff, Option.eq_none_iff_forall_ne_some]
    exact fun a ha => phase.notMem_before_self (h phase a ha)
  rw [toList_upTo fun other a ha => Or.inr (h other a ha), hnone]
  exact List.append_nil _

/-- What is put in the place of a later phase comes last. -/
theorem toList_eq_append {a : α} (h : ∀ other b, p.get other = some b → other ∈ phase.before)
    (hget : ∀ other, q.get other = if other = phase then some a else p.get other) :
    q.toList = p.toList ++ [(phase, a)] := by
  have hupTo : ∀ other b, q.get other = some b → other = phase ∨ other ∈ phase.before := by
    intro other b hb
    rw [hget] at hb
    split at hb
    · exact Or.inl ‹_›
    · exact Or.inr (h other b hb)
  have hsame : phase.before.filterMap q.paired? = phase.before.filterMap p.paired? := by
    apply List.filterMap_congr
    intro other hother
    have hne : other ≠ phase := by
      rintro rfl
      exact other.notMem_before_self hother
    rw [paired?, paired?, hget, if_neg hne]
  rw [toList_upTo hupTo, toList_of_before h, hsame, paired?, hget, if_pos rfl]
  rfl

end PerPhase

namespace LegPhases

variable {p p' : LegPhases} {phase : Phase} {now start : Instant}

/-- How long the complete phases took, and the waits for them. -/
def total (p : LegPhases) : Nat :=
  (p.completed.toList.map fun entry => entry.2.wait.toNat + entry.2.duration.toNat).sum

/-- When the last of the complete phases ended; the start, if there is none. -/
def lastFinish (p : LegPhases) (start : Instant) : Instant :=
  (p.completed.toList.getLast?.map fun entry => entry.2.finish).getD start

/-- **A phase after all that are complete** waits from the end of the last of these. -/
theorem waitsFrom_eq_lastFinish
    (h : ∀ other span, p.completed.get other = some span → other ∈ phase.before) :
    p.waitsFrom phase start = p.lastFinish start := by
  have hlast : p.completed.toList.getLast?.map (fun entry => entry.2.finish) =
      (phase.before.findSome? p.completed.get).map PhaseSpan.finish := by
    rw [PerPhase.toList_of_before h, List.getLast?_reverse, List.head?_filterMap,
      List.map_findSome?, List.map_findSome?]
    congr 1
    funext other
    exact Option.map_map _ _ _
  rw [waitsFrom, lastFinish, hlast]
  cases phase.before.findSome? p.completed.get <;> rfl

/-- **A phase that ends after all others** adds the time since the last of these, as its wait and
its duration. -/
theorem exists_began_of_finish? (hfinish : p.finish? phase now start = some p')
    (h : ∀ other span, p.completed.get other = some span → other ∈ phase.before) :
    ∃ began, p.begun.get phase = some began ∧
      p'.total =
        p.total + ((began.since (p.lastFinish start)).toNat + (now.since began).toNat) ∧
      p'.lastFinish start = began.plus (now.since began) := by
  obtain ⟨began, hbegan, -, hcompleted⟩ := finish?_eq_some hfinish
  have hlist := PerPhase.toList_eq_append h hcompleted
  refine ⟨began, hbegan, ?_, ?_⟩
  · rw [total, hlist, List.map_append, List.sum_append, waitsFrom_eq_lastFinish h]
    rfl
  · rw [lastFinish, hlist, List.getLast?_append]
    rfl

end LegPhases

/-- The phase that begins or ends. -/
def PhaseMark.phase : PhaseMark → Phase
  | .begins phase | .ends phase => phase

namespace RequestTracker

variable {events : List Input} {key : String} {start time : Instant} {i j n : Nat}

/-! ## Orderly requests -/

/-- The event at position `n` begins or completes a phase of the request. -/
def MarksAt (events : List Input) (n : Nat) (key : String) : PhaseMark → Instant → Prop
  | .begins phase, time => BeginsAt events n key phase time
  | .ends phase, time => ∃ span, CompletesAt events n key phase time span

theorem MarksAt.exists_reachesAt {mark : PhaseMark} (h : MarksAt events n key mark time) :
    ∃ event, ReachesAt events n key time (.detail event) ∧ event.phaseMark? = some mark := by
  cases mark with
  | begins phase => exact h
  | ends phase =>
    obtain ⟨span, event, request, phases, hreaches, hmark, -⟩ := h
    exact ⟨event, hreaches, hmark⟩

/-- An event begins or completes one phase at most. -/
theorem MarksAt.unique {mark mark' : PhaseMark} {time' : Instant}
    (h : MarksAt events n key mark time) (h' : MarksAt events n key mark' time') :
    mark = mark' := by
  obtain ⟨event, hreaches, hmark⟩ := h.exists_reachesAt
  obtain ⟨event', hreaches', hmark'⟩ := h'.exists_reachesAt
  have hevent : event = event' := Change.detail.inj (hreaches.unique hreaches').2.2
  rw [hevent, hmark'] at hmark
  exact (Option.some.inj hmark).symm

/-- What begins or ends may come later: it is something else, of no earlier phase, and at no
earlier time. -/
def InOrder (earlier later : PhaseMark × Instant) : Prop :=
  earlier.1 ≠ later.1 ∧ later.1.phase ∉ earlier.1.phase.before ∧
    earlier.2.toNat ≤ later.2.toNat

instance (earlier later : PhaseMark × Instant) : Decidable (InOrder earlier later) :=
  inferInstanceAs (Decidable (_ ∧ _))

/-- The phases of a request begin and end in order between two positions. -/
structure Orderly (events : List Input) (key : String) (start : Instant) (i j : Nat) : Prop where
  started : ∀ n mark time, i < n → n < j → MarksAt events n key mark time →
    start.toNat ≤ time.toNat
  ordered : ∀ m n earlier later, i < m → m < n → n < j →
    MarksAt events m key earlier.1 earlier.2 → MarksAt events n key later.1 later.2 →
    InOrder earlier later

/-- What an event begins or ends, and when. -/
def markOf? (x : Input) : Option (PhaseMark × Instant) := x.2.phaseMark?.map (·, x.1.time)

theorem MarksAt.exists_markOf? {a : PhaseMark × Instant} (h : MarksAt events n key a.1 a.2) :
    ∃ x, events[n]? = some x ∧ markOf? x = some a := by
  obtain ⟨_, ⟨c, event, hevent, htime, hreaches⟩, hmark⟩ := h.exists_reachesAt
  cases hreaches
  refine ⟨_, hevent, ?_⟩
  rw [markOf?, hmark, Option.map_some, htime]

/-- A trace in which everything that begins or ends does so in order has orderly requests only. -/
theorem orderly_of_pairwise (hpairwise : (events.filterMap markOf?).Pairwise InOrder)
    (hstart : ∀ a ∈ events.filterMap markOf?, start.toNat ≤ a.2.toNat) :
    Orderly events key start i j := by
  constructor
  · intro n mark time _ _ hmarks
    obtain ⟨x, hx, ha⟩ := MarksAt.exists_markOf? (a := (mark, time)) hmarks
    exact hstart (mark, time) (List.mem_filterMap.mpr ⟨x, List.mem_of_getElem? hx, ha⟩)
  · intro m n earlier later _ hmn _ hearlier hlater
    obtain ⟨x, hx, ha⟩ := hearlier.exists_markOf?
    obtain ⟨y, hy, hb⟩ := hlater.exists_markOf?
    exact Run.rel_of_pairwise_filterMap hpairwise hmn hx ha hy hb

/-! ## Requests that are tiled -/

/-- The phases of a request come from positions between `i` and `n`, and those that are complete
reach, with their waits, from its start to the end of the last. -/
structure Tiled (events : List Input) (key : String) (start : Instant) (i n : Nat)
    (p : LegPhases) : Prop where
  begun : ∀ phase time, p.begun.get phase = some time →
    ∃ b, i < b ∧ b < n ∧ MarksAt events b key (.begins phase) time
  completed : ∀ phase span, p.completed.get phase = some span →
    ∃ e, i < e ∧ e < n ∧ MarksAt events e key (.ends phase) span.finish
  total : start.toNat + p.total = (p.lastFinish start).toNat

section Steps

variable {p p' : LegPhases} {phase : Phase} {now : Instant}

theorem tiled_none : Tiled events key start i n LegPhases.none where
  begun := by
    intro phase time h
    exact absurd h (by simp)
  completed := by
    intro phase span h
    exact absurd h (by simp)
  total := rfl

theorem Tiled.succ (h : Tiled events key start i n p) : Tiled events key start i (n + 1) p := by
  refine ⟨?_, ?_, h.total⟩
  · intro phase time htime
    obtain ⟨b, hib, hbn, hbegins⟩ := h.begun phase time htime
    exact ⟨b, hib, Nat.lt_succ_of_lt hbn, hbegins⟩
  · intro phase span hspan
    obtain ⟨e, hie, hen, hends⟩ := h.completed phase span hspan
    exact ⟨e, hie, Nat.lt_succ_of_lt hen, hends⟩

/-- When a phase ends, those that are complete are before it. -/
theorem Tiled.mem_before (h : Tiled events key start i n p)
    (horderly : Orderly events key start i j) (hnj : n < j)
    (hends : MarksAt events n key (.ends phase) now) {other : Phase} {span : PhaseSpan}
    (hspan : p.completed.get other = some span) : other ∈ phase.before := by
  obtain ⟨e, hie, hen, hother⟩ := h.completed other span hspan
  obtain ⟨hne, hlater, -⟩ := horderly.ordered e n (.ends other, span.finish) (.ends phase, now)
    hie hen hnj hother hends
  refine Phase.mem_before_of_ne ?_ hlater
  rintro rfl
  exact hne rfl

/-- A phase begins after those before it that are complete have ended. -/
theorem Tiled.finish_le (h : Tiled events key start i n p)
    (horderly : Orderly events key start i j) {b : Nat} (hib : i < b) (hbn : b < n) (hnj : n < j)
    (hbegins : MarksAt events b key (.begins phase) time) {other : Phase} {span : PhaseSpan}
    (hspan : p.completed.get other = some span) (hother : other ∈ phase.before) :
    span.finish.toNat ≤ time.toNat := by
  obtain ⟨e, hie, hen, hends⟩ := h.completed other span hspan
  rcases Nat.lt_trichotomy e b with hlt | rfl | hgt
  · exact (horderly.ordered e b (.ends other, span.finish) (.begins phase, time) hie hlt
      (by omega) hends hbegins).2.2
  · exact absurd (hends.unique hbegins) (by simp)
  · exact absurd hother (horderly.ordered b e (.begins phase, time) (.ends other, span.finish)
      hib hgt (by omega) hbegins hends).2.1

/-- The last of the phases that are complete has ended when one after them all begins. -/
theorem Tiled.lastFinish_le (h : Tiled events key start i n p)
    (horderly : Orderly events key start i j) {b : Nat} (hib : i < b) (hbn : b < n) (hnj : n < j)
    (hbegins : MarksAt events b key (.begins phase) time)
    (hbefore : ∀ other span, p.completed.get other = some span → other ∈ phase.before) :
    (p.lastFinish start).toNat ≤ time.toNat := by
  rw [← LegPhases.waitsFrom_eq_lastFinish hbefore]
  rcases p.waitsFrom_eq phase start with heq | ⟨other, span, hspan, heq⟩
  · rw [heq]
    exact horderly.started b _ time hib (by omega) hbegins
  · rw [heq]
    exact h.finish_le horderly hib hbn hnj hbegins hspan (hbefore other span hspan)

/-- **A phase that ends leaves no gap.** -/
theorem Tiled.ends (h : Tiled events key start i n p) (horderly : Orderly events key start i j)
    (hin : i < n) (hnj : n < j) (hfinish : p.finish? phase now start = some p')
    (hends : MarksAt events n key (.ends phase) now) : Tiled events key start i (n + 1) p' := by
  have hbefore : ∀ other span, p.completed.get other = some span → other ∈ phase.before :=
    fun other span hspan => h.mem_before horderly hnj hends hspan
  obtain ⟨began, hbegan, htotal, hlast⟩ := LegPhases.exists_began_of_finish? hfinish hbefore
  obtain ⟨began', hbegan', hbegun, hcompleted⟩ := LegPhases.finish?_eq_some hfinish
  obtain rfl : began' = began := Option.some.inj (hbegan'.symm.trans hbegan)
  obtain ⟨b, hib, hbn, hbegins⟩ := h.begun phase began' hbegan
  have hwaited : (p.lastFinish start).toNat ≤ began'.toNat :=
    h.lastFinish_le horderly hib hbn hnj hbegins hbefore
  have hlasted : began'.toNat ≤ now.toNat :=
    (horderly.ordered b n (.begins phase, began') (.ends phase, now) hib hbn hnj hbegins hends).2.2
  have hfinished : began'.plus (now.since began') = now := Instant.plus_since hlasted
  refine ⟨?_, ?_, ?_⟩
  · intro other time htime
    rw [hbegun] at htime
    split at htime
    · exact absurd htime (by simp)
    · exact h.succ.begun other time htime
  · intro other span hspan
    rw [hcompleted] at hspan
    split at hspan
    · rename_i heq
      rw [Option.some.injEq] at hspan
      subst heq hspan
      refine ⟨n, hin, Nat.lt_succ_self n, ?_⟩
      rw [PhaseSpan.finish, hfinished]
      exact hends
    · exact h.succ.completed other span hspan
  · have hsofar := h.total
    rw [htotal, hlast, hfinished, Instant.toNat_since, Instant.toNat_since]
    omega

/-- **The phases of a request that is not redirected, after a detail.** -/
theorem Tiled.reports (h : Tiled events key start i n p) (horderly : Orderly events key start i j)
    (hin : i < n) (hnj : n < j) {event : NetworkEvent} {request : OpenRequest}
    (hreaches : ReachesAt events n key now (.detail event))
    (hopen : (before events n).requests.get? key = some request)
    (hactive : request.activePhases = p) (hbase : request.activeStart = start)
    (hreports : p.Reports now start event p') : Tiled events key start i (n + 1) p' := by
  cases hreports with
  | nothing => exact h.succ
  | queued queueing => exact ⟨h.succ.begun, h.succ.completed, h.total⟩
  | @begins phase hmark =>
    refine ⟨?_, h.succ.completed, h.total⟩
    intro other time htime
    rw [LegPhases.get_begun_begin] at htime
    split at htime
    · rename_i heq
      rw [Option.some.injEq] at htime
      subst heq htime
      exact ⟨n, hin, Nat.lt_succ_self n, event, hreaches, hmark⟩
    · exact h.succ.begun other time htime
  | @ends phase _ hmark hfinish =>
    obtain ⟨began, -, -, hcompleted⟩ := LegPhases.finish?_eq_some hfinish
    have hspan := hcompleted phase
    rw [if_pos rfl] at hspan
    refine h.ends horderly hin hnj hfinish
      ⟨_, event, request, p', hreaches, hmark, hopen, ?_, hspan⟩
    rw [hactive, hbase]
    exact hfinish

end Steps

/-- A request without a second leg is tiled. -/
structure RequestTiled (events : List Input) (key : String) (start : Instant) (i n : Nat)
    (r : OpenRequest) : Prop where
  started : r.start = start
  phases : r.redirect = none → Tiled events key start i n r.phases

section Requests

variable {r : OpenRequest}

/-- **A change keeps a request tiled.** -/
theorem RequestTiled.change (h : RequestTiled events key start i n r)
    (horderly : Orderly events key start i j) (hin : i < n) (hnj : n < j) {now : Instant}
    {change : Change} (hreaches : ReachesAt events n key now change)
    (hopen : (before events n).requests.get? key = some r) :
    RequestTiled events key start i (n + 1) (r.change now change) := by
  refine ⟨(r.evolves_change now change).start.trans h.started, ?_⟩
  generalize hphases : (r.change now change).phases = phases
  generalize hredirect : (r.change now change).redirect = redirect
  have hafter := r.legsAfter_change now change
  rw [hphases, hredirect] at hafter
  intro hnone
  cases hafter with
  | redirected | announced | named | second => exact absurd hnone (by simp)
  | first hfirst _ hreports =>
    rw [h.started] at hreports
    exact (h.phases hfirst).reports horderly hin hnj hreaches hopen
      (by rw [OpenRequest.activePhases, hfirst])
      (by rw [OpenRequest.activeStart, hfirst]; exact h.started) hreports
  | joined | left => exact (h.phases (Option.map_eq_none_iff.mp hnone)).succ

end Requests

/-- An open request is tiled as long as its events are orderly. -/
theorem requestTiled_of_opensAt {url : String} {request : OpenRequest}
    (hopens : OpensAt events i key url start) (hij : i < j) (hj : j ≤ events.length)
    (hend : NoEndBetween events i j key) (horderly : Orderly events key start i j)
    (hopen : (before events j).requests.get? key = some request) :
    RequestTiled events key start i j request := by
  obtain ⟨version, hfresh⟩ := get?_succ_of_opensAt hopens
  obtain ⟨r, hr, htiled⟩ := open_induction (P := RequestTiled events key start i)
    (Nat.lt_succ_self i) hij hj hend hfresh ⟨rfl, fun _ => tiled_none⟩
    (fun k r _ _ _ h => ⟨h.started, fun hnone => (h.phases hnone).succ⟩)
    (fun k r now change hik hkj hreaches hopen h => h.change horderly hik hkj hreaches hopen)
  have heq : r = request := Option.some.inj (hr.symm.trans hopen)
  rw [← heq]
  exact htiled

/-- **Waits and durations tile a request.**  In every trace, and for every request that is
reported and was not redirected: if its phases began and ended in order, the waits for the
complete phases and their durations add up to the time from the start of the request to the end
of the last of these phases. -/
theorem waits_and_durations_tile (events : List Input) {j : Nat} {r : ClosedRequest}
    (hreported : (results events)[j]? = some (some r)) (hnone : r.redirect = none) :
    ∃ i, ReportOf events i j r ∧ (Orderly events r.activity r.start i j → ∀ phase span,
      r.phases.completed.toList.getLast? = some (phase, span) →
        r.start.toNat + r.phases.total = span.finish.toNat) := by
  obtain ⟨i, request, hcloses⟩ := exists_closesAt hreported
  refine ⟨i, hcloses.report, ?_⟩
  intro horderly phase span hlast
  have htiled := requestTiled_of_opensAt hcloses.report.opens hcloses.lt hcloses.le_length
    hcloses.first horderly hcloses.isOpen
  have htotal := (htiled.phases (hcloses.redirect.trans hnone)).total
  rw [hcloses.phases, LegPhases.lastFinish, hlast] at htotal
  exact htotal

/-- The request `1/5` resolves a name, secures a connection that is there, and gets a response. -/
def connectionReused : List Input :=
  [(below 10 0, .requestStart "https" "a" 443 "/" 1 1),
    (below 12 0x10, .dnsStart "a"),
    (below 15 0x10, .dnsStop),
    (below 20 0x10, .handshakeStart true "a"),
    (below 26 0x10, .handshakeStop 3072),
    (below 27 0x20, .requestHeadersStart none),
    (below 35 0x20, .responseHeadersStop 200),
    (below 40 0x20, .responseContentStop),
    (below 50 0, .requestStop 200)]

theorem waits_and_durations_tile_connectionReused :
    ∃ r, (results connectionReused)[8]? = some (some r) ∧ r.redirect = none ∧
      r.start.toNat = 10 ∧ r.phases.total = 30 ∧
      (∀ i, Orderly connectionReused r.activity r.start i 8) ∧
      ∃ phase span, r.phases.completed.toList.getLast? = some (phase, span) ∧
        r.start.toNat + r.phases.total = span.finish.toNat := by
  have hpairwise : (connectionReused.filterMap markOf?).Pairwise InOrder := by decide +kernel
  have hsome : ((results connectionReused)[8]?.join.bind fun r =>
      if r.redirect = none ∧ r.start = ⟨10⟩ ∧ r.phases.total = 30 then
        r.phases.completed.toList.getLast? else none).isSome := by decide +kernel
  obtain ⟨⟨phase, span⟩, h⟩ := Option.isSome_iff_exists.mp hsome
  obtain ⟨r, hr, h⟩ := Option.bind_eq_some_iff.mp h
  rw [Option.ite_none_right_eq_some] at h
  obtain ⟨⟨hnone, hstart, htotal⟩, hlast⟩ := h
  have hreported : (results connectionReused)[8]? = some (some r) := Option.join_eq_some_iff.mp hr
  have horderly : ∀ i, Orderly connectionReused r.activity r.start i 8 := fun i =>
    orderly_of_pairwise hpairwise (by rw [hstart]; decide +kernel)
  obtain ⟨i, -, htiles⟩ := waits_and_durations_tile connectionReused hreported hnone
  exact ⟨r, hreported, hnone, by rw [hstart]; rfl, htotal, horderly, phase, span, hlast,
    htiles (horderly i) phase span hlast⟩

end RequestTracker
end RuntimeTrace
