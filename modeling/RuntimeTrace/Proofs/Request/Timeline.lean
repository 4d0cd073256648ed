import RuntimeTrace.Proofs.Request.Changes

/-!
# Where the times of a request come from

A request keeps instants that its events brought: when a phase of one of its legs began, the
timing of a phase that is complete, when its second leg starts and how it ended.  For an open
request each of them can be traced back to positions of the trace, and these stand in order.
`PhasesFrom`, `LegFrom` and `RequestFrom` say so: a phase of a leg began and was completed after
the leg was made, a second leg was made after the request was opened, it starts where it was made
or where the last activity joined it, and its end is that of the last activity that left it since
it was made.

What is traced back to positions can be compared where the trace is in the order of time.  A phase
cannot end before it began then, so the instant at which its timing ends is that of the event that
completed it.  What its wait counts from is such an instant, too, or the start of a leg, and
neither is earlier than the request.

Main statement: `timeline_contains_phases`.
-/

namespace RuntimeTrace

theorem Duration.eq_of_toNat {d e : Duration} (h : d.toNat = e.toNat) : d = e := by
  obtain ⟨a⟩ := d
  obtain ⟨b⟩ := e
  exact congrArg Duration.mk (UInt64.toNat_inj.mp h)

namespace Instant

theorem eq_of_toNat {s t : Instant} (h : s.toNat = t.toNat) : s = t := by
  obtain ⟨a⟩ := s
  obtain ⟨b⟩ := t
  exact congrArg Instant.mk (UInt64.toNat_inj.mp h)

/-- What has elapsed since an earlier instant leads from it to the later one. -/
theorem plus_since {earlier t : Instant} (h : earlier.toNat ≤ t.toNat) :
    earlier.plus (t.since earlier) = t := by
  apply eq_of_toNat
  rw [toNat_plus, toNat_since]
  have hbound : t.toNat < UInt64.size := UInt64.toNat_lt_size t.nanos
  omega

end Instant

namespace LegPhases

variable {p p' : LegPhases} {phase : Phase} {now start : Instant}

theorem get_begun_begin (p : LegPhases) (phase other : Phase) (now : Instant) :
    (p.begin phase now).begun.get other =
      if other = phase then some now else p.begun.get other :=
  PerPhase.get_set _ _ _ _

/-- A phase that ends had begun, and has a timing from then on. -/
theorem finish?_eq_some (h : p.finish? phase now start = some p') :
    ∃ began, p.begun.get phase = some began ∧
      (∀ other, p'.begun.get other = if other = phase then .none else p.begun.get other) ∧
      ∀ other, p'.completed.get other =
        if other = phase then
          some ⟨began, began.since (p.waitsFrom phase start), now.since began⟩
        else p.completed.get other := by
  unfold finish? at h
  split at h
  · exact absurd h (by simp)
  · rename_i began hbegan
    rw [Option.some.injEq] at h
    subst h
    exact ⟨began, hbegan, fun other => PerPhase.get_set _ _ _ _,
      fun other => PerPhase.get_set _ _ _ _⟩

/-- A wait counts from the end of a phase that is complete, or from the start of the leg. -/
theorem waitsFrom_eq (p : LegPhases) (phase : Phase) (start : Instant) :
    p.waitsFrom phase start = start ∨
      ∃ other span, p.completed.get other = some span ∧ p.waitsFrom phase start = span.finish := by
  unfold waitsFrom
  cases hfind : phase.before.findSome? p.completed.get with
  | none => exact Or.inl rfl
  | some span =>
    obtain ⟨other, -, hother⟩ := List.exists_of_findSome?_eq_some hfind
    exact Or.inr ⟨other, span, hother, rfl⟩

@[simp] theorem get_begun_none (phase : Phase) : none.begun.get phase = Option.none := by
  cases phase <;> rfl

@[simp] theorem get_completed_none (phase : Phase) : none.completed.get phase = Option.none := by
  cases phase <;> rfl

end LegPhases

namespace RequestTracker

/-! ## Traces in the order of time -/

variable {events : List Input} {key : String} {time : Instant}

/-- The events of a trace are in the order of time. -/
def Chronological (events : List Input) : Prop :=
  events.Pairwise fun earlier later => earlier.1.time.toNat ≤ later.1.time.toNat

instance (events : List Input) : Decidable (Chronological events) :=
  inferInstanceAs (Decidable (List.Pairwise _ _))

/-- The time of the event at position `n`. -/
def TimeAt (events : List Input) (n : Nat) (time : Instant) : Prop :=
  ∃ x, events[n]? = some x ∧ x.1.time = time

theorem ReachesAt.timeAt {n : Nat} {change : Change} (h : ReachesAt events n key time change) :
    TimeAt events n time := by
  obtain ⟨c, event, hevent, htime, -⟩ := h
  exact ⟨(c, event), hevent, htime⟩

theorem Chronological.le (h : Chronological events) {m n : Nat} {s t : Instant}
    (hs : TimeAt events m s) (ht : TimeAt events n t) (hmn : m ≤ n) : s.toNat ≤ t.toNat := by
  obtain ⟨x, hx, rfl⟩ := hs
  obtain ⟨y, hy, rfl⟩ := ht
  obtain ⟨hm, rfl⟩ := List.getElem?_eq_some_iff.mp hx
  obtain ⟨hn, rfl⟩ := List.getElem?_eq_some_iff.mp hy
  rcases Nat.lt_or_eq_of_le hmn with hlt | heq
  · exact List.pairwise_iff_getElem.mp h m n hm hn hlt
  · subst heq
    exact Nat.le_refl _

/-- No position between two others has a property. -/
def NoneBetween (P : Nat → Prop) (l n : Nat) : Prop := ∀ m, l < m → m < n → ¬ P m

theorem noneBetween_succ_self (P : Nat → Prop) (n : Nat) : NoneBetween P n (n + 1) :=
  fun _ hnm hmn => absurd (Nat.lt_succ_iff.mp hmn) (Nat.not_le.mpr hnm)

theorem NoneBetween.succ {P : Nat → Prop} {l n : Nat} (h : NoneBetween P l n) (hn : ¬ P n) :
    NoneBetween P l (n + 1) := by
  intro m hlm hmn
  rcases Nat.lt_succ_iff_lt_or_eq.mp hmn with hlt | rfl
  · exact h m hlm hlt
  · exact hn

/-! ## What happens at a position -/

/-- The event at position `n` begins a phase of the request. -/
def BeginsAt (events : List Input) (n : Nat) (key : String) (phase : Phase) (time : Instant) :
    Prop :=
  ∃ event, ReachesAt events n key time (.detail event) ∧
    event.phaseMark? = some (.begins phase)

/-- The event at position `n` ends a phase that the current leg of the request has begun, and the
phase has the timing from then on. -/
def CompletesAt (events : List Input) (n : Nat) (key : String) (phase : Phase) (time : Instant)
    (span : PhaseSpan) : Prop :=
  ∃ event request phases, ReachesAt events n key time (.detail event) ∧
    event.phaseMark? = some (.ends phase) ∧
    (before events n).requests.get? key = some request ∧
    request.activePhases.finish? phase time request.activeStart = some phases ∧
    phases.completed.get phase = some span

/-- The event at position `n` is a status that redirects the request. -/
def RedirectedAt (events : List Input) (n : Nat) (key : String) : Prop :=
  ∃ time event, ReachesAt events n key time (.detail event) ∧ event.redirects = true

/-- The event at position `n` makes the second leg of the request: it is a status that redirects,
or announces a redirect where there is no second leg. -/
def MakesLegAt (events : List Input) (n : Nat) (key : String) : Prop :=
  RedirectedAt events n key ∨
  ∃ time url request, ReachesAt events n key time (.detail (.redirect url)) ∧
    (before events n).requests.get? key = some request ∧ request.redirect = none

/-- The event at position `n` starts an activity that joins the request. -/
def JoinsAt (events : List Input) (n : Nat) (key : String) : Prop :=
  ∃ time other url, ReachesAt events n key time (.joined other url)

/-- The event at position `n` ends an activity that has joined the request. -/
def LeavesAt (events : List Input) (n : Nat) (key : String) : Prop :=
  ∃ time other outcome, ReachesAt events n key time (.left other outcome)

section At

variable {n : Nat} {event : NetworkEvent}

theorem not_joinsAt_of_detail (h : ReachesAt events n key time (.detail event)) :
    ¬ JoinsAt events n key := by
  rintro ⟨_, _, _, h'⟩
  exact Change.noConfusion (h.unique h').2.2

theorem not_leavesAt_of_detail (h : ReachesAt events n key time (.detail event)) :
    ¬ LeavesAt events n key := by
  rintro ⟨_, _, _, h'⟩
  exact Change.noConfusion (h.unique h').2.2

/-- A detail makes a leg only as a status that redirects, or where there is none. -/
theorem not_makesLegAt_of_detail {request : OpenRequest} {leg : RedirectLeg}
    (h : ReachesAt events n key time (.detail event)) (hkept : event.redirects = false)
    (hopen : (before events n).requests.get? key = some request)
    (hleg : request.redirect = some leg) : ¬ MakesLegAt events n key := by
  rintro (⟨_, event', h', hredirects⟩ | ⟨_, _, request', _, hopen', hnone⟩)
  · have hevent : event = event' := Change.detail.inj (h.unique h').2.2
    rw [← hevent, hkept] at hredirects
    exact absurd hredirects (by simp)
  · rw [hopen, Option.some.injEq] at hopen'
    rw [← hopen', hleg] at hnone
    exact absurd hnone (by simp)

/-- Only details make legs. -/
theorem not_makesLegAt {change : Change} (h : ReachesAt events n key time change)
    (hchange : ∀ event, change ≠ .detail event) : ¬ MakesLegAt events n key := by
  rintro (⟨_, event, h', -⟩ | ⟨_, url, _, h', -⟩)
  · exact hchange event (h.unique h').2.2
  · exact hchange (.redirect url) (h.unique h').2.2

theorem not_leavesAt_of_joined {other url : String}
    (h : ReachesAt events n key time (.joined other url)) : ¬ LeavesAt events n key := by
  rintro ⟨_, _, _, h'⟩
  exact Change.noConfusion (h.unique h').2.2

theorem not_joinsAt_of_left {other : String} {outcome : Outcome}
    (h : ReachesAt events n key time (.left other outcome)) : ¬ JoinsAt events n key := by
  rintro ⟨_, _, _, h'⟩
  exact Change.noConfusion (h.unique h').2.2

end At

/-! ## Phases -/

/-- The timing of a phase comes from two positions between `l` and `n`, where it began and where
it was completed, and its wait is not longer than the request had lasted. -/
structure SpanFrom (events : List Input) (key : String) (start : Instant) (l n : Nat)
    (phase : Phase) (span : PhaseSpan) : Prop where
  origin : ∃ b e, l < b ∧ b < e ∧ e < n ∧ BeginsAt events b key phase span.start ∧
    CompletesAt events e key phase span.finish span
  wait : span.wait.toNat ≤ span.start.toNat - start.toNat

/-- The phases of a leg come from positions between `l` and `n`. -/
structure PhasesFrom (events : List Input) (key : String) (start : Instant) (l n : Nat)
    (p : LegPhases) : Prop where
  begun : ∀ phase time, p.begun.get phase = some time →
    ∃ b, l < b ∧ b < n ∧ BeginsAt events b key phase time
  completed : ∀ phase span, p.completed.get phase = some span →
    SpanFrom events key start l n phase span

section Phases

variable {start : Instant} {i l n : Nat} {p p' : LegPhases}

theorem SpanFrom.succ {phase : Phase} {span : PhaseSpan}
    (h : SpanFrom events key start l n phase span) :
    SpanFrom events key start l (n + 1) phase span := by
  obtain ⟨b, e, hlb, hbe, hen, hbegins, hcompletes⟩ := h.origin
  exact ⟨⟨b, e, hlb, hbe, Nat.lt_succ_of_lt hen, hbegins, hcompletes⟩, h.wait⟩

theorem PhasesFrom.succ (h : PhasesFrom events key start l n p) :
    PhasesFrom events key start l (n + 1) p := by
  refine ⟨?_, fun phase span hspan => (h.completed phase span hspan).succ⟩
  intro phase time htime
  obtain ⟨b, hlb, hbn, hbegins⟩ := h.begun phase time htime
  exact ⟨b, hlb, Nat.lt_succ_of_lt hbn, hbegins⟩

/-- A leg that begins has no phases. -/
theorem phasesFrom_none (events : List Input) (key : String) (start : Instant) (l n : Nat) :
    PhasesFrom events key start l n LegPhases.none where
  begun := by
    intro phase time h
    exact absurd h (by simp)
  completed := by
    intro phase span h
    exact absurd h (by simp)

/-- What a wait counts from is not earlier than the request. -/
theorem PhasesFrom.le_waitsFrom (h : PhasesFrom events key start l n p)
    (hchron : Chronological events) (hstart : TimeAt events i start) (hil : i ≤ l)
    {base : Instant} (hbase : start.toNat ≤ base.toNat) (phase : Phase) :
    start.toNat ≤ (p.waitsFrom phase base).toNat := by
  rcases p.waitsFrom_eq phase base with heq | ⟨other, span, hspan, heq⟩
  · rw [heq]
    exact hbase
  · obtain ⟨b, e, hlb, hbe, -, -, event, request, phases, hreaches, -⟩ :=
      (h.completed other span hspan).origin
    rw [heq]
    exact hchron.le hstart hreaches.timeAt (by omega)

/-- **The phases of the current leg after a detail.** -/
theorem PhasesFrom.reports (h : PhasesFrom events key start l n p) (hchron : Chronological events)
    (hstart : TimeAt events i start) (hil : i ≤ l) (hln : l < n) {now : Instant}
    {event : NetworkEvent} {request : OpenRequest}
    (hreaches : ReachesAt events n key now (.detail event))
    (hopen : (before events n).requests.get? key = some request)
    (hactive : request.activePhases = p) (hbase : start.toNat ≤ request.activeStart.toNat)
    (hreports : p.Reports now request.activeStart event p') :
    PhasesFrom events key start l (n + 1) p' := by
  cases hreports with
  | nothing => exact h.succ
  | queued queueing => exact ⟨h.succ.begun, h.succ.completed⟩
  | @begins phase hmark =>
    refine ⟨?_, h.succ.completed⟩
    intro other time htime
    rw [LegPhases.get_begun_begin] at htime
    split at htime
    · rename_i heq
      rw [Option.some.injEq] at htime
      subst heq htime
      exact ⟨n, hln, Nat.lt_succ_self n, event, hreaches, hmark⟩
    · exact h.succ.begun other time htime
  | @ends phase _ hmark hfinish =>
    obtain ⟨began, hbegan, hbegun, hcompleted⟩ := LegPhases.finish?_eq_some hfinish
    constructor
    · intro other time htime
      rw [hbegun] at htime
      split at htime
      · exact absurd htime (by simp)
      · exact h.succ.begun other time htime
    · intro other span hspan
      rw [hcompleted] at hspan
      split at hspan
      · rename_i heq
        rw [Option.some.injEq] at hspan
        subst heq hspan
        obtain ⟨b, hlb, hbn, hbegins⟩ := h.begun other began hbegan
        obtain ⟨_, hbreaches, -⟩ := id hbegins
        have hfinished : began.plus (now.since began) = now :=
          Instant.plus_since (hchron.le hbreaches.timeAt hreaches.timeAt (Nat.le_of_lt hbn))
        refine ⟨⟨b, n, hlb, hbn, Nat.lt_succ_self n, hbegins, ?_⟩, ?_⟩
        · refine ⟨event, request, p', ?_, hmark, hopen, ?_, ?_⟩
          · rw [PhaseSpan.finish, hfinished]
            exact hreaches
          · rw [PhaseSpan.finish, hfinished, hactive]
            exact hfinish
          · rw [hcompleted, if_pos rfl]
        · show (began.since _).toNat ≤ began.toNat - start.toNat
          rw [Instant.toNat_since]
          have hfrom := h.le_waitsFrom hchron hstart hil hbase other
          omega
      · exact h.succ.completed other span hspan

end Phases

/-! ## Second legs -/

/-- How a second leg ended: as the last activity did that left it between `l` and `n`, if any. -/
def EndFrom (events : List Input) (key : String) (l n : Nat) (outcome : Option Outcome)
    (finish : Option Instant) : Prop :=
  outcome = none ∧ finish = none ∨
  ∃ e other time o, l < e ∧ e < n ∧ ReachesAt events e key time (.left other o) ∧
    NoneBetween (LeavesAt events · key) e n ∧ outcome = some o ∧ finish = some time

/-- A second leg that was made at position `l` comes from positions between `l` and `n`; its start
is that of position `s`. -/
structure LegFrom (events : List Input) (key : String) (start : Instant) (i l s n : Nat)
    (leg : RedirectLeg) : Prop where
  opened : i < l
  made : MakesLegAt events l key
  lt : l < n
  latest : NoneBetween (MakesLegAt events · key) l n
  started : s = l ∨ l < s ∧ s < n ∧ JoinsAt events s key
  startTime : TimeAt events s leg.start
  settled : NoneBetween (JoinsAt events · key) s n
  phases : PhasesFrom events key start l n leg.phases
  finished : EndFrom events key l n leg.outcome leg.finish

/-- What an open request has taken down comes from positions after the one that opened it. -/
structure RequestFrom (events : List Input) (key : String) (i n : Nat) (r : OpenRequest) :
    Prop where
  lt : i < n
  startTime : TimeAt events i r.start
  phases : PhasesFrom events key r.start i n r.phases
  leg : ∀ leg, r.redirect = some leg → ∃ l s, LegFrom events key r.start i l s n leg

section Legs

variable {start : Instant} {i l s n : Nat} {leg : RedirectLeg} {r : OpenRequest}

theorem EndFrom.succ {outcome : Option Outcome} {finish : Option Instant}
    (h : EndFrom events key l n outcome finish) (hleaves : ¬ LeavesAt events n key) :
    EndFrom events key l (n + 1) outcome finish := by
  rcases h with hnone | ⟨e, other, time, o, hle, hen, hreaches, hlast, houtcome, hfinish⟩
  · exact Or.inl hnone
  · exact Or.inr ⟨e, other, time, o, hle, Nat.lt_succ_of_lt hen, hreaches, hlast.succ hleaves,
      houtcome, hfinish⟩

theorem LegFrom.started_succ (h : LegFrom events key start i l s n leg) :
    s = l ∨ l < s ∧ s < n + 1 ∧ JoinsAt events s key := by
  rcases h.started with heq | ⟨hls, hsn, hjoins⟩
  · exact Or.inl heq
  · exact Or.inr ⟨hls, Nat.lt_succ_of_lt hsn, hjoins⟩

theorem LegFrom.succ (h : LegFrom events key start i l s n leg) (hmakes : ¬ MakesLegAt events n key)
    (hjoins : ¬ JoinsAt events n key) (hleaves : ¬ LeavesAt events n key) :
    LegFrom events key start i l s (n + 1) leg where
  opened := h.opened
  made := h.made
  lt := Nat.lt_succ_of_lt h.lt
  latest := h.latest.succ hmakes
  started := h.started_succ
  startTime := h.startTime
  settled := h.settled.succ hjoins
  phases := h.phases.succ
  finished := h.finished.succ hleaves

/-- A second leg that has just been made. -/
theorem legFrom_begin {now : Instant} (url : String) (hin : i < n)
    (hmakes : MakesLegAt events n key) (htime : TimeAt events n now) :
    LegFrom events key start i n n (n + 1) { RedirectLeg.begin now with url := url } where
  opened := hin
  made := hmakes
  lt := Nat.lt_succ_self n
  latest := noneBetween_succ_self _ n
  started := Or.inl rfl
  startTime := htime
  settled := noneBetween_succ_self _ n
  phases := phasesFrom_none events key start n (n + 1)
  finished := Or.inl ⟨rfl, rfl⟩

/-- An activity that joins starts the leg anew and leaves the rest of it. -/
theorem LegFrom.joined (h : LegFrom events key start i l s n leg) {now : Instant}
    {other url : String} (hreaches : ReachesAt events n key now (.joined other url))
    (address : String) :
    LegFrom events key start i l n (n + 1) { leg with start := now, url := address } where
  opened := h.opened
  made := h.made
  lt := Nat.lt_succ_of_lt h.lt
  latest := h.latest.succ (not_makesLegAt hreaches fun _ => Change.noConfusion)
  started := Or.inr ⟨h.lt, Nat.lt_succ_self n, now, other, url, hreaches⟩
  startTime := hreaches.timeAt
  settled := noneBetween_succ_self _ n
  phases := h.phases.succ
  finished := h.finished.succ (not_leavesAt_of_joined hreaches)

/-- An activity that leaves sets the end of the leg and nothing else. -/
theorem LegFrom.left (h : LegFrom events key start i l s n leg) {now : Instant} {other : String}
    {outcome : Outcome} (hreaches : ReachesAt events n key now (.left other outcome)) :
    LegFrom events key start i l s (n + 1)
      { leg with outcome := some outcome, finish := some now } where
  opened := h.opened
  made := h.made
  lt := Nat.lt_succ_of_lt h.lt
  latest := h.latest.succ (not_makesLegAt hreaches fun _ => Change.noConfusion)
  started := h.started_succ
  startTime := h.startTime
  settled := h.settled.succ (not_joinsAt_of_left hreaches)
  phases := h.phases.succ
  finished := Or.inr ⟨n, other, now, outcome, h.lt, Nat.lt_succ_self n, hreaches,
    noneBetween_succ_self _ n, rfl, rfl⟩

theorem LegFrom.start_le (h : LegFrom events key start i l s n leg) (hchron : Chronological events)
    (hstart : TimeAt events i start) : start.toNat ≤ leg.start.toNat := by
  refine hchron.le hstart h.startTime ?_
  have hil := h.opened
  rcases h.started with heq | ⟨hls, -, -⟩
  · omega
  · omega

theorem RequestFrom.succ (h : RequestFrom events key i n r)
    (hnone : ∀ time change, ¬ ReachesAt events n key time change) :
    RequestFrom events key i (n + 1) r := by
  refine ⟨Nat.lt_succ_of_lt h.lt, h.startTime, h.phases.succ, ?_⟩
  intro leg hleg
  obtain ⟨l, s, hfrom⟩ := h.leg leg hleg
  refine ⟨l, s, hfrom.succ ?_ ?_ ?_⟩
  · rintro (⟨time, event, hreaches, -⟩ | ⟨time, url, request, hreaches, -⟩)
    · exact hnone _ _ hreaches
    · exact hnone _ _ hreaches
  · rintro ⟨time, other, url, hreaches⟩
    exact hnone _ _ hreaches
  · rintro ⟨time, other, outcome, hreaches⟩
    exact hnone _ _ hreaches

/-- **A change of a request comes from its position.** -/
theorem RequestFrom.change (h : RequestFrom events key i n r) (hchron : Chronological events)
    {now : Instant} {change : Change} (hreaches : ReachesAt events n key now change)
    (hopen : (before events n).requests.get? key = some r) :
    RequestFrom events key i (n + 1) (r.change now change) := by
  have hstart : (r.change now change).start = r.start := (r.evolves_change now change).start
  suffices hlegs : PhasesFrom events key r.start i (n + 1) (r.change now change).phases ∧
      ∀ leg, (r.change now change).redirect = some leg →
        ∃ l s, LegFrom events key r.start i l s (n + 1) leg by
    refine ⟨Nat.lt_succ_of_lt h.lt, ?_, ?_, ?_⟩
    · rw [hstart]
      exact h.startTime
    · rw [hstart]
      exact hlegs.1
    · rw [hstart]
      exact hlegs.2
  generalize hphases : (r.change now change).phases = phases
  generalize hredirect : (r.change now change).redirect = redirect
  have hafter := r.legsAfter_change now change
  rw [hphases, hredirect] at hafter
  cases hafter with
  | redirected hredirects =>
    refine ⟨h.phases.succ, fun leg hleg => ⟨n, n, ?_⟩⟩
    rw [← Option.some.inj hleg]
    exact legFrom_begin "" h.lt (Or.inl ⟨_, _, hreaches, hredirects⟩) hreaches.timeAt
  | announced hnone =>
    refine ⟨h.phases.succ, fun leg hleg => ⟨n, n, ?_⟩⟩
    rw [← Option.some.inj hleg]
    exact legFrom_begin _ h.lt (Or.inr ⟨_, _, r, hreaches, hopen, hnone⟩) hreaches.timeAt
  | @named before url hbefore =>
    refine ⟨h.phases.succ, fun leg hleg => ?_⟩
    obtain ⟨l, s, hfrom⟩ := h.leg before hbefore
    have hnext := hfrom.succ (not_makesLegAt_of_detail hreaches rfl hopen hbefore)
      (not_joinsAt_of_detail hreaches) (not_leavesAt_of_detail hreaches)
    rw [← Option.some.inj hleg]
    exact ⟨l, s, { hnext with }⟩
  | @first event phases hnone hkept hreports =>
    have hactive : r.activePhases = r.phases := by rw [OpenRequest.activePhases, hnone]
    have hbase : r.activeStart = r.start := by rw [OpenRequest.activeStart, hnone]
    rw [← hbase] at hreports
    refine ⟨h.phases.reports hchron h.startTime (Nat.le_refl i) h.lt hreaches hopen hactive
      (Nat.le_of_eq (by rw [hbase])) hreports, fun leg hleg => ?_⟩
    exact absurd hleg (by simp)
  | @second event before phases hbefore hkept hreports =>
    have hactive := OpenRequest.activePhases_of_some hbefore
    have hbase := OpenRequest.activeStart_of_some hbefore
    obtain ⟨l, s, hfrom⟩ := h.leg before hbefore
    have hnext := hfrom.succ (not_makesLegAt_of_detail hreaches hkept hopen hbefore)
      (not_joinsAt_of_detail hreaches) (not_leavesAt_of_detail hreaches)
    have hle : r.start.toNat ≤ r.activeStart.toNat := by
      rw [hbase]
      exact hfrom.start_le hchron h.startTime
    rw [← hbase] at hreports
    have hphases := hfrom.phases.reports hchron h.startTime (Nat.le_of_lt hfrom.opened) hfrom.lt
      hreaches hopen hactive hle hreports
    refine ⟨h.phases.succ, fun leg hleg => ?_⟩
    rw [← Option.some.inj hleg]
    exact ⟨l, s, { hnext with phases := hphases }⟩
  | joined other url =>
    refine ⟨h.phases.succ, fun leg hleg => ?_⟩
    obtain ⟨before, hbefore, rfl⟩ := Option.map_eq_some_iff.mp hleg
    obtain ⟨l, s, hfrom⟩ := h.leg before hbefore
    exact ⟨l, n, hfrom.joined hreaches _⟩
  | left other outcome =>
    refine ⟨h.phases.succ, fun leg hleg => ?_⟩
    obtain ⟨before, hbefore, rfl⟩ := Option.map_eq_some_iff.mp hleg
    obtain ⟨l, s, hfrom⟩ := h.leg before hbefore
    exact ⟨l, s, hfrom.left hreaches⟩

end Legs

/-! ## Open requests, and reports -/

theorem timeAt_of_opensAt {i : Nat} {url : String} (h : OpensAt events i key url time) :
    TimeAt events i time := by
  obtain ⟨c, _, _, _, _, _, _, hevent, -, -, htime, -⟩ := h.event
  exact ⟨_, hevent, htime⟩

/-- **What an open request has taken down comes from the events since it was opened.** -/
theorem requestFrom_of_opensAt (hchron : Chronological events) {i n : Nat} {url : String}
    {request : OpenRequest} (hopens : OpensAt events i key url time) (hin : i < n)
    (hn : n ≤ events.length) (hend : NoEndBetween events i n key)
    (hopen : (before events n).requests.get? key = some request) :
    RequestFrom events key i n request := by
  obtain ⟨version, hfresh⟩ := get?_succ_of_opensAt hopens
  have hstart : RequestFrom events key i (i + 1) (.begin url time version) := by
    refine ⟨Nat.lt_succ_self i, timeAt_of_opensAt hopens, phasesFrom_none _ _ _ _ _, ?_⟩
    intro leg hleg
    exact absurd hleg (by simp [OpenRequest.begin])
  obtain ⟨r, hr, hfrom⟩ := open_induction (P := RequestFrom events key i) (Nat.lt_succ_self i) hin
    hn hend hfresh hstart (fun k r _ _ hnone h => h.succ hnone)
    (fun k r now change _ _ hreaches hopen h => h.change hchron hreaches hopen)
  have heq : r = request := Option.some.inj (hr.symm.trans hopen)
  rw [← heq]
  exact hfrom

end RequestTracker

namespace ClosedRequest

/-- The phases of the two legs. -/
def legPhases (r : ClosedRequest) : List LegPhases :=
  r.phases :: (r.redirect.map RedirectLeg.phases).toList

/-- The instant lies between the start of the request and its end. -/
def Contains (r : ClosedRequest) (time : Instant) : Prop :=
  r.start.toNat ≤ time.toNat ∧ time.toNat ≤ r.finish.toNat

end ClosedRequest

namespace RequestTracker

/-- The timing of a phase fits the request that reports it: it lies within the request, ends with
the event that completed the phase, and its wait began in the request. -/
structure Fits (events : List Input) (i j : Nat) (r : ClosedRequest) (phase : Phase)
    (span : PhaseSpan) : Prop where
  start : r.Contains span.start
  finish : r.Contains span.finish
  completed : ∃ e, i < e ∧ e < j ∧ CompletesAt events e r.activity phase span.finish span
  wait : span.wait.toNat ≤ span.start.toNat - r.start.toNat

section Reports

variable {events : List Input} {i j l n : Nat} {r : ClosedRequest} {time : Instant}

/-- A request is reported at the time of the event that ends it. -/
theorem timeAt_finish (hchron : Chronological events) (hreport : ReportOf events i j r) :
    TimeAt events j r.finish := by
  obtain ⟨c, hfirst, -, hduration⟩ := hreport.ends
  obtain ⟨event, hevent, -, -⟩ := hfirst.ends
  have hend : TimeAt events j c.time := ⟨_, hevent, rfl⟩
  have hle := hchron.le (timeAt_of_opensAt hreport.opens) hend (Nat.le_of_lt hfirst.lt)
  have heq : r.duration = c.time.since r.start :=
    Duration.eq_of_toNat (hduration.trans (Instant.toNat_since c.time r.start).symm)
  rw [ClosedRequest.finish, heq, Instant.plus_since hle]
  exact hend

/-- What comes from a position between the opening of a request and its end is in it. -/
theorem contains_of_timeAt (hchron : Chronological events) (hreport : ReportOf events i j r)
    (htime : TimeAt events n time) (hin : i ≤ n) (hnj : n ≤ j) : r.Contains time :=
  ⟨hchron.le (timeAt_of_opensAt hreport.opens) htime hin,
    hchron.le htime (timeAt_finish hchron hreport) hnj⟩

theorem fits_of_phasesFrom (hchron : Chronological events) (hreport : ReportOf events i j r)
    {p : LegPhases} (hil : i ≤ l) (h : PhasesFrom events r.activity r.start l j p) {phase : Phase}
    {span : PhaseSpan} (hspan : p.completed.get phase = some span) :
    Fits events i j r phase span := by
  have hfrom := h.completed phase span hspan
  obtain ⟨b, e, hlb, hbe, hej, ⟨_, hbegins, -⟩, hcompletes⟩ := hfrom.origin
  obtain ⟨_, _, _, hends, -⟩ := id hcompletes
  exact ⟨contains_of_timeAt hchron hreport hbegins.timeAt (by omega) (by omega),
    contains_of_timeAt hchron hreport hends.timeAt (by omega) (by omega),
    ⟨e, by omega, hej, hcompletes⟩, hfrom.wait⟩

/-- A reported request comes from the events since it was opened. -/
theorem exists_requestFrom (hchron : Chronological events)
    (hreported : (results events)[j]? = some (some r)) :
    ∃ i request, ReportOf events i j r ∧ RequestFrom events r.activity i j request ∧
      request.start = r.start ∧ request.phases = r.phases ∧ request.redirect = r.redirect := by
  obtain ⟨i, request, hcloses⟩ := exists_closesAt hreported
  have hfrom := requestFrom_of_opensAt hchron hcloses.report.opens hcloses.lt hcloses.le_length
    hcloses.first hcloses.isOpen
  exact ⟨i, request, hcloses.report, hfrom, hcloses.start, hcloses.phases, hcloses.redirect⟩

end Reports

/-- **A timeline contains its phases.**  In every trace in the order of time, a request that is
reported contains the phases of both its legs: each lies between its start and its end, ends with
the event that completed it, and waited no longer than the request had lasted when it began.  Its
second leg starts in it, and ends in it if it reports an end. -/
theorem timeline_contains_phases (events : List Input) (hchron : Chronological events) {j : Nat}
    {r : ClosedRequest} (hreported : (results events)[j]? = some (some r)) :
    ∃ i, ReportOf events i j r ∧
      (∀ p ∈ r.legPhases, ∀ phase span, p.completed.get phase = some span →
        Fits events i j r phase span) ∧
      ∀ leg, r.redirect = some leg →
        r.Contains leg.start ∧ ∀ time, leg.finish = some time → r.Contains time := by
  obtain ⟨i, request, hreport, hfrom, hstart, hphases, hredirect⟩ :=
    exists_requestFrom hchron hreported
  have hfirst := hfrom.phases
  have hleg := hfrom.leg
  rw [hstart, hphases] at hfirst
  rw [hstart, hredirect] at hleg
  refine ⟨i, hreport, ?_, ?_⟩
  · intro p hp phase span hspan
    rcases List.mem_cons.mp hp with rfl | hp
    · exact fits_of_phasesFrom hchron hreport (Nat.le_refl i) hfirst hspan
    · obtain ⟨leg, hsome, rfl⟩ := Option.map_eq_some_iff.mp (Option.mem_toList.mp hp)
      obtain ⟨l, s, hlegFrom⟩ := hleg leg hsome
      exact fits_of_phasesFrom hchron hreport (Nat.le_of_lt hlegFrom.opened) hlegFrom.phases hspan
  · intro leg hsome
    obtain ⟨l, s, hlegFrom⟩ := hleg leg hsome
    have hil := hlegFrom.opened
    have hlj := hlegFrom.lt
    constructor
    · refine contains_of_timeAt hchron hreport hlegFrom.startTime ?_ ?_
      · rcases hlegFrom.started with heq | ⟨hls, -⟩ <;> omega
      · rcases hlegFrom.started with heq | ⟨-, hsj, -⟩ <;> omega
    · intro time htime
      rcases hlegFrom.finished with ⟨-, hnone⟩ | ⟨e, other, t, o, hle, hej, hreaches, -, -, hfinish⟩
      · rw [hnone] at htime
        exact absurd htime (by simp)
      · rw [hfinish, Option.some.injEq] at htime
        subst htime
        exact contains_of_timeAt hchron hreport hreaches.timeAt (by omega) (by omega)

/-- The request `1/5` resolves its name twice and begins to connect; then it is redirected.  The
activity `1/5/2` that follows the redirect connects, too, and ends before the request. -/
def resolvedTwice : List Input :=
  [(below 10 0, .requestStart "https" "a" 443 "/" 1 1),
    (below 11 0x10, .dnsStart "a"),
    (below 13 0x10, .dnsFailed),
    (below 14 0x10, .dnsStart "a"),
    (below 15 0x10, .dnsStop),
    (below 15 0x10, .connectStart "a"),
    (below 17 0, .responseHeadersStop 302),
    (below 20 0x20, .requestStart "https" "b" 443 "/" 1 1),
    (below 22 0x20, .connectStart "b"),
    (below 25 0x20, .connectStop),
    (below 25 0x20, .requestStop 200),
    (below 30 0, .requestStop 200)]

theorem timeline_contains_phases_resolvedTwice :
    Chronological resolvedTwice ∧ ∃ r leg dns socket,
      (results resolvedTwice)[11]? = some (some r) ∧ r.redirect = some leg ∧
        r.phases.completed.get .dns = some dns ∧ leg.phases.completed.get .socket = some socket ∧
        ∃ i, Fits resolvedTwice i 11 r .dns dns ∧ Fits resolvedTwice i 11 r .socket socket ∧
          r.Contains leg.start := by
  have hchron : Chronological resolvedTwice := by decide +kernel
  have hsome : ((results resolvedTwice)[11]?.join.bind fun r => r.redirect.bind fun leg =>
      (r.phases.completed.get .dns).bind fun dns =>
        (leg.phases.completed.get .socket).map fun socket => (dns, socket)).isSome := by
    decide +kernel
  obtain ⟨_, h⟩ := Option.isSome_iff_exists.mp hsome
  obtain ⟨r, hr, h⟩ := Option.bind_eq_some_iff.mp h
  obtain ⟨leg, hleg, h⟩ := Option.bind_eq_some_iff.mp h
  obtain ⟨dns, hdns, h⟩ := Option.bind_eq_some_iff.mp h
  obtain ⟨socket, hsocket, -⟩ := Option.map_eq_some_iff.mp h
  have hreported : (results resolvedTwice)[11]? = some (some r) := Option.join_eq_some_iff.mp hr
  obtain ⟨i, -, hphases, hsecond⟩ := timeline_contains_phases resolvedTwice hchron hreported
  have hmem : leg.phases ∈ r.legPhases := by
    rw [ClosedRequest.legPhases, hleg]
    exact List.mem_cons_of_mem _ List.mem_cons_self
  exact ⟨hchron, r, leg, dns, socket, hreported, hleg, hdns, hsocket, i,
    hphases _ List.mem_cons_self _ _ hdns, hphases _ hmem _ _ hsocket, (hsecond leg hleg).1⟩

/-- The second attempt to resolve the name counts, and the wait for the second connection counts
from the start of the second leg. -/
example :
    (results resolvedTwice)[11]?.join.map (fun r =>
        (r.phases.completed.toList, r.redirect.map fun leg => leg.phases.completed.toList)) =
      some ([(.dns, ⟨⟨14⟩, ⟨4⟩, ⟨1⟩⟩)], some [(.socket, ⟨⟨22⟩, ⟨2⟩, ⟨3⟩⟩)]) := by
  decide +kernel

end RequestTracker
end RuntimeTrace
