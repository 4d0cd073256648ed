import RuntimeTrace.Proofs.Request.Redirects
import RuntimeTrace.Proofs.Request.Timeline
import RuntimeTrace.Proofs.Table

/-!
# What a second leg keeps, and what it is about

The second leg of a request is written by many hands.  A status that redirects begins it, and so
does the announcement of a redirect; activities that join the request set its start and its
address; details add phases; and an activity that leaves sets its end.

## What it keeps

All of these add or replace, except the first: **a status that redirects begins the leg anew**,
also where there is one, and what it held is gone (`redirect_of_redirectedAt`).  Without such a
status nothing is lost: a phase that has a timing keeps one, and the address changes only with an
event that brings another one (`Kept`).

## What it is about

Nothing makes these events be about one activity.  One that joins sets the start of the leg and
leaves alone what is there, phases that have begun and an end that came before.  So a leg may
start after its phases, and end before it starts.  `second_leg_comes_from` says how far this goes:
a phase starts before the leg does only if an activity joined after the phase began, and the end is
that of an activity that joined when the leg starts, or earlier (`Followed`).  If only one activity
joins, and that before a phase begins (`FollowedOnce`), the leg is about it.

Main statements: `second_leg_keeps_data`, `second_leg_comes_from`.
-/

namespace RuntimeTrace

/-- A report keeps the timing of a phase unless it completes that phase. -/
theorem LegPhases.Reports.get_completed {p p' : LegPhases} {now start : Instant}
    {event : NetworkEvent} (h : p.Reports now start event p') (phase : Phase) :
    p'.completed.get phase = p.completed.get phase ∨
      event.phaseMark? = some (.ends phase) ∧ p.finish? phase now start = some p' ∧
        ∃ span, p'.completed.get phase = some span := by
  cases h with
  | begins | queued | nothing => exact Or.inl rfl
  | @ends ended _ hmark hfinish =>
    obtain ⟨began, -, -, hcompleted⟩ := LegPhases.finish?_eq_some hfinish
    by_cases heq : phase = ended
    · subst heq
      exact Or.inr ⟨hmark, hfinish, _, by rw [hcompleted, if_pos rfl]⟩
    · left
      rw [hcompleted, if_neg heq]

namespace RequestTracker

variable {events : List Input} {key : String} {request : OpenRequest} {leg leg' leg'' : RedirectLeg}

/-! ## What a second leg keeps -/

/-- The event at position `n` gives the second leg an address. -/
def NamesLegAt (events : List Input) (n : Nat) (key url : String) : Prop :=
  ∃ time, ReachesAt events n key time (.detail (.redirect url)) ∨
    url ≠ "" ∧ ∃ other, ReachesAt events n key time (.joined other url)

theorem RedirectedAt.exists_event {n : Nat} (h : RedirectedAt events n key) :
    ∃ x, events[n]? = some x ∧ x.2.redirects = true := by
  obtain ⟨time, event, ⟨c, event', hevent, -, hreaches⟩, hredirects⟩ := h
  cases hreaches with
  | detail => exact ⟨(c, event), hevent, hredirects⟩

/-- What a second leg held at position `m` it holds at position `n`, unless an event in between
completed a phase again or gave it another address. -/
structure Kept (events : List Input) (m n : Nat) (key : String) (leg leg' : RedirectLeg) :
    Prop where
  completed : ∀ phase span, leg.phases.completed.get phase = some span →
    ∃ span', leg'.phases.completed.get phase = some span' ∧
      (span' = span ∨ ∃ k time, m ≤ k ∧ k < n ∧ CompletesAt events k key phase time span')
  url : leg'.url = leg.url ∨ ∃ k, m ≤ k ∧ k < n ∧ NamesLegAt events k key leg'.url

theorem Kept.refl (events : List Input) (m n : Nat) (key : String) (leg : RedirectLeg) :
    Kept events m n key leg leg :=
  ⟨fun _ span hspan => ⟨span, hspan, Or.inl rfl⟩, Or.inl rfl⟩

theorem Kept.trans {m k n : Nat} (hmk : m ≤ k) (hkn : k ≤ n) (h : Kept events m k key leg leg')
    (h' : Kept events k n key leg' leg'') : Kept events m n key leg leg'' := by
  constructor
  · intro phase span hspan
    obtain ⟨span', hspan', hfirst⟩ := h.completed phase span hspan
    obtain ⟨span'', hspan'', hsecond⟩ := h'.completed phase span' hspan'
    refine ⟨span'', hspan'', ?_⟩
    rcases hsecond with rfl | ⟨e, time, hke, hen, hcompletes⟩
    · rcases hfirst with heq | ⟨e, time, hme, hek, hcompletes⟩
      · exact Or.inl heq
      · exact Or.inr ⟨e, time, hme, Nat.lt_of_lt_of_le hek hkn, hcompletes⟩
    · exact Or.inr ⟨e, time, Nat.le_trans hmk hke, hen, hcompletes⟩
  · rcases h'.url with heq | ⟨e, hke, hen, hnames⟩
    · rw [heq]
      rcases h.url with heq' | ⟨e, hme, hek, hnames⟩
      · exact Or.inl heq'
      · exact Or.inr ⟨e, hme, Nat.lt_of_lt_of_le hek hkn, hnames⟩
    · exact Or.inr ⟨e, Nat.le_trans hmk hke, hen, hnames⟩

/-- **A status that redirects begins the second leg anew.** -/
theorem redirect_of_redirectedAt {n : Nat} (h : RedirectedAt events n key)
    (hopen : (before events n).requests.get? key = some request) :
    ∃ request' time, (before events (n + 1)).requests.get? key = some request' ∧
      request'.redirect = some (.begin time) := by
  obtain ⟨time, event, hreaches, hredirects⟩ := h
  refine ⟨_, time, hreaches.succ hopen, ?_⟩
  have hafter := request.legsAfter_change time (.detail event)
  generalize (request.change time (.detail event)).phases = phases at hafter
  generalize (request.change time (.detail event)).redirect = redirect at hafter ⊢
  cases hafter with
  | redirected => rfl
  | announced | named => exact absurd hredirects (by simp [NetworkEvent.redirects])
  | first _ hkept | second _ hkept =>
    rw [hkept] at hredirects
    exact absurd hredirects (by simp)

/-- **Every other change keeps what the second leg holds.** -/
theorem kept_change {n : Nat} {time : Instant} {change : Change}
    (hreaches : ReachesAt events n key time change)
    (hopen : (before events n).requests.get? key = some request)
    (hleg : request.redirect = some leg) (hredirected : ¬ RedirectedAt events n key) :
    ∃ leg', (request.change time change).redirect = some leg' ∧
      Kept events n (n + 1) key leg leg' := by
  have hafter := request.legsAfter_change time change
  generalize (request.change time change).phases = phases at hafter
  generalize (request.change time change).redirect = redirect at hafter ⊢
  cases hafter with
  | redirected hredirects => exact absurd ⟨_, _, hreaches, hredirects⟩ hredirected
  | announced hnone | first hnone =>
    rw [hleg] at hnone
    exact absurd hnone (by simp)
  | @named before url hbefore =>
    rw [hleg, Option.some.injEq] at hbefore
    subst hbefore
    exact ⟨_, rfl, (Kept.refl events n (n + 1) key leg).completed,
      Or.inr ⟨n, Nat.le_refl n, Nat.lt_succ_self n, time, Or.inl hreaches⟩⟩
  | @second event before phases hbefore hkept hreports =>
    rw [hleg, Option.some.injEq] at hbefore
    subst hbefore
    refine ⟨_, rfl, ?_, Or.inl rfl⟩
    intro phase span hspan
    rcases hreports.get_completed phase with hsame | ⟨hmark, hfinish, span', hspan'⟩
    · exact ⟨span, hsame.trans hspan, Or.inl rfl⟩
    · rw [← OpenRequest.activePhases_of_some hleg, ← OpenRequest.activeStart_of_some hleg]
        at hfinish
      exact ⟨span', hspan', Or.inr ⟨n, time, Nat.le_refl n, Nat.lt_succ_self n, event, request, _,
        hreaches, hmark, hopen, hfinish, hspan'⟩⟩
  | joined other url =>
    rw [hleg]
    refine ⟨_, rfl, (Kept.refl events n (n + 1) key leg).completed, ?_⟩
    by_cases hurl : url = ""
    · exact Or.inl (if_pos hurl)
    · right
      refine ⟨n, Nat.le_refl n, Nat.lt_succ_self n, time, Or.inr ?_⟩
      dsimp only
      rw [if_neg hurl]
      exact ⟨hurl, other, hreaches⟩
  | left other outcome =>
    rw [hleg]
    exact ⟨_, rfl, (Kept.refl events n (n + 1) key leg).completed, Or.inl rfl⟩

/-- **A second leg keeps its data.**  In every trace, what the second leg of an open request holds
at some position it still holds at every later one, as long as the request does not end and no
status redirects it again: a phase that has a timing has one, the same unless the phase was
completed again, and the address is the same unless the announcement of a redirect or an activity
that joined brought another one.  If the request ends there, this is what is reported.  A status
that redirects begins the leg anew. -/
theorem second_leg_keeps_data (events : List Input) {i m n : Nat} {key : String}
    {request : OpenRequest} {leg : RedirectLeg} (him : i < m) (hmn : m ≤ n)
    (hn : n ≤ events.length) (hend : NoEndBetween events i n key)
    (hopen : (before events m).requests.get? key = some request)
    (hleg : request.redirect = some leg) :
    ((∀ k, m ≤ k → k < n → ¬ RedirectedAt events k key) →
      ∃ request' leg', (before events n).requests.get? key = some request' ∧
        request'.redirect = some leg' ∧ Kept events m n key leg leg' ∧
        ∀ r, (results events)[n]? = some (some r) → r.activity = key →
          r.redirect = some leg') ∧
    ∀ k, m ≤ k → k < n → RedirectedAt events k key →
      ∃ request' time, (before events (k + 1)).requests.get? key = some request' ∧
        request'.redirect = some (.begin time) := by
  constructor
  · intro hredirected
    have hrun : ∃ request', (before events n).requests.get? key = some request' ∧
        ∃ leg', request'.redirect = some leg' ∧ Kept events m n key leg leg' := by
      refine open_induction (P := fun k r => ∃ leg', r.redirect = some leg' ∧
        Kept events m k key leg leg') him hmn hn hend hopen ?_ ?_ ?_
      · exact ⟨leg, hleg, .refl events m m key leg⟩
      · rintro k r hmk - - ⟨leg', hleg', hkept⟩
        exact ⟨leg', hleg', hkept.trans hmk (Nat.le_succ k) (.refl events k (k + 1) key leg')⟩
      · rintro k r time change hmk hkn hreaches hr ⟨leg', hleg', hkept⟩
        obtain ⟨leg'', hleg'', hkept'⟩ := kept_change hreaches hr hleg' (hredirected k hmk hkn)
        exact ⟨leg'', hleg'', hkept.trans hmk (Nat.le_succ k) hkept'⟩
    obtain ⟨request', hopen', leg', hleg', hkept⟩ := hrun
    refine ⟨request', leg', hopen', hleg', hkept, ?_⟩
    rintro r hreported rfl
    obtain ⟨c, closing, -, hclosing, hr⟩ := getElem?_results_eq_some.mp hreported
    rw [hopen', Option.some.injEq] at hclosing
    subst hclosing
    rw [hr]
    exact hleg'
  · intro k hmk hkn hredirected
    obtain ⟨request', hopen', -⟩ := firstLeg_kept him hmk (Nat.le_trans (Nat.le_of_lt hkn) hn)
      (hend.mono (Nat.le_of_lt hkn)) hopen (by rw [hleg]; rfl)
    exact redirect_of_redirectedAt hredirected hopen'

/-- The request `1/5` is redirected and told where to; the activity `1/5/2` that follows resolves
a name and connects, and its answer is that nothing has changed. -/
def unchangedAnswer : List Input :=
  [(below 10 0, .requestStart "https" "a" 443 "/" 1 1),
    (below 12 0x10, .responseHeadersStop 302),
    (below 13 0, .redirect "https://b/"),
    (below 14 0x20, .dnsStart "b"),
    (below 17 0x20, .dnsStop),
    (below 18 0x20, .connectStart "b"),
    (below 21 0x20, .connectStop),
    (below 24 0x30, .responseHeadersStop 304),
    (below 26 0, .requestStop 304)]

/-- The second leg under a key before the event at a position. -/
def legBefore (events : List Input) (n : Nat) (key : String) : Option RedirectLeg :=
  ((before events n).requests.get? key).bind OpenRequest.redirect

theorem second_leg_keeps_data_unchangedAnswer :
    NoEndBetween unchangedAnswer 0 8 "1/5" ∧ RedirectedAt unchangedAnswer 7 "1/5" ∧
      ∃ leg, legBefore unchangedAnswer 5 "1/5" = some leg ∧
        leg.url = "https://b/" ∧ leg.phases.completed.get .dns = some ⟨⟨14⟩, ⟨2⟩, ⟨3⟩⟩ ∧
        (∃ leg', legBefore unchangedAnswer 7 "1/5" = some leg' ∧
          Kept unchangedAnswer 5 7 "1/5" leg leg') ∧
        ∃ time, legBefore unchangedAnswer 8 "1/5" = some (.begin time) := by
  have hend : NoEndBetween unchangedAnswer 0 8 "1/5" := by
    have hdetails : ∀ x ∈ unchangedAnswer.take 8, x.2.outcome? = none := by decide +kernel
    rintro m - hm c outcome ⟨event, hevent, houtcome, -⟩
    have hmem : (c, event) ∈ unchangedAnswer.take 8 :=
      List.mem_of_getElem? ((List.getElem?_take_of_lt hm).trans hevent)
    rw [hdetails _ hmem] at houtcome
    exact absurd houtcome (by simp)
  have hkept : ∀ k, 5 ≤ k → k < 7 → ¬ RedirectedAt unchangedAnswer k "1/5" := by
    intro k hle hlt hredirected
    have hkinds : ∀ k : Fin 9, 5 ≤ k → k < 7 → unchangedAnswer[k].2.redirects = false := by
      decide +kernel
    obtain ⟨x, hx, hredirects⟩ := hredirected.exists_event
    obtain ⟨hk, rfl⟩ := List.getElem?_eq_some_iff.mp hx
    exact absurd ((hkinds ⟨k, hk⟩ hle hlt).symm.trans hredirects) (by simp)
  have hredirected : RedirectedAt unchangedAnswer 7 "1/5" :=
    ⟨⟨24⟩, .responseHeadersStop 304, ⟨_, _, rfl, rfl, .detail rfl rfl (by decide +kernel)⟩, rfl⟩
  have hsome : ((legBefore unchangedAnswer 5 "1/5").filter fun leg =>
      leg.url = "https://b/" ∧
        leg.phases.completed.get .dns = some ⟨⟨14⟩, ⟨2⟩, ⟨3⟩⟩).isSome := by
    decide +kernel
  obtain ⟨leg, hleg⟩ := Option.isSome_iff_exists.mp hsome
  obtain ⟨hbefore, hholds⟩ := Option.filter_eq_some_iff.mp hleg
  obtain ⟨hurl, hdns⟩ := of_decide_eq_true hholds
  obtain ⟨request, hopen, hredirect⟩ := Option.bind_eq_some_iff.mp hbefore
  obtain ⟨later, leg', hlater, hleg', hkept, -⟩ :=
    (second_leg_keeps_data unchangedAnswer (i := 0) (m := 5) (n := 7) (by decide) (by decide)
      (by decide) (hend.mono (by decide)) hopen hredirect).1 hkept
  obtain ⟨last, time, hlast, hbegins⟩ :=
    (second_leg_keeps_data unchangedAnswer (i := 0) (m := 5) (n := 8) (by decide) (by decide)
      (by decide) hend hopen hredirect).2 7 (by decide) (by decide) hredirected
  exact ⟨hend, hredirected, leg, hbefore, hurl, hdns,
    ⟨leg', Option.bind_eq_some_iff.mpr ⟨later, hlater, hleg'⟩, hkept⟩,
    time, Option.bind_eq_some_iff.mpr ⟨last, hlast, hbegins⟩⟩

/-- The status `304` takes the timings and the address away. -/
theorem second_leg_loses_data :
    (legBefore unchangedAnswer 7 "1/5").map
        (fun leg => (leg.url, leg.phases.completed.toList.map Prod.fst)) =
      some ("https://b/", [.dns, .socket]) ∧
    ((results unchangedAnswer)[8]?.join.bind ClosedRequest.redirect).map
        (fun leg => (leg.url, leg.phases.completed.toList.map Prod.fst)) = some ("", []) := by
  decide +kernel

/-! ## What a second leg is about -/

/-- An alias that leads to a request after an event led to it before, or its activity joins. -/
theorem alias_step {t : RequestTracker} {c : EventContext} {event : NetworkEvent}
    {other root : String} (h : (t.step c event).2.aliases.get? other = some root) :
    t.aliases.get? other = some root ∨ ∃ url, t.Reaches c event root (.joined other url) := by
  obtain ⟨result, t', hstep, htransition⟩ := exists_transition t c event
  rw [hstep] at h
  cases htransition with
  | @attached url version parent hopening hclosed hunaliased hparent =>
    rw [show (t.attach c.activityId.key parent url c.time).aliases =
      t.aliases.insert c.activityId.key parent from rfl, Table.get?_insert] at h
    split at h
    · rename_i heq
      rw [Option.some.injEq] at h
      subst heq h
      exact Or.inr ⟨url, .joined hopening hclosed hunaliased hparent⟩
    · exact Or.inl h
  | closed => exact Or.inl (Table.get?_filter_eq_some.mp h).1
  | legEnded => exact Or.inl (Table.get?_filter_eq_some.mp h).1
  | duplicate | opened | orphanStop | detail | orphanDetail => exact Or.inl h

/-- **An alias leads to the request that its activity has joined**, since it joined. -/
theorem exists_joined_of_alias {n : Nat} (hn : n ≤ events.length) {other root : String}
    (halias : (before events n).aliases.get? other = some root) :
    ∃ p time url, p < n ∧ ReachesAt events p root time (.joined other url) ∧
      ∀ m, p < m → m ≤ n → (before events m).aliases.get? other = some root := by
  induction n with
  | zero => exact absurd halias (by simp [before_zero, start])
  | succ n ih =>
    have hevent : events[n]? = some events[n] := List.getElem?_eq_getElem hn
    have hstep := halias
    rw [before_succ hevent] at hstep
    rcases alias_step hstep with hbefore | ⟨url, hreaches⟩
    · obtain ⟨p, time, url, hpn, hreaches, hsince⟩ := ih (Nat.le_of_succ_le hn) hbefore
      refine ⟨p, time, url, Nat.lt_succ_of_lt hpn, hreaches, ?_⟩
      intro m hpm hmn
      rcases Nat.le_succ_iff.mp hmn with hle | rfl
      · exact hsince m hpm hle
      · exact halias
    · refine ⟨n, _, url, Nat.lt_succ_self n, ⟨_, _, hevent, rfl, hreaches⟩, ?_⟩
      intro m hnm hmn
      rw [Nat.le_antisymm hmn hnm]
      exact halias

/-- The activity `other` joined a request at position `p` and left it at position `e`. -/
structure Followed (events : List Input) (key other : String) (p e : Nat) (outcome : Outcome)
    (finish : Instant) : Prop where
  lt : p < e
  joined : ∃ time url, ReachesAt events p key time (.joined other url)
  left : ReachesAt events e key finish (.left other outcome)
  since : ∀ m, p < m → m ≤ e → (before events m).aliases.get? other = some key

/-- What leaves a request has joined it before. -/
theorem ReachesAt.exists_followed {e : Nat} {finish : Instant} {other : String}
    {outcome : Outcome} (h : ReachesAt events e key finish (.left other outcome)) :
    ∃ p, Followed events key other p e outcome finish := by
  obtain ⟨c, event, hevent, -, hreaches⟩ := id h
  cases hreaches with
  | left houtcome hclosed halias =>
    obtain ⟨p, time, url, hpe, hjoined, hsince⟩ :=
      exists_joined_of_alias (Nat.le_of_lt (List.getElem?_eq_some_iff.mp hevent).1) halias
    exact ⟨p, hpe, ⟨time, url, hjoined⟩, h, hsince⟩

/-- One activity follows a second leg that was made at position `l`: those that joined the request
before have left it, and one joins only as long as no other has and no phase has begun. -/
structure FollowedOnce (events : List Input) (l j : Nat) (key : String) : Prop where
  free : ∀ other, (before events l).aliases.get? other ≠ some key
  unused : ∀ a, l < a → a < j → JoinsAt events a key →
    NoneBetween (fun m => JoinsAt events m key ∨ ∃ phase time, BeginsAt events m key phase time) l a

theorem MakesLegAt.exists_event {n : Nat} (h : MakesLegAt events n key) :
    ∃ x, events[n]? = some x ∧ x.2.opening? = none ∧ x.2.phaseMark? = none ∧
      x.2.outcome? = none := by
  rcases h with hredirected | ⟨_, url, _, ⟨c, _, hevent, -, hreaches⟩, -⟩
  · obtain ⟨⟨c, event⟩, hevent, hredirects⟩ := hredirected.exists_event
    cases event with
    | responseHeadersStop => exact ⟨_, hevent, rfl, rfl, rfl⟩
    | _ => exact absurd hredirects (by simp [NetworkEvent.redirects])
  · cases hreaches with
    | detail => exact ⟨_, hevent, rfl, rfl, rfl⟩

theorem JoinsAt.exists_event {n : Nat} (h : JoinsAt events n key) :
    ∃ x, events[n]? = some x ∧ x.2.opening?.isSome = true := by
  obtain ⟨_, _, _, c, event, hevent, -, hreaches⟩ := h
  cases hreaches with
  | joined hopening => exact ⟨(c, event), hevent, by rw [hopening]; rfl⟩

section About

variable {start : Instant} {i l s j : Nat}

/-- A phase of a second leg starts after it, unless it began before the activity joined that
started the leg. -/
theorem LegFrom.start_le_phase (h : LegFrom events key start i l s j leg)
    (hchron : Chronological events) {phase : Phase} {span : PhaseSpan}
    (hspan : leg.phases.completed.get phase = some span) :
    leg.start.toNat ≤ span.start.toNat ∨
      ∃ b, l < b ∧ b < s ∧ BeginsAt events b key phase span.start := by
  obtain ⟨b, e, hlb, -, -, hbegins, -⟩ := (h.phases.completed phase span hspan).origin
  rcases Nat.lt_or_ge b s with hbs | hsb
  · exact Or.inr ⟨b, hlb, hbs, hbegins⟩
  · obtain ⟨event, hreaches, -⟩ := hbegins
    exact Or.inl (hchron.le h.startTime hreaches.timeAt hsb)

/-- A second leg ends with an activity that joined no later than the one that started it. -/
theorem LegFrom.exists_followed (h : LegFrom events key start i l s j leg) {outcome : Outcome}
    (houtcome : leg.outcome = some outcome) :
    ∃ p e other finish, p ≤ s ∧ l < e ∧ e < j ∧ leg.finish = some finish ∧
      Followed events key other p e outcome finish := by
  rcases h.finished with ⟨hnone, -⟩ | ⟨e, other, finish, o, hle, hej, hleft, -, hlast, hfinish⟩
  · rw [hnone] at houtcome
    exact absurd houtcome (by simp)
  · rw [hlast, Option.some.injEq] at houtcome
    subst houtcome
    obtain ⟨p, hfollowed⟩ := hleft.exists_followed
    obtain ⟨time, url, hjoined⟩ := hfollowed.joined
    refine ⟨p, e, other, finish, Nat.le_of_not_lt fun hsp => ?_, hle, hej, hfinish, hfollowed⟩
    exact h.settled p hsp (Nat.lt_trans hfollowed.lt hej) ⟨time, other, url, hjoined⟩

/-- Where one activity follows a second leg, the one that ends it is the one that started it. -/
theorem FollowedOnce.eq_of_followed (h : FollowedOnce events l j key)
    (hfrom : LegFrom events key start i l s j leg) {p e : Nat} {other : String} {outcome : Outcome}
    {finish : Instant} (hfollowed : Followed events key other p e outcome finish) (hps : p ≤ s)
    (hle : l < e) : p = s := by
  obtain ⟨time, url, hjoined⟩ := hfollowed.joined
  -- it has been an alias since it joined, and nothing led to the request when the leg was made
  have hlp : l < p := by
    rcases Nat.lt_trichotomy l p with hlt | heq | hgt
    · exact hlt
    · subst heq
      exact absurd hfrom.made (not_makesLegAt hjoined fun _ => Change.noConfusion)
    · exact absurd (hfollowed.since l hgt (Nat.le_of_lt hle)) (h.free other)
  rcases hfrom.started with heq | ⟨hls, hsj, hjoins⟩
  · omega
  · by_contra hne
    exact h.unused s hls hsj hjoins p hlp (by omega) (Or.inl ⟨time, other, url, hjoined⟩)

end About

/-- **What a second leg is about.**  In every trace in the order of time, the second leg that a
request reports was made at some position `l` and starts at another, `s`, where the last activity
joined it, or at `l` if none has since.  A phase of the leg starts after it, unless it began between
`l` and `s`; and if the leg reports an end, this is the end of an activity that joined at `s` or
before.  Where one activity follows the leg, none of its phases starts before it does, and the
activity that it ends with is the one it starts with. -/
theorem second_leg_comes_from (events : List Input) (hchron : Chronological events) {j : Nat}
    {r : ClosedRequest} {leg : RedirectLeg} (hreported : (results events)[j]? = some (some r))
    (hleg : r.redirect = some leg) :
    ∃ i l s, ReportOf events i j r ∧ LegFrom events r.activity r.start i l s j leg ∧
      (∀ phase span, leg.phases.completed.get phase = some span →
        leg.start.toNat ≤ span.start.toNat ∨
          ∃ b, l < b ∧ b < s ∧ BeginsAt events b r.activity phase span.start) ∧
      (∀ outcome, leg.outcome = some outcome → ∃ p e other finish, p ≤ s ∧ e < j ∧
        leg.finish = some finish ∧ Followed events r.activity other p e outcome finish) ∧
      (FollowedOnce events l j r.activity →
        (∀ phase span, leg.phases.completed.get phase = some span →
          leg.start.toNat ≤ span.start.toNat) ∧
        ∀ outcome, leg.outcome = some outcome → ∃ e other finish, e < j ∧
          leg.finish = some finish ∧ Followed events r.activity other s e outcome finish ∧
          leg.start.toNat ≤ finish.toNat) := by
  obtain ⟨i, request, hreport, hrequest, hstart, -, hredirect⟩ :=
    exists_requestFrom hchron hreported
  obtain ⟨l, s, hfrom⟩ := hrequest.leg leg (hredirect.trans hleg)
  rw [hstart] at hfrom
  refine ⟨i, l, s, hreport, hfrom, fun phase span => hfrom.start_le_phase hchron, ?_, ?_⟩
  · intro outcome houtcome
    obtain ⟨p, e, other, finish, hps, -, hej, hfinish, hfollowed⟩ :=
      hfrom.exists_followed houtcome
    exact ⟨p, e, other, finish, hps, hej, hfinish, hfollowed⟩
  · intro honce
    constructor
    · intro phase span hspan
      rcases hfrom.start_le_phase hchron hspan with hle | ⟨b, hlb, hbs, hbegins⟩
      · exact hle
      · rcases hfrom.started with heq | ⟨hls, hsj, hjoins⟩
        · omega
        · exact absurd (Or.inr ⟨phase, _, hbegins⟩) (honce.unused s hls hsj hjoins b hlb hbs)
    · intro outcome houtcome
      obtain ⟨p, e, other, finish, hps, hle, hej, hfinish, hfollowed⟩ :=
        hfrom.exists_followed houtcome
      have heq : p = s := honce.eq_of_followed hfrom hfollowed hps hle
      subst heq
      exact ⟨e, other, finish, hej, hfinish, hfollowed,
        hchron.le hfrom.startTime hfollowed.left.timeAt (Nat.le_of_lt hfollowed.lt)⟩

/-- The request `1/5` is redirected, and the activity `1/5/2` that follows resolves a name and
ends. -/
def oneFollower : List Input :=
  [(below 10 0, .requestStart "https" "a" 443 "/" 1 1),
    (below 12 0x10, .responseHeadersStop 302),
    (below 15 0x20, .requestStart "https" "b" 443 "/" 1 1),
    (below 16 0x20, .dnsStart "b"),
    (below 19 0x20, .dnsStop),
    (below 25 0x20, .requestStop 200),
    (below 30 0, .requestStop 200)]

theorem followedOnce_oneFollower : FollowedOnce oneFollower 1 6 "1/5" where
  free := by
    intro other
    have haliases : (before oneFollower 1).aliases = Table.empty :=
      Table.ext (by decide +kernel)
    rw [haliases, Table.get?_empty]
    simp
  unused := by
    intro a hlt _ hjoins
    have hstarts : ∀ k : Fin 7, 1 < k → oneFollower[k].2.opening?.isSome = true → k = 2 := by
      decide +kernel
    obtain ⟨x, hx, hopening⟩ := hjoins.exists_event
    obtain ⟨ha, rfl⟩ := List.getElem?_eq_some_iff.mp hx
    have heq : a = 2 := congrArg Fin.val (hstarts ⟨a, ha⟩ hlt hopening)
    rw [heq]
    exact noneBetween_succ_self _ 1

theorem second_leg_comes_from_oneFollower :
    Chronological oneFollower ∧ ∃ r leg dns,
      (results oneFollower)[6]? = some (some r) ∧ r.redirect = some leg ∧
        leg.phases.completed.get .dns = some dns ∧ leg.outcome = some (.completed 200) ∧
        leg.start.toNat ≤ dns.start.toNat ∧ ∃ s e other finish, leg.finish = some finish ∧
          Followed oneFollower r.activity other s e (.completed 200) finish ∧
          leg.start.toNat ≤ finish.toNat := by
  have hchron : Chronological oneFollower := by decide +kernel
  have hsome : (((results oneFollower)[6]?.join.filter fun r => r.activity = "1/5").bind fun r =>
      (r.redirect.filter fun leg => leg.outcome = some (.completed 200)).bind fun leg =>
        leg.phases.completed.get .dns).isSome := by
    decide +kernel
  obtain ⟨dns, h⟩ := Option.isSome_iff_exists.mp hsome
  obtain ⟨r, hr, h⟩ := Option.bind_eq_some_iff.mp h
  obtain ⟨leg, hleg, hdns⟩ := Option.bind_eq_some_iff.mp h
  obtain ⟨hr, hactivity⟩ := Option.filter_eq_some_iff.mp hr
  obtain ⟨hleg, houtcome⟩ := Option.filter_eq_some_iff.mp hleg
  have hreported : (results oneFollower)[6]? = some (some r) := Option.join_eq_some_iff.mp hr
  have houtcome : leg.outcome = some (.completed 200) := of_decide_eq_true houtcome
  obtain ⟨i, l, s, -, hfrom, -, -, habout⟩ :=
    second_leg_comes_from oneFollower hchron hreported hleg
  have hmade : l = 1 := by
    have hkinds : ∀ k : Fin 7, oneFollower[k].2.opening? = none →
        oneFollower[k].2.phaseMark? = none → oneFollower[k].2.outcome? = none → k = 1 := by
      decide +kernel
    obtain ⟨x, hx, hopening, hmark, hend⟩ := hfrom.made.exists_event
    obtain ⟨hl, rfl⟩ := List.getElem?_eq_some_iff.mp hx
    exact congrArg Fin.val (hkinds ⟨l, hl⟩ hopening hmark hend)
  have honce : FollowedOnce oneFollower l 6 r.activity := by
    rw [hmade, of_decide_eq_true hactivity]
    exact followedOnce_oneFollower
  obtain ⟨hphases, hends⟩ := habout honce
  obtain ⟨e, other, finish, -, hfinish, hfollowed, hle⟩ := hends _ houtcome
  exact ⟨hchron, r, leg, dns, hreported, hleg, hdns, houtcome, hphases _ _ hdns, s, e, other,
    finish, hfinish, hfollowed, hle⟩

/-- The request `1/5` is redirected; the activity `1/5/2` follows, resolves a name and ends, and
then `1/5/3` follows and does not end. -/
def twoFollowers : List Input :=
  [(below 10 0, .requestStart "https" "a" 443 "/" 1 1),
    (below 12 0x10, .responseHeadersStop 302),
    (below 15 0x20, .requestStart "https" "b" 443 "/" 1 1),
    (below 16 0x20, .dnsStart "b"),
    (below 19 0x20, .dnsStop),
    (below 25 0x20, .requestStop 200),
    (below 30 0x30, .requestStart "https" "c" 443 "/" 1 1),
    (below 40 0, .requestStop 200)]

/-- The leg starts with `1/5/3`, which has not left, but has the phases of `1/5/2` and its end. -/
theorem second_leg_of_two_activities :
    Chronological twoFollowers ∧
    (before twoFollowers 7).aliases.entries = [("1/5/3", "1/5")] ∧
    ((results twoFollowers)[7]?.join.bind ClosedRequest.redirect).map
        (fun leg => (leg.start, leg.url, leg.outcome, leg.finish)) =
      some (⟨30⟩, "https://c:443/", some (.completed 200), some ⟨25⟩) ∧
    ((results twoFollowers)[7]?.join.bind ClosedRequest.redirect).map
        (fun leg => leg.phases.completed.toList) = some [(.dns, ⟨⟨16⟩, ⟨1⟩, ⟨3⟩⟩)] := by
  decide +kernel

end RequestTracker
end RuntimeTrace
