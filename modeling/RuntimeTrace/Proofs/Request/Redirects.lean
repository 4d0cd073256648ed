import Mathlib.Data.Nat.Init
import RuntimeTrace.Proofs.Request.Changes

/-!
# What happened before a redirect

A request whose response sends it elsewhere has a second leg from then on, and its phases and
its queueing are those of the leg.  Many events can still reach it: details of its parts, also
the ends of phases that began before the redirect, further redirects, starts and ends of the
requests that follow them.  None of these touches what the request was before.

One step is enough to see this.  Whatever an event is, a request that it does not end stays
open, keeps its address and its start, and keeps the second leg if it has one; and if it has one
after the event, its own phases are those from before (`OpenRequest.Evolves`).  So neither the
event that gives a request its second leg nor any later one changes its phases, and there is only
one such event, as the second leg stays.

Main statement: `redirect_keeps_first_leg`.
-/

namespace RuntimeTrace

/-! ## One step -/

namespace RequestTracker

variable {t : RequestTracker} {c : EventContext} {event : NetworkEvent} {key : String}
  {request : OpenRequest}

/-- **A request that does not end evolves.** -/
theorem evolves_step (hopen : t.requests.get? key = some request)
    (hend : c.activityId.key = key → event.outcome? = none) :
    ∃ request', (t.step c event).2.requests.get? key = some request' ∧
      request.Evolves request' := by
  by_cases hreaches : ∃ change, t.Reaches c event key change
  · obtain ⟨change, hreaches⟩ := hreaches
    exact ⟨_, get?_step_of_reaches hopen hreaches, request.evolves_change c.time change⟩
  · exact ⟨request, get?_step_of_not_reaches hopen hend fun change h => hreaches ⟨change, h⟩,
      .refl request⟩

/-! ## Runs -/

variable {events : List Input}

/-- The event at position `n` gives a request its second leg; before it the request was as
given. -/
structure RedirectsAt (events : List Input) (n : Nat) (key : String) (request : OpenRequest) :
    Prop where
  isOpen : (before events n).requests.get? key = some request
  fresh : request.redirect = none
  redirected : ∃ request', (before events (n + 1)).requests.get? key = some request' ∧
    request'.redirect.isSome

/-- A request that does not end at a position evolves. -/
theorem evolves_succ {n : Nat} (hn : n < events.length)
    (hopen : (before events n).requests.get? key = some request)
    (hend : ∀ c outcome, ¬ EndsAt events n key c outcome) :
    ∃ request', (before events (n + 1)).requests.get? key = some request' ∧
      request.Evolves request' := by
  obtain ⟨⟨c, event⟩, hevent⟩ : ∃ x, events[n]? = some x :=
    ⟨events[n], List.getElem?_eq_getElem hn⟩
  rw [before_succ hevent]
  exact evolves_step hopen (outcome?_eq_none_of_not_endsAt hevent hend)

/-- **A redirected request keeps its first leg** as long as it does not end. -/
theorem firstLeg_kept {i m n : Nat} (him : i < m) (hmn : m ≤ n) (hn : n ≤ events.length)
    (hend : NoEndBetween events i n key)
    (hopen : (before events m).requests.get? key = some request)
    (hredirected : request.redirect.isSome) :
    ∃ request', (before events n).requests.get? key = some request' ∧
      request'.redirect.isSome ∧ request'.url = request.url ∧ request'.start = request.start ∧
      request'.phases = request.phases := by
  refine open_induction (P := fun _ r => r.redirect.isSome ∧ r.url = request.url ∧
    r.start = request.start ∧ r.phases = request.phases) him hmn hn hend hopen ?_ ?_ ?_
  · exact ⟨hredirected, rfl, rfl, rfl⟩
  · exact fun _ _ _ _ _ hkept => hkept
  · rintro k r time change - - - - ⟨hsome, hurl, hstart, hphases⟩
    have hevolves := r.evolves_change time change
    have hsome' := hevolves.redirected hsome
    exact ⟨hsome', hevolves.url.trans hurl, hevolves.start.trans hstart,
      (hevolves.phases hsome').trans hphases⟩

/-- A request opens without a second leg. -/
theorem redirect_of_opensAt {i : Nat} {url : String} {time : Instant}
    (h : OpensAt events i key url time) :
    ∃ request, (before events (i + 1)).requests.get? key = some request ∧
      request.redirect = none := by
  obtain ⟨version, hopen⟩ := get?_succ_of_opensAt h
  exact ⟨_, hopen, rfl⟩

/-- **A request with a second leg got it from some event** since it was opened. -/
theorem exists_redirectsAt {i n : Nat} {url : String} {time : Instant}
    (hopens : OpensAt events i key url time) (hin : i < n) (hn : n ≤ events.length)
    (hend : NoEndBetween events i n key)
    (hopen : (before events n).requests.get? key = some request)
    (hredirected : request.redirect.isSome) :
    ∃ m request', i < m ∧ m < n ∧ RedirectsAt events m key request' := by
  induction n, hin using Nat.le_induction generalizing request with
  | base =>
    obtain ⟨request', hopen', hfresh⟩ := redirect_of_opensAt hopens
    have heq : request' = request := Option.some.inj (hopen'.symm.trans hopen)
    rw [← heq, hfresh] at hredirected
    exact absurd hredirected (by simp)
  | succ n hin ih =>
    have hin : i < n := hin
    have hend' : NoEndBetween events i n key := hend.mono (Nat.le_succ n)
    -- the request was open before this event, too
    have horigin := (origin?_before_iff (Nat.le_of_succ_le hn)).mpr ⟨i, hin, hopens, hend'⟩
    obtain ⟨request', hopen', -⟩ := Option.map_eq_some_iff.mp horigin
    cases hredirect : request'.redirect with
    | none =>
      exact ⟨n, request', hin, Nat.lt_succ_self n, hopen', hredirect, request, hopen, hredirected⟩
    | some leg =>
      obtain ⟨m, before, him, hmn, hat⟩ :=
        ih (Nat.le_of_succ_le hn) hend' hopen' (by rw [hredirect]; rfl)
      exact ⟨m, before, him, Nat.lt_succ_of_lt hmn, hat⟩

namespace RedirectsAt

variable {i m n : Nat} {request' : OpenRequest}

/-- What the event with the redirect found is what is left of the request later. -/
theorem kept (h : RedirectsAt events m key request) (him : i < m) (hmn : m < n)
    (hn : n ≤ events.length) (hend : NoEndBetween events i n key) :
    ∃ request', (before events n).requests.get? key = some request' ∧
      request'.redirect.isSome ∧ request'.url = request.url ∧ request'.start = request.start ∧
      request'.phases = request.phases := by
  obtain ⟨next, hopen, hevolves⟩ :=
    evolves_succ (Nat.lt_of_lt_of_le hmn hn) h.isOpen (hend m him hmn)
  obtain ⟨redirected, hredirected, hsome⟩ := h.redirected
  have heq : redirected = next := Option.some.inj (hredirected.symm.trans hopen)
  subst heq
  obtain ⟨last, hlast, hlastSome, hurl, hstart, hphases⟩ :=
    firstLeg_kept (Nat.lt_succ_of_lt him) hmn hn hend hopen hsome
  exact ⟨last, hlast, hlastSome, hurl.trans hevolves.url, hstart.trans hevolves.start,
    hphases.trans (hevolves.phases hsome)⟩

/-- A request gets its second leg once. -/
theorem not_lt (h : RedirectsAt events m key request) (h' : RedirectsAt events n key request')
    (him : i < m) (hn : n ≤ events.length) (hend : NoEndBetween events i n key) : ¬ m < n := by
  intro hmn
  obtain ⟨later, hlater, hsome, -⟩ := h.kept him hmn hn hend
  have heq : later = request' := Option.some.inj (hlater.symm.trans h'.isOpen)
  rw [heq, h'.fresh] at hsome
  exact absurd hsome (by simp)

end RedirectsAt

/-- **A redirect keeps the first leg.**  In every trace, a request that is reported with a second
leg got it from exactly one event after it was opened, and it is reported with the address, the
start and the phases, queueing among them, that it had before that event, whatever came after. -/
theorem redirect_keeps_first_leg (events : List Input) {j : Nat} {r : ClosedRequest}
    (hreported : (results events)[j]? = some (some r)) (hredirected : r.redirect.isSome) :
    ∃ i n request, ReportOf events i j r ∧ i < n ∧ n < j ∧
      RedirectsAt events n r.activity request ∧
      (∀ n' request', i < n' → n' < j → RedirectsAt events n' r.activity request' → n' = n) ∧
      r.phases = request.phases ∧ r.start = request.start ∧ r.url = request.url := by
  obtain ⟨i, hreport⟩ := reportOf_of_result hreported
  obtain ⟨c, request, hends, hopen, hr⟩ := getElem?_results_eq_some.mp hreported
  obtain ⟨event, hevent, -⟩ := id hends
  have hj : j ≤ events.length := Nat.le_of_lt (List.getElem?_eq_some_iff.mp hevent).1
  obtain ⟨c', hfirst, -⟩ := hreport.ends
  have hsome : request.redirect.isSome := by
    rw [hr] at hredirected
    exact hredirected
  obtain ⟨n, first, hin, hnj, hat⟩ :=
    exists_redirectsAt hreport.opens hfirst.lt hj hfirst.first hopen hsome
  obtain ⟨last, hlast, -, hurl, hstart, hphases⟩ := hat.kept hin hnj hj hfirst.first
  have heq : last = request := Option.some.inj (hlast.symm.trans hopen)
  subst heq
  refine ⟨i, n, first, hreport, hin, hnj, hat, ?_, ?_, ?_, ?_⟩
  · intro n' request' hin' hnj' hat'
    have hle : ¬ n < n' := hat.not_lt hat' hin (Nat.le_trans (Nat.le_of_lt hnj') hj)
      (hfirst.first.mono (Nat.le_of_lt hnj'))
    have hge : ¬ n' < n := hat'.not_lt hat hin' (Nat.le_trans (Nat.le_of_lt hnj) hj)
      (hfirst.first.mono (Nat.le_of_lt hnj))
    omega
  · rw [hr]
    exact hphases
  · rw [hr]
    exact hstart
  · rw [hr]
    exact hurl

/-- The request `1/5` resolves a name and begins to connect; then it is redirected.  The connection
ends afterwards, and the request `1/5/2` that follows the redirect waits in a queue, resolves a name
and ends. -/
def redirectedMidway : List Input :=
  let about (time : UInt64) (part : UInt8) : EventContext :=
    ⟨⟨time⟩, 7, 0, ActivityId.ofPath [0x15, part, 0, 0, 0, 0, 0, 0, 0, 0, 0, 0] rfl 0,
      ActivityId.nil, 0, none⟩
  [(about 10 0, .requestStart "https" "a" 443 "/" 1 1),
    (about 11 0x10, .dnsStart "a"),
    (about 13 0x10, .dnsStop),
    (about 14 0x10, .connectStart "a"),
    (about 16 0, .responseHeadersStop 302),
    (about 17 0x10, .connectStop),
    (about 18 0x20, .requestStart "https" "b" 443 "/" 1 1),
    (about 19 0x20, .requestLeftQueue ⟨0x3FF0000000000000⟩ 1 1),
    (about 20 0x20, .dnsStart "b"),
    (about 21 0x20, .dnsStop),
    (about 22 0x20, .requestStop 200),
    (about 23 0, .requestStop 200)]

theorem redirect_keeps_first_leg_redirectedMidway :
    ∃ r, (results redirectedMidway)[11]? = some (some r) ∧ r.redirect.isSome ∧
      ∃ i n request, ReportOf redirectedMidway i 11 r ∧ i < n ∧ n < 11 ∧
        RedirectsAt redirectedMidway n r.activity request ∧
        (∀ n' request', i < n' → n' < 11 → RedirectsAt redirectedMidway n' r.activity request' →
          n' = n) ∧
        r.phases = request.phases ∧ r.start = request.start ∧ r.url = request.url := by
  have hsome : ((results redirectedMidway)[11]?.join.bind ClosedRequest.redirect).isSome := by
    decide +kernel
  obtain ⟨leg, hleg⟩ := Option.isSome_iff_exists.mp hsome
  obtain ⟨r, hr, hredirect⟩ := Option.bind_eq_some_iff.mp hleg
  have hreported : (results redirectedMidway)[11]? = some (some r) := Option.join_eq_some_iff.mp hr
  have hredirected : r.redirect.isSome := by
    rw [hredirect]
    rfl
  exact ⟨r, hreported, hredirected,
    redirect_keeps_first_leg redirectedMidway hreported hredirected⟩

/-- The name was resolved before the redirect and is reported; the connection was not. -/
example :
    (results redirectedMidway)[11]?.join.map (fun r =>
        (r.phases.completed.toList.map Prod.fst, r.phases.queueing,
          r.redirect.map fun leg => leg.phases.completed.toList.map Prod.fst)) =
      some ([.dns], none, some [.dns]) := by
  decide +kernel

end RequestTracker
end RuntimeTrace
