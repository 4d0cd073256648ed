import RuntimeTrace.Proofs.Request.Lifetime
import RuntimeTrace.Proofs.Table

/-!
# Second legs and their requests

A tracker has two tables that speak of each other: an alias is a key of its own and
leads to the key of a request.  They fit together (`Coherent`) when no alias is itself
open and every alias leads to an open request with a second leg.

Four of the outcomes of an event change the tables in a way that could break this: a second
leg begins, a request of its own begins, a request ends, a second leg ends.  Each is one of
a few operations, and for each of these one lemma says what it needs.  A request that
begins needs that its key is no alias; that nothing leads to it yet then follows, as what
an alias leads to is open.  A request that ends has to take its aliases with it.  All other
changes are made to a request that is open and stays open, and no event takes a second leg
away once there is one (`isSome_redirect_addDetail`).

So the end of a second leg always has a leg to be noted on, and an alias cannot outlive its
request.  In a trace where every start is followed by an end of its key nothing is left in
the end: no request, by what `origin?_before_iff` says of open requests, and hence no alias.

Main statement: `aliases_lead_to_open_legs`.
-/

namespace RuntimeTrace

namespace RequestTracker

/-- **No event takes a second leg away.** -/
theorem isSome_redirect_addDetail {r : OpenRequest} (h : r.redirect.isSome) (now : Instant)
    (event : NetworkEvent) : (r.addDetail now event).1.redirect.isSome :=
  (r.evolves_addDetail now event).redirected h

/-- A request is open under a key and has a second leg. -/
def HasLeg (t : RequestTracker) (root : String) : Prop :=
  ∃ request leg, t.requests.get? root = some request ∧ request.redirect = some leg

/-- The two tables of a tracker fit together. -/
structure Coherent (t : RequestTracker) : Prop where
  /-- No key is both an open request and an alias. -/
  apart : ∀ key, ¬ (t.requests.contains key = true ∧ t.aliases.contains key = true)
  /-- An alias leads to an open request with a second leg. -/
  anchored : ∀ key root, t.aliases.get? key = some root → t.HasLeg root

namespace Coherent

variable {t : RequestTracker}

theorem get?_eq_none (h : t.Coherent) {key root : String}
    (halias : t.aliases.get? key = some root) : t.requests.get? key = none := by
  cases hopen : t.requests.get? key with
  | none => rfl
  | some request =>
    exact absurd ⟨by rw [Table.contains, hopen]; rfl, by rw [Table.contains, halias]; rfl⟩
      (h.apart key)

/-- The tables fit together if no alias is open and each is anchored. -/
theorem of_get? (hclosed : ∀ key root, t.aliases.get? key = some root → t.requests.get? key = none)
    (hanchored : ∀ key root, t.aliases.get? key = some root → t.HasLeg root) : t.Coherent := by
  refine ⟨?_, hanchored⟩
  rintro key ⟨hopen, halias⟩
  obtain ⟨root, halias⟩ := Option.isSome_iff_exists.mp halias
  rw [Table.contains, hclosed key root halias] at hopen
  exact absurd hopen (by simp)

theorem start : RequestTracker.start.Coherent :=
  of_get? (fun _ _ h => absurd h (by simp [RequestTracker.start]))
    (fun _ _ h => absurd h (by simp [RequestTracker.start]))

/-! ## Operations on the tables -/

theorem withMisses (h : t.Coherent) (misses : Misses) : Coherent { t with misses := misses } :=
  ⟨h.apart, h.anchored⟩

/-- An open request is changed, and keeps its second leg if it has one. -/
theorem modify (h : t.Coherent) {key : String} {f : OpenRequest → OpenRequest}
    (hf : ∀ r : OpenRequest, r.redirect.isSome → (f r).redirect.isSome) :
    Coherent { t with requests := t.requests.modify key f } := by
  refine of_get? ?_ ?_
  · intro other root halias
    rw [Table.get?_modify]
    split
    · rename_i heq
      rw [← heq, h.get?_eq_none halias]
      rfl
    · exact h.get?_eq_none halias
  · intro other root halias
    obtain ⟨request, leg, hopen, hleg⟩ := h.anchored other root halias
    by_cases heq : root = key
    · obtain ⟨leg', hleg'⟩ :=
        Option.isSome_iff_exists.mp (hf request (by rw [hleg]; rfl))
      refine ⟨f request, leg', ?_, hleg'⟩
      rw [Table.get?_modify, if_pos heq, ← heq, hopen]
      rfl
    · refine ⟨request, leg, ?_, hleg⟩
      rw [Table.get?_modify, if_neg heq, hopen]

/-- A second leg begins under a key that is not open. -/
theorem insertAlias (h : t.Coherent) {key parent : String} (hclosed : t.requests.get? key = none)
    (hparent : t.HasLeg parent) : Coherent { t with aliases := t.aliases.insert key parent } := by
  refine of_get? ?_ ?_
  · intro other root halias
    rw [Table.get?_insert] at halias
    split at halias
    · rename_i heq
      rw [heq]
      exact hclosed
    · exact h.get?_eq_none halias
  · intro other root halias
    rw [Table.get?_insert] at halias
    split at halias
    · rw [← Option.some.inj halias]
      exact hparent
    · exact h.anchored other root halias

theorem filterAliases (h : t.Coherent) (test : String → String → Bool) :
    Coherent { t with aliases := t.aliases.filter test } :=
  of_get? (fun _ _ halias => h.get?_eq_none (Table.get?_filter_eq_some.mp halias).1)
    (fun _ _ halias => h.anchored _ _ (Table.get?_filter_eq_some.mp halias).1)

/-- A request begins under a key that is neither open nor an alias: nothing leads to it,
since what an alias leads to is open. -/
theorem insertRequest (h : t.Coherent) {key : String} (hclosed : t.requests.get? key = none)
    (hunaliased : t.aliases.get? key = none) (request : OpenRequest) :
    Coherent { t with requests := t.requests.insert key request } := by
  refine of_get? ?_ ?_
  · intro other root halias
    have hne : other ≠ key := by
      rintro rfl
      rw [hunaliased] at halias
      exact absurd halias (by simp)
    rw [Table.get?_insert, if_neg hne]
    exact h.get?_eq_none halias
  · intro other root halias
    obtain ⟨request', leg, hopen, hleg⟩ := h.anchored other root halias
    have hne : root ≠ key := by
      rintro rfl
      rw [hclosed] at hopen
      exact absurd hopen (by simp)
    refine ⟨request', leg, ?_, hleg⟩
    rw [Table.get?_insert, if_neg hne, hopen]

/-- A request ends and takes its aliases with it. -/
theorem close (h : t.Coherent) (key : String) :
    Coherent { t with
      requests := t.requests.erase key
      aliases := t.aliases.filter fun _ root => root ≠ key } := by
  refine of_get? ?_ ?_
  · intro other root halias
    by_cases heq : other = key
    · rw [heq, Table.get?_erase_self]
    · rw [Table.get?_erase_of_ne _ heq]
      exact h.get?_eq_none (Table.get?_filter_eq_some.mp halias).1
  · intro other root halias
    obtain ⟨halias, hne⟩ := Table.get?_filter_eq_some.mp halias
    obtain ⟨request, leg, hopen, hleg⟩ := h.anchored other root halias
    exact ⟨request, leg, (Table.get?_erase_of_ne _ (of_decide_eq_true hne)).trans hopen, hleg⟩

end Coherent

/-! ## One event, and all of them -/

theorem hasLeg_of_redirectingParent? {t : RequestTracker} {id : ActivityId} {parent : String}
    (h : t.redirectingParent? id = some parent) : t.HasLeg parent := by
  obtain ⟨key, -, h⟩ := Option.bind_eq_some_iff.mp h
  obtain ⟨request, hrequest, h⟩ := Option.bind_eq_some_iff.mp h
  split at h
  · rename_i hredirect
    obtain ⟨leg, hleg⟩ := Option.isSome_iff_exists.mp hredirect
    rw [← Option.some.inj h]
    exact ⟨request, leg, hrequest, hleg⟩
  · exact absurd h (by simp)

/-- **Every event leaves the tables fitting together.** -/
theorem Coherent.step {t : RequestTracker} (h : t.Coherent) (c : EventContext)
    (event : NetworkEvent) : (t.step c event).2.Coherent := by
  obtain ⟨result, t', hstep, htransition⟩ := exists_transition t c event
  rw [hstep]
  cases htransition with
  | duplicate hopening hknown => exact h.withMisses _
  | attached hopening hclosed hunaliased hparent =>
    refine (h.insertAlias hclosed (hasLeg_of_redirectingParent? hparent)).modify ?_
    intro r hr
    rw [Option.isSome_map]
    exact hr
  | opened hopening hclosed hunaliased hparent => exact h.insertRequest hclosed hunaliased _
  | closed houtcome hopen => exact h.close _
  | legEnded houtcome hclosed halias =>
    refine (h.filterAliases fun other _ => other ≠ c.activityId.key).modify ?_
    intro r hr
    rw [Option.isSome_map]
    exact hr
  | orphanStop houtcome hclosed hunaliased => exact h.withMisses _
  | @detail root request hopening houtcome hroot hopen =>
    rw [Table.insert_apply hopen fun r => (r.addDetail c.time event).1]
    exact (h.modify fun r hr => isSome_redirect_addDetail hr c.time event).withMisses _
  | orphanDetail hopening houtcome hlost => exact h.withMisses _

theorem coherent_following (events : List Input) : (following events).Coherent := by
  have hrun : ∀ t : RequestTracker, t.Coherent → (Run.after feed t events).Coherent := by
    induction events with
    | nil => exact fun t h => h
    | cons x events ih => exact fun t h => ih _ (h.step x.1 x.2)
  exact hrun start Coherent.start

/-- A result tells which request has closed, and nothing leads to its key any more. -/
theorem aliases_ne_of_closed {t : RequestTracker} {c : EventContext} {event : NetworkEvent}
    {r : ClosedRequest} (h : (t.step c event).1 = some r) (key : String) :
    (t.step c event).2.aliases.get? key ≠ some r.activity := by
  obtain ⟨result, t', hstep, htransition⟩ := exists_transition t c event
  rw [hstep] at h ⊢
  cases htransition with
  | closed houtcome hopen =>
    rw [← Option.some.inj h]
    intro halias
    exact of_decide_eq_true (Table.get?_filter_eq_some.mp halias).2 rfl
  | _ => exact absurd h (by simp)

/-- The end of a second leg is noted on it. -/
theorem Coherent.step_of_alias {t : RequestTracker} (h : t.Coherent) {c : EventContext}
    {event : NetworkEvent} {outcome : Outcome} {root : String}
    (houtcome : event.outcome? = some outcome)
    (halias : t.aliases.get? c.activityId.key = some root) :
    ∃ request leg, t.requests.get? root = some request ∧ request.redirect = some leg ∧
      (t.step c event).2.requests.get? root =
        some { request with
          redirect := some { leg with outcome := some outcome, finish := some c.time } } := by
  obtain ⟨request, leg, hopen, hleg⟩ := h.anchored _ root halias
  refine ⟨request, leg, hopen, hleg, ?_⟩
  rw [(Transition.legEnded houtcome (h.get?_eq_none halias) halias).step_eq]
  show (t.requests.modify root _).get? root = _
  rw [Table.get?_modify, if_pos rfl, hopen, Option.map_some, hleg]
  rfl

/-- Every start is followed by an end of its key. -/
def AllEnded (events : List Input) : Prop :=
  ∀ i : Fin events.length, events[i].2.opening?.isSome = true →
    ∃ j : Fin events.length, i < j ∧ events[j].2.outcome?.isSome = true ∧
      events[j].1.activityId.key = events[i].1.activityId.key

instance (events : List Input) : Decidable (AllEnded events) :=
  inferInstanceAs (Decidable (∀ _ : Fin _, _ → _))

/-- What opens a request is followed by an end of it. -/
theorem AllEnded.exists_endsAt {events : List Input} (h : AllEnded events) {i : Nat}
    {key url : String} {time : Instant} (hopens : OpensAt events i key url time) :
    ∃ j c outcome, i < j ∧ j < events.length ∧ EndsAt events j key c outcome := by
  obtain ⟨c, _, _, _, _, _, _, hevent, rfl, -⟩ := hopens.event
  obtain ⟨hi, hevent⟩ := List.getElem?_eq_some_iff.mp hevent
  obtain ⟨j, hij, houtcome, hkey⟩ := h ⟨i, hi⟩ (by
    show (events[i]).2.opening?.isSome = true
    rw [hevent]
    rfl)
  obtain ⟨outcome, houtcome⟩ := Option.isSome_iff_exists.mp houtcome
  refine ⟨j, events[j].1, outcome, hij, j.isLt, events[j].2, ?_, houtcome, ?_⟩
  · exact List.getElem?_eq_getElem j.isLt
  · rw [hkey]
    show (events[i]).1.activityId.key = c.activityId.key
    rw [hevent]

/-- **Where every start is followed by an end nothing stays open.** -/
theorem requests_eq_empty {events : List Input} (h : AllEnded events) :
    (following events).requests = Table.empty := by
  apply Table.eq_empty_of_get?_eq_none
  intro key
  cases hopen : (following events).requests.get? key with
  | none => rfl
  | some request =>
    have horigin :
        (before events events.length).origin? key = some (request.url, request.start) := by
      rw [before, List.take_length, origin?, hopen]
      rfl
    obtain ⟨i, -, hopens, hno⟩ := (origin?_before_iff (Nat.le_refl _)).mp horigin
    obtain ⟨j, c, outcome, hij, hj, hends⟩ := h.exists_endsAt hopens
    exact absurd hends (hno j hij hj c outcome)

/-- **Aliases lead to open requests with a second leg**, after any events, and to nothing
else:

* no key is both open and an alias, and what an alias leads to is open and has a second
  leg;
* when a request closes, no alias leads to it any more;
* the end of a second leg always finds it, and is noted on it;
* if every start is followed by an end of its key, no request and no alias is left. -/
theorem aliases_lead_to_open_legs (events : List Input) :
    (following events).Coherent ∧
    (∀ c event r, ((following events).step c event).1 = some r →
      ∀ key, ((following events).step c event).2.aliases.get? key ≠ some r.activity) ∧
    (∀ c event outcome root, event.outcome? = some outcome →
      (following events).aliases.get? c.activityId.key = some root →
      ∃ request leg, (following events).requests.get? root = some request ∧
        request.redirect = some leg ∧
        ((following events).step c event).2.requests.get? root =
          some { request with
            redirect := some { leg with outcome := some outcome, finish := some c.time } }) ∧
    (AllEnded events →
      (following events).requests = Table.empty ∧ (following events).aliases = Table.empty) := by
  have hcoherent := coherent_following events
  refine ⟨hcoherent, fun c event r h => aliases_ne_of_closed h,
    fun c event outcome root houtcome halias => hcoherent.step_of_alias houtcome halias, ?_⟩
  intro hended
  have hempty := requests_eq_empty hended
  refine ⟨hempty, Table.eq_empty_of_get?_eq_none fun key => ?_⟩
  cases halias : (following events).aliases.get? key with
  | none => rfl
  | some root =>
    obtain ⟨request, leg, hopen, -⟩ := hcoherent.anchored key root halias
    rw [hempty] at hopen
    exact absurd hopen (by simp)

/-- The request `1/5` is redirected twice, to `1/5/1` and to `1/5/2`; the second leg `1/5/1` goes on
when the request ends, and ends after it. -/
def redirectedTwice : List Input :=
  let about (time : UInt64) (second : UInt8) : EventContext :=
    ⟨⟨time⟩, 7, 0, ActivityId.ofPath (0x15 :: second :: List.replicate 10 0) rfl 0,
      ActivityId.nil, 0, none⟩
  [(about 10 0, .requestStart "https" "a" 443 "/" 1 1),
    (about 12 0, .responseHeadersStop 302),
    (about 13 0x10, .requestStart "https" "b" 443 "/" 1 1),
    (about 14 0, .responseHeadersStop 307),
    (about 15 0x20, .requestStart "https" "c" 443 "/" 1 1),
    (about 17 0x20, .requestStop 200),
    (about 18 0, .requestStop 200),
    (about 19 0x10, .requestStop 200)]

theorem aliases_lead_to_open_legs_redirectedTwice :
    AllEnded redirectedTwice ∧ (following redirectedTwice).requests.entries = [] ∧
      (following redirectedTwice).aliases.entries = [] ∧
      (before redirectedTwice 6).aliases.entries = [("1/5/1", "1/5")] := by
  have hended : AllEnded redirectedTwice := by decide +kernel
  obtain ⟨hrequests, haliases⟩ := (aliases_lead_to_open_legs redirectedTwice).2.2.2 hended
  rw [hrequests, haliases]
  exact ⟨hended, rfl, rfl, by decide +kernel⟩

end RequestTracker
end RuntimeTrace
