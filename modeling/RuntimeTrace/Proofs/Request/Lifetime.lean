import Mathlib.Logic.ExistsUnique
import RuntimeTrace.Proofs.Request.Transition

/-!
# The lifetime of a request

Between its start and its end a request meets many events: details of its parts,
second legs that come and go, starts that repeat its key, ends and details of other
requests.  None of them removes it, and none changes where and when it began, or takes
its second leg away (`OpenRequest.Evolves`).  So what is open can be read off the trace
alone.

`origin?_before_iff` says so: a request is open under a key exactly when some start
opened it and no end of that key has come since.  The induction is over the trace,
and at each event the question is only whether it ends the key, opens it, or does
neither (`origin?_step_of_end`, `origin?_step_of_opens`, `origin?_step_of_other`).
The eight outcomes of a step are needed for those three facts and for nothing else.

The main statement, `reported_exactly_once`, follows: a result comes only from the end of
an open request (`step_fst`), and the trace says which those are.
-/

namespace RuntimeTrace

theorem NetworkEvent.outcome?_eq_none {event : NetworkEvent} (h : event.opening?.isSome) :
    event.outcome? = none := by
  cases houtcome : event.outcome? with
  | none => rfl
  | some outcome =>
    rw [opening?_eq_none houtcome] at h
    exact absurd h (by simp)

/-! ## A request and its details -/

namespace OpenRequest

/-- **A detail is a note and new phases**: what holds of a request after the note and survives
new phases of the current leg holds after the detail. -/
theorem addDetail_induction {P : OpenRequest → Prop} {r : OpenRequest} {now : Instant}
    {event : NetworkEvent} (hphases : ∀ r phases, P r → P (setActivePhases r phases))
    (hnote : P (r.note now event)) : P (r.addDetail now event).1 := by
  have hmark : ∀ mark marked, (r.note now event).mark? now mark = some marked → P marked := by
    intro mark marked h
    cases mark with
    | begins phase =>
      rw [mark?, Option.some.injEq] at h
      rw [← h]
      exact hphases _ _ hnote
    | ends phase =>
      rw [mark?, Option.map_eq_some_iff] at h
      obtain ⟨phases, -, rfl⟩ := h
      exact hphases _ _ hnote
  unfold addDetail
  dsimp only
  split
  · exact hnote
  · split
    · rename_i hmarked
      exact hmark _ _ hmarked
    · exact hnote

/-- How a request changes with an event that does not end it. -/
structure Evolves (r r' : OpenRequest) : Prop where
  url : r'.url = r.url
  start : r'.start = r.start
  redirected : r.redirect.isSome → r'.redirect.isSome
  /-- With a second leg, the phases of the request are as they were. -/
  phases : r'.redirect.isSome → r'.phases = r.phases

theorem Evolves.refl (r : OpenRequest) : r.Evolves r := ⟨rfl, rfl, id, fun _ => rfl⟩

/-- A change of the second leg, if there is one. -/
theorem evolves_mapLeg (r : OpenRequest) (f : RedirectLeg → RedirectLeg) :
    r.Evolves { r with redirect := r.redirect.map f } where
  url := rfl
  start := rfl
  redirected := by simp
  phases := fun _ => rfl

/-- New phases are those of the second leg, if there is one. -/
theorem Evolves.setActivePhases {r r' : OpenRequest} (h : r.Evolves r') (phases : LegPhases) :
    r.Evolves (r'.setActivePhases phases) := by
  unfold OpenRequest.setActivePhases
  split
  · rename_i leg hleg
    exact ⟨h.url, h.start, fun _ => rfl, fun _ => h.phases (by rw [hleg]; rfl)⟩
  · rename_i hnone
    refine ⟨h.url, h.start, h.redirected, fun hsome => ?_⟩
    have hsome : r'.redirect.isSome := hsome
    rw [hnone] at hsome
    exact absurd hsome (by simp)

theorem evolves_note (r : OpenRequest) (now : Instant) (event : NetworkEvent) :
    r.Evolves (r.note now event) := by
  cases event with
  | responseHeadersStop statusCode =>
    refine ⟨rfl, rfl, fun hsome => ?_, fun _ => rfl⟩
    show (if isRedirectStatus statusCode then some (.begin now) else r.redirect).isSome = true
    split
    · rfl
    · exact hsome
  | redirect url => exact ⟨rfl, rfl, fun _ => rfl, fun _ => rfl⟩
  | requestLeftQueue timeOnQueueMs versionMajor versionMinor =>
    exact (Evolves.refl r).setActivePhases _
  | _ => exact ⟨rfl, rfl, id, fun _ => rfl⟩

/-- **A detail** leaves what was before a redirect alone. -/
theorem evolves_addDetail (r : OpenRequest) (now : Instant) (event : NetworkEvent) :
    r.Evolves (r.addDetail now event).1 :=
  addDetail_induction (P := r.Evolves) (fun _ phases h => h.setActivePhases phases)
    (evolves_note r now event)

end OpenRequest

namespace RequestTracker

/-! ## One step -/

/-- The address and the start of the request that is open under a key. -/
def origin? (t : RequestTracker) (key : String) : Option (String × Instant) :=
  (t.requests.get? key).map fun request => (request.url, request.start)

/-- An event starts a request of its own: it is neither known nor a second leg. -/
structure Opens (t : RequestTracker) (c : EventContext) (event : NetworkEvent) (url : String) :
    Prop where
  opening : ∃ version, event.opening? = some (url, version)
  closed : t.requests.get? c.activityId.key = none
  unaliased : t.aliases.get? c.activityId.key = none
  unattached : t.redirectingParent? c.activityId = none

/-- **A step gives a result only where an open request ends.** -/
theorem step_fst (t : RequestTracker) (c : EventContext) (event : NetworkEvent) :
    (t.step c event).1 = event.outcome?.bind fun outcome =>
      (t.requests.get? c.activityId.key).map fun request =>
        request.close c.processId c.activityId.key c.time outcome := by
  obtain ⟨result, t', hstep, htransition⟩ := exists_transition t c event
  rw [hstep]
  cases htransition with
  | duplicate hopening hknown => rw [NetworkEvent.outcome?_eq_none hopening]; rfl
  | attached hopening hclosed hunaliased hparent =>
    rw [NetworkEvent.outcome?_eq_none (by rw [hopening]; rfl)]; rfl
  | opened hopening hclosed hunaliased hparent =>
    rw [NetworkEvent.outcome?_eq_none (by rw [hopening]; rfl)]; rfl
  | closed houtcome hopen => rw [houtcome, Option.bind_some, hopen]; rfl
  | legEnded houtcome hclosed halias => rw [houtcome, Option.bind_some, hclosed]; rfl
  | orphanStop houtcome hclosed hunaliased =>
    obtain ⟨outcome, houtcome⟩ := Option.isSome_iff_exists.mp houtcome
    rw [houtcome, Option.bind_some, hclosed]; rfl
  | detail hopening houtcome hroot hopen => rw [houtcome]; rfl
  | orphanDetail hopening houtcome hlost => rw [houtcome]; rfl

/-- A change of a request that leaves its address and its start alone. -/
theorem origin?_modify (t : RequestTracker) (aliases : Table String String) (misses : Misses)
    (root key : String) {f : OpenRequest → OpenRequest} (hurl : ∀ r, (f r).url = r.url)
    (hstart : ∀ r, (f r).start = r.start) :
    origin? ⟨t.requests.modify root f, aliases, misses⟩ key = t.origin? key := by
  unfold origin?
  rw [Table.get?_modify]
  by_cases h : key = root
  · subst h
    rw [if_pos rfl, Option.map_map]
    congr 1
    funext r
    exact Prod.ext (hurl r) (hstart r)
  · rw [if_neg h]

/-- A detail changes neither the address of its request nor its start. -/
theorem origin_addDetail (r : OpenRequest) (now : Instant) (event : NetworkEvent) :
    (r.addDetail now event).1.url = r.url ∧ (r.addDetail now event).1.start = r.start :=
  ⟨(r.evolves_addDetail now event).url, (r.evolves_addDetail now event).start⟩

theorem origin?_step_of_end {t : RequestTracker} {c : EventContext} {event : NetworkEvent}
    {outcome : Outcome} (h : event.outcome? = some outcome) :
    (t.step c event).2.origin? c.activityId.key = none := by
  obtain ⟨result, t', hstep, htransition⟩ := exists_transition t c event
  rw [hstep]
  have hopening := NetworkEvent.opening?_eq_none h
  cases htransition with
  | duplicate hopening' hknown => rw [hopening] at hopening'; exact absurd hopening' (by simp)
  | attached hopening' hclosed hunaliased hparent =>
    rw [hopening] at hopening'; exact absurd hopening' (by simp)
  | opened hopening' hclosed hunaliased hparent =>
    rw [hopening] at hopening'; exact absurd hopening' (by simp)
  | closed houtcome hopen =>
    unfold origin?
    rw [Table.get?_erase_self]
    rfl
  | legEnded houtcome hclosed halias =>
    refine Eq.trans (origin?_modify t _ _ _ _ (fun _ => rfl) (fun _ => rfl)) ?_
    unfold origin?
    rw [hclosed]
    rfl
  | orphanStop houtcome hclosed hunaliased =>
    unfold origin?
    rw [hclosed]
    rfl
  | detail hopening' houtcome hroot hopen => rw [h] at houtcome; exact absurd houtcome (by simp)
  | orphanDetail hopening' houtcome hlost => rw [h] at houtcome; exact absurd houtcome (by simp)

theorem origin?_step_of_opens {t : RequestTracker} {c : EventContext} {event : NetworkEvent}
    {url : String} (h : t.Opens c event url) :
    (t.step c event).2.origin? c.activityId.key = some (url, c.time) := by
  obtain ⟨version, hopening⟩ := h.opening
  rw [(Transition.opened hopening h.closed h.unaliased h.unattached).step_eq, origin?,
    Table.get?_insert, if_pos rfl]
  rfl

/-- **An event that neither ends a key nor opens it leaves its request alone.** -/
theorem origin?_step_of_other {t : RequestTracker} {c : EventContext} {event : NetworkEvent}
    {key : String} (hend : c.activityId.key = key → event.outcome? = none)
    (hopens : c.activityId.key = key → ∀ url, ¬ t.Opens c event url) :
    (t.step c event).2.origin? key = t.origin? key := by
  obtain ⟨result, t', hstep, htransition⟩ := exists_transition t c event
  rw [hstep]
  cases htransition with
  | duplicate hopening hknown => rfl
  | attached hopening hclosed hunaliased hparent =>
    exact origin?_modify t _ _ _ _ (fun _ => rfl) (fun _ => rfl)
  | opened hopening hclosed hunaliased hparent =>
    have hne : ¬ key = c.activityId.key := fun hkey =>
      hopens hkey.symm _ ⟨⟨_, hopening⟩, hclosed, hunaliased, hparent⟩
    unfold origin?
    rw [Table.get?_insert, if_neg hne]
  | closed houtcome hopen =>
    have hne : key ≠ c.activityId.key := by
      rintro rfl
      rw [hend rfl] at houtcome
      exact absurd houtcome (by simp)
    unfold origin?
    rw [Table.get?_erase_of_ne _ hne]
  | legEnded houtcome hclosed halias =>
    exact origin?_modify t _ _ _ _ (fun _ => rfl) (fun _ => rfl)
  | orphanStop houtcome hclosed hunaliased => rfl
  | @detail root request hopening houtcome hroot hopen =>
    unfold origin?
    rw [Table.get?_insert]
    by_cases hkey : key = root
    · have horigin := origin_addDetail request c.time event
      rw [if_pos hkey, hkey, hopen, Option.map_some, Option.map_some, horigin.1, horigin.2]
    · rw [if_neg hkey]
  | orphanDetail hopening houtcome hlost => rfl

/-! ## Positions of a trace -/

variable {events : List Input}

/-- The event at position `i` opens a request: it starts an activity whose key is
neither open nor an alias and whose parent has no second leg. -/
structure OpensAt (events : List Input) (i : Nat) (key url : String) (time : Instant) : Prop where
  event : ∃ c scheme host port path versionMajor versionMinor,
    events[i]? = some (c, .requestStart scheme host port path versionMajor versionMinor) ∧
      c.activityId.key = key ∧ requestUrl scheme host port path = url ∧ c.time = time ∧
      (before events i).redirectingParent? c.activityId = none
  closed : (before events i).requests.contains key = false
  unaliased : (before events i).aliases.contains key = false

/-- The event at position `j` ends the activity under a key. -/
def EndsAt (events : List Input) (j : Nat) (key : String) (c : EventContext)
    (outcome : Outcome) : Prop :=
  ∃ event, events[j]? = some (c, event) ∧ event.outcome? = some outcome ∧ c.activityId.key = key

/-- No event between two positions ends the activity under a key. -/
def NoEndBetween (events : List Input) (i j : Nat) (key : String) : Prop :=
  ∀ m, i < m → m < j → ∀ c outcome, ¬ EndsAt events m key c outcome

/-- Position `j` is the first after `i` to end the activity under a key. -/
structure FirstEnd (events : List Input) (i j : Nat) (key : String) (c : EventContext)
    (outcome : Outcome) : Prop where
  lt : i < j
  ends : EndsAt events j key c outcome
  first : NoEndBetween events i j key

/-! ### A position and its step -/

theorem opensAt_iff {n : Nat} {c : EventContext} {event : NetworkEvent}
    (h : events[n]? = some (c, event)) {key url : String} {time : Instant} :
    OpensAt events n key url time ↔
      c.activityId.key = key ∧ c.time = time ∧ (before events n).Opens c event url := by
  constructor
  · rintro ⟨⟨c', scheme, host, port, path, versionMajor, versionMinor, hevent, rfl, rfl, rfl,
      hparent⟩, hclosed, hunaliased⟩
    rw [h, Option.some.injEq, Prod.mk.injEq] at hevent
    obtain ⟨rfl, rfl⟩ := hevent
    rw [Table.contains, Option.isSome_eq_false_iff, Option.isNone_iff_eq_none] at hclosed hunaliased
    exact ⟨rfl, rfl, ⟨_, rfl⟩, hclosed, hunaliased, hparent⟩
  · rintro ⟨rfl, rfl, ⟨version, hopening⟩, hclosed, hunaliased, hparent⟩
    obtain ⟨scheme, host, port, path, versionMajor, versionMinor, rfl, rfl, -⟩ :=
      NetworkEvent.opening?_eq_some hopening
    refine ⟨⟨c, scheme, host, port, path, versionMajor, versionMinor, h, rfl, rfl, rfl,
      hparent⟩, ?_, ?_⟩
    · rw [Table.contains, hclosed]
      rfl
    · rw [Table.contains, hunaliased]
      rfl

theorem endsAt_iff {n : Nat} {c : EventContext} {event : NetworkEvent}
    (h : events[n]? = some (c, event)) {key : String} {c' : EventContext} {outcome : Outcome} :
    EndsAt events n key c' outcome ↔
      c = c' ∧ event.outcome? = some outcome ∧ c.activityId.key = key := by
  constructor
  · rintro ⟨event', hevent, houtcome, hkey⟩
    rw [h, Option.some.injEq, Prod.mk.injEq] at hevent
    obtain ⟨rfl, rfl⟩ := hevent
    exact ⟨rfl, houtcome, hkey⟩
  · rintro ⟨rfl, houtcome, hkey⟩
    exact ⟨event, h, houtcome, hkey⟩

/-- An event of a key that does not end it is the end of nothing. -/
theorem outcome?_eq_none_of_not_endsAt {n : Nat} {c : EventContext} {event : NetworkEvent}
    (h : events[n]? = some (c, event)) {key : String}
    (hend : ∀ c outcome, ¬ EndsAt events n key c outcome) (hkey : c.activityId.key = key) :
    event.outcome? = none := by
  apply Option.eq_none_iff_forall_ne_some.mpr
  intro outcome houtcome
  exact hend c outcome ((endsAt_iff h).mpr ⟨rfl, houtcome, hkey⟩)

theorem origin?_succ_of_endsAt {n : Nat} {key : String} {c : EventContext} {outcome : Outcome}
    (h : EndsAt events n key c outcome) : (before events (n + 1)).origin? key = none := by
  obtain ⟨event, hevent, houtcome, rfl⟩ := h
  rw [before_succ hevent]
  exact origin?_step_of_end houtcome

theorem origin?_succ_of_opensAt {n : Nat} {key url : String} {time : Instant}
    (h : OpensAt events n key url time) :
    (before events n).origin? key = none ∧
      (before events (n + 1)).origin? key = some (url, time) := by
  obtain ⟨c, _, _, _, _, _, _, hevent, -⟩ := h.event
  obtain ⟨rfl, rfl, hopens⟩ := (opensAt_iff hevent).mp h
  constructor
  · rw [origin?, hopens.closed]
    rfl
  · rw [before_succ hevent]
    exact origin?_step_of_opens hopens

theorem origin?_succ_of_other {n : Nat} (hn : n < events.length) {key : String}
    (hend : ∀ c outcome, ¬ EndsAt events n key c outcome)
    (hopens : ∀ url time, ¬ OpensAt events n key url time) :
    (before events (n + 1)).origin? key = (before events n).origin? key := by
  obtain ⟨⟨c, event⟩, hevent⟩ : ∃ x, events[n]? = some x :=
    ⟨events[n], List.getElem?_eq_getElem hn⟩
  rw [before_succ hevent]
  apply origin?_step_of_other
  · exact outcome?_eq_none_of_not_endsAt hevent hend
  · intro hkey url h
    exact hopens url c.time ((opensAt_iff hevent).mpr ⟨hkey, rfl, h⟩)

/-- An event that ends a key opens nothing under it. -/
theorem not_opensAt_of_endsAt {n : Nat} {key url : String} {time : Instant} {c : EventContext}
    {outcome : Outcome} (h : EndsAt events n key c outcome) :
    ¬ OpensAt events n key url time := by
  intro hopens
  have hsome := (origin?_succ_of_opensAt hopens).2
  rw [origin?_succ_of_endsAt h] at hsome
  exact absurd hsome (by simp)

/-! ## What is open, read off the trace -/

/-- A shorter stretch has no end either. -/
theorem NoEndBetween.mono {i m n : Nat} {key : String} (h : NoEndBetween events i n key)
    (hmn : m ≤ n) : NoEndBetween events i m key :=
  fun k hik hkm => h k hik (Nat.lt_of_lt_of_le hkm hmn)

/-- A stretch without an end, one event longer. -/
theorem noEndBetween_succ {i n : Nat} {key : String}
    (hend : ∀ c outcome, ¬ EndsAt events n key c outcome) :
    NoEndBetween events i (n + 1) key ↔ NoEndBetween events i n key := by
  constructor
  · exact fun h => h.mono (Nat.le_succ n)
  · intro h m him hmn
    rcases Nat.lt_succ_iff_lt_or_eq.mp hmn with hlt | rfl
    · exact h m him hlt
    · exact hend

/-- **What is open was opened and has not ended since.** -/
theorem origin?_before_iff {n : Nat} (hn : n ≤ events.length) {key url : String}
    {time : Instant} :
    (before events n).origin? key = some (url, time) ↔
      ∃ i, i < n ∧ OpensAt events i key url time ∧ NoEndBetween events i n key := by
  induction n generalizing url time with
  | zero =>
    constructor
    · intro h
      rw [before_zero] at h
      exact absurd h (by simp [start, origin?])
    · rintro ⟨i, hi, -⟩
      exact absurd hi (Nat.not_lt_zero i)
  | succ n ih =>
    have ih := @ih (Nat.le_of_succ_le hn)
    by_cases hend : ∃ c outcome, EndsAt events n key c outcome
    · -- nothing is open, and whatever was opened has just ended
      obtain ⟨c, outcome, hend⟩ := hend
      rw [origin?_succ_of_endsAt hend]
      constructor
      · intro h
        exact absurd h (by simp)
      · rintro ⟨i, hi, hopens, hno⟩
        rcases Nat.lt_succ_iff_lt_or_eq.mp hi with hlt | rfl
        · exact absurd hend (hno n hlt (Nat.lt_succ_self n) c outcome)
        · exact absurd hopens (not_opensAt_of_endsAt hend)
    · have hend : ∀ c outcome, ¬ EndsAt events n key c outcome :=
        fun c outcome h => hend ⟨c, outcome, h⟩
      by_cases hopens : ∃ url time, OpensAt events n key url time
      · -- the key has just been opened, so it was not open before
        obtain ⟨url', time', hopens⟩ := hopens
        obtain ⟨hnone, hsome⟩ := origin?_succ_of_opensAt hopens
        rw [hsome]
        constructor
        · intro h
          rw [Option.some.injEq, Prod.mk.injEq] at h
          obtain ⟨rfl, rfl⟩ := h
          exact ⟨n, Nat.lt_succ_self n, hopens,
            fun m hnm hmn => absurd (Nat.lt_succ_iff.mp hmn) (Nat.not_le.mpr hnm)⟩
        · rintro ⟨i, hi, hopens', hno⟩
          rcases Nat.lt_succ_iff_lt_or_eq.mp hi with hlt | rfl
          · have hopen := ih.mpr ⟨i, hlt, hopens', (noEndBetween_succ hend).mp hno⟩
            rw [hnone] at hopen
            exact absurd hopen (by simp)
          · rw [← hsome]
            exact (origin?_succ_of_opensAt hopens').2
      · have hopens : ∀ url time, ¬ OpensAt events n key url time :=
          fun url time h => hopens ⟨url, time, h⟩
        rw [origin?_succ_of_other hn hend hopens, ih]
        constructor
        · rintro ⟨i, hi, hopensAt, hno⟩
          exact ⟨i, Nat.lt_succ_of_lt hi, hopensAt, (noEndBetween_succ hend).mpr hno⟩
        · rintro ⟨i, hi, hopensAt, hno⟩
          rcases Nat.lt_succ_iff_lt_or_eq.mp hi with hlt | rfl
          · exact ⟨i, hlt, hopensAt, (noEndBetween_succ hend).mp hno⟩
          · exact absurd hopensAt (hopens url time)

/-! ## What is reported -/

/-- `r` is the report of the request that was opened at position `i` and that
position `j` was the first to end. -/
structure ReportOf (events : List Input) (i j : Nat) (r : ClosedRequest) : Prop where
  opens : OpensAt events i r.activity r.url r.start
  ends : ∃ c, FirstEnd events i j r.activity c r.outcome ∧ r.processId = c.processId ∧
    r.duration.toNat = c.time.toNat - r.start.toNat

/-- A result tells what ended and that it was open. -/
theorem getElem?_results_eq_some {j : Nat} {r : ClosedRequest} :
    (results events)[j]? = some (some r) ↔ ∃ c request,
      EndsAt events j r.activity c r.outcome ∧
        (before events j).requests.get? r.activity = some request ∧
        r = request.close c.processId r.activity c.time r.outcome := by
  rw [getElem?_results, Option.map_eq_some_iff]
  constructor
  · rintro ⟨⟨c, event⟩, hevent, hresult⟩
    rw [step_fst, Option.bind_eq_some_iff] at hresult
    obtain ⟨outcome, houtcome, hresult⟩ := hresult
    obtain ⟨request, hopen, rfl⟩ := Option.map_eq_some_iff.mp hresult
    exact ⟨c, request, ⟨event, hevent, houtcome, rfl⟩, hopen, rfl⟩
  · rintro ⟨c, request, ⟨event, hevent, houtcome, hkey⟩, hopen, hr⟩
    refine ⟨(c, event), hevent, ?_⟩
    rw [step_fst, houtcome, Option.bind_some, hkey, hopen, hr]
    rfl

/-- Every report is of a request that was opened before. -/
theorem reportOf_of_result {j : Nat} {r : ClosedRequest}
    (h : (results events)[j]? = some (some r)) : ∃ i, ReportOf events i j r := by
  obtain ⟨c, request, hends, hopen, hr⟩ := getElem?_results_eq_some.mp h
  obtain ⟨event, hevent, -⟩ := id hends
  have hj : j ≤ events.length := Nat.le_of_lt (List.getElem?_eq_some_iff.mp hevent).1
  have horigin : (before events j).origin? r.activity = some (r.url, r.start) := by
    rw [origin?, hopen, hr]
    rfl
  obtain ⟨i, hij, hopens, hno⟩ := (origin?_before_iff hj).mp horigin
  refine ⟨i, hopens, c, ⟨hij, hends, hno⟩, ?_, ?_⟩
  · rw [hr]
    rfl
  · rw [hr]
    exact Instant.toNat_since _ _

/-- `r` is the report of `request`, which was opened at position `i`, and was open when position
`j` ended it. -/
structure ClosesAt (events : List Input) (i j : Nat) (request : OpenRequest) (r : ClosedRequest) :
    Prop where
  report : ReportOf events i j r
  lt : i < j
  le_length : j ≤ events.length
  first : NoEndBetween events i j r.activity
  isOpen : (before events j).requests.get? r.activity = some request
  start : request.start = r.start
  phases : request.phases = r.phases
  redirect : request.redirect = r.redirect

theorem exists_closesAt {j : Nat} {r : ClosedRequest} (h : (results events)[j]? = some (some r)) :
    ∃ i request, ClosesAt events i j request r := by
  obtain ⟨i, hreport⟩ := reportOf_of_result h
  obtain ⟨c, request, ⟨event, hevent, -⟩, hopen, hr⟩ := getElem?_results_eq_some.mp h
  obtain ⟨c', hfirst, -⟩ := hreport.ends
  have hj : j ≤ events.length := Nat.le_of_lt (List.getElem?_eq_some_iff.mp hevent).1
  exact ⟨i, request, hreport, hfirst.lt, hj, hfirst.first, hopen, by rw [hr]; rfl, by rw [hr]; rfl,
    by rw [hr]; rfl⟩

/-- A position ends the key at most once in the life of a request. -/
theorem FirstEnd.eq {i j j' : Nat} {key : String} {c c' : EventContext}
    {outcome outcome' : Outcome} (h : FirstEnd events i j key c outcome)
    (h' : FirstEnd events i j' key c' outcome') : j = j' := by
  rcases Nat.lt_trichotomy j j' with hlt | heq | hgt
  · exact absurd h.ends (h'.first j h.lt hlt c outcome)
  · exact heq
  · exact absurd h'.ends (h.first j' h'.lt hgt c' outcome')

end RequestTracker
end RuntimeTrace
