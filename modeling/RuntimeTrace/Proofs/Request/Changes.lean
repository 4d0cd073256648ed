import Mathlib.Data.Nat.Init
import RuntimeTrace.Proofs.Request.Lifetime

/-!
# What changes an open request

Seen from one open request, most events of a trace are about something else.  Those that
change it without ending it are of three kinds: a part of it reports, a start joins it as its
second leg, or such a start ends.  A `Change` is one of these with what it carries, and
`OpenRequest.change` is what it makes of the request, with no tracker in sight.

`Reaches` says which request an event changes, and how.  What it reaches it changes
accordingly (`get?_step_of_reaches`), and a request that it neither reaches nor ends stays as
it was (`get?_step_of_not_reaches`).  So whatever holds of a request at some position and
survives its changes holds of it as long as it is open (`open_induction`); the eight outcomes
of a step are not needed any more.

## Legs

What later modules ask of a request is about its two legs.  `LegsAfter` lists what a change
can make of them.  A status that redirects is the only one that discards anything: it puts a
new second leg in the place of the one there is.
-/

namespace RuntimeTrace

/-- The event is a response that sends the request elsewhere. -/
def NetworkEvent.redirects : NetworkEvent → Bool
  | .responseHeadersStop statusCode => isRedirectStatus statusCode
  | _ => false

/-- What an event does to an open request that it does not end. -/
inductive Change where
  /-- A part of the request reports. -/
  | detail (event : NetworkEvent)
  /-- The start of an activity joins the request as its second leg. -/
  | joined (key url : String)
  /-- An activity that has joined the request ends. -/
  | left (key : String) (outcome : Outcome)

namespace OpenRequest

/-- The request after a change. -/
def change (r : OpenRequest) (now : Instant) : Change → OpenRequest
  | .detail event => (r.addDetail now event).1
  | .joined _ url =>
    { r with
      redirect := r.redirect.map fun leg =>
        { leg with start := now, url := if url = "" then leg.url else url } }
  | .left _ outcome =>
    { r with
      redirect := r.redirect.map fun leg =>
        { leg with outcome := some outcome, finish := some now } }

theorem evolves_change (r : OpenRequest) (now : Instant) (change : Change) :
    r.Evolves (r.change now change) := by
  cases change with
  | detail event => exact r.evolves_addDetail now event
  | joined key url => exact r.evolves_mapLeg _
  | left key outcome => exact r.evolves_mapLeg _

end OpenRequest

/-! ## The legs of a request -/

/-- What an event makes of the phases of the current leg, which started at `start`. -/
inductive LegPhases.Reports (p : LegPhases) (now start : Instant) (event : NetworkEvent) :
    LegPhases → Prop where
  | begins {phase : Phase} (hmark : event.phaseMark? = some (.begins phase)) :
      Reports p now start event (p.begin phase now)
  | ends {phase : Phase} {p' : LegPhases} (hmark : event.phaseMark? = some (.ends phase))
      (hfinish : p.finish? phase now start = some p') : Reports p now start event p'
  | queued (time : Duration) : Reports p now start event { p with queueing := some time }
  | nothing : Reports p now start event p

namespace OpenRequest

/-- What a change makes of the two legs of a request. -/
inductive LegsAfter (r : OpenRequest) (now : Instant) :
    Change → LegPhases → Option RedirectLeg → Prop where
  /-- A status that redirects begins a second leg, in the place of one there is. -/
  | redirected {event : NetworkEvent} (hredirects : event.redirects = true) :
      LegsAfter r now (.detail event) r.phases (some (.begin now))
  /-- A redirect is announced before its status. -/
  | announced {url : String} (hnone : r.redirect = none) :
      LegsAfter r now (.detail (.redirect url)) r.phases
        (some { RedirectLeg.begin now with url := url })
  /-- The address of the second leg becomes known. -/
  | named {leg : RedirectLeg} {url : String} (hleg : r.redirect = some leg) :
      LegsAfter r now (.detail (.redirect url)) r.phases (some { leg with url := url })
  /-- The first leg goes on. -/
  | first {event : NetworkEvent} {phases : LegPhases} (hnone : r.redirect = none)
      (hkept : event.redirects = false)
      (hreports : r.phases.Reports now r.start event phases) :
      LegsAfter r now (.detail event) phases none
  /-- The second leg goes on. -/
  | second {event : NetworkEvent} {leg : RedirectLeg} {phases : LegPhases}
      (hleg : r.redirect = some leg) (hkept : event.redirects = false)
      (hreports : leg.phases.Reports now leg.start event phases) :
      LegsAfter r now (.detail event) r.phases (some { leg with phases := phases })
  | joined (key url : String) :
      LegsAfter r now (.joined key url) r.phases
        (r.redirect.map fun leg =>
          { leg with start := now, url := if url = "" then leg.url else url })
  | left (key : String) (outcome : Outcome) :
      LegsAfter r now (.left key outcome) r.phases
        (r.redirect.map fun leg => { leg with outcome := some outcome, finish := some now })

variable {r : OpenRequest} {now : Instant} {event : NetworkEvent}

/-- The current leg is the second one where there is one. -/
theorem activePhases_of_some {leg : RedirectLeg} (hleg : r.redirect = some leg) :
    r.activePhases = leg.phases := by
  rw [activePhases, hleg]

theorem activeStart_of_some {leg : RedirectLeg} (hleg : r.redirect = some leg) :
    r.activeStart = leg.start := by
  rw [activeStart, hleg]

/-- Two requests with the same legs. -/
structure SameLegs (r r' : OpenRequest) : Prop where
  start : r'.start = r.start
  phases : r'.phases = r.phases
  redirect : r'.redirect = r.redirect

/-- New phases of the current leg. -/
theorem legsAfter_setActivePhases {r' : OpenRequest} {phases : LegPhases} (hsame : r.SameLegs r')
    (hkept : event.redirects = false)
    (hreports : r'.activePhases.Reports now r'.activeStart event phases) :
    LegsAfter r now (.detail event) (r'.setActivePhases phases).phases
      (r'.setActivePhases phases).redirect := by
  unfold activePhases activeStart at hreports
  unfold setActivePhases
  cases hleg : r.redirect with
  | none =>
    have hleg' : r'.redirect = none := hsame.redirect.trans hleg
    simp only [hleg', hsame.phases, hsame.start] at hreports ⊢
    exact .first hleg hkept hreports
  | some leg =>
    have hleg' : r'.redirect = some leg := hsame.redirect.trans hleg
    simp only [hleg', hsame.phases] at hreports ⊢
    exact .second hleg hkept hreports

/-- The phases of the current leg are as they were. -/
theorem legsAfter_of_sameLegs {r' : OpenRequest} (hsame : r.SameLegs r')
    (hkept : event.redirects = false) :
    LegsAfter r now (.detail event) r'.phases r'.redirect := by
  rw [hsame.phases, hsame.redirect]
  cases hleg : r.redirect with
  | none => exact .first hleg hkept .nothing
  | some leg => exact .second hleg hkept .nothing

/-- What marks a phase is noted elsewhere than in the legs. -/
theorem sameLegs_note_of_mark {mark : PhaseMark} (hmark : event.phaseMark? = some mark) :
    event.redirects = false ∧ r.SameLegs (r.note now event) := by
  cases event with
  | responseHeadersStop | redirect | requestLeftQueue | connectionEstablished => cases hmark
  | _ => exact ⟨rfl, rfl, rfl, rfl⟩

theorem legsAfter_note (hmark : event.phaseMark? = none) :
    LegsAfter r now (.detail event) (r.note now event).phases (r.note now event).redirect := by
  cases event with
  | responseHeadersStop statusCode =>
    show LegsAfter r now _ r.phases
      (if isRedirectStatus statusCode then some (.begin now) else r.redirect)
    cases hstatus : isRedirectStatus statusCode with
    | true => exact .redirected hstatus
    | false => exact legsAfter_of_sameLegs ⟨rfl, rfl, rfl⟩ hstatus
  | redirect url =>
    show LegsAfter r now _ r.phases (some { r.redirect.getD (.begin now) with url := url })
    cases hleg : r.redirect with
    | none => exact .announced hleg
    | some leg => exact .named hleg
  | requestLeftQueue time versionMajor versionMinor =>
    exact legsAfter_setActivePhases ⟨rfl, rfl, rfl⟩ rfl (.queued _)
  | _ => exact legsAfter_of_sameLegs ⟨rfl, rfl, rfl⟩ rfl

/-- A mark begins or ends a phase of the current leg. -/
theorem legsAfter_mark? {r' marked : OpenRequest} {mark : PhaseMark} (hsame : r.SameLegs r')
    (hkept : event.redirects = false) (hmark : event.phaseMark? = some mark)
    (hmarked : r'.mark? now mark = some marked) :
    LegsAfter r now (.detail event) marked.phases marked.redirect := by
  cases mark with
  | begins phase =>
    rw [mark?, Option.some.injEq] at hmarked
    subst hmarked
    exact legsAfter_setActivePhases hsame hkept (.begins hmark)
  | ends phase =>
    obtain ⟨phases, hfinish, rfl⟩ := Option.map_eq_some_iff.mp hmarked
    exact legsAfter_setActivePhases hsame hkept (.ends hmark hfinish)

/-- **What a change makes of the legs** is in the list. -/
theorem legsAfter_change (r : OpenRequest) (now : Instant) (change : Change) :
    LegsAfter r now change (r.change now change).phases (r.change now change).redirect := by
  cases change with
  | joined key url => exact .joined key url
  | left key outcome => exact .left key outcome
  | detail event =>
    show LegsAfter r now _ (r.addDetail now event).1.phases (r.addDetail now event).1.redirect
    unfold addDetail
    dsimp only
    cases hmark : event.phaseMark? with
    | none => exact legsAfter_note hmark
    | some mark =>
      obtain ⟨hkept, hsame⟩ : event.redirects = false ∧ r.SameLegs (r.note now event) :=
        sameLegs_note_of_mark hmark
      dsimp only
      cases hmarked : (r.note now event).mark? now mark with
      | none => exact legsAfter_of_sameLegs hsame hkept
      | some marked => exact legsAfter_mark? hsame hkept hmark hmarked

end OpenRequest

/-! ## Which request an event changes -/

namespace RequestTracker

/-- The event changes the request that is open under a key. -/
inductive Reaches (t : RequestTracker) (c : EventContext) (event : NetworkEvent) :
    String → Change → Prop where
  | detail {root : String} (hopening : event.opening? = none) (houtcome : event.outcome? = none)
      (hroot : t.resolve? c.activityId = some root) : Reaches t c event root (.detail event)
  | joined {url : String} {version : Option String} {root : String}
      (hopening : event.opening? = some (url, version))
      (hclosed : t.requests.get? c.activityId.key = none)
      (hunaliased : t.aliases.get? c.activityId.key = none)
      (hparent : t.redirectingParent? c.activityId = some root) :
      Reaches t c event root (.joined c.activityId.key url)
  | left {outcome : Outcome} {root : String} (houtcome : event.outcome? = some outcome)
      (hclosed : t.requests.get? c.activityId.key = none)
      (halias : t.aliases.get? c.activityId.key = some root) :
      Reaches t c event root (.left c.activityId.key outcome)

variable {t : RequestTracker} {c : EventContext} {event : NetworkEvent} {key : String}
  {request : OpenRequest} {change : Change}

/-- An event changes one request at most, in one way. -/
theorem Reaches.unique {key' : String} {change' : Change} (h : t.Reaches c event key change)
    (h' : t.Reaches c event key' change') : key = key' ∧ change = change' := by
  cases h with
  | detail hopening houtcome hroot =>
    cases h' with
    | detail _ _ hroot' => exact ⟨Option.some.inj (hroot.symm.trans hroot'), rfl⟩
    | joined hopening' => rw [hopening] at hopening'; exact absurd hopening' (by simp)
    | left houtcome' => rw [houtcome] at houtcome'; exact absurd houtcome' (by simp)
  | joined hopening _ _ hparent =>
    cases h' with
    | detail hopening' => rw [hopening] at hopening'; exact absurd hopening' (by simp)
    | joined hopening' _ _ hparent' =>
      rw [hopening, Option.some.injEq, Prod.mk.injEq] at hopening'
      exact ⟨Option.some.inj (hparent.symm.trans hparent'), by rw [hopening'.1]⟩
    | left houtcome' =>
      rw [NetworkEvent.opening?_eq_none houtcome'] at hopening
      exact absurd hopening (by simp)
  | left houtcome _ halias =>
    cases h' with
    | detail _ houtcome' => rw [houtcome] at houtcome'; exact absurd houtcome' (by simp)
    | joined hopening' =>
      rw [NetworkEvent.opening?_eq_none houtcome] at hopening'
      exact absurd hopening' (by simp)
    | left houtcome' _ halias' =>
      rw [houtcome, Option.some.injEq] at houtcome'
      exact ⟨Option.some.inj (halias.symm.trans halias'), by rw [houtcome']⟩

/-- **What an event reaches it changes.** -/
theorem get?_step_of_reaches (hopen : t.requests.get? key = some request)
    (h : t.Reaches c event key change) :
    (t.step c event).2.requests.get? key = some (request.change c.time change) := by
  cases h with
  | detail hopening houtcome hroot =>
    rw [(Transition.detail hopening houtcome hroot hopen).step_eq, Table.get?_insert, if_pos rfl]
    rfl
  | joined hopening hclosed hunaliased hparent =>
    rw [(Transition.attached hopening hclosed hunaliased hparent).step_eq]
    show (t.requests.modify key _).get? key = _
    rw [Table.get?_modify, if_pos rfl, hopen]
    rfl
  | left houtcome hclosed halias =>
    rw [(Transition.legEnded houtcome hclosed halias).step_eq]
    show (t.requests.modify key _).get? key = _
    rw [Table.get?_modify, if_pos rfl, hopen]
    rfl

/-- **What an event neither reaches nor ends stays as it was.** -/
theorem get?_step_of_not_reaches (hopen : t.requests.get? key = some request)
    (hend : c.activityId.key = key → event.outcome? = none)
    (h : ∀ change, ¬ t.Reaches c event key change) :
    (t.step c event).2.requests.get? key = some request := by
  have hmodify : ∀ {root : String} {change : Change}, t.Reaches c event root change →
      ∀ f, (t.requests.modify root f).get? key = some request := by
    intro root change hreaches f
    rw [Table.get?_modify, if_neg, hopen]
    rintro rfl
    exact h change hreaches
  obtain ⟨result, t', hstep, htransition⟩ := exists_transition t c event
  rw [hstep]
  cases htransition with
  | duplicate hopening hknown => exact hopen
  | attached hopening hclosed hunaliased hparent =>
    exact hmodify (.joined hopening hclosed hunaliased hparent) _
  | opened hopening hclosed hunaliased hparent =>
    have hne : ¬ key = c.activityId.key := by
      rintro rfl
      rw [hclosed] at hopen
      exact absurd hopen (by simp)
    rw [Table.get?_insert, if_neg hne, hopen]
  | closed houtcome hclosing =>
    have hne : key ≠ c.activityId.key := by
      rintro rfl
      rw [hend rfl] at houtcome
      exact absurd houtcome (by simp)
    rw [Table.get?_erase_of_ne _ hne, hopen]
  | legEnded houtcome hclosed halias => exact hmodify (.left houtcome hclosed halias) _
  | orphanStop houtcome hclosed hunaliased => exact hopen
  | @detail root found hopening houtcome hroot hfound =>
    have hne : ¬ key = root := by
      rintro rfl
      exact h _ (.detail hopening houtcome hroot)
    rw [Table.get?_insert, if_neg hne, hopen]
  | orphanDetail hopening houtcome hlost => exact hopen

/-! ## Positions -/

variable {events : List Input} {time : Instant}

/-- The event at position `n` changes the request under a key. -/
def ReachesAt (events : List Input) (n : Nat) (key : String) (time : Instant) (change : Change) :
    Prop :=
  ∃ c event, events[n]? = some (c, event) ∧ c.time = time ∧
    (before events n).Reaches c event key change

theorem ReachesAt.unique {n : Nat} {key' : String} {time' : Instant} {change' : Change}
    (h : ReachesAt events n key time change) (h' : ReachesAt events n key' time' change') :
    key = key' ∧ time = time' ∧ change = change' := by
  obtain ⟨c, event, hevent, rfl, hreaches⟩ := h
  obtain ⟨c', event', hevent', rfl, hreaches'⟩ := h'
  rw [hevent, Option.some.injEq, Prod.mk.injEq] at hevent'
  obtain ⟨rfl, rfl⟩ := hevent'
  obtain ⟨hkey, hchange⟩ := hreaches.unique hreaches'
  exact ⟨hkey, rfl, hchange⟩

theorem ReachesAt.succ {n : Nat} (h : ReachesAt events n key time change)
    (hopen : (before events n).requests.get? key = some request) :
    (before events (n + 1)).requests.get? key = some (request.change time change) := by
  obtain ⟨c, event, hevent, rfl, hreaches⟩ := h
  rw [before_succ hevent]
  exact get?_step_of_reaches hopen hreaches

theorem get?_succ_of_not_reachesAt {n : Nat} (hn : n < events.length)
    (hopen : (before events n).requests.get? key = some request)
    (hend : ∀ c outcome, ¬ EndsAt events n key c outcome)
    (h : ∀ time change, ¬ ReachesAt events n key time change) :
    (before events (n + 1)).requests.get? key = some request := by
  obtain ⟨⟨c, event⟩, hevent⟩ : ∃ x, events[n]? = some x :=
    ⟨events[n], List.getElem?_eq_getElem hn⟩
  rw [before_succ hevent]
  exact get?_step_of_not_reaches hopen (outcome?_eq_none_of_not_endsAt hevent hend)
    fun change hreaches => h c.time change ⟨c, event, hevent, rfl, hreaches⟩

/-- A request is open and new after the event that opened it. -/
theorem get?_succ_of_opensAt {i : Nat} {url : String} (h : OpensAt events i key url time) :
    ∃ version, (before events (i + 1)).requests.get? key = some (.begin url time version) := by
  obtain ⟨c, _, _, _, _, _, _, hevent, -⟩ := h.event
  obtain ⟨rfl, rfl, hopens⟩ := (opensAt_iff hevent).mp h
  obtain ⟨version, hopening⟩ := hopens.opening
  refine ⟨version, ?_⟩
  rw [before_succ hevent,
    (Transition.opened hopening hopens.closed hopens.unaliased hopens.unattached).step_eq]
  show (Table.insert _ _ _).get? _ = _
  rw [Table.get?_insert, if_pos rfl]

/-- **What survives the changes of a request holds as long as it is open.** -/
theorem open_induction {P : Nat → OpenRequest → Prop} {i m n : Nat} (him : i < m) (hmn : m ≤ n)
    (hn : n ≤ events.length) (hend : NoEndBetween events i n key)
    (hopen : (before events m).requests.get? key = some request) (hstart : P m request)
    (hsame : ∀ k r, m ≤ k → k < n → (∀ time change, ¬ ReachesAt events k key time change) →
      P k r → P (k + 1) r)
    (hchange : ∀ k r time change, m ≤ k → k < n → ReachesAt events k key time change →
      (before events k).requests.get? key = some r → P k r → P (k + 1) (r.change time change)) :
    ∃ r, (before events n).requests.get? key = some r ∧ P n r := by
  induction n, hmn using Nat.le_induction with
  | base => exact ⟨request, hopen, hstart⟩
  | succ n hmn ih =>
    obtain ⟨r, hr, hP⟩ := ih (Nat.le_of_succ_le hn) (hend.mono (Nat.le_succ n))
      (fun k r hmk hkn => hsame k r hmk (Nat.lt_succ_of_lt hkn))
      (fun k r time change hmk hkn => hchange k r time change hmk (Nat.lt_succ_of_lt hkn))
    have hlast : n < n + 1 := Nat.lt_succ_self n
    by_cases hreaches : ∃ time change, ReachesAt events n key time change
    · obtain ⟨time, change, hreaches⟩ := hreaches
      exact ⟨_, hreaches.succ hr, hchange n r time change hmn hlast hreaches hr hP⟩
    · have hreaches : ∀ time change, ¬ ReachesAt events n key time change :=
        fun time change h => hreaches ⟨time, change, h⟩
      exact ⟨r, get?_succ_of_not_reachesAt hn hr (hend n (Nat.lt_of_lt_of_le him hmn) hlast)
        hreaches, hsame n r hmn hlast hreaches hP⟩

/-- The path `1/5`, and what is below it: the halves of `part` go on with the path. -/
def pathBelow (part : UInt8) : List UInt8 := 0x15 :: part :: List.replicate 10 0

/-- The context of an event of the activity `1/5`, or of one below it. -/
def below (time : UInt64) (part : UInt8) : EventContext :=
  ⟨⟨time⟩, 7, 0, ActivityId.ofPath (pathBelow part) rfl 0, ActivityId.nil, 0, none⟩

end RequestTracker
end RuntimeTrace
