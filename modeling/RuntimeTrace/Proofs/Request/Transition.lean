import RuntimeTrace.Proofs.Run
import RuntimeTrace.Request.Tracker

/-!
# What one event does to the requests

An event of the network starts an activity, ends one, or reports a detail, and what
becomes of it depends on a few lookups: is its key open, is it an alias, does its
parent have a second leg.  `Transition` lists the outcomes, eight in all, each with
the lookups that lead to it and the state it leaves.

The list is complete (`exists_transition`) and nothing in it can be chosen
(`Transition.step_eq`): the outcomes are those of the step function, seen from the
state they start in.  So a property of runs is proved by going through the eight
outcomes once, and two trackers that answer the same lookups alike go through the
same outcome.
-/

namespace RuntimeTrace

/-- The address and the protocol version of a request that starts. -/
def NetworkEvent.opening? : NetworkEvent → Option (String × Option String)
  | .requestStart scheme host port path versionMajor versionMinor =>
    some (requestUrl scheme host port path, protocolVersion? versionMajor versionMinor)
  | _ => none

theorem NetworkEvent.opening?_eq_some {event : NetworkEvent} {url : String}
    {version : Option String} (h : event.opening? = some (url, version)) :
    ∃ scheme host port path versionMajor versionMinor,
      event = .requestStart scheme host port path versionMajor versionMinor ∧
        url = requestUrl scheme host port path ∧
        version = protocolVersion? versionMajor versionMinor := by
  cases event with
  | requestStart scheme host port path versionMajor versionMinor =>
    rw [opening?, Option.some.injEq, Prod.mk.injEq] at h
    exact ⟨scheme, host, port, path, versionMajor, versionMinor, rfl, h.1.symm, h.2.symm⟩
  | _ => exact absurd h (by simp [opening?])

/-- An event does not both start and end an activity. -/
theorem NetworkEvent.opening?_eq_none {event : NetworkEvent} {outcome : Outcome}
    (h : event.outcome? = some outcome) : event.opening? = none := by
  cases event <;> simp_all [outcome?, opening?]

namespace RequestTracker

/-- A network event with its context. -/
abbrev Input := EventContext × NetworkEvent

/-- One step of a run. -/
def feed (t : RequestTracker) (x : Input) : Option ClosedRequest × RequestTracker :=
  t.step x.1 x.2

/-- What becomes of an event, by the lookups that decide it. -/
inductive Transition (t : RequestTracker) (c : EventContext) (event : NetworkEvent) :
    Option ClosedRequest → RequestTracker → Prop where
  /-- A start whose key is open or an alias. -/
  | duplicate (hopening : event.opening?.isSome)
      (hknown : t.requests.contains c.activityId.key || t.aliases.contains c.activityId.key) :
      Transition t c event none { t with misses := t.misses.duplicateStart }
  /-- A start below a request with a second leg. -/
  | attached {url : String} {version : Option String} {parent : String}
      (hopening : event.opening? = some (url, version))
      (hclosed : t.requests.get? c.activityId.key = none)
      (hunaliased : t.aliases.get? c.activityId.key = none)
      (hparent : t.redirectingParent? c.activityId = some parent) :
      Transition t c event none (t.attach c.activityId.key parent url c.time)
  /-- A start of a request of its own. -/
  | opened {url : String} {version : Option String}
      (hopening : event.opening? = some (url, version))
      (hclosed : t.requests.get? c.activityId.key = none)
      (hunaliased : t.aliases.get? c.activityId.key = none)
      (hparent : t.redirectingParent? c.activityId = none) :
      Transition t c event none
        { t with requests := t.requests.insert c.activityId.key (.begin url c.time version) }
  /-- The end of an open request. -/
  | closed {outcome : Outcome} {request : OpenRequest}
      (houtcome : event.outcome? = some outcome)
      (hopen : t.requests.get? c.activityId.key = some request) :
      Transition t c event (some (request.close c.processId c.activityId.key c.time outcome))
        { t with
          requests := t.requests.erase c.activityId.key
          aliases := t.aliases.filter fun _ root => root ≠ c.activityId.key }
  /-- The end of a second leg. -/
  | legEnded {outcome : Outcome} {root : String}
      (houtcome : event.outcome? = some outcome)
      (hclosed : t.requests.get? c.activityId.key = none)
      (halias : t.aliases.get? c.activityId.key = some root) :
      Transition t c event none
        { t with
          aliases := t.aliases.erase c.activityId.key
          requests := t.requests.modify root fun request =>
            { request with
              redirect := request.redirect.map fun leg =>
                { leg with outcome := some outcome, finish := some c.time } } }
  /-- An end of nothing. -/
  | orphanStop (houtcome : event.outcome?.isSome)
      (hclosed : t.requests.get? c.activityId.key = none)
      (hunaliased : t.aliases.get? c.activityId.key = none) :
      Transition t c event none { t with misses := t.misses.orphanStop }
  /-- A detail of an open request. -/
  | detail {root : String} {request : OpenRequest}
      (hopening : event.opening? = none) (houtcome : event.outcome? = none)
      (hroot : t.resolve? c.activityId = some root)
      (hopen : t.requests.get? root = some request) :
      Transition t c event none
        { t with
          requests := t.requests.insert root (request.addDetail c.time event).1
          misses := if (request.addDetail c.time event).2 then t.misses
            else t.misses.orphanDetail }
  /-- A detail of nothing. -/
  | orphanDetail (hopening : event.opening? = none) (houtcome : event.outcome? = none)
      (hlost : (t.resolve? c.activityId).bind t.requests.get? = none) :
      Transition t c event none { t with misses := t.misses.orphanDetail }

/-! ## The step function by kinds of event -/

theorem step_of_opening {event : NetworkEvent} {url : String} {version : Option String}
    (h : event.opening? = some (url, version)) (t : RequestTracker) (c : EventContext) :
    t.step c event = (none, t.begin c url version) := by
  obtain ⟨scheme, host, port, path, versionMajor, versionMinor, rfl, rfl, rfl⟩ :=
    NetworkEvent.opening?_eq_some h
  rfl

theorem step_of_outcome {event : NetworkEvent} {outcome : Outcome}
    (h : event.outcome? = some outcome) (t : RequestTracker) (c : EventContext) :
    t.step c event = t.finish c outcome := by
  cases event <;> simp_all [NetworkEvent.outcome?, step]

theorem step_of_detail {event : NetworkEvent} (hopening : event.opening? = none)
    (houtcome : event.outcome? = none) (t : RequestTracker) (c : EventContext) :
    t.step c event = (none, t.addDetail c event) := by
  cases event <;> simp_all [NetworkEvent.outcome?, NetworkEvent.opening?, step]

/-! ## Every step is one of the eight -/

theorem transition_begin {event : NetworkEvent} {url : String} {version : Option String}
    (h : event.opening? = some (url, version)) (t : RequestTracker) (c : EventContext) :
    Transition t c event none (t.begin c url version) := by
  unfold begin
  dsimp only
  split
  · rename_i hknown
    exact .duplicate (by rw [h]; rfl) hknown
  · rename_i hknown
    simp only [Table.contains, Bool.or_eq_true, not_or, Bool.not_eq_true,
      Option.isSome_eq_false_iff, Option.isNone_iff_eq_none] at hknown
    split
    · rename_i parent hparent
      exact .attached h hknown.1 hknown.2 hparent
    · rename_i hparent
      exact .opened h hknown.1 hknown.2 hparent

theorem transition_finish {event : NetworkEvent} {outcome : Outcome}
    (h : event.outcome? = some outcome) (t : RequestTracker) (c : EventContext) :
    Transition t c event (t.finish c outcome).1 (t.finish c outcome).2 := by
  unfold finish
  dsimp only
  split
  · rename_i request hopen
    exact .closed h hopen
  · rename_i hclosed
    split
    · rename_i root halias
      exact .legEnded h hclosed halias
    · rename_i hunaliased
      exact .orphanStop (by rw [h]; rfl) hclosed hunaliased

theorem transition_addDetail {event : NetworkEvent} (hopening : event.opening? = none)
    (houtcome : event.outcome? = none) (t : RequestTracker) (c : EventContext) :
    Transition t c event none (t.addDetail c event) := by
  unfold addDetail
  cases hroot : t.resolve? c.activityId with
  | none => exact .orphanDetail hopening houtcome (by rw [hroot]; rfl)
  | some root =>
    cases hopen : t.requests.get? root with
    | none =>
      simp only [Option.bind_some, hopen, Option.map_none]
      exact .orphanDetail hopening houtcome (by rw [hroot]; exact hopen)
    | some request =>
      simp only [Option.bind_some, hopen, Option.map_some]
      exact .detail hopening houtcome hroot hopen

/-- **Every event goes through one of the eight outcomes.** -/
theorem exists_transition (t : RequestTracker) (c : EventContext) (event : NetworkEvent) :
    ∃ result t', t.step c event = (result, t') ∧ Transition t c event result t' := by
  cases hopening : event.opening? with
  | some opening =>
    exact ⟨none, _, step_of_opening hopening t c, transition_begin hopening t c⟩
  | none =>
    cases houtcome : event.outcome? with
    | some outcome => exact ⟨_, _, step_of_outcome houtcome t c, transition_finish houtcome t c⟩
    | none =>
      exact ⟨none, _, step_of_detail hopening houtcome t c,
        transition_addDetail hopening houtcome t c⟩

/-- **The lookups decide**: an outcome whose conditions hold is what happens. -/
theorem Transition.step_eq {t t' : RequestTracker} {c : EventContext} {event : NetworkEvent}
    {result : Option ClosedRequest} (h : Transition t c event result t') :
    t.step c event = (result, t') := by
  cases h with
  | duplicate hopening hknown =>
    obtain ⟨⟨url, version⟩, hopening⟩ := Option.isSome_iff_exists.mp hopening
    rw [step_of_opening hopening, begin, if_pos hknown]
  | attached hopening hclosed hunaliased hparent =>
    rw [step_of_opening hopening, begin, Table.contains, Table.contains, hclosed, hunaliased,
      hparent]
    rfl
  | opened hopening hclosed hunaliased hparent =>
    rw [step_of_opening hopening, begin, Table.contains, Table.contains, hclosed, hunaliased,
      hparent]
    rfl
  | closed houtcome hopen =>
    rw [step_of_outcome houtcome, finish]
    simp only [hopen]
  | legEnded houtcome hclosed halias =>
    rw [step_of_outcome houtcome, finish]
    simp only [hclosed, halias]
  | orphanStop houtcome hclosed hunaliased =>
    obtain ⟨outcome, houtcome⟩ := Option.isSome_iff_exists.mp houtcome
    rw [step_of_outcome houtcome, finish]
    simp only [hclosed, hunaliased]
  | detail hopening houtcome hroot hopen =>
    rw [step_of_detail hopening houtcome, addDetail]
    simp only [hroot, Option.bind_some, hopen, Option.map_some]
  | orphanDetail hopening houtcome hlost =>
    rw [step_of_detail hopening houtcome, addDetail]
    cases hroot : t.resolve? c.activityId with
    | none => rfl
    | some root =>
      rw [hroot, Option.bind_some] at hlost
      simp only [Option.bind_some, hlost, Option.map_none]

/-! ## Runs -/

/-- The tracker after a trace. -/
def following (events : List Input) : RequestTracker := Run.after feed start events

/-- The tracker that the event at a position meets. -/
def before (events : List Input) (n : Nat) : RequestTracker := following (events.take n)

/-- What the events of a trace give, position by position. -/
def results (events : List Input) : List (Option ClosedRequest) := Run.outputs feed start events

theorem before_zero (events : List Input) : before events 0 = start := rfl

theorem before_succ {events : List Input} {n : Nat} {c : EventContext} {event : NetworkEvent}
    (h : events[n]? = some (c, event)) :
    before events (n + 1) = ((before events n).step c event).2 :=
  Run.after_take_succ feed start h

theorem getElem?_results (events : List Input) (n : Nat) :
    (results events)[n]? = events[n]?.map fun x => ((before events n).step x.1 x.2).1 :=
  Run.getElem?_outputs feed start events n

end RequestTracker
end RuntimeTrace
