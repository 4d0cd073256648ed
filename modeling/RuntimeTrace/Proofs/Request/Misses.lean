import RuntimeTrace.Proofs.Request.Transition
import RuntimeTrace.Proofs.Table

/-!
# What a miss changes

An event that does not fit is dropped and counted.  A start that repeats a key, an end of
nothing and a detail of nothing are seen to be misses before anything is written, and the
tracker is left as it was but for the count.

The end of a phase is not.  Whether it fits is known only from the phases of its request, and
by then what the event says apart from its phase has been taken down.  Most ends say nothing
else.  The end of a handshake does: it names the protocol or the error, and both are kept
although the handshake never began and the event is counted as a miss.  So a miss changes no
request, except that the end of a handshake may leave these two facts with an open one; and
even then nothing else of the request changes, and no other request does.

What becomes of an event does not depend on the misses so far.  So an event that is dropped may
as well be left out of the trace (`results_fitting`).

Main statement: `miss_is_dropped`.
-/

namespace RuntimeTrace

namespace Misses

theorem total_orphanStop (m : Misses) : m.orphanStop.total = m.total + 1 := by
  simp only [orphanStop, total]
  omega

theorem total_orphanDetail (m : Misses) : m.orphanDetail.total = m.total + 1 := by
  simp only [orphanDetail, total]
  omega

theorem total_duplicateStart (m : Misses) : m.duplicateStart.total = m.total + 1 := by
  simp only [duplicateStart, total]
  omega

end Misses

/-- The event ends a handshake, well or badly. -/
def NetworkEvent.endsHandshake : NetworkEvent → Bool
  | .handshakeStop _ => true
  | .handshakeFailed _ _ _ => true
  | _ => false

namespace OpenRequest

/-- The request without what the end of a handshake says about it. -/
def withoutHandshake (r : OpenRequest) : OpenRequest :=
  { r with tlsProtocol := none, handshakeError := none }

variable {r : OpenRequest} {now : Instant} {event : NetworkEvent}

/-- A detail that does not fit is the end of a phase, and is noted all the same. -/
theorem addDetail_of_not_fitted (h : (r.addDetail now event).2 = false) :
    (r.addDetail now event).1 = r.note now event ∧
      ∃ phase, event.phaseMark? = some (.ends phase) := by
  unfold addDetail at h ⊢
  cases hmark : event.phaseMark? with
  | none =>
    rw [hmark] at h
    exact absurd h (by simp)
  | some mark =>
    rw [hmark] at h
    cases hmarked : (r.note now event).mark? now mark with
    | some marked =>
      simp only [hmarked] at h
      exact absurd h (by simp)
    | none =>
      simp only [hmarked]
      cases mark with
      | begins phase => exact absurd hmarked (by simp [mark?])
      | ends phase => exact ⟨trivial, phase, rfl⟩

/-- The end of a phase says nothing but that, unless the phase is a handshake. -/
theorem note_of_ends {phase : Phase} (hmark : event.phaseMark? = some (.ends phase))
    (hhandshake : event.endsHandshake = false) : r.note now event = r := by
  cases event with
  | handshakeStop | handshakeFailed => cases hhandshake
  | requestHeadersStart | responseHeadersStop | redirect | requestLeftQueue
  | connectionEstablished => cases hmark
  | _ => rfl

/-- What the end of a phase says is of the handshake. -/
theorem withoutHandshake_note_of_ends {phase : Phase}
    (hmark : event.phaseMark? = some (.ends phase)) :
    (r.note now event).withoutHandshake = r.withoutHandshake := by
  cases hhandshake : event.endsHandshake with
  | false => rw [note_of_ends hmark hhandshake]
  | true =>
    cases event with
    | handshakeStop | handshakeFailed => rfl
    | _ => cases hhandshake

end OpenRequest

namespace RequestTracker

variable {t t' : RequestTracker} {c : EventContext} {event : NetworkEvent}
  {result : Option ClosedRequest}

/-- The open request that a detail finds. -/
def found? (t : RequestTracker) (c : EventContext) : Option OpenRequest :=
  (t.resolve? c.activityId).bind t.requests.get?

/-- What a miss leaves. -/
structure Dropped (t : RequestTracker) (c : EventContext) (event : NetworkEvent)
    (result : Option ClosedRequest) (t' : RequestTracker) : Prop where
  result : result = none
  aliases : t'.aliases = t.aliases
  /-- The end of a handshake is dropped, too, if it finds no request. -/
  requests : (event.endsHandshake = true → t.found? c = none) → t'.requests = t.requests
  /-- What is kept of the end of a handshake is no more than it says. -/
  withoutHandshake : ∀ key, (t'.requests.get? key).map OpenRequest.withoutHandshake =
    (t.requests.get? key).map OpenRequest.withoutHandshake

theorem dropped_of_requests_eq (halias : t'.aliases = t.aliases)
    (hrequests : t'.requests = t.requests) : Dropped t c event none t' where
  result := rfl
  aliases := halias
  requests := fun _ => hrequests
  withoutHandshake := fun key => by rw [hrequests]

/-- A detail that finds a request but does not fit. -/
theorem dropped_of_not_fitted {root : String} {request : OpenRequest}
    (hroot : t.resolve? c.activityId = some root) (hopen : t.requests.get? root = some request)
    (hfitted : (request.addDetail c.time event).2 = false) (misses : Misses) :
    Dropped t c event none
      { t with
        requests := t.requests.insert root (request.addDetail c.time event).1
        misses := misses } := by
  obtain ⟨hnoted, phase, hmark⟩ := OpenRequest.addDetail_of_not_fitted hfitted
  have hfound : t.found? c = some request := by rw [found?, hroot, Option.bind_some, hopen]
  refine ⟨rfl, rfl, ?_, ?_⟩
  · intro hlost
    have hhandshake : event.endsHandshake = false := by
      cases hends : event.endsHandshake with
      | false => rfl
      | true =>
        rw [hlost hends] at hfound
        exact absurd hfound (by simp)
    show t.requests.insert root _ = t.requests
    rw [hnoted, OpenRequest.note_of_ends hmark hhandshake, Table.insert_self hopen]
  · intro key
    show ((t.requests.insert root _).get? key).map _ = _
    rw [hnoted, Table.get?_insert]
    by_cases hkey : key = root
    · rw [if_pos hkey, hkey, hopen, Option.map_some, Option.map_some,
        OpenRequest.withoutHandshake_note_of_ends hmark]
    · rw [if_neg hkey]

/-- **An event is no miss, or is one miss and dropped.** -/
theorem Transition.misses_eq_or_dropped (h : Transition t c event result t') :
    t'.misses = t.misses ∨
      t'.misses.total = t.misses.total + 1 ∧ Dropped t c event result t' := by
  cases h with
  | duplicate hopening hknown =>
    exact Or.inr ⟨Misses.total_duplicateStart t.misses, dropped_of_requests_eq rfl rfl⟩
  | attached | opened | closed | legEnded => exact Or.inl rfl
  | orphanStop houtcome hclosed hunaliased =>
    exact Or.inr ⟨Misses.total_orphanStop t.misses, dropped_of_requests_eq rfl rfl⟩
  | @detail root request hopening houtcome hroot hopen =>
    cases hfitted : (request.addDetail c.time event).2 with
    | true => exact Or.inl rfl
    | false =>
      exact Or.inr ⟨Misses.total_orphanDetail t.misses, dropped_of_not_fitted hroot hopen hfitted _⟩
  | orphanDetail hopening houtcome hlost =>
    exact Or.inr ⟨Misses.total_orphanDetail t.misses, dropped_of_requests_eq rfl rfl⟩

/-- An event adds one miss at most. -/
theorem total_misses_step_le (t : RequestTracker) (c : EventContext) (event : NetworkEvent) :
    (t.step c event).2.misses.total ≤ t.misses.total + 1 := by
  obtain ⟨result, t', hstep, htransition⟩ := exists_transition t c event
  rw [hstep]
  show t'.misses.total ≤ t.misses.total + 1
  rcases htransition.misses_eq_or_dropped with hsame | ⟨htotal, -⟩
  · rw [hsame]
    exact Nat.le_succ _
  · exact Nat.le_of_eq htotal

/-- An event that adds a miss is dropped. -/
theorem dropped_of_lt (h : t.misses.total < (t.step c event).2.misses.total) :
    Dropped t c event (t.step c event).1 (t.step c event).2 := by
  obtain ⟨result, t', hstep, htransition⟩ := exists_transition t c event
  rw [hstep] at h ⊢
  rcases htransition.misses_eq_or_dropped with hsame | ⟨-, hdropped⟩
  · have hless : t.misses.total < t'.misses.total := h
    rw [hsame] at hless
    exact absurd hless (Nat.lt_irrefl _)
  · exact hdropped

/-- **A miss is dropped.**  In every state, reached by events or not, an event adds at most one
to all misses together.  If it adds one, it gives no result and changes no alias; it changes no
request either, unless it is the end of a handshake and finds an open one; and in that case the
requests are the same as before but for what the end of a handshake says. -/
theorem miss_is_dropped (t : RequestTracker) (c : EventContext) (event : NetworkEvent) :
    (t.step c event).2.misses.total ≤ t.misses.total + 1 ∧
    (t.misses.total < (t.step c event).2.misses.total →
      Dropped t c event (t.step c event).1 (t.step c event).2) :=
  ⟨total_misses_step_le t c event, dropped_of_lt⟩

/-- The context of an event of the request `1/5`, or of a part of it. -/
def partOfRequest (time : UInt64) (part : UInt8) : EventContext :=
  ⟨⟨time⟩, 7, 0, ActivityId.ofPath ([0x15, part] ++ List.replicate 10 0) rfl 0,
    ActivityId.nil, 0, none⟩

/-- The request has started, and no part of it. -/
def bareRequest : RequestTracker :=
  following [(partOfRequest 10 0, .requestStart "https" "a" 443 "/" 1 1)]

theorem miss_is_dropped_dnsStop :
    bareRequest.misses.total < (bareRequest.step (partOfRequest 12 0x10) .dnsStop).2.misses.total ∧
      (bareRequest.step (partOfRequest 12 0x10) .dnsStop).2.requests = bareRequest.requests := by
  have hmiss : bareRequest.misses.total <
      (bareRequest.step (partOfRequest 12 0x10) .dnsStop).2.misses.total := by decide +kernel
  have hdropped := (miss_is_dropped bareRequest (partOfRequest 12 0x10) .dnsStop).2 hmiss
  exact ⟨hmiss, hdropped.requests fun hends => absurd hends (by simp [NetworkEvent.endsHandshake])⟩

/-- **The end of a handshake that never began is a miss and changes its request.**  The request
was without a protocol before and has one afterwards. -/
theorem missed_handshake_is_kept :
    (bareRequest.step (partOfRequest 12 0x10) (.handshakeStop 3072)).2.misses.total =
        bareRequest.misses.total + 1 ∧
      (bareRequest.requests.get? "1/5").map OpenRequest.tlsProtocol = some none ∧
      ((bareRequest.step (partOfRequest 12 0x10) (.handshakeStop 3072)).2.requests.get? "1/5").map
        OpenRequest.tlsProtocol = some (some "TLS 1.2") := by
  decide +kernel

/-! ## Traces without what is dropped -/

/-- What becomes of an event does not depend on the misses so far. -/
theorem Transition.withMisses (h : Transition t c event result t') (m : Misses) :
    ∃ m', Transition { t with misses := m } c event result { t' with misses := m' } := by
  cases h with
  | duplicate hopening hknown => exact ⟨_, .duplicate hopening hknown⟩
  | attached hopening hclosed hunaliased hparent =>
    exact ⟨_, .attached hopening hclosed hunaliased hparent⟩
  | opened hopening hclosed hunaliased hparent =>
    exact ⟨_, .opened hopening hclosed hunaliased hparent⟩
  | closed houtcome hopen => exact ⟨_, .closed houtcome hopen⟩
  | legEnded houtcome hclosed halias => exact ⟨_, .legEnded houtcome hclosed halias⟩
  | orphanStop houtcome hclosed hunaliased => exact ⟨_, .orphanStop houtcome hclosed hunaliased⟩
  | detail hopening houtcome hroot hopen => exact ⟨_, .detail hopening houtcome hroot hopen⟩
  | orphanDetail hopening houtcome hlost => exact ⟨_, .orphanDetail hopening houtcome hlost⟩

/-- Two trackers differ in their misses at most. -/
structure SameOpen (s t : RequestTracker) : Prop where
  requests : s.requests = t.requests
  aliases : s.aliases = t.aliases

theorem SameOpen.feed {s : RequestTracker} (h : SameOpen s t) (x : Input) :
    (s.feed x).1 = (t.feed x).1 ∧ SameOpen (s.feed x).2 (t.feed x).2 := by
  obtain ⟨result, t', hstep, htransition⟩ := exists_transition t x.1 x.2
  obtain ⟨m, hmissed⟩ := htransition.withMisses s.misses
  have hs : s = { t with misses := s.misses } := by rw [← h.requests, ← h.aliases]
  have hfeed : t.feed x = (result, t') := hstep
  have hfeed' : s.feed x = (result, { t' with misses := m }) := by
    rw [hs]
    exact hmissed.step_eq
  rw [hfeed, hfeed']
  exact ⟨rfl, rfl, rfl⟩

/-- The event is missed and leaves nothing behind. -/
def drops (t : RequestTracker) (x : Input) : Bool :=
  decide (t.misses.total < (t.feed x).2.misses.total) && !x.2.endsHandshake

/-- A trace without the events that are dropped. -/
def fitting (t : RequestTracker) : List Input → List Input
  | [] => []
  | x :: rest => if t.drops x then fitting (t.feed x).2 rest else x :: fitting (t.feed x).2 rest

/-- What drops an event stays as it was. -/
theorem feed_of_drops {x : Input} (h : t.drops x = true) :
    (t.feed x).1 = none ∧ SameOpen t (t.feed x).2 := by
  rw [drops, Bool.and_eq_true, decide_eq_true_eq, Bool.not_eq_true'] at h
  obtain ⟨hmiss, hhandshake⟩ := h
  have hdropped : Dropped t x.1 x.2 (t.feed x).1 (t.feed x).2 := dropped_of_lt hmiss
  have hrequests := hdropped.requests fun hends => absurd (hends.symm.trans hhandshake) (by simp)
  exact ⟨hdropped.result, hrequests.symm, hdropped.aliases.symm⟩

/-- **What is dropped may be left out.**  A trace without the events that are dropped gives the
same results in the same order, and leaves the same requests open. -/
theorem results_fitting {s t : RequestTracker} (h : SameOpen s t) (events : List Input) :
    Run.results feed s (t.fitting events) = Run.results feed t events ∧
      SameOpen (Run.after feed s (t.fitting events)) (Run.after feed t events) := by
  induction events generalizing s t with
  | nil => exact ⟨rfl, h⟩
  | cons x rest ih =>
    rw [fitting, Run.results_cons, Run.after_cons]
    cases hdrops : t.drops x with
    | true =>
      obtain ⟨hnone, hsame⟩ := feed_of_drops hdrops
      have hnext : SameOpen s (t.feed x).2 :=
        ⟨h.requests.trans hsame.requests, h.aliases.trans hsame.aliases⟩
      rw [if_pos rfl, hnone]
      exact ih hnext
    | false =>
      obtain ⟨hresult, hnext⟩ := h.feed x
      obtain ⟨hresults, hafter⟩ := ih hnext
      rw [if_neg Bool.false_ne_true, Run.results_cons, Run.after_cons, hresult, hresults]
      exact ⟨rfl, hafter⟩

end RequestTracker
end RuntimeTrace
