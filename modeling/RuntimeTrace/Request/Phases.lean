import RuntimeTrace.Event.Network
import RuntimeTrace.Time

/-!
# Phases of a request

A request resolves a name, connects a socket, secures the connection, and then
exchanges headers and content.  Each of these phases may be missing: a pooled
connection has already been made.

A completed phase says how long it took and how long the request waited for it
to begin.  The wait counts from the end of the latest phase that comes before it
and is complete, or from the start of the request if there is none.
-/

namespace RuntimeTrace

/-- A part of a request. -/
inductive Phase where
  | dns
  | socket
  | tls
  /-- From the request's headers to the end of the response's content. -/
  | requestResponse
  deriving DecidableEq, Repr

namespace Phase

/-- The phases in order. -/
def all : List Phase := [.dns, .socket, .tls, .requestResponse]

/-- The phases that come before a phase, the latest first. -/
def before : Phase → List Phase
  | .dns => []
  | .socket => [.dns]
  | .tls => [.socket, .dns]
  | .requestResponse => [.tls, .socket, .dns]

/-- The name of a phase in JSON. -/
def label : Phase → String
  | .dns => "dns"
  | .socket => "socket"
  | .tls => "tls"
  | .requestResponse => "request_response"

/-- The name of a phase in texts. -/
def shortTitle : Phase → String
  | .requestResponse => "req/resp"
  | phase => phase.label

/-- The name of a phase in exported trace events. -/
def title : Phase → String
  | .requestResponse => "request/response"
  | phase => phase.label

end Phase

/-- A completed phase. -/
structure PhaseSpan where
  start : Instant
  /-- From the end of the phase before, or from the start of the request. -/
  wait : Duration
  duration : Duration
  deriving DecidableEq

/-- When a phase ended. -/
def PhaseSpan.finish (timing : PhaseSpan) : Instant := timing.start.plus timing.duration

/-- Something for some of the phases. -/
structure PerPhase (α : Type) where
  dns : Option α
  socket : Option α
  tls : Option α
  requestResponse : Option α
  deriving DecidableEq

namespace PerPhase

variable {α : Type}

/-- Nothing for any phase. -/
def none : PerPhase α := ⟨.none, .none, .none, .none⟩

/-- What there is for a phase. -/
def get (p : PerPhase α) : Phase → Option α
  | .dns => p.dns
  | .socket => p.socket
  | .tls => p.tls
  | .requestResponse => p.requestResponse

/-- Puts something in the place of a phase, or clears it. -/
def set (p : PerPhase α) (phase : Phase) (a : Option α) : PerPhase α :=
  match phase with
  | .dns => { p with dns := a }
  | .socket => { p with socket := a }
  | .tls => { p with tls := a }
  | .requestResponse => { p with requestResponse := a }

theorem get_set (p : PerPhase α) (phase other : Phase) (a : Option α) :
    (p.set phase a).get other = if other = phase then a else p.get other := by
  cases phase <;> cases other <;> rfl

/-- The phases for which there is something, in order. -/
def toList (p : PerPhase α) : List (Phase × α) :=
  Phase.all.filterMap fun phase => (p.get phase).map fun a => (phase, a)

end PerPhase

/-- The phases of a request, or of its redirected leg. -/
structure LegPhases where
  completed : PerPhase PhaseSpan
  /-- When the phases that go on began. -/
  begun : PerPhase Instant
  /-- The wait for a connection that the runtime reported. -/
  queueing : Option Duration
  deriving DecidableEq

namespace LegPhases

/-- No phase has begun. -/
def none : LegPhases := ⟨PerPhase.none, PerPhase.none, .none⟩

/-- Where the wait for a phase counts from. -/
def waitsFrom (p : LegPhases) (phase : Phase) (requestStart : Instant) : Instant :=
  match phase.before.findSome? p.completed.get with
  | some timing => timing.finish
  | .none => requestStart

/-- A phase begins; one that has begun before begins anew. -/
def begin (p : LegPhases) (phase : Phase) (now : Instant) : LegPhases :=
  { p with begun := p.begun.set phase (some now) }

/-- A phase ends, which it can only if it has begun. -/
def finish? (p : LegPhases) (phase : Phase) (now requestStart : Instant) :
    Option LegPhases :=
  match p.begun.get phase with
  | .none => .none
  | some start =>
    let timing : PhaseSpan :=
      ⟨start, start.since (p.waitsFrom phase requestStart), now.since start⟩
    some { p with
      begun := p.begun.set phase .none
      completed := p.completed.set phase (some timing) }

end LegPhases

/-- What an event says about a phase. -/
inductive PhaseMark where
  | begins (phase : Phase)
  | ends (phase : Phase)
  deriving DecidableEq

/-- The phase an event begins or ends.  A failure ends a phase as success does. -/
def NetworkEvent.phaseMark? : NetworkEvent → Option PhaseMark
  | .dnsStart _ => some (.begins .dns)
  | .dnsStop => some (.ends .dns)
  | .dnsFailed => some (.ends .dns)
  | .connectStart _ => some (.begins .socket)
  | .connectStop => some (.ends .socket)
  | .connectFailed _ => some (.ends .socket)
  | .acceptStart _ => some (.begins .socket)
  | .acceptStop => some (.ends .socket)
  | .acceptFailed _ => some (.ends .socket)
  | .handshakeStart _ _ => some (.begins .tls)
  | .handshakeStop _ => some (.ends .tls)
  | .handshakeFailed _ _ _ => some (.ends .tls)
  | .requestHeadersStart _ => some (.begins .requestResponse)
  | .responseContentStop => some (.ends .requestResponse)
  | _ => .none

end RuntimeTrace
