import RuntimeTrace.Event.Record
import RuntimeTrace.Request.Phases

/-!
# Open and closed requests

While a request is open, events add facts to it: its phases, its connection, the
status of the response.  When it ends, these facts and its outcome remain.

## Redirects

A response whose status is a redirect opens a second leg of the request.  From
then on phases belong to that leg, and their waits count from its start.  The
leg's address is known only if the runtime reports it.
-/

namespace RuntimeTrace

/-- How a request, or its redirected leg, ended. -/
inductive Outcome where
  | completed (statusCode : Int32)
  | failed (message : String)
  deriving DecidableEq

/-- The status of the response, if there was one. -/
def Outcome.statusCode? : Outcome → Option Int32
  | .completed statusCode => some statusCode
  | .failed _ => none

/-- The outcome an event reports. -/
def NetworkEvent.outcome? : NetworkEvent → Option Outcome
  | .requestStop statusCode => some (.completed statusCode)
  | .requestFailed message => some (.failed message)
  | .requestFailedDetailed message => some (.failed message)
  | _ => none

/-- The redirected leg of a request. -/
structure RedirectLeg where
  start : Instant
  /-- Empty when the runtime does not report it. -/
  url : String
  phases : LegPhases
  /-- How the leg ended, if it reported an end of its own. -/
  outcome : Option Outcome
  finish : Option Instant
  deriving DecidableEq

/-- A leg that begins. -/
def RedirectLeg.begin (now : Instant) : RedirectLeg :=
  ⟨now, "", LegPhases.none, none, none⟩

/-- A request that has ended. -/
structure ClosedRequest where
  processId : ProcessId
  /-- The key of the request's activity. -/
  activity : String
  url : String
  start : Instant
  duration : Duration
  outcome : Outcome
  protocolVersion : Option String
  connectionId : Option Int64
  phases : LegPhases
  tlsProtocol : Option String
  handshakeError : Option String
  /-- The status of the last response headers, those of a redirect included. -/
  responseStatus : Option Int32
  redirect : Option RedirectLeg
  deriving DecidableEq

/-- When the request ended. -/
def ClosedRequest.finish (r : ClosedRequest) : Instant := r.start.plus r.duration

/-- The address of a request, empty when its scheme is unknown.  Port zero is not
written. -/
def requestUrl (scheme host : String) (port : UInt32) (path : String) : String :=
  if scheme = "" then ""
  else if port = 0 then scheme ++ "://" ++ host ++ path
  else scheme ++ "://" ++ host ++ ":" ++ toString port.toNat ++ path

/-- The version of the protocol; a major version of zero means that it is not
known. -/
def protocolVersion? (major minor : UInt8) : Option String :=
  if major = 0 then none
  else some (toString major.toNat ++ "." ++ toString minor.toNat)

/-- A status that sends the request elsewhere. -/
def isRedirectStatus (statusCode : Int32) : Bool :=
  300 ≤ statusCode.toInt && statusCode.toInt ≤ 308

/-- A request that goes on. -/
structure OpenRequest where
  url : String
  start : Instant
  protocolVersion : Option String
  connectionId : Option Int64
  phases : LegPhases
  tlsProtocol : Option String
  handshakeError : Option String
  responseStatus : Option Int32
  redirect : Option RedirectLeg
  deriving DecidableEq

namespace OpenRequest

/-- A request that begins. -/
def begin (url : String) (start : Instant) (protocolVersion : Option String) : OpenRequest :=
  ⟨url, start, protocolVersion, none, LegPhases.none, none, none, none, none⟩

/-- The request, ended now. -/
def close (r : OpenRequest) (processId : ProcessId) (activity : String) (now : Instant)
    (outcome : Outcome) : ClosedRequest where
  processId := processId
  activity := activity
  url := r.url
  start := r.start
  duration := now.since r.start
  outcome := outcome
  protocolVersion := r.protocolVersion
  connectionId := r.connectionId
  phases := r.phases
  tlsProtocol := r.tlsProtocol
  handshakeError := r.handshakeError
  responseStatus := r.responseStatus
  redirect := r.redirect

/-- The phases of the current leg. -/
def activePhases (r : OpenRequest) : LegPhases :=
  match r.redirect with
  | some leg => leg.phases
  | none => r.phases

/-- The start of the current leg. -/
def activeStart (r : OpenRequest) : Instant :=
  match r.redirect with
  | some leg => leg.start
  | none => r.start

/-- Replaces the phases of the current leg. -/
def setActivePhases (r : OpenRequest) (phases : LegPhases) : OpenRequest :=
  match r.redirect with
  | some leg => { r with redirect := some { leg with phases := phases } }
  | none => { r with phases := phases }

/-- Takes down what an event says about the request apart from its phases. -/
def note (r : OpenRequest) (now : Instant) : NetworkEvent → OpenRequest
  | .handshakeStop protocol => { r with tlsProtocol := some (securityProtocolName protocol) }
  | .handshakeFailed _ _ message => { r with handshakeError := some message }
  | .requestHeadersStart connectionId =>
    { r with connectionId := connectionId.or r.connectionId }
  | .responseHeadersStop statusCode =>
    { r with
      responseStatus := some statusCode
      redirect := if isRedirectStatus statusCode then some (.begin now) else r.redirect }
  | .redirect url =>
    { r with redirect := some { r.redirect.getD (.begin now) with url := url } }
  | .requestLeftQueue timeOnQueueMs _ _ =>
    r.setActivePhases { r.activePhases with queueing := some (Duration.ofMillis timeOnQueueMs) }
  | .connectionEstablished versionMajor versionMinor connectionId _ _ _ _ =>
    { r with
      connectionId := connectionId.or r.connectionId
      protocolVersion := (protocolVersion? versionMajor versionMinor).or r.protocolVersion }
  | _ => r

/-- Begins or ends a phase of the current leg; a phase that has not begun cannot
end. -/
def mark? (r : OpenRequest) (now : Instant) : PhaseMark → Option OpenRequest
  | .begins phase => some (r.setActivePhases (r.activePhases.begin phase now))
  | .ends phase => (r.activePhases.finish? phase now r.activeStart).map r.setActivePhases

/-- Takes in an event of a part of the request, and says whether it fitted: the
end of a phase that has not begun does not. -/
def addDetail (r : OpenRequest) (now : Instant) (event : NetworkEvent) : OpenRequest × Bool :=
  let noted := r.note now event
  match event.phaseMark? with
  | none => (noted, true)
  | some mark =>
    match noted.mark? now mark with
    | some marked => (marked, true)
    | none => (noted, false)

end OpenRequest
end RuntimeTrace
