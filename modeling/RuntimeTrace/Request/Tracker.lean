import RuntimeTrace.Activity.Key
import RuntimeTrace.Misses
import RuntimeTrace.Request.State
import RuntimeTrace.Table

/-!
# Following requests

A request is an activity, and its parts --- name resolution, connection,
handshake, transfer --- are activities below it.  Open requests are kept by the
key of their activity.  An event of a part finds its request under its own key or,
failing that, under its parent's.

## Redirected requests

A client that follows a redirect starts a request below the first one.  Such a
start does not open a request of its own: it becomes the second leg of the first,
and its key an alias of the first one's key.  The end of an alias ends the leg; the
end of the request itself forgets all its aliases.

Two facts hold in every state that events lead to: no key is both a request and an
alias, and an alias leads to an open request with a second leg.
-/

namespace RuntimeTrace

/-- The requests of a process. -/
structure RequestTracker where
  /-- Open requests by the key of their activity. -/
  requests : Table String OpenRequest
  /-- Keys of second legs, with the keys of their requests. -/
  aliases : Table String String
  misses : Misses

namespace RequestTracker

/-- No request is open. -/
def start : RequestTracker := ⟨Table.empty, Table.empty, Misses.none⟩

/-- Requests that are open. -/
def openCount (t : RequestTracker) : Nat := t.requests.size

/-- The key of the open request with a second leg to which a new activity
belongs. -/
def redirectingParent? (t : RequestTracker) (id : ActivityId) : Option String := do
  let parent ← id.parentKey?
  let request ← t.requests.get? parent
  if request.redirect.isSome then some parent else none

/-- The new activity is the second leg of an open request. -/
def attach (t : RequestTracker) (key parent url : String) (now : Instant) : RequestTracker :=
  { t with
    requests := t.requests.modify parent fun request =>
      { request with
        redirect := request.redirect.map fun leg =>
          { leg with start := now, url := if url = "" then leg.url else url } }
    aliases := t.aliases.insert key parent }

/-- A request starts. -/
def begin (t : RequestTracker) (context : EventContext) (url : String)
    (protocolVersion : Option String) : RequestTracker :=
  let key := context.activityId.key
  if t.requests.contains key || t.aliases.contains key then
    { t with misses := t.misses.duplicateStart }
  else
    match t.redirectingParent? context.activityId with
    | some parent => t.attach key parent url context.time
    | none =>
      { t with requests := t.requests.insert key (.begin url context.time protocolVersion) }

/-- A request or a second leg ends. -/
def finish (t : RequestTracker) (context : EventContext) (outcome : Outcome) :
    Option ClosedRequest × RequestTracker :=
  let key := context.activityId.key
  match t.requests.get? key with
  | some request =>
    (some (request.close context.processId key context.time outcome),
      { t with requests := t.requests.erase key
               aliases := t.aliases.filter fun _ root => root ≠ key })
  | none =>
    match t.aliases.get? key with
    | some root =>
      (none,
        { t with
          aliases := t.aliases.erase key
          requests := t.requests.modify root fun request =>
            { request with
              redirect := request.redirect.map fun leg =>
                { leg with outcome := some outcome, finish := some context.time } } })
    | none => (none, { t with misses := t.misses.orphanStop })

/-- The request that a key stands for, itself or as an alias. -/
def rootOf? (t : RequestTracker) (key : String) : Option String :=
  if t.requests.contains key then some key else t.aliases.get? key

/-- The request that an activity belongs to. -/
def resolve? (t : RequestTracker) (id : ActivityId) : Option String :=
  (t.rootOf? id.key).or (id.parentKey?.bind t.rootOf?)

/-- A part of a request reports. -/
def addDetail (t : RequestTracker) (context : EventContext) (event : NetworkEvent) :
    RequestTracker :=
  match (t.resolve? context.activityId).bind fun key => (t.requests.get? key).map (key, ·) with
  | none => { t with misses := t.misses.orphanDetail }
  | some (key, request) =>
    let (changed, fitted) := request.addDetail context.time event
    { t with
      requests := t.requests.insert key changed
      misses := if fitted then t.misses else t.misses.orphanDetail }

/-- Takes in an event; gives the request it ended, if any. -/
def step (t : RequestTracker) (context : EventContext) (event : NetworkEvent) :
    Option ClosedRequest × RequestTracker :=
  match event with
  | .requestStart scheme host port path versionMajor versionMinor =>
    (none, t.begin context (requestUrl scheme host port path)
      (protocolVersion? versionMajor versionMinor))
  | event =>
    match event.outcome? with
    | some outcome => t.finish context outcome
    | none => (none, t.addDetail context event)

/-- A payload arrived that is no event. -/
def missUndecodable (t : RequestTracker) : RequestTracker :=
  { t with misses := t.misses.undecodable }

end RequestTracker
end RuntimeTrace
