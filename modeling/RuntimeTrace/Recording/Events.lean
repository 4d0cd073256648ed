import RuntimeTrace.Event.Network
import RuntimeTrace.Event.Runtime
import RuntimeTrace.Recording.Slot

/-!
# Events in records

An event is an object that names its kind under `event` and holds its fields
beside it, or an array of the kind and the fields.  For every family of events
this file has the two directions: `toJson` writes the object form with all fields
filled in, and `ofJson?` reads either form.

Which kinds a family has, what their fields are called and which of them may be
left out is the format; nothing else in the library depends on it.
-/

namespace RuntimeTrace
namespace Recording

/-- An event as the name of its kind and its fields. -/
def tagged? : Json → Option (String × Body)
  | .object members =>
    match Json.lookupAll "event" members with
    | [.string kind] => some (kind, .named (members.filter fun m => m.1 != "event"))
    | _ => none
  | .array (.string kind :: rest) => some (kind, .positional rest)
  | _ => none

/-- The object form of an event. -/
def taggedObject (kind : String) (fields : List (String × Json)) : Json :=
  .object (("event", .string kind) :: fields)

/-- A generation's sizes, with or without names. -/
def generationChange? (v : Json) : Option GenerationChange := do
  match ← (← Body.ofJson? v).slots? ["size_before", "size_after"] with
  | [before, after] => return ⟨← before.required uint64?, ← after.required uint64?⟩
  | _ => none

/-- The names of a generation's sizes and their values. -/
def generationChangeJson (g : GenerationChange) : Json :=
  .object [("size_before", .nat g.sizeBefore.toNat), ("size_after", .nat g.sizeAfter.toNat)]

/-- Exactly four sizes. -/
def generationSizes? (v : Json) : Option GenerationSizes := do
  match ← list? uint64? v with
  | [gen0, gen1, gen2, largeObjects] => return ⟨gen0, gen1, gen2, largeObjects⟩
  | _ => none

/-- Four sizes as an array. -/
def generationSizesJson (s : GenerationSizes) : Json := .nats (s.toList.map UInt64.toNat)

/-- A connection number or `null`. -/
def connectionJson (id : Option Int64) : Json := Json.orNull (fun n => .int n.toInt) id

end Recording

open Recording

/-! ## Collections -/

/-- Reads an event of a collection. -/
def CollectionEvent.ofJson? (v : Json) : Option CollectionEvent := do
  let (kind, body) ← tagged? v
  if kind = "triggered" then
    match ← body.slots? ["reason"] with
    | [reason] => return .triggered (← reason.required uint32?)
    | _ => none
  else if kind = "start" then
    match ← body.slots? ["count", "depth", "reason", "gc_type"] with
    | [count, depth, reason, mode] =>
      return .start (← count.required uint32?) (← depth.required uint32?)
        (← reason.required uint32?) (← mode.required uint32?)
    | _ => none
  else if kind = "heap_stats" then
    match ← body.slots? ["generation_sizes"] with
    | [sizes] => return .heapStats (← sizes.required generationSizes?)
    | _ => none
  else if kind = "per_heap_history" then
    match ← body.slots? ["generations"] with
    | [generations] => return .perHeapHistory (← generations.required (list? generationChange?))
    | _ => none
  else if kind = "global_heap_history" then
    match ← body.slots? ["condemned_generation", "global_mechanisms"] with
    | [condemned, mechanisms] =>
      return .globalHeapHistory (← condemned.required uint32?) (← mechanisms.required uint32?)
    | _ => none
  else if kind = "suspend_begin" then
    match ← body.slots? ["reason"] with
    | [reason] => return .suspendBegin (← reason.withDefault uint32? 0)
    | _ => none
  else if kind = "restart_end" then
    match ← body.slots? [] with
    | [] => return .restartEnd
    | _ => none
  else none

/-- Writes an event of a collection. -/
def CollectionEvent.toJson : CollectionEvent → Json
  | .triggered reason => taggedObject "triggered" [("reason", .nat reason.toNat)]
  | .start count depth reason mode =>
    taggedObject "start" [("count", .nat count.toNat), ("depth", .nat depth.toNat),
      ("reason", .nat reason.toNat), ("gc_type", .nat mode.toNat)]
  | .heapStats sizes => taggedObject "heap_stats" [("generation_sizes", generationSizesJson sizes)]
  | .perHeapHistory generations =>
    taggedObject "per_heap_history" [("generations", .array (generations.map generationChangeJson))]
  | .globalHeapHistory condemned mechanisms =>
    taggedObject "global_heap_history" [("condemned_generation", .nat condemned.toNat),
      ("global_mechanisms", .nat mechanisms.toNat)]
  | .suspendBegin reason => taggedObject "suspend_begin" [("reason", .nat reason.toNat)]
  | .restartEnd => taggedObject "restart_end" []

/-! ## Waits -/

/-- Reads an event of a waiting thread. -/
def WaitEvent.ofJson? (v : Json) : Option WaitEvent := do
  let (kind, body) ← tagged? v
  if kind = "start" then
    match ← body.slots? ["flags"] with
    | [flags] => return .start (← flags.withDefault uint8? 0)
    | _ => none
  else if kind = "stop" then
    match ← body.slots? ["flags", "duration_ns"] with
    | [flags, duration] =>
      return .stop (← flags.withDefault uint8? 0) (← duration.withDefault binary64? Binary64.zero)
    | _ => none
  else if kind = "wait_handle_start" then
    match ← body.slots? ["source"] with
    | [source] => return .handleStart (← source.withDefault uint8? 0)
    | _ => none
  else if kind = "wait_handle_stop" then
    match ← body.slots? [] with
    | [] => return .handleStop
    | _ => none
  else none

/-- Writes an event of a waiting thread. -/
def WaitEvent.toJson : WaitEvent → Json
  | .start flags => taggedObject "start" [("flags", .nat flags.toNat)]
  | .stop flags duration =>
    taggedObject "stop" [("flags", .nat flags.toNat), ("duration_ns", .number duration)]
  | .handleStart source => taggedObject "wait_handle_start" [("source", .nat source.toNat)]
  | .handleStop => taggedObject "wait_handle_stop" []

/-! ## Network events -/

/-- Reads an event whose only field is text that has to be given. -/
def Recording.oneText? (body : Body) (name : String) (make : String → NetworkEvent) :
    Option NetworkEvent := do
  match ← body.slots? [name] with
  | [text] => return make (← text.required string?)
  | _ => none

/-- Reads an event without fields. -/
def Recording.noFields? (body : Body) (event : NetworkEvent) : Option NetworkEvent := do
  match ← body.slots? [] with
  | [] => return event
  | _ => none

/-- Reads a network event of the HTTP client. -/
def NetworkEvent.ofHttpJson? (kind : String) (body : Body) : Option NetworkEvent := do
  if kind = "request_start" then
    match ← body.slots? ["scheme", "host", "port", "path", "version_major", "version_minor"] with
    | [scheme, host, port, path, major, minor] =>
      return .requestStart (← scheme.required string?) (← host.required string?)
        (← port.required uint32?) (← path.required string?) (← major.withDefault uint8? 0)
        (← minor.withDefault uint8? 0)
    | _ => none
  else if kind = "request_stop" then
    match ← body.slots? ["status_code"] with
    | [status] => return .requestStop (← status.required int32?)
    | _ => none
  else if kind = "request_failed" then oneText? body "message" .requestFailed
  else if kind = "request_failed_detailed" then oneText? body "message" .requestFailedDetailed
  else if kind = "connection_established" then
    match ← body.slots? ["version_major", "version_minor", "connection_id", "scheme", "host",
        "port", "remote_address"] with
    | [major, minor, id, scheme, host, port, remote] =>
      return .connectionEstablished (← major.required uint8?) (← minor.required uint8?)
        (← id.nullable int64?) (← scheme.withDefault string? "") (← host.withDefault string? "")
        (← port.withDefault uint32? 0) (← remote.withDefault string? "")
    | _ => none
  else if kind = "connection_closed" then
    match ← body.slots? ["version_major", "version_minor", "connection_id"] with
    | [major, minor, id] =>
      return .connectionClosed (← major.required uint8?) (← minor.required uint8?)
        (← id.nullable int64?)
    | _ => none
  else if kind = "request_left_queue" then
    match ← body.slots? ["time_on_queue_ms", "version_major", "version_minor"] with
    | [time, major, minor] =>
      return .requestLeftQueue (← time.required binary64?) (← major.withDefault uint8? 0)
        (← minor.withDefault uint8? 0)
    | _ => none
  else if kind = "request_headers_start" then
    match ← body.slots? ["connection_id"] with
    | [id] => return .requestHeadersStart (← id.nullable int64?)
    | _ => none
  else if kind = "request_headers_stop" then noFields? body .requestHeadersStop
  else if kind = "request_content_start" then noFields? body .requestContentStart
  else if kind = "request_content_stop" then
    match ← body.slots? ["content_length"] with
    | [length] => return .requestContentStop (← length.withDefault int64? 0)
    | _ => none
  else if kind = "response_headers_start" then noFields? body .responseHeadersStart
  else if kind = "response_headers_stop" then
    match ← body.slots? ["status_code"] with
    | [status] => return .responseHeadersStop (← status.required int32?)
    | _ => none
  else if kind = "response_content_start" then noFields? body .responseContentStart
  else if kind = "response_content_stop" then noFields? body .responseContentStop
  else if kind = "redirect" then oneText? body "redirect_url" .redirect
  else none

/-- Reads a network event of name resolution, sockets or transport security. -/
def NetworkEvent.ofConnectionJson? (kind : String) (body : Body) : Option NetworkEvent := do
  if kind = "dns_start" then oneText? body "host" .dnsStart
  else if kind = "dns_stop" then noFields? body .dnsStop
  else if kind = "dns_failed" then noFields? body .dnsFailed
  else if kind = "connect_start" then oneText? body "address" .connectStart
  else if kind = "connect_stop" then noFields? body .connectStop
  else if kind = "connect_failed" then oneText? body "message" .connectFailed
  else if kind = "accept_start" then oneText? body "address" .acceptStart
  else if kind = "accept_stop" then noFields? body .acceptStop
  else if kind = "accept_failed" then oneText? body "message" .acceptFailed
  else if kind = "handshake_start" then
    match ← body.slots? ["is_server", "target_host"] with
    | [isServer, host] =>
      return .handshakeStart (← isServer.required bool?) (← host.required string?)
    | _ => none
  else if kind = "handshake_stop" then
    match ← body.slots? ["protocol"] with
    | [protocol] => return .handshakeStop (← protocol.required uint32?)
    | _ => none
  else if kind = "handshake_failed" then
    match ← body.slots? ["is_server", "elapsed_ms", "message"] with
    | [isServer, elapsed, message] =>
      return .handshakeFailed (← isServer.required bool?) (← elapsed.required binary64?)
        (← message.required string?)
    | _ => none
  else none

/-- Reads a network event. -/
def NetworkEvent.ofJson? (v : Json) : Option NetworkEvent := do
  let (kind, body) ← tagged? v
  (NetworkEvent.ofHttpJson? kind body).or (NetworkEvent.ofConnectionJson? kind body)

/-- Writes a network event. -/
def NetworkEvent.toJson : NetworkEvent → Json
  | .requestStart scheme host port path major minor =>
    taggedObject "request_start" [("scheme", .string scheme), ("host", .string host),
      ("port", .nat port.toNat), ("path", .string path), ("version_major", .nat major.toNat),
      ("version_minor", .nat minor.toNat)]
  | .requestStop status => taggedObject "request_stop" [("status_code", .int status.toInt)]
  | .requestFailed message => taggedObject "request_failed" [("message", .string message)]
  | .requestFailedDetailed message =>
    taggedObject "request_failed_detailed" [("message", .string message)]
  | .connectionEstablished major minor id scheme host port remote =>
    taggedObject "connection_established" [("version_major", .nat major.toNat),
      ("version_minor", .nat minor.toNat), ("connection_id", connectionJson id),
      ("scheme", .string scheme), ("host", .string host), ("port", .nat port.toNat),
      ("remote_address", .string remote)]
  | .connectionClosed major minor id =>
    taggedObject "connection_closed" [("version_major", .nat major.toNat),
      ("version_minor", .nat minor.toNat), ("connection_id", connectionJson id)]
  | .requestLeftQueue time major minor =>
    taggedObject "request_left_queue" [("time_on_queue_ms", .number time),
      ("version_major", .nat major.toNat), ("version_minor", .nat minor.toNat)]
  | .requestHeadersStart id =>
    taggedObject "request_headers_start" [("connection_id", connectionJson id)]
  | .requestHeadersStop => taggedObject "request_headers_stop" []
  | .requestContentStart => taggedObject "request_content_start" []
  | .requestContentStop length =>
    taggedObject "request_content_stop" [("content_length", .int length.toInt)]
  | .responseHeadersStart => taggedObject "response_headers_start" []
  | .responseHeadersStop status =>
    taggedObject "response_headers_stop" [("status_code", .int status.toInt)]
  | .responseContentStart => taggedObject "response_content_start" []
  | .responseContentStop => taggedObject "response_content_stop" []
  | .redirect url => taggedObject "redirect" [("redirect_url", .string url)]
  | .dnsStart host => taggedObject "dns_start" [("host", .string host)]
  | .dnsStop => taggedObject "dns_stop" []
  | .dnsFailed => taggedObject "dns_failed" []
  | .connectStart address => taggedObject "connect_start" [("address", .string address)]
  | .connectStop => taggedObject "connect_stop" []
  | .connectFailed message => taggedObject "connect_failed" [("message", .string message)]
  | .acceptStart address => taggedObject "accept_start" [("address", .string address)]
  | .acceptStop => taggedObject "accept_stop" []
  | .acceptFailed message => taggedObject "accept_failed" [("message", .string message)]
  | .handshakeStart isServer host =>
    taggedObject "handshake_start" [("is_server", .bool isServer), ("target_host", .string host)]
  | .handshakeStop protocol => taggedObject "handshake_stop" [("protocol", .nat protocol.toNat)]
  | .handshakeFailed isServer elapsed message =>
    taggedObject "handshake_failed" [("is_server", .bool isServer),
      ("elapsed_ms", .number elapsed), ("message", .string message)]

/-! ## Methods, samples and counted events -/

/-- Reads a method event. -/
def MethodLoad.ofJson? (v : Json) : Option MethodLoad := do
  let (kind, body) ← tagged? v
  if kind = "load_verbose" then
    match ← body.slots? ["method_start_address", "method_size", "method_namespace",
        "method_name", "method_signature"] with
    | [address, size, typeName, name, signature] =>
      return ⟨← address.required uint64?, ← size.required uint32?, ← typeName.required string?,
        ← name.required string?, ← signature.required string?⟩
    | _ => none
  else none

/-- Writes a method event. -/
def MethodLoad.toJson (load : MethodLoad) : Json :=
  taggedObject "load_verbose" [("method_start_address", .nat load.start.toNat),
    ("method_size", .nat load.size.toNat), ("method_namespace", .string load.typeName),
    ("method_name", .string load.name), ("method_signature", .string load.signature)]

/-- Reads a sample. -/
def Sample.ofJson? (v : Json) : Option Sample := do
  let (kind, body) ← tagged? v
  if kind = "cpu_sample" then
    match ← body.slots? [] with
    | [] => return .processor
    | _ => none
  else if kind = "allocation_tick" then
    match ← body.slots? ["type_name", "allocation_amount", "is_large"] with
    | [typeName, amount, isLarge] =>
      return .allocation (← typeName.required string?) (← amount.required uint64?)
        (← isLarge.withDefault bool? false)
    | _ => none
  else none

/-- Writes a sample. -/
def Sample.toJson : Sample → Json
  | .processor => taggedObject "cpu_sample" []
  | .allocation typeName amount isLarge =>
    taggedObject "allocation_tick" [("type_name", .string typeName),
      ("allocation_amount", .nat amount.toNat), ("is_large", .bool isLarge)]

/-- Reads an event that is counted. -/
def IncidentEvent.ofJson? (v : Json) : Option IncidentEvent := do
  let (kind, body) ← tagged? v
  if kind = "exception_start" then
    match ← body.slots? ["exception_type", "exception_message"] with
    | [typeName, message] =>
      return .exception (← typeName.required string?) (← message.withDefault string? "")
    | _ => none
  else if kind = "bulk_type" then
    match ← body.slots? ["type_id", "type_name"] with
    | [id, name] => return .typeNamed (← id.required uint64?) (← name.required string?)
    | _ => none
  else if kind = "finalize_object" then
    match ← body.slots? ["type_id"] with
    | [id] => return .finalized (← id.required uint64?)
    | _ => none
  else if kind = "thread_pool_starvation" then
    match ← body.slots? ["new_worker_thread_count"] with
    | [workers] => return .starvation (← workers.required uint32?)
    | _ => none
  else none

/-- Writes an event that is counted. -/
def IncidentEvent.toJson : IncidentEvent → Json
  | .exception typeName message =>
    taggedObject "exception_start" [("exception_type", .string typeName),
      ("exception_message", .string message)]
  | .typeNamed id name =>
    taggedObject "bulk_type" [("type_id", .nat id.toNat), ("type_name", .string name)]
  | .finalized id => taggedObject "finalize_object" [("type_id", .nat id.toNat)]
  | .starvation workers =>
    taggedObject "thread_pool_starvation" [("new_worker_thread_count", .nat workers.toNat)]

end RuntimeTrace
