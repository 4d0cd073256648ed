import RuntimeTrace.Event.Network
import RuntimeTrace.Wire.Cursor
import RuntimeTrace.Wire.Field

/-!
# The binary form of network events

An event is sent as its source, its number and its fields in a fixed order.
`NetworkEvent.fields` is that order from the producer's side; `NetworkEvent.ofWire?`
reads it back.

Reading is lenient in one direction only.  Newer runtimes append fields, so bytes
after the last known field are ignored, and a payload of an older runtime simply
ends early: a field that is missing reads as zero, as empty text or as false.
A connection number is the one field that may honestly be absent.  An event
number that a source does not know is not an event at all.
-/

namespace RuntimeTrace
namespace NetworkEvent

open Wire

/-- The source of an event. -/
def provider : NetworkEvent → NetworkProvider
  | .requestStart .. | .requestStop .. | .requestFailed .. | .requestFailedDetailed ..
  | .connectionEstablished .. | .connectionClosed .. | .requestLeftQueue ..
  | .requestHeadersStart .. | .requestHeadersStop | .requestContentStart
  | .requestContentStop .. | .responseHeadersStart | .responseHeadersStop ..
  | .responseContentStart | .responseContentStop | .redirect .. => .http
  | .dnsStart .. | .dnsStop | .dnsFailed => .dns
  | .connectStart .. | .connectStop | .connectFailed .. | .acceptStart .. | .acceptStop
  | .acceptFailed .. => .sockets
  | .handshakeStart .. | .handshakeStop .. | .handshakeFailed .. => .security

/-- The number of an event at its source. -/
def eventId : NetworkEvent → UInt16
  | .requestStart .. => 1
  | .requestStop .. => 2
  | .requestFailed .. => 3
  | .connectionEstablished .. => 4
  | .connectionClosed .. => 5
  | .requestLeftQueue .. => 6
  | .requestHeadersStart .. => 7
  | .requestHeadersStop => 8
  | .requestContentStart => 9
  | .requestContentStop .. => 10
  | .responseHeadersStart => 11
  | .responseHeadersStop .. => 12
  | .responseContentStart => 13
  | .responseContentStop => 14
  | .requestFailedDetailed .. => 15
  | .redirect .. => 16
  | .dnsStart .. => 1
  | .dnsStop => 2
  | .dnsFailed => 3
  | .connectStart .. => 1
  | .connectStop => 2
  | .connectFailed .. => 3
  | .acceptStart .. => 4
  | .acceptStop => 5
  | .acceptFailed .. => 6
  | .handshakeStart .. => 1
  | .handshakeStop .. => 2
  | .handshakeFailed .. => 3

/-- A connection number as a field, where there is one. -/
def connectionField : Option Int64 → List Field
  | some id => [.int64 id]
  | none => []

/-- The fields of an event in the order a producer writes them. -/
def fields : NetworkEvent → List Field
  | .requestStart scheme host port path major minor =>
    [.text scheme, .text host, .uint32 port, .text path, .uint8 major, .uint8 minor]
  | .requestStop status => [.int32 status]
  | .requestFailed message => [.text message]
  | .requestFailedDetailed message => [.text message]
  | .connectionEstablished major minor id scheme host port remote =>
    [.uint8 major, .uint8 minor] ++ connectionField id ++
      [.text scheme, .text host, .uint32 port, .text remote]
  | .connectionClosed major minor id => [.uint8 major, .uint8 minor] ++ connectionField id
  | .requestLeftQueue time major minor => [.binary64 time, .uint8 major, .uint8 minor]
  | .requestHeadersStart id => connectionField id
  | .requestContentStop length => [.int64 length]
  | .responseHeadersStop status => [.int32 status]
  | .redirect url => [.text url]
  | .dnsStart host => [.text host]
  | .connectStart address => [.text address]
  | .connectFailed message => [.text message]
  | .acceptStart address => [.text address]
  | .acceptFailed message => [.text message]
  | .handshakeStart isServer host => [.bool isServer, .text host]
  | .handshakeStop protocol => [.uint32 protocol]
  | .handshakeFailed isServer elapsed message =>
    [.bool isServer, .binary64 elapsed, .text message]
  | .requestHeadersStop | .requestContentStart | .responseHeadersStart
  | .responseContentStart | .responseContentStop | .dnsStop | .dnsFailed | .connectStop
  | .acceptStop => []

/-- The payload a producer writes for an event. -/
def payloadBytes (event : NetworkEvent) : List UInt8 := layoutBytes event.fields

/-! ## Reading -/

/-- Text, empty where there is none. -/
def textField (bytes : List UInt8) : String × List UInt8 := readText.orElse "" bytes

/-- An unsigned byte, zero where there is none. -/
def uint8Field (bytes : List UInt8) : UInt8 × List UInt8 := readUInt8.orElse 0 bytes

/-- An unsigned word, zero where there is none. -/
def uint32Field (bytes : List UInt8) : UInt32 × List UInt8 := readUInt32.orElse 0 bytes

/-- A signed word, zero where there is none. -/
def int32Field (bytes : List UInt8) : Int32 × List UInt8 := readInt32.orElse 0 bytes

/-- A signed long word, zero where there is none. -/
def int64Field (bytes : List UInt8) : Int64 × List UInt8 := readInt64.orElse 0 bytes

/-- A double, zero where there is none. -/
def binary64Field (bytes : List UInt8) : Binary64 × List UInt8 :=
  readBinary64.orElse Binary64.zero bytes

/-- A truth value, false where there is none. -/
def boolField (bytes : List UInt8) : Bool × List UInt8 := readBool.orElse false bytes

/-- Reads an event of the HTTP client. -/
def ofHttp? (eventId : UInt16) (bytes : List UInt8) : Option NetworkEvent :=
  if eventId = 1 then
    let (scheme, bytes) := textField bytes
    let (host, bytes) := textField bytes
    let (port, bytes) := uint32Field bytes
    let (path, bytes) := textField bytes
    let (major, bytes) := uint8Field bytes
    let (minor, _) := uint8Field bytes
    some (.requestStart scheme host port path major minor)
  else if eventId = 2 then some (.requestStop (int32Field bytes).1)
  else if eventId = 3 then some (.requestFailed (textField bytes).1)
  else if eventId = 4 then
    let (major, bytes) := uint8Field bytes
    let (minor, bytes) := uint8Field bytes
    let (id, bytes) := readInt64 bytes
    let (scheme, bytes) := textField bytes
    let (host, bytes) := textField bytes
    let (port, bytes) := uint32Field bytes
    let (remote, _) := textField bytes
    some (.connectionEstablished major minor id scheme host port remote)
  else if eventId = 5 then
    let (major, bytes) := uint8Field bytes
    let (minor, bytes) := uint8Field bytes
    some (.connectionClosed major minor (readInt64 bytes).1)
  else if eventId = 6 then
    let (time, bytes) := binary64Field bytes
    let (major, bytes) := uint8Field bytes
    let (minor, _) := uint8Field bytes
    some (.requestLeftQueue time major minor)
  else if eventId = 7 then some (.requestHeadersStart (readInt64 bytes).1)
  else if eventId = 8 then some .requestHeadersStop
  else if eventId = 9 then some .requestContentStart
  else if eventId = 10 then some (.requestContentStop (int64Field bytes).1)
  else if eventId = 11 then some .responseHeadersStart
  else if eventId = 12 then some (.responseHeadersStop (int32Field bytes).1)
  else if eventId = 13 then some .responseContentStart
  else if eventId = 14 then some .responseContentStop
  else if eventId = 15 then some (.requestFailedDetailed (textField bytes).1)
  else if eventId = 16 then some (.redirect (textField bytes).1)
  else none

/-- Reads an event of name resolution. -/
def ofDns? (eventId : UInt16) (bytes : List UInt8) : Option NetworkEvent :=
  if eventId = 1 then some (.dnsStart (textField bytes).1)
  else if eventId = 2 then some .dnsStop
  else if eventId = 3 then some .dnsFailed
  else none

/-- Reads an event of the sockets. -/
def ofSockets? (eventId : UInt16) (bytes : List UInt8) : Option NetworkEvent :=
  if eventId = 1 then some (.connectStart (textField bytes).1)
  else if eventId = 2 then some .connectStop
  else if eventId = 3 then some (.connectFailed (textField bytes).1)
  else if eventId = 4 then some (.acceptStart (textField bytes).1)
  else if eventId = 5 then some .acceptStop
  else if eventId = 6 then some (.acceptFailed (textField bytes).1)
  else none

/-- Reads an event of transport security. -/
def ofSecurity? (eventId : UInt16) (bytes : List UInt8) : Option NetworkEvent :=
  if eventId = 1 then
    let (isServer, bytes) := boolField bytes
    let (host, _) := textField bytes
    some (.handshakeStart isServer host)
  else if eventId = 2 then some (.handshakeStop (uint32Field bytes).1)
  else if eventId = 3 then
    let (isServer, bytes) := boolField bytes
    let (elapsed, bytes) := binary64Field bytes
    let (message, _) := textField bytes
    some (.handshakeFailed isServer elapsed message)
  else none

/-- Reads the binary form of an event; none when its source does not know the
number. -/
def ofWire? (provider : NetworkProvider) (eventId : UInt16) (bytes : List UInt8) :
    Option NetworkEvent :=
  match provider with
  | .http => ofHttp? eventId bytes
  | .dns => ofDns? eventId bytes
  | .sockets => ofSockets? eventId bytes
  | .security => ofSecurity? eventId bytes

end NetworkEvent
end RuntimeTrace
