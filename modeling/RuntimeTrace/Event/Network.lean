import RuntimeTrace.Binary64

/-!
# Network events

Four event sources of the runtime report on an HTTP request: the client itself,
name resolution, sockets and transport security.  Each numbers its own events, so
an event is known by its source and its number; `NetworkEvent` has one
constructor for each such pair, with the fields the event carries.

The number of a negotiated security protocol is a set of flags of which only the
usual combinations have names.
-/

namespace RuntimeTrace

/-- An event source that reports one part of a request. -/
inductive NetworkProvider where
  | http
  | dns
  | sockets
  | security
  deriving DecidableEq, Repr

namespace NetworkProvider

/-- The name a source is registered under. -/
def registeredName : NetworkProvider → String
  | .http => "System.Net.Http"
  | .dns => "System.Net.NameResolution"
  | .sockets => "System.Net.Sockets"
  | .security => "System.Net.Security"

/-- The source registered under a name. -/
def ofRegisteredName? (name : String) : Option NetworkProvider :=
  if name = "System.Net.Http" then some .http
  else if name = "System.Net.NameResolution" then some .dns
  else if name = "System.Net.Sockets" then some .sockets
  else if name = "System.Net.Security" then some .security
  else none

/-- The short name used in records. -/
def label : NetworkProvider → String
  | .http => "http"
  | .dns => "dns"
  | .sockets => "sockets"
  | .security => "security"

/-- The source with a short name. -/
def ofLabel? (name : String) : Option NetworkProvider :=
  if name = "http" then some .http
  else if name = "dns" then some .dns
  else if name = "sockets" then some .sockets
  else if name = "security" then some .security
  else none

end NetworkProvider

/-- One event of a network source. -/
inductive NetworkEvent where
  | requestStart (scheme host : String) (port : UInt32) (path : String)
      (versionMajor versionMinor : UInt8)
  | requestStop (statusCode : Int32)
  | requestFailed (message : String)
  /-- Follows a failure and carries the whole exception text. -/
  | requestFailedDetailed (message : String)
  | connectionEstablished (versionMajor versionMinor : UInt8) (connectionId : Option Int64)
      (scheme host : String) (port : UInt32) (remoteAddress : String)
  | connectionClosed (versionMajor versionMinor : UInt8) (connectionId : Option Int64)
  | requestLeftQueue (timeOnQueueMs : Binary64) (versionMajor versionMinor : UInt8)
  | requestHeadersStart (connectionId : Option Int64)
  | requestHeadersStop
  | requestContentStart
  | requestContentStop (contentLength : Int64)
  | responseHeadersStart
  | responseHeadersStop (statusCode : Int32)
  | responseContentStart
  | responseContentStop
  | redirect (redirectUrl : String)
  | dnsStart (host : String)
  | dnsStop
  | dnsFailed
  | connectStart (address : String)
  | connectStop
  | connectFailed (message : String)
  | acceptStart (address : String)
  | acceptStop
  | acceptFailed (message : String)
  | handshakeStart (isServer : Bool) (targetHost : String)
  | handshakeStop (protocol : UInt32)
  | handshakeFailed (isServer : Bool) (elapsedMs : Binary64) (message : String)
  deriving DecidableEq

/-- The name of a negotiated security protocol; a combination without a name is
shown as its number. -/
def securityProtocolName (protocol : UInt32) : String :=
  if protocol = 0 then "None"
  else if protocol = 12 then "SSL 2.0"
  else if protocol = 48 then "SSL 3.0"
  else if protocol = 192 then "TLS 1.0"
  else if protocol = 240 then "Default"
  else if protocol = 768 then "TLS 1.1"
  else if protocol = 3072 then "TLS 1.2"
  else if protocol = 12288 then "TLS 1.3"
  else toString protocol.toNat

end RuntimeTrace
