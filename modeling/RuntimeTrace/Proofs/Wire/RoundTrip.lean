import RuntimeTrace.ProcessState
import RuntimeTrace.Proofs.Wire.Fields

/-!
# Events are read back

A payload has no names and no lengths: it is the fields of an event in an agreed order, and
`NetworkEvent.fields` and `NetworkEvent.ofWire?` each know that order on their own.  This
file shows that they agree, for every event of the four sources, whatever a newer runtime
appends to the payload.

Two things an event may contain cannot be told from its bytes.  Text ends at a zero unit, so
a character that is written as one would end it early.  And a connection without a number
writes no number; where other fields follow, they would be read as the number.  An event with
neither is *complete* (`NetworkEvent.Complete`).

A process reads an event and its binary form alike: both are of the family of network events,
so they are read or left out together, and once the bytes are an event again there is no
difference left (`binary_form_agrees`).
-/

namespace RuntimeTrace

open Wire

/-- The text of a field. -/
def Wire.Field.text? : Field → Option String
  | .text s => some s
  | _ => none

namespace NetworkEvent

/-- All text of an event. -/
def texts (event : NetworkEvent) : List String := event.fields.filterMap Field.text?

/-- The number of a connection, in the events that are about one. -/
def connectionId? : NetworkEvent → Option (Option Int64)
  | .connectionEstablished _ _ id _ _ _ _ => some id
  | .connectionClosed _ _ id => some id
  | .requestHeadersStart id => some id
  | _ => none

/-- The bytes of the event say everything about it: no text holds the character that is written
as the end of text, and a connection has a number. -/
structure Complete (event : NetworkEvent) : Prop where
  texts : ∀ s ∈ event.texts, Char.ofNat 0 ∉ s.toList
  connection : event.connectionId? ≠ some none

theorem Complete.text {event : NetworkEvent} (h : event.Complete) {s : String}
    (hs : Field.text s ∈ event.fields) : Char.ofNat 0 ∉ s.toList :=
  h.texts s (List.mem_filterMap.mpr ⟨_, hs, rfl⟩)

theorem Complete.exists_id {event : NetworkEvent} (h : event.Complete) {id? : Option Int64}
    (hid : event.connectionId? = some id?) : ∃ id, id? = some id := by
  cases id? with
  | none => exact absurd hid h.connection
  | some id => exact ⟨id, rfl⟩

/-! ## The fields of an event -/

theorem textField_bytes {s : String} (h : Char.ofNat 0 ∉ s.toList) (rest : List UInt8) :
    textField ((Field.text s).bytes ++ rest) = (s, rest) :=
  Read.orElse_of_some (readText_bytes h rest) ""

@[simp] theorem uint8Field_bytes (n : UInt8) (rest : List UInt8) :
    uint8Field ((Field.uint8 n).bytes ++ rest) = (n, rest) :=
  Read.orElse_of_some (readUInt8_bytes n rest) 0

@[simp] theorem uint32Field_bytes (n : UInt32) (rest : List UInt8) :
    uint32Field ((Field.uint32 n).bytes ++ rest) = (n, rest) :=
  Read.orElse_of_some (readUInt32_bytes n rest) 0

@[simp] theorem int32Field_bytes (n : Int32) (rest : List UInt8) :
    int32Field ((Field.int32 n).bytes ++ rest) = (n, rest) :=
  Read.orElse_of_some (readInt32_bytes n rest) 0

@[simp] theorem int64Field_bytes (n : Int64) (rest : List UInt8) :
    int64Field ((Field.int64 n).bytes ++ rest) = (n, rest) :=
  Read.orElse_of_some (readInt64_bytes n rest) 0

@[simp] theorem binary64Field_bytes (x : Binary64) (rest : List UInt8) :
    binary64Field ((Field.binary64 x).bytes ++ rest) = (x, rest) :=
  Read.orElse_of_some (readBinary64_bytes x rest) Binary64.zero

@[simp] theorem boolField_bytes (b : Bool) (rest : List UInt8) :
    boolField ((Field.bool b).bytes ++ rest) = (b, rest) :=
  Read.orElse_of_some (readBool_bytes b rest) false

/-! ## The four sources -/

variable {event : NetworkEvent}

theorem ofHttp?_layoutBytes (hevent : event.provider = .http) (h : event.Complete)
    (trailing : List UInt8) :
    ofHttp? event.eventId (layoutBytes event.fields ++ trailing) = some event := by
  cases event with
  | requestStart scheme host port path major minor =>
    have hscheme := h.text (s := scheme) (by simp [fields])
    have hhost := h.text (s := host) (by simp [fields])
    have hpath := h.text (s := path) (by simp [fields])
    simp [eventId, fields, ofHttp?, textField_bytes, hscheme, hhost, hpath]
  | requestFailed message | requestFailedDetailed message | redirect message =>
    have hmessage := h.text (s := message) (by simp [fields])
    simp [eventId, fields, ofHttp?, textField_bytes, hmessage]
  | connectionEstablished major minor id? scheme host port remote =>
    obtain ⟨id, rfl⟩ := h.exists_id rfl
    have hscheme := h.text (s := scheme) (by simp [fields])
    have hhost := h.text (s := host) (by simp [fields])
    have hremote := h.text (s := remote) (by simp [fields])
    simp [eventId, fields, connectionField, ofHttp?, textField_bytes, hscheme, hhost, hremote]
  | connectionClosed major minor id? =>
    obtain ⟨id, rfl⟩ := h.exists_id rfl
    simp [eventId, fields, connectionField, ofHttp?]
  | requestHeadersStart id? =>
    obtain ⟨id, rfl⟩ := h.exists_id rfl
    simp [eventId, fields, connectionField, ofHttp?]
  | requestStop | requestLeftQueue | requestContentStop | responseHeadersStop =>
    simp [eventId, fields, ofHttp?]
  | requestHeadersStop | requestContentStart | responseHeadersStart | responseContentStart
  | responseContentStop => rfl
  | _ => exact absurd hevent (by simp [provider])

theorem ofDns?_layoutBytes (hevent : event.provider = .dns) (h : event.Complete)
    (trailing : List UInt8) :
    ofDns? event.eventId (layoutBytes event.fields ++ trailing) = some event := by
  cases event with
  | dnsStart host =>
    have hhost := h.text (s := host) (by simp [fields])
    simp [eventId, fields, ofDns?, textField_bytes, hhost]
  | dnsStop | dnsFailed => rfl
  | _ => exact absurd hevent (by simp [provider])

theorem ofSockets?_layoutBytes (hevent : event.provider = .sockets) (h : event.Complete)
    (trailing : List UInt8) :
    ofSockets? event.eventId (layoutBytes event.fields ++ trailing) = some event := by
  cases event with
  | connectStart text | connectFailed text | acceptStart text | acceptFailed text =>
    have htext := h.text (s := text) (by simp [fields])
    simp [eventId, fields, ofSockets?, textField_bytes, htext]
  | connectStop | acceptStop => rfl
  | _ => exact absurd hevent (by simp [provider])

theorem ofSecurity?_layoutBytes (hevent : event.provider = .security) (h : event.Complete)
    (trailing : List UInt8) :
    ofSecurity? event.eventId (layoutBytes event.fields ++ trailing) = some event := by
  cases event with
  | handshakeStart isServer host =>
    have hhost := h.text (s := host) (by simp [fields])
    simp [eventId, fields, ofSecurity?, textField_bytes, hhost]
  | handshakeStop protocol => simp [eventId, fields, ofSecurity?]
  | handshakeFailed isServer elapsed message =>
    have hmessage := h.text (s := message) (by simp [fields])
    simp [eventId, fields, ofSecurity?, textField_bytes, hmessage]
  | _ => exact absurd hevent (by simp [provider])

/-- **An event is read back** from its bytes and anything behind them. -/
theorem ofWire?_payloadBytes (h : event.Complete) (trailing : List UInt8) :
    ofWire? event.provider event.eventId (event.payloadBytes ++ trailing) = some event := by
  unfold ofWire? payloadBytes
  split
  · rename_i hevent
    exact ofHttp?_layoutBytes hevent h trailing
  · rename_i hevent
    exact ofDns?_layoutBytes hevent h trailing
  · rename_i hevent
    exact ofSockets?_layoutBytes hevent h trailing
  · rename_i hevent
    exact ofSecurity?_layoutBytes hevent h trailing

/-! ## A process reads both forms alike -/

/-- Bytes that are an event do to a process what the event does. -/
theorem step_of_ofWire? {provider : NetworkProvider} {eventId : UInt16} {data : List UInt8}
    (h : ofWire? provider eventId data = some event) (s : ProcessState) (context : EventContext) :
    s.step ⟨context, .networkBytes provider eventId data⟩ = s.step ⟨context, .network event⟩ := by
  have habsorb : s.absorb ⟨context, .networkBytes provider eventId data⟩ =
      s.absorb ⟨context, .network event⟩ := by
    show s.onNetworkBytes context provider eventId data = s.onNetwork context event
    rw [ProcessState.onNetworkBytes, h]
  have hreads : s.reads (.networkBytes provider eventId data) = s.reads (.network event) := rfl
  rw [ProcessState.step, ProcessState.step, habsorb, hreads]

/-- **The binary form of an event is the event.**  An event whose bytes say everything about
it is read back from them, whatever a newer runtime appends; and so in any state and under
any choice of families a process makes of the bytes exactly what it makes of the event: the
same interval, the same state and the same counts. -/
theorem binary_form_agrees (event : NetworkEvent) (h : event.Complete) (trailing : List UInt8) :
    ofWire? event.provider event.eventId (event.payloadBytes ++ trailing) = some event ∧
    ∀ (s : ProcessState) (context : EventContext),
      s.step ⟨context,
          .networkBytes event.provider event.eventId (event.payloadBytes ++ trailing)⟩ =
        s.step ⟨context, .network event⟩ :=
  ⟨ofWire?_payloadBytes h trailing, step_of_ofWire? (ofWire?_payloadBytes h trailing)⟩

/-- Its remote address has a character beyond the basic plane, and its number is negative. -/
def farConnection : NetworkEvent :=
  .connectionEstablished 1 1 (some (-2)) "https" "h" 443 (String.ofList [Char.ofNat 0x1F310])

theorem binary_form_agrees_farConnection :
    farConnection.Complete ∧
    (farConnection.payloadBytes.drop 2).take 8 = 0xFE :: List.replicate 7 0xFF ∧
    farConnection.payloadBytes.reverse.take 6 = [0, 0, 0xDF, 0x10, 0xD8, 0x3C] ∧
    ofWire? .http 4 (farConnection.payloadBytes ++ [0x41, 0, 7]) = some farConnection := by
  have hcomplete : farConnection.Complete := ⟨by decide, by decide⟩
  exact ⟨hcomplete, by decide, by decide,
    (binary_form_agrees farConnection hcomplete [0x41, 0, 7]).1⟩

end NetworkEvent
end RuntimeTrace
