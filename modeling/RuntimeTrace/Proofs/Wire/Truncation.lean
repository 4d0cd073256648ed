import Mathlib.Data.List.Forall2
import RuntimeTrace.Proofs.Wire.RoundTrip
import RuntimeTrace.Proofs.Wire.Text

/-!
# Payloads that end early

A payload may be cut off anywhere.  What an honest reader can say of the event is then
settled: a field that is there in full is what it was, text of which only a part is there is
that part, and all else is missing (`remnant`).  This file compares that with what is read.

Up to the field that is cut, and for that field itself, the two agree.  The trouble is what
lies behind it.  A number that is not there in full is left where it is, and so is the last
byte of text cut in the middle of a unit; reading goes on with the next field, and if that
field makes do with the bytes left over, it is read from them.  Then it holds a value that
nobody wrote.

So `readAll_take` describes a truncated payload in two parts: the remnant as far as the cut,
and the fields behind it as read from the `residue` of the cut field alone.  The second part
is missing, as it should be, when the residue is too short for each of those fields
(`CleanCut`).  Most layouts have no other cuts: a last field has no field behind it, and an
even number of bytes of text leaves nothing.

Main statement: `truncated_payload`.
-/

namespace RuntimeTrace
namespace Wire

/-! ## Reading too few bytes -/

theorem readNat_of_lt {width : Nat} {bytes : List UInt8} (h : bytes.length < width) :
    readNat width bytes = (none, bytes) := by
  rw [readNat, if_neg (Nat.not_le.mpr h)]

/-- A number of which not enough is there is replaced by its default. -/
theorem orElse_of_lt {α : Type} {f : Nat → α} {default : α} {bytes : List UInt8} (width : Nat)
    (h : bytes.length < width) :
    (Read.map f (readNat width)).orElse default bytes = (default, bytes) := by
  rw [Read.orElse, Read.map, readNat_of_lt h]
  rfl

/-- **Text that is cut off gives the units that are there**, and leaves the byte of a unit of
which only half is there. -/
theorem takeUnits_take {units : List UInt16} (h : 0 ∉ units) {n : Nat}
    (hn : n < (unitBytes units ++ [0, 0]).length) :
    takeUnits ((unitBytes units ++ [0, 0]).take n) =
      (units.take (n / 2), ((unitBytes units ++ [0, 0]).take n).drop (2 * (n / 2))) := by
  induction units generalizing n with
  | nil =>
    -- the cut is in the zero unit at the end
    match n, hn with
    | 0, _ => rfl
    | 1, _ => rfl
  | cons u units ih =>
    rw [List.mem_cons, not_or] at h
    rw [unitBytes_cons, List.cons_append, List.cons_append] at hn ⊢
    match n with
    | 0 => rfl
    | 1 => rfl
    | m + 2 =>
      simp only [List.length_cons] at hn
      have hhalf : (m + 2) / 2 = m / 2 + 1 := by omega
      have htwice : 2 * (m / 2 + 1) = 2 * (m / 2) + 1 + 1 := by omega
      rw [List.take_succ_cons, List.take_succ_cons, takeUnits, ofNat_value_pair,
        if_neg fun hzero => h.1 hzero.symm, ih h.2 (by omega), hhalf, htwice,
        List.take_succ_cons, List.drop_succ_cons, List.drop_succ_cons]

/-! ## Fields -/

namespace Field

/-- The least number of bytes from which a field of this kind is read. -/
def least : Field → Nat
  | .uint8 _ => 1
  | .uint32 _ | .int32 _ | .bool _ => 4
  | .int64 _ | .binary64 _ => 8
  | .text _ => 2

/-- What stands for a field of this kind that is not there. -/
def missing : Field → Field
  | .uint8 _ => .uint8 0
  | .uint32 _ => .uint32 0
  | .int32 _ => .int32 0
  | .int64 _ => .int64 0
  | .binary64 _ => .binary64 Binary64.zero
  | .bool _ => .bool false
  | .text _ => .text ""

/-- A reading as a field. -/
def ofReading {α : Type} (kind : α → Field) (reading : α × List UInt8) : Field × List UInt8 :=
  (kind reading.1, reading.2)

/-- Reads a field of this kind. -/
def read (bytes : List UInt8) : Field → Field × List UInt8
  | .uint8 _ => ofReading .uint8 (NetworkEvent.uint8Field bytes)
  | .uint32 _ => ofReading .uint32 (NetworkEvent.uint32Field bytes)
  | .int32 _ => ofReading .int32 (NetworkEvent.int32Field bytes)
  | .int64 _ => ofReading .int64 (NetworkEvent.int64Field bytes)
  | .binary64 _ => ofReading .binary64 (NetworkEvent.binary64Field bytes)
  | .bool _ => ofReading .bool (NetworkEvent.boolField bytes)
  | .text _ => ofReading .text (NetworkEvent.textField bytes)

/-- A field of which not enough is there is missing, and its bytes stay where they are. -/
theorem read_of_lt {bytes : List UInt8} {f : Field} (h : bytes.length < f.least) :
    f.read bytes = (f.missing, bytes) := by
  cases f with
  | uint8 n => exact congrArg (ofReading .uint8) (orElse_of_lt 1 h)
  | uint32 n => exact congrArg (ofReading .uint32) (orElse_of_lt 4 h)
  | int32 n => exact congrArg (ofReading .int32) (orElse_of_lt 4 h)
  | int64 n => exact congrArg (ofReading .int64) (orElse_of_lt 8 h)
  | binary64 x => exact congrArg (ofReading .binary64) (orElse_of_lt 8 h)
  | bool b => exact congrArg (ofReading .bool) (orElse_of_lt 4 h)
  | text s =>
    rw [read, NetworkEvent.textField, Read.orElse, readText_of_lt h]
    rfl

end Field

/-! ## Places -/

/-- A place in the layout of an event: a field that every producer writes, or the number of a
connection, which may honestly be absent. -/
inductive Place where
  | field (f : Field)
  | connection (id? : Option Int64)
  deriving DecidableEq

namespace Place

/-- What a producer writes in a place. -/
def fields : Place → List Field
  | .field f => [f]
  | .connection id? => NetworkEvent.connectionField id?

/-- The bytes a place is written as. -/
def bytes (p : Place) : List UInt8 := layoutBytes p.fields

/-- The least number of bytes from which a place is filled. -/
def least : Place → Nat
  | .field f => f.least
  | .connection _ => 8

/-- The place with nothing in it. -/
def missing : Place → Place
  | .field f => .field f.missing
  | .connection _ => .connection none

/-- Fills a place of this kind. -/
def read (bytes : List UInt8) : Place → Place × List UInt8
  | .field f => (.field (f.read bytes).1, (f.read bytes).2)
  | .connection _ => (.connection (readInt64 bytes).1, (readInt64 bytes).2)

/-- The bytes of the place say everything about it. -/
def Complete : Place → Prop
  | .field (.text s) => Char.ofNat 0 ∉ s.toList
  | .field _ => True
  | .connection id? => id?.isSome

/-- What can be said of a place of which this many bytes are there. -/
def cut (available : Nat) : Place → Place
  | .field (.text s) =>
    .field (.text (String.ofList (Utf16.decode ((Utf16.encode s.toList).take (available / 2)))))
  | p => p.missing

/-- The bytes that are left over when only so many of a place are there. -/
def leftOver (available : Nat) (p : Place) : List UInt8 :=
  match p with
  | .field (.text _) => (p.bytes.take available).drop (2 * (available / 2))
  | _ => p.bytes.take available

theorem bytes_field (f : Field) : (Place.field f).bytes = f.bytes := List.append_nil _

/-- A number is written in as many bytes as it is read from. -/
theorem length_bytes_of_ne_text {p : Place} (hp : p.Complete)
    (h : ∀ s, p ≠ .field (.text s)) : p.bytes.length = p.least := by
  match p, hp with
  | .field (.text s), _ => exact absurd rfl (h s)
  | .connection (some id), _ => rfl
  | .field (.uint8 n), _ | .field (.uint32 n), _ | .field (.int32 n), _ | .field (.int64 n), _
  | .field (.binary64 x), _ | .field (.bool b), _ => rfl

theorem length_bytes_pos {p : Place} (hp : p.Complete) : 0 < p.bytes.length := by
  match p, hp with
  | .field (.text s), _ =>
    rw [bytes_field, Field.bytes, List.length_append]
    exact Nat.lt_add_left _ (by decide)
  | .connection (some id), _ => exact (by decide : 0 < 8)
  | .field (.uint8 n), _ => exact (by decide : 0 < 1)
  | .field (.uint32 n), _ | .field (.int32 n), _ | .field (.bool b), _ =>
    exact (by decide : 0 < 4)
  | .field (.int64 n), _ | .field (.binary64 x), _ => exact (by decide : 0 < 8)

theorem cut_zero (p : Place) : p.cut 0 = p.missing := by
  unfold cut
  split
  · rfl
  · rfl

theorem read_of_lt {bytes : List UInt8} {p : Place} (h : bytes.length < p.least) :
    p.read bytes = (p.missing, bytes) := by
  cases p with
  | field f =>
    rw [read, Field.read_of_lt h]
    rfl
  | connection id? =>
    rw [read, readInt64, Read.map, readNat_of_lt (show bytes.length < 8 from h)]
    rfl

/-- **A place that is there in full is read back.** -/
theorem read_bytes {p : Place} (hp : p.Complete) (rest : List UInt8) :
    p.read (p.bytes ++ rest) = (p, rest) := by
  match p, hp with
  | .field (.text s), hs =>
    rw [bytes_field, read, Field.read, NetworkEvent.textField_bytes hs]
    rfl
  | .connection (some id), _ =>
    show (Place.connection (readInt64 ((Field.int64 id).bytes ++ rest)).1,
      (readInt64 ((Field.int64 id).bytes ++ rest)).2) = _
    rw [readInt64_bytes]
  | .field (.uint8 n), _ => simp [bytes_field, read, Field.read, Field.ofReading]
  | .field (.uint32 n), _ => simp [bytes_field, read, Field.read, Field.ofReading]
  | .field (.int32 n), _ => simp [bytes_field, read, Field.read, Field.ofReading]
  | .field (.int64 n), _ => simp [bytes_field, read, Field.read, Field.ofReading]
  | .field (.binary64 x), _ => simp [bytes_field, read, Field.read, Field.ofReading]
  | .field (.bool b), _ => simp [bytes_field, read, Field.read, Field.ofReading]

/-- Text that is cut off is read as far as it goes. -/
theorem readText_take {s : String} (hs : Char.ofNat 0 ∉ s.toList) {n : Nat}
    (hn : n < (Field.text s).bytes.length) :
    NetworkEvent.textField ((Field.text s).bytes.take n) =
      (String.ofList (Utf16.decode ((Utf16.encode s.toList).take (n / 2))),
        ((Field.text s).bytes.take n).drop (2 * (n / 2))) := by
  have hlength : ((Field.text s).bytes.take n).length = n := by
    rw [List.length_take, Nat.min_eq_left (Nat.le_of_lt hn)]
  by_cases hshort : n < 2
  · have hhalf : n / 2 = 0 := by omega
    rw [NetworkEvent.textField, Read.orElse, readText_of_lt (by rw [hlength]; exact hshort), hhalf]
    rfl
  · have hzero : 0 ∉ Utf16.encode s.toList := fun h => hs (Utf16.zero_mem_encode.mp h)
    rw [NetworkEvent.textField, Read.orElse, readText, if_neg (by rw [hlength]; exact hshort),
      Field.bytes, takeUnits_take hzero hn]
    rfl

/-- **A place that is cut off** is read as what can be said of it. -/
theorem read_take {p : Place} (hp : p.Complete) {n : Nat} (hn : n < p.bytes.length) :
    p.read (p.bytes.take n) = (p.cut n, p.leftOver n) := by
  by_cases htext : ∃ s, p = .field (.text s)
  · obtain ⟨s, rfl⟩ := htext
    rw [bytes_field] at hn
    rw [leftOver, bytes_field, read, Field.read, readText_take hp hn]
    rfl
  · have hne : ∀ s, p ≠ .field (.text s) := fun s h => htext ⟨s, h⟩
    have hlength : (p.bytes.take n).length < p.least := by
      rw [List.length_take, ← length_bytes_of_ne_text hp hne]
      omega
    rw [read_of_lt hlength, leftOver, cut]
    · exact fun s h => hne s h
    · exact fun s h => hne s h

end Place

/-! ## Layouts -/

/-- Fills places one after the other. -/
def readAll : List Place → List UInt8 → List Place
  | [], _ => []
  | p :: rest, bytes => (p.read bytes).1 :: readAll rest (p.read bytes).2

/-- What can be said of places of which the first `n` bytes are there. -/
def remnant (n : Nat) : List Place → List Place
  | [] => []
  | p :: rest => (if p.bytes.length ≤ n then p else p.cut n) :: remnant (n - p.bytes.length) rest

/-- How many places there are up to the first that is not there in full, and with it. -/
def reach (n : Nat) : List Place → Nat
  | [] => 0
  | p :: rest => if p.bytes.length ≤ n then reach (n - p.bytes.length) rest + 1 else 1

/-- The bytes left over of the first place that is not there in full. -/
def residue (n : Nat) : List Place → List UInt8
  | [] => []
  | p :: rest => if p.bytes.length ≤ n then residue (n - p.bytes.length) rest else p.leftOver n

/-- What is left over of the place that is cut is too short for every place behind it. -/
def CleanCut (n : Nat) (ps : List Place) : Prop :=
  ∀ p ∈ ps.drop (reach n ps), (residue n ps).length < p.least

instance (n : Nat) (ps : List Place) : Decidable (CleanCut n ps) :=
  inferInstanceAs (Decidable (∀ p ∈ ps.drop (reach n ps), (residue n ps).length < p.least))

variable {ps : List Place}

/-- Nothing is read where there is too little for every place. -/
theorem readAll_of_lt {bytes : List UInt8} (h : ∀ p ∈ ps, bytes.length < p.least) :
    readAll ps bytes = ps.map Place.missing := by
  induction ps with
  | nil => rfl
  | cons p rest ih =>
    rw [List.forall_mem_cons] at h
    rw [readAll, Place.read_of_lt h.1, ih h.2, List.map_cons]

/-- Of nothing nothing can be said. -/
theorem remnant_zero (hps : ∀ p ∈ ps, p.Complete) : remnant 0 ps = ps.map Place.missing := by
  induction ps with
  | nil => rfl
  | cons p rest ih =>
    rw [List.forall_mem_cons] at hps
    have hpos := Place.length_bytes_pos hps.1
    rw [remnant, if_neg (by omega), Place.cut_zero, Nat.zero_sub, ih hps.2, List.map_cons]

/-- Behind the cut everything is missing. -/
theorem drop_remnant (hps : ∀ p ∈ ps, p.Complete) (n : Nat) :
    (remnant n ps).drop (reach n ps) = (ps.drop (reach n ps)).map Place.missing := by
  induction ps generalizing n with
  | nil => rfl
  | cons p rest ih =>
    rw [List.forall_mem_cons] at hps
    rw [remnant, reach]
    split
    · rw [List.drop_succ_cons, List.drop_succ_cons, ih hps.2]
    · have hnone : n - p.bytes.length = 0 := by omega
      rw [List.drop_succ_cons, List.drop_succ_cons, List.drop_zero, List.drop_zero, hnone,
        remnant_zero hps.2]

/-- **What is read from a truncated payload**: what can be said as far as the cut, and behind
it what the bytes left over are taken for. -/
theorem readAll_take (hps : ∀ p ∈ ps, p.Complete) (n : Nat) :
    readAll ps ((ps.flatMap Place.bytes).take n) =
      (remnant n ps).take (reach n ps) ++ readAll (ps.drop (reach n ps)) (residue n ps) := by
  induction ps generalizing n with
  | nil => rfl
  | cons p rest ih =>
    rw [List.forall_mem_cons] at hps
    rw [List.flatMap_cons, remnant, reach, residue, readAll]
    split
    · rename_i hfull
      rw [List.take_append, List.take_of_length_le hfull, Place.read_bytes hps.1,
        ih hps.2, List.take_succ_cons, List.drop_succ_cons, List.cons_append]
    · rename_i hcut
      rw [List.take_append_of_le_length (by omega), Place.read_take hps.1 (by omega),
        List.take_succ_cons, List.take_zero, List.drop_succ_cons, List.drop_zero,
        List.singleton_append]

/-- **After a clean cut** what is read is what can be said. -/
theorem readAll_of_cleanCut (hps : ∀ p ∈ ps, p.Complete) {n : Nat} (hn : CleanCut n ps) :
    readAll ps ((ps.flatMap Place.bytes).take n) = remnant n ps := by
  rw [readAll_take hps, readAll_of_lt hn, ← drop_remnant hps, List.take_append_drop]

/-- What may honestly be read for a place: the place itself, nothing, or text as far as some
unit of it. -/
inductive Place.Remains : Place → Place → Prop where
  | whole (p : Place) : Remains p p
  | missing (p : Place) : Remains p p.missing
  | text (s : String) (units : Nat) : Remains (.field (.text s))
      (.field (.text (String.ofList (Utf16.decode ((Utf16.encode s.toList).take units)))))

/-- What may be read for text is text as far as some unit of it, all of it and none of it
included. -/
theorem Place.Remains.exists_units {s : String} {p : Place}
    (h : (Place.field (.text s)).Remains p) : ∃ units : Nat,
      p = .field (.text (String.ofList (Utf16.decode ((Utf16.encode s.toList).take units)))) := by
  cases h with
  | whole =>
    refine ⟨(Utf16.encode s.toList).length, ?_⟩
    rw [List.take_length, Utf16.decode_encode, String.ofList_toList]
  | missing => exact ⟨0, rfl⟩
  | text s units => exact ⟨units, rfl⟩

theorem Place.remains_cut (available : Nat) (p : Place) : p.Remains (p.cut available) := by
  unfold cut
  split
  · exact .text _ _
  · exact .missing p

theorem forall₂_remains_remnant (n : Nat) (ps : List Place) :
    List.Forall₂ Place.Remains ps (remnant n ps) := by
  induction ps generalizing n with
  | nil => exact .nil
  | cons p rest ih =>
    refine .cons ?_ (ih _)
    split
    · exact .whole p
    · exact p.remains_cut n

end Wire

/-! ## Events -/

open Wire

namespace NetworkEvent

/-- The places of an event: all that is in it, in the order of its fields. -/
def places : NetworkEvent → List Place
  | .connectionEstablished major minor id? scheme host port remote =>
    [.field (.uint8 major), .field (.uint8 minor), .connection id?, .field (.text scheme),
      .field (.text host), .field (.uint32 port), .field (.text remote)]
  | .connectionClosed major minor id? =>
    [.field (.uint8 major), .field (.uint8 minor), .connection id?]
  | .requestHeadersStart id? => [.connection id?]
  | event => event.fields.map .field

/-- The fields of an event are what its places are written as. -/
theorem fields_eq (event : NetworkEvent) : event.fields = event.places.flatMap Place.fields := by
  cases event with
  | connectionClosed | requestHeadersStart => exact (List.append_nil _).symm
  | _ => rfl

theorem payloadBytes_eq (event : NetworkEvent) :
    event.payloadBytes = event.places.flatMap Place.bytes := by
  rw [payloadBytes, layoutBytes, fields_eq, List.flatMap_assoc]
  rfl

/-- Both are the same event of the same source, with whatever fields. -/
def SameKind (a b : NetworkEvent) : Prop := a.provider = b.provider ∧ a.eventId = b.eventId

/-- **An event is read place by place**, from any bytes. -/
theorem exists_ofWire? (event : NetworkEvent) (bytes : List UInt8) :
    ∃ read, ofWire? event.provider event.eventId bytes = some read ∧ event.SameKind read ∧
      read.places = readAll event.places bytes := by
  cases event with
  | requestStart | connectionEstablished | requestLeftQueue | handshakeFailed =>
    refine ⟨_, rfl, ⟨rfl, rfl⟩, ?_⟩
    -- both sides name the same readings, one inside the other
    simp only [places, fields, List.map_cons, List.map_nil, readAll, Place.read, Field.read,
      Field.ofReading, textField, uint8Field, uint32Field, binary64Field, boolField, Read.orElse,
      readInt64, Read.map]
  | _ => exact ⟨_, rfl, ⟨rfl, rfl⟩, rfl⟩

theorem Complete.places {event : NetworkEvent} (h : event.Complete) :
    ∀ p ∈ event.places, p.Complete := by
  have hfield : ∀ f ∈ event.fields, (Place.field f).Complete := by
    rintro f hf
    cases f with
    | text s => exact h.text hf
    | _ => trivial
  cases event with
  | connectionEstablished major minor id? scheme host port remote =>
    obtain ⟨id, rfl⟩ := h.exists_id rfl
    simpa [NetworkEvent.places, fields, connectionField, Place.Complete] using hfield
  | connectionClosed major minor id? =>
    obtain ⟨id, rfl⟩ := h.exists_id rfl
    simp [NetworkEvent.places, Place.Complete]
  | requestHeadersStart id? =>
    obtain ⟨id, rfl⟩ := h.exists_id rfl
    simp [NetworkEvent.places, Place.Complete]
  | _ => exact List.forall_mem_map.mpr hfield

/-- **A payload that ends early is still read as its event.** As far as the cut, and for the
field in it, what is read is what can be said; the fields behind it are read from the bytes
left over of that field.  If these are too few for any of them, all that is read is what can
be said: every field is the one that was written, or missing, or text as far as some unit
of it. -/
theorem truncated_payload (event : NetworkEvent) (h : event.Complete) (n : Nat) :
    ∃ read, ofWire? event.provider event.eventId (event.payloadBytes.take n) = some read ∧
      event.SameKind read ∧
      read.places = (remnant n event.places).take (reach n event.places) ++
        readAll (event.places.drop (reach n event.places)) (residue n event.places) ∧
      (CleanCut n event.places →
        read.places = remnant n event.places ∧
        List.Forall₂ Place.Remains event.places read.places) := by
  obtain ⟨read, hread, hkind, hplaces⟩ := event.exists_ofWire? (event.payloadBytes.take n)
  rw [payloadBytes_eq] at hplaces
  refine ⟨read, hread, hkind, hplaces.trans (readAll_take h.places n), fun hclean => ?_⟩
  have hremnant := hplaces.trans (readAll_of_cleanCut h.places hclean)
  exact ⟨hremnant, hremnant ▸ forall₂_remains_remnant n event.places⟩

/-- Its path is one character beyond the basic plane, which is written as two units. -/
def farRequest : NetworkEvent :=
  .requestStart "http" "h" 443 (String.ofList [Char.ofNat 0x1F310]) 1 1

theorem truncated_payload_farRequest :
    farRequest.Complete ∧ CleanCut 20 farRequest.places ∧
    ∃ read, ofWire? .http 1 (farRequest.payloadBytes.take 20) = some read ∧
      read.places = [.field (.text "http"), .field (.text "h"), .field (.uint32 443),
        .field (.text (String.ofList [Char.ofNat 0xFFFD])), .field (.uint8 0),
        .field (.uint8 0)] ∧
      List.Forall₂ Place.Remains farRequest.places read.places := by
  have hcomplete : farRequest.Complete := ⟨by decide, by decide⟩
  have hclean : CleanCut 20 farRequest.places := by decide
  obtain ⟨read, hread, -, -, hremnant⟩ := truncated_payload farRequest hcomplete 20
  exact ⟨hcomplete, hclean, read, hread, (hremnant hclean).1.trans (by decide),
    (hremnant hclean).2⟩

/-- A request whose payload is cut in the middle of the port. -/
def plainRequest : NetworkEvent := .requestStart "http" "h" 443 "/" 1 1

/-- **Half a port is read as a path**: the two bytes that are left over are one unit of text. -/
theorem path_made_of_port :
    plainRequest.Complete ∧
    ofWire? .http 1 (plainRequest.payloadBytes.take 16) =
      some (.requestStart "http" "h" 0 (String.ofList [Char.ofNat 0x1BB]) 0 0) ∧
    ¬ ∃ read, ofWire? .http 1 (plainRequest.payloadBytes.take 16) = some read ∧
      plainRequest.SameKind read ∧
      List.Forall₂ Place.Remains plainRequest.places read.places := by
  have hread : ofWire? .http 1 (plainRequest.payloadBytes.take 16) =
      some (.requestStart "http" "h" 0 (String.ofList [Char.ofNat 0x1BB]) 0 0) := by decide
  refine ⟨⟨by decide, by decide⟩, hread, ?_⟩
  rintro ⟨read, hread', -, hremains⟩
  obtain rfl := Option.some.inj (hread.symm.trans hread')
  -- the fourth place is the path
  obtain ⟨-, -, -, hpath, -⟩ : _ ∧ _ ∧ _ ∧ _ ∧ _ := by
    simpa only [plainRequest, places, fields, List.map_cons, List.map_nil,
      List.forall₂_cons] using hremains
  obtain ⟨units, hunits⟩ := hpath.exists_units
  cases units with
  | zero => exact absurd hunits (by decide)
  | succ n =>
    rw [List.take_of_length_le (show 1 ≤ n + 1 from Nat.le_add_left 1 n)] at hunits
    exact absurd hunits (by decide)

end NetworkEvent
end RuntimeTrace
