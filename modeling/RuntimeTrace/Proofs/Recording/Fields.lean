import Mathlib.Data.List.Nodup
import RuntimeTrace.Proofs.Activity.GuidText
import RuntimeTrace.Recording.Record

/-!
# Fields are read back

A record is written with every field under its name, once and in the declared order.  Reading
is laxer in all three respects, so reading what was written is one simple case: every slot is
given, and holds the value that was written there (`slots?_named`, `tagged?_taggedObject`).

What is left is one statement for each type of field: the reader of the type undoes its writer.
They are tagged for `simp`, so that an event is read back by rewriting with them.  Three of
them are more than arithmetic: identifiers, the bytes of a raw event, and doubles.  A double
has two forms in JSON, and only a finite one has a number (`binary64?_number`).

What a reader skips it still looks at, so the last section says which written values are
legible.
-/

namespace RuntimeTrace

/-! ## Hexadecimal text -/

namespace Hexadecimal

theorem isBlank_digit {n : Nat} (h : n < 16) : isBlank (digit n) = false := by
  have hall : ∀ n < 16, isBlank (digit n) = false := by decide
  exact hall n h

theorem isBlank_of_mem_flatMap_byteDigits {bytes : List UInt8} {c : Char}
    (h : c ∈ bytes.flatMap byteDigits) : isBlank c = false := by
  obtain ⟨b, -, hc⟩ := List.mem_flatMap.mp h
  rw [byteDigits, List.mem_cons, List.mem_singleton] at hc
  rcases hc with rfl | rfl
  · exact isBlank_digit (high_lt b)
  · exact isBlank_digit (low_lt b)

theorem pairs?_flatMap_byteDigits (bytes : List UInt8) :
    pairs? (bytes.flatMap byteDigits) = some bytes := by
  induction bytes with
  | nil => rfl
  | cons b rest ih =>
    rw [List.flatMap_cons, byteDigits, List.cons_append, List.cons_append, List.nil_append, pairs?,
      pairValue?, digitValue?_digit (high_lt b), digitValue?_digit (low_lt b), ih]
    show some (UInt8.ofNat (16 * (b.toNat / 16) + b.toNat % 16) :: rest) = some (b :: rest)
    rw [ofNat_high_low]

/-- **A buffer is read back** from its text. -/
theorem decode?_encode (bytes : List UInt8) : decode? (encode bytes) = some bytes := by
  have hdigits : (encode bytes).toList.filter (fun c => !isBlank c) = bytes.flatMap byteDigits := by
    rw [encode, String.toList_ofList]
    apply List.filter_eq_self.mpr
    intro c hc
    rw [isBlank_of_mem_flatMap_byteDigits hc]
    rfl
  rw [decode?, hdigits, pairs?_flatMap_byteDigits]

end Hexadecimal

namespace Recording

/-! ## Slots -/

@[simp] theorem Slot.required_given {α : Type} (v : Json) (read : Json → Option α) :
    (Slot.given v).required read = read v := rfl

@[simp] theorem Slot.withDefault_given {α : Type} (v : Json) (read : Json → Option α)
    (default : α) : (Slot.given v).withDefault read default = read v := rfl

/-- A key that does not occur has no value. -/
theorem lookupAll_of_notMem {members : List (String × Json)} {key : String}
    (h : key ∉ members.map Prod.fst) : Json.lookupAll key members = [] := by
  rw [Json.lookupAll, List.map_eq_nil_iff, List.filter_eq_nil_iff]
  intro m hm hkey
  exact h (List.mem_map.mpr ⟨m, hm, eq_of_beq hkey⟩)

/-- A key that occurs once has one value. -/
theorem lookupAll_of_nodup {members : List (String × Json)} {m : String × Json}
    (hnodup : (members.map Prod.fst).Nodup) (hm : m ∈ members) :
    Json.lookupAll m.1 members = [m.2] := by
  obtain ⟨before, behind, rfl⟩ := List.append_of_mem hm
  rw [List.map_append, List.map_cons, List.nodup_middle, List.nodup_cons, List.mem_append,
    not_or] at hnodup
  obtain ⟨⟨hbefore, hbehind⟩, -⟩ := hnodup
  have hnone : ∀ part : List (String × Json), m.1 ∉ part.map Prod.fst →
      part.filter (fun other => other.1 == m.1) = [] := by
    intro part hpart
    exact List.map_eq_nil_iff.mp (lookupAll_of_notMem hpart)
  have hself : (m :: behind).filter (fun other => other.1 == m.1) =
      m :: behind.filter (fun other => other.1 == m.1) :=
    List.filter_cons_of_pos (beq_self_eq_true m.1)
  rw [Json.lookupAll, List.filter_append, hself, hnone before hbefore, hnone behind hbehind]
  rfl

/-- Every field that an object has once is given. -/
theorem namedSlots?_of_nodup {members written : List (String × Json)}
    (hnodup : (members.map Prod.fst).Nodup) (hwritten : ∀ m ∈ written, m ∈ members) :
    namedSlots? members (written.map Prod.fst) = some (written.map fun m => .given m.2) := by
  induction written with
  | nil => rfl
  | cons m rest ih =>
    have hrest := ih fun other hother => hwritten other (List.mem_cons_of_mem m hother)
    have hslot : namedSlot? members m.1 = some (.given m.2) := by
      rw [namedSlot?, lookupAll_of_nodup hnodup (hwritten m List.mem_cons_self)]
    rw [List.map_cons, namedSlots?, hslot, hrest]
    rfl

/-- **An object whose keys are the declared names gives every field.** -/
theorem slots?_named {fields : List (String × Json)} {names : List String}
    (hnames : fields.map Prod.fst = names) (hnodup : names.Nodup) :
    (Body.named fields).slots? names = some (fields.map fun m => .given m.2) := by
  subst hnames
  exact namedSlots?_of_nodup hnodup fun _ h => h

/-- **The object form of an event** has its kind and its fields. -/
theorem tagged?_taggedObject {kind : String} {fields : List (String × Json)}
    (h : "event" ∉ fields.map Prod.fst) :
    tagged? (taggedObject kind fields) = some (kind, .named fields) := by
  have hkind : Json.lookupAll "event" (("event", .string kind) :: fields) = [.string kind] := by
    rw [Json.lookupAll, List.filter_cons_of_pos (by rfl), List.map_cons]
    exact congrArg _ (lookupAll_of_notMem h)
  have hfields : (("event", Json.string kind) :: fields).filter (fun m => m.1 != "event") =
      fields := by
    rw [List.filter_cons_of_neg (by rw [bne_self_eq_false]; exact Bool.false_ne_true)]
    apply List.filter_eq_self.mpr
    intro m hm
    exact bne_iff_ne.mpr fun hkey => h (List.mem_map.mpr ⟨m, hm, hkey⟩)
  rw [taggedObject, tagged?]
  simp only [hkind, hfields]

/-- Reading an event goes on with its kind and its fields. -/
theorem bind_tagged?_taggedObject {α : Type} {kind : String} {fields : List (String × Json)}
    (h : "event" ∉ fields.map Prod.fst) (read : String × Body → Option α) :
    (tagged? (taggedObject kind fields) >>= read) = read (kind, .named fields) := by
  rw [tagged?_taggedObject h]
  rfl

/-! ## Values of fields -/

theorem natBelow?_nat {n bound : Nat} (h : n < bound) : natBelow? bound (.nat n) = some n := by
  show (if n < bound then some n else none) = some n
  rw [if_pos h]

theorem intWithin?_int {n : Int} {bound : Nat} (h : -(bound : Int) ≤ n) (h' : n < bound) :
    intWithin? bound (.int n) = some n := by
  rw [intWithin?, if_pos ⟨h, h'⟩]

@[simp] theorem uint8?_nat (n : UInt8) : uint8? (.nat n.toNat) = some n := by
  rw [uint8?, natBelow?_nat n.toNat_lt, Option.map_some, UInt8.ofNat_toNat]

@[simp] theorem uint16?_nat (n : UInt16) : uint16? (.nat n.toNat) = some n := by
  rw [uint16?, natBelow?_nat n.toNat_lt, Option.map_some, UInt16.ofNat_toNat]

@[simp] theorem uint32?_nat (n : UInt32) : uint32? (.nat n.toNat) = some n := by
  rw [uint32?, natBelow?_nat n.toNat_lt, Option.map_some, UInt32.ofNat_toNat]

@[simp] theorem uint64?_nat (n : UInt64) : uint64? (.nat n.toNat) = some n := by
  rw [uint64?, natBelow?_nat n.toNat_lt, Option.map_some, UInt64.ofNat_toNat]

@[simp] theorem int32?_int (n : Int32) : int32? (.int n.toInt) = some n := by
  have hwithin : intWithin? (UInt32.size / 2) (.int n.toInt) = some n.toInt :=
    intWithin?_int n.le_toInt n.toInt_lt
  rw [int32?, hwithin, Option.map_some, Int32.ofInt_toInt]

@[simp] theorem int64?_int (n : Int64) : int64? (.int n.toInt) = some n := by
  have hwithin : intWithin? (UInt64.size / 2) (.int n.toInt) = some n.toInt :=
    intWithin?_int n.le_toInt n.toInt_lt
  rw [int64?, hwithin, Option.map_some, Int64.ofInt_toInt]

/-- A double is read back if it is finite; otherwise no number was written. -/
@[simp] theorem binary64?_number (x : Binary64) :
    binary64? (.number x) = if x.isFinite then some x else none := by
  unfold Json.number
  split <;> rfl

@[simp] theorem bool?_bool (b : Bool) : bool? (.bool b) = some b := rfl

@[simp] theorem string?_string (s : String) : string? (.string s) = some s := rfl

@[simp] theorem timestamp?_nat (t : Instant) : timestamp? (.nat t.toNat) = some t := by
  rw [timestamp?, Instant.toNat, uint64?_nat, Option.map_some]

@[simp] theorem activityId?_text (id : ActivityId) : activityId? (.string id.text) = some id := by
  rw [activityId?, ActivityId.parse_text]
  rfl

@[simp] theorem bytes?_encode (bytes : List UInt8) :
    bytes? (.string (Hexadecimal.encode bytes)) = some bytes :=
  Hexadecimal.decode?_encode bytes

@[simp] theorem provider?_label (p : NetworkProvider) : provider? (.string p.label) = some p := by
  cases p <;> rfl

/-- A list is read back if each of its items is. -/
theorem list?_array {α : Type} {read : Json → Option α} {write : α → Json}
    (h : ∀ a, read (write a) = some a) (items : List α) :
    list? read (.array (items.map write)) = some items := by
  rw [list?]
  induction items with
  | nil => rfl
  | cons a rest ih => rw [List.map_cons, List.mapM_cons, h, ih]; rfl

@[simp] theorem list?_nats (ns : List UInt64) :
    list? uint64? (.nats (ns.map UInt64.toNat)) = some ns := by
  have hitems : (ns.map UInt64.toNat).map Json.nat = ns.map fun n => Json.nat n.toNat :=
    List.map_map
  rw [Json.nats, hitems]
  exact list?_array uint64?_nat ns

@[simp] theorem optional_omitted {α : Type} (read : Json → Option α) :
    Slot.omitted.optional read = some none := rfl

@[simp] theorem optional_nats (ns : List UInt64) :
    (Slot.given (.nats (ns.map UInt64.toNat))).optional (list? uint64?) = some (some ns) :=
  congrArg (Option.map some) (list?_nats ns)

@[simp] theorem nullable_connectionJson (id : Option Int64) :
    (Slot.given (connectionJson id)).nullable int64? = some id := by
  cases id with
  | none => rfl
  | some n => exact congrArg (Option.map some) (int64?_int n)

@[simp] theorem generationSizes?_json (s : GenerationSizes) :
    generationSizes? (generationSizesJson s) = some s := by
  rw [generationSizes?, generationSizesJson, list?_nats]
  rfl

@[simp] theorem generationChange?_json (g : GenerationChange) :
    generationChange? (generationChangeJson g) = some g := by
  simp [generationChange?, generationChangeJson, Body.ofJson?, slots?_named]

end Recording

/-! ## Legible values -/

namespace Json

theorem membersLegible_eq (depth : Nat) (members : List (String × Json)) :
    membersLegible depth members = members.all fun m => m.2.isLegible depth := by
  induction members with
  | nil => rfl
  | cons m rest ih => rw [membersLegible, ih, List.all_cons]

theorem allLegible_eq (depth : Nat) (items : List Json) :
    allLegible depth items = items.all fun v => v.isLegible depth := by
  induction items with
  | nil => rfl
  | cons v rest ih => rw [allLegible, ih, List.all_cons]

@[simp] theorem isLegible_object (depth : Nat) (members : List (String × Json)) :
    (Json.object members).isLegible (depth + 1) = members.all fun m => m.2.isLegible depth := by
  rw [isLegible, membersLegible_eq]

@[simp] theorem isLegible_array (depth : Nat) (items : List Json) :
    (Json.array items).isLegible (depth + 1) = items.all fun v => v.isLegible depth := by
  rw [isLegible, allLegible_eq]

@[simp] theorem isLegible_nat (depth n : Nat) : (nat n).isLegible depth = true := by
  cases depth <;> rfl

@[simp] theorem isLegible_int (depth : Nat) (n : Int) : (int n).isLegible depth = true := by
  cases depth <;> rfl

@[simp] theorem isLegible_bool (depth : Nat) (b : Bool) : (bool b).isLegible depth = true := by
  cases depth <;> rfl

@[simp] theorem isLegible_string (depth : Nat) (s : String) :
    (string s).isLegible depth = true := by
  cases depth <;> rfl

@[simp] theorem isLegible_number (depth : Nat) (x : Binary64) :
    (number x).isLegible depth = true := by
  rw [number]
  cases depth <;> split <;> rfl

@[simp] theorem isLegible_nats (depth : Nat) (ns : List Nat) :
    (nats ns).isLegible (depth + 1) = true := by
  rw [nats, isLegible_array]
  simp

end Json

namespace Recording

/-- The object form of an event nests one level deeper than its fields. -/
@[simp] theorem isLegible_taggedObject (depth : Nat) (kind : String)
    (fields : List (String × Json)) :
    (taggedObject kind fields).isLegible (depth + 1) = fields.all fun m => m.2.isLegible depth := by
  rw [taggedObject, Json.isLegible_object, List.all_cons, Json.isLegible_string, Bool.true_and]

@[simp] theorem isLegible_connectionJson (depth : Nat) (id : Option Int64) :
    (connectionJson id).isLegible depth = true := by
  cases id with
  | none => cases depth <;> rfl
  | some n => exact Json.isLegible_int depth n.toInt

end Recording
end RuntimeTrace
