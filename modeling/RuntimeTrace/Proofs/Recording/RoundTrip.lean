import RuntimeTrace.Proofs.Recording.Fields
import RuntimeTrace.Recording.Lines

/-!
# Records are read back

`Record.toJson` and `Record.ofJson?` know the format of a record on their own: the names of the
fields, the tags of the families and of the events in them, what may be left out and what then
holds.  This file shows that they agree, for every record.  It does so for the JSON values; that
a value is read back from its text is a matter of JSON, and a hypothesis where a line is read
(`Record.ofLine_of_parse_toJson`).

Of everything a record can contain only one thing is lost.  A double that is infinite or not a
number has no number in JSON and is written as `null`, where no field puts up with `null`.  So
the statements for the two families that carry doubles have a condition, and it is exact: a
record with such a double is not read as another record but not at all.

The proof goes by the constructors.  An event of any kind has its fields written under their
names and in the declared order, so reading it is reading the slots one by one
(`slots?_named`), and what is in them is known from the types of the fields.  On the way down to
a field the reader looks at what it skips, hence the bounds on nesting: a payload takes four
levels of the hundred and twenty-six that a record leaves it.

Main statement: `Record.written_record_is_read_back`.
-/

namespace RuntimeTrace

open Recording

/-! ## Events -/

theorem CollectionEvent.ofJson?_toJson (event : CollectionEvent) :
    CollectionEvent.ofJson? event.toJson = some event := by
  cases event
  all_goals
    rw [toJson, CollectionEvent.ofJson?, bind_tagged?_taggedObject (by simp)]
    simp [slots?_named, list?_array]

/-- The doubles that an event of a waiting thread carries. -/
def WaitEvent.doubles : WaitEvent → List Binary64
  | .stop _ durationNs => [durationNs]
  | _ => []

theorem WaitEvent.ofJson?_toJson (event : WaitEvent) :
    WaitEvent.ofJson? event.toJson =
      if event.doubles.all Binary64.isFinite then some event else none := by
  cases event
  all_goals
    rw [toJson, WaitEvent.ofJson?, bind_tagged?_taggedObject (by simp)]
    simp [slots?_named, doubles]
  -- The end of a wait, whose duration is the one double of the family.
  split <;> rfl

/-- The doubles that a network event carries. -/
def NetworkEvent.doubles : NetworkEvent → List Binary64
  | .requestLeftQueue timeOnQueueMs _ _ => [timeOnQueueMs]
  | .handshakeFailed _ elapsedMs _ => [elapsedMs]
  | _ => []

theorem NetworkEvent.ofJson?_toJson (event : NetworkEvent) :
    NetworkEvent.ofJson? event.toJson =
      if event.doubles.all Binary64.isFinite then some event else none := by
  cases event
  all_goals
    rw [toJson, NetworkEvent.ofJson?, bind_tagged?_taggedObject (by simp)]
    simp [ofHttpJson?, ofConnectionJson?, oneText?, noFields?, slots?_named, doubles]
  -- The time in a queue and the time of a handshake that failed.
  · split <;> rfl
  · split <;> rfl

theorem MethodLoad.ofJson?_toJson (load : MethodLoad) :
    MethodLoad.ofJson? load.toJson = some load := by
  rw [toJson, MethodLoad.ofJson?, bind_tagged?_taggedObject (by simp)]
  simp [slots?_named]

theorem Sample.ofJson?_toJson (sample : Sample) : Sample.ofJson? sample.toJson = some sample := by
  cases sample
  all_goals
    rw [toJson, Sample.ofJson?, bind_tagged?_taggedObject (by simp)]
    simp [slots?_named]

theorem IncidentEvent.ofJson?_toJson (event : IncidentEvent) :
    IncidentEvent.ofJson? event.toJson = some event := by
  cases event
  all_goals
    rw [toJson, IncidentEvent.ofJson?, bind_tagged?_taggedObject (by simp)]
    simp [slots?_named]

/-! ## Payloads -/

namespace Payload

/-- The doubles that a payload carries. -/
def doubles : Payload → List Binary64
  | .wait event => event.doubles
  | .network event => event.doubles
  | _ => []

/-- **What is written is legible** wherever four levels are left. -/
theorem isLegible_toJson (payload : Payload) (depth : Nat) :
    payload.toJson.isLegible (depth + 4) = true := by
  cases payload with
  | collection event =>
    cases event <;> simp [toJson, CollectionEvent.toJson, generationSizesJson, generationChangeJson]
  | wait event => cases event <;> simp [toJson, WaitEvent.toJson]
  | network event => cases event <;> simp [toJson, NetworkEvent.toJson]
  | sample sample => cases sample <;> simp [toJson, Sample.toJson]
  | incident event => cases event <;> simp [toJson, IncidentEvent.toJson]
  | networkBytes | methodLoad | unclassified => simp [toJson, MethodLoad.toJson]

/-- The event in a written payload is legible where it stands. -/
theorem legible?_of_toJson {payload : Payload} {family : String} {v : Json}
    (h : payload.toJson = .object [(family, v)]) (depth : Nat) :
    legible? (depth + 3) v = some v := by
  have hlegible := payload.isLegible_toJson depth
  rw [h, Json.isLegible_object, List.all_cons, List.all_nil, Bool.and_true] at hlegible
  exact if_pos hlegible

theorem ofJson?_toJson (payload : Payload) (depth : Nat) :
    Payload.ofJson? (depth + 4) payload.toJson =
      if payload.doubles.all Binary64.isFinite then some payload else none := by
  have hlegible := @legible?_of_toJson payload
  cases payload with
  | collection event =>
    simp [toJson, Payload.ofJson?, hlegible rfl, CollectionEvent.ofJson?_toJson, doubles]
  | wait event =>
    simp [toJson, Payload.ofJson?, hlegible rfl, WaitEvent.ofJson?_toJson, doubles]
    split <;> rfl
  | network event =>
    simp [toJson, Payload.ofJson?, hlegible rfl, NetworkEvent.ofJson?_toJson, doubles]
    split <;> rfl
  | methodLoad load =>
    simp [toJson, Payload.ofJson?, hlegible rfl, MethodLoad.ofJson?_toJson, doubles]
  | sample sample =>
    simp [toJson, Payload.ofJson?, hlegible rfl, Sample.ofJson?_toJson, doubles]
  | incident event =>
    simp [toJson, Payload.ofJson?, hlegible rfl, IncidentEvent.ofJson?_toJson, doubles]
  | networkBytes provider eventId data =>
    simp [toJson, Payload.ofJson?, networkBytes?, Body.ofJson?, slots?_named, doubles]
  | unclassified provider eventId =>
    simp [toJson, Payload.ofJson?, unclassified?, Body.ofJson?, slots?_named, doubles]

end Payload

/-! ## Contexts -/

namespace EventContext

variable (context : EventContext)

/-- **A context is read back**, with a stack or without one. -/
theorem ofMembers?_toMembers : EventContext.ofMembers? context.toMembers = some context := by
  obtain ⟨time, processId, threadId, activityId, relatedId, keywords, stack⟩ := context
  cases stack with
  | none => simp [toMembers, ofMembers?, Body.slots?, namedSlots?, namedSlot?, Json.lookupAll]
  | some addresses => simp [toMembers, ofMembers?, slots?_named]

theorem payload_notMem_toMembers : "payload" ∉ context.toMembers.map Prod.fst := by
  cases hstack : context.stack <;> simp [toMembers, hstack]

theorem membersLegible_toMembers (depth : Nat) :
    Json.membersLegible (depth + 1) context.toMembers = true := by
  rw [Json.membersLegible_eq]
  cases hstack : context.stack <;> simp [toMembers, hstack]

/-- Without the payload the members of a record are those of its context. -/
theorem filter_toMembers_append (payload : Json) :
    (context.toMembers ++ [("payload", payload)]).filter (fun m => m.1 != "payload") =
      context.toMembers := by
  have hrest : context.toMembers.filter (fun m => m.1 != "payload") = context.toMembers := by
    apply List.filter_eq_self.mpr
    intro m hm
    exact bne_iff_ne.mpr fun hkey =>
      context.payload_notMem_toMembers (List.mem_map.mpr ⟨m, hm, hkey⟩)
  rw [List.filter_append, hrest, List.filter_cons_of_neg (by simp), List.filter_nil,
    List.append_nil]

/-- A record has one payload. -/
theorem lookupAll_toMembers_append (payload : Json) :
    Json.lookupAll "payload" (context.toMembers ++ [("payload", payload)]) = [payload] := by
  have hnone : Json.lookupAll "payload" context.toMembers = [] :=
    lookupAll_of_notMem context.payload_notMem_toMembers
  rw [Json.lookupAll, List.filter_append, List.map_append]
  exact congrArg (· ++ [payload]) hnone

end EventContext

/-! ## Records -/

namespace Record

variable {record : Record}

/-- Every double of a record is finite. -/
def Finite (record : Record) : Prop := record.payload.doubles.all Binary64.isFinite = true

instance (record : Record) : Decidable record.Finite :=
  inferInstanceAs (Decidable (_ = true))

/-- What becomes of a written record: it is read back, or a double stands in the way. -/
theorem ofJson?_toJson (record : Record) :
    Record.ofJson? record.toJson = if record.Finite then some record else none := by
  have hlegible : Json.membersLegible (Json.maxDepth - 1) record.context.toMembers = true :=
    record.context.membersLegible_toMembers 125
  have hpayload : Payload.ofJson? (Json.maxDepth - 1) record.payload.toJson =
      if record.Finite then some record.payload else none :=
    record.payload.ofJson?_toJson 122
  rw [toJson, Record.ofJson?]
  simp only [EventContext.filter_toMembers_append, EventContext.lookupAll_toMembers_append,
    hlegible, EventContext.ofMembers?_toMembers, hpayload, Bool.not_true, Bool.false_eq_true,
    if_false]
  split <;> rfl

/-- **A written record is read back.**  Whatever event it is of, with or without a stack, the
object that is written for a record is read as that record, exactly, if its doubles are finite;
otherwise it is not read as any record. -/
theorem written_record_is_read_back (record : Record) :
    (record.Finite → Record.ofJson? record.toJson = some record) ∧
    (¬ record.Finite → Record.ofJson? record.toJson = none) := by
  rw [ofJson?_toJson]
  exact ⟨fun h => if_pos h, fun h => if_neg h⟩

/-- A wait of one and a half nanoseconds with two frames on its stack. -/
def shortWait : Record :=
  ⟨⟨⟨5⟩, 7, 1, ActivityId.ofPath (0x15 :: List.replicate 11 0) rfl 0, ActivityId.nil, 0,
    some [0x1000, 0x2000]⟩, .wait (.stop 0 ⟨0x3FF8000000000000⟩)⟩

/-- The same wait, whose time is infinite. -/
def endlessWait : Record := ⟨shortWait.context, .wait (.stop 0 ⟨0x7FF0000000000000⟩)⟩

theorem written_record_is_read_back_shortWait :
    shortWait.Finite ∧ Record.ofJson? shortWait.toJson = some shortWait ∧
    ¬ endlessWait.Finite ∧ Record.ofJson? endlessWait.toJson = none := by
  have hfinite : shortWait.Finite := by decide
  have hinfinite : ¬ endlessWait.Finite := by decide
  exact ⟨hfinite, (written_record_is_read_back shortWait).1 hfinite,
    hinfinite, (written_record_is_read_back endlessWait).2 hinfinite⟩

/-! ## Lines -/

/-- No value begins with the sign of a comment. -/
theorem readValue_comment (fuel : Nat) (rest : List Char) :
    Json.readValue (fuel + 1) ('#' :: rest) = none := by
  have hnumber : Json.readNumber ('#' :: rest) = none := by
    simp [Json.readNumber, Json.readUnsigned, Text.takeDigits]
  simpa [Json.readValue, Json.skipSpace] using hnumber

/-- No line that holds a value is skipped. -/
theorem isSkipped_of_parse {text : String} {v : Json} (h : Json.parse text = some v) :
    isSkipped text.toList = false := by
  unfold Json.parse at h
  cases hcs : text.toList with
  | nil =>
    rw [hcs] at h
    exact absurd h (by simp [Json.readValue, Json.skipSpace])
  | cons c rest =>
    have hc : c ≠ '#' := by
      rintro rfl
      rw [hcs] at h
      exact absurd h (by simp [readValue_comment])
    exact beq_eq_false_iff_ne.mpr hc

/-- **A line that is the text of a written record is read as the record**, whichever text of it
was chosen and whatever blanks stand around it. -/
theorem ofLine_of_parse_toJson (hfinite : record.Finite) {line : String}
    (hline : Json.parse (Text.trim line) = some record.toJson) (number : Nat) :
    ofLine line number = .ok (some record) := by
  have hread : (Json.parse (Text.trim line)).bind Record.ofJson? = some record := by
    rw [hline, Option.bind_some, ofJson?_toJson, if_pos hfinite]
  rw [ofLine, isSkipped_of_parse hline, hread]
  rfl

end Record
end RuntimeTrace
