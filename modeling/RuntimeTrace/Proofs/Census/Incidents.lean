import RuntimeTrace.Proofs.Census.Ranking
import RuntimeTrace.ProcessState

/-!
# What a census of incidents reports

Exceptions are counted under the names of their types, which they bring with them.  Objects
that are finalized bring a number only, and what this number is called depends on the
incidents before (`nameAfter`): the same number may be counted under several names, several
numbers under one, and a name that comes too late changes nothing.

So the names under which objects are counted are found first, each from the incidents before
it (`finalizedNames`).  Then both tables are the same kind of thing, names with what was
counted under them, and the reports are their rankings.

Main statement: `report_of_incidents`.
-/

namespace RuntimeTrace

/-- An incident with the time of its record. -/
structure TimedIncident where
  time : Instant
  event : IncidentEvent

namespace TimedIncident

/-- The type and the message of an exception. -/
def exception? (x : TimedIncident) : Option (String × String) :=
  match x.event with
  | .exception typeName message => some (typeName, message)
  | _ => none

/-- The name that a type number is given. -/
def nameOf? (typeId : UInt64) (x : TimedIncident) : Option String :=
  match x.event with
  | .typeNamed named typeName => if named = typeId then some typeName else none
  | _ => none

/-- The type number of a finalized object. -/
def finalized? (x : TimedIncident) : Option UInt64 :=
  match x.event with
  | .finalized typeId => some typeId
  | _ => none

/-- A starvation of the thread pool. -/
def starvation? (x : TimedIncident) : Option PoolStarvation :=
  match x.event with
  | .starvation workers => some ⟨x.time, workers⟩
  | _ => none

end TimedIncident

open TimedIncident

namespace Incidents

/-- Takes in an incident. -/
def take (i : Incidents) (x : TimedIncident) : Incidents :=
  match x.event with
  | .exception typeName message => i.addException typeName message
  | .typeNamed typeId typeName => i.nameType typeId typeName
  | .finalized typeId => i.addFinalized typeId
  | .starvation workers => i.addStarvation x.time workers

/-- This is how a process takes in an incident. -/
theorem onIncident_eq (s : ProcessState) (context : EventContext) (event : IncidentEvent) :
    s.onIncident context event =
      { s with incidents := s.incidents.take ⟨context.time, event⟩ } := rfl

/-- The census of some incidents. -/
def ofIncidents (events : List TimedIncident) : Incidents := events.foldl take empty

theorem ofIncidents_append_singleton (events : List TimedIncident) (x : TimedIncident) :
    ofIncidents (events ++ [x]) = (ofIncidents events).take x :=
  List.foldl_append

/-! ## Names of types -/

/-- What a type number is called after some incidents: the name it was given last, or its
lowercase hexadecimal digits if it was given none. -/
def nameAfter (events : List TimedIncident) (typeId : UInt64) : String :=
  (events.filterMap (nameOf? typeId)).getLast?.getD
    ("0x" ++ String.ofList (Nat.toDigits 16 typeId.toNat))

/-- The name under which the object is counted that is finalized at a position: that which
its type number is called after the incidents before. -/
def finalizedName? (events : List TimedIncident) (n : Nat) : Option String :=
  (events[n]?.bind finalized?).map (nameAfter (events.take n))

/-- The names under which finalized objects are counted, in their order. -/
def finalizedNames (events : List TimedIncident) : List String :=
  (List.range events.length).filterMap (finalizedName? events)

theorem finalizedNames_append_singleton (events : List TimedIncident) (x : TimedIncident) :
    finalizedNames (events ++ [x]) =
      finalizedNames events ++ (x.finalized?.map (nameAfter events)).toList := by
  have hbefore : ∀ n ∈ List.range events.length,
      finalizedName? (events ++ [x]) n = finalizedName? events n := by
    intro n hn
    have hlt := List.mem_range.mp hn
    rw [finalizedName?, finalizedName?, List.getElem?_append_left hlt,
      List.take_append_of_le_length (Nat.le_of_lt hlt)]
  have hlast : finalizedName? (events ++ [x]) events.length =
      x.finalized?.map (nameAfter events) := by
    rw [finalizedName?, List.getElem?_concat_length, List.take_left, Option.bind_some]
  rw [finalizedNames, List.length_append, List.length_singleton, List.range_succ,
    List.filterMap_append, List.filterMap_congr hbefore, List.filterMap_cons, hlast,
    List.filterMap_nil, finalizedNames]
  cases x.finalized?.map (nameAfter events) <;> rfl

/-- Each finalized object is counted under one name. -/
theorem length_finalizedNames (events : List TimedIncident) :
    (finalizedNames events).length = events.countP fun x => x.finalized?.isSome := by
  induction events using List.reverseRecOn with
  | nil => rfl
  | append_singleton events x ih =>
    rw [finalizedNames_append_singleton, List.length_append, ih, List.countP_append,
      List.countP_singleton]
    cases x.finalized? <;> rfl

/-! ## What is kept -/

theorem get?_typeNames (events : List TimedIncident) (typeId : UInt64) :
    (ofIncidents events).typeNames.get? typeId =
      (events.filterMap (nameOf? typeId)).getLast? := by
  induction events using List.reverseRecOn with
  | nil => rfl
  | append_singleton events x ih =>
    rw [ofIncidents_append_singleton, List.filterMap_append, List.filterMap_cons]
    obtain ⟨time, event⟩ := x
    cases event with
    | typeNamed named typeName =>
      show ((ofIncidents events).typeNames.insert named typeName).get? typeId = _
      rw [Table.get?_insert]
      by_cases h : named = typeId
      · simp [nameOf?, h]
      · simp [nameOf?, h, Ne.symm h, ih]
    | exception _ _ | finalized _ | starvation _ =>
      exact ih.trans (congrArg List.getLast? (List.append_nil _).symm)

theorem typeName_ofIncidents (events : List TimedIncident) (typeId : UInt64) :
    (ofIncidents events).typeName typeId = nameAfter events typeId := by
  rw [typeName, get?_typeNames, nameAfter, Hexadecimal.address, Hexadecimal.ofNat]

/-- Counts an exception. -/
def countException (t : ExceptionTally) (x : String × String) : ExceptionTally :=
  ⟨t.count + 1, x.2⟩

theorem exceptionTypes_eq (events : List TimedIncident) : (ofIncidents events).exceptionTypes =
    Table.gather Prod.fst ⟨0, ""⟩ countException (events.filterMap exception?) := by
  induction events using List.reverseRecOn with
  | nil => rfl
  | append_singleton events x ih =>
    rw [ofIncidents_append_singleton, List.filterMap_append, List.filterMap_cons]
    obtain ⟨time, event⟩ := x
    cases event with
    | exception typeName message =>
      refine Eq.trans ?_ (Table.gather_append_singleton _ _ _ _ _).symm
      rw [← ih]
      rfl
    | typeNamed _ _ | finalized _ | starvation _ =>
      exact ih.trans (congrArg (Table.gather _ _ _) (List.append_nil _).symm)

theorem finalizedTypes_eq (events : List TimedIncident) : (ofIncidents events).finalizedTypes =
    Table.gather id 0 (fun n _ => n + 1) (finalizedNames events) := by
  induction events using List.reverseRecOn with
  | nil => rfl
  | append_singleton events x ih =>
    rw [ofIncidents_append_singleton, finalizedNames_append_singleton]
    obtain ⟨time, event⟩ := x
    cases event with
    | finalized typeId =>
      refine Eq.trans ?_ (Table.gather_append_singleton _ _ _ _ _).symm
      rw [← ih, ← typeName_ofIncidents]
      rfl
    | exception _ _ | typeNamed _ _ | starvation _ =>
      exact ih.trans (congrArg (Table.gather _ _ _) (List.append_nil _).symm)

theorem starvations_eq (events : List TimedIncident) :
    (ofIncidents events).starvations = events.filterMap starvation? := by
  induction events using List.reverseRecOn with
  | nil => rfl
  | append_singleton events x ih =>
    rw [ofIncidents_append_singleton, List.filterMap_append, ← ih]
    obtain ⟨time, event⟩ := x
    cases event with
    | starvation workers => rfl
    | exception _ _ | typeNamed _ _ | finalized _ => exact (List.append_nil _).symm

/-! ## The reports -/

/-- The messages of the exceptions of a type, in their order. -/
def messagesOf (name : String) (events : List TimedIncident) : List String :=
  (events.filterMap exception?).filterMap fun x => if x.1 = name then some x.2 else none

theorem messagesOf_eq (name : String) (events : List TimedIncident) : messagesOf name events =
    (Table.under Prod.fst name (events.filterMap exception?)).map Prod.snd := by
  rw [messagesOf, Table.under, ← List.filterMap_eq_map, List.filterMap_filter]
  simp

/-- Exceptions of one type are counted, and the last message stays. -/
theorem foldl_countException (thrown : List (String × String)) (t : ExceptionTally) :
    thrown.foldl countException t =
      ⟨t.count + thrown.length, (thrown.map Prod.snd).getLast?.getD t.lastMessage⟩ := by
  induction thrown using List.reverseRecOn with
  | nil => rfl
  | append_singleton thrown x ih =>
    rw [List.foldl_append, ih, List.length_append, List.map_append]
    simp [countException, Nat.add_assoc]

/-- **A type of exceptions is reported with their number and the last message.** -/
theorem mem_exceptions {events : List TimedIncident} {name : String} {t : ExceptionTally} :
    (name, t) ∈ (ofIncidents events).exceptions ↔
      t.count = (messagesOf name events).length ∧
        (messagesOf name events).getLast? = some t.lastMessage := by
  rw [exceptions, mem_ranking, exceptionTypes_eq, Table.get?_gather, messagesOf_eq,
    foldl_countException, List.length_map]
  generalize Table.under Prod.fst name (events.filterMap exception?) = thrown
  by_cases h : thrown = []
  · rw [if_pos h, h]
    simp
  · rw [if_neg h, Option.some.injEq]
    obtain ⟨message, hlast⟩ : ∃ message, (thrown.map Prod.snd).getLast? = some message :=
      Option.isSome_iff_exists.mp (by simpa using h)
    rw [hlast]
    cases t with
    | mk count lastMessage => simp [eq_comm]

theorem length_under (name : String) (names : List String) :
    (Table.under id name names).length = names.count name := by
  rw [Table.under, List.count, List.countP_eq_length_filter]
  congr 1

/-- **A name is reported with the number of objects that were finalized under it.** -/
theorem mem_finalized {events : List TimedIncident} {name : String} {n : Nat} :
    (name, n) ∈ (ofIncidents events).finalized ↔
      0 < n ∧ n = (finalizedNames events).count name := by
  rw [finalized, mem_ranking, finalizedTypes_eq, Table.get?_gather_eq_some,
    List.foldl_add_const, Nat.zero_add, Nat.one_mul, length_under]
  refine and_congr_left fun (h : n = (finalizedNames events).count name) => ?_
  show (∃ x ∈ finalizedNames events, x = name) ↔ 0 < n
  rw [h, List.count_pos_iff]
  simp

theorem sum_finalized (events : List TimedIncident) :
    ((ofIncidents events).finalized.map Prod.snd).sum =
      events.countP fun x => x.finalized?.isSome := by
  have hcount : ∀ e ∈ (ofIncidents events).finalized,
      e.2 = (Table.under id e.1 (finalizedNames events)).length := by
    intro e he
    rw [length_under]
    exact (mem_finalized.mp he).2
  rw [List.map_congr_left hcount, ← length_finalizedNames, finalized, finalizedTypes_eq]
  exact sum_length_ranking_gather _ id _ _ _

/-- **The reports account for every incident.**  After any incidents

* each type of exceptions is reported once, with the number of its exceptions and the message
  of the last one;
* each name is reported once with the number of objects that were finalized under it, which
  is for each object the name its type number was given last before, or the lowercase digits of
  a number that had been given none; these numbers add up to that of all finalized objects;
* both reports fall strictly by count, and by name where counts are equal;
* starvations are reported as they came. -/
theorem report_of_incidents (events : List TimedIncident) :
    ((ofIncidents events).exceptions.map Prod.fst).Nodup ∧
    (ofIncidents events).exceptions.Pairwise (fun x y =>
      y.2.count < x.2.count ∨ x.2.count = y.2.count ∧ x.1 < y.1) ∧
    (∀ name t, (name, t) ∈ (ofIncidents events).exceptions ↔
      t.count = (messagesOf name events).length ∧
        (messagesOf name events).getLast? = some t.lastMessage) ∧
    ((ofIncidents events).finalized.map Prod.fst).Nodup ∧
    (ofIncidents events).finalized.Pairwise (fun x y =>
      y.2 < x.2 ∨ x.2 = y.2 ∧ x.1 < y.1) ∧
    (∀ name n, (name, n) ∈ (ofIncidents events).finalized ↔
      0 < n ∧ n = (finalizedNames events).count name) ∧
    ((ofIncidents events).finalized.map Prod.snd).sum =
      events.countP (fun x => x.finalized?.isSome) ∧
    (ofIncidents events).starvations = events.filterMap starvation? :=
  ⟨nodup_ranking _ _, pairwise_ranking ExceptionTally.count _, fun _ _ => mem_exceptions,
    nodup_ranking _ _, pairwise_ranking id _, fun _ _ => mem_finalized, sum_finalized events,
    starvations_eq events⟩

end Incidents
end RuntimeTrace
