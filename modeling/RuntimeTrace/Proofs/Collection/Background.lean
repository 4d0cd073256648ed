import Mathlib.Data.List.Induction
import RuntimeTrace.Proofs.Collection.Discipline

/-!
# The end of a background collection

A background collection ends with its history.  All that a history says of the collection it is
of is the generation.  The tracker does not go by that, but takes a history for that of the
current collection; so a collection that goes on beside the background one takes it, of whatever
generation it is.  Then nothing comes out, the background collection goes on, and the other one
is compacting or not as the background one was.

A background collection that has lost its history goes on until a history of generation two finds
no other collection open (`EndsBackground`), unless it is thrown away or another background
collection starts (`ClearsBackground`).  This depends on where the collections are and on nothing
else, so it is read off the moves of a step (`Move.background_stays`).

Main statement: `background_ends_with_history`.
-/

namespace RuntimeTrace

/-- **A background collection stays where it is**, or comes out, or is thrown away, or is
replaced. -/
theorem Move.background_stays {p p' : Places} {started out : Option CollectionIdentity} {lost : Nat}
    (h : Move p started lost out p') {id : CollectionIdentity} (hopen : p.background = some id) :
    p'.background = some id ∨ out = some id ∨ lost ≠ 0 ∨
      ∃ id', started = some id' ∧ id'.kind = .background := by
  cases h with
  | stays => exact .inl hopen
  | releases => exact .inl hopen
  | triggers => exact .inr (.inr (.inl (by simp [hopen])))
  | resets => exact .inr (.inr (.inl (by simp [Places.count, hopen])))
  | opensBackground hkind => exact .inr (.inr (.inr ⟨_, rfl, hkind⟩))
  | opensEphemeral hkind => exact .inl hopen
  | closesBackground hclosed => exact .inr (.inl (hclosed.symm.trans hopen))
  | closesEphemeral hclosed => exact .inl hopen
  | holds hclosed => exact .inl hopen

/-- The input throws the background collection away, or starts another. -/
def CollectionInput.ClearsBackground : CollectionInput → Prop
  | .reset | .event _ (.triggered _) => True
  | x => ∃ id, x.started? = some id ∧ id.kind = .background

namespace CollectionTracker

variable {t : CollectionTracker} {c : OpenCollection} {rule : CloseRule}
  {inputs : List CollectionInput}

/-- The input is a history of generation two, and no collection but the background one is open. -/
def EndsBackground (t : CollectionTracker) (x : CollectionInput) : Prop :=
  t.ephemeral = none ∧ ∃ context mechanisms, x = .event context (.globalHeapHistory 2 mechanisms)

/-- What comes out of a tracker and is a background collection comes out at its end. -/
theorem endsBackground_of_feed (h : t.Disciplined rule) {x : CollectionInput} {r : ClosedCollection}
    (hout : (t.feed x).1 = some r) (hbackground : r.IsBackground) : t.EndsBackground x := by
  obtain ⟨context, mechanisms, rfl⟩ := h.exists_history hout hbackground
  refine ⟨?_, context, mechanisms, rfl⟩
  cases he : t.ephemeral with
  | none => rfl
  | some other =>
    rw [feed, step, takeGlobalHistory_of_ephemeral he] at hout
    exact absurd hout (by simp)

/-- An input that throws something away throws the background collection away, too. -/
theorem clearsBackground_of_discardedBy {x : CollectionInput} (h : t.discardedBy x ≠ 0) :
    x.ClearsBackground := by
  cases x with
  | reset => trivial
  | event context event =>
    cases event with
    | triggered reason => trivial
    | start _ _ _ _ | suspendBegin _ | heapStats _ | perHeapHistory _ | globalHeapHistory _ _
    | restartEnd => exact absurd rfl h

theorem clearsBackground_of_started? {x : CollectionInput} {id : CollectionIdentity}
    (hstarted : x.started? = some id) (hkind : id.kind = .background) : x.ClearsBackground := by
  unfold CollectionInput.ClearsBackground
  split
  · trivial
  · trivial
  · exact ⟨id, hstarted, hkind⟩

/-- **A background collection goes on** through every input that does not end or clear it. -/
theorem Disciplined.background_goes_on (h : t.Disciplined rule) (hopen : t.background = some c)
    {x : CollectionInput} (hend : ¬ t.EndsBackground x) (hclear : ¬ x.ClearsBackground) :
    ∃ c', (t.feed x).2.background = some c' ∧ c'.identity = c.identity := by
  have hplace : t.places.background = some c.identity := congrArg (Option.map _) hopen
  rcases (t.moves_feed x).background_stays hplace with hstays | hout | hlost | ⟨id, hstarted, hkind⟩
  · exact Option.map_eq_some_iff.mp hstays
  · obtain ⟨r, hr, hidentity⟩ := Option.map_eq_some_iff.mp hout
    have hbackground : r.IsBackground := by
      rw [ClosedCollection.isBackground_iff, hidentity]
      exact (ClosedCollection.isBackground_iff _).mp (h.background c hopen)
    exact absurd (endsBackground_of_feed h hr hbackground) hend
  · exact absurd (clearsBackground_of_discardedBy hlost) hclear
  · exact absurd (clearsBackground_of_started? hstarted hkind) hclear

/-- No input ends or clears the background collection, given the inputs that came before. -/
def Spares (rule : CloseRule) (inputs later : List CollectionInput) : Prop :=
  ∀ n x, later[n]? = some x →
    ¬ (following rule (inputs ++ later.take n)).EndsBackground x ∧ ¬ x.ClearsBackground

theorem Spares.init {init : List CollectionInput} {x : CollectionInput}
    (h : Spares rule inputs (init ++ [x])) :
    Spares rule inputs init ∧
      ¬ (following rule (inputs ++ init)).EndsBackground x ∧ ¬ x.ClearsBackground := by
  constructor
  · intro n y hy
    have hn : n < init.length := (List.getElem?_eq_some_iff.mp hy).1
    have hstep := h n y (by rw [List.getElem?_append_left hn]; exact hy)
    rwa [List.take_append_of_le_length (Nat.le_of_lt hn)] at hstep
  · have hstep := h init.length x (by simp)
    rwa [List.take_left] at hstep

/-- A background collection is open as long as inputs spare it. -/
theorem background_of_spares (hopen : (following rule inputs).background = some c)
    {later : List CollectionInput} (hspares : Spares rule inputs later) :
    ∃ c', (following rule (inputs ++ later)).background = some c' ∧ c'.identity = c.identity := by
  induction later using List.reverseRecOn with
  | nil => exact ⟨c, by rwa [List.append_nil], rfl⟩
  | append_singleton init x ih =>
    obtain ⟨hinit, hend, hclear⟩ := hspares.init
    obtain ⟨before, hbefore, hidentity⟩ := ih hinit
    obtain ⟨c', hafter, hsame⟩ :=
      (disciplined_following rule (inputs ++ init)).background_goes_on hbefore hend hclear
    refine ⟨c', ?_, hsame.trans hidentity⟩
    rw [← List.append_assoc, following, Run.after_append]
    exact hafter

/-- **A background collection ends with its history**, if no other collection is open.  Under
either rule, and after every sequence of inputs that leaves a background collection open, a
history of generation two

* reports that collection, as ended then and compacting as the history says, and leaves its
  place empty and the rest of the tracker as it is, when no other collection is open;
* reports nothing, and only changes whether that collection is compacting, when another is open.

The background collection is open, too, after all further inputs among which there is no such
history without another collection open, no trigger, no reset, and no start of a background
collection. -/
theorem background_ends_with_history (rule : CloseRule) (inputs : List CollectionInput)
    (hopen : (following rule inputs).background = some c) :
    (∀ context mechanisms, (following rule inputs).ephemeral = none →
      (following rule inputs).step context (.globalHeapHistory 2 mechanisms) =
        (some { c.report with
            isCompacting := mechanisms &&& compactionBit != 0, finish := context.time },
          { following rule inputs with background := none })) ∧
    (∀ context mechanisms other, (following rule inputs).ephemeral = some other →
      (following rule inputs).step context (.globalHeapHistory 2 mechanisms) =
        (none, { following rule inputs with ephemeral := some { other with report :=
          { other.report with isCompacting := mechanisms &&& compactionBit != 0 } } })) ∧
    ∀ later, Spares rule inputs later →
      ∃ c', (following rule (inputs ++ later)).background = some c' ∧
        c'.identity = c.identity := by
  refine ⟨?_, ?_, fun later hspares => background_of_spares hopen hspares⟩
  · intro context mechanisms hother
    exact (disciplined_following rule inputs).takeGlobalHistory_of_background hother hopen
      context.time mechanisms
  · intro context mechanisms other hother
    exact takeGlobalHistory_of_ephemeral hother context.time 2 mechanisms

/-- A background collection, and one of generation zero that starts while it goes on. -/
def startedWithin : List CollectionInput :=
  let about (time : UInt64) : EventContext :=
    ⟨⟨time⟩, 7, 0, ActivityId.nil, ActivityId.nil, 0, none⟩
  [.event (about 0) (.start 1 2 0 1), .event (about 10) (.start 2 0 0 2)]

/-- The other collection ends, and the history ends the background collection; or the history
comes first, and the background collection is open when the other has ended. -/
theorem background_ends_with_history_startedWithin :
    let about (time : UInt64) : EventContext :=
      ⟨⟨time⟩, 7, 0, ActivityId.nil, ActivityId.nil, 0, none⟩
    let sizes : CollectionInput := .event (about 15) (.heapStats GenerationSizes.zero)
    let history : CollectionInput := .event (about 15) (.globalHeapHistory 2 2)
    ∃ c, (following .heapStats (startedWithin ++ [sizes])).background = some c ∧
      (following .heapStats (startedWithin ++ [sizes])).step (about 20)
          (.globalHeapHistory 2 2) =
        (some { c.report with isCompacting := true, finish := ⟨20⟩ },
          { following .heapStats (startedWithin ++ [sizes]) with background := none }) ∧
      Spares .heapStats startedWithin [history, sizes] ∧
      ∃ c', (following .heapStats (startedWithin ++ [history, sizes])).background = some c' ∧
        c'.identity = c.identity := by
  intro about sizes history
  have hsome : (following .heapStats (startedWithin ++ [sizes])).background.isSome := by decide
  obtain ⟨c, hopen⟩ := Option.isSome_iff_exists.mp hsome
  have hsame : (following .heapStats startedWithin).background = some c := by
    rw [← hopen]
    decide
  have hspares : Spares .heapStats startedWithin [history, sizes] := by
    intro n x hx
    match n, hx with
    | 0, hx =>
      rw [← Option.some.inj hx]
      refine ⟨fun hend => absurd hend.1 (by decide), ?_⟩
      rintro ⟨_, hstarted, -⟩
      exact absurd hstarted (by simp [CollectionInput.started?])
    | 1, hx =>
      rw [← Option.some.inj hx]
      refine ⟨fun hend => absurd hend.1 (by decide), ?_⟩
      rintro ⟨_, hstarted, -⟩
      exact absurd hstarted (by simp [CollectionInput.started?])
    | n + 2, hx => cases hx
  have hends := background_ends_with_history .heapStats (startedWithin ++ [sizes]) hopen
  have hgoes := background_ends_with_history .heapStats startedWithin hsame
  exact ⟨c, hopen, hends.1 (about 20) 2 (by decide), hspares, hgoes.2.2 _ hspares⟩

/-- **A history can be lost to another collection.**  Under either rule the collection of
generation zero takes the history of the background collection: nothing comes out, the background
collection goes on, and the other one is compacting. -/
theorem history_taken_by_other :
    let about (time : UInt64) : EventContext :=
      ⟨⟨time⟩, 7, 0, ActivityId.nil, ActivityId.nil, 0, none⟩
    ∀ rule, ∃ c other,
      (following rule startedWithin).background = some c ∧
      (following rule startedWithin).ephemeral = some other ∧
      other.report.generation = 0 ∧ other.report.isCompacting = false ∧
      (following rule startedWithin).step (about 20) (.globalHeapHistory 2 2) =
        (none, { following rule startedWithin with ephemeral := some { other with report :=
          { other.report with isCompacting := true } } }) := by
  intro about rule
  cases rule with
  | heapStats => exact ⟨_, _, rfl, rfl, rfl, rfl, by decide⟩
  | restartEnd => exact ⟨_, _, rfl, rfl, rfl, rfl, by decide⟩

end CollectionTracker
end RuntimeTrace
