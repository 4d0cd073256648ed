import Mathlib.Data.Fin.Basic
import Mathlib.Data.List.Induction
import RuntimeTrace.Proofs.Collection.Pauses
import RuntimeTrace.Proofs.Collection.Rules

/-!
# Collections inside a background collection

A background collection goes on while other collections begin and end, and its events do not
say that they are its own.  This file follows a trace of that shape: a background collection
starts, any number of other collections run from start to end, each with any reports of its
history and with its threads suspended or not, and the history of generation two ends the
background collection.

The tracker keeps the two kinds apart, and each collection is reported as if it had run alone.
What is reported of a collection inside is a function of its own events (`Reports`): its sizes
are sums over its own reports, and its pause is its own suspension.  Nothing of it reaches the
background collection, which is reported with what its start and its last event say.

The proof goes over the collections inside one by one.  Between two of them the tracker is
always the same: the background collection is open and unchanged, and nothing else is
(`beside`).  Within one, the reports of its history change three fields of what is open; the
sums are taken modulo the size of a word, so that they are the sums only if these fit.

Main statement: `nested_collections_are_reported`.
-/

namespace RuntimeTrace

/-! ## Sizes of generations -/

namespace GenerationSizes

/-- The size of one generation, large objects last. -/
def ofGeneration (s : GenerationSizes) (g : Fin 4) : UInt64 :=
  match g with
  | 0 => s.gen0
  | 1 => s.gen1
  | 2 => s.gen2
  | 3 => s.largeObjects

/-- Each generation is added to by its own entry, if there is one. -/
theorem ofGeneration_addList (s : GenerationSizes) (sizes : List UInt64) (g : Fin 4) :
    (s.addList sizes).ofGeneration g = s.ofGeneration g + sizes[g.val]?.getD 0 := by
  rcases sizes with _ | ⟨a, _ | ⟨b, _ | ⟨c, _ | ⟨d, rest⟩⟩⟩⟩
  all_goals
    match g with
    | 0 | 1 | 2 | 3 => simp [addList, ofGeneration]

theorem toNat_ofGeneration_zero (g : Fin 4) : (zero.ofGeneration g).toNat = 0 := by
  match g with
  | 0 | 1 | 2 | 3 => rfl

end GenerationSizes

/-! ## Reports of a history -/

namespace HistoryReport

/-- The entries for one generation, added up over all reports. -/
def total (size : GenerationChange → UInt64) (g : Fin 4) : List HistoryReport → Nat
  | [] => 0
  | .generations _ changes :: rest =>
    ((changes.map size)[g.val]?.getD 0).toNat + total size g rest
  | .global _ _ _ :: rest => total size g rest

/-- What a report says about the way of collecting. -/
def mechanisms? : HistoryReport → Option UInt32
  | .generations _ _ => none
  | .global _ _ mechanisms => some mechanisms

/-- Whether the last report on this says that the collection compacts. -/
def compacts (histories : List HistoryReport) : Bool :=
  match (histories.filterMap mechanisms?).getLast? with
  | some mechanisms => mechanisms &&& CollectionTracker.compactionBit != 0
  | none => false

end HistoryReport

namespace OpenCollection

/-- The collection with a report of its history. -/
def noted (c : OpenCollection) : HistoryReport → OpenCollection
  | .generations _ changes => c.addHistory changes
  | .global _ _ mechanisms => c.withMechanisms mechanisms

/-- The collection with all reports of its history. -/
def notedAll (c : OpenCollection) (histories : List HistoryReport) : OpenCollection :=
  histories.foldl noted c

/-- Two collections differ in what a history reports at most. -/
structure SameButHistory (c c' : OpenCollection) : Prop where
  identity : c'.report.identity = c.report.identity
  heapSizes : c'.report.heapSizes = c.report.heapSizes
  suspensionDuration : c'.report.suspensionDuration = c.report.suspensionDuration
  pauseDuration : c'.report.pauseDuration = c.report.pauseDuration
  suspensionStart : c'.suspensionStart = c.suspensionStart
  suspendedOnce : c'.suspendedOnce = c.suspendedOnce

theorem sameButHistory_noted (c : OpenCollection) (history : HistoryReport) :
    SameButHistory c (c.noted history) := by
  cases history with
  | generations context changes => exact ⟨rfl, rfl, rfl, rfl, rfl, rfl⟩
  | global context condemned mechanisms => exact ⟨rfl, rfl, rfl, rfl, rfl, rfl⟩

theorem SameButHistory.trans {c c' c'' : OpenCollection} (h : SameButHistory c c')
    (h' : SameButHistory c' c'') : SameButHistory c c'' where
  identity := h'.identity.trans h.identity
  heapSizes := h'.heapSizes.trans h.heapSizes
  suspensionDuration := h'.suspensionDuration.trans h.suspensionDuration
  pauseDuration := h'.pauseDuration.trans h.pauseDuration
  suspensionStart := h'.suspensionStart.trans h.suspensionStart
  suspendedOnce := h'.suspendedOnce.trans h.suspendedOnce

theorem sameButHistory_notedAll (c : OpenCollection) (histories : List HistoryReport) :
    SameButHistory c (c.notedAll histories) := by
  induction histories generalizing c with
  | nil => exact ⟨rfl, rfl, rfl, rfl, rfl, rfl⟩
  | cons history rest ih => exact (c.sameButHistory_noted history).trans (ih (c.noted history))

/-- A history adds the sizes of its entries to a field of the report. -/
structure Accumulates (field : ClosedCollection → GenerationSizes)
    (size : GenerationChange → UInt64) : Prop where
  addHistory : ∀ (c : OpenCollection) changes,
    field (c.addHistory changes).report = (field c.report).addList (changes.map size)
  withMechanisms : ∀ (c : OpenCollection) mechanisms,
    field (c.withMechanisms mechanisms).report = field c.report

theorem accumulates_sizeBefore :
    Accumulates ClosedCollection.sizeBefore GenerationChange.sizeBefore :=
  ⟨fun _ _ => rfl, fun _ _ => rfl⟩

theorem accumulates_sizeAfter :
    Accumulates ClosedCollection.sizeAfter GenerationChange.sizeAfter :=
  ⟨fun _ _ => rfl, fun _ _ => rfl⟩

section Sizes

variable {field : ClosedCollection → GenerationSizes} {size : GenerationChange → UInt64}
  {c : OpenCollection} {histories : List HistoryReport} {g : Fin 4}

/-- **Sizes are sums** as long as these fit in a word. -/
theorem Accumulates.toNat_notedAll (h : Accumulates field size)
    (hfits : ((field c.report).ofGeneration g).toNat + HistoryReport.total size g histories <
      UInt64.size) :
    ((field (c.notedAll histories).report).ofGeneration g).toNat =
      ((field c.report).ofGeneration g).toNat + HistoryReport.total size g histories := by
  induction histories generalizing c with
  | nil => rfl
  | cons history rest ih =>
    cases history with
    | generations context changes =>
      rw [HistoryReport.total] at hfits ⊢
      have hadd : ((field (c.addHistory changes).report).ofGeneration g).toNat =
          ((field c.report).ofGeneration g).toNat +
            ((changes.map size)[g.val]?.getD 0).toNat := by
        rw [h.addHistory, GenerationSizes.ofGeneration_addList, UInt64.toNat_add]
        exact Nat.mod_eq_of_lt (Nat.lt_of_le_of_lt (by omega) hfits)
      have hrest := ih (c := c.addHistory changes) (by omega)
      show ((field ((c.addHistory changes).notedAll rest).report).ofGeneration g).toNat = _
      omega
    | global context condemned mechanisms =>
      have hrest := ih (c := c.withMechanisms mechanisms) (by rwa [h.withMechanisms])
      rwa [h.withMechanisms] at hrest

/-- The sizes of a collection that begins are those of its history. -/
theorem Accumulates.toNat_notedAll_of_zero (h : Accumulates field size)
    (hzero : field c.report = GenerationSizes.zero)
    (hfits : HistoryReport.total size g histories < UInt64.size) :
    ((field (c.notedAll histories).report).ofGeneration g).toNat =
      HistoryReport.total size g histories := by
  have hbase : ((field c.report).ofGeneration g).toNat = 0 := by
    rw [hzero, GenerationSizes.toNat_ofGeneration_zero]
  have hsum := h.toNat_notedAll (by rwa [hbase, Nat.zero_add])
  rwa [hbase, Nat.zero_add] at hsum

end Sizes

/-- The last report on the way of collecting counts. -/
theorem isCompacting_notedAll {c : OpenCollection} (hc : c.report.isCompacting = false)
    (histories : List HistoryReport) :
    (c.notedAll histories).report.isCompacting = HistoryReport.compacts histories := by
  induction histories using List.reverseRecOn with
  | nil => exact hc
  | append_singleton earlier last ih =>
    rw [notedAll, List.foldl_append, HistoryReport.compacts, List.filterMap_append]
    cases last with
    | generations context changes =>
      rw [List.filterMap_cons_none (by rfl), List.filterMap_nil, List.append_nil]
      exact ih
    | global context condemned mechanisms =>
      rw [List.filterMap_cons_some (by rfl), List.filterMap_nil, List.getLast?_concat]
      rfl

end OpenCollection

/-! ## Traces -/

/-- The threads stand still. -/
structure Standstill where
  suspended : EventContext
  reason : UInt32
  restarted : EventContext

/-- All that is reported of a collection, other than a background one, under the rule that its
sizes end it. -/
structure NestedCollection where
  /-- For the collection, if threads are suspended for it. -/
  standstill : Option Standstill
  started : EventContext
  count : UInt32
  depth : UInt32
  reason : UInt32
  mode : UInt32
  notBackground : CollectionTracker.startsBackground depth mode = false
  histories : List HistoryReport
  sized : EventContext
  sizes : GenerationSizes

namespace NestedCollection

/-- The suspension, if there is one. -/
def suspensionInputs (k : NestedCollection) : List CollectionInput :=
  match k.standstill with
  | some s => [.event s.suspended (.suspendBegin s.reason)]
  | none => []

/-- The start. -/
def startInput (k : NestedCollection) : CollectionInput :=
  .event k.started (.start k.count k.depth k.reason k.mode)

/-- The report of sizes. -/
def sizesInput (k : NestedCollection) : CollectionInput := .event k.sized (.heapStats k.sizes)

/-- The restart, if there was a suspension. -/
def restartInputs (k : NestedCollection) : List CollectionInput :=
  match k.standstill with
  | some s => [.event s.restarted .restartEnd]
  | none => []

/-- The events of the collection. -/
def inputs (k : NestedCollection) : List CollectionInput :=
  k.suspensionInputs ++ ([k.startInput] ++ (k.histories.map HistoryReport.input ++
    ([k.sizesInput] ++ k.restartInputs)))

/-- Which collection it is. -/
def identity (k : NestedCollection) : CollectionIdentity :=
  ⟨k.started.processId, k.count, k.depth, CollectionReason.ofCode k.reason,
    CollectionMode.ofCode k.mode, k.started.time⟩

/-- The collection that its start opens, with the suspension it brings along. -/
def opened (k : NestedCollection) : OpenCollection :=
  CollectionTracker.opened k.started k.count k.depth k.reason k.mode
    (k.standstill.map fun s => s.suspended.time)

/-- What is reported of the collection `c` when the sizes have ended it and its threads run. -/
def closing (k : NestedCollection) (c : OpenCollection) : ClosedCollection :=
  match k.standstill with
  | some s => ((c.withSizes k.sizes).restart s.restarted.time none).finishAt k.sized.time
  | none => (c.withSizes k.sizes).finishAt k.sized.time

/-- The sizes of every generation add up to less than a word holds. -/
def SumsFit (k : NestedCollection) : Prop :=
  ∀ g, HistoryReport.total GenerationChange.sizeBefore g k.histories < UInt64.size ∧
    HistoryReport.total GenerationChange.sizeAfter g k.histories < UInt64.size

instance (k : NestedCollection) : Decidable k.SumsFit :=
  inferInstanceAs (Decidable (∀ _, _))

/-- `r` says what the events of the collection say, and nothing else. -/
structure Reports (k : NestedCollection) (r : ClosedCollection) : Prop where
  identity : r.identity = k.identity
  finish : r.finish = k.sized.time
  heapSizes : r.heapSizes = k.sizes
  sizeBefore : ∀ g, (r.sizeBefore.ofGeneration g).toNat =
    HistoryReport.total GenerationChange.sizeBefore g k.histories
  sizeAfter : ∀ g, (r.sizeAfter.ofGeneration g).toNat =
    HistoryReport.total GenerationChange.sizeAfter g k.histories
  isCompacting : r.isCompacting = HistoryReport.compacts k.histories
  suspension : r.suspensionDuration = r.pauseDuration
  /-- The pause is the time from the suspension to the restart. -/
  paused : ∀ s, k.standstill = some s →
    s.suspended.time.toNat + r.pauseDuration.toNat = s.restarted.time.toNat
  notPaused : k.standstill = none → r.pauseDuration = Duration.zero

end NestedCollection

/-- All that is reported of a background collection. -/
structure BackgroundCollection where
  started : EventContext
  count : UInt32
  reason : UInt32
  finished : EventContext
  mechanisms : UInt32

namespace BackgroundCollection

/-- The start; two is the generation and one is the code of the mode. -/
def startInput (b : BackgroundCollection) : CollectionInput :=
  .event b.started (.start b.count 2 b.reason 1)

/-- The history that ends the collection. -/
def finishInput (b : BackgroundCollection) : CollectionInput :=
  .event b.finished (.globalHeapHistory 2 b.mechanisms)

/-- A trace with other collections between start and end. -/
def trace (b : BackgroundCollection) (ks : List NestedCollection) : List CollectionInput :=
  [b.startInput] ++ (ks.flatMap NestedCollection.inputs ++ [b.finishInput])

/-- `r` says what the start and the end of the collection say, and nothing else. -/
structure Reports (b : BackgroundCollection) (r : ClosedCollection) : Prop where
  identity : r.identity = ⟨b.started.processId, b.count, 2, CollectionReason.ofCode b.reason,
    .background, b.started.time⟩
  finish : r.finish = b.finished.time
  heapSizes : r.heapSizes = GenerationSizes.zero
  sizeBefore : r.sizeBefore = GenerationSizes.zero
  sizeAfter : r.sizeAfter = GenerationSizes.zero
  isCompacting : r.isCompacting = (b.mechanisms &&& CollectionTracker.compactionBit != 0)
  suspension : r.suspensionDuration = Duration.zero
  pause : r.pauseDuration = Duration.zero

end BackgroundCollection

namespace CollectionTracker

/-- Inputs lead from one tracker to another, with some reports on the way. -/
structure Yields (t : CollectionTracker) (inputs : List CollectionInput)
    (reports : List ClosedCollection) (t' : CollectionTracker) : Prop where
  results : Run.results feed t inputs = reports
  after : Run.after feed t inputs = t'

namespace Yields

variable {t t' t'' : CollectionTracker} {rs rs' : List ClosedCollection}

theorem nil (t : CollectionTracker) : Yields t [] [] t := ⟨rfl, rfl⟩

theorem append {xs ys : List CollectionInput} (hxs : Yields t xs rs t')
    (hys : Yields t' ys rs' t'') : Yields t (xs ++ ys) (rs ++ rs') t'' where
  results := by rw [Run.results_append, hxs.results, hxs.after, hys.results]
  after := by rw [Run.after_append, hxs.after, hys.after]

/-- One input that gives nothing. -/
theorem quietly {x : CollectionInput} (h : t.feed x = (none, t')) : Yields t [x] [] t' where
  results := by rw [Run.results_cons, h, Run.results_nil]; rfl
  after := by rw [Run.after_cons, h, Run.after_nil]

/-- One input that gives a report. -/
theorem report {x : CollectionInput} {r : ClosedCollection} (h : t.feed x = (some r, t')) :
    Yields t [x] [r] t' where
  results := by rw [Run.results_cons, h, Run.results_nil]; rfl
  after := by rw [Run.after_cons, h, Run.after_nil]

end Yields

/-! ## One collection inside -/

/-- A background collection is open, if any, and nothing else. -/
def beside (b : Option OpenCollection) : CollectionTracker :=
  { start .heapStats with background := b }

/-- Another collection is open, too. -/
def within (b : Option OpenCollection) (c : OpenCollection) : CollectionTracker :=
  { beside b with ephemeral := some c }

variable {t : CollectionTracker} {c : OpenCollection} {b : Option OpenCollection}

theorem yields_opening (k : NestedCollection) (b : Option OpenCollection) :
    Yields (beside b) (k.suspensionInputs ++ [k.startInput]) [] (within b k.opened) := by
  have hsuspended : Yields (beside b) k.suspensionInputs []
      { beside b with suspension := k.standstill.map fun s => s.suspended.time } := by
    unfold NestedCollection.suspensionInputs
    cases k.standstill with
    | none => exact Yields.nil (beside b)
    | some s => exact Yields.quietly rfl
  refine hsuspended.append (Yields.quietly ?_)
  show (_, openCollection _ _ _ _ _ _) = _
  rw [openCollection, k.notBackground]
  rfl

/-- **A history is of the collection that is open beside the background one.** -/
theorem yields_histories (b : Option OpenCollection) (c : OpenCollection)
    (histories : List HistoryReport) :
    Yields (within b c) (histories.map HistoryReport.input) []
      (within b (c.notedAll histories)) := by
  induction histories generalizing c with
  | nil => exact Yields.nil (within b c)
  | cons history rest ih =>
    have hfirst : (within b c).feed history.input = (none, within b (c.noted history)) := by
      cases history with
      | generations context changes =>
        exact congrArg (Prod.mk none) (takeHeapHistory_of_ephemeral rfl changes)
      | global context condemned mechanisms =>
        exact takeGlobalHistory_of_ephemeral (t := within b c) rfl context.time condemned mechanisms
    exact (Yields.quietly hfirst).append (ih (c.noted history))

/-- **The sizes end the collection**, and it is reported at once if its threads run, and
otherwise when they restart. -/
theorem yields_closing (k : NestedCollection) (b : Option OpenCollection)
    (hc : c.suspensionStart = k.standstill.map fun s => s.suspended.time) :
    Yields (within b c) ([k.sizesInput] ++ k.restartInputs) [k.closing c] (beside b) := by
  unfold NestedCollection.restartInputs NestedCollection.closing
  cases hs : k.standstill with
  | none =>
    rw [hs] at hc
    have hends := takeHeapSizes_ends (t := within b c) rfl rfl hc rfl k.sized.time k.sizes
    exact Yields.report hends
  | some s =>
    have hne : c.suspensionStart ≠ none := by
      rw [hc, hs]
      exact Option.some_ne_none _
    have hheld : (within b c).feed k.sizesInput =
        (none, { beside b with held := some ((c.withSizes k.sizes).ended k.sized.time) }) :=
      takeHeapSizes_holds (t := within b c) rfl rfl (Or.inl hne) k.sized.time k.sizes
    refine (Yields.quietly hheld).append (Yields.report ?_)
    rw [feed, step, takeRestart_of_held rfl, report_restart_ended]
    rfl

theorem zero_plus (d : Duration) : Duration.zero.plus d = d := by
  have hfits : (0 : UInt64).toNat + d.nanos.toNat < UInt64.size := by
    rw [UInt64.toNat_zero, Nat.zero_add]
    exact d.nanos.toNat_lt
  show Duration.mk (saturatingAdd 0 d.nanos) = d
  rw [saturatingAdd, if_pos hfits, UInt64.zero_add]

/-- A collection that was not charged before is charged the time since its suspension. -/
theorem report_restart {since : Instant} (hsince : c.suspensionStart = some since)
    (honce : c.suspendedOnce = false) (hpause : c.report.pauseDuration = Duration.zero)
    (now : Instant) (waiting : Option Instant) :
    (c.restart now waiting).report = { c.report with
      suspensionDuration := now.since since, pauseDuration := now.since since } := by
  simp [OpenCollection.restart, OpenCollection.charge, hsince, honce, hpause, zero_plus]

/-- What comes out of a collection is what its events say. -/
theorem reports_closing {k : NestedCollection} (hfits : k.SumsFit)
    (hordered : ∀ s, k.standstill = some s → s.suspended.time.toNat ≤ s.restarted.time.toNat) :
    k.Reports (k.closing (k.opened.notedAll k.histories)) := by
  have hsame := k.opened.sameButHistory_notedAll k.histories
  have hcompacting := OpenCollection.isCompacting_notedAll (c := k.opened) rfl k.histories
  have hbefore : ∀ g, ((k.opened.notedAll k.histories).report.sizeBefore.ofGeneration g).toNat =
      HistoryReport.total GenerationChange.sizeBefore g k.histories := fun g =>
    OpenCollection.accumulates_sizeBefore.toNat_notedAll_of_zero rfl (hfits g).1
  have hafter : ∀ g, ((k.opened.notedAll k.histories).report.sizeAfter.ofGeneration g).toNat =
      HistoryReport.total GenerationChange.sizeAfter g k.histories := fun g =>
    OpenCollection.accumulates_sizeAfter.toNat_notedAll_of_zero rfl (hfits g).2
  generalize k.opened.notedAll k.histories = c at *
  unfold NestedCollection.closing
  cases hs : k.standstill with
  | none =>
    have hpause : c.report.pauseDuration = Duration.zero := hsame.pauseDuration
    have hsuspension : c.report.suspensionDuration = Duration.zero := hsame.suspensionDuration
    exact {
      identity := hsame.identity
      finish := rfl
      heapSizes := rfl
      sizeBefore := hbefore
      sizeAfter := hafter
      isCompacting := hcompacting
      suspension := hsuspension.trans hpause.symm
      paused := fun s hsome => absurd (hs.symm.trans hsome) (by simp)
      notPaused := fun _ => hpause }
  | some s =>
    have hsince : (c.withSizes k.sizes).suspensionStart = some s.suspended.time := by
      have hopened : k.opened.suspensionStart = some s.suspended.time := by
        rw [NestedCollection.opened, hs]
        rfl
      exact hsame.suspensionStart.trans hopened
    have hreport := report_restart hsince hsame.suspendedOnce hsame.pauseDuration
      s.restarted.time none
    have hle := hordered s hs
    show k.Reports (OpenCollection.finishAt _ k.sized.time)
    rw [OpenCollection.finishAt, hreport]
    exact {
      identity := hsame.identity
      finish := rfl
      heapSizes := rfl
      sizeBefore := hbefore
      sizeAfter := hafter
      isCompacting := hcompacting
      suspension := rfl
      paused := by
        intro s' hsome
        rw [hs, Option.some.injEq] at hsome
        subst hsome
        show s.suspended.time.toNat + (s.restarted.time.since s.suspended.time).toNat = _
        rw [Instant.toNat_since]
        omega
      notPaused := fun hnone => absurd (hs.symm.trans hnone) (by simp) }

/-- **One collection inside** is reported, and leaves nothing behind. -/
theorem exists_reports {k : NestedCollection} (hfits : k.SumsFit)
    (hordered : ∀ s, k.standstill = some s → s.suspended.time.toNat ≤ s.restarted.time.toNat)
    (b : Option OpenCollection) :
    ∃ r, k.Reports r ∧ Yields (beside b) k.inputs [r] (beside b) := by
  refine ⟨_, reports_closing hfits hordered, ?_⟩
  have hsame := k.opened.sameButHistory_notedAll k.histories
  have hopening := yields_opening k b
  have hhistories := yields_histories b k.opened k.histories
  have hclosing := yields_closing (c := k.opened.notedAll k.histories) k b hsame.suspensionStart
  have hall := hopening.append (hhistories.append hclosing)
  rwa [List.append_assoc] at hall

/-! ## The whole trace -/

/-- **All collections inside** are reported in order, and leave nothing behind. -/
theorem exists_forall₂_reports {ks : List NestedCollection} (hfits : ∀ k ∈ ks, k.SumsFit)
    (hordered : ∀ k ∈ ks, ∀ s, k.standstill = some s →
      s.suspended.time.toNat ≤ s.restarted.time.toNat)
    (b : Option OpenCollection) :
    ∃ rs, List.Forall₂ NestedCollection.Reports ks rs ∧
      Yields (beside b) (ks.flatMap NestedCollection.inputs) rs (beside b) := by
  induction ks with
  | nil => exact ⟨[], .nil, Yields.nil (beside b)⟩
  | cons k rest ih =>
    obtain ⟨r, hreport, hfirst⟩ := exists_reports (hfits k List.mem_cons_self)
      (hordered k List.mem_cons_self) b
    obtain ⟨rs, hreports, hrest⟩ := ih (fun k hk => hfits k (List.mem_cons_of_mem _ hk))
      fun k hk => hordered k (List.mem_cons_of_mem _ hk)
    exact ⟨r :: rs, .cons hreport hreports, hfirst.append hrest⟩

/-- A suspension comes before its restart. -/
theorem sublist_trace (background : BackgroundCollection) {ks : List NestedCollection}
    {k : NestedCollection} (hk : k ∈ ks) {s : Standstill} (hs : k.standstill = some s) :
    [.event s.suspended (.suspendBegin s.reason), .event s.restarted .restartEnd].Sublist
      (background.trace ks) := by
  have hinputs : [.event s.suspended (.suspendBegin s.reason),
      .event s.restarted .restartEnd].Sublist k.inputs := by
    have hsuspension : k.suspensionInputs = [.event s.suspended (.suspendBegin s.reason)] := by
      rw [NestedCollection.suspensionInputs, hs]
    have hrestart : k.restartInputs = [.event s.restarted .restartEnd] := by
      rw [NestedCollection.restartInputs, hs]
    rw [NestedCollection.inputs, hsuspension, hrestart]
    exact List.Sublist.cons_cons _ (List.singleton_sublist.mpr (by simp))
  have hall : k.inputs.Sublist (ks.flatMap NestedCollection.inputs) :=
    List.sublist_flatten_of_mem (List.mem_map_of_mem hk)
  exact (hinputs.trans hall).trans
    ((List.sublist_append_left _ _).trans (List.sublist_append_right _ _))

/-- If the clock does not go back, a suspension begins before its restart. -/
theorem suspended_le_restarted {background : BackgroundCollection} {ks : List NestedCollection}
    (htimely : CollectionInput.Timely (background.trace ks)) {k : NestedCollection} (hk : k ∈ ks)
    {s : Standstill} (hs : k.standstill = some s) :
    s.suspended.time.toNat ≤ s.restarted.time.toNat := by
  have hsublist := (sublist_trace background hk hs).filterMap CollectionInput.time?
  exact List.rel_of_pairwise_cons (List.Pairwise.sublist hsublist htimely) List.mem_cons_self

/-- **Collections inside a background collection are reported as if each had run alone.**
Under the rule that sizes end a collection, let a background collection start, any number of
other collections run from start to end, each with or without a suspension of its own, and then
the history of generation two arrive.  If the clock does not go back and the sizes of each
collection add up to less than a word holds, exactly these collections are reported, the inner
ones in order and then the background one; each report says what the events of its collection
say; and the tracker is a new one again, with nothing open and nothing missed. -/
theorem nested_collections_are_reported (background : BackgroundCollection)
    (ks : List NestedCollection) (htimely : CollectionInput.Timely (background.trace ks))
    (hfits : ∀ k ∈ ks, k.SumsFit) :
    ∃ rs r, Run.results feed (start .heapStats) (background.trace ks) = rs ++ [r] ∧
      List.Forall₂ NestedCollection.Reports ks rs ∧ background.Reports r ∧
      following .heapStats (background.trace ks) = start .heapStats := by
  let c := opened background.started background.count 2 background.reason 1 none
  have hopening : Yields (start .heapStats) [background.startInput] [] (beside (some c)) :=
    Yields.quietly rfl
  obtain ⟨rs, hreports, hinside⟩ := exists_forall₂_reports hfits
    (fun k hk s hs => suspended_le_restarted htimely hk hs) (some c)
  have hclosing : Yields (beside (some c)) [background.finishInput]
      [(c.withMechanisms background.mechanisms).finishAt background.finished.time]
      (start .heapStats) := by
    refine Yields.report ?_
    show takeGlobalHistory (beside (some c)) background.finished.time 2 background.mechanisms = _
    rw [takeGlobalHistory_of_background rfl rfl, if_pos ⟨rfl, rfl⟩]
    rfl
  have hall := hopening.append (hinside.append hclosing)
  exact ⟨rs, _, hall.results, hreports, ⟨rfl, rfl, rfl, rfl, rfl, rfl, rfl, rfl⟩, hall.after⟩

/-- Two collections inside a third.  Threads are suspended for the first, which reports sizes
twice and compacts; the second only starts and ends. -/
theorem nested_collections_are_reported_twoInside :
    let about (time : UInt64) : EventContext :=
      ⟨⟨time⟩, 7, 0, ActivityId.nil, ActivityId.nil, 0, none⟩
    let background : BackgroundCollection := ⟨about 1, 1, 0, about 30, 0⟩
    let first : NestedCollection :=
      ⟨some ⟨about 3, 1, about 11⟩, about 4, 2, 0, 0, 0, rfl,
        [.generations (about 5) [⟨10, 4⟩, ⟨20, 5⟩], .global (about 6) 0 2,
          .generations (about 7) [⟨1, 1⟩, ⟨2, 2⟩, ⟨3, 3⟩, ⟨4, 4⟩, ⟨5, 5⟩]],
        about 9, ⟨1, 2, 3, 4⟩⟩
    let second : NestedCollection :=
      ⟨none, about 20, 3, 1, 0, 2, rfl, [], about 21, ⟨5, 6, 7, 8⟩⟩
    CollectionInput.Timely (background.trace [first, second]) ∧
      (∀ k ∈ [first, second], k.SumsFit) ∧
      ∃ rs r, Run.results feed (start .heapStats) (background.trace [first, second]) =
          rs ++ [r] ∧
        List.Forall₂ NestedCollection.Reports [first, second] rs ∧ background.Reports r ∧
        following .heapStats (background.trace [first, second]) = start .heapStats := by
  intro about background first second
  have htimely : CollectionInput.Timely (background.trace [first, second]) := by decide
  have hfits : ∀ k ∈ [first, second], k.SumsFit := by decide
  exact ⟨htimely, hfits, nested_collections_are_reported background [first, second] htimely hfits⟩

end CollectionTracker
end RuntimeTrace
