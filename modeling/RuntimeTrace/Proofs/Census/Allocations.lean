import RuntimeTrace.Census.Allocations
import RuntimeTrace.Proofs.CallTree.Reordering
import RuntimeTrace.Proofs.Census.Ranking

/-!
# What a census of allocations adds up to

The census is a run over samples.  Its table is filled by the name of the type, so a type has
what its own samples make, and the report is the ranking of that table by size.

Sizes stop at the largest word.  A sum that is stopped is the smaller of the word and the
true sum (`Stopped`), and in this form sums may be stopped early: what is left of the parts
adds up to the same as the whole (`stopped_sum`).  So the total, which is kept apart, is also
that of the report, near the end of the words as well.

Main statement: `report_adds_up`.
-/

namespace RuntimeTrace

/-! ## Sums that stop -/

/-- A word is the smaller of the largest word and a number. -/
def Stopped (word : UInt64) (n : Nat) : Prop := word.toNat = min (UInt64.size - 1) n

theorem stopped_foldl (amounts : List UInt64) {word : UInt64} {n : Nat} (h : Stopped word n) :
    Stopped (amounts.foldl saturatingAdd word) (n + (amounts.map UInt64.toNat).sum) := by
  induction amounts generalizing word n with
  | nil => exact h
  | cons amount amounts ih =>
    have hnext : Stopped (saturatingAdd word amount) (n + amount.toNat) := by
      unfold Stopped at h ⊢
      rw [toNat_saturatingAdd, h]
      omega
    rw [List.foldl_cons, List.map_cons, List.sum_cons, ← Nat.add_assoc]
    exact ih hnext

theorem stopped_zero : Stopped 0 0 := rfl

/-- Parts may be stopped before they are added up. -/
theorem stopped_sum {β : Type} (whole : UInt64) (part : β → UInt64) (size : β → Nat)
    (parts : List β) (hparts : ∀ p ∈ parts, Stopped (part p) (size p))
    (hwhole : Stopped whole (parts.map size).sum) :
    Stopped whole (parts.map fun p => (part p).toNat).sum := by
  have hsums : min (UInt64.size - 1) (parts.map fun p => (part p).toNat).sum =
      min (UInt64.size - 1) (parts.map size).sum := by
    clear hwhole
    induction parts with
    | nil => rfl
    | cons p parts ih =>
      rw [List.forall_mem_cons] at hparts
      have hp := hparts.1
      have hrest := ih hparts.2
      unfold Stopped at hp
      rw [List.map_cons, List.map_cons, List.sum_cons, List.sum_cons]
      omega
  exact hwhole.trans hsums.symm

/-- A sampled allocation. -/
structure AllocationSample where
  typeName : String
  amount : UInt64
  isLarge : Bool
  /-- The frames that were captured, outermost first. -/
  stack : Option (List Frame)

/-- A stack with at least one frame was captured. -/
def AllocationSample.hasFrames (s : AllocationSample) : Bool := s.stack.any (· ≠ [])

theorem stopped_amounts (samples : List AllocationSample) :
    Stopped ((samples.map AllocationSample.amount).foldl saturatingAdd 0)
      (samples.map fun s => s.amount.toNat).sum := by
  have hsum := stopped_foldl (samples.map AllocationSample.amount) stopped_zero
  rwa [Nat.zero_add, List.map_map] at hsum

namespace TypeTally

/-- Takes in a sample. -/
def take (t : TypeTally) (s : AllocationSample) : TypeTally := t.add s.amount s.isLarge s.stack

/-- What samples of one type make. -/
def ofSamples (samples : List AllocationSample) : TypeTally := samples.foldl take none

theorem size_ofSamples (samples : List AllocationSample) : (ofSamples samples).size =
    (samples.map AllocationSample.amount).foldl saturatingAdd 0 := by
  rw [List.foldl_map]
  exact (List.foldl_hom size fun _ _ => rfl).symm

theorem stopped_size (samples : List AllocationSample) :
    Stopped (ofSamples samples).size (samples.map fun s => s.amount.toNat).sum := by
  rw [size_ofSamples]
  exact stopped_amounts samples

theorem count_ofSamples (samples : List AllocationSample) :
    (ofSamples samples).count = samples.length :=
  calc (ofSamples samples).count
      = samples.foldl (fun n _ => n + 1) 0 := (List.foldl_hom count fun _ _ => rfl).symm
    _ = samples.length := by rw [List.foldl_add_const, Nat.zero_add, Nat.one_mul]

theorem largeCount_ofSamples (samples : List AllocationSample) :
    (ofSamples samples).largeCount = samples.countP AllocationSample.isLarge := by
  induction samples using List.reverseRecOn with
  | nil => rfl
  | append_singleton samples s ih =>
    rw [ofSamples, List.foldl_append, List.countP_append, List.countP_singleton, ← ih]
    show (if s.isLarge then (ofSamples samples).largeCount + 1 else _) = _
    split <;> rfl

theorem callTree_ofSamples (samples : List AllocationSample) : (ofSamples samples).callTree =
    CallTree.ofStacks (samples.filterMap AllocationSample.stack) := by
  rw [CallTree.ofStacks, List.foldl_filterMap]
  refine (List.foldl_hom callTree fun t s => ?_).symm
  cases hstack : s.stack <;> simp [take, add, hstack]

theorem stackCount_ofSamples (samples : List AllocationSample) :
    (ofSamples samples).callTree.stackCount = samples.countP AllocationSample.hasFrames := by
  rw [callTree_ofSamples, CallTree.stackCount_ofStacks, List.countP_filterMap]
  refine List.countP_congr fun s _ => ?_
  rw [AllocationSample.hasFrames]
  cases s.stack <;> simp

/-- The same numbers, and call trees that differ in the order of siblings and in addresses
only. -/
structure Alike (t u : TypeTally) : Prop where
  size : t.size = u.size
  count : t.count = u.count
  largeCount : t.largeCount = u.largeCount
  callTree : t.callTree.Alike u.callTree

/-- **The order of samples is not seen in what they make.** -/
theorem alike_ofSamples {samples samples' : List AllocationSample} (h : samples.Perm samples') :
    (ofSamples samples).Alike (ofSamples samples') where
  size := by
    apply UInt64.toNat_inj.mp
    rw [stopped_size, stopped_size, (h.map fun s => s.amount.toNat).sum_eq]
  count := by rw [count_ofSamples, count_ofSamples, h.length_eq]
  largeCount := by rw [largeCount_ofSamples, largeCount_ofSamples, h.countP_eq]
  callTree := by
    rw [callTree_ofSamples, callTree_ofSamples]
    exact CallTree.alike_ofStacks (h.filterMap _)

end TypeTally

namespace Allocations

/-- Takes in a sample. -/
def take (a : Allocations) (s : AllocationSample) : Allocations :=
  a.record s.typeName s.amount s.isLarge s.stack

/-- The census of some samples, in the order in which they arrive. -/
def ofSamples (samples : List AllocationSample) : Allocations := samples.foldl take empty

/-- The samples of a type. -/
def ofType (name : String) (samples : List AllocationSample) : List AllocationSample :=
  samples.filter fun s => s.typeName = name

theorem types_ofSamples (samples : List AllocationSample) : (ofSamples samples).types =
    Table.gather AllocationSample.typeName TypeTally.none TypeTally.take samples :=
  (List.foldl_hom types fun _ _ => rfl).symm

theorem totalCount_ofSamples (samples : List AllocationSample) :
    (ofSamples samples).totalCount = samples.length :=
  calc (ofSamples samples).totalCount
      = samples.foldl (fun n _ => n + 1) 0 := (List.foldl_hom totalCount fun _ _ => rfl).symm
    _ = samples.length := by rw [List.foldl_add_const, Nat.zero_add, Nat.one_mul]

theorem stopped_totalSize (samples : List AllocationSample) :
    Stopped (ofSamples samples).totalSize (samples.map fun s => s.amount.toNat).sum := by
  have hfold : (ofSamples samples).totalSize =
      (samples.map AllocationSample.amount).foldl saturatingAdd 0 := by
    rw [List.foldl_map]
    exact (List.foldl_hom totalSize fun _ _ => rfl).symm
  rw [hfold]
  exact stopped_amounts samples

/-- **A type is in the report with what its samples make.** -/
theorem mem_largestFirst {samples : List AllocationSample} {name : String} {t : TypeTally} :
    (name, t) ∈ (ofSamples samples).largestFirst ↔
      (∃ s ∈ samples, s.typeName = name) ∧ t = TypeTally.ofSamples (ofType name samples) := by
  rw [largestFirst, mem_ranking, types_ofSamples, Table.get?_gather_eq_some]
  rfl

/-- What the report has under a name. -/
theorem eq_of_mem_largestFirst {samples : List AllocationSample} {e : String × TypeTally}
    (h : e ∈ (ofSamples samples).largestFirst) :
    e.2 = TypeTally.ofSamples (ofType e.1 samples) :=
  (mem_largestFirst.mp h).2

theorem totalCount_eq (samples : List AllocationSample) : (ofSamples samples).totalCount =
    ((ofSamples samples).largestFirst.map fun e => e.2.count).sum := by
  have hcount : ∀ e ∈ (ofSamples samples).largestFirst,
      e.2.count = (ofType e.1 samples).length := by
    intro e he
    rw [eq_of_mem_largestFirst he, TypeTally.count_ofSamples]
  rw [List.map_congr_left hcount, totalCount_ofSamples, largestFirst, types_ofSamples]
  exact (sum_length_ranking_gather _ AllocationSample.typeName _ _ samples).symm

theorem totalSize_eq (samples : List AllocationSample) : Stopped (ofSamples samples).totalSize
    ((ofSamples samples).largestFirst.map fun e => e.2.size.toNat).sum := by
  refine stopped_sum _ (fun e : String × TypeTally => e.2.size)
    (fun e => ((ofType e.1 samples).map fun s => s.amount.toNat).sum) _ ?_ ?_
  · intro e he
    rw [eq_of_mem_largestFirst he]
    exact TypeTally.stopped_size _
  · rw [largestFirst, types_ofSamples]
    exact (stopped_totalSize samples).trans
      (congrArg _ (sum_ranking_gather _ AllocationSample.typeName _ _ _ samples).symm)

/-- **The order of samples is not seen in the report.** -/
theorem alike_largestFirst {samples samples' : List AllocationSample}
    (h : samples.Perm samples') :
    List.Forall₂ (fun x y => x.1 = y.1 ∧ x.2.Alike y.2) (ofSamples samples).largestFirst
      (ofSamples samples').largestFirst := by
  refine forall₂_ranking (fun _ _ hsame => congrArg UInt64.toNat hsame.size) fun name => ?_
  have hown : (ofType name samples).Perm (ofType name samples') := h.filter _
  rw [types_ofSamples, types_ofSamples, Table.get?_gather, Table.get?_gather]
  show Option.Rel TypeTally.Alike (if ofType name samples = [] then none else _)
    (if ofType name samples' = [] then none else _)
  have hempty : ofType name samples = [] ↔ ofType name samples' = [] := by
    rw [← List.length_eq_zero_iff, hown.length_eq, List.length_eq_zero_iff]
  by_cases hnil : ofType name samples = []
  · rw [if_pos hnil, if_pos (hempty.mp hnil)]
    exact .none
  · rw [if_neg hnil, if_neg (mt hempty.mpr hnil)]
    exact .some (TypeTally.alike_ofSamples hown)

/-- **The report is an account of all samples.**  After any sequence of samples

* it has each type that was sampled exactly once, and no other;
* it falls strictly by size, and by name where sizes are equal;
* a type has the sum of its amounts, held at the largest word, the numbers of its samples
  and of its large samples, and the merged stacks of its samples, of which those with a frame
  are counted;
* the total count is the sum of the counts in the report, and the total size the sum of the
  sizes in the report, held at the largest word;
* in another order the samples have the same totals and the same report, up to the order of
  siblings and the addresses in its call trees. -/
theorem report_adds_up (samples : List AllocationSample) :
    ((ofSamples samples).largestFirst.map Prod.fst).Nodup ∧
    (∀ name, (∃ t, (name, t) ∈ (ofSamples samples).largestFirst) ↔
      ∃ s ∈ samples, s.typeName = name) ∧
    (ofSamples samples).largestFirst.Pairwise (fun x y =>
      y.2.size.toNat < x.2.size.toNat ∨ x.2.size.toNat = y.2.size.toNat ∧ x.1 < y.1) ∧
    (∀ name t, (name, t) ∈ (ofSamples samples).largestFirst →
      t.size.toNat =
        min (UInt64.size - 1) ((ofType name samples).map fun s => s.amount.toNat).sum ∧
      t.count = (ofType name samples).length ∧
      t.largeCount = (ofType name samples).countP AllocationSample.isLarge ∧
      t.callTree =
        CallTree.ofStacks ((ofType name samples).filterMap AllocationSample.stack) ∧
      t.callTree.stackCount = (ofType name samples).countP AllocationSample.hasFrames) ∧
    (ofSamples samples).totalCount =
      ((ofSamples samples).largestFirst.map fun e => e.2.count).sum ∧
    (ofSamples samples).totalSize.toNat = min (UInt64.size - 1)
      ((ofSamples samples).largestFirst.map fun e => e.2.size.toNat).sum ∧
    ∀ samples', samples.Perm samples' →
      (ofSamples samples').totalCount = (ofSamples samples).totalCount ∧
      (ofSamples samples').totalSize = (ofSamples samples).totalSize ∧
      List.Forall₂ (fun x y => x.1 = y.1 ∧ x.2.Alike y.2) (ofSamples samples).largestFirst
        (ofSamples samples').largestFirst := by
  refine ⟨nodup_ranking _ _, ?_, pairwise_ranking (fun t : TypeTally => t.size.toNat) _, ?_,
    totalCount_eq samples, totalSize_eq samples, ?_⟩
  · intro name
    simp only [mem_largestFirst, exists_and_left, exists_eq, and_true]
  · intro name t ht
    rw [(mem_largestFirst.mp ht).2]
    exact ⟨TypeTally.stopped_size _, TypeTally.count_ofSamples _, TypeTally.largeCount_ofSamples _,
      TypeTally.callTree_ofSamples _, TypeTally.stackCount_ofSamples _⟩
  · intro samples' h
    refine ⟨?_, ?_, alike_largestFirst h⟩
    · rw [totalCount_ofSamples, totalCount_ofSamples, h.length_eq]
    · apply UInt64.toNat_inj.mp
      rw [stopped_totalSize, stopped_totalSize, (h.map fun s => s.amount.toNat).sum_eq]

/-- Samples of two types.  The sizes of the first go beyond the largest word, and of its stacks
one has no frame. -/
def twoTypes : List AllocationSample :=
  [⟨"Cell", 0xFFFFFFFFFFFFFFFF, true, some [⟨16, "Main"⟩]⟩, ⟨"Node", 7, false, none⟩,
    ⟨"Cell", 24, false, some []⟩]

theorem report_adds_up_twoTypes :
    (∃ t, ("Cell", t) ∈ (ofSamples twoTypes).largestFirst ∧ t.size.toNat = UInt64.size - 1 ∧
      t.count = 2 ∧ t.largeCount = 1 ∧ t.callTree.stackCount = 1) ∧
    (ofSamples twoTypes).totalSize.toNat = min (UInt64.size - 1)
      ((ofSamples twoTypes).largestFirst.map fun e => e.2.size.toNat).sum ∧
    twoTypes.Perm twoTypes.reverse ∧
    (ofSamples twoTypes.reverse).totalSize = (ofSamples twoTypes).totalSize := by
  obtain ⟨-, htypes, -, htallies, -, htotal, horder⟩ := report_adds_up twoTypes
  have hperm : twoTypes.Perm twoTypes.reverse := (List.reverse_perm _).symm
  obtain ⟨t, ht⟩ := (htypes "Cell").mpr ⟨_, List.mem_cons_self, rfl⟩
  obtain ⟨hsize, hcount, hlarge, -, hstacks⟩ := htallies "Cell" t ht
  exact ⟨⟨t, ht, hsize.trans (by decide +kernel), hcount.trans (by decide +kernel),
    hlarge.trans (by decide +kernel), hstacks.trans (by decide +kernel)⟩, htotal, hperm,
    (horder _ hperm).2.1⟩

end Allocations
end RuntimeTrace
