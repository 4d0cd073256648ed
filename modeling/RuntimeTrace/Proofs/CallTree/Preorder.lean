import Mathlib.Data.List.Perm.Basic
import RuntimeTrace.CallTree.Outline

/-!
# The order of an outline

An outline writes down every node of a call tree: a node before everything below it, and
below it the children that more stacks contain before the others.  This module says so
without mentioning the sorted tree that the outline is made from.

## Places

A node is known by its place, the numbers of the children on the way to it in the order of
their arrival.  `Precedes` compares two places.  It looks at the first step at which they
differ, and there at the counts of two siblings, or at their numbers if the counts are
equal, so a list of places that is ordered by it is a preorder walk with siblings sorted
stably.  `visits` is such a list with every place of the tree in it.

## What stands at a place

The indentation of a node is one step for each node above it that branches (`forks`), which
is less than its depth wherever a frame has a single child.  Its blanks, and those in front of
a count, are written out in `entry` and `gap`.  Separators belong to the
branching node, not to the frames between which they stand: the subtrees of its children
are written one after the other with a separator in each gap (`node_ordered`).

Main statement: `outline_visits_every_frame`.
-/

namespace RuntimeTrace

/-- The text of a name, `none` for other pieces. -/
def OutlinePiece.method? : OutlinePiece → Option String
  | .method name => some name
  | _ => none

/-- Whether a piece stands between the subtrees of siblings. -/
def OutlinePiece.isSeparator : OutlinePiece → Bool
  | .separator _ => true
  | _ => false

namespace CallNode

/-! ## Places -/

/-- What holds of a node whenever it holds of its children holds of every node. -/
@[elab_as_elim]
theorem induction_children {motive : CallNode → Prop}
    (node : ∀ c, (∀ d ∈ c.children, motive d) → motive c) (c : CallNode) : motive c := by
  refine CallNode.rec (motive_1 := motive) (motive_2 := fun row => ∀ d ∈ row, motive d)
    ?_ ?_ ?_ c
  · exact fun _ _ _ _ _ ih => node _ ih
  · exact fun _ h => absurd h (by simp)
  · exact fun _ _ hc hrow => List.forall_mem_cons.mpr ⟨hc, hrow⟩

/-- The node at a place: each number says which child to go to, the first to arrive being
number zero. -/
def at? : CallNode → List Nat → Option CallNode
  | c, [] => some c
  | c, i :: place => c.children[i]?.bind fun d => d.at? place

@[simp] theorem at?_nil (c : CallNode) : c.at? [] = some c := rfl

theorem at?_cons_eq_some {c e : CallNode} {i : Nat} {place : List Nat} :
    c.at? (i :: place) = some e ↔ ∃ d, c.children[i]? = some d ∧ d.at? place = some e :=
  Option.bind_eq_some_iff

theorem at?_append {c d : CallNode} {p : List Nat} (h : c.at? p = some d) (q : List Nat) :
    c.at? (p ++ q) = d.at? q := by
  induction p generalizing c with
  | nil => rw [List.nil_append, Option.some.inj h]
  | cons i p ih =>
    obtain ⟨e, he, hd⟩ := at?_cons_eq_some.mp h
    rw [List.cons_append, at?, he, Option.bind_some, ih hd]

/-- The order of places in an outline. -/
inductive Precedes : CallNode → List Nat → List Nat → Prop where
  /-- A node comes before all nodes below it. -/
  | above {c : CallNode} {i : Nat} {p : List Nat} : Precedes c [] (i :: p)
  /-- A child, with all below it, comes before those that fewer stacks contain, and before
  those that as many contain and that arrived later. -/
  | beside {c d e : CallNode} {i j : Nat} {p q : List Nat} (hd : c.children[i]? = some d)
      (he : c.children[j]? = some e)
      (h : e.total < d.total ∨ d.total = e.total ∧ i < j) : Precedes c (i :: p) (j :: q)
  /-- Below one child its own order counts. -/
  | within {c d : CallNode} {i : Nat} {p q : List Nat} (hd : c.children[i]? = some d)
      (h : Precedes d p q) : Precedes c (i :: p) (i :: q)

theorem not_precedes_self {c : CallNode} {p : List Nat} : ¬ Precedes c p p := by
  induction p generalizing c with
  | nil => exact nofun
  | cons i p ih =>
    intro h
    cases h with
    | beside hd he h =>
      rw [hd] at he
      cases he
      omega
    | within hd h => exact ih h

/-! ## Siblings in order -/

/-- The order of siblings as a test: no more stacks contain the second. -/
def busier (x y : CallNode) : Bool := y.total ≤ x.total

/-- A row with the numbers of its nodes, in the order of an outline. -/
def ranked (row : List CallNode) : List (CallNode × Nat) :=
  row.zipIdx.mergeSort (List.zipIdxLE busier)

theorem mem_ranked {row : List CallNode} {e : CallNode × Nat} :
    e ∈ ranked row ↔ row[e.2]? = some e.1 := by
  rw [ranked, List.mem_mergeSort, List.mem_zipIdx_iff_getElem?]

theorem mem_of_mem_ranked {row : List CallNode} {e : CallNode × Nat} (h : e ∈ ranked row) :
    e.1 ∈ row :=
  List.mem_of_getElem? (mem_ranked.mp h)

theorem length_ranked (row : List CallNode) : (ranked row).length = row.length := by
  rw [ranked, List.length_mergeSort, List.length_zipIdx]

theorem map_fst_ranked (row : List CallNode) :
    (ranked row).map Prod.fst = row.mergeSort busier :=
  List.mergeSort_zipIdx

/-- Each number occurs once. -/
theorem map_snd_ranked (row : List CallNode) :
    ((ranked row).map Prod.snd).Perm (List.range row.length) := by
  have hperm := (List.mergeSort_perm row.zipIdx (List.zipIdxLE busier)).map Prod.snd
  rwa [List.zipIdx_map_snd, ← List.range_eq_range'] at hperm

theorem pairwise_ranked (row : List CallNode) :
    (ranked row).Pairwise fun v w => w.1.total < v.1.total ∨ v.1.total = w.1.total ∧ v.2 < w.2 := by
  have htrans : ∀ x y z : CallNode, busier x y → busier y z → busier x z := by
    simp only [busier, decide_eq_true_eq]
    omega
  have htotal : ∀ x y : CallNode, busier x y || busier y x := by
    simp only [busier, Bool.or_eq_true, decide_eq_true_eq]
    omega
  have hsorted := List.pairwise_mergeSort (List.zipIdxLE_trans htrans)
    (List.zipIdxLE_total htotal) row.zipIdx
  have hnumbers : (ranked row).Pairwise fun v w => v.2 ≠ w.2 := by
    rw [← List.pairwise_map]
    exact (map_snd_ranked row).nodup_iff.mpr List.nodup_range
  refine (hsorted.and hnumbers).imp ?_
  intro v w h
  obtain ⟨hle, hne⟩ := h
  simp only [List.zipIdxLE, busier, decide_eq_true_eq, Bool.if_false_right, Bool.and_eq_true] at hle
  obtain ⟨hwv, hle⟩ := hle
  by_cases hvw : v.1.total ≤ w.1.total
  · rw [if_pos hvw, decide_eq_true_eq] at hle
    omega
  · omega

/-! ## The sorted tree -/

theorem orderedAll_eq (row : List CallNode) : orderedAll row = row.map ordered := by
  induction row with
  | nil => rfl
  | cons c row ih => rw [orderedAll, ih, List.map_cons]

@[simp] theorem total_ordered (c : CallNode) : (ordered c).total = c.total := by
  cases c
  rfl

theorem sort_orderedAll (row : List CallNode) :
    (orderedAll row).mergeSort busier = (ranked row).map fun e => ordered e.1 := by
  have hkeep : ∀ x ∈ row, ∀ y ∈ row, busier x y = busier (ordered x) (ordered y) := by
    intro x _ y _
    rw [busier, busier, total_ordered, total_ordered]
  rw [orderedAll_eq, ← List.map_mergeSort hkeep, ← map_fst_ranked, List.map_map]
  rfl

/-! ## Walking the tree -/

/-- A node and all nodes below it with their places, in the order of an outline. -/
def visits (c : CallNode) : List (List Nat × CallNode) :=
  ([], c) :: (ranked c.children).attach.flatMap fun e =>
    (visits e.1.1).map fun v => (e.1.2 :: v.1, v.2)
termination_by sizeOf c
decreasing_by
  have hmem := mem_of_mem_ranked e.2
  cases c
  have hlt := List.sizeOf_lt_of_mem hmem
  simp only [children, node.sizeOf_spec] at hlt ⊢
  omega

theorem visits_eq (c : CallNode) :
    visits c = ([], c) :: (ranked c.children).flatMap fun e =>
      (visits e.1).map fun v => (e.2 :: v.1, v.2) := by
  rw [visits]
  congr 1
  rw [List.flatMap_subtype (g := fun e => (visits e.1).map fun v => (e.2 :: v.1, v.2))
    (fun _ _ => rfl), List.unattach_attach]

/-- **The visits are the places of the tree**, each with the node there. -/
theorem mem_visits {c d : CallNode} {p : List Nat} : (p, d) ∈ visits c ↔ c.at? p = some d := by
  induction c using induction_children generalizing p with
  | node c ih =>
    rw [visits_eq, List.mem_cons, List.mem_flatMap]
    cases p with
    | nil => simp [eq_comm]
    | cons i p =>
      rw [at?_cons_eq_some]
      constructor
      · rintro (heq | ⟨e, he, hv⟩)
        · simp at heq
        · obtain ⟨v, hmem, heq⟩ := List.mem_map.mp hv
          simp only [Prod.mk.injEq, List.cons.injEq] at heq
          obtain ⟨⟨rfl, rfl⟩, rfl⟩ := heq
          exact ⟨e.1, mem_ranked.mp he, (ih e.1 (mem_of_mem_ranked he)).mp hmem⟩
      · rintro ⟨e, he, hd⟩
        refine .inr ⟨(e, i), mem_ranked.mpr he, List.mem_map.mpr ⟨(p, d), ?_, rfl⟩⟩
        exact (ih e (List.mem_of_getElem? he)).mpr hd

/-- **The visits are in order.** -/
theorem pairwise_visits (c : CallNode) :
    (visits c).Pairwise fun v w => c.Precedes v.1 w.1 := by
  induction c using induction_children with
  | node c ih =>
    rw [visits_eq, List.pairwise_cons, List.pairwise_flatMap]
    refine ⟨?_, ?_, ?_⟩
    · intro w hw
      obtain ⟨e, -, hw⟩ := List.mem_flatMap.mp hw
      obtain ⟨v, -, rfl⟩ := List.mem_map.mp hw
      exact .above
    · intro e he
      rw [List.pairwise_map]
      exact (ih e.1 (mem_of_mem_ranked he)).imp fun h => .within (mem_ranked.mp he) h
    · refine (pairwise_ranked c.children).imp_of_mem ?_
      intro d e hd he h v hv w hw
      obtain ⟨v, -, rfl⟩ := List.mem_map.mp hv
      obtain ⟨w, -, rfl⟩ := List.mem_map.mp hw
      exact .beside (mem_ranked.mp hd) (mem_ranked.mp he) h

theorem nodup_visits (c : CallNode) : ((visits c).map Prod.fst).Nodup := by
  rw [List.Nodup, List.pairwise_map]
  refine (pairwise_visits c).imp ?_
  intro v w h heq
  rw [heq] at h
  exact not_precedes_self h

/-! ## Indentation -/

/-- The step to the right below a node: one if it branches. -/
def fork (c : CallNode) : Nat := if 1 < c.children.length then 1 else 0

/-- How many of the nodes above a place branch. -/
def forks (c : CallNode) (place : List Nat) : Nat :=
  (List.range place.length).countP fun k =>
    (c.at? (place.take k)).any fun d => 1 < d.children.length

@[simp] theorem forks_nil (c : CallNode) : c.forks [] = 0 := rfl

theorem forks_cons {c d : CallNode} {i : Nat} (h : c.children[i]? = some d) (p : List Nat) :
    c.forks (i :: p) = c.fork + d.forks p := by
  have hbelow : ∀ k, c.at? ((i :: p).take (k + 1)) = d.at? (p.take k) := by
    intro k
    rw [List.take_succ_cons, at?, h, Option.bind_some]
  rw [forks, List.length_cons, List.range_succ_eq_map, List.countP_cons, List.countP_map, fork,
    Nat.add_comm, forks]
  congr 1
  · simp
  · congr 1
    funext k
    rw [Function.comp_apply, hbelow]

theorem forks_append_singleton {c d : CallNode} {p : List Nat} (h : c.at? p = some d) (i : Nat) :
    c.forks (p ++ [i]) = c.forks p + d.fork := by
  induction p generalizing c with
  | nil =>
    rw [List.nil_append, ← Option.some.inj h]
    simp [forks, fork]
  | cons j p ih =>
    obtain ⟨e, he, hd⟩ := at?_cons_eq_some.mp h
    rw [List.cons_append, forks_cons he, forks_cons he, ih hd, Nat.add_assoc]

/-! ## The pieces -/

/-- A line break and blanks. -/
def indentation (blanks : Nat) : List Char := '\n' :: List.replicate blanks ' '

/-- A count in a column of five: blanks in front of its decimal digits. -/
def column (count : Nat) : List Char :=
  List.replicate (5 - (Nat.toDigits 10 count).length) ' ' ++ Nat.toDigits 10 count

/-- What is written for a node: the line break with its indentation, its count in a column
of five and a blank, its name. -/
def entry (steps : Nat) (c : CallNode) : List OutlinePiece :=
  [.frameBreak (String.ofList (indentation (5 * steps))),
    .count (String.ofList (column c.total ++ [' '])), .method c.symbol]

/-- What is written between the subtrees of two siblings that are indented this far. -/
def gap (steps : Nat) : OutlinePiece :=
  .separator (String.ofList (indentation (5 * steps) ++ ['~', '~', '~', '~', ' ']))

theorem spaces_eq (blanks : Nat) :
    "\n" ++ Text.spaces blanks = String.ofList (indentation blanks) :=
  (String.ofList_append ..).symm

theorem rightAlign_eq (count : Nat) :
    Text.rightAlign 5 (toString count) = String.ofList (column count) := by
  rw [Text.rightAlign, Nat.toString_eq_repr, Nat.repr_eq_ofList_toDigits, String.length_ofList,
    ← String.ofList_append, column]

theorem heading_eq (steps : Nat) (c : CallNode) :
    Outline.heading steps c.total c.symbol = entry steps c := by
  rw [Outline.heading, Outline.step, spaces_eq, rightAlign_eq, entry, String.ofList_append]

theorem separator_eq (steps : Nat) : Outline.separator steps = gap steps := by
  rw [Outline.separator, Outline.step, spaces_eq, gap, String.ofList_append]

theorem siblings_eq (depth : Nat) (c : CallNode) (row : List CallNode) :
    Outline.node depth c ++ Outline.siblings depth row =
      [gap depth].intercalate ((c :: row).map (Outline.node depth)) := by
  induction row generalizing c with
  | nil => simp [Outline.siblings]
  | cons d row ih =>
    rw [Outline.siblings, separator_eq, List.map_cons, List.map_cons, List.intercalate_cons_cons,
      ← List.map_cons, ← ih d]
    simp only [List.append_assoc, List.cons_append, List.nil_append]

theorem below_eq (depth : Nat) (row : List CallNode) :
    Outline.below depth row = [gap (depth + 1)].intercalate
      (row.map (Outline.node (depth + if 1 < row.length then 1 else 0))) := by
  match row with
  | [] => rfl
  | [c] => simp [Outline.below]
  | c :: d :: row =>
    rw [Outline.below, siblings_eq, if_pos (by simp)]

/-- **The outline below a node**: the subtrees of its children, the busiest first, with a
separator in each gap. -/
theorem node_ordered (depth : Nat) (c : CallNode) :
    Outline.node depth (ordered c) = entry depth c ++ [gap (depth + 1)].intercalate
      ((ranked c.children).map fun e => Outline.node (depth + c.fork) (ordered e.1)) := by
  rw [← heading_eq]
  cases c with
  | node a s n l row =>
    rw [ordered, Outline.node]
    show Outline.heading depth (n + l) s ++
      Outline.below depth ((orderedAll row).mergeSort busier) = _
    rw [sort_orderedAll, below_eq, List.length_map, length_ranked, List.map_map]
    rfl

section pieces

variable {test : OutlinePiece → Bool} {piece : OutlinePiece}

theorem filter_intercalate_of_neg (h : test piece = false) (texts : List (List OutlinePiece)) :
    ([piece].intercalate texts).filter test = texts.flatMap (List.filter test) := by
  induction texts with
  | nil => rfl
  | cons text texts ih =>
    cases texts with
    | nil => simp
    | cons other texts =>
      rw [List.intercalate_cons_cons, List.filter_append, List.filter_append, ih,
        List.filter_singleton, h, List.flatMap_cons]
      simp

/-- A separator for each text but one. -/
theorem filter_intercalate_of_pos (h : test piece = true) (texts : List (List OutlinePiece)) :
    (([piece].intercalate texts).filter test).Perm
      (List.replicate (texts.length - 1) piece ++ texts.flatMap (List.filter test)) := by
  induction texts with
  | nil => exact .nil
  | cons text texts ih =>
    cases texts with
    | nil => simp
    | cons other texts =>
      have hrest := ih.append_left (text.filter test)
      rw [List.intercalate_cons_cons, List.filter_append, List.filter_append,
        List.filter_singleton, h, List.flatMap_cons, List.append_assoc]
      show (text.filter test ++ piece :: _).Perm
        (piece :: (List.replicate texts.length piece ++ _))
      refine List.perm_middle.trans (.cons piece ?_)
      exact hrest.trans (List.perm_append_comm_assoc _ _ _)

end pieces

/-- **Without its separators an outline is a column of nodes**, in the order of the visits
and each as far to the right as nodes above it branch. -/
theorem filter_not_isSeparator (depth : Nat) (c : CallNode) :
    (Outline.node depth (ordered c)).filter (fun piece => !piece.isSeparator) =
      (visits c).flatMap fun v => entry (depth + c.forks v.1) v.2 := by
  induction c using induction_children generalizing depth with
  | node c ih =>
    rw [node_ordered, List.filter_append, filter_intercalate_of_neg rfl, visits_eq,
      List.flatMap_cons, List.flatMap_map, List.flatMap_assoc]
    congr 1
    refine List.flatMap_congr fun e he => ?_
    rw [ih e.1 (mem_of_mem_ranked he), List.flatMap_map]
    refine List.flatMap_congr fun v _ => ?_
    rw [forks_cons (mem_ranked.mp he), Nat.add_assoc]

/-- **Every node has a separator for each child but one**, one step to the right of it. -/
theorem filter_isSeparator (depth : Nat) (c : CallNode) :
    ((Outline.node depth (ordered c)).filter OutlinePiece.isSeparator).Perm
      ((visits c).flatMap fun v =>
        List.replicate (v.2.children.length - 1) (gap (depth + c.forks v.1 + 1))) := by
  induction c using induction_children generalizing depth with
  | node c ih =>
    rw [node_ordered, List.filter_append, visits_eq, List.flatMap_cons, List.flatMap_assoc]
    show (([gap (depth + 1)].intercalate _).filter OutlinePiece.isSeparator).Perm _
    refine (filter_intercalate_of_pos rfl _).trans ?_
    rw [List.length_map, length_ranked, List.flatMap_map]
    refine List.Perm.append_left _ (List.Perm.flatMap_left _ fun e he => ?_)
    refine (ih e.1 (mem_of_mem_ranked he) (depth + c.fork)).trans ?_
    rw [List.flatMap_map]
    refine .of_eq (List.flatMap_congr fun v _ => ?_)
    rw [forks_cons (mem_ranked.mp he), ← Nat.add_assoc]

/-- The names of an outline are those of the visits. -/
theorem filterMap_method? (depth : Nat) (c : CallNode) :
    (Outline.node depth (ordered c)).filterMap OutlinePiece.method? =
      (visits c).map fun v => v.2.symbol := by
  have hframes : ∀ pieces : List OutlinePiece, pieces.filterMap OutlinePiece.method? =
      (pieces.filter fun piece => !piece.isSeparator).filterMap OutlinePiece.method? := by
    intro pieces
    rw [List.filterMap_filter]
    refine List.filterMap_congr fun piece _ => ?_
    cases piece <;> rfl
  rw [hframes, filter_not_isSeparator, List.filterMap_flatMap]
  show (visits c).flatMap (fun v => [v.2.symbol]) = _
  exact List.flatMap_pure_eq_map _ _

end CallNode

namespace CallTree

open CallNode

/-- The tree as a node, above all outermost frames, that every stack goes through. -/
def root (t : CallTree) : CallNode := .node 0 "[root]" t.stackCount 0 t.roots

theorem outline_eq (t : CallTree) : t.outline = Outline.node 0 (ordered t.root) := rfl

/-- What is written of the subtree at a place. -/
def block (t : CallTree) (place : List Nat) : List OutlinePiece :=
  match t.root.at? place with
  | some c => Outline.node (t.root.forks place) (ordered c)
  | none => []

theorem block_of_at? {t : CallTree} {p : List Nat} {c : CallNode} (h : t.root.at? p = some c) :
    t.block p = Outline.node (t.root.forks p) (ordered c) := by
  rw [block, h]

/-- The subtree at a place is written as its node and the subtrees of its children. -/
theorem exists_order {t : CallTree} {p : List Nat} {c : CallNode} (h : t.root.at? p = some c) :
    ∃ order : List Nat, order.Perm (List.range c.children.length) ∧
      order.Pairwise (fun i j => c.Precedes [i] [j]) ∧
      t.block p = entry (t.root.forks p) c ++
        [gap (t.root.forks p + 1)].intercalate (order.map fun i => t.block (p ++ [i])) := by
  refine ⟨(ranked c.children).map Prod.snd, map_snd_ranked _, ?_, ?_⟩
  · rw [List.pairwise_map]
    refine (pairwise_ranked c.children).imp_of_mem ?_
    exact fun hv hw hvw => .beside (mem_ranked.mp hv) (mem_ranked.mp hw) hvw
  · rw [block_of_at? h, node_ordered, List.map_map]
    congr 2
    refine List.map_congr_left fun e he => ?_
    have hat : t.root.at? (p ++ [e.2]) = some e.1 := by
      rw [at?_append h, at?, mem_ranked.mp he]
      rfl
    rw [Function.comp_apply, block_of_at? hat, forks_append_singleton h]

/-- **An outline shows every frame once, the busiest first.**  There is a list of all
places of the tree, each once and with the node there, such that

* a place comes before all places below it, and a child with all below it before the
  children of the same node that fewer stacks contain or that as many contain and that
  arrived later;
* the names are written in the order of the list, the first being `[root]`;
* apart from separators, the outline is for each node of the list a line break, five blanks
  for each node above it with more than one child, its count in decimal digits with blanks in
  front up to five characters, its name;
* each node has as many separators as it has children, less one, indented one step further
  than the node;
* these stand between the subtrees of its children, which are written in their order behind
  the node itself. -/
theorem outline_visits_every_frame (t : CallTree) :
    ∃ visits rest : List (List Nat × CallNode), visits = ([], t.root) :: rest ∧
      visits.Pairwise (fun v w => t.root.Precedes v.1 w.1) ∧
      (visits.map Prod.fst).Nodup ∧
      (∀ p c, (p, c) ∈ visits ↔ t.root.at? p = some c) ∧
      t.outline.filterMap OutlinePiece.method? = "[root]" :: rest.map (fun v => v.2.symbol) ∧
      t.outline.filter (fun piece => !piece.isSeparator) =
        visits.flatMap (fun v => entry (t.root.forks v.1) v.2) ∧
      t.root.total = t.stackCount ∧
      (t.outline.filter OutlinePiece.isSeparator).Perm (visits.flatMap fun v =>
        List.replicate (v.2.children.length - 1) (gap (t.root.forks v.1 + 1))) ∧
      ∃ block : List Nat → List OutlinePiece, block [] = t.outline ∧
        ∀ p c, t.root.at? p = some c →
          ∃ order : List Nat, order.Perm (List.range c.children.length) ∧
            order.Pairwise (fun i j => c.Precedes [i] [j]) ∧
            block p = entry (t.root.forks p) c ++
              [gap (t.root.forks p + 1)].intercalate (order.map fun i => block (p ++ [i])) := by
  have hvisits : visits t.root = ([], t.root) :: (visits t.root).tail := by
    rw [visits_eq]
    rfl
  refine ⟨visits t.root, (visits t.root).tail, hvisits, pairwise_visits _, nodup_visits _,
    fun _ _ => mem_visits, ?_, ?_, rfl, ?_, t.block, rfl, fun _ _ => exists_order⟩
  · rw [outline_eq, filterMap_method?, hvisits]
    rfl
  · rw [outline_eq, filter_not_isSeparator]
    simp only [Nat.zero_add]
  · have hgaps := filter_isSeparator 0 t.root
    simp only [Nat.zero_add] at hgaps
    exact hgaps

/-- A frame with three callees, of which the last two were met equally often. -/
def tied : CallNode :=
  .node 16 "Main" 5 0 [.node 32 "A" 0 1 [], .node 48 "B" 0 2 [], .node 64 "C" 0 2 []]

theorem outline_visits_every_frame_tied :
    (⟨5, [tied]⟩ : CallTree).root.at? [0] = some tied ∧
      (⟨5, [tied]⟩ : CallTree).root.at? [0, 1] = some (.node 48 "B" 0 2 []) ∧
      ∃ block : List Nat → List OutlinePiece, block [] = (⟨5, [tied]⟩ : CallTree).outline ∧
        block [0] = [.frameBreak "\n", .count "    5 ", .method "Main"] ++
          [.separator "\n     ~~~~ "].intercalate [block [0, 1], block [0, 2], block [0, 0]] ∧
        block [0, 1] = [.frameBreak "\n     ", .count "    2 ", .method "B"] := by
  obtain ⟨-, -, -, -, -, -, -, -, -, -, block, hblock, hblocks⟩ :=
    outline_visits_every_frame ⟨5, [tied]⟩
  have hMain : (⟨5, [tied]⟩ : CallTree).root.at? [0] = some tied := rfl
  have hB : (⟨5, [tied]⟩ : CallTree).root.at? [0, 1] = some (.node 48 "B" 0 2 []) := rfl
  refine ⟨hMain, hB, block, hblock, ?_, ?_⟩
  · obtain ⟨order, hperm, hsorted, heq⟩ := hblocks [0] tied hMain
    have horder : order = [1, 2, 0] := by
      have hsorted' : [1, 2, 0].Pairwise fun i j => tied.Precedes [i] [j] := by
        have hBC : tied.Precedes [1] [2] := .beside rfl rfl (by decide)
        have hBA : tied.Precedes [1] [0] := .beside rfl rfl (by decide)
        have hCA : tied.Precedes [2] [0] := .beside rfl rfl (by decide)
        simp [hBC, hBA, hCA]
      refine (hperm.trans (by decide)).eq_of_pairwise (fun i j _ _ hij hji => ?_) hsorted hsorted'
      cases hij with
      | beside hi hj hij =>
        cases hji with
        | beside hj' hi' hji =>
          cases hi.symm.trans hi'
          cases hj.symm.trans hj'
          omega
        | within => rfl
      | within => rfl
    have hentry : entry 0 tied = [.frameBreak "\n", .count "    5 ", .method "Main"] := by decide
    have hgap : gap 1 = .separator "\n     ~~~~ " := by decide
    rw [horder] at heq
    rw [← hentry, ← hgap]
    exact heq
  · obtain ⟨order, hperm, -, heq⟩ := hblocks [0, 1] (.node 48 "B" 0 2 []) hB
    obtain rfl : order = [] := hperm.eq_nil
    have hentry : entry 1 (.node 48 "B" 0 2 []) =
        [.frameBreak "\n     ", .count "    2 ", .method "B"] := by decide
    rw [← hentry]
    exact heq

end CallTree
end RuntimeTrace
