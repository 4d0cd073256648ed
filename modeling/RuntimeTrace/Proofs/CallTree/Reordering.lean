import Mathlib.Data.List.Forall2
import Mathlib.Data.List.Nodup
import Mathlib.Tactic.Choose
import RuntimeTrace.Proofs.CallTree.Counting
import RuntimeTrace.Proofs.CallTree.Preorder

/-!
# Stacks in another order

The order in which stacks arrive is seen in a call tree in two ways only: siblings stand in
the order of their arrival, and a node has the address of the frame that came first.  Trees
that differ in nothing else are `Alike`.

Where siblings have distinct names a tree is known by what stands at its paths, so two such
trees with the same counts at every path are alike (`alike_of_sameCounts`).  The counts are
those of the stacks, whatever their order.

Main statement: `alike_ofStacks`.
-/

namespace RuntimeTrace
namespace CallNode

/-- Two nodes of one name with the same counts and, up to their order, children that are
alike.  Addresses are not compared. -/
inductive Alike : CallNode → CallNode → Prop where
  | node {a b : UInt64} {s : String} {n l : Nat} {cs ds es : List CallNode}
      (horder : ds.Perm es) (hchildren : List.Forall₂ Alike cs ds) :
      Alike (.node a s n l cs) (.node b s n l es)

theorem alike_of_children {c d : CallNode} (hsymbol : c.symbol = d.symbol)
    (hnode : c.asNode = d.asNode) (hleaf : c.asLeaf = d.asLeaf) {ds : List CallNode}
    (horder : ds.Perm d.children) (hchildren : List.Forall₂ Alike c.children ds) :
    Alike c d := by
  cases c with
  | node a s n l cs =>
    cases d with
    | node b s' n' l' es =>
      obtain rfl : s = s' := hsymbol
      obtain rfl : n = n' := hnode
      obtain rfl : l = l' := hleaf
      exact .node horder hchildren

/-- A path leads to a node with these counts. -/
def CountsAt (row : List CallNode) (path : List String) (asNode asLeaf : Nat) : Prop :=
  ∃ c, LeadsTo row path c ∧ c.asNode = asNode ∧ c.asLeaf = asLeaf

/-- The same paths lead to nodes, and to nodes with the same counts. -/
def SameCounts (row other : List CallNode) : Prop :=
  ∀ path n l, CountsAt row path n l ↔ CountsAt other path n l

theorem SameCounts.symm {row other : List CallNode} (h : SameCounts row other) :
    SameCounts other row :=
  fun path n l => (h path n l).symm

/-- In a row of distinct names a path goes on below the node with its first name. -/
theorem leadsTo_cons_iff {row : List CallNode} (hrow : Distinct row) {c : CallNode} (hc : c ∈ row)
    {name : String} {rest : List String} {e : CallNode} :
    LeadsTo row (c.symbol :: name :: rest) e ↔ LeadsTo c.children (name :: rest) e := by
  constructor
  · intro h
    generalize hpath : c.symbol :: name :: rest = path at h
    cases h with
    | here => exact absurd hpath (by simp)
    | @down _ d _ _ hd he =>
      rw [List.cons.injEq] at hpath
      obtain ⟨hsymbol, rfl⟩ := hpath
      have hcd : some c = some d :=
        (named?_of_mem hrow.nodup hc).symm.trans (hsymbol ▸ named?_of_mem hrow.nodup hd)
      rwa [Option.some.inj hcd]
  · exact .down hc

theorem SameCounts.children {row other : List CallNode} (h : SameCounts row other)
    (hrow : Distinct row) (hother : Distinct other) {c d : CallNode} (hc : c ∈ row) (hd : d ∈ other)
    (hsymbol : c.symbol = d.symbol) : SameCounts c.children d.children := by
  intro path n l
  match path with
  | [] => exact iff_of_false (fun ⟨_, hpath, _⟩ => nomatch hpath) fun ⟨_, hpath, _⟩ => nomatch hpath
  | name :: rest =>
    have hbelow := h (c.symbol :: name :: rest) n l
    simp only [CountsAt, leadsTo_cons_iff hrow hc] at hbelow
    simp only [hsymbol, leadsTo_cons_iff hother hd] at hbelow
    exact hbelow

/-- Each node has one of its name and counts in the other row. -/
theorem SameCounts.exists_mem {row other : List CallNode} (h : SameCounts row other)
    {c : CallNode} (hc : c ∈ row) :
    ∃ d ∈ other, c.symbol = d.symbol ∧ c.asNode = d.asNode ∧ c.asLeaf = d.asLeaf := by
  obtain ⟨d, hd, hnode, hleaf⟩ := (h [c.symbol] c.asNode c.asLeaf).mp ⟨c, .here hc, rfl, rfl⟩
  generalize hpath : [c.symbol] = path at hd
  cases hd with
  | here hd =>
    rw [List.cons.injEq] at hpath
    exact ⟨d, hd, hpath.1, hnode.symm, hleaf.symm⟩
  | down hd hbelow =>
    rw [List.cons.injEq] at hpath
    obtain ⟨-, rfl⟩ := hpath
    exact nomatch hbelow

/-- **Rows with the same counts at every path are alike**, one node by one. -/
theorem exists_alike {row other : List CallNode} (h : SameCounts row other)
    (hrow : Distinct row) (hother : Distinct other)
    (hnode : ∀ c ∈ row, ∀ d ∈ other, c.symbol = d.symbol → c.asNode = d.asNode →
      c.asLeaf = d.asLeaf → Alike c d) :
    ∃ ds : List CallNode, ds.Perm other ∧ List.Forall₂ Alike row ds := by
  choose! partner hpartner using fun c (hc : c ∈ row) => h.exists_mem hc
  have hnames : (row.map partner).map symbol = row.map symbol := by
    rw [List.map_map]
    exact List.map_congr_left fun c hc => (hpartner c hc).2.1.symm
  refine ⟨row.map partner, ?_, ?_⟩
  · have hnodup : ((row.map partner).map symbol).Nodup := hnames ▸ hrow.nodup
    rw [List.perm_ext_iff_of_nodup (List.Nodup.of_map symbol hnodup)
      (List.Nodup.of_map symbol hother.nodup)]
    intro d
    constructor
    · intro hd
      obtain ⟨c, hc, rfl⟩ := List.mem_map.mp hd
      exact (hpartner c hc).1
    · intro hd
      -- the node that goes by its name in the row has it as its partner
      obtain ⟨c, hc, hsymbol, -, -⟩ := h.symm.exists_mem hd
      obtain ⟨hmem, hsame, -, -⟩ := hpartner c hc
      have heq : some (partner c) = some d :=
        (named?_of_mem hother.nodup hmem).symm.trans
          ((hsymbol.trans hsame) ▸ named?_of_mem hother.nodup hd)
      exact Option.some.inj heq ▸ List.mem_map_of_mem hc
  · rw [List.forall₂_map_right_iff, List.forall₂_same]
    intro c hc
    obtain ⟨hmem, hsymbol, hn, hl⟩ := hpartner c hc
    exact hnode c hc (partner c) hmem hsymbol hn hl

/-- **Where names are distinct, nodes with the same counts below them are alike.** -/
theorem alike_of_sameCounts {c d : CallNode} (hsymbol : c.symbol = d.symbol)
    (hnode : c.asNode = d.asNode) (hleaf : c.asLeaf = d.asLeaf) (hc : Distinct c.children)
    (hd : Distinct d.children) (h : SameCounts c.children d.children) : Alike c d := by
  induction c using induction_children generalizing d with
  | node c ih =>
    obtain ⟨ds, horder, hchildren⟩ :=
      exists_alike h hc hd fun c' hc' d' hd' hsymbol' hnode' hleaf' =>
        ih c' hc' hsymbol' hnode' hleaf' (hc.children c' hc') (hd.children d' hd')
          (h.children hc hd hc' hd' hsymbol')
    exact alike_of_children hsymbol hnode hleaf horder hchildren

end CallNode

namespace CallTree

open CallNode

/-- Trees that differ in the order of siblings and in addresses only. -/
def Alike (t u : CallTree) : Prop := t.root.Alike u.root

/-- **Stacks in another order make a tree that is alike.** -/
theorem alike_ofStacks {inputs inputs' : List (List Frame)} (h : inputs.Perm inputs') :
    (ofStacks inputs).Alike (ofStacks inputs') := by
  refine alike_of_sameCounts rfl ?_ rfl (distinct_roots_ofStacks inputs)
    (distinct_roots_ofStacks inputs') ?_
  · show (ofStacks inputs).stackCount = (ofStacks inputs').stackCount
    rw [stackCount_ofStacks, stackCount_ofStacks, h.countP_eq]
  · exact fun _ _ _ => ⟨exists_counts_of_perm h, exists_counts_of_perm h.symm⟩

end CallTree
end RuntimeTrace
