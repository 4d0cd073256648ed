import RuntimeTrace.CallTree

/-!
# What a call tree counts

A stack goes into a tree along one path, that of the names of its frames.  Each node
on the way counts it, the last one as a leaf and all others as nodes, and a node that
is not there yet is made on the way.  So the node at a path counts the stacks that
begin with the path.

## One path at a time

The tree is looked at through one path.  `tallyAt` is what stands at its end: nothing,
or a node with an address and two counts.  A stack adds to that a tally of its own,
`tallyOf`, which depends on the path and the stack and on nothing in the tree
(`tallyAt_insertStack`); the induction is over the stack, and at each frame only the
first node of that name matters.  What a tree shows at a path is therefore the sum of
what its stacks bring to it (`tallyAt_roots_ofStacks`), and the order of the stacks can only be
seen in the address, which is that of the first.

A path names at most one node, since siblings have distinct names (`Distinct`), so the
first node of a name is the only one and walking down finds every node of the tree
(`find?_eq_some_iff`).

Main statement: `nodes_count_stacks`.
-/

namespace RuntimeTrace

/-- The names under which the frames of a stack are shown, outermost first. -/
def shownNames (stack : List Frame) : List String := stack.map Frame.shownName

@[simp] theorem shownNames_nil : shownNames [] = [] := rfl

@[simp] theorem shownNames_cons (f : Frame) (rest : List Frame) :
    shownNames (f :: rest) = f.shownName :: shownNames rest := rfl

@[simp] theorem shownNames_eq_nil {stack : List Frame} : shownNames stack = [] ↔ stack = [] :=
  List.map_eq_nil_iff

namespace CallNode

/-! ## Paths -/

/-- A list of names leads from a row of siblings down to a node. -/
inductive LeadsTo : List CallNode → List String → CallNode → Prop where
  | here {row : List CallNode} {c : CallNode} (hc : c ∈ row) : LeadsTo row [c.symbol] c
  | down {row : List CallNode} {c d : CallNode} {rest : List String} (hc : c ∈ row)
      (hd : LeadsTo c.children rest d) : LeadsTo row (c.symbol :: rest) d

/-- No two siblings have the same name, here and below. -/
inductive Distinct : List CallNode → Prop where
  | intro {row : List CallNode} (hnodup : (row.map symbol).Nodup)
      (hchildren : ∀ c ∈ row, Distinct c.children) : Distinct row

theorem distinct_nil : Distinct [] := .intro List.nodup_nil fun _ h => absurd h (by simp)

theorem Distinct.nodup {row : List CallNode} : Distinct row → (row.map symbol).Nodup
  | .intro hnodup _ => hnodup

theorem Distinct.children {row : List CallNode} : Distinct row → ∀ c ∈ row, Distinct c.children
  | .intro _ hchildren => hchildren

/-- The first node of a row with a name. -/
def named? (name : String) (row : List CallNode) : Option CallNode :=
  row.find? fun c => c.symbol == name

theorem named?_cons (name : String) (c : CallNode) (row : List CallNode) :
    named? name (c :: row) = if c.symbol = name then some c else named? name row := by
  by_cases h : c.symbol = name <;> simp [named?, h]

theorem mem_of_named? {name : String} {row : List CallNode} {c : CallNode}
    (h : named? name row = some c) : c ∈ row ∧ c.symbol = name := by
  unfold named? at h
  have hname : (c.symbol == name) = true :=
    List.find?_some (p := fun d : CallNode => d.symbol == name) h
  exact ⟨List.mem_of_find?_eq_some h, eq_of_beq hname⟩

/-- In a row of distinct names each node is the first of its name. -/
theorem named?_of_mem {row : List CallNode} (hrow : (row.map symbol).Nodup) {c : CallNode}
    (hc : c ∈ row) : named? c.symbol row = some c := by
  induction row with
  | nil => exact absurd hc (by simp)
  | cons d row ih =>
    rw [List.map_cons, List.nodup_cons] at hrow
    rw [named?_cons]
    rcases List.mem_cons.mp hc with rfl | hmem
    · exact if_pos rfl
    · have hne : ¬ d.symbol = c.symbol := fun heq =>
        hrow.1 (heq ▸ List.mem_map_of_mem hmem)
      rw [if_neg hne]
      exact ih hrow.2 hmem

@[simp] theorem find?_nil (row : List CallNode) : find? [] row = none := rfl

theorem find?_cons (name : String) (rest : List String) (row : List CallNode) :
    find? (name :: rest) row =
      (named? name row).bind fun c => if rest = [] then some c else find? rest c.children := by
  rw [find?, named?]
  cases row.find? fun c => c.symbol == name <;> rfl

/-- **Where names are distinct, walking down a path finds its node.** -/
theorem find?_eq_some_iff {row : List CallNode} (hrow : Distinct row) {path : List String}
    {c : CallNode} : find? path row = some c ↔ LeadsTo row path c := by
  constructor
  · intro h
    induction path generalizing row with
    | nil => exact absurd h (by simp)
    | cons name rest ih =>
      rw [find?_cons, Option.bind_eq_some_iff] at h
      obtain ⟨d, hd, h⟩ := h
      obtain ⟨hmem, rfl⟩ := mem_of_named? hd
      split at h
      · rename_i hrest
        rw [hrest, ← Option.some.inj h]
        exact .here hmem
      · exact .down hmem (ih (hrow.children d hmem) h)
  · intro h
    induction h with
    | here hc => rw [find?_cons, named?_of_mem hrow.nodup hc, Option.bind_some, if_pos rfl]
    | @down row d c rest hd hc ih =>
      have hrest : rest ≠ [] := by
        rintro rfl
        cases hc
      rw [find?_cons, named?_of_mem hrow.nodup hd, Option.bind_some, if_neg hrest]
      exact ih (hrow.children d hd)

/-! ## One stack -/

/-- A node that has counted nothing. -/
def fresh (f : Frame) : CallNode := .node f.address f.shownName 0 0 []

@[simp] theorem symbol_fresh (f : Frame) : (fresh f).symbol = f.shownName := rfl

@[simp] theorem children_fresh (f : Frame) : (fresh f).children = [] := rfl

/-- A stack comes to a node and goes on below it, or ends there. -/
def arrive (rest : List Frame) : CallNode → CallNode
  | .node a s n l cs =>
    if rest = [] then .node a s n (l + 1) cs else .node a s (n + 1) l (insertStack rest cs)

@[simp] theorem insertStack_nil (row : List CallNode) : insertStack [] row = row := rfl

theorem insertStack_cons (f : Frame) (rest : List Frame) (row : List CallNode) :
    insertStack (f :: rest) row =
      upsert f.shownName (arrive rest) (arrive rest (fresh f)) row := by
  cases rest <;> rfl

section arrive

variable (rest : List Frame) (c : CallNode)

@[simp] theorem symbol_arrive : (arrive rest c).symbol = c.symbol := by
  cases c
  by_cases h : rest = [] <;> simp [arrive, h, symbol]

@[simp] theorem address_arrive : (arrive rest c).address = c.address := by
  cases c
  by_cases h : rest = [] <;> simp [arrive, h, address]

@[simp] theorem children_arrive : (arrive rest c).children = insertStack rest c.children := by
  cases c
  by_cases h : rest = [] <;> simp [arrive, h, children]

@[simp] theorem asNode_arrive :
    (arrive rest c).asNode = c.asNode + if rest = [] then 0 else 1 := by
  cases c
  by_cases h : rest = [] <;> simp [arrive, h, asNode]

@[simp] theorem asLeaf_arrive :
    (arrive rest c).asLeaf = c.asLeaf + if rest = [] then 1 else 0 := by
  cases c
  by_cases h : rest = [] <;> simp [arrive, h, asLeaf]

end arrive

/-! ### The row it goes into -/

section upsert

variable {name : String} {change : CallNode → CallNode} {new : CallNode}

theorem named?_upsert (hchange : ∀ c, (change c).symbol = c.symbol) (hnew : new.symbol = name)
    (row : List CallNode) (other : String) :
    named? other (upsert name change new row) =
      if other = name then some (((named? name row).map change).getD new)
      else named? other row := by
  induction row with
  | nil =>
    rw [upsert, named?_cons, hnew]
    by_cases h : other = name
    · rw [if_pos h, if_pos h.symm]
      rfl
    · rw [if_neg h, if_neg (Ne.symm h)]
  | cons c row ih =>
    rw [upsert, named?_cons, named?_cons]
    by_cases hc : c.symbol = name
    · rw [if_pos hc, if_pos hc, named?_cons, hchange, hc]
      by_cases h : other = name
      · rw [if_pos h, if_pos h.symm]
        rfl
      · rw [if_neg h, if_neg (Ne.symm h), if_neg (Ne.symm h)]
    · rw [if_neg hc, if_neg hc, named?_cons, ih]
      by_cases h : other = name
      · rw [if_pos h, if_pos h, h, if_neg hc]
      · rw [if_neg h, if_neg h]

theorem mem_upsert {row : List CallNode} {d : CallNode} (h : d ∈ upsert name change new row) :
    d ∈ row ∨ (∃ c ∈ row, d = change c) ∨ d = new := by
  induction row with
  | nil => exact .inr (.inr (List.mem_singleton.mp h))
  | cons c row ih =>
    rw [upsert] at h
    split at h
    · rcases List.mem_cons.mp h with rfl | hmem
      · exact .inr (.inl ⟨c, List.mem_cons_self, rfl⟩)
      · exact .inl (List.mem_cons_of_mem c hmem)
    · rcases List.mem_cons.mp h with rfl | hmem
      · exact .inl List.mem_cons_self
      · rcases ih hmem with hold | ⟨d, hd, rfl⟩ | hnew
        · exact .inl (List.mem_cons_of_mem c hold)
        · exact .inr (.inl ⟨d, List.mem_cons_of_mem c hd, rfl⟩)
        · exact .inr (.inr hnew)

theorem map_symbol_upsert (hchange : ∀ c, (change c).symbol = c.symbol) (hnew : new.symbol = name)
    (row : List CallNode) :
    (upsert name change new row).map symbol =
      if name ∈ row.map symbol then row.map symbol else row.map symbol ++ [name] := by
  induction row with
  | nil => simp [upsert, hnew]
  | cons c row ih =>
    rw [upsert]
    by_cases hc : c.symbol = name
    · rw [if_pos hc, List.map_cons, List.map_cons, hchange, hc, if_pos List.mem_cons_self]
    · rw [if_neg hc, List.map_cons, List.map_cons, ih]
      by_cases hmem : name ∈ row.map symbol
      · rw [if_pos hmem, if_pos (List.mem_cons_of_mem _ hmem)]
      · rw [if_neg hmem, if_neg (by simp [hmem, Ne.symm hc]), List.cons_append]

end upsert

/-- **A stack keeps the names of siblings distinct.** -/
theorem Distinct.insertStack {row : List CallNode} (h : Distinct row) (stack : List Frame) :
    Distinct (insertStack stack row) := by
  induction stack generalizing row with
  | nil => exact h
  | cons f rest ih =>
    rw [insertStack_cons]
    refine .intro ?_ ?_
    · rw [map_symbol_upsert (symbol_arrive rest) (by rw [symbol_arrive, symbol_fresh])]
      split
      · exact h.nodup
      · rename_i hnew
        rw [List.nodup_append]
        refine ⟨h.nodup, by simp, ?_⟩
        intro name hname name' hname'
        rw [List.mem_singleton.mp hname']
        rintro rfl
        exact hnew hname
    · intro c hc
      rcases mem_upsert hc with hold | ⟨d, hd, rfl⟩ | rfl
      · exact h.children c hold
      · rw [children_arrive]
        exact ih (h.children d hd)
      · rw [children_arrive]
        exact ih distinct_nil

/-! ## What stands at a path -/

/-- What is seen at the end of a path. -/
structure Tally where
  /-- The address of the frame that came first, if any came. -/
  founder : Option UInt64
  asNode : Nat
  asLeaf : Nat
  deriving DecidableEq

namespace Tally

/-- Nothing came. -/
def zero : Tally := ⟨none, 0, 0⟩

/-- The tallies of an earlier and of a later time. -/
def add (s t : Tally) : Tally := ⟨s.founder.or t.founder, s.asNode + t.asNode, s.asLeaf + t.asLeaf⟩

@[simp] theorem zero_add (t : Tally) : zero.add t = t := by simp [zero, add]

@[simp] theorem add_zero (t : Tally) : t.add zero = t := by simp [zero, add]

theorem add_assoc (s t u : Tally) : (s.add t).add u = s.add (t.add u) := by
  simp only [add, Option.or_assoc, Nat.add_assoc]

/-- The tally of a node. -/
def ofNode (c : CallNode) : Tally := ⟨some c.address, c.asNode, c.asLeaf⟩

end Tally

/-- What stands at the end of a path. -/
def tallyAt (path : List String) (row : List CallNode) : Tally :=
  ((find? path row).map Tally.ofNode).getD .zero

@[simp] theorem tallyAt_nil (path : List String) : tallyAt path [] = .zero := by
  cases path <;> rfl

/-- A stack leaves the address of a node as it was, whatever its own frame is. -/
theorem ofNode_arrive (rest : List Frame) (c : CallNode) (founder : Option UInt64) :
    Tally.ofNode (arrive rest c) =
      (Tally.ofNode c).add ⟨founder, if rest = [] then 0 else 1, if rest = [] then 1 else 0⟩ := by
  simp [Tally.ofNode, Tally.add]

theorem ofNode_arrive_fresh (rest : List Frame) (f : Frame) :
    Tally.ofNode (arrive rest (fresh f)) =
      ⟨some f.address, if rest = [] then 0 else 1, if rest = [] then 1 else 0⟩ := by
  rw [Tally.ofNode, address_arrive, asNode_arrive, asLeaf_arrive]
  simp [fresh, address, asNode, asLeaf]

/-- The frame of a stack at the end of a path that the stack follows. -/
def frameAt? (path : List String) (stack : List Frame) : Option Frame :=
  if path <+: shownNames stack then stack[path.length - 1]? else none

/-- What a stack brings to the end of a path. -/
def tallyOf (path : List String) (stack : List Frame) : Tally where
  founder := (frameAt? path stack).map Frame.address
  asNode := if path <+: shownNames stack ∧ shownNames stack ≠ path then 1 else 0
  asLeaf := if shownNames stack = path then 1 else 0

theorem tallyOf_of_not_follows {path : List String} {stack : List Frame}
    (h : ¬ path <+: shownNames stack) : tallyOf path stack = .zero := by
  have hne : shownNames stack ≠ path := by
    rintro rfl
    exact h List.prefix_rfl
  simp [tallyOf, frameAt?, h, hne, Tally.zero]

/-- A path of one name. -/
theorem tallyOf_singleton (f : Frame) (rest : List Frame) :
    tallyOf [f.shownName] (f :: rest) =
      ⟨some f.address, if rest = [] then 0 else 1, if rest = [] then 1 else 0⟩ := by
  simp [tallyOf, frameAt?]

/-- A longer path that begins with the outermost frame goes on below it. -/
theorem tallyOf_cons {path : List String} (hpath : path ≠ []) (f : Frame) (rest : List Frame) :
    tallyOf (f.shownName :: path) (f :: rest) = tallyOf path rest := by
  obtain ⟨name, path, rfl⟩ := List.exists_cons_of_ne_nil hpath
  simp [tallyOf, frameAt?, List.cons_prefix_cons]

theorem tallyAt_cons (name : String) {rest : List String} (hrest : rest ≠ [])
    (row : List CallNode) :
    tallyAt (name :: rest) row =
      ((named? name row).map fun c => tallyAt rest c.children).getD .zero := by
  rw [tallyAt, find?_cons]
  cases named? name row with
  | none => rfl
  | some c => simp only [Option.bind_some, if_neg hrest, Option.map_some, Option.getD_some, tallyAt]

theorem tallyAt_singleton (name : String) (row : List CallNode) :
    tallyAt [name] row = ((named? name row).map Tally.ofNode).getD .zero := by
  rw [tallyAt, find?_cons]
  cases named? name row <;> rfl

theorem named?_insertStack (f : Frame) (rest : List Frame) (row : List CallNode) (other : String) :
    named? other (insertStack (f :: rest) row) =
      if other = f.shownName then some (arrive rest ((named? other row).getD (fresh f)))
      else named? other row := by
  rw [insertStack_cons,
    named?_upsert (symbol_arrive rest) (by rw [symbol_arrive, symbol_fresh]) row other]
  by_cases h : other = f.shownName
  · rw [if_pos h, if_pos h, h]
    cases named? f.shownName row <;> rfl
  · rw [if_neg h, if_neg h]

/-- **A stack adds its own tally to what stood at a path.** -/
theorem tallyAt_insertStack {path : List String} (hpath : path ≠ []) (stack : List Frame)
    (row : List CallNode) :
    tallyAt path (insertStack stack row) = (tallyAt path row).add (tallyOf path stack) := by
  induction stack generalizing path row with
  | nil => rw [tallyOf_of_not_follows (by simpa using hpath), insertStack_nil, Tally.add_zero]
  | cons f rest ih =>
    obtain ⟨name, more, rfl⟩ := List.exists_cons_of_ne_nil hpath
    by_cases hname : name = f.shownName
    · subst hname
      by_cases hmore : more = []
      · subst hmore
        rw [tallyOf_singleton, tallyAt_singleton, tallyAt_singleton, named?_insertStack, if_pos rfl]
        cases named? f.shownName row with
        | none => exact (ofNode_arrive_fresh rest f).trans (Tally.zero_add _).symm
        | some c => exact ofNode_arrive rest c _
      · rw [tallyOf_cons hmore, tallyAt_cons _ hmore, tallyAt_cons _ hmore, named?_insertStack,
          if_pos rfl, Option.map_some, Option.getD_some, children_arrive, ih hmore]
        cases named? f.shownName row with
        | none => rw [Option.getD_none, children_fresh, tallyAt_nil]; rfl
        | some c => rfl
    · have hfollows : ¬ name :: more <+: shownNames (f :: rest) := by
        rw [shownNames_cons, List.cons_prefix_cons]
        exact fun h => hname h.1
      rw [tallyOf_of_not_follows hfollows, Tally.add_zero, tallyAt, tallyAt, find?_cons, find?_cons,
        named?_insertStack, if_neg hname]

/-! ## All stacks -/

/-- What all stacks bring to the end of a path. -/
def tallyOfAll (path : List String) (inputs : List (List Frame)) : Tally where
  founder := (inputs.findSome? (frameAt? path)).map Frame.address
  asNode := inputs.countP fun stack => path <+: shownNames stack ∧ shownNames stack ≠ path
  asLeaf := inputs.countP fun stack => shownNames stack = path

theorem tallyOfAll_cons (path : List String) (stack : List Frame) (inputs : List (List Frame)) :
    tallyOfAll path (stack :: inputs) = (tallyOf path stack).add (tallyOfAll path inputs) := by
  simp only [tallyOfAll, tallyOf, Tally.add, List.findSome?_cons, List.countP_cons,
    decide_eq_true_eq, Tally.mk.injEq]
  refine ⟨?_, Nat.add_comm _ _, Nat.add_comm _ _⟩
  cases frameAt? path stack <;> rfl

/-- A path that some stack follows has a first such stack. -/
theorem isSome_founder_tallyOfAll {path : List String} (hpath : path ≠ [])
    (inputs : List (List Frame)) :
    (tallyOfAll path inputs).founder.isSome ↔ ∃ stack ∈ inputs, path <+: shownNames stack := by
  rw [tallyOfAll, Option.isSome_map, List.findSome?_isSome_iff]
  refine exists_congr fun stack => and_congr_right fun _ => ?_
  unfold frameAt?
  split
  · rename_i hfollows
    have hlength := hfollows.length_le
    have hpos := List.length_pos_iff.mpr hpath
    rw [shownNames, List.length_map] at hlength
    rw [List.getElem?_eq_getElem (by omega)]
    exact iff_of_true rfl hfollows
  · rename_i hfollows
    exact iff_of_false (by simp) hfollows

end CallNode

namespace CallTree

open CallNode

/-- The tree of some stacks, in the order in which they arrive. -/
def ofStacks (inputs : List (List Frame)) : CallTree := inputs.foldl insert empty

@[simp] theorem roots_insert (t : CallTree) (stack : List Frame) :
    (t.insert stack).roots = insertStack stack t.roots := by
  cases stack <;> rfl

theorem stackCount_insert (t : CallTree) (stack : List Frame) :
    (t.insert stack).stackCount = t.stackCount + if stack ≠ [] then 1 else 0 := by
  cases stack <;> rfl

/-- **What a tree shows at a path is what its stacks brought there**, beginning with
any tree. -/
theorem tallyAt_foldl_insert {path : List String} (hpath : path ≠ [])
    (inputs : List (List Frame)) (t : CallTree) :
    tallyAt path (inputs.foldl insert t).roots =
      (tallyAt path t.roots).add (tallyOfAll path inputs) := by
  induction inputs generalizing t with
  | nil => exact (Tally.add_zero _).symm
  | cons stack inputs ih =>
    rw [List.foldl_cons, ih, roots_insert, tallyAt_insertStack hpath, tallyOfAll_cons,
      Tally.add_assoc]

theorem tallyAt_roots_ofStacks {path : List String} (hpath : path ≠ [])
    (inputs : List (List Frame)) :
    tallyAt path (ofStacks inputs).roots = tallyOfAll path inputs :=
  (tallyAt_foldl_insert hpath inputs empty).trans
    ((congrArg (Tally.add · _) (tallyAt_nil path)).trans (Tally.zero_add _))

theorem distinct_foldl_insert (inputs : List (List Frame)) {t : CallTree}
    (h : Distinct t.roots) : Distinct (inputs.foldl insert t).roots := by
  induction inputs generalizing t with
  | nil => exact h
  | cons stack inputs ih =>
    rw [List.foldl_cons]
    refine ih ?_
    rw [roots_insert]
    exact h.insertStack stack

theorem distinct_roots_ofStacks (inputs : List (List Frame)) : Distinct (ofStacks inputs).roots :=
  distinct_foldl_insert inputs distinct_nil

theorem stackCount_ofStacks (inputs : List (List Frame)) :
    (ofStacks inputs).stackCount = inputs.countP (· ≠ []) := by
  have hrun : ∀ t : CallTree,
      (inputs.foldl insert t).stackCount = t.stackCount + inputs.countP (· ≠ []) := by
    induction inputs with
    | nil => exact fun t => rfl
    | cons stack inputs ih =>
      intro t
      rw [List.foldl_cons, ih, stackCount_insert, List.countP_cons]
      simp only [decide_eq_true_eq]
      omega
  exact (hrun empty).trans (Nat.zero_add _)

/-- The node at a path, through its tally. -/
theorem leadsTo_ofStacks {inputs : List (List Frame)} {path : List String} {c : CallNode}
    (h : LeadsTo (ofStacks inputs).roots path c) : path ≠ [] ∧
      Tally.ofNode c = tallyOfAll path inputs := by
  have hpath : path ≠ [] := by
    rintro rfl
    cases h
  have hfind := (find?_eq_some_iff (distinct_roots_ofStacks inputs)).mpr h
  refine ⟨hpath, ?_⟩
  rw [← tallyAt_roots_ofStacks hpath, tallyAt, hfind]
  rfl

theorem exists_leadsTo_ofStacks {inputs : List (List Frame)} {path : List String}
    (hpath : path ≠ []) : (∃ c, LeadsTo (ofStacks inputs).roots path c) ↔
      ∃ stack ∈ inputs, path <+: shownNames stack := by
  rw [← isSome_founder_tallyOfAll hpath, ← tallyAt_roots_ofStacks hpath, tallyAt]
  simp only [← find?_eq_some_iff (distinct_roots_ofStacks inputs)]
  cases find? path (ofStacks inputs).roots with
  | none => simp [Tally.zero]
  | some c => simp [Tally.ofNode]

/-- The counts at a path do not depend on the order of the stacks. -/
theorem exists_counts_of_perm {inputs inputs' : List (List Frame)} (h : inputs.Perm inputs')
    {path : List String} {n l : Nat}
    (hnode : ∃ c, LeadsTo (ofStacks inputs).roots path c ∧ c.asNode = n ∧ c.asLeaf = l) :
    ∃ c, LeadsTo (ofStacks inputs').roots path c ∧ c.asNode = n ∧ c.asLeaf = l := by
  obtain ⟨c, hc, rfl, rfl⟩ := hnode
  obtain ⟨hpath, htally⟩ := leadsTo_ofStacks hc
  obtain ⟨stack, hmem, hfollows⟩ := (exists_leadsTo_ofStacks hpath).mp ⟨c, hc⟩
  obtain ⟨d, hd⟩ := (exists_leadsTo_ofStacks hpath).mpr ⟨stack, h.mem_iff.mp hmem, hfollows⟩
  have htally' := (leadsTo_ofStacks hd).2
  have hnode : (tallyOfAll path inputs').asNode = (tallyOfAll path inputs).asNode :=
    (h.countP_eq _).symm
  have hleaf : (tallyOfAll path inputs').asLeaf = (tallyOfAll path inputs).asLeaf :=
    (h.countP_eq _).symm
  rw [← htally, ← htally'] at hnode hleaf
  exact ⟨d, hd, hnode, hleaf⟩

/-- **Every node counts the stacks that come through it.**  In the tree of any stacks:

* a node stands at a path exactly if some stack begins with the path;
* walking down the path finds it; it counts as a leaf the stacks that are the path and
  as a node those that go on, and its address is the one that the first of them has
  there;
* no two siblings have the same name;
* all stacks but the empty ones are counted;
* in another order the stacks have the same nodes with the same counts. -/
theorem nodes_count_stacks (inputs : List (List Frame)) :
    (∀ name rest, (∃ c, LeadsTo (ofStacks inputs).roots (name :: rest) c) ↔
      ∃ stack ∈ inputs, name :: rest <+: shownNames stack) ∧
    (∀ path c, LeadsTo (ofStacks inputs).roots path c →
      find? path (ofStacks inputs).roots = some c ∧
      c.asLeaf = inputs.countP (fun stack => shownNames stack = path) ∧
      c.asNode =
        inputs.countP (fun stack => path <+: shownNames stack ∧ shownNames stack ≠ path) ∧
      ∃ frame, inputs.findSome? (frameAt? path) = some frame ∧ c.address = frame.address) ∧
    Distinct (ofStacks inputs).roots ∧
    (ofStacks inputs).stackCount = inputs.countP (· ≠ []) ∧
    ∀ inputs', inputs.Perm inputs' →
      (ofStacks inputs').stackCount = (ofStacks inputs).stackCount ∧
      ∀ path n l, (∃ c, LeadsTo (ofStacks inputs).roots path c ∧ c.asNode = n ∧ c.asLeaf = l) ↔
        ∃ c, LeadsTo (ofStacks inputs').roots path c ∧ c.asNode = n ∧ c.asLeaf = l := by
  have hdistinct := distinct_roots_ofStacks inputs
  refine ⟨?_, ?_, hdistinct, stackCount_ofStacks inputs, ?_⟩
  · exact fun name rest => exists_leadsTo_ofStacks (List.cons_ne_nil name rest)
  · intro path c hc
    have htally := (leadsTo_ofStacks hc).2
    refine ⟨(find?_eq_some_iff hdistinct).mpr hc, congrArg Tally.asLeaf htally,
      congrArg Tally.asNode htally, ?_⟩
    have hfounder : some c.address = (tallyOfAll path inputs).founder :=
      congrArg Tally.founder htally
    obtain ⟨frame, hframe, haddress⟩ := Option.map_eq_some_iff.mp hfounder.symm
    exact ⟨frame, hframe, haddress.symm⟩
  · intro inputs' hperm
    rw [stackCount_ofStacks, stackCount_ofStacks, hperm.countP_eq]
    exact ⟨rfl, fun path n l => ⟨exists_counts_of_perm hperm, exists_counts_of_perm hperm.symm⟩⟩

/-- A method that calls itself, met at two addresses, a frame without a name and a stack
without frames. -/
def recursiveStacks : List (List Frame) :=
  [[⟨16, "Main"⟩, ⟨32, "Walk"⟩, ⟨48, "Walk"⟩], [⟨17, "Main"⟩, ⟨33, "Walk"⟩], [],
    [⟨18, "Main"⟩, ⟨33, "Walk"⟩, ⟨50, "Walk"⟩, ⟨51, ""⟩]]

theorem nodes_count_stacks_recursive :
    ∃ c, LeadsTo (ofStacks recursiveStacks).roots ["Main", "Walk", "Walk"] c ∧
      find? ["Main", "Walk", "Walk"] (ofStacks recursiveStacks).roots = some c ∧
      c.asLeaf = 1 ∧ c.asNode = 1 ∧ c.address = 48 ∧
      recursiveStacks.Perm recursiveStacks.reverse ∧
      (ofStacks recursiveStacks.reverse).stackCount = 3 := by
  obtain ⟨hexists, hcounts, -, hcount, horder⟩ := nodes_count_stacks recursiveStacks
  obtain ⟨c, hc⟩ := (hexists "Main" ["Walk", "Walk"]).mpr
    ⟨_, List.mem_cons_self, by decide +kernel⟩
  obtain ⟨hfind, hleaf, hnode, frame, hframe, haddress⟩ := hcounts _ c hc
  have hperm : recursiveStacks.Perm recursiveStacks.reverse := (List.reverse_perm _).symm
  refine ⟨c, hc, hfind, hleaf.trans (by decide +kernel), hnode.trans (by decide +kernel), ?_, hperm,
    ((horder _ hperm).1.trans hcount).trans (by decide +kernel)⟩
  have hfirst : recursiveStacks.findSome? (frameAt? ["Main", "Walk", "Walk"]) =
      some ⟨48, "Walk"⟩ := by decide +kernel
  rw [haddress, ← Option.some.inj (hfirst.symm.trans hframe)]

end CallTree
end RuntimeTrace
