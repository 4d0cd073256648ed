import Mathlib.Algebra.BigOperators.Group.List.Basic
import Mathlib.Algebra.GroupWithZero.Nat
import Mathlib.Data.List.Forall2
import Mathlib.Data.List.Induction
import RuntimeTrace.Census.Ranking
import RuntimeTrace.Proofs.Table

/-!
# Tables that count, and their rankings

A census puts every input under a key and keeps for each key what the inputs under it add up
to.  `gather` is the table that it fills: under a key it has what the inputs with this key
make in their order, and nothing if there are none (`get?_gather`).  So what is counted under
all keys together is what all inputs count (`sum_gather`).

A ranking lists the entries of a table.  No name occurs twice in it, so its order is strict
(`pairwise_ranking`) and leaves nothing to the order in which names were met: tables with the
same values under the same names have the same ranking, and tables whose values agree in
some respect that includes their weight have rankings that agree entry by entry
(`forall₂_ranking`).
-/

namespace RuntimeTrace
namespace Table

variable {ι κ α : Type} [DecidableEq κ]

theorem get?_update (t : Table κ α) (k j : κ) (start : α) (f : α → α) :
    (t.update k start f).get? j = if j = k then some (f ((t.get? k).getD start)) else t.get? j :=
  get?_insert t k j _

section gather

variable (key : ι → κ) (start : α) (add : α → ι → α)

/-- What inputs add up to under each of their keys. -/
def gather (inputs : List ι) : Table κ α :=
  inputs.foldl (fun t x => t.update (key x) start fun a => add a x) empty

theorem gather_append_singleton (inputs : List ι) (x : ι) :
    gather key start add (inputs ++ [x]) =
      (gather key start add inputs).update (key x) start fun a => add a x := by
  rw [gather, List.foldl_append]
  rfl

/-- The inputs with a key. -/
def under (k : κ) (inputs : List ι) : List ι := inputs.filter fun x => key x = k

theorem under_append_singleton (k : κ) (inputs : List ι) (x : ι) :
    under key k (inputs ++ [x]) = under key k inputs ++ if key x = k then [x] else [] := by
  rw [under, List.filter_append, List.filter_singleton]
  by_cases h : key x = k <;> simp [under, h]

theorem under_eq_nil {k : κ} {inputs : List ι} :
    under key k inputs = [] ↔ ∀ x ∈ inputs, key x ≠ k := by
  simp [under]

/-- **Under a key stands what the inputs with this key add up to.** -/
theorem get?_gather (inputs : List ι) (k : κ) : (gather key start add inputs).get? k =
    if under key k inputs = [] then none else some ((under key k inputs).foldl add start) := by
  induction inputs using List.reverseRecOn with
  | nil => rfl
  | append_singleton inputs x ih =>
    rw [gather_append_singleton, get?_update, under_append_singleton]
    by_cases h : key x = k
    · subst h
      rw [if_pos rfl, if_pos rfl, if_neg (by simp), List.foldl_append, ih]
      by_cases hempty : under key (key x) inputs = []
      · rw [if_pos hempty, hempty]
        rfl
      · rw [if_neg hempty]
        rfl
    · rw [if_neg (Ne.symm h), if_neg h, List.append_nil, ih]

theorem get?_gather_eq_some {inputs : List ι} {k : κ} {a : α} :
    (gather key start add inputs).get? k = some a ↔
      (∃ x ∈ inputs, key x = k) ∧ a = (under key k inputs).foldl add start := by
  rw [get?_gather]
  by_cases h : under key k inputs = []
  · rw [if_pos h]
    refine iff_of_false (by simp) ?_
    rintro ⟨⟨x, hx, hk⟩, -⟩
    exact (under_eq_nil key).mp h x hx hk
  · rw [if_neg h, Option.some.injEq, eq_comm]
    refine (and_iff_right ?_).symm
    rw [under_eq_nil] at h
    push Not at h
    exact h

/-- The keys of a table that cover some inputs count each of these once. -/
theorem sum_under (count : ι → Nat) {keys : List κ} (hnodup : keys.Nodup) {inputs : List ι}
    (hkeys : ∀ x ∈ inputs, key x ∈ keys) :
    (keys.map fun k => ((under key k inputs).map count).sum).sum = (inputs.map count).sum := by
  induction inputs with
  | nil =>
    rw [List.map_nil, List.sum_nil]
    exact List.sum_eq_zero (by simp [under])
  | cons x inputs ih =>
    rw [List.forall_mem_cons] at hkeys
    -- only under its own key does the first input count
    have hsplit : ∀ k, ((under key k (x :: inputs)).map count).sum =
        (if key x = k then count x else 0) + ((under key k inputs).map count).sum := by
      intro k
      by_cases h : key x = k <;> simp [under, h]
    have hown : ∀ {keys : List κ}, keys.Nodup → key x ∈ keys →
        (keys.map fun k => if key x = k then count x else 0).sum = count x := by
      intro keys hnodup hmem
      rw [List.sum_map_eq_nsmul_single (key x), List.count_eq_one_of_mem hnodup hmem]
      · simp
      · exact fun k hne _ => if_neg (Ne.symm hne)
    simp only [hsplit]
    rw [List.sum_map_add, hown hnodup hkeys.1, ih hkeys.2, List.map_cons, List.sum_cons]

/-- **What is counted under all keys is what all inputs count.** -/
theorem sum_gather (count : ι → Nat) (inputs : List ι) :
    ((gather key start add inputs).entries.map fun e =>
      ((under key e.1 inputs).map count).sum).sum = (inputs.map count).sum := by
  rw [← sum_under key count (gather key start add inputs).nodup, List.map_map]
  · rfl
  · intro x hx
    have hsome := (get?_gather_eq_some key start add).mpr ⟨⟨x, hx, rfl⟩, rfl⟩
    exact List.mem_map.mpr ⟨_, mem_entries_of_get? hsome, rfl⟩

end gather

end Table

/-! ## Rankings -/

/-- **What is counted along a ranking is what all inputs count.** -/
theorem sum_ranking_gather {ι α : Type} (weight : α → Nat) (key : ι → String) (start : α)
    (add : α → ι → α) (count : ι → Nat) (inputs : List ι) :
    ((ranking weight (Table.gather key start add inputs).entries).map fun e =>
      ((Table.under key e.1 inputs).map count).sum).sum = (inputs.map count).sum := by
  rw [← Table.sum_gather key start add count inputs]
  exact ((List.mergeSort_perm _ _).map _).sum_eq

theorem sum_length_ranking_gather {ι α : Type} (weight : α → Nat) (key : ι → String) (start : α)
    (add : α → ι → α) (inputs : List ι) :
    ((ranking weight (Table.gather key start add inputs).entries).map fun e =>
      (Table.under key e.1 inputs).length).sum = inputs.length := by
  have hones := sum_ranking_gather weight key start add (fun _ => 1) inputs
  simpa using hones

section ranking

variable {α : Type} (weight : α → Nat)

/-- An entry stands before another: it weighs more, or as much and its name comes first. -/
def Outranks (x y : String × α) : Prop :=
  weight y.2 < weight x.2 ∨ weight x.2 = weight y.2 ∧ x.1 < y.1

theorem ranksBefore_iff {x y : String × α} : ranksBefore weight x y = true ↔
    weight y.2 < weight x.2 ∨ weight x.2 = weight y.2 ∧ x.1 ≤ y.1 := by
  rw [ranksBefore, Bool.or_eq_true, decide_eq_true_eq, Bool.and_eq_true, beq_iff_eq,
    Bool.not_eq_true', decide_eq_false_iff_not, String.not_lt, eq_comm]

variable (t : Table String α)

theorem ranking_perm : (ranking weight t.entries).Perm t.entries := List.mergeSort_perm _ _

/-- The ranking has the entries of the table. -/
theorem mem_ranking {e : String × α} :
    e ∈ ranking weight t.entries ↔ t.get? e.1 = some e.2 := by
  rw [(ranking_perm weight t).mem_iff]
  exact ⟨Table.get?_of_mem_entries, Table.mem_entries_of_get?⟩

/-- Each name occurs once. -/
theorem nodup_ranking : ((ranking weight t.entries).map Prod.fst).Nodup :=
  ((ranking_perm weight t).map Prod.fst).nodup_iff.mpr t.nodup

/-- **A ranking is strictly ordered.** -/
theorem pairwise_ranking : (ranking weight t.entries).Pairwise (Outranks weight) := by
  have htrans : ∀ x y z : String × α, ranksBefore weight x y → ranksBefore weight y z →
      ranksBefore weight x z := by
    intro x y z hxy hyz
    rw [ranksBefore_iff] at hxy hyz ⊢
    rcases hxy with hxy | ⟨hxy, hname⟩
    · exact .inl (by omega)
    · rcases hyz with hyz | ⟨hyz, hname'⟩
      · exact .inl (by omega)
      · exact .inr ⟨hxy.trans hyz, String.le_trans hname hname'⟩
  have htotal : ∀ x y : String × α, ranksBefore weight x y || ranksBefore weight y x := by
    intro x y
    rw [Bool.or_eq_true, ranksBefore_iff, ranksBefore_iff]
    rcases Nat.lt_trichotomy (weight x.2) (weight y.2) with hlt | heq | hgt
    · exact .inr (.inl hlt)
    · exact (String.le_total x.1 y.1).imp (fun h => .inr ⟨heq, h⟩) fun h => .inr ⟨heq.symm, h⟩
    · exact .inl (.inl hgt)
  have hsorted := List.pairwise_mergeSort htrans htotal t.entries
  have hnames := List.pairwise_map.mp (nodup_ranking weight t)
  refine (hsorted.and hnames).imp ?_
  rintro x y ⟨hle, hne⟩
  rw [ranksBefore_iff] at hle
  refine hle.imp_right fun ⟨heq, hname⟩ => ⟨heq, ?_⟩
  rw [← String.not_le]
  exact fun hname' => hne (String.le_antisymm hname hname')

/-- The names of a ranking with their weights. -/
def labels : List (String × Nat) := (ranking weight t.entries).map fun e => (e.1, weight e.2)

theorem mem_labels {name : String} {n : Nat} :
    (name, n) ∈ labels weight t ↔ (t.get? name).map weight = some n := by
  rw [labels, List.mem_map, Option.map_eq_some_iff]
  constructor
  · rintro ⟨e, he, heq⟩
    rw [Prod.mk.injEq] at heq
    exact ⟨e.2, heq.1 ▸ (mem_ranking weight t).mp he, heq.2⟩
  · rintro ⟨a, ha, rfl⟩
    exact ⟨(name, a), (mem_ranking weight t).mpr ha, rfl⟩

theorem pairwise_labels : (labels weight t).Pairwise (Outranks id) :=
  List.pairwise_map.mpr (pairwise_ranking weight t)

theorem nodup_labels : (labels weight t).Nodup := by
  refine List.Nodup.of_map Prod.fst ?_
  rw [labels, List.map_map]
  exact nodup_ranking weight t

variable {weight t}

theorem Outranks.asymm {x y : String × α} (h : Outranks weight x y) : ¬ Outranks weight y x := by
  rintro (hlt | ⟨heq, hname⟩)
  · rcases h with h | ⟨h, -⟩ <;> omega
  · rcases h with h | ⟨-, h⟩
    · omega
    · exact String.lt_asymm h hname

/-- Tables with the same weights under the same names are ranked alike. -/
theorem labels_eq {u : Table String α}
    (h : ∀ name, (t.get? name).map weight = (u.get? name).map weight) :
    labels weight t = labels weight u := by
  refine List.Perm.eq_of_pairwise (fun a b _ _ hab hba => absurd hba hab.asymm)
    (pairwise_labels weight t) (pairwise_labels weight u) ?_
  rw [List.perm_ext_iff_of_nodup (nodup_labels weight t) (nodup_labels weight u)]
  rintro ⟨name, n⟩
  rw [mem_labels, mem_labels, h]

/-- **Tables that agree are ranked alike**, entry by entry. -/
theorem forall₂_ranking {u : Table String α} {agree : α → α → Prop}
    (hweight : ∀ a b, agree a b → weight a = weight b)
    (hagree : ∀ name, Option.Rel agree (t.get? name) (u.get? name)) :
    List.Forall₂ (fun x y => x.1 = y.1 ∧ agree x.2 y.2) (ranking weight t.entries)
      (ranking weight u.entries) := by
  have hlabels : labels weight t = labels weight u := by
    refine labels_eq fun name => ?_
    have hname := hagree name
    generalize t.get? name = a, u.get? name = b at hname
    cases hname with
    | none => rfl
    | some hab => exact congrArg some (hweight _ _ hab)
  rw [labels, labels, ← List.forall₂_eq_eq_eq, List.forall₂_map_left_iff,
    List.forall₂_map_right_iff] at hlabels
  -- entries at one place have one name, and under it stand values that agree
  have hleft := (List.forall₂_and_left _ _).mpr ⟨fun e => (mem_ranking weight t).mp, hlabels⟩
  have hboth := (List.forall₂_and_left _ _).mpr ⟨fun e => (mem_ranking weight u).mp, hleft.flip⟩
  refine hboth.flip.imp fun x y h => ?_
  obtain ⟨hy, hx, heq⟩ := h
  have hname : x.1 = y.1 := (Prod.mk.inj heq).1
  have hrel := hagree x.1
  rw [hx, hname, hy] at hrel
  cases hrel with
  | some hab => exact ⟨hname, hab⟩

end ranking

end RuntimeTrace
