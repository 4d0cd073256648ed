import Mathlib.Data.List.Nodup
import RuntimeTrace.Table

/-!
# Parts of a table

The keys of a table often fall into groups that have nothing to do with each other.
`restrict` keeps the entries of one group, in their order.  Every operation on a
table commutes with it: done at a key of the group it may be done before or after
the restriction, and done at any other key it leaves the part as it was.

The statements are equalities of tables, so that a part of a state can stand for a
state of its own.
-/

namespace RuntimeTrace
namespace Table

variable {κ α : Type}

/-- The entries whose keys satisfy a test. -/
def restrict (t : Table κ α) (keep : κ → Bool) : Table κ α := t.filter fun k _ => keep k

/-- Two tests in turn, in either order. -/
theorem restrict_filter (t : Table κ α) (keep : κ → Bool) (test : κ → α → Bool) :
    (t.filter test).restrict keep = (t.restrict keep).filter test := by
  apply ext
  show List.filter _ (List.filter _ _) = List.filter _ (List.filter _ _)
  rw [List.filter_comm]

/-- Keys that fall into exactly one of two groups are counted once. -/
theorem size_eq_add (t : Table κ α) {keep other : κ → Bool}
    (h : ∀ e ∈ t.entries, keep e.1 = !other e.1) :
    t.size = (t.restrict keep).size + (t.restrict other).size := by
  have hother : t.entries.filter (fun e => other e.1) =
      t.entries.filter (fun e => !keep e.1) := by
    apply List.filter_congr
    intro e he
    rw [h e he, Bool.not_not]
  have hlength := List.length_eq_length_filter_add (l := t.entries) (fun e => keep e.1)
  rw [← hother] at hlength
  exact hlength

variable [DecidableEq κ]

/-! ## Entries and lookups -/

theorem mem_entries_of_get? {t : Table κ α} {k : κ} {v : α} (h : t.get? k = some v) :
    (k, v) ∈ t.entries := by
  obtain ⟨before, behind, hentries, -⟩ := List.lookup_eq_some_iff.mp h
  rw [hentries]
  exact List.mem_append_right before List.mem_cons_self

theorem lookup_of_mem {k : κ} {v : α} {es : List (κ × α)} (hnodup : (es.map Prod.fst).Nodup)
    (h : (k, v) ∈ es) : es.lookup k = some v := by
  induction es with
  | nil => exact absurd h (by simp)
  | cons e es ih =>
    obtain ⟨k', v'⟩ := e
    rw [List.map_cons, List.nodup_cons] at hnodup
    rw [List.lookup_cons]
    rcases List.mem_cons.mp h with heq | hmem
    · rw [Prod.mk.injEq] at heq
      simp [heq.1, heq.2]
    · have hne : k ≠ k' := by
        rintro rfl
        exact hnodup.1 (List.mem_map.mpr ⟨(k, v), hmem, rfl⟩)
      rw [beq_eq_false_iff_ne.mpr hne]
      exact ih hnodup.2 hmem

theorem get?_of_mem_entries {t : Table κ α} {k : κ} {v : α} (h : (k, v) ∈ t.entries) :
    t.get? k = some v :=
  lookup_of_mem t.nodup h

/-- A table in which nothing is found has no entries. -/
theorem eq_empty_of_get?_eq_none {t : Table κ α} (h : ∀ k, t.get? k = none) : t = empty := by
  apply ext
  apply List.eq_nil_iff_forall_not_mem.mpr
  rintro ⟨k, v⟩ hmem
  have hsome := get?_of_mem_entries hmem
  rw [h k] at hsome
  exact absurd hsome (by simp)

/-- What a test on entries does to a lookup. -/
theorem get?_filter_eq_some {t : Table κ α} {test : κ → α → Bool} {k : κ} {v : α} :
    (t.filter test).get? k = some v ↔ t.get? k = some v ∧ test k v = true := by
  constructor
  · intro h
    obtain ⟨hmem, htest⟩ := List.mem_filter.mp (mem_entries_of_get? h)
    exact ⟨get?_of_mem_entries hmem, htest⟩
  · rintro ⟨h, htest⟩
    exact get?_of_mem_entries (List.mem_filter.mpr ⟨mem_entries_of_get? h, htest⟩)

/-- A key of the group is looked up in the part as in the whole. -/
theorem get?_restrict (t : Table κ α) (keep : κ → Bool) (k : κ) :
    (t.restrict keep).get? k = if keep k then t.get? k else none := by
  apply Option.ext
  intro v
  rw [restrict, get?_filter_eq_some]
  by_cases h : keep k = true
  · rw [if_pos h]
    exact ⟨And.left, fun hv => ⟨hv, h⟩⟩
  · rw [if_neg h]
    exact ⟨fun hv => absurd hv.2 h, fun hv => absurd hv (by simp)⟩

/-- A key under which the whole has nothing but what the part has. -/
theorem get?_restrict_of_forall {t : Table κ α} {keep : κ → Bool} {k : κ}
    (h : ∀ v, t.get? k = some v → keep k = true) : (t.restrict keep).get? k = t.get? k := by
  rw [get?_restrict]
  by_cases hk : keep k = true
  · rw [if_pos hk]
  · rw [if_neg hk]
    apply Eq.symm
    apply Option.eq_none_iff_forall_ne_some.mpr
    exact fun v hv => hk (h v hv)

/-! ## Operations on a part -/

theorem restrict_modify (t : Table κ α) (keep : κ → Bool) (k : κ) (f : α → α) :
    (t.modify k f).restrict keep = (t.restrict keep).modify k f := by
  apply ext
  show (changeEntries k f t.entries).filter (fun e => keep e.1) =
    changeEntries k f (t.entries.filter fun e => keep e.1)
  rw [changeEntries, changeEntries, List.filter_map]
  congr 2
  funext e
  by_cases h : e.1 = k <;> simp [h]

theorem modify_of_get?_eq_none {t : Table κ α} {k : κ} (h : t.get? k = none) (f : α → α) :
    t.modify k f = t := by
  apply ext
  refine (List.map_congr_left ?_).trans (List.map_id t.entries)
  intro e he
  have hne : e.1 ≠ k := by
    rintro rfl
    rw [get?_of_mem_entries (t := t) he] at h
    exact absurd h (by simp)
  exact if_neg hne

theorem restrict_modify_of_not {t : Table κ α} {keep : κ → Bool} {k : κ} (h : keep k = false)
    (f : α → α) : (t.modify k f).restrict keep = t.restrict keep := by
  rw [restrict_modify]
  apply modify_of_get?_eq_none
  rw [get?_restrict, if_neg (by simp [h])]

theorem restrict_erase (t : Table κ α) (keep : κ → Bool) (k : κ) :
    (t.erase k).restrict keep = (t.restrict keep).erase k :=
  restrict_filter t keep _

/-- A test that all entries of a part pass. -/
theorem restrict_filter_of_forall {t : Table κ α} {keep : κ → Bool} {test : κ → α → Bool}
    (h : ∀ k v, t.get? k = some v → keep k = true → test k v = true) :
    (t.filter test).restrict keep = t.restrict keep := by
  rw [restrict_filter]
  apply ext
  apply List.filter_eq_self.mpr
  intro e he
  obtain ⟨hmem, hkeep⟩ := List.mem_filter.mp he
  exact h e.1 e.2 (get?_of_mem_entries hmem) hkeep

theorem restrict_erase_of_not {t : Table κ α} {keep : κ → Bool} {k : κ} (h : keep k = false) :
    (t.erase k).restrict keep = t.restrict keep := by
  apply restrict_filter_of_forall
  intro j v _ hj
  have hne : j ≠ k := by
    rintro rfl
    rw [h] at hj
    exact absurd hj (by simp)
  exact decide_eq_true hne

theorem insert_of_get?_eq_some {t : Table κ α} {k : κ} {w : α} (h : t.get? k = some w) (v : α) :
    t.insert k v = t.modify k fun _ => v := by
  unfold insert
  split
  · rfl
  · rename_i hnone
    rw [h] at hnone
    exact absurd hnone (by simp)

/-- A value that is computed from the one in its place changes that one. -/
theorem insert_apply {t : Table κ α} {k : κ} {v : α} (h : t.get? k = some v) (f : α → α) :
    t.insert k (f v) = t.modify k f := by
  rw [insert_of_get?_eq_some h]
  apply ext
  refine List.map_congr_left fun e he => ?_
  by_cases hk : e.1 = k
  · have hvalue := get?_of_mem_entries he
    rw [hk, h, Option.some.injEq] at hvalue
    rw [if_pos hk, if_pos hk, hvalue]
  · rw [if_neg hk, if_neg hk]

/-- The value that is there already changes nothing. -/
theorem insert_self {t : Table κ α} {k : κ} {v : α} (h : t.get? k = some v) : t.insert k v = t := by
  have hmodify : t.insert k v = t.modify k id := insert_apply h id
  rw [hmodify]
  apply ext
  refine (List.map_congr_left fun e _ => ?_).trans (List.map_id t.entries)
  by_cases hk : e.1 = k
  · exact if_pos hk
  · exact if_neg hk

theorem entries_insert_of_get?_eq_none {t : Table κ α} {k : κ} (h : t.get? k = none) (v : α) :
    (t.insert k v).entries = t.entries ++ [(k, v)] := by
  unfold insert
  split
  · rename_i w hsome
    rw [h] at hsome
    exact absurd hsome (by simp)
  · rfl

theorem restrict_insert_of_mem {t : Table κ α} {keep : κ → Bool} {k : κ} (h : keep k = true)
    (v : α) : (t.insert k v).restrict keep = (t.restrict keep).insert k v := by
  have hget : (t.restrict keep).get? k = t.get? k := by rw [get?_restrict, if_pos h]
  cases hk : t.get? k with
  | some w =>
    rw [insert_of_get?_eq_some hk, insert_of_get?_eq_some (hget.trans hk), restrict_modify]
  | none =>
    apply ext
    rw [entries_insert_of_get?_eq_none (hget.trans hk)]
    show (t.insert k v).entries.filter (fun e => keep e.1) = _
    rw [entries_insert_of_get?_eq_none hk, List.filter_append, List.filter_singleton, h]
    rfl

theorem restrict_insert_of_not {t : Table κ α} {keep : κ → Bool} {k : κ} (h : keep k = false)
    (v : α) : (t.insert k v).restrict keep = t.restrict keep := by
  cases hk : t.get? k with
  | some w =>
    rw [insert_of_get?_eq_some hk, restrict_modify_of_not h]
  | none =>
    apply ext
    show (t.insert k v).entries.filter (fun e => keep e.1) = _
    rw [entries_insert_of_get?_eq_none hk, List.filter_append, List.filter_singleton, h]
    exact List.append_nil _

/-! ## The number of entries -/

/-- A change under a key adds no entry. -/
theorem size_modify (t : Table κ α) (k : κ) (f : α → α) : (t.modify k f).size = t.size :=
  List.length_map _

/-- **A new key is one entry more**, an old one is none. -/
theorem size_insert (t : Table κ α) (k : κ) (v : α) :
    (t.insert k v).size + (t.contains k).toNat = t.size + 1 := by
  rw [contains]
  cases hk : t.get? k with
  | some w =>
    rw [insert_of_get?_eq_some hk, size_modify]
    rfl
  | none =>
    rw [size, entries_insert_of_get?_eq_none hk, List.length_append, size]
    rfl

/-- **A key that goes takes one entry with it.** -/
theorem size_erase {t : Table κ α} {k : κ} {v : α} (h : t.get? k = some v) :
    (t.erase k).size + 1 = t.size := by
  obtain ⟨before, behind, hentries, hbefore⟩ := List.lookup_eq_some_iff.mp h
  have hnodup := t.nodup
  rw [hentries, List.map_append, List.map_cons, List.nodup_middle, List.nodup_cons,
    ← List.map_append, List.mem_map] at hnodup
  -- the key has one entry, and all others stay
  have hother : (before ++ behind).filter (fun e => decide (e.1 ≠ k)) = before ++ behind := by
    apply List.filter_eq_self.mpr
    exact fun e he => decide_eq_true fun heq => hnodup.1 ⟨e, he, heq⟩
  show (t.entries.filter fun e => decide (e.1 ≠ k)).length + 1 = t.entries.length
  rw [List.filter_append] at hother
  rw [hentries, List.filter_append, List.filter_cons_of_neg (by simp), hother, List.length_append,
    List.length_append, List.length_cons]
  rfl

/-! ## What holds of every entry -/

/-- A property of every key with its value. -/
def Forall (t : Table κ α) (P : κ → α → Prop) : Prop := ∀ k v, t.get? k = some v → P k v

variable {t : Table κ α} {P : κ → α → Prop}

theorem forall_empty : (empty : Table κ α).Forall P := by
  intro k v h
  exact absurd h (by simp)

theorem Forall.insert (h : t.Forall P) {k : κ} {v : α} (hv : P k v) : (t.insert k v).Forall P := by
  intro j w hj
  rw [get?_insert] at hj
  split at hj
  · rename_i hjk
    rw [Option.some.injEq] at hj
    rw [hjk, ← hj]
    exact hv
  · exact h j w hj

theorem Forall.filter (h : t.Forall P) (test : κ → α → Bool) : (t.filter test).Forall P :=
  fun k v hk => h k v (get?_filter_eq_some.mp hk).1

theorem Forall.modify (h : t.Forall P) {k : κ} {f : α → α} (hf : ∀ v, P k v → P k (f v)) :
    (t.modify k f).Forall P := by
  intro j w hj
  rw [get?_modify] at hj
  split at hj
  · rename_i hjk
    obtain ⟨v, hv, rfl⟩ := Option.map_eq_some_iff.mp hj
    rw [hjk]
    exact hf v (h k v hv)
  · exact h j w hj

end Table
end RuntimeTrace
