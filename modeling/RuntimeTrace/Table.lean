/-!
# Tables

Open requests, pending waits, type names and resolved addresses are all finite
maps that are looked up by key and change one entry at a time.  A `Table` is such
a map as a list of entries in order of first insertion, with the fact that no key
occurs twice as part of the type, so that the number of entries is the number of
keys.

The equations after the operations say what each does to a lookup.
-/

namespace RuntimeTrace

/-- A finite map, entries in order of first insertion. -/
structure Table (κ α : Type) where
  entries : List (κ × α)
  nodup : (entries.map Prod.fst).Nodup

namespace Table

variable {κ α : Type}

/-- No entries. -/
def empty : Table κ α := ⟨[], List.nodup_nil⟩

instance : Inhabited (Table κ α) := ⟨empty⟩

/-- Number of keys. -/
def size (t : Table κ α) : Nat := t.entries.length

/-- The keys in order of first insertion. -/
def keys (t : Table κ α) : List κ := t.entries.map Prod.fst

/-- The values in order of the first insertion of their keys. -/
def values (t : Table κ α) : List α := t.entries.map Prod.snd

/-- Two tables with the same entries are the same table. -/
theorem ext {s t : Table κ α} (h : s.entries = t.entries) : s = t := by
  cases s
  cases t
  cases h
  rfl

/-- Keeps the entries that satisfy a test. -/
def filter (t : Table κ α) (keep : κ → α → Bool) : Table κ α where
  entries := t.entries.filter fun e => keep e.1 e.2
  nodup := (List.Sublist.map Prod.fst List.filter_sublist).nodup t.nodup

variable [DecidableEq κ]

/-- The value under a key. -/
def get? (t : Table κ α) (k : κ) : Option α := t.entries.lookup k

/-- Whether a key occurs. -/
def contains (t : Table κ α) (k : κ) : Bool := (t.get? k).isSome

/-- Removes a key. -/
def erase (t : Table κ α) (k : κ) : Table κ α := t.filter fun k' _ => k' ≠ k

/-- The entries with a change at one key. -/
def changeEntries (k : κ) (f : α → α) (es : List (κ × α)) : List (κ × α) :=
  es.map fun e => if e.1 = k then (e.1, f e.2) else e

theorem map_fst_changeEntries (k : κ) (f : α → α) (es : List (κ × α)) :
    (changeEntries k f es).map Prod.fst = es.map Prod.fst := by
  simp only [changeEntries, List.map_map]
  apply List.map_congr_left
  intro e _
  by_cases h : e.1 = k <;> simp [h]

/-- Changes the value under a key, if it occurs. -/
def modify (t : Table κ α) (k : κ) (f : α → α) : Table κ α where
  entries := changeEntries k f t.entries
  nodup := by rw [map_fst_changeEntries]; exact t.nodup

theorem lookup_eq_none {k : κ} {es : List (κ × α)} (h : es.lookup k = none) :
    k ∉ es.map Prod.fst := by
  induction es with
  | nil => simp
  | cons e es ih =>
    obtain ⟨k', v⟩ := e
    rw [List.lookup_cons] at h
    by_cases hk : k = k'
    · simp [hk] at h
    · simp only [beq_eq_false_iff_ne.mpr hk] at h
      simp only [List.map_cons, List.mem_cons, not_or]
      exact ⟨hk, ih h⟩

/-- Adds an entry for a key that does not occur yet. -/
def append (t : Table κ α) (k : κ) (v : α) (fresh : t.get? k = none) : Table κ α where
  entries := t.entries ++ [(k, v)]
  nodup := by
    rw [List.map_append]
    refine List.nodup_append.mpr ⟨t.nodup, List.nodup_cons.mpr ⟨by simp, List.nodup_nil⟩, ?_⟩
    intro a ha b hb
    simp only [List.map_cons, List.map_nil, List.mem_singleton] at hb
    subst hb
    rintro rfl
    exact lookup_eq_none fresh ha

/-- Puts a value under a key, in place of the one it had. -/
def insert (t : Table κ α) (k : κ) (v : α) : Table κ α :=
  match h : t.get? k with
  | some _ => t.modify k fun _ => v
  | none => t.append k v h

/-- Changes the value under a key, beginning with `start` if there is none. -/
def update (t : Table κ α) (k : κ) (start : α) (f : α → α) : Table κ α :=
  t.insert k (f ((t.get? k).getD start))

/-! ## Lookups after a change -/

theorem lookup_filter_self (k : κ) (es : List (κ × α)) :
    (es.filter fun e => decide (e.1 ≠ k)).lookup k = none := by
  induction es with
  | nil => rfl
  | cons e es ih =>
    obtain ⟨k', v⟩ := e
    by_cases h : k' = k
    · simpa [h] using ih
    · have h' : (k == k') = false := beq_eq_false_iff_ne.mpr fun hk => h hk.symm
      simp only [ne_eq, h, not_false_eq_true, decide_true, List.filter_cons_of_pos,
        List.lookup_cons, h']
      exact ih

theorem lookup_filter_of_ne {k j : κ} (hj : j ≠ k) (es : List (κ × α)) :
    (es.filter fun e => decide (e.1 ≠ k)).lookup j = es.lookup j := by
  induction es with
  | nil => rfl
  | cons e es ih =>
    obtain ⟨k', v⟩ := e
    by_cases h : k' = k
    · subst h
      have hne : (j == k') = false := beq_eq_false_iff_ne.mpr hj
      simp only [ne_eq, not_true_eq_false, decide_false, Bool.false_eq_true,
        not_false_eq_true, List.filter_cons_of_neg, List.lookup_cons, hne]
      exact ih
    · simp only [ne_eq, h, not_false_eq_true, decide_true, List.filter_cons_of_pos,
        List.lookup_cons]
      split
      · rfl
      · exact ih

theorem lookup_changeEntries (k j : κ) (f : α → α) (es : List (κ × α)) :
    (changeEntries k f es).lookup j = if j = k then (es.lookup k).map f else es.lookup j := by
  induction es with
  | nil => simp [changeEntries]
  | cons e es ih =>
    obtain ⟨k', v⟩ := e
    have ih' := ih
    rw [changeEntries] at ih' ⊢
    rw [List.map_cons]
    by_cases h : k' = k
    · subst h
      by_cases hj : j = k'
      · subst hj
        simp
      · have hne : (j == k') = false := beq_eq_false_iff_ne.mpr hj
        simp only [↓reduceIte, List.lookup_cons, hne, hj]
        rw [ih']
        simp [hj]
    · simp only [h, ↓reduceIte, List.lookup_cons]
      have hk : (k == k') = false := beq_eq_false_iff_ne.mpr fun hk => h hk.symm
      by_cases hj : j = k'
      · subst hj
        simp [h]
      · have hne : (j == k') = false := beq_eq_false_iff_ne.mpr hj
        simp only [hne, hk]
        exact ih'

theorem lookup_append_singleton {k : κ} {es : List (κ × α)} (h : es.lookup k = none) (v : α)
    (j : κ) : (es ++ [(k, v)]).lookup j = if j = k then some v else es.lookup j := by
  induction es with
  | nil =>
    by_cases hj : j = k
    · simp [hj]
    · simp [List.lookup_cons, hj, beq_eq_false_iff_ne.mpr hj]
  | cons e es ih =>
    obtain ⟨k', v'⟩ := e
    rw [List.lookup_cons] at h
    by_cases hk : k = k'
    · simp [hk] at h
    · simp only [beq_eq_false_iff_ne.mpr hk] at h
      rw [List.cons_append, List.lookup_cons, List.lookup_cons]
      by_cases hj : j = k'
      · subst hj
        have hne : ¬ j = k := fun hjk => hk hjk.symm
        simp [hne]
      · simp only [beq_eq_false_iff_ne.mpr hj]
        exact ih h

@[simp] theorem get?_empty (k : κ) : (empty : Table κ α).get? k = none := rfl

@[simp] theorem get?_erase_self (t : Table κ α) (k : κ) : (t.erase k).get? k = none :=
  lookup_filter_self k t.entries

theorem get?_erase_of_ne (t : Table κ α) {k j : κ} (h : j ≠ k) :
    (t.erase k).get? j = t.get? j :=
  lookup_filter_of_ne h t.entries

theorem get?_modify (t : Table κ α) (k j : κ) (f : α → α) :
    (t.modify k f).get? j = if j = k then (t.get? k).map f else t.get? j :=
  lookup_changeEntries k j f t.entries

/-- **A lookup after an insertion** finds the new value under the new key and
what was there before under any other. -/
theorem get?_insert (t : Table κ α) (k j : κ) (v : α) :
    (t.insert k v).get? j = if j = k then some v else t.get? j := by
  unfold insert
  split
  · rename_i w h
    rw [get?_modify]
    by_cases hj : j = k
    · simp [hj, h]
    · simp [hj]
  · rename_i h
    exact lookup_append_singleton h v j

end Table
end RuntimeTrace
