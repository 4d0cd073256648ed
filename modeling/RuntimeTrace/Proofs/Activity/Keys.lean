import Mathlib.Data.List.Basic
import RuntimeTrace.Activity.Key
import RuntimeTrace.Proofs.Activity.GuidText
import RuntimeTrace.Proofs.Activity.RoundTrip

/-!
# Keys name activities

Events are joined by comparing keys, and a key is a text.  So whatever is joined
rests on three facts about texts.

* **A key spells one path.**  Behind the first segment each starts with a mark and goes
  on with digits, and no mark is a digit; so the digits of a segment end where the next
  one starts, and a text can be cut into its segments in one way only
  (`renderRest_injective`).  The first segment has a mark only if it overflows, so
  there it is the presence of the mark that tells (`renderSegments_injective`).
* **No path is spelled like a GUID**, which has dashes in it (`key_ne_text`).
* **Two GUID texts differ when the identifiers do** (`text_injective`).

The key of the parent is the key of the path without its last segment.  A path that
fits an identifier still fits without its last segment (`putSegments_append`), so the
parent of an activity has an identifier of its own, and its key is the one that the
child names.

Main statement: `keys_name_activities`.
-/

namespace RuntimeTrace

/-! ## One segment -/

namespace Segment

/-- The character in front of a segment that is not the first. -/
def mark (s : Segment) : Char := if s.overflow then '$' else '/'

/-- The digits of a segment. -/
def digits (s : Segment) : List Char := Nat.toDigits 10 s.value.toNat

theorem isDigit_mark (s : Segment) : s.mark.isDigit = false := by
  unfold mark
  split <;> rfl

theorem isDigit_of_mem_digits {s : Segment} : ∀ c ∈ s.digits, c.isDigit = true :=
  fun _ => Nat.isDigit_of_mem_toDigits (by decide) (by decide)

theorem digits_ne_nil (s : Segment) : s.digits ≠ [] := Nat.toDigits_ne_nil

/-- The mark and the digits of a segment tell which it is. -/
theorem eq_of_mark_of_digits {s t : Segment} (hmark : s.mark = t.mark)
    (hdigits : s.digits = t.digits) : s = t := by
  obtain ⟨value, overflow⟩ := s
  obtain ⟨value', overflow'⟩ := t
  have hnat : value.toNat = value'.toNat := by
    have hread := congrArg (fun ds => Nat.ofDigitChars 10 ds 0) hdigits
    simpa only [digits, Nat.ofDigitChars_ten_toDigits] using hread
  have hoverflow : overflow = overflow' := by
    revert hmark
    cases overflow <;> cases overflow' <;> simp [mark]
  rw [UInt32.toNat_inj.mp hnat, hoverflow]

end Segment

namespace ActivityPath

/-! ## Where the digits end -/

/-- A text that does not go on with a digit. -/
def NoDigit (cs : List Char) : Prop := ∀ c ∈ cs.head?, c.isDigit = false

/-- **Digits are cut off in one way** from what does not go on with a digit. -/
theorem digits_append_inj {ds es cs cs' : List Char} (hds : ∀ c ∈ ds, c.isDigit = true)
    (hes : ∀ c ∈ es, c.isDigit = true) (hcs : NoDigit cs) (hcs' : NoDigit cs')
    (h : ds ++ cs = es ++ cs') : ds = es ∧ cs = cs' := by
  have hcut : ∀ {ds cs : List Char}, (∀ c ∈ ds, c.isDigit = true) → NoDigit cs →
      (ds ++ cs).takeWhile Char.isDigit = ds := by
    intro ds cs hds hcs
    rw [List.takeWhile_append_of_pos hds]
    cases cs with
    | nil => simp
    | cons c rest => simp [hcs c rfl]
  have heq : ds = es := by
    rw [← hcut hds hcs, h, hcut hes hcs']
  subst heq
  exact ⟨rfl, List.append_cancel_left h⟩

/-! ## Segments behind the first -/

theorem toList_renderRest_cons (s : Segment) (rest : List Segment) :
    (renderRest (s :: rest)).toList = s.mark :: (s.digits ++ (renderRest rest).toList) := by
  rw [renderRest, String.toList_append, String.toList_append, Nat.toString_eq_repr,
    Nat.toList_repr, Segment.digits, Segment.mark]
  cases s.overflow <;> rfl

theorem noDigit_renderRest (segments : List Segment) : NoDigit (renderRest segments).toList := by
  cases segments with
  | nil =>
    intro c hc
    exact absurd hc (by simp [renderRest])
  | cons s rest =>
    intro c hc
    rw [toList_renderRest_cons, List.head?_cons, Option.mem_some_iff] at hc
    rw [← hc]
    exact s.isDigit_mark

/-- **The segments behind the first can be read off their text.** -/
theorem renderRest_injective : Function.Injective renderRest := by
  intro p
  induction p with
  | nil =>
    intro q h
    cases q with
    | nil => rfl
    | cons t rest =>
      have hlist := congrArg String.toList h
      rw [toList_renderRest_cons] at hlist
      exact absurd hlist (by simp [renderRest])
  | cons s rest ih =>
    intro q h
    have hlist := congrArg String.toList h
    cases q with
    | nil =>
      rw [toList_renderRest_cons] at hlist
      exact absurd hlist (by simp [renderRest])
    | cons t rest' =>
      rw [toList_renderRest_cons, toList_renderRest_cons, List.cons.injEq] at hlist
      obtain ⟨hdigits, hrest⟩ := digits_append_inj Segment.isDigit_of_mem_digits
        Segment.isDigit_of_mem_digits (noDigit_renderRest rest) (noDigit_renderRest rest') hlist.2
      rw [Segment.eq_of_mark_of_digits hlist.1 hdigits, ih (String.toList_inj.mp hrest)]

/-! ## The whole path -/

theorem toList_renderSegments_cons (s : Segment) (rest : List Segment) :
    (renderSegments (s :: rest)).toList =
      (if s.overflow then ['$'] else []) ++ (s.digits ++ (renderRest rest).toList) := by
  rw [renderSegments, String.toList_append, String.toList_append, Nat.toString_eq_repr,
    Nat.toList_repr, Segment.digits, List.append_assoc]
  cases s.overflow <;> rfl

/-- A path that is not empty starts with a digit unless its first segment overflows. -/
theorem isDigit_head_renderSegments (s : Segment) (rest : List Segment) :
    ∃ c, (renderSegments (s :: rest)).toList.head? = some c ∧ c.isDigit = !s.overflow := by
  rw [toList_renderSegments_cons]
  cases hoverflow : s.overflow with
  | true => exact ⟨'$', rfl, rfl⟩
  | false =>
    obtain ⟨c, more, hcons⟩ := List.exists_cons_of_ne_nil s.digits_ne_nil
    refine ⟨c, by rw [hcons]; rfl, ?_⟩
    exact Segment.isDigit_of_mem_digits c (by rw [hcons]; exact List.mem_cons_self)

/-- In front of a first segment that does not overflow a mark is missing, and nothing
else. -/
theorem renderRest_eq (s : Segment) (rest : List Segment) :
    renderRest (s :: rest) = (if s.overflow then "" else "/") ++ renderSegments (s :: rest) := by
  apply String.toList_inj.mp
  rw [toList_renderRest_cons, String.toList_append, toList_renderSegments_cons, Segment.mark]
  cases s.overflow <;> rfl

/-- **Segments can be read off their text.** -/
theorem renderSegments_injective : Function.Injective renderSegments := by
  have hne : ∀ s rest, renderSegments (s :: rest) ≠ renderSegments [] := by
    intro s rest h
    obtain ⟨c, hhead, -⟩ := isDigit_head_renderSegments s rest
    rw [h] at hhead
    exact absurd hhead (by simp [renderSegments])
  intro p q h
  match p, q with
  | [], [] => rfl
  | [], t :: rest => exact absurd h.symm (hne t rest)
  | s :: rest, [] => exact absurd h (hne s rest)
  | s :: rest, t :: rest' =>
    obtain ⟨c, hhead, hc⟩ := isDigit_head_renderSegments s rest
    obtain ⟨c', hhead', hc'⟩ := isDigit_head_renderSegments t rest'
    have hoverflow : s.overflow = t.overflow := by
      rw [h, hhead', Option.some.injEq] at hhead
      rw [hhead, hc] at hc'
      exact Bool.not_inj hc'
    apply renderRest_injective
    rw [renderRest_eq, renderRest_eq, h, hoverflow]

/-- **Paths with the same key have the same segments.** -/
theorem key_eq_key_iff {p q : ActivityPath} : p.key = q.key ↔ p.segments = q.segments :=
  renderSegments_injective.eq_iff

/-! ## No dashes -/

theorem dash_notMem_renderRest (segments : List Segment) :
    '-' ∉ (renderRest segments).toList := by
  induction segments with
  | nil => simp [renderRest]
  | cons s rest ih =>
    have hmark : '-' ≠ s.mark := by
      unfold Segment.mark
      split <;> decide
    rw [toList_renderRest_cons, List.mem_cons, List.mem_append]
    rintro (h | h | h)
    · exact hmark h
    · exact absurd (Segment.isDigit_of_mem_digits '-' h) (by decide)
    · exact ih h

theorem dash_notMem_key (path : ActivityPath) : '-' ∉ path.key.toList := by
  rw [key]
  cases path.segments with
  | nil => simp [renderSegments]
  | cons s rest =>
    intro h
    apply dash_notMem_renderRest (s :: rest)
    rw [renderRest_eq, String.toList_append]
    exact List.mem_append_right _ h

/-- **No path is spelled like a GUID.** -/
theorem key_ne_text (path : ActivityPath) (id : ActivityId) : path.key ≠ id.text := by
  intro h
  apply dash_notMem_key path
  rw [h]
  exact id.dash_mem_text

/-! ## Parents -/

/-- The parent of a path is the path without its last segment. -/
theorem parent?_eq_some_iff {path parent : ActivityPath} :
    path.parent? = some parent ↔ parent.processId = path.processId ∧
      ∃ s, path.segments = parent.segments ++ [s] := by
  obtain ⟨processId, segments⟩ := path
  obtain ⟨processId', segments'⟩ := parent
  unfold parent?
  constructor
  · intro h
    split at h
    · exact absurd h (by simp)
    · rename_i hne
      simp only [Option.some.injEq, ActivityPath.mk.injEq] at h
      rw [List.isEmpty_iff] at hne
      exact ⟨h.1.symm, segments.getLast hne, by
        rw [← h.2]
        exact (List.dropLast_append_getLast hne).symm⟩
  · rintro ⟨hprocess, s, hsegments⟩
    dsimp only at hprocess hsegments
    rw [hprocess, hsegments]
    simp

end ActivityPath

/-! ## Paths that fit an identifier -/

namespace PathWriter

/-- Segments are written one after the other. -/
theorem putSegments_append (w : PathWriter) (segments more : List Segment) :
    w.putSegments (segments ++ more) =
      (w.putSegments segments).bind fun w' => w'.putSegments more := by
  induction segments generalizing w with
  | nil => rfl
  | cons s rest ih =>
    rw [List.cons_append, putSegments, putSegments]
    cases w.putSegment s with
    | none => rfl
    | some w' => exact ih w'

/-- What a writer has finished reads as its segments. -/
theorem segments?_toBytes {segments : List Segment} {w : PathWriter}
    (h : start.putSegments segments = some w) :
    (HalfByteCursor.mk w.toBytes false).segments? = some segments :=
  (spells_of_putSegments sound_start h).reads

end PathWriter

namespace ActivityId

/-- A number that leaves the compared bits of a word alone. -/
theorem xor_and_eq_of_and_eq_zero {word mask n : UInt32} (h : n &&& mask = 0) :
    (word ^^^ n) &&& mask = word &&& mask := by
  apply UInt32.toNat_inj.mp
  have hnat : n.toNat &&& mask.toNat = 0 := congrArg UInt32.toNat h
  rw [UInt32.toNat_and, UInt32.toNat_xor, Nat.and_xor_distrib_right, hnat, Nat.xor_zero,
    UInt32.toNat_and]

/-- **A path with its checksum reads as that path**, and the process id that was folded
in is found again, when it leaves alone the bits that are compared. -/
theorem path?_ofPath {path : List UInt8} (h : path.length = 12) {segments : List Segment}
    (hsegments : (HalfByteCursor.mk path false).segments? = some segments) {processId : UInt32}
    (hprocess : processId &&& 0xFFF00000 = 0) :
    (ofPath path h processId).path? =
      some ⟨if processId = 0 then none else some processId, segments⟩ := by
  have hchecksum : (ofPath path h processId).hasPathChecksum 0 = true := by
    simp only [hasPathChecksum, ↓reduceIte, pathBytes_ofPath, checksum_ofPath,
      xor_and_eq_of_and_eq_zero hprocess, beq_self_eq_true]
  have hfolded : (expectedChecksum path ^^^ processId) ^^^ expectedChecksum path = processId := by
    rw [UInt32.xor_comm, ← UInt32.xor_assoc, UInt32.xor_self, UInt32.zero_xor]
  simp only [path?, hchecksum, pathBytes_ofPath, checksum_ofPath, hsegments, hfolded, ↓reduceIte]

/-! ## Keys -/

variable {id : ActivityId}

theorem key_of_path {path : ActivityPath} (h : id.path? = some path) : id.key = path.key := by
  rw [key, h]

theorem key_of_none (h : id.path? = none) : id.key = id.text := by
  rw [key, h]

/-- **Two identifiers have the same key** when they spell the same segments, or when
they spell none and are the same. -/
theorem key_eq_key_iff {a b : ActivityId} :
    a.key = b.key ↔
      (∃ p q, a.path? = some p ∧ b.path? = some q ∧ p.segments = q.segments) ∨
        (a.path? = none ∧ b.path? = none ∧ a = b) := by
  cases ha : a.path? with
  | none =>
    cases hb : b.path? with
    | none =>
      rw [key_of_none ha, key_of_none hb, text_injective.eq_iff]
      simp
    | some q =>
      rw [key_of_none ha, key_of_path hb]
      simpa using (q.key_ne_text a).symm
  | some p =>
    cases hb : b.path? with
    | none =>
      rw [key_of_path ha, key_of_none hb]
      simpa using p.key_ne_text b
    | some q =>
      rw [key_of_path ha, key_of_path hb, ActivityPath.key_eq_key_iff]
      simp

theorem parentKey?_eq_some_iff {key : String} :
    id.parentKey? = some key ↔
      ∃ q parent, id.path? = some q ∧ q.parent? = some parent ∧ parent.key = key := by
  unfold parentKey?
  cases id.path? with
  | none => simp
  | some q => simp

/-- **An identifier names another as its parent** when both spell a path and its own has
one segment more. -/
theorem parentKey?_eq_key_iff {a b : ActivityId} :
    b.parentKey? = some a.key ↔
      ∃ p q, a.path? = some p ∧ b.path? = some q ∧ ∃ s, q.segments = p.segments ++ [s] := by
  rw [parentKey?_eq_some_iff]
  constructor
  · rintro ⟨q, parent, hb, hparent, hkey⟩
    obtain ⟨-, s, hsegments⟩ := ActivityPath.parent?_eq_some_iff.mp hparent
    cases ha : a.path? with
    | none =>
      rw [key_of_none ha] at hkey
      exact absurd hkey (parent.key_ne_text a)
    | some p =>
      rw [key_of_path ha, ActivityPath.key_eq_key_iff] at hkey
      rw [hkey] at hsegments
      exact ⟨p, q, rfl, hb, s, hsegments⟩
  · rintro ⟨p, q, ha, hb, s, hsegments⟩
    refine ⟨q, ⟨q.processId, p.segments⟩, hb, ?_, ?_⟩
    · exact ActivityPath.parent?_eq_some_iff.mpr ⟨rfl, s, hsegments⟩
    · rw [key_of_path ha]
      rfl

end ActivityId

namespace ActivityPath

/-- The identifier of a path is its bytes with the process in the checksum. -/
theorem encode?_eq_some_iff {path : ActivityPath} {id : ActivityId} :
    path.encode? = some id ↔ ∃ w, PathWriter.start.putSegments path.segments = some w ∧
      ActivityId.ofPath w.toBytes w.length_toBytes (path.processId.getD 0) = id := by
  unfold encode?
  cases PathWriter.start.putSegments path.segments with
  | none => simp
  | some w => simp

/-- The identifier of a path spells its segments. -/
theorem exists_path?_of_encode? {segments : List Segment} {id : ActivityId}
    (h : encode? ⟨none, segments⟩ = some id) :
    ∃ p, id.path? = some p ∧ p.segments = segments := by
  obtain ⟨w, hw, rfl⟩ := encode?_eq_some_iff.mp h
  have hnone : (0 : UInt32) &&& 0xFFF00000 = 0 := rfl
  exact ⟨_, ActivityId.path?_ofPath w.length_toBytes (PathWriter.segments?_toBytes hw) hnone, rfl⟩

/-- **What fits an identifier fits it without its last segment.** -/
theorem exists_encode?_of_append {segments : List Segment} {s : Segment} {id : ActivityId}
    (h : encode? ⟨none, segments ++ [s]⟩ = some id) :
    ∃ outer, encode? ⟨none, segments⟩ = some outer := by
  obtain ⟨w, hw, -⟩ := encode?_eq_some_iff.mp h
  rw [PathWriter.putSegments_append, Option.bind_eq_some_iff] at hw
  obtain ⟨w', hw', -⟩ := hw
  exact ⟨_, encode?_eq_some_iff.mpr ⟨w', hw', rfl⟩⟩

end ActivityPath

namespace ActivityId

/-- **Keys name activities.**

* Two identifiers have the same key exactly when they spell the same segments, or
  when neither spells a path and they are the same.
* An identifier names the key of another as that of its parent exactly when both spell
  a path and its own is the other's with one segment more.
* A path of no process that is not empty and has an identifier has a parent with an
  identifier, whose key is the one that the path's identifier names. -/
theorem keys_name_activities :
    (∀ a b : ActivityId, a.key = b.key ↔
      (∃ p q, a.path? = some p ∧ b.path? = some q ∧ p.segments = q.segments) ∨
        (a.path? = none ∧ b.path? = none ∧ a = b)) ∧
    (∀ a b : ActivityId, b.parentKey? = some a.key ↔
      ∃ p q, a.path? = some p ∧ b.path? = some q ∧ ∃ s, q.segments = p.segments ++ [s]) ∧
    ∀ (path : ActivityPath) (id : ActivityId), path.processId = none → path.segments ≠ [] →
      path.encode? = some id → ∃ parent outer, path.parent? = some parent ∧
        parent.encode? = some outer ∧ id.parentKey? = some outer.key := by
  refine ⟨fun a b => key_eq_key_iff, fun a b => parentKey?_eq_key_iff, ?_⟩
  rintro ⟨processId, segments⟩ id rfl hne hid
  obtain ⟨initial, s, rfl⟩ : ∃ initial s, segments = initial ++ [s] :=
    ⟨_, _, (List.dropLast_append_getLast hne).symm⟩
  obtain ⟨outer, houter⟩ := ActivityPath.exists_encode?_of_append hid
  obtain ⟨p, hp, hsegments⟩ := ActivityPath.exists_path?_of_encode? houter
  obtain ⟨q, hq, hsegments'⟩ := ActivityPath.exists_path?_of_encode? hid
  refine ⟨⟨none, initial⟩, outer, ActivityPath.parent?_eq_some_iff.mpr ⟨rfl, s, rfl⟩, houter, ?_⟩
  exact parentKey?_eq_key_iff.mpr ⟨p, q, hp, hq, s, by rw [hsegments, hsegments']⟩

/-- The activity `1$4000/300` and the one around it. -/
theorem keys_name_activities_overflow :
    ∃ id, ActivityPath.encode? ⟨none, [.plain 1, ⟨4000, true⟩, .plain 300]⟩ = some id ∧
      ∃ parent outer,
        ActivityPath.parent? ⟨none, [.plain 1, ⟨4000, true⟩, .plain 300]⟩ = some parent ∧
        parent.encode? = some outer ∧ id.parentKey? = some outer.key := by
  obtain ⟨id, h⟩ := Option.isSome_iff_exists.mp (by decide :
    (ActivityPath.encode? ⟨none, [.plain 1, ⟨4000, true⟩, .plain 300]⟩).isSome = true)
  exact ⟨id, h, keys_name_activities.2.2 _ id rfl (by decide) h⟩

end ActivityId
end RuntimeTrace
