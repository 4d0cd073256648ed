import Mathlib.Data.List.Forall2
import RuntimeTrace.Proofs.Text.Hexadecimal

/-!
# Which texts are identifiers

The form of a GUID is a matter of bytes: thirty-six of them, a dash at four places and a
digit at every other (`GuidForm`).  The reader looks at characters and does less.  It checks
the length and the four dashes, throws away every dash, and counts the digits that are left.

That comes to the same.  A character that takes more than one byte is neither a dash nor a
digit, so in text of either form each character is one byte (`guidForm_bytesOf`).  And a fifth
dash would leave fewer than thirty-two digits: text with dashes at the four places is
`dashed` of the thirty-two characters between them (`exists_dashed`), and those are counted
after their dashes are gone.

What is read is written as the same digits in lowercase, so the text of an identifier is
read as that identifier in whichever letter case it stands, and within braces too.

Main statement: `guid_text_parsed_exactly`.
-/

namespace RuntimeTrace
namespace ActivityId

/-! ## The form -/

/-- The places of the dashes. -/
def dashPlaces : List Nat := [8, 13, 18, 23]

/-- Thirty-six characters, dashes in their places and digits everywhere else. -/
def GuidForm (cs : List Char) : Prop :=
  cs.length = 36 ∧
    ∀ i c, cs[i]? = some c → if i ∈ dashPlaces then c = '-' else c.isHexDigit = true

/-- A text between braces. -/
def braced (t : String) : String := String.ofList ('{' :: (t.toList ++ ['}']))

/-- Text without the braces around it, if it has both. -/
def Unbraced (s t : String) : Prop := s = braced t ∨ t = s ∧ ∀ u, s ≠ braced u

theorem GuidForm.lt {cs : List Char} (h : GuidForm cs) : ∀ c ∈ cs, c.toNat < 128 := by
  intro c hc
  obtain ⟨i, hi⟩ := List.mem_iff_getElem?.mp hc
  have hchar := h.2 i c hi
  split at hchar
  · rw [hchar]
    decide
  · exact Hexadecimal.lt_of_isHexDigit hchar

/-- **The form of the bytes is the form of the characters.** -/
theorem guidForm_bytesOf (t : String) :
    GuidForm ((Utf8.bytesOf t).map Utf8.charOf) ↔ GuidForm t.toList := by
  rcases Utf8.map_charOf_bytesOf_or t with hsame | ⟨⟨c, hc, hlarge⟩, d, hd, hlarge'⟩
  · rw [hsame]
  · constructor
    · intro h
      exact absurd (h.lt d hd) (Nat.not_lt_of_le hlarge')
    · intro h
      exact absurd (h.lt c hc) (Nat.not_lt_of_le hlarge)

/-! ### Dashes and what is between them -/

/-- The dashes of the form, place by place. -/
def dashes : List Bool := (List.range 36).map fun i => decide (i ∈ dashPlaces)

theorem dashes_eq : dashes = List.replicate 8 false ++ true :: (List.replicate 4 false ++
    true :: (List.replicate 4 false ++ true :: (List.replicate 4 false ++
      true :: List.replicate 12 false))) := by
  decide

section Fits

variable {P : Char → Prop}

/-- What may stand at a place with a dash, and at one without. -/
def Fits (P : Char → Prop) : Bool → Char → Prop
  | true, c => c = '-'
  | false, c => P c

theorem fits_decide_iff {i : Nat} {c : Char} :
    Fits P (decide (i ∈ dashPlaces)) c ↔ if i ∈ dashPlaces then c = '-' else P c := by
  by_cases hi : i ∈ dashPlaces
  · rw [decide_eq_true hi, if_pos hi]
    rfl
  · rw [decide_eq_false hi, if_neg hi]
    rfl

/-- The form, place by place. -/
theorem forall₂_fits_iff {cs : List Char} :
    List.Forall₂ (Fits P) dashes cs ↔
      cs.length = 36 ∧ ∀ i c, cs[i]? = some c → if i ∈ dashPlaces then c = '-' else P c := by
  have hlength : dashes.length = 36 := rfl
  have hget : ∀ i (hi : i < dashes.length), dashes.get ⟨i, hi⟩ = decide (i ∈ dashPlaces) := by
    intro i hi
    simp [dashes]
  rw [List.forall₂_iff_get]
  constructor
  · rintro ⟨hcs, h⟩
    refine ⟨hcs.symm.trans hlength, fun i c hc => ?_⟩
    obtain ⟨hi, rfl⟩ := List.getElem?_eq_some_iff.mp hc
    have hfits := h i (by rw [hcs]; exact hi) hi
    rw [hget, fits_decide_iff] at hfits
    exact hfits
  · rintro ⟨hcs, h⟩
    refine ⟨hlength.trans hcs.symm, fun i hi hi' => ?_⟩
    rw [hget, fits_decide_iff]
    exact h i _ (List.getElem?_eq_getElem hi')

/-- A group of characters at the end. -/
theorem forall₂_fits_replicate {n : Nat} {cs : List Char} :
    List.Forall₂ (Fits P) (List.replicate n false) cs ↔ cs.length = n ∧ ∀ c ∈ cs, P c := by
  induction n generalizing cs with
  | zero =>
    rw [List.replicate_zero, List.forall₂_nil_left_iff, List.length_eq_zero_iff]
    exact ⟨fun h => ⟨h, by simp [h]⟩, And.left⟩
  | succ n ih =>
    cases cs with
    | nil => simp [List.replicate_succ, List.forall₂_nil_right_iff]
    | cons c rest =>
      rw [List.replicate_succ, List.forall₂_cons, ih, List.length_cons, List.forall_mem_cons,
        Nat.add_right_cancel_iff, and_left_comm]
      rfl

/-- A group of characters with a dash behind it. -/
theorem forall₂_fits_group {n : Nat} {more : List Bool} {cs : List Char} :
    List.Forall₂ (Fits P) (List.replicate n false ++ true :: more) cs ↔
      ∃ group rest, cs = group ++ '-' :: rest ∧ (group.length = n ∧ ∀ c ∈ group, P c) ∧
        List.Forall₂ (Fits P) more rest := by
  constructor
  · intro h
    have hgroup := List.forall₂_take n h
    have hrest := List.forall₂_drop n h
    rw [List.take_left' List.length_replicate, forall₂_fits_replicate] at hgroup
    rw [List.drop_left' List.length_replicate, List.forall₂_cons_left_iff] at hrest
    obtain ⟨dash, rest, rfl, hrest, hdrop⟩ := hrest
    refine ⟨cs.take n, rest, ?_, hgroup, hrest⟩
    rw [← hdrop, List.take_append_drop]
  · rintro ⟨group, rest, rfl, hgroup, hrest⟩
    exact List.rel_append (forall₂_fits_replicate.mpr hgroup) (.cons rfl hrest)

/-- **Whatever has dashes in their places is dashed**, and is made of the characters between
them. -/
theorem exists_dashed_iff {cs : List Char} :
    (∃ digits, digits.length = 32 ∧ (∀ c ∈ digits, P c) ∧ cs = dashed digits) ↔
      cs.length = 36 ∧ ∀ i c, cs[i]? = some c → if i ∈ dashPlaces then c = '-' else P c := by
  rw [← forall₂_fits_iff, dashes_eq]
  simp only [forall₂_fits_group, forall₂_fits_replicate]
  constructor
  · rintro ⟨digits, hlength, hdigits, rfl⟩
    have hgroup : ∀ n, n + 4 ≤ 32 → ((digits.drop n).take 4).length = 4 ∧
        ∀ c ∈ (digits.drop n).take 4, P c := by
      intro n hn
      refine ⟨?_, fun c hc => hdigits c (List.mem_of_mem_drop (List.mem_of_mem_take hc))⟩
      rw [List.length_take, List.length_drop]
      omega
    rw [dashed, List.append_assoc, List.append_assoc, List.append_assoc]
    refine ⟨digits.take 8, _, rfl, ⟨?_, fun c hc => hdigits c (List.mem_of_mem_take hc)⟩,
      _, _, rfl, hgroup 8 (by decide), _, _, rfl, hgroup 12 (by decide),
      _, _, rfl, hgroup 16 (by decide), ?_, fun c hc => hdigits c (List.mem_of_mem_drop hc)⟩
    · rw [List.length_take]
      omega
    · rw [List.length_drop]
      omega
  · rintro ⟨g1, _, rfl, ⟨h1, hp1⟩, g2, _, rfl, ⟨h2, hp2⟩, g3, _, rfl, ⟨h3, hp3⟩, g4, g5, rfl,
      ⟨h4, hp4⟩, h5, hp5⟩
    refine ⟨g1 ++ (g2 ++ (g3 ++ (g4 ++ g5))), by simp [h1, h2, h3, h4, h5], ?_, ?_⟩
    · simp only [List.forall_mem_append]
      exact ⟨hp1, hp2, hp3, hp4, hp5⟩
    · simp [dashed, List.drop_append, List.drop_eq_nil_of_le, h1, h2, h3, h4]

end Fits

/-- A text of the length of a GUID with dashes in their places. -/
theorem hasGuidShape_iff {cs : List Char} :
    hasGuidShape cs = true ↔ ∃ digits, digits.length = 32 ∧ cs = dashed digits := by
  constructor
  · intro h
    simp only [hasGuidShape, Bool.and_eq_true, beq_iff_eq] at h
    obtain ⟨⟨⟨⟨hlength, h8⟩, h13⟩, h18⟩, h23⟩ := h
    have hform : cs.length = 36 ∧
        ∀ i c, cs[i]? = some c → if i ∈ dashPlaces then c = '-' else True := by
      refine ⟨hlength, fun i c hc => ?_⟩
      split
      · rename_i hi
        simp only [dashPlaces, List.mem_cons, List.not_mem_nil, or_false] at hi
        rcases hi with rfl | rfl | rfl | rfl
        · exact Option.some.inj (hc.symm.trans h8)
        · exact Option.some.inj (hc.symm.trans h13)
        · exact Option.some.inj (hc.symm.trans h18)
        · exact Option.some.inj (hc.symm.trans h23)
      · trivial
    obtain ⟨digits, hdigits, -, hcs⟩ := exists_dashed_iff.mpr hform
    exact ⟨digits, hdigits, hcs⟩
  · rintro ⟨digits, hdigits, rfl⟩
    exact hasGuidShape_dashed hdigits

/-- The characters of a text of the form. -/
theorem guidForm_iff {cs : List Char} :
    GuidForm cs ↔ ∃ digits, digits.length = 32 ∧ (∀ c ∈ digits, c.isHexDigit = true) ∧
      cs = dashed digits :=
  exists_dashed_iff.symm

/-! ## Reading -/

/-- Without its dashes a dashed text is the characters it was made of, less their dashes. -/
theorem filter_dashed_eq (digits : List Char) :
    (dashed digits).filter (· != '-') = digits.filter (· != '-') := by
  simp only [dashed, List.append_assoc, List.cons_append, List.filter_append, List.filter_cons,
    bne_self_eq_false, Bool.false_eq_true, ↓reduceIte]
  rw [← List.filter_append, ← List.filter_append, ← List.filter_append, ← List.filter_append,
    groups_append]

theorem map_dashed {f : Char → Char} (h : f '-' = '-') (digits : List Char) :
    (dashed digits).map f = dashed (digits.map f) := by
  simp only [dashed, List.map_append, List.map_cons, List.map_take, List.map_drop, h]

theorem ofBytes?_eq_some {bytes : List UInt8} {id : ActivityId} (h : ofBytes? bytes = some id) :
    id.bytes = bytes := by
  unfold ofBytes? at h
  split at h
  · rw [← Option.some.inj h]
  · exact absurd h (by simp)

/-- **What the reader makes of a text**: the bytes of the digits between its dashes. -/
theorem parse_eq_ok_iff {s : String} {id : ActivityId} :
    parse s = .ok id ↔ ∃ digits, digits.length = 32 ∧ unbrace s.toList = dashed digits ∧
      Hexadecimal.bytes? digits = some (mixedEndian id.bytes) := by
  constructor
  · intro h
    simp only [parse] at h
    split at h
    · rename_i hshape
      obtain ⟨digits, hdigits, hcs⟩ := hasGuidShape_iff.mp hshape
      rw [hcs, filter_dashed_eq] at h
      split at h
      · rename_i bytes hbytes
        split at h
        · rename_i id' hid
          obtain rfl := Except.ok.inj h
          have hid := ofBytes?_eq_some hid
          have hlength : bytes.length = 16 := by
            rw [← length_mixedEndian, ← hid, id'.length_bytes]
          -- none of the thirty-two characters is missing, so none was a dash
          have hkept : digits.filter (· != '-') = digits := by
            apply List.filter_sublist.eq_of_length
            rw [Hexadecimal.length_of_bytes? hbytes, hlength, hdigits]
          rw [hkept] at hbytes
          exact ⟨digits, hdigits, hcs, by rw [hbytes, hid, mixedEndian_mixedEndian]⟩
        · exact absurd h (by simp)
      · exact absurd h (by simp)
    · exact absurd h (by simp)
  · rintro ⟨digits, hdigits, hcs, hbytes⟩
    have hhex := ((Hexadecimal.isSome_bytes? digits).mp (by rw [hbytes, Option.isSome_some])).2
    have hid : ofBytes? (mixedEndian (mixedEndian id.bytes)) = some id := by
      rw [mixedEndian_mixedEndian, ofBytes?, dif_pos id.length_bytes]
    have hdash : ∀ c ∈ digits, c ≠ '-' := by
      rintro c hc rfl
      exact absurd (hhex '-' hc) (by decide)
    simp only [parse]
    rw [if_pos (hasGuidShape_iff.mpr ⟨digits, hdigits, hcs⟩), hcs, filter_dashed hdash, hbytes]
    dsimp only
    rw [hid]

/-- **The texts that are read** are those of the form. -/
theorem exists_parse_iff {s : String} :
    (∃ id, parse s = .ok id) ↔ GuidForm (unbrace s.toList) := by
  rw [guidForm_iff]
  constructor
  · rintro ⟨id, h⟩
    obtain ⟨digits, hdigits, hcs, hbytes⟩ := parse_eq_ok_iff.mp h
    have hhex := (Hexadecimal.isSome_bytes? digits).mp (by rw [hbytes, Option.isSome_some])
    exact ⟨digits, hdigits, hhex.2, hcs⟩
  · rintro ⟨digits, hdigits, hhex, hcs⟩
    have hspells : Hexadecimal.SpellsBytes digits := ⟨by rw [hdigits]; decide, hhex⟩
    obtain ⟨bytes, hbytes⟩ :=
      Option.isSome_iff_exists.mp ((Hexadecimal.isSome_bytes? digits).mpr hspells)
    have hlength : bytes.length = 16 := by
      have hpairs := Hexadecimal.length_of_bytes? hbytes
      omega
    refine ⟨⟨mixedEndian bytes, by rw [length_mixedEndian, hlength]⟩,
      parse_eq_ok_iff.mpr ⟨digits, hdigits, hcs, ?_⟩⟩
    rw [hbytes, mixedEndian_mixedEndian]

/-- **What is read is written in lowercase.** -/
theorem toList_text_of_parse {s : String} {id : ActivityId} (h : parse s = .ok id) :
    id.text.toList = (unbrace s.toList).map Char.toLower := by
  obtain ⟨digits, -, hcs, hbytes⟩ := parse_eq_ok_iff.mp h
  rw [toList_text, Hexadecimal.flatMap_byteDigits_of_bytes? hbytes, hcs, map_dashed (by decide)]

/-! ### Braces -/

theorem unbrace_braced (t : String) : unbrace (braced t).toList = t.toList := by
  simp [unbrace, braced]

theorem unbrace_eq_self {s : String} (h : ∀ u, s ≠ braced u) : unbrace s.toList = s.toList := by
  cases hs : s.toList with
  | nil => rfl
  | cons c rest =>
    by_cases hc : c = '{'
    · subst hc
      rw [unbrace, if_neg]
      intro hlast
      apply h (String.ofList rest.dropLast)
      rw [← String.toList_inj, hs, braced, String.toList_ofList, String.toList_ofList,
        List.dropLast_append_getLast? _ hlast]
    · exact unbrace_of_head?_ne fun hhead => hc (Option.some.inj hhead)

/-- **Two braces are taken off**, and anything else is left as it is. -/
theorem unbraced_iff {s t : String} : Unbraced s t ↔ t = String.ofList (unbrace s.toList) := by
  constructor
  · rintro (rfl | ⟨rfl, hnone⟩)
    · rw [unbrace_braced, String.ofList_toList]
    · rw [unbrace_eq_self hnone, String.ofList_toList]
  · rintro rfl
    by_cases hbraces : ∃ u, s = braced u
    · obtain ⟨u, rfl⟩ := hbraces
      rw [unbrace_braced, String.ofList_toList]
      exact Or.inl rfl
    · have hnone : ∀ u, s ≠ braced u := not_exists.mp hbraces
      rw [unbrace_eq_self hnone, String.ofList_toList]
      exact Or.inr ⟨rfl, hnone⟩

/-! ### Letter case -/

/-- Lowercase makes no digit and no dash of what was none. -/
theorem of_toLower (c : Char) :
    (c.toLower = '-' → c = '-') ∧ (c.toLower.isHexDigit = true → c.isHexDigit = true) := by
  rcases Nat.lt_or_ge c.toNat 128 with hlt | hle
  · apply Utf8.forall_ascii ?_ hlt
    decide
  · rw [Utf8.toLower_of_le hle]
    exact ⟨id, id⟩

theorem GuidForm.of_map_toLower {cs : List Char} (h : GuidForm (cs.map Char.toLower)) :
    GuidForm cs := by
  refine ⟨by rw [← h.1, List.length_map], fun i c hc => ?_⟩
  have hchar := h.2 i c.toLower (by rw [List.getElem?_map, hc, Option.map_some])
  split_ifs at hchar ⊢
  · exact (of_toLower c).1 hchar
  · exact (of_toLower c).2 hchar

/-- Text of the form does not begin with a brace. -/
theorem GuidForm.unbrace_eq {cs : List Char} (h : GuidForm cs) : unbrace cs = cs := by
  apply unbrace_of_head?_ne
  intro hhead
  have hbrace := h.2 0 '{' (by rw [← List.head?_eq_getElem?, hhead])
  exact absurd hbrace (by decide)

theorem toList_toLower (t : String) : t.toLower.toList = t.toList.map Char.toLower :=
  String.toList_map

/-- The text of an identifier has the form, in whichever letter case. -/
theorem guidForm_of_toLower {t : String} {id : ActivityId} (h : t.toLower = id.text) :
    GuidForm t.toList := by
  apply GuidForm.of_map_toLower
  rw [← toList_toLower, h, ← unbrace_of_head?_ne id.head?_text]
  exact exists_parse_iff.mp ⟨id, id.parse_text⟩

/-- **The text of an identifier is read in whichever letter case**, once its braces are off. -/
theorem parse_of_toLower {s t : String} {id : ActivityId} (h : t.toLower = id.text)
    (hs : unbrace s.toList = t.toList) : parse s = .ok id := by
  obtain ⟨id', hid'⟩ := exists_parse_iff.mpr (hs.symm ▸ guidForm_of_toLower h)
  have hsame : id' = id := by
    apply text_injective
    rw [← String.toList_inj, toList_text_of_parse hid', hs, ← toList_toLower, h]
  rw [hid', hsame]

/-- **The texts of identifiers.**  Without the braces around it, if it has both, a text is
read exactly when its bytes have the form of a GUID; the identifier is then written as the
same text in lowercase.  So the text of an identifier is read as that identifier in
whichever letter case, with braces around it or without. -/
theorem guid_text_parsed_exactly (s : String) :
    (∃ t, Unbraced s t) ∧
    (∀ t, Unbraced s t →
      ((∃ id, parse s = .ok id) ↔ GuidForm ((Utf8.bytesOf t).map Utf8.charOf)) ∧
      ∀ id, parse s = .ok id → id.text = t.toLower) ∧
    ∀ id : ActivityId, s.toLower = id.text →
      parse s = .ok id ∧ parse (braced s) = .ok id := by
  refine ⟨⟨_, unbraced_iff.mpr rfl⟩, fun t ht => ?_, fun id h => ⟨?_, ?_⟩⟩
  · obtain rfl := unbraced_iff.mp ht
    refine ⟨?_, fun id h => ?_⟩
    · rw [guidForm_bytesOf, String.toList_ofList]
      exact exists_parse_iff
    · rw [← String.toList_inj, toList_text_of_parse h, toList_toLower, String.toList_ofList]
  · exact parse_of_toLower h (guidForm_of_toLower h).unbrace_eq
  · exact parse_of_toLower h (unbrace_braced s)

/-- A text in both letter cases, in braces and without. -/
theorem guid_text_parsed_exactly_mixedCase :
    let t := "00112233-4455-6677-8899-AaBbCcDdEeFf"
    let id : ActivityId := ⟨[0x33, 0x22, 0x11, 0x00, 0x55, 0x44, 0x77, 0x66, 0x88, 0x99, 0xaa,
      0xbb, 0xcc, 0xdd, 0xee, 0xff], rfl⟩
    Unbraced (braced t) t ∧ GuidForm ((Utf8.bytesOf t).map Utf8.charOf) ∧
      parse t = .ok id ∧ parse (braced t) = .ok id ∧
      id.text = t.toLower ∧ id.text = "00112233-4455-6677-8899-aabbccddeeff" := by
  intro t id
  have htext : id.text = "00112233-4455-6677-8899-aabbccddeeff" := by decide +kernel
  have hlower : t.toLower = id.text := by decide +kernel
  have hbraces : Unbraced (braced t) t := .inl rfl
  obtain ⟨-, -, hread⟩ := guid_text_parsed_exactly t
  obtain ⟨hparse, hbraced⟩ := hread id hlower
  obtain ⟨-, hform, -⟩ := guid_text_parsed_exactly (braced t)
  obtain ⟨haccepts, hsame⟩ := hform t hbraces
  exact ⟨hbraces, haccepts.mp ⟨id, hbraced⟩, hparse, hbraced, hsame id hbraced, htext⟩

end ActivityId
end RuntimeTrace
