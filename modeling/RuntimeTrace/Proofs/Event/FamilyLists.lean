import Mathlib.Data.Nat.Bitwise
import RuntimeTrace.Event.FamilySet
import RuntimeTrace.Proofs.Text.Ascii
import RuntimeTrace.Proofs.Text.Pieces

/-!
# Lists of families

A list of families is read from the left.  What has been read so far is kept beside the rest, an
item `all` puts the set of all families in its place, and the first item that names nothing ends
the reading (`readOn`).  So what an item does seems to depend on where it stands; it does not.
What was read so far is joined to what the rest denotes (`readOn_eq`), and all families joined
to anything are all families.

From there on a list is its pieces between commas.  It is read exactly when every piece is blank
or names something, and then it denotes what is named by some piece (`parse_eq_ok_iff`).  Nothing
in this depends on the order of the pieces, on how often they stand there, or on more of a piece
than its letters without case.

Main statement: `list_denotes_union`.
-/

namespace RuntimeTrace

/-! ## The number of a set -/

namespace EventFamily

/-- A family has a bit of its own. -/
theorem exists_bit_eq_two_pow (family : EventFamily) : ∃ k, family.bit = 2 ^ k := by
  cases family
  · exact ⟨0, rfl⟩
  · exact ⟨2, rfl⟩
  · exact ⟨3, rfl⟩
  · exact ⟨4, rfl⟩
  · exact ⟨5, rfl⟩
  · exact ⟨6, rfl⟩
  · exact ⟨7, rfl⟩
  · exact ⟨8, rfl⟩

/-- Bits in ascending order do not carry into one another when they are added. -/
theorem testBit_foldl_bit {families : List EventFamily}
    (h : families.Pairwise fun f g => 2 * f.bit ≤ g.bit) {n : Nat}
    (hn : ∀ family ∈ families, n < family.bit) (i : Nat) :
    (families.foldl (fun n family => n + family.bit) n).testBit i =
      (n.testBit i || families.any fun family => family.bit.testBit i) := by
  induction families generalizing n with
  | nil => exact (Bool.or_false _).symm
  | cons family families ih =>
    rw [List.pairwise_cons] at h
    have hlt : n < family.bit := hn family List.mem_cons_self
    have hrest : ∀ g ∈ families, n + family.bit < g.bit := fun g hg => by
      have hg := h.1 g hg
      omega
    have hadd : n + family.bit = family.bit ||| n := by
      obtain ⟨k, hk⟩ := family.exists_bit_eq_two_pow
      rw [hk] at hlt ⊢
      have hor := Nat.two_pow_add_eq_or_of_lt hlt 1
      rwa [Nat.mul_one, Nat.add_comm] at hor
    rw [List.foldl_cons, ih h.2 hrest, hadd, Nat.testBit_or, List.any_cons,
      Bool.or_comm (family.bit.testBit i), Bool.or_assoc]

theorem name_injective {f g : EventFamily} (h : f.name = g.name) : f = g := by
  cases f <;> cases g <;> first | rfl | exact absurd h (by decide)

theorem mem_all (family : EventFamily) : family ∈ all := by
  cases family <;> decide

end EventFamily

namespace FamilySet

theorem testBit_bits (families : FamilySet) (i : Nat) :
    families.bits.testBit i =
      EventFamily.all.any fun family => families.contains family && family.bit.testBit i := by
  have hascending : EventFamily.all.Pairwise fun f g => 2 * f.bit ≤ g.bit := by decide
  have hpositive : ∀ family ∈ EventFamily.all.filter families.contains, 0 < family.bit :=
    fun family _ => by cases family <;> decide
  rw [bits, EventFamily.testBit_foldl_bit (hascending.filter _) hpositive, Nat.zero_testBit,
    Bool.false_or, List.any_filter]

/-- **The number of a union** has the bits of both numbers. -/
theorem bits_union (a b : FamilySet) : (a.union b).bits = a.bits ||| b.bits := by
  apply Nat.eq_of_testBit_eq
  intro i
  rw [Nat.testBit_or, testBit_bits, testBit_bits, testBit_bits, Bool.eq_iff_iff]
  simp only [union, Bool.or_eq_true, List.any_eq_true, Bool.and_eq_true]
  constructor
  · rintro ⟨family, hmem, ha | hb, hbit⟩
    · exact Or.inl ⟨family, hmem, ha, hbit⟩
    · exact Or.inr ⟨family, hmem, hb, hbit⟩
  · rintro (⟨family, hmem, ha, hbit⟩ | ⟨family, hmem, hb, hbit⟩)
    · exact ⟨family, hmem, Or.inl ha, hbit⟩
    · exact ⟨family, hmem, Or.inr hb, hbit⟩

theorem empty_union (a : FamilySet) : empty.union a = a :=
  ext fun family => Bool.false_or (a.contains family)

theorem union_empty (a : FamilySet) : a.union empty = a :=
  ext fun family => Bool.or_false (a.contains family)

theorem all_union (a : FamilySet) : all.union a = all :=
  ext fun family => Bool.true_or (a.contains family)

theorem union_all (a : FamilySet) : a.union all = all :=
  ext fun family => Bool.or_true (a.contains family)

theorem union_assoc (a b c : FamilySet) : (a.union b).union c = a.union (b.union c) :=
  ext fun family => Bool.or_assoc (a.contains family) (b.contains family) (c.contains family)

/-! ## Letters without case -/

theorem normalized_map_toLower (item : List Char) :
    normalized (item.map Char.toLower) = normalized item := by
  rw [normalized, List.map_map, normalized]
  refine List.map_congr_left fun c _ => ?_
  rw [Function.comp_apply, Utf8.toUpper_toLower]
  exact if_congr (Utf8.toLower_eq_dash_iff c) rfl rfl

/-- Items with the same letters but for case are taken for the same. -/
theorem normalized_congr {a b : List Char} (h : a.map Char.toLower = b.map Char.toLower) :
    normalized a = normalized b := by
  rw [← normalized_map_toLower a, h, normalized_map_toLower]

/-- An item that is taken for a word without underscores has its letters but for case. -/
theorem map_toLower_of_normalized {item word : List Char} (h : normalized item = word)
    (hword : '_' ∉ word) : item.map Char.toLower = word.map Char.toLower := by
  subst h
  rw [normalized, List.map_map]
  refine List.map_congr_left fun c hc => ?_
  have hdash : c ≠ '-' := fun hdash => hword (List.mem_map.mpr ⟨c, hc, if_pos hdash⟩)
  rw [Function.comp_apply, if_neg hdash, Utf8.toLower_toUpper]

theorem map_toLower_eq_all_iff {item : List Char} :
    item.map Char.toLower = "all".toList ↔ normalized item = "ALL".toList := by
  constructor
  · intro h
    rw [← normalized_map_toLower, h]
    rfl
  · intro h
    exact map_toLower_of_normalized h (by decide)

/-! ## Reading from the left -/

/-- Reads items one after the other, with what was read so far at hand. -/
def readOn (sofar : FamilySet) : List (List Char) → Except FamilyListError FamilySet
  | [] => .ok sofar
  | item :: rest =>
    if item.map Char.toLower = "all".toList then readOn all rest
    else
      match EventFamily.all.find? fun family => family.name.toList == normalized item with
      | none => .error ⟨String.ofList item⟩
      | some family => readOn (sofar.union (only family)) rest

/-- **What was read so far is joined to what the rest denotes.** -/
theorem readOn_eq (sofar : FamilySet) (items : List (List Char)) :
    readOn sofar items = (ofItems items).map sofar.union := by
  induction items generalizing sofar with
  | nil => exact congrArg Except.ok (union_empty sofar).symm
  | cons item rest ih =>
    by_cases hall : item.map Char.toLower = "all".toList
    · rw [readOn, if_pos hall, ih, ofItems, ofItem?, if_pos (map_toLower_eq_all_iff.mp hall)]
      cases ofItems rest with
      | error e => rfl
      | ok others =>
        -- the item puts all families in the place of what was read
        show Except.ok (all.union others) = Except.ok (sofar.union (all.union others))
        rw [all_union, union_all]
    · rw [readOn, if_neg hall, ofItems, ofItem?, if_neg (mt map_toLower_eq_all_iff.mpr hall)]
      cases EventFamily.all.find? fun family => family.name.toList == normalized item with
      | none => rfl
      | some family =>
        show readOn (sofar.union (only family)) rest = _
        rw [ih]
        cases ofItems rest with
        | error e => rfl
        | ok others => exact congrArg Except.ok (union_assoc sofar (only family) others)

/-! ## One item -/

/-- An item names a family by its name, and every family by `all`. -/
def ItemNames (item : List Char) (family : EventFamily) : Prop :=
  normalized item = "ALL".toList ∨ normalized item = family.name.toList

instance (item : List Char) : DecidablePred (ItemNames item) :=
  fun _ => inferInstanceAs (Decidable (_ ∨ _))

/-- What an item names. -/
def denoted (item : List Char) : FamilySet := ⟨fun family => decide (ItemNames item family)⟩

theorem ofItem?_of_itemNames {item : List Char} {family : EventFamily}
    (h : ItemNames item family) : ofItem? item = some (denoted item) := by
  by_cases hall : normalized item = "ALL".toList
  · rw [ofItem?, if_pos hall]
    exact congrArg some (ext fun _ => (decide_eq_true (Or.inl hall)).symm)
  · have hname : normalized item = family.name.toList := h.resolve_left hall
    have hfind : (EventFamily.all.find? fun f => f.name.toList == normalized item) =
        some family := by
      rw [hname]
      cases family <;> rfl
    rw [ofItem?, if_neg hall, hfind]
    refine congrArg some (ext fun f => Bool.eq_iff_iff.mpr ?_)
    rw [denoted, only, beq_iff_eq, decide_eq_true_iff, ItemNames, or_iff_right hall, hname,
      String.toList_inj]
    exact ⟨fun heq => heq ▸ rfl, fun heq => EventFamily.name_injective heq.symm⟩

theorem ofItem?_of_not_itemNames {item : List Char} (h : ¬ ∃ family, ItemNames item family) :
    ofItem? item = none := by
  have hall : normalized item ≠ "ALL".toList := fun hall => h ⟨.gc, Or.inl hall⟩
  have hfind : (EventFamily.all.find? fun f => f.name.toList == normalized item) = none :=
    List.find?_eq_none.mpr fun family _ hname => h ⟨family, Or.inr (beq_iff_eq.mp hname).symm⟩
  rw [ofItem?, if_neg hall, hfind]
  rfl

/-- Nothing names nothing. -/
theorem denoted_nil : denoted [] = empty :=
  ext fun family => by cases family <;> rfl

/-! ## Pieces -/

/-- A piece of a list names what is left of it when it is trimmed. -/
def Names (piece : List Char) (family : EventFamily) : Prop :=
  ItemNames (Text.trimChars piece) family

instance (piece : List Char) : DecidablePred (Names piece) :=
  inferInstanceAs (DecidablePred (ItemNames _))

/-- A piece that may stand in a list. -/
def Known (piece : List Char) : Prop :=
  Text.trimChars piece = [] ∨ ∃ family, Names piece family

instance (piece : List Char) : Decidable (Known piece) :=
  decidable_of_iff (Text.trimChars piece = [] ∨ ∃ family ∈ EventFamily.all, Names piece family)
    (or_congr_right (exists_congr fun family => and_iff_right family.mem_all))

/-- The items among pieces. -/
def itemsOf (pieces : List (List Char)) : List (List Char) :=
  (pieces.map Text.trimChars).filter fun item => !item.isEmpty

/-- What is named by some piece. -/
def namedBy (pieces : List (List Char)) : FamilySet :=
  ⟨fun family => decide (∃ piece ∈ pieces, Names piece family)⟩

theorem parse_eq (text : String) : parse text = ofItems (itemsOf (text.toList.splitOn ',')) := by
  rw [parse, items, Text.splitChars_eq_splitOn, itemsOf]

variable {piece : List Char} {pieces : List (List Char)}

theorem itemsOf_cons_of_blank (h : Text.trimChars piece = []) :
    itemsOf (piece :: pieces) = itemsOf pieces := by
  rw [itemsOf, List.map_cons, h]
  rfl

theorem itemsOf_cons_of_ne_nil (h : Text.trimChars piece ≠ []) :
    itemsOf (piece :: pieces) = Text.trimChars piece :: itemsOf pieces := by
  rw [itemsOf, List.map_cons, List.filter_cons_of_pos (by simpa using h)]
  rfl

/-- A piece that may stand in a list adds what it names. -/
theorem ofItems_cons_of_known (h : Known piece) (pieces : List (List Char)) :
    ofItems (itemsOf (piece :: pieces)) =
      (ofItems (itemsOf pieces)).map (denoted (Text.trimChars piece)).union := by
  by_cases hblank : Text.trimChars piece = []
  · rw [itemsOf_cons_of_blank hblank, hblank, denoted_nil]
    cases ofItems (itemsOf pieces) with
    | error e => rfl
    | ok others => exact congrArg Except.ok (empty_union others).symm
  · obtain ⟨family, hnames⟩ := h.resolve_left hblank
    rw [itemsOf_cons_of_ne_nil hblank, ofItems, ofItem?_of_itemNames hnames]
    cases ofItems (itemsOf pieces) <;> rfl

/-- Any other piece ends the reading. -/
theorem ofItems_cons_of_not_known (h : ¬ Known piece) (pieces : List (List Char)) :
    ofItems (itemsOf (piece :: pieces)) = .error ⟨String.ofList (Text.trimChars piece)⟩ := by
  rw [Known, not_or] at h
  rw [itemsOf_cons_of_ne_nil h.1, ofItems, ofItem?_of_not_itemNames h.2]

theorem contains_namedBy {family : EventFamily} :
    (namedBy pieces).contains family = true ↔ ∃ piece ∈ pieces, Names piece family :=
  decide_eq_true_iff

theorem namedBy_append (as bs : List (List Char)) :
    namedBy (as ++ bs) = (namedBy as).union (namedBy bs) := by
  refine ext fun family => Bool.eq_iff_iff.mpr ?_
  simp only [union, Bool.or_eq_true, contains_namedBy, List.mem_append, or_and_right, exists_or]

theorem namedBy_singleton (piece : List Char) :
    namedBy [piece] = denoted (Text.trimChars piece) := by
  refine ext fun family => Bool.eq_iff_iff.mpr ?_
  rw [contains_namedBy, denoted, decide_eq_true_iff]
  simp only [List.mem_singleton, exists_eq_left, Names]

/-- **Pieces that may stand in a list denote what some piece names.** -/
theorem ofItems_of_known (h : ∀ piece ∈ pieces, Known piece) :
    ofItems (itemsOf pieces) = .ok (namedBy pieces) := by
  induction pieces with
  | nil => exact congrArg Except.ok (ext fun family => by cases family <;> rfl)
  | cons piece pieces ih =>
    rw [List.forall_mem_cons] at h
    rw [ofItems_cons_of_known h.1, ih h.2, ← namedBy_singleton]
    exact congrArg Except.ok (namedBy_append [piece] pieces).symm

/-- **The first piece that may not is reported**, whatever was named before it. -/
theorem ofItems_of_fault {before : List (List Char)} (h : ∀ p ∈ before, Known p)
    (hpiece : ¬ Known piece) (after : List (List Char)) :
    ofItems (itemsOf (before ++ piece :: after)) =
      .error ⟨String.ofList (Text.trimChars piece)⟩ := by
  induction before with
  | nil => exact ofItems_cons_of_not_known hpiece after
  | cons p before ih =>
    rw [List.forall_mem_cons] at h
    rw [List.cons_append, ofItems_cons_of_known h.1, ih h.2]
    rfl

/-- If some piece may not stand in a list, the first such piece decides. -/
theorem exists_fault (h : ¬ ∀ piece ∈ pieces, Known piece) :
    ∃ before piece after, pieces = before ++ piece :: after ∧ (∀ p ∈ before, Known p) ∧
      ¬ Known piece ∧
        ofItems (itemsOf pieces) = .error ⟨String.ofList (Text.trimChars piece)⟩ := by
  obtain ⟨before, piece, after, rfl, hbefore, hpiece⟩ := Text.exists_first h
  exact ⟨before, piece, after, rfl, hbefore, hpiece, ofItems_of_fault hbefore hpiece after⟩

theorem parse_eq_ok_iff {text : String} {families : FamilySet} :
    parse text = .ok families ↔
      (∀ piece ∈ text.toList.splitOn ',', Known piece) ∧
        families = namedBy (text.toList.splitOn ',') := by
  rw [parse_eq]
  constructor
  · intro h
    by_cases hknown : ∀ piece ∈ text.toList.splitOn ',', Known piece
    · exact ⟨hknown, Except.ok.inj (h.symm.trans (ofItems_of_known hknown))⟩
    · obtain ⟨_, _, _, -, -, -, hread⟩ := exists_fault hknown
      exact nomatch hread.symm.trans h
  · rintro ⟨hknown, rfl⟩
    exact ofItems_of_known hknown

theorem parse_eq_error_iff {text : String} {e : FamilyListError} :
    parse text = .error e ↔
      ∃ before piece after, text.toList.splitOn ',' = before ++ piece :: after ∧
        (∀ p ∈ before, Known p) ∧ ¬ Known piece ∧
          e.item = String.ofList (Text.trimChars piece) := by
  constructor
  · intro h
    have hfault : ¬ ∀ piece ∈ text.toList.splitOn ',', Known piece :=
      fun hknown => nomatch h.symm.trans (parse_eq_ok_iff.mpr ⟨hknown, rfl⟩)
    obtain ⟨before, piece, after, hpieces, hbefore, hpiece, hread⟩ := exists_fault hfault
    rw [parse_eq, hread] at h
    exact ⟨before, piece, after, hpieces, hbefore, hpiece,
      congrArg FamilyListError.item (Except.error.inj h).symm⟩
  · rintro ⟨before, piece, after, hpieces, hbefore, hpiece, hitem⟩
    rw [parse_eq, hpieces, ofItems_of_fault hbefore hpiece after, ← hitem]

/-! ## Lists with the same items -/

/-- Two pieces with the same letters but for blanks around them and case. -/
def Alike (a b : List Char) : Prop :=
  (Text.trimChars a).map Char.toLower = (Text.trimChars b).map Char.toLower

instance (a b : List Char) : Decidable (Alike a b) := inferInstanceAs (Decidable (_ = _))

/-- Every piece that is not blank stands in the other list as well, in whatever place. -/
def Covers (pieces others : List (List Char)) : Prop :=
  ∀ piece ∈ pieces, Text.trimChars piece ≠ [] → ∃ other ∈ others, Alike piece other

instance (pieces others : List (List Char)) : Decidable (Covers pieces others) :=
  inferInstanceAs (Decidable (∀ piece ∈ pieces, _ → _))

/-- Lists that differ in the order of their items, in repetitions, case and blanks only. -/
def SameItems (pieces others : List (List Char)) : Prop :=
  Covers pieces others ∧ Covers others pieces

instance (pieces others : List (List Char)) : Decidable (SameItems pieces others) :=
  inferInstanceAs (Decidable (_ ∧ _))

theorem Alike.names_iff {a b : List Char} (h : Alike a b) (family : EventFamily) :
    Names a family ↔ Names b family := by
  rw [Names, Names, ItemNames, ItemNames, normalized_congr h]

theorem Names.ne_nil {family : EventFamily} (h : Names piece family) :
    Text.trimChars piece ≠ [] := by
  intro hblank
  rw [Names, hblank] at h
  cases family <;> exact absurd h (by decide)

theorem Covers.known {others : List (List Char)} (h : Covers pieces others)
    (hothers : ∀ other ∈ others, Known other) : ∀ piece ∈ pieces, Known piece := by
  intro piece hpiece
  by_cases hblank : Text.trimChars piece = []
  · exact Or.inl hblank
  · obtain ⟨other, hother, halike⟩ := h piece hpiece hblank
    refine Or.inr ?_
    rcases hothers other hother with hempty | ⟨family, hnames⟩
    · rw [Alike, hempty, List.map_nil, List.map_eq_nil_iff] at halike
      exact absurd halike hblank
    · exact ⟨family, (halike.names_iff family).mpr hnames⟩

theorem Covers.exists_names {others : List (List Char)} (h : Covers pieces others)
    {family : EventFamily} (hnames : ∃ piece ∈ pieces, Names piece family) :
    ∃ other ∈ others, Names other family := by
  obtain ⟨piece, hpiece, hnames⟩ := hnames
  obtain ⟨other, hother, halike⟩ := h piece hpiece hnames.ne_nil
  exact ⟨other, hother, (halike.names_iff family).mp hnames⟩

theorem SameItems.namedBy_eq {others : List (List Char)} (h : SameItems pieces others) :
    namedBy pieces = namedBy others := by
  refine ext fun family => Bool.eq_iff_iff.mpr ?_
  rw [contains_namedBy, contains_namedBy]
  exact ⟨h.1.exists_names, h.2.exists_names⟩

/-- **A list denotes the union of what its items name.**  It is read exactly when every piece
between commas is blank or names something, and what is read are the families that some piece
names; reading from the left with an item `all` in place of everything before comes to the same.
Otherwise the error has the first piece that names nothing, trimmed and as it was written.  So
two lists joined by a comma denote the union of what both denote, and lists with the same items
the same. -/
theorem list_denotes_union (text : String) :
    readOn empty (itemsOf (text.toList.splitOn ',')) = parse text ∧
    (∀ families, parse text = .ok families ↔
      (∀ piece ∈ text.toList.splitOn ',', Known piece) ∧
        ∀ family, families.contains family = true ↔
          ∃ piece ∈ text.toList.splitOn ',', Names piece family) ∧
    ((∃ families, parse text = .ok families) ↔ ∀ piece ∈ text.toList.splitOn ',', Known piece) ∧
    (∀ e, parse text = .error e ↔
      ∃ before piece after, text.toList.splitOn ',' = before ++ piece :: after ∧
        (∀ p ∈ before, Known p) ∧ ¬ Known piece ∧
          e.item = String.ofList (Text.trimChars piece)) ∧
    (∀ other families others, parse text = .ok families → parse other = .ok others →
      parse (text ++ "," ++ other) = .ok (families.union others) ∧
        (families.union others).bits = families.bits ||| others.bits) ∧
    ∀ other families, SameItems (text.toList.splitOn ',') (other.toList.splitOn ',') →
      parse text = .ok families → parse other = .ok families := by
  refine ⟨?_, ?_, ?_, fun _ => parse_eq_error_iff, ?_, ?_⟩
  · rw [readOn_eq, parse_eq]
    cases ofItems (itemsOf (text.toList.splitOn ',')) with
    | error e => rfl
    | ok families => exact congrArg Except.ok (empty_union families)
  · intro families
    rw [parse_eq_ok_iff]
    refine and_congr_right fun _ => ?_
    rw [FamilySet.ext_iff]
    refine forall_congr' fun family => ?_
    rw [Bool.eq_iff_iff, contains_namedBy]
  · simp only [parse_eq_ok_iff, exists_and_left, exists_eq, and_true]
  · intro other families others htext hother
    rw [parse_eq_ok_iff] at htext hother
    refine ⟨?_, bits_union families others⟩
    have hpieces : (text ++ "," ++ other).toList.splitOn ',' =
        text.toList.splitOn ',' ++ other.toList.splitOn ',' := by
      rw [String.toList_append, String.toList_append, List.append_assoc]
      exact List.splitOn_append_cons_self text.toList other.toList
    rw [parse_eq_ok_iff, hpieces, namedBy_append, htext.2, hother.2]
    exact ⟨List.forall_mem_append.mpr ⟨htext.1, hother.1⟩, rfl⟩
  · intro other families hsame htext
    rw [parse_eq_ok_iff] at htext ⊢
    exact ⟨hsame.2.known htext.1, htext.2.trans hsame.namedBy_eq⟩

theorem list_denotes_union_starvationAdded :
    parse " gc,ALL,gc" = .ok all ∧ parse "Thread-Starvation,," = .ok (only .threadStarvation) ∧
    parse (" gc,ALL,gc" ++ "," ++ "Thread-Starvation,,") =
      .ok (all.union (only .threadStarvation)) ∧
    SameItems (" gc,ALL,gc".toList.splitOn ',') ("all,\tGC".toList.splitOn ',') ∧
    parse "all,\tGC" = .ok all ∧
    parse "all,gc , Threads,none" = .error ⟨"Threads"⟩ := by
  have hall : parse " gc,ALL,gc" = .ok all :=
    parse_eq_ok_iff.mpr ⟨by decide, ext fun family => by cases family <;> rfl⟩
  have hone : parse "Thread-Starvation,," = .ok (only .threadStarvation) :=
    parse_eq_ok_iff.mpr ⟨by decide, ext fun family => by cases family <;> rfl⟩
  have hsame : SameItems (" gc,ALL,gc".toList.splitOn ',') ("all,\tGC".toList.splitOn ',') := by
    decide
  obtain ⟨-, -, -, -, hjoined, hreordered⟩ := list_denotes_union " gc,ALL,gc"
  obtain ⟨-, -, -, hreported, -⟩ := list_denotes_union "all,gc , Threads,none"
  exact ⟨hall, hone, (hjoined _ _ _ hall hone).1, hsame, hreordered _ _ hsame hall,
    (hreported _).mpr ⟨["all".toList, "gc ".toList], " Threads".toList, ["none".toList], rfl,
      by decide, by decide, rfl⟩⟩

end FamilySet
end RuntimeTrace
