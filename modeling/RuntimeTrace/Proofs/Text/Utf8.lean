import Mathlib.Data.List.Basic
import RuntimeTrace.Proofs.Text.Ascii
import RuntimeTrace.Proofs.Text.Pieces
import RuntimeTrace.Text.Utf8

/-!
# What is text

A line of bytes is text when the decoder says so, and it should say so of exactly the bytes
that some text has.  Both directions matter to a reader of recordings: text must not be
refused, and what is accepted must be the text whose bytes these are.

Between the two stand the well-formed sequences, by the ranges of their bytes (`Sequence`).  The
decoder takes one of them off the front at a time, and takes nothing else (`head_of_sequence`,
`sequence_of_head`); and a sequence is the bytes of one character, since the narrow ranges for
second bytes leave no overlong form and no surrogate (`utf8EncodeChar_of_sequence`).  So it
decodes exactly the bytes of texts (`decode_eq_ok_iff`).
-/

namespace RuntimeTrace
namespace Utf8

/-! ## Ranges -/

theorem isContinuation_iff (b : UInt8) :
    isContinuation b = true ↔ 0x80 ≤ b.toNat ∧ b.toNat ≤ 0xBF := by
  simp only [isContinuation, Bool.and_eq_true, decide_eq_true_eq]

/-- A second byte is a continuation byte, and in a narrower range behind four of the first
bytes. -/
theorem isSecond_iff (first second : UInt8) :
    isSecond first second = true ↔
      (0x80 ≤ second.toNat ∧ second.toNat ≤ 0xBF) ∧
        (first.toNat = 0xE0 → 0xA0 ≤ second.toNat) ∧ (first.toNat = 0xED → second.toNat ≤ 0x9F) ∧
        (first.toNat = 0xF0 → 0x90 ≤ second.toNat) ∧
        (first.toNat = 0xF4 → second.toNat ≤ 0x8F) := by
  simp only [isSecond, isContinuation, ← UInt8.toNat_inj]
  split_ifs <;> simp_all <;> omega

/-- The well-formed sequences, by their first byte and those behind it, and the number each
stands for. -/
inductive Sequence : UInt8 → List UInt8 → Nat → Prop where
  | one {a : UInt8} (ha : a.toNat < 0x80) : Sequence a [] a.toNat
  | two {a b : UInt8} (ha : 0xC2 ≤ a.toNat ∧ a.toNat < 0xE0) (hb : isSecond a b = true) :
      Sequence a [b] (a.toNat % 32 * 64 + payload b)
  | three {a b c : UInt8} (ha : 0xE0 ≤ a.toNat ∧ a.toNat < 0xF0) (hb : isSecond a b = true)
      (hc : isContinuation c = true) :
      Sequence a [b, c] ((a.toNat % 16 * 64 + payload b) * 64 + payload c)
  | four {a b c d : UInt8} (ha : 0xF0 ≤ a.toNat ∧ a.toNat ≤ 0xF4) (hb : isSecond a b = true)
      (hc : isContinuation c = true) (hd : isContinuation d = true) :
      Sequence a [b, c, d] (((a.toNat % 8 * 64 + payload b) * 64 + payload c) * 64 + payload d)

/-! ## Sequences and the decoder -/

/-- A sequence at the front is read, whatever follows it. -/
theorem head_of_sequence {a : UInt8} {more : List UInt8} {n : Nat} (h : Sequence a more n)
    (rest : List UInt8) : head a (more ++ rest) = .scalar (Char.ofNat n) more.length := by
  cases h with
  | one ha => simp [head, ha]
  | two ha hb =>
    have hone : ¬ a.toNat < 0x80 := by omega
    have hlead : ¬ (a.toNat < 0xC2 ∨ 0xF4 < a.toNat) := by omega
    simp [head, hone, hlead, hb, ha.2]
  | three ha hb hc =>
    have hone : ¬ a.toNat < 0x80 := by omega
    have hlead : ¬ (a.toNat < 0xC2 ∨ 0xF4 < a.toNat) := by omega
    have htwo : ¬ a.toNat < 0xE0 := by omega
    simp [head, hone, hlead, htwo, hb, hc, ha.2]
  | four ha hb hc hd =>
    have hone : ¬ a.toNat < 0x80 := by omega
    have hlead : ¬ (a.toNat < 0xC2 ∨ 0xF4 < a.toNat) := by omega
    have htwo : ¬ a.toNat < 0xE0 := by omega
    have hthree : ¬ a.toNat < 0xF0 := by omega
    simp [head, hone, hlead, htwo, hthree, hb, hc, hd]

/-- Where no sequence is at the front, nothing is read. -/
theorem broken_or_sequence (a : UInt8) (rest : List UInt8) :
    (∃ length, head a rest = .broken length) ∨
      ∃ n more behind, Sequence a more n ∧ rest = more ++ behind := by
  fun_cases head a rest with
  | case1 rest n hone => exact Or.inr ⟨_, [], rest, .one hone, rfl⟩
  | case5 n hone hlead b behind hb htwo =>
    simp only [Bool.or_eq_true, decide_eq_true_eq, not_or, Nat.not_lt] at hlead
    exact Or.inr ⟨_, [b], behind, .two ⟨hlead.1, htwo⟩ (by simpa using hb), rfl⟩
  | case8 n hone hlead b hb htwo c behind hc hthree =>
    exact Or.inr ⟨_, [b, c], behind,
      .three ⟨Nat.le_of_not_lt htwo, hthree⟩ (by simpa using hb) (by simpa using hc), rfl⟩
  | case11 n hone hlead b hb htwo c hc hthree d behind hd =>
    simp only [Bool.or_eq_true, decide_eq_true_eq, not_or, Nat.not_lt] at hlead
    exact Or.inr ⟨_, [b, c, d], behind, .four ⟨Nat.le_of_not_lt hthree, hlead.2⟩
      (by simpa using hb) (by simpa using hc) (by simpa using hd), rfl⟩
  | _ => exact Or.inl ⟨_, rfl⟩

/-- What is read at the front is a sequence. -/
theorem sequence_of_head {a : UInt8} {rest : List UInt8} {c : Char} {extra : Nat}
    (h : head a rest = .scalar c extra) :
    ∃ n more behind, Sequence a more n ∧ rest = more ++ behind ∧ c = Char.ofNat n ∧
      extra = more.length := by
  rcases broken_or_sequence a rest with ⟨length, hbroken⟩ | ⟨n, more, behind, hsequence, rfl⟩
  · exact nomatch hbroken.symm.trans h
  · obtain ⟨rfl, rfl⟩ := Head.scalar.inj ((head_of_sequence hsequence behind).symm.trans h)
    exact ⟨n, more, behind, hsequence, rfl, rfl, rfl⟩

/-! ## Sequences and characters -/

/-- The bytes of a character by the size of its number. -/
theorem utf8EncodeChar_eq (c : Char) :
    String.utf8EncodeChar c =
      if c.toNat < 0x80 then [UInt8.ofNat c.toNat]
      else if c.toNat < 0x800 then
        [UInt8.ofNat (c.toNat / 0x40 % 0x20 + 0xC0), UInt8.ofNat (c.toNat % 0x40 + 0x80)]
      else if c.toNat < 0x10000 then
        [UInt8.ofNat (c.toNat / 0x1000 % 0x10 + 0xE0), UInt8.ofNat (c.toNat / 0x40 % 0x40 + 0x80),
          UInt8.ofNat (c.toNat % 0x40 + 0x80)]
      else
        [UInt8.ofNat (c.toNat / 0x40000 % 0x8 + 0xF0), UInt8.ofNat (c.toNat / 0x1000 % 0x40 + 0x80),
          UInt8.ofNat (c.toNat / 0x40 % 0x40 + 0x80), UInt8.ofNat (c.toNat % 0x40 + 0x80)] := by
  simp only [String.utf8EncodeChar, ← Nat.lt_succ_iff]
  rfl

theorem toNat_lead (x : Nat) {m k : Nat} (hm : 0 < m) (hk : m + k ≤ 256) :
    (UInt8.ofNat (x % m + k)).toNat = x % m + k := by
  have hmod : x % m < m := Nat.mod_lt x hm
  rw [UInt8.toNat_ofNat']
  omega

theorem toNat_tail (x : Nat) : (UInt8.ofNat (x % 0x40 + 0x80)).toNat = x % 0x40 + 0x80 :=
  toNat_lead x (by decide) (by decide)

theorem isContinuation_tail (x : Nat) :
    isContinuation (UInt8.ofNat (x % 0x40 + 0x80)) = true := by
  rw [isContinuation_iff, toNat_tail]
  omega

/-- **The bytes of a character are a sequence** for its number. -/
theorem sequence_utf8EncodeChar (c : Char) :
    ∃ a more, String.utf8EncodeChar c = a :: more ∧ Sequence a more c.toNat := by
  have hvalid : c.toNat < 0xD800 ∨ 0xDFFF < c.toNat ∧ c.toNat < 0x110000 := c.valid
  rw [utf8EncodeChar_eq]
  by_cases hone : c.toNat < 0x80
  · have ha : (UInt8.ofNat c.toNat).toNat = c.toNat := by
      rw [UInt8.toNat_ofNat']
      omega
    have hsequence : Sequence (UInt8.ofNat c.toNat) [] _ := .one (by rw [ha]; exact hone)
    rw [ha] at hsequence
    exact ⟨_, _, if_pos hone, hsequence⟩
  rw [if_neg hone]
  by_cases htwo : c.toNat < 0x800
  · have ha := toNat_lead (c.toNat / 0x40) (m := 0x20) (k := 0xC0) (by decide) (by decide)
    refine ⟨_, _, if_pos htwo, ?_⟩
    have hsequence := Sequence.two (a := UInt8.ofNat (c.toNat / 0x40 % 0x20 + 0xC0))
      (b := UInt8.ofNat (c.toNat % 0x40 + 0x80)) (by omega)
      (by rw [isSecond_iff, toNat_tail]; omega)
    rw [payload, ha, toNat_tail] at hsequence
    convert hsequence using 1
    omega
  rw [if_neg htwo]
  by_cases hthree : c.toNat < 0x10000
  · have ha := toNat_lead (c.toNat / 0x1000) (m := 0x10) (k := 0xE0) (by decide) (by decide)
    refine ⟨_, _, if_pos hthree, ?_⟩
    have hsequence := Sequence.three (a := UInt8.ofNat (c.toNat / 0x1000 % 0x10 + 0xE0))
      (b := UInt8.ofNat (c.toNat / 0x40 % 0x40 + 0x80)) (by omega)
      (by rw [isSecond_iff, toNat_tail]; omega) (isContinuation_tail c.toNat)
    rw [payload, payload, ha, toNat_tail, toNat_tail] at hsequence
    convert hsequence using 1
    omega
  · have ha := toNat_lead (c.toNat / 0x40000) (m := 0x8) (k := 0xF0) (by decide) (by decide)
    refine ⟨_, _, if_neg hthree, ?_⟩
    have hsequence := Sequence.four (a := UInt8.ofNat (c.toNat / 0x40000 % 0x8 + 0xF0))
      (b := UInt8.ofNat (c.toNat / 0x1000 % 0x40 + 0x80)) (by omega)
      (by rw [isSecond_iff, toNat_tail]; omega) (isContinuation_tail (c.toNat / 0x40))
      (isContinuation_tail c.toNat)
    rw [payload, payload, payload, ha, toNat_tail, toNat_tail, toNat_tail] at hsequence
    convert hsequence using 1
    omega

/-- A sequence stands for the number of a character. -/
theorem toNat_ofNat_of_sequence {a : UInt8} {more : List UInt8} {n : Nat}
    (h : Sequence a more n) : (Char.ofNat n).toNat = n := by
  have hvalid : n.isValidChar := by
    cases h with
    | one ha => exact Or.inl (by omega)
    | two ha hb =>
      rw [isSecond_iff] at hb
      exact Or.inl (by rw [payload]; omega)
    | three ha hb hc =>
      rw [isSecond_iff] at hb
      rw [isContinuation_iff] at hc
      simp only [Nat.isValidChar, payload]
      omega
    | four ha hb hc hd =>
      rw [isSecond_iff] at hb
      rw [isContinuation_iff] at hc hd
      simp only [Nat.isValidChar, payload]
      omega
  rw [Char.ofNat, dif_pos hvalid]
  rfl

/-- **A sequence is the bytes of its character.** -/
theorem utf8EncodeChar_of_sequence {a : UInt8} {more : List UInt8} {n : Nat}
    (h : Sequence a more n) : String.utf8EncodeChar (Char.ofNat n) = a :: more := by
  have hbyte {x : Nat} {b : UInt8} (heq : x = b.toNat) : UInt8.ofNat x = b := by
    rw [heq, UInt8.ofNat_toNat]
  rw [utf8EncodeChar_eq, toNat_ofNat_of_sequence h]
  cases h with
  | one ha => rw [if_pos ha, hbyte rfl]
  | @two b ha hb =>
    rw [isSecond_iff] at hb
    rw [payload, if_neg (by omega), if_pos (by omega), hbyte (b := a) (by omega),
      hbyte (b := b) (by omega)]
  | @three b c ha hb hc =>
    rw [isSecond_iff] at hb
    rw [isContinuation_iff] at hc
    rw [payload, payload, if_neg (by omega), if_neg (by omega), if_pos (by omega),
      hbyte (b := a) (by omega), hbyte (b := b) (by omega), hbyte (b := c) (by omega)]
  | @four b c d ha hb hc hd =>
    rw [isSecond_iff] at hb
    rw [isContinuation_iff] at hc hd
    rw [payload, payload, payload, if_neg (by omega), if_neg (by omega), if_neg (by omega),
      hbyte (b := a) (by omega), hbyte (b := b) (by omega), hbyte (b := c) (by omega),
      hbyte (b := d) (by omega)]

/-! ## Texts -/

/-- The bytes of a list of characters. -/
def encode (cs : List Char) : List UInt8 := cs.flatMap String.utf8EncodeChar

theorem encode_nil : encode [] = [] := rfl

theorem encode_append (as bs : List Char) : encode (as ++ bs) = encode as ++ encode bs :=
  List.flatMap_append

theorem encode_cons (c : Char) (cs : List Char) :
    encode (c :: cs) = String.utf8EncodeChar c ++ encode cs := List.flatMap_cons

/-- Text is read back from its bytes, at any position. -/
theorem decodeFrom_encode (position : Nat) (cs : List Char) :
    decodeFrom position (encode cs) = .ok cs := by
  induction cs generalizing position with
  | nil => rw [encode, List.flatMap_nil, decodeFrom]
  | cons c cs ih =>
    obtain ⟨a, more, hbytes, hsequence⟩ := sequence_utf8EncodeChar c
    rw [encode_cons, hbytes, List.cons_append, decodeFrom, head_of_sequence hsequence,
      Char.ofNat_toNat]
    dsimp only
    rw [List.drop_left, ih]

/-- The bytes that were read are those of the text. -/
theorem eq_encode_of_decodeFrom {position : Nat} {bytes : List UInt8} {cs : List Char}
    (h : decodeFrom position bytes = .ok cs) : bytes = encode cs := by
  induction position, bytes using decodeFrom.induct generalizing cs with
  | case1 position =>
    rw [decodeFrom] at h
    rw [← Except.ok.inj h]
    rfl
  | case2 position first rest length hhead =>
    rw [decodeFrom, hhead] at h
    exact nomatch h
  | case3 position first rest c extra hhead cs' hrest ih =>
    rw [decodeFrom, hhead] at h
    dsimp only at h
    rw [hrest] at h
    obtain rfl := Except.ok.inj h
    obtain ⟨n, more, behind, hsequence, rfl, rfl, rfl⟩ := sequence_of_head hhead
    have hbehind := ih hrest
    rw [List.drop_left] at hbehind
    rw [encode_cons, utf8EncodeChar_of_sequence hsequence, List.cons_append, ← hbehind]
  | case4 position first rest c extra hhead fault hrest ih =>
    rw [decodeFrom, hhead] at h
    dsimp only at h
    rw [hrest] at h
    exact nomatch h

/-- **The decoder reads exactly the bytes of texts**, each as that text. -/
theorem decode_eq_ok_iff {bytes : List UInt8} {cs : List Char} :
    decode bytes = .ok cs ↔ bytes = encode cs := by
  constructor
  · exact eq_encode_of_decodeFrom
  · rintro rfl
    exact decodeFrom_encode 0 cs

/-! ## Bytes below 128 -/

/-- **A byte below 128 is a character of its own.** -/
theorem utf8EncodeChar_of_mem {b : UInt8} {c : Char} (hb : b.toNat < 0x80)
    (h : b ∈ String.utf8EncodeChar c) : String.utf8EncodeChar c = [b] ∧ c = charOf b := by
  obtain ⟨a, more, hbytes, hsequence⟩ := sequence_utf8EncodeChar c
  rw [hbytes, List.mem_cons] at h
  generalize hn : c.toNat = n at hsequence
  cases hsequence with
  | one ha =>
    rcases h with rfl | h
    · refine ⟨hbytes, ?_⟩
      rw [charOf, ← hn, Char.ofNat_toNat]
    · exact absurd h List.not_mem_nil
  | two ha hsecond =>
    rw [isSecond_iff] at hsecond
    rcases h with rfl | h
    · omega
    · obtain rfl := List.mem_singleton.mp h
      omega
  | three ha hsecond hc =>
    rw [isSecond_iff] at hsecond
    rw [isContinuation_iff] at hc
    simp only [List.mem_cons, List.not_mem_nil, or_false] at h
    rcases h with rfl | rfl | rfl <;> omega
  | four ha hsecond hc hd =>
    rw [isSecond_iff] at hsecond
    rw [isContinuation_iff] at hc hd
    simp only [List.mem_cons, List.not_mem_nil, or_false] at h
    rcases h with rfl | rfl | rfl | rfl <;> omega

theorem utf8EncodeChar_charOf {b : UInt8} (hb : b.toNat < 0x80) :
    String.utf8EncodeChar (charOf b) = [b] := by
  rw [utf8EncodeChar_eq, toNat_charOf, if_pos hb, UInt8.ofNat_toNat]

/-- A text is cut at such a character where its bytes are cut at the byte. -/
theorem splitOn_encode {b : UInt8} (hb : b.toNat < 0x80) (cs : List Char) :
    (encode cs).splitOn b = (cs.splitOn (charOf b)).map encode := by
  induction cs with
  | nil => rfl
  | cons c cs ih =>
    rw [encode_cons, List.splitOn_cons_eq_if_modifyHead]
    by_cases hc : c = charOf b
    · rw [hc, utf8EncodeChar_charOf hb, List.singleton_append, List.splitOn_cons_eq_if_modifyHead,
        if_pos (beq_self_eq_true b), if_pos (beq_self_eq_true (charOf b)), ih]
      rfl
    · have hnone : b ∉ String.utf8EncodeChar c := fun h => hc (utf8EncodeChar_of_mem hb h).2
      rw [if_neg (mt beq_iff_eq.mp hc), Text.splitOn_append_of_notMem hnone, ih]
      cases hpieces : cs.splitOn (charOf b) with
      | nil => exact absurd hpieces (List.splitOn_ne_nil _ _)
      | cons piece pieces => rfl

/-- Bytes with such a byte at their end are a text exactly when they are one without it. -/
theorem append_singleton_eq_encode_iff {b : UInt8} (hb : b.toNat < 0x80) {bytes : List UInt8}
    {cs : List Char} :
    bytes ++ [b] = encode cs ↔ ∃ as, cs = as ++ [charOf b] ∧ bytes = encode as := by
  constructor
  · intro h
    rcases List.eq_nil_or_concat cs with rfl | ⟨as, c, rfl⟩
    · exact absurd h (by simp [encode])
    · rw [List.concat_eq_append, encode_append, encode_cons, encode_nil, List.append_nil] at h
      have hlast : (String.utf8EncodeChar c).getLast? = some b := by
        obtain ⟨a, more, hbytes, -⟩ := sequence_utf8EncodeChar c
        rw [hbytes] at h ⊢
        rw [← List.getLast?_append_of_ne_nil (encode as) (List.cons_ne_nil a more), ← h,
          List.getLast?_concat]
      obtain ⟨hbytes, rfl⟩ := utf8EncodeChar_of_mem hb (List.mem_of_getLast? hlast)
      rw [hbytes] at h
      exact ⟨as, List.concat_eq_append, List.append_cancel_right h⟩
  · rintro ⟨as, rfl, rfl⟩
    rw [encode_append, encode_cons, utf8EncodeChar_charOf hb]
    rfl

end Utf8
end RuntimeTrace
