import RuntimeTrace.Proofs.Text.Utf16

/-!
# Surrogates without their other half

Text has exactly one list of units, but a list of units need not be that of a text: a
surrogate may stand alone in it.  Decoding reads such a list all the same.  What it makes of
it is best said in units: written again, the text that was read is the list itself, with the
unit of the replacement character at the place of every unpaired surrogate and nothing else
changed (`encode_decode`).  Since text is determined by its units, this says everything about
the text.

Whether a surrogate is unpaired is seen from its two neighbours: a high one needs a low one
right behind it, a low one needs a high one right before it (`unpaired`).  The decoder never
looks back.  It need not: it goes past a high surrogate alone only if the next unit is not a
low one, so where it takes up a low surrogate there is no high one left before it.
-/

namespace RuntimeTrace
namespace Utf16

/-! ## Places -/

/-- At this place of the list is a surrogate without its other half: a high one with no low
one behind it, or a low one with no high one before it. -/
def unpaired (us : List UInt16) (i : Nat) : Bool :=
  us[i]?.any isHigh && !us[i + 1]?.any isLow ||
    us[i]?.any isLow && !(0 < i && us[i - 1]?.any isHigh)

/-- The units with the unit of the replacement character in the place of every unpaired
surrogate. -/
def mended (us : List UInt16) : List UInt16 :=
  us.mapIdx fun i u => if unpaired us i then 0xFFFD else u

/-- A unit and the list behind it do not begin with a pair. -/
def Apart (u : UInt16) (rest : List UInt16) : Prop :=
  isHigh u = true → rest.head?.any isLow = false

/-- No unit is a surrogate of both kinds. -/
theorem isLow_of_isHigh {u : UInt16} (h : isHigh u = true) : isLow u = false := by
  simp only [isHigh, Bool.and_eq_true, decide_eq_true_eq] at h
  simp only [isLow, Bool.and_eq_false_iff, decide_eq_false_iff_not]
  omega

theorem isHigh_of_isLow {v : UInt16} (h : isLow v = true) : isHigh v = false := by
  cases hv : isHigh v with
  | false => rfl
  | true => rw [isLow_of_isHigh hv] at h; exact absurd h Bool.false_ne_true

/-- A unit in front of a list changes nothing in it, unless it makes a pair with its head. -/
theorem unpaired_cons_succ {u : UInt16} {us : List UInt16} (h : Apart u us) (i : Nat) :
    unpaired (u :: us) (i + 1) = unpaired us i := by
  cases i with
  | zero =>
    cases us with
    | nil => simp [unpaired]
    | cons v rest =>
      cases hu : isHigh u with
      | false => simp [unpaired, hu]
      | true =>
        have hv : isLow v = false := h hu
        simp [unpaired, hv]
  | succ i => simp [unpaired]

/-- A unit that makes no pair with the next is itself, or is replaced if it is a surrogate. -/
theorem mended_cons {u : UInt16} {us : List UInt16} (h : Apart u us) :
    mended (u :: us) = (if isHigh u || isLow u then 0xFFFD else u) :: mended us := by
  have hhead : unpaired (u :: us) 0 = (isHigh u || isLow u) := by
    cases hu : isHigh u with
    | false => simp [unpaired, hu]
    | true =>
      have hnext : us.head?.any isLow = false := h hu
      rw [List.head?_eq_getElem?] at hnext
      simp [unpaired, hu, hnext]
  rw [mended, List.mapIdx_cons, hhead, mended]
  simp only [unpaired_cons_succ h]

/-- A pair stays as it is. -/
theorem mended_cons_pair {u v : UInt16} (hhigh : isHigh u = true) (hlow : isLow v = true)
    (rest : List UInt16) : mended (u :: v :: rest) = u :: v :: mended rest := by
  have hv : isHigh v = false := isHigh_of_isLow hlow
  have hrest : Apart v rest := fun h => absurd h (by rw [hv]; exact Bool.false_ne_true)
  have hfirst : unpaired (u :: v :: rest) 0 = false := by
    simp [unpaired, hhigh, hlow, isLow_of_isHigh hhigh]
  have hsecond : unpaired (u :: v :: rest) 1 = false := by
    simp [unpaired, hhigh, hv]
  have hlater (i : Nat) : unpaired (u :: v :: rest) (i + 1 + 1) = unpaired rest i := by
    rw [← unpaired_cons_succ hrest]
    simp [unpaired]
  rw [mended, List.mapIdx_cons, List.mapIdx_cons, hfirst, hsecond, mended]
  simp only [hlater]
  rfl

/-! ## What is read at a place -/

/-- A unit that makes no pair with the next is read by itself. -/
theorem decode_cons {u : UInt16} {rest : List UInt16} (h : Apart u rest) :
    decode (u :: rest) =
      (if isHigh u || isLow u then replacement else Char.ofNat u.toNat) :: decode rest := by
  cases rest with
  | nil => rfl
  | cons v rest =>
    cases hu : isHigh u with
    | false => cases hlow : isLow u <;> simp [decode, hu, hlow]
    | true =>
      have hv : isLow v = false := h hu
      simp [decode, hu, hv]

/-- The character of a unit that is no surrogate is written as that unit. -/
theorem units_ofNat {u : UInt16} (hhigh : isHigh u = false) (hlow : isLow u = false) :
    units (Char.ofNat u.toNat) = [u] := by
  have hu : u.toNat < 0x10000 := u.toNat_lt
  simp only [isHigh, Bool.and_eq_false_iff, decide_eq_false_iff_not] at hhigh
  simp only [isLow, Bool.and_eq_false_iff, decide_eq_false_iff_not] at hlow
  have hnat : (Char.ofNat u.toNat).toNat = u.toNat := by
    rw [Char.ofNat, dif_pos (by simp only [Nat.isValidChar]; omega)]
    rfl
  rw [units, hnat, if_pos hu, UInt16.ofNat_toNat]

/-- The character of a pair is written as that pair. -/
theorem units_pair {u v : UInt16} (hhigh : isHigh u = true) (hlow : isLow v = true) :
    units (pair u v) = [u, v] := by
  simp only [isHigh, Bool.and_eq_true, decide_eq_true_eq] at hhigh
  simp only [isLow, Bool.and_eq_true, decide_eq_true_eq] at hlow
  have hnat : (pair u v).toNat =
      0x10000 + (u.toNat - 0xD800) * 0x400 + (v.toNat - 0xDC00) := by
    rw [pair, Char.ofNat, dif_pos (by simp only [Nat.isValidChar]; omega)]
    rfl
  have hfirst : 0xD800 + (0x10000 + (u.toNat - 0xD800) * 0x400 + (v.toNat - 0xDC00) - 0x10000) /
      0x400 = u.toNat := by omega
  have hsecond : 0xDC00 + (0x10000 + (u.toNat - 0xD800) * 0x400 + (v.toNat - 0xDC00) - 0x10000) %
      0x400 = v.toNat := by omega
  rw [units, hnat, if_neg (by omega)]
  dsimp only
  rw [hfirst, hsecond, UInt16.ofNat_toNat, UInt16.ofNat_toNat]

/-- One unit that makes no pair with the next, written after it was read. -/
theorem encode_decode_cons {u : UInt16} {rest : List UInt16} (h : Apart u rest)
    (ih : encode (decode rest) = mended rest) :
    encode (decode (u :: rest)) = mended (u :: rest) := by
  rw [decode_cons h, mended_cons h, encode, List.flatMap_cons, ← encode, ih]
  cases hhigh : isHigh u with
  | true => rfl
  | false =>
    cases hlow : isLow u with
    | true => rfl
    | false => simp [units_ofNat hhigh hlow]

/-- **Text that was read is written as the units it was read from**, with each unpaired
surrogate replaced. -/
theorem encode_decode (us : List UInt16) : encode (decode us) = mended us := by
  induction us using decode.induct with
  | case1 => rfl
  | case2 u => exact encode_decode_cons (fun _ => rfl) rfl
  | case3 u v rest hhigh hlow ih =>
    rw [decode_cons_of_pair hhigh hlow, mended_cons_pair hhigh hlow, encode, List.flatMap_cons,
      units_pair hhigh hlow, ← encode, ih]
    rfl
  | case4 u v rest hhigh hlow ih => exact encode_decode_cons (fun _ => by simpa using hlow) ih
  | case5 u v rest hhigh hlow ih => exact encode_decode_cons (fun h => absurd h hhigh) ih
  | case6 u v rest hhigh hlow ih => exact encode_decode_cons (fun h => absurd h hhigh) ih

/-- Only a zero unit is read as the character zero. -/
theorem zero_mem_decode {us : List UInt16} (h : Char.ofNat 0 ∈ decode us) : 0 ∈ us := by
  rw [← zero_mem_encode, encode_decode, mended, List.mem_mapIdx] at h
  obtain ⟨i, hi, hunit⟩ := h
  split at hunit
  · exact absurd hunit (by decide)
  · exact List.mem_iff_getElem.mpr ⟨i, hi, hunit⟩

end Utf16
end RuntimeTrace
