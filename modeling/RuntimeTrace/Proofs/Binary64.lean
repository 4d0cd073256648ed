import Mathlib.Algebra.GroupWithZero.Nat
import RuntimeTrace.Json.Value
import RuntimeTrace.Time

/-!
# Times in other units are numbers

A double that is not finite has no form in JSON and becomes `null`.  For times this does not
arise.  Rounding chooses the place by the lengths of the two sides of a ratio, so that at most
fifty-four bits are left above it (`scaledRound_le`), and the exponent of what it gives is
bounded by the difference of the lengths (`toNat_ofRatio_le`).  A clock of sixty-four bits
stays far below the range of doubles, before and after the division by a unit.

Main statement: `number_nanosIn`.
-/

namespace RuntimeTrace
namespace Binary64

theorem roundDiv_le_of_lt {num den k : Nat} (h : num < k * den) : roundDiv num den ≤ k := by
  have hquotient : num / den < k := (Nat.div_lt_iff_lt_mul (by
    apply Nat.pos_of_ne_zero
    rintro rfl
    omega)).mpr h
  unfold roundDiv
  dsimp only
  split <;> omega

theorem lt_shiftLeft_of_log2 {num den a b : Nat} (hden : den ≠ 0)
    (h : num.log2 + 1 + a ≤ den.log2 + b) : num * 2 ^ a < 2 ^ b * den := by
  calc num * 2 ^ a < 2 ^ (num.log2 + 1) * 2 ^ a :=
        Nat.mul_lt_mul_of_pos_right Nat.lt_log2_self (Nat.two_pow_pos a)
    _ = 2 ^ (num.log2 + 1 + a) := (Nat.pow_add 2 _ _).symm
    _ ≤ 2 ^ (b + den.log2) := Nat.pow_le_pow_right Nat.two_pos (by omega)
    _ = 2 ^ b * 2 ^ den.log2 := Nat.pow_add 2 _ _
    _ ≤ 2 ^ b * den := Nat.mul_le_mul_left _ (Nat.log2_self_le hden)

/-- At a place that leaves fifty-four bits at most, so many are left. -/
theorem scaledRound_le {num den place : Nat} (hden : den ≠ 0)
    (h : num.log2 + 1074 ≤ den.log2 + place + 53) : scaledRound num den place ≤ 2 ^ 54 := by
  unfold scaledRound
  split
  · apply roundDiv_le_of_lt
    rw [Nat.shiftLeft_eq]
    exact lt_shiftLeft_of_log2 hden (by omega)
  · apply roundDiv_le_of_lt
    have hlt : num * 2 ^ 0 < 2 ^ (54 + (place - 1074)) * den :=
      lt_shiftLeft_of_log2 hden (by omega)
    rw [Nat.pow_zero, Nat.mul_one, Nat.pow_add, Nat.mul_assoc] at hlt
    rwa [Nat.shiftLeft_eq, Nat.mul_comm den]

theorem placeFor_le (num den : Nat) : placeFor num den ≤ num.log2 + 1074 - den.log2 - 52 := by
  unfold placeFor
  dsimp only
  split <;> omega

theorem le_placeFor (num den : Nat) : num.log2 + 1074 ≤ den.log2 + placeFor num den + 53 := by
  unfold placeFor
  dsimp only
  split <;> omega

/-- The word of a ratio, before it is held at infinity. -/
def wordFor (num den : Nat) : Nat :=
  placeFor num den * leadingBit + scaledRound num den (placeFor num den)

theorem ofRatio_eq (num den : Nat) : ofRatio num den =
    if num = 0 || den = 0 then zero
    else if infinity.bits.toNat ≤ wordFor num den then infinity
    else ⟨UInt64.ofNat (wordFor num den)⟩ := rfl

theorem wordFor_le {num den k : Nat} (hden : den ≠ 0) (h : num.log2 ≤ den.log2 + k) :
    wordFor num den ≤ (1026 + k) * leadingBit := by
  have hplace : placeFor num den ≤ 1022 + k := Nat.le_trans (placeFor_le num den) (by omega)
  have hrest := scaledRound_le hden (le_placeFor num den)
  have hfour : 2 ^ 54 = 4 * leadingBit := by decide
  rw [hfour] at hrest
  have hsum : 1022 + k + 4 = 1026 + k := by omega
  calc wordFor num den
      ≤ (1022 + k) * leadingBit + 4 * leadingBit :=
        Nat.add_le_add (Nat.mul_le_mul_right _ hplace) hrest
    _ = (1026 + k) * leadingBit := by rw [← Nat.add_mul, hsum]

/-- **The size of a rounded ratio is bounded by the lengths of its sides.** -/
theorem toNat_ofRatio_le {num den k : Nat} (h : num.log2 ≤ den.log2 + k) :
    (ofRatio num den).bits.toNat ≤ (1026 + k) * leadingBit := by
  rw [ofRatio_eq]
  by_cases hzero : (num = 0 || den = 0) = true
  · have hbits : zero.bits.toNat = 0 := by decide
    rw [if_pos hzero, hbits]
    exact Nat.zero_le _
  · rw [if_neg hzero]
    rw [Bool.or_eq_true, decide_eq_true_eq, decide_eq_true_eq, not_or] at hzero
    have hword := wordFor_le hzero.2 h
    by_cases hinfinite : infinity.bits.toNat ≤ wordFor num den
    · rw [if_pos hinfinite]
      exact Nat.le_trans hinfinite hword
    · rw [if_neg hinfinite, UInt64.toNat_ofNat']
      exact Nat.le_trans (Nat.mod_le _ _) hword

variable {x : Binary64} {n : Nat}

theorem exponent_le (h : x.bits.toNat ≤ n * leadingBit) : x.exponent ≤ n := by
  have hmagnitude : x.magnitude ≤ n * leadingBit := Nat.le_trans (Nat.mod_le _ _) h
  exact Nat.div_le_of_le_mul (Nat.mul_comm _ _ ▸ hmagnitude)

theorem isFinite_of_le (h : x.bits.toNat ≤ n * leadingBit) (hn : n < 2047) :
    x.isFinite = true :=
  decide_eq_true (Nat.lt_of_le_of_lt (exponent_le h) hn)

theorem log2_numerator_le (h : x.bits.toNat ≤ n * leadingBit) :
    x.numerator.log2 ≤ 53 + (n - 1074) := by
  have hsignificand : x.significand < 2 ^ 53 := by
    have hfraction : x.fraction < leadingBit := Nat.mod_lt _ (by decide)
    unfold significand
    unfold leadingBit at hfraction ⊢
    split <;> omega
  by_cases hzero : x.numerator = 0
  · rw [hzero]
    exact Nat.zero_le _
  · have hplace : x.place - 1074 ≤ n - 1074 := by
      have hexponent := exponent_le h
      unfold place
      omega
    refine (Nat.lt_succ_iff.mp ((Nat.log2_lt hzero).mpr ?_))
    unfold numerator
    rw [Nat.shiftLeft_eq]
    calc x.significand * 2 ^ (x.place - 1074) < 2 ^ 53 * 2 ^ (x.place - 1074) :=
          Nat.mul_lt_mul_of_pos_right hsignificand (Nat.two_pow_pos _)
      _ = 2 ^ (53 + (x.place - 1074)) := (Nat.pow_add 2 _ _).symm
      _ ≤ 2 ^ (53 + (n - 1074) + 1) := Nat.pow_le_pow_right Nat.two_pos (by omega)

end Binary64

theorem isFinite_nanosIn (unit : Nat) (nanos : UInt64) : (nanosIn unit nanos).isFinite = true := by
  have hclock : nanos.toNat.log2 ≤ Nat.log2 1 + 64 := by
    by_cases hzero : nanos.toNat = 0
    · rw [hzero]
      exact Nat.zero_le _
    · have hlt : nanos.toNat.log2 < 64 := (Nat.log2_lt hzero).mpr nanos.toNat_lt
      omega
  have hwhole : (Binary64.ofNat nanos.toNat).numerator.log2 ≤ 100 :=
    Nat.le_trans (Binary64.log2_numerator_le (Binary64.toNat_ofRatio_le hclock)) (by decide)
  have hlengths : (Binary64.ofNat nanos.toNat).numerator.log2 ≤
      ((Binary64.ofNat nanos.toNat).denominator * unit).log2 + 100 :=
    Nat.le_trans hwhole (Nat.le_add_left 100 _)
  rw [nanosIn, Binary64.divNat]
  exact Binary64.isFinite_of_le (Binary64.toNat_ofRatio_le hlengths) (by decide)

/-- **A time is a number in every unit.** -/
theorem number_nanosIn (unit : Nat) (nanos : UInt64) :
    Json.number (nanosIn unit nanos) = .float (nanosIn unit nanos) := by
  rw [Json.number, if_pos (isFinite_nanosIn unit nanos)]

end RuntimeTrace
