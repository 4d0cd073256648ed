/-!
# Little-endian byte runs

Activity identifiers and event payloads both store integers with the least
significant byte first.  Reading and writing such runs is one pair of functions
on lists of bytes, with no width built in: a field's width is the length of its
run.

Main statement: `value_bytes` --- writing a number in `width` bytes and reading
it back gives the number modulo `256 ^ width`, so nothing is lost exactly when
the number fits.
-/

namespace RuntimeTrace
namespace LittleEndian

/-- The number a run of bytes stands for, least significant byte first. -/
def value : List UInt8 → Nat
  | [] => 0
  | b :: rest => b.toNat + 256 * value rest

/-- The `width` low bytes of a number, least significant byte first. -/
def bytes : Nat → Nat → List UInt8
  | 0, _ => []
  | width + 1, n => UInt8.ofNat n :: bytes width (n / 256)

@[simp] theorem value_nil : value [] = 0 := rfl

@[simp] theorem value_cons (b : UInt8) (rest : List UInt8) :
    value (b :: rest) = b.toNat + 256 * value rest := rfl

@[simp] theorem length_bytes (width n : Nat) : (bytes width n).length = width := by
  induction width generalizing n with
  | zero => rfl
  | succ width ih => simp [bytes, ih]

/-- **A run reads back as the number it was written from**, up to the bytes that
did not fit. -/
theorem value_bytes (width n : Nat) : value (bytes width n) = n % Nat.pow 256 width := by
  induction width generalizing n with
  | zero => exact (Nat.mod_one n).symm
  | succ width ih =>
    have hpow : Nat.pow 256 (width + 1) = 256 * Nat.pow 256 width := Nat.mul_comm _ _
    rw [hpow, Nat.mod_mul, ← ih (n / 256)]
    simp only [bytes, value_cons, UInt8.toNat_ofNat']

end LittleEndian
end RuntimeTrace
