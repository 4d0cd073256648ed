/-!
# UTF-8

Trace input arrives as bytes.  A line of it is text when it is well-formed
UTF-8: no overlong form, no surrogate, nothing above `0x10FFFF`.

When a line is not text the fault says where and how.  Two kinds matter to a
reader of the message.  Either some bytes can begin no scalar value whatever
follows, and the fault tells how many; or the line ends inside a sequence that
was well-formed so far.
-/

namespace RuntimeTrace
namespace Utf8

/-- Why a run of bytes is not text. -/
structure Fault where
  /-- Bytes of well-formed text before the fault. -/
  position : Nat
  /-- Length of the ill-formed sequence, or nothing when the input ended inside
  a sequence. -/
  length : Option Nat
  deriving DecidableEq, Repr

/-- How a reader describes the fault. -/
def Fault.message (fault : Fault) : String :=
  match fault.length with
  | some n => s!"invalid utf-8 sequence of {n} bytes from index {fault.position}"
  | none => s!"incomplete utf-8 byte sequence from index {fault.position}"

/-- What stands at the head of a run of bytes. -/
inductive Head where
  /-- A scalar value and the bytes it takes beyond the first. -/
  | scalar (c : Char) (extra : Nat)
  /-- An ill-formed sequence. -/
  | broken (length : Option Nat)

/-- A continuation byte. -/
def isContinuation (b : UInt8) : Bool := 0x80 ≤ b.toNat && b.toNat ≤ 0xBF

/-- The second bytes allowed after a first byte; the narrower ranges keep out
overlong forms, surrogates and values above `0x10FFFF`. -/
def isSecond (first second : UInt8) : Bool :=
  let n := second.toNat
  if first = 0xE0 then 0xA0 ≤ n && n ≤ 0xBF
  else if first = 0xED then 0x80 ≤ n && n ≤ 0x9F
  else if first = 0xF0 then 0x90 ≤ n && n ≤ 0xBF
  else if first = 0xF4 then 0x80 ≤ n && n ≤ 0x8F
  else isContinuation second

/-- The low six bits of a continuation byte. -/
def payload (b : UInt8) : Nat := b.toNat % 64

/-- Reads the sequence that a first byte begins. -/
def head (first : UInt8) (rest : List UInt8) : Head :=
  let n := first.toNat
  if n < 0x80 then .scalar (Char.ofNat n) 0
  else if n < 0xC2 || 0xF4 < n then .broken (some 1)
  else
    match rest with
    | [] => .broken none
    | b :: more =>
      if !isSecond first b then .broken (some 1)
      else if n < 0xE0 then .scalar (Char.ofNat (n % 32 * 64 + payload b)) 1
      else
        match more with
        | [] => .broken none
        | c :: last =>
          if !isContinuation c then .broken (some 2)
          else if n < 0xF0 then
            .scalar (Char.ofNat ((n % 16 * 64 + payload b) * 64 + payload c)) 2
          else
            match last with
            | [] => .broken none
            | d :: _ =>
              if !isContinuation d then .broken (some 3)
              else
                .scalar
                  (Char.ofNat (((n % 8 * 64 + payload b) * 64 + payload c) * 64 + payload d)) 3

/-- Decodes from a position on. -/
def decodeFrom (position : Nat) : List UInt8 → Except Fault (List Char)
  | [] => .ok []
  | first :: rest =>
    match head first rest with
    | .broken length => .error ⟨position, length⟩
    | .scalar c extra =>
      match decodeFrom (position + 1 + extra) (rest.drop extra) with
      | .ok cs => .ok (c :: cs)
      | .error fault => .error fault
termination_by bytes => bytes.length
decreasing_by simp only [List.length_drop, List.length_cons]; omega

/-- The text of a run of bytes, or the first fault in it. -/
def decode (bytes : List UInt8) : Except Fault (List Char) := decodeFrom 0 bytes

end Utf8
end RuntimeTrace
