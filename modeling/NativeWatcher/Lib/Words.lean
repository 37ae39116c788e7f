import Mathlib.Data.Nat.Digits.Defs
import Mathlib.Tactic.Ring

/-!
# Little-endian words

A number in memory: `width` bytes, the lowest first. What does not fit is cut off.
-/

namespace Words

def bytes : Nat → Nat → List UInt8
  | 0, _ => []
  | width + 1, n => UInt8.ofNat n :: bytes width (n / 256)

/-- The number that the bytes stand for. -/
def value (l : List UInt8) : Nat := Nat.ofDigits 256 (l.map UInt8.toNat)

@[simp] theorem length_bytes (width n : Nat) : (bytes width n).length = width := by
  induction width generalizing n with
  | zero => rfl
  | succ width ih => rw [bytes, List.length_cons, ih]

theorem value_cons (b : UInt8) (l : List UInt8) : value (b :: l) = b.toNat + 256 * value l := by
  rw [value, List.map_cons, Nat.ofDigits_cons]
  rfl

theorem value_bytes {width n : Nat} (h : n < 256 ^ width) : value (bytes width n) = n := by
  induction width generalizing n with
  | zero =>
      rw [Nat.pow_zero, Nat.lt_one_iff] at h
      rw [h]
      rfl
  | succ width ih =>
      have hrest : n / 256 < 256 ^ width := by
        rw [Nat.pow_succ] at h
        exact Nat.div_lt_of_lt_mul (by rwa [Nat.mul_comm] at h)
      rw [bytes, value_cons, ih hrest, UInt8.toNat_ofNat']
      exact Nat.mod_add_div n 256

/-- The word at the start of a stream, and what is behind it. -/
def read (width : Nat) (stream : List UInt8) : Nat × List UInt8 :=
  (value (stream.take width), stream.drop width)

theorem read_bytes_append {width n : Nat} (h : n < 256 ^ width) (rest : List UInt8) :
    read width (bytes width n ++ rest) = (n, rest) := by
  rw [read, List.take_left' (length_bytes width n), List.drop_left' (length_bytes width n),
    value_bytes h]

end Words
