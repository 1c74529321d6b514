import Mathlib.Data.Nat.Bitwise
import Mathlib.Tactic.Common

/-!
# Two counters and two flags in one machine word

A word of `2 * k + 2` bits holds two counters of `k` bits and, above them, two flags. The
fields are read with masks and shifts, the flags are set and cleared with `|||` and `&&&`,
and the counters move by additions and subtractions of the whole word modulo its size.
As long as both counters fit their bits, each of these operations is the operation on the
one field it is meant for.
-/

namespace Packed

/-- What a word holds. -/
structure Fields where
  low : ℕ
  high : ℕ
  first : Bool
  second : Bool

namespace Fields

def flags (x : Fields) : ℕ :=
  x.first.toNat + 2 * x.second.toNat

/-- The word. -/
def encode (k : ℕ) (x : Fields) : ℕ :=
  2 ^ (2 * k) * x.flags + (2 ^ k * x.high + x.low)

structure Fits (k : ℕ) (x : Fields) : Prop where
  low : x.low < 2 ^ k
  high : x.high < 2 ^ k

end Fields

open Fields

variable {k i n : ℕ} {x : Fields} {a b c d : ℕ}

theorem or_parts (hb : b < 2 ^ i) (hd : d < 2 ^ i) :
    (2 ^ i * a + b) ||| (2 ^ i * c + d) = 2 ^ i * (a ||| c) + (b ||| d) := by
  apply Nat.eq_of_testBit_eq
  intro j
  rw [Nat.testBit_or, Nat.testBit_two_pow_mul_add a hb, Nat.testBit_two_pow_mul_add c hd,
    Nat.testBit_two_pow_mul_add _ (Nat.or_lt_two_pow hb hd), Nat.testBit_or, Nat.testBit_or]
  split <;> rfl

theorem and_parts (hb : b < 2 ^ i) (hd : d < 2 ^ i) :
    (2 ^ i * a + b) &&& (2 ^ i * c + d) = 2 ^ i * (a &&& c) + (b &&& d) := by
  apply Nat.eq_of_testBit_eq
  intro j
  rw [Nat.testBit_and, Nat.testBit_two_pow_mul_add a hb, Nat.testBit_two_pow_mul_add c hd,
    Nat.testBit_two_pow_mul_add _ (Nat.and_lt_two_pow b hd), Nat.testBit_and, Nat.testBit_and]
  split <;> rfl

namespace Fields

theorem flags_lt (x : Fields) : x.flags < 4 := by
  rcases x with ⟨_, _, _ | _, _ | _⟩ <;> simp [flags]

namespace Fits

theorem counters_lt (h : Fits k x) : 2 ^ k * x.high + x.low < 2 ^ (2 * k) := by
  calc 2 ^ k * x.high + x.low < 2 ^ k * x.high + 2 ^ k := Nat.add_lt_add_left h.low _
    _ = 2 ^ k * (x.high + 1) := (Nat.mul_succ _ _).symm
    _ ≤ 2 ^ k * 2 ^ k := Nat.mul_le_mul_left _ h.high
    _ = 2 ^ (2 * k) := by rw [← Nat.pow_add, Nat.two_mul]

theorem encode_lt (h : Fits k x) : x.encode k < 2 ^ (2 * k + 2) := by
  calc x.encode k < 2 ^ (2 * k) * x.flags + 2 ^ (2 * k) := Nat.add_lt_add_left h.counters_lt _
    _ = 2 ^ (2 * k) * (x.flags + 1) := (Nat.mul_succ _ _).symm
    _ ≤ 2 ^ (2 * k) * 4 := Nat.mul_le_mul_left _ x.flags_lt
    _ = 2 ^ (2 * k + 2) := by rw [Nat.pow_add]

end Fits

theorem encode_eq (x : Fields) : x.encode k = 2 ^ k * (2 ^ k * x.flags + x.high) + x.low := by
  rw [encode, Nat.two_mul, Nat.pow_add, Nat.mul_assoc, Nat.mul_add, Nat.add_assoc]

theorem encode_low (h : Fits k x) : x.encode k &&& (2 ^ k - 1) = x.low := by
  rw [Nat.and_two_pow_sub_one_eq_mod, encode_eq, Nat.mul_add_mod, Nat.mod_eq_of_lt h.low]

theorem encode_high (h : Fits k x) : (x.encode k >>> k) &&& (2 ^ k - 1) = x.high := by
  rw [Nat.and_two_pow_sub_one_eq_mod, Nat.shiftRight_eq_div_pow, encode_eq,
    Nat.mul_add_div (Nat.two_pow_pos k), Nat.div_eq_of_lt h.low, Nat.add_zero,
    Nat.mul_add_mod, Nat.mod_eq_of_lt h.high]

theorem and_flag (h : Fits k x) (c : ℕ) :
    x.encode k &&& (2 ^ (2 * k) * c) = 2 ^ (2 * k) * (x.flags &&& c) := by
  have hparts := and_parts (a := x.flags) (c := c) h.counters_lt (Nat.two_pow_pos (2 * k))
  rwa [Nat.add_zero, Nat.and_zero, Nat.add_zero] at hparts

theorem encode_first (h : Fits k x) : x.encode k &&& 2 ^ (2 * k) ≠ 0 ↔ x.first = true := by
  have hbit := and_flag h 1
  rw [Nat.mul_one] at hbit
  rw [hbit, Nat.mul_ne_zero_iff, and_iff_right (Nat.two_pow_pos _).ne']
  rcases x with ⟨_, _, _ | _, _ | _⟩ <;> simp [flags]

theorem encode_second (h : Fits k x) : x.encode k &&& 2 ^ (2 * k + 1) ≠ 0 ↔ x.second = true := by
  have hbit := and_flag h 2
  rw [← Nat.pow_succ] at hbit
  rw [hbit, Nat.mul_ne_zero_iff, and_iff_right (Nat.two_pow_pos _).ne']
  rcases x with ⟨_, _, _ | _, _ | _⟩ <;> simp [flags]

theorem or_flag (h : Fits k x) (c : ℕ) : x.encode k ||| (2 ^ (2 * k) * c) =
      2 ^ (2 * k) * (x.flags ||| c) + (2 ^ k * x.high + x.low) := by
  have hparts := or_parts (a := x.flags) (c := c) h.counters_lt (Nat.two_pow_pos (2 * k))
  rwa [Nat.add_zero, Nat.or_zero] at hparts

theorem encode_setFirst (h : Fits k x) :
    x.encode k ||| 2 ^ (2 * k) = encode k { x with first := true } := by
  have hbit := or_flag h 1
  rw [Nat.mul_one] at hbit
  rw [hbit, encode]
  rcases x with ⟨_, _, _ | _, _ | _⟩ <;> simp [flags]

theorem encode_setSecond (h : Fits k x) :
    x.encode k ||| 2 ^ (2 * k + 1) = encode k { x with second := true } := by
  have hbit := or_flag h 2
  rw [← Nat.pow_succ] at hbit
  rw [hbit, encode]
  rcases x with ⟨_, _, _ | _, _ | _⟩ <;> simp [flags]

theorem and_counters (h : Fits k x) (c : ℕ) : x.encode k &&& (2 ^ (2 * k) * c + (2 ^ (2 * k) - 1)) =
      2 ^ (2 * k) * (x.flags &&& c) + (2 ^ k * x.high + x.low) := by
  have hmask := Nat.sub_lt (Nat.two_pow_pos (2 * k)) Nat.one_pos
  rw [encode, and_parts h.counters_lt hmask, Nat.and_two_pow_sub_one_eq_mod,
    Nat.mod_eq_of_lt h.counters_lt]

theorem encode_clearFirst (h : Fits k x) :
    x.encode k &&& (2 ^ (2 * k + 2) - 1 - 2 ^ (2 * k)) = encode k { x with first := false } := by
  have hmask : 2 ^ (2 * k + 2) - 1 - 2 ^ (2 * k) = 2 ^ (2 * k) * 2 + (2 ^ (2 * k) - 1) := by
    have := Nat.two_pow_pos (2 * k)
    rw [Nat.pow_add]
    omega
  rw [hmask, and_counters h, encode]
  rcases x with ⟨_, _, _ | _, _ | _⟩ <;> simp [flags]

theorem encode_clearSecond (h : Fits k x) : x.encode k &&& (2 ^ (2 * k + 2) - 1 - 2 ^ (2 * k + 1)) =
      encode k { x with second := false } := by
  have hmask : 2 ^ (2 * k + 2) - 1 - 2 ^ (2 * k + 1) = 2 ^ (2 * k) * 1 + (2 ^ (2 * k) - 1) := by
    have := Nat.two_pow_pos (2 * k)
    rw [Nat.pow_add, Nat.pow_succ]
    omega
  rw [hmask, and_counters h, encode]
  rcases x with ⟨_, _, _ | _, _ | _⟩ <;> simp [flags]

theorem encode_addLow (h : Fits k { x with low := x.low + n }) :
    (x.encode k + n) % 2 ^ (2 * k + 2) = encode k { x with low := x.low + n } := by
  have hencode : x.encode k + n = encode k { x with low := x.low + n } := by
    simp only [encode, flags, Nat.add_assoc]
  rw [hencode, Nat.mod_eq_of_lt h.encode_lt]

theorem sub_mod {m s t : ℕ} (hs : s = t + n) (hsm : s < m) : (s + (m - n)) % m = t := by
  have hsum : s + (m - n) = t + m := by omega
  rw [hsum, Nat.add_mod_right, Nat.mod_eq_of_lt (by omega)]

theorem encode_subLow (h : Fits k { x with low := x.low + n }) :
    (encode k { x with low := x.low + n } + (2 ^ (2 * k + 2) - n)) % 2 ^ (2 * k + 2) =
      x.encode k := by
  apply sub_mod _ h.encode_lt
  simp only [encode, flags, Nat.add_assoc]

theorem encode_subHigh (h : Fits k { x with high := x.high + n }) :
    (encode k { x with high := x.high + n } + (2 ^ (2 * k + 2) - 2 ^ k * n)) %
      2 ^ (2 * k + 2) = x.encode k := by
  apply sub_mod _ h.encode_lt
  simp only [encode, flags, Nat.mul_add]
  omega

theorem encode_move (h : Fits k { x with high := x.high + 1 }) :
    (encode k { x with low := x.low + 1 } + (2 ^ k - 1)) % 2 ^ (2 * k + 2) =
      encode k { x with high := x.high + 1 } := by
  have hencode : encode k { x with low := x.low + 1 } + (2 ^ k - 1) =
      encode k { x with high := x.high + 1 } := by
    have := Nat.two_pow_pos k
    simp only [encode, flags, Nat.mul_add, Nat.mul_one]
    omega
  rw [hencode, Nat.mod_eq_of_lt h.encode_lt]

end Fields

end Packed
