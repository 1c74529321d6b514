import Mathlib.Data.UInt
import Mathlib.Tactic.Common
import Mathlib.Tactic.Ring

/-!
# Big-endian byte strings

`bytesOf n v` writes the last `n` base-256 digits of a number and `valueOf` reads
a list of such digits back. The lemmas at the end serve code that assembles a
word from its bytes with shifts and bitwise or.
-/

namespace BigEndian

/-- The last `n` base-256 digits of `v`, the most significant first. -/
def bytesOf : ℕ → ℕ → List UInt8
  | 0, _ => []
  | n + 1, v => UInt8.ofNat (v / 256 ^ n) :: bytesOf n v

/-- The number that a list of base-256 digits writes, the most significant
digit first. -/
def valueOf : List UInt8 → ℕ
  | [] => 0
  | b :: bs => b.toNat * 256 ^ bs.length + valueOf bs

@[simp] theorem bytesOf_length (n v : ℕ) : (bytesOf n v).length = n := by
  induction n with
  | zero => rfl
  | succ n ih => rw [bytesOf, List.length_cons, ih]

/-- Reading `n` written digits gives the number modulo `256 ^ n`. -/
theorem valueOf_bytesOf_mod (n v : ℕ) : valueOf (bytesOf n v) = v % 256 ^ n := by
  induction n with
  | zero => simp [bytesOf, valueOf, Nat.mod_one]
  | succ n ih =>
    rw [bytesOf, valueOf, ih, bytesOf_length, Nat.pow_succ, Nat.mod_mul,
      UInt8.toNat_ofNat', Nat.add_comm, Nat.mul_comm]

theorem valueOf_bytesOf {n v : ℕ} (h : v < 256 ^ n) : valueOf (bytesOf n v) = v := by
  rw [valueOf_bytesOf_mod, Nat.mod_eq_of_lt h]

theorem valueOf_lt (bs : List UInt8) : valueOf bs < 256 ^ bs.length := by
  induction bs with
  | nil => exact Nat.zero_lt_one
  | cons b bs ih =>
    have hb : b.toNat + 1 ≤ 256 := b.toNat_lt
    calc b.toNat * 256 ^ bs.length + valueOf bs
        < b.toNat * 256 ^ bs.length + 256 ^ bs.length := Nat.add_lt_add_left ih _
      _ = (b.toNat + 1) * 256 ^ bs.length := (Nat.succ_mul _ _).symm
      _ ≤ 256 * 256 ^ bs.length := Nat.mul_le_mul_right _ hb
      _ = 256 ^ (b :: bs).length := by rw [List.length_cons, Nat.pow_succ, Nat.mul_comm]

theorem bytesOf_add_mul (n a v : ℕ) : bytesOf n (a * 256 ^ n + v) = bytesOf n v := by
  induction n generalizing a with
  | zero => rfl
  | succ n ih =>
    have hsplit : a * 256 ^ (n + 1) + v = a * 256 * 256 ^ n + v := by
      rw [Nat.pow_succ]
      ring
    have hhead : (a * 256 * 256 ^ n + v) / 256 ^ n = a * 256 + v / 256 ^ n := by
      rw [Nat.add_comm, Nat.add_mul_div_right _ _ (Nat.pow_pos (by omega)), Nat.add_comm]
    rw [bytesOf, bytesOf, hsplit, ih, hhead]
    congr 1
    rw [← UInt8.toNat_inj, UInt8.toNat_ofNat', UInt8.toNat_ofNat', Nat.mul_comm, Nat.mul_add_mod]

theorem bytesOf_valueOf (bs : List UInt8) : bytesOf bs.length (valueOf bs) = bs := by
  induction bs with
  | nil => rfl
  | cons b bs ih =>
    have hhead : (b.toNat * 256 ^ bs.length + valueOf bs) / 256 ^ bs.length = b.toNat := by
      rw [Nat.add_comm, Nat.add_mul_div_right _ _ (Nat.pow_pos (by omega)),
        Nat.div_eq_of_lt (valueOf_lt bs), Nat.zero_add]
    rw [List.length_cons, bytesOf, valueOf, hhead, bytesOf_add_mul, ih, UInt8.ofNat_toNat]

theorem mul_or_eq_add {a b i : ℕ} (h : b < 2 ^ i) : a * 2 ^ i ||| b = a * 2 ^ i + b := by
  rw [Nat.mul_comm, Nat.two_pow_add_eq_or_of_lt h]

theorem or_digit {a b j k : ℕ} (hj : j = k + 8) (hb : b < 2 ^ 8) :
    a * 2 ^ j ||| b * 2 ^ k = (a * 256 + b) * 2 ^ k := by
  have hlt : b * 2 ^ k < 2 ^ j := by
    rw [hj, Nat.pow_add, Nat.mul_comm (2 ^ k)]
    exact Nat.mul_lt_mul_of_pos_right hb (Nat.two_pow_pos k)
  rw [mul_or_eq_add hlt, hj, Nat.pow_add]
  ring

/-- A digit shifted within a word of `w` bits is not cut. -/
theorem shiftLeft_mod {w b k : ℕ} (hb : b < 2 ^ 8) (hk : k + 8 ≤ w) :
    (b <<< k) % 2 ^ w = b * 2 ^ k := by
  rw [Nat.shiftLeft_eq, Nat.mod_eq_of_lt]
  calc b * 2 ^ k < 2 ^ 8 * 2 ^ k :=
        Nat.mul_lt_mul_of_pos_right hb (Nat.two_pow_pos k)
    _ = 2 ^ (k + 8) := by rw [Nat.pow_add, Nat.mul_comm]
    _ ≤ 2 ^ w := Nat.pow_le_pow_right (by omega) hk

end BigEndian
