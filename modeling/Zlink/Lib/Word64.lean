import Mathlib.Data.UInt
import Mathlib.Tactic.Common

/-!
# Exact arithmetic on 64-bit words

A machine addition, subtraction or multiplication of two 64-bit words wraps
silently. `addExact`, `subExact` and `mulExact` perform the machine operation
and report `Fault.wrap` instead of returning a wrapped word, so a computation
written with them that ends in `.ok` has performed no wrapping operation at
all. `Fault.fuel` is the report of a loop that was cut off before its exit
test.
-/

namespace Word64

/-- Why a word computation did not deliver a value. -/
inductive Fault where
  | wrap
  | fuel
  deriving DecidableEq

def maxWord : UInt64 := 0xffffffffffffffff

@[simp] theorem toNat_maxWord : maxWord.toNat = 2 ^ 64 - 1 := rfl

/-- Machine addition, reported when it wraps. -/
def addExact (a b : UInt64) : Except Fault UInt64 :=
  if a.toNat + b.toNat < 2 ^ 64 then .ok (a + b) else .error .wrap

/-- Machine subtraction, reported when it wraps. -/
def subExact (a b : UInt64) : Except Fault UInt64 :=
  if b.toNat ≤ a.toNat then .ok (a - b) else .error .wrap

/-- Machine multiplication, reported when it wraps. -/
def mulExact (a b : UInt64) : Except Fault UInt64 :=
  if a.toNat * b.toNat < 2 ^ 64 then .ok (a * b) else .error .wrap

theorem toNat_add_of_lt {a b : UInt64} (h : a.toNat + b.toNat < 2 ^ 64) :
    (a + b).toNat = a.toNat + b.toNat := by
  rw [UInt64.toNat_add, Nat.mod_eq_of_lt h]

theorem toNat_sub_of_le {a b : UInt64} (h : b.toNat ≤ a.toNat) :
    (a - b).toNat = a.toNat - b.toNat :=
  UInt64.toNat_sub_of_le a b (UInt64.le_iff_toNat_le.mpr h)

theorem toNat_mul_of_lt {a b : UInt64} (h : a.toNat * b.toNat < 2 ^ 64) :
    (a * b).toNat = a.toNat * b.toNat := by
  rw [UInt64.toNat_mul, Nat.mod_eq_of_lt h]

theorem addExact_of_lt {a b : UInt64} (h : a.toNat + b.toNat < 2 ^ 64) :
    ∃ c, addExact a b = .ok c ∧ c.toNat = a.toNat + b.toNat :=
  ⟨a + b, if_pos h, toNat_add_of_lt h⟩

theorem subExact_of_le {a b : UInt64} (h : b.toNat ≤ a.toNat) :
    ∃ c, subExact a b = .ok c ∧ c.toNat = a.toNat - b.toNat :=
  ⟨a - b, if_pos h, toNat_sub_of_le h⟩

theorem mulExact_of_lt {a b : UInt64} (h : a.toNat * b.toNat < 2 ^ 64) :
    ∃ c, mulExact a b = .ok c ∧ c.toNat = a.toNat * b.toNat :=
  ⟨a * b, if_pos h, toNat_mul_of_lt h⟩

@[simp] theorem ok_bind {α β : Type} (a : α) (f : α → Except Fault β) :
    (Except.ok a >>= f) = f a := rfl

@[simp] theorem pure_eq_ok {α : Type} (a : α) : (pure a : Except Fault α) = .ok a := rfl

theorem toNat_min (a b : UInt64) : (min a b).toNat = min a.toNat b.toNat := by
  by_cases h : a ≤ b
  · have hle := UInt64.le_iff_toNat_le.mp h
    rw [show min a b = a from if_pos h, Nat.min_eq_left hle]
  · have hlt := UInt64.lt_iff_toNat_lt.mp (UInt64.not_le.mp h)
    rw [show min a b = b from if_neg h, Nat.min_eq_right hlt.le]

theorem eq_zero_iff (a : UInt64) : a = 0 ↔ a.toNat = 0 := by
  rw [UInt64.ext_iff]
  rfl

theorem toNat_pos_iff (a : UInt64) : 0 < a ↔ 0 < a.toNat :=
  UInt64.lt_iff_toNat_lt

theorem toNat_lt_pow (a : UInt64) : a.toNat < 2 ^ 64 := UInt64.toNat_lt a

variable (n : ℕ)

/-- The word that a saturating counter shows for the mathematical value `n`. -/
def sat : UInt64 := UInt64.ofNat (min n (2 ^ 64 - 1))

theorem toNat_sat : (sat n).toNat = min n (2 ^ 64 - 1) := by
  rw [sat, UInt64.toNat_ofNat_of_lt']
  change _ < 2 ^ 64
  omega

theorem toNat_sat_of_lt {n : ℕ} (h : n < 2 ^ 64) : (sat n).toNat = n := by
  rw [toNat_sat]
  omega

@[simp] theorem sat_toNat (a : UInt64) : sat a.toNat = a := by
  rw [UInt64.ext_iff, toNat_sat_of_lt (toNat_lt_pow a)]

theorem sat_of_ge {n : ℕ} (h : 2 ^ 64 ≤ n) : sat n = maxWord := by
  rw [UInt64.ext_iff, toNat_sat, toNat_maxWord]
  omega

@[simp] theorem sat_zero : sat 0 = 0 := rfl

/-- Whether a mathematical value is too large for a word. -/
def overflows : Bool := decide (2 ^ 64 ≤ n)

theorem overflows_eq_true_iff : overflows n = true ↔ 2 ^ 64 ≤ n :=
  decide_eq_true_iff

theorem overflows_eq_false_iff : overflows n = false ↔ n < 2 ^ 64 := by
  rw [overflows, decide_eq_false_iff_not, Nat.not_le]

end Word64
