import Mathlib.Tactic.Ring
import Zlink.Lib.Word64

/-!
# The blocked ratio

The share of the attempts that were blocked, in parts per million. The product of the count and
a million may not fit in a word, so the quotient is found bit by bit, and the remainder is kept
below the divisor without a sum that could exceed it. Every operation here reports a wrap.
-/

namespace Zlink.Ledger

open Word64

def ppmScale : UInt32 := 1000000

def addReduced (attempts amount quotient remainder : UInt64) : Except Fault (UInt64 × UInt64) := do
  let gap ← subExact attempts amount
  if gap ≤ remainder then
    return (← addExact quotient 1, ← subExact remainder gap)
  else
    return (quotient, ← addExact remainder amount)

def ratioBit (attempts blocked : UInt64) (bit : ℕ) (quotient remainder : UInt64) :
    Except Fault (UInt64 × UInt64) := do
  let quotient ← mulExact quotient 2
  let (quotient, remainder) ← addReduced attempts remainder quotient remainder
  if ppmScale &&& (1 <<< UInt32.ofNat bit) ≠ 0 then
    addReduced attempts blocked quotient remainder
  else
    return (quotient, remainder)

/-- The turns for the bits below `n`, from the highest on. -/
def ratioLoop (attempts blocked : UInt64) : ℕ → UInt64 → UInt64 → Except Fault (UInt64 × UInt64)
  | 0, quotient, remainder => return (quotient, remainder)
  | bit + 1, quotient, remainder => do
      let (quotient, remainder) ← ratioBit attempts blocked bit quotient remainder
      ratioLoop attempts blocked bit quotient remainder

def blockedRatioPpm (attempts blocked : UInt64) : Except Fault UInt32 := do
  if attempts = 0 ∨ blocked = 0 then
    return 0
  if attempts ≤ blocked then
    return 1000000
  let (quotient, _) ← ratioLoop attempts blocked 20 0 0
  return quotient.toUInt32

variable {attempts blocked amount quotient remainder : UInt64} {value : ℕ}

/-- The long division has gone as far as `value` times the count. -/
structure Divided (attempts blocked : UInt64) (value : ℕ) (quotient remainder : UInt64) : Prop where
  eq : quotient.toNat * attempts.toNat + remainder.toNat = value * blocked.toNat
  lt : remainder.toNat < attempts.toNat

theorem Divided.quotient_le (h : Divided attempts blocked value quotient remainder)
    (hlt : blocked.toNat < attempts.toNat) : quotient.toNat ≤ value := by
  have hle : quotient.toNat * attempts.toNat ≤ value * attempts.toNat :=
    calc quotient.toNat * attempts.toNat ≤ value * blocked.toNat := h.eq ▸ Nat.le_add_right _ _
      _ ≤ value * attempts.toNat := Nat.mul_le_mul_left _ hlt.le
  exact Nat.le_of_mul_le_mul_right hle (Nat.zero_lt_of_lt hlt)

theorem addReduced_spec (hamount : amount.toNat < attempts.toNat)
    (hremainder : remainder.toNat < attempts.toNat) (hquotient : quotient.toNat + 1 < 2 ^ 64) :
    ∃ q r, addReduced attempts amount quotient remainder = .ok (q, r) ∧
      q.toNat * attempts.toNat + r.toNat =
        quotient.toNat * attempts.toNat + remainder.toNat + amount.toNat ∧
      r.toNat < attempts.toNat := by
  obtain ⟨gap, hgap, hgapNat⟩ := subExact_of_le hamount.le
  rw [addReduced, hgap, ok_bind]
  by_cases hle : gap ≤ remainder
  · have hleNat := UInt64.le_iff_toNat_le.mp hle
    obtain ⟨q, hq, hqNat⟩ := addExact_of_lt (b := 1) hquotient
    obtain ⟨r, hr, hrNat⟩ := subExact_of_le hleNat
    rw [if_pos hle, hq, ok_bind, hr, ok_bind, pure_eq_ok]
    have hone : (1 : UInt64).toNat = 1 := rfl
    refine ⟨q, r, rfl, ?_, ?_⟩
    · rw [hqNat, hone, Nat.succ_mul]
      omega
    · omega
  · have hltNat := UInt64.lt_iff_toNat_lt.mp (UInt64.not_le.mp hle)
    have hfits := toNat_lt_pow attempts
    obtain ⟨r, hr, hrNat⟩ := addExact_of_lt (a := remainder) (b := amount) (by omega)
    rw [if_neg hle, hr, ok_bind, pure_eq_ok]
    exact ⟨quotient, r, rfl, by omega, by omega⟩

theorem ppmScale_bit {bit : ℕ} (h : bit < 20) : 1000000 / 2 ^ bit = 2 * (1000000 / 2 ^ (bit + 1)) +
      if ppmScale &&& (1 <<< UInt32.ofNat bit) ≠ 0 then 1 else 0 := by
  have hall : ∀ bit : Fin 20, 1000000 / 2 ^ bit.val = 2 * (1000000 / 2 ^ (bit.val + 1)) +
      if ppmScale &&& (1 <<< UInt32.ofNat bit.val) ≠ 0 then 1 else 0 := by
    decide
  exact hall ⟨bit, h⟩

theorem ratioBit_spec {bit : ℕ} (hbit : bit < 20) (hlt : blocked.toNat < attempts.toNat)
    (h : Divided attempts blocked (1000000 / 2 ^ (bit + 1)) quotient remainder) :
    ∃ q r, ratioBit attempts blocked bit quotient remainder = .ok (q, r) ∧
      Divided attempts blocked (1000000 / 2 ^ bit) q r := by
  have hvalue : 1000000 / 2 ^ (bit + 1) ≤ 1000000 := Nat.div_le_self _ _
  have hsmall := h.quotient_le hlt
  obtain ⟨doubled, hdoubled, hdoubledNat⟩ := mulExact_of_lt (a := quotient) (b := 2) (by
    change quotient.toNat * 2 < 2 ^ 64
    omega)
  change doubled.toNat = quotient.toNat * 2 at hdoubledNat
  obtain ⟨q, r, hqr, heq, hr⟩ := @addReduced_spec attempts remainder doubled remainder h.lt h.lt
    (by omega)
  have htwice : Divided attempts blocked (2 * (1000000 / 2 ^ (bit + 1))) q r := by
    refine ⟨?_, hr⟩
    rw [heq, hdoubledNat, Nat.mul_assoc 2, ← h.eq]
    ring
  rw [ratioBit, hdoubled, ok_bind, hqr, ok_bind, ppmScale_bit hbit]
  by_cases hset : ppmScale &&& (1 <<< UInt32.ofNat bit) ≠ 0
  · have hq := htwice.quotient_le hlt
    obtain ⟨q', r', hqr', heq', hr'⟩ := @addReduced_spec attempts blocked q r hlt hr (by omega)
    simp only [if_pos hset]
    refine ⟨q', r', hqr', ?_, hr'⟩
    rw [heq', htwice.eq]
    ring
  · simp only [if_neg hset]
    exact ⟨q, r, rfl, htwice⟩

theorem ratioLoop_spec {n : ℕ} (hn : n ≤ 20) (hlt : blocked.toNat < attempts.toNat)
    (h : Divided attempts blocked (1000000 / 2 ^ n) quotient remainder) :
    ∃ q r, ratioLoop attempts blocked n quotient remainder = .ok (q, r) ∧
      Divided attempts blocked 1000000 q r := by
  induction n generalizing quotient remainder with
  | zero =>
    rw [Nat.pow_zero, Nat.div_one] at h
    exact ⟨quotient, remainder, rfl, h⟩
  | succ bit ih =>
    obtain ⟨q, r, hqr, hdivided⟩ := ratioBit_spec (Nat.lt_of_succ_le hn) hlt h
    rw [ratioLoop, hqr, ok_bind]
    exact ih (Nat.le_of_succ_le hn) hdivided

/-- The ratio is exact, and no operation on the way to it wraps. -/
theorem blockedRatioPpm_exact (attempts blocked : UInt64) (h : blocked < attempts) :
    ∃ ppm, blockedRatioPpm attempts blocked = .ok ppm ∧
      ppm.toNat = blocked.toNat * 10 ^ 6 / attempts.toNat := by
  have hlt := UInt64.lt_iff_toNat_lt.mp h
  have hattempts : attempts ≠ 0 := by
    intro hzero
    rw [hzero] at hlt
    exact absurd hlt (Nat.not_lt_zero _)
  by_cases hblocked : blocked = 0
  · rw [blockedRatioPpm, if_pos (.inr hblocked), hblocked]
    refine ⟨0, rfl, ?_⟩
    change 0 = 0 * 10 ^ 6 / attempts.toNat
    rw [Nat.zero_mul, Nat.zero_div]
  · have hscale : 10 ^ 6 = 1000000 := rfl
    have hstart : Divided attempts blocked (1000000 / 2 ^ 20) 0 0 := by
      refine ⟨?_, Nat.zero_lt_of_lt hlt⟩
      change 0 * attempts.toNat + 0 = 0 * blocked.toNat
      rw [Nat.zero_mul, Nat.zero_mul]
    obtain ⟨q, r, hqr, hdivided⟩ := ratioLoop_spec le_rfl hlt hstart
    have hquotient : blocked.toNat * 10 ^ 6 / attempts.toNat = q.toNat := by
      rw [hscale, Nat.mul_comm, ← hdivided.eq, Nat.mul_comm,
        Nat.mul_add_div (Nat.zero_lt_of_lt hlt), Nat.div_eq_of_lt hdivided.lt, Nat.add_zero]
    have hsmall := hdivided.quotient_le hlt
    rw [blockedRatioPpm, if_neg (not_or.mpr ⟨hattempts, hblocked⟩), if_neg (UInt64.not_le.mpr h)]
    change ∃ ppm, (ratioLoop attempts blocked 20 0 0 >>= fun x => pure x.1.toUInt32) = .ok ppm ∧ _
    rw [hqr, ok_bind]
    refine ⟨q.toUInt32, rfl, ?_⟩
    rw [hquotient, UInt64.toNat_toUInt32, Nat.mod_eq_of_lt]
    omega

/-- Just below the end of the range. -/
theorem blockedRatioPpm_exact_max : (maxWord - 1 < maxWord) ∧
    ∃ ppm, blockedRatioPpm maxWord (maxWord - 1) = .ok ppm ∧
      ppm.toNat = (maxWord - 1).toNat * 10 ^ 6 / maxWord.toNat := by
  have h : maxWord - 1 < maxWord := by decide
  exact ⟨h, blockedRatioPpm_exact maxWord (maxWord - 1) h⟩

end Zlink.Ledger
