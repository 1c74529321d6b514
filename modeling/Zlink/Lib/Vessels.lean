import Mathlib

/-!
# Draining the fullest vessel

In every step the vessels receive one measure altogether, each of them its own share, and one
measure is taken out of a vessel that is then the fullest. If no vessel holds more than a measure
at the beginning, the vessels never hold more than a harmonic number of measures. What carries the
induction is a bound on what any `k` of the vessels hold together.
-/

namespace Vessels

variable {ι : Type*}

/-- How many measures `k` of `n` vessels hold at most. -/
def bound (n k : ℕ) : ℚ :=
  k * (1 + harmonic n - harmonic k)

theorem bound_one (n : ℕ) : bound n 1 = harmonic n := by
  have hone : harmonic 1 = 1 := by
    rw [harmonic_succ, harmonic_zero]
    norm_num
  rw [bound, hone]
  push_cast
  ring

theorem bound_succ (n k : ℕ) : k * (bound n (k + 1) + 1) = (k + 1) * bound n k := by
  have hpos : ((k : ℚ) + 1) ≠ 0 := by positivity
  rw [bound, bound, harmonic_succ]
  push_cast
  field_simp
  ring

theorem harmonic_mono {k n : ℕ} (h : k ≤ n) : harmonic k ≤ harmonic n := by
  induction n, h using Nat.le_induction with
  | base => exact le_rfl
  | succ n _ ih =>
    rw [harmonic_succ]
    exact ih.trans (le_add_of_nonneg_right (by positivity))

theorem le_bound {k n : ℕ} (h : k ≤ n) : (k : ℚ) ≤ bound n k := by
  have hmono := harmonic_mono h
  have hgrow : (1 : ℚ) ≤ 1 + harmonic n - harmonic k := by linarith
  exact le_mul_of_one_le_right (Nat.cast_nonneg k) hgrow

/-- No vessels hold more together than the bound on their number says. -/
def Within (vessels : Finset ι) (measure : ℚ) (level : ι → ℚ) : Prop :=
  ∀ some ⊆ vessels, ∑ i ∈ some, level i ≤ measure * bound vessels.card some.card

variable {vessels : Finset ι} {measure : ℚ} {level share : ι → ℚ} {j : ι}

theorem within_of_le (hmeasure : 0 ≤ measure) (h : ∀ i ∈ vessels, level i ≤ measure) :
    Within vessels measure level := by
  intro some hsome
  have hsum : ∑ i ∈ some, level i ≤ some.card * measure := by
    have hle := Finset.sum_le_card_nsmul some level measure fun i hi => h i (hsome hi)
    rwa [nsmul_eq_mul] at hle
  have hbound := mul_le_mul_of_nonneg_left (le_bound (Finset.card_le_card hsome)) hmeasure
  linarith

theorem Within.le (h : Within vessels measure level) (hj : j ∈ vessels) :
    level j ≤ measure * harmonic vessels.card := by
  have hle := h {j} (Finset.singleton_subset_iff.mpr hj)
  rwa [Finset.sum_singleton, Finset.card_singleton, bound_one] at hle

variable [DecidableEq ι]

def drained (measure : ℚ) (level share : ι → ℚ) (j i : ι) : ℚ :=
  level i + share i - if i = j then measure else 0

theorem Within.drained (h : Within vessels measure level) (hj : j ∈ vessels)
    (hshare : ∀ i ∈ vessels, 0 ≤ share i) (htotal : ∑ i ∈ vessels, share i = measure)
    (hmax : ∀ i ∈ vessels, level i + share i ≤ level j + share j) :
    Within vessels measure (drained measure level share j) := by
  intro some hsome
  have hreceived : ∀ others ⊆ vessels,
      ∑ i ∈ others, (level i + share i) ≤ measure * (bound vessels.card others.card + 1) := by
    intro others hothers
    have hshares := Finset.sum_le_sum_of_subset_of_nonneg hothers fun i hi _ => hshare i hi
    have hlevels := h others hothers
    rw [Finset.sum_add_distrib]
    linarith
  have hdrained : ∑ i ∈ some, Vessels.drained measure level share j i =
      ∑ i ∈ some, (level i + share i) - if j ∈ some then measure else 0 := by
    simp only [Vessels.drained, Finset.sum_sub_distrib, Finset.sum_ite_eq']
  rw [hdrained]
  by_cases hmem : j ∈ some
  · have hle := hreceived some hsome
    rw [if_pos hmem]
    linarith
  · -- beside the fullest vessel the others hold at most their part of what they hold together
    have hle := hreceived (insert j some) (Finset.insert_subset hj hsome)
    have hfull : ∑ i ∈ some, (level i + share i) ≤ some.card * (level j + share j) := by
      have hle := Finset.sum_le_card_nsmul some _ _ fun i hi => hmax i (hsome hi)
      rwa [nsmul_eq_mul] at hle
    rw [Finset.sum_insert hmem, Finset.card_insert_of_notMem hmem] at hle
    have hscaled := mul_le_mul_of_nonneg_left hle (Nat.cast_nonneg (α := ℚ) some.card)
    have hsucc := congrArg (measure * ·) (bound_succ vessels.card some.card)
    have hpos : (0 : ℚ) < some.card + 1 := by positivity
    rw [if_neg hmem, sub_zero]
    refine le_of_mul_le_mul_left ?_ hpos
    linarith

end Vessels
