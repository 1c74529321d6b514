import Zlink.Lib.SmoothWeighted
import Zlink.Lib.Vessels

/-!
# Rounds of smooth weighted selection

The credits of smooth weighted selection are vessels that are filled by the weights, and the
selected share drains the fullest of them. So credits within the total stay below a harmonic
number of totals. Credits of zero are zero again after as many turns as the total weight, and in
such a round every share is selected as often as its weight says.
-/

namespace SmoothWeighted

variable {T : Type*} {shares : List (Share T)} {credits : List ℤ} {turns others : List ℕ} {i : ℕ}

def level (credits : List ℤ) (i : ℕ) : ℚ :=
  credits.getD i 0

theorem level_of_getElem? {c : ℤ} (h : credits[i]? = some c) : level credits i = c := by
  rw [level, List.getD_eq_getElem?_getD, h]
  rfl

structure Balanced (shares : List (Share T)) (credits : List ℤ) : Prop where
  length : credits.length = shares.length
  sum : -(shares.length * totalWeight shares : ℤ) ≤ credits.sum
  ge : ∀ c ∈ credits, -(totalWeight shares : ℤ) - totalWeight shares ≤ c
  within : Vessels.Within (Finset.range shares.length) (totalWeight shares) (level credits)

theorem sum_range_getD (xs : List ℕ) : ∑ i ∈ Finset.range xs.length, xs.getD i 0 = xs.sum := by
  induction xs with
  | nil => rfl
  | cons x xs ih =>
    rw [List.length_cons, Finset.sum_range_succ', List.sum_cons, ← ih, Nat.add_comm]
    rfl

def fill (shares : List (Share T)) (i : ℕ) : ℚ :=
  ((shares.map Share.weight).getD i 0 : ℕ)

theorem sum_fill (shares : List (Share T)) :
    ∑ i ∈ Finset.range shares.length, fill shares i = totalWeight shares := by
  have hsum := sum_range_getD (shares.map Share.weight)
  rw [List.length_map] at hsum
  rw [totalWeight, ← hsum, Nat.cast_sum]
  rfl

theorem fill_of_getElem? {s : Share T} (h : shares[i]? = some s) : fill shares i = s.weight := by
  rw [fill, List.getD_eq_getElem?_getD, List.getElem?_map, h]
  rfl

theorem level_applySelection (hlength : credits.length = shares.length) {j : ℕ}
    (hj : j < shares.length) (i : ℕ) :
    level (applySelection shares (totalWeight shares) credits i) j =
      Vessels.drained (totalWeight shares) (level credits) (fill shares) i j := by
  have hs := List.getElem?_eq_getElem hj
  have hc := List.getElem?_eq_getElem (hj.trans_eq hlength.symm)
  rw [level_of_getElem? (getElem?_applySelection _ hs hc i), Vessels.drained,
    level_of_getElem? hc, fill_of_getElem? hs]
  by_cases hself : i = j
  · rw [if_pos hself, if_pos hself.symm]
    push_cast
    rfl
  · rw [if_neg hself, if_neg (Ne.symm hself)]
    push_cast
    rfl

theorem balanced_of_range (hlength : credits.length = shares.length)
    (hrange : ∀ c ∈ credits, -(totalWeight shares : ℤ) ≤ c ∧ c ≤ totalWeight shares) :
    Balanced shares credits where
  length := hlength
  sum := by
    have hle := le_sum_of_forall_ge fun c hc => (hrange c hc).1
    rw [hlength] at hle
    linarith
  ge c hc := by
    have hle := (hrange c hc).1
    have htotal : (0 : ℤ) ≤ (totalWeight shares : ℤ) := Int.natCast_nonneg _
    linarith
  within := by
    refine Vessels.within_of_le (Nat.cast_nonneg _) fun i hi => ?_
    have hlt : i < credits.length := (Finset.mem_range.mp hi).trans_eq hlength.symm
    rw [level_of_getElem? (List.getElem?_eq_getElem hlt)]
    exact_mod_cast (hrange _ (List.getElem_mem hlt)).2

namespace Balanced

theorem le (h : Balanced shares credits) {c : ℤ} (hc : c ∈ credits) :
    (c : ℚ) ≤ totalWeight shares * harmonic shares.length := by
  obtain ⟨i, hi⟩ := List.mem_iff_getElem?.mp hc
  have hlt : i < shares.length := (List.getElem?_eq_some_iff.mp hi).1.trans_eq h.length
  have hle := h.within.le (Finset.mem_range.mpr hlt)
  rwa [level_of_getElem? hi, Finset.card_range] at hle

variable [LinearOrder T]

theorem applySelection (h : Balanced shares credits) (hne : shares ≠ [])
    (hselect : selectIndex shares credits = some i) :
    Balanced shares (applySelection shares (totalWeight shares) credits i) := by
  obtain ⟨hi, hge⟩ := ge_applySelection h.length hne (lt_of_sum_ge hne h.sum) h.ge hselect
  refine ⟨length_applySelection h.length i, ?_, hge, ?_⟩
  · rw [sum_applySelection h.length hi]
    exact h.sum
  · have hfill : ∀ j ∈ Finset.range shares.length, 0 ≤ fill shares j :=
      fun j _ => Nat.cast_nonneg _
    have hdrained := h.within.drained (Finset.mem_range.mpr hi) hfill (sum_fill shares)
      fun j hj => ?_
    · intro some hsome
      refine (Finset.sum_congr rfl fun j hj => ?_).trans_le (hdrained some hsome)
      exact level_applySelection h.length (Finset.mem_range.mp (hsome hj)) i
    · obtain ⟨k, s, c, hk, hs, hc, hmax⟩ := selectIndex_spec h.length hne
      obtain rfl := Option.some.inj (hselect.symm.trans hk)
      have hlt := Finset.mem_range.mp hj
      have hs' := List.getElem?_eq_getElem hlt
      have hc' := List.getElem?_eq_getElem (hlt.trans_eq h.length.symm)
      rw [level_of_getElem? hc', level_of_getElem? hc, fill_of_getElem? hs', fill_of_getElem? hs]
      exact_mod_cast hmax j _ _ hs' hc'

end Balanced

variable [LinearOrder T]

theorem Follows.unique (h : Follows shares (totalWeight shares) credits turns)
    (h' : Follows shares (totalWeight shares) credits others)
    (hlength : turns.length = others.length) : turns = others := by
  induction turns generalizing credits others with
  | nil => exact (List.length_eq_zero_iff.mp hlength.symm).symm
  | cons i turns ih =>
    cases others with
    | nil => exact absurd hlength (Nat.succ_ne_zero _)
    | cons j others =>
      obtain rfl := Option.some.inj (h.1.symm.trans h'.1)
      rw [ih h.2 h'.2 (Nat.succ.inj hlength)]

/-- The credits of a new selection. -/
def zeros (shares : List (Share T)) : List ℤ :=
  List.replicate shares.length 0

theorem Follows.round (h : Follows shares (totalWeight shares) (zeros shares) turns)
    (hturns : turns.length = totalWeight shares) (hpos : 0 < totalWeight shares) :
    after shares (totalWeight shares) (zeros shares) turns = zeros shares ∧
      ∀ i s, shares[i]? = some s → turns.count i = s.weight := by
  have hlength : (zeros shares).length = shares.length := List.length_replicate
  have hne : shares ≠ [] := by
    rintro rfl
    exact Nat.lt_irrefl 0 hpos
  have htotal : (0 : ℤ) < totalWeight shares := by exact_mod_cast hpos
  have hzero : (zeros shares).sum = 0 := by simp [zeros]
  have hlow : ∀ c ∈ zeros shares, 1 - (totalWeight shares : ℤ) ≤ c := by
    intro c hc
    rw [List.eq_of_mem_replicate hc]
    linarith
  obtain ⟨hsum, hge⟩ := h.keeps hlength hne (by rw [hzero]; linarith) hlow
  rw [hzero] at hsum
  have hcredit : ∀ i s, shares[i]? = some s →
      (after shares (totalWeight shares) (zeros shares) turns)[i]? =
        some (((s.weight : ℤ) - turns.count i) * totalWeight shares) := by
    intro i s hs
    have hi := (List.getElem?_eq_some_iff.mp hs).1
    have hc : (zeros shares)[i]? = some 0 := List.getElem?_replicate_of_lt hi
    rw [getElem?_after _ hs hc, hturns]
    congr 1
    ring
  -- the credits are multiples of the total, and more than minus the total
  have hnonneg : ∀ c ∈ after shares (totalWeight shares) (zeros shares) turns, 0 ≤ c := by
    intro c hc
    obtain ⟨i, hi⟩ := List.mem_iff_getElem?.mp hc
    have hlt := (List.getElem?_eq_some_iff.mp hi).1
    rw [length_after hlength] at hlt
    rw [hcredit i _ (List.getElem?_eq_getElem hlt)] at hi
    obtain rfl := Option.some.inj hi
    have hbound := hge _ hc
    refine mul_nonneg ?_ htotal.le
    by_contra hneg
    nlinarith
  have hzeros : ∀ c ∈ after shares (totalWeight shares) (zeros shares) turns, c = 0 := by
    intro c hc
    have hle := le_of_mem_of_ge hnonneg hc
    rw [hsum] at hle
    exact le_antisymm (by linarith) (hnonneg c hc)
  constructor
  · have hreplicate := List.eq_replicate_of_mem hzeros
    rwa [length_after hlength] at hreplicate
  · intro i s hs
    have hc := hzeros _ (List.mem_of_getElem? (hcredit i s hs))
    have hsame := (mul_eq_zero.mp hc).resolve_right htotal.ne'
    have hcount : (turns.count i : ℤ) = s.weight := by linarith
    exact_mod_cast hcount

theorem Follows.count_drop (h : Follows shares (totalWeight shares) (zeros shares) turns)
    (n : ℕ) (hturns : turns.length = n + totalWeight shares) (hpos : 0 < totalWeight shares)
    {s : Share T} (hs : shares[i]? = some s) : (turns.drop n).count i = s.weight := by
  have hfirst := h
  rw [← List.take_append_drop (totalWeight shares) turns] at hfirst
  obtain ⟨hround, hrest⟩ := follows_append.mp hfirst
  obtain ⟨hzeros, hcount⟩ := hround.round (List.length_take_of_le (by omega)) hpos
  have hbefore := h
  rw [← List.take_append_drop n turns] at hbefore
  rw [hzeros] at hrest
  have hsame : turns.drop (totalWeight shares) = turns.take n := by
    refine hrest.unique (follows_append.mp hbefore).1 ?_
    rw [List.length_drop, List.length_take_of_le (by omega), hturns]
    omega
  have hall := congrArg (List.count i) (List.take_append_drop (totalWeight shares) turns)
  have hsplit := congrArg (List.count i) (List.take_append_drop n turns)
  rw [List.count_append, hcount i s hs, hsame] at hall
  rw [List.count_append] at hsplit
  omega

end SmoothWeighted
