import Mathlib.Algebra.BigOperators.Group.List.Basic
import Mathlib.Data.List.Forall2
import Mathlib.Tactic.Common
import Mathlib.Tactic.Ring

/-!
# Integer water filling over weighted slots

A slot has a level, a weight and a cap. Raising a slot by one unit costs its
weight. `round` spends an amount `r` on a list of slots: when `r` covers one
unit of every open slot, all of them are raised by the same share, cut at their
caps; otherwise `dole` walks the list once and gives one unit to every open slot
that the rest of `r` still pays for. `Settles` is the iteration of `round` to its
end.

The results are the four facts that a user of such an allocation needs: nothing
is lost or invented (`Settles.charge`), no slot leaves its bounds
(`Settles.grown`), no open slot could be paid for at the end
(`Settles.spent`), and two slots of the same cap and weight one that start
level end level, up to one unit for the earlier of them (`Settles.even`).
-/

namespace WaterFill

structure Slot where
  level : ℕ
  weight : ℕ
  cap : ℕ

structure Slot.Valid (s : Slot) : Prop where
  level_le : s.level ≤ s.cap
  weight_pos : 0 < s.weight

def charge (slots : List Slot) : ℕ :=
  (slots.map fun s => s.level * s.weight).sum

/-- The cost of one more unit for every slot below its cap. -/
def openWeight (slots : List Slot) : ℕ :=
  (slots.map fun s => if s.level < s.cap then s.weight else 0).sum

variable (share : ℕ)

/-- Raise a slot by `share`, cut at its cap. -/
def raise (s : Slot) : Slot :=
  { s with level := s.level + min share (s.cap - s.level) }

/-- One unit for every open slot that the rest of `r` pays for. -/
def dole : ℕ → List Slot → ℕ × List Slot
  | r, [] => (r, [])
  | r, s :: slots =>
    if s.level < s.cap ∧ s.weight ≤ r then
      ((dole (r - s.weight) slots).1,
        { s with level := s.level + 1 } :: (dole (r - s.weight) slots).2)
    else ((dole r slots).1, s :: (dole r slots).2)

/-- One round, or `none` when nothing more can be given. -/
def round (r : ℕ) (slots : List Slot) : Option (ℕ × List Slot) :=
  if r = 0 ∨ openWeight slots = 0 then none
  else if openWeight slots ≤ r then
    some (r + charge slots - charge (slots.map (raise (r / openWeight slots))),
      slots.map (raise (r / openWeight slots)))
  else if (dole r slots).1 = r then none
  else some (dole r slots)

/-- Rounds iterated until none is left. -/
inductive Settles : ℕ → List Slot → ℕ → List Slot → Prop where
  | stop {r : ℕ} {slots : List Slot} (h : round r slots = none) : Settles r slots r slots
  | step {r r' r'' : ℕ} {slots slots' slots'' : List Slot} (h : round r slots = some (r', slots'))
      (rest : Settles r' slots' r'' slots'') :
      Settles r slots r'' slots''

@[simp] theorem charge_nil : charge [] = 0 := rfl

@[simp] theorem charge_cons (s : Slot) (slots : List Slot) :
    charge (s :: slots) = s.level * s.weight + charge slots := by
  simp [charge]

@[simp] theorem openWeight_nil : openWeight [] = 0 := rfl

theorem openWeight_cons (s : Slot) (slots : List Slot) : openWeight (s :: slots) =
      (if s.level < s.cap then s.weight else 0) + openWeight slots := by
  simp [openWeight]

variable {slots : List Slot}

theorem openWeight_eq_zero
    (hvalid : ∀ s ∈ slots, s.Valid) (h : openWeight slots = 0) : ∀ s ∈ slots, s.cap ≤ s.level := by
  induction slots with
  | nil => simp
  | cons t slots ih =>
    have hpos := (hvalid t List.mem_cons_self).weight_pos
    rw [openWeight_cons] at h
    intro s hs
    rcases List.mem_cons.mp hs with rfl | hs
    · split at h <;> omega
    · exact ih (fun u hu => hvalid u (List.mem_cons_of_mem _ hu)) (by omega) s hs

theorem openWeight_le (slots : List Slot) : openWeight slots ≤ (slots.map Slot.weight).sum := by
  induction slots with
  | nil => simp
  | cons s slots ih =>
    rw [openWeight_cons, List.map_cons, List.sum_cons]
    split <;> omega

@[simp] theorem raise_weight (s : Slot) : (raise share s).weight = s.weight := rfl

@[simp] theorem raise_cap (s : Slot) : (raise share s).cap = s.cap := rfl

theorem raise_level (s : Slot) :
    (raise share s).level = s.level + min share (s.cap - s.level) := rfl

theorem charge_raise (slots : List Slot) :
    charge slots ≤ charge (slots.map (raise share)) ∧ charge (slots.map (raise share)) ≤
        charge slots + share * openWeight slots := by
  induction slots with
  | nil => simp
  | cons s slots ih =>
    simp only [List.map_cons, charge_cons, openWeight_cons, raise_weight, raise_level]
    have hgrant : min share (s.cap - s.level) * s.weight ≤
        share * (if s.level < s.cap then s.weight else 0) := by
      by_cases hopen : s.level < s.cap
      · simpa [hopen] using Nat.mul_le_mul_right _ (Nat.min_le_left _ _)
      · have hzero : s.cap - s.level = 0 := by omega
        simp [hzero]
    rw [Nat.add_mul, Nat.mul_add]
    omega

theorem charge_lt_raise {share : ℕ} (hshare : 0 < share)
    (hopen : openWeight slots ≠ 0) : charge slots < charge (slots.map (raise share)) := by
  induction slots with
  | nil => simp at hopen
  | cons s slots ih =>
    simp only [List.map_cons, charge_cons, raise_weight, raise_level, Nat.add_mul]
    by_cases hs : s.level < s.cap ∧ s.weight ≠ 0
    · have hgrant : 0 < min share (s.cap - s.level) * s.weight :=
        Nat.mul_pos (by omega) (by omega)
      have := (charge_raise share slots).1
      omega
    · have hrest : openWeight slots ≠ 0 := by
        rw [openWeight_cons] at hopen
        split at hopen <;> omega
      have := ih hrest
      omega

theorem dole_charge (r : ℕ) (slots : List Slot) :
    (dole r slots).1 + charge (dole r slots).2 = r + charge slots := by
  induction slots generalizing r with
  | nil => rfl
  | cons s slots ih =>
    by_cases hs : s.level < s.cap ∧ s.weight ≤ r
    · have := ih (r - s.weight)
      simp only [dole, if_pos hs, charge_cons, Nat.add_mul, Nat.one_mul]
      omega
    · have := ih r
      simp only [dole, if_neg hs, charge_cons]
      omega

theorem dole_fst_le (r : ℕ) (slots : List Slot) : (dole r slots).1 ≤ r := by
  induction slots generalizing r with
  | nil => simp [dole]
  | cons s slots ih =>
    by_cases hs : s.level < s.cap ∧ s.weight ≤ r
    · have := ih (r - s.weight)
      simp only [dole, if_pos hs]
      omega
    · simpa only [dole, if_neg hs] using ih r

/-- How a unit pass that leaves `rest` treats one slot: a unit, paid for out of
`r`, or nothing, because the slot is full or its unit costs more than `rest`. -/
def Doled (r rest : ℕ) (s s' : Slot) : Prop :=
  (s' = { s with level := s.level + 1 } ∧ s.level < s.cap ∧ s.weight ≤ r) ∨
    (s' = s ∧ (s.cap ≤ s.level ∨ rest < s.weight))

variable {r r' rest : ℕ} {s s' : Slot}

theorem Doled.mono (hr : r ≤ r') (h : Doled r rest s s') : Doled r' rest s s' := by
  rcases h with ⟨rfl, hopen, hle⟩ | hkept
  · exact Or.inl ⟨rfl, hopen, hle.trans hr⟩
  · exact Or.inr hkept

theorem dole_doled (r : ℕ) (slots : List Slot) :
    List.Forall₂ (Doled r (dole r slots).1) slots (dole r slots).2 := by
  induction slots generalizing r with
  | nil => exact List.Forall₂.nil
  | cons s slots ih =>
    by_cases hs : s.level < s.cap ∧ s.weight ≤ r
    · simp only [dole, if_pos hs]
      refine List.Forall₂.cons (Or.inl ⟨rfl, hs⟩) ?_
      exact (ih (r - s.weight)).imp fun _ _ h => h.mono (Nat.sub_le _ _)
    · simp only [dole, if_neg hs]
      refine List.Forall₂.cons (Or.inr ⟨rfl, ?_⟩) (ih r)
      have := dole_fst_le r slots
      omega

theorem dole_unchanged (hvalid : ∀ s ∈ slots, s.Valid) (h : (dole r slots).1 = r) :
    ∀ s ∈ slots, s.cap ≤ s.level ∨ r < s.weight := by
  induction slots with
  | nil => simp
  | cons s slots ih =>
    have hpos := (hvalid s List.mem_cons_self).weight_pos
    by_cases hs : s.level < s.cap ∧ s.weight ≤ r
    · simp only [dole, if_pos hs] at h
      have := dole_fst_le (r - s.weight) slots
      omega
    · simp only [dole, if_neg hs] at h
      intro t ht
      rcases List.mem_cons.mp ht with rfl | ht
      · omega
      · exact ih (fun u hu => hvalid u (List.mem_cons_of_mem _ hu)) h t ht

variable {slots' : List Slot}

/-- What a round is: an equal share that `r` covers, or a unit pass that gave
something. -/
theorem round_cases (h : round r slots = some (r', slots')) :
    r ≠ 0 ∧ ((∃ share, 0 < share ∧ openWeight slots ≠ 0 ∧ share * openWeight slots ≤ r ∧
          r' = r + charge slots - charge (slots.map (raise share)) ∧
          slots' = slots.map (raise share)) ∨
        (r' ≠ r ∧ r' = (dole r slots).1 ∧ slots' = (dole r slots).2)) := by
  unfold round at h
  split at h
  · cases h
  case isFalse hgo =>
    rw [not_or] at hgo
    refine ⟨hgo.1, ?_⟩
    split at h
    case isTrue hle =>
      cases h
      refine Or.inl ⟨r / openWeight slots, ?_, hgo.2, ?_, rfl, rfl⟩
      · exact Nat.div_pos hle (Nat.pos_of_ne_zero hgo.2)
      · exact Nat.div_mul_le_self _ _
    · split at h
      · cases h
      case isFalse hne =>
        have hpair := Option.some.inj h
        exact Or.inr ⟨by rwa [hpair] at hne, by rw [hpair], by rw [hpair]⟩

theorem round_charge (h : round r slots = some (r', slots')) :
    r' + charge slots' = r + charge slots := by
  obtain ⟨-, ⟨share, -, -, hcover, rfl, rfl⟩ | ⟨-, rfl, rfl⟩⟩ := round_cases h
  · have := (charge_raise share slots).2
    omega
  · exact dole_charge r slots

theorem round_lt (h : round r slots = some (r', slots')) : r' < r := by
  obtain ⟨-, ⟨share, hpos, hopen, hcover, rfl, rfl⟩ | ⟨hne, rfl, rfl⟩⟩ :=
    round_cases h
  · have := charge_lt_raise hpos hopen
    have := (charge_raise share slots).2
    omega
  · have := dole_fst_le r slots
    omega

/-- A slot after some rounds: the same weight and cap, a level that only went
up and is still within the cap. -/
structure Grown (s s' : Slot) : Prop where
  weight : s'.weight = s.weight
  cap : s'.cap = s.cap
  level_le : s.level ≤ s'.level
  level_le_cap : s.level ≤ s.cap → s'.level ≤ s.cap

theorem Grown.refl (s : Slot) : Grown s s :=
  ⟨rfl, rfl, Nat.le_refl _, id⟩

theorem Grown.trans {t u : Slot} (h : Grown s t) (h' : Grown t u) : Grown s u where
  weight := h'.weight.trans h.weight
  cap := h'.cap.trans h.cap
  level_le := h.level_le.trans h'.level_le
  level_le_cap hs := by
    have := h'.level_le_cap (by rw [h.cap]; exact h.level_le_cap hs)
    rwa [h.cap] at this

theorem raise_grown (s : Slot) : Grown s (raise share s) where
  weight := rfl
  cap := rfl
  level_le := by rw [raise_level]; omega
  level_le_cap hs := by rw [raise_level]; omega

theorem Doled.grown (h : Doled r rest s s') : Grown s s' := by
  rcases h with ⟨rfl, hopen, -⟩ | ⟨rfl, -⟩
  · exact ⟨rfl, rfl, Nat.le_succ _, fun _ => hopen⟩
  · exact Grown.refl _

theorem forall₂_grown_trans {slots'' : List Slot} (h : List.Forall₂ Grown slots slots')
    (h' : List.Forall₂ Grown slots' slots'') : List.Forall₂ Grown slots slots'' := by
  induction h generalizing slots'' with
  | nil => exact h'
  | cons hs _ ih =>
    cases h' with
    | cons hs' hrest => exact List.Forall₂.cons (hs.trans hs') (ih hrest)

theorem round_grown (h : round r slots = some (r', slots')) : List.Forall₂ Grown slots slots' := by
  obtain ⟨-, ⟨share, -, -, -, -, rfl⟩ | ⟨-, -, rfl⟩⟩ := round_cases h
  · rw [List.forall₂_map_right_iff]
    exact List.forall₂_same.mpr fun s _ => raise_grown share s
  · exact (dole_doled r slots).imp fun _ _ h => h.grown

theorem forall₂_grown_valid (h : List.Forall₂ Grown slots slots') (hvalid : ∀ s ∈ slots, s.Valid) :
    ∀ s ∈ slots', s.Valid := by
  induction h with
  | nil => simp
  | @cons s s' slots slots' hs _ ih =>
    have hhead := hvalid s List.mem_cons_self
    intro t ht
    rcases List.mem_cons.mp ht with rfl | ht
    · exact ⟨hs.cap ▸ hs.level_le_cap hhead.level_le, hs.weight ▸ hhead.weight_pos⟩
    · exact ih (fun u hu => hvalid u (List.mem_cons_of_mem _ hu)) t ht

theorem forall₂_grown_weight (h : List.Forall₂ Grown slots slots') :
    slots'.map Slot.weight = slots.map Slot.weight := by
  induction h with
  | nil => rfl
  | cons hs _ ih => rw [List.map_cons, List.map_cons, hs.weight, ih]

/-- Two slots of the same cap and of weight one are level, or the amount is
spent and the earlier one is one unit ahead. -/
def Even (r : ℕ) (s t : Slot) : Prop :=
  s.cap = t.cap → s.weight = 1 → t.weight = 1 → s.level = t.level ∨ (r = 0 ∧ s.level = t.level + 1)

theorem pairwise_even_raise {share : ℕ} (hr : r ≠ 0)
    (h : slots.Pairwise (Even r)) : (slots.map (raise share)).Pairwise (Even r') := by
  rw [List.pairwise_map]
  refine h.imp ?_
  intro s t hst hcap hs ht
  rcases hst hcap hs ht with hlevel | ⟨hzero, -⟩
  · refine Or.inl ?_
    rw [raise_level, raise_level, hlevel, show s.cap = t.cap from hcap]
  · exact absurd hzero hr

theorem even_dole_head {r₁ : ℕ} {t t' : Slot}
    (hs : (s' = { s with level := s.level + 1 } ∧ s.level < s.cap) ∨
      (s' = s ∧ r₁ = r ∧ (s.cap ≤ s.level ∨ r < s.weight)))
    (ht : Doled r₁ rest t t') (hlevel : Even 1 s t) : Even rest s' t' := by
  intro hcap hsw htw
  have hgrown := ht.grown
  have hs' : s'.cap = s.cap ∧ s'.weight = s.weight := by
    rcases hs with ⟨rfl, -⟩ | ⟨rfl, -⟩ <;> exact ⟨rfl, rfl⟩
  have hcap' : s.cap = t.cap := by rw [← hs'.1, hcap, hgrown.cap]
  have hsw' : s.weight = 1 := hs'.2 ▸ hsw
  have htw' : t.weight = 1 := hgrown.weight ▸ htw
  have heq : s.level = t.level := by
    rcases hlevel hcap' hsw' htw' with heq | ⟨hone, -⟩
    · exact heq
    · omega
  rcases hs with ⟨rfl, hopen⟩ | ⟨rfl, rfl, hkept⟩
  · rcases ht with ⟨rfl, -, -⟩ | ⟨rfl, hfull | hlow⟩
    · exact Or.inl (by simp [heq])
    · omega
    · exact Or.inr ⟨by omega, by simp [heq]⟩
  · rcases ht with ⟨rfl, hopen, hle⟩ | ⟨rfl, -⟩
    · omega
    · exact Or.inl heq

theorem pairwise_even_dole (h : slots.Pairwise (Even 1)) :
    (dole r slots).2.Pairwise (Even (dole r slots).1) := by
  induction slots generalizing r with
  | nil => simp [dole]
  | cons s slots ih =>
    rw [List.pairwise_cons] at h
    have hlater : ∀ r₁ : ℕ, ∀ t' ∈ (dole r₁ slots).2,
        ∃ t ∈ slots, Doled r₁ (dole r₁ slots).1 t t' := by
      intro r₁ t' ht'
      obtain ⟨i, hi, rfl⟩ := List.mem_iff_getElem.mp ht'
      have hlen := (dole_doled r₁ slots).length_eq
      exact ⟨slots[i], List.getElem_mem _, (dole_doled r₁ slots).get (by omega) hi⟩
    by_cases hs : s.level < s.cap ∧ s.weight ≤ r
    · simp only [dole, if_pos hs, List.pairwise_cons]
      refine ⟨fun t' ht' => ?_, ih h.2⟩
      obtain ⟨t, ht, hdoled⟩ := hlater _ t' ht'
      exact even_dole_head (r := r) (Or.inl ⟨rfl, hs.1⟩) hdoled (h.1 t ht)
    · simp only [dole, if_neg hs, List.pairwise_cons]
      refine ⟨fun t' ht' => ?_, ih h.2⟩
      obtain ⟨t, ht, hdoled⟩ := hlater _ t' ht'
      exact even_dole_head (Or.inr ⟨rfl, rfl, by omega⟩) hdoled (h.1 t ht)

theorem round_even (h : round r slots = some (r', slots')) (heven : slots.Pairwise (Even r)) :
    slots'.Pairwise (Even r') := by
  obtain ⟨hr, ⟨share, -, -, -, -, rfl⟩ | ⟨-, rfl, rfl⟩⟩ := round_cases h
  · exact pairwise_even_raise hr heven
  · refine pairwise_even_dole (heven.imp ?_)
    intro s t hst hcap hs ht
    rcases hst hcap hs ht with hlevel | ⟨hzero, -⟩
    · exact Or.inl hlevel
    · exact absurd hzero hr

theorem round_eq_none (hvalid : ∀ s ∈ slots, s.Valid) (h : round r slots = none) :
    ∀ s ∈ slots, s.cap ≤ s.level ∨ r < s.weight := by
  unfold round at h
  split at h
  case isTrue hstop =>
    intro s hs
    rcases hstop with rfl | hfull
    · exact Or.inr (hvalid s hs).weight_pos
    · exact Or.inl (openWeight_eq_zero hvalid hfull s hs)
  · split at h
    · cases h
    · split at h
      case isTrue hsame => exact dole_unchanged hvalid hsame
      · cases h

theorem Settles.induct (P : ℕ → List Slot → Prop) (h : Settles r slots r' slots')
    (hstep : ∀ {r r' : ℕ} {slots slots' : List Slot},
      round r slots = some (r', slots') → P r slots → P r' slots')
    (hstart : P r slots) : P r' slots' := by
  induction h with
  | stop _ => exact hstart
  | step hround _ ih => exact ih (hstep hround hstart)

theorem Settles.charge (h : Settles r slots r' slots') :
    r' + WaterFill.charge slots' = r + WaterFill.charge slots :=
  Settles.induct (fun q ss => q + WaterFill.charge ss = r + WaterFill.charge slots) h
    (fun hround hkept => (round_charge hround).trans hkept) rfl

theorem Settles.grown (h : Settles r slots r' slots') : List.Forall₂ Grown slots slots' :=
  Settles.induct (fun _ ss => List.Forall₂ Grown slots ss) h
    (fun hround hkept => forall₂_grown_trans hkept (round_grown hround))
    (List.forall₂_same.mpr fun s _ => Grown.refl s)

theorem Settles.even
    (h : Settles r slots r' slots') (heven : slots.Pairwise (Even r)) : slots'.Pairwise (Even r') :=
  Settles.induct (fun q ss => ss.Pairwise (Even q)) h
    (fun hround hkept => round_even hround hkept) heven

/-- At the end every slot is full or its next unit costs more than what is
left. -/
theorem Settles.spent (h : Settles r slots r' slots') (hvalid : ∀ s ∈ slots, s.Valid) :
    ∀ s ∈ slots', s.cap ≤ s.level ∨ r' < s.weight := by
  induction h with
  | stop hnone => exact round_eq_none hvalid hnone
  | step hround _ ih =>
    exact ih (forall₂_grown_valid (round_grown hround) hvalid)

/-- The level of the slot at position `i` among `n` alike slots that share `r`:
an equal share each, one more unit for the first `r % n` of them, and never above
the cap. -/
def uniformLevel (level cap n r i : ℕ) : ℕ :=
  min cap (level + r / n + if i < r % n then 1 else 0)

/-- The slots after sharing `r` among `n` alike slots of weight one. -/
def uniformSlots (level cap n r : ℕ) : List Slot :=
  (List.range n).map fun i => ⟨uniformLevel level cap n r i, 1, cap⟩

theorem openWeight_replicate (n level cap : ℕ) : openWeight (List.replicate n ⟨level, 1, cap⟩) =
      if level < cap then n else 0 := by
  induction n with
  | zero => simp
  | succ n ih =>
    rw [List.replicate_succ, openWeight_cons, ih]
    split <;> simp [Nat.add_comm]

theorem charge_replicate (n level cap : ℕ) :
    charge (List.replicate n ⟨level, 1, cap⟩) = n * level := by
  simp [charge]

variable {cap level n : ℕ}

theorem dole_replicate (hopen : level < cap) (hr : r ≤ n) :
    dole r (List.replicate n ⟨level, 1, cap⟩) = (0, List.replicate r ⟨level + 1, 1, cap⟩ ++
        List.replicate (n - r) ⟨level, 1, cap⟩) := by
  induction n generalizing r with
  | zero =>
    obtain rfl : r = 0 := by omega
    rfl
  | succ n ih =>
    rw [List.replicate_succ, dole]
    cases r with
    | zero =>
      rw [if_neg (by simp), ih (Nat.zero_le n)]
      simp [List.replicate_succ]
    | succ r =>
      rw [if_pos ⟨hopen, by simp⟩, Nat.add_sub_cancel, ih (by omega)]
      simp [List.replicate_succ]

theorem uniformSlots_of_share (hfull : cap ≤ level + r / n) :
    uniformSlots level cap n r = List.replicate n ⟨cap, 1, cap⟩ := by
  rw [List.eq_replicate_iff]
  refine ⟨by simp [uniformSlots], ?_⟩
  intro s hs
  obtain ⟨i, -, rfl⟩ := List.mem_map.mp hs
  have : uniformLevel level cap n r i = cap := by
    unfold uniformLevel
    omega
  simp [this]

theorem uniformSlots_of_room (hn : 0 < n) (hroom : level + r / n < cap) :
    uniformSlots level cap n r = List.replicate (r % n) ⟨level + r / n + 1, 1, cap⟩ ++
        List.replicate (n - r % n) ⟨level + r / n, 1, cap⟩ := by
  have hlt := Nat.mod_lt r hn
  apply List.ext_getElem
  · simp [uniformSlots]
    omega
  · intro i hi _
    rw [List.getElem_append]
    simp only [uniformSlots, List.length_map, List.length_range] at hi
    simp only [uniformSlots, List.getElem_map, List.getElem_range,
      List.length_replicate, uniformLevel, List.getElem_replicate]
    split
    · rw [Nat.min_eq_right (by omega)]
    · rw [Nat.add_zero, Nat.min_eq_right (by omega)]

theorem charge_uniformSlots (hn : 0 < n) : charge (uniformSlots level cap n r) =
      min cap (level + r / n) * n + if cap ≤ level + r / n then 0 else r % n := by
  by_cases hfull : cap ≤ level + r / n
  · rw [uniformSlots_of_share hfull, charge_replicate, if_pos hfull,
      Nat.min_eq_left hfull, Nat.mul_comm, Nat.add_zero]
  · have hlt := Nat.mod_lt r hn
    rw [uniformSlots_of_room hn (by omega), if_neg hfull, Nat.min_eq_right (by omega)]
    have happend : ∀ ss ts : List Slot, charge (ss ++ ts) = charge ss + charge ts := by
      intro ss ts
      simp [charge]
    rw [happend, charge_replicate, charge_replicate, Nat.mul_add, Nat.mul_one]
    have hsplit : r % n * (level + r / n) + (n - r % n) * (level + r / n) =
        (level + r / n) * n := by
      rw [← Nat.add_mul, Nat.mul_comm]
      congr 1
      omega
    omega

theorem Settles.eq_of_none
    (h : Settles r slots r' slots') (hnone : round r slots = none) : slots' = slots := by
  cases h with
  | stop _ => rfl
  | step hround _ => simp [hnone] at hround

theorem Settles.of_round {r₁ : ℕ} {slots₁ : List Slot}
    (h : Settles r slots r' slots') (hround : round r slots = some (r₁, slots₁)) :
    Settles r₁ slots₁ r' slots' := by
  cases h with
  | stop hnone => simp [hnone] at hround
  | step hround' rest =>
    rw [hround] at hround'
    cases hround'
    exact rest

/-- Less than one unit each: the first `r` slots get one. -/
theorem Settles.uniform_of_lt
    (h : Settles r (List.replicate n ⟨level, 1, cap⟩) r' slots') (hr : r < n)
    (hopen : level < cap) : slots' = List.replicate r ⟨level + 1, 1, cap⟩ ++
      List.replicate (n - r) ⟨level, 1, cap⟩ := by
  by_cases hzero : r = 0
  · subst hzero
    rw [h.eq_of_none (by simp [round])]
    simp
  · have hweight : openWeight (List.replicate n ⟨level, 1, cap⟩) = n := by
      rw [openWeight_replicate, if_pos hopen]
    have hdole := dole_replicate hopen hr.le
    have hround : round r (List.replicate n ⟨level, 1, cap⟩) =
        some (0, List.replicate r ⟨level + 1, 1, cap⟩ ++
          List.replicate (n - r) ⟨level, 1, cap⟩) := by
      rw [round, hweight, hdole, if_neg (by omega), if_neg (by omega),
        if_neg (by simpa using Ne.symm hzero)]
    exact (h.of_round hround).eq_of_none (by simp [round])

theorem Settles.uniform
    (h : Settles r (List.replicate n ⟨level, 1, cap⟩) r' slots') (hn : 0 < n) (hle : level ≤ cap) :
    slots' = uniformSlots level cap n r := by
  have hweight := openWeight_replicate n level cap
  by_cases hopen : level < cap
  · rw [if_pos hopen] at hweight
    by_cases hshare : n ≤ r
    · have hround : round r (List.replicate n ⟨level, 1, cap⟩) =
          some (r + n * level - n * (level + min (r / n) (cap - level)),
            List.replicate n ⟨level + min (r / n) (cap - level), 1, cap⟩) := by
        rw [round, hweight, if_neg (by omega), if_pos hshare]
        simp only [List.map_replicate, raise, charge_replicate]
      have hrest := h.of_round hround
      by_cases hfull : cap ≤ level + r / n
      · have hmin : level + min (r / n) (cap - level) = cap := by omega
        rw [hmin] at hrest
        rw [uniformSlots_of_share hfull]
        refine hrest.eq_of_none ?_
        rw [round, openWeight_replicate, if_neg (Nat.lt_irrefl cap), if_pos (Or.inr rfl)]
      · have hmin : min (r / n) (cap - level) = r / n := by omega
        have hmod : r + n * level - n * (level + r / n) = r % n := by
          have hdiv := Nat.div_add_mod r n
          rw [Nat.mul_add]
          omega
        rw [hmin, hmod] at hrest
        rw [uniformSlots_of_room hn (by omega)]
        exact hrest.uniform_of_lt (Nat.mod_lt r hn) (by omega)
    · have hdiv : r / n = 0 := Nat.div_eq_of_lt (by omega)
      have hmod : r % n = r := Nat.mod_eq_of_lt (by omega)
      have hlevels := h.uniform_of_lt (by omega) hopen
      rw [hlevels, uniformSlots_of_room hn (by omega), hdiv, hmod]
      rfl
  · have hfull : level = cap := by omega
    subst hfull
    rw [uniformSlots_of_share (Nat.le_add_right _ _)]
    refine h.eq_of_none ?_
    rw [round, hweight, if_neg (Nat.lt_irrefl level), if_pos (Or.inr rfl)]

end WaterFill
