import Zlink.AutoHwm.Finalize
import Zlink.Lib.WaterFill

/-!
# The allocation loop is integer water filling

A `DirectionPlanRef` is a slot of `WaterFill`: its level is the HWM, its weight
the queue count and its cap the maximum of its role. Each pass of the loop is
the corresponding pass of `WaterFill` on these slots, computed without a wrap,
and the loop settles: it ends by one of its own exits for every input.
-/

namespace Zlink.AutoHwm

open Word64 WaterFill

def DirectionPlanRef.slot (d : DirectionPlanRef) : Slot :=
  ⟨d.hwm.toNat, d.queueCount.toNat, d.maximum.toNat⟩

def slots (directions : List DirectionPlanRef) : List Slot :=
  directions.map DirectionPlanRef.slot

@[simp] theorem slots_nil : slots [] = [] := rfl

@[simp] theorem slots_cons (d : DirectionPlanRef) (ds : List DirectionPlanRef) :
    slots (d :: ds) = d.slot :: slots ds := rfl

theorem unsaturatedCount_spec (ds : List DirectionPlanRef) (count : UInt64)
    (hfit : count.toNat + openWeight (slots ds) < 2 ^ 64) :
    ∃ total, unsaturatedCount ds count false = .ok (total, false) ∧
      total.toNat = count.toNat + openWeight (slots ds) := by
  induction ds generalizing count with
  | nil => exact ⟨count, rfl, by simp⟩
  | cons d ds ih =>
    rw [slots_cons, openWeight_cons] at hfit ⊢
    by_cases hopen : d.hwm < d.maximum
    · have hslot : d.slot.level < d.slot.cap :=
        UInt64.lt_iff_toNat_lt.mp hopen
      rw [if_pos hslot] at hfit ⊢
      change count.toNat + (d.queueCount.toNat + _) < _ at hfit
      obtain ⟨sum, hsum, hsumNat⟩ := saturatingAdd_of_lt count d.queueCount
        false (by omega)
      obtain ⟨total, htotal, htotalNat⟩ := ih sum (by omega)
      refine ⟨total, ?_, ?_⟩
      · simp [unsaturatedCount, hopen, hsum, htotal]
      · change _ = count.toNat + (d.queueCount.toNat + _)
        omega
    · have hslot : ¬d.slot.level < d.slot.cap := fun h =>
        hopen (UInt64.lt_iff_toNat_lt.mpr h)
      rw [if_neg hslot, Nat.zero_add] at hfit ⊢
      obtain ⟨total, htotal, htotalNat⟩ := ih count hfit
      exact ⟨total, by simp [unsaturatedCount, hopen, htotal], htotalNat⟩

/-- One open direction of a share pass. The budget left covers the share for
every open queue, so the third bound of the grant is never the smallest. -/
theorem shareGrant_spec {share : UInt64} (remaining : UInt64) {d : DirectionPlanRef}
    (hshare : 0 < share.toNat) (hopen : d.slot.level < d.slot.cap) (hpos : 0 < d.queueCount.toNat)
    (hcover : share.toNat * d.queueCount.toNat ≤ remaining.toNat) :
    ∃ headroom grant hwm bytes rest : UInt64, subExact d.maximum d.hwm = .ok headroom ∧
      grant = min (min share headroom) (remaining / d.queueCount) ∧ grant ≠ 0 ∧
      addExact d.hwm grant = .ok hwm ∧ mulExact grant d.queueCount = .ok bytes ∧
      subExact remaining bytes = .ok rest ∧ ({ d with hwm := hwm } : DirectionPlanRef).slot =
        raise share.toNat d.slot ∧ rest.toNat + share.toNat * d.queueCount.toNat ≥ remaining.toNat ∧
      rest.toNat + hwm.toNat * d.queueCount.toNat =
        remaining.toNat + d.hwm.toNat * d.queueCount.toNat := by
  change d.hwm.toNat < d.maximum.toNat at hopen
  obtain ⟨headroom, hheadroom, hheadroomNat⟩ :=
    subExact_of_le (a := d.maximum) (b := d.hwm) hopen.le
  have hdiv : share.toNat ≤ (remaining / d.queueCount).toNat := by
    rw [UInt64.toNat_div]
    exact (Nat.le_div_iff_mul_le hpos).mpr hcover
  set grant := min (min share headroom) (remaining / d.queueCount) with hgrant
  have hgrantNat : grant.toNat = min share.toNat (d.maximum.toNat - d.hwm.toNat) := by
    rw [hgrant, toNat_min, toNat_min, hheadroomNat]
    omega
  have hmax := toNat_lt_pow d.maximum
  obtain ⟨hwm, hhwm, hhwmNat⟩ :=
    addExact_of_lt (a := d.hwm) (b := grant) (by omega)
  have hcost : grant.toNat * d.queueCount.toNat ≤ share.toNat * d.queueCount.toNat :=
    Nat.mul_le_mul_right _ (by omega)
  have hremaining := toNat_lt_pow remaining
  obtain ⟨bytes, hbytes, hbytesNat⟩ :=
    mulExact_of_lt (a := grant) (b := d.queueCount) (by omega)
  obtain ⟨rest, hrest, hrestNat⟩ :=
    subExact_of_le (a := remaining) (b := bytes) (by omega)
  refine ⟨headroom, grant, hwm, bytes, rest, hheadroom, rfl, ?_, hhwm, hbytes,
    hrest, ?_, by omega, ?_⟩
  · rw [Ne, eq_zero_iff]
    omega
  · simp [DirectionPlanRef.slot, raise, hhwmNat, hgrantNat]
  · rw [hhwmNat, Nat.add_mul]
    omega

theorem sharePass_spec {share : UInt64} (remaining : UInt64) {ds : List DirectionPlanRef}
    (hshare : 0 < share.toNat) (hvalid : ∀ s ∈ slots ds, s.Valid)
    (hcover : share.toNat * openWeight (slots ds) ≤ remaining.toNat) : ∃ remaining' ds' granted,
      sharePass share remaining ds = .ok (remaining', ds', granted) ∧
      slots ds' = (slots ds).map (raise share.toNat) ∧ remaining'.toNat + charge (slots ds') =
        remaining.toNat + charge (slots ds) ∧ (openWeight (slots ds) ≠ 0 → granted = true) := by
  induction ds generalizing remaining with
  | nil => exact ⟨remaining, [], false, rfl, rfl, rfl, by simp⟩
  | cons d ds ih =>
    have hhead := hvalid d.slot List.mem_cons_self
    have htail : ∀ s ∈ slots ds, s.Valid := fun s hs =>
      hvalid s (List.mem_cons_of_mem _ hs)
    rw [slots_cons, openWeight_cons] at hcover
    by_cases hfull : d.maximum ≤ d.hwm
    · have hslot : ¬d.slot.level < d.slot.cap :=
        Nat.not_lt.mpr (UInt64.le_iff_toNat_le.mp hfull)
      rw [if_neg hslot, Nat.zero_add] at hcover
      obtain ⟨remaining', ds', granted, hpass, hslots, hcharge, hgranted⟩ :=
        ih remaining htail hcover
      refine ⟨remaining', d :: ds', granted, ?_, ?_, ?_, ?_⟩
      · simp [sharePass, hfull, hpass]
      · have hsame : raise share.toNat d.slot = d.slot := by
          have hzero : d.slot.cap - d.slot.level = 0 := by omega
          simp [raise, hzero]
        simp [hslots, hsame]
      · simp only [slots_cons, charge_cons]
        omega
      · rw [slots_cons, openWeight_cons, if_neg hslot, Nat.zero_add]
        exact hgranted
    · have hslot : d.slot.level < d.slot.cap :=
        UInt64.lt_iff_toNat_lt.mp (UInt64.not_le.mp hfull)
      rw [if_pos hslot, Nat.mul_add] at hcover
      change share.toNat * d.queueCount.toNat + _ ≤ _ at hcover
      obtain ⟨headroom, grant, hwm, bytes, rest, hheadroom, hgrant, hne, hhwm,
        hbytes, hrest, hraise, hleft, hcost⟩ := shareGrant_spec
          remaining hshare hslot hhead.weight_pos (by omega)
      obtain ⟨remaining', ds', granted, hpass, hslots, hcharge, -⟩ :=
        ih rest htail (by omega)
      refine ⟨remaining', { d with hwm := hwm } :: ds', true, ?_, ?_, ?_, fun _ => rfl⟩
      · simp [sharePass, hfull, hheadroom, ← hgrant, hne, hhwm, hbytes, hrest, hpass]
      · rw [slots_cons, slots_cons, List.map_cons, hraise, hslots]
      · simp only [slots_cons, charge_cons]
        change _ + (hwm.toNat * d.queueCount.toNat + _) =
          _ + (d.hwm.toNat * d.queueCount.toNat + _)
        omega

/-- A unit pass is `dole`, and it reports whether it gave anything. -/
theorem unitPass_spec (remaining : UInt64) {ds : List DirectionPlanRef}
    (hvalid : ∀ s ∈ slots ds, s.Valid) : ∃ remaining' ds' granted,
      unitPass remaining ds = .ok (remaining', ds', granted) ∧
      dole remaining.toNat (slots ds) = (remaining'.toNat, slots ds') ∧
      (granted = false ↔ remaining' = remaining) ∧ (granted = false → ds' = ds) := by
  induction ds generalizing remaining with
  | nil => exact ⟨remaining, [], false, rfl, rfl, by simp, by simp⟩
  | cons d ds ih =>
    have hhead := hvalid d.slot List.mem_cons_self
    have htail : ∀ s ∈ slots ds, s.Valid := fun s hs =>
      hvalid s (List.mem_cons_of_mem _ hs)
    have hskip : (d.maximum ≤ d.hwm ∨ remaining < d.queueCount) ↔
        ¬(d.slot.level < d.slot.cap ∧ d.slot.weight ≤ remaining.toNat) := by
      rw [UInt64.le_iff_toNat_le, UInt64.lt_iff_toNat_lt, not_and_or, Nat.not_lt, Nat.not_le]
      rfl
    by_cases hs : d.maximum ≤ d.hwm ∨ remaining < d.queueCount
    · obtain ⟨remaining', ds', granted, hpass, hdole, hgranted, hsame⟩ :=
        ih remaining htail
      refine ⟨remaining', d :: ds', granted, ?_, ?_, hgranted, ?_⟩
      · simp [unitPass, hs, hpass]
      · rw [slots_cons, dole, if_neg (hskip.mp hs), hdole, slots_cons]
      · intro h
        rw [hsame h]
    · have hopen := not_not.mp (mt hskip.mpr hs)
      have hroom : d.hwm.toNat < d.maximum.toNat := hopen.1
      have hmax := toNat_lt_pow d.maximum
      obtain ⟨hwm, hhwm, hhwmNat⟩ :=
        addExact_of_lt (a := d.hwm) (b := 1) (by
          change d.hwm.toNat + 1 < _
          omega)
      obtain ⟨rest, hrest, hrestNat⟩ := subExact_of_le (a := remaining) (b := d.queueCount) hopen.2
      obtain ⟨remaining', ds', granted, hpass, hdole, -, -⟩ :=
        ih rest htail
      have hle : remaining'.toNat ≤ rest.toNat := by
        have := dole_fst_le rest.toNat (slots ds)
        rwa [hdole] at this
      have hpos : 0 < d.queueCount.toNat := hhead.weight_pos
      refine ⟨remaining', { d with hwm := hwm } :: ds', true, ?_, ?_, ?_, by simp⟩
      · simp [unitPass, hs, hhwm, hrest, hpass]
      · change rest.toNat = remaining.toNat - d.slot.weight at hrestNat
        rw [slots_cons, dole, if_pos hopen, ← hrestNat, hdole, slots_cons]
        simp only [DirectionPlanRef.slot, hhwmNat]
        rfl
      · refine ⟨by simp, fun h => ?_⟩
        have hcost : d.queueCount.toNat ≤ remaining.toNat := hopen.2
        rw [h, hrestNat] at hle
        omega

/-- The loop settles: with fuel above the budget it never reports a wrap nor a
cut-off, and its overflow flag stays clear. -/
theorem allocate_spec (fuel : ℕ) (remaining : UInt64)
    (ds : List DirectionPlanRef) (hfuel : remaining.toNat < fuel) (hvalid : ∀ s ∈ slots ds, s.Valid)
    (hfit : ((slots ds).map Slot.weight).sum < 2 ^ 64) : ∃ remaining' ds',
      allocate fuel remaining ds false = .ok (remaining', ds', false) ∧
      Settles remaining.toNat (slots ds) remaining'.toNat (slots ds') := by
  induction fuel generalizing remaining ds with
  | zero => omega
  | succ fuel ih =>
    have hnext {remaining' : UInt64} {ds' : List DirectionPlanRef}
        (hround : WaterFill.round remaining.toNat (slots ds) = some (remaining'.toNat, slots ds')) :
        ∃ last ds'', allocate fuel remaining' ds' false = .ok (last, ds'', false) ∧
          Settles remaining.toNat (slots ds) last.toNat (slots ds'') := by
      obtain ⟨last, ds'', hloop, hsettles⟩ := ih remaining' ds'
        (by have := round_lt hround; omega) (forall₂_grown_valid (round_grown hround) hvalid)
        (by rwa [forall₂_grown_weight (round_grown hround)])
      exact ⟨last, ds'', hloop, Settles.step hround hsettles⟩
    have hopenFit := openWeight_le (slots ds)
    by_cases hzero : remaining = 0
    · refine ⟨remaining, ds, by simp [allocate, hzero], Settles.stop ?_⟩
      simp [WaterFill.round, hzero]
    · have hzeroNat : remaining.toNat ≠ 0 := mt (eq_zero_iff _).mpr hzero
      obtain ⟨unsaturated, hcount, hcountNat⟩ :=
        unsaturatedCount_spec ds 0 (by
          change 0 + _ < _
          omega)
      replace hcountNat : unsaturated.toNat = openWeight (slots ds) := by
        rw [hcountNat]
        exact Nat.zero_add _
      by_cases hnone : unsaturated = 0
      · refine ⟨remaining, ds, by simp [allocate, hzero, hcount, hnone], Settles.stop ?_⟩
        have : openWeight (slots ds) = 0 := by rw [← hcountNat, hnone]; rfl
        simp [WaterFill.round, this]
      · have hopen : openWeight (slots ds) ≠ 0 := by
          rw [← hcountNat]
          exact mt (eq_zero_iff _).mpr hnone
        have hgo : ¬(remaining.toNat = 0 ∨ openWeight (slots ds) = 0) := by
          simp [hzeroNat, hopen]
        have hshareNat : (remaining / unsaturated).toNat =
            remaining.toNat / openWeight (slots ds) := by
          rw [UInt64.toNat_div, hcountNat]
        by_cases hshare : 0 < remaining / unsaturated
        · have hsharePos : 0 < (remaining / unsaturated).toNat :=
            (toNat_pos_iff _).mp hshare
          have hcover : (remaining / unsaturated).toNat *
              openWeight (slots ds) ≤ remaining.toNat := by
            rw [hshareNat]
            exact Nat.div_mul_le_self _ _
          obtain ⟨remaining', ds', granted, hpass, hslots, hcharge,
            hgranted⟩ := sharePass_spec remaining hsharePos hvalid hcover
          have hle : openWeight (slots ds) ≤ remaining.toNat := by
            rw [hshareNat] at hsharePos
            exact Nat.le_of_not_lt fun h => by
              rw [Nat.div_eq_of_lt h] at hsharePos
              omega
          have hround : WaterFill.round remaining.toNat (slots ds) =
              some (remaining'.toNat, slots ds') := by
            rw [WaterFill.round, if_neg hgo, if_pos hle, ← hshareNat, ← hslots]
            exact congrArg some (Prod.ext (by simp only; omega) rfl)
          obtain ⟨remaining'', ds'', hloop, hsettles⟩ := hnext hround
          refine ⟨remaining'', ds'', ?_, hsettles⟩
          simp [allocate, hzero, hcount, hnone, hshare, hpass, hgranted hopen, hloop]
        · have hlt : ¬openWeight (slots ds) ≤ remaining.toNat := fun h => by
            apply hshare
            rw [toNat_pos_iff, hshareNat]
            exact Nat.div_pos h (Nat.pos_of_ne_zero hopen)
          obtain ⟨remaining', ds', granted, hpass, hdole, hgranted, hsame⟩ :=
            unitPass_spec remaining hvalid
          by_cases hstop : granted = false
          · have heq := hgranted.mp hstop
            refine ⟨remaining, ds, ?_, Settles.stop ?_⟩
            · simp [allocate, hzero, hcount, hnone, hshare, hpass, hstop, heq, hsame hstop]
            · rw [WaterFill.round, if_neg hgo, if_neg hlt, hdole, heq, if_pos rfl]
          · have hne : remaining'.toNat ≠ remaining.toNat := fun h =>
              hstop (hgranted.mpr (UInt64.ext_iff.mpr h))
            have hround : WaterFill.round remaining.toNat (slots ds) =
                some (remaining'.toNat, slots ds') := by
              rw [WaterFill.round, if_neg hgo, if_neg hlt, hdole, if_neg hne]
            obtain ⟨remaining'', ds'', hloop, hsettles⟩ := hnext hround
            refine ⟨remaining'', ds'', ?_, hsettles⟩
            simp [allocate, hzero, hcount, hnone, hshare, hpass, hstop, hloop]

end Zlink.AutoHwm
