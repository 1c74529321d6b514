import Zlink.Ledger.Charges

/-!
# Marks that wait for a queue to drain

A queue that is fuller than its new mark keeps the old one until it has drained so far. The mark is
looked at again wherever the registry takes bytes off the queue, and for a queue whose bytes are
counted by its pipe, wherever the reader gives credit. `applied_or_deferred` says that a planned
mark is in force, or lies below everything that the queue has held since it was planned.
-/

namespace Zlink.Ledger

open Word64 AutoHwm

namespace Direction

def refreshApplicationHwmIfDrained (sampled : UInt64) (direction : Direction) : Direction :=
  if direction.plannedHwm = direction.appliedHwm then direction
  else if accountingLane direction.lane ≠ .application then direction
  else if direction.plannedHwm = 0 ∨
      direction.currentAccountedBytes sampled ≤ direction.plannedHwm then
    { direction with appliedHwm := direction.plannedHwm }
  else direction

inductive Accounting where
  | account (frameBytes : UInt64)
  | commit (provisionalFrameBytes finalFrameBytes : UInt64)
      (countedMessage oversizeAdmission : Bool)
  | rollback (frameBytes : UInt64)
  | release (frameBytes countedMessageCount : UInt64)

def Accounting.operation : Accounting → Operation
  | .account frameBytes => accountProvisionalFrame frameBytes
  | .commit provisionalFrameBytes finalFrameBytes countedMessage oversizeAdmission =>
    commitMessage provisionalFrameBytes finalFrameBytes countedMessage oversizeAdmission
  | .rollback frameBytes => rollbackProvisional frameBytes
  | .release frameBytes countedMessageCount =>
    releaseCommittedFrame frameBytes countedMessageCount

def Below (mark other : UInt64) : Prop :=
  mark ≠ 0 ∧ (other = 0 ∨ mark < other)

inductive HwmStep : Direction → UInt64 → Bool → Direction → Prop where
  | update (d : Direction) (target sampled : UInt64) :
      HwmStep d (d.currentAccountedBytes sampled) true (d.updateHwmTarget target sampled)
  | refresh (d : Direction) (sampled : UInt64) :
      HwmStep d (d.currentAccountedBytes sampled) false (d.refreshApplicationHwmIfDrained sampled)
  | count {d d' : Direction} {m m' : Metrics} (hlane : accountingLane d.lane ≠ .application)
      (a : Accounting) (h : a.operation d m = some (d', m')) :
      HwmStep d d'.currentQueueBytes false d'

inductive HwmRun : Direction → List UInt64 → Prop where
  | new (queueId hwm : UInt64) (lane : Lane) (minimumReservationBytes : UInt64) :
      HwmRun (.new queueId hwm lane minimumReservationBytes) []
  | step {d d' : Direction} {since : List UInt64} {occupancy : UInt64} {planned : Bool}
      (h : HwmRun d since) (hstep : HwmStep d occupancy planned d') :
      HwmRun d' (if planned then [occupancy] else occupancy :: since)

variable {d d' : Direction} {m m' : Metrics} {since : List UInt64} {occupancy : UInt64}
  {planned : Bool}

def held (count : ℕ) : ℕ := min maxWord.toNat count

theorem held_of_le {count : ℕ} (h : count ≤ maxWord.toNat) : held count = count := min_eq_right h

theorem held_of_ge {count : ℕ} (h : maxWord.toNat ≤ count) : held count = maxWord.toNat :=
  min_eq_left h

theorem held_mono {a b : ℕ} (h : a ≤ b) : held a ≤ held b := min_le_min_left _ h

theorem held_add_held (a b : ℕ) : held (a + held b) = held (a + b) := by
  rcases le_total b maxWord.toNat with h | h
  · rw [held_of_le h]
  · rw [held_of_ge h, held_of_ge (Nat.le_add_left _ _), held_of_ge (h.trans (Nat.le_add_left _ _))]

theorem toNat_saturatingAdd (a b : UInt64) (overflow : Bool) :
    (saturatingAdd a b overflow).1.toNat = held (a.toNat + b.toNat) := by
  have hlargest := toNat_maxWord
  have hle : a.toNat ≤ maxWord.toNat := by
    have ha := a.toNat_lt
    omega
  have hsub := toNat_sub_of_le hle
  rw [saturatingAdd]
  split
  · rename_i hover
    rw [UInt64.lt_iff_toNat_lt, hsub] at hover
    exact (held_of_ge (Nat.sub_le_iff_le_add'.mp hover.le)).symm
  · rename_i hfits
    rw [UInt64.lt_iff_toNat_lt, hsub, not_lt, Nat.le_sub_iff_add_le' hle] at hfits
    rw [toNat_add_of_lt (hfits.trans_lt maxWord.toNat_lt), held_of_le hfits]

theorem toNat_currentQueueBytes (d : Direction) : d.currentQueueBytes.toNat =
    held (d.provisionalAccountedBytes.toNat + d.committedAccountedBytes.toNat) := by
  rw [← toNat_saturatingAdd _ _ false, saturatingAdd, currentQueueBytes]
  split <;> rfl

theorem toNat_of_subtractExact {value amount left : UInt64}
    (h : subtractExact value amount = some left) : left.toNat + amount.toNat = value.toNat := by
  rw [subtractExact] at h
  split at h
  · rename_i hle
    obtain rfl := Option.some.inj h
    have hle := UInt64.le_iff_toNat_le.mp hle
    rw [toNat_sub_of_le hle]
    omega
  · cases h

structure Fills (d d' : Direction) : Prop where
  lane : d'.lane = d.lane
  plannedHwm : d'.plannedHwm = d.plannedHwm
  appliedHwm : d'.appliedHwm = d.appliedHwm
  le : d.currentQueueBytes.toNat ≤ d'.currentQueueBytes.toNat

theorem currentQueueBytes_congr
    (hprovisional : d'.provisionalAccountedBytes = d.provisionalAccountedBytes)
    (hcommitted : d'.committedAccountedBytes = d.committedAccountedBytes) :
    d'.currentQueueBytes = d.currentQueueBytes := by
  rw [currentQueueBytes, currentQueueBytes, hprovisional, hcommitted]

theorem toNat_of_takeProvisional {provisional left : UInt64}
    (h : d.takeProvisional provisional = some left) :
    left.toNat + provisional.toNat = d.provisionalAccountedBytes.toNat := by
  rw [takeProvisional] at h
  split at h
  · exact toNat_of_subtractExact h
  · rename_i hzero
    have hzero : provisional.toNat = 0 :=
      Nat.eq_zero_of_not_pos fun hpos => hzero (UInt64.lt_iff_toNat_lt.mpr hpos)
    rw [← Option.some.inj h, hzero, Nat.add_zero]

theorem fills_of_held {provisional committed : UInt64}
    (h : held (d.provisionalAccountedBytes.toNat + d.committedAccountedBytes.toNat) ≤
      held (provisional.toNat + committed.toNat)) : Fills d { d with
      provisionalAccountedBytes := provisional
      committedAccountedBytes := committed } where
  lane := rfl
  plannedHwm := rfl
  appliedHwm := rfl
  le := by
    rw [toNat_currentQueueBytes, toNat_currentQueueBytes]
    exact h

theorem fills_commitBytes {provisional final : UInt64}
    (h : commitBytes provisional final d m = some (d', m')) : Fills d d' := by
  obtain ⟨left, hleft, h⟩ := Option.map_eq_some_iff.mp h
  have htaken := toNat_of_takeProvisional hleft
  obtain ⟨rfl, -⟩ := Prod.mk.inj h
  apply fills_of_held
  rw [toNat_saturatingAdd, toNat_saturatingAdd, held_add_held, ← Nat.add_assoc, held_add_held]
  exact held_mono (by omega)

theorem Fills.congr {e : Direction} (h : Fills d d') (hlane : e.lane = d'.lane)
    (hplanned : e.plannedHwm = d'.plannedHwm) (happlied : e.appliedHwm = d'.appliedHwm)
    (hbytes : e.currentQueueBytes = d'.currentQueueBytes) : Fills d e where
  lane := hlane.trans h.lane
  plannedHwm := hplanned.trans h.plannedHwm
  appliedHwm := happlied.trans h.appliedHwm
  le := by
    rw [hbytes]
    exact h.le

theorem fills_commitMessage {provisional final : UInt64} {counted oversize : Bool}
    (h : commitMessage provisional final counted oversize d m = some (d', m')) : Fills d d' := by
  rw [commitMessage] at h
  split at h
  · cases h
  obtain ⟨⟨e, n⟩, he, h⟩ := Option.bind_eq_some_iff.mp h
  have hfills := fills_commitBytes he
  split at h
  · rw [countOversize] at h
    split at h <;> obtain ⟨rfl, -⟩ := Prod.mk.inj (Option.some.inj h) <;> exact hfills
  · rw [countPending] at h
    split at h
    · obtain ⟨rfl, -⟩ := Prod.mk.inj (Option.some.inj h)
      exact hfills.congr rfl rfl rfl (currentQueueBytes_congr rfl rfl)
    · obtain ⟨rfl, -⟩ := Prod.mk.inj (Option.some.inj h)
      exact hfills
  · obtain ⟨rfl, -⟩ := Prod.mk.inj (Option.some.inj h)
    exact hfills

theorem operation_cases {a : Accounting} (h : a.operation d m = some (d', m')) :
    Fills d d' ∨ ∃ e : Direction, d' = e.applyDeferredHwmIfDrained ∧ e.lane = d.lane ∧
      e.plannedHwm = d.plannedHwm ∧ e.appliedHwm = d.appliedHwm := by
  have hself : Fills d d := ⟨rfl, rfl, rfl, le_rfl⟩
  cases a with
  | account frameBytes =>
    rw [Accounting.operation, accountProvisionalFrame] at h
    split at h
    · cases h
    dsimp only at h
    obtain ⟨rfl, -⟩ := Prod.mk.inj (Option.some.inj h)
    left
    apply fills_of_held
    rw [toNat_saturatingAdd, Nat.add_comm (held _), held_add_held]
    exact held_mono (by omega)
  | commit provisional final counted oversize => exact .inl (fills_commitMessage h)
  | rollback frameBytes =>
    rw [Accounting.operation, rollbackProvisional] at h
    split at h
    · obtain ⟨rfl, -⟩ := Prod.mk.inj (Option.some.inj h)
      exact .inl hself
    · obtain ⟨left, -, h⟩ := Option.map_eq_some_iff.mp h
      exact .inr ⟨_, (Prod.mk.inj h).1.symm, rfl, rfl, rfl⟩
  | release frameBytes count =>
    rw [Accounting.operation, releaseCommittedFrame] at h
    split at h
    · obtain ⟨rfl, -⟩ := Prod.mk.inj (Option.some.inj h)
      exact .inl hself
    · obtain ⟨left, -, h⟩ := Option.bind_eq_some_iff.mp h
      obtain ⟨pending, -, h⟩ := Option.map_eq_some_iff.mp h
      exact .inr ⟨_, (Prod.mk.inj h).1.symm, rfl, rfl, rfl⟩

def Ordered (d : Direction) : Prop :=
  d.appliedHwm = d.plannedHwm ∨ Below d.plannedHwm d.appliedHwm

/-- A queue whose bytes the registry counts is fuller than a mark that is not in force. -/
def Waits (d : Direction) : Prop :=
  accountingLane d.lane ≠ .application → d.appliedHwm ≠ d.plannedHwm →
    d.plannedHwm < d.currentQueueBytes

structure Looked (d : Direction) (occupancy : UInt64) (d' : Direction) : Prop where
  lane : d'.lane = d.lane
  plannedHwm : d'.plannedHwm = d.plannedHwm
  appliedHwm : d'.appliedHwm = d.plannedHwm ∨ d'.appliedHwm = d.appliedHwm
  drained : d'.appliedHwm ≠ d.appliedHwm → d.plannedHwm = 0 ∨ occupancy ≤ d.plannedHwm
  waits : d'.appliedHwm ≠ d.plannedHwm → d.plannedHwm < occupancy

theorem looked_applyDeferredHwmIfDrained (d : Direction) :
    Looked d d.currentQueueBytes d.applyDeferredHwmIfDrained := by
  rw [applyDeferredHwmIfDrained]
  split
  · rename_i hsame
    exact ⟨rfl, rfl, .inr rfl, fun hno => absurd rfl hno, fun hno => absurd hsame.symm hno⟩
  split
  · rename_i hdrained
    exact ⟨rfl, rfl, .inl rfl, fun _ => hdrained, fun hno => absurd rfl hno⟩
  · rename_i hfull
    rw [not_or, UInt64.not_le] at hfull
    exact ⟨rfl, rfl, .inr rfl, fun hno => absurd rfl hno, fun _ => hfull.2⟩

theorem currentQueueBytes_applyDeferredHwmIfDrained (d : Direction) :
    d.applyDeferredHwmIfDrained.currentQueueBytes = d.currentQueueBytes := by
  rw [applyDeferredHwmIfDrained]
  split_ifs <;> exact currentQueueBytes_congr rfl rfl

theorem currentAccountedBytes_of_counted {sampled : UInt64}
    (h : accountingLane d.lane ≠ .application) :
    d.currentAccountedBytes sampled = d.currentQueueBytes := if_neg h

theorem looked_refresh (h : Waits d) (sampled : UInt64) :
    Looked d (d.currentAccountedBytes sampled) (d.refreshApplicationHwmIfDrained sampled) := by
  rw [refreshApplicationHwmIfDrained]
  split
  · rename_i hsame
    exact ⟨rfl, rfl, .inr rfl, fun hno => absurd rfl hno, fun hno => absurd hsame.symm hno⟩
  split
  · rename_i hlane
    refine ⟨rfl, rfl, .inr rfl, fun hno => absurd rfl hno, fun hno => ?_⟩
    rw [currentAccountedBytes_of_counted hlane]
    exact h hlane hno
  split
  · rename_i hdrained
    exact ⟨rfl, rfl, .inl rfl, fun _ => hdrained, fun hno => absurd rfl hno⟩
  · rename_i hfull
    rw [not_or, UInt64.not_le] at hfull
    exact ⟨rfl, rfl, .inr rfl, fun hno => absurd rfl hno, fun _ => hfull.2⟩

theorem updateHwmTarget_cases (target sampled : UInt64) (d : Direction) :
    d.updateHwmTarget target sampled = { d with plannedHwm := target, appliedHwm := target } ∧
        (¬Below target d.appliedHwm ∨ d.currentAccountedBytes sampled ≤ target) ∨
      d.updateHwmTarget target sampled = { d with plannedHwm := target } ∧
        Below target d.appliedHwm ∧ target < d.currentAccountedBytes sampled := by
  have hgrows : (target = 0 ∨ d.appliedHwm ≠ 0 ∧ d.appliedHwm ≤ target) ↔
      ¬Below target d.appliedHwm := by
    rw [Below, not_and_or, not_not, not_or, UInt64.not_lt]
  rw [updateHwmTarget]
  split
  · rename_i h
    exact .inl ⟨rfl, h.imp_left hgrows.mp⟩
  · rename_i h
    rw [hgrows, not_or, not_not, UInt64.not_le] at h
    exact .inr ⟨rfl, h⟩

namespace Looked

theorem ordered (h : Looked d occupancy d') (hd : Ordered d) : Ordered d' := by
  rw [Ordered, h.plannedHwm]
  rcases h.appliedHwm with happlied | happlied
  · exact .inl happlied
  · rw [happlied]
    exact hd

theorem deferred (h : Looked d occupancy d') (hno : d'.appliedHwm ≠ d.plannedHwm) :
    d.appliedHwm ≠ d.plannedHwm := by
  rw [← h.appliedHwm.resolve_left hno]
  exact hno

end Looked

theorem looked_of_fills (h : Fills d d') (hlane : accountingLane d.lane ≠ .application)
    (hwaits : Waits d) : Looked d d'.currentQueueBytes d' where
  lane := h.lane
  plannedHwm := h.plannedHwm
  appliedHwm := .inr h.appliedHwm
  drained hchanged := absurd h.appliedHwm hchanged
  waits hno := by
    rw [h.appliedHwm] at hno
    exact UInt64.lt_iff_toNat_lt.mpr ((UInt64.lt_iff_toNat_lt.mp (hwaits hlane hno)).trans_le h.le)

theorem looked_operation {a : Accounting} (h : a.operation d m = some (d', m'))
    (hlane : accountingLane d.lane ≠ .application) (hwaits : Waits d) :
    Looked d d'.currentQueueBytes d' := by
  rcases operation_cases h with hfills | ⟨e, rfl, helane, hplanned, happlied⟩
  · exact looked_of_fills hfills hlane hwaits
  · have hlooked := looked_applyDeferredHwmIfDrained e
    rw [currentQueueBytes_applyDeferredHwmIfDrained]
    constructor
    · rw [hlooked.lane, helane]
    · rw [hlooked.plannedHwm, hplanned]
    · rw [← hplanned, ← happlied]
      exact hlooked.appliedHwm
    · rw [← hplanned, ← happlied]
      exact hlooked.drained
    · rw [← hplanned]
      exact hlooked.waits

theorem currentQueueBytes_refresh (d : Direction) (sampled : UInt64) :
    (d.refreshApplicationHwmIfDrained sampled).currentQueueBytes = d.currentQueueBytes := by
  rw [refreshApplicationHwmIfDrained]
  split_ifs <;> exact currentQueueBytes_congr rfl rfl

structure Deferred (d : Direction) (since : List UInt64) : Prop where
  ordered : Ordered d
  waits : Waits d
  exceeded : d.appliedHwm ≠ d.plannedHwm → ∀ o ∈ since, d.plannedHwm < o

theorem Deferred.look (h : Deferred d since) (hlooked : Looked d occupancy d')
    (hwaits : Waits d') : Deferred d' (occupancy :: since) where
  ordered := hlooked.ordered h.ordered
  waits := hwaits
  exceeded := by
    rw [hlooked.plannedHwm]
    intro hno o ho
    rcases List.mem_cons.mp ho with rfl | ho
    · exact hlooked.waits hno
    · exact h.exceeded (hlooked.deferred hno) o ho

theorem waits_of_looked (h : Looked d d'.currentQueueBytes d') : Waits d' := by
  intro _ hno
  rw [h.plannedHwm] at hno ⊢
  exact h.waits hno

theorem Deferred.step (h : Deferred d since) (hstep : HwmStep d occupancy planned d') :
    Deferred d' (if planned then [occupancy] else occupancy :: since) := by
  cases hstep with
  | update target sampled =>
    rcases updateHwmTarget_cases target sampled d with ⟨heq, -⟩ | ⟨heq, hbelow, hfull⟩
    · rw [heq]
      exact ⟨.inl rfl, fun _ hno => absurd rfl hno, fun hno => absurd rfl hno⟩
    · rw [heq]
      refine ⟨.inr hbelow, fun hlane _ => ?_, fun _ o ho => ?_⟩
      · change accountingLane d.lane ≠ .application at hlane
        rw [currentAccountedBytes_of_counted hlane] at hfull
        exact hfull.trans_eq (currentQueueBytes_congr rfl rfl).symm
      · rw [List.mem_singleton.mp ho]
        exact hfull
  | refresh sampled =>
    have hlooked := looked_refresh h.waits sampled
    refine h.look hlooked fun hlane hno => ?_
    rw [hlooked.lane] at hlane
    rw [hlooked.plannedHwm] at hno ⊢
    rw [currentQueueBytes_refresh]
    exact h.waits hlane (hlooked.deferred hno)
  | count hlane a hop =>
    have hlooked := looked_operation hop hlane h.waits
    exact h.look hlooked (waits_of_looked hlooked)

theorem HwmRun.deferred (h : HwmRun d since) : Deferred d since := by
  induction h with
  | new queueId hwm lane minimum =>
    exact ⟨.inl rfl, fun _ hno => absurd rfl hno, fun hno => absurd rfl hno⟩
  | step h hstep ih => exact ih.step hstep

end Direction

end Zlink.Ledger
