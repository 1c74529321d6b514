import Zlink.AutoHwm.Allocation

/-!
# What the setup loop computes

A `Direction` is one of the two directions of a socket plan. The setup loop
leaves three things: the plans with their bounds and their automatic directions
at the minimum (`preparePlan`), the references to the directions the rounds may
raise (`references`), and the totals of a `Tally`. Its counters show the tally
saturated at one word, and the overflow flag of the context is up exactly when a
total does not fit.
-/

namespace Zlink.AutoHwm

open Word64 WaterFill

structure Direction where
  planned : Bool
  manual : Bool
  queueCount : UInt64
  minimum : UInt64
  maximum : UInt64
  hwm : UInt64

namespace Direction

variable (d : Direction)

def automatic : Bool := d.planned && !d.manual

def autoBytes : ℕ :=
  if d.automatic then d.hwm.toNat * d.queueCount.toNat else 0

def manualBytes : ℕ :=
  if d.planned && d.manual then
    (if d.hwm = 0 then d.maximum else d.hwm).toNat * d.queueCount.toNat
  else 0

def unlimitedQueues : ℕ :=
  if (d.planned && d.manual) && d.hwm == 0 then d.queueCount.toNat else 0

def reference? : Option DirectionPlanRef :=
  if d.automatic ∧ 0 < d.queueCount ∧ d.minimum < d.maximum then
    some ⟨d.hwm, d.queueCount, d.maximum⟩
  else none

end Direction

namespace SocketPlan

def sendDirection (plan : SocketPlan) : Direction :=
  ⟨plan.planningEnabled, plan.manualSndhwm, plan.sendQueueCount,
    plan.minimumHwmBytes, plan.maximumHwmBytes, plan.sndhwm⟩

def receiveDirection (plan : SocketPlan) : Direction :=
  ⟨plan.planningEnabled, plan.manualRcvhwm, plan.receiveQueueCount,
    plan.minimumHwmBytes, plan.maximumHwmBytes, plan.rcvhwm⟩

def directions (plan : SocketPlan) : List Direction :=
  [plan.sendDirection, plan.receiveDirection]

end SocketPlan

def directions (plans : List SocketPlan) : List Direction :=
  plans.flatMap SocketPlan.directions

@[simp] theorem directions_nil : directions [] = [] := rfl

variable (plan : SocketPlan)

variable (plans : List SocketPlan)

@[simp] theorem directions_cons : directions (plan :: plans) =
      plan.sendDirection :: plan.receiveDirection :: directions plans := rfl

def references : List DirectionPlanRef :=
  (directions plans).filterMap Direction.reference?

/-- The mathematical totals of a plan list. -/
@[ext] structure Tally where
  auto : ℕ
  manual : ℕ
  send : ℕ
  receive : ℕ
  unlimited : ℕ

namespace Tally

instance : Zero Tally := ⟨⟨0, 0, 0, 0, 0⟩⟩

instance : Add Tally :=
  ⟨fun t u => ⟨t.auto + u.auto, t.manual + u.manual, t.send + u.send,
    t.receive + u.receive, t.unlimited + u.unlimited⟩⟩

variable (t : Tally)

@[simp] theorem add_auto {u : Tally} : (t + u).auto = t.auto + u.auto := rfl

@[simp] theorem add_manual {u : Tally} : (t + u).manual = t.manual + u.manual := rfl

@[simp] theorem add_send {u : Tally} : (t + u).send = t.send + u.send := rfl

@[simp] theorem add_receive {u : Tally} : (t + u).receive = t.receive + u.receive := rfl

@[simp] theorem add_unlimited {u : Tally} : (t + u).unlimited = t.unlimited + u.unlimited := rfl

theorem add_assoc (t u v : Tally) : t + u + v = t + (u + v) := by
  ext <;> exact Nat.add_assoc _ _ _

theorem zero_add (t : Tally) : 0 + t = t := by
  ext <;> exact Nat.zero_add _

theorem add_zero : t + 0 = t := rfl

def overflow : Bool :=
  overflows t.auto || overflows t.manual || overflows (t.send + t.receive) || overflows t.unlimited

theorem overflow_eq_false_iff : t.overflow = false ↔ t.auto < 2 ^ 64 ∧ t.manual < 2 ^ 64 ∧
      t.send + t.receive < 2 ^ 64 ∧ t.unlimited < 2 ^ 64 := by
  simp only [overflow, Bool.or_eq_false_iff, overflows_eq_false_iff, and_assoc]

theorem overflow_eq_true_iff : t.overflow = true ↔ 2 ^ 64 ≤ t.auto ∨ 2 ^ 64 ≤ t.manual ∨
      2 ^ 64 ≤ t.send + t.receive ∨ 2 ^ 64 ≤ t.unlimited := by
  rw [← Bool.not_eq_false, overflow_eq_false_iff]
  omega

end Tally

variable (base : ContextPlan)

variable (t : Tally)

/-- The counters of a context that has seen plans of tally `t`. -/
def tallied : ContextPlan :=
  { base with
    manualReservedHwmBytes := sat t.manual
    activeDirectionalQueueCount := sat (t.send + t.receive)
    activeSendQueueCount := sat t.send
    activeReceiveQueueCount := sat t.receive
    unlimitedManualQueueCount := sat t.unlimited
    aggregateHwmValid := decide (t.unlimited = 0)
    aggregateOverflow := t.overflow }

def queueTally : Tally :=
  ⟨0, 0, plan.sendQueueCount.toNat, plan.receiveQueueCount.toNat, 0⟩

def directionTally (d : Direction) : Tally :=
  ⟨d.autoBytes, d.manualBytes, 0, 0, d.unlimitedQueues⟩

def planTally : Tally :=
  if plan.planningEnabled then
    queueTally plan + directionTally plan.sendDirection + directionTally plan.receiveDirection
  else 0

def tally : Tally :=
  plans.foldr (fun plan t => planTally plan + t) 0

@[simp] theorem tally_nil : tally [] = 0 := rfl

@[simp] theorem tally_cons : tally (plan :: plans) = planTally plan + tally plans := rfl

def preparePlan (profile : Profile) (plan : SocketPlan) : SocketPlan :=
  let minimum := profileMinimumBytes profile plan.role
  { plan with
    minimumHwmBytes := minimum
    maximumHwmBytes := profileMaximumBytes profile plan.role
    sndhwm :=
      if plan.planningEnabled && !plan.manualSndhwm then minimum else plan.sndhwm
    rcvhwm :=
      if plan.planningEnabled && !plan.manualRcvhwm then minimum else plan.rcvhwm }

theorem countPlan_tallied (plan : SocketPlan) :
    countPlan (tallied base t) plan = .ok (tallied base (t + queueTally plan)) := by
  have hs := toNat_lt_pow plan.sendQueueCount
  have hr := toNat_lt_pow plan.receiveQueueCount
  have hflag := Tally.overflow_eq_true_iff t
  have hsend := saturatingAdd_sat (a := t.send) (b := plan.sendQueueCount.toNat)
    t.overflow (fun h => hflag.mpr (by omega)) (by omega)
  have hreceive := saturatingAdd_sat (a := t.receive) (b := plan.receiveQueueCount.toNat)
    (t.overflow || overflows (t.send + plan.sendQueueCount.toNat))
    (fun h => by simp [hflag.mpr (by omega)]) (by omega)
  have hboth := saturatingAdd_sat (a := plan.sendQueueCount.toNat)
    (b := plan.receiveQueueCount.toNat)
    (t.overflow || overflows (t.send + plan.sendQueueCount.toNat) ||
      overflows (t.receive + plan.receiveQueueCount.toNat)) (by omega) (by omega)
  have hall := saturatingAdd_sat (a := t.send + t.receive)
    (b := plan.sendQueueCount.toNat + plan.receiveQueueCount.toNat)
    (t.overflow || overflows (t.send + plan.sendQueueCount.toNat) ||
      overflows (t.receive + plan.receiveQueueCount.toNat) ||
      overflows (plan.sendQueueCount.toNat + plan.receiveQueueCount.toNat))
    (fun h => by simp [hflag.mpr (by omega)])
    (fun h => by simp [(overflows_eq_true_iff _).mpr h])
  simp only [sat_toNat] at hsend hreceive hboth hall
  have htotal : t.send + t.receive + (plan.sendQueueCount.toNat + plan.receiveQueueCount.toNat) =
      t.send + plan.sendQueueCount.toNat + (t.receive + plan.receiveQueueCount.toNat) := by omega
  have hfinal : (t.overflow || overflows (t.send + plan.sendQueueCount.toNat) ||
      overflows (t.receive + plan.receiveQueueCount.toNat) ||
      overflows (plan.sendQueueCount.toNat + plan.receiveQueueCount.toNat) ||
      overflows (t.send + plan.sendQueueCount.toNat + (t.receive + plan.receiveQueueCount.toNat))) =
      (t + queueTally plan).overflow := by
    rw [Bool.eq_iff_iff]
    simp only [Bool.or_eq_true, overflows_eq_true_iff,
      Tally.overflow_eq_true_iff, Tally.add_auto, Tally.add_manual,
      Tally.add_send, Tally.add_receive, Tally.add_unlimited, queueTally]
    omega
  rw [htotal] at hall
  simp only [countPlan, tallied, hsend, hreceive, hboth, hall, hfinal, ok_bind, pure_eq_ok]
  rfl

theorem setupDirection_auto (minimum maximum hwm queueCount : UInt64) :
    let d : Direction := ⟨true, false, queueCount, minimum, maximum, minimum⟩
    setupDirection minimum maximum false hwm queueCount (tallied base t) (sat t.auto) =
      .ok (tallied base (t + directionTally d),
        sat (t + directionTally d).auto, minimum, d.reference?.toList) := by
  intro d
  have hmul := saturatingMultiply_sat minimum queueCount t.overflow
  have hadd := saturatingAdd_sat (a := t.auto) (b := minimum.toNat * queueCount.toNat)
    (t.overflow || overflows (minimum.toNat * queueCount.toNat))
    (fun h => by simp [t.overflow_eq_true_iff.mpr (Or.inl h)])
    (fun h => by simp [(overflows_eq_true_iff _).mpr h])
  have hbytes : d.autoBytes = minimum.toNat * queueCount.toNat := rfl
  have hflag : (t.overflow || overflows (minimum.toNat * queueCount.toNat) ||
      overflows (t.auto + minimum.toNat * queueCount.toNat)) =
      (t + directionTally d).overflow := by
    rw [Bool.eq_iff_iff]
    simp only [Bool.or_eq_true, overflows_eq_true_iff,
      Tally.overflow_eq_true_iff, Tally.add_auto, Tally.add_manual,
      Tally.add_send, Tally.add_receive, Tally.add_unlimited, directionTally,
      hbytes, show d.manualBytes = 0 from rfl,
      show d.unlimitedQueues = 0 from rfl]
    omega
  have href : appendDirection minimum queueCount maximum = d.reference?.toList := by
    simp only [appendDirection, Direction.reference?, Direction.automatic, d]
    split <;> simp_all
  simp only [setupDirection, tallied, Bool.not_false, if_true, hmul, hadd,
    hflag, href, ok_bind, pure_eq_ok]
  rfl

theorem manualReservation_sat (reservation queueCount : UInt64) : saturatingAdd (sat t.manual)
        (sat (reservation.toNat * queueCount.toNat))
        (t.overflow || overflows (reservation.toNat * queueCount.toNat)) =
      .ok (sat (t.manual + reservation.toNat * queueCount.toNat), t.overflow ||
          overflows (t.manual + reservation.toNat * queueCount.toNat)) := by
  rw [saturatingAdd_sat _ (fun h => by simp [t.overflow_eq_true_iff.mpr (Or.inr (Or.inl h))])
    (fun h => by simp [(overflows_eq_true_iff _).mpr h])]
  have hflag : (t.overflow || overflows (reservation.toNat * queueCount.toNat) ||
      overflows (t.manual + reservation.toNat * queueCount.toNat)) =
      (t.overflow || overflows (t.manual + reservation.toNat * queueCount.toNat)) := by
    rw [Bool.eq_iff_iff]
    simp only [Bool.or_eq_true, overflows_eq_true_iff, or_assoc]
    refine or_congr_right ⟨?_, Or.inr⟩
    omega
  rw [hflag]

theorem setupDirection_finite (minimum maximum : UInt64) {hwm queueCount : UInt64}
    (hqueue : 0 < queueCount) (hzero : hwm ≠ 0) :
    setupDirection minimum maximum true hwm queueCount (tallied base t) (sat t.auto) =
      .ok (tallied base (t + ⟨0, hwm.toNat * queueCount.toNat, 0, 0, 0⟩), sat t.auto, hwm, []) := by
  have hmul := saturatingMultiply_sat hwm queueCount t.overflow
  have hadd := manualReservation_sat t hwm queueCount
  have hflag : (t.overflow || overflows (t.manual + hwm.toNat * queueCount.toNat)) =
      (t + ⟨0, hwm.toNat * queueCount.toNat, 0, 0, 0⟩).overflow := by
    rw [Bool.eq_iff_iff]
    simp only [Bool.or_eq_true, overflows_eq_true_iff,
      Tally.overflow_eq_true_iff, Tally.add_auto, Tally.add_manual,
      Tally.add_send, Tally.add_receive, Tally.add_unlimited]
    omega
  simp only [setupDirection, tallied, Bool.not_true, Bool.false_eq_true,
    if_false, hqueue, if_true, hmul, hadd, hzero, hflag, ok_bind, pure_eq_ok]
  rfl

theorem setupDirection_unlimited
    (minimum maximum : UInt64) {queueCount : UInt64} (hqueue : 0 < queueCount) :
    setupDirection minimum maximum true 0 queueCount (tallied base t) (sat t.auto) =
      .ok (tallied base (t + ⟨0, maximum.toNat * queueCount.toNat, 0, 0, queueCount.toNat⟩),
        sat t.auto, 0, []) := by
  have hmul := saturatingMultiply_sat maximum queueCount t.overflow
  have hadd := manualReservation_sat t maximum queueCount
  have hcount := saturatingAdd_sat (a := t.unlimited) (b := queueCount.toNat)
    (t.overflow || overflows (t.manual + maximum.toNat * queueCount.toNat))
    (fun h => by
      simp [t.overflow_eq_true_iff.mpr (Or.inr (Or.inr (Or.inr h)))])
    (fun h => absurd (toNat_lt_pow queueCount) (Nat.not_lt.mpr h))
  rw [sat_toNat] at hcount
  have hflag : (t.overflow || overflows (t.manual + maximum.toNat * queueCount.toNat) ||
      overflows (t.unlimited + queueCount.toNat)) =
      (t + ⟨0, maximum.toNat * queueCount.toNat, 0, 0, queueCount.toNat⟩).overflow := by
    rw [Bool.eq_iff_iff]
    simp only [Bool.or_eq_true, overflows_eq_true_iff,
      Tally.overflow_eq_true_iff, Tally.add_auto, Tally.add_manual,
      Tally.add_send, Tally.add_receive, Tally.add_unlimited]
    omega
  have hvalid : decide (t.unlimited + queueCount.toNat = 0) = false := by
    have hpos := (toNat_pos_iff _).mp hqueue
    rw [decide_eq_false_iff_not]
    omega
  simp only [setupDirection, tallied, Bool.not_true, Bool.false_eq_true,
    if_false, hqueue, if_true, hmul, hadd, hcount, hflag, Tally.add_unlimited,
    hvalid, ok_bind, pure_eq_ok]
  rfl

theorem setupDirection_manual (minimum maximum hwm queueCount : UInt64) :
    let d : Direction := ⟨true, true, queueCount, minimum, maximum, hwm⟩
    setupDirection minimum maximum true hwm queueCount (tallied base t) (sat t.auto) =
      .ok (tallied base (t + directionTally d),
        sat (t + directionTally d).auto, hwm, d.reference?.toList) := by
  intro d
  have href : d.reference?.toList = [] := by
    simp [Direction.reference?, Direction.automatic, d]
  by_cases hqueue : 0 < queueCount
  · by_cases hzero : hwm = 0
    · subst hzero
      rw [setupDirection_unlimited base t minimum maximum hqueue, href]
      rfl
    · have htally : directionTally d = ⟨0, hwm.toNat * queueCount.toNat, 0, 0, 0⟩ := by
        simp [directionTally, Direction.autoBytes, Direction.automatic,
          Direction.manualBytes, Direction.unlimitedQueues, d, hzero]
      rw [setupDirection_finite base t minimum maximum hqueue hzero, href, htally]
      rfl
  · have hnone : queueCount.toNat = 0 := by
      rw [toNat_pos_iff] at hqueue
      omega
    have htally : directionTally d = 0 := by
      simp only [directionTally, Direction.autoBytes, Direction.automatic,
        Direction.manualBytes, Direction.unlimitedQueues, d, hnone,
        Nat.mul_zero, ite_self]
      rfl
    simp [setupDirection, hqueue, href, htally, Tally.add_zero]

theorem setupDirection_tallied
    (minimum maximum : UInt64) (manual : Bool) (hwm queueCount : UInt64) :
    let d : Direction := ⟨true, manual, queueCount, minimum, maximum,
      if !manual then minimum else hwm⟩
    setupDirection minimum maximum manual hwm queueCount (tallied base t) (sat t.auto) =
      .ok (tallied base (t + directionTally d),
        sat (t + directionTally d).auto, d.hwm, d.reference?.toList) := by
  cases manual with
  | false => exact setupDirection_auto base t minimum maximum hwm queueCount
  | true => exact setupDirection_manual base t minimum maximum hwm queueCount

/-- The setup state that has seen plans of tally `t`. -/
def talliedSetup (plans : List SocketPlan) (refs : List DirectionPlanRef) : Setup :=
  ⟨tallied base t, sat t.auto, plans, refs⟩

theorem references_single : references [plan] = plan.sendDirection.reference?.toList ++
      plan.receiveDirection.reference?.toList := by
  simp only [references, directions_cons, directions_nil, List.filterMap_cons, List.filterMap_nil]
  cases plan.sendDirection.reference? <;>
    cases plan.receiveDirection.reference? <;> rfl

theorem references_cons : references (plan :: plans) = references [plan] ++ references plans := by
  simp [references, ← List.filterMap_append]

theorem setupPlan_tallied
    (seen : List SocketPlan) (refs : List DirectionPlanRef) (plan : SocketPlan) :
    setupPlan (talliedSetup base t seen refs) plan =
      .ok (talliedSetup base (t + planTally (preparePlan base.profile plan))
        (seen ++ [preparePlan base.profile plan])
        (refs ++ references [preparePlan base.profile plan])) := by
  set minimum := profileMinimumBytes base.profile plan.role with hminimum
  set maximum := profileMaximumBytes base.profile plan.role with hmaximum
  by_cases henabled : plan.planningEnabled = true
  · have hcount : countPlan (tallied base t)
        { plan with minimumHwmBytes := minimum, maximumHwmBytes := maximum } =
        .ok (tallied base (t + queueTally plan)) := countPlan_tallied base t _
    have hsend := setupDirection_tallied base (t + queueTally plan) minimum
      maximum plan.manualSndhwm plan.sndhwm plan.sendQueueCount
    have hreceive := setupDirection_tallied base
      (t + queueTally plan + directionTally (preparePlan base.profile plan).sendDirection)
      minimum maximum plan.manualRcvhwm plan.rcvhwm plan.receiveQueueCount
    have hsendEq : (⟨true, plan.manualSndhwm, plan.sendQueueCount, minimum,
        maximum, if !plan.manualSndhwm then minimum else plan.sndhwm⟩ :
          Direction) = (preparePlan base.profile plan).sendDirection := by
      simp [SocketPlan.sendDirection, preparePlan, henabled, hminimum, hmaximum]
    have hreceiveEq : (⟨true, plan.manualRcvhwm, plan.receiveQueueCount,
        minimum, maximum, if !plan.manualRcvhwm then minimum else plan.rcvhwm⟩ :
          Direction) = (preparePlan base.profile plan).receiveDirection := by
      simp [SocketPlan.receiveDirection, preparePlan, henabled, hminimum, hmaximum]
    have htally : planTally (preparePlan base.profile plan) = queueTally plan +
          directionTally (preparePlan base.profile plan).sendDirection +
          directionTally (preparePlan base.profile plan).receiveDirection := by
      simp only [planTally]
      rw [if_pos (show (preparePlan base.profile plan).planningEnabled = true from henabled)]
      rfl
    have hplan : preparePlan base.profile plan =
        { plan with
          minimumHwmBytes := minimum
          maximumHwmBytes := maximum
          sndhwm := if !plan.manualSndhwm then minimum else plan.sndhwm
          rcvhwm := if !plan.manualRcvhwm then minimum else plan.rcvhwm } := by
      simp [preparePlan, henabled, hminimum, hmaximum]
    have hauto : sat (t + queueTally plan).auto = sat t.auto := rfl
    simp only [hsendEq, hauto] at hsend
    simp only [hreceiveEq] at hreceive
    have hprofile : (tallied base t).profile = base.profile := rfl
    simp only [setupPlan, talliedSetup, hprofile, henabled, Bool.not_true,
      Bool.false_eq_true, if_false, ← hminimum, ← hmaximum] at hcount ⊢
    simp only [hcount, hsend, hreceive, ok_bind, pure_eq_ok]
    simp only [htally, references_single, Tally.add_assoc, List.append_assoc]
    simp only [hplan, henabled]
  · have hplan : preparePlan base.profile plan =
        { plan with minimumHwmBytes := minimum, maximumHwmBytes := maximum } := by
      simp [preparePlan, henabled, hminimum, hmaximum]
    have htally : planTally (preparePlan base.profile plan) = 0 := by
      simp [planTally, preparePlan, henabled]
    have href : references [preparePlan base.profile plan] = [] := by
      rw [references_single]
      simp [SocketPlan.sendDirection, SocketPlan.receiveDirection, preparePlan,
        Direction.reference?, Direction.automatic, henabled]
    rw [htally, href, hplan, Tally.add_zero, List.append_nil]
    simp [setupPlan, henabled, talliedSetup, tallied, hminimum, hmaximum]

theorem setupPlans_tallied
    (seen : List SocketPlan) (refs : List DirectionPlanRef) (plans : List SocketPlan) :
    setupPlans (talliedSetup base t seen refs) plans = .ok (talliedSetup base
        (t + tally (plans.map (preparePlan base.profile)))
        (seen ++ plans.map (preparePlan base.profile))
        (refs ++ references (plans.map (preparePlan base.profile)))) := by
  induction plans generalizing t seen refs with
  | nil => simp [setupPlans, references, Tally.add_zero]
  | cons plan plans ih =>
    have hrefs := references_cons (preparePlan base.profile plan)
      (plans.map (preparePlan base.profile))
    rw [setupPlans, setupPlan_tallied, ok_bind, ih, List.map_cons, hrefs,
      tally_cons, Tally.add_assoc]
    simp

end Zlink.AutoHwm
