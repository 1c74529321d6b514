import Zlink.AutoHwm.Setup

/-!
# The budget is kept, spent and shared evenly

The planner as a whole. `contextFinalize` always ends without a wrap; it leaves
manual directions alone, keeps automatic directions within the bounds of their
role, and unless it reports an insufficient budget it stays within it. When the
rounds have run, no direction can be given another unit, and level directions
with one queue end level up to one unit for the earlier one.
-/

namespace Zlink.AutoHwm

open Word64 WaterFill

variable (plans : List SocketPlan)

def autoTotal : ℕ :=
  ((directions plans).map Direction.autoBytes).sum

def manualReservation : ℕ :=
  ((directions plans).map Direction.manualBytes).sum

@[simp] theorem autoTotal_nil : autoTotal [] = 0 := rfl

variable (plan : SocketPlan)

@[simp] theorem autoTotal_cons (plans : List SocketPlan) :
    autoTotal (plan :: plans) = plan.sendDirection.autoBytes +
      plan.receiveDirection.autoBytes + autoTotal plans := by
  simp [autoTotal, Nat.add_assoc]

@[simp] theorem manualReservation_cons (plans : List SocketPlan) :
    manualReservation (plan :: plans) = plan.sendDirection.manualBytes +
      plan.receiveDirection.manualBytes + manualReservation plans := by
  simp [manualReservation, Nat.add_assoc]

theorem planTally_auto : (planTally plan).auto =
      plan.sendDirection.autoBytes + plan.receiveDirection.autoBytes := by
  by_cases h : plan.planningEnabled = true
  · simp [planTally, h, queueTally, directionTally]
  · simp [planTally, h, Direction.autoBytes, Direction.automatic,
      SocketPlan.sendDirection, SocketPlan.receiveDirection]
    rfl

theorem planTally_manual : (planTally plan).manual =
      plan.sendDirection.manualBytes + plan.receiveDirection.manualBytes := by
  by_cases h : plan.planningEnabled = true
  · simp [planTally, h, queueTally, directionTally]
  · simp [planTally, h, Direction.manualBytes, SocketPlan.sendDirection,
      SocketPlan.receiveDirection]
    rfl

theorem tally_auto : (tally plans).auto = autoTotal plans := by
  induction plans with
  | nil => rfl
  | cons plan plans ih =>
    rw [tally_cons, Tally.add_auto, ih, planTally_auto, autoTotal_cons]

theorem tally_manual : (tally plans).manual = manualReservation plans := by
  induction plans with
  | nil => rfl
  | cons plan plans ih =>
    rw [tally_cons, Tally.add_manual, ih, planTally_manual, manualReservation_cons]

namespace Direction

/-- An automatic direction within the bounds of a role. A role without room
between its bounds is the empty role, whose bounds are zero. -/
structure Sound (d : Direction) : Prop where
  minimum_le : d.automatic → d.minimum ≤ d.hwm
  le_maximum : d.automatic → d.hwm ≤ d.maximum
  room : d.minimum < d.maximum ∨ d.maximum = 0

theorem Sound.autoBytes_eq_zero {d : Direction} (h : d.Sound)
    (hnone : d.reference? = none) : d.autoBytes = 0 := by
  by_cases hauto : d.automatic = true
  · rw [autoBytes, if_pos hauto]
    by_cases hqueue : 0 < d.queueCount
    · have hfull : d.maximum = 0 := by
        rcases h.room with hroom | hzero
        · simp [reference?, hauto, hqueue, hroom] at hnone
        · exact hzero
      have hle := UInt64.le_iff_toNat_le.mp (h.le_maximum hauto)
      rw [hfull] at hle
      have hhwm : d.hwm.toNat = 0 := Nat.le_zero.mp hle
      rw [hhwm, Nat.zero_mul]
    · rw [toNat_pos_iff] at hqueue
      have : d.queueCount.toNat = 0 := by omega
      rw [this, Nat.mul_zero]
  · rw [autoBytes, if_neg hauto]

theorem reference?_eq_some {d : Direction} {r : DirectionPlanRef} (h : d.reference? = some r) :
    d.automatic = true ∧ 0 < d.queueCount ∧ d.minimum < d.maximum ∧
      r = ⟨d.hwm, d.queueCount, d.maximum⟩ := by
  unfold reference? at h
  split at h
  case isTrue hguard =>
    cases h
    exact ⟨hguard.1, hguard.2.1, hguard.2.2, rfl⟩
  · cases h

theorem Sound.slot_valid {d : Direction} (h : d.Sound) {r : DirectionPlanRef}
    (href : d.reference? = some r) : r.slot.Valid := by
  obtain ⟨hauto, hqueue, -, rfl⟩ := reference?_eq_some href
  exact ⟨UInt64.le_iff_toNat_le.mp (h.le_maximum hauto), (toNat_pos_iff _).mp hqueue⟩

end Direction

def SoundPlans : Prop :=
  ∀ d ∈ directions plans, d.Sound

theorem charge_reference {d : Direction} (h : d.Sound) :
    charge (slots d.reference?.toList) = d.autoBytes := by
  cases href : d.reference? with
  | none => simp [h.autoBytes_eq_zero href]
  | some r =>
    obtain ⟨hauto, -, -, rfl⟩ := Direction.reference?_eq_some href
    simp [slots, DirectionPlanRef.slot, Direction.autoBytes, hauto]

theorem charge_append (ss ts : List Slot) : charge (ss ++ ts) = charge ss + charge ts := by
  simp [charge]

theorem slots_append (ds es : List DirectionPlanRef) : slots (ds ++ es) = slots ds ++ slots es := by
  simp [slots]

theorem charge_references {plans : List SocketPlan} (h : SoundPlans plans) :
    charge (slots (references plans)) = autoTotal plans := by
  induction plans with
  | nil => rfl
  | cons plan plans ih =>
    have hsend := h plan.sendDirection (by simp)
    have hreceive := h plan.receiveDirection (by simp)
    have hrest : SoundPlans plans := fun d hd => h d (by simp [hd])
    rw [references_cons, references_single, slots_append, slots_append,
      charge_append, charge_append, charge_reference hsend,
      charge_reference hreceive, ih hrest, autoTotal_cons]

theorem references_valid {plans : List SocketPlan} (h : SoundPlans plans) :
    ∀ s ∈ slots (references plans), s.Valid := by
  intro s hs
  obtain ⟨r, hr, rfl⟩ := List.mem_map.mp hs
  obtain ⟨d, hd, href⟩ := List.mem_filterMap.mp hr
  exact (h d hd).slot_valid href

variable (d : Direction)

theorem reference_weight_le :
    ((slots d.reference?.toList).map Slot.weight).sum ≤ d.queueCount.toNat := by
  cases href : d.reference? with
  | none => simp
  | some r =>
    obtain ⟨-, -, -, rfl⟩ := Direction.reference?_eq_some href
    simp [slots, DirectionPlanRef.slot]

theorem references_disabled {plan : SocketPlan}
    (h : plan.planningEnabled = false) : references [plan] = [] := by
  rw [references_single]
  simp [SocketPlan.sendDirection, SocketPlan.receiveDirection,
    Direction.reference?, Direction.automatic, h]

theorem references_weight_le : ((slots (references plans)).map Slot.weight).sum ≤
      (tally plans).send + (tally plans).receive := by
  induction plans with
  | nil => simp [references]
  | cons plan plans ih =>
    rw [references_cons, tally_cons, slots_append, List.map_append,
      List.sum_append, Tally.add_send, Tally.add_receive]
    cases henabled : plan.planningEnabled with
    | false =>
      rw [references_disabled henabled]
      simp only [slots_nil, List.map_nil, List.sum_nil]
      omega
    | true =>
      have hsend := reference_weight_le plan.sendDirection
      have hreceive := reference_weight_le plan.receiveDirection
      have hqueues : (planTally plan).send = plan.sendQueueCount.toNat ∧
          (planTally plan).receive = plan.receiveQueueCount.toNat := by
        simp [planTally, henabled, queueTally, directionTally]
      rw [references_single, slots_append, List.map_append, List.sum_append]
      change _ ≤ plan.sendQueueCount.toNat at hsend
      change _ ≤ plan.receiveQueueCount.toNat at hreceive
      omega

structure Raised (d d' : Direction) : Prop where
  shape : d' = { d with hwm := d'.hwm }
  kept : d.automatic = false → d'.hwm = d.hwm
  level_le : d.hwm ≤ d'.hwm
  le_maximum : d.hwm ≤ d.maximum → d'.hwm ≤ d.maximum

theorem Raised.refl : Raised d d :=
  ⟨rfl, fun _ => rfl, UInt64.le_refl _, id⟩

/-- The references, and what the rounds made of them. -/
def GrownRefs (refs refs' : List DirectionPlanRef) : Prop :=
  List.Forall₂ (fun r r' => Grown r.slot r'.slot) refs refs'

theorem grownRefs_of_slots {refs refs' : List DirectionPlanRef}
    (h : List.Forall₂ Grown (slots refs) (slots refs')) : GrownRefs refs refs' := by
  rwa [slots, slots, List.forall₂_map_left_iff, List.forall₂_map_right_iff] at h

theorem storeDirection_spec {rest refs : List DirectionPlanRef}
    (h : GrownRefs (d.reference?.toList ++ rest) refs) :
    ∃ hwm refs', storeDirection d.reference?.isSome d.hwm refs = (hwm, refs') ∧
      GrownRefs rest refs' ∧ Raised d { d with hwm := hwm } ∧
      ({ d with hwm := hwm } : Direction).reference?.toList ++ refs' = refs := by
  cases href : d.reference? with
  | none =>
    simp only [href, Option.toList_none, List.nil_append] at h
    refine ⟨d.hwm, refs, ?_, h, Raised.refl d, by simp [href]⟩
    cases refs <;> rfl
  | some r =>
    obtain ⟨hauto, hqueue, hroom, rfl⟩ := Direction.reference?_eq_some href
    simp only [href, Option.toList_some, List.singleton_append] at h
    cases h with
    | @cons _ r' _ refs' hgrown hrest =>
      obtain ⟨hwm', queueCount', maximum'⟩ := r'
      have hcount : queueCount' = d.queueCount :=
        UInt64.ext_iff.mpr hgrown.weight
      have hmax : maximum' = d.maximum := UInt64.ext_iff.mpr hgrown.cap
      subst hcount hmax
      refine ⟨hwm', refs', rfl, hrest, ⟨rfl, ?_, ?_, ?_⟩, ?_⟩
      · simp [hauto]
      · exact UInt64.le_iff_toNat_le.mpr hgrown.level_le
      · intro hle
        exact UInt64.le_iff_toNat_le.mpr
          (hgrown.level_le_cap (UInt64.le_iff_toNat_le.mp hle))
      · have hnew : ({ d with hwm := hwm' } : Direction).reference? =
            some ⟨hwm', d.queueCount, d.maximum⟩ := by
          rw [Direction.reference?]
          exact if_pos ⟨hauto, hqueue, hroom⟩
        rw [hnew]
        rfl

structure RaisedPlan (plan plan' : SocketPlan) : Prop where
  shape : plan' = { plan with sndhwm := plan'.sndhwm, rcvhwm := plan'.rcvhwm }
  send : Raised plan.sendDirection plan'.sendDirection
  receive : Raised plan.receiveDirection plan'.receiveDirection

theorem RaisedPlan.refl (plan : SocketPlan) : RaisedPlan plan plan :=
  ⟨rfl, Raised.refl _, Raised.refl _⟩

theorem isSome_reference : d.reference?.isSome = (d.planned && !d.manual &&
      decide (0 < d.queueCount) && decide (d.minimum < d.maximum)) := by
  rw [Bool.eq_iff_iff]
  simp [Direction.reference?, Direction.automatic, and_assoc]

theorem storeDirections_spec {plans : List SocketPlan}
    {refs : List DirectionPlanRef} (h : GrownRefs (references plans) refs) :
    List.Forall₂ RaisedPlan plans (storeDirections plans refs) ∧
      references (storeDirections plans refs) = refs := by
  induction plans generalizing refs with
  | nil =>
    cases h
    exact ⟨List.Forall₂.nil, rfl⟩
  | cons plan plans ih =>
    rw [references_cons, references_single, List.append_assoc] at h
    obtain ⟨sndhwm, refs₁, hstore, hrest, hsend, hrefs⟩ :=
      storeDirection_spec plan.sendDirection h
    obtain ⟨rcvhwm, refs₂, hstore', hrest', hreceive, hrefs'⟩ :=
      storeDirection_spec plan.receiveDirection hrest
    obtain ⟨hplans, hall⟩ := ih hrest'
    rw [isSome_reference] at hstore hstore'
    have hcons : storeDirections (plan :: plans) refs =
        { plan with sndhwm := sndhwm, rcvhwm := rcvhwm } ::
          storeDirections plans refs₂ := by
      change storeDirection (directionAppended plan plan.manualSndhwm
        plan.sendQueueCount) plan.sndhwm refs = _ at hstore
      change storeDirection (directionAppended plan plan.manualRcvhwm
        plan.receiveQueueCount) plan.rcvhwm refs₁ = _ at hstore'
      rw [storeDirections, hstore]
      simp only [hstore']
    rw [hcons]
    refine ⟨List.Forall₂.cons ⟨rfl, hsend, hreceive⟩ hplans, ?_⟩
    rw [references_cons, references_single, List.append_assoc, hall]
    rw [← hrefs, ← hrefs']
    rfl

theorem preparePlan_sound (profile : Profile) (plans : List SocketPlan) :
    SoundPlans (plans.map (preparePlan profile)) := by
  intro d hd
  obtain ⟨plan, hplan, hd⟩ := List.mem_flatMap.mp hd
  obtain ⟨plan, -, rfl⟩ := List.mem_map.mp hplan
  have hbounds := profileMinimumBytes_le_maximum profile plan.role
  have hroom : profileMinimumBytes profile plan.role <
      profileMaximumBytes profile plan.role ∨
      profileMaximumBytes profile plan.role = 0 := by
    by_cases hrole : plan.role = .none
    · exact Or.inr (by simp [profileMaximumBytes, hrole])
    · exact Or.inl (profileMinimumBytes_lt_maximum profile hrole)
  simp only [SocketPlan.directions, List.mem_cons, List.not_mem_nil, or_false] at hd
  rcases hd with rfl | rfl
  · refine ⟨fun hauto => ?_, fun hauto => ?_, hroom⟩ <;>
      simp_all [SocketPlan.sendDirection, preparePlan, Direction.automatic]
  · refine ⟨fun hauto => ?_, fun hauto => ?_, hroom⟩ <;>
      simp_all [SocketPlan.receiveDirection, preparePlan, Direction.automatic]

theorem planDirectionTotal_sat (hplanned : d.planned = true)
    (total : ℕ) (overflow : Bool) (h : 2 ^ 64 ≤ total → overflow = true) :
    planDirectionTotal d.manual d.hwm d.queueCount (sat total) overflow =
      .ok (sat (total + d.autoBytes),
        overflow || overflows (total + d.autoBytes)) := by
  cases hmanual : d.manual with
  | true =>
    have hzero : d.autoBytes = 0 := by
      simp [Direction.autoBytes, Direction.automatic, hmanual]
    have hflag : (overflow || overflows total) = overflow := by
      rw [Bool.eq_iff_iff, Bool.or_eq_true, overflows_eq_true_iff]
      exact or_iff_left_of_imp h
    simp [planDirectionTotal, hzero, hflag]
  | false =>
    have hbytes : d.autoBytes = d.hwm.toNat * d.queueCount.toNat := by
      simp [Direction.autoBytes, Direction.automatic, hmanual, hplanned]
    have hmul := saturatingMultiply_sat d.hwm d.queueCount overflow
    have hadd := saturatingAdd_sat (a := total) (b := d.autoBytes)
      (overflow || overflows d.autoBytes)
      (fun hbig => by simp [h hbig])
      (fun hbig => by simp [(overflows_eq_true_iff _).mpr hbig])
    have hflag : (overflow || overflows d.autoBytes ||
        overflows (total + d.autoBytes)) =
        (overflow || overflows (total + d.autoBytes)) := by
      rw [Bool.eq_iff_iff]
      simp only [Bool.or_eq_true, overflows_eq_true_iff, or_assoc]
      refine or_congr_right ⟨?_, Or.inr⟩
      omega
    rw [← hbytes] at hmul
    rw [hflag] at hadd
    simp [planDirectionTotal, hmul, hadd]

theorem plannedAutoTotal_sat (total : ℕ) (overflow : Bool) (h : 2 ^ 64 ≤ total → overflow = true) :
    plannedAutoTotal plans (sat total) overflow =
      .ok (sat (total + autoTotal plans),
        overflow || overflows (total + autoTotal plans)) := by
  induction plans generalizing total overflow with
  | nil =>
    have hflag : (overflow || overflows total) = overflow := by
      rw [Bool.eq_iff_iff, Bool.or_eq_true, overflows_eq_true_iff]
      exact or_iff_left_of_imp h
    simp [plannedAutoTotal, hflag]
  | cons plan plans ih =>
    cases henabled : plan.planningEnabled with
    | false =>
      have hsend : plan.sendDirection.autoBytes = 0 := by
        simp [Direction.autoBytes, Direction.automatic, SocketPlan.sendDirection, henabled]
      have hreceive : plan.receiveDirection.autoBytes = 0 := by
        simp [Direction.autoBytes, Direction.automatic, SocketPlan.receiveDirection, henabled]
      simp [plannedAutoTotal, henabled, ih total overflow h, hsend, hreceive]
    | true =>
      have hsend := planDirectionTotal_sat plan.sendDirection henabled total overflow h
      have hreceive := planDirectionTotal_sat plan.receiveDirection henabled
        (total + plan.sendDirection.autoBytes)
        (overflow || overflows (total + plan.sendDirection.autoBytes))
        (fun hbig => by simp [(overflows_eq_true_iff _).mpr hbig])
      have hrest := ih (total + plan.sendDirection.autoBytes +
          plan.receiveDirection.autoBytes)
        (overflow || overflows (total + plan.sendDirection.autoBytes) ||
          overflows (total + plan.sendDirection.autoBytes + plan.receiveDirection.autoBytes))
        (fun hbig => by simp [(overflows_eq_true_iff _).mpr hbig])
      change planDirectionTotal plan.manualSndhwm plan.sndhwm
        plan.sendQueueCount _ _ = _ at hsend
      change planDirectionTotal plan.manualRcvhwm plan.rcvhwm
        plan.receiveQueueCount _ _ = _ at hreceive
      have hsum : total + plan.sendDirection.autoBytes +
          plan.receiveDirection.autoBytes + autoTotal plans =
          total + autoTotal (plan :: plans) := by
        rw [autoTotal_cons]
        omega
      have hflag : (overflow ||
          overflows (total + plan.sendDirection.autoBytes) ||
          overflows (total + plan.sendDirection.autoBytes + plan.receiveDirection.autoBytes) ||
          overflows (total + autoTotal (plan :: plans))) =
          (overflow || overflows (total + autoTotal (plan :: plans))) := by
        rw [Bool.eq_iff_iff]
        simp only [Bool.or_eq_true, overflows_eq_true_iff, or_assoc]
        refine or_congr_right ?_
        omega
      rw [hsum, hflag] at hrest
      simp [plannedAutoTotal, henabled, hsend, hreceive, hrest]

def withBudget (context : ContextPlan) (budget : UInt64) : ContextPlan :=
  { context with effectiveCoreBudgetBytes := budget }

theorem resolveBudget_ok (context : ContextPlan) :
    ∃ budget, resolveBudget context = .ok (withBudget context budget) := by
  by_cases hzero : context.configuredCoreBudgetBytes = 0
  · obtain ⟨budget, hbudget⟩ := profileEffectiveBudget_ok context.profile
      context.resolvedMemoryLimitBytes context.activeDirectionalQueueCount
    exact ⟨budget, by simp [resolveBudget, withBudget, hzero, hbudget]⟩
  · exact ⟨context.effectiveCoreBudgetBytes,
      by simp [resolveBudget, withBudget, hzero]⟩

def Sufficient (budget : UInt64) : Prop :=
  (tally plans).overflow = false ∧
    autoTotal plans + manualReservation plans ≤ budget.toNat

theorem insufficient_eq_false_iff (base : ContextPlan) (plans : List SocketPlan) (budget : UInt64) :
    ∃ left, dataBudget (tallied (withBudget base budget) (tally plans)) = .ok left ∧
      (insufficient (tallied (withBudget base budget)
          (tally plans)) left (sat (tally plans).auto) = false ↔ Sufficient plans budget) ∧
      (Sufficient plans budget → left.toNat = budget.toNat - manualReservation plans) := by
  have hmanual := toNat_sat (tally plans).manual
  have hauto := toNat_sat (tally plans).auto
  have hbudget := toNat_lt_pow budget
  have hfit : Sufficient plans budget →
      autoTotal plans < 2 ^ 64 ∧ manualReservation plans < 2 ^ 64 := by
    rintro ⟨-, hle⟩
    omega
  rw [tally_manual] at hmanual
  rw [tally_auto] at hauto
  have htest : ∀ left : UInt64,
      insufficient (tallied (withBudget base budget)
          (tally plans)) left (sat (tally plans).auto) = false ↔
        (sat (tally plans).manual).toNat ≤ budget.toNat ∧
          (sat (tally plans).auto).toNat ≤ left.toNat ∧
          (tally plans).overflow = false := by
    intro left
    simp only [insufficient, tallied, withBudget, Bool.or_eq_false_iff,
      decide_eq_false_iff_not, UInt64.lt_iff_toNat_lt, Nat.not_lt, and_assoc]
  have hoverflow := (tally plans).overflow_eq_false_iff
  rw [tally_auto, tally_manual] at hoverflow
  rw [tally_auto, tally_manual] at htest
  simp only [Sufficient, tally_auto, htest] at hfit ⊢
  rw [hoverflow] at *
  by_cases hle : budget.toNat ≤ (sat (manualReservation plans)).toNat
  · refine ⟨0, ?_, ?_, ?_⟩
    · have : budget ≤ sat (manualReservation plans) :=
        UInt64.le_iff_toNat_le.mpr hle
      simp [dataBudget, tallied, withBudget, tally_manual, this]
    all_goals
      have hzero : (0 : UInt64).toNat = 0 := rfl
      rw [hzero]
      omega
  · obtain ⟨left, hleft, hleftNat⟩ :=
      subExact_of_le (a := budget) (b := sat (manualReservation plans))
        (by omega)
    refine ⟨left, ?_, by omega, by omega⟩
    have : ¬budget ≤ sat (manualReservation plans) := fun h =>
      hle (UInt64.le_iff_toNat_le.mp h)
    simp [dataBudget, tallied, withBudget, tally_manual, this, hleft]

theorem clearOverflow_eq {context : ContextPlan} (h : context.aggregateOverflow = false) :
    { context with aggregateOverflow := false } = context := by
  rw [← h]

/-- What the part between the setup loop and the totals does. With a budget that
does not suffice every direction stays at its minimum; with one that does, the
rounds settle on what the minimums leave. -/
theorem distribute_spec (base : ContextPlan) {plans : List SocketPlan} (hsound : SoundPlans plans) :
    ∃ budget, resolveBudget (tallied base (tally plans)) = .ok (tallied (withBudget base budget)
          (tally plans)) ∧ ((¬Sufficient plans budget ∧
          distribute (talliedSetup base (tally plans) plans (references plans)) =
            .ok ({ tallied (withBudget base budget)
                (tally plans) with budgetInsufficient := true }, plans)) ∨
        (Sufficient plans budget ∧ ∃ plans',
          distribute (talliedSetup base (tally plans) plans (references plans)) =
            .ok (tallied (withBudget base budget) (tally plans), plans') ∧
          List.Forall₂ RaisedPlan plans plans' ∧
          (base.enabled = false → plans' = plans) ∧
          (base.enabled = true → ∃ r, Settles
              (budget.toNat - manualReservation plans - autoTotal plans)
              (slots (references plans)) r (slots (references plans'))))) := by
  obtain ⟨budget, hresolve⟩ := resolveBudget_ok (tallied base (tally plans))
  obtain ⟨left, hleft, htest, hleftNat⟩ :=
    insufficient_eq_false_iff base plans budget
  refine ⟨budget, hresolve, ?_⟩
  have hresolve' : resolveBudget (tallied base (tally plans)) =
      .ok (tallied (withBudget base budget)
        (tally plans)) := hresolve
  by_cases hsuff : Sufficient plans budget
  · refine Or.inr ⟨hsuff, ?_⟩
    have hpass := htest.mpr hsuff
    have hleftEq := hleftNat hsuff
    obtain ⟨hoverflow, hle⟩ := hsuff
    have hfit := (tally plans).overflow_eq_false_iff.mp hoverflow
    have hautoNat : (sat (tally plans).auto).toNat = autoTotal plans := by
      rw [toNat_sat_of_lt hfit.1, tally_auto]
    cases henabled : base.enabled with
    | false =>
      refine ⟨plans, ?_, List.forall₂_same.mpr fun p _ => RaisedPlan.refl p,
        fun _ => rfl, by simp⟩
      have hoff : (tallied (withBudget base budget)
          (tally plans)).enabled = false := henabled
      simp [distribute, talliedSetup, hresolve', hleft, hpass, hoff]
    | true =>
      obtain ⟨remaining, hremaining, hremainingNat⟩ :=
        subExact_of_le (a := left) (b := sat (tally plans).auto) (by omega)
      obtain ⟨rest, refs, hloop, hsettles⟩ :=
        allocate_spec (remaining.toNat + 1) remaining (references plans)
          (Nat.lt_succ_self _) (references_valid hsound)
          (by have := references_weight_le plans; omega)
      obtain ⟨hraised, hrefs⟩ :=
        storeDirections_spec (grownRefs_of_slots hsettles.grown)
      refine ⟨storeDirections plans refs, ?_, hraised, by simp, fun _ => ?_⟩
      · have hflag : (tallied (withBudget base budget)
            (tally plans)).aggregateOverflow = false := hoverflow
        have hon : (tallied (withBudget base budget)
            (tally plans)).enabled = true := henabled
        simp only [distribute, talliedSetup, hresolve', hleft, hpass, ok_bind,
          pure_eq_ok, Bool.false_eq_true, if_false]
        rw [if_pos hon, hremaining, ok_bind, hflag, hloop, ok_bind, clearOverflow_eq hflag]
      · refine ⟨rest.toNat, ?_⟩
        rw [hrefs, ← hautoNat, ← hleftEq, ← hremainingNat]
        exact hsettles
  · refine Or.inl ⟨hsuff, ?_⟩
    have hfail := mt htest.mp hsuff
    rw [Bool.not_eq_false] at hfail
    simp [distribute, talliedSetup, hresolve', hleft, hfail]

theorem resetContext_tallied (context : ContextPlan) :
    ({ context := resetContext context
       autoMinimumTotal := 0
       plans := []
       autoDirections := [] } : Setup) =
      talliedSetup (resetContext context) 0 [] [] := rfl

theorem contextFinalize_eq (context middle : ContextPlan) (plans plans' : List SocketPlan)
    (h : distribute (talliedSetup (resetContext context)
        (tally (plans.map (preparePlan context.profile)))
        (plans.map (preparePlan context.profile))
        (references (plans.map (preparePlan context.profile)))) =
      .ok (middle, plans'))
    (hmanual : middle.manualReservedHwmBytes = sat (manualReservation plans'))
    (hbig : 2 ^ 64 ≤ manualReservation plans' → middle.aggregateOverflow = true) :
    ∃ overflow total,
      overflow = (middle.aggregateOverflow || overflows (autoTotal plans') ||
        overflows (autoTotal plans' + manualReservation plans')) ∧
      total = sat (autoTotal plans' + manualReservation plans') ∧
      contextFinalize context plans =
        .ok ({ middle with
          totalPlannedHwmBytes := total
          totalAppliedHwmBytes := total
          aggregateOverflow := overflow
          budgetInsufficient := overflow || middle.budgetInsufficient }, plans') := by
  have hsetup : setupPlans (talliedSetup (resetContext context) 0 [] []) plans =
      .ok (talliedSetup (resetContext context) (tally (plans.map (preparePlan context.profile)))
        (plans.map (preparePlan context.profile))
        (references (plans.map (preparePlan context.profile)))) := by
    rw [setupPlans_tallied, Tally.zero_add]
    rfl
  have hauto := plannedAutoTotal_sat plans' 0 middle.aggregateOverflow
    (by omega)
  rw [sat_zero, Nat.zero_add] at hauto
  have htotal := saturatingAdd_sat (a := autoTotal plans')
    (b := manualReservation plans')
    (middle.aggregateOverflow || overflows (autoTotal plans'))
    (fun hbigAuto => by simp [(overflows_eq_true_iff _).mpr hbigAuto])
    (fun hbigManual => by simp [hbig hbigManual])
  refine ⟨_, _, rfl, rfl, ?_⟩
  rw [contextFinalize, resetContext_tallied, hsetup]
  simp only [ok_bind, h, hauto, hmanual, htotal, pure_eq_ok]
  generalize (middle.aggregateOverflow || overflows (autoTotal plans') ||
    overflows (autoTotal plans' + manualReservation plans')) = overflow
  cases overflow <;> simp

theorem Raised.manualBytes {d d' : Direction} (h : Raised d d') :
    d'.manualBytes = d.manualBytes := by
  cases hmanual : d.manual with
  | true =>
    have hhwm := h.kept (by simp [Direction.automatic, hmanual])
    rw [h.shape, hhwm]
  | false =>
    rw [h.shape]
    simp [Direction.manualBytes, hmanual]

theorem Raised.sound {d d' : Direction} (h : Raised d d') (hd : d.Sound) : d'.Sound := by
  rw [h.shape]
  refine ⟨fun hauto => ?_, fun hauto => ?_, hd.room⟩
  · exact UInt64.le_trans (hd.minimum_le hauto) h.level_le
  · exact h.le_maximum (hd.le_maximum hauto)

variable {plans' : List SocketPlan}

theorem manualReservation_raised {plans : List SocketPlan}
    (h : List.Forall₂ RaisedPlan plans plans') :
    manualReservation plans' = manualReservation plans := by
  induction h with
  | nil => rfl
  | cons hplan _ ih =>
    rw [manualReservation_cons, manualReservation_cons, ih,
      hplan.send.manualBytes, hplan.receive.manualBytes]

theorem soundPlans_raised {plans : List SocketPlan}
    (h : List.Forall₂ RaisedPlan plans plans') (hsound : SoundPlans plans) : SoundPlans plans' := by
  induction h with
  | nil => simpa using hsound
  | @cons plan plan' plans plans' hplan _ ih =>
    have hrest := ih fun d hd => hsound d (by simp [hd])
    intro d hd
    simp only [directions_cons, List.mem_cons] at hd
    rcases hd with rfl | rfl | hd
    · exact hplan.send.sound (hsound _ (by simp))
    · exact hplan.receive.sound (hsound _ (by simp))
    · exact hrest d hd

/-- The planner, end to end. The prepared plans and their totals are determined
by the input; either the budget does not suffice for the minimums and they stay
where they are, or it does and the rounds settle on the rest. -/
theorem contextFinalize_spec (context : ContextPlan) (plans : List SocketPlan) :
    let prepared := plans.map (preparePlan context.profile)
    ∃ budget,
      resolveBudget (tallied (resetContext context) (tally prepared)) =
        .ok (tallied (withBudget (resetContext context) budget) (tally prepared)) ∧
      ((¬Sufficient prepared budget ∧ ∃ final,
          contextFinalize context plans = .ok (final, prepared) ∧
          final.budgetInsufficient = true) ∨
        (Sufficient prepared budget ∧ ∃ plans', contextFinalize context plans =
            .ok ({ tallied (withBudget (resetContext context) budget)
                (tally prepared) with
              totalPlannedHwmBytes :=
                sat (autoTotal plans' + manualReservation prepared)
              totalAppliedHwmBytes :=
                sat (autoTotal plans' + manualReservation prepared) }, plans') ∧
          List.Forall₂ RaisedPlan prepared plans' ∧
          autoTotal plans' + manualReservation prepared ≤ budget.toNat ∧
          (context.enabled = true → Settles
              (budget.toNat - manualReservation prepared - autoTotal prepared)
              (slots (references prepared))
              (budget.toNat - manualReservation prepared - autoTotal plans')
              (slots (references plans'))))) := by
  intro prepared
  have hsound : SoundPlans prepared := preparePlan_sound context.profile plans
  obtain ⟨budget, hresolve, ⟨hno, hdistribute⟩ |
    ⟨hsuff, plans', hdistribute, hraised, hoff, hon⟩⟩ :=
    distribute_spec (resetContext context) hsound
  · refine ⟨budget, hresolve, Or.inl ⟨hno, ?_⟩⟩
    obtain ⟨overflow, total, -, -, hfinal⟩ := contextFinalize_eq context _ plans
      prepared hdistribute (congrArg sat (tally_manual prepared))
      (fun hbig => (tally prepared).overflow_eq_true_iff.mpr
        (Or.inr (Or.inl (by rwa [tally_manual]))))
    exact ⟨_, hfinal, by simp⟩
  · have hmanual : manualReservation plans' = manualReservation prepared :=
      manualReservation_raised hraised
    have hle : autoTotal plans' + manualReservation prepared ≤ budget.toNat ∧
        (context.enabled = true → Settles
            (budget.toNat - manualReservation prepared - autoTotal prepared)
            (slots (references prepared))
            (budget.toNat - manualReservation prepared - autoTotal plans')
            (slots (references plans'))) := by
      have hbound := hsuff.2
      cases henabled : context.enabled with
      | false =>
        rw [hoff henabled]
        exact ⟨hbound, by simp⟩
      | true =>
        obtain ⟨rest, hsettles⟩ := hon henabled
        have hcharge := hsettles.charge
        rw [charge_references (soundPlans_raised hraised hsound),
          charge_references hsound] at hcharge
        have hrest : rest = budget.toNat - manualReservation prepared -
            autoTotal plans' := by
          omega
        rw [hrest] at hsettles
        exact ⟨by omega, fun _ => hsettles⟩
    refine ⟨budget, hresolve, Or.inr ⟨hsuff, plans', ?_, hraised, hle⟩⟩
    obtain ⟨overflow, total, hoverflow, htotal, hfinal⟩ := contextFinalize_eq
      context _ plans plans' hdistribute
      (congrArg sat ((tally_manual prepared).trans hmanual.symm))
      (fun hbig => (tally prepared).overflow_eq_true_iff.mpr
        (Or.inr (Or.inl (by rwa [tally_manual, ← hmanual]))))
    have hbudget := toNat_lt_pow budget
    have hclear : overflow = false := by
      rw [hoverflow, Bool.or_eq_false_iff, Bool.or_eq_false_iff,
        overflows_eq_false_iff, overflows_eq_false_iff]
      exact ⟨⟨hsuff.1, by omega⟩, by omega⟩
    have hflag : (tallied (withBudget (resetContext context) budget)
        (tally prepared)).aggregateOverflow = false := hsuff.1
    rw [hfinal, htotal, hclear, hmanual, Bool.false_or, ← hflag]

/-- What the planner guarantees for one plan: nothing but the bounds and the
HWMs change, manual and unplanned directions keep theirs, and automatic
directions lie between the bounds of their role. -/
structure Finalized (profile : Profile) (plan plan' : SocketPlan) : Prop where
  shape : plan' =
    { plan with
      minimumHwmBytes := profileMinimumBytes profile plan.role
      maximumHwmBytes := profileMaximumBytes profile plan.role
      sndhwm := plan'.sndhwm
      rcvhwm := plan'.rcvhwm }
  manualSndhwm : plan.manualSndhwm = true → plan'.sndhwm = plan.sndhwm
  manualRcvhwm : plan.manualRcvhwm = true → plan'.rcvhwm = plan.rcvhwm
  unplanned : plan.planningEnabled = false →
    plan'.sndhwm = plan.sndhwm ∧ plan'.rcvhwm = plan.rcvhwm
  autoSndhwm : plan.planningEnabled = true → plan.manualSndhwm = false →
    profileMinimumBytes profile plan.role ≤ plan'.sndhwm ∧
      plan'.sndhwm ≤ profileMaximumBytes profile plan.role
  autoRcvhwm : plan.planningEnabled = true → plan.manualRcvhwm = false →
    profileMinimumBytes profile plan.role ≤ plan'.rcvhwm ∧
      plan'.rcvhwm ≤ profileMaximumBytes profile plan.role

theorem finalized_of_raised {profile : Profile} {plan plan' : SocketPlan}
    (h : RaisedPlan (preparePlan profile plan) plan') : Finalized profile plan plan' := by
  have hbounds := profileMinimumBytes_le_maximum profile plan.role
  have hsendKept : (plan.planningEnabled && !plan.manualSndhwm) = false →
      plan'.sndhwm = plan.sndhwm := by
    intro hoff
    have hkept : plan'.sndhwm = (preparePlan profile plan).sndhwm :=
      h.send.kept hoff
    rw [hkept]
    simp [preparePlan, hoff]
  have hreceiveKept : (plan.planningEnabled && !plan.manualRcvhwm) = false →
      plan'.rcvhwm = plan.rcvhwm := by
    intro hoff
    have hkept : plan'.rcvhwm = (preparePlan profile plan).rcvhwm :=
      h.receive.kept hoff
    rw [hkept]
    simp [preparePlan, hoff]
  refine ⟨h.shape, fun hm => hsendKept (by simp [hm]),
    fun hm => hreceiveKept (by simp [hm]),
    fun hoff => ⟨hsendKept (by simp [hoff]), hreceiveKept (by simp [hoff])⟩,
    fun hon hm => ?_, fun hon hm => ?_⟩
  · have hstart : (preparePlan profile plan).sndhwm =
        profileMinimumBytes profile plan.role := by
      simp [preparePlan, hon, hm]
    have hlow : (preparePlan profile plan).sndhwm ≤ plan'.sndhwm :=
      h.send.level_le
    have hhigh : (preparePlan profile plan).sndhwm ≤
        profileMaximumBytes profile plan.role →
        plan'.sndhwm ≤ profileMaximumBytes profile plan.role :=
      h.send.le_maximum
    rw [hstart] at hlow hhigh
    exact ⟨hlow, hhigh hbounds⟩
  · have hstart : (preparePlan profile plan).rcvhwm =
        profileMinimumBytes profile plan.role := by
      simp [preparePlan, hon, hm]
    have hlow : (preparePlan profile plan).rcvhwm ≤ plan'.rcvhwm :=
      h.receive.level_le
    have hhigh : (preparePlan profile plan).rcvhwm ≤
        profileMaximumBytes profile plan.role →
        plan'.rcvhwm ≤ profileMaximumBytes profile plan.role :=
      h.receive.le_maximum
    rw [hstart] at hlow hhigh
    exact ⟨hlow, hhigh hbounds⟩

theorem forall₂_finalized {profile : Profile} {plans : List SocketPlan}
    (h : List.Forall₂ RaisedPlan (plans.map (preparePlan profile)) plans') :
    List.Forall₂ (Finalized profile) plans plans' := by
  rw [List.forall₂_map_left_iff] at h
  exact h.imp fun _ _ => finalized_of_raised

/-- `budget` is what the planner resolves as effective budget once the prepared plans
are counted. -/
def Resolves (context : ContextPlan) (prepared : List SocketPlan) (budget : UInt64) : Prop :=
  resolveBudget (tallied (resetContext context) (tally prepared)) =
    .ok (tallied (withBudget (resetContext context) budget) (tally prepared))

/-- Budget safety. The planner ends without a wrapped word operation for every
context and every list of plans; every plan is finalized within its bounds; the
budget is reported insufficient exactly when the prepared plans do not fit it;
and when it is not, the automatic bytes and the manual reservation together are
within the effective budget. -/
theorem contextFinalize_withinBudget (context : ContextPlan) (plans : List SocketPlan) :
    ∃ final plans', contextFinalize context plans = .ok (final, plans') ∧
      List.Forall₂ (Finalized context.profile) plans plans' ∧
      (∃ budget, Resolves context (plans.map (preparePlan context.profile)) budget ∧
        (final.budgetInsufficient = false ↔
          Sufficient (plans.map (preparePlan context.profile)) budget)) ∧
      (final.budgetInsufficient = false →
        final.manualReservedHwmBytes.toNat = manualReservation plans' ∧
          autoTotal plans' + manualReservation plans' ≤ final.effectiveCoreBudgetBytes.toNat) := by
  obtain ⟨budget, hresolve, ⟨hno, final, hfinal, hflag⟩ |
    ⟨hsuff, plans', hfinal, hraised, hle, -⟩⟩ := contextFinalize_spec context plans
  · refine ⟨final, _, hfinal, forall₂_finalized
      (List.forall₂_same.mpr fun p _ => RaisedPlan.refl p), ⟨budget, hresolve, ?_⟩, ?_⟩
    · simp [hflag, hno]
    · simp [hflag]
  · refine ⟨_, plans', hfinal, forall₂_finalized hraised,
      ⟨budget, hresolve, iff_of_true rfl hsuff⟩, fun _ => ?_⟩
    have hmanual := manualReservation_raised hraised
    have hbudget := toNat_lt_pow budget
    rw [hmanual]
    refine ⟨?_, hle⟩
    change (sat (tally _).manual).toNat = _
    rw [tally_manual, toNat_sat_of_lt (by omega)]

/-- One stream and two data plans, with a manual direction and one of two queues. -/
def threePlans : List SocketPlan :=
  [socketPlanPrepare .stream 1 1 false 0 true 4096 true,
    socketPlanPrepare .connectionData 1 1 false 0 false 0 true,
    socketPlanPrepare .connectionData 2 0 false 0 true 0 true]

/-- A budget one byte below the minimums and the manual reservation is reported, and
every automatic direction stays at its minimum. -/
theorem contextFinalize_withinBudget_short : ∃ context,
    contextPlanMake ⟨true, .compact, 0, 143359, 0, 0⟩ = .ok context ∧
    ∃ final plans', contextFinalize context threePlans = .ok (final, plans') ∧
      final.budgetInsufficient = true ∧
      List.Forall₂ (Finalized context.profile) threePlans plans' ∧
      plans'.map (fun plan => (plan.sndhwm, plan.rcvhwm)) =
        [(8192, 4096), (32768, 32768), (32768, 0)] := by
  obtain ⟨context, hmake⟩ : ∃ context,
      contextPlanMake ⟨true, .compact, 0, 143359, 0, 0⟩ = .ok context := ⟨_, rfl⟩
  have heval : ((contextPlanMake ⟨true, .compact, 0, 143359, 0, 0⟩).bind fun context =>
      (contextFinalize context threePlans).map fun r =>
        (r.1.budgetInsufficient, r.2.map fun plan => (plan.sndhwm, plan.rcvhwm))) =
      .ok (true, [(8192, 4096), (32768, 32768), (32768, 0)]) := by decide +kernel
  obtain ⟨final, plans', hfinal, hfinalized, -⟩ :=
    contextFinalize_withinBudget context threePlans
  simp only [hmake, hfinal, Except.bind, Except.map, Except.ok.injEq, Prod.mk.injEq] at heval
  exact ⟨context, hmake, final, plans', hfinal, heval.1, hfinalized, heval.2⟩

structure Peers (d e : Direction) : Prop where
  automatic : d.automatic = true ∧ e.automatic = true
  minimum : d.minimum = e.minimum
  maximum : d.maximum = e.maximum
  queueCount : d.queueCount = 1 ∧ e.queueCount = 1

theorem profileMinimumBytes_eq_of_maximum (profile : Profile)
    {role role' : Role} (hrole : role ≠ .none) (hrole' : role' ≠ .none)
    (h : profileMaximumBytes profile role = profileMaximumBytes profile role') :
    profileMinimumBytes profile role = profileMinimumBytes profile role' := by
  have hdata : ∀ r : Role, r ≠ .none → streamRole r = false →
      profileMinimumBytes profile r = (profileBudget profile).dataMinimum ∧
        profileMaximumBytes profile r ≠ (profileBudget profile).streamMaximum := by
    intro r
    cases profile <;> cases r <;> decide
  have hstream : ∀ r : Role, streamRole r = true →
      profileMinimumBytes profile r = (profileBudget profile).streamMinimum ∧
        profileMaximumBytes profile r = (profileBudget profile).streamMaximum := by
    intro r
    cases profile <;> cases r <;> decide
  cases hs : streamRole role <;> cases hs' : streamRole role'
  · rw [(hdata role hrole hs).1, (hdata role' hrole' hs').1]
  · exact absurd (h.trans (hstream role' hs').2) (hdata role hrole hs).2
  · exact absurd (h.symm.trans (hstream role hs).2) (hdata role' hrole' hs').2
  · rw [(hstream role hs).1, (hstream role' hs').1]

theorem prepared_even (profile : Profile) (plans : List SocketPlan) (r : ℕ) :
    (slots (references (plans.map (preparePlan profile)))).Pairwise (Even r) := by
  have hlevel : ∀ d ∈ directions (plans.map (preparePlan profile)),
      d.automatic = true → ∃ role : Role,
        d.minimum = profileMinimumBytes profile role ∧
        d.maximum = profileMaximumBytes profile role ∧ d.hwm = d.minimum := by
    intro d hd hauto
    obtain ⟨plan, hplan, hd⟩ := List.mem_flatMap.mp hd
    obtain ⟨plan, -, rfl⟩ := List.mem_map.mp hplan
    refine ⟨plan.role, ?_⟩
    simp only [SocketPlan.directions, List.mem_cons, List.not_mem_nil, or_false] at hd
    rcases hd with rfl | rfl
    · simp_all [SocketPlan.sendDirection, preparePlan, Direction.automatic]
    · simp_all [SocketPlan.receiveDirection, preparePlan, Direction.automatic]
  have hrole : ∀ role : Role, profileMinimumBytes profile role <
      profileMaximumBytes profile role → role ≠ .none := by
    rintro role hlt rfl
    exact absurd hlt (by simp [profileMinimumBytes, profileMaximumBytes])
  rw [slots, references, List.pairwise_map, List.pairwise_filterMap]
  refine List.Pairwise.imp_of_mem ?_ (List.pairwise_of_forall
    (R := fun _ _ => True) (by simp))
  rintro d e hd he - b hb b' hb' hcap - -
  obtain ⟨hauto, -, hlt, rfl⟩ := Direction.reference?_eq_some hb
  obtain ⟨hauto', -, hlt', rfl⟩ := Direction.reference?_eq_some hb'
  obtain ⟨role, hmin, hmax, hhwm⟩ := hlevel d hd hauto
  obtain ⟨role', hmin', hmax', hhwm'⟩ := hlevel e he hauto'
  have hcaps : d.maximum = e.maximum := UInt64.ext_iff.mpr hcap
  rw [hmin, hmax] at hlt
  rw [hmin', hmax'] at hlt'
  rw [hmax, hmax'] at hcaps
  refine Or.inl ?_
  change d.hwm.toNat = e.hwm.toNat
  rw [hhwm, hhwm', hmin, hmin', profileMinimumBytes_eq_of_maximum profile
    (hrole role hlt) (hrole role' hlt') hcaps]

theorem Direction.Sound.reference_or_zero {d : Direction} (h : d.Sound)
    (hauto : d.automatic = true) (hqueue : 0 < d.queueCount) :
    d.reference? = some ⟨d.hwm, d.queueCount, d.maximum⟩ ∨ (d.hwm = 0 ∧ d.maximum = 0) := by
  rcases h.room with hroom | hzero
  · exact Or.inl (if_pos ⟨hauto, hqueue, hroom⟩)
  · have hle := UInt64.le_iff_toNat_le.mp (h.le_maximum hauto)
    rw [hzero] at hle
    exact Or.inr ⟨(eq_zero_iff _).mpr (Nat.le_zero.mp hle), hzero⟩

/-- Maximality and fairness. The allocation loop ends for every input. Whether the
budget suffices is decided by the plans and the budget alone, and the planner
reports it so. When the planner is enabled and the budget suffices, the whole budget
is accounted for, and what is left of it does not pay for one more unit of any
automatic direction that has a queue and is below its maximum; and of two peers the
later one is level with the earlier one, or one unit behind it with nothing left. -/
theorem contextFinalize_maximal_and_fair (context : ContextPlan) (plans : List SocketPlan) :
    let prepared := plans.map (preparePlan context.profile)
    ∃ budget final plans' remaining, Resolves context prepared budget ∧
      contextFinalize context plans = .ok (final, plans') ∧
      List.Forall₂ (Finalized context.profile) plans plans' ∧
      (final.budgetInsufficient = false ↔ Sufficient prepared budget) ∧
      (context.enabled = true → Sufficient prepared budget →
        final.effectiveCoreBudgetBytes = budget ∧
          final.manualReservedHwmBytes.toNat = manualReservation plans' ∧
          remaining + autoTotal plans' + manualReservation plans' = budget.toNat ∧
          (∀ d ∈ directions plans', d.automatic = true → 0 < d.queueCount →
            d.hwm = d.maximum ∨ remaining < d.queueCount.toNat) ∧
          (directions plans').Pairwise fun d e => Peers d e →
            d.hwm = e.hwm ∨
              (remaining = 0 ∧ d.hwm.toNat = e.hwm.toNat + 1)) := by
  obtain ⟨budget, hresolve, ⟨hno, final, hfinal, hflag⟩ |
    ⟨hsuff, plans', hfinal, hraised, hle, hsettles⟩⟩ :=
    contextFinalize_spec context plans
  · exact ⟨budget, final, _, 0, hresolve, hfinal, forall₂_finalized
      (List.forall₂_same.mpr fun p _ => RaisedPlan.refl p),
      by simp [hflag, hno], fun _ hsuff => absurd hsuff hno⟩
  · have hsound := preparePlan_sound context.profile plans
    have hsound' := soundPlans_raised hraised hsound
    have hkept := manualReservation_raised hraised
    set manual := manualReservation (plans.map (preparePlan context.profile))
      with hmanual
    have hbudget := toNat_lt_pow budget
    refine ⟨budget, _, plans', budget.toNat - manual - autoTotal plans', hresolve, hfinal,
      forall₂_finalized hraised, iff_of_true rfl hsuff,
      fun henabled _ => ⟨rfl, ?_, by omega, ?_, ?_⟩⟩
    · change (sat (tally _).manual).toNat = _
      rw [tally_manual, toNat_sat_of_lt (by omega), hkept]
    · intro d hd hauto hqueue
      rcases (hsound' d hd).reference_or_zero hauto hqueue with href | hzero
      · have hmem : (⟨d.hwm, d.queueCount, d.maximum⟩ : DirectionPlanRef).slot ∈
            slots (references plans') :=
          List.mem_map_of_mem (List.mem_filterMap.mpr ⟨d, hd, href⟩)
        rcases (hsettles henabled).spent (references_valid hsound) _ hmem with
          hfull | hlow
        · refine Or.inl (UInt64.le_antisymm ((hsound' d hd).le_maximum hauto) ?_)
          exact UInt64.le_iff_toNat_le.mpr hfull
        · exact Or.inr hlow
      · exact Or.inl (hzero.1.trans hzero.2.symm)
    · have heven := (hsettles henabled).even
        (prepared_even context.profile plans _)
      rw [slots, references, List.pairwise_map, List.pairwise_filterMap] at heven
      refine List.Pairwise.imp_of_mem ?_ heven
      intro d e hd he hpair hpeers
      have hone : (0 : UInt64) < 1 := by decide
      rcases (hsound' d hd).reference_or_zero hpeers.automatic.1
        (by rw [hpeers.queueCount.1]; exact hone) with href | hzero
      · rcases (hsound' e he).reference_or_zero hpeers.automatic.2
          (by rw [hpeers.queueCount.2]; exact hone) with href' | hzero'
        · rcases hpair _ href _ href' (UInt64.ext_iff.mp hpeers.maximum)
            (UInt64.ext_iff.mp hpeers.queueCount.1)
            (UInt64.ext_iff.mp hpeers.queueCount.2) with heq | hahead
          · exact Or.inl (UInt64.ext_iff.mpr heq)
          · exact Or.inr hahead
        · have hle := UInt64.le_iff_toNat_le.mp
            ((hsound' d hd).le_maximum hpeers.automatic.1)
          rw [hpeers.maximum, hzero'.2] at hle
          refine Or.inl ?_
          rw [hzero'.1, eq_zero_iff]
          exact Nat.le_zero.mp hle
      · have hle := UInt64.le_iff_toNat_le.mp
          ((hsound' e he).le_maximum hpeers.automatic.2)
        rw [← hpeers.maximum, hzero.2] at hle
        refine Or.inl ?_
        rw [hzero.1, eq_comm, eq_zero_iff]
        exact Nat.le_zero.mp hle

/-- The stream direction is full after the first round, the second round raises the
other three, and the last unit goes to the earlier of the two peers. -/
theorem contextFinalize_maximal_and_fair_rounds : ∃ context,
    contextPlanMake ⟨true, .compact, 0, 393365, 0, 0⟩ = .ok context ∧
    ∃ final plans' remaining, contextFinalize context threePlans = .ok (final, plans') ∧
      final.budgetInsufficient = false ∧
      plans'.map (fun plan => (plan.sndhwm, plan.rcvhwm)) =
        [(32768, 4096), (89126, 89125), (89125, 0)] ∧
      remaining + autoTotal plans' + manualReservation plans' = 393365 := by
  obtain ⟨context, hmake⟩ : ∃ context,
      contextPlanMake ⟨true, .compact, 0, 393365, 0, 0⟩ = .ok context := ⟨_, rfl⟩
  have heval : ((contextPlanMake ⟨true, .compact, 0, 393365, 0, 0⟩).bind fun context =>
      (contextFinalize context threePlans).map fun r => (context.enabled,
        r.1.budgetInsufficient, r.1.effectiveCoreBudgetBytes,
        r.2.map fun plan => (plan.sndhwm, plan.rcvhwm))) =
      .ok (true, false, 393365, [(32768, 4096), (89126, 89125), (89125, 0)]) := by
    decide +kernel
  obtain ⟨budget, final, plans', remaining, -, hfinal, -, hiff, hspent⟩ :=
    contextFinalize_maximal_and_fair context threePlans
  simp only [hmake, hfinal, Except.bind, Except.map, Except.ok.injEq, Prod.mk.injEq] at heval
  obtain ⟨henabled, hflag, heffective, hhwms⟩ := heval
  obtain ⟨hbudget, -, hsum, -⟩ := hspent henabled (hiff.mp hflag)
  rw [← hbudget, heffective] at hsum
  exact ⟨context, hmake, final, plans', remaining, hfinal, hflag, hhwms, hsum⟩

end Zlink.AutoHwm
