import Zlink.AutoHwm.Budget
import Zlink.AutoHwm.Registry

/-!
# The attach extension against the full replan

When the automatic directions of a plan share one role, water filling is one
division, and `extendApplicationPlan` computes its result for the enlarged set of
directions without running the rounds. This module proves what the shortcut and
the full replan agree on: the budget, the planned total, the counts, and the
target of an attaching direction that is outside the prefix which takes the
division remainder. Directions already in the plan keep their published target
until the next full replan.
-/

namespace Zlink.AutoHwm

open Word64 WaterFill

structure WaterLevel.Spec (context : ContextPlan) (added : UInt64)
    (water : WaterLevel) : Prop where
  directionCount : water.newDirectionCount.toNat =
    context.activeDirectionalQueueCount.toNat + added.toNat
  autoCount : water.newAutoCount.toNat = context.applicationAutoDirectionCount.toNat + added.toNat
  budget : (0 < context.configuredCoreBudgetBytes ∧
      water.newBudget = context.configuredCoreBudgetBytes) ∨
    (context.configuredCoreBudgetBytes = 0 ∧
      profileEffectiveBudget context.profile context.resolvedMemoryLimitBytes
        water.newDirectionCount = .ok water.newBudget)
  covers : (profileMinimumBytes context.profile
      context.applicationAutoRole).toNat * water.newAutoCount.toNat +
    context.manualReservedHwmBytes.toNat ≤ water.newBudget.toNat
  level : water.level.toNat =
    min (profileMaximumBytes context.profile context.applicationAutoRole).toNat
      ((profileMinimumBytes context.profile context.applicationAutoRole).toNat +
        (water.newBudget.toNat - context.manualReservedHwmBytes.toNat -
          (profileMinimumBytes context.profile
            context.applicationAutoRole).toNat * water.newAutoCount.toNat) /
          water.newAutoCount.toNat)
  total : water.newTotalPlanned.toNat = water.level.toNat * water.newAutoCount.toNat +
      (if water.level = profileMaximumBytes context.profile context.applicationAutoRole then 0
        else (water.newBudget.toNat - context.manualReservedHwmBytes.toNat -
          (profileMinimumBytes context.profile
            context.applicationAutoRole).toNat * water.newAutoCount.toNat) %
          water.newAutoCount.toNat) +
      context.manualReservedHwmBytes.toNat

theorem addSnapshotValue_sat (a b : UInt64) (overflow : Bool) :
    addSnapshotValue a b overflow = .ok (sat (a.toNat + b.toNat),
      overflow || overflows (a.toNat + b.toNat)) := by
  have ha := toNat_lt_pow a
  have hb := toNat_lt_pow b
  have h := saturatingAdd_sat (a := a.toNat) (b := b.toNat) overflow (by omega) (by omega)
  rwa [sat_toNat, sat_toNat] at h

theorem multiplySnapshotValue_sat (a b : UInt64) (overflow : Bool) :
    multiplySnapshotValue a b overflow = .ok (sat (a.toNat * b.toNat),
      overflow || overflows (a.toNat * b.toNat)) :=
  saturatingMultiply_sat a b overflow

theorem extensionBudget_spec (context : ContextPlan) (count : UInt64) :
    ∃ budget, extensionBudget context count = .ok budget ∧ ((0 < context.configuredCoreBudgetBytes ∧
          budget = context.configuredCoreBudgetBytes) ∨ (context.configuredCoreBudgetBytes = 0 ∧
          profileEffectiveBudget context.profile
            context.resolvedMemoryLimitBytes count = .ok budget)) := by
  by_cases hpos : 0 < context.configuredCoreBudgetBytes
  · exact ⟨_, if_pos hpos, Or.inl ⟨hpos, rfl⟩⟩
  · obtain ⟨budget, hbudget⟩ := profileEffectiveBudget_ok context.profile
      context.resolvedMemoryLimitBytes count
    have hzero : context.configuredCoreBudgetBytes = 0 := by
      rw [toNat_pos_iff] at hpos
      rw [eq_zero_iff]
      omega
    exact ⟨budget, (if_neg hpos).trans hbudget, Or.inr ⟨hzero, hbudget⟩⟩

/-- The level and the remainder of the division over `count` directions. -/
theorem levelAndRemainder_spec {minimum maximum : UInt64}
    (hbounds : minimum ≤ maximum) (remaining count : UInt64) : ∃ level remainder,
      levelAndRemainder minimum maximum remaining count = .ok (level, remainder) ∧
      level.toNat = min maximum.toNat (minimum.toNat + remaining.toNat / count.toNat) ∧
      remainder.toNat = if level = maximum then 0 else remaining.toNat % count.toNat := by
  have hle := UInt64.le_iff_toNat_le.mp hbounds
  have hmax := toNat_lt_pow maximum
  have hremaining := toNat_lt_pow remaining
  obtain ⟨headroom, hheadroom, hheadroomNat⟩ := subExact_of_le hle
  have hshare : (remaining / count).toNat = remaining.toNat / count.toNat :=
    UInt64.toNat_div _ _
  by_cases hfull : headroom ≤ remaining / count
  · have hfullNat := UInt64.le_iff_toNat_le.mp hfull
    refine ⟨maximum, 0, by simp [levelAndRemainder, hheadroom, hfull], by omega, by simp⟩
  · have hroom : remaining.toNat / count.toNat < headroom.toNat := by
      rw [UInt64.le_iff_toNat_le] at hfull
      omega
    obtain ⟨level, hlevel, hlevelNat⟩ :=
      addExact_of_lt (a := minimum) (b := remaining / count) (by omega)
    have hdiv := Nat.div_add_mod remaining.toNat count.toNat
    rw [Nat.mul_comm] at hdiv
    obtain ⟨spent, hspent, hspentNat⟩ :=
      mulExact_of_lt (a := remaining / count) (b := count) (by rw [hshare]; omega)
    rw [hshare] at hspentNat
    obtain ⟨remainder, hremainder, hremainderNat⟩ :=
      subExact_of_le (a := remaining) (b := spent) (by omega)
    refine ⟨level, remainder, ?_, by omega, ?_⟩
    · simp [levelAndRemainder, hheadroom, hfull, hlevel, hspent, hremainder]
    · have hne : level ≠ maximum := fun h => by
        rw [h] at hlevelNat
        omega
      rw [if_neg hne]
      omega

theorem waterLevel_spec {context : ContextPlan} {added : UInt64}
    {water : WaterLevel} (h : waterLevel context added = .ok (some water)) :
    WaterLevel.Spec context added water := by
  have hbounds := profileMinimumBytes_le_maximum context.profile context.applicationAutoRole
  simp only [waterLevel, addSnapshotValue_sat, Bool.false_or, ok_bind, pure_eq_ok] at h
  split at h
  · cases h
  case isFalse hfit =>
  rw [Bool.not_eq_true, Bool.or_eq_false_iff, overflows_eq_false_iff,
    overflows_eq_false_iff] at hfit
  have hdirections := toNat_sat_of_lt hfit.1
  have hautos := toNat_sat_of_lt hfit.2
  obtain ⟨budget, hbudget, hbudgetCases⟩ := extensionBudget_spec context
    (sat (context.activeDirectionalQueueCount.toNat + added.toNat))
  rw [hbudget, ok_bind] at h
  split at h
  · cases h
  case isFalse hmanual =>
  rw [UInt64.lt_iff_toNat_lt, Nat.not_lt] at hmanual
  obtain ⟨left, hleft, hleftNat⟩ := subExact_of_le hmanual
  simp only [hleft, multiplySnapshotValue_sat, ok_bind] at h
  split at h
  · cases h
  case isFalse hcover =>
  rw [not_or, Bool.not_eq_true, Bool.or_eq_false_iff, overflows_eq_false_iff,
    UInt64.lt_iff_toNat_lt, Nat.not_lt] at hcover
  obtain ⟨⟨-, hproduct⟩, hcover⟩ := hcover
  have hproductNat := toNat_sat_of_lt hproduct
  obtain ⟨remaining, hremaining, hremainingNat⟩ := subExact_of_le hcover
  rw [hproductNat] at hcover hremainingNat
  obtain ⟨level, remainder, hlevel, hlevelNat, hremainderNat⟩ :=
    levelAndRemainder_spec hbounds remaining
      (sat (context.applicationAutoDirectionCount.toNat + added.toNat))
  rw [hremaining, ok_bind, hlevel, ok_bind] at h
  split at h
  · cases h
  case isFalse hsum =>
  cases h
  simp only [Bool.not_eq_true, Bool.or_eq_false_iff, overflows_eq_false_iff]
    at hsum
  obtain ⟨⟨⟨-, hlevels⟩, hautoTotal⟩, htotal⟩ := hsum
  rw [toNat_sat_of_lt hlevels] at hautoTotal htotal
  rw [toNat_sat_of_lt hautoTotal] at htotal
  refine ⟨hdirections, hautos, hbudgetCases, by simp only; omega, ?_, ?_⟩
  · simp only
    rw [hlevelNat, hremainingNat, hleftNat]
  · simp only
    rw [toNat_sat_of_lt hlevels, toNat_sat_of_lt hautoTotal,
      toNat_sat_of_lt htotal, hremainderNat, hremainingNat, hleftNat]

variable (profile : Profile)

def preparedPlans (inputs : List PlannedInput) : List SocketPlan :=
  (inputs.map PlannedInput.plan).map (preparePlan profile)

@[simp] theorem preparedPlans_cons (input : PlannedInput)
    (inputs : List PlannedInput) : preparedPlans profile (input :: inputs) =
      preparePlan profile input.plan :: preparedPlans profile inputs := rfl

theorem preparedPlans_append (inputs inputs' : List PlannedInput) :
    preparedPlans profile (inputs ++ inputs') =
      preparedPlans profile inputs ++ preparedPlans profile inputs' := by
  simp [preparedPlans]

def autoCount (inputs : List PlannedInput) : ℕ :=
  inputs.countP fun input => !input.manual

def Uniform (role : Role) (inputs : List PlannedInput) : Prop :=
  ∀ input ∈ inputs, input.resolved.role ≠ .none ∧
    (input.manual = false → input.resolved.role = role)

section Input

variable {profile : Profile} {input : PlannedInput}

theorem prepared_enabled (hrole : input.resolved.role ≠ .none) :
    (preparePlan profile input.plan).planningEnabled = true := by
  simp [preparePlan, PlannedInput.plan, socketPlanPrepare, hrole]

theorem prepared_sendDirection (hrole : input.resolved.role ≠ .none) :
    (preparePlan profile input.plan).sendDirection =
      ⟨true, input.manual, 1, profileMinimumBytes profile input.resolved.role,
        profileMaximumBytes profile input.resolved.role,
        if input.manual then
          if input.resolved.finiteManualSeen then input.resolved.finiteManualHwm
          else 0
        else profileMinimumBytes profile input.resolved.role⟩ := by
  cases hmanual : input.manual <;>
    simp [SocketPlan.sendDirection, preparePlan, PlannedInput.plan,
      socketPlanPrepare, hrole, hmanual]

theorem prepared_receiveDirection (hrole : input.resolved.role ≠ .none) :
    (preparePlan profile input.plan).receiveDirection =
      ⟨true, false, 0, profileMinimumBytes profile input.resolved.role,
        profileMaximumBytes profile input.resolved.role,
        profileMinimumBytes profile input.resolved.role⟩ := by
  simp [SocketPlan.receiveDirection, preparePlan, PlannedInput.plan, socketPlanPrepare, hrole]

theorem references_prepared (hrole : input.resolved.role ≠ .none) :
    references [preparePlan profile input.plan] =
      if input.manual then []
      else [⟨profileMinimumBytes profile input.resolved.role, 1,
        profileMaximumBytes profile input.resolved.role⟩] := by
  have hroom := profileMinimumBytes_lt_maximum profile hrole
  rw [references_single, prepared_sendDirection hrole, prepared_receiveDirection hrole]
  cases input.manual <;>
    simp [Direction.reference?, Direction.automatic, hroom]

theorem planTally_prepared (hrole : input.resolved.role ≠ .none) :
    planTally (preparePlan profile input.plan) = ⟨if input.manual then 0
          else (profileMinimumBytes profile input.resolved.role).toNat,
        (preparePlan profile input.plan).sendDirection.manualBytes, 1, 0,
        (preparePlan profile input.plan).sendDirection.unlimitedQueues⟩ := by
  have hqueues : queueTally (preparePlan profile input.plan) = ⟨0, 0, 1, 0, 0⟩ := rfl
  have hreceive : directionTally (preparePlan profile input.plan).receiveDirection = 0 := by
    rw [prepared_receiveDirection hrole]
    simp [directionTally, Direction.autoBytes, Direction.manualBytes, Direction.unlimitedQueues]
    rfl
  have hauto : (preparePlan profile input.plan).sendDirection.autoBytes =
      if input.manual then 0
      else (profileMinimumBytes profile input.resolved.role).toNat := by
    rw [prepared_sendDirection hrole]
    cases input.manual <;> simp [Direction.autoBytes, Direction.automatic]
  rw [planTally, if_pos (prepared_enabled hrole), hqueues, hreceive,
    Tally.add_zero, directionTally, hauto]
  ext <;> simp

theorem prepared_auto (profile : Profile) (hrole : input.resolved.role ≠ .none)
    (hauto : input.manual = false) :
    (preparePlan profile input.plan).sendDirection.manualBytes = 0 ∧
      (preparePlan profile input.plan).sendDirection.unlimitedQueues = 0 := by
  rw [prepared_sendDirection hrole, hauto]
  simp [Direction.manualBytes, Direction.unlimitedQueues]

end Input

theorem tally_append (plans plans' : List SocketPlan) :
    tally (plans ++ plans') = tally plans + tally plans' := by
  induction plans with
  | nil => rw [List.nil_append, tally_nil, Tally.zero_add]
  | cons plan plans ih =>
    rw [List.cons_append, tally_cons, tally_cons, ih, Tally.add_assoc]

theorem references_append (plans plans' : List SocketPlan) :
    references (plans ++ plans') = references plans ++ references plans' := by
  simp [references, directions]

theorem tally_uniform {role : Role} {inputs : List PlannedInput} (h : Uniform role inputs) :
    (tally (preparedPlans profile inputs)).auto =
        (profileMinimumBytes profile role).toNat * autoCount inputs ∧
      (tally (preparedPlans profile inputs)).send = inputs.length ∧
      (tally (preparedPlans profile inputs)).receive = 0 := by
  induction inputs with
  | nil => exact ⟨rfl, rfl, rfl⟩
  | cons input inputs ih =>
    obtain ⟨hauto, hsend, hreceive⟩ := ih fun i hi =>
      h i (List.mem_cons_of_mem _ hi)
    obtain ⟨hrole, heq⟩ := h input List.mem_cons_self
    rw [preparedPlans_cons, tally_cons, planTally_prepared hrole]
    simp only [Tally.add_auto, Tally.add_send, Tally.add_receive, hauto, hsend,
      hreceive, List.length_cons]
    refine ⟨?_, by omega, trivial⟩
    cases hmanual : input.manual with
    | true => simp [autoCount, hmanual]
    | false =>
      rw [heq hmanual]
      simp [autoCount, hmanual, Nat.mul_add, Nat.add_comm]

theorem references_uniform {profile : Profile} {role : Role}
    {inputs : List PlannedInput} (h : Uniform role inputs) :
    references (preparedPlans profile inputs) =
      List.replicate (autoCount inputs) ⟨profileMinimumBytes profile role, 1,
        profileMaximumBytes profile role⟩ := by
  induction inputs with
  | nil => rfl
  | cons input inputs ih =>
    have htail := ih fun i hi => h i (List.mem_cons_of_mem _ hi)
    obtain ⟨hrole, heq⟩ := h input List.mem_cons_self
    rw [preparedPlans_cons, references_cons, references_prepared hrole, htail]
    cases hmanual : input.manual with
    | true => simp [autoCount, hmanual]
    | false =>
      rw [heq hmanual]
      simp [autoCount, hmanual, List.replicate_succ]

theorem tally_allAuto (inputs : List PlannedInput)
    (h : ∀ input ∈ inputs, input.resolved.role ≠ .none ∧ input.manual = false) :
    (tally (preparedPlans profile inputs)).manual = 0 ∧
      (tally (preparedPlans profile inputs)).unlimited = 0 := by
  induction inputs with
  | nil => exact ⟨rfl, rfl⟩
  | cons input inputs ih =>
    obtain ⟨hmanual, hunlimited⟩ := ih fun i hi =>
      h i (List.mem_cons_of_mem _ hi)
    obtain ⟨hrole, hauto⟩ := h input List.mem_cons_self
    obtain ⟨hbytes, hqueues⟩ := prepared_auto profile hrole hauto
    rw [preparedPlans_cons, tally_cons, planTally_prepared hrole]
    simp [hmanual, hunlimited, hbytes, hqueues]

/-- A context that describes exactly the given directions: the options of `fresh`
and the counts and reservations of a full replan over them. -/
structure InSync (fresh context : ContextPlan) (inputs : List PlannedInput) : Prop where
  options : resetContext (withBudget context 0) = resetContext (withBudget fresh 0)
  directionCount : context.activeDirectionalQueueCount = UInt64.ofNat inputs.length
  sendCount : context.activeSendQueueCount = countInputs (fun i => i.resolved.writerSeen) inputs
  receiveCount : context.activeReceiveQueueCount =
    countInputs (fun i => i.resolved.readerSeen) inputs
  autoCount : context.applicationAutoDirectionCount = countInputs (fun i => !i.manual) inputs
  uniform : Uniform context.applicationAutoRole inputs
  maxId : context.maxPlannedQueueId = maxQueueId inputs
  exact : (tally (preparedPlans fresh.profile inputs)).overflow = false
  reserved : context.manualReservedHwmBytes =
    sat (tally (preparedPlans fresh.profile inputs)).manual
  limited : (tally (preparedPlans fresh.profile inputs)).unlimited = 0

def BudgetResolved (fresh : ContextPlan) : Prop :=
  fresh.configuredCoreBudgetBytes ≠ 0 →
    fresh.effectiveCoreBudgetBytes = fresh.configuredCoreBudgetBytes

section Agreement

variable {fresh context : ContextPlan} {known joined : List PlannedInput}
  {water : WaterLevel}

theorem InSync.profile_eq (h : InSync fresh context known) : context.profile = fresh.profile :=
  (congrArg ContextPlan.profile h.options :)

theorem InSync.memory_eq (h : InSync fresh context known) :
    context.resolvedMemoryLimitBytes = fresh.resolvedMemoryLimitBytes :=
  (congrArg ContextPlan.resolvedMemoryLimitBytes h.options :)

theorem InSync.configured_eq (h : InSync fresh context known) :
    context.configuredCoreBudgetBytes = fresh.configuredCoreBudgetBytes :=
  (congrArg ContextPlan.configuredCoreBudgetBytes h.options :)

theorem InSync.limit_eq (h : InSync fresh context known) :
    context.configuredMemoryLimitBytes = fresh.configuredMemoryLimitBytes :=
  (congrArg ContextPlan.configuredMemoryLimitBytes h.options :)

theorem InSync.enabled_eq (h : InSync fresh context known) : context.enabled = fresh.enabled :=
  (congrArg ContextPlan.enabled h.options :)

structure Joins (role : Role) (known joined : List PlannedInput) : Prop where
  ne_nil : joined ≠ []
  length_le : joined.length ≤ extensionCapacity
  count_le : known.length + joined.length ≤ 2 ^ 64
  auto : ∀ input ∈ joined, input.resolved.role = role ∧ input.manual = false

variable (hsync : InSync fresh context known) (hrole : context.applicationAutoRole ≠ .none)
  (hjoins : Joins context.applicationAutoRole known joined)

include hsync hjoins in
theorem Joins.uniform (hrole : context.applicationAutoRole ≠ .none) :
    Uniform context.applicationAutoRole (known ++ joined) := by
  intro input hinput
  rcases List.mem_append.mp hinput with hknown | hnew
  · exact hsync.uniform input hknown
  · have hauto := hjoins.auto input hnew
    rw [hauto.1]
    exact ⟨hrole, fun _ => rfl⟩

theorem autoCount_append (inputs inputs' : List PlannedInput) :
    autoCount (inputs ++ inputs') = autoCount inputs + autoCount inputs' := by
  simp [autoCount]

theorem autoCount_of_auto {inputs : List PlannedInput}
    (h : ∀ input ∈ inputs, input.manual = false) : autoCount inputs = inputs.length := by
  rw [autoCount, List.countP_eq_length]
  intro input hinput
  simp [h input hinput]

theorem autoCount_le_length (inputs : List PlannedInput) :
    autoCount inputs ≤ inputs.length := List.countP_le_length

theorem toNat_ofNat_of_lt {n : ℕ} (h : n < 2 ^ 64) :
    (UInt64.ofNat n).toNat = n := UInt64.toNat_ofNat_of_lt' h

include hsync hjoins in
theorem Joins.counts (hwater : waterLevel context (UInt64.ofNat joined.length) = .ok (some water)) :
    water.newDirectionCount.toNat = (known ++ joined).length ∧
      water.newAutoCount.toNat = autoCount (known ++ joined) ∧
      (known ++ joined).length < 2 ^ 64 := by
  have hspec := waterLevel_spec hwater
  have hpos : 0 < joined.length := List.length_pos_iff.mpr hjoins.ne_nil
  have hcap : joined.length ≤ 2 := hjoins.length_le
  have hknown : known.length < 2 ^ 64 := by
    have := hjoins.count_le
    omega
  have hadded : (UInt64.ofNat joined.length).toNat = joined.length :=
    toNat_ofNat_of_lt (by omega)
  have hdirections : context.activeDirectionalQueueCount.toNat =
      known.length := by
    rw [hsync.directionCount, toNat_ofNat_of_lt hknown]
  have hautos : context.applicationAutoDirectionCount.toNat = autoCount known := by
    have hle := autoCount_le_length known
    rw [hsync.autoCount, countInputs, toNat_ofNat_of_lt (by
      change autoCount known < _
      omega)]
    rfl
  have hcount := hspec.directionCount
  have hfit := toNat_lt_pow water.newDirectionCount
  rw [hdirections, hadded] at hcount
  refine ⟨by rw [hcount, List.length_append], ?_, ?_⟩
  · rw [hspec.autoCount, hautos, hadded, autoCount_append,
      autoCount_of_auto fun i hi => (hjoins.auto i hi).2]
  · rw [List.length_append]
    omega

include hsync hrole hjoins in
theorem Joins.tally (hwater : waterLevel context (UInt64.ofNat joined.length) = .ok (some water)) :
    let t := AutoHwm.tally (preparedPlans fresh.profile (known ++ joined))
    t.auto = (profileMinimumBytes context.profile context.applicationAutoRole).toNat *
        water.newAutoCount.toNat ∧
      t.manual = context.manualReservedHwmBytes.toNat ∧
      t.send + t.receive = water.newDirectionCount.toNat ∧ t.unlimited = 0 := by
  have huniform := hjoins.uniform hsync hrole
  obtain ⟨hdirections, hautos, -⟩ := hjoins.counts hsync hwater
  obtain ⟨hauto, hsend, hreceive⟩ :=
    tally_uniform fresh.profile huniform
  have hnew := tally_allAuto fresh.profile joined
    fun i hi => ⟨(hjoins.auto i hi).1 ▸ hrole, (hjoins.auto i hi).2⟩
  have hfit := (AutoHwm.tally
    (preparedPlans fresh.profile known)).overflow_eq_false_iff.mp hsync.exact
  refine ⟨by rw [hauto, hsync.profile_eq, hautos], ?_, by omega, ?_⟩
  · rw [preparedPlans_append, tally_append, Tally.add_manual, hnew.1,
      Nat.add_zero, hsync.reserved, toNat_sat_of_lt hfit.2.1]
  · rw [preparedPlans_append, tally_append, Tally.add_unlimited, hnew.2, hsync.limited]

include hsync hrole hjoins in
theorem Joins.sufficient (hfresh : BudgetResolved fresh)
    (hwater : waterLevel context (UInt64.ofNat joined.length) = .ok (some water)) {budget : UInt64}
    (hresolve : resolveBudget (tallied (resetContext fresh)
        (AutoHwm.tally (preparedPlans fresh.profile (known ++ joined)))) =
      .ok (tallied (withBudget (resetContext fresh) budget)
        (AutoHwm.tally (preparedPlans fresh.profile (known ++ joined))))) :
    budget = water.newBudget ∧
      Sufficient (preparedPlans fresh.profile (known ++ joined)) budget := by
  obtain ⟨hauto, hmanual, hqueues, hunlimited⟩ :=
    hjoins.tally hsync hrole hwater
  have hspec := waterLevel_spec hwater
  have hcount : sat ((AutoHwm.tally (preparedPlans fresh.profile (known ++ joined))).send +
      (AutoHwm.tally (preparedPlans fresh.profile (known ++ joined))).receive) =
      water.newDirectionCount := by
    rw [hqueues, sat_toNat]
  have hbudget : budget = water.newBudget := by
    have hconfigured := hsync.configured_eq
    by_cases hzero : fresh.configuredCoreBudgetBytes = 0
    · have hresolve' := hresolve
      simp only [resolveBudget, tallied, resetContext, hzero, if_true, hcount]
        at hresolve'
      rcases hspec.budget with ⟨hpos, -⟩ | ⟨-, heq⟩
      · rw [hconfigured, hzero] at hpos
        exact absurd hpos (by decide)
      · rw [hsync.profile_eq, hsync.memory_eq] at heq
        rw [heq, ok_bind] at hresolve'
        have := congrArg (Except.map ContextPlan.effectiveCoreBudgetBytes) hresolve'
        exact (Except.ok.inj this).symm
    · have hresolve' := hresolve
      simp only [resolveBudget, tallied, resetContext, hzero, if_false]
        at hresolve'
      have heffective := congrArg (Except.map ContextPlan.effectiveCoreBudgetBytes) hresolve'
      have hkept : fresh.effectiveCoreBudgetBytes = budget :=
        Except.ok.inj heffective
      rcases hspec.budget with ⟨-, heq⟩ | ⟨hnone, -⟩
      · rw [← hkept, hfresh hzero, heq, hconfigured]
      · exact absurd (hconfigured ▸ hnone) hzero
  refine ⟨hbudget, ?_, ?_⟩
  · have hcovers := hspec.covers
    have hfit := toNat_lt_pow water.newBudget
    have hqueuesFit := toNat_lt_pow water.newDirectionCount
    rw [Tally.overflow_eq_false_iff, hauto, hmanual, hqueues, hunlimited]
    omega
  · rw [← tally_auto, ← tally_manual, hauto, hmanual, hbudget]
    exact hspec.covers

def sharedBytes (context : ContextPlan) (water : WaterLevel) : ℕ :=
  water.newBudget.toNat - context.manualReservedHwmBytes.toNat -
    (profileMinimumBytes context.profile context.applicationAutoRole).toNat *
      water.newAutoCount.toNat

def sharedSlots (context : ContextPlan) (water : WaterLevel) : List Slot :=
  uniformSlots (profileMinimumBytes context.profile context.applicationAutoRole).toNat
    (profileMaximumBytes context.profile context.applicationAutoRole).toNat
    water.newAutoCount.toNat (sharedBytes context water)

include hsync hjoins in
theorem Joins.autoCount_pos
    (hwater : waterLevel context (UInt64.ofNat joined.length) = .ok (some water)) :
    0 < water.newAutoCount.toNat := by
  have hpos : 0 < joined.length := List.length_pos_iff.mpr hjoins.ne_nil
  rw [(hjoins.counts hsync hwater).2.1, autoCount_append,
    autoCount_of_auto fun i hi => (hjoins.auto i hi).2]
  omega

theorem charge_sharedSlots {added : UInt64} (hspec : water.Spec context added)
    (hpos : 0 < water.newAutoCount.toNat) :
    charge (sharedSlots context water) + context.manualReservedHwmBytes.toNat =
      water.newTotalPlanned.toNat := by
  have hlevel := hspec.level
  rw [hspec.total, sharedSlots, charge_uniformSlots hpos, hlevel]
  change _ = _ + (if _ then 0 else sharedBytes context water % _) + _
  change water.level.toNat = min _ (_ + sharedBytes context water / _) at hlevel
  have hiff : water.level = profileMaximumBytes context.profile context.applicationAutoRole ↔
      (profileMaximumBytes context.profile context.applicationAutoRole).toNat ≤
        (profileMinimumBytes context.profile context.applicationAutoRole).toNat +
          sharedBytes context water / water.newAutoCount.toNat := by
    rw [UInt64.ext_iff, hlevel]
    omega
  simp only [hiff]
  rfl

include hsync hrole hjoins in
theorem Joins.finalize (hfresh : BudgetResolved fresh) (henabled : fresh.enabled = true)
    (hwater : waterLevel context (UInt64.ofNat joined.length) = .ok (some water)) : ∃ plans',
      contextFinalize fresh ((known ++ joined).map PlannedInput.plan) =
        .ok ({ tallied (withBudget (resetContext fresh) water.newBudget)
            (AutoHwm.tally (preparedPlans fresh.profile (known ++ joined))) with
          totalPlannedHwmBytes := water.newTotalPlanned
          totalAppliedHwmBytes := water.newTotalPlanned }, plans') ∧
      List.Forall₂ RaisedPlan (preparedPlans fresh.profile (known ++ joined)) plans' ∧
      slots (references plans') = sharedSlots context water := by
  obtain ⟨hauto, hmanual, -, -⟩ := hjoins.tally hsync hrole hwater
  have hpos := hjoins.autoCount_pos hsync hwater
  have hspec := waterLevel_spec hwater
  obtain ⟨budget, hresolve, hcases⟩ := contextFinalize_spec fresh
    ((known ++ joined).map PlannedInput.plan)
  obtain ⟨rfl, hsuff⟩ := hjoins.sufficient hsync hrole hfresh hwater hresolve
  rcases hcases with ⟨hno, -⟩ | ⟨-, plans', hfinal, hraised, -, hsettles⟩
  · exact absurd hsuff hno
  have hsettles := hsettles henabled
  change Settles (_ - manualReservation (preparedPlans fresh.profile
    (known ++ joined)) - AutoHwm.autoTotal (preparedPlans fresh.profile
      (known ++ joined))) (slots (references (preparedPlans fresh.profile
        (known ++ joined)))) _ _ at hsettles
  have huniform := hjoins.uniform hsync hrole
  have hslots : slots (references plans') = sharedSlots context water := by
    rw [references_uniform huniform, slots, List.map_replicate,
      ← (hjoins.counts hsync hwater).2.1, ← tally_auto, ← tally_manual, hauto,
      hmanual] at hsettles
    have hshared := hsettles.uniform hpos (UInt64.le_iff_toNat_le.mp
      (profileMinimumBytes_le_maximum _ _))
    rw [hshared, hsync.profile_eq.symm]
    rfl
  refine ⟨plans', ?_, hraised, hslots⟩
  have htotal : sat (autoTotal plans' + manualReservation
      (preparedPlans fresh.profile (known ++ joined))) =
      water.newTotalPlanned := by
    have hsound := soundPlans_raised hraised (preparePlan_sound _ _)
    rw [← charge_references hsound, hslots, ← tally_manual, hmanual,
      charge_sharedSlots hspec hpos, sat_toNat]
  change contextFinalize _ _ = .ok ({ tallied _ _ with
    totalPlannedHwmBytes := sat (autoTotal plans' + manualReservation
      (preparedPlans fresh.profile (known ++ joined)))
    totalAppliedHwmBytes := sat (autoTotal plans' + manualReservation
      (preparedPlans fresh.profile (known ++ joined))) }, _) at hfinal
  rw [htotal] at hfinal
  exact hfinal

theorem Raised.isSome_reference {d d' : Direction} (h : Raised d d') :
    d'.reference?.isSome = d.reference?.isSome := by
  rw [AutoHwm.isSome_reference, AutoHwm.isSome_reference, h.shape]

theorem references_raised_length {plans plans' : List SocketPlan}
    (h : List.Forall₂ RaisedPlan plans plans') :
    (references plans').length = (references plans).length := by
  have hone : ∀ o : Option DirectionPlanRef, o.toList.length = if o.isSome then 1 else 0 := by
    intro o
    cases o <;> rfl
  induction h with
  | nil => rfl
  | @cons plan plan' plans plans' hplan _ ih =>
    rw [references_cons, references_cons plan, List.length_append,
      List.length_append, ih, references_single, references_single,
      List.length_append, List.length_append, hone, hone, hone, hone,
      hplan.send.isSome_reference, hplan.receive.isSome_reference]

theorem references_allAuto {profile : Profile} {role : Role}
    (hrole : role ≠ .none) {inputs : List PlannedInput}
    {plans' : List SocketPlan}
    (hauto : ∀ input ∈ inputs, input.resolved.role = role ∧ input.manual = false)
    (h : List.Forall₂ RaisedPlan (preparedPlans profile inputs) plans') :
    references plans' = plans'.map fun plan =>
      ⟨plan.sndhwm, 1, profileMaximumBytes profile role⟩ := by
  induction inputs generalizing plans' with
  | nil =>
    cases h
    rfl
  | cons input inputs ih =>
    cases h with
    | @cons _ plan' _ plans' hplan hrest =>
      obtain ⟨heq, hmanual⟩ := hauto input List.mem_cons_self
      have hroleInput : input.resolved.role ≠ .none := heq ▸ hrole
      have htail := ih (fun i hi => hauto i (List.mem_cons_of_mem _ hi)) hrest
      have hroom := profileMinimumBytes_lt_maximum profile hrole
      have hsend : plan'.sendDirection = ⟨true, false, 1,
          profileMinimumBytes profile role, profileMaximumBytes profile role,
          plan'.sndhwm⟩ := by
        rw [hplan.send.shape, prepared_sendDirection hroleInput, hmanual, heq]
        rfl
      have hreceive : plan'.receiveDirection = ⟨true, false, 0,
          profileMinimumBytes profile role, profileMaximumBytes profile role,
          plan'.rcvhwm⟩ := by
        rw [hplan.receive.shape, prepared_receiveDirection hroleInput, heq]
        rfl
      rw [references_cons, references_single, htail, hsend, hreceive]
      simp [Direction.reference?, Direction.automatic, hroom]

include hsync hrole hjoins in
theorem Joins.target {plans' : List SocketPlan} (hraised : List.Forall₂ RaisedPlan
      (preparedPlans fresh.profile (known ++ joined)) plans')
    (hslots : slots (references plans') = sharedSlots context water)
    {j : ℕ} {plan : SocketPlan} (hplan : plans'[known.length + j]? = some plan) :
    plan.sndhwm.toNat = uniformLevel
      (profileMinimumBytes context.profile context.applicationAutoRole).toNat
      (profileMaximumBytes context.profile context.applicationAutoRole).toNat
      water.newAutoCount.toNat (sharedBytes context water) (autoCount known + j) := by
  have hlength : (preparedPlans fresh.profile known).length = known.length := by
    simp [preparedPlans]
  rw [preparedPlans_append] at hraised
  have hold := List.forall₂_take known.length hraised
  have hnew := List.forall₂_drop known.length hraised
  rw [List.take_left' hlength] at hold
  rw [List.drop_left' hlength] at hnew
  have hsplit : plans' = plans'.take known.length ++ plans'.drop known.length :=
    (List.take_append_drop _ _).symm
  have holdLength : (slots (references (plans'.take known.length))).length = autoCount known := by
    rw [slots, List.length_map, references_raised_length hold,
      references_uniform hsync.uniform, List.length_replicate]
  have hnewRefs := references_allAuto hrole hjoins.auto hnew
  rw [hsplit, references_append, slots_append, hnewRefs] at hslots
  have hdrop := congrArg (fun l => l[autoCount known + j]?) hslots
  have hget : (plans'.drop known.length)[j]? = some plan := by
    rw [List.getElem?_drop]
    exact hplan
  simp only [List.getElem?_append_right (Nat.le_of_eq holdLength |>.trans
    (Nat.le_add_right _ j)), holdLength, Nat.add_sub_cancel_left] at hdrop
  simp only [slots, List.map_map, List.getElem?_map, hget, Option.map_some,
    sharedSlots, uniformSlots] at hdrop
  have hrange : (List.range water.newAutoCount.toNat)[autoCount known + j]? =
      some (autoCount known + j) := by
    rcases hopt : (List.range water.newAutoCount.toNat)[autoCount known + j]?
      with - | i
    · rw [hopt] at hdrop
      simp at hdrop
    · rw [List.getElem?_eq_some_iff] at hopt
      obtain ⟨hlt, hval⟩ := hopt
      rw [List.getElem_range] at hval
      rw [hval]
  rw [hrange] at hdrop
  have hlevel := congrArg (Option.map Slot.level) hdrop
  exact Option.some.inj hlevel

end Agreement

end Zlink.AutoHwm
