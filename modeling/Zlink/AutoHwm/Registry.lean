import Zlink.AutoHwm.Finalize

/-!
# The registry of physical queues and its two planning passes

`planApplicationQueues` replans every live application direction of the registry.
`extendApplicationPlan` is the attach path: it adds the directions of one
attaching pipe to the last plan by a closed formula and writes nothing else.

The registry is a map from queue ids to records, kept here as a list sorted by
id. A handle of the source is the id of its record; `none` stands for a null
handle and for a handle whose record the registry does not own.
-/

namespace Zlink.AutoHwm

open Word64

inductive Lane where
  | unclassified
  | application
  | completion
  | monitor
  deriving DecidableEq

structure StoredEndpointPolicy where
  present : Bool
  role : Role
  manual : Bool
  planningEnabled : Bool
  hwm : UInt64
  deriving DecidableEq

/-- A record of the registry. `accountedBytes` is what the ledgers of the
direction report when its target is updated. -/
structure QueueRecord where
  queueId : UInt64
  lane : Lane
  endpointRefs : UInt32
  plannedHwm : UInt64
  appliedHwm : UInt64
  accountedBytes : UInt64
  writerPolicy : StoredEndpointPolicy
  readerPolicy : StoredEndpointPolicy
  deriving DecidableEq

structure EndpointPolicy where
  queue : Option UInt64
  role : Role
  writer : Bool
  manual : Bool
  planningEnabled : Bool
  hwm : UInt64

structure Registry where
  records : List QueueRecord
  sorted : records.Pairwise fun r s => r.queueId < s.queueId
  deriving DecidableEq

namespace Registry

def mapRecords (registry : Registry) (f : QueueRecord → QueueRecord)
    (hid : ∀ r, (f r).queueId = r.queueId) : Registry where
  records := registry.records.map f
  sorted := by
    rw [List.pairwise_map]
    exact registry.sorted.imp fun h => by rwa [hid, hid]

def find? (registry : Registry) (id : UInt64) : Option QueueRecord :=
  registry.records.find? fun r => r.queueId == id

def modify (registry : Registry) (id : UInt64) (f : QueueRecord → QueueRecord)
    (hid : ∀ r, (f r).queueId = r.queueId) : Registry :=
  registry.mapRecords (fun r => if r.queueId = id then f r else r) (by
    intro r
    split
    · exact hid r
    · rfl)

end Registry

def QueueRecord.liveApplication (record : QueueRecord) : Bool :=
  record.endpointRefs != 0 && record.lane == .application

def QueueRecord.storePolicy (policy : EndpointPolicy) (record : QueueRecord) :
    QueueRecord :=
  let stored : StoredEndpointPolicy :=
    { present := true
      role := policy.role
      manual := policy.manual
      planningEnabled := policy.planningEnabled
      hwm := policy.hwm }
  if policy.writer then { record with writerPolicy := stored }
  else { record with readerPolicy := stored }

@[simp] theorem QueueRecord.storePolicy_queueId (policy : EndpointPolicy) (record : QueueRecord) :
    (record.storePolicy policy).queueId = record.queueId := by
  unfold storePolicy
  split <;> rfl

def QueueRecord.updateHwmTarget (target : UInt64) (record : QueueRecord) :
    QueueRecord :=
  let grows := target = 0 ∨ (record.appliedHwm ≠ 0 ∧ record.appliedHwm ≤ target)
  if grows ∨ record.accountedBytes ≤ target then
    { record with plannedHwm := target, appliedHwm := target }
  else { record with plannedHwm := target }

@[simp] theorem QueueRecord.updateHwmTarget_queueId (target : UInt64) (record : QueueRecord) :
    (record.updateHwmTarget target).queueId = record.queueId := by
  simp only [updateHwmTarget]
  split <;> rfl

structure ResolvedDirection where
  role : Role
  planningEnabled : Bool
  writerSeen : Bool
  readerSeen : Bool
  autoSeen : Bool
  finiteManualSeen : Bool
  finiteManualHwm : UInt64
  deriving DecidableEq

def ResolvedDirection.empty : ResolvedDirection :=
  { role := .none
    planningEnabled := false
    writerSeen := false
    readerSeen := false
    autoSeen := false
    finiteManualSeen := false
    finiteManualHwm := maxWord }

variable (profile : Profile)

def mergeRole (role candidate : Role) : Role :=
  if role = .none then candidate
  else if candidate ≠ .none ∧
      (profileMaximumBytes profile candidate < profileMaximumBytes profile role ∨
        (profileMaximumBytes profile candidate =
            profileMaximumBytes profile role ∧ candidate.code < role.code)) then
    candidate
  else role

def resolveEndpoint (writer : Bool) (policy : StoredEndpointPolicy) (out : ResolvedDirection) :
    ResolvedDirection :=
  if !policy.present then out
  else
    let out :=
      { out with
        planningEnabled := out.planningEnabled || policy.planningEnabled
        writerSeen := out.writerSeen || writer
        readerSeen := out.readerSeen || !writer
        role := mergeRole profile out.role policy.role }
    if !(policy.manual || !policy.planningEnabled) then
      { out with autoSeen := true }
    else if 0 < policy.hwm then
      { out with
        finiteManualSeen := true
        finiteManualHwm := min out.finiteManualHwm policy.hwm }
    else out

def resolveDirection (record : QueueRecord) :
    ResolvedDirection :=
  resolveEndpoint profile false record.readerPolicy
    (resolveEndpoint profile true record.writerPolicy .empty)

theorem queueId_storePolicy_ite (policy : EndpointPolicy) (r : QueueRecord) :
    (if r.liveApplication then r.storePolicy policy else r).queueId = r.queueId := by
  split <;> simp

def storePolicies (registry : Registry) (policies : List EndpointPolicy) :
    Registry :=
  policies.foldl (fun registry policy =>
    match policy.queue with
    | none => registry
    | some id => registry.modify id (fun r => if r.liveApplication then r.storePolicy policy else r)
        (queueId_storePolicy_ite policy)) registry

structure PlannedInput where
  queueId : UInt64
  resolved : ResolvedDirection
  deriving DecidableEq

def PlannedInput.manual (input : PlannedInput) : Bool :=
  input.resolved.finiteManualSeen || !input.resolved.autoSeen

def PlannedInput.plan (input : PlannedInput) : SocketPlan :=
  socketPlanPrepare input.resolved.role 1 0 input.manual
    (if input.resolved.finiteManualSeen then input.resolved.finiteManualHwm
      else 0) false 0 true

def plannedInputs (registry : Registry) : List PlannedInput :=
  registry.records.filterMap fun record =>
    let resolved := resolveDirection profile record
    if record.liveApplication && resolved.planningEnabled && resolved.role != .none then
      some ⟨record.queueId, resolved⟩
    else none

/-- `++counter` for every input that satisfies `p`. -/
def countInputs (p : PlannedInput → Bool) (inputs : List PlannedInput) : UInt64 :=
  UInt64.ofNat (inputs.countP p)

def publishTargets : List PlannedInput → List SocketPlan → Registry →
    ContextPlan → UInt64 → Except Fault (Registry × ContextPlan × UInt64)
  | input :: inputs, plan :: plans, registry, context, totalApplied => do
      let registry := registry.modify input.queueId
        (QueueRecord.updateHwmTarget plan.sndhwm) (by simp)
      let applied := ((registry.find? input.queueId).map QueueRecord.appliedHwm).getD 0
      let context := if applied = 0 then
        { context with aggregateHwmValid := false } else context
      let applied := if applied = 0 then plan.maximumHwmBytes else applied
      let (totalApplied, overflow) ← saturatingAdd totalApplied applied context.aggregateOverflow
      publishTargets inputs plans registry
        { context with aggregateOverflow := overflow } totalApplied
  | _, _, registry, context, totalApplied => pure (registry, context, totalApplied)

/-- The common role of the automatic directions, or `none` when they differ. -/
def commonRole (plans : List SocketPlan) : Role :=
  match plans.filter fun plan => !plan.manualSndhwm with
  | [] => .none
  | first :: rest =>
    if rest.all fun plan => first.role == plan.role then first.role else .none

def maxQueueId (inputs : List PlannedInput) : UInt64 :=
  inputs.foldl (fun id input => if id < input.queueId then input.queueId else id) 0

variable (context : ContextPlan)

/-- The full replan. -/
def planApplicationQueues (registry : Registry)
    (policies : List EndpointPolicy) : Except Fault (ContextPlan × Registry) := do
  let registry := storePolicies registry policies
  if !context.enabled then
    let (context, _) ← contextFinalize context []
    pure (context, registry)
  else
    let inputs := plannedInputs context.profile registry
    let (context, plans) ← contextFinalize context (inputs.map PlannedInput.plan)
    let context :=
      { context with
        activeSendQueueCount := countInputs (fun i => i.resolved.writerSeen) inputs
        activeReceiveQueueCount :=
          countInputs (fun i => i.resolved.readerSeen) inputs
        activeDirectionalQueueCount := UInt64.ofNat plans.length }
    let (registry, context, totalApplied) ← publishTargets inputs plans registry context 0
    pure ({ context with
          totalAppliedHwmBytes := totalApplied
          budgetInsufficient :=
            context.aggregateOverflow || context.budgetInsufficient
          applicationAutoDirectionCount :=
            countInputs (fun i => !i.manual) inputs
          applicationAutoRole := commonRole plans
          maxPlannedQueueId := maxQueueId inputs }, registry)

/-- A pipe contributes at most its two directions. -/
def extensionCapacity : ℕ := 2

/-- The sums of the registry stick and raise a flag like those of the policy. -/
def addSnapshotValue (current amount : UInt64) (overflow : Bool) : Except Fault (UInt64 × Bool) :=
  saturatingAdd current amount overflow

def multiplySnapshotValue (left right : UInt64) (overflow : Bool) : Except Fault (UInt64 × Bool) :=
  saturatingMultiply left right overflow

def extensible : Bool :=
  context.enabled && !context.aggregateOverflow && !context.budgetInsufficient &&
    context.aggregateHwmValid && context.unlimitedManualQueueCount == 0 &&
    context.applicationAutoRole != .none &&
    context.applicationAutoDirectionCount != 0

structure Joining where
  extensions : List UInt64
  addedSend : UInt64
  addedReceive : UInt64

def joinable (registry : Registry) (policy : EndpointPolicy) : Option QueueRecord :=
  match policy.queue with
  | none => none
  | some id =>
    match registry.find? id with
    | none => none
    | some record =>
      if policy.planningEnabled && !policy.manual && policy.role == context.applicationAutoRole &&
          record.liveApplication &&
          decide (context.maxPlannedQueueId < record.queueId) then
        some record
      else none

def joinDirection (registry : Registry)
    (joining : Joining) (policy : EndpointPolicy) : Registry × Option Joining :=
  match joinable context registry policy with
  | none => (registry, none)
  | some record =>
    let registry := registry.modify record.queueId (QueueRecord.storePolicy policy) (by simp)
    let resolved := resolveDirection context.profile (record.storePolicy policy)
    if !resolved.planningEnabled || !resolved.autoSeen || resolved.finiteManualSeen ||
        resolved.role != context.applicationAutoRole then
      (registry, none)
    else
      (registry, some
        { extensions := joining.extensions ++ [record.queueId]
          addedSend := joining.addedSend + (if resolved.writerSeen then 1 else 0)
          addedReceive :=
            joining.addedReceive + (if resolved.readerSeen then 1 else 0) })

def joinDirections (context : ContextPlan) (registry : Registry)
    (joining : Joining) : List EndpointPolicy → Registry × Option Joining
  | [] => (registry, some joining)
  | policy :: policies =>
    match joinDirection context registry joining policy with
    | (registry, none) => (registry, none)
    | (registry, some joining) =>
      joinDirections context registry joining policies

/-- The extended plan, before anything is written. -/
structure WaterLevel where
  newBudget : UInt64
  newDirectionCount : UInt64
  newAutoCount : UInt64
  level : UInt64
  newTotalPlanned : UInt64

def extensionBudget (newDirectionCount : UInt64) : Except Fault UInt64 :=
  if 0 < context.configuredCoreBudgetBytes then
    pure context.configuredCoreBudgetBytes
  else
    profileEffectiveBudget context.profile context.resolvedMemoryLimitBytes newDirectionCount

/-- The level of `count` directions that share `remaining`, and the division
remainder that a prefix of them takes. -/
def levelAndRemainder (minimum maximum remaining count : UInt64) :
    Except Fault (UInt64 × UInt64) := do
  let share := remaining / count
  let headroom ← subExact maximum minimum
  if headroom ≤ share then pure (maximum, 0)
  else
    let level ← addExact minimum share
    let spent ← mulExact share count
    let remainder ← subExact remaining spent
    pure (level, remainder)

def waterLevel (addedCount : UInt64) : Except Fault (Option WaterLevel) := do
  let (newDirectionCount, overflow) ← addSnapshotValue
    context.activeDirectionalQueueCount addedCount false
  let (newAutoCount, overflow) ← addSnapshotValue
    context.applicationAutoDirectionCount addedCount overflow
  if overflow then pure none
  else
    let newBudget ← extensionBudget context newDirectionCount
    if newBudget < context.manualReservedHwmBytes then pure none
    else
      let minimum := profileMinimumBytes context.profile context.applicationAutoRole
      let maximum := profileMaximumBytes context.profile context.applicationAutoRole
      let dataBudget ← subExact newBudget context.manualReservedHwmBytes
      let (minimumTotal, overflow) ← multiplySnapshotValue minimum newAutoCount overflow
      if overflow ∨ dataBudget < minimumTotal then pure none
      else
        let remaining ← subExact dataBudget minimumTotal
        let (level, remainder) ← levelAndRemainder minimum maximum remaining newAutoCount
        let (levelTotal, overflow) ← multiplySnapshotValue level newAutoCount overflow
        let (autoTotal, overflow) ← addSnapshotValue levelTotal remainder overflow
        let (newTotalPlanned, overflow) ← addSnapshotValue autoTotal
          context.manualReservedHwmBytes overflow
        if overflow then pure none
        else pure (some ⟨newBudget, newDirectionCount, newAutoCount, level, newTotalPlanned⟩)

structure Published where
  registry : Registry
  totalApplied : UInt64
  maxQueueId : UInt64
  aggregateHwmValid : Bool
  overflow : Bool

def publishLevel (level maximum : UInt64) : List UInt64 → Published → Except Fault Published
  | [], out => pure out
  | id :: ids, out => do
      let registry := out.registry.modify id (QueueRecord.updateHwmTarget level) (by simp)
      let applied := ((registry.find? id).map QueueRecord.appliedHwm).getD 0
      let (totalApplied, overflow) ← addSnapshotValue out.totalApplied
        (if applied = 0 then maximum else applied) out.overflow
      publishLevel level maximum ids
        { registry := registry
          totalApplied := totalApplied
          maxQueueId := if out.maxQueueId < id then id else out.maxQueueId
          aggregateHwmValid := out.aggregateHwmValid && applied != 0
          overflow := overflow }

def extendApplicationPlan (registry : Registry) (policies : List EndpointPolicy) :
    Except Fault (Bool × ContextPlan × Registry) := do
  if policies = [] ∨ extensionCapacity < policies.length ∨ !extensible context then
    pure (false, context, registry)
  else
    match joinDirections context registry ⟨[], 0, 0⟩ policies with
    | (registry, none) => pure (false, context, registry)
    | (registry, some joining) =>
      match ← waterLevel context (UInt64.ofNat joining.extensions.length) with
      | none => pure (false, context, registry)
      | some water =>
        let out ← publishLevel water.level
          (profileMaximumBytes context.profile context.applicationAutoRole)
          joining.extensions
          { registry := registry
            totalApplied := context.totalAppliedHwmBytes
            maxQueueId := context.maxPlannedQueueId
            aggregateHwmValid := context.aggregateHwmValid
            overflow := false }
        let (newSend, overflow) ← addSnapshotValue
          context.activeSendQueueCount joining.addedSend out.overflow
        let (newReceive, overflow) ← addSnapshotValue
          context.activeReceiveQueueCount joining.addedReceive overflow
        if overflow then pure (false, context, out.registry)
        else
          pure (true,
            { context with
              effectiveCoreBudgetBytes := water.newBudget
              activeDirectionalQueueCount := water.newDirectionCount
              activeSendQueueCount := newSend
              activeReceiveQueueCount := newReceive
              applicationAutoDirectionCount := water.newAutoCount
              maxPlannedQueueId := out.maxQueueId
              totalPlannedHwmBytes := water.newTotalPlanned
              totalAppliedHwmBytes := out.totalApplied
              aggregateHwmValid := out.aggregateHwmValid }, out.registry)

end Zlink.AutoHwm
