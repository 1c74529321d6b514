import Zlink.AutoHwm.Policy

/-!
# Finalizing a context plan

`contextFinalize` is the planner: it sets every automatic direction to the
minimum of its role, adds up what the manual directions reserve, resolves the
budget with the final queue count, and raises the automatic directions in
rounds until the budget is spent or every direction is at its maximum.

The source keeps a vector of pointers to the `sndhwm` and `rcvhwm` fields that
the rounds raise. Here a `DirectionPlanRef` carries the value of the field, and
`storeDirections` writes the values back in the order in which the setup loop
appended them.
-/

namespace Zlink.AutoHwm

open Word64

structure ContextPlan where
  enabled : Bool
  profile : Profile
  configuredMemoryLimitBytes : UInt64
  resolvedMemoryLimitBytes : UInt64
  configuredCoreBudgetBytes : UInt64
  effectiveCoreBudgetBytes : UInt64
  totalPlannedHwmBytes : UInt64
  totalAppliedHwmBytes : UInt64
  manualReservedHwmBytes : UInt64
  activeDirectionalQueueCount : UInt64
  activeSendQueueCount : UInt64
  activeReceiveQueueCount : UInt64
  unlimitedManualQueueCount : UInt64
  applicationAutoRole : Role
  applicationAutoDirectionCount : UInt64
  maxPlannedQueueId : UInt64
  budgetInsufficient : Bool
  aggregateHwmValid : Bool
  aggregateOverflow : Bool
  deriving DecidableEq

structure SocketPlan where
  role : Role
  planningEnabled : Bool
  sendQueueCount : UInt64
  receiveQueueCount : UInt64
  minimumHwmBytes : UInt64
  maximumHwmBytes : UInt64
  manualSndhwm : Bool
  manualRcvhwm : Bool
  sndhwm : UInt64
  rcvhwm : UInt64

def contextPlanMake (input : BudgetInput) : Except Fault ContextPlan := do
  let profile := normalizeProfile input.profile
  let resolved := resolvedMemoryLimit input
  let budget ←
    if 0 < input.configuredCoreBudgetBytes then
      pure input.configuredCoreBudgetBytes
    else profileEffectiveBudget profile resolved 0
  pure
    { enabled := input.enabled
      profile := profile
      configuredMemoryLimitBytes := input.configuredMemoryLimitBytes
      resolvedMemoryLimitBytes := resolved
      configuredCoreBudgetBytes := input.configuredCoreBudgetBytes
      effectiveCoreBudgetBytes := budget
      totalPlannedHwmBytes := 0
      totalAppliedHwmBytes := 0
      manualReservedHwmBytes := 0
      activeDirectionalQueueCount := 0
      activeSendQueueCount := 0
      activeReceiveQueueCount := 0
      unlimitedManualQueueCount := 0
      applicationAutoRole := .none
      applicationAutoDirectionCount := 0
      maxPlannedQueueId := 0
      budgetInsufficient := false
      aggregateHwmValid := true
      aggregateOverflow := false }

def socketPlanPrepare (role : Role) (sendQueueCount receiveQueueCount : UInt64)
    (manualSndhwm : Bool) (sndhwm : UInt64) (manualRcvhwm : Bool)
    (rcvhwm : UInt64) (planningEnabled : Bool) : SocketPlan :=
  { role := role
    planningEnabled := planningEnabled && role != .none
    sendQueueCount := sendQueueCount
    receiveQueueCount := receiveQueueCount
    minimumHwmBytes := 0
    maximumHwmBytes := 0
    manualSndhwm := manualSndhwm
    manualRcvhwm := manualRcvhwm
    sndhwm := sndhwm
    rcvhwm := rcvhwm }

structure DirectionPlanRef where
  hwm : UInt64
  queueCount : UInt64
  maximum : UInt64

def appendDirection (hwm queueCount maximum : UInt64) : List DirectionPlanRef :=
  if 0 < queueCount ∧ hwm < maximum then [⟨hwm, queueCount, maximum⟩] else []

variable (context : ContextPlan)

/-- The fields `contextFinalize` clears before it reads the plans. -/
def resetContext : ContextPlan :=
  { context with
    totalPlannedHwmBytes := 0
    totalAppliedHwmBytes := 0
    manualReservedHwmBytes := 0
    activeDirectionalQueueCount := 0
    activeSendQueueCount := 0
    activeReceiveQueueCount := 0
    unlimitedManualQueueCount := 0
    applicationAutoRole := .none
    applicationAutoDirectionCount := 0
    maxPlannedQueueId := 0
    budgetInsufficient := false
    aggregateHwmValid := true
    aggregateOverflow := false }

structure Setup where
  context : ContextPlan
  autoMinimumTotal : UInt64
  plans : List SocketPlan
  autoDirections : List DirectionPlanRef

def countPlan (plan : SocketPlan) : Except Fault ContextPlan := do
  let (send, overflow) ← saturatingAdd context.activeSendQueueCount
    plan.sendQueueCount context.aggregateOverflow
  let (receive, overflow) ← saturatingAdd context.activeReceiveQueueCount
    plan.receiveQueueCount overflow
  let (both, overflow) ← saturatingAdd plan.sendQueueCount plan.receiveQueueCount overflow
  let (directional, overflow) ← saturatingAdd context.activeDirectionalQueueCount both overflow
  pure
    { context with
      activeSendQueueCount := send
      activeReceiveQueueCount := receive
      activeDirectionalQueueCount := directional
      aggregateOverflow := overflow }

/-- The block of the setup loop for one direction of a plan, which the source
writes once for `sndhwm` and once for `rcvhwm`. An automatic direction starts at
the role minimum; a manual direction with a queue reserves its own value, or the
role maximum when it is unlimited. Returns the direction's HWM and the reference
appended for the rounds. -/
def setupDirection (minimum maximum : UInt64) (manual : Bool)
    (hwm queueCount : UInt64) (context : ContextPlan)
    (autoMinimumTotal : UInt64) :
    Except Fault (ContextPlan × UInt64 × UInt64 × List DirectionPlanRef) := do
  if !manual then
    let (bytes, overflow) ← saturatingMultiply minimum queueCount context.aggregateOverflow
    let (total, overflow) ← saturatingAdd autoMinimumTotal bytes overflow
    pure ({ context with aggregateOverflow := overflow }, total, minimum,
      appendDirection minimum queueCount maximum)
  else if 0 < queueCount then
    let reservation := if hwm = 0 then maximum else hwm
    let (bytes, overflow) ← saturatingMultiply reservation queueCount context.aggregateOverflow
    let (reserved, overflow) ← saturatingAdd context.manualReservedHwmBytes bytes overflow
    let context :=
      { context with
        manualReservedHwmBytes := reserved
        aggregateOverflow := overflow }
    if hwm = 0 then
      let (unlimited, overflow) ← saturatingAdd
        context.unlimitedManualQueueCount queueCount overflow
      pure ({ context with
            aggregateHwmValid := false
            unlimitedManualQueueCount := unlimited
            aggregateOverflow := overflow }, autoMinimumTotal, hwm, [])
    else pure (context, autoMinimumTotal, hwm, [])
  else pure (context, autoMinimumTotal, hwm, [])

def setupPlan (setup : Setup) (plan : SocketPlan) : Except Fault Setup := do
  let minimum := profileMinimumBytes setup.context.profile plan.role
  let maximum := profileMaximumBytes setup.context.profile plan.role
  let plan := { plan with minimumHwmBytes := minimum, maximumHwmBytes := maximum }
  if !plan.planningEnabled then
    pure { setup with plans := setup.plans ++ [plan] }
  else
    let context ← countPlan setup.context plan
    let (context, total, sndhwm, sendRef) ← setupDirection minimum maximum
      plan.manualSndhwm plan.sndhwm plan.sendQueueCount context
      setup.autoMinimumTotal
    let (context, total, rcvhwm, receiveRef) ← setupDirection minimum maximum
      plan.manualRcvhwm plan.rcvhwm plan.receiveQueueCount context total
    pure
      { context := context
        autoMinimumTotal := total
        plans := setup.plans ++ [{ plan with sndhwm := sndhwm, rcvhwm := rcvhwm }]
        autoDirections := setup.autoDirections ++ sendRef ++ receiveRef }

def setupPlans (setup : Setup) : List SocketPlan → Except Fault Setup
  | [] => pure setup
  | plan :: plans => do
      let setup ← setupPlan setup plan
      setupPlans setup plans

def unsaturatedCount : List DirectionPlanRef → UInt64 → Bool → Except Fault (UInt64 × Bool)
  | [], count, overflow => pure (count, overflow)
  | direction :: directions, count, overflow =>
    if direction.hwm < direction.maximum then do
      let (count, overflow) ← saturatingAdd count direction.queueCount overflow
      unsaturatedCount directions count overflow
    else unsaturatedCount directions count overflow

/-- The pass of a round whose share is positive. Returns the budget left, the
raised directions and whether anything was granted. -/
def sharePass (share : UInt64) : UInt64 → List DirectionPlanRef →
    Except Fault (UInt64 × List DirectionPlanRef × Bool)
  | remaining, [] => pure (remaining, [], false)
  | remaining, direction :: directions =>
    if direction.maximum ≤ direction.hwm then do
      let (remaining, rest, granted) ← sharePass share remaining directions
      pure (remaining, direction :: rest, granted)
    else do
      let headroom ← subExact direction.maximum direction.hwm
      let grantPerQueue :=
        min (min share headroom) (remaining / direction.queueCount)
      if grantPerQueue = 0 then
        let (remaining, rest, granted) ← sharePass share remaining directions
        pure (remaining, direction :: rest, granted)
      else
        let hwm ← addExact direction.hwm grantPerQueue
        let bytes ← mulExact grantPerQueue direction.queueCount
        let remaining ← subExact remaining bytes
        let (remaining, rest, _) ← sharePass share remaining directions
        pure (remaining, { direction with hwm := hwm } :: rest, true)

/-- The pass of a round whose share is zero: one unit per queue while the budget
lasts. -/
def unitPass : UInt64 → List DirectionPlanRef → Except Fault (UInt64 × List DirectionPlanRef × Bool)
  | remaining, [] => pure (remaining, [], false)
  | remaining, direction :: directions =>
    if direction.maximum ≤ direction.hwm ∨ remaining < direction.queueCount then do
      let (remaining, rest, granted) ← unitPass remaining directions
      pure (remaining, direction :: rest, granted)
    else do
      let hwm ← addExact direction.hwm 1
      let remaining ← subExact remaining direction.queueCount
      let (remaining, rest, _) ← unitPass remaining directions
      pure (remaining, { direction with hwm := hwm } :: rest, true)

/-- The allocation loop. Each iteration either leaves the loop or grants at
least one unit. `fuel` bounds the iterations; `Fault.fuel` is the report of a
loop that was cut off. -/
def allocate : ℕ → UInt64 → List DirectionPlanRef → Bool →
    Except Fault (UInt64 × List DirectionPlanRef × Bool)
  | 0, _, _, _ => .error .fuel
  | fuel + 1, remaining, directions, overflow =>
    if remaining = 0 then pure (remaining, directions, overflow)
    else do
      let (unsaturated, overflow) ← unsaturatedCount directions 0 overflow
      if unsaturated = 0 ∨ overflow then
        pure (remaining, directions, overflow)
      else
        let share := remaining / unsaturated
        let (remaining, directions, granted) ←
          if 0 < share then sharePass share remaining directions
          else unitPass remaining directions
        if !granted then pure (remaining, directions, overflow)
        else allocate fuel remaining directions overflow

def directionAppended (plan : SocketPlan) (manual : Bool) (queueCount : UInt64) : Bool :=
  plan.planningEnabled && !manual && decide (0 < queueCount) &&
    decide (plan.minimumHwmBytes < plan.maximumHwmBytes)

def storeDirection (appended : Bool) (hwm : UInt64) :
    List DirectionPlanRef → UInt64 × List DirectionPlanRef
  | [] => (hwm, [])
  | direction :: directions =>
    if appended then (direction.hwm, directions)
    else (hwm, direction :: directions)

/-- Write the raised values back through the references. -/
def storeDirections : List SocketPlan → List DirectionPlanRef → List SocketPlan
  | [], _ => []
  | plan :: plans, directions =>
    let (sndhwm, directions) := storeDirection
      (directionAppended plan plan.manualSndhwm plan.sendQueueCount)
      plan.sndhwm directions
    let (rcvhwm, directions) := storeDirection
      (directionAppended plan plan.manualRcvhwm plan.receiveQueueCount)
      plan.rcvhwm directions
    { plan with sndhwm := sndhwm, rcvhwm := rcvhwm } :: storeDirections plans directions

def planDirectionTotal (manual : Bool) (hwm queueCount total : UInt64)
    (overflow : Bool) : Except Fault (UInt64 × Bool) := do
  if manual then pure (total, overflow)
  else
    let (bytes, overflow) ← saturatingMultiply hwm queueCount overflow
    saturatingAdd total bytes overflow

def plannedAutoTotal : List SocketPlan → UInt64 → Bool → Except Fault (UInt64 × Bool)
  | [], total, overflow => pure (total, overflow)
  | plan :: plans, total, overflow =>
    if !plan.planningEnabled then plannedAutoTotal plans total overflow
    else do
      let (total, overflow) ← planDirectionTotal plan.manualSndhwm
        plan.sndhwm plan.sendQueueCount total overflow
      let (total, overflow) ← planDirectionTotal plan.manualRcvhwm
        plan.rcvhwm plan.receiveQueueCount total overflow
      plannedAutoTotal plans total overflow

def resolveBudget : Except Fault ContextPlan := do
  if context.configuredCoreBudgetBytes = 0 then
    let budget ← profileEffectiveBudget context.profile
      context.resolvedMemoryLimitBytes context.activeDirectionalQueueCount
    pure { context with effectiveCoreBudgetBytes := budget }
  else pure context

def dataBudget : Except Fault UInt64 :=
  if context.effectiveCoreBudgetBytes ≤ context.manualReservedHwmBytes then
    pure 0
  else
    subExact context.effectiveCoreBudgetBytes context.manualReservedHwmBytes

def insufficient (budget autoMinimumTotal : UInt64) :
    Bool :=
  decide (context.effectiveCoreBudgetBytes < context.manualReservedHwmBytes) ||
    decide (budget < autoMinimumTotal) || context.aggregateOverflow

/-- The part of the planner between the setup loop and the final totals. -/
def distribute (setup : Setup) : Except Fault (ContextPlan × List SocketPlan) := do
  let context ← resolveBudget setup.context
  let budget ← dataBudget context
  if insufficient context budget setup.autoMinimumTotal then
    pure ({ context with budgetInsufficient := true }, setup.plans)
  else if context.enabled then
    let remaining ← subExact budget setup.autoMinimumTotal
    let (_, directions, overflow) ← allocate (remaining.toNat + 1) remaining
      setup.autoDirections context.aggregateOverflow
    pure ({ context with aggregateOverflow := overflow }, storeDirections setup.plans directions)
  else pure (context, setup.plans)

def contextFinalize (plans : List SocketPlan) : Except Fault (ContextPlan × List SocketPlan) := do
  let setup ← setupPlans
    { context := resetContext context
      autoMinimumTotal := 0
      plans := []
      autoDirections := [] } plans
  let (context, plans) ← distribute setup
  let (auto, overflow) ← plannedAutoTotal plans 0 context.aggregateOverflow
  let (total, overflow) ← saturatingAdd auto context.manualReservedHwmBytes overflow
  let context :=
    { context with
      totalPlannedHwmBytes := total
      totalAppliedHwmBytes := total
      aggregateOverflow := overflow }
  pure (if overflow then { context with budgetInsufficient := true } else context, plans)

end Zlink.AutoHwm
