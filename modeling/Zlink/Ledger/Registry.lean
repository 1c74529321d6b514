import Zlink.Ledger.Direction
import Zlink.Lib.Keyed
import Zlink.Lib.Loop
import Zlink.Lib.Trace

/-!
# The registry of physical queues and its reservations

The registry owns the directions of all pipe pairs. A pair reserves the minimum of its two
directions when it is created, or is refused as a whole; each direction gives its
reservation back when the second of its two endpoints releases it. `run_balanced` says that
the reserved total is the sum over the directions that are there.
-/

namespace Zlink.Ledger

open Word64 AutoHwm

/-- `ctx_physical_queue_registry_t`. -/
structure Registry where
  directions : List Direction
  nextQueueId : UInt64
  applicationReservedBytes : UInt64
  metrics : Metrics

def Registry.init : Registry where
  directions := []
  nextQueueId := 1
  applicationReservedBytes := 0
  metrics := Metrics.init

inductive QueueClass where
  | application
  | completion
  | monitor

def QueueClass.lane : QueueClass → Lane
  | .completion => .completion
  | .monitor => .monitor
  | .application => .application

/-- The arguments of `create_pipepair_queues`. -/
structure Creation where
  firstDirectionHwm : UInt64
  secondDirectionHwm : UInt64
  queueClass : QueueClass
  role : Role
  planningEnabled : Bool
  contextPlan : ContextPlan

namespace Creation

def perDirectionMinimum (creation : Creation) : UInt64 :=
  if creation.queueClass.lane = .application ∧ creation.contextPlan.enabled ∧
      creation.planningEnabled ∧ creation.role ≠ .none then
    profileMinimumBytes creation.contextPlan.profile creation.role
  else 0

def hwm (creation : Creation) (hwm : UInt64) : UInt64 :=
  if creation.queueClass.lane = .completion then 0 else hwm

end Creation

namespace Registry

/-- One candidate of the search for a queue id; `none` is the end of the search without one. -/
def allocateTurn (directions : List Direction) (first candidate : UInt64) :
    UInt64 ⊕ Option (UInt64 × UInt64) :=
  let next := if candidate = maxWord then 1 else candidate + 1
  if (Keyed.find Direction.queueId candidate directions).isNone then
    .inr (some (candidate, next))
  else if next = first then .inr none
  else .inl next

variable (registry : Registry)

/-- `allocate_queue_id_unlocked`: the id and the next one to try. -/
def allocateQueueId : Option (UInt64 × UInt64) :=
  (Loop.run (fun candidate =>
    some (allocateTurn registry.directions registry.nextQueueId candidate)) (2 ^ 64)
    registry.nextQueueId).join

def availableMemory (contextPlan : ContextPlan) : UInt64 :=
  let limit := contextPlan.resolvedMemoryLimitBytes
  if limit ≤ registry.applicationReservedBytes then 0
  else limit - registry.applicationReservedBytes

def pairMinimum (creation : Creation) : Option UInt64 :=
  let minimum := creation.perDirectionMinimum
  let overflow := maxWord / 2 < minimum ∨ maxWord - minimum * 2 < registry.applicationReservedBytes
  if overflow ∨ registry.availableMemory creation.contextPlan < minimum * 2 then none
  else some (minimum * 2)

/-- Why a pair is not created. -/
inductive Refusal where
  | enobufs

/-- `create_pipepair_queues`: the queue ids of the two directions, or `ENOBUFS`. There is no
answer where an assertion fails, as when no queue id is left. -/
def createPipepairQueues (creation : Creation) :
    Option (Except Refusal (UInt64 × UInt64) × Registry) :=
  match registry.pairMinimum creation with
  | none => some (.error .enobufs, registry)
  | some pairMinimum => do
      let (firstId, next) ← registry.allocateQueueId
      let (secondId, next) ← { registry with nextQueueId := next }.allocateQueueId
      let lane := creation.queueClass.lane
      let minimum := creation.perDirectionMinimum
      let first := Direction.new firstId (creation.hwm creation.firstDirectionHwm) lane minimum
      let second := Direction.new secondId (creation.hwm creation.secondDirectionHwm) lane minimum
      if firstId = secondId then none
      else
        some (.ok (firstId, secondId),
          { registry with
            directions := second :: first :: registry.directions
            nextQueueId := next
            applicationReservedBytes := registry.applicationReservedBytes + pairMinimum })

def modify (registry : Registry) (id : UInt64) (f : Direction → Direction) : Registry :=
  { registry with directions := Keyed.modify Direction.queueId id f registry.directions }

def operate (id : UInt64) (operation : Direction.Operation) : Option Registry :=
  match Keyed.find Direction.queueId id registry.directions with
  | none => some registry
  | some direction => do
      let (direction, metrics) ← operation direction registry.metrics
      some { registry.modify id fun _ => direction with metrics }

def classifyDirection (lane : Lane) (direction : Direction) : Option Direction :=
  if direction.lane = .monitor ∧ lane = .application then some direction
  else if direction.lane = .unclassified then
    if direction.provisionalAccountedBytes = 0 ∧ direction.committedAccountedBytes = 0 then
      if lane = .completion then some { direction with lane, plannedHwm := 0, appliedHwm := 0 }
      else some { direction with lane }
    else none
  else if direction.lane = lane then some direction
  else none

def releaseEndpoint (id : UInt64) : Option Registry := do
  let direction ← Keyed.find Direction.queueId id registry.directions
  if direction.endpointRefs = 0 then none
  else if direction.endpointRefs = 1 then
    if accountingLane direction.lane ≠ .completion ∧
        direction.completionPendingMessageCount ≠ 0 then none
    else do
      let reserved ← subtractExact registry.applicationReservedBytes
        direction.minimumReservationBytes
      some
        { registry with
          directions := Keyed.erase Direction.queueId id registry.directions
          applicationReservedBytes := reserved }
  else
    some (registry.modify id fun direction =>
      { direction with endpointRefs := direction.endpointRefs - 1 })

end Registry

/-- The registry and the endpoints that hold a handle: a queue id, and whether the endpoint is
the writer of the queue. -/
structure World where
  registry : Registry
  endpoints : List (UInt64 × Bool)

def World.init : World where
  registry := Registry.init
  endpoints := []

inductive Event where
  | create (creation : Creation)
  | release (id : UInt64) (writer : Bool)
  | updateHwmTarget (id target sampled : UInt64)
  | classify (first second : UInt64) (completion : Bool)
  | advanceGeneration (id : UInt64)
  | accountProvisionalFrame (id frameBytes : UInt64)
  | commitMessage (id provisionalFrameBytes finalFrameBytes : UInt64)
      (countedMessage oversizeAdmission : Bool)
  | rollbackProvisional (id frameBytes : UInt64)
  | releaseCommittedFrame (id frameBytes countedMessageCount : UInt64)

namespace World

/-- `release_endpoint` through the handle of an endpoint, which it resets. -/
def release (world : World) (id : UInt64) (writer : Bool) : Option World :=
  if (id, writer) ∈ world.endpoints then do
    let registry ← world.registry.releaseEndpoint id
    some { registry, endpoints := world.endpoints.erase (id, writer) }
  else some world

def create (world : World) (creation : Creation) : Option World := do
  let (answer, registry) ← world.registry.createPipepairQueues creation
  match answer with
  | .error _ => some { world with registry }
  | .ok (first, second) =>
    some
      { registry
        endpoints := (first, true) :: (first, false) :: (second, true) :: (second, false) ::
          world.endpoints }

def operate (world : World) (id : UInt64) (operation : Direction.Operation) : Option World := do
  let registry ← world.registry.operate id operation
  some { world with registry }

def pureOperation (f : Direction → Option Direction) : Direction.Operation :=
  fun direction metrics => (f direction).map fun direction => (direction, metrics)

def step (world : World) : Event → Option World
  | .create creation => world.create creation
  | .release id writer => world.release id writer
  | .updateHwmTarget id target sampled =>
    world.operate id (pureOperation fun d => some (d.updateHwmTarget target sampled))
  | .classify first second completion => do
      let lane : Lane := if completion then .completion else .application
      let world ← world.operate first (pureOperation (Registry.classifyDirection lane))
      world.operate second (pureOperation (Registry.classifyDirection lane))
  | .advanceGeneration id => world.operate id (pureOperation fun d => some d.advanceGeneration)
  | .accountProvisionalFrame id frameBytes =>
    world.operate id (Direction.accountProvisionalFrame frameBytes)
  | .commitMessage id provisionalFrameBytes finalFrameBytes countedMessage oversizeAdmission =>
    world.operate id (Direction.commitMessage provisionalFrameBytes finalFrameBytes
      countedMessage oversizeAdmission)
  | .rollbackProvisional id frameBytes =>
    world.operate id (Direction.rollbackProvisional frameBytes)
  | .releaseCommittedFrame id frameBytes countedMessageCount =>
    world.operate id (Direction.releaseCommittedFrame frameBytes countedMessageCount)

end World

end Zlink.Ledger
