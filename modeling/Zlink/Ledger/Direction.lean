import Zlink.AutoHwm.Registry

/-!
# The ledger of a physical queue

A direction of a pipe pair has a record that its two endpoints share. The record counts the
bytes of frames that are written but not committed, the bytes of committed frames, and on
the completion lane the complete messages. Additions stay at the largest word and raise a
flag of the registry; subtractions are exact and an assertion guards them.
-/

namespace Zlink.Ledger

open Word64 AutoHwm

/-- The ledger of one direction: `physical_queue_record_t`. -/
structure Direction where
  queueId : UInt64
  generation : UInt64
  lane : Lane
  endpointRefs : UInt32
  minimumReservationBytes : UInt64
  plannedHwm : UInt64
  appliedHwm : UInt64
  provisionalAccountedBytes : UInt64
  committedAccountedBytes : UInt64
  completionPendingMessageCount : UInt64

def Direction.new (queueId hwm : UInt64) (lane : Lane) (minimumReservationBytes : UInt64) :
    Direction where
  queueId := queueId
  generation := 1
  lane := lane
  endpointRefs := 2
  minimumReservationBytes := minimumReservationBytes
  plannedHwm := hwm
  appliedHwm := hwm
  provisionalAccountedBytes := 0
  committedAccountedBytes := 0
  completionPendingMessageCount := 0

/-- The counters of the registry that no direction owns. -/
structure Metrics where
  oversizeAdmissionCount : UInt64
  largestOversizeMessageBytes : UInt64
  aggregateOverflow : Bool

def Metrics.init : Metrics where
  oversizeAdmissionCount := 0
  largestOversizeMessageBytes := 0
  aggregateOverflow := false

/-- `saturating_add`: the new value and the flag of the registry. -/
def saturatingAdd (value amount : UInt64) (overflow : Bool) : UInt64 × Bool :=
  if maxWord - value < amount then (maxWord, true) else (value + amount, overflow)

/-- `subtract_exact`; its assertion fails where there is no answer. -/
def subtractExact (value amount : UInt64) : Option UInt64 :=
  if amount ≤ value then some (value - amount) else none

def accountingLane : Lane → Lane
  | .completion => .completion
  | .monitor => .monitor
  | _ => .application

namespace Direction

def currentQueueBytes (direction : Direction) : UInt64 :=
  if maxWord - direction.provisionalAccountedBytes < direction.committedAccountedBytes then
    maxWord
  else direction.provisionalAccountedBytes + direction.committedAccountedBytes

def applyDeferredHwmIfDrained (direction : Direction) : Direction :=
  if direction.plannedHwm = direction.appliedHwm then direction
  else if direction.plannedHwm = 0 ∨ direction.currentQueueBytes ≤ direction.plannedHwm then
    { direction with appliedHwm := direction.plannedHwm }
  else direction

/-- `sampled` is what the ledger of the pipe says where the direction keeps it there. -/
def currentAccountedBytes (sampled : UInt64) (direction : Direction) : UInt64 :=
  if accountingLane direction.lane = .application then sampled
  else direction.currentQueueBytes

def updateHwmTarget (target sampled : UInt64) (direction : Direction) : Direction :=
  let grows := target = 0 ∨ (direction.appliedHwm ≠ 0 ∧ direction.appliedHwm ≤ target)
  if grows ∨ direction.currentAccountedBytes sampled ≤ target then
    { direction with plannedHwm := target, appliedHwm := target }
  else { direction with plannedHwm := target }

def advanceGeneration (direction : Direction) : Direction :=
  { direction with
    generation := if direction.generation = maxWord then 1 else direction.generation + 1 }

abbrev Operation := Direction → Metrics → Option (Direction × Metrics)

def accountProvisionalFrame (frameBytes : UInt64) : Operation := fun direction metrics =>
  if frameBytes = 0 then none
  else
    let provisional := saturatingAdd direction.provisionalAccountedBytes frameBytes
      metrics.aggregateOverflow
    some ({ direction with provisionalAccountedBytes := provisional.1 },
      { metrics with aggregateOverflow := provisional.2 })

def takeProvisional (provisionalFrameBytes : UInt64) (direction : Direction) : Option UInt64 :=
  if 0 < provisionalFrameBytes then
    subtractExact direction.provisionalAccountedBytes provisionalFrameBytes
  else some direction.provisionalAccountedBytes

def commitBytes (provisionalFrameBytes finalFrameBytes : UInt64) : Operation :=
  fun direction metrics =>
    (direction.takeProvisional provisionalFrameBytes).map fun provisional =>
      let message :=
        saturatingAdd provisionalFrameBytes finalFrameBytes metrics.aggregateOverflow
      let committed := saturatingAdd direction.committedAccountedBytes message.1 message.2
      ({ direction with
          provisionalAccountedBytes := provisional
          committedAccountedBytes := committed.1 },
        { metrics with aggregateOverflow := committed.2 })

def countPending (counted : Bool) : Operation := fun direction metrics =>
  if counted then
    let pending := saturatingAdd direction.completionPendingMessageCount 1 metrics.aggregateOverflow
    some ({ direction with completionPendingMessageCount := pending.1 },
      { metrics with aggregateOverflow := pending.2 })
  else some (direction, metrics)

/-- An admission beyond the mark on the application lane. -/
def countOversize (oversizeAdmission : Bool) (messageBytes : UInt64) : Operation :=
  fun direction metrics =>
    if oversizeAdmission then
      let count := saturatingAdd metrics.oversizeAdmissionCount 1 metrics.aggregateOverflow
      some (direction,
        { oversizeAdmissionCount := count.1
          aggregateOverflow := count.2
          largestOversizeMessageBytes := max metrics.largestOversizeMessageBytes messageBytes })
    else some (direction, metrics)

def commitMessage (provisionalFrameBytes finalFrameBytes : UInt64)
    (countedMessage oversizeAdmission : Bool) : Operation := fun direction metrics =>
  if finalFrameBytes = 0 then none
  else
    (commitBytes provisionalFrameBytes finalFrameBytes direction metrics).bind fun next =>
      match accountingLane direction.lane with
      | .application =>
        countOversize oversizeAdmission
          (saturatingAdd provisionalFrameBytes finalFrameBytes false).1 next.1 next.2
      | .completion => countPending countedMessage next.1 next.2
      | _ => some next

def rollbackProvisional (frameBytes : UInt64) : Operation := fun direction metrics =>
  if frameBytes = 0 then some (direction, metrics)
  else
    (subtractExact direction.provisionalAccountedBytes frameBytes).map fun provisional =>
      ({ direction with
        provisionalAccountedBytes := provisional }.applyDeferredHwmIfDrained, metrics)

def takePending (countedMessageCount : UInt64) (direction : Direction) : Option UInt64 :=
  if accountingLane direction.lane = .completion ∧ 0 < countedMessageCount then
    subtractExact direction.completionPendingMessageCount countedMessageCount
  else some direction.completionPendingMessageCount

def releaseCommittedFrame (frameBytes countedMessageCount : UInt64) : Operation :=
  fun direction metrics =>
    if frameBytes = 0 then some (direction, metrics)
    else
      (subtractExact direction.committedAccountedBytes frameBytes).bind fun committed =>
        (direction.takePending countedMessageCount).map fun pending =>
          ({ direction with
            committedAccountedBytes := committed
            completionPendingMessageCount := pending }.applyDeferredHwmIfDrained, metrics)

end Direction

end Zlink.Ledger
