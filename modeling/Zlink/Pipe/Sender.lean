import Zlink.Pipe.Operations
import Zlink.Protocol.FlowState

/-!
# The writing end with its accounts

Beside the ledger, the writing end keeps accounts that others sample: the bytes it has published,
the messages it admitted although they exceed the mark, and what it charges to its physical queue
in the registry of the context. Reports for the peer wait here for the end of the record in
progress. A `Sender` is a `Writer` with these.
-/

namespace Zlink.Pipe

open Protocol Suspension Writer

inductive QueueLane where
  | application
  | completion
  | monitor
  deriving DecidableEq

structure QueueRegistry where
  lane : QueueLane
  plannedHwm : ℕ
  appliedHwm : ℕ
  provisionalAccountedBytes : ℕ
  committedAccountedBytes : ℕ
  completionPendingMessageCount : ℕ
  aggregateOverflow : Bool
  oversizeAdmissionCount : ℕ
  largestOversizeMessageBytes : ℕ

/-- `saturating_add` has to hold the sum at `UINT64_MAX`. -/
def addOverflows (value amount : ℕ) : Bool :=
  decide (uint64Max - value < amount)

namespace QueueRegistry

variable (q : QueueRegistry)

def accountProvisionalFrame (frameBytes : ℕ) : QueueRegistry :=
  { q with
    provisionalAccountedBytes := satAdd q.provisionalAccountedBytes frameBytes
    aggregateOverflow :=
      q.aggregateOverflow || addOverflows q.provisionalAccountedBytes frameBytes }

/-- The end of `commit_message`: what is counted besides the bytes. -/
def countMessage (messageBytes : ℕ) (counted oversizeAdmission : Bool) :
    QueueRegistry :=
  match q.lane with
  | .application =>
    if oversizeAdmission then
      { q with
        oversizeAdmissionCount := satAdd q.oversizeAdmissionCount 1
        aggregateOverflow := q.aggregateOverflow || addOverflows q.oversizeAdmissionCount 1
        largestOversizeMessageBytes := max q.largestOversizeMessageBytes messageBytes }
    else q
  | .completion =>
    if counted then
      { q with
        completionPendingMessageCount := satAdd q.completionPendingMessageCount 1
        aggregateOverflow :=
          q.aggregateOverflow || addOverflows q.completionPendingMessageCount 1 }
    else q
  | .monitor => q

def commitMessage (provisionalFrameBytes finalFrameBytes : ℕ)
    (counted oversizeAdmission : Bool) : QueueRegistry :=
  let messageBytes := satAdd provisionalFrameBytes finalFrameBytes
  let q :=
    { q with
      provisionalAccountedBytes := q.provisionalAccountedBytes - provisionalFrameBytes
      committedAccountedBytes := satAdd q.committedAccountedBytes messageBytes
      aggregateOverflow := q.aggregateOverflow ||
        addOverflows provisionalFrameBytes finalFrameBytes ||
        addOverflows q.committedAccountedBytes messageBytes }
  q.countMessage messageBytes counted oversizeAdmission

def currentBytes : ℕ :=
  satAdd q.provisionalAccountedBytes q.committedAccountedBytes

def applyDeferredHwmIfDrained : QueueRegistry :=
  if q.plannedHwm = q.appliedHwm then q
  else if q.plannedHwm = 0 ∨ q.currentBytes ≤ q.plannedHwm then
    { q with appliedHwm := q.plannedHwm }
  else q

def rollbackProvisional (frameBytes : ℕ) : QueueRegistry :=
  if frameBytes = 0 then q
  else
    { q with
      provisionalAccountedBytes :=
        q.provisionalAccountedBytes - frameBytes }.applyDeferredHwmIfDrained

def releaseCommittedFrame (frameBytes countedMessageCount : ℕ) :
    QueueRegistry :=
  if frameBytes = 0 then q
  else
    { q with
      committedAccountedBytes := q.committedAccountedBytes - frameBytes
      completionPendingMessageCount :=
        if q.lane = QueueLane.completion then q.completionPendingMessageCount - countedMessageCount
        else q.completionPendingMessageCount }.applyDeferredHwmIfDrained

end QueueRegistry

inductive PeerControl where
  | weight (weight : UInt32)
  | flowState (state : UInt8) (epoch : ℕ)

def weightCommandName : List UInt8 := [87, 69, 73, 71, 72, 84]

def PeerControl.frame : PeerControl → Frame
  | .weight value => .data
      { flags := Msg.command
        data := weightCommandName ++ BigEndian.bytesOf 4 value.toNat
        requestReply := none }
  | .flowState state epoch => .data (FlowState.initFrame
      { version := FlowState.frameProtocolVersion, state, epoch })

/-- The two slots for reports that wait: the latest weight and the latest flow state, each with
the number of its report. -/
structure PendingControls where
  weight : Option (UInt32 × ℕ)
  flow : Option (UInt8 × ℕ × ℕ)
  sequence : ℕ

namespace PendingControls

def empty : PendingControls := ⟨none, none, 0⟩

variable (c : PendingControls)

/-- `pending_peer_controls_unlocked`. -/
def any : Bool :=
  c.weight.isSome || c.flow.isSome

def rebase : PendingControls :=
  match c.weight, c.flow with
  | some (weight, i), some (state, epoch, j) =>
    if i < j then ⟨some (weight, 1), some (state, epoch, 2), 2⟩
    else ⟨some (weight, 2), some (state, epoch, 1), 2⟩
  | some (weight, _), none => ⟨some (weight, 1), none, 1⟩
  | none, some (state, epoch, _) => ⟨none, some (state, epoch, 1), 1⟩
  | none, none => ⟨none, none, 0⟩

/-- `next_peer_control_sequence_unlocked`. -/
def nextSequence : PendingControls :=
  let c := if c.sequence = uint64Max then c.rebase else c
  { c with sequence := c.sequence + 1 }

/-- The slot is filled before its report is numbered. -/
def stage : PeerControl → PendingControls
  | .weight value =>
    let numbered := some (value, (c.weight.map Prod.snd).getD 0)
    let c := { c with weight := numbered }.nextSequence
    { c with weight := some (value, c.sequence) }
  | .flowState state epoch =>
    let c := c.nextSequence
    { c with flow := some (state, epoch, c.sequence) }

/-- The report that goes first, and what waits behind it. -/
def next : Option (PeerControl × PendingControls) :=
  match c.weight, c.flow with
  | some (weight, i), some (state, epoch, j) =>
    if i < j then some (.weight weight, { c with weight := none })
    else some (.flowState state epoch, { c with flow := none })
  | some (weight, _), none => some (.weight weight, { c with weight := none })
  | none, some (state, epoch, _) => some (.flowState state epoch, { c with flow := none })
  | none, none => none

def count : ℕ :=
  c.weight.toList.length + c.flow.toList.length

theorem count_lt_of_next {c rest : PendingControls} {control : PeerControl}
    (h : c.next = some (control, rest)) : rest.count < c.count := by
  obtain ⟨weight, flow, sequence⟩ := c
  rcases weight with _ | ⟨weight, i⟩ <;> rcases flow with _ | ⟨state, epoch, j⟩ <;>
    simp only [next, Option.some.injEq, Prod.mk.injEq, reduceCtorEq] at h
  · obtain ⟨-, rfl⟩ := h
    exact Nat.one_pos
  · obtain ⟨-, rfl⟩ := h
    exact Nat.one_pos
  · split at h <;> obtain ⟨-, rfl⟩ := Prod.mk.inj (Option.some.inj h) <;> exact Nat.lt_succ_self 1

end PendingControls

inductive TransportLane where
  | application
  | completion
  deriving DecidableEq

structure ControlRoute where
  lane : TransportLane
  laneCount : ℕ
  pairId : ℕ
  pairGeneration : ℕ
  peerUsesRoutedProtocol : Bool
  sessionPipe : Bool
  /-- The peer is there, and is the other end of the same connection. -/
  exactPeer : Bool
  /-- The peer is on the application lane. -/
  peerOnApplicationLane : Bool
  /-- The mailbox of the peer takes a weight. -/
  peerTakesWeight : Bool

namespace ControlRoute

/-- `peer_control_slots_enabled_unlocked`. -/
def slotsEnabled (r : ControlRoute) : Bool :=
  if r.pairId = 0 ∨ r.pairGeneration = 0 ∨ r.peerUsesRoutedProtocol = false then false
  else if r.laneCount = 1 then decide (r.lane = .application)
  else decide (r.laneCount = 2)

def takes (r : ControlRoute) : PeerControl → Bool
  | .weight _ => decide (r.lane = .application) && r.peerOnApplicationLane && r.peerTakesWeight
  | .flowState _ _ => true

/-- The loop of `dispatch_pending_inproc_controls_unlocked`: the reports that the mailbox takes,
and those that stay behind one that it does not take. -/
def dispatch (r : ControlRoute) (c : PendingControls) : List PeerControl × PendingControls :=
  match _h : c.next with
  | none => ([], { c with sequence := 0 })
  | some (control, rest) =>
    if r.takes control then (control :: (r.dispatch rest).1, (r.dispatch rest).2) else ([], c)
termination_by c.count
decreasing_by all_goals exact PendingControls.count_lt_of_next _h

end ControlRoute

structure Sender where
  writer : Writer
  registry : QueueRegistry
  oversizeMessageAdmissionCount : ℕ
  oversizeMessageAdmissionMaxBytes : ℕ
  publishedOutboundTotalBytes : ℕ
  publishedOutboundProvisionalBytes : ℕ
  controls : PendingControls
  route : ControlRoute
  /-- The reports that were given to the mailbox of the peer. -/
  dispatched : List PeerControl

def QueueRegistry.init (hwm : ℕ) (lane : QueueLane) : QueueRegistry where
  lane
  plannedHwm := hwm
  appliedHwm := hwm
  provisionalAccountedBytes := 0
  committedAccountedBytes := 0
  completionPendingMessageCount := 0
  aggregateOverflow := false
  oversizeAdmissionCount := 0
  largestOversizeMessageBytes := 0

def Sender.init (hwm : ℕ) (conflate : Bool) (lane : QueueLane) (route : ControlRoute) : Sender where
  writer := .init hwm conflate (lane != .application)
  registry := .init hwm lane
  oversizeMessageAdmissionCount := 0
  oversizeMessageAdmissionMaxBytes := 0
  publishedOutboundTotalBytes := 0
  publishedOutboundProvisionalBytes := 0
  controls := .empty
  route
  dispatched := []

/-- A computation of the sender, stopped at its loads of the reader's ledger. -/
abbrev Sending (β : Type) : Type := Prog Sender Unit Ledger β

namespace Sender

variable (s : Sender)

def withWriter (w : Writer) : Sender :=
  { s with writer := w }

def within {β : Type} (p : Access (β × Writer)) : Sending (β × Sender) :=
  p.translate s.withWriter (Prod.map id s.withWriter)

def publishOutboundAccounting (provisionalChanged : Bool) : Sender :=
  { s with
    publishedOutboundTotalBytes := satAdd s.writer.bytesWritten s.writer.outIncompleteBytes
    publishedOutboundProvisionalBytes :=
      if provisionalChanged then s.writer.outIncompleteBytes
      else s.publishedOutboundProvisionalBytes }

def recordOversizeMessageAdmission (messageBytes : ℕ) : Sender :=
  { s with
    oversizeMessageAdmissionCount := (s.oversizeMessageAdmissionCount + 1) % 2 ^ 64
    oversizeMessageAdmissionMaxBytes := max s.oversizeMessageAdmissionMaxBytes messageBytes }

def releaseReplaced (m : Frame) (replaced : List Frame) : Sender :=
  if s.writer.registryAccounting && s.writer.conflate && !m.more then
    { s with
      registry := s.registry.releaseCommittedFrame
        (replaced.map Frame.committedAccountedBytes).sum (replaced.countP Frame.countedPending) }
  else s

def exceedsMark (w : Writer) (inFlight messageBytes : ℕ) : Bool :=
  decide (0 < w.hwm) && decide (inFlight = 0) &&
    (decide (w.hwm < messageBytes) || decide (uint64Max - inFlight < messageBytes) ||
      decide (w.hwm < inFlight + messageBytes))

/-- What `write_message_unlocked` charges to the registry. -/
def chargeFrame (w : Writer) (m : Frame) (oversize : Bool) : Sender :=
  if !w.registryAccounting then s
  else if m.more then
    { s with registry := s.registry.accountProvisionalFrame m.accountedBytes }
  else if m.isDelimiter then s
  else
    { s with
      registry := s.registry.commitMessage w.outIncompleteBytes m.accountedBytes
        m.countedPending oversize }

/-- The accounts of a frame that the writer has taken; `w` is the writer before it, whose credit
may have been less. -/
def accountFrame (w : Writer) (m : Frame) (replaced : List Frame) : Sender :=
  let messageBytes := w.outIncompleteBytes + m.accountedBytes
  let oversize := m.countedPending && !w.transportPairWriteHeld &&
    exceedsMark w (w.bytesWritten - s.writer.peersBytesRead) messageBytes
  let s := (s.chargeFrame w m oversize).releaseReplaced m replaced
  let s := if oversize then s.recordOversizeMessageAdmission messageBytes else s
  s.publishOutboundAccounting (m.more || w.outIncompleteBytes != 0)

def accountSingle (w : Writer) (m : Frame) : Sender :=
  let s :=
    if 0 < w.hwm ∧ w.inFlight = 0 ∧ w.hwm < m.accountedBytes then
      s.recordOversizeMessageAdmission m.accountedBytes
    else s
  s.publishOutboundAccounting false

def chargeControl (m : Frame) : Sender :=
  if s.writer.registryAccounting then
    { s with registry := s.registry.commitMessage 0 m.accountedBytes m.countedPending false }
  else s

/-- `publish_outbound_frame_unlocked`. -/
def publishOutboundFrame (s : Sender) (m : Frame) (replaced : List Frame) : Sender :=
  (s.releaseReplaced m replaced).withWriter (s.writer.publishOutboundFrame m replaced)

/-- The ledger entry of a report. -/
def countControl (m : Frame) : Sender :=
  (s.withWriter
    { s.writer with
      msgsWritten := satAdd s.writer.msgsWritten 1
      bytesWritten := satAdd s.writer.bytesWritten m.accountedBytes
      outCompleteRecordPending := true }).publishOutboundAccounting false

/-- A report joins the queue as a record of its own. -/
def appendControl (dropped : PeerControl → List Frame) (control : PeerControl) :
    Sender :=
  ((s.chargeControl control.frame).publishOutboundFrame control.frame
    (dropped control)).countControl control.frame

/-- The loop of `append_pending_peer_controls_unlocked`. -/
def appendControls (s : Sender) (dropped : PeerControl → List Frame) : Sender :=
  match _h : s.controls.next with
  | none => { s with controls := { s.controls with sequence := 0 } }
  | some (control, rest) =>
    let s' := s.appendControl dropped control
    appendControls { s' with controls := rest } dropped
termination_by s.controls.count
decreasing_by exact PendingControls.count_lt_of_next _h

theorem appendControls_of_none {s : Sender} {dropped : PeerControl → List Frame}
    (h : s.controls.next = none) :
    s.appendControls dropped = { s with controls := { s.controls with sequence := 0 } } := by
  rw [appendControls]
  split
  · rfl
  · rename_i hsome
    cases h.symm.trans hsome

theorem appendControls_of_some {s : Sender} {dropped : PeerControl → List Frame}
    {control : PeerControl} {rest : PendingControls} (h : s.controls.next = some (control, rest)) :
    s.appendControls dropped =
      appendControls { s.appendControl dropped control with controls := rest } dropped := by
  rw [appendControls]
  split
  · rename_i hnone
    cases h.symm.trans hnone
  · rename_i hsome
    obtain ⟨rfl, rfl⟩ := Prod.mk.inj (Option.some.inj (h.symm.trans hsome))
    rfl

def betweenRecords : Bool :=
  s.writer.outIncompleteBytes == 0 && s.writer.outIncompletePayloadBytes == 0

def appendPendingControls (dropped : PeerControl → List Frame) : Sender :=
  if s.controls.any && s.betweenRecords && decide (s.writer.state = .active) &&
      !s.writer.transportPairWriteHeld && s.route.sessionPipe then s.appendControls dropped
  else s

def dispatchPendingControls : Sender :=
  if s.controls.any && s.betweenRecords && decide (s.writer.state = .active) &&
      !s.writer.transportPairWriteHeld && !s.route.sessionPipe && s.route.exactPeer then
    let (sent, controls) := s.route.dispatch s.controls
    { s with controls, dispatched := s.dispatched ++ sent }
  else s

def flushQueue : Sender :=
  s.withWriter s.writer.flush

/-- `flush_unlocked`. Reports that wait go with the flush: before it in the queue, or behind it to
the mailbox of a peer in the same process. -/
def flush (dropped : PeerControl → List Frame) : Sender :=
  if s.writer.state = .termAckSent then s
  else if s.controls.any && s.route.slotsEnabled && s.betweenRecords then
    if s.route.sessionPipe then (s.appendPendingControls dropped).flushQueue
    else s.flushQueue.dispatchPendingControls
  else s.flushQueue

def discardPendingControls : Sender :=
  { s with controls := .empty }

def flushPendingControls (dropped : PeerControl → List Frame) : Sender :=
  if s.controls.any && s.betweenRecords && decide (s.writer.state = .active) &&
      !s.writer.transportPairWriteHeld then s.flush dropped
  else s

/-- `write_peer_weight_control_and_flush` and `write_flow_state_control_and_flush`, behind their
checks of the lane. -/
def writeControlAndFlush (control : PeerControl) (deferFlush : Bool)
    (dropped : PeerControl → List Frame) : Sender :=
  if s.writer.state ≠ .active ∨ s.writer.transportPairWriteHeld then s
  else
    let staged := { s with controls := s.controls.stage control }
    if deferFlush || !s.betweenRecords then staged else staged.flushPendingControls dropped

/-- `rollback_unlocked` up to the reports. -/
def rollbackRecord : Sender :=
  let registry :=
    if s.writer.registryAccounting then s.registry.rollbackProvisional s.writer.outIncompleteBytes
    else s.registry
  ({ s with registry }.withWriter s.writer.rollback).publishOutboundAccounting true

/-- The reports that waited for the end of the record are published, or discarded with the
connection. -/
def settleControls (publishPeerControl : Bool) (dropped : PeerControl → List Frame) : Sender :=
  if s.controls.any && s.route.slotsEnabled then
    if publishPeerControl && decide (s.writer.state = .active) then
      s.flushPendingControls dropped
    else s.discardPendingControls
  else s

def rollback (publishPeerControl : Bool) (dropped : PeerControl → List Frame) :
    Sender :=
  s.rollbackRecord.settleControls publishPeerControl dropped

/-- `write_message_unlocked`. -/
def writeMessage (s : Sender) (m : Frame) (enforceHwm enforceIncrementalHwm : Bool)
    (maxMessageBytes : ℕ) (replaced : List Frame) : Sending (Admission × Sender) := do
  let (admission, t) ← s.within
    (s.writer.writeMessage m enforceHwm enforceIncrementalHwm maxMessageBytes replaced)
  if admission = .ready then
    return (.ready, t.accountFrame s.writer m replaced)
  return (admission, t)

def writeMessageAndFlush (m : Frame) (enforceIncrementalHwm : Bool)
    (replaced : List Frame) (dropped : PeerControl → List Frame) :
    Sending (Admission × Sender) := do
  let (admission, s) ← s.writeMessage m true enforceIncrementalHwm s.writer.maxMessageBytes replaced
  if admission = .ready ∧ m.more = false then
    return (admission, s.flush dropped)
  return (admission, s)

/-- An entry point that asks for admission first. -/
def admitted (admission : Access (Admission × Writer))
    (go : Sender → Sending (Admission × Sender)) : Sending (Admission × Sender) := do
  let (admission, s) ← s.within admission
  if admission ≠ .ready then
    return (admission, s)
  go s

def write (m : Frame) (replaced : List Frame) : Sending (Admission × Sender) :=
  s.admitted s.writer.admitWrite fun s =>
    s.writeMessage m true true s.writer.maxMessageBytes replaced

def writeAndFlush (m : Frame) (replaced : List Frame)
    (dropped : PeerControl → List Frame) : Sending (Admission × Sender) :=
  s.admitted s.writer.admitWrite fun s => s.writeMessageAndFlush m true replaced dropped

def writeOwnerStartedMessage (m : Frame) (replaced : List Frame)
    (dropped : PeerControl → List Frame) : Sending (Admission × Sender) :=
  s.admitted s.writer.admitOwnerStartedWrite fun s => s.writeMessageAndFlush m true replaced dropped

/-- `write_message_observed`, once its observer has agreed. -/
def writeMessageObserved (m : Frame) (replaced : List Frame)
    (dropped : PeerControl → List Frame) : Sending (Admission × Sender) :=
  s.admitted s.writer.admitWrite fun s => s.writeMessageAndFlush m m.more replaced dropped

def writeNoRecursiveHwmCheck (m : Frame) (replaced : List Frame) : Sending (Admission × Sender) :=
  s.admitted s.writer.admitWrite fun s =>
    s.writeMessage m true false s.writer.maxMessageBytes replaced

def writeSingle (m : Frame) (dropped : PeerControl → List Frame) :
    Sending (Admission × Sender) := do
  if m.accountedBytes = uint64Max ∨
      (s.writer.maxMessageBytes ≠ 0 ∧ s.writer.maxMessageBytes < m.size) then
    return (.tooLarge, s)
  let (ready, t) ← s.within
    (s.writer.awaitCommitCredit m.accountedBytes m.size true s.writer.maxMessageBytes)
  if ready then
    return (.ready,
      ((t.withWriter (t.writer.commitSingle m)).accountSingle t.writer m).flush dropped)
  return (.hwmFull, t)

def writeSingleMessageAndFlush (m : Frame) (replaced : List Frame)
    (dropped : PeerControl → List Frame) : Sending (Admission × Sender) := do
  let (admission, s) ← s.within (pure s.writer.writeStateAdmission)
  if admission ≠ .ready then
    return (admission, s)
  if s.writer.atRecordBoundary ∧ m.commits then
    s.writeSingle m dropped
  else
    let (ready, s) ← s.within s.writer.hwmCreditReady
    if !ready then
      return (.hwmFull, s)
    let (admission, s) ← s.writeMessage m true false s.writer.maxMessageBytes replaced
    if admission = .ready then
      return (.ready, s.flush dropped)
    return (admission, s)

def writeParts (s : Sender) (maxMessageBytes : ℕ) : List Frame → Sending Sender
  | [] => return s
  | m :: ms => do
      let (_, s) ← s.writeMessage m false false maxMessageBytes []
      s.writeParts maxMessageBytes ms

def tryWriteCompleteRecordAndFlush (parts : List Frame)
    (dropped : PeerControl → List Frame) : Sending (Bool × Sender) := do
  if parts.length < 2 then
    return (false, s)
  let (admission, s) ← s.within (pure s.writer.writeStateAdmission)
  if admission ≠ .ready ∨ s.writer.atRecordBoundary = false ∨ recordWellFormed parts = false then
    return (false, s)
  match recordBytes parts 0 0 with
  | none => return (false, s)
  | some (bytes, payload) =>
    if s.writer.maxMessageBytes ≠ 0 ∧ s.writer.maxMessageBytes < payload then
      return (false, s)
    let (ready, s) ← s.within
      (s.writer.canCommitBytesWithPeerSnapshot bytes payload false s.writer.maxMessageBytes)
    if !ready then
      return (false, s)
    let s ← s.writeParts s.writer.maxMessageBytes parts
    return (true, s.flush dropped)

def writeEach (s : Sender) : List Frame → Sending (Bool × Sender)
  | [] => return (true, s)
  | m :: ms => do
      let (admission, s) ← s.write m []
      if admission ≠ .ready then
        return (false, s)
      s.writeEach ms

end Sender

end Zlink.Pipe
