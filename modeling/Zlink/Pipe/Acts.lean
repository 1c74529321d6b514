import Zlink.Pipe.Opening

/-!
# What happens to a sender

The operations of the writing end with their accounts, and what its peer and the reader cause there.
A run of a sender is a sequence of these.
-/

namespace Zlink.Pipe

open Protocol Suspension

namespace QueueRegistry

/-- `update_hwm_target`. The bytes of a queue that keeps them to itself are asked for. -/
def updateHwmTarget (q : QueueRegistry) (target sampled : ℕ) : QueueRegistry :=
  let current := if q.lane = QueueLane.application then sampled else q.currentBytes
  let grows := target = 0 ∨ (q.appliedHwm ≠ 0 ∧ q.appliedHwm ≤ target)
  { q with
    plannedHwm := target
    appliedHwm := if grows ∨ current ≤ target then target else q.appliedHwm }

/-- `commit_decoder_frame`, for a reservation that is good. No decoder feeds a monitor. -/
def commitDecoderFrame (q : QueueRegistry) (provisionalFrameBytes frameBytes : ℕ)
    (more counted : Bool) : QueueRegistry :=
  match q.lane with
  | .application => q
  | .completion =>
    if more then q.accountProvisionalFrame frameBytes
    else q.commitMessage provisionalFrameBytes frameBytes counted false
  | .monitor => q

end QueueRegistry

namespace Sender

variable (s : Sender)

def writeVia (entry : Entry) (m : Frame) (replaced : List Frame)
    (dropped : PeerControl → List Frame) : Sending (Admission × Sender) :=
  match entry with
  | .perFrame => s.write m replaced
  | .flushed => s.writeAndFlush m replaced dropped
  | .ownerStarted => s.writeOwnerStartedMessage m replaced dropped
  | .observed => s.writeMessageObserved m replaced dropped
  | .noRecursiveHwmCheck => s.writeNoRecursiveHwmCheck m replaced
  | .single => s.writeSingleMessageAndFlush m replaced dropped

/-- A frame that does not ask for credit, behind the look at the state: identities, probes, frames
of a publication that was admitted, and the messages that a transport leaves behind. -/
def writeUnenforced (m : Frame) (replaced : List Frame)
    (dropped : PeerControl → List Frame) : Sending (Admission × Sender) := do
  let (admission, s) ← s.writeMessage m false true s.writer.maxMessageBytes replaced
  if admission = .ready ∧ m.more = false then
    return (admission, s.flush dropped)
  return (admission, s)

/-- The accounts of a frame of the decoder that the writer has taken; `w` is the writer before
it. -/
def accountPushed (w : Writer) (m : Frame) (frameBytes : ℕ) (replaced : List Frame) :
    Sender :=
  let messageBytes := w.outIncompleteBytes + frameBytes
  let charged :=
    if w.registryAccounting then
      { s with
        registry := s.registry.commitDecoderFrame w.outIncompleteBytes frameBytes m.more
          m.countedPending }
    else s
  let released := charged.releaseReplaced m replaced
  let recorded :=
    if m.commits ∧ 0 < w.hwm ∧ w.inFlight = 0 ∧ w.hwm < messageBytes then
      released.recordOversizeMessageAdmission messageBytes
    else released
  recorded.publishOutboundAccounting (m.more || w.outIncompleteBytes != 0)

def engineError (dropped : PeerControl → List Frame) : Sender :=
  (s.withWriter s.writer.releaseDecoderFrameReservation).rollback true dropped

def pushDecoded (m : Frame) (recvRoutingId : Bool) (replaced : List Frame)
    (dropped : PeerControl → List Frame) : Sender :=
  if m.isRoutingId && !recvRoutingId then
    s.withWriter s.writer.releaseDecoderFrameReservation
  else
    let frameBytes := (s.writer.reservation.map Reservation.frameBytes).getD 0
    match s.writer.writeReservedDecoderFrame m replaced with
    | (true, w) => (s.withWriter w).accountPushed s.writer m frameBytes replaced
    | (false, w) => (s.withWriter w).engineError dropped

def delimitOutbound (dropped : PeerControl → List Frame) : Sender :=
  let s := (s.withWriter { s.writer with outActive := false }).rollback false dropped
  (s.withWriter { s.writer with outPipe := s.writer.outPipe.write .delimiter false }).flush dropped

def terminate (delay : Bool) (dropped : PeerControl → List Frame) : Sender :=
  match s.writer.state with
  | .termReqSent1 | .termReqSent2 | .termAckSent => s
  | .active | .delimiterReceived =>
    (s.withWriter (s.writer.transitionToInactiveState .termReqSent1)).delimitOutbound dropped
  | .waitingForDelimiter =>
    if delay then s.delimitOutbound dropped
    else
      let s := (s.withWriter { s.writer with outActive := false }).rollback false dropped
      s.withWriter (s.writer.transitionToInactiveState .termAckSent)

def releaseFrames (frameBytes countedMessageCount : ℕ) : Sender :=
  if s.writer.registryAccounting then
    { s with registry := s.registry.releaseCommittedFrame frameBytes countedMessageCount }
  else s

def discardFrame (s : Sender) : Frame → Sender
  | .delimiter => s
  | m => s.releaseFrames m.accountedBytes (if m.countedPending then 1 else 0)

/-- `process_hiccup`; `left` is what the old queue still holds. -/
def processHiccup (s : Sender) (generation : ℕ) (left : List Frame) : Sender :=
  let s := left.foldl discardFrame s
  let registry :=
    if s.writer.registryAccounting then s.registry.rollbackProvisional s.writer.outIncompleteBytes
    else s.registry
  ({ s with registry, controls := .empty }.withWriter
    (s.writer.processHiccup generation)).publishOutboundAccounting true

/-- `set_hwms` on the writing end. -/
def setHwms (hwm sampled : ℕ) : Sender :=
  { s with registry := s.registry.updateHwmTarget hwm sampled }.withWriter { s.writer with hwm }

/-- The transport of the pipe or its peer has become another. -/
def setRoute (route : ControlRoute) : Sender :=
  { s with route }

/-- `flush_pending_peer_controls`. -/
def publishControls (dropped : PeerControl → List Frame) : Sender :=
  if s.route.slotsEnabled then s.flushPendingControls dropped else s.discardPendingControls

end Sender

def Op.plain : Op → Bool
  | checkWrite | checkPublishRecordHwm | admitOwnerMessageStart | reserve _ _ _
  | setMaxMessageBytes _ | holdWrites | releaseWrites | flowState _ _ | takeHwmCreditRecovery
  | refreshWriteCredit | retire _ => true
  | _ => false

inductive Act where
  | plain (op : { op : Op // op.plain = true })
  | write (entry : Entry) (m : Msg) (replaced : List Frame)
  | unenforced (m : Msg) (replaced : List Frame)
  | completeRecord (parts : List Frame)
  | flush
  | rollback
  | push (m : Msg) (recvRoutingId : Bool) (replaced : List Frame)
  | engineError
  | control (control : PeerControl) (deferFlush : Bool)
  | publishControls
  | setHwms (hwm sampled : ℕ)
  | setRoute (route : ControlRoute)
  | terminate (delay : Bool)
  | activateWrite (generation : ℕ) (credit : Ledger)
  | hiccup (generation : ℕ) (left : List Frame)
  | releaseFrames (frameBytes countedMessageCount : ℕ)

namespace Sender

def perform (s : Sender) (dropped : PeerControl → List Frame) : Act → Sending (Bool × Sender)
  | .plain op => s.within (op.1.program s.writer)
  | .write entry m replaced => do
      let (admission, s) ← s.writeVia entry (.data m) replaced dropped
      return (decide (admission = .ready), s)
  | .unenforced m replaced => do
      let (admission, s) ← s.writeUnenforced (.data m) replaced dropped
      return (decide (admission = .ready), s)
  | .completeRecord parts => s.tryWriteCompleteRecordAndFlush parts dropped
  | .flush => pure (true, s.flush dropped)
  | .rollback => pure (true, s.rollback true dropped)
  | .push m recvRoutingId replaced =>
    pure (true, s.pushDecoded (.data m) recvRoutingId replaced dropped)
  | .engineError => pure (true, s.engineError dropped)
  | .control control deferFlush => pure (true, s.writeControlAndFlush control deferFlush dropped)
  | .publishControls => pure (true, s.publishControls dropped)
  | .setHwms hwm sampled => pure (true, s.setHwms hwm sampled)
  | .setRoute route => pure (true, s.setRoute route)
  | .terminate delay => pure (true, s.terminate delay dropped)
  | .activateWrite generation credit =>
    pure (true, s.withWriter (s.writer.processActivateWrite generation credit))
  | .hiccup generation left => pure (true, s.processHiccup generation left)
  | .releaseFrames frameBytes countedMessageCount =>
    pure (true, s.releaseFrames frameBytes countedMessageCount)

def Fits (s : Sender) : Act → Prop
  | .push _ _ _ => s.registry.lane ≠ .monitor
  | _ => True

inductive Step (s : Sender) (act : Act) (accepted : Bool) (t : Sender) : Prop where
  | mk (dropped : PeerControl → List Frame) (fits : s.Fits act)
      (yields : (s.perform dropped act).Yields (fun _ _ => True) (accepted, t))

/-- The states of a sender from the making of the pipe on. -/
inductive Reachable : Sender → Prop where
  | init (hwm : ℕ) (conflate : Bool) (lane : QueueLane) (route : ControlRoute) :
      Reachable (.init hwm conflate lane route)
  | step {s t : Sender} {act : Act} {accepted : Bool} (h : Reachable s)
      (hstep : s.Step act accepted t) : Reachable t

end Sender

end Zlink.Pipe
