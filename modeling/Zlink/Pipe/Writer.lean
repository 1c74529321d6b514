import Zlink.Lib.Suspension
import Zlink.Protocol.Wire

/-!
# The writing end of a pipe

The outbound half of a pipe: the byte ledger with its high-water mark, the record
in progress, and the entry points that offer frames to it. The only word of the
other end it loads is the ledger that the reader publishes, so each entry point is
a program that stops at these loads.
-/

namespace Zlink.Pipe

open Protocol Suspension

/-- `UINT64_MAX`. -/
def uint64Max : ℕ := 2 ^ 64 - 1

/-- The sum of two counters, held at `UINT64_MAX`. -/
def satAdd (a b : ℕ) : ℕ :=
  if uint64Max - a < b then uint64Max else a + b

theorem satAdd_le (a b : ℕ) : satAdd a b ≤ a + b := by
  rw [satAdd]
  split <;> omega

theorem le_satAdd {a b : ℕ} (h : a ≤ uint64Max) : a ≤ satAdd a b := by
  rw [satAdd]
  split <;> omega

theorem satAdd_le_max {a b : ℕ} (h : a ≤ uint64Max) : satAdd a b ≤ uint64Max := by
  rw [satAdd]
  split <;> omega

theorem satAdd_zero_le (a b : ℕ) : satAdd 0 b ≤ satAdd a b := by
  rw [satAdd, satAdd]
  split <;> split <;> omega

theorem satAdd_of_le {a b : ℕ} (h : b ≤ uint64Max - a) : satAdd a b = a + b :=
  if_neg (by omega)

inductive Frame where
  | data (msg : Msg)
  | delimiter
  deriving DecidableEq

namespace Frame

def flags : Frame → UInt8
  | data msg => msg.flags
  | delimiter => 0

def size : Frame → ℕ
  | data msg => msg.data.length
  | delimiter => 0

def isDelimiter : Frame → Bool
  | data _ => false
  | delimiter => true

def more (m : Frame) : Bool :=
  hasAny m.flags Msg.more

variable (m : Frame)

def isRoutingId : Bool :=
  hasAny m.flags Msg.routingId

def isCredential : Bool :=
  hasAny m.flags Msg.credential

def commits : Bool :=
  !m.more && !m.isDelimiter

/-- `sizeof (msg_t)`. -/
def metadataBytes : ℕ := 64

def accountedBytes : ℕ :=
  if m.isDelimiter then metadataBytes
  else if uint64Max - m.size < metadataBytes then uint64Max
  else m.size + metadataBytes

def committedAccountedBytes : ℕ :=
  if m.isDelimiter then 0 else m.accountedBytes

def countedPending : Bool :=
  !m.more && !m.isRoutingId && !m.isCredential && !m.isDelimiter

theorem accountedBytes_pos : 0 < m.accountedBytes := by
  rw [accountedBytes]
  split
  · decide
  split
  · decide
  · exact Nat.add_pos_right _ (by decide)

theorem accountedBytes_eq : m.accountedBytes = satAdd m.size metadataBytes := by
  cases m with
  | data msg => rfl
  | delimiter => decide

theorem commits_iff {m : Frame} : m.commits = true ↔ m.more = false ∧ m.isDelimiter = false := by
  simp [commits]

theorem commits_of_more {m : Frame} (h : m.more = true) : m.commits = false := by
  simp [commits, h]

end Frame

/-- The queue as its writer has filled it in the present generation: the frames it
has flushed to the reader, the frames of complete records not flushed yet, and the
frames of the record in progress. How many of them the reader has taken is the
reader's to count. -/
structure OutPipe where
  flushed : List Frame
  complete : List Frame
  opened : List Frame
  deriving DecidableEq

namespace OutPipe

def empty : OutPipe :=
  { flushed := [], complete := [], opened := [] }

variable (q : OutPipe)

variable (m : Frame)

def write (incomplete : Bool) : OutPipe :=
  if incomplete then { q with opened := q.opened ++ [m] }
  else { q with complete := q.complete ++ q.opened ++ [m], opened := [] }

/-- Take back the frames of the record in progress. -/
def unwriteAll : OutPipe :=
  { q with opened := [] }

def flush : OutPipe :=
  { q with flushed := q.flushed ++ q.complete, complete := [] }

def committed : List Frame :=
  q.flushed ++ q.complete

theorem committed_write (incomplete : Bool) : (q.write m incomplete).committed =
      if incomplete then q.committed else q.committed ++ (q.opened ++ [m]) := by
  rw [write]
  split <;> simp [committed]

theorem opened_write (incomplete : Bool) : (q.write m incomplete).opened =
      if incomplete then q.opened ++ [m] else [] := by
  rw [write]
  split <;> simp

theorem flushed_write (incomplete : Bool) : (q.write m incomplete).flushed = q.flushed := by
  rw [write]
  split <;> rfl

@[simp] theorem committed_flush : q.flush.committed = q.committed := by
  simp [committed, flush]

@[simp] theorem opened_flush : q.flush.opened = q.opened := rfl

end OutPipe

inductive LifecycleState where
  | active
  | delimiterReceived
  | waitingForDelimiter
  | termAckSent
  | termReqSent1
  | termReqSent2
  deriving DecidableEq

/-- `pipe_message_admission_t`. -/
inductive Admission where
  | ready
  | hwmFull
  | requestFull
  | transportWait
  | tooLarge
  | inactive
  | invalid
  deriving DecidableEq

/-- Messages and bytes counted so far in one generation of the pipe. -/
structure Ledger where
  msgs : ℕ
  bytes : ℕ

namespace Ledger

def zero : Ledger :=
  { msgs := 0, bytes := 0 }

/-- Both counters have come as far. -/
instance : LE Ledger where
  le a b := a.msgs ≤ b.msgs ∧ a.bytes ≤ b.bytes

instance (a b : Ledger) : Decidable (a ≤ b) :=
  inferInstanceAs (Decidable (a.msgs ≤ b.msgs ∧ a.bytes ≤ b.bytes))

instance : PartialOrder Ledger where
  le_refl a := ⟨le_rfl, le_rfl⟩
  le_trans a b c h h' := ⟨h.1.trans h'.1, h.2.trans h'.2⟩
  le_antisymm a b h h' := by
    cases a
    cases b
    simp only [mk.injEq]
    exact ⟨Nat.le_antisymm h.1 h'.1, Nat.le_antisymm h.2 h'.2⟩

theorem zero_le (a : Ledger) : zero ≤ a :=
  ⟨Nat.zero_le _, Nat.zero_le _⟩

def join (a b : Ledger) : Ledger :=
  { msgs := max a.msgs b.msgs, bytes := max a.bytes b.bytes }

theorem le_join_left (a b : Ledger) : a ≤ join a b :=
  ⟨le_max_left _ _, le_max_left _ _⟩

theorem le_join_right (a b : Ledger) : b ≤ join a b :=
  ⟨le_max_right _ _, le_max_right _ _⟩

theorem join_le {a b c : Ledger} (ha : a ≤ c) (hb : b ≤ c) : join a b ≤ c :=
  ⟨max_le ha.1 hb.1, max_le ha.2 hb.2⟩

end Ledger

structure Reservation where
  generation : ℕ
  frameBytes : ℕ
  payloadBytes : ℕ
  msgFlags : UInt8
  multipartStartedEmpty : Bool
  deriving DecidableEq

structure Writer where
  state : LifecycleState
  conflate : Bool
  registryAccounting : Bool
  queueLive : Bool
  queueGeneration : ℕ
  hwm : ℕ
  maxMessageBytes : ℕ
  transportPairWriteHeld : Bool
  remoteFlowPaused : Bool
  remoteFlowEpoch : ℕ
  waitingForFlowResume : Bool
  outActive : Bool
  waitingForByteCredit : Bool
  outGeneration : ℕ
  msgsWritten : ℕ
  bytesWritten : ℕ
  peersMsgsRead : ℕ
  peersBytesRead : ℕ
  outIncompleteBytes : ℕ
  outIncompletePayloadBytes : ℕ
  outMultipartStartedEmpty : Bool
  outOwnerMessageStarted : Bool
  outOwnerMessageStartPending : Bool
  decoderMultipartStartedEmpty : Bool
  outCompleteRecordPending : Bool
  reservation : Option Reservation
  outPipe : OutPipe
  deriving DecidableEq

def Writer.init (hwm : ℕ) (conflate registryAccounting : Bool) : Writer where
  state := .active
  conflate
  registryAccounting
  queueLive := true
  queueGeneration := 1
  hwm
  maxMessageBytes := 0
  transportPairWriteHeld := false
  remoteFlowPaused := false
  remoteFlowEpoch := 0
  waitingForFlowResume := false
  outActive := true
  waitingForByteCredit := false
  outGeneration := 1
  msgsWritten := 0
  bytesWritten := 0
  peersMsgsRead := 0
  peersBytesRead := 0
  outIncompleteBytes := 0
  outIncompletePayloadBytes := 0
  outMultipartStartedEmpty := false
  outOwnerMessageStarted := false
  outOwnerMessageStartPending := false
  decoderMultipartStartedEmpty := false
  outCompleteRecordPending := false
  reservation := none
  outPipe := .empty

/-- A computation of the writing end, stopped at its loads of the reader's ledger. -/
abbrev Access (β : Type) : Type := Prog Writer Unit Ledger β

namespace Writer

variable (w : Writer)

def poll : Access Ledger :=
  Prog.load w ()

@[simp] theorem poll_bind {β : Type} (f : Ledger → Access β) :
    (w.poll >>= f) = Prog.ask w () f := rfl

def credit : Ledger :=
  { msgs := w.peersMsgsRead, bytes := w.peersBytesRead }

def inFlight : ℕ :=
  if w.peersBytesRead < w.bytesWritten then w.bytesWritten - w.peersBytesRead
  else 0

theorem inFlight_eq : w.inFlight = w.bytesWritten - w.peersBytesRead := by
  rw [inFlight]
  split <;> omega

/-- Take over what the reader has published, never less than is known. -/
def refreshPeerCreditSnapshot (published : Ledger) : Writer :=
  { w with
    peersMsgsRead := max w.peersMsgsRead published.msgs
    peersBytesRead := max w.peersBytesRead published.bytes }

def armHwmCreditWait : Writer :=
  { w with outActive := false, waitingForByteCredit := true }

def clearHwmCreditWait : Writer :=
  { w with outActive := true, waitingForByteCredit := false }

def checkHwm : Bool :=
  !(decide (0 < w.hwm) && decide (w.hwm ≤ w.inFlight))

def checkHwmWithPeerSnapshot : Access (Bool × Writer) := do
  if w.checkHwm then
    return (true, w)
  let w := w.refreshPeerCreditSnapshot (← w.poll)
  return (w.checkHwm, w)

/-- `hwm_credit_ready_unlocked`: the writer announces that it waits before it looks
a second time. -/
def hwmCreditReady : Access (Bool × Writer) := do
  let (ready, w) ← w.checkHwmWithPeerSnapshot
  if ready then
    return (true, w)
  let (ready, w) ← w.armHwmCreditWait.checkHwmWithPeerSnapshot
  if ready then
    return (true, w.clearHwmCreditWait)
  return (false, w)

def remoteFlowBlocked : Bool :=
  w.remoteFlowPaused && w.outIncompleteBytes == 0 &&
    !w.outMultipartStartedEmpty && !w.outOwnerMessageStarted

def writeStateAdmission : Admission × Writer :=
  if w.state ≠ .active then (.inactive, w)
  else if w.transportPairWriteHeld then (.transportWait, w)
  else if w.remoteFlowBlocked then
    (.transportWait, { w with waitingForFlowResume := true })
  else if !w.outActive then (.hwmFull, w)
  else (.ready, w)

def admitWrite : Access (Admission × Writer) := do
  let (admission, w) := w.writeStateAdmission
  if admission ≠ .ready then
    return (admission, w)
  let (ready, w) ← w.hwmCreditReady
  if ready then
    return (.ready, w)
  return (.hwmFull, w)

/-- A publisher keeps a pipe that refused it, so it may take up credit before the
command that announces it arrives. -/
def recoverPublishCredit : Access (Bool × Writer) := do
  if w.outActive then
    return (true, w)
  let (ready, w) ← w.checkHwmWithPeerSnapshot
  if ready then
    return (true, w.clearHwmCreditWait)
  return (false, w)

def checkPublishRecordHwm : Access (Admission × Writer) := do
  if w.state ≠ .active then
    return (.inactive, w)
  if w.transportPairWriteHeld then
    return (.transportWait, w)
  if w.remoteFlowBlocked then
    return (.transportWait, { w with waitingForFlowResume := true })
  let (ready, w) ← w.recoverPublishCredit
  if !ready then
    return (.hwmFull, w)
  let (ready, w) ← w.hwmCreditReady
  if ready then
    return (.ready, w)
  return (.hwmFull, w)

def admitOwnerMessageStart : Access (Admission × Writer) := do
  let (admission, w) ← w.admitWrite
  if admission ≠ .ready then
    return (admission, w)
  return (.ready,
    { w with outOwnerMessageStarted := true, outOwnerMessageStartPending := true })

def admitOwnerStartedWrite : Access (Admission × Writer) := do
  let reuse := w.outOwnerMessageStartPending
  let w := { w with outOwnerMessageStartPending := false }
  if !reuse then
    w.admitWrite
  else if w.state ≠ .active then
    return (.inactive, w)
  else if w.transportPairWriteHeld then
    return (.transportWait, w)
  else
    return (.ready, w)

def canCommitBytes (messageBytes payloadBytes : ℕ)
    (allowEmptyPipeException : Bool) (maxMessageBytes : ℕ) : Bool :=
  if maxMessageBytes ≠ 0 ∧ maxMessageBytes < payloadBytes then false
  else if w.hwm = 0 then true
  else if allowEmptyPipeException ∧ w.inFlight = 0 then true
  else if uint64Max - w.inFlight < messageBytes then false
  else decide (w.inFlight + messageBytes ≤ w.hwm)

def canCommitBytesWithPeerSnapshot (messageBytes payloadBytes : ℕ)
    (allowEmptyPipeException : Bool) (maxMessageBytes : ℕ) :
    Access (Bool × Writer) := do
  if w.canCommitBytes messageBytes payloadBytes allowEmptyPipeException maxMessageBytes then
    return (true, w)
  let w := w.refreshPeerCreditSnapshot (← w.poll)
  return (w.canCommitBytes messageBytes payloadBytes allowEmptyPipeException maxMessageBytes, w)

/-- The credit for a commit, as `write_message_unlocked` and the single-message
path ask for it: a writer with bytes in flight announces that it waits and looks
again. -/
def awaitCommitCredit (messageBytes payloadBytes : ℕ)
    (allowEmptyPipeException : Bool) (maxMessageBytes : ℕ) :
    Access (Bool × Writer) := do
  let (ready, w) ← w.canCommitBytesWithPeerSnapshot messageBytes payloadBytes
    allowEmptyPipeException maxMessageBytes
  if ready then
    return (true, w)
  if w.bytesWritten ≤ w.peersBytesRead then
    return (false, w)
  let (ready, w) ← w.armHwmCreditWait.canCommitBytesWithPeerSnapshot messageBytes
    payloadBytes allowEmptyPipeException maxMessageBytes
  if ready then
    return (true, w.clearHwmCreditWait)
  return (false, w)

variable (m : Frame)

/-- The frame is too large to be counted with the record in progress. -/
def appendOverflows : Bool :=
  decide (m.accountedBytes = uint64Max) ||
    decide (uint64Max - w.outIncompleteBytes < m.accountedBytes)

/-- A conflating queue reports the frames of unread records that the new record
replaces, and they leave the ledger. -/
def publishOutboundFrame (replaced : List Frame) :
    Writer :=
  if !w.conflate || m.more then
    { w with outPipe := w.outPipe.write m m.more }
  else
    { w with
      outPipe := w.outPipe.write m m.more
      msgsWritten := w.msgsWritten - replaced.countP Frame.countedPending
      bytesWritten :=
        w.bytesWritten - (replaced.map Frame.committedAccountedBytes).sum }

/-- Enter the record that `m` completes in the ledger. -/
def commitRecord : Writer :=
  { w with
    msgsWritten :=
      if m.isRoutingId || m.isCredential then w.msgsWritten
      else w.msgsWritten + 1
    bytesWritten := satAdd w.bytesWritten w.outIncompleteBytes
    outCompleteRecordPending := true
    outIncompleteBytes := 0
    outIncompletePayloadBytes := 0
    outMultipartStartedEmpty := false }

/-- The end of `write_message_unlocked`, once the frame is admitted. -/
def settleFrame (replaced : List Frame) : Writer :=
  let w := w.publishOutboundFrame m replaced
  if m.commits then
    { w.commitRecord m with
      outOwnerMessageStarted := false
      outOwnerMessageStartPending := false }
  else w

def startMultipart (first : Bool) : Access Writer := do
  if !first then
    return w
  let w := w.refreshPeerCreditSnapshot (← w.poll)
  return { w with
    outMultipartStartedEmpty := decide (w.bytesWritten ≤ w.peersBytesRead) }

def writeMessage (enforceHwm enforceIncrementalHwm : Bool)
    (maxMessageBytes : ℕ) (replaced : List Frame) :
    Access (Admission × Writer) := do
  if w.appendOverflows m then
    return (.tooLarge, w)
  if uint64Max - w.outIncompletePayloadBytes < m.size then
    return (.tooLarge, w)
  if maxMessageBytes ≠ 0 ∧ maxMessageBytes < w.outIncompletePayloadBytes + m.size then
    return (.tooLarge, w)
  let grown :=
    { w with
      outIncompleteBytes := w.outIncompleteBytes + m.accountedBytes
      outIncompletePayloadBytes := w.outIncompletePayloadBytes + m.size }
  let started ← grown.startMultipart (m.more && w.outIncompleteBytes == 0)
  if !(m.commits || enforceIncrementalHwm) || !enforceHwm then
    return (.ready, started.settleFrame m replaced)
  let (ready, v) ← started.awaitCommitCredit started.outIncompleteBytes
    started.outIncompletePayloadBytes
    (!m.more && (w.outIncompleteBytes == 0 || started.outMultipartStartedEmpty))
    maxMessageBytes
  if ready then
    return (.ready, v.settleFrame m replaced)
  return (.hwmFull,
    { v with
      outIncompleteBytes := w.outIncompleteBytes
      outIncompletePayloadBytes := w.outIncompletePayloadBytes
      outMultipartStartedEmpty := w.outMultipartStartedEmpty })

def flush (w : Writer) : Writer :=
  if w.state = .termAckSent then w
  else { w with outCompleteRecordPending := false, outPipe := w.outPipe.flush }

/-- `write_message_unlocked` with enforcement, then a flush behind a last part. -/
def writeMessageAndFlush (enforceIncrementalHwm : Bool)
    (replaced : List Frame) : Access (Admission × Writer) := do
  let (admission, w) ← w.writeMessage m true enforceIncrementalHwm w.maxMessageBytes replaced
  if admission = .ready ∧ m.more = false then
    return (admission, w.flush)
  return (admission, w)

def write (replaced : List Frame) : Access (Admission × Writer) := do
  let (admission, w) ← w.admitWrite
  if admission ≠ .ready then
    return (admission, w)
  w.writeMessage m true true w.maxMessageBytes replaced

def writeAndFlush (replaced : List Frame) : Access (Admission × Writer) := do
  let (admission, w) ← w.admitWrite
  if admission ≠ .ready then
    return (admission, w)
  w.writeMessageAndFlush m true replaced

def writeOwnerStartedMessage (replaced : List Frame) : Access (Admission × Writer) := do
  let (admission, w) ← w.admitOwnerStartedWrite
  if admission ≠ .ready then
    return (admission, w)
  w.writeMessageAndFlush m true replaced

/-- `write_message_observed`, once its observer has agreed. -/
def writeMessageObserved (replaced : List Frame) : Access (Admission × Writer) := do
  let (admission, w) ← w.admitWrite
  if admission ≠ .ready then
    return (admission, w)
  w.writeMessageAndFlush m m.more replaced

def writeNoRecursiveHwmCheck (replaced : List Frame) : Access (Admission × Writer) := do
  let (admission, w) ← w.admitWrite
  if admission ≠ .ready then
    return (admission, w)
  w.writeMessage m true false w.maxMessageBytes replaced

/-- The state in which the single-message and complete-record paths bypass the
record in progress. -/
def atRecordBoundary : Bool :=
  !w.registryAccounting && !w.conflate && w.outIncompleteBytes == 0 &&
    w.outIncompletePayloadBytes == 0 && !w.outMultipartStartedEmpty &&
    !w.outOwnerMessageStarted && !w.outOwnerMessageStartPending

def commitSingle : Writer :=
  { w with
    outPipe := w.outPipe.write m false
    msgsWritten :=
      if m.isRoutingId || m.isCredential then w.msgsWritten
      else w.msgsWritten + 1
    bytesWritten := satAdd w.bytesWritten m.accountedBytes
    outCompleteRecordPending := true }

def writeSingleMessageAndFlush (replaced : List Frame) : Access (Admission × Writer) := do
  let (admission, w) := w.writeStateAdmission
  if admission ≠ .ready then
    return (admission, w)
  if w.atRecordBoundary ∧ m.commits then
    if m.accountedBytes = uint64Max ∨ (w.maxMessageBytes ≠ 0 ∧ w.maxMessageBytes < m.size) then
      return (.tooLarge, w)
    let (ready, w) ← w.awaitCommitCredit m.accountedBytes m.size true w.maxMessageBytes
    if ready then
      return (.ready, (w.commitSingle m).flush)
    return (.hwmFull, w)
  let (ready, w) ← w.hwmCreditReady
  if !ready then
    return (.hwmFull, w)
  let (admission, w) ← w.writeMessage m true false w.maxMessageBytes replaced
  if admission = .ready then
    return (.ready, w.flush)
  return (admission, w)

def recordWellFormed : List Frame → Bool
  | [] => false
  | [m] => !m.more && !m.isDelimiter && !m.isRoutingId && !m.isCredential
  | m :: ms =>
    m.more && !m.isDelimiter && !m.isRoutingId && !m.isCredential && recordWellFormed ms

def recordBytes : List Frame → ℕ → ℕ → Option (ℕ × ℕ)
  | [], bytes, payload => some (bytes, payload)
  | m :: ms, bytes, payload =>
    if m.accountedBytes = uint64Max ∨ uint64Max - bytes < m.accountedBytes ∨
        uint64Max - payload < m.size then none
    else recordBytes ms (bytes + m.accountedBytes) (payload + m.size)

def writeParts (w : Writer) (maxMessageBytes : ℕ) : List Frame → Access Writer
  | [] => return w
  | m :: ms => do
      let (_, w) ← w.writeMessage m false false maxMessageBytes []
      w.writeParts maxMessageBytes ms

def tryWriteCompleteRecordAndFlush (parts : List Frame) : Access (Bool × Writer) := do
  if parts.length < 2 then
    return (false, w)
  let (admission, w) := w.writeStateAdmission
  if admission ≠ .ready ∨ w.atRecordBoundary = false ∨ recordWellFormed parts = false then
    return (false, w)
  match recordBytes parts 0 0 with
  | none => return (false, w)
  | some (bytes, payload) =>
    if w.maxMessageBytes ≠ 0 ∧ w.maxMessageBytes < payload then
      return (false, w)
    let (ready, w) ← w.canCommitBytesWithPeerSnapshot bytes payload false w.maxMessageBytes
    if !ready then
      return (false, w)
    let w ← w.writeParts w.maxMessageBytes parts
    return (true, w.flush)

def rollback : Writer :=
  { w with
    outPipe := w.outPipe.unwriteAll
    outIncompleteBytes := 0
    outIncompletePayloadBytes := 0
    outMultipartStartedEmpty := false
    decoderMultipartStartedEmpty := false
    outOwnerMessageStarted := false
    outOwnerMessageStartPending := false }

def hasByteCredit (candidateBytes : ℕ) : Bool :=
  decide (candidateBytes ≠ uint64Max) && decide (w.inFlight ≤ w.hwm) &&
    decide (candidateBytes ≤ w.hwm - w.inFlight)

def grantReservation (payloadBytes : ℕ) (msgFlags : UInt8)
    (trackMultipart multipartStartedEmpty : Bool) : Bool × Writer :=
  if w.reservation.isSome then (false, w)
  else if w.registryAccounting ∧
      (uint64Max - payloadBytes < Frame.metadataBytes ∨ w.queueLive = false) then
    (false, w)
  else
    (true,
      { w with
        reservation := some
          { generation :=
              if w.registryAccounting then w.queueGeneration else w.outGeneration
            frameBytes := satAdd payloadBytes Frame.metadataBytes
            payloadBytes
            msgFlags
            multipartStartedEmpty }
        decoderMultipartStartedEmpty :=
          if trackMultipart && hasAny msgFlags Msg.more then multipartStartedEmpty
          else w.decoderMultipartStartedEmpty
        outActive := true
        waitingForByteCredit := w.outActive && w.waitingForByteCredit })

def reserveInboundDecoderFrame (payloadBytes : ℕ) (msgFlags : UInt8)
    (trackMultipart : Bool) : Access (Bool × Writer) := do
  if w.state ≠ .active then
    return (false, w)
  let more := hasAny msgFlags Msg.more
  let candidateBytes :=
    satAdd w.outIncompleteBytes (satAdd payloadBytes Frame.metadataBytes)
  let startedEmpty := trackMultipart && (w.decoderMultipartStartedEmpty ||
      (w.outIncompleteBytes == 0 && decide (w.bytesWritten ≤ w.peersBytesRead)))
  if w.hwm = 0 ∨ (!more && startedEmpty) ∨ w.hasByteCredit candidateBytes then
    return w.grantReservation payloadBytes msgFlags trackMultipart startedEmpty
  let w := w.refreshPeerCreditSnapshot (← w.poll)
  let startedEmpty := startedEmpty ||
    (trackMultipart && w.outIncompleteBytes == 0 && decide (w.bytesWritten ≤ w.peersBytesRead))
  if (!more && startedEmpty) ∨ w.hasByteCredit candidateBytes then
    return w.grantReservation payloadBytes msgFlags trackMultipart startedEmpty
  let armed := w.armHwmCreditWait
  let w := armed.refreshPeerCreditSnapshot (← armed.poll)
  if w.hasByteCredit candidateBytes then
    return w.clearHwmCreditWait.grantReservation payloadBytes msgFlags trackMultipart startedEmpty
  return (false, w)

/-- The ledger's part of `write_reserved_decoder_frame`: the reserved frame joins
the record in progress and a last part commits it, with no look at the
high-water mark. -/
def settleReserved (frameBytes payloadBytes : ℕ) (replaced : List Frame) : Writer :=
  let grown :=
    { w with
      outIncompleteBytes := w.outIncompleteBytes + frameBytes
      outIncompletePayloadBytes := w.outIncompletePayloadBytes + payloadBytes }
  let v := grown.publishOutboundFrame m replaced
  if m.commits then
    { v.commitRecord m with decoderMultipartStartedEmpty := false }
  else v

def writeReservedDecoderFrame (replaced : List Frame) : Bool × Writer :=
  match w.reservation with
  | none => (false, w)
  | some reserved =>
    let w := { w with reservation := none }
    if w.state ≠ .active then (false, w)
    else if reserved.payloadBytes ≠ m.size ∨ reserved.msgFlags ≠ m.flags then
      (false, w)
    else if w.registryAccounting ∧
        (w.queueLive = false ∨ w.queueGeneration ≠ reserved.generation) then
      (false, w)
    else if uint64Max - w.outIncompletePayloadBytes < m.size then (false, w)
    else if w.registryAccounting then
      if w.appendOverflows m then (false, w)
      else (true, w.settleReserved m m.accountedBytes m.size replaced)
    else if reserved.frameBytes = uint64Max ∨
        uint64Max - w.outIncompleteBytes < reserved.frameBytes then (false, w)
    else (true, w.settleReserved m reserved.frameBytes m.size replaced)

def releaseDecoderFrameReservation : Writer :=
  { w with reservation := none }

def processActivateWrite (generation : ℕ) (credit : Ledger) : Writer :=
  if generation = w.outGeneration then
    let w := { w with peersMsgsRead := credit.msgs, peersBytesRead := credit.bytes }
    if !w.transportPairWriteHeld && decide (w.state = .active) && w.checkHwm then
      { w with outActive := true }
    else w
  else w

def processHiccup (generation : ℕ) : Writer :=
  { w with
    outPipe := .empty
    outIncompleteBytes := 0
    outIncompletePayloadBytes := 0
    outMultipartStartedEmpty := false
    outOwnerMessageStarted := false
    outOwnerMessageStartPending := false
    decoderMultipartStartedEmpty := false
    outActive := !w.transportPairWriteHeld
    outGeneration := generation
    queueGeneration := generation
    outCompleteRecordPending := false
    msgsWritten := 0
    bytesWritten := 0
    peersMsgsRead := 0
    peersBytesRead := 0
    waitingForByteCredit := false }

/-- `transition_to_inactive_state_unlocked`; no transition leads back to `active`. -/
def transitionToInactiveState (state : LifecycleState) : Writer :=
  if state = .active then w else { w with state }

def delimitOutbound : Writer :=
  let w := { w with outActive := false }.rollback
  { w with outPipe := w.outPipe.write .delimiter false }.flush

/-- `terminate`, as far as it concerns the outbound queue. -/
def terminate (delay : Bool) : Writer :=
  match w.state with
  | .termReqSent1 | .termReqSent2 | .termAckSent => w
  | .active | .delimiterReceived =>
    (w.transitionToInactiveState .termReqSent1).delimitOutbound
  | .waitingForDelimiter =>
    if delay then w.delimitOutbound
    else { w with outActive := false }.rollback.transitionToInactiveState .termAckSent

def takeHwmCreditRecovery : Writer :=
  if w.waitingForByteCredit && w.outActive then
    { w with waitingForByteCredit := false }
  else w

def holdWritesUntilTransportPairReady : Writer :=
  { w with transportPairWriteHeld := true, outActive := false }

def releaseWritesForTransportPair : Access Writer := do
  if !w.transportPairWriteHeld then
    return w
  let w := { w with transportPairWriteHeld := false }
  if w.state ≠ .active then
    return w
  let (ready, w) ← w.hwmCreditReady
  if ready then
    return { w with outActive := true }
  return w

def applyRemoteFlowState (paused : Bool) (epoch : ℕ) : Access Writer := do
  if epoch = 0 ∨ epoch ≤ w.remoteFlowEpoch then
    return w
  let w := { w with remoteFlowEpoch := epoch }
  if w.remoteFlowPaused = paused then
    return w
  let w := { w with remoteFlowPaused := paused }
  if paused ∨ w.state ≠ .active ∨ w.transportPairWriteHeld ∨ !w.outActive then
    return w.writeStateAdmission.2
  let (ready, w) ← w.armHwmCreditWait.checkHwmWithPeerSnapshot
  if ready then
    return { w with outActive := true }.writeStateAdmission.2
  return w.writeStateAdmission.2

/-- `refresh_write_credit`: the credit is raised, never lowered. -/
def refreshWriteCredit (credit : Ledger) : Writer :=
  let w := w.refreshPeerCreditSnapshot credit
  if !w.transportPairWriteHeld && decide (w.state = .active) && w.checkHwm && !w.outActive then
    w.clearHwmCreditWait
  else w

end Writer

end Zlink.Pipe
