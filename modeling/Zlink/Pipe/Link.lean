import Zlink.Pipe.Writer

/-!
# One direction of a pipe: writer, reader and the commands between them

The reading end counts what it has taken and decides when credit is due. `Link`
puts the two ends together with the commands on their way to the writer. A step is
one load of a shared word with everything up to the next load, so that the runs of
a link are the interleavings of the two threads.

Credits may be delivered in any order: a reader on the thread of the writer hands
its credit over directly, past the commands that are still queued.
-/

namespace Zlink.Pipe

open Protocol Suspension

/-- The words of the writing end that the reader loads: whether the writer waits
for credit, as one or zero, and how many frames are published behind the one just
taken. -/
inductive Glance where
  | waiting
  | head

structure Reader where
  inGeneration : ℕ
  msgsRead : ℕ
  bytesRead : ℕ
  inIncompleteBytes : ℕ
  lastCreditBytesRead : ℕ
  published : Ledger
  lwm : ℕ
  plannedInHwm : ℕ
  lwmHint : ℕ
  taken : ℕ
  prefetched : ℕ

/-- A computation of the reading end, stopped at its loads. -/
abbrev Look (β : Type) : Type := Prog Reader Glance ℕ β

def computeLwm (hwm : ℕ) : ℕ :=
  hwm / 2 + hwm % 2

def applyLwmHint (hwm lwm lwmHint : ℕ) : ℕ :=
  if hwm = 0 ∨ lwmHint = 0 then lwm
  else
    let hinted := if hwm ≤ lwmHint then hwm - 1 else lwmHint
    min lwm (if hinted = 0 then 1 else hinted)

namespace Reader

variable (r : Reader)

def plannedLwm : ℕ :=
  if r.plannedInHwm = 0 then 1
  else applyLwmHint r.plannedInHwm (computeLwm r.plannedInHwm) r.lwmHint

def creditDelta : ℕ :=
  r.bytesRead - r.lastCreditBytesRead

def lwmReached : Bool :=
  decide (0 < r.lwm) && decide (r.lwm ≤ r.creditDelta)

def countFrame (m : Frame) : Reader :=
  let grown := satAdd r.inIncompleteBytes m.accountedBytes
  if m.more then { r with inIncompleteBytes := grown }
  else
    let msgsRead :=
      if m.isRoutingId || m.isCredential then r.msgsRead
      else r.msgsRead + 1
    let bytesRead := satAdd r.bytesRead grown
    { r with
      inIncompleteBytes := 0
      msgsRead
      bytesRead
      published := { msgs := msgsRead, bytes := bytesRead } }

def credit : Ledger :=
  { msgs := r.msgsRead, bytes := r.bytesRead }

def writerWaiting (exhausted : Bool) : Look Bool := do
  let first ← Prog.load r .waiting
  if first ≠ 0 then
    return true
  if r.lwmReached || exhausted then
    return decide ((← Prog.load r .waiting) ≠ 0)
  return false

/-- Whether nothing is published behind a batch that is used up; what is published
is prefetched. -/
def drained (wanted : Bool) : Look (Bool × Reader) := do
  if !wanted then
    return (false, r)
  let n ← Prog.load r .head
  if n = 0 then
    return (true, r)
  return (false, { r with prefetched := n })

def decideCredit (exhausted : Bool) : Look (Reader × Option Ledger) := do
  if r.creditDelta = 0 then
    return (r, none)
  let waiting ← r.writerWaiting exhausted
  let waiterLwmReached := decide (r.plannedLwm ≤ r.creditDelta)
  let (drained, r) ← r.drained (waiting && !waiterLwmReached && exhausted)
  if r.lwmReached || (waiting && waiterLwmReached) || drained then
    return ({ r with lastCreditBytesRead := r.bytesRead },
      if waiting then some r.credit else none)
  return (r, none)

def accountInboundFrame (m : Frame) (exhausted : Bool) : Look (Reader × Option Ledger) :=
  let r := r.countFrame m
  if m.more then pure (r, none) else r.decideCredit exhausted

/-- The reading end starts a new generation with a new queue. -/
def hiccup (r : Reader) : Reader :=
  { r with
    inGeneration := r.inGeneration + 1
    msgsRead := 0
    bytesRead := 0
    inIncompleteBytes := 0
    lastCreditBytesRead := 0
    published := .zero
    taken := 0
    prefetched := 0 }

/-- `set_hwms` on the reading end installs the planned mark. -/
def applyPlan (r : Reader) : Reader :=
  { r with lwm := applyLwmHint r.plannedInHwm (computeLwm r.plannedInHwm) r.lwmHint }

end Reader

inductive Entry where
  | perFrame
  | flushed
  | ownerStarted
  | observed
  | noRecursiveHwmCheck
  | single

/-- What the thread of the writing end does: what its socket asks for, what the
decoder of its session asks for, and the changes of its settings. The frames that
are offered are messages; only termination makes a delimiter. A write that no mark
holds back is an act of the sender, not a step of the link. -/
inductive Op where
  | checkWrite
  | checkPublishRecordHwm
  | admitOwnerMessageStart
  | write (entry : Entry) (m : Msg) (replaced : List Frame)
  | completeRecord (parts : List Frame)
  | flush
  | rollback
  | reserve (payloadBytes : ℕ) (msgFlags : UInt8) (recvRoutingId : Bool)
  | push (m : Msg) (recvRoutingId : Bool) (replaced : List Frame)
  | engineError
  | setHwm (hwm : ℕ)
  | setMaxMessageBytes (maxMessageBytes : ℕ)
  | holdWrites
  | releaseWrites
  | flowState (paused : Bool) (epoch : ℕ)
  | takeHwmCreditRecovery
  | refreshWriteCredit
  | terminate (delay : Bool)
  | retire (state : LifecycleState)

namespace Writer

variable (w : Writer)

def writeVia (entry : Entry) (m : Frame) (replaced : List Frame) : Access (Admission × Writer) :=
  match entry with
  | .perFrame => w.write m replaced
  | .flushed => w.writeAndFlush m replaced
  | .ownerStarted => w.writeOwnerStartedMessage m replaced
  | .observed => w.writeMessageObserved m replaced
  | .noRecursiveHwmCheck => w.writeNoRecursiveHwmCheck m replaced
  | .single => w.writeSingleMessageAndFlush m replaced

/-- `session_base_t::reserve_decoder_frame`. -/
def reserveDecoderFrame (payloadBytes : ℕ) (msgFlags : UInt8)
    (recvRoutingId : Bool) : Access (Bool × Writer) :=
  w.reserveInboundDecoderFrame payloadBytes msgFlags
    (!hasAny msgFlags Msg.routingId || recvRoutingId)

/-- The engine lost its connection: the decoder lets go of its reservation and the
session takes back what is half done. -/
def engineError : Writer :=
  w.releaseDecoderFrameReservation.rollback

/-- `decode_and_push`: an identity that nobody asked for is dropped with its
reservation; a frame that cannot be written ends the connection. -/
def pushDecoded (m : Frame) (recvRoutingId : Bool) (replaced : List Frame) : Bool × Writer :=
  if m.isRoutingId && !recvRoutingId then
    (false, w.releaseDecoderFrameReservation)
  else
    match w.writeReservedDecoderFrame m replaced with
    | (true, w) => (true, w)
    | (false, w) => (false, w.engineError)

end Writer

namespace Op

def program (op : Op) (w : Writer) : Access (Bool × Writer) :=
  match op with
  | checkWrite => do
      let (admission, w) ← w.admitWrite
      return (decide (admission = .ready), w)
  | checkPublishRecordHwm => do
      let (admission, w) ← w.checkPublishRecordHwm
      return (decide (admission = .ready), w)
  | admitOwnerMessageStart => do
      let (admission, w) ← w.admitOwnerMessageStart
      return (decide (admission = .ready), w)
  | write entry m replaced => do
      let (admission, w) ← w.writeVia entry (.data m) replaced
      return (decide (admission = .ready), w)
  | completeRecord parts => w.tryWriteCompleteRecordAndFlush parts
  | flush => pure (true, w.flush)
  | rollback => pure (true, w.rollback)
  | reserve payloadBytes msgFlags recvRoutingId =>
    w.reserveDecoderFrame payloadBytes msgFlags recvRoutingId
  | push m recvRoutingId replaced =>
    pure (w.pushDecoded (.data m) recvRoutingId replaced)
  | engineError => pure (true, w.engineError)
  | setHwm hwm => pure (true, { w with hwm })
  | setMaxMessageBytes maxMessageBytes => pure (true, { w with maxMessageBytes })
  | holdWrites => pure (true, w.holdWritesUntilTransportPairReady)
  | releaseWrites => do
      let w ← w.releaseWritesForTransportPair
      return (true, w)
  | flowState paused epoch => do
      let w ← w.applyRemoteFlowState paused epoch
      return (true, w)
  | takeHwmCreditRecovery => pure (true, w.takeHwmCreditRecovery)
  | refreshWriteCredit => do
      return (true, w.refreshWriteCredit (← w.poll))
  | terminate delay => pure (true, w.terminate delay)
  | retire state => pure (true, w.transitionToInactiveState state)

end Op

/-- A last part of so many accounted bytes. -/
def parcel (bytes : ℕ) : Msg :=
  { flags := 0
    data := List.replicate (bytes - Frame.metadataBytes) 0
    requestReply := none }

/-- The thread of the writing end: between operations, or inside one that it began
in the state `before`, stopped at a load with the state `w` published. -/
inductive WriterThread where
  | idle (w : Writer)
  | busy (op : Op) (before w : Writer) (k : Ledger → Access (Bool × Writer))

inductive ReaderThread where
  | idle (r : Reader)
  | busy (r : Reader) (q : Glance) (k : ℕ → Look (Reader × Option Ledger))

/-- An `activate_write` command: the generation it counts in and the ledger. -/
structure Credit where
  generation : ℕ
  ledger : Ledger

structure Link where
  writer : WriterThread
  reader : ReaderThread
  credits : List Credit
  hiccups : List ℕ

inductive Event where
  | start (op : Op)
  | resume
  | read (skipped : ℕ)
  | look
  | deliver (i : ℕ)
  | deliverHiccup
  | hiccup
  | correlationReleased
  | plan (hwm lwmHint : ℕ)
  | applyPlan

namespace WriterThread

def seen : WriterThread → Writer
  | idle w => w
  | busy _ _ w _ => w

def settle (op : Op) (before : Writer) : Access (Bool × Writer) → WriterThread
  | .done (_, w) => idle w
  | .ask w _ k => busy op before w k

end WriterThread

namespace ReaderThread

def seen : ReaderThread → Reader
  | idle r => r
  | busy r _ _ => r

end ReaderThread

namespace Link

def unread (w : Writer) (r : Reader) : List Frame :=
  if r.inGeneration = w.outGeneration then w.outPipe.flushed.drop r.taken else []

def answer (w : Writer) (r : Reader) : Glance → ℕ
  | .waiting => if w.waitingForByteCredit then 1 else 0
  | .head => (unread w r).length

def readerTurn (l : Link) : Look (Reader × Option Ledger) → Link
  | .done (r, none) => { l with reader := .idle r }
  | .done (r, some ledger) =>
    { l with
      reader := .idle r
      credits := l.credits ++ [{ generation := r.inGeneration, ledger }] }
  | .ask r q k => { l with reader := .busy r q k }

/-- Take the next frame: the queue hands out what it had prefetched and tells when
that is used up. A conflating queue passes over the records it has replaced. -/
def take (w : Writer) (r : Reader) (skipped : ℕ) : Option (Frame × Bool × Reader) :=
  match (unread w r).drop skipped with
  | [] => none
  | m :: _ =>
    let prefetched :=
      if r.prefetched = 0 then (unread w r).length else r.prefetched
    some (m, decide (prefetched ≤ skipped + 1),
      { r with
        taken := r.taken + skipped + 1
        prefetched := prefetched - (skipped + 1) })

def step (l : Link) : Event → Option Link
  | .start op =>
    match l.writer with
    | .idle w => some { l with writer := .settle op w (op.program w) }
    | .busy .. => none
  | .resume =>
    match l.writer with
    | .busy op before _ k =>
      some { l with
        writer := .settle op before (k l.reader.seen.published) }
    | .idle _ => none
  | .read skipped =>
    match l.reader with
    | .idle r =>
      if skipped ≠ 0 ∧ l.writer.seen.conflate = false then none
      else
        match take l.writer.seen r skipped with
        | none => none
        | some (m, exhausted, r) =>
          if m.isDelimiter then some { l with reader := .idle r }
          else some (l.readerTurn (r.accountInboundFrame m exhausted))
    | .busy .. => none
  | .look =>
    match l.reader with
    | .busy r q k => some (l.readerTurn (k (answer l.writer.seen r q)))
    | .idle _ => none
  | .deliver i =>
    match l.writer, l.credits[i]? with
    | .idle w, some c =>
      some { l with
        writer := .idle (w.processActivateWrite c.generation c.ledger)
        credits := l.credits.eraseIdx i }
    | _, _ => none
  | .deliverHiccup =>
    match l.writer, l.hiccups with
    | .idle w, generation :: hiccups =>
      some { l with writer := .idle (w.processHiccup generation), hiccups }
    | _, _ => none
  | .hiccup =>
    match l.reader with
    | .idle r =>
      some { l with
        reader := .idle r.hiccup
        hiccups := l.hiccups ++ [r.hiccup.inGeneration] }
    | .busy .. => none
  | .correlationReleased =>
    match l.writer with
    | .idle w =>
      some { l with
        credits := l.credits ++ [{ generation := w.outGeneration, ledger := w.credit }] }
    | .busy .. => none
  | .plan hwm lwmHint =>
    match l.reader with
    | .idle r =>
      some { l with reader := .idle { r with plannedInHwm := hwm, lwmHint } }
    | .busy .. => none
  | .applyPlan =>
    match l.reader with
    | .idle r => some { l with reader := .idle r.applyPlan }
    | .busy .. => none

inductive Steps (l : Link) : Event → Link → Prop where
  | start {op : Op} {w : Writer} (hw : l.writer = .idle w) :
      Steps l (.start op) { l with writer := .settle op w (op.program w) }
  | resume {op : Op} {before w : Writer} {k : Ledger → Access (Bool × Writer)}
      (hw : l.writer = .busy op before w k) :
      Steps l .resume
        { l with writer := .settle op before (k l.reader.seen.published) }
  | readDelimiter {r r' : Reader} {skipped : ℕ} {m : Frame} {exhausted : Bool}
      (hr : l.reader = .idle r)
      (hskip : skipped = 0 ∨ l.writer.seen.conflate = true)
      (ht : take l.writer.seen r skipped = some (m, exhausted, r'))
      (hm : m.isDelimiter = true) :
      Steps l (.read skipped) { l with reader := .idle r' }
  | read {r r' : Reader} {skipped : ℕ} {m : Frame} {exhausted : Bool} (hr : l.reader = .idle r)
      (hskip : skipped = 0 ∨ l.writer.seen.conflate = true)
      (ht : take l.writer.seen r skipped = some (m, exhausted, r'))
      (hm : m.isDelimiter = false) :
      Steps l (.read skipped) (l.readerTurn (r'.accountInboundFrame m exhausted))
  | look {r : Reader} {q : Glance} {k : ℕ → Look (Reader × Option Ledger)}
      (hr : l.reader = .busy r q k) :
      Steps l .look (l.readerTurn (k (answer l.writer.seen r q)))
  | deliver {w : Writer} {i : ℕ} {c : Credit} (hw : l.writer = .idle w)
      (hc : l.credits[i]? = some c) :
      Steps l (.deliver i)
        { l with
          writer := .idle (w.processActivateWrite c.generation c.ledger)
          credits := l.credits.eraseIdx i }
  | deliverHiccup {w : Writer} {generation : ℕ} {hiccups : List ℕ}
      (hw : l.writer = .idle w) (hh : l.hiccups = generation :: hiccups) :
      Steps l .deliverHiccup
        { l with writer := .idle (w.processHiccup generation), hiccups }
  | hiccup {r : Reader} (hr : l.reader = .idle r) : Steps l .hiccup
        { l with
          reader := .idle r.hiccup
          hiccups := l.hiccups ++ [r.hiccup.inGeneration] }
  | correlationReleased {w : Writer} (hw : l.writer = .idle w) : Steps l .correlationReleased
        { l with
          credits := l.credits ++ [{ generation := w.outGeneration, ledger := w.credit }] }
  | plan {r : Reader} {hwm lwmHint : ℕ} (hr : l.reader = .idle r) : Steps l (.plan hwm lwmHint)
        { l with reader := .idle { r with plannedInHwm := hwm, lwmHint } }
  | applyPlan {r : Reader} (hr : l.reader = .idle r) :
      Steps l .applyPlan { l with reader := .idle r.applyPlan }

theorem steps_of_step {l l' : Link} {e : Event} (h : l.step e = some l') : Steps l e l' := by
  cases e with
  | start op =>
    rw [step] at h
    split at h
    case h_1 hw => exact Option.some.inj h ▸ .start hw
    case h_2 => simp at h
  | resume =>
    rw [step] at h
    split at h
    case h_1 hw => exact Option.some.inj h ▸ .resume hw
    case h_2 => simp at h
  | read skipped =>
    rw [step] at h
    split at h
    case h_2 => simp at h
    case h_1 r hr =>
      split at h
      case isTrue => simp at h
      case isFalse hskip =>
        have hskip' : skipped = 0 ∨ l.writer.seen.conflate = true := by
          by_contra hno
          simp only [not_or, Bool.not_eq_true] at hno
          exact hskip hno
        split at h
        case h_1 => simp at h
        case h_2 m exhausted r' ht =>
          split at h
          case isTrue hm =>
            exact Option.some.inj h ▸ .readDelimiter hr hskip' ht hm
          case isFalse hm =>
            exact Option.some.inj h ▸
              .read hr hskip' ht (by simpa using hm)
  | look =>
    rw [step] at h
    split at h
    case h_1 hr => exact Option.some.inj h ▸ .look hr
    case h_2 => simp at h
  | deliver i =>
    rw [step] at h
    split at h
    case h_1 hw hc => exact Option.some.inj h ▸ .deliver hw hc
    case h_2 => simp at h
  | deliverHiccup =>
    rw [step] at h
    split at h
    case h_1 hw hh => exact Option.some.inj h ▸ .deliverHiccup hw hh
    case h_2 => simp at h
  | hiccup =>
    rw [step] at h
    split at h
    case h_1 hr => exact Option.some.inj h ▸ .hiccup hr
    case h_2 => simp at h
  | correlationReleased =>
    rw [step] at h
    split at h
    case h_1 hw => exact Option.some.inj h ▸ .correlationReleased hw
    case h_2 => simp at h
  | plan hwm lwmHint =>
    rw [step] at h
    split at h
    case h_1 hr => exact Option.some.inj h ▸ .plan hr
    case h_2 => simp at h
  | applyPlan =>
    rw [step] at h
    split at h
    case h_1 hr => exact Option.some.inj h ▸ .applyPlan hr
    case h_2 => simp at h

@[simp] theorem readerTurn_writer (l : Link) (p : Look (Reader × Option Ledger)) :
    (l.readerTurn p).writer = l.writer := by
  match p with
  | .done (r, none) => rfl
  | .done (r, some ledger) => rfl
  | .ask r q k => rfl

def init (hwm : ℕ) (conflate registryAccounting : Bool) : Link :=
  { writer := .idle (.init hwm conflate registryAccounting)
    reader := .idle
      { inGeneration := 1
        msgsRead := 0
        bytesRead := 0
        inIncompleteBytes := 0
        lastCreditBytesRead := 0
        published := .zero
        lwm := computeLwm hwm
        plannedInHwm := hwm
        lwmHint := 0
        taken := 0
        prefetched := 0 }
    credits := []
    hiccups := [] }

end Link

end Zlink.Pipe
