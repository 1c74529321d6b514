import Zlink.Lib.Framing
import Zlink.Protocol.Wire

/-!
# The ZMP decoder

The decoder reads a base header, an optional sequence extension and a payload,
and asks its session for admission between header and payload. Its actions are
embedded as functions on `Decoder`; `Host` is what they call outside the decoder:
the two admission callbacks with the session behind them, and the allocator.

The destination of the current step is kept as the list of bytes stored so far:
header and sequence bytes go to `tmpbuf`, payload bytes to `inProgress.data`.
`zmpReader` is the decoder as a reader of `Framing`, which supplies the copy loop
and the in-place path of a call.
-/

namespace Zlink.Protocol

open Framing

inductive FrameStage where
  | readingBaseHeader
  | readingSequenceExtension
  | waitingFrameAdmission
  | readingPayload
  deriving DecidableEq

inductive Step where
  | headerReady
  | sequenceReady
  | bodyReady

/-- The answer of the admission callback: a reservation slot, possibly left
empty, or an error number. -/
inductive Admission (τ : Type) where
  | granted (reservation : Option τ)
  | refused (errno : Errno)

/-- What the decoder calls: the callbacks of its session, with the session's
state `σ` passed along, and the allocator of message storage. -/
structure Host (σ τ : Type) where
  admission : σ → UInt32 → UInt8 → Admission τ × σ
  release : σ → τ → σ
  allocate : σ → UInt32 → Bool × σ

inductive Rc where
  | more
  | frame
  | error (errno : Errno)

structure Decoder (σ τ : Type) where
  tmpbuf : List UInt8
  msgFlags : UInt8
  wireFlags : UInt8
  wireKind : UInt8
  requestSequence : UInt64
  errorCode : UInt8
  inProgress : Msg
  maxMsgSizeEffective : UInt32
  maxApplicationMessageSize : UInt64
  attached : Bool
  subject : σ
  frameReservation : Option τ
  pendingMsgSize : UInt32
  allocationBackpressured : Bool
  applicationMultipartInProgress : Bool
  nextApplicationMultipartInProgress : Bool
  applicationMultipartPayloadSize : UInt64
  nextApplicationMultipartPayloadSize : UInt64
  frameStage : FrameStage
  next : Step
  toRead : ℕ

def computeEffectiveMax (maxmsgsize : Int64) : UInt32 :=
  if 0 < maxmsgsize ∧ maxmsgsize.toUInt64 < zmpMaxBodySize then
    maxmsgsize.toUInt64.toUInt32
  else zmpMaxBodySize.toUInt32

def computeApplicationMessageMax (maxmsgsize : Int64) : UInt64 :=
  if 0 < maxmsgsize then maxmsgsize.toUInt64 else 0xffffffffffffffff

namespace Decoder

variable {σ τ : Type}

/-- A decoder as its constructor leaves it; `attached` tells whether a session
has installed its callbacks since. -/
def init (maxmsgsize : Int64) (attached : Bool) (subject : σ) : Decoder σ τ :=
  { tmpbuf := []
    msgFlags := 0
    wireFlags := 0
    wireKind := zmpKindData
    requestSequence := 0
    errorCode := 0
    inProgress := Msg.init
    maxMsgSizeEffective := computeEffectiveMax maxmsgsize
    maxApplicationMessageSize := computeApplicationMessageMax maxmsgsize
    attached := attached
    subject := subject
    frameReservation := none
    pendingMsgSize := 0
    allocationBackpressured := false
    applicationMultipartInProgress := false
    nextApplicationMultipartInProgress := false
    applicationMultipartPayloadSize := 0
    nextApplicationMultipartPayloadSize := 0
    frameStage := .readingBaseHeader
    next := .headerReady
    toRead := zmpHeaderSize }

def store (d : Decoder σ τ) (bytes : List UInt8) : Decoder σ τ :=
  match d.next with
  | .bodyReady =>
    { d with
      inProgress := { d.inProgress with data := d.inProgress.data ++ bytes }
      toRead := d.toRead - bytes.length }
  | _ =>
    { d with
      tmpbuf := d.tmpbuf ++ bytes
      toRead := d.toRead - bytes.length }

/-- The byte of `_tmpbuf` at an index. -/
def byteAt (d : Decoder σ τ) (i : ℕ) : UInt8 :=
  d.tmpbuf.getD i 0

section Host

variable (host : Host σ τ) (d : Decoder σ τ)

def releaseFrameReservation : Decoder σ τ :=
  match d.frameReservation with
  | none => d
  | some reservation =>
    { d with
      subject :=
        if d.attached then host.release d.subject reservation else d.subject
      frameReservation := none }

def failProtocol (code : UInt8) : Rc × Decoder σ τ :=
  (.error .eproto,
    { d.releaseFrameReservation host with
      inProgress := Msg.init
      allocationBackpressured := false
      pendingMsgSize := 0
      errorCode := code })

def failSize : Rc × Decoder σ τ :=
  (.error .emsgsize, { d with errorCode := zmpErrorBodyTooLarge })

def completeFrame : Decoder σ τ :=
  { d with
    applicationMultipartInProgress := d.nextApplicationMultipartInProgress
    applicationMultipartPayloadSize := d.nextApplicationMultipartPayloadSize
    frameStage := .readingBaseHeader
    tmpbuf := []
    next := .headerReady
    toRead := zmpHeaderSize }

/-- The end of `size_ready`: an empty payload completes the frame at once. -/
def startPayload (msgSize : UInt32) : Rc × Decoder σ τ :=
  if msgSize = 0 then (.frame, d.completeFrame)
  else
    (.more,
      { d with
        frameStage := .readingPayload
        next := .bodyReady
        toRead := msgSize.toNat })

def headerMsg : Option Msg :=
  if zmpIsRequestReplyKind d.wireKind then
    { Msg.init with flags := d.msgFlags }.setRequestReplyMetadata d.wireKind d.requestSequence
  else some { Msg.init with flags := d.msgFlags }

/-- The end of `size_ready`, on allocated storage. -/
def openMessage (msgSize : UInt32) : Rc × Decoder σ τ :=
  match d.headerMsg with
  | none => failProtocol host d zmpErrorInternal
  | some msg => startPayload { d with inProgress := msg } msgSize

/-- The part of `size_ready` after the admission callback. -/
def allocateMessage (msgSize : UInt32) : Rc × Decoder σ τ :=
  let d := { d with allocationBackpressured := false, pendingMsgSize := 0 }
  match host.allocate d.subject msgSize with
  | (false, subject) =>
    (.error .enomem,
      { releaseFrameReservation host { d with subject := subject } with
        inProgress := Msg.init })
  | (true, subject) => openMessage host { d with subject := subject } msgSize

def heldBack (subject : σ) (msgSize : UInt32) : Decoder σ τ :=
  { d with
    subject := subject
    frameReservation := none
    pendingMsgSize := msgSize
    allocationBackpressured := true }

/-- The part of `size_ready` that asks for admission. Commands are never held
back. -/
def requestAdmission (msgSize : UInt32) : Rc × Decoder σ τ :=
  if !hasAny d.msgFlags Msg.command && d.attached then
    match host.admission d.subject msgSize d.msgFlags with
    | (.granted reservation, subject) =>
      allocateMessage host
        { d with subject := subject, frameReservation := reservation } msgSize
    | (.refused .eagain, subject) =>
      (.error .eagain, d.heldBack subject msgSize)
    | (.refused errno, subject) =>
      (.error errno,
        { d with
          subject := subject
          frameReservation := none
          pendingMsgSize := 0
          allocationBackpressured := false
          errorCode :=
            if errno = .emsgsize then zmpErrorBodyTooLarge
            else d.errorCode })
  else allocateMessage host d msgSize

def frameLimit : UInt32 :=
  if hasAny d.msgFlags Msg.command then zmpMaxControlBodySize
  else d.maxMsgSizeEffective

/-- The running payload total after a frame of the given size, or `none` when it
would pass the limit of an application message. -/
def payloadSizeAfter (msgSize : UInt32) : Option UInt64 :=
  if zmpIsSpecialFrame d.wireFlags then some d.applicationMultipartPayloadSize
  else if 0xffffffffffffffff - d.applicationMultipartPayloadSize < msgSize.toUInt64 then none
  else
    let candidate := d.applicationMultipartPayloadSize + msgSize.toUInt64
    if d.maxApplicationMessageSize < candidate then none
    else some (if hasAny d.wireFlags zmpFlagMore then candidate else 0)

def sizeReady (msgSize : UInt32) : Rc × Decoder σ τ :=
  if d.frameLimit < msgSize then d.failSize
  else
    match d.payloadSizeAfter msgSize with
    | none =>
      failSize { d with
        nextApplicationMultipartPayloadSize :=
          d.applicationMultipartPayloadSize }
    | some next =>
      requestAdmission host
        { d with nextApplicationMultipartPayloadSize := next } msgSize

def validateHeaderAndAdmit : Rc × Decoder σ τ :=
  let specialFrame := zmpIsSpecialFrame d.wireFlags
  if zmpIsRequestReplyKind d.wireKind && specialFrame then
    failProtocol host d zmpErrorFlagsInvalid
  else if d.applicationMultipartInProgress &&
      (specialFrame || zmpIsRequestReplyKind d.wireKind) then
    failProtocol host d zmpErrorMultipartInvalid
  else
    sizeReady host
      { d with
        nextApplicationMultipartInProgress :=
          if specialFrame then d.applicationMultipartInProgress
          else hasAny d.wireFlags zmpFlagMore
        frameStage := .waitingFrameAdmission }
      (getUint32 (d.tmpbuf.drop 4))

/-- The combinations of wire flags that `header_ready` refuses. -/
def wireFlagsRefused (flags : UInt8) : Bool :=
  hasAny flags (~~~zmpFlagMask) || (hasAny flags zmpFlagControl && hasAny flags zmpFlagIdentity) ||
    (hasAny flags zmpFlagControl && hasAny flags zmpFlagMore) ||
    (hasAny flags zmpFlagSubOrCancel && (flags &&& zmpFlagSubOrCancel == zmpFlagSubOrCancel ||
        hasAny flags (~~~zmpFlagSubOrCancel)))

def msgFlagsOfWire (flags : UInt8) : UInt8 :=
  (if hasAny flags zmpFlagMore then Msg.more else 0) |||
    (if hasAny flags zmpFlagControl then Msg.command else 0) |||
    (if hasAny flags zmpFlagIdentity then Msg.routingId else 0) |||
    (if hasAny flags zmpFlagSubscribe then Msg.subscribe
      else if hasAny flags zmpFlagCancel then Msg.cancel
      else 0)

def headerReady : Rc × Decoder σ τ :=
  let d := { d with errorCode := 0 }
  if d.byteAt 0 ≠ zmpMagic then failProtocol host d zmpErrorInvalidMagic
  else if d.byteAt 1 ≠ zmpVersion then
    failProtocol host d zmpErrorVersionMismatch
  else
    let d := { d with wireKind := d.byteAt 3 }
    if d.wireKind != zmpKindData && !zmpIsRequestReplyKind d.wireKind then
      failProtocol host d zmpErrorKindInvalid
    else
      let d := { d with wireFlags := d.byteAt 2 }
      if wireFlagsRefused d.wireFlags then
        failProtocol host d zmpErrorFlagsInvalid
      else
        let d := { d with
          msgFlags := msgFlagsOfWire d.wireFlags
          requestSequence := 0 }
        if zmpIsRequestReplyKind d.wireKind then
          (.more,
            { d with
              frameStage := .readingSequenceExtension
              next := .sequenceReady
              toRead := zmpRequestSequenceSize })
        else validateHeaderAndAdmit host d

def sequenceReady : Rc × Decoder σ τ :=
  let d := { d with requestSequence := getUint64 (d.tmpbuf.drop zmpHeaderSize) }
  if d.requestSequence = 0 then failProtocol host d zmpErrorSequenceInvalid
  else validateHeaderAndAdmit host d

def bodyReady : Rc × Decoder σ τ :=
  (.frame, d.completeFrame)

def runNext : Rc × Decoder σ τ :=
  match d.next with
  | .headerReady => headerReady host d
  | .sequenceReady => sequenceReady host d
  | .bodyReady => d.bodyReady

def streamEnd : Rc × Decoder σ τ :=
  if d.frameStage = .readingBaseHeader ∧ d.toRead = zmpHeaderSize ∧
      d.applicationMultipartInProgress = false then
    (.more, d)
  else failProtocol host d zmpErrorFrameIncomplete

def retryFrameAdmission : Rc × Decoder σ τ :=
  if d.allocationBackpressured = false ∨ d.frameStage ≠ .waitingFrameAdmission then
    (.error .einval, d)
  else sizeReady host d d.pendingMsgSize

def discardFrameReservation : Decoder σ τ :=
  d.releaseFrameReservation host

def detachFrameAdmission : Decoder σ τ :=
  { d.releaseFrameReservation host with attached := false }

/-- What a failed call shows: the error number, the protocol error code and
whether the decoder waits for admission. -/
structure Failure where
  errno : Errno
  errorCode : UInt8
  backpressured : Bool

/-- The result of an action as a caller of `decode` sees it: a completed frame is
the message in progress. -/
def answer : Rc × Decoder σ τ → Answer Msg Failure × Decoder σ τ
  | (.more, d) => (.more, d)
  | (.frame, d) => (.emit d.inProgress, d)
  | (.error errno, d) =>
    (.fail ⟨errno, d.errorCode, d.allocationBackpressured⟩, d)

end Host

theorem store_nil (d : Decoder σ τ) : d.store [] = d := by
  cases d with
  | mk tmpbuf _ _ _ _ _ inProgress _ _ _ _ _ _ _ _ _ _ _ _ next _ =>
    cases next <;> simp [store]

theorem store_append (d : Decoder σ τ) (as bs : List UInt8) :
    (d.store as).store bs = d.store (as ++ bs) := by
  cases h : d.next <;>
    simp [store, h, List.append_assoc, Nat.sub_sub]

@[simp] theorem store_toRead (d : Decoder σ τ) (bs : List UInt8) :
    (d.store bs).toRead = d.toRead - bs.length := by
  cases h : d.next <;> simp [store, h]

def Progress (p : Rc × Decoder σ τ) : Prop :=
  (∃ errno, p.1 = .error errno) ∨ 0 < p.2.toRead

variable (host : Host σ τ)

@[simp] theorem failProtocol_progress (d : Decoder σ τ) (code : UInt8) :
    Progress (failProtocol host d code) := .inl ⟨_, rfl⟩

@[simp] theorem failSize_progress (d : Decoder σ τ) : Progress d.failSize := .inl ⟨_, rfl⟩

theorem completeFrame_toRead (d : Decoder σ τ) : 0 < d.completeFrame.toRead :=
  Nat.zero_lt_succ 7

theorem startPayload_progress (d : Decoder σ τ) (msgSize : UInt32) :
    Progress (d.startPayload msgSize) := by
  rw [startPayload]
  split
  case isTrue h => exact .inr d.completeFrame_toRead
  case isFalse h =>
    right
    have hne : msgSize.toNat ≠ 0 := fun h0 => h (UInt32.toNat_inj.mp h0)
    exact Nat.pos_of_ne_zero hne

theorem openMessage_progress (d : Decoder σ τ) (msgSize : UInt32) :
    Progress (openMessage host d msgSize) := by
  rw [openMessage]
  split
  · exact failProtocol_progress host _ _
  · exact startPayload_progress _ _

theorem allocateMessage_progress (d : Decoder σ τ) (msgSize : UInt32) :
    Progress (allocateMessage host d msgSize) := by
  rw [allocateMessage]
  rcases host.allocate d.subject msgSize with ⟨_ | _, subject⟩
  · exact .inl ⟨_, rfl⟩
  · exact openMessage_progress host _ _

theorem requestAdmission_progress (d : Decoder σ τ) (msgSize : UInt32) :
    Progress (requestAdmission host d msgSize) := by
  rw [requestAdmission]
  split
  case isTrue h =>
    split
    case h_1 => exact allocateMessage_progress host _ _
    case h_2 => exact .inl ⟨_, rfl⟩
    case h_3 => exact .inl ⟨_, rfl⟩
  case isFalse h => exact allocateMessage_progress host _ _

theorem sizeReady_progress (d : Decoder σ τ) (msgSize : UInt32) :
    Progress (sizeReady host d msgSize) := by
  rw [sizeReady]
  split
  · exact failSize_progress _
  split
  · exact failSize_progress _
  · exact requestAdmission_progress host _ _

theorem validateHeaderAndAdmit_progress (d : Decoder σ τ) :
    Progress (validateHeaderAndAdmit host d) := by
  simp only [validateHeaderAndAdmit]
  split
  · exact failProtocol_progress host _ _
  split
  · exact failProtocol_progress host _ _
  · exact sizeReady_progress host _ _

theorem headerReady_progress (d : Decoder σ τ) : Progress (headerReady host d) := by
  simp only [headerReady]
  split
  · exact failProtocol_progress host _ _
  split
  · exact failProtocol_progress host _ _
  split
  · exact failProtocol_progress host _ _
  split
  · exact failProtocol_progress host _ _
  split
  · exact .inr (Nat.zero_lt_succ 7)
  · exact validateHeaderAndAdmit_progress host _

theorem runNext_progress (d : Decoder σ τ) : Progress (runNext host d) := by
  rw [runNext]
  split
  · exact headerReady_progress host d
  · simp only [sequenceReady]
    split
    · exact failProtocol_progress host _ _
    · exact validateHeaderAndAdmit_progress host _
  · exact .inr d.completeFrame_toRead

end Decoder

open Decoder in
def zmpReader {σ τ : Type} (host : Host σ τ) : Reader (Decoder σ τ) UInt8 Msg Failure where
  need := Decoder.toRead
  store := Decoder.store
  act d := answer (runNext host d)
  store_nil := store_nil
  store_append := store_append
  need_store := store_toRead
  need_act d _ := by
    have h := runNext_progress host d
    rcases hr : runNext host d with ⟨_ | _ | errno, d'⟩
    · simpa [Progress, answer, hr] using h
    · simpa [Progress, answer, hr] using h
    · exact .inl ⟨_, rfl⟩

/-- A run of `decode` calls on a fresh decoder. -/
def decodeRun {σ τ : Type} (host : Host σ τ) (maxmsgsize : Int64)
    (attached : Bool) (subject : σ) (stream : List UInt8)
    (calls : List Call) : Outcome (Decoder σ τ) UInt8 Msg Decoder.Failure :=
  (zmpReader host).feed (Decoder.init maxmsgsize attached subject) stream calls

theorem init_need {σ τ : Type} (host : Host σ τ) (maxmsgsize : Int64)
    (attached : Bool) (subject : σ) :
    0 < (zmpReader host).need (Decoder.init maxmsgsize attached subject) :=
  Nat.zero_lt_succ 7

/-- Two runs of calls over the same bytes, cut in any two ways and on either path
of the calls, emit the same frames, fail at the same byte with the same error, and
leave the same verdict for the end of the stream. The host is arbitrary: its
answers may depend on everything it was asked before. -/
theorem decodeRun_chunkIndependent {σ τ : Type} (host : Host σ τ)
    (maxmsgsize : Int64) (attached : Bool) (subject : σ) (stream : List UInt8)
    (calls calls' : List Call)
    (h : (decodeRun host maxmsgsize attached subject stream calls).Complete)
    (h' : (decodeRun host maxmsgsize attached subject stream calls').Complete) :
    let o := decodeRun host maxmsgsize attached subject stream calls
    let o' := decodeRun host maxmsgsize attached subject stream calls'
    o.frames = o'.frames ∧ o.failure = o'.failure ∧ o.rest = o'.rest ∧
      (o.state.streamEnd host).1 = (o'.state.streamEnd host).1 ∧
      (o.state.streamEnd host).2.errorCode = (o'.state.streamEnd host).2.errorCode := by
  have hpos := init_need host maxmsgsize attached subject
  have heq : decodeRun host maxmsgsize attached subject stream calls =
      decodeRun host maxmsgsize attached subject stream calls' :=
    ((zmpReader host).feed_eq_whole hpos h).trans ((zmpReader host).feed_eq_whole hpos h').symm
  simp only [heq, and_self]

def plainHost : Host Unit Empty where
  admission _ _ _ := (.granted none, ())
  release _ _ := ()
  allocate _ _ := (true, ())

/-- One frame with the payload byte 7, offered whole and byte by byte. -/
theorem decodeRun_chunkIndependent_oneFrame :
    let stream : List UInt8 := [0x5a, 1, 0, 0, 0, 0, 0, 1, 7]
    let o := decodeRun plainHost 0 false () stream (List.replicate 9 ⟨9, false⟩)
    let o' := decodeRun plainHost 0 false () stream (List.replicate 9 ⟨1, true⟩)
    o.frames = o'.frames ∧ o.failure = o'.failure ∧ o.rest = o'.rest ∧
      (o.state.streamEnd plainHost).1 = (o'.state.streamEnd plainHost).1 ∧
      (o.state.streamEnd plainHost).2.errorCode = (o'.state.streamEnd plainHost).2.errorCode :=
  decodeRun_chunkIndependent plainHost 0 false () [0x5a, 1, 0, 0, 0, 0, 0, 1, 7] _ _
    ((zmpReader plainHost).feed_complete (init_need plainHost 0 false ()) (by decide) (by decide))
    ((zmpReader plainHost).feed_complete (init_need plainHost 0 false ()) (by decide) (by decide))

end Zlink.Protocol
