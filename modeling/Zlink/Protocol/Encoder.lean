import Zlink.Lib.Emission
import Zlink.Protocol.Wire

/-!
# The ZMP encoder

The encoder builds a header for each message it is given and keeps track of the
application message that is open on the wire. A frame that it refuses is consumed
without a byte. Its two actions are a machine of `Emission`, which supplies the
loop that fills the output buffers.
-/

namespace Zlink.Protocol

open Emission

def zmpRequestReplyHeaderSize : ℕ := zmpHeaderSize + zmpRequestSequenceSize

def wireFlagsOfMsg (flags : UInt8) : UInt8 :=
  (if hasAny flags Msg.more then zmpFlagMore else 0) |||
    (if hasAny flags Msg.command then zmpFlagControl else 0) |||
    (if hasAny flags Msg.routingId then zmpFlagIdentity else 0) |||
    (if flags &&& Msg.cmdTypeMask = Msg.subscribe then zmpFlagSubscribe
      else if flags &&& Msg.cmdTypeMask = Msg.cancel then zmpFlagCancel
      else 0)

def headerBytes (flags kind : UInt8) (size : UInt32) (sequence : Option UInt64) : List UInt8 :=
  [zmpMagic, zmpVersion, flags, kind] ++ putUint32 size ++
    match sequence with
    | none => []
    | some sequence => putUint64 sequence

def buildZmpDataHeader (msg : Msg) (bufferSize : ℕ) : Except Errno (List UInt8 × Bool) :=
  if 0xffffffff < msg.data.length then .error .emsgsize
  else
    match msg.requestReply with
    | none =>
      if bufferSize < zmpHeaderSize then .error .einval
      else
        .ok (headerBytes (wireFlagsOfMsg msg.flags) zmpKindData
          (UInt32.ofNat msg.data.length) none, false)
    | some (kind, sequence) =>
      if !zmpIsRequestReplyKind kind || sequence == 0 then .error .einval
      else if bufferSize < zmpRequestReplyHeaderSize then .error .einval
      else if zmpIsSpecialFrame (wireFlagsOfMsg msg.flags) then
        .error .einval
      else
        .ok (headerBytes (wireFlagsOfMsg msg.flags) kind
          (UInt32.ofNat msg.data.length) (some sequence), true)

inductive EncoderStep where
  | headerReady
  | bodyReady

structure EncoderState where
  applicationMultipartInProgress : Bool
  next : EncoderStep

namespace EncoderState

def init : EncoderState :=
  { applicationMultipartInProgress := false, next := .headerReady }

def buildHeader (e : EncoderState) (msg : Msg) (bufferSize : ℕ) :
    Except Errno (List UInt8) × EncoderState :=
  match buildZmpDataHeader msg bufferSize with
  | .error errno => (.error errno, e)
  | .ok (header, hasRequestReply) =>
    if e.applicationMultipartInProgress && (msg.isSpecial || hasRequestReply) then
      (.error .einval, e)
    else if msg.isSpecial then (.ok header, e)
    else
      (.ok header,
        { e with
          applicationMultipartInProgress := hasAny msg.flags Msg.more })

/-- A refused frame is consumed without a byte. -/
def headerReady (e : EncoderState) (msg : Msg) : EncoderState × List UInt8 × Bool :=
  match e.buildHeader msg zmpRequestReplyHeaderSize with
  | (.error _, e') => ({ e' with next := .headerReady }, [], true)
  | (.ok header, e') => ({ e' with next := .bodyReady }, header, false)

def bodyReady (e : EncoderState) (msg : Msg) : EncoderState × List UInt8 × Bool :=
  ({ e with next := .headerReady }, msg.data, true)

def runNext (e : EncoderState) (msg : Msg) : EncoderState × List UInt8 × Bool :=
  match e.next with
  | .headerReady => e.headerReady msg
  | .bodyReady => e.bodyReady msg

end EncoderState

open EncoderState in
def zmpMachine : Machine EncoderState Msg UInt8 where
  act := runNext
  rank e := match e.next with
    | .headerReady => 1
    | .bodyReady => 0
  rank_act e msg h := by
    cases hnext : e.next with
    | headerReady =>
      simp only [runNext, hnext, headerReady] at h ⊢
      split at h
      case h_1 => simp at h
      case h_2 => simp
    | bodyReady => simp [runNext, hnext, bodyReady] at h

def Encoder.init (bufsize : ℕ) : Writer EncoderState Msg UInt8 :=
  { inner := EncoderState.init
    inProgress := none
    toWrite := []
    newMsgFlag := true
    bufSize := bufsize }

namespace Msg

/-- The metadata of a message as the encoder lets it pass. -/
def requestReplyOk (m : Msg) : Bool :=
  match m.requestReply with
  | none => true
  | some (kind, sequence) =>
    zmpIsRequestReplyKind kind && sequence != 0 && !zmpIsSpecialFrame (wireFlagsOfMsg m.flags)

/-- The messages that the encoder accepts: `multipart` tells that an application
message is open. -/
def accepted (multipart : Bool) (m : Msg) : Bool :=
  decide (m.data.length ≤ 0xffffffff) && m.requestReplyOk &&
    !(multipart && (m.isSpecial || m.requestReply.isSome))

def header (m : Msg) : List UInt8 :=
  headerBytes (wireFlagsOfMsg m.flags) (m.requestReply.elim zmpKindData Prod.fst)
    (UInt32.ofNat m.data.length) (m.requestReply.map Prod.snd)

/-- Whether an application message is open after an accepted message. -/
def multipartAfter (multipart : Bool) (m : Msg) : Bool :=
  if m.isSpecial then multipart else hasAny m.flags more

end Msg

namespace EncoderState

theorem buildZmpDataHeader_eq (msg : Msg) {bufferSize : ℕ}
    (hbuf : zmpRequestReplyHeaderSize ≤ bufferSize) :
    (∃ errno, buildZmpDataHeader msg bufferSize = .error errno ∧
        (decide (msg.data.length ≤ 0xffffffff) && msg.requestReplyOk) = false) ∨
      (buildZmpDataHeader msg bufferSize = .ok (msg.header, msg.requestReply.isSome) ∧
        (decide (msg.data.length ≤ 0xffffffff) && msg.requestReplyOk) = true) := by
  have hshort : zmpHeaderSize ≤ bufferSize := Nat.le_of_add_right_le hbuf
  rw [buildZmpDataHeader]
  split
  case isTrue h => exact .inl ⟨_, rfl, by simp; omega⟩
  case isFalse h =>
    have hsize : decide (msg.data.length ≤ 0xffffffff) = true := by simp; omega
    rw [hsize, Msg.requestReplyOk, Msg.header]
    rcases msg.requestReply with _ | ⟨kind, sequence⟩
    · simp [hshort]
    · by_cases hkind : zmpIsRequestReplyKind kind = true
      · by_cases hseq : sequence = 0
        · simp [hseq]
        · by_cases hspecial : zmpIsSpecialFrame (wireFlagsOfMsg msg.flags) = true
          · simp [hkind, hseq, hspecial]
          · simp [hkind, hseq, hspecial, hbuf]
      · simp [hkind]

theorem buildHeader_eq (e : EncoderState) (msg : Msg) {bufferSize : ℕ}
    (hbuf : zmpRequestReplyHeaderSize ≤ bufferSize) :
    (∃ errno, e.buildHeader msg bufferSize = (.error errno, e) ∧
        msg.accepted e.applicationMultipartInProgress = false) ∨ (e.buildHeader msg bufferSize =
          (.ok msg.header, { e with
              applicationMultipartInProgress :=
                msg.multipartAfter e.applicationMultipartInProgress }) ∧
        msg.accepted e.applicationMultipartInProgress = true) := by
  rw [buildHeader, Msg.accepted]
  rcases buildZmpDataHeader_eq msg hbuf with
    ⟨errno, hb, hno⟩ | ⟨hb, hyes⟩
  · exact .inl ⟨errno, by rw [hb], by rw [hno, Bool.false_and]⟩
  · rw [hb, hyes, Bool.true_and]
    simp only
    split
    case isTrue h => exact .inl ⟨_, rfl, by simp [h]⟩
    case isFalse h =>
      right
      constructor
      · rw [Msg.multipartAfter]
        split <;> rfl
      · rw [Bool.not_eq_true] at h
        rw [h, Bool.not_false]

/-- A message that reaches the encoder at a frame boundary leaves it at one, with
the bytes of its frame written. -/
theorem drain_zmpMachine {e : EncoderState} (hnext : e.next = .headerReady) (msg : Msg) :
    zmpMachine.drain e msg =
      if msg.accepted e.applicationMultipartInProgress then
        ({ e with
            applicationMultipartInProgress :=
              msg.multipartAfter e.applicationMultipartInProgress },
          msg.header ++ msg.data)
      else (e, []) := by
  have hact : zmpMachine.act e msg = e.headerReady msg := by
    simp only [zmpMachine, runNext, hnext]
  rcases e.buildHeader_eq msg (Nat.le_refl _) with
    ⟨errno, hb, hno⟩ | ⟨hb, hyes⟩
  · have hready : e.headerReady msg = (e, [], true) := by
      simp only [headerReady, hb, ← hnext]
    rw [zmpMachine.drain_of_last (hact.trans hready), hno]
    rfl
  · have hready : e.headerReady msg = ({ e with
            applicationMultipartInProgress :=
              msg.multipartAfter e.applicationMultipartInProgress
            next := .bodyReady }, msg.header, false) := by
      simp only [headerReady, hb]
    rw [zmpMachine.drain_of_more (hact.trans hready), hyes, if_pos rfl,
      zmpMachine.drain_of_last (a := { e with
        applicationMultipartInProgress :=
          msg.multipartAfter e.applicationMultipartInProgress
        next := .bodyReady }) rfl, ← hnext]

end EncoderState

def openAfter : Bool → List Msg → Bool
  | multipart, [] => multipart
  | multipart, m :: ms =>
    openAfter (if m.accepted multipart then m.multipartAfter multipart
        else multipart) ms

def wireImage : Bool → List Msg → List UInt8
  | _, [] => []
  | multipart, m :: ms =>
    if m.accepted multipart then
      m.header ++ m.data ++ wireImage (m.multipartAfter multipart) ms
    else wireImage multipart ms

def acceptedMsgs : Bool → List Msg → List Msg
  | _, [] => []
  | multipart, m :: ms =>
    if m.accepted multipart then
      m :: acceptedMsgs (m.multipartAfter multipart) ms
    else acceptedMsgs multipart ms

theorem openAfter_append_singleton (multipart : Bool) (ms : List Msg) (m : Msg) :
    openAfter multipart (ms ++ [m]) =
      if m.accepted (openAfter multipart ms) then
        m.multipartAfter (openAfter multipart ms)
      else openAfter multipart ms := by
  induction ms generalizing multipart with
  | nil => rfl
  | cons m' ms ih =>
    rw [List.cons_append, openAfter, ih]
    rfl

theorem wireImage_append_singleton (multipart : Bool) (ms : List Msg) (m : Msg) :
    wireImage multipart (ms ++ [m]) = wireImage multipart ms ++
        if m.accepted (openAfter multipart ms) then m.header ++ m.data
        else [] := by
  induction ms generalizing multipart with
  | nil => rcases h : m.accepted multipart <;> simp [wireImage, openAfter, h]
  | cons m' ms ih =>
    rw [List.cons_append, wireImage, wireImage, openAfter]
    split
    case isTrue h => rw [ih, ← List.append_assoc]
    case isFalse h => rw [ih]

theorem acceptedMsgs_append_singleton (multipart : Bool) (ms : List Msg) (m : Msg) :
    acceptedMsgs multipart (ms ++ [m]) = acceptedMsgs multipart ms ++
        if m.accepted (openAfter multipart ms) then [m] else [] := by
  induction ms generalizing multipart with
  | nil =>
    rcases h : m.accepted multipart <;> simp [acceptedMsgs, openAfter, h]
  | cons m' ms ih =>
    rw [List.cons_append, acceptedMsgs, acceptedMsgs, openAfter]
    split
    case isTrue h => rw [ih, List.cons_append]
    case isFalse h => rw [ih]

theorem drainAll_zmpMachine {e : EncoderState} (hnext : e.next = .headerReady) (ms : List Msg) :
    zmpMachine.drainAll e ms = ({ e with
          applicationMultipartInProgress :=
            openAfter e.applicationMultipartInProgress ms },
        wireImage e.applicationMultipartInProgress ms) := by
  induction ms generalizing e with
  | nil => rfl
  | cons m ms ih =>
    rw [Machine.drainAll, EncoderState.drain_zmpMachine hnext, openAfter, wireImage]
    split
    case isTrue h =>
      have hrec := ih (e := { e with
        applicationMultipartInProgress :=
          m.multipartAfter e.applicationMultipartInProgress }) hnext
      simp only [hrec]
    case isFalse h => simp only [ih hnext, List.nil_append]

theorem drainAll_init (ms : List Msg) : zmpMachine.drainAll EncoderState.init ms =
      ({ EncoderState.init with applicationMultipartInProgress := openAfter false ms },
        wireImage false ms) :=
  drainAll_zmpMachine rfl ms

theorem emit_eq_wireImage {bufsize : ℕ} {vs : List (Event Msg)}
    {bytes : List UInt8} {w : Writer EncoderState Msg UInt8}
    (h : (Encoder.init bufsize).emit zmpMachine vs = some (bytes, w))
    (hidle : w.inProgress = none) : bytes = wireImage false (vs.filterMap Event.msg) := by
  rw [Writer.emit_drained zmpMachine h rfl hidle]
  exact congrArg Prod.snd (drainAll_init _)

end Zlink.Protocol
