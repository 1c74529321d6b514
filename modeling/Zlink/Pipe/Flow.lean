import Zlink.Pipe.Conservation
import Zlink.Lib.Stamped

/-!
# The receive flow of the peer

The peer reports, under a growing epoch, whether it is paused. The writing end keeps the
latest report. The only thing that looks at it is the admission of a next message, so
that an operation does the same under any report once a message has started.
-/

namespace Zlink.Pipe

open Protocol Suspension

namespace Writer

variable {w v : Writer} {c : Stamped Bool}

def flow (w : Writer) : Stamped Bool :=
  { value := w.remoteFlowPaused, stamp := w.remoteFlowEpoch }

def setFlow (c : Stamped Bool) (w : Writer) : Writer :=
  { w with remoteFlowPaused := c.value, remoteFlowEpoch := c.stamp }

abbrev under {β : Type} (c : Stamped Bool) (p : Access (β × Writer)) : Access (β × Writer) :=
  p.translate (setFlow c) (Prod.map id (setFlow c))

theorem bind_under {β γ : Type} {p : Access (β × Writer)} {f f' : β × Writer → Access (γ × Writer)}
    (h : ∀ b v, f' (b, v.setFlow c) = under c (f (b, v))) : under c p >>= f' = under c (p >>= f) :=
  Prog.translate_bind fun x => h x.1 x.2

theorem checkHwmWithPeerSnapshot_setFlow :
    (w.setFlow c).checkHwmWithPeerSnapshot = under c w.checkHwmWithPeerSnapshot := by
  have hcheck : (w.setFlow c).checkHwm = w.checkHwm := rfl
  rw [checkHwmWithPeerSnapshot, checkHwmWithPeerSnapshot, hcheck]
  split
  · rfl
  · rfl

theorem hwmCreditReady_setFlow : (w.setFlow c).hwmCreditReady = under c w.hwmCreditReady := by
  rw [hwmCreditReady, hwmCreditReady, checkHwmWithPeerSnapshot_setFlow]
  apply bind_under
  rintro ready v
  cases ready with
  | true => rfl
  | false =>
    have harm : (v.setFlow c).armHwmCreditWait = v.armHwmCreditWait.setFlow c := rfl
    simp only [Bool.false_eq_true, if_false, harm]
    rw [checkHwmWithPeerSnapshot_setFlow]
    apply bind_under
    rintro ready v
    cases ready with
    | true | false => rfl

theorem recoverPublishCredit_setFlow :
    (w.setFlow c).recoverPublishCredit = under c w.recoverPublishCredit := by
  have hactive : (w.setFlow c).outActive = w.outActive := rfl
  rw [recoverPublishCredit, recoverPublishCredit, hactive]
  split
  · rfl
  rw [checkHwmWithPeerSnapshot_setFlow]
  apply bind_under
  rintro ready v
  cases ready with
  | true | false => rfl

theorem canCommitBytesWithPeerSnapshot_setFlow (bytes payload max : ℕ) (allowEmpty : Bool) :
    (w.setFlow c).canCommitBytesWithPeerSnapshot bytes payload allowEmpty max =
      under c (w.canCommitBytesWithPeerSnapshot bytes payload allowEmpty max) := by
  have hcan : (w.setFlow c).canCommitBytes bytes payload allowEmpty max =
      w.canCommitBytes bytes payload allowEmpty max := rfl
  rw [canCommitBytesWithPeerSnapshot, canCommitBytesWithPeerSnapshot, hcan]
  split
  · rfl
  · rfl

theorem awaitCommitCredit_setFlow (bytes payload max : ℕ) (allowEmpty : Bool) :
    (w.setFlow c).awaitCommitCredit bytes payload allowEmpty max =
      under c (w.awaitCommitCredit bytes payload allowEmpty max) := by
  rw [awaitCommitCredit, awaitCommitCredit, canCommitBytesWithPeerSnapshot_setFlow]
  apply bind_under
  rintro ready v
  cases ready with
  | true => rfl
  | false =>
    have hflight : ((v.setFlow c).bytesWritten ≤ (v.setFlow c).peersBytesRead) =
        (v.bytesWritten ≤ v.peersBytesRead) := rfl
    have harm : (v.setFlow c).armHwmCreditWait = v.armHwmCreditWait.setFlow c := rfl
    simp only [Bool.false_eq_true, if_false, hflight, harm]
    split
    · rfl
    rw [canCommitBytesWithPeerSnapshot_setFlow]
    apply bind_under
    rintro ready v
    cases ready with
    | true | false => rfl

theorem publishOutboundFrame_setFlow (m : Frame) (replaced : List Frame) :
    (w.setFlow c).publishOutboundFrame m replaced =
      (w.publishOutboundFrame m replaced).setFlow c := by
  have hconflate : (w.setFlow c).conflate = w.conflate := rfl
  rw [publishOutboundFrame, publishOutboundFrame, hconflate]
  split
  · rfl
  · rfl

theorem settleFrame_setFlow (m : Frame) (replaced : List Frame) :
    (w.setFlow c).settleFrame m replaced = (w.settleFrame m replaced).setFlow c := by
  simp only [settleFrame, publishOutboundFrame_setFlow]
  split
  · rfl
  · rfl

theorem startMultipart_setFlow (first : Bool) : (w.setFlow c).startMultipart first =
      (w.startMultipart first).translate (setFlow c) (setFlow c) := by
  cases first with
  | true | false => rfl

theorem writeMessage_setFlow (m : Frame) (enforceHwm enforceIncremental : Bool) (max : ℕ)
    (replaced : List Frame) :
    (w.setFlow c).writeMessage m enforceHwm enforceIncremental max replaced =
      under c (w.writeMessage m enforceHwm enforceIncremental max replaced) := by
  have hover : (w.setFlow c).appendOverflows m = w.appendOverflows m := rfl
  have hbytes : (w.setFlow c).outIncompleteBytes = w.outIncompleteBytes := rfl
  have hpayload : (w.setFlow c).outIncompletePayloadBytes = w.outIncompletePayloadBytes := rfl
  have hempty : (w.setFlow c).outMultipartStartedEmpty = w.outMultipartStartedEmpty := rfl
  rw [writeMessage, writeMessage, hover, hbytes, hpayload, hempty]
  split
  · rfl
  split
  · rfl
  split
  · rfl
  have hstart := @startMultipart_setFlow
    { w with
      outIncompleteBytes := w.outIncompleteBytes + m.accountedBytes
      outIncompletePayloadBytes := w.outIncompletePayloadBytes + m.size } c
    (m.more && w.outIncompleteBytes == 0)
  refine (congrArg (fun p => p >>= _) hstart).trans ?_
  apply Prog.translate_bind
  intro started
  split
  · rw [settleFrame_setFlow]
    rfl
  have hincomplete : (started.setFlow c).outIncompleteBytes = started.outIncompleteBytes := rfl
  have hsize : (started.setFlow c).outIncompletePayloadBytes =
    started.outIncompletePayloadBytes := rfl
  have hstarted : (started.setFlow c).outMultipartStartedEmpty =
    started.outMultipartStartedEmpty := rfl
  rw [hincomplete, hsize, hstarted, awaitCommitCredit_setFlow]
  apply bind_under
  rintro ready v
  cases ready with
  | true =>
    simp only [if_true, settleFrame_setFlow]
    rfl
  | false => rfl

theorem flush_setFlow : (w.setFlow c).flush = w.flush.setFlow c := by
  have hstate : (w.setFlow c).state = w.state := rfl
  rw [flush, flush, hstate]
  split
  · rfl
  · rfl

theorem writeMessageAndFlush_setFlow (m : Frame) (enforceIncremental : Bool)
    (replaced : List Frame) : (w.setFlow c).writeMessageAndFlush m enforceIncremental replaced =
      under c (w.writeMessageAndFlush m enforceIncremental replaced) := by
  have hmax : (w.setFlow c).maxMessageBytes = w.maxMessageBytes := rfl
  rw [writeMessageAndFlush, writeMessageAndFlush, hmax, writeMessage_setFlow]
  apply bind_under
  rintro admission v
  simp only [flush_setFlow]
  split
  · rfl
  · rfl

theorem writeParts_setFlow (max : ℕ) (parts : List Frame) : (w.setFlow c).writeParts max parts =
      (w.writeParts max parts).translate (setFlow c) (setFlow c) := by
  induction parts generalizing w with
  | nil => rfl
  | cons m ms ih =>
    rw [writeParts, writeParts, writeMessage_setFlow]
    apply Prog.translate_bind
    rintro ⟨admission, v⟩
    exact ih

/-- The admission sees a report only where it blocks the next message. -/
abbrev Alike (c : Stamped Bool) (w : Writer) : Prop :=
  (w.setFlow c).remoteFlowBlocked = w.remoteFlowBlocked

theorem writeStateAdmission_setFlow (h : Alike c w) : (w.setFlow c).writeStateAdmission =
      Prod.map id (setFlow c) w.writeStateAdmission := by
  have hstate : (w.setFlow c).state = w.state := rfl
  have hheld : (w.setFlow c).transportPairWriteHeld = w.transportPairWriteHeld := rfl
  have hactive : (w.setFlow c).outActive = w.outActive := rfl
  rw [writeStateAdmission, writeStateAdmission, hstate, hheld, h, hactive]
  split
  · rfl
  split
  · rfl
  split
  · rfl
  split
  · rfl
  · rfl

theorem admitWrite_setFlow (h : Alike c w) : (w.setFlow c).admitWrite = under c w.admitWrite := by
  rw [admitWrite, admitWrite, writeStateAdmission_setFlow h]
  obtain ⟨admission, v⟩ := w.writeStateAdmission
  simp only [Prod.map_apply, id_eq]
  split
  · rfl
  rw [hwmCreditReady_setFlow]
  apply bind_under
  rintro ready u
  cases ready with
  | true | false => rfl

theorem checkPublishRecordHwm_setFlow (h : Alike c w) :
    (w.setFlow c).checkPublishRecordHwm = under c w.checkPublishRecordHwm := by
  have hstate : (w.setFlow c).state = w.state := rfl
  have hheld : (w.setFlow c).transportPairWriteHeld = w.transportPairWriteHeld := rfl
  rw [checkPublishRecordHwm, checkPublishRecordHwm, hstate, hheld, h]
  split
  · rfl
  split
  · rfl
  split
  · rfl
  rw [recoverPublishCredit_setFlow]
  apply bind_under
  rintro ready v
  cases ready with
  | false => rfl
  | true =>
    simp only [Bool.not_true, Bool.false_eq_true, if_false, hwmCreditReady_setFlow]
    apply bind_under
    rintro ready u
    cases ready with
    | true | false => rfl

theorem admitOwnerMessageStart_setFlow (h : Alike c w) :
    (w.setFlow c).admitOwnerMessageStart = under c w.admitOwnerMessageStart := by
  rw [admitOwnerMessageStart, admitOwnerMessageStart, admitWrite_setFlow h]
  apply bind_under
  rintro admission v
  dsimp only
  split
  · rfl
  · rfl

theorem admitOwnerStartedWrite_setFlow (h : Alike c w) :
    (w.setFlow c).admitOwnerStartedWrite = under c w.admitOwnerStartedWrite := by
  have hpending : (w.setFlow c).outOwnerMessageStartPending = w.outOwnerMessageStartPending := rfl
  have hstate : (w.setFlow c).state = w.state := rfl
  have hheld : (w.setFlow c).transportPairWriteHeld = w.transportPairWriteHeld := rfl
  have halike : Alike c { w with outOwnerMessageStartPending := false } := h
  rw [admitOwnerStartedWrite, admitOwnerStartedWrite, hpending]
  dsimp only
  split
  · exact admitWrite_setFlow halike
  rw [hstate]
  split
  · rfl
  rw [hheld]
  split
  · rfl
  · rfl

theorem bind_admission {p : Access (Admission × Writer)} (f : Writer → Access (Admission × Writer))
    (h : ∀ v, f (v.setFlow c) = under c (f v)) :
    (under c p >>= fun x => if x.1 ≠ .ready then pure (x.1, x.2) else f x.2) =
      under c (p >>= fun x => if x.1 ≠ .ready then pure (x.1, x.2) else f x.2) := by
  apply bind_under
  rintro admission v
  dsimp only
  split
  · rfl
  · exact h v

theorem writeSingleMessageAndFlush_setFlow (h : Alike c w) (m : Frame) (replaced : List Frame) :
    (w.setFlow c).writeSingleMessageAndFlush m replaced =
      under c (w.writeSingleMessageAndFlush m replaced) := by
  rw [writeSingleMessageAndFlush, writeSingleMessageAndFlush, writeStateAdmission_setFlow h]
  obtain ⟨admission, v⟩ := w.writeStateAdmission
  have hboundary : (v.setFlow c).atRecordBoundary = v.atRecordBoundary := rfl
  have hmax : (v.setFlow c).maxMessageBytes = v.maxMessageBytes := rfl
  simp only [Prod.map_apply, id_eq, hboundary, hmax]
  split
  · rfl
  split
  · split
    · rfl
    rw [awaitCommitCredit_setFlow]
    apply bind_under
    rintro ready u
    have hcommit : (u.setFlow c).commitSingle m = (u.commitSingle m).setFlow c := rfl
    cases ready with
    | true =>
      simp only [if_true, hcommit, flush_setFlow]
      rfl
    | false => rfl
  rw [hwmCreditReady_setFlow]
  apply bind_under
  rintro ready u
  have hmax : (u.setFlow c).maxMessageBytes = u.maxMessageBytes := rfl
  cases ready with
  | false => rfl
  | true =>
    simp only [Bool.not_true, Bool.false_eq_true, if_false, hmax, writeMessage_setFlow]
    apply bind_under
    rintro admission t
    simp only [flush_setFlow]
    split
    · rfl
    · rfl

theorem writeVia_setFlow (h : Alike c w) (entry : Entry) (m : Frame) (replaced : List Frame) :
    (w.setFlow c).writeVia entry m replaced = under c (w.writeVia entry m replaced) := by
  cases entry with
  | perFrame =>
    rw [writeVia, writeVia, write, write, admitWrite_setFlow h]
    exact bind_admission (fun v => v.writeMessage m true true v.maxMessageBytes replaced)
      fun v => writeMessage_setFlow m true true v.maxMessageBytes replaced
  | flushed =>
    rw [writeVia, writeVia, writeAndFlush, writeAndFlush, admitWrite_setFlow h]
    exact bind_admission (fun v => v.writeMessageAndFlush m true replaced)
      fun v => writeMessageAndFlush_setFlow m true replaced
  | ownerStarted =>
    rw [writeVia, writeVia, writeOwnerStartedMessage, writeOwnerStartedMessage,
      admitOwnerStartedWrite_setFlow h]
    exact bind_admission (fun v => v.writeMessageAndFlush m true replaced)
      fun v => writeMessageAndFlush_setFlow m true replaced
  | observed =>
    rw [writeVia, writeVia, writeMessageObserved, writeMessageObserved, admitWrite_setFlow h]
    exact bind_admission (fun v => v.writeMessageAndFlush m m.more replaced)
      fun v => writeMessageAndFlush_setFlow m m.more replaced
  | noRecursiveHwmCheck =>
    rw [writeVia, writeVia, writeNoRecursiveHwmCheck, writeNoRecursiveHwmCheck,
      admitWrite_setFlow h]
    exact bind_admission (fun v => v.writeMessage m true false v.maxMessageBytes replaced)
      fun v => writeMessage_setFlow m true false v.maxMessageBytes replaced
  | single => exact writeSingleMessageAndFlush_setFlow h m replaced

theorem tryWriteCompleteRecordAndFlush_setFlow (h : Alike c w) (parts : List Frame) :
    (w.setFlow c).tryWriteCompleteRecordAndFlush parts =
      under c (w.tryWriteCompleteRecordAndFlush parts) := by
  rw [tryWriteCompleteRecordAndFlush, tryWriteCompleteRecordAndFlush]
  split
  · rfl
  rw [writeStateAdmission_setFlow h]
  obtain ⟨admission, v⟩ := w.writeStateAdmission
  have hboundary : (v.setFlow c).atRecordBoundary = v.atRecordBoundary := rfl
  have hmax : (v.setFlow c).maxMessageBytes = v.maxMessageBytes := rfl
  simp only [Prod.map_apply, id_eq, hboundary, hmax]
  split
  · rfl
  cases recordBytes parts 0 0 with
  | none => rfl
  | some size =>
    dsimp only
    split
    · rfl
    rw [canCommitBytesWithPeerSnapshot_setFlow]
    apply bind_under
    rintro ready u
    have hmax : (u.setFlow c).maxMessageBytes = u.maxMessageBytes := rfl
    cases ready with
    | false => rfl
    | true =>
      simp only [Bool.not_true, Bool.false_eq_true, if_false, hmax, writeParts_setFlow]
      apply Prog.translate_bind
      intro t
      simp only [flush_setFlow]
      rfl

theorem grantReservation_setFlow (payloadBytes : ℕ) (msgFlags : UInt8) (track startedEmpty : Bool) :
    (w.setFlow c).grantReservation payloadBytes msgFlags track startedEmpty =
      Prod.map id (setFlow c) (w.grantReservation payloadBytes msgFlags track startedEmpty) := by
  have hreservation : (w.setFlow c).reservation = w.reservation := rfl
  have hregistry : (w.setFlow c).registryAccounting = w.registryAccounting := rfl
  have hlive : (w.setFlow c).queueLive = w.queueLive := rfl
  rw [grantReservation, grantReservation, hreservation, hregistry, hlive]
  split
  · rfl
  split
  · rfl
  · rfl

theorem reserveDecoderFrame_setFlow (payloadBytes : ℕ) (msgFlags : UInt8) (recvRoutingId : Bool) :
    (w.setFlow c).reserveDecoderFrame payloadBytes msgFlags recvRoutingId =
      under c (w.reserveDecoderFrame payloadBytes msgFlags recvRoutingId) := by
  have hcredit (v : Writer) (bytes : ℕ) :
      (v.setFlow c).hasByteCredit bytes = v.hasByteCredit bytes := rfl
  have hstate : (w.setFlow c).state = w.state := rfl
  have hhwm : (w.setFlow c).hwm = w.hwm := rfl
  have hincomplete (v : Writer) : (v.setFlow c).outIncompleteBytes = v.outIncompleteBytes := rfl
  have hwritten (v : Writer) : (v.setFlow c).bytesWritten = v.bytesWritten := rfl
  have hread (v : Writer) : (v.setFlow c).peersBytesRead = v.peersBytesRead := rfl
  have hdecoder : (w.setFlow c).decoderMultipartStartedEmpty =
    w.decoderMultipartStartedEmpty := rfl
  have hrefresh (v : Writer) (l : Ledger) : (v.setFlow c).refreshPeerCreditSnapshot l =
    (v.refreshPeerCreditSnapshot l).setFlow c := rfl
  have harm (v : Writer) : (v.setFlow c).armHwmCreditWait = v.armHwmCreditWait.setFlow c := rfl
  have hclear (v : Writer) :
    (v.setFlow c).clearHwmCreditWait = v.clearHwmCreditWait.setFlow c := rfl
  simp only [reserveDecoderFrame, reserveInboundDecoderFrame, hstate, hhwm, hdecoder,
    hincomplete, hwritten, hread, hcredit]
  split
  · rfl
  split
  · rw [grantReservation_setFlow]
    rfl
  simp only [poll_bind, hrefresh, hincomplete, hwritten, hread, hcredit, harm, hclear,
    grantReservation_setFlow]
  refine congrArg (Prog.ask (w.setFlow c) ()) (funext fun l => ?_)
  dsimp only
  split
  · rfl
  refine congrArg (Prog.ask _ ()) (funext fun l' => ?_)
  dsimp only
  split
  · rfl
  · rfl

theorem settleReserved_setFlow (m : Frame) (frameBytes payloadBytes : ℕ) (replaced : List Frame) :
    (w.setFlow c).settleReserved m frameBytes payloadBytes replaced =
      (w.settleReserved m frameBytes payloadBytes replaced).setFlow c := by
  have hpublish := @publishOutboundFrame_setFlow
    { w with
      outIncompleteBytes := w.outIncompleteBytes + frameBytes
      outIncompletePayloadBytes := w.outIncompletePayloadBytes + payloadBytes } c m replaced
  rw [settleReserved, settleReserved]
  split
  · exact congrArg (fun v => { v.commitRecord m with decoderMultipartStartedEmpty := false })
      hpublish
  · exact hpublish

theorem writeReservedDecoderFrame_setFlow (m : Frame) (replaced : List Frame) :
    (w.setFlow c).writeReservedDecoderFrame m replaced =
      Prod.map id (setFlow c) (w.writeReservedDecoderFrame m replaced) := by
  have hreservation : (w.setFlow c).reservation = w.reservation := rfl
  rw [writeReservedDecoderFrame, writeReservedDecoderFrame, hreservation]
  cases w.reservation with
  | none => rfl
  | some reserved =>
    have hsettle (frameBytes payloadBytes : ℕ) := @settleReserved_setFlow
      { w with reservation := none } c m frameBytes payloadBytes replaced
    have hstate : (w.setFlow c).state = w.state := rfl
    have hregistry : (w.setFlow c).registryAccounting = w.registryAccounting := rfl
    have hlive : (w.setFlow c).queueLive = w.queueLive := rfl
    have hgeneration : (w.setFlow c).queueGeneration = w.queueGeneration := rfl
    have hpayload : (w.setFlow c).outIncompletePayloadBytes =
      w.outIncompletePayloadBytes := rfl
    have hbytes : (w.setFlow c).outIncompleteBytes = w.outIncompleteBytes := rfl
    dsimp only
    rw [hstate]
    split
    · rfl
    split
    · rfl
    rw [hregistry, hlive, hgeneration]
    split
    · rfl
    rw [hpayload]
    split
    · rfl
    split
    · change (if w.appendOverflows m = true then
          (false, setFlow c { w with reservation := none })
        else
          (true, settleReserved (setFlow c { w with reservation := none }) m
            m.accountedBytes m.size replaced)) =
        Prod.map id (setFlow c) (if w.appendOverflows m = true then
          (false, { w with reservation := none })
        else
          (true, settleReserved { w with reservation := none } m m.accountedBytes m.size
            replaced))
      split
      · rfl
      · exact congrArg (Prod.mk true) (hsettle _ _)
    · rw [hbytes]
      split
      · rfl
      · exact congrArg (Prod.mk true) (hsettle _ _)

theorem pushDecoded_setFlow (m : Frame) (recvRoutingId : Bool) (replaced : List Frame) :
    (w.setFlow c).pushDecoded m recvRoutingId replaced =
      Prod.map id (setFlow c) (w.pushDecoded m recvRoutingId replaced) := by
  rw [pushDecoded, pushDecoded, writeReservedDecoderFrame_setFlow]
  split
  · rfl
  obtain ⟨ok, v⟩ := w.writeReservedDecoderFrame m replaced
  cases ok with
  | true | false => rfl

theorem transitionToInactiveState_setFlow (state : LifecycleState) :
    (w.setFlow c).transitionToInactiveState state =
      (w.transitionToInactiveState state).setFlow c := by
  rw [transitionToInactiveState, transitionToInactiveState]
  split
  · rfl
  · rfl

theorem terminate_setFlow (delay : Bool) :
    (w.setFlow c).terminate delay = (w.terminate delay).setFlow c := by
  have hdelimit (v : Writer) : (v.setFlow c).delimitOutbound = v.delimitOutbound.setFlow c := by
    have hclear := @flush_setFlow
      { { v with outActive := false }.rollback with
        outPipe := { v with outActive := false }.rollback.outPipe.write .delimiter false } c
    exact hclear
  have hstate : (w.setFlow c).state = w.state := rfl
  rw [terminate, terminate, hstate]
  split
  · rfl
  · rfl
  · rfl
  · rw [transitionToInactiveState_setFlow, hdelimit]
  · rw [transitionToInactiveState_setFlow, hdelimit]
  split
  · exact hdelimit w
  · exact @transitionToInactiveState_setFlow { w with outActive := false }.rollback c _

theorem releaseWritesForTransportPair_setFlow : (w.setFlow c).releaseWritesForTransportPair =
      w.releaseWritesForTransportPair.translate (setFlow c) (setFlow c) := by
  have hheld : (w.setFlow c).transportPairWriteHeld = w.transportPairWriteHeld := rfl
  have hstate : (w.setFlow c).state = w.state := rfl
  rw [releaseWritesForTransportPair, releaseWritesForTransportPair, hheld]
  split
  · rfl
  dsimp only
  rw [hstate]
  split
  · rfl
  have hready := @hwmCreditReady_setFlow { w with transportPairWriteHeld := false } c
  refine (congrArg (fun p => p >>= _) hready).trans ?_
  apply Prog.translate_bind
  rintro ⟨ready, v⟩
  cases ready with
  | true | false => rfl

theorem takeHwmCreditRecovery_setFlow :
    (w.setFlow c).takeHwmCreditRecovery = w.takeHwmCreditRecovery.setFlow c := by
  have hwaiting : (w.setFlow c).waitingForByteCredit = w.waitingForByteCredit := rfl
  have hactive : (w.setFlow c).outActive = w.outActive := rfl
  rw [takeHwmCreditRecovery, takeHwmCreditRecovery, hwaiting, hactive]
  split
  · rfl
  · rfl

theorem refreshWriteCredit_setFlow (l : Ledger) :
    (w.setFlow c).refreshWriteCredit l = (w.refreshWriteCredit l).setFlow c := by
  have hrefresh : (w.setFlow c).refreshPeerCreditSnapshot l =
    (w.refreshPeerCreditSnapshot l).setFlow c := rfl
  rw [refreshWriteCredit, refreshWriteCredit, hrefresh]
  generalize w.refreshPeerCreditSnapshot l = v
  have hheld : (v.setFlow c).transportPairWriteHeld = v.transportPairWriteHeld := rfl
  have hstate : (v.setFlow c).state = v.state := rfl
  have hcheck : (v.setFlow c).checkHwm = v.checkHwm := rfl
  have hactive : (v.setFlow c).outActive = v.outActive := rfl
  simp only [hheld, hstate, hcheck, hactive]
  split
  · rfl
  · rfl

end Writer

namespace Op

def isFlowState : Op → Bool
  | flowState .. => true
  | _ => false

theorem program_setFlow {w : Writer} {c : Stamped Bool} {op : Op} (h : w.Alike c)
    (hop : op.isFlowState = false) : op.program (w.setFlow c) = Writer.under c (op.program w) := by
  cases op with
  | checkWrite =>
    rw [program, program, Writer.admitWrite_setFlow h]
    exact Writer.bind_under fun _ _ => rfl
  | checkPublishRecordHwm =>
    rw [program, program, Writer.checkPublishRecordHwm_setFlow h]
    exact Writer.bind_under fun _ _ => rfl
  | admitOwnerMessageStart =>
    rw [program, program, Writer.admitOwnerMessageStart_setFlow h]
    exact Writer.bind_under fun _ _ => rfl
  | write entry m replaced =>
    rw [program, program, Writer.writeVia_setFlow h]
    exact Writer.bind_under fun _ _ => rfl
  | completeRecord parts => exact Writer.tryWriteCompleteRecordAndFlush_setFlow h parts
  | flush =>
    rw [program, program, Writer.flush_setFlow]
    rfl
  | rollback | engineError | setHwm | setMaxMessageBytes | holdWrites => rfl
  | reserve payloadBytes msgFlags recvRoutingId =>
    exact Writer.reserveDecoderFrame_setFlow payloadBytes msgFlags recvRoutingId
  | push m recvRoutingId replaced =>
    rw [program, program, Writer.pushDecoded_setFlow]
    rfl
  | releaseWrites =>
    rw [program, program, Writer.releaseWritesForTransportPair_setFlow]
    exact Prog.translate_bind fun _ => rfl
  | flowState paused epoch => cases hop
  | takeHwmCreditRecovery =>
    rw [program, program, Writer.takeHwmCreditRecovery_setFlow]
    rfl
  | refreshWriteCredit =>
    refine congrArg (Prog.ask (w.setFlow c) ()) (funext fun l => ?_)
    exact congrArg (fun v => Prog.done (true, v)) (Writer.refreshWriteCredit_setFlow l)
  | terminate delay =>
    rw [program, program, Writer.terminate_setFlow]
    rfl
  | retire state =>
    rw [program, program, Writer.transitionToInactiveState_setFlow]
    rfl

def report : Op → Option (Stamped Bool)
  | flowState paused epoch => some { value := paused, stamp := epoch }
  | _ => none

end Op

namespace Writer

/-- The record is `f` whenever it can be seen, and at the end. -/
abbrev Records {β : Type} (f : Stamped Bool) (p : Access (β × Writer)) : Prop :=
  p.Holds (fun s => s.flow = f) (fun _ _ => True) fun x => x.2.flow = f

theorem records_of_under {β : Type} {f : Stamped Bool} {p : Access (β × Writer)}
    (h : p = under f p) : Records f p := by
  rw [h]
  exact Prog.holds_translate.mpr (Prog.holds_of_forall p (fun _ => rfl) fun _ => rfl)

theorem flow_writeStateAdmission (w : Writer) : w.writeStateAdmission.2.flow = w.flow := by
  have hsame := @writeStateAdmission_setFlow w w.flow rfl
  exact congrArg (fun x => x.2.flow) hsame

theorem applyRemoteFlowState_records (w : Writer) (paused : Bool) (epoch : ℕ) :
    (w.applyRemoteFlowState paused epoch).Holds
      (fun s => s.flow = w.flow.take { value := paused, stamp := epoch }) (fun _ _ => True)
      fun v => v.flow = w.flow.take { value := paused, stamp := epoch } := by
  rw [applyRemoteFlowState]
  split
  · rename_i hstale
    have hle : ¬ w.flow.stamp < epoch := by
      change ¬ w.remoteFlowEpoch < epoch
      omega
    rw [Stamped.take, if_neg hle]
    exact rfl
  rename_i hfresh
  have hlt : w.flow.stamp < epoch := by
    change w.remoteFlowEpoch < epoch
    omega
  rw [Stamped.take, if_pos hlt]
  dsimp only
  split
  · rename_i hsame
    exact congrArg (fun value => Stamped.mk value epoch) hsame
  split
  · exact flow_writeStateAdmission _
  generalize hset : ({ w with remoteFlowEpoch := epoch, remoteFlowPaused := paused } : Writer) = v
  have hv : v.flow = { value := paused, stamp := epoch } := by
    rw [← hset]
    rfl
  rw [← hv]
  have harm := records_of_under (@checkHwmWithPeerSnapshot_setFlow v.armHwmCreditWait v.flow)
  apply harm.bind
  rintro ⟨ready, u⟩ hu
  cases ready with
  | true | false => exact (flow_writeStateAdmission _).trans hu

end Writer

def Op.recorded (op : Op) (f : Stamped Bool) : Stamped Bool :=
  match op.report with
  | some c => f.take c
  | none => f

theorem Op.program_records (op : Op) (w : Writer) :
    Writer.Records (op.recorded w.flow) (op.program w) := by
  cases hop : op.isFlowState with
  | false =>
    have hnone : op.report = none := by
      cases op with
      | flowState paused epoch => cases hop
      | _ => rfl
    rw [Op.recorded, hnone]
    exact Writer.records_of_under (@Op.program_setFlow w w.flow op rfl hop)
  | true =>
    cases op with
    | flowState paused epoch =>
      apply (Writer.applyRemoteFlowState_records w paused epoch).bind
      exact fun v hv => hv
    | _ => cases hop

namespace WriterThread

def Records (f : Stamped Bool) : WriterThread → Prop
  | idle w => w.flow = f
  | busy _ _ w k => Writer.Records f (.ask w () k)

variable {t : WriterThread} {f : Stamped Bool}

theorem Records.seen (h : t.Records f) : t.seen.flow = f := by
  cases t with
  | idle w => exact h
  | busy op before w k =>
    have hask : Writer.Records f (.ask w () k) := h
    exact (Prog.holds_ask.mp hask).1

theorem records_settle {op : Op} {before : Writer} {p : Access (Bool × Writer)}
    (h : Writer.Records f p) : (settle op before p).Records f := by
  match p with
  | .done (ok, w) => exact h
  | .ask w () k => exact h

end WriterThread

def Event.report : Event → Option (Stamped Bool)
  | .start op => op.report
  | _ => none

namespace Link

def reports (es : List Event) : List (Stamped Bool) :=
  es.filterMap Event.report

theorem step_records {l l' : Link} {e : Event} {f : Stamped Bool} (h : l.writer.Records f)
    (hs : l.step e = some l') : l'.writer.Records ((reports [e]).foldl Stamped.take f) := by
  cases steps_of_step hs with
  | @start op w hw =>
    rw [hw] at h
    obtain rfl : w.flow = f := h
    have hop : (reports [.start op]).foldl Stamped.take w.flow = op.recorded w.flow := by
      cases hreport : op.report with
      | none | some => simp [Op.recorded, reports, Event.report, hreport]
    rw [hop]
    exact WriterThread.records_settle (op.program_records w)
  | @resume op before w k hw =>
    rw [hw] at h
    have hask : Writer.Records f (.ask w () k) := h
    exact WriterThread.records_settle ((Prog.holds_ask.mp hask).2 _ trivial)
  | @deliver w i c hw hc =>
    rw [hw] at h
    have hsame : (w.processActivateWrite c.generation c.ledger).flow = w.flow := by
      rw [Writer.processActivateWrite]
      split
      · dsimp only
        split
        · rfl
        · rfl
      · rfl
    exact hsame.trans h
  | deliverHiccup hw hh =>
    rw [hw] at h
    exact h
  | readDelimiter | hiccup | correlationReleased | plan | applyPlan => exact h
  | read | look =>
    rw [readerTurn_writer]
    exact h

theorem run_records {l l' : Link} {es : List Event} {f : Stamped Bool}
    (h : l.writer.Records f) (hrun : Trace.run step l es = some l') :
    l'.writer.Records ((reports es).foldl Stamped.take f) := by
  induction es generalizing l f with
  | nil => exact Option.some.inj hrun ▸ h
  | cons e es ih =>
    obtain ⟨m, hm, hs⟩ := Option.bind_eq_some_iff.mp hrun
    have hsplit : reports (e :: es) = reports [e] ++ reports es :=
      List.filterMap_append (l := [e])
    rw [hsplit, List.foldl_append]
    exact ih (step_records h hm) hs

end Link

namespace Writer

def Started (w : Writer) : Prop :=
  (∃ m, Frame.data m ∈ w.outPipe.opened) ∨ w.outOwnerMessageStarted = true

theorem Started.not_blocked {w : Writer} (h : w.Started) (he : w.Entered) :
    w.remoteFlowBlocked = false := by
  rw [remoteFlowBlocked]
  rcases h with ⟨m, hm⟩ | howner
  · have hle : (Frame.data m).committedAccountedBytes ≤ dataBytes w.outPipe.opened :=
      List.single_le_sum (fun _ _ => Nat.zero_le _) _ (List.mem_map_of_mem hm)
    have hpos := Frame.accountedBytes_pos (.data m)
    have hbytes : w.outIncompleteBytes ≠ 0 := by
      rw [he.opened]
      exact Nat.ne_of_gt (hpos.trans_le hle)
    simp [hbytes]
  · simp [howner]

theorem writeStateAdmission_of_not_blocked {w : Writer} (h : w.remoteFlowBlocked = false) :
    w.writeStateAdmission.2 = w := by
  rw [writeStateAdmission]
  split
  · rfl
  split
  · rfl
  split
  · rename_i hblocked
    rw [h] at hblocked
    cases hblocked
  split
  · rfl
  · rfl

theorem Started.alike {w : Writer} (h : w.Started) (he : w.Entered) (c : Stamped Bool) :
    w.Alike c := by
  have hentered : (w.setFlow c).Entered := he.congr rfl rfl rfl rfl rfl rfl
  have hstarted : (w.setFlow c).Started := h
  exact (hstarted.not_blocked hentered).trans (h.not_blocked he).symm

theorem Started.pause {w : Writer} (h : w.Started) (he : w.Entered) (epoch : ℕ) :
    w.applyRemoteFlowState true epoch =
      .done (w.setFlow (w.flow.take { value := true, stamp := epoch })) := by
  rw [applyRemoteFlowState]
  split
  · rename_i hstale
    have hle : ¬ w.flow.stamp < epoch := by
      change ¬ w.remoteFlowEpoch < epoch
      omega
    rw [Stamped.take, if_neg hle]
    rfl
  rename_i hfresh
  have hlt : w.flow.stamp < epoch := by
    change w.remoteFlowEpoch < epoch
    omega
  rw [Stamped.take, if_pos hlt]
  dsimp only
  split
  · rename_i hsame
    exact congrArg (fun value => Prog.done (w.setFlow { value := value, stamp := epoch })) hsame
  rw [if_pos (Or.inl rfl)]
  have hfree : (w.setFlow { value := true, stamp := epoch }).remoteFlowBlocked = false :=
    Started.not_blocked h (he.congr rfl rfl rfl rfl rfl rfl)
  exact congrArg Prog.done (writeStateAdmission_of_not_blocked hfree)

end Writer

namespace Link

theorem audited_of_run {x : Audited} {l : Link} {es : List Event}
    (h : Trace.run step x.link es = some l) : ∃ y, x.run es = some y ∧ y.link = l := by
  induction es generalizing x with
  | nil => exact ⟨x, rfl, Option.some.inj h⟩
  | cons e es ih =>
    obtain ⟨m, hm, hs⟩ := Option.bind_eq_some_iff.mp h
    obtain ⟨y, hy, hl⟩ := @ih (x.next e m) hs
    refine ⟨y, ?_, hl⟩
    rw [Audited.run, Trace.run, Audited.step, hm]
    exact hy

theorem paused_eq_latest {hwm : ℕ} {conflate registryAccounting : Bool} {es : List Event}
    {l : Link} (hrun : Trace.run step (init hwm conflate registryAccounting) es = some l)
    {c : Stamped Bool} (hc : c ∈ reports es) (hstamp : c.stamp ≠ 0)
    (hlatest : ∀ d ∈ reports es, d.stamp ≤ c.stamp)
    (hagree : ∀ d ∈ reports es, d.stamp = c.stamp → d.value = c.value) :
    l.writer.seen.remoteFlowPaused = c.value := by
  have hinit : (init hwm conflate registryAccounting).writer.Records
      { value := false, stamp := 0 } := rfl
  have hvalue : l.writer.seen.flow.value = c.value := by
    rw [(run_records hinit hrun).seen]
    exact Stamped.foldl_value hc (Nat.pos_of_ne_zero hstamp) hlatest hagree
  exact hvalue

/-- **Remote flow.** The recorded epoch never falls, and the latest report decides whether
the peer counts as paused. Once a record has started, a pause is recorded and nothing
else, and no record of the peer changes what the operations on it do. -/
theorem run_flow (hwm : ℕ) (conflate registryAccounting : Bool) (es : List Event) (l : Link)
    (hrun : Trace.run step (init hwm conflate registryAccounting) es = some l) :
    (∀ front m, front <+: es →
        Trace.run step (init hwm conflate registryAccounting) front = some m →
        m.writer.seen.remoteFlowEpoch ≤ l.writer.seen.remoteFlowEpoch) ∧
      (∀ c ∈ reports es, c.stamp ≠ 0 → (∀ d ∈ reports es, d.stamp ≤ c.stamp) →
        (∀ d ∈ reports es, d.stamp = c.stamp → d.value = c.value) →
        l.writer.seen.remoteFlowPaused = c.value) ∧ ∀ w, l.writer = .idle w → w.Started →
        (∀ epoch, (Op.flowState true epoch).program w =
          .done (true, w.setFlow (w.flow.take { value := true, stamp := epoch }))) ∧
        ∀ (c : Stamped Bool) (op : Op), op.isFlowState = false →
          op.program (w.setFlow c) = Writer.under c (op.program w) := by
  have hinit : (init hwm conflate registryAccounting).writer.Records
      { value := false, stamp := 0 } := rfl
  refine ⟨?_, ?_, ?_⟩
  · rintro front m ⟨rest, rfl⟩ hfront
    rw [Trace.run_append hfront] at hrun
    have hm := run_records hinit hfront
    have hl := (run_records hm hrun).seen
    have hle : m.writer.seen.flow.stamp ≤ l.writer.seen.flow.stamp := by
      rw [hl, hm.seen]
      exact Stamped.le_foldl
    exact hle
  · exact fun c hc hstamp hlatest hagree => paused_eq_latest hrun hc hstamp hlatest hagree
  · intro w hw hstarted
    obtain ⟨y, hy, rfl⟩ :=
      @audited_of_run (Audited.init hwm conflate registryAccounting) l es hrun
    have hok := (Audited.ok_init hwm conflate registryAccounting).run hy
    have hwithin := hok.writing
    rw [hw] at hwithin
    constructor
    · intro epoch
      rw [Op.program, hstarted.pause hwithin.2]
      rfl
    · intro c op hop
      exact Op.program_setFlow (hstarted.alike hwithin.2 c) hop

/-- A record of which one part is written, and reports that arrive out of order and
twice. -/
def reordered : List Event :=
  [.start (.flowState false 2),
   .start (.write .perFrame { flags := Msg.more, data := [1], requestReply := none } []),
   .resume, .start (.flowState true 5), .start (.flowState false 4),
   .start (.flowState true 5)]

theorem reordered_runs : (Trace.run step (init 0 false false) reordered).isSome = true := by
  decide +kernel

theorem run_flow_reordered : ∃ l, Trace.run step (init 0 false false) reordered = some l ∧
      l.writer.seen.remoteFlowPaused = true :=
  ⟨_, (Option.some_get reordered_runs).symm,
    (run_flow 0 false false reordered _ (Option.some_get reordered_runs).symm).2.1
      { value := true, stamp := 5 } (by decide) (by decide) (by decide) (by decide)⟩

/-- A report without an epoch is not recorded. -/
theorem flow_unstamped :
    ¬ ∀ (hwm : ℕ) (conflate registryAccounting : Bool) (es : List Event) (l : Link),
      Trace.run step (init hwm conflate registryAccounting) es = some l →
        ∀ c ∈ reports es, (∀ d ∈ reports es, d.stamp ≤ c.stamp) →
          l.writer.seen.remoteFlowPaused = c.value := by
  intro h
  have hpaused := h 0 false false [.start (.flowState true 0)] _ rfl
    { value := true, stamp := 0 } (by decide) (by decide)
  exact absurd hpaused (by decide)

end Link

end Zlink.Pipe
