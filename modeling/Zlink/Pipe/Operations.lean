import Zlink.Pipe.Effects

/-!
# The rules for records, reservations and every operation

The complete-record path and the decoder's reservations beside the single frames,
and then one rule for all operations of the writing end.
-/

namespace Zlink.Pipe

open Protocol Suspension

namespace Writer

variable {R : Ledger → Prop} {w v u : Writer}

def bytesOf (parts : List Frame) : ℕ :=
  (parts.map Frame.accountedBytes).sum

structure Recorded (R : Ledger → Prop) (w : Writer) (parts : List Frame)
    (v : Writer) : Prop where
  whole : recordWellFormed parts = true
  raised : Raised R w v
  hwm : v.hwm = w.hwm
  conflate : v.conflate = w.conflate
  outGeneration : v.outGeneration = w.outGeneration
  reservation : v.reservation = w.reservation
  decoder : v.decoderMultipartStartedEmpty = w.decoderMultipartStartedEmpty
  flushed : w.outPipe.flushed <+: v.outPipe.flushed
  committed : v.outPipe.committed = w.outPipe.committed ++ (w.outPipe.opened ++ parts)
  opened : v.outPipe.opened = []
  bytesWritten : v.bytesWritten = satAdd w.bytesWritten (w.outIncompleteBytes + bytesOf parts)
  incomplete : v.outIncompleteBytes = 0
  started : v.outMultipartStartedEmpty = false

variable {parts : List Frame} {bytes size total : ℕ}

theorem recordBytes_eq {payload : ℕ}
    (h : recordBytes parts bytes payload = some (total, size)) : total = bytes + bytesOf parts := by
  induction parts generalizing bytes payload with
  | nil =>
    simp only [recordBytes, Option.some.injEq, Prod.mk.injEq] at h
    simp [bytesOf, h.1]
  | cons m ms ih =>
    rw [recordBytes] at h
    split at h
    · simp at h
    · rw [ih h]
      simp [bytesOf, Nat.add_assoc]

theorem recordBytes_payload_le {payload : ℕ}
    (h : recordBytes parts bytes payload = some (total, size)) : payload ≤ size := by
  induction parts generalizing bytes payload with
  | nil =>
    simp only [recordBytes, Option.some.injEq, Prod.mk.injEq] at h
    exact h.2.le
  | cons m ms ih =>
    rw [recordBytes] at h
    split at h
    · simp at h
    · exact (Nat.le_add_right _ _).trans (ih h)

variable {m : Frame}

theorem not_oversized_of_recordBytes {ms : List Frame} {max : ℕ}
    (h : recordBytes (m :: ms) w.outIncompleteBytes w.outIncompletePayloadBytes =
      some (total, size)) (hmax : max = 0 ∨ size ≤ max) : ¬ w.Oversized m max ∧
      recordBytes ms (w.outIncompleteBytes + m.accountedBytes)
        (w.outIncompletePayloadBytes + m.size) = some (total, size) := by
  rw [recordBytes] at h
  split at h
  · simp at h
  case isFalse hfit =>
    have hle := recordBytes_payload_le h
    refine ⟨?_, h⟩
    rintro (hover | hover | hover)
    · simp only [appendOverflows, Bool.or_eq_true, decide_eq_true_eq] at hover
      exact hfit (hover.imp_right Or.inl)
    · exact hfit (.inr (.inr hover))
    · omega

theorem writeParts_runs {max : ℕ}
    (hparts : recordWellFormed parts = true) (hconf : w.conflate = false)
    (h : recordBytes parts w.outIncompleteBytes w.outIncompletePayloadBytes =
      some (total, size)) (hmax : max = 0 ∨ size ≤ max) :
    Runs R w (w.writeParts max parts) (Recorded R w parts) := by
  induction parts generalizing w with
  | nil => simp [recordWellFormed] at hparts
  | cons m ms ih =>
    obtain ⟨hsize, hrest⟩ := not_oversized_of_recordBytes h hmax
    rw [writeParts]
    apply (writeMessage_runs m false false max []).bind
    rintro ⟨admission, v⟩ hv
    have hready := hv.unenforced rfl hsize
    have hacc := hv.taken hready
    cases ms with
    | nil =>
      -- The last part commits the record.
      have hmore : m.more = false ∧ m.isDelimiter = false := by
        simp only [recordWellFormed, Bool.and_eq_true, Bool.not_eq_true'] at hparts
        exact ⟨hparts.1.1.1, hparts.1.1.2⟩
      obtain ⟨hbytes, hzero, hflag⟩ := hacc.enters (Frame.commits_iff.mpr hmore)
      refine Runs.pure ?_
      constructor
      · exact hparts
      · exact hacc.raised
      · exact hacc.hwm
      · exact hacc.conflate
      · exact hacc.outGeneration
      · exact hacc.reservation
      · exact hacc.decoder
      · exact hacc.queues.flushed
      · simpa [hmore.1] using hacc.queues.committed
      · simpa [hmore.1] using hacc.queues.opened
      · rw [hbytes, replacedBytes, hconf]
        simp [bytesOf]
      · exact hzero
      · exact hflag
    | cons m' ms' =>
      have hmore : m.more = true := by
        simp only [recordWellFormed, Bool.and_eq_true] at hparts
        exact hparts.1.1.1.1
      have htail : recordWellFormed (m' :: ms') = true := by
        rw [recordWellFormed] at hparts
        · exact (Bool.and_eq_true _ _ ▸ hparts).2
        · simp
      have hshow := hv.shows_more hready hmore
      obtain ⟨-, hinc, hpayload, -⟩ := hacc.waits (Frame.commits_of_more hmore)
      rw [← hinc, ← hpayload] at hrest
      apply (Runs.of_shows hshow (ih htail (hacc.conflate.trans hconf) hrest)).imp
      intro u hu
      constructor
      · exact hparts
      · exact hacc.raised.trans hu.raised
      · exact hu.hwm.trans hacc.hwm
      · exact hu.conflate.trans hacc.conflate
      · exact hu.outGeneration.trans hacc.outGeneration
      · exact hu.reservation.trans hacc.reservation
      · exact hu.decoder.trans hacc.decoder
      · exact hacc.queues.flushed.trans hu.flushed
      · rw [hu.committed, hacc.queues.committed, hacc.queues.opened, hmore]
        simp
      · exact hu.opened
      · rw [hu.bytesWritten, hshow.bytesWritten, hinc]
        simp [bytesOf, Nat.add_assoc]
      · exact hu.incomplete
      · exact hu.started

theorem Recorded.of_settles (h : Settles R w v)
    (h' : Recorded R v parts u) : Recorded R w parts u where
  whole := h'.whole
  raised := h.raised.trans h'.raised
  hwm := h'.hwm.trans h.hwm
  conflate := h'.conflate.trans h.conflate
  outGeneration := h'.outGeneration.trans h.outGeneration
  reservation := h'.reservation.trans h.reservation
  decoder := h'.decoder.trans h.decoderMultipartStartedEmpty
  flushed := by
    rw [← h.outPipe]
    exact h'.flushed
  committed := by rw [h'.committed, h.outPipe]
  opened := h'.opened
  bytesWritten := by rw [h'.bytesWritten, h.bytesWritten, h.outIncompleteBytes]
  incomplete := h'.incomplete
  started := h'.started

theorem Recorded.flush (h : Recorded R w parts v) : Recorded R w parts v.flush := by
  have hcommitted := (committed_flush v).trans h.committed
  have hopened := (opened_flush v).trans h.opened
  have hflushed := h.flushed.trans (flushed_flush v)
  rw [flush_eq] at hcommitted hopened hflushed ⊢
  exact { h with
    raised := h.raised.congr rfl
    flushed := hflushed
    committed := hcommitted
    opened := hopened }

/-- The record was afforded without the exception for an empty pipe. -/
def PaysWhole (w : Writer) (parts : List Frame) (v : Writer) : Prop :=
  w.outIncompleteBytes = 0 ∧ (w.hwm = 0 ∨ w.bytesWritten - v.peersBytesRead + bytesOf parts ≤ w.hwm)

theorem tryWriteCompleteRecordAndFlush_runs (parts : List Frame) :
    Runs R w (w.tryWriteCompleteRecordAndFlush parts) (fun x =>
        (x.1 = true → Recorded R w parts x.2 ∧ PaysWhole w parts x.2 ∧ w.conflate = false) ∧
        (x.1 = false → Settles R w x.2)) := by
  rw [tryWriteCompleteRecordAndFlush]
  split
  · exact Runs.pure ⟨fun h => by simp at h, fun _ => Settles.refl w⟩
  have hstate := settles_writeStateAdmission (R := R) (w := w)
  split
  case h_1 admission v heq =>
    rw [heq] at hstate
    split
    · exact Runs.pure ⟨fun h => by simp at h, fun _ => hstate⟩
    case isFalse hok =>
      push Not at hok
      obtain ⟨-, hb, hparts⟩ := hok
      have hboundary : v.atRecordBoundary = true := by simpa using hb
      have hwf : recordWellFormed parts = true := by simpa using hparts
      obtain ⟨-, hconf, hzero, hpay, -⟩ := atRecordBoundary_iff.mp hboundary
      split
      · exact Runs.pure ⟨fun h => by simp at h, fun _ => hstate⟩
      case h_2 bytes payload hrec =>
        split
        · exact Runs.pure ⟨fun h => by simp at h, fun _ => hstate⟩
        case isFalse hmax =>
          apply (Runs.of_shows hstate.shows (canCommitBytesWithPeerSnapshot_runs ..)).bind
          rintro ⟨ready, u⟩ ⟨hu, hready⟩
          have hwu := hstate.trans hu
          cases ready with
          | false =>
            exact Runs.pure ⟨fun h => by simp at h, fun _ => hwu⟩
          | true =>
            have hrec' : recordBytes parts u.outIncompleteBytes
                u.outIncompletePayloadBytes = some (bytes, payload) := by
              rw [hu.outIncompleteBytes, hu.outIncompletePayloadBytes, hzero, hpay]
              exact hrec
            have hmax' : u.maxMessageBytes = 0 ∨ payload ≤ u.maxMessageBytes := by
              rw [hu.maxMessageBytes]
              by_contra hno
              push Not at hno
              exact hmax hno
            apply (Runs.of_shows hwu.shows (writeParts_runs hwf
              (hu.conflate.trans hconf) hrec' hmax')).bind
            intro t ht
            refine Runs.pure ⟨fun _ => ⟨(ht.of_settles hwu).flush, ?_, ?_⟩, fun h => by simp at h⟩
            · constructor
              · rw [← hstate.outIncompleteBytes, hzero]
              · have hafford := hready rfl
                have htotal := recordBytes_eq hrec
                have hraise := ht.raised.bytes_le
                rw [Affords, inFlight_eq, hwu.hwm, hwu.bytesWritten]
                  at hafford
                rw [flush_eq]
                simp only [Bool.false_eq_true, false_and, or_false]
                  at hafford
                refine hafford.imp_right fun hfit => ?_
                dsimp only at hfit hraise ⊢
                omega
            · rw [← hstate.conflate, hconf]

/-- The decoder was promised a frame: the record in progress stays as it is, and a
last part fits, or belongs to a message that started on an empty pipe. -/
structure Reserves (R : Ledger → Prop) (w : Writer) (payloadBytes : ℕ)
    (msgFlags : UInt8) (track : Bool) (v : Writer) : Prop where
  raised : Raised R w v
  hwm : v.hwm = w.hwm
  conflate : v.conflate = w.conflate
  outGeneration : v.outGeneration = w.outGeneration
  bytesWritten : v.bytesWritten = w.bytesWritten
  incomplete : v.outIncompleteBytes = w.outIncompleteBytes
  started : v.outMultipartStartedEmpty = w.outMultipartStartedEmpty
  outPipe : v.outPipe = w.outPipe
  free : w.reservation = none
  reservation : ∃ r, v.reservation = some r ∧ r.payloadBytes = payloadBytes ∧
    r.msgFlags = msgFlags ∧ r.frameBytes = satAdd payloadBytes Frame.metadataBytes
  decoder : v.decoderMultipartStartedEmpty = true → w.decoderMultipartStartedEmpty = true ∨
      (track = true ∧ w.outIncompleteBytes = 0 ∧ w.bytesWritten ≤ v.peersBytesRead)
  pays : hasAny msgFlags Msg.more = false → w.hwm = 0 ∨ w.bytesWritten - v.peersBytesRead +
          satAdd w.outIncompleteBytes (satAdd payloadBytes Frame.metadataBytes) ≤
        w.hwm ∨
      w.decoderMultipartStartedEmpty = true ∨
      (w.outIncompleteBytes = 0 ∧ w.bytesWritten ≤ v.peersBytesRead)

def Answered (R : Ledger → Prop) (w : Writer) (payloadBytes : ℕ) (msgFlags : UInt8)
    (track : Bool) (x : Bool × Writer) : Prop :=
  (x.1 = true → Reserves R w payloadBytes msgFlags track x.2) ∧ (x.1 = false → Settles R w x.2)

theorem inFlight_add_le_of_hasByteCredit {candidate : ℕ} (h : w.hasByteCredit candidate = true) :
    w.inFlight + candidate ≤ w.hwm := by
  simp only [hasByteCredit, Bool.and_eq_true, decide_eq_true_eq] at h
  omega

theorem grantReservation_answered {payloadBytes : ℕ} {msgFlags : UInt8}
    {track startedEmpty : Bool} (hv : Settles R w v) (hstarted : startedEmpty = true →
      w.decoderMultipartStartedEmpty = true ∨
        (w.outIncompleteBytes = 0 ∧ w.bytesWritten ≤ v.peersBytesRead))
    (hpays : w.hwm = 0 ∨ (!hasAny msgFlags Msg.more && startedEmpty) = true ∨
      v.hasByteCredit (satAdd w.outIncompleteBytes
        (satAdd payloadBytes Frame.metadataBytes)) = true) :
    Answered R w payloadBytes msgFlags track
      (v.grantReservation payloadBytes msgFlags track startedEmpty) := by
  rw [grantReservation]
  split
  · exact ⟨fun h => by simp at h, fun _ => hv⟩
  split
  · exact ⟨fun h => by simp at h, fun _ => hv⟩
  case isFalse hres _ =>
    refine ⟨fun _ => ?_, fun h => by simp at h⟩
    constructor
    · exact hv.raised.congr rfl
    · exact hv.hwm
    · exact hv.conflate
    · exact hv.outGeneration
    · exact hv.bytesWritten
    · exact hv.outIncompleteBytes
    · exact hv.outMultipartStartedEmpty
    · exact hv.outPipe
    · rw [← hv.reservation]
      simpa using hres
    · exact ⟨_, rfl, rfl, rfl, rfl⟩
    · intro hd
      dsimp only at hd
      split at hd
      case isTrue hm =>
        rw [Bool.and_eq_true] at hm
        exact (hstarted hd).imp_right fun h => ⟨hm.1, h⟩
      case isFalse _ => exact .inl (hv.decoderMultipartStartedEmpty ▸ hd)
    · intro hmore
      rcases hpays with hzero | hempty | hfits
      · exact .inl hzero
      · rw [hmore] at hempty
        exact .inr (.inr (hstarted (by simpa using hempty)))
      · have := inFlight_add_le_of_hasByteCredit hfits
        rw [inFlight_eq, hv.bytesWritten, hv.hwm] at this
        exact .inr (.inl this)

theorem reserveInboundDecoderFrame_runs (payloadBytes : ℕ) (msgFlags : UInt8) (track : Bool) :
    Runs R w (w.reserveInboundDecoderFrame payloadBytes msgFlags track)
      (Answered R w payloadBytes msgFlags track) := by
  rw [reserveInboundDecoderFrame]
  split
  · exact Runs.pure ⟨fun h => by simp at h, fun _ => Settles.refl w⟩
  dsimp only
  set startedEmpty := track && (w.decoderMultipartStartedEmpty ||
    (w.outIncompleteBytes == 0 && decide (w.bytesWritten ≤ w.peersBytesRead)))
    with hse
  have hstarted : ∀ {v : Writer}, Settles R w v → startedEmpty = true →
      w.decoderMultipartStartedEmpty = true ∨
        (w.outIncompleteBytes = 0 ∧ w.bytesWritten ≤ v.peersBytesRead) := by
    intro v hv hs
    simp only [hse, Bool.and_eq_true, Bool.or_eq_true, beq_iff_eq, decide_eq_true_eq] at hs
    exact hs.2.imp_right fun h => ⟨h.1, h.2.trans hv.raised.bytes_le⟩
  split
  case isTrue h =>
    exact Runs.pure (grantReservation_answered (Settles.refl w) (hstarted (Settles.refl w)) h)
  apply Runs.poll (Settles.refl w).shows
  intro l hl
  have hv := settles_refresh (w := w) hl
  set v := w.refreshPeerCreditSnapshot l with hvdef
  have hstarted' : ∀ {u : Writer}, Settles R v u →
      (startedEmpty || (track && v.outIncompleteBytes == 0 &&
        decide (v.bytesWritten ≤ v.peersBytesRead))) = true →
      w.decoderMultipartStartedEmpty = true ∨
        (w.outIncompleteBytes = 0 ∧ w.bytesWritten ≤ u.peersBytesRead) := by
    intro u hu hs
    rw [Bool.or_eq_true] at hs
    rcases hs with hs | hs
    · exact hstarted (hv.trans hu) hs
    · simp only [Bool.and_eq_true, beq_iff_eq, decide_eq_true_eq] at hs
      exact .inr ⟨hs.1.2, hs.2.trans hu.raised.bytes_le⟩
  split
  case isTrue h =>
    exact Runs.pure (grantReservation_answered hv (hstarted' (Settles.refl v)) (.inr h))
  have harm := hv.trans settles_arm
  apply Runs.poll harm.shows
  intro l' hl'
  have hu := settles_refresh (w := v.armHwmCreditWait) hl'
  split
  case isTrue h =>
    exact Runs.pure (grantReservation_answered ((harm.trans hu).trans settles_clear)
      (hstarted' ((settles_arm.trans hu).trans settles_clear))
      (.inr (.inr h)))
  case isFalse h =>
    exact Runs.pure ⟨fun h => by simp at h, fun _ => harm.trans hu⟩

structure Pushed (w : Writer) (m : Frame) (replaced : List Frame) (v : Writer)
    (bytes : ℕ) : Prop where
  msgs : v.peersMsgsRead = w.peersMsgsRead
  credit : v.peersBytesRead = w.peersBytesRead
  hwm : v.hwm = w.hwm
  conflate : v.conflate = w.conflate
  outGeneration : v.outGeneration = w.outGeneration
  state : v.state = w.state
  held : v.transportPairWriteHeld = w.transportPairWriteHeld
  marks : v.outActive = w.outActive ∧ v.waitingForByteCredit = w.waitingForByteCredit
  reservation : v.reservation = none
  queues : Queues w m v
  counted : bytes ≤ uint64Max - w.outIncompleteBytes
  waits : m.commits = false →
    v.bytesWritten = w.bytesWritten - (if m.more then 0 else w.replacedBytes replaced) ∧
      v.outIncompleteBytes = w.outIncompleteBytes + bytes ∧
      v.outMultipartStartedEmpty = w.outMultipartStartedEmpty ∧
      v.decoderMultipartStartedEmpty = w.decoderMultipartStartedEmpty
  enters : m.commits = true → w.Enters (w.outIncompleteBytes + bytes) replaced v ∧
      v.decoderMultipartStartedEmpty = false

theorem Pushed.credit_eq {replaced : List Frame}
    (h : Pushed w m replaced v bytes) : v.credit = w.credit := by
  rw [Writer.credit, Writer.credit, h.msgs, h.credit]

theorem settleReserved_pushed (size : ℕ)
    (replaced : List Frame) (h : bytes ≤ uint64Max - w.outIncompleteBytes) : Pushed w m replaced
      ({ w with reservation := none }.settleReserved m bytes size replaced) bytes := by
  set grown : Writer :=
    { w with
      reservation := none
      outIncompleteBytes := w.outIncompleteBytes + bytes
      outIncompletePayloadBytes := w.outIncompletePayloadBytes + size } with hg
  obtain ⟨msgs, hpub⟩ := publishOutboundFrame_eq (w := grown) m replaced
  rw [settleReserved]
  change Pushed w m replaced (if m.commits then
      { (grown.publishOutboundFrame m replaced).commitRecord m with
        decoderMultipartStartedEmpty := false }
    else grown.publishOutboundFrame m replaced) bytes
  rw [hpub]
  split
  case isTrue hc =>
    have hmore := (Frame.commits_iff.mp hc).1
    constructor
    · rfl
    · rfl
    · rfl
    · rfl
    · rfl
    · rfl
    · rfl
    · exact ⟨rfl, rfl⟩
    · rfl
    · exact queues_of_eq rfl
    · exact h
    · intro hno
      rw [hc] at hno
      exact absurd hno (by simp)
    · intro _
      refine ⟨⟨?_, rfl, rfl⟩, rfl⟩
      simp [commitRecord, hmore, hg, replacedBytes]
  case isFalse hc =>
    constructor
    · rfl
    · rfl
    · rfl
    · rfl
    · rfl
    · rfl
    · rfl
    · exact ⟨rfl, rfl⟩
    · rfl
    · exact queues_of_eq rfl
    · exact h
    · intro _
      refine ⟨?_, rfl, rfl, rfl⟩
      cases m.more <;> rfl
    · intro hyes
      exact absurd hyes hc

theorem writeReservedDecoderFrame_spec (m : Frame) (replaced : List Frame) :
    (∃ r bytes v, w.reservation = some r ∧ r.payloadBytes = m.size ∧
        r.msgFlags = m.flags ∧ (bytes = m.accountedBytes ∨ bytes = r.frameBytes) ∧
        w.writeReservedDecoderFrame m replaced = (true, v) ∧ Pushed w m replaced v bytes) ∨
      w.writeReservedDecoderFrame m replaced = (false, w.releaseDecoderFrameReservation) := by
  rw [writeReservedDecoderFrame, releaseDecoderFrameReservation]
  split
  case h_1 hnone =>
    right
    rw [← hnone]
  case h_2 r hr =>
    dsimp only
    split
    · exact .inr rfl
    split
    · exact .inr rfl
    case isFalse hsame =>
      push Not at hsame
      split
      · exact .inr rfl
      split
      · exact .inr rfl
      split
      · split
        · exact .inr rfl
        case isFalse hover =>
          have hfit : m.accountedBytes ≤ uint64Max - w.outIncompleteBytes := by
            simp only [appendOverflows, Bool.or_eq_true, decide_eq_true_eq]
              at hover
            omega
          exact .inl ⟨r, m.accountedBytes, _, hr, hsame.1, hsame.2, .inl rfl,
            rfl, settleReserved_pushed m.size replaced hfit⟩
      · split
        · exact .inr rfl
        case isFalse hover =>
          have hfit : r.frameBytes ≤ uint64Max - w.outIncompleteBytes := by
            omega
          exact .inl ⟨r, r.frameBytes, _, hr, hsame.1, hsame.2, .inr rfl,
            rfl, settleReserved_pushed m.size replaced hfit⟩

theorem settles_takeHwmCreditRecovery : Settles R w w.takeHwmCreditRecovery := by
  rw [takeHwmCreditRecovery]
  split
  · exact settles_marks rfl rfl
  · exact Settles.refl w

theorem settles_refreshWriteCredit {l : Ledger} (hl : R l) :
    Settles R w (w.refreshWriteCredit l) := by
  rw [refreshWriteCredit]
  split
  · exact (settles_refresh hl).trans settles_clear
  · exact settles_refresh hl

end Writer

namespace Op

open Writer

variable {R : Ledger → Prop} {w : Writer}

def Post (R : Ledger → Prop) (w : Writer) (op : Op) (x : Bool × Writer) : Prop :=
  match op with
  | checkWrite | checkPublishRecordHwm | admitOwnerMessageStart | holdWrites
  | releaseWrites | flowState _ _ | takeHwmCreditRecovery | refreshWriteCredit => Settles R w x.2
  | write _ m replaced =>
    (x.1 = true → Accepted R w (.data m) replaced x.2 ∧ Pays w (.data m) x.2) ∧
      (x.1 = false → Settles R w x.2)
  | completeRecord parts =>
    (x.1 = true → Recorded R w parts x.2 ∧ PaysWhole w parts x.2 ∧ w.conflate = false) ∧
      (x.1 = false → Settles R w x.2)
  | reserve payloadBytes msgFlags recvRoutingId =>
    Answered R w payloadBytes msgFlags (!hasAny msgFlags Msg.routingId || recvRoutingId) x
  | flush => x = (true, w.flush)
  | rollback => x = (true, w.rollback)
  | push m recvRoutingId replaced => x = w.pushDecoded (.data m) recvRoutingId replaced
  | engineError => x = (true, w.engineError)
  | setHwm hwm => x = (true, { w with hwm })
  | setMaxMessageBytes maxMessageBytes => x = (true, { w with maxMessageBytes })
  | terminate delay => x = (true, w.terminate delay)
  | retire state => x = (true, w.transitionToInactiveState state)

theorem offer_post {entry : Entry} {m : Msg} {replaced : List Frame}
    {x : Admission × Writer} (h : Offer R w (.data m) replaced x) :
    Post R w (write entry m replaced) (decide (x.1 = .ready), x.2) := by
  refine ⟨fun hx => h.taken ?_, fun hx => h.refused ?_⟩
  · exact of_decide_eq_true hx
  · exact of_decide_eq_false hx

theorem runs (op : Op) : Runs R w (op.program w) (op.Post R w) := by
  cases op with
  | checkWrite => exact admitWrite_runs.bind fun x hx => Runs.pure hx
  | checkPublishRecordHwm =>
    exact checkPublishRecordHwm_runs.bind fun x hx => Runs.pure hx
  | admitOwnerMessageStart =>
    exact admitOwnerMessageStart_runs.bind fun x hx => Runs.pure hx
  | write entry m replaced =>
    exact (writeVia_offer entry (.data m) replaced).bind fun x hx => Runs.pure (offer_post hx)
  | completeRecord parts => exact tryWriteCompleteRecordAndFlush_runs parts
  | reserve payloadBytes msgFlags recvRoutingId =>
    exact reserveInboundDecoderFrame_runs payloadBytes msgFlags _
  | holdWrites => exact Runs.pure (settles_marks rfl rfl)
  | releaseWrites =>
    exact releaseWritesForTransportPair_runs.bind fun x hx => Runs.pure hx
  | flowState paused epoch =>
    exact (applyRemoteFlowState_runs paused epoch).bind fun x hx => Runs.pure hx
  | takeHwmCreditRecovery => exact Runs.pure settles_takeHwmCreditRecovery
  | refreshWriteCredit =>
    exact Runs.poll (Settles.refl w).shows fun l hl => Runs.pure (settles_refreshWriteCredit hl)
  | flush | rollback | push | engineError | setHwm | setMaxMessageBytes | terminate | retire =>
    exact Runs.pure rfl

end Op

end Zlink.Pipe
