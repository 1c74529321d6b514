import Zlink.Pipe.Sender

/-!
# A complete record against its frames

`tryWriteCompleteRecordAndFlush` looks at the mark once, for the whole record, and then writes the
parts without looking. Writing frame by frame looks at every frame. What the loads of the reader's
ledger find decides how much credit the writer knows of, and nothing else of what it leaves behind.
-/

namespace Zlink.Pipe

open Protocol Suspension Writer

/-- The writer without the credit that it knows of, and without the mark of the record in progress
that depends on it. -/
def Writer.forget (w : Writer) : Writer :=
  { w with peersMsgsRead := 0, peersBytesRead := 0, outMultipartStartedEmpty := false }

def Writer.withCredit (w : Writer) (credit : Ledger) : Writer :=
  { w with peersMsgsRead := credit.msgs, peersBytesRead := credit.bytes }

def Writer.withMarks (w : Writer) (credit : Ledger) (waits : Bool) : Writer :=
  { w.withCredit credit with waitingForByteCredit := waits }

def Writer.grow (w : Writer) (m : Frame) : Writer :=
  { w with
    outIncompleteBytes := w.outIncompleteBytes + m.accountedBytes
    outIncompletePayloadBytes := w.outIncompletePayloadBytes + m.size }

namespace Sender

def forget (s : Sender) : Sender :=
  s.withWriter s.writer.forget

def withCredit (s : Sender) (credit : Ledger) : Sender :=
  s.withWriter (s.writer.withCredit credit)

def withMarks (s : Sender) (credit : Ledger) (waits : Bool) : Sender :=
  s.withWriter (s.writer.withMarks credit waits)

def enter (s : Sender) (m : Frame) : Sender :=
  ((s.withWriter ((s.writer.grow m).settleFrame m [])).chargeFrame s.writer m
    false).publishOutboundAccounting (m.more || s.writer.outIncompleteBytes != 0)

end Sender

variable {R : Ledger → Prop} {w v : Writer} {s t : Sender} {m : Frame} {ms : List Frame}
  {b c l : Ledger} {max total size : ℕ} {e i : Bool}

theorem Writer.forget_settleFrame (w : Writer) (m : Frame) :
    (w.settleFrame m []).forget = w.forget.settleFrame m [] := by
  have hpublish : (w.publishOutboundFrame m []).forget = w.forget.publishOutboundFrame m [] := by
    rw [publishOutboundFrame, publishOutboundFrame]
    change Writer.forget (if (!w.conflate || m.more) = true then _ else _) =
      if (!w.conflate || m.more) = true then _ else _
    split <;> rfl
  rw [settleFrame, settleFrame]
  split
  · rw [← hpublish]
    rfl
  · exact hpublish

theorem Sender.forget_chargeFrame (s : Sender) (w : Writer) (m : Frame) (oversize : Bool) :
    (s.chargeFrame w m oversize).forget = s.forget.chargeFrame w.forget m oversize := by
  rw [chargeFrame, chargeFrame]
  change _ = if !w.registryAccounting then _ else _
  split_ifs <;> rfl

theorem Sender.forget_publish (s : Sender) (changed : Bool) :
    (s.publishOutboundAccounting changed).forget = s.forget.publishOutboundAccounting changed := rfl

theorem Sender.forget_enter (s : Sender) (m : Frame) : (s.enter m).forget = s.forget.enter m := by
  have hsettle := (s.writer.grow m).forget_settleFrame m
  rw [enter, forget_publish, forget_chargeFrame, enter]
  change ((s.withWriter ((s.writer.grow m).settleFrame m []).forget).chargeFrame _ _
    _).publishOutboundAccounting _ = _
  rw [hsettle]
  rfl

variable {bytes payload : ℕ}

theorem hwm_of_canCommitBytes (h : w.canCommitBytes bytes payload false max = true) :
    w.hwm = 0 ∨ w.inFlight + bytes ≤ w.hwm := by
  rcases affords_of_canCommitBytes h with hzero | hfits | ⟨hno, -⟩
  · exact .inl hzero
  · exact .inr hfits
  · cases hno

variable {allowEmpty : Bool}

theorem canCommitBytes_iff : w.canCommitBytes bytes payload allowEmpty max = true ↔
      ¬(max ≠ 0 ∧ max < payload) ∧ (w.hwm = 0 ∨ (allowEmpty = true ∧ w.inFlight = 0) ∨
        ¬uint64Max - w.inFlight < bytes ∧ w.inFlight + bytes ≤ w.hwm) := by
  rw [canCommitBytes]
  split_ifs with hmax hzero hempty hover
  · simp [hmax]
  · simp [hmax, hzero]
  · simp [hmax, hempty]
  all_goals simp [hmax, hzero, hempty, hover]

theorem canCommitBytes_mono {bytes' payload' : ℕ}
    (h : w.canCommitBytes bytes payload false max = true) (hbytes : bytes' ≤ bytes)
    (hpayload : payload' ≤ payload) (hhwm : v.hwm = w.hwm) (hflight : v.inFlight ≤ w.inFlight) :
    v.canCommitBytes bytes' payload' allowEmpty max = true := by
  rw [canCommitBytes_iff] at h ⊢
  obtain ⟨hmax, hfits⟩ := h
  refine ⟨fun hover => hmax ⟨hover.1, hover.2.trans_le hpayload⟩, ?_⟩
  rw [hhwm]
  rcases hfits with hzero | ⟨hno, -⟩ | ⟨hroom, hfits⟩
  · exact .inl hzero
  · cases hno
  · exact .inr (.inr ⟨by omega, by omega⟩)

theorem checkHwm_of_canCommitBytes
    (h : w.canCommitBytes bytes payload false max = true) (hbytes : 0 < bytes) :
    w.checkHwm = true := by
  rw [checkHwm, Bool.not_eq_true', Bool.and_eq_false_iff, decide_eq_false_iff_not,
    decide_eq_false_iff_not]
  rcases hwm_of_canCommitBytes h with hzero | hfits
  · exact .inl (by omega)
  · exact .inr (by omega)

theorem credit_settleFrame (w : Writer) (m : Frame) : (w.settleFrame m []).credit = w.credit := by
  rw [settleFrame, publishOutboundFrame]
  split_ifs <;> rfl

theorem started_settleFrame (hcommits : m.commits = true) :
    (w.settleFrame m []).outMultipartStartedEmpty = false := by
  rw [settleFrame, if_pos hcommits]
  rfl

theorem awaitCommitCredit_of_canCommitBytes
    (h : w.canCommitBytes bytes payload allowEmpty max = true) :
    w.awaitCommitCredit bytes payload allowEmpty max = pure (true, w) := by
  rw [awaitCommitCredit, canCommitBytesWithPeerSnapshot, if_pos h]
  rfl

/-- What came of a frame that has to be taken: `b` bounds the credit from below. -/
structure Taken (R : Ledger → Prop) (b : Ledger) (w : Writer) (m : Frame)
    (x : Admission × Writer) : Prop where
  ready : x.1 = .ready
  eq : x.2.forget = ((w.grow m).settleFrame m []).forget
  bound : b ≤ x.2.credit
  raised : Raised R w x.2
  started : m.commits = true → x.2.outMultipartStartedEmpty = false

theorem taken_settleFrame (hforget : v.forget = (w.grow m).forget) (hbound : b ≤ v.credit)
    (hraised : Raised R w v) : Taken R b w m (.ready, v.settleFrame m []) where
  ready := rfl
  eq := by
    change (v.settleFrame m []).forget = _
    rw [forget_settleFrame, hforget, ← forget_settleFrame]
  bound := hbound.trans_eq (credit_settleFrame v m).symm
  raised := hraised.congr (credit_settleFrame v m)
  started := started_settleFrame

def CreditKnown (R : Ledger → Prop) (w : Writer) (m : Frame) (b : Ledger) : Prop :=
  b ≤ w.credit ∨ (m.more = true ∧ w.outIncompleteBytes = 0 ∧ ∀ l, R l → b ≤ w.credit.join l)

theorem writeMessage_taken (hsize : ¬w.Oversized m max) (hknown : CreditKnown R w m b)
    (hfits : e = true → ∀ (v : Writer) (allowEmpty : Bool), b ≤ v.credit → v.hwm = w.hwm →
      v.bytesWritten = w.bytesWritten → v.canCommitBytes (w.outIncompleteBytes + m.accountedBytes)
        (w.outIncompletePayloadBytes + m.size) allowEmpty max = true) :
    (w.writeMessage m e i max []).Holds (fun _ => True) (fun _ => R) (Taken R b w m) := by
  rw [Oversized, not_or, not_or] at hsize
  obtain ⟨happend, hpayload, hmax⟩ := hsize
  rw [writeMessage, if_neg happend, if_neg hpayload, if_neg hmax]
  dsimp only
  apply Prog.Holds.bind (P := fun v : Writer => v.forget = (w.grow m).forget ∧ b ≤ v.credit ∧
    Raised R w v ∧ v = { w.grow m with
      peersMsgsRead := v.peersMsgsRead
      peersBytesRead := v.peersBytesRead
      outMultipartStartedEmpty := v.outMultipartStartedEmpty })
  · rw [startMultipart]
    split
    · rename_i hlater
      have hbound : b ≤ w.credit := by
        rcases hknown with hbound | ⟨hmore, hzero, -⟩
        · exact hbound
        · simp [hmore, hzero] at hlater
      exact ⟨rfl, hbound, (Raised.refl w).congr rfl, rfl⟩
    · refine Prog.Holds.load trivial fun l hl => ⟨rfl, ?_, (raised_refresh hl).congr rfl, rfl⟩
      rcases hknown with hbound | ⟨-, -, hbound⟩
      · exact hbound.trans (Ledger.le_join_left _ _)
      · exact hbound l hl
  · rintro v ⟨hforget, hbound, hraised, heq⟩
    split
    · exact taken_settleFrame hforget hbound hraised
    · rename_i hasks
      have henforced : e = true := by
        cases e
        · simp at hasks
        · rfl
      have hcan := hfits henforced v (!m.more && (w.outIncompleteBytes == 0 ||
        v.outMultipartStartedEmpty)) hbound (by rw [heq]; rfl) (by rw [heq]; rfl)
      have hbytes : v.outIncompleteBytes = w.outIncompleteBytes + m.accountedBytes := by
        rw [heq]
        rfl
      have hpay : v.outIncompletePayloadBytes = w.outIncompletePayloadBytes + m.size := by
        rw [heq]
        rfl
      rw [hbytes, hpay, awaitCommitCredit_of_canCommitBytes hcan]
      exact taken_settleFrame hforget hbound hraised

namespace Sender

theorem holds_within {β : Type} {p : Access (β × Writer)} {P : β × Sender → Prop} :
    (s.within p).Holds (fun _ => True) (fun _ => R) P ↔
      p.Holds (fun _ => True) (fun _ => R) fun x => P (x.1, s.withWriter x.2) :=
  Prog.holds_translate

@[simp] theorem writer_chargeFrame (s : Sender) (w : Writer) (m : Frame) (oversize : Bool) :
    (s.chargeFrame w m oversize).writer = s.writer := by
  rw [chargeFrame]
  split_ifs <;> rfl

@[simp] theorem writer_releaseReplaced (s : Sender) (m : Frame) (replaced : List Frame) :
    (s.releaseReplaced m replaced).writer = s.writer := by
  rw [releaseReplaced]
  split <;> rfl

theorem writer_accountFrame (s : Sender) (w : Writer) (m : Frame) (replaced : List Frame) :
    (s.accountFrame w m replaced).writer = s.writer := by
  rw [accountFrame]
  split
  all_goals exact (writer_releaseReplaced _ _ _).trans (writer_chargeFrame _ _ _ _)

theorem releaseReplaced_nil (s : Sender) (m : Frame) : s.releaseReplaced m [] = s := by
  rw [releaseReplaced]
  split <;> rfl

theorem exceedsMark_eq_false {inFlight messageBytes : ℕ} (hsize : messageBytes ≤ uint64Max)
    (hmark : w.hwm = 0 ∨ messageBytes ≤ w.hwm) : exceedsMark w inFlight messageBytes = false := by
  rw [exceedsMark, Bool.eq_false_iff]
  intro hexceeds
  simp only [Bool.and_eq_true, Bool.or_eq_true, decide_eq_true_eq] at hexceeds
  omega

theorem accountFrame_eq (hsize : w.outIncompleteBytes + m.accountedBytes ≤ uint64Max)
    (hmark : w.hwm = 0 ∨ w.outIncompleteBytes + m.accountedBytes ≤ w.hwm) :
    s.accountFrame w m [] = (s.chargeFrame w m false).publishOutboundAccounting
      (m.more || w.outIncompleteBytes != 0) := by
  rw [accountFrame]
  simp only [exceedsMark_eq_false hsize hmark, Bool.and_false, releaseReplaced_nil,
    Bool.false_eq_true, if_false]

theorem record_le_of_not_oversized (hsize : ¬w.Oversized m max) :
    w.outIncompleteBytes + m.accountedBytes ≤ uint64Max := by
  rw [Oversized, not_or, appendOverflows, Bool.or_eq_true, decide_eq_true_eq,
    decide_eq_true_eq] at hsize
  have hpos := m.accountedBytes_pos
  omega

structure Entered (R : Ledger → Prop) (b : Ledger) (s : Sender) (m : Frame)
    (x : Admission × Sender) : Prop where
  ready : x.1 = .ready
  eq : x.2.forget = s.forget.enter m
  bound : b ≤ x.2.writer.credit
  raised : Raised R s.writer x.2.writer
  started : m.commits = true → x.2.writer.outMultipartStartedEmpty = false

theorem writeMessage_entered (hsize : ¬s.writer.Oversized m max)
    (hmark : s.writer.hwm = 0 ∨ s.writer.outIncompleteBytes + m.accountedBytes ≤ s.writer.hwm)
    (hknown : CreditKnown R s.writer m b)
    (hfits : e = true → ∀ (v : Writer) (allowEmpty : Bool), b ≤ v.credit → v.hwm = s.writer.hwm →
      v.bytesWritten = s.writer.bytesWritten →
      v.canCommitBytes (s.writer.outIncompleteBytes + m.accountedBytes)
        (s.writer.outIncompletePayloadBytes + m.size) allowEmpty max = true) :
    (s.writeMessage m e i max []).Holds (fun _ => True) (fun _ => R) (Entered R b s m) := by
  have hle := record_le_of_not_oversized hsize
  rw [writeMessage]
  apply Prog.Holds.bind (P := fun x : Admission × Sender =>
    ∃ v, x.2 = s.withWriter v ∧ Taken R b s.writer m (x.1, v))
  · rw [holds_within]
    exact (writeMessage_taken hsize hknown hfits).imp fun x hx => ⟨x.2, rfl, hx⟩
  · rintro ⟨admission, t⟩ ⟨v, rfl, htaken⟩
    obtain rfl : admission = .ready := htaken.ready
    have hwriter : ((s.withWriter v).accountFrame s.writer m []).writer = v :=
      writer_accountFrame _ _ _ _
    refine ⟨rfl, ?_, htaken.bound.trans_eq (congrArg credit hwriter.symm),
      htaken.raised.congr (congrArg credit hwriter), fun hcommits =>
        (congrArg outMultipartStartedEmpty hwriter).trans (htaken.started hcommits)⟩
    change ((s.withWriter v).accountFrame s.writer m []).forget = _
    have hforget : (s.withWriter v).forget =
        (s.withWriter ((s.writer.grow m).settleFrame m [])).forget :=
      congrArg s.withWriter htaken.eq
    rw [accountFrame_eq hle hmark, forget_publish, forget_chargeFrame, hforget, ← forget_enter,
      enter, forget_publish, forget_chargeFrame]

/-- What is left of a record that has been found to fit: its frames, and the credit `b` that lets
the whole of it in. -/
structure Fitting (R : Ledger → Prop) (b : Ledger) (max : ℕ) (s : Sender) (ms : List Frame) :
    Prop where
  whole : recordWellFormed ms = true
  known : ∀ m ∈ ms.head?, CreditKnown R s.writer m b
  counted : ∃ total size,
    recordBytes ms s.writer.outIncompleteBytes s.writer.outIncompletePayloadBytes =
      some (total, size) ∧
    ∀ v : Writer, b ≤ v.credit → v.hwm = s.writer.hwm → v.bytesWritten = s.writer.bytesWritten →
      v.canCommitBytes total size false max = true

/-- The parts have gone in. -/
structure RecordEntered (R : Ledger → Prop) (b : Ledger) (s : Sender) (ms : List Frame)
    (t : Sender) : Prop where
  eq : t.forget = ms.foldl enter s.forget
  bound : b ≤ t.writer.credit
  raised : Raised R s.writer t.writer
  started : t.writer.outMultipartStartedEmpty = false

theorem writer_enter_of_more (s : Sender) (hmore : m.more = true) : (s.enter m).writer =
    { s.writer.grow m with outPipe := s.writer.outPipe.write m true } := by
  have hcommits := Frame.commits_of_more hmore
  rw [enter]
  change (chargeFrame _ _ _ _).writer = _
  rw [writer_chargeFrame]
  change (s.writer.grow m).settleFrame m [] = _
  rw [settleFrame, Writer.publishOutboundFrame, hmore, hcommits]
  simp only [Bool.or_true, if_true, Bool.false_eq_true, if_false]
  rfl

/-- What a part that the record goes on behind leaves as it was, and what it counts. -/
structure Grew (w : Writer) (m : Frame) (v : Writer) : Prop where
  state : v.state = w.state
  transportPairWriteHeld : v.transportPairWriteHeld = w.transportPairWriteHeld
  outActive : v.outActive = w.outActive
  hwm : v.hwm = w.hwm
  maxMessageBytes : v.maxMessageBytes = w.maxMessageBytes
  bytesWritten : v.bytesWritten = w.bytesWritten
  incomplete : v.outIncompleteBytes = w.outIncompleteBytes + m.accountedBytes
  payload : v.outIncompletePayloadBytes = w.outIncompletePayloadBytes + m.size

theorem grew_of_forget {outPipe : OutPipe} (h : v.forget = { w.forget.grow m with outPipe }) :
    Grew w m v := by
  constructor
  · change v.forget.state = _
    rw [h]
    rfl
  · change v.forget.transportPairWriteHeld = _
    rw [h]
    rfl
  · change v.forget.outActive = _
    rw [h]
    rfl
  · change v.forget.hwm = _
    rw [h]
    rfl
  · change v.forget.maxMessageBytes = _
    rw [h]
    rfl
  · change v.forget.bytesWritten = _
    rw [h]
    rfl
  · change v.forget.outIncompleteBytes = _
    rw [h]
    rfl
  · change v.forget.outIncompletePayloadBytes = _
    rw [h]
    rfl

theorem Entered.grew {x : Admission × Sender} (hx : Entered R b s m x) (hmore : m.more = true) :
    Grew s.writer m x.2.writer :=
  grew_of_forget ((congrArg Sender.writer hx.eq).trans (writer_enter_of_more s.forget hmore))

theorem more_of_recordWellFormed {m' : Frame} (h : recordWellFormed (m :: m' :: ms) = true) :
    m.more = true ∧ recordWellFormed (m' :: ms) = true := by
  rw [recordWellFormed] at h
  · rw [Bool.and_eq_true, Bool.and_eq_true, Bool.and_eq_true, Bool.and_eq_true] at h
    exact ⟨h.1.1.1.1, h.2⟩
  · simp

theorem commits_of_recordWellFormed (h : recordWellFormed [m] = true) : m.commits = true := by
  simp only [recordWellFormed, Bool.and_eq_true] at h
  exact Bool.and_eq_true_iff.mpr ⟨h.1.1.1, h.1.1.2⟩

namespace Fitting

variable (h : Fitting R b max s (m :: ms))
include h

theorem frame : ∃ total size, s.writer.outIncompleteBytes + m.accountedBytes ≤ total ∧
    s.writer.outIncompletePayloadBytes + m.size ≤ size ∧ ¬s.writer.Oversized m max ∧
    recordBytes ms (s.writer.outIncompleteBytes + m.accountedBytes)
      (s.writer.outIncompletePayloadBytes + m.size) = some (total, size) ∧
    ∀ v : Writer, b ≤ v.credit → v.hwm = s.writer.hwm → v.bytesWritten = s.writer.bytesWritten →
      v.canCommitBytes total size false max = true := by
  obtain ⟨total, size, hcount, hfits⟩ := h.counted
  have hcan := hfits (s.writer.withCredit b) le_rfl rfl rfl
  have hmax : max = 0 ∨ size ≤ max := by
    by_contra hover
    push Not at hover
    exact (canCommitBytes_iff.mp hcan).1 hover
  obtain ⟨hsize, hrest⟩ := not_oversized_of_recordBytes hcount hmax
  have htotal := recordBytes_eq hrest
  exact ⟨total, size, by omega, recordBytes_payload_le hrest, hsize, hrest, hfits⟩

theorem writeMessage : (s.writeMessage m e i max []).Holds (fun _ => True) (fun _ => R)
    (Entered R b s m) := by
  obtain ⟨total, size, hbytes, hpayload, hsize, -, hfits⟩ := h.frame
  refine writeMessage_entered hsize ?_ (h.known m rfl) fun _ v allowEmpty hv hhwm hwritten => ?_
  · rcases hwm_of_canCommitBytes (hfits (s.writer.withCredit b) le_rfl rfl rfl) with hzero | hle
    · exact .inl hzero
    · exact .inr (hbytes.trans ((Nat.le_add_left _ _).trans hle))
  · exact canCommitBytes_mono (hfits v hv hhwm hwritten) hbytes hpayload rfl le_rfl

theorem rest {m' : Frame} {ms' : List Frame} (hms : ms = m' :: ms') {x : Admission × Sender}
    (hx : Entered R b s m x) : Fitting R b max x.2 ms := by
  obtain ⟨total, size, -, -, -, hcount, hfits⟩ := h.frame
  subst hms
  obtain ⟨hmore, hwhole⟩ := more_of_recordWellFormed h.whole
  have hgrew := hx.grew hmore
  refine ⟨hwhole, fun _ _ => .inl hx.bound, total, size, ?_, ?_⟩
  · rw [hgrew.incomplete, hgrew.payload]
    exact hcount
  · rw [hgrew.hwm, hgrew.bytesWritten]
    exact hfits

end Fitting

theorem RecordEntered.cons {u : Sender} {x : Admission × Sender} (hx : Entered R b s m x)
    (h : RecordEntered R b x.2 ms u) : RecordEntered R b s (m :: ms) u where
  eq := by rw [h.eq, hx.eq, List.foldl_cons]
  bound := h.bound
  raised := hx.raised.trans h.raised
  started := h.started

theorem writeParts_entered (h : Fitting R b max s ms) :
    (s.writeParts max ms).Holds (fun _ => True) (fun _ => R) (RecordEntered R b s ms) := by
  induction ms generalizing s with
  | nil => cases h.whole
  | cons m ms ih =>
    rw [writeParts]
    apply Prog.Holds.bind h.writeMessage
    rintro ⟨admission, t⟩ ht
    cases ms with
    | nil =>
      exact ⟨ht.eq, ht.bound, ht.raised, ht.started (commits_of_recordWellFormed h.whole)⟩
    | cons m' ms => exact (ih (h.rest rfl ht)).imp fun u hu => hu.cons ht

structure Accepting (w : Writer) : Prop where
  active : w.state = .active
  free : w.transportPairWriteHeld = false
  running : w.remoteFlowBlocked = false
  outActive : w.outActive = true

theorem writeStateAdmission_of_accepting (h : Accepting w) :
    w.writeStateAdmission = (.ready, w) := by
  rw [writeStateAdmission, if_neg (not_not.mpr h.active), h.free, h.running, h.outActive]
  rfl

theorem accepting_of_ready (h : w.writeStateAdmission.1 = .ready) : Accepting w := by
  rw [writeStateAdmission] at h
  split_ifs at h with hstate hheld hblocked hactive
  exact ⟨not_not.mp hstate, Bool.eq_false_iff.mpr hheld, Bool.eq_false_iff.mpr hblocked,
    by simpa using hactive⟩

theorem checkHwmWithPeerSnapshot_known (hknown : CreditKnown R w m b)
    (hcheck : ∀ v : Writer, b ≤ v.credit → v.hwm = w.hwm → v.bytesWritten = w.bytesWritten →
      v.checkHwm = true) :
    w.checkHwmWithPeerSnapshot.Holds (fun _ => True) (fun _ => R) fun x =>
      x.1 = true ∧ ∃ c, x.2 = w.withCredit c ∧ Raised R w x.2 := by
  rw [checkHwmWithPeerSnapshot]
  split
  · exact ⟨rfl, w.credit, rfl, Raised.refl w⟩
  · rename_i hfull
    have hbound : ∀ l, R l → b ≤ w.credit.join l := by
      rcases hknown with hbound | ⟨-, -, hbound⟩
      · exact absurd (hcheck w hbound rfl rfl) hfull
      · exact hbound
    refine Prog.Holds.load trivial fun l hl => ⟨?_, w.credit.join l, rfl, raised_refresh hl⟩
    exact hcheck _ (hbound l hl) rfl rfl

theorem admitWrite_accepting (h : Accepting w) (hknown : CreditKnown R w m b)
    (hcheck : ∀ v : Writer, b ≤ v.credit → v.hwm = w.hwm → v.bytesWritten = w.bytesWritten →
      v.checkHwm = true) :
    w.admitWrite.Holds (fun _ => True) (fun _ => R) fun x =>
      x.1 = .ready ∧ ∃ c, x.2 = w.withCredit c ∧ Raised R w x.2 := by
  rw [admitWrite, writeStateAdmission_of_accepting h]
  simp only [ne_eq, not_true_eq_false, if_false]
  rw [hwmCreditReady]
  apply Prog.Holds.bind (P := fun x : Bool × Writer =>
    x.1 = true ∧ ∃ c, x.2 = w.withCredit c ∧ Raised R w x.2)
  · apply (checkHwmWithPeerSnapshot_known hknown hcheck).bind
    rintro ⟨ready, v⟩ ⟨rfl, hv⟩
    exact ⟨rfl, hv⟩
  · rintro ⟨ready, v⟩ ⟨rfl, hv⟩
    exact ⟨rfl, hv⟩

theorem Fitting.withCredit (h : Fitting R b max s ms) (hle : s.writer.credit ≤ c) :
    Fitting R b max (s.withCredit c) ms where
  whole := h.whole
  known m hm := by
    rcases h.known m hm with hbound | ⟨hmore, hzero, hbound⟩
    · exact .inl (hbound.trans hle)
    · refine .inr ⟨hmore, hzero, fun l hl => (hbound l hl).trans (Ledger.join_le ?_ ?_)⟩
      · exact hle.trans (Ledger.le_join_left _ _)
      · exact Ledger.le_join_right _ _
  counted := h.counted

theorem Fitting.write (h : Fitting R b s.writer.maxMessageBytes s (m :: ms))
    (haccepting : Accepting s.writer) :
    (s.write m []).Holds (fun _ => True) (fun _ => R) (Entered R b s m) := by
  obtain ⟨total, size, hbytes, -, -, -, hfits⟩ := h.frame
  have hcheck : ∀ v : Writer, b ≤ v.credit → v.hwm = s.writer.hwm →
      v.bytesWritten = s.writer.bytesWritten → v.checkHwm = true := by
    intro v hv hhwm hwritten
    have hpos := m.accountedBytes_pos
    exact checkHwm_of_canCommitBytes (hfits v hv hhwm hwritten) (by omega)
  rw [Sender.write, admitted]
  apply Prog.Holds.bind (P := fun x : Admission × Sender => x.1 = .ready ∧
    ∃ c, x.2 = s.withCredit c ∧ Raised R s.writer x.2.writer)
  · rw [holds_within]
    refine (admitWrite_accepting haccepting (h.known m rfl) hcheck).imp ?_
    rintro ⟨admission, v⟩ ⟨hready, c, rfl, hraised⟩
    exact ⟨hready, c, rfl, hraised⟩
  · rintro ⟨admission, t⟩ ⟨rfl, c, rfl, hraised⟩
    refine (h.withCredit hraised.le).writeMessage.imp fun x hx => ?_
    exact ⟨hx.ready, hx.eq, hx.bound, hraised.trans hx.raised, hx.started⟩

theorem Entered.accepting {x : Admission × Sender} (hx : Entered R b s m x)
    (hmore : m.more = true) (h : Accepting s.writer) :
    Accepting x.2.writer ∧ x.2.writer.maxMessageBytes = s.writer.maxMessageBytes := by
  have hgrew := hx.grew hmore
  have hpos := m.accountedBytes_pos
  have hnonzero : (x.2.writer.outIncompleteBytes == 0) = false := by
    rw [hgrew.incomplete, beq_eq_false_iff_ne]
    omega
  refine ⟨⟨hgrew.state.trans h.active, hgrew.transportPairWriteHeld.trans h.free, ?_,
    hgrew.outActive.trans h.outActive⟩, hgrew.maxMessageBytes⟩
  rw [remoteFlowBlocked, hnonzero, Bool.and_false, Bool.false_and, Bool.false_and]

theorem writeEach_entered (h : Fitting R b s.writer.maxMessageBytes s ms)
    (haccepting : Accepting s.writer) :
    (s.writeEach ms).Holds (fun _ => True) (fun _ => R) fun x =>
      x.1 = true ∧ RecordEntered R b s ms x.2 := by
  induction ms generalizing s with
  | nil => cases h.whole
  | cons m ms ih =>
    rw [writeEach]
    apply (h.write haccepting).bind
    rintro ⟨admission, t⟩ ht
    obtain rfl : admission = .ready := ht.ready
    cases ms with
    | nil =>
      exact ⟨rfl, ht.eq, ht.bound, ht.raised, ht.started (commits_of_recordWellFormed h.whole)⟩
    | cons m' ms =>
      have hmore := (more_of_recordWellFormed h.whole).1
      obtain ⟨hnext, hmax⟩ := ht.accepting hmore haccepting
      have hrest := h.rest rfl ht
      rw [← hmax] at hrest
      exact (ih hrest hnext).imp fun u hu => ⟨hu.1, hu.2.cons ht⟩

end Sender

end Zlink.Pipe
