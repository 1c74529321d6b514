import Zlink.Pipe.RecordPath

/-!
# The complete-record path is the writing of its frames

What the path for complete records leaves behind is what the frames of the record leave behind one
by one, with a flush at the end. Where the path refuses the record, nothing of it is there.
-/

namespace Zlink.Pipe

open Protocol Suspension Writer

variable {R : Ledger → Prop} {s t u : Sender} {parts : List Frame} {c : Ledger}
  {dropped : PeerControl → List Frame} {k : Bool}

namespace Sender

theorem withMarks_publishOutboundFrame (s : Sender) (m : Frame) (replaced : List Frame) :
    (s.withMarks c k).publishOutboundFrame m replaced =
      (s.publishOutboundFrame m replaced).withMarks c k := by
  have hrelease : (s.withMarks c k).releaseReplaced m replaced =
      (s.releaseReplaced m replaced).withMarks c k := by
    rw [releaseReplaced, releaseReplaced]
    change (if s.writer.registryAccounting && s.writer.conflate && !m.more then _ else _) = _
    split <;> rfl
  have hpublish : (s.writer.withMarks c k).publishOutboundFrame m replaced =
      (s.writer.publishOutboundFrame m replaced).withMarks c k := by
    rw [Writer.publishOutboundFrame, Writer.publishOutboundFrame]
    change (if !s.writer.conflate || m.more then _ else _) = _
    split <;> rfl
  rw [publishOutboundFrame, publishOutboundFrame, hrelease]
  exact congrArg (withWriter _) hpublish

theorem withMarks_appendControl (s : Sender) (control : PeerControl) :
    (s.withMarks c k).appendControl dropped control =
      (s.appendControl dropped control).withMarks c k := by
  have hcharge : (s.withMarks c k).chargeControl control.frame =
      (s.chargeControl control.frame).withMarks c k := by
    rw [chargeControl, chargeControl]
    change (if s.writer.registryAccounting then _ else _) = _
    split <;> rfl
  rw [appendControl, appendControl, hcharge, withMarks_publishOutboundFrame]
  rfl

theorem withMarks_appendControls (s : Sender) : (s.withMarks c k).appendControls dropped =
    (s.appendControls dropped).withMarks c k := by
  induction hcount : s.controls.count using Nat.strong_induction_on generalizing s with
  | h n ih =>
    cases hnext : s.controls.next with
    | none => rw [appendControls_of_none hnext, appendControls_of_none (by exact hnext)]; rfl
    | some x =>
      obtain ⟨control, rest⟩ := x
      rw [appendControls_of_some hnext,
        appendControls_of_some (s := s.withMarks c k) (by exact hnext), withMarks_appendControl]
      have hlt := PendingControls.count_lt_of_next hnext
      exact ih rest.count (hcount ▸ hlt)
        { s.appendControl dropped control with controls := rest } rfl

theorem withMarks_flush (s : Sender) :
    (s.withMarks c k).flush dropped = (s.flush dropped).withMarks c k := by
  have happend : (s.withMarks c k).appendPendingControls dropped =
      (s.appendPendingControls dropped).withMarks c k := by
    rw [appendPendingControls, appendPendingControls]
    change (if s.controls.any && s.betweenRecords && decide (s.writer.state = .active) &&
      !s.writer.transportPairWriteHeld && s.route.sessionPipe then _ else _) = _
    split
    · exact withMarks_appendControls s
    · rfl
  have hdispatch (t : Sender) : (t.withMarks c k).dispatchPendingControls =
      t.dispatchPendingControls.withMarks c k := by
    rw [dispatchPendingControls, dispatchPendingControls]
    change (if t.controls.any && t.betweenRecords && decide (t.writer.state = .active) &&
      !t.writer.transportPairWriteHeld && !t.route.sessionPipe && t.route.exactPeer then _ else _) =
        _
    split <;> rfl
  have hqueue (t : Sender) : (t.withMarks c k).flushQueue = t.flushQueue.withMarks c k := by
    rw [flushQueue, Writer.flush]
    change (t.withMarks c k).withWriter (if t.writer.state = .termAckSent then _ else _) = _
    rw [flushQueue, Writer.flush]
    split <;> rfl
  rw [flush, flush]
  change (if s.writer.state = .termAckSent then _ else if s.controls.any && s.route.slotsEnabled &&
    s.betweenRecords then if s.route.sessionPipe then _ else _ else _) = _
  rw [happend, hqueue, hqueue, hdispatch]
  split_ifs <;> rfl

theorem flush_eq_withMarks (s : Sender) : s.flush dropped =
    (s.flush dropped).withMarks s.writer.credit s.writer.waitingForByteCredit :=
  withMarks_flush (c := s.writer.credit) s

theorem credit_flush (s : Sender) : (s.flush dropped).writer.credit = s.writer.credit := by
  rw [flush_eq_withMarks]
  rfl

theorem withCredit_flush (s : Sender) :
    (s.withCredit c).flush dropped = (s.flush dropped).withCredit c :=
  calc (s.withCredit c).flush dropped =
      (s.flush dropped).withMarks c s.writer.waitingForByteCredit := withMarks_flush s
    _ = ((s.flush dropped).withMarks s.writer.credit
          s.writer.waitingForByteCredit).withCredit c := rfl
    _ = (s.flush dropped).withCredit c := by rw [← flush_eq_withMarks]

theorem eq_withCredit_of_forget (h : t.forget = u.forget)
    (ht : t.writer.outMultipartStartedEmpty = false)
    (hu : u.writer.outMultipartStartedEmpty = false) : u = t.withCredit u.writer.credit := by
  have hrestore (x : Sender) (hx : x.writer.outMultipartStartedEmpty = false) :
      x = x.forget.withCredit x.writer.credit := by
    change x = x.withWriter { x.writer with outMultipartStartedEmpty := false }
    rw [← hx]
    rfl
  calc u = u.forget.withCredit u.writer.credit := hrestore u hu
    _ = t.forget.withCredit u.writer.credit := by rw [h]
    _ = (t.forget.withCredit t.writer.credit).withCredit u.writer.credit := rfl
    _ = t.withCredit u.writer.credit := by rw [← hrestore t ht]

/-- The record has not been touched: only the credit may have been raised, and a wait for the peer
to resume noted. -/
structure Untouched (R : Ledger → Prop) (s t : Sender) : Prop where
  raised : Raised R s.writer t.writer
  eq : t = s.withWriter { s.writer with
    peersMsgsRead := t.writer.peersMsgsRead
    peersBytesRead := t.writer.peersBytesRead
    waitingForFlowResume := t.writer.waitingForFlowResume }

theorem untouched_writeStateAdmission (s : Sender) :
    Untouched R s (s.withWriter s.writer.writeStateAdmission.2) := by
  rw [writeStateAdmission]
  split_ifs <;> exact ⟨(Raised.refl s.writer).congr rfl, rfl⟩

theorem writeStateAdmission_of_ready {w : Writer} (h : w.writeStateAdmission.1 = .ready) :
    w.writeStateAdmission = (.ready, w) :=
  writeStateAdmission_of_accepting (accepting_of_ready h)

theorem boundary_of_not_refused {w : Writer} {admission : Admission}
    (h : ¬(admission ≠ .ready ∨ w.atRecordBoundary = false ∨ recordWellFormed parts = false)) :
    admission = .ready ∧ w.outIncompleteBytes = 0 ∧ w.outIncompletePayloadBytes = 0 ∧
      recordWellFormed parts = true := by
  rw [not_or, not_or, not_not, Bool.not_eq_false, Bool.not_eq_false] at h
  obtain ⟨hready, hboundary, hwhole⟩ := h
  obtain ⟨-, -, hzero, hpay, -⟩ := atRecordBoundary_iff.mp hboundary
  exact ⟨hready, hzero, hpay, hwhole⟩

/-- The path has taken the record: what it leaves behind, before its flush, and the credit that lets
the record in. All of it is at least `d` when the first load finds that much. -/
structure Admitted (R : Ledger → Prop) (d : Ledger) (s : Sender) (parts : List Frame)
    (t : Sender) : Prop where
  accepting : Accepting s.writer
  fitting : ∀ S : Ledger → Prop, (∀ l, S l → t.writer.credit ≤ s.writer.credit.join l) →
    Fitting S t.writer.credit s.writer.maxMessageBytes s parts
  entered : t.forget = parts.foldl enter s.forget
  started : t.writer.outMultipartStartedEmpty = false
  raised : Raised R s.writer t.writer
  low : d ≤ t.writer.credit

theorem more_head {m : Frame} (hlength : ¬parts.length < 2) (hwhole : recordWellFormed parts = true)
    (hm : m ∈ parts.head?) : m.more = true := by
  match parts with
  | [] => cases hm
  | [_] => exact absurd Nat.one_lt_two hlength
  | first :: second :: rest =>
    obtain rfl := Option.some.inj hm
    exact (more_of_recordWellFormed hwhole).1

theorem writeParts_admitted {d : Ledger} (hd : ∀ l, R l → d ≤ s.writer.credit.join l)
    (haccepting : Accepting s.writer) (hlength : ¬parts.length < 2)
    (hzero : s.writer.outIncompleteBytes = 0) (hpay : s.writer.outIncompletePayloadBytes = 0)
    (hwhole : recordWellFormed parts = true) {total size : ℕ}
    (hcount : recordBytes parts 0 0 = some (total, size)) (hraised : Raised R s.writer
      (s.writer.withCredit c))
    (hcan : (s.writer.withCredit c).canCommitBytes total size false s.writer.maxMessageBytes =
      true) :
    ((s.withCredit c).writeParts s.writer.maxMessageBytes parts).Holds (fun _ => True) (fun _ => R)
      (Admitted R d s parts) := by
  have hfits : ∀ v : Writer, c ≤ v.credit → v.hwm = s.writer.hwm →
      v.bytesWritten = s.writer.bytesWritten →
      v.canCommitBytes total size false s.writer.maxMessageBytes = true := by
    intro v hv hhwm hwritten
    refine canCommitBytes_mono hcan le_rfl le_rfl hhwm ?_
    rw [inFlight_eq, inFlight_eq, hwritten]
    exact Nat.sub_le_sub_left hv.2 _
  have hfitting : Fitting R (c.join d) s.writer.maxMessageBytes (s.withCredit c) parts := by
    refine ⟨hwhole, fun m hm => .inr ⟨more_head hlength hwhole hm, hzero, fun l hl => ?_⟩,
      total, size, ?_, ?_⟩
    · refine Ledger.join_le (Ledger.le_join_left _ _) ((hd l hl).trans (Ledger.join_le ?_ ?_))
      · exact hraised.le.trans (Ledger.le_join_left _ _)
      · exact Ledger.le_join_right _ _
    · change recordBytes parts s.writer.outIncompleteBytes s.writer.outIncompletePayloadBytes = _
      rw [hzero, hpay]
      exact hcount
    · exact fun v hv => hfits v ((Ledger.le_join_left _ _).trans hv)
  refine (writeParts_entered hfitting).imp fun t ht => ?_
  refine ⟨haccepting, fun S hS => ?_, ht.eq, ht.started, hraised.trans ht.raised,
    (Ledger.le_join_right _ _).trans ht.bound⟩
  refine ⟨hwhole, fun m hm => .inr ⟨more_head hlength hwhole hm, hzero, hS⟩, total, size, ?_, ?_⟩
  · rw [hzero, hpay]
    exact hcount
  · exact fun v hv => hfits v (((Ledger.le_join_left _ _).trans ht.bound).trans hv)

theorem canCommitBytesWithPeerSnapshot_credit (bytes payload max : ℕ) {w : Writer} :
    (w.canCommitBytesWithPeerSnapshot bytes payload false max).Holds (fun _ => True) (fun _ => R)
      fun x => ∃ c, x.2 = w.withCredit c ∧ Raised R w (w.withCredit c) ∧
        x.1 = (w.withCredit c).canCommitBytes bytes payload false max := by
  rw [canCommitBytesWithPeerSnapshot]
  split
  · rename_i hcan
    exact ⟨w.credit, rfl, Raised.refl w, hcan.symm⟩
  · exact Prog.Holds.load trivial fun l hl => ⟨w.credit.join l, rfl, raised_refresh hl, rfl⟩

theorem tryWriteCompleteRecordAndFlush_admitted {d : Ledger}
    (hd : ∀ l, R l → d ≤ s.writer.credit.join l) :
    (s.tryWriteCompleteRecordAndFlush parts dropped).Holds (fun _ => True) (fun _ => R) fun x =>
      (x.1 = false → Untouched R s x.2) ∧
      (x.1 = true → ∃ t, Admitted R d s parts t ∧ x.2 = t.flush dropped) := by
  have hrefused {t : Sender} (ht : Untouched R s t) :
      ((false, t).1 = false → Untouched R s (false, t).2) ∧
      ((false, t).1 = true → ∃ u, Admitted R d s parts u ∧ (false, t).2 = u.flush dropped) :=
    ⟨fun _ => ht, fun htaken => by cases htaken⟩
  have hself : Untouched R s s := ⟨Raised.refl s.writer, rfl⟩
  have hstate := untouched_writeStateAdmission (R := R) s
  rw [tryWriteCompleteRecordAndFlush]
  split
  · exact hrefused hself
  rename_i hlength
  by_cases hready : s.writer.writeStateAdmission.1 = .ready
  · rw [writeStateAdmission_of_ready hready]
    change Prog.Holds _ _ _ (if Admission.ready ≠ .ready ∨ s.writer.atRecordBoundary = false ∨
      recordWellFormed parts = false then _ else _)
    by_cases hchecked : Admission.ready ≠ .ready ∨ s.writer.atRecordBoundary = false ∨
      recordWellFormed parts = false
    · rw [if_pos hchecked]
      exact hrefused hself
    rw [if_neg hchecked]
    obtain ⟨-, hzero, hpay, hwhole⟩ := boundary_of_not_refused hchecked
    split
    · exact hrefused hself
    rename_i total size hcount
    change Prog.Holds _ _ _ (if s.writer.maxMessageBytes ≠ 0 ∧ s.writer.maxMessageBytes < size
      then _ else _)
    split
    · exact hrefused hself
    apply Prog.Holds.bind (P := fun x : Bool × Sender => ∃ c, x.2 = s.withCredit c ∧
      Raised R s.writer (s.writer.withCredit c) ∧
      x.1 = (s.writer.withCredit c).canCommitBytes total size false s.writer.maxMessageBytes)
    · rw [holds_within]
      refine (canCommitBytesWithPeerSnapshot_credit (R := R) total size _).imp fun x hx => ?_
      obtain ⟨c, hx, hraised, hcan⟩ := hx
      exact ⟨c, congrArg s.withWriter hx, hraised, hcan⟩
    · rintro ⟨ready, t⟩ ⟨c, ht, hraised, hcan⟩
      obtain rfl : t = s.withCredit c := ht
      cases ready with
      | false => exact hrefused ⟨hraised, rfl⟩
      | true =>
        apply (writeParts_admitted hd (accepting_of_ready hready) hlength hzero hpay hwhole hcount
          hraised hcan.symm).bind
        intro u hu
        exact ⟨fun hno => Bool.noConfusion hno, fun _ => ⟨u, hu, rfl⟩⟩
  · generalize hadmission : s.writer.writeStateAdmission = checked at hready hstate
    obtain ⟨admission, w⟩ := checked
    change Prog.Holds _ _ _ (if admission ≠ .ready ∨ _ then _ else _)
    rw [if_pos (.inl hready)]
    exact hrefused hstate

theorem Admitted.writeEach {d : Ledger} {S : Ledger → Prop} (dropped : PeerControl → List Frame)
    (h : Admitted R d s parts t) (hS : ∀ l, S l → t.writer.credit ≤ s.writer.credit.join l) :
    (s.writeEach parts).Holds (fun _ => True) (fun _ => S) fun y => y.1 = true ∧
      t.writer.credit ≤ y.2.writer.credit ∧ Raised S s.writer y.2.writer ∧
      y.2.flush dropped = (t.flush dropped).withCredit y.2.writer.credit := by
  refine (writeEach_entered (h.fitting S hS) h.accepting).imp fun y hy => ?_
  obtain ⟨hwritten, hentered⟩ := hy
  have hforget : t.forget = y.2.forget := h.entered.trans hentered.eq.symm
  have hsame := eq_withCredit_of_forget hforget h.started hentered.started
  refine ⟨hwritten, hentered.bound, hentered.raised, ?_⟩
  rw [← withCredit_flush, ← hsame]

/-- The path for complete records against the frames of the record, for every sender and every list
of frames. Where it refuses, the record has not been touched. Where it accepts, the frames are all
accepted one by one as well, whatever the loads find, as long as the reader has not gone back behind
the credit that the path found; flushed, they leave the same sender behind, up to the credit that
the loads have found. And they leave the very same sender behind where the reader rests. -/
theorem tryWriteCompleteRecordAndFlush_agrees (s : Sender) (parts : List Frame)
    (dropped : PeerControl → List Frame) :
    (s.tryWriteCompleteRecordAndFlush parts dropped).Holds (fun _ => True) (fun _ _ => True)
      (fun x =>
        (x.1 = false → Untouched (fun _ => True) s x.2) ∧
        (x.1 = true → ∀ R : Ledger → Prop, (∀ l, R l → x.2.writer.credit ≤ s.writer.credit.join l) →
          (s.writeEach parts).Holds (fun _ => True) (fun _ => R) fun y =>
            y.1 = true ∧ y.2.flush dropped = x.2.withCredit y.2.writer.credit)) ∧
    ∀ l, (s.tryWriteCompleteRecordAndFlush parts dropped).Holds (fun _ => True) (fun _ => (· = l))
      fun x => x.1 = true → (s.writeEach parts).Holds (fun _ => True) (fun _ => (· = l)) fun y =>
        y.1 = true ∧ y.2.flush dropped = x.2 := by
  constructor
  · refine (tryWriteCompleteRecordAndFlush_admitted (d := .zero) fun l _ =>
      Ledger.zero_le _).imp fun x hx => ⟨hx.1, fun htaken R hR => ?_⟩
    obtain ⟨t, ht, hx⟩ := hx.2 htaken
    rw [hx, credit_flush] at hR
    rw [hx]
    exact (ht.writeEach dropped hR).imp fun y hy => ⟨hy.1, hy.2.2.2⟩
  · intro l
    have hd : ∀ k, k = l → s.writer.credit.join l ≤ s.writer.credit.join k := by
      rintro k rfl
      exact le_rfl
    refine (tryWriteCompleteRecordAndFlush_admitted hd).imp fun x hx htaken => ?_
    obtain ⟨t, ht, hx⟩ := hx.2 htaken
    have hbounded {w : Writer} (hw : Raised (· = l) s.writer w) :
        w.credit ≤ s.writer.credit.join l := by
      refine hw.bounded _ (Ledger.le_join_left _ _) ?_
      rintro k rfl
      exact Ledger.le_join_right _ _
    have hcredit : t.writer.credit = s.writer.credit.join l :=
      le_antisymm (hbounded ht.raised) ht.low
    refine (ht.writeEach (S := (· = l)) dropped fun k hk => ?_).imp fun y hy => ?_
    · exact hcredit.le.trans (hd k hk)
    · obtain ⟨hwritten, hle, hraised, hflush⟩ := hy
      have hsame : y.2.writer.credit = (t.flush dropped).writer.credit := by
        rw [credit_flush]
        exact le_antisymm ((hbounded hraised).trans_eq hcredit.symm) hle
      refine ⟨hwritten, ?_⟩
      rw [hflush, hx, hsame]
      rfl

def sessionRoute : ControlRoute where
  lane := .application
  laneCount := 1
  pairId := 1
  pairGeneration := 1
  peerUsesRoutedProtocol := true
  sessionPipe := true
  exactPeer := true
  peerOnApplicationLane := true
  peerTakesWeight := true

def firstPart : Msg where
  flags := Msg.more
  data := [1]
  requestReply := none

/-- Two frames are accepted as one record and one by one. -/
theorem tryWriteCompleteRecordAndFlush_agrees_twoFrames :
    let s := init 0 false .application sessionRoute
    let parts := [.data firstPart, .data { firstPart with flags := 0 }]
    let x := (s.tryWriteCompleteRecordAndFlush parts fun _ => []).answered .zero
    x.1 = true ∧ x.2.writer.outPipe ≠ s.writer.outPipe ∧
      (s.writeEach parts).Holds (fun _ => True) (fun _ => (· = .zero)) fun y =>
        y.1 = true ∧ (y.2.flush fun _ => []) = x.2 := by
  intro s parts x
  have hx : x.1 = true := by decide +kernel
  refine ⟨hx, by decide +kernel, ?_⟩
  exact ((tryWriteCompleteRecordAndFlush_agrees s parts fun _ => []).2 .zero).of_yields
    (Prog.yields_answered (R := fun _ l => l = Ledger.zero) (fun _ => rfl) _) hx

end Sender

end Zlink.Pipe
