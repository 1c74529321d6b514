import Zlink.Pipe.Balance

/-!
# Every state of a sender is balanced

Each act keeps the accounts of the sender in balance, and so they are in every state that a sender
reaches.
-/

namespace Zlink.Pipe

open Protocol Suspension Writer

def Entry.flushes (entry : Entry) (m : Frame) : Bool :=
  match entry with
  | .perFrame | .noRecursiveHwmCheck => false
  | .flushed | .ownerStarted | .observed => !m.more
  | .single => true

variable {R : Ledger → Prop} {w v u : Writer} {s t : Sender} {m : Frame} {replaced : List Frame}
  {dropped : PeerControl → List Frame} {max : ℕ} {e i flushes : Bool}

namespace Sender

theorem Balanced.releaseFrames (h : s.Balanced) (frameBytes count : ℕ) :
    (s.releaseFrames frameBytes count).Balanced := by
  rw [Sender.releaseFrames]
  split
  · exact ⟨h.standing, h.total, h.provisional, fun ha => (h.charged ha).release⟩
  · exact h

theorem Balanced.processHiccup (h : s.Balanced) (generation : ℕ) (left : List Frame) :
    (s.processHiccup generation left).Balanced := by
  have hleft : (left.foldl discardFrame s).Balanced := by
    induction left generalizing s with
    | nil => exact h
    | cons m left ih =>
      cases m with
      | delimiter => exact ih h
      | data => exact ih (h.releaseFrames _ _)
  rw [Sender.processHiccup]
  generalize left.foldl _ s = x at hleft
  refine balanced_publish (.empty rfl rfl rfl rfl hleft.standing.reserved)
    (fun hno => Bool.noConfusion hno) fun ha => ?_
  change x.writer.registryAccounting = true at ha
  change QueueRegistry.Charged (if x.writer.registryAccounting then _ else _) 0
  rw [if_pos ha]
  exact (hleft.charged ha).rollback

theorem Balanced.setHwms (h : s.Balanced) (hwm sampled : ℕ) : (s.setHwms hwm sampled).Balanced where
  standing := h.standing.congr rfl rfl rfl rfl rfl
  total := h.total
  provisional := h.provisional
  charged ha := (h.charged ha).updateHwmTarget

theorem Balanced.retire (h : s.Balanced) (state : LifecycleState) :
    (s.withWriter (s.writer.transitionToInactiveState state)).Balanced := by
  rw [transitionToInactiveState]
  split
  · exact h
  · exact h.withWriter (h.standing.congr rfl rfl rfl rfl rfl) rfl rfl rfl

theorem Balanced.deactivate (h : s.Balanced) :
    (s.withWriter { s.writer with outActive := false }).Balanced :=
  h.withWriter (h.standing.congr rfl rfl rfl rfl rfl) rfl rfl rfl

theorem outIncompleteBytes_rollbackRecord (s : Sender) :
    s.rollbackRecord.writer.outIncompleteBytes = 0 := rfl

theorem outIncompleteBytes_flushQueue (s : Sender) :
    s.flushQueue.writer.outIncompleteBytes = s.writer.outIncompleteBytes := by
  change s.writer.flush.outIncompleteBytes = _
  rw [flush_eq]

theorem outIncompleteBytes_dispatch (s : Sender) :
    s.dispatchPendingControls.writer.outIncompleteBytes = s.writer.outIncompleteBytes := by
  rw [dispatchPendingControls]
  split <;> rfl

theorem Balanced.outIncompleteBytes_flush (h : s.Balanced) (hzero : s.writer.outIncompleteBytes = 0) :
    (s.flush dropped).writer.outIncompleteBytes = 0 := by
  rw [Sender.flush]
  split
  · exact hzero
  split
  · split
    · rw [outIncompleteBytes_flushQueue, appendPendingControls]
      split
      · exact (h.appendControls hzero).2
      · exact hzero
    · rw [outIncompleteBytes_dispatch, outIncompleteBytes_flushQueue]
      exact hzero
  · rw [outIncompleteBytes_flushQueue]
    exact hzero

theorem Balanced.outIncompleteBytes_rollback (publish : Bool)
    (dropped : PeerControl → List Frame) (h : s.Balanced) :
    (s.rollback publish dropped).writer.outIncompleteBytes = 0 := by
  have hzero := outIncompleteBytes_rollbackRecord s
  rw [Sender.rollback, settleControls]
  split
  · split
    · rw [Sender.flushPendingControls]
      split
      · exact h.rollbackRecord.outIncompleteBytes_flush hzero
      · exact hzero
    · exact hzero
  · exact hzero

theorem Balanced.delimitOutbound (h : s.Balanced) : (s.delimitOutbound dropped).Balanced := by
  have hback := h.deactivate.rollback false dropped
  have hzero := h.deactivate.outIncompleteBytes_rollback false dropped
  obtain ⟨-, hpay, hstarted⟩ := hback.standing.boundary hzero
  rw [Sender.delimitOutbound]
  refine Balanced.flush (hback.withWriter ?_ rfl rfl rfl)
  exact .empty (OutPipe.opened_write _ _ _) hzero hpay hstarted hback.standing.reserved

theorem Balanced.terminate (h : s.Balanced) (delay : Bool) :
    (s.terminate delay dropped).Balanced := by
  rw [Sender.terminate]
  split
  · exact h
  · exact h
  · exact h
  · exact (h.retire _).delimitOutbound
  · exact (h.retire _).delimitOutbound
  · split
    · exact h.delimitOutbound
    · exact (h.deactivate.rollback _ _).retire _

theorem Balanced.writeControlAndFlush (h : s.Balanced) (control : PeerControl)
    (deferFlush : Bool) : (s.writeControlAndFlush control deferFlush dropped).Balanced := by
  rw [Sender.writeControlAndFlush]
  split
  · exact h
  · dsimp only
    split
    · exact h.reports _ _ _
    · exact (h.reports _ _ _).flushPendingControls

theorem Balanced.publishControls (h : s.Balanced) : (s.publishControls dropped).Balanced := by
  rw [Sender.publishControls]
  split
  · exact h.flushPendingControls
  · exact h.reports _ _ _

theorem Balanced.activateWrite (h : s.Balanced) (generation : ℕ) (credit : Ledger) :
    (s.withWriter (s.writer.processActivateWrite generation credit)).Balanced := by
  rw [processActivateWrite]
  split
  · dsimp only
    split
    all_goals exact h.withWriter (h.standing.congr rfl rfl rfl rfl rfl) rfl rfl rfl
  · exact h

theorem Balanced.release (h : s.Balanced) :
    (s.withWriter s.writer.releaseDecoderFrameReservation).Balanced := by
  refine h.withWriter ?_ rfl rfl rfl
  refine ⟨h.standing.bytes, h.standing.payload, h.standing.bounded, h.standing.started, ?_⟩
  intro r hr
  cases hr

theorem writeReservedDecoderFrame_cases (m : Frame) (replaced : List Frame) (hw : Standing w) :
    (∃ r, w.reservation = some r ∧ r.frameBytes = m.accountedBytes ∧
      ¬w.releaseDecoderFrameReservation.Oversized m 0 ∧
      w.writeReservedDecoderFrame m replaced = (true,
        w.releaseDecoderFrameReservation.settleReserved m m.accountedBytes m.size replaced)) ∨
      w.writeReservedDecoderFrame m replaced = (false, w.releaseDecoderFrameReservation) := by
  rw [writeReservedDecoderFrame]
  split
  · rename_i hnone
    right
    rw [releaseDecoderFrameReservation, ← hnone]
  rename_i r hr
  have hlost : (false, { w with reservation := none }) =
      (false, w.releaseDecoderFrameReservation) := rfl
  dsimp only
  split
  · exact .inr hlost
  split
  · exact .inr hlost
  rename_i hsame
  push Not at hsame
  have hframe : r.frameBytes = m.accountedBytes := by
    rw [hw.reserved r hr, hsame.1, ← Frame.accountedBytes_eq]
  split
  · exact .inr hlost
  split
  · exact .inr hlost
  rename_i hpay
  split
  · split
    · exact .inr hlost
    · rename_i hroom
      refine .inl ⟨r, hr, hframe, ?_, rfl⟩
      exact not_or.mpr ⟨hroom, not_or.mpr ⟨hpay, fun h => h.1 rfl⟩⟩
  · split
    · exact .inr hlost
    · rename_i hroom
      refine .inl ⟨r, hr, hframe, ?_, ?_⟩
      · rw [hframe] at hroom
        refine not_or.mpr ⟨?_, not_or.mpr ⟨hpay, fun h => h.1 rfl⟩⟩
        rw [appendOverflows, Bool.or_eq_true, decide_eq_true_eq, decide_eq_true_eq]
        exact hroom
      · rw [hframe]
        rfl

theorem settleReserved_eq (w : Writer) (m : Frame) (replaced : List Frame) :
    w.settleReserved m m.accountedBytes m.size replaced = { (w.grow m).settleFrame m replaced with
      outOwnerMessageStarted := w.outOwnerMessageStarted
      outOwnerMessageStartPending := w.outOwnerMessageStartPending
      decoderMultipartStartedEmpty :=
        if m.commits then false else w.decoderMultipartStartedEmpty } := by
  obtain ⟨msgs, hpublish⟩ := publishOutboundFrame_eq (w := w.grow m) m replaced
  rw [settleReserved, settleFrame]
  change (if m.commits = true then { ((w.grow m).publishOutboundFrame m replaced).commitRecord m with
    decoderMultipartStartedEmpty := false } else (w.grow m).publishOutboundFrame m replaced) = _
  rw [hpublish]
  split <;> rfl

theorem charged_pushed (hcharged : w.registryAccounting = true →
      s.registry.Charged w.outIncompleteBytes) (hlane : s.registry.lane ≠ .monitor)
    (hroom : w.outIncompleteBytes + m.accountedBytes ≤ uint64Max)
    (haccounting : w.registryAccounting = true) :
    (s.registry.commitDecoderFrame w.outIncompleteBytes m.accountedBytes m.more
      m.countedPending).Charged (countedNext w m) :=
  (hcharged haccounting).commitDecoderFrame hroom hlane

theorem Balanced.accountPushed (h : (s.withWriter w).Balanced) (hlane : s.registry.lane ≠ .monitor)
    (hsize : ¬w.Oversized m max) (hdata : m.isDelimiter = false) :
    ((s.withWriter (w.settleReserved m m.accountedBytes m.size replaced)).accountPushed w m
      m.accountedBytes replaced).Balanced := by
  have hcounted : Counted (fun _ => True) w m (w.grow m) := ⟨(Raised.refl w).congr rfl, Or.inl, rfl⟩
  have hstanding := hcounted.standing replaced h.standing hsize hdata
  have hbytes := outIncompleteBytes_settleFrame replaced hcounted hdata
  have haccounting := registryAccounting_settleFrame replaced hcounted hdata
  have heq := settleReserved_eq w m replaced
  generalize w.settleReserved m m.accountedBytes m.size replaced = v at heq
  have hv : Standing v ∧ v.outIncompleteBytes = countedNext w m ∧
      v.registryAccounting = w.registryAccounting := by
    rw [heq]
    exact ⟨hstanding.congr rfl rfl rfl rfl rfl, hbytes, haccounting⟩
  have hend {x y : Sender} (hy : y.writer = v)
      (hpublished : y.publishedOutboundProvisionalBytes = s.publishedOutboundProvisionalBytes)
      (hcharged : w.registryAccounting = true → y.registry.Charged (countedNext w m))
      (hwriter : x.writer = (y.releaseReplaced m replaced).writer)
      (hregistry : x.registry = (y.releaseReplaced m replaced).registry)
      (hsame : x.publishedOutboundProvisionalBytes =
        (y.releaseReplaced m replaced).publishedOutboundProvisionalBytes) :
      (x.publishOutboundAccounting (m.more || w.outIncompleteBytes != 0)).Balanced := by
    rw [writer_releaseReplaced, hy] at hwriter
    rw [published_releaseReplaced, hpublished] at hsame
    refine h.publishFrame (hwriter ▸ hv.1) (hwriter ▸ hv.2.1) (hwriter ▸ hv.2.2) hsame fun ha => ?_
    rw [hregistry]
    exact charged_releaseReplaced (hcharged ha)
  rw [Sender.accountPushed]
  by_cases ha : w.registryAccounting = true
  · have hcharged := charged_pushed h.charged hlane (record_le_of_not_oversized hsize) ha
    set charged : Sender :=
      { s.withWriter v with
        registry := s.registry.commitDecoderFrame w.outIncompleteBytes m.accountedBytes m.more
          m.countedPending }
    rw [if_pos ha]
    split
    all_goals exact hend (y := charged) rfl rfl (fun _ => hcharged) rfl rfl rfl
  · rw [if_neg ha]
    split
    all_goals exact hend (y := s.withWriter v) rfl rfl (fun hyes => absurd hyes ha) rfl rfl rfl

theorem Balanced.engineError (h : s.Balanced) : (s.engineError dropped).Balanced :=
  h.release.rollback _ _

theorem Balanced.pushDecoded {recvRoutingId : Bool} (h : s.Balanced)
    (hlane : s.registry.lane ≠ .monitor) (hdata : m.isDelimiter = false) :
    (s.pushDecoded m recvRoutingId replaced dropped).Balanced := by
  rw [Sender.pushDecoded]
  split
  · exact h.release
  rcases writeReservedDecoderFrame_cases m replaced h.standing with
    ⟨r, hr, hframe, hsize, heq⟩ | heq
  · rw [heq, hr]
    change ((s.withWriter _).accountPushed s.writer m r.frameBytes replaced).Balanced
    rw [hframe]
    exact h.release.accountPushed hlane hsize hdata
  · rw [heq]
    exact h.release.rollback _ _

inductive Goes (R : Ledger → Prop) (s : Sender) (m : Frame) (replaced : List Frame) :
    Sender → Prop where
  | frame {u : Writer} {max : ℕ} (counted : Counted R s.writer m u)
      (sized : ¬s.writer.Oversized m max) :
      Goes R s m replaced ((s.withWriter (u.settleFrame m replaced)).accountFrame s.writer m
        replaced)
  | single (boundary : s.writer.atRecordBoundary = true) (commits : m.commits = true) :
      Goes R s m replaced ((s.withWriter (s.writer.commitSingle m)).accountSingle s.writer m)

theorem Goes.balanced (h : Goes R s m replaced t) (hs : s.Balanced) (hdata : m.isDelimiter = false) :
    t.Balanced := by
  cases h with
  | frame counted sized => exact Balanced.accountFrame hs counted sized hdata
  | single boundary commits => exact hs.accountSingle boundary

def flushIf (s : Sender) (flushes : Bool) (dropped : PeerControl → List Frame) : Sender :=
  if flushes then s.flush dropped else s

structure Offered (R : Ledger → Prop) (s : Sender) (m : Frame) (replaced : List Frame)
    (flushes : Bool) (dropped : PeerControl → List Frame) (x : Admission × Sender) : Prop where
  refused : x.1 ≠ .ready → ∃ v, Settles R s.writer v ∧ x.2 = s.withWriter v
  taken : x.1 = .ready → ∃ v t, Settles R s.writer v ∧ Goes R (s.withWriter v) m replaced t ∧
    x.2 = t.flushIf flushes dropped

theorem Balanced.flushIf (h : s.Balanced) : (s.flushIf flushes dropped).Balanced := by
  rw [Sender.flushIf]
  split
  · exact h.flush
  · exact h

theorem Offered.balanced {x : Admission × Sender} (h : Offered R s m replaced flushes dropped x)
    (hs : s.Balanced) (hdata : m.isDelimiter = false) : x.2.Balanced := by
  by_cases hready : x.1 = .ready
  · obtain ⟨v, t, hv, hgoes, hx⟩ := h.taken hready
    rw [hx]
    exact (hgoes.balanced (hs.settles hv) hdata).flushIf
  · obtain ⟨v, hv, hx⟩ := h.refused hready
    rw [hx]
    exact hs.settles hv

theorem Offered.settled {x : Admission × Sender} (hv : Settles R s.writer v)
    (h : Offered R (s.withWriter v) m replaced flushes dropped x) :
    Offered R s m replaced flushes dropped x where
  refused hno := by
    obtain ⟨u, hu, hx⟩ := h.refused hno
    exact ⟨u, hv.trans hu, hx⟩
  taken hready := by
    obtain ⟨u, t, hu, hgoes, hx⟩ := h.taken hready
    exact ⟨u, t, hv.trans hu, hgoes, hx⟩

theorem writeMessage_offered :
    (s.writeMessage m e i max replaced).Holds (fun _ => True) (fun _ => R) fun x =>
      (x.1 ≠ .ready → ∃ v, Waits R s.writer v ∧ x.2 = s.withWriter v) ∧
      (x.1 = .ready → Goes R s m replaced x.2) := by
  rw [writeMessage]
  apply Prog.Holds.bind (P := fun x : Admission × Sender =>
    ∃ v, x.2 = s.withWriter v ∧ Outcome R s.writer m max replaced (x.1, v))
  · rw [holds_within]
    exact writeMessage_outcome.imp fun x hx => ⟨x.2, rfl, hx⟩
  · rintro ⟨admission, t⟩ ⟨v, rfl, hx⟩
    dsimp only
    by_cases hready : admission = .ready
    · obtain ⟨hsize, u, hcounted, hv⟩ := hx.taken hready
      obtain rfl : v = u.settleFrame m replaced := hv
      rw [if_pos hready]
      exact ⟨fun hno => absurd rfl hno, fun _ => .frame hcounted hsize⟩
    · rw [if_neg hready]
      exact ⟨fun hno => ⟨v, hx.refused hno, rfl⟩, fun hyes => absurd hyes hready⟩

theorem offered_flushLast {admission : Admission}
    (hrefused : admission ≠ .ready → ∃ v, Waits R s.writer v ∧ t = s.withWriter v)
    (htaken : admission = .ready → Goes R s m replaced t) :
    Prog.Holds (fun _ => True) (fun _ => R) (Offered R s m replaced (!m.more) dropped)
      (if admission = .ready ∧ m.more = false then (pure (admission, t.flush dropped) : Sending _)
        else pure (admission, t)) := by
  have hwaits (hno : admission ≠ .ready) : ∃ v, Settles R s.writer v ∧ t = s.withWriter v := by
    obtain ⟨v, hv, ht⟩ := hrefused hno
    exact ⟨v, hv.settles, ht⟩
  cases hmore : m.more with
  | true =>
    rw [if_neg fun h => Bool.noConfusion h.2]
    exact ⟨hwaits, fun hyes => ⟨_, t, Settles.refl _, htaken hyes, rfl⟩⟩
  | false =>
    by_cases hready : admission = .ready
    · rw [if_pos ⟨hready, rfl⟩]
      exact ⟨fun hno => absurd hready hno, fun hyes => ⟨_, t, Settles.refl _, htaken hyes, rfl⟩⟩
    · rw [if_neg fun h => hready h.1]
      exact ⟨hwaits, fun hyes => absurd hyes hready⟩

theorem writeMessageAndFlush_offered :
    (s.writeMessageAndFlush m i replaced dropped).Holds (fun _ => True) (fun _ => R)
      (Offered R s m replaced (!m.more) dropped) := by
  rw [writeMessageAndFlush]
  apply writeMessage_offered.bind
  rintro ⟨admission, t⟩ ⟨hrefused, htaken⟩
  exact offered_flushLast hrefused htaken

theorem writeMessage_offered' :
    (s.writeMessage m e i max replaced).Holds (fun _ => True) (fun _ => R)
      (Offered R s m replaced false dropped) := by
  refine writeMessage_offered.imp fun x hx => ⟨fun hno => ?_, fun hyes => ?_⟩
  · obtain ⟨v, hv, ht⟩ := hx.1 hno
    exact ⟨v, hv.settles, ht⟩
  · exact ⟨_, x.2, Settles.refl _, hx.2 hyes, rfl⟩

theorem admitted_offered {admission : Access (Admission × Writer)}
    {go : Sender → Sending (Admission × Sender)}
    (hadmission : Runs R s.writer admission fun x => Settles R s.writer x.2)
    (hgo : ∀ t : Sender, (go t).Holds (fun _ => True) (fun _ => R)
      (Offered R t m replaced flushes dropped)) :
    (s.admitted admission go).Holds (fun _ => True) (fun _ => R)
      (Offered R s m replaced flushes dropped) := by
  rw [admitted]
  apply Prog.Holds.bind (P := fun x : Admission × Sender =>
    ∃ v, x.2 = s.withWriter v ∧ Settles R s.writer v)
  · rw [holds_within]
    exact hadmission.mono (fun _ _ => trivial) (fun _ _ h => h) fun x hx => ⟨x.2, rfl, hx⟩
  · rintro ⟨admission, t⟩ ⟨v, rfl, hv⟩
    dsimp only
    split
    · rename_i hno
      exact ⟨fun _ => ⟨v, hv, rfl⟩, fun hyes => absurd hyes hno⟩
    · exact (hgo _).imp fun x hx => hx.settled hv

theorem atRecordBoundary_of_waits (h : Waits R w v) (hboundary : w.atRecordBoundary = true) :
    v.atRecordBoundary = true := by
  rw [h.eq]
  exact hboundary

theorem writeSingle_offered (hboundary : s.writer.atRecordBoundary = true)
    (hcommits : m.commits = true) :
    (s.writeSingle m dropped).Holds (fun _ => True) (fun _ => R)
      (Offered R s m replaced true dropped) := by
  rw [writeSingle]
  split
  · exact ⟨fun _ => ⟨s.writer, Settles.refl _, rfl⟩, fun hyes => Admission.noConfusion hyes⟩
  apply Prog.Holds.bind (P := fun x : Bool × Sender =>
    ∃ v, x.2 = s.withWriter v ∧ Waits R s.writer v)
  · rw [holds_within]
    exact waits_awaitCommitCredit.imp fun x hx => ⟨x.2, rfl, hx⟩
  · rintro ⟨ready, t⟩ ⟨v, rfl, hv⟩
    cases ready with
    | false => exact ⟨fun _ => ⟨v, hv.settles, rfl⟩, fun hyes => Admission.noConfusion hyes⟩
    | true =>
      have hsingle : Goes R (s.withWriter v) m replaced
          (((s.withWriter v).withWriter (v.commitSingle m)).accountSingle v m) :=
        .single (atRecordBoundary_of_waits hv hboundary) hcommits
      exact ⟨fun hno => absurd rfl hno, fun _ => ⟨v, _, hv.settles, hsingle, rfl⟩⟩

theorem writeSingleMessageAndFlush_offered :
    (s.writeSingleMessageAndFlush m replaced dropped).Holds (fun _ => True) (fun _ => R)
      (Offered R s m replaced true dropped) := by
  have hstate := settles_writeStateAdmission (R := R) (w := s.writer)
  rw [writeSingleMessageAndFlush]
  generalize s.writer.writeStateAdmission = checked at hstate
  obtain ⟨admission, w⟩ := checked
  change Prog.Holds _ _ _ (if admission ≠ .ready then _ else _)
  split
  · rename_i hno
    exact ⟨fun _ => ⟨w, hstate, rfl⟩, fun hyes => absurd hyes hno⟩
  change Prog.Holds _ _ _ (if w.atRecordBoundary = true ∧ m.commits = true then _ else _)
  split
  · rename_i hsingle
    exact (writeSingle_offered (s := s.withWriter w) hsingle.1 hsingle.2).imp
      fun x hx => hx.settled hstate
  apply Prog.Holds.bind (P := fun x : Bool × Sender =>
    ∃ v, x.2 = s.withWriter v ∧ Settles R s.writer v)
  · rw [holds_within]
    exact hwmCreditReady_runs.mono (fun _ _ => trivial) (fun _ _ h => h)
      fun x hx => ⟨x.2, rfl, hstate.trans hx.1⟩
  · rintro ⟨ready, t⟩ ⟨v, rfl, hv⟩
    cases ready with
    | false => exact ⟨fun _ => ⟨v, hv, rfl⟩, fun hyes => Admission.noConfusion hyes⟩
    | true =>
      apply writeMessage_offered.bind
      rintro ⟨admission, t⟩ ⟨hrefused, htaken⟩
      dsimp only
      split
      · rename_i hready
        exact ⟨fun hno => absurd rfl hno, fun _ => ⟨v, t, hv, htaken hready, rfl⟩⟩
      · rename_i hno
        refine ⟨fun _ => ?_, fun hyes => absurd hyes hno⟩
        obtain ⟨u, hu, ht⟩ := hrefused hno
        exact ⟨u, hv.trans hu.settles, ht⟩

theorem writeVia_offered (entry : Entry) :
    (s.writeVia entry m replaced dropped).Holds (fun _ => True) (fun _ => R)
      (Offered R s m replaced (entry.flushes m) dropped) := by
  cases entry with
  | perFrame =>
    rw [writeVia, write]
    exact admitted_offered admitWrite_runs fun t => writeMessage_offered'
  | flushed | observed =>
    exact admitted_offered admitWrite_runs fun t => writeMessageAndFlush_offered
  | ownerStarted =>
    exact admitted_offered admitOwnerStartedWrite_runs fun t => writeMessageAndFlush_offered
  | noRecursiveHwmCheck =>
    rw [writeVia, writeNoRecursiveHwmCheck]
    exact admitted_offered admitWrite_runs fun t => writeMessage_offered'
  | single => exact writeSingleMessageAndFlush_offered

theorem writeUnenforced_offered :
    (s.writeUnenforced m replaced dropped).Holds (fun _ => True) (fun _ => R)
      (Offered R s m replaced (!m.more) dropped) := by
  rw [writeUnenforced]
  apply writeMessage_offered.bind
  rintro ⟨admission, t⟩ ⟨hrefused, htaken⟩
  exact offered_flushLast hrefused htaken

theorem isDelimiter_of_recordWellFormed {parts : List Frame} (h : recordWellFormed parts = true) :
    ∀ m ∈ parts, m.isDelimiter = false := by
  induction parts with
  | nil =>
    intro m hm
    cases hm
  | cons first rest ih =>
    cases rest with
    | nil =>
      intro m hm
      obtain rfl := List.mem_singleton.mp hm
      exact (Frame.commits_iff.mp (commits_of_recordWellFormed h)).2
    | cons second rest =>
      rw [recordWellFormed] at h
      · rw [Bool.and_eq_true, Bool.and_eq_true, Bool.and_eq_true, Bool.and_eq_true] at h
        intro m hm
        rcases List.mem_cons.mp hm with rfl | hm
        · exact by simpa using h.1.1.1.2
        · exact ih h.2 m hm
      · simp

theorem Balanced.writeParts {parts : List Frame} (h : s.Balanced)
    (hdata : ∀ m ∈ parts, m.isDelimiter = false) :
    (s.writeParts max parts).Holds (fun _ => True) (fun _ => R) Balanced := by
  induction parts generalizing s with
  | nil => exact h
  | cons m parts ih =>
    rw [Sender.writeParts]
    apply Prog.Holds.bind (P := Offered R s m [] false fun _ => []) writeMessage_offered'
    rintro ⟨admission, t⟩ ht
    exact ih (ht.balanced h (hdata m List.mem_cons_self)) fun m hm =>
      hdata m (List.mem_cons_of_mem _ hm)

theorem Balanced.tryWriteCompleteRecordAndFlush {parts : List Frame} (h : s.Balanced) :
    (s.tryWriteCompleteRecordAndFlush parts dropped).Holds (fun _ => True) (fun _ => R)
      fun x => x.2.Balanced := by
  have hstate := h.settles (settles_writeStateAdmission (R := R) (w := s.writer))
  rw [Sender.tryWriteCompleteRecordAndFlush]
  split
  · exact h
  generalize s.writer.writeStateAdmission = checked at hstate
  obtain ⟨admission, w⟩ := checked
  change Prog.Holds _ _ _ (if admission ≠ .ready ∨ w.atRecordBoundary = false ∨
    recordWellFormed parts = false then _ else _)
  split
  · exact hstate
  rename_i hchecked
  have hwhole := (boundary_of_not_refused hchecked).2.2.2
  split
  · exact hstate
  rename_i total size hcount
  change Prog.Holds _ _ _ (if w.maxMessageBytes ≠ 0 ∧ w.maxMessageBytes < size then _ else _)
  split
  · exact hstate
  apply Prog.Holds.bind (P := fun x : Bool × Sender => x.2.Balanced)
  · rw [holds_within]
    exact waits_canCommitBytesWithPeerSnapshot.imp fun x hx => hstate.settles hx.settles
  · rintro ⟨ready, t⟩ ht
    cases ready with
    | false => exact ht
    | true =>
      apply (Balanced.writeParts ht (isDelimiter_of_recordWellFormed hwhole)).bind
      intro u hu
      exact hu.flush

theorem Balanced.asked (h : s.Balanced) (hv : Asked R s.writer v) : (s.withWriter v).Balanced := by
  refine h.withWriter ?_ ?_ ?_ ?_
  · refine ⟨?_, ?_, ?_, ?_, fun r hr => ?_⟩
    · rw [hv.eq]
      exact h.standing.bytes
    · rw [hv.eq]
      exact h.standing.payload
    · rw [hv.eq]
      exact h.standing.bounded
    · rw [hv.eq]
      exact h.standing.started
    · exact (hv.granted r hr).elim (h.standing.reserved r) id
  all_goals rw [hv.eq]

theorem Balanced.plain (h : s.Balanced) {op : Op} (hplain : op.plain = true) :
    (op.program s.writer).Holds (fun _ => True) (fun _ => R) fun x =>
      (s.withWriter x.2).Balanced := by
  have hruns : (op.program s.writer).Holds (fun _ => True) (fun _ => R) (op.Post R s.writer) :=
    (op.runs (R := R)).mono (fun _ _ => trivial) (fun _ _ h => h) fun x hx => hx
  cases op with
  | checkWrite | checkPublishRecordHwm | admitOwnerMessageStart | holdWrites | releaseWrites
  | flowState | takeHwmCreditRecovery | refreshWriteCredit =>
    exact hruns.imp fun x hx => h.settles hx
  | setMaxMessageBytes maxMessageBytes =>
    exact h.withWriter (h.standing.congr rfl rfl rfl rfl rfl) rfl rfl rfl
  | retire state =>
    exact h.retire state
  | reserve payloadBytes msgFlags recvRoutingId =>
    exact asked_reserveInboundDecoderFrame.imp fun x hx => h.asked hx
  | write | completeRecord | flush | rollback | push | engineError | setHwm | terminate =>
    cases hplain

theorem Balanced.perform (h : s.Balanced) {act : Act} (hfits : s.Fits act) :
    (s.perform dropped act).Holds (fun _ => True) (fun _ => R) fun x => x.2.Balanced := by
  cases act with
  | plain op =>
    rw [Sender.perform, holds_within]
    exact h.plain op.2
  | write entry m replaced =>
    exact (writeVia_offered entry).bind fun x hx => hx.balanced h rfl
  | unenforced m replaced => exact writeUnenforced_offered.bind fun x hx => hx.balanced h rfl
  | completeRecord parts => exact h.tryWriteCompleteRecordAndFlush
  | flush => exact h.flush
  | rollback => exact h.rollback _ _
  | push m recvRoutingId replaced => exact h.pushDecoded hfits rfl
  | engineError => exact h.engineError
  | control control deferFlush => exact h.writeControlAndFlush control deferFlush
  | publishControls => exact h.publishControls
  | setHwms hwm sampled => exact h.setHwms hwm sampled
  | setRoute route => exact h.reports _ _ route
  | terminate delay => exact h.terminate delay
  | activateWrite generation credit => exact h.activateWrite generation credit
  | hiccup generation left => exact h.processHiccup generation left
  | releaseFrames frameBytes count => exact h.releaseFrames frameBytes count

theorem balanced_init (hwm : ℕ) (conflate : Bool) (lane : QueueLane) (route : ControlRoute) :
    (init hwm conflate lane route).Balanced where
  standing := .empty rfl rfl rfl rfl fun r hr => by cases hr
  total := rfl
  provisional := rfl
  charged ha := by
    refine ⟨fun hlane => ?_, rfl, .inl rfl⟩
    obtain rfl : lane = .application := hlane
    cases ha

theorem Reachable.balanced (h : Reachable s) : s.Balanced := by
  induction h with
  | init hwm conflate lane route => exact balanced_init hwm conflate lane route
  | step h hstep ih =>
    obtain ⟨dropped, hfits, hyields⟩ := hstep
    exact (ih.perform (R := fun _ => True) hfits).of_yields hyields

end Sender

end Zlink.Pipe
