import Zlink.Pipe.Reached
import Zlink.Pipe.RecordAgreement

/-!
# What a rollback restores

The state at the boundary before a record is carried along while the record is open, and with it
what is done meanwhile that does not belong to the record. Rolled back, the sender is in that state
again; only the marks of the flow are as they have become.
-/

namespace Zlink.Pipe

open Protocol Suspension Writer

variable {R : Ledger → Prop} {w v u c : Writer} {s t b : Sender} {m : Frame} {replaced : List Frame}
  {dropped : PeerControl → List Frame} {q : QueueRegistry} {max : ℕ} {e i : Bool}

namespace QueueRegistry

def settled (q : QueueRegistry) : QueueRegistry :=
  { q with provisionalAccountedBytes := 0 }.applyDeferredHwmIfDrained

theorem Charged.rollback_eq {incomplete : ℕ} (h : q.Charged incomplete) :
    q.rollbackProvisional incomplete = q.settled := by
  rw [rollbackProvisional, settled, h.provisional, Nat.sub_self]
  split
  · rename_i hzero
    have hq : { q with provisionalAccountedBytes := 0 } = q := by
      rw [← hzero, ← h.provisional]
    rw [hq, h.planned.applyDeferred]
  · rfl

theorem Charged.settled_accountProvisionalFrame {incomplete bytes : ℕ} (h : q.Charged incomplete)
    (hroom : incomplete + bytes ≤ uint64Max) :
    (q.accountProvisionalFrame bytes).settled = q.settled := by
  rw [h.accountProvisionalFrame hroom]
  rfl

theorem Charged.rollback_accountProvisionalFrame {incomplete bytes : ℕ} (h : q.Charged incomplete)
    (hroom : incomplete + bytes ≤ uint64Max) :
    (q.accountProvisionalFrame bytes).rollbackProvisional (incomplete + bytes) =
      q.rollbackProvisional incomplete := by
  rw [(h.grow hroom).rollback_eq, h.rollback_eq, h.settled_accountProvisionalFrame hroom]

theorem applyDeferredHwmIfDrained_eq (q : QueueRegistry) : q.applyDeferredHwmIfDrained = { q with
      appliedHwm :=
        if q.plannedHwm = 0 ∨ q.currentBytes ≤ q.plannedHwm then q.plannedHwm
        else q.appliedHwm } := by
  rw [applyDeferredHwmIfDrained]
  split
  · rename_i hsame
    have happlied : (if q.plannedHwm = 0 ∨ q.currentBytes ≤ q.plannedHwm then q.plannedHwm
        else q.appliedHwm) = q.appliedHwm := by
      rw [hsame, ite_self]
    rw [happlied]
  · split <;> rfl

theorem applyDeferred_applyDeferred (q full : QueueRegistry)
    (hplanned : full.plannedHwm = q.plannedHwm) (happlied : full.appliedHwm = q.appliedHwm)
    (hle : q.currentBytes ≤ full.currentBytes) :
    { q with appliedHwm := full.applyDeferredHwmIfDrained.appliedHwm }.applyDeferredHwmIfDrained =
      q.applyDeferredHwmIfDrained := by
  rw [applyDeferredHwmIfDrained_eq, applyDeferredHwmIfDrained_eq, applyDeferredHwmIfDrained_eq]
  change { q with
    appliedHwm := if q.plannedHwm = 0 ∨ q.currentBytes ≤ q.plannedHwm then _ else _ } = _
  by_cases happly : q.plannedHwm = 0 ∨ q.currentBytes ≤ q.plannedHwm
  · rw [if_pos happly, if_pos happly]
  · rw [if_neg happly, if_neg happly]
    rw [hplanned, happlied, if_neg fun h => happly (h.imp_right hle.trans)]

theorem settled_releaseCommittedFrame {bytes count : ℕ}
    (hbounded : q.provisionalAccountedBytes ≤ uint64Max) :
    (q.releaseCommittedFrame bytes count).settled =
      q.settled.releaseCommittedFrame bytes count := by
  rw [releaseCommittedFrame, releaseCommittedFrame]
  split
  · rfl
  set pending := if q.lane = QueueLane.completion then q.completionPendingMessageCount - count
    else q.completionPendingMessageCount
  set full : QueueRegistry :=
    { q with
      committedAccountedBytes := q.committedAccountedBytes - bytes
      completionPendingMessageCount := pending }
  set before : QueueRegistry := { q with provisionalAccountedBytes := 0 }
  set freed : QueueRegistry := { full with provisionalAccountedBytes := 0 }
  have hfull : freed.currentBytes ≤ full.currentBytes :=
    satAdd_le_satAdd (Nat.zero_le _) hbounded (Nat.add_le_add_right (Nat.zero_le _) _)
  have hbefore : freed.currentBytes ≤ before.currentBytes :=
    satAdd_le_satAdd (Nat.zero_le _) (Nat.zero_le _) (Nat.add_le_add_left (Nat.sub_le _ _) _)
  calc { full.applyDeferredHwmIfDrained with
        provisionalAccountedBytes := 0 }.applyDeferredHwmIfDrained =
      { freed with
        appliedHwm := full.applyDeferredHwmIfDrained.appliedHwm }.applyDeferredHwmIfDrained := by
        rw [applyDeferredHwmIfDrained_eq full]
    _ = freed.applyDeferredHwmIfDrained := applyDeferred_applyDeferred freed full rfl rfl hfull
    _ = { freed with
        appliedHwm := before.applyDeferredHwmIfDrained.appliedHwm }.applyDeferredHwmIfDrained :=
      (applyDeferred_applyDeferred freed before rfl rfl hbefore).symm
    _ = { before.applyDeferredHwmIfDrained with
        committedAccountedBytes := q.committedAccountedBytes - bytes
        completionPendingMessageCount := pending }.applyDeferredHwmIfDrained := by
        rw [applyDeferredHwmIfDrained_eq before]
    _ = _ := by
        rw [settled, applyDeferredHwmIfDrained_eq before]

theorem Charged.rollback_releaseCommittedFrame {incomplete bytes count : ℕ}
    (h : q.Charged incomplete) (hbounded : incomplete ≤ uint64Max) :
    (q.releaseCommittedFrame bytes count).rollbackProvisional incomplete =
      (q.rollbackProvisional incomplete).releaseCommittedFrame bytes count := by
  rw [h.release.rollback_eq, h.rollback_eq,
    settled_releaseCommittedFrame (h.provisional.trans_le hbounded)]

end QueueRegistry

namespace Writer

def remark (w v : Writer) : Writer :=
  { w with
    peersMsgsRead := v.peersMsgsRead
    peersBytesRead := v.peersBytesRead
    outActive := v.outActive
    waitingForByteCredit := v.waitingForByteCredit
    waitingForFlowResume := v.waitingForFlowResume
    transportPairWriteHeld := v.transportPairWriteHeld
    remoteFlowPaused := v.remoteFlowPaused
    remoteFlowEpoch := v.remoteFlowEpoch
    reservation := v.reservation }

/-- The writer `c` at the boundary before a record, restored from `w`. -/
def restored (c w : Writer) : Writer :=
  { c.remark w with
    outOwnerMessageStarted := false
    outOwnerMessageStartPending := false
    decoderMultipartStartedEmpty := false }

/-- Up to the record in progress, the writers differ by marks. -/
def Aside (w v : Writer) : Prop :=
  v.rollback = w.rollback.remark v

theorem Aside.restored (h : Aside w v) (hw : w.rollback = c.restored w) :
    v.rollback = c.restored v := by
  rw [h, hw]
  rfl

theorem Aside.registryAccounting (h : Aside w v) : v.registryAccounting = w.registryAccounting :=
  calc v.registryAccounting = v.rollback.registryAccounting := rfl
    _ = (w.rollback.remark v).registryAccounting := congrArg _ h

theorem Settles.aside (h : Settles R w v) : Aside w v := by
  rw [Aside, h.eq]
  rfl

theorem Asked.aside (h : Asked R w v) : Aside w v := by
  rw [Aside, h.eq]
  rfl

theorem Counted.aside (h : Counted R w m u) (hmore : m.more = true) :
    Aside w (u.settleFrame m replaced) := by
  rw [Aside, settleFrame_of_more u hmore, h.eq]
  rfl

theorem aside_release (w : Writer) : Aside w w.releaseDecoderFrameReservation := rfl

theorem aside_processActivateWrite (w : Writer) (generation : ℕ) (credit : Ledger) :
    Aside w (w.processActivateWrite generation credit) := by
  rw [processActivateWrite]
  split
  · dsimp only
    split <;> rfl
  · rfl

theorem restored_flush (hw : w.rollback = c.restored w) :
    w.flush.rollback = c.flush.restored w.flush := by
  have hstate : w.rollback.state = (c.restored w).state := congrArg _ hw
  change w.state = c.state at hstate
  rw [Writer.flush, Writer.flush]
  by_cases hack : c.state = .termAckSent
  · rw [if_pos hack, if_pos (hstate.trans hack)]
    exact hw
  · rw [if_neg hack, if_neg (hstate.symm ▸ hack)]
    exact congrArg (fun x : Writer =>
      { x with outCompleteRecordPending := false, outPipe := x.outPipe.flush }) hw

end Writer

def Op.setting (op : Op) (w : Writer) : Writer :=
  match op with
  | setMaxMessageBytes maxMessageBytes => { w with maxMessageBytes }
  | retire state => w.transitionToInactiveState state
  | _ => w

namespace Sender

/-- The act does not end the record in progress. The mark of a queue whose bytes the registry
counts is left alone: its plan may have to wait for the record. -/
def Inside (s : Sender) (accepted : Bool) : Act → Prop
  | .plain _ | .setRoute _ | .activateWrite _ _ | .releaseFrames _ _ => True
  | .write _ m _ | .unenforced m _ => accepted = true → (Frame.data m).more = true
  | .completeRecord _ => accepted = false
  | .push m recvRoutingId replaced =>
    ((Frame.data m).isRoutingId && !recvRoutingId) = true ∨ ((Frame.data m).more = true ∧
        (s.writer.writeReservedDecoderFrame (.data m) replaced).1 = true)
  | .flush | .publishControls => s.writer.outIncompleteBytes ≠ 0
  | .control _ deferFlush => deferFlush = true ∨ s.writer.outIncompleteBytes ≠ 0
  | .setHwms _ _ => s.writer.registryAccounting = false
  | .rollback | .engineError | .terminate _ | .hiccup _ _ => False

def beside (b : Sender) (accepted : Bool) : Act → Sender
  | .plain op => b.withWriter (op.1.setting b.writer)
  | .write entry m _ => if accepted && entry.flushes (.data m) then b.flushQueue else b
  | .flush => b.flushQueue
  | .setHwms hwm sampled => b.setHwms hwm sampled
  | .setRoute route => b.setRoute route
  | .releaseFrames frameBytes countedMessageCount => b.releaseFrames frameBytes countedMessageCount
  | _ => b

/-- The sender `t` has been reached from a record boundary, and no record has ended since; `b` is
the sender at the boundary, with what was done beside the record. -/
inductive During : Sender → Sender → Prop where
  | boundary {b : Sender} (h : Reachable b) (hzero : b.writer.outIncompleteBytes = 0) : During b b
  | step {b s t : Sender} {act : Act} {accepted : Bool} (h : During b s)
      (hstep : s.Step act accepted t) (hinside : s.Inside accepted act) :
      During (b.beside accepted act) t

end Sender

namespace Sender

def rolledRegistry (s : Sender) : QueueRegistry :=
  if s.writer.registryAccounting then s.registry.rollbackProvisional s.writer.outIncompleteBytes
  else s.registry

/-- The sender `b` at the boundary before a record, restored from `t`. -/
def restored (b t : Sender) : Sender :=
  { b with writer := b.writer.restored t.writer, controls := t.controls }

/-- The record in progress of `t` was opened at the boundary at which `b` stands. -/
structure Opened (b t : Sender) : Prop where
  balanced : b.Balanced
  boundary : b.writer.outIncompleteBytes = 0
  writer : t.writer.rollback = b.writer.restored t.writer
  registry : t.rolledRegistry = b.registry
  eq : t = { b with
    writer := t.writer
    registry := t.registry
    publishedOutboundTotalBytes := t.publishedOutboundTotalBytes
    publishedOutboundProvisionalBytes := t.publishedOutboundProvisionalBytes
    controls := t.controls }

namespace Opened

theorem start (hb : b.Balanced) (hzero : b.writer.outIncompleteBytes = 0) : Opened b b where
  balanced := hb
  boundary := hzero
  writer := by
    obtain ⟨hopened, hpay, hstarted⟩ := hb.standing.boundary hzero
    have hpipe : b.writer.outPipe.unwriteAll = b.writer.outPipe := by
      rw [OutPipe.unwriteAll, ← hopened]
    rw [Writer.rollback, hpipe, Writer.restored, remark, hzero, hpay, hstarted]
  registry := by
    rw [rolledRegistry, hzero, QueueRegistry.rollbackProvisional, if_pos rfl, ite_self]
  eq := rfl

theorem rollbackRecord (h : Opened b t) : t.rollbackRecord = b.restored t := by
  have hregistry := h.registry
  rw [rolledRegistry] at hregistry
  rw [Sender.rollbackRecord, hregistry, h.writer]
  change ({ t with
    registry := b.registry
    writer := b.writer.restored t.writer
    publishedOutboundTotalBytes := satAdd b.writer.bytesWritten b.writer.outIncompleteBytes
    publishedOutboundProvisionalBytes := b.writer.outIncompleteBytes } : Sender) = _
  rw [← h.balanced.total, ← h.balanced.provisional, h.eq]
  rfl

theorem aside (h : Opened b t) (hv : Aside t.writer v)
    (hbytes : v.outIncompleteBytes = t.writer.outIncompleteBytes) : Opened b (t.withWriter v) where
  balanced := h.balanced
  boundary := h.boundary
  writer := hv.restored h.writer
  registry := by
    rw [← h.registry, rolledRegistry, rolledRegistry]
    change (if v.registryAccounting then _ else _) = _
    rw [hv.registryAccounting]
    change (if t.writer.registryAccounting then
      t.registry.rollbackProvisional v.outIncompleteBytes else _) = _
    rw [hbytes]
    rfl
  eq := by
    rw [h.eq]
    rfl

theorem grow (changed : Bool) (h : Opened b t) (ht : t.Balanced) (hv : Aside t.writer v)
    (hbytes : v.outIncompleteBytes = t.writer.outIncompleteBytes + m.accountedBytes)
    (hroom : t.writer.outIncompleteBytes + m.accountedBytes ≤ uint64Max) : Opened b (({ t with
      registry :=
        if t.writer.registryAccounting then t.registry.accountProvisionalFrame m.accountedBytes
        else t.registry }.withWriter v).publishOutboundAccounting changed) where
  balanced := h.balanced
  boundary := h.boundary
  writer := hv.restored h.writer
  registry := by
    rw [← h.registry, rolledRegistry, rolledRegistry]
    change (if v.registryAccounting then QueueRegistry.rollbackProvisional
      (if t.writer.registryAccounting then _ else _) v.outIncompleteBytes else
      (if t.writer.registryAccounting then _ else _)) = _
    rw [hv.registryAccounting, hbytes]
    by_cases ha : t.writer.registryAccounting = true
    · rw [if_pos ha, if_pos ha, if_pos ha]
      exact (ht.charged ha).rollback_accountProvisionalFrame hroom
    · rw [if_neg ha, if_neg ha, if_neg ha]
  eq := by
    rw [h.eq]
    rfl

theorem reports (h : Opened b t) (controls : PendingControls) : Opened b { t with controls } where
  balanced := h.balanced
  boundary := h.boundary
  writer := h.writer
  registry := h.registry
  eq := by
    rw [h.eq]

theorem flushQueue (h : Opened b t) : Opened b.flushQueue t.flushQueue where
  balanced := h.balanced.flushQueue
  boundary := (outIncompleteBytes_flushQueue b).trans h.boundary
  writer := restored_flush h.writer
  registry := by
    change _ = b.registry
    rw [← h.registry, rolledRegistry, rolledRegistry, outIncompleteBytes_flushQueue]
    change (if t.writer.flush.registryAccounting then _ else _) = _
    rw [flush_eq]
    rfl
  eq := by
    rw [h.eq]
    rfl

theorem setRoute (h : Opened b t) (route : ControlRoute) :
    Opened (b.setRoute route) (t.setRoute route) where
  balanced := h.balanced.reports _ _ route
  boundary := h.boundary
  writer := h.writer
  registry := h.registry
  eq := by
    rw [h.eq]
    rfl

theorem registryAccounting (h : Opened b t) :
    t.writer.registryAccounting = b.writer.registryAccounting :=
  calc t.writer.registryAccounting = t.writer.rollback.registryAccounting := rfl
    _ = (b.writer.restored t.writer).registryAccounting := congrArg _ h.writer

theorem releaseFrames (h : Opened b t) (ht : t.Balanced) (bytes count : ℕ) :
    Opened (b.releaseFrames bytes count) (t.releaseFrames bytes count) := by
  have hbalanced := h.balanced.releaseFrames bytes count
  rw [Sender.releaseFrames] at hbalanced ⊢
  rw [Sender.releaseFrames, h.registryAccounting]
  by_cases ha : b.writer.registryAccounting = true
  · rw [if_pos ha] at hbalanced ⊢
    rw [if_pos ha]
    refine ⟨hbalanced, h.boundary, h.writer, ?_, ?_⟩
    · have hat := h.registryAccounting.trans ha
      change _ = b.registry.releaseCommittedFrame bytes count
      rw [← h.registry, rolledRegistry, rolledRegistry, if_pos hat, if_pos hat]
      exact (ht.charged hat).rollback_releaseCommittedFrame ht.standing.bounded
    · rw [h.eq]
  · rw [if_neg ha, if_neg ha]
    exact h

theorem setHwms (h : Opened b t) (ha : t.writer.registryAccounting = false) (hwm sampled : ℕ) :
    Opened (b.setHwms hwm sampled) (t.setHwms hwm sampled) where
  balanced := h.balanced.setHwms hwm sampled
  boundary := h.boundary
  writer := congrArg (fun x : Writer => { x with hwm }) h.writer
  registry := by
    have hregistry := h.registry
    rw [rolledRegistry, ha] at hregistry
    change t.registry = b.registry at hregistry
    rw [rolledRegistry]
    change (if t.writer.registryAccounting then _ else _) = _
    rw [ha, Sender.setHwms, Sender.setHwms, hregistry]
    rfl
  eq := by
    rw [h.eq]
    rfl

theorem setMaxMessageBytes (h : Opened b t) (maxMessageBytes : ℕ) :
    Opened (b.withWriter { b.writer with maxMessageBytes })
      (t.withWriter { t.writer with maxMessageBytes }) where
  balanced := h.balanced.withWriter (h.balanced.standing.congr rfl rfl rfl rfl rfl) rfl rfl rfl
  boundary := h.boundary
  writer := congrArg (fun x : Writer => { x with maxMessageBytes }) h.writer
  registry := h.registry
  eq := by
    rw [h.eq]
    rfl

theorem retire (h : Opened b t) (state : LifecycleState) :
    Opened (b.withWriter (b.writer.transitionToInactiveState state))
      (t.withWriter (t.writer.transitionToInactiveState state)) := by
  have hbalanced := h.balanced.retire state
  rw [transitionToInactiveState] at hbalanced ⊢
  rw [transitionToInactiveState]
  split
  · exact h
  · rename_i hstate
    rw [if_neg hstate] at hbalanced
    refine ⟨hbalanced, h.boundary, ?_, h.registry, ?_⟩
    · exact congrArg (fun x : Writer => { x with state }) h.writer
    · rw [h.eq]
      rfl

theorem betweenRecords_of_open (hopen : t.writer.outIncompleteBytes ≠ 0) :
    t.betweenRecords = false := by
  rw [betweenRecords, beq_eq_false_iff_ne.mpr hopen]
  rfl

theorem flush_of_open (hopen : t.writer.outIncompleteBytes ≠ 0) :
    t.flush dropped = t.flushQueue := by
  rw [Sender.flush, betweenRecords_of_open hopen, Bool.and_false, if_neg Bool.false_ne_true]
  split
  · rename_i hack
    rw [Sender.flushQueue, Writer.flush, if_pos hack]
    rfl
  · rfl

theorem flush (h : Opened b t) (hopen : t.writer.outIncompleteBytes ≠ 0) :
    Opened b.flushQueue (t.flush dropped) := by
  rw [flush_of_open hopen]
  exact h.flushQueue

theorem settles (h : Opened b t) (hv : Settles R t.writer v) : Opened b (t.withWriter v) :=
  h.aside hv.aside hv.outIncompleteBytes

theorem not_countedPending_of_more (hmore : m.more = true) : m.countedPending = false := by
  rw [Frame.countedPending, hmore]
  rfl

theorem releaseReplaced_of_more (s : Sender) (hmore : m.more = true) :
    s.releaseReplaced m replaced = s := by
  rw [releaseReplaced, hmore, Bool.not_true, Bool.and_false, if_neg Bool.false_ne_true]

theorem accountFrame_of_more (s : Sender) (w : Writer) (hmore : m.more = true) :
    s.accountFrame w m replaced = ({ s with
      registry :=
        if w.registryAccounting then s.registry.accountProvisionalFrame m.accountedBytes
        else s.registry }).publishOutboundAccounting true := by
  rw [accountFrame]
  simp only [not_countedPending_of_more hmore, Bool.false_and, Bool.false_eq_true, if_false,
    releaseReplaced_of_more _ hmore, hmore, Bool.true_or]
  rw [chargeFrame, hmore]
  cases w.registryAccounting <;> rfl

theorem goes (h : Opened b s) (hs : s.Balanced) (hmore : m.more = true)
    (hgoes : Goes R s m replaced t) : Opened b t ∧ t.writer.outIncompleteBytes ≠ 0 := by
  cases hgoes with
  | frame counted sized =>
    rename_i u max
    have hbytes : (u.settleFrame m replaced).outIncompleteBytes =
        s.writer.outIncompleteBytes + m.accountedBytes := by
      rw [settleFrame_of_more u hmore, counted.eq]
      rfl
    rw [accountFrame_of_more _ _ hmore]
    constructor
    · exact h.grow true hs (counted.aside hmore) hbytes (record_le_of_not_oversized sized)
    · have hpos := m.accountedBytes_pos
      change (u.settleFrame m replaced).outIncompleteBytes ≠ 0
      omega
  | single boundary commits =>
    rw [Frame.commits_of_more hmore] at commits
    cases commits

theorem offered {accepted flushes : Bool} {x : Admission × Sender} (h : Opened b s)
    (hs : s.Balanced) (hx : Offered R s m replaced flushes dropped x)
    (haccepted : decide (x.1 = .ready) = accepted) (hmore : accepted = true → m.more = true) :
    Opened (if accepted && flushes then b.flushQueue else b) x.2 := by
  cases accepted with
  | false =>
    obtain ⟨v, hv, hrefused⟩ := hx.refused (of_decide_eq_false haccepted)
    rw [hrefused]
    exact h.settles hv
  | true =>
    obtain ⟨v, t, hv, hgoes, htaken⟩ := hx.taken (of_decide_eq_true haccepted)
    obtain ⟨hopened, hopen⟩ := (h.settles hv).goes (hs.settles hv) (hmore rfl) hgoes
    rw [htaken, flushIf, Bool.true_and]
    cases flushes with
    | false => exact hopened
    | true => exact hopened.flush hopen

theorem pushed (h : Opened b (s.withWriter w)) (hs : (s.withWriter w).Balanced)
    (hmonitor : s.registry.lane ≠ .monitor) (hmore : m.more = true) (hsize : ¬w.Oversized m max) :
    Opened b ((s.withWriter (w.settleReserved m m.accountedBytes m.size replaced)).accountPushed w m
      m.accountedBytes replaced) := by
  have heq := settleReserved_eq w m replaced
  rw [settleFrame_of_more _ hmore, Frame.commits_of_more hmore] at heq
  generalize w.settleReserved m m.accountedBytes m.size replaced = v at heq
  have hv : Aside w v := by
    rw [heq]
    rfl
  have hbytes : v.outIncompleteBytes = w.outIncompleteBytes + m.accountedBytes := by
    rw [heq]
    rfl
  have hgrown : Opened b _ :=
    h.grow (m.more || w.outIncompleteBytes != 0) hs hv hbytes (record_le_of_not_oversized hsize)
  have hregistry (ha : w.registryAccounting = true) :
      (s.withWriter v).registry.commitDecoderFrame w.outIncompleteBytes m.accountedBytes m.more
        m.countedPending = s.registry.accountProvisionalFrame m.accountedBytes := by
    have hlane := (hs.charged ha).lane
    change s.registry.lane ≠ .application at hlane
    change s.registry.commitDecoderFrame _ _ _ _ = _
    rw [QueueRegistry.commitDecoderFrame, hmore]
    cases hq : s.registry.lane with
    | application => exact absurd hq hlane
    | monitor => exact absurd hq hmonitor
    | completion => rfl
  rw [accountPushed]
  simp only [releaseReplaced_of_more _ hmore, Frame.commits_of_more hmore, Bool.false_eq_true,
    false_and, if_false]
  by_cases ha : w.registryAccounting = true
  · rw [if_pos ha, hregistry ha]
    change Opened b (Sender.publishOutboundAccounting
      (({ s.withWriter w with registry := if w.registryAccounting then _ else _ }).withWriter v) _)
      at hgrown
    rw [if_pos ha] at hgrown
    exact hgrown
  · rw [if_neg ha]
    change Opened b (Sender.publishOutboundAccounting
      (({ s.withWriter w with registry := if w.registryAccounting then _ else _ }).withWriter v) _)
      at hgrown
    rw [if_neg ha] at hgrown
    exact hgrown

theorem pushDecoded {recvRoutingId : Bool} (h : Opened b s) (hs : s.Balanced)
    (hmonitor : s.registry.lane ≠ .monitor) (hinside : (m.isRoutingId && !recvRoutingId) = true ∨
      (m.more = true ∧ (s.writer.writeReservedDecoderFrame m replaced).1 = true)) :
    Opened b (s.pushDecoded m recvRoutingId replaced dropped) := by
  have hreleased := h.aside (aside_release s.writer) rfl
  rw [Sender.pushDecoded]
  split
  · exact hreleased
  rename_i hwanted
  obtain ⟨hmore, htaken⟩ := hinside.resolve_left hwanted
  rcases writeReservedDecoderFrame_cases m replaced hs.standing with
    ⟨r, hr, hframe, hsize, heq⟩ | heq
  · rw [heq, hr]
    change Opened b ((s.withWriter _).accountPushed s.writer m r.frameBytes replaced)
    rw [hframe]
    exact hreleased.pushed hs.release hmonitor hmore hsize
  · rw [heq] at htaken
    cases htaken

theorem plain (h : Opened b s) {op : Op} (hplain : op.plain = true) :
    (op.program s.writer).Holds (fun _ => True) (fun _ => R) fun x =>
      Opened (b.withWriter (op.setting b.writer)) (s.withWriter x.2) := by
  have hruns : (op.program s.writer).Holds (fun _ => True) (fun _ => R) (op.Post R s.writer) :=
    (op.runs (R := R)).mono (fun _ _ => trivial) (fun _ _ h => h) fun x hx => hx
  cases op with
  | checkWrite | checkPublishRecordHwm | admitOwnerMessageStart | holdWrites | releaseWrites
  | flowState | takeHwmCreditRecovery | refreshWriteCredit =>
    exact hruns.imp fun x hx => h.settles hx
  | setMaxMessageBytes maxMessageBytes => exact h.setMaxMessageBytes maxMessageBytes
  | retire state => exact h.retire state
  | reserve payloadBytes msgFlags recvRoutingId =>
    refine asked_reserveInboundDecoderFrame.imp fun x hx => h.aside hx.aside ?_
    rw [hx.eq]
  | write | completeRecord | flush | rollback | push | engineError | setHwm | terminate =>
    cases hplain

theorem untouched (h : Opened b s) (ht : Untouched R s t) : Opened b t := by
  rw [ht.eq]
  exact h.aside rfl rfl

theorem writeControlAndFlush {deferFlush : Bool} (h : Opened b s) (control : PeerControl)
    (hinside : deferFlush = true ∨ s.writer.outIncompleteBytes ≠ 0) :
    Opened b (s.writeControlAndFlush control deferFlush dropped) := by
  have hwaits : (deferFlush || !s.betweenRecords) = true := by
    rcases hinside with rfl | hopen
    · rfl
    · rw [betweenRecords_of_open hopen, Bool.not_false, Bool.or_true]
  rw [Sender.writeControlAndFlush, hwaits]
  split
  · exact h
  · exact h.reports _

theorem publishControls (h : Opened b s) (hopen : s.writer.outIncompleteBytes ≠ 0) :
    Opened b (s.publishControls dropped) := by
  rw [Sender.publishControls]
  split
  · rw [flushPendingControls, betweenRecords_of_open hopen, Bool.and_false, Bool.false_and,
      Bool.false_and, if_neg Bool.false_ne_true]
    exact h
  · exact h.reports _

theorem perform (h : Opened b s) (hs : s.Balanced) {act : Act} (hfits : s.Fits act) :
    (s.perform dropped act).Holds (fun _ => True) (fun _ => R) fun x =>
      s.Inside x.1 act → Opened (b.beside x.1 act) x.2 := by
  cases act with
  | plain op =>
    rw [Sender.perform, holds_within]
    exact (h.plain op.2).imp fun x hx _ => hx
  | write entry m replaced =>
    exact (writeVia_offered entry).bind fun x hx hinside => h.offered hs hx rfl hinside
  | unenforced m replaced =>
    refine writeUnenforced_offered.bind fun x hx hinside => ?_
    have hopened := h.offered hs hx rfl hinside
    cases hready : decide (x.1 = .ready) with
    | false =>
      rw [hready] at hopened
      exact hopened
    | true =>
      rw [hready, hinside hready] at hopened
      exact hopened
  | completeRecord parts =>
    refine (tryWriteCompleteRecordAndFlush_admitted (d := .zero) fun l _ =>
      Ledger.zero_le _).imp fun x hx hinside => h.untouched (hx.1 hinside)
  | flush => exact fun hinside => h.flush hinside
  | rollback | engineError | terminate | hiccup => exact fun hinside => hinside.elim
  | push m recvRoutingId replaced => exact fun hinside => h.pushDecoded hs hfits hinside
  | control control deferFlush => exact fun hinside => h.writeControlAndFlush control hinside
  | publishControls => exact fun hinside => h.publishControls hinside
  | setHwms hwm sampled => exact fun hinside => h.setHwms hinside hwm sampled
  | setRoute route => exact fun _ => h.setRoute route
  | activateWrite generation credit =>
    refine fun _ => h.aside (aside_processActivateWrite _ _ _) ?_
    rw [processActivateWrite]
    split
    · dsimp only
      split <;> rfl
    · rfl
  | releaseFrames frameBytes count => exact fun _ => h.releaseFrames hs frameBytes count

end Opened

theorem During.reachable (h : During b t) : Reachable t := by
  induction h with
  | boundary h hzero => exact h
  | step h hstep hinside ih => exact .step ih hstep

theorem During.opened (h : During b t) : Opened b t := by
  induction h with
  | boundary h hzero => exact .start h.balanced hzero
  | step h hstep hinside ih =>
    have hs := h.reachable.balanced
    obtain ⟨dropped, hfits, hyields⟩ := hstep
    exact (ih.perform (R := fun _ => True) hs hfits).of_yields hyields hinside

/-- A frame that is refused leaves nothing behind but the credit that was looked at and the wait for
more. A rollback leads from every state inside a record back to the boundary before the record;
there the reports that wait are settled. -/
theorem refused_and_rollback :
    (∀ (s : Sender) (m : Frame) (enforceHwm enforceIncrementalHwm : Bool) (maxMessageBytes : ℕ)
      (replaced : List Frame),
      (s.writeMessage m enforceHwm enforceIncrementalHwm maxMessageBytes replaced).Holds
        (fun _ => True) (fun _ _ => True) fun x => x.1 ≠ .ready →
          ∃ w, Waits (fun _ => True) s.writer w ∧ x.2 = s.withWriter w) ∧
    ∀ b t : Sender, During b t → ∀ (publishPeerControl : Bool) (dropped : PeerControl → List Frame),
      t.rollback publishPeerControl dropped =
        (b.restored t).settleControls publishPeerControl dropped := by
  constructor
  · intro s m e i max replaced
    exact writeMessage_offered.imp fun x hx => hx.1
  · intro b t h publish dropped
    rw [rollback, h.opened.rollbackRecord]

def behindFirstPart (s : Sender) : Sender :=
  (s.withWriter ({ (s.writer.grow (.data firstPart)) with
    outMultipartStartedEmpty := true }.settleFrame (.data firstPart) [])).accountFrame
      s.writer (.data firstPart) []

def after (s : Sender) (act : Act) : Bool × Sender :=
  (s.perform (fun _ => []) act).answered .zero

theorem step_after (s : Sender) (act : Act) (hfits : s.Fits act) :
    s.Step act (s.after act).1 (s.after act).2 :=
  ⟨fun _ => [], hfits, Suspension.Prog.yields_answered (fun _ => trivial) _⟩

def onePart : Act := .write .perFrame { firstPart with flags := 0 } []

def nextPart : Act := .write .perFrame firstPart []

/-- A record of one frame is committed. -/
def behindRecord : Sender :=
  (((init 0 false .application sessionRoute).after onePart).2.after .flush).2

theorem reachable_behindRecord : Reachable behindRecord :=
  .step (.step (.init 0 false .application sessionRoute) (step_after _ onePart trivial))
    (step_after _ .flush trivial)

theorem during_nextPart :
    During behindRecord ((behindRecord.after nextPart).2.after nextPart).2 :=
  .step (.step (.boundary reachable_behindRecord (by decide +kernel))
    (step_after _ nextPart trivial) fun _ => rfl) (step_after _ nextPart trivial) fun _ => rfl

/-- A rollback behind two parts leaves the committed record before them. -/
theorem refused_and_rollback_nextPart :
    ((behindRecord.after nextPart).2.after nextPart).2.writer.outIncompleteBytes = 130 ∧
      ((behindRecord.after nextPart).2.after nextPart).2.rollback true (fun _ => []) =
        behindRecord := by
  constructor
  · decide +kernel
  · rw [refused_and_rollback.2 _ _ during_nextPart]
    rfl

def withReport : Sender :=
  (init 0 false .application sessionRoute).writeControlAndFlush (.weight 7) true fun _ => []

/-- A report that waits goes out behind the rollback: the queue and the ledger are not those of the
boundary. -/
theorem rollback_publishes_report :
    Reachable withReport ∧ withReport.writer.outIncompleteBytes = 0 ∧
      withReport.Step (.write .perFrame firstPart []) true withReport.behindFirstPart ∧
      (withReport.behindFirstPart.rollback true fun _ => []).writer.outPipe ≠
        withReport.writer.outPipe ∧
      (withReport.behindFirstPart.rollback true fun _ => []).writer.bytesWritten ≠
        withReport.writer.bytesWritten := by
  have hreport : (init 0 false .application sessionRoute).Step (.control (.weight 7) true) true
      withReport := ⟨fun _ => [], trivial, rfl⟩
  have hpart : withReport.Step (.write .perFrame firstPart []) true withReport.behindFirstPart :=
    ⟨fun _ => [], trivial, ⟨.zero, trivial, rfl⟩⟩
  refine ⟨.step (.init 0 false .application sessionRoute) hreport, rfl, hpart, ?_, ?_⟩
  · decide +kernel
  · decide +kernel

end Sender

end Zlink.Pipe
