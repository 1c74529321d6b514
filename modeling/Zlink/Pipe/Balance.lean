import Zlink.Pipe.Acts

/-!
# The accounts balance

Through every act the counters of the record in progress are those of the frames that stand open at
the end of the queue, and the accounts beside the ledger are those of the writer.
-/

namespace Zlink.Pipe

open Protocol Suspension Writer

variable {R : Ledger → Prop} {w v u : Writer} {s t : Sender} {m : Frame} {replaced : List Frame}
  {dropped : PeerControl → List Frame} {q : QueueRegistry} {max : ℕ} {e i : Bool}

namespace QueueRegistry

def Planned (q : QueueRegistry) : Prop :=
  q.plannedHwm = q.appliedHwm ∨ (q.plannedHwm ≠ 0 ∧ q.plannedHwm < q.currentBytes)

theorem Planned.mono {q' : QueueRegistry} (h : q.Planned) (hplanned : q'.plannedHwm = q.plannedHwm)
    (happlied : q'.appliedHwm = q.appliedHwm) (hle : q.currentBytes ≤ q'.currentBytes) :
    q'.Planned := by
  rw [Planned, hplanned, happlied]
  exact h.imp_right fun hwaits => ⟨hwaits.1, hwaits.2.trans_le hle⟩

theorem planned_applyDeferredHwmIfDrained (q : QueueRegistry) :
    q.applyDeferredHwmIfDrained.Planned := by
  rw [applyDeferredHwmIfDrained]
  split
  · rename_i hsame
    exact .inl hsame
  split
  · exact .inl rfl
  · rename_i hno
    rw [not_or, not_le] at hno
    exact .inr hno

theorem Planned.applyDeferred (h : q.Planned) : q.applyDeferredHwmIfDrained = q := by
  rw [applyDeferredHwmIfDrained]
  split
  · rfl
  rename_i hdiffers
  have hwaits := h.resolve_left hdiffers
  rw [if_neg (not_or.mpr ⟨hwaits.1, not_le.mpr hwaits.2⟩)]

theorem planned_updateHwmTarget {target sampled : ℕ} (hlane : q.lane ≠ .application) :
    (q.updateHwmTarget target sampled).Planned := by
  rw [updateHwmTarget, if_neg hlane, Planned]
  by_cases happly : (target = 0 ∨ (q.appliedHwm ≠ 0 ∧ q.appliedHwm ≤ target)) ∨
    q.currentBytes ≤ target
  · exact .inl (if_pos happly).symm
  · rw [not_or, not_or, not_le] at happly
    exact .inr ⟨happly.1.1, happly.2⟩

structure Charged (q : QueueRegistry) (incomplete : ℕ) : Prop where
  lane : q.lane ≠ .application
  provisional : q.provisionalAccountedBytes = incomplete
  planned : q.Planned

theorem satAdd_le_satAdd {a b a' b' : ℕ} (ha : a ≤ uint64Max) (ha' : a' ≤ uint64Max)
    (h : a + b ≤ a' + b') : satAdd a b ≤ satAdd a' b' := by
  rw [satAdd, satAdd]
  split_ifs <;> omega

variable {bytes incomplete : ℕ}

theorem Charged.accountProvisionalFrame (h : q.Charged incomplete)
    (hroom : incomplete + bytes ≤ uint64Max) : q.accountProvisionalFrame bytes =
      { q with provisionalAccountedBytes := incomplete + bytes } := by
  rw [QueueRegistry.accountProvisionalFrame, h.provisional, satAdd, addOverflows]
  have hfits : ¬uint64Max - incomplete < bytes := by omega
  rw [if_neg hfits, decide_eq_false hfits, Bool.or_false]

theorem Charged.grow (h : q.Charged incomplete) (hroom : incomplete + bytes ≤ uint64Max) :
    (q.accountProvisionalFrame bytes).Charged (incomplete + bytes) := by
  rw [h.accountProvisionalFrame hroom]
  refine ⟨h.lane, rfl, h.planned.mono rfl rfl ?_⟩
  rw [currentBytes, currentBytes, h.provisional]
  refine satAdd_le_satAdd ((Nat.le_add_right _ _).trans hroom) hroom ?_
  exact Nat.add_le_add_right (Nat.le_add_right _ _) _

theorem commitMessage_eq (q : QueueRegistry) (provisional final : ℕ) (counted oversize : Bool) :
    ∃ pending overflow admissions largest, q.commitMessage provisional final counted oversize =
      { q with
        provisionalAccountedBytes := q.provisionalAccountedBytes - provisional
        committedAccountedBytes := satAdd q.committedAccountedBytes (satAdd provisional final)
        completionPendingMessageCount := pending
        aggregateOverflow := overflow
        oversizeAdmissionCount := admissions
        largestOversizeMessageBytes := largest } := by
  rw [commitMessage, countMessage]
  dsimp only
  cases q.lane <;> cases oversize <;> cases counted <;> exact ⟨_, _, _, _, rfl⟩

theorem Charged.commit {counted oversize : Bool}
    (h : q.Charged incomplete) (hroom : incomplete ≤ uint64Max) :
    (q.commitMessage incomplete bytes counted oversize).Charged 0 := by
  obtain ⟨pending, overflow, admissions, largest, hcommit⟩ :=
    commitMessage_eq q incomplete bytes counted oversize
  rw [hcommit]
  refine ⟨h.lane, ?_, h.planned.mono rfl rfl ?_⟩
  · rw [h.provisional, Nat.sub_self]
  · rw [currentBytes, currentBytes, h.provisional, Nat.sub_self]
    change satAdd incomplete q.committedAccountedBytes ≤
      satAdd 0 (satAdd q.committedAccountedBytes (satAdd incomplete bytes))
    rw [satAdd, satAdd, satAdd, satAdd]
    split_ifs <;> omega

@[simp] theorem lane_applyDeferredHwmIfDrained (q : QueueRegistry) :
    q.applyDeferredHwmIfDrained.lane = q.lane := by
  rw [applyDeferredHwmIfDrained]
  split_ifs <;> rfl

@[simp] theorem provisional_applyDeferredHwmIfDrained (q : QueueRegistry) :
    q.applyDeferredHwmIfDrained.provisionalAccountedBytes = q.provisionalAccountedBytes := by
  rw [applyDeferredHwmIfDrained]
  split_ifs <;> rfl

theorem Charged.release {count : ℕ} (h : q.Charged incomplete) :
    (q.releaseCommittedFrame bytes count).Charged incomplete := by
  rw [releaseCommittedFrame]
  split
  · exact h
  · refine ⟨?_, ?_, planned_applyDeferredHwmIfDrained _⟩
    · rw [lane_applyDeferredHwmIfDrained]
      exact h.lane
    · rw [provisional_applyDeferredHwmIfDrained]
      exact h.provisional

theorem Charged.rollback (h : q.Charged incomplete) :
    (q.rollbackProvisional incomplete).Charged 0 := by
  rw [rollbackProvisional]
  split
  · rename_i hzero
    exact hzero ▸ h
  · refine ⟨?_, ?_, planned_applyDeferredHwmIfDrained _⟩
    · rw [lane_applyDeferredHwmIfDrained]
      exact h.lane
    · rw [provisional_applyDeferredHwmIfDrained]
      change q.provisionalAccountedBytes - incomplete = 0
      rw [h.provisional, Nat.sub_self]

theorem Charged.updateHwmTarget {target sampled : ℕ} (h : q.Charged incomplete) :
    (q.updateHwmTarget target sampled).Charged incomplete where
  lane := h.lane
  provisional := h.provisional
  planned := planned_updateHwmTarget h.lane

theorem Charged.commitDecoderFrame {more counted : Bool}
    (h : q.Charged incomplete) (hroom : incomplete + bytes ≤ uint64Max)
    (hmonitor : q.lane ≠ .monitor) : (q.commitDecoderFrame incomplete bytes more counted).Charged
      (if more then incomplete + bytes else 0) := by
  have hlane := h.lane
  rw [QueueRegistry.commitDecoderFrame]
  cases hq : q.lane with
  | application => exact absurd hq hlane
  | monitor => exact absurd hq hmonitor
  | completion =>
    cases more with
    | true => exact h.grow hroom
    | false => exact h.commit ((Nat.le_add_right _ _).trans hroom)

end QueueRegistry

namespace Writer

structure Standing (w : Writer) : Prop where
  bytes : w.outIncompleteBytes = bytesOf w.outPipe.opened
  payload : w.outIncompletePayloadBytes = (w.outPipe.opened.map Frame.size).sum
  bounded : w.outIncompleteBytes ≤ uint64Max
  started : w.outMultipartStartedEmpty = true → w.outIncompleteBytes ≠ 0
  reserved : ∀ r, w.reservation = some r → r.frameBytes = satAdd r.payloadBytes Frame.metadataBytes

namespace Standing

theorem congr (h : Standing w) (hopened : v.outPipe.opened = w.outPipe.opened)
    (hbytes : v.outIncompleteBytes = w.outIncompleteBytes)
    (hpayload : v.outIncompletePayloadBytes = w.outIncompletePayloadBytes)
    (hstarted : v.outMultipartStartedEmpty = w.outMultipartStartedEmpty)
    (hreservation : v.reservation = w.reservation) : Standing v where
  bytes := by
    rw [hbytes, hopened]
    exact h.bytes
  payload := by
    rw [hpayload, hopened]
    exact h.payload
  bounded := hbytes.trans_le h.bounded
  started := by
    rw [hstarted, hbytes]
    exact h.started
  reserved := by
    rw [hreservation]
    exact h.reserved

theorem settles (h : Standing w) (hv : Settles R w v) : Standing v :=
  h.congr (by rw [hv.outPipe]) hv.outIncompleteBytes hv.outIncompletePayloadBytes
    hv.outMultipartStartedEmpty hv.reservation

theorem empty (hopened : w.outPipe.opened = []) (hbytes : w.outIncompleteBytes = 0)
    (hpayload : w.outIncompletePayloadBytes = 0) (hstarted : w.outMultipartStartedEmpty = false)
    (hreserved : ∀ r, w.reservation = some r →
      r.frameBytes = satAdd r.payloadBytes Frame.metadataBytes) : Standing w where
  bytes := by
    rw [hopened, hbytes]
    rfl
  payload := by
    rw [hopened, hpayload]
    rfl
  bounded := hbytes.trans_le (Nat.zero_le _)
  started hs := by
    rw [hstarted] at hs
    cases hs
  reserved := hreserved

theorem flush (h : Standing w) : Standing w.flush := by
  have hopened := opened_flush w
  rw [flush_eq] at hopened ⊢
  exact h.congr hopened rfl rfl rfl rfl

theorem rollback (h : Standing w) : Standing w.rollback :=
  .empty rfl rfl rfl rfl h.reserved

theorem opened_eq_nil (h : Standing w) (hzero : w.outIncompleteBytes = 0) :
    w.outPipe.opened = [] := by
  have hsum := h.bytes
  rw [hzero, bytesOf] at hsum
  cases hopened : w.outPipe.opened with
  | nil => rfl
  | cons m ms =>
    have hpos := m.accountedBytes_pos
    rw [hopened, List.map_cons, List.sum_cons] at hsum
    omega

theorem boundary (h : Standing w) (hzero : w.outIncompleteBytes = 0) :
    w.outPipe.opened = [] ∧ w.outIncompletePayloadBytes = 0 ∧
      w.outMultipartStartedEmpty = false := by
  have hopened := h.opened_eq_nil hzero
  refine ⟨hopened, ?_, Bool.eq_false_iff.mpr fun hs => h.started hs hzero⟩
  rw [h.payload, hopened]
  rfl

end Standing

theorem settleFrame_of_more (w : Writer) (hmore : m.more = true) :
    w.settleFrame m replaced = { w with outPipe := w.outPipe.write m true } := by
  rw [settleFrame, Frame.commits_of_more hmore, publishOutboundFrame, hmore]
  simp only [Bool.or_true, if_true, Bool.false_eq_true, if_false]

theorem settleFrame_of_commits (w : Writer) (replaced : List Frame) (hcommits : m.commits = true) :
    ∃ msgs bytes, w.settleFrame m replaced =
      { w with
        outPipe := w.outPipe.write m false
        msgsWritten := msgs
        bytesWritten := bytes
        outCompleteRecordPending := true
        outIncompleteBytes := 0
        outIncompletePayloadBytes := 0
        outMultipartStartedEmpty := false
        outOwnerMessageStarted := false
        outOwnerMessageStartPending := false } := by
  obtain ⟨msgs, hpublish⟩ := publishOutboundFrame_eq (w := w) m replaced
  have hmore := (Frame.commits_iff.mp hcommits).1
  rw [settleFrame, if_pos hcommits, hpublish, hmore]
  exact ⟨_, _, rfl⟩

theorem Counted.standing (replaced : List Frame) (h : Counted R w m u) (hw : Standing w)
    (hsize : ¬w.Oversized m max) (hdata : m.isDelimiter = false) : Standing (u.settleFrame m replaced) := by
  have hroom := Sender.record_le_of_not_oversized hsize
  have hpos := m.accountedBytes_pos
  cases hmore : m.more with
  | true =>
    rw [settleFrame_of_more u hmore, h.eq]
    have hopened : (w.outPipe.write m true).opened = w.outPipe.opened ++ [m] := by
      rw [OutPipe.opened_write]
      rfl
    constructor
    · change w.outIncompleteBytes + m.accountedBytes = bytesOf (w.outPipe.write m true).opened
      rw [hopened, hw.bytes]
      simp [bytesOf]
    · change w.outIncompletePayloadBytes + m.size = ((w.outPipe.write m true).opened.map _).sum
      rw [hopened, hw.payload]
      simp
    · exact hroom
    · intro _
      change w.outIncompleteBytes + m.accountedBytes ≠ 0
      omega
    · exact hw.reserved
  | false =>
    obtain ⟨msgs, bytes, hcommitted⟩ := settleFrame_of_commits u replaced
      (Frame.commits_iff.mpr ⟨hmore, hdata⟩)
    rw [hcommitted]
    refine .empty ?_ rfl rfl rfl ?_
    · exact OutPipe.opened_write _ _ _
    · rw [h.eq]
      exact hw.reserved

end Writer

namespace Sender

structure Balanced (s : Sender) : Prop where
  standing : Standing s.writer
  total : s.publishedOutboundTotalBytes = satAdd s.writer.bytesWritten s.writer.outIncompleteBytes
  provisional : s.publishedOutboundProvisionalBytes = s.writer.outIncompleteBytes
  charged : s.writer.registryAccounting = true → s.registry.Charged s.writer.outIncompleteBytes

theorem balanced_publish {changed : Bool} (hstanding : Standing s.writer)
    (hprovisional : changed = false →
      s.publishedOutboundProvisionalBytes = s.writer.outIncompleteBytes)
    (hcharged : s.writer.registryAccounting = true →
      s.registry.Charged s.writer.outIncompleteBytes) :
    (s.publishOutboundAccounting changed).Balanced where
  standing := hstanding
  total := rfl
  provisional := by
    cases changed
    · exact hprovisional rfl
    · rfl
  charged := hcharged

namespace Balanced

theorem withWriter (h : s.Balanced) (hv : Standing v)
    (hwritten : v.bytesWritten = s.writer.bytesWritten)
    (hbytes : v.outIncompleteBytes = s.writer.outIncompleteBytes)
    (haccounting : v.registryAccounting = s.writer.registryAccounting) :
    (s.withWriter v).Balanced where
  standing := hv
  total := by
    change s.publishedOutboundTotalBytes = satAdd v.bytesWritten v.outIncompleteBytes
    rw [hwritten, hbytes]
    exact h.total
  provisional := h.provisional.trans hbytes.symm
  charged ha := by
    change s.registry.Charged v.outIncompleteBytes
    rw [hbytes]
    exact h.charged (haccounting.symm.trans ha)

theorem settles (h : s.Balanced) (hv : Settles R s.writer v) : (s.withWriter v).Balanced :=
  h.withWriter (h.standing.settles hv) hv.bytesWritten hv.outIncompleteBytes (by rw [hv.eq])

theorem reports (h : s.Balanced) (controls : PendingControls) (dispatched : List PeerControl)
    (route : ControlRoute) : ({ s with controls, dispatched, route } : Sender).Balanced where
  standing := h.standing
  total := h.total
  provisional := h.provisional
  charged := h.charged

theorem flushQueue (h : s.Balanced) : s.flushQueue.Balanced := by
  rw [Sender.flushQueue]
  refine h.withWriter h.standing.flush ?_ ?_ ?_ <;> rw [flush_eq]

end Balanced

theorem charged_chargeFrame {oversize : Bool} (hdata : m.isDelimiter = false)
    (hcharged : w.registryAccounting = true → s.registry.Charged w.outIncompleteBytes)
    (hroom : w.outIncompleteBytes + m.accountedBytes ≤ uint64Max)
    (haccounting : w.registryAccounting = true) : (s.chargeFrame w m oversize).registry.Charged
      (if m.more then w.outIncompleteBytes + m.accountedBytes else 0) := by
  have hq := hcharged haccounting
  rw [chargeFrame, haccounting, hdata]
  cases m.more with
  | true => exact hq.grow hroom
  | false => exact hq.commit ((Nat.le_add_right _ _).trans hroom)

theorem charged_releaseReplaced {incomplete : ℕ} (h : s.registry.Charged incomplete) :
    (s.releaseReplaced m replaced).registry.Charged incomplete := by
  rw [releaseReplaced]
  split
  · exact h.release
  · exact h

@[simp] theorem published_chargeFrame {oversize : Bool} :
    (s.chargeFrame w m oversize).publishedOutboundProvisionalBytes =
      s.publishedOutboundProvisionalBytes := by
  rw [chargeFrame]
  split_ifs <;> rfl

@[simp] theorem published_releaseReplaced :
    (s.releaseReplaced m replaced).publishedOutboundProvisionalBytes =
      s.publishedOutboundProvisionalBytes := by
  rw [releaseReplaced]
  split <;> rfl

theorem outIncompleteBytes_settleFrame (replaced : List Frame) (hcounted : Counted R w m u)
    (hdata : m.isDelimiter = false) : (u.settleFrame m replaced).outIncompleteBytes =
      if m.more then w.outIncompleteBytes + m.accountedBytes else 0 := by
  cases hmore : m.more with
  | true =>
    rw [settleFrame_of_more u hmore, hcounted.eq]
    rfl
  | false =>
    obtain ⟨msgs, bytes, hcommitted⟩ := settleFrame_of_commits u replaced
      (Frame.commits_iff.mpr ⟨hmore, hdata⟩)
    rw [hcommitted]
    rfl

theorem registryAccounting_settleFrame (replaced : List Frame) (hcounted : Counted R w m u)
    (hdata : m.isDelimiter = false) :
    (u.settleFrame m replaced).registryAccounting = w.registryAccounting := by
  cases hmore : m.more with
  | true =>
    rw [settleFrame_of_more u hmore, hcounted.eq]
    rfl
  | false =>
    obtain ⟨msgs, bytes, hcommitted⟩ := settleFrame_of_commits u replaced
      (Frame.commits_iff.mpr ⟨hmore, hdata⟩)
    rw [hcommitted, hcounted.eq]
    rfl

def countedNext (w : Writer) (m : Frame) : ℕ :=
  if m.more then w.outIncompleteBytes + m.accountedBytes else 0

theorem Balanced.publishFrame {x : Sender} (h : (s.withWriter w).Balanced)
    (hstanding : Standing x.writer) (hbytes : x.writer.outIncompleteBytes = countedNext w m)
    (haccounting : x.writer.registryAccounting = w.registryAccounting)
    (hpublished : x.publishedOutboundProvisionalBytes = s.publishedOutboundProvisionalBytes)
    (hcharged : w.registryAccounting = true → x.registry.Charged (countedNext w m)) :
    (x.publishOutboundAccounting (m.more || w.outIncompleteBytes != 0)).Balanced := by
  refine balanced_publish hstanding (fun hsame => ?_) fun ha => ?_
  · rw [Bool.or_eq_false_iff, bne_eq_false_iff_eq] at hsame
    rw [hbytes, hpublished, countedNext, hsame.1]
    exact h.provisional.trans hsame.2
  · rw [hbytes]
    exact hcharged (haccounting.symm.trans ha)

theorem Balanced.accountFrame (h : (s.withWriter w).Balanced) (hcounted : Counted R w m u)
    (hsize : ¬w.Oversized m max) (hdata : m.isDelimiter = false) :
    ((s.withWriter (u.settleFrame m replaced)).accountFrame w m replaced).Balanced := by
  have hstanding := hcounted.standing replaced h.standing hsize hdata
  have hbytes := outIncompleteBytes_settleFrame replaced hcounted hdata
  have haccounting := registryAccounting_settleFrame replaced hcounted hdata
  have hwriter (oversize : Bool) : (((s.withWriter (u.settleFrame m replaced)).chargeFrame w m
      oversize).releaseReplaced m replaced).writer = u.settleFrame m replaced :=
    (writer_releaseReplaced _ _ _).trans (writer_chargeFrame _ _ _ _)
  have hend {x : Sender} (oversize : Bool)
      (hsame : x.writer = (((s.withWriter (u.settleFrame m replaced)).chargeFrame w m
        oversize).releaseReplaced m replaced).writer)
      (hregistry : x.registry = (((s.withWriter (u.settleFrame m replaced)).chargeFrame w m
        oversize).releaseReplaced m replaced).registry)
      (hpublished : x.publishedOutboundProvisionalBytes =
        (((s.withWriter (u.settleFrame m replaced)).chargeFrame w m oversize).releaseReplaced m
          replaced).publishedOutboundProvisionalBytes) :
      (x.publishOutboundAccounting (m.more || w.outIncompleteBytes != 0)).Balanced := by
    rw [hwriter] at hsame
    rw [published_releaseReplaced, published_chargeFrame] at hpublished
    refine h.publishFrame (hsame ▸ hstanding) (hsame ▸ hbytes) (hsame ▸ haccounting) hpublished
      fun ha => ?_
    rw [hregistry]
    exact charged_releaseReplaced
      (charged_chargeFrame hdata h.charged (record_le_of_not_oversized hsize) ha)
  rw [Sender.accountFrame]
  split
  all_goals exact hend _ rfl rfl rfl

theorem Balanced.accountSingle (h : s.Balanced) (hboundary : s.writer.atRecordBoundary = true) :
    ((s.withWriter (s.writer.commitSingle m)).accountSingle s.writer m).Balanced := by
  obtain ⟨haccounting, -, hzero, hpay, hstarted, -⟩ := atRecordBoundary_iff.mp hboundary
  have hstanding : Standing (s.writer.commitSingle m) :=
    .empty (OutPipe.opened_write _ _ _) hzero hpay hstarted h.standing.reserved
  have hno (ha : (s.writer.commitSingle m).registryAccounting = true) : False := by
    change s.writer.registryAccounting = true at ha
    rw [haccounting] at ha
    cases ha
  rw [Sender.accountSingle]
  split
  all_goals exact balanced_publish hstanding (fun _ => h.provisional) fun ha => (hno ha).elim

theorem more_frame (control : PeerControl) : control.frame.more = false := by
  cases control <;> exact (by decide : hasAny Msg.command Msg.more = false)

theorem Balanced.appendControl (dropped : PeerControl → List Frame) (h : s.Balanced)
    (hzero : s.writer.outIncompleteBytes = 0) (control : PeerControl) : (s.appendControl dropped control).Balanced ∧
      (s.appendControl dropped control).writer.outIncompleteBytes = 0 := by
  have hmore := more_frame control
  obtain ⟨hopened, hpay, hstarted⟩ := h.standing.boundary hzero
  obtain ⟨msgs, hpublish⟩ := publishOutboundFrame_eq (w := s.writer) control.frame (dropped control)
  rw [hmore] at hpublish
  have hwriter : (s.chargeControl control.frame).writer = s.writer := by
    rw [chargeControl]
    split <;> rfl
  have hcharged (ha : s.writer.registryAccounting = true) :
      ((s.chargeControl control.frame).releaseReplaced control.frame
        (dropped control)).registry.Charged 0 := by
    refine charged_releaseReplaced ?_
    have hq := h.charged ha
    rw [hzero] at hq
    rw [chargeControl, if_pos ha]
    exact hq.commit (Nat.zero_le _)
  have hpublished : ((s.chargeControl control.frame).releaseReplaced control.frame
      (dropped control)).publishedOutboundProvisionalBytes = 0 := by
    rw [published_releaseReplaced, chargeControl]
    split <;> exact h.provisional.trans hzero
  rw [Sender.appendControl, countControl, Sender.publishOutboundFrame, hwriter, hpublish]
  constructor
  · refine balanced_publish ?_ (fun _ => hpublished.trans hzero.symm) fun ha => ?_
    · exact .empty (OutPipe.opened_write _ _ _) hzero hpay hstarted h.standing.reserved
    · change QueueRegistry.Charged _ s.writer.outIncompleteBytes
      rw [hzero]
      exact hcharged ha
  · exact hzero

theorem Balanced.appendControls (h : s.Balanced) (hzero : s.writer.outIncompleteBytes = 0) :
    (s.appendControls dropped).Balanced ∧
      (s.appendControls dropped).writer.outIncompleteBytes = 0 := by
  induction hcount : s.controls.count using Nat.strong_induction_on generalizing s with
  | h n ih =>
    cases hnext : s.controls.next with
    | none =>
      rw [appendControls_of_none hnext]
      exact ⟨h.reports _ s.dispatched s.route, hzero⟩
    | some x =>
      obtain ⟨control, rest⟩ := x
      obtain ⟨hbalanced, hstill⟩ := h.appendControl dropped hzero control
      have hlt := PendingControls.count_lt_of_next hnext
      rw [appendControls_of_some hnext]
      exact ih rest.count (hcount ▸ hlt) (hbalanced.reports rest _ _) hstill rfl

theorem Balanced.dispatchPendingControls (h : s.Balanced) : s.dispatchPendingControls.Balanced := by
  rw [Sender.dispatchPendingControls]
  split
  · exact h.reports _ _ s.route
  · exact h

theorem Balanced.flush (h : s.Balanced) : (s.flush dropped).Balanced := by
  rw [Sender.flush]
  split
  · exact h
  split
  · rename_i hbetween
    split
    · refine Balanced.flushQueue ?_
      rw [appendPendingControls]
      split
      · have hzero := (Bool.and_eq_true_iff.mp (Bool.and_eq_true_iff.mp hbetween).2).1
        exact (h.appendControls (beq_iff_eq.mp hzero)).1
      · exact h
    · exact h.flushQueue.dispatchPendingControls
  · exact h.flushQueue

theorem Balanced.flushPendingControls (h : s.Balanced) :
    (s.flushPendingControls dropped).Balanced := by
  rw [Sender.flushPendingControls]
  split
  · exact h.flush
  · exact h

theorem Balanced.rollbackRecord (h : s.Balanced) : s.rollbackRecord.Balanced := by
  rw [Sender.rollbackRecord]
  refine balanced_publish h.standing.rollback (fun hno => Bool.noConfusion hno) fun ha => ?_
  change QueueRegistry.Charged (if s.writer.registryAccounting then _ else _) 0
  change s.writer.registryAccounting = true at ha
  rw [if_pos ha]
  exact (h.charged ha).rollback

theorem Balanced.rollback (publish : Bool) (dropped : PeerControl → List Frame) (h : s.Balanced) :
    (s.rollback publish dropped).Balanced := by
  rw [Sender.rollback, settleControls]
  split
  · split
    · exact h.rollbackRecord.flushPendingControls
    · exact h.rollbackRecord.reports .empty _ _
  · exact h.rollbackRecord

end Sender

end Zlink.Pipe
