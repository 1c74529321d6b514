import Zlink.Pipe.RecordAgreement

/-!
# The path for single messages against the general one

At the boundary of a record both paths come to one question, whether there is credit for the
message. The general path asks for some credit first, and a message that fits finds it there.
-/

namespace Zlink.Pipe

open Protocol Suspension Writer

variable {R : Ledger → Prop} {w : Writer} {s : Sender} {m : Frame} {c : Ledger} {k : Bool}
  {bytes payload max : ℕ} {e : Bool} {replaced : List Frame} {dropped : PeerControl → List Frame}

namespace Writer

def Looked (R : Ledger → Prop) (w v : Writer) : Prop :=
  ∃ c k, v = w.withMarks c k ∧ Raised R w v

theorem looked_canCommitBytesWithPeerSnapshot :
    (w.canCommitBytesWithPeerSnapshot bytes payload e max).Holds (fun _ => True) (fun _ => R)
      fun x => ∃ c, x.2 = w.withCredit c ∧ Raised R w x.2 ∧
        (x.1 = true → x.2.canCommitBytes bytes payload e max = true) := by
  rw [canCommitBytesWithPeerSnapshot]
  split
  · rename_i hcan
    exact ⟨w.credit, rfl, Raised.refl w, fun _ => hcan⟩
  · exact Prog.Holds.load trivial fun l hl =>
      ⟨w.credit.join l, rfl, raised_refresh hl, fun hcan => hcan⟩

theorem looked_awaitCommitCredit (hactive : w.outActive = true) :
    (w.awaitCommitCredit bytes payload e max).Holds (fun _ => True) (fun _ => R) fun x =>
      x.1 = true → Looked R w x.2 ∧ x.2.canCommitBytes bytes payload e max = true := by
  rw [awaitCommitCredit]
  apply looked_canCommitBytesWithPeerSnapshot.bind
  rintro ⟨ready, v⟩ ⟨c, rfl, hraised, hcan⟩
  cases ready with
  | true => exact fun _ => ⟨⟨c, w.waitingForByteCredit, rfl, hraised⟩, hcan rfl⟩
  | false =>
    change Prog.Holds _ _ _ (if w.bytesWritten ≤ (w.withCredit c).peersBytesRead then _ else _)
    split
    · exact fun hready => Bool.noConfusion hready
    apply looked_canCommitBytesWithPeerSnapshot.bind
    rintro ⟨ready, u⟩ ⟨d, rfl, hraised', hcan'⟩
    cases ready with
    | false => exact fun hready => Bool.noConfusion hready
    | true =>
      intro _
      have hlater := hraised.trans (settles_arm.raised.trans hraised')
      refine ⟨⟨d, false, ?_, hlater.congr rfl⟩, hcan' rfl⟩
      change { w.withMarks d false with outActive := true } = _
      rw [← hactive]
      rfl

theorem looked_checkHwmWithPeerSnapshot :
    w.checkHwmWithPeerSnapshot.Holds (fun _ => True) (fun _ => R) fun x =>
      ∃ c, x.2 = w.withCredit c ∧ Raised R w x.2 := by
  rw [checkHwmWithPeerSnapshot]
  split
  · exact ⟨w.credit, rfl, Raised.refl w⟩
  · exact Prog.Holds.load trivial fun l hl => ⟨w.credit.join l, rfl, raised_refresh hl⟩

theorem looked_hwmCreditReady (hactive : w.outActive = true) :
    w.hwmCreditReady.Holds (fun _ => True) (fun _ => R) fun x => x.1 = true → Looked R w x.2 := by
  rw [hwmCreditReady]
  apply looked_checkHwmWithPeerSnapshot.bind
  rintro ⟨ready, v⟩ ⟨c, rfl, hraised⟩
  cases ready with
  | true => exact fun _ => ⟨c, w.waitingForByteCredit, rfl, hraised⟩
  | false =>
    apply looked_checkHwmWithPeerSnapshot.bind
    rintro ⟨ready, u⟩ ⟨d, rfl, hraised'⟩
    cases ready with
    | false => exact fun hready => Bool.noConfusion hready
    | true =>
      intro _
      refine ⟨d, false, ?_, (hraised.trans (settles_arm.raised.trans hraised')).congr rfl⟩
      change { w.withMarks d false with outActive := true } = _
      rw [← hactive]
      rfl

/-- The credit that a commit is made with, when every load finds enough for it: what is known, or
what the first load finds. -/
def FirstCredit (R : Ledger → Prop) (w : Writer) (bytes payload max : ℕ) (c : Ledger) : Prop :=
  if w.canCommitBytes bytes payload true max then c = w.credit
  else ∃ l, R l ∧ c = w.credit.join l

theorem awaitCommitCredit_first (hfound : ∀ l, R l →
    (w.withCredit (w.credit.join l)).canCommitBytes bytes payload true max = true) :
    (w.awaitCommitCredit bytes payload true max).Holds (fun _ => True) (fun _ => R) fun x =>
      x.1 = true ∧ ∃ c, FirstCredit R w bytes payload max c ∧ x.2 = w.withCredit c := by
  by_cases hcan : w.canCommitBytes bytes payload true max = true
  · rw [awaitCommitCredit_of_canCommitBytes hcan]
    refine ⟨rfl, w.credit, ?_, rfl⟩
    rw [FirstCredit, if_pos hcan]
  · rw [awaitCommitCredit, canCommitBytesWithPeerSnapshot, if_neg hcan]
    apply Prog.Holds.bind (P := fun x : Bool × Writer =>
      x.1 = true ∧ ∃ c, FirstCredit R w bytes payload max c ∧ x.2 = w.withCredit c)
    · refine Prog.Holds.load trivial fun l hl => ⟨hfound l hl, w.credit.join l, ?_, rfl⟩
      rw [FirstCredit, if_neg hcan]
      exact ⟨l, hl, rfl⟩
    · rintro ⟨ready, v⟩ ⟨rfl, hv⟩
      exact ⟨rfl, hv⟩

end Writer

namespace Sender

def singleWritten (s : Sender) (m : Frame) : Sender :=
  let t := s.withWriter (s.writer.commitSingle m)
  (if 0 < s.writer.hwm ∧ s.writer.hwm < m.accountedBytes then
      t.recordOversizeMessageAdmission m.accountedBytes
    else t).publishOutboundAccounting false

theorem withMarks_withMarks {d : Ledger} {i : Bool} (s : Sender) :
    (s.withMarks c k).withMarks d i = s.withMarks d i := rfl

theorem withMarks_singleWritten (s : Sender) (m : Frame) :
    (s.withMarks c k).singleWritten m = (s.singleWritten m).withMarks c k := by
  rw [singleWritten, singleWritten]
  change publishOutboundAccounting (if 0 < s.writer.hwm ∧ s.writer.hwm < m.accountedBytes then _
    else _) false = _
  split <;> rfl

/-- The message can be taken where the writer knows of the credit `c`. -/
structure Takes (w : Writer) (m : Frame) (c : Ledger) : Prop where
  sized : m.accountedBytes ≠ uint64Max
  credit : (w.withCredit c).canCommitBytes m.accountedBytes m.size true w.maxMessageBytes = true

theorem Takes.inFlight (h : Takes w m c) (hover : 0 < w.hwm ∧ w.hwm < m.accountedBytes) :
    w.bytesWritten - c.bytes = 0 := by
  have hfits := (canCommitBytes_iff.mp h.credit).2
  rw [inFlight_eq] at hfits
  change w.hwm = 0 ∨ (true = true ∧ w.bytesWritten - c.bytes = 0) ∨
    ¬uint64Max - (w.bytesWritten - c.bytes) < m.accountedBytes ∧
      w.bytesWritten - c.bytes + m.accountedBytes ≤ w.hwm at hfits
  omega

theorem accountSingle_eq (h : Takes s.writer m c) :
    ((s.withMarks c k).withWriter ((s.writer.withMarks c k).commitSingle m)).accountSingle
      (s.writer.withMarks c k) m = (s.singleWritten m).withMarks c k := by
  rw [accountSingle, singleWritten, inFlight_eq]
  change publishOutboundAccounting (if 0 < s.writer.hwm ∧ s.writer.bytesWritten - c.bytes = 0 ∧
    s.writer.hwm < m.accountedBytes then _ else _) false = _
  by_cases hover : 0 < s.writer.hwm ∧ s.writer.hwm < m.accountedBytes
  · rw [if_pos hover, if_pos ⟨hover.1, h.inFlight hover, hover.2⟩]
    rfl
  · rw [if_neg hover, if_neg fun hall => hover ⟨hall.1, hall.2.2⟩]
    rfl

theorem grow_settleFrame (hboundary : w.atRecordBoundary = true) (hcommits : m.commits = true) :
    (w.grow m).settleFrame m replaced = w.commitSingle m := by
  obtain ⟨-, hconflate, hzero, hpay, hstarted, howner, hpending⟩ :=
    atRecordBoundary_iff.mp hboundary
  have hmore := (Frame.commits_iff.mp hcommits).1
  cases w
  subst hconflate hzero hpay hstarted howner hpending
  rw [settleFrame, if_pos hcommits, Writer.publishOutboundFrame, hmore, commitSingle]
  simp only [grow, commitRecord, Nat.zero_add, Bool.not_false, Bool.or_false, if_true]

theorem not_oversized_of_takes (hboundary : w.atRecordBoundary = true) (h : Takes w m c) :
    ¬w.Oversized m w.maxMessageBytes := by
  obtain ⟨-, -, hzero, hpay, -⟩ := atRecordBoundary_iff.mp hboundary
  have hmax := (canCommitBytes_iff.mp h.credit).1
  have hsized := h.sized
  have hsize := m.accountedBytes_eq
  have hmetadata : 0 < Frame.metadataBytes := by decide
  rw [Oversized, appendOverflows, hzero, hpay, Bool.or_eq_true, decide_eq_true_eq,
    decide_eq_true_eq, Nat.zero_add]
  rw [satAdd] at hsize
  split at hsize
  · exact absurd hsize hsized
  · omega

theorem sized_of_not_oversized (h : ¬w.Oversized m max) : m.accountedBytes ≠ uint64Max := by
  rw [Oversized, not_or, appendOverflows, Bool.or_eq_true, decide_eq_true_eq, not_or] at h
  exact h.1.1

theorem writeMessage_of_oversized (i : Bool) (replaced : List Frame) (h : w.Oversized m max) :
    ∃ v, w.writeMessage m true i max replaced = pure (.tooLarge, v) := by
  rw [Writer.writeMessage]
  by_cases hover : w.appendOverflows m = true
  · exact ⟨w, if_pos hover⟩
  by_cases hpay : uint64Max - w.outIncompletePayloadBytes < m.size
  · exact ⟨w, by rw [if_neg hover, if_pos hpay]⟩
  have hmax := (h.resolve_left hover).resolve_left hpay
  exact ⟨w, by rw [if_neg hover, if_neg hpay, if_pos hmax]⟩

theorem writeMessage_of_commits {i : Bool} (hboundary : w.atRecordBoundary = true)
    (hcommits : m.commits = true) (hsize : ¬w.Oversized m max) :
    w.writeMessage m true i max replaced = (do
      let (ready, v) ← (w.grow m).awaitCommitCredit m.accountedBytes m.size true max
      if ready then
        return (.ready, v.settleFrame m replaced)
      return (.hwmFull,
        { v with
          outIncompleteBytes := w.outIncompleteBytes
          outIncompletePayloadBytes := w.outIncompletePayloadBytes
          outMultipartStartedEmpty := w.outMultipartStartedEmpty })) := by
  obtain ⟨-, -, hzero, hpay, -⟩ := atRecordBoundary_iff.mp hboundary
  rw [Oversized, not_or, not_or] at hsize
  have hmore := (Frame.commits_iff.mp hcommits).1
  rw [Writer.writeMessage, if_neg hsize.1, if_neg hsize.2.1, if_neg hsize.2.2]
  simp only [hmore, hcommits, startMultipart, grow, hzero, hpay, Nat.zero_add, Bool.false_and,
    Bool.not_false, Bool.true_or, Bool.not_true, Bool.or_self, Bool.false_eq_true, if_true,
    if_false, beq_self_eq_true, Bool.and_self, Prog.pure_eq, Prog.done_bind]

theorem settleFrame_withMarks (hboundary : w.atRecordBoundary = true)
    (hcommits : m.commits = true) :
    ((w.grow m).withMarks c k).settleFrame m replaced = (w.withMarks c k).commitSingle m :=
  grow_settleFrame (w := w.withMarks c k) hboundary hcommits

theorem exceedsMark_eq {inFlight : ℕ} (hsize : bytes ≤ uint64Max)
    (hempty : 0 < w.hwm ∧ w.hwm < bytes → inFlight = 0) :
    exceedsMark w inFlight bytes = decide (0 < w.hwm ∧ w.hwm < bytes) := by
  rw [exceedsMark, ← Bool.decide_and, ← Bool.decide_or, ← Bool.decide_or, ← Bool.decide_and,
    decide_eq_decide]
  omega

theorem chargeFrame_of_not_accounting {oversize : Bool} (h : w.registryAccounting = false) :
    s.chargeFrame w m oversize = s := by
  rw [chargeFrame, h]
  rfl

theorem releaseReplaced_of_not_conflate (h : s.writer.conflate = false) :
    s.releaseReplaced m replaced = s := by
  rw [releaseReplaced, h, Bool.and_false, Bool.false_and]
  rfl

theorem commits_of_countedPending (h : m.countedPending = true) : m.commits = true := by
  simp only [Frame.countedPending, Bool.and_eq_true] at h
  rw [Frame.commits, h.1.1.1, h.2]
  rfl

theorem accountedBytes_le (m : Frame) : m.accountedBytes ≤ uint64Max := by
  rw [Frame.accountedBytes_eq, satAdd]
  split
  · exact le_rfl
  · rename_i hroom
    have hmetadata : 0 < Frame.metadataBytes := by decide
    omega

theorem accountFrame_single (hboundary : s.writer.atRecordBoundary = true)
    (hcounted : m.countedPending = true) (hfree : s.writer.transportPairWriteHeld = false)
    (h : Takes s.writer m c) :
    ((s.withMarks c k).withWriter ((s.writer.withMarks c k).commitSingle m)).accountFrame s.writer m
      replaced = (s.singleWritten m).withMarks c k := by
  obtain ⟨hregistry, hconflate, hzero, -⟩ := atRecordBoundary_iff.mp hboundary
  have hmore := (Frame.commits_iff.mp (commits_of_countedPending hcounted)).1
  have hexceeds := exceedsMark_eq (accountedBytes_le m) h.inFlight
  rw [accountFrame, hzero, Nat.zero_add, hcounted, hfree, hmore,
    chargeFrame_of_not_accounting hregistry,
    releaseReplaced_of_not_conflate (by exact hconflate)]
  change (if (true && !false && exceedsMark s.writer (s.writer.bytesWritten - c.bytes)
    m.accountedBytes) = true then _ else _ : Sender).publishOutboundAccounting (false || 0 != 0) = _
  rw [hexceeds, singleWritten]
  by_cases hover : 0 < s.writer.hwm ∧ s.writer.hwm < m.accountedBytes
  · rw [if_pos hover, decide_eq_true hover]
    rfl
  · rw [if_neg hover, decide_eq_false hover]
    rfl

def TakenWith (R : Ledger → Prop) (w : Writer) (m : Frame) (c : Ledger) : Prop :=
  Takes w m c ∧ Raised R w (w.withCredit c)

theorem takes_of_firstCredit (hsized : m.accountedBytes ≠ uint64Max)
    (hc : FirstCredit R w m.accountedBytes m.size w.maxMessageBytes c)
    (hR : ∀ l, R l → Takes w m (w.credit.join l)) : Takes w m c := by
  rw [FirstCredit] at hc
  split at hc
  · rename_i hcan
    subst hc
    exact ⟨hsized, hcan⟩
  · obtain ⟨l, hl, rfl⟩ := hc
    exact hR l hl

theorem writeMessage_single {i : Bool} (hboundary : w.atRecordBoundary = true)
    (hcommits : m.commits = true) (hactive : w.outActive = true) :
    (w.writeMessage m true i w.maxMessageBytes replaced).Holds (fun _ => True) (fun _ => R)
      fun x => x.1 = .ready →
        ∃ c k, TakenWith R w m c ∧ x.2 = (w.withMarks c k).commitSingle m := by
  by_cases hsize : w.Oversized m w.maxMessageBytes
  · obtain ⟨v, hv⟩ := writeMessage_of_oversized i replaced hsize
    rw [hv]
    exact fun hready => Admission.noConfusion hready
  rw [writeMessage_of_commits hboundary hcommits hsize]
  apply (looked_awaitCommitCredit (w := w.grow m) hactive).bind
  rintro ⟨ready, v⟩ hready
  cases ready with
  | false => exact fun hready => Admission.noConfusion hready
  | true =>
    obtain ⟨⟨c, k, rfl, hraised⟩, hcan⟩ := hready rfl
    intro _
    exact ⟨c, k, ⟨⟨sized_of_not_oversized hsize, hcan⟩,
      ⟨hraised.le, hraised.bounded⟩⟩, settleFrame_withMarks hboundary hcommits⟩

theorem writeMessage_single_first {i : Bool} (hboundary : w.atRecordBoundary = true)
    (hcommits : m.commits = true) (h : Takes w m c)
    (hR : ∀ l, R l → Takes w m (w.credit.join l)) :
    (w.writeMessage m true i w.maxMessageBytes replaced).Holds (fun _ => True) (fun _ => R)
      fun x => x.1 = .ready ∧ ∃ c, FirstCredit R w m.accountedBytes m.size w.maxMessageBytes c ∧
        x.2 = (w.withCredit c).commitSingle m := by
  rw [writeMessage_of_commits hboundary hcommits (not_oversized_of_takes hboundary h)]
  apply (awaitCommitCredit_first (w := w.grow m) fun l hl => (hR l hl).credit).bind
  rintro ⟨ready, v⟩ ⟨rfl, c, hc, rfl⟩
  exact ⟨rfl, c, hc, settleFrame_withMarks (k := w.waitingForByteCredit) hboundary hcommits⟩

structure SinglePath (s : Sender) (m : Frame) (dropped : PeerControl → List Frame)
    (path : Sending (Admission × Sender)) : Prop where
  taken : ∀ R : Ledger → Prop, path.Holds (fun _ => True) (fun _ => R) fun x => x.1 = .ready →
    ∃ c k, Accepting s.writer ∧ TakenWith R s.writer m c ∧
      x.2 = ((s.singleWritten m).flush dropped).withMarks c k
  takes : ∀ (R : Ledger → Prop) (c : Ledger), Accepting s.writer → Takes s.writer m c →
    (∀ l, R l → Takes s.writer m (s.writer.credit.join l)) →
    path.Holds (fun _ => True) (fun _ => R) fun x => x.1 = .ready ∧
      ∃ c, FirstCredit R s.writer m.accountedBytes m.size s.writer.maxMessageBytes c ∧
        x.2 = ((s.singleWritten m).flush dropped).withMarks c s.writer.waitingForByteCredit

theorem singlePath_of_accepting {path : Sending (Admission × Sender)}
    (hrefused : ∀ admission w, s.writer.writeStateAdmission = (admission, w) →
      admission ≠ .ready → path = pure (admission, s.withWriter w))
    (h : Accepting s.writer → SinglePath s m dropped path) : SinglePath s m dropped path := by
  by_cases hready : s.writer.writeStateAdmission.1 = .ready
  · exact h (accepting_of_ready hready)
  · have hno (h : Accepting s.writer) : False := by
      rw [writeStateAdmission_of_accepting h] at hready
      exact hready rfl
    refine ⟨fun R => ?_, fun R c hacc => (hno hacc).elim⟩
    rw [hrefused _ _ rfl hready]
    exact fun hno => absurd hno hready

theorem flush_accountSingle (h : Takes s.writer m c) :
    (((s.withMarks c k).withWriter ((s.writer.withMarks c k).commitSingle m)).accountSingle
      (s.writer.withMarks c k) m).flush dropped =
      ((s.singleWritten m).flush dropped).withMarks c k := by
  rw [accountSingle_eq h, withMarks_flush]

theorem singlePath_writeSingle (haccepting : Accepting s.writer) :
    SinglePath s m dropped (s.writeSingle m dropped) := by
  rw [writeSingle]
  constructor
  · intro R
    split
    · exact fun hno => Admission.noConfusion hno
    rename_i hsize
    rw [not_or] at hsize
    apply Prog.Holds.bind (P := fun x : Bool × Sender => x.1 = true →
      ∃ c k, TakenWith R s.writer m c ∧ x.2 = s.withMarks c k)
    · rw [holds_within]
      refine (looked_awaitCommitCredit haccepting.outActive).imp fun x hx hready => ?_
      obtain ⟨⟨c, k, hv, hraised⟩, hcan⟩ := hx hready
      rw [hv] at hcan hraised
      exact ⟨c, k, ⟨⟨hsize.1, hcan⟩, ⟨hraised.le, hraised.bounded⟩⟩, congrArg s.withWriter hv⟩
    · rintro ⟨ready, t⟩ ht
      cases ready with
      | false => exact fun hno => Admission.noConfusion hno
      | true =>
        obtain ⟨c, k, htaken, rfl⟩ := ht rfl
        exact fun _ => ⟨c, k, haccepting, htaken, flush_accountSingle htaken.1⟩
  · intro R c _ htakes hR
    have hmax := (canCommitBytes_iff.mp htakes.credit).1
    rw [if_neg (not_or.mpr ⟨htakes.sized, hmax⟩)]
    apply Prog.Holds.bind (P := fun x : Bool × Sender => x.1 = true ∧ ∃ c, Takes s.writer m c ∧
        FirstCredit R s.writer m.accountedBytes m.size s.writer.maxMessageBytes c ∧
        x.2 = s.withCredit c)
    · rw [holds_within]
      refine (awaitCommitCredit_first fun l hl => (hR l hl).credit).imp fun x hx => ?_
      obtain ⟨hready, c, hc, hv⟩ := hx
      exact ⟨hready, c, takes_of_firstCredit htakes.sized hc hR, hc, congrArg s.withWriter hv⟩
    · rintro ⟨ready, t⟩ ⟨rfl, c, htakes, hc, rfl⟩
      exact ⟨rfl, c, hc, flush_accountSingle htakes⟩

theorem taken_writeMessageAndFlush (hboundary : s.writer.atRecordBoundary = true)
    (hcounted : m.countedPending = true) (haccepting : Accepting s.writer) :
    (s.writeMessageAndFlush m true replaced dropped).Holds (fun _ => True) (fun _ => R)
      fun x => x.1 = .ready → ∃ c k, TakenWith R s.writer m c ∧
        x.2 = ((s.singleWritten m).flush dropped).withMarks c k := by
  have hcommits := commits_of_countedPending hcounted
  have hmore := (Frame.commits_iff.mp hcommits).1
  rw [writeMessageAndFlush]
  apply Prog.Holds.bind (P := fun x : Admission × Sender => x.1 = .ready →
    ∃ c k, TakenWith R s.writer m c ∧ x.2 = (s.singleWritten m).withMarks c k)
  · rw [writeMessage]
    apply Prog.Holds.bind (P := fun x : Admission × Sender => x.1 = .ready →
      ∃ c k, TakenWith R s.writer m c ∧
        x.2 = s.withWriter ((s.writer.withMarks c k).commitSingle m))
    · rw [holds_within]
      refine (writeMessage_single hboundary hcommits haccepting.outActive).imp fun x hx hready => ?_
      obtain ⟨c, k, htaken, hv⟩ := hx hready
      exact ⟨c, k, htaken, congrArg s.withWriter hv⟩
    · rintro ⟨admission, t⟩ ht
      by_cases hready : admission = .ready
      · subst hready
        obtain ⟨c, k, htaken, rfl⟩ := ht rfl
        exact fun _ => ⟨c, k, htaken,
          accountFrame_single hboundary hcounted haccepting.free htaken.1⟩
      · dsimp only
        rw [if_neg hready]
        exact fun hno => absurd hno hready
  · rintro ⟨admission, t⟩ ht
    dsimp only
    by_cases hready : admission = .ready
    · subst hready
      obtain ⟨c, k, htaken, rfl⟩ := ht rfl
      rw [if_pos ⟨rfl, hmore⟩]
      exact fun _ => ⟨c, k, htaken, withMarks_flush _⟩
    · rw [if_neg fun hall => hready hall.1]
      exact fun hno => absurd hno hready

theorem takes_writeMessageAndFlush (hboundary : s.writer.atRecordBoundary = true)
    (hcounted : m.countedPending = true) (hfree : s.writer.transportPairWriteHeld = false)
    (h : Takes s.writer m c) (hR : ∀ l, R l → Takes s.writer m (s.writer.credit.join l)) :
    (s.writeMessageAndFlush m true replaced dropped).Holds (fun _ => True) (fun _ => R)
      fun x => x.1 = .ready ∧
        ∃ c, FirstCredit R s.writer m.accountedBytes m.size s.writer.maxMessageBytes c ∧
          x.2 = ((s.singleWritten m).flush dropped).withMarks c s.writer.waitingForByteCredit := by
  have hcommits := commits_of_countedPending hcounted
  have hmore := (Frame.commits_iff.mp hcommits).1
  rw [writeMessageAndFlush]
  apply Prog.Holds.bind (P := fun x : Admission × Sender => x.1 = .ready ∧
    ∃ c, FirstCredit R s.writer m.accountedBytes m.size s.writer.maxMessageBytes c ∧
      x.2 = (s.singleWritten m).withMarks c s.writer.waitingForByteCredit)
  · rw [writeMessage]
    apply Prog.Holds.bind (P := fun x : Admission × Sender => x.1 = .ready ∧
      ∃ c, FirstCredit R s.writer m.accountedBytes m.size s.writer.maxMessageBytes c ∧
        x.2 = s.withWriter ((s.writer.withCredit c).commitSingle m))
    · rw [holds_within]
      refine (writeMessage_single_first hboundary hcommits h hR).imp fun x hx => ?_
      obtain ⟨hready, c, hc, hv⟩ := hx
      exact ⟨hready, c, hc, congrArg s.withWriter hv⟩
    · rintro ⟨admission, t⟩ ⟨rfl, c, hc, rfl⟩
      exact ⟨rfl, c, hc,
        accountFrame_single hboundary hcounted hfree (takes_of_firstCredit h.sized hc hR)⟩
  · rintro ⟨admission, t⟩ ⟨rfl, c, hc, rfl⟩
    dsimp only
    rw [if_pos ⟨rfl, hmore⟩]
    exact ⟨rfl, c, hc, withMarks_flush _⟩

theorem checkHwm_of_takes (h : Takes w m c) : (w.withCredit c).checkHwm = true := by
  have hfits := (canCommitBytes_iff.mp h.credit).2
  have hpos := m.accountedBytes_pos
  rw [checkHwm, Bool.not_eq_true', Bool.and_eq_false_iff, decide_eq_false_iff_not,
    decide_eq_false_iff_not]
  change w.hwm = 0 ∨ (true = true ∧ (w.withCredit c).inFlight = 0) ∨ _ at hfits
  change ¬0 < w.hwm ∨ ¬w.hwm ≤ (w.withCredit c).inFlight
  change w.hwm = 0 ∨ _ ∨ _ ∧ (w.withCredit c).inFlight + m.accountedBytes ≤ w.hwm at hfits
  omega

theorem Takes.mono {d : Ledger} (h : Takes w m c) (hle : c ≤ d) : Takes w m d := by
  refine ⟨h.sized, canCommitBytes_iff.mpr ?_⟩
  obtain ⟨hmax, hfits⟩ := canCommitBytes_iff.mp h.credit
  have hless : (w.withCredit d).inFlight ≤ (w.withCredit c).inFlight := by
    rw [inFlight_eq, inFlight_eq]
    exact Nat.sub_le_sub_left hle.2 _
  refine ⟨hmax, hfits.imp_right (Or.imp (fun hempty => ⟨rfl, ?_⟩) fun hroom => ?_)⟩
  · exact Nat.le_zero.mp (hless.trans_eq hempty.2)
  · change ¬_ ∧ _ ≤ w.hwm at hroom
    change ¬_ ∧ _ ≤ w.hwm
    omega

theorem first_admitWrite (haccepting : Accepting w) (hR : ∀ l, R l → Takes w m (w.credit.join l)) :
    w.admitWrite.Holds (fun _ => True) (fun _ => R) fun x => x.1 = .ready ∧
      (x.2 = w ∨ w.checkHwm = false ∧ ∃ l, R l ∧ x.2 = w.withCredit (w.credit.join l)) := by
  rw [admitWrite, writeStateAdmission_of_accepting haccepting]
  simp only [ne_eq, not_true_eq_false, if_false]
  rw [hwmCreditReady]
  apply Prog.Holds.bind (P := fun x : Bool × Writer => x.1 = true ∧
    (x.2 = w ∨ w.checkHwm = false ∧ ∃ l, R l ∧ x.2 = w.withCredit (w.credit.join l)))
  · apply Prog.Holds.bind (P := fun x : Bool × Writer => x.1 = true ∧
      (x.2 = w ∨ w.checkHwm = false ∧ ∃ l, R l ∧ x.2 = w.withCredit (w.credit.join l)))
    · rw [checkHwmWithPeerSnapshot]
      split
      · exact ⟨rfl, .inl rfl⟩
      · rename_i hfull
        exact Prog.Holds.load trivial fun l hl =>
          ⟨checkHwm_of_takes (hR l hl), .inr ⟨Bool.eq_false_iff.mpr hfull, l, hl, rfl⟩⟩
    · rintro ⟨ready, v⟩ ⟨rfl, hv⟩
      exact ⟨rfl, hv⟩
  · rintro ⟨ready, v⟩ ⟨rfl, hv⟩
    exact ⟨rfl, hv⟩

theorem looked_admitWrite (haccepting : Accepting w) :
    w.admitWrite.Holds (fun _ => True) (fun _ => R) fun x => x.1 = .ready → Looked R w x.2 := by
  rw [admitWrite, writeStateAdmission_of_accepting haccepting]
  simp only [ne_eq, not_true_eq_false, if_false]
  apply (looked_hwmCreditReady haccepting.outActive).bind
  rintro ⟨ready, v⟩ hv
  cases ready with
  | false => exact fun hno => Admission.noConfusion hno
  | true => exact fun _ => hv rfl

theorem firstCredit_of_found {l : Ledger} (hl : R l) (hfull : w.checkHwm = false)
    (htakes : Takes w m (w.credit.join l)) (hc : FirstCredit R (w.withCredit (w.credit.join l))
      m.accountedBytes m.size w.maxMessageBytes c) :
    FirstCredit R w m.accountedBytes m.size w.maxMessageBytes c := by
  have hno : ¬w.canCommitBytes m.accountedBytes m.size true w.maxMessageBytes = true := by
    intro hcan
    have hroom : w.checkHwm = true := checkHwm_of_takes (c := w.credit) ⟨htakes.sized, hcan⟩
    rw [hfull] at hroom
    cases hroom
  rw [FirstCredit, if_pos htakes.credit] at hc
  rw [FirstCredit, if_neg hno]
  exact ⟨l, hl, hc⟩

theorem taken_writeAndFlush (hboundary : s.writer.atRecordBoundary = true)
    (hcounted : m.countedPending = true) (haccepting : Accepting s.writer) :
    (s.writeAndFlush m replaced dropped).Holds (fun _ => True) (fun _ => R)
      fun x => x.1 = .ready → ∃ c k, TakenWith R s.writer m c ∧
        x.2 = ((s.singleWritten m).flush dropped).withMarks c k := by
  rw [writeAndFlush, admitted]
  apply Prog.Holds.bind (P := fun x : Admission × Sender => x.1 = .ready →
    ∃ c k, Raised R s.writer (s.writer.withMarks c k) ∧ x.2 = s.withMarks c k)
  · rw [holds_within]
    refine (looked_admitWrite haccepting).imp fun x hx hready => ?_
    obtain ⟨c, k, hv, hraised⟩ := hx hready
    exact ⟨c, k, hv ▸ hraised, congrArg s.withWriter hv⟩
  · rintro ⟨admission, t⟩ ht
    by_cases hready : admission = .ready
    · subst hready
      obtain ⟨c, k, hraised, rfl⟩ := ht rfl
      have hnext : Accepting (s.withMarks c k).writer :=
        ⟨haccepting.active, haccepting.free, haccepting.running, haccepting.outActive⟩
      refine (taken_writeMessageAndFlush (s := s.withMarks c k) hboundary hcounted hnext).imp
        fun x hx hready => ?_
      obtain ⟨d, i, ⟨htakes, hmore⟩, hend⟩ := hx hready
      refine ⟨d, i, ⟨⟨htakes.sized, htakes.credit⟩, (hraised.trans hmore).congr rfl⟩, ?_⟩
      rw [hend, withMarks_singleWritten, withMarks_flush, withMarks_withMarks]
    · dsimp only
      rw [if_pos hready]
      exact fun hno => absurd hno hready

theorem takes_writeAndFlush (hboundary : s.writer.atRecordBoundary = true)
    (hcounted : m.countedPending = true) (haccepting : Accepting s.writer)
    (h : Takes s.writer m c) (hR : ∀ l, R l → Takes s.writer m (s.writer.credit.join l)) :
    (s.writeAndFlush m replaced dropped).Holds (fun _ => True) (fun _ => R) fun x => x.1 = .ready ∧
        ∃ c, FirstCredit R s.writer m.accountedBytes m.size s.writer.maxMessageBytes c ∧
          x.2 = ((s.singleWritten m).flush dropped).withMarks c s.writer.waitingForByteCredit := by
  rw [writeAndFlush, admitted]
  apply Prog.Holds.bind (P := fun x : Admission × Sender => x.1 = .ready ∧ (x.2 = s ∨
    s.writer.checkHwm = false ∧ ∃ l, R l ∧ x.2 = s.withCredit (s.writer.credit.join l)))
  · rw [holds_within]
    refine (first_admitWrite haccepting hR).imp fun x hx => ⟨hx.1, ?_⟩
    rcases hx.2 with hv | ⟨hfull, l, hl, hv⟩
    · exact .inl (congrArg s.withWriter hv)
    · exact .inr ⟨hfull, l, hl, congrArg s.withWriter hv⟩
  · rintro ⟨admission, t⟩ ⟨rfl, rfl | ⟨hfull, l, hl, rfl⟩⟩
    · exact takes_writeMessageAndFlush hboundary hcounted haccepting.free h hR
    · have hfound := hR l hl
      have hlater (k : Ledger) : Takes (s.withCredit (s.writer.credit.join l)).writer m
          ((s.writer.credit.join l).join k) :=
        have hmono := hfound.mono (Ledger.le_join_left _ k)
        ⟨hmono.sized, hmono.credit⟩
      refine (takes_writeMessageAndFlush (s := s.withCredit (s.writer.credit.join l)) hboundary
        hcounted haccepting.free (hlater l) fun k _ => hlater k).imp fun x hx => ?_
      obtain ⟨hready, d, hd, hend⟩ := hx
      refine ⟨hready, d, firstCredit_of_found hl hfull hfound hd, ?_⟩
      have hmarks := withMarks_singleWritten (c := s.writer.credit.join l)
        (k := s.writer.waitingForByteCredit) s m
      change (s.withCredit _).singleWritten m = _ at hmarks
      rw [hend, hmarks, withMarks_flush, withMarks_withMarks]
      rfl

theorem singlePath_writeAndFlush (hboundary : s.writer.atRecordBoundary = true)
    (hcounted : m.countedPending = true) :
    SinglePath s m dropped (s.writeAndFlush m replaced dropped) := by
  refine singlePath_of_accepting (fun admission w hchecked hno => ?_) fun haccepting => ?_
  · rw [writeAndFlush, admitted, admitWrite, hchecked]
    dsimp only
    rw [if_pos hno]
    change (if admission ≠ .ready then _ else _) = _
    rw [if_pos hno]
    rfl
  · refine ⟨fun R => ?_, fun R c _ h hR => takes_writeAndFlush hboundary hcounted haccepting h hR⟩
    refine (taken_writeAndFlush hboundary hcounted haccepting).imp fun x hx hready => ?_
    obtain ⟨c, k, htaken, hend⟩ := hx hready
    exact ⟨c, k, haccepting, htaken, hend⟩

theorem singlePath_writeSingleMessageAndFlush (hboundary : s.writer.atRecordBoundary = true)
    (hcommits : m.commits = true) :
    SinglePath s m dropped (s.writeSingleMessageAndFlush m replaced dropped) := by
  refine singlePath_of_accepting (fun admission w hchecked hno => ?_) fun haccepting => ?_
  · rw [writeSingleMessageAndFlush, hchecked]
    change (if admission ≠ .ready then _ else _) = _
    rw [if_pos hno]
    rfl
  · rw [writeSingleMessageAndFlush, writeStateAdmission_of_accepting haccepting]
    change SinglePath s m dropped (if s.writer.atRecordBoundary = true ∧ m.commits = true then
      s.writeSingle m dropped else _)
    rw [if_pos ⟨hboundary, hcommits⟩]
    exact singlePath_writeSingle haccepting

/-- Where one path takes the message, so does another one that is run from the same state while the
reader has not gone back behind the credit that the first has found. -/
theorem SinglePath.agrees {path other : Sending (Admission × Sender)}
    (h : SinglePath s m dropped path) (h' : SinglePath s m dropped other) :
    path.Holds (fun _ => True) (fun _ _ => True) fun x => x.1 = .ready →
      ∀ R : Ledger → Prop, (∀ l, R l → x.2.writer.credit ≤ s.writer.credit.join l) →
        other.Holds (fun _ => True) (fun _ => R) fun y => y.1 = .ready ∧
          y.2 = x.2.withMarks y.2.writer.credit y.2.writer.waitingForByteCredit := by
  refine (h.taken fun _ => True).imp fun x hx hready R hR => ?_
  obtain ⟨c, k, haccepting, htaken, hend⟩ := hx hready
  have hcredit : x.2.writer.credit = c := by
    rw [hend]
    rfl
  rw [hcredit] at hR
  refine (h'.takes R c haccepting htaken.1 fun l hl => htaken.1.mono (hR l hl)).imp fun y hy => ?_
  obtain ⟨hready, d, -, hend'⟩ := hy
  refine ⟨hready, ?_⟩
  rw [hend, hend', withMarks_withMarks]
  rfl

theorem takes_of_taken {l : Ledger} (h : TakenWith (· = l) w m c) :
    Takes w m (w.credit.join l) := by
  refine h.1.mono (h.2.bounded _ (Ledger.le_join_left _ _) ?_)
  rintro k rfl
  exact Ledger.le_join_right _ _

theorem firstCredit_unique {d l : Ledger} (hc : FirstCredit (· = l) w bytes payload max c)
    (hd : FirstCredit (· = l) w bytes payload max d) : c = d := by
  rw [FirstCredit] at hc hd
  split at hc
  · rename_i hcan
    rw [if_pos hcan] at hd
    exact hc.trans hd.symm
  · rename_i hcan
    rw [if_neg hcan] at hd
    obtain ⟨_, rfl, hc⟩ := hc
    obtain ⟨_, rfl, hd⟩ := hd
    exact hc.trans hd.symm

theorem SinglePath.same {path other : Sending (Admission × Sender)}
    (h : SinglePath s m dropped path) (h' : SinglePath s m dropped other) (l : Ledger) :
    path.Holds (fun _ => True) (fun _ => (· = l)) fun x =>
      other.Holds (fun _ => True) (fun _ => (· = l)) fun y =>
        (x.1 = .ready ↔ y.1 = .ready) ∧ (x.1 = .ready → y.2 = x.2) := by
  by_cases hroom : Accepting s.writer ∧ Takes s.writer m (s.writer.credit.join l)
  · have hR : ∀ k, k = l → Takes s.writer m (s.writer.credit.join k) := by
      rintro k rfl
      exact hroom.2
    refine (h.takes _ _ hroom.1 hroom.2 hR).imp fun x hx => ?_
    refine (h'.takes _ _ hroom.1 hroom.2 hR).imp fun y hy => ?_
    obtain ⟨hready, c, hc, hend⟩ := hx
    obtain ⟨hready', d, hd, hend'⟩ := hy
    refine ⟨iff_of_true hready hready', fun _ => ?_⟩
    rw [hend, hend', firstCredit_unique hc hd]
  · refine (h.taken _).imp fun x hx => (h'.taken _).imp fun y hy => ?_
    have hno : x.1 ≠ .ready := by
      intro hready
      obtain ⟨c, k, haccepting, htaken, -⟩ := hx hready
      exact hroom ⟨haccepting, takes_of_taken htaken⟩
    have hno' : y.1 ≠ .ready := by
      intro hready
      obtain ⟨c, k, haccepting, htaken, -⟩ := hy hready
      exact hroom ⟨haccepting, takes_of_taken htaken⟩
    exact ⟨iff_of_false hno hno', fun hready => absurd hready hno⟩

theorem within_bind {β γ δ : Type} {p : Access (β × Writer)} {f : β × Writer → Access (γ × Writer)}
    {g : γ × Sender → Sending δ} {g' : β × Sender → Sending δ}
    (h : ∀ x, g' (x.1, s.withWriter x.2) = s.within (f x) >>= g) :
    s.within p >>= g' = s.within (p >>= f) >>= g := by
  induction p with
  | done x => exact h x
  | ask w q k ih => exact congrArg (Prog.ask (s.withWriter w) q) (funext ih)

theorem writeSingleMessageAndFlush_of_not_boundary (hboundary : ¬s.writer.atRecordBoundary = true)
    (hcommits : m.commits = true) :
    s.writeSingleMessageAndFlush m replaced dropped = s.writeAndFlush m replaced dropped := by
  have hmore := (Frame.commits_iff.mp hcommits).1
  have hincremental (t : Sender) : t.writeMessage m true false t.writer.maxMessageBytes replaced =
        t.writeMessage m true true t.writer.maxMessageBytes replaced := by
    rw [writeMessage, writeMessage, Writer.writeMessage, Writer.writeMessage, hcommits]
    rfl
  have hlast (t : Sender) :
      (t.writeMessage m true true t.writer.maxMessageBytes replaced >>= fun x =>
        if x.1 = .ready then pure (.ready, x.2.flush dropped) else pure x) =
          t.writeMessageAndFlush m true replaced dropped := by
    rw [writeMessageAndFlush, hmore]
    refine congrArg (Prog.bind _) (funext fun x => ?_)
    obtain ⟨admission, u⟩ := x
    by_cases hready : admission = .ready
    · subst hready
      rfl
    · exact (if_neg hready).trans (if_neg fun hall => hready hall.1).symm
  by_cases hready : s.writer.writeStateAdmission.1 = .ready
  · rw [writeSingleMessageAndFlush, writeAndFlush, admitted, admitWrite,
      writeStateAdmission_of_ready hready]
    change (if s.writer.atRecordBoundary = true ∧ m.commits = true then _ else _) = _
    rw [if_neg fun hall => hboundary hall.1]
    simp only [hincremental]
    rw [if_neg (not_not.mpr rfl)]
    refine within_bind fun x => ?_
    obtain ⟨ready, w⟩ := x
    cases ready
    case false => rfl
    case true => exact hlast _
  · rw [writeSingleMessageAndFlush, writeAndFlush, admitted, admitWrite]
    generalize s.writer.writeStateAdmission = checked at hready
    obtain ⟨admission, w⟩ := checked
    dsimp only
    rw [if_pos hready]
    change (if admission ≠ .ready then _ else _) = (if admission ≠ .ready then _ else _)
    rw [if_pos hready, if_pos hready]

/-- The path for single messages against the general one, for every sender and every single frame
that counts as a message. Where the reader rests, one path takes the frame exactly where the other
one does, and both leave the very same sender behind. At the boundary of a record, and whatever the
loads find, each path takes what the other one has taken, as long as the reader has not gone back
behind the credit that the other one found; both leave the same sender behind then, but for the
credit that they found and the mark of a wait that is over. -/
theorem writeSingleMessageAndFlush_agrees (s : Sender) (m : Frame) (replaced : List Frame)
    (dropped : PeerControl → List Frame) (hcounted : m.countedPending = true) :
    (∀ l, (s.writeSingleMessageAndFlush m replaced dropped).Holds (fun _ => True) (fun _ => (· = l))
        fun x => (s.writeAndFlush m replaced dropped).Holds (fun _ => True) (fun _ => (· = l))
          fun y => (x.1 = .ready ↔ y.1 = .ready) ∧ (x.1 = .ready → y.2 = x.2)) ∧
    (s.writer.atRecordBoundary = true →
      ((s.writeSingleMessageAndFlush m replaced dropped).Holds (fun _ => True) (fun _ _ => True)
        fun x => x.1 = .ready → ∀ R : Ledger → Prop,
          (∀ l, R l → x.2.writer.credit ≤ s.writer.credit.join l) →
          (s.writeAndFlush m replaced dropped).Holds (fun _ => True) (fun _ => R) fun y =>
            y.1 = .ready ∧ y.2 = x.2.withMarks y.2.writer.credit y.2.writer.waitingForByteCredit) ∧
      (s.writeAndFlush m replaced dropped).Holds (fun _ => True) (fun _ _ => True)
        fun x => x.1 = .ready → ∀ R : Ledger → Prop,
          (∀ l, R l → x.2.writer.credit ≤ s.writer.credit.join l) →
          (s.writeSingleMessageAndFlush m replaced dropped).Holds (fun _ => True) (fun _ => R)
            fun y => y.1 = .ready ∧
              y.2 = x.2.withMarks y.2.writer.credit y.2.writer.waitingForByteCredit) := by
  have hcommits := commits_of_countedPending hcounted
  by_cases hboundary : s.writer.atRecordBoundary = true
  · have hsingle : SinglePath s m dropped (s.writeSingleMessageAndFlush m replaced dropped) :=
      singlePath_writeSingleMessageAndFlush hboundary hcommits
    have hgeneral : SinglePath s m dropped (s.writeAndFlush m replaced dropped) :=
      singlePath_writeAndFlush hboundary hcounted
    exact ⟨hsingle.same hgeneral, fun _ => ⟨hsingle.agrees hgeneral, hgeneral.agrees hsingle⟩⟩
  · refine ⟨fun l => ?_, fun hyes => absurd hyes hboundary⟩
    rw [writeSingleMessageAndFlush_of_not_boundary hboundary hcommits]
    have hone : ∀ (q : Unit) (a b : Ledger), a = l → b = l → a = b := by
      rintro _ a b rfl rfl
      rfl
    refine (Prog.holds_self hone _).imp fun x hx => hx.imp fun y hy => ?_
    rw [hy]
    exact ⟨Iff.rfl, fun _ => rfl⟩

/-- A message of three bytes on a new pipe, with a mark that it exceeds. -/
theorem writeSingleMessageAndFlush_agrees_init :
    ∃ s : Sender, ∃ m : Frame, s.writer.atRecordBoundary = true ∧ m.countedPending = true ∧
      ∀ l, (s.writeSingleMessageAndFlush m [] fun _ => []).Holds (fun _ => True) (fun _ => (· = l))
        fun x => (s.writeAndFlush m [] fun _ => []).Holds (fun _ => True) (fun _ => (· = l))
          fun y => (x.1 = .ready ↔ y.1 = .ready) ∧ (x.1 = .ready → y.2 = x.2) :=
  ⟨.init 50 false .application ⟨.application, 1, 0, 0, false, false, false, false, false⟩,
    .data { flags := 0, data := [1, 2, 3], requestReply := none }, by decide, by decide,
    (writeSingleMessageAndFlush_agrees _ _ [] (fun _ => []) (by decide)).1⟩

end Sender

end Zlink.Pipe
