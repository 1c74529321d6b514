import Zlink.Pipe.Link

/-!
# What the operations of the writing end change

One rule for each operation: what it shows to the other threads while it runs, and
what it leaves behind. `Raised` is all that a load of the reader's ledger can do to
the credit, `Settles` what an operation does that takes no frame, `Accepted` what
one does that takes a frame.

The rules hold for loads within any `R`: without a bound on what the loads find
they say that credit is never lowered, with a bound also that it stays below.
-/

namespace Zlink.Pipe

open Protocol Suspension

namespace Writer

variable {R : Ledger → Prop} {w v u : Writer}

/-- The credit was raised, by nothing but ledgers within `R`. -/
structure Raised (R : Ledger → Prop) (w v : Writer) : Prop where
  le : w.credit ≤ v.credit
  bounded : ∀ b, w.credit ≤ b → (∀ l, R l → l ≤ b) → v.credit ≤ b

theorem Raised.bytes_le (h : Raised R w v) : w.peersBytesRead ≤ v.peersBytesRead :=
  h.le.2

theorem Raised.refl (w : Writer) : Raised R w w where
  le := le_rfl
  bounded _ h _ := h

theorem Raised.trans (h : Raised R w v) (h' : Raised R v u) : Raised R w u where
  le := h.le.trans h'.le
  bounded b hb hR := h'.bounded b (h.bounded b hb hR) hR

theorem Raised.congr (h : Raised R w v) (hu : u.credit = v.credit) : Raised R w u where
  le := hu ▸ h.le
  bounded b h₁ h₂ := hu ▸ h.bounded b h₁ h₂

theorem raised_refresh {l : Ledger} (hl : R l) : Raised R w (w.refreshPeerCreditSnapshot l) where
  le := Ledger.le_join_left _ _
  bounded _ hb hR := Ledger.join_le hb (hR l hl)

structure Settles (R : Ledger → Prop) (w v : Writer) : Prop where
  raised : Raised R w v
  eq : v = { w with
    peersMsgsRead := v.peersMsgsRead
    peersBytesRead := v.peersBytesRead
    outActive := v.outActive
    waitingForByteCredit := v.waitingForByteCredit
    waitingForFlowResume := v.waitingForFlowResume
    transportPairWriteHeld := v.transportPairWriteHeld
    remoteFlowPaused := v.remoteFlowPaused
    remoteFlowEpoch := v.remoteFlowEpoch
    outOwnerMessageStarted := v.outOwnerMessageStarted
    outOwnerMessageStartPending := v.outOwnerMessageStartPending }

namespace Settles

theorem refl (w : Writer) : Settles R w w where
  raised := Raised.refl w
  eq := rfl

theorem trans (h : Settles R w v) (h' : Settles R v u) : Settles R w u where
  raised := h.raised.trans h'.raised
  eq := by
    rw [h'.eq, h.eq]

variable (h : Settles R w v)
include h

theorem conflate : v.conflate = w.conflate := by rw [h.eq]
theorem hwm : v.hwm = w.hwm := by rw [h.eq]
theorem maxMessageBytes : v.maxMessageBytes = w.maxMessageBytes := by rw [h.eq]
theorem outGeneration : v.outGeneration = w.outGeneration := by rw [h.eq]
theorem bytesWritten : v.bytesWritten = w.bytesWritten := by rw [h.eq]
theorem outIncompleteBytes : v.outIncompleteBytes = w.outIncompleteBytes := by
  rw [h.eq]
theorem outMultipartStartedEmpty :
    v.outMultipartStartedEmpty = w.outMultipartStartedEmpty := by rw [h.eq]
theorem decoderMultipartStartedEmpty :
    v.decoderMultipartStartedEmpty = w.decoderMultipartStartedEmpty := by rw [h.eq]
theorem outIncompletePayloadBytes :
    v.outIncompletePayloadBytes = w.outIncompletePayloadBytes := by rw [h.eq]
theorem reservation : v.reservation = w.reservation := by rw [h.eq]
theorem outPipe : v.outPipe = w.outPipe := by rw [h.eq]

end Settles

theorem settles_refresh {l : Ledger} (hl : R l) : Settles R w (w.refreshPeerCreditSnapshot l) where
  raised := raised_refresh hl
  eq := rfl

theorem settles_arm : Settles R w w.armHwmCreditWait where
  raised := (Raised.refl w).congr rfl
  eq := rfl

theorem settles_clear : Settles R w w.clearHwmCreditWait where
  raised := (Raised.refl w).congr rfl
  eq := rfl

theorem settles_writeStateAdmission : Settles R w w.writeStateAdmission.2 := by
  rw [writeStateAdmission]
  split
  · exact Settles.refl w
  split
  · exact Settles.refl w
  split
  · exact ⟨(Raised.refl w).congr rfl, rfl⟩
  split <;> exact Settles.refl w

/-- What other threads see of an operation that has not ended: its credit, and the
queue and ledger as they were. -/
structure Shows (R : Ledger → Prop) (w v : Writer) : Prop where
  raised : Raised R w v
  conflate : v.conflate = w.conflate
  outGeneration : v.outGeneration = w.outGeneration
  bytesWritten : v.bytesWritten = w.bytesWritten
  flushed : v.outPipe.flushed = w.outPipe.flushed
  committed : v.outPipe.committed = w.outPipe.committed

theorem Settles.shows (h : Settles R w v) : Shows R w v where
  raised := h.raised
  conflate := h.conflate
  outGeneration := h.outGeneration
  bytesWritten := h.bytesWritten
  flushed := by rw [h.outPipe]
  committed := by rw [h.outPipe]

theorem Shows.trans (h : Shows R w v) (h' : Shows R v u) : Shows R w u where
  raised := h.raised.trans h'.raised
  conflate := h'.conflate.trans h.conflate
  outGeneration := h'.outGeneration.trans h.outGeneration
  bytesWritten := h'.bytesWritten.trans h.bytesWritten
  flushed := h'.flushed.trans h.flushed
  committed := h'.committed.trans h.committed

/-- A program that loads within `R` shows no more than `Shows`, and ends in `P`. -/
def Runs {β : Type} (R : Ledger → Prop) (w : Writer) (p : Access β) (P : β → Prop) : Prop :=
  p.Holds (Shows R w) (fun _ => R) P

namespace Runs

variable {β γ : Type} {P Q : β → Prop} {p : Access β}

theorem pure {b : β} (h : P b) : Runs R w (Pure.pure b) P := h

theorem bind {T : γ → Prop} {f : β → Access γ} (hp : Runs R w p P)
    (hf : ∀ b, P b → Runs R w (f b) T) : Runs R w (p >>= f) T :=
  Prog.Holds.bind hp hf

theorem imp (hp : Runs R w p P) (h : ∀ b, P b → Q b) : Runs R w p Q :=
  Prog.Holds.imp hp h

theorem of_shows (h : Shows R w v) (hp : Runs R v p P) : Runs R w p P :=
  Prog.Holds.mono hp (fun _ hs => h.trans hs) (fun _ _ hl => hl) (fun _ hb => hb)

theorem poll {f : Ledger → Access β} (hs : Shows R w v)
    (hf : ∀ l, R l → Runs R w (f l) P) : Runs R w (v.poll >>= f) P :=
  Prog.Holds.load hs hf

end Runs

theorem checkHwmWithPeerSnapshot_runs : Runs R w w.checkHwmWithPeerSnapshot
      (fun x => Settles R w x.2 ∧ x.1 = x.2.checkHwm) := by
  rw [checkHwmWithPeerSnapshot]
  split
  case isTrue h => exact Runs.pure ⟨Settles.refl w, h.symm⟩
  case isFalse h =>
    apply Runs.poll (Settles.refl w).shows
    intro l hl
    exact Runs.pure ⟨settles_refresh hl, rfl⟩

theorem hwmCreditReady_runs : Runs R w w.hwmCreditReady
      (fun x => Settles R w x.2 ∧ (x.1 = true → x.2.checkHwm = true)) := by
  rw [hwmCreditReady]
  apply checkHwmWithPeerSnapshot_runs.bind
  rintro ⟨ready, v⟩ ⟨hv, hready⟩
  cases ready with
  | true => exact Runs.pure ⟨hv, fun _ => hready.symm⟩
  | false =>
    have harm : Settles R w v.armHwmCreditWait := hv.trans settles_arm
    apply (Runs.of_shows harm.shows checkHwmWithPeerSnapshot_runs).bind
    rintro ⟨ready, u⟩ ⟨hu, hready⟩
    cases ready with
    | true =>
      exact Runs.pure ⟨(harm.trans hu).trans settles_clear, fun _ => hready.symm⟩
    | false => exact Runs.pure ⟨harm.trans hu, fun h => by simp at h⟩

theorem settles_marks {v : Writer} (hcredit : v.credit = w.credit) (h : v = { w with
      outActive := v.outActive
      waitingForByteCredit := v.waitingForByteCredit
      waitingForFlowResume := v.waitingForFlowResume
      transportPairWriteHeld := v.transportPairWriteHeld
      remoteFlowPaused := v.remoteFlowPaused
      remoteFlowEpoch := v.remoteFlowEpoch
      outOwnerMessageStarted := v.outOwnerMessageStarted
      outOwnerMessageStartPending := v.outOwnerMessageStartPending }) :
    Settles R w v where
  raised := (Raised.refl w).congr hcredit
  eq := by
    have hm : v.peersMsgsRead = w.peersMsgsRead := congrArg Ledger.msgs hcredit
    have hb : v.peersBytesRead = w.peersBytesRead := congrArg Ledger.bytes hcredit
    rw [hm, hb]
    exact h

theorem admitWrite_runs : Runs R w w.admitWrite (fun x => Settles R w x.2) := by
  rw [admitWrite]
  have hstate := settles_writeStateAdmission (R := R) (w := w)
  split
  case h_1 admission v heq =>
    rw [heq] at hstate
    split
    · exact Runs.pure hstate
    apply (Runs.of_shows hstate.shows hwmCreditReady_runs).bind
    rintro ⟨ready, u⟩ ⟨hu, -⟩
    cases ready <;> exact Runs.pure (hstate.trans hu)

theorem recoverPublishCredit_runs : Runs R w w.recoverPublishCredit (fun x => Settles R w x.2) := by
  rw [recoverPublishCredit]
  split
  · exact Runs.pure (Settles.refl w)
  apply checkHwmWithPeerSnapshot_runs.bind
  rintro ⟨ready, v⟩ ⟨hv, -⟩
  cases ready with
  | true => exact Runs.pure (hv.trans settles_clear)
  | false => exact Runs.pure hv

theorem checkPublishRecordHwm_runs :
    Runs R w w.checkPublishRecordHwm (fun x => Settles R w x.2) := by
  rw [checkPublishRecordHwm]
  split
  · exact Runs.pure (Settles.refl w)
  split
  · exact Runs.pure (Settles.refl w)
  split
  · exact Runs.pure (settles_marks rfl rfl)
  apply recoverPublishCredit_runs.bind
  rintro ⟨ready, v⟩ hv
  cases ready with
  | false => exact Runs.pure hv
  | true =>
    apply (Runs.of_shows hv.shows hwmCreditReady_runs).bind
    rintro ⟨ready, u⟩ ⟨hu, -⟩
    cases ready <;> exact Runs.pure (hv.trans hu)

theorem admitOwnerMessageStart_runs :
    Runs R w w.admitOwnerMessageStart (fun x => Settles R w x.2) := by
  rw [admitOwnerMessageStart]
  apply admitWrite_runs.bind
  rintro ⟨admission, v⟩ hv
  dsimp only
  split
  · exact Runs.pure hv
  · exact Runs.pure (hv.trans (settles_marks rfl rfl))

theorem admitOwnerStartedWrite_runs :
    Runs R w w.admitOwnerStartedWrite (fun x => Settles R w x.2) := by
  rw [admitOwnerStartedWrite]
  have hpending : Settles R w { w with outOwnerMessageStartPending := false } :=
    settles_marks rfl rfl
  dsimp only
  split
  · exact (Runs.of_shows hpending.shows admitWrite_runs).imp fun x hx => hpending.trans hx
  split
  · exact Runs.pure hpending
  split <;> exact Runs.pure hpending

theorem releaseWritesForTransportPair_runs :
    Runs R w w.releaseWritesForTransportPair (Settles R w) := by
  rw [releaseWritesForTransportPair]
  split
  · exact Runs.pure (Settles.refl w)
  have hfree : Settles R w { w with transportPairWriteHeld := false } :=
    settles_marks rfl rfl
  dsimp only
  split
  · exact Runs.pure hfree
  apply (Runs.of_shows hfree.shows hwmCreditReady_runs).bind
  rintro ⟨ready, v⟩ ⟨hv, -⟩
  cases ready with
  | true => exact Runs.pure ((hfree.trans hv).trans (settles_marks rfl rfl))
  | false => exact Runs.pure (hfree.trans hv)

theorem applyRemoteFlowState_runs (paused : Bool) (epoch : ℕ) :
    Runs R w (w.applyRemoteFlowState paused epoch) (Settles R w) := by
  rw [applyRemoteFlowState]
  split
  · exact Runs.pure (Settles.refl w)
  dsimp only
  split
  · exact Runs.pure (settles_marks rfl rfl)
  have hset : Settles R w
      { w with remoteFlowEpoch := epoch, remoteFlowPaused := paused } :=
    settles_marks rfl rfl
  split
  · exact Runs.pure (hset.trans settles_writeStateAdmission)
  have harm := hset.trans settles_arm
  apply (Runs.of_shows harm.shows checkHwmWithPeerSnapshot_runs).bind
  rintro ⟨ready, v⟩ ⟨hv, -⟩
  cases ready with
  | true =>
    have hactive : Settles R w { v with outActive := true } :=
      (harm.trans hv).trans (settles_marks rfl rfl)
    exact Runs.pure (hactive.trans settles_writeStateAdmission)
  | false => exact Runs.pure ((harm.trans hv).trans settles_writeStateAdmission)

/-- The bytes may be committed: there is no mark, they fit beside what is in
flight, or the pipe is empty and the exception applies. -/
def Affords (w : Writer) (bytes : ℕ) (allowEmpty : Bool) : Prop :=
  w.hwm = 0 ∨ w.inFlight + bytes ≤ w.hwm ∨ (allowEmpty = true ∧ w.bytesWritten ≤ w.peersBytesRead)

theorem affords_of_canCommitBytes {bytes payload max : ℕ} {allowEmpty : Bool}
    (h : w.canCommitBytes bytes payload allowEmpty max = true) : w.Affords bytes allowEmpty := by
  rw [canCommitBytes] at h
  split at h
  · simp at h
  split at h
  case isTrue hzero => exact .inl hzero
  split at h
  case isTrue hempty =>
    refine .inr (.inr ⟨hempty.1, ?_⟩)
    have := hempty.2
    rw [inFlight_eq] at this
    omega
  split at h
  · simp at h
  · exact .inr (.inl (by simpa using h))

theorem canCommitBytesWithPeerSnapshot_runs (bytes payload max : ℕ) (allowEmpty : Bool) :
    Runs R w (w.canCommitBytesWithPeerSnapshot bytes payload allowEmpty max)
      (fun x => Settles R w x.2 ∧ (x.1 = true → x.2.Affords bytes allowEmpty)) := by
  rw [canCommitBytesWithPeerSnapshot]
  split
  case isTrue h =>
    exact Runs.pure ⟨Settles.refl w, fun _ => affords_of_canCommitBytes h⟩
  case isFalse h =>
    apply Runs.poll (Settles.refl w).shows
    intro l hl
    exact Runs.pure ⟨settles_refresh hl, affords_of_canCommitBytes⟩

theorem awaitCommitCredit_runs (bytes payload max : ℕ) (allowEmpty : Bool) :
    Runs R w (w.awaitCommitCredit bytes payload allowEmpty max)
      (fun x => Settles R w x.2 ∧ (x.1 = true → x.2.Affords bytes allowEmpty)) := by
  rw [awaitCommitCredit]
  apply (canCommitBytesWithPeerSnapshot_runs bytes payload max allowEmpty).bind
  rintro ⟨ready, v⟩ ⟨hv, hready⟩
  cases ready with
  | true => exact Runs.pure ⟨hv, hready⟩
  | false =>
    simp only [Bool.false_eq_true, if_false]
    split
    · exact Runs.pure ⟨hv, fun h => by simp at h⟩
    have harm := hv.trans settles_arm
    apply (Runs.of_shows harm.shows
      (canCommitBytesWithPeerSnapshot_runs bytes payload max allowEmpty)).bind
    rintro ⟨ready, u⟩ ⟨hu, hready⟩
    cases ready with
    | true => exact Runs.pure ⟨(harm.trans hu).trans settles_clear, hready⟩
    | false => exact Runs.pure ⟨harm.trans hu, fun h => by simp at h⟩

/-- The frame is counted with the record in progress, and nothing else was
done. -/
structure Grown (R : Ledger → Prop) (w : Writer) (m : Frame) (v : Writer) : Prop where
  raised : Raised R w v
  started : v.outMultipartStartedEmpty = true → w.outMultipartStartedEmpty = true ∨
      (w.outIncompleteBytes = 0 ∧ w.bytesWritten ≤ v.peersBytesRead)
  kept : m.more = false → v.outMultipartStartedEmpty = w.outMultipartStartedEmpty
  eq : v = { w with
    peersMsgsRead := v.peersMsgsRead
    peersBytesRead := v.peersBytesRead
    outActive := v.outActive
    waitingForByteCredit := v.waitingForByteCredit
    waitingForFlowResume := v.waitingForFlowResume
    transportPairWriteHeld := v.transportPairWriteHeld
    remoteFlowPaused := v.remoteFlowPaused
    remoteFlowEpoch := v.remoteFlowEpoch
    outOwnerMessageStarted := v.outOwnerMessageStarted
    outOwnerMessageStartPending := v.outOwnerMessageStartPending
    outIncompleteBytes := w.outIncompleteBytes + m.accountedBytes
    outIncompletePayloadBytes := w.outIncompletePayloadBytes + m.size
    outMultipartStartedEmpty := v.outMultipartStartedEmpty }

def replacedBytes (w : Writer) (replaced : List Frame) : ℕ :=
  if w.conflate then (replaced.map Frame.committedAccountedBytes).sum else 0

/-- The ledger behind a record of `bytes` bytes. -/
def Enters (w : Writer) (bytes : ℕ) (replaced : List Frame) (v : Writer) : Prop :=
  v.bytesWritten = satAdd (w.bytesWritten - w.replacedBytes replaced) bytes ∧
    v.outIncompleteBytes = 0 ∧ v.outMultipartStartedEmpty = false

structure Queues (w : Writer) (m : Frame) (v : Writer) : Prop where
  flushed : w.outPipe.flushed <+: v.outPipe.flushed
  committed : v.outPipe.committed =
    if m.more then w.outPipe.committed
    else w.outPipe.committed ++ (w.outPipe.opened ++ [m])
  opened : v.outPipe.opened = if m.more then w.outPipe.opened ++ [m] else []

theorem queues_of_eq {m : Frame} (h : v.outPipe = w.outPipe.write m m.more) : Queues w m v where
  flushed := by
    rw [h, OutPipe.flushed_write]
  committed := by
    rw [h]
    exact OutPipe.committed_write _ _ _
  opened := by
    rw [h]
    exact OutPipe.opened_write _ _ _

/-- A frame was taken: it waits in the record in progress, or it has completed the
record and the record was afforded. -/
structure Accepted (R : Ledger → Prop) (w : Writer) (m : Frame)
    (replaced : List Frame) (v : Writer) : Prop where
  raised : Raised R w v
  hwm : v.hwm = w.hwm
  conflate : v.conflate = w.conflate
  outGeneration : v.outGeneration = w.outGeneration
  reservation : v.reservation = w.reservation
  decoder : v.decoderMultipartStartedEmpty = w.decoderMultipartStartedEmpty
  queues : Queues w m v
  waits : m.commits = false →
    v.bytesWritten = w.bytesWritten - (if m.more then 0 else w.replacedBytes replaced) ∧
      v.outIncompleteBytes = w.outIncompleteBytes + m.accountedBytes ∧
      v.outIncompletePayloadBytes = w.outIncompletePayloadBytes + m.size ∧
      (v.outMultipartStartedEmpty = true → w.outMultipartStartedEmpty = true ∨
          (w.outIncompleteBytes = 0 ∧ w.bytesWritten ≤ v.peersBytesRead))
  enters : m.commits = true → w.Enters (w.outIncompleteBytes + m.accountedBytes) replaced v

/-- A frame that completes a record was afforded: there is no mark, the record fits
beside what is in flight, or it started on an empty pipe that is still empty. -/
def Pays (w : Writer) (m : Frame) (v : Writer) : Prop :=
  m.commits = true → w.hwm = 0 ∨ w.bytesWritten - v.peersBytesRead +
          (w.outIncompleteBytes + m.accountedBytes) ≤ w.hwm ∨
      ((w.outIncompleteBytes = 0 ∨ w.outMultipartStartedEmpty = true) ∧
        w.bytesWritten ≤ v.peersBytesRead)

theorem publishOutboundFrame_eq (m : Frame) (replaced : List Frame) :
    ∃ msgs, w.publishOutboundFrame m replaced =
      { w with
        outPipe := w.outPipe.write m m.more
        msgsWritten := msgs
        bytesWritten :=
          if m.more then w.bytesWritten
          else w.bytesWritten - w.replacedBytes replaced } := by
  rw [publishOutboundFrame, replacedBytes]
  rcases hc : w.conflate <;> rcases hm : m.more <;>
    exact ⟨_, by simp; rfl⟩

theorem Grown.settles {m : Frame} (h : Grown R w m v) (hu : Settles R v u) : Grown R w m u where
  raised := h.raised.trans hu.raised
  started hs := by
    rcases h.started (hu.outMultipartStartedEmpty ▸ hs) with hs' | ⟨hzero, hle⟩
    · exact .inl hs'
    · exact .inr ⟨hzero, hle.trans hu.raised.bytes_le⟩
  kept hm := by
    rw [hu.outMultipartStartedEmpty]
    exact h.kept hm
  eq := by
    rw [hu.eq, h.eq]

section

variable {m : Frame} (h : Grown R w m v)
include h

theorem Grown.conflate : v.conflate = w.conflate := by rw [h.eq]
theorem Grown.hwm : v.hwm = w.hwm := by rw [h.eq]
theorem Grown.outGeneration : v.outGeneration = w.outGeneration := by rw [h.eq]
theorem Grown.bytesWritten : v.bytesWritten = w.bytesWritten := by rw [h.eq]
theorem Grown.outIncompleteBytes :
    v.outIncompleteBytes = w.outIncompleteBytes + m.accountedBytes := by rw [h.eq]
theorem Grown.outIncompletePayloadBytes :
    v.outIncompletePayloadBytes = w.outIncompletePayloadBytes + m.size := by
  rw [h.eq]
theorem Grown.decoder :
    v.decoderMultipartStartedEmpty = w.decoderMultipartStartedEmpty := by rw [h.eq]
theorem Grown.reservation : v.reservation = w.reservation := by rw [h.eq]
theorem Grown.outPipe : v.outPipe = w.outPipe := by rw [h.eq]

end

variable {replaced : List Frame}

theorem Grown.pays {m : Frame} (h : Grown R w m v) (hpay : v.Affords v.outIncompleteBytes
      (!m.more && (w.outIncompleteBytes == 0 || v.outMultipartStartedEmpty))) :
    Pays w m (v.settleFrame m replaced) := by
  intro hc
  obtain ⟨msgs, hpub⟩ := publishOutboundFrame_eq (w := v) m replaced
  have hkeep : (v.settleFrame m replaced).peersBytesRead = v.peersBytesRead := by
    rw [settleFrame, hpub, if_pos hc]
    rfl
  rw [Frame.commits_iff] at hc
  rw [Affords, h.hwm, inFlight_eq, h.bytesWritten, h.outIncompleteBytes, h.kept hc.1, hc.1] at hpay
  rw [hkeep]
  simpa using hpay

theorem Grown.accepted {m : Frame} (replaced : List Frame) (h : Grown R w m v) :
    Accepted R w m replaced (v.settleFrame m replaced) := by
  obtain ⟨msgs, hpub⟩ := publishOutboundFrame_eq (w := v) m replaced
  have hrep : v.replacedBytes replaced = w.replacedBytes replaced := by
    rw [replacedBytes, replacedBytes, h.conflate]
  have hqueue : v.outPipe.write m m.more = w.outPipe.write m m.more := by
    rw [h.outPipe]
  rw [settleFrame]
  split
  case isTrue hc =>
    rw [Frame.commits_iff] at hc
    rw [hpub]
    constructor
    · exact h.raised.congr rfl
    · exact h.hwm
    · exact h.conflate
    · exact h.outGeneration
    · exact h.reservation
    · exact h.decoder
    · exact queues_of_eq hqueue
    · intro hno
      simp [Frame.commits, hc] at hno
    · intro _
      refine ⟨?_, rfl, rfl⟩
      simp only [commitRecord, hc, Bool.false_eq_true, if_false, h.bytesWritten,
        hrep, h.outIncompleteBytes]
  case isFalse hc =>
    rw [hpub]
    constructor
    · exact h.raised.congr rfl
    · exact h.hwm
    · exact h.conflate
    · exact h.outGeneration
    · exact h.reservation
    · exact h.decoder
    · exact queues_of_eq hqueue
    · intro _
      refine ⟨?_, h.outIncompleteBytes, h.outIncompletePayloadBytes, h.started⟩
      rw [← h.bytesWritten, ← hrep]
      cases m.more <;> rfl
    · intro hyes
      exact absurd hyes hc

def Oversized (w : Writer) (m : Frame) (maxMessageBytes : ℕ) : Prop :=
  w.appendOverflows m = true ∨ uint64Max - w.outIncompletePayloadBytes < m.size ∨
    (maxMessageBytes ≠ 0 ∧ maxMessageBytes < w.outIncompletePayloadBytes + m.size)

theorem Grown.restored {m : Frame} (h : Grown R w m v) : Settles R w { v with
        outIncompleteBytes := w.outIncompleteBytes
        outIncompletePayloadBytes := w.outIncompletePayloadBytes
        outMultipartStartedEmpty := w.outMultipartStartedEmpty } where
  raised := h.raised.congr rfl
  eq := by
    rw [h.eq]

theorem Grown.shows {m : Frame} (h : Grown R w m v) : Shows R w v where
  raised := h.raised
  conflate := h.conflate
  outGeneration := h.outGeneration
  bytesWritten := h.bytesWritten
  flushed := by rw [h.outPipe]
  committed := by rw [h.outPipe]

theorem Grown.settleFrame_shows {m : Frame} (replaced : List Frame)
    (h : Grown R w m v) (hm : m.more = true) : Shows R w (v.settleFrame m replaced) := by
  obtain ⟨msgs, hpub⟩ := publishOutboundFrame_eq (w := v) m replaced
  rw [settleFrame, hpub, Frame.commits_of_more hm]
  constructor
  · exact h.raised.congr rfl
  · exact h.conflate
  · exact h.outGeneration
  · simpa [hm] using h.bytesWritten
  · simp [OutPipe.flushed_write, h.outPipe]
  · simp [OutPipe.committed_write, hm, h.outPipe]

structure Written (R : Ledger → Prop) (w : Writer) (m : Frame) (enforceHwm : Bool)
    (max : ℕ) (replaced : List Frame) (x : Admission × Writer) : Prop where
  taken : x.1 = .ready → Accepted R w m replaced x.2
  pays : x.1 = .ready → enforceHwm = true → Pays w m x.2
  shows_more : x.1 = .ready → m.more = true → Shows R w x.2
  refused : x.1 ≠ .ready → Settles R w x.2
  unenforced : enforceHwm = false → ¬ w.Oversized m max → x.1 = .ready

theorem writeMessage_runs (m : Frame) (enforceHwm enforceIncremental : Bool)
    (max : ℕ) (replaced : List Frame) :
    Runs R w (w.writeMessage m enforceHwm enforceIncremental max replaced)
      (Written R w m enforceHwm max replaced) := by
  have hlarge : w.Oversized m max → Runs R w (pure (Admission.tooLarge, w))
      (Written R w m enforceHwm max replaced) := by
    intro h
    exact Runs.pure
      { taken := fun h => by simp at h
        pays := fun h => by simp at h
        shows_more := fun h => by simp at h
        refused := fun _ => Settles.refl w
        unenforced := fun _ hno => absurd h hno }
  rw [writeMessage]
  split
  case isTrue h => exact hlarge (.inl h)
  split
  case isTrue h => exact hlarge (.inr (.inl h))
  split
  case isTrue h => exact hlarge (.inr (.inr h))
  clear hlarge
  dsimp only
  set grown : Writer :=
    { w with
      outIncompleteBytes := w.outIncompleteBytes + m.accountedBytes
      outIncompletePayloadBytes := w.outIncompletePayloadBytes + m.size } with hg
  have hgrown : Grown R w m grown :=
    { raised := (Raised.refl w).congr rfl
      started := fun h => .inl h
      kept := fun _ => rfl
      eq := rfl }
  apply Runs.bind (P := Grown R w m)
  · rw [startMultipart]
    split
    case isTrue h => exact Runs.pure hgrown
    case isFalse h =>
      have hfirst : m.more = true ∧ w.outIncompleteBytes = 0 := by simpa using h
      apply Runs.poll hgrown.shows
      intro l hl
      refine Runs.pure ?_
      constructor
      · exact hgrown.raised.trans ((raised_refresh hl).congr rfl)
      · intro hs
        exact .inr ⟨hfirst.2, of_decide_eq_true hs⟩
      · intro hm
        simp [hfirst.1] at hm
      · rfl
  · intro v hv
    split
    case isTrue h =>
      refine Runs.pure
        { taken := fun _ => hv.accepted replaced
          pays := fun _ henf hc => ?_
          shows_more := fun _ hm => hv.settleFrame_shows replaced hm
          refused := fun h => absurd rfl h
          unenforced := fun _ _ => rfl }
      simp [henf, hc] at h
    case isFalse h =>
      have henf : enforceHwm = true := by
        cases enforceHwm
        · simp at h
        · rfl
      apply (Runs.of_shows hv.shows (awaitCommitCredit_runs ..)).bind
      rintro ⟨ready, u⟩ ⟨hu, hready⟩
      have hgu : Grown R w m u := hv.settles hu
      cases ready with
      | true =>
        refine Runs.pure
          { taken := fun _ => hgu.accepted replaced
            pays := fun _ _ => hgu.pays ?_
            shows_more := fun _ hm => hgu.settleFrame_shows replaced hm
            refused := fun h => absurd rfl h
            unenforced := fun h => by simp [henf] at h }
        have := hready rfl
        rw [← hu.outIncompleteBytes, ← hu.outMultipartStartedEmpty] at this
        exact this
      | false =>
        exact Runs.pure
          { taken := fun h => by simp at h
            pays := fun h => by simp at h
            shows_more := fun h => by simp at h
            refused := fun _ => hgu.restored
            unenforced := fun h => by simp [henf] at h }

structure Offer (R : Ledger → Prop) (w : Writer) (m : Frame)
    (replaced : List Frame) (x : Admission × Writer) : Prop where
  taken : x.1 = .ready → Accepted R w m replaced x.2 ∧ Pays w m x.2
  refused : x.1 ≠ .ready → Settles R w x.2

theorem Accepted.of_settles {m : Frame}
    (h : Settles R w v) (h' : Accepted R v m replaced u) : Accepted R w m replaced u where
  raised := h.raised.trans h'.raised
  hwm := h'.hwm.trans h.hwm
  conflate := h'.conflate.trans h.conflate
  outGeneration := h'.outGeneration.trans h.outGeneration
  reservation := h'.reservation.trans h.reservation
  decoder := h'.decoder.trans h.decoderMultipartStartedEmpty
  queues := by
    constructor
    · rw [← h.outPipe]
      exact h'.queues.flushed
    · rw [h'.queues.committed, h.outPipe]
    · rw [h'.queues.opened, h.outPipe]
  waits hc := by
    have := h'.waits hc
    rw [replacedBytes, h.conflate, h.bytesWritten, h.outIncompleteBytes, h.outIncompletePayloadBytes,
      h.outMultipartStartedEmpty] at this
    exact this
  enters hc := by
    have := h'.enters hc
    rw [Enters, replacedBytes, h.bytesWritten, h.outIncompleteBytes, h.conflate] at this
    exact this

theorem Pays.of_settles {m : Frame} (h : Settles R w v) (h' : Pays v m u) : Pays w m u := by
  intro hc
  have := h' hc
  rw [h.hwm, h.bytesWritten, h.outIncompleteBytes, h.outMultipartStartedEmpty] at this
  exact this

theorem Offer.of_settles {m : Frame}
    {x : Admission × Writer} (h : Settles R w v) (h' : Offer R v m replaced x) :
    Offer R w m replaced x where
  taken hx :=
    ⟨Accepted.of_settles h (h'.taken hx).1, Pays.of_settles h (h'.taken hx).2⟩
  refused hx := h.trans (h'.refused hx)

theorem flush_eq (w : Writer) : w.flush = { w with
      outCompleteRecordPending := w.flush.outCompleteRecordPending
      outPipe := w.flush.outPipe } := by
  rw [flush]
  split <;> rfl

theorem committed_flush (w : Writer) : w.flush.outPipe.committed = w.outPipe.committed := by
  rw [flush]
  split
  · rfl
  · exact OutPipe.committed_flush _

theorem opened_flush (w : Writer) : w.flush.outPipe.opened = w.outPipe.opened := by
  rw [flush]
  split <;> rfl

theorem flushed_flush (w : Writer) : w.outPipe.flushed <+: w.flush.outPipe.flushed := by
  rw [flush]
  split
  · exact List.prefix_rfl
  · exact List.prefix_append _ _

theorem Accepted.flush {m : Frame}
    (h : Accepted R w m replaced v) : Accepted R w m replaced v.flush := by
  have hqueues : Queues w m v.flush :=
    ⟨h.queues.flushed.trans (flushed_flush v), (committed_flush v).trans h.queues.committed,
      (opened_flush v).trans h.queues.opened⟩
  rw [flush_eq] at hqueues ⊢
  exact
    { raised := h.raised.congr rfl
      hwm := h.hwm
      conflate := h.conflate
      outGeneration := h.outGeneration
      reservation := h.reservation
      decoder := h.decoder
      queues := hqueues
      waits := h.waits
      enters := h.enters }

theorem Pays.flush {m : Frame} (h : Pays w m v) : Pays w m v.flush := by
  rw [flush_eq]
  exact h

theorem writeMessage_offer (m : Frame) (enforceIncremental : Bool) (replaced : List Frame) :
    Runs R w (w.writeMessage m true enforceIncremental w.maxMessageBytes replaced)
      (Offer R w m replaced) := by
  apply (writeMessage_runs m true enforceIncremental _ replaced).imp
  intro x hx
  exact ⟨fun h => ⟨hx.taken h, hx.pays h rfl⟩, hx.refused⟩

theorem writeMessageAndFlush_offer (m : Frame) (enforceIncremental : Bool) (replaced : List Frame) :
    Runs R w (w.writeMessageAndFlush m enforceIncremental replaced) (Offer R w m replaced) := by
  rw [writeMessageAndFlush]
  apply (writeMessage_offer m enforceIncremental replaced).bind
  rintro ⟨admission, v⟩ hv
  dsimp only
  split
  case isTrue h =>
    have htaken := hv.taken h.1
    exact Runs.pure ⟨fun _ => ⟨htaken.1.flush, htaken.2.flush⟩, fun hno => absurd h.1 hno⟩
  case isFalse h => exact Runs.pure hv

theorem Runs.offer_of_admission {m : Frame}
    {p : Access (Admission × Writer)} {f : Writer → Access (Admission × Writer)}
    (hp : Runs R w p (fun x => Settles R w x.2))
    (hf : ∀ v, Runs R v (f v) (Offer R v m replaced)) :
    Runs R w (p >>= fun x => if x.1 ≠ .ready then Pure.pure (x.1, x.2) else f x.2)
      (Offer R w m replaced) := by
  apply hp.bind
  rintro ⟨admission, v⟩ hv
  dsimp only
  split
  case isTrue h => exact Runs.pure ⟨fun hr => absurd hr h, fun _ => hv⟩
  case isFalse h =>
    exact (Runs.of_shows hv.shows (hf v)).imp fun x hx => hx.of_settles hv

theorem atRecordBoundary_iff : w.atRecordBoundary = true ↔
    w.registryAccounting = false ∧ w.conflate = false ∧ w.outIncompleteBytes = 0 ∧
      w.outIncompletePayloadBytes = 0 ∧ w.outMultipartStartedEmpty = false ∧
      w.outOwnerMessageStarted = false ∧ w.outOwnerMessageStartPending = false := by
  simp [atRecordBoundary, and_assoc]

theorem commitSingle_accepted {m : Frame} (replaced : List Frame)
    (hc : m.commits = true) (hb : w.atRecordBoundary = true)
    (hv : Settles R w v) : Accepted R w m replaced (v.commitSingle m) := by
  obtain ⟨-, hconf, hzero, -, hflag, -, -⟩ := atRecordBoundary_iff.mp hb
  have hmore := (Frame.commits_iff.mp hc).1
  constructor
  · exact hv.raised.congr rfl
  · exact hv.hwm
  · exact hv.conflate
  · exact hv.outGeneration
  · exact hv.reservation
  · exact hv.decoderMultipartStartedEmpty
  · apply queues_of_eq
    rw [hmore, commitSingle, hv.outPipe]
  · intro hno
    rw [hc] at hno
    exact absurd hno (by simp)
  · intro _
    refine ⟨?_, hv.outIncompleteBytes.trans hzero, hv.outMultipartStartedEmpty.trans hflag⟩
    rw [commitSingle, replacedBytes, hconf, hzero]
    simp [hv.bytesWritten]

theorem writeSingleMessageAndFlush_offer (m : Frame) (replaced : List Frame) :
    Runs R w (w.writeSingleMessageAndFlush m replaced) (Offer R w m replaced) := by
  rw [writeSingleMessageAndFlush]
  have hstate := settles_writeStateAdmission (R := R) (w := w)
  split
  case h_1 admission v heq =>
    rw [heq] at hstate
    split
    case isTrue h => exact Runs.pure ⟨fun hr => absurd hr h, fun _ => hstate⟩
    apply Runs.imp (P := Offer R v m replaced) _ fun x hx => hx.of_settles hstate
    apply Runs.of_shows hstate.shows
    split
    case isTrue hfast =>
      split
      · exact Runs.pure ⟨fun hr => by simp at hr, fun _ => Settles.refl v⟩
      apply (awaitCommitCredit_runs ..).bind
      rintro ⟨ready, u⟩ ⟨hu, hready⟩
      cases ready with
      | false => exact Runs.pure ⟨fun hr => by simp at hr, fun _ => hu⟩
      | true =>
        have hacc := commitSingle_accepted replaced hfast.2 hfast.1 hu
        have hpay : Pays v m (u.commitSingle m) := by
          intro _
          have hzero := (atRecordBoundary_iff.mp hfast.1).2.2.1
          have := hready rfl
          rw [Affords, inFlight_eq, hu.hwm, hu.bytesWritten] at this
          rw [hzero, Nat.zero_add]
          simpa [commitSingle] using this
        exact Runs.pure ⟨fun _ => ⟨hacc.flush, hpay.flush⟩, fun hr => absurd rfl hr⟩
    case isFalse hslow =>
      apply hwmCreditReady_runs.bind
      rintro ⟨ready, u⟩ ⟨hu, -⟩
      cases ready with
      | false => exact Runs.pure ⟨fun hr => by simp at hr, fun _ => hu⟩
      | true =>
        apply (Runs.of_shows hu.shows (writeMessage_offer m false replaced)).bind
        rintro ⟨admission, t⟩ ht
        have hoffer := ht.of_settles hu
        dsimp only
        split
        case isTrue h =>
          have htaken := hoffer.taken h
          exact Runs.pure ⟨fun _ => ⟨htaken.1.flush, htaken.2.flush⟩, fun hr => absurd rfl hr⟩
        case isFalse h => exact Runs.pure hoffer

theorem writeVia_offer (entry : Entry) (m : Frame) (replaced : List Frame) :
    Runs R w (w.writeVia entry m replaced) (Offer R w m replaced) := by
  cases entry with
  | perFrame =>
    exact Runs.offer_of_admission admitWrite_runs fun v => writeMessage_offer m true replaced
  | flushed =>
    exact Runs.offer_of_admission admitWrite_runs
      fun v => writeMessageAndFlush_offer m true replaced
  | ownerStarted =>
    exact Runs.offer_of_admission admitOwnerStartedWrite_runs
      fun v => writeMessageAndFlush_offer m true replaced
  | observed =>
    exact Runs.offer_of_admission admitWrite_runs
      fun v => writeMessageAndFlush_offer m m.more replaced
  | noRecursiveHwmCheck =>
    exact Runs.offer_of_admission admitWrite_runs fun v => writeMessage_offer m false replaced
  | single => exact writeSingleMessageAndFlush_offer m replaced

end Writer

end Zlink.Pipe
