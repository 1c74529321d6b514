import Zlink.Pipe.Operations

/-!
# How an operation takes up credit

Along an operation of the writing end the credit climbs: it never falls below what
it was at the last load, nor below what that load has found. And an operation that
leaves the writer parked found it parked, or has loaded the reader's ledger behind
the announcement that it waits.
-/

namespace Zlink.Pipe

open Protocol Suspension

namespace Writer

variable {w v : Writer}

def Parked (w : Writer) : Prop :=
  w.waitingForByteCredit = true ∧ w.outActive = false ∧
    w.transportPairWriteHeld = false ∧ w.state = .active

/-- What an operation has behind it: the credit it may not fall below, and whether it
has loaded the reader's ledger. -/
structure Past where
  floor : Ledger
  loaded : Bool

namespace Past

def load (_ : Past) (w : Writer) (l : Ledger) : Past :=
  { floor := w.credit.join l, loaded := true }

end Past

/-- Where an operation that began in `w` may stand. -/
structure Stands (w : Writer) (g : Past) (v : Writer) : Prop where
  floor_le : g.floor ≤ v.credit
  parked : v.Parked → w.Parked ∨ g.loaded = true

theorem Stands.refl (w : Writer) : Stands w { floor := w.credit, loaded := false } w :=
  ⟨le_rfl, .inl⟩

theorem Stands.congr {u : Writer} {g : Past} (h : Stands w g v)
    (hc : u.credit = v.credit) (hp : u.Parked → v.Parked) : Stands w g u :=
  ⟨hc ▸ h.floor_le, fun hu => h.parked (hp hu)⟩

theorem Stands.free {u : Writer} {g : Past} (h : Stands w g v)
    (hc : u.credit = v.credit) (hp : ¬ u.Parked) : Stands w g u :=
  ⟨hc ▸ h.floor_le, fun hu => absurd hu hp⟩

theorem stands_refresh (w : Writer) (g : Past) (v : Writer) (l : Ledger) :
    Stands w (g.load v l) (v.refreshPeerCreditSnapshot l) :=
  ⟨le_rfl, fun _ => .inr rfl⟩

/-- The program, begun in `w`, has `g` behind it and ends where it may stand. -/
def Climbs {β : Type} (w : Writer) (g : Past) (p : Access β) (fin : β → Writer) :
    Prop :=
  p.Follows (fun g v => g.floor ≤ v.credit) Past.load (fun g b => Stands w g (fin b)) g

namespace Climbs

variable {β γ : Type} {g : Past} {p : Access β} {fin : β → Writer}

theorem pure {b : β} (h : Stands w g (fin b)) : Climbs w g (Pure.pure b) fin := h

theorem bind {f : β → Access γ} {fin' : γ → Writer} (hp : Climbs w g p fin)
    (hf : ∀ g b, Stands w g (fin b) → Climbs w g (f b) fin') : Climbs w g (p >>= f) fin' :=
  Prog.Follows.bind hp hf

theorem poll {f : Ledger → Access β} (hv : g.floor ≤ v.credit)
    (hf : ∀ l, Climbs w (g.load v l) (f l) fin) : Climbs w g (v.poll >>= f) fin :=
  Prog.Follows.load hv hf

end Climbs

section

variable {g : Past}

theorem not_parked_clear (v : Writer) : ¬ v.clearHwmCreditWait.Parked := by
  simp [Parked, clearHwmCreditWait]

theorem not_parked_active (v : Writer) : ¬ { v with outActive := true }.Parked := by
  simp [Parked]

theorem checkHwmWithPeerSnapshot_climbs (h : Stands w g v) :
    Climbs w g v.checkHwmWithPeerSnapshot Prod.snd := by
  rw [checkHwmWithPeerSnapshot]
  split
  · exact Climbs.pure h
  · exact Climbs.poll h.floor_le fun l => Climbs.pure (stands_refresh w g v l)

theorem hwmCreditReady_climbs (h : Stands w g v) : Climbs w g v.hwmCreditReady Prod.snd := by
  rw [hwmCreditReady, checkHwmWithPeerSnapshot]
  split
  case isTrue => exact Climbs.pure h
  case isFalse =>
    apply Climbs.poll h.floor_le
    intro l
    have hl := stands_refresh w g v l
    generalize v.refreshPeerCreditSnapshot l = u at hl
    simp only [Prog.pure_eq, Prog.done_bind]
    split
    case isTrue => exact Climbs.pure hl
    case isFalse hfull =>
      have harm : ¬ u.armHwmCreditWait.checkHwm = true := hfull
      rw [checkHwmWithPeerSnapshot, if_neg harm]
      apply Climbs.poll hl.floor_le
      intro l'
      have hl' := stands_refresh w (g.load v l) u.armHwmCreditWait l'
      simp only [Prog.pure_eq, Prog.done_bind]
      split
      · exact Climbs.pure (hl'.free rfl (not_parked_clear _))
      · exact Climbs.pure hl'

theorem writeStateAdmission_stands (h : Stands w g v) : Stands w g v.writeStateAdmission.2 := by
  rw [writeStateAdmission]
  split
  · exact h
  split
  · exact h
  split
  · exact h.congr rfl fun hp => hp
  split <;> exact h

theorem admitWrite_climbs (h : Stands w g v) : Climbs w g v.admitWrite Prod.snd := by
  rw [admitWrite]
  have hstate := writeStateAdmission_stands h
  generalize v.writeStateAdmission = x at hstate
  obtain ⟨admission, u⟩ := x
  dsimp only at hstate ⊢
  split
  · exact Climbs.pure hstate
  apply (hwmCreditReady_climbs hstate).bind
  rintro g ⟨ready, t⟩ ht
  cases ready <;> exact Climbs.pure ht

theorem checkPublishRecordHwm_climbs (h : Stands w g v) :
    Climbs w g v.checkPublishRecordHwm Prod.snd := by
  rw [checkPublishRecordHwm]
  split
  · exact Climbs.pure h
  split
  · exact Climbs.pure h
  split
  · exact Climbs.pure (h.congr rfl fun hp => hp)
  have hrecover : Climbs w g v.recoverPublishCredit Prod.snd := by
    rw [recoverPublishCredit]
    split
    · exact Climbs.pure h
    apply (checkHwmWithPeerSnapshot_climbs h).bind
    rintro g ⟨ready, u⟩ hu
    cases ready with
    | true => exact Climbs.pure (hu.free rfl (not_parked_clear _))
    | false => exact Climbs.pure hu
  apply hrecover.bind
  rintro g ⟨ready, u⟩ hu
  cases ready with
  | false => exact Climbs.pure hu
  | true =>
    apply (hwmCreditReady_climbs hu).bind
    rintro g ⟨ready, t⟩ ht
    cases ready <;> exact Climbs.pure ht

theorem admitOwnerMessageStart_climbs (h : Stands w g v) :
    Climbs w g v.admitOwnerMessageStart Prod.snd := by
  rw [admitOwnerMessageStart]
  apply (admitWrite_climbs h).bind
  rintro g ⟨admission, u⟩ hu
  dsimp only
  split
  · exact Climbs.pure hu
  · exact Climbs.pure (hu.congr rfl fun hp => hp)

theorem admitOwnerStartedWrite_climbs (h : Stands w g v) :
    Climbs w g v.admitOwnerStartedWrite Prod.snd := by
  rw [admitOwnerStartedWrite]
  have hpending : Stands w g { v with outOwnerMessageStartPending := false } :=
    h.congr rfl fun hp => hp
  dsimp only
  split
  · exact admitWrite_climbs hpending
  split
  · exact Climbs.pure hpending
  split <;> exact Climbs.pure hpending

theorem canCommitBytesWithPeerSnapshot_climbs (bytes payload max : ℕ)
    (allowEmpty : Bool) (h : Stands w g v) :
    Climbs w g (v.canCommitBytesWithPeerSnapshot bytes payload allowEmpty max) Prod.snd := by
  rw [canCommitBytesWithPeerSnapshot]
  split
  · exact Climbs.pure h
  · exact Climbs.poll h.floor_le fun l => Climbs.pure (stands_refresh w g v l)

theorem awaitCommitCredit_climbs (bytes payload max : ℕ) (allowEmpty : Bool) (h : Stands w g v) :
    Climbs w g (v.awaitCommitCredit bytes payload allowEmpty max) Prod.snd := by
  rw [awaitCommitCredit, canCommitBytesWithPeerSnapshot]
  split
  case isTrue => exact Climbs.pure h
  case isFalse =>
    apply Climbs.poll h.floor_le
    intro l
    have hl := stands_refresh w g v l
    generalize v.refreshPeerCreditSnapshot l = u at hl
    simp only [Prog.pure_eq, Prog.done_bind]
    split
    · exact Climbs.pure hl
    case isFalse hfull =>
      split
      · exact Climbs.pure hl
      -- The mark has not changed, so the announced writer does load again.
      have harm : ¬ u.armHwmCreditWait.canCommitBytes bytes payload allowEmpty max =
          true := hfull
      rw [canCommitBytesWithPeerSnapshot, if_neg harm]
      apply Climbs.poll hl.floor_le
      intro l'
      have hl' := stands_refresh w (g.load v l) u.armHwmCreditWait l'
      simp only [Prog.pure_eq, Prog.done_bind]
      split
      · exact Climbs.pure (hl'.free rfl (not_parked_clear _))
      · exact Climbs.pure hl'

theorem settleFrame_stands (m : Frame) (replaced : List Frame) (h : Stands w g v) :
    Stands w g (v.settleFrame m replaced) := by
  obtain ⟨msgs, hpub⟩ := publishOutboundFrame_eq (w := v) m replaced
  rw [settleFrame, hpub]
  split <;> exact h.congr rfl fun hp => hp

theorem flush_stands (h : Stands w g v) : Stands w g v.flush := by
  rw [flush_eq]
  exact h.congr rfl fun hp => hp

theorem startMultipart_climbs (first : Bool) (h : Stands w g v) :
    Climbs w g (v.startMultipart first) id := by
  rw [startMultipart]
  split
  · exact Climbs.pure h
  · apply Climbs.poll h.floor_le
    intro l
    exact Climbs.pure ((stands_refresh w g v l).congr rfl fun hp => hp)

theorem writeMessage_climbs (m : Frame) (enforceHwm enforceIncremental : Bool)
    (max : ℕ) (replaced : List Frame) (h : Stands w g v) :
    Climbs w g (v.writeMessage m enforceHwm enforceIncremental max replaced) Prod.snd := by
  rw [writeMessage]
  split
  · exact Climbs.pure h
  split
  · exact Climbs.pure h
  split
  · exact Climbs.pure h
  have hgrown : Stands w g
      { v with
        outIncompleteBytes := v.outIncompleteBytes + m.accountedBytes
        outIncompletePayloadBytes := v.outIncompletePayloadBytes + m.size } :=
    h.congr rfl fun hp => hp
  apply (startMultipart_climbs _ hgrown).bind
  intro g u hu
  split
  · exact Climbs.pure (settleFrame_stands m replaced hu)
  apply (awaitCommitCredit_climbs _ _ _ _ hu).bind
  rintro g ⟨ready, t⟩ ht
  cases ready with
  | true => exact Climbs.pure (settleFrame_stands m replaced ht)
  | false => exact Climbs.pure (ht.congr rfl fun hp => hp)

theorem writeMessageAndFlush_climbs (m : Frame) (enforceIncremental : Bool)
    (replaced : List Frame) (h : Stands w g v) :
    Climbs w g (v.writeMessageAndFlush m enforceIncremental replaced) Prod.snd := by
  rw [writeMessageAndFlush]
  apply (writeMessage_climbs _ _ _ _ _ h).bind
  rintro g ⟨admission, u⟩ hu
  dsimp only
  split
  · exact Climbs.pure (flush_stands hu)
  · exact Climbs.pure hu

theorem Climbs.of_admission {p : Access (Admission × Writer)}
    {f : Writer → Access (Admission × Writer)} (hp : Climbs w g p Prod.snd)
    (hf : ∀ g v, Stands w g v → Climbs w g (f v) Prod.snd) :
    Climbs w g (p >>= fun x => if x.1 ≠ .ready then Pure.pure (x.1, x.2) else f x.2)
      Prod.snd := by
  apply hp.bind
  rintro g ⟨admission, v⟩ hv
  dsimp only
  split
  · exact Climbs.pure hv
  · exact hf g v hv

theorem writeSingleMessageAndFlush_climbs (m : Frame) (replaced : List Frame) (h : Stands w g v) :
    Climbs w g (v.writeSingleMessageAndFlush m replaced) Prod.snd := by
  rw [writeSingleMessageAndFlush]
  have hstate := writeStateAdmission_stands h
  generalize v.writeStateAdmission = x at hstate
  obtain ⟨admission, u⟩ := x
  dsimp only at hstate ⊢
  split
  · exact Climbs.pure hstate
  split
  · split
    · exact Climbs.pure hstate
    apply (awaitCommitCredit_climbs _ _ _ _ hstate).bind
    rintro g ⟨ready, t⟩ ht
    cases ready with
    | true =>
      apply Climbs.pure
      apply flush_stands
      exact ht.congr rfl fun hp => hp
    | false => exact Climbs.pure ht
  · apply (hwmCreditReady_climbs hstate).bind
    rintro g ⟨ready, t⟩ ht
    cases ready with
    | false => exact Climbs.pure ht
    | true =>
      apply (writeMessage_climbs _ _ _ _ _ ht).bind
      rintro g ⟨admission, r⟩ hr
      dsimp only
      split
      · exact Climbs.pure (flush_stands hr)
      · exact Climbs.pure hr

theorem writeVia_climbs (entry : Entry) (m : Frame) (replaced : List Frame)
    (h : Stands w g v) : Climbs w g (v.writeVia entry m replaced) Prod.snd := by
  cases entry with
  | perFrame =>
    exact (admitWrite_climbs h).of_admission
      (f := fun u => u.writeMessage m true true u.maxMessageBytes replaced)
      fun g u hu => writeMessage_climbs m true true u.maxMessageBytes replaced hu
  | flushed =>
    exact (admitWrite_climbs h).of_admission (f := fun u => u.writeMessageAndFlush m true replaced)
      fun g u hu => writeMessageAndFlush_climbs m true replaced hu
  | ownerStarted =>
    exact (admitOwnerStartedWrite_climbs h).of_admission
      (f := fun u => u.writeMessageAndFlush m true replaced)
      fun g u hu => writeMessageAndFlush_climbs m true replaced hu
  | observed =>
    exact (admitWrite_climbs h).of_admission
      (f := fun u => u.writeMessageAndFlush m m.more replaced)
      fun g u hu => writeMessageAndFlush_climbs m m.more replaced hu
  | noRecursiveHwmCheck =>
    exact (admitWrite_climbs h).of_admission
      (f := fun u => u.writeMessage m true false u.maxMessageBytes replaced)
      fun g u hu => writeMessage_climbs m true false u.maxMessageBytes replaced hu
  | single => exact writeSingleMessageAndFlush_climbs m replaced h

theorem writeParts_climbs (parts : List Frame) (max : ℕ) (h : Stands w g v) :
    Climbs w g (v.writeParts max parts) id := by
  induction parts generalizing g v with
  | nil => exact Climbs.pure h
  | cons m ms ih =>
    rw [writeParts]
    apply (writeMessage_climbs _ _ _ _ _ h).bind
    rintro g ⟨admission, u⟩ hu
    exact ih hu

theorem tryWriteCompleteRecordAndFlush_climbs (parts : List Frame) (h : Stands w g v) :
    Climbs w g (v.tryWriteCompleteRecordAndFlush parts) Prod.snd := by
  rw [tryWriteCompleteRecordAndFlush]
  split
  · exact Climbs.pure h
  have hstate := writeStateAdmission_stands h
  generalize v.writeStateAdmission = x at hstate
  obtain ⟨admission, u⟩ := x
  dsimp only at hstate ⊢
  split
  · exact Climbs.pure hstate
  split
  · exact Climbs.pure hstate
  split
  · exact Climbs.pure hstate
  apply (canCommitBytesWithPeerSnapshot_climbs _ _ _ _ hstate).bind
  rintro g ⟨ready, t⟩ ht
  cases ready with
  | false => exact Climbs.pure ht
  | true =>
    apply (writeParts_climbs parts _ ht).bind
    intro g r hr
    exact Climbs.pure (flush_stands hr)

theorem grantReservation_stands (payloadBytes : ℕ) (msgFlags : UInt8)
    (trackMultipart startedEmpty : Bool) (h : Stands w g v) : Stands w g
      (v.grantReservation payloadBytes msgFlags trackMultipart startedEmpty).2 := by
  rw [grantReservation]
  split
  · exact h
  split
  · exact h
  · refine h.free ?_ ?_
    · rfl
    · simp [Parked]

theorem reserveInboundDecoderFrame_climbs (payloadBytes : ℕ) (msgFlags : UInt8)
    (trackMultipart : Bool) (h : Stands w g v) :
    Climbs w g (v.reserveInboundDecoderFrame payloadBytes msgFlags trackMultipart) Prod.snd := by
  rw [reserveInboundDecoderFrame]
  split
  · exact Climbs.pure h
  dsimp only
  split
  · exact Climbs.pure (grantReservation_stands _ _ _ _ h)
  apply Climbs.poll h.floor_le
  intro l
  have hl := stands_refresh w g v l
  split
  · exact Climbs.pure (grantReservation_stands _ _ _ _ hl)
  apply Climbs.poll (v := (v.refreshPeerCreditSnapshot l).armHwmCreditWait) hl.floor_le
  intro l'
  have hl' := stands_refresh w (g.load v l) (v.refreshPeerCreditSnapshot l).armHwmCreditWait l'
  split
  · apply Climbs.pure
    apply grantReservation_stands
    exact hl'.free rfl (not_parked_clear _)
  · exact Climbs.pure hl'

theorem checkHwmWithPeerSnapshot_refuses (hf : g.floor ≤ v.credit) :
    v.checkHwmWithPeerSnapshot.Follows (fun g v => g.floor ≤ v.credit) Past.load
      (fun g x => g.floor ≤ x.2.credit ∧ (x.1 = false → g.loaded = true)) g := by
  rw [checkHwmWithPeerSnapshot]
  split
  · exact ⟨hf, fun h => by simp at h⟩
  · exact Prog.Follows.load hf fun l => ⟨le_rfl, fun _ => rfl⟩

theorem hwmCreditReady_refuses (hf : g.floor ≤ v.credit) :
    v.hwmCreditReady.Follows (fun g v => g.floor ≤ v.credit) Past.load
      (fun g x => g.floor ≤ x.2.credit ∧ (x.1 = false → g.loaded = true)) g := by
  rw [hwmCreditReady]
  apply (checkHwmWithPeerSnapshot_refuses hf).bind
  rintro g ⟨ready, u⟩ ⟨hu, -⟩
  cases ready with
  | true => exact ⟨hu, fun h => by simp at h⟩
  | false =>
    apply (checkHwmWithPeerSnapshot_refuses (v := u.armHwmCreditWait) hu).bind
    rintro g ⟨ready, t⟩ ⟨ht, hloaded⟩
    cases ready with
    | true => exact ⟨ht, fun h => by simp at h⟩
    | false => exact ⟨ht, hloaded⟩

theorem releaseWritesForTransportPair_climbs (h : Stands w g v) :
    Climbs w g v.releaseWritesForTransportPair id := by
  rw [releaseWritesForTransportPair]
  split
  · exact Climbs.pure h
  dsimp only
  split
  case isTrue hstate =>
    refine Climbs.pure (h.free ?_ ?_)
    · rfl
    · exact fun hp => hstate hp.2.2.2
  case isFalse =>
    apply (hwmCreditReady_refuses (v := { v with transportPairWriteHeld := false }) h.floor_le).bind
    rintro g ⟨ready, u⟩ ⟨hu, hloaded⟩
    cases ready with
    | true => exact Climbs.pure ⟨hu, fun hp => absurd hp (not_parked_active u)⟩
    | false => exact Climbs.pure ⟨hu, fun _ => .inr (hloaded rfl)⟩

theorem applyRemoteFlowState_climbs (paused : Bool) (epoch : ℕ) (h : Stands w g v) :
    Climbs w g (v.applyRemoteFlowState paused epoch) id := by
  rw [applyRemoteFlowState]
  split
  · exact Climbs.pure h
  dsimp only
  split
  · exact Climbs.pure (h.congr rfl fun hp => hp)
  split
  · apply Climbs.pure
    apply writeStateAdmission_stands
    exact h.congr rfl fun hp => hp
  -- The announced writer need not load where its own ledger has room.
  have hlook := checkHwmWithPeerSnapshot_refuses (g := g)
    (v := { v with remoteFlowEpoch := epoch, remoteFlowPaused := paused }.armHwmCreditWait)
    h.floor_le
  apply Prog.Follows.bind hlook
  rintro g ⟨ready, u⟩ ⟨hu, hloaded⟩
  cases ready with
  | true =>
    apply Climbs.pure
    apply writeStateAdmission_stands
    exact ⟨hu, fun hp => absurd hp (not_parked_active u)⟩
  | false =>
    apply Climbs.pure
    apply writeStateAdmission_stands
    exact ⟨hu, fun _ => .inr (hloaded rfl)⟩

theorem refreshWriteCredit_stands (l : Ledger) :
    Stands w (g.load v l) (v.refreshWriteCredit l) := by
  rw [refreshWriteCredit]
  split
  · exact (stands_refresh w g v l).free rfl (not_parked_clear _)
  · exact stands_refresh w g v l

theorem pushDecoded_stands (m : Frame) (recvRoutingId : Bool)
    (replaced : List Frame) (h : Stands w g v) :
    Stands w g (v.pushDecoded m recvRoutingId replaced).2 := by
  rw [pushDecoded]
  split
  · exact h.congr rfl fun hp => hp
  rcases writeReservedDecoderFrame_spec (w := v) m replaced with
    ⟨r, bytes, u, -, -, -, -, heq, hpush⟩ | heq
  · rw [heq]
    refine h.congr hpush.credit_eq fun hp => ?_
    rw [Parked, hpush.marks.1, hpush.marks.2, hpush.held, hpush.state] at hp
    exact hp
  · rw [heq]
    exact h.congr rfl fun hp => hp

theorem transitionToInactiveState_stands (state : LifecycleState) (h : Stands w g v) :
    Stands w g (v.transitionToInactiveState state) := by
  rw [transitionToInactiveState]
  split
  · exact h
  case isFalse hstate =>
    refine h.free ?_ ?_
    · rfl
    · exact fun hp => hstate hp.2.2.2

theorem delimitOutbound_stands (h : Stands w g v) (hstate : v.state ≠ .active) :
    Stands w g v.delimitOutbound := by
  rw [delimitOutbound]
  apply flush_stands
  refine h.free ?_ ?_
  · rfl
  · exact fun hp => hstate hp.2.2.2

theorem terminate_stands (delay : Bool) (h : Stands w g v) : Stands w g (v.terminate delay) := by
  rw [terminate]
  split
  · exact h
  · exact h
  · exact h
  · apply delimitOutbound_stands (transitionToInactiveState_stands _ h)
    simp [transitionToInactiveState]
  · apply delimitOutbound_stands (transitionToInactiveState_stands _ h)
    simp [transitionToInactiveState]
  case h_6 hstate =>
    split
    · apply delimitOutbound_stands h
      simp [hstate]
    · apply transitionToInactiveState_stands
      refine h.free ?_ ?_
      · rfl
      · simp [Parked, rollback, hstate]

end

end Writer

namespace Op

open Writer

theorem climbs (op : Op) (w : Writer) :
    Climbs w { floor := w.credit, loaded := false } (op.program w) Prod.snd := by
  have h := Stands.refl w
  cases op with
  | checkWrite => exact (admitWrite_climbs h).bind fun g x hx => Climbs.pure hx
  | checkPublishRecordHwm =>
    exact (checkPublishRecordHwm_climbs h).bind fun g x hx => Climbs.pure hx
  | admitOwnerMessageStart =>
    exact (admitOwnerMessageStart_climbs h).bind fun g x hx => Climbs.pure hx
  | write entry m replaced =>
    exact (writeVia_climbs entry (.data m) replaced h).bind fun g x hx => Climbs.pure hx
  | completeRecord parts => exact tryWriteCompleteRecordAndFlush_climbs parts h
  | flush => exact Climbs.pure (flush_stands h)
  | rollback | engineError | setHwm | setMaxMessageBytes =>
    exact Climbs.pure (h.congr rfl fun hp => hp)
  | reserve payloadBytes msgFlags recvRoutingId =>
    exact reserveInboundDecoderFrame_climbs payloadBytes msgFlags _ h
  | push m recvRoutingId replaced =>
    exact Climbs.pure (pushDecoded_stands (.data m) recvRoutingId replaced h)
  | holdWrites =>
    refine Climbs.pure (h.free ?_ ?_)
    · rfl
    · simp [Parked, holdWritesUntilTransportPairReady]
  | releaseWrites =>
    exact (releaseWritesForTransportPair_climbs h).bind fun g x hx => Climbs.pure hx
  | flowState paused epoch =>
    exact (applyRemoteFlowState_climbs paused epoch h).bind fun g x hx => Climbs.pure hx
  | takeHwmCreditRecovery =>
    apply Climbs.pure
    change Stands w _ w.takeHwmCreditRecovery
    rw [Writer.takeHwmCreditRecovery]
    split
    · refine h.free ?_ ?_
      · rfl
      · simp [Parked]
    · exact h
  | refreshWriteCredit =>
    exact Climbs.poll h.floor_le fun l => Climbs.pure (refreshWriteCredit_stands l)
  | terminate delay => exact Climbs.pure (terminate_stands delay h)
  | retire state => exact Climbs.pure (transitionToInactiveState_stands state h)

end Op

end Zlink.Pipe
