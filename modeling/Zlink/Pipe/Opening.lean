import Zlink.Pipe.SingleMessage

/-!
# A record that is opened

What the writer does to a record in progress, as equations: a frame that is refused leaves no trace
but the credit and the wait for more of it, and a frame that the record goes on behind touches the
counters of the record and the end of the queue.
-/

namespace Zlink.Pipe

open Protocol Suspension

namespace Writer

variable {R : Ledger → Prop} {w v u : Writer} {m : Frame} {bytes payload max : ℕ} {e i : Bool}
  {replaced : List Frame}

structure Waits (R : Ledger → Prop) (w v : Writer) : Prop where
  raised : Raised R w v
  eq : v = { w with
    peersMsgsRead := v.peersMsgsRead
    peersBytesRead := v.peersBytesRead
    outActive := v.outActive
    waitingForByteCredit := v.waitingForByteCredit }

namespace Waits

theorem refl (w : Writer) : Waits R w w where
  raised := Raised.refl w
  eq := rfl

theorem trans (h : Waits R w v) (h' : Waits R v u) : Waits R w u where
  raised := h.raised.trans h'.raised
  eq := by
    rw [h'.eq, h.eq]

theorem arm (w : Writer) : Waits R w w.armHwmCreditWait where
  raised := (Raised.refl w).congr rfl
  eq := rfl

theorem clear (w : Writer) : Waits R w w.clearHwmCreditWait where
  raised := (Raised.refl w).congr rfl
  eq := rfl

theorem settles (h : Waits R w v) : Settles R w v where
  raised := h.raised
  eq := by
    rw [h.eq]

end Waits

theorem waits_canCommitBytesWithPeerSnapshot :
    (w.canCommitBytesWithPeerSnapshot bytes payload e max).Holds (fun _ => True) (fun _ => R)
      fun x => Waits R w x.2 := by
  refine looked_canCommitBytesWithPeerSnapshot.imp fun x hx => ?_
  obtain ⟨c, hv, hraised, -⟩ := hx
  refine ⟨hraised, ?_⟩
  rw [hv]
  rfl

theorem waits_awaitCommitCredit :
    (w.awaitCommitCredit bytes payload e max).Holds (fun _ => True) (fun _ => R)
      fun x => Waits R w x.2 := by
  rw [awaitCommitCredit]
  apply waits_canCommitBytesWithPeerSnapshot.bind
  rintro ⟨ready, v⟩ hv
  cases ready with
  | true => exact hv
  | false =>
    change Prog.Holds _ _ _ (if v.bytesWritten ≤ v.peersBytesRead then _ else _)
    split
    · exact hv
    apply waits_canCommitBytesWithPeerSnapshot.bind
    rintro ⟨ready, u⟩ hu
    have hlater : Waits R w u := hv.trans ((Waits.arm v).trans hu)
    cases ready with
    | true => exact hlater.trans (Waits.clear u)
    | false => exact hlater

structure Asked (R : Ledger → Prop) (w v : Writer) : Prop where
  raised : Raised R w v
  granted : ∀ r, v.reservation = some r →
    w.reservation = some r ∨ r.frameBytes = satAdd r.payloadBytes Frame.metadataBytes
  eq : v = { w with
    peersMsgsRead := v.peersMsgsRead
    peersBytesRead := v.peersBytesRead
    outActive := v.outActive
    waitingForByteCredit := v.waitingForByteCredit
    reservation := v.reservation
    decoderMultipartStartedEmpty := v.decoderMultipartStartedEmpty }

theorem Waits.asked (h : Waits R w v) : Asked R w v where
  raised := h.raised
  granted r hr := by
    rw [h.eq] at hr
    exact .inl hr
  eq := by
    rw [h.eq]

theorem asked_grantReservation {flags : UInt8} {track first : Bool} (h : Waits R w v) :
    Asked R w (v.grantReservation payload flags track first).2 := by
  rw [grantReservation]
  split
  · exact h.asked
  split
  · exact h.asked
  · constructor
    · exact h.raised.congr rfl
    · intro r hr
      obtain rfl := Option.some.inj hr
      exact .inr rfl
    · rw [h.eq]

theorem asked_reserveInboundDecoderFrame {flags : UInt8} {track : Bool} :
    (w.reserveInboundDecoderFrame payload flags track).Holds (fun _ => True) (fun _ => R)
      fun x => Asked R w x.2 := by
  rw [reserveInboundDecoderFrame]
  split
  · exact (Waits.refl w).asked
  dsimp only
  split
  · exact asked_grantReservation (Waits.refl w)
  apply Prog.Holds.load trivial
  intro l hl
  have hrefreshed : Waits R w (w.refreshPeerCreditSnapshot l) := ⟨raised_refresh hl, rfl⟩
  split
  · exact asked_grantReservation hrefreshed
  have harmed := hrefreshed.trans (Waits.arm _)
  apply Prog.Holds.load trivial
  intro l' hl'
  have hagain := harmed.trans ⟨raised_refresh hl', rfl⟩
  split
  · exact asked_grantReservation (hagain.trans (Waits.clear _))
  · exact hagain.asked

structure Counted (R : Ledger → Prop) (w : Writer) (m : Frame) (u : Writer) : Prop where
  raised : Raised R w u
  started : u.outMultipartStartedEmpty = true → w.outMultipartStartedEmpty = true ∨ m.more = true
  eq : u = { w.grow m with
    peersMsgsRead := u.peersMsgsRead
    peersBytesRead := u.peersBytesRead
    outActive := u.outActive
    waitingForByteCredit := u.waitingForByteCredit
    outMultipartStartedEmpty := u.outMultipartStartedEmpty }

theorem Counted.waits (h : Counted R w m v) (hu : Waits R v u) : Counted R w m u where
  raised := h.raised.trans hu.raised
  started hs := by
    rw [hu.eq] at hs
    exact h.started hs
  eq := by
    rw [hu.eq, h.eq]

theorem Counted.restored (h : Counted R w m v) : Waits R w { v with
      outIncompleteBytes := w.outIncompleteBytes
      outIncompletePayloadBytes := w.outIncompletePayloadBytes
      outMultipartStartedEmpty := w.outMultipartStartedEmpty } where
  raised := h.raised.congr rfl
  eq := by
    rw [h.eq]
    rfl

/-- What `writeMessage` comes to. -/
structure Outcome (R : Ledger → Prop) (w : Writer) (m : Frame) (max : ℕ) (replaced : List Frame)
    (x : Admission × Writer) : Prop where
  taken : x.1 = .ready → ¬w.Oversized m max ∧ ∃ u, Counted R w m u ∧ x.2 = u.settleFrame m replaced
  refused : x.1 ≠ .ready → Waits R w x.2

theorem startMultipart_counted {first : Bool} (hfirst : first = true → m.more = true) :
    ((w.grow m).startMultipart first).Holds (fun _ => True) (fun _ => R) (Counted R w m) := by
  have hgrown : Counted R w m (w.grow m) := ⟨(Raised.refl w).congr rfl, Or.inl, rfl⟩
  rw [startMultipart]
  split
  · exact hgrown
  · rename_i h
    rw [Bool.not_eq_true', Bool.not_eq_false] at h
    exact Prog.Holds.load trivial fun l hl =>
      ⟨(raised_refresh hl).congr rfl, fun _ => .inr (hfirst h), rfl⟩

theorem writeMessage_outcome :
    (w.writeMessage m e i max replaced).Holds (fun _ => True) (fun _ => R)
      (Outcome R w m max replaced) := by
  by_cases hsize : w.Oversized m max
  · have hrefused : Outcome R w m max replaced (.tooLarge, w) :=
      ⟨fun h => Admission.noConfusion h, fun _ => Waits.refl w⟩
    rw [Oversized] at hsize
    rw [writeMessage]
    by_cases hover : w.appendOverflows m = true
    · rw [if_pos hover]
      exact hrefused
    rw [if_neg hover]
    by_cases hpay : uint64Max - w.outIncompletePayloadBytes < m.size
    · rw [if_pos hpay]
      exact hrefused
    rw [if_neg hpay, if_pos ((hsize.resolve_left hover).resolve_left hpay)]
    exact hrefused
  have htaken {u : Writer} (hu : Counted R w m u) :
      Outcome R w m max replaced (.ready, u.settleFrame m replaced) :=
    ⟨fun _ => ⟨hsize, u, hu, rfl⟩, fun h => absurd rfl h⟩
  have hparts := hsize
  rw [Oversized, not_or, not_or] at hparts
  rw [writeMessage, if_neg hparts.1, if_neg hparts.2.1, if_neg hparts.2.2]
  dsimp only
  apply (startMultipart_counted (R := R) (w := w) (m := m) fun hfirst =>
    (Bool.and_eq_true_iff.mp hfirst).1).bind
  intro v hv
  split
  · exact htaken hv
  · apply waits_awaitCommitCredit.bind
    rintro ⟨ready, u⟩ hu
    have hcounted := hv.waits hu
    cases ready with
    | true => exact htaken hcounted
    | false => exact ⟨fun h => Admission.noConfusion h, fun _ => hcounted.restored⟩

end Writer

end Zlink.Pipe
