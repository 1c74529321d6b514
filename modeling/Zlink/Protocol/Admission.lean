import Zlink.Protocol.Decoder

/-!
# Frame admission: suspended headers and reservations

Between header and payload the decoder asks its session to take the frame. The
session may refuse with `EAGAIN`; the decoder then keeps the parsed header and
`retry_frame_admission` asks again. `Engine` is the caller of the decoder: it
offers bytes, retries a refused frame, hands a completed frame on with its
reservation, and may end the stream, detach or destroy the decoder at any time.

There are two results. The session is transparent: `bare` forgets it, and a run
with any number of refusals emits the frames of the bare decoder. And no
reservation is lost or released twice: `Ledger` records what the session granted,
what the decoder gave back and what the engine consumed.
-/

namespace Zlink.Protocol

open Framing

namespace Decoder

variable {σ τ : Type}

variable (d : Decoder σ τ)

def bare : Decoder Unit Empty :=
  { d with
    subject := ()
    attached := false
    frameReservation := none
    pendingMsgSize := 0
    allocationBackpressured := false }

def bareResult (p : Rc × Decoder σ τ) : Rc × Decoder Unit Empty :=
  (p.1, p.2.bare)

theorem store_bare (bs : List UInt8) : (d.store bs).bare = d.bare.store bs := by
  cases h : d.next <;> simp [store, bare, h]

theorem failProtocol_bare (host : Host σ τ) (d : Decoder σ τ) (code : UInt8) :
    bareResult (failProtocol host d code) = failProtocol plainHost d.bare code := by
  rcases h : d.frameReservation with _ | reservation <;>
    simp [failProtocol, bareResult, releaseFrameReservation, bare, h]

/-- An action met the bare decoder: it was not held back, and it did the same. -/
def Agrees (p : Rc × Decoder σ τ) (q : Rc × Decoder Unit Empty) : Prop :=
  p.1 ≠ .error .eagain ∧ bareResult p = q

/-- An action was held back in the middle of a header: what the bare decoder does
is what a retry still has to do. -/
structure Suspended (d : Decoder σ τ) (q : Rc × Decoder Unit Empty) : Prop where
  backpressured : d.allocationBackpressured = true
  waiting : d.frameStage = .waitingFrameAdmission
  pending : sizeReady plainHost d.bare d.pendingMsgSize = q

theorem failProtocol_agrees (host : Host σ τ) (d : Decoder σ τ) (code : UInt8) :
    Agrees (failProtocol host d code) (failProtocol plainHost d.bare code) :=
  ⟨by simp [failProtocol], failProtocol_bare host d code⟩

theorem failSize_agrees : Agrees d.failSize d.bare.failSize :=
  ⟨by simp [failSize], rfl⟩

theorem startPayload_agrees (msgSize : UInt32) :
    Agrees (d.startPayload msgSize) (d.bare.startPayload msgSize) := by
  rw [startPayload, startPayload]
  split
  · exact ⟨by simp, rfl⟩
  · exact ⟨by simp, rfl⟩

/-- The session refuses a frame with `EAGAIN` a finite number of times and then
admits it. -/
inductive Admits (host : Host σ τ) (msgSize : UInt32) (flags : UInt8) : σ → Prop where
  | now {s s' : σ} {reservation : Option τ} :
      host.admission s msgSize flags = (.granted reservation, s') →
      Admits host msgSize flags s
  | later {s s' : σ} : host.admission s msgSize flags = (.refused .eagain, s') →
      Admits host msgSize flags s' → Admits host msgSize flags s

/-- A session that admits every frame in the end, over an allocator that does not
run out of memory. -/
structure Patient (host : Host σ τ) : Prop where
  admits : ∀ s msgSize flags, Admits host msgSize flags s
  allocates : ∀ s msgSize, (host.allocate s msgSize).1 = true

theorem plainHost_patient : Patient plainHost where
  admits _ _ _ := .now rfl
  allocates _ _ := rfl

variable {host : Host σ τ}

theorem openMessage_agrees (msgSize : UInt32) :
    Agrees (openMessage host d msgSize) (openMessage plainHost d.bare msgSize) := by
  have hbare : d.bare.headerMsg = d.headerMsg := rfl
  rw [openMessage, openMessage, hbare]
  split
  · exact failProtocol_agrees host d _
  · exact startPayload_agrees _ _

theorem allocateMessage_agrees (hp : Patient host) (d : Decoder σ τ) (msgSize : UInt32) :
    Agrees (allocateMessage host d msgSize) (allocateMessage plainHost d.bare msgSize) := by
  have halloc := hp.allocates d.subject msgSize
  rcases ha : host.allocate d.subject msgSize with ⟨ok, subject⟩
  rw [ha] at halloc
  subst halloc
  simp only [allocateMessage, ha]
  exact openMessage_agrees _ _

theorem requestAdmission_agrees (hp : Patient host) (d : Decoder σ τ) (msgSize : UInt32) :
    Agrees (requestAdmission host d msgSize) (requestAdmission plainHost d.bare msgSize) ∨
      ∃ subject, requestAdmission host d msgSize =
        (.error .eagain, d.heldBack subject msgSize) := by
  have hplain : requestAdmission plainHost d.bare msgSize =
      allocateMessage plainHost d.bare msgSize := by
    simp [requestAdmission, bare]
  rw [requestAdmission, hplain]
  split
  case isFalse hask => exact .inl (allocateMessage_agrees hp d msgSize)
  case isTrue hask =>
    rcases hp.admits d.subject msgSize d.msgFlags with ⟨ha⟩ | ⟨ha, -⟩
    · rw [ha]
      exact .inl (allocateMessage_agrees hp _ msgSize)
    · rw [ha]
      exact .inr ⟨_, rfl⟩

theorem sizeReady_of_some {d : Decoder σ τ} {msgSize : UInt32} {next : UInt64}
    (hlimit : ¬d.frameLimit < msgSize) (hnext : d.payloadSizeAfter msgSize = some next) :
    sizeReady host d msgSize = requestAdmission host
        { d with nextApplicationMultipartPayloadSize := next } msgSize := by
  rw [sizeReady, if_neg hlimit, hnext]

def Follows (p : Rc × Decoder σ τ) (q : Rc × Decoder Unit Empty) : Prop :=
  Agrees p q ∨ (p.1 = .error .eagain ∧ Suspended p.2 q)

theorem Follows.ite {c : Prop} [Decidable c] {p p' : Rc × Decoder σ τ}
    {q q' : Rc × Decoder Unit Empty} (htrue : c → Follows p q) (hfalse : ¬c → Follows p' q') :
    Follows (if c then p else p') (if c then q else q') := by
  split
  case isTrue h => exact htrue h
  case isFalse h => exact hfalse h

theorem sizeReady_follows (hp : Patient host) (d : Decoder σ τ)
    (msgSize : UInt32) (hstage : d.frameStage = .waitingFrameAdmission) :
    Follows (sizeReady host d msgSize) (sizeReady plainHost d.bare msgSize) := by
  refine Follows.ite (fun _ => .inl (failSize_agrees d)) fun hlimit => ?_
  rcases hnext : d.payloadSizeAfter msgSize with _ | next
  · have hbare : d.bare.payloadSizeAfter msgSize = none := hnext
    rw [hbare]
    exact .inl (failSize_agrees _)
  have hbare : d.bare.payloadSizeAfter msgSize = some next := hnext
  rw [hbare]
  rcases requestAdmission_agrees hp
    { d with nextApplicationMultipartPayloadSize := next } msgSize with
    hagrees | ⟨subject, hs⟩
  · exact .inl hagrees
  · -- a retry computes the same total from the same header
    simp only [hs]
    exact .inr ⟨rfl, rfl, hstage, sizeReady_of_some hlimit hnext⟩

theorem validateHeaderAndAdmit_follows (hp : Patient host) (d : Decoder σ τ) :
    Follows (validateHeaderAndAdmit host d) (validateHeaderAndAdmit plainHost d.bare) :=
  Follows.ite (fun _ => .inl (failProtocol_agrees host d _)) fun _ =>
    Follows.ite (fun _ => .inl (failProtocol_agrees host d _)) fun _ =>
      sizeReady_follows hp _ _ rfl

theorem headerReady_follows (hp : Patient host) (d : Decoder σ τ) :
    Follows (headerReady host d) (headerReady plainHost d.bare) :=
  Follows.ite (fun _ => .inl (failProtocol_agrees host _ _)) fun _ =>
    Follows.ite (fun _ => .inl (failProtocol_agrees host _ _)) fun _ =>
    Follows.ite (fun _ => .inl (failProtocol_agrees host _ _)) fun _ =>
    Follows.ite (fun _ => .inl (failProtocol_agrees host _ _)) fun _ =>
    Follows.ite (fun _ => .inl ⟨by simp, rfl⟩) fun _ =>
      validateHeaderAndAdmit_follows hp _

theorem sequenceReady_follows (hp : Patient host) (d : Decoder σ τ) :
    Follows (sequenceReady host d) (sequenceReady plainHost d.bare) :=
  Follows.ite (fun _ => .inl (failProtocol_agrees host _ _)) fun _ =>
    validateHeaderAndAdmit_follows hp _

/-- An action of the decoder does what it does without the session, or is held
back in the middle of the header. -/
theorem runNext_follows (hp : Patient host) (d : Decoder σ τ) :
    Follows (runNext host d) (runNext plainHost d.bare) := by
  have hbare : d.bare.next = d.next := rfl
  rw [runNext, runNext, hbare]
  split
  · exact headerReady_follows hp d
  · exact sequenceReady_follows hp d
  · exact .inl ⟨by simp [bodyReady], rfl⟩

theorem retryFrameAdmission_follows (hp : Patient host) {d : Decoder σ τ}
    {q : Rc × Decoder Unit Empty} (hs : Suspended d q) :
    Follows (retryFrameAdmission host d) q := by
  have hretry : retryFrameAdmission host d = sizeReady host d d.pendingMsgSize := by
    rw [retryFrameAdmission, if_neg]
    simp [hs.backpressured, hs.waiting]
  rw [hretry, ← hs.pending]
  exact sizeReady_follows hp d _ hs.waiting

theorem openMessage_ne_eagain (msgSize : UInt32) :
    (openMessage host d msgSize).1 ≠ .error .eagain :=
  (openMessage_agrees d msgSize).1

theorem allocateMessage_ne_eagain (msgSize : UInt32) :
    (allocateMessage host d msgSize).1 ≠ .error .eagain := by
  rw [allocateMessage]
  split
  · simp
  · exact openMessage_ne_eagain _ _

/-- A frame is held back only by the answer of the session to the very header
that is kept. -/
theorem sizeReady_eagain {d d' : Decoder σ τ} {msgSize : UInt32}
    (h : sizeReady host d msgSize = (.error .eagain, d')) : ∃ subject next,
      host.admission d.subject msgSize d.msgFlags = (.refused .eagain, subject) ∧
      d' = { d with nextApplicationMultipartPayloadSize := next }.heldBack subject msgSize := by
  rw [sizeReady] at h
  split at h
  · simp [failSize] at h
  split at h
  · simp [failSize] at h
  rename_i next hnext
  rw [requestAdmission] at h
  split at h
  case isFalse =>
    exact absurd (congrArg Prod.fst h) (allocateMessage_ne_eagain _ _)
  case isTrue =>
    split at h
    case h_1 =>
      exact absurd (congrArg Prod.fst h) (allocateMessage_ne_eagain _ _)
    case h_2 subject ha => exact ⟨subject, next, ha, (Prod.mk.inj h).2.symm⟩
    case h_3 errno subject hne ha =>
      have herrno : errno = .eagain := by simpa using congrArg Prod.fst h
      exact absurd herrno hne

end Decoder

end Zlink.Protocol
