import Zlink.Protocol.Engine

/-!
# Reservations of held-back and admitted frames

A ledger beside the session records every reservation it granted, every one the
decoder gave back and every one the engine consumed. Along every run the granted
reservations are those released, those consumed and the one in the slot, each
counted once; a failed, detached or destroyed decoder holds none.
-/

namespace Zlink.Protocol

open Framing Decoder

structure Ledger (τ : Type) where
  granted : List τ
  released : List τ
  consumed : List τ

def Admission.reservations {τ : Type} : Admission τ → List τ
  | .granted reservation => reservation.toList
  | .refused _ => []

def Host.logged {σ τ : Type} (host : Host σ τ) : Host (σ × Ledger τ) τ where
  admission s msgSize flags :=
    let (answer, subject) := host.admission s.1 msgSize flags
    (answer, subject,
      { s.2 with granted := answer.reservations ++ s.2.granted })
  release s reservation :=
    (host.release s.1 reservation,
      { s.2 with released := reservation :: s.2.released })
  allocate s msgSize :=
    let (ok, subject) := host.allocate s.1 msgSize
    (ok, subject, s.2)

theorem Host.logged_admit {σ τ : Type} (host : Host σ τ) (s : σ × Ledger τ)
    (msgSize : UInt32) (flags : UInt8) : ∃ answer subject, host.logged.admission s msgSize flags =
      (answer, subject, { s.2 with granted := answer.reservations ++ s.2.granted }) :=
  ⟨_, _, rfl⟩

theorem Host.logged_allocate {σ τ : Type} (host : Host σ τ) (s : σ × Ledger τ) (msgSize : UInt32) :
    ∃ ok subject, host.logged.allocate s msgSize = (ok, subject, s.2) :=
  ⟨_, _, rfl⟩

def logConsume {σ τ : Type} (consume : σ → τ → σ) (s : σ × Ledger τ)
    (reservation : τ) : σ × Ledger τ :=
  (consume s.1 reservation,
    { s.2 with consumed := reservation :: s.2.consumed })

namespace Decoder

variable {σ τ : Type}

structure Sound (d : Decoder (σ × Ledger τ) τ) : Prop where
  balance : d.subject.2.granted.Perm
    (d.subject.2.released ++ d.subject.2.consumed ++ d.frameReservation.toList)
  attached : d.frameReservation ≠ none → d.attached = true

variable {d : Decoder (σ × Ledger τ) τ}

theorem Sound.congr {d' : Decoder (σ × Ledger τ) τ} (h : Sound d)
    (hledger : d'.subject.2 = d.subject.2) (hatt : d'.attached = d.attached)
    (hslot : d'.frameReservation = d.frameReservation) : Sound d' := by
  refine ⟨?_, ?_⟩
  · rw [hledger, hslot]
    exact h.balance
  · rw [hslot, hatt]
    exact h.attached

def SlotOk (d : Decoder (σ × Ledger τ) τ) : Prop :=
  d.frameReservation ≠ none → d.next = .bodyReady

def SoundResult (p : Rc × Decoder (σ × Ledger τ) τ) : Prop :=
  Sound p.2 ∧
    match p.1 with
    | .more => SlotOk p.2
    | .frame => True
    | .error _ => p.2.frameReservation = none

theorem releaseFrameReservation_slot (host : Host σ τ) (d : Decoder σ τ) :
    (d.releaseFrameReservation host).frameReservation = none := by
  rw [releaseFrameReservation]
  split
  case h_1 h => exact h
  case h_2 => rfl

theorem Sound.releaseFrameReservation (host : Host σ τ)
    (h : Sound d) : Sound (d.releaseFrameReservation host.logged) := by
  rw [Decoder.releaseFrameReservation]
  split
  case h_1 => exact h
  case h_2 reservation hslot =>
    have hatt := h.attached (by simp [hslot])
    have hbal := h.balance
    rw [hslot, Option.toList_some] at hbal
    refine ⟨?_, fun hne => absurd rfl hne⟩
    simp only [if_pos hatt, Host.logged, Option.toList_none, List.append_nil, List.cons_append]
    exact hbal.trans (List.perm_append_singleton _ _)

theorem Sound.failProtocol (host : Host σ τ) (h : Sound d)
    (code : UInt8) : SoundResult (failProtocol host.logged d code) := by
  have hr := h.releaseFrameReservation host
  exact ⟨⟨hr.balance, hr.attached⟩, releaseFrameReservation_slot host.logged d⟩

theorem Sound.failSize (h : Sound d) (hslot : d.frameReservation = none) : SoundResult d.failSize :=
  ⟨⟨h.balance, h.attached⟩, hslot⟩

theorem Sound.startPayload (h : Sound d)
    (msgSize : UInt32) : SoundResult (d.startPayload msgSize) := by
  rw [Decoder.startPayload]
  split
  · exact ⟨⟨h.balance, h.attached⟩, trivial⟩
  · exact ⟨⟨h.balance, h.attached⟩, fun _ => rfl⟩

theorem Sound.openMessage (host : Host σ τ) (h : Sound d)
    (msgSize : UInt32) : SoundResult (openMessage host.logged d msgSize) := by
  rw [Decoder.openMessage]
  split
  · exact h.failProtocol host _
  · refine Sound.startPayload ?_ msgSize
    exact ⟨h.balance, h.attached⟩

theorem Sound.allocateMessage (host : Host σ τ) (h : Sound d)
    (msgSize : UInt32) : SoundResult (allocateMessage host.logged d msgSize) := by
  obtain ⟨ok, subject, ha⟩ := host.logged_allocate d.subject msgSize
  simp only [Decoder.allocateMessage, ha]
  cases ok with
  | false =>
    have hs : Sound { d with
        allocationBackpressured := false
        pendingMsgSize := 0
        subject := (subject, d.subject.2) } := ⟨h.balance, h.attached⟩
    have hr := hs.releaseFrameReservation host
    exact ⟨⟨hr.balance, hr.attached⟩, releaseFrameReservation_slot host.logged _⟩
  | true =>
    refine Sound.openMessage host ?_ msgSize
    exact h.congr rfl rfl rfl

theorem Sound.requestAdmission (host : Host σ τ) (h : Sound d)
    (hslot : d.frameReservation = none) (msgSize : UInt32) :
    SoundResult (requestAdmission host.logged d msgSize) := by
  have hbal := h.balance
  rw [hslot, Option.toList_none, List.append_nil] at hbal
  rw [Decoder.requestAdmission]
  split
  case isFalse => exact h.allocateMessage host msgSize
  case isTrue hask =>
    have hatt : d.attached = true := by
      simpa using (Bool.and_eq_true _ _ ▸ hask).2
    obtain ⟨answer, subject, ha⟩ :=
      host.logged_admit d.subject msgSize d.msgFlags
    rw [ha]
    cases answer with
    | granted reservation =>
      refine Sound.allocateMessage host ?_ msgSize
      exact ⟨(hbal.append_left _).trans List.perm_append_comm, fun _ => hatt⟩
    | refused errno =>
      have hkept : d.subject.2.granted.Perm
          (d.subject.2.released ++ d.subject.2.consumed ++ []) := by
        simpa using hbal
      cases errno <;>
        exact ⟨⟨hkept, fun hne => absurd rfl hne⟩, rfl⟩

theorem Sound.sizeReady (host : Host σ τ) (h : Sound d)
    (hslot : d.frameReservation = none) (msgSize : UInt32) :
    SoundResult (sizeReady host.logged d msgSize) := by
  rw [Decoder.sizeReady]
  split
  · exact h.failSize hslot
  split
  · refine Sound.failSize ?_ ?_
    · exact h.congr rfl rfl rfl
    · exact hslot
  · refine Sound.requestAdmission host ?_ ?_ msgSize
    · exact h.congr rfl rfl rfl
    · exact hslot

theorem Sound.validateHeaderAndAdmit (host : Host σ τ)
    (h : Sound d) (hslot : d.frameReservation = none) :
    SoundResult (validateHeaderAndAdmit host.logged d) := by
  simp only [Decoder.validateHeaderAndAdmit]
  split
  · exact h.failProtocol host _
  split
  · exact h.failProtocol host _
  · refine Sound.sizeReady host ?_ ?_ _
    · exact h.congr rfl rfl rfl
    · exact hslot

theorem Sound.headerReady (host : Host σ τ) (h : Sound d)
    (hslot : d.frameReservation = none) : SoundResult (headerReady host.logged d) := by
  simp only [Decoder.headerReady]
  split
  · refine Sound.failProtocol host ?_ _
    exact h.congr rfl rfl rfl
  split
  · refine Sound.failProtocol host ?_ _
    exact h.congr rfl rfl rfl
  split
  · refine Sound.failProtocol host ?_ _
    exact h.congr rfl rfl rfl
  split
  · refine Sound.failProtocol host ?_ _
    exact h.congr rfl rfl rfl
  split
  · exact ⟨⟨h.balance, h.attached⟩, fun hne => absurd hslot hne⟩
  · refine Sound.validateHeaderAndAdmit host ?_ ?_
    · exact h.congr rfl rfl rfl
    · exact hslot

theorem Sound.runNext (host : Host σ τ) (h : Sound d)
    (hslot : SlotOk d) : SoundResult (runNext host.logged d) := by
  have hempty : d.next ≠ .bodyReady → d.frameReservation = none :=
    fun hnext => not_not.mp fun hne => hnext (hslot hne)
  rw [Decoder.runNext]
  split
  case h_1 hnext => exact h.headerReady host (hempty (by simp [hnext]))
  case h_2 hnext =>
    simp only [sequenceReady]
    split
    · refine Sound.failProtocol host ?_ _
      exact h.congr rfl rfl rfl
    · refine Sound.validateHeaderAndAdmit host ?_ ?_
      · exact h.congr rfl rfl rfl
      · exact hempty (by simp [hnext])
  case h_3 => exact ⟨⟨h.balance, h.attached⟩, trivial⟩

theorem store_slot_fields (d : Decoder σ τ) (bs : List UInt8) :
    (d.store bs).subject = d.subject ∧ (d.store bs).attached = d.attached ∧
      (d.store bs).frameReservation = d.frameReservation ∧ (d.store bs).next = d.next := by
  cases h : d.next <;> simp [store, h]

theorem sound_contract (host : Host σ τ) :
    (zmpReader host.logged).Contract (fun d => Sound d ∧ SlotOk d) (fun _ d => Sound d)
      (fun _ d => Sound d ∧ d.frameReservation = none) := by
  refine ⟨?_, ?_, ?_, ?_⟩
  · intro d b _ ⟨hs, hslot⟩
    obtain ⟨hsub, hatt, hres, hnext⟩ := store_slot_fields d [b]
    change Sound (d.store [b]) ∧ SlotOk (d.store [b])
    refine ⟨⟨?_, ?_⟩, ?_⟩
    · rw [hsub, hres]
      exact hs.balance
    · rw [hres, hatt]
      exact hs.attached
    · rw [SlotOk, hres, hnext]
      exact hslot
  · intro d d' _ hact ⟨hs, hslot⟩
    have hk := hs.runNext host hslot
    rcases hr : Decoder.runNext host.logged d with ⟨_ | _ | errno, d''⟩ <;>
      simp [zmpReader, answer, hr] at hact
    · rw [hr] at hk
      exact hact ▸ hk
  · intro d d' f _ hact ⟨hs, hslot⟩
    have hk := hs.runNext host hslot
    rcases hr : Decoder.runNext host.logged d with ⟨_ | _ | errno, d''⟩ <;>
      simp [zmpReader, answer, hr] at hact
    · rw [hr] at hk
      exact hact.2 ▸ hk.1
  · intro d d' e _ hact ⟨hs, hslot⟩
    have hk := hs.runNext host hslot
    rcases hr : Decoder.runNext host.logged d with ⟨_ | _ | errno, d''⟩ <;>
      simp [zmpReader, answer, hr] at hact
    · rw [hr] at hk
      exact hact.2 ▸ hk

end Decoder

namespace Engine

variable {σ τ : Type} {host : Host σ τ} {consume : σ → τ → σ}

structure Kept (e : Engine (σ × Ledger τ) τ) : Prop where
  sound : Sound e.decoder
  slot : e.life = .reading → e.failure = none → e.delivering = false → SlotOk e.decoder
  stopped : e.stopped = true → e.decoder.frameReservation = none
  failed : e.failure ≠ none → e.decoder.frameReservation = none
  closed : e.life = .detached ∨ e.life = .destroyed → e.decoder.frameReservation = none

theorem kept_init (maxmsgsize : Int64) (attached : Bool) (subject : σ) (stream : List UInt8) :
    Kept (init maxmsgsize attached (subject, ⟨[], [], []⟩) stream : Engine (σ × Ledger τ) τ) where
  sound := ⟨List.Perm.nil, fun h => absurd rfl h⟩
  slot _ _ _ h := absurd rfl h
  stopped h := absurd h (by simp [init])
  failed h := absurd rfl h
  closed h := absurd h (by simp [init])

variable {e : Engine (σ × Ledger τ) τ}

theorem Kept.absorb (hlife : e.life = .reading) (hf : e.failure = none) {rest : List UInt8}
    {r : Answer Msg Failure × Decoder (σ × Ledger τ) τ} (hs : Sound r.2)
    (hmore : r.1 = .more → SlotOk r.2) (hfail : ∀ f, r.1 = .fail f → r.2.frameReservation = none) :
    Kept (e.absorb rest r) := by
  obtain ⟨_ | f | f, d⟩ := r
  · exact ⟨hs, fun _ _ _ => hmore rfl, fun h => absurd h (by simp [Engine.absorb]),
      fun h => absurd hf h, fun h => by simp [Engine.absorb, hlife] at h⟩
  · exact ⟨hs, fun _ _ h => absurd h (by simp [Engine.absorb]),
      fun h => absurd h (by simp [Engine.absorb]), fun h => absurd hf h,
      fun h => by simp [Engine.absorb, hlife] at h⟩
  · have hslot := hfail f rfl
    rw [Engine.absorb]
    split
    all_goals
      exact ⟨hs, fun _ _ _ h => absurd hslot h, fun _ => hslot, fun _ => hslot, fun _ => hslot⟩

theorem soundResult_answer {p : Rc × Decoder (σ × Ledger τ) τ} (h : SoundResult p) :
    Sound (answer p).2 ∧ ((answer p).1 = .more → SlotOk (answer p).2) ∧
      ∀ f, (answer p).1 = .fail f → (answer p).2.frameReservation = none := by
  obtain ⟨_ | _ | errno, d⟩ := p
  · exact ⟨h.1, fun _ => h.2, by simp [answer]⟩
  · exact ⟨h.1, by simp [answer], by simp [answer]⟩
  · exact ⟨h.1, by simp [answer], fun _ _ => h.2⟩

theorem Sound.consumeReservation {d : Decoder (σ × Ledger τ) τ} (h : Sound d) :
    Sound (consumeReservation (logConsume consume) d) := by
  rw [Engine.consumeReservation]
  split
  case h_1 => exact h
  case h_2 reservation hslot =>
    have hbal := h.balance
    rw [hslot, Option.toList_some] at hbal
    refine ⟨?_, fun hne => absurd rfl hne⟩
    simp only [logConsume, Option.toList_none, List.append_nil]
    exact hbal.trans ((List.perm_append_singleton _ _).trans List.perm_middle.symm)

theorem consumeReservation_slot {σ τ : Type} (consume : σ → τ → σ) (d : Decoder σ τ) :
    (consumeReservation consume d).frameReservation = none := by
  rw [consumeReservation]
  split
  case h_1 h => exact h
  case h_2 => rfl

theorem Sound.retryFrameAdmission (host : Host σ τ) {d : Decoder (σ × Ledger τ) τ} (h : Sound d)
    (hslot : d.frameReservation = none) : SoundResult (retryFrameAdmission host.logged d) := by
  rw [Decoder.retryFrameAdmission]
  split
  · exact ⟨h, hslot⟩
  · exact h.sizeReady host hslot _

theorem streamEnd_cases {σ τ : Type} (host : Host σ τ) (d : Decoder σ τ) :
    d.streamEnd host = (.more, d) ∨ ∃ d', d.streamEnd host = (.error .eproto, d') ∧
        failProtocol host d zmpErrorFrameIncomplete = (.error .eproto, d') := by
  rw [Decoder.streamEnd]
  split
  · exact .inl rfl
  · exact .inr ⟨_, rfl, rfl⟩

theorem Kept.step {e' : Engine (σ × Ledger τ) τ} {v : Event}
    (hv : e.step host.logged (logConsume consume) v = some e')
    (hready : e.Ready) (h : Kept e) : Kept e' := by
  obtain ⟨hg, rfl⟩ := step_eq_some host.logged (logConsume consume) |>.mp hv
  cases v with
  | decode c =>
    obtain ⟨hlife, hf, hstop, hdel⟩ := hg
    have hpos' : 0 < (zmpReader host.logged).need e.decoder :=
      hready hlife hf hstop
    have hcall := (sound_contract host).scan hpos'
      ⟨h.sound, h.slot hlife hf hdel⟩ (e.rest.take c.size)
    rw [perform, (zmpReader host.logged).decode_eq_scan hpos']
    rcases hscan : (zmpReader host.logged).scan e.decoder
      (e.rest.take c.size) with ⟨_ | f | f, used, d⟩
    · rw [hscan] at hcall
      exact Kept.absorb hlife hf hcall.1 (fun _ => hcall.2) (by simp)
    · rw [hscan] at hcall
      exact Kept.absorb hlife hf hcall (by simp) (by simp)
    · rw [hscan] at hcall
      exact Kept.absorb hlife hf hcall.1 (by simp) fun _ _ => hcall.2
  | retry =>
    obtain ⟨hlife, hf, hstop⟩ := hg
    obtain ⟨hs, hmore, hfail⟩ := soundResult_answer
      (Sound.retryFrameAdmission host h.sound (h.stopped hstop))
    exact Kept.absorb hlife hf hs hmore hfail
  | consume =>
    have hslot := consumeReservation_slot (logConsume consume) e.decoder
    exact ⟨Sound.consumeReservation h.sound,
      fun _ _ _ hne => absurd hslot hne, fun _ => hslot, fun _ => hslot,
      fun _ => hslot⟩
  | discard | destroy =>
    have hslot := releaseFrameReservation_slot host.logged e.decoder
    exact ⟨h.sound.releaseFrameReservation host,
      fun _ _ _ hne => absurd hslot hne, fun _ => hslot, fun _ => hslot,
      fun _ => hslot⟩
  | configure =>
    obtain ⟨hlife, hslot⟩ := hg
    exact ⟨⟨h.sound.balance, fun hne => absurd hslot hne⟩,
      fun _ _ _ hne => absurd hslot hne, fun _ => hslot, fun _ => hslot,
      fun _ => hslot⟩
  | streamEnd =>
    obtain ⟨hlife, hf⟩ := hg
    rw [perform]
    rcases streamEnd_cases host.logged e.decoder with hd | ⟨d, hd, hfail⟩
    · rw [hd]
      exact ⟨h.sound, fun hl => absurd hl (by simp), h.stopped, h.failed,
        fun hl => absurd hl (by simp)⟩
    · have hs := h.sound.failProtocol host zmpErrorFrameIncomplete
      rw [hfail] at hs
      rw [hd]
      exact ⟨hs.1, fun _ _ _ hne => absurd hs.2 hne, fun _ => hs.2, fun _ => hs.2, fun _ => hs.2⟩
  | detach =>
    have hslot := releaseFrameReservation_slot host.logged e.decoder
    have hs := h.sound.releaseFrameReservation host
    exact ⟨⟨hs.balance, fun hne => absurd hslot hne⟩,
      fun _ _ _ hne => absurd hslot hne, fun _ => hslot, fun _ => hslot,
      fun _ => hslot⟩

/-- A session that never holds a frame back. -/
structure Admitting (host : Host σ τ) : Prop where
  admits : ∀ s msgSize flags, ∃ reservation s',
    host.admission s msgSize flags = (.granted reservation, s')
  allocates : ∀ s msgSize, (host.allocate s msgSize).1 = true

theorem Admitting.patient (h : Admitting host) : Patient host where
  admits s msgSize flags := by
    obtain ⟨reservation, s', hs⟩ := h.admits s msgSize flags
    exact .now hs
  allocates := h.allocates

theorem tracks_run (hp : Patient host) {maxmsgsize : Int64} {attached : Bool}
    {subject : σ} {stream : List UInt8} {events : List Event} {e : Engine σ τ}
    (hrun : run host consume (init maxmsgsize attached subject stream) events =
      some e) : Tracks (bareRun maxmsgsize stream) e :=
  run_induct host consume (fun hv h => h.step hp hv) hrun
    (tracks_init maxmsgsize attached subject stream)

theorem kept_run {maxmsgsize : Int64} {attached : Bool} {subject : σ}
    {stream : List UInt8} {events : List Event}
    (hrun : run host.logged (logConsume consume)
      (init maxmsgsize attached (subject, ⟨[], [], []⟩) stream) events = some e) : Kept e := by
  have hboth : Ready e ∧ Kept e :=
    run_induct (P := fun e => Ready e ∧ Kept e) host.logged (logConsume consume)
      (fun hv h => ⟨h.1.step hv, h.2.step hv h.1⟩) hrun
      ⟨fun _ _ _ => Nat.zero_lt_succ 7, kept_init maxmsgsize attached subject stream⟩
  exact hboth.2

/-- Admission is transparent and reservations are safe. A session that refuses
frames any finite number of times before it admits them lets the engine reach its
end, whatever the calls are, with the frames, the error and the position that a
session which never refuses gives. And along every run with every session, every
granted reservation is released, consumed or held exactly once, at most one is
held, and none is held by a decoder that failed, was detached or was destroyed. -/
theorem admission_transparent_and_safe (host : Host σ τ) (consume : σ → τ → σ)
    (maxmsgsize : Int64) (attached : Bool) (subject : σ)
    (stream : List UInt8) :
    (Patient host → ∀ {σ' τ' : Type} (host' : Host σ' τ') (consume' : σ' → τ' → σ')
        (attached' : Bool) (subject' : σ') (events events' : List Event)
        (e : Engine σ τ) (e' : Engine σ' τ'), Admitting host' →
      run host consume (init maxmsgsize attached subject stream) events =
        some e →
      run host' consume' (init maxmsgsize attached' subject' stream) events' =
        some e' →
      e'.Done →
      e.frames <+: e'.frames ∧ (e.Done → e.frames = e'.frames ∧
          (e.failure.map fun f => (f.errno, f.errorCode)) =
            (e'.failure.map fun f => (f.errno, f.errorCode)) ∧
          e.rest = e'.rest)) ∧
    (Patient host → ∀ calls : List Call, (∀ c ∈ calls, 0 < c.size) → stream.length ≤ calls.length →
      ∃ events e, run host consume (init maxmsgsize attached subject stream) events =
          some e ∧
        events.filterMap Event.call <+: calls ∧ e.Done) ∧
    (∀ events e, run host.logged (logConsume consume)
        (init maxmsgsize attached (subject, ⟨[], [], []⟩) stream) events =
          some e →
      e.decoder.subject.2.granted.Perm
        (e.decoder.subject.2.released ++ e.decoder.subject.2.consumed ++
          e.decoder.frameReservation.toList) ∧
      (e.failure ≠ none ∨ e.life = .detached ∨ e.life = .destroyed →
        e.decoder.frameReservation = none)) := by
  refine ⟨?_, ?_, ?_⟩
  · intro hp σ' τ' host' consume' attached' subject' events events' e e' ha hrun hrun' hdone'
    have ht := tracks_run hp hrun
    obtain ⟨hframes', hfail', hrest'⟩ := (tracks_run ha.patient hrun').done hdone'
    rw [hframes', hfail', hrest']
    exact ⟨ht.frames, fun hdone => ht.done hdone⟩
  · intro hp calls hsize hlen
    exact exists_done consume hp
      (tracks_init maxmsgsize attached subject stream) rfl calls hsize hlen
  · intro events e hrun
    have hk := kept_run hrun
    exact ⟨hk.sound.balance, fun h => h.elim hk.failed hk.closed⟩

def refusesTwice : Host ℕ ℕ where
  admission
    | 0, _, _ => (.granted (some 7), 2)
    | n + 1, _, _ => (.refused .eagain, n)
  release n _ := n
  allocate n _ := (true, n)

theorem refusesTwice_patient : Patient refusesTwice where
  admits s msgSize flags := by
    induction s with
    | zero => exact .now rfl
    | succ n ih => exact .later rfl ih
  allocates _ _ := rfl

/-- The session that refuses twice lets a stream of one frame through. -/
theorem admission_transparent_and_safe_refusesTwice : ∃ events e, run refusesTwice (fun s _ => s)
        (init 0 true 2 [0x5a, 1, 0, 0, 0, 0, 0, 1, 7]) events = some e ∧
      events.filterMap Event.call <+: List.replicate 9 ⟨9, false⟩ ∧ e.Done :=
  (admission_transparent_and_safe refusesTwice (fun s _ => s) 0 true 2
    [0x5a, 1, 0, 0, 0, 0, 0, 1, 7]).2.1 refusesTwice_patient
    (List.replicate 9 ⟨9, false⟩) (by decide) (by decide)

end Engine

end Zlink.Protocol
