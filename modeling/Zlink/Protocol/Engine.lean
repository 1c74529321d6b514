import Mathlib.Data.List.Perm.Basic
import Zlink.Protocol.Admission

/-!
# The engine that drives the decoder

`Engine` is the caller of the decoder as `asio_engine_t` and `asio_zmp_engine_t`
are: it offers received bytes, stops its input when a frame is held back and
retries the frame, hands a completed frame and its reservation on before it
decodes again, and may meet the end of the stream, detach the session or destroy
the decoder at any moment. A run is any sequence of such events.
-/

namespace Zlink.Protocol

open Framing Decoder

inductive Life where
  | reading
  | ended
  | detached
  | destroyed
  deriving DecidableEq

/-- What can happen to a decoder. `consume` and `discard` are the two ways in which
the engine disposes of the reservation of a completed frame. -/
inductive Event where
  | decode (call : Call)
  | retry
  | consume
  | discard
  | configure
  | streamEnd
  | detach
  | destroy

/-- The call of a `decode` event. -/
def Event.call : Event → Option Call
  | .decode c => some c
  | _ => none

/-- The engine: its decoder, the received bytes not yet decoded, the frames it got
so far, whether the last of them is still to be handed on, whether its input is
stopped because a frame was held back, and the error that ended it. -/
structure Engine (σ τ : Type) where
  decoder : Decoder σ τ
  rest : List UInt8
  frames : List Msg
  delivering : Bool
  stopped : Bool
  failure : Option Failure
  life : Life

namespace Engine

variable {σ τ : Type} (host : Host σ τ) (consume : σ → τ → σ)

def init (maxmsgsize : Int64) (attached : Bool) (subject : σ) (stream : List UInt8) : Engine σ τ :=
  { decoder := Decoder.init maxmsgsize attached subject
    rest := stream
    frames := []
    delivering := false
    stopped := false
    failure := none
    life := .reading }

/-- Take over the result of a `decode` or of a retry. -/
def absorb (e : Engine σ τ) (rest : List UInt8) : Answer Msg Failure × Decoder σ τ → Engine σ τ
  | (.more, d) => { e with decoder := d, rest := rest, stopped := false }
  | (.emit f, d) =>
    { e with
      decoder := d
      rest := rest
      stopped := false
      frames := e.frames ++ [f]
      delivering := true }
  | (.fail f, d) =>
    if f.errno = .eagain then
      { e with decoder := d, rest := rest, stopped := true }
    else
      { e with
        decoder := d
        rest := rest
        stopped := false
        failure := some f }

variable {e : Engine σ τ} {rest : List UInt8} {r : Answer Msg Failure × Decoder σ τ}

theorem absorb_life : (e.absorb rest r).life = e.life := by
  obtain ⟨_ | f | f, d⟩ := r
  · rfl
  · rfl
  · rw [absorb]
    split <;> rfl

theorem absorb_rest : (e.absorb rest r).rest = rest := by
  obtain ⟨_ | f | f, d⟩ := r
  · rfl
  · rfl
  · rw [absorb]
    split <;> rfl

def consumeReservation (d : Decoder σ τ) : Decoder σ τ :=
  match d.frameReservation with
  | none => d
  | some reservation =>
    { d with
      subject := consume d.subject reservation
      frameReservation := none }

def Allows (e : Engine σ τ) : Event → Prop
  | .decode _ => e.life = .reading ∧ e.failure = none ∧ e.stopped = false ∧ e.delivering = false
  | .retry => e.life = .reading ∧ e.failure = none ∧ e.stopped = true
  | .consume | .discard => e.life = .reading ∧ e.failure = none ∧ e.delivering = true
  | .configure => e.life = .reading ∧ e.decoder.frameReservation = none
  | .streamEnd => e.life = .reading ∧ e.failure = none
  | .detach | .destroy => e.life ≠ .destroyed

instance (e : Engine σ τ) : (v : Event) → Decidable (e.Allows v)
  | .decode _ | .retry | .consume | .discard | .configure | .streamEnd =>
    instDecidableAnd
  | .detach | .destroy => instDecidableNot

def perform (e : Engine σ τ) : Event → Engine σ τ
  | .decode c =>
    let (a, used, d) :=
      (zmpReader host).decode c.inPlace e.decoder (e.rest.take c.size)
    e.absorb (e.rest.drop used) (a, d)
  | .retry => e.absorb e.rest (answer (retryFrameAdmission host e.decoder))
  | .consume =>
    { e with
      decoder := consumeReservation consume e.decoder
      delivering := false }
  | .discard =>
    { e with
      decoder := e.decoder.discardFrameReservation host
      delivering := false }
  | .configure => { e with decoder := { e.decoder with attached := true } }
  | .streamEnd =>
    match e.decoder.streamEnd host with
    | (.error errno, d) =>
      { e with
        decoder := d
        life := .ended
        failure := some ⟨errno, d.errorCode, d.allocationBackpressured⟩ }
    | (_, d) => { e with decoder := d, life := .ended }
  | .detach =>
    { e with
      decoder := e.decoder.detachFrameAdmission host
      life := .detached }
  | .destroy =>
    { e with
      decoder := e.decoder.releaseFrameReservation host
      life := .destroyed }

/-- One event, or `none` where the engine does not let it happen. -/
def step (e : Engine σ τ) (v : Event) : Option (Engine σ τ) :=
  if e.Allows v then some (e.perform host consume v) else none

variable {e' : Engine σ τ} {v : Event}

theorem step_eq_some : e.step host consume v = some e' ↔
      e.Allows v ∧ e.perform host consume v = e' := by
  simp [step]

def run : Engine σ τ → List Event → Option (Engine σ τ)
  | e, [] => some e
  | e, v :: vs => (e.step host consume v).bind fun e' => run e' vs

theorem run_induct {P : Engine σ τ → Prop}
    (hstep : ∀ {e e' v}, step host consume e v = some e' → P e → P e')
    {events : List Event}
    (hrun : run host consume e events = some e') (h : P e) : P e' := by
  induction events generalizing e with
  | nil => exact Option.some.inj hrun ▸ h
  | cons v vs ih =>
    obtain ⟨e₁, hv, hvs⟩ := Option.bind_eq_some_iff.mp hrun
    exact ih hvs (hstep hv h)

theorem run_append {e'' : Engine σ τ} {vs ws : List Event}
    (h : run host consume e vs = some e') (h' : run host consume e' ws = some e'') :
    run host consume e (vs ++ ws) = some e'' := by
  induction vs generalizing e with
  | nil => exact Option.some.inj h ▸ h'
  | cons v vs ih =>
    obtain ⟨e₁, hv, hvs⟩ := Option.bind_eq_some_iff.mp h
    exact Option.bind_eq_some_iff.mpr ⟨e₁, hv, ih hvs⟩

def resume (q : Rc × Decoder Unit Empty) (rest : List UInt8) :
    Outcome (Decoder Unit Empty) UInt8 Msg Failure :=
  match answer q with
  | (.more, d) => (zmpReader plainHost).whole d rest
  | (.emit f, d) => ((zmpReader plainHost).whole d rest).after f
  | (.fail f, d) => ⟨[], some f, rest, d⟩

def FailsWith (o : Outcome (Decoder Unit Empty) UInt8 Msg Failure) (f : Failure)
    (rest : List UInt8) : Prop :=
  (o.failure.map fun g => (g.errno, g.errorCode)) =
    some (f.errno, f.errorCode) ∧ o.rest = rest

def Continues (o : Outcome (Decoder Unit Empty) UInt8 Msg Failure)
    (rest : List UInt8) : Answer Msg Failure × Decoder σ τ → Prop
  | (.more, d) => o = (zmpReader plainHost).whole d.bare rest
  | (.emit f, d) => o = ((zmpReader plainHost).whole d.bare rest).after f
  | (.fail f, d) =>
    if f.errno = .eagain then ∃ q, Suspended d q ∧ o = resume q rest
    else o.frames = [] ∧ FailsWith o f rest

variable {q : Rc × Decoder Unit Empty}

theorem continues_of_follows {p : Rc × Decoder σ τ} (h : Follows p q) (rest : List UInt8) :
    Continues (resume q rest) rest (answer p) := by
  obtain ⟨rc, d⟩ := p
  rcases h with ⟨hne, rfl⟩ | ⟨heq, hs⟩
  · rcases rc with _ | _ | errno
    · rfl
    · rfl
    · have hne' : errno ≠ .eagain := fun he => hne (by rw [he])
      simp only [answer, Continues, if_neg hne']
      exact ⟨rfl, rfl, rfl⟩
  · obtain rfl : rc = .error .eagain := heq
    simp only [answer, Continues, if_pos]
    exact ⟨q, hs, rfl⟩

variable {host}

theorem whole_bare_cons (d : Decoder σ τ) (b : UInt8) (bs : List UInt8) :
    (zmpReader plainHost).whole d.bare (b :: bs) =
      if (d.store [b]).toRead = 0 then
        resume (runNext plainHost (d.store [b]).bare) bs
      else (zmpReader plainHost).whole (d.store [b]).bare bs := by
  have hstore : (zmpReader plainHost).store d.bare [b] = (d.store [b]).bare :=
    (store_bare d [b]).symm
  rw [Reader.whole, hstore]
  by_cases h0 : (d.store [b]).toRead = 0
  · have hact : (zmpReader plainHost).act (d.store [b]).bare =
        answer (runNext plainHost (d.store [b]).bare) := rfl
    rw [Reader.settle_of_zero _ (s := (d.store [b]).bare) h0, if_pos h0, hact, resume]
    rcases answer (runNext plainHost (d.store [b]).bare) with
      ⟨_ | f | f, d'⟩ <;> rfl
  · rw [Reader.settle_of_pos _ (s := (d.store [b]).bare) (Nat.pos_of_ne_zero h0), if_neg h0]

theorem scan_continues (hp : Patient host) (d : Decoder σ τ) (bs rest : List UInt8) :
    Continues ((zmpReader plainHost).whole d.bare (bs ++ rest))
      (bs.drop ((zmpReader host).scan d bs).2.1 ++ rest)
      (((zmpReader host).scan d bs).1, ((zmpReader host).scan d bs).2.2) := by
  induction bs generalizing d with
  | nil => rfl
  | cons b bs ih =>
    have hstore : (zmpReader host).store d [b] = d.store [b] := rfl
    rw [List.cons_append, whole_bare_cons, Reader.scan, hstore]
    split
    case isTrue h0 =>
      rw [Reader.settle_of_zero _ (s := d.store [b]) h0]
      have hact : (zmpReader host).act (d.store [b]) = answer (runNext host (d.store [b])) := rfl
      have hf := continues_of_follows (runNext_follows hp (d.store [b])) (bs ++ rest)
      rw [hact]
      rcases ha : answer (runNext host (d.store [b])) with ⟨_ | f | f, d'⟩
      · rw [ha] at hf
        rw [show resume _ (bs ++ rest) = _ from hf]
        exact ih d'
      all_goals
        rw [ha] at hf
        exact hf
    case isFalse h0 =>
      rw [Reader.settle_of_pos _ (s := d.store [b]) (Nat.pos_of_ne_zero h0)]
      exact ih (d.store [b])

theorem answer_need {p : Rc × Decoder σ τ} (h : Progress p) :
    (∃ f, (answer p).1 = .fail f) ∨ 0 < (answer p).2.toRead := by
  obtain ⟨_ | _ | errno, d⟩ := p
  · exact .inr (h.resolve_left (by simp))
  · exact .inr (h.resolve_left (by simp))
  · exact .inl ⟨_, rfl⟩

theorem scan_need {d : Decoder σ τ} (hpos : 0 < d.toRead) (bs : List UInt8) :
    (∃ f, ((zmpReader host).scan d bs).1 = .fail f) ∨
      0 < ((zmpReader host).scan d bs).2.2.toRead := by
  rcases hscan : (zmpReader host).scan d bs with ⟨_ | f | f, used, d'⟩
  · exact .inr ((zmpReader host).need_of_scan_more hpos hscan)
  · exact .inr ((zmpReader host).need_of_scan_emit hscan)
  · exact .inl ⟨f, rfl⟩

theorem retryFrameAdmission_progress (d : Decoder σ τ) : Progress (retryFrameAdmission host d) := by
  rw [retryFrameAdmission]
  split
  · exact .inl ⟨_, rfl⟩
  · exact sizeReady_progress host _ _

def Ready (e : Engine σ τ) : Prop :=
  e.life = .reading → e.failure = none → e.stopped = false → 0 < e.decoder.toRead

theorem absorb_ready (h : (∃ f, r.1 = .fail f) ∨ 0 < r.2.toRead) : Ready (e.absorb rest r) := by
  obtain ⟨_ | f | f, d⟩ := r
  · exact fun _ _ _ => h.resolve_left (by simp)
  · exact fun _ _ _ => h.resolve_left (by simp)
  · rw [absorb]
    split
    · exact fun _ _ hs => absurd hs (by simp)
    · exact fun _ hf => absurd hf (by simp)

def prepend (fs : List Msg) (o : Outcome (Decoder Unit Empty) UInt8 Msg Failure) :
    Outcome (Decoder Unit Empty) UInt8 Msg Failure :=
  { o with frames := fs ++ o.frames }

theorem prepend_after (fs : List Msg) (f : Msg)
    (o : Outcome (Decoder Unit Empty) UInt8 Msg Failure) :
    prepend fs (o.after f) = prepend (fs ++ [f]) o := by
  simp [prepend, Outcome.after]

/-- Where the engine stands in the bare run `o` of its stream. -/
def Stands (o : Outcome (Decoder Unit Empty) UInt8 Msg Failure) (e : Engine σ τ) : Prop :=
  match e.failure, e.stopped with
  | some f, _ => o.frames = e.frames ∧ FailsWith o f e.rest
  | none, true => ∃ q, Suspended e.decoder q ∧ o = prepend e.frames (resume q e.rest)
  | none, false => 0 < e.decoder.toRead ∧
      o = prepend e.frames ((zmpReader plainHost).whole e.decoder.bare e.rest)

/-- The engine is on the track of the bare run as long as it reads, and has
emitted nothing else ever. -/
structure Tracks (o : Outcome (Decoder Unit Empty) UInt8 Msg Failure)
    (e : Engine σ τ) : Prop where
  frames : e.frames <+: o.frames
  stands : e.life = .reading → Stands o e

variable {o : Outcome (Decoder Unit Empty) UInt8 Msg Failure}

theorem Stands.frames (h : Stands o e) : e.frames <+: o.frames := by
  rw [Stands] at h
  split at h
  · rw [h.1]
  · obtain ⟨q, -, rfl⟩ := h
    exact List.prefix_append _ _
  · obtain ⟨-, rfl⟩ := h
    exact List.prefix_append _ _

/-- The result of a call or of a retry leaves the engine where the bare run
stands. -/
theorem absorb_stands {o' : Outcome (Decoder Unit Empty) UInt8 Msg Failure}
    (hf : e.failure = none) (ho : o = prepend e.frames o')
    (hneed : (∃ f, r.1 = .fail f) ∨ 0 < r.2.toRead)
    (hc : Continues o' rest r) : Stands o (e.absorb rest r) := by
  subst ho
  obtain ⟨_ | f | f, d⟩ := r
  · obtain rfl : o' = _ := hc
    simpa [Stands, absorb, hf] using hneed
  · obtain rfl : o' = _ := hc
    rw [prepend_after]
    simpa [Stands, absorb, hf] using hneed
  · rw [Continues] at hc
    rw [absorb]
    split at hc
    case isTrue h =>
      rw [if_pos h]
      obtain ⟨q, hs, rfl⟩ := hc
      simp only [Stands, hf]
      exact ⟨q, hs, rfl⟩
    case isFalse h =>
      rw [if_neg h]
      obtain ⟨hfr, hfail, hrest⟩ := hc
      simp only [Stands]
      exact ⟨by simp [prepend, hfr], hfail, hrest⟩

theorem Stands.congr (h : Stands o e) {d : Decoder σ τ} (delivering : Bool)
    (hbare : d.bare = e.decoder.bare) (hpending : d.pendingMsgSize = e.decoder.pendingMsgSize)
    (hback : d.allocationBackpressured = e.decoder.allocationBackpressured) :
    Stands o { e with decoder := d, delivering := delivering } := by
  have hread : d.bare.toRead = e.decoder.bare.toRead := by rw [hbare]
  have hstage : d.bare.frameStage = e.decoder.bare.frameStage := by rw [hbare]
  rcases hf : e.failure with _ | f
  · rcases hb : e.stopped with _ | _
    · simp only [Stands, hf, hb] at h ⊢
      rw [hbare, show d.toRead = e.decoder.toRead from hread]
      exact h
    · simp only [Stands, hf, hb] at h ⊢
      obtain ⟨q, hs, ho⟩ := h
      exact ⟨q, ⟨hback.trans hs.backpressured, hstage.trans hs.waiting,
        by rw [hbare, hpending]; exact hs.pending⟩, ho⟩
  · simp only [Stands, hf] at h ⊢
    exact h

variable {consume}

theorem releaseFrameReservation_fields (host : Host σ τ) (d : Decoder σ τ) :
    (d.releaseFrameReservation host).bare = d.bare ∧
      (d.releaseFrameReservation host).pendingMsgSize = d.pendingMsgSize ∧
      (d.releaseFrameReservation host).allocationBackpressured = d.allocationBackpressured := by
  rw [releaseFrameReservation]
  split <;> exact ⟨rfl, rfl, rfl⟩

theorem consumeReservation_fields (consume : σ → τ → σ) (d : Decoder σ τ) :
    (consumeReservation consume d).bare = d.bare ∧
      (consumeReservation consume d).pendingMsgSize = d.pendingMsgSize ∧
      (consumeReservation consume d).allocationBackpressured = d.allocationBackpressured := by
  rw [consumeReservation]
  split <;> exact ⟨rfl, rfl, rfl⟩

theorem Ready.step (hv : e.step host consume v = some e') (h : Ready e) : Ready e' := by
  obtain ⟨hg, rfl⟩ := step_eq_some host consume |>.mp hv
  cases v with
  | decode c =>
    have hpos : 0 < (zmpReader host).need e.decoder := h hg.1 hg.2.1 hg.2.2.1
    rw [perform, (zmpReader host).decode_eq_scan hpos]
    exact absorb_ready (scan_need hpos _)
  | retry =>
    exact absorb_ready (answer_need (retryFrameAdmission_progress e.decoder))
  | consume =>
    intro hlife hf hstop
    obtain ⟨hbare, -⟩ :=
      consumeReservation_fields consume e.decoder
    have hread : (consumeReservation consume e.decoder).bare.toRead =
        e.decoder.bare.toRead := by rw [hbare]
    exact hread.symm ▸ h hlife hf hstop
  | discard =>
    intro hlife hf hstop
    obtain ⟨hbare, -⟩ :=
      releaseFrameReservation_fields host e.decoder
    have hread : (e.decoder.releaseFrameReservation host).bare.toRead =
        e.decoder.bare.toRead := by rw [hbare]
    exact hread.symm ▸ h hlife hf hstop
  | configure => exact h
  | streamEnd =>
    rw [perform]
    split <;> exact fun hlife => absurd hlife (by simp)
  | detach | destroy => exact fun hlife => absurd hlife (by simp [perform])

theorem Tracks.step (hp : Patient host)
    (hv : e.step host consume v = some e') (h : Tracks o e) : Tracks o e' := by
  obtain ⟨hg, rfl⟩ := step_eq_some host consume |>.mp hv
  cases v with
  | decode c =>
    obtain ⟨hlife, hf, hstop, -⟩ := hg
    have hs := h.stands hlife
    rw [Stands, hf, hstop] at hs
    obtain ⟨hpos, ho⟩ := hs
    have hc := scan_continues hp e.decoder (e.rest.take c.size) (e.rest.drop c.size)
    rw [List.take_append_drop, Reader.drop_take_append_drop _
      ((zmpReader host).scan_used_le _ _)] at hc
    rw [perform, (zmpReader host).decode_eq_scan (s := e.decoder) hpos]
    have hst := absorb_stands hf ho (scan_need hpos _) hc
    exact ⟨hst.frames, fun _ => hst⟩
  | retry =>
    obtain ⟨hlife, hf, hstop⟩ := hg
    have hs := h.stands hlife
    rw [Stands, hf, hstop] at hs
    obtain ⟨q, hq, ho⟩ := hs
    have hst := absorb_stands hf ho (answer_need (retryFrameAdmission_progress e.decoder))
      (continues_of_follows (retryFrameAdmission_follows hp hq) e.rest)
    exact ⟨hst.frames, fun _ => hst⟩
  | consume =>
    obtain ⟨hbare, hpending, hback⟩ :=
      consumeReservation_fields consume e.decoder
    exact ⟨h.frames, fun hlife =>
      (h.stands hlife).congr false hbare hpending hback⟩
  | discard =>
    obtain ⟨hbare, hpending, hback⟩ :=
      releaseFrameReservation_fields host e.decoder
    exact ⟨h.frames, fun hlife =>
      (h.stands hlife).congr false hbare hpending hback⟩
  | configure =>
    exact ⟨h.frames, fun hlife =>
      (h.stands hlife).congr e.delivering rfl rfl rfl⟩
  | streamEnd =>
    rw [perform]
    split
    all_goals exact ⟨h.frames, fun hlife => absurd hlife (by simp)⟩
  | detach | destroy => exact ⟨h.frames, fun hlife => absurd hlife (by simp [perform])⟩

def bareRun (maxmsgsize : Int64) (stream : List UInt8) :
    Outcome (Decoder Unit Empty) UInt8 Msg Failure :=
  (zmpReader plainHost).whole (Decoder.init maxmsgsize false ()) stream

theorem tracks_init (maxmsgsize : Int64) (attached : Bool) (subject : σ) (stream : List UInt8) :
    Tracks (bareRun maxmsgsize stream) (init maxmsgsize attached subject stream : Engine σ τ) where
  frames := List.nil_prefix
  stands _ := ⟨Nat.zero_lt_succ 7, rfl⟩

/-- An engine that still reads is done when its decoder failed, or when it has
used the whole stream and no frame is held back. -/
def Done (e : Engine σ τ) : Prop :=
  e.life = .reading ∧ (e.failure ≠ none ∨ (e.rest = [] ∧ e.stopped = false))

theorem Tracks.done {maxmsgsize : Int64} {stream : List UInt8}
    (h : Tracks (bareRun maxmsgsize stream) e) (hd : e.Done) :
    e.frames = (bareRun maxmsgsize stream).frames ∧
      (e.failure.map fun f => (f.errno, f.errorCode)) = ((bareRun maxmsgsize stream).failure.map
          fun f => (f.errno, f.errorCode)) ∧
      e.rest = (bareRun maxmsgsize stream).rest := by
  have hs := h.stands hd.1
  rcases hf : e.failure with _ | f
  · obtain ⟨hrest, hstop⟩ := hd.2.resolve_left (not_not.mpr hf)
    rw [Stands, hf, hstop] at hs
    rw [hs.2, hrest]
    simp [prepend]
  · rw [Stands, hf] at hs
    exact ⟨hs.1.symm, hs.2.1.symm, hs.2.2.symm⟩

theorem Tracks.done_state {maxmsgsize : Int64} {stream : List UInt8}
    (h : Tracks (bareRun maxmsgsize stream) e) (hd : e.Done)
    (hf : e.failure = none) : e.decoder.bare = (bareRun maxmsgsize stream).state := by
  obtain ⟨hrest, hstop⟩ := hd.2.resolve_left (not_not.mpr hf)
  have hs := h.stands hd.1
  rw [Stands, hf, hstop] at hs
  rw [hs.2, hrest]
  rfl

theorem retry_cases (consume : σ → τ → σ) (hp : Patient host)
    (hlife : e.life = .reading) (hf : e.failure = none)
    (hstop : e.stopped = true) (hs : Suspended e.decoder q) :
    ∃ e', e.step host consume .retry = some e' ∧ e'.life = .reading ∧ e'.rest = e.rest ∧
      (e'.stopped = false ∨ (e'.failure = none ∧ e'.stopped = true ∧ Suspended e'.decoder q ∧
          host.admission e.decoder.subject e.decoder.pendingMsgSize
            e.decoder.msgFlags = (.refused .eagain, e'.decoder.subject) ∧
          e'.decoder.pendingMsgSize = e.decoder.pendingMsgSize ∧
          e'.decoder.msgFlags = e.decoder.msgFlags)) := by
  refine ⟨_, (step_eq_some host consume).mpr ⟨⟨hlife, hf, hstop⟩, rfl⟩, ?_⟩
  have hretry : retryFrameAdmission host e.decoder =
      sizeReady host e.decoder e.decoder.pendingMsgSize := by
    rw [retryFrameAdmission, if_neg]
    simp [hs.backpressured, hs.waiting]
  have hfollows := retryFrameAdmission_follows hp hs
  rw [perform]
  rcases hr : retryFrameAdmission host e.decoder with ⟨_ | _ | errno, d⟩
  · exact ⟨hlife, rfl, .inl rfl⟩
  · exact ⟨hlife, rfl, .inl rfl⟩
  · by_cases herrno : errno = .eagain
    · subst herrno
      rw [answer, absorb, if_pos rfl]
      rw [hr] at hfollows
      have hsus := (hfollows.resolve_left fun ha => ha.1 rfl).2
      obtain ⟨subject, next, hadmit, rfl⟩ := sizeReady_eagain (hretry ▸ hr)
      exact ⟨hlife, rfl, .inr ⟨hf, rfl, hsus, hadmit, rfl, rfl⟩⟩
    · rw [answer, absorb, if_neg herrno]
      exact ⟨hlife, rfl, .inl rfl⟩

theorem exists_retries (consume : σ → τ → σ) (hp : Patient host) {msgSize : UInt32} {flags : UInt8}
    {s : σ} (hadmits : Admits host msgSize flags s)
    (hlife : e.life = .reading) (hf : e.failure = none)
    (hstop : e.stopped = true) (hs : Suspended e.decoder q) (hsubject : e.decoder.subject = s)
    (hpending : e.decoder.pendingMsgSize = msgSize) (hflags : e.decoder.msgFlags = flags) :
    ∃ n e', run host consume e (List.replicate n .retry) = some e' ∧
      e'.life = .reading ∧ e'.stopped = false ∧ e'.rest = e.rest := by
  induction hadmits generalizing e with
  | now hgranted =>
    obtain ⟨e', hstep, hlife', hrest, hnow | ⟨-, -, -, hrefused, -⟩⟩ :=
      retry_cases consume hp hlife hf hstop hs
    · exact ⟨1, e', by simp [run, hstep], hlife', hnow, hrest⟩
    · rw [hsubject, hpending, hflags, hgranted] at hrefused
      simp at hrefused
  | later hrefused _ ih =>
    obtain ⟨e', hstep, hlife', hrest, hnow | ⟨hf', hstop', hs', hagain, hpending', hflags'⟩⟩ :=
      retry_cases consume hp hlife hf hstop hs
    · exact ⟨1, e', by simp [run, hstep], hlife', hnow, hrest⟩
    · rw [hsubject, hpending, hflags, hrefused] at hagain
      obtain ⟨n, e'', hrun, hlife'', hstop'', hrest''⟩ :=
        ih hlife' hf' hstop' hs' (Prod.mk.inj hagain).2.symm
          (hpending'.trans hpending) (hflags'.trans hflags)
      refine ⟨n + 1, e'', ?_, hlife'', hstop'', hrest''.trans hrest⟩
      rw [List.replicate_succ, run, hstep]
      exact hrun

theorem calls_replicate_retry (n : ℕ) :
    (List.replicate n Event.retry).filterMap Event.call = [] := by
  simp [List.filterMap_replicate, Event.call]

theorem exists_ready (consume : σ → τ → σ) (hp : Patient host)
    (ht : Tracks o e) (hlife : e.life = .reading) : ∃ vs e', run host consume e vs = some e' ∧
      vs.filterMap Event.call = [] ∧ e'.life = .reading ∧ e'.rest = e.rest ∧
      (e'.failure ≠ none ∨ (e'.stopped = false ∧ e'.delivering = false)) := by
  have hresume : ∃ vs e', run host consume e vs = some e' ∧
      vs.filterMap Event.call = [] ∧ e'.life = .reading ∧ e'.rest = e.rest ∧
      (e'.failure ≠ none ∨ e'.stopped = false) := by
    rcases hf : e.failure with _ | f
    · rcases hstop : e.stopped with _ | _
      · exact ⟨[], e, rfl, rfl, hlife, rfl, .inr hstop⟩
      · have hs := ht.stands hlife
        rw [Stands, hf, hstop] at hs
        obtain ⟨q, hsus, -⟩ := hs
        obtain ⟨n, e', hrun, hlife', hstop', hrest⟩ :=
          exists_retries consume hp
            (hp.admits e.decoder.subject _ _) hlife hf hstop hsus rfl rfl rfl
        exact ⟨_, e', hrun, calls_replicate_retry n, hlife', hrest, .inr hstop'⟩
    · exact ⟨[], e, rfl, rfl, hlife, rfl, .inl (by simp [hf])⟩
  obtain ⟨vs, e₁, hrun, hcalls, hlife₁, hrest, hstate⟩ := hresume
  rcases hf : e₁.failure with _ | f
  · have hstop := hstate.resolve_left (not_not.mpr hf)
    rcases hdel : e₁.delivering with _ | _
    · exact ⟨vs, e₁, hrun, hcalls, hlife₁, hrest, .inr ⟨hstop, hdel⟩⟩
    · have hstep : e₁.step host consume .consume =
          some (e₁.perform host consume .consume) :=
        (step_eq_some host consume).mpr ⟨⟨hlife₁, hf, hdel⟩, rfl⟩
      refine ⟨vs ++ [.consume], e₁.perform host consume .consume,
        run_append host consume hrun (by rw [run, hstep]; rfl), ?_, hlife₁,
        hrest, .inr ⟨hstop, rfl⟩⟩
      simp [hcalls, Event.call]
  · exact ⟨vs, e₁, hrun, hcalls, hlife₁, hrest, .inl (by simp [hf])⟩

/-- However the stream is to be cut into calls, the retries that the session asks
for lead the engine to its end. -/
theorem exists_done (consume : σ → τ → σ) (hp : Patient host)
    {o : Outcome (Decoder Unit Empty) UInt8 Msg Failure} {e : Engine σ τ}
    (ht : Tracks o e) (hlife : e.life = .reading) (calls : List Call)
    (hsize : ∀ c ∈ calls, 0 < c.size) (hlen : e.rest.length ≤ calls.length) :
    ∃ vs e', run host consume e vs = some e' ∧ vs.filterMap Event.call <+: calls ∧ e'.Done := by
  induction calls generalizing e with
  | nil =>
    obtain ⟨vs, e', hrun, hcalls, hlife', hrest, hstate⟩ :=
      exists_ready consume hp ht hlife
    refine ⟨vs, e', hrun, by rw [hcalls], hlife', ?_⟩
    have hnil : e'.rest = [] := by
      rw [hrest]
      exact List.length_eq_zero_iff.mp (Nat.le_zero.mp hlen)
    exact hstate.imp_right fun h => ⟨hnil, h.1⟩
  | cons c cs ih =>
    obtain ⟨vs, e₁, hrun, hcalls, hlife₁, hrest, hstate⟩ :=
      exists_ready consume hp ht hlife
    rcases hf : e₁.failure with _ | f
    · obtain ⟨hstop, hdel⟩ := hstate.resolve_left (not_not.mpr hf)
      have hstep : e₁.step host consume (.decode c) =
          some (e₁.perform host consume (.decode c)) :=
        (step_eq_some host consume).mpr ⟨⟨hlife₁, hf, hstop, hdel⟩, rfl⟩
      have ht₁ : Tracks o e₁ :=
        run_induct host consume (fun hv h => h.step hp hv) hrun ht
      have ht₂ := ht₁.step hp hstep
      have hlife₂ : (e₁.perform host consume (.decode c)).life = .reading := by
        rw [perform]
        exact absorb_life.trans hlife₁
      have hpos : 0 < (zmpReader host).need e₁.decoder := by
        have hs := ht₁.stands hlife₁
        rw [Stands, hf, hstop] at hs
        exact hs.1
      have hlen₂ : (e₁.perform host consume (.decode c)).rest.length ≤
          cs.length := by
        rw [perform, (zmpReader host).decode_eq_scan hpos, absorb_rest, List.length_drop]
        rw [List.length_cons, ← hrest] at hlen
        by_cases hnil : e₁.rest = []
        · simp [hnil]
        · have hc : 0 < c.size := hsize c (by simp)
          have hused : 0 < ((zmpReader host).scan e₁.decoder (e₁.rest.take c.size)).2.1 :=
            (zmpReader host).scan_used_pos (by simp [List.take_eq_nil_iff, hnil]; omega)
          have hle : e₁.rest.length - ((zmpReader host).scan e₁.decoder
              (e₁.rest.take c.size)).2.1 ≤ cs.length := by omega
          exact hle
      obtain ⟨ws, e', hrun', hcalls', hdone⟩ :=
        ih ht₂ hlife₂ (fun c' hc' => hsize c' (by simp [hc'])) hlen₂
      refine ⟨vs ++ .decode c :: ws, e', run_append host consume hrun ?_, ?_, hdone⟩
      · rw [run, hstep]
        exact hrun'
      · rw [List.filterMap_append, hcalls, List.nil_append,
          List.filterMap_cons_some (f := Event.call) rfl]
        exact List.prefix_cons_inj c |>.mpr hcalls'
    · exact ⟨vs, e₁, hrun, by rw [hcalls]; exact List.nil_prefix, hlife₁,
        .inl (by simp [hf])⟩

end Engine

end Zlink.Protocol
