import Zlink.Protocol.Grammar

/-!
# The round trip of frames

Messages go through an encoder, as bytes in buffers of any size, and through a
decoder under a session, in chunks of any size. What arrives are the same frames.
-/

namespace Zlink.Protocol

open Framing Emission

inductive FrameKind where
  | data
  | command
  | routingId
  | subscribe
  | cancel
  deriving DecidableEq

structure Frame where
  payload : List UInt8
  more : Bool
  kind : Option FrameKind
  requestReply : Option (UInt8 × UInt64)
  deriving DecidableEq

namespace Msg

def kind (flags : UInt8) : Option FrameKind :=
  let flags := flags &&& ~~~(credential ||| shared)
  if flags = 0 ∨ flags = more then some .data
  else if flags = command then some .command
  else if flags = routingId then some .routingId
  else if flags = subscribe then some .subscribe
  else if flags = cancel then some .cancel
  else none

def frame (m : Msg) : Frame :=
  { payload := m.data
    more := hasAny m.flags more
    kind := kind m.flags
    requestReply := m.requestReply }

theorem kind_spec (flags : UInt8) (h : kind flags ≠ none) :
    Decoder.wireFlagsRefused (wireFlagsOfMsg flags) = false ∧
      hasAny flags specialFlags = decide (kind flags ≠ some .data) ∧
      zmpIsSpecialFrame (wireFlagsOfMsg flags) = decide (kind flags ≠ some .data) ∧
      kind (Decoder.msgFlagsOfWire (wireFlagsOfMsg flags)) = kind flags ∧
      hasAny (Decoder.msgFlagsOfWire (wireFlagsOfMsg flags)) more = hasAny flags more := by
  revert flags
  apply forall_uint8
  decide +kernel

theorem frame_decoded {m : Msg} (h : kind m.flags ≠ none) : m.decoded.frame = m.frame := by
  obtain ⟨-, -, -, hkind, hmore⟩ := kind_spec m.flags h
  simp only [frame, decoded, hkind, hmore]

end Msg

/-- The sequences of frames that the protocol knows, for a receiver with the given
limit: whole application messages, with metadata on their first frame only, and
single frames of the other kinds between them. `multipart` tells that an
application message is open, and `total` is what its frames add up to. -/
inductive WellFormed (maxmsgsize : Int64) : Bool → ℕ → List Msg → Prop where
  | nil : WellFormed maxmsgsize false 0 []
  | special {k : FrameKind} {m : Msg} {ms : List Msg} :
      Msg.kind m.flags = some k → k ≠ .data → m.requestReply = none →
      m.Fits maxmsgsize 0 →
      WellFormed maxmsgsize false 0 ms →
      WellFormed maxmsgsize false 0 (m :: ms)
  | part {multipart : Bool} {total : ℕ} {m : Msg} {ms : List Msg} : Msg.kind m.flags = some .data →
      (∀ kind sequence, m.requestReply = some (kind, sequence) →
        multipart = false ∧ zmpIsRequestReplyKind kind = true ∧ sequence ≠ 0) →
      m.Fits maxmsgsize total →
      WellFormed maxmsgsize (hasAny m.flags Msg.more)
        (if hasAny m.flags Msg.more then total + m.data.length else 0) ms →
      WellFormed maxmsgsize multipart total (m :: ms)

theorem Msg.Fits.length_le {maxmsgsize : Int64} {total : ℕ} {m : Msg}
    (h : m.Fits maxmsgsize total) : m.data.length ≤ 0xffffffff :=
  h.1.trans (Nat.le_of_lt_succ (UInt32.toNat_lt _))

open Engine Decoder

/-- One well-formed frame: the encoder accepts it and the decoder lets it pass,
and the trackers of both go on as the sequence does. -/
theorem frame_step {maxmsgsize : Int64} {multipart : Bool} {total : ℕ}
    {m : Msg} {k : FrameKind} (hkind : Msg.kind m.flags = some k)
    (hopen : multipart = true → k = .data ∧ m.requestReply = none)
    (hmeta : ∀ kind sequence, m.requestReply = some (kind, sequence) →
      k = .data ∧ zmpIsRequestReplyKind kind = true ∧ sequence ≠ 0)
    (hfits : m.Fits maxmsgsize total) {d : Decoder Unit Empty}
    (hd : AtBoundary maxmsgsize multipart total d) (ms : List Msg) :
    ∃ d', AtBoundary maxmsgsize (m.multipartAfter multipart) (m.wireTotalAfter total) d' ∧
      (zmpReader plainHost).whole d (wireImage multipart (m :: ms)) =
        ((zmpReader plainHost).whole d'
          (wireImage (m.multipartAfter multipart) ms)).after m.decoded := by
  obtain ⟨href, hspecial, hwire, -, -⟩ :=
    Msg.kind_spec m.flags (by rw [hkind]; simp)
  rw [hkind] at hspecial hwire
  have hisSpecial : m.isSpecial = decide (some k ≠ some .data) := hspecial
  have hacc : m.accepted multipart = true := by
    rw [Msg.accepted_iff]
    refine ⟨hfits.length_le, ?_, ?_⟩
    · rw [Msg.requestReplyOk]
      split
      case h_1 => rfl
      case h_2 kind sequence hrr =>
        obtain ⟨rfl, hk, hseq⟩ := hmeta kind sequence hrr
        simp [hk, hseq, hwire]
    · intro hmulti
      obtain ⟨rfl, hnone⟩ := hopen hmulti
      exact ⟨by simp [hisSpecial], hnone⟩
  have htracker : m.wireMultipartAfter multipart = m.multipartAfter multipart := by
    rw [Msg.wireMultipartAfter, Msg.multipartAfter, hwire, hisSpecial]
  obtain ⟨d', hd', hframe⟩ := hd.whole_frame hacc ⟨href, hfits⟩
  rw [htracker] at hd'
  refine ⟨d', hd', ?_⟩
  rw [wireImage, if_pos hacc]
  exact hframe _

theorem WellFormed.whole {maxmsgsize : Int64} {multipart : Bool} {total : ℕ}
    {ms : List Msg} (h : WellFormed maxmsgsize multipart total ms)
    {d : Decoder Unit Empty} (hd : AtBoundary maxmsgsize multipart total d) :
    ∃ d', AtBoundary maxmsgsize false 0 d' ∧
      (zmpReader plainHost).whole d (wireImage multipart ms) =
        ⟨ms.map Msg.decoded, none, [], d'⟩ := by
  induction h generalizing d with
  | nil => exact ⟨d, hd, rfl⟩
  | @special k m ms hkind hk hrr hfits _ ih =>
    obtain ⟨-, hspecial, hwire, -, -⟩ :=
      Msg.kind_spec m.flags (by rw [hkind]; simp)
    have hflag : m.multipartAfter false = false := by
      rw [Msg.multipartAfter, Msg.isSpecial, hspecial, hkind]
      simp [hk]
    have htotal : m.wireTotalAfter 0 = 0 := by
      rw [Msg.wireTotalAfter, hwire, hkind]
      simp [hk]
    obtain ⟨d₁, hd₁, hstep⟩ := frame_step hkind (by simp) (by simp [hrr]) hfits hd ms
    rw [hflag, htotal] at hd₁
    rw [hflag] at hstep
    obtain ⟨d', hd', hwhole⟩ := ih hd₁
    exact ⟨d', hd', by rw [hstep, hwhole]; rfl⟩
  | @part multipart total m ms hkind hmeta hfits _ ih =>
    obtain ⟨-, hspecial, hwire, -, -⟩ :=
      Msg.kind_spec m.flags (by rw [hkind]; simp)
    have hflag : m.multipartAfter multipart = hasAny m.flags Msg.more := by
      rw [Msg.multipartAfter, Msg.isSpecial, hspecial, hkind]
      simp
    have htotal : m.wireTotalAfter total =
        if hasAny m.flags Msg.more then total + m.data.length else 0 := by
      rw [Msg.wireTotalAfter, hwire, hkind]
      simp
    have hnone : multipart = true → m.requestReply = none := by
      intro hmulti
      by_contra hsome
      obtain ⟨⟨kind, sequence⟩, hrr⟩ := Option.ne_none_iff_exists'.mp hsome
      exact absurd (hmeta kind sequence hrr).1 (by simp [hmulti])
    obtain ⟨d₁, hd₁, hstep⟩ := frame_step hkind (fun hmulti => ⟨rfl, hnone hmulti⟩)
      (fun kind sequence hrr => ⟨rfl, (hmeta kind sequence hrr).2⟩)
      hfits hd ms
    rw [hflag, htotal] at hd₁
    rw [hflag] at hstep
    obtain ⟨d', hd', hwhole⟩ := ih hd₁
    exact ⟨d', hd', by rw [hstep, hwhole]; rfl⟩

theorem WellFormed.kind_ne_none {maxmsgsize : Int64} {multipart : Bool}
    {total : ℕ} {ms : List Msg} (h : WellFormed maxmsgsize multipart total ms) :
    ∀ m ∈ ms, Msg.kind m.flags ≠ none := by
  induction h with
  | nil => simp
  | special hkind _ _ _ _ ih | part hkind _ _ _ ih => simpa [hkind] using ih

theorem streamEnd_of_atBoundary {σ τ : Type} {host : Host σ τ}
    {maxmsgsize : Int64} {total : ℕ} {d : Decoder σ τ}
    (h : AtBoundary maxmsgsize false total d.bare) : (d.streamEnd host).1 = .more := by
  have hstage : d.frameStage = .readingBaseHeader := h.frameStage
  have hneed : d.toRead = zmpHeaderSize := h.toRead
  have hflag : d.applicationMultipartInProgress = false := h.multipart_eq
  rw [streamEnd, if_pos ⟨hstage, hneed, hflag⟩]

/-- Well-formed messages go through encoder and decoder unchanged. Whatever
buffers the encoder is given, enough of them drain it; and however its bytes are
then cut into calls of a decoder whose session admits every frame in the end, the
decoder can be led to the end of the bytes, and wherever it gets there it has
emitted the frames that were sent, without an error or a byte left over, and takes
the end of the stream. -/
theorem roundTrip {σ τ : Type} {host : Host σ τ} (hp : Patient host)
    (consume : σ → τ → σ) (maxmsgsize : Int64) (attached : Bool) (subject : σ)
    {bufsize : ℕ} (hbuf : 0 < bufsize) {ms : List Msg} (hwf : WellFormed maxmsgsize false 0 ms) :
    (∀ buffers : List Writer.Buffer, (∀ b ∈ buffers, b ≠ some 0) →
      (wireImage false ms).length + ms.length ≤ buffers.length → ∃ vs bytes w,
        (Encoder.init bufsize).emit zmpMachine vs = some (bytes, w) ∧
        vs.filterMap Emission.Event.msg = ms ∧ vs.filterMap Emission.Event.buffer <+: buffers ∧
        w.inProgress = none) ∧
    ∀ vs bytes w, (Encoder.init bufsize).emit zmpMachine vs = some (bytes, w) →
      vs.filterMap Emission.Event.msg = ms → w.inProgress = none →
      (∀ calls : List Call, (∀ c ∈ calls, 0 < c.size) → bytes.length ≤ calls.length → ∃ events e,
          run host consume (Engine.init maxmsgsize attached subject bytes) events = some e ∧
          events.filterMap Event.call <+: calls ∧ e.Done) ∧ ∀ events e,
        run host consume (Engine.init maxmsgsize attached subject bytes) events = some e → e.Done →
        e.frames.map Msg.frame = ms.map Msg.frame ∧ e.failure = none ∧
          e.rest = [] ∧ (e.decoder.streamEnd host).1 = .more := by
  refine ⟨fun buffers hbuffers hlen => ?_, ?_⟩
  · exact Writer.exists_drained zmpMachine buffers hbuffers ms hbuf (by
        have hcost : (Encoder.init bufsize).cost zmpMachine = 0 := rfl
        have howes : ((Encoder.init bufsize).owes zmpMachine).1 =
            EncoderState.init := rfl
        rw [hcost, howes, drainAll_init, Nat.zero_add]
        exact hlen)
  · rintro vs bytes w hemit hmsgs hidle
    have hbytes := emit_eq_wireImage hemit hidle
    rw [hmsgs] at hbytes
    subst hbytes
    have htracks := tracks_init (τ := τ) maxmsgsize attached subject (wireImage false ms)
    refine ⟨fun calls hsize hlen => ?_, fun events e hrun hdone => ?_⟩
    · exact exists_done consume hp htracks rfl calls hsize hlen
    · have he : Tracks (bareRun maxmsgsize (wireImage false ms)) e :=
        run_induct host consume (fun hv h => h.step hp hv) hrun htracks
      obtain ⟨d, hd, hwhole⟩ := hwf.whole (atBoundary_init maxmsgsize)
      have hbare : bareRun maxmsgsize (wireImage false ms) =
          ⟨ms.map Msg.decoded, none, [], d⟩ := hwhole
      obtain ⟨hframes, hfailure, hrest⟩ := he.done hdone
      rw [hbare] at hframes hfailure hrest
      have hnone : e.failure = none := by simpa using hfailure
      have hstate : e.decoder.bare = d := by
        rw [he.done_state hdone hnone, hbare]
      rw [← hstate] at hd
      refine ⟨?_, hnone, hrest, streamEnd_of_atBoundary hd⟩
      rw [hframes, List.map_map]
      apply List.map_congr_left
      intro m hm
      exact Msg.frame_decoded (hwf.kind_ne_none m hm)

/-- A request of two frames and a command, through buffers of three bytes and
chunks of one. -/
theorem roundTrip_requestAndCommand : ∃ vs bytes w events e,
      (Encoder.init 3).emit zmpMachine vs = some (bytes, w) ∧
      vs.filterMap Emission.Event.msg =
        [⟨Msg.more, [7], some (zmpKindRequest, 9)⟩, ⟨0, [], none⟩, ⟨Msg.command, [1, 2], none⟩] ∧
      run plainHost (fun s _ => s) (Engine.init (-1) false () bytes) events =
        some e ∧
      e.frames.map Msg.frame =
        [⟨[7], true, some .data, some (zmpKindRequest, 9)⟩, ⟨[], false, some .data, none⟩,
          ⟨[1, 2], false, some .command, none⟩] ∧
      e.failure = none ∧ e.rest = [] := by
  have hwf : WellFormed (-1) false 0 [⟨Msg.more, [7], some (zmpKindRequest, 9)⟩, ⟨0, [], none⟩,
        ⟨Msg.command, [1, 2], none⟩] := by
    refine .part (by decide) ?_ (by decide) ?_
    · rintro kind sequence hrr
      obtain ⟨rfl, rfl⟩ := Prod.mk.inj (Option.some.inj hrr)
      decide
    refine .part (by decide) (by simp) (by decide) ?_
    exact .special (k := .command) (by decide) (by decide) rfl (by decide) .nil
  have htrip := roundTrip plainHost_patient (fun s _ => s) (-1) false () (Nat.zero_lt_succ 2) hwf
  obtain ⟨vs, bytes, w, hemit, hmsgs, -, hidle⟩ :=
    htrip.1 (List.replicate 100 (some 3)) (by decide) (by decide)
  obtain ⟨hdone, hresult⟩ := htrip.2 vs bytes w hemit hmsgs hidle
  obtain ⟨events, e, hrun, -, he⟩ :=
    hdone (List.replicate bytes.length ⟨1, false⟩) (by simp) (by simp)
  obtain ⟨hframes, hfailure, hrest, -⟩ := hresult events e hrun he
  refine ⟨vs, bytes, w, events, e, hemit, hmsgs, hrun, ?_, hfailure, hrest⟩
  rw [hframes]
  decide

end Zlink.Protocol
