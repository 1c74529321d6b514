import Zlink.Protocol.Encoder
import Zlink.Protocol.Limits

/-!
# The grammar of the encoder and of the decoder

The encoder tells special frames by the flags of the message, the decoder by the
flags on the wire. This module follows one frame from the header that the encoder
builds through the actions of the decoder, and compares the two trackers of the
open application message along any sequence of messages.
-/

namespace Zlink.Protocol

open Framing

theorem forall_uint8 {p : UInt8 → Prop}
    (h : ∀ i : Fin 256, p (UInt8.ofFin i)) (b : UInt8) : p b := by
  have hb : UInt8.ofFin b.toFin = b := rfl
  exact hb ▸ h b.toFin

theorem special_of_wire (flags : UInt8) : zmpIsSpecialFrame (wireFlagsOfMsg flags) = true →
      hasAny flags Msg.specialFlags = true := by
  revert flags
  apply forall_uint8
  decide +kernel

theorem wireFlagsOfMsg_more (flags : UInt8) :
    hasAny (wireFlagsOfMsg flags) zmpFlagMore = hasAny flags Msg.more := by
  revert flags
  apply forall_uint8
  decide +kernel

theorem msgFlagsOfWire_wireFlagsOfMsg_command (flags : UInt8) :
    hasAny (Decoder.msgFlagsOfWire (wireFlagsOfMsg flags)) Msg.command =
      hasAny flags Msg.command := by
  revert flags
  apply forall_uint8
  decide +kernel

namespace Engine

open Decoder

theorem whole_exact {d : Decoder Unit Empty} {as : List UInt8}
    (hpos : 0 < d.toRead) (hlen : as.length = d.toRead) (rest : List UInt8) :
    (zmpReader plainHost).whole d (as ++ rest) = resume (runNext plainHost (d.store as)) rest := by
  have hzero : (zmpReader plainHost).need (d.store as) = 0 := by
    rw [← hlen] at hpos
    simp [zmpReader, hlen]
  have hscan := (zmpReader plainHost).scan_of_eq (s := d) hpos hlen []
  have hact : (zmpReader plainHost).act (d.store as) =
      answer (runNext plainHost (d.store as)) := rfl
  rw [List.append_nil] at hscan
  rw [Reader.whole_append, hscan]
  have hstore : (zmpReader plainHost).store d as = d.store as := rfl
  rw [hstore, Reader.settle_of_zero _ hzero, hact, resume]
  rcases answer (runNext plainHost (d.store as)) with ⟨_ | f | f, d'⟩ <;>
    simp [Reader.scan_nil]

theorem resume_startPayload {d : Decoder Unit Empty} {msgSize : UInt32}
    {payload : List UInt8} (hempty : d.inProgress.data = [])
    (hlen : payload.length = msgSize.toNat) (rest : List UInt8) :
    resume (d.startPayload msgSize) (payload ++ rest) = ((zmpReader plainHost).whole ({ d with
          inProgress := { d.inProgress with data := payload } } :
          Decoder Unit Empty).completeFrame rest).after { d.inProgress with data := payload } := by
  rw [startPayload]
  split
  case isTrue h0 =>
    have hnil : payload = [] := by
      rw [← List.length_eq_zero_iff, hlen, h0]
      rfl
    subst hnil
    have hmsg : { d.inProgress with data := [] } = d.inProgress := by
      rw [← hempty]
    rw [hmsg]
    rfl
  case isFalse h0 =>
    have hpos : 0 < msgSize.toNat :=
      Nat.pos_of_ne_zero fun h => h0 (UInt32.toNat_inj.mp h)
    have hwhole := whole_exact (d := { d with
        frameStage := .readingPayload
        next := .bodyReady
        toRead := msgSize.toNat }) hpos hlen rest
    refine hwhole.trans ?_
    simp [runNext, store, bodyReady, resume, answer, completeFrame, hempty]

end Engine

namespace Decoder

theorem headerReady_headerBytes {d : Decoder Unit Empty} {flags kind : UInt8}
    {size : UInt32} (htmp : d.tmpbuf = headerBytes flags kind size none)
    (hkind : kind = zmpKindData ∨ zmpIsRequestReplyKind kind = true) :
    headerReady plainHost d =
      if wireFlagsRefused flags then
        failProtocol plainHost
          { d with
            errorCode := 0
            wireKind := kind
            wireFlags := flags } zmpErrorFlagsInvalid
      else if zmpIsRequestReplyKind kind then
        (.more,
          { d.parsed with
            frameStage := .readingSequenceExtension
            next := .sequenceReady
            toRead := zmpRequestSequenceSize })
      else validateHeaderAndAdmit plainHost d.parsed := by
  have hvalid : (kind != zmpKindData && !zmpIsRequestReplyKind kind) = false := by
    rcases hkind with rfl | h
    · rfl
    · simp [h]
  have hmagic : d.tmpbuf.getD 0 0 = zmpMagic := by rw [htmp]; rfl
  have hversion : d.tmpbuf.getD 1 0 = zmpVersion := by rw [htmp]; rfl
  have hflags : d.tmpbuf.getD 2 0 = flags := by rw [htmp]; rfl
  have hbyte : d.tmpbuf.getD 3 0 = kind := by rw [htmp]; rfl
  simp only [headerReady, parsed, byteAt, hmagic, hversion, hflags, hbyte,
    hvalid, ne_eq, not_true_eq_false, if_false, Bool.false_eq_true]

theorem validateHeaderAndAdmit_of_nesting {d : Decoder Unit Empty}
    (hspecial : zmpIsRequestReplyKind d.wireKind = true → zmpIsSpecialFrame d.wireFlags = false)
    (hopen : d.applicationMultipartInProgress = true → zmpIsSpecialFrame d.wireFlags = false ∧
        zmpIsRequestReplyKind d.wireKind = false) : validateHeaderAndAdmit plainHost d =
      sizeReady plainHost d.atAdmission (getUint32 (d.tmpbuf.drop 4)) := by
  simp only [validateHeaderAndAdmit]
  rw [if_neg, if_neg]
  · rfl
  · rw [Bool.and_eq_true, Bool.or_eq_true]
    rintro ⟨hm, hs | hr⟩
    · simp [(hopen hm).1] at hs
    · simp [(hopen hm).2] at hr
  · rw [Bool.and_eq_true]
    rintro ⟨hr, hs⟩
    simp [hspecial hr] at hs

def SizeOk (d : Decoder Unit Empty) (size : ℕ) : Prop :=
  size ≤ d.frameLimit.toNat ∧
    (zmpIsSpecialFrame d.wireFlags = false → d.applicationMultipartPayloadSize.toNat + size ≤
        d.maxApplicationMessageSize.toNat)

theorem sizeReady_of_not_sizeOk {d : Decoder Unit Empty} {msgSize : UInt32}
    (h : ¬d.SizeOk msgSize.toNat) : (sizeReady plainHost d msgSize).1 = .error .emsgsize := by
  rw [sizeReady]
  split
  case isTrue => rfl
  case isFalse hlimit =>
    split
    case h_1 => rfl
    case h_2 next hnext =>
      rw [UInt32.not_lt, UInt32.le_iff_toNat_le] at hlimit
      rcases payloadSizeAfter_cases hnext with ⟨hs, -⟩ | ⟨-, hle, -⟩
      · exact absurd ⟨hlimit, fun hns => by simp [hs] at hns⟩ h
      · exact absurd ⟨hlimit, fun _ => hle⟩ h

theorem allocateMessage_plainHost {d : Decoder Unit Empty} {msg : Msg}
    (hmsg : d.headerMsg = some msg) (msgSize : UInt32) : allocateMessage plainHost d msgSize =
      (d.admitted () d.frameReservation msg).startPayload msgSize := by
  have hhost : plainHost.allocate d.subject msgSize = (true, ()) := rfl
  have hmsg' : headerMsg { d with
      allocationBackpressured := false
      pendingMsgSize := 0
      subject := () } = some msg := hmsg
  simp only [allocateMessage, hhost, openMessage]
  rw [hmsg']
  rfl

theorem sizeReady_of_sizeOk {d : Decoder Unit Empty} {msgSize : UInt32}
    {msg : Msg} (hattached : d.attached = false)
    (hmsg : d.headerMsg = some msg) (h : d.SizeOk msgSize.toNat) :
    ∃ next : UInt64,
      next.toNat = (if zmpIsSpecialFrame d.wireFlags then
        d.applicationMultipartPayloadSize.toNat
        else if hasAny d.wireFlags zmpFlagMore then
          d.applicationMultipartPayloadSize.toNat + msgSize.toNat
        else 0) ∧
      sizeReady plainHost d msgSize =
        ({ d with nextApplicationMultipartPayloadSize := next }.admitted ()
          d.frameReservation msg).startPayload msgSize := by
  have hlimit : ¬d.frameLimit < msgSize := by
    rw [UInt32.not_lt, UInt32.le_iff_toNat_le]
    exact h.1
  rcases hnext : d.payloadSizeAfter msgSize with _ | next
  · obtain ⟨hs, hlt⟩ := lt_of_payloadSizeAfter_none hnext
    have hle := h.2 hs
    omega
  · refine ⟨next, ?_, ?_⟩
    · rcases payloadSizeAfter_cases hnext with ⟨hs, rfl⟩ | ⟨hs, -, hval⟩
      · rw [if_pos hs]
      · simpa [hs] using hval
    · have hask : ¬(!hasAny d.msgFlags Msg.command && d.attached) = true := by
        simp [hattached]
      rw [sizeReady, if_neg hlimit, hnext]
      simp only [requestAdmission]
      rw [if_neg hask]
      apply allocateMessage_plainHost
      exact hmsg

end Decoder

namespace Msg

/-- The frame that arrives for a message: of its flags only those are left that
go over the wire. -/
def decoded (m : Msg) : Msg :=
  { m with flags := Decoder.msgFlagsOfWire (wireFlagsOfMsg m.flags) }

def wireKind (m : Msg) : UInt8 :=
  m.requestReply.elim zmpKindData Prod.fst

/-- The sizes that a decoder lets pass when `total` bytes of an application
message went before. -/
def Fits (maxmsgsize : Int64) (total : ℕ) (m : Msg) : Prop :=
  m.data.length ≤ (if hasAny m.flags command then zmpMaxControlBodySize
        else computeEffectiveMax maxmsgsize).toNat ∧
    (zmpIsSpecialFrame (wireFlagsOfMsg m.flags) = false → total + m.data.length ≤
        (computeApplicationMessageMax maxmsgsize).toNat)

instance (maxmsgsize : Int64) (total : ℕ) (m : Msg) : Decidable (m.Fits maxmsgsize total) :=
  instDecidableAnd

/-- The decoder's tracker of the open application message, after a message. -/
def wireMultipartAfter (multipart : Bool) (m : Msg) : Bool :=
  if zmpIsSpecialFrame (wireFlagsOfMsg m.flags) then multipart
  else hasAny m.flags more

def wireTotalAfter (total : ℕ) (m : Msg) : ℕ :=
  if zmpIsSpecialFrame (wireFlagsOfMsg m.flags) then total
  else if hasAny m.flags more then total + m.data.length
  else 0

theorem accepted_iff {multipart : Bool} {m : Msg} : m.accepted multipart = true ↔
      m.data.length ≤ 0xffffffff ∧ m.requestReplyOk = true ∧
        (multipart = true → m.isSpecial = false ∧ m.requestReply = none) := by
  rcases multipart with _ | _ <;> simp [accepted, and_assoc]

end Msg

namespace Engine

open Decoder

/-- The decoder stands between two frames; `multipart` and `total` are its
tracker of the open application message. -/
structure AtBoundary (maxmsgsize : Int64) (multipart : Bool) (total : ℕ)
    (d : Decoder Unit Empty) : Prop where
  tmpbuf : d.tmpbuf = []
  next : d.next = .headerReady
  toRead : d.toRead = zmpHeaderSize
  frameStage : d.frameStage = .readingBaseHeader
  attached : d.attached = false
  frameMax : d.maxMsgSizeEffective = computeEffectiveMax maxmsgsize
  messageMax : d.maxApplicationMessageSize = computeApplicationMessageMax maxmsgsize
  multipart_eq : d.applicationMultipartInProgress = multipart
  total_eq : d.applicationMultipartPayloadSize.toNat = total

structure HasRead (maxmsgsize : Int64) (multipart : Bool) (total : ℕ)
    (m : Msg) (d : Decoder Unit Empty) : Prop where
  size : getUint32 (d.tmpbuf.drop 4) = UInt32.ofNat m.data.length
  wireFlags : d.wireFlags = wireFlagsOfMsg m.flags
  msgFlags : d.msgFlags = msgFlagsOfWire (wireFlagsOfMsg m.flags)
  wireKind : d.wireKind = m.wireKind
  sequence : d.requestSequence = (m.requestReply.map Prod.snd).getD 0
  attached : d.attached = false
  frameMax : d.maxMsgSizeEffective = computeEffectiveMax maxmsgsize
  messageMax : d.maxApplicationMessageSize = computeApplicationMessageMax maxmsgsize
  multipart_eq : d.applicationMultipartInProgress = multipart
  total_eq : d.applicationMultipartPayloadSize.toNat = total

theorem atBoundary_init (maxmsgsize : Int64) :
    AtBoundary maxmsgsize false 0 (Decoder.init maxmsgsize false ()) := by
  constructor <;> rfl

variable {maxmsgsize : Int64} {multipart : Bool} {total : ℕ} {m : Msg}
  {d : Decoder Unit Empty}

theorem resume_error {q : Rc × Decoder Unit Empty} {errno : Errno}
    (h : q.1 = .error errno) (rest : List UInt8) : (resume q rest).failure ≠ none := by
  obtain ⟨rc, d⟩ := q
  obtain rfl : rc = .error errno := h
  simp [resume, answer]

theorem getUint32_headerBytes (flags kind : UInt8) (size : UInt32) (sequence : Option UInt64) :
    getUint32 ((headerBytes flags kind size sequence).drop 4) = size := by
  simp [headerBytes]

theorem AtBoundary.whole_base (hd : AtBoundary maxmsgsize multipart total d)
    {base : List UInt8} (hlen : base.length = zmpHeaderSize) (rest : List UInt8) :
    (zmpReader plainHost).whole d (base ++ rest) =
      resume (headerReady plainHost { d with tmpbuf := base, toRead := 0 }) rest := by
  have hpos : 0 < d.toRead := by
    rw [hd.toRead]
    exact Nat.zero_lt_succ 7
  rw [whole_exact hpos (hlen.trans hd.toRead.symm)]
  simp [store, runNext, hd.next, hd.tmpbuf, hd.toRead, hlen]

theorem AtBoundary.hasRead_parsed (hd : AtBoundary maxmsgsize multipart total d)
    (hnone : m.requestReply = none) : HasRead maxmsgsize multipart total m
      ({ d with tmpbuf := m.header, toRead := 0 } : Decoder Unit Empty).parsed where
  size := getUint32_headerBytes _ _ _ _
  wireFlags := rfl
  msgFlags := rfl
  wireKind := rfl
  sequence := by
    rw [hnone]
    rfl
  attached := hd.attached
  frameMax := hd.frameMax
  messageMax := hd.messageMax
  multipart_eq := hd.multipart_eq
  total_eq := hd.total_eq

theorem whole_sequence {sequence : UInt64} (hseq : sequence ≠ 0) (hnext : d.next = .sequenceReady)
    (hneed : d.toRead = zmpRequestSequenceSize)
    (hlen : d.tmpbuf.length = zmpHeaderSize) (rest : List UInt8) :
    (zmpReader plainHost).whole d (putUint64 sequence ++ rest) =
      resume (validateHeaderAndAdmit plainHost
        { d with
          tmpbuf := d.tmpbuf ++ putUint64 sequence
          toRead := 0
          requestSequence := sequence }) rest := by
  have hpos : 0 < d.toRead := by
    rw [hneed]
    exact Nat.zero_lt_succ 7
  have hdrop : (d.tmpbuf ++ putUint64 sequence).drop zmpHeaderSize = putUint64 sequence := by
    rw [← hlen, List.drop_left]
  have hget : getUint64 (putUint64 sequence) = sequence := by
    have h := getUint64_putUint64_append sequence []
    rwa [List.append_nil] at h
  have hfill : (putUint64 sequence).length = d.toRead := hneed.symm
  rw [whole_exact hpos hfill]
  simp [store, runNext, hnext, sequenceReady, hdrop, hget, hseq, hneed, zmpRequestSequenceSize]

theorem AtBoundary.whole_header (hd : AtBoundary maxmsgsize multipart total d)
    (hok : m.requestReplyOk = true) : (wireFlagsRefused (wireFlagsOfMsg m.flags) = true ∧
        ∀ rest, ((zmpReader plainHost).whole d (m.header ++ rest)).failure ≠ none) ∨
      (wireFlagsRefused (wireFlagsOfMsg m.flags) = false ∧
        ∃ d₀, HasRead maxmsgsize multipart total m d₀ ∧
          ∀ rest, (zmpReader plainHost).whole d (m.header ++ rest) =
            resume (validateHeaderAndAdmit plainHost d₀) rest) := by
  rcases hrr : m.requestReply with _ | ⟨kind, sequence⟩
  · -- a header without sequence
    have hheader : m.header = headerBytes (wireFlagsOfMsg m.flags) zmpKindData
        (UInt32.ofNat m.data.length) none := by
      simp [Msg.header, hrr]
    have hready := headerReady_headerBytes
      (d := { d with tmpbuf := m.header, toRead := 0 }) hheader (.inl rfl)
    have hdata : zmpIsRequestReplyKind zmpKindData = false := rfl
    rw [hdata] at hready
    have hlen : m.header.length = zmpHeaderSize := by
      rw [hheader]
      rfl
    by_cases href : wireFlagsRefused (wireFlagsOfMsg m.flags) = true
    · refine .inl ⟨href, fun rest => ?_⟩
      rw [hd.whole_base hlen, hready, if_pos href]
      exact resume_error rfl rest
    · refine .inr ⟨by simpa using href, _, hd.hasRead_parsed hrr, fun rest => ?_⟩
      rw [hd.whole_base hlen, hready, if_neg href]
      rfl
  · -- a header with sequence
    have hmeta : zmpIsRequestReplyKind kind = true ∧ sequence ≠ 0 := by
      simp only [Msg.requestReplyOk, hrr, Bool.and_eq_true, bne_iff_ne, ne_eq] at hok
      exact hok.1
    let base := headerBytes (wireFlagsOfMsg m.flags) kind (UInt32.ofNat m.data.length) none
    have hheader : m.header = base ++ putUint64 sequence := by
      simp [Msg.header, hrr, base, headerBytes]
    have hready := headerReady_headerBytes
      (d := { d with tmpbuf := base, toRead := 0 }) rfl (.inr hmeta.1)
    have hlen : base.length = zmpHeaderSize := rfl
    by_cases href : wireFlagsRefused (wireFlagsOfMsg m.flags) = true
    · refine .inl ⟨href, fun rest => ?_⟩
      rw [hheader, List.append_assoc, hd.whole_base hlen, hready, if_pos href]
      exact resume_error rfl _
    · let d₀ : Decoder Unit Empty :=
        { parsed { d with tmpbuf := base, toRead := 0 } with
          frameStage := .readingSequenceExtension
          next := .sequenceReady
          tmpbuf := base ++ putUint64 sequence
          toRead := 0
          requestSequence := sequence }
      refine .inr ⟨by simpa using href, d₀, ?_, fun rest => ?_⟩
      · constructor
        · exact getUint32_headerBytes _ _ _ (some sequence)
        · rfl
        · rfl
        · rw [Msg.wireKind, hrr]
          rfl
        · rw [hrr]
          rfl
        · exact hd.attached
        · exact hd.frameMax
        · exact hd.messageMax
        · exact hd.multipart_eq
        · exact hd.total_eq
      · rw [hheader, List.append_assoc, hd.whole_base hlen, hready, if_neg href, if_pos hmeta.1]
        exact whole_sequence hmeta.2 rfl rfl rfl rest

structure Opened (maxmsgsize : Int64) (multipart : Bool) (total : ℕ)
    (m : Msg) (d : Decoder Unit Empty) : Prop where
  inProgress : d.inProgress = { m.decoded with data := [] }
  attached : d.attached = false
  frameMax : d.maxMsgSizeEffective = computeEffectiveMax maxmsgsize
  messageMax : d.maxApplicationMessageSize = computeApplicationMessageMax maxmsgsize
  multipart_eq : d.nextApplicationMultipartInProgress = m.wireMultipartAfter multipart
  total_eq : d.nextApplicationMultipartPayloadSize.toNat = m.wireTotalAfter total

theorem HasRead.sizeOk_iff (h : HasRead maxmsgsize multipart total m d)
    (size : ℕ) (hsize : size = m.data.length) :
    d.atAdmission.SizeOk size ↔ m.Fits maxmsgsize total := by
  have hcommand : hasAny d.msgFlags Msg.command = hasAny m.flags Msg.command := by
    rw [h.msgFlags, msgFlagsOfWire_wireFlagsOfMsg_command]
  simp only [SizeOk, Msg.Fits, frameLimit, atAdmission, hcommand, h.wireFlags,
    h.frameMax, h.messageMax, h.total_eq, hsize]

theorem HasRead.headerMsg (h : HasRead maxmsgsize multipart total m d)
    (hok : m.requestReplyOk = true) : d.headerMsg = some { m.decoded with data := [] } := by
  rw [Decoder.headerMsg, h.wireKind, h.sequence, h.msgFlags, Msg.wireKind, Msg.decoded]
  rcases hrr : m.requestReply with _ | ⟨kind, sequence⟩
  · rfl
  · simp only [Msg.requestReplyOk, hrr, Bool.and_eq_true, bne_iff_ne, ne_eq] at hok
    have hkind := zmpIsRequestReplyKind_ne_zero hok.1.1
    simp [hok.1.1, Msg.setRequestReplyMetadata, hkind, hok.1.2, Msg.init]

theorem HasRead.validate (h : HasRead maxmsgsize multipart total m d)
    (hacc : m.accepted multipart = true) : (m.Fits maxmsgsize total →
      ∃ d₁, Opened maxmsgsize multipart total m d₁ ∧ validateHeaderAndAdmit plainHost d =
          d₁.startPayload (UInt32.ofNat m.data.length)) ∧ (¬m.Fits maxmsgsize total →
      (validateHeaderAndAdmit plainHost d).1 = .error .emsgsize) := by
  obtain ⟨hlen, hok, hopen⟩ := Msg.accepted_iff.mp hacc
  have hsize : (UInt32.ofNat m.data.length).toNat = m.data.length :=
    UInt32.toNat_ofNat_of_lt' (by simp [UInt32.size]; omega)
  have hspecial : zmpIsSpecialFrame d.wireFlags = true → m.isSpecial = true := by
    rw [h.wireFlags]
    exact special_of_wire m.flags
  have hkind : m.requestReply = none → zmpIsRequestReplyKind d.wireKind = false := by
    intro hnone
    rw [h.wireKind, Msg.wireKind, hnone]
    rfl
  have hvalid : validateHeaderAndAdmit plainHost d =
      sizeReady plainHost d.atAdmission (UInt32.ofNat m.data.length) := by
    rw [← h.size]
    apply validateHeaderAndAdmit_of_nesting
    · intro hrr
      rcases hm : m.requestReply with _ | ⟨kind, sequence⟩
      · simp [hkind hm] at hrr
      · rw [Msg.requestReplyOk, hm] at hok
        rw [h.wireFlags]
        simpa using (Bool.and_eq_true _ _ |>.mp hok).2
    · intro hmulti
      rw [h.multipart_eq] at hmulti
      obtain ⟨hs, hnone⟩ := hopen hmulti
      refine ⟨?_, hkind hnone⟩
      by_contra hw
      rw [Bool.not_eq_false] at hw
      simp [hspecial hw] at hs
  rw [hvalid]
  constructor
  · intro hfits
    have hsizeOk := (h.sizeOk_iff _ hsize).mpr hfits
    obtain ⟨next, hnext, hready⟩ := sizeReady_of_sizeOk (d := d.atAdmission)
      h.attached (h.headerMsg hok) hsizeOk
    refine ⟨_, ?_, hready⟩
    constructor
    · rfl
    · exact h.attached
    · exact h.frameMax
    · exact h.messageMax
    · simp only [admitted, atAdmission, Msg.wireMultipartAfter, h.wireFlags,
        h.multipart_eq, wireFlagsOfMsg_more]
    · simp only [atAdmission, h.wireFlags, h.total_eq, hsize, wireFlagsOfMsg_more] at hnext
      exact hnext
  · intro hfits
    apply sizeReady_of_not_sizeOk
    rw [h.sizeOk_iff _ hsize]
    exact hfits

theorem Opened.completeFrame (h : Opened maxmsgsize multipart total m d) (msg : Msg) :
    AtBoundary maxmsgsize (m.wireMultipartAfter multipart) (m.wireTotalAfter total)
      ({ d with inProgress := msg } : Decoder Unit Empty).completeFrame where
  tmpbuf := rfl
  next := rfl
  toRead := rfl
  frameStage := rfl
  attached := h.attached
  frameMax := h.frameMax
  messageMax := h.messageMax
  multipart_eq := h.multipart_eq
  total_eq := h.total_eq

/-- The grammar of the decoder lets an accepted message pass: its flags are not
refused on the wire and its size is within the limits. -/
def Passes (maxmsgsize : Int64) (total : ℕ) (m : Msg) : Prop :=
  wireFlagsRefused (wireFlagsOfMsg m.flags) = false ∧ m.Fits maxmsgsize total

theorem AtBoundary.whole_frame (hd : AtBoundary maxmsgsize multipart total d)
    (hacc : m.accepted multipart = true) (hpass : Passes maxmsgsize total m) :
    ∃ d', AtBoundary maxmsgsize (m.wireMultipartAfter multipart) (m.wireTotalAfter total) d' ∧
      ∀ rest, (zmpReader plainHost).whole d (m.header ++ m.data ++ rest) =
        ((zmpReader plainHost).whole d' rest).after m.decoded := by
  obtain ⟨hlen, hok, -⟩ := Msg.accepted_iff.mp hacc
  have hsize : m.data.length = (UInt32.ofNat m.data.length).toNat :=
    (UInt32.toNat_ofNat_of_lt' (by simp [UInt32.size]; omega)).symm
  rcases hd.whole_header hok with ⟨href, -⟩ | ⟨-, d₀, hread, hwhole⟩
  · simp [hpass.1] at href
  obtain ⟨d₁, hopened, hvalid⟩ := (hread.validate hacc).1 hpass.2
  have hempty : d₁.inProgress.data = [] := by rw [hopened.inProgress]
  refine ⟨_, hopened.completeFrame { d₁.inProgress with data := m.data }, fun rest => ?_⟩
  rw [List.append_assoc, hwhole, hvalid, resume_startPayload hempty hsize]
  congr 1
  rw [hopened.inProgress]
  rfl

theorem AtBoundary.whole_header_failure (hd : AtBoundary maxmsgsize multipart total d)
    (hacc : m.accepted multipart = true) : ((zmpReader plainHost).whole d m.header).failure = none ↔
      Passes maxmsgsize total m := by
  obtain ⟨hlen, hok, -⟩ := Msg.accepted_iff.mp hacc
  have hnil : m.header = m.header ++ [] := (List.append_nil _).symm
  rcases hd.whole_header hok with ⟨href, hfail⟩ | ⟨href, d₀, hread, hwhole⟩
  · constructor
    · intro hnone
      rw [hnil] at hnone
      exact absurd hnone (hfail [])
    · intro hpass
      simp [hpass.1] at href
  · rw [hnil, hwhole]
    constructor
    · intro hnone
      refine ⟨href, ?_⟩
      by_contra hfits
      exact resume_error ((hread.validate hacc).2 hfits) [] hnone
    · intro hpass
      obtain ⟨d₁, hopened, hvalid⟩ := (hread.validate hacc).1 hpass.2
      rw [hvalid, startPayload]
      split <;> rfl

end Engine

namespace Msg

/-- The combinations of message flags that the wire can tell: a command has no
routing id and no further parts, a subscription or cancellation stands alone, and
a frame with another command type but without the command flag has no further
parts. -/
def cleanFlags (flags : UInt8) : Bool :=
  let type := flags &&& cmdTypeMask
  !(hasAny flags command && hasAny flags (routingId ||| more)) &&
    !((type == subscribe || type == cancel) && hasAny flags (command ||| routingId ||| more)) &&
    !(type != 0 && !hasAny flags (command ||| routingId) && hasAny flags more)

theorem cleanFlags_iff (flags : UInt8) : cleanFlags flags = true ↔
      Decoder.wireFlagsRefused (wireFlagsOfMsg flags) = false ∧ (hasAny flags specialFlags = true →
          zmpIsSpecialFrame (wireFlagsOfMsg flags) = false → hasAny flags more = false) := by
  revert flags
  apply forall_uint8
  decide +kernel

/-- The two trackers of the open application message part exactly on a frame that
is special by its message flags only and has further parts. -/
theorem wireMultipartAfter_eq_iff {multipart : Bool} {m : Msg}
    (hacc : m.accepted multipart = true) :
    m.wireMultipartAfter multipart = m.multipartAfter multipart ↔ (m.isSpecial = true →
        zmpIsSpecialFrame (wireFlagsOfMsg m.flags) = false → hasAny m.flags more = false) := by
  have hopen := (accepted_iff.mp hacc).2.2
  have hwire : zmpIsSpecialFrame (wireFlagsOfMsg m.flags) = true →
      m.isSpecial = true := special_of_wire m.flags
  rw [wireMultipartAfter, multipartAfter]
  rcases hs : m.isSpecial with _ | _
  · have hw : zmpIsSpecialFrame (wireFlagsOfMsg m.flags) = false := by
      by_contra h
      simp [hs, Bool.not_eq_false _ ▸ h] at hwire
    simp [hw]
  · have hclosed : multipart = false := by
      by_contra h
      simp [hs, Bool.not_eq_false _ ▸ h] at hopen
    rcases hw : zmpIsSpecialFrame (wireFlagsOfMsg m.flags) with _ | _ <;>
      simp [hclosed]

end Msg

/-- The payload bytes of the application message that is open after messages. -/
def totalAfter (ms : List Msg) : ℕ :=
  (acceptedMsgs false ms).foldl Msg.wireTotalAfter 0

theorem totalAfter_append_singleton (ms : List Msg) (m : Msg) : totalAfter (ms ++ [m]) =
      if m.accepted (openAfter false ms) then m.wireTotalAfter (totalAfter ms)
      else totalAfter ms := by
  rw [totalAfter, acceptedMsgs_append_singleton, List.foldl_append]
  split <;> rfl

def Conforms (maxmsgsize : Int64) (ms : List Msg) : Prop :=
  ∀ before m, before ++ [m] <+: ms → m.accepted (openAfter false before) = true →
      Msg.cleanFlags m.flags = true ∧ m.Fits maxmsgsize (totalAfter before)

/-- The claim of the grammar: for every message that the encoder accepts, in the
state where the messages before it left it, a decoder that reads the bytes emitted
before and the header of the message does not fail; and a decoder that reads the
frame too tells as the encoder does whether an application message is open. -/
def Agreement (maxmsgsize : Int64) (ms : List Msg) : Prop :=
  ∀ before m header e, before ++ [m] <+: ms →
    (zmpMachine.drainAll EncoderState.init before).1.buildHeader m
      zmpRequestReplyHeaderSize = (.ok header, e) →
    (∀ calls,
      let o := decodeRun plainHost maxmsgsize false ()
        ((zmpMachine.drainAll EncoderState.init before).2 ++ header) calls
      o.Complete → o.failure = none) ∧
    (∀ calls,
      let o := decodeRun plainHost maxmsgsize false ()
        ((zmpMachine.drainAll EncoderState.init before).2 ++ header ++ m.data)
        calls
      o.Complete → o.state.applicationMultipartInProgress = e.applicationMultipartInProgress)

open Engine Decoder

theorem Conforms.whole {maxmsgsize : Int64} {ms : List Msg} (h : Conforms maxmsgsize ms) :
    ∃ d, AtBoundary maxmsgsize (openAfter false ms) (totalAfter ms) d ∧
      ∀ rest, (zmpReader plainHost).whole (Decoder.init maxmsgsize false ())
          (wireImage false ms ++ rest) = prepend ((acceptedMsgs false ms).map Msg.decoded)
          ((zmpReader plainHost).whole d rest) := by
  induction ms using List.reverseRecOn with
  | nil => exact ⟨_, atBoundary_init maxmsgsize, fun rest => rfl⟩
  | append_singleton ms m ih =>
    have hprefix : Conforms maxmsgsize ms := fun before m' hle =>
      h before m' (hle.trans (List.prefix_append ms [m]))
    obtain ⟨d, hd, hwhole⟩ := ih hprefix
    rw [openAfter_append_singleton, totalAfter_append_singleton,
      wireImage_append_singleton, acceptedMsgs_append_singleton]
    by_cases hacc : m.accepted (openAfter false ms) = true
    · obtain ⟨hclean, hfits⟩ := h ms m (List.prefix_refl _) hacc
      have hflags := (Msg.cleanFlags_iff m.flags).mp hclean
      obtain ⟨d', hd', hframe⟩ := hd.whole_frame hacc ⟨hflags.1, hfits⟩
      rw [(Msg.wireMultipartAfter_eq_iff hacc).mpr hflags.2] at hd'
      rw [if_pos hacc, if_pos hacc, if_pos hacc, if_pos hacc]
      refine ⟨d', hd', fun rest => ?_⟩
      rw [List.append_assoc, hwhole, hframe, prepend_after, List.map_append]
      rfl
    · rw [if_neg hacc, if_neg hacc, if_neg hacc, if_neg hacc, List.append_nil, List.append_nil]
      exact ⟨d, hd, hwhole⟩

theorem forall_complete_iff {maxmsgsize : Int64} {stream : List UInt8}
    {P : Outcome (Decoder Unit Empty) UInt8 Msg Failure → Prop} :
    (∀ calls, (decodeRun plainHost maxmsgsize false () stream calls).Complete →
        P (decodeRun plainHost maxmsgsize false () stream calls)) ↔
      P ((zmpReader plainHost).whole (Decoder.init maxmsgsize false ()) stream) := by
  have hpos := init_need plainHost maxmsgsize false ()
  constructor
  · intro h
    have hcomplete : (decodeRun plainHost maxmsgsize false () stream
        (List.replicate stream.length ⟨1, false⟩)).Complete :=
      (zmpReader plainHost).feed_complete hpos (by simp) (by simp)
    have heq := (zmpReader plainHost).feed_eq_whole hpos hcomplete
    exact heq ▸ h _ hcomplete
  · intro h calls hcomplete
    have heq := (zmpReader plainHost).feed_eq_whole hpos hcomplete
    exact (congrArg P heq).mpr h

theorem Conforms.agree_iff {maxmsgsize : Int64} {ms : List Msg}
    (h : Conforms maxmsgsize ms) {m : Msg} (hacc : m.accepted (openAfter false ms) = true) :
    (((zmpReader plainHost).whole (Decoder.init maxmsgsize false ())
        (wireImage false ms ++ m.header)).failure = none ∧
      ((zmpReader plainHost).whole (Decoder.init maxmsgsize false ())
        (wireImage false ms ++ m.header ++ m.data)).state.applicationMultipartInProgress =
          m.multipartAfter (openAfter false ms)) ↔
      Msg.cleanFlags m.flags = true ∧ m.Fits maxmsgsize (totalAfter ms) := by
  obtain ⟨d, hd, hwhole⟩ := h.whole
  rw [List.append_assoc, hwhole, hwhole, Msg.cleanFlags_iff]
  have hheader : (prepend ((acceptedMsgs false ms).map Msg.decoded)
      ((zmpReader plainHost).whole d m.header)).failure = none ↔
        Passes maxmsgsize (totalAfter ms) m :=
    hd.whole_header_failure hacc
  rw [hheader, Passes]
  constructor
  · rintro ⟨hpass, hflag⟩
    obtain ⟨d', hd', hframe⟩ := hd.whole_frame hacc hpass
    have hstate := hframe []
    rw [List.append_nil, Reader.whole_nil] at hstate
    rw [hstate] at hflag
    have heq := hd'.multipart_eq.symm.trans hflag
    exact ⟨⟨hpass.1, (Msg.wireMultipartAfter_eq_iff hacc).mp heq⟩, hpass.2⟩
  · rintro ⟨⟨hflags, hopen⟩, hfits⟩
    obtain ⟨d', hd', hframe⟩ := hd.whole_frame hacc ⟨hflags, hfits⟩
    have hstate := hframe []
    rw [List.append_nil, Reader.whole_nil] at hstate
    refine ⟨⟨hflags, hfits⟩, ?_⟩
    rw [hstate]
    exact hd'.multipart_eq.trans ((Msg.wireMultipartAfter_eq_iff hacc).mpr hopen)

theorem agreement_iff {maxmsgsize : Int64} {ms : List Msg} : Agreement maxmsgsize ms ↔
      ∀ before m, before ++ [m] <+: ms → m.accepted (openAfter false before) = true →
          ((zmpReader plainHost).whole (Decoder.init maxmsgsize false ())
            (wireImage false before ++ m.header)).failure = none ∧
          ((zmpReader plainHost).whole (Decoder.init maxmsgsize false ())
            (wireImage false before ++ m.header ++ m.data)).state.applicationMultipartInProgress =
            m.multipartAfter (openAfter false before) := by
  have hfailure : ∀ stream, (∀ calls,
        let o := decodeRun plainHost maxmsgsize false () stream calls
        o.Complete → o.failure = none) ↔
      ((zmpReader plainHost).whole (Decoder.init maxmsgsize false ()) stream).failure = none :=
    fun stream => forall_complete_iff (P := fun o => o.failure = none)
  have hflag : ∀ stream (flag : Bool), (∀ calls,
        let o := decodeRun plainHost maxmsgsize false () stream calls
        o.Complete → o.state.applicationMultipartInProgress = flag) ↔
      ((zmpReader plainHost).whole (Decoder.init maxmsgsize false ())
        stream).state.applicationMultipartInProgress = flag :=
    fun stream flag => forall_complete_iff
      (P := fun o => o.state.applicationMultipartInProgress = flag)
  have hbuildHeader := fun before m => EncoderState.buildHeader_eq
    { EncoderState.init with
      applicationMultipartInProgress := openAfter false before } m
    (Nat.le_refl zmpRequestReplyHeaderSize)
  simp only [Agreement, hfailure, hflag, drainAll_init]
  constructor
  · intro h before m hle hacc
    rcases hbuildHeader before m with ⟨errno, -, hno⟩ | ⟨hbuild, -⟩
    · exact absurd hacc (Bool.not_eq_true _ |>.mpr hno)
    · exact h before m _ _ hle hbuild
  · intro h before m header e hle hbuild
    rcases hbuildHeader before m with ⟨errno, hno, -⟩ | ⟨hyes, hacc⟩
    · simp [hno] at hbuild
    · obtain ⟨hheader, rfl⟩ := Prod.mk.inj (hyes.symm.trans hbuild)
      obtain rfl := Except.ok.inj hheader
      exact h before m hle hacc

/-- Encoder and decoder agree on a sequence of messages exactly when every message
that the encoder accepts has clean flags and is within the limits of the
decoder. -/
theorem agreement_iff_conforms (maxmsgsize : Int64) (ms : List Msg) :
    Agreement maxmsgsize ms ↔ Conforms maxmsgsize ms := by
  rw [agreement_iff]
  constructor
  · intro h
    induction ms using List.reverseRecOn with
    | nil =>
      intro before m hle
      simp at hle
    | append_singleton ms m ih =>
      have hms : Conforms maxmsgsize ms :=
        ih fun before m' hle => h before m' (hle.trans (List.prefix_append _ _))
      intro before m' hle hacc
      rcases List.prefix_concat_iff.mp hle with heq | hle'
      · obtain ⟨rfl, hm⟩ := List.append_inj' heq rfl
        obtain rfl := List.singleton_inj.mp hm
        exact (hms.agree_iff hacc).mp (h before m' hle hacc)
      · exact hms before m' hle' hacc
  · intro h before m hle hacc
    have hbefore : Conforms maxmsgsize before := fun before' m' hle' =>
      h before' m' (hle'.trans ((List.prefix_append _ _).trans hle))
    exact (hbefore.agree_iff hacc).mpr (h before m hle hacc)

/-- A frame of the ping type with further parts: the encoder takes it for special
and leaves its tracker closed, the wire does not tell its type and the decoder
opens an application message. -/
theorem not_agreement_ping_more :
    ¬Agreement (-1) [{ Msg.init with flags := Msg.ping ||| Msg.more }] := by
  intro h
  have hnil : Conforms (-1) [] := fun before m hle => by simp at hle
  have hagree := agreement_iff.mp h [] _ (List.prefix_refl _) (by decide)
  exact absurd ((hnil.agree_iff (by decide)).mp hagree).1 (by decide)

end Zlink.Protocol
