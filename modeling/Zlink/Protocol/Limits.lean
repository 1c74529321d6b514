import Zlink.Protocol.Engine

/-!
# Size and nesting limits of the decoder

What the decoder has accepted at any moment is the list of frames it emitted and
the frame whose payload it is reading. The invariant relates both to the two
accumulators of the decoder: the multipart flag says whether an application
message is open, and the running total is the exact sum of the payloads of its
frames so far.
-/

namespace Zlink.Protocol

open Framing

namespace Decoder

variable {σ τ : Type} (host : Host σ τ)

def admitted (d : Decoder σ τ) (subject : σ) (reservation : Option τ) (msg : Msg) : Decoder σ τ :=
  { d with
    subject := subject
    frameReservation := reservation
    allocationBackpressured := false
    pendingMsgSize := 0
    inProgress := msg }

variable {d d' : Decoder σ τ} {msgSize : UInt32} {rc : Rc}

theorem allocateMessage_cases
    (h : allocateMessage host d msgSize = (rc, d')) : (∃ errno, rc = .error errno) ∨
      ∃ subject msg, d.headerMsg = some msg ∧ (rc, d') =
          (d.admitted subject d.frameReservation msg).startPayload msgSize := by
  rw [allocateMessage] at h
  rcases ha : host.allocate d.subject msgSize with ⟨_ | _, subject⟩
  · simp only [ha] at h
    exact .inl ⟨_, (Prod.mk.inj h).1.symm⟩
  · simp only [ha, openMessage] at h
    split at h
    case h_1 hm => exact .inl ⟨_, (Prod.mk.inj h).1.symm⟩
    case h_2 msg hm => exact .inr ⟨subject, msg, hm, h.symm⟩

theorem requestAdmission_cases
    (h : requestAdmission host d msgSize = (rc, d')) : (∃ errno, rc = .error errno) ∨
      ∃ subject reservation msg, d.headerMsg = some msg ∧ (rc, d') =
          (d.admitted subject reservation msg).startPayload msgSize := by
  rw [requestAdmission] at h
  split at h
  case isTrue hask =>
    split at h
    case h_1 reservation subject ha =>
      rcases allocateMessage_cases host h with he | ⟨subject, msg, hm, hd⟩
      · exact .inl he
      · exact .inr ⟨subject, reservation, msg, hm, hd⟩
    case h_2 => exact .inl ⟨_, (Prod.mk.inj h).1.symm⟩
    case h_3 => exact .inl ⟨_, (Prod.mk.inj h).1.symm⟩
  case isFalse hask =>
    rcases allocateMessage_cases host h with he | ⟨subject, msg, hm, hd⟩
    · exact .inl he
    · exact .inr ⟨subject, d.frameReservation, msg, hm, hd⟩

/-- A frame that passes `size_ready` is within its frame limit and leaves the
running total within the limit of a message. -/
theorem sizeReady_cases (h : sizeReady host d msgSize = (rc, d')) : (∃ errno, rc = .error errno) ∨
      ∃ subject reservation msg next, msgSize ≤ d.frameLimit ∧
        d.payloadSizeAfter msgSize = some next ∧ d.headerMsg = some msg ∧ (rc, d') =
          ({ d with nextApplicationMultipartPayloadSize := next }.admitted
            subject reservation msg).startPayload msgSize := by
  rw [sizeReady] at h
  split at h
  case isTrue => exact .inl ⟨_, (Prod.mk.inj h).1.symm⟩
  case isFalse hlimit =>
    split at h
    case h_1 => exact .inl ⟨_, (Prod.mk.inj h).1.symm⟩
    case h_2 next hnext =>
      rcases requestAdmission_cases host h with
        he | ⟨subject, reservation, msg, hm, hd⟩
      · exact .inl he
      · exact .inr ⟨subject, reservation, msg, next, UInt32.not_lt.mp hlimit, hnext, hm, hd⟩

def atAdmission (d : Decoder σ τ) : Decoder σ τ :=
  { d with
    nextApplicationMultipartInProgress :=
      if zmpIsSpecialFrame d.wireFlags then d.applicationMultipartInProgress
      else hasAny d.wireFlags zmpFlagMore
    frameStage := .waitingFrameAdmission }

theorem validateHeaderAndAdmit_cases
    (h : validateHeaderAndAdmit host d = (rc, d')) : rc = .error .eproto ∨
      ((zmpIsSpecialFrame d.wireFlags = true ∨ zmpIsRequestReplyKind d.wireKind = true →
        d.applicationMultipartInProgress = false) ∧
      sizeReady host d.atAdmission (getUint32 (d.tmpbuf.drop 4)) = (rc, d')) := by
  simp only [validateHeaderAndAdmit] at h
  split at h
  case isTrue => exact .inl (Prod.mk.inj h).1.symm
  case isFalse hsr =>
    split at h
    case isTrue => exact .inl (Prod.mk.inj h).1.symm
    case isFalse hopen =>
      refine .inr ⟨fun hspecial => ?_, h⟩
      by_contra hmulti
      rw [Bool.not_eq_false] at hmulti
      exact hopen (by simpa [hmulti] using hspecial)

def parsed (d : Decoder σ τ) : Decoder σ τ :=
  { d with
    errorCode := 0
    wireKind := d.byteAt 3
    wireFlags := d.byteAt 2
    msgFlags := msgFlagsOfWire (d.byteAt 2)
    requestSequence := 0 }

theorem headerReady_cases (h : headerReady host d = (rc, d')) : rc = .error .eproto ∨
      (wireFlagsRefused (d.byteAt 2) = false ∧ ((rc = .more ∧ d' = { d.parsed with
            frameStage := .readingSequenceExtension
            next := .sequenceReady
            toRead := zmpRequestSequenceSize }) ∨
        validateHeaderAndAdmit host d.parsed = (rc, d'))) := by
  simp only [headerReady] at h
  split at h
  · exact .inl (Prod.mk.inj h).1.symm
  split at h
  · exact .inl (Prod.mk.inj h).1.symm
  split at h
  · exact .inl (Prod.mk.inj h).1.symm
  split at h
  · exact .inl (Prod.mk.inj h).1.symm
  rename_i hflags
  refine .inr ⟨Bool.not_eq_true _ |>.mp hflags, ?_⟩
  split at h
  · exact .inl ⟨(Prod.mk.inj h).1.symm, (Prod.mk.inj h).2.symm⟩
  · exact .inr h

theorem sequenceReady_cases (h : sequenceReady host d = (rc, d')) :
    rc = .error .eproto ∨ validateHeaderAndAdmit host
        { d with requestSequence := getUint64 (d.tmpbuf.drop zmpHeaderSize) } = (rc, d') := by
  simp only [sequenceReady] at h
  split at h
  · exact .inl (Prod.mk.inj h).1.symm
  · exact .inr h

/-- The running total is exact: the sum is formed after the test that it fits
the word. -/
theorem payloadSizeAfter_cases {next : UInt64} (h : d.payloadSizeAfter msgSize = some next) :
    (zmpIsSpecialFrame d.wireFlags = true ∧ next = d.applicationMultipartPayloadSize) ∨
      (zmpIsSpecialFrame d.wireFlags = false ∧
        d.applicationMultipartPayloadSize.toNat + msgSize.toNat ≤
          d.maxApplicationMessageSize.toNat ∧
        next.toNat =
          if hasAny d.wireFlags zmpFlagMore then
            d.applicationMultipartPayloadSize.toNat + msgSize.toNat
          else 0) := by
  simp only [payloadSizeAfter] at h
  split at h
  case isTrue hs => exact .inl ⟨hs, (Option.some.inj h).symm⟩
  case isFalse hs =>
    split at h
    case isTrue => exact absurd h (by simp)
    case isFalse hfits =>
      have hmax : d.applicationMultipartPayloadSize ≤ (0xffffffffffffffff : UInt64) :=
        UInt64.le_iff_toNat_le.mpr (Nat.le_of_lt_succ d.applicationMultipartPayloadSize.toNat_lt)
      have hsum : d.applicationMultipartPayloadSize.toNat + msgSize.toNat < 2 ^ 64 := by
        rw [UInt64.not_lt, UInt64.le_iff_toNat_le,
          UInt64.toNat_sub_of_le _ _ hmax, UInt32.toNat_toUInt64] at hfits
        have hlt := d.applicationMultipartPayloadSize.toNat_lt
        simp only [UInt64.reduceToNat] at hfits
        omega
      have hcand : (d.applicationMultipartPayloadSize + msgSize.toUInt64).toNat =
            d.applicationMultipartPayloadSize.toNat + msgSize.toNat := by
        rw [UInt64.toNat_add, UInt32.toNat_toUInt64, Nat.mod_eq_of_lt hsum]
      split at h
      case isTrue => exact absurd h (by simp)
      case isFalse hlimit =>
        rw [UInt64.not_lt, UInt64.le_iff_toNat_le, hcand] at hlimit
        refine .inr ⟨by simpa using hs, hlimit, ?_⟩
        rw [← Option.some.inj h]
        split
        · exact hcand
        · rfl

theorem lt_of_payloadSizeAfter_none
    (h : d.payloadSizeAfter msgSize = none) : zmpIsSpecialFrame d.wireFlags = false ∧
      d.maxApplicationMessageSize.toNat <
        d.applicationMultipartPayloadSize.toNat + msgSize.toNat := by
  have hmax := d.maxApplicationMessageSize.toNat_lt
  have hlt := d.applicationMultipartPayloadSize.toNat_lt
  simp only [payloadSizeAfter] at h
  split at h
  case isTrue hs => exact absurd h (by simp)
  case isFalse hs =>
    refine ⟨by simpa using hs, ?_⟩
    have hle : d.applicationMultipartPayloadSize ≤ (0xffffffffffffffff : UInt64) :=
      UInt64.le_iff_toNat_le.mpr (Nat.le_of_lt_succ hlt)
    split at h
    case isTrue hfits =>
      rw [UInt64.lt_iff_toNat_lt, UInt64.toNat_sub_of_le _ _ hle, UInt32.toNat_toUInt64] at hfits
      simp only [UInt64.reduceToNat] at hfits
      omega
    case isFalse hfits =>
      split at h
      case isTrue hlimit =>
        rw [UInt64.lt_iff_toNat_lt, UInt64.toNat_add, UInt32.toNat_toUInt64] at hlimit
        exact Nat.lt_of_lt_of_le hlimit (Nat.mod_le _ _)
      case isFalse hlimit => exact absurd h (by simp)

end Decoder

def openStep (parts : List Msg) (f : Msg) : List Msg :=
  if f.isSpecial then parts
  else if hasAny f.flags Msg.more then parts ++ [f]
  else []

def openParts (fs : List Msg) : List Msg :=
  fs.foldl openStep []

def payloadBytes (fs : List Msg) : ℕ :=
  (fs.map fun f => f.data.length).sum

@[simp] theorem openParts_append_singleton (fs : List Msg) (f : Msg) :
    openParts (fs ++ [f]) = openStep (openParts fs) f := by
  rw [openParts, List.foldl_append]
  rfl

theorem openStep_isEmpty (parts : List Msg) (f : Msg) : (!(openStep parts f).isEmpty) =
      if f.isSpecial then !parts.isEmpty else hasAny f.flags Msg.more := by
  rw [openStep]
  split
  · rfl
  · split <;> simp_all

@[simp] theorem payloadBytes_append_singleton (fs : List Msg) (f : Msg) :
    payloadBytes (fs ++ [f]) = payloadBytes fs + f.data.length := by
  simp [payloadBytes]

/-- What a frame `f` with `size` payload bytes has to satisfy when it is accepted
after the frames `fs`. -/
structure FrameOk (limit : ℕ) (fs : List Msg) (f : Msg) (size : ℕ) : Prop where
  nesting : f.isSpecial = true ∨ f.requestReply ≠ none → openParts fs = []
  control : hasAny f.flags Msg.command = true → size ≤ zmpMaxControlBodySize.toNat
  total : f.isSpecial = false → payloadBytes (openParts fs) + size ≤ limit

def FramesOk (limit : ℕ) (fs : List Msg) : Prop :=
  ∀ before f after, fs = before ++ f :: after → FrameOk limit before f f.data.length

variable {fs : List Msg}

theorem FramesOk.append_singleton {limit : ℕ} {f : Msg}
    (h : FramesOk limit fs) (hf : FrameOk limit fs f f.data.length) :
    FramesOk limit (fs ++ [f]) := by
  intro before g after heq
  rcases List.eq_nil_or_concat' after with rfl | ⟨after', last, rfl⟩
  · obtain ⟨rfl, hfg⟩ := List.append_inj' heq rfl
    obtain rfl := List.singleton_inj.mp hfg
    exact hf
  · rw [← List.cons_append, ← List.append_assoc] at heq
    exact h before g after' (List.append_inj' heq rfl).1

def IsMessage (parts : List Msg) : Prop :=
  ∃ init last, parts = init ++ [last] ∧ last.isSpecial = false ∧
    ∀ f ∈ init, f.isSpecial = false ∧ hasAny f.flags Msg.more = true

theorem openParts_append {init : List Msg} (hfs : openParts fs = [])
    (hinit : ∀ f ∈ init, f.isSpecial = false ∧ hasAny f.flags Msg.more = true) :
    openParts (fs ++ init) = init := by
  induction init using List.reverseRecOn with
  | nil => simpa using hfs
  | append_singleton init f ih =>
    have hf := hinit f (by simp)
    rw [← List.append_assoc, openParts_append_singleton,
      ih fun g hg => hinit g (by simp [hg]), openStep, hf.1, hf.2]
    simp

theorem FramesOk.message_le {limit : ℕ} {before parts after : List Msg}
    (h : FramesOk limit fs) (hsplit : fs = before ++ parts ++ after)
    (hopen : openParts before = []) (hparts : IsMessage parts) : payloadBytes parts ≤ limit := by
  obtain ⟨init, last, rfl, hlast, hinit⟩ := hparts
  have hok := h (before ++ init) last after (by simp [hsplit])
  have htotal := hok.total hlast
  rw [openParts_append hopen hinit] at htotal
  simpa using htotal

namespace Decoder

theorem msgFlagsOfWire_special (wire : UInt8) :
    hasAny (msgFlagsOfWire wire) Msg.specialFlags = zmpIsSpecialFrame wire := by
  have hmore : hasAny Msg.more Msg.specialFlags = false := by decide
  have hcommand : hasAny Msg.command Msg.specialFlags = true := by decide
  have hroutingId : hasAny Msg.routingId Msg.specialFlags = true := by decide
  have hsubscribe : hasAny Msg.subscribe Msg.specialFlags = true := by decide
  have hcancel : hasAny Msg.cancel Msg.specialFlags = true := by decide
  simp only [msgFlagsOfWire, hasAny_or_flags, zmpIsSpecialFrame,
    zmpSpecialFrameFlags, hasAny_or_mask, hasAny_ite, hmore, hcommand,
    hroutingId]
  split <;> simp_all [Bool.or_assoc]

theorem msgFlagsOfWire_more (wire : UInt8) :
    hasAny (msgFlagsOfWire wire) Msg.more = hasAny wire zmpFlagMore := by
  have hmore : hasAny Msg.more Msg.more = true := by decide
  have hcommand : hasAny Msg.command Msg.more = false := by decide
  have hroutingId : hasAny Msg.routingId Msg.more = false := by decide
  have hsubscribe : hasAny Msg.subscribe Msg.more = false := by decide
  have hcancel : hasAny Msg.cancel Msg.more = false := by decide
  simp only [msgFlagsOfWire, hasAny_or_flags, hasAny_ite, hmore, hcommand, hroutingId]
  split <;> simp_all

variable {σ τ : Type}

/-- The payload size of the frame in progress. -/
def announced (d : Decoder σ τ) : ℕ :=
  d.inProgress.data.length + d.toRead

theorem store_header_fields (d : Decoder σ τ) (b : UInt8) :
    (d.store [b]).next = d.next ∧ (d.store [b]).msgFlags = d.msgFlags ∧
      (d.store [b]).wireFlags = d.wireFlags ∧
      (d.store [b]).maxApplicationMessageSize = d.maxApplicationMessageSize := by
  cases h : d.next <;> simp [store, h]

theorem store_multipart_fields (d : Decoder σ τ) (b : UInt8) :
    (d.store [b]).applicationMultipartInProgress = d.applicationMultipartInProgress ∧
      (d.store [b]).applicationMultipartPayloadSize = d.applicationMultipartPayloadSize ∧
      (d.store [b]).nextApplicationMultipartInProgress = d.nextApplicationMultipartInProgress ∧
      (d.store [b]).nextApplicationMultipartPayloadSize =
        d.nextApplicationMultipartPayloadSize := by
  cases h : d.next <;> simp [store, h]

theorem store_message_fields (d : Decoder σ τ) (b : UInt8) :
    (d.store [b]).inProgress.flags = d.inProgress.flags ∧
      (d.store [b]).inProgress.requestReply = d.inProgress.requestReply := by
  cases h : d.next <;> simp [store, h]

variable {d : Decoder σ τ}

theorem store_announced (b : UInt8) (hnext : d.next = .bodyReady)
    (hpos : 0 < d.toRead) : (d.store [b]).announced = d.announced := by
  simp [store, hnext, announced]
  omega

/-- The decoder reads the payload of a frame that is acceptable after `fs`, and
the accumulators it will commit are those of `fs` with this frame. -/
structure PayloadOk (limit : ℕ) (fs : List Msg) (d : Decoder σ τ) : Prop where
  frame : FrameOk limit fs d.inProgress d.announced
  flag : d.nextApplicationMultipartInProgress =
    if d.inProgress.isSpecial then !(openParts fs).isEmpty
    else hasAny d.inProgress.flags Msg.more
  total : d.nextApplicationMultipartPayloadSize.toNat =
    if d.inProgress.isSpecial then payloadBytes (openParts fs)
    else if hasAny d.inProgress.flags Msg.more then
      payloadBytes (openParts fs) + d.announced
    else 0

structure Balanced (limit : ℕ) (fs : List Msg) (d : Decoder σ τ) : Prop where
  frames : FramesOk limit fs
  max_eq : d.maxApplicationMessageSize.toNat = limit
  flag : d.applicationMultipartInProgress = !(openParts fs).isEmpty
  total : d.applicationMultipartPayloadSize.toNat = payloadBytes (openParts fs)

/-- The invariant: besides `Balanced`, what the decoder knows of the frame it is
in the middle of. -/
structure Accounted (limit : ℕ) (fs : List Msg) (d : Decoder σ τ) : Prop
    extends Balanced limit fs d where
  header : d.next = .sequenceReady → d.msgFlags = msgFlagsOfWire d.wireFlags
  payload : d.next = .bodyReady → PayloadOk limit fs d

theorem Accounted.init (maxmsgsize : Int64) (attached : Bool) (subject : σ) :
    Accounted (computeApplicationMessageMax maxmsgsize).toNat []
      (Decoder.init maxmsgsize attached subject : Decoder σ τ) where
  frames := by simp [FramesOk]
  max_eq := rfl
  flag := rfl
  total := rfl
  header := by simp [Decoder.init]
  payload := by simp [Decoder.init]

variable {limit : ℕ} {fs : List Msg} {d' : Decoder σ τ}

theorem PayloadOk.congr (h : PayloadOk limit fs d)
    (hflags : d'.inProgress.flags = d.inProgress.flags)
    (hmeta : d'.inProgress.requestReply = d.inProgress.requestReply)
    (hsize : d'.announced = d.announced) (hflag : d'.nextApplicationMultipartInProgress =
      d.nextApplicationMultipartInProgress) (htotal : d'.nextApplicationMultipartPayloadSize =
      d.nextApplicationMultipartPayloadSize) : PayloadOk limit fs d' := by
  have hspecial : d'.inProgress.isSpecial = d.inProgress.isSpecial := by
    rw [Msg.isSpecial, Msg.isSpecial, hflags]
  refine ⟨⟨?_, ?_, ?_⟩, ?_, ?_⟩
  · rw [hspecial, hmeta]
    exact h.frame.nesting
  · rw [hflags, hsize]
    exact h.frame.control
  · rw [hspecial, hsize]
    exact h.frame.total
  · rw [hflag, hspecial, hflags]
    exact h.flag
  · rw [htotal, hspecial, hflags, hsize]
    exact h.total

theorem Accounted.store (h : Accounted limit fs d) (b : UInt8) (hpos : 0 < d.toRead) :
    Accounted limit fs (d.store [b]) := by
  obtain ⟨hnext, hmsg, hwire, hmax⟩ := d.store_header_fields b
  obtain ⟨hflag, htotal, hnextFlag, hnextTotal⟩ := d.store_multipart_fields b
  obtain ⟨hflags, hmeta⟩ := d.store_message_fields b
  refine ⟨⟨h.frames, hmax ▸ h.max_eq, hflag ▸ h.flag, htotal ▸ h.total⟩, ?_, ?_⟩
  · rw [hnext, hmsg, hwire]
    exact h.header
  · intro hbody
    rw [hnext] at hbody
    exact (h.payload hbody).congr hflags hmeta (store_announced b hbody hpos) hnextFlag hnextTotal

theorem Balanced.completeFrame (h : Balanced limit fs d)
    (hp : PayloadOk limit fs d) (hsize : d.announced = d.inProgress.data.length) :
    Accounted limit (fs ++ [d.inProgress]) d.completeFrame where
  frames := h.frames.append_singleton (hsize ▸ hp.frame)
  max_eq := h.max_eq
  flag := by
    rw [openParts_append_singleton, openStep_isEmpty]
    exact hp.flag
  total := by
    rw [openParts_append_singleton, openStep]
    refine hp.total.trans ?_
    rw [hsize]
    split
    · rfl
    · split
      · rw [payloadBytes_append_singleton]
      · rfl
  header := by simp [Decoder.completeFrame]
  payload := by simp [Decoder.completeFrame]

theorem headerMsg_fields {msg : Msg} (h : d.headerMsg = some msg) :
    msg.flags = d.msgFlags ∧ msg.data = [] ∧
      (msg.requestReply ≠ none → zmpIsRequestReplyKind d.wireKind = true) := by
  rw [headerMsg] at h
  split at h
  case isTrue hkind =>
    rw [Msg.setRequestReplyMetadata] at h
    split at h
    · exact absurd h (by simp)
    · obtain rfl := Option.some.inj h
      exact ⟨rfl, rfl, fun _ => hkind⟩
  case isFalse hkind =>
    obtain rfl := Option.some.inj h
    exact ⟨rfl, rfl, fun hne => absurd rfl hne⟩

/-- A frame admitted by the size checks of `d` is acceptable, and `s`, which
reads its payload, is about to commit its accumulators. -/
theorem Balanced.payloadOk {s : Decoder σ τ}
    {msgSize : UInt32} {next : UInt64} (h : Balanced limit fs d)
    (hflags : d.msgFlags = msgFlagsOfWire d.wireFlags)
    (hnest : zmpIsSpecialFrame d.wireFlags = true ∨ zmpIsRequestReplyKind d.wireKind = true →
      d.applicationMultipartInProgress = false)
    (hlimit : msgSize ≤ d.frameLimit)
    (hnext : d.payloadSizeAfter msgSize = some next)
    (hmsg : d.headerMsg = some s.inProgress)
    (hsize : s.toRead = msgSize.toNat)
    (hflag : s.nextApplicationMultipartInProgress =
      if zmpIsSpecialFrame d.wireFlags then d.applicationMultipartInProgress
      else hasAny d.wireFlags zmpFlagMore)
    (htotal : s.nextApplicationMultipartPayloadSize = next) :
    PayloadOk limit fs s := by
  obtain ⟨hmf, hdata, hmeta⟩ := headerMsg_fields hmsg
  have hspecial : s.inProgress.isSpecial = zmpIsSpecialFrame d.wireFlags := by
    rw [Msg.isSpecial, hmf, hflags, msgFlagsOfWire_special]
  have hmore : hasAny s.inProgress.flags Msg.more = hasAny d.wireFlags zmpFlagMore := by
    rw [hmf, hflags, msgFlagsOfWire_more]
  have hann : s.announced = msgSize.toNat := by
    rw [announced, hdata, hsize, List.length_nil, Nat.zero_add]
  refine ⟨⟨fun hs => ?_, fun hc => ?_, fun hs => ?_⟩, ?_, ?_⟩
  · have hclosed := hnest (hs.imp (hspecial ▸ ·) hmeta)
    simpa [h.flag] using hclosed
  · rw [hmf] at hc
    rw [frameLimit, if_pos hc] at hlimit
    rw [hann]
    exact UInt32.le_iff_toNat_le.mp hlimit
  · rcases payloadSizeAfter_cases hnext with ⟨hsp, -⟩ | ⟨-, hle, -⟩
    · rw [hspecial, hsp] at hs
      exact absurd hs (by simp)
    · rw [hann, ← h.total, ← h.max_eq]
      exact hle
  · rw [hflag, hspecial, hmore, h.flag]
  · rw [htotal, hspecial, hmore, hann, ← h.total]
    rcases payloadSizeAfter_cases hnext with ⟨hsp, rfl⟩ | ⟨hsp, -, hn⟩
    · simp [hsp]
    · simp [hsp, hn]

variable (host : Host σ τ)

/-- The decoder stands at the size checks of a validated header, or was held back
there. -/
structure Held (limit : ℕ) (fs : List Msg) (d : Decoder σ τ) : Prop
    extends Balanced limit fs d where
  flags : d.msgFlags = msgFlagsOfWire d.wireFlags
  nest : zmpIsSpecialFrame d.wireFlags = true ∨ zmpIsRequestReplyKind d.wireKind = true →
    d.applicationMultipartInProgress = false
  next : d.nextApplicationMultipartInProgress =
    if zmpIsSpecialFrame d.wireFlags then d.applicationMultipartInProgress
    else hasAny d.wireFlags zmpFlagMore

def Keeps (limit : ℕ) (fs : List Msg) (p : Rc × Decoder σ τ) : Prop :=
  match p.1 with
  | .more => Accounted limit fs p.2
  | .frame => Accounted limit (fs ++ [p.2.inProgress]) p.2
  | .error errno => errno = .eagain → Held limit fs p.2

theorem Held.sizeReady
    (msgSize : UInt32) (h : Held limit fs d) : Keeps limit fs (sizeReady host d msgSize) := by
  rcases hr : Decoder.sizeReady host d msgSize with ⟨rc, d'⟩
  rcases sizeReady_cases host hr with
    ⟨errno, rfl⟩ | ⟨subject, reservation, msg, next, hlimit, hnext, hm, hd⟩
  · intro herrno
    obtain rfl : errno = .eagain := herrno
    obtain ⟨subject, next, -, rfl⟩ := sizeReady_eagain hr
    exact ⟨⟨h.frames, h.max_eq, h.flag, h.total⟩, h.flags, h.nest, h.next⟩
  · rw [hd, startPayload]
    split
    case isTrue hzero =>
      -- the empty payload is read by a decoder with nothing left to read
      have hp : PayloadOk limit fs
          { ({ d with nextApplicationMultipartPayloadSize := next }.admitted
            subject reservation msg) with toRead := 0 } :=
        h.payloadOk h.flags h.nest hlimit hnext hm (by rw [hzero]; rfl) h.next rfl
      exact Balanced.completeFrame
        (d := { ({ d with nextApplicationMultipartPayloadSize := next }.admitted
            subject reservation msg) with toRead := 0 })
        ⟨h.frames, h.max_eq, h.flag, h.total⟩ hp rfl
    case isFalse hpos =>
      refine ⟨⟨h.frames, h.max_eq, h.flag, h.total⟩, by simp, fun _ => ?_⟩
      exact h.payloadOk h.flags h.nest hlimit hnext hm rfl h.next rfl

theorem Balanced.validateHeaderAndAdmit
    (h : Balanced limit fs d) (hflags : d.msgFlags = msgFlagsOfWire d.wireFlags) :
    Keeps limit fs (validateHeaderAndAdmit host d) := by
  rcases hr : Decoder.validateHeaderAndAdmit host d with ⟨rc, d'⟩
  rcases validateHeaderAndAdmit_cases host hr with rfl | ⟨hnest, hs⟩
  · exact fun herrno => absurd herrno (by simp)
  · rw [← hs]
    exact Held.sizeReady (d := d.atAdmission) host _
      ⟨⟨h.frames, h.max_eq, h.flag, h.total⟩, hflags, hnest, rfl⟩

theorem Accounted.runNext
    (h : Accounted limit fs d) (hzero : d.toRead = 0) : Keeps limit fs (runNext host d) := by
  rw [Decoder.runNext]
  split
  case h_1 hnext =>
    rcases hr : headerReady host d with ⟨rc, d'⟩
    rcases headerReady_cases host hr with
      rfl | ⟨hrefused, ⟨rfl, rfl⟩ | hv⟩
    · exact fun herrno => absurd herrno (by simp)
    · exact ⟨⟨h.frames, h.max_eq, h.flag, h.total⟩, fun _ => rfl, by simp⟩
    · rw [← hv]
      exact Balanced.validateHeaderAndAdmit (d := d.parsed) host
        ⟨h.frames, h.max_eq, h.flag, h.total⟩ rfl
  case h_2 hnext =>
    rcases hr : sequenceReady host d with ⟨rc, d'⟩
    rcases sequenceReady_cases host hr with rfl | hv
    · exact fun herrno => absurd herrno (by simp)
    · rw [← hv]
      exact Balanced.validateHeaderAndAdmit host
        ⟨h.frames, h.max_eq, h.flag, h.total⟩ (h.header hnext)
  case h_3 hnext =>
    exact h.toBalanced.completeFrame (h.payload hnext) (by rw [announced, hzero, Nat.add_zero])

/-- What the result of an action keeps, as a caller of `decode` sees it. -/
def KeepsAnswer (limit : ℕ) (fs : List Msg) : Answer Msg Failure × Decoder σ τ → Prop
  | (.more, d) => Accounted limit fs d
  | (.emit f, d) => Accounted limit (fs ++ [f]) d
  | (.fail f, d) => f.errno = .eagain → Held limit fs d

theorem Keeps.answer {p : Rc × Decoder σ τ}
    (h : Keeps limit fs p) : KeepsAnswer limit fs (answer p) := by
  obtain ⟨_ | _ | errno, d⟩ := p <;> exact h

theorem accounted_contract (limit : ℕ) (fs : List Msg) :
    (zmpReader host).Contract (Accounted limit fs) (fun f => Accounted limit (fs ++ [f]))
      (fun f d => f.errno = .eagain → Held limit fs d) := by
  have hact {d : Decoder σ τ} {r : Answer Msg Failure × Decoder σ τ}
      (hzero : d.toRead = 0) (hr : (zmpReader host).act d = r)
      (h : Accounted limit fs d) : KeepsAnswer limit fs r :=
    hr ▸ (h.runNext host hzero).answer
  exact ⟨fun b hpos h => h.store b hpos, fun hzero hr h => hact hzero hr h,
    fun hzero hr h => hact hzero hr h, fun hzero hr h => hact hzero hr h⟩

theorem Accounted.congr
    (hbare : d'.bare = d.bare) (h : Accounted limit fs d) : Accounted limit fs d' := by
  have hb : Accounted limit fs d.bare :=
    ⟨⟨h.frames, h.max_eq, h.flag, h.total⟩, h.header, fun hbody =>
      ⟨(h.payload hbody).frame, (h.payload hbody).flag, (h.payload hbody).total⟩⟩
  rw [← hbare] at hb
  exact ⟨⟨hb.frames, hb.max_eq, hb.flag, hb.total⟩, hb.header, fun hbody =>
    ⟨(hb.payload hbody).frame, (hb.payload hbody).flag, (hb.payload hbody).total⟩⟩

theorem Held.congr (hbare : d'.bare = d.bare) (h : Held limit fs d) : Held limit fs d' := by
  have hb : Held limit fs d.bare :=
    ⟨⟨h.frames, h.max_eq, h.flag, h.total⟩, h.flags, h.nest, h.next⟩
  rw [← hbare] at hb
  exact ⟨⟨hb.frames, hb.max_eq, hb.flag, hb.total⟩, hb.flags, hb.nest, hb.next⟩

end Decoder

namespace Engine

open Decoder

variable {σ τ : Type} {host : Host σ τ} {consume : σ → τ → σ}

structure Metered (limit : ℕ) (e : Engine σ τ) : Prop where
  frames : FramesOk limit e.frames
  running : e.life = .reading → e.failure = none → e.stopped = false →
    Accounted limit e.frames e.decoder
  held : e.life = .reading → e.failure = none → e.stopped = true → Held limit e.frames e.decoder

variable {limit : ℕ} {e : Engine σ τ}

theorem Metered.absorb {rest : List UInt8}
    {r : Answer Msg Failure × Decoder σ τ} (h : FramesOk limit e.frames)
    (hk : KeepsAnswer limit e.frames r) : Metered limit (e.absorb rest r) := by
  obtain ⟨_ | f | f, d⟩ := r
  · exact ⟨h, fun _ _ _ => hk, fun _ _ hs => absurd hs (by simp [Engine.absorb])⟩
  · exact ⟨hk.frames, fun _ _ _ => hk, fun _ _ hs => absurd hs (by simp [Engine.absorb])⟩
  · rw [Engine.absorb]
    split
    case isTrue herrno =>
      exact ⟨h, fun _ _ hs => absurd hs (by simp), fun _ _ _ => hk herrno⟩
    case isFalse =>
      exact ⟨h, fun _ hf => absurd hf (by simp), fun _ hf => absurd hf (by simp)⟩

theorem Metered.congr (h : Metered limit e)
    {d : Decoder σ τ} (delivering : Bool) (hbare : d.bare = e.decoder.bare) :
    Metered limit { e with decoder := d, delivering := delivering } :=
  ⟨h.frames, fun hl hf hs => (h.running hl hf hs).congr hbare,
    fun hl hf hs => (h.held hl hf hs).congr hbare⟩

theorem Metered.step {e' : Engine σ τ} {v : Event}
    (hv : e.step host consume v = some e') (hready : e.Ready)
    (h : Metered limit e) : Metered limit e' := by
  obtain ⟨hg, rfl⟩ := step_eq_some host consume |>.mp hv
  cases v with
  | decode c =>
    obtain ⟨hlife, hf, hstop, -⟩ := hg
    have hpos : 0 < (zmpReader host).need e.decoder := hready hlife hf hstop
    have hcall := (accounted_contract host limit e.frames).scan hpos
      (h.running hlife hf hstop) (e.rest.take c.size)
    rw [perform, (zmpReader host).decode_eq_scan hpos]
    rcases hscan : (zmpReader host).scan e.decoder (e.rest.take c.size) with
      ⟨_ | f | f, used, d⟩ <;> rw [hscan] at hcall <;>
      exact Metered.absorb h.frames hcall
  | retry =>
    obtain ⟨hlife, hf, hstop⟩ := hg
    refine Metered.absorb h.frames (Keeps.answer ?_)
    rw [retryFrameAdmission]
    split
    · exact fun herrno => absurd herrno (by simp)
    · exact (h.held hlife hf hstop).sizeReady host _
  | consume => exact h.congr false (consumeReservation_fields consume e.decoder).1
  | discard => exact h.congr false (releaseFrameReservation_fields host e.decoder).1
  | configure => exact h.congr e.delivering rfl
  | streamEnd =>
    rw [perform]
    split <;> exact ⟨h.frames, fun hl => absurd hl (by simp), fun hl => absurd hl (by simp)⟩
  | detach | destroy =>
    exact ⟨h.frames, fun hl => absurd hl (by simp [perform]),
      fun hl => absurd hl (by simp [perform])⟩

theorem computeApplicationMessageMax_of_pos {maxmsgsize : Int64} (h : 0 < maxmsgsize) :
    (computeApplicationMessageMax maxmsgsize).toNat = maxmsgsize.toNatClampNeg := by
  rw [computeApplicationMessageMax, if_pos h, Int64.toNat_toUInt64_of_le (Int64.le_of_lt h)]

theorem metered_run {maxmsgsize : Int64} (hmax : 0 < maxmsgsize)
    {attached : Bool} {subject : σ} {stream : List UInt8} {events : List Event}
    (hrun : run host consume (init maxmsgsize attached subject stream) events =
      some e) : Metered maxmsgsize.toNatClampNeg e := by
  have hboth : Ready e ∧ Metered maxmsgsize.toNatClampNeg e := by
    refine run_induct (P := fun e => Ready e ∧ Metered maxmsgsize.toNatClampNeg e) host consume
      (fun hv h => ⟨h.1.step hv, h.2.step hv h.1⟩) hrun
      ⟨fun _ _ _ => Nat.zero_lt_succ 7, ?_⟩
    rw [← computeApplicationMessageMax_of_pos hmax]
    have hinit := Accounted.init (σ := σ) (τ := τ) maxmsgsize attached subject
    exact ⟨hinit.frames, fun _ _ _ => hinit, fun _ _ hs => absurd hs (by simp [init])⟩
  exact hboth.2

/-- On every byte stream, with every session and along every run of the engine,
under a positive limit: the parts of an application message carry at most the
limit together; a control body is within its own limit; no special frame and no
request/reply metadata is accepted while an application message is open; and the
running total of the decoder is the exact sum of the open message. The last part
says the same of a frame whose payload is still being read. -/
theorem run_limits (host : Host σ τ) (consume : σ → τ → σ) (maxmsgsize : Int64)
    (hmax : 0 < maxmsgsize) (attached : Bool) (subject : σ)
    (stream : List UInt8) (events : List Event) (e : Engine σ τ)
    (hrun : run host consume (init maxmsgsize attached subject stream) events = some e) :
    (∀ before parts after, e.frames = before ++ parts ++ after →
      openParts before = [] → IsMessage parts → payloadBytes parts ≤ maxmsgsize.toNatClampNeg) ∧
    (∀ f ∈ e.frames, hasAny f.flags Msg.command = true →
      f.data.length ≤ zmpMaxControlBodySize.toNat) ∧
    (∀ before f after, e.frames = before ++ f :: after →
      f.isSpecial = true ∨ f.requestReply ≠ none → openParts before = []) ∧
    (e.life = .reading → e.failure = none → e.decoder.applicationMultipartPayloadSize.toNat =
        payloadBytes (openParts e.frames) ∧ (e.stopped = false → e.decoder.next = .bodyReady →
        FrameOk maxmsgsize.toNatClampNeg e.frames e.decoder.inProgress e.decoder.announced)) := by
  have hm := metered_run hmax hrun
  refine ⟨fun before parts after hsplit hopen hparts =>
    hm.frames.message_le hsplit hopen hparts, ?_, ?_, ?_⟩
  · intro f hf hc
    obtain ⟨before, after, hsplit⟩ := List.append_of_mem hf
    exact (hm.frames before f after hsplit).control hc
  · intro before f after hsplit hs
    exact (hm.frames before f after hsplit).nesting hs
  · intro hlife hf
    rcases hs : e.stopped with _ | _
    · have ha := hm.running hlife hf hs
      exact ⟨ha.total, fun _ hbody => (ha.payload hbody).frame⟩
    · have hh := hm.held hlife hf hs
      exact ⟨hh.total, fun h => absurd h (by simp)⟩

/-- The limits at work on a whole run over two frames, under a limit of 1000
bytes. -/
theorem run_limits_twoFrames : ∃ events e, run plainHost (fun s _ => s)
        (init 1000 false () [0x5a, 1, 1, 0, 0, 0, 0, 1, 7,
          0x5a, 1, 0, 0, 0, 0, 0, 1, 8]) events = some e ∧ e.Done ∧
      ∀ before parts after, e.frames = before ++ parts ++ after →
        openParts before = [] → IsMessage parts → payloadBytes parts ≤ 1000 := by
  obtain ⟨events, e, hrun, -, hdone⟩ :=
    exists_done (fun s _ => s) plainHost_patient
      (tracks_init 1000 false () [0x5a, 1, 1, 0, 0, 0, 0, 1, 7, 0x5a, 1, 0, 0, 0, 0, 0, 1, 8]) rfl
      (List.replicate 18 ⟨3, false⟩) (by decide) (by decide)
  exact ⟨events, e, hrun, hdone,
    (run_limits plainHost (fun s _ => s) 1000 (by decide) false () _ events e hrun).1⟩

end Engine

end Zlink.Protocol
