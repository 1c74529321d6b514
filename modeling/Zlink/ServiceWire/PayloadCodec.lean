import Zlink.ServiceWire.Multipart

/-!
# The payload codec

An encoded payload decodes to an equal one, with its flow or without it as the capture says,
whatever the form of the payload, and the counters of the high-water marks charge a payload and
its encoding alike.
-/

namespace Zlink.ServiceWire

open BigEndian Codec

variable {bytes rest : List UInt8} {captureFlow : Bool}

theorem FlowOrigin.ofByte?_eq_some {value : UInt8} {origin : FlowOrigin} :
    ofByte? value = some origin ↔ value = origin.toByte := by
  constructor
  · intro h
    rw [ofByte?] at h
    split_ifs at h with h1 h2 h3 h4
    · exact Option.some.inj h ▸ h1
    · exact Option.some.inj h ▸ h2
    · exact Option.some.inj h ▸ h3
    · exact Option.some.inj h ▸ h4
  · rintro rfl
    cases origin <;> rfl

theorem originOf_eq_ok {value : UInt8} {origin : FlowOrigin} :
    (originOf value).run bytes = .ok (origin, rest) ↔ value = origin.toByte ∧ rest = bytes := by
  rw [originOf, ← FlowOrigin.ofByte?_eq_some]
  cases FlowOrigin.ofByte? value with
  | none => exact iff_of_false Reader.run_throw_ne_ok fun h => nomatch h.1
  | some other =>
    rw [Reader.run_pure_eq_ok, Option.some_inj]
    exact and_congr_left' eq_comm

theorem ascii_of_lowercaseHex {b : UInt8} (h : isLowercaseHex b) : b ≤ 0x7f ∧ b ≠ 0 := by
  simp only [isLowercaseHex, Bool.or_eq_true, Bool.and_eq_true, decide_eq_true_eq] at h
  constructor
  · rcases h with h | h
    all_goals exact UInt8.le_trans h.2 (by decide)
  · rintro rfl
    exact absurd h (by decide)

theorem ascii_of_uuidText {value : Text} (h : isLowercaseUuidText value) :
    ∀ b ∈ value, b ≤ 0x7f ∧ b ≠ 0 := by
  intro b hb
  obtain ⟨index, hindex⟩ := List.getElem?_of_mem hb
  have hall := (Bool.and_eq_true _ _).mp h |>.2
  have hb := List.all_eq_true.mp hall (b, index) (List.mem_zipIdx_iff_getElem?.mpr hindex)
  dsimp only at hb
  split_ifs at hb
  · rw [of_decide_eq_true hb]
    decide
  · exact ascii_of_lowercaseHex hb

theorem uuidText_of_flowId {flowId : Text} (h : flowIdValid flowId) :
    isLowercaseUuidText flowId := by
  simp only [flowIdValid, Bool.and_eq_true] at h
  exact h.1.1

theorem length_flowId {flowId : Text} (h : flowIdValid flowId) : flowId.length = 36 :=
  of_decide_eq_true ((Bool.and_eq_true _ _).mp (uuidText_of_flowId h)).1

theorem text8_flowId {flowId : Text} (h : flowIdValid flowId) :
    text8 "flow id" flowId = .ok (36 :: flowId) := by
  have huuid := uuidText_of_flowId h
  have hlength := length_flowId h
  have hascii := ascii_of_uuidText huuid
  have hvalid : isValidNonNulUtf8 flowId := by
    rw [isValidNonNulUtf8, isValidUtf8_of_ascii fun b hb => (hascii b hb).1, Bool.and_true]
    exact decide_eq_true fun hzero => (hascii 0 hzero).2 rfl
  refine text8_eq_ok.mpr ⟨⟨?_, by omega, hvalid⟩, by rw [hlength]; rfl⟩
  rintro rfl
  cases hlength

def FlowFits (flow : Option (Text × FlowOrigin)) : Prop :=
  ∀ f ∈ flow, flowIdValid f.1

def flowVersion (flow : Option (Text × FlowOrigin)) : UInt8 :=
  if flow.isSome then 2 else 1

def flowBytes : Option (Text × FlowOrigin) → List UInt8
  | some (flowId, origin) => 36 :: (flowId ++ [origin.toByte])
  | none => []

theorem readFlow_flowBytes {flow : Text × FlowOrigin} (h : flowIdValid flow.1) :
    readFlow.run (flowBytes (some flow)) = .ok (flow, []) := by
  have htext : (readText8 "flow id").run (flowBytes (some flow)) =
      .ok (flow.1, [flow.2.toByte]) :=
    (readText8_inverse "flow id").run_append (text8_flowId h) _
  simp only [readFlow, Reader.run_bind_eq_ok, Reader.run_rejectIf_eq_ok, Reader.run_byte_eq_ok,
    Reader.run_pure_eq_ok]
  exact ⟨flow.1, _, htext, (), _, ⟨by simp [h], rfl⟩, flow.2.toByte, [], rfl, flow.2, [],
    originOf_eq_ok.mpr ⟨rfl, rfl⟩, rfl, rfl⟩

theorem skipFlow_flowBytes {flow : Text × FlowOrigin} (h : flowIdValid flow.1) :
    skipFlow.run (flowBytes (some flow)) = .ok ((), []) := by
  simp only [skipFlow, Reader.run_bind_eq_ok, Reader.run_rejectIf_eq_ok, Reader.run_byte_eq_ok,
    Reader.run_take_eq_ok, Reader.run_pure_eq_ok]
  refine ⟨36, _, rfl, (), _, ⟨by decide, rfl⟩, flow.1 ++ [flow.2.toByte], [], ⟨?_, ?_⟩, trivial,
    rfl⟩
  · rw [List.length_append, length_flowId h]
    rfl
  · rw [List.append_nil]

theorem readFlowField_flowBytes {flow : Option (Text × FlowOrigin)} (h : FlowFits flow) :
    (readFlowField (flowVersion flow) captureFlow).run (flowBytes flow) =
      .ok (if captureFlow then flow else none, []) := by
  cases flow with
  | none =>
    rw [readFlowField, if_neg (by decide)]
    cases captureFlow <;> rfl
  | some flow =>
    have hfit := h flow rfl
    rw [readFlowField, if_pos (by rfl)]
    cases captureFlow with
    | true =>
      rw [if_pos rfl, if_pos rfl, map_eq_pure_bind, Reader.run_bind_eq_ok]
      exact ⟨flow, [], readFlow_flowBytes hfit, rfl⟩
    | false =>
      rw [if_neg nofun, if_neg nofun, map_eq_pure_bind, Reader.run_bind_eq_ok]
      exact ⟨(), [], skipFlow_flowBytes hfit, rfl⟩

/-- An envelope behind its version and its length: the texts `n` and `t` behind their lengths,
the body behind its own, and the bytes of the flow. -/
def frame (n t body flow : List UInt8) : List UInt8 :=
  n ++ (t ++ (bytesOf 4 body.length ++ (body ++ flow)))

theorem toNat_ofNat_u32 {n : ℕ} (h : n ≤ maxU32) : (UInt32.ofNat n).toNat = n :=
  UInt32.toNat_ofNat_of_lt' (Nat.lt_succ_of_le h)

theorem version_valid {version : UInt8} {k : ℕ} {tail : List UInt8} :
    ¬ ((version :: (bytesOf 4 k ++ tail)).length < 5 ∨
      (version :: (bytesOf 4 k ++ tail))[0]? ≠ some 1 ∧
        (version :: (bytesOf 4 k ++ tail))[0]? ≠ some 2) ↔ version = 1 ∨ version = 2 := by
  have hlong : ¬ (version :: (bytesOf 4 k ++ tail)).length < 5 := by
    rw [List.length_cons, List.length_append, bytesOf_length]
    omega
  rw [or_iff_right hlong, List.getElem?_cons_zero, ne_eq, ne_eq, Option.some_inj, Option.some_inj,
    ← not_or, not_not]

variable {envelope : Envelope}

theorem readEnvelope_eq_ok : (readEnvelope captureFlow).run bytes = .ok (envelope, rest) ↔
      rest = [] ∧ ∃ version n t flow, (version = 1 ∨ version = 2) ∧
        text8 "packet name" envelope.packetName = .ok n ∧
        text8 "content type" envelope.contentType = .ok t ∧
        (readFlowField version captureFlow).run flow = .ok (envelope.flow, []) ∧
        (frame n t envelope.body flow).length ≤ maxU32 ∧
        bytes = version :: (bytesOf 4 (frame n t envelope.body flow).length ++
          frame n t envelope.body flow) := by
  simp only [readEnvelope, Reader.run_bind_eq_ok, Reader.run_get_eq_ok,
    Reader.run_rejectIf_eq_ok, Reader.run_byte_eq_ok, readU32_eq_ok,
    readText8_inverse _ _ _ _, Reader.run_take_eq_ok, Reader.run_finish_eq_ok,
    Reader.run_pure_eq_ok]
  constructor
  · rintro ⟨all, _, ⟨rfl, rfl⟩, _, _, ⟨hversion, rfl⟩, version, _, rfl, bodyLength, _, rfl, all, _,
      ⟨rfl, rfl⟩, _, _, ⟨hlength, rfl⟩, name, _, ⟨n, hn, rfl⟩, type, _, ⟨t, ht, rfl⟩,
      payloadLength, _, rfl, body, _, ⟨hbody, rfl⟩, flow, _, hflow, _, _, ⟨rfl, rfl⟩, rfl, rfl⟩
    rw [← hbody] at hlength ⊢
    have hlength := not_not.mp hlength
    refine ⟨rfl, version, n, t, _, version_valid.mp hversion, hn, ht, hflow, ?_, ?_⟩
    · exact (show bodyLength.toNat = _ from hlength) ▸ Nat.le_of_lt_succ bodyLength.toNat_lt
    · rw [hlength]
      rfl
  · rintro ⟨rfl, version, n, t, flow, hversion, hn, ht, hflow, hlength, rfl⟩
    have hbody : envelope.body.length ≤ maxU32 := by
      refine le_trans ?_ hlength
      rw [frame, List.length_append, List.length_append, List.length_append, List.length_append]
      omega
    refine ⟨_, _, ⟨rfl, rfl⟩, (), _, ⟨version_valid.mpr hversion, rfl⟩, version, _, rfl,
      .ofNat (frame n t envelope.body flow).length, frame n t envelope.body flow, ?_, _, _,
      ⟨rfl, rfl⟩, (), _, ⟨?_, rfl⟩, envelope.packetName, _, ⟨n, hn, rfl⟩, envelope.contentType, _,
      ⟨t, ht, rfl⟩, .ofNat envelope.body.length, envelope.body ++ flow, ?_, envelope.body, flow,
      ⟨(toNat_ofNat_u32 hbody).symm, rfl⟩, envelope.flow, [], hflow, (), [], ⟨rfl, rfl⟩, rfl, rfl⟩
    · rw [toNat_ofNat_u32 hlength]
    · exact not_not.mpr (toNat_ofNat_u32 hlength)
    · rw [toNat_ofNat_u32 hbody]

def PayloadBody.stored : PayloadBody → List UInt8
  | .bytes _ _ payload => payload
  | .parts first others => storedMultipart (first :: others)

def PayloadBody.Fits : PayloadBody → Prop
  | .bytes _ _ _ => True
  | .parts first others => IsMultipart (first :: others)

namespace ApplicationPayload

def flow (payload : ApplicationPayload) : Option (Text × FlowOrigin) :=
  match payload.flowId, payload.flowOrigin with
  | some flowId, some origin => some (flowId, origin)
  | _, _ => none

theorem sizeOfParts_eq_ok {size total : ℕ} {parts : List (List UInt8)}
    (h : sizeOfParts size parts = .ok total) :
    total = size + (storedParts parts).length ∧ PartsFit parts := by
  induction parts generalizing size with
  | nil => exact ⟨pure_eq_ok.mp h, fun _ h => absurd h List.not_mem_nil⟩
  | cons part parts ih =>
    simp only [sizeOfParts, bind_eq_ok, rejectIf_eq_ok] at h
    obtain ⟨-, hpart, -, -, hrest⟩ := h
    obtain ⟨rfl, hfit⟩ := ih hrest
    refine ⟨?_, partsFit_cons.mpr ⟨not_lt.mp hpart, hfit⟩⟩
    rw [storedParts_cons, List.length_append, length_storedPart, Nat.add_assoc]

theorem payloadSize_eq_ok {body : PayloadBody} {size : ℕ} (h : payloadSize body = .ok size) :
    size = body.stored.length ∧ body.Fits := by
  cases body with
  | bytes packetName contentType payload => exact ⟨pure_eq_ok.mp h, trivial⟩
  | parts first others =>
    simp only [payloadSize, bind_eq_ok, rejectIf_eq_ok] at h
    obtain ⟨-, hcount, hparts⟩ := h
    obtain ⟨rfl, hfit⟩ := sizeOfParts_eq_ok hparts
    refine ⟨?_, List.cons_ne_nil _ _, not_lt.mp hcount, hfit⟩
    rw [PayloadBody.stored, storedMultipart, List.length_append, bytesOf_length]

theorem concat_partFields {parts : List (List UInt8)} (h : PartsFit parts) :
    concat (parts.flatMap partFields) = .ok (storedParts parts) := by
  induction parts with
  | nil => rfl
  | cons part parts ih =>
    obtain ⟨hpart, hfit⟩ := partsFit_cons.mp h
    rw [List.flatMap_cons, concat_append_eq_ok]
    refine ⟨storedPart part, storedParts parts, ?_, ih hfit, storedParts_cons⟩
    simp only [partFields, concat_cons_eq_ok, concat_nil_eq_ok]
    refine ⟨bytesOf 4 part.length, part ++ [], ?_, ⟨part, [], rfl, rfl, rfl⟩, ?_⟩
    · rw [u32, toNat_size hpart]
    · rw [storedPart, List.append_nil]

theorem concat_bodyFields {body : PayloadBody} (h : body.Fits) :
    concat (bodyFields body) = .ok body.stored := by
  cases body with
  | bytes packetName contentType payload =>
    exact concat_cons_eq_ok.mpr ⟨payload, [], rfl, rfl, (List.append_nil payload).symm⟩
  | parts first others =>
    refine concat_cons_eq_ok.mpr ⟨_, _, ?_, concat_partFields h.2.2, rfl⟩
    rw [u32, toNat_count h.2.1]

variable {payload : ApplicationPayload}

theorem concat_flowFields (h : FlowFits payload.flow) :
    concat payload.flowFields = .ok (flowBytes payload.flow) := by
  rw [flow] at h ⊢
  rw [flowFields]
  cases hid : payload.flowId with
  | none => rfl
  | some flowId =>
    cases horigin : payload.flowOrigin with
    | none => rfl
    | some origin =>
      rw [hid, horigin] at h
      have hvalid : flowIdValid flowId := h (flowId, origin) rfl
      refine concat_cons_eq_ok.mpr ⟨_, [origin.toByte], text8_flowId hvalid, ?_, rfl⟩
      exact concat_cons_eq_ok.mpr ⟨[origin.toByte], [], rfl, rfl, rfl⟩

structure Encoded (payload : ApplicationPayload) (bytes n t : List UInt8) : Prop where
  flowId : payload.flow.map Prod.fst = payload.flowId
  flowOrigin : payload.flow.map Prod.snd = payload.flowOrigin
  flowFits : FlowFits payload.flow
  bodyFits : payload.body.Fits
  packetName : text8 "packet name" payload.packetName = .ok n
  contentType : text8 "content type" payload.contentType = .ok t
  length : (frame n t payload.body.stored (flowBytes payload.flow)).length ≤ maxU32
  bytes : bytes = flowVersion payload.flow ::
    (bytesOf 4 (frame n t payload.body.stored (flowBytes payload.flow)).length ++
      frame n t payload.body.stored (flowBytes payload.flow))

theorem flow_halves (h : payload.flowId.isSome = payload.flowOrigin.isSome) :
    payload.flow.map Prod.fst = payload.flowId ∧
      payload.flow.map Prod.snd = payload.flowOrigin := by
  rw [flow]
  cases hid : payload.flowId with
  | none =>
    rw [hid, Option.isSome_none] at h
    rw [Option.isSome_eq_false_iff.mp h.symm |> Option.isNone_iff_eq_none.mp]
    exact ⟨rfl, rfl⟩
  | some flowId =>
    rw [hid, Option.isSome_some] at h
    obtain ⟨origin, horigin⟩ := Option.isSome_iff_exists.mp h.symm
    rw [horigin]
    exact ⟨rfl, rfl⟩

theorem length_flowBytes {flow : Option (Text × FlowOrigin)} (h : FlowFits flow) :
    (flowBytes flow).length = (flow.map Prod.fst).elim 0 fun flowId => 2 + flowId.length := by
  cases flow with
  | none => rfl
  | some flow =>
    rw [flowBytes, List.length_cons, List.length_append, List.length_singleton]
    exact Nat.add_comm _ 2

theorem encoded_of_draft {d : Draft} {bytes : List UInt8}
    (hd : payload.draft = .ok d) (h : d.grown = .ok bytes) :
    (∃ n t, payload.Encoded bytes n t) ∧ bytes.length = d.size := by
  simp only [draft, bind_eq_ok, rejectIf_eq_ok, pure_eq_ok] at hd
  obtain ⟨-, hhalves, -, hvalid, size, hsize, -, hbody, rfl⟩ := hd
  obtain ⟨hid, horigin⟩ := flow_halves (not_not.mp hhalves)
  obtain ⟨rfl, hfits⟩ := payloadSize_eq_ok hsize
  have hflow : FlowFits payload.flow := by
    intro f hf
    have hsome : payload.flowId = some f.1 := by
      rw [← hid, Option.mem_def.mp hf]
      rfl
    simpa [hsome] using hvalid
  simp only [Draft.grown, concat_append_eq_ok, concat_cons_eq_ok, concat_nil_eq_ok,
    concat_bodyFields hfits, concat_flowFields hflow, u8_eq_ok, u32_eq_ok] at h
  obtain ⟨_, _, ⟨_, _, ⟨_, _, rfl, ⟨_, _, rfl, ⟨n, _, hn, ⟨t, _, ht, ⟨_, _, rfl, rfl, rfl⟩, rfl⟩,
    rfl⟩, rfl⟩, rfl⟩, hstored, rfl⟩, hflowBytes, rfl⟩ := h
  obtain rfl := Except.ok.inj hstored
  obtain rfl := Except.ok.inj hflowBytes
  have hframe : (frame n t payload.body.stored (flowBytes payload.flow)).length =
      6 + payload.packetName.length + payload.contentType.length + payload.body.stored.length +
        payload.flowId.elim 0 fun flowId => 2 + flowId.length := by
    rw [frame, List.length_append, List.length_append, List.length_append, List.length_append,
      length_of_text8 hn, length_of_text8 ht, bytesOf_length, length_flowBytes hflow, hid]
    omega
  have hlength := hframe.le.trans (not_lt.mp hbody)
  have hstoredLength : payload.body.stored.length ≤ maxU32 := by omega
  have hversion : (if payload.flowId.isSome then 2 else 1) = flowVersion payload.flow := by
    rw [flowVersion, ← hid, Option.isSome_map]
  have hbytes : [if payload.flowId.isSome then 2 else 1] ++
      (bytesOf 4 (UInt32.ofNat (6 + payload.packetName.length + payload.contentType.length +
        payload.body.stored.length +
          payload.flowId.elim 0 fun flowId => 2 + flowId.length)).toNat ++
        (n ++ (t ++ (bytesOf 4 (UInt32.ofNat payload.body.stored.length).toNat ++ [])))) ++
        payload.body.stored ++ flowBytes payload.flow =
      flowVersion payload.flow ::
        (bytesOf 4 (frame n t payload.body.stored (flowBytes payload.flow)).length ++
          frame n t payload.body.stored (flowBytes payload.flow)) := by
    rw [← hframe, toNat_ofNat_u32 hlength, toNat_ofNat_u32 hstoredLength, hversion, frame]
    simp only [List.append_assoc, List.append_nil, List.cons_append, List.nil_append]
  rw [hbytes]
  refine ⟨⟨n, t, hid, horigin, hflow, hfits, hn, ht, hlength, rfl⟩, ?_⟩
  rw [List.length_cons, List.length_append, bytesOf_length, hframe]
  dsimp only
  omega

theorem encoded_of_encode {bytes : List UInt8} (h : payload.encode = .ok bytes) :
    (∃ n t, payload.Encoded bytes n t) ∧ payload.encodeMessage = .ok bytes := by
  obtain ⟨d, hd, hgrown⟩ := bind_eq_ok.mp h
  obtain ⟨hencoded, hsize⟩ := encoded_of_draft hd hgrown
  exact ⟨hencoded, bind_eq_ok.mpr ⟨d, hd, d.native_of_grown hgrown hsize⟩⟩

theorem Encoded.decode {bytes n t : List UInt8}
    (h : payload.Encoded bytes n t) (captureFlow : Bool) : decodeEnvelope bytes captureFlow = .ok
      { packetName := payload.packetName, contentType := payload.contentType
        body := payload.body.stored
        flow := if captureFlow then payload.flow else none } := by
  refine Reader.parse_eq_ok_iff.mpr ⟨[], readEnvelope_eq_ok.mpr ⟨rfl, _, n, t, _, ?_,
    h.packetName, h.contentType, readFlowField_flowBytes h.flowFits, h.length, h.bytes⟩⟩
  rw [flowVersion]
  split_ifs
  · exact .inr rfl
  · exact .inl rfl

theorem equals_stored (h : payload.body.Fits) :
    equals ⟨.bytes payload.packetName payload.contentType payload.body.stored, payload.flowId,
      payload.flowOrigin⟩ payload := by
  obtain ⟨body, flowId, flowOrigin⟩ := payload
  cases body with
  | bytes packetName contentType payload =>
    simp [equals, ApplicationPayload.packetName, ApplicationPayload.contentType, PayloadBody.stored]
  | parts first others =>
    simp [equals, ApplicationPayload.packetName, ApplicationPayload.contentType,
      PayloadBody.stored, storesMultipart_storedMultipart h.2.1 h.2.2]

end ApplicationPayload

theorem multipartProfile_multipart :
    multipartProfile multipartPacketName multipartContentType = true := by
  simp [multipartProfile]

theorem readApplication_eq :
    readApplication = (fun e => (e.packetName, e.contentType, e.body)) <$> readEnvelope false := by
  have hflow (version : UInt8) (next : Reader (Text × Text × List UInt8)) :
      (skipFlowField version >>= fun _ => next) =
        readFlowField version false >>= fun _ => next := by
    rw [skipFlowField, readFlowField]
    by_cases h : version = 2
    · rw [if_pos h, if_pos h, if_neg Bool.false_ne_true, bind_map_left]
    · rw [if_neg h, if_neg h, pure_bind, pure_bind]
  simp only [readApplication, readEnvelope, map_bind, map_pure, hflow]

theorem encodedPayloadHwmBytes_eq (bytes : List UInt8) :
    encodedPayloadHwmBytes bytes = decodeEnvelope bytes false >>= fun envelope =>
      if multipartProfile envelope.packetName envelope.contentType then
        multipartHwmBytes.parse envelope.body
      else pure envelope.body.length := by
  rw [encodedPayloadHwmBytes, readApplication_eq, decodeEnvelope, Reader.parse, Reader.parse,
    StateT.run_map]
  cases (readEnvelope false).run bytes with
  | error e => rfl
  | ok p =>
    obtain ⟨⟨packetName, contentType, body, flow⟩, rest⟩ := p
    show (if packetName ≠ multipartPacketName ∨ contentType ≠ multipartContentType then
        pure body.length else multipartHwmBytes.parse body) =
      if multipartProfile packetName contentType then multipartHwmBytes.parse body
      else pure body.length
    by_cases hname : packetName = multipartPacketName
    · by_cases htype : contentType = multipartContentType
      all_goals simp [multipartProfile, hname, htype]
    · simp [multipartProfile, hname]

theorem skipFlow_of_readFlow {flow : Text × FlowOrigin}
    (h : readFlow.run bytes = .ok (flow, rest)) : skipFlow.run bytes = .ok ((), rest) := by
  simp only [readFlow, Reader.run_bind_eq_ok, Reader.run_rejectIf_eq_ok,
    Reader.run_byte_eq_ok, Reader.run_pure_eq_ok, readText8_inverse _ _ _ _, text8_eq_ok,
    originOf_eq_ok] at h
  obtain ⟨flowId, _, ⟨_, ⟨⟨hne, hle, -⟩, rfl⟩, rfl⟩, _, _, ⟨-, rfl⟩, _, _, rfl, origin, _,
    ⟨rfl, rfl⟩, rfl, rfl⟩ := h
  have hlength := (toNat_length8 hle).symm
  simp only [skipFlow, Reader.run_bind_eq_ok, Reader.run_rejectIf_eq_ok, Reader.run_byte_eq_ok,
    Reader.run_take_eq_ok, Reader.run_pure_eq_ok]
  refine ⟨_, _, rfl, (), _, ⟨(length8_pos hlength).mpr hne, rfl⟩, flowId ++ [origin.toByte], rest,
    ⟨?_, ?_⟩, trivial, rfl⟩
  · rw [List.length_append, ← hlength]
    rfl
  · rw [List.append_assoc]
    rfl

theorem readFlowField_without {version : UInt8} {flow : Option (Text × FlowOrigin)}
    (h : (readFlowField version captureFlow).run bytes = .ok (flow, [])) :
    (readFlowField version false).run bytes = .ok (none, []) := by
  rw [readFlowField] at h ⊢
  by_cases hversion : version = 2
  · rw [if_pos hversion] at h ⊢
    cases captureFlow with
    | false =>
      rw [if_neg Bool.false_ne_true, map_eq_pure_bind, Reader.run_bind_eq_ok] at h ⊢
      obtain ⟨u, mid, hskip, hpure⟩ := h
      obtain ⟨-, rfl⟩ := Reader.run_pure_eq_ok.mp hpure
      exact ⟨u, [], hskip, rfl⟩
    | true =>
      rw [if_pos rfl, map_eq_pure_bind, Reader.run_bind_eq_ok] at h
      obtain ⟨f, mid, hflow, hpure⟩ := h
      obtain ⟨-, rfl⟩ := Reader.run_pure_eq_ok.mp hpure
      rw [if_neg Bool.false_ne_true, map_eq_pure_bind, Reader.run_bind_eq_ok]
      exact ⟨(), [], skipFlow_of_readFlow hflow, rfl⟩
  · rw [if_neg hversion] at h ⊢
    obtain ⟨-, rfl⟩ := Reader.run_pure_eq_ok.mp h
    rfl

theorem decodeEnvelope_without (h : decodeEnvelope bytes captureFlow = .ok envelope) :
    decodeEnvelope bytes false = .ok { envelope with flow := none } := by
  obtain ⟨rest, hrest⟩ := Reader.parse_eq_ok_iff.mp h
  obtain ⟨rfl, version, n, t, flow, hversion, hn, ht, hflow, hlength, hbytes⟩ :=
    readEnvelope_eq_ok.mp hrest
  exact Reader.parse_eq_ok_iff.mpr ⟨[], readEnvelope_eq_ok.mpr ⟨rfl, version, n, t, flow, hversion,
    hn, ht, readFlowField_without hflow, hlength, hbytes⟩⟩

def Charges (parts : List (List UInt8)) (charge : ℕ) : Prop :=
  parts.getLast?.map List.length = some charge

variable {parts : List (List UInt8)}

theorem exists_charge (h : IsMultipart parts) : ∃ charge, Charges parts charge :=
  ⟨_, congrArg (Option.map List.length) (List.getLast?_eq_some_getLast h.1)⟩

theorem readApplicationParts_parse_eq_ok : readApplicationParts.parse bytes = .ok parts ↔
      IsMultipart parts ∧ bytes = storedMultipart parts := by
  simp [Reader.parse_eq_ok_iff, readApplicationParts_eq_ok]

theorem multipartHwmBytes_parse_eq_ok {charge : ℕ} : multipartHwmBytes.parse bytes = .ok charge ↔
      ∃ parts, readApplicationParts.parse bytes = .ok parts ∧ Charges parts charge := by
  simp only [Reader.parse_eq_ok_iff, multipartHwmBytes_eq_ok, readApplicationParts_eq_ok, Charges]
  constructor
  · rintro ⟨rest, parts, hparts, hbytes, hrest, hcharge⟩
    exact ⟨parts, ⟨rest, hparts, hbytes, hrest⟩, hcharge⟩
  · rintro ⟨parts, ⟨rest, hparts, hbytes, hrest⟩, hcharge⟩
    exact ⟨rest, parts, hparts, hbytes, hrest, hcharge⟩

namespace ApplicationPayload

def withoutFlow (payload : ApplicationPayload) : ApplicationPayload :=
  { payload with flowId := none, flowOrigin := none }

theorem Encoded.decodeApplicationPayload {payload : ApplicationPayload} {bytes n t : List UInt8}
    (h : payload.Encoded bytes n t) :
    ∃ decoded, decodeApplicationPayload bytes true = .ok decoded ∧ decoded.equals payload ∧
      ServiceWire.decodeApplicationPayload bytes false = .ok decoded.withoutFlow := by
  refine ⟨⟨.bytes payload.packetName payload.contentType payload.body.stored, payload.flowId,
    payload.flowOrigin⟩, ?_, equals_stored h.bodyFits, ?_⟩
  · rw [ServiceWire.decodeApplicationPayload, h.decode true, ← h.flowId, ← h.flowOrigin]
    rfl
  · rw [ServiceWire.decodeApplicationPayload, h.decode false]
    rfl

theorem multipartHwmBytes_stored {first : List UInt8} {others : List (List UInt8)}
    (h : IsMultipart (first :: others)) :
    multipartHwmBytes.parse (storedMultipart (first :: others)) =
      .ok ((first :: others).getLast (List.cons_ne_nil _ _)).length := by
  refine multipartHwmBytes_parse_eq_ok.mpr ⟨_, readApplicationParts_parse_eq_ok.mpr ⟨h, rfl⟩, ?_⟩
  rw [Charges, List.getLast?_eq_some_getLast (List.cons_ne_nil _ _)]
  rfl

theorem Encoded.hwmBytes {payload : ApplicationPayload} {bytes n t : List UInt8}
    (h : payload.Encoded bytes n t) :
    encodedPayloadHwmBytes bytes = applicationPayloadHwmBytes payload := by
  have hfits := h.bodyFits
  have hencoded : encodedPayloadHwmBytes bytes =
      if multipartProfile payload.packetName payload.contentType then
        multipartHwmBytes.parse payload.body.stored
      else pure payload.body.stored.length := by
    rw [encodedPayloadHwmBytes_eq, h.decode false]
    rfl
  rw [hencoded, applicationPayloadHwmBytes]
  cases hbody : payload.body with
  | bytes packetName contentType payload =>
    rw [ApplicationPayload.packetName, ApplicationPayload.contentType, hbody]
    dsimp only [PayloadBody.stored]
    cases multipartProfile packetName contentType <;> rfl
  | parts first others =>
    rw [hbody] at hfits
    rw [ApplicationPayload.packetName, ApplicationPayload.contentType, hbody,
      if_pos multipartProfile_multipart]
    exact multipartHwmBytes_stored hfits

end ApplicationPayload

def multipartPayload (bytes : List UInt8) (flowId : Option Text)
    (flowOrigin : Option FlowOrigin) : ApplicationPayload :=
  ⟨.bytes multipartPacketName multipartContentType bytes, flowId, flowOrigin⟩

variable {flowId : Option Text} {flowOrigin : Option FlowOrigin}

theorem decodeApplicationParts_multipartPayload :
    decodeApplicationParts (multipartPayload bytes flowId flowOrigin) =
      readApplicationParts.parse bytes := by
  simp only [decodeApplicationParts, multipartPayload, ApplicationPayload.packetName,
    ApplicationPayload.contentType, multipartProfile_multipart]
  rfl

theorem applicationPayloadHwmBytes_multipartPayload :
    applicationPayloadHwmBytes (multipartPayload bytes flowId flowOrigin) =
      multipartHwmBytes.parse bytes := by
  simp only [applicationPayloadHwmBytes, multipartPayload, multipartProfile_multipart]
  rfl

theorem decodeApplicationPartsWith_eq_ok :
    decodeApplicationPartsWith bytes captureFlow = .ok parts ↔
      ∃ envelope, decodeEnvelope bytes captureFlow = .ok envelope ∧
        multipartProfile envelope.packetName envelope.contentType = true ∧
        readApplicationParts.parse envelope.body = .ok parts := by
  simp [decodeApplicationPartsWith]

theorem encodedPayloadHwmBytes_of_envelope (h : decodeEnvelope bytes captureFlow = .ok envelope)
    (hprofile : multipartProfile envelope.packetName envelope.contentType = true) :
    encodedPayloadHwmBytes bytes = multipartHwmBytes.parse envelope.body := by
  rw [encodedPayloadHwmBytes_eq, decodeEnvelope_without h]
  exact if_pos hprofile

/-- An accepted payload decodes to an equal one, with or without its flow, its native form has
the same bytes, and it is charged as its encoding is. The bytes of a multipart are accepted by the
part decoder and by both counters alike, inside an envelope or not, and the charge is the size of
the last part. -/
theorem application_payload_codec : (∀ payload bytes, payload.encode = .ok bytes →
      (∃ decoded, decodeApplicationPayload bytes true = .ok decoded ∧ decoded.equals payload ∧
        decodeApplicationPayload bytes false = .ok decoded.withoutFlow) ∧
      payload.encodeMessage = .ok bytes ∧
      applicationPayloadHwmBytes payload = encodedPayloadHwmBytes bytes) ∧
    (∀ bytes flowId flowOrigin charge,
      applicationPayloadHwmBytes (multipartPayload bytes flowId flowOrigin) = .ok charge ↔
        ∃ parts, decodeApplicationParts (multipartPayload bytes flowId flowOrigin) = .ok parts ∧
          Charges parts charge) ∧ (∀ bytes flowId flowOrigin parts,
      decodeApplicationParts (multipartPayload bytes flowId flowOrigin) = .ok parts →
        ∃ charge, applicationPayloadHwmBytes (multipartPayload bytes flowId flowOrigin) = .ok charge
          ∧ Charges parts charge) ∧
    (∀ bytes captureFlow parts, decodeApplicationPartsWith bytes captureFlow = .ok parts →
      ∃ charge, encodedPayloadHwmBytes bytes = .ok charge ∧ Charges parts charge) ∧
    (∀ bytes captureFlow payload charge, decodeApplicationPayload bytes captureFlow = .ok payload →
      multipartProfile payload.packetName payload.contentType = true →
      encodedPayloadHwmBytes bytes = .ok charge →
        ∃ parts, decodeApplicationPartsWith bytes captureFlow = .ok parts ∧
          Charges parts charge) := by
  refine ⟨?_, ?_, ?_, ?_, ?_⟩
  · intro payload bytes h
    obtain ⟨⟨n, t, hencoded⟩, hmessage⟩ := ApplicationPayload.encoded_of_encode h
    exact ⟨hencoded.decodeApplicationPayload, hmessage, hencoded.hwmBytes.symm⟩
  · intro bytes flowId flowOrigin charge
    rw [applicationPayloadHwmBytes_multipartPayload, decodeApplicationParts_multipartPayload]
    exact multipartHwmBytes_parse_eq_ok
  · intro bytes flowId flowOrigin parts h
    rw [decodeApplicationParts_multipartPayload] at h
    rw [applicationPayloadHwmBytes_multipartPayload]
    obtain ⟨charge, hcharge⟩ := exists_charge (readApplicationParts_parse_eq_ok.mp h).1
    exact ⟨charge, multipartHwmBytes_parse_eq_ok.mpr ⟨parts, h, hcharge⟩, hcharge⟩
  · intro bytes captureFlow parts h
    obtain ⟨envelope, henvelope, hprofile, hparts⟩ := decodeApplicationPartsWith_eq_ok.mp h
    rw [encodedPayloadHwmBytes_of_envelope henvelope hprofile]
    obtain ⟨charge, hcharge⟩ := exists_charge (readApplicationParts_parse_eq_ok.mp hparts).1
    exact ⟨charge, multipartHwmBytes_parse_eq_ok.mpr ⟨parts, hparts, hcharge⟩, hcharge⟩
  · intro bytes captureFlow payload charge h hprofile hcharge
    obtain ⟨envelope, henvelope, hpayload⟩ := bind_eq_ok.mp h
    obtain rfl := pure_eq_ok.mp hpayload
    rw [encodedPayloadHwmBytes_of_envelope henvelope hprofile] at hcharge
    obtain ⟨parts, hparts, hcharges⟩ := multipartHwmBytes_parse_eq_ok.mp hcharge
    exact ⟨parts, decodeApplicationPartsWith_eq_ok.mpr ⟨envelope, henvelope, hprofile, hparts⟩,
      hcharges⟩

def flowingParts : ApplicationPayload :=
  ⟨.parts [1, 2] [[3, 4, 5]], some (ascii "00000000-0000-7000-8000-000000000000"), some .timer⟩

theorem decodeApplicationPartsWith_flowingParts :
    (flowingParts.encode >>= fun bytes => decodeApplicationPartsWith bytes false) =
      .ok [[1, 2], [3, 4, 5]] := by
  decide +kernel

/-- Two parts with a flow come back with it or without it, and are charged for the last one. -/
theorem application_payload_codec_flowingParts : ∃ bytes decoded,
    flowingParts.encode = .ok bytes ∧ (decodeApplicationPayload bytes true = .ok decoded ∧
      decoded.equals flowingParts ∧
      decodeApplicationPayload bytes false = .ok decoded.withoutFlow) ∧
    encodedPayloadHwmBytes bytes = .ok 3 ∧ Charges [[1, 2], [3, 4, 5]] 3 := by
  obtain ⟨bytes, hencode, hparts⟩ := bind_eq_ok.mp decodeApplicationPartsWith_flowingParts
  obtain ⟨⟨decoded, hdecoded⟩, -, hcharge⟩ := application_payload_codec.1 _ _ hencode
  obtain ⟨charge, hcounted, hcharges⟩ := application_payload_codec.2.2.2.1 _ _ _ hparts
  obtain rfl : 3 = charge := Option.some.inj hcharges
  exact ⟨bytes, decoded, hencode, hdecoded, hcounted, hcharges⟩

end Zlink.ServiceWire
