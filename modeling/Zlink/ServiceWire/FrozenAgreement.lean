import Zlink.ServiceWire.FrozenCodec
import Zlink.ServiceWire.PayloadCodec

/-!
# Frozen application records and their canonical bytes

The decoder reads from the canonical bytes what the builder put there. The summary that the
builder fills from the typed fields is the same when the payload has no flow and the record has
no field of another kind of source, and then only.
-/

namespace Zlink.ServiceWire

open BigEndian Codec

variable {ws rest : List UInt8} {captureFlow : Bool}

variable {field : String}

theorem reads_text8 {field' : String} {value : Text} (h : text8 field value = .ok ws) :
    Reads (readText8 field') ws value :=
  (readText8_inverse field').reads (text8_eq_ok.mpr (text8_eq_ok.mp h))

theorem reads_bytes8 {field' : String} {value : List UInt8}
    (h : bytes8 field value = .ok ws) : Reads (readBytes8 field') ws value :=
  (readBytes8_inverse field').reads (bytes8_eq_ok.mpr (bytes8_eq_ok.mp h))

theorem reads_text16 {value : Text}
    (h : text16 field blobBytes value = .ok ws) : Reads (readText16 field blobBytes) ws value :=
  (readText16_inverse field (by decide)).reads h

theorem reads_u32 (value : UInt32) : Reads readU32 (bytesOf 4 value.toNat) value :=
  fun _ => readU32_eq_ok.mpr rfl

theorem reads_u64 (value : UInt64) : Reads readU64 (bytesOf 8 value.toNat) value :=
  fun _ => readU64_eq_ok.mpr rfl

theorem reads_nonzeroU64 {value : UInt64} (h : value ≠ 0) :
    Reads (readNonzeroU64 field) (bytesOf 8 value.toNat) value :=
  (readNonzeroU64_inverse field).reads (nonzeroU64_eq_ok.mpr ⟨h, rfl⟩)

theorem reads_body16 (field : String) {body : List UInt8} (h : body.length ≤ 65535) :
    Reads (readBody16 field) (bytesOf 2 body.length ++ body) body := by
  have hlength : (UInt16.ofNat body.length).toNat = body.length :=
    UInt16.toNat_ofNat_of_lt' (Nat.lt_succ_of_le h)
  rw [readBody16]
  refine .bind (a := UInt16.ofNat body.length) (fun rest => ?_) (.take hlength.symm)
  rw [readU16_eq_ok, hlength]

theorem reads_bool8 (value : Bool) : Reads (readBool8 field) [if value then 1 else 0] value := by
  cases value
  · exact .bind (.byte 0) (.guard (by decide) (.pure false))
  · exact .bind (.byte 1) (.guard (by decide) (.pure true))

def FrozenSourceDetails.only (details : FrozenSourceDetails) :
    FrozenSourceKind → FrozenSourceDetails
  | .node => .none
  | .spot => { FrozenSourceDetails.none with spotId := details.spotId }
  | .actor => { FrozenSourceDetails.none with actor := details.actor }
  | .boundSession => { details with spotId := .none }

theorem reads_actorSource {details : FrozenSourceDetails}
    (h : sourceDetails.actorSource details = .ok ws) :
    ∃ actor, details.actor = some actor ∧ Reads readActorSource ws actor := by
  rw [sourceDetails.actorSource] at h
  cases hactor : details.actor with
  | none =>
    rw [hactor] at h
    exact absurd h nofun
  | some actor =>
    rw [hactor] at h
    simp only [bind_eq_ok, rejectIf_eq_ok, pure_eq_ok] at h
    obtain ⟨-, hne, id, hid, rfl⟩ := h
    exact ⟨actor, rfl, .bind (reads_text8 hid) (.last (reads_nonzeroU64 hne))⟩

theorem reads_sourceDetails {sourceKind : FrozenSourceKind} {details : FrozenSourceDetails}
    (h : sourceDetails sourceKind details = .ok ws) :
    Reads (readSourceDetails sourceKind) ws (details.only sourceKind) := by
  cases sourceKind with
  | node =>
    obtain rfl := pure_eq_ok.mp h
    exact .pure _
  | spot =>
    rw [sourceDetails] at h
    rw [readSourceDetails, FrozenSourceDetails.only]
    cases hspot : details.spotId with
    | none =>
      rw [hspot] at h
      cases h
    | some spotId =>
      rw [hspot] at h
      exact .last (reads_text8 h)
  | actor =>
    obtain ⟨actor, hactor, hreads⟩ := reads_actorSource h
    rw [readSourceDetails, FrozenSourceDetails.only, hactor]
    exact .last hreads
  | boundSession =>
    obtain ⟨actorBytes, hactorBytes, h⟩ := bind_eq_ok.mp h
    obtain ⟨actor, hactor, hreads⟩ := reads_actorSource hactorBytes
    rw [readSourceDetails, FrozenSourceDetails.only, hactor]
    cases hrid : details.sessionRoutingId with
    | none =>
      rw [hrid] at h
      cases h
    | some rid =>
      rw [hrid] at h
      simp only [bind_eq_ok, rejectIf_eq_ok, pure_eq_ok, not_or] at h
      obtain ⟨-, ⟨hbinding, hsequence⟩, rid, hrid, rfl⟩ := h
      rw [List.append_assoc, List.append_assoc]
      exact .bind hreads (.bind (reads_bytes8 hrid)
        (.bind (reads_nonzeroU64 hbinding) (.last (reads_nonzeroU64 hsequence))))

variable {record : FrozenApplicationRecord}

theorem reads_frozenSource (h : frozenSource record = .ok ws) :
    ∃ body, Reads (readBody16 "frozen source") ws body ∧ Reads (readSource record.sourceKind) body
        (record.source, record.details.only record.sourceKind) := by
  simp only [frozenSource, bind_eq_ok, rejectIf_eq_ok, pure_eq_ok, not_or] at h
  obtain ⟨rid, hrid, -, ⟨hnode, -, hlease⟩, ownerId, hownerId, details, hdetails, -, hlength,
    rfl⟩ := h
  refine ⟨_, reads_body16 _ (not_lt.mp hlength), ?_⟩
  simp only [List.append_assoc]
  exact .bind (reads_bytes8 hrid) (.bind (reads_nonzeroU64 hnode) (.bind (reads_text8 hownerId)
    (.bind (reads_nonzeroU64 hlease) (.last (reads_sourceDetails hdetails)))))

variable {hop : UInt8}

theorem decodeFollowHopMetadata_hop (h : hop ≤ messageFollowHopCount) :
    decodeFollowHopMetadata (hopMetadataEntry hop).value = .ok hop := by
  have hle : hop.toNat ≤ 8 := UInt8.le_iff_toNat_le.mp h
  obtain ⟨hop, rfl⟩ : ∃ n : Fin 9, hop = UInt8.ofNat n := ⟨⟨hop.toNat, by omega⟩, by simp⟩
  revert hop
  decide

variable {frame : List UInt8}

theorem readMetadataEntries_cons {frame' : List UInt8} {entry : FrozenMetadataEntry}
    {keys : List Text} (h : appendMetadataEntry frame entry = .ok frame')
    (hkey : entry.key ∉ keys) : ∃ ws, frame' = frame ++ ws ∧ ∀ {hop hop' : UInt8},
      followHop entry.key entry.value hop = .ok hop' → ∀ start count rest,
        start = frame'.length + rest.length →
        (readMetadataEntries start (count + 1) keys hop).run (ws ++ rest) =
          (readMetadataEntries start count (keys ++ [entry.key]) hop').run rest := by
  simp only [appendMetadataEntry, bind_eq_ok, rejectIf_eq_ok, pure_eq_ok, not_or, not_lt] at h
  obtain ⟨-, ⟨hsize, hframe⟩, key, hkeyBytes, value, hvalueBytes, rfl⟩ := h
  refine ⟨key ++ value, List.append_assoc frame key value, fun hhop start count rest hstart => ?_⟩
  have hlength : (frame ++ key ++ value).length ≤ metadataBytes := by
    rw [(text8_eq_ok.mp hkeyBytes).2, (text16_eq_ok.mp hvalueBytes).2]
    simp only [List.length_append, List.length_cons, bytesOf_length]
    omega
  have hbound : ¬ metadataBytes < start - rest.length := by
    rw [hstart, Nat.add_sub_cancel]
    exact not_lt.mpr hlength
  rw [readMetadataEntries, List.append_assoc, (reads_text8 hkeyBytes).run_bind, rejectIf,
    if_neg hkey, pure_bind, (reads_text16 hvalueBytes).run_bind, hhop, Reader.lift_ok_bind,
    Reader.run_get_bind, rejectIf, if_neg hbound, pure_bind]

theorem readMetadataEntries_append {frame' : List UInt8}
    {entries : List FrozenMetadataEntry} {keys : List Text}
    (h : appendMetadataEntries frame keys entries = .ok frame') : ∃ ws, frame' = frame ++ ws ∧
      (∀ entry ∈ entries, entry.key ≠ messageFollowHopCountMetadataKey) ∧
      ∀ start count rest hop, start = frame'.length + rest.length →
        (readMetadataEntries start (entries.length + count) keys hop).run (ws ++ rest) =
          (readMetadataEntries start count (keys ++ entries.map FrozenMetadataEntry.key) hop).run
            rest := by
  induction entries generalizing frame keys with
  | nil =>
    obtain rfl := pure_eq_ok.mp h
    refine ⟨[], (List.append_nil frame').symm, fun _ h => absurd h List.not_mem_nil, ?_⟩
    intro start count rest hop hstart
    rw [List.length_nil, Nat.zero_add, List.map_nil, List.append_nil, List.nil_append]
  | cons entry entries ih =>
    simp only [appendMetadataEntries, bind_eq_ok, rejectIf_eq_ok, not_or] at h
    obtain ⟨-, ⟨hreserved, hkey⟩, next, hnext, hrest⟩ := h
    obtain ⟨tail, rfl, hkeys, htail⟩ := ih hrest
    obtain ⟨first, rfl, hfirst⟩ := readMetadataEntries_cons hnext hkey
    refine ⟨first ++ tail, List.append_assoc frame first tail,
      List.forall_mem_cons.mpr ⟨hreserved, hkeys⟩, fun start count rest hop hstart => ?_⟩
    have hhop : followHop entry.key entry.value hop = .ok hop := if_neg hreserved
    rw [List.length_cons, Nat.add_right_comm, List.append_assoc, hfirst hhop,
      htail _ _ _ _ hstart, List.append_assoc, List.map_cons, List.singleton_append]
    simp only [hstart, List.length_append, Nat.add_assoc]

theorem reads_metadataFrame {count : ℕ} {entries : List UInt8} (hcount : count ≤ 255) (h : ∀ rest,
      (readMetadataEntries ([1, UInt8.ofNat count] ++ entries ++ rest).length count [] 0).run
        (entries ++ rest) = .ok (hop, rest)) :
    Reads readMetadataFrame ([1, .ofNat count] ++ entries) hop := by
  intro rest
  have hread := h rest
  rw [← UInt8.toNat_ofNat_of_lt' (Nat.lt_succ_of_le hcount)] at hread
  simp only [readMetadataFrame, Reader.run_bind_eq_ok, Reader.run_get_eq_ok, Reader.run_byte_eq_ok,
    Reader.run_rejectIf_eq_ok]
  exact ⟨_, _, ⟨rfl, rfl⟩, 1, _, rfl, (), _, ⟨not_not.mpr rfl, rfl⟩, _, _, rfl, hread⟩

variable {kind : FrozenRecordKind}

theorem reads_metadata (hkind : kind.metadataAllowed) (h : Reads readMetadataFrame frame hop) :
    Reads (readMetadata kind) (1 :: frame) (true, hop) :=
  .bind (reads_bool8 true) (.guard (by simp [hkind]) (.last h))

theorem reads_frozenMetadata {metadata : List FrozenMetadataEntry}
    (h : frozenMetadata metadata hop = .ok ws) (hhop : hop ≤ messageFollowHopCount)
    (hkind : kind.metadataAllowed) :
    Reads (readMetadata kind) ws (metadata ≠ [] || hop ≠ 0, hop) := by
  rw [frozenMetadata] at h
  by_cases hzero : hop = 0
  · subst hzero
    rw [if_neg (not_not.mpr rfl), Nat.add_zero] at h
    cases metadata with
    | nil =>
      obtain rfl := pure_eq_ok.mp h
      exact .bind (reads_bool8 false) (.pure (false, 0))
    | cons entry entries =>
      simp only [List.length_cons, Nat.add_eq_zero_iff, one_ne_zero, and_false, if_false,
        bind_eq_ok, rejectIf_eq_ok, pure_eq_ok, not_lt, ne_eq, not_true_eq_false] at h
      obtain ⟨-, hcount, frame, hframe, _, rfl, rfl⟩ := h
      obtain ⟨entries', rfl, -, hread⟩ := readMetadataEntries_append hframe
      refine reads_metadata hkind (reads_metadataFrame hcount fun rest => ?_)
      exact hread _ 0 rest 0 List.length_append
  · have hsome : (metadata ≠ [] || hop ≠ 0) = true := by simp [hzero]
    simp only [hzero, ne_eq, not_false_eq_true, if_true, Nat.add_eq_zero_iff, one_ne_zero,
      and_false, if_false, bind_eq_ok, rejectIf_eq_ok, pure_eq_ok, not_lt] at h
    obtain ⟨-, hcount, frame, hframe, _, hentry, rfl⟩ := h
    obtain ⟨entries, rfl, hkeys, hread⟩ := readMetadataEntries_append hframe
    have hfresh : (hopMetadataEntry hop).key ∉ metadata.map FrozenMetadataEntry.key := by
      intro hmem
      obtain ⟨entry, hentry, hkey⟩ := List.mem_map.mp hmem
      exact hkeys entry hentry hkey
    obtain ⟨last, rfl, hlast⟩ := readMetadataEntries_cons hentry hfresh
    have hvalue : followHop (hopMetadataEntry hop).key (hopMetadataEntry hop).value 0 = .ok hop :=
      (if_pos rfl).trans (decodeFollowHopMetadata_hop hhop)
    rw [hsome, List.append_assoc]
    refine reads_metadata hkind (reads_metadataFrame hcount fun rest => ?_)
    rw [List.append_assoc entries, hread _ 1 _ 0, List.nil_append, hlast hvalue]
    · rfl
    all_goals simp only [List.length_append, Nat.add_assoc]

theorem reads_replyRoute {replyRouteId : Option UInt64} {operationKind : UInt32}
    (h : frozenReplyRoute replyRouteId = .ok ws)
    (hkind : requiresReply operationKind = replyRouteId.isSome) :
    ∃ body, Reads (readBody16 "frozen reply route") ws body ∧
      Reads (readReplyRoute operationKind) body replyRouteId := by
  rw [readReplyRoute, hkind]
  cases replyRouteId with
  | none =>
    obtain rfl := pure_eq_ok.mp h
    exact ⟨[], reads_body16 _ (Nat.zero_le _), .pure _⟩
  | some replyRouteId =>
    simp only [frozenReplyRoute, bind_eq_ok, rejectIf_eq_ok, pure_eq_ok] at h
    obtain ⟨-, hne, rfl⟩ := h
    refine ⟨bytesOf 8 replyRouteId.toNat, ?_, ?_⟩
    · have hshort : (bytesOf 8 replyRouteId.toNat).length ≤ 65535 := by
        rw [bytesOf_length]
        decide
      have hbody := reads_body16 "frozen reply route" hshort
      rwa [bytesOf_length] at hbody
    · rw [Option.isSome_some, if_pos rfl, map_eq_pure_bind]
      exact .last (reads_nonzeroU64 hne)

def ApplicationPayload.asBytes (payload : ApplicationPayload) : ApplicationPayload :=
  ⟨.bytes payload.packetName payload.contentType payload.body.stored, none, none⟩

variable {n t : List UInt8}

theorem checkApplicationBody_parse {body name type : List UInt8}
    (hn : text8 "packet name" name = .ok n) (ht : text8 "content type" type = .ok t)
    (hbody : body.length ≤ maxU32) :
    checkApplicationBody.parse (n ++ (t ++ (bytesOf 4 body.length ++ body))) = .ok () := by
  have hsize : readU32.run (bytesOf 4 body.length ++ body) =
      .ok (UInt32.ofNat body.length, body) := by
    rw [readU32_eq_ok, toNat_ofNat_u32 hbody]
  refine Reader.parse_eq_ok_iff.mpr ⟨body, ?_⟩
  rw [checkApplicationBody, (reads_text8 hn).run_bind, (reads_text8 ht).run_bind,
    Reader.run_bind_eq_ok]
  refine ⟨_, _, hsize, ?_⟩
  simp only [Reader.run_bind_eq_ok, Reader.run_get_eq_ok, Reader.run_rejectIf_eq_ok]
  exact ⟨_, _, ⟨rfl, rfl⟩, not_not.mpr (toNat_ofNat_u32 hbody).symm, rfl⟩

theorem reads_envelope (captureFlow : Bool) {payload : ApplicationPayload} {bytes : List UInt8}
    (h : payload.Encoded bytes n t) (hflow : payload.flow = none) :
    Reads (readApplicationPayloadEnvelope captureFlow) bytes payload.asBytes := by
  have hdecode : decodeApplicationPayload bytes captureFlow = .ok payload.asBytes := by
    rw [decodeApplicationPayload, h.decode captureFlow, hflow, ite_self]
    rfl
  have hlength := h.length
  have hbytes := h.bytes
  rw [hflow] at hlength hbytes
  have hbody : payload.body.stored.length ≤ maxU32 := by
    refine le_trans ?_ hlength
    rw [frame, List.length_append, List.length_append, List.length_append, List.length_append]
    omega
  have hframe : frame n t payload.body.stored (flowBytes none) =
      n ++ (t ++ (bytesOf 4 payload.body.stored.length ++ payload.body.stored)) := by
    rw [frame, flowBytes, List.append_nil]
  have hcheck : checkApplicationBody.parse (frame n t payload.body.stored (flowBytes none)) =
      .ok () := by
    rw [hframe]
    exact checkApplicationBody_parse h.packetName h.contentType hbody
  intro rest
  have htaken : (bytes ++ rest).take ((bytes ++ rest).length - rest.length) = bytes := by
    rw [List.length_append, Nat.add_sub_cancel, List.take_left]
  simp only [readApplicationPayloadEnvelope, Reader.run_bind_eq_ok, Reader.run_get_eq_ok,
    Reader.run_byte_eq_ok, Reader.run_rejectIf_eq_ok, readU32_eq_ok, Reader.run_take_eq_ok,
    Reader.run_lift_eq_ok]
  refine ⟨_, _, ⟨rfl, rfl⟩, 1, _, by rw [hbytes]; rfl, (), _, ⟨not_not.mpr rfl, rfl⟩, _, _, ?_, _,
    rest, ⟨(toNat_ofNat_u32 hlength).symm, rfl⟩, (), _, ⟨hcheck, rfl⟩, _, _, ⟨rfl, rfl⟩, ?_, rfl⟩
  · rw [toNat_ofNat_u32 hlength]
    exact List.append_assoc _ _ rest
  · rw [htaken]
    exact hdecode

theorem envelope_ne_ok {payload : ApplicationPayload} {bytes : List UInt8}
    (h : payload.Encoded bytes n t) (hflow : payload.flow ≠ none)
    {decoded : ApplicationPayload} {rest' : List UInt8} :
    (readApplicationPayloadEnvelope captureFlow).run (bytes ++ rest) ≠ .ok (decoded, rest') := by
  intro hrun
  simp only [readApplicationPayloadEnvelope, Reader.run_bind_eq_ok, Reader.run_get_eq_ok,
    Reader.run_byte_eq_ok, Reader.run_rejectIf_eq_ok] at hrun
  obtain ⟨_, _, ⟨rfl, rfl⟩, version, _, hversion, _, _, ⟨hone, rfl⟩, -⟩ := hrun
  obtain ⟨hversion, -⟩ := List.cons.inj ((congrArg (· ++ rest) h.bytes).symm.trans hversion)
  rw [flowVersion, if_pos (Option.isSome_iff_ne_none.mpr hflow)] at hversion
  exact hone fun hone => absurd (hversion.trans hone) (by decide)

theorem reads_spotRoute {body : FrozenSpotApplicationBody} (h : frozenSpotRoute body = .ok ws) :
    Reads readSpotRoute ws (FrozenApplicationBody.spot body).target := by
  simp only [frozenSpotRoute, bind_eq_ok, rejectIf_eq_ok, pure_eq_ok, not_or] at h
  obtain ⟨id, hid, -, ⟨hobject, hnode, howner, hlease⟩, rid, hrid, rfl⟩ := h
  simp only [List.append_assoc]
  exact .bind (reads_text8 hid) (.bind (reads_nonzeroU64 hobject) (.bind (reads_bytes8 hrid)
    (.bind (reads_nonzeroU64 hnode) (.bind (reads_nonzeroU64 howner)
      (.last (reads_nonzeroU64 hlease))))))

theorem reads_actorRoute {body : FrozenActorApplicationBody} (h : frozenActorRoute body = .ok ws) :
    Reads readActorRoute ws (FrozenApplicationBody.actor body).target := by
  simp only [frozenActorRoute, bind_eq_ok, rejectIf_eq_ok, pure_eq_ok, not_or] at h
  obtain ⟨id, hid, -, ⟨hobject, hnode, howner, hlease⟩, rid, hrid, rfl⟩ := h
  simp only [List.append_assoc]
  exact .bind (reads_text8 hid) (.bind (reads_nonzeroU64 hobject) (.bind (reads_bytes8 hrid)
    (.bind (reads_nonzeroU64 hnode) (.bind (reads_nonzeroU64 howner)
      (.last (reads_nonzeroU64 hlease))))))

def FrozenRecordKind.Fits (kind : FrozenRecordKind) : FrozenApplicationBody → Prop
  | .spot _ => kind = .spotSend ∨ kind = .spotRequest
  | .actor _ => kind = .actorSend ∨ kind = .actorRequest

variable {body : FrozenApplicationBody}

theorem readFrozenBody_eq (captureFlow : Bool)
    (hkind : kind.Fits body) (h : frozenBody body = .ok ws) :
    ∃ readTarget route application, ws = route ++ application ∧
      body.application.encode = .ok application ∧ Reads readTarget route body.target ∧
      readFrozenBody kind captureFlow = (do
        let target ← readTarget
        let application ← readApplicationPayloadEnvelope captureFlow
        pure ⟨none, some target, some application⟩) := by
  obtain ⟨route, hroute, h⟩ := bind_eq_ok.mp h
  obtain ⟨application, happlication, h⟩ := bind_eq_ok.mp h
  obtain rfl := pure_eq_ok.mp h
  cases body with
  | spot body =>
    refine ⟨readSpotRoute, route, application, rfl, happlication, reads_spotRoute hroute, ?_⟩
    obtain rfl | rfl := hkind <;> rfl
  | actor body =>
    refine ⟨readActorRoute, route, application, rfl, happlication, reads_actorRoute hroute, ?_⟩
    obtain rfl | rfl := hkind <;> rfl

theorem FrozenRecordKind.fits_of_accepted
    (h : ¬ ((!kind.isSpotMessage && !kind.isActorMessage) = true ∨
      kind.isSpotMessage ≠ body.isSpot)) : kind.Fits body := by
  cases body <;> cases kind <;> simp_all [Fits, isSpotMessage, isActorMessage,
    FrozenApplicationBody.isSpot]

theorem FrozenRecordKind.Fits.metadataAllowed
    (h : kind.Fits body) : kind.metadataAllowed = true := by
  cases body with
  | spot | actor => obtain rfl | rfl := h <;> rfl

theorem FrozenRecordKind.Fits.not_infrastructure
    (h : kind.Fits body) : kind.infrastructure = false := by
  cases body with
  | spot | actor => obtain rfl | rfl := h <;> rfl

theorem FrozenRecordKind.Fits.operationKind_le
    (h : kind.Fits body) {operationKind : UInt32} {zero : Bool}
    (hmatch : operationMatches kind operationKind zero none) : operationKind ≤ 15 := by
  have hcases : operationKind = 0 ∨ operationKind = 3 ∨ operationKind = 4 := by
    cases body with
    | spot | actor =>
      obtain rfl | rfl := h <;>
        simp_all [operationMatches]
  obtain rfl | rfl | rfl := hcases <;> decide

theorem FrozenRecordKind.ofByte?_toByte (kind : FrozenRecordKind) :
    ofByte? kind.toByte = some kind := by
  cases kind <;> rfl

theorem FrozenSourceKind.ofByte?_toByte (kind : FrozenSourceKind) :
    ofByte? kind.toByte = some kind := by
  cases kind <;> rfl

def FrozenApplicationRecord.head (record : FrozenApplicationRecord) : FrozenRecord :=
  { record.summary [] with
    details := record.details.only record.sourceKind
    target := none
    application := none }

structure FrozenApplicationRecord.Accepted (record : FrozenApplicationRecord)
    (bytes : List UInt8) : Prop where
  kind : record.kind.Fits record.body
  hop : record.messageFollowHopCount ≤ ServiceWire.messageFollowHopCount
  operation : operationMatches record.kind record.operationKind record.operation.isZero none = true
  reply : requiresReply record.operationKind = record.replyRouteId.isSome
  bytes : canonicalBytes record = .ok bytes

theorem encodeFrozenApplicationRecord_eq_ok
    {summary : FrozenRecord} (h : encodeFrozenApplicationRecord record = .ok summary) :
    ∃ bytes, summary = record.summary bytes ∧ record.Accepted bytes := by
  simp only [encodeFrozenApplicationRecord, buildFrozenApplicationRecord, if_true, bind_eq_ok,
    rejectIf_eq_ok, pure_eq_ok, validateOperationMatrix] at h
  obtain ⟨-, hkind, -, hhop, -, -, bytes, hbytes, -, ⟨-, hoperation, hreply⟩, rfl⟩ := h
  refine ⟨bytes, rfl, FrozenRecordKind.fits_of_accepted hkind, UInt8.not_lt.mp hhop, ?_,
    not_not.mp hreply, hbytes⟩
  simpa [FrozenApplicationRecord.summary] using hoperation

namespace FrozenApplicationRecord

variable {record : FrozenApplicationRecord} {bytes : List UInt8}

theorem Accepted.validate
    (h : record.Accepted bytes) : validateOperationMatrix record.head none = .ok () := by
  simp only [validateOperationMatrix, bind_eq_ok, rejectIf_eq_ok]
  refine ⟨(), ?_, not_not.mpr h.reply⟩
  simp [head, summary, h.operation]

theorem Accepted.reads_head (h : record.Accepted bytes) :
    ∃ front body, bytes = front ++ body ∧ frozenBody record.body = .ok body ∧
      Reads readFrozenHead front record.head := by
  have hbytes := h.bytes
  simp only [canonicalBytes, bind_eq_ok, pure_eq_ok] at hbytes
  obtain ⟨source, hsource, metadata, hmetadata, reply, hreply, body, hbody, rfl⟩ := hbytes
  refine ⟨_, body, rfl, hbody, ?_⟩
  obtain ⟨sourceBody, hsourceBody, hreadSource⟩ := reads_frozenSource hsource
  obtain ⟨replyBody, hreplyBody, hreadReply⟩ := reads_replyRoute hreply h.reply
  have hreadMetadata := reads_frozenMetadata hmetadata h.hop h.kind.metadataAllowed
  have hinfra : ¬ (record.kind.infrastructure = true ∧ record.sourceKind ≠ .node) := by
    rw [h.kind.not_infrastructure]
    exact fun hinfra => absurd hinfra.1 Bool.false_ne_true
  have hkinds : [record.kind.toByte, record.sourceKind.toByte] =
      [record.kind.toByte] ++ [record.sourceKind.toByte] := rfl
  rw [readFrozenHead, hkinds]
  simp only [List.append_assoc]
  refine .bind (.byte _) (.ofOption record.kind.ofByte?_toByte ?_)
  refine .bind (.byte _) (.ofOption record.sourceKind.ofByte?_toByte ?_)
  refine .bind hsourceBody (.lift hreadSource.parse_finish (.guard hinfra ?_))
  refine .bind hreadMetadata (.bind (reads_u64 _) (.bind (reads_u64 _) (.bind (reads_u32 _) ?_)))
  refine .guard (UInt32.not_lt.mpr (h.kind.operationKind_le h.operation)) ?_
  rw [← List.append_nil reply]
  exact .bind hreplyBody (.lift hreadReply.parse_finish (.pure _))

theorem Accepted.encoded (h : record.Accepted bytes) :
    ∃ n t application, record.body.application.Encoded application n t := by
  obtain ⟨front, body, -, hbody, -⟩ := h.reads_head
  simp only [frozenBody, bind_eq_ok] at hbody
  obtain ⟨-, -, application, happlication, -⟩ := hbody
  obtain ⟨⟨n, t, hencoded⟩, -⟩ := ApplicationPayload.encoded_of_encode happlication
  exact ⟨n, t, application, hencoded⟩

def decoded (record : FrozenApplicationRecord) (bytes : List UInt8) : FrozenRecord :=
  { record.summary bytes with
    details := record.details.only record.sourceKind
    application := some record.body.application.asBytes }

theorem Accepted.run_readFrozenRecord (h : record.Accepted bytes) (captureFlow : Bool) :
    ∃ readTarget body route application, Reads readTarget route record.body.target ∧
      record.body.application.encode = .ok application ∧ body = route ++ application ∧
      (readFrozenRecord captureFlow).run bytes = (do
        let target ← readTarget
        let application ← readApplicationPayloadEnvelope captureFlow
        pure { record.head with
          target := some target
          application := some application
          canonicalBytes := bytes.take (bytes.length - (← get).length) } :
            Reader FrozenRecord).run body := by
  obtain ⟨front, body, rfl, hbody, hhead⟩ := h.reads_head
  obtain ⟨readTarget, route, application, rfl, happlication, htarget, hread⟩ :=
    readFrozenBody_eq captureFlow h.kind hbody
  refine ⟨readTarget, _, route, application, htarget, happlication, rfl, ?_⟩
  have hkind : readFrozenBody record.head.kind captureFlow = _ := hread
  rw [readFrozenRecord, Reader.run_get_bind, hhead.run_bind, hkind]
  simp only [bind_assoc, pure_bind, h.validate]
  rfl

theorem Accepted.decode (h : record.Accepted bytes) (hflow : record.body.application.flowId = none)
    (captureFlow : Bool) : decodeFrozenRecord bytes captureFlow = .ok (record.decoded bytes) := by
  obtain ⟨readTarget, body, route, application, htarget, happlication, rfl, hrun⟩ :=
    h.run_readFrozenRecord captureFlow
  obtain ⟨⟨n, t, hencoded⟩, -⟩ := ApplicationPayload.encoded_of_encode happlication
  rw [← hencoded.flowId, Option.map_eq_none_iff] at hflow
  have henvelope := reads_envelope captureFlow hencoded hflow []
  rw [List.append_nil] at henvelope
  rw [decodeFrozenRecord, readWhole, Reader.parse_eq_ok_iff]
  refine ⟨[], Reader.run_bind_eq_ok.mpr ⟨record.decoded bytes, [], ?_, rfl⟩⟩
  rw [hrun, htarget.run_bind, StateT.run_bind, henvelope]
  show Except.ok (({ record.head with
    target := some record.body.target
    application := some record.body.application.asBytes
    canonicalBytes := bytes.take bytes.length } : FrozenRecord), ([] : List UInt8)) = _
  rw [List.take_length]
  rfl

theorem Accepted.flowId_of_decode {summary : FrozenRecord} (h : record.Accepted bytes)
    (hdecode : decodeFrozenRecord bytes captureFlow = .ok summary) :
    record.body.application.flowId = none := by
  obtain ⟨readTarget, body, route, application, htarget, happlication, rfl, hrun⟩ :=
    h.run_readFrozenRecord captureFlow
  obtain ⟨⟨n, t, hencoded⟩, -⟩ := ApplicationPayload.encoded_of_encode happlication
  rw [← hencoded.flowId, Option.map_eq_none_iff]
  by_contra hflow
  obtain ⟨rest, hparse⟩ := Reader.parse_eq_ok_iff.mp hdecode
  obtain ⟨record', mid, hrecord, -⟩ := Reader.run_bind_eq_ok.mp hparse
  rw [hrun, htarget.run_bind, ← List.append_nil application] at hrecord
  obtain ⟨payload, mid, henvelope, -⟩ := Reader.run_bind_eq_ok.mp hrecord
  exact envelope_ne_ok hencoded hflow henvelope

theorem decoded_equals
    (hfits : record.body.application.body.Fits) (hflowId : record.body.application.flowId = none)
    (hflowOrigin : record.body.application.flowOrigin = none) :
    (record.decoded bytes).equals (record.summary bytes) ↔
      record.details.only record.sourceKind = record.details := by
  have happlication : record.body.application.asBytes.equals record.body.application := by
    have hstored := ApplicationPayload.equals_stored hfits
    rwa [hflowId, hflowOrigin] at hstored
  rw [FrozenRecord.equals, Bool.and_eq_true, decide_eq_true_eq]
  constructor
  · intro h
    exact congrArg FrozenRecord.details h.1
  · intro h
    refine ⟨?_, happlication⟩
    rw [decoded, h]
    rfl

end FrozenApplicationRecord

def Agrees (summary : FrozenRecord) (captureFlow : Bool) : Prop :=
  (∃ decoded, decodeFrozenRecord summary.canonicalBytes captureFlow = .ok decoded ∧
    decoded.equals summary) ∧ encodeFrozenRecord summary = .ok summary.canonicalBytes

theorem canonicalBytes_ne_nil (h : canonicalBytes record = .ok ws) : ws ≠ [] := by
  simp only [canonicalBytes, bind_eq_ok, pure_eq_ok] at h
  obtain ⟨source, -, metadata, -, reply, -, body, -, rfl⟩ := h
  rintro ⟨⟩

theorem encodeFrozenRecord_of_decode {summary decoded : FrozenRecord}
    (hbytes : summary.canonicalBytes ≠ [])
    (hdecode : decodeFrozenRecord summary.canonicalBytes true = .ok decoded)
    (hcanonical : decoded.canonicalBytes = summary.canonicalBytes) (h : decoded.equals summary) :
    encodeFrozenRecord summary = .ok summary.canonicalBytes := by
  simp only [encodeFrozenRecord, bind_eq_ok, rejectIf_eq_ok, pure_eq_ok]
  refine ⟨(), hbytes, decoded, hdecode, (), ?_, trivial⟩
  rw [hcanonical, h]
  rintro ⟨⟩

/-- An accepted application record agrees with its canonical bytes if and only if its payload has
no flow and its source has no field of another kind of source. -/
theorem encodeFrozenApplicationRecord_agrees (record : FrozenApplicationRecord)
    (summary : FrozenRecord) (captureFlow : Bool)
    (h : encodeFrozenApplicationRecord record = .ok summary) :
    Agrees summary captureFlow ↔ record.body.application.flowId = none ∧
      record.details.only record.sourceKind = record.details := by
  obtain ⟨bytes, rfl, haccepted⟩ := encodeFrozenApplicationRecord_eq_ok h
  have hequals (hflow : record.body.application.flowId = none) :
      (record.decoded bytes).equals (record.summary bytes) ↔
        record.details.only record.sourceKind = record.details := by
    obtain ⟨n, t, application, hencoded⟩ := haccepted.encoded
    refine FrozenApplicationRecord.decoded_equals hencoded.bodyFits hflow ?_
    rw [← hencoded.flowId, Option.map_eq_none_iff] at hflow
    rw [← hencoded.flowOrigin, hflow]
    rfl
  constructor
  · rintro ⟨⟨decoded, hdecode, hdecoded⟩, -⟩
    have hflow := haccepted.flowId_of_decode hdecode
    obtain rfl := Except.ok.inj ((haccepted.decode hflow captureFlow).symm.trans hdecode)
    exact ⟨hflow, (hequals hflow).mp hdecoded⟩
  · rintro ⟨hflow, hdetails⟩
    have hdecoded := (hequals hflow).mpr hdetails
    exact ⟨⟨_, haccepted.decode hflow captureFlow, hdecoded⟩,
      encodeFrozenRecord_of_decode (canonicalBytes_ne_nil haccepted.bytes)
        (haccepted.decode hflow true) rfl hdecoded⟩

def spotSendRecord (flowId : Option Text) (flowOrigin : Option FlowOrigin) :
    FrozenApplicationRecord :=
  { kind := .spotSend
    sourceKind := .node
    source := ⟨ascii "owner", 1, [1], 1⟩
    details := .none
    messageFollowHopCount := 2
    metadata := [⟨ascii "key", ascii "value"⟩]
    operation := ⟨0, 1⟩
    operationKind := 0
    replyRouteId := none
    body := .spot ⟨⟨ascii "spot", 1, [2], 1, 1, 1⟩, 1,
      ⟨.bytes (ascii "name") (ascii "type") [], flowId, flowOrigin⟩⟩ }

theorem encodeFrozenApplicationRecord_agrees_spotSend :
    ∃ summary, encodeFrozenApplicationRecord (spotSendRecord none none) = .ok summary ∧
      Agrees summary true := by
  obtain ⟨summary, h⟩ := exists_eq_ok
    (x := encodeFrozenApplicationRecord (spotSendRecord none none)) (by decide +kernel)
  exact ⟨summary, h, (encodeFrozenApplicationRecord_agrees _ _ _ h).mpr ⟨rfl, rfl⟩⟩

/-- A payload with a flow is frozen into bytes that are not decoded. -/
theorem decodeFrozenRecord_rejects_flow : ∃ summary, encodeFrozenApplicationRecord
      (spotSendRecord (some (ascii "00000000-0000-7000-8000-000000000000")) (some .timer)) =
        .ok summary ∧ ∀ decoded, decodeFrozenRecord summary.canonicalBytes true ≠ .ok decoded := by
  obtain ⟨summary, h⟩ := exists_eq_ok (x := encodeFrozenApplicationRecord
    (spotSendRecord (some (ascii "00000000-0000-7000-8000-000000000000")) (some .timer)))
    (by decide +kernel)
  refine ⟨summary, h, fun decoded hdecode => ?_⟩
  obtain ⟨bytes, rfl, haccepted⟩ := encodeFrozenApplicationRecord_eq_ok h
  exact absurd (haccepted.flowId_of_decode hdecode) nofun

end Zlink.ServiceWire
