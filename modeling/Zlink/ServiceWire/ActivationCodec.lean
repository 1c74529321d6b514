import Zlink.ServiceWire.Activation
import Zlink.ServiceWire.PayloadCodec

/-!
# Recovery records stay inside their body

The field readers of a recovery record are bounded by the frame with its checksum. What they take
is nevertheless a part of the body, because the flag behind them must stand in the body. Behind
the last metadata entry there is no such flag: where the length of its value reaches into the
checksum, the value is a range that ends behind the frame.
-/

namespace Zlink.ServiceWire

open BigEndian Codec

variable {bytes rest ws : List UInt8}

theorem byteInBody_eq_ok {message : String} {b : UInt8} :
    (byteInBody message).run bytes = .ok (b, rest) ↔ bytes = b :: rest ∧ 4 ≤ rest.length := by
  simp only [byteInBody, Reader.run_bind_eq_ok, Reader.run_get_eq_ok, Reader.run_rejectIf_eq_ok,
    Reader.run_byte_eq_ok, not_le]
  constructor
  · rintro ⟨_, _, ⟨rfl, rfl⟩, _, _, ⟨hlength, rfl⟩, rfl⟩
    exact ⟨rfl, Nat.le_of_lt_succ hlength⟩
  · rintro ⟨rfl, hlength⟩
    exact ⟨_, _, ⟨rfl, rfl⟩, (), _, ⟨Nat.lt_succ_of_le hlength, rfl⟩, rfl⟩

theorem readText8_eq_ok {field : String} {value : Text} :
    (readText8 field).run bytes = .ok (value, rest) ↔
      ∃ ws, text8 field value = .ok ws ∧ bytes = ws ++ rest :=
  readText8_inverse field bytes value rest

theorem readBytes8_eq_ok {field : String} {value : List UInt8} :
    (readBytes8 field).run bytes = .ok (value, rest) ↔
      ∃ ws, bytes8 field value = .ok ws ∧ bytes = ws ++ rest :=
  readBytes8_inverse field bytes value rest

def sourceSpotField : Option Text → Written
  | some sourceSpotId => text8 "source SpotId" sourceSpotId
  | none => pure []

def flagByte (flag : Bool) : UInt8 :=
  if flag then 1 else 0

def kindByte (request : Bool) : UInt8 :=
  if request then 2 else 1

def replyRouteField (request : Bool) (replyRouteId : UInt64) : List UInt8 :=
  if request then bytesOf 8 replyRouteId.toNat else []

theorem readSourceSpotId_eq_ok {sourceSpotId : Option Text} :
    readSourceSpotId.run bytes = .ok (sourceSpotId, rest) ↔
      ∃ ws, sourceSpotField sourceSpotId = .ok ws ∧
        bytes = flagByte sourceSpotId.isSome :: (ws ++ rest) ∧ 4 ≤ (ws ++ rest).length := by
  rw [readSourceSpotId, Reader.run_bind_eq_ok]
  constructor
  · rintro ⟨flag, mid, hflag, hread⟩
    obtain ⟨rfl, hmid⟩ := byteInBody_eq_ok.mp hflag
    split at hread
    · rename_i hone
      rw [map_eq_pure_bind] at hread
      simp only [Reader.run_bind_eq_ok, readText8_eq_ok, Reader.run_pure_eq_ok] at hread
      obtain ⟨value, _, ⟨ws, hws, rfl⟩, rfl, rfl⟩ := hread
      exact ⟨ws, hws, by rw [hone]; rfl, hmid⟩
    · simp only [Reader.run_bind_eq_ok, Reader.run_rejectIf_eq_ok, Reader.run_pure_eq_ok] at hread
      obtain ⟨_, _, ⟨hzero, rfl⟩, rfl, rfl⟩ := hread
      exact ⟨[], rfl, by rw [not_not.mp hzero]; rfl, hmid⟩
  · rintro ⟨ws, hws, rfl, hmid⟩
    refine ⟨_, _, byteInBody_eq_ok.mpr ⟨rfl, hmid⟩, ?_⟩
    cases sourceSpotId with
    | none =>
      obtain rfl := pure_eq_ok.mp hws
      rfl
    | some value =>
      rw [if_pos (by rfl), map_eq_pure_bind]
      simp only [Reader.run_bind_eq_ok, readText8_eq_ok, Reader.run_pure_eq_ok]
      exact ⟨value, _, ⟨ws, hws, rfl⟩, rfl, rfl⟩

theorem readOperationKind_eq_ok {request : Bool} :
    readOperationKind.run bytes = .ok (request, rest) ↔
      bytes = kindByte request :: rest ∧ 4 ≤ rest.length := by
  simp only [readOperationKind, Reader.run_bind_eq_ok, byteInBody_eq_ok,
    Reader.run_rejectIf_eq_ok, Reader.run_pure_eq_ok]
  constructor
  · rintro ⟨kind, _, ⟨rfl, hrest⟩, _, _, ⟨hkind, rfl⟩, rfl, rfl⟩
    refine ⟨?_, hrest⟩
    by_cases htwo : kind = 2
    · rw [htwo]
      rfl
    · have hone : kind = 1 := by
        by_contra hone
        exact hkind ⟨hone, htwo⟩
      rw [hone]
      rfl
  · rintro ⟨rfl, hrest⟩
    refine ⟨_, _, ⟨rfl, hrest⟩, (), _, ⟨?_, rfl⟩, ?_, rfl⟩
    · cases request <;> decide
    · cases request <;> rfl

theorem readReplyRouteId_eq_ok {request : Bool} {replyRouteId : UInt64} :
    (readReplyRouteId request).run bytes = .ok (replyRouteId, rest) ↔
      bytes = replyRouteField request replyRouteId ++ rest ∧
        (request = false → replyRouteId = 0) := by
  cases request with
  | false =>
    rw [readReplyRouteId, if_neg Bool.false_ne_true, Reader.run_pure_eq_ok]
    constructor
    · rintro ⟨rfl, rfl⟩
      exact ⟨rfl, fun _ => rfl⟩
    · rintro ⟨rfl, hzero⟩
      exact ⟨hzero rfl, rfl⟩
  | true =>
    rw [readReplyRouteId, if_pos rfl, readU64_eq_ok]
    exact ⟨fun h => ⟨h, nofun⟩, And.left⟩

variable {hasMetadata : Bool}

theorem readMetadataFlag_eq_ok : readMetadataFlag.run bytes = .ok (hasMetadata, rest) ↔
      bytes = flagByte hasMetadata :: rest ∧ 4 ≤ rest.length := by
  simp only [readMetadataFlag, Reader.run_bind_eq_ok, byteInBody_eq_ok,
    Reader.run_rejectIf_eq_ok, Reader.run_pure_eq_ok]
  constructor
  · rintro ⟨flag, _, ⟨rfl, hrest⟩, _, _, ⟨hflag, rfl⟩, rfl, rfl⟩
    refine ⟨?_, hrest⟩
    by_cases hone : flag = 1
    · rw [hone]
      rfl
    · have hzero : flag = 0 := by
        have hle := UInt8.le_iff_toNat_le.mp (UInt8.not_lt.mp hflag)
        have hne : flag.toNat ≠ 1 := fun h => hone (UInt8.toNat.inj h)
        exact UInt8.toNat.inj (Nat.eq_zero_of_le_zero (Nat.le_of_lt_succ (hle.lt_of_ne hne)))
      rw [hzero]
      rfl
  · rintro ⟨rfl, hrest⟩
    refine ⟨_, _, ⟨rfl, hrest⟩, (), _, ⟨?_, rfl⟩, ?_, rfl⟩
    · cases hasMetadata <;> decide
    · cases hasMetadata <;> rfl

structure FieldTexts where
  spotId : List UInt8
  stableType : List UInt8
  meshName : List UInt8
  targetNode : List UInt8
  version : List UInt8
  sourceNode : List UInt8
  sourceSpot : List UInt8

structure FieldTexts.Of (t : FieldTexts) (a : InstanceSpotActivationHeader) : Prop where
  spotId : text8 "target SpotId" a.target.spotId = .ok t.spotId
  stableType : text8 "stable type" a.target.stableType = .ok t.stableType
  meshName : text8 "target MeshName" a.target.meshName = .ok t.meshName
  targetNode : bytes8 "target node RID" a.target.targetNodeRoutingId = .ok t.targetNode
  version : text8 "target descriptor version" a.target.descriptorVersion = .ok t.version
  sourceNode : bytes8 "source node RID" a.sourceNodeRoutingId = .ok t.sourceNode
  sourceSpot : sourceSpotField a.sourceSpotId = .ok t.sourceSpot

def FieldTexts.before (t : FieldTexts) (a : InstanceSpotActivationHeader) (rest : List UInt8) :
    List UInt8 :=
  t.spotId ++ (t.stableType ++ (t.meshName ++ (t.targetNode ++
    (bytesOf 8 a.target.targetNodeGeneration.toNat ++ (t.version ++ (t.sourceNode ++
      (bytesOf 8 a.sourceNodeGeneration.toNat ++ flagByte a.sourceSpotId.isSome ::
        (t.sourceSpot ++ kindByte a.request :: (bytesOf 8 a.operation.high.toNat ++
          (bytesOf 8 a.operation.low.toNat ++ (replyRouteField a.request a.replyRouteId ++
            (bytesOf 8 a.target.deadlineUnixMs.toNat ++ flagByte a.hasMetadata :: rest))))))))))))

theorem FieldTexts.before_append (t : FieldTexts) (a : InstanceSpotActivationHeader)
    (front rest : List UInt8) : t.before a (front ++ rest) = t.before a front ++ rest := by
  simp only [before, List.append_assoc, List.cons_append]

theorem FieldTexts.length_le (t : FieldTexts) (a : InstanceSpotActivationHeader)
    (rest : List UInt8) : rest.length ≤ (t.before a rest).length := by
  rw [show t.before a rest = t.before a [] ++ rest from t.before_append a [] rest,
    List.length_append]
  exact Nat.le_add_left _ _

theorem concat_sourceSpot {sourceSpotId : Option Text} :
    concat (sourceSpotFields sourceSpotId) = .ok bytes ↔
      ∃ ws, sourceSpotField sourceSpotId = .ok ws ∧ bytes = flagByte sourceSpotId.isSome :: ws := by
  cases sourceSpotId with
  | none =>
    simp only [sourceSpotFields, concat_cons_eq_ok, u8_eq_ok, concat_nil_eq_ok, sourceSpotField,
      pure_eq_ok]
    constructor
    · rintro ⟨_, _, rfl, rfl, rfl⟩
      exact ⟨[], rfl, rfl⟩
    · rintro ⟨_, rfl, rfl⟩
      exact ⟨_, _, rfl, rfl, rfl⟩
  | some value =>
    simp only [sourceSpotFields, concat_cons_eq_ok, u8_eq_ok, concat_nil_eq_ok, sourceSpotField]
    constructor
    · rintro ⟨_, _, rfl, ⟨ws, _, hws, rfl, rfl⟩, rfl⟩
      exact ⟨ws, hws, by rw [List.append_nil]; rfl⟩
    · rintro ⟨ws, hws, rfl⟩
      exact ⟨_, _, rfl, ⟨ws, _, hws, rfl, rfl⟩, by rw [List.append_nil]; rfl⟩

variable {a : InstanceSpotActivationHeader}

theorem concat_operationFields : concat a.operationFields = .ok bytes ↔
      bytes = kindByte a.request :: (bytesOf 8 a.operation.high.toNat ++
        (bytesOf 8 a.operation.low.toNat ++ replyRouteField a.request a.replyRouteId)) := by
  rw [InstanceSpotActivationHeader.operationFields, replyRouteField, kindByte]
  cases a.request with
  | false =>
    simp only [Bool.false_eq_true, if_false, List.append_nil, concat_cons_eq_ok, u8_eq_ok,
      u64_eq_ok, concat_nil_eq_ok]
    constructor
    · rintro ⟨_, _, rfl, ⟨_, _, rfl, ⟨_, _, rfl, rfl, rfl⟩, rfl⟩, rfl⟩
      rw [List.append_nil]
      rfl
    · rintro rfl
      exact ⟨_, _, rfl, ⟨_, _, rfl, ⟨_, _, rfl, rfl, rfl⟩, rfl⟩, by rw [List.append_nil]; rfl⟩
  | true =>
    simp only [if_true, List.cons_append, List.nil_append, concat_cons_eq_ok, u8_eq_ok,
      u64_eq_ok, concat_nil_eq_ok]
    constructor
    · rintro ⟨_, _, rfl, ⟨_, _, rfl, ⟨_, _, rfl, ⟨_, _, rfl, rfl, rfl⟩, rfl⟩, rfl⟩, rfl⟩
      rw [List.append_nil]
      rfl
    · rintro rfl
      exact ⟨_, _, rfl, ⟨_, _, rfl, ⟨_, _, rfl, ⟨_, _, rfl, rfl, rfl⟩, rfl⟩, rfl⟩,
        by rw [List.append_nil]; rfl⟩

theorem concat_recoveryFields :
    concat (recoveryFields a) = .ok ws ↔ ∃ t : FieldTexts, t.Of a ∧ ws = t.before a [] := by
  simp only [recoveryFields, concat_append_eq_ok, concat_cons_eq_ok, concat_nil_eq_ok,
    u64_eq_ok, u8_eq_ok, concat_operationFields, concat_sourceSpot]
  constructor
  · rintro ⟨_, _, ⟨_, _, ⟨_, _, ⟨id, _, hid, ⟨type, _, htype, ⟨mesh, _, hmesh, ⟨node, _, hnode,
      ⟨_, _, rfl, ⟨version, _, hversion, ⟨source, _, hsource, ⟨_, _, rfl, rfl, rfl⟩, rfl⟩, rfl⟩,
      rfl⟩, rfl⟩, rfl⟩, rfl⟩, rfl⟩, ⟨spot, hspot, rfl⟩, rfl⟩, rfl, rfl⟩,
      ⟨_, _, rfl, ⟨_, _, rfl, rfl, rfl⟩, rfl⟩, rfl⟩
    refine ⟨⟨id, type, mesh, node, version, source, spot⟩,
      ⟨hid, htype, hmesh, hnode, hversion, hsource, hspot⟩, ?_⟩
    simp only [FieldTexts.before, List.append_assoc, List.cons_append, List.nil_append]
    rfl
  · rintro ⟨t, ht, rfl⟩
    refine ⟨_, _, ⟨_, _, ⟨_, _, ⟨_, _, ht.spotId, ⟨_, _, ht.stableType, ⟨_, _, ht.meshName,
      ⟨_, _, ht.targetNode, ⟨_, _, rfl, ⟨_, _, ht.version, ⟨_, _, ht.sourceNode,
      ⟨_, _, rfl, rfl, rfl⟩, rfl⟩, rfl⟩, rfl⟩, rfl⟩, rfl⟩, rfl⟩, rfl⟩, ⟨_, ht.sourceSpot, rfl⟩,
      rfl⟩, rfl, rfl⟩, ⟨_, _, rfl, ⟨_, _, rfl, rfl, rfl⟩, rfl⟩, ?_⟩
    simp only [FieldTexts.before, List.append_assoc, List.cons_append, List.nil_append]
    rfl

structure InstanceSpotActivationHeader.Pending (a : InstanceSpotActivationHeader) : Prop where
  objectGeneration : a.target.objectGeneration = 0
  authorityOwnerGeneration : a.target.authorityOwnerGeneration = 0
  ownerId : a.target.ownerId = []
  ownerLeaseGeneration : a.target.ownerLeaseGeneration = 0
  storeVersion : a.target.storeVersion = []
  instanceIntent : a.target.instanceIntent = false

theorem readRecoveryFields_eq_ok : readRecoveryFields.run bytes = .ok (a, rest) ↔
      a.Pending ∧ (a.request = false → a.replyRouteId = 0) ∧ 4 ≤ rest.length ∧
        ∃ t : FieldTexts, t.Of a ∧ bytes = t.before a rest := by
  simp only [readRecoveryFields, Reader.run_bind_eq_ok, readText8_eq_ok, readBytes8_eq_ok,
    readU64_eq_ok, readSourceSpotId_eq_ok, readOperationKind_eq_ok, readReplyRouteId_eq_ok,
    readMetadataFlag_eq_ok, Reader.run_pure_eq_ok]
  constructor
  · rintro ⟨_, _, ⟨id, hid, rfl⟩, _, _, ⟨type, htype, rfl⟩, _, _, ⟨mesh, hmesh, rfl⟩, _, _,
      ⟨node, hnode, rfl⟩, _, _, rfl, _, _, ⟨version, hversion, rfl⟩, _, _,
      ⟨source, hsource, rfl⟩, _, _, rfl, _, _, ⟨spot, hspot, rfl, -⟩, _, _, ⟨rfl, -⟩, _, _, rfl,
      _, _, rfl, _, _, ⟨rfl, hreply⟩, _, _, rfl, _, _, ⟨rfl, hrest⟩, rfl, rfl⟩
    exact ⟨⟨rfl, rfl, rfl, rfl, rfl, rfl⟩, hreply, hrest,
      ⟨id, type, mesh, node, version, source, spot⟩,
      ⟨hid, htype, hmesh, hnode, hversion, hsource, hspot⟩, rfl⟩
  · rintro ⟨hpending, hreply, hrest, t, ht, rfl⟩
    refine ⟨_, _, ⟨_, ht.spotId, rfl⟩, _, _, ⟨_, ht.stableType, rfl⟩, _, _,
      ⟨_, ht.meshName, rfl⟩, _, _, ⟨_, ht.targetNode, rfl⟩, _, _, rfl, _, _,
      ⟨_, ht.version, rfl⟩, _, _, ⟨_, ht.sourceNode, rfl⟩, _, _, rfl, _, _,
      ⟨_, ht.sourceSpot, rfl, ?_⟩, _, _, ⟨rfl, ?_⟩, _, _, rfl, _, _, rfl, _, _, ⟨rfl, hreply⟩,
      _, _, rfl, _, _, ⟨rfl, hrest⟩, ?_, rfl⟩
    · simp only [List.length_append, List.length_cons]
      omega
    · simp only [List.length_append, List.length_cons]
      omega
    · obtain ⟨target, _, _, _, _, _, _, _⟩ := a
      obtain ⟨_, _, _, _, _, _, _, _, _, _, _, _, _⟩ := target
      obtain ⟨hobject, hauthority, howner, hlease, hstore, hintent⟩ := hpending
      simp only at hobject hauthority howner hlease hstore hintent
      rw [hobject, hauthority, howner, hlease, hstore, hintent]

structure RecoveryMetadataEntry where
  key : Text
  value : List UInt8

def RecoveryMetadataEntry.Encodes (entry : RecoveryMetadataEntry) (ws : List UInt8) : Prop :=
  ∃ key, text8 "metadata key" entry.key = .ok key ∧ entry.value.length < 65536 ∧
    ws = key ++ (bytesOf 2 entry.value.length ++ entry.value)

def EncodesEntries : List RecoveryMetadataEntry → List UInt8 → Prop
  | [], ws => ws = []
  | entry :: entries, ws => ∃ first others, entry.Encodes first ∧ EncodesEntries entries others ∧
      ws = first ++ others

/-- An entry whose value ends behind the frame: what is left behind the length of its value is
shorter than the checksum, and shorter than the value. -/
def EndsBehind (ws : List UInt8) : Prop :=
  ∃ (key : Text) (k : List UInt8) (length : UInt16) (rest : List UInt8),
    text8 "metadata key" key = .ok k ∧ ws = k ++ (bytesOf 2 length.toNat ++ rest) ∧
      rest.length < 4 ∧ rest.length < length.toNat

theorem length_of_metadataKey {key : Text} {k : List UInt8}
    (h : text8 "metadata key" key = .ok k) : 2 ≤ k.length := by
  obtain ⟨⟨hne, -, -⟩, rfl⟩ := text8_eq_ok.mp h
  exact Nat.succ_le_succ (List.length_pos_iff.mpr hne)

theorem EndsBehind.length (h : EndsBehind ws) : 4 ≤ ws.length := by
  obtain ⟨key, k, length, rest, hk, rfl, -, -⟩ := h
  have hkey := length_of_metadataKey hk
  rw [List.length_append, List.length_append, bytesOf_length]
  omega

variable {n : ℕ}

theorem sizeDifference_of_le (h : 4 ≤ n) (hn : n < 2 ^ 64) : sizeDifference n 4 = n - 4 := by
  rw [sizeDifference, Nat.sub_add_comm h, Nat.add_mod_right, Nat.mod_eq_of_lt]
  omega

theorem le_sizeDifference_of_lt (h : n < 4) : 65535 ≤ sizeDifference n 4 := by
  rw [sizeDifference, Nat.mod_eq_of_lt] <;> omega

section Except

variable {α β : Type}

@[simp] theorem inFrame_eq_ok {answer : Except String α} {a : α} :
    inFrame answer = .ok a ↔ answer = .ok a := by
  cases answer with
  | error message => exact iff_of_false nofun nofun
  | ok b => rw [inFrame, Except.mapError, Except.ok.injEq, Except.ok.injEq]

theorem inFrame_bind_eq_outOfRange {answer : Except String α} {f : α → Except Fault β} :
    (inFrame answer >>= f) = .error .outOfRange ↔
      ∃ a, answer = .ok a ∧ f a = .error .outOfRange := by
  cases answer with
  | error message => exact iff_of_false nofun (fun ⟨_, h, _⟩ => nomatch h)
  | ok a =>
    constructor
    · intro h
      exact ⟨a, rfl, h⟩
    · rintro ⟨_, h, hf⟩
      rw [← Except.ok.inj h] at hf
      exact hf

end Except

theorem skipMetadataEntry_eq_ok {position : Position} :
    skipMetadataEntry (.inside bytes) = .ok position ↔
      ∃ key k length rest, text8 "metadata key" key = .ok k ∧
        bytes = k ++ (bytesOf 2 (length : UInt16).toNat ++ rest) ∧
        length.toNat ≤ sizeDifference rest.length 4 ∧
        position = if rest.length < length.toNat then .beyond
          else .inside (rest.drop length.toNat) := by
  simp only [skipMetadataEntry, bind_eq_ok, inFrame_eq_ok, Prod.exists, readText8_eq_ok,
    readU16_eq_ok]
  constructor
  · rintro ⟨key, _, ⟨k, hk, rfl⟩, length, rest, rfl, hvalue⟩
    split at hvalue
    · cases hvalue
    · rename_i hle
      refine ⟨key, k, length, rest, hk, rfl, Nat.le_of_not_lt hle, ?_⟩
      split at hvalue
      · rename_i hlt
        rw [if_pos hlt]
        exact (Except.ok.inj hvalue).symm
      · rename_i hlt
        rw [if_neg hlt]
        exact (Except.ok.inj hvalue).symm
  · rintro ⟨key, k, length, rest, hk, rfl, hle, rfl⟩
    refine ⟨key, _, ⟨k, hk, rfl⟩, length, rest, rfl, ?_⟩
    rw [if_neg (Nat.not_lt.mpr hle)]
    split <;> rfl

theorem skipMetadataEntry_eq_inside (hsize : bytes.length < 2 ^ 64) :
    skipMetadataEntry (.inside bytes) = .ok (.inside rest) ↔
      ∃ (entry : RecoveryMetadataEntry) (ws : List UInt8), entry.Encodes ws ∧ bytes = ws ++ rest ∧
        (4 ≤ rest.length ∨ entry.value.length + rest.length < 4) := by
  rw [skipMetadataEntry_eq_ok]
  constructor
  · rintro ⟨key, k, length, tail, hk, rfl, hle, hposition⟩
    split at hposition
    · cases hposition
    · rename_i hlt
      rw [Position.inside.inj hposition]
      have htake : (tail.take length.toNat).length = length.toNat :=
        List.length_take_of_le (Nat.le_of_not_lt hlt)
      refine ⟨⟨key, tail.take length.toNat⟩, k ++ (bytesOf 2 length.toNat ++
        tail.take length.toNat), ⟨k, hk, ?_, ?_⟩, ?_, ?_⟩
      · rw [htake]
        exact length.toNat_lt
      · rw [htake]
      · rw [List.append_assoc, List.append_assoc, List.take_append_drop]
      · rw [htake, List.length_drop]
        by_cases hfour : 4 ≤ tail.length
        · have htail : tail.length < 2 ^ 64 := by
            rw [List.length_append, List.length_append] at hsize
            omega
          rw [sizeDifference_of_le hfour htail] at hle
          omega
        · omega
  · rintro ⟨⟨key, value⟩, ws, ⟨k, hk, hvalue, rfl⟩, rfl, hrest⟩
    have hlength : (UInt16.ofNat value.length).toNat = value.length :=
      UInt16.toNat_ofNat_of_lt' hvalue
    refine ⟨key, k, .ofNat value.length, value ++ rest, hk, ?_, ?_, ?_⟩
    · rw [hlength, List.append_assoc, List.append_assoc]
    · rw [hlength, List.length_append]
      rcases hrest with hrest | hrest
      · have htail : value.length + rest.length < 2 ^ 64 := by
          simp only [List.length_append] at hsize
          omega
        rw [sizeDifference_of_le (by omega) htail]
        omega
      · exact (Nat.le_of_lt_succ hvalue).trans (le_sizeDifference_of_lt hrest)
    · rw [hlength, if_neg, List.drop_left]
      rw [List.length_append]
      omega

theorem skipMetadataEntry_eq_beyond (hsize : bytes.length < 2 ^ 64) :
    skipMetadataEntry (.inside bytes) = .ok .beyond ↔ EndsBehind bytes := by
  rw [skipMetadataEntry_eq_ok]
  constructor
  · rintro ⟨key, k, length, tail, hk, rfl, hle, hposition⟩
    split at hposition
    · rename_i hlt
      refine ⟨key, k, length, tail, hk, rfl, ?_, hlt⟩
      by_contra hfour
      have htail : tail.length < 2 ^ 64 := by
        rw [List.length_append, List.length_append] at hsize
        omega
      rw [sizeDifference_of_le (Nat.le_of_not_lt hfour) htail] at hle
      omega
    · cases hposition
  · rintro ⟨key, k, length, tail, hk, rfl, hfour, hlt⟩
    refine ⟨key, k, length, tail, hk, rfl, ?_, (if_pos hlt).symm⟩
    exact (Nat.le_of_lt_succ length.toNat_lt).trans (le_sizeDifference_of_lt hfour)

theorem length_suffix_le {a b c : List UInt8} (h : a = b ++ c) : c.length ≤ a.length := by
  rw [h, List.length_append]
  exact Nat.le_add_left _ _

theorem skipMetadataEntries_beyond {position : Position} :
    skipMetadataEntries n .beyond = .ok position ↔ n = 0 ∧ position = .beyond := by
  cases n with
  | zero =>
    rw [skipMetadataEntries, pure_eq_ok]
    exact (and_iff_right rfl).symm
  | succ n => exact iff_of_false nofun nofun

theorem skipMetadataEntries_eq_inside (hsize : bytes.length < 2 ^ 64)
    (hrest : 4 ≤ rest.length) : skipMetadataEntries n (.inside bytes) = .ok (.inside rest) ↔
      ∃ entries ws, entries.length = n ∧ EncodesEntries entries ws ∧ bytes = ws ++ rest := by
  induction n generalizing bytes with
  | zero =>
    rw [skipMetadataEntries, pure_eq_ok, Position.inside.injEq]
    constructor
    · rintro rfl
      exact ⟨[], [], rfl, rfl, rfl⟩
    · rintro ⟨entries, ws, hlength, hentries, rfl⟩
      obtain rfl := List.length_eq_zero_iff.mp hlength
      rw [show ws = [] from hentries]
      rfl
  | succ n ih =>
    rw [skipMetadataEntries, bind_eq_ok]
    constructor
    · rintro ⟨position, hfirst, hothers⟩
      cases position with
      | inside middle =>
        obtain ⟨entry, first, hentry, rfl, -⟩ := (skipMetadataEntry_eq_inside hsize).mp hfirst
        have hmiddle := (length_suffix_le (a := first ++ middle) rfl).trans_lt hsize
        obtain ⟨entries, others, rfl, hentries, rfl⟩ := (ih hmiddle).mp hothers
        exact ⟨entry :: entries, _, rfl, ⟨first, others, hentry, hentries, rfl⟩,
          (List.append_assoc _ _ _).symm⟩
      | beyond => cases (skipMetadataEntries_beyond.mp hothers).2
    · rintro ⟨entries, ws, hlength, hentries, rfl⟩
      cases entries with
      | nil => cases hlength
      | cons entry entries =>
        obtain ⟨first, others, hentry, hentries, rfl⟩ := hentries
        rw [List.append_assoc] at hsize ⊢
        have hmiddle := (length_suffix_le (a := first ++ (others ++ rest)) rfl).trans_lt hsize
        refine ⟨.inside (others ++ rest), (skipMetadataEntry_eq_inside hsize).mpr
          ⟨entry, first, hentry, rfl, .inl ?_⟩, (ih hmiddle).mpr
          ⟨entries, others, Nat.succ.inj hlength, hentries, rfl⟩⟩
        rw [List.length_append]
        exact hrest.trans (Nat.le_add_left _ _)

theorem skipMetadataEntries_eq_beyond (hsize : bytes.length < 2 ^ 64) :
    skipMetadataEntries n (.inside bytes) = .ok .beyond ↔
      ∃ entries ws tail, entries.length + 1 = n ∧ EncodesEntries entries ws ∧
        bytes = ws ++ tail ∧ EndsBehind tail := by
  induction n generalizing bytes with
  | zero => exact iff_of_false nofun (fun ⟨_, _, _, h, _⟩ => nomatch h)
  | succ n ih =>
    rw [skipMetadataEntries, bind_eq_ok]
    constructor
    · rintro ⟨position, hfirst, hothers⟩
      cases position with
      | inside middle =>
        obtain ⟨entry, first, hentry, rfl, -⟩ := (skipMetadataEntry_eq_inside hsize).mp hfirst
        have hmiddle := (length_suffix_le (a := first ++ middle) rfl).trans_lt hsize
        obtain ⟨entries, others, tail, rfl, hentries, rfl, htail⟩ := (ih hmiddle).mp hothers
        exact ⟨entry :: entries, _, tail, rfl, ⟨first, others, hentry, hentries, rfl⟩,
          (List.append_assoc _ _ _).symm, htail⟩
      | beyond =>
        obtain ⟨rfl, -⟩ := skipMetadataEntries_beyond.mp hothers
        exact ⟨[], [], bytes, rfl, rfl, rfl, (skipMetadataEntry_eq_beyond hsize).mp hfirst⟩
    · rintro ⟨entries, ws, tail, hlength, hentries, rfl, htail⟩
      cases entries with
      | nil =>
        obtain rfl := Nat.succ.inj hlength
        rw [show ws = [] from hentries] at hsize ⊢
        exact ⟨.beyond, (skipMetadataEntry_eq_beyond hsize).mpr htail, rfl⟩
      | cons entry entries =>
        obtain ⟨first, others, hentry, hentries, rfl⟩ := hentries
        rw [List.append_assoc] at hsize ⊢
        have hmiddle := (length_suffix_le (a := first ++ (others ++ tail)) rfl).trans_lt hsize
        refine ⟨.inside (others ++ tail), (skipMetadataEntry_eq_inside hsize).mpr
          ⟨entry, first, hentry, rfl, .inl ?_⟩, (ih hmiddle).mpr
          ⟨entries, others, tail, Nat.succ.inj hlength, hentries, rfl, htail⟩⟩
        rw [List.length_append]
        exact htail.length.trans (Nat.le_add_left _ _)

theorem readMetadataHead_eq_ok {count : UInt8} : readMetadataHead.run bytes = .ok (count, rest) ↔
      bytes = 1 :: count :: rest ∧ 4 ≤ rest.length := by
  simp only [readMetadataHead, Reader.run_bind_eq_ok, byteInBody_eq_ok, Reader.run_rejectIf_eq_ok]
  constructor
  · rintro ⟨version, _, ⟨rfl, -⟩, _, _, ⟨hversion, rfl⟩, rfl, hrest⟩
    exact ⟨by rw [not_not.mp hversion], hrest⟩
  · rintro ⟨rfl, hrest⟩
    exact ⟨_, _, ⟨rfl, Nat.le_succ_of_le hrest⟩, (), _, ⟨not_not.mpr rfl, rfl⟩, rfl, hrest⟩

def MetadataFrame (metadata : List UInt8) : Prop :=
  ∃ (count : UInt8) (entries : List RecoveryMetadataEntry) (ws : List UInt8),
    entries.length = count.toNat ∧ EncodesEntries entries ws ∧ metadata = 1 :: count :: ws

def MetadataEndsBehind (bytes : List UInt8) : Prop :=
  ∃ (count : UInt8) (entries : List RecoveryMetadataEntry) (ws tail : List UInt8),
    entries.length + 1 = count.toNat ∧ EncodesEntries entries ws ∧
      bytes = 1 :: count :: (ws ++ tail) ∧ EndsBehind tail

theorem skipMetadataEntry_ne_outOfRange (position : Position) :
    skipMetadataEntry position ≠ .error .outOfRange := by
  cases position with
  | beyond => exact nofun
  | inside rest =>
    intro h
    obtain ⟨_, -, h⟩ := inFrame_bind_eq_outOfRange.mp h
    obtain ⟨_, -, h⟩ := inFrame_bind_eq_outOfRange.mp h
    simp only at h
    split at h
    · cases h
    · split at h <;> cases h

theorem skipMetadataEntries_ne_outOfRange (n : ℕ) (position : Position) :
    skipMetadataEntries n position ≠ .error .outOfRange := by
  induction n generalizing position with
  | zero => exact nofun
  | succ n ih =>
    intro h
    rw [skipMetadataEntries] at h
    cases hfirst : skipMetadataEntry position with
    | error fault =>
      rw [hfirst] at h
      exact skipMetadataEntry_ne_outOfRange position (hfirst.trans h)
    | ok middle =>
      rw [hfirst] at h
      exact ih middle h

theorem MetadataEndsBehind.length (h : MetadataEndsBehind bytes) : 4 ≤ bytes.length := by
  obtain ⟨count, entries, ws, tail, -, -, rfl, htail⟩ := h
  have hlength := htail.length
  rw [List.length_cons, List.length_cons, List.length_append]
  omega

theorem takeMetadata_eq_ok {metadata : List UInt8} (hsize : bytes.length < 2 ^ 64)
    (hrest : 4 ≤ rest.length) : takeMetadata bytes = .ok (metadata, rest) ↔
      MetadataFrame metadata ∧ bytes = metadata ++ rest := by
  simp only [takeMetadata, bind_eq_ok, inFrame_eq_ok, Prod.exists, readMetadataHead_eq_ok]
  constructor
  · rintro ⟨count, middle, ⟨rfl, -⟩, position, hskip, htaken⟩
    have hmiddle := (length_suffix_le (a := [1, count] ++ middle) rfl).trans_lt hsize
    cases position with
    | beyond => cases htaken
    | inside left =>
      obtain ⟨rfl, rfl⟩ := Prod.mk.inj (Except.ok.inj htaken)
      obtain ⟨entries, ws, hlength, hentries, rfl⟩ :=
        (skipMetadataEntries_eq_inside hmiddle hrest).mp hskip
      have htake : (1 :: count :: (ws ++ left)).take
          ((1 :: count :: (ws ++ left)).length - left.length) = 1 :: count :: ws := by
        rw [← List.cons_append, ← List.cons_append, List.length_append, Nat.add_sub_cancel,
          List.take_left]
      rw [htake]
      exact ⟨⟨count, entries, ws, hlength, hentries, rfl⟩, rfl⟩
  · rintro ⟨⟨count, entries, ws, hlength, hentries, rfl⟩, rfl⟩
    have hmiddle : (ws ++ rest).length < 2 ^ 64 :=
      (length_suffix_le (a := [1, count] ++ (ws ++ rest)) rfl).trans_lt hsize
    refine ⟨count, ws ++ rest, ⟨rfl, ?_⟩, .inside rest,
      (skipMetadataEntries_eq_inside hmiddle hrest).mpr ⟨entries, ws, hlength, hentries, rfl⟩, ?_⟩
    · rw [List.length_append]
      exact hrest.trans (Nat.le_add_left _ _)
    · simp only
      rw [List.length_append, Nat.add_sub_cancel, List.take_left]
      rfl

theorem takeMetadata_eq_outOfRange (hsize : bytes.length < 2 ^ 64) :
    takeMetadata bytes = .error .outOfRange ↔ MetadataEndsBehind bytes := by
  rw [takeMetadata, inFrame_bind_eq_outOfRange]
  simp only [Prod.exists, readMetadataHead_eq_ok]
  constructor
  · rintro ⟨count, middle, ⟨rfl, -⟩, h⟩
    have hmiddle := (length_suffix_le (a := [1, count] ++ middle) rfl).trans_lt hsize
    cases hskip : skipMetadataEntries count.toNat (.inside middle) with
    | error fault =>
      rw [hskip] at h
      rw [show fault = .outOfRange from Except.error.inj h] at hskip
      exact absurd hskip (skipMetadataEntries_ne_outOfRange _ _)
    | ok position =>
      rw [hskip] at h
      cases position with
      | inside rest => cases h
      | beyond =>
        obtain ⟨entries, ws, tail, hlength, hentries, rfl, htail⟩ :=
          (skipMetadataEntries_eq_beyond hmiddle).mp hskip
        exact ⟨count, entries, ws, tail, hlength, hentries, rfl, htail⟩
  · rintro ⟨count, entries, ws, tail, hlength, hentries, rfl, htail⟩
    have hmiddle : (ws ++ tail).length < 2 ^ 64 :=
      (length_suffix_le (a := [1, count] ++ (ws ++ tail)) rfl).trans_lt hsize
    refine ⟨count, ws ++ tail, ⟨rfl, ?_⟩, ?_⟩
    · rw [List.length_append]
      exact htail.length.trans (Nat.le_add_left _ _)
    · rw [(skipMetadataEntries_eq_beyond hmiddle).mpr
        ⟨entries, ws, tail, hlength, hentries, rfl, htail⟩]
      rfl

def recoveryFrame (body : List UInt8) : List UInt8 :=
  recoveryHead body.length ++ body ++ bytesOf 4 (crc32c (recoveryHead body.length ++ body)).toNat

theorem take_drop_of_checksum (front : List UInt8) {checksum : List UInt8}
    (h : checksum.length = 4) : (front ++ checksum).take ((front ++ checksum).length - 4) = front ∧
      (front ++ checksum).drop ((front ++ checksum).length - 4) = checksum := by
  rw [List.length_append, h, Nat.add_sub_cancel]
  exact ⟨List.take_left, List.drop_left⟩

theorem readRecoveryFrame_eq_ok {u : Unit} : (readRecoveryFrame bytes).run bytes = .ok (u, rest) ↔
      ∃ body, body.length ≤ maxU32 ∧ bytes = recoveryFrame body ∧
        rest = body ++ bytesOf 4 (crc32c (recoveryHead body.length ++ body)).toNat := by
  simp only [readRecoveryFrame, Reader.run_bind_eq_ok, Reader.run_rejectIf_eq_ok,
    Reader.run_take_eq_ok, readU16_eq_ok, readU32_eq_ok, Reader.run_get_eq_ok,
    Reader.run_lift_eq_ok, Prod.exists, not_or, not_not, not_lt]
  constructor
  · rintro ⟨_, _, ⟨⟨hsize, hprefix⟩, rfl⟩, head, _, ⟨hhead, rfl⟩, _, _, rfl, _, _, ⟨rfl, rfl⟩,
      length, _, rfl, _, _, ⟨rfl, rfl⟩, _, _, ⟨hlength, rfl⟩, checksum, left, _, ⟨hchecksum, rfl⟩,
      hcrc, rfl⟩
    rw [List.take_left' hhead] at hprefix
    subst hprefix
    have hrest : 4 ≤ rest.length := by
      rw [instanceActivationRecoveryMinimumSize, List.length_append, List.length_append,
        List.length_append, bytesOf_length, bytesOf_length] at hsize
      omega
    obtain ⟨body, crc, rfl, hbody⟩ : ∃ body crc, rest = body ++ crc ∧ crc.length = 4 :=
      ⟨rest.take (rest.length - 4), rest.drop (rest.length - 4),
        (List.take_append_drop _ _).symm, by rw [List.length_drop]; omega⟩
    rw [List.length_append, hbody, Nat.add_sub_cancel] at hlength
    have hframe : instanceActivationRecoveryPrefix ++ (bytesOf 2 (UInt16.toNat 0) ++
        (bytesOf 4 length.toNat ++ (body ++ crc))) = recoveryHead body.length ++ body ++ crc := by
      rw [recoveryHead, ← hlength, List.append_assoc, List.append_assoc, List.append_assoc]
      rfl
    rw [hframe] at hchecksum hcrc ⊢
    obtain ⟨htake, hdrop⟩ := take_drop_of_checksum (recoveryHead body.length ++ body) hbody
    rw [hdrop] at hchecksum
    rw [htake] at hcrc
    have hleft : left = [] := by
      rw [hchecksum, List.length_append, bytesOf_length] at hbody
      exact List.length_eq_zero_iff.mp (Nat.add_eq_left.mp hbody)
    rw [hleft, List.append_nil, hcrc] at hchecksum
    refine ⟨body, ?_, ?_, ?_⟩
    · rw [← hlength]
      exact Nat.le_of_lt_succ length.toNat_lt
    · rw [recoveryFrame, hchecksum]
    · rw [hchecksum]
  · rintro ⟨body, hbody, rfl, rfl⟩
    have hlength : (UInt32.ofNat body.length).toNat = body.length := toNat_ofNat_u32 hbody
    obtain ⟨htake, hdrop⟩ := take_drop_of_checksum (recoveryHead body.length ++ body)
      (bytesOf_length 4 (crc32c (recoveryHead body.length ++ body)).toNat)
    refine ⟨(), _, ⟨⟨?_, rfl⟩, rfl⟩, instanceActivationRecoveryPrefix, _, ⟨rfl, ?_⟩, 0, _, rfl, (),
      _, ⟨rfl, rfl⟩, .ofNat body.length, _, rfl, _, _, ⟨rfl, rfl⟩, (), _, ⟨?_, rfl⟩,
      crc32c (recoveryHead body.length ++ body), [], _, ⟨?_, rfl⟩, ?_, rfl⟩
    · rw [recoveryFrame, recoveryHead, instanceActivationRecoveryMinimumSize]
      simp only [List.length_append, bytesOf_length]
      omega
    · rw [recoveryFrame, recoveryHead, hlength, List.append_assoc, List.append_assoc,
        List.append_assoc]
      rfl
    · rw [hlength, List.length_append, bytesOf_length, Nat.add_sub_cancel]
    · rw [recoveryFrame, hdrop, List.append_nil]
    · rw [recoveryFrame, htake]

theorem takeRecoveryMetadata_eq_ok {metadata : Option (List UInt8)}
    (hsize : bytes.length < 2 ^ 64) (hrest : 4 ≤ rest.length) :
    takeRecoveryMetadata hasMetadata bytes = .ok (metadata, rest) ↔
      metadata.isSome = hasMetadata ∧ (∀ m, metadata = some m → MetadataFrame m) ∧
        bytes = metadata.getD [] ++ rest := by
  cases hasMetadata with
  | false =>
    rw [takeRecoveryMetadata, if_neg Bool.false_ne_true, pure_eq_ok, Prod.mk.injEq]
    constructor
    · rintro ⟨rfl, rfl⟩
      exact ⟨rfl, nofun, rfl⟩
    · rintro ⟨hnone, -, rfl⟩
      obtain rfl := Option.isSome_eq_false_iff.mp hnone |> Option.isNone_iff_eq_none.mp
      exact ⟨rfl, rfl⟩
  | true =>
    rw [takeRecoveryMetadata, if_pos rfl, map_eq_pure_bind, bind_eq_ok]
    simp only [pure_eq_ok, Prod.exists, Prod.mk.injEq]
    constructor
    · rintro ⟨m, _, htake, rfl, rfl⟩
      obtain ⟨hframe, rfl⟩ := (takeMetadata_eq_ok hsize hrest).mp htake
      refine ⟨rfl, ?_, rfl⟩
      rintro _ ⟨⟩
      exact hframe
    · rintro ⟨hsome, hframe, rfl⟩
      obtain ⟨m, rfl⟩ := Option.isSome_iff_exists.mp hsome
      exact ⟨m, rest, (takeMetadata_eq_ok hsize hrest).mpr ⟨hframe m rfl, rfl⟩, rfl, rfl⟩

theorem takeRecoveryMetadata_eq_outOfRange (hsize : bytes.length < 2 ^ 64) :
    takeRecoveryMetadata hasMetadata bytes = .error .outOfRange ↔
      hasMetadata = true ∧ MetadataEndsBehind bytes := by
  cases hasMetadata with
  | false => exact iff_of_false nofun (fun h => nomatch h.1)
  | true =>
    rw [takeRecoveryMetadata, if_pos rfl, ← takeMetadata_eq_outOfRange hsize]
    cases takeMetadata bytes with
    | error fault =>
      rw [and_iff_right rfl, Except.error.injEq]
      exact ⟨Except.error.inj, congrArg Except.error⟩
    | ok taken => exact iff_of_false nofun (fun h => nomatch h.2)

structure InstanceSpotActivationHeader.Stored (a : InstanceSpotActivationHeader) (t : FieldTexts) :
    Prop where
  pending : a.Pending
  replyRouteId : a.request = false → a.replyRouteId = 0
  texts : t.Of a

def InstanceActivationRecovery.TakenFrom (record : InstanceActivationRecovery) (captureFlow : Bool)
    (body : List UInt8) : Prop :=
  ∃ t application, record.activation.Stored t ∧
    record.metadata.isSome = record.activation.hasMetadata ∧
    (∀ m, record.metadata = some m → MetadataFrame m) ∧
    body = t.before record.activation (record.metadata.getD [] ++ application) ∧
    decodeApplicationPayload application captureFlow = .ok record.applicationPayload

def Overruns (frame : List UInt8) : Prop :=
  ∃ (body : List UInt8) (a : InstanceSpotActivationHeader) (t : FieldTexts) (rest : List UInt8),
    body.length ≤ maxU32 ∧ frame = recoveryFrame body ∧ a.Stored t ∧
    a.hasMetadata = true ∧ MetadataEndsBehind rest ∧
    body ++ bytesOf 4 (crc32c (recoveryHead body.length ++ body)).toNat = t.before a rest

variable {captureFlow : Bool}

theorem application_ne_nil {application : List UInt8} {payload : ApplicationPayload}
    (h : decodeApplicationPayload application captureFlow = .ok payload) : application ≠ [] := by
  rintro rfl
  cases h

theorem fields_of_frame {body : List UInt8} (hbody : body.length ≤ maxU32) : readRecoveryFields.run
        (body ++ bytesOf 4 (crc32c (recoveryHead body.length ++ body)).toNat) = .ok (a, rest) ↔
      4 ≤ rest.length ∧ rest.length < 2 ^ 64 ∧ ∃ t : FieldTexts, a.Stored t ∧
        body ++ bytesOf 4 (crc32c (recoveryHead body.length ++ body)).toNat = t.before a rest := by
  rw [readRecoveryFields_eq_ok]
  constructor
  · rintro ⟨hpending, hreply, hrest, t, ht, hsplit⟩
    refine ⟨hrest, ?_, t, ⟨hpending, hreply, ht⟩, hsplit⟩
    have hle := t.length_le a rest
    rw [← hsplit, List.length_append, bytesOf_length] at hle
    have hmax : maxU32 + 4 < 2 ^ 64 := by decide
    omega
  · rintro ⟨hrest, -, t, ⟨hpending, hreply, ht⟩, hsplit⟩
    exact ⟨hpending, hreply, hrest, t, ht, hsplit⟩

variable {frame : List UInt8}

theorem decodeInstanceActivationRecovery_eq_ok {record : InstanceActivationRecovery} :
    decodeInstanceActivationRecovery frame captureFlow = .ok record ↔
      ∃ body, body.length ≤ maxU32 ∧ frame = recoveryFrame body ∧
        record.TakenFrom captureFlow body ∧ record.activation.encode.isOk := by
  simp only [decodeInstanceActivationRecovery, bind_eq_ok, inFrame_eq_ok, Prod.exists,
    readRecoveryFrame_eq_ok]
  constructor
  · rintro ⟨_, _, ⟨body, hbody, rfl, rfl⟩, a, rest, hfields, metadata, left, htake, hrecord⟩
    obtain ⟨-, hsize, t, hstored, hsplit⟩ := (fields_of_frame hbody).mp hfields
    split at hrecord
    · cases hrecord
    · rename_i hleft
      rw [not_le] at hleft
      obtain ⟨hsome, hframe, rfl⟩ := (takeRecoveryMetadata_eq_ok hsize hleft.le).mp htake
      simp only [bind_eq_ok, inFrame_eq_ok, pure_eq_ok] at hrecord
      obtain ⟨payload, hpayload, ws, hencode, rfl⟩ := hrecord
      have hactivation : { a with hasMetadata := metadata.isSome } = a := by rw [hsome]
      rw [hactivation] at hencode ⊢
      refine ⟨body, hbody, rfl, ⟨t, left.take (left.length - 4), hstored, hsome, hframe, ?_,
        hpayload⟩, by rw [hencode]; rfl⟩
      -- The checksum is what is left behind the payload.
      have hchecksum : (left.drop (left.length - 4)).length = 4 := by
        rw [List.length_drop]
        omega
      rw [← List.take_append_drop (left.length - 4) left, ← List.append_assoc,
        t.before_append] at hsplit
      exact (List.append_inj' hsplit ((bytesOf_length 4 _).trans hchecksum.symm)).1
  · rintro ⟨body, hbody, rfl, ⟨t, application, hstored, hsome, hframe, hsplit, hpayload⟩, hencode⟩
    obtain ⟨activation, metadata, payload⟩ := record
    simp only at hstored hsome hframe hsplit hpayload hencode
    have hpos : 0 < application.length := List.length_pos_iff.mpr (application_ne_nil hpayload)
    obtain ⟨ws, hws⟩ := exists_eq_ok hencode
    obtain ⟨checksum, hchecksum, hlength⟩ : ∃ checksum : List UInt8,
        bytesOf 4 (crc32c (recoveryHead body.length ++ body)).toNat = checksum ∧
          checksum.length = 4 :=
      ⟨_, rfl, bytesOf_length _ _⟩
    have hall : body ++ checksum =
        t.before activation (metadata.getD [] ++ (application ++ checksum)) := by
      rw [hsplit, ← t.before_append, List.append_assoc]
    have hleft : 4 < (application ++ checksum).length := by
      rw [List.length_append, hlength]
      omega
    have hrest : 4 ≤ (metadata.getD [] ++ (application ++ checksum)).length := by
      rw [List.length_append]
      omega
    have hsize : (metadata.getD [] ++ (application ++ checksum)).length < 2 ^ 64 := by
      have hle := t.length_le activation (metadata.getD [] ++ (application ++ checksum))
      have hframe_length : (body ++ checksum).length = body.length + 4 := by
        rw [List.length_append, hlength]
      rw [← hall, hframe_length] at hle
      have hmax : maxU32 + 4 < 2 ^ 64 := by decide
      omega
    have hfields := (fields_of_frame hbody).mpr ⟨hrest, hsize, t, hstored, by rw [hchecksum, hall]⟩
    refine ⟨(), _, ⟨body, hbody, rfl, rfl⟩, activation, _, hfields, metadata,
      application ++ checksum, (takeRecoveryMetadata_eq_ok hsize hleft.le).mpr
      ⟨hsome, hframe, rfl⟩, ?_⟩
    rw [if_neg (not_le.mpr hleft), (take_drop_of_checksum application hlength).1]
    simp only [bind_eq_ok, inFrame_eq_ok, pure_eq_ok]
    have hactivation : { activation with hasMetadata := metadata.isSome } = activation := by
      rw [hsome]
    rw [hactivation]
    exact ⟨payload, hpayload, ws, hws, rfl⟩

theorem decodeInstanceActivationRecovery_eq_outOfRange (frame : List UInt8) (captureFlow : Bool) :
    decodeInstanceActivationRecovery frame captureFlow = .error .outOfRange ↔ Overruns frame := by
  rw [decodeInstanceActivationRecovery, inFrame_bind_eq_outOfRange]
  simp only [Prod.exists, readRecoveryFrame_eq_ok, inFrame_bind_eq_outOfRange]
  constructor
  · rintro ⟨_, _, ⟨body, hbody, rfl, rfl⟩, a, rest, hfields, hmetadata⟩
    obtain ⟨-, hsize, t, hstored, hsplit⟩ := (fields_of_frame hbody).mp hfields
    cases htake : takeRecoveryMetadata a.hasMetadata rest with
    | error fault =>
      rw [htake] at hmetadata
      rw [show fault = .outOfRange from Except.error.inj hmetadata] at htake
      obtain ⟨hsome, hbehind⟩ := (takeRecoveryMetadata_eq_outOfRange hsize).mp htake
      exact ⟨body, a, t, rest, hbody, rfl, hstored, hsome, hbehind, hsplit⟩
    | ok taken =>
      -- The payload and the check of the activation stay inside the frame.
      rw [htake] at hmetadata
      change (if taken.2.length ≤ 4 then _ else _) = _ at hmetadata
      split at hmetadata
      · cases hmetadata
      · obtain ⟨_, -, hmetadata⟩ := inFrame_bind_eq_outOfRange.mp hmetadata
        obtain ⟨_, -, hmetadata⟩ := inFrame_bind_eq_outOfRange.mp hmetadata
        cases hmetadata
  · rintro ⟨body, a, t, rest, hbody, rfl, hstored, hsome, hbehind, hsplit⟩
    have hle := t.length_le a rest
    have hrest := hbehind.length
    rw [← hsplit, List.length_append, bytesOf_length] at hle
    have hmax : maxU32 + 4 < 2 ^ 64 := by decide
    have hsize : rest.length < 2 ^ 64 := by omega
    refine ⟨(), _, ⟨body, hbody, rfl, rfl⟩, a, rest,
      (fields_of_frame hbody).mpr ⟨hrest, hsize, t, hstored, hsplit⟩, ?_⟩
    rw [(takeRecoveryMetadata_eq_outOfRange hsize).mpr ⟨hsome, hbehind⟩]
    rfl

theorem InstanceSpotActivationHeader.replyRouteId_of_encode
    (h : a.encode = .ok ws) : a.request = false → a.replyRouteId = 0 := by
  intro hrequest
  obtain ⟨_, hconsistent, -⟩ := bind_eq_ok.mp h
  have hsame : (a.request != (a.replyRouteId != 0)) = false := by
    by_contra hdiffers
    refine rejectIf_eq_ok.mp hconsistent ?_
    rw [InstanceSpotActivationHeader.inconsistent, Bool.eq_true_of_not_eq_false hdiffers,
      Bool.or_true]
  rw [hrequest] at hsame
  simpa using hsame

theorem appendRecoveryMetadata_eq_ok {metadata : Option (List UInt8)}
    (h : appendRecoveryMetadata metadata = .ok ws) : ws = metadata.getD [] := by
  cases metadata with
  | none => exact pure_eq_ok.mp h
  | some m =>
    obtain ⟨_, -, h⟩ := bind_eq_ok.mp h
    exact pure_eq_ok.mp h

theorem decode_encodeInstanceActivationRecovery {record : InstanceActivationRecovery}
    (hpending : record.activation.Pending)
    (hmetadata : ∀ m, record.metadata = some m → MetadataFrame m)
    (h : encodeInstanceActivationRecovery record = .ok frame) :
    ∃ decoded, decodeInstanceActivationRecovery frame true = .ok decoded ∧
      decoded.equals record := by
  simp only [encodeInstanceActivationRecovery, bind_eq_ok, rejectIf_eq_ok, pure_eq_ok] at h
  obtain ⟨_, hpresence, header, hheader, fields, hfields, metadata, hbytes, application, hencode, _,
    hlength, rfl⟩ := h
  obtain ⟨t, ht, rfl⟩ := concat_recoveryFields.mp hfields
  obtain rfl := appendRecoveryMetadata_eq_ok hbytes
  obtain ⟨⟨n, type, hencoded⟩, -⟩ := ApplicationPayload.encoded_of_encode hencode
  obtain ⟨payload, hpayload, hequals, -⟩ := hencoded.decodeApplicationPayload
  have hbody : t.before record.activation [] ++ record.metadata.getD [] ++ application =
      t.before record.activation (record.metadata.getD [] ++ application) := by
    rw [List.append_assoc]
    exact (t.before_append record.activation [] _).symm
  rw [hbody] at hlength ⊢
  refine ⟨{ record with applicationPayload := payload },
    decodeInstanceActivationRecovery_eq_ok.mpr ⟨_, not_lt.mp hlength, rfl, ⟨t, application,
      ⟨hpending, record.activation.replyRouteId_of_encode hheader, ht⟩, ?_, hmetadata, rfl,
      hpayload⟩, ?_⟩, ?_⟩
  · exact (not_not.mp hpresence).symm
  · rw [hheader]
    rfl
  · rw [InstanceActivationRecovery.equals, hequals, Bool.and_true, Bool.and_eq_true]
    exact ⟨decide_eq_true rfl, decide_eq_true rfl⟩

def StaysInBody (frame : List UInt8) (captureFlow : Bool) : Prop :=
  decodeInstanceActivationRecovery frame captureFlow ≠ .error .outOfRange ∧
    ∀ record, decodeInstanceActivationRecovery frame captureFlow = .ok record →
      ∃ body, frame = recoveryFrame body ∧ record.TakenFrom captureFlow body

theorem staysInBody_iff : StaysInBody frame captureFlow ↔ ¬ Overruns frame := by
  rw [← decodeInstanceActivationRecovery_eq_outOfRange frame captureFlow]
  refine ⟨And.left, fun h => ⟨h, fun record hrecord => ?_⟩⟩
  obtain ⟨body, -, hframe, htaken, -⟩ := decodeInstanceActivationRecovery_eq_ok.mp hrecord
  exact ⟨body, hframe, htaken⟩

/-- The decoder stays inside the body of every frame but those whose last metadata value ends
behind it, and it inverts the encoder on pending activations. -/
theorem instanceActivationRecovery_codec (frame : List UInt8) (captureFlow : Bool) :
    (StaysInBody frame captureFlow ↔ ¬ Overruns frame) ∧
    (∀ record : InstanceActivationRecovery, record.activation.Pending →
      (∀ m, record.metadata = some m → MetadataFrame m) →
      encodeInstanceActivationRecovery record = .ok frame →
        ∃ decoded, decodeInstanceActivationRecovery frame true = .ok decoded ∧
          decoded.equals record) :=
  ⟨staysInBody_iff, fun _ => decode_encodeInstanceActivationRecovery⟩

/-- A pending activation of the Spot `s`. -/
def pendingActivation : InstanceSpotActivationHeader where
  target :=
    { targetNodeRoutingId := [1], targetNodeGeneration := 1, spotId := ascii "s",
      meshName := ascii "m", stableType := ascii "t", descriptorVersion := ascii "d",
      deadlineUnixMs := 1 }
  sourceNodeGeneration := 1
  sourceNodeRoutingId := [2]
  sourceSpotId := none
  request := false
  operation := ⟨0, 1⟩
  replyRouteId := 0
  hasMetadata := true

def pendingRecord : InstanceActivationRecovery :=
  ⟨pendingActivation, some [1, 1, 1, 107, 0, 1, 118],
    ⟨.bytes (ascii "p") (ascii "c") [120], none, none⟩⟩

def pendingFrame : List UInt8 :=
  (encodeInstanceActivationRecovery pendingRecord).toOption.getD []

theorem decode_pendingFrame :
    ∃ decoded, decodeInstanceActivationRecovery pendingFrame true = .ok decoded ∧
      decoded.equals pendingRecord := by
  refine (instanceActivationRecovery_codec pendingFrame true).2 pendingRecord
    ⟨rfl, rfl, rfl, rfl, rfl, rfl⟩ ?_ ?_
  · rintro _ ⟨⟩
    exact ⟨1, [⟨[107], [118]⟩], [1, 107, 0, 1, 118], rfl,
      ⟨_, _, ⟨_, rfl, by decide, rfl⟩, rfl, rfl⟩, rfl⟩
  · rfl

def cutBody : List UInt8 :=
  ((concat (recoveryFields pendingActivation)).toOption.getD []) ++ [1, 1, 1, 107]

/-- The length of the value that should follow is taken from the checksum. -/
theorem not_staysInBody_cut : ¬ StaysInBody (recoveryFrame cutBody) true := by
  have hrest : MetadataEndsBehind [1, 1, 1, 107, 237, 7, 30, 226] :=
    ⟨1, [], [], [1, 107, 237, 7, 30, 226], rfl, rfl, rfl, [107], [1, 107], 60679, [30, 226], rfl,
      rfl, by decide, by decide⟩
  refine fun h => staysInBody_iff.mp h ⟨cutBody, pendingActivation,
    ⟨[1, 115], [1, 116], [1, 109], [1, 1], [1, 100], [1, 2], []⟩, _, by decide, rfl,
    ⟨⟨rfl, rfl, rfl, rfl, rfl, rfl⟩, fun _ => rfl, ⟨rfl, rfl, rfl, rfl, rfl, rfl, rfl⟩⟩, rfl,
    hrest, ?_⟩
  decide +kernel

end Zlink.ServiceWire
