import Zlink.ServiceWire.ActivationCodec
import Zlink.ServiceWire.Frozen
import Zlink.ServiceWire.Headers

/-!
# The command that activates an Instance Spot

The route of the command has two variants. The encoder tells them apart by the authority owner
generation, which only a ready Spot has, the decoder by the version in front of the route. The
fields of the other variant are not written, and a decoded command has none of them.
-/

namespace Zlink.ServiceWire

open BigEndian Codec

def readReadyRoute (targetNodeRoutingId : List UInt8) (targetNodeGeneration : UInt64)
    (spotId : Text) : Reader InstanceSpotActivationTarget := do
  let objectGeneration ← readNonzeroU64 "object generation"
  let ownerId ← readText8 "owner ID"
  let authorityOwnerGeneration ← readNonzeroU64 "authority owner generation"
  let ownerLeaseGeneration ← readNonzeroU64 "lease generation"
  let storeVersion ← readText16 "StoreVersion" authorityStoreVersionBytes
  let instanceIntent ← readBool8 "Instance intent"
  pure
    { targetNodeRoutingId, targetNodeGeneration, spotId, meshName := [], stableType := [],
      descriptorVersion := [], deadlineUnixMs := 0, objectGeneration, authorityOwnerGeneration,
      ownerId, ownerLeaseGeneration, storeVersion, instanceIntent }

def readPendingRoute (targetNodeRoutingId : List UInt8) (targetNodeGeneration : UInt64)
    (spotId : Text) : Reader InstanceSpotActivationTarget := do
  let meshName ← readText8 "target MeshName"
  let stableType ← readText8 "stable type"
  let descriptorVersion ← readText8 "target descriptor version"
  let deadlineUnixMs ← readU64
  pure
    { targetNodeRoutingId, targetNodeGeneration, spotId, meshName, stableType, descriptorVersion,
      deadlineUnixMs }

variable (ready : Bool)

def readActivationRoute : Reader InstanceSpotActivationTarget := do
  let targetNodeRoutingId ← readBytes8 "target node RID"
  let targetNodeGeneration ← readU64
  let spotId ← readText8 "target SpotId"
  if ready then readReadyRoute targetNodeRoutingId targetNodeGeneration spotId
  else readPendingRoute targetNodeRoutingId targetNodeGeneration spotId

def readOptionalText8 (field truncated : String) : Reader (Option Text) := do
  match ← get with
  | [] => throw truncated
  | first :: _ =>
    if first = 0 then do
      let _ ← Reader.byte truncated
      pure none
    else some <$> readText8 field

def readActivation (hasMetadata : Bool) : Reader InstanceSpotActivationHeader := do
  let version ← Reader.byte "Instance Spot activation route version is invalid"
  rejectIf (version ≠ 1 ∧ version ≠ 2) "Instance Spot activation route version is invalid"
  let target ← readNested16 "Instance Spot activation route is truncated" (do
      let target ← readActivationRoute (version = 1)
      Reader.finish "Instance Spot activation route has trailing bytes"
      pure target : Reader InstanceSpotActivationTarget).parse
  let sourceNodeGeneration ← readU64
  let sourceNodeRoutingId ← readBytes8 "source node RID"
  let sourceSpotId ← readOptionalText8 "source SpotId"
    "Instance Spot activation source SpotId is truncated"
  let operationKind ← Reader.byte "Instance Spot activation operation kind is truncated"
  rejectIf (operationKind ≠ 1 ∧ operationKind ≠ 2)
    "Instance Spot activation operation kind is invalid"
  let high ← readU64
  let low ← readU64
  let replyRouteId ← readReplyRouteId (operationKind = 2)
  pure
    { target, sourceNodeGeneration, sourceNodeRoutingId, sourceSpotId,
      request := operationKind = 2, operation := ⟨high, low⟩, replyRouteId, hasMetadata }

/-- The last check of `decode_instance_spot_activation_header`. -/
def InstanceSpotActivationHeader.invalid (record : InstanceSpotActivationHeader) : Bool :=
  record.target.targetNodeGeneration = 0 || !record.ready && (record.target.deadlineUnixMs = 0 ||
      9223372036854775807 < record.target.deadlineUnixMs) ||
    record.sourceNodeGeneration = 0 || record.operation.isZero ||
    (record.request != (record.replyRouteId != 0))

def readActivationCommand : Reader InstanceSpotActivationHeader := do
  let header ← readHeader
  rejectIf (header.kind ≠ 39 ∨ header.flags &&& ~~~metadataFlag ≠ 0)
    "record is not an Instance Spot activation command"
  readActivation (header.flags &&& metadataFlag ≠ 0)

def decodeInstanceSpotActivationHeader : List UInt8 → Except String InstanceSpotActivationHeader :=
  (do
    let record ← readActivationCommand
    let left ← get
    rejectIf (left ≠ [] ∨ record.invalid = true)
      "Instance Spot activation contains invalid or trailing fields"
    pure record : Reader InstanceSpotActivationHeader).parse

theorem readBool8_inverse (field : String) :
    Inverse (readBool8 field) fun flag => u8 (flagByte flag) := by
  intro bytes flag rest
  simp only [readBool8, Reader.run_bind_eq_ok, Reader.run_byte_eq_ok, Reader.run_rejectIf_eq_ok,
    Reader.run_pure_eq_ok, u8_eq_ok]
  constructor
  · rintro ⟨value, _, rfl, _, _, ⟨hvalue, rfl⟩, rfl, rfl⟩
    refine ⟨_, rfl, ?_⟩
    by_cases hzero : value = 0
    · rw [hzero]
      rfl
    · have hone : value = 1 := by
        have hle := UInt8.le_iff_toNat_le.mp (UInt8.not_lt.mp hvalue)
        have hne : value.toNat ≠ 0 := fun h => hzero (UInt8.toNat.inj h)
        exact UInt8.toNat.inj (Nat.le_antisymm hle (Nat.one_le_iff_ne_zero.mpr hne))
      rw [hone]
      rfl
  · rintro ⟨_, rfl, rfl⟩
    refine ⟨_, _, rfl, (), _, ⟨?_, rfl⟩, ?_, rfl⟩
    · cases flag <;> decide
    · cases flag <;> rfl

theorem readNonzeroU64_spells (field : String) :
    Spells (readNonzeroU64 field) (· ≠ 0) fun value => [u64 value] := by
  rw [readNonzeroU64]
  refine .field id readU64_inverse fun value => ?_
  refine .guard (fun b h => h.1 ▸ h.2) fun hvalue => .last fun b => ?_
  constructor
  · exact And.left
  · rintro rfl
    exact ⟨rfl, hvalue⟩

namespace InstanceSpotActivationTarget

def routeFields (ready : Bool) (target : InstanceSpotActivationTarget) : List Written :=
  [bytes8 "target node RID" target.targetNodeRoutingId, u64 target.targetNodeGeneration,
    text8 "target SpotId" target.spotId] ++
  if ready then
    [u64 target.objectGeneration, text8 "owner ID" target.ownerId,
      u64 target.authorityOwnerGeneration, u64 target.ownerLeaseGeneration,
      text16 "StoreVersion" authorityStoreVersionBytes target.storeVersion,
      u8 (flagByte target.instanceIntent)]
  else
    [text8 "target MeshName" target.meshName, text8 "stable type" target.stableType,
      text8 "target descriptor version" target.descriptorVersion, u64 target.deadlineUnixMs]

structure Ready (target : InstanceSpotActivationTarget) : Prop where
  objectGeneration : target.objectGeneration ≠ 0
  authorityOwnerGeneration : target.authorityOwnerGeneration ≠ 0
  ownerLeaseGeneration : target.ownerLeaseGeneration ≠ 0
  meshName : target.meshName = []
  stableType : target.stableType = []
  descriptorVersion : target.descriptorVersion = []
  deadlineUnixMs : target.deadlineUnixMs = 0

structure Pending (target : InstanceSpotActivationTarget) : Prop where
  objectGeneration : target.objectGeneration = 0
  authorityOwnerGeneration : target.authorityOwnerGeneration = 0
  ownerId : target.ownerId = []
  ownerLeaseGeneration : target.ownerLeaseGeneration = 0
  storeVersion : target.storeVersion = []
  instanceIntent : target.instanceIntent = false

def Of : Bool → InstanceSpotActivationTarget → Prop
  | true => Ready
  | false => Pending

end InstanceSpotActivationTarget

open InstanceSpotActivationTarget

theorem readReadyRoute_spells (rid : List UInt8) (generation : UInt64) (spotId : Text) :
    Spells (readReadyRoute rid generation spotId)
      (fun target => target.spotId = spotId ∧ target.targetNodeGeneration = generation ∧
        target.targetNodeRoutingId = rid ∧ target.Ready)
      fun target => [u64 target.objectGeneration, text8 "owner ID" target.ownerId,
        u64 target.authorityOwnerGeneration, u64 target.ownerLeaseGeneration,
        text16 "StoreVersion" authorityStoreVersionBytes target.storeVersion,
        u8 (flagByte target.instanceIntent)] := by
  rw [readReadyRoute]
  refine .part objectGeneration (readNonzeroU64_spells _)
    (fun _ h => h.2.2.2.objectGeneration) fun object hobject => ?_
  refine .field ownerId (readText8_inverse _) fun owner => ?_
  refine .part authorityOwnerGeneration (readNonzeroU64_spells _)
    (fun _ h => h.2.2.2.2.2.authorityOwnerGeneration) fun authority hauthority => ?_
  refine .part ownerLeaseGeneration (readNonzeroU64_spells _)
    (fun _ h => h.2.2.2.2.2.2.ownerLeaseGeneration) fun lease hlease => ?_
  refine .field storeVersion (readText16_inverse _ (by decide)) fun version => ?_
  refine .field instanceIntent (readBool8_inverse _) fun intent => .last fun target => ?_
  constructor
  · rintro ⟨rfl, rfl, rfl, rfl, rfl, rfl, rfl, rfl, rfl, hready⟩
    cases target
    cases hready
    simp_all
  · rintro rfl
    exact ⟨rfl, rfl, rfl, rfl, rfl, rfl, rfl, rfl, rfl, hobject, hauthority, hlease, rfl, rfl,
      rfl, rfl⟩

theorem readPendingRoute_spells (rid : List UInt8) (generation : UInt64) (spotId : Text) :
    Spells (readPendingRoute rid generation spotId)
      (fun target => target.spotId = spotId ∧ target.targetNodeGeneration = generation ∧
        target.targetNodeRoutingId = rid ∧ target.Pending)
      fun target => [text8 "target MeshName" target.meshName, text8 "stable type" target.stableType,
        text8 "target descriptor version" target.descriptorVersion, u64 target.deadlineUnixMs] := by
  rw [readPendingRoute]
  refine .field meshName (readText8_inverse _) fun mesh => ?_
  refine .field stableType (readText8_inverse _) fun type => ?_
  refine .field descriptorVersion (readText8_inverse _) fun version => ?_
  refine .field deadlineUnixMs readU64_inverse fun deadline => .last fun target => ?_
  constructor
  · rintro ⟨rfl, rfl, rfl, rfl, rfl, rfl, rfl, hpending⟩
    cases target
    cases hpending
    simp_all
  · rintro rfl
    exact ⟨rfl, rfl, rfl, rfl, rfl, rfl, rfl, rfl, rfl, rfl, rfl, rfl, rfl⟩

theorem readActivationRoute_spells :
    Spells (readActivationRoute ready) (Of ready) (routeFields ready) := by
  rw [readActivationRoute]
  refine .field targetNodeRoutingId (readBytes8_inverse _) fun rid => ?_
  refine .field targetNodeGeneration readU64_inverse fun generation => ?_
  refine .field spotId (readText8_inverse _) fun spotId => ?_
  cases ready with
  | true => exact readReadyRoute_spells rid generation spotId
  | false => exact readPendingRoute_spells rid generation spotId

/-- A SpotId, or a zero byte where there is none. -/
def optionalText8 (field : String) : Option Text → Written
  | some value => text8 field value
  | none => u8 0

theorem readOptionalText8_inverse (field truncated : String) :
    Inverse (readOptionalText8 field truncated) (optionalText8 field) := by
  intro bytes value rest
  rw [readOptionalText8, Reader.run_get_bind]
  cases bytes with
  | nil =>
    refine iff_of_false Reader.run_throw_ne_ok ?_
    rintro ⟨ws, hws, hnil⟩
    obtain ⟨rfl, rfl⟩ := List.append_eq_nil_iff.mp hnil.symm
    cases value with
    | none => cases hws
    | some text => exact absurd (text8_eq_ok.mp hws).2 (List.cons_ne_nil _ _).symm
  | cons first others =>
    dsimp only
    split
    · rename_i hfirst
      simp only [Reader.run_bind_eq_ok, Reader.run_byte_eq_ok, Reader.run_pure_eq_ok]
      constructor
      · rintro ⟨_, _, hbytes, rfl, rfl⟩
        obtain ⟨-, rfl⟩ := List.cons.inj hbytes
        exact ⟨[0], rfl, by rw [hfirst]; rfl⟩
      · rintro ⟨ws, hws, hbytes⟩
        cases value with
        | none =>
          obtain rfl := u8_eq_ok.mp hws
          obtain ⟨-, rfl⟩ := List.cons.inj hbytes
          exact ⟨first, _, rfl, rfl, rfl⟩
        | some text =>
          obtain ⟨⟨hne, hlength, -⟩, rfl⟩ := text8_eq_ok.mp hws
          obtain ⟨hlength', -⟩ := List.cons.inj hbytes
          have hzero := toNat_length8 hlength
          rw [← hlength', hfirst] at hzero
          exact absurd (List.length_eq_zero_iff.mp hzero.symm) hne
    · rename_i hfirst
      rw [map_eq_pure_bind]
      simp only [Reader.run_bind_eq_ok, readText8_eq_ok, Reader.run_pure_eq_ok]
      constructor
      · rintro ⟨text, _, ⟨ws, hws, hbytes⟩, rfl, rfl⟩
        exact ⟨ws, hws, hbytes⟩
      · rintro ⟨ws, hws, hbytes⟩
        cases value with
        | none =>
          obtain rfl := u8_eq_ok.mp hws
          exact absurd (List.cons.inj hbytes).1 hfirst
        | some text => exact ⟨text, rest, ⟨ws, hws, hbytes⟩, rfl, rfl⟩

theorem readReplyRouteId_spells (request : Bool) :
    Spells (readReplyRouteId request) (fun replyRouteId => request = false → replyRouteId = 0)
      fun replyRouteId => if request then [u64 replyRouteId] else [] := by
  cases request with
  | false =>
    refine .last fun replyRouteId => ?_
    exact ⟨fun h => h rfl, fun h _ => h⟩
  | true =>
    refine (Spells.of_inverse readU64_inverse).congr_good fun replyRouteId => ?_
    exact ⟨fun _ => trivial, fun _ h => by cases h⟩

theorem concat_routeFields_ne_nil (target : InstanceSpotActivationTarget) :
    concat (routeFields ready target) ≠ .ok [] := by
  intro h
  obtain ⟨first, others, hfirst, -, hnil⟩ := concat_cons_eq_ok.mp h
  obtain ⟨rfl, -⟩ := List.append_eq_nil_iff.mp hnil.symm
  exact absurd (bytes8_eq_ok.mp hfirst).2 (List.cons_ne_nil _ _).symm

def routeVersion : UInt8 :=
  if ready then 1 else 2

theorem routeVersion_decide {version : UInt8} (h : ¬ (version ≠ 1 ∧ version ≠ 2)) :
    routeVersion (version = 1) = version := by
  by_cases hone : version = 1
  · rw [hone]
    rfl
  · have htwo : version = 2 := not_not.mp fun htwo => h ⟨hone, htwo⟩
    rw [htwo]
    rfl

theorem decide_routeVersion : decide (routeVersion ready = 1) = ready := by
  cases ready <;> rfl

theorem kindByte_decide {kind : UInt8} (h : ¬ (kind ≠ 1 ∧ kind ≠ 2)) :
    kindByte (kind = 2) = kind := by
  by_cases htwo : kind = 2
  · rw [htwo]
    rfl
  · have hone : kind = 1 := not_not.mp fun hone => h ⟨hone, htwo⟩
    rw [hone]
    rfl

theorem decide_kindByte (request : Bool) : decide (kindByte request = 2) = request := by
  cases request <;> rfl

theorem ready_eq_of {ready : Bool} {target : InstanceSpotActivationTarget}
    (h : target.Of ready) : decide (target.authorityOwnerGeneration ≠ 0) = ready := by
  cases ready with
  | true => exact decide_eq_true (Ready.authorityOwnerGeneration h)
  | false => exact decide_eq_false (not_not.mpr (Pending.authorityOwnerGeneration h))

namespace InstanceSpotActivationHeader

structure Decoded (hasMetadata : Bool) (record : InstanceSpotActivationHeader) : Prop where
  hasMetadata : record.hasMetadata = hasMetadata
  target : record.target.Of record.ready
  reply : record.request = false → record.replyRouteId = 0

/-- The fields behind the header of the command, for a route of the variant `ready` and an
operation of the kind `request`. -/
def fieldsOf (ready request : Bool) (record : InstanceSpotActivationHeader) : List Written :=
  nest16 "Instance Spot activation route exceeds u16 bound"
      (concat (InstanceSpotActivationTarget.routeFields ready record.target)) ::
    u64 record.sourceNodeGeneration :: bytes8 "source node RID" record.sourceNodeRoutingId ::
    optionalText8 "source SpotId" record.sourceSpotId :: u8 (kindByte record.request) ::
    u64 record.operation.high :: u64 record.operation.low ::
    ((if request then [u64 record.replyRouteId] else []) ++ [])

end InstanceSpotActivationHeader

open InstanceSpotActivationHeader

theorem readActivation_spells (hasMetadata : Bool) :
    Spells (readActivation hasMetadata) (Decoded hasMetadata)
      fun record => u8 (routeVersion record.ready) ::
        record.fieldsOf record.ready record.request := by
  rw [readActivation]
  refine .field (fun record : InstanceSpotActivationHeader => routeVersion record.ready)
    (byte_inverse _) fun version => ?_
  refine .guard (fun record h => ?_) fun hversion => ?_
  · rw [← h.1]
    cases record.ready <;> decide
  have hready : ∀ record : InstanceSpotActivationHeader, routeVersion record.ready = version →
      record.ready = decide (version = 1) := by
    rintro record rfl
    exact (decide_routeVersion record.ready).symm
  suffices h : Spells _ (fun record => routeVersion record.ready = version ∧
      Decoded hasMetadata record) fun record => record.fieldsOf (version = 1) record.request by
    refine h.congr fun record hrecord => ?_
    rw [hready record hrecord.1]
  refine .part InstanceSpotActivationHeader.target
    (spells_nested16 (fun ws a => (readActivationRoute_spells _).parse_finish)
      (concat_routeFields_ne_nil _))
    (fun record hrecord => hready record hrecord.1 ▸ hrecord.2.target) fun target htarget => ?_
  refine .field sourceNodeGeneration readU64_inverse fun generation => ?_
  refine .field sourceNodeRoutingId (readBytes8_inverse _) fun rid => ?_
  refine .field sourceSpotId (readOptionalText8_inverse _ _) fun source => ?_
  refine .field (fun record : InstanceSpotActivationHeader => kindByte record.request)
    (byte_inverse _) fun kind => ?_
  refine .guard (fun record h => ?_) fun hkind => ?_
  · rw [← h.1]
    cases record.request <;> decide
  refine .field (fun record : InstanceSpotActivationHeader => record.operation.high)
    readU64_inverse fun high => ?_
  refine .field (fun record : InstanceSpotActivationHeader => record.operation.low)
    readU64_inverse fun low => ?_
  have hrequest : ∀ record : InstanceSpotActivationHeader, kindByte record.request = kind →
      record.request = decide (kind = 2) := by
    rintro record rfl
    exact (decide_kindByte record.request).symm
  suffices h : Spells _ _ fun record : InstanceSpotActivationHeader =>
      (if decide (kind = 2) then [u64 record.replyRouteId] else []) ++ [] by
    refine h.congr fun record hrecord => ?_
    rw [hrequest record hrecord.2.2.1]
  refine .part InstanceSpotActivationHeader.replyRouteId (readReplyRouteId_spells _)
    (fun record hrecord => hrequest record hrecord.2.2.1 ▸ hrecord.2.2.2.2.2.2.2.2.reply)
    fun reply hreply => .last fun record => ?_
  constructor
  · rintro ⟨hreply, hlow, hhigh, hkind, hsource, hrid, hgeneration, htarget, hversion, hdecoded⟩
    have hrequest := hrequest record hkind
    obtain ⟨target, generation, rid, source, request, ⟨high, low⟩, reply, metadata⟩ := record
    simp only at hreply hlow hhigh hsource hrid hgeneration htarget hrequest
    rw [hreply, hlow, hhigh, hsource, hrid, hgeneration, htarget, hrequest,
      show metadata = hasMetadata from hdecoded.hasMetadata]
  · rintro rfl
    have hof := ready_eq_of htarget
    refine ⟨rfl, rfl, rfl, kindByte_decide hkind, rfl, rfl, rfl, rfl, ?_, rfl, ?_, hreply⟩
    · exact (congrArg routeVersion hof).trans (routeVersion_decide hversion)
    · exact (congrArg (Of · target) hof).mpr htarget

theorem flagByte_decide {flags : UInt8} (h : flags &&& ~~~metadataFlag = 0) :
    flagByte (flags &&& metadataFlag ≠ 0) = flags := by
  obtain ⟨b⟩ := flags
  revert b
  decide

theorem decide_flagByte (hasMetadata : Bool) :
    decide (flagByte hasMetadata &&& metadataFlag ≠ 0) = hasMetadata := by
  cases hasMetadata <;> rfl

def InstanceSpotActivationHeader.commandFields (record : InstanceSpotActivationHeader) :
    List Written :=
  ServiceWireHeader.encode ⟨39, flagByte record.hasMetadata⟩ :: u8 (routeVersion record.ready) ::
    record.fieldsOf record.ready record.request

theorem readActivationCommand_spells :
    Spells readActivationCommand (fun record => record.Decoded record.hasMetadata)
      commandFields := by
  rw [readActivationCommand]
  refine .field (fun record : InstanceSpotActivationHeader =>
    ServiceWireHeader.mk 39 (flagByte record.hasMetadata)) readHeader_inverse fun header => ?_
  refine .guard (fun record h => ?_) fun hheader => ?_
  · rw [← h.1]
    cases record.hasMetadata <;> decide
  rw [not_or, not_not, not_not] at hheader
  obtain ⟨hkind, hflags⟩ := hheader
  refine (readActivation_spells _).congr_good fun record => ?_
  constructor
  · rintro ⟨rfl, h⟩
    exact ⟨(decide_flagByte _).symm, h.target, h.reply⟩
  · intro h
    refine ⟨?_, rfl, h.target, h.reply⟩
    rw [h.hasMetadata, flagByte_decide hflags, ← hkind]

def InstanceSpotActivationTarget.UnusedDefault (target : InstanceSpotActivationTarget) : Prop :=
  if target.authorityOwnerGeneration ≠ 0 then
    target.meshName = [] ∧ target.stableType = [] ∧ target.descriptorVersion = [] ∧
      target.deadlineUnixMs = 0
  else
    target.objectGeneration = 0 ∧ target.ownerId = [] ∧ target.ownerLeaseGeneration = 0 ∧
      target.storeVersion = [] ∧ target.instanceIntent = false

variable {record : InstanceSpotActivationHeader}

theorem inconsistent_iff :
    ¬ record.inconsistent = true ↔ ¬ record.invalid = true ∧ (record.ready = true →
      record.target.objectGeneration ≠ 0 ∧ record.target.ownerId ≠ [] ∧
        record.target.ownerLeaseGeneration ≠ 0 ∧ record.target.storeVersion ≠ []) := by
  simp only [inconsistent, invalid, Bool.or_eq_true, Bool.and_eq_true, decide_eq_true_eq, not_or,
    not_and]
  constructor
  · rintro ⟨⟨⟨⟨⟨htarget, hdeadline⟩, hready⟩, hsource⟩, hoperation⟩, hreply⟩
    refine ⟨⟨⟨⟨⟨htarget, hdeadline⟩, hsource⟩, hoperation⟩, hreply⟩, fun h => ?_⟩
    obtain ⟨⟨⟨hobject, howner⟩, hlease⟩, hversion⟩ := hready h
    exact ⟨hobject, howner, hlease, hversion⟩
  · rintro ⟨⟨⟨⟨⟨htarget, hdeadline⟩, hsource⟩, hoperation⟩, hreply⟩, hready⟩
    refine ⟨⟨⟨⟨⟨htarget, hdeadline⟩, fun h => ?_⟩, hsource⟩, hoperation⟩, hreply⟩
    obtain ⟨hobject, howner, hlease, hversion⟩ := hready h
    exact ⟨⟨⟨hobject, howner⟩, hlease⟩, hversion⟩

def InstanceSpotActivationHeader.otherFields (record : InstanceSpotActivationHeader) :
    List Written :=
  [u64 record.sourceNodeGeneration, bytes8 "source node RID" record.sourceNodeRoutingId,
    optionalText8 "source SpotId" record.sourceSpotId] ++ record.operationFields

theorem commandFields_eq (record : InstanceSpotActivationHeader) : record.commandFields =
    [ServiceWireHeader.encode ⟨39, flagByte record.hasMetadata⟩, u8 (routeVersion record.ready),
      nest16 "Instance Spot activation route exceeds u16 bound" (concat record.routeFields)] ++
    record.otherFields := by
  rw [commandFields, fieldsOf, List.append_nil]
  rfl

theorem encode_eq (record : InstanceSpotActivationHeader) : record.encode = (do
    rejectIf record.inconsistent
      "Instance Spot activation contains a zero or inconsistent required field"
    let route ← concat record.routeFields
    rejectIf (65535 < route.length) "Instance Spot activation route exceeds u16 bound"
    let others ← concat record.otherFields
    pure (instanceSpotPrefix ++ [flagByte record.hasMetadata, routeVersion record.ready] ++
      bytesOf 2 route.length ++ route ++ others)) := by
  rw [encode]
  rfl

variable {bytes : List UInt8}

theorem encode_eq_ok : record.encode = .ok bytes ↔
      ¬ record.inconsistent = true ∧ concat record.commandFields = .ok bytes := by
  rw [encode_eq, commandFields_eq, concat_append_eq_ok]
  simp only [bind_eq_ok, rejectIf_eq_ok, pure_eq_ok, concat_cons_eq_ok, concat_nil_eq_ok, nest16]
  constructor
  · rintro ⟨_, hconsistent, route, hroute, _, hlength, others, hothers, rfl⟩
    refine ⟨hconsistent, _, others, ⟨_, _, rfl, ⟨_, _, rfl, ⟨_, _, ⟨route, hroute, (), hlength,
      rfl⟩, rfl, rfl⟩, rfl⟩, rfl⟩, hothers, ?_⟩
    simp [magic, instanceSpotPrefix, wireMajor]
  · rintro ⟨hconsistent, _, others, ⟨_, _, hheader, ⟨_, _, hversion, ⟨_, _, ⟨route, hroute, _,
      hlength, rfl⟩, rfl, rfl⟩, rfl⟩, rfl⟩, hothers, rfl⟩
    obtain rfl := Except.ok.inj hheader
    obtain rfl := u8_eq_ok.mp hversion
    refine ⟨(), hconsistent, route, hroute, (), hlength, others, hothers, ?_⟩
    simp [magic, instanceSpotPrefix, wireMajor]

theorem texts_of_commandFields
    (hready : record.ready = true) (h : concat record.commandFields = .ok bytes) :
    record.target.ownerId ≠ [] ∧ record.target.storeVersion ≠ [] := by
  rw [commandFields_eq] at h
  have hnest : ∃ ws, nest16 "Instance Spot activation route exceeds u16 bound"
      (concat record.routeFields) = .ok ws := ok_of_mem_concat h (by simp)
  obtain ⟨_, hnest⟩ := hnest
  obtain ⟨_, hroute, -⟩ := bind_eq_ok.mp hnest
  rw [InstanceSpotActivationHeader.routeFields, if_pos hready] at hroute
  have howner : ∃ ws, text8 "owner ID" record.target.ownerId = .ok ws :=
    ok_of_mem_concat hroute (by simp)
  have hversion : ∃ ws, text16 "StoreVersion" authorityStoreVersionBytes
      record.target.storeVersion = .ok ws := ok_of_mem_concat hroute (by simp)
  obtain ⟨_, howner⟩ := howner
  obtain ⟨_, hversion⟩ := hversion
  exact ⟨(text8_eq_ok.mp howner).1.1, (text16_eq_ok.mp hversion).1.1⟩

theorem decoded_iff
    (hinvalid : ¬ record.invalid = true) (h : concat record.commandFields = .ok bytes) :
    record.Decoded record.hasMetadata ↔ record.target.UnusedDefault ∧ (record.ready = true →
        record.target.objectGeneration ≠ 0 ∧ record.target.ownerId ≠ [] ∧
          record.target.ownerLeaseGeneration ≠ 0 ∧ record.target.storeVersion ≠ []) := by
  have hreply : record.request = false → record.replyRouteId = 0 := by
    intro hrequest
    by_contra hne
    refine hinvalid ?_
    simp [invalid, hrequest, hne]
  rw [UnusedDefault]
  by_cases hgeneration : record.target.authorityOwnerGeneration = 0
  · have hready : record.ready = false := decide_eq_false (not_not.mpr hgeneration)
    rw [if_neg (not_not.mpr hgeneration), hready]
    constructor
    · intro hdecoded
      have hpending : record.target.Pending := by
        have hof := hdecoded.target
        rwa [hready] at hof
      exact ⟨⟨hpending.objectGeneration, hpending.ownerId, hpending.ownerLeaseGeneration,
        hpending.storeVersion, hpending.instanceIntent⟩, fun h => by cases h⟩
    · rintro ⟨⟨hobject, howner, hlease, hversion, hintent⟩, -⟩
      refine ⟨rfl, ?_, hreply⟩
      rw [hready]
      exact ⟨hobject, hgeneration, howner, hlease, hversion, hintent⟩
  · have hready : record.ready = true := decide_eq_true hgeneration
    rw [if_pos hgeneration, hready]
    constructor
    · intro hdecoded
      have hof : record.target.Ready := by
        have hof := hdecoded.target
        rwa [hready] at hof
      obtain ⟨howner, hversion⟩ := texts_of_commandFields hready h
      exact ⟨⟨hof.meshName, hof.stableType, hof.descriptorVersion, hof.deadlineUnixMs⟩,
        fun _ => ⟨hof.objectGeneration, howner, hof.ownerLeaseGeneration, hversion⟩⟩
    · rintro ⟨⟨hmesh, htype, hdescriptor, hdeadline⟩, hfields⟩
      obtain ⟨hobject, -, hlease, -⟩ := hfields rfl
      refine ⟨rfl, ?_, hreply⟩
      rw [hready]
      exact ⟨hobject, hgeneration, hlease, hmesh, htype, hdescriptor, hdeadline⟩

theorem decodeInstanceSpotActivationHeader_eq_ok
    : decodeInstanceSpotActivationHeader bytes = .ok record ↔
      (record.Decoded record.hasMetadata ∧ ¬ record.invalid = true) ∧
        concat record.commandFields = .ok bytes :=
  readActivationCommand_spells.parse_check

/-- The bytes that are taken are those of a header without fields of the other variant, and they
are the bytes that it is written as. -/
theorem instanceSpotActivationHeader_codec (record : InstanceSpotActivationHeader)
    (bytes : List UInt8) : decodeInstanceSpotActivationHeader bytes = .ok record ↔
      record.target.UnusedDefault ∧ record.encode = .ok bytes := by
  rw [decodeInstanceSpotActivationHeader_eq_ok, encode_eq_ok, inconsistent_iff]
  constructor
  · rintro ⟨⟨hdecoded, hinvalid⟩, hbytes⟩
    obtain ⟨hunused, hready⟩ := (decoded_iff hinvalid hbytes).mp hdecoded
    exact ⟨hunused, ⟨hinvalid, hready⟩, hbytes⟩
  · rintro ⟨hunused, ⟨hinvalid, hready⟩, hbytes⟩
    exact ⟨⟨(decoded_iff hinvalid hbytes).mpr ⟨hunused, hready⟩, hinvalid⟩, hbytes⟩

end Zlink.ServiceWire
