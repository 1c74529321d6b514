import Zlink.ServiceWire.Frozen

/-!
# The codec of frozen records

The bodies of all kinds of records, the matrix of operations, and the two ways to a frozen
record: the decoder of canonical bytes and the builder from a typed application record.
-/

namespace Zlink.ServiceWire

open BigEndian Codec

inductive RelocationRole where
  | source
  | target
  | coordinator

def RelocationRole.ofByte? (value : UInt8) : Option RelocationRole :=
  if value = 1 then some source
  else if value = 2 then some target
  else if value = 3 then some coordinator
  else none

structure RelocationObject where
  kind : RelocationObjectKind
  stableType : Text
  objectId : Text
  objectGeneration : UInt64
  expectedAuthorityOwnerGeneration : UInt64

def readActorIdentity (field : String) : Reader Unit := do
  let _ ← readText8 field
  let _ ← readNonzeroU64 "Actor generation"
  pure ()

def readSpotIdentity : Reader Unit := do
  let _ ← readText8 "Spot ID"
  let _ ← readNonzeroU64 "Spot generation"
  pure ()

def readMembershipSnapshot : Reader Unit := do
  readActorIdentity "membership Actor ID"
  readSpotIdentity

def readOptionalMembershipSnapshot : Reader Unit := do
  let present ← readBool8 "membership presence"
  let body ← readBody16 "optional membership"
  if present then
    liftM (readWhole readMembershipSnapshot "optional membership snapshot" body)
  else rejectIf (body ≠ []) "absent membership snapshot has a body"

def readActorControlBody (lifecycle : UInt8) : Reader Unit := do
  if lifecycle = 2 then
    readOptionalMembershipSnapshot
    readMembershipSnapshot
  else if lifecycle = 3 then
    readMembershipSnapshot
    readMembershipSnapshot
  else readMembershipSnapshot

def readActorControl : Reader Unit := do
  let lifecycle ← Reader.byte "Actor lifecycle kind is truncated"
  rejectIf (lifecycle < 1 ∨ 5 < lifecycle) "invalid Actor lifecycle kind"
  let body ← readBody16 "Actor control body"
  liftM (readWhole (readActorControlBody lifecycle) "Actor control body" body)

def readDestinationBody (kind : UInt8) : Reader Unit := do
  if kind = 1 then
    let _ ← readBytes8 "target node RID"
  else if kind = 2 then
    let _ ← readText8 "channel name"
  else if kind = 3 then
    let _ ← readSpotRoute
  else
    let _ ← readActorRoute
    if kind = 5 then
      let _ ← readNonzeroU64 "binding generation"

def readSendReadyDestination : Reader Unit := do
  let kind ← Reader.byte "send-ready destination is truncated"
  rejectIf (kind < 1 ∨ 5 < kind) "invalid send-ready destination kind"
  let body ← readBody16 "send-ready destination"
  liftM (readWhole (readDestinationBody kind) "send-ready destination" body)

def readInstanceRouteBody (kind : UInt8) : Reader Unit := do
  let _ ← readBytes8 "target node RID"
  let _ ← readNonzeroU64 "target node generation"
  let _ ← readText8 "target Spot ID"
  if kind = 1 then
    let _ ← readNonzeroU64 "object generation"
    let _ ← readText8 "owner ID"
    let _ ← readNonzeroU64 "authority owner generation"
    let _ ← readNonzeroU64 "lease generation"
    let _ ← readText16 "StoreVersion" authorityStoreVersionBytes
    let _ ← readBool8 "Instance intent"
  else
    let _ ← readText8 "target Mesh name"
    let _ ← readText8 "stable type"
    let _ ← readText8 "descriptor version"
    let _ ← readNonzeroU64 "deadline Unix ms"

def readInstanceRoute : Reader UInt8 := do
  let kind ← Reader.byte "Instance route kind is truncated"
  rejectIf (kind < 1 ∨ 2 < kind) "invalid Instance route kind"
  let body ← readBody16 "Instance route"
  liftM (readWhole (readInstanceRouteBody kind) "Instance route" body)
  pure kind

def readRelocationId : Reader WireOperationId := do
  let high ← readU64
  let low ← readU64
  rejectIf (high = 0 ∧ low = 0) "relocation ID must not be zero"
  pure ⟨high, low⟩

def readRole : Reader RelocationRole := do
  let role ← Reader.byte "relocation role is truncated"
  Reader.ofOption (RelocationRole.ofByte? role) "invalid relocation role"

def readObjectBody : RelocationObjectKind → Reader RelocationObject
  | .instanceSpot => do
      let stableType ← readText8 "Instance Spot type"
      let objectId ← readText8 "Instance Spot ID"
      let objectGeneration ← readNonzeroU64 "Instance Spot generation"
      pure ⟨.instanceSpot, stableType, objectId, objectGeneration, 0⟩
  | kind => do
      let objectId ← readText8 "relocation object ID"
      let objectGeneration ← readNonzeroU64 "relocation object generation"
      let authorityOwnerGeneration ← readNonzeroU64 "expected authority owner generation"
      pure ⟨kind, [], objectId, objectGeneration, authorityOwnerGeneration⟩

def readObject : Reader RelocationObject := do
  let kind ← Reader.byte "relocation object kind is truncated"
  let length ← readU16
  let body ← Reader.take length.toNat "relocation object body is truncated"
  let kind ← Reader.ofOption (RelocationObjectKind.ofByte? kind) "invalid relocation object kind"
  liftM (readWhole (readObjectBody kind) "relocation object" body)

structure FrozenBodyValidation where
  instanceOperationKind : Option UInt8
  target : Option FrozenTargetIdentity
  application : Option ApplicationPayload

def readCompletion (captureFlow : Bool) : Reader Unit := do
  let terminal ← readU32
  let failure ← readU32
  let hasPayload ← readBool8 "completion payload presence"
  rejectIf (!validTerminalFailure terminal failure ∨ terminal ≠ 0 ∧ hasPayload)
    "completion terminal, failure, and payload do not match"
  if hasPayload then
    let _ ← readApplicationPayloadEnvelope captureFlow

def readRelocationControl : Reader Unit := do
  let phase ← Reader.byte "invalid relocation control phase"
  rejectIf (9 < phase) "invalid relocation control phase"
  let _ ← readRole
  let _ ← readRelocationId
  let _ ← readObject
  let terminal ← readU32
  let failure ← readU32
  rejectIf (!validTerminalFailure terminal failure)
    "relocation control terminal and failure do not match"

def readInstanceActivation (captureFlow : Bool) : Reader UInt8 := do
  let _ ← readInstanceRoute
  let _ ← readNonzeroU64 "Instance source node generation"
  let operationKind ← Reader.byte "invalid Instance activation operation kind"
  rejectIf (operationKind < 1 ∨ 2 < operationKind) "invalid Instance activation operation kind"
  let _ ← readApplicationPayloadEnvelope captureFlow
  pure operationKind

def readFrozenBody (kind : FrozenRecordKind) (captureFlow : Bool) :
    Reader FrozenBodyValidation := do
  match kind with
  | .nodeSend | .nodeRequest =>
    let application ← readApplicationPayloadEnvelope captureFlow
    pure ⟨none, none, some application⟩
  | .channelSend | .channelRequest =>
    let _ ← readText8 "channel name"
    let application ← readApplicationPayloadEnvelope captureFlow
    pure ⟨none, none, some application⟩
  | .spotSend | .spotRequest =>
    let target ← readSpotRoute
    let application ← readApplicationPayloadEnvelope captureFlow
    pure ⟨none, some target, some application⟩
  | .spotMulticast =>
    let _ ← readText8 "channel name"
    let _ ← readText8 "topic"
    let application ← readApplicationPayloadEnvelope captureFlow
    pure ⟨none, none, some application⟩
  | .spotControl =>
    readActorControl
    pure ⟨none, none, none⟩
  | .actorSend | .actorRequest =>
    let target ← readActorRoute
    let application ← readApplicationPayloadEnvelope captureFlow
    pure ⟨none, some target, some application⟩
  | .completion =>
    readCompletion captureFlow
    pure ⟨none, none, none⟩
  | .sendReady =>
    readSendReadyDestination
    pure ⟨none, none, none⟩
  | .relocationControl =>
    readRelocationControl
    pure ⟨none, none, none⟩
  | .instanceSpotActivation =>
    let operationKind ← readInstanceActivation captureFlow
    pure ⟨some operationKind, none, none⟩

def operationMatches (kind : FrozenRecordKind) (operationKind : UInt32) (zero : Bool)
    (instanceOperationKind : Option UInt8) : Bool :=
  match kind with
  | .nodeSend | .channelSend | .spotMulticast | .sendReady | .relocationControl =>
    operationKind = 0 && zero
  | .nodeRequest => operationKind = 1 && !zero
  | .channelRequest => operationKind = 2 && !zero
  | .spotSend | .actorSend => operationKind = 0 && !zero
  | .spotRequest => operationKind = 3 && !zero
  | .actorRequest => operationKind = 4 && !zero
  | .spotControl =>
    (operationKind = 0 && zero) ||
      ((operationKind = 6 || operationKind = 7 || operationKind = 8) && !zero)
  | .completion => 1 ≤ operationKind && operationKind ≤ 15 && !zero
  | .instanceSpotActivation =>
    match instanceOperationKind with
    | some instanceKind =>
      if instanceKind = 1 then operationKind = 0 && zero else operationKind = 12 && !zero
    | none => false

def requiresReply (operationKind : UInt32) : Bool :=
  operationKind = 1 || operationKind = 2 || operationKind = 3 || operationKind = 4 ||
    operationKind = 12

def validateOperationMatrix (record : FrozenRecord) (instanceOperationKind : Option UInt8) :
    Except String Unit := do
  rejectIf (!operationMatches record.kind record.operationKind record.operation.isZero
      instanceOperationKind)
    "frozen record kind, operation kind, and operation ID do not match"
  rejectIf (requiresReply record.operationKind ≠ record.replyRouteId.isSome)
    "frozen reply route does not match the operation kind"

def readMetadata (kind : FrozenRecordKind) : Reader (Bool × UInt8) := do
  let hasMetadata ← readBool8 "metadata presence"
  if hasMetadata then
    rejectIf (!kind.metadataAllowed) "metadata is forbidden for this frozen record kind"
    let hop ← readMetadataFrame
    pure (true, hop)
  else pure (false, 0)

def readReplyRoute (operationKind : UInt32) : Reader (Option UInt64) :=
  if requiresReply operationKind then some <$> readNonzeroU64 "reply route ID" else pure none

/-- `decode_frozen_record_prefix` up to the body. -/
def readFrozenHead : Reader FrozenRecord := do
  let kind ← Reader.byte "frozen record kind is truncated"
  let kind ← Reader.ofOption (FrozenRecordKind.ofByte? kind) "invalid frozen record kind"
  let sourceKind ← Reader.byte "frozen source kind is truncated"
  let sourceKind ←
    Reader.ofOption (FrozenSourceKind.ofByte? sourceKind) "invalid frozen source kind"
  let source ← readBody16 "frozen source"
  let source ← liftM (readWhole (readSource sourceKind) "frozen source" source)
  rejectIf (kind.infrastructure ∧ sourceKind ≠ .node)
    "infrastructure frozen record requires a node source"
  let metadata ← readMetadata kind
  let high ← readU64
  let low ← readU64
  let operationKind ← readU32
  rejectIf (15 < operationKind) "invalid frozen operation kind"
  let reply ← readBody16 "frozen reply route"
  let replyRouteId ← liftM (readWhole (readReplyRoute operationKind) "frozen reply route" reply)
  pure
    { kind
      sourceKind
      source := source.1
      details := source.2
      hasMetadata := metadata.1
      messageFollowHopCount := metadata.2
      operation := ⟨high, low⟩
      operationKind
      replyRouteId
      target := none
      application := none
      canonicalBytes := [] }

/-- `decode_frozen_record_prefix`. -/
def readFrozenRecord (captureFlow : Bool) : Reader FrozenRecord := do
  let bytes ← get
  let head ← readFrozenHead
  let body ← readFrozenBody head.kind captureFlow
  liftM (validateOperationMatrix head body.instanceOperationKind)
  pure
    { head with
      target := body.target
      application := body.application
      canonicalBytes := bytes.take (bytes.length - (← get).length) }

def decodeFrozenRecord (bytes : List UInt8) (captureFlow : Bool) : Except String FrozenRecord :=
  readWhole (readFrozenRecord captureFlow) "frozen record" bytes

def encodeFrozenRecord (record : FrozenRecord) : Written := do
  rejectIf (record.canonicalBytes = []) "canonical frozen record bytes must not be empty"
  let decoded ← decodeFrozenRecord record.canonicalBytes true
  rejectIf (!decoded.equals { record with canonicalBytes := decoded.canonicalBytes })
    "frozen record summary does not match its canonical bytes"
  pure record.canonicalBytes

def frozenReplyRoute (replyRouteId : Option UInt64) : Written :=
  match replyRouteId with
  | some replyRouteId => do
      rejectIf (replyRouteId = 0) "frozen reply route ID is zero"
      pure (bytesOf 2 8 ++ bytesOf 8 replyRouteId.toNat)
  | none => pure (bytesOf 2 0)

def frozenRoute : FrozenApplicationBody → Written
  | .spot body => frozenSpotRoute body
  | .actor body => frozenActorRoute body

def frozenBody (body : FrozenApplicationBody) : Written := do
  let route ← frozenRoute body
  let application ← body.application.encode
  pure (route ++ application)

def canonicalBytes (record : FrozenApplicationRecord) : Written := do
  let source ← frozenSource record
  let metadata ← frozenMetadata record.metadata record.messageFollowHopCount
  let replyRoute ← frozenReplyRoute record.replyRouteId
  let body ← frozenBody record.body
  pure ([record.kind.toByte, record.sourceKind.toByte] ++ source ++ metadata ++
    bytesOf 8 record.operation.high.toNat ++ bytesOf 8 record.operation.low.toNat ++
    bytesOf 4 record.operationKind.toNat ++ replyRoute ++ body)

def FrozenApplicationBody.target : FrozenApplicationBody → FrozenTargetIdentity
  | spot body =>
    { kind := .userSpot
      objectId := body.target.spotId
      objectGeneration := body.target.objectGeneration
      targetNodeRoutingId := body.target.targetNodeRoutingId
      targetNodeGeneration := body.target.targetNodeGeneration
      authorityOwnerGeneration := body.target.authorityOwnerGeneration
      ownerLeaseGeneration := body.expectedOwnerLeaseGeneration }
  | actor body =>
    { kind := .actor
      objectId := body.target.actorId
      objectGeneration := body.target.objectGeneration
      targetNodeRoutingId := body.target.targetNodeRoutingId
      targetNodeGeneration := body.target.targetNodeGeneration
      authorityOwnerGeneration := body.target.authorityOwnerGeneration
      ownerLeaseGeneration := body.target.ownerLeaseGeneration }

namespace FrozenApplicationRecord

def hasMetadata (record : FrozenApplicationRecord) : Bool :=
  record.metadata ≠ [] || record.messageFollowHopCount ≠ 0

def summary (record : FrozenApplicationRecord) (bytes : List UInt8) : FrozenRecord :=
  { kind := record.kind
    sourceKind := record.sourceKind
    source := record.source
    details := record.details
    hasMetadata := record.hasMetadata
    messageFollowHopCount := record.messageFollowHopCount
    operation := record.operation
    operationKind := record.operationKind
    replyRouteId := record.replyRouteId
    target := some record.body.target
    application := some record.body.application
    canonicalBytes := bytes }

end FrozenApplicationRecord

def buildFrozenApplicationRecord (record : FrozenApplicationRecord) (includeCanonical : Bool) :
    Except String FrozenRecord := do
  rejectIf ((!record.kind.isSpotMessage && !record.kind.isActorMessage) ∨
      record.kind.isSpotMessage ≠ record.body.isSpot)
    "typed frozen application body does not match its record kind"
  rejectIf (messageFollowHopCount < record.messageFollowHopCount)
    "invalid Message Follow hop count"
  rejectIf (record.hasMetadata ∧ !record.kind.metadataAllowed)
    "metadata is forbidden for this frozen record kind"
  let bytes ← if includeCanonical then canonicalBytes record else pure []
  validateOperationMatrix (record.summary bytes) none
  pure (record.summary bytes)

def encodeFrozenApplicationRecord (record : FrozenApplicationRecord) :
    Except String FrozenRecord :=
  buildFrozenApplicationRecord record true

end Zlink.ServiceWire
