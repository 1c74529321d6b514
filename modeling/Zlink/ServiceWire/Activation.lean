import Zlink.ServiceWire.Fences
import Zlink.ServiceWire.Payload

/-!
# Recovery of an Instance Spot activation

The command that activates an Instance Spot is stored beside its metadata and its payload until
the activation has been seen through. The stored record is a prefix, the length of a body, the
body and a checksum over everything before it. Its decoder checks the checksum first and then
reads the fields from the whole frame, so what is left behind an offset includes the checksum.
-/

namespace Zlink.ServiceWire

open BigEndian Codec

/-- `instance_spot_activation_target_t`. An authority owner generation marks the variant of a
Spot that is ready. -/
structure InstanceSpotActivationTarget where
  targetNodeRoutingId : List UInt8
  targetNodeGeneration : UInt64
  spotId : Text
  meshName : Text
  stableType : Text
  descriptorVersion : Text
  deadlineUnixMs : UInt64
  objectGeneration : UInt64 := 0
  authorityOwnerGeneration : UInt64 := 0
  ownerId : Text := []
  ownerLeaseGeneration : UInt64 := 0
  storeVersion : Text := []
  instanceIntent : Bool := false
  deriving DecidableEq

structure InstanceSpotActivationHeader where
  target : InstanceSpotActivationTarget
  sourceNodeGeneration : UInt64
  sourceNodeRoutingId : List UInt8
  sourceSpotId : Option Text
  request : Bool
  operation : WireOperationId
  replyRouteId : UInt64
  hasMetadata : Bool
  deriving DecidableEq

structure InstanceActivationRecovery where
  activation : InstanceSpotActivationHeader
  metadata : Option (List UInt8)
  applicationPayload : ApplicationPayload

/-- `operator==`. -/
def InstanceActivationRecovery.equals (left right : InstanceActivationRecovery) : Bool :=
  left.activation = right.activation && left.metadata = right.metadata &&
    left.applicationPayload.equals right.applicationPayload

/-- The magic bytes, the version of the wire, and the number of the command. -/
def instanceSpotPrefix : List UInt8 :=
  [90, 77, 1, 39]

def metadataFlag : UInt8 :=
  1

namespace InstanceSpotActivationHeader

variable (record : InstanceSpotActivationHeader)

def ready : Bool :=
  record.target.authorityOwnerGeneration ≠ 0

/-- The first check of `encode_instance_spot_activation_header`. -/
def inconsistent : Bool :=
  record.target.targetNodeGeneration = 0 || !record.ready && (record.target.deadlineUnixMs = 0 ||
      9223372036854775807 < record.target.deadlineUnixMs) ||
    record.ready && (record.target.objectGeneration = 0 || record.target.ownerId = [] ||
      record.target.ownerLeaseGeneration = 0 || record.target.storeVersion = []) ||
    record.sourceNodeGeneration = 0 || record.operation.isZero ||
    (record.request != (record.replyRouteId != 0))

def routeFields : List Written :=
  [bytes8 "target node RID" record.target.targetNodeRoutingId,
    u64 record.target.targetNodeGeneration, text8 "target SpotId" record.target.spotId] ++
  if record.ready then
    [u64 record.target.objectGeneration, text8 "owner ID" record.target.ownerId,
      u64 record.target.authorityOwnerGeneration, u64 record.target.ownerLeaseGeneration,
      text16 "StoreVersion" authorityStoreVersionBytes record.target.storeVersion,
      u8 (if record.target.instanceIntent then 1 else 0)]
  else
    [text8 "target MeshName" record.target.meshName, text8 "stable type" record.target.stableType,
      text8 "target descriptor version" record.target.descriptorVersion,
      u64 record.target.deadlineUnixMs]

def operationFields : List Written :=
  [u8 (if record.request then 2 else 1), u64 record.operation.high, u64 record.operation.low] ++
  if record.request then [u64 record.replyRouteId] else []

/-- `encode_instance_spot_activation_header`. -/
def encode : Written := do
  rejectIf record.inconsistent
    "Instance Spot activation contains a zero or inconsistent required field"
  let route ← concat record.routeFields
  rejectIf (65535 < route.length) "Instance Spot activation route exceeds u16 bound"
  let others ← concat
    ([u64 record.sourceNodeGeneration, bytes8 "source node RID" record.sourceNodeRoutingId,
      match record.sourceSpotId with
      | some sourceSpotId => text8 "source SpotId" sourceSpotId
      | none => u8 0] ++ record.operationFields)
  pure (instanceSpotPrefix ++
    [if record.hasMetadata then metadataFlag else 0, if record.ready then 1 else 2] ++
    bytesOf 2 route.length ++ route ++ others)

end InstanceSpotActivationHeader

/-- One bit of `crc32c_accumulator_t::update_bytes`. -/
def crc32cBit (state : UInt32) : UInt32 :=
  state >>> 1 ^^^ (0x82f63b78 &&& (0 - (state &&& 1)))

def crc32cByte (state : UInt32) (b : UInt8) : UInt32 :=
  Nat.iterate crc32cBit 8 (state ^^^ b.toUInt32)

def crc32c (bytes : List UInt8) : UInt32 :=
  ~~~ bytes.foldl crc32cByte 0xffffffff

/-- The prefix of a record, `ZLIA` and a version. -/
def instanceActivationRecoveryPrefix : List UInt8 :=
  [90, 76, 73, 65, 1]

def instanceActivationRecoveryMinimumSize : ℕ :=
  instanceActivationRecoveryPrefix.length + 2 + 4 + 4

def sourceSpotFields : Option Text → List Written
  | some sourceSpotId => [u8 1, text8 "source SpotId" sourceSpotId]
  | none => [u8 0]

def recoveryFields (activation : InstanceSpotActivationHeader) : List Written :=
  [text8 "target SpotId" activation.target.spotId, text8 "stable type" activation.target.stableType,
    text8 "target MeshName" activation.target.meshName,
    bytes8 "target node RID" activation.target.targetNodeRoutingId,
    u64 activation.target.targetNodeGeneration,
    text8 "target descriptor version" activation.target.descriptorVersion,
    bytes8 "source node RID" activation.sourceNodeRoutingId,
    u64 activation.sourceNodeGeneration] ++
  sourceSpotFields activation.sourceSpotId ++ activation.operationFields ++
  [u64 activation.target.deadlineUnixMs, u8 (if activation.hasMetadata then 1 else 0)]

def appendRecoveryMetadata : Option (List UInt8) → Written
  | some metadata => do
      rejectIf (metadata = []) "Instance activation recovery metadata frame is empty"
      pure metadata
  | none => pure []

def recoveryHead (length : ℕ) : List UInt8 :=
  instanceActivationRecoveryPrefix ++ bytesOf 2 0 ++ bytesOf 4 length

def encodeInstanceActivationRecovery (record : InstanceActivationRecovery) : Written := do
  rejectIf (record.activation.hasMetadata ≠ record.metadata.isSome)
    "Instance activation recovery metadata presence is inconsistent"
  let _ ← record.activation.encode
  let fields ← concat (recoveryFields record.activation)
  let metadata ← appendRecoveryMetadata record.metadata
  let application ← record.applicationPayload.encode
  let body := fields ++ metadata ++ application
  rejectIf (maxU32 < body.length) "Instance activation recovery exceeds u32 body bound"
  let result := recoveryHead body.length ++ body
  pure (result ++ bytesOf 4 (crc32c result).toNat)

/-- How a decoder fails: it refuses the bytes, or it forms a range that is not inside them. -/
inductive Fault where
  | refused (message : String)
  | outOfRange

def inFrame {α : Type} (answer : Except String α) : Except Fault α :=
  answer.mapError Fault.refused

def readRecoveryFrame (frame : List UInt8) : Reader Unit := do
  rejectIf (frame.length < instanceActivationRecoveryMinimumSize ∨
      frame.take 5 ≠ instanceActivationRecoveryPrefix)
    "Instance activation recovery prefix is invalid"
  let _ ← Reader.take 5 "Instance activation recovery prefix is invalid"
  rejectIf ((← readU16) ≠ 0) "Instance activation recovery flags are invalid"
  let bodyLength ← readU32
  rejectIf (bodyLength.toNat ≠ (← get).length - 4)
    "Instance activation recovery body length does not match frame"
  let (expectedChecksum, _) ← (readU32.run (frame.drop (frame.length - 4)) : Except String _)
  rejectIf (expectedChecksum ≠ crc32c (frame.take (frame.length - 4)))
    "Instance activation recovery checksum mismatch"

def byteInBody (message : String) : Reader UInt8 := do
  rejectIf ((← get).length ≤ 4) message
  Reader.byte message

def readSourceSpotId : Reader (Option Text) := do
  let hasSourceSpot ← byteInBody "Instance activation recovery source SpotId is truncated"
  if hasSourceSpot = 1 then some <$> readText8 "source SpotId"
  else do
    rejectIf (hasSourceSpot ≠ 0) "Instance activation recovery source SpotId flag is invalid"
    pure none

def readOperationKind : Reader Bool := do
  let kind ← byteInBody "Instance activation recovery operation kind is invalid"
  rejectIf (kind ≠ 1 ∧ kind ≠ 2) "Instance activation recovery operation kind is invalid"
  pure (kind = 2)

def readReplyRouteId (request : Bool) : Reader UInt64 :=
  if request then readU64 else pure 0

def readMetadataFlag : Reader Bool := do
  let hasMetadata ← byteInBody "Instance activation recovery metadata flag is invalid"
  rejectIf (1 < hasMetadata) "Instance activation recovery metadata flag is invalid"
  pure (hasMetadata = 1)

def readRecoveryFields : Reader InstanceSpotActivationHeader := do
  let spotId ← readText8 "target SpotId"
  let stableType ← readText8 "stable type"
  let meshName ← readText8 "target MeshName"
  let targetNodeRoutingId ← readBytes8 "target node RID"
  let targetNodeGeneration ← readU64
  let descriptorVersion ← readText8 "target descriptor version"
  let sourceNodeRoutingId ← readBytes8 "source node RID"
  let sourceNodeGeneration ← readU64
  let sourceSpotId ← readSourceSpotId
  let request ← readOperationKind
  let high ← readU64
  let low ← readU64
  let replyRouteId ← readReplyRouteId request
  let deadlineUnixMs ← readU64
  let hasMetadata ← readMetadataFlag
  pure
    { target :=
        { targetNodeRoutingId, targetNodeGeneration, spotId, meshName, stableType,
          descriptorVersion, deadlineUnixMs }
      sourceNodeGeneration, sourceNodeRoutingId, sourceSpotId, request, operation := ⟨high, low⟩,
      replyRouteId, hasMetadata }

/-- Where an offset stands: in front of what is left of the frame, or beyond its end. -/
inductive Position where
  | inside (rest : List UInt8)
  | beyond

/-- `a - b` of two `std::size_t`. -/
def sizeDifference (a b : ℕ) : ℕ :=
  (a + 2 ^ 64 - b) % 2 ^ 64

/-- One metadata entry. `body_end - offset` is what is left without the checksum. -/
def skipMetadataEntry : Position → Except Fault Position
  | .beyond => .error (.refused "truncated metadata key")
  | .inside rest => do
      let (_, rest) ← inFrame ((readText8 "metadata key").run rest)
      let (valueLength, rest) ← inFrame (readU16.run rest)
      if sizeDifference rest.length 4 < valueLength.toNat then
        .error (.refused "Instance activation recovery metadata value is truncated")
      else if rest.length < valueLength.toNat then pure .beyond
      else pure (.inside (rest.drop valueLength.toNat))

def skipMetadataEntries : ℕ → Position → Except Fault Position
  | 0, position => pure position
  | count + 1, position => do skipMetadataEntries count (← skipMetadataEntry position)

def readMetadataHead : Reader UInt8 := do
  let version ← byteInBody "Instance activation recovery metadata version is invalid"
  rejectIf (version ≠ 1) "Instance activation recovery metadata version is invalid"
  byteInBody "Instance activation recovery metadata count is truncated"

def takeMetadata (start : List UInt8) : Except Fault (List UInt8 × List UInt8) := do
  let (count, rest) ← inFrame (readMetadataHead.run start)
  match ← skipMetadataEntries count.toNat (.inside rest) with
  | .inside rest => pure (start.take (start.length - rest.length), rest)
  | .beyond => .error .outOfRange

def takeRecoveryMetadata (hasMetadata : Bool) (rest : List UInt8) :
    Except Fault (Option (List UInt8) × List UInt8) :=
  if hasMetadata then (fun taken => (some taken.1, taken.2)) <$> takeMetadata rest
  else pure (none, rest)

def decodeInstanceActivationRecovery (frame : List UInt8) (captureFlow : Bool) :
    Except Fault InstanceActivationRecovery := do
  let (_, rest) ← inFrame ((readRecoveryFrame frame).run frame)
  let (activation, rest) ← inFrame (readRecoveryFields.run rest)
  let (metadata, rest) ← takeRecoveryMetadata activation.hasMetadata rest
  if rest.length ≤ 4 then
    .error (.refused "Instance activation recovery application payload is missing")
  else do
    let applicationPayload ←
      inFrame (decodeApplicationPayload (rest.take (rest.length - 4)) captureFlow)
    let activation := { activation with hasMetadata := metadata.isSome }
    let _ ← inFrame activation.encode
    pure { activation, metadata, applicationPayload }

end Zlink.ServiceWire
