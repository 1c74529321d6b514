import Mathlib
import Zlink.ServiceWire.Fences
import Zlink.ServiceWire.Payload

/-!
# Frozen records

A record that waits in a mailbox is frozen into canonical bytes when its object moves. An
application record is typed: its summary is filled from the typed fields beside the bytes. The
decoder reads the summary from the bytes, with checks of its own.
-/

namespace Zlink.ServiceWire

open BigEndian Codec

inductive FrozenRecordKind where
  | nodeSend
  | nodeRequest
  | channelSend
  | channelRequest
  | spotSend
  | spotRequest
  | spotMulticast
  | spotControl
  | actorSend
  | actorRequest
  | completion
  | sendReady
  | relocationControl
  | instanceSpotActivation
  deriving DecidableEq

namespace FrozenRecordKind

def toByte : FrozenRecordKind → UInt8
  | nodeSend => 1
  | nodeRequest => 2
  | channelSend => 3
  | channelRequest => 4
  | spotSend => 5
  | spotRequest => 6
  | spotMulticast => 7
  | spotControl => 8
  | actorSend => 9
  | actorRequest => 10
  | completion => 11
  | sendReady => 12
  | relocationControl => 13
  | instanceSpotActivation => 14

def all : List FrozenRecordKind :=
  [nodeSend, nodeRequest, channelSend, channelRequest, spotSend, spotRequest, spotMulticast,
    spotControl, actorSend, actorRequest, completion, sendReady, relocationControl,
    instanceSpotActivation]

def ofByte? (value : UInt8) : Option FrozenRecordKind :=
  all.find? fun kind => kind.toByte = value

def metadataAllowed : FrozenRecordKind → Bool
  | spotControl | completion | sendReady | relocationControl => false
  | _ => true

def infrastructure : FrozenRecordKind → Bool
  | spotControl | sendReady | relocationControl => true
  | _ => false

def isSpotMessage : FrozenRecordKind → Bool
  | spotSend | spotRequest => true
  | _ => false

def isActorMessage : FrozenRecordKind → Bool
  | actorSend | actorRequest => true
  | _ => false

end FrozenRecordKind

inductive FrozenSourceKind where
  | node
  | spot
  | actor
  | boundSession
  deriving DecidableEq

namespace FrozenSourceKind

def toByte : FrozenSourceKind → UInt8
  | node => 1
  | spot => 2
  | actor => 3
  | boundSession => 4

def all : List FrozenSourceKind :=
  [node, spot, actor, boundSession]

def ofByte? (value : UInt8) : Option FrozenSourceKind :=
  all.find? fun kind => kind.toByte = value

end FrozenSourceKind

inductive RelocationObjectKind where
  | actor
  | userSpot
  | instanceSpot
  deriving DecidableEq

def RelocationObjectKind.ofByte? (value : UInt8) : Option RelocationObjectKind :=
  if value = 1 then some actor
  else if value = 2 then some userSpot
  else if value = 3 then some instanceSpot
  else none

structure RequestSourceFence where
  ownerId : Text
  leaseGeneration : UInt64
  nodeRoutingId : List UInt8
  nodeGeneration : UInt64
  deriving DecidableEq

structure FrozenTargetIdentity where
  kind : RelocationObjectKind
  objectId : Text
  objectGeneration : UInt64
  targetNodeRoutingId : List UInt8
  targetNodeGeneration : UInt64
  authorityOwnerGeneration : UInt64
  ownerLeaseGeneration : UInt64
  deriving DecidableEq

structure FrozenSourceDetails where
  spotId : Option Text
  actor : Option (Text × UInt64)
  sessionRoutingId : Option (List UInt8)
  bindingGeneration : UInt64
  sessionSequence : UInt64
  deriving DecidableEq

def FrozenSourceDetails.none : FrozenSourceDetails :=
  ⟨.none, .none, .none, 0, 0⟩

structure FrozenRecord where
  kind : FrozenRecordKind
  sourceKind : FrozenSourceKind
  source : RequestSourceFence
  details : FrozenSourceDetails
  hasMetadata : Bool
  messageFollowHopCount : UInt8
  operation : WireOperationId
  operationKind : UInt32
  replyRouteId : Option UInt64
  target : Option FrozenTargetIdentity
  application : Option ApplicationPayload
  canonicalBytes : List UInt8
  deriving DecidableEq

def applicationEquals : Option ApplicationPayload → Option ApplicationPayload → Bool
  | some left, some right => left.equals right
  | none, none => true
  | _, _ => false

/-- `operator==` of frozen records. -/
def FrozenRecord.equals (left right : FrozenRecord) : Bool :=
  { left with application := none } = { right with application := none } &&
    applicationEquals left.application right.application

structure FrozenMetadataEntry where
  key : Text
  value : Text

structure FrozenSpotApplicationBody where
  target : SpotRouteFence
  expectedOwnerLeaseGeneration : UInt64
  application : ApplicationPayload

structure FrozenActorApplicationBody where
  target : ActorRouteFence
  application : ApplicationPayload

inductive FrozenApplicationBody where
  | spot (body : FrozenSpotApplicationBody)
  | actor (body : FrozenActorApplicationBody)

def FrozenApplicationBody.isSpot : FrozenApplicationBody → Bool
  | spot _ => true
  | actor _ => false

def FrozenApplicationBody.application : FrozenApplicationBody → ApplicationPayload
  | spot body => body.application
  | actor body => body.application

structure FrozenApplicationRecord where
  kind : FrozenRecordKind
  sourceKind : FrozenSourceKind
  source : RequestSourceFence
  details : FrozenSourceDetails
  messageFollowHopCount : UInt8
  metadata : List FrozenMetadataEntry
  operation : WireOperationId
  operationKind : UInt32
  replyRouteId : Option UInt64
  body : FrozenApplicationBody

def messageFollowHopCountMetadataKey : Text :=
  ascii "__zlink.messageFollowHopCount"

def decodeFollowHopMetadata : Text → Except String UInt8
  | [digit] => do
      rejectIf (digit < 0x30 ∨ 0x30 + messageFollowHopCount < digit)
        "invalid Message Follow hop metadata"
      pure (digit - 0x30)
  | _ => throw "invalid Message Follow hop metadata"

def followHop (key value : Text) (hop : UInt8) : Except String UInt8 :=
  if key = messageFollowHopCountMetadataKey then decodeFollowHopMetadata value else pure hop

section

/-- Keys are compared byte by byte. -/
local instance lawfulText : LawfulBEq Text := inferInstance

/-- The entries that are left in a frame of metadata of which `start` bytes, with what
follows it, were left when it began. -/
def readMetadataEntries (start : ℕ) : ℕ → List Text → UInt8 → Reader UInt8
  | 0, _, hop => pure hop
  | count + 1, keys, hop => do
      let key ← readText8 "metadata key"
      rejectIf (key ∈ keys) "metadata keys must be unique"
      let value ← readText16 "metadata value" blobBytes
      let hop ← liftM (followHop key value hop)
      rejectIf (metadataBytes < start - (← get).length) "metadata frame exceeds 1024 encoded bytes"
      readMetadataEntries start count (keys ++ [key]) hop

end

def readMetadataFrame : Reader UInt8 := do
  let start := (← get).length
  let version ← Reader.byte "metadata frame version must be one"
  rejectIf (version ≠ 1) "metadata frame version must be one"
  let count ← Reader.byte "metadata entry count is truncated"
  readMetadataEntries start count.toNat [] 0

/-- `append_entry` of a frame of metadata. -/
def appendMetadataEntry (frame : List UInt8) (entry : FrozenMetadataEntry) : Written := do
  let encodedSize := 1 + entry.key.length + 2 + entry.value.length
  rejectIf (metadataBytes < encodedSize ∨ metadataBytes - encodedSize < frame.length)
    "frozen metadata frame exceeds 1024 encoded bytes"
  let key ← text8 "metadata key" entry.key
  let value ← text16 "metadata value" blobBytes entry.value
  pure (frame ++ key ++ value)

local instance lawfulBEqText : LawfulBEq Text := inferInstance

def appendMetadataEntries (frame : List UInt8) :
    List Text → List FrozenMetadataEntry → Written
  | _, [] => pure frame
  | keys, entry :: entries => do
      rejectIf (entry.key = messageFollowHopCountMetadataKey ∨ entry.key ∈ keys)
        "frozen metadata key is reserved or duplicated"
      appendMetadataEntries (← appendMetadataEntry frame entry) (keys ++ [entry.key]) entries

def hopMetadataEntry (hop : UInt8) : FrozenMetadataEntry :=
  ⟨messageFollowHopCountMetadataKey, [0x30 + hop]⟩

/-- `append_frozen_metadata`. -/
def frozenMetadata (metadata : List FrozenMetadataEntry) (hop : UInt8) : Written := do
  let count := metadata.length + if hop ≠ 0 then 1 else 0
  if count = 0 then pure [0]
  else
    rejectIf (255 < count) "too many frozen metadata entries"
    let frame ← appendMetadataEntries [1, .ofNat count] [] metadata
    let frame ← if hop ≠ 0 then appendMetadataEntry frame (hopMetadataEntry hop) else pure frame
    pure (1 :: frame)

def readBool8 (field : String) : Reader Bool := do
  let value ← Reader.byte ("invalid or truncated " ++ field)
  rejectIf (1 < value) ("invalid or truncated " ++ field)
  pure (value ≠ 0)

def readBody16 (field : String) : Reader (List UInt8) := do
  let length ← readU16
  Reader.take length.toNat (field ++ " is truncated")

def readWhole {α : Type} (read : Reader α) (field : String) (body : List UInt8) :
    Except String α :=
  (do let value ← read; Reader.finish (field ++ " has trailing bytes"); pure value : Reader α).parse
    body

/-- The part of `append_frozen_source` that belongs to the kind of the source. -/
def sourceDetails (sourceKind : FrozenSourceKind) (details : FrozenSourceDetails) : Written :=
  match sourceKind with
  | .node => pure []
  | .spot =>
    match details.spotId with
    | none => throw "frozen Spot source is missing"
    | some spotId => text8 "source Spot ID" spotId
  | .actor => actorSource
  | .boundSession => do
      let actor ← actorSource
      match details.sessionRoutingId with
      | none => throw "frozen bound Session source is incomplete"
      | some sessionRoutingId => do
          rejectIf (details.bindingGeneration = 0 ∨ details.sessionSequence = 0)
            "frozen bound Session source is incomplete"
          let rid ← bytes8 "source Session RID" sessionRoutingId
          pure (actor ++ rid ++ bytesOf 8 details.bindingGeneration.toNat ++
            bytesOf 8 details.sessionSequence.toNat)
where
  actorSource : Written :=
    match details.actor with
    | none => throw "frozen Actor source is missing"
    | some (actorId, generation) => do
        rejectIf (generation = 0) "frozen Actor source is missing"
        let actorId ← text8 "source Actor ID" actorId
        pure (actorId ++ bytesOf 8 generation.toNat)

/-- `append_frozen_source`. -/
def frozenSource (record : FrozenApplicationRecord) : Written := do
  let rid ← bytes8 "source node RID" record.source.nodeRoutingId
  rejectIf (record.source.nodeGeneration = 0 ∨ record.source.ownerId = [] ∨
      record.source.leaseGeneration = 0)
    "frozen source fence contains a zero required field"
  let ownerId ← text8 "source owner ID" record.source.ownerId
  let details ← sourceDetails record.sourceKind record.details
  let body := rid ++ bytesOf 8 record.source.nodeGeneration.toNat ++ ownerId ++
    bytesOf 8 record.source.leaseGeneration.toNat ++ details
  rejectIf (65535 < body.length) "frozen source exceeds u16 bound"
  pure (bytesOf 2 body.length ++ body)

def readActorSource : Reader (Text × UInt64) := do
  let actorId ← readText8 "source Actor ID"
  let generation ← readNonzeroU64 "source Actor generation"
  pure (actorId, generation)

def readSourceDetails : FrozenSourceKind → Reader FrozenSourceDetails
  | .node => pure .none
  | .spot => do
      let spotId ← readText8 "source Spot ID"
      pure { FrozenSourceDetails.none with spotId := some spotId }
  | .actor => do
      let actor ← readActorSource
      pure { FrozenSourceDetails.none with actor := some actor }
  | .boundSession => do
      let actor ← readActorSource
      let sessionRoutingId ← readBytes8 "source Session RID"
      let bindingGeneration ← readNonzeroU64 "source binding generation"
      let sessionSequence ← readNonzeroU64 "source Session sequence"
      pure
        { spotId := none
          actor := some actor
          sessionRoutingId := some sessionRoutingId
          bindingGeneration
          sessionSequence }

def readSource (sourceKind : FrozenSourceKind) :
    Reader (RequestSourceFence × FrozenSourceDetails) := do
  let nodeRoutingId ← readBytes8 "source node RID"
  let nodeGeneration ← readNonzeroU64 "source node generation"
  let ownerId ← readText8 "source owner ID"
  let leaseGeneration ← readNonzeroU64 "source owner lease generation"
  let details ← readSourceDetails sourceKind
  pure ({ ownerId, leaseGeneration, nodeRoutingId, nodeGeneration }, details)

/-- `append_frozen_spot_route`. -/
def frozenSpotRoute (body : FrozenSpotApplicationBody) : Written := do
  let spotId ← text8 "target Spot ID" body.target.spotId
  rejectIf (body.target.objectGeneration = 0 ∨ body.target.targetNodeGeneration = 0 ∨
      body.target.authorityOwnerGeneration = 0 ∨ body.expectedOwnerLeaseGeneration = 0)
    "frozen Spot route contains a zero required field"
  let rid ← bytes8 "target node RID" body.target.targetNodeRoutingId
  pure (spotId ++ bytesOf 8 body.target.objectGeneration.toNat ++ rid ++
    bytesOf 8 body.target.targetNodeGeneration.toNat ++
    bytesOf 8 body.target.authorityOwnerGeneration.toNat ++
    bytesOf 8 body.expectedOwnerLeaseGeneration.toNat)

/-- `append_frozen_actor_route`. -/
def frozenActorRoute (body : FrozenActorApplicationBody) : Written := do
  let actorId ← text8 "target Actor ID" body.target.actorId
  rejectIf (body.target.objectGeneration = 0 ∨ body.target.targetNodeGeneration = 0 ∨
      body.target.authorityOwnerGeneration = 0 ∨ body.target.ownerLeaseGeneration = 0)
    "frozen Actor route contains a zero required field"
  let rid ← bytes8 "target node RID" body.target.targetNodeRoutingId
  pure (actorId ++ bytesOf 8 body.target.objectGeneration.toNat ++ rid ++
    bytesOf 8 body.target.targetNodeGeneration.toNat ++
    bytesOf 8 body.target.authorityOwnerGeneration.toNat ++
    bytesOf 8 body.target.ownerLeaseGeneration.toNat)

/-- The route that both `read_spot_route` and `read_actor_route` read. -/
def readRoute (kind : RelocationObjectKind) (id generation : String) :
    Reader FrozenTargetIdentity := do
  let objectId ← readText8 id
  let objectGeneration ← readNonzeroU64 generation
  let targetNodeRoutingId ← readBytes8 "target node RID"
  let targetNodeGeneration ← readNonzeroU64 "target node generation"
  let authorityOwnerGeneration ← readNonzeroU64 "expected authority owner generation"
  let ownerLeaseGeneration ← readNonzeroU64 "expected owner lease generation"
  pure
    { kind
      objectId
      objectGeneration
      targetNodeRoutingId
      targetNodeGeneration
      authorityOwnerGeneration
      ownerLeaseGeneration }

def readSpotRoute : Reader FrozenTargetIdentity :=
  readRoute .userSpot "Spot ID" "Spot generation"

def readActorRoute : Reader FrozenTargetIdentity :=
  readRoute .actor "Actor ID" "Actor generation"

def checkApplicationBody : Reader Unit := do
  let _ ← readText8 "packet name"
  let _ ← readText8 "content type"
  let payloadLength ← readU32
  rejectIf ((← get).length ≠ payloadLength.toNat)
    "application payload length does not match its body"

def readApplicationPayloadEnvelope (captureFlow : Bool) : Reader ApplicationPayload := do
  let bytes ← get
  let version ← Reader.byte "application payload envelope version must be one"
  rejectIf (version ≠ 1) "application payload envelope version must be one"
  let length ← readU32
  let body ← Reader.take length.toNat "application payload envelope is truncated"
  liftM (checkApplicationBody.parse body)
  liftM (decodeApplicationPayload (bytes.take (bytes.length - (← get).length)) captureFlow)

end Zlink.ServiceWire
