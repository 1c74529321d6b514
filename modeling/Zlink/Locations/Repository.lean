import Zlink.Locations.Placement

/-!
# The location repository in memory

A creation of an object starts with a reservation: it writes a row of the authority, takes slots of
a node and hands out a fence. `commit` and `complete_creation` make the row ready under this fence,
`abort` takes it back. Every write of a row gives it a new version. An aggregate moves several rows
to a node at once.

An operation first checks and then writes, in one go on the lane of the repository. The time of
the clock is an argument. What other operations write is the `Directory`, which may be any other
one behind each of them; which records have been waited for is an argument too. The codecs of the
payloads and the builder of an inventory come as a parameter.
-/

namespace Zlink.Locations

open Decimal
open ServiceWire (ascii)
open scoped Decimal

/-- `framework_error_kind_t`, as far as the repository uses it. -/
inductive FrameworkErrorKind where
  | notFound
  | unavailable
  | typeMismatch
  | deadlineExceeded

inductive Failure where
  | invalidArgument (text : String)
  | framework (kind : FrameworkErrorKind) (text : String)

/-- `authority_read_result_t`. -/
inductive AuthorityRead where
  | missing (storeNow : ℤ)
  | found (snapshot : AuthoritySnapshot)

inductive AuthorityMutation where
  | put (payload : List UInt8) (operationDeadline : Option ℤ)
  | retarget (payload : List UInt8) (target : ObjectCreationTarget)
  | restore (payload : List UInt8) (expectedOwner : OwnerToken)
  | delete
  | reincarnate (payload : List UInt8)

def AuthorityMutation.payload : AuthorityMutation → Option (List UInt8)
  | put payload _ | retarget payload _ | restore payload _ | reincarnate payload => some payload
  | delete => none

inductive AuthorityCompareExchangeResult where
  | stored (snapshot : AuthoritySnapshot)
  | deleted (storeVersion : Text) (storeNow : ℤ)
  | conflict (current : AuthorityRead) (membershipFailure : Option FrameworkErrorKind)
  | generationExhausted

structure ObjectCreationIntent where
  stableType : Text
  requestContentReference : Text
  requestSha256 : List UInt8
  requestEncodedSize : ℕ

inductive FactoryRelocationKind where
  | unspecified
  | disabled
  | recreate
  | preserveState
  deriving DecidableEq

/-- `object_reserve_request_t`. A deadline of zero is none. -/
structure ObjectReserveRequest where
  key : ObjectCreationKey
  intent : ObjectCreationIntent
  target : ObjectCreationTarget
  creatingPayload : List UInt8
  capacityBundle : PlacementCapacityBundle
  operationDeadline : ℤ
  relocationPolicy : Option FactoryRelocationKind

/-- `authority_matches_creation_type`. -/
def AuthoritySnapshot.matchesCreationType (authority : AuthoritySnapshot)
    (request : ObjectReserveRequest) : Bool :=
  authority.allocation.objectKind = request.key.kind &&
    authority.allocation.stableType = request.intent.stableType

/-- `object_reservation_fence_t`. `same_fence` compares all of it. -/
structure ObjectReservationFence where
  reservationId : Text
  expectedStoreVersion : Text
  objectGeneration : ℕ
  authorityOwnerGeneration : ℕ
  target : ObjectCreationTarget
  capacityBundle : PlacementCapacityBundle
  deriving DecidableEq

inductive ObjectReserveResult where
  | reserved (fence : ObjectReservationFence) (creating : AuthoritySnapshot)
  | alreadyExists (current : AuthoritySnapshot)
  | typeMismatch (current : AuthoritySnapshot)
  | capacityExhausted
  | conflict (current : AuthorityRead)
  | generationExhausted

structure ObjectCommitRequest where
  key : ObjectCreationKey
  fence : ObjectReservationFence
  readyPayload : List UInt8

inductive ObjectCommitResult where
  | committed (ready : AuthoritySnapshot)
  | alreadyCommitted (ready : AuthoritySnapshot)
  | stale
  | conflict (current : AuthorityRead)
  | generationExhausted

structure ObjectAbortRequest where
  key : ObjectCreationKey
  fence : ObjectReservationFence

/-- `object_abort_result_t`, as far as the repository in memory returns it. -/
inductive ObjectAbortResult where
  | aborted
  | alreadyAborted
  | stale
  | conflict (current : AuthorityRead)

/-- `creation_operation_identity_t`, the identifier of the operation in two halves. -/
structure CreationOperationIdentity where
  sourceNodeRid : Text
  sourceNodeGeneration : ℕ
  high : ℕ
  low : ℕ

structure CreationTerminalPublication where
  operation : CreationOperationIdentity
  terminalEnvelope : List UInt8
  operationDeadline : ℤ

structure CreationTerminalRecord where
  operation : CreationOperationIdentity
  terminalEnvelope : List UInt8
  expiresAt : ℤ

inductive ObjectCreationCompletion where
  | created (readyPayload : List UInt8) (terminal : CreationTerminalPublication)
  | rejected (terminal : CreationTerminalPublication)
  | failed (terminal : CreationTerminalPublication)

def ObjectCreationCompletion.terminal : ObjectCreationCompletion → CreationTerminalPublication
  | created _ terminal | rejected terminal | failed terminal => terminal

structure ObjectCompleteCreationRequest where
  key : ObjectCreationKey
  fence : ObjectReservationFence
  completion : ObjectCreationCompletion

inductive ObjectCompleteCreationResult where
  | completed (terminal : CreationTerminalRecord) (ready : Option AuthoritySnapshot)
  | alreadyCompleted (terminal : CreationTerminalRecord)
  | stale
  | conflict (current : AuthorityRead)
  | generationExhausted

/-- `aggregate_participant_t`; its owner is a new one or is preserved. -/
structure AggregateParticipant where
  key : Text
  expectedStoreVersion : Text
  newOwner : Bool
  authorityPayload : List UInt8
  membershipMutation : List UInt8
  deriving DecidableEq

/-- `aggregate_prepare_request_t`, the routing id of the target by its text. -/
structure AggregatePrepareRequest where
  aggregateId : List UInt8
  aggregateGeneration : ℕ
  participants : List AggregateParticipant
  inventoryDigest : List UInt8
  targetMeshName : Text
  targetRid : Text
  targetLifecycleGeneration : ℕ
  capacityBundle : PlacementCapacityBundle
  targetOwner : OwnerToken
  deriving DecidableEq

def AggregatePrepareRequest.target (request : AggregatePrepareRequest) : ObjectCreationTarget :=
  ⟨request.targetMeshName, request.targetRid, request.targetLifecycleGeneration,
    request.targetOwner⟩

structure AggregateFence where
  aggregateId : List UInt8
  aggregateGeneration : ℕ
  inventoryDigest : Option (List UInt8)

def AggregatePrepareRequest.fence (request : AggregatePrepareRequest) : AggregateFence :=
  ⟨request.aggregateId, request.aggregateGeneration, some request.inventoryDigest⟩

def AggregatePrepareRequest.spotStableType (request : AggregatePrepareRequest) : Text :=
  (request.capacityBundle.spotType.map SpotTypeCapacityDelta.stableType).getD []

/-- `aggregate_prepare_result_t`, as far as the repository in memory returns it. -/
inductive AggregatePrepareResult where
  | prepared (fence : AggregateFence)
  | alreadyPrepared (fence : AggregateFence)
  | conflict
  | stale

inductive AggregateCommitResult where
  | committed
  | alreadyCommitted
  | stale
  | generationExhausted

inductive AggregateAbortResult where
  | aborted
  | alreadyAborted
  | stale

inductive ActorAuthorityState where
  | creating
  | ready
  deriving DecidableEq

inductive ActorAuthoritySpotKind where
  | entry
  | user
  deriving DecidableEq

/-- `actor_authority_payload_t`, where the repository reads it. -/
structure ActorAuthorityPayload where
  state : ActorAuthorityState
  stableType : Text
  actorId : Text
  currentSpotId : Text
  currentSpotGeneration : ℕ
  currentSpotKind : ActorAuthoritySpotKind
  hasRelocationState : Bool

/-- `user_spot_authority_payload_t`, where the repository reads it. -/
structure UserSpotAuthorityPayload where
  spotId : Text
  stableType : Text

/-- `instance_spot_authority_payload_t`, where the repository reads it. -/
structure InstanceSpotAuthorityPayload where
  ready : Bool
  spotId : Text
  stableType : Text
  activationRecovery : Bool

/-- The codecs that the repository calls, each of which gives nothing for what it cannot read:
`decode_direct_actor_authority_payload`, `decode_ready_user_spot`,
`decode_instance_spot_authority_payload`, and whether `build_tree` gives a tree. -/
structure AuthorityCodecs where
  actor : List UInt8 → Option ActorAuthorityPayload
  readyUserSpot : AuthoritySnapshot → Option UserSpotAuthorityPayload
  instanceSpot : List UInt8 → Option InstanceSpotAuthorityPayload
  inventoried : List AggregateParticipant → Bool

inductive ReservationStatus where
  | prepared
  | committed
  | aborted
  deriving DecidableEq

structure ReservationState where
  request : ObjectReserveRequest
  fence : ObjectReservationFence
  snapshot : AuthoritySnapshot
  status : ReservationStatus

inductive AggregateStatus where
  | prepared
  | committed
  | aborted
  deriving DecidableEq

structure AggregateState where
  request : AggregatePrepareRequest
  status : AggregateStatus

structure Directory where
  meshNodes : Text → Option PlacementDescriptor
  leases : String → Option ℤ
  activeLeaseGenerations : String → Option ℤ
  entrySpotIdClaims : Text → Option OwnerToken

namespace Directory

def empty : Directory :=
  ⟨fun _ => none, fun _ => none, fun _ => none, fun _ => none⟩

def ownerTokenIsLive (d : Directory) (token : OwnerToken) (now : ℤ) : Bool :=
  (d.leases token.ownerId).any (now < ·) &&
    d.activeLeaseGenerations token.ownerId = some token.leaseGeneration

def liveTargetDescriptor (d : Directory) (target : ObjectCreationTarget)
    (kind : PlacementObjectKind) (stableType : Text) (now : ℤ) (newTargetSelection : Bool) :
    Option PlacementDescriptor :=
  (d.meshNodes (meshNodeKey target.meshName target.nodeRid)).filter fun descriptor =>
    descriptor.lifecycleGeneration = target.nodeLifecycleGeneration &&
      descriptor.owner = target.owner && descriptor.state = .serving &&
      descriptor.objectRole = .server &&
      !(newTargetSelection && descriptor.placementWeight = 0) &&
      d.ownerTokenIsLive target.owner now && (findCapability descriptor kind stableType).isSome

end Directory

/-- `in_memory_location_repository_t`. -/
structure LocationRepository where
  directory : Directory
  authorities : OrderedMap Text AuthoritySnapshot
  reservations : OrderedMap Text ReservationState
  creationTerminals : OrderedMap Text CreationTerminalRecord
  aggregates : OrderedMap (List UInt8) AggregateState
  pendingByPlacement : Counters
  activeByPlacement : Counters
  objectGeneration : ℕ
  authorityOwnerGeneration : ℕ
  storeRevision : ℕ

def maxGeneration : ℕ := 2 ^ 63 - 1

def locationRecordPayloadLimit : ℕ := 1024 * 1024

/-- Five minutes, in nanoseconds. -/
def creationTerminalRetention : ℤ := 300000000000

def CreationTerminalPublication.expiresAt (publication : CreationTerminalPublication) : ℤ :=
  publication.operationDeadline + creationTerminalRetention

def CreationTerminalPublication.record (publication : CreationTerminalPublication) :
    CreationTerminalRecord :=
  ⟨publication.operation, publication.terminalEnvelope, publication.expiresAt⟩

def writeKeys : ℕ := 2048

def issues (current count : ℕ) : Bool :=
  count ≤ maxGeneration && current ≤ maxGeneration - count

inductive Exit (R : Type) where
  | failure (f : Failure)
  | answer (r : R)

abbrev Outcome (R : Type) := Except Failure R

def Exit.outcome {R : Type} : Exit R → Outcome R
  | failure f => .error f
  | answer r => .ok r

def exitIf {R : Type} (bad : Prop) [Decidable bad] (e : Exit R) : Except (Exit R) Unit :=
  if bad then .error e else .ok ()

def exitOnNone {R D : Type} (found : Option D) (e : Exit R) : Except (Exit R) D :=
  match found with
  | none => .error e
  | some d => .ok d

def exitOnInvalid {R D : Type} (result : Except String D) : Except (Exit R) D :=
  result.mapError fun text => .failure (.invalidArgument text)

namespace LocationRepository

/-- A repository whose numbers of versions go on behind some number. -/
def new (initialStoreRevision : ℕ) : LocationRepository :=
  ⟨.empty, .empty, .empty, .empty, .empty, fun _ => 0, fun _ => 0, 0, 0, initialStoreRevision⟩

variable (codecs : AuthorityCodecs) (s : LocationRepository)

def readOf (found : Option AuthoritySnapshot) (now : ℤ) : AuthorityRead :=
  match found with
  | none => .missing now
  | some snapshot => .found snapshot

def nextStoreVersion : Text :=
  decimal (s.storeRevision + 1)

variable (key : Text)

def store (snapshot : AuthoritySnapshot) : LocationRepository :=
  { s with
    storeRevision := s.storeRevision + 1
    authorities :=
      s.authorities.insertOrAssign key { snapshot with storeVersion := s.nextStoreVersion } }

def stored (snapshot : AuthoritySnapshot) : AuthoritySnapshot :=
  { snapshot with storeVersion := s.nextStoreVersion }

def erase (key : Text) : LocationRepository :=
  { s with authorities := s.authorities.erase key }

def setReservation (reservation : ReservationState) : LocationRepository :=
  { s with reservations := s.reservations.insertOrAssign key reservation }

def setAggregate (id : List UInt8) (aggregate : AggregateState) : LocationRepository :=
  { s with aggregates := s.aggregates.insertOrAssign id aggregate }

variable (target : ObjectCreationTarget)

def addActive (bundle : PlacementCapacityBundle) :
    LocationRepository :=
  { s with activeByPlacement := applyCapacityBundle s.activeByPlacement target bundle true }

def subActive (bundle : PlacementCapacityBundle) :
    LocationRepository :=
  { s with activeByPlacement := applyCapacityBundle s.activeByPlacement target bundle false }

def addPending (bundle : PlacementCapacityBundle) :
    LocationRepository :=
  { s with pendingByPlacement := applyCapacityBundle s.pendingByPlacement target bundle true }

def subPending (bundle : PlacementCapacityBundle) :
    LocationRepository :=
  { s with pendingByPlacement := applyCapacityBundle s.pendingByPlacement target bundle false }

def releasePending (reservation : ReservationState) : LocationRepository :=
  s.subPending reservation.fence.target reservation.fence.capacityBundle

/-- What an operation leaves and returns: its checks end it, or it goes on with what they have
found. -/
def conclude {R D : Type} (checks : Except (Exit R) D) (write : D → LocationRepository × R) :
    LocationRepository × Outcome R :=
  match checks with
  | .error e => (s, e.outcome)
  | .ok d => ((write d).1, .ok (write d).2)

def authorityMutationLocked : Bool :=
  s.aggregates.entries.any fun e =>
    e.2.status = .prepared && e.2.request.participants.any fun participant => participant.key = key

def joins (oldMember : Option ActorAuthorityPayload) (member : ActorAuthorityPayload) : Bool :=
  member.currentSpotKind = .user && oldMember.all fun old =>
    old.currentSpotKind ≠ member.currentSpotKind || old.currentSpotId ≠ member.currentSpotId ||
      old.currentSpotGeneration ≠ member.currentSpotGeneration

def admitsMember (spot : AuthoritySnapshot) (member : ActorAuthorityPayload) (now : ℤ) : Bool :=
  !s.authorityMutationLocked key &&
    ((codecs.readyUserSpot spot).any fun ready => ready.spotId = member.currentSpotId) &&
    spot.allocation.objectKind = .userSpot && spot.allocation.state = .active &&
    spot.objectGeneration = member.currentSpotGeneration &&
    s.directory.ownerTokenIsLive spot.owner now

def userMembershipCommitFailure (oldMember member : Option ActorAuthorityPayload) (now : ℤ) :
    Except String (Option FrameworkErrorKind) :=
  match member with
  | none => .ok none
  | some member =>
    if joins oldMember member then do
      let key ← spotAuthorityKey member.currentSpotId
      match s.authorities.find key with
      | none => return some .notFound
      | some spot =>
        return if s.admitsMember codecs key spot member now then none else some .unavailable
    else .ok none

def compareExchangeChecks (now : ℤ) (key expectedStoreVersion : Text)
    (mutation : AuthorityMutation) (steadyNow : ℤ) :
    Except (Exit AuthorityCompareExchangeResult) AuthoritySnapshot := do
  if let .put _ (some deadline) := mutation then
    exitIf (deadline ≤ steadyNow) (.failure (.framework .deadlineExceeded
      "Actor membership operation deadline expired"))
  let found := s.authorities.find key
  let snapshot ← exitOnNone (found.filter fun snapshot =>
    snapshot.storeVersion = expectedStoreVersion) (.answer (.conflict (readOf found now) none))
  exitIf (s.authorityMutationLocked key) (.answer (.conflict (.found snapshot) none))
  let failure ← exitOnInvalid (s.userMembershipCommitFailure codecs (codecs.actor snapshot.payload)
    (mutation.payload.bind codecs.actor) now)
  exitIf failure.isSome (.answer (.conflict (.found snapshot) failure))
  return snapshot

def mutationChecks (now : ℤ) (found : AuthoritySnapshot) (mutation : AuthorityMutation) :
    Except (Exit AuthorityCompareExchangeResult) Unit := do
  let conflict := Exit.answer (.conflict (.found found) none)
  let exhausted := Exit.answer .generationExhausted
  exitIf (found.allocation.state ≠ .active) conflict
  let present := capacityBundlePresent s.activeByPlacement found.allocation.target
    found.allocation.capacityBundle
  match mutation with
  | .delete =>
    exitIf (!s.directory.ownerTokenIsLive found.owner now ∨ !present) conflict
    exitIf (!issues s.storeRevision 1) exhausted
  | .restore _ expectedOwner =>
    exitIf (found.owner ≠ expectedOwner) conflict
    exitIf (!issues s.storeRevision 1) exhausted
  | .retarget _ target =>
    exitIf (!present) conflict
    let descriptor ← exitOnNone (s.directory.liveTargetDescriptor target
      found.allocation.objectKind found.allocation.stableType now false) conflict
    exitIf (found.allocation.target ≠ target ∧ !capacityAvailable s.activeByPlacement
      s.pendingByPlacement descriptor target found.allocation.capacityBundle) conflict
    exitIf (!issues s.storeRevision 1 ∨ !issues s.authorityOwnerGeneration 1) exhausted
  | .put _ _ =>
    exitIf (!s.directory.ownerTokenIsLive found.owner now) conflict
    exitIf (!issues s.storeRevision 1) exhausted
  | .reincarnate _ =>
    exitIf (!s.directory.ownerTokenIsLive found.owner now) conflict
    exitIf (!issues s.storeRevision 1) exhausted
    exitIf (!issues s.objectGeneration 1 ∨ !issues s.authorityOwnerGeneration 1) exhausted

def moveActive (source target : ObjectCreationTarget) (bundle : PlacementCapacityBundle) :
    LocationRepository :=
  if source = target then s else (s.subActive source bundle).addActive target bundle

def mutate (now : ℤ) (key : Text) (found : AuthoritySnapshot) (mutation : AuthorityMutation) :
    LocationRepository × AuthorityCompareExchangeResult :=
  match mutation with
  | .delete =>
    (({ s with storeRevision := s.storeRevision + 1 }.subActive found.allocation.target
      found.allocation.capacityBundle).erase key, .deleted s.nextStoreVersion now)
  | .restore payload _ =>
    let snapshot := { found with payload, storeNow := now }
    (s.store key snapshot, .stored (s.stored snapshot))
  | .retarget payload target =>
    let generation := s.authorityOwnerGeneration + 1
    let snapshot := { found with
      payload
      authorityOwnerGeneration := generation
      owner := target.owner
      storeNow := now
      allocation := { found.allocation with target } }
    (({ s with authorityOwnerGeneration := generation }.moveActive found.allocation.target
      target found.allocation.capacityBundle).store key snapshot, .stored (s.stored snapshot))
  | .reincarnate payload =>
    let snapshot := { found with
      payload
      objectGeneration := s.objectGeneration + 1
      authorityOwnerGeneration := s.authorityOwnerGeneration + 1
      storeNow := now
      pendingCreation := none }
    ({ s with
        objectGeneration := s.objectGeneration + 1
        authorityOwnerGeneration := s.authorityOwnerGeneration + 1 }.store key snapshot,
      .stored (s.stored snapshot))
  | .put payload _ =>
    let snapshot := { found with payload, storeNow := now, pendingCreation := none }
    (s.store key snapshot, .stored (s.stored snapshot))

def compareExchangeAuthority (now steadyNow : ℤ) (key expectedStoreVersion : Text)
    (mutation : AuthorityMutation) :
    LocationRepository × Outcome AuthorityCompareExchangeResult :=
  s.conclude (do
      let found ← s.compareExchangeChecks codecs now key expectedStoreVersion mutation steadyNow
      s.mutationChecks now found mutation
      return found)
    fun found => s.mutate now key found mutation

def creationOperationKey (operation : CreationOperationIdentity) : Text :=
  operation.sourceNodeRid ++ 0x3A :: (decimal operation.sourceNodeGeneration ++
    0x3A :: (decimal operation.high ++ 0x3A :: decimal operation.low))

def terminalChecks (now : ℤ) (operation : CreationOperationIdentity) :
    Except (Exit ObjectCompleteCreationResult) Unit :=
  match s.creationTerminals.find (creationOperationKey operation) with
  | none => .ok ()
  | some existing => exitIf (now < existing.expiresAt) (.answer (.alreadyCompleted existing))

/-- The checks of `complete_creation` before those of a created object. -/
def completionChecks (now : ℤ) (request : ObjectCompleteCreationRequest) :
    Except (Exit ObjectCompleteCreationResult) (Text × ReservationState × AuthoritySnapshot) := do
  let publication := request.completion.terminal
  exitIf (locationRecordPayloadLimit < publication.terminalEnvelope.length) (.failure
    (.invalidArgument "creation terminal envelope is too large"))
  exitIf (publication.expiresAt ≤ now) (.failure
    (.invalidArgument "creation terminal expiry is not in the future"))
  s.terminalChecks now publication.operation
  let key ← exitOnInvalid (objectKey request.key)
  let reservation ← exitOnNone ((s.reservations.find key).filter fun reservation =>
    reservation.fence = request.fence) (.answer .stale)
  let found := s.authorities.find key
  let authority ← exitOnNone (found.filter fun authority =>
    authority.storeVersion = request.fence.expectedStoreVersion)
    (.answer (.conflict (readOf found now)))
  return (key, reservation, authority)

/-- The checks of `complete_creation` for a created object. -/
def createdChecks (now : ℤ) (fence : ObjectReservationFence) (reservation : ReservationState)
    (authority : AuthoritySnapshot) : Except (Exit ObjectCompleteCreationResult) Unit := do
  exitIf ((s.directory.liveTargetDescriptor fence.target reservation.request.key.kind
      reservation.request.intent.stableType now false).isNone ∨
    !capacityBundlePresent s.pendingByPlacement fence.target fence.capacityBundle)
    (.answer (.conflict (.found authority)))
  exitIf (!issues s.storeRevision 1) (.answer .generationExhausted)

def readyRow (now : ℤ) (readyPayload : List UInt8) (authority : AuthoritySnapshot) :
    AuthoritySnapshot :=
  { authority with
    payload := readyPayload
    storeNow := now
    allocation := { authority.allocation with state := .active } }

/-- The row is written, and the slots that were reserved are taken. -/
def activate (fence : ObjectReservationFence) (reservation : ReservationState)
    (ready : AuthoritySnapshot) : LocationRepository :=
  (((s.store key ready).setReservation key
    { reservation with snapshot := s.stored ready, status := .committed }).releasePending
      reservation).addActive fence.target fence.capacityBundle

/-- The row is taken back. -/
def withdraw (reservation : ReservationState) : LocationRepository :=
  ((s.erase key).releasePending reservation).setReservation key
    { reservation with status := .aborted }

def publish (publication : CreationTerminalPublication) : LocationRepository :=
  { s with
    creationTerminals := s.creationTerminals.insertOrAssign
      (creationOperationKey publication.operation) publication.record }

def completeCreation (now : ℤ) (request : ObjectCompleteCreationRequest) :
    LocationRepository × Outcome ObjectCompleteCreationResult :=
  match request.completion with
  | .created readyPayload terminal =>
    s.conclude (do
        let found ← s.completionChecks now request
        s.createdChecks now request.fence found.2.1 found.2.2
        return found)
      fun (key, reservation, authority) =>
        let ready := readyRow now readyPayload authority
        ((s.activate key request.fence reservation ready).publish terminal,
          .completed terminal.record (some (s.stored ready)))
  | .rejected terminal | .failed terminal =>
    s.conclude (s.completionChecks now request) fun (key, reservation, _) =>
      ((s.withdraw key reservation).publish terminal, .completed terminal.record none)

def memberChecks (now : ℤ) (readyPayload : List UInt8) (authority : AuthoritySnapshot) :
    Except (Exit ObjectCommitResult) Unit :=
  if authority.allocation.objectKind = .actor then do
    let failure ← exitOnInvalid (s.userMembershipCommitFailure codecs none
      (codecs.actor readyPayload) now)
    exitIf failure.isSome (.answer (.conflict (.found authority)))
  else .ok ()

/-- The checks of `commit`. The deadline of zero is none. -/
def commitChecks (now operationDeadline : ℤ) (request : ObjectCommitRequest) :
    Except (Exit ObjectCommitResult) (Text × ReservationState × AuthoritySnapshot) := do
  exitIf (locationRecordPayloadLimit < request.readyPayload.length) (.failure
    (.invalidArgument "object commit payload exceeds 1 MiB"))
  let key ← exitOnInvalid (objectKey request.key)
  let reservation ← exitOnNone ((s.reservations.find key).filter fun reservation =>
    reservation.fence = request.fence) (.answer .stale)
  exitIf (reservation.status = .committed) (.answer (.alreadyCommitted reservation.snapshot))
  exitIf (reservation.status = .aborted) (.answer .stale)
  let found := s.authorities.find key
  let authority ← exitOnNone (found.filter fun authority =>
    authority.storeVersion = request.fence.expectedStoreVersion)
    (.answer (.conflict (readOf found now)))
  exitIf ((s.directory.liveTargetDescriptor request.fence.target reservation.request.key.kind
      reservation.request.intent.stableType now false).isNone ∨
    !capacityBundlePresent s.pendingByPlacement request.fence.target request.fence.capacityBundle)
    (.answer (.conflict (.found authority)))
  exitIf (!issues s.storeRevision 1) (.answer .generationExhausted)
  s.memberChecks codecs now request.readyPayload authority
  exitIf (operationDeadline ≠ 0 ∧ operationDeadline ≤ now) (.failure
    (.framework .deadlineExceeded "Object creation deadline expired"))
  return (key, reservation, authority)

def commit (now operationDeadline : ℤ) (request : ObjectCommitRequest) :
    LocationRepository × Outcome ObjectCommitResult :=
  s.conclude (s.commitChecks codecs now operationDeadline request)
    fun (key, reservation, authority) =>
      let ready :=
        { readyRow now request.readyPayload authority with pendingCreation := none }
      (s.activate key request.fence reservation ready, .committed (s.stored ready))

def abort (now : ℤ) (request : ObjectAbortRequest) :
    LocationRepository × Outcome ObjectAbortResult :=
  s.conclude (do
      let key ← exitOnInvalid (objectKey request.key)
      let reservation ← exitOnNone ((s.reservations.find key).filter fun reservation =>
        reservation.fence = request.fence) (.answer .stale)
      exitIf (reservation.status = .aborted) (.answer .alreadyAborted)
      exitIf (reservation.status = .committed) (.answer .stale)
      let found := s.authorities.find key
      let _ ← exitOnNone (found.filter fun authority =>
        authority.storeVersion = request.fence.expectedStoreVersion)
        (.answer (.conflict (readOf found now)))
      return (key, reservation))
    fun (key, reservation) => (s.withdraw key reservation, .aborted)

def memberOf (spotId : Text) (generation : ℕ) (authority : AuthoritySnapshot) :
    Option ActorAuthorityPayload :=
  (codecs.actor authority.payload).filter fun member =>
    member.currentSpotKind = .user && member.currentSpotId = spotId &&
      member.currentSpotGeneration = generation

def unavailable {R : Type} (text : String) : Exit R :=
  .failure (.framework .unavailable text)

/-- What a member of a Spot that has ended must be like. `waited` says which records have been
waited for. -/
def endedMemberChecks (now : ℤ) (key : Text) (authority : AuthoritySnapshot)
    (member : ActorAuthorityPayload) : Except (Exit Bool) Unit := do
  exitIf (authority.allocation.state ≠ .active ∨ member.state ≠ .ready ∨
    member.hasRelocationState ∨ s.authorityMutationLocked key)
    (unavailable "User Spot still has a relocating or unactivated member")
  exitIf (s.directory.ownerTokenIsLive authority.owner now)
    (unavailable "User Spot still has a member with a live owner lease")

def batchKeys (authority : AuthoritySnapshot) : List Text :=
  let target := authority.allocation.target
  [ascii "authority:" ++ key, ascii "aggregate-lock:" ++ key,
    ascii "owner:" ++ authority.owner.ownerId.toUTF8.toList,
    ascii "capacity:" ++ meshNodeKey target.meshName target.nodeRid]

def endedSpotMembers (now : ℤ) (waited : Text → Bool) (spotKey : Text) (spot : AuthoritySnapshot)
    (spotId : Text) : Except (Exit Bool) (List Text) := do
  let members := s.authorities.entries.filter fun e =>
    (memberOf codecs spotId spot.objectGeneration e.2).isSome
  for e in members do
    if let some member := memberOf codecs spotId spot.objectGeneration e.2 then
      s.endedMemberChecks now e.1 e.2 member
  exitIf (members.any fun e => !waited e.1)
    (unavailable "Member owner lease release observation is still waiting")
  let target := spot.allocation.target
  let keys := (ascii "descriptor:" ++ meshNodeKey target.meshName target.nodeRid) ::
    (batchKeys spotKey spot ++ members.flatMap fun e => batchKeys e.1 e.2)
  exitIf (writeKeys < keys.dedup.length)
    (unavailable "User Spot member release exceeds one Location Store batch")
  return members.map Prod.fst

def steadyChecks (snapshot : AuthoritySnapshot) (request : ObjectReserveRequest) :
    Except (Exit Bool) Unit := do
  let actor := codecs.actor snapshot.payload
  exitIf (actor.any (·.hasRelocationState))
    (unavailable "Object authority requires relocation recovery")
  exitIf (request.relocationPolicy ≠ some .disabled)
    (unavailable "Object owner lease is unavailable")
  match snapshot.allocation.objectKind with
  | .actor =>
    exitIf (!actor.any fun actor => actor.state = .ready &&
        actor.actorId = request.key.globalId && actor.stableType = request.intent.stableType)
      (unavailable "Actor is not steady Ready")
  | .userSpot =>
    exitIf (!(codecs.readyUserSpot snapshot).any fun spot =>
        spot.spotId = request.key.globalId && spot.stableType = request.intent.stableType)
      (unavailable "User Spot is not steady Ready")
  | .instanceSpot =>
    exitIf (!(codecs.instanceSpot snapshot.payload).any fun spot =>
        spot.ready && !spot.activationRecovery && spot.spotId = request.key.globalId &&
          spot.stableType = request.intent.stableType)
      (unavailable "Instance Spot is not steady Ready")

/-- The checks of `release_ended_reservation_on_lane` for an active row. It gives the members that
go with the row. -/
def releaseActiveChecks (now : ℤ) (waited : Text → Bool) (key : Text)
    (snapshot : AuthoritySnapshot) (request : ObjectReserveRequest) :
    Except (Exit Bool) (List Text) := do
  exitIf (s.directory.ownerTokenIsLive snapshot.owner now) (.answer false)
  exitIf (s.authorityMutationLocked key)
    (unavailable "Object authority requires aggregate recovery")
  steadyChecks codecs snapshot request
  let members ← if snapshot.allocation.objectKind = .userSpot
    then s.endedSpotMembers codecs now waited key snapshot request.key.globalId
    else return []
  exitIf (!waited key) (unavailable "Owner lease release observation is still waiting")
  return members

def releaseReservedChecks (now : ℤ) (key : Text) (snapshot : AuthoritySnapshot) :
    Except (Exit Bool) ReservationState := do
  exitIf snapshot.pendingCreation.isNone (.answer false)
  exitIf (s.authorityMutationLocked key) (.answer false)
  let target := snapshot.allocation.target
  let descriptor := s.directory.meshNodes (meshNodeKey target.meshName target.nodeRid)
  exitIf (s.directory.ownerTokenIsLive snapshot.owner now ∧ descriptor.any fun descriptor =>
    descriptor.lifecycleGeneration = target.nodeLifecycleGeneration) (.answer false)
  exitOnNone (s.reservations.find key) (.answer false)

def eraseActive : LocationRepository :=
  match s.authorities.find key with
  | none => s
  | some row => (s.subActive row.allocation.target row.allocation.capacityBundle).erase key

/-- `release_ended_reservation_on_lane`. -/
def releaseEndedReservationOnLane (now : ℤ) (waited : Text → Bool) (key : Text)
    (snapshot : AuthoritySnapshot) (request : Option ObjectReserveRequest) :
    LocationRepository × Outcome Bool :=
  match snapshot.allocation.state, request with
  | .active, none => (s, .ok false)
  | .active, some request =>
    s.conclude (s.releaseActiveChecks codecs now waited key snapshot request)
      fun members => ((key :: members).foldl eraseActive s, true)
  | .reserved, _ =>
    s.conclude (s.releaseReservedChecks now key snapshot)
      fun reservation => (s.withdraw key reservation, true)

def releaseEndedReservation (now : ℤ) (waited : Text → Bool) (key expectedStoreVersion : Text)
    (request : Option ObjectReserveRequest) : LocationRepository × Outcome Bool :=
  match (s.authorities.find key).filter fun current =>
    current.storeVersion = expectedStoreVersion with
  | none => (s, .ok false)
  | some current =>
    if request.any fun request => !current.matchesCreationType request then
      (s, .error (.framework .typeMismatch "Object type does not match the current authority"))
    else s.releaseEndedReservationOnLane codecs now waited key current request

/-- The checks of `reserve` before it looks at the row. -/
def reserveChecks (now : ℤ) (request : ObjectReserveRequest) :
    Except (Exit ObjectReserveResult) Text := do
  exitIf (locationRecordPayloadLimit < request.creatingPayload.length ∨
      locationRecordPayloadLimit < request.intent.requestEncodedSize)
    (.failure (.invalidArgument "object reservation payload exceeds 1 MiB"))
  exitIf (request.operationDeadline ≠ 0 ∧ request.operationDeadline ≤ now)
    (.failure (.framework .deadlineExceeded "Object creation deadline expired"))
  let key ← exitOnInvalid (objectKey request.key)
  exitIf (request.key.kind ≠ .actor ∧
      (s.directory.entrySpotIdClaims request.key.globalId).any fun owner =>
        s.directory.ownerTokenIsLive owner now) (.answer (.conflict (.missing now)))
  exitIf ((s.authorities.find key).any fun authority => !authority.matchesCreationType request)
    (match s.authorities.find key with
      | none => .answer (.conflict (.missing now))
      | some authority => .answer (.typeMismatch authority))
  return key

/-- The checks of `reserve` where there is no row. -/
def reserveNewChecks (now : ℤ) (request : ObjectReserveRequest) :
    Except (Exit ObjectReserveResult) Unit := do
  let descriptor ← exitOnNone (s.directory.liveTargetDescriptor request.target request.key.kind
    request.intent.stableType now true) (.answer (.conflict (.missing now)))
  exitIf (!bundleMatchesObject request.capacityBundle request.key.kind request.intent.stableType)
    (.failure (.invalidArgument "object reservation capacity bundle does not match the object"))
  exitIf (!capacityAvailable s.activeByPlacement s.pendingByPlacement descriptor request.target
    request.capacityBundle) (.answer .capacityExhausted)
  exitIf (!issues s.storeRevision 1 ∨ !issues s.objectGeneration 1 ∨
    !issues s.authorityOwnerGeneration 1) (.answer .generationExhausted)

def nextFence (request : ObjectReserveRequest) : ObjectReservationFence :=
  ⟨ascii "reservation-" ++ s.nextStoreVersion, s.nextStoreVersion, s.objectGeneration + 1,
    s.authorityOwnerGeneration + 1, request.target, request.capacityBundle⟩

def creatingRow (now : ℤ) (request : ObjectReserveRequest) : AuthoritySnapshot where
  storeVersion := s.nextStoreVersion
  payload := request.creatingPayload
  objectGeneration := s.objectGeneration + 1
  authorityOwnerGeneration := s.authorityOwnerGeneration + 1
  owner := request.target.owner
  storeNow := now
  allocation := ⟨.reserved, request.key.kind, request.intent.stableType, request.target,
    request.capacityBundle⟩
  pendingCreation := some ⟨(s.nextFence request).reservationId,
    request.intent.requestContentReference, request.intent.requestSha256,
    request.intent.requestEncodedSize⟩

/-- `reserve` where there is no row. -/
def reserveNew (now : ℤ) (key : Text) (request : ObjectReserveRequest) :
    LocationRepository × Outcome ObjectReserveResult :=
  s.conclude (s.reserveNewChecks now request) fun _ =>
    let creating := s.creatingRow now request
    (((({ s with
        objectGeneration := s.objectGeneration + 1
        authorityOwnerGeneration := s.authorityOwnerGeneration + 1 }.store key
          creating).setReservation key ⟨request, s.nextFence request, creating, .prepared⟩).addPending
            request.target request.capacityBundle),
      .reserved (s.nextFence request) creating)

def reserve (now : ℤ) (waited : Text → Bool) (request : ObjectReserveRequest) :
    LocationRepository × Outcome ObjectReserveResult :=
  match s.reserveChecks now request with
  | .error e => (s, e.outcome)
  | .ok key =>
    match s.authorities.find key with
    | none => s.reserveNew now key request
    | some authority =>
      let (t, released) :=
        s.releaseEndedReservationOnLane codecs now waited key authority (some request)
      match released with
      | .error f => (t, .error f)
      | .ok true => t.reserveNew now key request
      | .ok false =>
        match authority.allocation.state with
        | .reserved => (t, .ok (.conflict (.found authority)))
        | .active => (t, .ok (.alreadyExists authority))

/-- The keys of the participants stand in their order. -/
def ascendingFrom (previous : Text) : List Text → Bool
  | [] => true
  | key :: keys => !(previous ≠ [] && key ≤ previous) && ascendingFrom key keys

def inventoryBundle : PlacementCapacityBundle → List PlacementCapacityBundle →
    Option PlacementCapacityBundle
  | sum, [] => some sum
  | sum, bundle :: bundles =>
    let slots : PlacementCapacityBundle :=
      ⟨(sum.actorSlots + bundle.actorSlots) % 2 ^ 32,
        (sum.spotSlots + bundle.spotSlots) % 2 ^ 32, sum.spotType⟩
    match bundle.spotType with
    | none => inventoryBundle slots bundles
    | some spotType =>
      if sum.spotType.any fun other => other.objectKind ≠ spotType.objectKind ||
          other.stableType ≠ spotType.stableType then none
      else inventoryBundle { slots with spotType := some spotType } bundles

def expectedRow (participant : AggregateParticipant) : Option AuthoritySnapshot :=
  (s.authorities.find participant.key).filter fun row =>
    row.storeVersion = participant.expectedStoreVersion

def movable (row : AuthoritySnapshot) : Bool :=
  row.allocation.state = .active &&
    capacityBundlePresent s.activeByPlacement row.allocation.target row.allocation.capacityBundle

/-- The checks of `prepare_aggregate` on the request alone. -/
def validPrepare (request : AggregatePrepareRequest) : Bool :=
  request.aggregateGeneration ≠ 0 && request.aggregateGeneration ≤ maxGeneration &&
    request.participants ≠ [] && !(request.aggregateId.all fun b => b = 0) &&
    request.targetOwner.ownerId ≠ "" && 0 < request.targetOwner.leaseGeneration &&
    validCapacityBundle request.capacityBundle && request.capacityBundle.spotSlots = 1 &&
    (request.capacityBundle.spotType.any fun spotType => spotType.objectKind = .userSpot) &&
    (request.participants.all fun participant => participant.membershipMutation = []) &&
    codecs.inventoried request.participants

def prepareAggregate (now : ℤ) (request : AggregatePrepareRequest) :
    LocationRepository × Outcome AggregatePrepareResult :=
  s.conclude (do
      exitIf (!validPrepare codecs request) (.answer .conflict)
      if let some existing := s.aggregates.find request.aggregateId then
        throw (.answer (if existing.request = request then .alreadyPrepared request.fence
          else .stale))
      exitIf (!ascendingFrom [] (request.participants.map AggregateParticipant.key))
        (.answer .conflict)
      let rows ← request.participants.mapM fun participant =>
        exitOnNone (s.expectedRow participant) (.answer .conflict)
      exitIf (!rows.all s.movable ∨ !request.participants.all AggregateParticipant.newOwner)
        (.answer .conflict)
      exitIf (inventoryBundle ⟨0, 0, none⟩ (rows.map (·.allocation.capacityBundle)) ≠
        some request.capacityBundle) (.answer .conflict)
      let descriptor ← exitOnNone (s.directory.liveTargetDescriptor request.target .userSpot
        request.spotStableType now true) (.answer .conflict)
      exitIf (!capacityAvailable s.activeByPlacement s.pendingByPlacement descriptor
        request.target request.capacityBundle) (.answer .conflict))
    fun _ =>
      ((s.setAggregate request.aggregateId ⟨request, .prepared⟩).addPending request.target
        request.capacityBundle, .prepared request.fence)

/-- The checks of `commit_aggregate`. -/
def commitAggregateChecks (now : ℤ) (fence : AggregateFence) :
    Except (Exit AggregateCommitResult) AggregatePrepareRequest := do
  let aggregate ← exitOnNone ((s.aggregates.find fence.aggregateId).filter fun aggregate =>
    aggregate.request.aggregateGeneration = fence.aggregateGeneration) (.answer .stale)
  let request := aggregate.request
  exitIf (aggregate.status = .committed) (.answer .alreadyCommitted)
  exitIf (aggregate.status = .aborted) (.answer .stale)
  exitIf (fence.inventoryDigest.any fun digest => digest ≠ request.inventoryDigest) (.answer .stale)
  exitIf (!issues s.storeRevision request.participants.length) (.answer .generationExhausted)
  let rows ← request.participants.mapM fun participant =>
    exitOnNone (s.expectedRow participant) (.answer .stale)
  exitIf ((s.directory.liveTargetDescriptor request.target .userSpot request.spotStableType now
      true).isNone ∨
    !capacityBundlePresent s.pendingByPlacement request.target request.capacityBundle)
    (.answer .stale)
  exitIf (!rows.all s.movable) (.answer .stale)
  exitIf (!issues s.authorityOwnerGeneration
    (request.participants.countP AggregateParticipant.newOwner)) (.answer .generationExhausted)
  return request

/-- The row of a participant is written. `nextOwnerGeneration` is the last one that a row has
got. -/
def moveRow (now : ℤ) (request : AggregatePrepareRequest) (nextOwnerGeneration : ℕ)
    (participant : AggregateParticipant) (row : AuthoritySnapshot) : LocationRepository × ℕ :=
  if participant.newOwner then
    (((s.store participant.key { row with
        payload := participant.authorityPayload
        authorityOwnerGeneration := nextOwnerGeneration + 1
        owner := request.targetOwner
        storeNow := now
        allocation := { row.allocation with target := request.target } }).subActive
          row.allocation.target row.allocation.capacityBundle).addActive request.target
            row.allocation.capacityBundle, nextOwnerGeneration + 1)
  else
    (s.store participant.key { row with payload := participant.authorityPayload, storeNow := now },
      nextOwnerGeneration)

def moveParticipant (now : ℤ) (request : AggregatePrepareRequest)
    (moved : LocationRepository × ℕ) (participant : AggregateParticipant) :
    LocationRepository × ℕ :=
  match moved.1.authorities.find participant.key with
  | none => moved
  | some row => moved.1.moveRow now request moved.2 participant row

def commitAggregate (now : ℤ) (fence : AggregateFence) :
    LocationRepository × Outcome AggregateCommitResult :=
  s.conclude (s.commitAggregateChecks now fence) fun request =>
    let moved := (request.participants.foldl (moveParticipant now request)
      (s, s.authorityOwnerGeneration)).1
    let generation := s.authorityOwnerGeneration +
      request.participants.countP AggregateParticipant.newOwner
    (({ moved with authorityOwnerGeneration := generation }.setAggregate fence.aggregateId
      ⟨request, .committed⟩).subPending request.target request.capacityBundle, .committed)

def abortAggregate (fence : AggregateFence) : LocationRepository × Outcome AggregateAbortResult :=
  s.conclude (do
      let aggregate ← exitOnNone ((s.aggregates.find fence.aggregateId).filter fun aggregate =>
        aggregate.request.aggregateGeneration = fence.aggregateGeneration) (.answer .stale)
      exitIf (aggregate.status = .aborted) (.answer .alreadyAborted)
      exitIf (aggregate.status = .committed) (.answer .stale)
      return aggregate.request)
    fun request =>
      ((s.setAggregate fence.aggregateId ⟨request, .aborted⟩).subPending request.target
        request.capacityBundle, .aborted)

def releaseRow (e : Text × AuthoritySnapshot) : LocationRepository :=
  match e.2.allocation.state with
  | .active => s.subActive e.2.allocation.target e.2.allocation.capacityBundle
  | .reserved => s.subPending e.2.allocation.target e.2.allocation.capacityBundle

def removeAllByOwner (now : ℤ) (owner : OwnerToken) : LocationRepository :=
  if !s.directory.ownerTokenIsLive owner now then s
  else
    let t := (s.authorities.entries.filter fun e => e.2.owner = owner).foldl releaseRow s
    { t with authorities := t.authorities.filter fun e => e.2.owner ≠ owner }

/-- `read_creation_terminal`, which drops a terminal that has expired. -/
def readCreationTerminal (now : ℤ) (operation : CreationOperationIdentity) : LocationRepository :=
  if (s.creationTerminals.find (creationOperationKey operation)).any fun terminal =>
      terminal.expiresAt ≤ now
  then { s with creationTerminals := s.creationTerminals.erase (creationOperationKey operation) }
  else s

end LocationRepository

inductive RepositoryCall where
  | directory (directory : Directory)
  | compareExchangeAuthority (now steadyNow : ℤ) (key expectedStoreVersion : Text)
      (mutation : AuthorityMutation)
  | readCreationTerminal (now : ℤ) (operation : CreationOperationIdentity)
  | completeCreation (now : ℤ) (request : ObjectCompleteCreationRequest)
  | releaseEndedReservation (now : ℤ) (waited : Text → Bool) (key expectedStoreVersion : Text)
      (request : Option ObjectReserveRequest)
  | reserve (now : ℤ) (waited : Text → Bool) (request : ObjectReserveRequest)
  | commit (now operationDeadline : ℤ) (request : ObjectCommitRequest)
  | abort (now : ℤ) (request : ObjectAbortRequest)
  | prepareAggregate (now : ℤ) (request : AggregatePrepareRequest)
  | commitAggregate (now : ℤ) (fence : AggregateFence)
  | abortAggregate (fence : AggregateFence)
  | removeAllByOwner (now : ℤ) (owner : OwnerToken)

namespace LocationRepository

def step (codecs : AuthorityCodecs) (s : LocationRepository) : RepositoryCall → LocationRepository
  | .directory directory => { s with directory }
  | .compareExchangeAuthority now steadyNow key expectedStoreVersion mutation =>
    (s.compareExchangeAuthority codecs now steadyNow key expectedStoreVersion mutation).1
  | .readCreationTerminal now operation => s.readCreationTerminal now operation
  | .completeCreation now request => (s.completeCreation now request).1
  | .releaseEndedReservation now waited key expectedStoreVersion request =>
    (s.releaseEndedReservation codecs now waited key expectedStoreVersion request).1
  | .reserve now waited request => (s.reserve codecs now waited request).1
  | .commit now operationDeadline request => (s.commit codecs now operationDeadline request).1
  | .abort now request => (s.abort now request).1
  | .prepareAggregate now request => (s.prepareAggregate codecs now request).1
  | .commitAggregate now fence => (s.commitAggregate now fence).1
  | .abortAggregate fence => (s.abortAggregate fence).1
  | .removeAllByOwner now owner => s.removeAllByOwner now owner

def run (codecs : AuthorityCodecs) (s : LocationRepository) (calls : List RepositoryCall) :
    LocationRepository :=
  calls.foldl (step codecs) s

end LocationRepository

end Zlink.Locations
