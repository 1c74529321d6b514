import Zlink.Locations.Reclaim
import Zlink.Locations.Store
import Zlink.ServiceWire.Fields

/-!
# Objects and the capacity of the nodes they are placed on

The records of the location repository about an object: the node it is placed on, the slots that it
takes there, the row of its authority. The slots of a node are counted in maps from texts to
numbers, under a key for each kind of slot; a number that is not in a map is zero.
-/

namespace Zlink.Locations

open Decimal
open ServiceWire (ascii isValidNonNulUtf8)

inductive PlacementObjectKind where
  | actor
  | userSpot
  | instanceSpot
  deriving DecidableEq

def PlacementObjectKind.value : PlacementObjectKind → ℕ
  | actor => 1
  | userSpot => 2
  | instanceSpot => 3

inductive PlacementAllocationState where
  | reserved
  | active
  deriving DecidableEq

structure ObjectCreationTarget where
  meshName : Text
  nodeRid : Text
  nodeLifecycleGeneration : ℕ
  owner : OwnerToken
  deriving DecidableEq

structure SpotTypeCapacityDelta where
  objectKind : PlacementObjectKind
  stableType : Text
  slots : ℕ
  deriving DecidableEq

structure PlacementCapacityBundle where
  actorSlots : ℕ
  spotSlots : ℕ
  spotType : Option SpotTypeCapacityDelta
  deriving DecidableEq

structure PlacementAllocation where
  state : PlacementAllocationState
  objectKind : PlacementObjectKind
  stableType : Text
  target : ObjectCreationTarget
  capacityBundle : PlacementCapacityBundle
  deriving DecidableEq

structure PendingObjectCreation where
  reservationId : Text
  requestContentReference : Text
  requestSha256 : List UInt8
  requestEncodedSize : ℕ
  deriving DecidableEq

structure AuthoritySnapshot where
  storeVersion : Text
  payload : List UInt8
  objectGeneration : ℕ
  authorityOwnerGeneration : ℕ
  owner : OwnerToken
  storeNow : ℤ
  allocation : PlacementAllocation
  pendingCreation : Option PendingObjectCreation
  deriving DecidableEq

structure ObjectCreationKey where
  kind : PlacementObjectKind
  globalId : Text

def isUnreserved (b : UInt8) : Bool :=
  (0x41 ≤ b && b ≤ 0x5A) || (0x61 ≤ b && b ≤ 0x7A) || (0x30 ≤ b && b ≤ 0x39) || b = 0x2D ||
    b = 0x2E || b = 0x5F || b = 0x7E

def upperHexDigit (n : UInt8) : UInt8 :=
  if n < 10 then 0x30 + n else 0x37 + n

def percentEncode (b : UInt8) : Text :=
  if isUnreserved b then [b] else [0x25, upperHexDigit (b >>> 4), upperHexDigit (b &&& 0x0F)]

def encodeAuthorityKey (kind : UInt8) (objectId : Text) : Except String Text :=
  if objectId = [] ∨ 255 < objectId.length ∨ !isValidNonNulUtf8 objectId then
    .error "authority identity must contain 1..255 valid UTF-8 bytes without NUL"
  else
    .ok (ascii "zla1:" ++ kind :: 0x3A :: (decimal objectId.length ++
      0x3A :: objectId.flatMap percentEncode))

def actorAuthorityKey (actorId : Text) : Except String Text :=
  encodeAuthorityKey 0x61 actorId

def spotAuthorityKey (spotId : Text) : Except String Text :=
  encodeAuthorityKey 0x73 spotId

def objectKey (key : ObjectCreationKey) : Except String Text :=
  match key.kind with
  | .actor => actorAuthorityKey key.globalId
  | .userSpot | .instanceSpot => spotAuthorityKey key.globalId

/-- What `separator` of `location_composite_key` puts between two parts of a key. -/
def joinKey (first rest : Text) : Text :=
  first ++ 0x1F :: rest

def meshNodeKey (meshName rid : Text) : Text :=
  joinKey meshName rid

variable (target : ObjectCreationTarget)

def capacityNodeKey : Text :=
  joinKey target.meshName (joinKey target.nodeRid (decimal target.nodeLifecycleGeneration))

def actorCapacityKey : Text :=
  joinKey (capacityNodeKey target) (ascii "actor")

def spotCapacityKey : Text :=
  joinKey (capacityNodeKey target) (ascii "spot")

def spotTypeCapacityKey (spotType : SpotTypeCapacityDelta) : Text :=
  joinKey (spotCapacityKey target) (joinKey (decimal spotType.objectKind.value) spotType.stableType)

abbrev Counters := Text → ℕ

variable (counters : Counters)

def Counters.apply (key : Text) (delta : ℕ) (add : Bool) : Counters :=
  if delta = 0 then counters
  else Function.update counters key (if add then counters key + delta else counters key - delta)

def applyCapacityBundle (target : ObjectCreationTarget)
    (bundle : PlacementCapacityBundle) (add : Bool) : Counters :=
  let counters := counters.apply (actorCapacityKey target) bundle.actorSlots add
  let counters := counters.apply (spotCapacityKey target) bundle.spotSlots add
  match bundle.spotType with
  | none => counters
  | some spotType => counters.apply (spotTypeCapacityKey target spotType) spotType.slots add

def Counters.present (key : Text) (delta : ℕ) : Bool :=
  delta = 0 || delta ≤ counters key

def capacityBundlePresent (target : ObjectCreationTarget)
    (bundle : PlacementCapacityBundle) : Bool :=
  counters.present (actorCapacityKey target) bundle.actorSlots &&
    counters.present (spotCapacityKey target) bundle.spotSlots &&
    bundle.spotType.all fun spotType =>
      counters.present (spotTypeCapacityKey target spotType) spotType.slots

def validCapacityBundle (bundle : PlacementCapacityBundle) : Bool :=
  !(2147483647 < bundle.actorSlots || 1 < bundle.spotSlots ||
    (bundle.actorSlots = 0 && bundle.spotSlots = 0) ||
    (bundle.spotSlots = 0 && bundle.spotType.isSome) ||
    (bundle.spotSlots = 1 && bundle.spotType.all fun spotType =>
      spotType.slots ≠ 1 || spotType.stableType = [] || spotType.objectKind = .actor))

def bundleMatchesObject (bundle : PlacementCapacityBundle) (kind : PlacementObjectKind)
    (stableType : Text) : Bool :=
  validCapacityBundle bundle &&
    match kind with
    | .actor => bundle.actorSlots = 1 && bundle.spotSlots = 0
    | .userSpot | .instanceSpot =>
      bundle.actorSlots = 0 && bundle.spotSlots = 1 && bundle.spotType.any fun spotType =>
        spotType.objectKind = kind && spotType.stableType = stableType

/-- `framework_runtime_state_t`. -/
inductive RuntimeState where
  | preparing
  | serving
  | relocating
  | relocated
  | draining
  | stopped
  | error
  deriving DecidableEq

inductive ObjectRole where
  | none
  | client
  | server
  deriving DecidableEq

/-- `object_capability_t`, where a placement reads it. -/
structure ObjectCapability where
  objectKind : PlacementObjectKind
  stableType : Text

/-- `spot_type_capacity_t`, with the limit of its usage. -/
structure SpotTypeCapacity where
  objectKind : PlacementObjectKind
  stableType : Text
  limit : ℕ

/-- `mesh_node_descriptor_t`, where a placement reads it. A limit of zero is none. -/
structure PlacementDescriptor where
  lifecycleGeneration : ℕ
  owner : OwnerToken
  state : RuntimeState
  objectRole : ObjectRole
  placementWeight : ℕ
  objectCapabilities : List ObjectCapability
  actorLimit : ℕ
  spotLimit : ℕ
  spotTypes : List SpotTypeCapacity

def findCapability (descriptor : PlacementDescriptor) (kind : PlacementObjectKind)
    (stableType : Text) : Option ObjectCapability :=
  descriptor.objectCapabilities.find? fun capability =>
    capability.objectKind = kind && capability.stableType = stableType

/-- There is room for some slots beside the ones that are taken. -/
def available (active reserved : Counters) (key : Text) (delta limit : ℕ) : Bool :=
  delta = 0 || limit = 0 || (active key + reserved key ≤ limit - min delta limit && delta ≤ limit)

def capacityAvailable (active reserved : Counters) (descriptor : PlacementDescriptor)
    (target : ObjectCreationTarget) (bundle : PlacementCapacityBundle) : Bool :=
  available active reserved (actorCapacityKey target) bundle.actorSlots descriptor.actorLimit &&
    available active reserved (spotCapacityKey target) bundle.spotSlots descriptor.spotLimit &&
    bundle.spotType.all fun spotType =>
      let typed := descriptor.spotTypes.find? fun candidate =>
        candidate.objectKind = spotType.objectKind && candidate.stableType = spotType.stableType
      available active reserved (spotTypeCapacityKey target spotType) spotType.slots
        ((typed.map SpotTypeCapacity.limit).getD 0)

end Zlink.Locations
