import Zlink.Lib.Ordered

/-!
# The registry of mesh peers

A node of a mesh keeps the descriptor that it publishes, the peers it has admitted, and the
peers to which it needs no connection. `service_topology_registry_t` changes them in turns of
one lane: it publishes a new local descriptor, admits or updates a peer on a connection, and
removes the peer of a connection that is gone.

The publications that readers keep, the connection attempts and the metrics do not decide
anything here and are left out.
-/

namespace Zlink.Mesh

abbrev Bytes := List (Fin 256)

inductive NodeState where
  | preparing
  | serving
  | retiring
  | draining
  | stopped
  | error
  deriving DecidableEq

inductive ObjectRole where
  | none
  | client
  | server
  deriving DecidableEq

structure ChannelDescriptor where
  name : String
  weight : ℤ
  deriving DecidableEq

/-- `service_node_descriptor_t`. -/
structure NodeDescriptor where
  meshName : String
  nodeRoutingId : Bytes
  lifecycleGeneration : ℕ
  descriptorRevision : ℕ
  advertisedEndpoint : String
  channels : List ChannelDescriptor
  state : NodeState
  securityIdentity : String
  applicationVersion : ℤ
  protocolCapabilities : List String
  objectRole : ObjectRole
  placementWeight : ℤ
  activeCapacityLimit : ℕ
  pendingCapacityLimit : ℕ
  activeCapacityUsed : ℕ
  pendingCapacityUsed : ℕ
  deriving DecidableEq

inductive Command where
  | hello
  | admission
  | update
  deriving DecidableEq

inductive AdmissionResult where
  | admitted
  | duplicateConnection
  | notRequired
  | meshMismatch
  | invalidDescriptor
  | staleDescriptor

/-- `admitted_peer_t`. The entry of the liveness registry is a handle. -/
structure AdmittedPeer where
  descriptor : NodeDescriptor
  connectionId : Bytes
  admissionEpoch : ℕ
  ready : Bool
  liveness : Option ℕ

def requiredCapability : String :=
  "framework-service-v13"

def validChannels (previous : Option String) : List ChannelDescriptor → Bool
  | [] => true
  | channel :: channels =>
    if channel.name = "" then false
    else if channel.weight < 0 ∨ 10000 < channel.weight then false
    else if previous.any fun name => channel.name ≤ name then false
    else validChannels (some channel.name) channels

def validDescriptor (x : NodeDescriptor) : Bool :=
  x.meshName ≠ "" && x.nodeRoutingId ≠ [] && x.lifecycleGeneration ≠ 0 &&
    x.descriptorRevision ≠ 0 && x.advertisedEndpoint ≠ "" && validChannels none x.channels &&
    x.securityIdentity ≠ "" && 0 ≤ x.applicationVersion && 0 ≤ x.placementWeight &&
    x.placementWeight ≤ 10000 && x.activeCapacityLimit ≠ 0 &&
    x.activeCapacityLimit ≤ 2147483647 && x.pendingCapacityLimit ≤ 2147483647 &&
    x.activeCapacityUsed ≤ x.activeCapacityLimit &&
    x.pendingCapacityUsed ≤ x.pendingCapacityLimit &&
    -- sorted, and no two neighbours are equal
    x.protocolCapabilities.IsChain (· ≤ ·) && x.protocolCapabilities.IsChain (· ≠ ·) &&
    requiredCapability ∈ x.protocolCapabilities

def immutableFieldsMatch (current incoming : NodeDescriptor)
    (allowInitialEndpointResolution : Bool) : Bool :=
  current.meshName = incoming.meshName && current.nodeRoutingId = incoming.nodeRoutingId &&
    current.lifecycleGeneration = incoming.lifecycleGeneration &&
    (allowInitialEndpointResolution || current.advertisedEndpoint = incoming.advertisedEndpoint) &&
    current.securityIdentity = incoming.securityIdentity &&
    current.applicationVersion = incoming.applicationVersion &&
    current.protocolCapabilities = incoming.protocolCapabilities &&
    current.objectRole = incoming.objectRole &&
    current.activeCapacityLimit = incoming.activeCapacityLimit &&
    current.pendingCapacityLimit = incoming.pendingCapacityLimit &&
    current.channels.map ChannelDescriptor.name = incoming.channels.map ChannelDescriptor.name

def discoveryExpectationMatches (expected incoming : NodeDescriptor) : Bool :=
  expected.meshName = incoming.meshName && expected.nodeRoutingId = incoming.nodeRoutingId &&
    expected.advertisedEndpoint = incoming.advertisedEndpoint &&
    expected.securityIdentity = incoming.securityIdentity &&
    expected.lifecycleGeneration = incoming.lifecycleGeneration

def routeMeshConnectionNotRequired (localNode remote : NodeDescriptor) : Bool :=
  localNode.objectRole = .client && localNode.channels.isEmpty &&
    remote.objectRole = .client && remote.channels.isEmpty

/-- The largest `descriptor_revision`. -/
def maxDescriptorRevision : ℕ :=
  2 ^ 64 - 1

/-- `service_topology_registry_t`. -/
structure Registry where
  localDescriptor : NodeDescriptor
  peers : OrderedMap Bytes AdmittedPeer
  notRequiredPeers : OrderedMap Bytes NodeDescriptor
  topologyVersion : ℕ

namespace Registry

def create (localDescriptor : NodeDescriptor) : Except String Registry :=
  if validDescriptor localDescriptor then
    .ok ⟨localDescriptor, .empty, .empty, 0⟩
  else .error "local service descriptor is invalid"

variable (s : Registry)

def publishLocal (descriptor : NodeDescriptor) : Except String Registry :=
  let current := s.localDescriptor
  if !validDescriptor descriptor then .error "published service descriptor is invalid"
  else if descriptor.meshName ≠ current.meshName ∨
      descriptor.nodeRoutingId ≠ current.nodeRoutingId ∨
      descriptor.lifecycleGeneration ≠ current.lifecycleGeneration then
    .error "published service descriptor changes the local identity"
  else if descriptor.descriptorRevision ≤ current.descriptorRevision then
    .error "published service descriptor revision is not increasing"
  else
    let resolvingBoundEndpoint := current.state = .preparing && descriptor.state = .serving
    if !immutableFieldsMatch current descriptor resolvingBoundEndpoint then
      .error "published service descriptor changes immutable fields"
    else
      .ok { s with
        localDescriptor := descriptor
        notRequiredPeers :=
          s.notRequiredPeers.filter fun e => routeMeshConnectionNotRequired descriptor e.2 }

def publishDraining : Except String Registry :=
  let descriptor := s.localDescriptor
  if descriptor.state = .draining then .ok s
  else if descriptor.descriptorRevision = maxDescriptorRevision then
    .error "service descriptor revision is exhausted"
  else
    s.publishLocal
      { descriptor with
        state := .draining
        descriptorRevision := descriptor.descriptorRevision + 1 }

def current (node : Bytes) : Option NodeDescriptor :=
  match s.peers.find node with
  | some peer => some peer.descriptor
  | none => s.notRequiredPeers.find node

/-- What an admission or a disconnect leaves behind. `rebuilt` says that the selections of
the channels have been rebuilt, as they are with every change of the peers. -/
structure Turn (R : Type) where
  registry : Registry
  result : R
  rebuilt : Bool

def staleGeneration (current expected : Option NodeDescriptor) (descriptor : NodeDescriptor)
    (command : Command) : Bool :=
  current.all (fun x => descriptor.lifecycleGeneration ≠ x.lifecycleGeneration) &&
    (command = .update || current.isSome && expected.isNone)

def staleRevision (current : Option NodeDescriptor) (descriptor : NodeDescriptor)
    (command : Command) : Bool :=
  current.any fun x =>
    descriptor.lifecycleGeneration = x.lifecycleGeneration &&
      (descriptor.descriptorRevision < x.descriptorRevision ||
        descriptor.descriptorRevision = x.descriptorRevision && x ≠ descriptor ||
        x.descriptorRevision < descriptor.descriptorRevision &&
          (command ≠ .update || !immutableFieldsMatch x descriptor false))

/-- `admit_on_lane`. `handle` is what `admit_owned` of the liveness registry returns, nothing
where there is none. -/
def admitOnLane (descriptor : NodeDescriptor) (connectionId : Bytes)
    (expectedDescriptor : Option NodeDescriptor) (command : Command) (handle : Option ℕ) :
    Turn AdmissionResult :=
  let node := descriptor.nodeRoutingId
  let current := s.current node
  if !validDescriptor descriptor ∨ connectionId = [] then ⟨s, .invalidDescriptor, false⟩
  else if descriptor.meshName ≠ s.localDescriptor.meshName then ⟨s, .meshMismatch, false⟩
  else if node = s.localDescriptor.nodeRoutingId then ⟨s, .invalidDescriptor, false⟩
  else if expectedDescriptor.any fun x => !discoveryExpectationMatches x descriptor then
    ⟨s, .staleDescriptor, false⟩
  else if staleGeneration current expectedDescriptor descriptor command then
    ⟨s, .staleDescriptor, false⟩
  else if staleRevision current descriptor command then ⟨s, .staleDescriptor, false⟩
  else if routeMeshConnectionNotRequired s.localDescriptor descriptor then
    ⟨{ s with
        peers := s.peers.erase node
        notRequiredPeers := s.notRequiredPeers.insertOrAssign node descriptor
        topologyVersion := s.topologyVersion + 1 }, .notRequired, true⟩
  else
    -- the peer on this very connection
    let admitted := (s.peers.find node).filter fun x => x.connectionId = connectionId
    let connection := (admitted.bind AdmittedPeer.liveness).or handle
    let ready := command = .admission || admitted.any AdmittedPeer.ready
    let sameAdmission := admitted.filter fun x => x.descriptor = descriptor
    if sameAdmission.any fun x => x.ready = ready then ⟨s, .duplicateConnection, false⟩
    else
      let version := s.topologyVersion + 1
      let admissionEpoch := (sameAdmission.map AdmittedPeer.admissionEpoch).getD version
      let peer : AdmittedPeer := ⟨descriptor, connectionId, admissionEpoch, ready, connection⟩
      ⟨{ s with
          peers := s.peers.insertOrAssign node peer
          notRequiredPeers := s.notRequiredPeers.erase node
          topologyVersion := version },
        if sameAdmission.isSome then .duplicateConnection else .admitted, true⟩

def disconnect (nodeRoutingId connectionId : Bytes) : Turn Bool :=
  match s.peers.find nodeRoutingId with
  | some peer =>
    if peer.connectionId = connectionId then
      ⟨{ s with
          peers := s.peers.erase nodeRoutingId
          topologyVersion := s.topologyVersion + 1 }, true, true⟩
    else ⟨s, false, false⟩
  | none => ⟨s, false, false⟩

inductive Event where
  | publishLocal (descriptor : NodeDescriptor)
  | publishDraining
  | admitOnLane (descriptor : NodeDescriptor) (connectionId : Bytes)
      (expectedDescriptor : Option NodeDescriptor) (command : Command) (handle : Option ℕ)
  | disconnect (nodeRoutingId connectionId : Bytes)

def step : Event → Registry
  | .publishLocal descriptor => (s.publishLocal descriptor).toOption.getD s
  | .publishDraining => s.publishDraining.toOption.getD s
  | .admitOnLane descriptor connectionId expectedDescriptor command handle =>
    (s.admitOnLane descriptor connectionId expectedDescriptor command handle).registry
  | .disconnect nodeRoutingId connectionId =>
    (s.disconnect nodeRoutingId connectionId).registry

/-- The turns one after the other. -/
def run (es : List Event) : Registry :=
  es.foldl step s

end Registry

end Zlink.Mesh
