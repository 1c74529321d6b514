import Zlink.Lib.Trace
import Zlink.Mesh.Registry

/-!
# The liveness registry

`service_liveness_registry_t` probes the peers of a node and gives up those that are silent. Its
operations take turns on one lane, but what is received moves the deadline of a peer at any time,
also while the lane goes over the peers, and also for a peer that has left the registry since. So a
turn of the lane that goes over the peers is a sequence of visits here, one for each peer. Any
other operation is one step.

Instants and spans are exact integers, in ticks of the clock.
-/

namespace Zlink.Mesh

structure LivenessSettings where
  probeInterval : ℤ
  peerTimeout : ℤ
  positive : 0 < probeInterval
  longer : probeInterval < peerTimeout

structure ServiceProbe where
  nodeRoutingId : Bytes
  connectionId : Bytes
  probeId : UInt64
  deriving DecidableEq

/-- `service_liveness_tick_t`. -/
structure LivenessTick where
  probes : List ServiceProbe
  timedOutNodes : List Bytes
  deriving DecidableEq

/-- `peer_t`. -/
structure LivenessPeer where
  connectionId : Bytes
  deadline : ℤ
  nextProbe : ℤ
  outstandingProbe : Option UInt64

def LivenessPeer.new (settings : LivenessSettings) (connectionId : Bytes) (now : ℤ) :
    LivenessPeer :=
  ⟨connectionId, now + settings.peerTimeout, now, none⟩

/-- The deadline is only moved later. -/
def LivenessPeer.recordReceived (settings : LivenessSettings) (now : ℤ) (peer : LivenessPeer) :
    LivenessPeer :=
  { peer with deadline := max peer.deadline (now + settings.peerTimeout) }

def LivenessPeer.answered (probeId : UInt64) (peer : LivenessPeer) : LivenessPeer :=
  if peer.outstandingProbe = some probeId then { peer with outstandingProbe := none } else peer

inductive LivenessLane where
  | idle
  | scanning (now : ℤ) (left : List (Bytes × ℕ)) (result : LivenessTick)
  | publishing (left : List (Bytes × ℕ)) (next : ℤ) (result : LivenessTick)
  deriving DecidableEq

/-- `service_liveness_registry_t`. A handle is the index of a `peer_t`, which stays as long as
somebody may hold it. -/
structure LivenessRegistry where
  objects : List LivenessPeer
  peers : OrderedMap Bytes ℕ
  nextProbeId : UInt64
  admissionActivity : Option ℤ
  nextDue : ℤ
  lane : LivenessLane

inductive LivenessAction where
  | received (handle : ℕ) (now : ℤ)
  | admitNode (nodeRoutingId connectionId : Bytes) (now : ℤ)
  | disconnect (nodeRoutingId connectionId : Bytes)
  | acknowledge (nodeRoutingId connectionId : Bytes) (probeId : UInt64) (now : ℤ)
  | setAdmissionPending (pending : Bool) (clock : ℤ)
  | nextActivity
  | tick (now : ℤ)
  | visit

def unknownDue : ℤ :=
  -2 ^ 63

def neverDue : ℤ :=
  2 ^ 63 - 1

namespace LivenessRegistry

def new : LivenessRegistry :=
  ⟨[], .empty, 1, none, unknownDue, .idle⟩

variable (settings : LivenessSettings) (s : LivenessRegistry)

def connected (nodeRoutingId connectionId : Bytes) : Option ℕ :=
  (s.peers.find nodeRoutingId).filter fun handle =>
    s.objects[handle]?.any fun peer => peer.connectionId = connectionId

def received (handle : ℕ) (now : ℤ) : LivenessRegistry :=
  { s with objects := s.objects.modify handle (LivenessPeer.recordReceived settings now) }

/-- `admit_owned`. -/
def admitNode (nodeRoutingId connectionId : Bytes) (now : ℤ) : LivenessRegistry :=
  if nodeRoutingId = [] ∨ connectionId = [] ∨ (s.connected nodeRoutingId connectionId).isSome then s
  else
    { s with
      objects := s.objects ++ [LivenessPeer.new settings connectionId now]
      peers := s.peers.insertOrAssign nodeRoutingId s.objects.length
      nextDue := unknownDue }

def disconnect (nodeRoutingId connectionId : Bytes) : LivenessRegistry :=
  if (s.connected nodeRoutingId connectionId).isSome then
    { s with peers := s.peers.erase nodeRoutingId }
  else s

def acknowledge (nodeRoutingId connectionId : Bytes) (probeId : UInt64) (now : ℤ) :
    LivenessRegistry :=
  match s.connected nodeRoutingId connectionId with
  | none => s
  | some handle =>
    { s with
      objects := s.objects.modify handle fun peer =>
        LivenessPeer.answered probeId (peer.recordReceived settings now) }

def due (now : ℤ) : Bool :=
  s.nextDue = unknownDue || s.nextDue ≤ now

def admissionDue : ℤ :=
  (s.admissionActivity.map (· + settings.probeInterval)).getD neverDue

/-- `publish_next_due_owned` begins. -/
def publishNextDue (result : LivenessTick) : LivenessRegistry :=
  { s with lane := .publishing s.peers.entries (s.admissionDue settings) result }

def setAdmissionPending (pending : Bool) (clock : ℤ) : LivenessRegistry :=
  let admissionActivity := if pending then s.admissionActivity.orElse fun _ => some clock else none
  { s with admissionActivity }.publishNextDue settings ⟨[], []⟩

def nextActivity : LivenessRegistry :=
  if s.nextDue = unknownDue then s.publishNextDue settings ⟨[], []⟩ else s

/-- `tick_owned` begins. -/
def tick (now : ℤ) : LivenessRegistry :=
  if s.due now then { s with lane := .scanning now s.peers.entries ⟨[], []⟩ } else s

/-- The first instant behind `now` at which the peer is probed again. -/
def advanceProbe (nextProbe now : ℤ) : ℤ :=
  if nextProbe + settings.probeInterval ≤ now then
    advanceProbe (nextProbe + settings.probeInterval) now
  else nextProbe + settings.probeInterval
termination_by (now - nextProbe).toNat
decreasing_by
  have hpositive := settings.positive
  omega

def freshProbeId : UInt64 :=
  if s.nextProbeId = 0 then 1 else s.nextProbeId

def probe (now : ℤ) (left : List (Bytes × ℕ)) (result : LivenessTick) (nodeRoutingId : Bytes)
    (handle : ℕ) (peer : LivenessPeer) : LivenessRegistry :=
  let probeId := peer.outstandingProbe.getD s.freshProbeId
  { s with
    objects := s.objects.set handle
      { peer with
        outstandingProbe := some probeId
        nextProbe := advanceProbe settings peer.nextProbe now }
    nextProbeId := if peer.outstandingProbe.isSome then s.nextProbeId else s.freshProbeId + 1
    lane := .scanning now left
      { result with probes := result.probes ++ [⟨nodeRoutingId, peer.connectionId, probeId⟩] } }

def scanPeer (now : ℤ) (left : List (Bytes × ℕ)) (result : LivenessTick) (nodeRoutingId : Bytes)
    (handle : ℕ) (peer : LivenessPeer) : LivenessRegistry :=
  if peer.deadline ≤ now then
    { s with
      peers := s.peers.erase nodeRoutingId
      lane := .scanning now left
        { result with timedOutNodes := result.timedOutNodes ++ [nodeRoutingId] } }
  else if peer.nextProbe ≤ now then s.probe settings now left result nodeRoutingId handle peer
  else { s with lane := .scanning now left result }

def visit : Option LivenessRegistry :=
  match s.lane with
  | .idle => none
  | .scanning now ((nodeRoutingId, handle) :: left) result =>
    s.objects[handle]?.map (s.scanPeer settings now left result nodeRoutingId handle)
  | .scanning now [] result =>
    let admissionActivity := s.admissionActivity.map fun _ => now
    some ({ s with admissionActivity }.publishNextDue settings result)
  | .publishing ((_, handle) :: left) next result =>
    s.objects[handle]?.map fun peer =>
      { s with lane := .publishing left (min next (min peer.deadline peer.nextProbe)) result }
  | .publishing [] next _ => some { s with nextDue := next, lane := .idle }

/-- What can happen. The lane takes up an operation when it is idle. -/
def step : LivenessAction → Option LivenessRegistry
  | .received handle now =>
    if handle < s.objects.length then some (s.received settings handle now) else none
  | .visit => s.visit settings
  | .admitNode nodeRoutingId connectionId now =>
    if s.lane = .idle then some (s.admitNode settings nodeRoutingId connectionId now) else none
  | .disconnect nodeRoutingId connectionId =>
    if s.lane = .idle then some (s.disconnect nodeRoutingId connectionId) else none
  | .acknowledge nodeRoutingId connectionId probeId now =>
    if s.lane = .idle then some (s.acknowledge settings nodeRoutingId connectionId probeId now)
    else none
  | .setAdmissionPending pending clock =>
    if s.lane = .idle then some (s.setAdmissionPending settings pending clock) else none
  | .nextActivity => if s.lane = .idle then some (s.nextActivity settings) else none
  | .tick now => if s.lane = .idle then some (s.tick now) else none

end LivenessRegistry

end Zlink.Mesh
