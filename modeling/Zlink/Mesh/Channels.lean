import Zlink.ClientServer.Selector
import Zlink.Mesh.Admission

/-!
# The selection of a channel

For every channel that its peers have, the registry keeps the weights of the peers that are ready
and selectable, and a precomputed schedule over them. Every change of the peers works the credits
out of the schedules, and rebuilds the weights and the schedules. The plain topology keeps nothing
but credits, and goes over the members of a channel in every selection.

The reason for the failure metric is left out. Ids that a selection compares are the keys of the
peers, under which they stand.
-/

namespace Zlink.Mesh

open SmoothWeighted ClientServer

def findServiceChannel (descriptor : NodeDescriptor) (channelName : String) :
    Option ChannelDescriptor :=
  (descriptor.channels.find? fun channel => !(channel.name < channelName : Bool)).filter
    fun channel => channel.name = channelName

def selectable (descriptor : NodeDescriptor) (channelName : String) : Bool :=
  descriptor.state = .serving &&
    (findServiceChannel descriptor channelName).any fun channel => channel.weight ≠ 0

abbrev Peers := OrderedMap Bytes AdmittedPeer

def memberWeight (channelName : String) (peer : AdmittedPeer) : Option ℕ :=
  match findServiceChannel peer.descriptor channelName with
  | none => none
  | some channel =>
    if !peer.ready || !selectable peer.descriptor channelName then none
    else some channel.weight.toNat

variable (peers : Peers)

def members (channelName : String) : List (Bytes × ℕ) :=
  peers.entries.filterMap fun e => (memberWeight channelName e.2).map fun weight => (e.1, weight)

def membersTotal (members : List (Bytes × ℕ)) : ℕ :=
  (members.map Prod.snd).sum

def channelNames : List String :=
  peers.entries.flatMap fun e => e.2.descriptor.channels.map ChannelDescriptor.name

/-- The ids break the ties. -/
def toItem (member : Bytes × ℕ) : Bytes × Share Bytes :=
  (member.1, ⟨member.2, member.1⟩)

structure ChannelSchedule where
  initialCumulative : List ℤ
  schedule : List ℕ
  cursor : ℕ
  cycleStart : ℕ

structure SelectionState where
  totalWeight : ℕ
  weights : List (Bytes × ℕ)
  cumulative : Bytes → ℤ
  orderedNodeIds : List (Bytes × Option ℕ)
  orderedWeights : List ℕ
  precomputed : Option ChannelSchedule

namespace SelectionState

def new : SelectionState :=
  ⟨0, [], fun _ => 0, [], [], none⟩

variable (s : SelectionState)

def shares : List (Share Bytes) :=
  List.zipWith (fun id weight => ⟨weight, id.1⟩) s.orderedNodeIds s.orderedWeights

def current (x : ChannelSchedule) (index : ℕ) : ℤ :=
  x.initialCumulative.getD index 0 + x.cursor * (s.orderedWeights.getD index 0 : ℕ) -
    ((x.schedule.take x.cursor).count index : ℕ) * s.totalWeight

def materialize : SelectionState :=
  match s.precomputed with
  | none => s
  | some x =>
    let values := (List.range s.orderedNodeIds.length).map (s.current x)
    { s with
      cumulative := assign s.cumulative (s.orderedNodeIds.map Prod.fst) values
      precomputed := none }

def rebuildSchedule (patience : ℕ) : SelectionState :=
  if s.orderedNodeIds = [] ∨ s.totalWeight = 0 ∨ maxInt64 < s.totalWeight then
    { s with precomputed := none }
  else
    let initial := s.orderedNodeIds.map fun id => s.cumulative id.1
    let built := precomputeWeightedSchedule (selectIndex s.shares)
      (applySelection s.shares s.totalWeight) initial patience
    { s with
      precomputed := built.map fun (schedule, cycleStart) => ⟨initial, schedule, 0, cycleStart⟩ }

/-- What `rebuild_channel_selections` does for one channel. -/
def rebuild (peers : Peers) (channelName : String) (patience : ℕ) :
    SelectionState :=
  let materialized := s.materialize
  let weights := members peers channelName
  let next : SelectionState :=
    { totalWeight := membersTotal weights
      weights := weights
      cumulative := fun node =>
        if node ∈ weights.map Prod.fst then materialized.cumulative node else 0
      orderedNodeIds := weights.map fun member =>
        (member.1, (peers.find member.1).bind AdmittedPeer.liveness)
      orderedWeights := weights.map Prod.snd
      precomputed := none }
  next.rebuildSchedule patience

end SelectionState

inductive Selection where
  | selected (node : Bytes) (liveness : Option ℕ)
  | notFound
  | unavailable
  | exhausted

/-- `static_cast<std::int64_t>`. -/
def toInt64 (n : ℕ) : ℤ :=
  if maxInt64 < n then n - 2 ^ 64 else n

def hasReadyTarget (channelName : String) : Bool :=
  peers.entries.any fun e =>
    (e.2.descriptor.state = .serving || e.2.descriptor.state = .draining ||
        e.2.descriptor.state = .retiring) &&
      (findServiceChannel e.2.descriptor channelName).isSome

def toSelection (channelName : String) : Outcome Bytes → Selection
  | .selected node => .selected node ((peers.find node).bind AdmittedPeer.liveness)
  | .exhausted => .exhausted
  | .idle => if hasReadyTarget peers channelName then .unavailable else .notFound

def selectPlain (channelName : String) (weights : List (Bytes × ℕ)) (total : ℕ)
    (credits : Bytes → ℤ) : (Bytes → ℤ) × Selection :=
  let present := weights.filter fun member => (peers.find member.1).isSome
  let (raised, outcome) := turn maxInt64 (toInt64 total) credits (present.map toItem)
  (raised, toSelection peers channelName outcome)

namespace SelectionState

def replay (s : SelectionState) (x : ChannelSchedule) : ChannelSchedule × Selection :=
  match x.schedule[x.cursor]? with
  | none => (x, .notFound)
  | some selectedIndex =>
    match s.orderedNodeIds[selectedIndex]? with
    | none => (x, .notFound)
    | some target =>
      let cursor := if x.cursor + 1 = x.schedule.length then x.cycleStart else x.cursor + 1
      ({ x with cursor }, .selected target.1 target.2)

def select (s : SelectionState) (peers : Peers) (channelName : String) :
    SelectionState × Selection :=
  match s.precomputed with
  | some x =>
    let (next, selection) := s.replay x
    ({ s with precomputed := some next }, selection)
  | none =>
    let (cumulative, selection) :=
      selectPlain peers channelName s.weights s.totalWeight s.cumulative
    ({ s with cumulative }, selection)

end SelectionState

/-- The turns of the registry, and selections. `patience` says for every channel when its
precomputation gives up. -/
inductive Event where
  | turn (e : Registry.Event) (patience : String → ℕ)
  | select (channelName : String)

inductive Shown where
  | kept
  | changed (credits : String → Bytes → ℤ)
  | selection (x : Selection)
  | thrown

def Registry.rebuilds (s : Registry) : Registry.Event → Bool
  | .admitOnLane descriptor connectionId expectedDescriptor command handle =>
    (s.admitOnLane descriptor connectionId expectedDescriptor command handle).rebuilt
  | .disconnect nodeRoutingId connectionId => (s.disconnect nodeRoutingId connectionId).rebuilt
  | _ => false

/-- The sum of the weights of a channel does not fit a `uint64_t`. -/
def totalExhausted : Bool :=
  (channelNames peers).any fun channelName =>
    decide (2 ^ 64 ≤ membersTotal (members peers channelName))

structure Topology where
  registry : Registry
  selections : String → Option SelectionState

namespace Topology

def rebuildChannelSelections (peers : Peers) (selections : String → Option SelectionState)
    (patience : String → ℕ) : String → Option SelectionState :=
  fun channelName =>
    if channelName ∈ channelNames peers then
      some (((selections channelName).getD .new).rebuild peers channelName (patience channelName))
    else none

def credits (selections : String → Option SelectionState) (channelName : String)
    (node : Bytes) : ℤ :=
  match selections channelName with
  | some state => state.cumulative node
  | none => 0

def select (s : Topology) (channelName : String) : Topology × Selection :=
  if channelName = "" then (s, .notFound)
  else
    match s.selections channelName with
    | none => (s, .notFound)
    | some state =>
      let (next, selection) := state.select s.registry.peers channelName
      ({ s with selections := Function.update s.selections channelName (some next) }, selection)

/-- Nothing follows when the sum of the weights throws. -/
def step (s : Topology) : Event → Option (Topology × Shown)
  | .turn e patience =>
    let registry := s.registry.step e
    if s.registry.rebuilds e then
      if totalExhausted registry.peers then none
      else
        let selections := rebuildChannelSelections registry.peers s.selections patience
        some (⟨registry, selections⟩, .changed (credits selections))
    else some (⟨registry, s.selections⟩, .kept)
  | .select channelName =>
    let (next, selection) := s.select channelName
    some (next, .selection selection)

def shown (s : Topology) : List Event → List Shown
  | [] => []
  | e :: es =>
    match s.step e with
    | none => [.thrown]
    | some (next, x) => x :: next.shown es

end Topology

structure PlainTopology where
  registry : Registry
  credits : String → Bytes → ℤ

namespace PlainTopology

def select (s : PlainTopology) (channelName : String) : PlainTopology × Selection :=
  let peers := s.registry.peers
  if channelName = "" ∨ channelName ∉ channelNames peers then (s, .notFound)
  else
    let weights := members peers channelName
    let (raised, selection) :=
      selectPlain peers channelName weights (membersTotal weights) (s.credits channelName)
    ({ s with credits := Function.update s.credits channelName raised }, selection)

def keep (peers : Peers) (credits : String → Bytes → ℤ) (channelName : String) (node : Bytes) :
    ℤ :=
  if node ∈ (members peers channelName).map Prod.fst then credits channelName node else 0

def step (s : PlainTopology) : Event → Option (PlainTopology × Shown)
  | .turn e _ =>
    let registry := s.registry.step e
    if s.registry.rebuilds e then
      if totalExhausted registry.peers then none
      else
        let credits := keep registry.peers s.credits
        some (⟨registry, credits⟩, .changed credits)
    else some (⟨registry, s.credits⟩, .kept)
  | .select channelName =>
    let (next, selection) := s.select channelName
    some (next, .selection selection)

def shown (s : PlainTopology) : List Event → List Shown
  | [] => []
  | e :: es =>
    match s.step e with
    | none => [.thrown]
    | some (next, x) => x :: next.shown es

end PlainTopology

end Zlink.Mesh
