import Zlink.Lib.Keyed
import Zlink.Lib.Trace

/-!
# The registry of stream sessions

The registry keeps the bindings of all connections, an index from actors to bindings, and the
barriers that seal bindings. Every operation is a turn of one lane. The end of a barrier takes
two turns: the first removes the barrier, the second finds the current binding of the actor
and clears its seal, or starts a drain of the relays that were held behind it.
-/

namespace Zlink.Session

/-- `UINT64_MAX`. -/
def uint64Max : ℕ := 2 ^ 64 - 1

inductive ObjectKind where
  | actor
  | userSpot
  | instanceSpot
  deriving DecidableEq

structure ObjectRef where
  kind : ObjectKind
  key : String
  objectGeneration : ℕ
  authorityOwnerGeneration : ℕ
  meshName : String
  nodeId : String
  deriving DecidableEq

def exactActor (left right : ObjectRef) : Bool :=
  left.kind == .actor && right.kind == .actor && left == right

/-- The errors of the operations below: the part of `stateful_error_t` they use. -/
inductive Error where
  | invalid
  | notFound
  | generationStale
  | moving
  | conflict
  | backpressured

structure Connection where
  connectionId : String
  connectionGeneration : ℕ
  ownerNodeRid : Option (List UInt8)
  ownerNodeGeneration : ℕ
  deriving DecidableEq

structure Binding where
  connection : Connection
  bindingGeneration : ℕ
  actor : ObjectRef
  targetNodeGeneration : ℕ
  ownerLeaseGeneration : ℕ
  deriving DecidableEq

/-- `stream_ingress_drain_t`: the dispatches that are not completed. -/
structure Drain where
  active : Finset (ℕ × ℕ)
  acceptsCompletion : Bool

structure Dispatch where
  binding : Binding
  inboundSequence : ℕ
  drain : ℕ

structure Held where
  dispatch : Dispatch
  relay : ℕ

/-- `session_binding_aggregate_t` under its connection id and its actor id. The serial number
says which installation of a binding this is; no operation reads it. -/
structure Aggregate where
  connectionId : String
  actorId : String
  binding : Binding
  nextInboundSequence : ℕ
  ingressDrain : ℕ
  barrierToken : Option ℕ
  heldRelays : List Held
  serial : ℕ

def Aggregate.key (aggregate : Aggregate) : String × String :=
  (aggregate.connectionId, aggregate.actorId)

/-- `actor_binding_locator_t`. -/
structure Locator where
  connection : Connection
  bindingGeneration : ℕ
  deriving DecidableEq

def Binding.locator (binding : Binding) : Locator where
  connection := binding.connection
  bindingGeneration := binding.bindingGeneration

/-- The registry. `bindings` has the bindings of all connections; `starting` and `draining` are
the turns that the ends of barriers still owe. -/
structure Registry where
  connections : List Connection
  lastConnectionGeneration : String → ℕ
  bindings : List Aggregate
  actorBindings : List (String × Locator)
  barriers : List (ℕ × ObjectRef)
  nextBindingGeneration : ℕ
  nextBarrierToken : ℕ
  allSealed : Bool
  drains : ℕ → Drain
  nextDrain : ℕ
  starting : List String
  draining : List (String × ℕ)
  nextRelay : ℕ
  nextSerial : ℕ

/-- What the callbacks and the callers see of a turn. A binding is published under a generation
that the registry has issued itself, or under one that it was given. -/
inductive Output where
  | published (binding : Binding) (own : Bool)
  | restored (binding : Binding)
  | admitted (dispatch : Dispatch)
  | held (dispatch : Dispatch) (relay : ℕ)
  | delivered (dispatch : Dispatch) (relay : ℕ)
  | settled (relay : ℕ)

structure Turn (α : Type) where
  answer : α
  registry : Registry
  outputs : List Output

def settle (held : List Held) : List Output :=
  held.map fun relay => .settled relay.relay

namespace Registry

def init : Registry where
  connections := []
  lastConnectionGeneration _ := 0
  bindings := []
  actorBindings := []
  barriers := []
  nextBindingGeneration := 1
  nextBarrierToken := 1
  allSealed := false
  drains _ := { active := ∅, acceptsCompletion := true }
  nextDrain := 0
  starting := []
  draining := []
  nextRelay := 0
  nextSerial := 0

variable (s : Registry)

def refuse {α : Type} (answer : α) : Turn α where
  answer := answer
  registry := s
  outputs := []

def connection (connectionId : String) : Option Connection :=
  Keyed.find Connection.connectionId connectionId s.connections

def aggregate (connectionId actorId : String) : Option Aggregate :=
  Keyed.find Aggregate.key (connectionId, actorId) s.bindings

variable (actorId : String)

def locator : Option Locator :=
  (Keyed.find Prod.fst actorId s.actorBindings).map Prod.snd

variable (token : ℕ)

def barrier : Option ObjectRef :=
  (Keyed.find Prod.fst token s.barriers).map Prod.snd

/-- `current_aggregate_unlocked`. -/
def currentAggregate : Option Aggregate :=
  (s.locator actorId).bind fun locator =>
    ((s.connection locator.connection.connectionId).filter (· = locator.connection)).bind
      fun connection =>
        (s.aggregate connection.connectionId actorId).filter
          (·.binding.bindingGeneration = locator.bindingGeneration)

variable (aggregate : Aggregate)

def idle : Bool :=
  (s.drains aggregate.ingressDrain).active = ∅

/-- Change the aggregate of one connection and actor. -/
def modify (key : String × String) (f : Aggregate → Aggregate) : Registry :=
  { s with bindings := Keyed.modify Aggregate.key key f s.bindings }

def setDrain (drain : ℕ) (f : Drain → Drain) : Registry :=
  { s with drains := fun d => if d = drain then f (s.drains d) else s.drains d }

def setLocator (locator : Locator) : Registry :=
  { s with
    actorBindings := (actorId, locator) :: Keyed.erase Prod.fst actorId s.actorBindings }

def refuseCompletions (aggregates : List Aggregate) : Registry :=
  { s with
    drains := fun d =>
      if d ∈ aggregates.map Aggregate.ingressDrain then
        { s.drains d with acceptsCompletion := false }
      else s.drains d }

def unindex (aggregates : List Aggregate) : Registry :=
  { s with
    actorBindings := s.actorBindings.filter fun entry =>
      !aggregates.any fun aggregate =>
        aggregate.actorId == entry.1 && aggregate.binding.locator == entry.2 }

def bindingsOf (connectionId : String) : List Aggregate :=
  s.bindings.filter fun aggregate => aggregate.connectionId = connectionId

def clearBindings (connectionId : String) : Registry :=
  { s with
    bindings := s.bindings.filter fun aggregate => aggregate.connectionId ≠ connectionId }

def heldBy (aggregates : List Aggregate) : List Held :=
  aggregates.flatMap Aggregate.heldRelays

def «open» (connectionId : String) (ownerNodeRid : Option (List UInt8))
    (ownerNodeGeneration : ℕ) : Turn Connection :=
  let generation := (s.lastConnectionGeneration connectionId + 1) % 2 ^ 64
  let connection := { connectionId, connectionGeneration := generation, ownerNodeRid,
                      ownerNodeGeneration }
  let previous := s.bindingsOf connectionId
  let s := ((s.refuseCompletions previous).unindex previous).clearBindings connectionId
  { answer := connection
    registry :=
      { s with
        lastConnectionGeneration := fun id =>
          if id = connectionId then generation else s.lastConnectionGeneration id
        connections := connection :: Keyed.erase Connection.connectionId connectionId s.connections }
    outputs := settle (heldBy previous) }

def removeConnection (connectionId : String) : Registry :=
  let s := s.clearBindings connectionId
  { s with connections := Keyed.erase Connection.connectionId connectionId s.connections }

variable (connection : Connection)

def close : Turn (Option (List Binding)) :=
  if s.connection connection.connectionId = some connection then
    let current := s.bindingsOf connection.connectionId
    { answer := some (current.map Aggregate.binding)
      registry := ((s.refuseCompletions current).unindex current).removeConnection
        connection.connectionId
      outputs := settle (heldBy current) }
  else s.refuse none

inductive Publication where
  | none
  | refused (error : Error)
  | threw

def indexed : Option Aggregate :=
  (s.locator actorId).bind fun locator =>
    ((s.connection locator.connection.connectionId).filter (· = locator.connection)).bind
      fun connection => s.aggregate connection.connectionId actorId

def erase (key : String × String) : Registry :=
  { s with bindings := Keyed.erase Aggregate.key key s.bindings }

variable (binding : Binding)

/-- Install a binding in place of the aggregates that `displaced` lists. The first of them
leaves its drain to the new one. -/
def install (displaced : List Aggregate) : Registry :=
  let actorId := binding.actor.key
  let key := (binding.connection.connectionId, actorId)
  let inherited := displaced.head?.map Aggregate.ingressDrain
  let aggregate :=
    { connectionId := binding.connection.connectionId
      actorId
      binding
      nextInboundSequence := 1
      ingressDrain := inherited.getD s.nextDrain
      barrierToken := none
      heldRelays := []
      serial := s.nextSerial }
  let cleared := displaced.foldl (fun s old => s.erase old.key) s
  { (cleared.erase key).setLocator actorId binding.locator with
    bindings := aggregate :: (cleared.erase key).bindings
    drains := fun d =>
      if inherited = none ∧ d = s.nextDrain then { active := ∅, acceptsCompletion := true }
      else s.drains d
    nextDrain := s.nextDrain + 1
    nextSerial := s.nextSerial + 1 }

/-- Take a new binding back, and put in place again what it displaced first. -/
def rollback (previous : Option Aggregate) : Registry :=
  let actorId := binding.actor.key
  let s := s.erase (binding.connection.connectionId, actorId)
  let s := { s with actorBindings := Keyed.erase Prod.fst actorId s.actorBindings }
  match previous with
  | none => s
  | some aggregate =>
    { s.setLocator actorId aggregate.binding.locator with
      bindings := aggregate :: s.bindings }

def displacedBy (actorId : String) : List Aggregate :=
  let first := s.indexed actorId
  let second := (s.aggregate connection.connectionId actorId).filter fun aggregate =>
    first.all fun old => old.key ≠ aggregate.key
  first.toList ++ second.toList

def bindVerified (actor : ObjectRef)
    (targetNodeGeneration ownerLeaseGeneration : ℕ) (publication : Publication)
    (bindingGeneration : ℕ) : Turn (Except (Option Error) Binding) :=
  if s.allSealed then s.refuse (.error (some .moving))
  else if s.connection connection.connectionId ≠ some connection then
    s.refuse (.error (some .conflict))
  else if (s.aggregate connection.connectionId actor.key).any fun existing =>
      existing.barrierToken.isSome then
    s.refuse (.error (some .moving))
  else if bindingGeneration ≠ 0 ∧ (s.currentAggregate actor.key).any fun current =>
      bindingGeneration < current.binding.bindingGeneration then
    s.refuse (.error (some .conflict))
  else if bindingGeneration = uint64Max ∨ bindingGeneration = 0 ∧
      (s.nextBindingGeneration = 0 ∨ s.nextBindingGeneration = uint64Max) then
    s.refuse (.error (some .conflict))
  else
    let issued := if bindingGeneration ≠ 0 then bindingGeneration else s.nextBindingGeneration
    let binding := { connection, bindingGeneration := issued, actor, targetNodeGeneration,
                     ownerLeaseGeneration }
    let s := { s with
      nextBindingGeneration :=
        if s.nextBindingGeneration ≤ issued then issued + 1 else s.nextBindingGeneration }
    let displaced := s.displacedBy connection actor.key
    let installed := s.install binding displaced
    let published := Output.published binding (bindingGeneration = 0)
    match publication with
    | .none =>
      { answer := .ok binding
        registry := installed
        outputs := published :: settle (heldBy displaced) }
    | .refused error =>
      { answer := .error (some error)
        registry := installed.rollback binding displaced.head?
        outputs := [published] }
    | .threw =>
      { answer := .error none
        registry := installed.rollback binding displaced.head?
        outputs := [published] }

/-- `bind`, with what the resolver says of the actor. -/
def bind (actor : ObjectRef)
    (targetNodeGeneration ownerLeaseGeneration : ℕ) (authority : Option ObjectRef) :
    Turn (Except (Option Error) Binding) :=
  match authority with
  | none => s.refuse (.error (some .notFound))
  | some authority =>
    if exactActor authority actor then
      s.bindVerified connection actor targetNodeGeneration ownerLeaseGeneration .none 0
    else s.refuse (.error (some .generationStale))

def bindRemote (actor : ObjectRef)
    (targetNodeGeneration ownerLeaseGeneration : ℕ) (publication : Publication)
    (bindingGeneration : ℕ) : Turn (Except (Option Error) Binding) :=
  if actor.kind ≠ .actor ∨ actor.key = "" ∨ actor.objectGeneration = 0 ∨
      actor.authorityOwnerGeneration = 0 ∨ actor.nodeId = "" ∨ targetNodeGeneration = 0 ∨
      ownerLeaseGeneration = 0 then
    s.refuse (.error (some .invalid))
  else
    s.bindVerified connection actor targetNodeGeneration ownerLeaseGeneration publication
      bindingGeneration

def unbind : Turn (Except Error Binding) :=
  let found := (s.aggregate binding.connection.connectionId binding.actor.key).filter
    fun aggregate => aggregate.binding.bindingGeneration = binding.bindingGeneration ∧
      aggregate.binding.actor.objectGeneration = binding.actor.objectGeneration
  if s.connection binding.connection.connectionId ≠ some binding.connection then
    s.refuse (.error .conflict)
  else
    match found with
    | none => s.refuse (.error .conflict)
    | some aggregate =>
      let s := (s.refuseCompletions [aggregate]).erase aggregate.key
      { answer := .ok aggregate.binding
        registry :=
          { s with
            actorBindings := s.actorBindings.filter fun entry =>
              !(entry.1 == binding.actor.key && entry.2 == binding.locator) }
        outputs := settle aggregate.heldRelays }

/-- Bring a displaced binding back; it starts with a new aggregate. -/
def restore : Turn (Except Error Unit) :=
  let actorId := binding.actor.key
  if s.allSealed then s.refuse (.error .moving)
  else if s.connection binding.connection.connectionId ≠ some binding.connection then
    s.refuse (.error .conflict)
  else if (s.locator actorId).any fun locator => locator ≠ binding.locator then
    s.refuse (.error .conflict)
  else if (s.aggregate binding.connection.connectionId actorId).any fun local' =>
      local'.binding ≠ binding ∨ local'.barrierToken.isSome then
    s.refuse (.error .conflict)
  else
    let s := s.install binding []
    { answer := .ok ()
      registry :=
        { s with
          nextBindingGeneration :=
            if s.nextBindingGeneration ≤ binding.bindingGeneration ∧
                binding.bindingGeneration ≠ uint64Max then binding.bindingGeneration + 1
            else s.nextBindingGeneration }
      outputs := [.restored binding] }

def activate : Turn (Except Error Dispatch) :=
  let sequence := aggregate.nextInboundSequence
  let dispatch := { binding := aggregate.binding, inboundSequence := sequence,
                    drain := aggregate.ingressDrain }
  let s := s.modify aggregate.key fun a => { a with nextInboundSequence := sequence + 1 }
  { answer := .ok dispatch
    registry := s.setDrain aggregate.ingressDrain fun drain =>
      { drain with active := insert (aggregate.binding.bindingGeneration, sequence) drain.active }
    outputs := [.admitted dispatch] }

/-- `admit_inbound` of a binding. -/
def admitInbound : Turn (Except Error Dispatch) :=
  let found := (s.aggregate binding.connection.connectionId binding.actor.key).filter
    fun aggregate => aggregate.binding = binding
  if s.allSealed then s.refuse (.error .moving)
  else if s.connection binding.connection.connectionId ≠ some binding.connection then
    s.refuse (.error .conflict)
  else
    match found with
    | none => s.refuse (.error .conflict)
    | some aggregate =>
      if aggregate.barrierToken.isSome then s.refuse (.error .moving)
      else if aggregate.nextInboundSequence = uint64Max then s.refuse (.error .conflict)
      else s.activate aggregate

def currentOn (connectionId : String) (bindingGeneration : ℕ) (actorId : String) :
    Option Aggregate :=
  (s.currentAggregate actorId).filter fun aggregate =>
    s.connection connectionId = some aggregate.binding.connection ∧
      aggregate.binding.bindingGeneration = bindingGeneration

/-- Park a frame behind the seal of its aggregate. -/
def hold : Turn (Option (Except Error (Option Dispatch))) :=
  let dispatch := { binding := aggregate.binding,
                    inboundSequence := aggregate.nextInboundSequence,
                    drain := aggregate.ingressDrain }
  { answer := some (.ok none)
    registry :=
      { s.modify aggregate.key fun a =>
          { a with
            heldRelays := a.heldRelays ++ [{ dispatch, relay := s.nextRelay }]
            nextInboundSequence := a.nextInboundSequence + 1 } with
        nextRelay := s.nextRelay + 1 }
    outputs := [.held dispatch s.nextRelay] }

/-- One attempt of `admit_inbound` of a relay; no answer means another attempt, or in the end
that the binding is moving. -/
def attemptInbound (connectionId : String) (bindingGeneration : ℕ) (actorId : String)
    (expectedSequence : ℕ) (retain : Bool) : Turn (Option (Except Error (Option Dispatch))) :=
  if connectionId = "" ∨ bindingGeneration = 0 ∨ actorId = "" ∨ expectedSequence = 0 then
    s.refuse (some (.error .invalid))
  else
    match s.currentOn connectionId bindingGeneration actorId with
    | none => s.refuse (some (.error .conflict))
    | some aggregate =>
      if s.allSealed then s.refuse none
      else if aggregate.barrierToken.isSome then
        if retain ∧ aggregate.nextInboundSequence = expectedSequence ∧
            aggregate.nextInboundSequence ≠ uint64Max then
          s.hold aggregate
        else s.refuse none
      else if expectedSequence < aggregate.nextInboundSequence ∨
          aggregate.nextInboundSequence = uint64Max then
        s.refuse (some (.error .conflict))
      else if aggregate.nextInboundSequence = expectedSequence then
        let turn := s.activate aggregate
        { answer := some (turn.answer.map some)
          registry := turn.registry
          outputs := turn.outputs }
      else s.refuse none

def completeInbound (dispatch : Dispatch) : Turn (Except Error Unit) :=
  let entry := (dispatch.binding.bindingGeneration, dispatch.inboundSequence)
  let drain := s.drains dispatch.drain
  if !drain.acceptsCompletion then s.refuse (.error .conflict)
  else if entry ∈ drain.active then
    { answer := .ok ()
      registry := s.setDrain dispatch.drain fun drain =>
        { drain with active := drain.active.erase entry }
      outputs := [] }
  else s.refuse (.error .notFound)

def sealWith (actor : ObjectRef) (affected : Option Aggregate) : Registry :=
  let token := s.nextBarrierToken
  let s := match affected with
    | none => s
    | some aggregate =>
      s.modify aggregate.key fun a => { a with barrierToken := some token }
  { s with
    barriers := (token, actor) :: s.barriers
    nextBarrierToken := (token + 1) % 2 ^ 64 }

def trySealActor (actor : ObjectRef) : Turn (Except Error ℕ) :=
  let affected := (s.currentAggregate actor.key).filter fun aggregate =>
    exactActor aggregate.binding.actor actor
  if actor.kind ≠ .actor then s.refuse (.error .invalid)
  else if affected.any fun aggregate => aggregate.barrierToken.isSome then
    s.refuse (.error .moving)
  else if affected.any fun aggregate => !s.idle aggregate then s.refuse (.error .backpressured)
  else if s.nextBarrierToken = 0 then s.refuse (.error .conflict)
  else
    { answer := .ok s.nextBarrierToken
      registry := s.sealWith actor affected
      outputs := [] }

/-- `seal_remote_route`: the token, and whether dispatches are still uncompleted. -/
def sealRemoteRoute (connectionId : String) (bindingGeneration : ℕ) (actorId : String)
    (objectGeneration expectedOwnerLeaseGeneration : ℕ) :
    Turn (Except (Option Error) (ℕ × Bool)) :=
  match s.currentAggregate actorId with
  | none => s.refuse (.error none)
  | some aggregate =>
    if s.currentOn connectionId bindingGeneration actorId = none then
      s.refuse (.error (some .notFound))
    else if aggregate.binding.actor.kind ≠ .actor ∨ aggregate.binding.actor.key ≠ actorId ∨
        aggregate.binding.actor.objectGeneration ≠ objectGeneration ∨
        expectedOwnerLeaseGeneration < aggregate.binding.ownerLeaseGeneration ∨
        aggregate.barrierToken.isSome ∨ s.nextBarrierToken = 0 then
      s.refuse (.error (some .conflict))
    else
      { answer := .ok (s.nextBarrierToken, !s.idle aggregate)
        registry := s.sealWith aggregate.binding.actor (some aggregate)
        outputs := [] }

def outstanding (actor : ObjectRef) : Bool :=
  (s.barrier token).any fun sealed => exactActor sealed actor

def remoteRouteSealReady (actor : ObjectRef) : Bool :=
  s.outstanding token actor && (s.currentAggregate actor.key).all fun aggregate =>
    s.idle aggregate

def endBarrier (actorId : String) : Registry :=
  { s with
    barriers := Keyed.erase Prod.fst token s.barriers
    starting := actorId :: s.starting }

def abortBarrier (actor : ObjectRef) : Turn (Except Error Unit) :=
  if s.outstanding token actor then
    { answer := .ok ()
      registry := s.endBarrier token actor.key
      outputs := [] }
  else s.refuse (.error .notFound)

def commitBarrier (actor target : ObjectRef) : Turn (Except Error Unit) :=
  if !s.outstanding token actor ∨ target.kind ≠ .actor ∨ target.key ≠ actor.key ∨
      target.objectGeneration ≠ actor.objectGeneration ∨
      target.authorityOwnerGeneration ≤ actor.authorityOwnerGeneration then
    s.refuse (.error .conflict)
  else
    match s.currentAggregate actor.key with
    | none =>
      { answer := .ok ()
        registry := s.endBarrier token actor.key
        outputs := [] }
    | some aggregate =>
      if aggregate.barrierToken ≠ some token ∨ !exactActor aggregate.binding.actor actor then
        s.refuse (.error .conflict)
      else
        { answer := .ok ()
          registry := (s.modify aggregate.key fun a =>
            { a with binding := { a.binding with actor := target } }).endBarrier token actor.key
          outputs := [] }

def routeBarrier (objectGeneration : ℕ) : Option ℕ :=
  aggregate.barrierToken.filter fun token =>
    aggregate.binding.actor.kind = .actor ∧
      aggregate.binding.actor.objectGeneration = objectGeneration ∧
      s.outstanding token aggregate.binding.actor

def commitRemoteRoute (connectionId : String) (bindingGeneration : ℕ) (actorId : String)
    (objectGeneration : ℕ) (target : ObjectRef)
    (targetNodeGeneration targetOwnerLeaseGeneration : ℕ) : Turn (Except Error Binding) :=
  match s.currentOn connectionId bindingGeneration actorId with
  | none => s.refuse (.error .notFound)
  | some aggregate =>
    match s.routeBarrier aggregate objectGeneration with
    | none => s.refuse (.error .conflict)
    | some token =>
      if target.kind ≠ .actor ∨ target.key ≠ actorId ∨
          target.objectGeneration ≠ objectGeneration ∨ targetNodeGeneration = 0 ∨
          targetOwnerLeaseGeneration = 0 ∨ !s.idle aggregate then
        s.refuse (.error .conflict)
      else
        let next := { aggregate.binding with
          actor := target
          targetNodeGeneration
          ownerLeaseGeneration := targetOwnerLeaseGeneration }
        { answer := .ok next
          registry := (s.modify aggregate.key fun a => { a with binding := next }).endBarrier
            token actorId
          outputs := [] }

def acknowledgeRemoteAbort (connectionId : String) (bindingGeneration : ℕ) (actorId : String)
    (objectGeneration : ℕ) : Turn (Except Error Binding) :=
  match s.currentOn connectionId bindingGeneration actorId with
  | none => s.refuse (.error .notFound)
  | some aggregate =>
    match s.routeBarrier aggregate objectGeneration with
    | none => s.refuse (.error .conflict)
    | some token =>
      { answer := .ok aggregate.binding
        registry := s.endBarrier token actorId
        outputs := [] }

def closeRemoteRouteSeal (actor : ObjectRef) : Turn Bool :=
  let found := (s.currentAggregate actor.key).filter fun aggregate =>
    s.outstanding token actor ∧ aggregate.barrierToken = some token ∧
      s.connection aggregate.binding.connection.connectionId = some aggregate.binding.connection
  match found with
  | none => s.refuse false
  | some aggregate =>
    let connectionId := aggregate.binding.connection.connectionId
    let closed := s.bindingsOf connectionId
    let actors := closed.map Aggregate.actorId
    let s := (s.refuseCompletions closed).removeConnection connectionId
    { answer := true
      registry :=
        { s with
          actorBindings := s.actorBindings.filter fun entry => entry.1 ∉ actors
          barriers := s.barriers.filter fun entry => entry.2.key ∉ actors }
      outputs := settle (heldBy closed) }

def dropHeldRelays : Turn Unit where
  answer := ()
  registry := { s with bindings := s.bindings.map fun a => { a with heldRelays := [] } }
  outputs := settle (heldBy s.bindings)

def clearSeal : Registry :=
  s.modify aggregate.key fun a => { a with barrierToken := none }

/-- The first turn of `start_held_relay_drain`, which goes by the actor alone. -/
def startHeldRelayDrain : Turn Unit :=
  let s := { s with starting := s.starting.erase actorId }
  match s.currentAggregate actorId with
  | none => s.refuse ()
  | some aggregate =>
    match aggregate.barrierToken with
    | none => s.refuse ()
    | some token =>
      if aggregate.heldRelays = [] then (s.clearSeal aggregate).refuse ()
      else { s with draining := (actorId, token) :: s.draining }.refuse ()

def sealedBy (token : ℕ) : Option Aggregate :=
  (s.currentAggregate actorId).filter fun aggregate => aggregate.barrierToken = some token

/-- One turn of `drain_held_relays`: deliver the first relay, or clear the seal and end. -/
def drainHeldRelays (token : ℕ) : Turn Unit :=
  let ended := { s with draining := s.draining.erase (actorId, token) }
  match s.sealedBy actorId token with
  | none => ended.refuse ()
  | some aggregate =>
    match aggregate.heldRelays with
    | [] => (ended.clearSeal aggregate).refuse ()
    | next :: rest =>
      let dispatch := { next.dispatch with binding := aggregate.binding }
      let s := s.modify aggregate.key fun a => { a with heldRelays := rest }
      { answer := ()
        registry := s.setDrain aggregate.ingressDrain fun drain =>
          { drain with
            active := insert (aggregate.binding.bindingGeneration, dispatch.inboundSequence)
              drain.active }
        outputs := [.delivered dispatch next.relay] }

def drainFails (token : ℕ) : Turn Unit :=
  let s := { s with draining := s.draining.erase (actorId, token) }
  match s.sealedBy actorId token with
  | none => s.refuse ()
  | some aggregate =>
    { answer := ()
      registry := s.modify aggregate.key fun a =>
        { a with heldRelays := [], barrierToken := none }
      outputs := settle aggregate.heldRelays }

def trySealAll : Turn Bool :=
  if s.allSealed then s.refuse true
  else if s.bindings.all fun aggregate => s.idle aggregate then
    { answer := true
      registry := { s with allSealed := true }
      outputs := [] }
  else s.refuse false

def releaseAll : Registry :=
  { s with allSealed := false }

def forceCloseAll : Turn Unit where
  answer := ()
  registry :=
    { s.refuseCompletions s.bindings with
      allSealed := true
      barriers := []
      actorBindings := []
      bindings := []
      connections := [] }
  outputs := settle (heldBy s.bindings)

end Registry

inductive Event where
  | openNamed (connectionId : String) (ownerNodeRid : Option (List UInt8)) (ownerNodeGeneration : ℕ)
  | close (connection : Connection)
  | bind (connection : Connection) (actor : ObjectRef)
      (targetNodeGeneration ownerLeaseGeneration : ℕ) (authority : Option ObjectRef)
  | bindRemote (connection : Connection) (actor : ObjectRef)
      (targetNodeGeneration ownerLeaseGeneration : ℕ) (publication : Registry.Publication)
      (bindingGeneration : ℕ)
  | unbind (binding : Binding)
  | restore (binding : Binding)
  | admitInbound (binding : Binding)
  | attemptInbound (connectionId : String) (bindingGeneration : ℕ) (actorId : String)
      (expectedSequence : ℕ) (retain : Bool)
  | completeInbound (dispatch : Dispatch)
  | trySealActor (actor : ObjectRef)
  | sealRemoteRoute (connectionId : String) (bindingGeneration : ℕ) (actorId : String)
      (objectGeneration expectedOwnerLeaseGeneration : ℕ)
  | abortBarrier (token : ℕ) (actor : ObjectRef)
  | commitBarrier (token : ℕ) (actor target : ObjectRef)
  | commitRemoteRoute (connectionId : String) (bindingGeneration : ℕ) (actorId : String)
      (objectGeneration : ℕ) (target : ObjectRef)
      (targetNodeGeneration targetOwnerLeaseGeneration : ℕ)
  | acknowledgeRemoteAbort (connectionId : String) (bindingGeneration : ℕ) (actorId : String)
      (objectGeneration : ℕ)
  | closeRemoteRouteSeal (token : ℕ) (actor : ObjectRef)
  | dropHeldRelays
  | startHeldRelayDrain (actorId : String)
  | drainHeldRelays (actorId : String) (token : ℕ)
  | drainFails (actorId : String) (token : ℕ)
  | trySealAll
  | releaseAll
  | forceCloseAll

def Turn.result {α : Type} (turn : Turn α) : Registry × List Output :=
  (turn.registry, turn.outputs)

namespace Registry

def turn (s : Registry) : Event → Option (Registry × List Output)
  | .openNamed connectionId rid generation => some (s.open connectionId rid generation).result
  | .close connection => some (s.close connection).result
  | .bind connection actor node lease authority =>
    some (s.bind connection actor node lease authority).result
  | .bindRemote connection actor node lease publication generation =>
    some (s.bindRemote connection actor node lease publication generation).result
  | .unbind binding => some (s.unbind binding).result
  | .restore binding => some (s.restore binding).result
  | .admitInbound binding => some (s.admitInbound binding).result
  | .attemptInbound connectionId generation actorId sequence retain =>
    some (s.attemptInbound connectionId generation actorId sequence retain).result
  | .completeInbound dispatch => some (s.completeInbound dispatch).result
  | .trySealActor actor => some (s.trySealActor actor).result
  | .sealRemoteRoute connectionId generation actorId object lease =>
    some (s.sealRemoteRoute connectionId generation actorId object lease).result
  | .abortBarrier token actor => some (s.abortBarrier token actor).result
  | .commitBarrier token actor target => some (s.commitBarrier token actor target).result
  | .commitRemoteRoute connectionId generation actorId object target node lease =>
    some (s.commitRemoteRoute connectionId generation actorId object target node lease).result
  | .acknowledgeRemoteAbort connectionId generation actorId object =>
    some (s.acknowledgeRemoteAbort connectionId generation actorId object).result
  | .closeRemoteRouteSeal token actor => some (s.closeRemoteRouteSeal token actor).result
  | .dropHeldRelays => some s.dropHeldRelays.result
  | .startHeldRelayDrain actorId =>
    if actorId ∈ s.starting then some (s.startHeldRelayDrain actorId).result else none
  | .drainHeldRelays actorId token =>
    if (actorId, token) ∈ s.draining then some (s.drainHeldRelays actorId token).result
    else none
  | .drainFails actorId token =>
    if (actorId, token) ∈ s.draining then some (s.drainFails actorId token).result else none
  | .trySealAll => some s.trySealAll.result
  | .releaseAll => some (s.releaseAll, [])
  | .forceCloseAll => some s.forceCloseAll.result

end Registry

/-- The registry, and what its callbacks and callers have seen. -/
structure Recorded where
  registry : Registry
  log : List Output

namespace Recorded

def init : Recorded where
  registry := Registry.init
  log := []

def step (w : Recorded) (event : Event) : Option Recorded :=
  (w.registry.turn event).map fun next => { registry := next.1, log := w.log ++ next.2 }

end Recorded

end Zlink.Session
