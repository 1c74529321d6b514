import Zlink.Protocol.Wire
import Zlink.Subscription.Refinement

/-!
# Subscriptions on their way upstream

An XSUB socket keeps its subscriptions in a trie and sends every request on to the XPUB
sockets at the other end of its pipes; a pipe attached later is first sent all of them.
The XPUB socket reads the requests off its pipes and keeps, for each pipe, the prefixes
subscribed there. Both sockets look at the parts of a message one by one, each with rules
of its own about the parts behind the first.

A pipe is the list of the frames written to it: those of complete records, which its
reader sees, and those of the record in progress. It loses nothing. What the XPUB socket
holds for a pipe is a finite set of prefixes.
-/

namespace Zlink

open Protocol

namespace Subscription

inductive Request where
  | subscribe (topic : List UInt8)
  | cancel (topic : List UInt8)
  deriving DecidableEq

namespace Part

def isMore (m : Msg) : Bool :=
  hasAny m.flags Msg.more

def isSubscribe (m : Msg) : Bool :=
  m.flags &&& Msg.cmdTypeMask == Msg.subscribe

def isCancel (m : Msg) : Bool :=
  m.flags &&& Msg.cmdTypeMask == Msg.cancel

def subCmdNameSize : ℕ := 10
def cancelCmdNameSize : ℕ := 7

/-- `command_body` and `command_body_size` of a subscribe or cancel message; `none` is a
null pointer. -/
def commandBody (m : Msg) : Option (List UInt8) :=
  let nameSize := if isSubscribe m then subCmdNameSize else cancelCmdNameSize
  if !hasAny m.flags Msg.command then some m.data
  else if m.data.length < nameSize then none
  else some (m.data.drop nameSize)

/-- `init_subscribe`. -/
def subscription (topic : List UInt8) : Msg :=
  { flags := Msg.subscribe, data := topic, requestReply := none }

/-- How `xsub_t::xsend` reads a part. -/
def xsubRequest (m : Msg) : Option Request :=
  if isSubscribe m || m.data.head? == some 1 then
    some (.subscribe (if isSubscribe m then m.data else m.data.drop 1))
  else if isCancel m || m.data.head? == some 0 then
    some (.cancel (if isCancel m then m.data else m.data.drop 1))
  else none

/-- How `xpub_t::xread_activated` reads a part that it looks at. -/
def xpubRequest (m : Msg) : Option Request :=
  if isSubscribe m || isCancel m then
    (commandBody m).map fun body =>
      if isSubscribe m then .subscribe body else .cancel body
  else
    match m.data with
    | 0 :: topic => some (.cancel topic)
    | 1 :: topic => some (.subscribe topic)
    | _ => none

end Part

structure Reader where
  moreRecv : Bool
  processSubscribe : Bool

namespace Reader

def init : Reader :=
  { moreRecv := false, processSubscribe := false }

def request (r : Reader) (m : Msg) : Option Request :=
  if !r.moreRecv || r.processSubscribe then Part.xpubRequest m else none

/-- One frame read from a pipe, with the prefixes held for that pipe. -/
def process (x : Reader × Finset (List UInt8)) (m : Msg) : Reader × Finset (List UInt8) :=
  let req := x.1.request m
  ( { moreRecv := Part.isMore m
      processSubscribe := if x.1.moreRecv then x.1.processSubscribe else req.isSome },
    match req with
    | some (.subscribe topic) => insert topic x.2
    | some (.cancel topic) => x.2.erase topic
    | none => x.2 )

def drain (x : Reader × Finset (List UInt8)) (ms : List Msg) : Reader × Finset (List UInt8) :=
  ms.foldl process x

end Reader

/-- A pipe from the XSUB socket to an XPUB socket. It is active, or was attached while a
message is under way and waits for the next one. -/
structure Upstream where
  active : Bool
  queue : List Msg
  opened : List Msg
  held : Finset (List UInt8)

namespace Upstream

def pending (w : Upstream) : List Msg :=
  w.queue ++ w.opened

def write (w : Upstream) (m : Msg) : Upstream :=
  if Part.isMore m then { w with opened := w.opened ++ [m] }
  else { w with queue := w.queue ++ w.opened ++ [m], opened := [] }

/-- What `send_to_all` does with a pipe: the last part of a message makes every pipe
active. -/
def distribute (m : Msg) (w : Upstream) : Upstream :=
  let w := if w.active then w.write m else w
  if Part.isMore m then w else { w with active := true }

end Upstream

structure Xsub where
  subscriptions : Trie
  moreSend : Bool
  processSubscribe : Bool
  distMore : Bool

/-- An XSUB socket, its pipes in the order they were attached, and the XPUB sockets at
their other ends. -/
structure Exchange where
  xsub : Xsub
  pipes : List Upstream
  xpubs : ℕ → Reader

namespace Exchange

def init : Exchange :=
  { xsub :=
      { subscriptions := Trie.empty, moreSend := false, processSubscribe := false,
        distMore := false }
    pipes := []
    xpubs := fun _ => Reader.init }

/-- `dist_t::send_to_all`. -/
def sendToAll (x : Exchange) (m : Msg) : Exchange :=
  { x with
    xsub := { x.xsub with distMore := Part.isMore m }
    pipes := x.pipes.map (Upstream.distribute m) }

/-- No option sets `_verbose_unsubs` of an XSUB socket. -/
def verboseUnsubs : Bool := false

def xsend (x : Exchange) (m : Msg) : Option Exchange :=
  let firstPart := !x.xsub.moreSend
  let processSubscribe := firstPart || x.xsub.processSubscribe
  let xsub := { x.xsub with
    moreSend := Part.isMore m, processSubscribe := processSubscribe }
  if !firstPart && !processSubscribe then some ({ x with xsub := xsub }.sendToAll m)
  else
    match Part.xsubRequest m with
    | some (.subscribe topic) => do
        let (subscriptions, _) ← xsub.subscriptions.add topic
        return ({ x with xsub := { xsub with
          subscriptions := subscriptions, processSubscribe := true } }.sendToAll m)
    | some (.cancel topic) => do
        let (subscriptions, removed) ← xsub.subscriptions.rm topic
        let x := { x with xsub := { xsub with
          subscriptions := subscriptions, processSubscribe := true } }
        if removed || verboseUnsubs then return x.sendToAll m
        else return x
    | none => some ({ x with xsub := xsub }.sendToAll m)

/-- `xattach_pipe`: the new pipe is sent all subscriptions. `fuel` bounds the walk
through the trie. -/
def xattachPipe (x : Exchange) (fuel : ℕ) : Option Exchange := do
  let prefixes ← x.xsub.subscriptions.apply fuel
  return { x with pipes := x.pipes ++
    [{ active := !x.xsub.distMore, queue := prefixes.map Part.subscription,
       opened := [], held := ∅ }] }

/-- `xread_activated` of the XPUB socket at the other end of a pipe. -/
def xreadActivated (peer : ℕ → ℕ) (x : Exchange) (i : ℕ) : Exchange :=
  match x.pipes[i]? with
  | none => x
  | some w =>
    let (reader, held) := Reader.drain (x.xpubs (peer i), w.held) w.queue
    { x with
      pipes := x.pipes.set i { w with queue := [], held := held }
      xpubs := Function.update x.xpubs (peer i) reader }

inductive Event where
  | send (m : Msg)
  | attach (fuel : ℕ)
  | read (pipe : ℕ)

/-- One step; `peer` says which XPUB socket a pipe leads to. -/
def step (peer : ℕ → ℕ) (x : Exchange) : Event → Option Exchange
  | .send m => x.xsend m
  | .attach fuel => x.xattachPipe fuel
  | .read i => some (x.xreadActivated peer i)

end Exchange

end Subscription

end Zlink
