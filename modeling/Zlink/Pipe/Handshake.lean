import Zlink.Lib.Trace
import Zlink.Pipe.Writer

/-!
# The two ends of a pipe and how they take leave of each other

`pipepair` makes two `pipe_t` objects, each the reader of one queue and the writer of
the other. Either may be told to `terminate`; it then sends `pipe_term` to its peer and
puts a delimiter behind the frames it has written. Commands travel through a mailbox,
frames through the queue, and nothing orders the one against the other.

The outbound lock serialises what one end does. `terminate` sends its command before
it writes the delimiter, so the peer may answer in between: the two halves are two
events here, and the end is `locked` from the one to the other.
-/

namespace Zlink

open Protocol

namespace Pipe

namespace Handshake

inductive Side where
  | first
  | second
  deriving DecidableEq

def Side.peer : Side → Side
  | .first => .second
  | .second => .first

inductive Command where
  | pipeTerm
  | pipeTermAck
  deriving DecidableEq

/-- One `pipe_t`, as far as termination reads and writes it. `outOpen` and `linked` say
that `_out_pipe` and `_peer` are not null. `inPipe` is the queue it reads, as its peer
has filled it, and `taken` the frames it has taken from that queue. `delimiterRead` says
that its reader holds a delimiter and has not come to `process_delimiter` yet. `asked`,
`termAcks` and `finished` record that `terminate` was called, the acknowledgements it
has sent and how often `pipe_terminated` was reported. -/
structure Endpoint where
  state : LifecycleState
  delay : Bool
  outOpen : Bool
  linked : Bool
  locked : Bool
  inPipe : OutPipe
  taken : ℕ
  delimiterRead : Bool
  mailbox : List Command
  asked : Bool
  termAcks : ℕ
  finished : ℕ

namespace Endpoint

def init (delay : Bool) : Endpoint :=
  { state := .active, delay := delay, outOpen := true, linked := true,
    locked := false, inPipe := OutPipe.empty, taken := 0, delimiterRead := false,
    mailbox := [], asked := false, termAcks := 0, finished := 0 }

def unread (e : Endpoint) : List Frame :=
  e.inPipe.committed.drop e.taken

def head (e : Endpoint) : Option Frame :=
  e.inPipe.flushed[e.taken]?

end Endpoint

structure Ends where
  me : Endpoint
  peer : Endpoint

namespace Ends

variable (x : Ends)

/-- `send_pipe_command`: the destination must be there, and a peer whose lifetime has
ended takes no command. -/
def send (c : Command) : Option Ends :=
  if !x.me.linked then none
  else if 0 < x.peer.finished then some x
  else some { x with peer := { x.peer with mailbox := x.peer.mailbox ++ [c] } }

def sendPipeTerm : Option Ends :=
  x.send .pipeTerm

def sendPipeTermAck : Option Ends :=
  { x with me := { x.me with termAcks := x.me.termAcks + 1 } }.send .pipeTermAck

def transitionToInactiveState (state : LifecycleState) : Ends :=
  { x with me := { x.me with state := state } }

/-- `_out_pipe = NULL`. -/
def closeOut : Ends :=
  { x with me := { x.me with outOpen := false } }

/-- Take back the frames of the record in progress. -/
def rollback : Ends :=
  if x.me.outOpen then
    { x with peer := { x.peer with inPipe := x.peer.inPipe.unwriteAll } }
  else x

def acknowledgePeerTermination (state : LifecycleState) : Option Ends :=
  (x.transitionToInactiveState state).closeOut.sendPipeTermAck

/-- What `set_nodelay`, `terminate` and `process_delimiter` do to an end that waits for
a delimiter no longer. -/
def concludeWaiting : Option Ends := do
  let x ← x.rollback.closeOut.sendPipeTermAck
  return x.transitionToInactiveState .termAckSent

/-- `read_if` with `consume_if_delimiter`: a delimiter at the head is taken, any other
frame is left where it is. -/
def consumeDelimiter : Bool × Ends :=
  match x.me.head with
  | none => (false, x)
  | some .delimiter => (false, { x with me := { x.me with taken := x.me.taken + 1 } })
  | some (.data _) => (true, x)

def processPipeTerm : Option Ends :=
  match x.me.state with
  | .waitingForDelimiter => some x
  | .termAckSent => x.sendPipeTermAck
  | .termReqSent2 => x.sendPipeTermAck
  | .active =>
    let (pendingToRead, x) := x.consumeDelimiter
    if x.me.delay && pendingToRead then
      some (x.transitionToInactiveState .waitingForDelimiter)
    else x.acknowledgePeerTermination .termAckSent
  | .delimiterReceived => x.acknowledgePeerTermination .termAckSent
  | .termReqSent1 => x.acknowledgePeerTermination .termReqSent2

/-- `detach_peer_link`: each end forgets the other. -/
def detachPeerLink : Ends :=
  if x.me.linked then
    { me := { x.me with linked := false }, peer := { x.peer with linked := false } }
  else x

def processPipeTermAck : Option Ends :=
  match x.me.state with
  | .termReqSent1 =>
    -- The link is gone by the time of the answer: it goes to the peer found on it.
    if !x.me.linked || 0 < x.peer.finished then none
    else
      let x := x.closeOut.detachPeerLink
      some
        { me := { x.me with
            termAcks := x.me.termAcks + 1, finished := x.me.finished + 1 }
          peer := { x.peer with mailbox := x.peer.mailbox ++ [.pipeTermAck] } }
  | .termAckSent | .termReqSent2 =>
    let x := x.detachPeerLink
    some { x with me := { x.me with finished := x.me.finished + 1 } }
  | _ => none

/-- `_delay = false`. -/
def undelay : Ends :=
  { x with me := { x.me with delay := false } }

def setNodelay : Option Ends :=
  if x.me.state = .waitingForDelimiter then x.undelay.concludeWaiting
  else some x.undelay

/-- The outbound lock stays with `terminate` until the delimiter is written. -/
def lock : Ends :=
  { x with me := { x.me with locked := true } }

/-- `terminate` is called, and overloads the delay. -/
def told (delay : Bool) : Ends :=
  { x with me := { x.me with delay := delay, asked := true } }

/-- `terminate` until it has sent its command. -/
def terminate (delay : Bool) : Option Ends :=
  match x.me.state with
  | .termReqSent1 => some (x.told delay)
  | .termReqSent2 => some (x.told delay)
  | .termAckSent => some (x.told delay)
  | .active => do
      let x ← (x.told delay).sendPipeTerm
      return (x.transitionToInactiveState .termReqSent1).lock
  | .waitingForDelimiter =>
    if !delay then do
      let x ← (x.told delay).concludeWaiting
      return x.lock
    else some (x.told delay).lock
  | .delimiterReceived => do
      let x ← (x.told delay).sendPipeTerm
      return (x.transitionToInactiveState .termReqSent1).lock

/-- The end of `terminate`: the delimiter goes behind the frames of complete records. -/
def delimit : Ends :=
  let x : Ends := { x with me := { x.me with locked := false } }
  if x.me.outOpen then
    let q := x.rollback.peer.inPipe.write .delimiter false
    let q := if x.me.state = .termAckSent then q else q.flush
    { x with peer := { x.peer with inPipe := q } }
  else x

def processDelimiter : Option Ends :=
  match x.me.state with
  | .termReqSent1 => some x
  | .termReqSent2 => some x
  | .termAckSent => some x
  | .active => some (x.transitionToInactiveState .delimiterReceived)
  | .waitingForDelimiter => x.concludeWaiting
  | .delimiterReceived => none

/-- The reader takes the next frame. -/
def read (x : Ends) : Ends :=
  if x.me.state ≠ .active ∧ x.me.state ≠ .waitingForDelimiter then x
  else
    match x.me.head with
    | none => x
    | some f =>
      { x with me := { x.me with
          taken := x.me.taken + 1, delimiterRead := f.isDelimiter } }

def write (x : Ends) (msg : Msg) : Ends :=
  if x.me.state = .active ∧ x.me.outOpen = true then
    { x with peer := { x.peer with
        inPipe := x.peer.inPipe.write (.data msg) (Frame.data msg).more } }
  else x

def flush (x : Ends) : Ends :=
  if x.me.state ≠ .termAckSent ∧ x.me.outOpen = true then
    { x with peer := { x.peer with inPipe := x.peer.inPipe.flush } }
  else x

end Ends

inductive Action where
  | write (msg : Msg)
  | flush
  | read
  | processDelimiter
  | deliver
  | terminate (delay : Bool)
  | delimit
  | setNodelay

namespace Ends

def deliver (x : Ends) : Option Ends :=
  match x.me.mailbox with
  | [] => some x
  | c :: cs =>
    let x : Ends := { x with me := { x.me with mailbox := cs } }
    match c with
    | .pipeTerm => x.processPipeTerm
    | .pipeTermAck => x.processPipeTermAck

def underLock (x : Ends) (op : Option Ends) : Option Ends :=
  if x.me.locked then some x else op

/-- One action of an end; `none` is a failed assertion. A reader that holds a delimiter
processes it before it reads on. -/
def act (x : Ends) : Action → Option Ends
  | .write msg => x.underLock (some (x.write msg))
  | .flush => x.underLock (some x.flush)
  | .read => some (if x.me.delimiterRead then x else x.read)
  | .processDelimiter =>
    x.underLock (if x.me.delimiterRead then
        { x with me := { x.me with delimiterRead := false } }.processDelimiter
      else some x)
  | .deliver => x.underLock x.deliver
  | .terminate delay => x.underLock (x.terminate delay)
  | .delimit => some (if x.me.locked then x.delimit else x)
  | .setNodelay => x.underLock x.setNodelay

end Ends

abbrev Pair := Side → Endpoint

namespace Pair

def init (delay : Side → Bool) : Pair :=
  fun s => Endpoint.init (delay s)

def ends (x : Pair) (s : Side) : Ends :=
  { me := x s, peer := x s.peer }

/-- The pair in which the ends, seen from `s`, are these. -/
def ofEnds (s : Side) (x : Ends) : Pair :=
  fun t => if t = s then x.me else x.peer

def step (x : Pair) (e : Side × Action) : Option Pair :=
  ((x.ends e.1).act e.2).map (ofEnds e.1)

end Pair

end Handshake

end Pipe

end Zlink
