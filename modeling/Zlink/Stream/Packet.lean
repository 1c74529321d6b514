import Zlink.Lib.Loop
import Zlink.Stream.Grammar

/-!
# The packet parser of a stream socket

`decodePacketBytes` reads one raw chunk of a pipe from an offset on. A packet that lies in
the chunk as a whole is cut out at once; any other goes through the stages of the pipe's
packet state, which outlives the chunk. The parser stops inside the chunk when the receive
queue is at its limit, and ends the pipe when a packet is oversize.
-/

namespace Zlink.Stream

open Protocol Delimited

inductive Stage where
  | prefixStage
  | headerStage
  | bodyStage
  deriving DecidableEq

inductive Storage where
  | separateStorage
  | coalescedStorage

structure PacketState where
  stage : Stage
  storage : Storage
  prefixBytes : List UInt8
  prefixUsed : ℕ
  headerSize : ℕ
  bodySize : ℕ
  headerUsed : ℕ
  bodyUsed : ℕ
  header : List UInt8
  body : List UInt8

def PacketState.init : PacketState where
  stage := .prefixStage
  storage := .separateStorage
  prefixBytes := List.replicate prefixSize 0
  prefixUsed := 0
  headerSize := 0
  bodySize := 0
  headerUsed := 0
  bodyUsed := 0
  header := []
  body := []

def PacketState.reset (state : PacketState) : PacketState :=
  { PacketState.init with prefixBytes := state.prefixBytes }

def memcpy (buffer : List UInt8) (position : ℕ) (source : List UInt8) : List UInt8 :=
  buffer.take position ++ source ++ buffer.drop (position + source.length)

/-- The largest message that is stored inside a `msg_t`. -/
def maxVsmSize : ℕ := 29

def PacketState.allocate (state : PacketState) : PacketState :=
  if maxVsmSize < state.headerSize ∧ maxVsmSize < state.bodySize then
    { state with
      storage := .coalescedStorage
      header := List.replicate (state.headerSize + state.bodySize) 0 }
  else
    { state with
      header := List.replicate state.headerSize 0
      body := List.replicate state.bodySize 0 }

/-- One packet of the receive queue. `source` is the pipe that it was read from. -/
structure Record (Pipe : Type) where
  source : Pipe
  sourceRid : UInt32
  accountedBytes : ℕ
  header : List UInt8
  body : List UInt8

def Record.packet {Pipe : Type} (record : Record Pipe) : Packet where
  header := record.header
  body := record.body

structure ReceiveQueue (Pipe : Type) where
  records : List (Record Pipe)
  accountedBytes : ℕ

def uint64Max : ℕ := 2 ^ 64 - 1

/-- `sizeof (msg_t)`. -/
def metadataBytes : ℕ := 64

def frameAccountedBytes (payload : List UInt8) : ℕ :=
  if uint64Max - payload.length < metadataBytes then uint64Max
  else payload.length + metadataBytes

/-- A sum of two charges that stays at the largest value. -/
def saturatingAdd (a b : ℕ) : ℕ :=
  if a = uint64Max ∨ b = uint64Max ∨ uint64Max - a < b then uint64Max else a + b

variable {Pipe : Type}

structure Call (Pipe : Type) where
  maxmsgsize : ℤ
  rcvhwm : ℕ
  source : Pipe
  sourceRid : UInt32
  payload : List UInt8

namespace Call

variable (call : Call Pipe)

def packetQueueAtLimit (queue : ReceiveQueue Pipe) : Prop :=
  call.rcvhwm ≠ 0 ∧ call.rcvhwm ≤ queue.accountedBytes

instance (queue : ReceiveQueue Pipe) : Decidable (call.packetQueueAtLimit queue) :=
  inferInstanceAs (Decidable (_ ∧ _))

def record (packet : Packet) : Record Pipe where
  source := call.source
  sourceRid := call.sourceRid
  accountedBytes :=
    saturatingAdd (frameAccountedBytes packet.header) (frameAccountedBytes packet.body)
  header := packet.header
  body := packet.body

def enqueuePacket (packet : Packet) (queue : ReceiveQueue Pipe) : ReceiveQueue Pipe where
  records := queue.records ++ [call.record packet]
  accountedBytes := saturatingAdd queue.accountedBytes (call.record packet).accountedBytes

/-- The size of a packet that `maxmsgsize` allows. -/
def packetTotalSize (headerSize bodySize : ℕ) : Option ℕ :=
  if uint64Max - bodySize < headerSize then none
  else
    let totalSize := headerSize + bodySize
    let limit := if 0 < call.maxmsgsize then call.maxmsgsize.toNat else 0
    if limit ≠ 0 ∧ (limit < headerSize ∨ limit < bodySize ∨ limit < totalSize) then none
    else some totalSize

end Call

structure Cursor (Pipe : Type) where
  state : PacketState
  queue : ReceiveQueue Pipe
  offset : ℕ

/-- How a turn of the loop ends: the loop goes on, it is left because the queue is at its
limit, or the packet fails and the pipe with it. -/
inductive Turn (Pipe : Type) where
  | again (c : Cursor Pipe)
  | leave (c : Cursor Pipe)
  | fail (c : Cursor Pipe)

namespace Call

variable (call : Call Pipe)

def toCopy (offset room : ℕ) : List UInt8 :=
  (call.payload.drop offset).take room

variable (c : Cursor Pipe)

def failPacket : Turn Pipe :=
  .fail { c with state := c.state.reset }

def enqueueParts (packet : Packet) (c : Cursor Pipe) : Turn Pipe :=
  let queue := call.enqueuePacket packet c.queue
  if call.packetQueueAtLimit queue then .leave { c with queue } else .again { c with queue }

variable (state : PacketState)

def completedPacket : Packet :=
  match state.storage with
  | .coalescedStorage =>
    { header := state.header.take state.headerSize
      body := (state.header.drop state.headerSize).take state.bodySize }
  | .separateStorage => { header := state.header, body := state.body }

def enqueueCompletedState : Turn Pipe :=
  call.enqueueParts (completedPacket c.state) { c with state := c.state.reset }

def copyBody : Cursor Pipe :=
  let source := call.toCopy c.offset (c.state.bodySize - c.state.bodyUsed)
  let state :=
    match c.state.storage with
    | .coalescedStorage =>
      { c.state with
        header := memcpy c.state.header (c.state.headerSize + c.state.bodyUsed) source }
    | .separateStorage =>
      { c.state with body := memcpy c.state.body c.state.bodyUsed source }
  { c with
    state := { state with bodyUsed := state.bodyUsed + source.length }
    offset := c.offset + source.length }

def bodyTurn : Turn Pipe :=
  let c := call.copyBody c
  if c.state.bodyUsed < c.state.bodySize then .again c else call.enqueueCompletedState c

def copyHeader : Cursor Pipe :=
  let source := call.toCopy c.offset (c.state.headerSize - c.state.headerUsed)
  { c with
    state :=
      { c.state with
        header := memcpy c.state.header c.state.headerUsed source
        headerUsed := c.state.headerUsed + source.length }
    offset := c.offset + source.length }

def enterBody : PacketState :=
  { state with stage := .bodyStage }

def headerTurn : Turn Pipe :=
  let c := call.copyHeader c
  if c.state.headerUsed < c.state.headerSize then .again c
  else call.bodyTurn { c with state := enterBody c.state }

def partsTurn : Turn Pipe :=
  match c.state.stage with
  | .prefixStage => .again c
  | .headerStage => call.headerTurn c
  | .bodyStage => call.bodyTurn c

def copyPrefix : Cursor Pipe :=
  let source := call.toCopy c.offset (prefixSize - c.state.prefixUsed)
  { c with
    state :=
      { c.state with
        prefixBytes := memcpy c.state.prefixBytes c.state.prefixUsed source
        prefixUsed := c.state.prefixUsed + source.length }
    offset := c.offset + source.length }

def begin : PacketState :=
  { state.allocate with
    headerUsed := 0
    bodyUsed := 0
    stage := if state.headerSize = 0 then .bodyStage else .headerStage }

def beginTurn : Turn Pipe :=
  match call.packetTotalSize c.state.headerSize c.state.bodySize with
  | none => failPacket c
  | some _ =>
    if c.state.headerSize = 0 ∧ c.state.bodySize = 0 then
      call.enqueueCompletedState { c with state := begin c.state }
    else call.partsTurn { c with state := begin c.state }

def readSizes : PacketState :=
  { state with
    headerSize := headerLength state.prefixBytes
    bodySize := bodyLength state.prefixBytes }

def prefixTurn : Turn Pipe :=
  let c := call.copyPrefix c
  if c.state.prefixUsed < prefixSize then .again c
  else call.beginTurn { c with state := readSizes c.state }

def incrementalTurn : Turn Pipe :=
  match c.state.stage with
  | .prefixStage => call.prefixTurn c
  | _ => call.partsTurn c

def wholeTurn : Option (Turn Pipe) :=
  if c.state.stage = .prefixStage ∧ c.state.prefixUsed = 0 then
    let available := call.payload.length - c.offset
    if prefixSize ≤ available then
      let headerSize := headerLength (call.payload.drop c.offset)
      let bodySize := bodyLength (call.payload.drop c.offset)
      match call.packetTotalSize headerSize bodySize with
      | none => some (failPacket c)
      | some _ =>
        if headerSize ≤ available - prefixSize ∧ bodySize ≤ available - prefixSize - headerSize then
          let headerOffset := c.offset + prefixSize
          let bodyOffset := headerOffset + headerSize
          some (call.enqueueParts
            { header := (call.payload.drop headerOffset).take headerSize
              body := (call.payload.drop bodyOffset).take bodySize }
            { c with offset := bodyOffset + bodySize })
        else none
    else none
  else none

def turn : Turn Pipe :=
  (call.wholeTurn c).getD (call.incrementalTurn c)

inductive Decoded (Pipe : Type) where
  | returned (c : Cursor Pipe)
  | failed (c : Cursor Pipe)
  | refused (c : Cursor Pipe)

def loopTurn (turn : Cursor Pipe → Turn Pipe) (c : Cursor Pipe) :
    Option (Cursor Pipe ⊕ Decoded Pipe) :=
  if c.offset < call.payload.length then
    match turn c with
    | .again c => some (.inl c)
    | .leave c => some (.inr (.returned c))
    | .fail c => some (.inr (.failed c))
  else some (.inr (.returned c))

/-- The parser with either kind of turn: every turn that goes on has read a byte. -/
def decodeWith (turn : Cursor Pipe → Turn Pipe) (c : Cursor Pipe) : Option (Decoded Pipe) :=
  if call.payload.length < c.offset then some (.refused c)
  else Loop.run (call.loopTurn turn) (call.payload.length + 1) c

def decodePacketBytes : Option (Decoded Pipe) :=
  call.decodeWith call.turn c

end Call

end Zlink.Stream
