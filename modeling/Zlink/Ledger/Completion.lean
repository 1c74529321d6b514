import Zlink.Ledger.Direction
import Zlink.Lib.Trace
import Zlink.Protocol.Wire

/-!
# The completion lane

The writer of a completion pipe posts each frame to the ledger of its direction before the
frame enters the queue, and the reader releases a frame after it has taken it out. The two
ends interleave between these steps. A rollback, a hiccup and the end of the reader discard
frames and post their bytes back.
-/

namespace Zlink.Ledger

open Word64 AutoHwm Protocol

structure Frame where
  flags : UInt8
  size : UInt64

namespace Frame

def more (frame : Frame) : Bool :=
  hasAny frame.flags Msg.more

/-- `sizeof (msg_t)`. -/
def metadataBytes : UInt64 := 64

/-- `frame_accounted_bytes` of a message that is not the delimiter. -/
def accountedBytes (frame : Frame) : UInt64 :=
  if maxWord - frame.size < metadataBytes then maxWord else frame.size + metadataBytes

/-- `counted_pending_message_ref`. -/
def countedPending (frame : Frame) : Bool :=
  !frame.more && !hasAny frame.flags Msg.routingId && !hasAny frame.flags Msg.credential

/-- The count of `release_committed_frame` for this frame. -/
def countedMessages (frame : Frame) : UInt64 :=
  if frame.countedPending then 1 else 0

end Frame

inductive Item where
  | frame (frame : Frame)
  | delimiter

def Item.frame? : Item → Option Frame
  | .frame value => some value
  | .delimiter => none

def frames (items : List Item) : List Frame :=
  items.filterMap Item.frame?

/-- `decoder_frame_reservation_t`: what the decoder has announced. -/
structure Reservation where
  generation : UInt64
  frameBytes : UInt64
  payloadBytes : UInt64
  msgFlags : UInt8

def reservationOverflows (payloadBytes : UInt64) : Bool :=
  decide (maxWord - payloadBytes < Frame.metadataBytes)

/-- `reserve_decoder_frame` on the completion lane, in some earlier generation. -/
def reserveDecoderFrame (generation payloadBytes : UInt64) (msgFlags : UInt8) : Reservation where
  generation := generation
  frameBytes := payloadBytes + Frame.metadataBytes
  payloadBytes := payloadBytes
  msgFlags := msgFlags

/-- `ETERM` where the transport has changed, `EPROTO` where the frame is not the announced one. -/
def Reservation.refused (reservation : Reservation) (direction : Direction) (frame : Frame) :
    Bool :=
  reservation.generation != direction.generation ||
    reservation.payloadBytes != frame.size || reservation.msgFlags != frame.flags

namespace Direction

/-- `commit_decoder_frame` of a reservation that is not refused. -/
def commitDecoderFrame (reservation : Reservation) (provisionalFrameBytes : UInt64)
    (countedMessage : Bool) : Operation := fun direction metrics =>
  if accountingLane direction.lane = .application then some (direction, metrics)
  else if hasAny reservation.msgFlags Msg.more then
    let provisional := saturatingAdd direction.provisionalAccountedBytes reservation.frameBytes
      metrics.aggregateOverflow
    some ({ direction with provisionalAccountedBytes := provisional.1 },
      { metrics with aggregateOverflow := provisional.2 })
  else
    (commitBytes provisionalFrameBytes reservation.frameBytes direction metrics).bind fun next =>
      countPending countedMessage next.1 next.2

def releaseFrames : List Frame → Operation
  | [], direction, metrics => some (direction, metrics)
  | frame :: rest, direction, metrics =>
    (releaseCommittedFrame frame.accountedBytes frame.countedMessages direction metrics).bind
      fun next => releaseFrames rest next.1 next.2

end Direction

structure Completion where
  direction : Direction
  metrics : Metrics
  /-- `_state == active` at the writer. -/
  active : Bool
  /-- `_out_pipe` is there. -/
  attached : Bool
  outIncompleteBytes : UInt64
  outIncompletePayloadBytes : UInt64
  /-- The frames of the open multipart. -/
  opened : List Frame
  /-- Complete messages that the writer has not flushed. -/
  complete : List Item
  flushed : List Item
  /-- The frame that the ledger knows and the queue does not know yet. -/
  publishing : Option Frame
  /-- The frame that the reader has taken and not released yet. -/
  releasing : Option Frame
  /-- The queues that the reader has put in place and the writer has not taken over. -/
  hiccups : ℕ
  /-- The reader's end of the queue is there. -/
  reading : Bool

inductive Completion.Event where
  /-- `write_message_unlocked` up to the ledger; `admitted` is what the credit says. -/
  | write (frame : Frame) (maxMessageBytes : UInt64) (admitted : Bool)
  /-- `write_reserved_decoder_frame` up to the ledger. -/
  | writeReserved (frame : Frame) (generation payloadBytes : UInt64) (msgFlags : UInt8)
  /-- A peer control of `append_pending_peer_controls_unlocked` up to the ledger. -/
  | control (size : UInt64)
  | publish
  | flush
  | rollback
  | terminate
  /-- The writer gives up the queue. -/
  | detach
  | hiccup
  | processHiccup
  | read
  | release
  | cleanupInboundPipe

namespace Completion

def init (queueId minimumReservationBytes : UInt64) : Completion where
  direction := Direction.new queueId 0 .completion minimumReservationBytes
  metrics := Metrics.init
  active := true
  attached := true
  outIncompleteBytes := 0
  outIncompletePayloadBytes := 0
  opened := []
  complete := []
  flushed := []
  publishing := none
  releasing := none
  hiccups := 0
  reading := true

variable (s : Completion)

def post (operation : Direction.Operation) : Option Completion :=
  (operation s.direction s.metrics).map fun next =>
    { s with direction := next.1, metrics := next.2 }

/-- `append_outbound_frame_bytes_unlocked` and the count of the payload: the frame is too large
to be counted with the record in progress. -/
def appendOverflows (frame : Frame) : Bool :=
  frame.accountedBytes == maxWord ||
    decide (maxWord - s.outIncompleteBytes < frame.accountedBytes) ||
      decide (maxWord - s.outIncompletePayloadBytes < frame.size)

def charged (frame : Frame) (operation : Direction.Operation) : Option Completion :=
  { s with
    outIncompleteBytes := s.outIncompleteBytes + frame.accountedBytes
    outIncompletePayloadBytes := s.outIncompletePayloadBytes + frame.size
    publishing := some frame }.post operation

def write (frame : Frame) (maxMessageBytes : UInt64) (admitted : Bool) : Option Completion :=
  if s.appendOverflows frame || !admitted || (maxMessageBytes != 0 &&
        decide (maxMessageBytes < s.outIncompletePayloadBytes + frame.size)) then some s
  else if frame.more then
    s.charged frame (Direction.accountProvisionalFrame frame.accountedBytes)
  else
    -- The lane has no mark, so that no admission goes beyond it.
    s.charged frame (Direction.commitMessage s.outIncompleteBytes frame.accountedBytes
      frame.countedPending false)

def writeReserved (frame : Frame) (reservation : Reservation) : Option Completion :=
  if s.appendOverflows frame || reservation.refused s.direction frame then some s
  else
    s.charged frame
      (Direction.commitDecoderFrame reservation s.outIncompleteBytes frame.countedPending)

def control (size : UInt64) : Option Completion :=
  let frame : Frame := { flags := Msg.command, size }
  if s.outIncompleteBytes ≠ 0 ∨ s.outIncompletePayloadBytes ≠ 0 then some s
  else
    { s with publishing := some frame }.post
      (Direction.commitMessage 0 frame.accountedBytes frame.countedPending false)

/-- The frame of the ledger enters the queue; the last one completes its message. -/
def publish : Completion :=
  match s.publishing with
  | none => s
  | some frame =>
    if frame.more then { s with opened := s.opened ++ [frame], publishing := none }
    else
      { s with
        complete := s.complete ++ (s.opened ++ [frame]).map Item.frame
        opened := []
        outIncompleteBytes := 0
        outIncompletePayloadBytes := 0
        publishing := none }

def flush : Completion :=
  { s with flushed := s.flushed ++ s.complete, complete := [] }

/-- `rollback_unlocked`: unwrite the open multipart and take its bytes back. -/
def rollback : Option Completion :=
  { s with opened := [], outIncompleteBytes := 0, outIncompletePayloadBytes := 0 }.post
    (Direction.rollbackProvisional s.outIncompleteBytes)

def terminate : Option Completion :=
  if s.attached then
    s.rollback.map fun s =>
      { s with active := false, complete := s.complete ++ [Item.delimiter] }.flush
  else some { s with active := false }

/-- `process_hiccup`: flush the old queue, release what is in it, and roll back. -/
def processHiccup : Option Completion := do
  let s ← { s with complete := [], flushed := [] }.post
    (Direction.releaseFrames (frames (s.flushed ++ s.complete)))
  let s ← s.rollback
  some { s with hiccups := s.hiccups - 1 }

def read (s : Completion) : Completion :=
  match s.flushed with
  | [] => s
  | .delimiter :: rest => { s with flushed := rest }
  | .frame frame :: rest => { s with flushed := rest, releasing := some frame }

def release : Option Completion :=
  match s.releasing with
  | none => some s
  | some frame =>
    { s with releasing := none }.post
      (Direction.releaseCommittedFrame frame.accountedBytes frame.countedMessages)

/-- `cleanup_inbound_pipe`: only what was flushed can be read and released. -/
def cleanupInboundPipe : Option Completion :=
  { s with flushed := [], reading := false }.post (Direction.releaseFrames (frames s.flushed))

def writerIdle : Bool :=
  s.publishing.isNone

def readerIdle : Bool :=
  s.releasing.isNone && s.reading

def writable : Bool :=
  s.writerIdle && s.active && s.attached

/-- An event that its party cannot make now changes nothing. -/
def guarded (enabled : Bool) (next : Option Completion) : Option Completion :=
  if enabled then next else some s

def step : Event → Option Completion
  | .write frame maxMessageBytes admitted =>
    s.guarded s.writable (s.write frame maxMessageBytes admitted)
  | .writeReserved frame generation payloadBytes msgFlags =>
    s.guarded (s.writable && !reservationOverflows payloadBytes)
      (s.writeReserved frame (reserveDecoderFrame generation payloadBytes msgFlags))
  | .control size => s.guarded s.writable (s.control size)
  | .publish => some s.publish
  | .flush => s.guarded (s.writerIdle && s.attached) (some s.flush)
  | .rollback => s.guarded s.writerIdle s.rollback
  | .terminate => s.guarded s.writerIdle s.terminate
  | .detach => s.guarded s.writerIdle (some { s with active := false, attached := false })
  | .hiccup =>
    s.guarded s.readerIdle
      (some { s with hiccups := s.hiccups + 1, direction := s.direction.advanceGeneration })
  | .processHiccup => s.guarded (s.writerIdle && s.attached && s.hiccups != 0) s.processHiccup
  -- The reader finds nothing in a queue that the writer has not taken over.
  | .read => s.guarded (s.readerIdle && s.hiccups == 0) (some s.read)
  | .release => s.release
  | .cleanupInboundPipe =>
    s.guarded (s.readerIdle && !s.attached && s.hiccups == 0) s.cleanupInboundPipe

end Completion

end Zlink.Ledger
