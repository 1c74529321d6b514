import Mathlib.Logic.Function.Basic
import Zlink.Lib.Trace
import Zlink.Stream.Parsing

/-!
# The packet pump of a stream socket

A stream socket in packet mode hands raw chunks of its pipes to the parser whenever its
receive queue is empty, in the order in which the fair queue chooses the pipes. A chunk that
the parser leaves unfinished is kept with its offset and goes on first. `run_reference` says
that the packets of every pipe are the ones that the grammar reads in the bytes of the pipe.
-/

namespace Zlink.Stream

open Protocol Delimited

/-- A pipe as the socket sees it: its id, the chunks that wait in it, its packet state, and
whether reading from it has ended. -/
structure Source where
  rid : UInt32
  chunks : List (List UInt8)
  state : PacketState
  terminated : Bool

/-- A chunk that the parser has left at an offset. -/
structure PendingInput (Pipe : Type) where
  pipe : Pipe
  rid : UInt32
  input : List UInt8
  offset : ℕ

/-- The receive side of the socket. `received` are the packets that the application has taken
and `disconnects` the pipes of which a transport error was reported, both in order. -/
structure Socket (Pipe : Type) where
  rcvhwm : ℕ
  sources : Pipe → Source
  queue : ReceiveQueue Pipe
  pending : Option (PendingInput Pipe)
  received : List (Record Pipe)
  disconnects : List Pipe

inductive Event (Pipe : Type) where
  | arrives (pipe : Pipe) (chunk : List UInt8)
  | recvPacket (choices : List Pipe)
  | hasIn (choices : List Pipe)
  | close (pipe : Pipe)
  | pipeTerminated (pipe : Pipe)
  | setRcvhwm (value : ℕ)

namespace Socket

variable {Pipe : Type}

def init (rid : Pipe → UInt32) (rcvhwm : ℕ) : Socket Pipe where
  rcvhwm := rcvhwm
  sources pipe :=
    { rid := rid pipe, chunks := [], state := PacketState.init, terminated := false }
  queue := { records := [], accountedBytes := 0 }
  pending := none
  received := []
  disconnects := []

variable [DecidableEq Pipe] (maxmsgsize : ℤ)

variable (socket : Socket Pipe)

def setSource (pipe : Pipe) (source : Source) : Socket Pipe :=
  { socket with sources := Function.update socket.sources pipe source }

/-- `terminate` of the pipe and its removal from the active pipes of the fair queue. -/
def close (pipe : Pipe) : Socket Pipe :=
  socket.setSource pipe { socket.sources pipe with terminated := true }

/-- `xpipe_terminated`. -/
def pipeTerminated (pipe : Pipe) : Socket Pipe :=
  let source := socket.sources pipe
  { socket.setSource pipe { source with state := source.state.reset, terminated := true } with
    pending := socket.pending.filter fun pending => pending.pipe ≠ pipe }

def putBack (input : PendingInput Pipe) (c : Cursor Pipe)
    (pending : Option (PendingInput Pipe)) : Socket Pipe :=
  { socket.setSource input.pipe { socket.sources input.pipe with state := c.state } with
    queue := c.queue
    pending }

/-- What the pump makes of a call of the parser; the flag says whether its loop goes on. -/
def settle (socket : Socket Pipe) (input : PendingInput Pipe) :
    Call.Decoded Pipe → Bool × Socket Pipe
  | .returned c =>
    if c.offset < input.input.length then
      (false, socket.putBack input c (some { input with offset := c.offset }))
    else (true, socket.putBack input c none)
  | .failed c =>
    let source := socket.sources input.pipe
    (true,
      { socket.setSource input.pipe { source with state := c.state, terminated := true } with
        queue := c.queue
        pending := none
        disconnects := socket.disconnects ++ [input.pipe] })
  | .refused _ => (true, { socket with pending := none })

def call (input : PendingInput Pipe) : Call Pipe where
  maxmsgsize := maxmsgsize
  rcvhwm := socket.rcvhwm
  source := input.pipe
  sourceRid := input.rid
  payload := input.input

def pumpChunk (input : PendingInput Pipe) : Option (Bool × Socket Pipe) :=
  ((socket.call maxmsgsize input).decodePacketBytes
    { state := (socket.sources input.pipe).state
      queue := socket.queue
      offset := input.offset }).map (socket.settle input)

/-- `pump_packet_receive_queue` with the chunks that it may still take. The fair queue chooses
the pipes that are listed; it has nothing to read where there is no choice left, or the chosen
pipe is empty or closed. -/
def pump : ℕ → List Pipe → Socket Pipe → Option (Socket Pipe)
  | 0, _, socket => some socket
  | budget + 1, choices, socket =>
    if socket.queue.records ≠ [] then some socket
    else
      match socket.pending with
      | some input =>
        (socket.pumpChunk maxmsgsize input).bind fun (again, socket) =>
          if again then pump budget choices socket else some socket
      | none =>
        match choices with
        | [] => some socket
        | pipe :: choices =>
          let source := socket.sources pipe
          match source.chunks with
          | [] => some socket
          | chunk :: chunks =>
            if source.terminated then some socket
            else
              let socket := socket.setSource pipe { source with chunks }
              if source.rid = 0 then pump budget choices (socket.close pipe)
              else
                (socket.pumpChunk maxmsgsize
                  { pipe, rid := source.rid, input := chunk, offset := 0 }).bind
                  fun (again, socket) =>
                    if again then pump budget choices socket else some socket

def maxRawChunksPerPump : ℕ := 64

def refill (choices : List Pipe) (socket : Socket Pipe) : Option (Socket Pipe) :=
  if socket.queue.records = [] then socket.pump maxmsgsize maxRawChunksPerPump choices
  else some socket

def popPacket : Socket Pipe :=
  match socket.queue.records with
  | [] => socket
  | record :: records =>
    { socket with
      queue :=
        { records
          accountedBytes :=
            if socket.queue.accountedBytes ≤ record.accountedBytes then 0
            else socket.queue.accountedBytes - record.accountedBytes }
      received := socket.received ++ [record] }

def step : Event Pipe → Option (Socket Pipe)
  | .arrives pipe chunk =>
    let source := socket.sources pipe
    some (socket.setSource pipe { source with chunks := source.chunks ++ [chunk] })
  | .recvPacket choices => (socket.refill maxmsgsize choices).map popPacket
  | .hasIn choices => socket.refill maxmsgsize choices
  | .close pipe => some (socket.close pipe)
  | .pipeTerminated pipe => some (socket.pipeTerminated pipe)
  | .setRcvhwm value => some { socket with rcvhwm := value }

def produced (pipe : Pipe) : List Packet :=
  ((socket.received ++ socket.queue.records).filter fun record => record.source = pipe).map
    Record.packet

/-- What is left of the chunk that is kept, where it is of this pipe. -/
def rest (pipe : Pipe) : Option (List UInt8) :=
  socket.pending.bind fun input =>
    if input.pipe = pipe then some (input.input.drop input.offset) else none

def unread (pipe : Pipe) : List UInt8 :=
  (socket.rest pipe).getD [] ++ (socket.sources pipe).chunks.flatten

end Socket

/-- How the packets of a pipe stand to the bytes that have arrived in it: all of the bytes
that were taken are read, or reading has ended somewhere, or at an oversize packet. -/
inductive Standing (maxmsgsize : ℤ) (arrived : List UInt8) (produced : List Packet)
    (source : Source) (rest : Option (List UInt8)) (reported : Prop) : Prop
  | live (taken : List UInt8) (hreported : ¬ reported) (hsound : source.state.Sound maxmsgsize)
      (hparse : reference maxmsgsize taken = (produced, .tail source.state.held))
      (harrived : arrived = taken ++ (rest.getD [] ++ source.chunks.flatten))
  | ended (taken held : List UInt8) (hreported : ¬ reported)
      (hterminated : source.terminated = true) (hrest : rest = none)
      (hparse : reference maxmsgsize taken = (produced, .tail held))
      (harrived : taken <+: arrived)
  | reported (taken : List UInt8) (hreported : reported)
      (hterminated : source.terminated = true) (hrest : rest = none)
      (hparse : reference maxmsgsize taken = (produced, .bad .emsgsize))
      (harrived : taken <+: arrived)

theorem Standing.ends {maxmsgsize : ℤ} {arrived : List UInt8} {produced : List Packet}
    {source source' : Source} {rest : Option (List UInt8)} {reported : Prop}
    (h : Standing maxmsgsize arrived produced source rest reported)
    (hterminated : source'.terminated = true) :
    Standing maxmsgsize arrived produced source' none reported := by
  cases h with
  | live taken hreported _ hparse harrived =>
    exact .ended taken _ hreported hterminated rfl hparse (harrived ▸ List.prefix_append _ _)
  | ended taken held hreported _ _ hparse harrived =>
    exact .ended taken held hreported hterminated rfl hparse harrived
  | reported taken hreported _ _ hparse harrived =>
    exact .reported taken hreported hterminated rfl hparse harrived

namespace Socket

variable {Pipe : Type} [DecidableEq Pipe]

structure Kept (maxmsgsize : ℤ) (rid : Pipe → UInt32) (arrived : Pipe → List UInt8)
    (socket : Socket Pipe) : Prop where
  standing : ∀ pipe, Standing maxmsgsize (arrived pipe) (socket.produced pipe)
    (socket.sources pipe) (socket.rest pipe) (pipe ∈ socket.disconnects)
  pending : ∀ input, socket.pending = some input →
    input.offset ≤ input.input.length ∧ input.rid = rid input.pipe
  rids : ∀ pipe, (socket.sources pipe).rid = rid pipe
  records : ∀ record ∈ socket.received ++ socket.queue.records, record.sourceRid = rid record.source

variable {maxmsgsize : ℤ} {rid : Pipe → UInt32} {arrived : Pipe → List UInt8}
  {socket socket' : Socket Pipe} {pipe q : Pipe}

theorem kept_init (rid : Pipe → UInt32) (rcvhwm : ℕ) :
    (init rid rcvhwm).Kept maxmsgsize rid fun _ => [] where
  standing _ := .live [] (List.not_mem_nil) .init reference_nil rfl
  pending _ h := by cases h
  rids _ := rfl
  records _ h := by cases h

theorem setSource_other (h : q ≠ pipe) (source : Source) :
    (socket.setSource pipe source).sources q = socket.sources q :=
  Function.update_of_ne h ..

theorem setSource_self (source : Source) : (socket.setSource pipe source).sources pipe = source :=
  Function.update_self ..

theorem setSource_field {β : Type} (f : Source → β) {source : Source}
    (h : f source = f (socket.sources pipe)) :
    f ((socket.setSource pipe source).sources q) = f (socket.sources q) := by
  by_cases hq : q = pipe
  · rw [hq, setSource_self, h]
  · rw [setSource_other hq]

theorem rest_of_some {input : PendingInput Pipe} (h : socket.pending = some input) :
    socket.rest q = if input.pipe = q then some (input.input.drop input.offset) else none := by
  rw [rest, h]
  rfl

theorem rest_of_none (h : socket.pending = none) : socket.rest q = none := by
  rw [rest, h]
  rfl

theorem filter_record (call : Call Pipe) (packets : List Packet) :
    ((packets.map call.record).filter fun record => record.source = q).map Record.packet =
      if call.source = q then packets else [] := by
  induction packets with
  | nil =>
    split
    · rfl
    · rfl
  | cons packet packets ih =>
    by_cases hq : call.source = q
    · rw [if_pos hq] at ih ⊢
      rw [List.map_cons, List.filter_cons_of_pos (by simp [Call.record, hq]), List.map_cons, ih]
      rfl
    · rw [if_neg hq] at ih ⊢
      rw [List.map_cons, List.filter_cons_of_neg (by simp [Call.record, hq]), ih]

theorem produced_of_records {call : Call Pipe} {packets : List Packet}
    (hreceived : socket'.received = socket.received)
    (hrecords : socket'.queue.records = socket.queue.records ++ packets.map call.record) :
    socket'.produced q = socket.produced q ++ if call.source = q then packets else [] := by
  rw [produced, hreceived, hrecords, ← List.append_assoc, List.filter_append, List.map_append,
    filter_record]
  rfl

structure Handled (socket : Socket Pipe) (input : PendingInput Pipe) (packets : List Packet)
    (maxmsgsize : ℤ) (socket' : Socket Pipe) : Prop where
  received : socket'.received = socket.received
  records : socket'.queue.records =
    socket.queue.records ++ packets.map (socket.call maxmsgsize input).record
  others : ∀ q, q ≠ input.pipe → socket'.sources q = socket.sources q
  rid : (socket'.sources input.pipe).rid = (socket.sources input.pipe).rid
  chunks : (socket'.sources input.pipe).chunks = (socket.sources input.pipe).chunks
  pending : ∀ input', socket'.pending = some input' →
    input'.pipe = input.pipe ∧ input'.rid = input.rid ∧ input'.input = input.input
  disconnects : ∀ q, q ≠ input.pipe → (q ∈ socket'.disconnects ↔ q ∈ socket.disconnects)

variable {input : PendingInput Pipe} {packets : List Packet}

theorem Handled.kept (hhandled : socket.Handled input packets maxmsgsize socket')
    (h : ({ socket with pending := some input } : Socket Pipe).Kept maxmsgsize rid arrived)
    (hoffset : ∀ input', socket'.pending = some input' → input'.offset ≤ input'.input.length)
    (hstanding : Standing maxmsgsize (arrived input.pipe)
      (socket.produced input.pipe ++ packets) (socket'.sources input.pipe)
      (socket'.rest input.pipe) (input.pipe ∈ socket'.disconnects)) :
    socket'.Kept maxmsgsize rid arrived where
  standing q := by
    by_cases hq : q = input.pipe
    · subst hq
      have hproduced := @produced_of_records _ _ socket socket' input.pipe _ _
        hhandled.received hhandled.records
      rw [if_pos (show (socket.call maxmsgsize input).source = input.pipe from rfl)] at hproduced
      rw [hproduced]
      exact hstanding
    · have hproduced := @produced_of_records _ _ socket socket' q _ _ hhandled.received
        hhandled.records
      rw [if_neg (show ¬ (socket.call maxmsgsize input).source = q from fun hp => hq hp.symm),
        List.append_nil] at hproduced
      have hrest : socket'.rest q = none := by
        cases hpending : socket'.pending with
        | none => exact rest_of_none hpending
        | some input' =>
          rw [rest_of_some hpending, (hhandled.pending input' hpending).1,
            if_neg fun hp => hq hp.symm]
      have hold := h.standing q
      rw [@rest_of_some _ _ { socket with pending := some input } q input rfl,
        if_neg fun hp => hq hp.symm] at hold
      rw [hproduced, hrest, hhandled.others q hq, propext (hhandled.disconnects q hq)]
      exact hold
  pending input' hpending := by
    obtain ⟨hpipe, hrid, -⟩ := hhandled.pending input' hpending
    refine ⟨hoffset input' hpending, ?_⟩
    rw [hrid, hpipe]
    exact (h.pending input rfl).2
  rids q := by
    by_cases hq : q = input.pipe
    · rw [hq, hhandled.rid]
      exact h.rids _
    · rw [hhandled.others q hq]
      exact h.rids q
  records record hmem := by
    rw [hhandled.received, hhandled.records, ← List.append_assoc, List.mem_append] at hmem
    rcases hmem with hold | hnew
    · exact h.records record hold
    · obtain ⟨packet, -, rfl⟩ := List.mem_map.mp hnew
      exact (h.pending input rfl).2

theorem Kept.live
    (h : ({ socket with pending := some input } : Socket Pipe).Kept maxmsgsize rid arrived) :
    ∃ taken, input.pipe ∉ socket.disconnects ∧ (socket.sources input.pipe).state.Sound maxmsgsize ∧
      reference maxmsgsize taken =
        (socket.produced input.pipe, .tail (socket.sources input.pipe).state.held) ∧
      arrived input.pipe = taken ++ (input.input.drop input.offset ++
        (socket.sources input.pipe).chunks.flatten) := by
  have hrest : ({ socket with pending := some input } : Socket Pipe).rest input.pipe =
      some (input.input.drop input.offset) := by
    rw [rest_of_some rfl, if_pos rfl]
  have hstanding := h.standing input.pipe
  rw [hrest] at hstanding
  cases hstanding with
  | live taken hreported hsound hparse harrived =>
    exact ⟨taken, hreported, hsound, hparse, harrived⟩
  | ended _ _ _ _ hnone | reported _ _ _ hnone => cases hnone

theorem kept_returned {c : Cursor Pipe}
    (h : ({ socket with pending := some input } : Socket Pipe).Kept maxmsgsize rid arrived)
    (hreads : (socket.call maxmsgsize input).Reads
      { state := (socket.sources input.pipe).state, queue := socket.queue, offset := input.offset }
      c packets) : (socket.settle input (.returned c)).2.Kept maxmsgsize rid arrived := by
  obtain ⟨taken, hreported, -, hparse, harrived⟩ := h.live
  have hbound : c.offset ≤ input.input.length := hreads.bound
  have hsplit : input.input.drop input.offset =
      (socket.call maxmsgsize input).segment input.offset c.offset ++ input.input.drop c.offset :=
    (@Call.segment_append_drop _ (socket.call maxmsgsize input) _ _ hreads.forward).symm
  have hlive : ∀ rest : Option (List UInt8), rest.getD [] = input.input.drop c.offset →
      Standing maxmsgsize (arrived input.pipe) (socket.produced input.pipe ++ packets)
        { socket.sources input.pipe with state := c.state } rest
        (input.pipe ∈ socket.disconnects) := by
    intro rest hrest
    apply Standing.live (taken ++ (socket.call maxmsgsize input).segment input.offset c.offset)
      hreported hreads.sound
    · exact Format.parse_extend hparse hreads.parse
    · rw [hrest, harrived, hsplit, List.append_assoc, List.append_assoc]
  have hhandled : ∀ pending : Option (PendingInput Pipe), (∀ input', pending = some input' →
        input'.pipe = input.pipe ∧ input'.rid = input.rid ∧ input'.input = input.input) →
      socket.Handled input packets maxmsgsize (socket.putBack input c pending) := by
    intro pending hpending
    refine ⟨rfl, hreads.records, fun q hq => setSource_other hq _, ?_, ?_, hpending,
      fun q _ => Iff.rfl⟩
    all_goals simp only [putBack, setSource, Function.update_self]
  rw [settle]
  split
  · refine (hhandled _ ?_).kept h ?_ ?_
    · rintro input' ⟨⟩
      exact ⟨rfl, rfl, rfl⟩
    · rintro input' ⟨⟩
      exact hbound
    · simp only [putBack, setSource, Function.update_self]
      apply hlive
      rw [rest_of_some rfl, if_pos rfl]
      rfl
  · rename_i hge
    refine (hhandled _ ?_).kept h ?_ ?_
    · rintro input' ⟨⟩
    · rintro input' ⟨⟩
    · simp only [putBack, setSource, Function.update_self]
      apply hlive
      rw [rest_of_none rfl, List.drop_of_length_le (Nat.not_lt.mp hge)]
      rfl

theorem kept_failed {c : Cursor Pipe}
    (h : ({ socket with pending := some input } : Socket Pipe).Kept maxmsgsize rid arrived)
    (hfails : (socket.call maxmsgsize input).Fails
      { state := (socket.sources input.pipe).state, queue := socket.queue, offset := input.offset }
      c packets) : (socket.settle input (.failed c)).2.Kept maxmsgsize rid arrived := by
  obtain ⟨taken, hreported, -, hparse, harrived⟩ := h.live
  have hhandled : socket.Handled input packets maxmsgsize (socket.settle input (.failed c)).2 := by
    refine ⟨rfl, hfails.records, fun q hq => setSource_other hq _, ?_, ?_, ?_, fun q hq => ?_⟩
    · simp only [settle, setSource, Function.update_self]
    · simp only [settle, setSource, Function.update_self]
    · rintro input' ⟨⟩
    · simp only [settle, setSource, List.mem_append, List.mem_singleton, hq, or_false]
  refine hhandled.kept h ?_ ?_
  · rintro input' ⟨⟩
  · apply Standing.reported (taken ++ input.input.drop input.offset)
    · simp only [settle, List.mem_append, List.mem_singleton, or_true]
    · simp only [settle, setSource, Function.update_self]
    · exact rest_of_none rfl
    · exact Delimited.Format.parse_extend hparse hfails.parse
    · rw [harrived, ← List.append_assoc]
      exact List.prefix_append _ _

/-- The parser took the chunk to its end, where the loop goes on, or some of it. -/
structure Took (socket : Socket Pipe) (input : PendingInput Pipe) (again : Bool)
    (socket' : Socket Pipe) : Prop where
  chunks : ∀ q, (socket'.sources q).chunks = (socket.sources q).chunks
  opened : ∀ q, q ∈ socket'.disconnects ∨
    (socket'.sources q).terminated = (socket.sources q).terminated
  pending : again = true ∧ socket'.pending = none ∨
    again = false ∧ ∃ offset, input.offset < offset ∧ offset < input.input.length ∧
      socket'.pending = some { input with offset }

theorem took_settle {d : Call.Decoded Pipe}
    (hsound : (socket.sources input.pipe).state.Sound maxmsgsize)
    (hd : (socket.call maxmsgsize input).Answers
      { state := (socket.sources input.pipe).state, queue := socket.queue, offset := input.offset }
      d) : socket.Took input (socket.settle input d).1 (socket.settle input d).2 := by
  cases d with
  | returned c =>
    obtain ⟨packets, hreads, hstop⟩ := hd
    rw [settle]
    split
    case isTrue hlt =>
      refine ⟨fun q => setSource_field Source.chunks rfl,
        fun q => .inr (setSource_field Source.terminated rfl), .inr ⟨rfl, c.offset, ?_, hlt, rfl⟩⟩
      rcases hstop with hend | ⟨hne, -⟩
      · exact absurd hend hlt.ne
      · exact hreads.forward_lt hsound hne
    case isFalse =>
      exact ⟨fun q => setSource_field Source.chunks rfl,
        fun q => .inr (setSource_field Source.terminated rfl), .inl ⟨rfl, rfl⟩⟩
  | failed c =>
    refine ⟨fun q => setSource_field Source.chunks rfl, fun q => ?_, .inl ⟨rfl, rfl⟩⟩
    by_cases hq : q = input.pipe
    · exact .inl (by simp [settle, hq])
    · exact .inr (congrArg Source.terminated (setSource_other hq _))
  | refused c => exact hd.elim

theorem kept_pumpChunk {input : PendingInput Pipe}
    (h : ({ socket with pending := some input } : Socket Pipe).Kept maxmsgsize rid arrived) :
    ∃ again socket', socket.pumpChunk maxmsgsize input = some (again, socket') ∧
      socket'.Kept maxmsgsize rid arrived ∧ socket.Took input again socket' := by
  obtain ⟨-, -, hsound, -, -⟩ := h.live
  obtain ⟨d, hdecode, hd⟩ := @Call.decodePacketBytes_spec _ (socket.call maxmsgsize input)
    { state := (socket.sources input.pipe).state, queue := socket.queue, offset := input.offset }
    hsound (h.pending input rfl).1
  refine ⟨(socket.settle input d).1, (socket.settle input d).2, ?_, ?_, took_settle hsound hd⟩
  · rw [pumpChunk, hdecode]
    rfl
  · cases d with
    | returned c =>
      obtain ⟨packets, hreads, -⟩ := hd
      exact kept_returned h hreads
    | failed c =>
      obtain ⟨packets, hfails⟩ := hd
      exact kept_failed h hfails
    | refused c => exact hd.elim

theorem Kept.update {arrived' : Pipe → List UInt8} {source : Source}
    {pending : Option (PendingInput Pipe)} (h : socket.Kept maxmsgsize rid arrived)
    (hrid : source.rid = (socket.sources pipe).rid)
    (harrived : ∀ q, q ≠ pipe → arrived' q = arrived q) (hpending : ∀ input, pending = some input →
      input.offset ≤ input.input.length ∧ input.rid = rid input.pipe) (hothers : ∀ q, q ≠ pipe →
      ({ socket.setSource pipe source with pending } : Socket Pipe).rest q = socket.rest q)
    (hstanding : Standing maxmsgsize (arrived' pipe) (socket.produced pipe) source
      (({ socket.setSource pipe source with pending } : Socket Pipe).rest pipe)
      (pipe ∈ socket.disconnects)) :
    ({ socket.setSource pipe source with pending } : Socket Pipe).Kept maxmsgsize rid arrived' where
  standing q := by
    by_cases hq : q = pipe
    · subst hq
      have hsource : ({ socket.setSource q source with pending } : Socket Pipe).sources q =
          source := Function.update_self ..
      rw [hsource]
      exact hstanding
    · have hsource : ({ socket.setSource pipe source with pending } : Socket Pipe).sources q =
          socket.sources q := Function.update_of_ne hq ..
      rw [hsource, hothers q hq, harrived q hq]
      exact h.standing q
  pending := hpending
  rids q := by
    by_cases hq : q = pipe
    · subst hq
      have hsource : ({ socket.setSource q source with pending } : Socket Pipe).sources q =
          source := Function.update_self ..
      rw [hsource, hrid]
      exact h.rids q
    · have hsource : ({ socket.setSource pipe source with pending } : Socket Pipe).sources q =
          socket.sources q := Function.update_of_ne hq ..
      rw [hsource]
      exact h.rids q
  records := h.records

theorem kept_close (h : socket.Kept maxmsgsize rid arrived) :
    (socket.close pipe).Kept maxmsgsize rid arrived := by
  refine h.update rfl (fun _ _ => rfl) h.pending (fun _ _ => rfl) ?_
  have hrest : ({ socket.setSource pipe { socket.sources pipe with terminated := true } with
      pending := socket.pending } : Socket Pipe).rest pipe = socket.rest pipe := rfl
  rw [hrest]
  cases h.standing pipe with
  | live taken hreported hsound hparse harrived =>
    exact .live taken hreported hsound hparse harrived
  | ended taken held hreported _ hrest hparse harrived =>
    exact .ended taken held hreported rfl hrest hparse harrived
  | reported taken hreported _ hrest hparse harrived =>
    exact .reported taken hreported rfl hrest hparse harrived

theorem kept_pipeTerminated (h : socket.Kept maxmsgsize rid arrived) :
    (socket.pipeTerminated pipe).Kept maxmsgsize rid arrived := by
  have hself : ∀ source : Source, ({ socket.setSource pipe source with
      pending := socket.pending.filter fun pending => pending.pipe ≠ pipe } :
        Socket Pipe).rest pipe = none := by
    intro source
    cases hpending : socket.pending with
    | none => exact rest_of_none rfl
    | some input =>
      by_cases hp : input.pipe = pipe
      · exact rest_of_none (by simp [hp])
      · have hkeep : (some input).filter (fun pending => pending.pipe ≠ pipe) = some input := by
          simp [hp]
        rw [rest_of_some hkeep, if_neg hp]
  refine h.update rfl (fun _ _ => rfl) ?_ ?_ ?_
  · intro input hinput
    exact h.pending input (Option.filter_eq_some_iff.mp hinput).1
  · intro q hq
    cases hpending : socket.pending with
    | none => rw [rest_of_none hpending, rest_of_none rfl]
    | some input =>
      rw [rest_of_some hpending]
      by_cases hp : input.pipe = pipe
      · rw [if_neg fun hiq => hq (hiq.symm.trans hp)]
        exact rest_of_none (by simp [hp])
      · exact rest_of_some (by simp [hp])
  · rw [hself]
    exact (h.standing pipe).ends rfl

theorem kept_take {chunk : List UInt8} {chunks : List (List UInt8)}
    (h : socket.Kept maxmsgsize rid arrived) (hpending : socket.pending = none)
    (hchunks : (socket.sources pipe).chunks = chunk :: chunks)
    (hopen : (socket.sources pipe).terminated = false) :
    ({ socket.setSource pipe { socket.sources pipe with chunks } with
      pending := some { pipe, rid := (socket.sources pipe).rid, input := chunk, offset := 0 } } :
      Socket Pipe).Kept maxmsgsize rid arrived := by
  refine h.update rfl (fun _ _ => rfl) ?_ ?_ ?_
  · rintro input ⟨⟩
    exact ⟨Nat.zero_le _, h.rids pipe⟩
  · intro q hq
    rw [rest_of_none hpending, rest_of_some rfl, if_neg fun hp => hq hp.symm]
  · rw [rest_of_some rfl, if_pos rfl]
    have hstanding := h.standing pipe
    rw [rest_of_none hpending] at hstanding
    cases hstanding with
    | live taken hreported hsound hparse harrived =>
      refine .live taken hreported hsound hparse ?_
      rw [harrived, hchunks, List.flatten_cons]
      rfl
    | ended _ _ _ hterminated | reported _ _ hterminated =>
      rw [hopen] at hterminated
      cases hterminated

theorem kept_drop {chunks : List (List UInt8)}
    (h : socket.Kept maxmsgsize rid arrived) (hpending : socket.pending = none) :
    ((socket.setSource pipe { socket.sources pipe with chunks }).close pipe).Kept maxmsgsize rid
      arrived := by
  have hclose : (socket.setSource pipe { socket.sources pipe with chunks }).close pipe =
      socket.setSource pipe { socket.sources pipe with chunks, terminated := true } := by
    simp only [close, setSource, Function.update_self, Function.update_idem]
  rw [hclose]
  refine h.update rfl (fun _ _ => rfl) h.pending (fun _ _ => rfl) ?_
  have hrest : ({ socket.setSource pipe
      { socket.sources pipe with chunks, terminated := true } with
      pending := socket.pending } : Socket Pipe).rest pipe = none := rest_of_none hpending
  rw [hrest]
  exact (h.standing pipe).ends rfl

theorem kept_pump {budget : ℕ} {choices : List Pipe} (h : socket.Kept maxmsgsize rid arrived) :
    ∃ socket', socket.pump maxmsgsize budget choices = some socket' ∧
      socket'.Kept maxmsgsize rid arrived := by
  induction budget generalizing choices socket with
  | zero => exact ⟨socket, rfl, h⟩
  | succ budget ih =>
    -- A chunk goes to the parser, which says whether the loop goes on.
    have hchunk : ∀ {socket : Socket Pipe} {input : PendingInput Pipe} {choices : List Pipe},
        ({ socket with pending := some input } : Socket Pipe).Kept maxmsgsize rid arrived →
        ∃ socket', ((socket.pumpChunk maxmsgsize input).bind fun (again, socket) =>
          if again then socket.pump maxmsgsize budget choices else some socket) = some socket' ∧
          socket'.Kept maxmsgsize rid arrived := by
      intro socket input choices hinput
      obtain ⟨again, socket', hpump, hkept, -⟩ := kept_pumpChunk hinput
      rw [hpump]
      cases again with
      | false => exact ⟨socket', rfl, hkept⟩
      | true => exact ih hkept
    simp only [pump]
    split
    · exact ⟨socket, rfl, h⟩
    · cases hpending : socket.pending with
      | some input =>
        apply hchunk
        rw [← hpending]
        exact h
      | none =>
        cases choices with
        | nil => exact ⟨socket, rfl, h⟩
        | cons pipe choices =>
          simp only
          cases hchunks : (socket.sources pipe).chunks with
          | nil => exact ⟨socket, rfl, h⟩
          | cons chunk chunks =>
            simp only
            split
            · exact ⟨socket, rfl, h⟩
            · rename_i hopen
              split
              · exact ih (kept_drop h hpending)
              · exact hchunk (kept_take h hpending hchunks (Bool.not_eq_true _ ▸ hopen))

theorem kept_refill {choices : List Pipe} (h : socket.Kept maxmsgsize rid arrived) :
    ∃ socket', socket.refill maxmsgsize choices = some socket' ∧
      socket'.Kept maxmsgsize rid arrived := by
  rw [refill]
  split
  · exact kept_pump h
  · exact ⟨socket, rfl, h⟩

theorem kept_popPacket (h : socket.Kept maxmsgsize rid arrived) :
    socket.popPacket.Kept maxmsgsize rid arrived := by
  rw [popPacket]
  cases hrecords : socket.queue.records with
  | nil => exact h
  | cons record records =>
    have hmoved : socket.received ++ socket.queue.records =
        (socket.received ++ [record]) ++ records := by
      rw [hrecords, List.append_assoc, List.singleton_append]
    constructor
    · intro q
      have hstanding := h.standing q
      rw [produced, hmoved] at hstanding
      exact hstanding
    · exact h.pending
    · exact h.rids
    · intro r hr
      exact h.records r (hmoved ▸ hr)

/-- What the pump still has to take for a pipe: the chunk that is kept and those of the
pipe. -/
def load (socket : Socket Pipe) (pipe : Pipe) : ℕ :=
  (socket.pending.elim 0 fun input => input.input.length - input.offset + 1) +
    ((socket.sources pipe).chunks.map fun chunk => chunk.length + 1).sum

omit [DecidableEq Pipe] in
theorem Took.load_lt {input : PendingInput Pipe} {again : Bool}
    (h : socket.Took input again socket') :
    socket'.load pipe < input.input.length - input.offset + 1 +
      ((socket.sources pipe).chunks.map fun chunk => chunk.length + 1).sum := by
  rw [load, h.chunks]
  rcases h.pending with ⟨-, hpending⟩ | ⟨-, offset, hlt, hend, hpending⟩ <;> rw [hpending]
  · simp only [Option.elim_none]
    omega
  · simp only [Option.elim_some]
    omega

/-- Reading from the pipe has not ended, or has at an oversize packet. -/
def Open (socket : Socket Pipe) (pipe : Pipe) : Prop :=
  pipe ∈ socket.disconnects ∨ (socket.sources pipe).terminated = false

omit [DecidableEq Pipe] in
theorem Took.opened_of {input : PendingInput Pipe} {again : Bool}
    (h : socket.Took input again socket') (hopen : (socket.sources pipe).terminated = false) :
    socket'.Open pipe :=
  (h.opened pipe).imp_right fun hsame => hsame.trans hopen

/-- Without a chunk that is kept, the pump takes a chunk of the pipe if it has one. -/
theorem kept_pump_choice {budget : ℕ} (h : socket.Kept maxmsgsize rid arrived)
    (hpending : socket.pending = none) (hrid : rid pipe ≠ 0) (hopen : socket.Open pipe) :
    ∃ socket', socket.pump maxmsgsize (budget + 1) [pipe] = some socket' ∧
      socket'.Kept maxmsgsize rid arrived ∧ socket'.Open pipe ∧
      socket'.load pipe ≤ socket.load pipe ∧
      (socket.queue.records = [] → (socket.sources pipe).terminated = false →
        (socket.sources pipe).chunks ≠ [] → socket'.load pipe < socket.load pipe) := by
  have hidle : ∀ {n : ℕ} {socket : Socket Pipe}, socket.pending = none →
      socket.pump maxmsgsize n [] = some socket := by
    intro n socket hnone
    cases n with
    | zero => rfl
    | succ n => simp [pump, hnone]
  simp only [pump, hpending]
  split
  case isTrue hrecords => exact ⟨socket, rfl, h, hopen, le_rfl, fun hnil => absurd hnil hrecords⟩
  case isFalse =>
    cases hchunks : (socket.sources pipe).chunks with
    | nil => exact ⟨socket, rfl, h, hopen, le_rfl, fun _ _ hne => absurd rfl hne⟩
    | cons chunk chunks =>
      simp only
      split
      case isTrue hterminated =>
        exact ⟨socket, rfl, h, hopen, le_rfl, fun _ hlive => by rw [hlive] at hterminated; cases
          hterminated⟩
      case isFalse hlive =>
        rw [Bool.not_eq_true] at hlive
        rw [if_neg (by rw [h.rids]; exact hrid)]
        obtain ⟨again, socket', hpump, hkept, htook⟩ :=
          kept_pumpChunk (kept_take h hpending hchunks hlive)
        have hload : socket'.load pipe < socket.load pipe := by
          have hlt := @Took.load_lt _ _ _ pipe _ _ htook
          have hload : socket.load pipe = 0 + (chunk.length + 1 +
              (chunks.map fun chunk => chunk.length + 1).sum) := by
            rw [load, hpending, hchunks]
            rfl
          rw [setSource_self] at hlt
          simp only at hlt
          omega
        have hopened : socket'.Open pipe :=
          htook.opened_of ((congrArg Source.terminated (setSource_self _)).trans hlive)
        refine ⟨socket', ?_, hkept, hopened, hload.le, fun _ _ _ => hload⟩
        rw [hpump, Option.bind_some]
        rcases htook.pending with ⟨rfl, hnone⟩ | ⟨rfl, -⟩
        · exact hidle hnone
        · rfl

/-- A receive call that chooses the pipe makes progress with it. -/
theorem kept_receive (h : socket.Kept maxmsgsize rid arrived) (hrid : rid pipe ≠ 0)
    (hopen : (socket.sources pipe).terminated = false) (hunread : socket.unread pipe ≠ []) :
    ∃ socket', socket.step maxmsgsize (.recvPacket [pipe]) = some socket' ∧
      socket'.Kept maxmsgsize rid arrived ∧ socket'.Open pipe ∧
      (socket'.load pipe < socket.load pipe ∨ socket'.load pipe = socket.load pipe ∧
        socket'.queue.records.length < socket.queue.records.length) := by
  have hpop : ∀ socket : Socket Pipe, socket.popPacket.load pipe = socket.load pipe ∧
      (socket.Open pipe → socket.popPacket.Open pipe) := by
    intro socket
    rw [popPacket]
    split <;> exact ⟨rfl, id⟩
  suffices hrefill : socket.queue.records = [] → ∃ socket',
      socket.pump maxmsgsize maxRawChunksPerPump [pipe] = some socket' ∧
        socket'.Kept maxmsgsize rid arrived ∧ socket'.Open pipe ∧
        socket'.load pipe < socket.load pipe by
    rw [step, refill]
    split
    case isTrue hrecords =>
      obtain ⟨socket', hpump, hkept, hopen', hload⟩ := hrefill hrecords
      refine ⟨socket'.popPacket, by rw [hpump]; rfl, kept_popPacket hkept,
        (hpop socket').2 hopen', .inl ?_⟩
      rwa [(hpop socket').1]
    case isFalse hrecords =>
      refine ⟨socket.popPacket, rfl, kept_popPacket h, (hpop socket).2 (.inr hopen),
        .inr ⟨(hpop socket).1, ?_⟩⟩
      rw [popPacket]
      split
      case h_1 hnil => exact absurd hnil hrecords
      case h_2 record records hcons => simp [hcons]
  intro hrecords
  cases hpending : socket.pending with
  | none =>
    obtain ⟨socket', hpump, hkept, hopen', -, hlt⟩ :=
      @kept_pump_choice _ _ _ _ _ _ _ 63 h hpending hrid (.inr hopen)
    refine ⟨socket', hpump, hkept, hopen', hlt hrecords hopen fun hnil => hunread ?_⟩
    rw [unread, rest_of_none hpending, hnil]
    rfl
  | some input =>
    obtain ⟨again, socket₁, hchunk, hkept₁, htook⟩ := @kept_pumpChunk _ _ _ _ _ socket
      input (by rw [← hpending]; exact h)
    have hload : socket₁.load pipe < socket.load pipe := by
      have hsum : socket.load pipe = input.input.length - input.offset + 1 +
          ((socket.sources pipe).chunks.map fun chunk => chunk.length + 1).sum := by
        rw [load, hpending]
        rfl
      rw [hsum]
      exact htook.load_lt
    have hopen₁ := htook.opened_of hopen
    have hpump : socket.pump maxmsgsize (63 + 1) [pipe] =
        if again then socket₁.pump maxmsgsize 63 [pipe] else some socket₁ := by
      rw [pump, if_neg (not_not.mpr hrecords), hpending]
      simp only [hchunk, Option.bind_some]
    rcases htook.pending with ⟨rfl, hnone⟩ | ⟨rfl, -⟩
    · obtain ⟨socket', hgo, hkept, hopen', hle, -⟩ :=
        @kept_pump_choice _ _ _ _ _ _ _ 62 hkept₁ hnone hrid hopen₁
      exact ⟨socket', hpump.trans hgo, hkept, hopen', hle.trans_lt hload⟩
    · exact ⟨socket₁, hpump, hkept₁, hopen₁, hload⟩

theorem kept_drain {socket : Socket Pipe} (h : socket.Kept maxmsgsize rid arrived)
    (hrid : rid pipe ≠ 0) (hopen : socket.Open pipe) : ∃ n socket',
      Trace.run (step maxmsgsize) socket (List.replicate n (.recvPacket [pipe])) = some socket' ∧
        socket'.Kept maxmsgsize rid arrived ∧
        (pipe ∈ socket'.disconnects ∨
          (socket'.sources pipe).terminated = false ∧ socket'.unread pipe = []) := by
  by_cases hreported : pipe ∈ socket.disconnects
  · exact ⟨0, socket, rfl, h, .inl hreported⟩
  · have hlive := hopen.resolve_left hreported
    by_cases hunread : socket.unread pipe = []
    · exact ⟨0, socket, rfl, h, .inr ⟨hlive, hunread⟩⟩
    · obtain ⟨socket₁, hstep, hkept, hopen₁, hless⟩ := kept_receive h hrid hlive hunread
      obtain ⟨n, socket', hrun, hend⟩ := kept_drain hkept hrid hopen₁
      refine ⟨n + 1, socket', ?_, hend⟩
      rw [List.replicate_succ, Trace.run, hstep]
      exact hrun
termination_by (socket.load pipe, socket.queue.records.length)
decreasing_by
  rcases hless with hlt | ⟨heq, hlt⟩
  · exact Prod.Lex.left _ _ hlt
  · rw [heq]
    exact Prod.Lex.right _ hlt

end Socket

def Event.bytes {Pipe : Type} [DecidableEq Pipe] (pipe : Pipe) : Event Pipe → List UInt8
  | .arrives q chunk => if q = pipe then chunk else []
  | _ => []

namespace Socket

variable {Pipe : Type} [DecidableEq Pipe] {maxmsgsize : ℤ} {rid : Pipe → UInt32}
  {arrived : Pipe → List UInt8} {socket : Socket Pipe}

theorem kept_arrives {pipe : Pipe} {chunk : List UInt8} (h : socket.Kept maxmsgsize rid arrived) :
    (socket.setSource pipe
      { socket.sources pipe with chunks := (socket.sources pipe).chunks ++ [chunk] }).Kept
      maxmsgsize rid fun q => arrived q ++ (Event.arrives pipe chunk).bytes q := by
  refine h.update rfl ?_ h.pending (fun _ _ => rfl) ?_
  · intro q hq
    simp only [Event.bytes, if_neg (Ne.symm hq), List.append_nil]
  · simp only [Event.bytes, if_true]
    have hrest : ({ socket.setSource pipe
        { socket.sources pipe with chunks := (socket.sources pipe).chunks ++ [chunk] } with
        pending := socket.pending } : Socket Pipe).rest pipe = socket.rest pipe := rfl
    rw [hrest]
    cases h.standing pipe with
    | live taken hreported hsound hparse harrived =>
      refine .live taken hreported hsound hparse ?_
      rw [harrived, List.flatten_append, List.flatten_singleton]
      simp only [List.append_assoc]
    | ended taken held hreported hterminated hrest hparse harrived =>
      exact .ended taken held hreported hterminated hrest hparse
        (harrived.trans (List.prefix_append _ _))
    | reported taken hreported hterminated hrest hparse harrived =>
      exact .reported taken hreported hterminated hrest hparse
        (harrived.trans (List.prefix_append _ _))

theorem kept_step (event : Event Pipe) (h : socket.Kept maxmsgsize rid arrived) :
    ∃ socket', socket.step maxmsgsize event = some socket' ∧
      socket'.Kept maxmsgsize rid fun q => arrived q ++ event.bytes q := by
  have hsilent : (fun q => arrived q ++ []) = arrived := by
    funext q
    exact List.append_nil _
  cases event with
  | arrives pipe chunk => exact ⟨_, rfl, kept_arrives h⟩
  | recvPacket choices =>
    obtain ⟨socket', hrefill, hkept⟩ := kept_refill h
    refine ⟨socket'.popPacket, ?_, ?_⟩
    · rw [step, hrefill]
      rfl
    · simp only [Event.bytes, hsilent]
      exact kept_popPacket hkept
  | hasIn choices =>
    simp only [Event.bytes, hsilent]
    exact kept_refill h
  | close pipe =>
    simp only [Event.bytes, hsilent]
    exact ⟨_, rfl, kept_close h⟩
  | pipeTerminated pipe =>
    simp only [Event.bytes, hsilent]
    exact ⟨_, rfl, kept_pipeTerminated h⟩
  | setRcvhwm value =>
    simp only [Event.bytes, hsilent]
    exact ⟨_, rfl, h.standing, h.pending, h.rids, h.records⟩

def arrivals (pipe : Pipe) (events : List (Event Pipe)) : List UInt8 :=
  events.flatMap (Event.bytes pipe)

theorem kept_run {events : List (Event Pipe)} (h : socket.Kept maxmsgsize rid arrived) :
    ∃ socket', Trace.run (step maxmsgsize) socket events = some socket' ∧
      socket'.Kept maxmsgsize rid fun q => arrived q ++ arrivals q events := by
  induction events generalizing socket arrived with
  | nil =>
    refine ⟨socket, rfl, ?_⟩
    simp only [arrivals, List.flatMap_nil, List.append_nil]
    exact h
  | cons event events ih =>
    obtain ⟨socket', hstep, hkept⟩ := kept_step event h
    obtain ⟨socket'', hrun, hkept'⟩ := ih hkept
    refine ⟨socket'', ?_, ?_⟩
    · rw [Trace.run, hstep]
      exact hrun
    · simp only [arrivals, List.flatMap_cons, ← List.append_assoc] at hkept' ⊢
      exact hkept'

/-- For every order of arriving chunks, receive calls and closed pipes, the packets of a pipe
are the ones that the grammar reads in the bytes that the parser has taken, and while the pipe
is open these are all but the unread ones. An oversize packet is reported where the grammar
meets it. The turn for whole packets does what the stages do, and every call of the parser
takes its chunk to the end unless a packet fills the queue or is oversize. Some number of
receive calls brings an open pipe to where the grammar comes with all of its bytes, and by then
the pipe is reported exactly if there is an oversize packet in them. -/
theorem run_reference (maxmsgsize : ℤ) (rid : Pipe → UInt32) (rcvhwm : ℕ)
    (events : List (Event Pipe)) :
    (∀ (call : Call Pipe) (c : Cursor Pipe) (t : Turn Pipe), c.state.Sound call.maxmsgsize →
      call.wholeTurn c = some t → Call.Agree (call.incrementalTurn c) t) ∧
    (∀ (call : Call Pipe) (c : Cursor Pipe), c.state.Sound call.maxmsgsize →
      c.offset ≤ call.payload.length → ∃ d, call.decodePacketBytes c = some d ∧ call.Answers c d) ∧
    ∃ socket, Trace.run (step maxmsgsize) (init rid rcvhwm) events = some socket ∧
      (∀ record ∈ socket.received ++ socket.queue.records, record.sourceRid = rid record.source) ∧
      ∀ pipe, (pipe ∈ socket.disconnects → reference maxmsgsize (arrivals pipe events) =
            (socket.produced pipe, .bad .emsgsize)) ∧ (pipe ∉ socket.disconnects → ∃ taken held,
          reference maxmsgsize taken = (socket.produced pipe, .tail held) ∧
            taken <+: arrivals pipe events ∧ ((socket.sources pipe).terminated = false →
              arrivals pipe events = taken ++ socket.unread pipe)) ∧
        (rid pipe ≠ 0 → (socket.sources pipe).terminated = false → ∃ n socket',
          Trace.run (step maxmsgsize) socket (List.replicate n (.recvPacket [pipe])) =
              some socket' ∧
            (reference maxmsgsize (arrivals pipe events)).1 = socket'.produced pipe ∧
            (pipe ∈ socket'.disconnects ↔
              (reference maxmsgsize (arrivals pipe events)).2 = .bad .emsgsize)) := by
  refine ⟨fun _ _ _ => Call.incrementalTurn_agree, fun _ _ => Call.decodePacketBytes_spec, ?_⟩
  obtain ⟨socket, hrun, hkept⟩ := kept_run (kept_init rid rcvhwm)
  have hbad : ∀ {socket' : Socket Pipe} {pipe : Pipe},
      socket'.Kept maxmsgsize rid (fun q => [] ++ arrivals q events) → pipe ∈ socket'.disconnects →
      reference maxmsgsize (arrivals pipe events) = (socket'.produced pipe, .bad .emsgsize) := by
    intro socket' pipe hkept' hreported
    cases hkept'.standing pipe with
    | live _ hnot | ended _ _ hnot => exact (hnot hreported).elim
    | reported taken _ _ _ hparse harrived =>
      rw [List.nil_append] at harrived
      obtain ⟨rest, hrest⟩ := harrived
      rw [← hrest]
      exact Format.parse_append_of_bad hparse
  have hread : ∀ {socket' : Socket Pipe} {pipe : Pipe},
      socket'.Kept maxmsgsize rid (fun q => [] ++ arrivals q events) →
      pipe ∉ socket'.disconnects → ∃ taken held,
        reference maxmsgsize taken = (socket'.produced pipe, .tail held) ∧
          taken <+: arrivals pipe events ∧ ((socket'.sources pipe).terminated = false →
            arrivals pipe events = taken ++ socket'.unread pipe) := by
    intro socket' pipe hkept' hreported
    cases hkept'.standing pipe with
    | live taken _ _ hparse harrived =>
      rw [List.nil_append] at harrived
      exact ⟨taken, _, hparse, harrived ▸ List.prefix_append _ _, fun _ => harrived⟩
    | ended taken held _ hterminated _ hparse harrived =>
      rw [List.nil_append] at harrived
      refine ⟨taken, held, hparse, harrived, fun hopen => ?_⟩
      rw [hterminated] at hopen
      cases hopen
    | reported _ hyes => exact (hreported hyes).elim
  refine ⟨socket, hrun, hkept.records, fun pipe => ⟨hbad hkept, hread hkept, ?_⟩⟩
  intro hrid hopen
  obtain ⟨n, socket', hdrain, hkept', hend⟩ := kept_drain hkept hrid (.inr hopen)
  refine ⟨n, socket', hdrain, ?_⟩
  by_cases hreported : pipe ∈ socket'.disconnects
  · rw [hbad hkept' hreported]
    exact ⟨rfl, iff_of_true hreported rfl⟩
  · obtain ⟨hopen', hunread⟩ := hend.resolve_left hreported
    obtain ⟨taken, held, hparse, -, hall⟩ := hread hkept' hreported
    rw [hall hopen', hunread, List.append_nil, hparse]
    exact ⟨rfl, iff_of_false hreported nofun⟩

def resumed : List (Event ℕ) :=
  [.arrives 0 [0, 1, 0, 0, 0, 1, 7, 8, 0, 0, 0, 0, 0, 1, 9], .recvPacket [0],
    .arrives 1 [0, 3, 0, 0, 0, 2], .recvPacket [], .recvPacket [1]]

/-- The queue is full after the first packet of a chunk, so the parser stops in the middle and
resumes at its offset; a packet above `maxmsgsize` on the other pipe is reported. -/
theorem run_reference_resumed : ∃ socket,
    Trace.run (step 4) (init (fun _ => 1) 1) resumed = some socket ∧
      (socket.produced 0).map (fun packet => (packet.header, packet.body)) =
        [([7], [8]), ([], [9])] ∧ socket.disconnects = [1] ∧
      reference 4 (arrivals 1 resumed) = (socket.produced 1, .bad .emsgsize) ∧
      ∃ n socket', Trace.run (step 4) socket (List.replicate n (.recvPacket [0])) = some socket' ∧
        (reference 4 (arrivals 0 resumed)).1 = socket'.produced 0 := by
  obtain ⟨-, -, socket, hrun, -, hpipes⟩ := run_reference 4 (fun _ : ℕ => 1) 1 resumed
  have heval : (Trace.run (step 4) (init (fun _ => 1) 1) resumed).map (fun socket =>
      ((socket.produced 0).map fun packet => (packet.header, packet.body), socket.disconnects,
        (socket.sources 0).terminated)) = some ([([7], [8]), ([], [9])], [1], false) := by
    decide +kernel
  rw [hrun, Option.map_some, Option.some_inj, Prod.mk.injEq, Prod.mk.injEq] at heval
  obtain ⟨hproduced, hdisconnects, hopen⟩ := heval
  obtain ⟨n, socket', hrun', hall, -⟩ := (hpipes 0).2.2 (by decide) hopen
  exact ⟨socket, hrun, hproduced, hdisconnects, (hpipes 1).1 (by simp [hdisconnects]), n,
    socket', hrun', hall⟩

/-- A pipe into which packets that fit are written, cut into chunks anywhere, is never
reported, and hands out these packets in their order; it has handed out all of them when all
of their bytes have arrived and been read. -/
theorem run_delivers (maxmsgsize : ℤ) (rid : Pipe → UInt32) (rcvhwm : ℕ)
    (events : List (Event Pipe)) :
    ∃ socket, Trace.run (step maxmsgsize) (init rid rcvhwm) events = some socket ∧
      ∀ pipe packets, (∀ packet ∈ packets, Packet.Fits maxmsgsize packet) →
        arrivals pipe events <+: packets.flatMap Packet.encode →
        pipe ∉ socket.disconnects ∧ socket.produced pipe <+: packets ∧
          (arrivals pipe events = packets.flatMap Packet.encode →
            (socket.sources pipe).terminated = false → socket.unread pipe = [] →
              socket.produced pipe = packets) := by
  obtain ⟨socket, hrun, hkept⟩ := kept_run (kept_init rid rcvhwm)
  refine ⟨socket, hrun, fun pipe packets hfits hsent => ?_⟩
  have hall := reference_flatMap_encode hfits
  have hprefix {taken held : List UInt8}
      (hparse : reference maxmsgsize taken = (socket.produced pipe, .tail held))
      (hle : taken <+: arrivals pipe events) : socket.produced pipe <+: packets := by
    obtain ⟨rest, hrest⟩ := hle.trans hsent
    rw [← hrest, reference, Format.parse_append hparse] at hall
    exact ⟨_, congrArg Prod.fst hall⟩
  cases hkept.standing pipe with
  | live taken hnot _ hparse harrived =>
    rw [List.nil_append] at harrived
    refine ⟨hnot, hprefix hparse ⟨_, harrived.symm⟩, fun hsame _ hread => ?_⟩
    have htaken : taken = packets.flatMap Packet.encode := by
      rw [← hsame, harrived]
      exact ((congrArg (taken ++ ·) hread).trans taken.append_nil).symm
    rw [htaken, hall] at hparse
    exact (congrArg Prod.fst hparse).symm
  | ended taken held hnot hterminated _ hparse harrived =>
    exact ⟨hnot, hprefix hparse harrived, fun _ hopen => by cases hterminated.symm.trans hopen⟩
  | reported taken _ _ _ hparse harrived =>
    obtain ⟨rest, hrest⟩ := harrived.trans hsent
    rw [← hrest, reference, Format.parse_append_of_bad hparse] at hall
    cases hall

/-- A packet that arrives in two chunks is handed out whole. -/
theorem run_delivers_chunks : ∃ socket : Socket ℕ,
    Trace.run (step 0) (init (fun _ => 1) 0) [.arrives 0 [0, 1, 0, 0],
      .recvPacket [0], .arrives 0 [0, 2, 7, 8, 9], .recvPacket [0]] = some socket ∧
      socket.produced 0 = [⟨[7], [8, 9]⟩] := by
  obtain ⟨socket, hrun, hdelivers⟩ := run_delivers 0 (fun _ => 1) 0
    [.arrives 0 [0, 1, 0, 0], .recvPacket [0], .arrives 0 [0, 2, 7, 8, 9], .recvPacket [0]]
  have hfits : ∀ packet ∈ [Packet.mk [7] [8, 9]], Packet.Fits 0 packet := by
    intro packet hmem
    rw [List.mem_singleton.mp hmem]
    exact ⟨by decide, by decide, by decide⟩
  refine ⟨socket, hrun, ?_⟩
  have hall := (hdelivers 0 _ hfits List.prefix_rfl).2.2 rfl
  cases hrun
  exact hall rfl rfl

end Socket

end Zlink.Stream
