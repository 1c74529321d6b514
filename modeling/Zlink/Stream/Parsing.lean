import Zlink.Stream.Packet

/-!
# The parser reads by the grammar

`PacketState.held` are the bytes of the packet that a pipe is in the middle of. Each turn of
the parser moves bytes of the chunk there, and what it emits or refuses is what the grammar
makes of the held bytes and those of the chunk; `Call.Meets` says this of a turn and
`Call.decodeWith_spec` of a call.
-/

namespace Zlink.Stream

open Protocol Delimited

section Memcpy

variable {buffer source : List UInt8} {position k : ℕ}

theorem memcpy_length (h : position + source.length ≤ buffer.length) :
    (memcpy buffer position source).length = buffer.length := by
  simp only [memcpy, List.length_append, List.length_take, List.length_drop]
  omega

theorem take_memcpy (h : position + source.length ≤ buffer.length) :
    (memcpy buffer position source).take (position + source.length) =
      buffer.take position ++ source := by
  rw [memcpy]
  apply List.take_left'
  rw [List.length_append, List.length_take, Nat.min_eq_left (by omega)]

theorem take_memcpy_of_le (hk : k ≤ position) (h : position ≤ buffer.length) :
    (memcpy buffer position source).take k = buffer.take k := by
  have hlen : (buffer.take position).length = position :=
    List.length_take_of_le h
  rw [memcpy, List.append_assoc, List.take_append_of_le_length (by omega), List.take_take,
    Nat.min_eq_left hk]

theorem drop_memcpy (h : k + position ≤ buffer.length) :
    (memcpy buffer (k + position) source).drop k = memcpy (buffer.drop k) position source := by
  have hlen : (buffer.take (k + position)).length = k + position :=
    List.length_take_of_le h
  rw [memcpy, memcpy, List.append_assoc, List.drop_append_of_le_length (by omega),
    List.drop_take, Nat.add_sub_cancel_left, List.drop_drop, List.append_assoc, Nat.add_assoc]

theorem memcpy_zero (h : source.length = buffer.length) : memcpy buffer 0 source = source := by
  rw [memcpy, List.take_zero, List.nil_append, Nat.zero_add, h, List.drop_length, List.append_nil]

end Memcpy

namespace PacketState

variable (state : PacketState)

def headerPart : List UInt8 :=
  state.header.take state.headerSize

def bodyPart : List UInt8 :=
  match state.storage with
  | .coalescedStorage => state.header.drop state.headerSize
  | .separateStorage => state.body

def held : List UInt8 :=
  match state.stage with
  | .prefixStage => state.prefixBytes.take state.prefixUsed
  | .headerStage => state.prefixBytes ++ state.header.take state.headerUsed
  | .bodyStage => state.prefixBytes ++ state.headerPart ++ state.bodyPart.take state.bodyUsed

/-- A packet whose lengths are known and whose buffers are there. -/
structure Begun (maxmsgsize : ℤ) : Prop where
  lengths : state.prefixBytes.length = prefixSize
  headerSize_eq : headerLength state.prefixBytes = state.headerSize
  bodySize_eq : bodyLength state.prefixBytes = state.bodySize
  small : ¬ Oversize maxmsgsize state.headerSize state.bodySize
  coalesced : state.storage = .coalescedStorage →
    state.header.length = state.headerSize + state.bodySize
  separate : state.storage = .separateStorage →
    state.header.length = state.headerSize ∧ state.body.length = state.bodySize

def Sound (maxmsgsize : ℤ) : Prop :=
  match state.stage with
  | .prefixStage =>
    state.storage = .separateStorage ∧ state.prefixBytes.length = prefixSize ∧
      state.prefixUsed < prefixSize
  | .headerStage =>
    state.Begun maxmsgsize ∧ state.headerUsed < state.headerSize ∧ state.bodyUsed = 0
  | .bodyStage => state.Begun maxmsgsize ∧ state.bodyUsed < state.bodySize

variable {state} {maxmsgsize : ℤ}

theorem Begun.headerPart_length (h : state.Begun maxmsgsize) :
    state.headerPart.length = state.headerSize := by
  apply List.length_take_of_le
  cases hstorage : state.storage with
  | coalescedStorage =>
    rw [h.coalesced hstorage]
    exact Nat.le_add_right _ _
  | separateStorage => exact (h.separate hstorage).1.ge

theorem Begun.headerSize_le (h : state.Begun maxmsgsize) :
    state.headerSize ≤ state.header.length := by
  have hpart := h.headerPart_length
  rw [headerPart, List.length_take] at hpart
  omega

theorem Begun.bodyPart_length (h : state.Begun maxmsgsize) :
    state.bodyPart.length = state.bodySize := by
  cases hstorage : state.storage with
  | coalescedStorage =>
    simp only [bodyPart, hstorage]
    rw [List.length_drop, h.coalesced hstorage, Nat.add_sub_cancel_left]
  | separateStorage =>
    simp only [bodyPart, hstorage]
    exact (h.separate hstorage).2

theorem Begun.completedPacket (h : state.Begun maxmsgsize) :
    Call.completedPacket state = ⟨state.headerPart, state.bodyPart⟩ := by
  have hbody := h.bodyPart_length
  cases hstorage : state.storage with
  | coalescedStorage =>
    simp only [bodyPart, hstorage] at hbody ⊢
    simp only [Call.completedPacket, hstorage, headerPart, ← hbody, List.take_length]
  | separateStorage =>
    simp only [bodyPart, hstorage, Call.completedPacket, headerPart,
      ← (h.separate hstorage).1, List.take_length]

theorem Begun.next_parts (h : state.Begun maxmsgsize) :
    next maxmsgsize (state.prefixBytes ++ state.headerPart ++ state.bodyPart) =
      .frame ⟨state.headerPart, state.bodyPart⟩ [] := by
  have hcut := @Stream.next_parts maxmsgsize [] state.prefixBytes state.headerPart
    state.bodyPart h.lengths (by rw [h.headerSize_eq, h.headerPart_length])
    (by rw [h.bodySize_eq, h.bodyPart_length])
    (by rw [h.headerPart_length, h.bodyPart_length]; exact h.small)
  rwa [List.append_nil] at hcut

theorem Begun.next_of_lt (h : state.Begun maxmsgsize) {bytes : List UInt8}
    (hlt : bytes.length < state.headerSize + state.bodySize) :
    next maxmsgsize (state.prefixBytes ++ bytes) = .more := by
  have hhead := headerLength_append h.lengths.ge bytes
  have hbody := bodyLength_append h.lengths.ge bytes
  rw [h.headerSize_eq] at hhead
  rw [h.bodySize_eq] at hbody
  apply next_of_begun
  · rw [hhead, hbody]
    exact h.small
  · rw [hhead, hbody, List.length_append, h.lengths]
    omega

theorem Sound.next_held (h : state.Sound maxmsgsize) : next maxmsgsize state.held = .more := by
  cases hstage : state.stage with
  | prefixStage =>
    simp only [Sound, hstage] at h
    simp only [held, hstage]
    apply next_of_short
    rw [List.length_take]
    omega
  | headerStage =>
    simp only [Sound, hstage] at h
    simp only [held, hstage]
    apply h.1.next_of_lt
    rw [List.length_take]
    omega
  | bodyStage =>
    simp only [Sound, hstage] at h
    simp only [held, hstage, List.append_assoc]
    apply h.1.next_of_lt
    rw [List.length_append, h.1.headerPart_length, List.length_take]
    omega

theorem Sound.reset (h : state.prefixBytes.length = prefixSize) : state.reset.Sound maxmsgsize :=
  ⟨rfl, h, Nat.zero_lt_succ _⟩

@[simp] theorem held_reset : state.reset.held = [] := rfl

theorem Sound.init : PacketState.init.Sound maxmsgsize :=
  ⟨rfl, rfl, by decide⟩

theorem Sound.lengths (h : state.Sound maxmsgsize) : state.prefixBytes.length = prefixSize := by
  cases hstage : state.stage with
  | prefixStage =>
    simp only [Sound, hstage] at h
    exact h.2.1
  | headerStage | bodyStage =>
    simp only [Sound, hstage] at h
    exact h.1.lengths

end PacketState

namespace Call

variable {Pipe : Type} (call : Call Pipe)

def segment (a b : ℕ) : List UInt8 :=
  (call.payload.drop a).take (b - a)

variable {call} {a b d room : ℕ}

@[simp] theorem segment_self : call.segment a a = [] := by
  rw [segment, Nat.sub_self, List.take_zero]

theorem segment_append (hab : a ≤ b) (hbd : b ≤ d) :
    call.segment a b ++ call.segment b d = call.segment a d := by
  have hdrop : call.payload.drop b = (call.payload.drop a).drop (b - a) := by
    rw [List.drop_drop, Nat.add_sub_cancel' hab]
  have hsum : d - a = (b - a) + (d - b) := by omega
  rw [segment, segment, segment, hdrop, hsum, List.take_add]

theorem segment_append_drop (hab : a ≤ b) :
    call.segment a b ++ call.payload.drop b = call.payload.drop a := by
  have hdrop : call.payload.drop b = (call.payload.drop a).drop (b - a) := by
    rw [List.drop_drop, Nat.add_sub_cancel' hab]
  rw [segment, hdrop, List.take_append_drop]

theorem toCopy_length : (call.toCopy a room).length = min room (call.payload.length - a) := by
  rw [toCopy, List.length_take, List.length_drop]

theorem toCopy_eq_segment :
    call.toCopy a room = call.segment a (a + (call.toCopy a room).length) := by
  rw [segment, Nat.add_sub_cancel_left, toCopy, List.length_take, ← List.take_eq_take_min]

variable (call) {n : ℕ} {c c₁ c₂ c' : Cursor Pipe} {packet : Packet} {packets qs : List Packet}
  {t : Turn Pipe}

/-- Some bytes of the chunk became held bytes, and nothing else changed. -/
structure Copies (c c₁ : Cursor Pipe) : Prop where
  forward : c.offset ≤ c₁.offset
  bound : c₁.offset ≤ call.payload.length
  queue : c₁.queue = c.queue
  held : c₁.state.held = c.state.held ++ call.segment c.offset c₁.offset

/-- Some bytes of the chunk were read, and the packets that the grammar cuts off them and the
held bytes were emitted. -/
structure Reads (c c' : Cursor Pipe) (packets : List Packet) : Prop where
  forward : c.offset ≤ c'.offset
  bound : c'.offset ≤ call.payload.length
  sound : c'.state.Sound call.maxmsgsize
  records : c'.queue.records = c.queue.records ++ packets.map call.record
  parse : reference call.maxmsgsize (c.state.held ++ call.segment c.offset c'.offset) =
    (packets, .tail c'.state.held)

structure Fails (c c' : Cursor Pipe) (packets : List Packet) : Prop where
  sound : c'.state.Sound call.maxmsgsize
  empty : c'.state.held = []
  records : c'.queue.records = c.queue.records ++ packets.map call.record
  parse : reference call.maxmsgsize (c.state.held ++ call.payload.drop c.offset) =
    (packets, .bad .emsgsize)

/-- A turn reads by the grammar, and beyond the offset `n` unless it fails. -/
def Meets (n : ℕ) (c : Cursor Pipe) : Turn Pipe → Prop
  | .again c' => n < c'.offset ∧ ∃ packets, call.Reads c c' packets
  | .leave c' =>
    n < c'.offset ∧ call.packetQueueAtLimit c'.queue ∧
      ∃ packets, packets ≠ [] ∧ call.Reads c c' packets
  | .fail c' => call.Fails c c' []

variable {call}

theorem Reads.refl (h : c.state.Sound call.maxmsgsize) (hbound : c.offset ≤ call.payload.length) :
    call.Reads c c [] where
  forward := Nat.le_refl _
  bound := hbound
  sound := h
  records := (List.append_nil _).symm
  parse := by
    rw [segment_self, List.append_nil]
    exact reference_of_more h.next_held

theorem Reads.trans (h : call.Reads c c₁ packets) (h' : call.Reads c₁ c₂ qs) :
    call.Reads c c₂ (packets ++ qs) where
  forward := h.forward.trans h'.forward
  bound := h'.bound
  sound := h'.sound
  records := by rw [h'.records, h.records, List.map_append, List.append_assoc]
  parse := by
    rw [← segment_append h.forward h'.forward, ← List.append_assoc]
    exact Format.parse_extend h.parse h'.parse

theorem Reads.fails (h : call.Reads c c₁ packets) (h' : call.Fails c₁ c₂ qs) :
    call.Fails c c₂ (packets ++ qs) where
  sound := h'.sound
  empty := h'.empty
  records := by rw [h'.records, h.records, List.map_append, List.append_assoc]
  parse := by
    rw [← segment_append_drop h.forward, ← List.append_assoc]
    exact Format.parse_extend h.parse h'.parse

theorem Reads.forward_lt (h : call.Reads c c' packets) (hsound : c.state.Sound call.maxmsgsize)
    (hne : packets ≠ []) : c.offset < c'.offset := by
  refine Nat.lt_of_le_of_ne h.forward fun heq => hne ?_
  have hparse := h.parse
  rw [← heq, segment_self, List.append_nil, reference_of_more hsound.next_held] at hparse
  exact (congrArg Prod.fst hparse).symm

theorem Copies.reads (h : call.Copies c c₁) (h' : call.Reads c₁ c₂ packets) :
    call.Reads c c₂ packets where
  forward := h.forward.trans h'.forward
  bound := h'.bound
  sound := h'.sound
  records := by rw [h'.records, h.queue]
  parse := by
    have hparse := h'.parse
    rwa [h.held, List.append_assoc, segment_append h.forward h'.forward] at hparse

theorem Copies.fails (h : call.Copies c c₁) (h' : call.Fails c₁ c₂ packets) :
    call.Fails c c₂ packets where
  sound := h'.sound
  empty := h'.empty
  records := by rw [h'.records, h.queue]
  parse := by
    have hparse := h'.parse
    rwa [h.held, List.append_assoc, segment_append_drop h.forward] at hparse

theorem Copies.meets (h : call.Copies c c₁) (h' : call.Meets n c₁ t) : call.Meets n c t := by
  cases t with
  | again c' =>
    obtain ⟨hlt, packets, hreads⟩ := h'
    exact ⟨hlt, packets, h.reads hreads⟩
  | leave c' =>
    obtain ⟨hlt, hlimit, packets, hne, hreads⟩ := h'
    exact ⟨hlt, hlimit, packets, hne, h.reads hreads⟩
  | fail c' => exact h.fails h'

theorem Meets.again_of_sound (h : c.state.Sound call.maxmsgsize)
    (hbound : c.offset ≤ call.payload.length) (hn : n < c.offset) : call.Meets n c (.again c) :=
  ⟨hn, [], Reads.refl h hbound⟩

theorem meets_enqueueParts {state : PacketState} {offset : ℕ}
    (hn : n < offset) (hforward : c.offset ≤ offset) (hbound : offset ≤ call.payload.length)
    (hsound : state.Sound call.maxmsgsize) (hheld : state.held = [])
    (hcut : next call.maxmsgsize (c.state.held ++ call.segment c.offset offset) =
      .frame packet []) : call.Meets n c (call.enqueueParts packet { c with state, offset }) := by
  have hreads : call.Reads c
      { state, offset, queue := call.enqueuePacket packet c.queue } [packet] :=
    { forward := hforward
      bound := hbound
      sound := hsound
      records := rfl
      parse := by rw [reference_of_frame hcut, reference_nil, hheld] }
  rw [enqueueParts]
  split
  · rename_i hlimit
    exact ⟨hn, hlimit, _, List.cons_ne_nil _ _, hreads⟩
  · exact ⟨hn, _, hreads⟩

def bodyRoom (call : Call Pipe) (c : Cursor Pipe) : ℕ :=
  (call.toCopy c.offset (c.state.bodySize - c.state.bodyUsed)).length

theorem copyBody_offset : (call.copyBody c).offset = c.offset + call.bodyRoom c := rfl

theorem copyBody_queue : (call.copyBody c).queue = c.queue := rfl

theorem copyBody_coalesced (hstorage : c.state.storage = .coalescedStorage) :
    (call.copyBody c).state = { c.state with
        header := memcpy c.state.header (c.state.headerSize + c.state.bodyUsed)
          (call.toCopy c.offset (c.state.bodySize - c.state.bodyUsed))
        bodyUsed := c.state.bodyUsed + call.bodyRoom c } := by
  simp only [copyBody, hstorage, bodyRoom]

theorem copyBody_separate (hstorage : c.state.storage = .separateStorage) :
    (call.copyBody c).state =
      { c.state with
        body := memcpy c.state.body c.state.bodyUsed
          (call.toCopy c.offset (c.state.bodySize - c.state.bodyUsed))
        bodyUsed := c.state.bodyUsed + call.bodyRoom c } := by
  simp only [copyBody, hstorage, bodyRoom]

theorem copyBody_used : (call.copyBody c).state.bodyUsed = c.state.bodyUsed + call.bodyRoom c := by
  cases hstorage : c.state.storage with
  | coalescedStorage => rw [copyBody_coalesced hstorage]
  | separateStorage => rw [copyBody_separate hstorage]

theorem copyBody_stage : (call.copyBody c).state.stage = c.state.stage := by
  cases hstorage : c.state.storage with
  | coalescedStorage => rw [copyBody_coalesced hstorage]
  | separateStorage => rw [copyBody_separate hstorage]

theorem copyBody_bodySize : (call.copyBody c).state.bodySize = c.state.bodySize := by
  cases hstorage : c.state.storage with
  | coalescedStorage => rw [copyBody_coalesced hstorage]
  | separateStorage => rw [copyBody_separate hstorage]

theorem bodyRoom_eq : call.bodyRoom c = min (c.state.bodySize - c.state.bodyUsed)
      (call.payload.length - c.offset) :=
  toCopy_length

theorem Begun.copyBody (h : c.state.Begun call.maxmsgsize)
    (hused : c.state.bodyUsed ≤ c.state.bodySize) : (call.copyBody c).state.Begun call.maxmsgsize ∧
      (call.copyBody c).state.prefixBytes = c.state.prefixBytes ∧
      (call.copyBody c).state.headerPart = c.state.headerPart ∧ (call.copyBody c).state.bodyPart =
        memcpy c.state.bodyPart c.state.bodyUsed
          (call.toCopy c.offset (c.state.bodySize - c.state.bodyUsed)) := by
  have hroom := @bodyRoom_eq _ call c
  have hcopied : (call.toCopy c.offset (c.state.bodySize - c.state.bodyUsed)).length =
      call.bodyRoom c := rfl
  cases hstorage : c.state.storage with
  | coalescedStorage =>
    have hlen := h.coalesced hstorage
    have hfits : c.state.headerSize + c.state.bodyUsed +
        (call.toCopy c.offset (c.state.bodySize - c.state.bodyUsed)).length ≤
          c.state.header.length := by omega
    rw [copyBody_coalesced hstorage]
    refine ⟨⟨h.lengths, h.headerSize_eq, h.bodySize_eq, h.small, fun _ => ?_, fun hsep => ?_⟩,
      rfl, ?_, ?_⟩
    · rw [memcpy_length hfits]
      exact hlen
    · rw [hstorage] at hsep
      cases hsep
    · exact take_memcpy_of_le (Nat.le_add_right _ _) (by omega)
    · simp only [PacketState.bodyPart, hstorage]
      exact drop_memcpy (by omega)
  | separateStorage =>
    obtain ⟨hhead, hbody⟩ := h.separate hstorage
    have hfits : c.state.bodyUsed +
        (call.toCopy c.offset (c.state.bodySize - c.state.bodyUsed)).length ≤
          c.state.body.length := by omega
    rw [copyBody_separate hstorage]
    refine ⟨⟨h.lengths, h.headerSize_eq, h.bodySize_eq, h.small, fun hco => ?_, fun _ => ?_⟩,
      rfl, rfl, ?_⟩
    · rw [hstorage] at hco
      cases hco
    · exact ⟨hhead, by rw [memcpy_length hfits]; exact hbody⟩
    · simp only [PacketState.bodyPart, hstorage]

theorem copies_copyBody (h : c.state.Begun call.maxmsgsize) (hstage : c.state.stage = .bodyStage)
    (hused : c.state.bodyUsed ≤ c.state.bodySize) (hbound : c.offset ≤ call.payload.length) :
    call.Copies c (call.copyBody c) := by
  have hroom := @bodyRoom_eq _ call c
  obtain ⟨-, hprefix, hheader, hbody⟩ := Begun.copyBody h hused
  have hlen := h.bodyPart_length
  refine ⟨?_, ?_, copyBody_queue, ?_⟩
  · rw [copyBody_offset]
    exact Nat.le_add_right _ _
  · rw [copyBody_offset]
    omega
  · have hstage' : (call.copyBody c).state.stage = .bodyStage := copyBody_stage.trans hstage
    have htake : (call.copyBody c).state.bodyPart.take (call.copyBody c).state.bodyUsed =
        c.state.bodyPart.take c.state.bodyUsed ++
          call.toCopy c.offset (c.state.bodySize - c.state.bodyUsed) := by
      rw [hbody, copyBody_used]
      exact take_memcpy (by rw [toCopy_length]; omega)
    have hsegment : call.toCopy c.offset (c.state.bodySize - c.state.bodyUsed) =
        call.segment c.offset (call.copyBody c).offset :=
      toCopy_eq_segment
    rw [hsegment] at htake
    simp only [PacketState.held, hstage, hstage', hprefix, hheader, htake, List.append_assoc]

theorem meets_enqueueCompletedState (h : c.state.Begun call.maxmsgsize)
    (hstage : c.state.stage = .bodyStage) (hused : c.state.bodyUsed = c.state.bodySize)
    (hbound : c.offset ≤ call.payload.length) (hn : n < c.offset) :
    call.Meets n c (call.enqueueCompletedState c) := by
  rw [enqueueCompletedState, h.completedPacket]
  apply meets_enqueueParts hn (Nat.le_refl _) hbound (.reset h.lengths) PacketState.held_reset
  have hheld : c.state.held = c.state.prefixBytes ++ c.state.headerPart ++ c.state.bodyPart := by
    simp only [PacketState.held, hstage, hused, ← h.bodyPart_length, List.take_length]
  rw [segment_self, List.append_nil, hheld]
  exact h.next_parts

theorem meets_bodyTurn (h : c.state.Begun call.maxmsgsize) (hstage : c.state.stage = .bodyStage)
    (hused : c.state.bodyUsed ≤ c.state.bodySize) (hbound : c.offset ≤ call.payload.length)
    (hn : n < c.offset ∨
      n = c.offset ∧ c.offset < call.payload.length ∧ c.state.bodyUsed < c.state.bodySize) :
    call.Meets n c (call.bodyTurn c) := by
  have hcopies := copies_copyBody h hstage hused hbound
  have hbegun := (Begun.copyBody h hused).1
  have hstage' : (call.copyBody c).state.stage = .bodyStage := copyBody_stage.trans hstage
  have hroom := @bodyRoom_eq _ call c
  have hn' : n < (call.copyBody c).offset := by
    rw [copyBody_offset]
    omega
  apply hcopies.meets
  rw [bodyTurn]
  split
  · rename_i hlt
    apply Meets.again_of_sound _ hcopies.bound hn'
    simp only [PacketState.Sound, hstage']
    exact ⟨hbegun, hlt⟩
  · rename_i hge
    apply meets_enqueueCompletedState hbegun hstage' _ hcopies.bound hn'
    rw [copyBody_used, copyBody_bodySize] at hge ⊢
    omega

theorem copyHeader_offset : (call.copyHeader c).offset =
    c.offset + min (c.state.headerSize - c.state.headerUsed) (call.payload.length - c.offset) := by
  rw [← toCopy_length]
  rfl

theorem copyHeader_used : (call.copyHeader c).state.headerUsed = c.state.headerUsed +
    min (c.state.headerSize - c.state.headerUsed) (call.payload.length - c.offset) := by
  rw [← toCopy_length]
  rfl

theorem Begun.copyHeader (h : c.state.Begun call.maxmsgsize)
    (hused : c.state.headerUsed ≤ c.state.headerSize) :
    (call.copyHeader c).state.Begun call.maxmsgsize := by
  have hsize := h.headerSize_le
  have hfits : c.state.headerUsed +
      (call.toCopy c.offset (c.state.headerSize - c.state.headerUsed)).length ≤
        c.state.header.length := by
    rw [toCopy_length]
    omega
  refine ⟨h.lengths, h.headerSize_eq, h.bodySize_eq, h.small, fun hco => ?_, fun hsep => ?_⟩
  · exact (memcpy_length hfits).trans (h.coalesced hco)
  · exact ⟨(memcpy_length hfits).trans (h.separate hsep).1, (h.separate hsep).2⟩

theorem Begun.enterBody {state : PacketState} (h : state.Begun call.maxmsgsize) :
    (enterBody state).Begun call.maxmsgsize :=
  ⟨h.lengths, h.headerSize_eq, h.bodySize_eq, h.small, h.coalesced, h.separate⟩

theorem copies_copyHeader (h : c.state.Begun call.maxmsgsize)
    (hstage : c.state.stage = .headerStage) (hused : c.state.headerUsed ≤ c.state.headerSize)
    (hbound : c.offset ≤ call.payload.length) : call.Copies c (call.copyHeader c) := by
  have hsize := h.headerSize_le
  refine ⟨?_, ?_, rfl, ?_⟩
  · rw [copyHeader_offset]
    exact Nat.le_add_right _ _
  · rw [copyHeader_offset]
    omega
  · have hstage' : (call.copyHeader c).state.stage = .headerStage := hstage
    have htake : (call.copyHeader c).state.header.take (call.copyHeader c).state.headerUsed =
        c.state.header.take c.state.headerUsed ++
          call.toCopy c.offset (c.state.headerSize - c.state.headerUsed) :=
      take_memcpy (by rw [toCopy_length]; omega)
    have hsegment : call.toCopy c.offset (c.state.headerSize - c.state.headerUsed) =
        call.segment c.offset (call.copyHeader c).offset :=
      toCopy_eq_segment
    have hprefix : (call.copyHeader c).state.prefixBytes = c.state.prefixBytes := rfl
    rw [hsegment] at htake
    simp only [PacketState.held, hstage, hstage', hprefix, htake, List.append_assoc]

theorem meets_headerTurn (h : c.state.Begun call.maxmsgsize)
    (hstage : c.state.stage = .headerStage) (hused : c.state.headerUsed < c.state.headerSize)
    (hbody : c.state.bodyUsed = 0) (hbound : c.offset ≤ call.payload.length)
    (hn : n < c.offset ∨ n = c.offset ∧ c.offset < call.payload.length) :
    call.Meets n c (call.headerTurn c) := by
  have hcopies := copies_copyHeader h hstage hused.le hbound
  have hbegun := Begun.copyHeader h hused.le
  have hstage' : (call.copyHeader c).state.stage = .headerStage := hstage
  have hbody' : (call.copyHeader c).state.bodyUsed = 0 := hbody
  have hn' : n < (call.copyHeader c).offset := by
    rw [copyHeader_offset]
    omega
  apply hcopies.meets
  rw [headerTurn]
  split
  · rename_i hlt
    apply Meets.again_of_sound _ hcopies.bound hn'
    simp only [PacketState.Sound, hstage']
    exact ⟨hbegun, hlt, hbody'⟩
  · -- The header is complete: the body stage takes over in the same turn.
    rename_i hge
    have hfull : (call.copyHeader c).state.headerUsed = (call.copyHeader c).state.headerSize := by
      have hsize : (call.copyHeader c).state.headerSize = c.state.headerSize := rfl
      rw [copyHeader_used, hsize] at hge ⊢
      omega
    have hnext : call.Copies (call.copyHeader c)
        { call.copyHeader c with
          state := enterBody (call.copyHeader c).state } := by
      refine ⟨Nat.le_refl _, hcopies.bound, rfl, ?_⟩
      simp only [PacketState.held, enterBody, hstage', PacketState.headerPart, hbody', hfull,
        segment_self, List.take_zero]
    apply hnext.meets
    refine meets_bodyTurn (Begun.enterBody hbegun) rfl ?_ hcopies.bound (.inl hn')
    have hzero : (enterBody (call.copyHeader c).state).bodyUsed = 0 := hbody'
    rw [hzero]
    exact Nat.zero_le _

theorem packetTotalSize_of_oversize {h b : ℕ} (hover : Oversize call.maxmsgsize h b) :
    call.packetTotalSize h b = none := by
  obtain ⟨hpos, hlt⟩ := hover
  have hlimit : call.maxmsgsize.toNat < h + b := by omega
  rw [packetTotalSize]
  split
  · rfl
  · simp only
    exact if_pos ⟨by omega, .inr (.inr hlimit)⟩

theorem packetTotalSize_of_small {h b : ℕ} (hsmall : ¬ Oversize call.maxmsgsize h b)
    (hh : h < 2 ^ 16) (hb : b < 2 ^ 32) : call.packetTotalSize h b = some (h + b) := by
  have hfits : ¬ uint64Max - b < h := by
    rw [uint64Max]
    omega
  rw [packetTotalSize, if_neg hfits]
  apply if_neg
  rintro ⟨hne, hlt⟩
  by_cases hpos : 0 < call.maxmsgsize
  · rw [if_pos hpos] at hne hlt
    have hlt' : call.maxmsgsize < (h + b : ℕ) := by omega
    exact hsmall ⟨hpos, hlt'⟩
  · rw [if_neg hpos] at hne
    exact hne rfl

theorem headerLength_lt (bytes : List UInt8) : headerLength bytes < 2 ^ 16 :=
  UInt16.toNat_lt _

theorem bodyLength_lt (bytes : List UInt8) : bodyLength bytes < 2 ^ 32 :=
  UInt32.toNat_lt _

theorem copyPrefix_offset : (call.copyPrefix c).offset =
    c.offset + min (prefixSize - c.state.prefixUsed) (call.payload.length - c.offset) := by
  rw [← toCopy_length]
  rfl

theorem copyPrefix_used : (call.copyPrefix c).state.prefixUsed =
    c.state.prefixUsed + min (prefixSize - c.state.prefixUsed) (call.payload.length - c.offset) := by
  rw [← toCopy_length]
  rfl

theorem copies_copyPrefix (hlengths : c.state.prefixBytes.length = prefixSize)
    (hstage : c.state.stage = .prefixStage) (hused : c.state.prefixUsed < prefixSize)
    (hbound : c.offset ≤ call.payload.length) : call.Copies c (call.copyPrefix c) ∧
      (call.copyPrefix c).state.prefixBytes.length = prefixSize := by
  have hfits : c.state.prefixUsed +
      (call.toCopy c.offset (prefixSize - c.state.prefixUsed)).length ≤
        c.state.prefixBytes.length := by
    rw [toCopy_length]
    omega
  refine ⟨⟨?_, ?_, rfl, ?_⟩, (memcpy_length hfits).trans hlengths⟩
  · rw [copyPrefix_offset]
    exact Nat.le_add_right _ _
  · rw [copyPrefix_offset]
    omega
  · have hstage' : (call.copyPrefix c).state.stage = .prefixStage := hstage
    have htake : (call.copyPrefix c).state.prefixBytes.take (call.copyPrefix c).state.prefixUsed =
        c.state.prefixBytes.take c.state.prefixUsed ++
          call.toCopy c.offset (prefixSize - c.state.prefixUsed) :=
      take_memcpy hfits
    have hsegment : call.toCopy c.offset (prefixSize - c.state.prefixUsed) =
        call.segment c.offset (call.copyPrefix c).offset :=
      toCopy_eq_segment
    rw [hsegment] at htake
    simp only [PacketState.held, hstage, hstage', htake]

theorem begin_stage (state : PacketState) :
    (begin state).stage = if state.headerSize = 0 then .bodyStage else .headerStage := rfl

theorem begun_allocate {state : PacketState} (hlengths : state.prefixBytes.length = prefixSize)
    (hstorage : state.storage = .separateStorage)
    (hheader : headerLength state.prefixBytes = state.headerSize)
    (hbody : bodyLength state.prefixBytes = state.bodySize)
    (hsmall : ¬ Oversize call.maxmsgsize state.headerSize state.bodySize) :
    state.allocate.Begun call.maxmsgsize ∧ state.allocate.prefixBytes = state.prefixBytes ∧
      state.allocate.headerSize = state.headerSize ∧ state.allocate.bodySize = state.bodySize := by
  rw [PacketState.allocate]
  split
  · refine ⟨⟨hlengths, hheader, hbody, hsmall, fun _ => List.length_replicate, fun hsep => ?_⟩,
      rfl, rfl, rfl⟩
    cases hsep
  · refine ⟨⟨hlengths, hheader, hbody, hsmall, fun hco => ?_, fun _ => ?_⟩, rfl, rfl, rfl⟩
    · have hsep : state.storage = .coalescedStorage := hco
      rw [hstorage] at hsep
      cases hsep
    · exact ⟨List.length_replicate, List.length_replicate⟩

theorem begun_begin {state : PacketState} (hlengths : state.prefixBytes.length = prefixSize)
    (hstorage : state.storage = .separateStorage)
    (hheader : headerLength state.prefixBytes = state.headerSize)
    (hbody : bodyLength state.prefixBytes = state.bodySize)
    (hsmall : ¬ Oversize call.maxmsgsize state.headerSize state.bodySize) :
    (begin state).Begun call.maxmsgsize ∧ (begin state).held = state.prefixBytes := by
  obtain ⟨hbegun, hprefix, hsize, -⟩ := begun_allocate hlengths hstorage hheader hbody hsmall
  have hprefix' : (begin state).prefixBytes = state.prefixBytes := hprefix
  refine ⟨⟨hbegun.lengths, hbegun.headerSize_eq, hbegun.bodySize_eq, hbegun.small,
    hbegun.coalesced, hbegun.separate⟩, ?_⟩
  by_cases hzero : state.headerSize = 0
  · have hstage : (begin state).stage = .bodyStage := by rw [begin_stage, if_pos hzero]
    have hhead : (begin state).headerPart = [] := by
      have hsize' : (begin state).headerSize = 0 := hsize.trans hzero
      rw [PacketState.headerPart, hsize', List.take_zero]
    have hused : (begin state).bodyUsed = 0 := rfl
    simp only [PacketState.held, hstage, hhead, hused, hprefix', List.take_zero, List.append_nil]
  · have hstage : (begin state).stage = .headerStage := by rw [begin_stage, if_neg hzero]
    have hused : (begin state).headerUsed = 0 := rfl
    simp only [PacketState.held, hstage, hused, hprefix', List.take_zero, List.append_nil]

theorem meets_failPacket (hlengths : c.state.prefixBytes.length = prefixSize)
    (hlong : prefixSize ≤ (c.state.held ++ call.payload.drop c.offset).length)
    (hover : Oversize call.maxmsgsize (headerLength (c.state.held ++ call.payload.drop c.offset))
      (bodyLength (c.state.held ++ call.payload.drop c.offset))) :
    call.Meets n c (failPacket c) where
  sound := .reset hlengths
  empty := rfl
  records := (List.append_nil _).symm
  parse := reference_of_oversize hlong hover

theorem meets_beginTurn (hlengths : c.state.prefixBytes.length = prefixSize)
    (hstorage : c.state.storage = .separateStorage)
    (hheader : headerLength c.state.prefixBytes = c.state.headerSize)
    (hbody : bodyLength c.state.prefixBytes = c.state.bodySize)
    (hheld : c.state.held = c.state.prefixBytes) (hbound : c.offset ≤ call.payload.length)
    (hn : n < c.offset) : call.Meets n c (call.beginTurn c) := by
  by_cases hover : Oversize call.maxmsgsize c.state.headerSize c.state.bodySize
  · rw [beginTurn, packetTotalSize_of_oversize hover]
    apply meets_failPacket hlengths
    · rw [hheld, List.length_append, hlengths]
      exact Nat.le_add_right _ _
    · rw [hheld, headerLength_append hlengths.ge, bodyLength_append hlengths.ge, hheader, hbody]
      exact hover
  · have hh : c.state.headerSize < 2 ^ 16 := hheader ▸ headerLength_lt _
    have hb : c.state.bodySize < 2 ^ 32 := hbody ▸ bodyLength_lt _
    obtain ⟨hbegun, hbegin⟩ := begun_begin hlengths hstorage hheader hbody hover
    obtain ⟨-, -, hsize, hsize'⟩ := begun_allocate hlengths hstorage hheader hbody hover
    have hhsize : (begin c.state).headerSize = c.state.headerSize := hsize
    have hbsize : (begin c.state).bodySize = c.state.bodySize := hsize'
    have hcopies : call.Copies c { c with state := begin c.state } :=
      ⟨Nat.le_refl _, hbound, rfl, by rw [segment_self, List.append_nil, hheld, hbegin]⟩
    rw [beginTurn, packetTotalSize_of_small hover hh hb]
    apply hcopies.meets
    by_cases hzero : c.state.headerSize = 0
    · have hstage : (begin c.state).stage = .bodyStage := by rw [begin_stage, if_pos hzero]
      by_cases hempty : c.state.bodySize = 0
      · simp only [hzero, hempty, and_self, if_true]
        refine meets_enqueueCompletedState hbegun hstage ?_ hbound hn
        exact (hbsize.trans hempty).symm
      · simp only [hempty, and_false, if_false, partsTurn, hstage]
        exact meets_bodyTurn hbegun hstage (Nat.zero_le _) hbound (.inl hn)
    · have hstage : (begin c.state).stage = .headerStage := by rw [begin_stage, if_neg hzero]
      simp only [hzero, false_and, if_false, partsTurn, hstage]
      refine meets_headerTurn hbegun hstage ?_ rfl hbound (.inl hn)
      exact Nat.lt_of_lt_of_eq (Nat.pos_of_ne_zero hzero) hhsize.symm

theorem meets_prefixTurn (h : c.state.Sound call.maxmsgsize)
    (hstage : c.state.stage = .prefixStage) (hlt : c.offset < call.payload.length) :
    call.Meets c.offset c (call.prefixTurn c) := by
  simp only [PacketState.Sound, hstage] at h
  obtain ⟨hstorage, hlengths, hused⟩ := h
  obtain ⟨hcopies, hlengths'⟩ := copies_copyPrefix hlengths hstage hused hlt.le
  have hn : c.offset < (call.copyPrefix c).offset := by
    rw [copyPrefix_offset]
    omega
  have hstage' : (call.copyPrefix c).state.stage = .prefixStage := hstage
  have hstorage' : (call.copyPrefix c).state.storage = .separateStorage := hstorage
  apply hcopies.meets
  rw [prefixTurn]
  split
  · rename_i hshort
    apply Meets.again_of_sound _ hcopies.bound hn
    simp only [PacketState.Sound, hstage']
    exact ⟨hstorage', hlengths', hshort⟩
  · -- The prefix is complete, and the held bytes are the prefix.
    rename_i hfull
    have hheld : (call.copyPrefix c).state.held = (call.copyPrefix c).state.prefixBytes := by
      simp only [PacketState.held, hstage']
      exact List.take_of_length_le (by omega)
    have hsizes : (readSizes (call.copyPrefix c).state).held = (call.copyPrefix c).state.held := by
      simp only [PacketState.held, readSizes, hstage']
    have hcopies' : call.Copies (call.copyPrefix c)
        { call.copyPrefix c with state := readSizes (call.copyPrefix c).state } :=
      ⟨Nat.le_refl _, hcopies.bound, rfl, by rw [segment_self, List.append_nil, hsizes]⟩
    apply hcopies'.meets
    exact meets_beginTurn hlengths' hstorage' rfl rfl (hsizes.trans hheld) hcopies.bound hn

theorem meets_incrementalTurn (h : c.state.Sound call.maxmsgsize)
    (hlt : c.offset < call.payload.length) : call.Meets c.offset c (call.incrementalTurn c) := by
  cases hstage : c.state.stage with
  | prefixStage =>
    simp only [incrementalTurn, hstage]
    exact meets_prefixTurn h hstage hlt
  | headerStage =>
    simp only [PacketState.Sound, hstage] at h
    simp only [incrementalTurn, partsTurn, hstage]
    exact meets_headerTurn h.1 hstage h.2.1 h.2.2 hlt.le (.inr ⟨rfl, hlt⟩)
  | bodyStage =>
    simp only [PacketState.Sound, hstage] at h
    simp only [incrementalTurn, partsTurn, hstage]
    exact meets_bodyTurn h.1 hstage h.2.le hlt.le (.inr ⟨rfl, hlt, h.2⟩)

theorem wholeTurn_cases (h : call.wholeTurn c = some t) :
    c.state.stage = .prefixStage ∧ c.state.prefixUsed = 0 ∧
      prefixSize ≤ call.payload.length - c.offset ∧
      (call.packetTotalSize (headerLength (call.payload.drop c.offset))
          (bodyLength (call.payload.drop c.offset)) = none ∧ t = failPacket c ∨
        (∃ size, call.packetTotalSize (headerLength (call.payload.drop c.offset))
          (bodyLength (call.payload.drop c.offset)) = some size) ∧
        prefixSize + headerLength (call.payload.drop c.offset) +
          bodyLength (call.payload.drop c.offset) ≤ call.payload.length - c.offset ∧
        t = call.enqueueParts
          { header := (call.payload.drop (c.offset + prefixSize)).take
              (headerLength (call.payload.drop c.offset))
            body := (call.payload.drop (c.offset + prefixSize +
              headerLength (call.payload.drop c.offset))).take
              (bodyLength (call.payload.drop c.offset)) }
          { c with
            offset := c.offset + prefixSize + headerLength (call.payload.drop c.offset) +
              bodyLength (call.payload.drop c.offset) }) := by
  simp only [wholeTurn] at h
  split at h
  · rename_i hstart
    split at h
    · rename_i havailable
      refine ⟨hstart.1, hstart.2, havailable, ?_⟩
      split at h
      · rename_i hnone
        exact .inl ⟨hnone, (Option.some.inj h).symm⟩
      · rename_i size hsome
        split at h
        · rename_i hfits
          exact .inr ⟨⟨size, hsome⟩, by omega, (Option.some.inj h).symm⟩
        · cases h
    · cases h
  · cases h

theorem small_of_packetTotalSize {h b size : ℕ} (hsome : call.packetTotalSize h b = some size) :
    ¬ Oversize call.maxmsgsize h b := by
  intro hover
  rw [packetTotalSize_of_oversize hover] at hsome
  cases hsome

theorem oversize_of_packetTotalSize {bytes : List UInt8}
    (hnone : call.packetTotalSize (headerLength bytes) (bodyLength bytes) = none) :
    Oversize call.maxmsgsize (headerLength bytes) (bodyLength bytes) := by
  by_contra hsmall
  rw [packetTotalSize_of_small hsmall (headerLength_lt _) (bodyLength_lt _)] at hnone
  cases hnone

theorem meets_wholeTurn (h : c.state.Sound call.maxmsgsize) (hturn : call.wholeTurn c = some t) :
    call.Meets c.offset c t := by
  obtain ⟨hstage, hused, havailable, hcases⟩ := wholeTurn_cases hturn
  have hheld : c.state.held = [] := by
    simp only [PacketState.held, hstage, hused, List.take_zero]
  have hlong : prefixSize ≤ (call.payload.drop c.offset).length := by
    rw [List.length_drop]
    exact havailable
  rcases hcases with ⟨hnone, rfl⟩ | ⟨⟨size, hsome⟩, hfits, rfl⟩
  · apply meets_failPacket h.lengths
    · rw [hheld, List.nil_append]
      exact hlong
    · rw [hheld, List.nil_append]
      exact oversize_of_packetTotalSize hnone
  · have hpos : 0 < prefixSize := by decide
    refine meets_enqueueParts (by omega) (by omega) (by omega) h hheld ?_
    -- The bytes up to the next offset are one whole packet.
    have hcut := next_take (small_of_packetTotalSize hsome) (by rw [List.length_drop]; exact hfits)
    have hsegment : call.segment c.offset (c.offset + prefixSize +
        headerLength (call.payload.drop c.offset) + bodyLength (call.payload.drop c.offset)) =
          (call.payload.drop c.offset).take (prefixSize +
            headerLength (call.payload.drop c.offset) +
            bodyLength (call.payload.drop c.offset)) := by
      rw [segment]
      congr 1
      omega
    rw [hheld, List.nil_append, hsegment, hcut, List.drop_drop, List.drop_drop, Nat.add_assoc]

theorem meets_turn (h : c.state.Sound call.maxmsgsize) (hlt : c.offset < call.payload.length) :
    call.Meets c.offset c (call.turn c) := by
  rw [turn]
  cases hturn : call.wholeTurn c with
  | none => exact meets_incrementalTurn h hlt
  | some t => exact meets_wholeTurn h hturn

theorem bodyTurn_whole (h : c.state.Begun call.maxmsgsize) (hused : c.state.bodyUsed = 0)
    (hfits : c.state.bodySize ≤ call.payload.length - c.offset) :
    call.bodyTurn c = call.enqueueParts
        { header := c.state.headerPart
          body := (call.payload.drop c.offset).take c.state.bodySize }
        { c with state := c.state.reset, offset := c.offset + c.state.bodySize } := by
  have hroom : call.bodyRoom c = c.state.bodySize := by
    rw [bodyRoom_eq, hused, Nat.sub_zero, Nat.min_eq_left hfits]
  obtain ⟨hbegun, hprefix, hheader, hbody⟩ := Begun.copyBody h (hused ▸ Nat.zero_le _)
  have hdone : ¬ (call.copyBody c).state.bodyUsed < (call.copyBody c).state.bodySize := by
    rw [copyBody_used, copyBody_bodySize, hroom, hused, Nat.zero_add]
    exact Nat.lt_irrefl _
  have hcopied : (call.copyBody c).state.bodyPart =
      (call.payload.drop c.offset).take c.state.bodySize := by
    have hlen : (call.toCopy c.offset c.state.bodySize).length = c.state.bodyPart.length := by
      rw [toCopy_length, h.bodyPart_length, Nat.min_eq_left hfits]
    rw [hbody, hused, Nat.sub_zero, memcpy_zero hlen, toCopy]
  have hreset : (call.copyBody c).state.reset = c.state.reset := by
    rw [PacketState.reset, hprefix]
    rfl
  rw [bodyTurn, if_neg hdone, enqueueCompletedState, hbegun.completedPacket, hheader, hcopied,
    hreset, copyBody_queue, copyBody_offset, hroom]

theorem headerTurn_whole (h : c.state.Begun call.maxmsgsize) (hstage : c.state.headerUsed = 0)
    (hused : c.state.bodyUsed = 0)
    (hfits : c.state.headerSize + c.state.bodySize ≤ call.payload.length - c.offset) :
    call.headerTurn c = call.enqueueParts
        { header := (call.payload.drop c.offset).take c.state.headerSize
          body := (call.payload.drop (c.offset + c.state.headerSize)).take c.state.bodySize }
        { c with
          state := c.state.reset
          offset := c.offset + c.state.headerSize + c.state.bodySize } := by
  have hbegun := Begun.copyHeader h (hstage ▸ Nat.zero_le _)
  have hoffset : (call.copyHeader c).offset = c.offset + c.state.headerSize := by
    rw [copyHeader_offset, hstage, Nat.sub_zero, Nat.min_eq_left (by omega)]
  have hdone : ¬ (call.copyHeader c).state.headerUsed < (call.copyHeader c).state.headerSize := by
    have hsize : (call.copyHeader c).state.headerSize = c.state.headerSize := rfl
    rw [copyHeader_used, hstage, hsize]
    omega
  have hlen : (call.toCopy c.offset c.state.headerSize).length = c.state.headerSize := by
    rw [toCopy_length, Nat.min_eq_left (by omega)]
  have hheader : (call.copyHeader c).state.headerPart =
      (call.payload.drop c.offset).take c.state.headerSize := by
    have htake := @take_memcpy c.state.header (call.toCopy c.offset c.state.headerSize) 0
      (by rw [Nat.zero_add, hlen]; exact h.headerSize_le)
    rw [Nat.zero_add, hlen, List.take_zero, List.nil_append, toCopy] at htake
    have hcopied : (call.copyHeader c).state.header =
        memcpy c.state.header 0 (call.toCopy c.offset c.state.headerSize) := by
      simp only [copyHeader, hstage, Nat.sub_zero]
    have hsize : (call.copyHeader c).state.headerSize = c.state.headerSize := rfl
    rw [PacketState.headerPart, hcopied, hsize]
    exact htake
  have hfits' : (enterBody (call.copyHeader c).state).bodySize ≤
      call.payload.length - (call.copyHeader c).offset := by
    have hsize : (enterBody (call.copyHeader c).state).bodySize = c.state.bodySize := rfl
    rw [hsize, hoffset]
    omega
  have hpart : (enterBody (call.copyHeader c).state).headerPart =
      (call.copyHeader c).state.headerPart := rfl
  have hbody := @bodyTurn_whole _ call
    { call.copyHeader c with state := enterBody (call.copyHeader c).state }
    (Begun.enterBody hbegun) hused hfits'
  rw [headerTurn, if_neg hdone, hbody, hpart, hheader, hoffset]
  rfl

theorem begun_whole (h : c.state.Begun call.maxmsgsize)
    (hstage : c.state.stage = if c.state.headerSize = 0 then .bodyStage else .headerStage)
    (hheader : c.state.headerUsed = 0) (hbody : c.state.bodyUsed = 0)
    (hfits : c.state.headerSize + c.state.bodySize ≤ call.payload.length - c.offset) :
    (if c.state.headerSize = 0 ∧ c.state.bodySize = 0 then call.enqueueCompletedState c
      else call.partsTurn c) =
      call.enqueueParts
        { header := (call.payload.drop c.offset).take c.state.headerSize
          body := (call.payload.drop (c.offset + c.state.headerSize)).take c.state.bodySize }
        { c with
          state := c.state.reset
          offset := c.offset + c.state.headerSize + c.state.bodySize } := by
  by_cases hzero : c.state.headerSize = 0
  · have hpart : c.state.headerPart = [] :=
      List.eq_nil_of_length_eq_zero (h.headerPart_length.trans hzero)
    by_cases hempty : c.state.bodySize = 0
    · have hpart' : c.state.bodyPart = [] :=
        List.eq_nil_of_length_eq_zero (h.bodyPart_length.trans hempty)
      rw [if_pos ⟨hzero, hempty⟩, enqueueCompletedState, h.completedPacket, hpart, hpart', hzero,
        hempty]
      rfl
    · rw [if_pos hzero] at hstage
      rw [if_neg fun hboth => hempty hboth.2]
      simp only [partsTurn, hstage]
      rw [bodyTurn_whole h hbody (by omega), hpart, hzero]
      rfl
  · rw [if_neg hzero] at hstage
    rw [if_neg fun hboth => hzero hboth.1]
    simp only [partsTurn, hstage]
    exact headerTurn_whole h hheader hbody hfits

def live (state : PacketState) : PacketState :=
  match state.stage with
  | .prefixStage =>
    { PacketState.init with
      prefixBytes := state.prefixBytes.take state.prefixUsed
      prefixUsed := state.prefixUsed }
  | _ => state

def Agree : Turn Pipe → Turn Pipe → Prop
  | .again c, .again c' | .leave c, .leave c' =>
    c.offset = c'.offset ∧ c.queue = c'.queue ∧ live c.state = live c'.state
  | .fail c, .fail c' => c.queue = c'.queue ∧ live c.state = live c'.state
  | _, _ => False

theorem live_reset (state : PacketState) :
    live state.reset = { PacketState.init with prefixBytes := [] } := rfl

theorem live_of_fresh {state : PacketState} (hstage : state.stage = .prefixStage)
    (hused : state.prefixUsed = 0) : live state = { PacketState.init with prefixBytes := [] } := by
  simp only [live, hstage, hused, List.take_zero]
  rfl

theorem agree_enqueueParts {state state' : PacketState} {queue : ReceiveQueue Pipe}
    {offset offset' : ℕ} (hoffset : offset = offset') (hstate : live state = live state') :
    Agree (call.enqueueParts packet ⟨state, queue, offset⟩)
      (call.enqueueParts packet ⟨state', queue, offset'⟩) := by
  rw [enqueueParts, enqueueParts]
  split
  all_goals exact ⟨hoffset, rfl, hstate⟩

theorem incrementalTurn_agree (h : c.state.Sound call.maxmsgsize)
    (hturn : call.wholeTurn c = some t) : Agree (call.incrementalTurn c) t := by
  obtain ⟨hstage, hused, havailable, hcases⟩ := wholeTurn_cases hturn
  simp only [PacketState.Sound, hstage] at h
  obtain ⟨hstorage, hlengths, -⟩ := h
  have hpos : 0 < prefixSize := by decide
  have hlt : c.offset < call.payload.length := by omega
  obtain ⟨hcopies, hlengths'⟩ := copies_copyPrefix hlengths hstage (hused ▸ hpos) hlt.le
  have hfull : (call.copyPrefix c).state.prefixUsed = prefixSize := by
    rw [copyPrefix_used, hused, Nat.zero_add, Nat.sub_zero, Nat.min_eq_left havailable]
  have hoffset : (call.copyPrefix c).offset = c.offset + prefixSize := by
    rw [copyPrefix_offset, hused, Nat.sub_zero, Nat.min_eq_left havailable]
  have hbytes : (call.copyPrefix c).state.prefixBytes =
      (call.payload.drop c.offset).take prefixSize := by
    have hlen : (call.toCopy c.offset prefixSize).length = c.state.prefixBytes.length := by
      rw [toCopy_length, hlengths, Nat.min_eq_left havailable]
    have hcopied : (call.copyPrefix c).state.prefixBytes =
        memcpy c.state.prefixBytes 0 (call.toCopy c.offset prefixSize) := by
      simp only [copyPrefix, hused, Nat.sub_zero]
    rw [hcopied, memcpy_zero hlen, toCopy]
  have hheader : headerLength (call.copyPrefix c).state.prefixBytes =
      headerLength (call.payload.drop c.offset) := by
    have happend := headerLength_append hlengths'.ge ((call.payload.drop c.offset).drop prefixSize)
    rwa [hbytes, List.take_append_drop, ← hbytes, eq_comm] at happend
  have hbody : bodyLength (call.copyPrefix c).state.prefixBytes =
      bodyLength (call.payload.drop c.offset) := by
    have happend := bodyLength_append hlengths'.ge ((call.payload.drop c.offset).drop prefixSize)
    rwa [hbytes, List.take_append_drop, ← hbytes, eq_comm] at happend
  have hturn' : call.incrementalTurn c = call.beginTurn
      { call.copyPrefix c with state := readSizes (call.copyPrefix c).state } := by
    have hdone : ¬ (call.copyPrefix c).state.prefixUsed < prefixSize := by omega
    simp only [incrementalTurn, hstage, prefixTurn, if_neg hdone]
  have hsizes : (readSizes (call.copyPrefix c).state).headerSize =
        headerLength (call.payload.drop c.offset) ∧
      (readSizes (call.copyPrefix c).state).bodySize = bodyLength (call.payload.drop c.offset) :=
    ⟨hheader, hbody⟩
  rw [hturn', beginTurn, hsizes.1, hsizes.2]
  rcases hcases with ⟨hnone, rfl⟩ | ⟨⟨size, hsome⟩, hfits, rfl⟩
  · rw [hnone]
    exact ⟨rfl, rfl⟩
  · rw [hsome]
    have hsmall : ¬ Oversize call.maxmsgsize (readSizes (call.copyPrefix c).state).headerSize
        (readSizes (call.copyPrefix c).state).bodySize := by
      rw [hsizes.1, hsizes.2]
      exact small_of_packetTotalSize hsome
    obtain ⟨hbegun, -⟩ := @begun_begin _ call (readSizes (call.copyPrefix c).state) hlengths'
      hstorage rfl rfl hsmall
    obtain ⟨-, -, hsize, hsize'⟩ := @begun_allocate _ call
      (readSizes (call.copyPrefix c).state) hlengths' hstorage rfl rfl hsmall
    have hhsize : (begin (readSizes (call.copyPrefix c).state)).headerSize =
        headerLength (call.payload.drop c.offset) := hsize.trans hsizes.1
    have hbsize : (begin (readSizes (call.copyPrefix c).state)).bodySize =
        bodyLength (call.payload.drop c.offset) := hsize'.trans hsizes.2
    have hwhole := @begun_whole _ call
      { call.copyPrefix c with state := begin (readSizes (call.copyPrefix c).state) }
      hbegun (by rw [begin_stage, hsizes.1, hhsize]) rfl rfl (by
        rw [hhsize, hbsize, hoffset]
        omega)
    rw [hhsize, hbsize] at hwhole
    simp only
    rw [hwhole, hoffset]
    refine agree_enqueueParts rfl ?_
    rw [live_reset, live_of_fresh hstage hused]

variable (call) in
/-- A call reads by the grammar. It takes the whole chunk unless a packet of the chunk
fills the queue, or the grammar meets an oversize packet, on which the call fails. -/
def Answers (c : Cursor Pipe) : Decoded Pipe → Prop
  | .returned c' =>
    ∃ packets, call.Reads c c' packets ∧
      (c'.offset = call.payload.length ∨ packets ≠ [] ∧ call.packetQueueAtLimit c'.queue)
  | .failed c' => ∃ packets, call.Fails c c' packets
  | .refused _ => False

theorem run_spec {turn : Cursor Pipe → Turn Pipe}
    (hturn : ∀ c : Cursor Pipe, c.state.Sound call.maxmsgsize →
      c.offset < call.payload.length → call.Meets c.offset c (turn c))
    {fuel : ℕ} (h : c.state.Sound call.maxmsgsize) (hbound : c.offset ≤ call.payload.length)
    (hfuel : call.payload.length < c.offset + fuel) :
    ∃ d, Loop.run (call.loopTurn turn) fuel c = some d ∧ call.Answers c d := by
  induction fuel generalizing c with
  | zero => omega
  | succ fuel ih =>
    by_cases hlt : c.offset < call.payload.length
    · have hmeets := hturn c h hlt
      cases ht : turn c with
      | again c' =>
        rw [ht] at hmeets
        obtain ⟨hn, packets, hreads⟩ := hmeets
        obtain ⟨d, hrun, hd⟩ := ih hreads.sound hreads.bound (by omega)
        refine ⟨d, ?_, ?_⟩
        · simp only [Loop.run, loopTurn, if_pos hlt, ht]
          exact hrun
        · cases d with
          | returned c'' =>
            obtain ⟨qs, hqs, hstop⟩ := hd
            refine ⟨_, hreads.trans hqs, hstop.imp_right (And.imp_left fun hne => ?_)⟩
            exact List.append_ne_nil_of_right_ne_nil _ hne
          | failed c'' =>
            obtain ⟨qs, hqs⟩ := hd
            exact ⟨_, hreads.fails hqs⟩
          | refused c'' => exact hd
      | leave c' =>
        rw [ht] at hmeets
        obtain ⟨hn, hlimit, packets, hne, hreads⟩ := hmeets
        refine ⟨.returned c', ?_, packets, hreads, .inr ⟨hne, hlimit⟩⟩
        simp only [Loop.run, loopTurn, if_pos hlt, ht]
      | fail c' =>
        rw [ht] at hmeets
        refine ⟨.failed c', ?_, _, hmeets⟩
        simp only [Loop.run, loopTurn, if_pos hlt, ht]
    · refine ⟨.returned c, ?_, _, Reads.refl h hbound, .inl (by omega)⟩
      simp only [Loop.run, loopTurn, if_neg hlt]

theorem decodeWith_spec {turn : Cursor Pipe → Turn Pipe}
    (hturn : ∀ c : Cursor Pipe, c.state.Sound call.maxmsgsize →
      c.offset < call.payload.length → call.Meets c.offset c (turn c))
    (h : c.state.Sound call.maxmsgsize) (hbound : c.offset ≤ call.payload.length) :
    ∃ d, call.decodeWith turn c = some d ∧ call.Answers c d := by
  rw [decodeWith, if_neg (Nat.not_lt.mpr hbound)]
  exact run_spec hturn h hbound (by omega)

theorem decodePacketBytes_spec (h : c.state.Sound call.maxmsgsize)
    (hbound : c.offset ≤ call.payload.length) :
    ∃ d, call.decodePacketBytes c = some d ∧ call.Answers c d :=
  decodeWith_spec (fun _ => meets_turn) h hbound

end Call

end Zlink.Stream
