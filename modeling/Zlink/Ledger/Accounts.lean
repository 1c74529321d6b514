import Zlink.Ledger.Charges

/-!
# The ledger is what the queue holds

`Charged` ties the counters of the direction to the frames of the pipe. Every step of the pipe
keeps it while the flag of the registry is clear, and no step fails from a state it holds of.
-/

namespace Zlink.Ledger

open Word64 AutoHwm Protocol

namespace Completion

def openFrames (s : Completion) : List Frame :=
  match s.publishing with
  | none => s.opened
  | some frame => if frame.more then s.opened ++ [frame] else []

/-- The message that the ledger knows as committed and the queue does not know yet. -/
def closing (s : Completion) : List Frame :=
  match s.publishing with
  | none => []
  | some frame => if frame.more then [] else s.opened ++ [frame]

def queued (s : Completion) : List Frame :=
  frames (s.flushed ++ s.complete)

def committedFrames (s : Completion) : List Frame :=
  s.queued ++ s.releasing.toList ++ s.closing

def charge (weight : Frame → ℕ) (s : Completion) : Charge :=
  (weigh weight s.openFrames, weigh weight s.committedFrames, counted s.committedFrames)

structure Shaped (weight : Frame → ℕ) (s : Completion) : Prop where
  more : ∀ frame ∈ s.opened, frame.more = true
  incomplete : (∀ frame, s.publishing = some frame → frame.more = true) →
    s.outIncompleteBytes.toNat = weigh weight s.openFrames

structure Charged (weight : Frame → ℕ) (s : Completion) : Prop extends Shaped weight s where
  lane : s.direction.lane = .completion
  charge : s.direction.charge = s.charge weight

variable {weight : Frame → ℕ} {s s' : Completion}

theorem charged_init (weight : Frame → ℕ) (queueId minimum : UInt64) :
    (init queueId minimum).Charged weight where
  more _ h := by cases h
  incomplete _ := rfl
  lane := rfl
  charge := rfl

/-- A step that can be made, and keeps the counters while the flag is clear. -/
def Lands (weight : Frame → ℕ) (next : Option Completion) : Prop :=
  ∃ s', next = some s' ∧ (s'.metrics.aggregateOverflow = false → s'.Charged weight)

theorem Charged.lands (h : s.Charged weight) : Lands weight (some s) :=
  ⟨s, rfl, fun _ => h⟩

variable {next : Option Completion}

theorem lands_guarded {enabled : Bool} (h : s.Charged weight)
    (hnext : enabled = true → Lands weight next) : Lands weight (s.guarded enabled next) := by
  cases enabled with
  | false => exact h.lands
  | true => exact hnext rfl

variable {t : Completion} {operation : Direction.Operation}

theorem Charged.post {taken added : Charge}
    (h : s.Charged weight) (hdirection : t.direction = s.direction) (hshaped : t.Shaped weight)
    (hmoves : operation.Moves taken added) (htaken : taken ≤ s.charge weight)
    (hcharge : t.charge weight + taken = s.charge weight + added) :
    Lands weight (t.post operation) := by
  have hle : taken ≤ t.direction.charge := by
    rw [hdirection, h.charge]
    exact htaken
  have hlane : t.direction.lane = .completion := by
    rw [hdirection]
    exact h.lane
  obtain ⟨d', m', hop, hlane', hmoved⟩ := hmoves.runs t.metrics hlane hle
  refine ⟨{ t with direction := d', metrics := m' }, ?_, fun hclear => ?_⟩
  · rw [Completion.post, hop]
    rfl
  · refine ⟨⟨hshaped.more, hshaped.incomplete⟩, hlane', ?_⟩
    have hsum := hmoved hclear
    rw [hdirection, h.charge, ← hcharge] at hsum
    simp only [Prod.ext_iff, Prod.fst_add, Prod.snd_add, Nat.add_right_cancel_iff] at hsum
    exact Prod.ext hsum.1 (Prod.ext hsum.2.1 hsum.2.2)

variable {frame : Frame}

theorem append_spec (h : s.appendOverflows frame = false) :
    (s.outIncompleteBytes + frame.accountedBytes).toNat =
      s.outIncompleteBytes.toNat + frame.accountedBytes.toNat := by
  simp only [appendOverflows, Bool.or_eq_false_iff, decide_eq_false_iff_not] at h
  have hle : frame.accountedBytes.toNat ≤ (maxWord - s.outIncompleteBytes).toNat :=
    UInt64.le_iff_toNat_le.mp (UInt64.not_lt.mp h.1.2)
  have hword := toNat_lt_pow s.outIncompleteBytes
  have hmax : s.outIncompleteBytes.toNat ≤ maxWord.toNat := by
    rw [toNat_maxWord]
    omega
  rw [toNat_sub_of_le hmax, toNat_maxWord] at hle
  apply toNat_add_of_lt
  omega

theorem reservation_spec {generation payloadBytes : UInt64} {msgFlags : UInt8}
    {direction : Direction} (hfits : reservationOverflows payloadBytes = false)
    (haccepted : (reserveDecoderFrame generation payloadBytes msgFlags).refused direction frame =
      false) :
    (reserveDecoderFrame generation payloadBytes msgFlags).frameBytes = frame.accountedBytes ∧
      msgFlags = frame.flags := by
  simp only [Reservation.refused, reserveDecoderFrame, Bool.or_eq_false_iff,
    bne_eq_false_iff_eq] at haccepted
  obtain ⟨⟨-, hpayload⟩, hflags⟩ := haccepted
  rw [reservationOverflows, hpayload] at hfits
  refine ⟨?_, hflags⟩
  rw [Frame.accountedBytes, if_neg (of_decide_eq_false hfits), reserveDecoderFrame, hpayload]

theorem openFrames_idle (hidle : s.publishing = none) : s.openFrames = s.opened := by
  rw [openFrames, hidle]

theorem closing_idle (hidle : s.publishing = none) : s.closing = [] := by
  rw [closing, hidle]

theorem charge_idle (hidle : s.publishing = none) :
    s.charge weight = (weigh weight s.opened, weigh weight (s.queued ++ s.releasing.toList),
      counted (s.queued ++ s.releasing.toList)) := by
  rw [charge, committedFrames, openFrames_idle hidle, closing_idle hidle, List.append_nil]

theorem Charged.incomplete_idle (h : s.Charged weight) (hidle : s.publishing = none) :
    s.outIncompleteBytes.toNat = weigh weight s.opened := by
  rw [← openFrames_idle hidle]
  apply h.incomplete
  intro frame hframe
  rw [hidle] at hframe
  cases hframe

theorem Charged.begin {total payload : UInt64} (h : s.Charged weight) (hidle : s.publishing = none)
    (htotal : frame.more = true → total.toNat = s.outIncompleteBytes.toNat + weight frame)
    (hmore : frame.more = true → operation.Moves (0, 0, 0) (weight frame, 0, 0))
    (hlast : frame.more = false → operation.Moves (s.outIncompleteBytes.toNat, 0, 0)
      (0, s.outIncompleteBytes.toNat + weight frame, if frame.countedPending then 1 else 0)) :
    Lands weight ({ s with
      outIncompleteBytes := total
      outIncompletePayloadBytes := payload
      publishing := some frame }.post operation) := by
  have hopened := h.incomplete_idle hidle
  have hcharge : s.charge weight = _ := charge_idle hidle
  cases hflag : frame.more with
  | true =>
    refine h.post rfl ⟨h.more, fun _ => ?_⟩ (hmore hflag) ?_ ?_
    · simp only [openFrames, hflag, if_true, weigh_append, weigh_single, htotal hflag, hopened]
    · exact ⟨Nat.zero_le _, Nat.zero_le _, Nat.zero_le _⟩
    · rw [hcharge]
      simp only [Completion.charge, openFrames, committedFrames, closing, queued, hflag, if_true,
        weigh_append, weigh_single, List.append_nil, Prod.mk_add_mk, Nat.add_zero]
  | false =>
    rw [hopened, ← counted_single] at hlast
    refine h.post rfl ⟨h.more, fun hnone => ?_⟩ (hlast hflag) ?_ ?_
    · rw [hnone frame rfl] at hflag
      cases hflag
    · rw [hcharge]
      exact ⟨Nat.le_refl _, Nat.zero_le _, Nat.zero_le _⟩
    · have hnone := counted_of_more h.more
      rw [hcharge]
      simp only [Completion.charge, openFrames, committedFrames, closing, queued, hflag,
        Bool.false_eq_true, if_false, weigh_append, weigh_single, weigh_nil, counted_append,
        hnone, Prod.mk_add_mk, Nat.add_zero, Nat.zero_add]

theorem Charged.publish (h : s.Charged weight) : s.publish.Charged weight := by
  rw [Completion.publish]
  split
  · exact h
  · rename_i frame hframe
    split
    · rename_i hmore
      refine ⟨⟨?_, fun _ => ?_⟩, h.lane, ?_⟩
      · intro old hold
        rcases List.mem_append.mp hold with hold | hold
        · exact h.more old hold
        · rw [List.mem_singleton.mp hold]
          exact hmore
      · have hincomplete := h.incomplete fun last hlast => by
          rw [hframe] at hlast
          rw [← Option.some.inj hlast]
          exact hmore
        rw [openFrames, hframe] at hincomplete
        simp only [hmore, if_true] at hincomplete
        exact hincomplete
      · change s.direction.charge = _
        rw [h.charge]
        simp only [Completion.charge, openFrames, committedFrames, closing, queued, hframe, hmore,
          if_true]
    · rename_i hlast
      refine ⟨⟨?_, fun _ => rfl⟩, h.lane, ?_⟩
      · intro old hold
        cases hold
      · change s.direction.charge = _
        rw [h.charge]
        simp only [Completion.charge, openFrames, committedFrames, closing, queued, hframe, hlast,
          if_false, frames_append, frames_map, weigh_append, counted_append, weigh_nil, weigh_single,
          counted_nil, Prod.mk.injEq, true_and, List.append_nil, Bool.false_eq_true]
        constructor
        all_goals omega

theorem Charged.flush (h : s.Charged weight) : s.flush.Charged weight := by
  refine ⟨⟨h.more, h.incomplete⟩, h.lane, ?_⟩
  change s.direction.charge = _
  rw [h.charge]
  simp only [Completion.charge, committedFrames, queued, Completion.flush, List.append_nil]
  rfl

theorem Charged.rollback (h : s.Charged weight) (hidle : s.publishing = none) :
    Lands weight s.rollback := by
  rw [Completion.rollback]
  have hshaped : Shaped weight
      { s with opened := [], outIncompleteBytes := 0, outIncompletePayloadBytes := 0 } := by
    constructor
    · intro _ hframe
      cases hframe
    · intro _
      simp only [openFrames, hidle, weigh_nil]
      rfl
  refine h.post rfl hshaped (Direction.moves_rollbackProvisional _) ?_ ?_
  · rw [charge_idle hidle, h.incomplete_idle hidle]
    exact ⟨Nat.le_refl _, Nat.zero_le _, Nat.zero_le _⟩
  · rw [charge_idle hidle, h.incomplete_idle hidle]
    simp only [Completion.charge, openFrames, committedFrames, closing, queued, hidle,
      List.append_nil, weigh_nil, Prod.mk_add_mk, Nat.zero_add, Nat.add_zero]

theorem Charged.write (h : s.Charged weight) (hweight : Weighs weight)
    (hidle : s.publishing = none) (frame : Frame) (maxMessageBytes : UInt64) (admitted : Bool) :
    Lands weight (s.write frame maxMessageBytes admitted) := by
  rw [Completion.write]
  split
  · exact h.lands
  · rename_i haccepted
    simp only [Bool.or_eq_true, not_or, Bool.not_eq_true] at haccepted
    have htotal := append_spec haccepted.1.1
    rw [hweight] at htotal
    split
    · rename_i hmore
      refine h.begin hidle (fun _ => htotal) (fun _ => ?_) fun hlast => ?_
      · rw [← hweight]
        exact Direction.moves_accountProvisionalFrame frame.accountedBytes_ne_zero
      · rw [hmore] at hlast
        cases hlast
    · rename_i hlast
      refine h.begin hidle (fun _ => htotal) (fun hmore => absurd hmore hlast) fun _ => ?_
      rw [← hweight]
      exact Direction.moves_commitMessage _ _ frame.accountedBytes_ne_zero

theorem Charged.writeReserved {generation payloadBytes : UInt64} {msgFlags : UInt8}
    (h : s.Charged weight) (hweight : Weighs weight) (hidle : s.publishing = none)
    (frame : Frame) (hfits : reservationOverflows payloadBytes = false) : Lands weight
      (s.writeReserved frame (reserveDecoderFrame generation payloadBytes msgFlags)) := by
  rw [Completion.writeReserved]
  split
  · exact h.lands
  · rename_i haccepted
    simp only [Bool.or_eq_true, not_or, Bool.not_eq_true] at haccepted
    have htotal := append_spec haccepted.1
    obtain ⟨hbytes, hflags⟩ := reservation_spec hfits haccepted.2
    rw [hweight] at htotal
    have hmore : hasAny (reserveDecoderFrame generation payloadBytes msgFlags).msgFlags Msg.more =
        frame.more := by
      rw [Frame.more, ← hflags]
      rfl
    refine h.begin hidle (fun _ => htotal) (fun hflag => ?_) fun hflag => ?_
    · apply Direction.moves_commitDecoderFrame
      · intro _
        rw [hbytes, hweight]
        exact ⟨rfl, rfl⟩
      · intro hlast
        rw [hmore, hflag] at hlast
        cases hlast
    · apply Direction.moves_commitDecoderFrame
      · intro hopen
        rw [hmore, hflag] at hopen
        cases hopen
      · intro _
        rw [hbytes, hweight]
        exact ⟨rfl, rfl⟩

theorem Charged.control (h : s.Charged weight) (hweight : Weighs weight)
    (hidle : s.publishing = none) (size : UInt64) : Lands weight (s.control size) := by
  rw [Completion.control]
  split
  · exact h.lands
  · rename_i hboundary
    have hzero : s.outIncompleteBytes = 0 := by
      by_contra hne
      exact hboundary (.inl hne)
    have hmore : ({ flags := Msg.command, size } : Frame).more = false := by
      change hasAny Msg.command Msg.more = false
      decide
    refine h.begin hidle (fun hflag => ?_) (fun hflag => ?_) fun _ => ?_
    · rw [hmore] at hflag
      cases hflag
    · rw [hmore] at hflag
      cases hflag
    · rw [hzero, ← hweight]
      exact Direction.moves_commitMessage 0 _ (Frame.accountedBytes_ne_zero _)

theorem Lands.map {f : Completion → Completion} (h : Lands weight next)
    (hmetrics : ∀ s, (f s).metrics = s.metrics)
    (hf : ∀ s, s.Charged weight → (f s).Charged weight) : Lands weight (next.map f) := by
  obtain ⟨s', rfl, hcharged⟩ := h
  refine ⟨f s', rfl, fun hclear => hf s' (hcharged ?_)⟩
  rw [← hmetrics]
  exact hclear

theorem Charged.terminate (h : s.Charged weight) (hidle : s.publishing = none) :
    Lands weight s.terminate := by
  rw [Completion.terminate]
  split
  · refine (h.rollback hidle).map (fun _ => rfl) fun s' h' => ?_
    have hdelimiter : Charged weight
        { s' with active := false, complete := s'.complete ++ [Item.delimiter] } := by
      refine ⟨⟨h'.more, h'.incomplete⟩, h'.lane, ?_⟩
      change s'.direction.charge = _
      rw [h'.charge]
      simp only [Completion.charge, openFrames, committedFrames, closing, queued, frames_append,
        frames_delimiter, frames_nil, List.append_nil]
    exact hdelimiter.flush
  · exact Charged.lands ⟨⟨h.more, h.incomplete⟩, h.lane, h.charge⟩

theorem Charged.read (h : s.Charged weight) (hidle : s.releasing = none) :
    s.read.Charged weight := by
  rw [Completion.read]
  split
  · exact h
  · rename_i rest hflushed
    refine ⟨⟨h.more, h.incomplete⟩, h.lane, ?_⟩
    change s.direction.charge = _
    rw [h.charge]
    simp only [Completion.charge, openFrames, committedFrames, closing, queued, hflushed,
      List.cons_append, frames_delimiter]
  · rename_i frame rest hflushed
    refine ⟨⟨h.more, h.incomplete⟩, h.lane, ?_⟩
    change s.direction.charge = _
    rw [h.charge]
    simp only [Completion.charge, openFrames, committedFrames, closing, queued, hflushed, hidle,
      List.cons_append, frames_frame, weigh_append, counted_append, weigh_cons,
      counted_cons frame (frames _), counted_cons frame (_ ++ _), weigh_nil, counted_nil,
      Option.toList_none, Option.toList_some, Prod.mk.injEq, true_and, Nat.add_zero]
    constructor
    · omega
    · omega

theorem Charged.release (h : s.Charged weight) (hweight : Weighs weight) :
    Lands weight s.release := by
  rw [Completion.release]
  split
  · exact h.lands
  · rename_i frame hframe
    refine h.post rfl ⟨h.more, h.incomplete⟩
      (Direction.moves_releaseCommittedFrame hweight frame) ?_ ?_
    · simp only [Completion.charge, committedFrames, hframe, Option.toList_some, weigh_append,
        weigh_single, counted_append, Prod.mk_le_mk]
      omega
    · simp only [Completion.charge, openFrames, committedFrames, closing, queued, hframe,
        Option.toList_some, Option.toList_none, weigh_append, weigh_single, counted_append,
        weigh_nil,
        counted_nil, Prod.mk_add_mk, Prod.mk.injEq, true_and]
      constructor
      · omega
      · omega

theorem Charged.cleanupInboundPipe (h : s.Charged weight) (hweight : Weighs weight) :
    Lands weight s.cleanupInboundPipe := by
  rw [Completion.cleanupInboundPipe]
  refine h.post rfl ⟨h.more, h.incomplete⟩ (Direction.moves_releaseFrames hweight _) ?_ ?_
  · simp only [Completion.charge, committedFrames, queued, frames_append, weigh_append,
      counted_append, Prod.mk_le_mk]
    omega
  · simp only [Completion.charge, openFrames, committedFrames, closing, queued, frames_append,
      frames_nil, weigh_append, counted_append, weigh_nil, counted_nil, Prod.mk_add_mk,
      Prod.mk.injEq, true_and]
    constructor
    · omega
    · omega

theorem post_keeps (h : t.post operation = some s') :
    s' = { t with direction := s'.direction, metrics := s'.metrics } := by
  obtain ⟨next, -, rfl⟩ := Option.map_eq_some_iff.mp h
  rfl

theorem post_metrics {list : List Frame}
    (h : t.post (Direction.releaseFrames list) = some s') : s'.metrics = t.metrics := by
  obtain ⟨⟨d', m'⟩, hop, rfl⟩ := Option.map_eq_some_iff.mp h
  exact Direction.releaseFrames_clear hop

theorem Charged.processHiccup (h : s.Charged weight) (hweight : Weighs weight)
    (hclear : s.metrics.aggregateOverflow = false) (hidle : s.publishing = none) :
    Lands weight s.processHiccup := by
  have hdiscard : Lands weight ({ s with complete := [], flushed := [] }.post
      (Direction.releaseFrames (frames (s.flushed ++ s.complete)))) := by
    refine h.post rfl ⟨h.more, h.incomplete⟩ (Direction.moves_releaseFrames hweight _) ?_ ?_
    · simp only [Completion.charge, committedFrames, queued, frames_append, weigh_append,
        counted_append, Prod.mk_le_mk]
      omega
    · simp only [Completion.charge, openFrames, committedFrames, closing, queued, frames_append,
        frames_nil, weigh_append, counted_append, weigh_nil, counted_nil, Prod.mk_add_mk,
        Prod.mk.injEq, true_and]
      constructor
      · omega
      · omega
  obtain ⟨s₁, hs₁, hcharged₁⟩ := hdiscard
  have hclear₁ : s₁.metrics.aggregateOverflow = false := by
    rw [post_metrics hs₁]
    exact hclear
  have hidle₁ : s₁.publishing = none := by
    rw [post_keeps hs₁]
    exact hidle
  obtain ⟨s₂, hs₂, hcharged₂⟩ := (hcharged₁ hclear₁).rollback hidle₁
  refine ⟨{ s₂ with hiccups := s₂.hiccups - 1 }, ?_, fun hflag => ?_⟩
  · rw [Completion.processHiccup, hs₁]
    simp only [Option.bind_eq_bind, Option.bind_some, hs₂]
  · have h₂ := hcharged₂ hflag
    exact ⟨⟨h₂.more, h₂.incomplete⟩, h₂.lane, h₂.charge⟩

theorem publishing_of_idle (h : s.writerIdle = true) : s.publishing = none :=
  Option.isNone_iff_eq_none.mp h

theorem publishing_of_writable (h : s.writable = true) : s.publishing = none := by
  simp only [writable, Bool.and_eq_true] at h
  exact publishing_of_idle h.1.1

theorem Charged.step (h : s.Charged weight) (hweight : Weighs weight)
    (hclear : s.metrics.aggregateOverflow = false) (event : Event) :
    Lands weight (s.step event) := by
  cases event with
  | write frame maxMessageBytes admitted =>
    exact lands_guarded h fun hw => h.write hweight (publishing_of_writable hw) _ _ _
  | writeReserved frame generation payloadBytes msgFlags =>
    refine lands_guarded h fun hw => ?_
    simp only [Bool.and_eq_true, Bool.not_eq_true'] at hw
    exact h.writeReserved hweight (publishing_of_writable hw.1) _ hw.2
  | control size =>
    exact lands_guarded h fun hw => h.control hweight (publishing_of_writable hw) _
  | publish => exact h.publish.lands
  | flush => exact lands_guarded h fun _ => h.flush.lands
  | rollback => exact lands_guarded h fun hidle => h.rollback (publishing_of_idle hidle)
  | terminate => exact lands_guarded h fun hidle => h.terminate (publishing_of_idle hidle)
  | detach | hiccup =>
    exact lands_guarded h fun _ =>
      Charged.lands ⟨⟨h.more, h.incomplete⟩, h.lane, h.charge⟩
  | processHiccup =>
    refine lands_guarded h fun hidle => h.processHiccup hweight hclear ?_
    simp only [Bool.and_eq_true] at hidle
    exact publishing_of_idle hidle.1.1
  | read =>
    refine lands_guarded h fun hidle => (h.read ?_).lands
    simp only [Bool.and_eq_true, readerIdle] at hidle
    exact Option.isNone_iff_eq_none.mp hidle.1.1
  | release => exact h.release hweight
  | cleanupInboundPipe => exact lands_guarded h fun _ => h.cleanupInboundPipe hweight

theorem weighs_bytes : Weighs fun frame => frame.accountedBytes.toNat :=
  fun _ => rfl

def Raises (s : Completion) (next : Option Completion) : Prop :=
  ∀ s', next = some s' → s'.metrics.aggregateOverflow = false → s.metrics.aggregateOverflow = false

theorem raises_self (s : Completion) : s.Raises (some s) :=
  fun _ h hclear => Option.some.inj h ▸ hclear

theorem raises_pure (h : t.metrics = s.metrics) : s.Raises (some t) := by
  intro s' h' hclear
  rw [← Option.some.inj h', h] at hclear
  exact hclear

theorem raises_guarded {enabled : Bool} (h : s.Raises next) :
    s.Raises (s.guarded enabled next) := by
  cases enabled with
  | false => exact raises_self s
  | true => exact h

theorem raises_post {taken added : Charge}
    (hmetrics : t.metrics = s.metrics) (h : operation.Moves taken added) :
    s.Raises (t.post operation) := by
  intro s' h' hclear
  obtain ⟨⟨d', m'⟩, hop, rfl⟩ := Option.map_eq_some_iff.mp h'
  rw [← hmetrics]
  exact h.clear hop hclear

theorem raises_rollback (s : Completion) : s.Raises s.rollback :=
  raises_post rfl (Direction.moves_rollbackProvisional _)

theorem raises_write (s : Completion) (frame : Frame) (maxMessageBytes : UInt64)
    (admitted : Bool) : s.Raises (s.write frame maxMessageBytes admitted) := by
  rw [Completion.write]
  split
  · exact raises_self s
  · split
    · exact raises_post rfl (Direction.moves_accountProvisionalFrame frame.accountedBytes_ne_zero)
    · exact raises_post rfl (Direction.moves_commitMessage _ _ frame.accountedBytes_ne_zero)

theorem raises_writeReserved (s : Completion) (frame : Frame) (reservation : Reservation) :
    s.Raises (s.writeReserved frame reservation) := by
  rw [Completion.writeReserved]
  split
  · exact raises_self s
  · cases hflag : hasAny reservation.msgFlags Msg.more with
    | true =>
      refine raises_post rfl (Direction.moves_commitDecoderFrame _
        (fun _ => ⟨rfl, rfl⟩) fun hlast => ?_)
      rw [hflag] at hlast
      cases hlast
    | false =>
      refine raises_post rfl (Direction.moves_commitDecoderFrame _
        (fun hmore => ?_) fun _ => ⟨rfl, rfl⟩)
      rw [hflag] at hmore
      cases hmore

theorem raises_control (s : Completion) (size : UInt64) : s.Raises (s.control size) := by
  rw [Completion.control]
  split
  · exact raises_self s
  · exact raises_post rfl (Direction.moves_commitMessage _ _ (Frame.accountedBytes_ne_zero _))

theorem raises_terminate (s : Completion) : s.Raises s.terminate := by
  rw [Completion.terminate]
  split
  · intro s' h hclear
    obtain ⟨s₁, hs₁, rfl⟩ := Option.map_eq_some_iff.mp h
    exact raises_rollback s s₁ hs₁ hclear
  · exact raises_pure rfl

theorem raises_processHiccup (s : Completion) : s.Raises s.processHiccup := by
  intro s' h hclear
  obtain ⟨s₁, hs₁, h⟩ := Option.bind_eq_some_iff.mp h
  obtain ⟨s₂, hs₂, h⟩ := Option.bind_eq_some_iff.mp h
  rw [← Option.some.inj h] at hclear
  have hclear₁ := raises_rollback s₁ s₂ hs₂ hclear
  rw [post_metrics hs₁] at hclear₁
  exact hclear₁

theorem publish_metrics (s : Completion) : s.publish.metrics = s.metrics := by
  rw [Completion.publish]
  split
  · rfl
  · split
    · rfl
    · rfl

theorem read_metrics (s : Completion) : s.read.metrics = s.metrics := by
  rw [Completion.read]
  split
  all_goals rfl

theorem raises_step (s : Completion) (event : Event) : s.Raises (s.step event) := by
  cases event with
  | write frame maxMessageBytes admitted => exact raises_guarded (raises_write s _ _ _)
  | writeReserved frame generation payloadBytes msgFlags =>
    exact raises_guarded (raises_writeReserved s _ _)
  | control size => exact raises_guarded (raises_control s _)
  | publish => exact raises_pure (publish_metrics s)
  | flush | detach | hiccup => exact raises_guarded (raises_pure rfl)
  | rollback => exact raises_guarded (raises_rollback s)
  | terminate => exact raises_guarded (raises_terminate s)
  | processHiccup => exact raises_guarded (raises_processHiccup s)
  | read => exact raises_guarded (raises_pure (read_metrics s))
  | release =>
    rw [Completion.step, Completion.release]
    split
    · exact raises_self s
    · exact raises_post rfl (Direction.moves_releaseCommittedFrame weighs_bytes _)
  | cleanupInboundPipe =>
    exact raises_guarded (raises_post rfl (Direction.moves_releaseFrames weighs_bytes _))

/-- In every run along which no addition of the ledger saturates, no event fails, and between
two operations of the writer the counters are those of the frames: the provisional bytes are
the open multipart, the committed bytes are the frames in the queue and the one that the
reader has taken and not released, and the pending count is the number of complete messages
among these, routing ids and credentials apart. -/
theorem run_charged {queueId minimum : UInt64} {events : List Event}
    (hrun : Trace.run step (init queueId minimum) events = some s)
    (hclear : s.metrics.aggregateOverflow = false) : (∀ event, (s.step event).isSome) ∧
      (s.publishing = none → s.direction.provisionalAccountedBytes.toNat = bytes s.opened ∧
        s.direction.committedAccountedBytes.toNat = bytes (s.queued ++ s.releasing.toList) ∧
        s.direction.completionPendingMessageCount.toNat =
          counted (s.queued ++ s.releasing.toList)) := by
  have hstep : ∀ (x : Completion) (e : Event) (y : Completion),
      (x.metrics.aggregateOverflow = false →
        x.Charged fun frame => frame.accountedBytes.toNat) → True → x.step e = some y →
      (y.metrics.aggregateOverflow = false →
        y.Charged fun frame => frame.accountedBytes.toNat) := by
    intro x e y hx _ hy hflag
    have hflag' := raises_step x e y hy hflag
    obtain ⟨z, hz, hcharged⟩ := (hx hflag').step weighs_bytes hflag' e
    obtain rfl := Option.some.inj (hz.symm.trans hy)
    exact hcharged hflag
  have h : s.Charged fun frame => frame.accountedBytes.toNat :=
    Trace.run_invariant hstep (fun _ => charged_init _ queueId minimum) (Trace.along_true _ _)
      hrun hclear
  constructor
  · intro event
    obtain ⟨s', hs', -⟩ := h.step weighs_bytes hclear event
    rw [hs']
    rfl
  · intro hidle
    have hcharge := h.charge
    rw [charge_idle hidle] at hcharge
    simp only [Direction.charge, Prod.mk.injEq] at hcharge
    exact hcharge

/-- A message of two frames, of which the reader has taken the first. -/
def halfRead : List Event :=
  [.write { flags := Msg.more, size := 10 } 0 true, .publish,
    .write { flags := 0, size := 20 } 0 true, .publish, .flush, .read, .release]

theorem run_charged_halfRead : ∃ s, Trace.run step (init 1 0) halfRead = some s ∧
    s.direction.committedAccountedBytes.toNat = bytes (s.queued ++ s.releasing.toList) ∧
    s.direction.completionPendingMessageCount.toNat = counted (s.queued ++ s.releasing.toList) := by
  have hrun : ((Trace.run step (init 1 0) halfRead).any fun s =>
      s.metrics.aggregateOverflow == false && s.publishing.isNone) = true := by decide +kernel
  obtain ⟨s, hs, hflags⟩ := (Option.any_eq_true _ _).mp hrun
  rw [Bool.and_eq_true, beq_iff_eq, Option.isNone_iff_eq_none] at hflags
  exact ⟨s, hs, ((run_charged hs hflags.1).2 hflags.2).2⟩

/-- Two queued messages whose charges together leave the words. -/
def saturating : List Event :=
  [.write { flags := 0, size := 2 ^ 63 } 0 true, .publish,
    .write { flags := 0, size := 2 ^ 63 } 0 true, .publish, .flush, .read, .release, .read]

/-- The committed total stays at the largest word, so that the second release underflows. -/
theorem release_underflows : (Trace.run step (init 1 0) saturating).isSome ∧
    Trace.run step (init 1 0) (saturating ++ [.release]) = none := by
  constructor
  all_goals decide +kernel

end Completion

end Zlink.Ledger
