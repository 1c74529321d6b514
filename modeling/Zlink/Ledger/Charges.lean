import Zlink.Ledger.Completion

/-!
# What the ledger of a completion lane counts

The ledger's view of a pipe is two lists of frames: the open multipart, and the committed
frames that no one has released. `Moves` says how an operation moves the three counters while
no addition saturates; a step of the pipe moves the two lists by the same amounts, so that the
counters are the bytes and the messages of the lists throughout, and no subtraction fails.
-/

namespace Zlink.Ledger

open Word64 AutoHwm Protocol

/-- Provisional bytes, committed bytes, and complete messages. -/
abbrev Charge := ℕ × ℕ × ℕ

def Direction.charge (d : Direction) : Charge :=
  (d.provisionalAccountedBytes.toNat, d.committedAccountedBytes.toNat,
    d.completionPendingMessageCount.toNat)

variable (weight : Frame → ℕ)

def weigh (frames : List Frame) : ℕ :=
  (frames.map weight).sum

def Weighs : Prop :=
  ∀ frame : Frame, frame.accountedBytes.toNat = weight frame

def bytes (frames : List Frame) : ℕ :=
  weigh (fun frame => frame.accountedBytes.toNat) frames

def counted (frames : List Frame) : ℕ :=
  frames.countP Frame.countedPending

@[simp] theorem weigh_nil : weigh weight [] = 0 := rfl

@[simp] theorem counted_nil : counted [] = 0 := rfl

theorem weigh_cons (frame : Frame) (frames : List Frame) :
    weigh weight (frame :: frames) = weight frame + weigh weight frames := by
  rw [weigh, List.map_cons, List.sum_cons, weigh]

@[simp] theorem weigh_append (left right : List Frame) :
    weigh weight (left ++ right) = weigh weight left + weigh weight right := by
  rw [weigh, List.map_append, List.sum_append, weigh, weigh]

@[simp] theorem weigh_single (frame : Frame) : weigh weight [frame] = weight frame := by
  rw [weigh, List.map_singleton, List.sum_singleton]

theorem counted_cons (frame : Frame) (frames : List Frame) :
    counted (frame :: frames) = counted [frame] + counted frames := by
  rw [counted, counted, counted, ← List.countP_append, List.singleton_append]

@[simp] theorem counted_append (left right : List Frame) :
    counted (left ++ right) = counted left + counted right :=
  List.countP_append

theorem counted_single (frame : Frame) :
    counted [frame] = if frame.countedPending then 1 else 0 := by
  rw [counted, List.countP_singleton]

theorem counted_of_more {frames : List Frame} (h : ∀ frame ∈ frames, frame.more = true) :
    counted frames = 0 := by
  apply List.countP_eq_zero.mpr
  intro frame hframe hcounted
  rw [Frame.countedPending, h frame hframe] at hcounted
  cases hcounted

@[simp] theorem frames_append (left right : List Item) :
    frames (left ++ right) = frames left ++ frames right :=
  List.filterMap_append

@[simp] theorem frames_nil : frames [] = [] := rfl

@[simp] theorem frames_delimiter (items : List Item) :
    frames (.delimiter :: items) = frames items := rfl

@[simp] theorem frames_frame (frame : Frame) (items : List Item) :
    frames (.frame frame :: items) = frame :: frames items := rfl

@[simp] theorem frames_map (list : List Frame) : frames (list.map Item.frame) = list := by
  induction list with
  | nil => rfl
  | cons frame list ih => rw [List.map_cons, frames_frame, ih]

namespace Frame

theorem accountedBytes_pos (frame : Frame) : 0 < frame.accountedBytes.toNat := by
  rw [accountedBytes]
  split
  · decide
  · rename_i hfits
    have hle : metadataBytes.toNat ≤ (maxWord - frame.size).toNat :=
      UInt64.le_iff_toNat_le.mp (UInt64.not_lt.mp hfits)
    have hsize := toNat_lt_pow frame.size
    have hmetadata : metadataBytes.toNat = 64 := rfl
    rw [toNat_sub_of_le, toNat_maxWord, hmetadata] at hle
    · rw [toNat_add_of_lt, hmetadata]
      · exact Nat.add_pos_right _ (by decide)
      · rw [hmetadata]
        omega
    · rw [toNat_maxWord]
      omega

theorem accountedBytes_ne_zero (frame : Frame) : frame.accountedBytes ≠ 0 := by
  intro h
  exact Nat.ne_of_gt frame.accountedBytes_pos ((eq_zero_iff _).mp h)

theorem countedMessages_toNat (frame : Frame) : frame.countedMessages.toNat = counted [frame] := by
  rw [counted_single, countedMessages]
  split
  · rfl
  · rfl

end Frame

theorem subtractExact_of_le {value amount : UInt64} (h : amount.toNat ≤ value.toNat) :
    ∃ left, subtractExact value amount = some left ∧ left.toNat + amount.toNat = value.toNat := by
  refine ⟨value - amount, if_pos (UInt64.le_iff_toNat_le.mpr h), ?_⟩
  rw [toNat_sub_of_le h]
  omega

theorem saturatingAdd_spec (value amount : UInt64) (overflow : Bool) :
    ∃ sum, saturatingAdd value amount overflow = sum ∧ (sum.2 = false →
      overflow = false ∧ sum.1.toNat = value.toNat + amount.toNat) := by
  refine ⟨_, rfl, fun h => ?_⟩
  rw [saturatingAdd] at h ⊢
  split at h
  · cases h
  · rename_i hfits
    rw [if_neg hfits]
    refine ⟨h, toNat_add_of_lt ?_⟩
    have hle : amount.toNat ≤ (maxWord - value).toNat :=
      UInt64.le_iff_toNat_le.mp (UInt64.not_lt.mp hfits)
    have hvalue := toNat_lt_pow value
    rw [toNat_sub_of_le, toNat_maxWord] at hle
    · omega
    · rw [toNat_maxWord]
      omega

namespace Direction

/-- The operation takes one amount out of the ledger and adds another, as long as no addition
raises the flag of the registry. -/
structure Operation.Moves (operation : Operation) (taken added : Charge) : Prop where
  clear : ∀ ⦃d m d' m'⦄, operation d m = some (d', m') → m'.aggregateOverflow = false →
    m.aggregateOverflow = false
  runs : ∀ ⦃d⦄ m, d.lane = .completion → taken ≤ d.charge →
    ∃ d' m', operation d m = some (d', m') ∧ d'.lane = .completion ∧
      (m'.aggregateOverflow = false → d'.charge + taken = d.charge + added)

@[simp] theorem applyDeferredHwmIfDrained_charge (d : Direction) :
    d.applyDeferredHwmIfDrained.charge = d.charge := by
  rw [applyDeferredHwmIfDrained]
  split
  · rfl
  · split
    · rfl
    · rfl

@[simp] theorem applyDeferredHwmIfDrained_lane (d : Direction) :
    d.applyDeferredHwmIfDrained.lane = d.lane := by
  rw [applyDeferredHwmIfDrained]
  split
  · rfl
  · split
    · rfl
    · rfl

variable {d : Direction}

theorem accountingLane_completion (h : d.lane = .completion) :
    accountingLane d.lane = .completion := by
  rw [h]
  rfl

theorem moves_accountProvisionalFrame {frameBytes : UInt64} (hne : frameBytes ≠ 0) :
    Operation.Moves (accountProvisionalFrame frameBytes) (0, 0, 0) (frameBytes.toNat, 0, 0) := by
  constructor
  · intro d m d' m' h hclear
    rw [accountProvisionalFrame, if_neg hne] at h
    obtain ⟨sum, hsum, hexact⟩ :=
      saturatingAdd_spec d.provisionalAccountedBytes frameBytes m.aggregateOverflow
    rw [hsum] at h
    obtain ⟨-, rfl⟩ := Prod.mk.inj (Option.some.inj h)
    exact (hexact hclear).1
  · intro d m hlane _
    rw [accountProvisionalFrame, if_neg hne]
    obtain ⟨sum, hsum, hexact⟩ :=
      saturatingAdd_spec d.provisionalAccountedBytes frameBytes m.aggregateOverflow
    rw [hsum]
    refine ⟨_, _, rfl, hlane, fun hclear => ?_⟩
    simp only [charge, (hexact hclear).2, Nat.add_zero, Prod.mk_add_mk]

variable {final provisional : UInt64} {d' : Direction} {m m' : Metrics}

theorem commitBytes_clear (h : commitBytes provisional final d m = some (d', m'))
    (hclear : m'.aggregateOverflow = false) : m.aggregateOverflow = false := by
  obtain ⟨left, -, h⟩ := Option.map_eq_some_iff.mp h
  obtain ⟨message, hmessage, hfirst⟩ :=
    saturatingAdd_spec provisional final m.aggregateOverflow
  obtain ⟨committed, hcommitted, hsecond⟩ :=
    saturatingAdd_spec d.committedAccountedBytes message.1 message.2
  simp only [hmessage, hcommitted] at h
  obtain ⟨-, rfl⟩ := Prod.mk.inj h
  exact (hfirst (hsecond hclear).1).1

variable {count : Bool}

theorem countPending_clear
    (h : countPending count d m = some (d', m')) (hclear : m'.aggregateOverflow = false) :
    m.aggregateOverflow = false := by
  rw [countPending] at h
  split at h
  · obtain ⟨pending, hpending, hexact⟩ :=
      saturatingAdd_spec d.completionPendingMessageCount 1 m.aggregateOverflow
    rw [hpending] at h
    obtain ⟨-, rfl⟩ := Prod.mk.inj (Option.some.inj h)
    exact (hexact hclear).1
  · obtain ⟨-, rfl⟩ := Prod.mk.inj (Option.some.inj h)
    exact hclear

theorem takeProvisional_spec (h : provisional.toNat ≤ d.provisionalAccountedBytes.toNat) :
    ∃ left, d.takeProvisional provisional = some left ∧
      left.toNat + provisional.toNat = d.provisionalAccountedBytes.toNat := by
  rw [takeProvisional]
  split
  · exact subtractExact_of_le h
  · rename_i hzero
    refine ⟨_, rfl, ?_⟩
    rw [toNat_pos_iff, Nat.not_lt, Nat.le_zero] at hzero
    rw [hzero, Nat.add_zero]

theorem countPending_runs (count : Bool) (m : Metrics) (hlane : d.lane = .completion) :
    ∃ d' m', countPending count d m = some (d', m') ∧ d'.lane = .completion ∧
      (m'.aggregateOverflow = false → d'.charge = d.charge + (0, 0, if count then 1 else 0)) := by
  cases count with
  | false => exact ⟨d, m, rfl, hlane, fun _ => rfl⟩
  | true =>
    rw [countPending, if_pos rfl]
    obtain ⟨pending, hpending, hexact⟩ :=
      saturatingAdd_spec d.completionPendingMessageCount 1 m.aggregateOverflow
    rw [hpending]
    refine ⟨_, _, rfl, hlane, fun hclear => ?_⟩
    have hone : (1 : UInt64).toNat = 1 := rfl
    simp only [charge, (hexact hclear).2, Prod.mk_add_mk, Nat.add_zero, if_true, hone]

theorem commitBytes_runs (final : UInt64) (m : Metrics) (hlane : d.lane = .completion)
    (htaken : provisional.toNat ≤ d.provisionalAccountedBytes.toNat) :
    ∃ d' m', commitBytes provisional final d m = some (d', m') ∧ d'.lane = .completion ∧
      (m'.aggregateOverflow = false → d'.charge + (provisional.toNat, 0, 0) =
        d.charge + (0, provisional.toNat + final.toNat, 0)) := by
  obtain ⟨left, hleft, hsum⟩ := takeProvisional_spec htaken
  obtain ⟨message, hmessage, hfirst⟩ :=
    saturatingAdd_spec provisional final m.aggregateOverflow
  obtain ⟨committed, hcommitted, hsecond⟩ :=
    saturatingAdd_spec d.committedAccountedBytes message.1 message.2
  simp only [commitBytes, hleft, Option.map_some, hmessage, hcommitted]
  refine ⟨_, _, rfl, hlane, fun hclear => ?_⟩
  obtain ⟨hflag, hexact⟩ := hsecond hclear
  simp only [charge, hexact, (hfirst hflag).2, Prod.mk_add_mk, hsum, Nat.add_zero]

theorem commit_runs (final : UInt64) (count : Bool) (m : Metrics) (hlane : d.lane = .completion)
    (htaken : provisional.toNat ≤ d.provisionalAccountedBytes.toNat) :
    ∃ d' m', ((commitBytes provisional final d m).bind fun next =>
        countPending count next.1 next.2) = some (d', m') ∧ d'.lane = .completion ∧
      (m'.aggregateOverflow = false → d'.charge + (provisional.toNat, 0, 0) =
        d.charge + (0, provisional.toNat + final.toNat, if count then 1 else 0)) := by
  obtain ⟨d₁, m₁, hbytes, hlane₁, hcharge₁⟩ := commitBytes_runs final m hlane htaken
  obtain ⟨d₂, m₂, hpending, hlane₂, hcharge₂⟩ := countPending_runs count m₁ hlane₁
  rw [hbytes]
  refine ⟨d₂, m₂, hpending, hlane₂, fun hclear => ?_⟩
  have hclear₁ := countPending_clear hpending hclear
  have hfirst := hcharge₁ hclear₁
  rw [hcharge₂ hclear]
  simp only [Prod.ext_iff, Prod.fst_add, Prod.snd_add] at hfirst ⊢
  omega

theorem commit_clear (h : ((commitBytes provisional final d m).bind fun next =>
      countPending count next.1 next.2) = some (d', m'))
    (hclear : m'.aggregateOverflow = false) : m.aggregateOverflow = false := by
  obtain ⟨next, hbytes, h⟩ := Option.bind_eq_some_iff.mp h
  exact commitBytes_clear hbytes (countPending_clear h hclear)

theorem moves_commitMessage (provisional : UInt64) (count : Bool) (hne : final ≠ 0) :
    Operation.Moves (commitMessage provisional final count false) (provisional.toNat, 0, 0)
      (0, provisional.toNat + final.toNat, if count then 1 else 0) := by
  constructor
  · intro d m d' m' h hclear
    rw [commitMessage, if_neg hne] at h
    obtain ⟨next, hbytes, h⟩ := Option.bind_eq_some_iff.mp h
    apply commitBytes_clear hbytes
    split at h
    · obtain ⟨-, rfl⟩ := Prod.mk.inj (Option.some.inj h)
      exact hclear
    · exact countPending_clear h hclear
    · obtain rfl := Option.some.inj h
      exact hclear
  · intro d m hlane htaken
    rw [commitMessage, if_neg hne, accountingLane_completion hlane]
    exact commit_runs final count m hlane htaken.1

theorem moves_commitDecoderFrame {reservation : Reservation} (provisional : UInt64)
    {taken added : Charge}
    (hmore : hasAny reservation.msgFlags Msg.more = true →
      taken = (0, 0, 0) ∧ added = (reservation.frameBytes.toNat, 0, 0))
    (hlast : hasAny reservation.msgFlags Msg.more = false → taken = (provisional.toNat, 0, 0) ∧
      added = (0, provisional.toNat + reservation.frameBytes.toNat, if count then 1 else 0)) :
    Operation.Moves (commitDecoderFrame reservation provisional count) taken added := by
  constructor
  · intro d m d' m' h hclear
    rw [commitDecoderFrame] at h
    split at h
    · obtain ⟨-, rfl⟩ := Prod.mk.inj (Option.some.inj h)
      exact hclear
    · split at h
      · obtain ⟨sum, hsum, hexact⟩ := saturatingAdd_spec d.provisionalAccountedBytes
          reservation.frameBytes m.aggregateOverflow
        rw [hsum] at h
        obtain ⟨-, rfl⟩ := Prod.mk.inj (Option.some.inj h)
        exact (hexact hclear).1
      · exact commit_clear h hclear
  · intro d m hlane htaken
    have hnot : ¬ accountingLane d.lane = .application := by
      rw [hlane]
      decide
    rw [commitDecoderFrame, if_neg hnot]
    split
    · rename_i hflag
      obtain ⟨rfl, rfl⟩ := hmore hflag
      obtain ⟨sum, hsum, hexact⟩ := saturatingAdd_spec d.provisionalAccountedBytes
        reservation.frameBytes m.aggregateOverflow
      rw [hsum]
      refine ⟨_, _, rfl, hlane, fun hclear => ?_⟩
      simp only [charge, (hexact hclear).2, Nat.add_zero, Prod.mk_add_mk]
    · rename_i hflag
      obtain ⟨rfl, rfl⟩ := hlast (Bool.not_eq_true _ ▸ hflag)
      simp only [charge, Prod.mk_le_mk] at htaken
      exact commit_runs reservation.frameBytes count m hlane htaken.1

theorem moves_rollbackProvisional (frameBytes : UInt64) :
    Operation.Moves (rollbackProvisional frameBytes) (frameBytes.toNat, 0, 0) (0, 0, 0) := by
  constructor
  · intro d m d' m' h hclear
    rw [rollbackProvisional] at h
    split at h
    · obtain ⟨-, rfl⟩ := Prod.mk.inj (Option.some.inj h)
      exact hclear
    · obtain ⟨left, -, h⟩ := Option.map_eq_some_iff.mp h
      obtain ⟨-, rfl⟩ := Prod.mk.inj h
      exact hclear
  · intro d m hlane htaken
    rw [rollbackProvisional]
    split
    · rename_i hzero
      refine ⟨_, _, rfl, hlane, fun _ => ?_⟩
      rw [hzero]
      rfl
    · obtain ⟨left, hleft, hsum⟩ := subtractExact_of_le htaken.1
      rw [hleft]
      refine ⟨_, _, rfl, ?_, fun _ => ?_⟩
      · rw [applyDeferredHwmIfDrained_lane]
        exact hlane
      · rw [applyDeferredHwmIfDrained_charge]
        simp only [charge, Prod.mk_add_mk, hsum, Nat.add_zero]

/-! The charge of a frame enters as a weight that the proofs do not look into. -/

variable {weight : Frame → ℕ}

theorem releaseCommittedFrame_exact (m : Metrics) (frame : Frame) (hlane : d.lane = .completion)
    (htaken : (0, frame.accountedBytes.toNat, counted [frame]) ≤ d.charge) :
    ∃ d', releaseCommittedFrame frame.accountedBytes frame.countedMessages d m = some (d', m) ∧
      d'.lane = .completion ∧
      d'.charge + (0, frame.accountedBytes.toNat, counted [frame]) = d.charge := by
  simp only [charge, Prod.mk_le_mk] at htaken
  obtain ⟨-, hcommitted, hpending⟩ := htaken
  obtain ⟨left, hleft, hsum⟩ := subtractExact_of_le hcommitted
  rw [← frame.countedMessages_toNat] at hpending ⊢
  have htake : ∃ pending, d.takePending frame.countedMessages = some pending ∧
      pending.toNat + frame.countedMessages.toNat = d.completionPendingMessageCount.toNat := by
    rw [takePending]
    split
    · exact subtractExact_of_le hpending
    · rename_i hnone
      refine ⟨_, rfl, ?_⟩
      have hzero : ¬ 0 < frame.countedMessages.toNat := fun hpos =>
        hnone ⟨accountingLane_completion hlane, (toNat_pos_iff _).mpr hpos⟩
      omega
  obtain ⟨pending, htake, hcount⟩ := htake
  rw [releaseCommittedFrame, if_neg frame.accountedBytes_ne_zero, hleft, Option.bind_some, htake]
  refine ⟨_, rfl, ?_, ?_⟩
  · rw [applyDeferredHwmIfDrained_lane]
    exact hlane
  · rw [applyDeferredHwmIfDrained_charge]
    simp only [charge, Prod.mk_add_mk, hsum, hcount, Nat.add_zero]

theorem releaseFrames_exact (hweight : Weighs weight) (m : Metrics)
    (list : List Frame) (hlane : d.lane = .completion)
    (htaken : (0, weigh weight list, counted list) ≤ d.charge) :
    ∃ d', releaseFrames list d m = some (d', m) ∧ d'.lane = .completion ∧
      d'.charge + (0, weigh weight list, counted list) = d.charge := by
  induction list generalizing d with
  | nil => exact ⟨d, rfl, hlane, rfl⟩
  | cons frame rest ih =>
    rw [weigh_cons, counted_cons] at htaken ⊢
    simp only [charge, Prod.mk_le_mk] at htaken
    obtain ⟨-, hbytes, hcounted⟩ := htaken
    have hfirst : (0, frame.accountedBytes.toNat, counted [frame]) ≤ d.charge := by
      rw [hweight]
      simp only [charge, Prod.mk_le_mk]
      omega
    obtain ⟨d₁, hd₁, hlane₁, hcharge₁⟩ := releaseCommittedFrame_exact m frame hlane hfirst
    rw [hweight] at hcharge₁
    have hrest : (0, weigh weight rest, counted rest) ≤ d₁.charge := by
      simp only [charge, Prod.mk_add_mk, Prod.mk.injEq] at hcharge₁
      simp only [charge, Prod.mk_le_mk]
      omega
    obtain ⟨d₂, hd₂, hlane₂, hcharge₂⟩ := ih hlane₁ hrest
    refine ⟨d₂, ?_, hlane₂, ?_⟩
    · rw [releaseFrames, hd₁]
      exact hd₂
    · simp only [charge, Prod.mk_add_mk, Prod.mk.injEq] at hcharge₁ hcharge₂ ⊢
      omega

theorem releaseFrames_clear {list : List Frame}
    (h : releaseFrames list d m = some (d', m')) : m' = m := by
  induction list generalizing d m with
  | nil => exact (Prod.mk.inj (Option.some.inj h)).2.symm
  | cons frame rest ih =>
    obtain ⟨⟨d₁, m₁⟩, hrelease, h⟩ := Option.bind_eq_some_iff.mp h
    rw [ih h]
    rw [releaseCommittedFrame, if_neg frame.accountedBytes_ne_zero] at hrelease
    obtain ⟨left, -, hrelease⟩ := Option.bind_eq_some_iff.mp hrelease
    obtain ⟨pending, -, hrelease⟩ := Option.map_eq_some_iff.mp hrelease
    exact (Prod.mk.inj hrelease).2.symm

theorem moves_releaseFrames (hweight : Weighs weight) (list : List Frame) :
    Operation.Moves (releaseFrames list) (0, weigh weight list, counted list) (0, 0, 0) := by
  constructor
  · intro d m d' m' h hclear
    rw [← releaseFrames_clear h]
    exact hclear
  · intro d m hlane htaken
    obtain ⟨d', hd', hlane', hcharge⟩ := releaseFrames_exact hweight m list hlane htaken
    exact ⟨d', m, hd', hlane', fun _ => hcharge⟩

theorem moves_releaseCommittedFrame (hweight : Weighs weight) (frame : Frame) :
    Operation.Moves (releaseCommittedFrame frame.accountedBytes frame.countedMessages)
      (0, weight frame, counted [frame]) (0, 0, 0) := by
  have hsingle : releaseCommittedFrame frame.accountedBytes frame.countedMessages =
      releaseFrames [frame] := by
    funext d m
    rw [releaseFrames]
    cases releaseCommittedFrame frame.accountedBytes frame.countedMessages d m with
    | none | some => rfl
  rw [hsingle, ← weigh_single weight frame]
  exact moves_releaseFrames hweight [frame]

end Direction

end Zlink.Ledger
