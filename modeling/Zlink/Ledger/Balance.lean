import Zlink.Ledger.Registry

/-!
# The reserved total is the sum of the reservations

`Balanced` is what holds of the registry and its endpoints between two operations. The
operations on one direction keep its id, its references and its reservation (`Keeps`); only
the creation of a pair and the release of an endpoint move the total.
-/

namespace Zlink.Ledger

open Word64 AutoHwm

def Direction.Quiet (direction : Direction) : Prop :=
  accountingLane direction.lane ≠ .completion → direction.completionPendingMessageCount = 0

namespace Direction

structure Keeps (d d' : Direction) : Prop where
  queueId : d'.queueId = d.queueId
  endpointRefs : d'.endpointRefs = d.endpointRefs
  minimum : d'.minimumReservationBytes = d.minimumReservationBytes
  quiet : d.Quiet → d'.Quiet

variable {d d' d'' : Direction} {m m' : Metrics}

theorem Keeps.refl (d : Direction) : d.Keeps d :=
  ⟨rfl, rfl, rfl, fun hquiet hlane => hquiet hlane⟩

theorem Keeps.trans (h : d.Keeps d') (h' : d'.Keeps d'') : d.Keeps d'' :=
  ⟨h'.queueId.trans h.queueId, h'.endpointRefs.trans h.endpointRefs,
    h'.minimum.trans h.minimum, h'.quiet ∘ h.quiet⟩

def Operation.Safe (operation : Operation) : Prop :=
  ∀ ⦃d m d' m'⦄, operation d m = some (d', m') → d.Keeps d'

theorem keeps_applyDeferredHwmIfDrained (d : Direction) : d.Keeps d.applyDeferredHwmIfDrained := by
  rw [applyDeferredHwmIfDrained]
  split
  · exact .refl d
  · split
    · exact ⟨rfl, rfl, rfl, fun hquiet hlane => hquiet hlane⟩
    · exact .refl d

theorem keeps_updateHwmTarget (target sampled : UInt64) (d : Direction) :
    d.Keeps (d.updateHwmTarget target sampled) := by
  simp only [updateHwmTarget]
  split
  all_goals exact ⟨rfl, rfl, rfl, fun hquiet hlane => hquiet hlane⟩

theorem keeps_advanceGeneration (d : Direction) : d.Keeps d.advanceGeneration :=
  ⟨rfl, rfl, rfl, fun hquiet hlane => hquiet hlane⟩

theorem safe_accountProvisionalFrame (frameBytes : UInt64) :
    Operation.Safe (accountProvisionalFrame frameBytes) := by
  intro d m d' m' h
  rw [accountProvisionalFrame] at h
  split at h
  · cases h
  · obtain ⟨rfl, -⟩ := Prod.mk.inj (Option.some.inj h)
    exact ⟨rfl, rfl, rfl, fun hquiet hlane => hquiet hlane⟩

theorem safe_commitBytes (provisional final : UInt64) :
    Operation.Safe (commitBytes provisional final) := by
  intro d m d' m' h
  obtain ⟨left, -, h⟩ := Option.map_eq_some_iff.mp h
  obtain ⟨rfl, -⟩ := Prod.mk.inj h
  exact ⟨rfl, rfl, rfl, fun hquiet hlane => hquiet hlane⟩

theorem safe_countOversize (oversize : Bool) (messageBytes : UInt64) :
    Operation.Safe (countOversize oversize messageBytes) := by
  intro d m d' m' h
  rw [countOversize] at h
  split at h
  all_goals
    obtain ⟨rfl, -⟩ := Prod.mk.inj (Option.some.inj h)
    exact .refl d

theorem keeps_countPending {counted : Bool} (hlane : accountingLane d.lane = .completion)
    (h : countPending counted d m = some (d', m')) : d.Keeps d' := by
  rw [countPending] at h
  split at h
  · obtain ⟨rfl, -⟩ := Prod.mk.inj (Option.some.inj h)
    exact ⟨rfl, rfl, rfl, fun _ hne => (hne hlane).elim⟩
  · obtain ⟨rfl, -⟩ := Prod.mk.inj (Option.some.inj h)
    exact .refl d

theorem commitBytes_lane {provisional final : UInt64}
    (h : commitBytes provisional final d m = some (d', m')) : d'.lane = d.lane := by
  obtain ⟨left, -, h⟩ := Option.map_eq_some_iff.mp h
  obtain ⟨rfl, -⟩ := Prod.mk.inj h
  rfl

theorem safe_commitMessage (provisional final : UInt64) (counted oversize : Bool) :
    Operation.Safe (commitMessage provisional final counted oversize) := by
  intro d m d' m' h
  rw [commitMessage] at h
  split at h
  · cases h
  · obtain ⟨⟨next, metrics⟩, hbytes, h⟩ := Option.bind_eq_some_iff.mp h
    have hkeeps := safe_commitBytes provisional final hbytes
    split at h
    · exact hkeeps.trans (safe_countOversize _ _ h)
    · rename_i hlane
      rw [← commitBytes_lane hbytes] at hlane
      exact hkeeps.trans (keeps_countPending hlane h)
    · obtain ⟨rfl, -⟩ := Prod.mk.inj (Option.some.inj h)
      exact hkeeps

theorem safe_rollbackProvisional (frameBytes : UInt64) :
    Operation.Safe (rollbackProvisional frameBytes) := by
  intro d m d' m' h
  rw [rollbackProvisional] at h
  split at h
  · obtain ⟨rfl, -⟩ := Prod.mk.inj (Option.some.inj h)
    exact .refl d
  · obtain ⟨left, -, h⟩ := Option.map_eq_some_iff.mp h
    obtain ⟨rfl, -⟩ := Prod.mk.inj h
    have hkeeps : d.Keeps { d with provisionalAccountedBytes := left } :=
      ⟨rfl, rfl, rfl, fun hquiet hlane => hquiet hlane⟩
    exact hkeeps.trans (keeps_applyDeferredHwmIfDrained _)

theorem safe_releaseCommittedFrame (frameBytes count : UInt64) :
    Operation.Safe (releaseCommittedFrame frameBytes count) := by
  intro d m d' m' h
  rw [releaseCommittedFrame] at h
  split at h
  · obtain ⟨rfl, -⟩ := Prod.mk.inj (Option.some.inj h)
    exact .refl d
  · obtain ⟨left, -, h⟩ := Option.bind_eq_some_iff.mp h
    obtain ⟨pending, hpending, h⟩ := Option.map_eq_some_iff.mp h
    obtain ⟨rfl, -⟩ := Prod.mk.inj h
    have hkeeps : d.Keeps
        { d with committedAccountedBytes := left, completionPendingMessageCount := pending } := by
      refine ⟨rfl, rfl, rfl, fun hquiet hlane => ?_⟩
      -- Off the completion lane no message is counted, and none is taken back.
      have hnot : ¬ (accountingLane d.lane = .completion ∧ 0 < count) :=
        fun hboth => hlane hboth.1
      rw [takePending, if_neg hnot] at hpending
      exact (Option.some.inj hpending).symm.trans (hquiet hlane)
    exact hkeeps.trans (keeps_applyDeferredHwmIfDrained _)

theorem safe_classifyDirection (lane : Lane) :
    Operation.Safe (World.pureOperation (Registry.classifyDirection lane)) := by
  intro d m d' m' h
  obtain ⟨next, hnext, h⟩ := Option.map_eq_some_iff.mp h
  cases h
  simp only [Registry.classifyDirection] at hnext
  split at hnext
  · cases hnext
    exact .refl d
  · split at hnext
    · rename_i hlane
      have happlication : accountingLane d.lane ≠ .completion := by
        rw [hlane]
        decide
      split at hnext
      · split at hnext
        all_goals
          cases hnext
          exact ⟨rfl, rfl, rfl, fun hquiet _ => hquiet happlication⟩
      · cases hnext
    · split at hnext
      · cases hnext
        exact .refl d
      · cases hnext

theorem safe_pure {f : Direction → Direction} (hf : ∀ d : Direction, d.Keeps (f d)) :
    Operation.Safe (World.pureOperation fun d => some (f d)) := by
  intro d m d' m' h
  cases h
  exact hf d

end Direction

def Registry.reserved (registry : Registry) : ℕ :=
  (registry.directions.map fun direction => direction.minimumReservationBytes.toNat).sum

structure World.Balanced (world : World) : Prop where
  reserved : world.registry.applicationReservedBytes.toNat = world.registry.reserved
  unique : Keyed.Unique Direction.queueId world.registry.directions
  held : world.endpoints.Nodup
  refs : ∀ direction ∈ world.registry.directions, 0 < direction.endpointRefs.toNat ∧
    direction.endpointRefs.toNat =
      world.endpoints.countP fun endpoint => endpoint.1 = direction.queueId
  owned : ∀ endpoint ∈ world.endpoints, endpoint.1 ∈ world.registry.directions.map Direction.queueId
  quiet : ∀ direction ∈ world.registry.directions, direction.Quiet

namespace World

variable {world world' : World} {id : UInt64}

theorem balanced_init : World.init.Balanced where
  reserved := rfl
  unique := List.nodup_nil
  held := List.nodup_nil
  refs _ h := by cases h
  owned _ h := by cases h
  quiet _ h := by cases h

theorem Balanced.replace {d : Direction} {f : Direction → Direction}
    {endpoints : List (UInt64 × Bool)} {metrics : Metrics} (h : world.Balanced)
    (hfind : Keyed.find Direction.queueId id world.registry.directions = some d)
    (hid : (f d).queueId = d.queueId)
    (hminimum : (f d).minimumReservationBytes = d.minimumReservationBytes)
    (hquiet : d.Quiet → (f d).Quiet)
    (hheld : endpoints.Nodup) (hsub : ∀ endpoint ∈ endpoints, endpoint ∈ world.endpoints)
    (hothers : ∀ q, q ≠ id → (endpoints.countP fun endpoint => endpoint.1 = q) =
      world.endpoints.countP fun endpoint => endpoint.1 = q)
    (hrefs : 0 < (f d).endpointRefs.toNat ∧ (f d).endpointRefs.toNat =
      endpoints.countP fun endpoint => endpoint.1 = id) :
    World.Balanced { registry := { world.registry.modify id f with metrics }, endpoints } := by
  have honly : ∀ b ∈ world.registry.directions, b.queueId = id → b = d :=
    fun b hb hk => Keyed.eq_of_find h.unique hfind hb hk
  obtain ⟨hmem, hkey⟩ := Keyed.mem_of_find hfind
  have hids : ∀ b ∈ world.registry.directions, b.queueId = id → (f b).queueId = b.queueId := by
    intro b hb hk
    rw [honly b hb hk, hid]
  refine ⟨?_, h.unique.modify hids, hheld, ?_, ?_, ?_⟩
  · rw [Registry.reserved]
    change world.registry.applicationReservedBytes.toNat = _
    rw [h.reserved]
    refine (Keyed.sum_modify _ fun b hb hk => ?_).symm
    rw [honly b hb hk, hminimum]
  · intro b hb
    rcases Keyed.mem_modify hb with ⟨hold, hne⟩ | ⟨a, ha, hk, rfl⟩
    · rw [hothers b.queueId hne]
      exact h.refs b hold
    · rw [honly a ha hk, hid, hkey]
      exact hrefs
  · intro endpoint hendpoint
    change endpoint.1 ∈ List.map Direction.queueId
      (Keyed.modify Direction.queueId id f world.registry.directions)
    rw [Keyed.map_modify _ hids]
    exact h.owned endpoint (hsub endpoint hendpoint)
  · intro b hb
    rcases Keyed.mem_modify hb with ⟨hold, -⟩ | ⟨a, ha, hk, rfl⟩
    · exact h.quiet b hold
    · rw [honly a ha hk]
      exact hquiet (h.quiet d hmem)

theorem Balanced.operate {operation : Direction.Operation} (h : world.Balanced)
    (hsafe : operation.Safe) (hstep : world.operate id operation = some world') :
    world'.Balanced := by
  obtain ⟨registry, hregistry, hworld⟩ := Option.bind_eq_some_iff.mp hstep
  cases hworld
  rw [Registry.operate] at hregistry
  split at hregistry
  · cases hregistry
    exact h
  · rename_i d hfind
    obtain ⟨⟨d', metrics⟩, hop, hregistry⟩ := Option.bind_eq_some_iff.mp hregistry
    cases hregistry
    have hkeeps := hsafe hop
    obtain ⟨hmem, hkey⟩ := Keyed.mem_of_find hfind
    have hrefs := h.refs d hmem
    refine h.replace hfind hkeeps.queueId hkeeps.minimum hkeeps.quiet h.held (fun _ hmem => hmem)
      (fun _ _ => rfl) ?_
    rw [hkeeps.endpointRefs, ← hkey]
    exact hrefs

theorem countP_erase {endpoint : UInt64 × Bool} {endpoints : List (UInt64 × Bool)}
    (hmem : endpoint ∈ endpoints) (q : UInt64) :
    endpoints.countP (fun e => e.1 = q) = (endpoints.erase endpoint).countP (fun e => e.1 = q) +
        if endpoint.1 = q then 1 else 0 := by
  rw [(List.perm_cons_erase hmem).countP_eq, List.countP_cons]
  simp only [decide_eq_true_eq]

theorem Balanced.erase {d : Direction} {writer : Bool} {reserved : UInt64} (h : world.Balanced)
    (hmem : (id, writer) ∈ world.endpoints)
    (hfind : Keyed.find Direction.queueId id world.registry.directions = some d)
    (hlast : d.endpointRefs.toNat = 1)
    (hreserved : reserved.toNat + d.minimumReservationBytes.toNat =
      world.registry.applicationReservedBytes.toNat) :
    World.Balanced
      { registry :=
          { world.registry with
            directions := Keyed.erase Direction.queueId id world.registry.directions
            applicationReservedBytes := reserved }
        endpoints := world.endpoints.erase (id, writer) } := by
  obtain ⟨hd, hkey⟩ := Keyed.mem_of_find hfind
  have hcount := countP_erase hmem d.queueId
  rw [if_pos hkey.symm, ← (h.refs d hd).2, hlast, hkey] at hcount
  have hnone : ∀ endpoint ∈ world.endpoints.erase (id, writer), endpoint.1 ≠ id := by
    intro endpoint hendpoint heq
    have hzero : ((world.endpoints.erase (id, writer)).countP fun e => e.1 = id) = 0 := by omega
    exact List.countP_eq_zero.mp hzero endpoint hendpoint (decide_eq_true heq)
  refine ⟨?_, h.unique.erase, h.held.erase _, ?_, ?_, ?_⟩
  · have hsum := Keyed.sum_erase (fun d => d.minimumReservationBytes.toNat) h.unique hfind
    have hold : world.registry.applicationReservedBytes.toNat =
        (world.registry.directions.map fun d => d.minimumReservationBytes.toNat).sum := h.reserved
    change reserved.toNat = ((Keyed.erase Direction.queueId id world.registry.directions).map
      fun d => d.minimumReservationBytes.toNat).sum
    omega
  · intro b hb
    obtain ⟨hold, hne⟩ := Keyed.mem_erase hb
    have hcount' := countP_erase hmem b.queueId
    rw [if_neg (Ne.symm hne), Nat.add_zero] at hcount'
    rw [← hcount']
    exact h.refs b hold
  · intro endpoint hendpoint
    obtain ⟨b, hb, hbid⟩ := List.mem_map.mp (h.owned endpoint (List.mem_of_mem_erase hendpoint))
    have hne : b.queueId ≠ id := fun heq => hnone endpoint hendpoint (hbid.symm.trans heq)
    exact List.mem_map.mpr ⟨b, Keyed.mem_erase_of_mem hb hne, hbid⟩
  · intro b hb
    exact h.quiet b (Keyed.mem_erase hb).1

theorem Balanced.release (h : world.Balanced) (id : UInt64) (writer : Bool) :
    ∃ world', world.release id writer = some world' ∧ world'.Balanced := by
  rw [World.release]
  by_cases hmem : (id, writer) ∈ world.endpoints
  · rw [if_pos hmem]
    have howned : id ∈ world.registry.directions.map Direction.queueId := h.owned _ hmem
    obtain ⟨d, hfind⟩ := Keyed.exists_find howned
    obtain ⟨hd, hkey⟩ := Keyed.mem_of_find hfind
    obtain ⟨hpos, hrefs⟩ := h.refs d hd
    have hcount := countP_erase hmem id
    rw [if_pos rfl, ← hkey, ← hrefs, hkey] at hcount
    have hothers : ∀ q, q ≠ id →
        ((world.endpoints.erase (id, writer)).countP fun endpoint => endpoint.1 = q) =
          world.endpoints.countP fun endpoint => endpoint.1 = q := by
      intro q hq
      have hq' := countP_erase hmem q
      rw [if_neg (Ne.symm hq)] at hq'
      exact hq'.symm
    have hzero : d.endpointRefs ≠ 0 := by
      intro hzero
      rw [hzero] at hpos
      exact Nat.lt_irrefl 0 hpos
    rw [Registry.releaseEndpoint, hfind]
    by_cases hlast : d.endpointRefs = 1
    · have hquiet : ¬ (accountingLane d.lane ≠ .completion ∧ d.completionPendingMessageCount ≠ 0) :=
        fun hboth => hboth.2 (h.quiet d hd hboth.1)
      have hle : d.minimumReservationBytes.toNat ≤
          world.registry.applicationReservedBytes.toNat := by
        rw [h.reserved]
        exact Keyed.le_sum (fun d : Direction => d.minimumReservationBytes.toNat) hd
      have hsub : subtractExact world.registry.applicationReservedBytes
          d.minimumReservationBytes = some
            (world.registry.applicationReservedBytes - d.minimumReservationBytes) :=
        if_pos (UInt64.le_iff_toNat_le.mpr hle)
      have hreserved : (world.registry.applicationReservedBytes -
          d.minimumReservationBytes).toNat + d.minimumReservationBytes.toNat =
            world.registry.applicationReservedBytes.toNat := by
        rw [toNat_sub_of_le hle]
        omega
      have hone : d.endpointRefs.toNat = 1 := by
        rw [hlast]
        rfl
      refine ⟨_, ?_, h.erase hmem hfind hone hreserved⟩
      simp only [Option.bind_eq_bind, Option.bind_some, if_neg hzero, if_pos hlast,
        if_neg hquiet, hsub]
    · have hone : (1 : UInt32).toNat ≤ d.endpointRefs.toNat := hpos
      have hrefs' : (d.endpointRefs - 1).toNat = d.endpointRefs.toNat - 1 :=
        UInt32.toNat_sub_of_le _ _ (UInt32.le_iff_toNat_le.mpr hone)
      have htwo : d.endpointRefs.toNat ≠ 1 := fun heq => hlast (UInt32.toNat_inj.mp heq)
      have hleft : 0 < (d.endpointRefs - 1).toNat ∧ (d.endpointRefs - 1).toNat =
          (world.endpoints.erase (id, writer)).countP fun endpoint => endpoint.1 = id := by
        rw [hrefs']
        omega
      have hreplace : World.Balanced
          { registry :=
              { world.registry.modify id fun direction =>
                  { direction with endpointRefs := direction.endpointRefs - 1 } with
                metrics := world.registry.metrics }
            endpoints := world.endpoints.erase (id, writer) } :=
        h.replace hfind rfl rfl (fun hquiet hlane => hquiet hlane) (h.held.erase _)
          (fun _ hendpoint => List.mem_of_mem_erase hendpoint) hothers hleft
      refine ⟨_, ?_, hreplace⟩
      simp only [Option.bind_eq_bind, Option.bind_some, if_neg hzero, if_neg hlast]
      rfl
  · rw [if_neg hmem]
    exact ⟨world, rfl, h⟩

theorem allocate_run {directions : List Direction} {first candidate next : UInt64} {fuel : ℕ}
    (h : Loop.run (fun candidate =>
      some (Registry.allocateTurn directions first candidate)) fuel candidate =
        some (some (id, next))) :
    id ∉ directions.map Direction.queueId := by
  induction fuel generalizing candidate with
  | zero => cases h
  | succ fuel ih =>
    rw [Loop.run] at h
    cases hfind : Keyed.find Direction.queueId candidate directions with
    | none =>
      simp only [Registry.allocateTurn, hfind, Option.isNone_none, if_true] at h
      obtain ⟨rfl, -⟩ := Prod.mk.inj (Option.some.inj (Option.some.inj h))
      exact Keyed.not_mem_of_find hfind
    | some d =>
      simp only [Registry.allocateTurn, hfind, Option.isNone_some, Bool.false_eq_true,
        if_false] at h
      by_cases hnext : (if candidate = maxWord then 1 else candidate + 1) = first
      · simp only [if_pos hnext] at h
        cases h
      · simp only [if_neg hnext] at h
        exact ih h

theorem allocated {registry : Registry} {next : UInt64}
    (h : registry.allocateQueueId = some (id, next)) :
    id ∉ registry.directions.map Direction.queueId := by
  rw [Registry.allocateQueueId] at h
  generalize 2 ^ 64 = fuel at h
  exact allocate_run (Option.join_eq_some_iff.mp h)

theorem pairMinimum_spec {registry : Registry} {creation : Creation} {pairMinimum : UInt64}
    (h : registry.pairMinimum creation = some pairMinimum) :
    (registry.applicationReservedBytes + pairMinimum).toNat =
      registry.applicationReservedBytes.toNat +
        (creation.perDirectionMinimum.toNat + creation.perDirectionMinimum.toNat) := by
  simp only [Registry.pairMinimum] at h
  split at h
  · cases h
  · rename_i hfits
    obtain rfl := Option.some.inj h
    have hhalf : creation.perDirectionMinimum.toNat ≤ (maxWord / 2).toNat :=
      UInt64.le_iff_toNat_le.mp (UInt64.not_lt.mp fun hlt => hfits (.inl (.inl hlt)))
    have hroom : registry.applicationReservedBytes.toNat ≤
        (maxWord - creation.perDirectionMinimum * 2).toNat :=
      UInt64.le_iff_toNat_le.mp (UInt64.not_lt.mp fun hlt => hfits (.inl (.inr hlt)))
    have hmax : (maxWord / 2).toNat = 2 ^ 63 - 1 := by decide
    have htwo : (2 : UInt64).toNat = 2 := rfl
    have hdouble : (creation.perDirectionMinimum * 2).toNat =
        creation.perDirectionMinimum.toNat * 2 := by
      rw [toNat_mul_of_lt, htwo]
      rw [htwo]
      omega
    have hle : (creation.perDirectionMinimum * 2).toNat ≤ maxWord.toNat := by
      rw [hdouble, toNat_maxWord]
      omega
    rw [toNat_sub_of_le hle, toNat_maxWord, hdouble] at hroom
    rw [toNat_add_of_lt, hdouble]
    · omega
    · rw [hdouble]
      omega

theorem Balanced.pair {first second : Direction} {next reserved : UInt64} (h : world.Balanced)
    (hfirst : first.queueId ∉ world.registry.directions.map Direction.queueId)
    (hsecond : second.queueId ∉ world.registry.directions.map Direction.queueId)
    (hne : first.queueId ≠ second.queueId)
    (hrefs : first.endpointRefs = 2 ∧ second.endpointRefs = 2) (hquiet : first.Quiet ∧ second.Quiet)
    (hreserved : reserved.toNat = world.registry.applicationReservedBytes.toNat +
      (second.minimumReservationBytes.toNat + first.minimumReservationBytes.toNat)) : World.Balanced
      { registry :=
          { world.registry with
            directions := second :: first :: world.registry.directions
            nextQueueId := next
            applicationReservedBytes := reserved }
        endpoints := (first.queueId, true) :: (first.queueId, false) ::
          (second.queueId, true) :: (second.queueId, false) :: world.endpoints } := by
  have hfresh : ∀ {q : UInt64}, q ∉ world.registry.directions.map Direction.queueId →
      ∀ writer, (q, writer) ∉ world.endpoints := fun hq writer hmem => hq (h.owned _ hmem)
  have hzero : ∀ {q : UInt64}, q ∉ world.registry.directions.map Direction.queueId →
      (world.endpoints.countP fun endpoint => endpoint.1 = q) = 0 := by
    intro q hq
    apply List.countP_eq_zero.mpr
    intro endpoint hendpoint heq
    exact hq (of_decide_eq_true heq ▸ h.owned endpoint hendpoint)
  have htwo : (2 : UInt32).toNat = 2 := rfl
  refine ⟨?_, ?_, ?_, ?_, ?_, ?_⟩
  · have hold : world.registry.applicationReservedBytes.toNat =
        (world.registry.directions.map fun d => d.minimumReservationBytes.toNat).sum := h.reserved
    rw [Registry.reserved, List.map_cons, List.sum_cons, List.map_cons, List.sum_cons]
    change reserved.toNat = _
    rw [hreserved, hold]
    omega
  · refine Keyed.Unique.cons (Keyed.Unique.cons h.unique hfirst) ?_
    rw [List.map_cons, List.mem_cons, not_or]
    exact ⟨Ne.symm hne, hsecond⟩
  · have hn₁ := hfresh hfirst
    have hn₂ := hfresh hsecond
    simp only [List.nodup_cons, List.mem_cons, Prod.mk.injEq, not_or, not_and, hn₁, hn₂,
      h.held, hne, Bool.true_eq_false, Bool.false_eq_true, not_false_eq_true, and_true,
      implies_true, and_self]
  · intro b hb
    simp only [List.countP_cons, decide_eq_true_eq]
    rcases List.mem_cons.mp hb with rfl | hb
    · rw [hzero hsecond, hrefs.2, if_neg hne, if_pos rfl, htwo]
      exact ⟨by decide, rfl⟩
    · rcases List.mem_cons.mp hb with rfl | hb
      · rw [hzero hfirst, hrefs.1, if_neg (Ne.symm hne), if_pos rfl, htwo]
        exact ⟨by decide, rfl⟩
      · have hid : b.queueId ∈ world.registry.directions.map Direction.queueId :=
          List.mem_map_of_mem hb
        have hfirst' : first.queueId ≠ b.queueId := fun heq => hfirst (heq ▸ hid)
        have hsecond' : second.queueId ≠ b.queueId := fun heq => hsecond (heq ▸ hid)
        simp only [if_neg hfirst', if_neg hsecond', Nat.add_zero]
        exact h.refs b hb
  · intro endpoint hendpoint
    change endpoint.1 ∈ List.map Direction.queueId (second :: first :: world.registry.directions)
    simp only [List.mem_cons] at hendpoint
    rw [List.map_cons, List.map_cons, List.mem_cons, List.mem_cons]
    rcases hendpoint with rfl | rfl | rfl | rfl | hendpoint
    · exact .inr (.inl rfl)
    · exact .inr (.inl rfl)
    · exact .inl rfl
    · exact .inl rfl
    · exact .inr (.inr (h.owned endpoint hendpoint))
  · intro b hb
    rcases List.mem_cons.mp hb with rfl | hb
    · exact hquiet.2
    · rcases List.mem_cons.mp hb with rfl | hb
      · exact hquiet.1
      · exact h.quiet b hb

theorem Balanced.create {creation : Creation} (h : world.Balanced)
    (hstep : world.create creation = some world') : world'.Balanced := by
  obtain ⟨⟨answer, registry⟩, hcreate, hanswer⟩ := Option.bind_eq_some_iff.mp hstep
  rw [Registry.createPipepairQueues] at hcreate
  split at hcreate
  · -- A refusal changes nothing.
    cases hcreate
    cases hanswer
    exact h
  · rename_i pairMinimum hpair
    obtain ⟨⟨firstId, next⟩, hfirst, hcreate⟩ := Option.bind_eq_some_iff.mp hcreate
    obtain ⟨⟨secondId, next'⟩, hsecond, hcreate⟩ := Option.bind_eq_some_iff.mp hcreate
    simp only at hcreate
    split at hcreate
    · cases hcreate
    · rename_i hne
      obtain ⟨rfl, rfl⟩ := Prod.mk.inj (Option.some.inj hcreate)
      obtain rfl := Option.some.inj hanswer
      have hsecond' : secondId ∉ world.registry.directions.map Direction.queueId :=
        @allocated _ { world.registry with nextQueueId := next } _ hsecond
      exact @Balanced.pair world
        (Direction.new firstId (creation.hwm creation.firstDirectionHwm) creation.queueClass.lane
          creation.perDirectionMinimum)
        (Direction.new secondId (creation.hwm creation.secondDirectionHwm)
          creation.queueClass.lane creation.perDirectionMinimum)
        next' (world.registry.applicationReservedBytes + pairMinimum) h (allocated hfirst)
        hsecond' hne ⟨rfl, rfl⟩ ⟨fun _ => rfl, fun _ => rfl⟩ (pairMinimum_spec hpair)

theorem Balanced.step {event : Event} (h : world.Balanced)
    (hstep : world.step event = some world') : world'.Balanced := by
  cases event with
  | create creation => exact h.create hstep
  | release id writer =>
    obtain ⟨world'', hrelease, hbalanced⟩ := h.release id writer
    rw [World.step, hrelease] at hstep
    exact Option.some.inj hstep ▸ hbalanced
  | updateHwmTarget id target sampled =>
    exact h.operate (Direction.safe_pure (Direction.keeps_updateHwmTarget target sampled)) hstep
  | classify first second completion =>
    obtain ⟨world'', hfirst, hsecond⟩ := Option.bind_eq_some_iff.mp hstep
    exact (h.operate (Direction.safe_classifyDirection _) hfirst).operate
      (Direction.safe_classifyDirection _) hsecond
  | advanceGeneration id =>
    exact h.operate (Direction.safe_pure Direction.keeps_advanceGeneration) hstep
  | accountProvisionalFrame id frameBytes =>
    exact h.operate (Direction.safe_accountProvisionalFrame frameBytes) hstep
  | commitMessage id provisional final counted oversize =>
    exact h.operate (Direction.safe_commitMessage provisional final counted oversize) hstep
  | rollbackProvisional id frameBytes =>
    exact h.operate (Direction.safe_rollbackProvisional frameBytes) hstep
  | releaseCommittedFrame id frameBytes count =>
    exact h.operate (Direction.safe_releaseCommittedFrame frameBytes count) hstep

theorem create_refused {registry registry' : Registry} {creation : Creation}
    {refusal : Registry.Refusal}
    (h : registry.createPipepairQueues creation = some (.error refusal, registry')) :
    registry' = registry := by
  rw [Registry.createPipepairQueues] at h
  split at h
  · exact (Prod.mk.inj (Option.some.inj h)).2.symm
  · obtain ⟨⟨firstId, next⟩, -, h⟩ := Option.bind_eq_some_iff.mp h
    obtain ⟨⟨secondId, next'⟩, -, h⟩ := Option.bind_eq_some_iff.mp h
    simp only at h
    split at h
    · cases h
    · cases (Prod.mk.inj (Option.some.inj h)).1

/-- In every state that a run of creations, releases, target updates and frame accounting
reaches, the reserved total is the sum of the minimum reservations of the directions that are
there, their ids are distinct, each is referenced, a refused creation changes nothing, and a
held endpoint can be released. -/
theorem run_balanced {events : List Event} (hrun : Trace.run step World.init events = some world) :
    world.registry.applicationReservedBytes.toNat = world.registry.reserved ∧
      (world.registry.directions.map Direction.queueId).Nodup ∧
      (∀ direction ∈ world.registry.directions, 0 < direction.endpointRefs.toNat) ∧
      (∀ creation refusal registry,
        world.registry.createPipepairQueues creation = some (.error refusal, registry) →
          registry = world.registry) ∧ ∀ id writer, (world.release id writer).isSome := by
  have h : world.Balanced :=
    Trace.run_invariant (fun _ _ _ hbalanced _ hstep => hbalanced.step hstep) balanced_init
      (Trace.along_true _ _) hrun
  refine ⟨h.reserved, h.unique, fun direction hd => (h.refs direction hd).1,
    fun _ _ _ => create_refused, fun id writer => ?_⟩
  obtain ⟨world', hrelease, -⟩ := h.release id writer
  rw [hrelease]
  rfl

def pairCreation : Creation where
  firstDirectionHwm := 0
  secondDirectionHwm := 0
  queueClass := .application
  role := .peerQueue
  planningEnabled := true
  contextPlan :=
    { enabled := true, profile := .balanced, configuredMemoryLimitBytes := 0
      resolvedMemoryLimitBytes := 2 ^ 30, configuredCoreBudgetBytes := 0
      effectiveCoreBudgetBytes := 0, totalPlannedHwmBytes := 0, totalAppliedHwmBytes := 0
      manualReservedHwmBytes := 0, activeDirectionalQueueCount := 0, activeSendQueueCount := 0
      activeReceiveQueueCount := 0, unlimitedManualQueueCount := 0, applicationAutoRole := .none
      applicationAutoDirectionCount := 0, maxPlannedQueueId := 0, budgetInsufficient := false
      aggregateHwmValid := true, aggregateOverflow := false }

theorem run_balanced_pair : ∃ world, Trace.run step World.init
      [.create pairCreation, .release 1 true, .release 1 false] = some world ∧
    world.registry.applicationReservedBytes.toNat = world.registry.reserved ∧
    world.registry.applicationReservedBytes = 64 * 1024 ∧ (world.release 2 true).isSome := by
  have hrun : ((Trace.run step World.init
      [.create pairCreation, .release 1 true, .release 1 false]).any fun world =>
        decide (world.registry.applicationReservedBytes = 64 * 1024)) = true := by decide +kernel
  obtain ⟨world, hworld, hbytes⟩ := (Option.any_eq_true _ _).mp hrun
  have h := run_balanced hworld
  exact ⟨world, hworld, h.1, of_decide_eq_true hbytes, h.2.2.2.2 2 true⟩

end World

end Zlink.Ledger
