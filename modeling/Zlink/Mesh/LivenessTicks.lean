import Zlink.Mesh.LivenessRuns

/-!
# Ticks of the liveness registry

A tick is a sequence of visits, between which peers are heard. It times out the peers that are
quiet. When the due bound is ahead of the clock there is nothing that a tick could do.
-/

namespace Zlink.Mesh

variable {settings : LivenessSettings} {s t : LivenessRegistry} {handle : ℕ}
  {peer : LivenessPeer} {now : ℤ} {heard : List (ℕ × ℤ)} {actions : List LivenessAction}

def LivenessAction.within : LivenessAction → Bool
  | .received _ _ | .visit => true
  | _ => false

theorem along_of_within {S : Type} {step : S → LivenessAction → Option S} (x : S)
    (h : ∀ action ∈ actions, action.within) :
    Trace.Along step (fun _ action => action.within) x actions := by
  induction actions generalizing x with
  | nil => trivial
  | cons action actions ih =>
    exact ⟨h action List.mem_cons_self, fun y _ => ih y fun other hother =>
      h other (List.mem_cons_of_mem _ hother)⟩

theorem within_cases {action : LivenessAction} (hwithin : action.within)
    (hstep : s.step settings action = some t) :
    (∃ handle now, action = .received handle now ∧ t = s.received settings handle now) ∨
      action = .visit ∧ s.visit settings = some t := by
  cases action with
  | received handle now => exact .inl ⟨handle, now, rfl, (guarded_eq_some hstep).2.symm⟩
  | visit => exact .inr ⟨rfl, hstep⟩
  | _ => cases hwithin

theorem LivenessRegistry.Waits.mono (h : s.Waits now handle)
    (hobjects : NotBefore t.objects s.objects) : t.Waits now handle := by
  intro later hlater
  obtain ⟨peer, hpeer, hle⟩ := hobjects handle later hlater
  obtain ⟨hdeadline, hprobe⟩ := h peer hpeer
  exact ⟨hdeadline.trans_le hle.deadline, hprobe.trans_le hle.nextProbe⟩

structure NothingDue (s : LivenessRegistry) : Prop where
  result : s.lane.result = ⟨[], []⟩
  left : ∀ now left result, s.lane = .scanning now left result → ∀ entry ∈ left, s.Waits now entry.2

theorem scanPeer_of_waits {left : List (Bytes × ℕ)} {result : LivenessTick}
    {nodeRoutingId : Bytes} (hpeer : s.objects[handle]? = some peer) (h : s.Waits now handle) :
    s.scanPeer settings now left result nodeRoutingId handle peer =
      { s with lane := .scanning now left result } := by
  obtain ⟨hdeadline, hprobe⟩ := h peer hpeer
  rw [LivenessRegistry.scanPeer, if_neg (not_le.mpr hdeadline), if_neg (not_le.mpr hprobe)]

theorem NothingDue.visit (h : NothingDue s) (hvisit : s.visit settings = some t) :
    NothingDue t := by
  obtain ⟨hresult, hleft⟩ := h
  unfold LivenessRegistry.visit at hvisit
  split at hvisit
  · cases hvisit
  · rename_i now nodeRoutingId handle left result hlane
    obtain ⟨peer, hpeer, rfl⟩ := Option.map_eq_some_iff.mp hvisit
    have hwaits := hleft _ _ _ hlane
    rw [scanPeer_of_waits hpeer (hwaits _ List.mem_cons_self)]
    rw [hlane] at hresult
    refine ⟨hresult, fun now' left' result' hlane' => ?_⟩
    obtain ⟨rfl, rfl, -⟩ := LivenessLane.scanning.inj hlane'
    exact fun entry hentry => hwaits entry (List.mem_cons_of_mem _ hentry)
  · rename_i hlane
    obtain rfl := Option.some.inj hvisit
    rw [hlane] at hresult
    exact ⟨hresult, fun _ _ _ hlane' => by cases hlane'⟩
  · rename_i hlane
    obtain ⟨peer, -, rfl⟩ := Option.map_eq_some_iff.mp hvisit
    rw [hlane] at hresult
    exact ⟨hresult, fun _ _ _ hlane' => by cases hlane'⟩
  · obtain rfl := Option.some.inj hvisit
    exact ⟨rfl, fun _ _ _ hlane' => by cases hlane'⟩

theorem NothingDue.received (h : NothingDue s) (handle : ℕ) (now : ℤ) :
    NothingDue (s.received settings handle now) where
  result := h.result
  left now' left result hlane entry hentry :=
    (h.left now' left result hlane entry hentry).mono
      (notBefore_modify (LivenessPeer.notBefore_recordReceived settings now) _ _)

theorem scan_of_waits (h : ∀ entry ∈ s.peers.entries, s.Waits now entry.2)
    (hwithin : ∀ action ∈ actions, action.within) (hrun : Trace.run (LivenessRegistry.step settings)
      { s with lane := .scanning now s.peers.entries ⟨[], []⟩ } actions = some t) :
    t.lane.result = ⟨[], []⟩ := by
  refine NothingDue.result (Trace.run_invariant (I := NothingDue) ?_ ?_
    (along_of_within _ hwithin) hrun)
  · intro x action y hx haction hstep
    obtain ⟨handle, instant, -, rfl⟩ | ⟨-, hvisit⟩ := within_cases haction hstep
    · exact hx.received handle instant
    · exact hx.visit hvisit
  · refine ⟨rfl, fun now' left result hlane => ?_⟩
    obtain ⟨rfl, rfl, -⟩ := LivenessLane.scanning.inj hlane
    exact h

theorem lt_nextDue (hdue : s.due now = false) : s.nextDue ≠ unknownDue ∧ now < s.nextDue := by
  rwa [LivenessRegistry.due, Bool.or_eq_false_iff, decide_eq_false_iff_not,
    decide_eq_false_iff_not, not_le] at hdue

theorem waits_of_not_due (h : s.EarlyPeers) (hdue : s.due now = false) :
    ∀ entry ∈ s.peers.entries, s.Waits now entry.2 := by
  obtain ⟨hknown, hlt⟩ := lt_nextDue hdue
  rcases h with hunknown | hearly
  · exact absurd hunknown hknown
  · intro entry hentry peer hpeer
    obtain ⟨hdeadline, hprobe⟩ := hearly entry hentry peer hpeer
    exact ⟨hlt.trans_le hdeadline, hlt.trans_le hprobe⟩

structure TimedOut (settings : LivenessSettings) (before after : OrderedMap Bytes ℕ)
    (heard heard' : List (ℕ × ℤ)) (now : ℤ) (visited gone : List (Bytes × ℕ))
    (result : LivenessTick) : Prop where
  nodes : result.timedOutNodes = gone.map Prod.fst
  order : gone.Sublist visited
  quiet : ∀ entry ∈ gone, Quiet settings heard entry.2 now
  stay : ∀ entry ∈ visited, Quiet settings heard' entry.2 now → entry ∈ gone
  peers : ∀ entry, entry ∈ after.entries ↔ entry ∈ before.entries ∧ entry.1 ∉ result.timedOutNodes

namespace TimedOut

variable {before after : OrderedMap Bytes ℕ} {earlier : List (ℕ × ℤ)}
  {visited gone left : List (Bytes × ℕ)} {result result' : LivenessTick}

theorem hear (h : TimedOut settings before after earlier heard now visited gone result)
    (more : List (ℕ × ℤ)) :
    TimedOut settings before after earlier (heard ++ more) now visited gone result where
  nodes := h.nodes
  order := h.order
  quiet := h.quiet
  stay other hother hquiet := h.stay other hother hquiet.of_append
  peers := h.peers

theorem remove (h : TimedOut settings before after earlier heard now visited gone result)
    (entry : Bytes × ℕ) (hquiet : Quiet settings earlier entry.2 now)
    (hresult : result'.timedOutNodes = result.timedOutNodes ++ [entry.1]) :
    TimedOut settings before (after.erase entry.1) earlier heard now (visited ++ [entry])
      (gone ++ [entry]) result' where
  nodes := by rw [hresult, h.nodes, List.map_append, List.map_singleton]
  order := h.order.append (.refl _)
  quiet other hother := by
    rcases List.mem_append.mp hother with hother | hother
    · exact h.quiet other hother
    · rw [List.mem_singleton.mp hother]
      exact hquiet
  stay other hother hsilent := by
    rcases List.mem_append.mp hother with hother | hother
    · exact List.mem_append_left _ (h.stay other hother hsilent)
    · exact List.mem_append_right _ hother
  peers other := by
    rw [hresult, OrderedMap.mem_erase, h.peers, List.mem_append, List.mem_singleton, not_or,
      and_assoc]

theorem keep (h : TimedOut settings before after earlier heard now visited gone result)
    (entry : Bytes × ℕ) (hheard : ¬Quiet settings heard entry.2 now)
    (hresult : result'.timedOutNodes = result.timedOutNodes) :
    TimedOut settings before after earlier heard now (visited ++ [entry]) gone result' where
  nodes := hresult.trans h.nodes
  order := h.order.trans (List.sublist_append_left _ _)
  quiet := h.quiet
  stay other hother hsilent := by
    rcases List.mem_append.mp hother with hother | hother
    · exact h.stay other hother hsilent
    · rw [List.mem_singleton.mp hother] at hsilent
      exact absurd hsilent hheard
  peers other := by rw [hresult, h.peers]

theorem scanPeer {nodeRoutingId : Bytes}
    (h : TimedOut settings before s.peers earlier heard now visited gone result)
    (hrecorded : Recorded settings s heard) (hearlier : earlier <+: heard)
    (hpeer : s.objects[handle]? = some peer) : ∃ gone' result',
      (s.scanPeer settings now left result nodeRoutingId handle peer).lane =
        .scanning now left result' ∧ TimedOut settings before
        (s.scanPeer settings now left result nodeRoutingId handle peer).peers earlier heard now
        (visited ++ [(nodeRoutingId, handle)]) gone' result' := by
  have hquiet := hrecorded.deadline handle peer hpeer now
  rw [LivenessRegistry.scanPeer]
  split_ifs with hdeadline hprobe
  · obtain ⟨more, rfl⟩ := hearlier
    exact ⟨_, _, rfl, h.remove (nodeRoutingId, handle) (hquiet.mp hdeadline).of_append rfl⟩
  all_goals exact ⟨_, _, rfl, h.keep (nodeRoutingId, handle) (mt hquiet.mpr hdeadline) rfl⟩

end TimedOut

structure Ticking (settings : LivenessSettings) (before : OrderedMap Bytes ℕ)
    (earlier : List (ℕ × ℤ)) (now : ℤ) (x : LivenessRegistry × List (ℕ × ℤ)) : Prop where
  invariant : LivenessInvariant settings x.1
  recorded : Recorded settings x.1 x.2
  heard : earlier <+: x.2
  scanning : ∀ now' left result, x.1.lane = .scanning now' left result → now' = now ∧
    ∃ visited gone, before.entries = visited ++ left ∧
      TimedOut settings before x.1.peers earlier x.2 now visited gone result
  publishing : ∀ left next result, x.1.lane = .publishing left next result →
    ∃ gone, TimedOut settings before x.1.peers earlier x.2 now before.entries gone result

namespace Ticking

variable {before : OrderedMap Bytes ℕ} {earlier : List (ℕ × ℤ)}

theorem received (h : Ticking settings before earlier now (s, heard)) {instant : ℤ}
    (hstep : s.step settings (.received handle instant) = some t) :
    Ticking settings before earlier now (t, heard ++ [(handle, instant)]) where
  invariant := h.invariant.step hstep
  recorded := h.recorded.step h.invariant hstep
  heard := h.heard.trans (List.prefix_append _ _)
  scanning := by
    obtain ⟨-, rfl⟩ := guarded_eq_some hstep
    intro now' left result hlane
    obtain ⟨rfl, visited, gone, hentries, htimed⟩ := h.scanning now' left result hlane
    exact ⟨rfl, visited, gone, hentries, htimed.hear _⟩
  publishing := by
    obtain ⟨-, rfl⟩ := guarded_eq_some hstep
    intro left next result hlane
    obtain ⟨gone, htimed⟩ := h.publishing left next result hlane
    exact ⟨gone, htimed.hear _⟩

theorem visit (h : Ticking settings before earlier now (s, heard))
    (hvisit : s.visit settings = some t) : Ticking settings before earlier now (t, heard) := by
  refine ⟨h.invariant.visit hvisit, h.recorded.keeps (keepsPeers_visit hvisit), h.heard, ?_, ?_⟩
  · unfold LivenessRegistry.visit at hvisit
    intro now' left result hlane'
    split at hvisit
    · cases hvisit
    · rename_i hlane
      obtain ⟨peer, hpeer, rfl⟩ := Option.map_eq_some_iff.mp hvisit
      obtain ⟨rfl, visited, gone, hentries, htimed⟩ := h.scanning _ _ _ hlane
      obtain ⟨gone', result', hscan, htimed'⟩ := htimed.scanPeer h.recorded h.heard hpeer
      obtain ⟨rfl, rfl, rfl⟩ := LivenessLane.scanning.inj (hscan.symm.trans hlane')
      exact ⟨rfl, _, gone', by rw [hentries, List.append_assoc]; rfl, htimed'⟩
    · obtain rfl := Option.some.inj hvisit
      cases hlane'
    · obtain ⟨peer, -, rfl⟩ := Option.map_eq_some_iff.mp hvisit
      cases hlane'
    · obtain rfl := Option.some.inj hvisit
      cases hlane'
  · unfold LivenessRegistry.visit at hvisit
    intro left next result hlane'
    split at hvisit
    · cases hvisit
    · rename_i hlane
      obtain ⟨peer, hpeer, rfl⟩ := Option.map_eq_some_iff.mp hvisit
      obtain ⟨rfl, visited, gone, -, htimed⟩ := h.scanning _ _ _ hlane
      obtain ⟨gone', result', hscan, -⟩ := htimed.scanPeer h.recorded h.heard hpeer
      cases hscan.symm.trans hlane'
    · rename_i hlane
      obtain rfl := Option.some.inj hvisit
      obtain ⟨rfl, visited, gone, hentries, htimed⟩ := h.scanning _ _ _ hlane
      obtain ⟨-, -, rfl⟩ := LivenessLane.publishing.inj hlane'
      rw [List.append_nil] at hentries
      exact ⟨gone, hentries ▸ htimed⟩
    · rename_i hlane
      obtain ⟨peer, -, rfl⟩ := Option.map_eq_some_iff.mp hvisit
      obtain ⟨-, -, rfl⟩ := LivenessLane.publishing.inj hlane'
      exact h.publishing _ _ _ hlane
    · obtain rfl := Option.some.inj hvisit
      cases hlane'

theorem step {x y : LivenessRegistry × List (ℕ × ℤ)} {action : LivenessAction}
    (h : Ticking settings before earlier now x) (hwithin : action.within)
    (hstep : LivenessRegistry.stepHeard settings x action = some y) :
    Ticking settings before earlier now y := by
  obtain ⟨s, heard⟩ := x
  obtain ⟨t, hs, rfl⟩ := Option.map_eq_some_iff.mp hstep
  obtain ⟨handle, instant, rfl, -⟩ | ⟨rfl, hvisit⟩ := within_cases hwithin hs
  · exact h.received hs
  · change Ticking settings before earlier now (t, heard ++ [])
    rw [List.append_nil]
    exact h.visit hvisit

end Ticking

theorem timedOut_of_tick (hinvariant : LivenessInvariant settings s)
    (hrecorded : Recorded settings s heard) (hidle : s.lane = .idle)
    (hwithin : ∀ action ∈ actions, action.within) {heard' : List (ℕ × ℤ)}
    (hrun : Trace.run (LivenessRegistry.stepHeard settings) (s.tick now, heard) actions =
      some (t, heard')) {left : List (Bytes × ℕ)} {next : ℤ} {result : LivenessTick}
    (hlane : t.lane = .publishing left next result) :
    ∃ gone, TimedOut settings s.peers t.peers heard heard' now s.peers.entries gone result := by
  have hbegin : Ticking settings s.peers heard now (s.tick now, heard) := by
    refine ⟨hinvariant.tick hidle now, ?_, List.prefix_refl _, ?_, ?_⟩
    · refine hrecorded.keeps ?_
      rw [LivenessRegistry.tick]
      split <;> exact .refl _
    · intro now' left result hlane
      rw [LivenessRegistry.tick] at hlane ⊢
      split at hlane
      · rename_i hdue
        obtain ⟨rfl, rfl, rfl⟩ := LivenessLane.scanning.inj hlane
        rw [if_pos hdue]
        refine ⟨rfl, [], [], rfl, rfl, .refl _, ?_, ?_, ?_⟩
        · exact fun entry hentry => absurd hentry List.not_mem_nil
        · exact fun entry hentry => absurd hentry List.not_mem_nil
        · exact fun entry => ⟨fun hentry => ⟨hentry, List.not_mem_nil⟩, And.left⟩
      · cases hidle.symm.trans hlane
    · intro left next result hlane
      rw [LivenessRegistry.tick] at hlane
      split at hlane
      · cases hlane
      · cases hidle.symm.trans hlane
  have hend := Trace.run_invariant (I := Ticking settings s.peers heard now)
    (fun _ _ _ hx haction hstep => hx.step haction hstep) hbegin (along_of_within _ hwithin) hrun
  exact hend.publishing left next result hlane

def LivenessRegistry.remaining (s : LivenessRegistry) : ℕ :=
  match s.lane with
  | .idle => 0
  | .scanning _ left _ => left.length + s.peers.entries.length + 2
  | .publishing left _ _ => left.length + 1

theorem length_scanPeer_le {left : List (Bytes × ℕ)} {result : LivenessTick}
    {nodeRoutingId : Bytes} :
    (s.scanPeer settings now left result nodeRoutingId handle peer).remaining ≤
      left.length + s.peers.entries.length + 2 := by
  rw [LivenessRegistry.scanPeer]
  split_ifs
  · have hle : (s.peers.erase nodeRoutingId).entries.length ≤ s.peers.entries.length :=
      List.length_filter_le _ _
    change left.length + (s.peers.erase nodeRoutingId).entries.length + 2 ≤ _
    linarith
  all_goals exact le_rfl

theorem exists_visit (h : LivenessInvariant settings s) (hbusy : s.lane ≠ .idle) :
    ∃ t, s.visit settings = some t ∧ t.remaining < s.remaining := by
  unfold LivenessRegistry.visit
  rw [LivenessRegistry.remaining.eq_def s]
  cases hlane : s.lane with
  | idle => exact absurd hlane hbusy
  | scanning now left result =>
    cases left with
    | nil =>
      refine ⟨_, rfl, ?_⟩
      change s.peers.entries.length + 1 < 0 + s.peers.entries.length + 2
      omega
    | cons entry left =>
      have hentry := (h.scanning _ _ _ hlane).1.subset List.mem_cons_self
      have hpeer := List.getElem?_eq_getElem (h.handles entry hentry)
      refine ⟨_, congrArg (Option.map _) hpeer, length_scanPeer_le.trans_lt ?_⟩
      change _ < (left.length + 1) + s.peers.entries.length + 2
      omega
  | publishing left next result =>
    cases left with
    | nil => exact ⟨_, rfl, Nat.one_pos⟩
    | cons entry left =>
      have hentry := (h.publishing _ _ _ hlane).2.1.subset List.mem_cons_self
      have hpeer := List.getElem?_eq_getElem (h.handles entry hentry)
      exact ⟨_, congrArg (Option.map _) hpeer, Nat.lt_succ_self _⟩

theorem exists_visits (h : LivenessInvariant settings s) : ∃ visits t,
    Trace.run (LivenessRegistry.step settings) s (List.replicate visits .visit) = some t ∧
      t.lane = .idle := by
  induction hn : s.remaining using Nat.strong_induction_on generalizing s with
  | h n ih =>
    by_cases hidle : s.lane = .idle
    · exact ⟨0, s, rfl, hidle⟩
    · obtain ⟨t, hvisit, hlt⟩ := exists_visit h hidle
      obtain ⟨visits, y, hrun, hy⟩ := ih t.remaining (hn ▸ hlt) (h.visit hvisit) rfl
      refine ⟨visits + 1, y, ?_, hy⟩
      rw [List.replicate_succ, Trace.run, LivenessRegistry.step, hvisit]
      exact hrun

end Zlink.Mesh
