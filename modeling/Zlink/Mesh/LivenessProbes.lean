import Zlink.Mesh.LivenessTicks

/-!
# Probes of the liveness registry

A probe stays outstanding until it is acknowledged, and until then the peer is probed with the same
number. The last result collects what a run of the registry keeps.
-/

namespace Zlink.Mesh

variable {settings : LivenessSettings} {s t : LivenessRegistry} {handle : ℕ}
  {peer : LivenessPeer} {heard : List (ℕ × ℤ)} {probeId : UInt64}

def Unanswered (handle : ℕ) (probeId : UInt64) (s : LivenessRegistry) (action : LivenessAction) :
    Prop :=
  ∀ nodeRoutingId connectionId now, action = .acknowledge nodeRoutingId connectionId probeId now →
      s.connected nodeRoutingId connectionId ≠ some handle

def LivenessRegistry.Outstanding (s : LivenessRegistry) (handle : ℕ) (probeId : UInt64) : Prop :=
  ∃ peer, s.objects[handle]? = some peer ∧ peer.outstandingProbe = some probeId

theorem LivenessPeer.outstandingProbe_answered {other : UInt64} (hne : other ≠ probeId)
    (houtstanding : peer.outstandingProbe = some probeId) :
    (peer.answered other).outstandingProbe = some probeId := by
  rw [LivenessPeer.answered, if_neg]
  · exact houtstanding
  · intro hsame
    exact hne (Option.some.inj (hsame.symm.trans houtstanding))

namespace LivenessRegistry

theorem Outstanding.modify (h : s.Outstanding handle probeId) {f : LivenessPeer → LivenessPeer}
    {other : ℕ} (hf : ∀ peer, other = handle → peer.outstandingProbe = some probeId →
      (f peer).outstandingProbe = some probeId) :
    LivenessRegistry.Outstanding { s with objects := s.objects.modify other f } handle probeId := by
  obtain ⟨peer, hpeer, houtstanding⟩ := h
  refine ⟨_, (List.getElem?_modify _ _ _ _).trans (congrArg (Option.map _) hpeer), ?_⟩
  change (if other = handle then f peer else peer).outstandingProbe = some probeId
  by_cases hself : other = handle
  · rw [if_pos hself]
    exact hf peer hself houtstanding
  · rw [if_neg hself]
    exact houtstanding

theorem Outstanding.of_objects (h : s.Outstanding handle probeId)
    (hobjects : t.objects = s.objects) : t.Outstanding handle probeId := by
  rwa [Outstanding, hobjects]

theorem Outstanding.acknowledge (h : s.Outstanding handle probeId)
    {nodeRoutingId connectionId : Bytes} {other : UInt64} {now : ℤ}
    (hunanswered : Unanswered handle probeId s
      (.acknowledge nodeRoutingId connectionId other now)) :
    (s.acknowledge settings nodeRoutingId connectionId other now).Outstanding handle probeId := by
  rw [LivenessRegistry.acknowledge]
  split
  · exact h
  · rename_i heard hconnected
    refine h.modify fun peer hself houtstanding => ?_
    refine LivenessPeer.outstandingProbe_answered ?_ houtstanding
    rintro rfl
    exact hunanswered nodeRoutingId connectionId now rfl (hself ▸ hconnected)

theorem Outstanding.step (h : s.Outstanding handle probeId) {action : LivenessAction}
    (hunanswered : Unanswered handle probeId s action)
    (hstep : s.step settings action = some t) : t.Outstanding handle probeId := by
  cases action with
  | received other now =>
    obtain ⟨-, rfl⟩ := guarded_eq_some hstep
    exact h.modify fun _ _ houtstanding => houtstanding
  | admitNode nodeRoutingId connectionId now =>
    obtain ⟨-, rfl⟩ := guarded_eq_some hstep
    rw [LivenessRegistry.admitNode]
    split
    · exact h
    · obtain ⟨peer, hpeer, houtstanding⟩ := h
      have hlt := (List.getElem?_eq_some_iff.mp hpeer).1
      exact ⟨peer, (List.getElem?_append_left hlt).trans hpeer, houtstanding⟩
  | disconnect nodeRoutingId connectionId =>
    obtain ⟨-, rfl⟩ := guarded_eq_some hstep
    refine h.of_objects ?_
    rw [LivenessRegistry.disconnect]
    split <;> rfl
  | acknowledge nodeRoutingId connectionId other now =>
    obtain ⟨-, rfl⟩ := guarded_eq_some hstep
    exact h.acknowledge hunanswered
  | setAdmissionPending pending clock =>
    obtain ⟨-, rfl⟩ := guarded_eq_some hstep
    exact h.of_objects rfl
  | nextActivity =>
    obtain ⟨-, rfl⟩ := guarded_eq_some hstep
    refine h.of_objects ?_
    rw [LivenessRegistry.nextActivity]
    split <;> rfl
  | tick now =>
    obtain ⟨-, rfl⟩ := guarded_eq_some hstep
    refine h.of_objects ?_
    rw [LivenessRegistry.tick]
    split <;> rfl
  | visit =>
    obtain ⟨peer, hpeer, houtstanding⟩ := h
    obtain ⟨later, hlater, hkeeps⟩ := (keepsPeers_visit hstep).get hpeer
    exact ⟨later, hlater, hkeeps.outstanding probeId houtstanding⟩

theorem probes_visit {now : ℤ} {nodeRoutingId : Bytes} {left : List (Bytes × ℕ)}
    {result : LivenessTick}
    (hlane : s.lane = .scanning now ((nodeRoutingId, handle) :: left) result)
    (hpeer : s.objects[handle]? = some peer) (hvisit : s.visit settings = some t) :
    t.lane.result.probes = result.probes ∨ ∃ probeId, t.lane.result.probes =
          result.probes ++ [⟨nodeRoutingId, peer.connectionId, probeId⟩] ∧
        t.Outstanding handle probeId ∧
        ∀ outstanding ∈ peer.outstandingProbe, probeId = outstanding := by
  have hscan : s.visit settings =
      some (s.scanPeer settings now left result nodeRoutingId handle peer) := by
    rw [LivenessRegistry.visit, hlane]
    exact congrArg (Option.map _) hpeer
  obtain rfl := Option.some.inj (hvisit.symm.trans hscan)
  rw [LivenessRegistry.scanPeer]
  split_ifs
  · exact .inl rfl
  · refine .inr ⟨peer.outstandingProbe.getD s.freshProbeId, rfl, ?_, ?_⟩
    · exact ⟨_, List.getElem?_set_self (List.getElem?_eq_some_iff.mp hpeer).1, rfl⟩
    · intro outstanding houtstanding
      rw [Option.mem_def.mp houtstanding]
      rfl
  · exact .inl rfl

end LivenessRegistry

theorem sound_stepHeard {x y : LivenessRegistry × List (ℕ × ℤ)} {action : LivenessAction}
    (h : LivenessInvariant settings x.1 ∧ Recorded settings x.1 x.2)
    (hstep : LivenessRegistry.stepHeard settings x action = some y) :
    LivenessInvariant settings y.1 ∧ Recorded settings y.1 y.2 := by
  obtain ⟨hinvariant, hrecorded⟩ := h
  obtain ⟨t, hs, rfl⟩ := Option.map_eq_some_iff.mp hstep
  exact ⟨hinvariant.step hs, hrecorded.step hinvariant hs⟩

theorem recorded_new (settings : LivenessSettings) : Recorded settings .new [] where
  known _ hentry := absurd hentry List.not_mem_nil
  deadline _ _ hpeer := by cases hpeer

theorem not_quiet_of_waits (hinvariant : LivenessInvariant settings s)
    (hrecorded : Recorded settings s heard) {entry : Bytes × ℕ} (hentry : entry ∈ s.peers.entries)
    {now : ℤ} (h : s.Waits now entry.2) : ¬Quiet settings heard entry.2 now := by
  have hpeer := List.getElem?_eq_getElem (hinvariant.handles entry hentry)
  intro hquiet
  exact absurd ((hrecorded.deadline _ _ hpeer now).mpr hquiet) (not_le.mpr (h _ hpeer).1)

/-- Along any run of the registry, in which peers are heard at any time: the due bound is early for
the peers, and for the admission whenever it is not being worked out; where it is not due nothing
is, so that no tick that is skipped finds anything; a tick times out those peers that are quiet; the
lane always gets through; and a probe stays outstanding until it is acknowledged. -/
theorem liveness_early (settings : LivenessSettings) (actions : List LivenessAction)
    (s : LivenessRegistry) (heard : List (ℕ × ℤ))
    (hrun : Trace.run (LivenessRegistry.stepHeard settings) (.new, []) actions = some (s, heard)) :
    (s.EarlyPeers ∧
      ((∀ left next result, s.lane ≠ .publishing left next result) → s.EarlyRetry settings)) ∧
    (∀ now, s.due now = false →
      (∀ entry ∈ s.peers.entries, s.Waits now entry.2 ∧ ¬Quiet settings heard entry.2 now) ∧
      ((∀ left next result, s.lane ≠ .publishing left next result) →
        ∀ activity ∈ s.admissionActivity, now < activity + settings.probeInterval) ∧
      ∀ later t, (∀ action ∈ later, LivenessAction.within action) →
        Trace.run (LivenessRegistry.step settings)
          { s with lane := .scanning now s.peers.entries ⟨[], []⟩ } later = some t →
        t.lane.result = ⟨[], []⟩) ∧
    (∀ now later t heard', s.lane = .idle → (∀ action ∈ later, LivenessAction.within action) →
      Trace.run (LivenessRegistry.stepHeard settings) (s.tick now, heard) later = some (t, heard') →
      ∀ left next result, t.lane = .publishing left next result →
        ∃ gone, TimedOut settings s.peers t.peers heard heard' now s.peers.entries gone result) ∧
    (∃ visits t, Trace.run (LivenessRegistry.step settings) s (List.replicate visits .visit) =
      some t ∧ t.lane = .idle) ∧ (∀ handle probeId, s.Outstanding handle probeId →
      ∀ later t, Trace.Along (LivenessRegistry.step settings) (Unanswered handle probeId) s later →
        Trace.run (LivenessRegistry.step settings) s later = some t →
        t.Outstanding handle probeId) ∧ ∀ now nodeRoutingId handle left result peer t,
      s.lane = .scanning now ((nodeRoutingId, handle) :: left) result →
      s.objects[handle]? = some peer → s.visit settings = some t →
      t.lane.result.probes = result.probes ∨ ∃ probeId, t.lane.result.probes =
            result.probes ++ [⟨nodeRoutingId, peer.connectionId, probeId⟩] ∧
          t.Outstanding handle probeId ∧
          ∀ outstanding ∈ peer.outstandingProbe, probeId = outstanding := by
  obtain ⟨hinvariant, hrecorded⟩ := Trace.run_invariant
    (I := fun x => LivenessInvariant settings x.1 ∧ Recorded settings x.1 x.2)
    (fun _ _ _ hx _ hstep => sound_stepHeard hx hstep)
    ⟨LivenessInvariant.new settings, recorded_new settings⟩ (Trace.along_true _ _) hrun
  refine ⟨⟨hinvariant.early, hinvariant.retry⟩, ?_, ?_, exists_visits hinvariant, ?_, ?_⟩
  · intro now hdue
    have hwaits := waits_of_not_due hinvariant.early hdue
    refine ⟨fun entry hentry => ?_, ?_, fun later t => scan_of_waits hwaits⟩
    · exact ⟨hwaits entry hentry,
        not_quiet_of_waits hinvariant hrecorded hentry (hwaits entry hentry)⟩
    · intro hlane activity hactivity
      obtain ⟨hknown, hlt⟩ := lt_nextDue hdue
      rcases hinvariant.retry hlane with hunknown | hretry
      · exact absurd hunknown hknown
      · exact hlt.trans_le (hretry activity hactivity)
  · intro now later t heard' hidle hwithin hlater left next result hlane
    exact timedOut_of_tick hinvariant hrecorded hidle hwithin hlater hlane
  · intro handle probeId houtstanding later t halong hlater
    exact Trace.run_invariant (I := fun x => x.Outstanding handle probeId)
      (fun _ _ _ hx haction hstep => hx.step haction hstep) houtstanding halong hlater
  · intro now nodeRoutingId handle left result peer t hlane hpeer hvisit
    exact LivenessRegistry.probes_visit hlane hpeer hvisit

/-- A peer is probed, heard in the middle of the tick, and timed out when it is silent. -/
theorem liveness_early_silent :
    let settings : LivenessSettings := ⟨5, 15, by decide, by decide⟩
    ∃ s heard, Trace.run (LivenessRegistry.stepHeard settings) (.new, [])
        [.admitNode [1] [2] 0, .setAdmissionPending true 0, .visit, .visit, .tick 3, .visit,
          .received 0 4, .visit, .visit, .visit, .admitNode [3] [4] 18, .tick 19, .visit] =
        some (s, heard) ∧
      heard = [(0, 0), (0, 4), (1, 18)] ∧ s.lane.result.timedOutNodes = [[1]] ∧ s.EarlyPeers := by
  intro settings
  have hsome : ((Trace.run (LivenessRegistry.stepHeard settings) (.new, [])
      [.admitNode [1] [2] 0, .setAdmissionPending true 0, .visit, .visit, .tick 3, .visit,
        .received 0 4, .visit, .visit, .visit, .admitNode [3] [4] 18, .tick 19, .visit]).map fun x =>
      (x.2, x.1.lane.result.timedOutNodes)) = some ([(0, 0), (0, 4), (1, 18)], [[1]]) := by
    rfl
  obtain ⟨⟨s, heard⟩, hrun, hx⟩ := Option.map_eq_some_iff.mp hsome
  obtain ⟨hheard, hnodes⟩ := Prod.mk.inj hx
  exact ⟨s, heard, hrun, hheard, hnodes, (liveness_early settings _ s heard hrun).1.1⟩

end Zlink.Mesh
