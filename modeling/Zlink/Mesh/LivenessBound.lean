import Zlink.Mesh.Liveness

/-!
# The due bound of the liveness registry

Readers outside the lane skip a tick when the bound says that nothing is due. The bound is only
worked out at the end of some operations, but whatever else happens moves what is due later, or
makes the bound unknown. So it is early at any time, also in the middle of a tick.
-/

namespace Zlink.Mesh

variable {settings : LivenessSettings} {s t : LivenessRegistry} {handle : ℕ}
  {peer : LivenessPeer} {now : ℤ}

theorem guarded_eq_some {α : Type} {p : Prop} [Decidable p] {x y : α}
    (h : (if p then some x else none) = some y) : p ∧ x = y := by
  split at h
  · rename_i hp
    exact ⟨hp, Option.some.inj h⟩
  · cases h

structure LivenessPeer.NotBefore (later peer : LivenessPeer) : Prop where
  deadline : peer.deadline ≤ later.deadline
  nextProbe : peer.nextProbe ≤ later.nextProbe

theorem LivenessPeer.NotBefore.refl (peer : LivenessPeer) : peer.NotBefore peer :=
  ⟨le_rfl, le_rfl⟩

theorem LivenessPeer.notBefore_recordReceived (settings : LivenessSettings) (now : ℤ)
    (peer : LivenessPeer) : (peer.recordReceived settings now).NotBefore peer :=
  ⟨le_max_left _ _, le_rfl⟩

theorem LivenessPeer.notBefore_answered (probeId : UInt64) (peer : LivenessPeer) :
    (peer.answered probeId).NotBefore peer := by
  rw [LivenessPeer.answered]
  split <;> exact ⟨le_rfl, le_rfl⟩

theorem lt_advanceProbe (settings : LivenessSettings) (nextProbe now : ℤ) :
    nextProbe < LivenessRegistry.advanceProbe settings nextProbe now ∧
      now < LivenessRegistry.advanceProbe settings nextProbe now := by
  have hpositive := settings.positive
  fun_induction LivenessRegistry.advanceProbe settings nextProbe now with
  | case1 nextProbe hle ih => exact ⟨by linarith [ih.1], ih.2⟩
  | case2 nextProbe hle => exact ⟨by linarith, not_le.mp hle⟩

def NotBefore (objects' objects : List LivenessPeer) : Prop :=
  ∀ (handle : ℕ) (later : LivenessPeer), objects'[handle]? = some later →
    ∃ peer, objects[handle]? = some peer ∧ later.NotBefore peer

theorem NotBefore.refl (objects : List LivenessPeer) : NotBefore objects objects :=
  fun _ later hlater => ⟨later, hlater, .refl later⟩

theorem notBefore_modify {f : LivenessPeer → LivenessPeer} (hf : ∀ peer, (f peer).NotBefore peer)
    (objects : List LivenessPeer) (handle : ℕ) : NotBefore (objects.modify handle f) objects := by
  intro other later hlater
  rw [List.getElem?_modify] at hlater
  obtain ⟨peer, hpeer, rfl⟩ := Option.map_eq_some_iff.mp hlater
  refine ⟨peer, hpeer, ?_⟩
  split
  · exact hf peer
  · exact .refl peer

theorem notBefore_set {objects : List LivenessPeer} (hpeer : objects[handle]? = some peer)
    {later : LivenessPeer} (hlater : later.NotBefore peer) :
    NotBefore (objects.set handle later) objects := by
  intro other peer' hpeer'
  rw [List.getElem?_set] at hpeer'
  split_ifs at hpeer' with hself hlt
  · obtain rfl := Option.some.inj hpeer'
    exact ⟨peer, hself ▸ hpeer, hlater⟩
  · exact ⟨peer', hpeer', .refl peer'⟩

def LivenessRegistry.EarlyFor (s : LivenessRegistry) (next : ℤ) (entry : Bytes × ℕ) : Prop :=
  ∀ peer, s.objects[entry.2]? = some peer → next ≤ peer.deadline ∧ next ≤ peer.nextProbe

def LivenessRegistry.EarlyPeers (s : LivenessRegistry) : Prop :=
  s.nextDue = unknownDue ∨ ∀ entry ∈ s.peers.entries, s.EarlyFor s.nextDue entry

def LivenessRegistry.EarlyRetry (settings : LivenessSettings) (s : LivenessRegistry) : Prop :=
  s.nextDue = unknownDue ∨
    ∀ activity ∈ s.admissionActivity, s.nextDue ≤ activity + settings.probeInterval

/-- What holds in every state. While the next bound is worked out it is early for the peers that
have been visited. -/
structure LivenessInvariant (settings : LivenessSettings) (s : LivenessRegistry) : Prop where
  handles : ∀ entry ∈ s.peers.entries, entry.2 < s.objects.length
  early : s.EarlyPeers
  retry : (∀ left next result, s.lane ≠ .publishing left next result) → s.EarlyRetry settings
  scanning : ∀ now left result, s.lane = .scanning now left result →
    left.Sublist s.peers.entries ∧ (s.nextDue = unknownDue ∨ s.nextDue ≤ now)
  publishing : ∀ left next result, s.lane = .publishing left next result →
    next ≤ s.admissionDue settings ∧ left.Sublist s.peers.entries ∧
      ∀ entry ∈ s.peers.entries, entry ∉ left → s.EarlyFor next entry

theorem LivenessRegistry.EarlyFor.mono {next : ℤ} {entry : Bytes × ℕ} (h : s.EarlyFor next entry)
    (hobjects : NotBefore t.objects s.objects) : t.EarlyFor next entry := by
  intro later hlater
  obtain ⟨peer, hpeer, hle⟩ := hobjects entry.2 later hlater
  obtain ⟨hdeadline, hprobe⟩ := h peer hpeer
  exact ⟨hdeadline.trans hle.deadline, hprobe.trans hle.nextProbe⟩

theorem LivenessRegistry.EarlyPeers.mono (h : s.EarlyPeers)
    (hobjects : NotBefore t.objects s.objects) (hdue : t.nextDue = s.nextDue)
    (hpeers : ∀ entry ∈ t.peers.entries, entry ∈ s.peers.entries) : t.EarlyPeers := by
  rcases h with hunknown | hearly
  · exact .inl (hdue.trans hunknown)
  · refine .inr fun entry hentry => ?_
    rw [hdue]
    exact (hearly entry (hpeers entry hentry)).mono hobjects

namespace LivenessInvariant

theorem new (settings : LivenessSettings) : LivenessInvariant settings .new where
  handles := by
    intro entry hentry
    cases hentry
  early := .inl rfl
  retry _ := .inl rfl
  scanning := by
    intro now left result hlane
    cases hlane
  publishing := by
    intro left next result hlane
    cases hlane

theorem later (h : LivenessInvariant settings s) {objects : List LivenessPeer}
    (hobjects : NotBefore objects s.objects) (hlength : objects.length = s.objects.length) :
    LivenessInvariant settings { s with objects } where
  handles entry hentry := (h.handles entry hentry).trans_eq hlength.symm
  early := h.early.mono hobjects rfl fun _ hentry => hentry
  retry := h.retry
  scanning := h.scanning
  publishing left next result hlane := by
    obtain ⟨hnext, hleft, hvisited⟩ := h.publishing left next result hlane
    exact ⟨hnext, hleft, fun entry hentry hnot => (hvisited entry hentry hnot).mono hobjects⟩

theorem publishNextDue (h : LivenessInvariant settings s) (activity : Option ℤ)
    (result : LivenessTick) : LivenessInvariant settings
      (LivenessRegistry.publishNextDue settings { s with admissionActivity := activity }
        result) where
  handles := h.handles
  early := h.early
  retry hlane := absurd rfl (hlane _ _ _)
  scanning := by
    intro now left result hlane
    cases hlane
  publishing := by
    intro left next result hlane
    obtain ⟨rfl, rfl, rfl⟩ := LivenessLane.publishing.inj hlane
    exact ⟨le_rfl, .refl _, fun entry hentry hnot => absurd hentry hnot⟩

theorem admitNode (h : LivenessInvariant settings s) (hidle : s.lane = .idle)
    (nodeRoutingId connectionId : Bytes) (now : ℤ) :
    LivenessInvariant settings (s.admitNode settings nodeRoutingId connectionId now) := by
  rw [LivenessRegistry.admitNode]
  split
  · exact h
  · refine ⟨fun entry hentry => ?_, .inl rfl, fun _ => .inl rfl, ?_, ?_⟩
    · rw [List.length_append, List.length_singleton]
      rcases OrderedMap.mem_place hentry with rfl | hentry
      · exact Nat.lt_succ_self _
      · exact (h.handles entry hentry).trans (Nat.lt_succ_self _)
    · intro now left result hlane
      cases hidle.symm.trans hlane
    · intro left next result hlane
      cases hidle.symm.trans hlane

theorem disconnect (h : LivenessInvariant settings s) (hidle : s.lane = .idle)
    (nodeRoutingId connectionId : Bytes) :
    LivenessInvariant settings (s.disconnect nodeRoutingId connectionId) := by
  rw [LivenessRegistry.disconnect]
  split
  · have hpeers : ∀ entry ∈ (s.peers.erase nodeRoutingId).entries, entry ∈ s.peers.entries :=
      fun entry hentry => (List.mem_filter.mp hentry).1
    refine ⟨fun entry hentry => h.handles entry (hpeers entry hentry),
      h.early.mono (.refl _) rfl hpeers, h.retry, ?_, ?_⟩
    · intro now left result hlane
      cases hidle.symm.trans hlane
    · intro left next result hlane
      cases hidle.symm.trans hlane
  · exact h

theorem acknowledge (h : LivenessInvariant settings s) (nodeRoutingId connectionId : Bytes)
    (probeId : UInt64) (now : ℤ) : LivenessInvariant settings
      (s.acknowledge settings nodeRoutingId connectionId probeId now) := by
  rw [LivenessRegistry.acknowledge]
  split
  · exact h
  · refine h.later (notBefore_modify (fun peer => ?_) _ _) (List.length_modify _ _ _)
    have hanswered :=
      LivenessPeer.notBefore_answered probeId (peer.recordReceived settings now)
    have hreceived := LivenessPeer.notBefore_recordReceived settings now peer
    exact ⟨hreceived.deadline.trans hanswered.deadline,
      hreceived.nextProbe.trans hanswered.nextProbe⟩

theorem tick (h : LivenessInvariant settings s) (hidle : s.lane = .idle) (now : ℤ) :
    LivenessInvariant settings (s.tick now) := by
  rw [LivenessRegistry.tick]
  split
  · rename_i hdue
    simp only [LivenessRegistry.due, Bool.or_eq_true, decide_eq_true_eq] at hdue
    refine ⟨h.handles, h.early, fun _ => h.retry (by simp [hidle]), ?_, ?_⟩
    · intro now left result hlane
      obtain ⟨rfl, rfl, rfl⟩ := LivenessLane.scanning.inj hlane
      exact ⟨.refl _, hdue⟩
    · intro left next result hlane
      cases hlane
  · exact h

variable {left : List (Bytes × ℕ)} {result : LivenessTick}

theorem scanOn (h : LivenessInvariant settings s) {entry : Bytes × ℕ}
    {result' : LivenessTick} (hlane : s.lane = .scanning now (entry :: left) result)
    (hobjects : NotBefore t.objects s.objects) (hlength : t.objects.length = s.objects.length)
    (hpeers : ∀ entry ∈ t.peers.entries, entry ∈ s.peers.entries)
    (hleft : left.Sublist t.peers.entries) (hdue : t.nextDue = s.nextDue)
    (hactivity : t.admissionActivity = s.admissionActivity)
    (hlane' : t.lane = .scanning now left result') : LivenessInvariant settings t where
  handles entry hentry := (h.handles entry (hpeers entry hentry)).trans_eq hlength.symm
  early := h.early.mono hobjects hdue hpeers
  retry _ := by
    have hretry := h.retry (by simp [hlane])
    rwa [LivenessRegistry.EarlyRetry, hdue, hactivity]
  scanning := by
    intro now' left' result'' hlane''
    obtain ⟨rfl, rfl, -⟩ := LivenessLane.scanning.inj (hlane'.symm.trans hlane'')
    exact ⟨hleft, hdue ▸ (h.scanning _ _ _ hlane).2⟩
  publishing := by
    intro left' next result'' hlane''
    cases hlane'.symm.trans hlane''

theorem scanPeer (h : LivenessInvariant settings s) {nodeRoutingId : Bytes}
    (hlane : s.lane = .scanning now ((nodeRoutingId, handle) :: left) result)
    (hpeer : s.objects[handle]? = some peer) : LivenessInvariant settings
      (s.scanPeer settings now left result nodeRoutingId handle peer) := by
  have hsub := (h.scanning _ _ _ hlane).1
  have hleft := (List.sublist_cons_self _ left).trans hsub
  rw [LivenessRegistry.scanPeer]
  split_ifs
  · exact h.scanOn hlane (.refl _) rfl (fun entry hentry => (List.mem_filter.mp hentry).1)
      (OrderedMap.sublist_erase hsub) rfl rfl rfl
  · refine h.scanOn hlane (notBefore_set hpeer ⟨le_rfl, ?_⟩) List.length_set (fun _ h => h)
      hleft rfl rfl rfl
    exact (lt_advanceProbe settings peer.nextProbe now).1.le
  · exact h.scanOn hlane (.refl _) rfl (fun _ h => h) hleft rfl rfl rfl

theorem publishPeer (h : LivenessInvariant settings s) {entry : Bytes × ℕ} {next : ℤ}
    (hlane : s.lane = .publishing (entry :: left) next result)
    (hpeer : s.objects[entry.2]? = some peer) : LivenessInvariant settings
      { s with lane := .publishing left (min next (min peer.deadline peer.nextProbe)) result } where
  handles := h.handles
  early := h.early
  retry hlane' := absurd rfl (hlane' _ _ _)
  scanning := by
    intro now left result hlane'
    cases hlane'
  publishing := by
    intro left' next' result' hlane'
    obtain ⟨rfl, rfl, rfl⟩ := LivenessLane.publishing.inj hlane'
    obtain ⟨hnext, hleft, hvisited⟩ := h.publishing _ _ _ hlane
    refine ⟨(min_le_left _ _).trans hnext, (List.sublist_cons_self _ _).trans hleft, ?_⟩
    intro other hother hnot later hlater
    by_cases hself : other = entry
    · subst hself
      obtain rfl := Option.some.inj (hpeer.symm.trans hlater)
      exact ⟨(min_le_right _ _).trans (min_le_left _ _),
        (min_le_right _ _).trans (min_le_right _ _)⟩
    · have hbehind : other ∉ entry :: left := by
        rw [List.mem_cons, not_or]
        exact ⟨hself, hnot⟩
      obtain ⟨hdeadline, hprobe⟩ := hvisited other hother hbehind later hlater
      exact ⟨(min_le_left _ _).trans hdeadline, (min_le_left _ _).trans hprobe⟩

theorem published (h : LivenessInvariant settings s) {next : ℤ}
    (hlane : s.lane = .publishing [] next result) :
    LivenessInvariant settings { s with nextDue := next, lane := .idle } := by
  obtain ⟨hnext, -, hvisited⟩ := h.publishing _ _ _ hlane
  refine ⟨h.handles, .inr fun entry hentry => ?_, fun _ => .inr fun activity hactivity => ?_,
    ?_, ?_⟩
  · exact hvisited entry hentry List.not_mem_nil
  · rwa [LivenessRegistry.admissionDue, hactivity] at hnext
  · intro now left result hlane'
    cases hlane'
  · intro left next result hlane'
    cases hlane'

theorem visit (h : LivenessInvariant settings s) (hvisit : s.visit settings = some t) :
    LivenessInvariant settings t := by
  unfold LivenessRegistry.visit at hvisit
  split at hvisit
  · cases hvisit
  · rename_i hlane
    obtain ⟨peer, hpeer, rfl⟩ := Option.map_eq_some_iff.mp hvisit
    exact h.scanPeer hlane hpeer
  · obtain rfl := Option.some.inj hvisit
    exact h.publishNextDue _ _
  · rename_i hlane
    obtain ⟨peer, hpeer, rfl⟩ := Option.map_eq_some_iff.mp hvisit
    exact h.publishPeer hlane hpeer
  · rename_i hlane
    obtain rfl := Option.some.inj hvisit
    exact h.published hlane

theorem step (h : LivenessInvariant settings s) {action : LivenessAction}
    (hstep : s.step settings action = some t) : LivenessInvariant settings t := by
  cases action with
  | received handle now =>
    obtain ⟨-, rfl⟩ := guarded_eq_some hstep
    exact h.later (notBefore_modify (LivenessPeer.notBefore_recordReceived settings now) _ _)
      (List.length_modify _ _ _)
  | admitNode nodeRoutingId connectionId now =>
    obtain ⟨hidle, rfl⟩ := guarded_eq_some hstep
    exact h.admitNode hidle _ _ _
  | disconnect nodeRoutingId connectionId =>
    obtain ⟨hidle, rfl⟩ := guarded_eq_some hstep
    exact h.disconnect hidle _ _
  | acknowledge nodeRoutingId connectionId probeId now =>
    obtain ⟨-, rfl⟩ := guarded_eq_some hstep
    exact h.acknowledge _ _ _ _
  | setAdmissionPending pending clock =>
    obtain ⟨-, rfl⟩ := guarded_eq_some hstep
    exact h.publishNextDue _ _
  | nextActivity =>
    obtain ⟨-, rfl⟩ := guarded_eq_some hstep
    rw [LivenessRegistry.nextActivity]
    split
    · exact h.publishNextDue s.admissionActivity _
    · exact h
  | tick now =>
    obtain ⟨hidle, rfl⟩ := guarded_eq_some hstep
    exact h.tick hidle now
  | visit => exact h.visit hstep

end LivenessInvariant

end Zlink.Mesh
