import Zlink.Mesh.Registry

/-!
# Which peers a registry tracks

A node is admitted or not required, never both, and the local node is neither. A turn changes
the descriptor of a tracked node only within the rules of its lifecycle generation, and a new
generation comes only with a discovery expectation that it matches.
-/

namespace Zlink.Mesh

namespace Registry

variable {s t : Registry} {node other : Bytes} {c d : NodeDescriptor} {connectionId : Bytes}
  {expected : Option NodeDescriptor} {command : Command} {handle : Option ℕ} {e : Event}

theorem current_of_peer {peer : AdmittedPeer} (h : s.peers.find node = some peer) :
    s.current node = some peer.descriptor := by
  rw [current, h]

theorem current_of_none (h : s.peers.find node = none) :
    s.current node = s.notRequiredPeers.find node := by
  rw [current, h]

/-- A descriptor that a turn of `admitOnLane` takes for a node. -/
structure Accepts (s : Registry) (d : NodeDescriptor) (expected : Option NodeDescriptor)
    (command : Command) : Prop where
  valid : validDescriptor d = true
  mesh : d.meshName = s.localDescriptor.meshName
  foreign : d.nodeRoutingId ≠ s.localDescriptor.nodeRoutingId
  expectation : ∀ x, expected = some x → discoveryExpectationMatches x d = true
  untracked : s.current d.nodeRoutingId = none → command ≠ .update
  generation : ∀ c, s.current d.nodeRoutingId = some c →
    c.lifecycleGeneration ≠ d.lifecycleGeneration → command ≠ .update ∧ expected ≠ none
  revision : ∀ c, s.current d.nodeRoutingId = some c →
    c.lifecycleGeneration = d.lifecycleGeneration →
      c = d ∨ c.descriptorRevision < d.descriptorRevision ∧ immutableFieldsMatch c d false = true

theorem accepts_of_not_stale (hvalid : validDescriptor d = true)
    (hmesh : d.meshName = s.localDescriptor.meshName)
    (hforeign : d.nodeRoutingId ≠ s.localDescriptor.nodeRoutingId)
    (hexpected : ¬ (expected.any fun x => !discoveryExpectationMatches x d) = true)
    (hgeneration : ¬ staleGeneration (s.current d.nodeRoutingId) expected d command = true)
    (hrevision : ¬ staleRevision (s.current d.nodeRoutingId) d command = true) :
    Accepts s d expected command := by
  refine ⟨hvalid, hmesh, hforeign, ?_, ?_, ?_, ?_⟩
  · rintro x rfl
    simpa using hexpected
  · intro hnone hupdate
    rw [hnone, hupdate] at hgeneration
    exact hgeneration rfl
  · intro c hc hne
    rw [hc] at hgeneration
    have hstale : ¬ (command = .update ∨ expected = none) := by
      simpa [staleGeneration, hne.symm] using hgeneration
    exact not_or.mp hstale
  · intro c hc heq
    rw [hc] at hrevision
    simp only [staleRevision, Option.any_some, heq, decide_true, Bool.true_and, Bool.or_eq_true,
      Bool.and_eq_true, decide_eq_true_eq, Bool.not_eq_true', not_or, not_and, not_lt,
      not_not] at hrevision
    obtain ⟨⟨hle, hsame⟩, hhigher⟩ := hrevision
    rcases hle.eq_or_lt with hrev | hrev
    · exact .inl (hsame hrev.symm)
    · refine .inr ⟨hrev, ?_⟩
      simpa using (hhigher hrev).2

inductive Admits (s : Registry) (d : NodeDescriptor) (connectionId : Bytes)
    (expected : Option NodeDescriptor) (command : Command) : Turn AdmissionResult → Prop where
  | unchanged (result : AdmissionResult) :
      Admits s d connectionId expected command ⟨s, result, false⟩
  | notRequired (accepts : Accepts s d expected command)
      (idle : routeMeshConnectionNotRequired s.localDescriptor d = true) :
      Admits s d connectionId expected command ⟨{ s with
            peers := s.peers.erase d.nodeRoutingId
            notRequiredPeers := s.notRequiredPeers.insertOrAssign d.nodeRoutingId d
            topologyVersion := s.topologyVersion + 1 }, .notRequired, true⟩
  | admitted (accepts : Accepts s d expected command) (peer : AdmittedPeer)
      (result : AdmissionResult) (descriptor : peer.descriptor = d) :
      Admits s d connectionId expected command ⟨{ s with
            peers := s.peers.insertOrAssign d.nodeRoutingId peer
            notRequiredPeers := s.notRequiredPeers.erase d.nodeRoutingId
            topologyVersion := s.topologyVersion + 1 }, result, true⟩

theorem admit_cases : Admits s d connectionId expected command
      (s.admitOnLane d connectionId expected command handle) := by
  unfold admitOnLane
  dsimp only
  split_ifs with hvalid hmesh hlocal hexpected hgeneration hrevision hidle hsame
  · exact .unchanged _
  · exact .unchanged _
  · exact .unchanged _
  · exact .unchanged _
  · exact .unchanged _
  · exact .unchanged _
  · simp only [Bool.not_eq_true', not_or, Bool.not_eq_false] at hvalid
    exact .notRequired (accepts_of_not_stale hvalid.1 (not_not.mp hmesh) hlocal hexpected
      hgeneration hrevision) hidle
  · exact .unchanged _
  all_goals
    simp only [Bool.not_eq_true', not_or, Bool.not_eq_false] at hvalid
    exact .admitted (accepts_of_not_stale hvalid.1 (not_not.mp hmesh) hlocal hexpected
      hgeneration hrevision) _ _ rfl

structure Publishes (s t : Registry) (d : NodeDescriptor) : Prop where
  valid : validDescriptor d = true
  localDescriptor : t.localDescriptor = d
  identity : d.meshName = s.localDescriptor.meshName ∧
    d.nodeRoutingId = s.localDescriptor.nodeRoutingId ∧
    d.lifecycleGeneration = s.localDescriptor.lifecycleGeneration
  revision : s.localDescriptor.descriptorRevision < d.descriptorRevision
  peers : t.peers = s.peers
  notRequiredPeers : t.notRequiredPeers =
    s.notRequiredPeers.filter fun e => routeMeshConnectionNotRequired d e.2

theorem publishLocal_ok (h : s.publishLocal d = .ok t) : Publishes s t d := by
  unfold publishLocal at h
  dsimp only at h
  split_ifs at h with hvalid hidentity hrevision
  obtain rfl := Except.ok.inj h
  rw [not_or, not_or, not_not, not_not, not_not] at hidentity
  exact ⟨by simpa using hvalid, rfl, hidentity, not_le.mp hrevision, rfl, rfl⟩

inductive Steps (s : Registry) : Event → Registry → Prop where
  | unchanged (e : Event) : Steps s e s
  | published (e : Event) (t : Registry) (d : NodeDescriptor) (h : Publishes s t d)
      (quiet : ∀ x connectionId expected command handle,
        e ≠ .admitOnLane x connectionId expected command handle) : Steps s e t
  | notRequired (d : NodeDescriptor) (connectionId : Bytes) (expected : Option NodeDescriptor)
      (command : Command) (handle : Option ℕ) (accepts : Accepts s d expected command)
      (idle : routeMeshConnectionNotRequired s.localDescriptor d = true) :
      Steps s (.admitOnLane d connectionId expected command handle)
        { s with
          peers := s.peers.erase d.nodeRoutingId
          notRequiredPeers := s.notRequiredPeers.insertOrAssign d.nodeRoutingId d
          topologyVersion := s.topologyVersion + 1 }
  | admitted (d : NodeDescriptor) (connectionId : Bytes) (expected : Option NodeDescriptor)
      (command : Command) (handle : Option ℕ) (accepts : Accepts s d expected command)
      (peer : AdmittedPeer) (descriptor : peer.descriptor = d) :
      Steps s (.admitOnLane d connectionId expected command handle)
        { s with
          peers := s.peers.insertOrAssign d.nodeRoutingId peer
          notRequiredPeers := s.notRequiredPeers.erase d.nodeRoutingId
          topologyVersion := s.topologyVersion + 1 }
  | disconnected (node connectionId : Bytes) (peer : AdmittedPeer)
      (found : s.peers.find node = some peer) (connection : peer.connectionId = connectionId) :
      Steps s (.disconnect node connectionId)
        { s with
          peers := s.peers.erase node
          topologyVersion := s.topologyVersion + 1 }

theorem step_cases (s : Registry) (e : Event) : Steps s e (s.step e) := by
  cases e with
  | publishLocal d =>
    cases h : s.publishLocal d with
    | error text =>
      rw [step, h]
      exact .unchanged _
    | ok t =>
      rw [step, h]
      exact .published _ t d (publishLocal_ok h) fun _ _ _ _ _ h => Event.noConfusion h
  | publishDraining =>
    cases h : s.publishDraining with
    | error text =>
      rw [step, h]
      exact .unchanged _
    | ok t =>
      rw [step, h]
      unfold publishDraining at h
      dsimp only at h
      split_ifs at h
      · obtain rfl := Except.ok.inj h
        exact .unchanged _
      · exact .published _ t _ (publishLocal_ok h) fun _ _ _ _ _ h => Event.noConfusion h
  | admitOnLane d connectionId expected command handle =>
    have hcases : Admits s d connectionId expected command
        (s.admitOnLane d connectionId expected command handle) := admit_cases
    rw [step]
    generalize s.admitOnLane d connectionId expected command handle = turn at hcases
    cases hcases with
    | unchanged => exact .unchanged _
    | notRequired accepts idle => exact .notRequired d _ _ _ _ accepts idle
    | admitted accepts peer result descriptor =>
      exact .admitted d _ _ _ _ accepts peer descriptor
  | disconnect node connectionId =>
    rw [step, disconnect]
    split
    · rename_i peer hfind
      split
      · exact .disconnected node connectionId peer hfind ‹_›
      · exact .unchanged _
    · exact .unchanged _

structure Tracks (s : Registry) : Prop where
  disjoint : ∀ node peer, s.peers.find node = some peer → s.notRequiredPeers.find node = none
  peer : ∀ node peer, s.peers.find node = some peer →
    peer.descriptor.nodeRoutingId = node ∧ node ≠ s.localDescriptor.nodeRoutingId ∧
      validDescriptor peer.descriptor = true
  notRequired : ∀ node d, s.notRequiredPeers.find node = some d →
    d.nodeRoutingId = node ∧ node ≠ s.localDescriptor.nodeRoutingId

theorem tracks_create (h : create d = .ok s) : Tracks s := by
  unfold create at h
  split_ifs at h
  obtain rfl := Except.ok.inj h
  exact ⟨nofun, nofun, nofun⟩

theorem Tracks.steps (h : Tracks s) (hsteps : Steps s e t) : Tracks t := by
  cases hsteps with
  | unchanged => exact h
  | published _ _ d hpublish =>
    have hlocal : t.localDescriptor.nodeRoutingId = s.localDescriptor.nodeRoutingId := by
      rw [hpublish.localDescriptor]
      exact hpublish.identity.2.1
    constructor
    · intro node peer hfind
      rw [hpublish.peers] at hfind
      rw [hpublish.notRequiredPeers, OrderedMap.find_filter, h.disjoint node peer hfind]
      rfl
    · intro node peer hfind
      rw [hpublish.peers] at hfind
      rw [hlocal]
      exact h.peer node peer hfind
    · intro node x hfind
      rw [hpublish.notRequiredPeers, OrderedMap.find_filter] at hfind
      rw [hlocal]
      exact h.notRequired node x (Option.filter_eq_some_iff.mp hfind).1
  | notRequired d connectionId expected command handle accepts idle =>
    constructor
    · intro node peer hfind
      obtain ⟨hself, hfind⟩ := OrderedMap.of_find_erase hfind
      rw [OrderedMap.find_insertOrAssign_of_ne _ _ hself]
      exact h.disjoint node peer hfind
    · exact fun node peer hfind => h.peer node peer (OrderedMap.of_find_erase hfind).2
    · intro node x hfind
      by_cases hself : node = d.nodeRoutingId
      · rw [hself, OrderedMap.find_insertOrAssign_self] at hfind
        obtain rfl := Option.some.inj hfind
        exact ⟨hself.symm, hself ▸ accepts.foreign⟩
      · rw [OrderedMap.find_insertOrAssign_of_ne _ _ hself] at hfind
        exact h.notRequired node x hfind
  | admitted d connectionId expected command handle accepts peer descriptor =>
    constructor
    · intro node x hfind
      by_cases hself : node = d.nodeRoutingId
      · rw [hself, OrderedMap.find_erase_self]
      · rw [OrderedMap.find_insertOrAssign_of_ne _ _ hself] at hfind
        rw [OrderedMap.find_erase_of_ne _ hself]
        exact h.disjoint node x hfind
    · intro node x hfind
      by_cases hself : node = d.nodeRoutingId
      · rw [hself, OrderedMap.find_insertOrAssign_self] at hfind
        obtain rfl := Option.some.inj hfind
        rw [descriptor]
        exact ⟨hself.symm, hself ▸ accepts.foreign, accepts.valid⟩
      · rw [OrderedMap.find_insertOrAssign_of_ne _ _ hself] at hfind
        exact h.peer node x hfind
    · exact fun node x hfind => h.notRequired node x (OrderedMap.of_find_erase hfind).2
  | disconnected node connectionId gone found connection =>
    constructor
    · exact fun x peer hfind => h.disjoint x peer (OrderedMap.of_find_erase hfind).2
    · exact fun x peer hfind => h.peer x peer (OrderedMap.of_find_erase hfind).2
    · exact h.notRequired

theorem Tracks.run (h : Tracks s) (es : List Event) : Tracks (s.run es) := by
  induction es generalizing s with
  | nil => exact h
  | cons e es ih => exact ih (h.steps (step_cases s e))

structure Follows (c d : NodeDescriptor) : Prop where
  revision : c.descriptorRevision ≤ d.descriptorRevision
  same : c.descriptorRevision = d.descriptorRevision → c = d
  immutable : immutableFieldsMatch c d false = true

theorem immutableFieldsMatch_refl (c : NodeDescriptor) (allow : Bool) :
    immutableFieldsMatch c c allow = true := by
  simp [immutableFieldsMatch]

theorem immutableFieldsMatch_trans {x : NodeDescriptor}
    (h : immutableFieldsMatch c d false = true) (h' : immutableFieldsMatch d x false = true) :
    immutableFieldsMatch c x false = true := by
  simp only [immutableFieldsMatch, Bool.and_eq_true, decide_eq_true_eq, Bool.false_or] at *
  simp [h, h']

namespace Follows

theorem refl (c : NodeDescriptor) : Follows c c :=
  ⟨le_rfl, fun _ => rfl, immutableFieldsMatch_refl c false⟩

theorem trans {x : NodeDescriptor} (h : Follows c d) (h' : Follows d x) : Follows c x where
  revision := h.revision.trans h'.revision
  same heq := by
    have hcd := h.revision
    have hdx := h'.revision
    rw [h.same (by omega), h'.same (by omega)]
  immutable := immutableFieldsMatch_trans h.immutable h'.immutable

end Follows

/-- The node is tracked by one of the two maps, so a change of one of them at another node does
not change its descriptor. -/
theorem current_of_ne {t : Registry} (hpeers : t.peers.find node = s.peers.find node)
    (hnot : t.notRequiredPeers.find node = s.notRequiredPeers.find node) :
    t.current node = s.current node := by
  rw [current, current, hpeers, hnot]

theorem current_steps (h : Tracks s) (hsteps : Steps s e t) (hc : s.current node = some c)
    (hd : t.current node = some d) : c = d ∨ ∃ connectionId expected command handle,
      e = .admitOnLane d connectionId expected command handle ∧ d.nodeRoutingId = node ∧
        Accepts s d expected command := by
  cases hsteps with
  | unchanged => exact .inl (Option.some.inj (hc.symm.trans hd))
  | published _ _ x hpublish =>
    left
    unfold current at hc hd
    rw [hpublish.peers, hpublish.notRequiredPeers, OrderedMap.find_filter] at hd
    cases hfind : s.peers.find node with
    | some peer =>
      rw [hfind] at hc hd
      exact Option.some.inj (hc.symm.trans hd)
    | none =>
      rw [hfind] at hc hd
      dsimp only at hc hd
      rw [hc] at hd
      exact (Option.filter_eq_some_iff.mp hd).1 |> Option.some.inj
  | notRequired x connectionId expected command handle accepts idle =>
    by_cases hself : node = x.nodeRoutingId
    · right
      rw [hself, current_of_none (OrderedMap.find_erase_self _ _),
        OrderedMap.find_insertOrAssign_self] at hd
      obtain rfl := Option.some.inj hd
      exact ⟨_, _, _, _, rfl, hself.symm, accepts⟩
    · left
      rw [current_of_ne (s := s) (OrderedMap.find_erase_of_ne _ hself)
        (OrderedMap.find_insertOrAssign_of_ne _ _ hself)] at hd
      exact Option.some.inj (hc.symm.trans hd)
  | admitted x connectionId expected command handle accepts peer descriptor =>
    by_cases hself : node = x.nodeRoutingId
    · right
      rw [hself, current_of_peer (OrderedMap.find_insertOrAssign_self _ _ _), descriptor] at hd
      obtain rfl := Option.some.inj hd
      exact ⟨_, _, _, _, rfl, hself.symm, accepts⟩
    · left
      rw [current_of_ne (s := s) (OrderedMap.find_insertOrAssign_of_ne _ _ hself)
        (OrderedMap.find_erase_of_ne _ hself)] at hd
      exact Option.some.inj (hc.symm.trans hd)
  | disconnected gone connectionId peer found connection =>
    by_cases hself : node = gone
    · -- the two maps have no common node, so the node is not tracked any more
      rw [hself, current_of_none (OrderedMap.find_erase_self _ _), h.disjoint gone peer found]
        at hd
      cases hd
    · left
      unfold current at hc hd
      rw [OrderedMap.find_erase_of_ne _ hself] at hd
      exact Option.some.inj (hc.symm.trans hd)

theorem follows_steps (h : Tracks s) (hsteps : Steps s e t) (hc : s.current node = some c)
    (hd : t.current node = some d) (hsame : c.lifecycleGeneration = d.lifecycleGeneration) :
    Follows c d := by
  rcases current_steps h hsteps hc hd with rfl | ⟨_, _, _, _, -, rfl, accepts⟩
  · exact .refl c
  · rcases accepts.revision c hc hsame with rfl | ⟨hlt, himmutable⟩
    · exact .refl c
    · exact ⟨hlt.le, fun heq => absurd heq hlt.ne, himmutable⟩

def StaysIn (s : Registry) (node : Bytes) (generation : ℕ) : List Event → Prop
  | [] => ∃ c, s.current node = some c ∧ c.lifecycleGeneration = generation
  | e :: es =>
    (∃ c, s.current node = some c ∧ c.lifecycleGeneration = generation) ∧
      (s.step e).StaysIn node generation es

theorem follows_run (h : Tracks s) {generation : ℕ} {es : List Event}
    (hstays : s.StaysIn node generation es) (hc : s.current node = some c)
    (hd : (s.run es).current node = some d) : Follows c d := by
  induction es generalizing s c with
  | nil =>
    obtain rfl := Option.some.inj (hc.symm.trans hd)
    exact .refl c
  | cons e es ih =>
    obtain ⟨⟨c', hc', hgeneration⟩, hrest⟩ := hstays
    obtain rfl := Option.some.inj (hc.symm.trans hc')
    obtain ⟨x, hx, hxgeneration⟩ : ∃ x, (s.step e).current node = some x ∧
        x.lifecycleGeneration = generation := by
      cases es with
      | nil => exact hrest
      | cons _ _ => exact hrest.1
    have hfollows := follows_steps h (step_cases s e) hc hx (hgeneration.trans hxgeneration.symm)
    exact hfollows.trans (ih (h.steps (step_cases s e)) hrest hx hd)

theorem generation_steps (h : Tracks s) (hsteps : Steps s e t) (hc : s.current node = some c)
    (hd : t.current node = some d) (hnew : c.lifecycleGeneration ≠ d.lifecycleGeneration) :
    ∃ connectionId x command handle, e = .admitOnLane d connectionId (some x) command handle ∧
      discoveryExpectationMatches x d = true ∧ command ≠ .update := by
  rcases current_steps h hsteps hc hd with
    rfl | ⟨connectionId, expected, command, handle, he, rfl, accepts⟩
  · exact absurd rfl hnew
  · obtain ⟨hupdate, hsome⟩ := accepts.generation c hc hnew
    obtain ⟨x, rfl⟩ := Option.ne_none_iff_exists'.mp hsome
    exact ⟨connectionId, x, command, handle, he, accepts.expectation x rfl, hupdate⟩

theorem disconnect_other (hother : ∀ peer, s.peers.find node = some peer →
    peer.connectionId ≠ connectionId) : s.disconnect node connectionId = ⟨s, false, false⟩ := by
  unfold disconnect
  split
  · rename_i peer hfind
    rw [if_neg (hother peer hfind)]
  · rfl

/-- Along all turns of the lane: no node is admitted and not required at once, nor is the local
node; a tracked node keeps to the rules of its generation, takes a new one only with a matching
expectation and never through an update; and a disconnect of another connection does nothing. -/
theorem run_admission (localDescriptor : NodeDescriptor) (r s : Registry) (es : List Event)
    (hcreate : create localDescriptor = .ok r) (hrun : r.run es = s) :
    (∀ node, s.peers.find node = none ∨ s.notRequiredPeers.find node = none) ∧
    s.peers.find s.localDescriptor.nodeRoutingId = none ∧
    s.notRequiredPeers.find s.localDescriptor.nodeRoutingId = none ∧
    (∀ node generation fs c d, s.StaysIn node generation fs → s.current node = some c →
      (s.run fs).current node = some d → c.descriptorRevision ≤ d.descriptorRevision ∧
          (c.descriptorRevision = d.descriptorRevision → c = d) ∧
          immutableFieldsMatch c d false = true) ∧
    (∀ node e c d, s.current node = some c → (s.step e).current node = some d →
      c.lifecycleGeneration ≠ d.lifecycleGeneration →
        ∃ connectionId x command handle, e = .admitOnLane d connectionId (some x) command handle ∧
          discoveryExpectationMatches x d = true ∧ command ≠ .update) ∧ (∀ node connectionId,
      (∀ peer, s.peers.find node = some peer → peer.connectionId ≠ connectionId) →
        s.disconnect node connectionId = ⟨s, false, false⟩) := by
  have h : Tracks s := hrun ▸ (tracks_create hcreate).run es
  refine ⟨fun node => ?_, ?_, ?_, fun node generation fs c d hstays hc hd => ?_,
    fun node e c d hc hd hnew => ?_, fun node connectionId hother => disconnect_other hother⟩
  · cases hfind : s.peers.find node with
    | none => exact .inl rfl
    | some peer => exact .inr (h.disjoint node peer hfind)
  · by_contra hsome
    obtain ⟨peer, hfind⟩ := Option.ne_none_iff_exists'.mp hsome
    exact (h.peer _ peer hfind).2.1 rfl
  · by_contra hsome
    obtain ⟨d, hfind⟩ := Option.ne_none_iff_exists'.mp hsome
    exact (h.notRequired _ d hfind).2 rfl
  · have hfollows := follows_run h hstays hc hd
    exact ⟨hfollows.revision, hfollows.same, hfollows.immutable⟩
  · exact generation_steps h (step_cases s e) hc hd hnew

def someNode (id : Fin 256) (generation revision : ℕ) : NodeDescriptor where
  meshName := "m"
  nodeRoutingId := [id]
  lifecycleGeneration := generation
  descriptorRevision := revision
  advertisedEndpoint := "e"
  channels := [⟨"c", 1⟩]
  state := .serving
  securityIdentity := "s"
  applicationVersion := 0
  protocolCapabilities := [requiredCapability]
  objectRole := .server
  placementWeight := 100
  activeCapacityLimit := 1
  pendingCapacityLimit := 0
  activeCapacityUsed := 0
  pendingCapacityUsed := 0

/-- A peer is admitted and updated. -/
theorem run_admission_update : (Registry.run ⟨someNode 0 1 1, .empty, .empty, 0⟩
        [.admitOnLane (someNode 1 1 1) [7] none .admission none,
          .admitOnLane (someNode 1 1 2) [7] none .update none]).current [1] = some (someNode 1 1 2) ∧
      (Registry.run ⟨someNode 0 1 1, .empty, .empty, 0⟩
        [.admitOnLane (someNode 1 1 1) [7] none .admission none,
          .admitOnLane (someNode 1 1 2) [7] none .update none]).notRequiredPeers.find [0] = none :=
  ⟨by decide, (run_admission (someNode 0 1 1) _ _ _ rfl rfl).2.2.1⟩

end Registry

end Zlink.Mesh
