import Zlink.Mesh.LivenessBound

/-!
# Runs of the liveness registry

A peer is heard when it is admitted, when something is received from it, and when it acknowledges a
probe. What has been heard in a run says which peers a tick times out.
-/

namespace Zlink.Mesh

variable {settings : LivenessSettings} {s t : LivenessRegistry} {handle : ℕ}
  {peer later : LivenessPeer} {now : ℤ} {heard : List (ℕ × ℤ)} {action : LivenessAction}

def LivenessRegistry.hears (s : LivenessRegistry) : LivenessAction → List (ℕ × ℤ)
  | .received handle now => [(handle, now)]
  | .admitNode nodeRoutingId connectionId now =>
    if nodeRoutingId = [] ∨ connectionId = [] ∨
        (s.connected nodeRoutingId connectionId).isSome then []
    else [(s.objects.length, now)]
  | .acknowledge nodeRoutingId connectionId _ now =>
    ((s.connected nodeRoutingId connectionId).map fun handle => (handle, now)).toList
  | _ => []

def LivenessRegistry.stepHeard (settings : LivenessSettings)
    (x : LivenessRegistry × List (ℕ × ℤ)) (action : LivenessAction) :
    Option (LivenessRegistry × List (ℕ × ℤ)) :=
  (x.1.step settings action).map fun s => (s, x.2 ++ x.1.hears action)

def Quiet (settings : LivenessSettings) (heard : List (ℕ × ℤ)) (handle : ℕ) (now : ℤ) : Prop :=
  ∀ instant, (handle, instant) ∈ heard → instant + settings.peerTimeout ≤ now

def LivenessRegistry.Waits (s : LivenessRegistry) (now : ℤ) (handle : ℕ) : Prop :=
  ∀ peer, s.objects[handle]? = some peer → now < peer.deadline ∧ now < peer.nextProbe

def LivenessLane.result : LivenessLane → LivenessTick
  | .idle => ⟨[], []⟩
  | .scanning _ _ result => result
  | .publishing _ _ result => result

structure LivenessPeer.Keeps (later peer : LivenessPeer) : Prop where
  connectionId : later.connectionId = peer.connectionId
  deadline : later.deadline = peer.deadline
  outstanding : ∀ probeId ∈ peer.outstandingProbe, later.outstandingProbe = some probeId

theorem LivenessPeer.Keeps.refl (peer : LivenessPeer) : peer.Keeps peer :=
  ⟨rfl, rfl, fun _ h => h⟩

structure KeepsPeers (objects' objects : List LivenessPeer) : Prop where
  length : objects'.length = objects.length
  keeps : ∀ (handle : ℕ) (later : LivenessPeer), objects'[handle]? = some later →
    ∃ peer, objects[handle]? = some peer ∧ later.Keeps peer

theorem KeepsPeers.refl (objects : List LivenessPeer) : KeepsPeers objects objects :=
  ⟨rfl, fun _ later hlater => ⟨later, hlater, .refl later⟩⟩

theorem KeepsPeers.get {objects' objects : List LivenessPeer} (h : KeepsPeers objects' objects)
    (hpeer : objects[handle]? = some peer) :
    ∃ later, objects'[handle]? = some later ∧ later.Keeps peer := by
  have hlt := (List.getElem?_eq_some_iff.mp hpeer).1
  have hlater := List.getElem?_eq_getElem (hlt.trans_eq h.length.symm)
  obtain ⟨peer', hpeer', hkeeps⟩ := h.keeps handle _ hlater
  obtain rfl := Option.some.inj (hpeer.symm.trans hpeer')
  exact ⟨_, hlater, hkeeps⟩

theorem keepsPeers_set {objects : List LivenessPeer} (hpeer : objects[handle]? = some peer)
    (hlater : later.Keeps peer) : KeepsPeers (objects.set handle later) objects := by
  refine ⟨List.length_set, fun other peer' hpeer' => ?_⟩
  rw [List.getElem?_set] at hpeer'
  split_ifs at hpeer' with hself hlt
  · obtain rfl := Option.some.inj hpeer'
    exact ⟨peer, hself ▸ hpeer, hlater⟩
  · exact ⟨peer', hpeer', .refl peer'⟩

theorem keepsPeers_scanPeer {left : List (Bytes × ℕ)} {result : LivenessTick}
    {nodeRoutingId : Bytes} (hpeer : s.objects[handle]? = some peer) : KeepsPeers
      (s.scanPeer settings now left result nodeRoutingId handle peer).objects s.objects := by
  rw [LivenessRegistry.scanPeer]
  split_ifs
  · exact .refl _
  · refine keepsPeers_set hpeer ⟨rfl, rfl, fun probeId hprobe => ?_⟩
    rw [Option.mem_def.mp hprobe]
    rfl
  · exact .refl _

theorem keepsPeers_visit (h : s.visit settings = some t) : KeepsPeers t.objects s.objects := by
  unfold LivenessRegistry.visit at h
  split at h
  · cases h
  · obtain ⟨peer, hpeer, rfl⟩ := Option.map_eq_some_iff.mp h
    exact keepsPeers_scanPeer hpeer
  · obtain rfl := Option.some.inj h
    exact .refl _
  · obtain ⟨peer, -, rfl⟩ := Option.map_eq_some_iff.mp h
    exact .refl _
  · obtain rfl := Option.some.inj h
    exact .refl _

theorem quiet_append {other : ℕ} {instant : ℤ} :
    Quiet settings (heard ++ [(handle, instant)]) other now ↔ Quiet settings heard other now ∧
        (other = handle → instant + settings.peerTimeout ≤ now) := by
  constructor
  · intro h
    refine ⟨fun earlier hearlier => h earlier (List.mem_append_left _ hearlier), ?_⟩
    rintro rfl
    exact h instant (List.mem_append_right _ (List.mem_singleton_self _))
  · rintro ⟨hquiet, hinstant⟩ earlier hearlier
    rcases List.mem_append.mp hearlier with hearlier | hearlier
    · exact hquiet earlier hearlier
    · obtain ⟨rfl, rfl⟩ := Prod.mk.inj (List.mem_singleton.mp hearlier)
      exact hinstant rfl

theorem Quiet.of_append {heard' : List (ℕ × ℤ)}
    (h : Quiet settings (heard ++ heard') handle now) : Quiet settings heard handle now :=
  fun instant hinstant => h instant (List.mem_append_left _ hinstant)

structure Recorded (settings : LivenessSettings) (s : LivenessRegistry) (heard : List (ℕ × ℤ)) :
    Prop where
  known : ∀ entry ∈ heard, entry.1 < s.objects.length
  deadline : ∀ (handle : ℕ) (peer : LivenessPeer), s.objects[handle]? = some peer →
    ∀ now, peer.deadline ≤ now ↔ Quiet settings heard handle now

namespace Recorded

theorem keeps (h : Recorded settings s heard) (hkeeps : KeepsPeers t.objects s.objects) :
    Recorded settings t heard where
  known entry hentry := (h.known entry hentry).trans_eq hkeeps.length.symm
  deadline handle later hlater now := by
    obtain ⟨peer, hpeer, hpeers⟩ := hkeeps.keeps handle later hlater
    rw [hpeers.deadline]
    exact h.deadline handle peer hpeer now

theorem hear (h : Recorded settings s heard) {f : LivenessPeer → LivenessPeer} {instant : ℤ}
    (hf : ∀ peer, (f peer).deadline = max peer.deadline (instant + settings.peerTimeout))
    (hhandle : handle < s.objects.length) :
    Recorded settings { s with objects := s.objects.modify handle f }
      (heard ++ [(handle, instant)]) where
  known entry hentry := by
    rw [List.length_modify]
    rcases List.mem_append.mp hentry with hentry | hentry
    · exact h.known entry hentry
    · rw [List.mem_singleton.mp hentry]
      exact hhandle
  deadline other later hlater now := by
    rw [List.getElem?_modify] at hlater
    obtain ⟨peer, hpeer, rfl⟩ := Option.map_eq_some_iff.mp hlater
    have hdeadline := h.deadline other peer hpeer now
    rw [quiet_append, ← hdeadline]
    by_cases hself : handle = other
    · rw [if_pos hself, hf, max_le_iff]
      exact and_congr_right fun _ => ⟨fun hle _ => hle, fun hle => hle hself.symm⟩
    · rw [if_neg hself]
      exact ⟨fun hle => ⟨hle, fun hsame => absurd hsame.symm hself⟩, And.left⟩

theorem admitNode (h : Recorded settings s heard) {connectionId : Bytes} {instant : ℤ}
    (hobjects : t.objects = s.objects ++ [LivenessPeer.new settings connectionId instant]) :
    Recorded settings t (heard ++ [(s.objects.length, instant)]) where
  known entry hentry := by
    rw [hobjects, List.length_append, List.length_singleton]
    rcases List.mem_append.mp hentry with hentry | hentry
    · exact (h.known entry hentry).trans (Nat.lt_succ_self _)
    · rw [List.mem_singleton.mp hentry]
      exact Nat.lt_succ_self _
  deadline other later hlater now := by
    rw [hobjects] at hlater
    rw [quiet_append]
    by_cases hlt : other < s.objects.length
    · rw [List.getElem?_append_left hlt] at hlater
      rw [← h.deadline other later hlater now]
      exact ⟨fun hle => ⟨hle, fun hsame => absurd hlt (hsame ▸ lt_irrefl _)⟩, And.left⟩
    · rw [List.getElem?_append_right (not_lt.mp hlt), List.getElem?_singleton] at hlater
      have hself : other = s.objects.length := by
        split at hlater
        · omega
        · cases hlater
      subst hself
      rw [Nat.sub_self, if_pos rfl] at hlater
      obtain rfl := Option.some.inj hlater
      have hquiet : Quiet settings heard s.objects.length now :=
        fun _ hearlier => absurd (h.known _ hearlier) (lt_irrefl _)
      exact ⟨fun hle => ⟨hquiet, fun _ => hle⟩, fun hle => hle.2 rfl⟩

theorem lt_of_connected (hinvariant : LivenessInvariant settings s)
    {nodeRoutingId connectionId : Bytes}
    (h : s.connected nodeRoutingId connectionId = some handle) : handle < s.objects.length :=
  hinvariant.handles (nodeRoutingId, handle)
    (OrderedMap.mem_of_find (Option.filter_eq_some_iff.mp h).1)

theorem step (h : Recorded settings s heard) (hinvariant : LivenessInvariant settings s)
    (hstep : s.step settings action = some t) : Recorded settings t (heard ++ s.hears action) := by
  have hsame : t.objects = s.objects → Recorded settings t (heard ++ []) := by
    intro hobjects
    rw [List.append_nil]
    exact h.keeps (hobjects ▸ .refl _)
  cases action with
  | received handle now =>
    obtain ⟨hhandle, rfl⟩ := guarded_eq_some hstep
    exact h.hear (fun _ => rfl) hhandle
  | admitNode nodeRoutingId connectionId now =>
    obtain ⟨-, rfl⟩ := guarded_eq_some hstep
    rw [LivenessRegistry.hears]
    by_cases hrefused : nodeRoutingId = [] ∨ connectionId = [] ∨
        (s.connected nodeRoutingId connectionId).isSome
    · rw [if_pos hrefused]
      exact hsame (congrArg LivenessRegistry.objects (if_pos hrefused))
    · rw [if_neg hrefused]
      exact h.admitNode (congrArg LivenessRegistry.objects (if_neg hrefused))
  | disconnect nodeRoutingId connectionId =>
    obtain ⟨-, rfl⟩ := guarded_eq_some hstep
    refine hsame ?_
    rw [LivenessRegistry.disconnect]
    split <;> rfl
  | acknowledge nodeRoutingId connectionId probeId now =>
    obtain ⟨-, rfl⟩ := guarded_eq_some hstep
    rw [LivenessRegistry.hears]
    cases hconnected : s.connected nodeRoutingId connectionId with
    | none => exact hsame (by rw [LivenessRegistry.acknowledge, hconnected])
    | some handle =>
      rw [LivenessRegistry.acknowledge, hconnected]
      refine h.hear (fun peer => ?_) (lt_of_connected hinvariant hconnected)
      rw [LivenessPeer.answered]
      split <;> rfl
  | setAdmissionPending pending clock =>
    obtain ⟨-, rfl⟩ := guarded_eq_some hstep
    exact hsame rfl
  | nextActivity =>
    obtain ⟨-, rfl⟩ := guarded_eq_some hstep
    refine hsame ?_
    rw [LivenessRegistry.nextActivity]
    split <;> rfl
  | tick now =>
    obtain ⟨-, rfl⟩ := guarded_eq_some hstep
    refine hsame ?_
    rw [LivenessRegistry.tick]
    split <;> rfl
  | visit =>
    change Recorded settings t (heard ++ [])
    rw [List.append_nil]
    exact h.keeps (keepsPeers_visit hstep)

end Recorded

end Zlink.Mesh
