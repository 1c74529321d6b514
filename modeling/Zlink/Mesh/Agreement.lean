import Zlink.ClientServer.Agreement
import Zlink.Mesh.Channels

/-!
# Channel schedules agree with plain selection

Whatever the turns of the registry and the selections are, and whenever the precomputations give
up, the peers that are selected and the credits behind a change are those of the plain topology,
until it throws for a credit that is exhausted. That takes more events than a credit has room
for.
-/

namespace Zlink.Mesh

open SmoothWeighted ClientServer

variable {peers : Peers} {channelName : String} {s : SelectionState} {x : ChannelSchedule}
  {credits : Bytes → ℤ} {node : Bytes} {patience : ℕ}

def items (peers : Peers) (channelName : String) : List (Bytes × Share Bytes) :=
  (members peers channelName).map toItem

theorem keys_items (peers : Peers) (channelName : String) :
    (items peers channelName).map Prod.fst = (members peers channelName).map Prod.fst := by
  rw [items, List.map_map]
  rfl

theorem exists_peer_of_mem_members {member : Bytes × ℕ} (h : member ∈ members peers channelName) :
    ∃ peer, peers.find member.1 = some peer ∧ memberWeight channelName peer = some member.2 := by
  obtain ⟨e, he, hmember⟩ := List.mem_filterMap.mp h
  obtain ⟨weight, hweight, rfl⟩ := Option.map_eq_some_iff.mp hmember
  exact ⟨e.2, OrderedMap.find_eq_some_iff.mpr he, hweight⟩

theorem members_nodup (peers : Peers) (channelName : String) :
    ((members peers channelName).map Prod.fst).Nodup := by
  have hsub : ((members peers channelName).map Prod.fst).Sublist (peers.entries.map Prod.fst) := by
    unfold members
    induction peers.entries with
    | nil => exact .slnil
    | cons e es ih =>
      rw [List.filterMap_cons]
      cases memberWeight channelName e.2 with
      | none => exact ih.cons e.1
      | some weight => exact ih.cons_cons e.1
  exact peers.keys_nodup.sublist hsub

theorem members_eq_nil (h : channelName ∉ channelNames peers) : members peers channelName = [] := by
  rw [List.eq_nil_iff_forall_not_mem]
  intro member hmember
  obtain ⟨peer, hpeer, hweight⟩ := exists_peer_of_mem_members hmember
  unfold memberWeight at hweight
  cases hchannel : findServiceChannel peer.descriptor channelName with
  | none =>
    rw [hchannel] at hweight
    cases hweight
  | some channel =>
    obtain ⟨hfind, hname⟩ := Option.filter_eq_some_iff.mp hchannel
    refine h (List.mem_flatMap.mpr ⟨_, OrderedMap.mem_of_find hpeer, ?_⟩)
    rw [← of_decide_eq_true hname]
    exact List.mem_map_of_mem (List.mem_of_find?_eq_some hfind)

theorem filter_present (peers : Peers) (channelName : String) :
    ((members peers channelName).filter fun member => (peers.find member.1).isSome) =
      members peers channelName := by
  rw [List.filter_eq_self]
  intro member hmember
  obtain ⟨peer, hpeer, -⟩ := exists_peer_of_mem_members hmember
  rw [hpeer]
  rfl

structure Current (peers : Peers) (channelName : String) (s : SelectionState) : Prop where
  weights : s.weights = members peers channelName
  totalWeight : s.totalWeight = membersTotal (members peers channelName)
  orderedNodeIds : s.orderedNodeIds = (members peers channelName).map fun member =>
    (member.1, (peers.find member.1).bind AdmittedPeer.liveness)
  orderedWeights : s.orderedWeights = (members peers channelName).map Prod.snd

theorem Current.shares (h : Current peers channelName s) :
    s.shares = (items peers channelName).map Prod.snd := by
  rw [SelectionState.shares, h.orderedNodeIds, h.orderedWeights, items, List.map_map]
  induction members peers channelName with
  | nil => rfl
  | cons member members ih =>
    rw [List.map_cons, List.map_cons, List.zipWith_cons_cons, ih]
    rfl

theorem Current.ids (h : Current peers channelName s) :
    s.orderedNodeIds.map Prod.fst = (items peers channelName).map Prod.fst := by
  rw [h.orderedNodeIds, keys_items, List.map_map]
  rfl

structure Replays (shares : List (Share Bytes)) (total : ℕ) (x : ChannelSchedule)
    (credits : List ℤ) : Prop where
  cycle : Cycle shares total x.initialCumulative x.schedule x.cycleStart
  length : x.initialCumulative.length = shares.length
  cursor_lt : x.cursor < x.schedule.length
  now : credits = after shares total x.initialCumulative (x.schedule.take x.cursor)
  range : (total : ℤ) ≤ maxInt64

structure Stands (peers : Peers) (channelName : String) (s : SelectionState)
    (credits : Bytes → ℤ) : Prop where
  current : Current peers channelName s
  outside : ∀ node ∉ (items peers channelName).map Prod.fst, s.cumulative node = credits node
  plain : s.precomputed = none → s.cumulative = credits
  replays : ∀ x, s.precomputed = some x →
    Replays ((items peers channelName).map Prod.snd) s.totalWeight x
      (creditsOf credits (items peers channelName))

theorem Stands.materialize (h : Stands peers channelName s credits) :
    s.materialize.cumulative = credits := by
  unfold SelectionState.materialize
  cases hx : s.precomputed with
  | none => exact h.plain hx
  | some x =>
    have hreplays := h.replays x hx
    have hids : s.orderedNodeIds.length = (items peers channelName).length := by
      rw [h.current.orderedNodeIds, items, List.length_map, List.length_map]
    have hvalues : (List.range s.orderedNodeIds.length).map (s.current x) =
        creditsOf credits (items peers channelName) := by
      apply List.ext_getElem?
      intro i
      by_cases hi : i < s.orderedNodeIds.length
      · have hishares : i < ((items peers channelName).map Prod.snd).length := by
          rw [List.length_map]
          exact hi.trans_eq hids
        have hs := List.getElem?_eq_getElem hishares
        have hc := List.getElem?_eq_getElem (hishares.trans_eq hreplays.length.symm)
        have hweight : s.orderedWeights.getD i 0 =
            ((items peers channelName).map Prod.snd)[i].weight := by
          have hmap : s.orderedWeights =
              ((items peers channelName).map Prod.snd).map Share.weight := by
            rw [h.current.orderedWeights, items, List.map_map, List.map_map]
            rfl
          rw [hmap, List.getD_eq_getElem?_getD, List.getElem?_map, hs]
          rfl
        have hcursor : (x.schedule.take x.cursor).length = x.cursor := by
          rw [List.length_take, min_eq_left hreplays.cursor_lt.le]
        rw [hreplays.now, getElem?_after _ hs hc, hcursor, List.getElem?_map,
          List.getElem?_range hi, Option.map_some, SelectionState.current, hweight,
          List.getD_eq_getElem?_getD, hc]
        rfl
      · rw [List.getElem?_eq_none (by rw [List.length_map, List.length_range]; omega),
          List.getElem?_eq_none (by rw [creditsOf, List.length_map]; omega)]
    have hnodup : ((items peers channelName).map Prod.fst).Nodup := by
      rw [keys_items]
      exact members_nodup peers channelName
    have hassign := creditsOf_assign s.cumulative hnodup
      (List.length_map fun item => credits item.1)
    dsimp only
    rw [hvalues, h.current.ids]
    funext node
    by_cases hnode : node ∈ (items peers channelName).map Prod.fst
    · obtain ⟨item, hitem, rfl⟩ := List.mem_map.mp hnode
      exact List.map_inj_left.mp hassign item hitem
    · rw [assign_of_not_mem hnode]
      exact h.outside node hnode

theorem stands_rebuildSchedule (hcurrent : Current peers channelName s)
    (hcredits : s.cumulative = credits) :
    Stands peers channelName (s.rebuildSchedule patience) credits ∧
      (s.rebuildSchedule patience).cumulative = credits := by
  obtain ⟨hweights, htotal, hids, hordered⟩ := hcurrent
  unfold SelectionState.rebuildSchedule
  split_ifs with hidle
  · exact ⟨⟨⟨hweights, htotal, hids, hordered⟩, fun _ _ => congrFun hcredits _, fun _ => hcredits,
      by simp⟩, hcredits⟩
  · refine ⟨⟨⟨hweights, htotal, hids, hordered⟩, fun _ _ => congrFun hcredits _,
      fun _ => hcredits, ?_⟩, hcredits⟩
    intro x hx
    obtain ⟨⟨schedule, cycleStart⟩, hbuilt, rfl⟩ := Option.map_eq_some_iff.mp hx
    have hcycle := cycle_of_precompute hbuilt
    rw [Current.shares ⟨hweights, htotal, hids, hordered⟩] at hcycle
    have hinitial : creditsOf credits (items peers channelName) =
        s.orderedNodeIds.map fun id => s.cumulative id.1 := by
      rw [creditsOf, items, hids, hcredits, List.map_map, List.map_map]
      rfl
    rw [not_or, not_or, not_lt] at hidle
    refine ⟨hcycle, ?_, (Nat.zero_le _).trans_lt hcycle.start_lt, hinitial, hidle.2.2⟩
    rw [← hinitial, creditsOf, List.length_map, List.length_map]

theorem Stands.rebuild {peers' : Peers} (hold : s.materialize.cumulative = credits) :
    Stands peers' channelName (s.rebuild peers' channelName patience)
        (fun node => if node ∈ (members peers' channelName).map Prod.fst then credits node else 0) ∧
      (s.rebuild peers' channelName patience).cumulative =
        fun node => if node ∈ (members peers' channelName).map Prod.fst then credits node else 0 := by
  unfold SelectionState.rebuild
  dsimp only
  rw [hold]
  exact stands_rebuildSchedule ⟨rfl, rfl, rfl, rfl⟩ rfl

theorem selectPlain_members (peers : Peers) (channelName : String) (total : ℕ)
    (credits : Bytes → ℤ) :
    selectPlain peers channelName (members peers channelName) total credits =
      ((turn maxInt64 (toInt64 total) credits (items peers channelName)).1,
        toSelection peers channelName
          (turn maxInt64 (toInt64 total) credits (items peers channelName)).2) := by
  rw [selectPlain, filter_present]
  rfl

theorem Stands.select (h : Stands peers channelName s credits)
    (hroom : (selectPlain peers channelName (members peers channelName)
      (membersTotal (members peers channelName)) credits).2 ≠ .exhausted) :
    (s.select peers channelName).2 = (selectPlain peers channelName (members peers channelName)
          (membersTotal (members peers channelName)) credits).2 ∧
      Stands peers channelName (s.select peers channelName).1
        (selectPlain peers channelName (members peers channelName)
          (membersTotal (members peers channelName)) credits).1 := by
  unfold SelectionState.select
  cases hx : s.precomputed with
  | none =>
    dsimp only
    rw [h.current.weights, h.current.totalWeight, h.plain hx]
    exact ⟨rfl, ⟨rfl, rfl, h.current.orderedNodeIds, h.current.orderedWeights⟩, fun _ _ => rfl,
      fun _ => rfl, nofun⟩
  | some x =>
    have hreplays := h.replays x hx
    have hnodup : ((items peers channelName).map Prod.fst).Nodup := by
      rw [keys_items]
      exact members_nodup peers channelName
    have htotal : toInt64 (membersTotal (members peers channelName)) = (s.totalWeight : ℤ) := by
      rw [← h.current.totalWeight, toInt64, if_neg (not_lt.mpr hreplays.range)]
    rw [selectPlain_members, htotal] at hroom ⊢
    have hlimit : ∀ item ∈ items peers channelName, credits item.1 + item.2.weight ≤ maxInt64 := by
      refine le_of_not_exhausted none hnodup fun hnone => hroom ?_
      dsimp only
      rw [exhausted_iff.mpr hnone]
      rfl
    obtain ⟨i, hi⟩ : ∃ i, x.schedule[x.cursor]? = some i :=
      ⟨_, List.getElem?_eq_getElem hreplays.cursor_lt⟩
    have hselects := (hreplays.cycle.replay hi).1
    have hadvance := (hreplays.cycle.replay hi).2
    rw [← hreplays.now] at hselects hadvance
    have hne : items peers channelName ≠ [] := by
      intro hnil
      rw [hnil] at hselects
      cases hselects
    obtain ⟨k, node, hk, hnode, hselected, hcredits, hothers⟩ :=
      turn_spec s.totalWeight hnodup hlimit hne
    obtain rfl : i = k := Option.some.inj (hselects.symm.trans hk)
    have htarget : s.orderedNodeIds[i]? =
        some (node, (peers.find node).bind AdmittedPeer.liveness) := by
      rw [keys_items, List.getElem?_map] at hnode
      obtain ⟨member, hmember, rfl⟩ := Option.map_eq_some_iff.mp hnode
      rw [h.current.orderedNodeIds, List.getElem?_map, hmember]
      rfl
    dsimp only
    unfold SelectionState.replay
    rw [hi]
    dsimp only
    rw [htarget, hselected]
    dsimp only
    refine ⟨rfl, ⟨h.current.weights, h.current.totalWeight, h.current.orderedNodeIds,
      h.current.orderedWeights⟩, fun other hother => ?_, nofun, fun x' hx' => ?_⟩
    · rw [hothers other hother]
      exact h.outside other hother
    · obtain rfl := Option.some.inj hx'
      rw [hcredits]
      exact ⟨hreplays.cycle, hreplays.length, hreplays.cycle.next_lt hreplays.cursor_lt,
        hadvance.symm, hreplays.range⟩

def ChannelAgrees (peers : Peers) (channelName : String) (credits : Bytes → ℤ) :
    Option SelectionState → Prop
  | none => channelName ∉ channelNames peers ∧ credits = fun _ => 0
  | some s => channelName ∈ channelNames peers ∧ Stands peers channelName s credits

structure Agrees (s : Topology) (p : PlainTopology) : Prop where
  registry : p.registry = s.registry
  channels : ∀ channelName, ChannelAgrees s.registry.peers channelName (p.credits channelName)
    (s.selections channelName)

variable {t : Topology} {p : PlainTopology}

theorem peers_of_not_rebuilds {r : Registry} {e : Registry.Event} (h : r.rebuilds e = false) :
    (r.step e).peers = r.peers := by
  cases e with
  | publishLocal descriptor =>
    rw [Registry.step]
    cases hpublish : r.publishLocal descriptor with
    | error text => rfl
    | ok next => exact (Registry.publishLocal_ok hpublish).peers
  | publishDraining =>
    rw [Registry.step]
    cases hpublish : r.publishDraining with
    | error text => rfl
    | ok next =>
      unfold Registry.publishDraining at hpublish
      dsimp only at hpublish
      split_ifs at hpublish
      · obtain rfl := Except.ok.inj hpublish
        rfl
      · exact (Registry.publishLocal_ok hpublish).peers
  | admitOnLane descriptor connectionId expected command handle =>
    have hcases : Registry.Admits r descriptor connectionId expected command
        (r.admitOnLane descriptor connectionId expected command handle) := Registry.admit_cases
    rw [Registry.rebuilds] at h
    rw [Registry.step]
    generalize r.admitOnLane descriptor connectionId expected command handle = turn at hcases h
    cases hcases with
    | unchanged => rfl
    | notRequired | admitted => cases h
  | disconnect node connectionId =>
    rw [Registry.rebuilds, Registry.disconnect] at h
    rw [Registry.step, Registry.disconnect]
    split
    · rename_i peer hfind
      rw [hfind] at h
      dsimp only at h
      split_ifs at h ⊢
      rfl
    · rfl

theorem Agrees.rebuild (h : Agrees t p) (registry : Registry) (patience : String → ℕ) :
    Topology.credits (Topology.rebuildChannelSelections registry.peers t.selections patience) =
        PlainTopology.keep registry.peers p.credits ∧
      Agrees ⟨registry, Topology.rebuildChannelSelections registry.peers t.selections patience⟩
        ⟨registry, PlainTopology.keep registry.peers p.credits⟩ := by
  have hold (channelName : String) : ((t.selections channelName).getD .new).materialize.cumulative =
      p.credits channelName := by
    have hchannel := h.channels channelName
    cases hselection : t.selections channelName with
    | none =>
      rw [hselection] at hchannel
      exact hchannel.2.symm
    | some s =>
      rw [hselection] at hchannel
      exact hchannel.2.materialize
  constructor
  · funext channelName node
    unfold Topology.credits Topology.rebuildChannelSelections
    by_cases hname : channelName ∈ channelNames registry.peers
    · rw [if_pos hname]
      exact congrFun (Stands.rebuild (hold channelName)).2 node
    · rw [if_neg hname, PlainTopology.keep, members_eq_nil hname]
      rfl
  · refine ⟨rfl, fun channelName => ?_⟩
    dsimp only
    unfold Topology.rebuildChannelSelections
    by_cases hname : channelName ∈ channelNames registry.peers
    · rw [if_pos hname]
      exact ⟨hname, (Stands.rebuild (hold channelName)).1⟩
    · rw [if_neg hname]
      refine ⟨hname, ?_⟩
      funext node
      rw [PlainTopology.keep, members_eq_nil hname]
      rfl

theorem Agrees.select (h : Agrees t p) (channelName : String)
    (hroom : (p.select channelName).2 ≠ .exhausted) :
    (t.select channelName).2 = (p.select channelName).2 ∧
      Agrees (t.select channelName).1 (p.select channelName).1 := by
  unfold PlainTopology.select at hroom ⊢
  unfold Topology.select
  rw [h.registry] at hroom ⊢
  have hchannel := h.channels channelName
  by_cases hempty : channelName = ""
  · rw [if_pos hempty, if_pos (.inl hempty)]
    exact ⟨rfl, h⟩
  · rw [if_neg hempty]
    cases hselection : t.selections channelName with
    | none =>
      rw [hselection] at hchannel
      rw [if_pos (.inr hchannel.1)]
      exact ⟨rfl, h⟩
    | some s =>
      rw [hselection] at hchannel
      obtain ⟨hname, hstands⟩ := hchannel
      rw [if_neg (not_or.mpr ⟨hempty, not_not.mpr hname⟩)] at hroom ⊢
      obtain ⟨hsame, hnext⟩ := hstands.select hroom
      refine ⟨hsame, ⟨rfl, fun other => ?_⟩⟩
      dsimp only
      by_cases hother : other = channelName
      · rw [hother, Function.update_self, Function.update_self]
        exact ⟨hname, hnext⟩
      · rw [Function.update_of_ne hother, Function.update_of_ne hother]
        exact h.channels other

def Roomy (shown : List Shown) : Prop :=
  .selection .exhausted ∉ shown

theorem Agrees.shown (h : Agrees t p) (es : List Event) (hroom : Roomy (p.shown es)) :
    t.shown es = p.shown es := by
  induction es generalizing t p with
  | nil => rfl
  | cons e es ih =>
    unfold Topology.shown PlainTopology.shown
    unfold Roomy PlainTopology.shown at hroom
    cases e with
    | turn e patience =>
      unfold Topology.step PlainTopology.step
      unfold PlainTopology.step at hroom
      dsimp only at hroom ⊢
      rw [h.registry] at hroom ⊢
      split_ifs at hroom ⊢ with hrebuilds hexhausted
      · rfl
      · obtain ⟨hcredits, hagrees⟩ := h.rebuild (t.registry.step e) patience
        dsimp only at hroom ⊢
        rw [List.mem_cons, not_or] at hroom
        rw [hcredits]
        exact congrArg _ (ih hagrees hroom.2)
      · have hpeers := peers_of_not_rebuilds (Bool.not_eq_true _ ▸ hrebuilds)
        dsimp only at hroom ⊢
        rw [List.mem_cons, not_or] at hroom
        refine congrArg _ (ih ⟨rfl, fun channelName => ?_⟩ hroom.2)
        dsimp only
        rw [hpeers]
        exact h.channels channelName
    | select channelName =>
      unfold Topology.step PlainTopology.step
      unfold PlainTopology.step at hroom
      dsimp only at hroom ⊢
      rw [List.mem_cons, not_or] at hroom
      obtain ⟨hsame, hagrees⟩ := h.select channelName fun hexhausted =>
        hroom.1 (congrArg Shown.selection hexhausted.symm)
      rw [hsame]
      exact congrArg _ (ih hagrees hroom.2)

theorem weight_of_validChannels {previous : Option String} {channels : List ChannelDescriptor}
    (h : validChannels previous channels = true) :
    ∀ channel ∈ channels, 0 ≤ channel.weight ∧ channel.weight ≤ 10000 := by
  induction channels generalizing previous with
  | nil => nofun
  | cons channel channels ih =>
    rw [validChannels] at h
    split_ifs at h with hname hweight hprevious
    rw [not_or, not_lt, not_lt] at hweight
    exact List.forall_mem_cons.mpr ⟨hweight, ih h⟩

theorem channels_of_validDescriptor {d : NodeDescriptor} (h : validDescriptor d = true) :
    validChannels none d.channels = true := by
  unfold validDescriptor at h
  simp only [Bool.and_eq_true] at h
  exact h.1.1.1.1.1.1.1.1.1.1.1.1.2

theorem weight_le_of_mem_members {r : Registry} (h : Registry.Tracks r) {member : Bytes × ℕ}
    (hmember : member ∈ members r.peers channelName) : member.2 ≤ 10000 := by
  obtain ⟨peer, hpeer, hweight⟩ := exists_peer_of_mem_members hmember
  unfold memberWeight at hweight
  cases hchannel : findServiceChannel peer.descriptor channelName with
  | none =>
    rw [hchannel] at hweight
    cases hweight
  | some channel =>
    rw [hchannel] at hweight
    dsimp only at hweight
    split_ifs at hweight
    have hmem := List.mem_of_find?_eq_some (Option.filter_eq_some_iff.mp hchannel).1
    have hvalid := channels_of_validDescriptor (h.peer _ peer hpeer).2.2
    obtain ⟨hpos, hle⟩ := weight_of_validChannels hvalid channel hmem
    rw [← Option.some.inj hweight]
    omega

theorem length_peers_step (r : Registry) (e : Registry.Event) :
    (r.step e).peers.entries.length ≤ r.peers.entries.length + 1 := by
  have hcases := Registry.step_cases r e
  generalize r.step e = next at hcases ⊢
  cases hcases with
  | unchanged => exact Nat.le_succ _
  | published _ _ d h =>
    rw [h.peers]
    exact Nat.le_succ _
  | notRequired | disconnected => exact (List.length_filter_le _ _).trans (Nat.le_succ _)
  | admitted => exact OrderedMap.length_place_le _ _ _

structure Bounded (p : PlainTopology) (events : ℕ) : Prop where
  tracks : Registry.Tracks p.registry
  peers : p.registry.peers.entries.length ≤ events
  credits : ∀ channelName node, p.credits channelName node ≤ 10000 * events

theorem Bounded.total_le {events : ℕ} (h : Bounded p events) (channelName : String) :
    membersTotal (members p.registry.peers channelName) ≤ 10000 * events := by
  have hle : membersTotal (members p.registry.peers channelName) ≤
      (members p.registry.peers channelName).length * 10000 := by
    have hsum := List.sum_le_card_nsmul ((members p.registry.peers channelName).map Prod.snd) 10000
      (List.forall_mem_map.mpr fun member hmember => weight_le_of_mem_members h.tracks hmember)
    rwa [List.length_map, nsmul_eq_mul, Nat.cast_id] at hsum
  have hlength : (members p.registry.peers channelName).length ≤ events :=
    (List.length_filterMap_le _ _).trans h.peers
  calc membersTotal (members p.registry.peers channelName) ≤
        (members p.registry.peers channelName).length * 10000 := hle
    _ ≤ events * 10000 := Nat.mul_le_mul_right _ hlength
    _ = 10000 * events := Nat.mul_comm _ _

theorem turn_le {total : ℤ} {bound : ℤ} {items : List (Bytes × Share Bytes)}
    (hnodup : (items.map Prod.fst).Nodup) (htotal : 0 ≤ total)
    (hweights : ∀ item ∈ items, item.2.weight ≤ 10000) (hcredits : ∀ node, credits node ≤ bound)
    (hbound : bound + 10000 ≤ maxInt64) : (turn maxInt64 total credits items).2 ≠ .exhausted ∧
      ∀ node, (turn maxInt64 total credits items).1 node ≤ bound + 10000 := by
  by_cases hne : items = []
  · subst hne
    exact ⟨nofun, fun node => (hcredits node).trans (by omega)⟩
  · have hlimit : ∀ item ∈ items, credits item.1 + item.2.weight ≤ maxInt64 := by
      intro item hitem
      have hweight := hweights item hitem
      have hcredit := hcredits item.1
      omega
    obtain ⟨k, key, -, -, hselected, hafter, hothers⟩ :=
      turn_spec total hnodup hlimit hne
    rw [hselected]
    refine ⟨nofun, fun node => ?_⟩
    by_cases hnode : node ∈ items.map Prod.fst
    · obtain ⟨item, hitem, rfl⟩ := List.mem_map.mp hnode
      obtain ⟨j, hj⟩ := List.mem_iff_getElem?.mp hitem
      have hs : (items.map Prod.snd)[j]? = some item.2 := by
        rw [List.getElem?_map, hj]
        rfl
      have hc : (creditsOf credits items)[j]? = some (credits item.1) := by
        rw [creditsOf, List.getElem?_map, hj]
        rfl
      have hat := getElem?_applySelection total hs hc k
      rw [← hafter, creditsOf, List.getElem?_map, hj, Option.map_some] at hat
      have hvalue := Option.some.inj hat
      have hweight := hweights item hitem
      have hcredit := hcredits item.1
      split_ifs at hvalue <;> omega
    · rw [hothers node hnode]
      exact (hcredits node).trans (by omega)

theorem Bounded.select {events : ℕ} (h : Bounded p events)
    (hroom : (10000 * (events + 1) : ℤ) ≤ maxInt64) (channelName : String) :
    (p.select channelName).2 ≠ .exhausted ∧ Bounded (p.select channelName).1 (events + 1) := by
  have hmore : Bounded p (events + 1) :=
    ⟨h.tracks, h.peers.trans (Nat.le_succ _), fun channelName node => by
      have hle := h.credits channelName node
      push_cast
      omega⟩
  unfold PlainTopology.select
  dsimp only
  split
  · exact ⟨nofun, hmore⟩
  · rw [selectPlain_members]
    have hnodup : ((items p.registry.peers channelName).map Prod.fst).Nodup := by
      rw [keys_items]
      exact members_nodup _ _
    have htotal := h.total_le channelName
    have hpos : 0 ≤ toInt64 (membersTotal (members p.registry.peers channelName)) := by
      rw [toInt64, if_neg (by omega)]
      exact Int.natCast_nonneg _
    have hweights : ∀ item ∈ items p.registry.peers channelName, item.2.weight ≤ 10000 :=
      List.forall_mem_map.mpr fun member hmember => weight_le_of_mem_members h.tracks hmember
    obtain ⟨hselected, hcredits⟩ := turn_le hnodup hpos hweights (h.credits channelName) (by omega)
    dsimp only
    refine ⟨?_, h.tracks, h.peers.trans (Nat.le_succ _), fun other node => ?_⟩
    · unfold toSelection
      split
      · exact nofun
      · exact absurd ‹_› hselected
      · split <;> exact nofun
    · dsimp only
      by_cases hother : other = channelName
      · rw [hother, Function.update_self]
        have hle := hcredits node
        push_cast
        omega
      · rw [Function.update_of_ne hother]
        exact hmore.credits other node

theorem Bounded.roomy {events : ℕ} (h : Bounded p events) (es : List Event)
    (hroom : (10000 * (events + es.length) : ℤ) ≤ maxInt64) : Roomy (p.shown es) := by
  induction es generalizing p events with
  | nil => exact List.not_mem_nil
  | cons e es ih =>
    rw [List.length_cons] at hroom
    push_cast at hroom
    unfold Roomy PlainTopology.shown
    cases e with
    | turn e patience =>
      have hnext (credits : String → Bytes → ℤ)
          (hcredits : ∀ channelName node, credits channelName node ≤
            p.credits channelName node ∨ credits channelName node = 0) :
          Bounded ⟨p.registry.step e, credits⟩ (events + 1) := by
        refine ⟨h.tracks.steps (Registry.step_cases _ e), ?_, fun channelName node => ?_⟩
        · exact (length_peers_step _ e).trans (Nat.succ_le_succ h.peers)
        · have hold := h.credits channelName node
          rcases hcredits channelName node with hle | hzero
          all_goals
            push_cast
            omega
      unfold PlainTopology.step
      dsimp only
      split_ifs
      · simp
      · rw [List.mem_cons, not_or]
        refine ⟨nofun, ih (hnext _ fun channelName node => ?_) (by push_cast; omega)⟩
        unfold PlainTopology.keep
        split
        · exact .inl le_rfl
        · exact .inr rfl
      · rw [List.mem_cons, not_or]
        exact ⟨nofun, ih (hnext _ fun _ _ => .inl le_rfl) (by push_cast; omega)⟩
    | select channelName =>
      obtain ⟨hselected, hbounded⟩ := h.select (by omega) channelName
      unfold PlainTopology.step
      dsimp only
      rw [List.mem_cons, not_or]
      refine ⟨fun heq => hselected (Shown.selection.inj heq).symm, ih hbounded ?_⟩
      push_cast
      omega

def Topology.new (r : Registry) : Topology :=
  ⟨r, fun _ => none⟩

def PlainTopology.new (r : Registry) : PlainTopology :=
  ⟨r, fun _ _ => 0⟩

theorem peers_of_create {localDescriptor : NodeDescriptor} {r : Registry}
    (h : Registry.create localDescriptor = .ok r) : r.peers = .empty := by
  unfold Registry.create at h
  split_ifs at h
  exact (Except.ok.inj h) ▸ rfl

/-- Whenever the precomputations give up, the selector of the client and the selections of the
channels show what the plain ones show. A topology does so until the plain one throws for an
exhausted credit, which no run does whose events times the largest weight fit an `int64_t`. -/
theorem schedules_agree {localDescriptor : NodeDescriptor} {r : Registry}
    (hcreate : Registry.create localDescriptor = .ok r) :
    (∀ calls, Selector.new.shown calls = PlainSelector.new.shown calls) ∧
      (∀ es, Roomy ((PlainTopology.new r).shown es) →
        (Topology.new r).shown es = (PlainTopology.new r).shown es) ∧
      ∀ es : List Event, (10000 * es.length : ℤ) ≤ maxInt64 →
        Roomy ((PlainTopology.new r).shown es) := by
  have hpeers := peers_of_create hcreate
  refine ⟨agrees_new.shown, fun es hroom => Agrees.shown ⟨rfl, fun channelName => ?_⟩ es hroom,
    fun es hlength => ?_⟩
  · refine ⟨?_, rfl⟩
    change channelName ∉ channelNames r.peers
    rw [hpeers]
    exact List.not_mem_nil
  · have hbounded : Bounded (PlainTopology.new r) 0 := by
      refine ⟨Registry.tracks_create hcreate, ?_, fun _ _ => le_rfl⟩
      change r.peers.entries.length ≤ 0
      rw [hpeers]
      exact le_rfl
    exact hbounded.roomy es (by push_cast; omega)

def joinAndLeave : List Event :=
  [.turn (.admitOnLane (Registry.someNode 1 1 1) [7] none .admission none) fun _ => 9,
    .turn (.admitOnLane { Registry.someNode 2 1 1 with channels := [⟨"c", 2⟩] } [8] none .admission
      none) fun _ => 9,
    .select "c", .select "c", .turn (.disconnect [1] [7]) fun _ => 9, .select "c"]

/-- Two peers of unequal weights join and are selected, and one of them leaves between the
selections. -/
theorem schedules_agree_join :
    (Topology.new ⟨Registry.someNode 0 1 1, .empty, .empty, 0⟩).shown joinAndLeave =
      (PlainTopology.new ⟨Registry.someNode 0 1 1, .empty, .empty, 0⟩).shown joinAndLeave :=
  (@schedules_agree (Registry.someNode 0 1 1) _ rfl).2.1 _
    ((@schedules_agree (Registry.someNode 0 1 1) _ rfl).2.2 _ (by decide))

end Zlink.Mesh
