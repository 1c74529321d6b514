import Zlink.Session.Waiting

/-!
# Held relays

`Traffic` says what a turn does to the relays that bindings hold and to the numbers that they
give out. Every relay that was held is still held by one binding, or it was delivered or settled
once.
-/

namespace Zlink.Session

open Keyed Registry

def Becomes (s t : Registry) (a b : Aggregate) : Prop :=
  ∃ rest, s.bindings.Perm (a :: rest) ∧ t.bindings.Perm (b :: rest)

def Aggregate.dispatch (aggregate : Aggregate) : Dispatch where
  binding := aggregate.binding
  inboundSequence := aggregate.nextInboundSequence
  drain := aggregate.ingressDrain

inductive Traffic (s : Registry) (e : Event) (t : Registry) : List Output → Prop
  | kept (hbindings : t.bindings = s.bindings) (hrelay : t.nextRelay = s.nextRelay) :
      Traffic s e t []
  | edited (a b : Aggregate) (h : Becomes s t a b)
      (hnumber : b.nextInboundSequence = a.nextInboundSequence)
      (hheld : b.heldRelays = a.heldRelays) (hplace : b.place = a.place)
      (hrelay : t.nextRelay = s.nextRelay) : Traffic s e t []
  | removed (gone : List Aggregate) (h : s.bindings.Perm (t.bindings ++ gone))
      (hrelay : t.nextRelay = s.nextRelay) : Traffic s e t (settle (heldBy gone))
  | admitted (a : Aggregate) (hbarrier : a.barrierToken = none)
      (h : Becomes s t a { a with nextInboundSequence := a.nextInboundSequence + 1 })
      (hrelay : t.nextRelay = s.nextRelay) : Traffic s e t [.admitted a.dispatch]
  | held (a : Aggregate) (h : Becomes s t a { a with
        heldRelays := a.heldRelays ++ [{ dispatch := a.dispatch, relay := s.nextRelay }]
        nextInboundSequence := a.nextInboundSequence + 1 })
      (hrelay : t.nextRelay = s.nextRelay + 1) : Traffic s e t [.held a.dispatch s.nextRelay]
  | delivered (a : Aggregate) (next : Held) (rest : List Held)
      (hheld : a.heldRelays = next :: rest) (h : Becomes s t a { a with heldRelays := rest })
      (hrelay : t.nextRelay = s.nextRelay) :
      Traffic s e t [.delivered { next.dispatch with binding := a.binding } next.relay]
  | failed (a : Aggregate) (h : Becomes s t a { a with heldRelays := [], barrierToken := none })
      (hrelay : t.nextRelay = s.nextRelay) : Traffic s e t (settle a.heldRelays)
  | dropped (h : t.bindings = s.bindings.map fun a => { a with heldRelays := [] })
      (hrelay : t.nextRelay = s.nextRelay) : Traffic s e t (settle (heldBy s.bindings))
  | installed (binding : Binding) (own : Bool) (new : Aggregate) (rest gone : List Aggregate)
      (ht : t.bindings = new :: rest) (hs : s.bindings.Perm (rest ++ gone))
      (hnew : new.nextInboundSequence = 1 ∧ new.heldRelays = [] ∧ new.binding = binding)
      (hbounded : binding.bindingGeneration ≠ uint64Max)
      (hown : own = true → binding.bindingGeneration = s.nextBindingGeneration)
      (hgiven : own = false → s.adopts e = some (binding.locator, binding.actor.key))
      (hrest : ∀ a ∈ rest, a.actorId ≠ binding.actor.key)
      (hrelay : t.nextRelay = s.nextRelay) :
      Traffic s e t (.published binding own :: settle (heldBy gone))
  | restored (binding : Binding) (new : Aggregate) (rest gone : List Aggregate)
      (ht : t.bindings = new :: rest) (hs : s.bindings.Perm (rest ++ gone))
      (hnew : new.nextInboundSequence = 1 ∧ new.heldRelays = [] ∧ new.binding = binding)
      (hgiven : s.adopts e = some (binding.locator, binding.actor.key))
      (hrest : ∀ a ∈ rest, a.actorId ≠ binding.actor.key)
      (hgone : ∀ a ∈ gone, a.barrierToken = none)
      (hrelay : t.nextRelay = s.nextRelay) : Traffic s e t [.restored binding]
  | takenBack (binding : Binding) (own : Bool) (h : t.bindings.Perm s.bindings)
      (hrelay : t.nextRelay = s.nextRelay) : Traffic s e t [.published binding own]

variable {s t : Registry} {e : Event} {outputs : List Output}

theorem Becomes.edit (hs : Indexed s) {a b : Aggregate} (ha : a ∈ s.bindings)
    {f : Aggregate → Aggregate}
    (hbindings : t.bindings = Keyed.modify Aggregate.key a.key f s.bindings) (hb : f a = b) :
    Becomes s t a b := by
  refine ⟨erase Aggregate.key a.key s.bindings, perm_erase hs.keys ha, ?_⟩
  rw [hbindings, ← hb]
  exact perm_modify hs.keys ha

theorem Becomes.mem {a b : Aggregate} (h : Becomes s t a b) : a ∈ s.bindings := by
  obtain ⟨rest, hs, -⟩ := h
  exact hs.symm.subset List.mem_cons_self

theorem Becomes.mem_or {a b c : Aggregate} (h : Becomes s t a b) (hc : c ∈ t.bindings) :
    c = b ∨ c ∈ s.bindings := by
  obtain ⟨rest, hs, ht⟩ := h
  rcases List.mem_cons.mp (ht.subset hc) with rfl | hrest
  · exact .inl rfl
  · exact .inr (hs.symm.subset (List.mem_cons_of_mem _ hrest))

theorem filter_perm (keep gone : Aggregate → Bool) (h : ∀ a ∈ s.bindings, gone a = !keep a)
    (hbindings : t.bindings = s.bindings.filter keep) :
    s.bindings.Perm (t.bindings ++ s.bindings.filter gone) := by
  have hgone : s.bindings.filter gone = s.bindings.filter fun a => !keep a :=
    List.filter_congr h
  rw [hbindings, hgone]
  exact (List.filter_append_perm keep s.bindings).symm

theorem removed_connection (connectionId : String)
    (hbindings : t.bindings = s.bindings.filter fun a => a.connectionId ≠ connectionId) :
    s.bindings.Perm (t.bindings ++ s.bindingsOf connectionId) := by
  apply filter_perm _ _ _ hbindings
  intro a _
  rw [decide_not, Bool.not_not]

theorem install_perm (hs : Indexed s) {binding : Binding} {displaced : List Aggregate}
    (hd : Indexed.Displaces s binding displaced) {gone : List Aggregate}
    (hgone : gone.Nodup) (hmem : ∀ a, a ∈ gone ↔ a ∈ s.bindings ∧ a.actorId = binding.actor.key) :
    s.bindings.Perm (s.remaining binding displaced ++ gone) := by
  have hnodup : s.bindings.Nodup := hs.actors.of_map
  have hremaining : (s.remaining binding displaced).Nodup := hnodup.sublist remaining_sublist
  have hdisjoint : List.Disjoint (s.remaining binding displaced) gone := by
    intro a ha hgoes
    exact (hd.mem_remaining.mp ha).2 ((hmem a).mp hgoes).2
  apply (List.perm_ext_iff_of_nodup hnodup (hremaining.append hgone hdisjoint)).mpr
  intro a
  rw [List.mem_append, hd.mem_remaining, hmem]
  constructor
  · intro ha
    by_cases hid : a.actorId = binding.actor.key
    · exact .inr ⟨ha, hid⟩
    · exact .inl ⟨ha, hid⟩
  · rintro (⟨ha, -⟩ | ⟨ha, -⟩)
    · exact ha
    · exact ha

theorem mem_displacedBy (hs : Indexed s) (connection : Connection) (actorId : String)
    (a : Aggregate) :
    a ∈ s.displacedBy connection actorId ↔ a ∈ s.bindings ∧ a.actorId = actorId := by
  rw [hs.displacedBy_eq, Option.mem_toList]
  constructor
  · exact mem_of_find
  · rintro ⟨ha, rfl⟩
    exact find_of_mem hs.actors ha

theorem nodup_displacedBy (hs : Indexed s) (connection : Connection) (actorId : String) :
    (s.displacedBy connection actorId).Nodup := by
  rw [hs.displacedBy_eq]
  cases find Aggregate.actorId actorId s.bindings with
  | none => exact List.nodup_nil
  | some a => exact List.nodup_singleton a

theorem Effect.traffic (hs : Indexed s) (h : Effect s e t outputs) : Traffic s e t outputs := by
  cases h with
  | nothing | completed | ended | startedNothing | started | drainedNothing | sealedAll
  | releasedAll => exact .kept rfl rfl
  | opened connectionId => exact .removed _ (removed_connection connectionId rfl) rfl
  | closed connection => exact .removed _ (removed_connection connection.connectionId rfl) rfl
  | bound h hgiven =>
    cases h with
    | refused => exact .kept rfl rfl
    | installed binding own hbinds hpublication =>
      have ht := hs.advance binding.bindingGeneration
      have hd : Indexed.Displaces (s.advance binding.bindingGeneration) binding
          (s.displacedBy binding.connection binding.actor.key) :=
        .current ht binding.connection rfl
      have hmem := mem_displacedBy hs binding.connection binding.actor.key
      have hperm := install_perm ht hd (nodup_displacedBy hs _ _) hmem
      refine .installed binding own _ _ _ (install_bindings _ _ _) hperm ⟨rfl, rfl, rfl⟩
        hbinds.bounded hbinds.issued ?_ (fun a ha => (hd.mem_remaining.mp ha).2) ?_
      · rintro rfl
        exact hgiven binding hpublication List.mem_cons_self
      · rw [install_eq]
        rfl
    | takenBack binding own hbinds =>
      obtain ⟨ht, huntouched⟩ := hs.takenBack binding
      have hmem := huntouched.mem hs ht
      refine .takenBack binding own ?_ ?_
      · exact (List.perm_ext_iff_of_nodup ht.actors.of_map hs.actors.of_map).mpr hmem
      · rw [Indexed.rollback_eq, install_eq]
        rfl
  | restored binding h =>
    have ht : Indexed (s.adopt binding.bindingGeneration) :=
      hs.of_same { connections := rfl, places := rfl, index := rfl }
    have hd := Indexed.Restores.displaces ht
      { unsealed := h.unsealed, connection := h.connection, locator := h.locator,
        same := h.same }
    let gone := s.bindings.filter fun a => a.actorId = binding.actor.key
    have hmem : ∀ a, a ∈ gone ↔ a ∈ s.bindings ∧ a.actorId = binding.actor.key := by
      intro a
      rw [List.mem_filter, decide_eq_true_eq]
    have hperm := install_perm ht hd (hs.actors.of_map.filter _) hmem
    refine .restored binding _ _ _ (install_bindings _ _ _) hperm ⟨rfl, rfl, rfl⟩
      (adopts_restore h) (fun a ha => (hd.mem_remaining.mp ha).2) ?_ ?_
    · intro a ha
      obtain ⟨hain, hid⟩ := (hmem a).mp ha
      have hlocator := h.locator a.binding.locator (hid ▸ hs.locator_eq hain)
      have hconnection : a.binding.connection = binding.connection :=
        congrArg Locator.connection hlocator
      have hfound := hs.aggregate_eq hain
      rw [hconnection, hid] at hfound
      exact (h.same a hfound).2
    · rw [install_eq]
      rfl
  | unbound binding a ha =>
    have hgone : settle a.heldRelays = settle (heldBy [a]) := by
      rw [heldBy, List.flatMap_cons, List.flatMap_nil, List.append_nil]
    rw [hgone]
    exact .removed [a] ((perm_erase hs.keys ha).trans (List.perm_append_singleton a _).symm) rfl
  | admitted a ha hbarrier => exact .admitted a hbarrier (.edit hs ha rfl rfl) rfl
  | held a token ha => exact .held a (.edit hs ha rfl rfl) rfl
  | sealed actor affected ha =>
    cases affected with
    | none => exact .kept rfl rfl
    | some a => exact .edited a _ (.edit hs (ha a rfl).1 rfl rfl) rfl rfl rfl rfl
  | committed token a next ha hbarrier hout hkey hlocator =>
    exact .edited a _ (.edit hs ha rfl rfl) rfl rfl
      (place_setBinding hs ha hkey hlocator a ha rfl) rfl
  | closedSeal token actor a => exact .removed _ (removed_connection a.connectionId rfl) rfl
  | dropped => exact .dropped rfl rfl
  | startCleared a _ ha | drained a _ _ ha =>
    exact .edited a _ (.edit hs ha rfl rfl) rfl rfl rfl rfl
  | delivered a token next rest hdrain ha hbarrier hheld =>
    exact .delivered a next rest hheld (.edit hs ha rfl rfl) rfl
  | failed a token hdrain ha => exact .failed a (.edit hs ha rfl rfl) rfl
  | forceClosed =>
    exact .removed s.bindings (by rw [forceCloseAll, List.nil_append]) rfl

def Output.heldRelay : Output → Option ℕ
  | .held _ relay => some relay
  | _ => none

def Output.endedRelay : Output → Option ℕ
  | .delivered _ relay => some relay
  | .settled relay => some relay
  | _ => none

def relays (aggregates : List Aggregate) : List ℕ :=
  (heldBy aggregates).map Held.relay

structure Accounted (w : Recorded) : Prop where
  issued : w.log.filterMap Output.heldRelay = List.range w.registry.nextRelay
  accounted : (relays w.registry.bindings ++ w.log.filterMap Output.endedRelay).Perm
    (List.range w.registry.nextRelay)

theorem relays_cons (a : Aggregate) (aggregates : List Aggregate) :
    relays (a :: aggregates) = a.heldRelays.map Held.relay ++ relays aggregates := by
  rw [relays, heldBy, List.flatMap_cons, List.map_append]
  rfl

theorem relays_append (xs ys : List Aggregate) : relays (xs ++ ys) = relays xs ++ relays ys := by
  rw [relays, heldBy, List.flatMap_append, List.map_append]
  rfl

theorem relays_perm {xs ys : List Aggregate} (h : xs.Perm ys) : (relays xs).Perm (relays ys) :=
  (h.flatMap_right _).map _

theorem endedRelay_settle (held : List Held) :
    (settle held).filterMap Output.endedRelay = held.map Held.relay := by
  have hsettled : (Output.endedRelay ∘ fun held : Held => Output.settled held.relay) =
      some ∘ Held.relay := rfl
  rw [settle, List.filterMap_map, hsettled, List.filterMap_eq_map]

theorem heldRelay_settle (held : List Held) : (settle held).filterMap Output.heldRelay = [] := by
  rw [settle, List.filterMap_map, List.filterMap_eq_nil_iff]
  exact fun _ _ => rfl

structure Balances (s t : Registry) (outputs : List Output) : Prop where
  issued : List.range s.nextRelay ++ outputs.filterMap Output.heldRelay = List.range t.nextRelay
  moved : ∀ relay, (relays t.bindings).count relay +
      (outputs.filterMap Output.endedRelay).count relay =
    (relays s.bindings).count relay + (outputs.filterMap Output.heldRelay).count relay

theorem Accounted.step {w v : Recorded} (h : Accounted w)
    (hbalances : Balances w.registry v.registry outputs) (hlog : v.log = w.log ++ outputs) :
    Accounted v where
  issued := by
    rw [hlog, List.filterMap_append, h.issued, hbalances.issued]
  accounted := by
    rw [List.perm_iff_count]
    intro relay
    have hmoved := hbalances.moved relay
    have hold := h.accounted.count_eq relay
    rw [hlog, List.filterMap_append, ← hbalances.issued]
    simp only [List.count_append] at hold ⊢
    omega

theorem Becomes.count_relays {a b : Aggregate} (h : Becomes s t a b) (relay : ℕ) :
    (relays t.bindings).count relay + (a.heldRelays.map Held.relay).count relay =
      (relays s.bindings).count relay + (b.heldRelays.map Held.relay).count relay := by
  obtain ⟨rest, hs, ht⟩ := h
  have hcount := (relays_perm hs).count_eq relay
  have hcount' := (relays_perm ht).count_eq relay
  rw [relays_cons, List.count_append] at hcount hcount'
  omega

theorem count_removed {bindings rest gone : List Aggregate} (h : bindings.Perm (rest ++ gone))
    (relay : ℕ) :
    (relays rest).count relay + ((settle (heldBy gone)).filterMap Output.endedRelay).count relay =
      (relays bindings).count relay := by
  have hcount := (relays_perm h).count_eq relay
  rw [relays_append, List.count_append] at hcount
  rw [endedRelay_settle]
  exact hcount.symm

theorem Balances.silent (hrelay : t.nextRelay = s.nextRelay)
    (hheld : outputs.filterMap Output.heldRelay = [])
    (hmoved : ∀ relay, (relays t.bindings).count relay +
        (outputs.filterMap Output.endedRelay).count relay =
      (relays s.bindings).count relay) : Balances s t outputs where
  issued := by
    rw [hheld, hrelay, List.append_nil]
  moved := by
    intro relay
    rw [hheld, List.count_nil]
    exact hmoved relay

theorem Traffic.balances (hwaits : ∀ a ∈ s.bindings, a.heldRelays ≠ [] → a.barrierToken ≠ none)
    (h : Traffic s e t outputs) : Balances s t outputs := by
  cases h with
  | kept hbindings hrelay =>
    apply Balances.silent hrelay rfl
    intro relay
    rw [hbindings]
    rfl
  | edited a b h hnumber hheld hplace hrelay =>
    apply Balances.silent hrelay rfl
    intro relay
    have hcount := h.count_relays relay
    rw [hheld] at hcount
    exact Nat.add_right_cancel hcount
  | removed gone h hrelay =>
    exact .silent hrelay (heldRelay_settle _) (count_removed h)
  | admitted a hbarrier h hrelay =>
    apply Balances.silent hrelay rfl
    intro relay
    exact Nat.add_right_cancel (h.count_relays relay)
  | held a h hrelay =>
    constructor
    · rw [hrelay, List.range_succ]
      rfl
    · intro relay
      have hcount := h.count_relays relay
      rw [List.map_append, List.count_append] at hcount
      have hone : ([Output.held a.dispatch s.nextRelay].filterMap Output.heldRelay).count relay =
          [s.nextRelay].count relay := rfl
      have hnone : ([Output.held a.dispatch s.nextRelay].filterMap
          Output.endedRelay).count relay = 0 := rfl
      have hnew : (List.map Held.relay [{ dispatch := a.dispatch, relay := s.nextRelay }]).count
          relay = [s.nextRelay].count relay := rfl
      omega
  | delivered a next rest hheld h hrelay =>
    apply Balances.silent hrelay rfl
    intro relay
    have hcount := h.count_relays relay
    rw [hheld, ← List.singleton_append, List.map_append, List.count_append] at hcount
    have hone : (List.map Held.relay [next]).count relay =
        ([Output.delivered { next.dispatch with binding := a.binding } next.relay].filterMap
          Output.endedRelay).count relay := rfl
    have hrest : (List.map Held.relay ({ a with heldRelays := rest } : Aggregate).heldRelays).count
        relay = (List.map Held.relay rest).count relay := rfl
    omega
  | failed a h hrelay =>
    apply Balances.silent hrelay (heldRelay_settle _)
    intro relay
    rw [endedRelay_settle]
    exact h.count_relays relay
  | dropped h hrelay =>
    apply Balances.silent hrelay (heldRelay_settle _)
    intro relay
    have hempty : relays t.bindings = [] := by
      rw [relays, heldBy, h, List.flatMap_map, List.flatMap_eq_nil_iff.mpr fun _ _ => rfl]
      rfl
    rw [hempty, endedRelay_settle, List.count_nil, Nat.zero_add]
    rfl
  | installed binding own new rest gone ht hs hnew hbounded hown hgiven hrest hrelay =>
    apply Balances.silent hrelay
    · exact heldRelay_settle _
    · intro relay
      rw [ht, relays_cons, hnew.2.1]
      exact count_removed hs relay
  | restored binding new rest gone ht hs hnew hgiven hrest hgone hrelay =>
    apply Balances.silent hrelay rfl
    intro relay
    have hcount := count_removed hs relay
    have hempty : heldBy gone = [] := by
      rw [heldBy, List.flatMap_eq_nil_iff]
      intro a ha
      by_contra hheld
      have hmem : a ∈ s.bindings := hs.symm.subset (List.mem_append_right _ ha)
      exact hwaits a hmem hheld (hgone a ha)
    rw [hempty] at hcount
    rw [ht, relays_cons, hnew.2.1]
    exact hcount
  | takenBack binding own h hrelay =>
    apply Balances.silent hrelay rfl
    intro relay
    exact (relays_perm h).count_eq relay

end Zlink.Session
