import Zlink.Session.Registry

/-!
# The index of the bindings

Bindings are kept by connection, and the index has the connection and the generation of the
binding of every actor. `Indexed` says that the two agree: an actor has at most one binding,
and its locator in the index is exactly the locator of that binding.
-/

namespace Zlink.Session

open Keyed

def Aggregate.place (aggregate : Aggregate) : (String × String) × (String × String) × Locator :=
  (aggregate.key, (aggregate.binding.connection.connectionId, aggregate.binding.actor.key),
    aggregate.binding.locator)

structure Indexed (s : Registry) : Prop where
  connections : Keyed.Unique Connection.connectionId s.connections
  actors : Keyed.Unique Aggregate.actorId s.bindings
  index : Keyed.Unique Prod.fst s.actorBindings
  placed : ∀ a ∈ s.bindings, a.key = (a.binding.connection.connectionId, a.binding.actor.key) ∧
      a.binding.connection ∈ s.connections
  mem_index : ∀ actorId locator, (actorId, locator) ∈ s.actorBindings ↔
    ∃ a ∈ s.bindings, a.actorId = actorId ∧ a.binding.locator = locator

structure Same (s t : Registry) : Prop where
  connections : t.connections = s.connections
  places : t.bindings.map Aggregate.place = s.bindings.map Aggregate.place
  index : t.actorBindings = s.actorBindings

variable {s t : Registry}

namespace Same

theorem exists_mem (h : Same s t) {a : Aggregate} (ha : a ∈ t.bindings) :
    ∃ b ∈ s.bindings, b.place = a.place := by
  have hplace : a.place ∈ s.bindings.map Aggregate.place := h.places ▸ List.mem_map_of_mem ha
  exact List.mem_map.mp hplace

theorem symm (h : Same s t) : Same t s where
  connections := h.connections.symm
  places := h.places.symm
  index := h.index.symm

theorem modify (key : String × String) {f : Aggregate → Aggregate}
    (hf : ∀ a ∈ s.bindings, a.key = key → (f a).place = a.place) : Same s (s.modify key f) where
  connections := rfl
  places := map_modify Aggregate.place hf
  index := rfl

end Same

theorem Aggregate.place_eq {a b : Aggregate} (h : a.place = b.place) :
    a.key = b.key ∧ a.actorId = b.actorId ∧
      (a.binding.connection.connectionId, a.binding.actor.key) =
        (b.binding.connection.connectionId, b.binding.actor.key) ∧
      a.binding.locator = b.binding.locator := by
  obtain ⟨hkey, hrest⟩ := Prod.mk.inj h
  obtain ⟨hbinding, hlocator⟩ := Prod.mk.inj hrest
  exact ⟨hkey, (Prod.mk.inj hkey).2, hbinding, hlocator⟩

namespace Indexed

theorem of_same (hs : Indexed s) (h : Same s t) : Indexed t where
  connections := by
    rw [h.connections]
    exact hs.connections
  actors := by
    have hactors (xs : List Aggregate) :
        xs.map Aggregate.actorId = (xs.map Aggregate.place).map fun place => place.1.2 := by
      rw [List.map_map]
      rfl
    rw [Keyed.Unique, hactors, h.places, ← hactors]
    exact hs.actors
  index := by
    rw [h.index]
    exact hs.index
  placed := by
    intro a ha
    obtain ⟨b, hb, hplace⟩ := h.exists_mem ha
    obtain ⟨hkey, hconnection⟩ := hs.placed b hb
    obtain ⟨hkeys, -, hids, hlocators⟩ := Aggregate.place_eq hplace
    rw [h.connections, ← hkeys, ← hids]
    constructor
    · exact hkey
    · have hsame : b.binding.connection = a.binding.connection :=
        congrArg Locator.connection hlocators
      exact hsame ▸ hconnection
  mem_index := by
    intro actorId locator
    rw [h.index, hs.mem_index]
    constructor
    · rintro ⟨a, ha, hid, hlocator⟩
      obtain ⟨b, hb, hplace⟩ := h.symm.exists_mem ha
      obtain ⟨-, hids, -, hlocators⟩ := Aggregate.place_eq hplace
      exact ⟨b, hb, hids.trans hid, hlocators.trans hlocator⟩
    · rintro ⟨a, ha, hid, hlocator⟩
      obtain ⟨b, hb, hplace⟩ := h.exists_mem ha
      obtain ⟨-, hids, -, hlocators⟩ := Aggregate.place_eq hplace
      exact ⟨b, hb, hids.trans hid, hlocators.trans hlocator⟩

/-- The bindings that `keep` keeps stay, with their connections and their locators. -/
theorem restrict (hs : Indexed s) (keep : Aggregate → Bool)
    (hbindings : t.bindings = s.bindings.filter keep)
    (hconnections : t.connections.Sublist s.connections)
    (hkept : ∀ a ∈ s.bindings, keep a → a.binding.connection ∈ t.connections)
    (hindex : t.actorBindings.Sublist s.actorBindings)
    (hlocators : ∀ a ∈ s.bindings, (a.actorId, a.binding.locator) ∈ t.actorBindings ↔ keep a) :
    Indexed t where
  connections := hs.connections.sublist (hconnections.map _)
  actors := by
    rw [hbindings]
    exact hs.actors.sublist (List.filter_sublist.map _)
  index := hs.index.sublist (hindex.map _)
  placed := by
    intro a ha
    rw [hbindings] at ha
    obtain ⟨ha, hkeep⟩ := List.mem_filter.mp ha
    exact ⟨(hs.placed a ha).1, hkept a ha hkeep⟩
  mem_index := by
    intro actorId locator
    constructor
    · intro hmem
      obtain ⟨a, ha, rfl, rfl⟩ := (hs.mem_index actorId locator).mp (hindex.subset hmem)
      rw [hbindings]
      exact ⟨a, List.mem_filter.mpr ⟨ha, (hlocators a ha).mp hmem⟩, rfl, rfl⟩
    · rintro ⟨a, ha, rfl, rfl⟩
      rw [hbindings] at ha
      obtain ⟨ha, hkeep⟩ := List.mem_filter.mp ha
      exact (hlocators a ha).mpr hkeep

theorem replace (hs : Indexed s) {new : Aggregate}
    (hbindings : ∀ a, a ∈ t.bindings ↔ a = new ∨ a ∈ s.bindings ∧ a.actorId ≠ new.actorId)
    (hactors : Keyed.Unique Aggregate.actorId t.bindings)
    (hconnections : t.connections = s.connections) (hindex : t.actorBindings =
      (new.actorId, new.binding.locator) :: erase Prod.fst new.actorId s.actorBindings)
    (hkey : new.key = (new.binding.connection.connectionId, new.binding.actor.key))
    (hnew : new.binding.connection ∈ s.connections) : Indexed t where
  connections := by
    rw [hconnections]
    exact hs.connections
  actors := hactors
  index := by
    rw [hindex]
    apply hs.index.erase.cons
    intro hmem
    obtain ⟨entry, hentry, hid⟩ := List.mem_map.mp hmem
    exact (mem_erase hentry).2 hid
  placed := by
    intro a ha
    rw [hconnections]
    rcases (hbindings a).mp ha with rfl | ⟨ha, -⟩
    · exact ⟨hkey, hnew⟩
    · exact hs.placed a ha
  mem_index := by
    intro actorId locator
    rw [hindex, List.mem_cons]
    constructor
    · rintro (heq | hmem)
      · obtain ⟨rfl, rfl⟩ := Prod.mk.inj heq
        exact ⟨new, (hbindings new).mpr (.inl rfl), rfl, rfl⟩
      · obtain ⟨hmem, hne⟩ := mem_erase hmem
        obtain ⟨a, ha, rfl, rfl⟩ := (hs.mem_index actorId locator).mp hmem
        exact ⟨a, (hbindings a).mpr (.inr ⟨ha, hne⟩), rfl, rfl⟩
    · rintro ⟨a, ha, rfl, rfl⟩
      rcases (hbindings a).mp ha with rfl | ⟨ha, hne⟩
      · exact .inl rfl
      · have hmem := (hs.mem_index a.actorId a.binding.locator).mpr ⟨a, ha, rfl, rfl⟩
        exact .inr (mem_erase_of_mem hmem hne)

variable {connection : Connection}

theorem cons_connection (hs : Indexed s)
    (hnew : connection.connectionId ∉ s.connections.map Connection.connectionId)
    (hconnections : t.connections = connection :: s.connections)
    (hbindings : t.bindings = s.bindings) (hindex : t.actorBindings = s.actorBindings) :
    Indexed t where
  connections := by
    rw [hconnections]
    exact hs.connections.cons hnew
  actors := by
    rw [hbindings]
    exact hs.actors
  index := by
    rw [hindex]
    exact hs.index
  placed := by
    intro a ha
    rw [hbindings] at ha
    rw [hconnections]
    exact ⟨(hs.placed a ha).1, List.mem_cons_of_mem _ (hs.placed a ha).2⟩
  mem_index := by
    rw [hindex, hbindings]
    exact hs.mem_index

variable {a : Aggregate}

theorem eq_of_actorId (hs : Indexed s) {b : Aggregate} (ha : a ∈ s.bindings)
    (hb : b ∈ s.bindings) (hid : a.actorId = b.actorId) : a = b := by
  have hfind := find_of_mem hs.actors hb
  exact eq_of_find hs.actors hfind ha hid

theorem keys (hs : Indexed s) : Keyed.Unique Aggregate.key s.bindings := by
  have hmap : (s.bindings.map Aggregate.key).map Prod.snd = s.bindings.map Aggregate.actorId := by
    rw [List.map_map]
    rfl
  apply List.Nodup.of_map Prod.snd
  rw [hmap]
  exact hs.actors

theorem connection_eq (hs : Indexed s)
    (h : connection ∈ s.connections) : s.connection connection.connectionId = some connection :=
  find_of_mem hs.connections h

theorem locator_eq (hs : Indexed s) (ha : a ∈ s.bindings) :
    s.locator a.actorId = some a.binding.locator := by
  have hmem := (hs.mem_index a.actorId a.binding.locator).mpr ⟨a, ha, rfl, rfl⟩
  have hfind := find_of_mem hs.index hmem
  rw [Registry.locator, hfind]
  rfl

theorem locator_none (hs : Indexed s) {actorId : String}
    (h : ∀ a ∈ s.bindings, a.actorId ≠ actorId) : s.locator actorId = none := by
  rw [Registry.locator, Option.map_eq_none_iff]
  cases hfind : find Prod.fst actorId s.actorBindings with
  | none => rfl
  | some entry =>
    obtain ⟨hmem, rfl⟩ := mem_of_find hfind
    obtain ⟨a, ha, hid, -⟩ := (hs.mem_index entry.1 entry.2).mp hmem
    exact absurd hid (h a ha)

theorem key_eq (hs : Indexed s) (ha : a ∈ s.bindings) :
    (a.binding.connection.connectionId, a.actorId) = a.key := by
  have hkey := (hs.placed a ha).1
  have hconnection : a.connectionId = a.binding.connection.connectionId := congrArg Prod.fst hkey
  rw [← hconnection]
  rfl

theorem aggregate_eq (hs : Indexed s) (ha : a ∈ s.bindings) :
    s.aggregate a.binding.connection.connectionId a.actorId = some a := by
  rw [Registry.aggregate, hs.key_eq ha]
  exact find_of_mem hs.keys ha

theorem mem_of_aggregate {connectionId actorId : String}
    (h : s.aggregate connectionId actorId = some a) :
    a ∈ s.bindings ∧ a.connectionId = connectionId ∧ a.actorId = actorId := by
  obtain ⟨ha, hkey⟩ := mem_of_find h
  exact ⟨ha, congrArg Prod.fst hkey, congrArg Prod.snd hkey⟩

theorem located_eq (hs : Indexed s) (actorId : String) {f : Locator → Option Aggregate}
    (hf : ∀ a ∈ s.bindings, a.actorId = actorId → f a.binding.locator = some a) :
    (s.locator actorId).bind f = find Aggregate.actorId actorId s.bindings := by
  cases hfind : find Aggregate.actorId actorId s.bindings with
  | none =>
    have hnone := hs.locator_none fun a ha hid =>
      not_mem_of_find hfind (List.mem_map.mpr ⟨a, ha, hid⟩)
    rw [hnone, Option.bind_none]
  | some a =>
    obtain ⟨ha, rfl⟩ := mem_of_find hfind
    rw [hs.locator_eq ha, Option.bind_some, hf a ha rfl]

theorem currentAggregate_eq (hs : Indexed s) (actorId : String) :
    s.currentAggregate actorId = find Aggregate.actorId actorId s.bindings := by
  refine hs.located_eq actorId ?_
  rintro a ha rfl
  have hconnection := hs.connection_eq (hs.placed a ha).2
  simp [Binding.locator, hconnection, hs.aggregate_eq ha, Option.filter_some]

theorem indexed_eq (hs : Indexed s) (actorId : String) :
    s.indexed actorId = find Aggregate.actorId actorId s.bindings := by
  refine hs.located_eq actorId ?_
  rintro a ha rfl
  have hconnection := hs.connection_eq (hs.placed a ha).2
  simp [Binding.locator, hconnection, hs.aggregate_eq ha, Option.filter_some]

theorem displacedBy_eq (hs : Indexed s) (connection : Connection) (actorId : String) :
    s.displacedBy connection actorId = (find Aggregate.actorId actorId s.bindings).toList := by
  have hsecond : (s.aggregate connection.connectionId actorId).filter (fun aggregate =>
      (s.indexed actorId).all fun old => old.key ≠ aggregate.key) = none := by
    rw [Option.filter_eq_none_iff]
    intro a ha hall
    obtain ⟨hmem, -, rfl⟩ := mem_of_aggregate ha
    rw [hs.indexed_eq, find_of_mem hs.actors hmem] at hall
    simp at hall
  rw [Registry.displacedBy, hsecond, hs.indexed_eq, Option.toList_none, List.append_nil]

theorem remove (hs : Indexed s) (removed : List Aggregate) (keep : Aggregate → Bool)
    (hremoved : ∀ a ∈ s.bindings, a ∈ removed ↔ ¬ keep a) (hsub : ∀ a ∈ removed, a ∈ s.bindings)
    (hbindings : t.bindings = s.bindings.filter keep)
    (hconnections : t.connections.Sublist s.connections)
    (hkept : ∀ a ∈ s.bindings, keep a → a.binding.connection ∈ t.connections)
    (hindex : t.actorBindings = (s.unindex removed).actorBindings) : Indexed t := by
  apply hs.restrict keep hbindings hconnections hkept
  · rw [hindex]
    exact List.filter_sublist
  · intro a ha
    have hmem := (hs.mem_index a.actorId a.binding.locator).mpr ⟨a, ha, rfl, rfl⟩
    have hany : (removed.any fun b =>
        b.actorId == a.actorId && b.binding.locator == a.binding.locator) ↔ a ∈ removed := by
      rw [List.any_eq_true]
      constructor
      · rintro ⟨b, hb, heq⟩
        have hid : b.actorId = a.actorId := by
          rw [Bool.and_eq_true] at heq
          exact eq_of_beq heq.1
        exact hs.eq_of_actorId (hsub b hb) ha hid ▸ hb
      · intro hrem
        exact ⟨a, hrem, by simp⟩
    rw [hindex, Registry.unindex, List.mem_filter, Bool.not_eq_true', ← Bool.not_eq_true, hany,
      hremoved a ha, not_not]
    exact ⟨And.right, fun hkeep => ⟨hmem, hkeep⟩⟩

theorem mem_bindingsOf {connectionId : String} :
    a ∈ s.bindingsOf connectionId ↔ a ∈ s.bindings ∧ a.connectionId = connectionId := by
  rw [Registry.bindingsOf, List.mem_filter, decide_eq_true_eq]

theorem connectionId_eq (hs : Indexed s) (ha : a ∈ s.bindings) :
    a.connectionId = a.binding.connection.connectionId :=
  congrArg Prod.fst (hs.placed a ha).1

theorem actorId_eq (hs : Indexed s) (ha : a ∈ s.bindings) : a.actorId = a.binding.actor.key :=
  congrArg Prod.snd (hs.placed a ha).1

theorem removeConnection (hs : Indexed s) (connectionId : String) :
    Indexed (((s.refuseCompletions (s.bindingsOf connectionId)).unindex
      (s.bindingsOf connectionId)).removeConnection connectionId) := by
  apply hs.remove (s.bindingsOf connectionId) (fun a => a.connectionId ≠ connectionId)
  · intro a ha
    rw [mem_bindingsOf, decide_eq_true_eq, not_not]
    exact ⟨And.right, fun h => ⟨ha, h⟩⟩
  · exact fun a ha => (mem_bindingsOf.mp ha).1
  · rfl
  · exact List.filter_sublist
  · intro a ha hkeep
    apply mem_erase_of_mem (hs.placed a ha).2
    rw [← hs.connectionId_eq ha]
    exact of_decide_eq_true hkeep
  · rfl

theorem «open» (hs : Indexed s) (connectionId : String) (rid : Option (List UInt8))
    (generation : ℕ) : Indexed (s.open connectionId rid generation).registry := by
  have hnew : (s.open connectionId rid generation).answer.connectionId ∉
      (erase Connection.connectionId connectionId s.connections).map
        Connection.connectionId := by
    intro hmem
    obtain ⟨connection, hconnection, hid⟩ := List.mem_map.mp hmem
    exact (mem_erase hconnection).2 hid
  exact (hs.removeConnection connectionId).cons_connection hnew rfl rfl rfl

theorem connection_of_key (hs : Indexed s)
    {actorId : String} (ha : s.aggregate connection.connectionId actorId = some a)
    (hconnection : s.connection connection.connectionId = some connection) :
    a.binding.connection = connection := by
  obtain ⟨hmem, hid, -⟩ := mem_of_aggregate ha
  have heq := hs.connection_eq (hs.placed a hmem).2
  rw [← hs.connectionId_eq hmem, hid, hconnection] at heq
  exact (Option.some.inj heq).symm

theorem forceCloseAll : Indexed s.forceCloseAll.registry where
  connections := List.nodup_nil
  actors := List.nodup_nil
  index := List.nodup_nil
  placed := by
    intro a ha
    cases ha
  mem_index := by
    intro actorId locator
    constructor
    · intro h
      cases h
    · rintro ⟨a, ha, -⟩
      cases ha

end Indexed

namespace Registry

variable (s : Registry) (binding : Binding) (displaced : List Aggregate)

/-- The aggregate that `install` makes. -/
def newAggregate : Aggregate where
  connectionId := binding.connection.connectionId
  actorId := binding.actor.key
  binding := binding
  nextInboundSequence := 1
  ingressDrain := (displaced.head?.map Aggregate.ingressDrain).getD s.nextDrain
  barrierToken := none
  heldRelays := []
  serial := s.nextSerial

/-- The bindings that `install` leaves. -/
def remaining : List Aggregate :=
  Keyed.erase Aggregate.key (binding.connection.connectionId, binding.actor.key)
    (displaced.foldl (fun s old => s.erase old.key) s).bindings

theorem foldl_erase : displaced.foldl (fun s old => s.erase old.key) s = { s with
        bindings := displaced.foldl (fun xs old => Keyed.erase Aggregate.key old.key xs)
          s.bindings } := by
  induction displaced generalizing s with
  | nil => rfl
  | cons old displaced ih =>
    rw [List.foldl_cons, List.foldl_cons, ih]
    rfl

/-- What `install` changes. -/
theorem install_eq : s.install binding displaced = { s with
        bindings := s.newAggregate binding displaced :: s.remaining binding displaced
        actorBindings := (binding.actor.key, binding.locator) ::
          Keyed.erase Prod.fst binding.actor.key s.actorBindings
        drains := fun d =>
          if displaced.head?.map Aggregate.ingressDrain = none ∧ d = s.nextDrain then
            { active := ∅, acceptsCompletion := true }
          else s.drains d
        nextDrain := s.nextDrain + 1
        nextSerial := s.nextSerial + 1 } := by
  simp only [install, remaining, newAggregate, foldl_erase]
  rfl

theorem install_bindings : (s.install binding displaced).bindings =
      s.newAggregate binding displaced :: s.remaining binding displaced := by
  rfl

theorem install_connections : (s.install binding displaced).connections = s.connections := by
  rw [install_eq]

theorem install_actorBindings :
    (s.install binding displaced).actorBindings = (binding.actor.key, binding.locator) ::
      Keyed.erase Prod.fst binding.actor.key s.actorBindings := by
  rw [install_eq]

variable {s binding displaced}

theorem mem_remaining {a : Aggregate} : a ∈ s.remaining binding displaced ↔ a ∈ s.bindings ∧
      a.key ∉ displaced.map Aggregate.key ∧
        a.key ≠ (binding.connection.connectionId, binding.actor.key) := by
  have hfoldl : ∀ xs : List Aggregate,
      a ∈ displaced.foldl (fun xs old => Keyed.erase Aggregate.key old.key xs) xs ↔
        a ∈ xs ∧ a.key ∉ displaced.map Aggregate.key := by
    induction displaced with
    | nil => simp
    | cons old displaced ih =>
      intro xs
      rw [List.foldl_cons, ih, Keyed.erase, List.mem_filter, decide_eq_true_eq, List.map_cons,
        List.mem_cons, not_or, and_assoc]
  rw [remaining, foldl_erase, Keyed.erase, List.mem_filter, hfoldl, decide_eq_true_eq, and_assoc]

theorem remaining_sublist : (s.remaining binding displaced).Sublist s.bindings := by
  have hfoldl : ∀ xs : List Aggregate,
      (displaced.foldl (fun xs old => Keyed.erase Aggregate.key old.key xs) xs).Sublist xs := by
    induction displaced with
    | nil => exact fun xs => List.Sublist.refl xs
    | cons old displaced ih => exact fun xs => (ih _).trans List.filter_sublist
  rw [remaining, foldl_erase]
  exact List.filter_sublist.trans (hfoldl s.bindings)

end Registry

namespace Indexed

variable {binding : Binding} {displaced : List Aggregate} {actorId : String}

structure Displaces (s : Registry) (binding : Binding) (displaced : List Aggregate) : Prop where
  actors : ∀ a ∈ displaced, a.actorId = binding.actor.key
  reached : ∀ a ∈ s.bindings, a.actorId = binding.actor.key → a.key ∈ displaced.map Aggregate.key ∨
      a.key = (binding.connection.connectionId, binding.actor.key)

theorem Displaces.mem_remaining (hd : Displaces s binding displaced) {a : Aggregate} :
    a ∈ s.remaining binding displaced ↔ a ∈ s.bindings ∧ a.actorId ≠ binding.actor.key := by
  rw [Registry.mem_remaining]
  constructor
  · rintro ⟨ha, hdisplaced, hkey⟩
    exact ⟨ha, fun hid => (hd.reached a ha hid).elim hdisplaced hkey⟩
  · rintro ⟨ha, hid⟩
    refine ⟨ha, ?_, fun hkey => hid (congrArg Prod.snd hkey)⟩
    intro hmem
    obtain ⟨b, hb, hkey⟩ := List.mem_map.mp hmem
    exact hid ((congrArg Prod.snd hkey).symm.trans (hd.actors b hb))

theorem Displaces.current (hs : Indexed s) (connection : Connection)
    (hactor : binding.actor.key = actorId) :
    Displaces s binding (s.displacedBy connection actorId) where
  actors := by
    intro a ha
    rw [hs.displacedBy_eq, Option.mem_toList] at ha
    exact (mem_of_find ha).2.trans hactor.symm
  reached := by
    intro a ha hid
    rw [hs.displacedBy_eq, ← hactor, ← hid, find_of_mem hs.actors ha]
    exact .inl (List.mem_singleton.mpr rfl)

theorem install (hs : Indexed s) (hd : Displaces s binding displaced)
    (hconnection : s.connection binding.connection.connectionId = some binding.connection) :
    Indexed (s.install binding displaced) := by
  have hmem : ∀ a, a ∈ (s.install binding displaced).bindings ↔
      a = s.newAggregate binding displaced ∨ a ∈ s.bindings ∧ a.actorId ≠ binding.actor.key := by
    intro a
    rw [Registry.install_bindings, List.mem_cons, hd.mem_remaining]
  apply hs.replace hmem
  · rw [Registry.install_bindings]
    apply Keyed.Unique.cons (hs.actors.sublist (Registry.remaining_sublist.map _))
    intro h
    obtain ⟨a, ha, hid⟩ := List.mem_map.mp h
    exact (hd.mem_remaining.mp ha).2 hid
  · exact Registry.install_connections s binding displaced
  · exact Registry.install_actorBindings s binding displaced
  · rfl
  · exact (mem_of_find hconnection).1

end Indexed

structure Untouched (s t : Registry) : Prop where
  connections : t.connections = s.connections
  bindings : ∀ connectionId actorId, t.aggregate connectionId actorId = s.aggregate connectionId
    actorId
  barriers : t.barriers = s.barriers
  allSealed : t.allSealed = s.allSealed
  index : ∀ actorId, t.locator actorId = s.locator actorId

namespace Indexed

variable {binding : Binding}

theorem of_mem (hs : Indexed s) (hconnections : t.connections = s.connections)
    (hbindings : ∀ a, a ∈ t.bindings ↔ a ∈ s.bindings)
    (hindex : ∀ entry, entry ∈ t.actorBindings ↔ entry ∈ s.actorBindings)
    (hactors : Keyed.Unique Aggregate.actorId t.bindings)
    (hkeys : Keyed.Unique Prod.fst t.actorBindings) : Indexed t where
  connections := by
    rw [hconnections]
    exact hs.connections
  actors := hactors
  index := hkeys
  placed := by
    intro a ha
    rw [hconnections]
    exact hs.placed a ((hbindings a).mp ha)
  mem_index := by
    intro actorId locator
    rw [hindex, hs.mem_index]
    simp only [hbindings]

theorem untouched_of_mem (hs : Indexed s) (ht : Indexed t)
    (hconnections : t.connections = s.connections)
    (hbindings : ∀ a, a ∈ t.bindings ↔ a ∈ s.bindings)
    (hindex : ∀ entry, entry ∈ t.actorBindings ↔ entry ∈ s.actorBindings)
    (hbarriers : t.barriers = s.barriers) (hsealed : t.allSealed = s.allSealed) :
    Untouched s t where
  connections := hconnections
  bindings := fun _ _ => find_congr ht.keys hs.keys hbindings
  barriers := hbarriers
  allSealed := hsealed
  index := by
    intro actorId
    rw [Registry.locator, Registry.locator, find_congr ht.index hs.index hindex]

/-- What `rollback` changes. -/
theorem rollback_eq (s : Registry) (binding : Binding) (previous : Option Aggregate) :
    s.rollback binding previous =
      { s with
        bindings := (s.rollback binding previous).bindings
        actorBindings := (s.rollback binding previous).actorBindings } := by
  cases previous with
  | none | some => rfl

/-- What `rollback` leaves of the bindings that `install` made. -/
theorem erase_install (hd : Displaces s binding displaced) :
    erase Aggregate.key (binding.connection.connectionId, binding.actor.key)
      (s.install binding displaced).bindings = s.remaining binding displaced := by
  rw [Registry.install_bindings, erase, List.filter_cons_of_neg (by simp; rfl), List.filter_eq_self]
  intro a ha
  rw [decide_eq_true_eq]
  exact fun hkey => (hd.mem_remaining.mp ha).2 (congrArg Prod.snd hkey)

theorem rollback_bindings (hd : Displaces s binding displaced) (previous : Option Aggregate) :
    ((s.install binding displaced).rollback binding previous).bindings =
      previous.toList ++ s.remaining binding displaced := by
  rw [← erase_install hd]
  cases previous with
  | none | some => rfl

theorem rollback_actorBindings (previous : Option Aggregate) :
    ((s.install binding displaced).rollback binding previous).actorBindings =
      (previous.map fun a => (binding.actor.key, a.binding.locator)).toList ++
        erase Prod.fst binding.actor.key s.actorBindings := by
  have herase : erase Prod.fst binding.actor.key (s.install binding displaced).actorBindings =
      erase Prod.fst binding.actor.key s.actorBindings := by
    rw [Registry.install_actorBindings]
    simp [erase]
  rw [← herase]
  cases previous with
  | none => rfl
  | some a => simp [Registry.rollback, Registry.setLocator, Registry.erase, erase]

theorem rollback_connections (previous : Option Aggregate) :
    ((s.install binding displaced).rollback binding previous).connections = s.connections := by
  rw [rollback_eq, Registry.install_eq]

theorem rollback_barriers (previous : Option Aggregate) :
    ((s.install binding displaced).rollback binding previous).barriers = s.barriers ∧
      ((s.install binding displaced).rollback binding previous).allSealed = s.allSealed := by
  rw [rollback_eq, Registry.install_eq]
  exact ⟨rfl, rfl⟩

theorem mem_split (hs : Indexed s) (actorId : String) (a : Aggregate) :
    a ∈ find Aggregate.actorId actorId s.bindings ∨ a ∈ s.bindings ∧ a.actorId ≠ actorId ↔
      a ∈ s.bindings := by
  constructor
  · rintro (h | h)
    · exact (mem_of_find h).1
    · exact h.1
  · intro ha
    by_cases hid : a.actorId = actorId
    · exact .inl (hid ▸ find_of_mem hs.actors ha)
    · exact .inr ⟨ha, hid⟩

theorem mem_index_split (hs : Indexed s) (actorId : String) (entry : String × Locator) :
    entry ∈ ((find Aggregate.actorId actorId s.bindings).map fun a =>
        (actorId, a.binding.locator)) ∨ entry ∈ s.actorBindings ∧ entry.1 ≠ actorId ↔
      entry ∈ s.actorBindings := by
  constructor
  · rintro (h | h)
    · obtain ⟨a, ha, rfl⟩ := Option.map_eq_some_iff.mp h
      obtain ⟨hmem, hid⟩ := mem_of_find ha
      exact (hs.mem_index _ _).mpr ⟨a, hmem, hid, rfl⟩
    · exact h.1
  · intro hentry
    by_cases hid : entry.1 = actorId
    · obtain ⟨a, ha, hactor, hlocator⟩ := (hs.mem_index entry.1 entry.2).mp hentry
      left
      rw [← hid, ← hactor, find_of_mem hs.actors ha, Option.map_some, hlocator, hactor]
      rfl
    · exact .inr ⟨hentry, hid⟩

theorem rollback (hs : Indexed s) (hd : Displaces s binding displaced) :
    let r := (s.install binding displaced).rollback binding
      (find Aggregate.actorId binding.actor.key s.bindings)
    Indexed r ∧ Untouched s r := by
  intro r
  have hbindings : ∀ a, a ∈ r.bindings ↔ a ∈ s.bindings := by
    intro a
    rw [rollback_bindings hd, List.mem_append, Option.mem_toList, hd.mem_remaining]
    exact hs.mem_split binding.actor.key a
  have hindex : ∀ entry, entry ∈ r.actorBindings ↔ entry ∈ s.actorBindings := by
    intro entry
    rw [rollback_actorBindings, List.mem_append, Option.mem_toList, erase, List.mem_filter,
      decide_eq_true_eq]
    exact hs.mem_index_split binding.actor.key entry
  have hactors : Keyed.Unique Aggregate.actorId r.bindings := by
    have hsub : (s.remaining binding displaced).Sublist s.bindings := Registry.remaining_sublist
    have hrest := hs.actors.sublist (hsub.map Aggregate.actorId)
    rw [rollback_bindings hd]
    cases hfind : find Aggregate.actorId binding.actor.key s.bindings with
    | none => exact hrest
    | some a =>
      apply Keyed.Unique.cons hrest
      rw [(mem_of_find hfind).2]
      intro h
      obtain ⟨b, hb, hid⟩ := List.mem_map.mp h
      exact (hd.mem_remaining.mp hb).2 hid
  have hkeys : Keyed.Unique Prod.fst r.actorBindings := by
    rw [rollback_actorBindings]
    cases find Aggregate.actorId binding.actor.key s.bindings with
    | none => exact hs.index.erase
    | some a =>
      apply Keyed.Unique.cons hs.index.erase
      intro h
      obtain ⟨entry, hentry, hid⟩ := List.mem_map.mp h
      exact (mem_erase hentry).2 hid
  have hconnections : r.connections = s.connections := rollback_connections _
  have hr := hs.of_mem hconnections hbindings hindex hactors hkeys
  have hkept : r.barriers = s.barriers ∧ r.allSealed = s.allSealed := rollback_barriers _
  obtain ⟨hbarriers, hsealed⟩ := hkept
  exact ⟨hr, hs.untouched_of_mem hr hconnections hbindings hindex hbarriers hsealed⟩

end Indexed

theorem Untouched.mem (h : Untouched s t) (hs : Indexed s) (ht : Indexed t) (a : Aggregate) :
    a ∈ t.bindings ↔ a ∈ s.bindings := by
  constructor
  · intro ha
    have haggregate := ht.aggregate_eq ha
    rw [h.bindings] at haggregate
    exact (Indexed.mem_of_aggregate haggregate).1
  · intro ha
    have haggregate := hs.aggregate_eq ha
    rw [← h.bindings] at haggregate
    exact (Indexed.mem_of_aggregate haggregate).1

namespace Registry

def advance (s : Registry) (generation : ℕ) : Registry :=
  { s with
    nextBindingGeneration :=
      if s.nextBindingGeneration ≤ generation then generation + 1
      else s.nextBindingGeneration }

structure Binds (s : Registry) (binding : Binding) (own : Bool) : Prop where
  unsealed : s.allSealed = false
  connection : s.connection binding.connection.connectionId = some binding.connection
  unbarred : ∀ a, s.aggregate binding.connection.connectionId binding.actor.key = some a →
    a.barrierToken = none
  current : own = false → ∀ a, s.currentAggregate binding.actor.key = some a →
    a.binding.bindingGeneration ≤ binding.bindingGeneration
  bounded : binding.bindingGeneration ≠ uint64Max
  issued : own = true → binding.bindingGeneration = s.nextBindingGeneration

inductive BindOutcome (s : Registry) (publication : Publication) : Registry → List Output → Prop
  | refused : BindOutcome s publication s []
  | installed (binding : Binding) (own : Bool) (h : Binds s binding own)
      (hpublication : publication = .none) :
      BindOutcome s publication ((s.advance binding.bindingGeneration).install binding
          (s.displacedBy binding.connection binding.actor.key))
        (.published binding own ::
          settle (heldBy (s.displacedBy binding.connection binding.actor.key)))
  | takenBack (binding : Binding) (own : Bool) (h : Binds s binding own)
      (hpublication : publication ≠ .none) :
      BindOutcome s publication (((s.advance binding.bindingGeneration).install binding
          (s.displacedBy binding.connection binding.actor.key)).rollback binding
            (s.displacedBy binding.connection binding.actor.key).head?)
        [.published binding own]

theorem bindVerified_outcome (s : Registry) (connection : Connection) (actor : ObjectRef)
    (node lease : ℕ) (publication : Publication) (generation : ℕ) : BindOutcome s publication
      (s.bindVerified connection actor node lease publication generation).registry
      (s.bindVerified connection actor node lease publication generation).outputs := by
  rw [bindVerified]
  split
  · exact .refused
  rename_i hsealed
  split
  · exact .refused
  rename_i hconnection
  split
  · exact .refused
  rename_i hbarrier
  split
  · exact .refused
  rename_i hcurrent
  split
  · exact .refused
  rename_i hbounds
  obtain ⟨hmax, hnext⟩ := not_or.mp hbounds
  let issued := if generation ≠ 0 then generation else s.nextBindingGeneration
  let binding : Binding :=
    { connection, bindingGeneration := issued, actor, targetNodeGeneration := node,
      ownerLeaseGeneration := lease }
  have hbinds : Binds s binding (decide (generation = 0)) := by
    constructor
    · exact Bool.eq_false_of_not_eq_true hsealed
    · exact not_not.mp hconnection
    · intro a ha
      rw [show s.aggregate connection.connectionId actor.key = some a from ha, Option.any_some,
        Bool.not_eq_true, Option.isSome_eq_false_iff, Option.isNone_iff_eq_none] at hbarrier
      exact hbarrier
    · intro hown a ha
      have hne : generation ≠ 0 := of_decide_eq_false hown
      rw [show s.currentAggregate actor.key = some a from ha, Option.any_some,
        decide_eq_true_eq] at hcurrent
      have hissued : issued = generation := if_pos hne
      change a.binding.bindingGeneration ≤ issued
      rw [hissued]
      exact Nat.le_of_not_lt fun hlt => hcurrent ⟨hne, hlt⟩
    · change issued ≠ uint64Max
      by_cases hzero : generation = 0
      · have hissued : issued = s.nextBindingGeneration := if_neg (not_not.mpr hzero)
        rw [hissued]
        exact fun h => hnext ⟨hzero, .inr h⟩
      · have hissued : issued = generation := if_pos hzero
        rw [hissued]
        exact hmax
    · intro hown
      exact if_neg (not_not.mpr (of_decide_eq_true hown))
  cases publication with
  | none => exact .installed binding _ hbinds rfl
  | refused | threw => exact .takenBack binding _ hbinds nofun

theorem bind_outcome (s : Registry) (connection : Connection) (actor : ObjectRef)
    (node lease : ℕ) (authority : Option ObjectRef) :
    BindOutcome s .none (s.bind connection actor node lease authority).registry
      (s.bind connection actor node lease authority).outputs := by
  unfold bind
  split
  · exact .refused
  · split
    · exact s.bindVerified_outcome ..
    · exact .refused

theorem bindRemote_outcome (s : Registry) (connection : Connection) (actor : ObjectRef)
    (node lease : ℕ) (publication : Publication) (generation : ℕ) : BindOutcome s publication
      (s.bindRemote connection actor node lease publication generation).registry
      (s.bindRemote connection actor node lease publication generation).outputs := by
  unfold bindRemote
  split
  · exact .refused
  · exact s.bindVerified_outcome ..

structure Restores (s : Registry) (binding : Binding) : Prop where
  unsealed : s.allSealed = false
  connection : s.connection binding.connection.connectionId = some binding.connection
  locator : ∀ locator, s.locator binding.actor.key = some locator → locator = binding.locator
  same : ∀ a, s.aggregate binding.connection.connectionId binding.actor.key = some a →
    a.binding = binding ∧ a.barrierToken = none

/-- The generation counter behind a restored generation; the largest one is left out. -/
def adopt (s : Registry) (generation : ℕ) : Registry :=
  { s with
    nextBindingGeneration :=
      if s.nextBindingGeneration ≤ generation ∧ generation ≠ uint64Max then generation + 1
      else s.nextBindingGeneration }

theorem restore_cases (s : Registry) (binding : Binding) :
    ((s.restore binding).registry = s ∧ (s.restore binding).outputs = []) ∨ (Restores s binding ∧
        (s.restore binding).registry = (s.adopt binding.bindingGeneration).install binding [] ∧
        (s.restore binding).outputs = [.restored binding]) := by
  rw [restore]
  split
  · exact .inl ⟨rfl, rfl⟩
  rename_i hsealed
  split
  · exact .inl ⟨rfl, rfl⟩
  rename_i hconnection
  split
  · exact .inl ⟨rfl, rfl⟩
  rename_i hlocator
  split
  · exact .inl ⟨rfl, rfl⟩
  rename_i hlocal
  refine .inr ⟨?_, rfl, rfl⟩
  constructor
  · exact Bool.eq_false_of_not_eq_true hsealed
  · exact not_not.mp hconnection
  · intro locator h
    rw [h, Option.any_some, decide_eq_true_eq, not_not] at hlocator
    exact hlocator
  · intro a ha
    rw [ha, Option.any_some, decide_eq_true_eq, not_or, not_not, Bool.not_eq_true,
      Option.isSome_eq_false_iff, Option.isNone_iff_eq_none] at hlocal
    exact hlocal

end Registry

end Zlink.Session
