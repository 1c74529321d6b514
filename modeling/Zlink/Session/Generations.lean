import Zlink.Session.Effects

/-!
# The index over runs

Every effect keeps the bindings and the index in agreement. The generations that the registry
issues are larger than all that it has issued or adopted before, where a restored `UINT64_MAX`
counts as not adopted.
-/

namespace Zlink.Session

open Keyed Registry

variable {s t : Registry} {e : Event} {outputs : List Output}

namespace Indexed

theorem unbound (hs : Indexed s) {binding : Binding} {a : Aggregate} (ha : a ∈ s.bindings)
    (hid : a.actorId = binding.actor.key) (hlocator : a.binding.locator = binding.locator) :
    Indexed (((s.refuseCompletions [a]).erase a.key).unindexBinding binding) := by
  apply hs.remove [a] (fun b => b.key ≠ a.key)
  · intro b hb
    rw [List.mem_singleton, decide_eq_true_eq, not_not]
    constructor
    · rintro rfl
      rfl
    · intro hkey
      exact hs.eq_of_actorId hb ha (congrArg Prod.snd hkey)
  · intro b hb
    exact List.mem_singleton.mp hb ▸ ha
  · rfl
  · exact List.Sublist.refl _
  · exact fun b hb _ => (hs.placed b hb).2
  · apply List.filter_congr
    intro entry _
    rw [List.any_cons, List.any_nil, Bool.or_false, hid, hlocator, BEq.comm (a := entry.1),
      BEq.comm (a := entry.2)]

theorem closeSealed (hs : Indexed s) (connectionId : String) :
    Indexed (s.closeSealed connectionId) := by
  apply hs.restrict fun a => a.connectionId ≠ connectionId
  · rfl
  · exact List.filter_sublist
  · intro a ha hkeep
    apply mem_erase_of_mem (hs.placed a ha).2
    rw [← hs.connectionId_eq ha]
    exact of_decide_eq_true hkeep
  · exact List.filter_sublist
  · intro a ha
    have hmem := (hs.mem_index a.actorId a.binding.locator).mpr ⟨a, ha, rfl, rfl⟩
    have hclosed : a.actorId ∈ (s.bindingsOf connectionId).map Aggregate.actorId ↔
        a.connectionId = connectionId := by
      constructor
      · intro h
        obtain ⟨b, hb, hid⟩ := List.mem_map.mp h
        obtain ⟨hb, hconnection⟩ := mem_bindingsOf.mp hb
        rw [hs.eq_of_actorId ha hb hid.symm]
        exact hconnection
      · intro h
        exact List.mem_map_of_mem (mem_bindingsOf.mpr ⟨ha, h⟩)
    simp only [Registry.closeSealed]
    rw [List.mem_filter, decide_eq_true_eq, decide_eq_true_eq]
    exact ⟨fun h heq => h.2 (hclosed.mpr heq), fun h => ⟨hmem, fun hin => h (hclosed.mp hin)⟩⟩

theorem advance (hs : Indexed s) (generation : ℕ) : Indexed (s.advance generation) :=
  hs.of_same { connections := rfl, places := rfl, index := rfl }

theorem takenBack (hs : Indexed s) (binding : Binding) :
    let u := (s.advance binding.bindingGeneration).install binding
      (s.displacedBy binding.connection binding.actor.key)
    let r := u.rollback binding (s.displacedBy binding.connection binding.actor.key).head?
    Indexed r ∧ Untouched s r := by
  have ht := hs.advance binding.bindingGeneration
  have hhead : (s.displacedBy binding.connection binding.actor.key).head? =
      find Aggregate.actorId binding.actor.key s.bindings := by
    rw [hs.displacedBy_eq]
    exact Option.head?_toList
  rw [hhead]
  obtain ⟨hindexed, huntouched⟩ := ht.rollback (.current ht binding.connection rfl)
  exact ⟨hindexed, { huntouched with }⟩

theorem bound (hs : Indexed s) {publication : Publication}
    (h : BindOutcome s publication t outputs) :
    Indexed t ∧ (publication ≠ .none → Untouched s t) := by
  cases h with
  | refused =>
    exact ⟨hs, fun _ => hs.untouched_of_mem hs rfl (fun _ => Iff.rfl) (fun _ => Iff.rfl) rfl rfl⟩
  | installed binding own h hpublication =>
    have ht := hs.advance binding.bindingGeneration
    refine ⟨ht.install (.current ht binding.connection rfl) h.connection, ?_⟩
    exact fun hne => absurd hpublication hne
  | takenBack binding own h hpublication =>
    exact ⟨(hs.takenBack binding).1, fun _ => (hs.takenBack binding).2⟩

theorem Restores.displaces (hs : Indexed s) {binding : Binding} (h : Restores s binding) :
    Displaces s binding [] where
  actors := by
    intro a ha
    cases ha
  reached := by
    intro a ha hid
    right
    have hlocator := h.locator a.binding.locator (hid ▸ hs.locator_eq ha)
    have hconnection : a.binding.connection = binding.connection :=
      congrArg Locator.connection hlocator
    rw [← hs.key_eq ha, hconnection, hid]

end Indexed

theorem Same.edit (a : Aggregate) {f : Aggregate → Aggregate}
    (hconnections : t.connections = s.connections)
    (hbindings : t.bindings = Keyed.modify Aggregate.key a.key f s.bindings)
    (hindex : t.actorBindings = s.actorBindings)
    (hf : ∀ b ∈ s.bindings, b.key = a.key → (f b).place = b.place) : Same s t where
  connections := hconnections
  places := by
    rw [hbindings]
    exact (Same.modify a.key hf).places
  index := hindex

theorem place_setBinding (hs : Indexed s) {a : Aggregate} {next : Binding} (ha : a ∈ s.bindings)
    (hkey : next.actor.key = a.binding.actor.key) (hlocator : next.locator = a.binding.locator) :
    ∀ b ∈ s.bindings, b.key = a.key → ({ b with binding := next } : Aggregate).place = b.place := by
  intro b hb hkeys
  obtain rfl := hs.eq_of_actorId hb ha (congrArg Prod.snd hkeys)
  have hconnection : next.connection = b.binding.connection :=
    congrArg Locator.connection hlocator
  simp [Aggregate.place, Aggregate.key, hkey, hlocator, hconnection]

theorem Effect.indexed (hs : Indexed s) (h : Effect s e t outputs) : Indexed t := by
  have hsame {t : Registry} (h : Same s t) : Indexed t := hs.of_same h
  cases h with
  | nothing => exact hs
  | opened connectionId rid generation => exact hs.open connectionId rid generation
  | closed connection => exact hs.removeConnection connection.connectionId
  | bound h => exact (hs.bound h).1
  | restored binding h =>
    have ht : Indexed (s.adopt binding.bindingGeneration) :=
      hs.of_same { connections := rfl, places := rfl, index := rfl }
    exact ht.install (Indexed.Restores.displaces ht
      { unsealed := h.unsealed, connection := h.connection, locator := h.locator,
        same := h.same }) h.connection
  | unbound binding a ha hid hlocator => exact hs.unbound ha hid hlocator
  | admitted a | held a | startCleared a | drained a | delivered a | failed a =>
    exact hsame (.edit a rfl rfl rfl fun _ _ _ => rfl)
  | completed | ended | startedNothing | started | drainedNothing | sealedAll | releasedAll =>
    exact hsame { connections := rfl, places := rfl, index := rfl }
  | sealed actor affected =>
    cases affected with
    | none => exact hsame { connections := rfl, places := rfl, index := rfl }
    | some a => exact hsame (.edit a rfl rfl rfl fun _ _ _ => rfl)
  | committed token a next ha hbarrier h hkey hlocator =>
    exact hsame (.edit a rfl rfl rfl (place_setBinding hs ha hkey hlocator))
  | closedSeal => exact hs.closeSealed _
  | dropped =>
    refine hsame { connections := rfl, places := ?_, index := rfl }
    simp only [dropHeldRelays, List.map_map]
    rfl
  | forceClosed => exact Indexed.forceCloseAll

def Output.generation : Output → Option ℕ
  | .published binding _ => some binding.bindingGeneration
  | .restored binding => some binding.bindingGeneration
  | _ => none

def Output.counted : Output → Option ℕ
  | .restored binding =>
    if binding.bindingGeneration = uint64Max then none else some binding.bindingGeneration
  | output => output.generation

def Output.Newer (counts : Output → Option ℕ) (earlier later : Output) : Prop :=
  ∀ binding, later = .published binding true → ∀ generation, counts earlier = some generation →
    generation < binding.bindingGeneration

structure Advances (s t : Registry) (outputs : List Output) : Prop where
  mono : s.nextBindingGeneration ≤ t.nextBindingGeneration
  passed : ∀ output ∈ outputs, ∀ generation, output.counted = some generation →
    generation < t.nextBindingGeneration
  own : ∀ binding, .published binding true ∈ outputs →
    binding.bindingGeneration = s.nextBindingGeneration
  once : ∀ binding, .published binding true ∉ outputs.tail

theorem counted_settle {held : List Held} : ∀ output ∈ settle held, output.counted = none := by
  intro output houtput
  obtain ⟨relay, -, rfl⟩ := List.mem_map.mp houtput
  rfl

namespace Advances

theorem plain (hnext : t.nextBindingGeneration = s.nextBindingGeneration)
    (hplain : ∀ output ∈ outputs, output.counted = none) : Advances s t outputs where
  mono := hnext.ge
  passed := by
    intro output houtput generation hgeneration
    rw [hplain output houtput] at hgeneration
    cases hgeneration
  own := by
    intro binding hmem
    cases hplain _ hmem
  once := by
    intro binding hmem
    cases hplain _ (List.mem_of_mem_tail hmem)

theorem silent (hnext : t.nextBindingGeneration = s.nextBindingGeneration) : Advances s t [] := by
  apply plain hnext
  intro output houtput
  cases houtput

theorem published {binding : Binding} {own : Bool} {held : List Held}
    (hmono : s.nextBindingGeneration ≤ t.nextBindingGeneration)
    (hnext : binding.bindingGeneration < t.nextBindingGeneration)
    (hown : own = true → binding.bindingGeneration = s.nextBindingGeneration) :
    Advances s t (.published binding own :: settle held) where
  mono := hmono
  passed := by
    intro output houtput generation hgeneration
    rcases List.mem_cons.mp houtput with rfl | hsettled
    · exact Option.some.inj hgeneration ▸ hnext
    · rw [counted_settle output hsettled] at hgeneration
      cases hgeneration
  own := by
    intro other hmem
    rcases List.mem_cons.mp hmem with heq | hsettled
    · obtain ⟨rfl, rfl⟩ := Output.published.inj heq
      exact hown rfl
    · cases counted_settle _ hsettled
  once := by
    intro other hmem
    cases counted_settle _ hmem

end Advances

theorem lt_advance (s : Registry) (generation : ℕ) :
    s.nextBindingGeneration ≤ (s.advance generation).nextBindingGeneration ∧
      generation < (s.advance generation).nextBindingGeneration := by
  simp only [advance]
  split <;> omega

theorem install_nextBindingGeneration (s : Registry) (binding : Binding)
    (displaced : List Aggregate) :
    (s.install binding displaced).nextBindingGeneration = s.nextBindingGeneration := by
  rw [install_eq]

theorem rollback_nextBindingGeneration (s : Registry) (binding : Binding)
    (previous : Option Aggregate) :
    (s.rollback binding previous).nextBindingGeneration = s.nextBindingGeneration := by
  rw [Indexed.rollback_eq]

theorem Effect.advances (h : Effect s e t outputs) : Advances s t outputs := by
  cases h with
  | nothing | completed | ended | committed | startedNothing | startCleared | started
  | drainedNothing | drained | sealedAll | releasedAll => exact .silent rfl
  | opened | closed | unbound | closedSeal | dropped | failed | forceClosed =>
    exact .plain rfl counted_settle
  | bound h =>
    cases h with
    | refused => exact .silent rfl
    | installed binding own h =>
      obtain ⟨hmono, hlt⟩ := lt_advance s binding.bindingGeneration
      have hnext := install_nextBindingGeneration (s.advance binding.bindingGeneration)
        binding (s.displacedBy binding.connection binding.actor.key)
      exact .published (hmono.trans hnext.ge) (hlt.trans_eq hnext.symm) h.issued
    | takenBack binding own h =>
      obtain ⟨hmono, hlt⟩ := lt_advance s binding.bindingGeneration
      have hnext := (rollback_nextBindingGeneration _ binding
        (s.displacedBy binding.connection binding.actor.key).head?).trans
          (install_nextBindingGeneration (s.advance binding.bindingGeneration) binding
            (s.displacedBy binding.connection binding.actor.key))
      change Advances s _ (.published binding own :: settle [])
      exact .published (hmono.trans hnext.ge) (hlt.trans_eq hnext.symm) h.issued
  | restored binding h =>
    have hnext := install_nextBindingGeneration (s.adopt binding.bindingGeneration) binding []
    constructor
    · rw [hnext, adopt]
      simp only
      split <;> omega
    · intro output houtput generation hgeneration
      obtain rfl := List.mem_singleton.mp houtput
      rw [hnext, adopt]
      simp only [Output.counted] at hgeneration
      split at hgeneration
      · cases hgeneration
      · cases hgeneration
        simp only
        split <;> omega
    · intro other hmem
      cases List.mem_singleton.mp hmem
    · exact fun _ hmem => nomatch hmem
  | admitted | held | delivered =>
    exact .plain rfl (by simp [activate, Output.counted, Output.generation, hold])
  | sealed actor affected =>
    cases affected with
    | none | some => exact .silent rfl

/-- What holds of the registry and of all that its callers have seen. -/
structure Ordered (w : Recorded) : Prop where
  indexed : Indexed w.registry
  newer : w.log.Pairwise (Output.Newer Output.counted)
  passed : ∀ output ∈ w.log, ∀ generation, output.counted = some generation →
    generation < w.registry.nextBindingGeneration

theorem Recorded.step_eq {w v : Recorded} (h : w.step e = some v) :
    ∃ outputs, w.registry.turn e = some (v.registry, outputs) ∧ v.log = w.log ++ outputs := by
  obtain ⟨next, hnext, rfl⟩ := Option.map_eq_some_iff.mp h
  exact ⟨next.2, hnext, rfl⟩

theorem Advances.newer (h : Advances s t outputs) (counts : Output → Option ℕ) :
    outputs.Pairwise (Output.Newer counts) := by
  cases outputs with
  | nil => exact .nil
  | cons first rest =>
    have hrest : ∀ later ∈ rest, ∀ earlier, Output.Newer counts earlier later := by
      intro later hlater earlier binding heq
      exact absurd (heq ▸ hlater) (h.once binding)
    apply List.Pairwise.cons (fun later hlater => hrest later hlater first)
    exact List.pairwise_of_forall_mem_list fun earlier _ later hlater =>
      hrest later hlater earlier

theorem Ordered.step {w v : Recorded} (hw : Ordered w) (h : w.step e = some v) : Ordered v := by
  obtain ⟨outputs, hturn, hlog⟩ := Recorded.step_eq h
  have heffect := turn_effect hw.indexed hturn
  have hadvances := heffect.advances
  constructor
  · exact heffect.indexed hw.indexed
  · rw [hlog, List.pairwise_append]
    refine ⟨hw.newer, hadvances.newer Output.counted, ?_⟩
    rintro earlier hearlier later hlater binding rfl generation hgeneration
    rw [hadvances.own binding hlater]
    exact hw.passed earlier hearlier generation hgeneration
  · intro output houtput generation hgeneration
    rw [hlog] at houtput
    rcases List.mem_append.mp houtput with hold | hnew
    · exact (hw.passed output hold generation hgeneration).trans_le hadvances.mono
    · exact hadvances.passed output hnew generation hgeneration

theorem Indexed.init : Indexed Registry.init where
  connections := List.nodup_nil
  actors := List.nodup_nil
  index := List.nodup_nil
  placed := nofun
  mem_index := by
    intro actorId locator
    constructor
    · intro h
      cases h
    · rintro ⟨a, ha, -⟩
      cases ha

theorem Ordered.of_run {events : List Event} {w : Recorded}
    (hrun : Trace.run Recorded.step Recorded.init events = some w) : Ordered w := by
  have hinit : Ordered Recorded.init :=
    { indexed := .init, newer := .nil, passed := nofun }
  exact Trace.run_invariant (fun _ _ _ hw _ h => hw.step h) hinit
    (Trace.along_true Recorded.init events) hrun

/-- Every run keeps the index exact and issues growing generations, and a bind whose publication
fails has changed no entry of the registry. -/
theorem Recorded.run_indexed {events : List Event} {w : Recorded}
    (hrun : Trace.run Recorded.step Recorded.init events = some w) :
    Indexed w.registry ∧ w.log.Pairwise (Output.Newer Output.counted) ∧
      ∀ connection actor node lease publication generation, publication ≠ .none →
        Untouched w.registry (w.registry.bindRemote connection actor node lease publication
          generation).registry := by
  have hw := Ordered.of_run hrun
  refine ⟨hw.indexed, hw.newer, ?_⟩
  intro connection actor node lease publication generation hpublication
  exact (hw.indexed.bound (w.registry.bindRemote_outcome ..)).2 hpublication

def refusedPublication : List Event :=
  [.openNamed "client" none 0, .bind ⟨"client", 1, none, 0⟩ ⟨.actor, "a", 1, 1, "mesh", "node"⟩ 1 1
      (some ⟨.actor, "a", 1, 1, "mesh", "node"⟩),
    .bindRemote ⟨"client", 1, none, 0⟩ ⟨.actor, "b", 1, 1, "mesh", "node"⟩ 1 1 (.refused .moving) 0]

/-- A publication that is refused leaves the registry as it was. -/
theorem Recorded.run_indexed_refusedPublication :
    ∃ w, Trace.run Recorded.step Recorded.init refusedPublication = some w ∧
      Indexed w.registry ∧ w.log.Pairwise (Output.Newer Output.counted) ∧
        ∀ connection actor node lease publication generation, publication ≠ .none →
          Untouched w.registry (w.registry.bindRemote connection actor node lease publication
            generation).registry :=
  ⟨_, rfl, @Recorded.run_indexed refusedPublication _ rfl⟩

def restoredLargest : List Event :=
  [.openNamed "client" none 0,
    .restore ⟨⟨"client", 1, none, 0⟩, uint64Max, ⟨.actor, "a", 1, 1, "mesh", "node"⟩, 1, 1⟩,
    .bind ⟨"client", 1, none, 0⟩ ⟨.actor, "b", 1, 1, "mesh", "node"⟩ 1 1
      (some ⟨.actor, "b", 1, 1, "mesh", "node"⟩)]

/-- Behind a restored largest generation the next binding has none above it. -/
theorem Recorded.not_newer_than_restored :
    ¬ ∀ events w, Trace.run Recorded.step Recorded.init events = some w →
      w.log.Pairwise (Output.Newer Output.generation) := by
  intro h
  have hlog := List.pairwise_pair.mp (h restoredLargest _ rfl)
  have hlt : uint64Max < 1 := hlog _ rfl _ rfl
  exact absurd hlt (by decide)

end Zlink.Session
