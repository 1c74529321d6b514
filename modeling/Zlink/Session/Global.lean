import Zlink.Session.Generations

/-!
# The seal of all sessions

While all sessions are sealed no turn adds a binding or makes a dispatch active, but for the
turns of a drain: they do not look at the seal. `sparesHeld` says of such a turn that it finds
no held relay.
-/

namespace Zlink.Session

open Keyed Registry

def Registry.sparesHeld (s : Registry) : Event → Bool
  | .drainHeldRelays actorId token =>
    !s.allSealed || (s.sealedBy actorId token).all fun aggregate => aggregate.heldRelays = []
  | _ => true

/-- Between two states behind the seal of all sessions no binding has come and no dispatch has
become active; the callbacks have only seen relays that are settled. -/
structure Quiet (v w : Recorded) : Prop where
  allSealed : w.registry.allSealed = true
  active : ∀ d, (w.registry.drains d).active ⊆ (v.registry.drains d).active
  bindings : ∀ a ∈ w.registry.bindings, ∃ b ∈ v.registry.bindings,
    b.serial = a.serial ∧ b.place = a.place
  log : ∃ outputs, w.log = v.log ++ outputs ∧ ∀ output ∈ outputs, ∃ relay, output = .settled relay

variable {s t : Registry} {e : Event} {outputs : List Output}

theorem Quiet.rfl' {w : Recorded} (h : w.registry.allSealed = true) : Quiet w w where
  allSealed := h
  active := fun _ => Finset.Subset.refl _
  bindings := fun a ha => ⟨a, ha, rfl, rfl⟩
  log := ⟨[], (List.append_nil _).symm, by simp⟩

theorem Quiet.trans {u v w : Recorded} (h : Quiet u v) (h' : Quiet v w) : Quiet u w where
  allSealed := h'.allSealed
  active := fun d => (h'.active d).trans (h.active d)
  bindings := by
    intro a ha
    obtain ⟨b, hb, hserial, hplace⟩ := h'.bindings a ha
    obtain ⟨c, hc, hserial', hplace'⟩ := h.bindings b hb
    exact ⟨c, hc, hserial'.trans hserial, hplace'.trans hplace⟩
  log := by
    obtain ⟨xs, hxs, hsettled⟩ := h.log
    obtain ⟨ys, hys, hsettled'⟩ := h'.log
    refine ⟨xs ++ ys, by rw [hys, hxs, List.append_assoc], ?_⟩
    intro output houtput
    exact (List.mem_append.mp houtput).elim (hsettled output) (hsettled' output)

structure Shrinks (s t : Registry) (outputs : List Output) : Prop where
  allSealed : t.allSealed = true
  active : ∀ d, (t.drains d).active ⊆ (s.drains d).active
  bindings : ∀ a ∈ t.bindings, ∃ b ∈ s.bindings, b.serial = a.serial ∧ b.place = a.place
  outputs : ∀ output ∈ outputs, ∃ relay, output = .settled relay

theorem mem_settle {held : List Held} : ∀ output ∈ settle held, ∃ relay, output = .settled relay := by
  intro output houtput
  obtain ⟨relay, -, rfl⟩ := List.mem_map.mp houtput
  exact ⟨relay.relay, rfl⟩

namespace Shrinks

theorem removed {held : List Held} (hsealed : t.allSealed = true)
    (hactive : ∀ d, (t.drains d).active = (s.drains d).active)
    (hbindings : t.bindings.Sublist s.bindings) : Shrinks s t (settle held) where
  allSealed := hsealed
  active := fun d => (hactive d).subset
  bindings := fun a ha => ⟨a, hbindings.subset ha, rfl, rfl⟩
  outputs := mem_settle

theorem edited {held : List Held} (a : Aggregate) {f : Aggregate → Aggregate}
    (hsealed : t.allSealed = true) (hdrains : t.drains = s.drains)
    (hbindings : t.bindings = Keyed.modify Aggregate.key a.key f s.bindings)
    (hf : ∀ b ∈ s.bindings, b.key = a.key → (f b).serial = b.serial ∧ (f b).place = b.place) :
    Shrinks s t (settle held) where
  allSealed := hsealed
  active := by
    rw [hdrains]
    exact fun d => Finset.Subset.refl _
  bindings := by
    intro c hc
    rw [hbindings] at hc
    rcases mem_modify hc with ⟨hc, -⟩ | ⟨b, hb, hkey, rfl⟩
    · exact ⟨c, hc, rfl, rfl⟩
    · obtain ⟨hserial, hplace⟩ := hf b hb hkey
      exact ⟨b, hb, hserial.symm, hplace.symm⟩
  outputs := mem_settle

end Shrinks

theorem Effect.shrinks (hs : Indexed s) (hsealed : s.allSealed = true)
    (hspares : s.sparesHeld e = true) (hevent : e ≠ .releaseAll) (h : Effect s e t outputs) :
    Shrinks s t outputs := by
  have hunsealed {p : Prop} (h : s.allSealed = false) : p :=
    absurd (hsealed.symm.trans h) nofun
  have hrefl {t : Registry} (hsealed : t.allSealed = true) (hdrains : t.drains = s.drains)
      (hbindings : t.bindings.Sublist s.bindings) : Shrinks s t (settle []) :=
    .removed hsealed (fun d => by rw [hdrains]) hbindings
  have hedited {t : Registry} (a : Aggregate) {f : Aggregate → Aggregate}
      (hsealed : t.allSealed = true) (hdrains : t.drains = s.drains)
      (hbindings : t.bindings = Keyed.modify Aggregate.key a.key f s.bindings)
      (hf : ∀ b ∈ s.bindings, b.key = a.key →
        (f b).serial = b.serial ∧ (f b).place = b.place) : Shrinks s t (settle []) :=
    .edited a hsealed hdrains hbindings hf
  have hsame := List.Sublist.refl s.bindings
  cases h with
  | nothing | ended | startedNothing | started | drainedNothing => exact hrefl hsealed rfl hsame
  | opened | closed | unbound | closedSeal =>
    exact .removed hsealed (active_refuseCompletions s _) List.filter_sublist
  | bound h =>
    cases h with
    | refused => exact hrefl hsealed rfl hsame
    | installed _ _ h | takenBack _ _ h => exact hunsealed h.unsealed
  | restored binding h => exact hunsealed h.unsealed
  | admitted _ _ _ hopen | held _ _ _ _ hopen => exact hunsealed hopen
  | completed dispatch =>
    constructor
    · exact hsealed
    · intro d
      simp only [setDrain]
      split
      · exact Finset.erase_subset _ _
      · exact Finset.Subset.refl _
    · exact fun a ha => ⟨a, ha, rfl, rfl⟩
    · exact @mem_settle []
  | sealed actor affected =>
    cases affected with
    | none => exact hrefl hsealed rfl hsame
    | some a => exact hedited a hsealed rfl rfl fun _ _ _ => ⟨rfl, rfl⟩
  | committed token a next ha hbarrier h hkey hlocator =>
    exact hedited a hsealed rfl rfl fun b hb hkeys =>
      ⟨rfl, place_setBinding hs ha hkey hlocator b hb hkeys⟩
  | dropped =>
    constructor
    · exact hsealed
    · exact fun d => Finset.Subset.refl _
    · intro a ha
      obtain ⟨b, hb, rfl⟩ := List.mem_map.mp ha
      exact ⟨b, hb, rfl, rfl⟩
    · exact mem_settle
  | startCleared a | drained a => exact hedited a hsealed rfl rfl fun _ _ _ => ⟨rfl, rfl⟩
  | delivered a token next rest hdrain ha hbarrier hheld =>
    have hnone := hspares
    rw [sparesHeld, sealedBy_eq hs ha hbarrier, hsealed, Option.all_some, hheld] at hnone
    cases hnone
  | failed a => exact .edited a hsealed rfl rfl fun _ _ _ => ⟨rfl, rfl⟩
  | sealedAll => exact hrefl rfl rfl hsame
  | releasedAll => exact absurd rfl hevent
  | forceClosed =>
    exact .removed rfl (active_refuseCompletions s _) (List.nil_sublist _)

theorem Quiet.step {v w : Recorded} (hv : Indexed v.registry)
    (hsealed : v.registry.allSealed = true) (hspares : v.registry.sparesHeld e = true)
    (hevent : e ≠ .releaseAll) (h : v.step e = some w) : Quiet v w := by
  obtain ⟨outputs, hturn, hlog⟩ := Recorded.step_eq h
  have hshrinks := (turn_effect hv hturn).shrinks hv hsealed hspares hevent
  exact { hshrinks with log := ⟨outputs, hlog, hshrinks.outputs⟩ }

theorem Quiet.run {events : List Event} {v w : Recorded} (hv : Indexed v.registry)
    (hsealed : v.registry.allSealed = true)
    (hspares : Trace.Along Recorded.step (fun w e => w.registry.sparesHeld e = true) v events)
    (hkept : ∀ e ∈ events, e ≠ .releaseAll) (hrun : Trace.run Recorded.step v events = some w) :
    Quiet v w := by
  induction events generalizing v with
  | nil =>
    cases hrun
    exact .rfl' hsealed
  | cons e events ih =>
    obtain ⟨u, hu, hrest⟩ := Option.bind_eq_some_iff.mp hrun
    have hstep := Quiet.step hv hsealed hspares.1 (hkept e List.mem_cons_self) hu
    obtain ⟨outputs, hturn, -⟩ := Recorded.step_eq hu
    exact hstep.trans (ih ((turn_effect hv hturn).indexed hv) hstep.allSealed
      (hspares.2 u hu) (fun e he => hkept e (List.mem_cons_of_mem _ he)) hrest)

theorem trySealAll_allSealed (s : Registry) (h : s.trySealAll.answer = true) :
    s.trySealAll.registry.allSealed = true := by
  unfold trySealAll at h ⊢
  split
  · rename_i hsealed
    exact hsealed
  · rename_i hsealed
    split
    · rfl
    · rename_i hidle
      rw [if_neg hsealed, if_neg hidle] at h
      cases h

/-- Between the turn that seals all sessions and their release no binding comes and no dispatch
becomes active, if no turn of a drain takes a held relay meanwhile. -/
theorem Recorded.run_quiet {before between after : List Event} {u v w : Recorded}
    (hbefore : Trace.run Recorded.step Recorded.init before = some u)
    (hanswer : u.registry.trySealAll.answer = true)
    (hbetween : Trace.run Recorded.step u (.trySealAll :: between) = some v)
    (hafter : Trace.run Recorded.step v after = some w)
    (hkept : ∀ e ∈ between ++ after, e ≠ .releaseAll)
    (hspares : Trace.Along Recorded.step (fun w e => w.registry.sparesHeld e = true) u
      (.trySealAll :: between ++ after)) : Quiet v w := by
  have hu := (Ordered.of_run hbefore).indexed
  obtain ⟨x, hx, hrest⟩ := Option.bind_eq_some_iff.mp hbetween
  obtain ⟨outputs, hturn, -⟩ := Recorded.step_eq hx
  have hsealed : x.registry.allSealed = true := by
    have hregistry : u.registry.trySealAll.registry = x.registry :=
      congrArg Prod.fst (Option.some.inj hturn)
    rw [← hregistry]
    exact trySealAll_allSealed u.registry hanswer
  have hindexed := (turn_effect hu hturn).indexed hu
  have hquiet := Quiet.run hindexed hsealed ((hspares.2 x hx).of_append)
    (fun e he => hkept e (List.mem_append_left _ he)) hrest
  have hv : Indexed v.registry := by
    have hrun : Trace.run Recorded.step Recorded.init (before ++ .trySealAll :: between) =
        some v := (Trace.run_append hbefore).trans hbetween
    exact (Ordered.of_run hrun).indexed
  exact Quiet.run hv hquiet.allSealed (hspares.after hbetween)
    (fun e he => hkept e (List.mem_append_right _ he)) hafter

def boundActor : List Event :=
  [.openNamed "client" none 0, .bind ⟨"client", 1, none, 0⟩ ⟨.actor, "a", 1, 1, "mesh", "node"⟩ 1 1
      (some ⟨.actor, "a", 1, 1, "mesh", "node"⟩)]

theorem Recorded.run_quiet_boundActor :
    ∃ u v w, Trace.run Recorded.step Recorded.init boundActor = some u ∧
      Trace.run Recorded.step u [.trySealAll, .attemptInbound "client" 1 "a" 1 true] = some v ∧
      Trace.run Recorded.step v [.openNamed "client" none 0] = some w ∧ Quiet v w := by
  refine ⟨_, _, _, rfl, rfl, rfl, ?_⟩
  apply @Recorded.run_quiet boundActor [.attemptInbound "client" 1 "a" 1 true]
    [.openNamed "client" none 0] _ _ _ rfl rfl rfl rfl
  · simp
  · refine ⟨rfl, fun _ h => ?_⟩
    cases h
    refine ⟨rfl, fun _ h => ?_⟩
    cases h
    exact ⟨rfl, fun _ _ => trivial⟩

def drainedBehindSeal : List Event :=
  boundActor ++
    [.trySealActor ⟨.actor, "a", 1, 1, "mesh", "node"⟩, .attemptInbound "client" 1 "a" 1 true,
      .abortBarrier 1 ⟨.actor, "a", 1, 1, "mesh", "node"⟩,
      .startHeldRelayDrain "a"]

/-- A relay that was held before the global seal is drained behind it. -/
theorem Recorded.delivered_behind_seal : ¬ ∀ before between after u v w,
      Trace.run Recorded.step Recorded.init before = some u → u.registry.trySealAll.answer = true →
      Trace.run Recorded.step u (.trySealAll :: between) = some v →
      Trace.run Recorded.step v after = some w →
      (∀ e ∈ between ++ after, e ≠ .releaseAll) → Quiet v w := by
  intro h
  have hquiet := h drainedBehindSeal [] [.drainHeldRelays "a" 1] _ _ _ rfl rfl rfl rfl (by simp)
  have hactive := hquiet.active 0 (Finset.mem_insert_self (1, 1) ∅)
  exact Finset.notMem_empty (1, 1) hactive

end Zlink.Session
