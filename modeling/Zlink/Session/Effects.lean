import Zlink.Session.Index

/-!
# What a turn does

`Effect` lists what the turns of the registry do, with what they have found before. Every
later invariant is proved of an effect.
-/

namespace Zlink.Session

open Keyed

namespace Registry

variable (s : Registry)

def unindexBinding (binding : Binding) : Registry :=
  { s with
    actorBindings := s.actorBindings.filter fun entry =>
      !(entry.1 == binding.actor.key && entry.2 == binding.locator) }

def closeAll (connectionId : String) : Registry :=
  ((s.refuseCompletions (s.bindingsOf connectionId)).unindex
    (s.bindingsOf connectionId)).removeConnection connectionId

def closeSealed (connectionId : String) : Registry :=
  let closed := s.bindingsOf connectionId
  let actors := closed.map Aggregate.actorId
  let s := (s.refuseCompletions closed).removeConnection connectionId
  { s with
    actorBindings := s.actorBindings.filter fun entry => entry.1 ∉ actors
    barriers := s.barriers.filter fun entry => entry.2.key ∉ actors }

def setBinding (aggregate : Aggregate) (binding : Binding) : Registry :=
  s.modify aggregate.key fun a => { a with binding }

def startTaken (actorId : String) : Registry :=
  { s with starting := s.starting.erase actorId }

def drainTaken (actorId : String) (token : ℕ) : Registry :=
  { s with draining := s.draining.erase (actorId, token) }

def deliver (s : Registry) (aggregate : Aggregate) (next : Held) (rest : List Held) : Registry :=
  (s.modify aggregate.key fun a => { a with heldRelays := rest }).setDrain
    aggregate.ingressDrain fun drain =>
      { drain with
        active := insert (aggregate.binding.bindingGeneration, next.dispatch.inboundSequence)
          drain.active }

theorem active_refuseCompletions (aggregates : List Aggregate) (d : ℕ) :
    ((s.refuseCompletions aggregates).drains d).active = (s.drains d).active := by
  simp only [refuseCompletions]
  split <;> rfl

def giveUp (aggregate : Aggregate) : Registry :=
  s.modify aggregate.key fun a => { a with heldRelays := [], barrierToken := none }

def adopts : Event → Option (Locator × String)
  | .bindRemote connection actor node lease publication generation =>
    if generation ≠ 0 ∧
        (s.bindRemote connection actor node lease publication generation).answer.isOk then
      some ({ connection, bindingGeneration := generation }, actor.key)
    else none
  | .restore binding =>
    if (s.restore binding).answer.isOk then some (binding.locator, binding.actor.key) else none
  | _ => none

variable {binding : Binding}

theorem adopts_restore {s : Registry} (h : Restores s binding) :
    s.adopts (.restore binding) = some (binding.locator, binding.actor.key) := by
  have hlocator : ¬ (s.locator binding.actor.key).any fun locator => locator ≠ binding.locator := by
    rw [Option.any_eq_true]
    rintro ⟨locator, hfound, hne⟩
    exact of_decide_eq_true hne (h.locator locator hfound)
  have hlocal : ¬ (s.aggregate binding.connection.connectionId binding.actor.key).any
      fun local' => local'.binding ≠ binding ∨ local'.barrierToken.isSome := by
    rw [Option.any_eq_true]
    rintro ⟨a, hfound, hne⟩
    obtain ⟨hsame, hnone⟩ := h.same a hfound
    rw [hsame, hnone] at hne
    simp at hne
  have hok : (s.restore binding).answer = .ok () := by
    rw [restore, h.unsealed, if_neg Bool.false_ne_true, if_neg (not_not.mpr h.connection),
      if_neg hlocator, if_neg hlocal]
  rw [adopts, hok]
  rfl

theorem bindVerified_given (connection : Connection) (actor : ObjectRef)
    (node lease generation : ℕ) (h : .published binding false ∈
      (s.bindVerified connection actor node lease .none generation).outputs) :
    generation ≠ 0 ∧ binding.locator = { connection, bindingGeneration := generation } ∧
      binding.actor = actor ∧
        (s.bindVerified connection actor node lease .none generation).answer.isOk := by
  rw [bindVerified] at h ⊢
  split at h
  · cases h
  rename_i hsealed
  split at h
  · cases h
  rename_i hconnection
  split at h
  · cases h
  rename_i hbarrier
  split at h
  · cases h
  rename_i hcurrent
  split at h
  · cases h
  rename_i hbounds
  rw [if_neg hsealed, if_neg hconnection, if_neg hbarrier, if_neg hcurrent, if_neg hbounds]
  rcases List.mem_cons.mp h with heq | hsettled
  · obtain ⟨rfl, hown⟩ := Output.published.inj heq
    have hne : generation ≠ 0 := of_decide_eq_false hown.symm
    refine ⟨hne, ?_, rfl, rfl⟩
    simp only [Binding.locator, if_pos hne]
  · obtain ⟨relay, -, hrelay⟩ := List.mem_map.mp hsettled
    cases hrelay

theorem bind_given (connection : Connection) (actor : ObjectRef)
    (node lease : ℕ) (authority : Option ObjectRef) (binding : Binding) :
    .published binding false ∉ (s.bind connection actor node lease authority).outputs := by
  intro h
  unfold bind at h
  split at h
  · cases h
  · split at h
    · exact absurd rfl (s.bindVerified_given _ _ _ _ _ h).1
    · cases h

theorem bindRemote_given (connection : Connection) (actor : ObjectRef)
    (node lease generation : ℕ) (h : .published binding false ∈
      (s.bindRemote connection actor node lease .none generation).outputs) :
    s.adopts (.bindRemote connection actor node lease .none generation) =
      some (binding.locator, binding.actor.key) := by
  unfold bindRemote at h
  split at h
  · cases h
  rename_i hvalid
  obtain ⟨hne, hlocator, hactor, hok⟩ := s.bindVerified_given _ _ _ _ _ h
  rw [adopts, bindRemote, if_neg hvalid, if_pos ⟨hne, hok⟩, hlocator, hactor]

end Registry

open Registry

inductive Effect (s : Registry) : Event → Registry → List Output → Prop
  | nothing {e : Event} : Effect s e s []
  | opened (connectionId : String) (rid : Option (List UInt8)) (generation : ℕ) :
      Effect s (.openNamed connectionId rid generation)
        (s.open connectionId rid generation).registry (settle (heldBy (s.bindingsOf connectionId)))
  | closed (connection : Connection) :
      Effect s (.close connection) (s.closeAll connection.connectionId)
        (settle (heldBy (s.bindingsOf connection.connectionId)))
  | bound {e : Event} {publication : Publication} {t : Registry} {outputs : List Output}
      (h : BindOutcome s publication t outputs)
      (hgiven : ∀ binding, publication = .none → .published binding false ∈ outputs →
        s.adopts e = some (binding.locator, binding.actor.key)) : Effect s e t outputs
  | restored (binding : Binding) (h : Restores s binding) :
      Effect s (.restore binding) ((s.adopt binding.bindingGeneration).install binding [])
        [.restored binding]
  | unbound (binding : Binding) (a : Aggregate) (ha : a ∈ s.bindings)
      (hid : a.actorId = binding.actor.key) (hlocator : a.binding.locator = binding.locator) :
      Effect s (.unbind binding)
        (((s.refuseCompletions [a]).erase a.key).unindexBinding binding) (settle a.heldRelays)
  | admitted {e : Event} (a : Aggregate) (ha : a ∈ s.bindings) (hbarrier : a.barrierToken = none)
      (hopen : s.allSealed = false) : Effect s e (s.activate a).registry (s.activate a).outputs
  | held {e : Event} (a : Aggregate) (token : ℕ) (ha : a ∈ s.bindings)
      (hbarrier : a.barrierToken = some token) (hopen : s.allSealed = false) :
      Effect s e (s.hold a).registry (s.hold a).outputs
  | completed (dispatch : Dispatch) : Effect s (.completeInbound dispatch)
        (s.setDrain dispatch.drain fun drain =>
          { drain with
            active := drain.active.erase
              (dispatch.binding.bindingGeneration, dispatch.inboundSequence) }) []
  | sealed {e : Event} (actor : ObjectRef) (affected : Option Aggregate)
      (ha : ∀ a ∈ affected, a ∈ s.bindings ∧ a.barrierToken = none ∧
        exactActor a.binding.actor actor)
      (hnext : s.nextBarrierToken ≠ 0) : Effect s e (s.sealWith actor affected) []
  | ended {e : Event} (token : ℕ) (actor : ObjectRef) (h : s.outstanding token actor) :
      Effect s e (s.endBarrier token actor.key) []
  | committed {e : Event} (token : ℕ) (a : Aggregate) (next : Binding) (ha : a ∈ s.bindings)
      (hbarrier : a.barrierToken = some token) (h : s.outstanding token a.binding.actor)
      (hkey : next.actor.key = a.binding.actor.key) (hlocator : next.locator = a.binding.locator)
      (hidle : s.idle a ∨
        ∃ actor target, e = .commitBarrier token actor target ∧ actor.key = a.actorId)
      (htoken : ∀ other actor target, e = .commitBarrier other actor target → other = token) :
      Effect s e ((s.setBinding a next).endBarrier token a.actorId) []
  | closedSeal (token : ℕ) (actor : ObjectRef) (a : Aggregate) (ha : a ∈ s.bindings)
      (hbarrier : a.barrierToken = some token) (h : s.outstanding token actor) :
      Effect s (.closeRemoteRouteSeal token actor) (s.closeSealed a.connectionId)
        (settle (heldBy (s.bindingsOf a.connectionId)))
  | dropped : Effect s .dropHeldRelays s.dropHeldRelays.registry s.dropHeldRelays.outputs
  | startedNothing (actorId : String) (hstart : actorId ∈ s.starting)
      (hnone : ∀ a ∈ s.bindings, a.actorId = actorId → a.barrierToken = none) :
      Effect s (.startHeldRelayDrain actorId) (s.startTaken actorId) []
  | startCleared (a : Aggregate) (hstart : a.actorId ∈ s.starting) (ha : a ∈ s.bindings)
      (hbarrier : a.barrierToken.isSome) (hheld : a.heldRelays = []) :
      Effect s (.startHeldRelayDrain a.actorId) ((s.startTaken a.actorId).clearSeal a) []
  | started (a : Aggregate) (token : ℕ) (hstart : a.actorId ∈ s.starting) (ha : a ∈ s.bindings)
      (hbarrier : a.barrierToken = some token) (hheld : a.heldRelays ≠ []) :
      Effect s (.startHeldRelayDrain a.actorId)
        { s.startTaken a.actorId with draining := (a.actorId, token) :: s.draining } []
  | drainedNothing {e : Event} (actorId : String) (token : ℕ)
      (hdrain : (actorId, token) ∈ s.draining)
      (he : e = .drainHeldRelays actorId token ∨ e = .drainFails actorId token)
      (hnone : ∀ a ∈ s.bindings, a.actorId = actorId → a.barrierToken ≠ some token) :
      Effect s e (s.drainTaken actorId token) []
  | drained (a : Aggregate) (token : ℕ) (hdrain : (a.actorId, token) ∈ s.draining)
      (ha : a ∈ s.bindings) (hbarrier : a.barrierToken = some token) (hheld : a.heldRelays = []) :
      Effect s (.drainHeldRelays a.actorId token) ((s.drainTaken a.actorId token).clearSeal a) []
  | delivered (a : Aggregate) (token : ℕ) (next : Held) (rest : List Held)
      (hdrain : (a.actorId, token) ∈ s.draining) (ha : a ∈ s.bindings)
      (hbarrier : a.barrierToken = some token) (hheld : a.heldRelays = next :: rest) :
      Effect s (.drainHeldRelays a.actorId token) (s.deliver a next rest)
        [.delivered { next.dispatch with binding := a.binding } next.relay]
  | failed (a : Aggregate) (token : ℕ) (hdrain : (a.actorId, token) ∈ s.draining)
      (ha : a ∈ s.bindings) (hbarrier : a.barrierToken = some token) :
      Effect s (.drainFails a.actorId token) ((s.drainTaken a.actorId token).giveUp a)
        (settle a.heldRelays)
  | sealedAll (hidle : ∀ a ∈ s.bindings, s.idle a) :
      Effect s .trySealAll { s with allSealed := true } []
  | releasedAll : Effect s .releaseAll s.releaseAll []
  | forceClosed : Effect s .forceCloseAll s.forceCloseAll.registry s.forceCloseAll.outputs

namespace Effect

variable {s t : Registry} {outputs : List Output}

variable {actorId : String} {a : Aggregate}

theorem mem_current (hs : Indexed s)
    (h : s.currentAggregate actorId = some a) : a ∈ s.bindings ∧ a.actorId = actorId := by
  rw [hs.currentAggregate_eq] at h
  exact mem_of_find h

theorem not_current (hs : Indexed s) (h : s.currentAggregate actorId = none) :
    ∀ a ∈ s.bindings, a.actorId ≠ actorId := by
  intro a ha hid
  rw [hs.currentAggregate_eq] at h
  exact not_mem_of_find h (List.mem_map.mpr ⟨a, ha, hid⟩)

theorem mem_currentOn (hs : Indexed s) {connectionId : String} {generation : ℕ}
    (h : s.currentOn connectionId generation actorId = some a) :
    a ∈ s.bindings ∧ a.actorId = actorId :=
  mem_current hs (Option.filter_eq_some_iff.mp h).1

theorem exactActor_eq {left right : ObjectRef} (h : exactActor left right) : left = right := by
  simp only [exactActor, Bool.and_eq_true, beq_iff_eq] at h
  exact h.2

theorem close (s : Registry) (connection : Connection) :
    Effect s (.close connection) (s.close connection).registry (s.close connection).outputs := by
  unfold Registry.close
  split
  · exact .closed connection
  · exact .nothing

theorem restore (s : Registry) (binding : Binding) :
    Effect s (.restore binding) (s.restore binding).registry (s.restore binding).outputs := by
  rcases s.restore_cases binding with ⟨hregistry, houtputs⟩ | ⟨h, hregistry, houtputs⟩
  · rw [hregistry, houtputs]
    exact .nothing
  · rw [hregistry, houtputs]
    exact .restored binding h

theorem unbind (hs : Indexed s) (binding : Binding) :
    Effect s (.unbind binding) (s.unbind binding).registry (s.unbind binding).outputs := by
  simp only [Registry.unbind]
  split
  · exact .nothing
  rename_i hconnection
  split
  · exact .nothing
  rename_i a hfound
  rw [Option.filter_eq_some_iff, decide_eq_true_eq] at hfound
  obtain ⟨haggregate, hgeneration, -⟩ := hfound
  obtain ⟨ha, -, hid⟩ := Indexed.mem_of_aggregate haggregate
  have hlocator : a.binding.locator = binding.locator := by
    rw [Binding.locator, hs.connection_of_key haggregate (not_not.mp hconnection), hgeneration]
    rfl
  exact .unbound binding a ha hid hlocator

theorem admitInbound (s : Registry) (binding : Binding) :
    Effect s (.admitInbound binding) (s.admitInbound binding).registry
      (s.admitInbound binding).outputs := by
  simp only [Registry.admitInbound]
  split
  · exact .nothing
  rename_i hopen
  split
  · exact .nothing
  split
  · exact .nothing
  rename_i a hfound
  split
  · exact .nothing
  rename_i hbarrier
  split
  · exact .nothing
  have ha := (Indexed.mem_of_aggregate (Option.filter_eq_some_iff.mp hfound).1).1
  exact .admitted a ha (Option.not_isSome_iff_eq_none.mp hbarrier)
    (Bool.eq_false_of_not_eq_true hopen)

theorem attemptInbound (hs : Indexed s) (connectionId : String) (generation : ℕ)
    (actorId : String) (sequence : ℕ) (retain : Bool) :
    Effect s (.attemptInbound connectionId generation actorId sequence retain)
      (s.attemptInbound connectionId generation actorId sequence retain).registry
      (s.attemptInbound connectionId generation actorId sequence retain).outputs := by
  unfold Registry.attemptInbound
  split
  · exact .nothing
  split
  · exact .nothing
  rename_i a hfound
  have ha := (mem_currentOn hs hfound).1
  split
  · exact .nothing
  rename_i hopen
  have hclosed := Bool.eq_false_of_not_eq_true hopen
  split
  · rename_i hbarrier
    split
    · obtain ⟨token, htoken⟩ := Option.isSome_iff_exists.mp hbarrier
      exact .held a token ha htoken hclosed
    · exact .nothing
  rename_i hbarrier
  split
  · exact .nothing
  split
  · exact .admitted a ha (Option.not_isSome_iff_eq_none.mp hbarrier) hclosed
  · exact .nothing

theorem completeInbound (s : Registry) (dispatch : Dispatch) :
    Effect s (.completeInbound dispatch) (s.completeInbound dispatch).registry
      (s.completeInbound dispatch).outputs := by
  simp only [Registry.completeInbound]
  split
  · exact .nothing
  split
  · exact .completed dispatch
  · exact .nothing

theorem trySealActor (hs : Indexed s) (actor : ObjectRef) :
    Effect s (.trySealActor actor) (s.trySealActor actor).registry
      (s.trySealActor actor).outputs := by
  simp only [Registry.trySealActor]
  split
  · exact .nothing
  split
  · exact .nothing
  rename_i hbarrier
  split
  · exact .nothing
  split
  · exact .nothing
  rename_i hnext
  apply Effect.sealed
  · intro a ha
    rw [Option.mem_def.mp ha, Option.any_some] at hbarrier
    obtain ⟨hcurrent, hactor⟩ := Option.filter_eq_some_iff.mp ha
    exact ⟨(mem_current hs hcurrent).1, Option.not_isSome_iff_eq_none.mp hbarrier, hactor⟩
  · exact hnext

theorem sealRemoteRoute (hs : Indexed s) (connectionId : String) (generation : ℕ)
    (actorId : String) (object lease : ℕ) :
    Effect s (.sealRemoteRoute connectionId generation actorId object lease)
      (s.sealRemoteRoute connectionId generation actorId object lease).registry
      (s.sealRemoteRoute connectionId generation actorId object lease).outputs := by
  unfold Registry.sealRemoteRoute
  split
  · exact .nothing
  rename_i a hfound
  split
  · exact .nothing
  split
  · exact .nothing
  rename_i hguards
  simp only [not_or, not_not] at hguards
  obtain ⟨hkind, -, -, -, hbarrier, hnext⟩ := hguards
  change Effect s _ (s.sealWith a.binding.actor (some a)) []
  apply Effect.sealed
  · rintro b hb
    obtain rfl := Option.some.inj hb
    refine ⟨(mem_current hs hfound).1, Option.not_isSome_iff_eq_none.mp hbarrier, ?_⟩
    simp [exactActor, hkind]
  · exact hnext

theorem abortBarrier (s : Registry) (token : ℕ) (actor : ObjectRef) :
    Effect s (.abortBarrier token actor) (s.abortBarrier token actor).registry
      (s.abortBarrier token actor).outputs := by
  unfold Registry.abortBarrier
  split
  · rename_i h
    exact .ended token actor h
  · exact .nothing

theorem modify_congr (hs : Indexed s) (ha : a ∈ s.bindings)
    {f g : Aggregate → Aggregate} (h : f a = g a) : s.modify a.key f = s.modify a.key g := by
  have hbindings : Keyed.modify Aggregate.key a.key f s.bindings =
      Keyed.modify Aggregate.key a.key g s.bindings := by
    apply List.map_congr_left
    intro b hb
    split
    · rename_i hkey
      rw [hs.eq_of_actorId hb ha (congrArg Prod.snd hkey), h]
    · rfl
  rw [Registry.modify, Registry.modify, hbindings]

theorem commitBarrier (hs : Indexed s) (token : ℕ) (actor target : ObjectRef) :
    Effect s (.commitBarrier token actor target) (s.commitBarrier token actor target).registry
      (s.commitBarrier token actor target).outputs := by
  unfold Registry.commitBarrier
  split
  · exact .nothing
  rename_i hguards
  simp only [not_or, not_not, Bool.not_eq_true', Bool.not_eq_false] at hguards
  obtain ⟨houtstanding, -, hkey, -⟩ := hguards
  split
  · exact .ended token actor houtstanding
  rename_i a hfound
  obtain ⟨ha, hid⟩ := mem_current hs hfound
  split
  · exact .nothing
  rename_i hsealed
  simp only [not_or, not_not, Bool.not_eq_true', Bool.not_eq_false] at hsealed
  obtain ⟨hbarrier, hexact⟩ := hsealed
  have hactor := exactActor_eq hexact
  have hnext : (s.modify a.key fun b => { b with binding := { b.binding with actor := target } }) =
      s.setBinding a { a.binding with actor := target } := modify_congr hs ha rfl
  simp only [hnext, ← hid]
  exact .committed token a _ ha hbarrier (hactor ▸ houtstanding)
    (hkey.trans (congrArg ObjectRef.key hactor.symm)) rfl (.inr ⟨actor, target, rfl, hid.symm⟩)
    fun _ _ _ heq => (Event.commitBarrier.inj heq).1.symm

variable {token : ℕ}

theorem of_routeBarrier {object : ℕ} (h : s.routeBarrier a object = some token) :
    a.barrierToken = some token ∧ s.outstanding token a.binding.actor := by
  obtain ⟨hbarrier, hguards⟩ := Option.filter_eq_some_iff.mp h
  rw [decide_eq_true_eq] at hguards
  exact ⟨hbarrier, hguards.2.2⟩

theorem commitRemoteRoute (hs : Indexed s) (connectionId : String) (generation : ℕ)
    (actorId : String) (object : ℕ) (target : ObjectRef) (node lease : ℕ) :
    Effect s (.commitRemoteRoute connectionId generation actorId object target node lease)
      (s.commitRemoteRoute connectionId generation actorId object target node lease).registry
      (s.commitRemoteRoute connectionId generation actorId object target node lease).outputs := by
  unfold Registry.commitRemoteRoute
  split
  · exact .nothing
  rename_i a hfound
  obtain ⟨ha, hid⟩ := mem_currentOn hs hfound
  split
  · exact .nothing
  rename_i token htoken
  obtain ⟨hbarrier, houtstanding⟩ := of_routeBarrier htoken
  split
  · exact .nothing
  rename_i hguards
  simp only [not_or, not_not, Bool.not_eq_true', Bool.not_eq_false] at hguards
  obtain ⟨-, hkey, -, -, -, hidle⟩ := hguards
  rw [← hid]
  exact .committed token a _ ha hbarrier houtstanding
    ((hkey.trans hid.symm).trans (hs.actorId_eq ha)) rfl (.inl hidle) nofun

theorem acknowledgeRemoteAbort (hs : Indexed s) (connectionId : String) (generation : ℕ)
    (actorId : String) (object : ℕ) :
    Effect s (.acknowledgeRemoteAbort connectionId generation actorId object)
      (s.acknowledgeRemoteAbort connectionId generation actorId object).registry
      (s.acknowledgeRemoteAbort connectionId generation actorId object).outputs := by
  unfold Registry.acknowledgeRemoteAbort
  split
  · exact .nothing
  rename_i a hfound
  obtain ⟨ha, hid⟩ := mem_currentOn hs hfound
  split
  · exact .nothing
  rename_i token htoken
  rw [← hid, hs.actorId_eq ha]
  exact .ended token a.binding.actor (of_routeBarrier htoken).2

theorem closeRemoteRouteSeal (hs : Indexed s) (token : ℕ) (actor : ObjectRef) :
    Effect s (.closeRemoteRouteSeal token actor) (s.closeRemoteRouteSeal token actor).registry
      (s.closeRemoteRouteSeal token actor).outputs := by
  simp only [Registry.closeRemoteRouteSeal]
  split
  · exact .nothing
  rename_i a hfound
  obtain ⟨hcurrent, hguards⟩ := Option.filter_eq_some_iff.mp hfound
  rw [decide_eq_true_eq] at hguards
  obtain ⟨houtstanding, hbarrier, -⟩ := hguards
  have ha := (mem_current hs hcurrent).1
  rw [← hs.connectionId_eq ha]
  exact .closedSeal token actor a ha hbarrier houtstanding

theorem startHeldRelayDrain (hs : Indexed s) (hstart : actorId ∈ s.starting) :
    Effect s (.startHeldRelayDrain actorId) (s.startHeldRelayDrain actorId).registry
      (s.startHeldRelayDrain actorId).outputs := by
  simp only [Registry.startHeldRelayDrain]
  split
  · rename_i hfound
    apply Effect.startedNothing actorId hstart
    intro a ha hid
    exact absurd hid (not_current hs hfound a ha)
  rename_i a hfound
  obtain ⟨ha, rfl⟩ := mem_current hs hfound
  split
  · rename_i hbarrier
    apply Effect.startedNothing a.actorId hstart
    intro b hb hid
    rw [hs.eq_of_actorId hb ha hid]
    exact hbarrier
  rename_i token hbarrier
  split
  · rename_i hheld
    exact .startCleared a hstart ha (Option.isSome_iff_exists.mpr ⟨token, hbarrier⟩) hheld
  · rename_i hheld
    exact .started a token hstart ha hbarrier hheld

theorem mem_sealedBy (hs : Indexed s) (h : s.sealedBy actorId token = some a) :
    a ∈ s.bindings ∧ a.actorId = actorId ∧ a.barrierToken = some token := by
  obtain ⟨hcurrent, hbarrier⟩ := Option.filter_eq_some_iff.mp h
  obtain ⟨ha, hid⟩ := mem_current hs hcurrent
  exact ⟨ha, hid, of_decide_eq_true hbarrier⟩

theorem sealedBy_eq (hs : Indexed s) (ha : a ∈ s.bindings)
    (hbarrier : a.barrierToken = some token) : s.sealedBy a.actorId token = some a := by
  rw [sealedBy, hs.currentAggregate_eq, find_of_mem hs.actors ha, Option.filter_some, hbarrier,
    decide_eq_true rfl, if_pos rfl]

theorem not_sealedBy (hs : Indexed s) (h : s.sealedBy actorId token = none) :
    ∀ a ∈ s.bindings, a.actorId = actorId → a.barrierToken ≠ some token := by
  rintro a ha rfl hbarrier
  rw [sealedBy_eq hs ha hbarrier] at h
  cases h

theorem drainHeldRelays (hs : Indexed s) (hdrain : (actorId, token) ∈ s.draining) :
    Effect s (.drainHeldRelays actorId token) (s.drainHeldRelays actorId token).registry
      (s.drainHeldRelays actorId token).outputs := by
  simp only [Registry.drainHeldRelays]
  split
  · rename_i hfound
    exact .drainedNothing actorId token hdrain (.inl rfl) (not_sealedBy hs hfound)
  rename_i a hfound
  obtain ⟨ha, rfl, hbarrier⟩ := mem_sealedBy hs hfound
  split
  · rename_i hheld
    exact .drained a token hdrain ha hbarrier hheld
  · rename_i next rest hheld
    exact .delivered a token next rest hdrain ha hbarrier hheld

theorem drainFails (hs : Indexed s) (hdrain : (actorId, token) ∈ s.draining) :
    Effect s (.drainFails actorId token) (s.drainFails actorId token).registry
      (s.drainFails actorId token).outputs := by
  simp only [Registry.drainFails]
  split
  · rename_i hfound
    exact .drainedNothing actorId token hdrain (.inr rfl) (not_sealedBy hs hfound)
  rename_i a hfound
  obtain ⟨ha, rfl, hbarrier⟩ := mem_sealedBy hs hfound
  exact .failed a token hdrain ha hbarrier

theorem trySealAll (s : Registry) :
    Effect s .trySealAll s.trySealAll.registry s.trySealAll.outputs := by
  unfold Registry.trySealAll
  split
  · exact .nothing
  split
  · rename_i hidle
    exact .sealedAll (List.all_eq_true.mp hidle)
  · exact .nothing

end Effect

theorem turn_effect {s t : Registry} {e : Event} {outputs : List Output} (hs : Indexed s)
    (h : s.turn e = some (t, outputs)) : Effect s e t outputs := by
  cases e with
  | openNamed connectionId rid generation =>
    cases h
    exact .opened connectionId rid generation
  | close connection =>
    cases h
    exact .close s connection
  | bind connection actor node lease authority =>
    cases h
    exact .bound (s.bind_outcome ..) fun binding _ hpublished =>
      absurd hpublished (s.bind_given _ _ _ _ _ binding)
  | bindRemote connection actor node lease publication generation =>
    cases h
    refine .bound (s.bindRemote_outcome ..) ?_
    rintro binding rfl hpublished
    exact s.bindRemote_given _ _ _ _ _ hpublished
  | unbind binding =>
    cases h
    exact .unbind hs binding
  | restore binding =>
    cases h
    exact .restore s binding
  | admitInbound binding =>
    cases h
    exact .admitInbound s binding
  | attemptInbound connectionId generation actorId sequence retain =>
    cases h
    exact .attemptInbound hs ..
  | completeInbound dispatch =>
    cases h
    exact .completeInbound s dispatch
  | trySealActor actor =>
    cases h
    exact .trySealActor hs actor
  | sealRemoteRoute connectionId generation actorId object lease =>
    cases h
    exact .sealRemoteRoute hs ..
  | abortBarrier token actor =>
    cases h
    exact .abortBarrier s token actor
  | commitBarrier token actor target =>
    cases h
    exact .commitBarrier hs token actor target
  | commitRemoteRoute connectionId generation actorId object target node lease =>
    cases h
    exact .commitRemoteRoute hs ..
  | acknowledgeRemoteAbort connectionId generation actorId object =>
    cases h
    exact .acknowledgeRemoteAbort hs ..
  | closeRemoteRouteSeal token actor =>
    cases h
    exact .closeRemoteRouteSeal hs token actor
  | dropHeldRelays =>
    cases h
    exact .dropped
  | startHeldRelayDrain actorId =>
    obtain ⟨hstart, h⟩ := Option.ite_none_right_eq_some.mp h
    cases h
    exact .startHeldRelayDrain hs hstart
  | drainHeldRelays actorId token =>
    obtain ⟨hdrain, h⟩ := Option.ite_none_right_eq_some.mp h
    cases h
    exact .drainHeldRelays hs hdrain
  | drainFails actorId token =>
    obtain ⟨hdrain, h⟩ := Option.ite_none_right_eq_some.mp h
    cases h
    exact .drainFails hs hdrain
  | trySealAll =>
    cases h
    exact .trySealAll s
  | releaseAll =>
    cases h
    exact .releasedAll
  | forceCloseAll =>
    cases h
    exact .forceClosed

end Zlink.Session
