import Zlink.Session.Generations

/-!
# Seals and their barriers

The end of a barrier takes two turns. The second one goes by the actor alone, so it can find
the seal of another barrier, that is still outstanding, on a binding that has come meanwhile.
`orderly` says that it does not. Then the binding that a barrier has sealed keeps the seal as
long as the barrier is outstanding.
-/

namespace Zlink.Session

open Keyed Registry

/-- A token, the installation of the binding that it has sealed, and whether dispatches were
uncompleted then. -/
structure Sealing where
  token : ℕ
  serial : ℕ
  busy : Bool

/-- The seal that a turn from `s` to `t` has set. -/
def Registry.sealing (s t : Registry) : Option Sealing :=
  if t.nextBarrierToken = s.nextBarrierToken then none
  else
    (t.bindings.find? fun a => a.barrierToken = some s.nextBarrierToken).map fun a =>
      { token := s.nextBarrierToken, serial := a.serial, busy := !s.idle a }

structure Guarded where
  registry : Registry
  sealings : List Sealing

def Guarded.init : Guarded where
  registry := Registry.init
  sealings := []

def Guarded.step (w : Guarded) (event : Event) : Option Guarded :=
  (w.registry.turn event).map fun next =>
    { registry := next.1
      sealings := (w.registry.sealing next.1).toList ++ w.sealings }

/-- The second turn of a barrier does not find the seal of an outstanding barrier; and
`commit_barrier` comes with a barrier that was issued over uncompleted dispatches only when the
seal is ready. -/
def Guarded.orderly (w : Guarded) : Event → Bool
  | .startHeldRelayDrain actorId =>
    (w.registry.currentAggregate actorId).all fun aggregate =>
      aggregate.barrierToken.all fun token => w.registry.barrier token = none
  | .commitBarrier token actor _ =>
    !(w.sealings.any fun sealing => sealing.token = token && sealing.busy) ||
      w.registry.remoteRouteSealReady token actor
  | _ => true

variable {s t : Registry} {e : Event} {outputs : List Output} {sealings : List Sealing}

structure Shaped (s : Registry) : Prop where
  serials : Keyed.Unique Aggregate.serial s.bindings
  serial_lt : ∀ a ∈ s.bindings, a.serial < s.nextSerial
  drains : Keyed.Unique Aggregate.ingressDrain s.bindings
  drain_lt : ∀ a ∈ s.bindings, a.ingressDrain < s.nextDrain

def Aggregate.shape (aggregate : Aggregate) : ℕ × ℕ :=
  (aggregate.serial, aggregate.ingressDrain)

namespace Shaped

theorem eq_of_serial (hs : Shaped s) {a b : Aggregate} (ha : a ∈ s.bindings)
    (hb : b ∈ s.bindings) (h : a.serial = b.serial) : a = b :=
  eq_of_find hs.serials (find_of_mem hs.serials hb) ha h

theorem eq_of_drain (hs : Shaped s) {a b : Aggregate} (ha : a ∈ s.bindings)
    (hb : b ∈ s.bindings) (h : a.ingressDrain = b.ingressDrain) : a = b :=
  eq_of_find hs.drains (find_of_mem hs.drains hb) ha h

theorem of_sublist (hs : Shaped s)
    (h : (t.bindings.map Aggregate.shape).Sublist (s.bindings.map Aggregate.shape))
    (hserial : s.nextSerial ≤ t.nextSerial) (hdrain : s.nextDrain ≤ t.nextDrain) : Shaped t := by
  have hserials (xs : List Aggregate) :
      xs.map Aggregate.serial = (xs.map Aggregate.shape).map Prod.fst := by
    rw [List.map_map]
    rfl
  have hdrains (xs : List Aggregate) :
      xs.map Aggregate.ingressDrain = (xs.map Aggregate.shape).map Prod.snd := by
    rw [List.map_map]
    rfl
  have horigin : ∀ b ∈ t.bindings, ∃ a ∈ s.bindings, a.shape = b.shape := fun b hb =>
    List.mem_map.mp (h.subset (List.mem_map_of_mem hb))
  constructor
  · rw [Keyed.Unique, hserials]
    have hunique := hs.serials
    rw [Keyed.Unique, hserials] at hunique
    exact hunique.sublist (h.map Prod.fst)
  · intro b hb
    obtain ⟨a, ha, hshape⟩ := horigin b hb
    have hlt := hs.serial_lt a ha
    rw [show a.serial = b.serial from congrArg Prod.fst hshape] at hlt
    exact hlt.trans_le hserial
  · rw [Keyed.Unique, hdrains]
    have hunique := hs.drains
    rw [Keyed.Unique, hdrains] at hunique
    exact hunique.sublist (h.map Prod.snd)
  · intro b hb
    obtain ⟨a, ha, hshape⟩ := horigin b hb
    have hlt := hs.drain_lt a ha
    rw [show a.ingressDrain = b.ingressDrain from congrArg Prod.snd hshape] at hlt
    exact hlt.trans_le hdrain

theorem of_mem (hs : Shaped s) (hi : Indexed s) (ht : Indexed t)
    (hmem : ∀ a, a ∈ t.bindings ↔ a ∈ s.bindings) (hserial : s.nextSerial ≤ t.nextSerial)
    (hdrain : s.nextDrain ≤ t.nextDrain) : Shaped t := by
  have hperm : t.bindings.Perm s.bindings :=
    (List.perm_ext_iff_of_nodup ht.actors.of_map hi.actors.of_map).mpr hmem
  constructor
  · exact (hperm.map Aggregate.serial).nodup_iff.mpr hs.serials
  · intro a ha
    exact (hs.serial_lt a ((hmem a).mp ha)).trans_le hserial
  · exact (hperm.map Aggregate.ingressDrain).nodup_iff.mpr hs.drains
  · intro a ha
    exact (hs.drain_lt a ((hmem a).mp ha)).trans_le hdrain

theorem install (hs : Shaped s) {binding : Binding} {displaced : List Aggregate}
    (hd : Indexed.Displaces s binding displaced) (hsub : ∀ a ∈ displaced, a ∈ s.bindings) :
    Shaped (s.install binding displaced) := by
  have hremaining : ∀ a ∈ s.remaining binding displaced, a ∈ s.bindings :=
    fun a ha => (hd.mem_remaining.mp ha).1
  have hdrain : (s.newAggregate binding displaced).ingressDrain ∉
        (s.remaining binding displaced).map Aggregate.ingressDrain ∧
      (s.newAggregate binding displaced).ingressDrain < s.nextDrain + 1 := by
    cases hhead : displaced.head? with
    | none =>
      have hnew : (s.newAggregate binding displaced).ingressDrain = s.nextDrain := by
        rw [newAggregate, hhead]
        rfl
      rw [hnew]
      refine ⟨fun h => ?_, Nat.lt_succ_self _⟩
      obtain ⟨a, ha, heq⟩ := List.mem_map.mp h
      exact absurd heq (hs.drain_lt a (hremaining a ha)).ne
    | some old =>
      have hmem := List.mem_of_mem_head? hhead
      have hnew : (s.newAggregate binding displaced).ingressDrain = old.ingressDrain := by
        rw [newAggregate, hhead]
        rfl
      rw [hnew]
      refine ⟨fun h => ?_, (hs.drain_lt old (hsub old hmem)).trans (Nat.lt_succ_self _)⟩
      obtain ⟨a, ha, heq⟩ := List.mem_map.mp h
      have hsame := hs.eq_of_drain (hremaining a ha) (hsub old hmem) heq
      exact (hd.mem_remaining.mp ha).2 (hsame ▸ hd.actors old hmem)
  have hrest : (s.remaining binding displaced).Sublist s.bindings := remaining_sublist
  rw [install_eq]
  constructor
  · apply Keyed.Unique.cons (hs.serials.sublist (hrest.map _))
    intro h
    obtain ⟨a, ha, heq⟩ := List.mem_map.mp h
    exact absurd heq (hs.serial_lt a (hremaining a ha)).ne
  · intro a ha
    rcases List.mem_cons.mp ha with rfl | ha
    · exact Nat.lt_succ_self _
    · exact (hs.serial_lt a (hremaining a ha)).trans (Nat.lt_succ_self _)
  · exact Keyed.Unique.cons (hs.drains.sublist (hrest.map _)) hdrain.1
  · intro a ha
    rcases List.mem_cons.mp ha with rfl | ha
    · exact hdrain.2
    · exact (hs.drain_lt a (hremaining a ha)).trans (Nat.lt_succ_self _)

end Shaped

def Released (s : Registry) (aggregate : Aggregate) : Prop :=
  ∀ token, aggregate.barrierToken = some token → s.barrier token = none

def Issued (s : Registry) (token : ℕ) : Prop :=
  s.nextBarrierToken = 0 ∨ token < s.nextBarrierToken

/-- A turn that sets no seal and installs no binding: it clears the seal of a binding, or makes
a dispatch of a binding active, only where no outstanding barrier seals the binding. -/
structure Follows (s t : Registry) : Prop where
  nextSerial : t.nextSerial = s.nextSerial
  nextDrain : t.nextDrain = s.nextDrain
  nextToken : t.nextBarrierToken = s.nextBarrierToken
  shape : (t.bindings.map Aggregate.shape).Sublist (s.bindings.map Aggregate.shape)
  origin : ∀ b ∈ t.bindings, ∃ a ∈ s.bindings, a.shape = b.shape ∧
    (b.barrierToken = a.barrierToken ∨ b.barrierToken = none ∧ Released s a)
  barriers : ∀ token, s.barrier token = none → t.barrier token = none
  draining : ∀ x ∈ t.draining, x ∈ s.draining ∨
    s.barrier x.2 = none ∧ ∃ a ∈ s.bindings, a.barrierToken = some x.2
  active : ∀ d, (t.drains d).active ⊆ (s.drains d).active ∨
    ∃ a ∈ s.bindings, a.ingressDrain = d ∧ Released s a

structure Kept (s : Registry) (sealings : List Sealing) : Prop where
  indexed : Indexed s
  shaped : Shaped s
  token_lt : s.nextBarrierToken < 2 ^ 64
  serial_lt : ∀ x ∈ sealings, x.serial < s.nextSerial
  issued : ∀ x ∈ sealings, Issued s x.token
  recorded : ∀ a ∈ s.bindings, ∀ token, a.barrierToken = some token →
    ∃ x ∈ sealings, x.token = token ∧ x.serial = a.serial
  draining : ∀ x ∈ s.draining, s.barrier x.2 = none ∧ Issued s x.2
  sealed : ∀ x ∈ sealings, s.barrier x.token ≠ none → ∀ a ∈ s.bindings, a.serial = x.serial →
    a.barrierToken = some x.token
  idle : ∀ x ∈ sealings, x.busy = false → s.barrier x.token ≠ none → ∀ a ∈ s.bindings,
    a.serial = x.serial → (s.drains a.ingressDrain).active = ∅

namespace Kept

theorem not_released (h : Kept s sealings) {x : Sealing} (hx : x ∈ sealings)
    (hbarrier : s.barrier x.token ≠ none) {a : Aggregate} (ha : a ∈ s.bindings)
    (hserial : a.serial = x.serial) : ¬ Released s a :=
  fun hreleased => hbarrier (hreleased x.token (h.sealed x hx hbarrier a ha hserial))

theorem follows (h : Kept s sealings) (ht : Indexed t) (hst : Follows s t) : Kept t sealings where
  indexed := ht
  shaped := h.shaped.of_sublist hst.shape hst.nextSerial.ge hst.nextDrain.ge
  token_lt := hst.nextToken ▸ h.token_lt
  serial_lt := by
    rw [hst.nextSerial]
    exact h.serial_lt
  issued := by
    intro x hx
    rw [Issued, hst.nextToken]
    exact h.issued x hx
  recorded := by
    intro b hb token htoken
    obtain ⟨a, ha, hshape, hsame | ⟨hnone, -⟩⟩ := hst.origin b hb
    · obtain ⟨x, hx, hxtoken, hxserial⟩ := h.recorded a ha token (hsame ▸ htoken)
      exact ⟨x, hx, hxtoken, hxserial.trans (congrArg Prod.fst hshape)⟩
    · rw [hnone] at htoken
      cases htoken
  draining := by
    intro x hx
    rw [Issued, hst.nextToken]
    rcases hst.draining x hx with hold | ⟨hnone, a, ha, htoken⟩
    · exact ⟨hst.barriers _ (h.draining x hold).1, (h.draining x hold).2⟩
    · obtain ⟨y, hy, hytoken, -⟩ := h.recorded a ha x.2 htoken
      exact ⟨hst.barriers _ hnone, hytoken ▸ h.issued y hy⟩
  sealed := by
    intro x hx hbarrier b hb hserial
    have hbarrier' : s.barrier x.token ≠ none := fun hnone => hbarrier (hst.barriers _ hnone)
    obtain ⟨a, ha, hshape, hsame | ⟨-, hreleased⟩⟩ := hst.origin b hb
    · rw [hsame]
      exact h.sealed x hx hbarrier' a ha ((congrArg Prod.fst hshape).trans hserial)
    · exact absurd hreleased (h.not_released hx hbarrier' ha
        ((congrArg Prod.fst hshape).trans hserial))
  idle := by
    intro x hx hbusy hbarrier b hb hserial
    have hbarrier' : s.barrier x.token ≠ none := fun hnone => hbarrier (hst.barriers _ hnone)
    obtain ⟨a, ha, hshape, -⟩ := hst.origin b hb
    have hserial' : a.serial = x.serial := (congrArg Prod.fst hshape).trans hserial
    have hdrain : a.ingressDrain = b.ingressDrain := congrArg Prod.snd hshape
    rw [← hdrain]
    rcases hst.active a.ingressDrain with hsub | ⟨c, hc, hcdrain, hreleased⟩
    · rw [h.idle x hx hbusy hbarrier' a ha hserial'] at hsub
      exact Finset.subset_empty.mp hsub
    · rw [h.shaped.eq_of_drain hc ha hcdrain] at hreleased
      exact absurd hreleased (h.not_released hx hbarrier' ha hserial')

theorem extend (h : Kept s sealings) (ht : Indexed t) (hshaped : Shaped t)
    (hmem : ∀ b ∈ t.bindings, b ∈ s.bindings ∨ b.serial = s.nextSerial ∧ b.barrierToken = none)
    (hserial : s.nextSerial ≤ t.nextSerial) (htoken : t.nextBarrierToken = s.nextBarrierToken)
    (hbarriers : t.barriers = s.barriers) (hdraining : t.draining = s.draining)
    (hdrains : ∀ d, d < s.nextDrain → t.drains d = s.drains d) : Kept t sealings := by
  have hbarrier (token : ℕ) : t.barrier token = s.barrier token := by
    rw [barrier, barrier, hbarriers]
  have hold : ∀ x ∈ sealings, ∀ b ∈ t.bindings, b.serial = x.serial → b ∈ s.bindings := by
    intro x hx b hb heq
    rcases hmem b hb with hb | ⟨hnew, -⟩
    · exact hb
    · exact absurd (heq.symm.trans hnew) (h.serial_lt x hx).ne
  constructor
  · exact ht
  · exact hshaped
  · exact htoken ▸ h.token_lt
  · exact fun x hx => (h.serial_lt x hx).trans_le hserial
  · intro x hx
    rw [Issued, htoken]
    exact h.issued x hx
  · intro b hb token hbtoken
    rcases hmem b hb with hb | ⟨-, hnone⟩
    · exact h.recorded b hb token hbtoken
    · rw [hnone] at hbtoken
      cases hbtoken
  · intro x hx
    rw [hdraining] at hx
    rw [hbarrier, Issued, htoken]
    exact h.draining x hx
  · intro x hx hout b hb heq
    rw [hbarrier] at hout
    exact h.sealed x hx hout b (hold x hx b hb heq) heq
  · intro x hx hbusy hout b hb heq
    rw [hbarrier] at hout
    have hb' := hold x hx b hb heq
    rw [hdrains _ (h.shaped.drain_lt b hb')]
    exact h.idle x hx hbusy hout b hb' heq

theorem install (h : Kept s sealings) {binding : Binding} {displaced : List Aggregate}
    (hd : Indexed.Displaces s binding displaced) (hsub : ∀ a ∈ displaced, a ∈ s.bindings)
    (hconnection : s.connection binding.connection.connectionId = some binding.connection) :
    Kept (s.install binding displaced) sealings := by
  have ht := h.indexed.install hd hconnection
  have hshaped := h.shaped.install hd hsub
  rw [install_eq] at ht hshaped ⊢
  apply h.extend ht hshaped
  · intro b hb
    rcases List.mem_cons.mp hb with rfl | hb
    · exact .inr ⟨rfl, rfl⟩
    · exact .inl (hd.mem_remaining.mp hb).1
  · exact Nat.le_succ _
  · rfl
  · rfl
  · rfl
  · intro d hd
    exact if_neg fun hnew => hd.ne hnew.2

theorem of_eq (h : Kept s sealings) (ht : Indexed t) (hbindings : t.bindings = s.bindings)
    (hserial : t.nextSerial = s.nextSerial) (hdrain : t.nextDrain = s.nextDrain)
    (htoken : t.nextBarrierToken = s.nextBarrierToken) (hbarriers : t.barriers = s.barriers)
    (hdraining : t.draining = s.draining) (hdrains : t.drains = s.drains) : Kept t sealings := by
  have hshaped : Shaped t := by
    apply h.shaped.of_sublist _ hserial.ge hdrain.ge
    rw [hbindings]
  apply h.extend ht hshaped _ hserial.ge htoken hbarriers hdraining
  · rw [hdrains]
    exact fun _ _ => rfl
  · rw [hbindings]
    exact fun b hb => .inl hb

theorem bound (h : Kept s sealings) {publication : Publication}
    (hbound : BindOutcome s publication t outputs) : Kept t sealings := by
  have hs := h.indexed
  cases hbound with
  | refused => exact h
  | installed binding own hbinds =>
    have hnext := h.of_eq (hs.advance binding.bindingGeneration) rfl rfl rfl rfl rfl rfl rfl
    apply hnext.install (.current hnext.indexed binding.connection rfl) _ hbinds.connection
    intro a ha
    rw [hnext.indexed.displacedBy_eq, Option.mem_toList] at ha
    exact (mem_of_find ha).1
  | takenBack binding own hbinds =>
    obtain ⟨ht, huntouched⟩ := hs.takenBack binding
    have hmem := huntouched.mem hs ht
    rw [Indexed.rollback_eq, install_eq] at ht hmem ⊢
    have hshaped := h.shaped.of_mem hs ht hmem (Nat.le_succ _) (Nat.le_succ _)
    apply h.extend ht hshaped (fun b hb => .inl ((hmem b).mp hb)) (Nat.le_succ _) rfl rfl rfl
    intro d hd
    exact if_neg fun hnew => hd.ne hnew.2

theorem restored (h : Kept s sealings) {binding : Binding} (hrestores : Restores s binding) :
    Kept ((s.adopt binding.bindingGeneration).install binding []) sealings := by
  have hs := h.indexed
  have ht : Indexed (s.adopt binding.bindingGeneration) :=
    hs.of_same { connections := rfl, places := rfl, index := rfl }
  have hnext := h.of_eq ht rfl rfl rfl rfl rfl rfl rfl
  have hrestores' : Restores (s.adopt binding.bindingGeneration) binding :=
    { unsealed := hrestores.unsealed, connection := hrestores.connection,
      locator := hrestores.locator, same := hrestores.same }
  exact hnext.install (Indexed.Restores.displaces ht hrestores') nofun hrestores.connection

end Kept

variable {token : ℕ}

theorem issued_ne (hnext : s.nextBarrierToken ≠ 0) (h : Issued s token) :
    token ≠ s.nextBarrierToken := by
  rcases h with h | h
  · exact absurd h hnext
  · exact h.ne

theorem Issued.next (htoken : s.nextBarrierToken < 2 ^ 64) (hnext : s.nextBarrierToken ≠ 0)
    (h : token ≤ s.nextBarrierToken)
    (ht : t.nextBarrierToken = (s.nextBarrierToken + 1) % 2 ^ 64) : Issued t token := by
  rw [Issued, ht]
  omega

theorem barrier_cons {next : ℕ} {actor : ObjectRef}
    (ht : t.barriers = (next, actor) :: s.barriers) (hne : token ≠ next) :
    t.barrier token = s.barrier token := by
  rw [barrier, barrier, ht, find_cons_of_ne (Ne.symm hne)]

namespace Kept

theorem seal_nothing (h : Kept s sealings) (hnext : s.nextBarrierToken ≠ 0) (actor : ObjectRef) :
    Kept (s.sealWith actor none) sealings := by
  have hissued {token : ℕ} (h' : Issued s token) : Issued (s.sealWith actor none) token := by
    rcases h' with hzero | hlt
    · exact absurd hzero hnext
    · exact Issued.next h.token_lt hnext hlt.le rfl
  have hbarrier {token : ℕ} (h' : Issued s token) :
      (s.sealWith actor none).barrier token = s.barrier token :=
    barrier_cons rfl (issued_ne hnext h')
  constructor
  · exact h.indexed.of_same { connections := rfl, places := rfl, index := rfl }
  · exact h.shaped.of_sublist (List.Sublist.refl _) le_rfl le_rfl
  · exact Nat.mod_lt _ (by decide)
  · exact h.serial_lt
  · exact fun x hx => hissued (h.issued x hx)
  · exact h.recorded
  · intro x hx
    obtain ⟨hnone, hx'⟩ := h.draining x hx
    exact ⟨(hbarrier hx').trans hnone, hissued hx'⟩
  · intro x hx hout
    rw [hbarrier (h.issued x hx)] at hout
    exact h.sealed x hx hout
  · intro x hx hbusy hout
    rw [hbarrier (h.issued x hx)] at hout
    exact h.idle x hx hbusy hout

theorem seal_binding (h : Kept s sealings) (hnext : s.nextBarrierToken ≠ 0) (actor : ObjectRef)
    {a : Aggregate} (ha : a ∈ s.bindings) (hunsealed : a.barrierToken = none) :
    Kept (s.sealWith actor (some a))
      ({ token := s.nextBarrierToken, serial := a.serial, busy := !s.idle a } :: sealings) := by
  let next : Aggregate → Aggregate := fun b => { b with barrierToken := some s.nextBarrierToken }
  have ht : Indexed (s.sealWith actor (some a)) :=
    h.indexed.of_same (.edit a rfl rfl rfl fun _ _ _ => rfl)
  have hissued {token : ℕ} (h' : Issued s token) : Issued (s.sealWith actor (some a)) token := by
    rcases h' with hzero | hlt
    · exact absurd hzero hnext
    · exact Issued.next h.token_lt hnext hlt.le rfl
  have hbarrier {token : ℕ} (h' : Issued s token) :
      (s.sealWith actor (some a)).barrier token = s.barrier token :=
    barrier_cons rfl (issued_ne hnext h')
  have hmem : ∀ b ∈ (s.sealWith actor (some a)).bindings, b ∈ s.bindings ∧ b ≠ a ∨ b = next a := by
    intro b hb
    rcases mem_modify hb with ⟨hb, hne⟩ | ⟨c, hc, hkey, rfl⟩
    · exact .inl ⟨hb, fun heq => hne (heq ▸ rfl)⟩
    · obtain rfl := h.indexed.eq_of_actorId hc ha (congrArg Prod.snd hkey)
      exact .inr rfl
  have hshaped : Shaped (s.sealWith actor (some a)) := by
    have hshapes : (s.sealWith actor (some a)).bindings.map Aggregate.shape =
        s.bindings.map Aggregate.shape := map_modify Aggregate.shape fun _ _ _ => rfl
    exact h.shaped.of_sublist (by rw [hshapes]) (Nat.le_refl _) (Nat.le_refl _)
  constructor
  · exact ht
  · exact hshaped
  · exact Nat.mod_lt _ (by decide)
  · intro x hx
    rcases List.mem_cons.mp hx with rfl | hx
    · exact h.shaped.serial_lt a ha
    · exact h.serial_lt x hx
  · intro x hx
    rcases List.mem_cons.mp hx with rfl | hx
    · exact Issued.next h.token_lt hnext le_rfl rfl
    · exact hissued (h.issued x hx)
  · intro b hb token htoken
    rcases hmem b hb with ⟨hb, -⟩ | rfl
    · obtain ⟨x, hx, hx'⟩ := h.recorded b hb token htoken
      exact ⟨x, List.mem_cons_of_mem _ hx, hx'⟩
    · exact ⟨_, List.mem_cons_self, Option.some.inj htoken, rfl⟩
  · intro x hx
    obtain ⟨hnone, hx'⟩ := h.draining x hx
    exact ⟨(hbarrier hx').trans hnone, hissued hx'⟩
  · intro x hx hout b hb hserial
    rcases List.mem_cons.mp hx with rfl | hx
    · rcases hmem b hb with ⟨hb, hne⟩ | rfl
      · exact absurd (h.shaped.eq_of_serial hb ha hserial) hne
      · rfl
    · rw [hbarrier (h.issued x hx)] at hout
      rcases hmem b hb with ⟨hb, -⟩ | rfl
      · exact h.sealed x hx hout b hb hserial
      · have hsealed := h.sealed x hx hout a ha hserial
        rw [hunsealed] at hsealed
        cases hsealed
  · intro x hx hbusy hout b hb hserial
    rcases List.mem_cons.mp hx with rfl | hx
    · rcases hmem b hb with ⟨hb, hne⟩ | rfl
      · exact absurd (h.shaped.eq_of_serial hb ha hserial) hne
      · rw [Bool.not_eq_false'] at hbusy
        exact of_decide_eq_true hbusy
    · rw [hbarrier (h.issued x hx)] at hout
      rcases hmem b hb with ⟨hb, -⟩ | rfl
      · exact h.idle x hx hbusy hout b hb hserial
      · exact h.idle x hx hbusy hout a ha hserial

end Kept

theorem barrier_none_of_sublist (h : t.barriers.Sublist s.barriers)
    (hnone : s.barrier token = none) : t.barrier token = none := by
  rw [barrier, Option.map_eq_none_iff] at hnone ⊢
  cases hfind : find Prod.fst token t.barriers with
  | none => rfl
  | some entry =>
    obtain ⟨hmem, hkey⟩ := mem_of_find hfind
    exact absurd (List.mem_map.mpr ⟨entry, h.subset hmem, hkey⟩) (not_mem_of_find hnone)

namespace Follows

theorem removed (hbindings : t.bindings.Sublist s.bindings)
    (hactive : ∀ d, (t.drains d).active ⊆ (s.drains d).active)
    (hbarriers : t.barriers.Sublist s.barriers)
    (hdraining : ∀ x ∈ t.draining, x ∈ s.draining) (hserial : t.nextSerial = s.nextSerial)
    (hdrain : t.nextDrain = s.nextDrain) (htoken : t.nextBarrierToken = s.nextBarrierToken) :
    Follows s t where
  nextSerial := hserial
  nextDrain := hdrain
  nextToken := htoken
  shape := hbindings.map _
  origin := fun b hb => ⟨b, hbindings.subset hb, rfl, .inl rfl⟩
  barriers := fun _ hnone => barrier_none_of_sublist hbarriers hnone
  draining := fun x hx => .inl (hdraining x hx)
  active := fun d => .inl (hactive d)

theorem edited (a : Aggregate) {f : Aggregate → Aggregate}
    (hbindings : t.bindings = Keyed.modify Aggregate.key a.key f s.bindings)
    (hbarriers : t.barriers.Sublist s.barriers) (hserial : t.nextSerial = s.nextSerial)
    (hdrain : t.nextDrain = s.nextDrain) (htoken : t.nextBarrierToken = s.nextBarrierToken)
    (hdraining : ∀ x ∈ t.draining, x ∈ s.draining)
    (hactive : ∀ d, (t.drains d).active ⊆ (s.drains d).active ∨
      ∃ a ∈ s.bindings, a.ingressDrain = d ∧ Released s a)
    (hf : ∀ b ∈ s.bindings, b.key = a.key → (f b).shape = b.shape ∧
      ((f b).barrierToken = b.barrierToken ∨ (f b).barrierToken = none ∧ Released s b)) :
    Follows s t where
  nextSerial := hserial
  nextDrain := hdrain
  nextToken := htoken
  shape := by
    rw [hbindings, map_modify Aggregate.shape fun b hb hkey => (hf b hb hkey).1]
  origin := by
    intro c hc
    rw [hbindings] at hc
    rcases mem_modify hc with ⟨hc, -⟩ | ⟨b, hb, hkey, rfl⟩
    · exact ⟨c, hc, rfl, .inl rfl⟩
    · exact ⟨b, hb, (hf b hb hkey).1.symm, (hf b hb hkey).2⟩
  barriers := fun _ hnone => barrier_none_of_sublist hbarriers hnone
  draining := fun x hx => .inl (hdraining x hx)
  active := hactive

end Follows

theorem active_setDrain {d d' : ℕ} {f : Drain → Drain}
    (hf : (f (s.drains d)).active ⊆ (s.drains d).active) :
    ((s.setDrain d f).drains d').active ⊆ (s.drains d').active := by
  simp only [setDrain]
  split
  · rename_i heq
    exact heq ▸ hf
  · exact Finset.Subset.refl _

variable {a : Aggregate}

theorem active_insert (ha : a ∈ s.bindings) (hreleased : Released s a)
    (hother : ∀ d, d ≠ a.ingressDrain → t.drains d = s.drains d) (d : ℕ) :
    (t.drains d).active ⊆ (s.drains d).active ∨
      ∃ a ∈ s.bindings, a.ingressDrain = d ∧ Released s a := by
  by_cases heq : d = a.ingressDrain
  · exact .inr ⟨a, ha, heq.symm, hreleased⟩
  · exact .inl (hother d heq ▸ Finset.Subset.refl _)

theorem sealing_none (h : t.nextBarrierToken = s.nextBarrierToken) : s.sealing t = none :=
  if_pos h

theorem Kept.silent (h : Kept t sealings) (htoken : t.nextBarrierToken = s.nextBarrierToken) :
    Kept t ((s.sealing t).toList ++ sealings) := by
  rw [sealing_none htoken]
  exact h

theorem sealWith_ne (hnext : s.nextBarrierToken ≠ 0) (actor : ObjectRef)
    (affected : Option Aggregate) :
    (s.sealWith actor affected).nextBarrierToken ≠ s.nextBarrierToken := by
  have htoken : (s.sealWith actor affected).nextBarrierToken =
      (s.nextBarrierToken + 1) % 2 ^ 64 := rfl
  omega

theorem Kept.fresh (h : Kept s sealings) (hnext : s.nextBarrierToken ≠ 0) :
    ∀ a ∈ s.bindings, a.barrierToken ≠ some s.nextBarrierToken := by
  intro a ha htoken
  obtain ⟨x, hx, hxtoken, -⟩ := h.recorded a ha _ htoken
  exact issued_ne hnext (h.issued x hx) hxtoken

theorem Kept.sealing_eq (h : Kept s sealings) (hnext : s.nextBarrierToken ≠ 0)
    (actor : ObjectRef) (affected : Option Aggregate) (ha : ∀ a ∈ affected, a ∈ s.bindings) :
    s.sealing (s.sealWith actor affected) = affected.map fun a =>
      { token := s.nextBarrierToken, serial := a.serial, busy := !s.idle a } := by
  rw [sealing, if_neg (sealWith_ne hnext actor affected)]
  cases affected with
  | none =>
    rw [Option.map_none, Option.map_eq_none_iff, List.find?_eq_none]
    intro a hmem htoken
    exact h.fresh hnext a hmem (of_decide_eq_true htoken)
  | some a =>
    have hmem := ha a rfl
    cases hfind : (s.sealWith actor (some a)).bindings.find? fun b =>
        b.barrierToken = some s.nextBarrierToken with
    | none =>
      have hsealed := List.find?_eq_none.mp hfind
        { a with barrierToken := some s.nextBarrierToken }
        (List.mem_map.mpr ⟨a, hmem, if_pos rfl⟩)
      exact absurd (decide_eq_true rfl) hsealed
    | some b =>
      have htoken := of_decide_eq_true (List.find?_some
        (p := fun b : Aggregate => decide (b.barrierToken = some s.nextBarrierToken)) hfind)
      rcases mem_modify (List.mem_of_find?_eq_some hfind) with ⟨hb, -⟩ | ⟨c, hc, hkey, rfl⟩
      · exact absurd htoken (h.fresh hnext b hb)
      · obtain rfl := h.indexed.eq_of_actorId hc hmem (congrArg Prod.snd hkey)
        rfl

variable {w : Guarded}

theorem orderly_start (hs : Indexed w.registry)
    (horderly : w.orderly (.startHeldRelayDrain a.actorId) = true)
    (ha : a ∈ w.registry.bindings) (hbarrier : a.barrierToken = some token) :
    w.registry.barrier token = none := by
  rw [Guarded.orderly, hs.currentAggregate_eq, find_of_mem hs.actors ha, Option.all_some,
    hbarrier, Option.all_some] at horderly
  exact of_decide_eq_true horderly

theorem Effect.kept (h : Kept w.registry w.sealings)
    (horderly : w.orderly e = true) (heffect : Effect w.registry e t outputs) :
    Kept t ((w.registry.sealing t).toList ++ w.sealings) := by
  have hs := h.indexed
  have ht := heffect.indexed hs
  have hsub {d : ℕ} : (w.registry.drains d).active ⊆ (w.registry.drains d).active :=
    Finset.Subset.refl _
  have hall {xs : List (ℕ × ObjectRef)} : xs.Sublist xs := List.Sublist.refl xs
  have hfollows (hst : Follows w.registry t) :
      Kept t ((w.registry.sealing t).toList ++ w.sealings) :=
    (h.follows ht hst).silent hst.nextToken
  have hrefuse (aggregates : List Aggregate) (d : ℕ) :
      ((w.registry.refuseCompletions aggregates).drains d).active ⊆ (w.registry.drains d).active :=
    (active_refuseCompletions w.registry aggregates d).subset
  -- behind an orderly end of its barrier the binding of the second turn is released
  have hreleased {a : Aggregate} {token : ℕ} (ha : a ∈ w.registry.bindings)
      (hbarrier : a.barrierToken = some token) (hend : w.registry.barrier token = none) :
      Released w.registry a := by
    intro other hother
    rw [hbarrier] at hother
    exact Option.some.inj hother ▸ hend
  cases heffect with
  | nothing | startedNothing | sealedAll | releasedAll =>
    exact hfollows (.removed (List.Sublist.refl _) (fun _ => hsub) hall (fun _ => id) rfl rfl rfl)
  | opened | closed | unbound =>
    exact hfollows (.removed List.filter_sublist (hrefuse _) hall (fun _ => id) rfl rfl rfl)
  | bound hbound =>
    have htoken : t.nextBarrierToken = w.registry.nextBarrierToken := by
      cases hbound with
      | refused => rfl
      | installed => rw [install_eq]; rfl
      | takenBack => rw [Indexed.rollback_eq, install_eq]; rfl
    exact (h.bound hbound).silent htoken
  | restored binding hrestores =>
    exact (h.restored hrestores).silent (by rw [install_eq]; rfl)
  | admitted a ha hbarrier =>
    have hopen : Released w.registry a := fun token htoken => by
      rw [hbarrier] at htoken
      cases htoken
    exact hfollows (.edited a rfl hall rfl rfl rfl (fun _ => id)
      (active_insert ha hopen fun _ hd => if_neg hd) fun _ _ _ => ⟨rfl, .inl rfl⟩)
  | held a =>
    exact hfollows (.edited a rfl hall rfl rfl rfl (fun _ => id) (fun _ => .inl hsub)
      fun _ _ _ => ⟨rfl, .inl rfl⟩)
  | completed dispatch =>
    exact hfollows (.removed (List.Sublist.refl _)
      (fun _ => active_setDrain (Finset.erase_subset _ _)) hall (fun _ => id) rfl rfl rfl)
  | sealed actor affected ha hnext =>
    rw [h.sealing_eq hnext actor affected fun a hmem => (ha a hmem).1]
    cases affected with
    | none => exact h.seal_nothing hnext actor
    | some a => exact h.seal_binding hnext actor (ha a rfl).1 (ha a rfl).2.1
  | ended token actor =>
    exact hfollows (.removed (List.Sublist.refl _) (fun _ => hsub) List.filter_sublist
      (fun _ => id) rfl rfl rfl)
  | committed token a next =>
    exact hfollows (.edited a rfl List.filter_sublist rfl rfl rfl (fun _ => id)
      (fun _ => .inl hsub) fun _ _ _ => ⟨rfl, .inl rfl⟩)
  | closedSeal token actor a =>
    exact hfollows (.removed List.filter_sublist (hrefuse _) List.filter_sublist
      (fun _ => id) rfl rfl rfl)
  | dropped =>
    apply hfollows
    constructor
    · rfl
    · rfl
    · rfl
    · simp only [dropHeldRelays, List.map_map]
      exact List.Sublist.refl _
    · intro b hb
      obtain ⟨a, ha, rfl⟩ := List.mem_map.mp hb
      exact ⟨a, ha, rfl, .inl rfl⟩
    · exact fun _ hnone => hnone
    · exact fun x hx => .inl hx
    · exact fun _ => .inl hsub
  | startCleared a hstart ha hbarrier hheld =>
    obtain ⟨token, htoken⟩ := Option.isSome_iff_exists.mp hbarrier
    have hopen := hreleased ha htoken (orderly_start hs horderly ha htoken)
    exact hfollows (.edited a rfl hall rfl rfl rfl (fun _ => id) (fun _ => .inl hsub)
      fun b hb hkey => ⟨rfl, .inr ⟨rfl, hs.eq_of_actorId hb ha (congrArg Prod.snd hkey) ▸ hopen⟩⟩)
  | started a token hstart ha hbarrier hheld =>
    have hend := orderly_start hs horderly ha hbarrier
    have hrest : Follows w.registry (w.registry.startTaken a.actorId) :=
      .removed (List.Sublist.refl _) (fun _ => hsub) hall (fun _ => id) rfl rfl rfl
    refine hfollows { hrest with draining := ?_ }
    intro x hx
    rcases List.mem_cons.mp hx with rfl | hx
    · exact .inr ⟨hend, a, ha, hbarrier⟩
    · exact .inl hx
  | drainedNothing actorId token =>
    exact hfollows (.removed (List.Sublist.refl _) (fun _ => hsub) hall
      (fun _ hx => List.mem_of_mem_erase hx) rfl rfl rfl)
  | drained a _ hdrain ha hbarrier | failed a _ hdrain ha hbarrier =>
    have hopen := hreleased ha hbarrier (h.draining _ hdrain).1
    exact hfollows (.edited a rfl hall rfl rfl rfl (fun _ hx => List.mem_of_mem_erase hx)
      (fun _ => .inl hsub) fun b hb hkey => ⟨rfl, .inr ⟨rfl,
        hs.eq_of_actorId hb ha (congrArg Prod.snd hkey) ▸ hopen⟩⟩)
  | delivered a token next rest hdrain ha hbarrier hheld =>
    have hopen := hreleased ha hbarrier (h.draining _ hdrain).1
    exact hfollows (.edited a rfl hall rfl rfl rfl (fun _ => id)
      (active_insert ha hopen fun _ hd => if_neg hd) fun _ _ _ => ⟨rfl, .inl rfl⟩)
  | forceClosed =>
    exact hfollows (.removed (List.nil_sublist _) (hrefuse _) (List.nil_sublist _)
      (fun _ => id) rfl rfl rfl)

def Output.activates : Output → Option Dispatch
  | .admitted dispatch => some dispatch
  | .delivered dispatch _ => some dispatch
  | _ => none

structure Respects (w : Guarded) (e : Event) (t : Registry) (outputs : List Output) : Prop where
  admits : ∀ x ∈ w.sealings, w.registry.barrier x.token ≠ none →
    ∀ a ∈ w.registry.bindings, a.serial = x.serial →
      ∀ output ∈ outputs, ∀ dispatch, output.activates = some dispatch →
        dispatch.binding.actor.key ≠ a.actorId
  moves : ∀ a ∈ w.registry.bindings, ∀ b ∈ t.bindings, b.serial = a.serial →
    b.binding ≠ a.binding → ∃ token, a.barrierToken = some token ∧
      w.registry.barrier token ≠ none ∧ (w.registry.drains a.ingressDrain).active = ∅ ∧
        ∀ other actor target, e = .commitBarrier other actor target → other = token

theorem activates_settle {held : List Held} : ∀ output ∈ settle held, output.activates = none := by
  intro output houtput
  obtain ⟨relay, -, rfl⟩ := List.mem_map.mp houtput
  rfl

theorem Effect.activates (h : Kept w.registry w.sealings)
    (heffect : Effect w.registry e t outputs) :
    ∀ output ∈ outputs, ∀ dispatch, output.activates = some dispatch →
      ∃ a ∈ w.registry.bindings, dispatch.binding.actor.key = a.actorId ∧
        Released w.registry a := by
  have hs := h.indexed
  have hnone {outputs : List Output} (hplain : ∀ output ∈ outputs, output.activates = none) :
      ∀ output ∈ outputs, ∀ dispatch, output.activates = some dispatch →
        ∃ a ∈ w.registry.bindings, dispatch.binding.actor.key = a.actorId ∧
          Released w.registry a := by
    intro output houtput dispatch hactivates
    rw [hplain output houtput] at hactivates
    cases hactivates
  have hsilent : ∀ output ∈ settle [], output.activates = none := activates_settle
  cases heffect with
  | nothing | completed | sealed | ended | committed | startedNothing | startCleared | started
  | drainedNothing | drained | sealedAll | releasedAll => exact hnone hsilent
  | opened | closed | unbound | closedSeal | dropped | failed | forceClosed =>
    exact hnone activates_settle
  | bound hbound =>
    apply hnone
    intro output houtput
    cases hbound with
    | refused => exact hsilent output houtput
    | installed =>
      rcases List.mem_cons.mp houtput with rfl | hsettled
      · rfl
      · exact activates_settle output hsettled
    | takenBack =>
      obtain rfl := List.mem_singleton.mp houtput
      rfl
  | restored | held =>
    apply hnone
    intro output houtput
    obtain rfl := List.mem_singleton.mp houtput
    rfl
  | admitted a ha hbarrier =>
    intro output houtput dispatch hactivates
    obtain rfl := List.mem_singleton.mp houtput
    obtain rfl := Option.some.inj hactivates
    refine ⟨a, ha, (hs.actorId_eq ha).symm, fun token htoken => ?_⟩
    rw [hbarrier] at htoken
    cases htoken
  | delivered a token next rest hdrain ha hbarrier =>
    intro output houtput dispatch hactivates
    obtain rfl := List.mem_singleton.mp houtput
    obtain rfl := Option.some.inj hactivates
    refine ⟨a, ha, (hs.actorId_eq ha).symm, fun other hother => ?_⟩
    rw [hbarrier] at hother
    exact Option.some.inj hother ▸ (h.draining _ hdrain).1

def Unmoved (s t : Registry) : Prop :=
  ∀ a ∈ s.bindings, ∀ b ∈ t.bindings, b.serial = a.serial → b.binding = a.binding

namespace Unmoved

theorem of_mem (hs : Shaped s)
    (h : ∀ b ∈ t.bindings, b ∈ s.bindings ∨ b.serial = s.nextSerial) : Unmoved s t := by
  intro a ha b hb hserial
  rcases h b hb with hb | hnew
  · rw [hs.eq_of_serial hb ha hserial]
  · exact absurd (hserial.symm.trans hnew) (hs.serial_lt a ha).ne

theorem edited (hs : Shaped s) (key : String × String) {f : Aggregate → Aggregate}
    (hbindings : t.bindings = Keyed.modify Aggregate.key key f s.bindings)
    (hf : ∀ b, (f b).serial = b.serial ∧ (f b).binding = b.binding) : Unmoved s t := by
  intro a ha b hb hserial
  rw [hbindings] at hb
  rcases mem_modify hb with ⟨hb, -⟩ | ⟨c, hc, -, rfl⟩
  · rw [hs.eq_of_serial hb ha hserial]
  · rw [(hf c).1] at hserial
    rw [(hf c).2, hs.eq_of_serial hc ha hserial]

end Unmoved

theorem mem_install {binding : Binding} {displaced : List Aggregate} :
    ∀ b ∈ (s.install binding displaced).bindings, b ∈ s.bindings ∨ b.serial = s.nextSerial := by
  intro b hb
  rw [install_bindings] at hb
  rcases List.mem_cons.mp hb with rfl | hb
  · exact .inr rfl
  · exact .inl (remaining_sublist.subset hb)

theorem Kept.committed (h : Kept w.registry w.sealings)
    (horderly : w.orderly e = true) (ha : a ∈ w.registry.bindings)
    (hbarrier : a.barrierToken = some token) (hout : w.registry.barrier token ≠ none)
    (hidle : w.registry.idle a ∨
      ∃ actor target, e = .commitBarrier token actor target ∧ actor.key = a.actorId) :
    (w.registry.drains a.ingressDrain).active = ∅ := by
  rcases hidle with hidle | ⟨actor, target, rfl, hactor⟩
  · exact of_decide_eq_true hidle
  obtain ⟨x, hx, hxtoken, hxserial⟩ := h.recorded a ha token hbarrier
  by_cases hbusy : x.busy = true
  · have hany : (w.sealings.any fun sealing => sealing.token = token && sealing.busy) = true :=
      List.any_eq_true.mpr ⟨x, hx, by rw [hbusy, hxtoken]; simp⟩
    rw [Guarded.orderly, hany, Bool.not_true, Bool.false_or, remoteRouteSealReady,
      Bool.and_eq_true, hactor, h.indexed.currentAggregate_eq, find_of_mem h.indexed.actors ha,
      Option.all_some] at horderly
    exact of_decide_eq_true horderly.2
  · exact h.idle x hx (Bool.eq_false_of_not_eq_true hbusy) (hxtoken ▸ hout) a ha hxserial.symm

theorem outstanding_ne {actor : ObjectRef} (h : s.outstanding token actor) :
    s.barrier token ≠ none := by
  intro hnone
  rw [outstanding, hnone] at h
  cases h

theorem Effect.moves (h : Kept w.registry w.sealings)
    (horderly : w.orderly e = true) (heffect : Effect w.registry e t outputs) :
    ∀ a ∈ w.registry.bindings, ∀ b ∈ t.bindings, b.serial = a.serial →
      b.binding ≠ a.binding → ∃ token, a.barrierToken = some token ∧
        w.registry.barrier token ≠ none ∧ (w.registry.drains a.ingressDrain).active = ∅ ∧
          ∀ other actor target, e = .commitBarrier other actor target → other = token := by
  have hs := h.shaped
  have hunmoved (hst : Unmoved w.registry t) : ∀ a ∈ w.registry.bindings, ∀ b ∈ t.bindings,
      b.serial = a.serial → b.binding ≠ a.binding → ∃ token, a.barrierToken = some token ∧
        w.registry.barrier token ≠ none ∧ (w.registry.drains a.ingressDrain).active = ∅ ∧
          ∀ other actor target, e = .commitBarrier other actor target → other = token :=
    fun a ha b hb hserial hne => absurd (hst a ha b hb hserial) hne
  have hsub (hst : t.bindings.Sublist w.registry.bindings) : Unmoved w.registry t :=
    .of_mem hs fun b hb => .inl (hst.subset hb)
  have hsame := List.Sublist.refl w.registry.bindings
  cases heffect with
  | nothing | completed | ended | startedNothing | started | drainedNothing | sealedAll
  | releasedAll => exact hunmoved (hsub hsame)
  | opened | closed | unbound | closedSeal => exact hunmoved (hsub List.filter_sublist)
  | bound hbound =>
    cases hbound with
    | refused => exact hunmoved (hsub hsame)
    | installed => exact hunmoved (.of_mem hs mem_install)
    | takenBack binding =>
      obtain ⟨ht, huntouched⟩ := h.indexed.takenBack binding
      exact hunmoved (.of_mem hs fun b hb => .inl ((huntouched.mem h.indexed ht b).mp hb))
  | restored => exact hunmoved (.of_mem hs mem_install)
  | admitted a | held a | startCleared a | drained a | delivered a | failed a =>
    exact hunmoved (.edited hs a.key rfl fun _ => ⟨rfl, rfl⟩)
  | sealed actor affected =>
    cases affected with
    | none => exact hunmoved (hsub hsame)
    | some a => exact hunmoved (.edited hs a.key rfl fun _ => ⟨rfl, rfl⟩)
  | committed token c next hc hbarrier hout hkey hlocator hidle htoken =>
    intro a ha b hb hserial hne
    rcases mem_modify hb with ⟨hb, -⟩ | ⟨d, hd, hdkey, rfl⟩
    · exact absurd (congrArg Aggregate.binding (hs.eq_of_serial hb ha hserial)) hne
    · obtain rfl := hs.eq_of_serial hd ha hserial
      obtain rfl := h.indexed.eq_of_actorId hd hc (congrArg Prod.snd hdkey)
      exact ⟨token, hbarrier, outstanding_ne hout,
        h.committed horderly ha hbarrier (outstanding_ne hout) hidle, htoken⟩
  | dropped =>
    apply hunmoved
    intro a ha b hb hserial
    obtain ⟨c, hc, rfl⟩ := List.mem_map.mp hb
    rw [hs.eq_of_serial hc ha hserial]
  | forceClosed => exact hunmoved (hsub (List.nil_sublist _))

theorem Kept.respects (h : Kept w.registry w.sealings)
    (horderly : w.orderly e = true) (hturn : w.registry.turn e = some (t, outputs)) :
    Respects w e t outputs where
  admits := by
    intro x hx hout a ha hserial output houtput dispatch hactivates hkey
    have heffect := turn_effect h.indexed hturn
    obtain ⟨b, hb, hbkey, hreleased⟩ := heffect.activates h output houtput dispatch hactivates
    rw [h.indexed.eq_of_actorId hb ha (hbkey.symm.trans hkey)] at hreleased
    exact h.not_released hx hout ha hserial hreleased
  moves := (turn_effect h.indexed hturn).moves h horderly

theorem Kept.init : Kept Registry.init [] where
  indexed := .init
  shaped := { serials := List.nodup_nil, serial_lt := nofun, drains := List.nodup_nil,
              drain_lt := nofun }
  token_lt := by decide
  serial_lt := nofun
  issued := nofun
  recorded := nofun
  draining := nofun
  sealed := nofun
  idle := nofun

theorem Kept.step {v : Guarded} (h : Kept w.registry w.sealings)
    (horderly : w.orderly e = true) (hstep : w.step e = some v) : Kept v.registry v.sealings := by
  obtain ⟨next, hnext, rfl⟩ := Option.map_eq_some_iff.mp hstep
  exact (turn_effect h.indexed hnext).kept h horderly

def someActor : ObjectRef :=
  ⟨.actor, "a", 1, 1, "mesh", "node"⟩

def bindOn (connectionId : String) : Event :=
  .bind ⟨connectionId, 1, none, 0⟩ someActor 1 1 (some someActor)

/-- A relay that is held by a barrier is drained when the barrier is aborted. -/
def sealedAndAborted : List Event :=
  [.openNamed "first" none 0, bindOn "first", .trySealActor someActor,
    .attemptInbound "first" 1 "a" 1 true, .abortBarrier 1 someActor, .startHeldRelayDrain "a",
    .drainHeldRelays "a" 1]

end Zlink.Session
