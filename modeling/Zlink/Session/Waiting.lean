import Zlink.Session.Seal

/-!
# What a seal waits for

A seal is never left behind: its barrier is outstanding, or the second turn of a barrier of its
actor is owed, or a drain with its token runs. A binding without a seal holds no relay, so every
held relay has a turn coming that delivers or settles it.
-/

namespace Zlink.Session

open Keyed Registry

variable {s t : Registry} {e : Event} {outputs : List Output}

/-- A turn is still to come that looks at the seal of the actor with this token. -/
def Owed (s : Registry) (actorId : String) (token : ℕ) : Prop :=
  token ∈ s.barriers.map Prod.fst ∨ actorId ∈ s.starting ∨ (actorId, token) ∈ s.draining

structure Awaited (s : Registry) : Prop where
  indexed : Indexed s
  barriers : Keyed.Unique Prod.fst s.barriers
  token_lt : s.nextBarrierToken < 2 ^ 64
  issued : ∀ x ∈ s.barriers, Issued s x.1
  tokens : ∀ a ∈ s.bindings, ∀ token, a.barrierToken = some token → Issued s token
  matched : ∀ a ∈ s.bindings, ∀ x ∈ s.barriers, a.barrierToken = some x.1 → x.2.key = a.actorId
  owed : ∀ a ∈ s.bindings, ∀ token, a.barrierToken = some token → Owed s a.actorId token
  sealed : ∀ a ∈ s.bindings, a.heldRelays ≠ [] → a.barrierToken ≠ none

namespace Awaited

theorem follow (h : Awaited s) (ht : Indexed t) (htoken : t.nextBarrierToken = s.nextBarrierToken)
    (hbarriers : t.barriers.Sublist s.barriers)
    (horigin : ∀ b ∈ t.bindings, b.barrierToken = none ∧ b.heldRelays = [] ∨
      ∃ a ∈ s.bindings, b.actorId = a.actorId ∧ b.barrierToken = a.barrierToken ∧
        (b.heldRelays ≠ [] → a.heldRelays ≠ [] ∨ a.barrierToken ≠ none))
    (howed : ∀ b ∈ t.bindings, ∀ token, b.barrierToken = some token →
      Owed s b.actorId token → Owed t b.actorId token) : Awaited t := by
  have hsealed {b : Aggregate} (hb : b ∈ t.bindings) {token : ℕ}
      (hbtoken : b.barrierToken = some token) :
      ∃ a ∈ s.bindings, b.actorId = a.actorId ∧ a.barrierToken = some token := by
    rcases horigin b hb with ⟨hnone, -⟩ | ⟨a, ha, hid, hsame, -⟩
    · rw [hnone] at hbtoken
      cases hbtoken
    · exact ⟨a, ha, hid, hsame.symm.trans hbtoken⟩
  constructor
  · exact ht
  · exact h.barriers.sublist (hbarriers.map Prod.fst)
  · exact htoken ▸ h.token_lt
  · intro x hx
    rw [Issued, htoken]
    exact h.issued x (hbarriers.subset hx)
  · intro b hb token hbtoken
    obtain ⟨a, ha, -, hatoken⟩ := hsealed hb hbtoken
    rw [Issued, htoken]
    exact h.tokens a ha token hatoken
  · intro b hb x hx hbtoken
    obtain ⟨a, ha, hid, hatoken⟩ := hsealed hb hbtoken
    rw [hid]
    exact h.matched a ha x (hbarriers.subset hx) hatoken
  · intro b hb token hbtoken
    obtain ⟨a, ha, hid, hatoken⟩ := hsealed hb hbtoken
    exact howed b hb token hbtoken (hid ▸ h.owed a ha token hatoken)
  · intro b hb hheld
    rcases horigin b hb with ⟨-, hempty⟩ | ⟨a, ha, -, hsame, hfrom⟩
    · exact absurd hempty hheld
    · rw [hsame]
      exact (hfrom hheld).elim (h.sealed a ha) id

theorem sealWith (h : Awaited s) (hnext : s.nextBarrierToken ≠ 0) {actor : ObjectRef}
    {affected : Option Aggregate} (ha : ∀ a ∈ affected, a ∈ s.bindings ∧ a.barrierToken = none ∧
      exactActor a.binding.actor actor) : Awaited (s.sealWith actor affected) := by
  have hmem : ∀ b ∈ (s.sealWith actor affected).bindings,
      b ∈ s.bindings ∨ b.barrierToken = some s.nextBarrierToken ∧ b.actorId = actor.key := by
    intro b hb
    cases affected with
    | none => exact .inl hb
    | some a =>
      obtain ⟨hmem, -, hexact⟩ := ha a rfl
      rcases mem_modify hb with ⟨hb, -⟩ | ⟨c, hc, hkey, rfl⟩
      · exact .inl hb
      · obtain rfl := h.indexed.eq_of_actorId hc hmem (congrArg Prod.snd hkey)
        refine .inr ⟨rfl, ?_⟩
        rw [← Effect.exactActor_eq hexact]
        exact (h.indexed.actorId_eq hmem : c.actorId = c.binding.actor.key)
  have hbarriers : (s.sealWith actor affected).barriers =
      (s.nextBarrierToken, actor) :: s.barriers := by
    cases affected with
    | none | some => rfl
  have hissued {token : ℕ} (h' : Issued s token) : Issued (s.sealWith actor affected) token := by
    rcases h' with hzero | hlt
    · exact absurd hzero hnext
    · exact Issued.next h.token_lt hnext hlt.le rfl
  constructor
  · cases affected with
    | none => exact h.indexed.of_same { connections := rfl, places := rfl, index := rfl }
    | some a => exact h.indexed.of_same (.edit a rfl rfl rfl fun _ _ _ => rfl)
  · rw [hbarriers]
    apply h.barriers.cons
    intro hin
    obtain ⟨x, hx, heq⟩ := List.mem_map.mp hin
    exact issued_ne hnext (h.issued x hx) heq
  · exact Nat.mod_lt _ (by decide)
  · intro x hx
    rw [hbarriers] at hx
    rcases List.mem_cons.mp hx with rfl | hx
    · exact Issued.next h.token_lt hnext le_rfl rfl
    · exact hissued (h.issued x hx)
  · intro b hb token htoken
    rcases hmem b hb with hb | ⟨hnew, -⟩
    · exact hissued (h.tokens b hb token htoken)
    · rw [hnew] at htoken
      exact Option.some.inj htoken ▸ Issued.next h.token_lt hnext le_rfl rfl
  · intro b hb x hx htoken
    rw [hbarriers] at hx
    rcases hmem b hb with hb | ⟨hnew, hid⟩
    · rcases List.mem_cons.mp hx with rfl | hx
      · exact absurd rfl (issued_ne hnext (h.tokens b hb _ htoken))
      · exact h.matched b hb x hx htoken
    · rcases List.mem_cons.mp hx with rfl | hx
      · exact hid.symm
      · rw [hnew] at htoken
        exact absurd (Option.some.inj htoken).symm (issued_ne hnext (h.issued x hx))
  · intro b hb token htoken
    rcases hmem b hb with hb | ⟨hnew, -⟩
    · rcases h.owed b hb token htoken with hout | hstart | hdrain
      · left
        rw [hbarriers]
        exact List.mem_cons_of_mem _ hout
      · right
        left
        cases affected with
        | none | some => exact hstart
      · right
        right
        cases affected with
        | none | some => exact hdrain
    · left
      rw [hbarriers]
      rw [hnew] at htoken
      exact Option.some.inj htoken ▸ List.mem_cons_self
  · intro b hb hheld
    cases affected with
    | none => exact h.sealed b hb hheld
    | some a =>
      rcases mem_modify hb with ⟨hb, -⟩ | ⟨c, hc, hkey, rfl⟩
      · exact h.sealed b hb hheld
      · exact nofun

theorem remove (h : Awaited s) (ht : Indexed t) (htoken : t.nextBarrierToken = s.nextBarrierToken)
    (hbindings : t.bindings.Sublist s.bindings) (hbarriers : t.barriers.Sublist s.barriers)
    (howed : ∀ b ∈ t.bindings, ∀ token, b.barrierToken = some token →
      Owed s b.actorId token → Owed t b.actorId token) : Awaited t := by
  apply h.follow ht htoken hbarriers _ howed
  intro b hb
  exact .inr ⟨b, hbindings.subset hb, rfl, rfl, .inl⟩

theorem edit (h : Awaited s) (ht : Indexed t)
    (htoken : t.nextBarrierToken = s.nextBarrierToken) {a : Aggregate} (ha : a ∈ s.bindings)
    {f : Aggregate → Aggregate}
    (hbindings : t.bindings = Keyed.modify Aggregate.key a.key f s.bindings)
    (hbarriers : t.barriers.Sublist s.barriers)
    (hf : (f a).barrierToken = none ∧ (f a).heldRelays = [] ∨
      (f a).actorId = a.actorId ∧ (f a).barrierToken = a.barrierToken ∧
        ((f a).heldRelays ≠ [] → a.heldRelays ≠ [] ∨ a.barrierToken ≠ none))
    (howed : ∀ b ∈ t.bindings, ∀ token, b.barrierToken = some token →
      Owed s b.actorId token → Owed t b.actorId token) : Awaited t := by
  apply h.follow ht htoken hbarriers _ howed
  intro b hb
  rw [hbindings] at hb
  rcases mem_modify hb with ⟨hb, -⟩ | ⟨c, hc, hkey, rfl⟩
  · exact .inr ⟨b, hb, rfl, rfl, .inl⟩
  · obtain rfl := h.indexed.eq_of_actorId hc ha (congrArg Prod.snd hkey)
    rcases hf with hclear | hkeep
    · exact .inl hclear
    · exact .inr ⟨c, hc, hkeep⟩

theorem owed_endBarrier (h : Awaited s) {token : ℕ} {actor : ObjectRef}
    (hout : s.outstanding token actor) {a : Aggregate} (ha : a ∈ s.bindings) {other : ℕ}
    (hbarrier : a.barrierToken = some other) (howed : Owed s a.actorId other) :
    Owed (s.endBarrier token actor.key) a.actorId other := by
  rcases howed with hin | hstart | hdrain
  · obtain ⟨x, hx, rfl⟩ := List.mem_map.mp hin
    by_cases heq : x.1 = token
    · have hfind : s.barrier token = some x.2 := by
        rw [barrier, ← heq, find_of_mem h.barriers hx]
        rfl
      rw [outstanding, hfind, Option.any_some] at hout
      have hkey := h.matched a ha x hx hbarrier
      rw [Effect.exactActor_eq hout] at hkey
      exact .inr (.inl (hkey ▸ List.mem_cons_self))
    · exact .inl (List.mem_map.mpr ⟨x, mem_erase_of_mem hx heq, rfl⟩)
  · exact .inr (.inl (List.mem_cons_of_mem _ hstart))
  · exact .inr (.inr hdrain)

theorem owed_startTaken {actorId other : String} {token : ℕ} (hne : other ≠ actorId)
    (howed : Owed s other token) : Owed (s.startTaken actorId) other token := by
  rcases howed with hin | hstart | hdrain
  · exact .inl hin
  · exact .inr (.inl ((List.mem_erase_of_ne hne).mpr hstart))
  · exact .inr (.inr hdrain)

theorem owed_drainTaken {actorId other : String} {token token' : ℕ}
    (hne : (other, token') ≠ (actorId, token)) (howed : Owed s other token') :
    Owed (s.drainTaken actorId token) other token' := by
  rcases howed with hin | hstart | hdrain
  · exact .inl hin
  · exact .inr (.inl hstart)
  · exact .inr (.inr ((List.mem_erase_of_ne hne).mpr hdrain))

theorem bound (h : Awaited s) (ht : Indexed t) {publication : Publication}
    (hbound : BindOutcome s publication t outputs) : Awaited t := by
  cases hbound with
  | refused => exact h
  | installed binding own hbinds =>
    rw [install_eq] at ht ⊢
    apply h.follow ht rfl (List.Sublist.refl _) _ fun _ _ _ _ howed => howed
    intro b hb
    rcases List.mem_cons.mp hb with rfl | hb
    · exact .inl ⟨rfl, rfl⟩
    · have hold : b ∈ (s.advance binding.bindingGeneration).bindings :=
        remaining_sublist.subset hb
      exact .inr ⟨b, hold, rfl, rfl, .inl⟩
  | takenBack binding own hbinds =>
    obtain ⟨-, huntouched⟩ := h.indexed.takenBack binding
    have hmem := huntouched.mem h.indexed ht
    rw [Indexed.rollback_eq, install_eq] at ht hmem ⊢
    apply h.follow ht rfl (List.Sublist.refl _) _ fun _ _ _ _ howed => howed
    exact fun b hb => .inr ⟨b, (hmem b).mp hb, rfl, rfl, .inl⟩

theorem step (h : Awaited s) (heffect : Effect s e t outputs) : Awaited t := by
  have hs := h.indexed
  have ht := heffect.indexed hs
  have hall {xs : List (ℕ × ObjectRef)} : xs.Sublist xs := List.Sublist.refl xs
  cases heffect with
  | nothing => exact h
  | opened | closed | unbound =>
    exact h.remove ht rfl List.filter_sublist hall fun _ _ _ _ howed => howed
  | bound hbound => exact h.bound ht hbound
  | restored binding hrestores =>
    rw [install_eq] at ht ⊢
    apply h.follow ht rfl hall _ fun _ _ _ _ howed => howed
    intro b hb
    rcases List.mem_cons.mp hb with rfl | hb
    · exact .inl ⟨rfl, rfl⟩
    · have hold : b ∈ (s.adopt binding.bindingGeneration).bindings :=
        remaining_sublist.subset hb
      exact .inr ⟨b, hold, rfl, rfl, .inl⟩
  | admitted a ha =>
    exact h.edit ht rfl ha rfl hall (.inr ⟨rfl, rfl, .inl⟩) fun _ _ _ _ howed => howed
  | held a _ ha hbarrier | delivered a _ _ _ _ ha hbarrier =>
    have hsome : a.barrierToken ≠ none := by
      rw [hbarrier]
      exact nofun
    exact h.edit ht rfl ha rfl hall (.inr ⟨rfl, rfl, fun _ => .inr hsome⟩)
      fun _ _ _ _ howed => howed
  | completed | sealedAll | releasedAll =>
    exact h.remove ht rfl (List.Sublist.refl _) hall fun _ _ _ _ howed => howed
  | sealed actor affected ha hnext => exact h.sealWith hnext ha
  | ended token actor hout =>
    exact h.remove ht rfl (List.Sublist.refl _) List.filter_sublist
      fun b hb other hother howed => h.owed_endBarrier hout hb hother howed
  | committed token a next ha hbarrier hout hkey =>
    apply h.edit ht rfl ha rfl List.filter_sublist (.inr ⟨rfl, rfl, .inl⟩)
    intro b hb other hother howed
    have hid : a.actorId = a.binding.actor.key := hs.actorId_eq ha
    rw [hid]
    rcases mem_modify hb with ⟨hb, -⟩ | ⟨c, hc, -, rfl⟩
    · exact h.owed_endBarrier hout hb hother howed
    · exact h.owed_endBarrier hout hc hother howed
  | closedSeal token actor a ha =>
    apply h.remove ht rfl List.filter_sublist List.filter_sublist
    intro b hb other hother howed
    obtain ⟨hb, hkeep⟩ := List.mem_filter.mp hb
    rcases howed with hin | hstart | hdrain
    · obtain ⟨x, hx, rfl⟩ := List.mem_map.mp hin
      left
      refine List.mem_map.mpr ⟨x, List.mem_filter.mpr ⟨hx, ?_⟩, rfl⟩
      rw [decide_eq_true_eq, h.matched b hb x hx hother]
      intro hclosed
      obtain ⟨c, hc, hid⟩ := List.mem_map.mp hclosed
      obtain ⟨hc, hconnection⟩ := Indexed.mem_bindingsOf.mp hc
      rw [hs.eq_of_actorId hc hb hid] at hconnection
      exact of_decide_eq_true hkeep hconnection
    · exact .inr (.inl hstart)
    · exact .inr (.inr hdrain)
  | dropped =>
    apply h.follow ht rfl hall _ fun _ _ _ _ howed => howed
    intro b hb
    obtain ⟨a, ha, rfl⟩ := List.mem_map.mp hb
    exact .inr ⟨a, ha, rfl, rfl, fun hheld => absurd rfl hheld⟩
  | startedNothing actorId hstart hnone =>
    apply h.remove ht rfl (List.Sublist.refl _) hall
    intro b hb other hother howed
    apply owed_startTaken _ howed
    intro hid
    rw [hnone b hb hid] at hother
    cases hother
  | startCleared a hstart ha hbarrier hheld =>
    apply h.edit ht rfl ha rfl hall (.inl ⟨rfl, hheld⟩)
    intro b hb other hother howed
    rcases mem_modify hb with ⟨hb, hne⟩ | ⟨c, hc, -, rfl⟩
    · exact owed_startTaken (fun hid => hne (hs.eq_of_actorId hb ha hid ▸ rfl)) howed
    · cases hother
  | started a token hstart ha hbarrier hheld =>
    apply h.remove ht rfl (List.Sublist.refl _) hall
    intro b hb other hother howed
    by_cases hid : b.actorId = a.actorId
    · obtain rfl := hs.eq_of_actorId hb ha hid
      rw [hbarrier] at hother
      exact .inr (.inr (Option.some.inj hother ▸ List.mem_cons_self))
    · rcases owed_startTaken hid howed with hin | hstart | hdrain
      · exact .inl hin
      · exact .inr (.inl hstart)
      · exact .inr (.inr (List.mem_cons_of_mem _ hdrain))
  | drainedNothing actorId token hdrain he hnone =>
    apply h.remove ht rfl (List.Sublist.refl _) hall
    intro b hb other hother howed
    apply owed_drainTaken _ howed
    intro heq
    obtain ⟨hid, rfl⟩ := Prod.mk.inj heq
    exact hnone b hb hid hother
  | drained a token hdrain ha hbarrier hheld =>
    apply h.edit ht rfl ha rfl hall (.inl ⟨rfl, hheld⟩)
    intro b hb other hother howed
    rcases mem_modify hb with ⟨hb, hne⟩ | ⟨c, hc, -, rfl⟩
    · exact owed_drainTaken
        (fun heq => hne (hs.eq_of_actorId hb ha (Prod.mk.inj heq).1 ▸ rfl)) howed
    · cases hother
  | failed a token hdrain ha =>
    apply h.edit ht rfl ha rfl hall (.inl ⟨rfl, rfl⟩)
    intro b hb other hother howed
    rcases mem_modify hb with ⟨hb, hne⟩ | ⟨c, hc, -, rfl⟩
    · exact owed_drainTaken
        (fun heq => hne (hs.eq_of_actorId hb ha (Prod.mk.inj heq).1 ▸ rfl)) howed
    · cases hother
  | forceClosed =>
    apply h.remove ht rfl (List.nil_sublist _) (List.nil_sublist _)
    intro b hb
    cases hb

theorem init : Awaited Registry.init where
  indexed := .init
  barriers := List.nodup_nil
  token_lt := by decide
  issued := nofun
  tokens := nofun
  matched := nofun
  owed := nofun
  sealed := nofun

end Awaited

end Zlink.Session
