import Zlink.Session.Relays

/-!
# The numbers of inbound dispatches

A binding gives the numbers 1, 2, 3, … to the dispatches that it admits or holds. Two bindings
under one connection and generation would each start at one; `renews` says that a binding which
is installed under a given generation is the first to give numbers there.
-/

namespace Zlink.Session

open Keyed Registry

def Aggregate.locator (aggregate : Aggregate) : Locator :=
  aggregate.binding.locator

def Dispatch.under (locator : Locator) (dispatch : Dispatch) : Option ℕ :=
  if dispatch.binding.locator = locator then some dispatch.inboundSequence else none

def Output.number (locator : Locator) : Output → Option ℕ
  | .admitted dispatch => dispatch.under locator
  | .held dispatch _ => dispatch.under locator
  | _ => none

def Output.active (locator : Locator) : Output → Option ℕ
  | .admitted dispatch => dispatch.under locator
  | .delivered dispatch _ => dispatch.under locator
  | _ => none

def numbers (log : List Output) (locator : Locator) : List ℕ :=
  log.filterMap (Output.number locator)

def activated (log : List Output) (locator : Locator) : List ℕ :=
  log.filterMap (Output.active locator)

def Recorded.renews (w : Recorded) (e : Event) : Bool :=
  (w.registry.adopts e).all fun adopted =>
    decide (numbers w.log adopted.1 = []) &&
      w.registry.bindings.all fun a => a.binding.locator ≠ adopted.1 || a.actorId = adopted.2

variable {s t : Registry} {e : Event} {outputs log : List Output} {locator : Locator}
  {a : Aggregate}

theorem numbers_append (xs ys : List Output) (locator : Locator) :
    numbers (xs ++ ys) locator = numbers xs locator ++ numbers ys locator :=
  List.filterMap_append

theorem activated_append (xs ys : List Output) (locator : Locator) :
    activated (xs ++ ys) locator = activated xs locator ++ activated ys locator :=
  List.filterMap_append

/-- An aggregate agrees with what its callers have seen: it has given the numbers below its next
one, and it holds some of them in order, all behind those whose dispatches have become active. -/
structure Fits (log : List Output) (a : Aggregate) : Prop where
  positive : 1 ≤ a.nextInboundSequence
  given : numbers log a.binding.locator = List.range' 1 (a.nextInboundSequence - 1)
  ahead : (activated log a.binding.locator ++
    a.heldRelays.map fun held => held.dispatch.inboundSequence).Pairwise (· < ·)
  below : ∀ held ∈ a.heldRelays, held.dispatch.inboundSequence < a.nextInboundSequence
  stored : ∀ held ∈ a.heldRelays, .held held.dispatch held.relay ∈ log ∧
    held.dispatch.binding.locator = a.binding.locator

structure Consistent (log : List Output) : Prop where
  consecutive : ∀ locator, ∃ n, numbers log locator = List.range' 1 n
  active : ∀ locator, ∀ number ∈ activated log locator, number ∈ numbers log locator
  increasing : ∀ locator, (activated log locator).Pairwise (· < ·)
  delivered : ∀ dispatch relay, .delivered dispatch relay ∈ log →
    ∃ first, .held first relay ∈ log ∧ first.binding.locator = dispatch.binding.locator ∧
      first.inboundSequence = dispatch.inboundSequence

def Counted (s : Registry) (generation : ℕ) : Prop :=
  generation < s.nextBindingGeneration ∨ generation = uint64Max

structure Numbered (w : Recorded) : Prop where
  locators : Keyed.Unique Aggregate.locator w.registry.bindings
  fits : ∀ a ∈ w.registry.bindings, Fits w.log a
  consistent : Consistent w.log
  counted : ∀ a ∈ w.registry.bindings, Counted w.registry a.binding.bindingGeneration
  numbered : ∀ locator, numbers w.log locator ≠ [] → Counted w.registry locator.bindingGeneration

namespace Fits

theorem lt_next (h : Fits log a) (hlog : Consistent log) :
    ∀ number ∈ activated log a.binding.locator, number < a.nextInboundSequence := by
  intro number hnumber
  have hmem := hlog.active _ number hnumber
  rw [h.given, List.mem_range'_1] at hmem
  have hpos := h.positive
  omega

theorem append (h : Fits log a) (hnumber : numbers outputs a.binding.locator = [])
    (hactive : activated outputs a.binding.locator = []) : Fits (log ++ outputs) a where
  positive := h.positive
  given := by
    rw [numbers_append, hnumber, List.append_nil]
    exact h.given
  ahead := by
    rw [activated_append, hactive, List.append_nil]
    exact h.ahead
  below := h.below
  stored := fun held hheld =>
    ⟨List.mem_append_left _ (h.stored held hheld).1, (h.stored held hheld).2⟩

theorem of_sublist (h : Fits log a) {b : Aggregate}
    (hnumber : b.nextInboundSequence = a.nextInboundSequence)
    (hlocator : b.binding.locator = a.binding.locator)
    (hheld : b.heldRelays.Sublist a.heldRelays) : Fits log b where
  positive := hnumber ▸ h.positive
  given := by
    rw [hlocator, hnumber]
    exact h.given
  ahead := by
    rw [hlocator]
    exact h.ahead.sublist ((List.Sublist.refl _).append (hheld.map _))
  below := by
    rw [hnumber]
    exact fun held hmem => h.below held (hheld.subset hmem)
  stored := by
    rw [hlocator]
    exact fun held hmem => h.stored held (hheld.subset hmem)

theorem new (hlog : Consistent log) {b : Aggregate} (hnext : b.nextInboundSequence = 1)
    (hheld : b.heldRelays = []) (hnone : numbers log b.binding.locator = []) : Fits log b where
  positive := hnext.ge
  given := by
    rw [hnone, hnext]
    rfl
  ahead := by
    rw [hheld, List.map_nil, List.append_nil]
    exact hlog.increasing _
  below := by
    rw [hheld]
    exact nofun
  stored := by
    rw [hheld]
    exact nofun

end Fits

theorem mem_append_singleton {xs : List Output} {first last : Output} (h : first ∈ xs ++ [last])
    (hne : first ≠ last) : first ∈ xs := by
  rcases List.mem_append.mp h with hold | hnew
  · exact hold
  · exact absurd (List.mem_singleton.mp hnew) hne

theorem Fits.given_next (h : Fits log a) :
    numbers log a.binding.locator ++ [a.nextInboundSequence] =
      List.range' 1 a.nextInboundSequence := by
  obtain ⟨given, hgiven⟩ := Nat.exists_eq_add_of_le' h.positive
  rw [h.given, hgiven, Nat.add_sub_cancel, List.range'_1_concat, Nat.add_comm]

theorem Fits.mem_below (h : Fits log a) (hlog : Consistent log) :
    ∀ number ∈ activated log a.binding.locator ++
        a.heldRelays.map (fun held => held.dispatch.inboundSequence),
      number < a.nextInboundSequence := by
  intro number hnumber
  rcases List.mem_append.mp hnumber with hactive | hheld
  · exact h.lt_next hlog number hactive
  · obtain ⟨held, hmem, rfl⟩ := List.mem_map.mp hheld
    exact h.below held hmem

namespace Consistent

theorem consecutive_next (hlog : Consistent log) (h : Fits log a)
    (houtputs : ∀ locator, numbers outputs locator = (a.dispatch.under locator).toList)
    (locator : Locator) : ∃ n, numbers (log ++ outputs) locator = List.range' 1 n := by
  rw [numbers_append, houtputs]
  by_cases heq : a.binding.locator = locator
  · subst heq
    refine ⟨a.nextInboundSequence, ?_⟩
    have hunder : a.dispatch.under a.binding.locator = some a.nextInboundSequence := if_pos rfl
    rw [hunder]
    exact h.given_next
  · have hunder : a.dispatch.under locator = none := if_neg heq
    rw [hunder, Option.toList_none, List.append_nil]
    exact hlog.consecutive locator

theorem admitted (hlog : Consistent log) (h : Fits log a) :
    Consistent (log ++ [.admitted a.dispatch]) where
  consecutive := hlog.consecutive_next h fun locator => by
    cases hunder : a.dispatch.under locator <;> simp [numbers, Output.number, hunder]
  active := by
    intro locator number hnumber
    rw [activated_append] at hnumber
    rw [numbers_append]
    rcases List.mem_append.mp hnumber with hold | hnew
    · exact List.mem_append_left _ (hlog.active locator number hold)
    · exact List.mem_append_right _ hnew
  increasing := by
    intro locator
    rw [activated_append, List.pairwise_append]
    refine ⟨hlog.increasing locator, ?_, ?_⟩
    · cases hunder : a.dispatch.under locator <;> simp [activated, Output.active, hunder]
    · intro number hnumber last hlast
      by_cases heq : a.binding.locator = locator
      · subst heq
        have hunder : a.dispatch.under a.binding.locator = some a.nextInboundSequence := if_pos rfl
        simp only [activated, List.filterMap_cons, Output.active, hunder, List.filterMap_nil,
          List.mem_singleton] at hlast
        exact hlast ▸ h.lt_next hlog number hnumber
      · have hunder : a.dispatch.under locator = none := if_neg heq
        simp [activated, Output.active, hunder] at hlast
  delivered := by
    intro dispatch relay hmem
    obtain ⟨first, hfirst, hsame⟩ :=
      hlog.delivered dispatch relay (mem_append_singleton hmem nofun)
    exact ⟨first, List.mem_append_left _ hfirst, hsame⟩

theorem hold (hlog : Consistent log) (h : Fits log a) (relay : ℕ) :
    Consistent (log ++ [.held a.dispatch relay]) where
  consecutive := hlog.consecutive_next h fun locator => by
    cases hunder : a.dispatch.under locator <;> simp [numbers, Output.number, hunder]
  active := by
    intro locator number hnumber
    have hnone : activated [.held a.dispatch relay] locator = [] := rfl
    rw [activated_append, hnone, List.append_nil] at hnumber
    rw [numbers_append]
    exact List.mem_append_left _ (hlog.active locator number hnumber)
  increasing := by
    intro locator
    have hnone : activated [.held a.dispatch relay] locator = [] := rfl
    rw [activated_append, hnone, List.append_nil]
    exact hlog.increasing locator
  delivered := by
    intro dispatch relay' hmem
    obtain ⟨first, hfirst, hsame⟩ :=
      hlog.delivered dispatch relay' (mem_append_singleton hmem nofun)
    exact ⟨first, List.mem_append_left _ hfirst, hsame⟩

end Consistent

namespace Fits

theorem admitted (h : Fits log a) (hlog : Consistent log) (hheld : a.heldRelays = []) :
    Fits (log ++ [.admitted a.dispatch])
      { a with nextInboundSequence := a.nextInboundSequence + 1 } := by
  have hunder : a.dispatch.under a.binding.locator = some a.nextInboundSequence := if_pos rfl
  have hnumber : numbers [.admitted a.dispatch] a.binding.locator = [a.nextInboundSequence] := by
    simp [numbers, Output.number, hunder]
  constructor
  · exact Nat.le_add_left _ _
  · rw [numbers_append, hnumber, Nat.add_sub_cancel]
    exact h.given_next
  · have hincreasing := (hlog.admitted h).increasing a.binding.locator
    simp only [hheld, List.map_nil, List.append_nil]
    exact hincreasing
  all_goals
    simp only [hheld]
    exact nofun

theorem hold (h : Fits log a) (hlog : Consistent log) (relay : ℕ) :
    Fits (log ++ [.held a.dispatch relay]) { a with
      heldRelays := a.heldRelays ++ [{ dispatch := a.dispatch, relay }]
      nextInboundSequence := a.nextInboundSequence + 1 } := by
  have hunder : a.dispatch.under a.binding.locator = some a.nextInboundSequence := if_pos rfl
  have hnumber : numbers [.held a.dispatch relay] a.binding.locator = [a.nextInboundSequence] := by
    simp [numbers, Output.number, hunder]
  have hnone : activated [.held a.dispatch relay] a.binding.locator = [] := rfl
  constructor
  · exact Nat.le_add_left _ _
  · rw [numbers_append, hnumber, Nat.add_sub_cancel]
    exact h.given_next
  · simp only
    rw [activated_append, hnone, List.append_nil, List.map_append, ← List.append_assoc,
      List.pairwise_append]
    refine ⟨h.ahead, List.pairwise_singleton _ _, ?_⟩
    intro number hmem last hlast
    rw [List.mem_singleton.mp hlast]
    exact h.mem_below hlog number hmem
  · intro held hmem
    rcases List.mem_append.mp hmem with hold | hnew
    · exact (h.below held hold).trans (Nat.lt_succ_self _)
    · rw [List.mem_singleton.mp hnew]
      exact Nat.lt_succ_self _
  · intro held hmem
    rcases List.mem_append.mp hmem with hold | hnew
    · exact ⟨List.mem_append_left _ (h.stored held hold).1, (h.stored held hold).2⟩
    · rw [List.mem_singleton.mp hnew]
      exact ⟨List.mem_append_right _ (List.mem_singleton.mpr rfl), rfl⟩

end Fits

section Delivery

variable {next : Held} {rest : List Held}

def delivery (a : Aggregate) (next : Held) : Output :=
  .delivered { next.dispatch with binding := a.binding } next.relay

theorem activated_delivery : activated [delivery a next] locator =
      if a.binding.locator = locator then [next.dispatch.inboundSequence] else [] := by
  by_cases heq : a.binding.locator = locator
  all_goals simp [activated, delivery, Output.active, Dispatch.under, heq]

theorem Fits.deliver (h : Fits log a) (hheld : a.heldRelays = next :: rest) :
    Fits (log ++ [delivery a next]) { a with heldRelays := rest } := by
  have hahead := h.ahead
  have hbelow := h.below
  have hstored := h.stored
  rw [hheld] at hahead hbelow hstored
  have hnone : numbers [delivery a next] a.binding.locator = [] := rfl
  constructor
  · exact h.positive
  · rw [numbers_append, hnone, List.append_nil]
    exact h.given
  · simp only
    rw [activated_append, activated_delivery, if_pos rfl, List.append_assoc]
    exact hahead
  · exact fun held hmem => hbelow held (List.mem_cons_of_mem _ hmem)
  · intro held hmem
    obtain ⟨hin, hlocator⟩ := hstored held (List.mem_cons_of_mem _ hmem)
    exact ⟨List.mem_append_left _ hin, hlocator⟩

theorem Consistent.deliver (hlog : Consistent log) (h : Fits log a)
    (hheld : a.heldRelays = next :: rest) : Consistent (log ++ [delivery a next]) := by
  have hmem : next ∈ a.heldRelays := hheld ▸ List.mem_cons_self
  obtain ⟨hstored, hlocator⟩ := h.stored next hmem
  have hnone (locator : Locator) : numbers [delivery a next] locator = [] := rfl
  constructor
  · intro locator
    rw [numbers_append, hnone, List.append_nil]
    exact hlog.consecutive locator
  · intro locator number hnumber
    rw [activated_append, activated_delivery] at hnumber
    rw [numbers_append]
    apply List.mem_append_left
    rcases List.mem_append.mp hnumber with hold | hnew
    · exact hlog.active locator number hold
    · split at hnew
      · rename_i heq
        rw [List.mem_singleton.mp hnew]
        refine List.mem_filterMap.mpr ⟨_, hstored, ?_⟩
        exact if_pos (hlocator.trans heq)
      · cases hnew
  · intro locator
    rw [activated_append, activated_delivery]
    split
    · rename_i heq
      have hahead := h.ahead
      rw [hheld, List.map_cons, heq] at hahead
      exact hahead.sublist ((List.Sublist.refl _).append
        (List.Sublist.cons_cons _ (List.nil_sublist _)))
    · rw [List.append_nil]
      exact hlog.increasing locator
  · intro dispatch relay hdelivered
    rcases List.mem_append.mp hdelivered with hold | hnew
    · obtain ⟨first, hfirst, hsame⟩ := hlog.delivered dispatch relay hold
      exact ⟨first, List.mem_append_left _ hfirst, hsame⟩
    · obtain ⟨rfl, rfl⟩ := Output.delivered.inj (List.mem_singleton.mp hnew)
      exact ⟨next.dispatch, List.mem_append_left _ hstored, hlocator, rfl⟩

end Delivery

def Output.Silent : Output → Prop
  | .published _ _ => True
  | .restored _ => True
  | .settled _ => True
  | _ => False

theorem silent_settle (held : List Held) : ∀ output ∈ settle held, output.Silent := by
  intro output houtput
  obtain ⟨relay, -, rfl⟩ := List.mem_map.mp houtput
  trivial

theorem numbers_silent (h : ∀ output ∈ outputs, output.Silent) (locator : Locator) :
    numbers outputs locator = [] ∧ activated outputs locator = [] := by
  constructor
  all_goals
    apply List.filterMap_eq_nil_iff.mpr
    intro output houtput
    have hsilent := h output houtput
    cases output with
    | published | restored | settled => rfl
    | admitted | held | delivered => cases hsilent

theorem Consistent.silent (hlog : Consistent log) (h : ∀ output ∈ outputs, output.Silent) :
    Consistent (log ++ outputs) where
  consecutive := by
    intro locator
    rw [numbers_append, (numbers_silent h locator).1, List.append_nil]
    exact hlog.consecutive locator
  active := by
    intro locator
    rw [numbers_append, activated_append, (numbers_silent h locator).1,
      (numbers_silent h locator).2, List.append_nil, List.append_nil]
    exact hlog.active locator
  increasing := by
    intro locator
    rw [activated_append, (numbers_silent h locator).2, List.append_nil]
    exact hlog.increasing locator
  delivered := by
    intro dispatch relay hmem
    rcases List.mem_append.mp hmem with hold | hnew
    · obtain ⟨first, hfirst, hsame⟩ := hlog.delivered dispatch relay hold
      exact ⟨first, List.mem_append_left _ hfirst, hsame⟩
    · cases h _ hnew

theorem Counted.mono {generation : ℕ} (h : Counted s generation)
    (hmono : s.nextBindingGeneration ≤ t.nextBindingGeneration) : Counted t generation :=
  h.imp (fun hlt => hlt.trans_le hmono) id

namespace Numbered

variable {w v : Recorded}

theorem silent (h : Numbered w) (hlog : v.log = w.log ++ outputs)
    (hsilent : ∀ output ∈ outputs, output.Silent)
    (hmono : w.registry.nextBindingGeneration ≤ v.registry.nextBindingGeneration)
    (hlocators : Keyed.Unique Aggregate.locator v.registry.bindings)
    (hmem : ∀ b ∈ v.registry.bindings,
      (∃ a ∈ w.registry.bindings, b.nextInboundSequence = a.nextInboundSequence ∧
        b.binding.locator = a.binding.locator ∧ b.heldRelays.Sublist a.heldRelays) ∨
      b.nextInboundSequence = 1 ∧ b.heldRelays = [] ∧ numbers w.log b.binding.locator = [] ∧
        Counted v.registry b.binding.bindingGeneration) : Numbered v where
  locators := hlocators
  fits := by
    intro b hb
    have hnone := numbers_silent hsilent b.binding.locator
    rw [hlog]
    rcases hmem b hb with ⟨a, ha, hnumber, hlocator, hheld⟩ | ⟨hnext, hheld, hfresh, -⟩
    · exact ((h.fits a ha).of_sublist hnumber hlocator hheld).append hnone.1 hnone.2
    · exact (Fits.new h.consistent hnext hheld hfresh).append hnone.1 hnone.2
  consistent := by
    rw [hlog]
    exact h.consistent.silent hsilent
  counted := by
    intro b hb
    rcases hmem b hb with ⟨a, ha, -, hlocator, -⟩ | ⟨-, -, -, hcounted⟩
    · have hgeneration : b.binding.bindingGeneration = a.binding.bindingGeneration :=
        congrArg Locator.bindingGeneration hlocator
      rw [hgeneration]
      exact (h.counted a ha).mono hmono
    · exact hcounted
  numbered := by
    intro locator hne
    rw [hlog, numbers_append, (numbers_silent hsilent locator).1, List.append_nil] at hne
    exact (h.numbered locator hne).mono hmono

theorem unique_becomes {a b : Aggregate} (hab : Becomes s t a b)
    (hlocator : b.binding.locator = a.binding.locator)
    (h : Keyed.Unique Aggregate.locator s.bindings) :
    Keyed.Unique Aggregate.locator t.bindings := by
  obtain ⟨rest, hs, ht⟩ := hab
  have hmap : (b :: rest).map Aggregate.locator = (a :: rest).map Aggregate.locator := by
    rw [List.map_cons, List.map_cons]
    exact congrArg (· :: _) hlocator
  apply (ht.map Aggregate.locator).nodup_iff.mpr
  rw [hmap]
  exact (hs.map Aggregate.locator).nodup_iff.mp h

theorem becomes (h : Numbered w) (hlog : v.log = w.log ++ outputs) {a b : Aggregate}
    (hab : Becomes w.registry v.registry a b)
    (hmono : w.registry.nextBindingGeneration ≤ v.registry.nextBindingGeneration)
    (hlocator : b.binding.locator = a.binding.locator) (hfits : Fits (w.log ++ outputs) b)
    (hconsistent : Consistent (w.log ++ outputs))
    (hothers : ∀ locator, locator ≠ a.binding.locator →
      numbers outputs locator = [] ∧ activated outputs locator = []) : Numbered v := by
  obtain ⟨rest, hs, ht⟩ := hab
  have ha : a ∈ w.registry.bindings := hs.symm.subset List.mem_cons_self
  have hunique : Keyed.Unique Aggregate.locator (a :: rest) :=
    (hs.map Aggregate.locator).nodup_iff.mp h.locators
  have hold : ∀ c ∈ rest, c ∈ w.registry.bindings :=
    fun c hc => hs.symm.subset (List.mem_cons_of_mem _ hc)
  have hmem : ∀ c ∈ v.registry.bindings, c = b ∨ c ∈ rest :=
    fun c hc => List.mem_cons.mp (ht.subset hc)
  constructor
  · exact unique_becomes ⟨rest, hs, ht⟩ hlocator h.locators
  · intro c hc
    rw [hlog]
    rcases hmem c hc with rfl | hrest
    · exact hfits
    · have hne : c.binding.locator ≠ a.binding.locator := by
        intro heq
        exact (List.nodup_cons.mp hunique).1 (List.mem_map.mpr ⟨c, hrest, heq⟩)
      exact (h.fits c (hold c hrest)).append (hothers _ hne).1 (hothers _ hne).2
  · rw [hlog]
    exact hconsistent
  · intro c hc
    rcases hmem c hc with rfl | hrest
    · have hgeneration : c.binding.bindingGeneration = a.binding.bindingGeneration :=
        congrArg Locator.bindingGeneration hlocator
      rw [hgeneration]
      exact (h.counted a ha).mono hmono
    · exact (h.counted c (hold c hrest)).mono hmono
  · intro locator hne
    by_cases heq : locator = a.binding.locator
    · rw [heq]
      exact (h.counted a ha).mono hmono
    · rw [hlog, numbers_append, (hothers locator heq).1, List.append_nil] at hne
      exact (h.numbered locator hne).mono hmono

theorem install (h : Numbered w) (hlog : v.log = w.log ++ outputs)
    (hsilent : ∀ output ∈ outputs, output.Silent)
    (hmono : w.registry.nextBindingGeneration ≤ v.registry.nextBindingGeneration)
    {binding : Binding} {new : Aggregate} {rest gone : List Aggregate}
    (ht : v.registry.bindings = new :: rest) (hs : w.registry.bindings.Perm (rest ++ gone))
    (hnew : new.nextInboundSequence = 1 ∧ new.heldRelays = [] ∧ new.binding = binding)
    (hfresh : numbers w.log binding.locator = [])
    (htaken : ∀ a ∈ rest, a.binding.locator ≠ binding.locator)
    (hcounted : Counted v.registry binding.bindingGeneration) : Numbered v := by
  obtain ⟨hnext, hheld, rfl⟩ := hnew
  have hrest : ∀ a ∈ rest, a ∈ w.registry.bindings :=
    fun a ha => hs.symm.subset (List.mem_append_left _ ha)
  apply h.silent hlog hsilent hmono
  · rw [ht]
    apply Keyed.Unique.cons
    · have hunique := (hs.map Aggregate.locator).nodup_iff.mp h.locators
      rw [List.map_append] at hunique
      exact hunique.of_append_left
    · intro hin
      obtain ⟨a, ha, heq⟩ := List.mem_map.mp hin
      exact htaken a ha heq
  · intro b hb
    rw [ht] at hb
    rcases List.mem_cons.mp hb with rfl | hb
    · exact .inr ⟨hnext, hheld, hfresh, hcounted⟩
    · exact .inl ⟨b, hrest b hb, rfl, rfl, List.Sublist.refl _⟩

theorem renewed {w : Recorded} {actorId : String} (hrenews : w.renews e = true)
    (hgiven : w.registry.adopts e = some (locator, actorId)) : numbers w.log locator = [] ∧
      ∀ a ∈ w.registry.bindings, a.binding.locator = locator → a.actorId = actorId := by
  rw [Recorded.renews, hgiven, Option.all_some, Bool.and_eq_true, decide_eq_true_eq,
    List.all_eq_true] at hrenews
  refine ⟨hrenews.1, fun a ha heq => ?_⟩
  have hactor := hrenews.2 a ha
  rw [Bool.or_eq_true, decide_eq_true_eq, decide_eq_true_eq] at hactor
  exact hactor.resolve_left (not_not.mpr heq)

theorem step (h : Numbered w) (hlog : v.log = w.log ++ outputs) (hrenews : w.renews e = true)
    (hwaits : ∀ a ∈ w.registry.bindings, a.heldRelays ≠ [] → a.barrierToken ≠ none)
    (hadvances : Advances w.registry v.registry outputs)
    (htraffic : Traffic w.registry e v.registry outputs) : Numbered v := by
  have hmono := hadvances.mono
  have hkept (hmem : ∀ b ∈ v.registry.bindings, b ∈ w.registry.bindings) :
      ∀ b ∈ v.registry.bindings,
        (∃ a ∈ w.registry.bindings, b.nextInboundSequence = a.nextInboundSequence ∧
          b.binding.locator = a.binding.locator ∧ b.heldRelays.Sublist a.heldRelays) ∨
        b.nextInboundSequence = 1 ∧ b.heldRelays = [] ∧ numbers w.log b.binding.locator = [] ∧
          Counted v.registry b.binding.bindingGeneration :=
    fun b hb => .inl ⟨b, hmem b hb, rfl, rfl, List.Sublist.refl _⟩
  have hedited {a b : Aggregate} {outputs : List Output} (hlog : v.log = w.log ++ outputs)
      (hsilent : ∀ output ∈ outputs, output.Silent) (hab : Becomes w.registry v.registry a b)
      (hnumber : b.nextInboundSequence = a.nextInboundSequence)
      (hlocator : b.binding.locator = a.binding.locator)
      (hheld : b.heldRelays.Sublist a.heldRelays) : Numbered v := by
    apply h.silent hlog hsilent hmono (unique_becomes hab hlocator h.locators)
    intro c hc
    left
    rcases hab.mem_or hc with rfl | hold
    · exact ⟨a, hab.mem, hnumber, hlocator, hheld⟩
    · exact ⟨c, hold, rfl, rfl, List.Sublist.refl _⟩
  cases htraffic with
  | kept hbindings =>
    apply h.silent hlog (silent_settle []) hmono
    · rw [hbindings]
      exact h.locators
    · exact hkept fun _ hb => hbindings ▸ hb
  | edited a b hab hnumber hheld hplace =>
    exact hedited hlog (silent_settle []) hab hnumber (Aggregate.place_eq hplace).2.2.2
      (hheld ▸ List.Sublist.refl _)
  | removed gone hperm =>
    apply h.silent hlog (silent_settle _) hmono
    · have hunique := (hperm.map Aggregate.locator).nodup_iff.mp h.locators
      rw [List.map_append] at hunique
      exact hunique.of_append_left
    · exact hkept fun _ hb => hperm.symm.subset (List.mem_append_left gone hb)
  | admitted a hbarrier hab =>
    have ha : a ∈ w.registry.bindings := hab.mem
    have hfits := h.fits a ha
    have hheld : a.heldRelays = [] := by
      by_contra hne
      exact hwaits a ha hne hbarrier
    apply h.becomes hlog hab hmono rfl (hfits.admitted h.consistent hheld)
      (h.consistent.admitted hfits)
    intro locator hne
    have hunder : a.dispatch.under locator = none := if_neg (Ne.symm hne)
    simp [numbers, activated, Output.number, Output.active, hunder]
  | held a hab =>
    have hfits := h.fits a hab.mem
    apply h.becomes hlog hab hmono rfl (hfits.hold h.consistent _) (h.consistent.hold hfits _)
    intro locator hne
    have hunder : a.dispatch.under locator = none := if_neg (Ne.symm hne)
    simp [numbers, activated, Output.number, Output.active, hunder]
  | delivered a next rest hheld hab =>
    have hfits := h.fits a hab.mem
    apply h.becomes hlog hab hmono rfl (hfits.deliver hheld) (h.consistent.deliver hfits hheld)
    intro locator hne
    exact ⟨rfl, activated_delivery.trans (if_neg (Ne.symm hne))⟩
  | failed a hab =>
    exact hedited hlog (silent_settle _) hab rfl rfl (List.nil_sublist _)
  | dropped hmap =>
    apply h.silent hlog (silent_settle _) hmono
    · have hlocators : v.registry.bindings.map Aggregate.locator =
          w.registry.bindings.map Aggregate.locator := by
        rw [hmap, List.map_map]
        rfl
      rw [Keyed.Unique, hlocators]
      exact h.locators
    · intro b hb
      rw [hmap] at hb
      obtain ⟨a, ha, rfl⟩ := List.mem_map.mp hb
      exact .inl ⟨a, ha, rfl, rfl, List.nil_sublist _⟩
  | installed binding own new rest gone ht hs hnew hbounded hown hgiven hrest =>
    have hcounted : Counted v.registry binding.bindingGeneration :=
      .inl (hadvances.passed _ List.mem_cons_self _ rfl)
    have hsilent : ∀ output ∈ Output.published binding own :: settle (heldBy gone),
        output.Silent := by
      intro output houtput
      rcases List.mem_cons.mp houtput with rfl | hsettled
      · trivial
      · exact silent_settle _ output hsettled
    have hin : ∀ a ∈ rest, a ∈ w.registry.bindings :=
      fun a ha => hs.symm.subset (List.mem_append_left _ ha)
    cases own with
    | true =>
      -- the counter is beyond every generation under which numbers were given
      have hissued := hown rfl
      have hnot : ¬ Counted w.registry binding.bindingGeneration := by
        rintro (hlt | hmax)
        · exact hlt.ne hissued
        · exact hbounded hmax
      apply h.install hlog hsilent hmono ht hs hnew _ _ hcounted
      · by_contra hne
        exact hnot (h.numbered binding.locator hne)
      · intro a ha heq
        have hgeneration : a.binding.bindingGeneration = binding.bindingGeneration :=
          congrArg Locator.bindingGeneration heq
        exact hnot (hgeneration ▸ h.counted a (hin a ha))
    | false =>
      obtain ⟨hfresh, htaken⟩ := renewed hrenews (hgiven rfl)
      exact h.install hlog hsilent hmono ht hs hnew hfresh
        (fun a ha heq => hrest a ha (htaken a (hin a ha) heq)) hcounted
  | restored binding new rest gone ht hs hnew hgiven hrest hgone =>
    have hin : ∀ a ∈ rest, a ∈ w.registry.bindings :=
      fun a ha => hs.symm.subset (List.mem_append_left _ ha)
    have hsilent : ∀ output ∈ [Output.restored binding], output.Silent := by
      intro output houtput
      rw [List.mem_singleton.mp houtput]
      trivial
    have hcounted : Counted v.registry binding.bindingGeneration := by
      by_cases hmax : binding.bindingGeneration = uint64Max
      · exact .inr hmax
      · exact .inl (hadvances.passed _ List.mem_cons_self _ (if_neg hmax))
    obtain ⟨hfresh, htaken⟩ := renewed hrenews hgiven
    exact h.install hlog hsilent hmono ht hs hnew hfresh
      (fun a ha heq => hrest a ha (htaken a (hin a ha) heq)) hcounted
  | takenBack binding own hperm =>
    apply h.silent hlog _ hmono
    · exact (hperm.map Aggregate.locator).nodup_iff.mpr h.locators
    · exact hkept fun _ hb => hperm.subset hb
    · intro output houtput
      rw [List.mem_singleton.mp houtput]
      trivial

end Numbered

/-- What holds of the numbers, the relays and the deliveries of the log. -/
structure InOrder (w : Recorded) : Prop where
  consecutive : ∀ locator, ∃ n, numbers w.log locator = List.range' 1 n
  continues : ∀ a ∈ w.registry.bindings,
    numbers w.log a.binding.locator = List.range' 1 (a.nextInboundSequence - 1)
  increasing : ∀ locator, (activated w.log locator).Pairwise (· < ·)
  behind : ∀ e t outputs, w.registry.turn e = some (t, outputs) →
    ∀ dispatch, .admitted dispatch ∈ outputs → ∀ a ∈ w.registry.bindings,
      a.binding.locator = dispatch.binding.locator → a.heldRelays = []
  distinct : (w.log.filterMap Output.heldRelay).Nodup
  once : (relays w.registry.bindings ++ w.log.filterMap Output.endedRelay).Perm
    (w.log.filterMap Output.heldRelay)
  delivered : ∀ dispatch relay, .delivered dispatch relay ∈ w.log →
    ∃ first, .held first relay ∈ w.log ∧ first.binding.locator = dispatch.binding.locator ∧
      first.inboundSequence = dispatch.inboundSequence
  awaited : ∀ a ∈ w.registry.bindings, a.heldRelays ≠ [] →
    ∃ token, a.barrierToken = some token ∧ Owed w.registry a.actorId token

structure Ingress (w : Recorded) : Prop where
  awaited : Awaited w.registry
  accounted : Accounted w
  numbered : Numbered w

theorem Traffic.admits (h : Traffic s e t outputs) {dispatch : Dispatch}
    (hadmitted : .admitted dispatch ∈ outputs) :
    ∃ a ∈ s.bindings, a.binding = dispatch.binding ∧ a.barrierToken = none := by
  have hsettle {held : List Held} : .admitted dispatch ∉ settle held :=
    fun hmem => silent_settle held _ hmem
  cases h with
  | kept | edited => cases hadmitted
  | removed | failed | dropped => exact absurd hadmitted hsettle
  | admitted a hbarrier hab =>
    obtain rfl := Output.admitted.inj (List.mem_singleton.mp hadmitted)
    exact ⟨a, hab.mem, rfl, hbarrier⟩
  | held | delivered | restored | takenBack => cases List.mem_singleton.mp hadmitted
  | installed =>
    rcases List.mem_cons.mp hadmitted with heq | hmem
    · cases heq
    · exact absurd hmem hsettle

theorem Ingress.step {w v : Recorded} (h : Ingress w) (hrenews : w.renews e = true)
    (hstep : w.step e = some v) : Ingress v := by
  obtain ⟨outputs, hturn, hlog⟩ := Recorded.step_eq hstep
  have heffect := turn_effect h.awaited.indexed hturn
  have htraffic := heffect.traffic h.awaited.indexed
  constructor
  · exact h.awaited.step heffect
  · exact h.accounted.step (htraffic.balances h.awaited.sealed) hlog
  · exact h.numbered.step hlog hrenews h.awaited.sealed heffect.advances htraffic

theorem Ingress.init : Ingress Recorded.init where
  awaited := .init
  accounted := { issued := rfl, accounted := List.Perm.nil }
  numbered :=
    { locators := List.nodup_nil
      fits := nofun
      consistent :=
        { consecutive := fun _ => ⟨0, rfl⟩
          active := nofun
          increasing := fun _ => .nil
          delivered := nofun }
      counted := nofun
      numbered := fun _ hne => absurd rfl hne }

theorem Ingress.inOrder {w : Recorded} (h : Ingress w) : InOrder w where
  consecutive := h.numbered.consistent.consecutive
  continues := fun a ha => (h.numbered.fits a ha).given
  increasing := h.numbered.consistent.increasing
  behind := by
    intro e t outputs hturn dispatch hadmitted a ha hlocator
    have htraffic := (turn_effect h.awaited.indexed hturn).traffic h.awaited.indexed
    obtain ⟨b, hb, hbinding, hbarrier⟩ := htraffic.admits hadmitted
    have hsame : a.locator = b.locator := by
      rw [Aggregate.locator, Aggregate.locator, hbinding]
      exact hlocator
    obtain rfl := eq_of_find h.numbered.locators (find_of_mem h.numbered.locators hb) ha hsame
    by_contra hne
    exact h.awaited.sealed a ha hne hbarrier
  distinct := by
    rw [h.accounted.issued]
    exact List.nodup_range
  once := by
    rw [h.accounted.issued]
    exact h.accounted.accounted
  delivered := h.numbered.consistent.delivered
  awaited := by
    intro a ha hheld
    obtain ⟨token, htoken⟩ := Option.ne_none_iff_exists'.mp (h.awaited.sealed a ha hheld)
    exact ⟨token, htoken, h.awaited.owed a ha token htoken⟩

/-- Every run keeps the ingress in order, if no binding is installed under a connection and a
generation where numbers were given or another actor has a binding. -/
theorem Recorded.run_inOrder {events : List Event} {w : Recorded}
    (hrenews : Trace.Along Recorded.step (fun w e => w.renews e = true) Recorded.init events)
    (hrun : Trace.run Recorded.step Recorded.init events = some w) : InOrder w :=
  (Trace.run_invariant (fun _ _ _ h hrenews hstep => h.step hrenews hstep) Ingress.init hrenews
    hrun).inOrder

theorem Recorded.run_inOrder_aborted :
    ∃ w, Trace.run Recorded.step Recorded.init sealedAndAborted = some w ∧ InOrder w :=
  ⟨_, rfl, @Recorded.run_inOrder sealedAndAborted _ (by decide) rfl⟩

def restoredFirst : List Event :=
  [.openNamed "first" none 0, .openNamed "second" none 0, bindOn "first",
    .attemptInbound "first" 1 "a" 1 false, bindOn "second",
    .unbind ⟨⟨"second", 1, none, 0⟩, 2, someActor, 1, 1⟩,
    .restore ⟨⟨"first", 1, none, 0⟩, 1, someActor, 1, 1⟩,
    .attemptInbound "first" 1 "a" 1 false]

/-- A binding that is restored counts its connection from one again. -/
theorem Recorded.numbers_restart :
    ¬ ∀ events w, Trace.run Recorded.step Recorded.init events = some w → InOrder w := by
  intro h
  obtain ⟨n, hn⟩ := (h restoredFirst _ rfl).consecutive ⟨⟨"first", 1, none, 0⟩, 1⟩
  have hnumbers : [1, 1] = List.range' 1 n := hn
  have hlength : 2 = n := (congrArg List.length hnumbers).trans List.length_range'
  subst hlength
  cases hnumbers

end Zlink.Session
