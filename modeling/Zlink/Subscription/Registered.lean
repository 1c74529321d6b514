import Zlink.Subscription.Mtrie

/-!
# Which pipes are registered where

`registered` reads the set of pipes of a prefix off the trie. Adding a pipe and removing
one change it at one prefix; the nodes on the way stay in good shape.
-/

namespace Zlink.Subscription

namespace Mtrie

variable {P : Type} {t u v w : Mtrie P} {p q : List UInt8} {c : UInt8} {s : Finset P}

def registered (t : Mtrie P) : List UInt8 → Finset P
  | [] => t.pipes.getD ∅
  | c :: cs =>
    match t.table.child c.toNat with
    | none => ∅
    | some u => u.registered cs

inductive Wf : Mtrie P → Prop
  | intro {t : Mtrie P} (shape : t.table.Shape 256) (pipes : t.pipes ≠ some ∅)
      (child : ∀ c u, t.table.child c = some u → Wf u)
      (kept : ∀ c u, t.table.child c = some u → u.isRedundant = false) : Wf t

theorem Wf.shape (h : t.Wf) : t.table.Shape 256 := by
  cases h
  assumption

theorem Wf.pipes (h : t.Wf) : t.pipes ≠ some ∅ := by
  cases h
  assumption

theorem Wf.child {i : ℕ} (h : t.Wf) (hu : t.table.child i = some u) : u.Wf := by
  cases h with
  | intro _ _ child _ => exact child i u hu

theorem Wf.kept {i : ℕ} (h : t.Wf) (hu : t.table.child i = some u) : u.isRedundant = false := by
  cases h with
  | intro _ _ _ kept => exact kept i u hu

theorem registered_cons (hc : t.table.child c.toNat = some u) :
    t.registered (c :: p) = u.registered p := by
  rw [registered, hc]

theorem registered_cons_none (hc : t.table.child c.toNat = none) : t.registered (c :: p) = ∅ := by
  rw [registered, hc]

theorem empty_wf : (empty : Mtrie P).Wf := by
  have hchild (c : ℕ) : (empty : Mtrie P).table.child c = none := Window.lookup_nil
  apply Wf.intro
  · exact
      { range := fun hpos => absurd hpos (lt_irrefl 0)
        tight := ⟨fun hpos => absurd hpos (lt_irrefl 0), fun hpos => absurd hpos (lt_irrefl 0)⟩
        live := rfl }
  · exact fun hsome => by cases hsome
  all_goals
    intro c u hu
    rw [hchild] at hu
    cases hu

theorem registered_empty (p : List UInt8) : (empty : Mtrie P).registered p = ∅ := by
  cases p with
  | nil => rfl
  | cons c cs => exact registered_cons_none Window.lookup_nil

theorem not_redundant_of_child {i : ℕ} (hshape : t.table.Shape 256)
    (hc : t.table.child i = some u) : t.isRedundant = false := by
  have hget : t.table.next[t.table.index i]?.join = some u := Slots.slot_of_child hc
  have hfull : t.table.full ≠ 0 := by
    rw [hshape.live]
    intro hzero
    rw [Window.live_eq_zero_iff.mp hzero] at hget
    cases hget
  simp [isRedundant, hfull]

theorem registered_of_redundant (hshape : t.table.Shape 256) (hred : t.isRedundant = true)
    (p : List UInt8) : t.registered p = ∅ := by
  cases p with
  | nil =>
    have hnone : t.pipes = none := by
      have hboth := Bool.and_eq_true_iff.mp hred
      exact Option.isNone_iff_eq_none.mp hboth.1
    rw [registered, hnone]
    rfl
  | cons c cs =>
    apply registered_cons_none
    cases hc : t.table.child c.toNat with
    | none => rfl
    | some u =>
      rw [not_redundant_of_child hshape hc] at hred
      cases hred

structure Registers (t u : Mtrie P) (p : List UInt8) (s : Finset P) : Prop where
  wf : u.Wf
  registered : ∀ q, u.registered q = if q = p then s else t.registered q

theorem Registers.here {pipes : Option (Finset P)} (h : t.Wf) (hpipes : pipes ≠ some ∅) :
    Registers t { t with pipes := pipes } [] (pipes.getD ∅) where
  wf := .intro h.shape hpipes (fun _ _ hu => h.child hu) (fun _ _ hu => h.kept hu)
  registered q := by
    cases q with
    | nil | cons => rfl

def unlessRedundant (w : Mtrie P) : Option (Mtrie P) :=
  if w.isRedundant then none else some w

theorem of_unlessRedundant (h : some u = unlessRedundant w) : u = w ∧ w.isRedundant = false := by
  unfold unlessRedundant at h
  split at h
  · cases h
  · exact ⟨Option.some.inj h, Bool.eq_false_of_not_eq_true ‹_›⟩

theorem registered_unlessRedundant (hshape : w.table.Shape 256)
    (hc : t.table.child c.toNat = unlessRedundant w) : t.registered (c :: p) = w.registered p := by
  cases hw : unlessRedundant w with
  | some u =>
    rw [hw] at hc
    rw [registered_cons hc, (of_unlessRedundant hw.symm).1]
  | none =>
    rw [hw] at hc
    have hred : w.isRedundant = true := by
      by_contra hred
      rw [unlessRedundant, if_neg hred] at hw
      cases hw
    rw [registered_cons_none hc, registered_of_redundant hshape hred]

theorem Registers.below (hw : Registers v w p s) (h : t.Wf) {table : Slots (Mtrie P)}
    (hshape : table.Shape 256)
    (hchild : ∀ i, table.child i =
      if i = c.toNat then unlessRedundant w else t.table.child i)
    (hold : ∀ q, t.registered (c :: q) = v.registered q) :
    Registers t { t with table := table } (c :: p) s := by
  have hkept (i : ℕ) (x : Mtrie P) (hx : table.child i = some x) :
      x.Wf ∧ x.isRedundant = false := by
    rw [hchild] at hx
    split at hx
    · obtain ⟨rfl, hred⟩ := of_unlessRedundant hx.symm
      exact ⟨hw.wf, hred⟩
    · exact ⟨h.child hx, h.kept hx⟩
  constructor
  · exact Wf.intro hshape h.pipes (fun i x hx => (hkept i x hx).1) (fun i x hx => (hkept i x hx).2)
  · intro q
    cases q with
    | nil => rfl
    | cons d ds =>
      have hd := hchild d.toNat
      by_cases heq : d = c
      · subst heq
        rw [if_pos rfl] at hd
        rw [registered_unlessRedundant (t := { t with table := table }) hw.wf.shape hd, hold]
        simp only [hw.registered, List.cons.injEq, true_and]
      · rw [if_neg fun hnat => heq (UInt8.toNat_inj.mp hnat)] at hd
        rw [if_neg (by simp [heq]), Mtrie.registered, Mtrie.registered, hd]

theorem add_spec [LinearOrder P] (h : t.Wf) (pipe : P) (p : List UInt8) :
    (t.add pipe p).2 = decide (t.registered p = ∅) ∧
      Registers t (t.add pipe p).1 p (insert pipe (t.registered p)) ∧
      (t.add pipe p).1.isRedundant = false := by
  induction p generalizing t with
  | nil =>
    refine ⟨?_, ?_, ?_⟩
    · have hpipes := h.pipes
      rw [add, registered]
      cases hsome : t.pipes with
      | none => rfl
      | some pipes =>
        rw [hsome] at hpipes
        simpa using hpipes
    · apply Registers.here h
      simp
    · rfl
  | cons c cs ih =>
    have hgrown := Slots.extend_grown h.shape c.toNat_lt
    have hslot : (t.table.extend c.toNat).slot c.toNat = t.table.child c.toNat := by
      rw [Slots.slot_eq_child hgrown.inRange, hgrown.child]
    rw [add]
    cases hchild : t.table.child c.toNat with
    | some x =>
      obtain ⟨hret, hreg, hred⟩ := ih (h.child hchild)
      have hshape := hgrown.setSlot_shape (x := (x.add pipe cs).1) h.shape hchild
      have hset := Slots.child_setSlot hgrown.inRange (some (x.add pipe cs).1)
      simp only [hslot, hchild]
      rw [registered_cons hchild]
      refine ⟨hret, hreg.below h hshape ?_ fun q => registered_cons hchild, ?_⟩
      · intro i
        rw [hset, hgrown.child, unlessRedundant, hred]
        rfl
      · exact not_redundant_of_child hshape ((hset _).trans (if_pos rfl))
    | none =>
      obtain ⟨hret, hreg, hred⟩ := ih (empty_wf (P := P))
      have hshape := hgrown.fill_shape (x := (empty.add pipe cs).1) h.shape hchild
      have hin : ({ t.table.extend c.toNat with
          full := (t.table.extend c.toNat).full + 1 } : Slots (Mtrie P)).outOfRange
            c.toNat = false := hgrown.inRange
      have hset := Slots.child_setSlot hin (some (empty.add pipe cs).1)
      have hnone (q : List UInt8) : t.registered (c :: q) = (empty : Mtrie P).registered q :=
        (registered_cons_none hchild).trans (registered_empty q).symm
      simp only [hslot, hchild]
      rw [hnone]
      refine ⟨hret, hreg.below h hshape ?_ hnone, ?_⟩
      · intro i
        rw [hset, unlessRedundant, hred, ← hgrown.child]
        rfl
      · exact not_redundant_of_child hshape ((hset _).trans (if_pos rfl))

section Compact

variable {table : Slots (Mtrie P)} {k : ℕ}

theorem compactSingle_spec (h : table.Shape 256) (hc : table.child k = some w)
    (htwo : table.full = 2) :
    ∃ u, compactSingle { table.setSlot k none with full := table.full - 1 } = some u ∧
      Slots.Pruned 256 k table u := by
  obtain ⟨hone, hpruned⟩ := Slots.prune_single h hc htwo
  obtain ⟨i, hi, -, hsome, -⟩ :=
    Window.findIdx_of_live (show Window.live (table.setSlot k none).next ≠ 0 by omega)
  obtain ⟨v, hv⟩ := Option.ne_none_iff_exists'.mp hsome
  obtain ⟨hlt, hpruned⟩ := hpruned i v hv
  refine ⟨_, ?_, hpruned⟩
  have hmod : ((table.setSlot k none).min + i) % 256 = table.min + i := Nat.mod_eq_of_lt hlt
  simp only [compactSingle, hi, hv, hmod, Option.bind_eq_bind, Option.bind_some]
  rfl

theorem compactLeft_spec (h : table.Shape 256) (hc : table.child table.min = some w)
    (hmany : 2 ≤ table.next.length) :
    ∃ u, compactLeft { table.setSlot table.min none with full := table.full - 1 } =
      some u ∧ Slots.Pruned 256 table.min table u := by
  have hrange := h.range (by omega)
  obtain ⟨i, hi, hlt, hpruned⟩ := Slots.prune_left h hc hmany
  refine ⟨_, ?_, hpruned⟩
  have hmod : ((table.setSlot table.min none).min + (i + 1)) % 256 = table.min + (i + 1) :=
    Nat.mod_eq_of_lt (by
      change table.min + (i + 1) < 256
      omega)
  simp only [compactLeft, hi, hmod, Option.bind_eq_bind, Option.bind_some]
  rfl

theorem compactRight_spec (h : table.Shape 256) (hc : table.child k = some w)
    (hmany : 2 ≤ table.next.length) (hright : k = table.min + table.next.length - 1) :
    ∃ u, compactRight { table.setSlot k none with full := table.full - 1 } = some u ∧
      Slots.Pruned 256 k table u := by
  obtain ⟨i, hi, -, hpruned⟩ := Slots.prune_right h hc hmany hright
  refine ⟨_, ?_, hpruned⟩
  simp only [compactRight, hi, Slots.count, Slots.length_setSlot, Option.bind_eq_bind,
    Option.bind_some]
  rfl

theorem prune_spec (h : table.Shape 256) (hc : table.child k = some w) :
    ∃ u, prune k table = some u ∧ Slots.Pruned 256 k table u := by
  have hrange := Slots.outOfRange_eq_false.mp (Slots.inRange_of_child hc)
  have hpos : table.next.length ≠ 0 := by omega
  by_cases hone : table.next.length = 1
  · obtain ⟨hfull, hpruned⟩ := Slots.prune_only h hc hone
    exact ⟨_, by simp [prune, Slots.count, hone, hfull], hpruned⟩
  have hmany : 2 ≤ table.next.length := by omega
  have htwo := Slots.two_le_full h hmany
  have hprune : prune k table =
      (let u : Slots (Mtrie P) := { table.setSlot k none with full := table.full - 1 }
      if table.full - 1 = 1 then compactSingle u
      else if k = table.min then compactLeft u
      else if k = table.min + table.next.length - 1 then compactRight u
      else some u) := by
    have hlt : 1 < table.full := by omega
    simp [prune, Slots.count, Slots.setSlot, hone, hlt, hpos]
  rw [hprune]
  simp only
  split
  · exact compactSingle_spec h hc (by omega)
  split
  · rename_i hleft
    subst hleft
    exact compactLeft_spec h hc hmany
  split
  · exact compactRight_spec h hc hmany ‹_›
  · rename_i hleft hright
    exact ⟨_, rfl, Slots.prune_middle h hc hleft hright⟩

end Compact

theorem Registers.refl (h : t.Wf) (hs : s = t.registered p) : Registers t t p s where
  wf := h
  registered q := by
    split
    · subst q
      exact hs.symm
    · rfl

section Order

variable [LinearOrder P]

def removal (pipes : Finset P) (pipe : P) : RmResult :=
  if pipe ∈ pipes then
    if pipes.erase pipe = ∅ then .lastValueRemoved else .valuesRemain
  else .notFound

theorem rmHere_spec (h : t.Wf) (pipe : P) :
    ∃ u, t.rmHere pipe = some (u, removal (t.registered []) pipe) ∧
      Registers t u [] ((t.registered []).erase pipe) := by
  have hpipes := h.pipes
  unfold rmHere
  cases hsome : t.pipes with
  | none =>
    have hnone : t.registered [] = ∅ := by rw [registered, hsome]; rfl
    rw [hnone]
    refine ⟨t, rfl, h, fun q => ?_⟩
    split
    · subst q
      exact hnone
    · rfl
  | some pipes =>
    have hreg : t.registered [] = pipes := by rw [registered, hsome]; rfl
    rw [hsome] at hpipes
    rw [hreg]
    by_cases hlast : pipes.erase pipe = ∅
    · have hmem : pipe ∈ pipes := by
        by_contra hno
        rw [Finset.erase_eq_of_notMem hno] at hlast
        exact hpipes (congrArg some hlast)
      refine ⟨{ t with pipes := none }, ?_, ?_⟩
      · simp [hlast, hmem, removal]
      · rw [hlast]
        exact Registers.here h (by simp)
    · refine ⟨{ t with pipes := some (pipes.erase pipe) }, ?_, ?_⟩
      · simp only [hlast, if_false, removal, decide_eq_true_eq]
      · exact Registers.here h (fun hsome' => hlast (Option.some.inj hsome'))

theorem rm_spec (h : t.Wf) (pipe : P) (p : List UInt8) :
    ∃ u, t.rm pipe p = some (u, removal (t.registered p) pipe) ∧
      Registers t u p ((t.registered p).erase pipe) := by
  induction p generalizing t with
  | nil => exact rmHere_spec h pipe
  | cons c cs ih =>
    rw [rm]
    cases hchild : t.table.child c.toNat with
    | none =>
      have hnone : t.registered (c :: cs) = ∅ := registered_cons_none hchild
      rw [hnone]
      refine ⟨t, ?_, Registers.refl h hnone.symm⟩
      by_cases hout : (decide (t.table.count = 0) || t.table.outOfRange c.toNat) = true
      · exact if_pos hout
      · have hin := (Bool.or_eq_false_iff.mp (Bool.eq_false_of_not_eq_true hout)).2
        rw [if_neg hout, Slots.slot_eq_child hin, hchild]
        rfl
    | some x =>
      obtain ⟨x', hx', hreg⟩ := ih (h.child hchild)
      have hrange := Slots.outOfRange_eq_false.mp (Slots.inRange_of_child hchild)
      have hcount : ¬ t.table.count = 0 := by
        unfold Slots.count
        omega
      have hshape := h.shape.setSlot (v := x') hchild
      have hset := Slots.child_setSlot (Slots.inRange_of_child hchild) (some x')
      have hold (q : List UInt8) : t.registered (c :: q) = x.registered q :=
        registered_cons hchild
      simp only [hcount, decide_false, Slots.inRange_of_child hchild, Bool.or_self,
        Bool.false_eq_true, if_false, Slots.slot_of_child hchild, hx', hold]
      cases hred : x'.isRedundant with
      | false =>
        refine ⟨{ t with table := t.table.setSlot c.toNat (some x') }, ?_,
          hreg.below h hshape ?_ hold⟩
        · simp [hred]
        · intro i
          rw [hset, unlessRedundant, hred]
          rfl
      | true =>
        obtain ⟨table, hprune, hpruned⟩ :=
          prune_spec hshape ((hset _).trans (if_pos rfl))
        refine ⟨{ t with table := table }, ?_, hreg.below h hpruned.shape ?_ hold⟩
        · simp [hred, hprune]
        · intro i
          rw [hpruned.child, hset, unlessRedundant, hred, if_pos rfl]
          split
          all_goals rfl

theorem matchData_eq (h : t.Wf) (data : List UInt8) :
    t.matchData data = data.inits.flatMap fun q => (t.registered q).sort (· ≤ ·) := by
  induction data generalizing t with
  | nil => simp [matchData, attached, registered]
  | cons c cs ih =>
    rw [matchData, List.inits_cons, List.flatMap_cons, List.flatMap_map]
    congr 1
    cases hchild : t.table.child c.toNat with
    | none =>
      have hnone : (fun q => (t.registered (c :: q)).sort (· ≤ ·)) = fun _ => ([] : List P) := by
        funext q
        rw [registered_cons_none hchild, Finset.sort_empty]
      rw [hnone]
      have hmiss : cs.inits.flatMap (fun _ => ([] : List P)) = [] := by simp
      rw [hmiss]
      split
      · rfl
      · rename_i hout
        have hin := (Bool.or_eq_false_iff.mp (Bool.eq_false_of_not_eq_true hout)).2
        rw [Slots.slot_eq_child hin, hchild]
    | some x =>
      have hrange := Slots.outOfRange_eq_false.mp (Slots.inRange_of_child hchild)
      have hcount : ¬ t.table.count = 0 := by
        unfold Slots.count
        omega
      have hold : (fun q => (t.registered (c :: q)).sort (· ≤ ·)) =
          fun q => (x.registered q).sort (· ≤ ·) := by
        funext q
        rw [registered_cons hchild]
      rw [hold]
      simp only [hcount, decide_false, Slots.inRange_of_child hchild, Bool.or_self,
        Bool.false_eq_true, if_false, Slots.slot_of_child hchild]
      exact ih (h.child hchild)

end Order

end Mtrie

end Zlink.Subscription
