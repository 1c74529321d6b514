import Zlink.Lib.Listing
import Zlink.Subscription.Registered

/-!
# Removing a pipe from all prefixes

Once the loop has dealt with a node, the node is what is left of its subtree without the
pipe, and the function has been called for the prefixes of that subtree at which it had
to be. The induction is on the tree: the turns for a child lead from the first visit of
the child to the moment when it is written back to its parent.
-/

namespace Zlink.Subscription

namespace Mtrie

variable {P : Type} [LinearOrder P] {pipe : P} {uniq : Bool} {t u v w x : Mtrie P}
  {p q : List UInt8}

structure Cleaned (pipe : P) (t u : Mtrie P) : Prop where
  wf : u.Wf
  registered : ∀ q, u.registered q = (t.registered q).erase pipe

/-- The function is called for a prefix that loses the pipe, or only for one that loses
its last pipe. -/
def Called (pipe : P) (callOnUniq : Bool) (t : Mtrie P) (p : List UInt8) : Prop :=
  pipe ∈ t.registered p ∧ (callOnUniq = true → (t.registered p).erase pipe = ∅)

instance : Decidable (Called pipe uniq t p) :=
  inferInstanceAs (Decidable (_ ∧ _))

structure Erased (pipe : P) (t x : Mtrie P) : Prop where
  table : x.table = t.table
  pipes : x.pipes ≠ some ∅
  registered : x.registered [] = (t.registered []).erase pipe

theorem eraseHere_spec (h : t.pipes ≠ some ∅) (pipe : P) (uniq : Bool) :
    Erased pipe t (t.eraseHere pipe uniq).1 ∧
      (t.eraseHere pipe uniq).2 = decide (Called pipe uniq t []) := by
  unfold eraseHere
  cases hpipes : t.pipes with
  | none =>
    have hnone : t.registered [] = ∅ := by rw [registered, hpipes]; rfl
    constructor
    · exact
        { table := rfl
          pipes := h
          registered := by rw [hnone, Finset.erase_empty] }
    · symm
      rw [decide_eq_false_iff_not, Called, hnone]
      exact fun hcalled => absurd hcalled.1 (Finset.notMem_empty _)
  | some pipes =>
    have hreg : t.registered [] = pipes := by rw [registered, hpipes]; rfl
    simp only
    split
    · rename_i hmem
      constructor
      · constructor
        · rfl
        · simp only
          split
          · exact fun hsome => by cases hsome
          · exact fun hsome => absurd (Option.some.inj hsome) ‹_›
        · rw [hreg, registered]
          simp only
          split
          · exact (‹pipes.erase pipe = ∅›).symm
          · rfl
      · cases uniq with
        | true | false => simp [Called, hreg, hmem]
    · rename_i hmem
      constructor
      · exact
          { table := rfl
            pipes := h
            registered := by rw [hreg, Finset.erase_eq_of_notMem hmem] }
      · simp [Called, hreg, hmem]

theorem eraseHere_again (h : pipe ∉ x.registered []) : x.eraseHere pipe uniq = (x, false) := by
  unfold eraseHere
  rw [registered] at h
  cases hpipes : x.pipes with
  | none => rfl
  | some pipes =>
    rw [hpipes] at h
    exact if_neg h

theorem Erased.notMem (h : Erased pipe t x) : pipe ∉ x.registered [] := by
  rw [h.registered]
  exact Finset.notMem_erase _ _

inductive Becomes (pipe : P) : Option (Mtrie P) → Option (Mtrie P) → Prop
  | absent : Becomes pipe none none
  | present {v w : Mtrie P} : Cleaned pipe v w → Becomes pipe (some v) (unlessRedundant w)

theorem Becomes.wf {a : Option (Mtrie P)} (h : Becomes pipe a (some u)) :
    u.Wf ∧ u.isRedundant = false := by
  generalize hb : some u = b at h
  cases h with
  | absent => cases hb
  | present hclean =>
    obtain ⟨rfl, hred⟩ := of_unlessRedundant hb
    exact ⟨hclean.wf, hred⟩

theorem Becomes.registered {c : UInt8}
    (h : Becomes pipe (t.table.child c.toNat) (x.table.child c.toNat)) :
    x.registered (c :: q) = (t.registered (c :: q)).erase pipe := by
  generalize ha : t.table.child c.toNat = a at h
  generalize hb : x.table.child c.toNat = b at h
  cases h with
  | absent =>
    rw [registered_cons_none ha, registered_cons_none hb, Finset.erase_empty]
  | present hclean =>
    rw [registered_cons ha, registered_unlessRedundant hclean.wf.shape hb, hclean.registered]

theorem Erased.cleaned (h : Erased pipe t x) (hpipes : u.pipes = x.pipes)
    (hshape : u.table.Shape 256)
    (hchild : ∀ i, Becomes pipe (t.table.child i) (u.table.child i)) : Cleaned pipe t u := by
  have hkept (i : ℕ) (v : Mtrie P) (hv : u.table.child i = some v) :
      v.Wf ∧ v.isRedundant = false := by
    have hbecomes := hchild i
    rw [hv] at hbecomes
    exact hbecomes.wf
  constructor
  · exact Wf.intro hshape (hpipes ▸ h.pipes) (fun i v hv => (hkept i v hv).1)
      (fun i v hv => (hkept i v hv).2)
  · intro q
    cases q with
    | nil =>
      have hsame : u.registered [] = x.registered [] := by
        rw [Mtrie.registered, Mtrie.registered, hpipes]
      exact hsame.trans h.registered
    | cons c cs => exact Becomes.registered (hchild c.toNat)

omit [LinearOrder P] in
theorem shrink_spec {table : Slots (Mtrie P)} {a b : ℕ}
    (hrange : table.min + table.next.length ≤ 256) (hfull : table.full = Window.live table.next)
    (h : Window.Scanned table.next table.next.length a b) :
    ∃ u, shrink table (table.min + a) (table.min + b) = some u ∧ u.Shape 256 ∧
      u.child = table.child := by
  unfold shrink
  split
  · rename_i hzero
    refine ⟨_, rfl, ?_, ?_⟩
    · exact
        { range := fun hpos => absurd hpos (lt_irrefl 0)
          tight := ⟨fun hpos => absurd hpos (lt_irrefl 0), fun hpos => absurd hpos (lt_irrefl 0)⟩
          live := hzero }
    · funext i
      have hnone := Window.live_eq_zero_iff.mp (hfull.symm.trans hzero) (i - table.min)
      rw [Slots.child, Slots.child, Window.lookup_nil, Window.lookup]
      split
      · rfl
      · exact hnone.symm
  rename_i hsome
  obtain ⟨hlow, hhigh, hab, hbefore, hafter⟩ := h.ends (hfull ▸ hsome)
  obtain ⟨v, hv⟩ := Option.ne_none_iff_exists'.mp hlow
  obtain ⟨v', hv'⟩ := Option.ne_none_iff_exists'.mp hhigh
  have hb : b < table.next.length := by
    by_contra hge
    rw [List.getElem?_eq_none (Nat.le_of_not_lt hge)] at hhigh
    exact hhigh rfl
  split
  · rename_i hone
    have heq : a = b := Window.eq_of_live_le_one (by omega) hv hv'
    subst heq
    have hguard : table.min + a = table.min + a ∧ table.min ≤ table.min + a ∧
        table.min + a < table.min + table.count :=
      ⟨rfl, Nat.le_add_right _ _, Nat.add_lt_add_left hb _⟩
    rw [if_pos hguard, Nat.add_sub_cancel_left, hv]
    refine ⟨_, rfl, ?_, ?_⟩
    · exact
        { range := fun _ => by
            rw [List.length_singleton]
            change table.min + a + 1 ≤ 256
            omega
          tight := ⟨by simp, by simp⟩
          live := hone }
    · funext i
      exact Window.lookup_singleton (hfull.symm.trans hone) hv
  rename_i hmany
  have hlt : a < b := by
    refine lt_of_le_of_ne hab fun heq => ?_
    subst heq
    have hlive := Window.live_narrow hbefore hafter hab
    have hle : Window.live (Window.narrow a a table.next) ≤
        (Window.narrow a a table.next).length := List.countP_le_length
    have hlen : (Window.narrow a a table.next).length ≤ a + 1 - a := List.length_take_le _ _
    omega
  split
  · rename_i hinner
    have hcount : table.min + b + 1 - (table.min + a) = b + 1 - a := by omega
    have hguard : 1 < b + 1 - a ∧ table.min ≤ table.min + a ∧
        table.min + b ≤ table.min + table.count - 1 ∧ b + 1 - a < table.count := by
      unfold Slots.count at hinner ⊢
      omega
    simp only [hcount, if_pos hguard, Nat.add_sub_cancel_left]
    refine ⟨_, rfl, ?_, ?_⟩
    · exact
        { range := fun _ => by
            rw [List.length_take, List.length_drop]
            change table.min + a + _ ≤ 256
            omega
          tight := Window.tight_narrow hab hlow hhigh
          live := hfull.trans (Window.live_narrow hbefore hafter hab).symm }
    · funext i
      exact Window.lookup_narrow hbefore hafter hab
  · rename_i hwhole
    refine ⟨table, rfl, ?_, rfl⟩
    have ha : a = 0 := by omega
    have hb' : b = table.next.length - 1 := by
      unfold Slots.count at hwhole
      omega
    exact
      { range := fun _ => hrange
        tight := ⟨fun _ => ha ▸ hlow, fun _ => hb' ▸ hhigh⟩
        live := hfull }

/-- The table while its children are dealt with, those below the `i`-th so far. -/
structure Underway (pipe : P) (t τ : Slots (Mtrie P)) (i a b : ℕ) : Prop where
  min : τ.min = t.min
  length : τ.next.length = t.next.length
  full : τ.full = Window.live τ.next
  done : ∀ k < i, Becomes pipe t.next[k]?.join τ.next[k]?.join
  rest : ∀ k, i ≤ k → τ.next[k]? = t.next[k]?
  scanned : Window.Scanned τ.next i a b

namespace Underway

variable {table τ : Slots (Mtrie P)} {i a b size : ℕ}

theorem start (h : table.full = Window.live table.next) :
    Underway pipe table table 0 (table.next.length - 1) 0 where
  min := rfl
  length := rfl
  full := h
  done _ hk := absurd hk (Nat.not_lt_zero _)
  rest _ _ := rfl
  scanned := Window.Scanned.start

theorem slot (h : Underway pipe table τ i a b) : τ.next[i]?.join = table.next[i]?.join := by
  rw [h.rest i le_rfl]

theorem step (h : Underway pipe table τ i a b) (hi : i < table.next.length)
    {y : Option (Mtrie P)} {a' b' : ℕ} (full : ℕ) (hy : Becomes pipe table.next[i]?.join y)
    (hfull : full = Window.live (τ.next.set i y))
    (hscanned : Window.Scanned (τ.next.set i y) (i + 1) a' b') :
    Underway pipe table { τ with full := full, next := τ.next.set i y } (i + 1) a' b' where
  min := h.min
  length := List.length_set.trans h.length
  full := hfull
  done k hk := by
    rw [List.getElem?_set]
    split
    · subst k
      rw [if_pos (h.length ▸ hi)]
      exact hy
    · exact h.done k (by omega)
  rest k hk := by
    rw [List.getElem?_set, if_neg (by omega)]
    exact h.rest k (by omega)
  scanned := hscanned

theorem scanned_set (h : Underway pipe table τ i a b) (y : Option (Mtrie P)) :
    Window.Scanned (τ.next.set i y) i a b :=
  h.scanned.congr List.length_set fun k hk => by
    rw [List.getElem?_set, if_neg (by omega)]

theorem skip (h : Underway pipe table τ i a b) (hi : i < table.next.length)
    (hnone : table.next[i]?.join = none) : Underway pipe table τ (i + 1) a b := by
  have hslot : τ.next[i]?.join = none := h.slot.trans hnone
  have hset : τ.next.set i none = τ.next := by
    have hlt : i < τ.next.length := h.length ▸ hi
    rw [List.getElem?_eq_getElem hlt] at hslot
    have hget : τ.next[i] = none := hslot
    rw [← hget, List.set_getElem_self]
  have hbecomes : Becomes pipe table.next[i]?.join none := by
    rw [hnone]
    exact .absent
  have hstep := h.step hi τ.full hbecomes (by rw [hset, h.full])
    (by rw [hset]; exact h.scanned.skip hslot)
  rwa [hset] at hstep

theorem settle (h : Underway pipe table τ i a b) (hv : table.next[i]?.join = some v)
    (hw : Cleaned pipe v w) : ∃ τ' a' b', Sweep.settle
        { node := { x with table := { τ with next := τ.next.set i (some w) } }
          size := size, currentChild := i, newMin := τ.min + a, newMax := τ.min + b
          processedForRemoval := false } =
        some
          { node := { x with table := τ' }
            size := size, currentChild := i, newMin := τ'.min + a', newMax := τ'.min + b'
            processedForRemoval := false } ∧
      Underway pipe table τ' (i + 1) a' b' := by
  have hslot : τ.next[i]?.join = some v := h.slot.trans hv
  have hi : i < table.next.length :=
    (List.getElem?_eq_some_iff.mp (Option.join_eq_some_iff.mp hv)).1
  have hlt : i < τ.next.length := h.length ▸ hi
  have hget {y : Option (Mtrie P)} : (τ.next.set i y)[i]?.join = y := by
    simp [hlt]
  have hbecomes : Becomes pipe table.next[i]?.join (unlessRedundant w) :=
    hv ▸ Becomes.present hw
  have hlive := Window.live_set_none hslot
  have hfull := h.full
  unfold Sweep.settle
  simp only [hget]
  by_cases hred : w.isRedundant = true
  · have hpos : 0 < τ.full := by omega
    rw [unlessRedundant, if_pos hred] at hbecomes
    simp only [hred, if_true, hpos, List.set_set]
    refine ⟨_, a, b, rfl, h.step hi (τ.full - 1) hbecomes ?_ ?_⟩
    · omega
    · exact (h.scanned_set none).skip hget
  · rw [unlessRedundant, if_neg hred] at hbecomes
    simp only [hred, Bool.false_eq_true, if_false]
    have hsome : (τ.next.set i (some w))[i]?.join ≠ none := by
      rw [hget]
      exact Option.some_ne_none w
    refine ⟨_, _, _, ?_, h.step hi τ.full hbecomes ?_ ((h.scanned_set (some w)).take hsome)⟩
    · congr 2
      all_goals dsimp only
      · split <;> split <;> omega
      · split <;> split <;> omega
    · rw [h.full, Window.live_set_of_some hslot]

end Underway

namespace Sweep

def opened (it : Iter P) (stack : List (Iter P)) (path : List UInt8)
    (out : List (List UInt8)) : Sweep P :=
  { stack :=
      match it.node.table.next[it.currentChild]?.join with
      | some child =>
        Iter.start child (it.size + 1) :: { it with processedForRemoval := true } :: stack
      | none => { it with processedForRemoval := true } :: stack
    buff := path ++ [UInt8.ofNat (it.node.table.min + it.currentChild)]
    out := out }

/-- What follows when a child is settled: the next one, or the end of the visits. -/
def proceed (it : Iter P) (stack : List (Iter P)) (buff : List UInt8)
    (out : List (List UInt8)) : Option (Sweep P ⊕ (Mtrie P × List (List UInt8))) :=
  if it.currentChild + 1 < it.node.table.count then
    some (.inl
      { stack := { it with currentChild := it.currentChild + 1 } :: stack
        buff := buff, out := out })
  else (shrink it.node.table it.newMin it.newMax).map fun table =>
    leave { it.node with table := table } stack buff out

variable {it : Iter P} {stack : List (Iter P)} {buff path : List UInt8}
  {out outs : List (List UInt8)}

omit [LinearOrder P] in
theorem revisit_many (h : 2 ≤ it.node.table.next.length) : revisit it stack buff out =
      (settle { it with processedForRemoval := false }).bind fun it =>
        proceed it stack buff out := by
  have hzero : ¬ it.node.table.count = 0 := by
    unfold Slots.count
    omega
  have hone : ¬ it.node.table.count = 1 := by
    unfold Slots.count
    omega
  simp only [revisit, if_neg hzero, if_neg hone]
  congr 1
  funext it'
  unfold proceed
  split
  · rfl
  · cases shrink it'.node.table it'.newMin it'.newMax with
    | none | some => rfl

theorem enter_first (h : t.table.Shape 256) (hmany : 2 ≤ t.table.next.length)
    (hx : (t.eraseHere pipe uniq).1.table = t.table) :
    enter pipe uniq (Iter.start t path.length) stack buff out = some (.inl (opened
        { node := (t.eraseHere pipe uniq).1, size := path.length, currentChild := 0
          newMin := t.table.min + (t.table.next.length - 1), newMax := t.table.min + 0
          processedForRemoval := false }
        stack (buff.take path.length)
        (if (t.eraseHere pipe uniq).2 then out ++ [buff.take path.length] else out))) := by
  have hrange := h.range (by omega)
  have hzero : ¬ t.table.count = 0 := by
    unfold Slots.count
    omega
  have hone : ¬ t.table.count = 1 := by
    unfold Slots.count
    omega
  have hlast : (t.table.min + t.table.count - 1) % 256 =
      t.table.min + (t.table.next.length - 1) := by
    unfold Slots.count
    rw [Nat.mod_eq_of_lt (by omega)]
    omega
  simp only [enter, Iter.start, hx, if_neg hzero, if_neg hone, if_true, hlast, opened, Nat.add_zero]
  cases t.table.next[0]?.join with
  | none | some => rfl

theorem enter_again (hx : pipe ∉ it.node.registered [])
    (hmany : 2 ≤ it.node.table.next.length) (hchild : it.currentChild ≠ 0) :
    enter pipe uniq it stack buff out = some (.inl (opened it stack (buff.take it.size) out)) := by
  have hzero : ¬ it.node.table.count = 0 := by
    unfold Slots.count
    omega
  have hone : ¬ it.node.table.count = 1 := by
    unfold Slots.count
    omega
  simp only [enter, eraseHere_again hx, if_neg hzero, if_neg hone, if_neg hchild,
    Bool.false_eq_true, if_false, opened]
  cases it.node.table.next[it.currentChild]?.join with
  | none | some => rfl

def Sweeps (pipe : P) (uniq : Bool) (t : Mtrie P) : Prop :=
  ∀ path stack buff out, path <+: buff → ∃ u outs buff', Loop.Leads (turn pipe uniq)
      { stack := Iter.start t path.length :: stack, buff := buff, out := out }
      (leave u stack buff' (out ++ outs)) ∧
    path <+: buff' ∧ Cleaned pipe t u ∧ Listing.Lists (Called pipe uniq t) path outs

theorem called_cons {c : UInt8} (hv : t.table.child c.toNat = some v) :
    Called pipe uniq v p ↔ Called pipe uniq t (c :: p) := by
  rw [Called, Called, registered_cons hv]

theorem not_called_cons {c : UInt8} (hnone : t.table.child c.toNat = none) :
    ¬ Called pipe uniq t (c :: p) := by
  rw [Called, registered_cons_none hnone]
  exact fun hcalled => absurd hcalled.1 (Finset.notMem_empty _)

section Children

variable {τ : Slots (Mtrie P)} {i a b : ℕ}

abbrev visit (x : Mtrie P) (τ : Slots (Mtrie P)) (size i a b : ℕ) : Iter P :=
  { node := { x with table := τ }, size := size, currentChild := i
    newMin := τ.min + a, newMax := τ.min + b, processedForRemoval := false }

theorem turn_visited (h : 2 ≤ τ.next.length) : turn pipe uniq
        { stack := { visit x τ path.length i a b with processedForRemoval := true } :: stack
          buff := buff, out := out } =
      (settle (visit x τ path.length i a b)).bind fun it => proceed it stack buff out :=
  @revisit_many _ { visit x τ path.length i a b with processedForRemoval := true } _ _ _ h

theorem opened_leads (h : t.Wf) (hmany : 2 ≤ t.table.next.length)
    (ih : ∀ v, t.table.child (t.table.min + i) = some v → Sweeps pipe uniq v)
    (hτ : Underway pipe t.table τ i a b) (hi : i < t.table.next.length) : ∃ τ' a' b' outs buff',
      (∀ r, proceed (visit x τ' path.length i a' b') stack buff' (out ++ outs) = some r →
        Loop.Leads (turn pipe uniq) (opened (visit x τ path.length i a b) stack path out) r) ∧
      path <+: buff' ∧ Underway pipe t.table τ' (i + 1) a' b' ∧
      ∀ rest, Listing.ListsFrom UInt8.toNat (Called pipe uniq t) (t.table.min + i + 1) path rest →
        Listing.ListsFrom UInt8.toNat (Called pipe uniq t) (t.table.min + i) path
          (outs ++ rest) := by
  have hrange := h.shape.range (by omega)
  have hbyte : (UInt8.ofNat (t.table.min + i)).toNat = t.table.min + i := by
    rw [UInt8.toNat_ofNat']
    exact Nat.mod_eq_of_lt (by omega)
  have hlookup : t.table.child (t.table.min + i) = t.table.next[i]?.join := by
    rw [Slots.child, Window.lookup_of_le (Nat.le_add_right _ _), Nat.add_sub_cancel_left]
  have hlen : 2 ≤ τ.next.length := hτ.length ▸ hmany
  rw [← hτ.min]
  cases hv : t.table.next[i]?.join with
  | none =>
    refine ⟨τ, a, b, [], path ++ [UInt8.ofNat (τ.min + i)], ?_, List.prefix_append _ _,
      hτ.skip hi hv, ?_⟩
    · intro r hr
      rw [List.append_nil] at hr
      apply Loop.Leads.last
      simp only [opened, hτ.slot, hv]
      rw [turn_visited hlen]
      simp only [settle, hτ.slot, hv, Option.bind_some]
      exact hr
    · intro rest hrest
      rw [hτ.min] at hrest ⊢
      refine hrest.skip (Nat.le_succ _) fun c s hle hlt => not_called_cons ?_
      rw [Nat.le_antisymm (Nat.le_of_lt_succ hlt) hle, hlookup, hv]
  | some v =>
    rw [hv] at hlookup
    have hpath : path ++ [UInt8.ofNat (τ.min + i)] <+: path ++ [UInt8.ofNat (τ.min + i)] :=
      List.prefix_rfl
    obtain ⟨w, outs, buff', hleads, hbuff, hclean, hlists⟩ := ih v hlookup _
      ({ visit x τ path.length i a b with processedForRemoval := true } :: stack) _ out hpath
    obtain ⟨τ', a', b', hsettle, hτ'⟩ := @Underway.settle _ _ _ _ _ x _ _ _ _ _ path.length
      hτ hv hclean
    refine ⟨τ', a', b', outs, buff', ?_, (List.prefix_append _ _).trans hbuff, hτ', ?_⟩
    · intro r hr
      have hlen' : 2 ≤ (τ.next.set i (some w)).length := by
        rwa [List.length_set]
      simp only [opened, hτ.slot, hv]
      rw [List.length_append, List.length_singleton] at hleads
      refine hleads.trans (.last ?_)
      have hturn : turn pipe uniq
            { stack :=
                { visit x { τ with next := τ.next.set i (some w) } path.length i a b with
                  processedForRemoval := true } :: stack
              buff := buff', out := out ++ outs } = _ :=
        turn_visited hlen'
      rw [hsettle] at hturn
      exact hturn.trans hr
    · intro rest hrest
      rw [hτ.min] at hrest hlists ⊢
      have hchild : t.table.child (UInt8.ofNat (t.table.min + i)).toNat = some v := by
        rw [hbyte, hlookup]
      exact hrest.cons (fun _ _ => UInt8.toNat_inj.mp) hbyte hlists fun s => called_cons hchild

theorem proceed_last (h : t.Wf) (hx : Erased pipe t x) (hmany : 2 ≤ t.table.next.length)
    (hτ : Underway pipe t.table τ (i + 1) a b) (hi : i + 1 = t.table.next.length) :
    ∃ u, proceed (visit x τ path.length i a b) stack buff out = some (leave u stack buff out) ∧
      Cleaned pipe t u := by
  have hrange := h.shape.range (by omega)
  have hlen := hτ.length
  have hall : Window.Scanned τ.next τ.next.length a b := by
    rw [hlen, ← hi]
    exact hτ.scanned
  obtain ⟨table, hshrink, hshape, hchild⟩ :=
    shrink_spec (by rw [hτ.min, hlen]; exact hrange) hτ.full hall
  refine ⟨{ x with table := table }, ?_, hx.cleaned rfl hshape ?_⟩
  · have hend : ¬ i + 1 < τ.count := by
      unfold Slots.count
      omega
    simp only [proceed, if_neg hend, hshrink, Option.map_some]
  · intro k
    rw [hchild, Slots.child, Slots.child, hτ.min, Window.lookup, Window.lookup]
    split
    · exact .absent
    · by_cases hk : k - t.table.min < i + 1
      · exact hτ.done _ hk
      · rw [List.getElem?_eq_none (by omega), List.getElem?_eq_none (by omega)]
        exact .absent

theorem children_leads (h : t.Wf) (hx : Erased pipe t x) (hmany : 2 ≤ t.table.next.length)
    (ih : ∀ k v, t.table.child k = some v → Sweeps pipe uniq v) {n : ℕ}
    (hn : i + 1 + n = t.table.next.length) (hτ : Underway pipe t.table τ i a b) : ∃ u outs buff',
      Loop.Leads (turn pipe uniq) (opened (visit x τ path.length i a b) stack path out)
        (leave u stack buff' (out ++ outs)) ∧ path <+: buff' ∧ Cleaned pipe t u ∧
      Listing.ListsFrom UInt8.toNat (Called pipe uniq t) (t.table.min + i) path outs := by
  induction n generalizing i τ a b out with
  | zero =>
    obtain ⟨τ', a', b', outs, buff', hleads, hbuff, hτ', hlists⟩ :=
      opened_leads h hmany (ih _) hτ (by omega)
    obtain ⟨u, hlast, hclean⟩ := proceed_last h hx hmany hτ' hn
    refine ⟨u, outs, buff', hleads _ hlast, hbuff, hclean, ?_⟩
    have hnone := hlists [] (Listing.ListsFrom.nil fun c s hc => ?_)
    · rwa [List.append_nil] at hnone
    · apply not_called_cons
      exact Window.lookup_of_ge (by omega)
  | succ n hrec =>
    obtain ⟨τ', a', b', outs, buff', hleads, hbuff, hτ', hlists⟩ :=
      opened_leads h hmany (ih _) hτ (by omega)
    obtain ⟨u, rest, buff'', hrest, hbuff', hclean, hlists'⟩ := hrec (by omega) hτ'
    refine ⟨u, outs ++ rest, buff'', ?_, hbuff', hclean, hlists _ hlists'⟩
    have hlen : 2 ≤ τ'.next.length := hτ'.length ▸ hmany
    have hnext : i + 1 < τ'.count := by
      unfold Slots.count
      have hsame := hτ'.length
      omega
    have hstep := hleads _ (if_pos hnext)
    have henter : turn pipe uniq
        { stack := visit x τ' path.length (i + 1) a' b' :: stack
          buff := buff', out := out ++ outs } = _ :=
      enter_again hx.notMem hlen (Nat.succ_ne_zero i)
    rw [← List.append_assoc]
    rw [← List.prefix_iff_eq_take.mp hbuff] at henter
    exact hstep.trans (.step henter hrest)

end Children

theorem lists_root (h : t.pipes ≠ some ∅) {i : ℕ}
    (hlists : Listing.ListsFrom UInt8.toNat (Called pipe uniq t) i path outs)
    (hall : ∀ k v, t.table.child k = some v → i ≤ k) : Listing.Lists (Called pipe uniq t) path
      ((if (t.eraseHere pipe uniq).2 then [path] else []) ++ outs) := by
  simp only [(eraseHere_spec h pipe uniq).2, decide_eq_true_eq]
  apply hlists.root
  intro c s hcalled
  cases hchild : t.table.child c.toNat with
  | none => exact absurd hcalled (not_called_cons hchild)
  | some v => exact hall _ v hchild

theorem append_called {called : Bool} {path : List UInt8} :
    (if called then out ++ [path] else out) = out ++ if called then [path] else [] := by
  cases called with
  | true => rfl
  | false => exact (List.append_nil out).symm

theorem sweeps_leaf (h : t.Wf) (hnone : t.table.next = []) : Sweeps pipe uniq t := by
  intro path stack buff out hbuff
  obtain ⟨hx, -⟩ := eraseHere_spec h.pipes pipe uniq
  have hchild (k : ℕ) : t.table.child k = none := by
    rw [Slots.child, hnone, Window.lookup_nil]
  have hlists : Listing.ListsFrom UInt8.toNat (Called pipe uniq t) 0 path [] :=
    .nil fun c s _ => not_called_cons (hchild _)
  refine ⟨(t.eraseHere pipe uniq).1, _, buff, .last ?_, hbuff, ?_,
    lists_root h.pipes hlists fun k v hv => Nat.zero_le k⟩
  · have hzero : t.table.count = 0 := by rw [Slots.count, hnone, List.length_nil]
    simp only [turn, Iter.start, enter, hx.table, hzero, if_true, Bool.false_eq_true, if_false,
      append_called, List.append_nil, ← List.prefix_iff_eq_take.mp hbuff]
  · refine hx.cleaned rfl (hx.table ▸ h.shape) fun k => ?_
    rw [hx.table, hchild]
    exact .absent

theorem turn_single (x : Mtrie P) {table : Slots (Mtrie P)} (size : ℕ)
    (stack : List (Iter P)) (buff : List UInt8) (out : List (List UInt8)) (hrange : table.min < 256)
    (hone : table.next = [some w]) (hfull : table.full = 1) : ∃ table', turn pipe uniq
        { stack := { Iter.start { x with table := table } size with
            processedForRemoval := true } :: stack
          buff := buff, out := out } =
        some (leave { x with table := table' } stack buff out) ∧
      table'.Shape 256 ∧
      ∀ k, table'.child k = if k = table.min then unlessRedundant w else none := by
  have hcount : table.count = 1 := by rw [Slots.count, hone, List.length_singleton]
  by_cases hred : w.isRedundant = true
  · refine ⟨{ table with full := 0, next := [] }, ?_, ?_, ?_⟩
    · simp [turn, Iter.start, revisit, hcount, hone, hfull, hred]
    · exact
        { range := fun hpos => absurd hpos (lt_irrefl 0)
          tight := ⟨fun hpos => absurd hpos (lt_irrefl 0), fun hpos => absurd hpos (lt_irrefl 0)⟩
          live := rfl }
    · intro k
      rw [unlessRedundant, if_pos hred, ite_self]
      exact Window.lookup_nil
  · refine ⟨table, ?_, ?_, ?_⟩
    · simp [turn, Iter.start, revisit, hcount, hone, hred]
    · constructor
      · intro _
        rw [hone, List.length_singleton]
        exact hrange
      · rw [hone]
        exact ⟨by simp, by simp⟩
      · rw [hone, hfull]
        rfl
    · intro k
      rw [unlessRedundant, if_neg hred, Slots.child, hone]
      split
      · rename_i hk
        rw [hk, Window.lookup_of_le le_rfl, Nat.sub_self]
        rfl
      · cases hsome : Window.lookup table.min [some w] k with
        | none => rfl
        | some u =>
          have hin := Window.range_of_lookup hsome
          rw [List.length_singleton] at hin
          omega

theorem sweeps_single (h : t.Wf) (hone : t.table.next = [some v])
    (ih : Sweeps pipe uniq v) : Sweeps pipe uniq t := by
  intro path stack buff out hbuff
  obtain ⟨hx, -⟩ := eraseHere_spec h.pipes pipe uniq
  have hrange := h.shape.range (by rw [hone]; exact Nat.zero_lt_one)
  rw [hone, List.length_singleton] at hrange
  have hbyte : (UInt8.ofNat t.table.min).toNat = t.table.min := by
    rw [UInt8.toNat_ofNat']
    exact Nat.mod_eq_of_lt (by omega)
  have hchild : t.table.child t.table.min = some v := by
    rw [Slots.child, hone, Window.lookup_of_le le_rfl, Nat.sub_self]
    rfl
  have hother {k : ℕ} (hk : k ≠ t.table.min) : t.table.child k = none := by
    cases hsome : t.table.child k with
    | none => rfl
    | some u =>
      have hin := Window.range_of_lookup hsome
      rw [hone, List.length_singleton] at hin
      omega
  have hcount : t.table.count = 1 := by rw [Slots.count, hone, List.length_singleton]
  have hfull : t.table.full = 1 := by
    rw [h.shape.live, hone]
    rfl
  obtain ⟨w, outs, buff', hleads, hbuff', hclean, hlists⟩ := ih (path ++ [UInt8.ofNat t.table.min])
    ({ Iter.start (t.eraseHere pipe uniq).1 path.length with processedForRemoval := true } :: stack)
    _ (out ++ if (t.eraseHere pipe uniq).2 then [path] else []) List.prefix_rfl
  have hbelow : Listing.ListsFrom UInt8.toNat (Called pipe uniq t) t.table.min path outs := by
    have hcons := (Listing.ListsFrom.nil (p := path) fun c s hc => ?_).cons
      (fun _ _ => UInt8.toNat_inj.mp) hbyte hlists
      fun s => called_cons (t := t) (by rw [hbyte, hchild])
    · rwa [List.append_nil] at hcons
    · exact not_called_cons (hother (by omega))
  have hroot := lists_root h.pipes hbelow fun k u hu => (Window.range_of_lookup hu).1
  have henter : turn pipe uniq
      { stack := Iter.start t path.length :: stack, buff := buff, out := out } =
      some (.inl
        { stack := Iter.start v (path.length + 1) ::
            { Iter.start (t.eraseHere pipe uniq).1 path.length with
              processedForRemoval := true } :: stack
          buff := path ++ [UInt8.ofNat t.table.min]
          out := out ++ if (t.eraseHere pipe uniq).2 then [path] else [] }) := by
    have hnonzero : ¬ t.table.count = 0 := by omega
    simp only [turn, Iter.start, enter, hx.table, hcount, Bool.false_eq_true, if_false,
      append_called, ← List.prefix_iff_eq_take.mp hbuff, hone]
    rfl
  rw [List.length_append, List.length_singleton] at hleads
  have hwritten (stack' : List (Iter P)) (buff : List UInt8) (out : List (List UInt8)) :
      leave w ({ Iter.start (t.eraseHere pipe uniq).1 path.length with
          processedForRemoval := true } :: stack') buff out =
        .inl
          { stack :=
              { Iter.start { (t.eraseHere pipe uniq).1 with
                  table := { t.table with next := [some w] } } path.length with
                processedForRemoval := true } :: stack'
            buff := buff, out := out } := by
    simp only [leave, Iter.start, hx.table, hone]
    rfl
  rw [hwritten] at hleads
  have hnext : ({ t.table with next := [some w] } : Slots (Mtrie P)).next = [some w] := rfl
  obtain ⟨table, hback, hshape, htable⟩ := @turn_single _ _ pipe uniq _
    (t.eraseHere pipe uniq).1 { t.table with next := [some w] } path.length stack buff'
    (out ++ ((if (t.eraseHere pipe uniq).2 then [path] else []) ++ outs)) hrange hnext hfull
  refine ⟨{ (t.eraseHere pipe uniq).1 with table := table }, _, buff',
    (Loop.Leads.step henter hleads).trans ?_, (List.prefix_append _ _).trans hbuff',
    hx.cleaned rfl hshape ?_, hroot⟩
  · rw [List.append_assoc]
    exact .last hback
  · intro k
    rw [htable]
    split
    · rename_i hk
      rw [hk, hchild]
      exact .present hclean
    · rw [hother ‹_›]
      exact .absent

theorem sweeps_many (h : t.Wf) (hmany : 2 ≤ t.table.next.length)
    (ih : ∀ k v, t.table.child k = some v → Sweeps pipe uniq v) : Sweeps pipe uniq t := by
  intro path stack buff out hbuff
  obtain ⟨hx, -⟩ := eraseHere_spec h.pipes pipe uniq
  obtain ⟨n, hn⟩ := Nat.exists_eq_add_of_le (show 0 + 1 ≤ t.table.next.length by omega)
  obtain ⟨u, outs, buff', hleads, hbuff', hclean, hlists⟩ :=
    @children_leads _ _ pipe uniq t (t.eraseHere pipe uniq).1 stack path
      (out ++ if (t.eraseHere pipe uniq).2 then [path] else []) t.table 0 _ _ h hx hmany ih n
      hn.symm (Underway.start h.shape.live)
  have hsame : ({ (t.eraseHere pipe uniq).1 with table := t.table } : Mtrie P) =
      (t.eraseHere pipe uniq).1 := by
    rw [← hx.table]
    cases (t.eraseHere pipe uniq).1
    rfl
  have henter : turn pipe uniq
      { stack := Iter.start t path.length :: stack, buff := buff, out := out } = _ :=
    enter_first h.shape hmany hx.table
  rw [append_called, ← List.prefix_iff_eq_take.mp hbuff] at henter
  rw [visit, hsame, List.append_assoc] at hleads
  exact ⟨u, _, buff', .step henter hleads, hbuff', hclean,
    lists_root h.pipes hlists fun k v hv => (Window.range_of_lookup hv).1⟩

theorem sweeps (h : t.Wf) : Sweeps pipe uniq t := by
  induction h with
  | @intro t shape pipes child kept ih =>
    have h : t.Wf := .intro shape pipes child kept
    match hnext : t.table.next with
    | [] => exact sweeps_leaf h hnext
    | [none] =>
      have hfirst := shape.tight.first (by simp [hnext])
      simp [hnext] at hfirst
    | [some v] =>
      refine sweeps_single h hnext (ih t.table.min v ?_)
      rw [Slots.child, hnext, Window.lookup_of_le le_rfl, Nat.sub_self]
      rfl
    | _ :: _ :: _ => exact sweeps_many h (by simp [hnext]) ih

end Sweep

theorem rmAll_spec (h : t.Wf) (pipe : P) (uniq : Bool) :
    ∃ u outs n, (∀ fuel, n ≤ fuel → t.rmAll pipe uniq fuel = some (u, outs)) ∧
      Cleaned pipe t u ∧ Listing.Lists (Called pipe uniq t) [] outs := by
  obtain ⟨u, outs, buff, hleads, -, hclean, hlists⟩ :=
    @Sweep.sweeps _ _ pipe uniq _ h [] [] [] [] List.prefix_rfl
  obtain ⟨n, hn⟩ := hleads.run
  exact ⟨u, outs, n, hn, hclean, hlists⟩

end Mtrie

end Zlink.Subscription
