import Zlink.Lib.Slots
import Zlink.Subscription.Trie

/-!
# The table of one node

A node in good shape has no empty slot at either end of its table, and its count of live
nodes is exact. Growing the table changes its range and not its children; a child that is
put in, replaced or pruned leaves the others as they are.
-/

namespace Zlink.Subscription

namespace Trie

def child (t : Trie) (c : ℕ) : Option Trie :=
  Window.lookup t.min t.next c

structure Shape (t : Trie) : Prop where
  refcnt : t.refcnt < 2 ^ 32
  range : 0 < t.next.length → t.min + t.next.length ≤ 256
  tight : Window.Tight t.next
  live : t.liveNodes = Window.live t.next

def slots (t : Trie) : Slots Trie :=
  { min := t.min, full := t.liveNodes, next := t.next }

variable {t u : Trie} {c : ℕ}

theorem Shape.slots (h : t.Shape) : t.slots.Shape 256 :=
  { range := h.range, tight := h.tight, live := h.live }

theorem Shape.of_slots (hrefcnt : t.refcnt < 2 ^ 32) (h : t.slots.Shape 256) : t.Shape :=
  { refcnt := hrefcnt, range := h.range, tight := h.tight, live := h.live }

theorem outOfRange_eq_false : t.outOfRange c = false ↔ t.min ≤ c ∧ c < t.min + t.next.length :=
  Slots.outOfRange_eq_false (t := t.slots)

theorem index_eq (h : t.outOfRange c = false) : t.index c = c - t.min :=
  Slots.index_eq (t := t.slots) h

theorem slot_eq_child (h : t.outOfRange c = false) : t.slot c = t.child c :=
  Slots.slot_eq_child (t := t.slots) h

theorem child_of_outOfRange (h : t.outOfRange c = true) : t.child c = none :=
  Slots.child_of_outOfRange (t := t.slots) h

theorem inRange_of_child (h : t.child c = some u) : t.outOfRange c = false :=
  Slots.inRange_of_child (t := t.slots) h

theorem slot_of_child (h : t.child c = some u) : t.slot c = some u :=
  Slots.slot_of_child (t := t.slots) h

theorem child_setSlot (h : t.outOfRange c = false) (x : Option Trie) (i : ℕ) :
    (t.setSlot c x).child i = if i = c then x else t.child i :=
  Slots.child_setSlot (t := t.slots) h x i

theorem Shape.setSlot (h : t.Shape) {v : Trie} (hc : t.child c = some u) :
    (t.setSlot c (some v)).Shape :=
  .of_slots h.refcnt (h.slots.setSlot (v := v) hc)

/-- The table covers a byte, and only the slot of that byte may be empty at an end. -/
structure Grown (c : ℕ) (t u : Trie) : Prop where
  refcnt : u.refcnt = t.refcnt
  liveNodes : u.liveNodes = t.liveNodes
  child : u.child = t.child
  inRange : u.outOfRange c = false
  range : u.min + u.next.length ≤ 256
  live : Window.live u.next = Window.live t.next
  first : u.next[0]?.join = none → c = u.min
  last : u.next[u.next.length - 1]?.join = none → c = u.min + u.next.length - 1

theorem Grown.slots (g : Grown c t u) : Slots.Grown 256 c t.slots u.slots :=
  { full := g.liveNodes, child := g.child, inRange := g.inRange, range := g.range
    live := g.live, first := g.first, last := g.last }

theorem slots_extend (t : Trie) (c : ℕ) :
    (t.extend c).slots = t.slots.extend c ∧ (t.extend c).refcnt = t.refcnt := by
  have hout : t.slots.outOfRange c = t.outOfRange c := rfl
  have hcount : t.slots.count = t.count := rfl
  have hmin : t.slots.min = t.min := rfl
  rw [Slots.extend, extend, hout, hcount, hmin]
  split_ifs <;> exact ⟨rfl, rfl⟩

theorem extend_grown (h : t.Shape) (hc : c < 256) : Grown c t (t.extend c) := by
  obtain ⟨hslots, hrefcnt⟩ := slots_extend t c
  have g := Slots.extend_grown h.slots hc
  rw [← hslots] at g
  exact
    { refcnt := hrefcnt, liveNodes := g.full, child := g.child, inRange := g.inRange
      range := g.range, live := g.live, first := g.first, last := g.last }

section Fill

variable {x : Trie}

theorem Grown.setSlot_shape (h : t.Shape) (g : Grown c t u) {old : Trie}
    (hc : t.child c = some old) : (u.setSlot c (some x)).Shape :=
  .of_slots (g.refcnt.trans_lt h.refcnt) (g.slots.setSlot_shape h.slots hc)

theorem Grown.countLive_eq (h : t.Shape) (g : Grown c t u) (hc : t.child c = none) :
    u.countLive = some { u with liveNodes := u.liveNodes + 1 } := by
  have hzero : u.liveNodes = 0 ↔ u.next.length = 1 := g.slots.full_eq_zero_iff h.slots hc
  by_cases hone : u.next.length = 1
  · simp [countLive, count, hone, hzero.mpr hone]
  · have hpos : 0 < u.liveNodes := Nat.pos_of_ne_zero fun heq => hone (hzero.mp heq)
    simp [countLive, count, hone, hpos]

theorem Grown.countLive_shape (h : t.Shape) (g : Grown c t u) (hc : t.child c = none) :
    ({ u with liveNodes := u.liveNodes + 1 }.setSlot c (some x)).Shape :=
  .of_slots (g.refcnt.trans_lt h.refcnt) (g.slots.fill_shape h.slots hc)

end Fill

structure Pruned (c : ℕ) (t u : Trie) : Prop where
  shape : u.Shape
  refcnt : u.refcnt = t.refcnt
  liveNodes : u.liveNodes + 1 = t.liveNodes
  child : ∀ i, u.child i = if i = c then none else t.child i

theorem Pruned.of_slots (h : t.Shape) (hrefcnt : u.refcnt = t.refcnt)
    (p : Slots.Pruned 256 c t.slots u.slots) : Pruned c t u :=
  { shape := .of_slots (hrefcnt.trans_lt h.refcnt) p.shape
    refcnt := hrefcnt
    liveNodes := p.full
    child := p.child }

section Compact

variable {w : Trie}

theorem compactSingle_spec (h : t.Shape) (hc : t.child c = some w)
    (hmany : 2 ≤ t.next.length) (htwo : t.liveNodes = 2) :
    ∃ u, ({ t.setSlot c none with liveNodes := t.liveNodes - 1 } : Trie).compactSingle c =
      some u ∧ Pruned c t u := by
  obtain ⟨hone, hkeep⟩ := Slots.prune_single h.slots hc htwo
  have hemptied {k : ℕ} (hk : k ≠ t.index c) : (t.setSlot c none).next[k]?.join = t.next[k]?.join :=
    Slots.getElem_emptied (t := t.slots) hk
  have hin := outOfRange_eq_false.mp (inRange_of_child hc)
  have hindex := index_eq (inRange_of_child hc)
  by_cases hleft : c = t.min
  · subst hleft
    obtain ⟨v, hv⟩ := Option.ne_none_iff_exists'.mp (h.tight.last (by omega))
    have hv' : (t.setSlot t.min none).next[t.next.length - 1]?.join = some v := by
      rw [hemptied (by omega), hv]
    obtain ⟨hlt, hpruned⟩ := hkeep _ v hv'
    have hmod : (t.min + (t.next.length - 1)) % 256 = t.min + (t.next.length - 1) :=
      Nat.mod_eq_of_lt hlt
    refine ⟨_, ?_, .of_slots (u := { t with
      liveNodes := t.liveNodes - 1, min := t.min + (t.next.length - 1), next := [some v] })
      h rfl hpruned⟩
    rw [setSlot] at hv'
    simp only [compactSingle, setSlot, count, if_true, List.length_set, hv', hmod]
    rfl
  · obtain ⟨v, hv⟩ := Option.ne_none_iff_exists'.mp (h.tight.first (by omega))
    have hv' : (t.setSlot c none).next[0]?.join = some v := by
      rw [hemptied (by omega), hv]
    have hright : c = t.min + t.next.length - 1 := by
      by_contra hmiddle
      obtain ⟨v', hlast⟩ := Option.ne_none_iff_exists'.mp (h.tight.last (by omega))
      rw [← hemptied (by omega)] at hlast
      have heq := Window.eq_of_live_le_one (le_of_eq hone) hv' hlast
      omega
    obtain ⟨-, hpruned⟩ := hkeep 0 v hv'
    refine ⟨_, ?_, .of_slots (u := { t with
      liveNodes := t.liveNodes - 1, next := [some v] }) h rfl hpruned⟩
    rw [setSlot] at hv'
    simp only [compactSingle, setSlot, count, if_neg hleft, List.length_set, hv', if_pos hright]
    rfl

theorem compactLeft_spec (h : t.Shape) (hc : t.child t.min = some w) (hmany : 2 ≤ t.next.length) :
    ∃ u, ({ t.setSlot t.min none with liveNodes := t.liveNodes - 1 } : Trie).compactLeft =
      some u ∧ Pruned t.min t u := by
  obtain ⟨k, hk, hlt, hpruned⟩ := Slots.prune_left h.slots hc hmany
  have hfind : ((t.setSlot t.min none).next.drop 1).findIdx? Option.isSome = some k := hk
  have hlen : k + 1 < t.next.length := hlt
  have hlength : (t.setSlot t.min none).next.length = t.next.length := List.length_set
  have hrange := h.range (by omega)
  have hmod : (k + 1 + t.min) % 256 = t.min + (k + 1) := by
    rw [Nat.mod_eq_of_lt (by omega), Nat.add_comm]
  refine ⟨_, ?_, .of_slots (u := { t with
    liveNodes := t.liveNodes - 1, min := t.min + (k + 1)
    next := (t.setSlot t.min none).next.drop (k + 1) }) h rfl hpruned⟩
  have hmin : (t.setSlot t.min none).min = t.min := rfl
  simp only [compactLeft, hfind, count, Option.bind_eq_bind, Option.bind_some, hmin, hmod,
    hlength, Nat.add_sub_cancel_left]
  rw [if_pos ⟨by omega, hlen⟩]
  rfl

theorem compactRight_spec (h : t.Shape) (hc : t.child c = some w)
    (hmany : 2 ≤ t.next.length) (hright : c = t.min + t.next.length - 1) :
    ∃ u, ({ t.setSlot c none with liveNodes := t.liveNodes - 1 } : Trie).compactRight =
      some u ∧ Pruned c t u := by
  obtain ⟨k, hk, -, hpruned⟩ := Slots.prune_right h.slots hc hmany hright
  have hfind : ((t.setSlot c none).next.reverse.drop 1).findIdx? Option.isSome = some k := hk
  have hlength : (t.setSlot c none).next.length = t.next.length := List.length_set
  refine ⟨_, ?_, .of_slots (u := { t with
    liveNodes := t.liveNodes - 1
    next := (t.setSlot c none).next.take (t.next.length - (k + 1)) }) h rfl hpruned⟩
  simp only [compactRight, hfind, count, hlength]
  rfl

theorem prune_spec (h : t.Shape) (hc : t.child c = some w) :
    ∃ u, t.prune c = some u ∧ Pruned c t u := by
  have hin := outOfRange_eq_false.mp (inRange_of_child hc)
  by_cases hone : t.next.length = 1
  · obtain ⟨hfull, hpruned⟩ := Slots.prune_only h.slots hc hone
    have hlive : t.liveNodes = 1 := hfull
    refine ⟨_, ?_, .of_slots (u := { t with liveNodes := 0, next := [] }) h rfl hpruned⟩
    simp [prune, count, hone, hlive]
  have hmany : 2 ≤ t.next.length := by omega
  have htwo : 2 ≤ t.liveNodes := Slots.two_le_full h.slots hmany
  have hprune : t.prune c = (let u : Trie := { t.setSlot c none with liveNodes := t.liveNodes - 1 }
      if t.liveNodes - 1 = 1 then u.compactSingle c
      else if c = t.min then u.compactLeft
      else if c = t.min + t.next.length - 1 then u.compactRight
      else some u) := by
    have hlt : 1 < t.liveNodes := by omega
    have hpos : t.next.length ≠ 0 := by omega
    simp [prune, count, setSlot, hone, hlt, hpos]
  rw [hprune]
  simp only
  split
  · exact compactSingle_spec h hc hmany (by omega)
  split
  · rename_i hleft
    subst hleft
    exact compactLeft_spec h hc hmany
  split
  · exact compactRight_spec h hc hmany ‹_›
  · rename_i hleft hright
    exact ⟨_, rfl, .of_slots h rfl (Slots.prune_middle h.slots hc hleft hright)⟩

end Compact

end Trie

end Zlink.Subscription
