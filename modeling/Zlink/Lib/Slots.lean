import Zlink.Lib.Window

/-!
# Tables that grow and shrink

A table of slots that covers the indices from `min` on, with a count of its full slots.
In good shape, neither end of it is an empty slot and the count is exact. Growing the
table changes its range and not its contents; emptying a slot leaves the others as they
are, whether or not the table is made shorter afterwards.
-/

structure Slots (α : Type) where
  min : ℕ
  full : ℕ
  next : List (Option α)

namespace Slots

variable {α : Type}

abbrev count (t : Slots α) : ℕ :=
  t.next.length

def outOfRange (t : Slots α) (c : ℕ) : Bool :=
  decide (c < t.min) || decide (t.min + t.count ≤ c)

def index (t : Slots α) (c : ℕ) : ℕ :=
  if t.count = 1 then 0 else c - t.min

def slot (t : Slots α) (c : ℕ) : Option α :=
  t.next[t.index c]?.join

def setSlot (t : Slots α) (c : ℕ) (x : Option α) : Slots α :=
  { t with next := t.next.set (t.index c) x }

def extend (t : Slots α) (c : ℕ) : Slots α :=
  if t.outOfRange c then
    if t.count = 0 then { t with min := c, next := [none] }
    else if t.count = 1 then
      let old := t.next[0]?.join
      let count := (if t.min < c then c - t.min else t.min - c) + 1
      let min := Nat.min t.min c
      { t with
        min := min
        next := (List.replicate count none).set (t.min - min) old }
    else if t.min < c then
      let count := c - t.min + 1
      { t with next := t.next ++ List.replicate (count - t.count) none }
    else
      { t with
        min := c
        next := List.replicate (t.min - c) none ++ t.next }
  else t

/-- What the table says about an index, in its range or not. -/
def child (t : Slots α) (c : ℕ) : Option α :=
  Window.lookup t.min t.next c

structure Shape (n : ℕ) (t : Slots α) : Prop where
  range : 0 < t.next.length → t.min + t.next.length ≤ n
  tight : Window.Tight t.next
  live : t.full = Window.live t.next

variable {t : Slots α} {n c : ℕ}

theorem outOfRange_eq_false : t.outOfRange c = false ↔ t.min ≤ c ∧ c < t.min + t.next.length := by
  rw [outOfRange, Bool.or_eq_false_iff, decide_eq_false_iff_not,
    decide_eq_false_iff_not, Nat.not_lt, Nat.not_le]

theorem outOfRange_eq_true : t.outOfRange c = true ↔ c < t.min ∨ t.min + t.next.length ≤ c := by
  rw [outOfRange, Bool.or_eq_true, decide_eq_true_iff, decide_eq_true_iff]

theorem index_eq (h : t.outOfRange c = false) : t.index c = c - t.min := by
  rw [outOfRange_eq_false] at h
  unfold index count
  split
  · omega
  · rfl

theorem slot_eq_child (h : t.outOfRange c = false) : t.slot c = t.child c := by
  rw [slot, index_eq h, child, Window.lookup_of_le (outOfRange_eq_false.mp h).1]

theorem child_of_outOfRange (h : t.outOfRange c = true) : t.child c = none := by
  rcases outOfRange_eq_true.mp h with h | h
  · exact Window.lookup_of_lt h
  · exact Window.lookup_of_ge h

theorem inRange_of_child {u : α} (h : t.child c = some u) : t.outOfRange c = false :=
  outOfRange_eq_false.mpr (Window.range_of_lookup h)

theorem slot_of_child {u : α} (h : t.child c = some u) : t.slot c = some u :=
  (slot_eq_child (inRange_of_child h)).trans h

theorem child_setSlot (h : t.outOfRange c = false) (x : Option α) (i : ℕ) :
    (t.setSlot c x).child i = if i = c then x else t.child i := by
  have hrange := outOfRange_eq_false.mp h
  rw [child, setSlot, index_eq h]
  exact Window.lookup_set hrange.1 hrange.2

theorem Shape.setSlot (h : t.Shape n) {u v : α} (hc : t.child c = some u) :
    (t.setSlot c (some v)).Shape n := by
  have hrange := inRange_of_child hc
  have hget : t.next[t.index c]?.join = some u := slot_of_child hc
  constructor
  · simpa [Slots.setSlot] using h.range
  · constructor
    · intro hpos
      have hpos' : 0 < t.next.length := by simpa [Slots.setSlot] using hpos
      have hfirst := h.tight.first hpos'
      simp only [Slots.setSlot, List.getElem?_set]
      split
      · simp [*]
      · exact hfirst
    · intro hpos
      have hpos' : 0 < t.next.length := by simpa [Slots.setSlot] using hpos
      have hlast := h.tight.last hpos'
      simp only [Slots.setSlot, List.getElem?_set, List.length_set]
      split
      · simp [*]
      · exact hlast
  · exact h.live.trans (Window.live_set_of_some hget).symm

/-- The table covers a byte, and only the slot of that byte may be empty at an end. -/
structure Grown (n c : ℕ) (t u : Slots α) : Prop where
  full : u.full = t.full
  child : u.child = t.child
  inRange : u.outOfRange c = false
  range : u.min + u.next.length ≤ n
  live : Window.live u.next = Window.live t.next
  first : u.next[0]?.join = none → c = u.min
  last : u.next[u.next.length - 1]?.join = none → c = u.min + u.next.length - 1

theorem Grown.refl (h : t.Shape n) (hc : t.outOfRange c = false) : Grown n c t t := by
  have hrange := outOfRange_eq_false.mp hc
  have hpos : 0 < t.next.length := by omega
  exact
    { full := rfl
      child := rfl
      inRange := hc
      range := h.range hpos
      live := rfl
      first := fun hnone => absurd hnone (h.tight.first hpos)
      last := fun hnone => absurd hnone (h.tight.last hpos) }

theorem Grown.of_table {lo : ℕ} {slots : List (Option α)}
    (hchild : ∀ i, Window.lookup lo slots i = t.child i)
    (hin : lo ≤ c ∧ c < lo + slots.length) (hrange : lo + slots.length ≤ n)
    (hlive : Window.live slots = Window.live t.next) (hfirst : slots[0]?.join = none → c = lo)
    (hlast : slots[slots.length - 1]?.join = none → c = lo + slots.length - 1) :
    Grown n c t { t with min := lo, next := slots } where
  full := rfl
  child := funext hchild
  inRange := outOfRange_eq_false.mpr hin
  range := hrange
  live := hlive
  first := hfirst
  last := hlast

theorem grown_of_empty (hempty : t.next = []) (hc : c < n) :
    Grown n c t { t with min := c, next := [none] } := by
  apply Grown.of_table
  · intro i
    rw [child, hempty, Window.lookup_nil]
    exact Window.lookup_replicate (n := 1)
  · simp
  · exact hc
  · rw [hempty]
    rfl
  · exact fun _ => rfl
  · exact fun _ => rfl

theorem grown_of_single {old : α} (h : t.Shape n) (hsingle : t.next = [some old])
    (hc : c < n) (hne : c ≠ t.min) :
    Grown n c t { t with
      min := Nat.min t.min c
      next := (List.replicate ((if t.min < c then c - t.min else t.min - c) + 1) none).set
        (t.min - Nat.min t.min c) (some old) } := by
  have hrange := h.range (by simp [hsingle])
  rw [hsingle, List.length_singleton] at hrange
  generalize hm : (if t.min < c then c - t.min else t.min - c) + 1 = m
  generalize hlo : Nat.min t.min c = lo
  have hcases : lo = t.min ∧ m = c - t.min + 1 ∧ t.min < c ∨
      lo = c ∧ m = t.min - c + 1 ∧ c < t.min := by
    subst hm hlo
    rcases Nat.lt_or_gt_of_ne hne with hlt | hgt
    · exact .inr ⟨Nat.min_eq_right hlt.le, by rw [if_neg (by omega)], hlt⟩
    · exact .inl ⟨Nat.min_eq_left (le_of_lt hgt), by rw [if_pos hgt], hgt⟩
  have hat : t.min - lo < m := by omega
  apply Grown.of_table
  · intro i
    have hone : t.min < t.min + [(none : Option α)].length := by simp
    have hold := Window.lookup_set (x := some old) (i := i) (Nat.le_refl t.min) hone
    have hempty : Window.lookup t.min [(none : Option α)] i = none :=
      Window.lookup_replicate (n := 1)
    rw [Window.lookup_set (by omega) (by rw [List.length_replicate]; omega),
      Window.lookup_replicate]
    simp only [Nat.sub_self, List.set_cons_zero] at hold
    rw [child, hsingle, hold, hempty]
  · rw [List.length_set, List.length_replicate]
    omega
  · rw [List.length_set, List.length_replicate]
    omega
  · rw [Window.live_set_some (by simp [hat]), hsingle]
    simp [Window.live, List.countP_replicate]
  · intro hnone
    rw [List.getElem?_set] at hnone
    split at hnone
    · simp [hat] at hnone
    · omega
  · intro hnone
    rw [List.length_set, List.length_replicate, List.getElem?_set] at hnone
    rw [List.length_set, List.length_replicate]
    split at hnone
    · simp [hat] at hnone
    · omega

theorem grown_above (h : t.Shape n) (hpos : 0 < t.next.length)
    (hc : c < n) (hge : t.min + t.next.length ≤ c) : Grown n c t { t with
      next := t.next ++ List.replicate (c - t.min + 1 - t.next.length) none } := by
  apply Grown.of_table
  · exact fun _ => Window.lookup_append_replicate
  · rw [List.length_append, List.length_replicate]
    omega
  · rw [List.length_append, List.length_replicate]
    omega
  · exact Window.live_append_replicate
  · intro hnone
    rw [List.getElem?_append_left hpos] at hnone
    exact absurd hnone (h.tight.first hpos)
  · intro _
    rw [List.length_append, List.length_replicate]
    omega

theorem grown_below (h : t.Shape n) (hpos : 0 < t.next.length) (hlt : c < t.min) :
    Grown n c t { t with
      min := c
      next := List.replicate (t.min - c) none ++ t.next } := by
  have hrange := h.range hpos
  apply Grown.of_table
  · intro i
    rw [Window.lookup_replicate_append, Nat.add_sub_cancel' hlt.le]
    rfl
  · rw [List.length_append, List.length_replicate]
    omega
  · rw [List.length_append, List.length_replicate]
    omega
  · exact Window.live_replicate_append
  · exact fun _ => rfl
  · intro hnone
    rw [List.length_append, List.length_replicate,
      List.getElem?_append_right (by rw [List.length_replicate]; omega),
      List.length_replicate] at hnone
    rw [show t.min - c + t.next.length - 1 - (t.min - c) = t.next.length - 1 by omega]
      at hnone
    exact absurd hnone (h.tight.last hpos)

theorem extend_grown (h : t.Shape n) (hc : c < n) : Grown n c t (t.extend c) := by
  unfold extend
  split
  · rename_i hout
    rw [outOfRange_eq_true] at hout
    split
    · rename_i hzero
      exact grown_of_empty (List.length_eq_zero_iff.mp hzero) hc
    split
    · rename_i hone
      obtain ⟨x, hx⟩ := List.length_eq_one_iff.mp hone
      have hfirst := h.tight.first (by simp [hx])
      obtain ⟨old, rfl⟩ : ∃ old, x = some old := by
        cases x with
        | none => simp [hx] at hfirst
        | some old => exact ⟨old, rfl⟩
      have hne : c ≠ t.min := by
        rw [hx, List.length_singleton] at hout
        omega
      have hgrown := grown_of_single h hx hc hne
      simpa [hx] using hgrown
    rename_i hzero hone
    have hpos : 0 < t.next.length := Nat.pos_of_ne_zero hzero
    split
    · exact grown_above h hpos hc (by omega)
    · exact grown_below h hpos (by omega)
  · rename_i hin
    exact Grown.refl h (Bool.eq_false_of_not_eq_true hin)

section Fill

variable {u : Slots α} {x : α}

theorem Grown.index_lt (g : Grown n c t u) : u.index c < u.next.length := by
  have hrange := outOfRange_eq_false.mp g.inRange
  rw [index_eq g.inRange]
  omega

theorem Grown.tight (g : Grown n c t u) : Window.Tight (u.next.set (u.index c) (some x)) := by
  have hrange := outOfRange_eq_false.mp g.inRange
  have hlt := g.index_lt
  have hindex := index_eq g.inRange
  constructor
  · intro _ hnone
    rw [List.getElem?_set] at hnone
    split at hnone
    · simp [hlt] at hnone
    · have hfirst := g.first hnone
      omega
  · intro _ hnone
    rw [List.length_set, List.getElem?_set] at hnone
    split at hnone
    · simp [hlt] at hnone
    · have hlast := g.last hnone
      omega

theorem Grown.setSlot_shape (h : t.Shape n) (g : Grown n c t u) {old : α}
    (hc : t.child c = some old) : (u.setSlot c (some x)).Shape n := by
  have hold : u.next[u.index c]?.join = some old :=
    slot_of_child (by rw [g.child, hc])
  constructor
  · intro _
    simpa [setSlot] using g.range
  · exact g.tight
  · exact (g.full.trans (h.live.trans g.live.symm)).trans (Window.live_set_of_some hold).symm

/-- A table grown for a slot that is empty has no full slot if it is the only one, and
some otherwise. -/
theorem Grown.full_eq_zero_iff (h : t.Shape n) (g : Grown n c t u) (hc : t.child c = none) :
    u.full = 0 ↔ u.next.length = 1 := by
  have hrange := outOfRange_eq_false.mp g.inRange
  have hnone : u.next[u.index c]?.join = none :=
    (slot_eq_child g.inRange).trans (by rw [g.child, hc])
  have hfull : u.full = Window.live u.next :=
    g.full.trans (h.live.trans g.live.symm)
  rw [hfull]
  constructor
  · intro hzero
    have hall := Window.live_eq_zero_iff.mp hzero
    have hfirst := g.first (hall 0)
    have hlast := g.last (hall _)
    omega
  · intro hone
    obtain ⟨y, hy⟩ := List.length_eq_one_iff.mp hone
    rw [index_eq g.inRange, hy, show c - u.min = 0 by omega] at hnone
    have hy' : y = none := hnone
    rw [hy, hy']
    rfl

theorem Grown.fill_shape (h : t.Shape n) (g : Grown n c t u) (hc : t.child c = none) :
    ({ u with full := u.full + 1 }.setSlot c (some x)).Shape n := by
  have hnone : u.next[u.index c]? = some none := by
    have hjoin : u.next[u.index c]?.join = none :=
      (slot_eq_child g.inRange).trans (by rw [g.child, hc])
    rw [List.getElem?_eq_getElem g.index_lt] at hjoin ⊢
    exact congrArg some hjoin
  constructor
  · intro _
    simpa [setSlot] using g.range
  · exact g.tight
  · exact (congrArg Nat.succ (g.full.trans (h.live.trans g.live.symm))).trans
      (Window.live_set_some hnone).symm

end Fill

/-- What the table is without one child. -/
structure Pruned (n c : ℕ) (t u : Slots α) : Prop where
  shape : u.Shape n
  full : u.full + 1 = t.full
  child : ∀ i, u.child i = if i = c then none else t.child i

theorem Pruned.of_table (h : t.Shape n) {w : α} (hc : t.child c = some w) {lo : ℕ}
    {slots : List (Option α)} (hrange : 0 < slots.length → lo + slots.length ≤ n)
    (htight : Window.Tight slots) (hlookup : ∀ i, Window.lookup lo slots i =
      Window.lookup t.min (t.next.set (t.index c) none) i)
    (hlive : Window.live slots = Window.live (t.next.set (t.index c) none)) :
    Pruned n c t { t with full := t.full - 1, min := lo, next := slots } := by
  have hin := inRange_of_child hc
  have hget : t.next[t.index c]?.join = some w := slot_of_child hc
  have hset := Window.live_set_none hget
  constructor
  · constructor
    · exact hrange
    · exact htight
    · change t.full - 1 = Window.live slots
      rw [h.live, hlive]
      omega
  · change t.full - 1 + 1 = t.full
    rw [h.live]
    omega
  · intro i
    exact (hlookup i).trans (child_setSlot hin none i)

theorem prune_only {w : α} (h : t.Shape n) (hc : t.child c = some w) (hone : t.next.length = 1) :
    t.full = 1 ∧ Pruned n c t { t with full := 0, next := [] } := by
  obtain ⟨y, hy⟩ := List.length_eq_one_iff.mp hone
  have hget : t.next[t.index c]?.join = some w := slot_of_child hc
  have hindex : t.index c = 0 := if_pos hone
  have hfull : t.full = 1 := by
    have hset := Window.live_set_none hget
    rw [h.live, ← hset, hy, hindex]
    rfl
  refine ⟨hfull, ?_⟩
  have hlookup (i : ℕ) : Window.lookup t.min [] i =
      Window.lookup t.min (t.next.set (t.index c) none) i := by
    rw [hy, hindex, Window.lookup_nil]
    exact (Window.lookup_replicate (n := 1)).symm
  have hpruned := Pruned.of_table h hc (by simp) ⟨by simp, by simp⟩ hlookup
    (by rw [hy, hindex]; rfl)
  rwa [hfull] at hpruned

theorem getElem_emptied {k : ℕ} (hk : k ≠ t.index c) :
    (t.setSlot c none).next[k]?.join = t.next[k]?.join := by
  rw [setSlot, List.getElem?_set, if_neg (Ne.symm hk)]

theorem length_setSlot {x : Option α} : (t.setSlot c x).next.length = t.next.length :=
  List.length_set

section Compact

variable {w : α}

theorem two_le_full (h : t.Shape n) (hmany : 2 ≤ t.next.length) : 2 ≤ t.full := by
  rw [h.live]
  exact h.tight.two_le_live hmany

theorem prune_single (h : t.Shape n) (hc : t.child c = some w) (htwo : t.full = 2) :
    Window.live (t.setSlot c none).next = 1 ∧
      ∀ k v, (t.setSlot c none).next[k]?.join = some v → t.min + k < n ∧
        Pruned n c t { full := t.full - 1, min := t.min + k, next := [some v] } := by
  have hget : t.next[t.index c]?.join = some w := slot_of_child hc
  have hset := Window.live_set_none hget
  have hone : Window.live (t.setSlot c none).next = 1 := by
    rw [h.live] at htwo
    change Window.live (t.next.set (t.index c) none) = 1
    omega
  refine ⟨hone, fun k v hk => ?_⟩
  have hlt : k < t.next.length := by
    obtain ⟨hlt, -⟩ := List.getElem?_eq_some_iff.mp (Option.join_eq_some_iff.mp hk)
    rwa [length_setSlot] at hlt
  have hrange := h.range (by omega)
  refine ⟨by omega, ?_⟩
  apply Pruned.of_table h hc
  · exact fun _ => by
      rw [List.length_singleton]
      omega
  · exact ⟨by simp, by simp⟩
  · exact fun i => Window.lookup_singleton hone hk
  · exact hone.symm

theorem prune_left (h : t.Shape n) (hc : t.child t.min = some w) (hmany : 2 ≤ t.next.length) :
    ∃ k, ((t.setSlot t.min none).next.drop 1).findIdx? Option.isSome = some k ∧
      k + 1 < t.next.length ∧
      Pruned n t.min t { full := t.full - 1, min := t.min + (k + 1),
                         next := (t.setSlot t.min none).next.drop (k + 1) } := by
  have hindex : t.index t.min = 0 := by simp [index]
  have hrange := h.range (by omega)
  generalize hslots : (t.setSlot t.min none).next = slots
  have hlen : slots.length = t.next.length := by rw [← hslots, length_setSlot]
  have hzero : slots[0]?.join = none := by
    rw [← hslots, setSlot, hindex, List.getElem?_set, if_pos rfl, if_pos (by omega)]
    rfl
  have hlast : slots[slots.length - 1]?.join ≠ none := by
    rw [← hslots, getElem_emptied (by rw [length_setSlot]; omega), length_setSlot]
    exact h.tight.last (by omega)
  have hdrop (k : ℕ) : (slots.drop 1)[k]?.join = slots[1 + k]?.join := by
    rw [List.getElem?_drop]
  obtain ⟨k, hk, hlt, hsome, hbefore⟩ := @Window.findIdx_of_live _ (slots.drop 1)
    (fun hnone => hlast (by
      have hall := Window.live_eq_zero_iff.mp hnone (slots.length - 2)
      rw [hdrop] at hall
      rwa [show 1 + (slots.length - 2) = slots.length - 1 by omega] at hall))
  rw [List.length_drop] at hlt
  have hempty : ∀ j < k + 1, slots[j]?.join = none := by
    intro j hj
    cases j with
    | zero => exact hzero
    | succ j =>
      have hnone := hbefore j (by omega)
      rwa [hdrop, Nat.add_comm] at hnone
  refine ⟨k, hk, by omega, ?_⟩
  have hslots' : t.next.set (t.index t.min) none = slots := hslots
  apply Pruned.of_table h hc
  · intro _
    rw [List.length_drop]
    omega
  · constructor
    · intro _
      rw [List.getElem?_drop]
      rwa [hdrop, Nat.add_comm] at hsome
    · intro hpos
      rw [List.length_drop] at hpos ⊢
      rw [List.getElem?_drop,
        show k + 1 + (slots.length - (k + 1) - 1) = slots.length - 1 by omega]
      exact hlast
  · intro i
    rw [hslots']
    exact Window.lookup_drop hempty
  · rw [hslots']
    exact Window.live_drop hempty

theorem prune_right (h : t.Shape n) (hc : t.child c = some w)
    (hmany : 2 ≤ t.next.length) (hright : c = t.min + t.next.length - 1) :
    ∃ k, ((t.setSlot c none).next.reverse.drop 1).findIdx? Option.isSome = some k ∧
      k + 1 < t.next.length ∧
      Pruned n c t { t with
        full := t.full - 1
        next := (t.setSlot c none).next.take (t.next.length - (k + 1)) } := by
  have hrange := h.range (by omega)
  have hindex : t.index c = t.next.length - 1 := by
    rw [index_eq (inRange_of_child hc)]
    omega
  generalize hslots : (t.setSlot c none).next = slots
  have hlen : slots.length = t.next.length := by rw [← hslots, length_setSlot]
  have hzero : slots[slots.length - 1]?.join = none := by
    rw [hlen, ← hslots, setSlot, hindex, List.getElem?_set, if_pos rfl, if_pos (by omega)]
    rfl
  have hfirst : slots[0]?.join ≠ none := by
    rw [← hslots, getElem_emptied (by omega)]
    exact h.tight.first (by omega)
  have hdrop {k : ℕ} (hk : k + 1 < slots.length) :
      (slots.reverse.drop 1)[k]?.join = slots[slots.length - 1 - (1 + k)]?.join := by
    rw [List.getElem?_drop, List.getElem?_reverse (by omega)]
  obtain ⟨k, hk, hlt, hsome, hbefore⟩ :=
    @Window.findIdx_of_live _ (slots.reverse.drop 1) (fun hnone => hfirst (by
        have hall := Window.live_eq_zero_iff.mp hnone (slots.length - 2)
        rw [hdrop (by omega)] at hall
        rwa [show slots.length - 1 - (1 + (slots.length - 2)) = 0 by omega] at hall))
  rw [List.length_drop, List.length_reverse] at hlt
  have hempty : ∀ j, slots.length - (k + 1) ≤ j → slots[j]?.join = none := by
    intro j hj
    by_cases hend : slots.length ≤ j
    · rw [List.getElem?_eq_none hend]
      rfl
    by_cases heq : j = slots.length - 1
    · rw [heq]
      exact hzero
    · have hnone := hbefore (slots.length - 2 - j) (by omega)
      rw [hdrop (by omega)] at hnone
      rwa [show slots.length - 1 - (1 + (slots.length - 2 - j)) = j by omega] at hnone
  refine ⟨k, hk, by omega, ?_⟩
  have hslots' : t.next.set (t.index c) none = slots := hslots
  apply Pruned.of_table h hc
  · intro _
    rw [List.length_take]
    omega
  · constructor
    · intro hpos
      rw [List.length_take] at hpos
      rw [List.getElem?_take, if_pos (by omega)]
      exact hfirst
    · intro hpos
      rw [List.length_take] at hpos ⊢
      rw [List.getElem?_take, if_pos (by omega)]
      rw [hdrop (by omega)] at hsome
      rwa [show Min.min (t.next.length - (k + 1)) slots.length - 1 =
        slots.length - 1 - (1 + k) by omega]
  · intro i
    rw [hslots']
    exact Window.lookup_take (hlen ▸ hempty)
  · rw [hslots']
    exact Window.live_take (hlen ▸ hempty)

theorem prune_middle (h : t.Shape n) (hc : t.child c = some w) (hleft : c ≠ t.min)
    (hright : c ≠ t.min + t.next.length - 1) :
    Pruned n c t { t.setSlot c none with full := t.full - 1 } := by
  have hin := outOfRange_eq_false.mp (inRange_of_child hc)
  have hindex := index_eq (inRange_of_child hc)
  apply Pruned.of_table h hc
  · intro _
    rw [length_setSlot]
    exact h.range (by omega)
  · constructor
    · intro _
      rw [getElem_emptied (by omega)]
      exact h.tight.first (by omega)
    · intro _
      rw [length_setSlot, getElem_emptied (by omega)]
      exact h.tight.last (by omega)
  · exact fun _ => rfl
  · rfl

end Compact

end Slots
