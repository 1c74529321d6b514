import Zlink.Subscription.Table

/-!
# What the trie counts

`refs` reads the count of a prefix off the trie. Adding raises it at one prefix, removing
lowers it there, and pruning takes away only paths on which nothing is counted.
-/

namespace Zlink.Subscription

namespace Trie

variable {t u v w : Trie} {p q : List UInt8} {c : UInt8}

/-- The node behind a path. -/
def find (t : Trie) : List UInt8 → Option Trie
  | [] => some t
  | c :: cs => (t.child c.toNat).bind fun u => u.find cs

def refs (t : Trie) : List UInt8 → ℕ
  | [] => t.refcnt
  | c :: cs =>
    match t.child c.toNat with
    | none => 0
    | some u => u.refs cs

/-- Every node is in good shape, and none below the root is redundant. -/
def Wf (t : Trie) : Prop :=
  ∀ p u, t.find p = some u → u.Shape ∧ (p ≠ [] → u.isRedundant = false)

theorem Wf.shape (h : t.Wf) : t.Shape :=
  (h [] t rfl).1

theorem Wf.child (h : t.Wf) (hu : t.child c.toNat = some u) : u.Wf ∧ u.isRedundant = false := by
  have hfind {p : List UInt8} {v : Trie} (hv : u.find p = some v) : t.find (c :: p) = some v := by
    rw [find, hu]
    exact hv
  constructor
  · intro p v hv
    have hboth := h (c :: p) v (hfind hv)
    exact ⟨hboth.1, fun _ => hboth.2 (by simp)⟩
  · exact (h [c] u (hfind rfl)).2 (by simp)

theorem Wf.intro (hshape : t.Shape)
    (hchild : ∀ (c : UInt8) u, t.child c.toNat = some u → u.Wf ∧ u.isRedundant = false) : t.Wf := by
  intro p u hu
  cases p with
  | nil =>
    obtain rfl := Option.some.inj hu
    exact ⟨hshape, fun hne => absurd rfl hne⟩
  | cons c cs =>
    obtain ⟨v, hv, hvu⟩ := Option.bind_eq_some_iff.mp hu
    obtain ⟨hwf, hred⟩ := hchild c v hv
    refine ⟨(hwf cs u hvu).1, fun _ => ?_⟩
    cases cs with
    | nil =>
      obtain rfl := Option.some.inj hvu
      exact hred
    | cons d ds => exact (hwf (d :: ds) u hvu).2 (by simp)

theorem refs_of_find (h : t.find p = some u) : t.refs p = u.refcnt := by
  induction p generalizing t with
  | nil =>
    obtain rfl := Option.some.inj h
    rfl
  | cons c cs ih =>
    obtain ⟨v, hv, hvu⟩ := Option.bind_eq_some_iff.mp h
    rw [refs, hv]
    exact ih hvu

theorem refs_of_find_none (h : t.find p = none) : t.refs p = 0 := by
  induction p generalizing t with
  | nil => cases h
  | cons c cs ih =>
    rw [refs]
    cases hv : t.child c.toNat with
    | none => rfl
    | some v =>
      rw [find, hv] at h
      exact ih h

theorem refs_cons (hc : t.child c.toNat = some u) : t.refs (c :: p) = u.refs p := by
  rw [refs, hc]

theorem refs_cons_none (hc : t.child c.toNat = none) : t.refs (c :: p) = 0 := by
  rw [refs, hc]

theorem Shape.not_redundant (h : t.Shape) {i : ℕ} (hc : t.child i = some u) :
    t.isRedundant = false := by
  have hget : t.next[t.index i]?.join = some u := slot_of_child hc
  have hlive : t.liveNodes ≠ 0 := by
    rw [h.live]
    intro hzero
    rw [Window.live_eq_zero_iff.mp hzero] at hget
    cases hget
  simp [isRedundant, hlive]

theorem Wf.replace (h : t.Wf) (hshape : u.Shape) (hx : w.Wf) (hred : w.isRedundant = false)
    (hchild : ∀ i, u.child i = if i = c.toNat then some w else t.child i) : u.Wf := by
  apply Wf.intro hshape
  intro d v hv
  rw [hchild] at hv
  split at hv
  · obtain rfl := Option.some.inj hv
    exact ⟨hx, hred⟩
  · exact h.child hv

structure Counts (t u : Trie) (p : List UInt8) (n : ℕ) : Prop where
  wf : u.Wf
  refs : ∀ q, u.refs q = if q = p then n else t.refs q

theorem Counts.replace {n : ℕ} (hw : Counts v w p n) (hred : w.isRedundant = false)
    (h : t.Wf) (hshape : u.Shape) (hrefcnt : u.refcnt = t.refcnt)
    (hchild : ∀ i, u.child i = if i = c.toNat then some w else t.child i)
    (hold : ∀ q, t.refs (c :: q) = v.refs q) : Counts t u (c :: p) n := by
  constructor
  · exact h.replace hshape hw.wf hred hchild
  · intro q
    cases q with
    | nil => exact hrefcnt
    | cons d ds =>
      have hd := hchild d.toNat
      by_cases heq : d = c
      · subst heq
        rw [if_pos rfl] at hd
        rw [refs_cons hd, hw.refs, hold]
        simp
      · rw [if_neg fun hnat => heq (UInt8.toNat_inj.mp hnat)] at hd
        rw [if_neg (by simp [heq]), Trie.refs, Trie.refs, hd]

theorem empty_wf : empty.Wf := by
  apply Wf.intro
  · exact
      { refcnt := by decide
        range := fun hpos => absurd hpos (by decide)
        tight := ⟨fun hpos => absurd hpos (by decide), fun hpos => absurd hpos (by decide)⟩
        live := rfl }
  · intro c u hu
    rw [child, empty, Window.lookup_nil] at hu
    cases hu

theorem refs_empty (p : List UInt8) : empty.refs p = 0 := by
  cases p with
  | nil => rfl
  | cons c cs =>
    apply refs_cons_none
    rw [child, empty, Window.lookup_nil]

theorem add_spec (h : t.Wf) (p : List UInt8) : ∃ u, t.add p = some (u, decide (t.refs p = 0)) ∧
      (t.refs p + 1 < 2 ^ 32 → Counts t u p (t.refs p + 1) ∧ u.isRedundant = false) := by
  induction p generalizing t with
  | nil =>
    have hnew : ((t.refcnt + 1) % 2 ^ 32 == 1) = decide (t.refs [] = 0) := by
      have hlt := h.shape.refcnt
      rw [Bool.eq_iff_iff, decide_eq_true_iff, beq_iff_eq, refs]
      omega
    refine ⟨{ t with refcnt := (t.refcnt + 1) % 2 ^ 32 }, ?_, fun hlt => ⟨⟨?_, ?_⟩, ?_⟩⟩
    · rw [add, ← hnew]
    · exact Wf.intro { h.shape with refcnt := Nat.mod_lt _ (by decide) } fun c u hu => h.child hu
    · intro q
      cases q with
      | nil => exact Nat.mod_eq_of_lt hlt
      | cons d ds => rfl
    · have hmod : (t.refcnt + 1) % 2 ^ 32 = t.refcnt + 1 := Nat.mod_eq_of_lt hlt
      rw [isRedundant, hmod]
      rfl
  | cons c cs ih =>
    have hgrown := extend_grown h.shape c.toNat_lt
    have hslot : (t.extend c.toNat).slot c.toNat = t.child c.toNat := by
      rw [slot_eq_child hgrown.inRange, hgrown.child]
    rw [add]
    cases hchild : t.child c.toNat with
    | some x =>
      rw [refs_cons hchild]
      obtain ⟨x', hadd, hcounts⟩ := ih (h.child hchild).1
      have hshape := hgrown.setSlot_shape (x := x') h.shape hchild
      refine ⟨(t.extend c.toNat).setSlot c.toNat x', ?_, fun hlt => ⟨?_, ?_⟩⟩
      · simp only [hslot, hchild, hadd]
        rfl
      · apply (hcounts hlt).1.replace (hcounts hlt).2 h hshape
        · exact hgrown.refcnt
        · intro i
          rw [child_setSlot hgrown.inRange, hgrown.child]
        · exact fun q => refs_cons hchild
      · apply hshape.not_redundant
        exact (child_setSlot hgrown.inRange _ _).trans (if_pos rfl)
    | none =>
      have hzero : t.refs (c :: cs) = 0 := refs_cons_none hchild
      obtain ⟨x', hadd, hcounts⟩ := ih empty_wf
      rw [refs_empty] at hadd hcounts
      obtain ⟨hcounts, hred⟩ := hcounts (by decide)
      have hlive := hgrown.countLive_eq h.shape hchild
      have hshape := hgrown.countLive_shape (x := x') h.shape hchild
      have hin : ({ t.extend c.toNat with
          liveNodes := (t.extend c.toNat).liveNodes + 1 } : Trie).outOfRange c.toNat =
          false := hgrown.inRange
      refine ⟨({ t.extend c.toNat with
        liveNodes := (t.extend c.toNat).liveNodes + 1 } : Trie).setSlot c.toNat x',
        ?_, fun _ => ⟨?_, ?_⟩⟩
      · simp only [hslot, hchild, hlive, hadd, hzero]
        rfl
      · rw [hzero]
        apply hcounts.replace hred h hshape
        · exact hgrown.refcnt
        · intro i
          rw [child_setSlot hin, ← hgrown.child]
          rfl
        · intro q
          rw [refs_empty]
          exact refs_cons_none hchild
      · apply hshape.not_redundant
        exact (child_setSlot hin _ _).trans (if_pos rfl)

section Update

variable {f g : Trie → Option Trie}

theorem updateAt_append (p q : List UInt8) (t : Trie) :
    t.updateAt f (p ++ q) = t.updateAt (fun v => v.updateAt f q) p := by
  induction p generalizing t with
  | nil => rfl
  | cons c cs ih =>
    rw [List.cons_append, updateAt, updateAt]
    simp only [ih]

theorem index_setSlot {i : ℕ} (x : Option Trie) : (t.setSlot i x).index i = t.index i := by
  have hcount : (t.setSlot i x).count = t.count := List.length_set
  rw [index, index, hcount]
  rfl

theorem slot_setSlot {i : ℕ} (h : t.slot i = some u) (x : Option Trie) :
    (t.setSlot i x).slot i = x := by
  obtain ⟨hlt, -⟩ := List.getElem?_eq_some_iff.mp (Option.join_eq_some_iff.mp h)
  rw [slot, index_setSlot, setSlot, List.getElem?_set, if_pos rfl, if_pos hlt]
  rfl

theorem setSlot_setSlot {i : ℕ} (x y : Option Trie) :
    (t.setSlot i x).setSlot i y = t.setSlot i y := by
  rw [setSlot, index_setSlot]
  simp [setSlot]

theorem updateAt_bind (p : List UInt8) (t : Trie) :
    (t.updateAt f p).bind (fun u => u.updateAt g p) = t.updateAt (fun v => (f v).bind g) p := by
  induction p generalizing t with
  | nil => rfl
  | cons c cs ih =>
    rw [updateAt, updateAt]
    cases hslot : t.slot c.toNat with
    | none => rfl
    | some x =>
      simp only [Option.bind_eq_bind, Option.bind_some, ← ih x]
      cases hx : x.updateAt f cs with
      | none => rfl
      | some y =>
        simp only [Option.pure_def, Option.bind_some]
        rw [updateAt, slot_setSlot hslot]
        simp only [Option.bind_eq_bind, Option.bind_some, Option.pure_def, setSlot_setSlot]

theorem updateAt_spec (h : t.Wf) (hfind : t.find p = some v) (hf : f v = some w)
    (hw : w.Wf) (hred : p ≠ [] → w.isRedundant = false) : ∃ u, t.updateAt f p = some u ∧ u.Wf ∧
      (w.isRedundant = false → u.isRedundant = false) ∧
      (∀ q, u.refs (p ++ q) = w.refs q) ∧ ∀ q, ¬ p <+: q → u.refs q = t.refs q := by
  induction p generalizing t with
  | nil =>
    obtain rfl := Option.some.inj hfind
    exact ⟨w, hf, hw, id, fun _ => rfl, fun q hq => absurd List.nil_prefix hq⟩
  | cons c cs ih =>
    obtain ⟨x, hx, hxv⟩ := Option.bind_eq_some_iff.mp hfind
    obtain ⟨x', hup, hwf, hred', hin, hout⟩ :=
      ih (h.child hx).1 hxv fun _ => hred (by simp)
    have hrange := inRange_of_child hx
    have hchild := child_setSlot hrange (some x')
    have hshape := h.shape.setSlot (v := x') hx
    have hself : (t.setSlot c.toNat x').child c.toNat = some x' :=
      (hchild _).trans (if_pos rfl)
    refine ⟨t.setSlot c.toNat x', ?_, ?_, ?_, ?_, ?_⟩
    · rw [updateAt, slot_of_child hx]
      simp [hup]
    · exact h.replace hshape hwf (hred' (hred (by simp))) hchild
    · exact fun _ => hshape.not_redundant hself
    · intro q
      rw [List.cons_append, refs_cons hself]
      exact hin q
    · intro q hq
      cases q with
      | nil => rfl
      | cons d ds =>
        by_cases heq : d = c
        · subst heq
          rw [refs_cons hself, refs_cons hx]
          exact hout ds fun hpre => hq (List.cons_prefix_cons.mpr ⟨rfl, hpre⟩)
        · have hd := hchild d.toNat
          rw [if_neg fun hnat => heq (UInt8.toNat_inj.mp hnat)] at hd
          rw [refs, refs, hd]

end Update

/-- The node stays, whatever becomes of the child on the way. -/
def Keeps (t : Trie) : Prop :=
  t.refcnt ≠ 0 ∨ 1 < t.liveNodes

/-- No node on the path, up to its last one, stays by itself. -/
def Thin (t : Trie) : List UInt8 → Prop
  | [] => True
  | c :: cs => ¬ t.Keeps ∧ ∀ u, t.child c.toNat = some u → u.Thin cs

theorem descend_none (h : t.find p = none) (depth parent : ℕ) :
    t.descend p depth parent = none := by
  induction p generalizing t depth parent with
  | nil => cases h
  | cons c cs ih =>
    rw [descend]
    split
    · rfl
    · rename_i hin
      simp only [Bool.or_eq_true, not_or, Bool.not_eq_true] at hin
      rw [slot_eq_child hin.2]
      cases hx : t.child c.toNat with
      | none => rfl
      | some x =>
        rw [find, hx] at h
        exact ih h _ _

theorem descend_spec (h : t.find p = some v) (depth parent : ℕ) :
    ∃ d, t.descend p depth parent = some (v, d) ∧ (d = parent ∧ (p ≠ [] → depth ≠ 0) ∧ t.Thin p ∨
        ∃ q c r u w, p = q ++ c :: r ∧ d = depth + q.length ∧ t.find q = some u ∧
          u.child c.toNat = some w ∧ w.Thin r ∧ (d = 0 ∨ u.Keeps)) := by
  induction p generalizing t depth parent with
  | nil =>
    obtain rfl := Option.some.inj h
    exact ⟨parent, rfl, .inl ⟨rfl, fun hne => absurd rfl hne, trivial⟩⟩
  | cons c cs ih =>
    obtain ⟨x, hx, hxv⟩ := Option.bind_eq_some_iff.mp h
    have hrange := outOfRange_eq_false.mp (inRange_of_child hx)
    have hcount : ¬ t.count = 0 := by
      unfold count
      omega
    rw [descend]
    simp only [hcount, decide_false, inRange_of_child hx, Bool.or_self, slot_of_child hx,
      Bool.false_eq_true, if_false]
    by_cases hkeep : depth = 0 ∨ t.refcnt ≠ 0 ∨ 1 < t.liveNodes
    · rw [if_pos hkeep]
      obtain ⟨d, hd, ⟨rfl, -, hthin⟩ | ⟨q, e, r, u, w, rfl, rfl, hq, hu, hw, hk⟩⟩ :=
        ih hxv (depth + 1) depth
      · exact ⟨d, hd, .inr ⟨[], c, cs, t, x, rfl, rfl, rfl, hx, hthin, hkeep⟩⟩
      · refine ⟨_, hd, .inr ⟨c :: q, e, r, u, w, rfl, ?_, ?_, hu, hw, hk⟩⟩
        · rw [List.length_cons]
          omega
        · rw [find, hx]
          exact hq
    · rw [if_neg hkeep]
      have hno := not_or.mp hkeep
      obtain ⟨d, hd, ⟨rfl, -, hthin⟩ | ⟨q, e, r, u, w, rfl, rfl, hq, hu, hw, hk⟩⟩ :=
        ih hxv (depth + 1) parent
      · refine ⟨d, hd, .inl ⟨rfl, fun _ => hno.1, hno.2, fun u hu => ?_⟩⟩
        obtain rfl := Option.some.inj (hx.symm.trans hu)
        exact hthin
      · refine ⟨_, hd, .inr ⟨c :: q, e, r, u, w, rfl, ?_, ?_, hu, hw, hk⟩⟩
        · rw [List.length_cons]
          omega
        · rw [find, hx]
          exact hq

theorem Shape.child_unique (h : t.Shape) (hlive : t.liveNodes ≤ 1) {i j : ℕ}
    (hi : t.child i = some u) (hj : t.child j = some v) : i = j := by
  have hri := Window.range_of_lookup hi
  have hrj := Window.range_of_lookup hj
  rw [child, Window.lookup_of_le hri.1] at hi
  rw [child, Window.lookup_of_le hrj.1] at hj
  have heq := Window.eq_of_live_le_one (h.live ▸ hlive) hi hj
  omega

theorem Wf.refs_of_thin (h : t.Wf) (hthin : t.Thin p) (hfind : t.find p = some v)
    (hlive : v.liveNodes = 0) (hne : q ≠ p) : t.refs q = 0 := by
  induction p generalizing t q with
  | nil =>
    obtain rfl := Option.some.inj hfind
    cases q with
    | nil => exact absurd rfl hne
    | cons d ds =>
      cases hd : t.child d.toNat with
      | none => exact refs_cons_none hd
      | some x =>
        have hred := h.shape.live.symm.trans hlive
        have hget : t.next[t.index d.toNat]?.join = some x := slot_of_child hd
        rw [Window.live_eq_zero_iff.mp hred] at hget
        cases hget
  | cons c cs ih =>
    obtain ⟨x, hx, hxv⟩ := Option.bind_eq_some_iff.mp hfind
    obtain ⟨hkeep, hrest⟩ := hthin
    have hno := not_or.mp hkeep
    cases q with
    | nil => exact not_not.mp hno.1
    | cons d ds =>
      cases hd : t.child d.toNat with
      | none => exact refs_cons_none hd
      | some y =>
        have heq := h.shape.child_unique (Nat.le_of_not_lt hno.2) hd hx
        obtain rfl := UInt8.toNat_inj.mp heq
        obtain rfl := Option.some.inj (hd.symm.trans hx)
        rw [refs_cons hd]
        exact ih (h.child hd).1 (hrest y hd) hxv fun hds => hne (hds ▸ rfl)

theorem decref_wf (h : t.Wf) : t.decref.Wf := by
  apply Wf.intro
  · exact { h.shape with refcnt := (Nat.sub_le _ _).trans_lt h.shape.refcnt }
  · exact fun c u hu => h.child hu

theorem find_append : t.find (p ++ q) = (t.find p).bind fun u => u.find q := by
  induction p generalizing t with
  | nil => rfl
  | cons c cs ih =>
    rw [List.cons_append, find, find]
    cases t.child c.toNat with
    | none => rfl
    | some x => exact ih

theorem find_wf (h : t.Wf) (hfind : t.find p = some u) : u.Wf := by
  intro q v hv
  have hpq : t.find (p ++ q) = some v := by
    rw [find_append, hfind]
    exact hv
  have hboth := h (p ++ q) v hpq
  refine ⟨hboth.1, fun hq => hboth.2 ?_⟩
  exact List.append_ne_nil_of_right_ne_nil _ hq

theorem refs_append (hfind : t.find p = some u) : t.refs (p ++ q) = u.refs q := by
  cases hq : u.find q with
  | none =>
    rw [refs_of_find_none hq, refs_of_find_none]
    rw [find_append, hfind]
    exact hq
  | some v =>
    rw [refs_of_find hq, refs_of_find]
    rw [find_append, hfind]
    exact hq

theorem updateAt_exists {f : Trie → Option Trie} (hfind : t.find p = some v)
    (hf : f v = some w) : ∃ u, t.updateAt f p = some u := by
  induction p generalizing t with
  | nil =>
    obtain rfl := Option.some.inj hfind
    exact ⟨w, hf⟩
  | cons c cs ih =>
    obtain ⟨x, hx, hxv⟩ := Option.bind_eq_some_iff.mp hfind
    obtain ⟨u, hu⟩ := ih hxv
    exact ⟨t.setSlot c.toNat u, by simp [updateAt, slot_of_child hx, hu]⟩

theorem Pruned.wf (h : t.Wf) (hpruned : Pruned c.toNat t u) : u.Wf := by
  apply Wf.intro hpruned.shape
  intro d x hx
  rw [hpruned.child] at hx
  split at hx
  · cases hx
  · exact h.child hx

theorem Pruned.refs_cons (hpruned : Pruned c.toNat t u) (d : UInt8) (p : List UInt8) :
    u.refs (d :: p) = if d = c then 0 else t.refs (d :: p) := by
  have hd := hpruned.child d.toNat
  split
  · subst d
    rw [if_pos rfl] at hd
    exact refs_cons_none hd
  · rename_i heq
    rw [if_neg fun hnat => heq (UInt8.toNat_inj.mp hnat)] at hd
    rw [refs, refs, hd]

theorem prune_path {r : List UInt8} (h : t.Wf) (hq : t.find q = some u)
    (hc : u.child c.toNat = some w) (hthin : w.Thin r) (hfind : w.find r = some v)
    (hlive : v.liveNodes = 0) (hkeep : q = [] ∨ u.Keeps) :
    ∃ x, (t.updateAt (fun node => some node.decref) (q ++ c :: r)).bind
        (fun y => y.updateAt (prune c.toNat) q) = some x ∧
      Counts t x (q ++ c :: r) 0 := by
  have hu := find_wf h hq
  obtain ⟨w', hw'⟩ := updateAt_exists (f := fun node => some node.decref) hfind rfl
  have hset : u.updateAt (fun node => some node.decref) (c :: r) =
      some (u.setSlot c.toNat w') := by
    rw [updateAt, slot_of_child hc]
    simp [hw']
  have hrange := inRange_of_child hc
  have hself : (u.setSlot c.toNat (some w')).child c.toNat = some w' :=
    (child_setSlot hrange _ _).trans (if_pos rfl)
  obtain ⟨x, hx, hpruned'⟩ := prune_spec (hu.shape.setSlot hc) hself
  have hpruned : Pruned c.toNat u x :=
    { hpruned' with
      child := fun i => by
        rw [hpruned'.child, child_setSlot hrange]
        split <;> rfl }
  have hred : q ≠ [] → x.isRedundant = false := by
    intro hne
    have hlive' := hpruned.liveNodes
    rcases hkeep.resolve_left hne with hrefs | hmany
    · simp [isRedundant, hpruned.refcnt, hrefs]
    · simp [isRedundant, show x.liveNodes ≠ 0 by omega]
  rw [updateAt_append, updateAt_bind]
  obtain ⟨y, hy, hwf, -, hin, hout⟩ :=
    updateAt_spec (f := fun v => (v.updateAt (fun node => some node.decref) (c :: r)).bind
        (prune c.toNat))
      h hq (by rw [hset]; exact hx) (hpruned.wf hu) hred
  refine ⟨y, hy, hwf, fun s => ?_⟩
  by_cases hpre : q <+: s
  · obtain ⟨s, rfl⟩ := hpre
    rw [hin, refs_append hq]
    simp only [List.append_cancel_left_eq]
    cases s with
    | nil => exact hpruned.refcnt
    | cons d ds =>
      rw [hpruned.refs_cons]
      by_cases hd : d = c
      · subst hd
        rw [if_pos rfl]
        split
        · rfl
        · rename_i hne
          rw [refs_cons hc]
          exact ((hu.child hc).1.refs_of_thin hthin hfind hlive fun hds => hne (hds ▸ rfl)).symm
      · rw [if_neg hd, if_neg (by simp [hd])]
  · rw [hout s hpre, if_neg]
    rintro rfl
    exact hpre (List.prefix_append _ _)

theorem decref_counts (h : t.Wf) (hfind : t.find p = some v)
    (hred : p ≠ [] → v.decref.isRedundant = false) :
    ∃ u, t.updateAt (fun node => some node.decref) p = some u ∧ Counts t u p (t.refs p - 1) := by
  obtain ⟨u, hu, hwf, -, hin, hout⟩ :=
    updateAt_spec (f := fun node => some node.decref) h hfind rfl (decref_wf (find_wf h hfind)) hred
  refine ⟨u, hu, hwf, fun q => ?_⟩
  by_cases hpre : p <+: q
  · obtain ⟨q, rfl⟩ := hpre
    rw [hin]
    cases q with
    | nil =>
      rw [List.append_nil, if_pos rfl, refs_of_find hfind]
      rfl
    | cons d ds =>
      rw [if_neg (by simp), refs_append hfind]
      rfl
  · rw [hout q hpre, if_neg]
    rintro rfl
    exact hpre (List.prefix_refl _)

theorem rm_spec (h : t.Wf) (p : List UInt8) :
    ∃ u, t.rm p = some (u, decide (t.refs p = 1)) ∧ Counts t u p (t.refs p - 1) := by
  have hsame (hzero : t.refs p = 0) : Counts t t p (t.refs p - 1) := by
    refine ⟨h, fun q => ?_⟩
    split
    · subst q
      rw [hzero]
    · rfl
  cases hfind : t.find p with
  | none =>
    have hzero := refs_of_find_none hfind
    refine ⟨t, ?_, hsame hzero⟩
    simp [rm, descend_none hfind, hzero]
  | some v =>
    have hrefs := refs_of_find hfind
    obtain ⟨d, hd, hcases⟩ := descend_spec hfind 0 0
    by_cases hzero : v.refcnt = 0
    · refine ⟨t, ?_, hsame (hrefs.trans hzero)⟩
      simp [rm, hd, hzero, hrefs]
    have hret : (v.decref.refcnt == 0) = decide (t.refs p = 1) := by
      rw [Bool.eq_iff_iff, decide_eq_true_iff, beq_iff_eq, hrefs, decref]
      change v.refcnt - 1 = 0 ↔ _
      omega
    rw [rm, hd]
    simp only [if_neg hzero, hret]
    rcases hcases with ⟨rfl, hroot, -⟩ | ⟨q, c, r, u, w, rfl, rfl, hq, hc, hthin, hkeep⟩
    · -- Only the root itself is found without a node above it.
      have hnil : p = [] := not_not.mp fun hne => hroot hne rfl
      subst hnil
      obtain ⟨u, hu, hcounts⟩ := decref_counts h hfind fun hne => absurd rfl hne
      exact ⟨u, by rw [hu]; rfl, hcounts⟩
    · rw [Nat.zero_add] at hkeep ⊢
      have hget : (q ++ c :: r)[q.length]? = some c := by simp
      have htake : (q ++ c :: r).take q.length = q := by simp
      rw [hget, htake]
      simp only
      by_cases hred : v.decref.isRedundant = true
      · have hboth := Bool.and_eq_true_iff.mp hred
        have hone : v.refcnt - 1 = 0 ∧ v.liveNodes = 0 :=
          ⟨of_decide_eq_true hboth.1, of_decide_eq_true hboth.2⟩
        have hwv : w.find r = some v := by
          rw [find_append, hq] at hfind
          exact (congrArg (Option.bind · _) hc).symm.trans hfind
        have hroot : q = [] ∨ u.Keeps := hkeep.imp_left List.length_eq_zero_iff.mp
        obtain ⟨x, hx, hcounts⟩ := prune_path h hq hc hthin hwv hone.2 hroot
        obtain ⟨y, hy, hyx⟩ := Option.bind_eq_some_iff.mp hx
        refine ⟨x, ?_, ?_⟩
        · rw [hy]
          simp [hred, hyx]
        · rwa [hrefs, hone.1]
      · obtain ⟨u, hu, hcounts⟩ :=
          decref_counts h hfind fun _ => Bool.eq_false_of_not_eq_true hred
        refine ⟨u, ?_, hcounts⟩
        rw [hu]
        simp [hred]

theorem check_spec (h : t.Wf) (data : List UInt8) :
    ∃ b, t.check data = some b ∧ (b = true ↔ ∃ p, p <+: data ∧ 0 < t.refs p) := by
  induction data generalizing t with
  | nil =>
    refine ⟨_, rfl, ?_⟩
    rw [bne_iff_ne, ← Nat.pos_iff_ne_zero]
    constructor
    · exact fun hpos => ⟨[], List.nil_prefix, hpos⟩
    · rintro ⟨p, hp, hpos⟩
      rwa [List.prefix_nil.mp hp] at hpos
  | cons c cs ih =>
    rw [check]
    by_cases hrefs : t.refcnt ≠ 0
    · refine ⟨true, if_pos hrefs, fun _ => ?_, fun _ => rfl⟩
      exact ⟨[], List.nil_prefix, Nat.pos_of_ne_zero hrefs⟩
    rw [if_neg hrefs]
    have hzero : t.refs [] = 0 := not_not.mp hrefs
    -- Behind the root, only what starts with this byte can match.
    have hnone (hc : t.child c.toNat = none) : ¬ ∃ p, p <+: c :: cs ∧ 0 < t.refs p := by
      rintro ⟨p, hp, hpos⟩
      cases p with
      | nil => rw [hzero] at hpos; exact absurd hpos (lt_irrefl 0)
      | cons d ds =>
        obtain ⟨rfl, -⟩ := List.cons_prefix_cons.mp hp
        rw [refs_cons_none hc] at hpos
        exact absurd hpos (lt_irrefl 0)
    by_cases hout : t.outOfRange c.toNat = true
    · rw [if_pos hout]
      exact ⟨false, rfl, iff_of_false Bool.false_ne_true (hnone (child_of_outOfRange hout))⟩
    have hin := Bool.eq_false_of_not_eq_true hout
    rw [if_neg hout, slot_eq_child hin]
    cases hc : t.child c.toNat with
    | some x =>
      obtain ⟨b, hb, hiff⟩ := ih (h.child hc).1
      refine ⟨b, hb, hiff.trans ?_⟩
      constructor
      · rintro ⟨p, hp, hpos⟩
        refine ⟨c :: p, List.cons_prefix_cons.mpr ⟨rfl, hp⟩, ?_⟩
        rwa [refs_cons hc]
      · rintro ⟨p, hp, hpos⟩
        cases p with
        | nil => rw [hzero] at hpos; exact absurd hpos (lt_irrefl 0)
        | cons d ds =>
          obtain ⟨rfl, hds⟩ := List.cons_prefix_cons.mp hp
          rw [refs_cons hc] at hpos
          exact ⟨ds, hds, hpos⟩
    | none =>
      have hmany : ¬ t.count = 1 := by
        -- A table of one slot has its child.
        intro hone
        have hlen : t.next.length = 1 := hone
        have hrange := outOfRange_eq_false.mp hin
        apply h.shape.tight.first (by omega)
        rw [child, Window.lookup_of_le hrange.1] at hc
        rwa [show c.toNat - t.min = 0 by omega] at hc
      simp only [if_neg hmany]
      exact ⟨false, rfl, iff_of_false Bool.false_ne_true (hnone hc)⟩

end Trie

end Zlink.Subscription
