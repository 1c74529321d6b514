import Zlink.Lib.Listing
import Zlink.Lib.Loop
import Zlink.Lib.Trace
import Zlink.Subscription.Counting

/-!
# The trie is a multiset of prefixes

The trie is compared with a `Multiset` of prefixes. The counter of a node has 32 bits, so
the comparison is for prefixes that are added less than `2 ^ 32` times more than removed.
-/

namespace Zlink.Subscription

namespace Trie

variable {t u v w : Trie} {p q : List UInt8} {c : UInt8}

theorem firstChild_spec (h : t.Shape) {i : ℕ} (hi : i ≤ t.next.length) : i ≤ t.firstChild i ∧
      (∀ k, i ≤ k → k < t.firstChild i → t.next[k]?.join = none) ∧
      (t.firstChild i < t.next.length → t.next[t.firstChild i]?.join ≠ none) := by
  unfold firstChild
  split
  · refine ⟨Nat.le_add_right _ _, ?_, ?_⟩
    · intro k hik hk
      have hlt : k - i < (t.next.drop i).findIdx Option.isSome := by omega
      have hnot := List.not_of_lt_findIdx hlt
      have hlen : i + (k - i) < t.next.length := by
        have hle : (t.next.drop i).findIdx Option.isSome ≤ (t.next.drop i).length :=
          List.findIdx_le_length
        rw [List.length_drop] at hle
        omega
      rw [List.getElem_drop] at hnot
      rw [show k = i + (k - i) by omega, List.getElem?_eq_getElem hlen]
      exact Option.not_isSome_iff_eq_none.mp (by simpa using hnot)
    · intro hlt
      have hlt' : (t.next.drop i).findIdx Option.isSome < (t.next.drop i).length := by
        rw [List.length_drop]
        omega
      have hsome := List.findIdx_getElem (w := hlt')
      rw [List.getElem_drop] at hsome
      rw [List.getElem?_eq_getElem hlt]
      exact Option.isSome_iff_ne_none.mp hsome
  · rename_i hone
    refine ⟨le_rfl, fun k hik hk => absurd hk (Nat.not_lt.mpr hik), fun hlt => ?_⟩
    have hzero : i = 0 := by
      have hcount : ¬ 1 < t.next.length := hone
      omega
    subst hzero
    exact h.tight.first hlt

namespace Walk

theorem loop_eq_run (n : ℕ) (w : Walk) : Walk.loop n w = Loop.run Walk.turn n w := by
  induction n generalizing w with
  | zero => rfl
  | succ n ih =>
    rw [Walk.loop, Loop.run]
    cases w.turn with
    | none => rfl
    | some r =>
      cases r with
      | inl w' => exact ih w'
      | inr out => rfl

theorem loop_of_le {m n : ℕ} {w : Walk} {out : List (List UInt8)} (hle : m ≤ n)
    (h : Walk.loop m w = some out) : Walk.loop n w = some out := by
  induction m generalizing n w with
  | zero => cases h
  | succ m ih =>
    obtain ⟨n, rfl⟩ := Nat.exists_eq_add_of_le' (Nat.one_le_of_lt hle)
    cases hturn : w.turn with
    | none => simp [Walk.loop, hturn] at h
    | some r =>
      cases r with
      | inl w' =>
        simp only [Walk.loop, hturn] at h ⊢
        exact ih (Nat.le_of_succ_le_succ hle) h
      | inr out' =>
        simp only [Walk.loop, hturn] at h ⊢
        exact h

end Walk

/-- The prefixes counted in a trie, below a path. -/
abbrev Lists (t : Trie) : List UInt8 → List (List UInt8) → Prop :=
  Listing.Lists fun s => 0 < t.refs s

/-- Those behind a slot of the table, or a later one. -/
abbrev ListsFrom (t : Trie) (i : ℕ) : List UInt8 → List (List UInt8) → Prop :=
  Listing.ListsFrom UInt8.toNat (fun s => 0 < t.refs s) (t.min + i)

variable {i j : ℕ} {out : List (List UInt8)}

theorem child_of_getElem (h : t.next[i]?.join = some u) : t.child (t.min + i) = some u := by
  rw [child, Window.lookup_of_le (Nat.le_add_right _ _), Nat.add_sub_cancel_left, h]

theorem child_pos (h : 0 < t.refs (c :: p)) : ∃ u, t.child c.toNat = some u := by
  cases hc : t.child c.toNat with
  | none =>
    rw [refs_cons_none hc] at h
    exact absurd h (lt_irrefl 0)
  | some u => exact ⟨u, rfl⟩

theorem range_of_refs (h : 0 < t.refs (c :: p)) :
    t.min ≤ c.toNat ∧ c.toNat < t.min + t.next.length := by
  obtain ⟨u, hu⟩ := child_pos h
  exact Window.range_of_lookup hu

theorem ListsFrom.skipSlots (h : ListsFrom t j p out) (hij : i ≤ j)
    (hnone : ∀ k, i ≤ k → k < j → t.next[k]?.join = none) : ListsFrom t i p out := by
  refine h.skip (Nat.add_le_add_left hij _) fun c s hle hlt hpos => ?_
  obtain ⟨u, hu⟩ := child_pos hpos
  rw [child, Window.lookup_of_le (by omega), hnone _ (by omega) (by omega)] at hu
  cases hu

theorem ListsFrom.noSlots (h : t.next.length ≤ i) : ListsFrom t i p [] := by
  refine .nil fun c s hle hpos => ?_
  have hrange := range_of_refs hpos
  omega

theorem ListsFrom.slot {outs : List (List UInt8)} (hc : c.toNat = t.min + i)
    (hu : t.child c.toNat = some u) (h : Lists u (p ++ [c]) out)
    (hrest : ListsFrom t (i + 1) p outs) : ListsFrom t i p (out ++ outs) :=
  .cons (fun _ _ => UInt8.toNat_inj.mp) hc h (fun s => by rw [refs_cons hu]) hrest

theorem ListsFrom.node (h : ListsFrom t 0 p out) :
    Lists t p ((if t.refcnt ≠ 0 then [p] else []) ++ out) := by
  have hroot := h.root fun c s hpos => (range_of_refs hpos).1
  by_cases hrefs : t.refcnt = 0
  · rw [if_neg (not_not.mpr hrefs)]
    rwa [if_neg (show ¬ 0 < t.refs [] from Nat.not_lt.mpr hrefs.le)] at hroot
  · rw [if_pos hrefs]
    rwa [if_pos (show 0 < t.refs [] from Nat.pos_of_ne_zero hrefs)] at hroot

theorem advance_leads (h : t.Wf)
    (ih : ∀ (c : UInt8) u, t.child c.toNat = some u → ∀ path parents out,
      ∃ outs path', Loop.Leads Walk.turn ⟨u, 0, path, parents, out⟩ (Walk.pop parents path' (out ++ outs)) ∧
        path <+: path' ∧ Lists u path outs)
    (i : ℕ) (hi : i ≤ t.next.length) (path : List UInt8) (parents : List Cursor)
    (out : List (List UInt8)) : ∃ outs path' r, Walk.advance ⟨t, i, path, parents, out⟩ = some r ∧
      (r = Walk.pop parents path' (out ++ outs) ∨
        ∃ w, r = .inl w ∧ Loop.Leads Walk.turn w (Walk.pop parents path' (out ++ outs))) ∧
      path <+: path' ∧ ListsFrom t i path outs := by
  obtain ⟨hle, hskip, hsome⟩ := firstChild_spec h.shape hi
  by_cases hlt : t.firstChild i < t.next.length
  · obtain ⟨u, hu⟩ := Option.ne_none_iff_exists'.mp (hsome hlt)
    have hrange := h.shape.range (by omega)
    have hbyte : (UInt8.ofNat (t.min + t.firstChild i)).toNat = t.min + t.firstChild i :=
      UInt8.toNat_ofNat_of_lt' (show t.min + t.firstChild i < 256 by omega)
    have hchild : t.child (UInt8.ofNat (t.min + t.firstChild i)).toNat = some u := by
      rw [hbyte]
      exact child_of_getElem hu
    by_cases hmore : t.firstChild i + 1 < t.next.length
    · -- A cursor is left behind for the slots that follow.
      obtain ⟨outs, path', hleads, hpre, hlists⟩ := ih _ u hchild
        (path ++ [UInt8.ofNat (t.min + t.firstChild i)])
        ({ node := t, child := t.firstChild i + 1, depth := path.length } :: parents) out
      obtain ⟨rest, path'', r, hr, hcases, hpre', hfrom⟩ :=
        advance_leads h ih (t.firstChild i + 1) (by omega) path parents (out ++ outs)
      have htake : path'.take path.length = path := by
        obtain ⟨s, rfl⟩ := hpre
        rw [List.append_assoc, List.take_left]
      have hturn : Walk.turn ⟨t, t.firstChild i + 1, path, parents, out ++ outs⟩ = some r := by
        simpa [Walk.turn, Walk.visit] using hr
      have hback : Loop.Leads Walk.turn ⟨t, t.firstChild i + 1, path, parents, out ++ outs⟩
          (Walk.pop parents path'' (out ++ outs ++ rest)) := by
        rcases hcases with rfl | ⟨w, rfl, hw⟩
        · exact .last hturn
        · exact .step hturn hw
      have hmany : 1 < t.next.length := by omega
      have hadvance : Walk.advance ⟨t, i, path, parents, out⟩ = some (.inl
          ⟨u, 0, path ++ [UInt8.ofNat (t.min + t.firstChild i)],
            { node := t, child := t.firstChild i + 1, depth := path.length } :: parents,
            out⟩) := by
        simp only [Walk.advance, hlt, if_true, hu, hmore, hmany, and_self]
        rfl
      rw [Walk.pop, htake] at hleads
      refine ⟨outs ++ rest, path'', _, hadvance, .inr ⟨_, rfl, ?_⟩, hpre',
        (ListsFrom.slot hbyte hchild hlists hfrom).skipSlots hle hskip⟩
      rw [← List.append_assoc]
      exact hleads.trans hback
    · obtain ⟨outs, path', hleads, hpre, hlists⟩ := ih _ u hchild
        (path ++ [UInt8.ofNat (t.min + t.firstChild i)]) parents out
      have hfrom := ListsFrom.slot hbyte hchild hlists
        (ListsFrom.noSlots (t := t) (Nat.le_of_not_lt hmore))
      rw [List.append_nil] at hfrom
      refine ⟨outs, path', _, ?_, .inr ⟨_, rfl, hleads⟩,
        (List.prefix_append _ _).trans hpre, hfrom.skipSlots hle hskip⟩
      simp only [Walk.advance, hlt, if_true, hu, hmore, and_false, if_false]
      rfl
  · have hadvance : Walk.advance ⟨t, i, path, parents, out⟩ =
        some (Walk.pop parents path out) := by
      simp only [Walk.advance, hlt, if_false]
    refine ⟨[], path, _, hadvance, .inl ?_, List.prefix_refl _,
      (ListsFrom.noSlots (Nat.le_of_not_lt hlt)).skipSlots hle hskip⟩
    rw [List.append_nil]
termination_by t.next.length - i

theorem sizeOf_child {i : ℕ} (h : t.child i = some u) : sizeOf u < sizeOf t := by
  have hget : t.next[t.index i]?.join = some u := slot_of_child h
  have hmem : some u ∈ t.next := List.mem_of_getElem? (Option.join_eq_some_iff.mp hget)
  have hlist := List.sizeOf_lt_of_mem hmem
  cases t with
  | mk refcnt min liveNodes next =>
    simp only [Trie.mk.sizeOf_spec, Option.some.sizeOf_spec] at hlist ⊢
    omega

theorem turn_leads {t : Trie} (h : t.Wf) (path : List UInt8) (parents : List Cursor)
    (out : List (List UInt8)) : ∃ outs path', Loop.Leads Walk.turn ⟨t, 0, path, parents, out⟩
        (Walk.pop parents path' (out ++ outs)) ∧ path <+: path' ∧ Lists t path outs := by
  obtain ⟨outs, path', r, hr, hcases, hpre, hfrom⟩ :=
    advance_leads h (fun c u hu => turn_leads (h.child hu).1) 0 (Nat.zero_le _) path parents
      (out ++ if t.refcnt ≠ 0 then [path] else [])
  have hturn : Walk.turn ⟨t, 0, path, parents, out⟩ = some r := by
    rw [← hr, Walk.turn, Walk.visit]
    by_cases hrefs : t.refcnt = 0
    · simp [hrefs]
    · simp [hrefs]
  refine ⟨_, path', ?_, hpre, hfrom.node⟩
  rw [← List.append_assoc]
  rcases hcases with rfl | ⟨w, rfl, hw⟩
  · exact .last hturn
  · exact .step hturn hw
termination_by sizeOf t
decreasing_by exact sizeOf_child hu

theorem apply_spec (h : t.Wf) : ∃ n outs, (∀ m, n ≤ m → t.apply m = some outs) ∧ outs.Nodup ∧
      ∀ p, p ∈ outs ↔ 0 < t.refs p := by
  obtain ⟨outs, path', hleads, -, hlists⟩ := turn_leads h [] [] []
  obtain ⟨n, hn⟩ := hleads.run
  refine ⟨n, outs, fun m hm => (Walk.loop_eq_run m _).trans (hn m hm), hlists.nodup, fun p => (hlists.mem p).trans ?_⟩
  simp

theorem mem_apply (h : t.Wf) {fuel : ℕ} {outs : List (List UInt8)}
    (happly : t.apply fuel = some outs) (p : List UInt8) : p ∈ outs ↔ 0 < t.refs p := by
  obtain ⟨n, outs', hn, -, hmem⟩ := apply_spec h
  have hsame : t.apply (max n fuel) = some outs :=
    Walk.loop_of_le (Nat.le_max_right n fuel) happly
  rw [hn _ (Nat.le_max_left n fuel)] at hsame
  rw [← Option.some.inj hsame]
  exact hmem p

end Trie

inductive Op where
  | add (pre : List UInt8)
  | rm (pre : List UInt8)

def Op.denote (subs : Multiset (List UInt8)) : Op → Multiset (List UInt8)
  | .add pre => pre ::ₘ subs
  | .rm pre => subs.erase pre

def denote (ops : List Op) : Multiset (List UInt8) :=
  ops.foldl Op.denote 0

namespace Trie

variable {t : Trie}

def step (t : Trie) : Op → Option Trie
  | .add pre => (t.add pre).map Prod.fst
  | .rm pre => (t.rm pre).map Prod.fst

/-- The trie is what the multiset says: no assertion fails in it, every call returns
what it should, and its representation is in good order. -/
structure Refines (t : Trie) (subs : Multiset (List UInt8)) : Prop where
  wf : t.Wf
  check : ∀ data, ∃ b, t.check data = some b ∧ (b = true ↔ ∃ pre, pre <+: data ∧ 0 < subs.count pre)
  add : ∀ pre, ∃ u b, t.add pre = some (u, b) ∧ (b = true ↔ subs.count pre = 0)
  rm : ∀ pre, ∃ u b, t.rm pre = some (u, b) ∧ (b = true ↔ subs.count pre = 1)
  apply : ∃ n outs, (∀ m, n ≤ m → t.apply m = some outs) ∧ outs.Nodup ∧
    ∀ pre, pre ∈ outs ↔ 0 < subs.count pre

/-- The call finds the counter of its prefix with room for one more. -/
def Fits (subs : Multiset (List UInt8)) : Op → Prop
  | .add pre => subs.count pre + 1 < 2 ^ 32
  | .rm _ => True

instance (subs : Multiset (List UInt8)) : DecidablePred (Fits subs)
  | .add pre => inferInstanceAs (Decidable (subs.count pre + 1 < 2 ^ 32))
  | .rm _ => .isTrue trivial

structure Matches (t : Trie) (subs : Multiset (List UInt8)) : Prop where
  wf : t.Wf
  refs : ∀ pre, t.refs pre = subs.count pre

theorem Matches.refines {subs : Multiset (List UInt8)} (h : t.Matches subs) : t.Refines subs where
  wf := h.wf
  check data := by
    simp only [← h.refs]
    exact check_spec h.wf data
  add pre := by
    obtain ⟨u, hu, -⟩ := add_spec h.wf pre
    exact ⟨u, _, hu, by rw [decide_eq_true_iff, h.refs]⟩
  rm pre := by
    obtain ⟨u, hu, -⟩ := rm_spec h.wf pre
    exact ⟨u, _, hu, by rw [decide_eq_true_iff, h.refs]⟩
  apply := by
    simp only [← h.refs]
    exact apply_spec h.wf

theorem Matches.step {subs : Multiset (List UInt8)} (h : t.Matches subs) {op : Op}
    (hfits : Fits subs op) : ∃ u, t.step op = some u ∧ u.Matches (op.denote subs) := by
  cases op with
  | add pre =>
    obtain ⟨u, hu, hcounts⟩ := add_spec h.wf pre
    obtain ⟨hcounts, -⟩ := hcounts (by rw [h.refs]; exact hfits)
    refine ⟨u, by rw [Trie.step, hu]; rfl, hcounts.wf, fun q => ?_⟩
    rw [hcounts.refs, h.refs, h.refs, Op.denote, Multiset.count_cons]
    split <;> simp [*]
  | rm pre =>
    obtain ⟨u, hu, hcounts⟩ := rm_spec h.wf pre
    refine ⟨u, by rw [Trie.step, hu]; rfl, hcounts.wf, fun q => ?_⟩
    rw [hcounts.refs, h.refs, h.refs, Op.denote]
    split
    · subst q
      rw [Multiset.count_erase_self]
    · rw [Multiset.count_erase_of_ne ‹_›]

theorem empty_matches : empty.Matches 0 where
  wf := empty_wf
  refs pre := by rw [refs_empty, Multiset.count_zero]

theorem Matches.run {subs : Multiset (List UInt8)} (h : t.Matches subs) {ops : List Op}
    (hfits : Trace.Along (fun s op => some (Op.denote s op)) Fits subs ops) :
    ∃ u, Trace.run Trie.step t ops = some u ∧ u.Matches (ops.foldl Op.denote subs) := by
  induction ops generalizing t subs with
  | nil => exact ⟨t, rfl, h⟩
  | cons op ops ih =>
    obtain ⟨u, hu, hmatches⟩ := h.step hfits.1
    obtain ⟨v, hv, hrest⟩ := ih hmatches (hfits.2 _ rfl)
    exact ⟨v, by rw [Trace.run, hu]; exact hv, hrest⟩

/-- **Refinement.** As long as no prefix is added `2 ^ 32` times more than it is
removed, the trie is the multiset of the prefixes added and not removed. -/
theorem run_refines (ops : List Op)
    (hfits : Trace.Along (fun s op => some (Op.denote s op)) Fits 0 ops) :
    ∃ t, Trace.run Trie.step empty ops = some t ∧ t.Refines (denote ops) := by
  obtain ⟨t, ht, hmatches⟩ := empty_matches.run hfits
  exact ⟨t, ht, hmatches.refines⟩

theorem run_refines_shared :
    ∃ t, Trace.run Trie.step empty [.add [1, 2], .add [1, 5], .add [1, 2], .rm [1, 5]] =
      some t ∧ t.Refines (denote [.add [1, 2], .add [1, 5], .add [1, 2], .rm [1, 5]]) :=
  run_refines _ (by decide)

theorem run_add_nil (n k : ℕ) : Trace.run Trie.step { empty with refcnt := k % 2 ^ 32 }
      (List.replicate n (.add [])) = some { empty with refcnt := (k + n) % 2 ^ 32 } := by
  induction n generalizing k with
  | zero => rfl
  | succ n ih =>
    have hstep : Trie.step { empty with refcnt := k % 2 ^ 32 } (.add []) =
        some { empty with refcnt := (k + 1) % 2 ^ 32 } := by
      simp [Trie.step, Trie.add]
    rw [List.replicate_succ, Trace.run, hstep, Option.bind_some, ih, Nat.add_assoc, Nat.add_comm 1]

theorem count_add_nil (n : ℕ) (subs : Multiset (List UInt8)) :
    ((List.replicate n (Op.add [])).foldl Op.denote subs).count [] = subs.count [] + n := by
  induction n generalizing subs with
  | zero => rfl
  | succ n ih =>
    rw [List.replicate_succ, List.foldl_cons, ih, Op.denote, Multiset.count_cons_self]
    omega

/-- With `2 ^ 32` subscriptions to everything the counter of the root is back at zero,
and nothing matches. -/
theorem run_overflows : ¬ ∀ ops : List Op,
      ∃ t, Trace.run Trie.step empty ops = some t ∧ t.Refines (denote ops) := by
  intro h
  obtain ⟨t, ht, hrefines⟩ := h (List.replicate (2 ^ 32) (.add []))
  have hrun := run_add_nil (2 ^ 32) 0
  rw [Nat.zero_add, Nat.mod_self] at hrun
  have hroot : t = empty := Option.some.inj (ht.symm.trans hrun)
  obtain ⟨b, hb, hiff⟩ := hrefines.check []
  have hcount : 0 < (denote (List.replicate (2 ^ 32) (.add []))).count [] := by
    rw [denote, count_add_nil, Multiset.count_zero, Nat.zero_add]
    exact Nat.two_pow_pos 32
  have hfalse : b = false := by
    rw [hroot] at hb
    exact (Option.some.inj hb).symm
  rw [hfalse] at hiff
  exact absurd (hiff.mpr ⟨[], List.nil_prefix, hcount⟩) Bool.false_ne_true

end Trie

end Zlink.Subscription
