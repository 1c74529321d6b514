import Mathlib
import Zlink.LoadBalancer.Atomicity

/-!
# The ranks of the load balancer

In every run the active pipes stand in front of the array and have a positive weight, every
pipe has an entry, and the order of the candidates, unless it is to be built again, lists
the active pipes.
-/

namespace Zlink.LoadBalancer

open SwapArray

namespace Lb

variable {P : Type} [DecidableEq P]

def Active (pipes : List P) (active : ℕ) (p : P) : Prop :=
  p ∈ pipes ∧ pipes.idxOf p < active

structure Ranks (pipes : List P) (active : ℕ) (entries : List (P × Entry))
    (orderDirty : Bool) (ordered : List P) : Prop where
  nodup : pipes.Nodup
  active_le : active ≤ pipes.length
  entry : ∀ p, p ∈ pipes ↔ ∃ e, entries.lookup p = some e
  positive : ∀ p e, Active pipes active p → entries.lookup p = some e → e.weight ≠ 0
  order : orderDirty = false → ordered.Nodup ∧ ∀ p, p ∈ ordered ↔ Active pipes active p

def Ranked (lb : Lb P) : Prop :=
  Ranks lb.pipes lb.active lb.entries lb.orderDirty lb.ordered

variable {lb : Lb P} {p : P}

theorem ranked_init : (init : Lb P).Ranked :=
  { nodup := List.nodup_nil
    active_le := le_rfl
    entry := fun p => by simp [init]
    positive := fun _ _ h => absurd h.1 List.not_mem_nil
    order := fun h => absurd h Bool.noConfusion }

theorem Ranked.activateAt (h : lb.Ranked) (hp : p ∈ lb.pipes) (hout : lb.active ≤ lb.index p)
    (hpos : ∀ e, lb.entry p = some e → e.weight ≠ 0) : (lb.activateAt (lb.index p)).Ranked := by
  have hjoin : Joined lb.pipes (swap lb.pipes (lb.index p) lb.active) p lb.active :=
    joined_swap h.nodup hp hout
  have hlt : lb.index p < lb.pipes.length := List.idxOf_lt_length_of_mem hp
  refine
    { nodup := hjoin.perm.nodup_iff.mpr h.nodup
      active_le := ?_
      entry := fun q => hjoin.perm.mem_iff.trans (h.entry q)
      positive := ?_
      order := fun hclean => absurd hclean Bool.noConfusion }
  · exact (Nat.lt_of_le_of_lt hout hlt).trans_eq hjoin.perm.length_eq.symm
  · rintro q e ⟨hq, hqa⟩ he
    have hq' := hjoin.perm.mem_iff.mp hq
    rcases (hjoin.own q hq').mp hqa with hold | rfl
    · exact h.positive q e ⟨hq', hold⟩ he
    · exact hpos e he

theorem Ranked.activated (h : lb.Ranked) (hp : p ∈ lb.pipes) : (lb.activated p).Ranked := by
  rw [Lb.activated]
  split
  · exact h
  split
  · exact h
  · rename_i hweight hout
    refine h.activateAt hp (Nat.le_of_not_lt hout) fun e he hzero => hweight ?_
    rw [he, Option.any_some, decide_eq_true_iff]
    exact hzero

theorem Ranked.deactivate (h : lb.Ranked) (hp : p ∈ lb.pipes) : (lb.deactivate p).Ranked := by
  rw [Lb.deactivate, deactivateAt]
  split
  · exact h
  · rename_i hin
    have hlt : lb.index p < lb.active := Nat.lt_of_not_le hin
    have hleft := leave_spec h.nodup hp h.active_le
    have hleave : leave lb.pipes p lb.active =
        (swap lb.pipes (lb.index p) (lb.active - 1), lb.active - 1) := if_pos hlt
    rw [hleave] at hleft
    refine
      { nodup := hleft.perm.nodup_iff.mpr h.nodup
        active_le := ?_
        entry := fun q => hleft.perm.mem_iff.trans (h.entry q)
        positive := ?_
        order := fun hclean => absurd hclean Bool.noConfusion }
    · exact ((Nat.sub_le _ _).trans h.active_le).trans_eq hleft.perm.length_eq.symm
    · rintro q e ⟨hq, hqa⟩ he
      have hq' := hleft.perm.mem_iff.mp hq
      exact h.positive q e ⟨hq', ((hleft.own q hq').mp hqa).1⟩ he

theorem Ranked.deactivate_out (h : lb.Ranked) (hp : p ∈ lb.pipes) :
    (lb.deactivate p).active ≤ (lb.deactivate p).index p := by
  rw [Lb.deactivate, Lb.deactivateAt]
  split
  · assumption
  · rename_i hin
    have hleft := leave_spec h.nodup hp h.active_le
    have hleave : leave lb.pipes p lb.active =
        (swap lb.pipes (lb.index p) (lb.active - 1), lb.active - 1) :=
      if_pos (Nat.lt_of_not_le hin)
    rw [hleave] at hleft
    exact hleft.out

theorem Ranked.deactivateAt (h : lb.Ranked) (i : ℕ) : (lb.deactivateAt i).Ranked := by
  by_cases hi : i < lb.active
  · have hlt := Nat.lt_of_lt_of_le hi h.active_le
    have hindex : lb.index lb.pipes[i] = i := h.nodup.idxOf_getElem i hlt
    have hd := h.deactivate (List.getElem_mem hlt)
    rw [Lb.deactivate, hindex] at hd
    exact hd
  · rw [Lb.deactivateAt, if_pos (Nat.le_of_not_lt hi)]
    exact h

theorem Ranked.rebuildSelectionOrder (h : lb.Ranked) (peers : Peers P) :
    (lb.rebuildSelectionOrder peers).Ranked := by
  rw [Lb.rebuildSelectionOrder]
  split
  · exact h
  · refine
      { nodup := h.nodup, active_le := h.active_le, entry := h.entry, positive := h.positive
        order := fun _ => ⟨?_, ?_⟩ }
    · have htake : (lb.pipes.take lb.active).Nodup := (List.take_sublist _ _).nodup h.nodup
      exact (List.mergeSort_perm _ _).nodup_iff.mpr (htake.filter _)
    · intro q
      rw [List.mem_mergeSort, List.mem_filter]
      constructor
      · rintro ⟨hq, -⟩
        have hmem := List.mem_of_mem_take hq
        exact ⟨hmem, (List.mem_take_iff_idxOf_lt hmem).mp hq⟩
      · rintro ⟨hq, hlt⟩
        obtain ⟨e, he⟩ := (h.entry q).mp hq
        have hentry : lb.entry q = some e := he
        exact ⟨(List.mem_take_iff_idxOf_lt hq).mpr hlt, by rw [hentry]; rfl⟩

theorem lookup_map (entries : List (P × Entry)) (f : P × Entry → Entry) (q : P) :
    (entries.map fun x => (x.1, f x)).lookup q = (entries.lookup q).map fun e => f (q, e) := by
  induction entries with
  | nil => rfl
  | cons x entries ih =>
    rw [List.map_cons, List.lookup_cons, List.lookup_cons, ih]
    by_cases hq : q = x.1
    · subst hq
      simp
    · have hbeq : (q == x.1) = false := beq_eq_false_iff_ne.mpr hq
      simp [hbeq]

theorem lookup_filter_ne (entries : List (P × Entry)) {q : P} (hq : q ≠ p) :
    (entries.filter fun x => x.1 ≠ p).lookup q = entries.lookup q := by
  induction entries with
  | nil => rfl
  | cons x entries ih =>
    obtain ⟨r, e⟩ := x
    by_cases hr : r = p
    · have hbeq : (q == r) = false := beq_eq_false_iff_ne.mpr (hr ▸ hq)
      rw [List.filter_cons_of_neg (by simp [hr]), List.lookup_cons, hbeq]
      exact ih
    · rw [List.filter_cons_of_pos (by simp [hr]), List.lookup_cons, List.lookup_cons, ih]

theorem lookup_filter_self (entries : List (P × Entry)) :
    (entries.filter fun x => x.1 ≠ p).lookup p = none := by
  rw [List.lookup_eq_none_iff]
  intro x hx
  have hne : x.1 ≠ p := by simpa using (List.mem_filter.mp hx).2
  exact bne_iff_ne.mpr (Ne.symm hne)

theorem lookup_setEntry (lb : Lb P) (p : P) (e : Entry) (q : P) :
    (lb.setEntry p e).entry q = if q = p then some e else lb.entry q := by
  rw [entry, setEntry, List.lookup_cons]
  by_cases hq : q = p
  · simp [hq]
  · have hbeq : (q == p) = false := beq_eq_false_iff_ne.mpr hq
    simp only [hbeq, if_neg hq]
    exact lookup_filter_ne lb.entries hq

theorem exists_entry_setEntry (lb : Lb P) (p : P) (e : Entry) (q : P) :
    (∃ e', (lb.setEntry p e).entry q = some e') ↔ q = p ∨ ∃ e', lb.entry q = some e' := by
  rw [lookup_setEntry]
  by_cases hq : q = p
  · simp [hq]
  · simp [hq]

theorem Ranked.mapEntries (h : lb.Ranked) (f : P × Entry → Entry)
    (hf : ∀ x, (f x).weight = x.2.weight) :
    ({ lb with entries := lb.entries.map fun x => (x.1, f x) } : Lb P).Ranked := by
  refine
    { nodup := h.nodup, active_le := h.active_le, entry := ?_, positive := ?_
      order := h.order }
  · intro q
    rw [lookup_map]
    exact (h.entry q).trans (by simp [Option.map_eq_some_iff])
  · intro q e hq he
    rw [lookup_map] at he
    obtain ⟨e', he', rfl⟩ := Option.map_eq_some_iff.mp he
    rw [hf]
    exact h.positive q e' hq he'

theorem Ranked.commitWeightedSelection (h : lb.Ranked) (p : P) (total : UInt32) :
    (lb.commitWeightedSelection p total).Ranked :=
  h.mapEntries _ fun _ => rfl

theorem Ranked.selectConnectedPipe (h : lb.Ranked) (peers : Peers P) (filter : P → Bool) :
    (lb.selectConnectedPipe peers filter).2.Ranked := by
  rw [Lb.selectConnectedPipe]
  split
  · exact h
  · exact h.mapEntries _ fun _ => rfl

theorem Ranked.foldl_activated (h : lb.Ranked) {ps : List P} (hps : ∀ p ∈ ps, p ∈ lb.pipes) :
    (ps.foldl Lb.activated lb).Ranked := by
  induction ps generalizing lb with
  | nil => exact h
  | cons p ps ih =>
    have hp := hps p List.mem_cons_self
    refine ih (h.activated hp) fun q hq => ?_
    have hre := Rearranges.activated lb p
    exact hre.perm.mem_iff.mpr (hps q (List.mem_cons_of_mem _ hq))

theorem Ranked.restoreRequestLimitedPipes (h : lb.Ranked)
    (hps : ∀ p ∈ lb.requestLimitedScratch, p ∈ lb.pipes) : lb.restoreRequestLimitedPipes.Ranked :=
  h.foldl_activated hps

theorem Ranked.attach (h : lb.Ranked) (hp : p ∉ lb.pipes) (w : UInt32) :
    (lb.attach p w).Ranked := by
  rw [Lb.attach]
  refine Ranked.activated ?_ (List.mem_append_right _ (List.mem_singleton_self p))
  have hentry : ∀ q e, (({ lb with pipes := lb.pipes ++ [p] } : Lb P).setEntry p e).entry q =
      if q = p then some e else lb.entry q := fun q e => lookup_setEntry _ p e q
  have hold : ∀ q, Active (lb.pipes ++ [p]) lb.active q → Active lb.pipes lb.active q := by
    rintro q ⟨hq, hlt⟩
    by_cases hmem : q ∈ lb.pipes
    · rw [List.idxOf_append_of_mem hmem] at hlt
      exact ⟨hmem, hlt⟩
    · rw [List.idxOf_append, if_neg hmem] at hlt
      have hle := h.active_le
      omega
  refine
    { nodup := ?_, active_le := ?_, entry := ?_, positive := ?_
      order := fun hclean => absurd hclean Bool.noConfusion }
  · exact List.nodup_append.mpr ⟨h.nodup, List.nodup_singleton p, by
      rintro x hx y hy rfl
      exact hp (List.mem_singleton.mp hy ▸ hx)⟩
  · exact h.active_le.trans (List.sublist_append_left _ _).length_le
  · intro q
    refine Iff.trans ?_ (exists_entry_setEntry { lb with pipes := lb.pipes ++ [p] } p _ q).symm
    show q ∈ lb.pipes ++ [p] ↔ _
    rw [List.mem_append, List.mem_singleton, or_comm]
    exact or_congr_right (h.entry q)
  · intro q e hq he
    have hq' := hold q hq
    have hqp : q ≠ p := by
      rintro rfl
      exact hp hq'.1
    exact h.positive q e hq' (((hentry q _).trans (if_neg hqp)).symm.trans he)

theorem Ranked.setEntry (h : lb.Ranked) (hp : p ∈ lb.pipes) {e : Entry}
    (hweight : lb.index p < lb.active → e.weight ≠ 0) :
    (lb.setEntry p e).markSelectionDirty.Ranked := by
  refine
    { nodup := h.nodup, active_le := h.active_le, entry := ?_, positive := ?_
      order := fun hclean => absurd hclean Bool.noConfusion }
  · intro q
    refine Iff.trans ?_ (exists_entry_setEntry lb p e q).symm
    refine (h.entry q).trans (or_iff_right_of_imp ?_).symm
    rintro rfl
    exact (h.entry q).mp hp
  · intro q e' hq he'
    have hlookup : _ = some e' := (lookup_setEntry lb p e q).symm.trans he'
    by_cases hqp : q = p
    · rw [if_pos hqp, Option.some.injEq] at hlookup
      subst hqp hlookup
      exact hweight hq.2
    · rw [if_neg hqp] at hlookup
      exact h.positive q e' hq hlookup

theorem Ranked.setEntry_zero (h : lb.Ranked) (hp : p ∈ lb.pipes) (e : Entry) :
    ((lb.setEntry p e).markSelectionDirty.deactivate p).Ranked := by
  have hcomm : (lb.setEntry p e).markSelectionDirty.deactivate p =
      ((lb.deactivate p).setEntry p e).markSelectionDirty := by
    have hindex : (lb.setEntry p e).markSelectionDirty.index p = lb.index p := rfl
    rw [Lb.deactivate, Lb.deactivate, hindex, Lb.deactivateAt, Lb.deactivateAt]
    show (if lb.active ≤ lb.index p then _ else _) = _
    split <;> rfl
  rw [hcomm]
  refine (h.deactivate hp).setEntry ?_ fun hin => ?_
  · exact (Rearranges.deactivateAt _ _).perm.mem_iff.mpr hp
  · exact absurd hin (Nat.not_lt_of_le (h.deactivate_out hp))

theorem Ranked.pipeTerminated (h : lb.Ranked) (p : P) : (lb.pipeTerminated p).Ranked := by
  rw [Lb.pipeTerminated]
  split
  · exact h
  · rename_i hmem
    have hp : p ∈ lb.pipes := not_not.mp hmem
    have habandon : (lb.abandon p).pipes = lb.pipes ∧ (lb.abandon p).active = lb.active ∧
        (lb.abandon p).entries = lb.entries := by
      rw [abandon]
      split_ifs <;> exact ⟨rfl, rfl, rfl⟩
    obtain ⟨hpipes, hactive, hentries⟩ := habandon
    have hleft := leave_spec h.nodup hp h.active_le
    have hretire : ((lb.abandon p).retire (lb.index p)).pipes = (leave lb.pipes p lb.active).1 ∧
        ((lb.abandon p).retire (lb.index p)).active = (leave lb.pipes p lb.active).2 ∧
        ((lb.abandon p).retire (lb.index p)).entries = lb.entries := by
      rw [retire, leave, hactive, index]
      split
      · rw [markSelectionDirty, hpipes]
        exact ⟨rfl, rfl, hentries⟩
      · exact ⟨hpipes, hactive, hentries⟩
    generalize (lb.abandon p).retire (lb.index p) = r at hretire
    obtain ⟨hpipes', hactive', hentries'⟩ := hretire
    have hp' := hleft.perm.mem_iff.mpr hp
    have hnodup := hleft.perm.nodup_iff.mpr h.nodup
    have hget : (leave lb.pipes p lb.active).1[(leave lb.pipes p lb.active).1.idxOf p]? =
        some p := by
      rw [List.getElem?_eq_getElem (List.idxOf_lt_length_of_mem hp'), List.getElem_idxOf]
    have hrest : ∀ q, q ∈ erase (leave lb.pipes p lb.active).1
        ((leave lb.pipes p lb.active).1.idxOf p) ↔ q ∈ lb.pipes ∧ q ≠ p := by
      intro q
      rw [mem_erase hnodup hget, hleft.perm.mem_iff]
    show Ranks (erase r.pipes (r.pipes.idxOf p)) r.active (r.entries.filter fun x => x.1 ≠ p)
      true r.ordered
    rw [hpipes', hactive', hentries']
    refine
      { nodup := nodup_erase hnodup hget, active_le := ?_, entry := ?_, positive := ?_
        order := fun hclean => absurd hclean Bool.noConfusion }
    · have hlen := length_erase hget
      have hlt := List.idxOf_lt_length_of_mem hp'
      have hout := hleft.out
      omega
    · intro q
      rw [hrest, h.entry q]
      by_cases hqp : q = p
      · rw [hqp, lookup_filter_self]
        simp
      · rw [lookup_filter_ne lb.entries hqp]
        exact and_iff_left hqp
    · rintro q e ⟨hq, hlt⟩ he
      obtain ⟨hql, hqp⟩ := (hrest q).mp hq
      have hin := (idxOf_erase_lt hnodup hp' (hleft.perm.mem_iff.mpr hql) hqp hleft.out).mp hlt
      exact h.positive q e ⟨hql, ((hleft.own q hql).mp hin).1⟩
        ((lookup_filter_ne lb.entries hqp).symm.trans he)

end Lb

namespace State

variable {σ P α : Type} [DecidableEq P] (world : World σ P α) (peers : Peers P)
  {s : State σ P α} {f : Part α}

theorem lb_of_write {p : P} {observer : Bool} {written : Written} {s' : State σ P α}
    (hw : s.write world p f observer = (written, s')) : s'.lb = s.lb := by
  rcases write_cases world s p f observer with ⟨_, hw', hlb, -⟩ | ⟨_, _, _, hw', hlb, -⟩
  all_goals
    obtain rfl := congrArg Prod.snd (hw'.symm.trans hw)
    exact hlb

theorem noCandidate_ranked (h : s.lb.Ranked)
    (hps : ∀ p ∈ s.lb.requestLimitedScratch, p ∈ s.lb.pipes) (admission : Admission) :
    (s.noCandidate world admission).2.lb.Ranked := by
  have hrestored := h.restoreRequestLimitedPipes hps
  rw [noCandidate]
  split
  · obtain ⟨-, hlb, -⟩ := noActivePipe_frame world
      { s with lb := s.lb.restoreRequestLimitedPipes } admission
    rw [hlb]
    exact hrestored
  · exact hrestored

theorem sendFirst_ranked (fuel : ℕ) (h : s.lb.Ranked) (hclean : s.lb.orderDirty = false)
    (hps : ∀ p ∈ s.lb.requestLimitedScratch, p ∈ s.lb.pipes) (observer : Bool)
    (admission : Admission) : (sendFirst world peers fuel s f observer admission).2.lb.Ranked := by
  induction fuel generalizing s admission with
  | zero => exact noCandidate_ranked world h hps admission
  | succ fuel ih =>
    rw [sendFirst]
    split
    · exact noCandidate_ranked world h hps admission
    split
    · exact noCandidate_ranked world h hps admission
    case h_2 total p hselect =>
      have hp : p ∈ s.lb.pipes :=
        (((h.order hclean).2 p).mp (Lb.mem_of_selectWeightedPipe hselect)).1
      split
      case h_1 s' hw =>
        show (s'.lb.commitWeightedSelection p total).restoreRequestLimitedPipes.Ranked
        rw [lb_of_write world hw]
        exact (h.commitWeightedSelection p total).restoreRequestLimitedPipes hps
      case h_2 refusal cancelled s' hw =>
        have hlb' := lb_of_write world hw
        have hrestored : s'.lb.restoreRequestLimitedPipes.Ranked := by
          rw [hlb']
          exact h.restoreRequestLimitedPipes hps
        -- the candidate leaves the active pipes, and the selection goes on
        have hnext : ∀ ps : List P, (∀ q ∈ ps, q ∈ s'.lb.pipes) → ∀ out, (sendFirst world peers fuel
              { s' with
                lb := ({ s'.lb with requestLimitedScratch := ps }.deactivate
                  p).rebuildSelectionOrder peers } f observer out).2.lb.Ranked := by
          intro ps hps' out
          have hs' : ({ s'.lb with requestLimitedScratch := ps } : Lb P).Ranked := by
            rw [hlb']
            exact h
          have hd := hs'.deactivate (p := p) (by rw [hlb']; exact hp)
          have hpipes : ∀ lb : Lb P, (lb.rebuildSelectionOrder peers).pipes = lb.pipes ∧
              (lb.rebuildSelectionOrder peers).requestLimitedScratch =
                lb.requestLimitedScratch := by
            intro lb
            rw [Lb.rebuildSelectionOrder]
            split <;> exact ⟨rfl, rfl⟩
          have hscratch : ({ s'.lb with requestLimitedScratch := ps }.deactivate
              p).requestLimitedScratch = ps := by
            rw [Lb.deactivate, Lb.deactivateAt]
            split <;> rfl
          refine ih (hd.rebuildSelectionOrder peers) (Lb.rebuildSelectionOrder_clean peers _) ?_ out
          intro q hq
          rw [(hpipes _).2, hscratch] at hq
          rw [(hpipes _).1]
          exact (Lb.Rearranges.deactivateAt _ _).perm.mem_iff.mpr (hps' q hq)
        split
        · exact hrestored
        split
        · exact hrestored
        split
        · refine hnext _ (fun q hq => ?_) _
          rw [hlb'] at hq ⊢
          rcases List.mem_append.mp hq with hold | hnew
          · exact hps q hold
          · exact List.mem_singleton.mp hnew ▸ hp
        · refine hnext s'.lb.requestLimitedScratch (fun q hq => ?_) _
          rw [hlb'] at hq ⊢
          exact hps q hq

theorem sendRoundRobin_ranked (fuel : ℕ) (h : s.lb.Ranked) (admission : Admission) :
    (sendRoundRobin world fuel s f admission).2.lb.Ranked := by
  have hnone (s : State σ P α) (h : s.lb.Ranked) (admission : Admission) :
      (s.noActivePipe world admission).2.lb.Ranked := by
    rw [(noActivePipe_frame world s admission).2.1]
    exact h
  induction fuel generalizing s admission with
  | zero => exact hnone s h admission
  | succ fuel ih =>
    rw [sendRoundRobin]
    split
    · exact hnone s h admission
    split
    · exact hnone s h admission
    case h_2 p hget =>
      split
      case h_1 s' hw =>
        show s'.lb.Ranked
        rw [lb_of_write world hw]
        exact h
      case h_2 refusal cancelled s' hw =>
        have hs' : s'.lb.Ranked := by
          rw [lb_of_write world hw]
          exact h
        split
        · exact hs'
        split
        · exact hs'
        · exact ih (hs'.deactivateAt _) _

theorem sendpipe_ranked (h : s.lb.Ranked) (observer : Bool) :
    (s.sendpipe world peers f observer).2.lb.Ranked := by
  have hwrite (p : P) : ∀ r s', s.write world p f observer = (r, s') → s'.lb.Ranked := by
    intro r s' hw
    rw [lb_of_write world hw]
    exact h
  rw [sendpipe]
  split
  · exact h
  split
  · exact h
  split
  · rename_i p hmore hpin
    rw [sendPinned]
    split
    all_goals
      rename_i s' hw
      exact hwrite p _ s' hw
  split
  · rename_i p ps hactive hcurrent hpipes
    rw [sendOnlyPipe]
    split
    · rename_i s' hw
      exact hwrite p _ s' hw
    · rename_i s' hw
      have hs' := hwrite p _ s' hw
      split
      · exact hs'
      split
      · exact hs'
      split
      · exact hs'
      split
      · exact hs'
      · exact hs'.deactivateAt 0
  · have hb := h.rebuildSelectionOrder peers
    simp only
    split
    · exact sendRoundRobin_ranked world _ hb _
    · exact sendFirst_ranked world peers _ hb (Lb.rebuildSelectionOrder_clean peers _)
        (fun q hq => absurd hq List.not_mem_nil) observer _

theorem sendpipeTo_ranked (h : s.lb.Ranked) (p : P) (observer : Bool) :
    (s.sendpipeTo world p f observer).2.lb.Ranked := by
  rw [sendpipeTo]
  split
  · exact h
  rename_i e he
  have hmem : p ∈ s.lb.pipes := (h.entry p).mpr ⟨e, he⟩
  split
  · exact h
  split
  · exact h
  split
  · rename_i w hready
    split
    case h_1 s' hw =>
      show s'.lb.Ranked
      rw [lb_of_write world hw]
      exact h
    case h_2 refusal cancelled s' hw =>
      have hlb' := lb_of_write world hw
      have hs' : s'.lb.Ranked := by
        rw [hlb']
        exact h
      split
      · exact hs'
      split
      · exact hs'
      split
      · exact hs'
      · exact hs'.deactivate (by rw [hlb']; exact hmem)
  · exact h.deactivate hmem

theorem setWeight_ranked (h : s.lb.Ranked) (p : P) (weight : UInt32) :
    (s.setWeight world p weight).lb.Ranked := by
  simp only [setWeight]
  split
  · exact h
  rename_i e he
  have hp : p ∈ s.lb.pipes := (h.entry p).mpr ⟨e, he⟩
  split
  · exact h
  split
  · exact h.setEntry_zero hp _
  · rename_i hpos
    have hset : (s.lb.setEntry p
        { e with weight := min weight maxPeerWeight }).markSelectionDirty.Ranked :=
      h.setEntry hp fun _ => hpos
    split
    · exact hset
    rename_i hout
    split
    · refine hset.activateAt hp (Nat.le_of_not_lt hout) fun e' he' => ?_
      have hlookup : _ = some e' := (Lb.lookup_setEntry s.lb p _ p).symm.trans he'
      rw [if_pos rfl, Option.some.injEq] at hlookup
      exact hlookup ▸ hpos
    · exact hset

end State

namespace System

variable {σ P α : Type} [DecidableEq P] (world : World σ P α) (peers : Peers P)
  {sys : System σ P α}

theorem Ranked.step (h : sys.state.lb.Ranked) {op : Op P α} {sys' : System σ P α}
    (hstep : sys.step world peers op = some sys') : sys'.state.lb.Ranked := by
  rw [System.step] at hstep
  split at hstep
  case isFalse => exact absurd hstep (by simp)
  case isTrue hallows =>
    obtain rfl := Option.some.inj hstep
    cases op with
    | attach p w => exact h.attach hallows w
    | activated p => exact h.activated hallows
    | setWeight p w => exact State.setWeight_ranked world h p w
    | sendpipe f observer =>
      have hs := State.sendpipe_ranked world peers h (f := f) observer
      rw [perform]
      simp only [hear]
      split
      · rw [hand]
        split <;> exact hs
      all_goals exact hs
    | sendpipeTo p f observer =>
      have hs := State.sendpipeTo_ranked world h p (f := f) observer
      rw [perform]
      simp only [hearFirst]
      split
      · split <;> exact hs
      · exact hs
    | pipeTerminated p => exact h.pipeTerminated p
    | rollback => exact h
    | selectConnectedPipe filter => exact h.selectConnectedPipe peers filter
    | hasOut =>
      exact State.hasOut_induction world (C := fun s => s.lb.Ranked) (fun _ _ hs => hs)
        (fun _ i hs => hs.deactivateAt i) h

theorem run_ranked {w : σ} {ops : List (Op P α)}
    (hrun : (init w).run world peers ops = some sys) : sys.state.lb.Ranked := by
  have hkeep : ∀ (ops : List (Op P α)) (sys₀ : System σ P α), sys₀.state.lb.Ranked →
      sys₀.run world peers ops = some sys → sys.state.lb.Ranked := by
    intro ops
    induction ops with
    | nil => exact fun sys₀ h hrun => Option.some.inj hrun ▸ h
    | cons op ops ih =>
      intro sys₀ h hrun
      obtain ⟨sys₁, hstep, hrest⟩ := Option.bind_eq_some_iff.mp hrun
      exact ih sys₁ (Ranked.step world peers h hstep) hrest
  exact hkeep ops _ Lb.ranked_init hrun

end System

end Zlink.LoadBalancer
