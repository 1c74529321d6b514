import Zlink.LoadBalancer.Ranks

/-!
# The selection of a connected pipe

`select_connected_pipe` goes over the pipes in the order of the array and compares equal
values by the candidate order, where the weighted selection goes over the sorted candidates
and keeps the first of equal values. Both pick the least candidate of one order: by value,
then by identifiers, then by the place among the sorted candidates.
-/

namespace Zlink.LoadBalancer

namespace Lb

variable {P : Type} [DecidableEq P] (peers : Peers P) (lb : Lb P)

/-- The candidates sorted as `rebuild_selection_order` sorts them. -/
def sortCandidates (candidates : List P) : List P :=
  candidates.mergeSort fun p q => !lb.candidateOrder peers q p

section Pick

variable {K : Type} [LinearOrder K]

theorem foldl_argmin {step : UInt32 × Option (P × ℤ) → P → UInt32 × Option (P × ℤ)}
    {value : P → ℤ} {weight : P → UInt32} {key : P → K} {l : List P}
    (hfirst : ∀ t, ∀ x ∈ l, step (t, none) x = (t + weight x, some (x, value x)))
    (hnext : ∀ t y x, [y, x].Sublist l → step (t, some (y, value y)) x =
      (t + weight x, some (if key x < key y then (x, value x) else (y, value y)))) :
    l.foldl step (0, none) =
      (l.foldl (fun t x => t + weight x) 0, (l.argmin key).map fun x => (x, value x)) := by
  induction l using List.reverseRecOn with
  | nil => rfl
  | append_singleton l x ih =>
    have hsub := List.sublist_append_left l [x]
    have hrest := ih (fun t y hy => hfirst t y (hsub.mem hy))
      (fun t y z hyz => hnext t y z (hyz.trans hsub))
    rw [List.foldl_append, hrest, List.foldl_append, List.argmin_concat]
    simp only [List.foldl_cons, List.foldl_nil]
    cases hbest : l.argmin key with
    | none => exact hfirst _ x (List.mem_append_right l (List.mem_singleton_self x))
    | some y =>
      have hy : [y].Sublist l := List.singleton_sublist.mpr (List.argmin_mem hbest)
      have hyx := hnext (l.foldl (fun t x => t + weight x) 0) y x
        (hy.append (List.Sublist.refl [x]))
      simp only [Option.map_some]
      rw [hyx]
      split <;> rfl

theorem argmin_perm {key : P → K} {l l' : List P} (h : l.Perm l')
    (hkey : ∀ x ∈ l, ∀ y ∈ l, key x = key y → x = y) : l.argmin key = l'.argmin key := by
  cases hx : l.argmin key with
  | none =>
    rw [List.argmin_eq_none] at hx
    rw [hx] at h
    rw [h.nil_eq.symm]
    rfl
  | some x =>
    cases hy : l'.argmin key with
    | none =>
      rw [List.argmin_eq_none] at hy
      rw [hy] at h
      rw [h.eq_nil] at hx
      exact hx.symm
    | some y =>
      have hxl := List.argmin_mem hx
      have hyl := h.mem_iff.mpr (List.argmin_mem hy)
      have hle := List.le_of_mem_argmin hyl hx
      have hge := List.le_of_mem_argmin (h.mem_iff.mp hxl) hy
      rw [hkey x hxl y hyl (le_antisymm hle hge)]

theorem idxOf_lt_of_sublist {l : List P} (hl : l.Nodup) {x y : P} (h : [y, x].Sublist l) :
    l.idxOf y < l.idxOf x := by
  obtain ⟨front, back, rfl, hy, hx⟩ := List.cons_sublist_iff.mp h
  have hxb : x ∈ back := List.singleton_sublist.mp hx
  have hxf : x ∉ front := fun hin => (List.nodup_append.mp hl).2.2 x hin x hxb rfl
  rw [List.idxOf_append_of_mem hy, List.idxOf_append, if_neg hxf]
  exact (List.idxOf_lt_length_of_mem hy).trans_le (Nat.le_add_left _ _)

end Pick

variable {peers lb} {p q : P} {e e' : Entry}

theorem bytes_lt (l l' : List UInt8) : l.map UInt8.toNat < l'.map UInt8.toNat ↔ l < l' := by
  induction l generalizing l' with
  | nil => cases l' <;> simp
  | cons b l ih =>
    cases l' with
    | nil => simp
    | cons b' l' =>
      rw [List.map_cons, List.map_cons, List.cons_lt_cons_iff, List.cons_lt_cons_iff, ih,
        UInt8.toNat_inj]
      rfl

def rank (peers : Peers P) (lb : Lb P) (p : P) : List ℕ ×ₗ List ℕ ×ₗ ℕ :=
  toLex ((peers.routingId p).map UInt8.toNat, toLex ((peers.endpoint p).map UInt8.toNat,
    ((lb.entry p).map fun e => e.attachSeq.toNat).getD 0))

theorem candidateOrder_iff (hp : lb.entry p = some e) (hq : lb.entry q = some e') :
    lb.candidateOrder peers p q = true ↔ rank peers lb p < rank peers lb q := by
  have heq (l l' : List UInt8) : l.map UInt8.toNat = l'.map UInt8.toNat ↔ l = l' :=
    (List.map_injective_iff.mpr fun b b' h => UInt8.toNat_inj.mp h).eq_iff
  rw [rank, rank, Prod.Lex.toLex_lt_toLex, Prod.Lex.toLex_lt_toLex, bytes_lt, bytes_lt, heq, heq,
    candidateOrder, hp, hq]
  rcases lt_trichotomy ((peers.routingId p).map UInt8.toNat)
    ((peers.routingId q).map UInt8.toNat) with hlt | hsame | hgt
  · have hlt' := (bytes_lt _ _).mp hlt
    simp [hlt']
  · rw [heq] at hsame
    have hirrefl : ¬peers.routingId q < peers.routingId q :=
      fun h => lt_irrefl _ ((bytes_lt _ _).mpr h)
    rw [hsame, if_neg hirrefl, if_neg hirrefl]
    by_cases hendpoint : peers.endpoint p = peers.endpoint q
    · have hirrefl' : ¬peers.endpoint q < peers.endpoint q :=
        fun h => lt_irrefl _ ((bytes_lt _ _).mpr h)
      simp [hendpoint, hirrefl, hirrefl', UInt64.lt_iff_toNat_lt]
    · simp [hendpoint, hirrefl]
  · have hgt' := (bytes_lt _ _).mp hgt
    have hnot : ¬peers.routingId p < peers.routingId q :=
      fun h => lt_asymm hgt ((bytes_lt _ _).mpr h)
    have hne : peers.routingId p ≠ peers.routingId q :=
      fun h => ne_of_gt hgt ((heq _ _).mpr h)
    simp [hnot, hgt', hne]

def rankLe (peers : Peers P) (lb : Lb P) (p q : P) : Bool :=
  decide (rank peers lb p ≤ rank peers lb q)

theorem rankLe_trans (a b c : P) (hab : rankLe peers lb a b = true)
    (hbc : rankLe peers lb b c = true) : rankLe peers lb a c = true :=
  decide_eq_true (le_trans (of_decide_eq_true hab) (of_decide_eq_true hbc))

theorem rankLe_total (a b : P) : (rankLe peers lb a b || rankLe peers lb b a) = true := by
  rw [rankLe, rankLe, Bool.or_eq_true, decide_eq_true_iff, decide_eq_true_iff]
  exact le_total _ _

section Sorted

variable {l : List P} {x y : P}

theorem sortCandidates_eq (hl : ∀ p ∈ l, ∃ e, lb.entry p = some e) :
    lb.sortCandidates peers l = l.mergeSort (rankLe peers lb) := by
  have hsame : ∀ a ∈ l, ∀ b ∈ l,
      (!lb.candidateOrder peers b a) = rankLe peers lb (id a) (id b) := by
    intro a ha b hb
    obtain ⟨e, he⟩ := hl a ha
    obtain ⟨e', he'⟩ := hl b hb
    rw [Bool.eq_iff_iff, Bool.not_eq_true', ← Bool.not_eq_true, candidateOrder_iff he' he,
      rankLe, decide_eq_true_iff]
    exact not_lt
  have hmap := List.map_mergeSort hsame
  rwa [List.map_id, List.map_id] at hmap

theorem rank_le_of_sorted (hl : ∀ p ∈ l, ∃ e, lb.entry p = some e)
    (h : [y, x].Sublist (lb.sortCandidates peers l)) : rank peers lb y ≤ rank peers lb x := by
  rw [sortCandidates_eq hl] at h
  have hsorted : (l.mergeSort (rankLe peers lb)).Pairwise fun a b =>
      rankLe peers lb a b = true := List.pairwise_mergeSort rankLe_trans rankLe_total l
  have hpair := List.Pairwise.sublist h hsorted
  exact of_decide_eq_true ((List.pairwise_cons.mp hpair).1 x (List.mem_singleton_self x))

theorem sorted_of_rank_le (hl : ∀ p ∈ l, ∃ e, lb.entry p = some e) (h : [y, x].Sublist l)
    (hle : rank peers lb y ≤ rank peers lb x) : [y, x].Sublist (lb.sortCandidates peers l) := by
  rw [sortCandidates_eq hl]
  exact List.pair_sublist_mergeSort rankLe_trans rankLe_total (decide_eq_true hle) h

end Sorted

def bid (lb : Lb P) (p : P) : ℤ :=
  (lb.entry p).elim 0 fun e => e.runningValue + (e.weight.toNat : ℤ)

def shareOf (lb : Lb P) (p : P) : UInt32 :=
  (lb.entry p).elim 0 Entry.weight

theorem bid_of_entry (he : lb.entry p = some e) :
    lb.bid p = e.runningValue + (e.weight.toNat : ℤ) ∧ lb.shareOf p = e.weight := by
  rw [bid, shareOf, he]
  exact ⟨rfl, rfl⟩

def placeKey (peers : Peers P) (lb : Lb P) (sorted : List P) (p : P) :
    ℤ ×ₗ (List ℕ ×ₗ List ℕ ×ₗ ℕ) ×ₗ ℕ :=
  toLex (-lb.bid p, toLex (rank peers lb p, sorted.idxOf p))

theorem placeKey_lt {sorted : List P} {x y : P} :
    placeKey peers lb sorted x < placeKey peers lb sorted y ↔
      lb.bid y < lb.bid x ∨ lb.bid x = lb.bid y ∧ (rank peers lb x < rank peers lb y ∨
        rank peers lb x = rank peers lb y ∧ sorted.idxOf x < sorted.idxOf y) := by
  rw [placeKey, placeKey, Prod.Lex.toLex_lt_toLex, Prod.Lex.toLex_lt_toLex, neg_lt_neg_iff, neg_inj]

theorem exists_entry_of_connected {filter : P → Bool} (hp : p ∈ lb.connected filter) :
    ∃ e, lb.entry p = some e ∧ e.weight ≠ 0 := by
  have hweight := (Bool.and_eq_true_iff.mp (List.mem_filter.mp hp).2).1
  rw [hasWeight] at hweight
  cases hentry : lb.entry p with
  | none => simp [hentry] at hweight
  | some e => exact ⟨e, rfl, by simpa [hentry] using hweight⟩

theorem foldl_connectStep (h : lb.Ranked) (filter : P → Bool) :
    (lb.connected filter).foldl (lb.connectStep peers) (0, none) =
      ((lb.connected filter).foldl (fun t x => t + lb.shareOf x) 0, ((lb.connected filter).argmin
          (placeKey peers lb (lb.sortCandidates peers (lb.connected filter)))).map
            fun x => (x, lb.bid x)) := by
  have hnodup : (lb.connected filter).Nodup := h.nodup.filter _
  have hentries : ∀ p ∈ lb.connected filter, ∃ e, lb.entry p = some e := by
    intro p hp
    obtain ⟨e, he, -⟩ := exists_entry_of_connected hp
    exact ⟨e, he⟩
  have hsorted : (lb.sortCandidates peers (lb.connected filter)).Nodup :=
    (List.mergeSort_perm _ _).nodup_iff.mpr hnodup
  refine foldl_argmin ?_ ?_
  · intro t x hx
    obtain ⟨e, he⟩ := hentries x hx
    obtain ⟨hbid, hshare⟩ := bid_of_entry he
    simp only [connectStep, he, hbid, hshare]
  · intro t y x hyx
    obtain ⟨e, he⟩ := hentries x (hyx.mem (by simp))
    obtain ⟨e', he'⟩ := hentries y (hyx.mem (by simp))
    have hkey : placeKey peers lb (lb.sortCandidates peers (lb.connected filter)) x <
        placeKey peers lb (lb.sortCandidates peers (lb.connected filter)) y ↔
          lb.bid y < lb.bid x ∨ lb.bid x = lb.bid y ∧ lb.candidateOrder peers x y = true := by
      rw [placeKey_lt, candidateOrder_iff he he']
      have hplace : rank peers lb x = rank peers lb y →
          ¬(lb.sortCandidates peers (lb.connected filter)).idxOf x <
            (lb.sortCandidates peers (lb.connected filter)).idxOf y := by
        intro hrank
        exact lt_asymm (idxOf_lt_of_sublist hsorted (sorted_of_rank_le hentries hyx hrank.ge))
      tauto
    obtain ⟨hbid, hshare⟩ := bid_of_entry he
    simp only [connectStep, he, ← hbid, hshare, hkey]
    split_ifs <;> rfl

theorem foldl_selectStep (h : lb.Ranked) (filter : P → Bool) :
    (lb.sortCandidates peers (lb.connected filter)).foldl lb.selectStep (0, none) =
      ((lb.sortCandidates peers (lb.connected filter)).foldl (fun t x => t + lb.shareOf x) 0,
        ((lb.sortCandidates peers (lb.connected filter)).argmin
          (placeKey peers lb (lb.sortCandidates peers (lb.connected filter)))).map
            fun x => (x, lb.bid x)) := by
  have hnodup : (lb.connected filter).Nodup := h.nodup.filter _
  have hentries : ∀ p ∈ lb.connected filter, ∃ e, lb.entry p = some e := by
    intro p hp
    obtain ⟨e, he, -⟩ := exists_entry_of_connected hp
    exact ⟨e, he⟩
  have hperm : (lb.sortCandidates peers (lb.connected filter)).Perm (lb.connected filter) :=
    List.mergeSort_perm _ _
  have hsorted := hperm.nodup_iff.mpr hnodup
  refine foldl_argmin ?_ ?_
  · intro t x hx
    obtain ⟨e, he, hweight⟩ := exists_entry_of_connected (hperm.mem_iff.mp hx)
    obtain ⟨hbid, hshare⟩ := bid_of_entry he
    simp only [selectStep, he, if_neg hweight, hbid, hshare]
  · intro t y x hyx
    obtain ⟨e, he, hweight⟩ :=
      exists_entry_of_connected (hperm.mem_iff.mp (hyx.mem (by simp : x ∈ [y, x])))
    have hkey : placeKey peers lb (lb.sortCandidates peers (lb.connected filter)) x <
        placeKey peers lb (lb.sortCandidates peers (lb.connected filter)) y ↔
          lb.bid y < lb.bid x := by
      rw [placeKey_lt]
      have hrank := not_lt.mpr (rank_le_of_sorted hentries hyx)
      have hplace := lt_asymm (idxOf_lt_of_sublist hsorted hyx)
      tauto
    obtain ⟨hbid, hshare⟩ := bid_of_entry he
    simp only [selectStep, he, if_neg hweight, ← hbid, hshare, hkey]
    split_ifs <;> rfl

theorem selectConnectedPipe_spec (h : lb.Ranked) (filter : P → Bool) : ∃ total best, ({ lb with
        ordered := lb.sortCandidates peers (lb.connected filter) }.selectWeightedPipe =
          (total, best)) ∧
      match best with
      | none => lb.connected filter = [] ∧ ∃ errno,
          lb.selectConnectedPipe peers filter = (.error errno, lb)
      | some p => p ∈ lb.connected filter ∧ (∀ q ∈ lb.connected filter, lb.bid q ≤ lb.bid p ∧
            (lb.bid q = lb.bid p → lb.candidateOrder peers q p = false)) ∧
          (lb.selectConnectedPipe peers filter).1 = .ok p ∧
          (lb.selectConnectedPipe peers filter).2.entries = ({ lb with
              ordered := lb.sortCandidates peers (lb.connected filter) }.commitWeightedSelection
                p total).entries := by
  have hnodup : (lb.connected filter).Nodup := h.nodup.filter _
  have hperm : (lb.sortCandidates peers (lb.connected filter)).Perm (lb.connected filter) :=
    List.mergeSort_perm _ _
  have htotal : (lb.sortCandidates peers (lb.connected filter)).foldl
      (fun t x => t + lb.shareOf x) 0 =
        (lb.connected filter).foldl (fun t x => t + lb.shareOf x) 0 := by
    refine hperm.foldl_eq' (fun x _ y _ t => ?_) 0
    rw [UInt32.add_assoc, UInt32.add_assoc, UInt32.add_comm (lb.shareOf y)]
  have hleast : (lb.sortCandidates peers (lb.connected filter)).argmin
      (placeKey peers lb (lb.sortCandidates peers (lb.connected filter))) =
        (lb.connected filter).argmin
          (placeKey peers lb (lb.sortCandidates peers (lb.connected filter))) := by
    refine argmin_perm hperm fun x hx y hy hkey => ?_
    have hplace := congrArg (fun k => (ofLex (ofLex k).2).2) hkey
    exact (List.idxOf_inj hx).mp hplace
  have hselect := @foldl_connectStep _ _ peers _ h filter
  refine ⟨(lb.connected filter).foldl (fun t x => t + lb.shareOf x) 0, (lb.connected filter).argmin
      (placeKey peers lb (lb.sortCandidates peers (lb.connected filter))), ?_, ?_⟩
  · have hfold := @foldl_selectStep _ _ peers _ h filter
    rw [htotal, hleast] at hfold
    show ((List.foldl lb.selectStep (0, none) (lb.sortCandidates peers
      (lb.connected filter))).1, (List.foldl lb.selectStep (0, none) (lb.sortCandidates peers
      (lb.connected filter))).2.map Prod.fst) = _
    rw [hfold, Option.map_map]
    exact congrArg (Prod.mk _) Option.map_id'
  · cases hbest : (lb.connected filter).argmin
        (placeKey peers lb (lb.sortCandidates peers (lb.connected filter))) with
    | none =>
      rw [hbest] at hselect
      refine ⟨List.argmin_eq_none.mp hbest, ?_⟩
      rw [selectConnectedPipe, hselect]
      exact ⟨_, rfl⟩
    | some p =>
      rw [hbest] at hselect
      have hp := List.argmin_mem hbest
      refine ⟨hp, fun q hq => ?_, ?_, ?_⟩
      · have hle := not_lt.mpr (List.le_of_mem_argmin hq hbest)
        rw [placeKey_lt] at hle
        obtain ⟨e, he, -⟩ := exists_entry_of_connected hp
        obtain ⟨e', he', -⟩ := exists_entry_of_connected hq
        refine ⟨not_lt.mp fun hlt => hle (.inl hlt), fun heq => ?_⟩
        rw [← Bool.not_eq_true, candidateOrder_iff he' he]
        exact fun hlt => hle (.inr ⟨heq, .inl hlt⟩)
      · rw [selectConnectedPipe, hselect]
        rfl
      · rw [selectConnectedPipe, hselect, commitWeightedSelection]
        refine List.map_congr_left fun x _ => ?_
        have hstep : (if x.1 ∈ lb.connected filter then (x.2.weight.toNat : ℤ) else 0) =
            if x.1 ∈ lb.sortCandidates peers (lb.connected filter) ∧ x.2.weight ≠ 0 then
              (x.2.weight.toNat : ℤ) else 0 := by
          by_cases hzero : x.2.weight = 0
          · simp [hzero]
          · simp [hzero, hperm.mem_iff]
        simp only [hstep]

end Lb

/-- In every run the selection of a connected pipe picks the pipe that the weighted selection
over the same candidates, sorted, picks, and leaves the running values that its commit leaves;
of the candidates with the highest value it is the first in the order of the candidates. -/
theorem run_selects_connected {σ P α : Type} [DecidableEq P] (world : World σ P α)
    (peers : Peers P) (w : σ) (ops : List (Op P α)) (sys : System σ P α)
    (hrun : (System.init w).run world peers ops = some sys) (filter : P → Bool) : ∃ total best,
      ({ sys.state.lb with
        ordered := sys.state.lb.sortCandidates peers
          (sys.state.lb.connected filter) }.selectWeightedPipe = (total, best)) ∧
      match best with
      | none => sys.state.lb.connected filter = [] ∧ ∃ errno,
          sys.state.lb.selectConnectedPipe peers filter = (.error errno, sys.state.lb)
      | some p => p ∈ sys.state.lb.connected filter ∧
          (∀ q ∈ sys.state.lb.connected filter, sys.state.lb.bid q ≤ sys.state.lb.bid p ∧
            (sys.state.lb.bid q = sys.state.lb.bid p →
              sys.state.lb.candidateOrder peers q p = false)) ∧
          (sys.state.lb.selectConnectedPipe peers filter).1 = .ok p ∧
          (sys.state.lb.selectConnectedPipe peers filter).2.entries = ({ sys.state.lb with
              ordered := sys.state.lb.sortCandidates peers
                (sys.state.lb.connected filter) }.commitWeightedSelection p total).entries :=
  Lb.selectConnectedPipe_spec (System.run_ranked world peers hrun) filter

/-- The pipe of the smaller weight is the second that is selected. -/
theorem run_selects_connected_two : ∃ sys : System Unit Bool ℕ,
      (System.init ()).run openWorld noPeers [.attach true 3, .attach false 5,
        .selectConnectedPipe fun _ => true, .hasOut] = some sys ∧
      (sys.state.lb.selectConnectedPipe noPeers fun _ => true).1 = .ok true ∧
      ∃ total best, ({ sys.state.lb with
          ordered := sys.state.lb.sortCandidates noPeers
            (sys.state.lb.connected fun _ => true) }.selectWeightedPipe = (total, best)) := by
  refine ⟨_, rfl, rfl, ?_⟩
  obtain ⟨total, best, heq, -⟩ := run_selects_connected openWorld noPeers ()
    [.attach true 3, .attach false 5, .selectConnectedPipe fun _ => true, .hasOut] _ rfl
    fun _ => true
  exact ⟨total, best, heq⟩

end Zlink.LoadBalancer
