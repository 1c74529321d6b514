import Zlink.LoadBalancer.Balancer

/-!
# Atomicity of messages over the pipes

A caller hands messages to the balancer part by part. `System` keeps beside the
balancer and its pipes what the caller has handed over: the parts of the message
it is in the middle of, and the messages it has handed over whole. Messages are
atomic when every complete record on an attached pipe is one of these messages,
and an open record is the open message on the pipe it is pinned to.

They are, as long as two things do not happen: that a pipe at the round-robin
position terminates in the middle of a message that is pinned to another pipe, and
that a message of several parts is directed to a pipe while the rest of an earlier
one is still being dropped.
-/

namespace Zlink.LoadBalancer

open SwapArray

namespace Lb

variable {P : Type} [DecidableEq P]

variable (lb : Lb P)

def keys : List P :=
  lb.entries.map Prod.fst

theorem mem_keys_of_entry {lb : Lb P} {p : P} {e : Entry}
    (h : lb.entry p = some e) : p ∈ lb.keys := by
  rw [entry] at h
  rw [keys]
  generalize lb.entries = entries at h ⊢
  induction entries with
  | nil => simp at h
  | cons x xs ih =>
    obtain ⟨q, e'⟩ := x
    rw [List.lookup_cons] at h
    split at h
    case h_1 hx =>
      have hp : p = q := by simpa using hx
      simp [hp]
    case h_2 hx => exact List.mem_cons_of_mem _ (ih h)

/-- The selection order names attached pipes only, unless it is to be built
again. -/
def OrderOk : Prop :=
  lb.orderDirty = false → ∀ p ∈ lb.ordered, p ∈ lb.pipes

/-- The balancer was rearranged: its pipes are the same in another order, and the
message it is in the middle of was not touched. -/
structure Rearranges (lb lb' : Lb P) : Prop where
  perm : lb'.pipes.Perm lb.pipes
  more_eq : lb'.more = lb.more
  dropping_eq : lb'.dropping = lb.dropping
  pinned_eq : lb'.weightedMultipartPipe = lb.weightedMultipartPipe
  keys_sub : ∀ p ∈ lb'.keys, p ∈ lb.keys
  order : lb.OrderOk → lb'.OrderOk

namespace Rearranges

omit [DecidableEq P] in
theorem refl (lb : Lb P) : lb.Rearranges lb where
  perm := List.Perm.refl _
  more_eq := rfl
  dropping_eq := rfl
  pinned_eq := rfl
  keys_sub _ h := h
  order h := h

omit [DecidableEq P] in
theorem trans {lb lb' lb'' : Lb P} (h : lb.Rearranges lb')
    (h' : lb'.Rearranges lb'') : lb.Rearranges lb'' where
  perm := h'.perm.trans h.perm
  more_eq := h'.more_eq.trans h.more_eq
  dropping_eq := h'.dropping_eq.trans h.dropping_eq
  pinned_eq := h'.pinned_eq.trans h.pinned_eq
  keys_sub p hp := h.keys_sub p (h'.keys_sub p hp)
  order hlb := h'.order (h.order hlb)

omit [DecidableEq P] in
theorem activateAt (lb : Lb P) (i : ℕ) : lb.Rearranges (lb.activateAt i) where
  perm := swap_perm _ _ _
  more_eq := rfl
  dropping_eq := rfl
  pinned_eq := rfl
  keys_sub _ h := h
  order _ h := by simp [Lb.activateAt, markSelectionDirty] at h

theorem activated (lb : Lb P) (p : P) : lb.Rearranges (lb.activated p) := by
  rw [Lb.activated]
  split
  · exact refl lb
  split
  · exact refl lb
  · exact activateAt lb _

omit [DecidableEq P] in
theorem deactivateAt (lb : Lb P) (i : ℕ) : lb.Rearranges (lb.deactivateAt i) := by
  rw [Lb.deactivateAt]
  split
  · exact refl lb
  · constructor
    · exact swap_perm _ _ _
    · rfl
    · rfl
    · rfl
    · exact fun _ h => h
    · intro _ h
      simp [markSelectionDirty] at h

theorem rebuildSelectionOrder (peers : Peers P) (lb : Lb P) :
    lb.Rearranges (lb.rebuildSelectionOrder peers) := by
  rw [Lb.rebuildSelectionOrder]
  split
  · exact refl lb
  · constructor
    · exact List.Perm.refl _
    · rfl
    · rfl
    · rfl
    · exact fun _ h => h
    · intro _ _ p hp
      simp only [List.mem_mergeSort, List.mem_filter] at hp
      exact List.mem_of_mem_take hp.1

theorem restoreRequestLimitedPipes (lb : Lb P) : lb.Rearranges lb.restoreRequestLimitedPipes := by
  have hfold : ∀ (ps : List P) (lb : Lb P), lb.Rearranges (ps.foldl Lb.activated lb) := by
    intro ps
    induction ps with
    | nil => exact fun lb => refl lb
    | cons p ps ih => exact fun lb => (activated lb p).trans (ih _)
  have h := hfold lb.requestLimitedScratch lb
  exact ⟨h.perm, h.more_eq, h.dropping_eq, h.pinned_eq, h.keys_sub, h.order⟩

omit [DecidableEq P] in
theorem retire (lb : Lb P) (i : ℕ) : lb.Rearranges (lb.retire i) := by
  rw [Lb.retire]
  split
  · constructor
    · exact swap_perm _ _ _
    · rfl
    · rfl
    · rfl
    · exact fun _ h => h
    · intro _ h
      simp [Lb.markSelectionDirty] at h
  · exact refl lb

omit [DecidableEq P] in
theorem mapEntries (lb : Lb P) (f : P × Entry → Entry) :
    lb.Rearranges { lb with entries := lb.entries.map fun x => (x.1, f x) } where
  perm := List.Perm.refl _
  more_eq := rfl
  dropping_eq := rfl
  pinned_eq := rfl
  keys_sub q hq := by
    simpa [keys] using hq
  order h := h

theorem commitWeightedSelection (lb : Lb P) (p : P) (total : UInt32) :
    lb.Rearranges (lb.commitWeightedSelection p total) :=
  mapEntries lb _

theorem selectConnectedPipe (peers : Peers P) (lb : Lb P) (filter : P → Bool) :
    lb.Rearranges (lb.selectConnectedPipe peers filter).2 := by
  rw [Lb.selectConnectedPipe]
  split
  · exact refl lb
  · exact mapEntries lb _

theorem setEntry {lb : Lb P} {p : P} (hp : p ∈ lb.keys) (e : Entry) :
    lb.Rearranges (lb.setEntry p e) where
  perm := List.Perm.refl _
  more_eq := rfl
  dropping_eq := rfl
  pinned_eq := rfl
  keys_sub q hq := by
    simp only [keys, Lb.setEntry, List.map_cons, List.mem_cons, List.mem_map, List.mem_filter] at hq
    rcases hq with rfl | ⟨x, ⟨hx, -⟩, rfl⟩
    · exact hp
    · exact List.mem_map_of_mem hx
  order h := h

omit [DecidableEq P] in
theorem markSelectionDirty (lb : Lb P) : lb.Rearranges lb.markSelectionDirty where
  perm := List.Perm.refl _
  more_eq := rfl
  dropping_eq := rfl
  pinned_eq := rfl
  keys_sub _ h := h
  order _ h := by simp [Lb.markSelectionDirty] at h

omit [DecidableEq P] in
theorem requestLimitedScratch (lb : Lb P) (ps : List P) :
    lb.Rearranges { lb with requestLimitedScratch := ps } where
  perm := List.Perm.refl _
  more_eq := rfl
  dropping_eq := rfl
  pinned_eq := rfl
  keys_sub _ h := h
  order h := h

end Rearranges

theorem rebuildSelectionOrder_clean (peers : Peers P) (lb : Lb P) :
    (lb.rebuildSelectionOrder peers).orderDirty = false := by
  rw [rebuildSelectionOrder]
  split
  case isTrue h => exact h.1
  case isFalse => rfl

theorem mem_of_selectWeightedPipe {lb : Lb P} {total : UInt32} {p : P}
    (h : lb.selectWeightedPipe = (total, some p)) : p ∈ lb.ordered := by
  have hfold : ∀ (ps : List P) (acc : UInt32 × Option (P × ℤ)),
      ∀ q ∈ (ps.foldl lb.selectStep acc).2, q.1 ∈ ps ∨ q ∈ acc.2 := by
    intro ps
    induction ps with
    | nil => exact fun acc q hq => .inr hq
    | cons p ps ih =>
      intro acc q hq
      rcases ih _ q hq with hmem | hmem
      · exact .inl (List.mem_cons_of_mem _ hmem)
      rw [selectStep] at hmem
      split at hmem
      · exact .inr hmem
      split at hmem
      · exact .inr hmem
      simp only at hmem
      split at hmem
      · obtain rfl := Option.some.inj hmem
        exact .inl (List.mem_cons_self ..)
      case h_2 best hbest =>
        split at hmem
        · obtain rfl := Option.some.inj hmem
          exact .inl (List.mem_cons_self ..)
        · exact .inr (hbest ▸ hmem)
  simp only [selectWeightedPipe, Prod.mk.injEq, Option.map_eq_some_iff] at h
  obtain ⟨q, hq, rfl⟩ := h.2
  exact (hfold lb.ordered (0, none) q hq).resolve_right (by simp)

theorem attach_spec (p : P) (w : UInt32) :
    (lb.attach p w).pipes.Perm (lb.pipes ++ [p]) ∧ (lb.attach p w).more = lb.more ∧
      (lb.attach p w).dropping = lb.dropping ∧
      (lb.attach p w).weightedMultipartPipe = lb.weightedMultipartPipe ∧
      (∀ q ∈ (lb.attach p w).keys, q = p ∨ q ∈ lb.keys) ∧ (lb.attach p w).OrderOk := by
  rw [attach]
  generalize hlb₁ : markSelectionDirty _ = lb₁
  have hre := Rearranges.activated lb₁ p
  subst hlb₁
  refine ⟨hre.perm, hre.more_eq, hre.dropping_eq, hre.pinned_eq, ?_, ?_⟩
  · intro q hq
    have hq' := hre.keys_sub q hq
    simp only [keys, markSelectionDirty, setEntry, List.map_cons,
      List.mem_cons, List.mem_map, List.mem_filter] at hq'
    rcases hq' with rfl | ⟨x, ⟨hx, -⟩, rfl⟩
    · exact .inl rfl
    · exact .inr (List.mem_map_of_mem hx)
  · apply hre.order
    intro hclean
    simp [markSelectionDirty] at hclean

theorem getElem?_index {lb : Lb P} {p : P} (hp : p ∈ lb.pipes) :
    lb.pipes[lb.index p]? = some p := by
  rw [index, List.getElem?_eq_getElem (List.idxOf_lt_length_iff.mpr hp), List.getElem_idxOf]

theorem abandon_spec (p : P) : (lb.abandon p).pipes = lb.pipes ∧ (lb.abandon p).keys = lb.keys ∧
      (lb.abandon p).more = lb.more ∧
      (lb.abandon p).dropping = (lb.dropping || (lb.more && (decide (lb.index p = lb.current) ||
          decide (lb.weightedMultipartPipe = some p)))) ∧
      (lb.abandon p).weightedMultipartPipe =
        if lb.weightedMultipartPipe = some p ∧ lb.more then none
        else lb.weightedMultipartPipe := by
  by_cases hm : lb.more = true
  · by_cases hi : lb.index p = lb.current <;>
      by_cases hp : lb.weightedMultipartPipe = some p <;>
        simp [abandon, hm, hi, hp, keys]
  · simp [abandon, hm, keys]

/-- A terminated pipe leaves the others. Parts are dropped from now on when the
open message was pinned to it, or when it stood at the round-robin position. -/
theorem pipeTerminated_spec {lb : Lb P} {p : P} (hp : p ∈ lb.pipes) (hnodup : lb.pipes.Nodup) :
    (lb.pipeTerminated p).pipes.Nodup ∧
      (∀ q, q ∈ (lb.pipeTerminated p).pipes ↔ q ∈ lb.pipes ∧ q ≠ p) ∧
      (∀ q ∈ (lb.pipeTerminated p).keys, q ∈ lb.keys ∧ q ≠ p) ∧
      (lb.pipeTerminated p).OrderOk ∧
      (lb.pipeTerminated p).more = lb.more ∧
      (lb.pipeTerminated p).dropping = (lb.dropping || (lb.more &&
        (decide (lb.index p = lb.current) || decide (lb.weightedMultipartPipe = some p)))) ∧
      (lb.pipeTerminated p).weightedMultipartPipe =
        if lb.weightedMultipartPipe = some p ∧ lb.more then none
        else lb.weightedMultipartPipe := by
  obtain ⟨hpipes, hkeys, hmore, hdrop, hpin⟩ := lb.abandon_spec p
  have hre := Rearranges.retire (lb.abandon p) (lb.index p)
  have hperm : ((lb.abandon p).retire (lb.index p)).pipes.Perm lb.pipes := by
    rw [← hpipes]
    exact hre.perm
  have hget := getElem?_index (hperm.mem_iff.mpr hp)
  have hnodup' := hperm.nodup_iff.mpr hnodup
  rw [pipeTerminated, if_neg (not_not.mpr hp)]
  refine ⟨nodup_erase hnodup' hget, ?_, ?_, ?_, ?_, ?_, ?_⟩
  · intro q
    refine (mem_erase hnodup' hget).trans ?_
    rw [hperm.mem_iff]
  · intro q hq
    simp only [keys, markSelectionDirty, List.mem_map, List.mem_filter] at hq
    obtain ⟨x, ⟨hx, hxp⟩, rfl⟩ := hq
    refine ⟨?_, by simpa using hxp⟩
    rw [← hkeys]
    exact hre.keys_sub _ (List.mem_map_of_mem hx)
  · intro hclean
    simp [markSelectionDirty] at hclean
  · exact hre.more_eq.trans hmore
  · exact hre.dropping_eq.trans hdrop
  · exact hre.pinned_eq.trans hpin

end Lb

namespace State

variable {σ P α : Type} [DecidableEq P] (world : World σ P α) (peers : Peers P)

/-- What a send of a part does to a state where no message is being dropped: it is
refused and only rearranges the balancer; it is written on the pipe that the open
message is pinned to or, for a first part, on an attached pipe; or the open
message is given up. -/
inductive Sends (s : State σ P α) (f : Part α) : Rc → State σ P α → Prop where
  | refused {s' : State σ P α} : s'.queue = s.queue → s.lb.Rearranges s'.lb → Sends s f .refused s'
  | sent {s' : State σ P α} (p : P) (lb : Lb P) :
      (if s.lb.more then s.lb.weightedMultipartPipe = some p
        else p ∈ s.lb.pipes) →
      s.lb.Rearranges lb →
      s'.lb = { lb with
        more := f.more
        weightedMultipartPipe := if f.more then some p else none } →
      s'.queue = (s.setQueue p ((s.queue p).push f)).queue →
      Sends s f .sent s'
  | aborted {s' : State σ P α} (p : P) : s.lb.weightedMultipartPipe = some p → s'.lb = { s.lb with
        weightedMultipartPipe := none
        dropping := f.more
        more := false } →
      s'.queue = (s.rollbackPipe p).queue → Sends s f .aborted s'

theorem Sends.congr {s s₁ s' : State σ P α} {f : Part α} {rc : Rc}
    (h : Sends s₁ f rc s') (hq : s₁.queue = s.queue)
    (hmore : s.lb.more = false) (hlb : s.lb.Rearranges s₁.lb)
    (hrc : rc ≠ .aborted) : Sends s f rc s' := by
  have hmore₁ : s₁.lb.more = false := hlb.more_eq.trans hmore
  cases h with
  | refused hqueue hre => exact .refused (hqueue.trans hq) (hlb.trans hre)
  | sent p lb htarget hre hlb' hqueue =>
    rw [hmore₁] at htarget
    refine .sent p lb ?_ (hlb.trans hre) hlb' ?_
    · rw [hmore]
      exact hlb.perm.mem_iff.mp htarget
    · rw [hqueue, setQueue, setQueue, hq]
  | aborted => exact absurd rfl hrc

variable (s : State σ P α)

theorem write_cases (p : P) (f : Part α) (observer : Bool) :
    (∃ s', s.write world p f observer = (.done, s') ∧ s'.lb = s.lb ∧
      s'.queue = (s.setQueue p ((s.queue p).push f)).queue) ∨ (∃ admission cancelled s',
      s.write world p f observer = (.refused admission cancelled, s') ∧
      s'.lb = s.lb ∧ s'.queue = s.queue) := by
  rw [write]
  rcases world.write s.world p f observer with ⟨_ | ⟨admission, cancelled⟩, w⟩
  · exact .inl ⟨_, rfl, rfl, rfl⟩
  · exact .inr ⟨admission, cancelled, _, rfl, rfl, rfl⟩

@[simp] theorem rollbackPipe_records (p q : P) :
    ((s.rollbackPipe p).queue q).records = (s.queue q).records := by
  by_cases hqp : q = p <;>
    simp [rollbackPipe, setQueue, Queue.rollback, hqp]

@[simp] theorem rollbackPipe_pending (p q : P) :
    ((s.rollbackPipe p).queue q).pending = if q = p then [] else (s.queue q).pending := by
  by_cases hqp : q = p <;>
    simp [rollbackPipe, setQueue, Queue.rollback, hqp]

/-- `rollback` takes the open record back from one pipe at most, and from the
pinned one if there is one. -/
theorem rollback_queue : (s.rollback.queue = s.queue ∧ s.lb.weightedMultipartPipe = none) ∨
      ∃ p, s.rollback.queue = (s.rollbackPipe p).queue ∧
        ∀ q, s.lb.weightedMultipartPipe = some q → q = p := by
  simp only [rollback]
  split
  case h_1 p hp =>
    exact .inr ⟨p, rfl, fun q hq => Option.some.inj (hq.symm.trans hp)⟩
  case h_2 hnone =>
    split
    · split
      case h_1 p _ => exact .inr ⟨p, rfl, fun q hq => by simp [hnone] at hq⟩
      case h_2 => exact .inl ⟨rfl, hnone⟩
    · exact .inl ⟨rfl, hnone⟩

theorem anyHwmBlockedPipe_frame (ps : List P) : (s.anyHwmBlockedPipe world ps).2.lb = s.lb ∧
      (s.anyHwmBlockedPipe world ps).2.queue = s.queue := by
  induction ps generalizing s with
  | nil => exact ⟨rfl, rfl⟩
  | cons p ps ih =>
    rw [anyHwmBlockedPipe]
    split
    · split
      · exact ⟨rfl, rfl⟩
      · exact ih _
    · exact ih s

theorem noActivePipe_frame (admission : Admission) :
    (s.noActivePipe world admission).1.rc = .refused ∧
      (s.noActivePipe world admission).2.lb = s.lb ∧
      (s.noActivePipe world admission).2.queue = s.queue := by
  have hframe := s.anyHwmBlockedPipe_frame world s.lb.pipes
  rw [noActivePipe]
  rcases h : s.anyHwmBlockedPipe world s.lb.pipes with ⟨_ | _, s'⟩ <;>
  · rw [h] at hframe
    exact ⟨rfl, hframe⟩

theorem noCandidate_sends (f : Part α) (admission : Admission) :
    Sends s f (s.noCandidate world admission).1.rc (s.noCandidate world admission).2 ∧
      (s.noCandidate world admission).1.rc ≠ .aborted := by
  have hre := Lb.Rearranges.restoreRequestLimitedPipes s.lb
  simp only [noCandidate]
  split
  · obtain ⟨hrc, hlb, hqueue⟩ := noActivePipe_frame world
      { s with lb := s.lb.restoreRequestLimitedPipes } admission
    rw [hrc]
    refine ⟨.refused hqueue ?_, by simp⟩
    rw [hlb]
    exact hre
  · exact ⟨.refused rfl hre, by simp [refusedWith]⟩

theorem sendFirst_sends (fuel : ℕ) (s : State σ P α) (f : Part α)
    (observer : Bool) (admissionOut : Admission)
    (hmore : s.lb.more = false) (hclean : s.lb.orderDirty = false) (horder : s.lb.OrderOk) :
    Sends s f (sendFirst world peers fuel s f observer admissionOut).1.rc
        (sendFirst world peers fuel s f observer admissionOut).2 ∧
      (sendFirst world peers fuel s f observer admissionOut).1.rc ≠ .aborted := by
  induction fuel generalizing s admissionOut with
  | zero => exact noCandidate_sends world s f admissionOut
  | succ fuel ih =>
    rw [sendFirst]
    split
    · exact noCandidate_sends world s f admissionOut
    split
    · exact noCandidate_sends world s f admissionOut
    case h_2 total p hselect =>
      have hmem : p ∈ s.lb.pipes :=
        horder hclean p (Lb.mem_of_selectWeightedPipe hselect)
      rcases write_cases world s p f observer with
        ⟨s', hw, hlb, hqueue⟩ | ⟨admission, cancelled, s', hw, hlb, hqueue⟩
      · simp only [hw]
        refine ⟨.sent p (s'.lb.commitWeightedSelection p total).restoreRequestLimitedPipes
          ?_ ?_ rfl hqueue, by simp [sentTo]⟩
        · rw [hmore]
          exact hmem
        · rw [hlb]
          exact (Lb.Rearranges.commitWeightedSelection _ _ _).trans
            (Lb.Rearranges.restoreRequestLimitedPipes _)
      · have hrestored : Sends s f .refused
            { s' with lb := s'.lb.restoreRequestLimitedPipes } := by
          refine .refused hqueue ?_
          rw [← hlb]
          exact Lb.Rearranges.restoreRequestLimitedPipes _
        -- a refused candidate leaves the active pipes and the selection
        -- goes on
        have hnext : ∀ (ps : List P) (out : Admission),
            let lb := ({ s'.lb with requestLimitedScratch := ps }.deactivate
              p).rebuildSelectionOrder peers
            Sends s f (sendFirst world peers fuel { s' with lb := lb } f observer out).1.rc
                (sendFirst world peers fuel { s' with lb := lb } f observer out).2 ∧
              (sendFirst world peers fuel { s' with lb := lb } f observer out).1.rc ≠ .aborted := by
          intro ps out lb
          have hre : s.lb.Rearranges lb := by
            rw [← hlb]
            exact (Lb.Rearranges.requestLimitedScratch _ ps).trans
              ((Lb.Rearranges.deactivateAt _ _).trans (Lb.Rearranges.rebuildSelectionOrder peers _))
          have hrec := ih { s' with lb := lb } out (hre.more_eq.trans hmore)
            (Lb.rebuildSelectionOrder_clean peers _) (hre.order horder)
          exact ⟨hrec.1.congr hqueue hmore hre hrec.2, hrec.2⟩
        simp only [hw]
        split
        · exact ⟨hrestored, by simp [refusedWith]⟩
        split
        · exact ⟨hrestored, by simp [refusedWith]⟩
        split
        · exact hnext _ _
        · exact hnext s'.lb.requestLimitedScratch _

theorem sendPinned_sends {s : State σ P α} {p : P} (f : Part α)
    (observer : Bool) (hmore : s.lb.more = true) (hpin : s.lb.weightedMultipartPipe = some p) :
    Sends s f (s.sendPinned world p f observer).1.rc (s.sendPinned world p f observer).2 := by
  rw [sendPinned]
  rcases write_cases world s p f observer with
    ⟨s', hw, hlb, hqueue⟩ | ⟨admission, cancelled, s', hw, hlb, hqueue⟩
  · simp only [hw]
    refine .sent p s'.lb ?_ (hlb ▸ Lb.Rearranges.refl _) rfl hqueue
    rw [hmore]
    exact hpin
  · simp only [hw]
    refine .aborted p hpin ?_ ?_
    · rw [abort, hlb]
    · rw [abort, rollbackPipe, rollbackPipe, setQueue, setQueue, hqueue]

theorem sendOnlyPipe_sends {s : State σ P α} {p : P} (f : Part α)
    (observer : Bool) (hmore : s.lb.more = false) (hp : p ∈ s.lb.pipes) :
    Sends s f (s.sendOnlyPipe world p f observer).1.rc (s.sendOnlyPipe world p f observer).2 := by
  rw [sendOnlyPipe]
  rcases write_cases world s p f observer with
    ⟨s', hw, hlb, hqueue⟩ | ⟨admission, cancelled, s', hw, hlb, hqueue⟩
  · simp only [hw]
    refine .sent p s'.lb ?_ (hlb ▸ Lb.Rearranges.refl _) rfl hqueue
    rw [hmore]
    exact hp
  · have hsame : Sends s f .refused s' :=
      .refused hqueue (hlb ▸ Lb.Rearranges.refl _)
    have hmore' : ¬s'.lb.more = true := by simp [hlb, hmore]
    simp only [hw]
    split
    · exact hsame
    split
    · exact hsame
    split
    · exact hsame
    · refine .refused hqueue ?_
      rw [← hlb]
      exact Lb.Rearranges.deactivateAt _ _

theorem sendpipe_sends {s : State σ P α} (f : Part α) (observer : Bool)
    (hdrop : s.lb.dropping = false) (hopen : s.lb.more = true → s.lb.weightedMultipartPipe ≠ none)
    (horder : s.lb.OrderOk) : Sends s f (s.sendpipe world peers f observer).1.rc
      (s.sendpipe world peers f observer).2 := by
  rw [sendpipe, hdrop, if_neg (by simp)]
  split
  · exact .refused rfl (Lb.Rearranges.refl _)
  split
  case h_1 p hmore hpin => exact sendPinned_sends world f observer hmore hpin
  case h_2 hunpinned =>
    have hmore : s.lb.more = false := by
      rcases hm : s.lb.more with _ | _
      · rfl
      obtain ⟨p, hp⟩ := Option.ne_none_iff_exists'.mp (hopen hm)
      exact absurd hp (hunpinned p hm)
    split
    case h_1 p ps _ _ hpipes =>
      exact sendOnlyPipe_sends world f observer hmore (by simp [hpipes])
    case h_2 =>
      have hre := Lb.Rearranges.rebuildSelectionOrder peers s.lb
      have hclosed : ¬(s.lb.rebuildSelectionOrder peers).more = true := by
        simp [hre.more_eq, hmore]
      simp only [if_neg hclosed]
      have hre' := hre.trans (Lb.Rearranges.requestLimitedScratch _ [])
      have hfirst := sendFirst_sends world peers (s.lb.rebuildSelectionOrder peers).active
        { s with
          lb := { s.lb.rebuildSelectionOrder peers with
            requestLimitedScratch := [] } }
        f observer .ready (hre'.more_eq.trans hmore)
        (Lb.rebuildSelectionOrder_clean peers _) (hre'.order horder)
      refine Sends.congr (s := s) hfirst.1 ?_ hmore ?_ hfirst.2
      · rfl
      · exact hre'

theorem sendpipeTo_sends {s : State σ P α} (p : P) (f : Part α)
    (observer : Bool) (hkeys : ∀ p ∈ s.lb.keys, p ∈ s.lb.pipes) :
    Sends s f (s.sendpipeTo world p f observer).1.rc (s.sendpipeTo world p f observer).2 ∧
      ((s.sendpipeTo world p f observer).1.rc ≠ .refused → s.lb.more = false) := by
  rw [sendpipeTo]
  have hself : Sends s f .refused s := .refused rfl (Lb.Rearranges.refl _)
  split
  · exact ⟨hself, by simp [refusedWith]⟩
  case h_2 e he =>
    have hp : p ∈ s.lb.pipes := hkeys p (Lb.mem_keys_of_entry he)
    split
    · exact ⟨hself, by simp [refusedWith]⟩
    split
    · exact ⟨hself, by simp [refusedWith]⟩
    case isFalse hopen =>
      have hmore : s.lb.more = false := by simpa using hopen
      refine ⟨?_, fun _ => hmore⟩
      split
      case h_1 w hready =>
        rcases write_cases world { s with world := w } p f observer with
          ⟨s', hw, hlb, hqueue⟩ | ⟨admission, cancelled, s', hw, hlb, hqueue⟩
        · simp only [hw]
          refine .sent p s'.lb ?_ (hlb ▸ Lb.Rearranges.refl _) rfl hqueue
          rw [hmore]
          exact hp
        · have hsame : Sends s f .refused s' :=
            .refused hqueue (hlb ▸ Lb.Rearranges.refl _)
          simp only [hw]
          split
          · exact hsame
          split
          · exact hsame
          split
          · exact hsame
          · refine .refused hqueue ?_
            simp only [hlb]
            exact Lb.Rearranges.deactivateAt _ _
      case h_2 => exact .refused rfl (Lb.Rearranges.deactivateAt _ _)

omit [DecidableEq P] in
/-- What the inactivation of a pipe keeps, a call of `has_out` keeps. -/
theorem hasOut_induction {s : State σ P α} {C : State σ P α → Prop}
    (hworld : ∀ s w, C s → C { s with world := w })
    (hdeactivate : ∀ s i, C s → C { s with lb := s.lb.deactivateAt i })
    (h : C s) : C (s.hasOut world).2 := by
  have hloop : ∀ fuel s, C s → C (findWritable world fuel s).2 := by
    intro fuel
    induction fuel with
    | zero => exact fun s h => h
    | succ fuel ih =>
      intro s h
      rw [findWritable]
      split
      · exact h
      split
      · exact h
      split
      · exact hworld s _ h
      · exact ih _ (hworld _ _ (hdeactivate s _ h))
  rw [hasOut]
  split
  · exact h
  split
  · split
    · exact hworld s _ h
    · exact hworld _ _ (hdeactivate s 0 h)
  · exact hloop _ s h

end State

/-- The calls on the balancer. -/
inductive Op (P α : Type) where
  | attach (p : P) (initialWeight : UInt32)
  | activated (p : P)
  | setWeight (p : P) (weight : UInt32)
  | sendpipe (f : Part α) (observer : Bool)
  | sendpipeTo (p : P) (f : Part α) (observer : Bool)
  | pipeTerminated (p : P)
  | rollback
  | selectConnectedPipe (filter : P → Bool)
  | hasOut

/-- The balancer with what its caller has handed over: the parts of the message in
progress, and the messages that were handed over to their last part. -/
structure System (σ P α : Type) where
  state : State σ P α
  current : List (Part α)
  offered : List (List (Part α))

namespace System

variable {σ P α : Type}

def init (w : σ) : System σ P α :=
  { state := { lb := Lb.init, queue := fun _ => Queue.empty, world := w }
    current := []
    offered := [] }

def hand (sys : System σ P α) (f : Part α) : System σ P α :=
  if f.more then { sys with current := sys.current ++ [f] }
  else
    { sys with
      current := []
      offered := sys.offered ++ [sys.current ++ [f]] }

/-- What the caller makes of the return code of a send. A refused part was not
handed over; of an aborted message only the rest is still to come. -/
def hear (sys : System σ P α) (f : Part α) : Rc → System σ P α
  | .sent => sys.hand f
  | .refused => sys
  | .aborted =>
    { sys with current := if f.more then sys.current ++ [f] else [] }

def hearFirst (sys : System σ P α) (f : Part α) : Rc → System σ P α
  | .sent =>
    if f.more then { sys with current := [f] }
    else { sys with offered := sys.offered ++ [[f]] }
  | _ => sys

variable [DecidableEq P] (world : World σ P α) (peers : Peers P)

def Allows (sys : System σ P α) : Op P α → Prop
  | .attach p _ => p ∉ sys.state.lb.pipes
  | .activated p => p ∈ sys.state.lb.pipes
  | _ => True

instance (sys : System σ P α) : (op : Op P α) → Decidable (sys.Allows op)
  | .attach p _ => inferInstanceAs (Decidable (p ∉ sys.state.lb.pipes))
  | .activated p => inferInstanceAs (Decidable (p ∈ sys.state.lb.pipes))
  | .setWeight _ _ | .sendpipe _ _ | .sendpipeTo _ _ _ | .pipeTerminated _
  | .rollback | .selectConnectedPipe _ | .hasOut => isTrue trivial

def perform (sys : System σ P α) : Op P α → System σ P α
  | .attach p w =>
    -- a pipe comes to the balancer with an empty queue
    { sys with
      state := { sys.state.setQueue p Queue.empty with
        lb := sys.state.lb.attach p w } }
  | .activated p =>
    { sys with
      state := { sys.state with lb := sys.state.lb.activated p } }
  | .setWeight p w => { sys with state := sys.state.setWeight world p w }
  | .sendpipe f observer =>
    let (sent, s) := sys.state.sendpipe world peers f observer
    { sys with state := s }.hear f sent.rc
  | .sendpipeTo p f observer =>
    let (sent, s) := sys.state.sendpipeTo world p f observer
    { sys with state := s }.hearFirst f sent.rc
  | .pipeTerminated p =>
    { sys with
      state := { sys.state with lb := sys.state.lb.pipeTerminated p } }
  | .rollback => { sys with state := sys.state.rollback, current := [] }
  | .selectConnectedPipe filter =>
    { sys with
      state := { sys.state with lb := (sys.state.lb.selectConnectedPipe peers filter).2 } }
  | .hasOut => { sys with state := (sys.state.hasOut world).2 }

/-- One call, or `none` where the caller does not make it. -/
def step (sys : System σ P α) (op : Op P α) : Option (System σ P α) :=
  if sys.Allows op then some (sys.perform world peers op) else none

def run : System σ P α → List (Op P α) → Option (System σ P α)
  | sys, [] => some sys
  | sys, op :: ops =>
    (sys.step world peers op).bind fun sys' => run sys' ops

/-- Messages are atomic: a complete record on an attached pipe is a message that
was handed over whole, and an open record is the message in progress, on the pipe
that its further parts go to. -/
def Atomic (sys : System σ P α) : Prop :=
  (∀ p ∈ sys.state.lb.pipes, ∀ r ∈ (sys.state.queue p).records, r ∈ sys.offered) ∧
  ∀ p ∈ sys.state.lb.pipes, (sys.state.queue p).pending ≠ [] →
    sys.state.lb.more = true ∧ sys.state.lb.dropping = false ∧
      sys.state.lb.weightedMultipartPipe = some p ∧
      (sys.state.queue p).pending = sys.current

/-- The calls that do not break up a message: no pipe at the round-robin position
terminates in the middle of a message that is pinned to another pipe, and no
message of several parts is directed to a pipe while parts are being dropped. -/
def Meets (sys : System σ P α) : Op P α → Prop
  | .pipeTerminated p => sys.state.lb.more = true → sys.state.lb.index p = sys.state.lb.current →
      sys.state.lb.weightedMultipartPipe = some p ∨ sys.state.lb.dropping = true
  | .sendpipeTo _ f _ => f.more = true → sys.state.lb.dropping = false
  | _ => True

instance (sys : System σ P α) : (op : Op P α) → Decidable (sys.Meets op)
  | .pipeTerminated _ => inferInstanceAs (Decidable (_ → _ → _))
  | .sendpipeTo _ _ _ => inferInstanceAs (Decidable (_ → _))
  | .setWeight _ _ | .sendpipe _ _ | .attach _ _ | .activated _
  | .rollback | .selectConnectedPipe _ | .hasOut => isTrue trivial

def AllMeet : System σ P α → List (Op P α) → Prop
  | _, [] => True
  | sys, op :: ops => sys.Meets op ∧ ∀ sys', sys.step world peers op = some sys' → AllMeet sys' ops

instance decidableAllMeet : (sys : System σ P α) → (ops : List (Op P α)) →
    Decidable (sys.AllMeet world peers ops)
  | _, [] => isTrue trivial
  | sys, op :: ops =>
    match h : sys.step world peers op with
    | none => decidable_of_iff (sys.Meets op)
        ⟨fun hm => ⟨hm, fun _ h' => by simp [h] at h'⟩, fun hm => hm.1⟩
    | some sys' =>
      have : Decidable (sys'.AllMeet world peers ops) :=
        decidableAllMeet sys' ops
      decidable_of_iff (sys.Meets op ∧ sys'.AllMeet world peers ops) ⟨fun hm => ⟨hm.1, fun _ h' =>
            Option.some.inj (h.symm.trans h') ▸ hm.2⟩,
          fun hm => ⟨hm.1, hm.2 sys' h⟩⟩

structure Consistent (sys : System σ P α) : Prop where
  nodup : sys.state.lb.pipes.Nodup
  keys : ∀ p ∈ sys.state.lb.keys, p ∈ sys.state.lb.pipes
  order : sys.state.lb.OrderOk
  records : ∀ p ∈ sys.state.lb.pipes, ∀ r ∈ (sys.state.queue p).records, r ∈ sys.offered
  pending : ∀ p ∈ sys.state.lb.pipes, (sys.state.queue p).pending ≠ [] →
    sys.state.lb.weightedMultipartPipe = some p
  pinned : ∀ p, sys.state.lb.weightedMultipartPipe = some p →
    sys.state.lb.more = true ∧ sys.state.lb.dropping = false ∧
      p ∈ sys.state.lb.pipes ∧ (sys.state.queue p).pending = sys.current
  opened : sys.state.lb.more = true → sys.state.lb.dropping = true ∨
    sys.state.lb.weightedMultipartPipe ≠ none
  closed : sys.state.lb.more = false → sys.state.lb.dropping = false → sys.current = []

variable {sys : System σ P α}

omit [DecidableEq P] in
theorem Consistent.atomic (h : sys.Consistent) : sys.Atomic := by
  refine ⟨h.records, fun p hp hne => ?_⟩
  have hpin := h.pending p hp hne
  obtain ⟨hmore, hdrop, -, hcurrent⟩ := h.pinned p hpin
  exact ⟨hmore, hdrop, hpin, hcurrent⟩

omit [DecidableEq P] in
theorem consistent_init (w : σ) : (init w : System σ P α).Consistent := by
  constructor <;> simp [init, Lb.init, Lb.keys, Lb.OrderOk]

omit [DecidableEq P] in
theorem Consistent.rearranges (h : sys.Consistent) {s : State σ P α}
    (hqueue : s.queue = sys.state.queue) (hre : sys.state.lb.Rearranges s.lb) :
    ({ sys with state := s } : System σ P α).Consistent := by
  have hmem : ∀ {p}, p ∈ s.lb.pipes ↔ p ∈ sys.state.lb.pipes :=
    hre.perm.mem_iff
  constructor
  · exact hre.perm.nodup_iff.mpr h.nodup
  · exact fun p hp => hmem.mpr (h.keys p (hre.keys_sub p hp))
  · exact hre.order h.order
  · intro p hp
    rw [hqueue]
    exact h.records p (hmem.mp hp)
  · intro p hp
    rw [hqueue, hre.pinned_eq]
    exact h.pending p (hmem.mp hp)
  · intro p
    rw [hqueue, hre.pinned_eq, hre.more_eq, hre.dropping_eq, hmem]
    exact h.pinned p
  · rw [hre.pinned_eq, hre.more_eq, hre.dropping_eq]
    exact h.opened
  · rw [hre.more_eq, hre.dropping_eq]
    exact h.closed

theorem Consistent.written (h : sys.Consistent) {f : Part α} {p : P} (hp : p ∈ sys.state.lb.pipes)
    (hothers : ∀ q ∈ sys.state.lb.pipes, q ≠ p → (sys.state.queue q).pending = [])
    {lb : Lb P} (hre : sys.state.lb.Rearranges lb) {s : State σ P α} (hlb : s.lb = { lb with
      more := f.more
      weightedMultipartPipe := if f.more then some p else none })
    (hqueue : s.queue = (sys.state.setQueue p ((sys.state.queue p).push f)).queue)
    {current : List (Part α)} {offered : List (List (Part α))}
    (hoffered : ∀ r ∈ sys.offered, r ∈ offered)
    (hopen : f.more = true → sys.state.lb.dropping = false ∧
      current = (sys.state.queue p).pending ++ [f])
    (hlast : f.more = false → (sys.state.queue p).pending ++ [f] ∈ offered ∧
        (sys.state.lb.dropping = false → current = [])) :
    ({ state := s, current := current, offered := offered } : System σ P α).Consistent := by
  have hmem : ∀ {q}, q ∈ s.lb.pipes ↔ q ∈ sys.state.lb.pipes := by
    rw [hlb]
    exact hre.perm.mem_iff
  have hself : s.queue p = (sys.state.queue p).push f := by
    simp [hqueue, State.setQueue]
  have hother : ∀ q, q ≠ p → s.queue q = sys.state.queue q := by
    intro q hne
    simp [hqueue, State.setQueue, hne]
  have hdrop : s.lb.dropping = sys.state.lb.dropping := by
    rw [hlb]
    exact hre.dropping_eq
  have hmore : s.lb.more = f.more := by rw [hlb]
  have hpin : s.lb.weightedMultipartPipe = if f.more then some p else none := by
    rw [hlb]
  constructor
  · rw [hlb]
    exact hre.perm.nodup_iff.mpr h.nodup
  · intro q hq
    rw [hmem]
    rw [hlb] at hq
    exact h.keys q (hre.keys_sub q hq)
  · rw [hlb]
    exact hre.order h.order
  · intro q hq r hr
    by_cases hqp : q = p
    · subst hqp
      rw [hself, Queue.push] at hr
      split at hr
      case isTrue hf => exact hoffered r (h.records q hp r hr)
      case isFalse hf =>
        have hf : f.more = false := by simpa using hf
        rcases List.mem_append.mp hr with hr | hr
        · exact hoffered r (h.records q hp r hr)
        · exact List.mem_singleton.mp hr ▸ (hlast hf).1
    · rw [hother q hqp] at hr
      exact hoffered r (h.records q (hmem.mp hq) r hr)
  · intro q hq hne
    by_cases hqp : q = p
    · subst hqp
      rw [hself, Queue.push] at hne
      rw [hpin]
      split at hne
      case isTrue hf => rw [if_pos hf]
      case isFalse hf => exact absurd rfl hne
    · rw [hother q hqp, hothers q (hmem.mp hq) hqp] at hne
      exact absurd rfl hne
  · intro q hq
    rw [hpin] at hq
    split at hq
    case isTrue hf =>
      obtain rfl := Option.some.inj hq
      obtain ⟨hd, hcurrent⟩ := hopen hf
      refine ⟨hmore.trans hf, hdrop.trans hd, hmem.mpr hp, ?_⟩
      rw [hself, Queue.push, if_pos hf]
      exact hcurrent.symm
    case isFalse hf => exact absurd hq (by simp)
  · intro hm
    right
    rw [hmore] at hm
    simp [hpin, hm]
  · intro hm hd
    rw [hmore] at hm
    rw [hdrop] at hd
    exact (hlast hm).2 hd

omit [DecidableEq P] in
theorem Consistent.pending_nil (h : sys.Consistent)
    (hnone : sys.state.lb.weightedMultipartPipe = none) {p : P}
    (hp : p ∈ sys.state.lb.pipes) : (sys.state.queue p).pending = [] := by
  by_contra hne
  simp [h.pending p hp hne] at hnone

omit [DecidableEq P] in
theorem Consistent.pin_none (h : sys.Consistent)
    (hmore : sys.state.lb.more = false ∨ sys.state.lb.dropping = true) :
    sys.state.lb.weightedMultipartPipe = none := by
  by_contra hne
  obtain ⟨p, hp⟩ := Option.ne_none_iff_exists'.mp hne
  obtain ⟨hm, hd, -, -⟩ := h.pinned p hp
  rcases hmore with hm' | hd'
  · simp [hm] at hm'
  · simp [hd] at hd'

omit [DecidableEq P] in
theorem Consistent.drop (h : sys.Consistent) (hd : sys.state.lb.dropping = true) (f : Part α) :
    (hand { sys with state := { sys.state with
        lb := { sys.state.lb with
          more := f.more, dropping := f.more } } } f).Consistent := by
  have hnone := h.pin_none (.inr hd)
  have hrecords : ∀ p ∈ sys.state.lb.pipes, ∀ r ∈ (sys.state.queue p).records,
        r ∈ sys.offered ++ [sys.current ++ [f]] :=
    fun p hp r hr => List.mem_append_left _ (h.records p hp r hr)
  rw [hand]
  split
  case isTrue hf =>
    constructor
    · exact h.nodup
    · exact h.keys
    · exact h.order
    · exact h.records
    · exact h.pending
    · intro p hp
      simp [hnone] at hp
    · exact fun _ => .inl hf
    · intro hm
      simp [hf] at hm
  case isFalse hf =>
    constructor
    · exact h.nodup
    · exact h.keys
    · exact h.order
    · exact hrecords
    · exact h.pending
    · intro p hp
      simp [hnone] at hp
    · exact fun hm => absurd hm hf
    · exact fun _ _ => rfl

/-- The open message is taken back from its pipe, and what follows of it is
dropped. -/
theorem Consistent.gaveUp (h : sys.Consistent) {f : Part α} {p : P}
    (hpin : sys.state.lb.weightedMultipartPipe = some p) {s : State σ P α}
    (hlb : s.lb = { sys.state.lb with
      weightedMultipartPipe := none
      dropping := f.more
      more := false })
    (hqueue : s.queue = (sys.state.rollbackPipe p).queue)
    {current : List (Part α)} (hcurrent : f.more = false → current = []) :
    ({ sys with state := s, current := current } : System σ P α).Consistent := by
  constructor
  · rw [hlb]
    exact h.nodup
  · rw [hlb]
    exact h.keys
  · rw [hlb]
    exact h.order
  · intro q hq r hr
    rw [hlb] at hq
    rw [hqueue, State.rollbackPipe_records] at hr
    exact h.records q hq r hr
  · intro q hq hne
    rw [hlb] at hq
    rw [hqueue, State.rollbackPipe_pending] at hne
    split at hne
    · exact absurd rfl hne
    case isFalse hqp =>
      have hq' := (h.pending q hq hne).symm.trans hpin
      exact absurd (Option.some.inj hq') hqp
  · intro q hq
    simp [hlb] at hq
  · intro hm
    simp [hlb] at hm
  · intro _ hd
    rw [hlb] at hd
    exact hcurrent hd

theorem Consistent.sendpipe (h : sys.Consistent) (f : Part α) (observer : Bool) :
    (sys.perform world peers (.sendpipe f observer)).Consistent := by
  rcases hd : sys.state.lb.dropping with _ | _
  · have hopen : sys.state.lb.more = true → sys.state.lb.weightedMultipartPipe ≠ none := fun hm =>
      (h.opened hm).resolve_left (by simp [hd])
    have hsends := State.sendpipe_sends world peers f observer hd hopen h.order
    rw [perform]
    generalize sys.state.sendpipe world peers f observer = r at hsends
    obtain ⟨sent, s⟩ := r
    generalize hrc : sent.rc = rc at hsends
    simp only [hrc]
    cases hsends with
    | refused hqueue hre => exact h.rearranges hqueue hre
    | sent p lb htarget hre hlb hqueue =>
      -- the pipe holds the parts handed over so far, the others hold none
      have htarget : p ∈ sys.state.lb.pipes ∧ (sys.state.queue p).pending = sys.current ∧
          ∀ q ∈ sys.state.lb.pipes, q ≠ p → (sys.state.queue q).pending = [] := by
        rcases hm : sys.state.lb.more with _ | _
        · rw [hm] at htarget
          have hnone := h.pin_none (.inl hm)
          refine ⟨htarget, ?_, fun q hq _ => h.pending_nil hnone hq⟩
          rw [h.pending_nil hnone htarget, h.closed hm hd]
        · rw [hm] at htarget
          obtain ⟨-, -, hp, hcurrent⟩ := h.pinned p htarget
          refine ⟨hp, hcurrent, fun q hq hqp => ?_⟩
          by_contra hne
          have hq' := (h.pending q hq hne).symm.trans htarget
          exact hqp (Option.some.inj hq')
      obtain ⟨hp, hcurrent, hothers⟩ := htarget
      rw [hear, hand]
      split
      case isTrue hf =>
        refine h.written hp hothers hre hlb hqueue (fun r hr => hr)
          (fun _ => ⟨hd, ?_⟩) (fun hl => ?_)
        · rw [hcurrent]
        · simp [hf] at hl
      case isFalse hf =>
        refine h.written hp hothers hre hlb hqueue (fun r hr => List.mem_append_left _ hr)
          (fun hl => absurd hl hf) (fun _ => ⟨?_, fun _ => rfl⟩)
        rw [hcurrent]
        simp
    | aborted p hpin hlb hqueue =>
      refine h.gaveUp hpin hlb hqueue fun hf => ?_
      simp [hf]
  · have hperform : sys.perform world peers (.sendpipe f observer) = hand { sys with
          state := { sys.state with
            lb := { sys.state.lb with
              more := f.more, dropping := f.more } } } f := by
      simp [perform, State.sendpipe, hd, hear]
    rw [hperform]
    exact h.drop hd f

theorem Consistent.sendpipeTo (h : sys.Consistent) (p : P) {f : Part α} (observer : Bool)
    (hmeets : f.more = true → sys.state.lb.dropping = false) :
    (sys.perform world peers (.sendpipeTo p f observer)).Consistent := by
  obtain ⟨hsends, hfirst⟩ :=
    State.sendpipeTo_sends world p f observer h.keys
  rw [perform]
  generalize sys.state.sendpipeTo world p f observer = r at hsends hfirst
  obtain ⟨sent, s⟩ := r
  generalize hrc : sent.rc = rc at hsends hfirst
  simp only [hrc]
  cases hsends with
  | refused hqueue hre => exact h.rearranges hqueue hre
  | sent q lb htarget hre hlb hqueue =>
    have hmore := hfirst (by simp)
    have hnone := h.pin_none (.inl hmore)
    rw [hmore] at htarget
    have hempty := h.pending_nil hnone htarget
    rw [hearFirst]
    split
    case isTrue hf =>
      refine h.written htarget (fun q hq _ => h.pending_nil hnone hq) hre
        hlb hqueue (fun r hr => hr) (fun _ => ⟨hmeets hf, ?_⟩)
        (fun hl => ?_)
      · rw [hempty, List.nil_append]
      · simp [hf] at hl
    case isFalse hf =>
      refine h.written htarget (fun q hq _ => h.pending_nil hnone hq) hre
        hlb hqueue (fun r hr => List.mem_append_left _ hr)
        (fun hl => absurd hl hf) (fun _ => ⟨?_, h.closed hmore⟩)
      rw [hempty]
      simp
  | aborted q hpin =>
    have hmore := hfirst (by simp)
    simp [h.pin_none (.inl hmore)] at hpin

theorem Consistent.attach (h : sys.Consistent) {p : P} (hp : p ∉ sys.state.lb.pipes) (w : UInt32) :
    (sys.perform world peers (.attach p w)).Consistent := by
  obtain ⟨hperm, hmore, hdrop, hpin, hkeys, horder⟩ :=
    sys.state.lb.attach_spec p w
  have hmem : ∀ {q}, q ∈ (sys.state.lb.attach p w).pipes ↔ q ∈ sys.state.lb.pipes ∨ q = p := by
    intro q
    rw [hperm.mem_iff, List.mem_append, List.mem_singleton]
  have hother : ∀ {q}, q ≠ p → (sys.state.setQueue p Queue.empty).queue q = sys.state.queue q := by
    intro q hqp
    simp [State.setQueue, hqp]
  have hself : (sys.state.setQueue p Queue.empty).queue p = Queue.empty := by
    simp [State.setQueue]
  rw [perform]
  constructor
  · exact hperm.nodup_iff.mpr (List.nodup_append_comm.mp (List.nodup_cons.mpr ⟨hp, h.nodup⟩))
  · intro q hq
    rcases hkeys q hq with rfl | hq
    · exact hmem.mpr (.inr rfl)
    · exact hmem.mpr (.inl (h.keys q hq))
  · exact horder
  · intro q hq r hr
    by_cases hqp : q = p
    · subst hqp
      rw [hself] at hr
      exact absurd hr (by simp [Queue.empty])
    · rw [hother hqp] at hr
      exact h.records q ((hmem.mp hq).resolve_right hqp) r hr
  · intro q hq hne
    by_cases hqp : q = p
    · subst hqp
      rw [hself] at hne
      exact absurd rfl hne
    · rw [hother hqp] at hne
      exact hpin.trans (h.pending q ((hmem.mp hq).resolve_right hqp) hne)
  · intro q hq
    obtain ⟨hm, hd, hmemq, hcurrent⟩ := h.pinned q (hpin.symm.trans hq)
    refine ⟨hmore.trans hm, hdrop.trans hd, hmem.mpr (.inl hmemq), ?_⟩
    have hqp : q ≠ p := fun hqp => hp (hqp ▸ hmemq)
    rw [hother hqp]
    exact hcurrent
  · intro hm
    rw [hdrop, hpin]
    exact h.opened (hmore.symm.trans hm)
  · intro hm hd
    exact h.closed (hmore.symm.trans hm) (hdrop.symm.trans hd)

theorem Consistent.pipeTerminated (h : sys.Consistent) {p : P}
    (hmeets : sys.Meets (.pipeTerminated p)) :
    (sys.perform world peers (.pipeTerminated p)).Consistent := by
  rw [perform]
  by_cases hp : p ∈ sys.state.lb.pipes
  · obtain ⟨hnodup, hmem, hkeys, horder, hmore, hdrop, hpin⟩ :=
      Lb.pipeTerminated_spec hp h.nodup
    constructor
    · exact hnodup
    · intro q hq
      obtain ⟨hq, hqp⟩ := hkeys q hq
      exact (hmem q).mpr ⟨h.keys q hq, hqp⟩
    · exact horder
    · exact fun q hq => h.records q ((hmem q).mp hq).1
    · intro q hq hne
      obtain ⟨hq, hqp⟩ := (hmem q).mp hq
      have hpinned := h.pending q hq hne
      rw [hpin, if_neg]
      · exact hpinned
      · rintro ⟨hp', -⟩
        exact hqp (Option.some.inj (hpinned.symm.trans hp'))
    · intro q hq
      rw [hpin] at hq
      split at hq
      case isTrue => exact absurd hq (by simp)
      case isFalse hne =>
        obtain ⟨hm, hd, hmemq, hcurrent⟩ := h.pinned q hq
        have hqp : q ≠ p := by
          rintro rfl
          exact hne ⟨hq, hm⟩
        have hposition : ¬sys.state.lb.index p = sys.state.lb.current := by
          intro hi
          rcases hmeets hm hi with hp' | hd'
          · exact hqp (Option.some.inj (hq.symm.trans hp'))
          · simp [hd] at hd'
        have hne' : ¬sys.state.lb.weightedMultipartPipe = some p :=
          fun hp' => hne ⟨hp', hm⟩
        refine ⟨hmore.trans hm, ?_, (hmem q).mpr ⟨hmemq, hqp⟩, hcurrent⟩
        rw [hdrop]
        simp [hd, hposition, hne']
    · intro hm
      have hm' : sys.state.lb.more = true := hmore.symm.trans hm
      rw [hdrop, hpin]
      by_cases hpinned : sys.state.lb.weightedMultipartPipe = some p
      · left
        simp [hm', hpinned]
      · rw [if_neg fun hc => hpinned hc.1]
        rcases h.opened hm' with hd | hsome
        · left
          simp [hd]
        · exact .inr hsome
    · intro hm hd
      rw [hdrop] at hd
      have hm' : sys.state.lb.more = false := hmore.symm.trans hm
      simp only [Bool.or_eq_false_iff] at hd
      exact h.closed hm' hd.1
  · have hsame : sys.state.lb.pipeTerminated p = sys.state.lb := by
      rw [Lb.pipeTerminated, if_pos hp]
    rw [hsame]
    exact h

theorem Consistent.setWeight (h : sys.Consistent) (p : P) (w : UInt32) :
    (sys.perform world peers (.setWeight p w)).Consistent := by
  rw [perform]
  simp only [State.setWeight]
  split
  · exact h
  case h_2 e he =>
    have hentry := (Lb.Rearranges.setEntry (Lb.mem_keys_of_entry he)
      { e with weight := min w maxPeerWeight }).trans (Lb.Rearranges.markSelectionDirty _)
    split
    · exact h
    split
    · exact h.rearranges rfl (hentry.trans (Lb.Rearranges.deactivateAt _ _))
    split
    · exact h.rearranges rfl hentry
    split
    · exact h.rearranges rfl (hentry.trans (Lb.Rearranges.activateAt _ _))
    · exact h.rearranges rfl hentry

theorem Consistent.rollback (h : sys.Consistent) :
    (sys.perform world peers .rollback).Consistent := by
  have hlb : sys.state.rollback.lb = { sys.state.lb with
      more := false
      dropping := false
      weightedMultipartPipe := none } := rfl
  have hqueue : ∀ q, (sys.state.rollback.queue q).records = (sys.state.queue q).records ∧
      (q ∈ sys.state.lb.pipes → (sys.state.rollback.queue q).pending = []) := by
    intro q
    rcases sys.state.rollback_queue with ⟨hq, hnone⟩ | ⟨p, hq, hpin⟩
    · rw [hq]
      exact ⟨rfl, h.pending_nil hnone⟩
    · rw [hq, State.rollbackPipe_records, State.rollbackPipe_pending]
      refine ⟨rfl, fun hmem => ?_⟩
      split
      · rfl
      case isFalse hqp =>
        by_contra hne
        exact hqp (hpin q (h.pending q hmem hne))
  rw [perform]
  constructor
  · rw [hlb]
    exact h.nodup
  · rw [hlb]
    exact h.keys
  · rw [hlb]
    exact h.order
  · intro q hq r hr
    rw [hlb] at hq
    rw [(hqueue q).1] at hr
    exact h.records q hq r hr
  · intro q hq hne
    rw [hlb] at hq
    exact absurd ((hqueue q).2 hq) hne
  · intro q hq
    simp [hlb] at hq
  · intro hm
    simp [hlb] at hm
  · exact fun _ _ => rfl

theorem Consistent.step (h : sys.Consistent) {op : Op P α}
    {sys' : System σ P α} (hstep : sys.step world peers op = some sys')
    (hmeets : sys.Meets op) : sys'.Consistent := by
  rw [System.step] at hstep
  split at hstep
  case isFalse => exact absurd hstep (by simp)
  case isTrue hallows =>
    obtain rfl := Option.some.inj hstep
    cases op with
    | attach p w => exact h.attach world peers hallows w
    | activated p => exact h.rearranges rfl (Lb.Rearranges.activated _ p)
    | setWeight p w => exact h.setWeight world peers p w
    | sendpipe f observer => exact h.sendpipe world peers f observer
    | sendpipeTo p f observer =>
      exact h.sendpipeTo world peers p observer hmeets
    | pipeTerminated p => exact h.pipeTerminated world peers hmeets
    | rollback => exact h.rollback world peers
    | selectConnectedPipe filter =>
      exact h.rearranges rfl (Lb.Rearranges.selectConnectedPipe peers _ filter)
    | hasOut =>
      have hframe := State.hasOut_induction (s := sys.state) world
        (C := fun s => s.queue = sys.state.queue ∧ sys.state.lb.Rearranges s.lb)
        (fun _ _ hC => hC) (fun s i hC => ⟨hC.1, hC.2.trans (Lb.Rearranges.deactivateAt s.lb i)⟩)
        ⟨rfl, Lb.Rearranges.refl _⟩
      exact h.rearranges hframe.1 hframe.2

theorem Consistent.run (h : sys.Consistent) {ops : List (Op P α)}
    {sys' : System σ P α} (hrun : sys.run world peers ops = some sys')
    (hmeets : sys.AllMeet world peers ops) : sys'.Consistent := by
  induction ops generalizing sys with
  | nil => exact Option.some.inj hrun ▸ h
  | cons op ops ih =>
    obtain ⟨sys₁, hstep, hrest⟩ := Option.bind_eq_some_iff.mp hrun
    exact ih (h.step world peers hstep hmeets.1) hrest (hmeets.2 sys₁ hstep)

/-- Messages are atomic in every state that a run reaches by calls that meet the
condition, whatever the weights and whatever the pipes refuse. -/
theorem run_atomic (w : σ) {ops : List (Op P α)} {sys : System σ P α}
    (hrun : (init w).run world peers ops = some sys)
    (hmeets : (init w).AllMeet world peers ops) : sys.Atomic :=
  ((consistent_init w).run world peers hrun hmeets).atomic

end System

/-- Pipes that take every part. -/
def openWorld : World Unit Bool ℕ where
  write _ _ _ _ := (.done, ())
  checkWrite _ _ := (true, ())
  checkWriteAdmission _ _ := (.ready, ())

def noPeers : Peers Bool where
  routingId _ := []
  endpoint _ := []

namespace System

/-- A message of two parts on one of two pipes, of which the other then
terminates. -/
theorem run_atomic_twoParts : ∃ sys, (init ()).run openWorld noPeers
        [.attach false 100, .attach true 100, .sendpipeTo true ⟨true, 1⟩ false,
          .sendpipe ⟨false, 2⟩ false, .pipeTerminated false] = some sys ∧
      (sys.state.queue true).records = [[⟨true, 1⟩, ⟨false, 2⟩]] ∧ sys.Atomic := by
  have hmeets : (init ()).AllMeet openWorld noPeers
      [.attach false 100, .attach true 100, .sendpipeTo true ⟨true, 1⟩ false,
        .sendpipe ⟨false, 2⟩ false, .pipeTerminated false] := by decide
  exact ⟨_, rfl, by decide, run_atomic openWorld noPeers () rfl hmeets⟩

/-- The message `1, 2` is pinned to one pipe when the other one, at the head of
the array, terminates. Its second part is dropped, its first part stays on the
live pipe, and the next message `3` is appended to it. -/
theorem not_atomic_otherTerminated : ∃ sys, (init ()).run openWorld noPeers
        [.attach false 100, .attach true 100, .sendpipeTo true ⟨true, 1⟩ false,
          .pipeTerminated false, .sendpipe ⟨false, 2⟩ false,
          .sendpipe ⟨false, 3⟩ false] = some sys ∧ true ∈ sys.state.lb.pipes ∧
      (sys.state.queue true).records = [[⟨true, 1⟩, ⟨false, 3⟩]] ∧
      sys.offered = [[⟨true, 1⟩, ⟨false, 2⟩], [⟨false, 3⟩]] ∧ ¬sys.Atomic := by
  refine ⟨_, rfl, by decide, by decide, by decide, ?_⟩
  intro h
  have hrecord := h.1 true (by decide) [⟨true, 1⟩, ⟨false, 3⟩] (by decide)
  exact absurd hrecord (by decide)

/-- The second part of the message `1, 2, …` is refused, so its rest is to be
dropped. The message `3, 4` is directed to the pipe before the rest has come: its
first part is written and its second part is dropped. -/
theorem not_atomic_whileDropping : ∃ sys, (init 0).run
        { write := fun n _ _ _ =>
            (if n = 1 then .refused .hwmFull false else .done, n + 1)
          checkWrite := fun n _ => (true, n)
          checkWriteAdmission := fun n _ => (.ready, n) } noPeers
        [.attach true 100, .sendpipe ⟨true, 1⟩ false,
          .sendpipe ⟨true, 2⟩ false, .sendpipeTo true ⟨true, 3⟩ false,
          .sendpipe ⟨false, 4⟩ false] = some sys ∧
      (sys.state.queue true).pending = [⟨true, 3⟩] ∧ sys.current = [] ∧
      ¬sys.Atomic := by
  refine ⟨_, rfl, by decide, by decide, ?_⟩
  intro h
  exact absurd (h.2 true (by decide) (by decide)).1 (by decide)

end System

end Zlink.LoadBalancer
