import Zlink.FairQueue.Queue
import Zlink.Lib.Trace

/-!
# Records are read whole

`Sound` is what every operation of the fair queue keeps: where its counters stand, which
pipes are kept aside, and what is published about each pipe. In every run a reader that is
inside a record gets its next frame from the pipe of that record, unless the admission of
this pipe turned it away; and when the pipe is gone, the next receive call reports it.
-/

namespace Zlink.FairQueue

open SwapArray

def Item.part {α : Type} : Item α → Option (LoadBalancer.Part α)
  | .frame part _ => some part
  | _ => none

/-- The parts that stand in a pipe. -/
def Inlet.parts {α : Type} (i : Inlet α) : List (LoadBalancer.Part α) :=
  i.items.filterMap Item.part

namespace Fq

variable {P α : Type} [DecidableEq P]

structure Sound (fq : Fq P α) : Prop where
  nodup : fq.pipes.Nodup
  active_le : fq.active ≤ fq.pipes.length
  current : fq.current < fq.active ∨ fq.current = 0 ∧ fq.active = 0
  more : fq.more = true → fq.current < fq.active
  blocked : fq.recordAdmissionBlocked.Nodup
  blockedSet : ∀ p, p ∈ fq.recordAdmissionBlockedSet ↔ p ∈ fq.recordAdmissionBlocked
  aside : ∀ p ∈ fq.recordAdmissionBlocked, p ∈ fq.pipes ∧ fq.active ≤ fq.pipes.idxOf p
  published : fq.publishReceiveActivity = true → ∀ p ∈ fq.pipes,
    fq.publicReceiveActiveCached p = decide (fq.pipes.idxOf p < fq.active)

/-- The reader is inside a record of the pipe. -/
structure Pinned (fq : Fq P α) (q : P) : Prop where
  more : fq.more = true
  mem : q ∈ fq.pipes
  place : fq.pipes.idxOf q = fq.current

/-- How many pipes the queue comes to before this one. -/
def waits (fq : Fq P α) (p : P) : ℕ :=
  if fq.current ≤ fq.pipes.idxOf p then fq.pipes.idxOf p - fq.current
  else fq.pipes.idxOf p + fq.active - fq.current

structure Front (fq : Fq P α) (p : P) : Prop where
  mem : p ∈ fq.pipes
  lt : fq.pipes.idxOf p < fq.active

/-- A move keeps the queue in order, a report that is due, what stands in the pipes, and every
record that is being read but for those of the pipes that are gone. -/
structure Moves (gone : P → Prop) (fq fq' : Fq P α) : Prop where
  sound : fq'.Sound
  pin : ∀ q, ¬ gone q → fq.Pinned q → fq'.Pinned q
  abort : fq.multipartAbortPending = true → fq'.multipartAbortPending = true
  parts : ∀ q, (fq'.inlet q).parts = (fq.inlet q).parts

variable {fq fq' mid : Fq P α} {p q : P} {gone : P → Prop}

/-- The pipe goes, and if its record is being read, the loss is remembered. -/
structure Leaves (p : P) (fq fq' : Fq P α) : Prop extends Moves (· = p) fq fq' where
  lost : fq.Pinned p → fq'.multipartAbortPending = true

theorem Moves.trans (h : Moves gone fq mid) (h' : Moves gone mid fq') : Moves gone fq fq' :=
  ⟨h'.sound, fun q hq hpin => h'.pin q hq (h.pin q hq hpin), fun ha => h'.abort (h.abort ha),
    fun q => (h'.parts q).trans (h.parts q)⟩

theorem Moves.refl (h : fq.Sound) : Moves gone fq fq :=
  ⟨h, fun _ _ hq => hq, id, fun _ => rfl⟩

/-- Up to `n` pipes join the front, and an active pipe may have to wait for these as well. -/
structure Grows (n : ℕ) (fq fq' : Fq P α) : Prop extends Moves (fun _ => False) fq fq' where
  front : ∀ p, fq.Front p → fq'.Front p ∧ fq'.waits p ≤ fq.waits p + n

theorem Grows.refl (h : fq.Sound) (n : ℕ) : Grows n fq fq :=
  ⟨.refl h, fun _ hp => ⟨hp, Nat.le_add_right _ n⟩⟩

theorem Grows.trans {n m : ℕ} (h : Grows n fq mid) (h' : Grows m mid fq') :
    Grows (n + m) fq fq' := by
  refine ⟨h.toMoves.trans h'.toMoves, fun p hp => ?_⟩
  obtain ⟨hmid, hle⟩ := h.front p hp
  obtain ⟨hp', hle'⟩ := h'.front p hmid
  exact ⟨hp', by omega⟩

theorem sound_create (publish : Bool) (cached : P → Bool) (inlet : P → Inlet α) :
    (create publish cached inlet).Sound where
  nodup := List.nodup_nil
  active_le := le_rfl
  current := .inr ⟨rfl, rfl⟩
  more := nofun
  blocked := List.nodup_nil
  blockedSet := fun p => by simp [create]
  aside := nofun
  published := nofun

theorem Sound.normalizeState_eq (h : fq.Sound) : fq.normalizeState = fq := by
  have hmin : min fq.active fq.pipes.length = fq.active := min_eq_left h.active_le
  rw [normalizeState, hmin]
  rcases h.current with hlt | ⟨hcurrent, hactive⟩
  · rw [if_neg (by omega), if_neg (by omega)]
  · have hmore : fq.more = false :=
      Bool.eq_false_iff.mpr fun hmore => absurd (h.more hmore) (by omega)
    rw [if_pos hactive]
    cases fq
    simp_all

theorem Sound.getElem?_eq_some (h : fq.Sound) {i : ℕ} :
    fq.pipes[i]? = some p ↔ p ∈ fq.pipes ∧ fq.pipes.idxOf p = i := by
  constructor
  · intro hget
    obtain ⟨hi, rfl⟩ := List.getElem?_eq_some_iff.mp hget
    exact ⟨List.getElem_mem hi, h.nodup.idxOf_getElem i hi⟩
  · rintro ⟨hp, rfl⟩
    rw [List.getElem?_eq_getElem (List.idxOf_lt_length_of_mem hp), List.getElem_idxOf]

theorem Sound.current_lt (h : fq.Sound) (hpos : 0 < fq.active) : fq.current < fq.active :=
  h.current.resolve_right fun hzero => by omega

theorem Sound.exists_current (h : fq.Sound) (hlt : fq.current < fq.active) :
    ∃ c, c ∈ fq.pipes ∧ fq.pipes.idxOf c = fq.current ∧ fq.pipes[fq.current]? = some c := by
  have hlength := Nat.lt_of_lt_of_le hlt h.active_le
  have hget := List.getElem?_eq_getElem hlength
  obtain ⟨hmem, hplace⟩ := h.getElem?_eq_some.mp hget
  exact ⟨_, hmem, hplace, hget⟩

theorem Pinned.lt (hq : fq.Pinned q) (h : fq.Sound) : fq.pipes.idxOf q < fq.active :=
  hq.place ▸ h.more hq.more

theorem Pinned.place_ne (hq : fq.Pinned q) (hne : q ≠ p) : fq.current ≠ fq.pipes.idxOf p :=
  fun heq => hne ((List.idxOf_inj hq.mem).mp (hq.place.trans heq))

/-- Where the queue reads on when the pipe at a place has left the front. -/
def currentWithout (fq : Fq P α) (i : ℕ) : ℕ :=
  if fq.current + 1 = fq.active then (if fq.more ∧ fq.current ≠ i then i else 0)
  else fq.current

theorem Sound.currentWithout_lt (h : fq.Sound) {i : ℕ} (hi : i < fq.active)
    (hmore : fq.more = true ∧ fq.current ≠ i) : fq.currentWithout i < fq.active - 1 := by
  have hcurrent := h.more hmore.1
  rw [currentWithout, if_pos hmore]
  split <;> omega

theorem Pinned.place_leave (hq : fq.Pinned q) (h : fq.Sound) (hne : q ≠ p)
    (hlt : fq.pipes.idxOf p < fq.active) :
    (leave fq.pipes p fq.active).1.idxOf q = fq.currentWithout (fq.pipes.idxOf p) := by
  have hactive := h.active_le
  have hcurrent := hq.place_ne hne
  have hr := rearranged_swap h.nodup (i := fq.pipes.idxOf p) (j := fq.active - 1)
    (by omega) (by omega)
  have hpin : fq.more = true ∧ fq.current ≠ fq.pipes.idxOf p := ⟨hq.more, hcurrent⟩
  rw [leave, if_pos hlt, hr.place q hq.mem, hq.place, exchanged, if_neg hcurrent, currentWithout,
    if_pos hpin]
  by_cases hlast : fq.current + 1 = fq.active
  · rw [if_pos hlast, if_pos (by omega)]
  · rw [if_neg hlast, if_neg (by omega)]

theorem Sound.deactivateAt_eq (h : fq.Sound) (hp : p ∈ fq.pipes)
    (hlt : fq.pipes.idxOf p < fq.active) : fq.deactivateAt p (fq.pipes.idxOf p) = { fq with
        pipes := (leave fq.pipes p fq.active).1
        active := fq.active - 1
        current := fq.currentWithout (fq.pipes.idxOf p)
        more := fq.more && fq.current ≠ fq.pipes.idxOf p
        multipartAbortPending := fq.multipartAbortPending ||
          fq.more && fq.current = fq.pipes.idxOf p }.publishPipeReceiveActivity p false := by
  have hcurrent := h.current_lt (Nat.zero_lt_of_lt hlt)
  cases hmore : fq.more with
  | false =>
    simp only [deactivateAt, hmore, preserveCurrentPipe, currentWithout, leave, if_pos hlt,
      publishPipeReceiveActivity, Bool.false_and, Bool.or_false, Bool.false_eq_true, if_false,
      false_and, reduceCtorEq]
    by_cases hlast : fq.current + 1 = fq.active
    · rw [if_pos (by omega), if_pos hlast]
    · rw [if_neg (by omega), if_neg hlast]
  | true =>
    obtain ⟨c, hc, hplace, hget⟩ := h.exists_current hcurrent
    by_cases hcp : c = p
    · subst hcp
      simp only [deactivateAt, hmore, hget, preserveCurrentPipe, currentWithout, leave,
        publishPipeReceiveActivity, if_true, hplace, ne_eq, not_true_eq_false, and_false,
        if_false, decide_false, decide_true, Bool.and_false, Bool.and_true, Bool.or_true,
        if_pos hcurrent]
      by_cases hlast : fq.current + 1 = fq.active
      · rw [if_pos (by omega), if_pos hlast]
      · rw [if_neg (by omega), if_neg hlast]
    · have hpin : fq.Pinned c := ⟨hmore, hc, hplace⟩
      have hne := hpin.place_ne hcp
      have hnew := hpin.place_leave h hcp hlt
      have hbelow := Nat.not_le.mpr (h.currentWithout_lt hlt ⟨hmore, hne⟩)
      rw [leave, if_pos hlt] at hnew ⊢
      have hmem : c ∈ swap fq.pipes (fq.pipes.idxOf p) (fq.active - 1) :=
        (swap_perm _ _ _).mem_iff.mpr hc
      have hinj : ¬ some c = some p := fun heq => hcp (Option.some.inj heq)
      simp only [deactivateAt, hmore, hget, preserveCurrentPipe, publishPipeReceiveActivity,
        if_true, if_neg hinj, if_neg hcp, tryGetPipeIndex, if_pos hmem, hnew, if_neg hbelow, hne,
        ne_eq, not_false_eq_true, decide_true, decide_false, Bool.and_true, Bool.and_false,
        Bool.or_false]

theorem Sound.left (h : fq.Sound) (hp : p ∈ fq.pipes) (hlt : fq.pipes.idxOf p < fq.active) :
    Left fq.pipes (leave fq.pipes p fq.active).1 p fq.active (fq.active - 1) := by
  have hleft := leave_spec h.nodup hp h.active_le
  rwa [show (leave fq.pipes p fq.active).2 = fq.active - 1 by rw [leave, if_pos hlt]] at hleft

theorem update_eq_decide {f : P → Bool} {b : Bool} {x : P} {Q : Prop} [Decidable Q]
    (hsame : x = p → b = decide Q) (hother : x ≠ p → f x = decide Q) :
    Function.update f p b x = decide Q := by
  by_cases hx : x = p
  · rw [hx, Function.update_self, hsame hx]
  · rw [Function.update_of_ne hx, hother hx]

theorem Sound.deactivateAt (h : fq.Sound) (hp : p ∈ fq.pipes) (hlt : fq.pipes.idxOf p < fq.active) :
    (fq.deactivateAt p (fq.pipes.idxOf p)).Sound := by
  have hl := h.left hp hlt
  have hactive := h.active_le
  rw [h.deactivateAt_eq hp hlt]
  refine
    { nodup := hl.perm.nodup_iff.mpr h.nodup
      active_le := ?_
      current := ?_
      more := ?_
      blocked := h.blocked
      blockedSet := h.blockedSet
      aside := ?_
      published := ?_ }
  · exact (Nat.sub_le _ _).trans (hactive.trans_eq hl.perm.length_eq.symm)
  · show fq.currentWithout (fq.pipes.idxOf p) < fq.active - 1 ∨
      fq.currentWithout (fq.pipes.idxOf p) = 0 ∧ fq.active - 1 = 0
    have hcurrent := h.current
    rw [currentWithout]
    split_ifs <;> omega
  · intro hmore
    have hpin := (Bool.and_eq_true _ _).mp hmore
    exact h.currentWithout_lt hlt ⟨hpin.1, of_decide_eq_true hpin.2⟩
  · intro x hx
    obtain ⟨hmem, haside⟩ := h.aside x hx
    have hown := hl.own x hmem
    exact ⟨hl.perm.mem_iff.mpr hmem, Nat.not_lt.mp fun hx => Nat.not_lt.mpr haside (hown.mp hx).1⟩
  · intro hpublish x hx
    have hx := hl.perm.mem_iff.mp hx
    have hown := hl.own x hx
    refine (congrFun (if_pos hpublish) x).trans (update_eq_decide (fun heq => ?_) (fun hne => ?_))
    · subst heq
      exact (decide_eq_false (Nat.not_lt.mpr hl.out)).symm
    · rw [h.published hpublish x hx, decide_eq_decide]
      exact ⟨fun hlt => hown.mpr ⟨hlt, hne⟩, fun hlt => (hown.mp hlt).1⟩

theorem Pinned.deactivateAt (hq : fq.Pinned q) (h : fq.Sound) (hne : q ≠ p)
    (hp : p ∈ fq.pipes) (hlt : fq.pipes.idxOf p < fq.active) :
    (fq.deactivateAt p (fq.pipes.idxOf p)).Pinned q := by
  rw [h.deactivateAt_eq hp hlt]
  refine ⟨?_, (h.left hp hlt).perm.mem_iff.mpr hq.mem, hq.place_leave h hne hlt⟩
  show (fq.more && decide _) = true
  rw [hq.more, decide_eq_true (hq.place_ne hne)]
  rfl

/-- A row of the pipes in which one that stands behind the front may join it. -/
structure Joins (p : P) (fq : Fq P α) (l : List P) : Prop where
  nodup : l.Nodup
  mem : p ∈ l
  out : fq.active ≤ l.idxOf p
  old : ∀ x ∈ fq.pipes, x ∈ l ∧ l.idxOf x = fq.pipes.idxOf x
  new : ∀ x ∈ l, x ≠ p → x ∈ fq.pipes

def joined (fq : Fq P α) (l : List P) (p : P) : Fq P α :=
  { fq with
    pipes := swap l (l.idxOf p) fq.active
    active := fq.active + 1 }.publishPipeReceiveActivity p true

variable {l : List P}

theorem Joins.lt (hl : Joins p fq l) : fq.active < l.length :=
  Nat.lt_of_le_of_lt hl.out (List.idxOf_lt_length_of_mem hl.mem)

theorem Joins.place (hl : Joins p fq l) (hq : q ∈ fq.pipes) (hlt : fq.pipes.idxOf q < fq.active) :
    q ∈ (fq.joined l p).pipes ∧ (fq.joined l p).pipes.idxOf q = fq.pipes.idxOf q := by
  obtain ⟨hql, hplace⟩ := hl.old q hq
  have hout := hl.out
  have hr := rearranged_swap hl.nodup (List.idxOf_lt_length_of_mem hl.mem) hl.lt
  refine ⟨hr.perm.mem_iff.mpr hql, ?_⟩
  show (swap l (l.idxOf p) fq.active).idxOf q = fq.pipes.idxOf q
  rw [hr.place q hql, hplace, exchanged, if_neg (by omega), if_neg (by omega)]

theorem Sound.joined (h : fq.Sound) (hl : Joins p fq l) (hfree : p ∉ fq.recordAdmissionBlocked) :
    (fq.joined l p).Sound := by
  have hj := joined_swap hl.nodup hl.mem hl.out
  refine
    { nodup := hj.perm.nodup_iff.mpr hl.nodup
      active_le := hl.lt.trans_eq hj.perm.length_eq.symm
      current := ?_
      more := fun hmore => Nat.lt_succ_of_lt (h.more hmore)
      blocked := h.blocked
      blockedSet := h.blockedSet
      aside := ?_
      published := ?_ }
  · show fq.current < fq.active + 1 ∨ fq.current = 0 ∧ fq.active + 1 = 0
    have hcurrent := h.current
    omega
  · intro x hx
    obtain ⟨hmem, haside⟩ := h.aside x hx
    obtain ⟨hxl, hplace⟩ := hl.old x hmem
    refine ⟨hj.perm.mem_iff.mpr hxl, Nat.not_lt.mp fun hlt => ?_⟩
    rcases (hj.own x hxl).mp hlt with hlt | heq
    · omega
    · exact hfree (heq ▸ hx)
  · intro hpublish x hx
    have hxl := hj.perm.mem_iff.mp hx
    have hown := hj.own x hxl
    refine (congrFun (if_pos hpublish) x).trans (update_eq_decide (fun heq => ?_) (fun hne => ?_))
    · exact (decide_eq_true (hown.mpr (.inr heq))).symm
    · have hxp := hl.new x hxl hne
      rw [h.published hpublish x hxp, decide_eq_decide, ← (hl.old x hxp).2]
      exact ⟨fun hlt => hown.mpr (.inl hlt), fun hlt => (hown.mp hlt).resolve_right hne⟩

theorem Grows.joined (h : fq.Sound) (hl : Joins p fq l) (hfree : p ∉ fq.recordAdmissionBlocked) :
    Grows 1 fq (fq.joined l p) := by
  refine ⟨⟨h.joined hl hfree, fun q _ hq => ?_, id, fun _ => rfl⟩, fun q hq => ?_⟩
  · obtain ⟨hmem, hplace⟩ := hl.place hq.mem (hq.lt h)
    exact ⟨hq.more, hmem, hplace.trans hq.place⟩
  · obtain ⟨hmem, hplace⟩ := hl.place hq.mem hq.lt
    refine ⟨⟨hmem, hplace.trans_lt (Nat.lt_succ_of_lt hq.lt)⟩, ?_⟩
    show (if fq.current ≤ (fq.joined l p).pipes.idxOf q then
        (fq.joined l p).pipes.idxOf q - fq.current
      else (fq.joined l p).pipes.idxOf q + (fq.active + 1) - fq.current) ≤ fq.waits q + 1
    have hcurrent := h.current
    rw [hplace, waits]
    split_ifs <;> omega

theorem Sound.publish (h : fq.Sound) {b : Bool}
    (hb : p ∈ fq.pipes → b = decide (fq.pipes.idxOf p < fq.active)) :
    (fq.publishPipeReceiveActivity p b).Sound :=
  { h with
    published := by
      intro hpublish x hx
      refine (congrFun (if_pos hpublish) x).trans
        (update_eq_decide (fun heq => ?_) (fun _ => h.published hpublish x hx))
      subst heq
      exact hb hx }

theorem Sound.setMore (h : fq.Sound) : ({ fq with more := false } : Fq P α).Sound :=
  { h with more := nofun }

theorem Sound.setInlet (h : fq.Sound) (i : Inlet α) : (fq.setInlet p i).Sound :=
  { h with }

theorem parts_setInlet {i : Inlet α} (hi : i.parts = (fq.inlet p).parts) (q : P) :
    ((fq.setInlet p i).inlet q).parts = (fq.inlet q).parts := by
  show (Function.update fq.inlet p i q).parts = _
  by_cases hq : q = p
  · rw [hq, Function.update_self, hi]
  · rw [Function.update_of_ne hq]

theorem Moves.setInlet (h : fq.Sound) {i : Inlet α} (hi : i.parts = (fq.inlet p).parts) :
    Moves gone fq (fq.setInlet p i) :=
  ⟨h.setInlet i, fun _ _ hq => ⟨hq.more, hq.mem, hq.place⟩, id, parts_setInlet hi⟩

theorem Inlet.parts_checkRead (i : Inlet α) : i.checkRead.1.parts = i.parts := by
  obtain ⟨live, items⟩ := i
  cases live with
  | false => rfl
  | true =>
    cases items with
    | nil => rfl
    | cons item rest => cases item <;> rfl

theorem Sound.unblock (h : fq.Sound) (p : P) : (fq.unblock p).Sound := by
  have hsub : ∀ x, x ∈ (fq.unblock p).recordAdmissionBlocked ↔
      x ∈ fq.recordAdmissionBlocked ∧ x ≠ p := by
    intro x
    rw [Fq.unblock]
    by_cases hp : p ∈ fq.recordAdmissionBlockedSet
    · simp [hp]
    · simp only [if_neg hp]
      rw [h.blockedSet] at hp
      exact ⟨fun hx => ⟨hx, fun heq => hp (heq ▸ hx)⟩, fun hx => hx.1⟩
  refine
    { h with
      blocked := ?_
      blockedSet := fun x => ?_
      aside := fun x hx => h.aside x ((hsub x).mp hx).1 }
  · rw [Fq.unblock]
    split
    · exact h.blocked.filter _
    · exact h.blocked
  · rw [hsub, ← h.blockedSet]
    exact Finset.mem_erase.trans and_comm

theorem Moves.unblock (h : fq.Sound) (p : P) : Moves gone fq (fq.unblock p) :=
  ⟨h.unblock p, fun _ _ hq => ⟨hq.more, hq.mem, hq.place⟩, id, fun _ => rfl⟩

theorem Moves.leaveRecord (h : fq.Sound) (hplace : fq.pipes.idxOf p = fq.current) :
    Moves (· = p) fq { fq with more := false } :=
  ⟨h.setMore, fun _ hne hq => absurd ((List.idxOf_inj hq.mem).mp (hq.place.trans hplace.symm)) hne,
    id, fun _ => rfl⟩

theorem idxOf_push (hp : p ∉ l) : (l ++ [p]).idxOf p = l.length := by
  rw [List.idxOf_append_of_notMem hp, List.idxOf_cons_self, Nat.add_zero]

theorem Sound.joins_push (h : fq.Sound) (hp : p ∉ fq.pipes) : Joins p fq (fq.pipes ++ [p]) where
  nodup := List.concat_eq_append ▸ h.nodup.concat hp
  mem := List.mem_append_right _ (List.mem_singleton_self p)
  out := h.active_le.trans_eq (idxOf_push hp).symm
  old := fun _ hx => ⟨List.mem_append_left _ hx, List.idxOf_append_of_mem hx⟩
  new := fun _ hx hne => (List.mem_append.mp hx).resolve_right fun hin =>
    hne (List.mem_singleton.mp hin)

theorem Sound.joins_self (h : fq.Sound) (hp : p ∈ fq.pipes) (hout : ¬ fq.pipes.idxOf p < fq.active) :
    Joins p fq fq.pipes where
  nodup := h.nodup
  mem := hp
  out := Nat.not_lt.mp hout
  old := fun _ hx => ⟨hx, rfl⟩
  new := fun _ hx _ => hx

theorem attach_eq (hp : p ∉ fq.pipes) : fq.attach p = fq.joined (fq.pipes ++ [p]) p := by
  rw [attach, Fq.joined, idxOf_push hp, swap_comm]

theorem Grows.attach (h : fq.Sound) (hp : p ∉ fq.pipes) : Grows 1 fq (fq.attach p) := by
  rw [attach_eq hp]
  exact .joined h (h.joins_push hp) fun hin => hp (h.aside p hin).1

theorem Grows.activated (h : fq.Sound) (p : P) : Grows 1 fq (fq.activated p) := by
  rw [Fq.activated, h.normalizeState_eq, tryGetPipeIndex]
  by_cases hp : p ∈ fq.pipes
  · rw [if_pos hp]
    simp only
    split_ifs with hblocked hlt
    · exact .refl h 1
    · exact ⟨⟨h.publish fun _ => (decide_eq_true hlt).symm,
        fun _ _ hq => ⟨hq.more, hq.mem, hq.place⟩, id, fun _ => rfl⟩,
        fun _ hq => ⟨⟨hq.mem, hq.lt⟩, Nat.le_succ _⟩⟩
    · rw [h.blockedSet] at hblocked
      exact .joined h (h.joins_self hp hlt) hblocked
  · rw [if_neg hp]
    exact .refl h 1

def retired (fq : Fq P α) (p : P) : Fq P α :=
  fq.retireAt p (fq.pipes.idxOf p)

theorem Leaves.retired (h : fq.Sound) (hp : p ∈ fq.pipes) : Leaves p fq (fq.retired p) := by
  rw [Fq.retired, retireAt]
  split
  case isTrue hlt =>
    have heq := h.deactivateAt_eq hp hlt
    refine ⟨⟨h.deactivateAt hp hlt, fun q hne hq => hq.deactivateAt h hne hp hlt, ?_,
      fun _ => heq ▸ rfl⟩, fun hq => ?_⟩
    · rw [heq]
      exact fun ha => (Bool.or_eq_true _ _).mpr (.inl ha)
    · rw [heq]
      show (fq.multipartAbortPending || fq.more && decide _) = true
      rw [hq.more, decide_eq_true hq.place.symm, Bool.true_and, Bool.or_true]
  case isFalse hout =>
    exact ⟨⟨h.publish fun _ => (decide_eq_false hout).symm,
      fun _ _ hq => ⟨hq.more, hq.mem, hq.place⟩, id, fun _ => rfl⟩,
      fun hq => absurd (hq.lt h) hout⟩

/-- The rest of the queue behind `retired`. -/
structure Retired (p : P) (fq fq' : Fq P α) : Prop where
  out : fq'.active ≤ fq'.pipes.idxOf p
  perm : fq'.pipes.Perm fq.pipes
  blocked : fq'.recordAdmissionBlocked = fq.recordAdmissionBlocked

theorem Sound.retired (h : fq.Sound) (hp : p ∈ fq.pipes) : Retired p fq (fq.retired p) := by
  rw [Fq.retired, retireAt]
  split
  case isTrue hlt =>
    rw [h.deactivateAt_eq hp hlt]
    exact ⟨(h.left hp hlt).out, (h.left hp hlt).perm, rfl⟩
  case isFalse hout => exact ⟨Nat.not_lt.mp hout, .refl _, rfl⟩

theorem Leaves.deactivate (h : fq.Sound) (p : P) : Leaves p fq (fq.deactivate p) := by
  rw [Fq.deactivate, h.normalizeState_eq, tryGetPipeIndex]
  by_cases hp : p ∈ fq.pipes
  · rw [if_pos hp]
    exact .retired h hp
  · rw [if_neg hp]
    exact ⟨.refl h, fun hq => absurd hq.mem hp⟩

theorem Sound.erase (h : fq.Sound) (hp : p ∈ fq.pipes) (hout : fq.active ≤ fq.pipes.idxOf p)
    (hfree : p ∉ fq.recordAdmissionBlocked) :
    ({ fq with pipes := SwapArray.erase fq.pipes (fq.pipes.idxOf p) } : Fq P α).Sound := by
  have hget := h.getElem?_eq_some.mpr ⟨hp, rfl⟩
  have hlength := length_erase hget
  have hlt := List.idxOf_lt_length_of_mem hp
  have hplace : ∀ x ∈ fq.pipes, x ≠ p →
      ((SwapArray.erase fq.pipes (fq.pipes.idxOf p)).idxOf x < fq.active ↔
        fq.pipes.idxOf x < fq.active) :=
    fun x hx hne => idxOf_erase_lt h.nodup hp hx hne hout
  exact
    { h with
      nodup := nodup_erase h.nodup hget
      active_le := show fq.active ≤ (SwapArray.erase fq.pipes _).length by omega
      aside := by
        intro x hx
        obtain ⟨hmem, haside⟩ := h.aside x hx
        have hne : x ≠ p := fun heq => hfree (heq ▸ hx)
        exact ⟨(mem_erase h.nodup hget).mpr ⟨hmem, hne⟩,
          Nat.not_lt.mp fun hlt => Nat.not_lt.mpr haside ((hplace x hmem hne).mp hlt)⟩
      published := by
        intro hpublish x hx
        obtain ⟨hmem, hne⟩ := (mem_erase h.nodup hget).mp hx
        exact (h.published hpublish x hmem).trans (decide_eq_decide.mpr (hplace x hmem hne).symm) }

theorem Moves.erase (h : fq.Sound) (hp : p ∈ fq.pipes) (hout : fq.active ≤ fq.pipes.idxOf p)
    (hfree : p ∉ fq.recordAdmissionBlocked) :
    Moves (· = p) fq { fq with pipes := SwapArray.erase fq.pipes (fq.pipes.idxOf p) } := by
  refine ⟨h.erase hp hout hfree, fun q hne hq => ?_, id, fun _ => rfl⟩
  have hget := h.getElem?_eq_some.mpr ⟨hp, rfl⟩
  have hlt := List.idxOf_lt_length_of_mem hp
  have hbelow := hq.lt h
  refine ⟨hq.more, (mem_erase h.nodup hget).mpr ⟨hq.mem, hne⟩, ?_⟩
  show (SwapArray.erase fq.pipes _).idxOf q = fq.current
  rw [idxOf_erase h.nodup hget hq.mem hne, if_neg (by omega), hq.place]

theorem Sound.setCurrent (h : fq.Sound) {c : ℕ} (hc : c < fq.active) :
    ({ fq with current := c } : Fq P α).Sound :=
  { h with
    current := .inl hc
    more := fun _ => hc }

theorem preserveCurrentPipe_eq_some {fq' : Fq P α} {c : Option P}
    (h : fq.preserveCurrentPipe c p = some fq') :
    ∃ i, i < fq.active ∧ fq' = { fq with current := i } := by
  unfold preserveCurrentPipe at h
  split at h
  · cases h
  · split_ifs at h
    split at h
    · cases h
    case h_2 i _ =>
      split_ifs at h with hout
      exact ⟨i, Nat.not_le.mp hout, (Option.some.inj h).symm⟩

theorem Pinned.preserve (hq : fq.Pinned q) (h : fq.Sound) (hne : q ≠ p) :
    fq.preserveCurrentPipe (some q) p = some fq := by
  simp only [preserveCurrentPipe, if_neg hne, tryGetPipeIndex, if_pos hq.mem, hq.place]
  exact if_neg (Nat.not_le.mpr (h.more hq.more))

/-- The queue that `pipe_terminated` leaves, but for the place to read on. -/
def forgotten (fq : Fq P α) (p : P) : Fq P α :=
  let fq := (fq.unblock p).retired p
  { fq with pipes := SwapArray.erase fq.pipes (fq.pipes.idxOf p) }

theorem Leaves.forgotten (h : fq.Sound) (hp : p ∈ fq.pipes) : Leaves p fq (fq.forgotten p) := by
  have hu := h.unblock p
  have hl := Leaves.retired hu hp
  have hr := hu.retired hp
  have hfree : p ∉ ((fq.unblock p).retired p).recordAdmissionBlocked := by
    rw [hr.blocked, ← hu.blockedSet]
    exact Finset.notMem_erase p _
  have he := Moves.erase hl.sound (hr.perm.mem_iff.mpr hp) hr.out hfree
  exact ⟨(Moves.unblock h p).trans (hl.toMoves.trans he), fun hq => hl.lost ⟨hq.more, hq.mem, hq.place⟩⟩

theorem Leaves.keepSource (h : Leaves p fq mid) (hfq : fq.Sound) (i : ℕ) :
    Leaves p fq (mid.keepSource
      (if fq.current < fq.active then fq.pipes[fq.current]? else none) p i) := by
  have hpin (q : P) (hne : q ≠ p) (hq : fq.Pinned q) : mid.preserveCurrentPipe
      (if fq.current < fq.active then fq.pipes[fq.current]? else none) p = some mid := by
    rw [if_pos (hfq.more hq.more), hfq.getElem?_eq_some.mpr ⟨hq.mem, hq.place⟩]
    exact (h.pin q hne hq).preserve h.sound hne
  rw [Fq.keepSource]
  cases hkeep : mid.preserveCurrentPipe
      (if fq.current < fq.active then fq.pipes[fq.current]? else none) p with
  | some next =>
    obtain ⟨j, hj, rfl⟩ := preserveCurrentPipe_eq_some hkeep
    refine ⟨⟨h.sound.setCurrent hj, fun q hne hq => ?_, h.abort, h.parts⟩, h.lost⟩
    exact Option.some.inj ((hpin q hne hq).symm.trans hkeep) ▸ h.pin q hne hq
  | none =>
    have hlost (q : P) (hne : q ≠ p) : ¬ fq.Pinned q := by
      intro hq
      cases (hpin q hne hq).symm.trans hkeep
    simp only
    split
    case isTrue hpos =>
      refine ⟨⟨h.sound.setCurrent ?_, fun q hne hq => absurd hq (hlost q hne), h.abort, h.parts⟩,
        h.lost⟩
      split_ifs with hlt
      · exact hlt
      · exact hpos
    case isFalse => exact h

theorem Leaves.pipeTerminated (h : fq.Sound) (p : P) : Leaves p fq (fq.pipeTerminated p) := by
  rw [Fq.pipeTerminated, h.normalizeState_eq, tryGetPipeIndex]
  by_cases hp : p ∈ fq.pipes
  · have hf := Leaves.forgotten h hp
    rw [if_pos hp]
    show Leaves p fq (Fq.keepSource (Fq.normalizeState (fq.forgotten p)) _ p _)
    rw [hf.sound.normalizeState_eq]
    exact hf.keepSource h _
  · rw [if_neg hp]
    exact ⟨.refl h, fun hq => absurd hq.mem hp⟩

/-- Behind its first step, which empties the pipe. -/
theorem Moves.discardPendingRecords (h : fq.Sound) (p : P) :
    Moves (· = p) (fq.setInlet p (fq.inlet p).discard.1) (fq.discardPendingRecords p).1 := by
  have hi := h.setInlet (p := p) (fq.inlet p).discard.1
  rw [Fq.discardPendingRecords, h.normalizeState_eq, tryGetPipeIndex]
  by_cases hp : p ∈ fq.pipes
  · have hu : Moves (· = p) _ _ := .unblock hi p
    rw [if_pos hp]
    show Moves (· = p) _ (Fq.retireAt (Fq.setInlet
      (if fq.more = true ∧ fq.pipes.idxOf p = fq.current then
        { fq.unblock p with more := false } else fq.unblock p) p (fq.inlet p).discard.1)
      p (fq.pipes.idxOf p))
    split
    case isTrue hpin =>
      have hm := Moves.leaveRecord hu.sound hpin.2
      exact hu.trans (hm.trans (Leaves.retired hm.sound hp).toMoves)
    case isFalse => exact hu.trans (Leaves.retired hu.sound hp).toMoves
  · rw [if_neg hp]
    exact .refl hi

def register (fq : Fq P α) (p : P) : Fq P α :=
  { fq with
    recordAdmissionBlockedSet := insert p fq.recordAdmissionBlockedSet
    recordAdmissionBlocked := fq.recordAdmissionBlocked ++ [p] }

theorem Sound.register (h : fq.Sound) (hp : p ∈ fq.pipes) (hout : fq.active ≤ fq.pipes.idxOf p)
    (hfree : p ∉ fq.recordAdmissionBlocked) : (fq.register p).Sound :=
  { h with
    blocked := show List.Nodup (_ ++ [p]) from List.concat_eq_append ▸ h.blocked.concat hfree
    blockedSet := fun x => by
      show x ∈ insert p fq.recordAdmissionBlockedSet ↔ x ∈ fq.recordAdmissionBlocked ++ [p]
      rw [Finset.mem_insert, h.blockedSet, List.mem_append, List.mem_singleton, or_comm]
    aside := fun x hx => (List.mem_append.mp hx).elim (h.aside x) fun heq => by
      rw [List.mem_singleton.mp heq]
      exact ⟨hp, hout⟩ }

/-- The current pipe is put aside and its record, if it was read from, is left. -/
def blockCurrent (fq : Fq P α) (p : P) : Fq P α :=
  ({ fq with more := false }.deactivateAt p fq.current).register p

structure Reads (gate : Option (Gate P α)) (fq : Fq P α) (p : P) (i : Inlet α)
    (fetched : Fetch α) : Prop where
  mem : p ∈ fq.pipes
  place : fq.pipes.idxOf p = fq.current
  lt : fq.current < fq.active
  fetch : Fq.fetch gate p (fq.inlet p) = (i, fetched)

/-- The part that a read takes out of the pipe. -/
def taken : Fetch α → List (LoadBalancer.Part α)
  | .got part => [part]
  | .rejected part _ => [part]
  | _ => []

theorem taken_readItems (admission : LoadBalancer.Part α → Answer) (items : List (Item α)) :
    taken (Inlet.readItems admission items).2 ++ (Inlet.readItems admission items).1.parts =
      items.filterMap Item.part := by
  induction items with
  | nil => rfl
  | cons item rest ih =>
    cases item with
    | credential => exact ih
    | delimiter => rfl
    | frame part gated =>
      rw [Inlet.readItems]
      split <;> rfl

theorem exists_admission (gate : Option (Gate P α)) (p : P) (i : Inlet α) :
    ∃ admission, fetch gate p i = i.readWithRecordAdmission admission := by
  rw [fetch.eq_def]
  split
  · split <;> exact ⟨_, rfl⟩
  · exact ⟨_, rfl⟩

theorem taken_fetch (gate : Option (Gate P α)) (p : P) (i : Inlet α) :
    taken (fetch gate p i).2 ++ (fetch gate p i).1.parts = i.parts := by
  obtain ⟨admission, hread⟩ := exists_admission gate p i
  rw [hread, Inlet.readWithRecordAdmission]
  split
  · exact taken_readItems admission i.items
  · rfl

variable {fetched : Fetch α}

theorem Reads.place_ne {gate : Option (Gate P α)} {i : Inlet α}
    (hr : Reads gate fq p i fetched) (hne : p ≠ q) : fq.pipes.idxOf q ≠ fq.current :=
  fun hsame => hne ((List.idxOf_inj hr.mem).mp (hr.place.trans hsame.symm))

theorem Reads.parts {gate : Option (Gate P α)} {i : Inlet α}
    (hr : Reads gate fq p i fetched) : taken fetched ++ i.parts = (fq.inlet p).parts := by
  have htaken := taken_fetch gate p (fq.inlet p)
  rwa [hr.fetch] at htaken

/-- A turn behind which the call goes on. -/
inductive Turn (gate : Option (Gate P α)) (fq : Fq P α) : Fq P α → Prop where
  | blocked {p i} : Reads gate fq p i (.refused .eagain) →
      Turn gate fq ((fq.setInlet p i).blockCurrent p)
  | missed {p i} : Reads gate fq p i .miss → fq.more = false →
      Turn gate fq ((fq.setInlet p i).deactivateAt p fq.current)

/-- A turn that ends the call. -/
inductive Ends (gate : Option (Gate P α)) (fq : Fq P α) : Fq P α → Received P α → Prop where
  | dry : fq.active = 0 → Ends gate fq fq (.failed .eagain)
  | rejected {p i part errno} : Reads gate fq p i (.rejected part errno) →
      Ends gate fq ({ fq.setInlet p (i.dropRecord part) with more := false }.advance)
        (.failed errno)
  | refused {p i errno} : Reads gate fq p i (.refused errno) → errno ≠ .eagain →
      Ends gate fq (fq.setInlet p i) (.failed errno)
  | unregistered {p i} : Reads gate fq p i (.refused .eagain) →
      Ends gate fq (fq.setInlet p i) (.failed .enomem)
  | part {p i part} : Reads gate fq p i (.got part) → part.more = true →
      Ends gate fq { fq.setInlet p i with more := true } (.frame p part)
  | last {p i part} : Reads gate fq p i (.got part) → part.more = false →
      Ends gate fq ({ fq.setInlet p i with more := false }.advance) (.frame p part)
  | lost {p i} : Reads gate fq p i .miss → fq.more = true →
      Ends gate fq ({ fq.setInlet p i with more := false }.deactivateAt p fq.current)
        (.failed .econnaborted)

theorem missed_eq (fq : Fq P α) (hmore : fq.more = false) (p : P) :
    fq.deactivateCurrentAfterReadMiss p = fq.deactivateAt p fq.current := by
  simp only [deactivateCurrentAfterReadMiss, deactivateAt, hmore, preserveCurrentPipe,
    publishPipeReceiveActivity, Bool.false_eq_true, if_false, reduceCtorEq]

theorem deactivateAt_register (hmore : fq.more = false) (i : ℕ) :
    (fq.register p).deactivateAt p i = (fq.deactivateAt p i).register p := by
  simp only [deactivateAt, register, hmore, preserveCurrentPipe, publishPipeReceiveActivity,
    Bool.false_eq_true, if_false, reduceCtorEq]
  split <;> rfl

theorem Sound.block_eq (h : fq.Sound) (hlt : fq.current < fq.active)
    (hget : fq.pipes[fq.current]? = some p) (registers : P → Bool) :
    fq.blockCurrentForRecordAdmission registers =
      if registers p then some (fq.blockCurrent p) else none := by
  obtain ⟨hp, hplace⟩ := h.getElem?_eq_some.mp hget
  have hfree : p ∉ fq.recordAdmissionBlockedSet := by
    intro hin
    have haside := (h.aside p ((h.blockedSet p).mp hin)).2
    omega
  have hregister := @deactivateAt_register _ _ _ { fq with more := false } p rfl fq.current
  rw [blockCurrentForRecordAdmission, h.normalizeState_eq, if_pos hlt, hget]
  simp only [if_neg hfree]
  split
  · exact congrArg some hregister
  · rfl

/-- The current pipe has left, outside a record. -/
structure Dropped (fq fq' : Fq P α) : Prop where
  sound : fq'.Sound
  active : fq'.active + 1 = fq.active
  more : fq'.more = false
  inlet : fq'.inlet = fq.inlet
  abort : fq'.multipartAbortPending = fq.multipartAbortPending

theorem Sound.dropped (h : fq.Sound) (hmore : fq.more = false) (hp : p ∈ fq.pipes)
    (hplace : fq.pipes.idxOf p = fq.current) (hlt : fq.current < fq.active) :
    Dropped fq (fq.deactivateAt p fq.current) := by
  have hleft := h.deactivateAt hp (hplace.trans_lt hlt)
  have heq := h.deactivateAt_eq hp (hplace.trans_lt hlt)
  rw [hplace, hmore] at heq
  rw [hplace] at hleft
  refine ⟨hleft, ?_, heq ▸ rfl, heq ▸ rfl, heq ▸ Bool.or_false _⟩
  rw [heq]
  exact Nat.sub_add_cancel (Nat.zero_lt_of_lt hlt)

theorem Sound.blockCurrent (h : fq.Sound) (hp : p ∈ fq.pipes)
    (hplace : fq.pipes.idxOf p = fq.current) (hlt : fq.current < fq.active) :
    (fq.blockCurrent p).Sound := by
  have hat : ({ fq with more := false } : Fq P α).pipes.idxOf p = fq.current := hplace
  have hleft := h.setMore.deactivateAt hp (hplace.trans_lt hlt)
  have heq := h.setMore.deactivateAt_eq hp (hplace.trans_lt hlt)
  have hout := h.setMore.left hp (hplace.trans_lt hlt)
  rw [hat] at hleft heq
  refine hleft.register ?_ ?_ ?_
  · rw [heq]
    exact hout.perm.mem_iff.mpr hp
  · rw [heq]
    exact hout.out
  · rw [heq]
    intro hin
    have haside := (h.aside p hin).2
    omega

variable {gate : Option (Gate P α)} {r : Received P α}

/-- A turn makes one pipe inactive, and takes nothing out of a pipe. -/
theorem Turn.keeps (hturn : Turn gate fq fq') (h : fq.Sound) :
    fq'.Sound ∧ fq'.active + 1 = fq.active ∧ ∀ q, (fq'.inlet q).parts = (fq.inlet q).parts := by
  cases hturn with
  | @blocked p i hr =>
    have hi := h.setInlet (p := p) i
    have hd := hi.setMore.dropped rfl hr.mem hr.place hr.lt
    exact ⟨hi.blockCurrent hr.mem hr.place hr.lt, hd.active,
      fun q => (congrArg Inlet.parts (congrFun hd.inlet q)).trans (parts_setInlet hr.parts q)⟩
  | @missed p i hr hmore =>
    have hd := (h.setInlet (p := p) i).dropped hmore hr.mem hr.place hr.lt
    exact ⟨hd.sound, hd.active,
      fun q => (congrArg Inlet.parts (congrFun hd.inlet q)).trans (parts_setInlet hr.parts q)⟩

theorem Ends.sound (hends : Ends gate fq fq' r) (h : fq.Sound) : fq'.Sound := by
  cases hends with
  | dry => exact h
  | rejected hr | last hr =>
    exact (h.setInlet _).setMore.setCurrent (Nat.mod_lt _ (Nat.zero_lt_of_lt hr.lt))
  | refused | unregistered => exact h.setInlet _
  | @part p i _ hr => exact { h.setInlet (p := p) i with more := fun _ => hr.lt }
  | @lost p i hr =>
    exact ((h.setInlet (p := p) i).setMore.dropped rfl hr.mem hr.place hr.lt).sound

theorem Sound.receiveFrom_ends {turns : ℕ} (h : fq.Sound) (hturns : fq.active = turns) :
    ∃ mid, Relation.ReflTransGen (Turn gate) fq mid ∧
      Ends gate mid (receiveFrom gate turns fq).1 (receiveFrom gate turns fq).2 := by
  induction turns generalizing fq with
  | zero => exact ⟨fq, .refl, .dry hturns⟩
  | succ turns ih =>
    have hlt := h.current_lt (hturns ▸ turns.succ_pos)
    obtain ⟨p, hp, hplace, hget⟩ := h.exists_current hlt
    have hgo (fq' : Fq P α) (hturn : Turn gate fq fq') :
        ∃ mid, Relation.ReflTransGen (Turn gate) fq mid ∧
          Ends gate mid (receiveFrom gate turns fq').1 (receiveFrom gate turns fq').2 := by
      obtain ⟨hsound, hactive, -⟩ := hturn.keeps h
      obtain ⟨mid, hturns, hends⟩ := ih hsound (by omega)
      exact ⟨mid, .head hturn hturns, hends⟩
    rw [receiveFrom, hget]
    cases hfetch : fetch gate p (fq.inlet p) with
    | mk i fetched =>
      have hr : Reads gate fq p i fetched := ⟨hp, hplace, hlt, hfetch⟩
      have hi : (fq.setInlet p i).Sound := h.setInlet i
      simp only [hfetch]
      cases fetched with
      | got part =>
        cases hmore : part.more with
        | true =>
          simp only [hmore, if_true]
          exact ⟨fq, .refl, .part hr hmore⟩
        | false =>
          simp only [hmore, Bool.false_eq_true, if_false]
          exact ⟨fq, .refl, .last hr hmore⟩
      | miss =>
        simp only
        cases hmore : fq.more with
        | true =>
          rw [if_pos rfl, missed_eq { fq.setInlet p i with more := false } rfl]
          exact ⟨fq, .refl, .lost hr hmore⟩
        | false =>
          rw [if_neg Bool.false_ne_true, missed_eq (fq.setInlet p i) hmore]
          exact hgo _ (.missed hr hmore)
      | refused errno =>
        by_cases hagain : errno = .eagain
        · subst hagain
          simp only [hi.block_eq hlt hget]
          by_cases hregisters : (gate.all fun g => g.registers p) = true
          · simp only [if_pos hregisters]
            exact hgo _ (.blocked hr)
          · simp only [if_neg hregisters]
            exact ⟨fq, .refl, .unregistered hr⟩
        · have hother : Ends gate fq (fq.setInlet p i) (.failed errno) := .refused hr hagain
          cases errno with
          | eagain => exact absurd rfl hagain
          | econnaborted | enomem | other => exact ⟨fq, .refl, hother⟩
      | rejected part errno => exact ⟨fq, .refl, .rejected hr⟩

theorem Sound.recvpipe_eq (h : fq.Sound) (ha : fq.multipartAbortPending = false) :
    fq.recvpipe gate = receiveFrom gate fq.active fq := by
  rw [recvpipe, h.normalizeState_eq, ha]
  rfl

theorem Sound.recvpipe_abort (h : fq.Sound) (ha : fq.multipartAbortPending = true) :
    fq.recvpipe gate = ({ fq with multipartAbortPending := false }, .failed .econnaborted) := by
  rw [recvpipe, h.normalizeState_eq, if_pos ha]

theorem Sound.recvpipe_ends (h : fq.Sound) (gate : Option (Gate P α))
    (ha : fq.multipartAbortPending = false) :
    ∃ mid, Relation.ReflTransGen (Turn gate) fq mid ∧
      Ends gate mid (fq.recvpipe gate).1 (fq.recvpipe gate).2 := by
  rw [h.recvpipe_eq ha]
  exact h.receiveFrom_ends rfl

theorem Sound.turns (h : fq.Sound) (hturns : Relation.ReflTransGen (Turn gate) fq fq') :
    fq'.Sound ∧ ∀ q, (fq'.inlet q).parts = (fq.inlet q).parts := by
  induction hturns with
  | refl => exact ⟨h, fun _ => rfl⟩
  | tail _ hturn ih =>
    obtain ⟨hsound, -, hparts⟩ := hturn.keeps ih.1
    exact ⟨hsound, fun q => (hparts q).trans (ih.2 q)⟩

theorem Sound.recvpipe (h : fq.Sound) (gate : Option (Gate P α)) : (fq.recvpipe gate).1.Sound := by
  cases ha : fq.multipartAbortPending with
  | true =>
    rw [h.recvpipe_abort ha]
    exact { h with }
  | false =>
    obtain ⟨mid, hturns, hends⟩ := h.recvpipe_ends gate ha
    exact hends.sound (h.turns hturns).1

/-- A read finds nothing where `check_read` does, and elsewhere only behind a credential. -/
theorem checkRead_cases (gate : Option (Gate P α)) (p : P) (i : Inlet α) :
    i.checkRead.2 = false ∧ fetch gate p i = (i.checkRead.1, .miss) ∨ i.checkRead = (i, true) ∧
        ((fetch gate p i).2 = .miss → i.items.head? = some .credential) := by
  obtain ⟨admission, hread⟩ := exists_admission gate p i
  rw [hread]
  obtain ⟨live, items⟩ := i
  cases live with
  | false => exact .inl ⟨rfl, rfl⟩
  | true =>
    cases items with
    | nil => exact .inl ⟨rfl, rfl⟩
    | cons item rest =>
      cases item with
      | delimiter => exact .inl ⟨rfl, rfl⟩
      | credential => exact .inr ⟨rfl, fun _ => rfl⟩
      | frame part gated =>
        refine .inr ⟨rfl, ?_⟩
        rw [Inlet.readWithRecordAdmission, if_pos rfl, Inlet.readItems]
        split <;> nofun

/-- The loop of `has_in` makes turns of a receive call, which the call then need not make. -/
structure Polled (gate : Option (Gate P α)) (fq : Fq P α) (result : Fq P α × Bool) : Prop where
  turns : Relation.ReflTransGen (Turn gate) fq result.1
  abort : result.1.multipartAbortPending = fq.multipartAbortPending
  pin : fq.more = true → result.1 = fq
  same : receiveFrom gate result.1.active result.1 = receiveFrom gate fq.active fq
  found : result.2 = true → 0 < result.1.active ∧ ∀ p ∈ result.1.pipes,
    result.1.pipes.idxOf p = result.1.current → result.1.more = true ∨
      ((fetch gate p (result.1.inlet p)).2 = .miss →
        (result.1.inlet p).items.head? = some .credential)
  dry : result.2 = false → result.1.active = 0

theorem Sound.hasInFrom_polled {turns : ℕ} (h : fq.Sound) (hmore : fq.more = false)
    (hturns : fq.active = turns) (gate : Option (Gate P α)) :
    Polled gate fq (hasInFrom turns fq) := by
  induction turns generalizing fq with
  | zero => exact ⟨.refl, rfl, fun _ => rfl, rfl, nofun, fun _ => hturns⟩
  | succ turns ih =>
    have hlt := h.current_lt (hturns ▸ turns.succ_pos)
    obtain ⟨p, hp, hplace, hget⟩ := h.exists_current hlt
    rw [hasInFrom, hget]
    simp only
    rcases checkRead_cases gate p (fq.inlet p) with ⟨hno, hmiss⟩ | ⟨hyes, hhead⟩
    · rw [if_neg (Bool.eq_false_iff.mp hno)]
      have hturn : Turn gate fq _ := .missed ⟨hp, hplace, hlt, hmiss⟩ hmore
      have hd := (h.setInlet (p := p) (fq.inlet p).checkRead.1).dropped hmore hp hplace hlt
      obtain ⟨hsound, hactive, -⟩ := hturn.keeps h
      have hnext := ih hsound hd.more (by omega)
      rw [missed_eq (fq.setInlet p _) hmore]
      refine ⟨.head hturn hnext.turns, hnext.abort.trans hd.abort,
        fun hin => absurd hin (Bool.eq_false_iff.mp hmore), hnext.same.trans ?_, hnext.found,
        hnext.dry⟩
      rw [hturns, receiveFrom, hget, show Fq.active _ = turns by omega]
      simp only [hmiss, if_neg (Bool.eq_false_iff.mp hmore)]
      exact congrArg _ (missed_eq (fq.setInlet p _) hmore p).symm
    · rw [hyes, if_pos rfl, Fq.setInlet, Function.update_eq_self]
      refine ⟨.refl, rfl, fun _ => rfl, rfl,
        fun _ => ⟨Nat.zero_lt_of_lt hlt, fun q hq hat => .inr ?_⟩, nofun⟩
      exact (List.idxOf_inj hq).mp (hat.trans hplace.symm) ▸ hhead

theorem Sound.hasIn_cases (h : fq.Sound) (gate : Option (Gate P α)) :
    fq.multipartAbortPending = true ∧ fq.hasIn = (fq, true) ∨
      fq.multipartAbortPending = false ∧ Polled gate fq fq.hasIn := by
  rw [hasIn, h.normalizeState_eq]
  cases ha : fq.multipartAbortPending with
  | true => exact .inl ⟨rfl, rfl⟩
  | false =>
    refine .inr ⟨rfl, ?_⟩
    cases hmore : fq.more with
    | true => exact ⟨.refl, rfl, fun _ => rfl, rfl,
        fun _ => ⟨Nat.zero_lt_of_lt (h.more hmore), fun _ _ _ => .inl hmore⟩, nofun⟩
    | false => exact h.hasInFrom_polled hmore rfl gate

theorem Sound.hasIn_turns (h : fq.Sound) : Relation.ReflTransGen (Turn none) fq fq.hasIn.1 := by
  rcases h.hasIn_cases none with ⟨-, heq⟩ | ⟨-, hpolled⟩
  · rw [heq]
  · exact hpolled.turns

theorem Moves.hasIn (h : fq.Sound) : Moves (fun _ => False) fq fq.hasIn.1 := by
  rcases h.hasIn_cases none with ⟨-, heq⟩ | ⟨-, hpolled⟩
  · rw [heq]
    exact .refl h
  · obtain ⟨hsound, hparts⟩ := h.turns hpolled.turns
    exact ⟨hsound, fun q _ hq => (hpolled.pin hq.more).symm ▸ hq, hpolled.abort.trans, hparts⟩

/-- The queue without the first pipe of those that are kept aside. -/
def unqueue (fq : Fq P α) (p : P) (rest : List P) : Fq P α :=
  { fq with
    recordAdmissionBlocked := rest
    recordAdmissionBlockedSet := fq.recordAdmissionBlockedSet.erase p }

theorem Sound.unqueue (h : fq.Sound) {rest : List P}
    (hblocked : fq.recordAdmissionBlocked = p :: rest) : (fq.unqueue p rest).Sound := by
  have hnodup := List.nodup_cons.mp (hblocked ▸ h.blocked)
  refine
    { h with
      blocked := hnodup.2
      blockedSet := fun x => ?_
      aside := fun x hx => h.aside x (hblocked ▸ List.mem_cons_of_mem p hx) }
  show x ∈ fq.recordAdmissionBlockedSet.erase p ↔ x ∈ rest
  rw [Finset.mem_erase, h.blockedSet, hblocked, List.mem_cons]
  constructor
  · exact fun hx => hx.2.resolve_left hx.1
  · exact fun hx => ⟨fun heq => hnodup.1 (heq ▸ hx), .inr hx⟩

theorem Grows.redriveNext (h : fq.Sound) {rest : List P}
    (hblocked : fq.recordAdmissionBlocked = p :: rest) :
    Grows (fq.redriveNext p rest).2 fq (fq.redriveNext p rest).1 := by
  have hin : p ∈ fq.recordAdmissionBlocked := hblocked ▸ List.mem_cons_self
  have hu : Moves (fun _ => False) fq (fq.unqueue p rest) :=
    ⟨h.unqueue hblocked, fun _ _ hq => ⟨hq.more, hq.mem, hq.place⟩, id, fun _ => rfl⟩
  have hi : Grows 0 fq ((fq.unqueue p rest).setInlet p (fq.inlet p).checkRead.1) :=
    ⟨hu.trans (.setInlet hu.sound (Inlet.parts_checkRead _)), fun _ hq => ⟨⟨hq.mem, hq.lt⟩, le_rfl⟩⟩
  rw [Fq.redriveNext]
  simp only [if_pos ((h.blockedSet p).mpr hin), if_pos (h.aside p hin).1]
  split
  · exact hi.trans (.activated hi.sound p)
  · exact hi

theorem Grows.redriveFrom (h : fq.Sound) (maxPipes turns redriven : ℕ) :
    ∃ n, redriven + n = (redriveFrom maxPipes turns redriven fq).2 ∧
      Grows n fq (redriveFrom maxPipes turns redriven fq).1 := by
  induction turns generalizing fq redriven with
  | zero => exact ⟨0, rfl, .refl h 0⟩
  | succ turns ih =>
    rw [Fq.redriveFrom]
    split
    · exact ⟨0, rfl, .refl h 0⟩
    · cases hblocked : fq.recordAdmissionBlocked with
      | nil => exact ⟨0, rfl, .refl h 0⟩
      | cons p rest =>
        have hnext := Grows.redriveNext h hblocked
        obtain ⟨n, hn, hrest⟩ := ih hnext.sound (redriven + (fq.redriveNext p rest).2)
        exact ⟨_, (Nat.add_assoc ..).symm.trans hn, hnext.trans hrest⟩

theorem Grows.redriveRecordAdmission (h : fq.Sound) (maxPipes : ℕ) :
    Grows (fq.redriveRecordAdmission maxPipes).2 fq (fq.redriveRecordAdmission maxPipes).1 := by
  obtain ⟨n, hn, hgrows⟩ := Grows.redriveFrom h maxPipes _ 0
  rw [Nat.zero_add] at hn
  exact hn ▸ hgrows

/-- The admission of the pipe turns its next record away, for now or for good. -/
def turnsAway (fq : Fq P α) (gate : Option (Gate P α)) (q : P) : Bool :=
  match (fetch gate q (fq.inlet q)).2 with
  | .rejected _ _ => true
  | .refused .eagain => true
  | _ => false

/-- Polling agrees with receiving. It takes nothing from the receive call that follows, which
finds nothing where the poll found nothing; and where the poll found something, only a record
that is turned away or a credential lets the call find nothing. -/
structure Polls (gate : Option (Gate P α)) (fq : Fq P α) : Prop where
  same : fq.hasIn.1.recvpipe gate = fq.recvpipe gate
  dry : fq.hasIn.2 = false → (fq.recvpipe gate).2 = .failed .eagain
  found : fq.hasIn.2 = true → (fq.recvpipe gate).2 = .failed .eagain →
    ∃ p ∈ fq.hasIn.1.pipes, fq.hasIn.1.turnsAway gate p = true ∨
      (fq.hasIn.1.inlet p).items.head? = some .credential

theorem Sound.polls (h : fq.Sound) (gate : Option (Gate P α)) : fq.Polls gate := by
  rcases h.hasIn_cases gate with ⟨ha, heq⟩ | ⟨ha, hpolled⟩
  · refine ⟨by rw [heq], fun hno => ?_, fun _ hresult => ?_⟩
    · cases (congrArg Prod.snd heq).symm.trans hno
    · cases (congrArg Prod.snd (h.recvpipe_abort ha)).symm.trans hresult
  · have hm := (h.turns hpolled.turns).1
    have ha' := hpolled.abort.trans ha
    have hsame : fq.hasIn.1.recvpipe gate = fq.recvpipe gate := by
      rw [hm.recvpipe_eq ha', hpolled.same, h.recvpipe_eq ha]
    refine ⟨hsame, fun hno => ?_, fun hyes hresult => ?_⟩
    · rw [← hsame, hm.recvpipe_eq ha', hpolled.dry hno]
      rfl
    · obtain ⟨hpos, hfound⟩ := hpolled.found hyes
      obtain ⟨mid, hturns, hends⟩ := hm.recvpipe_ends gate ha'
      rw [hsame, hresult] at hends
      rcases hturns.cases_head with heq | ⟨next, hturn, -⟩
      · generalize (fq.recvpipe gate).1 = fq' at hends
        rw [← heq] at hends
        cases hends with
        | dry hzero => omega
        | rejected hr => exact ⟨_, hr.mem, .inl (by rw [turnsAway, hr.fetch])⟩
        | refused _ hne => exact absurd rfl hne
      · cases hturn with
        | blocked hr => exact ⟨_, hr.mem, .inl (by rw [turnsAway, hr.fetch])⟩
        | missed hr hmore =>
          have hhead := (hfound _ hr.mem hr.place).resolve_left (Bool.eq_false_iff.mp hmore)
          exact ⟨_, hr.mem, .inr (hhead (congrArg Prod.snd hr.fetch))⟩

theorem Pinned.reads (hq : fq.Pinned q) {i : Inlet α} (hr : Reads gate fq p i fetched) : p = q :=
  (List.idxOf_inj hr.mem).mp (hr.place.trans hq.place.symm)

theorem Ends.pinned {part : LoadBalancer.Part α} (hends : Ends gate fq fq' r)
    (hr : r = .frame p part) (hmore : part.more = true) : fq'.Pinned p := by
  cases hends with
  | part hread =>
    cases hr
    exact ⟨rfl, hread.mem, hread.place⟩
  | last hread hlast =>
    cases hr
    cases hmore.symm.trans hlast
  | _ => cases hr

/-- What a receive call does inside a record, unless the record is turned away. -/
theorem Pinned.recvpipe (hq : fq.Pinned q) (h : fq.Sound)
    (ha : fq.multipartAbortPending = false) (hstay : fq.turnsAway gate q = false) :
    (∃ part, (fq.recvpipe gate).2 = .frame q part) ∨ (fq.recvpipe gate).2 = .failed .econnaborted ∨
      ∃ errno, (fq.recvpipe gate).2 = .failed errno ∧ (fq.recvpipe gate).1.Pinned q := by
  obtain ⟨mid, hturns, hends⟩ := h.recvpipe_ends gate ha
  rcases hturns.cases_head with rfl | ⟨next, hturn, -⟩
  · generalize fq.recvpipe gate = result at hends ⊢
    obtain ⟨fq', r⟩ := result
    cases hends with
    | dry hzero => exact absurd (hq.lt h) (by omega)
    | rejected hr | unregistered hr =>
      cases hq.reads hr
      rw [turnsAway, hr.fetch] at hstay
      cases hstay
    | refused hr => exact .inr (.inr ⟨_, rfl, hq.more, hq.mem, hq.place⟩)
    | part hr | last hr =>
      cases hq.reads hr
      exact .inl ⟨_, rfl⟩
    | lost => exact .inr (.inl rfl)
  · cases hturn with
    | blocked hr =>
      cases hq.reads hr
      rw [turnsAway, hr.fetch] at hstay
      cases hstay
    | missed _ hmore => cases hq.more.symm.trans hmore

end Fq

/-- What happens to a fair queue: the calls of its socket, and what becomes of the pipes. -/
inductive Event (P α : Type) where
  | attach (p : P)
  | arrive (p : P) (items : List (Item α))
  | silence (p : P)
  | deactivate (p : P)
  | activated (p : P)
  | pipeTerminated (p : P)
  | discardPendingRecords (p : P)
  | redriveRecordAdmission (maxPipes : ℕ)
  | recvpipe (gate : Option (Gate P α))
  | hasIn

/-- A fair queue and what its reader knows: the pipe of the record it is inside, and whether
this pipe was deactivated or terminated since. -/
structure Watched (P α : Type) where
  fq : Fq P α
  pin : Option P
  lost : Bool

namespace Watched

variable {P α : Type} [DecidableEq P]

def create (publish : Bool) (cached : P → Bool) (inlet : P → Inlet α) : Watched P α :=
  ⟨Fq.create publish cached inlet, none, false⟩

def received (w : Watched P α) (gate : Option (Gate P α)) : Watched P α :=
  match (w.fq.recvpipe gate).2 with
  | .frame p part => ⟨(w.fq.recvpipe gate).1, if part.more then some p else none, false⟩
  | .failed errno =>
    if errno = .econnaborted then ⟨(w.fq.recvpipe gate).1, none, false⟩
    else
      ⟨(w.fq.recvpipe gate).1, w.pin.filter fun q => !w.fq.turnsAway gate q, w.lost⟩

def step (w : Watched P α) : Event P α → Option (Watched P α)
  | .attach p => if p ∈ w.fq.pipes then none else some { w with fq := w.fq.attach p }
  | .arrive p items =>
    some { w with
      fq := w.fq.setInlet p { w.fq.inlet p with items := (w.fq.inlet p).items ++ items } }
  | .silence p => some { w with fq := w.fq.setInlet p { w.fq.inlet p with live := false } }
  | .deactivate p =>
    some { w with fq := w.fq.deactivate p, lost := w.lost || w.pin = some p }
  | .activated p => some { w with fq := w.fq.activated p }
  | .pipeTerminated p =>
    some { w with fq := w.fq.pipeTerminated p, lost := w.lost || w.pin = some p }
  | .discardPendingRecords p =>
    some { w with
      fq := (w.fq.discardPendingRecords p).1
      pin := w.pin.filter fun q => w.lost || q ≠ p }
  | .redriveRecordAdmission maxPipes =>
    some { w with fq := (w.fq.redriveRecordAdmission maxPipes).1 }
  | .recvpipe gate => some (w.received gate)
  | .hasIn => some { w with fq := w.fq.hasIn.1 }

/-- The reader and the queue agree on the record that is being read. -/
structure Reader (w : Watched P α) : Prop where
  sound : w.fq.Sound
  lost : w.lost = true → w.fq.multipartAbortPending = true
  pin : ∀ q, w.pin = some q → w.fq.Pinned q ∨ w.fq.multipartAbortPending = true

variable {w w' : Watched P α} {p : P}

theorem Reader.keep (h : w.Reader) {fq : Fq P α} (hm : Fq.Moves (fun _ => False) w.fq fq) :
    Reader { w with fq := fq } where
  sound := hm.sound
  lost := fun hlost => hm.abort (h.lost hlost)
  pin := fun q hq => (h.pin q hq).imp (hm.pin q id) hm.abort

theorem Reader.setInlet (h : w.Reader) (p : P) (i : Inlet α) :
    Reader { w with fq := w.fq.setInlet p i } where
  sound := h.sound.setInlet i
  lost := h.lost
  pin := fun q hq => (h.pin q hq).imp_left fun hq => ⟨hq.more, hq.mem, hq.place⟩

theorem Reader.leave (h : w.Reader) {fq : Fq P α} (hl : Fq.Leaves p w.fq fq) :
    Reader { w with fq := fq, lost := w.lost || w.pin = some p } where
  sound := hl.sound
  lost := by
    intro hlost
    rcases (Bool.or_eq_true _ _).mp hlost with hlost | hpin
    · exact hl.abort (h.lost hlost)
    · exact (h.pin p (of_decide_eq_true hpin)).elim hl.lost hl.abort
  pin := by
    intro q hq
    rcases h.pin q hq with hpinned | ha
    · by_cases hqp : q = p
      · exact .inr (hl.lost (hqp ▸ hpinned))
      · exact .inl (hl.pin q hqp hpinned)
    · exact .inr (hl.abort ha)

theorem Reader.received (h : w.Reader) (gate : Option (Gate P α)) : (w.received gate).Reader := by
  have hsound := h.sound.recvpipe gate
  rw [Watched.received]
  cases ha : w.fq.multipartAbortPending with
  | true =>
    rw [h.sound.recvpipe_abort ha] at hsound ⊢
    exact ⟨hsound, nofun, nofun⟩
  | false =>
    have hkept : w.lost = false :=
      Bool.eq_false_iff.mpr fun hlost => by cases ha.symm.trans (h.lost hlost)
    cases hresult : (w.fq.recvpipe gate).2 with
    | frame p part =>
      refine ⟨hsound, nofun, fun q hq => ?_⟩
      simp only at hq
      split at hq
      case isTrue hmore =>
        obtain ⟨mid, -, hends⟩ := h.sound.recvpipe_ends gate ha
        cases hq
        exact .inl (hends.pinned hresult hmore)
      case isFalse => cases hq
    | failed errno =>
      simp only
      split
      · exact ⟨hsound, nofun, nofun⟩
      case isFalse hother =>
        refine ⟨hsound, fun hlost => absurd (hkept.symm.trans hlost) Bool.false_ne_true,
          fun q hq => ?_⟩
        obtain ⟨hpin, hstay⟩ := Option.filter_eq_some_iff.mp hq
        have hpinned := (h.pin q hpin).resolve_right fun ha' => by cases ha.symm.trans ha'
        rw [Bool.not_eq_true'] at hstay
        rcases hpinned.recvpipe h.sound ha hstay with ⟨part, heq⟩ | heq | ⟨_, -, hq'⟩
        · cases hresult.symm.trans heq
        · cases hresult.symm.trans heq
          exact absurd rfl hother
        · exact .inl hq'

theorem Reader.step (h : w.Reader) {e : Event P α} (hstep : w.step e = some w') : w'.Reader := by
  cases e with
  | attach p =>
    obtain ⟨hp, hnext⟩ := Option.ite_none_left_eq_some.mp hstep
    cases hnext
    exact h.keep (Fq.Grows.attach h.sound hp).toMoves
  | arrive p | silence p =>
    cases hstep
    exact h.setInlet p _
  | deactivate p =>
    cases hstep
    exact h.leave (.deactivate h.sound p)
  | activated p =>
    cases hstep
    exact h.keep (Fq.Grows.activated h.sound p).toMoves
  | pipeTerminated p =>
    cases hstep
    exact h.leave (.pipeTerminated h.sound p)
  | discardPendingRecords p =>
    cases hstep
    have hm := Fq.Moves.discardPendingRecords h.sound p
    have hi := h.setInlet p (w.fq.inlet p).discard.1
    refine ⟨hm.sound, fun hlost => hm.abort (h.lost hlost), fun q hq => ?_⟩
    obtain ⟨hpin, hkept⟩ := Option.filter_eq_some_iff.mp hq
    rcases (Bool.or_eq_true _ _).mp hkept with hlost | hne
    · exact .inr (hm.abort (h.lost hlost))
    · exact (hi.pin q hpin).imp (hm.pin q (of_decide_eq_true hne)) hm.abort
  | redriveRecordAdmission maxPipes =>
    cases hstep
    exact h.keep (Fq.Grows.redriveRecordAdmission h.sound maxPipes).toMoves
  | recvpipe gate =>
    cases hstep
    exact h.received gate
  | hasIn =>
    cases hstep
    exact h.keep (.hasIn h.sound)

theorem reader_create (publish : Bool) (cached : P → Bool) (inlet : P → Inlet α) :
    (create publish cached inlet).Reader :=
  ⟨Fq.sound_create publish cached inlet, nofun, nofun⟩

variable {publish : Bool} {cached : P → Bool} {inlet : P → Inlet α} {es : List (Event P α)}

theorem run_reader (hrun : Trace.run step (create publish cached inlet) es = some w) : w.Reader :=
  Trace.run_invariant (fun _ _ _ h _ hstep => h.step hstep) (reader_create publish cached inlet)
    (Trace.along_true _ es) hrun

/-- Records are read whole. A reader that has lost the pipe of its record is told so before
it gets another frame, and otherwise its next frame comes from this pipe, unless the
admission turns the rest of the record away. -/
theorem run_unmixed (hrun : Trace.run step (create publish cached inlet) es = some w)
    (gate : Option (Gate P α)) : (w.lost = true → (w.fq.recvpipe gate).2 = .failed .econnaborted) ∧
      ∀ q p part, w.pin = some q → (w.fq.recvpipe gate).2 = .frame p part →
        w.fq.turnsAway gate q = false → p = q := by
  have h := run_reader hrun
  have hlost (ha : w.fq.multipartAbortPending = true) :
      (w.fq.recvpipe gate).2 = .failed .econnaborted :=
    congrArg Prod.snd (h.sound.recvpipe_abort ha)
  refine ⟨fun hpipe => hlost (h.lost hpipe), fun q p part hpin hframe hstay => ?_⟩
  cases ha : w.fq.multipartAbortPending with
  | true => cases hframe.symm.trans (hlost ha)
  | false =>
    have hpinned := (h.pin q hpin).resolve_right fun ha' => by cases ha.symm.trans ha'
    rcases hpinned.recvpipe h.sound ha hstay with ⟨part, heq⟩ | heq | ⟨_, heq, -⟩
    · cases hframe.symm.trans heq
      rfl
    · cases hframe.symm.trans heq
    · cases hframe.symm.trans heq

/-- A reader is told that the pipe of its record has gone. -/
theorem run_unmixed_gone : ∃ w : Watched ℕ ℕ,
    Trace.run step (create false (fun _ => false) fun _ => ⟨true, []⟩)
      [.attach 0, .arrive 0 [.frame ⟨true, 7⟩ false], .recvpipe none, .pipeTerminated 0] = some w ∧
      (w.fq.recvpipe none).2 = .failed .econnaborted := by
  refine Exists.imp (fun w hrun => ⟨hrun, (run_unmixed hrun none).1 ?_⟩)
    (Option.isSome_iff_exists.mp rfl)
  cases hrun
  rfl

/-- In every reachable state `has_in` changes nothing for `recvpipe`, and what it finds is
received, unless it is turned away or a credential. -/
theorem run_polls (hrun : Trace.run step (create publish cached inlet) es = some w)
    (gate : Option (Gate P α)) : w.fq.Polls gate :=
  (run_reader hrun).sound.polls gate

/-- A credential with nothing behind it is polled and not received. -/
theorem run_polls_credential : ∃ w : Watched ℕ ℕ,
    Trace.run step (create false (fun _ => false) fun _ => ⟨true, []⟩)
      [.attach 0, .arrive 0 [.credential]] = some w ∧
      ∃ p ∈ w.fq.hasIn.1.pipes, w.fq.hasIn.1.turnsAway none p = true ∨
        (w.fq.hasIn.1.inlet p).items.head? = some .credential := by
  refine Exists.imp (fun w hrun => ⟨hrun, (run_polls hrun none).found ?_ ?_⟩)
    (Option.isSome_iff_exists.mp rfl) <;> cases hrun <;> rfl

/-- In every run the active pipes stand in front, and what is published about a pipe says
whether it is one of them. The pipes that are kept aside are attached, each of them once, and
not active. -/
theorem run_published (hrun : Trace.run step (create publish cached inlet) es = some w) :
    w.fq.pipes.Nodup ∧ w.fq.active ≤ w.fq.pipes.length ∧
      (0 < w.fq.active → w.fq.current < w.fq.active) ∧
      (w.fq.publishReceiveActivity = true → ∀ p ∈ w.fq.pipes,
        w.fq.publicReceiveActiveCached p = decide (p ∈ w.fq.pipes.take w.fq.active)) ∧
      w.fq.recordAdmissionBlocked.Nodup ∧ ∀ p,
        (p ∈ w.fq.recordAdmissionBlockedSet ↔ p ∈ w.fq.recordAdmissionBlocked) ∧
        (p ∈ w.fq.recordAdmissionBlocked → p ∈ w.fq.pipes.drop w.fq.active) := by
  have h := (run_reader hrun).sound
  refine ⟨h.nodup, h.active_le, h.current_lt, fun hpublish p hp => ?_, h.blocked,
    fun p => ⟨h.blockedSet p, fun hblocked => ?_⟩⟩
  · rw [h.published hpublish p hp, decide_eq_decide, List.mem_take_iff_idxOf_lt hp]
  · obtain ⟨hp, hout⟩ := h.aside p hblocked
    have hsplit := List.mem_append.mp ((List.take_append_drop w.fq.active w.fq.pipes).symm ▸ hp)
    exact hsplit.resolve_left fun hin =>
      Nat.not_lt.mpr hout ((List.mem_take_iff_idxOf_lt hp).mp hin)

/-- A pipe whose record found no room is kept aside, and is published as inactive. -/
theorem run_published_aside : ∃ w : Watched ℕ ℕ,
    Trace.run step (create true (fun _ => false) fun _ => ⟨true, []⟩)
      [.attach 0, .attach 1, .arrive 0 [.frame ⟨false, 7⟩ true],
        .recvpipe (some ⟨fun _ => true, fun _ _ => .refuses .eagain, fun _ => true⟩)] = some w ∧
      w.fq.publicReceiveActiveCached 0 = decide (0 ∈ w.fq.pipes.take w.fq.active) ∧
      0 ∈ w.fq.pipes.drop w.fq.active := by
  refine Exists.imp (fun w hrun => ⟨hrun, ?_⟩) (Option.isSome_iff_exists.mp rfl)
  obtain ⟨-, -, -, hcached, -, haside⟩ := run_published hrun
  refine ⟨hcached ?_ 0 ?_, (haside 0).2 ?_⟩ <;> cases hrun <;> decide

end Watched

end Zlink.FairQueue
