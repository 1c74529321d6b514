import Zlink.FairQueue.Records

/-!
# The pipes take turns

An active pipe waits until the queue has gone past the pipes in front of it. `waits` counts
them: no receive call raises it as long as the pipe is not read from, and a record of another
pipe lowers it.
-/

namespace Zlink.FairQueue

open SwapArray

/-- The records that a receive call brings to their end. -/
def Received.completed {P α : Type} : Received P α → ℕ
  | .frame _ part => if part.more then 0 else 1
  | .failed _ => 0

/-- The part that a receive call hands out of a pipe. -/
def Received.parts {P α : Type} [DecidableEq P] (r : Received P α) (p : P) :
    List (LoadBalancer.Part α) :=
  match r with
  | .frame q part => if q = p then [part] else []
  | .failed _ => []

namespace Fq

variable {P α : Type} [DecidableEq P] {fq fq' : Fq P α} {p q : P}
  {gate : Option (Gate P α)} {r : Received P α}

theorem Front.waits_lt (hp : fq.Front p) (h : fq.Sound) : fq.waits p < fq.active := by
  have hlt := hp.lt
  have hcurrent := h.current
  rw [waits]
  split <;> omega

/-- The current pipe leaves: another one that stays comes no later. -/
theorem Sound.waits_leave (h : fq.Sound) (hq : q ∈ fq.pipes)
    (hplace : fq.pipes.idxOf q = fq.current) (hlt : fq.current < fq.active)
    (hfront : (fq.deactivateAt q fq.current).Front p) :
    p ≠ q ∧ fq.Front p ∧ (fq.deactivateAt q fq.current).waits p ≤ fq.waits p ∧
      (fq.deactivateAt q fq.current).inlet = fq.inlet := by
  have heq := h.deactivateAt_eq hq (hplace.trans_lt hlt)
  have hleft := h.left hq (hplace.trans_lt hlt)
  have hr := rearranged_swap h.nodup (i := fq.pipes.idxOf q) (j := fq.active - 1)
    (List.idxOf_lt_length_of_mem hq) (by have := h.active_le; omega)
  rw [hplace] at heq hr
  rw [heq] at hfront ⊢
  have hp : p ∈ fq.pipes := hleft.perm.mem_iff.mp hfront.mem
  obtain ⟨hbelow, hne⟩ := (hleft.own p hp).mp hfront.lt
  have hother : fq.pipes.idxOf p ≠ fq.current := fun hsame =>
    hne ((List.idxOf_inj hp).mp (hsame.trans hplace.symm))
  have hnew : (leave fq.pipes q fq.active).1.idxOf p =
      if fq.pipes.idxOf p = fq.active - 1 then fq.current else fq.pipes.idxOf p := by
    rw [leave, if_pos (hplace.trans_lt hlt), hplace, hr.place p hp, exchanged, if_neg hother]
  refine ⟨hne, ⟨hp, hbelow⟩, ?_, rfl⟩
  show (if fq.currentWithout fq.current ≤ (leave fq.pipes q fq.active).1.idxOf p then
      (leave fq.pipes q fq.active).1.idxOf p - fq.currentWithout fq.current
    else (leave fq.pipes q fq.active).1.idxOf p + (fq.active - 1) -
      fq.currentWithout fq.current) ≤ fq.waits p
  have hcurrent : fq.currentWithout fq.current =
      if fq.current + 1 = fq.active then 0 else fq.current := by
    rw [currentWithout]
    split_ifs with hlast hpin
    · exact absurd rfl hpin.2
    · rfl
    · rfl
  rw [hnew, hcurrent, waits]
  split_ifs <;> omega

/-- The turn goes on to the next pipe. -/
theorem Front.waits_advance (hp : fq.Front p) (hlt : fq.current < fq.active)
    (hother : fq.pipes.idxOf p ≠ fq.current) : fq.advance.waits p + 1 = fq.waits p := by
  have hbelow := hp.lt
  have hnext : (fq.current + 1) % fq.active =
      if fq.current + 1 = fq.active then 0 else fq.current + 1 := by
    split_ifs with hlast
    · rw [hlast, Nat.mod_self]
    · exact Nat.mod_eq_of_lt (by omega)
  show (if (fq.current + 1) % fq.active ≤ fq.pipes.idxOf p then
      fq.pipes.idxOf p - (fq.current + 1) % fq.active
    else fq.pipes.idxOf p + fq.active - (fq.current + 1) % fq.active) + 1 = fq.waits p
  rw [hnext, waits]
  split_ifs <;> omega

/-- A turn of a receive call: the pipe that it reads from leaves, and one that stays comes no
later. -/
theorem Turn.waits (hturn : Turn gate fq fq') (h : fq.Sound) (hfront : fq'.Front p) :
    fq.Front p ∧ fq'.waits p ≤ fq.waits p ∧ fq'.inlet p = fq.inlet p := by
  cases hturn with
  | @blocked q i hr =>
    have hi := (h.setInlet (p := q) i).setMore
    obtain ⟨hne, hbefore, hwaits, hinlet⟩ := hi.waits_leave hr.mem hr.place hr.lt ⟨hfront.mem, hfront.lt⟩
    exact ⟨⟨hbefore.mem, hbefore.lt⟩, hwaits,
      (congrFun hinlet p).trans (Function.update_of_ne hne _ _)⟩
  | @missed q i hr =>
    have hi := h.setInlet (p := q) i
    obtain ⟨hne, hbefore, hwaits, hinlet⟩ := hi.waits_leave hr.mem hr.place hr.lt hfront
    exact ⟨⟨hbefore.mem, hbefore.lt⟩, hwaits,
      (congrFun hinlet p).trans (Function.update_of_ne hne _ _)⟩

theorem Sound.waits_turns (h : fq.Sound) (hturns : Relation.ReflTransGen (Turn gate) fq fq')
    (hfront : fq'.Front p) : fq.Front p ∧ fq'.waits p ≤ fq.waits p ∧ fq'.inlet p = fq.inlet p := by
  induction hturns using Relation.ReflTransGen.head_induction_on with
  | refl => exact ⟨hfront, le_rfl, rfl⟩
  | head hturn _ ih =>
    obtain ⟨hnext, hwaits, hinlet⟩ := ih (hturn.keeps h).1
    obtain ⟨hfirst, hfewer, hsame⟩ := hturn.waits h hnext
    exact ⟨hfirst, hwaits.trans hfewer, hinlet.trans hsame⟩

/-- The call comes to the pipe, which loses its next record to the admission. -/
def Rejects (fq : Fq P α) (gate : Option (Gate P α)) (p : P) : Prop :=
  ∃ mid i part errno, Relation.ReflTransGen (Turn gate) fq mid ∧
    Reads gate mid p i (.rejected part errno)

theorem readItems_ne_rejected (items : List (Item α)) {i : Inlet α} {part : LoadBalancer.Part α}
    {errno : Errno} : Inlet.readItems (fun _ => .admits) items ≠ (i, .rejected part errno) := by
  induction items with
  | nil => rintro ⟨⟩
  | cons item rest ih =>
    cases item with
    | credential => exact ih
    | delimiter => rintro ⟨⟩
    | frame first gated =>
      rw [Inlet.readItems, ite_self]
      rintro ⟨⟩

/-- Without a gate no record is rejected. -/
theorem not_rejects_none : ¬ fq.Rejects none p := by
  rintro ⟨mid, i, part, errno, -, hr⟩
  have hread := hr.fetch
  rw [fetch, Inlet.read, Inlet.readWithRecordAdmission] at hread
  split at hread
  · exact readItems_ne_rejected _ hread
  · cases hread

theorem Ends.waits (hends : Ends gate fq fq' r) (h : fq.Sound) (hfront : fq'.Front p)
    (hkept : ∀ i part errno, ¬ Reads gate fq p i (.rejected part errno))
    (hother : ∀ part, r ≠ .frame p part) :
    fq.Front p ∧ r.completed + fq'.waits p ≤ fq.waits p := by
  cases hends with
  | dry => exact ⟨hfront, (Nat.zero_add _).le⟩
  | @rejected q i part errno hr =>
    have hp : fq.Front p := ⟨hfront.mem, hfront.lt⟩
    have hne : q ≠ p := by
      rintro rfl
      exact hkept i part errno hr
    have hnext := hp.waits_advance hr.lt (hr.place_ne hne)
    change _ + 1 = _ at hnext
    refine ⟨hp, ?_⟩
    show 0 + fq.advance.waits p ≤ _
    omega
  | refused | unregistered => exact ⟨⟨hfront.mem, hfront.lt⟩, (Nat.zero_add _).le⟩
  | part hr hmore =>
    refine ⟨⟨hfront.mem, hfront.lt⟩, ?_⟩
    rw [Received.completed, if_pos hmore]
    exact (Nat.zero_add _).le
  | @last q i part hr hlast =>
    have hp : fq.Front p := ⟨hfront.mem, hfront.lt⟩
    have hne : q ≠ p := by
      rintro rfl
      exact hother part rfl
    have hnext := hp.waits_advance hr.lt (hr.place_ne hne)
    refine ⟨hp, ?_⟩
    rw [Received.completed, if_neg (Bool.not_eq_true _ ▸ hlast)]
    show 1 + fq.advance.waits p ≤ _
    omega
  | @lost q i hr =>
    have hi := (h.setInlet (p := q) i).setMore
    obtain ⟨-, hbefore, hwaits, -⟩ := hi.waits_leave hr.mem hr.place hr.lt hfront
    exact ⟨⟨hbefore.mem, hbefore.lt⟩, (Nat.zero_add _).le.trans hwaits⟩

theorem Reads.received_parts {i : Inlet α} {part : LoadBalancer.Part α}
    (hr : Reads gate fq q i (.got part)) (p : P) :
    (Received.frame q part).parts p ++ ((fq.setInlet q i).inlet p).parts = (fq.inlet p).parts := by
  show (if q = p then [part] else []) ++ (Function.update fq.inlet q i p).parts = _
  split
  case isTrue heq =>
    subst heq
    rw [Function.update_self]
    exact hr.parts
  case isFalse hne =>
    rw [Function.update_of_ne fun heq => hne heq.symm]
    rfl

theorem Sound.waits_recvpipe (h : fq.Sound) (hfront : (fq.recvpipe gate).1.Front p)
    (hkept : ¬ fq.Rejects gate p) (hother : ∀ part, (fq.recvpipe gate).2 ≠ .frame p part) :
    (fq.recvpipe gate).2.completed + (fq.recvpipe gate).1.waits p ≤ fq.waits p := by
  cases ha : fq.multipartAbortPending with
  | true =>
    rw [h.recvpipe_abort ha]
    exact (Nat.zero_add _).le
  | false =>
    obtain ⟨mid, hturns, hends⟩ := h.recvpipe_ends gate ha
    have hmid := (h.turns hturns).1
    obtain ⟨hp, hlast⟩ := hends.waits hmid hfront
      (fun i part errno hr => hkept ⟨mid, i, part, errno, hturns, hr⟩) hother
    exact hlast.trans (h.waits_turns hturns hp).2.1

theorem Sound.parts_recvpipe (h : fq.Sound) (hkept : ¬ fq.Rejects gate p) :
    (fq.recvpipe gate).2.parts p ++ ((fq.recvpipe gate).1.inlet p).parts = (fq.inlet p).parts := by
  cases ha : fq.multipartAbortPending with
  | true => rw [h.recvpipe_abort ha, Received.parts, List.nil_append]
  | false =>
    obtain ⟨mid, hturns, hends⟩ := h.recvpipe_ends gate ha
    rw [← (h.turns hturns).2 p]
    generalize fq.recvpipe gate = result at hends ⊢
    obtain ⟨fq', r⟩ := result
    cases hends with
    | dry => rfl
    | @rejected q i part errno hr =>
      have hne : p ≠ q := by
        rintro rfl
        exact hkept ⟨mid, i, part, errno, hturns, hr⟩
      exact congrArg Inlet.parts (Function.update_of_ne hne _ _)
    | refused hr | unregistered hr => exact parts_setInlet hr.parts p
    | part hr | last hr => exact hr.received_parts p
    | @lost q i hr =>
      have hi := ((h.turns hturns).1.setInlet (p := q) i).setMore.dropped rfl hr.mem hr.place hr.lt
      exact (congrArg Inlet.parts (congrFun hi.inlet p)).trans (parts_setInlet hr.parts p)

end Fq

namespace Watched

variable {P α : Type} [DecidableEq P] {w w' : Watched P α} {p : P}

/-- The records that an event brings to their end. -/
def completed (w : Watched P α) : Event P α → ℕ
  | .recvpipe gate => (w.fq.recvpipe gate).2.completed
  | _ => 0

/-- The pipes that an event may put in front of a waiting one: those that join, and all that
stay where the array is rearranged behind a pipe that goes. -/
def joining (w : Watched P α) : Event P α → ℕ
  | .attach _ => 1
  | .activated _ => 1
  | .redriveRecordAdmission maxPipes => (w.fq.redriveRecordAdmission maxPipes).2
  | .deactivate p => (w.fq.deactivate p).active
  | .pipeTerminated p => (w.fq.pipeTerminated p).active
  | .discardPendingRecords p => (w.fq.discardPendingRecords p).1.active
  | _ => 0

/-- The pipe stays active, and nothing is taken from it. -/
def Waiting (p : P) (w : Watched P α) (e : Event P α) : Prop :=
  (∀ w', w.step e = some w' → w'.fq.Front p) ∧ ∀ gate, e = .recvpipe gate →
      ¬ w.fq.Rejects gate p ∧ ∀ part, (w.fq.recvpipe gate).2 ≠ .frame p part

theorem received_fq (w : Watched P α) (gate : Option (Gate P α)) :
    (w.received gate).fq = (w.fq.recvpipe gate).1 := by
  rw [received]
  split
  · rfl
  · split <;> rfl

theorem Reader.waits_step {e : Event P α} (h : w.Reader) (hp : w.fq.Front p)
    (hwait : Waiting p w e) (hstep : w.step e = some w') :
    w.completed e + w'.fq.waits p ≤ w.fq.waits p + w.joining e := by
  have hs := h.sound
  have hfront := hwait.1 w' hstep
  have hbelow := hfront.waits_lt (h.step hstep).sound
  cases e with
  | attach q =>
    obtain ⟨hq, hnext⟩ := Option.ite_none_left_eq_some.mp hstep
    cases hnext
    exact (Nat.zero_add _).trans_le ((Fq.Grows.attach hs hq).front p hp).2
  | arrive | silence =>
    cases hstep
    exact (Nat.zero_add _).le
  | deactivate | pipeTerminated | discardPendingRecords =>
    cases hstep
    exact (Nat.zero_add _).trans_le (hbelow.le.trans (Nat.le_add_left _ _))
  | activated q =>
    cases hstep
    exact (Nat.zero_add _).trans_le ((Fq.Grows.activated hs q).front p hp).2
  | redriveRecordAdmission maxPipes =>
    cases hstep
    exact (Nat.zero_add _).trans_le ((Fq.Grows.redriveRecordAdmission hs maxPipes).front p hp).2
  | recvpipe gate =>
    cases hstep
    obtain ⟨hkept, hother⟩ := hwait.2 gate rfl
    rw [received_fq] at hfront ⊢
    exact hs.waits_recvpipe hfront hkept hother
  | hasIn =>
    cases hstep
    exact (Nat.zero_add _).trans_le (hs.waits_turns hs.hasIn_turns hfront).2.1

/-- The pipes take turns. While an active pipe waits, the records that the others bring to
their end are no more than the pipes that stood before it and those that joined since; and
fewer pipes stood before it than there were active ones. -/
theorem run_fair {publish : Bool} {cached : P → Bool} {inlet : P → Inlet α}
    {es fs : List (Event P α)}
    (hrun : Trace.run step (create publish cached inlet) es = some w) (hp : w.fq.Front p)
    (hwaiting : Trace.Along step (Waiting p) w fs) (hnext : Trace.run step w fs = some w') :
    w.fq.waits p < w.fq.active ∧ Trace.total step completed w fs + w'.fq.waits p ≤
        w.fq.waits p + Trace.total step joining w fs := by
  have h := run_reader hrun
  have hpay (x : Watched P α) (e : Event P α) (y : Watched P α)
      (hx : x.Reader ∧ x.fq.Front p) (hwait : Waiting p x e) (hstep : x.step e = some y) :
      (y.Reader ∧ y.fq.Front p) ∧ x.completed e + y.fq.waits p ≤ x.fq.waits p + x.joining e :=
    ⟨⟨hx.1.step hstep, hwait.1 y hstep⟩, hx.1.waits_step hx.2 hwait hstep⟩
  exact ⟨hp.waits_lt h.sound,
    Trace.total_le (m := fun w => w.fq.waits p) hpay ⟨h, hp⟩ hwaiting hnext⟩

/-- The second of two pipes waits for one record of the first. -/
theorem run_fair_second : ∃ w w' : Watched ℕ ℕ,
    Trace.run step (create false (fun _ => false) fun _ => ⟨true, []⟩)
      [.attach 0, .attach 1, .arrive 0 [.frame ⟨false, 7⟩ false]] = some w ∧
    Trace.run step w [.recvpipe none] = some w' ∧
      Trace.total step completed w [.recvpipe none] + w'.fq.waits 1 ≤
        w.fq.waits 1 + Trace.total step joining w [.recvpipe none] := by
  refine Exists.imp (fun w hrun => Exists.imp (fun w' hnext => ⟨hrun, hnext, ?_⟩)
    (Option.isSome_iff_exists.mp ?_)) (Option.isSome_iff_exists.mp rfl)
  · refine (run_fair hrun ?_ ?_ hnext).2
    · cases hrun
      exact ⟨by decide, by decide⟩
    · refine ⟨⟨fun x hx => ?_, fun gate hgate => ?_⟩, fun _ _ => trivial⟩
      · cases hrun
        cases hx
        exact ⟨by decide, by decide⟩
      · cases hrun
        cases hgate
        exact ⟨Fq.not_rejects_none, fun part hpart => by cases hpart⟩
  · cases hrun
    rfl

/-- What arrives in the pipe with an event. -/
def arrived (p : P) : Event P α → List (LoadBalancer.Part α)
  | .arrive q items => if q = p then items.filterMap Item.part else []
  | _ => []

/-- What is received from the pipe with an event. -/
def taken (w : Watched P α) (p : P) : Event P α → List (LoadBalancer.Part α)
  | .recvpipe gate => (w.fq.recvpipe gate).2.parts p
  | _ => []

/-- What is received from the pipe along a run. -/
def receivedFrom (p : P) : Watched P α → List (Event P α) → List (LoadBalancer.Part α)
  | _, [] => []
  | w, e :: es => w.taken p e ++ ((w.step e).map fun w' => receivedFrom p w' es).getD []

/-- No record of the pipe is discarded or rejected. -/
def Spares (p : P) (w : Watched P α) (e : Event P α) : Prop :=
  (e ≠ .discardPendingRecords p) ∧ ∀ gate, e = .recvpipe gate → ¬ w.fq.Rejects gate p

theorem Reader.parts_step {e : Event P α} (h : w.Reader) (hspares : Spares p w e)
    (hstep : w.step e = some w') :
    w.taken p e ++ (w'.fq.inlet p).parts = (w.fq.inlet p).parts ++ arrived p e := by
  have hs := h.sound
  have hnone {fq : Fq P α} (hfq : (fq.inlet p).parts = (w.fq.inlet p).parts) :
      [] ++ (fq.inlet p).parts = (w.fq.inlet p).parts ++ [] := by
    rw [hfq, List.nil_append, List.append_nil]
  cases e with
  | attach q =>
    obtain ⟨hq, hnext⟩ := Option.ite_none_left_eq_some.mp hstep
    cases hnext
    exact hnone rfl
  | arrive q items =>
    cases hstep
    show [] ++ (Function.update w.fq.inlet q _ p).parts =
      _ ++ if q = p then items.filterMap Item.part else []
    split
    case isTrue heq =>
      subst heq
      rw [Function.update_self]
      exact List.filterMap_append
    case isFalse hne =>
      rw [Function.update_of_ne fun heq => hne heq.symm]
      exact (List.append_nil _).symm
  | silence q =>
    cases hstep
    exact hnone (Fq.parts_setInlet (by rfl) p)
  | deactivate q =>
    cases hstep
    exact hnone ((Fq.Leaves.deactivate hs q).parts p)
  | activated q =>
    cases hstep
    exact hnone ((Fq.Grows.activated hs q).parts p)
  | pipeTerminated q =>
    cases hstep
    exact hnone ((Fq.Leaves.pipeTerminated hs q).parts p)
  | discardPendingRecords q =>
    cases hstep
    have hne : p ≠ q := by
      rintro rfl
      exact hspares.1 rfl
    exact hnone (((Fq.Moves.discardPendingRecords hs q).parts p).trans
      (congrArg Inlet.parts (Function.update_of_ne hne _ _)))
  | redriveRecordAdmission maxPipes =>
    cases hstep
    exact hnone ((Fq.Grows.redriveRecordAdmission hs maxPipes).parts p)
  | recvpipe gate =>
    cases hstep
    rw [received_fq]
    exact (hs.parts_recvpipe (hspares.2 gate rfl)).trans (List.append_nil _).symm
  | hasIn =>
    cases hstep
    exact hnone ((Fq.Moves.hasIn hs).parts p)

theorem parts_run {es : List (Event P α)} (h : w.Reader)
    (hspares : Trace.Along step (Spares p) w es) (hrun : Trace.run step w es = some w') :
    receivedFrom p w es ++ (w'.fq.inlet p).parts =
      (w.fq.inlet p).parts ++ es.flatMap (arrived p) := by
  induction es generalizing w with
  | nil =>
    cases hrun
    exact (List.append_nil _).symm
  | cons e es ih =>
    obtain ⟨mid, hstep, hrest⟩ := Option.bind_eq_some_iff.mp hrun
    have hnext := ih (h.step hstep) (hspares.2 mid hstep) hrest
    rw [receivedFrom, hstep, Option.map_some, Option.getD_some, List.append_assoc, hnext,
      ← List.append_assoc, h.parts_step hspares.1 hstep, List.flatMap_cons, List.append_assoc]

/-- Nothing is lost, doubled or put in another order. What has been received from a pipe of
which no record was discarded or rejected, and what still stands in it, is what it held and
what arrived. -/
theorem run_conserves {publish : Bool} {cached : P → Bool} {inlet : P → Inlet α}
    {es : List (Event P α)} (p : P)
    (hspares : Trace.Along step (Spares p) (create publish cached inlet) es)
    (hrun : Trace.run step (create publish cached inlet) es = some w) :
    receivedFrom p (create publish cached inlet) es ++ (w.fq.inlet p).parts =
      (inlet p).parts ++ es.flatMap (arrived p) :=
  parts_run (reader_create publish cached inlet) hspares hrun

/-- Of two frames that arrive one is received and the other still stands in the pipe. -/
theorem run_conserves_two : ∃ w : Watched ℕ ℕ,
    Trace.run step (create false (fun _ => false) fun _ => ⟨true, []⟩) [.attach 0,
      .arrive 0 [.frame ⟨false, 7⟩ false, .frame ⟨false, 8⟩ false], .recvpipe none] = some w ∧
    receivedFrom 0 (create false (fun _ => false) fun _ => ⟨true, []⟩) [.attach 0,
      .arrive 0 [.frame ⟨false, 7⟩ false, .frame ⟨false, 8⟩ false], .recvpipe none] ++
        (w.fq.inlet 0).parts = [⟨false, 7⟩, ⟨false, 8⟩] := by
  refine Exists.imp (fun w hrun => ⟨hrun, run_conserves 0 ?_ hrun⟩)
    (Option.isSome_iff_exists.mp rfl)
  refine ⟨⟨nofun, nofun⟩, fun x hx => ⟨⟨nofun, nofun⟩, fun y hy => ⟨⟨nofun, ?_⟩,
    fun _ _ => trivial⟩⟩⟩
  rintro gate ⟨⟩
  exact Fq.not_rejects_none

end Watched

end Zlink.FairQueue
