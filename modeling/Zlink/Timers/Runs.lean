import Zlink.Timers.Progress

/-!
# Runs of a timer

Fires, cancels and the steps of their calls in any order, with any answers of the environment:
what the earlier modules say of one step holds of every state that a run reaches.
-/

namespace Zlink.Timers

variable {s t : State} {c : Core} {x : Activity} {answer : Answer} {stops : Bool} {e : Event}
  {es : List Event}

structure Sound (stops : Bool) (s : State) : Prop where
  single : Single s
  accounted : Accounted s
  claimed : Claimed s
  ends : Ends s
  brings : Brings s
  gives : Gives stops s

theorem sound_start : Sound stops start := by
  constructor
  · rfl
  · rfl
  · exact ⟨fun _ => rfl, fun _ => Nat.zero_le _, fun _ => Nat.zero_le _⟩
  · exact ⟨nofun, nofun, rfl, nofun, nofun⟩
  · exact brought_of_empty rfl rfl
  · exact ⟨⟨fun h => absurd rfl h, fun h => absurd rfl h, nofun⟩, fun _ => rfl⟩

theorem total_append (x : Activity) (w : Activity → ℕ) :
    State.total ⟨c, s.activities ++ [x]⟩ w = s.total w + w x := by
  rw [State.total, Pool.sum_append, List.map_singleton, List.sum_singleton]
  rfl

/-- A call that begins holds nothing. -/
structure Fresh (x : Activity) : Prop where
  callbacks : callbacks x = 0
  claims : ∀ a, claimsOf a x = 0 ∧ admitting a x = 0
  completers : completers x = 0
  cleaners : cleaners x = 0
  stoppers : stoppers x = 0

theorem Sound.begin (h : Sound stops s) (hfresh : Fresh x) (fires : ℕ) (hfires : inHand x = fires) :
    Sound stops ⟨s.core.fire fires, s.activities ++ [x]⟩ := by
  constructor
  · have hsingle := h.single
    unfold Single at *
    rw [total_append, hfresh.callbacks]
    exact hsingle
  · have haccounted := h.accounted
    unfold Accounted at *
    rw [total_append, hfires]
    change s.core.ledger.fired + fires = s.core.accounted + (s.total inHand + fires)
    omega
  · obtain ⟨hplaced, honce, howned⟩ := h.claimed
    constructor
    · intro a
      rw [total_append, (hfresh.claims a).1]
      exact hplaced a
    · intro a
      rw [total_append, (hfresh.claims a).2]
      exact honce a
    · intro a
      rw [total_append]
      exact (howned a).trans (Nat.le_add_right _ _)
  · unfold Ends
    rw [total_append, total_append, total_append, hfresh.completers, hfresh.cleaners]
    exact Ending.same h.ends rfl rfl rfl rfl rfl rfl rfl rfl (Nat.le_add_right _ _)
  · unfold Brings
    simp only [total_append]
    exact Brought.same h.brings id rfl rfl id rfl fun a _ _ => Nat.le_add_right _ _
  · refine ⟨h.gives.core.same rfl rfl rfl rfl, fun hstops => ?_⟩
    rw [total_append, hfresh.stoppers]
    exact h.gives.calls hstops

theorem Sound.steps (h : Sound stops s) (hsteps : Steps stops s t) : Sound stops t where
  single := h.single.steps hsteps
  accounted := h.accounted.steps hsteps
  claimed := h.claimed.steps hsteps
  ends := h.ends.steps h.single hsteps
  brings := h.brings.steps hsteps
  gives := h.gives.steps hsteps

theorem Sound.step (h : Sound stops s) (hstep : step stops s e = some t) : Sound stops t := by
  cases e with
  | fire fires =>
    obtain rfl := Option.some.inj hstep
    exact h.begin ⟨rfl, fun _ => ⟨rfl, rfl⟩, rfl, rfl, rfl⟩ fires rfl
  | direct fires =>
    obtain rfl := Option.some.inj hstep
    exact h.begin (x := .direct fires) ⟨rfl, fun _ => ⟨rfl, rfl⟩, rfl, rfl, rfl⟩ 0 rfl
  | cancel =>
    obtain rfl := Option.some.inj hstep
    exact h.begin (x := .cancel) ⟨rfl, fun _ => ⟨rfl, rfl⟩, rfl, rfl, rfl⟩ 0 rfl
  | advance k answer => exact h.steps (steps_of_advance hstep)

theorem Sound.run (hrun : Trace.run (Timers.step stops) start es = some s) : Sound stops s :=
  Trace.run_invariant (fun _ _ _ h _ hstep => h.step hstep) sound_start (Trace.along_true _ _) hrun

def Event.isDirect : Event → Bool
  | .direct _ => true
  | _ => false

theorem Keeps.begin (h : Keeps s) (fires : ℕ) (hx : directs x = 0) :
    Keeps ⟨s.core.fire fires, s.activities ++ [x]⟩ := by
  refine ⟨h.core.same rfl rfl rfl rfl, ?_⟩
  rw [total_append, hx]
  exact h.calls

theorem Keeps.step (h : Keeps s) (hsound : Sound stops s) (hdirect : e.isDirect = false)
    (hstep : step stops s e = some t) : Keeps t := by
  cases e with
  | fire fires =>
    obtain rfl := Option.some.inj hstep
    exact h.begin fires rfl
  | direct fires => cases hdirect
  | cancel =>
    obtain rfl := Option.some.inj hstep
    exact h.begin (x := .cancel) 0 rfl
  | advance k answer => exact h.steps hsound.single (steps_of_advance hstep)

theorem keeps_start : Keeps start :=
  ⟨⟨rfl, nofun, nofun⟩, rfl⟩

theorem along_of_all {C : Event → Prop} (h : ∀ e ∈ es, C e) (s : State) :
    Trace.Along (step stops) (fun _ e => C e) s es := by
  induction es generalizing s with
  | nil => trivial
  | cons e es ih =>
    exact ⟨h e List.mem_cons_self, fun t _ => ih (fun e he => h e (List.mem_cons_of_mem _ he)) t⟩

theorem Keeps.run (hdirect : ∀ e ∈ es, e.isDirect = false)
    (hrun : Trace.run (Timers.step stops) start es = some s) : Keeps s := by
  have hinv := Trace.run_invariant (I := fun s => Keeps s ∧ Sound stops s)
    (C := fun _ e => e.isDirect = false)
    (fun _ _ _ h hC hstep => ⟨h.1.step h.2 hC hstep, h.2.step hstep⟩)
    ⟨keeps_start, sound_start⟩ (along_of_all hdirect start) hrun
  exact hinv.1

/-- A `cancel` before its first section. -/
def cancellers : Activity → ℕ
  | .cancel => 1
  | _ => 0

theorem perform_cancelled (h : x = .cancel ∨ c.timer.cancelCompletion = true) :
    (perform stops c answer x).1.timer.cancelCompletion = true := by
  cases x with
  | cancel =>
    simp only [perform, cancel]
    split
    · assumption
    · rw [timer_discard]
  | post | reset =>
    have hcancel := h.resolve_left (by simp)
    simp only [perform, post, resetRunning]
    split_ifs
    · rwa [timer_discard]
    all_goals exact hcancel
  | claim | offer | rollback | direct | callback | settle =>
    simp only [perform, claim, offer, rollback, admitDirect, endCallback, completeCancelIfReady]
    split <;> exact h.resolve_left (by simp)
  | queued | enter =>
    simp only [perform, dispatchQueued, dispatchDirect]
    split_ifs <;> exact h.resolve_left (by simp)
  | admitTimerFire | stop | complete | finish | cleanup | cleaned | leave =>
    exact h.resolve_left (by simp)

/-- `cancel` was called. -/
def Cancels (s : State) : Prop :=
  0 < s.total cancellers ∨ s.core.timer.cancelCompletion = true

theorem Cancels.steps (h : Cancels s) (hsteps : Steps stops s t) : Cancels t := by
  obtain ⟨x, answer, hmem, hcore, htotal⟩ := hsteps
  by_cases hdone : x = .cancel ∨ s.core.timer.cancelCompletion = true
  · right
    rw [hcore]
    exact perform_cancelled hdone
  · rw [not_or] at hdone
    have hx : cancellers x = 0 := by
      cases x with
      | cancel => exact absurd rfl hdone.1
      | _ => rfl
    have hwaits := h.resolve_right hdone.2
    have hsum := htotal cancellers
    exact .inl (by omega)

theorem Cancels.step (h : e = .cancel ∨ Cancels s) (hstep : step stops s e = some t) :
    Cancels t := by
  cases e with
  | cancel =>
    obtain rfl := Option.some.inj hstep
    left
    rw [total_append]
    exact Nat.succ_pos _
  | fire | direct =>
    obtain rfl := Option.some.inj hstep
    refine (h.resolve_left nofun).imp_left fun hwaits => ?_
    rw [total_append]
    exact Nat.lt_add_right _ hwaits
  | advance k answer => exact (h.resolve_left nofun).steps (steps_of_advance hstep)

theorem Cancels.run (h : .cancel ∈ es ∨ Cancels s)
    (hrun : Trace.run (Timers.step stops) s es = some t) : Cancels t := by
  induction es generalizing s with
  | nil =>
    obtain rfl := Option.some.inj hrun
    exact h.resolve_left List.not_mem_nil
  | cons e es ih =>
    obtain ⟨u, hu, hrest⟩ := Option.bind_eq_some_iff.mp hrun
    refine ih ?_ hrest
    rw [List.mem_cons, or_right_comm] at h
    exact h.symm.imp_right fun h => Cancels.step (h.imp_left Eq.symm) hu

structure Conserved (stops : Bool) (es : List Event) (s : State) : Prop where
  /-- At most one callback runs. -/
  callback : s.total callbacks ≤ 1
  /-- Every fire is dispatched, counted, past the range of the count, given up, forgotten by a
  direct dispatch, or on its way into the count. -/
  fires : s.core.ledger.fired =
      s.core.ledger.dispatched + s.core.timer.pendingFireCount + s.core.ledger.saturated +
        (s.core.ledger.cancelled + s.core.ledger.stopped) + s.core.ledger.forgotten +
          s.total inHand
  forgotten : (∀ e ∈ es, e.isDirect = false) → s.core.ledger.forgotten = 0
  /-- Fires are given up only when the timer is disposed: by `cancel`, or by a failed callback
  of a timer that is to stop on one. -/
  cancelled : s.core.ledger.cancelled ≠ 0 → s.core.timer.cancelCompletion = true
  stopped : s.core.ledger.stopped ≠ 0 → s.core.timer.disposed = true
  disposed : s.core.timer.disposed = true → s.core.timer.cancelCompletion = true ∨ stops = true
  /-- A pending fire has a callback at whose end it is posted, or a call that brings it. -/
  pending : s.core.timer.disposed = false → s.core.timer.pendingFire ≠ none →
    0 < s.total callbacks ∨ ∃ a, 0 < s.total (bringers a)
  /-- What the queue was not refused has been dispatched when no call is under way. -/
  dispatched : s.activities = [] → s.core.timer.disposed = false → s.core.ledger.refused = false →
    s.core.ledger.fired =
      s.core.ledger.dispatched + s.core.ledger.saturated + s.core.ledger.forgotten
  /-- A claim is released at most once, and no call under way leaves one behind. -/
  claims : ∀ a, s.core.claims.released.count a ≤ s.core.claims.claimed.count a ∧
    s.core.claims.claimed.count a ≤ 1
  released : s.activities = [] → ∀ a, s.core.claims.released.count a = s.core.claims.claimed.count a
  /-- The task of `cancel` completes once, behind the cleanup and the last callback. -/
  completed : s.core.completions ≤ 1
  ready : s.core.completions ≠ 0 → s.core.timer.cleanupResult.isSome = true ∧ s.total callbacks = 0
  done : s.activities = [] → .cancel ∈ es → s.core.completions = 1
  /-- The calls under way come to an end. -/
  ends : ∀ k answer t, step stops s (.advance k answer) = some t → t.weight < s.weight

theorem Sound.pending (h : Sound stops s) (hopen : s.core.timer.disposed = false)
    (hpending : s.core.timer.pendingFire ≠ none) :
    0 < s.total callbacks ∨ ∃ a, 0 < s.total (bringers a) := by
  obtain ⟨pending, hfire⟩ := Option.ne_none_iff_exists'.mp hpending
  cases pending with
  | none =>
    left
    rw [h.single, h.brings.counted hopen hfire]
    exact Nat.one_pos
  | some a => exact .inr ⟨a, h.brings.queued a hopen hfire⟩

theorem Sound.left (h : Sound stops s) (hquiet : s.activities = [])
    (hopen : s.core.timer.disposed = false) (hrefused : s.core.ledger.refused = false) :
    s.core.timer.pendingFireCount = 0 := by
  have hnone (w : Activity → ℕ) : s.total w = 0 := by
    rw [State.total, hquiet]
    rfl
  have hpending : s.core.timer.pendingFire = none := by
    by_contra hsome
    rcases h.pending hopen hsome with hrunning | ⟨a, hbrings⟩
    · exact absurd (hnone _) hrunning.ne'
    · exact absurd (hnone _) hbrings.ne'
  by_contra hcount
  rw [h.brings.left hopen hpending hcount] at hrefused
  cases hrefused

theorem Sound.nothing_given_up (h : Sound stops s) (hopen : s.core.timer.disposed = false) :
    s.core.ledger.cancelled = 0 ∧ s.core.ledger.stopped = 0 := by
  constructor
  · by_contra hsome
    have hdisposed := h.ends.disposed (h.gives.core.cancelled hsome)
    exact absurd (hopen.symm.trans hdisposed) Bool.false_ne_true
  · by_contra hsome
    exact absurd (hopen.symm.trans (h.gives.core.stopped hsome)) Bool.false_ne_true

theorem Sound.done (h : Sound stops s) (hquiet : s.activities = []) (hcancels : Cancels s) :
    s.core.completions = 1 := by
  have hnone (w : Activity → ℕ) : s.total w = 0 := by
    rw [State.total, hquiet]
    rfl
  have hcancel : s.core.timer.cancelCompletion = true :=
    hcancels.resolve_left (hnone _).not_gt
  have hidle : s.core.timer.running = false := by
    have hsingle := h.single
    unfold Single at hsingle
    rw [hnone] at hsingle
    exact Bool.toNat_eq_zero.mp hsingle.symm
  have hcompleted : s.core.timer.cancelCompleted = true := by
    by_contra hopen
    have hsettled := h.ends.settled hcancel (Bool.not_eq_true _ ▸ hopen) hidle
    rw [hnone, hnone] at hsettled
    exact absurd hsettled (lt_irrefl _)
  have hcompletions := h.ends.completed
  rwa [hnone, hcompleted] at hcompletions

/-- Along every run of fires, refusals, dispatches, ends of callbacks and cancels, fires are
conserved, claims are released once, and the task of `cancel` completes once. -/
theorem run_timer_conserved (hrun : Trace.run (step stops) start es = some s) :
    Conserved stops es s := by
  have h := Sound.run hrun
  have hone : s.core.timer.running.toNat ≤ 1 := Bool.toNat_le _
  have hcompletions : s.core.completions ≤ s.core.timer.cancelCompleted.toNat :=
    (Nat.le_add_right _ _).trans_eq h.ends.completed
  have hfires := h.accounted
  unfold Accounted Core.accounted at hfires
  constructor
  · rw [h.single]
    exact hone
  · exact hfires
  · exact fun hdirect => (Keeps.run hdirect hrun).core.none
  · exact h.gives.core.cancelled
  · exact h.gives.core.stopped
  · exact h.gives.core.disposed
  · exact h.pending
  · intro hquiet hopen hrefused
    rw [h.left hquiet hopen hrefused, (h.nothing_given_up hopen).1,
      (h.nothing_given_up hopen).2, State.total, hquiet, Nat.add_zero] at hfires
    rw [hfires, Nat.add_right_comm]
    rfl
  · intro a
    have hplaced := h.claimed.placed a
    unfold Claims.placed at hplaced
    exact ⟨by omega, h.claimed.claimed_le a⟩
  · exact h.claimed.released_eq
  · exact hcompletions.trans (Bool.toNat_le _)
  · intro hsome
    have hcompleted : s.core.timer.cancelCompleted = true := by
      by_contra hopen
      rw [Bool.not_eq_true] at hopen
      rw [hopen] at hcompletions
      exact hsome (Nat.le_zero.mp hcompletions)
    obtain ⟨-, hresult, hidle⟩ := h.ends.ready hcompleted
    refine ⟨hresult, ?_⟩
    rw [h.single, hidle]
    rfl
  · exact fun hquiet hcancel => h.done hquiet (Cancels.run (.inl hcancel) hrun)
  · exact fun k answer t hstep => weight_steps (steps_of_advance hstep)

/-- A yes, and a callback or a cleanup that succeeds. -/
def Answer.ok : Answer :=
  ⟨true, .success⟩

/-- A fire comes while the callback of another one runs, and a cancel behind the second. -/
theorem run_timer_conserved_cancel : ∃ s, Trace.run (step false) start
        ([.fire 1] ++ List.replicate 5 (.advance 0 .ok) ++ [.fire 2, .advance 1 .ok] ++
          List.replicate 13 (.advance 0 .ok) ++ [.cancel] ++
          List.replicate 6 (.advance 0 .ok)) = some s ∧
      s.activities = [] ∧ s.core.ledger.dispatched = 3 ∧ s.core.completions = 1 ∧ Conserved false
        ([.fire 1] ++ List.replicate 5 (.advance 0 .ok) ++ [.fire 2, .advance 1 .ok] ++
          List.replicate 13 (.advance 0 .ok) ++ [.cancel] ++ List.replicate 6 (.advance 0 .ok)) s :=
  ⟨_, rfl, rfl, rfl, rfl, run_timer_conserved rfl⟩

/-- A timer that stops on a failed callback gives up a fire that came while the callback ran,
though nobody has cancelled it. -/
theorem run_gives_up_stopped : ¬ ∀ (stops : Bool) (es : List Event) (s : State),
      Trace.run (step stops) start es = some s → s.activities = [] → s.core.ledger.fired =
          s.core.ledger.dispatched + s.core.timer.pendingFireCount + s.core.ledger.saturated +
            s.core.ledger.cancelled := by
  intro h
  have hrun := h true
    ([.fire 1] ++ List.replicate 5 (.advance 0 .ok) ++ [.fire 1, .advance 1 .ok] ++
      List.replicate 5 (.advance 0 ⟨true, .failure⟩)) _ rfl rfl
  revert hrun
  decide

end Zlink.Timers
