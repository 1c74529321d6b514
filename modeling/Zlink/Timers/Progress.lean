import Zlink.Timers.Completion

/-!
# Why fires are given up, and why the calls end

Fires are given up only behind the disposal of the timer, and only a direct dispatch makes the
end of a callback forget some. Every step of a call lowers one weight, so the calls under way
come to an end, whatever their environment answers.
-/

namespace Zlink.Timers

variable {s t : State} {c d : Core} {x : Activity} {answer : Answer} {stops : Bool}

/-- What was given up was given up because of `cancel`, or because the timer is stopped. -/
structure GivenUp (stops : Bool) (c : Core) : Prop where
  cancelled : c.ledger.cancelled ≠ 0 → c.timer.cancelCompletion = true
  stopped : c.ledger.stopped ≠ 0 → c.timer.disposed = true
  disposed : c.timer.disposed = true → c.timer.cancelCompletion = true ∨ stops = true

theorem GivenUp.same (h : GivenUp stops c) (hcancelled : d.ledger.cancelled = c.ledger.cancelled)
    (hstopped : d.ledger.stopped = c.ledger.stopped)
    (hdisposed : d.timer.disposed = c.timer.disposed)
    (hcompletion : d.timer.cancelCompletion = c.timer.cancelCompletion) : GivenUp stops d := by
  constructor
  · rw [hcancelled, hcompletion]
    exact h.cancelled
  · rw [hstopped, hdisposed]
    exact h.stopped
  · rw [hdisposed, hcompletion]
    exact h.disposed

theorem GivenUp.discard (h : GivenUp stops c) (hdisposed : c.timer.disposed = true) (fires : ℕ) :
    GivenUp stops (c.discard fires) := by
  unfold Core.discard
  split
  · rename_i hcancel
    exact ⟨fun _ => hcancel, h.stopped, h.disposed⟩
  · exact ⟨h.cancelled, fun _ => hdisposed, h.disposed⟩

/-- The calls that stand behind a callback that has failed. -/
def stoppers : Activity → ℕ
  | .stop _ => 1
  | _ => 0

@[simp] theorem stoppers_returning (after : Option ℕ) :
    ((returning after).map stoppers).sum = 0 := by
  cases after <;> rfl

theorem stoppers_next (caller : Caller) : stoppers caller.next = 0 := by
  rcases caller with ⟨_, _ | _⟩ | _ <;> rfl

theorem perform_stoppers : ((perform false c answer x).2.map stoppers).sum = 0 := by
  cases x with
  | post fires after =>
    simp only [perform, post]
    split_ifs <;> first | exact stoppers_returning after | rfl
  | admitTimerFire | stop | finish | cleanup | cleaned | leave => rfl
  | claim | direct | cancel =>
    simp only [perform, claim, admitDirect, cancel]
    split <;> rfl
  | offer admission admitted after =>
    simp only [perform, offer]
    split
    · rw [List.map_cons, List.sum_cons, stoppers_returning]
      rfl
    · rfl
  | rollback admission after =>
    simp only [perform, rollback]
    split <;> exact stoppers_returning after
  | queued | enter | reset =>
    simp only [perform, dispatchQueued, dispatchDirect, resetRunning]
    split_ifs <;> rfl
  | callback admission =>
    simp only [perform, endCallback]
    split
    · rename_i hstop
      exact absurd hstop.2 Bool.false_ne_true
    · rfl
  | settle caller =>
    simp only [perform, completeCancelIfReady]
    split
    · rfl
    · rw [List.map_singleton, List.sum_singleton, stoppers_next]
  | complete caller => rw [perform, List.map_singleton, List.sum_singleton, stoppers_next]

theorem perform_givenUp (h : GivenUp stops c) (hstop : stops = false → stoppers x = 0) :
    GivenUp stops (perform stops c answer x).1 := by
  cases x with
  | post fires after =>
    simp only [perform, post]
    split_ifs with hdisposed
    · exact h.discard hdisposed fires
    all_goals exact h.same rfl rfl rfl rfl
  | admitTimerFire | complete | finish | cleaned | leave => exact h.same rfl rfl rfl rfl
  | claim | rollback | direct | settle =>
    simp only [perform, claim, rollback, admitDirect, completeCancelIfReady]
    split <;> exact h.same rfl rfl rfl rfl
  | offer | callback =>
    simp only [perform, offer, endCallback]
    split <;> exact h
  | queued | enter =>
    simp only [perform, dispatchQueued, dispatchDirect]
    split_ifs <;> exact h.same rfl rfl rfl rfl
  | stop admission =>
    refine ⟨h.cancelled, fun _ => rfl, fun _ => .inr ?_⟩
    by_contra hno
    exact absurd (hstop (Bool.not_eq_true _ ▸ hno)) one_ne_zero
  | reset admission =>
    have hidle : GivenUp stops (c.takePending.setRunning false) := h.same rfl rfl rfl rfl
    simp only [perform, resetRunning]
    split_ifs with hdisposed
    · exact hidle.discard hdisposed _
    · exact hidle
    · exact hidle.same rfl rfl rfl rfl
  | cancel =>
    simp only [perform, cancel]
    split
    · exact h
    · dsimp only
      apply GivenUp.discard
      · exact ⟨fun _ => rfl, fun _ => rfl, fun _ => .inl rfl⟩
      · rfl
  | cleanup taken => exact h

structure Gives (stops : Bool) (s : State) : Prop where
  core : GivenUp stops s.core
  calls : stops = false → s.total stoppers = 0

theorem Gives.steps (h : Gives stops s) (hsteps : Steps stops s t) : Gives stops t := by
  obtain ⟨x, answer, hmem, hcore, htotal⟩ := hsteps
  constructor
  · rw [hcore]
    refine perform_givenUp h.core fun hstops => ?_
    have hle : stoppers x ≤ s.total stoppers := Pool.le_sum hmem
    exact Nat.le_zero.mp (hle.trans_eq (h.calls hstops))
  · rintro rfl
    have hsum := htotal stoppers
    rw [perform_stoppers, h.calls rfl] at hsum
    omega

def directs : Activity → ℕ
  | .direct _ | .enter _ _ => 1
  | _ => 0

@[simp] theorem directs_returning (after : Option ℕ) : ((returning after).map directs).sum = 0 := by
  cases after <;> rfl

theorem directs_next (caller : Caller) : directs caller.next = 0 := by
  rcases caller with ⟨_, _ | _⟩ | _ <;> rfl

structure Kept (c : Core) : Prop where
  none : c.ledger.forgotten = 0
  alone : c.timer.running = true → ∀ a, c.timer.pendingFire ≠ some (some a)
  counted : c.timer.running = true → c.timer.pendingFire = Option.none → c.timer.pendingFireCount = 0

theorem Kept.same (h : Kept c) (hforgotten : d.ledger.forgotten = c.ledger.forgotten)
    (hrunning : d.timer.running = c.timer.running)
    (hpending : d.timer.pendingFire = c.timer.pendingFire)
    (hcount : d.timer.pendingFireCount = c.timer.pendingFireCount) : Kept d := by
  constructor
  · rw [hforgotten]
    exact h.none
  · rw [hrunning, hpending]
    exact h.alone
  · rw [hrunning, hpending, hcount]
    exact h.counted

theorem forgotten_discard (fires : ℕ) :
    (c.discard fires).ledger.forgotten = c.ledger.forgotten := by
  unfold Core.discard
  split <;> rfl

theorem Kept.idle (hforgotten : d.ledger.forgotten = 0) (hidle : d.timer.running = false) :
    Kept d := by
  refine ⟨hforgotten, fun h => ?_, fun h => ?_⟩
  all_goals exact absurd (hidle.symm.trans h) Bool.false_ne_true

theorem Kept.mark (h : Kept c) (fires : ℕ) : Kept (c.count fires).markPending := by
  refine ⟨h.none, fun hrunning a => ?_, fun _ hthen => ?_⟩
  · have halone := h.alone hrunning a
    change c.timer.pendingFire.or (some Option.none) ≠ some (some a)
    cases hfire : c.timer.pendingFire with
    | none => simp
    | some pending =>
      rw [hfire] at halone
      exact halone
  · change c.timer.pendingFire.or (some Option.none) = Option.none at hthen
    simp at hthen

variable (answer stops) in
theorem perform_kept (h : Kept c) (hdirect : directs x = 0)
    (hrunning : callbacks x ≤ c.timer.running.toNat) : Kept (perform stops c answer x).1 ∧
      ((perform stops c answer x).2.map directs).sum = 0 := by
  cases x with
  | post fires after =>
    simp only [perform, post]
    split_ifs with hdisposed hbusy
    · exact ⟨h.same (forgotten_discard fires) (by simp) (by simp) (by simp),
        directs_returning after⟩
    · exact ⟨h.mark fires, directs_returning after⟩
    · rw [not_or, Bool.not_eq_true, Bool.not_eq_true] at hbusy
      exact ⟨.idle h.none hbusy.2, rfl⟩
  | admitTimerFire | stop | finish | cleaned | leave => exact ⟨h.same rfl rfl rfl rfl, rfl⟩
  | claim admission admitted after =>
    simp only [perform, claim]
    split <;> exact ⟨h.same rfl rfl rfl rfl, rfl⟩
  | offer admission admitted after =>
    simp only [perform, offer]
    split
    · refine ⟨h, ?_⟩
      rw [List.map_cons, List.sum_cons, directs_returning]
      rfl
    · exact ⟨h, rfl⟩
  | rollback admission after =>
    simp only [perform, rollback]
    split
    · rename_i hawaits
      refine ⟨⟨h.none, (fun _ a hthen => by cases hthen), fun hbusy _ => ?_⟩,
        directs_returning after⟩
      exact absurd (awaits_iff.mp hawaits) (h.alone hbusy admission)
    · exact ⟨h.same rfl rfl rfl rfl, directs_returning after⟩
  | queued admission =>
    simp only [perform, dispatchQueued]
    split_ifs with hother hbusy
    · exact ⟨h, rfl⟩
    · exact absurd (pending_of_not_gone hother) (h.alone hbusy admission)
    · exact ⟨⟨h.none, (fun _ a hthen => by cases hthen), fun _ _ => rfl⟩, rfl⟩
  | direct | enter => exact absurd hdirect one_ne_zero
  | callback admission =>
    simp only [perform, endCallback]
    split <;> exact ⟨h, rfl⟩
  | reset admission =>
    have hbusy : c.timer.running = true :=
      Bool.toNat_eq_one.mp ((Bool.toNat_le _).antisymm hrunning)
    simp only [perform, resetRunning]
    split_ifs with hdisposed hpending
    · exact ⟨.idle ((forgotten_discard _).trans h.none) (by rw [timer_discard]; rfl), rfl⟩
    · exact ⟨.idle h.none rfl, rfl⟩
    · -- what the callback has left without a pending fire is nothing
      have hcount := h.counted hbusy (Option.not_isSome_iff_eq_none.mp hpending)
      refine ⟨.idle ?_ rfl, rfl⟩
      change c.ledger.forgotten + c.timer.pendingFireCount = 0
      rw [h.none, hcount]
  | settle caller =>
    simp only [perform, completeCancelIfReady]
    split
    · exact ⟨h.same rfl rfl rfl rfl, rfl⟩
    · rw [List.map_singleton, List.sum_singleton, directs_next]
      exact ⟨h, rfl⟩
  | complete caller =>
    rw [perform, List.map_singleton, List.sum_singleton, directs_next]
    exact ⟨h.same rfl rfl rfl rfl, rfl⟩
  | cancel =>
    simp only [perform, cancel]
    split
    · exact ⟨h, rfl⟩
    · refine ⟨⟨(forgotten_discard _).trans h.none, fun _ a => ?_, fun _ _ => ?_⟩, rfl⟩
      · rw [timer_discard]
        exact fun hthen => by cases hthen
      · rw [timer_discard]
        rfl
  | cleanup taken => exact ⟨h, rfl⟩

structure Keeps (s : State) : Prop where
  core : Kept s.core
  calls : s.total directs = 0

theorem Keeps.steps (h : Keeps s) (hsingle : Single s) (hsteps : Steps stops s t) : Keeps t := by
  obtain ⟨x, answer, hmem, hcore, htotal⟩ := hsteps
  have hle : directs x ≤ s.total directs := Pool.le_sum hmem
  obtain ⟨hkept, hcalls⟩ := perform_kept answer stops h.core
    (Nat.le_zero.mp (hle.trans_eq h.calls)) ((Pool.le_sum hmem).trans_eq hsingle)
  constructor
  · rw [hcore]
    exact hkept
  · have hsum := htotal directs
    rw [hcalls, h.calls] at hsum
    omega

def tail : Option ℕ → ℕ
  | some _ => 1
  | none => 0

/-- More than everything that the call can still lead to. -/
def weight : Activity → ℕ
  | .post _ after => 34 + tail after
  | .direct _ => 29
  | .enter _ _ => 28
  | .callback _ => 27
  | .stop _ => 26
  | .reset _ => 25
  | .admitTimerFire _ after => 20 + tail after
  | .claim _ _ after => 19 + tail after
  | .offer _ _ after => 18 + tail after
  | .queued _ => 15
  | .cancel => 10
  | .rollback _ after => 5 + tail after
  | .cleanup _ => 6
  | .cleaned _ _ => 5
  | .settle (.callback _ (some _)) => 37
  | .complete (.callback _ (some _)) => 36
  | .settle _ => 3
  | .complete _ => 2
  | .finish _ | .leave _ => 1

@[simp] theorem weight_returning (after : Option ℕ) :
    ((returning after).map weight).sum = tail after := by
  cases after <;> rfl

theorem weight_next (caller : Caller) : weight caller.next < weight (.complete caller) ∧
      weight (.complete caller) < weight (.settle caller) := by
  rcases caller with ⟨_, _ | _⟩ | _ <;> simp [weight, Caller.next, tail]

def TimerState.weight (x : TimerState) : ℕ :=
  if x.pendingFire.isSome then 13 else 0

theorem weight_mark (fires : ℕ) : (c.count fires).markPending.timer.weight = 13 := by
  have hor : (c.timer.pendingFire.or (some none)).isSome = true := by simp
  exact if_pos hor

variable (c x answer stops) in
theorem perform_weight :
    ((perform stops c answer x).2.map weight).sum + (perform stops c answer x).1.timer.weight <
      weight x + c.timer.weight := by
  cases x with
  | post fires after =>
    simp only [perform, post]
    split_ifs with hdisposed hbusy
    · rw [weight_returning, timer_discard]
      exact Nat.add_lt_add_right (by simp [weight]) _
    · rw [weight_returning, weight_mark]
      simp only [weight]
      omega
    · rw [not_or, Option.not_isSome_iff_eq_none] at hbusy
      simp [weight, TimerState.weight, hbusy.1]
      omega
  | admitTimerFire admission after => simp [perform, admitTimerFire, weight]
  | claim | direct | callback =>
    simp only [perform, claim, admitDirect, endCallback]
    split <;> simp [weight]
  | offer admission admitted after =>
    simp only [perform, offer]
    split
    · rw [List.map_cons, List.sum_cons, weight_returning]
      simp [weight]
    · simp [weight]
  | rollback admission after =>
    simp only [perform, rollback]
    split
    · rw [weight_returning]
      simp [weight, TimerState.weight]
      omega
    · rw [weight_returning]
      simp [weight]
  | queued admission =>
    simp only [perform, dispatchQueued]
    split_ifs with hother hbusy
    · simp [weight]
    · rw [weight_mark]
      simp [weight, TimerState.weight, pending_of_not_gone hother]
    · -- the callback weighs less than the work and the pending fire
      change 27 + 0 + 0 < 15 + c.timer.weight
      simp [TimerState.weight, pending_of_not_gone hother]
  | enter fires claim =>
    simp only [perform, dispatchDirect]
    split_ifs
    · simp [weight]
    · rw [weight_mark]
      simp [weight]
      omega
    · change 27 + 0 + c.timer.weight < 28 + c.timer.weight
      omega
  | stop admission =>
    change 25 + 0 + c.timer.weight < 26 + c.timer.weight
    omega
  | reset admission =>
    simp only [perform, resetRunning]
    split_ifs with hdisposed hpending
    · rw [timer_discard]
      change 3 + 0 + 0 < 25 + c.timer.weight
      omega
    · change 37 + 0 + 0 < 25 + c.timer.weight
      simp [TimerState.weight, hpending]
    · change 3 + 0 + 0 < 25 + c.timer.weight
      omega
  | settle caller =>
    obtain ⟨hnext, hcomplete⟩ := weight_next caller
    simp only [perform, completeCancelIfReady]
    split
    · rw [List.map_singleton, List.sum_singleton]
      exact Nat.add_lt_add_right hcomplete _
    · rw [List.map_singleton, List.sum_singleton]
      exact Nat.add_lt_add_right (hnext.trans hcomplete) _
  | complete caller =>
    rw [perform, List.map_singleton, List.sum_singleton]
    exact Nat.add_lt_add_right (weight_next caller).1 _
  | finish | cleanup | leave => simp [perform, weight]
  | cancel =>
    simp only [perform, cancel]
    split
    · simp [weight]
    · rw [timer_discard]
      change 6 + 0 + 0 < 10 + c.timer.weight
      omega
  | cleaned taken result =>
    change 3 + 0 + c.timer.weight < 5 + c.timer.weight
    omega

def State.weight (s : State) : ℕ :=
  s.total Timers.weight + s.core.timer.weight

theorem weight_steps (hsteps : Steps stops s t) : t.weight < s.weight := by
  obtain ⟨x, answer, hmem, hcore, htotal⟩ := hsteps
  have hperform := perform_weight s.core x answer stops
  have hsum := htotal Timers.weight
  unfold State.weight
  rw [hcore]
  omega

end Zlink.Timers
