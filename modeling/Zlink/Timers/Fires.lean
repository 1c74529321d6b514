import Zlink.Timers.Timer

/-!
# Callbacks and fires

At most one callback of a timer runs, and every fire is in one place: dispatched, counted as
pending, on its way into the count, or given up because the timer is disposed.
-/

namespace Zlink.Timers

variable {s t : State} {c d : Core} {x : Activity} {following : List Activity}
  {answer : Answer} {stops : Bool}

def State.total (s : State) (w : Activity → ℕ) : ℕ :=
  (s.activities.map w).sum

inductive Steps (stops : Bool) (s t : State) : Prop where
  | intro (x : Activity) (answer : Answer) (mem : x ∈ s.activities)
      (core : t.core = (perform stops s.core answer x).1)
      (total : ∀ w : Activity → ℕ,
        t.total w + w x = s.total w + ((perform stops s.core answer x).2.map w).sum)

theorem steps_of_advance {k : ℕ} (h : step stops s (.advance k answer) = some t) :
    Steps stops s t := by
  obtain ⟨x, hx, rfl⟩ := Option.map_eq_some_iff.mp h
  exact ⟨x, answer, List.mem_of_getElem? hx, rfl, fun w => Pool.sum_replace w hx _⟩

def callbacks : Activity → ℕ
  | .callback _ | .stop _ | .reset _ => 1
  | _ => 0

@[simp] theorem callbacks_returning (after : Option ℕ) :
    ((returning after).map callbacks).sum = 0 := by
  cases after <;> rfl

@[simp] theorem callbacks_next (caller : Caller) : callbacks caller.next = 0 := by
  rcases caller with ⟨_, _ | _⟩ | _ <;> rfl

@[simp] theorem timer_discard (fires : ℕ) : (c.discard fires).timer = c.timer := by
  unfold Core.discard
  split <;> rfl

/-- The flag says whether a callback runs, and there is never a second one. -/
def Single (s : State) : Prop :=
  s.total callbacks = s.core.timer.running.toNat

variable (answer stops) in
theorem perform_callbacks (hx : callbacks x ≤ c.timer.running.toNat) :
    (perform stops c answer x).1.timer.running.toNat + callbacks x =
      c.timer.running.toNat + ((perform stops c answer x).2.map callbacks).sum := by
  cases x with
  | post fires after =>
    simp only [perform, post]
    split_ifs <;> simp [callbacks, Core.count, Core.markPending]
  | admitTimerFire | stop | finish | cleanup | cleaned | leave => rfl
  | claim | direct | callback =>
    simp only [perform, claim, admitDirect, endCallback]
    split <;> rfl
  | offer | rollback | cancel =>
    simp only [perform, offer, rollback, cancel]
    split <;> simp [callbacks, Core.takePending]
  | queued admission =>
    simp only [perform, dispatchQueued]
    split
    · rfl
    · split
      · rfl
      · simp_all [callbacks, Core.dispatch, Core.setRunning]
  | enter fires claim =>
    simp only [perform, dispatchDirect]
    split_ifs
    · rfl
    · rfl
    · simp_all [callbacks, Core.dispatch, Core.setRunning]
  | reset admission =>
    have hrunning : c.timer.running = true :=
      Bool.toNat_eq_one.mp ((Bool.toNat_le _).antisymm hx)
    simp only [perform, resetRunning]
    split_ifs <;> simp [callbacks, Core.setRunning, Core.forget, hrunning]
  | settle caller =>
    simp only [perform, completeCancelIfReady]
    split
    · rfl
    · rw [List.map_singleton, List.sum_singleton, callbacks_next]
      rfl
  | complete caller =>
    rw [perform, List.map_singleton, List.sum_singleton, callbacks_next]
    rfl

theorem Single.steps (h : Single s) (hsteps : Steps stops s t) : Single t := by
  obtain ⟨x, answer, hmem, hcore, htotal⟩ := hsteps
  have hle := (Pool.le_sum (w := callbacks) hmem).trans_eq h
  have hperform := perform_callbacks answer stops hle
  have hsum := htotal callbacks
  unfold Single at *
  rw [hcore]
  omega

def inHand : Activity → ℕ
  | .post fires _ => fires
  | .settle (.callback _ (some fires)) | .complete (.callback _ (some fires)) => fires
  | _ => 0

@[simp] theorem inHand_returning (after : Option ℕ) : ((returning after).map inHand).sum = 0 := by
  cases after <;> rfl

theorem inHand_next (caller : Caller) : inHand caller.next = inHand (.settle caller) ∧
      inHand (.complete caller) = inHand (.settle caller) := by
  rcases caller with ⟨_, _ | _⟩ | _ <;> exact ⟨rfl, rfl⟩

namespace Core

def accounted (c : Core) : ℕ :=
  c.ledger.dispatched + c.timer.pendingFireCount + c.ledger.saturated +
    (c.ledger.cancelled + c.ledger.stopped) + c.ledger.forgotten

theorem accounted_discard (fires : ℕ) : (c.discard fires).accounted = c.accounted + fires ∧
      (c.discard fires).ledger.fired = c.ledger.fired := by
  unfold discard accounted
  split
  all_goals exact ⟨by dsimp only; omega, rfl⟩

theorem accounted_count (fires : ℕ) : (c.count fires).accounted = c.accounted + fires := by
  have hroom : c.timer.room fires ≤ fires := Nat.min_le_left _ _
  simp only [accounted, count]
  omega

theorem accounted_takePending :
    c.takePending.accounted + c.timer.pendingFireCount = c.accounted := by
  simp only [accounted, takePending]
  omega

theorem accounted_dispatch (fires : ℕ) : (c.dispatch fires).accounted = c.accounted + fires := by
  simp only [accounted, dispatch]
  omega

theorem accounted_forget (fires : ℕ) : (c.forget fires).accounted = c.accounted + fires := by
  simp only [accounted, forget]
  omega

end Core

/-- No fire is in two places, and none is lost. -/
def Accounted (s : State) : Prop :=
  s.core.ledger.fired = s.core.accounted + s.total inHand

variable (c x answer stops) in
theorem perform_fires : (perform stops c answer x).1.ledger.fired + c.accounted + inHand x =
      c.ledger.fired + (perform stops c answer x).1.accounted +
        ((perform stops c answer x).2.map inHand).sum := by
  cases x with
  | post fires after =>
    have hcount := c.accounted_count fires
    simp only [perform, post]
    split_ifs
    · have hdiscard := c.accounted_discard fires
      rw [hdiscard.1, hdiscard.2, inHand_returning]
      exact Nat.add_assoc _ _ _
    · rw [inHand_returning]
      change c.ledger.fired + c.accounted + fires = c.ledger.fired + (c.count fires).accounted + 0
      omega
    · change c.ledger.fired + c.accounted + fires = c.ledger.fired + (c.count fires).accounted + 0
      omega
  | admitTimerFire | stop | finish | cleanup | cleaned | leave => rfl
  | claim | direct | callback =>
    simp only [perform, claim, admitDirect, endCallback]
    split <;> rfl
  | offer admission admitted after =>
    simp only [perform, offer]
    split <;> simp [inHand]
  | rollback admission after =>
    simp only [perform, rollback]
    split
    all_goals
      rw [inHand_returning]
      rfl
  | queued admission =>
    have htake := c.accounted_takePending
    simp only [perform, dispatchQueued]
    split
    · rfl
    · split
      · have hcount := c.takePending.accounted_count c.timer.pendingFireCount
        change c.ledger.fired + c.accounted + 0 =
          c.ledger.fired + (c.takePending.count c.timer.pendingFireCount).accounted + 0
        omega
      · have hdispatch :=
          (c.takePending.setRunning true).accounted_dispatch c.timer.pendingFireCount
        have hrunning : (c.takePending.setRunning true).accounted = c.takePending.accounted := rfl
        simp only [inHand, List.map_cons, List.map_nil, List.sum_cons, List.sum_nil]
        change c.ledger.fired + c.accounted + 0 = c.ledger.fired +
          ((c.takePending.setRunning true).dispatch c.timer.pendingFireCount).accounted + 0
        omega
  | enter fires claim =>
    simp only [perform, dispatchDirect]
    split_ifs
    · rfl
    · have hcount := (c.fire fires).accounted_count fires
      change c.ledger.fired + fires + c.accounted + 0 =
        c.ledger.fired + ((c.fire fires).count fires).accounted + 0
      rw [show (c.fire fires).accounted = c.accounted from rfl] at hcount
      omega
    · have hdispatch := ((c.fire fires).setRunning true).accounted_dispatch fires
      change c.ledger.fired + fires + c.accounted + 0 =
        c.ledger.fired + (((c.fire fires).setRunning true).dispatch fires).accounted + 0
      rw [show ((c.fire fires).setRunning true).accounted = c.accounted from rfl] at hdispatch
      omega
  | reset admission =>
    have htake := c.accounted_takePending
    have hidle : (c.takePending.setRunning false).accounted = c.takePending.accounted := rfl
    simp only [perform, resetRunning]
    split_ifs
    · have hdiscard := (c.takePending.setRunning false).accounted_discard c.timer.pendingFireCount
      rw [hdiscard.1, hdiscard.2]
      change c.ledger.fired + c.accounted + 0 = c.ledger.fired + _ + 0
      omega
    · change c.ledger.fired + c.accounted + 0 =
        c.ledger.fired + (c.takePending.setRunning false).accounted + (c.timer.pendingFireCount + 0)
      omega
    · have hforget := (c.takePending.setRunning false).accounted_forget c.timer.pendingFireCount
      change c.ledger.fired + c.accounted + 0 = c.ledger.fired +
        ((c.takePending.setRunning false).forget c.timer.pendingFireCount).accounted + 0
      omega
  | settle caller =>
    simp only [perform, completeCancelIfReady]
    split
    · rw [List.map_singleton, List.sum_singleton, (inHand_next caller).2]
      rfl
    · rw [List.map_singleton, List.sum_singleton, (inHand_next caller).1]
  | complete caller =>
    rw [perform, List.map_singleton, List.sum_singleton, (inHand_next caller).1,
      (inHand_next caller).2]
    rfl
  | cancel =>
    simp only [perform, cancel]
    split
    · rfl
    · rw [(Core.accounted_discard _).1, (Core.accounted_discard _).2]
      have htake := c.accounted_takePending
      change c.ledger.fired + c.accounted + 0 =
        c.ledger.fired + (c.takePending.accounted + c.timer.pendingFireCount) + 0
      omega

theorem Accounted.steps (h : Accounted s) (hsteps : Steps stops s t) : Accounted t := by
  obtain ⟨x, answer, hmem, hcore, htotal⟩ := hsteps
  have hperform := perform_fires s.core x answer stops
  have hsum := htotal inHand
  unfold Accounted at *
  rw [hcore]
  omega

end Zlink.Timers
