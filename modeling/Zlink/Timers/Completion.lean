import Zlink.Timers.Claims

/-!
# The end of a timer, and what leads to the next dispatch

The task of `cancel` completes once, when the cleanup of the native timer has run and no callback
is running. A fire that is pending has a call that will dispatch it, unless a post was refused
since; and the calls under way come to an end, whatever their environment answers.
-/

namespace Zlink.Timers

variable {s t : State} {c d : Core} {x : Activity} {answer : Answer} {stops : Bool}

def completers : Activity → ℕ
  | .complete _ => 1
  | _ => 0

def cleaners : Activity → ℕ
  | .cleanup _ | .cleaned _ _ => 1
  | _ => 0

/-- The call will look whether the task is ready. -/
def settlers : Activity → ℕ
  | .settle _ => 1
  | _ => 0

@[simp] theorem completers_returning (after : Option ℕ) :
    ((returning after).map completers).sum = 0 := by
  cases after <;> rfl

@[simp] theorem cleaners_returning (after : Option ℕ) :
    ((returning after).map cleaners).sum = 0 := by
  cases after <;> rfl

@[simp] theorem settlers_returning (after : Option ℕ) :
    ((returning after).map settlers).sum = 0 := by
  cases after <;> rfl

theorem next_idle (caller : Caller) :
    completers caller.next = 0 ∧ cleaners caller.next = 0 ∧ settlers caller.next = 0 := by
  rcases caller with ⟨_, _ | _⟩ | _ <;> exact ⟨rfl, rfl, rfl⟩

structure Ending (c : Core) (completing cleaning settling : ℕ) : Prop where
  disposed : c.timer.cancelCompletion = true → c.timer.disposed = true
  /-- A completed task has a cleanup behind it, and no callback runs. -/
  ready : c.timer.cancelCompleted = true →
    c.timer.cancelCompletion = true ∧ c.timer.cleanupResult.isSome = true ∧ c.timer.running = false
  completed : c.completions + completing = c.timer.cancelCompleted.toNat
  cleaned : c.timer.cancelCompletion = true → c.timer.cleanupResult = none → 0 < cleaning
  settled : c.timer.cancelCompletion = true → c.timer.cancelCompleted = false →
    c.timer.running = false → 0 < cleaning + settling

theorem Ending.same {p q r p' q' r' : ℕ} (h : Ending c p q r)
    (hdisposed : d.timer.disposed = c.timer.disposed)
    (hcompletion : d.timer.cancelCompletion = c.timer.cancelCompletion)
    (hresult : d.timer.cleanupResult = c.timer.cleanupResult)
    (hcompleted : d.timer.cancelCompleted = c.timer.cancelCompleted)
    (hrunning : d.timer.running = c.timer.running) (hcompletions : d.completions = c.completions)
    (hp : p' = p) (hq : q' = q) (hr : r ≤ r') : Ending d p' q' r' := by
  subst hp hq
  constructor
  · rw [hcompletion, hdisposed]
    exact h.disposed
  · rw [hcompleted, hcompletion, hresult, hrunning]
    exact h.ready
  · rw [hcompletions, hcompleted]
    exact h.completed
  · rw [hcompletion, hresult]
    exact h.cleaned
  · rw [hcompletion, hcompleted, hrunning]
    intro h1 h2 h3
    have := h.settled h1 h2 h3
    omega

theorem Ending.not_completed {p q r : ℕ} (h : Ending c p q r) (hopen : c.timer.disposed = false) :
    c.timer.cancelCompletion = false ∧ c.timer.cancelCompleted = false := by
  have hcompletion : c.timer.cancelCompletion = false := by
    by_contra hcancel
    rw [Bool.not_eq_false] at hcancel
    rw [h.disposed hcancel] at hopen
    cases hopen
  refine ⟨hcompletion, ?_⟩
  by_contra hcompleted
  rw [Bool.not_eq_false] at hcompleted
  rw [(h.ready hcompleted).1] at hcompletion
  cases hcompletion

theorem Ending.run {p q r p' q' r' : ℕ} (h : Ending c p q r) (hopen : c.timer.disposed = false)
    (hcompletion : d.timer.cancelCompletion = c.timer.cancelCompletion)
    (hcompleted : d.timer.cancelCompleted = c.timer.cancelCompleted)
    (hcompletions : d.completions = c.completions) (hp : p' = p) : Ending d p' q' r' := by
  subst hp
  obtain ⟨hcancel, hnone⟩ := h.not_completed hopen
  constructor
  · rw [hcompletion, hcancel]
    exact fun h => nomatch h
  · rw [hcompleted, hnone]
    exact fun h => nomatch h
  · rw [hcompletions, hcompleted]
    exact h.completed
  all_goals
    rw [hcompletion, hcancel]
    exact fun h => nomatch h

@[simp] theorem completions_discard (fires : ℕ) :
    (c.discard fires).completions = c.completions := by
  unfold Core.discard
  split <;> rfl

theorem perform_ending {p q r p' q' r' : ℕ} (h : Ending c p q r)
    (hrunning : callbacks x ≤ c.timer.running.toNat) (hq : cleaners x ≤ q)
    (hp' : p' + completers x = p + ((perform stops c answer x).2.map completers).sum)
    (hq' : q' + cleaners x = q + ((perform stops c answer x).2.map cleaners).sum)
    (hr' : r' + settlers x = r + ((perform stops c answer x).2.map settlers).sum) :
    Ending (perform stops c answer x).1 p' q' r' := by
  cases x with
  | post fires after =>
    simp only [perform, post] at hp' hq' hr' ⊢
    split_ifs at hp' hq' hr' ⊢
    · rw [completers_returning] at hp'
      rw [cleaners_returning] at hq'
      rw [settlers_returning] at hr'
      exact h.same (by simp) (by simp) (by simp) (by simp) (by simp) (by simp) hp' hq' hr'.ge
    · rw [completers_returning] at hp'
      rw [cleaners_returning] at hq'
      rw [settlers_returning] at hr'
      exact h.same rfl rfl rfl rfl rfl rfl hp' hq' hr'.ge
    · exact h.same rfl rfl rfl rfl rfl rfl hp' hq' hr'.ge
  | admitTimerFire | finish | leave => exact h.same rfl rfl rfl rfl rfl rfl hp' hq' hr'.ge
  | claim | direct | callback =>
    simp only [perform, claim, admitDirect, endCallback] at hp' hq' hr' ⊢
    split_ifs at hp' hq' hr' ⊢ <;> exact h.same rfl rfl rfl rfl rfl rfl hp' hq' hr'.ge
  | offer admission admitted after =>
    simp only [perform, offer] at hp' hq' hr' ⊢
    split_ifs at hp' hq' hr' ⊢
    · rw [List.map_cons, List.sum_cons, completers_returning] at hp'
      rw [List.map_cons, List.sum_cons, cleaners_returning] at hq'
      rw [List.map_cons, List.sum_cons, settlers_returning] at hr'
      exact h.same rfl rfl rfl rfl rfl rfl hp' hq' hr'.ge
    · exact h.same rfl rfl rfl rfl rfl rfl hp' hq' hr'.ge
  | rollback admission after =>
    simp only [perform, rollback] at hp' hq' hr' ⊢
    split_ifs at hp' hq' hr' ⊢
    all_goals
      rw [completers_returning] at hp'
      rw [cleaners_returning] at hq'
      rw [settlers_returning] at hr'
      exact h.same rfl rfl rfl rfl rfl rfl hp' hq' hr'.ge
  | queued admission =>
    simp only [perform, dispatchQueued] at hp' hq' hr' ⊢
    split_ifs at hp' hq' hr' ⊢ with hgone hbusy
    · exact h.same rfl rfl rfl rfl rfl rfl hp' hq' hr'.ge
    · exact h.same rfl rfl rfl rfl rfl rfl hp' hq' hr'.ge
    · rw [not_or, Bool.not_eq_true] at hgone
      exact h.run hgone.1 rfl rfl rfl hp'
  | enter fires claim =>
    simp only [perform, dispatchDirect] at hp' hq' hr' ⊢
    split_ifs at hp' hq' hr' ⊢ with hdisposed hbusy
    · exact h.same rfl rfl rfl rfl rfl rfl hp' hq' hr'.ge
    · exact h.same rfl rfl rfl rfl rfl rfl hp' hq' hr'.ge
    · exact h.run (Bool.not_eq_true _ ▸ hdisposed) rfl rfl rfl hp'
  | stop admission =>
    have hp : p' = p := hp'
    have hq : q' = q := hq'
    have hr : r' = r := hr'
    subst hp hq hr
    exact ⟨fun _ => rfl, h.ready, h.completed, h.cleaned, h.settled⟩
  | reset admission =>
    have hbusy : c.timer.running = true :=
      Bool.toNat_eq_one.mp ((Bool.toNat_le _).antisymm hrunning)
    have hsettle : c.timer.cancelCompleted = false := by
      by_contra hcompleted
      rw [Bool.not_eq_false] at hcompleted
      rw [(h.ready hcompleted).2.2] at hbusy
      cases hbusy
    have hidle : Ending (c.takePending.setRunning false) p q (r + 1) := by
      refine ⟨h.disposed, ?_, h.completed, h.cleaned, fun _ _ _ => by omega⟩
      intro hcompleted
      exact absurd (hsettle.symm.trans hcompleted) Bool.false_ne_true
    simp only [perform, resetRunning] at hp' hq' hr' ⊢
    split_ifs at hp' hq' hr' ⊢
    · exact hidle.same (by simp) (by simp) (by simp) (by simp) (by simp) (by simp) hp' hq' hr'.ge
    all_goals exact hidle.same rfl rfl rfl rfl rfl rfl hp' hq' hr'.ge
  | settle caller =>
    obtain ⟨hnext1, hnext2, hnext3⟩ := next_idle caller
    simp only [perform, completeCancelIfReady] at hp' hq' hr' ⊢
    split_ifs at hp' hq' hr' ⊢ with hready
    · simp only [TimerState.cancelReady, Bool.and_eq_true, Bool.not_eq_true'] at hready
      obtain ⟨⟨⟨hopen, hcancel⟩, hresult⟩, hidle⟩ := hready
      have hcompleted := h.completed
      simp only [completers, List.map_cons, List.map_nil, List.sum_cons, List.sum_nil] at hp'
      rw [hopen, Bool.toNat_false] at hcompleted
      refine ⟨h.disposed, fun _ => ⟨hcancel, hresult, hidle⟩, ?_, ?_, by simp⟩
      · change c.completions + p' = 1
        omega
      · intro _ hnone
        rw [hnone] at hresult
        cases hresult
    · rw [List.map_singleton, List.sum_singleton, hnext1] at hp'
      rw [List.map_singleton, List.sum_singleton, hnext2] at hq'
      have hp : p' = p := hp'
      have hq : q' = q := hq'
      subst hp hq
      refine ⟨h.disposed, h.ready, h.completed, h.cleaned, ?_⟩
      intro hcancel hopen hidle
      dsimp only at hcancel hopen hidle
      -- the task is not ready, so the cleanup is still under way
      have hresult : c.timer.cleanupResult = none := by
        rw [← Option.not_isSome_iff_eq_none]
        intro hsome
        exact hready (by simp [TimerState.cancelReady, hcancel, hopen, hidle, hsome])
      have hclean := h.cleaned hcancel hresult
      omega
  | complete caller =>
    obtain ⟨hnext1, hnext2, hnext3⟩ := next_idle caller
    rw [perform, List.map_singleton, List.sum_singleton, hnext1] at hp'
    rw [perform, List.map_singleton, List.sum_singleton, hnext2] at hq'
    rw [perform, List.map_singleton, List.sum_singleton, hnext3] at hr'
    have hq : q' = q := hq'
    have hr : r' = r := hr'
    subst hq hr
    refine ⟨h.disposed, h.ready, ?_, h.cleaned, h.settled⟩
    have hcompleted := h.completed
    change p' + 1 = p + 0 at hp'
    change c.completions + 1 + p' = c.timer.cancelCompleted.toNat
    omega
  | cancel =>
    simp only [perform, cancel] at hp' hq' hr' ⊢
    split_ifs at hp' hq' hr' ⊢ with hcancel
    · exact h.same rfl rfl rfl rfl rfl rfl hp' hq' hr'.ge
    · simp only [completers, cleaners, List.map_cons, List.map_nil, List.sum_cons,
        List.sum_nil] at hp' hq'
      have hopen : c.timer.cancelCompleted = false := by
        by_contra hcompleted
        rw [Bool.not_eq_false] at hcompleted
        exact hcancel (h.ready hcompleted).1
      have hcompleted := h.completed
      constructor
      · simp
      · rw [timer_discard]
        intro hthen
        exact absurd (hopen.symm.trans hthen) Bool.false_ne_true
      · rw [completions_discard, timer_discard]
        change c.completions + p' = c.timer.cancelCompleted.toNat
        omega
      · omega
      · omega
  | cleanup taken => exact h.same rfl rfl rfl rfl rfl rfl hp' (Nat.add_right_cancel hq') hr'.ge
  | cleaned taken result =>
    have hp : p' = p := hp'
    have hr : r' = r + 1 := hr'
    subst hp hr
    refine ⟨h.disposed, ?_, h.completed, (fun _ hnone => by cases hnone), fun _ _ _ => by omega⟩
    intro hcompleted
    exact ⟨(h.ready hcompleted).1, rfl, (h.ready hcompleted).2.2⟩

def Ends (s : State) : Prop :=
  Ending s.core (s.total completers) (s.total cleaners) (s.total settlers)

theorem Ends.steps (h : Ends s) (hsingle : Single s) (hsteps : Steps stops s t) : Ends t := by
  obtain ⟨x, answer, hmem, hcore, htotal⟩ := hsteps
  unfold Ends
  rw [hcore]
  exact perform_ending h ((Pool.le_sum hmem).trans_eq hsingle) (Pool.le_sum hmem)
    (htotal completers) (htotal cleaners) (htotal settlers)

def bringers (a : ℕ) : Activity → ℕ
  | .admitTimerFire b _ | .claim b _ _ | .offer b _ _ | .rollback b _ | .queued b => one a b
  | _ => 0

@[simp] theorem bringers_returning (a : ℕ) (after : Option ℕ) :
    ((returning after).map (bringers a)).sum = 0 := by
  cases after <;> rfl

structure Brought (c : Core) (bringing : ℕ → ℕ) : Prop where
  queued : ∀ a, c.timer.disposed = false → c.timer.pendingFire = some (some a) → 0 < bringing a
  counted : c.timer.disposed = false → c.timer.pendingFire = some none → c.timer.running = true
  left : c.timer.disposed = false → c.timer.pendingFire = none → c.timer.pendingFireCount ≠ 0 →
    c.ledger.refused = true

theorem Brought.same {p p' : ℕ → ℕ} (h : Brought c p)
    (hdisposed : d.timer.disposed = false → c.timer.disposed = false)
    (hpending : d.timer.pendingFire = c.timer.pendingFire)
    (hcount : d.timer.pendingFireCount = c.timer.pendingFireCount)
    (hrunning : c.timer.running = true → d.timer.running = true)
    (hrefused : d.ledger.refused = c.ledger.refused)
    (hp : ∀ a, c.timer.disposed = false → c.timer.pendingFire = some (some a) → p a ≤ p' a) :
    Brought d p' := by
  constructor
  · intro a hopen hfire
    rw [hpending] at hfire
    exact (h.queued a (hdisposed hopen) hfire).trans_le (hp a (hdisposed hopen) hfire)
  · intro hopen hfire
    rw [hpending] at hfire
    exact hrunning (h.counted (hdisposed hopen) hfire)
  · intro hopen hfire hleft
    rw [hpending] at hfire
    rw [hcount] at hleft
    rw [hrefused]
    exact h.left (hdisposed hopen) hfire hleft

theorem awaits_iff {a : ℕ} : c.timer.awaits a = true ↔ c.timer.pendingFire = some (some a) :=
  decide_eq_true_iff

theorem pending_of_not_gone {b : Bool} {a : ℕ}
    (h : ¬ (b = true ∨ (!c.timer.awaits a) = true)) : c.timer.pendingFire = some (some a) := by
  rw [not_or, Bool.not_eq_true', Bool.not_eq_false] at h
  exact awaits_iff.mp h.2

theorem bringers_next (a : ℕ) (caller : Caller) : bringers a caller.next = 0 := by
  rcases caller with ⟨_, _ | _⟩ | _ <;> rfl

theorem Brought.mark {p p' : ℕ → ℕ} (h : Brought c p) (fires : ℕ)
    (hbusy : c.timer.pendingFire.isSome = true ∨ c.timer.running = true)
    (hp : ∀ a, p' a = p a) : Brought (c.count fires).markPending p' := by
  cases hfire : c.timer.pendingFire with
  | some pending =>
    have hor : (c.count fires).markPending.timer.pendingFire = some pending := by
      change c.timer.pendingFire.or (some none) = some pending
      rw [hfire]
      rfl
    constructor
    · intro a hopen hthen
      rw [hp]
      exact h.queued a hopen (hfire.trans (hor.symm.trans hthen))
    · intro hopen hthen
      exact h.counted hopen (hfire.trans (hor.symm.trans hthen))
    · intro _ hthen
      exact absurd (hor.symm.trans hthen) (Option.some_ne_none _)
  | none =>
    have hrunning : c.timer.running = true := by simpa [hfire] using hbusy
    have hor : (c.count fires).markPending.timer.pendingFire = some none := by
      change c.timer.pendingFire.or (some none) = some none
      rw [hfire]
      rfl
    constructor
    · intro a _ hthen
      exact absurd (hor.symm.trans hthen) (by simp)
    · exact fun _ _ => hrunning
    · intro _ hthen
      exact absurd (hor.symm.trans hthen) (Option.some_ne_none _)

theorem brought_of_empty {p : ℕ → ℕ} (hfire : c.timer.pendingFire = none)
    (hcount : c.timer.pendingFireCount = 0) : Brought c p := by
  constructor
  · intro a _ hthen
    exact absurd (hfire.symm.trans hthen) (Option.some_ne_none _).symm
  · intro _ hthen
    exact absurd (hfire.symm.trans hthen) (Option.some_ne_none _).symm
  · exact fun _ _ hleft => absurd hcount hleft

theorem perform_brought {p p' : ℕ → ℕ} (h : Brought c p) (hp : ∀ a, p' a + bringers a x =
      p a + ((perform stops c answer x).2.map (bringers a)).sum) :
    Brought (perform stops c answer x).1 p' := by
  -- a call that is not for the pending fire goes
  have hgone (following : List Activity) (b : ℕ) (hb : c.timer.disposed ∨ !c.timer.awaits b)
      (h : ∀ a, p' a + one a b = p a) (a : ℕ) (hopen : c.timer.disposed = false)
      (hfire : c.timer.pendingFire = some (some a)) : p a ≤ p' a := by
    have hawaits := awaits_iff.mpr hfire
    have hne : b ≠ a := by
      rintro rfl
      simp [hopen, hawaits] at hb
    have hpa := h a
    rw [one_of_ne hne] at hpa
    exact hpa.ge
  cases x with
  | post fires after =>
    simp only [perform, post] at hp ⊢
    split_ifs at hp ⊢ with hdisposed hbusy
    · have hp' : ∀ a, p' a = p a := by simpa [bringers] using hp
      refine h.same (by simp) (by simp) (by simp) (by simp) ?_ fun a _ _ => (hp' a).ge
      unfold Core.discard
      split <;> rfl
    · exact h.mark fires hbusy (by simpa [bringers] using hp)
    · constructor
      · intro a _ hfire
        obtain rfl := Option.some.inj (Option.some.inj hfire)
        have hpa := hp c.claims.next
        simp only [bringers, one_self, List.map_cons, List.map_nil, List.sum_cons,
          List.sum_nil] at hpa
        omega
      all_goals exact fun _ hfire => by cases hfire
  | admitTimerFire admission after =>
    exact h.same id rfl rfl id rfl fun a _ _ => (Nat.add_right_cancel (hp a)).ge
  | claim admission admitted after =>
    simp only [perform, claim] at hp ⊢
    split_ifs at hp ⊢
    all_goals exact h.same id rfl rfl id rfl fun a _ _ => (Nat.add_right_cancel (hp a)).ge
  | offer admission admitted after =>
    simp only [perform, offer] at hp ⊢
    split_ifs at hp ⊢
    · refine h.same id rfl rfl id rfl fun a _ _ => ?_
      have hpa := hp a
      rw [List.map_cons, List.sum_cons, bringers_returning] at hpa
      exact (Nat.add_right_cancel hpa).ge
    · exact h.same id rfl rfl id rfl fun a _ _ => (Nat.add_right_cancel (hp a)).ge
  | rollback admission after =>
    simp only [perform, rollback] at hp ⊢
    split_ifs at hp ⊢ with hawaits
    · constructor
      · exact fun a _ hfire => by cases hfire
      · exact fun _ hfire => by cases hfire
      · exact fun _ _ _ => rfl
    · refine h.same id rfl rfl id rfl (hgone [] admission (.inr (by simpa using hawaits)) ?_)
      simpa [bringers] using hp
  | queued admission =>
    simp only [perform, dispatchQueued] at hp ⊢
    split_ifs at hp ⊢ with hother hbusy
    · exact h.same id rfl rfl id rfl (hgone [] admission hother hp)
    · constructor
      · exact fun a _ hfire => by cases hfire
      · exact fun _ _ => hbusy
      · exact fun _ hfire => by cases hfire
    · exact brought_of_empty rfl rfl
  | direct | callback =>
    simp only [perform, admitDirect, endCallback] at hp ⊢
    split_ifs at hp ⊢ <;> exact h.same id rfl rfl id rfl fun a _ _ => (hp a).ge
  | enter fires claim =>
    simp only [perform, dispatchDirect] at hp ⊢
    split_ifs at hp ⊢ with hdisposed hbusy
    · exact h.same id rfl rfl id rfl fun a _ _ => (hp a).ge
    · have hfired : Brought (c.fire fires) p := h.same id rfl rfl id rfl fun _ _ _ => le_rfl
      exact hfired.mark fires (.inr hbusy) hp
    · exact h.same id rfl rfl (fun _ => rfl) rfl fun a _ _ => (hp a).ge
  | stop admission =>
    exact h.same (fun hopen => by cases hopen) rfl rfl id rfl fun a _ _ => (hp a).ge
  | reset admission =>
    simp only [perform, resetRunning] at hp ⊢
    split_ifs at hp ⊢
    · exact brought_of_empty (by simp; rfl) (by simp; rfl)
    all_goals exact brought_of_empty rfl rfl
  | settle caller =>
    simp only [perform, completeCancelIfReady] at hp ⊢
    split_ifs at hp ⊢
    · exact h.same id rfl rfl id rfl fun a _ _ => (hp a).ge
    · refine h.same id rfl rfl id rfl fun a _ _ => ?_
      have hpa := hp a
      rw [List.map_singleton, List.sum_singleton, bringers_next] at hpa
      exact hpa.ge
  | complete caller =>
    refine h.same id rfl rfl id rfl fun a _ _ => ?_
    have hpa := hp a
    rw [perform, List.map_singleton, List.sum_singleton, bringers_next] at hpa
    exact hpa.ge
  | finish | cleanup | cleaned | leave => exact h.same id rfl rfl id rfl fun a _ _ => (hp a).ge
  | cancel =>
    simp only [perform, cancel] at hp ⊢
    split_ifs at hp ⊢
    · exact h.same id rfl rfl id rfl fun a _ _ => (hp a).ge
    · constructor
      all_goals
        intros
        simp_all

def Brings (s : State) : Prop :=
  Brought s.core fun a => s.total (bringers a)

theorem Brings.steps (h : Brings s) (hsteps : Steps stops s t) : Brings t := by
  obtain ⟨x, answer, hmem, hcore, htotal⟩ := hsteps
  unfold Brings
  rw [hcore]
  exact perform_brought h fun a => htotal (bringers a)

end Zlink.Timers
