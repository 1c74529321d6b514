import Zlink.Jobs.Credits
import Zlink.Lib.Keyed

/-!
# No waiter is stranded

`Fed` says why a queued waiter needs no help: somebody is about to settle, or everything is
in use or about to be. `Halted` says that a stopped queue takes no more waiters. `Accounted` follows the waiters by their numbers. Each is queued or
has its one verdict, and for each verdict the callback has been called or is owed.
-/

namespace Zlink.Jobs

def callbacks (grants : List Grant) : Multiset (ℕ × Option ℕ) :=
  grants.filterMap fun g => g.waiter.map fun id => (id, some g.count)

namespace Task

def owed : Task → Multiset (ℕ × Option ℕ)
  | .finish _ grants => callbacks grants
  | .abandon waiters => ↑(waiters.map fun id => (id, (none : Option ℕ)))
  | _ => 0

end Task

namespace Critical

def owed : Critical → Multiset (ℕ × Option ℕ)
  | .again _ | .enqueue _ => 0
  | .add _ grants | .take _ _ grants | .evaluate grants | .publish _ grants | .confirm _ grants
  | .correct _ grants => callbacks grants

/-- The permits the holder of the mutex has set aside for waiters. -/
def committed : Critical → ℕ
  | .take available _ _ => available
  | _ => 0

/-- The holder of the mutex has seen that no waiter is queued. -/
def Direct : Critical → Prop
  | .again _ | .add _ _ => True
  | _ => False

/-- Nothing is asked for in vain, and the oldest waiters are what permits are set aside for. -/
def Proper : Critical → Prop
  | .again requested | .enqueue requested => 0 < requested
  | .add count _ => 0 < count
  | .take _ _ ready => ∀ g ∈ ready, g.waiter ≠ none
  | _ => True

end Critical

def holderOwed : Option Critical → Multiset (ℕ × Option ℕ)
  | some critical => critical.owed
  | none => 0

def holderCommitted : Option Critical → ℕ
  | some critical => critical.committed
  | none => 0

def Verdict.call (v : ℕ × Verdict) : ℕ × Option ℕ :=
  (v.1, v.2.outcome)

namespace State

/-- The callbacks that are still to be called. -/
def owed (s : State) : Multiset (ℕ × Option ℕ) :=
  (s.tasks.map Task.owed).sum + holderOwed s.holder

def granted (s : State) : List ℕ :=
  s.verdicts.filterMap fun v => if v.2.outcome.isSome then some v.1 else none

end State

/-- Queued waiters have somebody to look after them. -/
structure Fed (c : Config) (s : State) : Prop where
  direct : ∀ critical, s.holder = some critical → critical.Direct → s.waiters = []
  settles : s.stopped = false → s.waiters ≠ [] →
    .settle ∈ s.tasks ∨ c.max ≤ s.used + holderCommitted s.holder

/-- A stopped queue has no waiter, and nobody is about to queue one. -/
def Halted (s : State) : Prop :=
  s.stopped = true → s.waiters = [] ∧ ∀ requested, s.holder ≠ some (.enqueue requested)

structure Accounted (s : State) : Prop where
  registered : (s.waiters.map Waiter.id : Multiset ℕ) + s.verdicts.map Prod.fst =
    Multiset.range s.nextWaiter
  calls : (s.called : Multiset (ℕ × Option ℕ)) + s.owed = s.verdicts.map Verdict.call
  sorted : (s.granted ++ s.waiters.map Waiter.id).Pairwise (· < ·)
  requested : ∀ w ∈ s.waiters, 0 < w.requested
  proper : ∀ critical, s.holder = some critical → critical.Proper
  granted : ∀ id count, (id, Verdict.granted count) ∈ s.verdicts → 0 < count

variable {c : Config} {s t : State} {k : ℕ} {task : Task} {following : List Task}

theorem mem_replace (htask : s.tasks[k]? = some task) {other : Task} (hother : other ∈ s.tasks)
    (hne : other ≠ task) : other ∈ (s.replace k following).tasks := by
  have hmem := (perm_replace htask).mem_iff.mp hother
  exact List.mem_append_left _ ((List.mem_cons.mp hmem).resolve_left hne)

theorem mem_replace_following (k : ℕ) {other : Task} (h : other ∈ following) :
    other ∈ (s.replace k following).tasks :=
  List.mem_append_right _ h

namespace Fed

theorem frame (h : Fed c s) (hstopped : t.stopped = s.stopped)
    (hwaiters : t.waiters ≠ [] → s.waiters ≠ []) (hsettle : .settle ∈ s.tasks → .settle ∈ t.tasks)
    (hroom : s.used + holderCommitted s.holder ≤ t.used + holderCommitted t.holder)
    (hdirect : ∀ critical, t.holder = some critical → critical.Direct → t.waiters = []) :
    Fed c t where
  direct := hdirect
  settles hrunning hsome :=
    (h.settles (hstopped ▸ hrunning) (hwaiters hsome)).imp hsettle fun hfull =>
      hfull.trans hroom

theorem same (h : Fed c s) (hstopped : t.stopped = s.stopped) (hwaiters : t.waiters = s.waiters)
    (hsettle : .settle ∈ s.tasks → .settle ∈ t.tasks) (hholder : t.holder = s.holder)
    (hused : t.used = s.used) : Fed c t :=
  h.frame hstopped (fun hsome => hwaiters ▸ hsome) hsettle (by rw [hused, hholder])
    (by rw [hholder, hwaiters]; exact h.direct)

theorem replace (h : Fed c s) (htask : s.tasks[k]? = some task) (hne : .settle ≠ task)
    (htasks : t.tasks = (s.replace k following).tasks) (hstopped : t.stopped = s.stopped)
    (hwaiters : t.waiters = s.waiters) (hholder : t.holder = s.holder)
    (hused : t.used = s.used) : Fed c t :=
  h.same hstopped hwaiters (fun hmem => htasks ▸ mem_replace htask hmem hne) hholder hused

theorem of_empty (hwaiters : t.waiters = []) : Fed c t :=
  ⟨fun _ _ _ => hwaiters, fun _ hsome => absurd hwaiters hsome⟩

theorem advance (h : Fed c s) {before after : Critical} (hbefore : s.holder = some before)
    (hafter : t.holder = some after) (hstopped : t.stopped = s.stopped)
    (hwaiters : t.waiters ≠ [] → s.waiters ≠ []) (htasks : t.tasks = s.tasks)
    (hused : t.used = s.used) (hcommitted : before.committed ≤ after.committed)
    (hdirect : ¬ after.Direct) : Fed c t := by
  refine h.frame hstopped hwaiters (fun hmem => htasks ▸ hmem) ?_ ?_
  · rw [hused, hbefore, hafter]
    exact Nat.add_le_add_left hcommitted _
  · intro critical hcritical hd
    obtain rfl := Option.some.inj (hafter.symm.trans hcritical)
    exact absurd hd hdirect

theorem enter (h : Fed c s) {after : Critical} (hbefore : s.holder = none)
    (hafter : t.holder = some after) (hstopped : t.stopped = s.stopped)
    (hwaiters : t.waiters = s.waiters) (htasks : t.tasks = s.tasks)
    (hused : t.used = s.used) (hdirect : ¬ after.Direct) : Fed c t := by
  refine h.frame hstopped (fun hsome => hwaiters ▸ hsome) (fun hmem => htasks ▸ hmem) ?_ ?_
  · rw [hused, hbefore]
    exact Nat.le_add_right _ _
  · intro critical hcritical hd
    obtain rfl := Option.some.inj (hafter.symm.trans hcritical)
    exact absurd hd hdirect

theorem leave (h : Fed c s) {before : Critical} (hbefore : s.holder = some before)
    (hcommitted : before.committed = 0) (hafter : t.holder = none)
    (hstopped : t.stopped = s.stopped) (hwaiters : t.waiters = s.waiters)
    (htasks : t.tasks = s.tasks ++ [task]) (hused : t.used = s.used) : Fed c t := by
  refine h.frame hstopped (fun hsome => hwaiters ▸ hsome)
    (fun hmem => htasks ▸ List.mem_append_left _ hmem) ?_ ?_
  · rw [hused, hbefore, hafter]
    exact Nat.add_le_add_left hcommitted.le _
  · intro critical hcritical
    rw [hafter] at hcritical
    cases hcritical

theorem release (h : Fed c s) (hs : Balanced c s) {phase : PermitPhase} {count : ℕ} :
    Fed c (s.releaseCredits c k phase count) := by
  refine ⟨h.direct, fun _ hsome => .inl ?_⟩
  have hslow : ¬ State.Quick c s.credits (releaseAmount phase count) := fun hquick =>
    hs.waiting_iff.mpr hsome hquick.1
  apply mem_replace_following
  rw [if_neg hslow]
  exact List.mem_singleton.mpr rfl

theorem step (h : Fed c s) (hs : Balanced c s) (hmove : Move c s t) : Fed c t := by
  have ht := hs.step hmove
  cases hmove with
  | still => exact h
  | rehold => exact h.same rfl rfl id rfl (hs.used_eq ht rfl)
  | queue held hreserved hqueued =>
    refine h.same rfl rfl id rfl ?_
    simp only [State.used, State.reserved, State.queued]
    omega
  | drop | joinSocket | deregister | registerStopped =>
    exact h.same rfl rfl (List.mem_append_left _) rfl (hs.used_eq ht rfl)
  | tryReserve _ _ hwaiters | registerAgain _ _ _ hwaiters => exact of_empty hwaiters
  | registerEnqueue requested hholder =>
    exact h.enter hholder rfl rfl rfl rfl (hs.used_eq ht rfl) id
  | cancel waiter hholder =>
    refine h.frame rfl (fun hsome hnone => hsome ?_) (List.mem_append_left _) ?_ ?_
    · exact (congrArg (List.filter _) hnone).trans List.filter_nil
    · rw [hs.used_eq_of_waiters ht rfl]
      exact Nat.le_refl _
    · intro critical hcritical
      rw [show (s.cancelWaiter waiter).holder = s.holder from rfl, hholder] at hcritical
      cases hcritical
  | stop => exact of_empty rfl
  | release => exact h.release hs
  | settleTake k htask hholder havailable hwaiters =>
    refine ⟨?_, fun _ _ => .inr ?_⟩
    · intro critical hcritical hd
      obtain rfl := Option.some.inj hcritical
      cases hd
    · rw [hs.used_eq ht rfl]
      show c.max ≤ s.used + available c s.credits
      rw [hs.available_eq]
      omega
  | settleEvaluate k htask hholder hnone =>
    refine ⟨?_, fun hrunning hsome => .inr ?_⟩
    · intro critical hcritical hd
      obtain rfl := Option.some.inj hcritical
      cases hd
    · rcases hnone with hstopped | hfull | hempty
      · exact absurd hstopped (Bool.eq_false_iff.mp hrunning)
      · rw [hs.used_eq ht rfl]
        show c.max ≤ s.used + 0
        rw [hs.available_eq] at hfull
        omega
      · exact absurd hempty hsome
  | apply _ _ _ _ _ _ _ htask | deliver _ _ _ htask | abandon _ _ _ htask
  | attempted _ _ _ _ _ _ htask | attemptRefused _ _ _ _ _ _ htask | joined _ _ _ htask
  | close _ _ htask =>
    exact h.replace htask (by simp) rfl rfl rfl rfl (hs.used_eq ht rfl)
  | chore k task following htask hchore =>
    refine h.replace htask ?_ rfl rfl rfl rfl (hs.used_eq ht rfl)
    rintro rfl
    cases hchore
  | again _ hholder | add _ _ hholder => exact of_empty (h.direct _ hholder trivial)
  | enqueue requested hholder =>
    refine ⟨fun critical hcritical => ?_, fun _ _ => Or.inl ?_⟩
    · cases hcritical
    · exact List.mem_append_right _ (List.mem_singleton.mpr rfl)
  | taken available remaining ready hholder hend =>
    by_cases hwaiters : s.waiters = []
    · exact of_empty hwaiters
    · obtain ⟨_, htotal⟩ := hs.sound _ hholder
      have hused : (s.reserve (available - remaining) ready).used =
          s.used + (available - remaining) :=
        Balanced.reserve_used (by rw [hholder]; rfl) (by omega)
      refine h.frame rfl id id ?_ ?_
      · rw [hused, hholder, hend.resolve_right hwaiters]
        exact Nat.le_refl _
      · intro critical hcritical hd
        obtain rfl := Option.some.inj hcritical
        cases hd
  | take available remaining ready waiter waiters hholder hwaiters =>
    refine h.advance hholder rfl rfl (fun _ => ?_) rfl (hs.used_eq_of_waiters ht rfl)
      (Nat.le_refl _) id
    rw [hwaiters]
    exact List.cons_ne_nil _ _
  | level _ hholder | confirm _ _ hholder =>
    exact h.leave hholder rfl rfl rfl rfl rfl (hs.used_eq ht rfl)
  | evaluate _ hholder | differ _ _ hholder =>
    exact h.advance hholder rfl rfl id rfl (hs.used_eq ht rfl) (Nat.le_refl _) id
  | publish next grants hholder =>
    exact h.advance hholder rfl rfl id rfl (hs.used_eq_of_pressure ht rfl) (Nat.le_refl _) id
  | correct final grants hholder =>
    exact h.leave hholder rfl rfl rfl rfl rfl (hs.used_eq_of_pressure ht rfl)

end Fed

theorem Halted.step (h : Halted s) (hmove : Move c s t) : Halted t := by
  cases hmove with
  | registerEnqueue _ _ _ hrunning => exact fun hstopped => by cases hrunning.symm.trans hstopped
  | enqueue requested hholder => exact fun hstopped => absurd hholder ((h hstopped).2 requested)
  | stop hholder =>
    refine fun _ => ⟨rfl, fun requested hsome => ?_⟩
    cases hholder.symm.trans hsome
  | cancel waiter =>
    refine fun hstopped => ⟨?_, (h hstopped).2⟩
    exact (congrArg (List.filter _) (h hstopped).1).trans List.filter_nil
  | take _ _ _ _ _ _ hwaiters => exact fun hstopped => by cases hwaiters.symm.trans (h hstopped).1
  | _ =>
    first
    | exact fun hstopped => ⟨(h hstopped).1, (h hstopped).2⟩
    | exact fun hstopped => ⟨(h hstopped).1, nofun⟩

theorem Move.verdicts_prefix (h : Move c s t) : s.verdicts <+: t.verdicts := by
  cases h with
  | registerStopped | cancel | stop | again | take => exact List.prefix_append _ _
  | _ => exact List.prefix_rfl

theorem callbacks_append (xs ys : List Grant) :
    callbacks (xs ++ ys) = callbacks xs + callbacks ys := by
  rw [callbacks, List.filterMap_append, ← Multiset.coe_add, ← callbacks, ← callbacks]

theorem callbacks_cons (grant : Grant) (grants : List Grant) : callbacks (grant :: grants) =
      ↑(grant.waiter.map fun id => (id, some grant.count)).toList + callbacks grants := by
  rcases grant with ⟨_ | id, count⟩
  · exact (zero_add (callbacks grants)).symm
  · exact (Multiset.singleton_add (id, some count) (callbacks grants)).symm

theorem Chore.owed_eq (h : Chore s task following) : (following.map Task.owed).sum = task.owed := by
  cases h with
  | dispatched => exact Multiset.add_zero _
  | _ => rfl

namespace Accounted

theorem calls_replace (htask : s.tasks[k]? = some task)
    (htasks : t.tasks = (s.replace k following).tasks) (hholder : t.holder = s.holder)
    (hcalls : (t.called : Multiset (ℕ × Option ℕ)) + (following.map Task.owed).sum =
      s.called + task.owed) : (t.called : Multiset (ℕ × Option ℕ)) + t.owed = s.called + s.owed := by
  have hsum := sum_replace Task.owed htask following
  rw [← htasks] at hsum
  have hboth : (t.called : Multiset (ℕ × Option ℕ)) + (t.tasks.map Task.owed).sum =
      s.called + (s.tasks.map Task.owed).sum := by
    apply add_right_cancel (b := (following.map Task.owed).sum + task.owed)
    calc _ = ((t.called : Multiset _) + (following.map Task.owed).sum) +
          ((t.tasks.map Task.owed).sum + task.owed) := add_add_add_comm _ _ _ _
      _ = (s.called + task.owed) + ((s.tasks.map Task.owed).sum +
          (following.map Task.owed).sum) := by rw [hcalls, hsum]
      _ = _ := by rw [add_add_add_comm, add_comm task.owed]
  rw [State.owed, State.owed, hholder, ← add_assoc, hboth, add_assoc]

theorem frame (h : Accounted s) (hwaiters : t.waiters = s.waiters)
    (hnext : t.nextWaiter = s.nextWaiter) (hverdicts : t.verdicts = s.verdicts)
    (hcalls : (t.called : Multiset (ℕ × Option ℕ)) + t.owed = s.called + s.owed)
    (hproper : ∀ critical, t.holder = some critical → critical.Proper) : Accounted t where
  registered := by
    rw [hwaiters, hnext, hverdicts]
    exact h.registered
  calls := by
    rw [hcalls, hverdicts]
    exact h.calls
  sorted := by
    rw [State.granted, hverdicts, hwaiters]
    exact h.sorted
  requested := hwaiters ▸ h.requested
  proper := hproper
  granted := hverdicts ▸ h.granted

theorem replace (h : Accounted s) (htask : s.tasks[k]? = some task)
    (htasks : t.tasks = (s.replace k following).tasks) (hholder : t.holder = s.holder)
    (hwaiters : t.waiters = s.waiters) (hnext : t.nextWaiter = s.nextWaiter)
    (hverdicts : t.verdicts = s.verdicts)
    (hcalls : (t.called : Multiset (ℕ × Option ℕ)) + (following.map Task.owed).sum =
      s.called + task.owed) : Accounted t :=
  h.frame hwaiters hnext hverdicts (calls_replace htask htasks hholder hcalls) (hholder ▸ h.proper)

theorem add (h : Accounted s) (htasks : t.tasks = s.tasks ++ [task]) (howed : task.owed = 0)
    (hholder : t.holder = s.holder) (hwaiters : t.waiters = s.waiters)
    (hnext : t.nextWaiter = s.nextWaiter) (hverdicts : t.verdicts = s.verdicts)
    (hcalled : t.called = s.called) : Accounted t := by
  refine h.frame hwaiters hnext hverdicts ?_ (hholder ▸ h.proper)
  rw [State.owed, State.owed, htasks, sum_add, howed, add_zero, hholder, hcalled]

theorem holder (h : Accounted s) (htasks : t.tasks = s.tasks)
    (howed : holderOwed t.holder = holderOwed s.holder) (hwaiters : t.waiters = s.waiters)
    (hnext : t.nextWaiter = s.nextWaiter) (hverdicts : t.verdicts = s.verdicts)
    (hcalled : t.called = s.called)
    (hproper : ∀ critical, t.holder = some critical → critical.Proper) : Accounted t := by
  refine h.frame hwaiters hnext hverdicts ?_ hproper
  rw [State.owed, State.owed, htasks, howed, hcalled]

theorem leave (h : Accounted s) {critical : Critical} (hbefore : s.holder = some critical)
    (hafter : t.holder = none) (htasks : t.tasks = s.tasks ++ [task])
    (howed : task.owed = critical.owed) (hwaiters : t.waiters = s.waiters)
    (hnext : t.nextWaiter = s.nextWaiter) (hverdicts : t.verdicts = s.verdicts)
    (hcalled : t.called = s.called) : Accounted t := by
  refine h.frame hwaiters hnext hverdicts ?_ (fun _ hsome => ?_)
  · rw [State.owed, State.owed, htasks, sum_add, hafter, hbefore, hcalled, howed, holderOwed,
      holderOwed, add_zero]
  · rw [hafter] at hsome
    cases hsome

theorem lt_next (h : Accounted s) : ∀ id ∈ s.granted ++ s.waiters.map Waiter.id,
    id < s.nextWaiter := by
  intro id hid
  have hmem : id ∈ (s.waiters.map Waiter.id : Multiset ℕ) + s.verdicts.map Prod.fst := by
    rcases List.mem_append.mp hid with hgranted | hwaiter
    · obtain ⟨v, hv, hsome⟩ := List.mem_filterMap.mp hgranted
      rw [Option.ite_none_right_eq_some, Option.some_inj] at hsome
      obtain ⟨_, rfl⟩ := hsome
      exact Multiset.mem_add.mpr (.inr (List.mem_map_of_mem hv))
    · exact Multiset.mem_add.mpr (.inl hwaiter)
  rw [h.registered] at hmem
  exact Multiset.mem_range.mp hmem

theorem sorted_concat (h : Accounted s) :
    (s.granted ++ s.waiters.map Waiter.id ++ [s.nextWaiter]).Pairwise (· < ·) :=
  List.pairwise_append.mpr ⟨h.sorted, List.pairwise_singleton _ _, fun id hid _ hlast =>
    List.mem_singleton.mp hlast ▸ h.lt_next id hid⟩

theorem record (h : Accounted s) {verdicts : List (ℕ × Verdict)} (fresh : Multiset ℕ)
    (hverdicts : t.verdicts = s.verdicts ++ verdicts)
    (hwaiters : (t.waiters.map Waiter.id : Multiset ℕ) + verdicts.map Prod.fst =
      s.waiters.map Waiter.id + fresh)
    (hnext : Multiset.range t.nextWaiter = Multiset.range s.nextWaiter + fresh)
    (hcalled : t.called = s.called) (howed : t.owed = s.owed + verdicts.map Verdict.call)
    (hsorted : (s.granted ++ (verdicts.filterMap fun v =>
      if v.2.outcome.isSome then some v.1 else none) ++ t.waiters.map Waiter.id).Pairwise (· < ·))
    (hrequested : ∀ w ∈ t.waiters, 0 < w.requested)
    (hproper : ∀ critical, t.holder = some critical → critical.Proper)
    (hgranted : ∀ id count, (id, Verdict.granted count) ∈ verdicts → 0 < count) :
    Accounted t where
  registered := by
    rw [hverdicts, List.map_append, ← Multiset.coe_add, add_left_comm, hwaiters, hnext,
      ← h.registered, ← add_assoc, add_comm (s.verdicts.map Prod.fst : Multiset ℕ)]
  calls := by
    rw [hverdicts, List.map_append, ← Multiset.coe_add, ← h.calls, hcalled, howed, add_assoc]
  sorted := by
    rw [State.granted, hverdicts, List.filterMap_append]
    exact hsorted
  requested := hrequested
  proper := hproper
  granted id count hmem :=
    (List.mem_append.mp (hverdicts ▸ hmem)).elim (h.granted id count) (hgranted id count)

theorem registerStopped (h : Accounted s) : Accounted
    { s with
      nextWaiter := s.nextWaiter + 1
      verdicts := s.verdicts ++ [(s.nextWaiter, .stopped)]
      tasks := s.tasks ++ [.abandon [s.nextWaiter]] } := by
  refine h.record {s.nextWaiter} rfl rfl ?_ rfl ?_ ?_ h.requested h.proper ?_
  · exact (Multiset.range_succ _).trans (Multiset.singleton_add _ _).symm |>.trans (add_comm _ _)
  · rw [State.owed, sum_add, State.owed, add_right_comm]
    rfl
  · exact (List.append_nil s.granted).symm ▸ h.sorted
  · intro id count hmem
    cases List.mem_singleton.mp hmem

theorem unique (h : Accounted s) : Keyed.Unique Waiter.id s.waiters :=
  (List.pairwise_append.mp h.sorted).2.1.imp fun hlt => hlt.ne

theorem cancel (h : Accounted s) {waiter : ℕ} (hwaiter : waiter ∈ s.waiters.map Waiter.id) :
    Accounted (s.cancelWaiter waiter) := by
  obtain ⟨w, hw, rfl⟩ := List.mem_map.mp hwaiter
  have hperm := (Keyed.perm_erase h.unique hw).map Waiter.id
  have hsublist : (s.cancelWaiter w.id).waiters.Sublist s.waiters := List.filter_sublist
  refine h.record 0 rfl ?_ (add_zero _).symm rfl ?_ ?_ ?_ h.proper ?_
  · rw [add_zero, add_comm, Multiset.coe_eq_coe.mpr hperm]
    rfl
  · rw [State.owed, State.cancelWaiter, sum_add, State.owed, add_right_comm]
    rfl
  · refine List.Pairwise.sublist ?_ h.sorted
    exact (List.append_nil s.granted).symm ▸ (List.Sublist.refl _).append (hsublist.map Waiter.id)
  · exact fun w hw => h.requested w (hsublist.subset hw)
  · intro id count hmem
    cases List.mem_singleton.mp hmem

theorem stop (h : Accounted s) : Accounted s.stop := by
  have hnone : (s.waiters.map fun w => (w.id, Verdict.stopped)).filterMap
      (fun v => if v.2.outcome.isSome then some v.1 else none) = [] := by
    rw [List.filterMap_map]
    exact List.filterMap_eq_nil_iff.mpr fun _ _ => rfl
  refine h.record 0 rfl ?_ (add_zero _).symm rfl ?_ ?_ nofun h.proper ?_
  · rw [List.map_map]
    exact add_comm _ _
  · rw [State.owed, State.stop, sum_add, State.owed, add_right_comm, Task.owed, List.map_map,
      List.map_map]
    rfl
  · rw [hnone, List.append_nil]
    exact List.Pairwise.sublist ((List.Sublist.refl _).append (List.nil_sublist _)) h.sorted
  · intro id count hmem
    obtain ⟨w, _, hw⟩ := List.mem_map.mp hmem
    cases congrArg Prod.snd hw

theorem again (h : Accounted s) (hs : Balanced c s) (hf : Fed c s) {requested : ℕ}
    (hholder : s.holder = some (.again requested)) :
    Accounted (s.advance c (.again requested)) := by
  have hcount : 0 < min requested (available c s.credits) := by
    have hlt : s.used < c.max := hs.sound _ hholder
    have hpos : 0 < requested := h.proper _ hholder
    rw [hs.available_eq]
    omega
  refine h.record {s.nextWaiter} rfl rfl ?_ rfl ?_ ?_ h.requested ?_ ?_
  · exact (Multiset.range_succ _).trans (Multiset.singleton_add _ _).symm |>.trans (add_comm _ _)
  · rw [State.owed, State.owed, hholder]
    exact (congrArg (· + _) (add_zero _)).symm
  · have hconcat := h.sorted_concat
    rw [hf.direct _ hholder trivial, List.map_nil, List.append_nil] at hconcat
    show (s.granted ++ [s.nextWaiter] ++ s.waiters.map Waiter.id).Pairwise (· < ·)
    rw [hf.direct _ hholder trivial, List.map_nil, List.append_nil]
    exact hconcat
  · intro critical hcritical
    obtain rfl := Option.some.inj hcritical
    exact hcount
  · intro id count hmem
    cases List.mem_singleton.mp hmem
    exact hcount

theorem enqueue (h : Accounted s) {requested : ℕ} (hholder : s.holder = some (.enqueue requested)) :
    Accounted (s.advance c (.enqueue requested)) := by
  have hverdicts : (s.advance c (.enqueue requested)).verdicts = s.verdicts ++ [] :=
    (List.append_nil _).symm
  refine h.record {s.nextWaiter} hverdicts ?_ ?_ rfl ?_ ?_ ?_ nofun nofun
  · rw [State.advance, List.map_append, ← Multiset.coe_add]
    exact add_zero _
  · exact (Multiset.range_succ _).trans (Multiset.singleton_add _ _).symm |>.trans (add_comm _ _)
  · rw [State.owed, State.advance, sum_add, State.owed, hholder]
    rfl
  · rw [State.advance, List.filterMap_nil, List.append_nil, List.map_append, ← List.append_assoc]
    exact h.sorted_concat
  · intro w hw
    rcases List.mem_append.mp hw with hold | hnew
    · exact h.requested w hold
    · rw [List.mem_singleton.mp hnew]
      exact h.proper _ hholder

theorem take (h : Accounted s) {available remaining : ℕ} {ready : List Grant} {waiter : Waiter}
    {waiters : List Waiter} (hholder : s.holder = some (.take available remaining ready))
    (hwaiters : s.waiters = waiter :: waiters) (hremaining : remaining ≠ 0)
    (htw : t.waiters = waiters) (hnext : t.nextWaiter = s.nextWaiter) (hverdicts : t.verdicts =
      s.verdicts ++ [(waiter.id, .granted (min waiter.requested remaining))])
    (hcalled : t.called = s.called) (htasks : t.tasks = s.tasks)
    (hafter : t.holder = some (.take available (remaining - min waiter.requested remaining)
      (ready ++ [⟨some waiter.id, min waiter.requested remaining⟩]))) : Accounted t := by
  have hpos : 0 < min waiter.requested remaining := by
    have := h.requested waiter (hwaiters ▸ List.mem_cons_self)
    omega
  refine h.record 0 hverdicts ?_ ?_ hcalled ?_ ?_ ?_ ?_ ?_
  · rw [htw, hwaiters, add_zero, add_comm]
    rfl
  · rw [hnext, add_zero]
  · rw [State.owed, State.owed, htasks, hafter, hholder, holderOwed, holderOwed, Critical.owed,
      callbacks_append, ← add_assoc]
    rfl
  · have hsorted := h.sorted
    rw [hwaiters, List.map_cons, List.append_cons] at hsorted
    rw [htw]
    exact hsorted
  · exact fun w hw => h.requested w (hwaiters ▸ List.mem_cons_of_mem _ (htw ▸ hw))
  · intro critical hcritical
    obtain rfl := Option.some.inj (hafter.symm.trans hcritical)
    intro g hg
    rcases List.mem_append.mp hg with hold | hnew
    · exact h.proper _ hholder g hold
    · rw [List.mem_singleton.mp hnew]
      exact Option.some_ne_none _
  · intro id count hmem
    cases List.mem_singleton.mp hmem
    exact hpos

theorem step (h : Accounted s) (hs : Balanced c s) (hf : Fed c s) (hmove : Move c s t) :
    Accounted t := by
  -- a critical section that says nothing about a count
  have hproper {critical : Critical} (hcritical : critical.Proper) :
      ∀ other, some critical = some other → other.Proper :=
    fun other hsome => Option.some.inj hsome ▸ hcritical
  cases hmove with
  | still => exact h
  | rehold | queue => exact h.holder rfl rfl rfl rfl rfl rfl h.proper
  | drop => exact h.add rfl rfl rfl rfl rfl rfl rfl
  | joinSocket => exact h.add (show _ = s.tasks ++ [.join s.entries.length] from rfl) rfl rfl rfl rfl rfl rfl
  | deregister registration socket =>
    exact h.add (show _ = s.tasks ++ [.close socket] from rfl) rfl rfl rfl rfl rfl rfl
  | tryReserve _ hholder _ hpos | registerAgain _ hholder hpos | registerEnqueue _ hholder hpos =>
    exact h.holder rfl (by rw [hholder]; rfl) rfl rfl rfl rfl (hproper hpos)
  | registerStopped => exact h.registerStopped
  | cancel waiter hholder hwaiter => exact h.cancel hwaiter
  | stop => exact h.stop
  | release k phase count htask =>
    refine h.replace htask rfl rfl rfl rfl rfl ?_
    split <;> rfl
  | settleTake k htask hholder =>
    have hfree : Accounted (s.replace k []) := h.replace htask rfl rfl rfl rfl rfl rfl
    exact hfree.holder rfl (congrArg holderOwed hholder).symm rfl rfl rfl rfl (hproper nofun)
  | settleEvaluate k htask hholder =>
    have hfree : Accounted (s.replace k []) := h.replace htask rfl rfl rfl rfl rfl rfl
    exact hfree.holder rfl (congrArg holderOwed hholder).symm rfl rfl rfl rfl (hproper trivial)
  | apply k state sequence socket sockets grants answer htask =>
    exact h.replace htask rfl rfl rfl rfl rfl (congrArg _ (add_zero _))
  | deliver k grant grants htask =>
    refine h.replace htask rfl rfl rfl rfl rfl ?_
    rw [Task.owed, callbacks_cons, ← add_assoc, Multiset.coe_add]
    exact congrArg _ (add_zero _)
  | abandon k waiter waiters htask =>
    refine h.replace htask rfl rfl rfl rfl rfl ?_
    rw [← Multiset.coe_add, add_assoc]
    exact congrArg _ (congrArg _ (add_zero _))
  | chore k task following htask hchore =>
    exact h.replace htask rfl rfl rfl rfl rfl (congrArg _ hchore.owed_eq)
  | attempted _ _ _ _ _ _ htask | attemptRefused _ _ _ _ _ _ htask =>
    exact h.replace htask rfl rfl rfl rfl rfl rfl
  | joined _ _ _ htask | close _ _ htask => exact h.replace htask rfl rfl rfl rfl rfl rfl
  | again requested hholder => exact h.again hs hf hholder
  | enqueue requested hholder => exact h.enqueue hholder
  | add _ _ hholder | taken _ _ _ hholder | evaluate _ hholder | publish _ _ hholder
  | differ _ _ hholder =>
    exact h.holder rfl (by rw [hholder]; rfl) rfl rfl rfl rfl (hproper trivial)
  | take available remaining ready waiter waiters hholder hwaiters hremaining =>
    exact h.take hholder hwaiters hremaining rfl rfl rfl rfl rfl rfl
  | level _ hholder | confirm _ _ hholder | correct _ _ hholder =>
    exact h.leave hholder rfl rfl rfl rfl rfl rfl rfl

end Accounted

structure Supplied (c : Config) (s : State) : Prop where
  balanced : Balanced c s
  fed : Fed c s
  halted : Halted s
  accounted : Accounted s

namespace Supplied

theorem start (c : Config) : Supplied c State.start :=
  ⟨.start c, .of_empty rfl, nofun, ⟨rfl, rfl, .nil, nofun, nofun, nofun⟩⟩

theorem step (h : Supplied c s) (hmove : Move c s t) : Supplied c t :=
  ⟨h.balanced.step hmove, h.fed.step h.balanced hmove, h.halted.step hmove,
    h.accounted.step h.balanced h.fed hmove⟩

theorem of_run {es : List Event} (hrun : Trace.run (Jobs.step c) s es = some t)
    (h : Supplied c s) : Supplied c t :=
  Trace.run_invariant (C := fun _ _ => True)
    (fun _ _ _ hs _ hstep => hs.step (Move.of_step hstep)) h (Trace.along_true _ _) hrun

theorem reservations_eq (h : Supplied c s) (hmove : Move c s t) (hwaiters : s.waiters ≠ []) :
    t.reservations = s.reservations := by
  cases hmove with
  | add count grants hholder => exact absurd (h.fed.direct _ hholder trivial) hwaiters
  | taken available remaining ready hholder =>
    have hready : ready.filter (fun g => g.waiter = none) = [] :=
      List.filter_eq_nil_iff.mpr fun g hg hnone =>
        h.accounted.proper _ hholder g hg (of_decide_eq_true hnone)
    show s.reservations ++ (ready.filter fun g => g.waiter = none).map Grant.count = _
    rw [hready]
    exact List.append_nil _
  | _ => rfl

theorem count_places (h : Supplied c s) (id : ℕ) :
    (s.waiters.map Waiter.id).count id + (s.owed.map Prod.fst).count id +
      (s.called.map Prod.fst).count id = if id < s.nextWaiter then 1 else 0 := by
  have hcalls := congrArg (Multiset.count id) (congrArg (Multiset.map Prod.fst) h.accounted.calls)
  have hregistered := congrArg (Multiset.count id) h.accounted.registered
  rw [Multiset.map_add, Multiset.count_add, Multiset.map_coe, Multiset.coe_count,
    Multiset.map_coe, List.map_map, Multiset.coe_count] at hcalls
  rw [Multiset.count_add, Multiset.coe_count, Multiset.coe_count] at hregistered
  have hverdicts : (s.verdicts.map (Prod.fst ∘ Verdict.call)).count id =
      (s.verdicts.map Prod.fst).count id := rfl
  rw [hverdicts] at hcalls
  have hrange : Multiset.count id (Multiset.range s.nextWaiter) =
      if id < s.nextWaiter then 1 else 0 := by
    split
    · exact Multiset.count_eq_one_of_mem (Multiset.nodup_range _) (Multiset.mem_range.mpr ‹_›)
    · exact Multiset.count_eq_zero_of_notMem fun hmem => ‹¬ _› (Multiset.mem_range.mp hmem)
  omega

theorem exists_verdict (h : Supplied c s) {call : ℕ × Option ℕ} (hcall : call ∈ s.called) :
    ∃ v ∈ s.verdicts, call = (v.1, v.2.outcome) := by
  have hmem : call ∈ (s.called : Multiset (ℕ × Option ℕ)) + s.owed :=
    Multiset.mem_add.mpr (.inl hcall)
  rw [h.accounted.calls] at hmem
  obtain ⟨v, hv, rfl⟩ := List.mem_map.mp (Multiset.mem_coe.mp hmem)
  exact ⟨v, hv, rfl⟩

/-- A callback that is owed or has been called stays so. -/
theorem calls_le (h : Supplied c s) (hmove : Move c s t) :
    (s.called : Multiset (ℕ × Option ℕ)) + s.owed ≤ t.called + t.owed := by
  rw [h.accounted.calls, (h.step hmove).accounted.calls, Multiset.coe_le]
  exact (hmove.verdicts_prefix.map Verdict.call).sublist.subperm

theorem owed_of_quiet (hquiet : s.Quiet) : s.owed = 0 := by
  rw [State.owed, hquiet.1, hquiet.2]
  rfl

theorem full_of_quiet (h : Supplied c s) (hquiet : s.Quiet) (hstopped : s.stopped = false)
    (hwaiters : s.waiters ≠ []) : permitsInUse s.credits = c.max := by
  rw [h.balanced.permitsInUse_eq]
  rcases h.fed.settles hstopped hwaiters with hsettle | hfull
  · rw [hquiet.2] at hsettle
    cases hsettle
  · rw [hquiet.1] at hfull
    exact Nat.le_antisymm h.balanced.le_max hfull

end Supplied

/-- What a reachable state promises the waiters. -/
structure Served (c : Config) (s : State) : Prop where
  /-- When nothing is in progress, a waiter is queued only while all permits are in use. -/
  unstranded : s.Quiet → s.stopped = false → s.waiters ≠ [] → permitsInUse s.credits = c.max
  /-- Nobody waits for a stopped queue. -/
  stopped : s.stopped = true → s.waiters = []
  /-- Grants are in the order of registration, and nobody queued is older than a grant. -/
  inOrder : s.granted.Pairwise (· < ·)
  notOvertaken : ∀ id ∈ s.granted, ∀ w ∈ s.waiters, id < w.id
  /-- A callback is called at most once, and not while its waiter is queued. -/
  calledOnce : ∀ id < s.nextWaiter,
    (s.waiters.map Waiter.id).count id + (s.called.map Prod.fst).count id ≤ 1
  /-- When nothing is in progress, every waiter that is not queued has been called. -/
  called : s.Quiet → ∀ id < s.nextWaiter, id ∉ s.waiters.map Waiter.id →
    (s.called.map Prod.fst).count id = 1
  /-- The callback gets permits that were granted, or nothing after a cancellation or stop. -/
  outcome : ∀ call ∈ s.called, ∃ v ∈ s.verdicts, call = (v.1, v.2.outcome) ∧
    ∀ count, v.2 = .granted count → 0 < count
  /-- When nothing is in progress, every verdict has been delivered. -/
  delivered : s.Quiet → ∀ v ∈ s.verdicts, (v.1, v.2.outcome) ∈ s.called

/-- What a step does to the waiters. -/
structure Attended (s : State) (e : Event) (t : State) : Prop where
  /-- No direct reservation succeeds while a waiter is queued. -/
  direct : t.reservations ≠ s.reservations → s.waiters = []
  /-- No callback that is owed is dropped. -/
  kept : (s.called : Multiset (ℕ × Option ℕ)) + s.owed ≤ t.called + t.owed
  /-- A stop empties the queue, and owes each of its waiters the empty result. -/
  stop : e = .stop → t.stopped = true ∧ t.waiters = [] ∧ ∀ w ∈ s.waiters, (w.id, none) ∈ t.owed
  /-- A cancellation takes its waiter out and owes it the empty result. -/
  cancel : ∀ id, e = .cancel id →
    t.waiters = s.waiters.filter (fun w => w.id ≠ id) ∧ (id, none) ∈ t.owed

variable (task) in
theorem mem_owed (htask : task ∈ s.tasks) {call : ℕ × Option ℕ} (hcall : call ∈ task.owed) :
    call ∈ s.owed := by
  refine Multiset.mem_add.mpr (.inl ?_)
  obtain ⟨before, after, heq⟩ := List.append_of_mem htask
  rw [heq, List.map_append, List.map_cons, List.sum_append, List.sum_cons]
  exact Multiset.mem_add.mpr (.inr (Multiset.mem_add.mpr (.inl hcall)))

theorem Supplied.attended (h : Supplied c s) {e : Event} (hstep : Jobs.step c s e = some t) :
    Attended s e t where
  direct hreserved := by
    by_contra hwaiters
    exact hreserved (h.reservations_eq (Move.of_step hstep) hwaiters)
  kept := h.calls_le (Move.of_step hstep)
  stop := by
    rintro rfl
    rw [Jobs.step, Option.ite_none_right_eq_some, Option.some_inj] at hstep
    obtain ⟨-, rfl⟩ := hstep
    refine ⟨rfl, rfl, fun w hw => mem_owed (.abandon (s.waiters.map Waiter.id)) ?_ ?_⟩
    · exact List.mem_append_right _ (List.mem_singleton_self _)
    · exact Multiset.mem_coe.mpr (List.mem_map_of_mem (List.mem_map_of_mem hw))
  cancel := by
    rintro id rfl
    rw [Jobs.step, Option.ite_none_right_eq_some, Option.some_inj] at hstep
    obtain ⟨-, rfl⟩ := hstep
    refine ⟨rfl, mem_owed (.abandon [id]) ?_ ?_⟩
    · exact List.mem_append_right _ (List.mem_singleton_self _)
    · exact Multiset.mem_coe.mpr (List.mem_singleton_self _)

/-- Every reachable state keeps the promises, and every step from it attends to the waiters. -/
theorem run_served (c : Config) (es : List Event) (s : State)
    (hrun : Trace.run (step c) State.start es = some s) :
    Served c s ∧ ∀ e t, step c s e = some t → Attended s e t := by
  have h := Supplied.of_run hrun (Supplied.start c)
  obtain ⟨hgranted, _, hbetween⟩ := List.pairwise_append.mp h.accounted.sorted
  refine ⟨⟨h.full_of_quiet, fun hstopped => (h.halted hstopped).1, hgranted, ?_, ?_, ?_, ?_, ?_⟩,
    fun e t => h.attended⟩
  · exact fun id hid w hw => hbetween id hid w.id (List.mem_map_of_mem hw)
  · intro id hid
    have hplaces := h.count_places id
    rw [if_pos hid] at hplaces
    omega
  · intro hquiet id hid hqueued
    have hplaces := h.count_places id
    rw [if_pos hid, Supplied.owed_of_quiet hquiet, List.count_eq_zero.mpr hqueued] at hplaces
    rw [← hplaces]
    exact (Nat.zero_add _).symm
  · intro call hcall
    obtain ⟨⟨id, verdict⟩, hv, rfl⟩ := h.exists_verdict hcall
    refine ⟨_, hv, rfl, ?_⟩
    rintro count rfl
    exact h.accounted.granted id count hv
  · intro hquiet v hv
    have hcalls := h.accounted.calls
    rw [Supplied.owed_of_quiet hquiet, add_zero, Multiset.coe_eq_coe] at hcalls
    exact hcalls.mem_iff.mpr (List.mem_map_of_mem (f := Verdict.call) hv)

/-- A waiter is granted the permit that a release gives back, a second one is cancelled, and
the queue is stopped while a third one waits. -/
def servedRun : List Event :=
  [.tryReserve 5, .advance, .advance, .advance, .advance, .work 0 .applied, .work 0 .applied,
    .work 0 .applied, .register 2, .advance, .register 1, .advance, .takeBatch 0 1, .drop 1,
    .work 2 .applied, .work 0 .applied, .advance, .advance, .advance, .cancel 1,
    .work 2 .applied, .work 2 .applied, .work 2 .applied, .work 2 .applied, .work 0 .applied,
    .advance, .work 0 .applied, .advance, .work 0 .applied, .work 0 .applied,
    .register 1, .advance, .stop, .work 1 .applied, .work 1 .applied, .work 0 .applied, .advance,
    .work 0 .applied]

/-- The three callbacks of `servedRun` have been called, and a step from its end attends. -/
theorem run_served_granted : ∃ s, Trace.run (step smallQueue) State.start servedRun = some s ∧
      (s.tasks, s.called, s.stopped) = ([], [(0, some 1), (1, none), (2, none)], true) ∧
      Served smallQueue s ∧ ∀ e t, step smallQueue s e = some t → Attended s e t := by
  have hrun : (Trace.run (step smallQueue) State.start servedRun).map
      (fun s => (s.tasks, s.called, s.stopped)) =
        some ([], [(0, some 1), (1, none), (2, none)], true) := by
    decide +kernel
  obtain ⟨s, hs, hcalled⟩ := Option.map_eq_some_iff.mp hrun
  exact ⟨s, hs, hcalled, run_served smallQueue servedRun s hs⟩

end Zlink.Jobs
