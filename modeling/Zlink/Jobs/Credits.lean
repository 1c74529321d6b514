import Zlink.Jobs.Moves

/-!
# The credit word counts the permits

A permit is outstanding from the addition that reserves it to the subtraction that gives it
back. In between it is in a variable of a user, in a supply on its way to one, or in a
release whose subtraction is still to come. `Balanced` says that the word is these two
numbers and its two flags, side by side, and that what the holder of the mutex is about to
add still fits.
-/

namespace Zlink.Jobs

open Packed

def grantTotal (grants : List Grant) : ℕ :=
  (grants.map Grant.count).sum

namespace Task

def reserved : Task → ℕ
  | .release phase count => if phase = .reserved then count else 0
  | .finish _ grants => grantTotal grants
  | _ => 0

def queued : Task → ℕ
  | .release phase count => if phase = .reserved then 0 else count
  | _ => 0

end Task

namespace Critical

def reserved : Critical → ℕ
  | .evaluate grants | .publish _ grants | .confirm _ grants | .correct _ grants =>
    grantTotal grants
  | .again _ | .enqueue _ | .add _ _ | .take _ _ _ => 0

/-- What the holder of the mutex is about to reserve fits beside the permits in use. -/
def Sound (c : Config) (used : ℕ) : Critical → Prop
  | .again _ => used < c.max
  | .add count grants => used + count ≤ c.max ∧ grantTotal grants = count
  | .take available remaining ready =>
    used + available ≤ c.max ∧ grantTotal ready + remaining = available
  | _ => True

theorem Sound.mono {c : Config} {used less : ℕ} {critical : Critical}
    (h : critical.Sound c used) (hle : less ≤ used) : critical.Sound c less := by
  cases critical with
  | again => exact Nat.lt_of_le_of_lt hle h
  | add | take => exact ⟨(Nat.add_le_add_right hle _).trans h.1, h.2⟩
  | _ => trivial

end Critical

def holderReserved : Option Critical → ℕ
  | some critical => critical.reserved
  | none => 0

namespace State

def reserved (s : State) : ℕ :=
  heldReserved s.held + (s.tasks.map Task.reserved).sum + holderReserved s.holder

def queued (s : State) : ℕ :=
  heldQueued s.held + (s.tasks.map Task.queued).sum

def used (s : State) : ℕ :=
  s.reserved + s.queued

def word (s : State) : Fields :=
  ⟨s.reserved, s.queued, s.published = .paused, s.waiters ≠ []⟩

end State

/-- The word is the numbers of permits and the flags, and the maximum is kept. -/
structure Balanced (c : Config) (s : State) : Prop where
  credits : s.credits = s.word.encode 31
  le_max : s.used ≤ c.max
  sound : ∀ critical, s.holder = some critical → critical.Sound c s.used

variable {c : Config} {s t : State} {k n : ℕ} {task : Task} {following : List Task} {x : Fields}

theorem Balanced.used_lt (h : Balanced c s) : s.used < 2 ^ 31 :=
  Nat.lt_of_le_of_lt (h.le_max.trans c.bounded) (by decide)

theorem Balanced.fits (h : Balanced c s) : s.word.Fits 31 :=
  ⟨Nat.lt_of_le_of_lt (Nat.le_add_right _ _) h.used_lt,
    Nat.lt_of_le_of_lt (Nat.le_add_left _ _) h.used_lt⟩

theorem Balanced.reservedCount_eq (h : Balanced c s) : reservedCount s.credits = s.reserved := by
  rw [reservedCount, h.credits]
  exact Fields.encode_low h.fits

theorem Balanced.queuedCount_eq (h : Balanced c s) : queuedCount s.credits = s.queued := by
  rw [queuedCount, h.credits]
  exact Fields.encode_high h.fits

theorem Balanced.permitsInUse_eq (h : Balanced c s) : permitsInUse s.credits = s.used := by
  rw [permitsInUse, h.reservedCount_eq, h.queuedCount_eq]
  exact Nat.mod_eq_of_lt (h.used_lt.trans (by decide))

theorem Balanced.available_eq (h : Balanced c s) : available c s.credits = c.max - s.used := by
  have hle := h.le_max
  have hbound : c.max ≤ 2 ^ 31 - 1 := c.bounded
  have hsum : c.max + (2 ^ 32 - s.used) = c.max - s.used + 2 ^ 32 := by omega
  rw [available, h.permitsInUse_eq, hsum, Nat.add_mod_right]
  exact Nat.mod_eq_of_lt (by omega)

theorem Balanced.waiting_iff (h : Balanced c s) :
    s.credits &&& waitingCredit ≠ 0 ↔ s.waiters ≠ [] := by
  have hbit := Fields.encode_second h.fits
  rw [← h.credits] at hbit
  exact hbit.trans decide_eq_true_iff

theorem Balanced.pressureState_eq (h : Balanced c s) : pressureState s.credits = s.published := by
  have hbit := Fields.encode_first h.fits
  rw [← h.credits] at hbit
  have hpaused : s.credits &&& pausedCredit ≠ 0 ↔ s.published = .paused :=
    hbit.trans decide_eq_true_iff
  rw [pressureState]
  cases hpublished : s.published with
  | paused => exact if_pos (hpaused.mpr hpublished)
  | running => exact if_neg fun hset => Pressure.noConfusion (hpublished.symm.trans (hpaused.mp hset))

theorem Balanced.desiredPressure_eq (h : Balanced c s) :
    desiredPressure c s.credits = desired c s.published s.used := by
  rw [desiredPressure, h.pressureState_eq, h.permitsInUse_eq]

theorem fetchAdd_encode (h : Fields.Fits 31 { x with low := x.low + n }) :
    fetchAdd (x.encode 31) n = Fields.encode 31 { x with low := x.low + n } :=
  Fields.encode_addLow h

theorem fetchSub_reserved (h : Fields.Fits 31 { x with low := x.low + n }) :
    fetchSub (Fields.encode 31 { x with low := x.low + n }) n = x.encode 31 :=
  Fields.encode_subLow h

theorem fetchSub_queued (h : Fields.Fits 31 { x with high := x.high + n }) :
    fetchSub (Fields.encode 31 { x with high := x.high + n }) (queuedCredit * n) = x.encode 31 :=
  Fields.encode_subHigh h

theorem fetchAdd_move (h : Fields.Fits 31 { x with high := x.high + 1 }) :
    fetchAdd (Fields.encode 31 { x with low := x.low + 1 }) (queuedCredit - 1) =
      Fields.encode 31 { x with high := x.high + 1 } :=
  Fields.encode_move h

theorem publishWaiters_encode {α : Type} (waiters : List α) (h : x.Fits 31) :
    publishWaiters waiters (x.encode 31) =
      Fields.encode 31 { x with second := !waiters.isEmpty } := by
  cases waiters with
  | nil => exact Fields.encode_clearSecond h
  | cons _ _ => exact Fields.encode_setSecond h

theorem publishPressure_encode (next : Pressure) (h : x.Fits 31) :
    publishPressure next (x.encode 31) = Fields.encode 31 { x with first := next = .paused } := by
  cases next with
  | running => exact Fields.encode_clearFirst h
  | paused => exact Fields.encode_setFirst h

theorem perm_replace (h : s.tasks[k]? = some task) : s.tasks.Perm (task :: s.tasks.eraseIdx k) := by
  obtain ⟨hk, rfl⟩ := List.getElem?_eq_some_iff.mp h
  exact (List.getElem_cons_eraseIdx_perm hk).symm

theorem sum_replace {M : Type*} [AddCommMonoid M] (w : Task → M) (h : s.tasks[k]? = some task)
    (following : List Task) : ((s.replace k following).tasks.map w).sum + w task =
      (s.tasks.map w).sum + (following.map w).sum := by
  rw [State.replace, List.map_append, List.sum_append, ((perm_replace h).map w).sum_eq,
    List.map_cons, List.sum_cons, add_right_comm, add_comm (w task)]

theorem sum_add {M : Type*} [AddCommMonoid M] (w : Task → M) (tasks : List Task) (task : Task) :
    ((tasks ++ [task]).map w).sum = (tasks.map w).sum + w task := by
  rw [List.map_append, List.sum_append, List.map_singleton, List.sum_singleton]

theorem Chore.sum_eq (h : Chore s task following) :
    (following.map Task.reserved).sum = task.reserved ∧
      (following.map Task.queued).sum = task.queued := by
  cases h <;> exact ⟨rfl, rfl⟩

namespace Balanced

theorem of_word (h : Balanced c s) (hcredits : t.credits = s.credits)
    (hreserved : t.reserved = s.reserved) (hqueued : t.queued = s.queued)
    (hpublished : t.published = s.published) (hwaiters : t.waiters = s.waiters)
    (hsound : ∀ critical, t.holder = some critical → critical.Sound c s.used) : Balanced c t := by
  have hword : t.word = s.word := by
    rw [State.word, hreserved, hqueued, hpublished, hwaiters, ← State.word]
  have hused : t.used = s.used := by rw [State.used, hreserved, hqueued, ← State.used]
  exact ⟨by rw [hcredits, hword]; exact h.credits, hused ▸ h.le_max, hused ▸ hsound⟩

theorem of_tasks (h : Balanced c s) (hcredits : t.credits = s.credits)
    (hholder : t.holder = s.holder) (hpublished : t.published = s.published)
    (hwaiters : t.waiters = s.waiters)
    (hreserved : heldReserved t.held + (t.tasks.map Task.reserved).sum =
      heldReserved s.held + (s.tasks.map Task.reserved).sum)
    (hqueued : heldQueued t.held + (t.tasks.map Task.queued).sum =
      heldQueued s.held + (s.tasks.map Task.queued).sum) : Balanced c t := by
  apply h.of_word hcredits _ hqueued hpublished hwaiters
  · rw [hholder]
    exact h.sound
  · rw [State.reserved, hreserved, hholder, ← State.reserved]

variable {critical : Critical}

theorem of_holder (h : Balanced c s) (hcredits : t.credits = s.credits)
    (hheld : t.held = s.held) (htasks : t.tasks = s.tasks)
    (hpublished : t.published = s.published) (hwaiters : t.waiters = s.waiters)
    (hafter : t.holder = some critical) (hreserved : critical.reserved = holderReserved s.holder)
    (hsound : critical.Sound c s.used) : Balanced c t := by
  refine h.of_word hcredits ?_ ?_ hpublished hwaiters ?_
  · rw [State.reserved, hheld, htasks, hafter, holderReserved, hreserved, ← State.reserved]
  · rw [State.queued, hheld, htasks, ← State.queued]
  · intro _ hcritical
    obtain rfl := Option.some.inj (hafter.symm.trans hcritical)
    exact hsound

theorem publishWaiters_eq (h : Balanced c s) (waiters : List Waiter) :
    publishWaiters waiters s.credits =
      Fields.encode 31 ⟨s.reserved, s.queued, s.published = .paused, waiters ≠ []⟩ := by
  rw [h.credits, publishWaiters_encode waiters h.fits]
  cases waiters <;> rfl

theorem of_waiters (h : Balanced c s) (hcredits : t.credits = publishWaiters t.waiters s.credits)
    (hreserved : t.reserved = s.reserved) (hqueued : t.queued = s.queued)
    (hpublished : t.published = s.published)
    (hsound : ∀ critical, t.holder = some critical → critical.Sound c s.used) : Balanced c t := by
  have hused : t.used = s.used := by rw [State.used, hreserved, hqueued, ← State.used]
  refine ⟨?_, hused ▸ h.le_max, hused ▸ hsound⟩
  rw [hcredits, h.publishWaiters_eq, State.word, hreserved, hqueued, hpublished]

theorem publishPressure_eq (h : Balanced c s) (next : Pressure) : publishPressure next s.credits =
      Fields.encode 31 ⟨s.reserved, s.queued, next = .paused, s.waiters ≠ []⟩ := by
  rw [h.credits, publishPressure_encode next h.fits]
  rfl

theorem of_pressure (h : Balanced c s)
    (hcredits : t.credits = publishPressure t.published s.credits)
    (hreserved : t.reserved = s.reserved) (hqueued : t.queued = s.queued)
    (hwaiters : t.waiters = s.waiters)
    (hsound : ∀ critical, t.holder = some critical → critical.Sound c s.used) : Balanced c t := by
  have hused : t.used = s.used := by rw [State.used, hreserved, hqueued, ← State.used]
  refine ⟨?_, hused ▸ h.le_max, hused ▸ hsound⟩
  rw [hcredits, h.publishPressure_eq, State.word, hreserved, hqueued, hwaiters]

variable {count : ℕ} {grants : List Grant}

theorem reserve_reserved (hnone : holderReserved s.holder = 0)
    (htotal : grantTotal grants = count) :
    (s.reserve count grants).reserved = s.reserved + count := by
  rw [State.reserved, State.reserved, hnone, ← htotal]
  rfl

theorem reserve_used (hnone : holderReserved s.holder = 0)
    (htotal : grantTotal grants = count) : (s.reserve count grants).used = s.used + count := by
  rw [State.used, reserve_reserved hnone htotal, State.used]
  exact Nat.add_right_comm _ _ _

/-- The addition of `reserve_locked`. -/
theorem reserve (h : Balanced c s)
    (hnone : holderReserved s.holder = 0) (hroom : s.used + count ≤ c.max)
    (htotal : grantTotal grants = count) : Balanced c (s.reserve count grants) := by
  have hreserved := reserve_reserved hnone htotal
  have hused := reserve_used hnone htotal
  have hle : (s.reserve count grants).used ≤ c.max := hused ▸ hroom
  refine ⟨?_, hle, ?_⟩
  · have hfits : Fields.Fits 31 { s.word with low := s.word.low + count } := by
      refine ⟨?_, h.fits.high⟩
      have hbound : c.max ≤ 2 ^ 31 - 1 := c.bounded
      have hlow : s.word.low ≤ s.used := Nat.le_add_right _ _
      show s.word.low + count < 2 ^ 31
      omega
    show fetchAdd s.credits count = _
    rw [h.credits, fetchAdd_encode hfits, State.word, State.word, hreserved]
    rfl
  · intro critical hcritical
    obtain rfl := Option.some.inj hcritical
    trivial

variable {phase : PermitPhase}

/-- The subtraction of `release_credits`. -/
theorem subtract (h : Balanced c s)
    (hcredits : t.credits = fetchSub s.credits (releaseAmount phase count))
    (hholder : t.holder = s.holder) (hpublished : t.published = s.published)
    (hwaiters : t.waiters = s.waiters)
    (hreserved : s.reserved = t.reserved + if phase = .reserved then count else 0)
    (hqueued : s.queued = t.queued + if phase = .reserved then 0 else count) :
    Balanced c t := by
  have hused : t.used ≤ s.used := by
    rw [State.used, State.used]
    omega
  refine ⟨?_, hused.trans h.le_max, fun critical hcritical => ?_⟩
  · have hfits := h.fits
    rw [State.word, hreserved, hqueued] at hfits
    rw [hcredits, h.credits, State.word, State.word, hreserved, hqueued, hpublished, hwaiters,
      releaseAmount]
    by_cases hphase : phase = .reserved
    · simp only [if_pos hphase, Nat.add_zero] at hfits ⊢
      exact fetchSub_reserved
        (x := ⟨t.reserved, t.queued, s.published = .paused, s.waiters ≠ []⟩) hfits
    · simp only [if_neg hphase, Nat.add_zero] at hfits ⊢
      exact fetchSub_queued
        (x := ⟨t.reserved, t.queued, s.published = .paused, s.waiters ≠ []⟩) hfits
  · exact (h.sound critical (hholder ▸ hcritical)).mono hused

theorem release_permits (htask : s.tasks[k]? = some (.release phase count)) : s.reserved =
        (s.releaseCredits c k phase count).reserved + (if phase = .reserved then count else 0) ∧
      s.queued =
        (s.releaseCredits c k phase count).queued + if phase = .reserved then 0 else count := by
  -- whatever follows the subtraction holds no permits
  obtain ⟨following, htasks, hr, hq⟩ : ∃ following,
      (s.releaseCredits c k phase count).tasks = (s.replace k following).tasks ∧
        (following.map Task.reserved).sum = 0 ∧ (following.map Task.queued).sum = 0 := by
    refine ⟨_, rfl, ?_⟩
    split <;> exact ⟨rfl, rfl⟩
  have hreserved := sum_replace Task.reserved htask following
  have hqueued := sum_replace Task.queued htask following
  rw [hr, ← htasks, Task.reserved] at hreserved
  rw [hq, ← htasks, Task.queued] at hqueued
  have htr : (s.releaseCredits c k phase count).reserved = heldReserved s.held +
      ((s.releaseCredits c k phase count).tasks.map Task.reserved).sum +
        holderReserved s.holder := rfl
  have htq : (s.releaseCredits c k phase count).queued = heldQueued s.held +
      ((s.releaseCredits c k phase count).tasks.map Task.queued).sum := rfl
  rw [htr, htq, State.reserved, State.queued]
  omega

theorem release (h : Balanced c s) (htask : s.tasks[k]? = some (.release phase count)) :
    Balanced c (s.releaseCredits c k phase count) := by
  obtain ⟨hreserved, hqueued⟩ := release_permits (c := c) htask
  have hcredits : (s.releaseCredits c k phase count).credits =
      fetchSub s.credits (releaseAmount phase count) := rfl
  exact h.subtract hcredits rfl rfl rfl hreserved hqueued

theorem queue (h : Balanced c s) (hholder : t.holder = s.holder) (htasks : t.tasks = s.tasks)
    (hcredits : t.credits = fetchAdd s.credits (queuedCredit - 1))
    (hpublished : t.published = s.published) (hwaiters : t.waiters = s.waiters)
    (hreserved : heldReserved t.held + 1 = heldReserved s.held)
    (hqueued : heldQueued t.held = heldQueued s.held + 1) : Balanced c t := by
  have hr : s.reserved = t.reserved + 1 := by
    rw [State.reserved, State.reserved, hholder, htasks, ← hreserved]
    omega
  have hq : t.queued = s.queued + 1 := by
    rw [State.queued, State.queued, htasks, hqueued]
    omega
  have hused : t.used = s.used := by
    rw [State.used, State.used]
    omega
  refine ⟨?_, hused ▸ h.le_max, hused ▸ hholder ▸ h.sound⟩
  have hlt := h.used_lt
  rw [State.used] at hlt
  have hfits : Fields.Fits 31 ⟨t.reserved, s.queued + 1, s.published = .paused, s.waiters ≠ []⟩ :=
    ⟨by show t.reserved < 2 ^ 31; omega, by show s.queued + 1 < 2 ^ 31; omega⟩
  rw [hcredits, h.credits, State.word, State.word, hr, hq, hpublished, hwaiters]
  exact fetchAdd_move (x := ⟨t.reserved, s.queued, s.published = .paused, s.waiters ≠ []⟩) hfits

theorem of_replace (h : Balanced c s) (htask : s.tasks[k]? = some task)
    (htasks : t.tasks = (s.replace k following).tasks) (hcredits : t.credits = s.credits)
    (hholder : t.holder = s.holder) (hpublished : t.published = s.published)
    (hwaiters : t.waiters = s.waiters)
    (hreserved : heldReserved t.held + (following.map Task.reserved).sum =
      heldReserved s.held + task.reserved)
    (hqueued : heldQueued t.held + (following.map Task.queued).sum =
      heldQueued s.held + task.queued) : Balanced c t := by
  have hr := sum_replace Task.reserved htask following
  have hq := sum_replace Task.queued htask following
  rw [← htasks] at hr hq
  apply h.of_tasks hcredits hholder hpublished hwaiters
  · omega
  · omega

theorem of_add (h : Balanced c s) (htasks : t.tasks = s.tasks ++ [task])
    (hcredits : t.credits = s.credits) (hholder : t.holder = s.holder)
    (hpublished : t.published = s.published) (hwaiters : t.waiters = s.waiters)
    (hreserved : heldReserved t.held + task.reserved = heldReserved s.held)
    (hqueued : heldQueued t.held + task.queued = heldQueued s.held) : Balanced c t := by
  have hr := sum_add Task.reserved s.tasks task
  have hq := sum_add Task.queued s.tasks task
  rw [← htasks] at hr hq
  apply h.of_tasks hcredits hholder hpublished hwaiters
  · omega
  · omega

theorem of_leave (h : Balanced c s) (hbefore : s.holder = some critical)
    (hafter : t.holder = none) (htasks : t.tasks = s.tasks ++ [task])
    (hcredits : t.credits = s.credits) (hheld : t.held = s.held)
    (hpublished : t.published = s.published) (hwaiters : t.waiters = s.waiters)
    (hreserved : task.reserved = critical.reserved) (hqueued : task.queued = 0) : Balanced c t := by
  apply h.of_word hcredits _ _ hpublished hwaiters
  · intro _ hsome
    rw [hafter] at hsome
    cases hsome
  · rw [State.reserved, State.reserved, hheld, htasks, sum_add, hafter, hbefore, hreserved]
    exact (Nat.add_assoc _ _ _).symm
  · rw [State.queued, State.queued, hheld, htasks, sum_add, hqueued]
    rfl

theorem conclude (h : Balanced c s) {state : Pressure} (hholder : s.holder = some critical)
    (hreserved : critical.reserved = grantTotal grants) : Balanced c (s.conclude state grants) :=
  h.of_leave hholder rfl rfl rfl rfl rfl rfl hreserved.symm rfl

theorem publishState (h : Balanced c s) (next : Pressure) : Balanced c (s.publishState next) :=
  h.of_pressure rfl rfl rfl rfl h.sound

theorem take (h : Balanced c s) {available remaining granted : ℕ} {ready : List Grant}
    {waiter : Option ℕ} (hholder : s.holder = some (.take available remaining ready))
    (hle : granted ≤ remaining) (hreserved : t.reserved = s.reserved)
    (hqueued : t.queued = s.queued) (hpublished : t.published = s.published)
    (hcredits : t.credits = publishWaiters t.waiters s.credits) (hafter : t.holder =
      some (.take available (remaining - granted) (ready ++ [⟨waiter, granted⟩]))) :
    Balanced c t := by
  apply h.of_waiters hcredits hreserved hqueued hpublished
  intro critical hcritical
  obtain ⟨hroom, htotal⟩ := h.sound _ hholder
  obtain rfl := Option.some.inj (hafter.symm.trans hcritical)
  refine ⟨hroom, ?_⟩
  rw [grantTotal, List.map_append, List.sum_append, ← grantTotal]
  show grantTotal ready + granted + _ = _
  omega

theorem used_eq (hs : Balanced c s) (ht : Balanced c t) (hcredits : t.credits = s.credits) :
    t.used = s.used := by
  rw [← ht.permitsInUse_eq, hcredits, hs.permitsInUse_eq]

theorem used_eq_of_waiters (hs : Balanced c s) (ht : Balanced c t) {waiters : List Waiter}
    (hcredits : t.credits = publishWaiters waiters s.credits) : t.used = s.used := by
  have hword := hs.publishWaiters_eq waiters
  rw [← hcredits] at hword
  have hfits : Fields.Fits 31
      ⟨s.reserved, s.queued, s.published = .paused, waiters ≠ []⟩ := ⟨hs.fits.low, hs.fits.high⟩
  rw [State.used, State.used, ← ht.reservedCount_eq, ← ht.queuedCount_eq, hword]
  exact congrArg₂ _ (Fields.encode_low hfits) (Fields.encode_high hfits)

theorem used_eq_of_pressure (hs : Balanced c s) (ht : Balanced c t) {next : Pressure}
    (hcredits : t.credits = publishPressure next s.credits) : t.used = s.used := by
  have hword := hs.publishPressure_eq next
  rw [← hcredits] at hword
  have hfits : Fields.Fits 31
      ⟨s.reserved, s.queued, next = .paused, s.waiters ≠ []⟩ := ⟨hs.fits.low, hs.fits.high⟩
  rw [State.used, State.used, ← ht.reservedCount_eq, ← ht.queuedCount_eq, hword]
  exact congrArg₂ _ (Fields.encode_low hfits) (Fields.encode_high hfits)

theorem step (h : Balanced c s) (hmove : Move c s t) : Balanced c t := by
  cases hmove with
  | still => exact h
  | rehold held hreserved hqueued =>
    exact h.of_tasks rfl rfl rfl rfl (congrArg (· + _) hreserved) (congrArg (· + _) hqueued)
  | queue held hreserved hqueued => exact h.queue rfl rfl rfl rfl rfl hreserved hqueued
  | drop held phase count hphase hreserved hqueued =>
    exact h.of_add rfl rfl rfl rfl rfl hreserved hqueued
  | joinSocket => exact h.of_add (show _ = s.tasks ++ [.join s.entries.length] from rfl) rfl rfl rfl rfl rfl rfl
  | deregister registration socket =>
    exact h.of_add (show _ = s.tasks ++ [.close socket] from rfl) rfl rfl rfl rfl rfl rfl
  | tryReserve count hholder hwaiters hpos hle =>
    refine h.of_holder rfl rfl rfl rfl rfl rfl (by rw [hholder]; rfl) ?_
    have hroom := h.le_max
    rw [h.available_eq] at hle
    exact ⟨by omega, rfl⟩
  | registerStopped =>
    exact h.of_add (show _ = s.tasks ++ [.abandon [s.nextWaiter]] from rfl) rfl rfl rfl rfl rfl rfl
  | registerAgain requested hholder hpos hwaiters hlt =>
    refine h.of_holder rfl rfl rfl rfl rfl rfl (by rw [hholder]; rfl) ?_
    exact h.permitsInUse_eq ▸ hlt
  | registerEnqueue _ hholder | evaluate _ hholder | differ _ _ hholder =>
    exact h.of_holder rfl rfl rfl rfl rfl rfl (by rw [hholder]; rfl) trivial
  | cancel waiter hholder =>
    refine h.of_waiters rfl ?_ ?_ rfl h.sound
    · rw [State.reserved, State.cancelWaiter, sum_add]
      rfl
    · rw [State.queued, State.cancelWaiter, sum_add]
      rfl
  | stop =>
    refine h.of_waiters rfl ?_ ?_ rfl h.sound
    · rw [State.reserved, State.stop, sum_add]
      rfl
    · rw [State.queued, State.stop, sum_add]
      rfl
  | release k phase count htask => exact h.release htask
  | settleTake k htask hholder havailable hwaiters =>
    have hfree : Balanced c (s.replace k []) := h.of_replace htask rfl rfl rfl rfl rfl rfl rfl
    refine hfree.of_holder rfl rfl rfl rfl rfl rfl (congrArg holderReserved hholder).symm ?_
    -- the word has not changed, and what it leaves free is what it left free
    have hle := hfree.le_max
    have havailable := hfree.available_eq
    rw [show (s.replace k []).credits = s.credits from rfl] at havailable
    rw [havailable]
    exact ⟨by omega, Nat.zero_add _⟩
  | settleEvaluate k htask hholder =>
    have hfree : Balanced c (s.replace k []) := h.of_replace htask rfl rfl rfl rfl rfl rfl rfl
    exact hfree.of_holder rfl rfl rfl rfl rfl rfl (congrArg holderReserved hholder).symm trivial
  | apply _ _ _ _ _ _ _ htask | attempted _ _ _ _ _ _ htask | attemptRefused _ _ _ _ _ _ htask =>
    exact h.of_replace htask rfl rfl rfl rfl rfl rfl rfl
  | deliver k grant grants htask =>
    refine h.of_replace htask rfl rfl rfl rfl rfl ?_ ?_
    · rw [heldReserved_append, Nat.add_assoc]
      rfl
    · rw [heldQueued_append]
      rfl
  | abandon _ _ _ htask | joined _ _ _ htask | close _ _ htask =>
    exact h.of_replace htask rfl rfl rfl rfl rfl rfl rfl
  | chore k task following htask hchore =>
    obtain ⟨hr, hq⟩ := hchore.sum_eq
    exact h.of_replace htask rfl rfl rfl rfl rfl (congrArg _ hr) (congrArg _ hq)
  | again requested hholder =>
    refine h.of_holder rfl rfl rfl rfl rfl rfl (by rw [hholder]; rfl) ?_
    have hlt : s.used < c.max := h.sound _ hholder
    have hle := Nat.min_le_right requested (available c s.credits)
    rw [h.available_eq] at hle ⊢
    exact ⟨by omega, rfl⟩
  | enqueue requested hholder =>
    refine h.of_waiters rfl ?_ ?_ rfl (fun _ hsome => by cases hsome)
    · rw [State.reserved, State.reserved, State.advance, sum_add, hholder]
      rfl
    · rw [State.queued, State.advance, sum_add]
      rfl
  | add count grants hholder =>
    obtain ⟨hroom, htotal⟩ := h.sound _ hholder
    exact h.reserve (by rw [hholder]; rfl) hroom htotal
  | taken available remaining ready hholder hend =>
    obtain ⟨hroom, htotal⟩ := h.sound _ hholder
    exact h.reserve (by rw [hholder]; rfl) (by omega) (by omega)
  | take available remaining ready waiter waiters hholder hwaiters hremaining =>
    refine h.take hholder (Nat.min_le_right waiter.requested remaining) ?_ rfl rfl rfl rfl
    rw [State.reserved, State.reserved, hholder]
    rfl
  | level grants hholder hdesired => exact h.of_leave hholder rfl rfl rfl rfl rfl rfl rfl rfl
  | publish next grants hholder =>
    exact (h.publishState next).of_holder rfl rfl rfl rfl rfl rfl
      (congrArg holderReserved hholder).symm trivial
  | confirm next grants hholder hdesired => exact h.conclude hholder rfl
  | correct final grants hholder => exact (h.publishState final).conclude hholder rfl

theorem start (c : Config) : Balanced c State.start :=
  ⟨rfl, Nat.zero_le _, fun _ h => nomatch h⟩

/-- What `Balanced` says at the start holds all along. -/
theorem of_run {es : List Event} (hrun : Trace.run (Jobs.step c) s es = some t)
    (h : Balanced c s) : Balanced c t :=
  Trace.run_invariant (C := fun _ _ => True)
    (fun _ _ _ hs _ hstep => hs.step (Move.of_step hstep)) h (Trace.along_true _ _) hrun

end Balanced

/-- In every reachable state the credit word is, side by side, the number of outstanding
reserved permits, the number of queued ones, the pressure last published and whether a
waiter is queued. The permits in use stay within the configured maximum. -/
theorem run_credits (c : Config) (es : List Event) (s : State)
    (hrun : Trace.run (step c) State.start es = some s) :
    reservedCount s.credits = s.reserved ∧ queuedCount s.credits = s.queued ∧
      pressureState s.credits = s.published ∧ (s.credits &&& waitingCredit ≠ 0 ↔ s.waiters ≠ []) ∧
      permitsInUse s.credits = s.reserved + s.queued ∧ s.reserved + s.queued ≤ c.max := by
  have h := Balanced.of_run hrun (Balanced.start c)
  exact ⟨h.reservedCount_eq, h.queuedCount_eq, h.pressureState_eq, h.waiting_iff,
    h.permitsInUse_eq, h.le_max⟩

def smallQueue : Config where
  effectiveProcessorCount := 4
  effectiveMaxQueuedApplicationJobs := 3
  pauseThresholdPercent := 60
  resumeThresholdPercent := 30
  processors := by decide
  positive := by decide
  bounded := by decide
  pausePositive := by decide
  pauseBounded := by decide
  resumeBounded := by decide
  resumeBelow := by decide

/-- A call that asks for more than there are; another one waits for two. -/
def contendedRun : List Event :=
  [.tryReserve 5, .advance, .advance, .advance, .advance, .work 0 .applied, .work 0 .applied,
    .take 0, .take 0, .register 2, .markQueued 1, .markQueued 2, .advance, .drop 1,
    .work 2 .applied]

theorem run_credits_contended : ∃ s, Trace.run (step smallQueue) State.start contendedRun = some s ∧
      (s.reserved, s.queued, s.waiters.length) = (1, 1, 1) ∧
      reservedCount s.credits = s.reserved ∧ queuedCount s.credits = s.queued ∧
      pressureState s.credits = s.published ∧ (s.credits &&& waitingCredit ≠ 0 ↔ s.waiters ≠ []) ∧
      permitsInUse s.credits = s.reserved + s.queued ∧ s.reserved + s.queued ≤ smallQueue.max := by
  have hrun : (Trace.run (step smallQueue) State.start contendedRun).map
      (fun s => (s.reserved, s.queued, s.waiters.length)) = some (1, 1, 1) := by
    decide +kernel
  obtain ⟨s, hs, hcounts⟩ := Option.map_eq_some_iff.mp hrun
  exact ⟨s, hs, hcounts, run_credits smallQueue contendedRun s hs⟩

end Zlink.Jobs
