import Mathlib.Algebra.BigOperators.Group.List.Basic
import Mathlib.Data.List.Perm.Basic
import Zlink.Jobs.Queue

/-!
# What a step of the job queue can do

`Move` lists the outcomes of a step with what they change and what the step has seen.
Changes of the users' variables are stated by the permits they hold; `Chore` is what the
step of a task can do that concerns nothing but the tasks.
-/

namespace Zlink.Jobs

/-- The permits in the hands of users. -/
def heldReserved (held : List Holding) : ℕ :=
  (held.map Holding.reserved).sum

def heldQueued (held : List Holding) : ℕ :=
  (held.map Holding.queued).sum

theorem heldReserved_append (xs ys : List Holding) :
    heldReserved (xs ++ ys) = heldReserved xs + heldReserved ys := by
  rw [heldReserved, List.map_append, List.sum_append, ← heldReserved, ← heldReserved]

theorem heldQueued_append (xs ys : List Holding) :
    heldQueued (xs ++ ys) = heldQueued xs + heldQueued ys := by
  rw [heldQueued, List.map_append, List.sum_append, ← heldQueued, ← heldQueued]

theorem sum_set {α : Type*} (w : α → ℕ) {xs : List α} {i : ℕ} {a b : α} (h : xs[i]? = some a) :
    ((xs.set i b).map w).sum + w a = (xs.map w).sum + w b := by
  induction xs generalizing i with
  | nil => cases h
  | cons x xs ih =>
    cases i with
    | zero =>
      obtain rfl := Option.some.inj h
      simp only [List.set_cons_zero, List.map_cons, List.sum_cons]
      omega
    | succ i =>
      have := ih h
      simp only [List.set_cons_succ, List.map_cons, List.sum_cons]
      omega

inductive Chore (s : State) : Task → List Task → Prop where
  | dispatched (state : Pressure) (sequence : ℕ) (grants : List Grant) :
      Chore s (.finish (some ⟨state, sequence, []⟩) grants) [.finish none grants]
  | delivered : Chore s (.finish none []) []
  | abandoned : Chore s (.abandon []) []
  | unjoined (socket : ℕ) : Chore s (.join socket) []
  | attempt (socket : ℕ) (hholder : s.holder = none) : Chore s (.join socket)
        [.attempt socket (pressureState s.credits) s.pressureSequence]
  | missing (socket : ℕ) (state : Pressure) (sequence : ℕ) :
      Chore s (.attempt socket state sequence) []
  | refused (socket : ℕ) : Chore s (.refused socket) []
  | refusedClose (socket : ℕ) : Chore s (.refused socket) [.close socket]
  | unregistered (socket : ℕ) (state : Pressure) (sequence : ℕ) :
      Chore s (.joined socket state sequence) [.close socket]
  | retry (socket : ℕ) (state : Pressure) (sequence : ℕ) :
      Chore s (.joined socket state sequence) [.join socket]

/-- The outcomes of a step. -/
inductive Move (c : Config) (s : State) : State → Prop where
  | still : Move c s s
  -- users
  | rehold (held : List Holding) (hreserved : heldReserved held = heldReserved s.held)
      (hqueued : heldQueued held = heldQueued s.held) : Move c s { s with held := held }
  | queue (held : List Holding) (hreserved : heldReserved held + 1 = heldReserved s.held)
      (hqueued : heldQueued held = heldQueued s.held + 1) :
      Move c s { s with credits := fetchAdd s.credits (queuedCredit - 1), held := held }
  | drop (held : List Holding) (phase : PermitPhase) (count : ℕ) (hphase : phase ≠ .released)
      (hreserved : heldReserved held + (if phase = .reserved then count else 0) =
        heldReserved s.held)
      (hqueued : heldQueued held + (if phase = .reserved then 0 else count) = heldQueued s.held) :
      Move c s { s with held := held, tasks := s.tasks ++ [.release phase count] }
  | joinSocket : Move c s { s.add (.join s.entries.length) with entries := s.entries ++ [.new] }
  | deregister (registration socket : ℕ) (hholder : s.holder = none)
      (hregistration : (registration, socket) ∈ s.registrations) :
      Move c s
        { s.add (.close socket) with
          registrations := s.registrations.filter fun r => r ≠ (registration, socket)
          receiveFlowSockets :=
            s.receiveFlowSockets.filter fun r => r ≠ (registration, socket) }
  | tryReserve (count : ℕ) (hholder : s.holder = none) (hwaiters : s.waiters = [])
      (hpos : 0 < count) (hle : count ≤ available c s.credits) :
      Move c s { s with holder := some (.add count [⟨none, count⟩]) }
  | registerStopped (hholder : s.holder = none) (hstopped : s.stopped = true) : Move c s
        { s with
          nextWaiter := s.nextWaiter + 1
          verdicts := s.verdicts ++ [(s.nextWaiter, .stopped)]
          tasks := s.tasks ++ [.abandon [s.nextWaiter]] }
  | registerAgain (requested : ℕ) (hholder : s.holder = none) (hpos : 0 < requested)
      (hwaiters : s.waiters = []) (hlt : permitsInUse s.credits < c.max) :
      Move c s { s with holder := some (.again requested) }
  | registerEnqueue (requested : ℕ) (hholder : s.holder = none) (hpos : 0 < requested)
      (hstopped : s.stopped = false) :
      Move c s { s with holder := some (.enqueue requested) }
  | cancel (waiter : ℕ) (hholder : s.holder = none)
      (hwaiter : waiter ∈ s.waiters.map Waiter.id) : Move c s (s.cancelWaiter waiter)
  | stop (hholder : s.holder = none) : Move c s s.stop
  -- tasks
  | release (k : ℕ) (phase : PermitPhase) (count : ℕ)
      (htask : s.tasks[k]? = some (.release phase count)) :
      Move c s (s.releaseCredits c k phase count)
  | settleTake (k : ℕ) (htask : s.tasks[k]? = some .settle) (hholder : s.holder = none)
      (havailable : available c s.credits ≠ 0) (hwaiters : s.waiters ≠ []) :
      Move c s
        { s.replace k [] with
          holder := some (.take (available c s.credits) (available c s.credits) []) }
  | settleEvaluate (k : ℕ) (htask : s.tasks[k]? = some .settle) (hholder : s.holder = none)
      (hnone : s.stopped = true ∨ available c s.credits = 0 ∨ s.waiters = []) :
      Move c s { s.replace k [] with holder := some (.evaluate []) }
  | apply (k : ℕ) (state : Pressure) (sequence socket : ℕ) (sockets : List ℕ)
      (grants : List Grant) (answer : ApplyResult)
      (htask : s.tasks[k]? = some (.finish (some ⟨state, sequence, socket :: sockets⟩) grants)) :
      Move c s
        { s.replace k [.finish (some ⟨state, sequence, sockets⟩) grants] with
          entries := s.entries.modify socket fun x => (x.apply state sequence answer).1 }
  | deliver (k : ℕ) (grant : Grant) (grants : List Grant)
      (htask : s.tasks[k]? = some (.finish none (grant :: grants))) :
      Move c s
        { s.replace k [.finish none grants] with
          held := s.held ++ [.batch grant.count]
          called := s.called ++ (grant.waiter.map fun id => (id, some grant.count)).toList }
  | abandon (k waiter : ℕ) (waiters : List ℕ)
      (htask : s.tasks[k]? = some (.abandon (waiter :: waiters))) :
      Move c s { s.replace k [.abandon waiters] with called := s.called ++ [(waiter, none)] }
  | chore (k : ℕ) (task : Task) (following : List Task) (htask : s.tasks[k]? = some task)
      (hchore : Chore s task following) : Move c s (s.replace k following)
  | attempted (k socket : ℕ) (state : Pressure) (sequence : ℕ) (x : Entry)
      (answer : ApplyResult) (htask : s.tasks[k]? = some (.attempt socket state sequence))
      (hentry : s.entries[socket]? = some x)
      (happlied : (x.apply state sequence answer).2 = .applied) :
      Move c s
        { s.replace k [.joined socket state sequence] with
          entries := s.entries.set socket (x.apply state sequence answer).1 }
  | attemptRefused (k socket : ℕ) (state : Pressure) (sequence : ℕ) (x : Entry)
      (answer : ApplyResult) (htask : s.tasks[k]? = some (.attempt socket state sequence))
      (hentry : s.entries[socket]? = some x) :
      Move c s
        { s.replace k [.refused socket] with
          entries := s.entries.set socket (x.apply state sequence answer).1 }
  | joined (k socket : ℕ) (state : Pressure)
      (htask : s.tasks[k]? = some (.joined socket state s.pressureSequence))
      (hholder : s.holder = none) (hstopped : s.stopped = false) :
      Move c s
        { s.replace k [] with
          nextReceiveFlowRegistrationId := s.nextReceiveFlowRegistrationId + 1
          receiveFlowSockets :=
            s.receiveFlowSockets ++ [(s.nextReceiveFlowRegistrationId, socket)]
          registrations := s.registrations ++ [(s.nextReceiveFlowRegistrationId, socket)] }
  | close (k socket : ℕ) (htask : s.tasks[k]? = some (.close socket)) :
      Move c s { s.replace k [] with entries := s.entries.modify socket Entry.close }
  -- the holder of the mutex
  | again (requested : ℕ) (hholder : s.holder = some (.again requested)) :
      Move c s (s.advance c (.again requested))
  | enqueue (requested : ℕ) (hholder : s.holder = some (.enqueue requested)) :
      Move c s (s.advance c (.enqueue requested))
  | add (count : ℕ) (grants : List Grant) (hholder : s.holder = some (.add count grants)) :
      Move c s (s.reserve count grants)
  | taken (available remaining : ℕ) (ready : List Grant)
      (hholder : s.holder = some (.take available remaining ready))
      (hend : remaining = 0 ∨ s.waiters = []) :
      Move c s (s.reserve (available - remaining) ready)
  | take (available remaining : ℕ) (ready : List Grant) (waiter : Waiter)
      (waiters : List Waiter) (hholder : s.holder = some (.take available remaining ready))
      (hwaiters : s.waiters = waiter :: waiters) (hremaining : remaining ≠ 0) :
      Move c s
        { s with
          waiters := waiters
          credits := publishWaiters waiters s.credits
          verdicts := s.verdicts ++ [(waiter.id, .granted (min waiter.requested remaining))]
          holder := some (.take available (remaining - min waiter.requested remaining)
              (ready ++ [⟨some waiter.id, min waiter.requested remaining⟩])) }
  | level (grants : List Grant) (hholder : s.holder = some (.evaluate grants))
      (hdesired : desiredPressure c s.credits = pressureState s.credits) :
      Move c s { s with holder := none, tasks := s.tasks ++ [.finish none grants] }
  | evaluate (grants : List Grant) (hholder : s.holder = some (.evaluate grants))
      (hdesired : desiredPressure c s.credits ≠ pressureState s.credits) :
      Move c s { s with holder := some (.publish (desiredPressure c s.credits) grants) }
  | publish (next : Pressure) (grants : List Grant)
      (hholder : s.holder = some (.publish next grants)) :
      Move c s { s.publishState next with holder := some (.confirm next grants) }
  | confirm (next : Pressure) (grants : List Grant)
      (hholder : s.holder = some (.confirm next grants))
      (hdesired : desiredPressure c s.credits = next) : Move c s (s.conclude next grants)
  | differ (next : Pressure) (grants : List Grant)
      (hholder : s.holder = some (.confirm next grants))
      (hdesired : desiredPressure c s.credits ≠ next) :
      Move c s { s with holder := some (.correct (desiredPressure c s.credits) grants) }
  | correct (final : Pressure) (grants : List Grant)
      (hholder : s.holder = some (.correct final grants)) :
      Move c s ((s.publishState final).conclude final grants)

namespace Move

variable {c : Config} {s t : State} {e : Event} {i k : ℕ} {x : Holding} {task : Task}
  {critical : Critical}

theorem of_advance (h : s.holder = some critical) : Move c s (s.advance c critical) := by
  cases critical with
  | again requested => exact .again requested h
  | enqueue requested => exact .enqueue requested h
  | add count grants => exact .add count grants h
  | take available remaining ready =>
    rw [State.advance]
    split
    · rename_i waiter waiters hwaiters
      split
      · exact .take available remaining ready waiter waiters h hwaiters ‹_›
      · exact .taken available remaining ready h (.inl (not_not.mp ‹_›))
    · exact .taken available remaining ready h (.inr ‹_›)
  | evaluate grants =>
    rw [State.advance]
    split
    · exact .level grants h ‹_›
    · exact .evaluate grants h ‹_›
  | publish next grants => exact .publish next grants h
  | confirm next grants =>
    rw [State.advance]
    split
    · exact .confirm next grants h ‹_›
    · exact .differ next grants h ‹_›
  | correct final grants => exact .correct final grants h

variable {requested : ℕ}

theorem of_tryReserve (hholder : s.holder = none) : Move c s (s.tryReserve c requested) := by
  rw [State.tryReserve]
  split
  · exact .still
  · rename_i h
    push Not at h
    exact .tryReserve _ hholder h.2.1 (Nat.pos_of_ne_zero h.2.2) (Nat.min_le_right _ _)

theorem of_register (hholder : s.holder = none) (hpos : requested ≠ 0) :
    Move c s (s.register c requested) := by
  rw [State.register]
  split
  · exact .registerStopped hholder ‹_›
  · split
    · rename_i h
      exact .registerAgain requested hholder (Nat.pos_of_ne_zero hpos) h.1 h.2
    · exact .registerEnqueue requested hholder (Nat.pos_of_ne_zero hpos)
        (Bool.eq_false_of_not_eq_true ‹_›)

theorem held_set (h : s.held[i]? = some x) (y : Holding) :
    heldReserved (s.held.set i y) + x.reserved = heldReserved s.held + y.reserved ∧
      heldQueued (s.held.set i y) + x.queued = heldQueued s.held + y.queued :=
  ⟨sum_set Holding.reserved h, sum_set Holding.queued h⟩

theorem of_drop (h : s.held[i]? = some x) : Move c s (s.drop i x) := by
  rcases x with (_ | remaining) | _ | _ | _
  · exact .still
  · obtain ⟨hreserved, hqueued⟩ := held_set h (.batch 0)
    exact .drop _ _ _ (by decide) hreserved hqueued
  · obtain ⟨hreserved, hqueued⟩ := held_set h (.permit .released)
    exact .drop _ _ _ (by decide) hreserved hqueued
  · obtain ⟨hreserved, hqueued⟩ := held_set h (.permit .released)
    exact .drop _ _ _ (by decide) hreserved hqueued
  · exact .still

theorem of_markQueued (h : s.held[i]? = some x) : Move c s (s.markQueued i x) := by
  rcases x with _ | _ | _ | _
  · exact .still
  · obtain ⟨hreserved, hqueued⟩ := held_set h (.permit .queued)
    exact .queue _ hreserved hqueued
  all_goals exact .still

theorem of_split (h : s.held[i]? = some x) {y z : Holding}
    (hreserved : x.reserved = y.reserved + z.reserved) (hqueued : x.queued = y.queued + z.queued) :
    Move c s { s with held := s.held.set i y ++ [z] } := by
  obtain ⟨hr, hq⟩ := held_set h y
  have hzr : heldReserved [z] = z.reserved := Nat.add_zero _
  have hzq : heldQueued [z] = z.queued := Nat.add_zero _
  apply Move.rehold
  · rw [heldReserved_append, hzr]
    omega
  · rw [heldQueued_append, hzq]
    omega

theorem of_takeBatch (h : s.held[i]? = some x) : Move c s (s.takeBatch i requested x) := by
  rcases x with remaining | phase
  · have hle := Nat.min_le_right requested remaining
    exact of_split h (Nat.sub_add_cancel hle).symm rfl
  · exact .still

theorem of_take (h : s.held[i]? = some x) : Move c s (s.take i x) := by
  rcases x with (_ | remaining) | phase
  · apply Move.rehold
    · rw [heldReserved_append]
      rfl
    · rw [heldQueued_append]
      rfl
  · exact of_split h rfl rfl
  · exact .still

theorem of_move (h : s.held[i]? = some x) : Move c s (s.move i x) := by
  apply of_split h
  all_goals cases x <;> exact (Nat.zero_add _).symm

variable {answer : ApplyResult}

theorem of_finish {transition : Option Transition} {grants : List Grant}
    (h : s.tasks[k]? = some (.finish transition grants)) :
    Move c s (s.finish k answer transition grants) := by
  rcases transition with _ | ⟨state, sequence, _ | ⟨socket, sockets⟩⟩
  · cases grants with
    | nil => exact .chore k _ _ h .delivered
    | cons grant grants => exact .deliver k grant grants h
  · exact .chore k _ _ h (.dispatched state sequence grants)
  · exact .apply k state sequence socket sockets grants answer h

theorem of_settle (h : s.tasks[k]? = some .settle) (hholder : s.holder = none) :
    Move c s ((s.replace k []).settle c) := by
  rw [State.settle]
  split
  · rename_i hc
    exact .settleTake k h hholder hc.2.1 hc.2.2
  · rename_i hc
    apply Move.settleEvaluate k h hholder
    by_contra hnot
    push Not at hnot
    exact hc ⟨hnot.1, hnot.2⟩

theorem of_attempt {socket sequence : ℕ} {state : Pressure}
    (h : s.tasks[k]? = some (.attempt socket state sequence)) :
    Move c s (s.work c k answer (.attempt socket state sequence)) := by
  rw [State.work]
  split
  · rename_i x hentry
    by_cases happlied : (x.apply state sequence answer).2 = .applied
    · simp only [happlied, if_true]
      exact .attempted k socket state sequence x answer h hentry happlied
    · simp only [happlied, if_false]
      exact .attemptRefused k socket state sequence x answer h hentry
  · exact .chore k _ _ h (.missing socket state sequence)

theorem of_joined {socket sequence : ℕ} {state : Pressure}
    (h : s.tasks[k]? = some (.joined socket state sequence)) (hholder : s.holder = none) :
    Move c s (s.work c k answer (.joined socket state sequence)) := by
  rw [State.work]
  split
  · exact .chore k _ _ h (.unregistered socket state sequence)
  · split
    · exact .chore k _ _ h (.retry socket state sequence)
    · rename_i hstopped hsame
      push Not at hsame
      exact .joined k socket state (hsame.1 ▸ h) hholder (Bool.eq_false_of_not_eq_true hstopped)

theorem of_work (h : s.tasks[k]? = some task)
    (hfree : ¬ (s.holder ≠ none ∧ State.locks task)) : Move c s (s.work c k answer task) := by
  have hholder (hlocks : State.locks task) : s.holder = none :=
    Classical.byContradiction fun hheld => hfree ⟨hheld, hlocks⟩
  cases task with
  | release phase count => exact .release k phase count h
  | settle => exact of_settle h (hholder rfl)
  | finish transition grants => exact of_finish h
  | abandon waiters =>
    cases waiters with
    | nil => exact .chore k _ _ h .abandoned
    | cons waiter waiters => exact .abandon k waiter waiters h
  | join socket =>
    rw [State.work]
    split
    · exact .chore k _ _ h (.unjoined socket)
    · exact .chore k _ _ h (.attempt socket (hholder rfl))
  | attempt socket state sequence => exact of_attempt h
  | refused socket =>
    rw [State.work]
    split
    · exact .chore k _ _ h (.refusedClose socket)
    · exact .chore k _ _ h (.refused socket)
  | joined socket state sequence => exact of_joined h (hholder rfl)
  | close socket => exact .close k socket h

theorem of_step (h : step c s e = some t) : Move c s t := by
  cases e with
  | tryReserve requested =>
    rw [step, Option.ite_none_right_eq_some, Option.some_inj] at h
    obtain ⟨hguard, rfl⟩ := h
    exact of_tryReserve hguard.1
  | register requested =>
    rw [step, Option.ite_none_right_eq_some, Option.some_inj] at h
    obtain ⟨hguard, rfl⟩ := h
    exact of_register hguard.1 hguard.2
  | cancel waiter =>
    rw [step, Option.ite_none_right_eq_some, Option.some_inj] at h
    obtain ⟨hguard, rfl⟩ := h
    exact .cancel waiter hguard.1 hguard.2
  | stop =>
    rw [step, Option.ite_none_right_eq_some, Option.some_inj] at h
    obtain ⟨hguard, rfl⟩ := h
    exact .stop hguard.1
  | markQueued i =>
    obtain ⟨x, hx, rfl⟩ := Option.map_eq_some_iff.mp h
    exact of_markQueued hx
  | takeBatch i requested =>
    obtain ⟨x, hx, rfl⟩ := Option.map_eq_some_iff.mp h
    exact of_takeBatch hx
  | take i =>
    obtain ⟨x, hx, rfl⟩ := Option.map_eq_some_iff.mp h
    exact of_take hx
  | move i =>
    obtain ⟨x, hx, rfl⟩ := Option.map_eq_some_iff.mp h
    exact of_move hx
  | drop i =>
    obtain ⟨x, hx, rfl⟩ := Option.map_eq_some_iff.mp h
    exact of_drop hx
  | joinSocket =>
    obtain rfl := Option.some.inj h
    exact .joinSocket
  | deregister registration socket =>
    rw [step, Option.ite_none_right_eq_some, Option.some_inj] at h
    obtain ⟨hguard, rfl⟩ := h
    exact .deregister registration socket hguard.1 hguard.2
  | advance =>
    obtain ⟨critical, hholder, rfl⟩ := Option.map_eq_some_iff.mp h
    exact of_advance hholder
  | work k answer =>
    obtain ⟨task, htask, hwork⟩ := Option.bind_eq_some_iff.mp h
    rw [Option.ite_none_left_eq_some, Option.some_inj] at hwork
    obtain ⟨hfree, rfl⟩ := hwork
    exact of_work htask hfree

end Move

end Zlink.Jobs
