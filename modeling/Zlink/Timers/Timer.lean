import Zlink.Lib.Pool
import Zlink.Lib.Trace

/-!
# Spot timers

A timer of a Spot is a `timer_state_t` behind a mutex. A native fire posts a dispatch on the
serial queue of the Spot, fires that come while one is pending or a callback runs are only
counted, and the end of a callback posts what has been counted. `cancel` takes the claim of a
fire that waits in the queue, cleans up the native timer, and its task completes when the
cleanup has run and no callback is running.

Each function is cut where it gives the mutex up; an `Activity` is where a call stands between
two such sections. What a section decides belongs to its step, and what the rest of the
process answers (whether the Spot admits the fire, whether the queue takes the work, how the
callback ends, what the cleanup returns) comes with the step as its `Answer`. Timers are as
`add_timer_erased` makes them, with a context and a handler. The queue runs what it has taken.
-/

namespace Zlink.Timers

inductive Outcome where
  | success
  | failure
  deriving DecidableEq

/-- The largest `pending_fire_count`. -/
def maxFireCount : ℕ := 2 ^ 64 - 1

/-- The fields of a `timer_state_t` that decide about fires. `pendingFire` is
`optional<weak_ptr<void>>`: `some none` is the empty pointer of a fire that has only been
counted, and a number stands for the `timer_callback_admission_t` that it points to. -/
structure TimerState where
  disposed : Bool
  running : Bool
  cancelCompletion : Bool
  cleanupResult : Option Outcome
  cancelCompleted : Bool
  pendingFire : Option (Option ℕ)
  pendingFireCount : ℕ

namespace TimerState

def new : TimerState :=
  ⟨false, false, false, none, false, none, 0⟩

/-- What `pending_fire_count` takes of a number of fires. -/
def room (x : TimerState) (fires : ℕ) : ℕ :=
  min fires (maxFireCount - x.pendingFireCount)

def awaits (x : TimerState) (admission : ℕ) : Bool :=
  x.pendingFire = some (some admission)

/-- The condition of `complete_cancel_if_ready`. -/
def cancelReady (x : TimerState) : Bool :=
  !x.cancelCompleted && x.cancelCompletion && x.cleanupResult.isSome && !x.running

end TimerState

/-- What a call of `complete_cancel_if_ready` returns to: the end of a callback, with the fires
that it posts again, or `cancel` with the claim that it has taken. -/
inductive Caller where
  | callback (admission : ℕ) (repost : Option ℕ)
  | cancel (taken : Option ℕ)
  deriving DecidableEq

/-- Where a call stands. The steps of `post_fire_count` carry the admission of the work that
called it, if there is one: it is released when the work is done. -/
inductive Activity where
  /-- `post_fire_count` before its first section. -/
  | post (fires : ℕ) (after : Option ℕ)
  /-- Its admission is pending; `admit_timer_fire` comes next. -/
  | admitTimerFire (admission : ℕ) (after : Option ℕ)
  /-- Before the section that hands the claim to the admission. -/
  | claim (admission : ℕ) (admitted : Bool) (after : Option ℕ)
  /-- Before `try_post_async`. -/
  | offer (admission : ℕ) (admitted : Bool) (after : Option ℕ)
  /-- Before the section of `rollback_pending`. -/
  | rollback (admission : ℕ) (after : Option ℕ)
  /-- Work that the queue has taken. -/
  | queued (admission : ℕ)
  /-- A direct `dispatch_fire_count_async` before `admit_timer_fire`. -/
  | direct (fires : ℕ)
  /-- A direct dispatch with its claim, before its section. -/
  | enter (fires : ℕ) (claim : ℕ)
  /-- The handlers run. -/
  | callback (admission : ℕ)
  /-- The callback has failed and the timer is to stop. -/
  | stop (admission : ℕ)
  /-- Before the section of `reset_running`. -/
  | reset (admission : ℕ)
  /-- Before the section of `complete_cancel_if_ready`. -/
  | settle (caller : Caller)
  /-- Before `completion->complete`. -/
  | complete (caller : Caller)
  /-- The work is done and its admission goes. -/
  | finish (admission : ℕ)
  /-- `cancel` before its first section. -/
  | cancel
  /-- Before the native timer is cancelled. -/
  | cleanup (taken : Option ℕ)
  /-- Before the section that stores the result of the cleanup. -/
  | cleaned (taken : Option ℕ) (result : Outcome)
  /-- `cancel` returns, and the claim it has taken goes. -/
  | leave (taken : Option ℕ)
  deriving DecidableEq

/-- The claims of callbacks that `admit_timer_fire` has granted. `held` lists the admissions
whose `context` is set, the other two lists are history. -/
structure Claims where
  next : ℕ
  held : List ℕ
  claimed : List ℕ
  released : List ℕ

namespace Claims

variable (x : Claims)

def admitTimerFire (admission : ℕ) (admitted : Bool) : Claims :=
  if admitted then { x with claimed := x.claimed ++ [admission] } else x

/-- `admission->context = std::move (claimed.context);` -/
def hand (admission : ℕ) (admitted : Bool) : Claims :=
  if admitted then { x with held := admission :: x.held } else x

def release (admission : ℕ) (admitted : Bool) : Claims :=
  if admitted then { x with released := x.released ++ [admission] } else x

/-- `~timer_callback_admission_t`: a claim that the admission still has is released. -/
def drop (admission : ℕ) : Claims :=
  if admission ∈ x.held then
    { x with
      held := x.held.erase admission
      released := x.released ++ [admission] }
  else x

end Claims

/-- The history of the fires: how many there were, and where they went. `forgotten` are fires
that the end of a callback took from the count without posting them; `refused` says that a
post was refused since the count was last taken. -/
structure Ledger where
  fired : ℕ
  dispatched : ℕ
  saturated : ℕ
  cancelled : ℕ
  stopped : ℕ
  forgotten : ℕ
  refused : Bool

/-- What the sections work on, and how often the task of `cancel` was completed. -/
structure Core where
  timer : TimerState
  claims : Claims
  ledger : Ledger
  completions : ℕ

/-- A timer with the calls that are under way. -/
structure State where
  core : Core
  activities : List Activity

structure Answer where
  yes : Bool
  outcome : Outcome

/-- Calls from outside, and the next step of a call. -/
inductive Event where
  | fire (fires : ℕ)
  | direct (fires : ℕ)
  | cancel
  | advance (k : ℕ) (answer : Answer)

namespace Core

def new : Core where
  timer := .new
  claims := ⟨0, [], [], []⟩
  ledger := ⟨0, 0, 0, 0, 0, 0, false⟩
  completions := 0

variable (c : Core)

def discard (fires : ℕ) : Core :=
  if c.timer.cancelCompletion then
    { c with ledger := { c.ledger with cancelled := c.ledger.cancelled + fires } }
  else { c with ledger := { c.ledger with stopped := c.ledger.stopped + fires } }

/-- `pending_fire_count` takes what it has room for. -/
def count (fires : ℕ) : Core :=
  { c with
    timer := { c.timer with pendingFireCount := c.timer.pendingFireCount + c.timer.room fires }
    ledger :=
      { c.ledger with saturated := c.ledger.saturated + (fires - c.timer.room fires) } }

/-- `if (!state->pending_fire) state->pending_fire.emplace ();` -/
def markPending : Core :=
  { c with timer := { c.timer with pendingFire := c.timer.pendingFire.or (some none) } }

def takePending : Core :=
  { c with
    timer := { c.timer with pendingFire := none, pendingFireCount := 0 }
    ledger := { c.ledger with refused := false } }

def setRunning (running : Bool) : Core :=
  { c with timer := { c.timer with running } }

def dispatch (fires : ℕ) : Core :=
  { c with ledger := { c.ledger with dispatched := c.ledger.dispatched + fires } }

def fire (fires : ℕ) : Core :=
  { c with ledger := { c.ledger with fired := c.ledger.fired + fires } }

def forget (fires : ℕ) : Core :=
  { c with ledger := { c.ledger with forgotten := c.ledger.forgotten + fires } }

end Core

/-- The end of a call that a work has made, or of a native fire. -/
def returning (after : Option ℕ) : List Activity :=
  after.toList.map Activity.finish

def Caller.next : Caller → Activity
  | .callback admission none => .finish admission
  | .callback admission (some fires) => .post fires (some admission)
  | .cancel taken => .leave taken

/-! ## The sections

Each gives what the section leaves behind, and where the call goes on. -/

variable (c : Core)

/-- The first section of `post_fire_count`. -/
def post (fires : ℕ) (after : Option ℕ) : Core × List Activity :=
  if c.timer.disposed then (c.discard fires, returning after)
  else if c.timer.pendingFire.isSome ∨ c.timer.running then
    ((c.count fires).markPending, returning after)
  else
    let admission := c.claims.next
    let counted := c.count fires
    ({ counted with
        timer := { counted.timer with pendingFire := some (some admission) }
        claims := { c.claims with next := admission + 1 } },
      [.admitTimerFire admission after])

def admitTimerFire (c : Core) (admission : ℕ) (after : Option ℕ) (admitted : Bool) :
    Core × List Activity :=
  ({ c with claims := c.claims.admitTimerFire admission admitted }, [.claim admission admitted after])

def claim (admission : ℕ) (admitted : Bool) (after : Option ℕ) : Core × List Activity :=
  if c.timer.disposed ∨ !c.timer.awaits admission then
    ({ c with claims := c.claims.release admission admitted }, [.rollback admission after])
  else
    ({ c with claims := c.claims.hand admission admitted }, [.offer admission admitted after])

/-- `admitted && queue->try_post_async (...)`. -/
def offer (admission : ℕ) (admitted : Bool) (after : Option ℕ) (accepted : Bool) :
    Core × List Activity :=
  if admitted ∧ accepted then (c, .queued admission :: returning after)
  else (c, [.rollback admission after])

def rollback (admission : ℕ) (after : Option ℕ) : Core × List Activity :=
  let dropped := { c with claims := c.claims.drop admission }
  if c.timer.awaits admission then
    ({ dropped with
        timer := { c.timer with pendingFire := none }
        ledger := { c.ledger with refused := true } },
      returning after)
  else (dropped, returning after)

/-- The section of `dispatch_fire_count_async` for a queued fire. -/
def dispatchQueued (admission : ℕ) : Core × List Activity :=
  if c.timer.disposed ∨ !c.timer.awaits admission then (c, [.finish admission])
  else
    let fires := c.timer.pendingFireCount
    if c.timer.running then ((c.takePending.count fires).markPending, [.finish admission])
    else ((c.takePending.setRunning true).dispatch fires, [.callback admission])

def admitDirect (fires : ℕ) (admitted : Bool) : Core × List Activity :=
  if admitted then
    let claim := c.claims.next
    ({ c with
        claims :=
          { c.claims with
            next := claim + 1
            held := claim :: c.claims.held
            claimed := c.claims.claimed ++ [claim] } },
      [.enter fires claim])
  else (c, [])

def dispatchDirect (fires : ℕ) (claim : ℕ) : Core × List Activity :=
  if c.timer.disposed then (c, [.finish claim])
  else if c.timer.running then (((c.fire fires).count fires).markPending, [.finish claim])
  else (((c.fire fires).setRunning true).dispatch fires, [.callback claim])

/-- The handlers have returned, or one has thrown. -/
def endCallback (stopOnUnhandledException : Bool) (c : Core) (admission : ℕ)
    (outcome : Outcome) : Core × List Activity :=
  if outcome = .failure ∧ stopOnUnhandledException then (c, [.stop admission])
  else (c, [.reset admission])

def stop (admission : ℕ) : Core × List Activity :=
  ({ c with timer := { c.timer with disposed := true } }, [.reset admission])

/-- The section of `reset_running`. -/
def resetRunning (admission : ℕ) : Core × List Activity :=
  let fires := c.timer.pendingFireCount
  let idle := c.takePending.setRunning false
  if c.timer.disposed then (idle.discard fires, [.settle (.callback admission none)])
  else if c.timer.pendingFire.isSome then (idle, [.settle (.callback admission (some fires))])
  else (idle.forget fires, [.settle (.callback admission none)])

/-- The section of `complete_cancel_if_ready`. -/
def completeCancelIfReady (caller : Caller) : Core × List Activity :=
  if c.timer.cancelReady then
    ({ c with timer := { c.timer with cancelCompleted := true } }, [.complete caller])
  else (c, [caller.next])

/-- The first section of `cancel`. -/
def cancel : Core × List Activity :=
  if c.timer.cancelCompletion then (c, [])
  else
    let taken := c.timer.pendingFire.join.filter fun admission => admission ∈ c.claims.held
    let fires := c.timer.pendingFireCount
    let emptied := c.takePending
    let disposed : Core :=
      { emptied with
        timer := { emptied.timer with disposed := true, cancelCompletion := true }
        claims :=
          { c.claims with held := c.claims.held.filter fun admission => taken ≠ some admission } }
    (disposed.discard fires, [.cleanup taken])

def storeCleanup (taken : Option ℕ) (result : Outcome) : Core × List Activity :=
  ({ c with timer := { c.timer with cleanupResult := some result } }, [.settle (.cancel taken)])

def perform (stopOnUnhandledException : Bool) (c : Core) (answer : Answer) :
    Activity → Core × List Activity
  | .post fires after => post c fires after
  | .admitTimerFire admission after => admitTimerFire c admission after answer.yes
  | .claim admission admitted after => claim c admission admitted after
  | .offer admission admitted after => offer c admission admitted after answer.yes
  | .rollback admission after => rollback c admission after
  | .queued admission => dispatchQueued c admission
  | .direct fires => admitDirect c fires answer.yes
  | .enter fires claim => dispatchDirect c fires claim
  | .callback admission => endCallback stopOnUnhandledException c admission answer.outcome
  | .stop admission => stop c admission
  | .reset admission => resetRunning c admission
  | .settle caller => completeCancelIfReady c caller
  | .complete caller => ({ c with completions := c.completions + 1 }, [caller.next])
  | .finish admission => ({ c with claims := c.claims.drop admission }, [])
  | .cancel => cancel c
  | .cleanup taken => (c, [.cleaned taken answer.outcome])
  | .cleaned taken result => storeCleanup c taken result
  | .leave taken =>
    ({ c with
        claims := { c.claims with released := c.claims.released ++ taken.toList } }, [])

def start : State :=
  ⟨.new, []⟩

def step (stopOnUnhandledException : Bool) (s : State) : Event → Option State
  | .fire fires => some ⟨s.core.fire fires, s.activities ++ [.post fires none]⟩
  | .direct fires => some ⟨s.core, s.activities ++ [.direct fires]⟩
  | .cancel => some ⟨s.core, s.activities ++ [.cancel]⟩
  | .advance k answer =>
    s.activities[k]?.map fun x =>
      let next := perform stopOnUnhandledException s.core answer x
      ⟨next.1, Pool.replace s.activities k next.2⟩

end Zlink.Timers
