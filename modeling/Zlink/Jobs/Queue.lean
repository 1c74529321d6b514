import Zlink.Lib.Packed
import Zlink.Lib.Trace

/-!
# The application job queue

`application_job_queue_t` bounds the jobs a host has taken in and not yet started. Its
permits are counted in one atomic word: the reserved ones in the low 31 bits, the queued
ones in the next 31, and above them one bit for the published pressure and one that says
that a waiter is queued. Permits are returned by a single subtraction without the lock.
Everything else runs under the mutex, and reads the word as often as it needs it.

The operations are cut where they touch the word or the mutex. `Critical` is where the
holder of the mutex stands between two accesses to the word; what it does to the list of
waiters and to the registered sockets belongs to the access behind it, since only the
holder of the mutex looks at them. `Task` is what an operation still has to do outside the
mutex. The events are the calls of the queue's users and the steps of the open operations,
in any order.
-/

namespace Zlink.Jobs

inductive Pressure where
  | running
  | paused
  deriving DecidableEq

inductive PermitPhase where
  | reserved
  | queued
  | released
  deriving DecidableEq

inductive ApplyResult where
  | applied
  | invalidState
  | closingInvalidState
  | failed
  deriving DecidableEq

/-- What `application_job_queue_configuration_t` hands to the queue. -/
structure Settings where
  effectiveProcessorCount : ℕ
  effectiveMaxQueuedApplicationJobs : ℕ
  pauseThresholdPercent : ℕ
  resumeThresholdPercent : ℕ

structure Config extends Settings where
  processors : 0 < effectiveProcessorCount
  positive : 0 < effectiveMaxQueuedApplicationJobs
  bounded : effectiveMaxQueuedApplicationJobs ≤ 2 ^ 31 - 1
  pausePositive : 1 ≤ pauseThresholdPercent
  pauseBounded : pauseThresholdPercent ≤ 100
  resumeBounded : resumeThresholdPercent ≤ 99
  resumeBelow : resumeThresholdPercent < pauseThresholdPercent

def Settings.check (x : Settings) : Except String Config :=
  if hcapacity : 0 < x.effectiveProcessorCount ∧ 0 < x.effectiveMaxQueuedApplicationJobs ∧
      x.effectiveMaxQueuedApplicationJobs ≤ 2 ^ 31 - 1 then
    if hthresholds : 1 ≤ x.pauseThresholdPercent ∧ x.pauseThresholdPercent ≤ 100 ∧
        x.resumeThresholdPercent ≤ 99 ∧ x.resumeThresholdPercent < x.pauseThresholdPercent then
      .ok
        { x with
          processors := hcapacity.1
          positive := hcapacity.2.1
          bounded := hcapacity.2.2
          pausePositive := hthresholds.1
          pauseBounded := hthresholds.2.1
          resumeBounded := hthresholds.2.2.1
          resumeBelow := hthresholds.2.2.2 }
    else .error "Application Job Queue pressure thresholds are invalid"
  else .error "Application Job Queue effective capacity is invalid"

namespace Config

variable (c : Config)

abbrev max : ℕ :=
  c.effectiveMaxQueuedApplicationJobs

def pauseThresholdPermitCount : ℕ :=
  (c.max * c.pauseThresholdPercent + 99) / 100

def resumeThresholdPermitCount : ℕ :=
  c.max * c.resumeThresholdPercent / 100

theorem resume_lt_pause : c.resumeThresholdPermitCount < c.pauseThresholdPermitCount := by
  have hmax : 0 < c.max := c.positive
  have hpercent : c.max * (c.resumeThresholdPercent + 1) ≤ c.max * c.pauseThresholdPercent :=
    Nat.mul_le_mul_left _ c.resumeBelow
  rw [resumeThresholdPermitCount, pauseThresholdPermitCount, Nat.div_lt_iff_lt_mul (by decide)]
  have hround := Nat.div_add_mod (c.max * c.pauseThresholdPercent + 99) 100
  have hrest := Nat.mod_lt (c.max * c.pauseThresholdPercent + 99) (show 0 < 100 by decide)
  rw [Nat.mul_succ] at hpercent
  omega

end Config

def queuedCredit : ℕ := 2 ^ 31

def creditMask : ℕ := queuedCredit - 1

def pausedCredit : ℕ := 2 ^ 62

def waitingCredit : ℕ := 2 ^ 63

def pressureState (credits : ℕ) : Pressure :=
  if credits &&& pausedCredit ≠ 0 then .paused else .running

def reservedCount (credits : ℕ) : ℕ :=
  credits &&& creditMask

def queuedCount (credits : ℕ) : ℕ :=
  (credits >>> 31) &&& creditMask

def permitsInUse (credits : ℕ) : ℕ :=
  (reservedCount credits + queuedCount credits) % 2 ^ 32

variable (c : Config)

/-- What the configured maximum leaves, as a difference of 32-bit words. -/
def available (credits : ℕ) : ℕ :=
  (c.max + (2 ^ 32 - permitsInUse credits)) % 2 ^ 32

def desired (current : Pressure) (count : ℕ) : Pressure :=
  if current = .running ∧ c.pauseThresholdPermitCount ≤ count then .paused
  else if current = .paused ∧ count ≤ c.resumeThresholdPermitCount then .running
  else current

def desiredPressure (credits : ℕ) : Pressure :=
  desired c (pressureState credits) (permitsInUse credits)

def fetchAdd (credits amount : ℕ) : ℕ :=
  (credits + amount) % 2 ^ 64

def fetchSub (credits amount : ℕ) : ℕ :=
  (credits + (2 ^ 64 - amount)) % 2 ^ 64

def setBit (credits bit : ℕ) : ℕ :=
  credits ||| bit

def clearBit (credits bit : ℕ) : ℕ :=
  credits &&& (2 ^ 64 - 1 - bit)

def publishWaiters {α : Type} (waiters : List α) (credits : ℕ) : ℕ :=
  if waiters ≠ [] then setBit credits waitingCredit else clearBit credits waitingCredit

def publishPressure (next : Pressure) (credits : ℕ) : ℕ :=
  if next = .paused then setBit credits pausedCredit else clearBit credits pausedCredit

def releaseAmount (phase : PermitPhase) (count : ℕ) : ℕ :=
  if phase = .reserved then count else queuedCredit * count

/-- A `waiter_state_t` in the queue; the number stands for its shared pointer. -/
structure Waiter where
  id : ℕ
  requested : ℕ

/-- A part of a reservation with the waiter it is for, none for a direct reservation. -/
structure Grant where
  waiter : Option ℕ
  count : ℕ
  deriving DecidableEq

/-- A `receive_flow_socket_entry_t`. The last field remembers that the setter has refused
or failed. -/
structure Entry where
  lastAppliedSequence : ℕ
  lastAppliedState : Pressure
  hasApplied : Bool
  closing : Bool
  closeRequested : Bool
  setterFailed : Bool

namespace Entry

def new : Entry :=
  ⟨0, .running, false, false, false, false⟩

/-- `apply`, with what the setter answers if it is called. -/
def apply (x : Entry) (state : Pressure) (sequence : ℕ) (answer : ApplyResult) :
    Entry × ApplyResult :=
  if x.closing ∨ x.closeRequested then (x, .closingInvalidState)
  else if x.hasApplied ∧ sequence ≤ x.lastAppliedSequence then (x, .applied)
  else if x.hasApplied ∧ x.lastAppliedState = state then
    ({ x with lastAppliedSequence := sequence }, .applied)
  else if answer = .applied then
    ({ x with
      hasApplied := true, lastAppliedSequence := sequence, lastAppliedState := state }, .applied)
  else ({ x with setterFailed := true }, answer)

def requestClose (x : Entry) : Entry :=
  { x with closeRequested := true }

def close (x : Entry) : Entry :=
  { x.requestClose with closing := true }

end Entry

/-- A `pressure_transition_t`; sockets are places in the list of entries. -/
structure Transition where
  state : Pressure
  sequence : ℕ
  sockets : List ℕ
  deriving DecidableEq

inductive Holding where
  | batch (remaining : ℕ)
  | permit (phase : PermitPhase)

namespace Holding

def reserved : Holding → ℕ
  | .batch remaining => remaining
  | .permit .reserved => 1
  | .permit _ => 0

def queued : Holding → ℕ
  | .batch _ => 0
  | .permit .queued => 1
  | .permit _ => 0

def emptied : Holding → Holding
  | .batch _ => .batch 0
  | .permit _ => .permit .released

end Holding

inductive Critical where
  | again (requested : ℕ)
  | enqueue (requested : ℕ)
  | add (count : ℕ) (grants : List Grant)
  | take (available remaining : ℕ) (ready : List Grant)
  | evaluate (grants : List Grant)
  | publish (next : Pressure) (grants : List Grant)
  | confirm (next : Pressure) (grants : List Grant)
  | correct (final : Pressure) (grants : List Grant)

/-- What an operation still has to do without the mutex, or to take it for. -/
inductive Task where
  | release (phase : PermitPhase) (count : ℕ)
  | settle
  | finish (transition : Option Transition) (grants : List Grant)
  | abandon (waiters : List ℕ)
  | join (socket : ℕ)
  | attempt (socket : ℕ) (state : Pressure) (sequence : ℕ)
  | refused (socket : ℕ)
  | joined (socket : ℕ) (state : Pressure) (sequence : ℕ)
  | close (socket : ℕ)
  deriving DecidableEq

inductive Verdict where
  | granted (count : ℕ)
  | cancelled
  | stopped

def Verdict.outcome : Verdict → Option ℕ
  | .granted count => some count
  | .cancelled => none
  | .stopped => none

/-- `state_t` with the open operations. The last five fields are records of what has
happened: the verdicts on waiters, the callbacks called, the direct reservations, the
pressure last published and the states of all transitions, with the initial one in front. -/
structure State where
  credits : ℕ
  waiters : List Waiter
  nextWaiter : ℕ
  pressureSequence : ℕ
  entries : List Entry
  receiveFlowSockets : List (ℕ × ℕ)
  nextReceiveFlowRegistrationId : ℕ
  stopped : Bool
  holder : Option Critical
  tasks : List Task
  held : List Holding
  registrations : List (ℕ × ℕ)
  verdicts : List (ℕ × Verdict)
  called : List (ℕ × Option ℕ)
  reservations : List ℕ
  published : Pressure
  states : List Pressure

namespace State

def start : State :=
  ⟨0, [], 0, 0, [], [], 1, false, none, [], [], [], [], [], [], .running, [.running]⟩

variable (s : State)

/-- No operation is in progress. -/
def Quiet : Prop :=
  s.holder = none ∧ s.tasks = []

def replace (k : ℕ) (following : List Task) : State :=
  { s with tasks := s.tasks.eraseIdx k ++ following }

def add (task : Task) : State :=
  { s with tasks := s.tasks ++ [task] }

/-- The end of `evaluate_pressure_locked` with a transition. -/
def conclude (state : Pressure) (grants : List Grant) : State :=
  { s with
    pressureSequence := s.pressureSequence + 1
    states := s.states ++ [state]
    holder := none
    tasks := s.tasks ++
      [.finish (some ⟨state, s.pressureSequence + 1, s.receiveFlowSockets.map Prod.snd⟩) grants] }

def publishState (next : Pressure) : State :=
  { s with credits := publishPressure next s.credits, published := next }

/-- `reserve_locked`. A direct reservation is recorded. -/
def reserve (count : ℕ) (grants : List Grant) : State :=
  { s with
    credits := fetchAdd s.credits count
    reservations := s.reservations ++ (grants.filter fun g => g.waiter = none).map Grant.count
    holder := some (.evaluate grants) }

variable (c : Config)

def advance (s : State) : Critical → State
  -- the second load of `register_supply_batch`
  | .again requested =>
    let count := min requested (available c s.credits)
    { s with
      nextWaiter := s.nextWaiter + 1
      verdicts := s.verdicts ++ [(s.nextWaiter, .granted count)]
      holder := some (.add count [⟨some s.nextWaiter, count⟩]) }
  -- the waiter is pushed and its bit published; behind the mutex the registrant settles
  | .enqueue requested =>
    let waiters := s.waiters ++ [⟨s.nextWaiter, requested⟩]
    { s with
      nextWaiter := s.nextWaiter + 1
      waiters := waiters
      credits := publishWaiters waiters s.credits
      holder := none
      tasks := s.tasks ++ [.settle] }
  | .add count grants => s.reserve count grants
  -- one turn of the loop of `settle_released_capacity_locked`, or the addition behind it
  | .take available remaining ready =>
    match s.waiters with
    | waiter :: waiters =>
      if remaining ≠ 0 then
        let granted := min waiter.requested remaining
        { s with
          waiters := waiters
          credits := publishWaiters waiters s.credits
          verdicts := s.verdicts ++ [(waiter.id, .granted granted)]
          holder := some
            (.take available (remaining - granted) (ready ++ [⟨some waiter.id, granted⟩])) }
      else s.reserve (available - remaining) ready
    | [] => s.reserve (available - remaining) ready
  | .evaluate grants =>
    if desiredPressure c s.credits = pressureState s.credits then
      { s with holder := none, tasks := s.tasks ++ [.finish none grants] }
    else { s with holder := some (.publish (desiredPressure c s.credits) grants) }
  | .publish next grants =>
    { s.publishState next with holder := some (.confirm next grants) }
  | .confirm next grants =>
    if desiredPressure c s.credits = next then s.conclude next grants
    else { s with holder := some (.correct (desiredPressure c s.credits) grants) }
  | .correct final grants => (s.publishState final).conclude final grants

/-- `try_reserve_supply_batch` up to the capacity check. -/
def tryReserve (s : State) (requested : ℕ) : State :=
  let count := min requested (available c s.credits)
  if s.stopped ∨ s.waiters ≠ [] ∨ count = 0 then s
  else { s with holder := some (.add count [⟨none, count⟩]) }

/-- `register_supply_batch` up to its choice. -/
def register (s : State) (requested : ℕ) : State :=
  if s.stopped then
    { s with
      nextWaiter := s.nextWaiter + 1
      verdicts := s.verdicts ++ [(s.nextWaiter, .stopped)]
      tasks := s.tasks ++ [.abandon [s.nextWaiter]] }
  else if s.waiters = [] ∧ permitsInUse s.credits < c.max then
    { s with holder := some (.again requested) }
  else { s with holder := some (.enqueue requested) }

/-- `settle_released_capacity` up to the capacity check. -/
def settle (c : Config) (s : State) : State :=
  if ¬ s.stopped ∧ available c s.credits ≠ 0 ∧ s.waiters ≠ [] then
    { s with holder := some (.take (available c s.credits) (available c s.credits) []) }
  else { s with holder := some (.evaluate []) }

def cancelWaiter (waiter : ℕ) : State :=
  let waiters := s.waiters.filter fun w => w.id ≠ waiter
  { s with
    waiters := waiters
    credits := publishWaiters waiters s.credits
    verdicts := s.verdicts ++ [(waiter, .cancelled)]
    tasks := s.tasks ++ [.abandon [waiter]] }

def requestClose (sockets : List ℕ) (entries : List Entry) : List Entry :=
  entries.mapIdx fun i x => if i ∈ sockets then x.requestClose else x

def stop : State :=
  { s with
    stopped := true
    waiters := []
    credits := publishWaiters ([] : List Waiter) s.credits
    verdicts := s.verdicts ++ s.waiters.map fun w => (w.id, .stopped)
    entries := requestClose (s.receiveFlowSockets.map Prod.snd) s.entries
    receiveFlowSockets := []
    tasks := s.tasks ++ [.abandon (s.waiters.map Waiter.id)] }

/-- The fast return of `release_credits`, from the word its subtraction found. -/
def Quick (before amount : ℕ) : Prop :=
  before &&& waitingCredit = 0 ∧ desiredPressure c (fetchSub before amount) = pressureState before

instance (c : Config) (before amount : ℕ) : Decidable (Quick c before amount) :=
  inferInstanceAs (Decidable (_ ∧ _))

/-- The subtraction of `release_credits`. -/
def releaseCredits (s : State) (k : ℕ) (phase : PermitPhase) (count : ℕ) : State :=
  { s.replace k (if Quick c s.credits (releaseAmount phase count) then [] else [.settle]) with
    credits := fetchSub s.credits (releaseAmount phase count) }

/-- The next step of `dispatch_pressure_transition` and then of `deliver_supply`. -/
def finish (s : State) (k : ℕ) (answer : ApplyResult) : Option Transition → List Grant → State
  | some ⟨state, sequence, socket :: sockets⟩, grants =>
    { s.replace k [.finish (some ⟨state, sequence, sockets⟩) grants] with
      entries := s.entries.modify socket fun x => (x.apply state sequence answer).1 }
  | some ⟨_, _, []⟩, grants => s.replace k [.finish none grants]
  | none, grant :: grants =>
    { s.replace k [.finish none grants] with
      held := s.held ++ [.batch grant.count]
      called := s.called ++ (grant.waiter.map fun id => (id, some grant.count)).toList }
  | none, [] => s.replace k []

/-- Tasks that begin by taking the mutex. -/
def locks : Task → Bool
  | .settle | .join _ | .refused _ | .joined _ _ _ => true
  | .release _ _ | .finish _ _ | .abandon _ | .attempt _ _ _ | .close _ => false

def work (s : State) (k : ℕ) (answer : ApplyResult) : Task → State
  | .release phase count => s.releaseCredits c k phase count
  | .settle => (s.replace k []).settle c
  | .finish transition grants => s.finish k answer transition grants
  | .abandon (waiter :: waiters) =>
    { s.replace k [.abandon waiters] with called := s.called ++ [(waiter, none)] }
  | .abandon [] => s.replace k []
  -- the loop of `register_receive_flow_socket`
  | .join socket =>
    if s.stopped then s.replace k []
    else s.replace k [.attempt socket (pressureState s.credits) s.pressureSequence]
  | .attempt socket state sequence =>
    match s.entries[socket]? with
    | some x =>
      let (y, result) := x.apply state sequence answer
      let following :=
        if result = .applied then Task.joined socket state sequence else .refused socket
      { s.replace k [following] with entries := s.entries.set socket y }
    | none => s.replace k []
  | .refused socket => s.replace k (if s.stopped then [.close socket] else [])
  | .joined socket state sequence =>
    if s.stopped then s.replace k [.close socket]
    else if s.pressureSequence ≠ sequence ∨ pressureState s.credits ≠ state then
      s.replace k [.join socket]
    else
      { s.replace k [] with
        nextReceiveFlowRegistrationId := s.nextReceiveFlowRegistrationId + 1
        receiveFlowSockets :=
          s.receiveFlowSockets ++ [(s.nextReceiveFlowRegistrationId, socket)]
        registrations := s.registrations ++ [(s.nextReceiveFlowRegistrationId, socket)] }
  | .close socket => { s.replace k [] with entries := s.entries.modify socket Entry.close }

def drop (i : ℕ) : Holding → State
  | .batch 0 => s
  | .batch remaining =>
    { s with held := s.held.set i (.batch 0), tasks := s.tasks ++ [.release .reserved remaining] }
  | .permit .released => s
  | .permit phase =>
    { s with held := s.held.set i (.permit .released), tasks := s.tasks ++ [.release phase 1] }

def markQueued (i : ℕ) : Holding → State
  | .permit .reserved =>
    { s with
      credits := fetchAdd s.credits (queuedCredit - 1)
      held := s.held.set i (.permit .queued) }
  | _ => s

def takeBatch (i requested : ℕ) : Holding → State
  | .batch remaining =>
    { s with
      held := s.held.set i (.batch (remaining - min requested remaining)) ++
        [.batch (min requested remaining)] }
  | _ => s

def take (i : ℕ) : Holding → State
  | .batch (remaining + 1) =>
    { s with held := s.held.set i (.batch remaining) ++ [.permit .reserved] }
  | .batch 0 => { s with held := s.held ++ [.permit .released] }
  | _ => s

/-- A new variable is constructed from another. A move assignment releases its target first
and is then the same. -/
def move (i : ℕ) (x : Holding) : State :=
  { s with held := s.held.set i x.emptied ++ [x] }

end State

/-- Calls of users and steps of the open operations. -/
inductive Event where
  | tryReserve (requested : ℕ)
  | register (requested : ℕ)
  | cancel (waiter : ℕ)
  | stop
  | markQueued (place : ℕ)
  | takeBatch (place requested : ℕ)
  | take (place : ℕ)
  | move (place : ℕ)
  | drop (place : ℕ)
  | joinSocket
  | deregister (registration socket : ℕ)
  | advance
  | work (task : ℕ) (answer : ApplyResult)

/-- The state behind an event, if the event can happen. A call that needs the mutex happens
when the mutex is free. -/
def step (s : State) : Event → Option State
  | .tryReserve requested =>
    if s.holder = none ∧ requested ≠ 0 then some (s.tryReserve c requested) else none
  | .register requested =>
    if s.holder = none ∧ requested ≠ 0 then some (s.register c requested) else none
  | .cancel waiter =>
    if s.holder = none ∧ waiter ∈ s.waiters.map Waiter.id then some (s.cancelWaiter waiter)
    else none
  | .stop => if s.holder = none ∧ ¬ s.stopped then some s.stop else none
  | .markQueued i => s.held[i]?.map (s.markQueued i)
  | .takeBatch i requested => s.held[i]?.map (s.takeBatch i requested)
  | .take i => s.held[i]?.map (s.take i)
  | .move i => s.held[i]?.map (s.move i)
  | .drop i => s.held[i]?.map (s.drop i)
  | .joinSocket =>
    some { s.add (.join s.entries.length) with entries := s.entries ++ [.new] }
  | .deregister registration socket =>
    if s.holder = none ∧ (registration, socket) ∈ s.registrations then
      some
        { s.add (.close socket) with
          registrations := s.registrations.filter fun r => r ≠ (registration, socket)
          receiveFlowSockets :=
            s.receiveFlowSockets.filter fun r => r ≠ (registration, socket) }
    else none
  | .advance => s.holder.map (s.advance c)
  | .work k answer =>
    s.tasks[k]?.bind fun task =>
      if s.holder ≠ none ∧ State.locks task then none else some (s.work c k answer task)

end Zlink.Jobs
