import Mathlib.Data.Int.Notation
import Zlink.Lib.SwapArray

/-!
# The load balancer of outbound pipes

`lb_t` spreads messages over the outbound pipes of a socket. The first part of a
message goes to the pipe that the smooth weighted selection picks, or to a pipe
that the caller names; the further parts follow it. The array of pipes keeps the
active ones in front.

A pipe is its identity `P` together with a `Queue`: the parts of the record that
is open on it and the records that are complete. `World` is what else the balancer
asks of its pipes: whether a write is refused, and what the pipe would answer now.
-/

namespace Zlink.LoadBalancer

open SwapArray

structure Part (α : Type) where
  more : Bool
  body : α
  deriving DecidableEq

/-- `pipe_message_admission_t`. -/
inductive Admission where
  | ready
  | hwmFull
  | requestFull
  | transportWait
  | tooLarge
  | inactive
  | invalid
  deriving DecidableEq

inductive Errno where
  | eagain
  | econnrefused
  | efsm
  | ehostunreach
  | einval

inductive Written where
  | done
  | refused (admission : Admission) (cancelled : Bool)

/-- What the pipes answer; `σ` is their state beside the queues. -/
structure World (σ P α : Type) where
  write : σ → P → Part α → Bool → Written × σ
  checkWrite : σ → P → Bool × σ
  checkWriteAdmission : σ → P → Admission × σ

/-- The identifiers that order the candidates of a selection. -/
structure Peers (P : Type) where
  routingId : P → List UInt8
  endpoint : P → List UInt8

/-- The outbound side of a pipe. -/
structure Queue (α : Type) where
  pending : List (Part α)
  records : List (List (Part α))

namespace Queue

variable {α : Type}

def empty : Queue α :=
  { pending := [], records := [] }

def push (q : Queue α) (f : Part α) : Queue α :=
  if f.more then { q with pending := q.pending ++ [f] }
  else
    { pending := []
      records := q.records ++ [q.pending ++ [f]] }

def rollback (q : Queue α) : Queue α :=
  { q with pending := [] }

end Queue

structure Entry where
  weight : UInt32
  runningValue : ℤ
  attachSeq : UInt64

def maxPeerWeight : UInt32 := 10000

structure Lb (P : Type) where
  pipes : List P
  active : ℕ
  current : ℕ
  more : Bool
  dropping : Bool
  entries : List (P × Entry)
  attachSeq : UInt64
  orderDirty : Bool
  ordered : List P
  requestLimitedScratch : List P
  weightedMultipartPipe : Option P

namespace Lb

variable {P : Type} [DecidableEq P]

def init : Lb P :=
  { pipes := []
    active := 0
    current := 0
    more := false
    dropping := false
    entries := []
    attachSeq := 0
    orderDirty := true
    ordered := []
    requestLimitedScratch := []
    weightedMultipartPipe := none }

variable (lb : Lb P)

def index (p : P) : ℕ :=
  lb.pipes.idxOf p

def entry (p : P) : Option Entry :=
  lb.entries.lookup p

def setEntry (p : P) (e : Entry) : Lb P :=
  { lb with entries := (p, e) :: lb.entries.filter fun x => x.1 ≠ p }

def markSelectionDirty : Lb P :=
  { lb with orderDirty := true }

def activateAt (i : ℕ) : Lb P :=
  markSelectionDirty
    { lb with pipes := swap lb.pipes i lb.active, active := lb.active + 1 }

def activated (p : P) : Lb P :=
  if (lb.entry p).any fun e => e.weight = 0 then lb
  else if lb.index p < lb.active then lb
  else lb.activateAt (lb.index p)

def attach (p : P) (initialWeight : UInt32) : Lb P :=
  let lb := { lb with pipes := lb.pipes ++ [p] }
  let lb := lb.setEntry p
    { weight := min initialWeight maxPeerWeight
      runningValue := 0
      attachSeq := lb.attachSeq }
  activated (markSelectionDirty { lb with attachSeq := lb.attachSeq + 1 }) p

def deactivateAt (i : ℕ) : Lb P :=
  if lb.active ≤ i then lb
  else
    let active := lb.active - 1
    markSelectionDirty
      { lb with
        active := active
        pipes := swap lb.pipes i active
        current :=
          if lb.current = active then 0
          else if i < lb.current ∧ lb.current ≤ active then lb.current - 1
          else lb.current }

def deactivate (p : P) : Lb P :=
  lb.deactivateAt (lb.index p)

/-- The first part of `pipe_terminated`: in the middle of a message whose pipe
disconnects, the rest of the message is to be dropped. -/
def abandon (p : P) : Lb P :=
  let lb :=
    if lb.index p = lb.current ∧ lb.more then { lb with dropping := true }
    else lb
  if lb.weightedMultipartPipe = some p ∧ lb.more then
    { lb with dropping := true, weightedMultipartPipe := none }
  else lb

def retire (i : ℕ) : Lb P :=
  if i < lb.active then
    let active := lb.active - 1
    markSelectionDirty
      { lb with
        active := active
        pipes := swap lb.pipes i active
        current := if lb.current = active then 0 else lb.current }
  else lb

def pipeTerminated (p : P) : Lb P :=
  if p ∉ lb.pipes then lb
  else
    let lb := (lb.abandon p).retire (lb.index p)
    -- the pipe may have moved, so its index is taken again
    markSelectionDirty
      { lb with
        pipes := erase lb.pipes (lb.index p)
        entries := lb.entries.filter fun x => x.1 ≠ p }

def hasPositiveWeightPipe : Bool :=
  lb.entries.any fun x => 0 < x.2.weight

/-- `candidate_order_t`: routing id, then endpoint, then attach order. -/
def candidateOrder (peers : Peers P) (lb : Lb P) (p q : P) : Bool :=
  if peers.routingId p < peers.routingId q then true
  else if peers.routingId q < peers.routingId p then false
  else if peers.endpoint p ≠ peers.endpoint q then
    peers.endpoint p < peers.endpoint q
  else
    match lb.entry p, lb.entry q with
    | some e, some e' => e.attachSeq < e'.attachSeq
    | _, _ => false

def rebuildSelectionOrder (peers : Peers P) (lb : Lb P) : Lb P :=
  if lb.orderDirty = false ∧ lb.ordered.length = lb.active then lb
  else
    { lb with
      ordered :=
        ((lb.pipes.take lb.active).filter fun p => (lb.entry p).isSome).mergeSort
          fun p q => !lb.candidateOrder peers q p
      orderDirty := false }

def restoreRequestLimitedPipes : Lb P :=
  { lb.requestLimitedScratch.foldl activated lb with
    requestLimitedScratch := [] }

/-- One candidate of the selection: it wins with a larger value only, so the first
of equal candidates is kept. -/
def selectStep (acc : UInt32 × Option (P × ℤ)) (p : P) : UInt32 × Option (P × ℤ) :=
  match lb.entry p with
  | none => acc
  | some e =>
    if e.weight = 0 then acc
    else
      let value := e.runningValue + e.weight.toNat
      (acc.1 + e.weight,
        match acc.2 with
        | none => some (p, value)
        | some best => if best.2 < value then some (p, value) else some best)

def selectWeightedPipe : UInt32 × Option P :=
  let (total, best) := lb.ordered.foldl lb.selectStep (0, none)
  (total, best.map Prod.fst)

def commitWeightedSelection (selected : P) (total : UInt32) : Lb P :=
  { lb with
    entries := lb.entries.map fun x =>
      let step : ℤ :=
        if x.1 ∈ lb.ordered ∧ x.2.weight ≠ 0 then x.2.weight.toNat else 0
      let repay : ℤ := if x.1 = selected then total.toNat else 0
      (x.1, { x.2 with runningValue := x.2.runningValue + step - repay }) }

inductive ConnectErrno where
  | enotconn
  | econnrefused

def hasWeight (p : P) : Bool :=
  (lb.entry p).any fun e => e.weight ≠ 0

/-- The candidates of `select_connected_pipe`, in the order of the array. -/
def connected (filter : P → Bool) : List P :=
  lb.pipes.filter fun p => lb.hasWeight p && filter p

def connectStep (peers : Peers P) (lb : Lb P) (acc : UInt32 × Option (P × ℤ)) (p : P) :
    UInt32 × Option (P × ℤ) :=
  match lb.entry p with
  | none => acc
  | some e =>
    let value := e.runningValue + e.weight.toNat
    (acc.1 + e.weight,
      match acc.2 with
      | none => some (p, value)
      | some best =>
        if best.2 < value ∨ value = best.2 ∧ lb.candidateOrder peers p best.1 then
          some (p, value)
        else some best)

def selectConnectedPipe (peers : Peers P) (lb : Lb P) (filter : P → Bool) :
    Except ConnectErrno P × Lb P :=
  match (lb.connected filter).foldl (lb.connectStep peers) (0, none) with
  | (_, none) =>
    (.error (if lb.pipes.any lb.hasWeight || lb.pipes.isEmpty then .enotconn
      else .econnrefused), lb)
  | (total, some (p, _)) =>
    (.ok p,
      { lb with
        entries := lb.entries.map fun x =>
          let step : ℤ := if x.1 ∈ lb.connected filter then x.2.weight.toNat else 0
          let repay : ℤ := if x.1 = p then total.toNat else 0
          (x.1, { x.2 with runningValue := x.2.runningValue + step - repay }) })

end Lb

structure State (σ P α : Type) where
  lb : Lb P
  queue : P → Queue α
  world : σ

inductive Rc where
  | sent
  | refused
  | aborted

/-- The result of a send: an error number that the balancer sets itself, the pipe
that was used and the admission. -/
structure Sent (P : Type) where
  rc : Rc
  errno : Option Errno
  pipe : Option P
  admission : Admission

namespace State

variable {σ P α : Type} [DecidableEq P] (world : World σ P α) (peers : Peers P)

variable (s : State σ P α)

def setQueue (p : P) (q : Queue α) : State σ P α :=
  { s with queue := fun p' => if p' = p then q else s.queue p' }

def write (s : State σ P α) (p : P) (f : Part α) (observer : Bool) : Written × State σ P α :=
  match world.write s.world p f observer with
  | (.done, w) =>
    (.done, { s with world := w }.setQueue p ((s.queue p).push f))
  | (.refused admission cancelled, w) =>
    (.refused admission cancelled, { s with world := w })

def rollbackPipe (p : P) : State σ P α :=
  s.setQueue p (s.queue p).rollback

def pin (p : P) (f : Part α) : State σ P α :=
  { s with
    lb := { s.lb with
      more := f.more
      weightedMultipartPipe := if f.more then some p else none } }

def sentTo (p : P) (admission : Admission) : Sent P :=
  { rc := .sent, errno := none, pipe := some p, admission := admission }

def refusedWith (errno : Option Errno) (admission : Admission) : Sent P :=
  { rc := .refused, errno := errno, pipe := none, admission := admission }

/-- The open message is given up: what is on the pipe is taken back, and what
still follows is dropped. -/
def abort (p : P) (f : Part α) (admission : Admission) : Sent P × State σ P α :=
  ({ rc := .aborted
     errno := if admission = .tooLarge then none else some .eagain
     pipe := none
     admission := admission },
    { s.rollbackPipe p with
      lb := { s.lb with
        weightedMultipartPipe := none
        dropping := f.more
        more := false } })

def sendPinned (p : P) (f : Part α) (observer : Bool) : Sent P × State σ P α :=
  match s.write world p f observer with
  | (.done, s) => (sentTo p .ready, s.pin p f)
  | (.refused admission _, s) => s.abort p f admission

def sendOnlyPipe (p : P) (f : Part α) (observer : Bool) : Sent P × State σ P α :=
  match s.write world p f observer with
  | (.done, s) => (sentTo p .ready, s.pin p f)
  | (.refused admission cancelled, s) =>
    if observer ∧ cancelled ∧ admission = .invalid then
      (refusedWith none admission, s)
    else if s.lb.more then s.abort p f admission
    else if admission = .requestFull then
      (refusedWith (some .eagain) admission, s)
    else if admission = .tooLarge then (refusedWith none admission, s)
    else
      (refusedWith (some .eagain) admission,
        { s with lb := s.lb.deactivateAt 0 })

def anyHwmBlockedPipe (s : State σ P α) : List P → Bool × State σ P α
  | [] => (false, s)
  | p :: ps =>
    if (s.lb.entry p).any fun e => 0 < e.weight then
      match world.checkWriteAdmission s.world p with
      | (.hwmFull, w) => (true, { s with world := w })
      | (_, w) => anyHwmBlockedPipe { s with world := w } ps
    else anyHwmBlockedPipe s ps

def noActivePipe (admission : Admission) : Sent P × State σ P α :=
  let errno : Errno :=
    if s.lb.hasPositiveWeightPipe then .eagain else .econnrefused
  match s.anyHwmBlockedPipe world s.lb.pipes with
  | (true, s) => (refusedWith (some errno) .hwmFull, s)
  | (false, s) => (refusedWith (some errno) admission, s)

def noCandidate (admission : Admission) : Sent P × State σ P α :=
  let restored := { s with lb := s.lb.restoreRequestLimitedPipes }
  if s.lb.requestLimitedScratch.isEmpty then
    restored.noActivePipe world admission
  else
    (refusedWith (some (if restored.lb.hasPositiveWeightPipe then .eagain
        else .econnrefused)) .requestFull, restored)

def sendFirst : ℕ → State σ P α → Part α → Bool → Admission → Sent P × State σ P α
  | 0, s, _, _, admissionOut => s.noCandidate world admissionOut
  | fuel + 1, s, f, observer, admissionOut =>
    if s.lb.active = 0 then s.noCandidate world admissionOut
    else
      match s.lb.selectWeightedPipe with
      | (_, none) => s.noCandidate world admissionOut
      | (total, some p) =>
        match s.write world p f observer with
        | (.done, s) =>
          (sentTo p admissionOut,
            { s with
              lb := (s.lb.commitWeightedSelection p total).restoreRequestLimitedPipes }.pin p f)
        | (.refused admission cancelled, s) =>
          let restored :=
            { s with lb := s.lb.restoreRequestLimitedPipes }
          if observer ∧ cancelled ∧ admission = .invalid then
            (refusedWith none admission, restored)
          else if admission = .tooLarge then
            (refusedWith none .tooLarge, restored)
          else if admission = .requestFull then
            sendFirst fuel
              { s with
                lb := ({ s.lb with
                  requestLimitedScratch :=
                    s.lb.requestLimitedScratch ++ [p] }.deactivate p).rebuildSelectionOrder peers }
              f observer admissionOut
          else
            sendFirst fuel
              { s with
                lb := (s.lb.deactivate p).rebuildSelectionOrder peers }
              f observer
              (if admission = .hwmFull then .hwmFull else admissionOut)

def sendRoundRobin : ℕ → State σ P α → Part α → Admission → Sent P × State σ P α
  | 0, s, _, admissionOut => s.noActivePipe world admissionOut
  | fuel + 1, s, f, admissionOut =>
    if s.lb.active = 0 then s.noActivePipe world admissionOut
    else
      match s.lb.pipes[s.lb.current]? with
      | none => s.noActivePipe world admissionOut
      | some p =>
        match s.write world p f false with
        | (.done, s) =>
          let current :=
            if f.more then s.lb.current
            else if s.lb.active ≤ s.lb.current + 1 then 0
            else s.lb.current + 1
          (sentTo p admissionOut,
            { s with
              lb := { s.lb with more := f.more, current := current } })
        | (.refused admission _, s) =>
          if s.lb.more then
            ({ rc := .aborted
               errno :=
                 if admission = .tooLarge then none else some .eagain
               pipe := none
               admission := admission },
              { s.rollbackPipe p with
                lb := { s.lb with dropping := f.more, more := false } })
          else if admission = .tooLarge then
            (refusedWith none .tooLarge, s)
          else
            sendRoundRobin fuel
              { s with lb := s.lb.deactivateAt s.lb.current } f
              (if admission = .hwmFull then .hwmFull else admissionOut)

def sendpipe (f : Part α) (observer : Bool) : Sent P × State σ P α :=
  if s.lb.dropping then
    ({ rc := .sent, errno := none, pipe := none, admission := .ready },
      { s with lb := { s.lb with more := f.more, dropping := f.more } })
  else if observer ∧ s.lb.more ∧ f.more then
    (refusedWith (some .einval) .ready, s)
  else
    match s.lb.more, s.lb.weightedMultipartPipe with
    | true, some p => s.sendPinned world p f observer
    | _, _ =>
      match s.lb.active, s.lb.current, s.lb.pipes with
      | 1, 0, p :: _ => s.sendOnlyPipe world p f observer
      | _, _, _ =>
        let s := { s with lb := s.lb.rebuildSelectionOrder peers }
        if s.lb.more then s.sendRoundRobin world s.lb.active f .ready
        else
          let s := { s with lb := { s.lb with requestLimitedScratch := [] } }
          sendFirst world peers s.lb.active s f observer .ready

def sendpipeTo (p : P) (f : Part α) (observer : Bool) : Sent P × State σ P α :=
  match s.lb.entry p with
  | none => (refusedWith (some .ehostunreach) .invalid, s)
  | some e =>
    if e.weight = 0 then (refusedWith (some .econnrefused) .invalid, s)
    else if s.lb.more then (refusedWith (some .efsm) .invalid, s)
    else
      match world.checkWriteAdmission s.world p with
      | (.ready, w) =>
        match { s with world := w }.write world p f observer with
        | (.done, s) => ({ sentTo p .ready with pipe := none }, s.pin p f)
        | (.refused admission cancelled, s) =>
          if observer ∧ cancelled ∧ admission = .invalid then
            (refusedWith none admission, s)
          else if admission = .tooLarge then
            (refusedWith none admission, s)
          else if admission = .requestFull then
            (refusedWith (some .eagain) admission, s)
          else
            (refusedWith (some (if admission = .hwmFull ∨ admission = .transportWait then .eagain
                else .ehostunreach)) admission,
              { s with lb := s.lb.deactivate p })
      | (admission, w) =>
        (refusedWith (some (if admission = .hwmFull ∨ admission = .transportWait then
              .eagain
            else .ehostunreach)) admission,
          { s with world := w, lb := s.lb.deactivate p })

def setWeight (p : P) (weight : UInt32) : State σ P α :=
  let weight := min weight maxPeerWeight
  match s.lb.entry p with
  | none => s
  | some e =>
    if e.weight = weight then s
    else
      let lb := (s.lb.setEntry p { e with weight := weight }).markSelectionDirty
      if weight = 0 then { s with lb := lb.deactivate p }
      else if lb.index p < lb.active then { s with lb := lb }
      else
        match world.checkWrite s.world p with
        | (true, w) =>
          { s with world := w, lb := lb.activateAt (lb.index p) }
        | (false, w) => { s with world := w, lb := lb }

/-- `rollback`: the open message is taken back and nothing is dropped any more. -/
def rollback : State σ P α :=
  let s' :=
    match s.lb.weightedMultipartPipe with
    | some p => s.rollbackPipe p
    | none =>
      if s.lb.more then
        match s.lb.pipes[s.lb.current]? with
        | some p => s.rollbackPipe p
        | none => s
      else s
  { s' with
    lb := { s.lb with
      more := false
      dropping := false
      weightedMultipartPipe := none } }

/-- The loop of `has_out`: a pipe that takes no write is no longer active. -/
def findWritable : ℕ → State σ P α → Bool × State σ P α
  | 0, s => (false, s)
  | fuel + 1, s =>
    if s.lb.active = 0 then (false, s)
    else
      match s.lb.pipes[s.lb.current]? with
      | none => (false, s)
      | some p =>
        match world.checkWrite s.world p with
        | (true, w) => (true, { s with world := w })
        | (false, w) =>
          findWritable fuel { s with world := w, lb := s.lb.deactivateAt s.lb.current }

def hasOut : Bool × State σ P α :=
  if s.lb.more then (true, s)
  else
    match s.lb.active, s.lb.current, s.lb.pipes with
    | 1, 0, p :: _ =>
      match world.checkWrite s.world p with
      | (true, w) => (true, { s with world := w })
      | (false, w) => (false, { s with world := w, lb := s.lb.deactivateAt 0 })
    | _, _, _ => findWritable world s.lb.active s

end State

end Zlink.LoadBalancer
