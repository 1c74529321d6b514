import Mathlib
import Zlink.LoadBalancer.Balancer

/-!
# The fair queue of inbound pipes

`fq_t` reads from a set of pipes in turn. The array of pipes keeps the active ones in front,
and `current` is the one to read from next; inside a record of several frames it stays where
it is. A pipe that has nothing to read leaves the front, and one whose next record finds no
room at its admission is kept aside until it is redriven.

A pipe is seen from its reader: whether it may still be read, and what stands in it. What the
admission of a record answers, which pipes are candidates and whether the registry of the
blocked pipes can grow are inputs of a receive call.
-/

namespace Zlink.FairQueue

inductive Errno where
  | eagain
  | econnaborted
  | enomem
  | other (code : ℕ)
  deriving DecidableEq

/-- What stands in a pipe. A gated frame is one that `requires_record_admission`. -/
inductive Item (α : Type) where
  | frame (part : LoadBalancer.Part α) (gated : Bool)
  | credential
  | delimiter

/-- What `read_admission_fn` answers. -/
inductive Answer where
  | admits
  | refuses (errno : Errno)
  | rejectsConsumed (errno : Errno)

/-- How a read from a pipe ends. -/
inductive Fetch (α : Type) where
  | got (part : LoadBalancer.Part α)
  | miss
  | refused (errno : Errno)
  | rejected (part : LoadBalancer.Part α) (errno : Errno)

/-- The reader's end of a pipe; `live` says that its state lets it read. -/
structure Inlet (α : Type) where
  live : Bool
  items : List (Item α)

namespace Inlet

variable {α : Type}

def readItems (admission : LoadBalancer.Part α → Answer) : List (Item α) → Inlet α × Fetch α
  | [] => ({ live := true, items := [] }, .miss)
  | .credential :: rest => readItems admission rest
  | .delimiter :: rest => ({ live := false, items := rest }, .miss)
  | .frame part gated :: rest =>
    match if gated then admission part else .admits with
    | .admits => ({ live := true, items := rest }, .got part)
    | .refuses errno =>
      ({ live := true, items := .frame part gated :: rest }, .refused errno)
    | .rejectsConsumed errno => ({ live := true, items := rest }, .rejected part errno)

variable (i : Inlet α)

def readWithRecordAdmission (admission : LoadBalancer.Part α → Answer) : Inlet α × Fetch α :=
  if i.live then readItems admission i.items else (i, .miss)

def read (i : Inlet α) : Inlet α × Fetch α :=
  i.readWithRecordAdmission fun _ => .admits

def dropItems : List (Item α) → Inlet α
  | [] => { live := true, items := [] }
  | .credential :: rest => dropItems rest
  | .delimiter :: rest => { live := false, items := rest }
  | .frame part _ :: rest =>
    if part.more then dropItems rest else { live := true, items := rest }

def dropRecord (part : LoadBalancer.Part α) : Inlet α :=
  if part.more && i.live then dropItems i.items else i

def checkRead : Inlet α × Bool :=
  if !i.live then (i, false)
  else
    match i.items with
    | [] => (i, false)
    | .delimiter :: rest => ({ live := false, items := rest }, false)
    | _ :: _ => (i, true)

/-- What `read_for_route_discard` takes until it fails, and whether a delimiter ended it. -/
def discardItems : List (Item α) → List (Item α) × List (Item α) × Bool
  | [] => ([], [], false)
  | .delimiter :: rest => ([], rest, true)
  | item :: rest =>
    ((item :: (discardItems rest).1), (discardItems rest).2)

def discard : Inlet α × List (Item α) × Bool :=
  if i.live then
    ({ i with items := (discardItems i.items).2.1 },
      (discardItems i.items).1, (discardItems i.items).2.2)
  else (i, [], false)

end Inlet

/-- The arguments of `recvpipe_with_record_admission`. -/
structure Gate (P α : Type) where
  candidate : P → Bool
  admission : P → LoadBalancer.Part α → Answer
  registers : P → Bool

inductive Received (P α : Type) where
  | frame (pipe : P) (part : LoadBalancer.Part α)
  | failed (errno : Errno)

structure Fq (P α : Type) where
  pipes : List P
  active : ℕ
  current : ℕ
  more : Bool
  multipartAbortPending : Bool
  publishReceiveActivity : Bool
  recordAdmissionBlocked : List P
  recordAdmissionBlockedSet : Finset P
  publicReceiveActiveCached : P → Bool
  inlet : P → Inlet α

namespace Fq

variable {P α : Type} [DecidableEq P]

def create (publishReceiveActivity : Bool) (cached : P → Bool) (inlet : P → Inlet α) : Fq P α :=
  { pipes := [], active := 0, current := 0, more := false, multipartAbortPending := false,
    publishReceiveActivity := publishReceiveActivity, recordAdmissionBlocked := [],
    recordAdmissionBlockedSet := ∅, publicReceiveActiveCached := cached, inlet := inlet }

variable (fq : Fq P α)

variable (p : P)

def setInlet (i : Inlet α) : Fq P α :=
  { fq with inlet := Function.update fq.inlet p i }

def publishPipeReceiveActivity (active : Bool) : Fq P α :=
  { fq with
    publicReceiveActiveCached :=
      if fq.publishReceiveActivity then Function.update fq.publicReceiveActiveCached p active
      else fq.publicReceiveActiveCached }

def tryGetPipeIndex : Option ℕ :=
  if p ∈ fq.pipes then some (fq.pipes.idxOf p) else none

def normalizeState : Fq P α :=
  let active := min fq.active fq.pipes.length
  if active = 0 then { fq with active := active, current := 0, more := false }
  else if active ≤ fq.current then { fq with active := active, current := 0 }
  else { fq with active := active }

def attach : Fq P α :=
  { fq with
    pipes := SwapArray.swap (fq.pipes ++ [p]) fq.active fq.pipes.length
    active := fq.active + 1 }.publishPipeReceiveActivity p true

def preserveCurrentPipe (currentPipe : Option P) (removed : P) : Option (Fq P α) :=
  match currentPipe with
  | none => none
  | some c =>
    if c = removed then none
    else
      match fq.tryGetPipeIndex c with
      | none => none
      | some i => if fq.active ≤ i then none else some { fq with current := i }

def deactivateAt (i : ℕ) : Fq P α :=
  let currentPipe := if fq.more then fq.pipes[fq.current]? else none
  let fq :=
    if currentPipe = some p then { fq with more := false, multipartAbortPending := true }
    else fq
  let fq :=
    { fq with
      active := fq.active - 1
      pipes := SwapArray.swap fq.pipes i (fq.active - 1) }.publishPipeReceiveActivity p false
  match fq.preserveCurrentPipe currentPipe p with
  | some fq => fq
  | none => if fq.current = fq.active then { fq with current := 0 } else fq

/-- The pipe leaves the front if it is there. -/
def retireAt (i : ℕ) : Fq P α :=
  if i < fq.active then fq.deactivateAt p i else fq.publishPipeReceiveActivity p false

def deactivate : Fq P α :=
  let fq := fq.normalizeState
  match fq.tryGetPipeIndex p with
  | none => fq
  | some i => fq.retireAt p i

def deactivateCurrentAfterReadMiss : Fq P α :=
  let fq := fq.publishPipeReceiveActivity p false
  let fq :=
    { fq with
      active := fq.active - 1
      pipes := SwapArray.swap fq.pipes fq.current (fq.active - 1) }
  if fq.current = fq.active then { fq with current := 0 } else fq

/-- Both the set and the queue forget the pipe. -/
def unblock : Fq P α :=
  { fq with
    recordAdmissionBlockedSet := fq.recordAdmissionBlockedSet.erase p
    recordAdmissionBlocked :=
      if p ∈ fq.recordAdmissionBlockedSet then fq.recordAdmissionBlocked.filter fun q => q ≠ p
      else fq.recordAdmissionBlocked }

/-- The erasure may exchange two pipes once more; the same source stays current. -/
def keepSource (currentPipe : Option P) (p : P) (i : ℕ) : Fq P α :=
  match fq.preserveCurrentPipe currentPipe p with
  | some fq => fq
  | none =>
    if 0 < fq.active then { fq with current := if i < fq.active then i else 0 } else fq

def pipeTerminated : Fq P α :=
  let fq := fq.normalizeState
  match fq.tryGetPipeIndex p with
  | none => fq
  | some i =>
    let fq := fq.unblock p
    let currentPipe := if fq.current < fq.active then fq.pipes[fq.current]? else none
    let fq := fq.retireAt p i
    let fq :=
      { fq with pipes := SwapArray.erase fq.pipes (fq.pipes.idxOf p) }.normalizeState
    fq.keepSource currentPipe p i

/-- What `discard_pending_records` hands out. -/
structure Discarded (α : Type) where
  detached : List (Item α)
  deferredDelimiter : Bool
  recheck : Bool

def discardPendingRecords : Fq P α × Discarded α :=
  let fq := fq.normalizeState
  let (i, detached, deferred) := (fq.inlet p).discard
  match fq.tryGetPipeIndex p with
  | none => (fq.setInlet p i, ⟨detached, deferred, false⟩)
  | some index =>
    let fq := fq.unblock p
    let fq := if fq.more ∧ index = fq.current then { fq with more := false } else fq
    let fq := fq.setInlet p i
    (fq.retireAt p index, ⟨detached, deferred, true⟩)

def activated : Fq P α :=
  let fq := fq.normalizeState
  match fq.tryGetPipeIndex p with
  | none => fq
  | some i =>
    if p ∈ fq.recordAdmissionBlockedSet then fq
    else if i < fq.active then fq.publishPipeReceiveActivity p true
    else
      { fq with
        pipes := SwapArray.swap fq.pipes i fq.active
        active := fq.active + 1 }.publishPipeReceiveActivity p true

/-- The current pipe is put aside; `none` when the registry cannot take it. -/
def blockCurrentForRecordAdmission (registers : P → Bool) : Option (Fq P α) :=
  let fq := fq.normalizeState
  match if fq.current < fq.active then fq.pipes[fq.current]? else none with
  | none => none
  | some p =>
    if p ∈ fq.recordAdmissionBlockedSet then
      some ({ fq with more := false }.deactivateAt p fq.current)
    else if registers p then
      some ({ fq with
        more := false
        recordAdmissionBlockedSet := insert p fq.recordAdmissionBlockedSet
        recordAdmissionBlocked := fq.recordAdmissionBlocked ++ [p] }.deactivateAt p fq.current)
    else none

def redriveNext (rest : List P) : Fq P α × ℕ :=
  let fq := { fq with recordAdmissionBlocked := rest }
  if p ∈ fq.recordAdmissionBlockedSet then
    let fq :=
      { fq with recordAdmissionBlockedSet := fq.recordAdmissionBlockedSet.erase p }
    if p ∈ fq.pipes then
      let fq' := fq.setInlet p (fq.inlet p).checkRead.1
      if (fq.inlet p).checkRead.2 then (fq'.activated p, 1) else (fq', 0)
    else (fq, 0)
  else (fq, 0)

/-- The loop takes a pipe out of the queue each time, and nothing puts one in. -/
def redriveFrom (maxPipes : ℕ) : ℕ → ℕ → Fq P α → Fq P α × ℕ
  | 0, redriven, fq => (fq, redriven)
  | turns + 1, redriven, fq =>
    if maxPipes ≤ redriven then (fq, redriven)
    else
      match fq.recordAdmissionBlocked with
      | [] => (fq, redriven)
      | p :: rest =>
        redriveFrom maxPipes turns (redriven + (fq.redriveNext p rest).2) (fq.redriveNext p rest).1

def redriveRecordAdmission (maxPipes : ℕ) : Fq P α × ℕ :=
  redriveFrom maxPipes fq.recordAdmissionBlocked.length 0 fq

def fetch (gate : Option (Gate P α)) (p : P) (i : Inlet α) : Inlet α × Fetch α :=
  match gate with
  | some g => if g.candidate p then i.readWithRecordAdmission (g.admission p) else i.read
  | none => i.read

def advance : Fq P α :=
  { fq with current := (fq.current + 1) % fq.active }

/-- The loop of `recvpipe_internal`. Every turn that goes on has made one pipe inactive, so
that as many turns as there are active pipes are enough. -/
def receiveFrom (gate : Option (Gate P α)) : ℕ → Fq P α → Fq P α × Received P α
  | 0, fq => (fq, .failed .eagain)
  | turns + 1, fq =>
    match fq.pipes[fq.current]? with
    | none => (fq, .failed .eagain)
    | some p =>
      let (i, fetched) := fetch gate p (fq.inlet p)
      match fetched with
      | .rejected part errno =>
        ({ fq.setInlet p (i.dropRecord part) with more := false }.advance, .failed errno)
      | .refused .eagain =>
        match (fq.setInlet p i).blockCurrentForRecordAdmission
            (fun q => gate.all fun g => g.registers q) with
        | some fq => receiveFrom gate turns fq
        | none => (fq.setInlet p i, .failed .enomem)
      | .refused errno => (fq.setInlet p i, .failed errno)
      | .got part =>
        if part.more then ({ fq.setInlet p i with more := true }, .frame p part)
        else ({ fq.setInlet p i with more := false }.advance, .frame p part)
      | .miss =>
        if fq.more then
          ({ fq.setInlet p i with more := false }.deactivateCurrentAfterReadMiss p,
            .failed .econnaborted)
        else receiveFrom gate turns ((fq.setInlet p i).deactivateCurrentAfterReadMiss p)

def recvpipe (gate : Option (Gate P α)) : Fq P α × Received P α :=
  let fq := fq.normalizeState
  if fq.multipartAbortPending then
    ({ fq with multipartAbortPending := false }, .failed .econnaborted)
  else receiveFrom gate fq.active fq

def hasInFrom : ℕ → Fq P α → Fq P α × Bool
  | 0, fq => (fq, false)
  | turns + 1, fq =>
    match fq.pipes[fq.current]? with
    | none => (fq, false)
    | some p =>
      let fq' := fq.setInlet p (fq.inlet p).checkRead.1
      if (fq.inlet p).checkRead.2 then (fq', true)
      else hasInFrom turns (fq'.deactivateCurrentAfterReadMiss p)

def hasIn : Fq P α × Bool :=
  let fq := fq.normalizeState
  if fq.multipartAbortPending then (fq, true)
  else if fq.more then (fq, true)
  else hasInFrom fq.active fq

end Fq

end Zlink.FairQueue
