import Mathlib
import Zlink.LoadBalancer.Balancer

/-!
# The distributor of outbound pipes

`dist_t` sends each message to a set of pipes. The array of pipes keeps the matching ones
in front, behind them the other active ones, then the eligible ones that wait for the end
of the message in progress, and last the passive ones; three counters say where the parts
end. An access out of the array is no step.

A pipe is seen from the publisher: whether it is alive, whether it has credit, the frames
of its open record and its complete records. What a pipe finds when it is asked (its
credit, whether it is held, whether a write is refused, whether a frame is too large) is
an input of the operation. The pipes of these sockets are unpaired, so that no flow state
reaches them.
-/

namespace Zlink.Distribution

/-- The publisher's end of a pipe. -/
structure Outlet (α : Type) where
  active : Bool
  outActive : Bool
  queue : LoadBalancer.Queue α

/-- What a look at a pipe finds: whether its transport makes it wait, and whether there is
credit at the first look, the second and the one behind the arming. -/
structure Credit where
  waits : Bool
  first : Bool
  second : Bool
  third : Bool

/-- How a write ends that the state of the pipe lets through. A write that checks the
credit may leave the pipe waiting for more. -/
inductive Verdict where
  | accepts
  | refuses (arms : Bool)

namespace Outlet

variable {α : Type}

def create : Outlet α :=
  { active := true, outActive := true, queue := LoadBalancer.Queue.empty }

variable (o : Outlet α)

def checkPublishRecordHwm (c : Credit) : Outlet α × LoadBalancer.Admission :=
  if !o.active then (o, .inactive)
  else if c.waits then (o, .transportWait)
  else if !o.outActive && !c.first then (o, .hwmFull)
  else if !c.second && !c.third then ({ o with outActive := false }, .hwmFull)
  else ({ o with outActive := true }, .ready)

/-- `write_admitted_publish_frame`, or the writes that check the credit. -/
def write (admitted : Bool) (part : LoadBalancer.Part α) (verdict : Verdict) : Outlet α × Bool :=
  if !(o.active && o.outActive) then (o, false)
  else
    match verdict with
    | .accepts => ({ o with queue := o.queue.push part }, true)
    | .refuses arms => ({ o with outActive := admitted || !arms }, false)

def rollback (o : Outlet α) : Outlet α :=
  { o with queue := o.queue.rollback }

/-- A write with what becomes of its refusal: in the middle of a message the prefix on the
pipe goes too. -/
def fanOut (more admitted : Bool) (part : LoadBalancer.Part α)
    (verdict : Verdict) : Outlet α × Bool :=
  match o.write admitted part verdict with
  | (o, true) => (o, true)
  | (o, false) => (if more then o.rollback else o, false)

/-- `process_activate_write`: whether the socket is told. -/
def activateWrite (credit : Bool) : Outlet α × Bool :=
  if o.active && credit && !o.outActive then ({ o with outActive := true }, true)
  else (o, false)

def terminate : Outlet α :=
  { active := false, outActive := false, queue := o.queue.rollback }

end Outlet

structure Dist (P α : Type) where
  pipes : List P
  matching : ℕ
  active : ℕ
  eligible : ℕ
  more : Bool
  outlet : P → Outlet α

namespace Dist

variable {P α : Type} [DecidableEq P]

def create (outlet : P → Outlet α) : Dist P α :=
  { pipes := [], matching := 0, active := 0, eligible := 0, more := false,
    outlet := outlet }

variable (d : Dist P α)

/-- `_pipes.index (pipe_)`. -/
def index (p : P) : ℕ :=
  d.pipes.idxOf p

/-- `_pipes.swap`. -/
def swap (d : Dist P α) (i j : ℕ) : Option (Dist P α) :=
  if i < d.pipes.length ∧ j < d.pipes.length then
    some { d with pipes := SwapArray.swap d.pipes i j }
  else none

def setOutlet (p : P) (o : Outlet α) : Dist P α :=
  { d with outlet := Function.update d.outlet p o }

def attach (p : P) : Option (Dist P α) :=
  let d := { d with pipes := d.pipes ++ [p] }
  if d.more then do
    let d ← d.swap d.eligible (d.pipes.length - 1)
    return { d with eligible := d.eligible + 1 }
  else do
    let d ← d.swap d.active (d.pipes.length - 1)
    return { d with active := d.active + 1, eligible := d.eligible + 1 }

/-- `match`. -/
def matchPipe (p : P) : Option (Dist P α) :=
  if d.index p < d.matching then some d
  else if d.eligible ≤ d.index p then some d
  else do
    let d ← d.swap (d.index p) d.matching
    return { d with matching := d.matching + 1 }

def unmatch : Dist P α :=
  { d with matching := 0 }

def matchAll : Dist P α :=
  { d with matching := d.active }

def reverseMatch : Option (Dist P α) :=
  (List.range' d.matching (d.eligible - d.matching)).foldlM (fun d i => do
      let d ← d.swap i d.matching
      return { d with matching := d.matching + 1 })
    d.unmatch

/-- A pipe that terminates leaves the matching pipes, then the active, then the eligible
ones; its index is taken again each time. -/
def leaveMatching (p : P) : Option (Dist P α) :=
  if d.index p < d.matching then
    (d.swap (d.index p) (d.matching - 1)).map fun d => { d with matching := d.matching - 1 }
  else some d

def leaveActive (p : P) : Option (Dist P α) :=
  if d.index p < d.active then
    (d.swap (d.index p) (d.active - 1)).map fun d => { d with active := d.active - 1 }
  else some d

def leaveEligible (p : P) : Option (Dist P α) :=
  if d.index p < d.eligible then
    (d.swap (d.index p) (d.eligible - 1)).map fun d => { d with eligible := d.eligible - 1 }
  else some d

def pipeTerminated (p : P) : Option (Dist P α) :=
  if p ∉ d.pipes then some d
  else do
    let d ← d.leaveMatching p
    let d ← d.leaveActive p
    let d ← d.leaveEligible p
    return { d with pipes := SwapArray.erase d.pipes (d.index p) }

def activated (p : P) : Option (Dist P α) := do
  let d ←
    if d.eligible < d.pipes.length then do
      let d ← d.swap (d.index p) d.eligible
      some { d with eligible := d.eligible + 1 }
    else some d
  if !d.more ∧ d.active < d.pipes.length then do
    let d ← d.swap (d.eligible - 1) d.active
    some { d with active := d.active + 1 }
  else some d

def deactivateMatchingPipe (i : ℕ) : Option (Dist P α) :=
  if d.matching ≤ i then none
  else do
    let d ← d.swap i (d.matching - 1)
    let d := { d with matching := d.matching - 1 }
    -- `_active - 1` would wrap around at zero
    if d.active = 0 then none
    else do
      let d ← d.swap d.matching (d.active - 1)
      let d := { d with active := d.active - 1 }
      if d.eligible = 0 then none
      else do
        let d ← d.swap d.active (d.eligible - 1)
        return { d with eligible := d.eligible - 1 }

def writeAt (admitted : Bool) (i : ℕ) (part : LoadBalancer.Part α)
    (verdict : P → Verdict) : Option (Dist P α × Bool) :=
  match d.pipes[i]? with
  | none => none
  | some p =>
    let (o, ok) := (d.outlet p).fanOut d.more admitted part (verdict p)
    let d := d.setOutlet p o
    if ok then some (d, true)
    else (d.deactivateMatchingPipe i).map fun d => (d, false)

/-- The loop over the matching pipes; a pipe that refuses leaves its index to another. -/
def writeFrom (admitted : Bool) (part : LoadBalancer.Part α) (verdict : P → Verdict) :
    ℕ → Dist P α → ℕ → Option (Dist P α)
  | 0, d, i => if i < d.matching then none else some d
  | fuel + 1, d, i =>
    if i < d.matching then do
      let (d, ok) ← d.writeAt admitted i part verdict
      writeFrom admitted part verdict fuel d (if ok then i + 1 else i)
    else some d

def distribute (admitted : Bool) (part : LoadBalancer.Part α)
    (verdict : P → Verdict) : Option (Dist P α) :=
  if d.matching = 0 then some d
  else if d.matching = 1 ∧ d.active = 1 ∧ d.eligible = 1 then
    (d.writeAt admitted 0 part verdict).map Prod.fst
  else writeFrom admitted part verdict d.matching d 0

def rollback (d : Dist P α) : Dist P α :=
  { d with
    outlet := fun p =>
      if p ∈ d.pipes.take d.matching then (d.outlet p).rollback else d.outlet p
    matching := 0
    active := d.eligible
    more := false }

def sendToMatching (admitted : Bool) (part : LoadBalancer.Part α)
    (tooLarge : P → Bool) (verdict : P → Verdict) : Option (Dist P α × Bool) :=
  if admitted && (d.pipes.take d.matching).any tooLarge then
    some (if d.more then d.rollback else d, false)
  else do
    let d ← d.distribute admitted part verdict
    let d := if part.more then d else { d with active := d.eligible }
    return ({ d with more := part.more }, true)

def sendToAll (part : LoadBalancer.Part α) (tooLarge : P → Bool)
    (verdict : P → Verdict) : Option (Dist P α × Bool) :=
  d.matchAll.sendToMatching false part tooLarge verdict

/-- How `check_publish_record_hwm` joins the answers of the pipes. -/
def joined (result current : LoadBalancer.Admission) : LoadBalancer.Admission :=
  if current = .hwmFull then current
  else if (result = .ready ∨ result = .inactive) ∧ current = .transportWait then current
  else if result = .ready ∧ current = .inactive then current
  else result

def checkFrom (lossy : Bool) (credit : P → Credit) :
    ℕ → Dist P α → ℕ → LoadBalancer.Admission → Option (Dist P α × LoadBalancer.Admission)
  | 0, d, i, result => if i < d.matching then none else some (d, result)
  | fuel + 1, d, i, result =>
    if i < d.matching then
      match d.pipes[i]? with
      | none => none
      | some p =>
        let (o, current) := (d.outlet p).checkPublishRecordHwm (credit p)
        let d := d.setOutlet p o
        if lossy ∧ (current = .hwmFull ∨ current = .transportWait ∨ current = .inactive) then do
          let d ← d.deactivateMatchingPipe i
          checkFrom lossy credit fuel d i result
        else checkFrom lossy credit fuel d (i + 1) (joined result current)
    else some (d, result)

def checkPublishRecordHwm (lossy : Bool) (credit : P → Credit) :
    Option (Dist P α × LoadBalancer.Admission) :=
  checkFrom lossy credit d.matching d 0 .ready

end Dist

end Zlink.Distribution
