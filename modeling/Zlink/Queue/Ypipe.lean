import Zlink.Lib.Trace
import Zlink.Queue.Yqueue

/-!
# The lock-free pipe

`ypipe_t` is a queue in chunks with one writer and one reader. The writer knows how far
it has flushed and how far the complete items go, the reader how far it has prefetched;
all they share is the pointer `c`, which says how far the writer has flushed, or is null
when the reader has gone to sleep. A null pointer is `none`.

An operation is cut where it makes its second atomic access: `flush` between the
exchange that fails and the store that follows, `read` and `read_if` between the exchange
in `check_read` and the removal of the item.
-/

namespace Zlink.Queue

variable {α : Type}

structure Ypipe (α : Type) where
  queue : Yqueue α
  w : Option Cell
  r : Option Cell
  f : Option Cell
  c : Option Cell

/-- `read`, or `read_if` with its function. -/
inductive Take (α : Type) where
  | read
  | readIf (fn : α → Bool)

def Take.accepts : Take α → α → Bool
  | .read, _ => true
  | .readIf fn, v => fn v

/-- `ypipe_read_result_t`, with the value and whether the prefetched items are used
up. -/
inductive ReadResult (α : Type) where
  | empty
  | rejected
  | consumed (value : α) (prefetchedBatchExhausted : Bool)

namespace Ypipe

/-- The constructor; `a` and `b` are what the allocator answers with. -/
def create (N : ℕ+) (a b : ℕ) : Option (Ypipe α) := do
  let queue ← (Yqueue.create a).push N b
  return { queue := queue, w := queue.back, r := queue.back, f := queue.back,
           c := queue.back }

/-- `cas`: the pointer before, with the pipe behind. -/
def cas (y : Ypipe α) (cmp val : Option Cell) : Ypipe α × Option Cell :=
  (if y.c = cmp then { y with c := val } else y, y.c)

def write (N : ℕ+) (y : Ypipe α) (value : α) (incomplete : Bool) (a : ℕ) : Option (Ypipe α) := do
  let b ← y.queue.back
  let queue ← y.queue.store b value
  let queue ← queue.push N a
  return { y with queue := queue, f := if incomplete then y.f else queue.back }

def unwrite (N : ℕ+) (y : Ypipe α) : Option (Ypipe α × Option α) :=
  if y.f = y.queue.back then some (y, none)
  else do
    let queue ← y.queue.unpush N
    let b ← queue.back
    let value ← queue.load b
    return ({ y with queue := queue }, some value)

/-- `flush` up to the exchange, with its answer; without one it still has to store. -/
def flush (y : Ypipe α) : Ypipe α × Option Bool :=
  if y.w = y.f then (y, some true)
  else
    let (z, old) := y.cas y.w y.f
    if old ≠ y.w then (z, none) else ({ z with w := y.f }, some true)

/-- The rest of a `flush` that found the reader asleep. -/
def flushSleeping (y : Ypipe α) : Ypipe α :=
  { y with c := y.f, w := y.f }

def checkRead (y : Ypipe α) : Ypipe α × Bool :=
  if some y.queue.front ≠ y.r ∧ y.r ≠ none then (y, true)
  else
    let (z, old) := y.cas (some y.queue.front) none
    ({ z with r := old }, !(some y.queue.front = old ∨ old = none))

/-- The rest of a `read` or `read_if` that found an item. -/
def take (N : ℕ+) (y : Ypipe α) (t : Take α) : Option (Ypipe α × ReadResult α) := do
  let value ← y.queue.load y.queue.front
  if !t.accepts value then return (y, .rejected)
  else
    let queue ← y.queue.pop N
    return ({ y with queue := queue }, .consumed value (some queue.front = y.r))

def probeIfPublished (y : Ypipe α) : Option (Ypipe α × Option α) :=
  if some y.queue.front = y.r ∨ y.r = none then
    let (y, published) := y.cas none none
    if published = none ∨ published = some y.queue.front then some (y, none)
    else do
      let value ← y.queue.load y.queue.front
      return ({ y with r := published }, some value)
  else do
    let value ← y.queue.load y.queue.front
    return (y, some value)

end Ypipe

inductive Call (α : Type) where
  | write (value : α) (incomplete : Bool)
  | unwrite
  | flush
  | checkRead
  | read (t : Take α)
  | probe

inductive Answer (α : Type) where
  | done
  | unwrote (value : Option α)
  | flushed (alive : Bool)
  | checked (available : Bool)
  | read (result : ReadResult α)
  | probed (value : Option α)

/-- A pipe with its writer and its reader, each between two operations or within one, and
the operations that have ended, with their answers. -/
structure Threads (α : Type) where
  pipe : Ypipe α
  flushing : Bool
  taking : Option (Take α)
  log : List (Call α × Answer α)

/-- A step of one of the two threads; an address is what the allocator answers with. -/
inductive Event (α : Type) where
  | write (value : α) (incomplete : Bool) (a : ℕ)
  | unwrite
  | flush
  | flushSleeping
  | checkRead
  | read (t : Take α)
  | take
  | probe

namespace Threads

def create (N : ℕ+) (a b : ℕ) : Option (Threads α) := do
  let pipe ← Ypipe.create N a b
  return { pipe := pipe, flushing := false, taking := none, log := [] }

def ends (x : Threads α) (pipe : Ypipe α) (call : Call α) (answer : Answer α) : Threads α :=
  { x with pipe := pipe, log := x.log ++ [(call, answer)] }

def step (N : ℕ+) (x : Threads α) : Event α → Option (Threads α)
  | .write value incomplete a =>
    if x.flushing then none
    else do
      let pipe ← x.pipe.write N value incomplete a
      return x.ends pipe (.write value incomplete) .done
  | .unwrite =>
    if x.flushing then none
    else do
      let (pipe, value) ← x.pipe.unwrite N
      return x.ends pipe .unwrite (.unwrote value)
  | .flush =>
    if x.flushing then none
    else
      match x.pipe.flush with
      | (pipe, some alive) => some (x.ends pipe .flush (.flushed alive))
      | (pipe, none) => some { x with pipe := pipe, flushing := true }
  | .flushSleeping =>
    if x.flushing then
      some { x.ends x.pipe.flushSleeping .flush (.flushed false) with flushing := false }
    else none
  | .checkRead =>
    if x.taking.isSome then none
    else
      let (pipe, available) := x.pipe.checkRead
      some (x.ends pipe .checkRead (.checked available))
  | .read t =>
    if x.taking.isSome then none
    else
      let (pipe, available) := x.pipe.checkRead
      if available then some { x with pipe := pipe, taking := some t }
      else some (x.ends pipe (.read t) (.read .empty))
  | .take => do
      let t ← x.taking
      let (pipe, result) ← x.pipe.take N t
      return { x.ends pipe (.read t) (.read result) with taking := none }
  | .probe =>
    if x.taking.isSome then none
    else do
      let (pipe, value) ← x.pipe.probeIfPublished
      return x.ends pipe .probe (.probed value)

end Threads

end Zlink.Queue
