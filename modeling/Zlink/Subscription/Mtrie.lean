import Mathlib
import Zlink.Lib.Loop
import Zlink.Lib.Slots

/-!
# The subscriptions of many pipes

`generic_mtrie_t` keeps a set of pipes for every prefix; `P` is the type of the pipes,
ordered by their addresses. A node has a table of children like the one of `trie_t`. The
loops that walk down from the root are recursions on the prefix. Removing a prefix keeps
the nodes on the way on a stack and visits them once more on the way back, which is the
return of the recursion.

Removing a pipe from all prefixes is the loop of the source with its stack: a node stays
on it while its children are worked on, one at a time, and each child is written back to
the node below it on the stack when the loop leaves it. `none` is a failed assertion or a
null pointer that is followed.
-/

namespace Zlink.Subscription

/-- `generic_mtrie_t`, without the count of prefixes that only the root uses. -/
structure Mtrie (P : Type) where
  pipes : Option (Finset P)
  table : Slots (Mtrie P)

inductive RmResult where
  | notFound
  | lastValueRemoved
  | valuesRemain
  deriving DecidableEq

namespace Mtrie

variable {P : Type} [LinearOrder P]

def empty : Mtrie P :=
  { pipes := none, table := { min := 0, full := 0, next := [] } }

def isRedundant (t : Mtrie P) : Bool :=
  t.pipes.isNone && t.table.full == 0

def add (pipe : P) (t : Mtrie P) : List UInt8 → Mtrie P × Bool
  | [] => ({ t with pipes := some (insert pipe (t.pipes.getD ∅)) }, t.pipes.isNone)
  | c :: cs =>
    let table := t.table.extend c.toNat
    match table.slot c.toNat with
    | some child =>
      let (child, result) := child.add pipe cs
      ({ t with table := table.setSlot c.toNat (some child) }, result)
    | none =>
      let table := { table with full := table.full + 1 }
      let (child, result) := empty.add pipe cs
      ({ t with table := table.setSlot c.toNat (some child) }, result)

variable (table : Slots (Mtrie P))

def compactSingle : Option (Slots (Mtrie P)) := do
  let i ← table.next.findIdx? Option.isSome
  let oldp ← table.next[i]?.join
  return { table with min := (table.min + i) % 256, next := [some oldp] }

def compactLeft : Option (Slots (Mtrie P)) := do
  let skipped ← (table.next.drop 1).findIdx? Option.isSome
  return { table with
    min := (table.min + (skipped + 1)) % 256, next := table.next.drop (skipped + 1) }

def compactRight : Option (Slots (Mtrie P)) := do
  let skipped ← (table.next.reverse.drop 1).findIdx? Option.isSome
  return { table with next := table.next.take (table.count - (skipped + 1)) }

def prune (c : ℕ) (table : Slots (Mtrie P)) : Option (Slots (Mtrie P)) :=
  if table.count = 0 then none
  else if table.count = 1 then
    if table.full = 1 then some { table with full := 0, next := [] } else none
  else
    let table := table.setSlot c none
    if 1 < table.full then
      let table := { table with full := table.full - 1 }
      if table.full = 1 then compactSingle table
      else if c = table.min then compactLeft table
      else if c = table.min + table.count - 1 then compactRight table
      else some table
    else none

/-- At the node of the prefix. -/
def rmHere (pipe : P) (t : Mtrie P) : Option (Mtrie P × RmResult) :=
  match t.pipes with
  | none => some (t, .notFound)
  | some pipes =>
    let erased := decide (pipe ∈ pipes)
    let pipes := pipes.erase pipe
    if pipes = ∅ then
      if erased then some ({ t with pipes := none }, .lastValueRemoved) else none
    else
      some ({ t with pipes := some pipes }, if erased then .valuesRemain else .notFound)

def rm (pipe : P) (t : Mtrie P) : List UInt8 → Option (Mtrie P × RmResult)
  | [] => t.rmHere pipe
  | c :: cs =>
    if t.table.count = 0 || t.table.outOfRange c.toNat then some (t, .notFound)
    else
      match t.table.slot c.toNat with
      | none => some (t, .notFound)
      | some child => do
          let (child, ret) ← child.rm pipe cs
          let table := t.table.setSlot c.toNat (some child)
          if child.isRedundant then
            let table ← prune c.toNat table
            return ({ t with table := table }, ret)
          else return ({ t with table := table }, ret)

/-- `struct iter`; the next node and the prefix are not used by this loop. -/
structure Iter (P : Type) where
  node : Mtrie P
  size : ℕ
  currentChild : ℕ
  newMin : ℕ
  newMax : ℕ
  processedForRemoval : Bool

def Iter.start (node : Mtrie P) (size : ℕ) : Iter P :=
  { node := node, size := size, currentChild := 0, newMin := 0, newMax := 0,
    processedForRemoval := false }

/-- The state of the loop; `out` are the prefixes the function was called with. -/
structure Sweep (P : Type) where
  stack : List (Iter P)
  buff : List UInt8
  out : List (List UInt8)

/-- Remove the pipe from one node, and say whether the function is called. -/
def eraseHere (pipe : P) (callOnUniq : Bool) (t : Mtrie P) : Mtrie P × Bool :=
  match t.pipes with
  | none => (t, false)
  | some pipes =>
    if pipe ∈ pipes then
      let pipes := pipes.erase pipe
      ({ t with pipes := if pipes = ∅ then none else some pipes },
        !callOnUniq || decide (pipes = ∅))
    else (t, false)

/-- Cut the table down to the range of the children that stay. -/
def shrink (newMin newMax : ℕ) : Option (Slots (Mtrie P)) :=
  if table.full = 0 then some { table with next := [] }
  else if table.full = 1 then
    if newMin = newMax ∧ table.min ≤ newMin ∧ newMin < table.min + table.count then do
      let node ← table.next[newMin - table.min]?.join
      return { table with min := newMin, next := [some node] }
    else none
  else if table.min < newMin ∨ newMax < table.min + table.count - 1 then
    let count := newMax + 1 - newMin
    if 1 < count ∧ table.min ≤ newMin ∧ newMax ≤ table.min + table.count - 1 ∧
        count < table.count then
      some { table with
        min := newMin, next := (table.next.drop (newMin - table.min)).take count }
    else none
  else some table

namespace Sweep

/-- The loop is done with a node, which is written back to the one it was reached
from; `inr` when that was the root. -/
def leave (node : Mtrie P) (stack : List (Iter P)) (buff : List UInt8)
    (out : List (List UInt8)) : Sweep P ⊕ (Mtrie P × List (List UInt8)) :=
  match stack with
  | [] => .inr (node, out)
  | parent :: stack =>
    let table := parent.node.table
    let table := { table with next := table.next.set parent.currentChild (some node) }
    let parent := { parent with node := { parent.node with table := table } }
    .inl { stack := parent :: stack, buff := buff, out := out }

def enter (pipe : P) (callOnUniq : Bool) (it : Iter P) (stack : List (Iter P))
    (buff : List UInt8) (out : List (List UInt8)) :
    Option (Sweep P ⊕ (Mtrie P × List (List UInt8))) :=
  let (node, called) := it.node.eraseHere pipe callOnUniq
  let it := { it with node := node }
  let out := if called then out ++ [buff.take it.size] else out
  let table := node.table
  if table.count = 0 then some (leave node stack buff out)
  else if table.count = 1 then do
    let buff := buff.take it.size ++ [UInt8.ofNat table.min]
    let child ← table.next[0]?.join
    return .inl
      { stack := Iter.start child (it.size + 1) ::
          { it with processedForRemoval := true } :: stack
        buff := buff, out := out }
  else
    let it :=
      if it.currentChild = 0 then
        { it with newMin := (table.min + table.count - 1) % 256, newMax := table.min }
      else it
    let buff := buff.take it.size ++ [UInt8.ofNat (table.min + it.currentChild)]
    let it := { it with processedForRemoval := true }
    match table.next[it.currentChild]?.join with
    | some child =>
      some (.inl { stack := Iter.start child (it.size + 1) :: it :: stack,
                   buff := buff, out := out })
    | none => some (.inl { stack := it :: stack, buff := buff, out := out })

/-- A child that became redundant is deleted; one that stays may be the first or the
last of them. -/
def settle (it : Iter P) : Option (Iter P) :=
  let table := it.node.table
  match table.next[it.currentChild]?.join with
  | none => some it
  | some child =>
    if child.isRedundant then
      if 0 < table.full then
        let table := { table with
          full := table.full - 1, next := table.next.set it.currentChild none }
        some { it with node := { it.node with table := table } }
      else none
    else
      let c := it.currentChild + table.min
      some { it with newMin := if c < it.newMin then c else it.newMin,
                     newMax := if it.newMax < c then c else it.newMax }

def revisit (it : Iter P) (stack : List (Iter P)) (buff : List UInt8)
    (out : List (List UInt8)) : Option (Sweep P ⊕ (Mtrie P × List (List UInt8))) :=
  let it := { it with processedForRemoval := false }
  let table := it.node.table
  if table.count = 0 then some (leave it.node stack buff out)
  else if table.count = 1 then do
    let child ← table.next[0]?.join
    if child.isRedundant then
      if table.full = 1 then
        let table := { table with full := 0, next := [] }
        return leave { it.node with table := table } stack buff out
      else none
    else return leave it.node stack buff out
  else do
    let it ← settle it
    if it.currentChild + 1 < it.node.table.count then
      return .inl { stack := { it with currentChild := it.currentChild + 1 } :: stack,
                    buff := buff, out := out }
    else
      let table ← shrink it.node.table it.newMin it.newMax
      return leave { it.node with table := table } stack buff out

def turn (pipe : P) (callOnUniq : Bool) (x : Sweep P) :
    Option (Sweep P ⊕ (Mtrie P × List (List UInt8))) :=
  match x.stack with
  | [] => none
  | it :: stack =>
    if it.processedForRemoval then revisit it stack x.buff x.out
    else enter pipe callOnUniq it stack x.buff x.out

end Sweep

/-- `rm` for all prefixes: what is left, and the prefixes the function was called with. -/
def rmAll (pipe : P) (callOnUniq : Bool) (fuel : ℕ) (t : Mtrie P) :
    Option (Mtrie P × List (List UInt8)) :=
  Loop.run (Sweep.turn pipe callOnUniq) fuel
    { stack := [Iter.start t 0], buff := [], out := [] }

def attached (t : Mtrie P) : List P :=
  (t.pipes.getD ∅).sort (· ≤ ·)

/-- `match`: the pipes the function is called with, in order. -/
def matchData (t : Mtrie P) : List UInt8 → List P
  | [] => t.attached
  | c :: cs =>
    t.attached ++
      if t.table.count = 0 || t.table.outOfRange c.toNat then []
      else
        match t.table.slot c.toNat with
        | some child => child.matchData cs
        | none => []

/-- The whole trie, with `_num_prefixes`, a counter of 32 bits. -/
structure Root (P : Type) where
  node : Mtrie P
  numPrefixes : ℕ

namespace Root

def empty : Root P :=
  { node := Mtrie.empty, numPrefixes := 0 }

def add (pipe : P) (r : Root P) (p : List UInt8) : Root P × Bool :=
  let (node, result) := r.node.add pipe p
  ({ node := node
     numPrefixes := if result then (r.numPrefixes + 1) % 2 ^ 32 else r.numPrefixes }, result)

def rm (pipe : P) (r : Root P) (p : List UInt8) : Option (Root P × RmResult) := do
  let (node, ret) ← r.node.rm pipe p
  if ret = .lastValueRemoved then
    if 0 < r.numPrefixes then
      return ({ node := node, numPrefixes := r.numPrefixes - 1 }, ret)
    else none
  else return ({ r with node := node }, ret)

def rmAll (pipe : P) (callOnUniq : Bool) (fuel : ℕ) (r : Root P) :
    Option (Root P × List (List UInt8)) := do
  let (node, out) ← r.node.rmAll pipe callOnUniq fuel
  return ({ r with node := node }, out)

def matchData (r : Root P) (data : List UInt8) : List P :=
  r.node.matchData data

end Root

end Mtrie

end Zlink.Subscription
