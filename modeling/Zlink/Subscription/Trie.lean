import Mathlib

/-!
# The subscription trie

`trie_t` counts, for every prefix, how often it was added. A node has a table of
children that covers the bytes from `_min` on; `_count` is the length of the table. A
table of one slot is kept as a bare pointer in the source, an empty one not at all: both
are lists of that length here. The loops that walk down from the root are recursions on
the prefix, and `none` is a failed assertion or a null pointer that is followed.
-/

namespace Zlink.Subscription

/-- `trie_t`: `_refcnt` is a `uint32_t`, `_min` an `unsigned char`, and `next` is the
table of `_count` slots. -/
structure Trie where
  refcnt : ℕ
  min : ℕ
  liveNodes : ℕ
  next : List (Option Trie)

namespace Trie

def empty : Trie :=
  { refcnt := 0, min := 0, liveNodes := 0, next := [] }

abbrev count (t : Trie) : ℕ :=
  t.next.length

variable (t : Trie)

def outOfRange (c : ℕ) : Bool :=
  decide (c < t.min) || decide (t.min + t.count ≤ c)

def index (c : ℕ) : ℕ :=
  if t.count = 1 then 0 else c - t.min

def slot (c : ℕ) : Option Trie :=
  t.next[t.index c]?.join

def setSlot (c : ℕ) (child : Option Trie) : Trie :=
  { t with next := t.next.set (t.index c) child }

def isRedundant : Bool :=
  decide (t.refcnt = 0) && decide (t.liveNodes = 0)

def extend (c : ℕ) : Trie :=
  if t.outOfRange c then
    if t.count = 0 then { t with min := c, next := [none] }
    else if t.count = 1 then
      let oldp := t.next[0]?.join
      let count := (if t.min < c then c - t.min else t.min - c) + 1
      let min := Nat.min t.min c
      { t with
        min := min
        next := (List.replicate count none).set (t.min - min) oldp }
    else if t.min < c then
      let count := c - t.min + 1
      { t with next := t.next ++ List.replicate (count - t.count) none }
    else
      { t with
        min := c
        next := List.replicate (t.min - c) none ++ t.next }
  else t

/-- A new node was put in the table. -/
def countLive : Option Trie :=
  let t := { t with liveNodes := t.liveNodes + 1 }
  if t.count = 1 then
    if t.liveNodes = 1 then some t else none
  else if 1 < t.liveNodes then some t
  else none

def add (t : Trie) : List UInt8 → Option (Trie × Bool)
  | [] =>
    let t := { t with refcnt := (t.refcnt + 1) % 2 ^ 32 }
    some (t, t.refcnt == 1)
  | c :: cs => do
      let t := t.extend c.toNat
      match t.slot c.toNat with
      | some child =>
        let (child, added) ← child.add cs
        return (t.setSlot c.toNat child, added)
      | none =>
        let t ← t.countLive
        let (child, added) ← empty.add cs
        return (t.setSlot c.toNat child, added)

/-- The way down, which keeps the depth of the last node that stays if what is below
it goes. -/
def descend (t : Trie) : List UInt8 → ℕ → ℕ → Option (Trie × ℕ)
  | [], _, parent => some (t, parent)
  | c :: cs, depth, parent =>
    if t.count = 0 || t.outOfRange c.toNat then none
    else
      match t.slot c.toNat with
      | none => none
      | some child =>
        let parent :=
          if depth = 0 ∨ t.refcnt ≠ 0 ∨ 1 < t.liveNodes then depth else parent
        child.descend cs (depth + 1) parent

/-- Change the node behind a path. -/
def updateAt (f : Trie → Option Trie) (t : Trie) : List UInt8 → Option Trie
  | [] => f t
  | c :: cs => do
      let child ← t.slot c.toNat
      let child ← child.updateAt f cs
      return t.setSlot c.toNat child

def compactLeft : Option Trie := do
  let skipped ← (t.next.drop 1).findIdx? Option.isSome
  let newMin := (skipped + 1 + t.min) % 256
  if t.min < newMin ∧ newMin - t.min < t.count then
    return { t with min := newMin, next := t.next.drop (newMin - t.min) }
  else none

def compactRight : Option Trie := do
  let skipped ← (t.next.reverse.drop 1).findIdx? Option.isSome
  return { t with next := t.next.take (t.count - (skipped + 1)) }

def compactSingle (c : ℕ) : Option Trie :=
  if c = t.min then do
    let remaining ← t.next[t.count - 1]?.join
    return { t with min := (t.min + (t.count - 1)) % 256, next := [some remaining] }
  else if c = t.min + t.count - 1 then do
    let remaining ← t.next[0]?.join
    return { t with next := [some remaining] }
  else none

def prune (c : ℕ) (t : Trie) : Option Trie :=
  if t.count = 0 then none
  else if t.count = 1 then
    if t.liveNodes = 1 then some { t with liveNodes := 0, next := [] } else none
  else
    let t := t.setSlot c none
    if 1 < t.liveNodes then
      let t := { t with liveNodes := t.liveNodes - 1 }
      if t.liveNodes = 1 then t.compactSingle c
      else if c = t.min then t.compactLeft
      else if c = t.min + t.count - 1 then t.compactRight
      else some t
    else none

def decref : Trie :=
  { t with refcnt := t.refcnt - 1 }

def rm (pre : List UInt8) : Option (Trie × Bool) :=
  match t.descend pre 0 0 with
  | none => some (t, false)
  | some (node, parent) =>
    if node.refcnt = 0 then some (t, false)
    else do
      let t ← t.updateAt (fun node => some node.decref) pre
      let node := node.decref
      match pre[parent]? with
      | some c =>
        if node.isRedundant then
          let t ← t.updateAt (prune c.toNat) (pre.take parent)
          return (t, node.refcnt == 0)
        else return (t, node.refcnt == 0)
      | none => return (t, node.refcnt == 0)

def check (t : Trie) : List UInt8 → Option Bool
  | [] => some (t.refcnt != 0)
  | c :: cs =>
    if t.refcnt ≠ 0 then some true
    else if t.outOfRange c.toNat then some false
    else
      match t.slot c.toNat with
      | some child => child.check cs
      | none => if t.count = 1 then none else some false

/-- Where a walk goes on: a node, the slot to look at, and the length of the prefix. -/
structure Cursor where
  node : Trie
  child : ℕ
  depth : ℕ

/-- The state of the loop of `apply`; `out` are the prefixes handed to the function so
far. -/
structure Walk where
  node : Trie
  child : ℕ
  path : List UInt8
  parents : List Cursor
  out : List (List UInt8)

/-- The first slot from `child` on that is not empty. -/
def firstChild (child : ℕ) : ℕ :=
  if 1 < t.count then child + (t.next.drop child).findIdx Option.isSome else child

namespace Walk

def visit (w : Walk) : Walk :=
  if w.child = 0 ∧ w.node.refcnt ≠ 0 then { w with out := w.out ++ [w.path] } else w

/-- Back to the last cursor: `inr` when there is nothing left to visit. -/
def pop (parents : List Cursor) (path : List UInt8) (out : List (List UInt8)) :
    Walk ⊕ List (List UInt8) :=
  match parents with
  | [] => .inr out
  | parent :: parents =>
    .inl { node := parent.node, child := parent.child, path := path.take parent.depth,
           parents := parents, out := out }

def advance (w : Walk) : Option (Walk ⊕ List (List UInt8)) :=
  let child := w.node.firstChild w.child
  if child < w.node.count then do
    let parents :=
      if 1 < w.node.count ∧ child + 1 < w.node.count then
        { node := w.node, child := child + 1, depth := w.path.length } :: w.parents
      else w.parents
    let node ← w.node.next[child]?.join
    return .inl
      { node := node, child := 0, path := w.path ++ [UInt8.ofNat (w.node.min + child)],
        parents := parents, out := w.out }
  else some (pop w.parents w.path w.out)

def turn (w : Walk) : Option (Walk ⊕ List (List UInt8)) :=
  w.visit.advance

def loop : ℕ → Walk → Option (List (List UInt8))
  | 0, _ => none
  | fuel + 1, w =>
    match w.turn with
    | none => none
    | some (.inr out) => some out
    | some (.inl w) => loop fuel w

end Walk

/-- The prefixes `apply` hands to its function, in order. -/
def apply (fuel : ℕ) : Option (List (List UInt8)) :=
  Walk.loop fuel { node := t, child := 0, path := [], parents := [], out := [] }

end Trie

end Zlink.Subscription
