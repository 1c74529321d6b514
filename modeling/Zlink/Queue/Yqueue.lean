import Mathlib.Data.PNat.Basic
import Mathlib.Data.Set.Function
import Mathlib.Logic.Function.Basic

/-!
# The queue in chunks

`yqueue_t` keeps its elements in a doubly linked list of chunks of `N` elements. The
reader takes from the first chunk, the writer fills the last; a chunk that is used up
becomes the spare chunk, and the spare chunk before it is freed. Memory is a partial map
from addresses to chunks. An operation that reads or frees a chunk that is not there has
no result.

The elements are counted through: `Layout` says that element `i` lies in chunk `i / N` of
all the chunks there ever were, at position `i % N`, and which address each chunk in use
has. An address may come back for a later chunk.
-/

namespace Zlink.Queue

structure Chunk (α : Type) where
  values : ℕ → Option α
  prev : Option ℕ
  next : Option ℕ

/-- What a pointer to an element points to: the chunk's address and the position. -/
abbrev Cell : Type := ℕ × ℕ

structure Yqueue (α : Type) where
  heap : ℕ → Option (Chunk α)
  beginChunk : ℕ
  beginPos : ℕ
  backChunk : Option ℕ
  backPos : ℕ
  endChunk : ℕ
  endPos : ℕ
  spareChunk : Option ℕ

namespace Yqueue

variable {α : Type}

def blank : Chunk α :=
  { values := fun _ => none, prev := none, next := none }

/-- The constructor, with its first chunk at address `a`. -/
def create (a : ℕ) : Yqueue α :=
  { heap := Function.update (fun _ => none) a (some blank)
    beginChunk := a, beginPos := 0, backChunk := none, backPos := 0
    endChunk := a, endPos := 0, spareChunk := none }

variable (q : Yqueue α)

def front : Cell :=
  (q.beginChunk, q.beginPos)

def back : Option Cell :=
  q.backChunk.map fun a => (a, q.backPos)

def load (p : Cell) : Option α :=
  (q.heap p.1).bind fun c => c.values p.2

/-- Memory with one address changed. -/
def put (a : ℕ) (c : Option (Chunk α)) : Yqueue α :=
  { q with heap := Function.update q.heap a c }

@[simp] theorem put_heap (a : ℕ) (c : Option (Chunk α)) :
    (q.put a c).heap = Function.update q.heap a c := rfl

def modify (a : ℕ) (g : Chunk α → Chunk α) : Option (Yqueue α) :=
  (q.heap a).map fun c => q.put a (some (g c))

def store (p : Cell) (v : α) : Option (Yqueue α) :=
  q.modify p.1 fun c => { c with values := Function.update c.values p.2 (some v) }

/-- `allocate_chunk`; `a` is the address the allocator answers with, which is not in
use. -/
def allocateChunk (q : Yqueue α) (a : ℕ) : Option (Yqueue α) :=
  if (q.heap a).isSome then none
  else some (q.put a (some blank))

def free : Option ℕ → Option (Yqueue α)
  | none => some q
  | some a =>
    if (q.heap a).isSome then some (q.put a none) else none

/-- The chunk `push` links behind the last: the spare one, or a new one. -/
def obtainChunk (a : ℕ) : Option (Yqueue α × ℕ) :=
  match q.spareChunk with
  | some s => some ({ q with spareChunk := none }, s)
  | none => (q.allocateChunk a).map fun q => (q, a)

def appendChunk (a : ℕ) : Option (Yqueue α) := do
  let (q, sc) ← q.obtainChunk a
  let q ← q.modify q.endChunk fun c => { c with next := some sc }
  let q ← q.modify sc fun c => { c with prev := some q.endChunk }
  return { q with endChunk := sc, endPos := 0 }

variable (N : ℕ+)

def push (q : Yqueue α) (a : ℕ) : Option (Yqueue α) :=
  let q := { q with
    backChunk := some q.endChunk, backPos := q.endPos, endPos := q.endPos + 1 }
  if q.endPos ≠ (N : ℕ) then some q else q.appendChunk a

/-- The first half of `unpush`: back moves one position. -/
def unpushBack (q : Yqueue α) : Option (Yqueue α) :=
  if q.backPos ≠ 0 then some { q with backPos := q.backPos - 1 }
  else do
    let c ← q.backChunk.bind q.heap
    return { q with backPos := N - 1, backChunk := c.prev }

def unpushEnd (q : Yqueue α) : Option (Yqueue α) :=
  if q.endPos ≠ 0 then some { q with endPos := q.endPos - 1 }
  else do
    let c ← q.heap q.endChunk
    let e ← c.prev
    let c ← q.heap e
    let q ← { q with endPos := N - 1, endChunk := e }.free c.next
    q.modify e fun c => { c with next := none }

def unpush (q : Yqueue α) : Option (Yqueue α) := do
  let q ← q.unpushBack N
  q.unpushEnd N

def pop (q : Yqueue α) : Option (Yqueue α) :=
  if q.beginPos + 1 ≠ (N : ℕ) then some { q with beginPos := q.beginPos + 1 }
  else do
    let o := q.beginChunk
    let c ← q.heap o
    let b ← c.next
    let q ← q.modify b fun c => { c with prev := none }
    let cs := q.spareChunk
    { q with beginChunk := b, beginPos := 0, spareChunk := some o }.free cs

end Yqueue

/-- The cell of element `i`, with the addresses of the chunks given. -/
def cell (N : ℕ+) (addr : ℕ → ℕ) (i : ℕ) : Cell :=
  (addr (i / N), i % N)

section Position

variable {N : ℕ+} {addr : ℕ → ℕ} {i : ℕ}

theorem succ_div_mod_same (h : i % N + 1 ≠ N) : (i + 1) / N = i / N ∧ (i + 1) % N = i % N + 1 := by
  have hlt : i % N + 1 < N := lt_of_le_of_ne (Nat.mod_lt i N.pos) h
  rw [Nat.div_mod_unique N.pos]
  exact ⟨by rw [Nat.add_right_comm, Nat.mod_add_div], hlt⟩

theorem succ_div_mod_wrap (h : i % N + 1 = N) : (i + 1) / N = i / N + 1 ∧ (i + 1) % N = 0 := by
  rw [Nat.div_mod_unique N.pos]
  have hsplit := Nat.mod_add_div i N
  have hmul : (N : ℕ) * (i / N + 1) = N * (i / N) + N := Nat.mul_succ _ _
  exact ⟨by omega, N.pos⟩

theorem cell_inj {lo hi j : ℕ}
    (hinj : Set.InjOn addr (Set.Icc (lo / N) (hi / N))) (hi' : lo ≤ i ∧ i ≤ hi)
    (hj : lo ≤ j ∧ j ≤ hi) (h : cell N addr i = cell N addr j) : i = j := by
  have hchunk : i / N = j / N :=
    hinj ⟨Nat.div_le_div_right hi'.1, Nat.div_le_div_right hi'.2⟩
      ⟨Nat.div_le_div_right hj.1, Nat.div_le_div_right hj.2⟩ (congrArg Prod.fst h)
  have hpos : i % N = j % N := congrArg Prod.snd h
  rw [← Nat.mod_add_div i N, ← Nat.mod_add_div j N, hchunk, hpos]

end Position

namespace Heap

variable {α : Type} {heap : ℕ → Option (Chunk α)} {a b : ℕ} {c : Option (Chunk α)}

def nextOf (heap : ℕ → Option (Chunk α)) (a : ℕ) : Option ℕ :=
  (heap a).bind Chunk.next

def prevOf (heap : ℕ → Option (Chunk α)) (a : ℕ) : Option ℕ :=
  (heap a).bind Chunk.prev

def valueOf (heap : ℕ → Option (Chunk α)) (a i : ℕ) : Option α :=
  (heap a).bind fun c => c.values i

theorem nextOf_update : nextOf (Function.update heap a c) b =
    if b = a then c.bind Chunk.next else nextOf heap b := by
  rw [nextOf, Function.update_apply]
  split <;> rfl

theorem prevOf_update : prevOf (Function.update heap a c) b =
    if b = a then c.bind Chunk.prev else prevOf heap b := by
  rw [prevOf, Function.update_apply]
  split <;> rfl

theorem valueOf_update {i : ℕ} : valueOf (Function.update heap a c) b i =
    if b = a then c.bind fun c => c.values i else valueOf heap b i := by
  rw [valueOf, Function.update_apply]
  split <;> rfl

/-- The chunks numbered from `j` to `k` are in use, linked both ways, and apart from each
other and from the spare one. -/
structure Linked (heap : ℕ → Option (Chunk α)) (spare : Option ℕ) (addr : ℕ → ℕ)
    (j k : ℕ) : Prop where
  inj : Set.InjOn addr (Set.Icc j k)
  live : ∀ i ∈ Set.Icc j k, heap (addr i) ≠ none
  next : ∀ i, j ≤ i → i < k → nextOf heap (addr i) = some (addr (i + 1))
  prev : ∀ i, j ≤ i → i < k → prevOf heap (addr (i + 1)) = some (addr i)
  spare : ∀ s, spare = some s → heap s ≠ none ∧ ∀ i ∈ Set.Icc j k, addr i ≠ s

variable {spare : Option ℕ} {addr : ℕ → ℕ} {j k : ℕ}

theorem Linked.chunk (h : Linked heap spare addr j k) {i : ℕ} (hj : j ≤ i) (hk : i ≤ k) :
    ∃ c, heap (addr i) = some c :=
  Option.ne_none_iff_exists'.mp (h.live i ⟨hj, hk⟩)

theorem Linked.ne (h : Linked heap spare addr j k) {i i' : ℕ} (hi : i ∈ Set.Icc j k)
    (hi' : i' ∈ Set.Icc j k) (hne : i ≠ i') : addr i ≠ addr i' :=
  fun hsame => hne (h.inj hi hi' hsame)

theorem Linked.update {c c' : Chunk α} (h : Linked heap spare addr j k)
    (hc : heap a = some c) (hnext : c'.next = c.next) (hprev : c'.prev = c.prev) :
    Linked (Function.update heap a (some c')) spare addr j k := by
  have hlive (b : ℕ) : Function.update heap a (some c') b ≠ none ↔ heap b ≠ none := by
    by_cases hb : b = a
    · simp [hb, hc]
    · simp [hb]
  have hlinks (b : ℕ) : nextOf (Function.update heap a (some c')) b = nextOf heap b ∧
      prevOf (Function.update heap a (some c')) b = prevOf heap b := by
    rw [nextOf_update, prevOf_update]
    by_cases hb : b = a
    · simp [hb, nextOf, prevOf, hc, hnext, hprev]
    · simp [hb]
  constructor
  · exact h.inj
  · exact fun i hi => (hlive _).mpr (h.live i hi)
  · exact fun i hj hk => (hlinks _).1.trans (h.next i hj hk)
  · exact fun i hj hk => (hlinks _).2.trans (h.prev i hj hk)
  · exact fun s hs => ⟨(hlive s).mpr (h.spare s hs).1, (h.spare s hs).2⟩

theorem Linked.update_apart (h : Linked heap spare addr j k)
    (ha : ∀ i ∈ Set.Icc j k, addr i ≠ a) (hspare : spare ≠ some a) :
    Linked (Function.update heap a c) spare addr j k := by
  constructor
  · exact h.inj
  · intro i hi
    rw [Function.update_of_ne (ha i hi)]
    exact h.live i hi
  · intro i hj hk
    rw [nextOf_update, if_neg (ha i ⟨hj, hk.le⟩)]
    exact h.next i hj hk
  · intro i hj hk
    rw [prevOf_update, if_neg (ha (i + 1) ⟨by omega, hk⟩)]
    exact h.prev i hj hk
  · intro s hs
    have hne : s ≠ a := by
      rintro rfl
      exact hspare hs
    rw [Function.update_of_ne hne]
    exact h.spare s hs

theorem Linked.forget (h : Linked heap spare addr j k) : Linked heap none addr j k :=
  { h with spare := fun _ hs => by cases hs }

theorem Linked.link {s : ℕ} {ce : Chunk α} (h : Linked heap none addr j k)
    (hjk : j ≤ k) (hs : ∀ i ∈ Set.Icc j k, addr i ≠ s) (hce : heap (addr k) = some ce)
    (cs : Chunk α) : Linked (Function.update
        (Function.update heap (addr k) (some { ce with next := some s }))
        s (some { cs with prev := some (addr k) }))
      none (Function.update addr (k + 1) s) j (k + 1) := by
  have hold {i : ℕ} (hi : i ≤ k) : Function.update addr (k + 1) s i = addr i :=
    Function.update_of_ne (by omega) _ _
  have hnew : Function.update addr (k + 1) s (k + 1) = s := Function.update_self _ _ _
  constructor
  · intro i hi i' hi' hsame
    obtain hik | rfl := Nat.le_or_eq_of_le_succ hi.2
    · obtain hik' | rfl := Nat.le_or_eq_of_le_succ hi'.2
      · rw [hold hik, hold hik'] at hsame
        exact h.inj ⟨hi.1, hik⟩ ⟨hi'.1, hik'⟩ hsame
      · rw [hold hik, hnew] at hsame
        exact absurd hsame (hs i ⟨hi.1, hik⟩)
    · obtain hik' | rfl := Nat.le_or_eq_of_le_succ hi'.2
      · rw [hnew, hold hik'] at hsame
        exact absurd hsame.symm (hs i' ⟨hi'.1, hik'⟩)
      · rfl
  · intro i hi
    obtain hik | rfl := Nat.le_or_eq_of_le_succ hi.2
    · rw [hold hik, Function.update_of_ne (hs i ⟨hi.1, hik⟩)]
      by_cases hlast : addr i = addr k
      · rw [hlast, Function.update_self]
        exact Option.some_ne_none _
      · rw [Function.update_of_ne hlast]
        exact h.live i ⟨hi.1, hik⟩
    · rw [hnew, Function.update_self]
      exact Option.some_ne_none _
  · intro i hj hk
    have hik : i ≤ k := Nat.le_of_lt_succ hk
    rw [hold hik, nextOf_update, if_neg (hs i ⟨hj, hik⟩), nextOf_update]
    obtain hlt | rfl := Nat.lt_or_eq_of_le hik
    · rw [if_neg (h.ne ⟨hj, hik⟩ ⟨hjk, le_rfl⟩ hlt.ne), hold hlt]
      exact h.next i hj hlt
    · rw [if_pos rfl, hnew]
      rfl
  · intro i hj hk
    obtain hlt | rfl := Nat.lt_or_eq_of_le (Nat.le_of_lt_succ hk)
    · rw [hold hlt, hold hlt.le, prevOf_update, if_neg (hs _ ⟨by omega, hlt⟩), prevOf_update]
      by_cases hlast : addr (i + 1) = addr k
      · rw [if_pos hlast, ← h.prev i hj hlt, hlast, prevOf, hce]
        rfl
      · rw [if_neg hlast]
        exact h.prev i hj hlt
    · rw [hnew, hold le_rfl, prevOf_update, if_pos rfl]
      rfl
  · intro s' hs'
    cases hs'

theorem Linked.unlink {ce : Chunk α} (h : Linked heap spare addr j (k + 1)) (hjk : j ≤ k)
    (hce : heap (addr k) = some ce) :
    Linked (Function.update (Function.update heap (addr (k + 1)) none)
      (addr k) (some { ce with next := none })) spare addr j k := by
  have hwhole {i : ℕ} (hi : i ∈ Set.Icc j k) : i ∈ Set.Icc j (k + 1) :=
    ⟨hi.1, Nat.le_succ_of_le hi.2⟩
  have hfreed {i : ℕ} (hi : i ∈ Set.Icc j k) : addr i ≠ addr (k + 1) :=
    h.ne (hwhole hi) ⟨by omega, le_rfl⟩ (by have := hi.2; omega)
  have hshort : Linked heap spare addr j k := by
    constructor
    · exact h.inj.mono fun i hi => hwhole hi
    · exact fun i hi => h.live i (hwhole hi)
    · exact fun i hj hk => h.next i hj (by omega)
    · exact fun i hj hk => h.prev i hj (by omega)
    · exact fun s hs => ⟨(h.spare s hs).1, fun i hi => (h.spare s hs).2 i (hwhole hi)⟩
  have hgone : Linked (Function.update heap (addr (k + 1)) none) spare addr j k := by
    apply hshort.update_apart
    · exact fun i hi => hfreed hi
    · exact fun hs => (h.spare _ hs).2 (k + 1) ⟨by omega, le_rfl⟩ rfl
  constructor
  · exact hgone.inj
  · intro i hi
    by_cases hlast : addr i = addr k
    · rw [hlast, Function.update_self]
      exact Option.some_ne_none _
    · rw [Function.update_of_ne hlast]
      exact hgone.live i hi
  · intro i hj hk
    rw [nextOf_update, if_neg (hshort.ne ⟨hj, hk.le⟩ ⟨hjk, le_rfl⟩ hk.ne)]
    exact hgone.next i hj hk
  · intro i hj hk
    rw [prevOf_update]
    by_cases hlast : addr (i + 1) = addr k
    · rw [if_pos hlast, ← hshort.prev i hj hk, hlast, prevOf, hce]
      rfl
    · rw [if_neg hlast]
      exact hgone.prev i hj hk
  · intro s hs
    have hne : s ≠ addr k := fun hsame => (h.spare s hs).2 k (hwhole ⟨hjk, le_rfl⟩) hsame.symm
    rw [Function.update_of_ne hne]
    exact hgone.spare s hs

theorem Linked.retire {cb : Chunk α} (h : Linked heap spare addr j k) (hjk : j < k)
    (hcb : heap (addr (j + 1)) = some cb) :
    Linked (Function.update heap (addr (j + 1)) (some { cb with prev := none }))
      (some (addr j)) addr (j + 1) k := by
  have hwhole {i : ℕ} (hi : i ∈ Set.Icc (j + 1) k) : i ∈ Set.Icc j k :=
    ⟨Nat.le_of_succ_le hi.1, hi.2⟩
  have hfirst : j ∈ Set.Icc j k := ⟨le_rfl, hjk.le⟩
  constructor
  · exact h.inj.mono fun i hi => hwhole hi
  · intro i hi
    by_cases hnext : addr i = addr (j + 1)
    · rw [hnext, Function.update_self]
      exact Option.some_ne_none _
    · rw [Function.update_of_ne hnext]
      exact h.live i (hwhole hi)
  · intro i hj hk
    rw [nextOf_update]
    by_cases hnext : addr i = addr (j + 1)
    · rw [if_pos hnext, ← h.next i (by omega) hk, hnext, nextOf, hcb]
      rfl
    · rw [if_neg hnext]
      exact h.next i (by omega) hk
  · intro i hj hk
    have hne : addr (i + 1) ≠ addr (j + 1) :=
      h.ne ⟨by omega, hk⟩ ⟨by omega, hjk⟩ (by omega)
    rw [prevOf_update, if_neg hne]
    exact h.prev i (by omega) hk
  · intro s hs
    obtain rfl := Option.some.inj hs
    constructor
    · rw [Function.update_of_ne (h.ne hfirst ⟨by omega, hjk⟩ (by omega))]
      exact h.live j hfirst
    · intro i hi
      exact h.ne (hwhole hi) hfirst (by have := hi.1; omega)

theorem valueOf_update_links {c c' : Chunk α} (hc : heap a = some c)
    (hvalues : c'.values = c.values) (b i : ℕ) :
    valueOf (Function.update heap a (some c')) b i = valueOf heap b i := by
  rw [valueOf_update]
  split
  · rename_i hb
    rw [hb, valueOf, hc, Option.bind_some, Option.bind_some, hvalues]
  · rfl

end Heap

namespace Yqueue

variable {α : Type} {N : ℕ+} {q : Yqueue α} {addr : ℕ → ℕ} {lo hi : ℕ} {items : List α}

/-- The elements from `lo` on lie where they belong; `hi` is the end, one behind back.
`items` are the values written so far, of which those from `lo` on can be read. -/
structure Layout (N : ℕ+) (q : Yqueue α) (addr : ℕ → ℕ) (lo hi : ℕ) (items : List α) : Prop where
  le : lo ≤ hi
  front : q.front = cell N addr lo
  back : ∀ b, hi = b + 1 → q.back = some (cell N addr b)
  ends : (q.endChunk, q.endPos) = cell N addr hi
  linked : Heap.Linked q.heap q.spareChunk addr (lo / N) (hi / N)
  size : items.length ≤ hi
  values : ∀ i v, lo ≤ i → items[i]? = some v → Heap.valueOf q.heap (addr (i / N)) (i % N) = some v

theorem create_layout (a : ℕ) : (create a : Yqueue α).Layout N (fun _ => a) 0 0 [] where
  le := le_rfl
  front := by simp [front, create, cell]
  back b hb := by omega
  ends := by simp [create, cell]
  linked := by
    constructor
    · intro j hj k hk _
      rw [Nat.zero_div] at hj hk
      rw [Nat.le_zero.mp hj.2, Nat.le_zero.mp hk.2]
    · intro i _
      simp [create]
    · intro i _ hlt
      simp at hlt
    · intro i _ hlt
      simp at hlt
    · intro s hs
      cases hs
  size := le_rfl
  values i v _ hv := by simp at hv

theorem Layout.load (h : q.Layout N addr lo hi items) {i : ℕ} {v : α} (hlo : lo ≤ i)
    (hv : items[i]? = some v) : q.load (cell N addr i) = some v :=
  h.values i v hlo hv

theorem modify_eq {a : ℕ} {g : Chunk α → Chunk α} {c : Chunk α} (hc : q.heap a = some c) :
    q.modify a g = some (q.put a (some (g c))) := by
  rw [modify, hc]
  rfl

theorem Layout.index_mem (h : q.Layout N addr lo hi items) {i : ℕ} {v : α} (hlo : lo ≤ i)
    (hv : items[i]? = some v) : i / N ∈ Set.Icc (lo / N) (hi / N) := by
  obtain ⟨hlt, -⟩ := List.getElem?_eq_some_iff.mp hv
  have hsize := h.size
  exact ⟨Nat.div_le_div_right hlo, Nat.div_le_div_right (by omega)⟩

theorem Layout.store (h : q.Layout N addr lo (hi + 1) items) (hsize : items.length = hi)
    (hlo : lo ≤ hi) (v : α) : ∃ q', q.store (cell N addr hi) v = some q' ∧
      q'.Layout N addr lo (hi + 1) (items ++ [v]) := by
  have hrange : lo / N ≤ hi / N ∧ hi / N ≤ (hi + 1) / N :=
    ⟨Nat.div_le_div_right hlo, Nat.div_le_div_right (Nat.le_succ hi)⟩
  obtain ⟨c, hc⟩ := h.linked.chunk hrange.1 hrange.2
  refine ⟨_, modify_eq hc, h.le, h.front, h.back, h.ends, ?_, ?_, ?_⟩
  · exact h.linked.update hc rfl rfl
  · simp [hsize]
  · intro i w hi' hw
    rw [put_heap, Heap.valueOf_update]
    by_cases hlast : i = hi
    · subst hlast
      rw [← hsize, List.getElem?_concat_length] at hw
      simp [cell, ← Option.some.inj hw]
    · have hold : items[i]? = some w := by
        rw [List.getElem?_append_left] at hw
        · exact hw
        · have hlt := (List.getElem?_eq_some_iff.mp hw).1
          simp only [List.length_append, List.length_singleton] at hlt
          omega
      rw [← h.values i w hi' hold]
      split
      · rename_i hchunk
        have hpos : i % N ≠ hi % N := by
          intro hpos
          apply hlast
          have hlt := (List.getElem?_eq_some_iff.mp hold).1
          exact cell_inj h.linked.inj ⟨hi', by omega⟩ ⟨hlo, Nat.le_succ hi⟩ (Prod.ext hchunk hpos)
        have hchunk' : addr (i / N) = addr (hi / N) := hchunk
        rw [hchunk', Heap.valueOf, hc, Option.bind_some, Option.bind_some]
        exact Function.update_of_ne hpos _ _
      · rfl

/-- The allocator answers with an address that is not in use, where it is asked. -/
def Fresh (N : ℕ+) (q : Yqueue α) (a : ℕ) : Prop :=
  q.endPos + 1 = (N : ℕ) → q.spareChunk = none → q.heap a = none

/-- What `push` gets to link is none of the chunks in use. -/
theorem obtainChunk_spec {a j k : ℕ} (h : Heap.Linked q.heap q.spareChunk addr j k)
    (ha : q.spareChunk = none → q.heap a = none) :
    ∃ heap s c, q.obtainChunk a = some ({ q with heap := heap, spareChunk := none }, s) ∧
      Heap.Linked heap none addr j k ∧ heap s = some c ∧ (∀ i ∈ Set.Icc j k, addr i ≠ s) ∧
      ∀ i ∈ Set.Icc j k, heap (addr i) = q.heap (addr i) := by
  cases hspare : q.spareChunk with
  | some s =>
    obtain ⟨hlive, hapart⟩ := h.spare s hspare
    obtain ⟨c, hc⟩ := Option.ne_none_iff_exists'.mp hlive
    exact ⟨q.heap, s, c, by rw [obtainChunk, hspare], h.forget, hc, hapart, fun i hi => rfl⟩
  | none =>
    have hnone := ha hspare
    have hapart (i : ℕ) (hi : i ∈ Set.Icc j k) : addr i ≠ a := by
      intro hsame
      exact h.live i hi (by rw [hsame, hnone])
    refine ⟨Function.update q.heap a (some blank), a, blank, ?_, ?_, ?_, hapart, ?_⟩
    · simp [obtainChunk, hspare, allocateChunk, hnone, put]
    · exact h.forget.update_apart hapart (by simp)
    · exact Function.update_self _ _ _
    · exact fun i hi => Function.update_of_ne (hapart i hi) _ _

theorem appendChunk_spec {a j k : ℕ} (h : Heap.Linked q.heap q.spareChunk addr j k)
    (hjk : j ≤ k) (hchunk : q.endChunk = addr k) (ha : q.spareChunk = none → q.heap a = none) :
    ∃ heap s, q.appendChunk a = some { q with
        heap := heap, spareChunk := none, endChunk := s, endPos := 0 } ∧
      Heap.Linked heap none (Function.update addr (k + 1) s) j (k + 1) ∧
      ∀ i ∈ Set.Icc j k, ∀ p, Heap.valueOf heap (addr i) p = Heap.valueOf q.heap (addr i) p := by
  obtain ⟨heap, s, cs, hobtain, hlinked, hcs, hapart, hsame⟩ := obtainChunk_spec h ha
  obtain ⟨ce, hce⟩ := hlinked.chunk hjk le_rfl
  have hcs' : Function.update heap (addr k) (some { ce with next := some s }) s =
      some cs := by
    rw [Function.update_of_ne (hapart k ⟨hjk, le_rfl⟩).symm, hcs]
  refine ⟨_, s, ?_, hlinked.link hjk hapart hce cs, ?_⟩
  · rw [appendChunk, hobtain]
    simp only [Option.bind_eq_bind, Option.bind_some, hchunk]
    rw [modify_eq hce, Option.bind_some, modify_eq hcs']
    rfl
  · intro i hi p
    refine (Heap.valueOf_update_links hcs' ?_ _ _).trans
      ((Heap.valueOf_update_links hce ?_ _ _).trans ?_)
    · rfl
    · rfl
    · rw [Heap.valueOf, hsame i hi]
      rfl

theorem Layout.push (h : q.Layout N addr lo hi items) {a : ℕ} (ha : q.Fresh N a) :
    ∃ q' addr', q.push N a = some q' ∧ (∀ i ≤ hi, cell N addr' i = cell N addr i) ∧
      q'.Layout N addr' lo (hi + 1) items := by
  have hchunk : q.endChunk = addr (hi / N) := congrArg Prod.fst h.ends
  have hpos : q.endPos = hi % N := congrArg Prod.snd h.ends
  have hrange : lo / N ≤ hi / N := Nat.div_le_div_right h.le
  by_cases hwrap : q.endPos + 1 = (N : ℕ)
  · have hlast := hwrap
    rw [hpos] at hlast
    obtain ⟨hdiv, hmod⟩ := succ_div_mod_wrap hlast
    obtain ⟨heap, s, happend, hlinked, hvalues⟩ :=
      appendChunk_spec (q := { q with
        backChunk := some q.endChunk, backPos := q.endPos, endPos := q.endPos + 1 })
        h.linked hrange hchunk (ha hwrap)
    have hold {i : ℕ} (hi' : i ≤ hi) : Function.update addr (hi / N + 1) s (i / N) = addr (i / N) :=
      Function.update_of_ne (by have := Nat.div_le_div_right (c := N) hi'; omega) _ _
    refine ⟨_, Function.update addr (hi / N + 1) s,
      (if_neg (not_not_intro hwrap)).trans happend, ?_, ?_⟩
    · intro i hi'
      rw [cell, cell, hold hi']
    · constructor
      · exact Nat.le_succ_of_le h.le
      · rw [cell, hold h.le]
        exact h.front
      · intro b hb
        obtain rfl := Nat.succ.inj hb
        rw [cell, hold le_rfl, Yqueue.back, ← hpos, ← hchunk]
        rfl
      · rw [cell, hdiv, hmod, Function.update_self]
      · rw [hdiv]
        exact hlinked
      · exact Nat.le_succ_of_le h.size
      · intro i v hi' hv
        have hlt := (List.getElem?_eq_some_iff.mp hv).1
        have hsize := h.size
        rw [hold (by omega), hvalues _ (h.index_mem hi' hv)]
        exact h.values i v hi' hv
  · have hroom := hwrap
    rw [hpos] at hroom
    obtain ⟨hdiv, hmod⟩ := succ_div_mod_same hroom
    refine ⟨_, addr, if_pos hwrap, fun i _ => rfl, ?_⟩
    constructor
    · exact Nat.le_succ_of_le h.le
    · exact h.front
    · intro b hb
      obtain rfl := Nat.succ.inj hb
      rw [cell, Yqueue.back, ← hpos, ← hchunk]
      rfl
    · simp [cell, hdiv, hmod, hchunk, hpos]
    · rw [hdiv]
      exact h.linked
    · exact Nat.le_succ_of_le h.size
    · exact h.values

theorem exists_of_nextOf {heap : ℕ → Option (Chunk α)} {a b : ℕ}
    (h : Heap.nextOf heap a = some b) : ∃ c, heap a = some c ∧ c.next = some b :=
  Option.bind_eq_some_iff.mp h

theorem exists_of_prevOf {heap : ℕ → Option (Chunk α)} {a b : ℕ}
    (h : Heap.prevOf heap a = some b) : ∃ c, heap a = some c ∧ c.prev = some b :=
  Option.bind_eq_some_iff.mp h

theorem unpushEnd_wrap {j k : ℕ} (h : Heap.Linked q.heap q.spareChunk addr j (k + 1))
    (hjk : j ≤ k) (hchunk : q.endChunk = addr (k + 1)) (hpos : q.endPos = 0) :
    ∃ heap, q.unpushEnd N = some { q with heap := heap, endChunk := addr k, endPos := N - 1 } ∧
      Heap.Linked heap q.spareChunk addr j k ∧
      ∀ i ∈ Set.Icc j k, ∀ p, Heap.valueOf heap (addr i) p = Heap.valueOf q.heap (addr i) p := by
  obtain ⟨cl, hcl, hprev⟩ := exists_of_prevOf (h.prev k hjk (Nat.lt_succ_self k))
  obtain ⟨ce, hce, hnext⟩ := exists_of_nextOf (h.next k hjk (Nat.lt_succ_self k))
  have hapart {i : ℕ} (hi : i ∈ Set.Icc j k) : addr i ≠ addr (k + 1) :=
    h.ne ⟨hi.1, Nat.le_succ_of_le hi.2⟩ ⟨by omega, le_rfl⟩ (by have := hi.2; omega)
  have hce' : Function.update q.heap (addr (k + 1)) none (addr k) = some ce := by
    rw [Function.update_of_ne (hapart ⟨hjk, le_rfl⟩), hce]
  refine ⟨_, ?_, h.unlink hjk hce, ?_⟩
  · rw [unpushEnd, if_neg (not_not_intro hpos), hchunk]
    simp only [Option.bind_eq_bind, hcl, hprev, hce, hnext, Option.bind_some, free,
      Option.isSome_some, if_true]
    exact modify_eq hce'
  · intro i hi p
    refine (Heap.valueOf_update_links hce' ?_ _ _).trans ?_
    · rfl
    · rw [Heap.valueOf_update, if_neg (hapart hi)]

theorem Layout.unpushBack {b : ℕ} (h : q.Layout N addr lo (b + 2) items) (hlo : lo ≤ b) :
    q.unpushBack N = some { q with backChunk := some (addr (b / N)), backPos := b % N } := by
  obtain ⟨a, ha, hback⟩ := Option.map_eq_some_iff.mp (h.back (b + 1) rfl)
  have hchunk : a = addr ((b + 1) / N) := congrArg Prod.fst hback
  have hpos : q.backPos = (b + 1) % N := congrArg Prod.snd hback
  by_cases hwrap : b % N + 1 = (N : ℕ)
  · obtain ⟨hdiv, hmod⟩ := succ_div_mod_wrap hwrap
    have hlt : b / N < (b + 2) / N := by
      have hle : (b + 1) / N ≤ (b + 2) / N := Nat.div_le_div_right (Nat.le_succ _)
      omega
    obtain ⟨c, hc, hprev⟩ :=
      exists_of_prevOf (h.linked.prev (b / N) (Nat.div_le_div_right hlo) hlt)
    rw [hdiv] at hchunk
    rw [hmod] at hpos
    have hlast : (N : ℕ) - 1 = b % N := by omega
    simp [Yqueue.unpushBack, hpos, ha, hchunk, hc, hprev, hlast]
  · obtain ⟨hdiv, hmod⟩ := succ_div_mod_same hwrap
    rw [hdiv] at hchunk
    rw [hmod] at hpos
    simp [Yqueue.unpushBack, hpos, ha, hchunk]

theorem Layout.unpush {b : ℕ} (h : q.Layout N addr lo (b + 2) items) (hlo : lo ≤ b)
    (hsize : items.length ≤ b + 1) :
    ∃ q', q.unpush N = some q' ∧ q'.Layout N addr lo (b + 1) items := by
  have hchunk : q.endChunk = addr ((b + 2) / N) := congrArg Prod.fst h.ends
  have hpos : q.endPos = (b + 2) % N := congrArg Prod.snd h.ends
  have hrange : lo / N ≤ (b + 1) / N := Nat.div_le_div_right (Nat.le_succ_of_le hlo)
  have hfront := h.front
  have hlinked := h.linked
  have hback : ({ q with
      backChunk := some (addr (b / N)), backPos := b % N } : Yqueue α).back =
      some (cell N addr b) := rfl
  by_cases hwrap : (b + 1) % N + 1 = (N : ℕ)
  · obtain ⟨hdiv, hmod⟩ := succ_div_mod_wrap hwrap
    rw [hdiv] at hchunk hlinked
    rw [hmod] at hpos
    obtain ⟨heap, hend, hshort, hvalues⟩ := unpushEnd_wrap (N := N) (q := { q with
      backChunk := some (addr (b / N)), backPos := b % N }) hlinked hrange hchunk hpos
    refine ⟨_, (congrArg (Option.bind · _) (h.unpushBack hlo)).trans hend, ?_⟩
    constructor
    · exact Nat.le_succ_of_le hlo
    · exact hfront
    · intro b' hb'
      obtain rfl := Nat.succ.inj hb'
      exact hback
    · have hlast : (N : ℕ) - 1 = (b + 1) % N := by omega
      rw [cell, hlast]
    · exact hshort
    · exact hsize
    · intro i v hi hv
      have hlt := (List.getElem?_eq_some_iff.mp hv).1
      rw [hvalues _ ⟨Nat.div_le_div_right hi, Nat.div_le_div_right (by omega)⟩]
      exact h.values i v hi hv
  · obtain ⟨hdiv, hmod⟩ := succ_div_mod_same hwrap
    rw [hdiv] at hchunk hlinked
    rw [hmod] at hpos
    have hne : q.endPos ≠ 0 := by omega
    refine ⟨_, (congrArg (Option.bind · _) (h.unpushBack hlo)).trans (if_pos hne), ?_⟩
    constructor
    · exact Nat.le_succ_of_le hlo
    · exact hfront
    · intro b' hb'
      obtain rfl := Nat.succ.inj hb'
      exact hback
    · rw [cell, ← hchunk, hpos, Nat.add_sub_cancel]
    · exact hlinked
    · exact hsize
    · exact h.values

theorem Layout.forget {n : ℕ} (h : q.Layout N addr lo hi items) :
    q.Layout N addr lo hi (items.take n) :=
  { h with
    size := (List.length_take_le' n items).trans h.size
    values := fun i v hi hv => by
      rw [List.getElem?_take] at hv
      split at hv
      · exact h.values i v hi hv
      · cases hv }

theorem pop_wrap {j k : ℕ} (h : Heap.Linked q.heap q.spareChunk addr j k) (hjk : j < k)
    (hchunk : q.beginChunk = addr j) (hpos : q.beginPos + 1 = (N : ℕ)) :
    ∃ heap, q.pop N = some { q with
        heap := heap, beginChunk := addr (j + 1), beginPos := 0,
        spareChunk := some (addr j) } ∧
      Heap.Linked heap (some (addr j)) addr (j + 1) k ∧
      ∀ i ∈ Set.Icc (j + 1) k, ∀ p,
        Heap.valueOf heap (addr i) p = Heap.valueOf q.heap (addr i) p := by
  obtain ⟨co, hco, hnext⟩ := exists_of_nextOf (h.next j le_rfl hjk)
  obtain ⟨cb, hcb⟩ := h.chunk (Nat.le_succ j) hjk
  have hretired := h.retire hjk hcb
  have hne : addr j ≠ addr (j + 1) := h.ne ⟨le_rfl, hjk.le⟩ ⟨by omega, hjk⟩ (by omega)
  have hkept (i p : ℕ) :
      Heap.valueOf (Function.update q.heap (addr (j + 1)) (some { cb with prev := none }))
        (addr i) p = Heap.valueOf q.heap (addr i) p := by
    refine Heap.valueOf_update_links hcb ?_ _ _
    rfl
  have hhead : q.pop N = Yqueue.free { (q.put (addr (j + 1)) (some { cb with prev := none }))
      with beginChunk := addr (j + 1), beginPos := 0, spareChunk := some (addr j) }
      q.spareChunk := by
    rw [Yqueue.pop, if_neg (not_not_intro hpos), hchunk]
    simp only [Option.bind_eq_bind, hco, hnext, Option.bind_some, modify_eq hcb]
    rfl
  cases hspare : q.spareChunk with
  | none =>
    rw [hspare] at hhead
    exact ⟨_, hhead, hretired, fun i _ p => hkept i p⟩
  | some s =>
    obtain ⟨hlive, hapart⟩ := h.spare s hspare
    have hlive' : (Function.update q.heap (addr (j + 1)) (some { cb with prev := none })
        s).isSome := by
      rw [Function.update_of_ne (hapart (j + 1) ⟨by omega, hjk⟩).symm]
      exact Option.isSome_iff_ne_none.mpr hlive
    have hother {i : ℕ} (hi : i ∈ Set.Icc (j + 1) k) : addr i ≠ s :=
      hapart i ⟨Nat.le_of_succ_le hi.1, hi.2⟩
    rw [hspare] at hhead
    refine ⟨_, hhead.trans (if_pos hlive'), ?_, ?_⟩
    · apply hretired.update_apart
      · exact fun i hi => hother hi
      · intro hsame
        exact hapart j ⟨le_rfl, hjk.le⟩ (Option.some.inj hsame)
    · intro i hi p
      refine Eq.trans ?_ (hkept i p)
      exact Heap.valueOf_update.trans (if_neg (hother hi))

theorem Layout.pop (h : q.Layout N addr lo hi items) (hlt : lo < hi) :
    ∃ q', q.pop N = some q' ∧ q'.Layout N addr (lo + 1) hi items := by
  have hchunk : q.beginChunk = addr (lo / N) := congrArg Prod.fst h.front
  have hpos : q.beginPos = lo % N := congrArg Prod.snd h.front
  by_cases hwrap : q.beginPos + 1 = (N : ℕ)
  · have hlast := hwrap
    rw [hpos] at hlast
    obtain ⟨hdiv, hmod⟩ := succ_div_mod_wrap hlast
    have hnext : lo / N < hi / N := by
      have hle : (lo + 1) / N ≤ hi / N := Nat.div_le_div_right hlt
      omega
    obtain ⟨heap, hpop, hlinked, hvalues⟩ := pop_wrap h.linked hnext hchunk hwrap
    refine ⟨_, hpop, ?_⟩
    constructor
    · exact hlt
    · rw [cell, hdiv, hmod]
      rfl
    · exact h.back
    · exact h.ends
    · rw [hdiv]
      exact hlinked
    · exact h.size
    · intro i v hi' hv
      have hmem := h.index_mem (Nat.le_of_succ_le hi') hv
      have hle : (lo + 1) / N ≤ i / N := Nat.div_le_div_right hi'
      rw [hvalues _ ⟨by omega, hmem.2⟩]
      exact h.values i v (Nat.le_of_succ_le hi') hv
  · have hroom := hwrap
    rw [hpos] at hroom
    obtain ⟨hdiv, hmod⟩ := succ_div_mod_same hroom
    refine ⟨_, if_pos hwrap, ?_⟩
    constructor
    · exact hlt
    · rw [cell, hdiv, hmod, Yqueue.front, hchunk, hpos]
    · exact h.back
    · exact h.ends
    · rw [hdiv]
      exact h.linked
    · exact h.size
    · exact fun i v hi' hv => h.values i v (Nat.le_of_succ_le hi') hv

theorem push_of_not_fresh {a : ℕ} (ha : ¬ q.Fresh N a) : q.push N a = none := by
  simp only [Fresh, not_forall] at ha
  obtain ⟨hwrap, hspare, hused⟩ := ha
  obtain ⟨c, hc⟩ := Option.ne_none_iff_exists'.mp hused
  simp [push, hwrap, appendChunk, obtainChunk, hspare, allocateChunk, hc]

end Yqueue

end Zlink.Queue
