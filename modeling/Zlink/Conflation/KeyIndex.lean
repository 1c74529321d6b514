import Zlink.Lib.Probing
import Zlink.Pipe.Writer
import Zlink.Subscription.Exchange

/-!
# The key index of a conflating queue

`dbuffer_t` keeps the latest unread record of each topic in a cell, and finds the cell of
a topic in a table with open addressing. The table is empty or has a power of two of
slots, at least eight, and at most half of them are full. The hash function is a
parameter. What is needed of the memory is that it is handed out once: an address the
allocator answers with is that of no cell, unless of the first spare, which `take_cell`
frees before it allocates.
-/

namespace Zlink

open Protocol

namespace Conflation

/-- `cell_t`, as the index knows it. -/
structure Cell where
  address : ℕ
  keyCapacity : ℕ
  hash : UInt64
  topic : Bool
  key : List UInt8
  deriving DecidableEq

structure KeyIndex where
  cells : List (Option Cell)
  cellCount : ℕ
  spareCells : List Cell

def spareCap : ℕ := 64

/-- Whether the record of a first frame has a topic, and its key; a control record has no
cell. -/
def keyOf (first : Pipe.Frame) : Option (Bool × List UInt8) :=
  match first with
  | .delimiter => none
  | .data msg =>
    if hasAny msg.flags (Msg.command ||| Msg.routingId ||| Msg.credential) then none
    else if Subscription.Part.isSubscribe msg || Subscription.Part.isCancel msg then none
    else if hasAny msg.flags Msg.more then some (true, msg.data)
    else some (false, [])

def advance (mask slot : ℕ) : ℕ :=
  (slot + 1) &&& mask

/-- The steps from a slot ahead to another, `(b - a) & mask`. -/
def ahead (mask a b : ℕ) : ℕ :=
  (b + (mask + 1) - a) &&& mask

def home (mask : ℕ) (cell : Cell) : ℕ :=
  cell.hash.toNat &&& mask

namespace KeyIndex

def create : KeyIndex :=
  { cells := [], cellCount := 0, spareCells := [] }

variable (s : KeyIndex)

def mask : ℕ :=
  s.cells.length - 1

def live (s : KeyIndex) : List Cell :=
  Probing.live s.cells

def rehash (capacity : ℕ) : Option KeyIndex :=
  let mask := capacity - 1
  (Probing.placeAll (advance mask) (home mask) s.cells (List.replicate capacity none)).map
    fun cells => { s with cells := cells }

def findSlot (hash : UInt64) (topic : Bool) (key : List UInt8) : Option (KeyIndex × ℕ) := do
  let s ← if s.cells.isEmpty then s.rehash 8 else some s
  let slot ← Probing.probe (advance s.mask) (fun slot => (Probing.read s.cells slot).all fun cell =>
      cell.hash == hash && cell.topic == topic && cell.key == key)
    s.cells.length (hash.toNat &&& s.mask)
  return (s, slot)

/-- `take_cell`; `address` is what the allocator answers with. -/
def takeCell (keySize address : ℕ) : KeyIndex × Cell :=
  let allocated : Cell :=
    { address := address, keyCapacity := keySize, hash := 0, topic := false, key := [] }
  match s.spareCells with
  | spare :: rest =>
    if keySize ≤ spare.keyCapacity then ({ s with spareCells := rest }, spare)
    else ({ s with spareCells := rest }, allocated)
  | [] => (s, allocated)

def spareCell (cell : Cell) : KeyIndex :=
  if s.spareCells.length = spareCap then s
  else { s with spareCells := cell :: s.spareCells }

def insertAt (slot : ℕ) (hash : UInt64) (topic : Bool) (key : List UInt8)
    (address : ℕ) : KeyIndex × Cell :=
  let (s, taken) := s.takeCell key.length address
  let cell := { taken with hash := hash, topic := topic, key := key }
  ({ s with cells := s.cells.set slot (some cell), cellCount := s.cellCount + 1 }, cell)

def findOrInsertCell (hash : Bool → List UInt8 → UInt64) (s : KeyIndex) (first : Pipe.Frame)
    (address : ℕ) : Option (KeyIndex × Option Cell) :=
  match keyOf first with
  | none => some (s, none)
  | some (topic, key) => do
      let (s, slot) ← s.findSlot (hash topic key) topic key
      match Probing.read s.cells slot with
      | some cell => return (s, some cell)
      | none =>
        let (s, slot) ←
          if s.cells.length < (s.cellCount + 1) * 2 then do
            let s ← s.rehash (if s.cells.isEmpty then 8 else s.cells.length * 2)
            s.findSlot (hash topic key) topic key
          else some (s, slot)
        let (s, cell) := s.insertAt slot (hash topic key) topic key address
        return (s, some cell)

def eraseCell (cell : Cell) : Option KeyIndex := do
  let mask := s.mask
  let hole ← Probing.probe (advance mask)
    (fun slot => (Probing.read s.cells slot).any fun c => c.address == cell.address)
    s.cells.length (home mask cell)
  let cells ← Probing.shift (advance mask)
    (fun c hole next => decide (ahead mask hole next ≤ ahead mask (home mask c) next))
    s.cells.length (s.cells.set hole none) hole (advance mask hole)
  let s := { s with cells := cells, cellCount := s.cellCount - 1 }.spareCell cell
  if 2 * spareCap < s.cells.length ∧ s.cellCount * 8 < s.cells.length then
    s.rehash (s.cells.length / 2)
  else return s

inductive Reachable (hash : Bool → List UInt8 → UInt64) : KeyIndex → Prop where
  | create : Reachable hash create
  | find {s t : KeyIndex} {topic : Bool} {key : List UInt8} {slot : ℕ} (h : Reachable hash s)
      (hstep : s.findSlot (hash topic key) topic key = some (t, slot)) : Reachable hash t
  | insert {s t : KeyIndex} {first : Pipe.Frame} {address : ℕ} {cell : Option Cell}
      (h : Reachable hash s)
      (hfresh : address ∉ (s.live ++ s.spareCells.tail).map Cell.address)
      (hstep : s.findOrInsertCell hash first address = some (t, cell)) : Reachable hash t
  | erase {s t : KeyIndex} {cell : Cell} (h : Reachable hash s) (hlive : cell ∈ s.live)
      (hstep : s.eraseCell cell = some t) : Reachable hash t

end KeyIndex

section Slots

variable {k : ℕ}

theorem advance_eq {i : ℕ} (hi : i < 2 ^ k) : advance (2 ^ k - 1) i = Probing.succ (2 ^ k) i := by
  rw [advance, Nat.and_two_pow_sub_one_eq_mod, Probing.succ]
  split
  case isTrue h => rw [h, Nat.mod_self]
  case isFalse h => exact Nat.mod_eq_of_lt (by omega)

theorem home_lt (cell : Cell) : home (2 ^ k - 1) cell < 2 ^ k := by
  rw [home, Nat.and_two_pow_sub_one_eq_mod]
  exact Nat.mod_lt _ (Nat.two_pow_pos k)

theorem ahead_eq {a b : ℕ} (ha : a < 2 ^ k) (hb : b < 2 ^ k) :
    ahead (2 ^ k - 1) a b = Probing.dist (2 ^ k) a b := by
  rw [ahead, Nat.and_two_pow_sub_one_eq_mod, Nat.sub_add_cancel (Nat.one_le_two_pow), Probing.dist]
  split
  case isTrue h =>
    rw [show b + 2 ^ k - a = b - a + 2 ^ k by omega, Nat.add_mod_right]
    exact Nat.mod_eq_of_lt (by omega)
  case isFalse h => exact Nat.mod_eq_of_lt (by omega)

end Slots

namespace KeyIndex

variable {hash : Bool → List UInt8 → UInt64} {s : KeyIndex}

/-- A table in good shape. -/
structure Placed (s : KeyIndex) : Prop where
  sized : ∃ k, 3 ≤ k ∧ s.cells.length = 2 ^ k
  reached : Probing.Reached (home s.mask) s.cells
  room : 2 * s.live.length ≤ s.cells.length

theorem Placed.length_pos (h : s.Placed) : 8 ≤ s.cells.length := by
  obtain ⟨k, hk, hlen⟩ := h.sized
  rw [hlen]
  exact Nat.pow_le_pow_right (n := 2) Nat.two_pos hk

theorem Placed.next (h : s.Placed) :
    ∀ i < s.cells.length, advance s.mask i = Probing.succ s.cells.length i := by
  obtain ⟨k, _, hlen⟩ := h.sized
  intro i hi
  rw [hlen] at hi
  rw [mask, hlen]
  exact advance_eq hi

theorem Placed.and_mask_lt (h : s.Placed) (n : ℕ) : n &&& s.mask < s.cells.length := by
  obtain ⟨k, _, hlen⟩ := h.sized
  rw [mask, hlen, Nat.and_two_pow_sub_one_eq_mod]
  exact Nat.mod_lt _ (Nat.two_pow_pos k)

theorem Placed.home_lt (h : s.Placed) (cell : Cell) : home s.mask cell < s.cells.length :=
  h.and_mask_lt cell.hash.toNat

theorem Placed.ahead (h : s.Placed) {a b : ℕ} (ha : a < s.cells.length) (hb : b < s.cells.length) :
    Conflation.ahead s.mask a b = Probing.dist s.cells.length a b := by
  obtain ⟨k, _, hlen⟩ := h.sized
  rw [hlen] at ha hb
  rw [mask, hlen]
  exact ahead_eq ha hb

theorem Placed.not_full (h : s.Placed) : s.live.length < s.cells.length := by
  have hpos := h.length_pos
  have hroom := h.room
  omega

theorem rehash_spec (s : KeyIndex) {k : ℕ} (hk : 3 ≤ k) (hroom : 2 * s.live.length ≤ 2 ^ k) :
    ∃ cells, s.rehash (2 ^ k) = some { s with cells := cells } ∧ cells.length = 2 ^ k ∧
      Placed { s with cells := cells } ∧ (Probing.live cells).Perm s.live := by
  have hlen : (List.replicate (2 ^ k) (none : Option Cell)).length = 2 ^ k :=
    List.length_replicate
  have hnew : Probing.live (List.replicate (2 ^ k) (none : Option Cell)) = [] :=
    Probing.live_replicate _
  have hpos : 0 < 2 ^ k := Nat.two_pow_pos k
  have hnext : ∀ i < (List.replicate (2 ^ k) (none : Option Cell)).length, advance (2 ^ k - 1) i =
        Probing.succ (List.replicate (2 ^ k) (none : Option Cell)).length i := by
    intro i hi
    rw [hlen] at hi ⊢
    exact advance_eq hi
  have hfits : (Probing.live (List.replicate (2 ^ k) (none : Option Cell))).length +
      (Probing.live s.cells).length < (List.replicate (2 ^ k) (none : Option Cell)).length := by
    rw [hnew, hlen, List.length_nil]
    rw [live] at hroom
    omega
  have hhome : ∀ cell ∈ Probing.live s.cells, home (2 ^ k - 1) cell <
      (List.replicate (2 ^ k) (none : Option Cell)).length := by
    intro cell _
    rw [hlen]
    exact Conflation.home_lt cell
  obtain ⟨cells, hall, hcells, hreach, hperm⟩ :=
    Probing.Reached.placeAll s.cells _ hnext (Probing.reached_replicate _ _) hfits hhome
  rw [hlen] at hcells
  rw [hnew, List.append_nil] at hperm
  refine ⟨cells, ?_, hcells, ?_, hperm⟩
  · rw [rehash, hall, Option.map_some]
  · refine { sized := ⟨k, hk, hcells⟩, reached := ?_, room := ?_ }
    · rw [mask, hcells]
      exact hreach
    · rw [live, hperm.length_eq, hcells]
      exact hroom

structure Located (s : KeyIndex) (topic : Bool) (key : List UInt8) (start slot : ℕ) : Prop where
  lt : slot < s.cells.length
  found : ∀ c, Probing.read s.cells slot = some c → c.topic = topic ∧ c.key = key
  missed : Probing.read s.cells slot = none → (∀ c ∈ s.live, ¬(c.topic = topic ∧ c.key = key)) ∧
      ∀ r < s.cells.length,
        Probing.dist s.cells.length start r < Probing.dist s.cells.length start slot →
          Probing.read s.cells r ≠ none

theorem Placed.findSlot (h : s.Placed) (hhashed : ∀ c ∈ s.live, c.hash = hash c.topic c.key)
    (topic : Bool) (key : List UInt8) :
    ∃ slot, s.findSlot (hash topic key) topic key = some (s, slot) ∧
      s.Located topic key ((hash topic key).toNat &&& s.mask) slot := by
  have hsel : ∀ c ∈ s.live, (c.hash == hash topic key && c.topic == topic && c.key == key) = true →
        home s.mask c = (hash topic key).toNat &&& s.mask := by
    intro c _ hc
    rw [Bool.and_eq_true, Bool.and_eq_true, beq_iff_eq] at hc
    rw [home, hc.1.1]
  obtain ⟨slot, hlt, hprobe, hend⟩ :=
    h.reached.probe h.next (Probing.exists_empty h.not_full)
      (h.and_mask_lt (hash topic key).toNat) hsel
  have hne : s.cells.isEmpty = false := by
    have hpos := h.length_pos
    rw [List.isEmpty_eq_false_iff]
    rintro hnil
    rw [hnil, List.length_nil] at hpos
    exact absurd hpos (by decide)
  refine ⟨slot, ?_, { lt := hlt, found := ?_, missed := ?_ }⟩
  · rw [KeyIndex.findSlot, hne]
    simp only [Bool.false_eq_true, if_false, Option.bind_eq_bind, Option.bind_some, hprobe]
    rfl
  · intro c hc
    rcases hend with ⟨x, hx, hmatch⟩ | ⟨hnone, -⟩
    · rw [hc, Option.some.injEq] at hx
      subst hx
      rw [Bool.and_eq_true, Bool.and_eq_true, beq_iff_eq, beq_iff_eq, beq_iff_eq] at hmatch
      exact ⟨hmatch.1.2, hmatch.2⟩
    · rw [hnone] at hc
      exact absurd hc (by simp)
  · intro hnone
    rcases hend with ⟨x, hx, -⟩ | ⟨-, hmiss, hpath⟩
    · rw [hnone] at hx
      exact absurd hx (by simp)
    refine ⟨?_, hpath⟩
    rintro c hc ⟨rfl, rfl⟩
    have := hmiss c hc
    simp [hhashed c hc] at this

structure Sound (hash : Bool → List UInt8 → UInt64) (s : KeyIndex) : Prop where
  placed : s.cells = [] ∨ s.Placed
  count : s.cellCount = s.live.length
  hashed : ∀ c ∈ s.live, c.hash = hash c.topic c.key
  names : (s.live.map fun c => (c.topic, c.key)).Nodup
  addresses : ((s.live ++ s.spareCells).map Cell.address).Nodup

theorem Sound.create (hash : Bool → List UInt8 → UInt64) : Sound hash create :=
  { placed := .inl rfl
    count := rfl
    hashed := List.forall_mem_nil _
    names := List.nodup_nil
    addresses := List.nodup_nil }

theorem Sound.rearranged (h : Sound hash s) {cells : List (Option Cell)}
    (hplaced : Placed { s with cells := cells })
    (hperm : (Probing.live cells).Perm s.live) : Sound hash { s with cells := cells } :=
  { placed := .inr hplaced
    count := h.count.trans hperm.length_eq.symm
    hashed := fun c hc => h.hashed c (hperm.mem_iff.mp hc)
    names := (hperm.map _).nodup_iff.mpr h.names
    addresses := ((hperm.append_right _).map _).nodup_iff.mpr h.addresses }

theorem Sound.unique (h : Sound hash s) {c d : Cell} (hc : c ∈ s.live) (hd : d ∈ s.live)
    (htopic : c.topic = d.topic) (hkey : c.key = d.key) : c = d := by
  refine List.inj_on_of_nodup_map h.names hc hd ?_
  rw [htopic, hkey]

theorem Sound.findSlot (h : Sound hash s) (topic : Bool) (key : List UInt8) :
    ∃ cells slot, s.findSlot (hash topic key) topic key = some ({ s with cells := cells }, slot) ∧
      Placed { s with cells := cells } ∧ (Probing.live cells).Perm s.live ∧
      Located { s with cells := cells } topic key
        ((hash topic key).toNat &&& mask { s with cells := cells }) slot := by
  rcases h.placed with hempty | hplaced
  · have hlive : s.live = [] := by
      rw [live, hempty]
      rfl
    obtain ⟨cells, hrehash, -, hplaced, hperm⟩ :=
      s.rehash_spec (k := 3) le_rfl (by rw [hlive]; exact Nat.zero_le _)
    have hs := h.rearranged hplaced hperm
    obtain ⟨slot, hfind, hlocated⟩ := hplaced.findSlot hs.hashed topic key
    refine ⟨cells, slot, ?_, hplaced, hperm, hlocated⟩
    have hne : cells.isEmpty = false := by
      have hpos := hplaced.length_pos
      rw [List.isEmpty_eq_false_iff]
      rintro rfl
      exact absurd hpos (by simp)
    rw [KeyIndex.findSlot] at hfind ⊢
    rw [hempty, List.isEmpty_nil, if_pos rfl, show (8 : ℕ) = 2 ^ 3 from rfl, hrehash]
    rw [hne] at hfind
    exact hfind
  · obtain ⟨slot, hfind, hlocated⟩ := hplaced.findSlot h.hashed topic key
    exact ⟨s.cells, slot, hfind, hplaced, List.Perm.refl _, hlocated⟩

theorem takeCell_spec (s : KeyIndex) (keySize address : ℕ)
    (hnodup : ((s.live ++ s.spareCells).map Cell.address).Nodup)
    (hfresh : address ∉ (s.live ++ s.spareCells.tail).map Cell.address) :
    ∃ spares cell, s.takeCell keySize address = ({ s with spareCells := spares }, cell) ∧
      (cell.address :: (s.live ++ spares).map Cell.address).Nodup := by
  rw [takeCell]
  cases hspare : s.spareCells with
  | nil =>
    rw [hspare] at hnodup hfresh
    refine ⟨[],
      { address := address, keyCapacity := keySize, hash := 0, topic := false, key := [] },
      ?_, List.nodup_cons.mpr ⟨hfresh, hnodup⟩⟩
    simp only [← hspare]
  | cons spare rest =>
    rw [hspare] at hnodup
    rw [hspare, List.tail_cons] at hfresh
    have hmid : ((s.live ++ spare :: rest).map Cell.address).Perm
        (spare.address :: (s.live ++ rest).map Cell.address) :=
      List.perm_middle.map _
    have hrest := hmid.nodup_iff.mp hnodup
    simp only
    split
    · exact ⟨rest, _, rfl, hrest⟩
    · exact ⟨rest, _, rfl, List.nodup_cons.mpr ⟨hfresh, (List.nodup_cons.mp hrest).2⟩⟩

theorem Sound.insertAt (h : Sound hash s) (hplaced : s.Placed)
    (hroom : 2 * (s.live.length + 1) ≤ s.cells.length) {topic : Bool} {key : List UInt8}
    {slot address : ℕ} (hlocated : s.Located topic key ((hash topic key).toNat &&& s.mask) slot)
    (hnone : Probing.read s.cells slot = none)
    (hfresh : address ∉ (s.live ++ s.spareCells.tail).map Cell.address) :
    ∃ t cell, s.insertAt slot (hash topic key) topic key address = (t, cell) ∧
      Sound hash t ∧ cell.topic = topic ∧ cell.key = key ∧ t.live.Perm (cell :: s.live) := by
  obtain ⟨spares, taken, htake, hnodup⟩ :=
    s.takeCell_spec key.length address h.addresses hfresh
  obtain ⟨hmiss, hpath⟩ := hlocated.missed hnone
  let cell : Cell := { taken with hash := hash topic key, topic := topic, key := key }
  let cells := s.cells.set slot (some cell)
  have hperm : (Probing.live cells).Perm (cell :: s.live) :=
    Probing.live_set hlocated.lt hnone cell
  have hlen : cells.length = s.cells.length := List.length_set
  refine ⟨{ cells := cells, cellCount := s.cellCount + 1, spareCells := spares }, cell, ?_,
    ?_, rfl, rfl, hperm⟩
  · rw [KeyIndex.insertAt, htake]
  refine
    { placed := .inr
        { sized := ?_
          reached := ?_
          room := ?_ }
      count := ?_
      hashed := ?_
      names := ?_
      addresses := ?_ }
  · rw [hlen]
    exact hplaced.sized
  · rw [mask, hlen]
    exact hplaced.reached.set hlocated.lt hpath
  · rw [live, hperm.length_eq, List.length_cons, hlen]
    exact hroom
  · rw [live, hperm.length_eq, List.length_cons, h.count]
  · intro c hc
    rcases List.mem_cons.mp (hperm.mem_iff.mp hc) with rfl | hold
    · rfl
    · exact h.hashed c hold
  · refine (hperm.map _).nodup_iff.mpr (List.nodup_cons.mpr ⟨?_, h.names⟩)
    intro hmem
    obtain ⟨c, hc, heq⟩ := List.mem_map.mp hmem
    rw [Prod.mk.injEq] at heq
    exact hmiss c hc heq
  · exact ((hperm.append_right spares).map _).nodup_iff.mpr hnodup

theorem Placed.ne_empty (h : s.Placed) : s.cells.isEmpty = false := by
  have hpos := h.length_pos
  rw [List.isEmpty_eq_false_iff]
  intro hnil
  rw [hnil] at hpos
  exact absurd hpos (by simp)

theorem Sound.findOrInsertCell (h : Sound hash s) {first : Pipe.Frame} {address : ℕ}
    {topic : Bool} {key : List UInt8} (hkey : keyOf first = some (topic, key))
    (hfresh : address ∉ (s.live ++ s.spareCells.tail).map Cell.address) :
    ∃ t cell, s.findOrInsertCell hash first address = some (t, some cell) ∧
      Sound hash t ∧ cell.topic = topic ∧ cell.key = key ∧ (cell ∈ s.live ∧ t.live.Perm s.live ∨
          (∀ c ∈ s.live, ¬(c.topic = topic ∧ c.key = key)) ∧ t.live.Perm (cell :: s.live)) := by
  obtain ⟨cells, slot, hfind, hplaced, hperm, hlocated⟩ := h.findSlot topic key
  have hs := h.rearranged hplaced hperm
  cases hread : Probing.read cells slot with
  | some cell =>
    obtain ⟨htopic, hk⟩ := hlocated.found cell hread
    refine ⟨_, cell, ?_, hs, htopic, hk, .inl ⟨?_, hperm⟩⟩
    · simp only [KeyIndex.findOrInsertCell, hkey, hfind, Option.bind_eq_bind,
        Option.bind_some, hread]
      rfl
    · exact hperm.mem_iff.mp (Probing.mem_live.mpr ⟨slot, hread⟩)
  | none =>
    obtain ⟨hmiss, -⟩ := hlocated.missed hread
    have habsent : ∀ c ∈ s.live, ¬(c.topic = topic ∧ c.key = key) := by
      intro c hc
      exact hmiss c (hperm.mem_iff.mpr hc)
    have haddress : ∀ cells' : List (Option Cell), (Probing.live cells').Perm s.live →
        address ∉ (Probing.live cells' ++ s.spareCells.tail).map Cell.address := by
      intro cells' hp hmem
      exact hfresh (((hp.append_right _).map _).mem_iff.mp hmem)
    by_cases hfull : cells.length < (s.cellCount + 1) * 2
    · -- the table grows, and the cells find new slots
      obtain ⟨k, hk, hlen⟩ := hplaced.sized
      have hroom : 2 * (Probing.live cells).length ≤ 2 ^ (k + 1) := by
        have := hplaced.room
        rw [hlen] at this
        rw [Nat.pow_succ]
        exact this.trans (Nat.le_mul_of_pos_right _ Nat.two_pos)
      obtain ⟨grown, hrehash, hgrown, hplaced', hperm'⟩ :=
        rehash_spec { s with cells := cells } (Nat.le_succ_of_le hk) hroom
      have hs' := hs.rearranged hplaced' hperm'
      obtain ⟨slot', hfind', hlocated'⟩ := hplaced'.findSlot hs'.hashed topic key
      have hp : (Probing.live grown).Perm s.live := hperm'.trans hperm
      have hnone : Probing.read grown slot' = none := by
        rw [Option.eq_none_iff_forall_ne_some]
        intro c hc
        exact habsent c (hp.mem_iff.mp (Probing.mem_live.mpr ⟨slot', hc⟩)) (hlocated'.found c hc)
      have hroom' : 2 * ((Probing.live grown).length + 1) ≤ grown.length := by
        have hcount := hplaced.room
        have hpos := hplaced.length_pos
        rw [hp.length_eq, hgrown, Nat.pow_succ]
        rw [live, hperm.length_eq, hlen] at hcount
        rw [hlen] at hpos
        omega
      obtain ⟨t, cell, hinsert, ht, htopic, hkc, hlive⟩ :=
        hs'.insertAt hplaced' hroom' hlocated' hnone (haddress grown hp)
      refine ⟨t, cell, ?_, ht, htopic, hkc, .inr ⟨habsent, ?_⟩⟩
      · have hcap : (if cells.isEmpty then 8 else cells.length * 2) = 2 ^ (k + 1) := by
          rw [hplaced.ne_empty, hlen, Nat.pow_succ]
          rfl
        simp only [KeyIndex.findOrInsertCell, hkey, hfind, Option.bind_eq_bind,
          Option.bind_some, hread, if_pos hfull, hcap, hrehash, hfind', hinsert]
        rfl
      · exact hlive.trans (hp.cons cell)
    · have hroom : 2 * ((Probing.live cells).length + 1) ≤ cells.length := by
        rw [hperm.length_eq, ← h.count]
        omega
      obtain ⟨t, cell, hinsert, ht, htopic, hkc, hlive⟩ :=
        hs.insertAt hplaced hroom hlocated hread (haddress cells hperm)
      refine ⟨t, cell, ?_, ht, htopic, hkc, .inr ⟨habsent, ?_⟩⟩
      · simp only [KeyIndex.findOrInsertCell, hkey, hfind, Option.bind_eq_bind,
          Option.bind_some, hread, if_neg hfull, hinsert]
        rfl
      · exact hlive.trans (hperm.cons cell)

theorem Sound.probe_cell (h : Sound hash s) (hplaced : s.Placed) {cell : Cell}
    (hlive : cell ∈ s.live) :
    ∃ hole, Probing.probe (advance s.mask)
        (fun slot => (Probing.read s.cells slot).any fun c => c.address == cell.address)
        s.cells.length (home s.mask cell) = some hole ∧
      Probing.read s.cells hole = some cell := by
  obtain ⟨p, hp⟩ := Probing.mem_live.mp hlive
  have hstop : ∃ p < s.cells.length, (fun slot =>
      (Probing.read s.cells slot).any fun c => c.address == cell.address) p = true :=
    ⟨p, Probing.read_lt hp, by simp [hp]⟩
  obtain ⟨hole, hlt, hprobe, hend, -⟩ :=
    Probing.probe_spec hplaced.next (hplaced.home_lt cell) hstop
  refine ⟨hole, hprobe, ?_⟩
  obtain ⟨c, hc, heq⟩ := (Option.any_eq_true _ _).mp hend
  have hnodup : (s.live.map Cell.address).Nodup := by
    have := h.addresses
    rw [List.map_append] at this
    exact this.of_append_left
  have hcl : c ∈ s.live := Probing.mem_live.mpr ⟨hole, hc⟩
  rw [hc, List.inj_on_of_nodup_map hnodup hcl hlive (beq_iff_eq.mp heq)]

theorem spareCell_eq (s : KeyIndex) (cell : Cell) :
    ∃ spares, s.spareCell cell = { s with spareCells := spares } ∧
      (spares = s.spareCells ∨ spares = cell :: s.spareCells) := by
  rw [spareCell]
  split
  · exact ⟨s.spareCells, rfl, .inl rfl⟩
  · exact ⟨_, rfl, .inr rfl⟩

theorem Sound.without (h : Sound hash s) (hplaced : s.Placed) {cell : Cell}
    {cells : List (Option Cell)} (hlen : cells.length = s.cells.length)
    (hreach : Probing.Reached (home s.mask) cells)
    (hperm : s.live.Perm (cell :: Probing.live cells)) : ∃ spares,
      KeyIndex.spareCell { s with cells := cells, cellCount := s.cellCount - 1 } cell =
        { cells := cells, cellCount := s.cellCount - 1, spareCells := spares } ∧
      Placed { cells := cells, cellCount := s.cellCount - 1, spareCells := spares } ∧
      Sound hash { cells := cells, cellCount := s.cellCount - 1, spareCells := spares } := by
  obtain ⟨spares, hspare, hspares⟩ :=
    spareCell_eq { s with cells := cells, cellCount := s.cellCount - 1 } cell
  have hcount := hperm.length_eq
  rw [List.length_cons] at hcount
  have hplaced' : Placed
      { cells := cells, cellCount := s.cellCount - 1, spareCells := spares } :=
    { sized := by
        rw [hlen]
        exact hplaced.sized
      reached := by
        rw [mask, hlen]
        exact hreach
      room := by
        have hroom := hplaced.room
        show 2 * (Probing.live cells).length ≤ cells.length
        omega }
  refine ⟨spares, hspare, hplaced',
    { placed := .inr hplaced', count := ?_, hashed := ?_, names := ?_, addresses := ?_ }⟩
  · rw [h.count, hcount, live, Nat.add_sub_cancel]
  · intro c hc
    exact h.hashed c (hperm.mem_iff.mpr (List.mem_cons_of_mem _ hc))
  · exact (List.nodup_cons.mp ((hperm.map _).nodup_iff.mp h.names)).2
  · have hall : ((cell :: (Probing.live cells ++ s.spareCells)).map Cell.address).Nodup :=
      ((hperm.append_right s.spareCells).map _).nodup_iff.mp h.addresses
    rcases hspares with rfl | rfl
    · exact (List.nodup_cons.mp hall).2
    · exact (List.perm_middle.map _).nodup_iff.mpr hall

theorem Sound.eraseCell (h : Sound hash s) {cell : Cell} (hlive : cell ∈ s.live) :
    ∃ t, s.eraseCell cell = some t ∧ Sound hash t ∧ s.live.Perm (cell :: t.live) := by
  have hplaced : s.Placed := by
    rcases h.placed with hempty | hplaced
    · rw [live, hempty] at hlive
      exact absurd hlive (List.not_mem_nil)
    · exact hplaced
  obtain ⟨hole, hprobe, hread⟩ := h.probe_cell hplaced hlive
  have hmay : ∀ (c : Cell) (hole i : ℕ), hole < s.cells.length → i < s.cells.length →
      (decide (Conflation.ahead s.mask hole i ≤ Conflation.ahead s.mask (home s.mask c) i) =
          true ↔ Probing.dist s.cells.length hole i ≤
            Probing.dist s.cells.length (home s.mask c) i) := by
    intro c hole i hhole hi
    rw [decide_eq_true_iff, hplaced.ahead hhole hi, hplaced.ahead (hplaced.home_lt c) hi]
  obtain ⟨cells, hshift, hlen, hreach, hperm⟩ :=
    hplaced.reached.erase hplaced.next hplaced.home_lt hmay hplaced.not_full hread
  obtain ⟨spares, hspare, hplaced', ht⟩ := h.without hplaced hlen hreach hperm
  by_cases hshrink : 2 * spareCap < cells.length ∧ (s.cellCount - 1) * 8 < cells.length
  · -- the table shrinks, and stays at a power of two
    obtain ⟨k, hk, hpow⟩ := hplaced'.sized
    have hbig : 2 ^ 7 < 2 ^ k := by
      rw [← hpow]
      exact hshrink.1
    have hk' : 7 < k := (Nat.pow_lt_pow_iff_right (by decide)).mp hbig
    have hhalf : cells.length / 2 = 2 ^ (k - 1) := by
      rw [hpow, ← Nat.pow_div (by omega) Nat.two_pos, Nat.pow_one]
    have hroom : 2 * (Probing.live cells).length ≤ 2 ^ (k - 1) := by
      have hcount : s.cellCount - 1 = (Probing.live cells).length := ht.count
      have hlt := hshrink.2
      rw [← hhalf, ← hcount]
      omega
    obtain ⟨shrunk, hrehash, -, hplaced'', hperm''⟩ :=
      rehash_spec { cells := cells, cellCount := s.cellCount - 1, spareCells := spares }
        (by omega) hroom
    refine ⟨_, ?_, ht.rearranged hplaced'' hperm'', hperm.trans (hperm''.symm.cons cell)⟩
    simp only [KeyIndex.eraseCell, hprobe, Option.bind_eq_bind, Option.bind_some, hshift,
      hspare, if_pos hshrink, hhalf, hrehash]
  · refine ⟨_, ?_, ht, hperm⟩
    simp only [KeyIndex.eraseCell, hprobe, Option.bind_eq_bind, Option.bind_some, hshift,
      hspare, if_neg hshrink]
    rfl

theorem Reachable.sound (h : Reachable hash s) : Sound hash s := by
  induction h with
  | create => exact Sound.create hash
  | @find s t topic key slot _ hstep ih =>
    obtain ⟨cells, slot', hfind, hplaced, hperm, -⟩ := ih.findSlot topic key
    rw [hfind, Option.some.injEq, Prod.mk.injEq] at hstep
    rw [← hstep.1]
    exact ih.rearranged hplaced hperm
  | @insert s t first address cell _ hfresh hstep ih =>
    cases hkey : keyOf first with
    | none =>
      simp only [KeyIndex.findOrInsertCell, hkey, Option.some.injEq, Prod.mk.injEq] at hstep
      rw [← hstep.1]
      exact ih
    | some k =>
      obtain ⟨t', c, hinsert, ht, -⟩ := ih.findOrInsertCell hkey hfresh
      rw [hinsert, Option.some.injEq, Prod.mk.injEq] at hstep
      rw [← hstep.1]
      exact ht
  | erase _ hlive hstep ih =>
    obtain ⟨t', herase, ht, -⟩ := ih.eraseCell hlive
    rw [herase, Option.some.injEq] at hstep
    rw [← hstep]
    exact ht

/-- After every run of insertions, searches and erasures, for every hash function: from
the home slot of a live cell full slots lead to the cell; at most half of the slots are
full; a search ends, at the cell of the key exactly when it is live; an insertion ends,
with the live cell of the key or else with a new one; an erasure of a live cell ends and
takes no other cell out. -/
theorem reachable_probes (hash : Bool → List UInt8 → UInt64) (s : KeyIndex) (h : Reachable hash s) :
    (∀ cell ∈ s.live, ∃ d,
      Probing.read s.cells ((home s.mask cell + d) % s.cells.length) = some cell ∧
        ∀ j < d, Probing.read s.cells ((home s.mask cell + j) % s.cells.length) ≠ none) ∧
    (s.cellCount = s.live.length ∧ 2 * s.live.length ≤ s.cells.length) ∧
    (∀ topic key, ∃ t slot, s.findSlot (hash topic key) topic key = some (t, slot) ∧
      Reachable hash t ∧ t.live.Perm s.live ∧ slot < t.cells.length ∧
      ∀ cell, Probing.read t.cells slot = some cell ↔
        cell ∈ s.live ∧ cell.topic = topic ∧ cell.key = key) ∧
    (∀ first address, address ∉ (s.live ++ s.spareCells.tail).map Cell.address →
      ∃ t found, s.findOrInsertCell hash first address = some (t, found) ∧ Reachable hash t ∧
        match keyOf first, found with
        | none, found => t = s ∧ found = none
        | some _, none => False
        | some (topic, key), some cell => cell.topic = topic ∧ cell.key = key ∧
            (cell ∈ s.live ∧ t.live.Perm s.live ∨ (∀ c ∈ s.live, ¬(c.topic = topic ∧ c.key = key)) ∧
                t.live.Perm (cell :: s.live))) ∧
    ∀ cell ∈ s.live, ∃ t, s.eraseCell cell = some t ∧ Reachable hash t ∧
      s.live.Perm (cell :: t.live) := by
  have hs := h.sound
  refine ⟨?_, ⟨hs.count, ?_⟩, ?_, ?_, ?_⟩
  · intro cell hlive
    obtain ⟨p, hp⟩ := Probing.mem_live.mp hlive
    rcases hs.placed with hempty | hplaced
    · rw [hempty] at hp
      exact absurd hp (by simp [Probing.read])
    · obtain ⟨d, rfl, hwalk⟩ := hplaced.reached.walk hplaced.home_lt hp
      exact ⟨d, hp, hwalk⟩
  · rcases hs.placed with hempty | hplaced
    · rw [live, hempty]
      exact Nat.le_refl _
    · exact hplaced.room
  · intro topic key
    obtain ⟨cells, slot, hfind, hplaced, hperm, hlocated⟩ := hs.findSlot topic key
    refine ⟨_, slot, hfind, h.find hfind, hperm, hlocated.lt, ?_⟩
    intro cell
    constructor
    · intro hread
      exact ⟨hperm.mem_iff.mp (Probing.mem_live.mpr ⟨slot, hread⟩), hlocated.found cell hread⟩
    · rintro ⟨hlive, htopic, hkey⟩
      have hlive' := hperm.mem_iff.mpr hlive
      cases hread : Probing.read cells slot with
      | none => exact absurd ⟨htopic, hkey⟩ ((hlocated.missed hread).1 cell hlive')
      | some c =>
        obtain ⟨hct, hck⟩ := hlocated.found c hread
        have hc := hperm.mem_iff.mp (Probing.mem_live.mpr ⟨slot, hread⟩)
        rw [hs.unique hc hlive (hct.trans htopic.symm) (hck.trans hkey.symm)]
  · intro first address hfresh
    cases hkey : keyOf first with
    | none =>
      have hstep : s.findOrInsertCell hash first address = some (s, none) := by
        rw [KeyIndex.findOrInsertCell, hkey]
      exact ⟨s, none, hstep, h, rfl, rfl⟩
    | some k =>
      obtain ⟨topic, key⟩ := k
      obtain ⟨t, cell, hinsert, -, hrest⟩ := hs.findOrInsertCell hkey hfresh
      exact ⟨t, some cell, hinsert, h.insert hfresh hinsert, hrest⟩
  · intro cell hlive
    obtain ⟨t, herase, -, hperm⟩ := hs.eraseCell hlive
    exact ⟨t, herase, h.erase hlive herase, hperm⟩

/-- Two keys whose home is the last of eight slots: the second one is in the first slot. -/
def wrapped : KeyIndex :=
  { cells := some ⟨2, 1, 7, true, [6]⟩ :: List.replicate 6 none ++ [some ⟨1, 1, 7, true, [5]⟩]
    cellCount := 2
    spareCells := [] }

/-- The erasure of the first key takes the second one back over the end. -/
theorem reachable_probes_last_slot : (wrapped.eraseCell ⟨1, 1, 7, true, [5]⟩).map KeyIndex.cells =
        some (List.replicate 7 none ++ [some ⟨2, 1, 7, true, [6]⟩]) ∧
      ∃ t, wrapped.eraseCell ⟨1, 1, 7, true, [5]⟩ = some t ∧ Reachable (fun _ _ => 7) t ∧
        wrapped.live.Perm (⟨1, 1, 7, true, [5]⟩ :: t.live) :=
  ⟨by decide +kernel, (reachable_probes (fun _ _ => 7) wrapped
    (@Reachable.insert (fun _ _ => 7) _ _ (.data ⟨Msg.more, [6], none⟩) 2
      (some ⟨2, 1, 7, true, [6]⟩)
      (@Reachable.insert (fun _ _ => 7) create _ (.data ⟨Msg.more, [5], none⟩) 1
        (some ⟨1, 1, 7, true, [5]⟩) Reachable.create List.not_mem_nil rfl)
      (by decide) rfl)).2.2.2.2 ⟨1, 1, 7, true, [5]⟩ (by decide)⟩

end KeyIndex

end Conflation

end Zlink
