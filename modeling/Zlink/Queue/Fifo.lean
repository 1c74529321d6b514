import Zlink.Queue.Ypipe

/-!
# The lock-free pipe is a queue

What the pipe is for, without pointers: the items written and not taken back, how many of
them are complete, flushed and taken, and whether the reader sleeps. `Fifo.step` says
which answers this queue gives. However the steps of writer and reader are interleaved,
the operations of the pipe, in the order in which they end, have the answers of the
queue, and no step touches memory that is not there.
-/

namespace Zlink.Queue

variable {α : Type}

structure Fifo (α : Type) where
  written : List α
  complete : ℕ
  flushed : ℕ
  taken : ℕ
  asleep : Bool

namespace Fifo

def init : Fifo α :=
  { written := [], complete := 0, flushed := 0, taken := 0, asleep := false }

def item (s : Fifo α) : Option α :=
  if s.taken < s.flushed then s.written[s.taken]? else none

def write (s : Fifo α) (value : α) (incomplete : Bool) : Fifo α :=
  { s with
    written := s.written ++ [value]
    complete := if incomplete then s.complete else s.written.length + 1 }

def unwritable (s : Fifo α) : Option α :=
  if s.complete = s.written.length then none else s.written.getLast?

def unwrite (s : Fifo α) : Fifo α :=
  if s.complete = s.written.length then s else { s with written := s.written.dropLast }

def flush (s : Fifo α) : Fifo α :=
  { s with flushed := s.complete, asleep := s.asleep && s.flushed == s.complete }

/-- The queue behind an operation, if the answer is the one the queue gives. A `read` may
say that the prefetched items are used up whether or not others were flushed since. -/
def step [DecidableEq α] (s : Fifo α) : Call α × Answer α → Option (Fifo α)
  | (.write value incomplete, .done) => some (s.write value incomplete)
  | (.unwrite, .unwrote value) => if value = s.unwritable then some s.unwrite else none
  | (.flush, .flushed alive) =>
    if alive = !(s.asleep && s.flushed != s.complete) then some s.flush else none
  | (.checkRead, .checked available) =>
    if available = s.item.isSome then some { s with asleep := !available } else none
  | (.read t, .read result) =>
    match s.item, result with
    | none, .empty => some { s with asleep := true }
    | some value, .rejected => if t.accepts value then none else some s
    | some value, .consumed value' exhausted =>
      if t.accepts value ∧ value' = value ∧ (exhausted ∨ s.taken + 1 < s.flushed) then
        some { s with taken := s.taken + 1 }
      else none
    | _, _ => none
  | (.probe, .probed value) => if value = s.item then some s else none
  | _ => none

structure Ordered (s : Fifo α) : Prop where
  taken : s.taken ≤ s.flushed
  flushed : s.flushed ≤ s.complete
  complete : s.complete ≤ s.written.length
  asleep : s.asleep = true → s.taken = s.flushed

theorem Ordered.item_isSome {s : Fifo α} (h : s.Ordered) :
    s.item.isSome = decide (s.taken < s.flushed) := by
  have hflushed := h.flushed
  have hcomplete := h.complete
  unfold item
  split
  · rename_i hlt
    rw [List.getElem?_eq_getElem (by omega), decide_eq_true hlt]
    rfl
  · rename_i hlt
    rw [decide_eq_false hlt]
    rfl

end Fifo

namespace Ypipe

open Yqueue

/-- The pointers point at the cells of the counts they stand for; the reader has
prefetched up to `k`. -/
structure Stands (N : ℕ+) (y : Ypipe α) (addr : ℕ → ℕ) (s : Fifo α) (k : ℕ) : Prop where
  layout : y.queue.Layout N addr s.taken (s.written.length + 1) s.written
  ordered : s.Ordered
  taken : s.taken ≤ k
  flushed : k ≤ s.flushed
  w : y.w = some (cell N addr s.flushed)
  f : y.f = some (cell N addr s.complete)
  c : y.c = if s.asleep then none else some (cell N addr s.flushed)
  r : y.r = some (cell N addr k) ∨ y.r = none ∧ k = s.taken

variable {N : ℕ+} {y y' : Ypipe α} {addr : ℕ → ℕ} {s : Fifo α} {k : ℕ}

theorem Stands.cell_inj (h : Stands N y addr s k) {i j : ℕ}
    (hi : s.taken ≤ i ∧ i ≤ s.written.length) (hj : s.taken ≤ j ∧ j ≤ s.written.length) :
    some (cell N addr i) = some (cell N addr j) ↔ i = j := by
  constructor
  · intro hsame
    exact Queue.cell_inj h.layout.linked.inj ⟨hi.1, Nat.le_succ_of_le hi.2⟩
      ⟨hj.1, Nat.le_succ_of_le hj.2⟩ (Option.some.inj hsame)
  · rintro rfl
    rfl

theorem Stands.back (h : Stands N y addr s k) :
    y.queue.back = some (cell N addr s.written.length) :=
  h.layout.back _ rfl

theorem Stands.front (h : Stands N y addr s k) :
    some y.queue.front = some (cell N addr s.taken) := by
  rw [h.layout.front]

variable {a : ℕ}

theorem create_stands {b : ℕ} (hy : create N a b = some y) :
    ∃ addr, Stands N y addr Fifo.init 0 := by
  obtain ⟨queue, hpush, hy⟩ := Option.bind_eq_some_iff.mp hy
  obtain rfl := Option.some.inj hy
  have hfresh : (Yqueue.create a : Yqueue α).Fresh N b := by
    by_contra hused
    rw [push_of_not_fresh hused] at hpush
    cases hpush
  obtain ⟨queue', addr, hpush', -, hlayout⟩ := (create_layout (N := N) a).push hfresh
  obtain rfl : queue' = queue := Option.some.inj (hpush'.symm.trans hpush)
  have hback := hlayout.back 0 rfl
  exact ⟨addr, hlayout, ⟨le_rfl, le_rfl, le_rfl, fun hasleep => by cases hasleep⟩,
    le_rfl, le_rfl, hback, hback, hback, .inl hback⟩

theorem Stands.store (h : Stands N y addr s k) (value : α) :
    ∃ queue, y.queue.store (cell N addr s.written.length) value = some queue ∧
      queue.Layout N addr s.taken (s.written.length + 1) (s.written ++ [value]) ∧
      (queue.endPos = y.queue.endPos ∧ queue.spareChunk = y.queue.spareChunk ∧
        ∀ a, y.queue.heap a = none → queue.heap a = none) := by
  have hordered := h.ordered
  have htaken : s.taken ≤ s.written.length :=
    hordered.taken.trans (hordered.flushed.trans hordered.complete)
  obtain ⟨queue, hstore, hlayout⟩ := h.layout.store rfl htaken value
  refine ⟨queue, hstore, hlayout, ?_⟩
  obtain ⟨c, hc, rfl⟩ := Option.map_eq_some_iff.mp hstore
  refine ⟨rfl, rfl, fun a ha => ?_⟩
  rw [put_heap, Function.update_of_ne]
  · exact ha
  · rintro rfl
    rw [ha] at hc
    cases hc

theorem Stands.written (h : Stands N y addr s k) (value : α) (incomplete : Bool)
    {queue : Yqueue α} {addr' : ℕ → ℕ}
    (hsame : ∀ i ≤ s.written.length + 1, cell N addr' i = cell N addr i)
    (hlayout : queue.Layout N addr' s.taken (s.written.length + 2) (s.written ++ [value])) :
    Stands N { y with queue := queue, f := if incomplete then y.f else queue.back } addr'
      (s.write value incomplete) k := by
  have hordered := h.ordered
  have hflushed := hordered.flushed
  have hcomplete := hordered.complete
  constructor
  · rw [Fifo.write, List.length_append]
    exact hlayout
  · refine ⟨hordered.taken, ?_, ?_, hordered.asleep⟩
    · unfold Fifo.write
      dsimp only
      split <;> omega
    · unfold Fifo.write
      dsimp only
      rw [List.length_append, List.length_singleton]
      split <;> omega
  · exact h.taken
  · exact h.flushed
  · exact h.w.trans (by rw [← hsame _ (by omega)]; rfl)
  · cases incomplete with
    | true => exact h.f.trans (by rw [← hsame _ (by omega)]; rfl)
    | false => exact hlayout.back (s.written.length + 1) rfl
  · refine h.c.trans ?_
    rw [← hsame _ (by omega)]
    rfl
  · have hk := h.flushed
    rw [hsame k (by omega)]
    exact h.r

theorem Stands.write (h : Stands N y addr s k) {value : α} {incomplete : Bool}
    (hy : y.write N value incomplete a = some y') :
    ∃ addr', Stands N y' addr' (s.write value incomplete) k := by
  obtain ⟨queue, hstore, hlayout, -⟩ := h.store value
  simp only [Ypipe.write, h.back, Option.bind_eq_bind, Option.bind_some, hstore] at hy
  obtain ⟨queue', hpush, hy⟩ := Option.bind_eq_some_iff.mp hy
  obtain rfl := Option.some.inj hy
  have hfresh : queue.Fresh N a := by
    by_contra hused
    rw [push_of_not_fresh hused] at hpush
    cases hpush
  obtain ⟨queue'', addr', hpush', hsame, hlayout'⟩ := hlayout.push hfresh
  obtain rfl : queue'' = queue' := Option.some.inj (hpush'.symm.trans hpush)
  exact ⟨addr', h.written value incomplete hsame hlayout'⟩

theorem Stands.write_isSome (h : Stands N y addr s k) (value : α) (incomplete : Bool)
    (ha : y.queue.heap a = none) : ∃ y', y.write N value incomplete a = some y' := by
  obtain ⟨queue, hstore, hlayout, -, -, hheap⟩ := h.store value
  obtain ⟨queue', -, hpush, -⟩ := hlayout.push (a := a) (fun _ _ => hheap a ha)
  simp only [Ypipe.write, h.back, Option.bind_eq_bind, Option.bind_some, hstore, hpush]
  exact ⟨_, rfl⟩

theorem Stands.unwrite (h : Stands N y addr s k) :
    ∃ y', y.unwrite N = some (y', s.unwritable) ∧ Stands N y' addr s.unwrite k := by
  have hordered := h.ordered
  have hflushed := hordered.flushed
  have hcomplete := hordered.complete
  have htaken := hordered.taken
  have hsame : y.f = y.queue.back ↔ s.complete = s.written.length := by
    rw [h.f, h.back]
    exact h.cell_inj ⟨by omega, hcomplete⟩ ⟨by omega, le_rfl⟩
  by_cases hnone : s.complete = s.written.length
  · refine ⟨y, ?_, ?_⟩
    · rw [Ypipe.unwrite, if_pos (hsame.mpr hnone), Fifo.unwritable, if_pos hnone]
    · rw [Fifo.unwrite, if_pos hnone]
      exact h
  · obtain ⟨b, hb⟩ := Nat.exists_eq_add_one_of_ne_zero (n := s.written.length) (by omega)
    have hlayout := h.layout
    rw [hb] at hlayout
    obtain ⟨queue, hunpush, hshort⟩ := hlayout.unpush (by omega) (by omega)
    have hlast : s.written.getLast? = s.written[b]? := by
      rw [List.getLast?_eq_getElem?, hb, Nat.add_sub_cancel]
    have hvalue : s.written[b]? = some (s.written[b]) :=
      List.getElem?_eq_getElem (by omega)
    refine ⟨{ y with queue := queue }, ?_, ?_⟩
    · rw [Ypipe.unwrite, if_neg (mt hsame.mp hnone), Fifo.unwritable, if_neg hnone, hlast, hvalue]
      simp only [Option.bind_eq_bind, hunpush, hshort.back b rfl, Option.bind_some,
        hshort.load (show s.taken ≤ b by omega) hvalue]
      rfl
    · rw [Fifo.unwrite, if_neg hnone]
      have hlength : s.written.dropLast.length = b := by
        rw [List.length_dropLast, hb, Nat.add_sub_cancel]
      have hdrop : s.written.dropLast = s.written.take b := by
        rw [List.dropLast_eq_take, hb, Nat.add_sub_cancel]
      refine ⟨?_, ⟨htaken, hflushed, ?_, hordered.asleep⟩, h.taken, h.flushed, h.w, h.f, h.c, h.r⟩
      · dsimp only
        rw [hlength, hdrop]
        exact hshort.forget
      · dsimp only
        omega

theorem Stands.flush_done (h : Stands N y addr s k) {y' : Ypipe α}
    (hqueue : y'.queue = y.queue) (hr : y'.r = y.r) (hw : y'.w = y.f) (hf : y'.f = y.f)
    (hc : y'.c = if s.flush.asleep then none else y.f) : Stands N y' addr s.flush k := by
  have hordered := h.ordered
  refine ⟨?_, ⟨hordered.taken.trans hordered.flushed, le_rfl, hordered.complete, ?_⟩,
    h.taken, h.flushed.trans hordered.flushed, ?_, ?_, ?_, ?_⟩
  · rw [hqueue]
    exact h.layout
  · intro hasleep
    have hboth : s.asleep = true ∧ s.flushed = s.complete := by
      simpa [Fifo.flush] using hasleep
    exact (hordered.asleep hboth.1).trans hboth.2
  · exact hw.trans h.f
  · exact hf.trans h.f
  · rw [hc, h.f]
    rfl
  · rw [hr]
    exact h.r

theorem Stands.w_eq_f (h : Stands N y addr s k) : y.w = y.f ↔ s.flushed = s.complete := by
  have hordered := h.ordered
  have htaken := hordered.taken
  have hflushed := hordered.flushed
  have hcomplete := hordered.complete
  rw [h.w, h.f]
  exact h.cell_inj ⟨htaken, by omega⟩ ⟨by omega, hcomplete⟩

/-- A `flush` with nothing to flush, or with the reader awake, ends at once. -/
theorem Stands.flush (h : Stands N y addr s k)
    (hawake : (s.asleep && s.flushed != s.complete) = false) :
    ∃ y', y.flush = (y', some true) ∧ Stands N y' addr s.flush k := by
  by_cases hnothing : s.flushed = s.complete
  · refine ⟨y, by rw [Ypipe.flush, if_pos (h.w_eq_f.mpr hnothing)], ?_⟩
    apply h.flush_done rfl rfl (h.w_eq_f.mpr hnothing) rfl
    rw [h.c, h.f, ← hnothing]
    simp [Fifo.flush, hnothing]
  · have hasleep : s.asleep = false := by simpa [hnothing] using hawake
    have hc : y.c = y.w := by
      rw [h.c, h.w, hasleep]
      rfl
    refine ⟨{ y with c := y.f, w := y.f }, ?_, ?_⟩
    · simp [Ypipe.flush, mt h.w_eq_f.mp hnothing, Ypipe.cas, hc]
    · refine h.flush_done rfl rfl rfl rfl ?_
      simp [Fifo.flush, hasleep]

theorem Stands.flush_asleep (h : Stands N y addr s k)
    (hasleep : (s.asleep && s.flushed != s.complete) = true) : y.flush = (y, none) := by
  obtain ⟨hsleep, hsome⟩ : s.asleep = true ∧ s.flushed ≠ s.complete := by
    simpa using hasleep
  have hc : y.c = none := by rw [h.c, if_pos hsleep]
  have hw : y.w ≠ none := by rw [h.w]; exact Option.some_ne_none _
  simp [Ypipe.flush, mt h.w_eq_f.mp hsome, Ypipe.cas, hc, hw.symm]

theorem Stands.flushSleeping (h : Stands N y addr s k)
    (hasleep : (s.asleep && s.flushed != s.complete) = true) :
    Stands N y.flushSleeping addr s.flush k := by
  obtain ⟨-, hsome⟩ : s.asleep = true ∧ s.flushed ≠ s.complete := by simpa using hasleep
  refine h.flush_done rfl rfl rfl rfl ?_
  simp [Fifo.flush, hsome, Ypipe.flushSleeping]

theorem Stands.length_le (h : Stands N y addr s k) : s.flushed ≤ s.written.length :=
  h.ordered.flushed.trans h.ordered.complete

theorem Stands.prefetched (h : Stands N y addr s k) :
    some y.queue.front ≠ y.r ∧ y.r ≠ none ↔ s.taken < k := by
  have htaken := h.taken
  have hk := h.flushed.trans h.length_le
  rw [h.front]
  obtain hr | ⟨hr, hk'⟩ := h.r
  · have hsame := h.cell_inj ⟨le_rfl, htaken.trans hk⟩ ⟨htaken, hk⟩
    rw [hr, ne_eq, hsame]
    constructor
    · intro hne
      omega
    · intro hlt
      exact ⟨by omega, Option.some_ne_none _⟩
  · rw [hr]
    constructor
    · exact fun hne => absurd rfl hne.2
    · intro hlt
      omega

theorem Stands.awake (h : Stands N y addr s k) (hlt : s.taken < s.flushed) : s.asleep = false := by
  cases hasleep : s.asleep with
  | false => rfl
  | true => exact absurd (h.ordered.asleep hasleep) hlt.ne

theorem Stands.published (h : Stands N y addr s k) (hlt : s.taken < s.flushed) :
    y.c = some (cell N addr s.flushed) := by
  rw [h.c, h.awake hlt]
  rfl

theorem Stands.unpublished (h : Stands N y addr s k) :
    (y.c = none ∨ y.c = some y.queue.front) ↔ ¬ s.taken < s.flushed := by
  have htaken := h.ordered.taken
  constructor
  · intro hc hlt
    rw [h.published hlt, h.front,
      h.cell_inj ⟨htaken, h.length_le⟩ ⟨le_rfl, htaken.trans h.length_le⟩] at hc
    obtain hnone | hsame := hc
    · cases hnone
    · omega
  · intro hlt
    rw [h.c, h.front, le_antisymm htaken (Nat.le_of_not_lt hlt)]
    cases s.asleep with
    | false => exact .inr rfl
    | true => exact .inl rfl

/-- `check_read` finds what is flushed, or puts the reader to sleep. -/
theorem Stands.checkRead (h : Stands N y addr s k) : ∃ y' k', y.checkRead = (y', s.item.isSome) ∧
      Stands N y' addr { s with asleep := !s.item.isSome } k' ∧
      (s.taken < s.flushed → s.taken < k') := by
  have hordered := h.ordered
  have htaken := hordered.taken
  have hk := h.flushed
  rw [hordered.item_isSome]
  by_cases hprefetched : s.taken < k
  · have hlt : s.taken < s.flushed := by omega
    have hsame : ({ s with asleep := !decide (s.taken < s.flushed) } : Fifo α) = s := by
      rw [decide_eq_true hlt, Bool.not_true, ← h.awake hlt]
    refine ⟨y, k, ?_, ?_, fun _ => hprefetched⟩
    · rw [Ypipe.checkRead, if_pos (h.prefetched.mpr hprefetched), decide_eq_true hlt]
    · rw [hsame]
      exact h
  · have hk' : k = s.taken := le_antisymm (by omega) h.taken
    have hcheck : y.checkRead = ({ (y.cas (some y.queue.front) none).1 with r := y.c },
          !(some y.queue.front = y.c ∨ y.c = none)) := by
      rw [Ypipe.checkRead, if_neg (mt h.prefetched.mp hprefetched)]
      rfl
    rw [hcheck]
    by_cases hlt : s.taken < s.flushed
    · -- There is something to prefetch.
      have hc := h.published hlt
      have hnot := mt h.unpublished.mp (not_not_intro hlt)
      refine ⟨{ y with r := y.c }, s.flushed, ?_, ?_, fun _ => hlt⟩
      · rw [decide_eq_true hlt, decide_eq_false (fun hc => hnot (hc.symm.imp_right Eq.symm)),
          Ypipe.cas, if_neg fun hfront => hnot (.inr hfront)]
        rfl
      · rw [decide_eq_true hlt]
        exact ⟨h.layout, ⟨htaken, hordered.flushed, hordered.complete,
          fun hasleep => by cases hasleep⟩, htaken, le_rfl, h.w, h.f, hc, .inl hc⟩
    · have hempty : s.taken = s.flushed := le_antisymm htaken (Nat.le_of_not_lt hlt)
      have hboth := h.unpublished.mpr hlt
      have hcas : (y.cas (some y.queue.front) none).1 = { y with c := none } := by
        rw [Ypipe.cas]
        obtain hnone | hfront := hboth
        · simp only [hnone, reduceCtorEq, if_false]
          exact congrArg (fun c => ({ y with c := c } : Ypipe α)) hnone
        · exact if_pos hfront
      refine ⟨{ y with c := none, r := y.c }, s.taken, ?_, ?_, fun hlt' => absurd hlt' hlt⟩
      · rw [hcas, decide_eq_false hlt, decide_eq_true (hboth.symm.imp_left Eq.symm)]
        rfl
      · rw [decide_eq_false hlt]
        refine ⟨h.layout, ⟨htaken, hordered.flushed, hordered.complete, fun _ => hempty⟩,
          le_rfl, htaken, h.w, h.f, rfl, ?_⟩
        obtain hnone | hfront := hboth
        · exact .inr ⟨hnone, rfl⟩
        · exact .inl (hfront.trans h.front)

theorem Stands.item (h : Stands N y addr s k) (hlt : s.taken < s.flushed) :
    ∃ v, s.item = some v ∧ y.queue.load y.queue.front = some v := by
  have hlength := h.length_le
  have hvalue : s.written[s.taken]? = some (s.written[s.taken]) :=
    List.getElem?_eq_getElem (by omega)
  refine ⟨s.written[s.taken], ?_, ?_⟩
  · rw [Fifo.item, if_pos hlt, hvalue]
  · rw [h.layout.front]
    exact h.layout.load le_rfl hvalue

theorem Stands.pop (h : Stands N y addr s k) (hlt : s.taken < k) :
    ∃ queue, y.queue.pop N = some queue ∧ (some queue.front = y.r ∨ s.taken + 1 < s.flushed) ∧
      Stands N { y with queue := queue } addr { s with taken := s.taken + 1 } k := by
  have hk := h.flushed
  have hlength := h.length_le
  obtain ⟨queue, hpop, hlayout⟩ := h.layout.pop (by omega)
  have hr : y.r = some (cell N addr k) := by
    obtain hr | ⟨-, hk'⟩ := h.r
    · exact hr
    · omega
  refine ⟨queue, hpop, ?_, hlayout, ⟨?_, h.ordered.flushed, h.ordered.complete, ?_⟩, hlt,
    hk, h.w, h.f, h.c, .inl hr⟩
  · by_cases hlast : s.taken + 1 = k
    · exact .inl (by rw [hr, ← hlast, hlayout.front])
    · exact .inr (by omega)
  · exact hlt.trans_le hk
  · intro hasleep
    exact absurd (h.ordered.asleep hasleep) (by omega)

theorem Stands.take (h : Stands N y addr s k) (hlt : s.taken < k) (t : Take α) :
    ∃ y' result, y.take N t = some (y', result) ∧
      ((∃ v, s.item = some v ∧ t.accepts v = false ∧ result = .rejected ∧ y' = y) ∨
        ∃ v e, s.item = some v ∧ t.accepts v = true ∧ result = .consumed v e ∧
          (e = true ∨ s.taken + 1 < s.flushed) ∧
          Stands N y' addr { s with taken := s.taken + 1 } k) := by
  obtain ⟨v, hitem, hload⟩ := h.item (hlt.trans_le h.flushed)
  cases haccepts : t.accepts v with
  | false =>
    refine ⟨y, .rejected, ?_, .inl ⟨v, hitem, haccepts, rfl, rfl⟩⟩
    simp [Ypipe.take, hload, haccepts]
  | true =>
    obtain ⟨queue, hpop, hlast, hstands⟩ := h.pop hlt
    refine ⟨{ y with queue := queue }, .consumed v (some queue.front = y.r), ?_,
      .inr ⟨v, _, hitem, haccepts, rfl, ?_, hstands⟩⟩
    · simp [Ypipe.take, hload, haccepts, hpop]
    · rw [decide_eq_true_iff]
      exact hlast

theorem Stands.probe (h : Stands N y addr s k) :
    ∃ y' k', y.probeIfPublished = some (y', s.item) ∧ Stands N y' addr s k' := by
  have htaken := h.ordered.taken
  have hk := h.flushed
  have hlocal : (some y.queue.front = y.r ∨ y.r = none) ↔ ¬ s.taken < k := by
    rw [← h.prefetched]
    tauto
  have hcas : y.cas none none = (y, y.c) := by
    rw [Ypipe.cas]
    split
    · rename_i hnone
      rw [← hnone]
    · rfl
  by_cases hprefetched : s.taken < k
  · obtain ⟨v, hitem, hload⟩ := h.item (by omega)
    refine ⟨y, k, ?_, h⟩
    rw [probeIfPublished, if_neg (mt hlocal.mp (not_not_intro hprefetched)), hload, hitem]
    rfl
  · rw [probeIfPublished, if_pos (hlocal.mpr hprefetched), hcas]
    by_cases hlt : s.taken < s.flushed
    · obtain ⟨v, hitem, hload⟩ := h.item hlt
      refine ⟨{ y with r := y.c }, s.flushed, ?_, ?_⟩
      · dsimp only
        rw [if_neg (mt h.unpublished.mp (not_not_intro hlt)), hload, hitem]
        rfl
      · exact { h with taken := htaken, flushed := le_rfl, r := .inl (h.published hlt) }
    · refine ⟨y, k, ?_, h⟩
      dsimp only
      rw [if_pos (h.unpublished.mpr hlt), Fifo.item, if_neg hlt]

end Ypipe

/-- The items that operations took. -/
def consumed : List (Call α × Answer α) → List α :=
  List.filterMap fun
    | (_, .read (.consumed value _)) => some value
    | _ => none

namespace Fifo

variable [DecidableEq α] {s s' : Fifo α}

theorem take_unwrite (h : s.Ordered) :
    s.unwrite.written.take s.unwrite.taken = s.written.take s.taken := by
  have htaken := h.taken
  have hflushed := h.flushed
  have hcomplete := h.complete
  unfold unwrite
  split
  · rfl
  · dsimp only
    rw [List.dropLast_eq_take, List.take_take, Nat.min_eq_left (by omega)]

theorem step_consumed (h : s.Ordered) {op : Call α × Answer α} (hs' : s.step op = some s') :
    s'.written.take s'.taken = s.written.take s.taken ++ consumed [op] := by
  have htaken := h.taken
  have hflushed := h.flushed
  have hcomplete := h.complete
  unfold step at hs'
  split at hs'
  · obtain rfl := Option.some.inj hs'
    simp [write, consumed, List.take_append_of_le_length (show s.taken ≤ s.written.length by omega)]
  · split at hs'
    · obtain rfl := Option.some.inj hs'
      simp [consumed, take_unwrite h]
    · cases hs'
  · split at hs'
    · obtain rfl := Option.some.inj hs'
      simp [consumed, flush]
    · cases hs'
  · split at hs'
    · obtain rfl := Option.some.inj hs'
      simp [consumed]
    · cases hs'
  · split at hs'
    · obtain rfl := Option.some.inj hs'
      simp [consumed]
    · split at hs'
      · cases hs'
      · obtain rfl := Option.some.inj hs'
        simp [consumed]
    · rename_i v v' exhausted hitem
      split at hs'
      · rename_i hanswer
        obtain rfl := Option.some.inj hs'
        have hvalue : s.written[s.taken]? = some v := by
          unfold item at hitem
          split at hitem
          · exact hitem
          · cases hitem
        rw [List.take_add_one, hvalue, hanswer.2.1]
        rfl
      · cases hs'
    · cases hs'
  · split at hs'
    · obtain rfl := Option.some.inj hs'
      simp [consumed]
    · cases hs'
  · cases hs'

end Fifo

namespace Threads

open Ypipe

variable [DecidableEq α] {N : ℕ+} {x y : Threads α} {s : Fifo α}

/-- The operations that have ended have the answers of the queue, and the pipe stands
where the queue does. -/
structure Linearizes (N : ℕ+) (x : Threads α) (s : Fifo α) : Prop where
  replay : Trace.run Fifo.step Fifo.init x.log = some s
  consumed : consumed x.log = s.written.take s.taken
  stands : ∃ addr k, Stands N x.pipe addr s k ∧ (x.taking.isSome → s.taken < k)
  flushing : x.flushing = true → (s.asleep && s.flushed != s.complete) = true

variable {call : Call α} {answer : Answer α}

theorem Linearizes.replay_append (h : x.Linearizes N s)
    {s' : Fifo α} (hs' : s.step (call, answer) = some s') :
    Trace.run Fifo.step Fifo.init (x.log ++ [(call, answer)]) = some s' := by
  rw [Trace.run_append h.replay, Trace.run, hs']
  rfl

theorem Linearizes.consumed_append (h : x.Linearizes N s)
    {s' : Fifo α} (hs' : s.step (call, answer) = some s') :
    Queue.consumed (x.log ++ [(call, answer)]) = s'.written.take s'.taken := by
  obtain ⟨addr, k, hstands, -⟩ := h.stands
  rw [Fifo.step_consumed hstands.ordered hs', ← h.consumed]
  exact List.filterMap_append

variable {pipe : Ypipe α}

theorem Linearizes.writer (h : x.Linearizes N s)
    {s' : Fifo α} (hs' : s.step (call, answer) = some s')
    (hstands : ∀ addr k, Stands N x.pipe addr s k → ∃ addr', Stands N pipe addr' s' k)
    (htaken : s'.taken = s.taken) :
    ({ x.ends pipe call answer with flushing := false } : Threads α).Linearizes N s' where
  replay := h.replay_append hs'
  consumed := h.consumed_append hs'
  stands := by
    obtain ⟨addr, k, hpipe, htaking⟩ := h.stands
    obtain ⟨addr', hpipe'⟩ := hstands addr k hpipe
    rw [← htaken] at htaking
    exact ⟨addr', k, hpipe', htaking⟩
  flushing hflushing := by cases hflushing

theorem Linearizes.reader (h : x.Linearizes N s)
    {s' : Fifo α} (hs' : s.step (call, answer) = some s')
    (hstands : ∃ addr k, Stands N pipe addr s' k)
    (hflushing : (s.asleep && s.flushed != s.complete) = true →
      (s'.asleep && s'.flushed != s'.complete) = true) :
    ({ x.ends pipe call answer with taking := none } : Threads α).Linearizes N s' where
  replay := h.replay_append hs'
  consumed := h.consumed_append hs'
  stands := by
    obtain ⟨addr, k, hpipe⟩ := hstands
    exact ⟨addr, k, hpipe, fun htaking => by cases htaking⟩
  flushing hx := hflushing (h.flushing hx)

theorem Linearizes.writerStep (h : x.Linearizes N s) (hidle : x.flushing = false) {s' : Fifo α}
    (hs' : s.step (call, answer) = some s')
    (hstands : ∀ addr k, Stands N x.pipe addr s k → ∃ addr', Stands N pipe addr' s' k)
    (htaken : s'.taken = s.taken) : (x.ends pipe call answer).Linearizes N s' := by
  have hend := h.writer hs' hstands htaken
  rwa [← hidle] at hend

theorem Linearizes.readerStep (h : x.Linearizes N s) (hidle : x.taking = none) {s' : Fifo α}
    (hs' : s.step (call, answer) = some s') (hstands : ∃ addr k, Stands N pipe addr s' k)
    (hflushing : (s.asleep && s.flushed != s.complete) = true →
      (s'.asleep && s'.flushed != s'.complete) = true) :
    (x.ends pipe call answer).Linearizes N s' := by
  have hend := h.reader hs' hstands hflushing
  rwa [← hidle] at hend

theorem Linearizes.write (h : x.Linearizes N s) {value : α} {incomplete : Bool} {a : ℕ}
    (hy : x.step N (.write value incomplete a) = some y) :
    y.Linearizes N (s.write value incomplete) := by
  cases hidle : x.flushing with
  | true => simp [Threads.step, hidle] at hy
  | false =>
    simp only [Threads.step, hidle] at hy
    obtain ⟨pipe, hpipe, hy⟩ := Option.bind_eq_some_iff.mp hy
    obtain rfl := Option.some.inj hy
    refine h.writerStep hidle rfl ?_ rfl
    exact fun addr k hstands => hstands.write hpipe

theorem Linearizes.unwrite (h : x.Linearizes N s) (hidle : x.flushing = false) :
    ∃ y, x.step N .unwrite = some y ∧ y.Linearizes N s.unwrite := by
  obtain ⟨addr, k, hstands, -⟩ := h.stands
  obtain ⟨pipe, hpipe, -⟩ := hstands.unwrite
  refine ⟨x.ends pipe .unwrite (.unwrote s.unwritable), ?_, ?_⟩
  · simp [Threads.step, hidle, hpipe]
  · refine h.writerStep hidle (if_pos rfl) ?_ ?_
    · intro addr k hstands
      obtain ⟨pipe', hpipe', hstands'⟩ := hstands.unwrite
      have hsame : (pipe', s.unwritable) = (pipe, s.unwritable) :=
        Option.some.inj (hpipe'.symm.trans hpipe)
      rw [← (Prod.mk.inj hsame).1]
      exact ⟨addr, hstands'⟩
    · unfold Fifo.unwrite
      split <;> rfl

theorem Linearizes.flush (h : x.Linearizes N s) (hidle : x.flushing = false) :
    ∃ y s', x.step N .flush = some y ∧ y.Linearizes N s' := by
  obtain ⟨addr, k, hstands, htaking⟩ := h.stands
  cases hasleep : (s.asleep && s.flushed != s.complete) with
  | true =>
    refine ⟨{ x with flushing := true }, s, ?_, ?_⟩
    · simp [Threads.step, hidle, hstands.flush_asleep hasleep]
    · exact { h with flushing := fun _ => hasleep }
  | false =>
    obtain ⟨pipe, hpipe, -⟩ := hstands.flush hasleep
    refine ⟨x.ends pipe .flush (.flushed true), s.flush, ?_, ?_⟩
    · simp [Threads.step, hidle, hpipe]
    · refine h.writerStep hidle (if_pos (by rw [hasleep]; rfl)) ?_ rfl
      intro addr k hstands
      obtain ⟨pipe', hpipe', hstands'⟩ := hstands.flush hasleep
      have hsame := hpipe'.symm.trans hpipe
      rw [← (Prod.mk.inj hsame).1]
      exact ⟨addr, hstands'⟩

theorem Linearizes.flushSleeping (h : x.Linearizes N s) (hbusy : x.flushing = true) :
    ∃ y, x.step N .flushSleeping = some y ∧ y.Linearizes N s.flush := by
  have hasleep := h.flushing hbusy
  refine ⟨_, if_pos hbusy, h.writer (if_pos (by rw [hasleep]; rfl)) ?_ rfl⟩
  exact fun addr k hstands => ⟨addr, hstands.flushSleeping hasleep⟩

theorem asleep_of_check (hordered : s.Ordered)
    (hflushing : (s.asleep && s.flushed != s.complete) = true) :
    (!s.item.isSome && s.flushed != s.complete) = true := by
  obtain ⟨hasleep, hne⟩ := Bool.and_eq_true_iff.mp hflushing
  rw [hordered.item_isSome, decide_eq_false (by rw [hordered.asleep hasleep]; exact lt_irrefl _),
    hne]
  rfl

theorem Linearizes.checkRead (h : x.Linearizes N s) (hidle : x.taking = none) :
    ∃ y, x.step N .checkRead = some y ∧ y.Linearizes N { s with asleep := !s.item.isSome } := by
  obtain ⟨addr, k, hstands, -⟩ := h.stands
  obtain ⟨pipe, k', hpipe, hstands', -⟩ := hstands.checkRead
  refine ⟨x.ends pipe .checkRead (.checked s.item.isSome), ?_, ?_⟩
  · simp [Threads.step, hidle, hpipe]
  · exact h.readerStep hidle (if_pos rfl) ⟨addr, k', hstands'⟩ (asleep_of_check hstands.ordered)

theorem Linearizes.read (h : x.Linearizes N s) (hidle : x.taking = none)
    (t : Take α) : ∃ y s', x.step N (.read t) = some y ∧ y.Linearizes N s' := by
  obtain ⟨addr, k, hstands, -⟩ := h.stands
  obtain ⟨pipe, k', hpipe, hstands', hfound⟩ := hstands.checkRead
  cases hitem : s.item with
  | none =>
    rw [hitem] at hpipe hstands'
    refine ⟨x.ends pipe (.read t) (.read .empty), { s with asleep := true }, ?_, ?_⟩
    · simp [Threads.step, hidle, hpipe]
    · refine h.readerStep hidle ?_ ⟨addr, k', hstands'⟩ ?_
      · simp [Fifo.step, hitem]
      · intro hflushing
        have hcheck := asleep_of_check hstands.ordered hflushing
        rwa [hitem] at hcheck
  | some v =>
    have hlt : s.taken < s.flushed := by
      have hsome := hstands.ordered.item_isSome
      rw [hitem] at hsome
      exact of_decide_eq_true hsome.symm
    rw [hitem] at hpipe hstands'
    have hsame : ({ s with asleep := !(some v).isSome } : Fifo α) = s := by
      rw [Option.isSome_some, Bool.not_true, ← hstands.awake hlt]
    rw [hsame] at hstands'
    refine ⟨{ x with pipe := pipe, taking := some t }, s, ?_, ?_⟩
    · simp [Threads.step, hidle, hpipe]
    · exact { h with stands := ⟨addr, k', hstands', fun _ => hfound hlt⟩ }

theorem Linearizes.take (h : x.Linearizes N s) {t : Take α} (hbusy : x.taking = some t) :
    ∃ y s', x.step N .take = some y ∧ y.Linearizes N s' := by
  obtain ⟨addr, k, hstands, htaking⟩ := h.stands
  have hlt := htaking (by rw [hbusy]; rfl)
  obtain ⟨pipe, result, hpipe, hresult⟩ := hstands.take hlt t
  have hstep : x.step N .take =
      some { x.ends pipe (.read t) (.read result) with taking := none } := by
    simp [Threads.step, hbusy, hpipe]
  obtain ⟨v, hitem, haccepts, rfl, rfl⟩ | ⟨v, e, hitem, haccepts, rfl, hlast, hstands'⟩ :=
    hresult
  · refine ⟨_, s, hstep, h.reader ?_ ⟨addr, k, hstands⟩ id⟩
    simp [Fifo.step, hitem, haccepts]
  · refine ⟨_, { s with taken := s.taken + 1 }, hstep, h.reader ?_ ⟨addr, k, hstands'⟩ id⟩
    simp [Fifo.step, hitem, haccepts, hlast]

theorem Linearizes.probe (h : x.Linearizes N s) (hidle : x.taking = none) :
    ∃ y, x.step N .probe = some y ∧ y.Linearizes N s := by
  obtain ⟨addr, k, hstands, -⟩ := h.stands
  obtain ⟨pipe, k', hpipe, hstands'⟩ := hstands.probe
  refine ⟨x.ends pipe .probe (.probed s.item), ?_, ?_⟩
  · simp [Threads.step, hidle, hpipe]
  · exact h.readerStep hidle (if_pos rfl) ⟨addr, k', hstands'⟩ id

theorem create_linearizes {a b : ℕ} (hx : create N a b = some x) : x.Linearizes N Fifo.init := by
  obtain ⟨pipe, hpipe, hx⟩ := Option.bind_eq_some_iff.mp hx
  obtain rfl := Option.some.inj hx
  obtain ⟨addr, hstands⟩ := create_stands hpipe
  refine ⟨rfl, rfl, ⟨addr, 0, hstands, ?_⟩, ?_⟩
  · intro htaking
    cases htaking
  · intro hflushing
    cases hflushing

theorem Linearizes.step (h : x.Linearizes N s) {e : Event α} (hy : x.step N e = some y) :
    ∃ s', y.Linearizes N s' := by
  have hwriter {e : Event α} (hy : x.step N e = some y)
      (hbusy : x.flushing = true → x.step N e = none) : x.flushing = false := by
    cases hflushing : x.flushing with
    | false => rfl
    | true =>
      rw [hbusy hflushing] at hy
      cases hy
  have hreader {e : Event α} (hy : x.step N e = some y)
      (hbusy : x.taking.isSome → x.step N e = none) : x.taking = none := by
    by_contra htaking
    rw [hbusy (Option.isSome_iff_ne_none.mpr htaking)] at hy
    cases hy
  have hsame {z : Threads α} {s' : Fifo α} {e : Event α} (hy : x.step N e = some y)
      (hz : x.step N e = some z) (hlinear : z.Linearizes N s') : ∃ s', y.Linearizes N s' := by
    obtain rfl : z = y := Option.some.inj (hz.symm.trans hy)
    exact ⟨s', hlinear⟩
  cases e with
  | write value incomplete a => exact ⟨_, h.write hy⟩
  | unwrite =>
    obtain ⟨z, hz, hlinear⟩ := h.unwrite (hwriter hy fun hbusy => if_pos hbusy)
    exact hsame hy hz hlinear
  | flush =>
    obtain ⟨z, s', hz, hlinear⟩ := h.flush (hwriter hy fun hbusy => if_pos hbusy)
    exact hsame hy hz hlinear
  | flushSleeping =>
    by_cases hbusy : x.flushing = true
    · obtain ⟨z, hz, hlinear⟩ := h.flushSleeping hbusy
      exact hsame hy hz hlinear
    · rw [Threads.step, if_neg hbusy] at hy
      cases hy
  | checkRead =>
    obtain ⟨z, hz, hlinear⟩ := h.checkRead (hreader hy fun hbusy => if_pos hbusy)
    exact hsame hy hz hlinear
  | read t =>
    obtain ⟨z, s', hz, hlinear⟩ := h.read (hreader hy fun hbusy => if_pos hbusy) t
    exact hsame hy hz hlinear
  | take =>
    obtain ⟨t, hbusy, -⟩ := Option.bind_eq_some_iff.mp hy
    obtain ⟨z, s', hz, hlinear⟩ := h.take hbusy
    exact hsame hy hz hlinear
  | probe =>
    obtain ⟨z, hz, hlinear⟩ := h.probe (hreader hy fun hbusy => if_pos hbusy)
    exact hsame hy hz hlinear

def Ready (x : Threads α) : Event α → Prop
  | .write _ _ a => x.flushing = false ∧ x.pipe.queue.heap a = none
  | .unwrite => x.flushing = false
  | .flush => x.flushing = false
  | .flushSleeping => x.flushing = true
  | .take => x.taking.isSome
  | .checkRead => x.taking = none
  | .read _ => x.taking = none
  | .probe => x.taking = none

theorem Linearizes.ready (h : x.Linearizes N s) {e : Event α} (hready : x.Ready e) :
    ∃ y, x.step N e = some y := by
  cases e with
  | write value incomplete a =>
    obtain ⟨addr, k, hstands, -⟩ := h.stands
    obtain ⟨pipe, hpipe⟩ := hstands.write_isSome value incomplete hready.2
    simp [Threads.step, hready.1, hpipe]
  | unwrite =>
    obtain ⟨y, hy, -⟩ := h.unwrite hready
    exact ⟨y, hy⟩
  | flush =>
    obtain ⟨y, -, hy, -⟩ := h.flush hready
    exact ⟨y, hy⟩
  | flushSleeping =>
    obtain ⟨y, hy, -⟩ := h.flushSleeping hready
    exact ⟨y, hy⟩
  | checkRead =>
    obtain ⟨y, hy, -⟩ := h.checkRead hready
    exact ⟨y, hy⟩
  | read t =>
    obtain ⟨y, -, hy, -⟩ := h.read hready t
    exact ⟨y, hy⟩
  | take =>
    obtain ⟨t, ht⟩ := Option.isSome_iff_exists.mp hready
    obtain ⟨y, -, hy, -⟩ := h.take ht
    exact ⟨y, hy⟩
  | probe =>
    obtain ⟨y, hy, -⟩ := h.probe hready
    exact ⟨y, hy⟩

/-- The operations so far have the answers of a queue in state `s`; the reader has the
items in the order they were written, up to where it is; the shared pointer is null
where it sleeps; and every step that is due can be made. -/
structure Behaves (N : ℕ+) (x : Threads α) (s : Fifo α) : Prop where
  replay : Trace.run Fifo.step Fifo.init x.log = some s
  consumed : consumed x.log = s.written.take s.taken
  ordered : s.Ordered
  asleep : x.pipe.c = none ↔ s.asleep = true
  goesOn : ∀ e, x.Ready e → ∃ y, x.step N e = some y

theorem Linearizes.behaves (h : x.Linearizes N s) : x.Behaves N s := by
  obtain ⟨addr, k, hstands, -⟩ := h.stands
  refine ⟨h.replay, h.consumed, hstands.ordered, ?_, fun e => h.ready⟩
  rw [hstands.c]
  cases s.asleep with
  | false | true => simp

/-- **The pipe is a queue**, however writer and reader are interleaved. -/
theorem run_behaves {a b : ℕ} {x₀ : Threads α} {es : List (Event α)}
    (hcreate : create N a b = some x₀) (hrun : Trace.run (step N) x₀ es = some x) :
    ∃ s, x.Behaves N s := by
  have hlinear : ∃ s, x.Linearizes N s :=
    Trace.run_invariant (I := fun x => ∃ s, x.Linearizes N s) (fun x e y hx _ hy => by
        obtain ⟨s, hs⟩ := hx
        exact hs.step hy)
      ⟨Fifo.init, create_linearizes hcreate⟩ (Trace.along_true x₀ es) hrun
  obtain ⟨s, hs⟩ := hlinear
  exact ⟨s, hs.behaves⟩

/-- A record of two items, of which the second is taken back and written again, read in
chunks of two with the reader asleep in between. -/
def handover : List (Event ℕ) :=
  [.checkRead, .write 7 true 1, .write 8 true 2, .unwrite, .write 9 false 2, .flush,
    .checkRead, .flushSleeping, .probe, .read .read, .take, .read (.readIf (· == 9)),
    .take, .checkRead]

theorem run_behaves_handover :
    ∃ x₀ x, create 2 0 1 = some x₀ ∧ Trace.run (step 2) x₀ handover = some x ∧
      ∃ s, x.Behaves 2 s := by
  have hsome : ((create 2 0 1 : Option (Threads ℕ)).bind fun x₀ =>
      Trace.run (step 2) x₀ handover).isSome = true := by decide +kernel
  obtain ⟨x, hx⟩ := Option.isSome_iff_exists.mp hsome
  obtain ⟨x₀, hcreate, hrun⟩ := Option.bind_eq_some_iff.mp hx
  exact ⟨x₀, x, hcreate, hrun, run_behaves hcreate hrun⟩

/-- A `flush` with nothing to flush says that the reader is alive, also where it
sleeps. -/
theorem flush_asleep_alive :
    ¬ ∀ (es : List (Event ℕ)) (x₀ x : Threads ℕ) (log : List (Call ℕ × Answer ℕ))
      (s : Fifo ℕ) (alive : Bool), create 2 0 1 = some x₀ → Trace.run (step 2) x₀ es = some x →
        x.log = log ++ [(.flush, .flushed alive)] → Trace.run Fifo.step Fifo.init log = some s →
        (alive = false ↔ s.asleep = true) := by
  intro h
  have hiff := h [.checkRead, .flush] _ _ [(.checkRead, .checked false)] _ true rfl rfl rfl rfl
  exact absurd (hiff.mpr rfl) (by decide)

end Threads

end Zlink.Queue
