import Mathlib.Data.List.Basic
import Mathlib.Tactic.Common

/-!
# Readers that know how much they need

A reader is a state machine over a stream of symbols that knows at every moment
how many symbols its current step still needs. Symbols are stored until the need
is zero; then an action runs, which either asks for more symbols, emits a frame,
or fails.

`decode` is one call on a chunk, with the copy loop and the in-place path that
skips it; `feed` is a run of such calls, each offering the next symbols of a
stream. `whole` reads the same stream symbol by symbol. The main results are
`feed_eq_whole`, that a run which is not cut short has the outcome of `whole`
however the stream is cut into calls, and `Contract.scan`, the rule by which an
invariant of the actions holds along a call.
-/

namespace Framing

/-- What one action of a reader reports. -/
inductive Answer (F E : Type*) where
  | more
  | emit (f : F)
  | fail (e : E)

/-- A reader with states `S`, symbols `B`, frames `F` and errors `E`. The fields
below `act` say that storing is appending, and that an action which does not fail
leaves something to read. -/
structure Reader (S B F E : Type*) where
  need : S → ℕ
  store : S → List B → S
  act : S → Answer F E × S
  store_nil : ∀ s, store s [] = s
  store_append : ∀ s as bs, store (store s as) bs = store s (as ++ bs)
  need_store : ∀ s bs, need (store s bs) = need s - bs.length
  need_act : ∀ s, need s = 0 → (∃ e, (act s).1 = .fail e) ∨ 0 < need (act s).2

namespace Reader

variable {S B F E : Type*} (r : Reader S B F E)

variable {s s' : S}

theorem need_of_act_more (h0 : r.need s = 0) (h : r.act s = (.more, s')) : 0 < r.need s' := by
  rcases r.need_act s h0 with ⟨e, he⟩ | hpos
  · simp [h] at he
  · simpa [h] using hpos

theorem need_of_act_emit {f : F} (h0 : r.need s = 0)
    (h : r.act s = (.emit f, s')) : 0 < r.need s' := by
  rcases r.need_act s h0 with ⟨e, he⟩ | hpos
  · simp [h] at he
  · simpa [h] using hpos

/-- Run actions as long as nothing is needed. -/
def settle (s : S) : Answer F E × S :=
  if _h0 : r.need s = 0 then
    match _h : r.act s with
    | (.more, s') => settle s'
    | (.emit f, s') => (.emit f, s')
    | (.fail e, s') => (.fail e, s')
  else (.more, s)
termination_by if r.need s = 0 then 1 else 0
decreasing_by
  have hpos := r.need_of_act_more _h0 _h
  rw [if_pos _h0, if_neg (by omega)]
  exact Nat.zero_lt_one

theorem settle_of_pos (h : 0 < r.need s) : r.settle s = (.more, s) := by
  rw [settle, dif_neg (by omega)]

theorem settle_of_zero (h0 : r.need s = 0) : r.settle s = r.act s := by
  rw [settle, dif_pos h0]
  split
  case h_1 s' h => rw [h, r.settle_of_pos (r.need_of_act_more h0 h)]
  case h_2 f s' h => rw [h]
  case h_3 e s' h => rw [h]

theorem need_of_settle_more (h : r.settle s = (.more, s')) : 0 < r.need s' := by
  rcases Nat.eq_zero_or_pos (r.need s) with h0 | hpos
  · rw [r.settle_of_zero h0] at h
    exact r.need_of_act_more h0 h
  · rw [r.settle_of_pos hpos] at h
    obtain ⟨-, rfl⟩ := Prod.mk.inj h
    exact hpos

theorem need_of_settle_emit {f : F} (h : r.settle s = (.emit f, s')) : 0 < r.need s' := by
  rcases Nat.eq_zero_or_pos (r.need s) with h0 | hpos
  · rw [r.settle_of_zero h0] at h
    exact r.need_of_act_emit h0 h
  · rw [r.settle_of_pos hpos] at h
    exact absurd (Prod.mk.inj h).1 (by simp)

/-- The copy loop: store what fits, settle, go on with the rest of the chunk.
The second component counts the symbols used. -/
def copy (s : S) (bs : List B) : Answer F E × ℕ × S :=
  if _hnil : bs = [] then (.more, 0, s)
  else
    match _h : r.settle (r.store s (bs.take (min (r.need s) bs.length))) with
    | (.more, s') =>
      let (a, used, s'') := copy s' (bs.drop (min (r.need s) bs.length))
      (a, min (r.need s) bs.length + used, s'')
    | (.emit f, s') => (.emit f, min (r.need s) bs.length, s')
    | (.fail e, s') => (.fail e, min (r.need s) bs.length, s')
termination_by (bs.length, if r.need s = 0 then 1 else 0)
decreasing_by
  have hlen : 0 < bs.length := List.length_pos_iff.mpr _hnil
  have hpos := r.need_of_settle_more _h
  rw [Prod.lex_def]
  rcases Nat.eq_zero_or_pos (r.need s) with h0 | hneed
  · right
    simp only [h0]
    exact ⟨by simp, by rw [if_neg (by omega)]; simp⟩
  · left
    simp only [List.length_drop]
    omega

/-- One call of the decoder. In the in-place case the chunk already lies where
the current step stores its symbols. -/
def decode (inPlace : Bool) (s : S) (bs : List B) : Answer F E × ℕ × S :=
  if inPlace ∧ bs.length ≤ r.need s then
    let (a, s') := r.settle (r.store s bs)
    (a, bs.length, s')
  else r.copy s bs

/-- The same call, symbol by symbol. -/
def scan : S → List B → Answer F E × ℕ × S
  | s, [] => (.more, 0, s)
  | s, b :: bs =>
    match r.settle (r.store s [b]) with
    | (.more, s') =>
      let (a, used, s'') := scan s' bs
      (a, used + 1, s'')
    | (.emit f, s') => (.emit f, 1, s')
    | (.fail e, s') => (.fail e, 1, s')

@[simp] theorem scan_nil (s : S) : r.scan s [] = (.more, 0, s) := rfl

theorem scan_of_lt {as : List B} (h : as.length < r.need s) (bs : List B) :
    r.scan s (as ++ bs) = ((r.scan (r.store s as) bs).1, (r.scan (r.store s as) bs).2.1 + as.length,
        (r.scan (r.store s as) bs).2.2) := by
  induction as generalizing s with
  | nil => simp [r.store_nil]
  | cons a as ih =>
    rw [List.length_cons] at h
    have hneed : r.need (r.store s [a]) = r.need s - 1 := by
      rw [r.need_store, List.length_singleton]
    rw [List.cons_append, scan, r.settle_of_pos (by omega)]
    simp only [ih (s := r.store s [a]) (by omega), r.store_append,
      List.singleton_append, List.length_cons]
    rw [Nat.add_assoc]

theorem scan_of_eq {as : List B} (hpos : 0 < r.need s) (h : as.length = r.need s) (bs : List B) :
    r.scan s (as ++ bs) =
      match r.settle (r.store s as) with
      | (.more, s') =>
        ((r.scan s' bs).1, (r.scan s' bs).2.1 + as.length, (r.scan s' bs).2.2)
      | (.emit f, s') => (.emit f, as.length, s')
      | (.fail e, s') => (.fail e, as.length, s') := by
  obtain ⟨ini, last, rfl⟩ : ∃ ini last, as = ini ++ [last] :=
    List.eq_nil_or_concat' as |>.resolve_left (by rintro rfl; simp at h; omega)
  rw [List.length_append, List.length_singleton] at h
  rw [List.append_assoc, r.scan_of_lt (by omega), List.singleton_append, scan,
    r.store_append, List.length_append, List.length_singleton]
  split <;> simp [Nat.add_comm, Nat.add_assoc]

@[simp] theorem copy_nil (s : S) : r.copy s [] = (.more, 0, s) := by
  rw [copy, dif_pos rfl]

theorem copy_of_ne_nil {bs : List B} (hnil : bs ≠ []) : r.copy s bs =
      match r.settle (r.store s (bs.take (min (r.need s) bs.length))) with
      | (.more, s') =>
        ((r.copy s' (bs.drop (min (r.need s) bs.length))).1, min (r.need s) bs.length +
            (r.copy s' (bs.drop (min (r.need s) bs.length))).2.1,
          (r.copy s' (bs.drop (min (r.need s) bs.length))).2.2)
      | (.emit f, s') => (.emit f, min (r.need s) bs.length, s')
      | (.fail e, s') => (.fail e, min (r.need s) bs.length, s') := by
  rw [copy, dif_neg hnil]
  split <;> rename_i h <;> rw [h]

theorem copy_eq_scan (hpos : 0 < r.need s) (bs : List B) : r.copy s bs = r.scan s bs := by
  induction hn : bs.length using Nat.strongRecOn generalizing s bs with
  | ind n ih =>
    by_cases hnil : bs = []
    · rw [hnil, copy_nil, scan_nil]
    have hlen : 0 < bs.length := List.length_pos_iff.mpr hnil
    rw [r.copy_of_ne_nil hnil]
    rcases Nat.lt_or_ge bs.length (r.need s) with hlt | hge
    · have hmin : min (r.need s) bs.length = bs.length := by omega
      have hscan := r.scan_of_lt hlt []
      rw [List.append_nil] at hscan
      rw [hmin, List.take_length, List.drop_length, hscan,
        r.settle_of_pos (by rw [r.need_store]; omega)]
      simp
    · have hmin : min (r.need s) bs.length = r.need s := by omega
      have htake : (bs.take (r.need s)).length = r.need s := by
        rw [List.length_take, hmin]
      have hscan := r.scan_of_eq hpos htake (bs.drop (r.need s))
      rw [List.take_append_drop] at hscan
      rw [hmin, hscan, htake]
      split
      case h_1 s' h =>
        have hrec := ih (bs.drop (r.need s)).length
          (by rw [List.length_drop]; omega) (r.need_of_settle_more h)
          (bs.drop (r.need s)) rfl
        rw [hrec, Nat.add_comm]
      case h_2 => rfl
      case h_3 => rfl

theorem decode_eq_scan (hpos : 0 < r.need s) (inPlace : Bool)
    (bs : List B) : r.decode inPlace s bs = r.scan s bs := by
  rw [decode]
  split
  case isFalse h => exact r.copy_eq_scan hpos bs
  case isTrue h =>
    rcases Nat.lt_or_ge bs.length (r.need s) with hlt | hge
    · have hscan := r.scan_of_lt hlt []
      rw [List.append_nil] at hscan
      rw [hscan, r.settle_of_pos (by rw [r.need_store]; omega)]
      simp
    · have hscan := r.scan_of_eq hpos (Nat.le_antisymm h.2 hge) []
      rw [List.append_nil] at hscan
      rw [hscan]
      rcases r.settle (r.store s bs) with ⟨_ | f | e, s'⟩ <;> simp

end Reader

/-- One call in a run: how many of the next symbols it offers, and whether they
lie in place. -/
structure Call where
  size : ℕ
  inPlace : Bool

/-- What a run leaves behind: the frames it emitted, the failure that ended it,
the symbols it did not use and its last state. -/
structure Outcome (S B F E : Type*) where
  frames : List F
  failure : Option E
  rest : List B
  state : S

namespace Outcome

variable {S B F E : Type*}

def after (f : F) (o : Outcome S B F E) : Outcome S B F E :=
  { o with frames := f :: o.frames }

def Complete (o : Outcome S B F E) : Prop :=
  o.failure ≠ none ∨ o.rest = []

end Outcome

namespace Reader

variable {S B F E : Type*} (r : Reader S B F E)

/-- A run of calls. Each call offers the next `size` symbols of the stream; what
it does not use is offered again. The run stops at the first failure. -/
def feed : S → List B → List Call → Outcome S B F E
  | s, bs, [] => ⟨[], none, bs, s⟩
  | s, bs, c :: cs =>
    match r.decode c.inPlace s (bs.take c.size) with
    | (.more, used, s') => feed s' (bs.drop used) cs
    | (.emit f, used, s') => (feed s' (bs.drop used) cs).after f
    | (.fail e, used, s') => ⟨[], some e, bs.drop used, s'⟩

/-- The stream read symbol by symbol to its end or to the first failure. -/
def whole : S → List B → Outcome S B F E
  | s, [] => ⟨[], none, [], s⟩
  | s, b :: bs =>
    match r.settle (r.store s [b]) with
    | (.more, s') => whole s' bs
    | (.emit f, s') => (whole s' bs).after f
    | (.fail e, s') => ⟨[], some e, bs, s'⟩

@[simp] theorem whole_nil (s : S) : r.whole s [] = ⟨[], none, [], s⟩ := rfl

variable {s : S} {bs : List B}

theorem need_of_scan_more {s' : S} {used : ℕ}
    (hpos : 0 < r.need s) (h : r.scan s bs = (.more, used, s')) : 0 < r.need s' := by
  induction bs generalizing s used with
  | nil =>
    simp only [scan_nil, Prod.mk.injEq, true_and] at h
    exact h.2 ▸ hpos
  | cons b bs ih =>
    rw [scan] at h
    split at h
    case h_1 s₁ hs =>
      simp only [Prod.mk.injEq] at h
      exact ih (r.need_of_settle_more hs) (Prod.ext h.1 (Prod.ext rfl h.2.2))
    case h_2 => simp at h
    case h_3 => simp at h

theorem need_of_scan_emit {s' : S} {used : ℕ} {f : F}
    (h : r.scan s bs = (.emit f, used, s')) : 0 < r.need s' := by
  induction bs generalizing s used with
  | nil => simp at h
  | cons b bs ih =>
    rw [scan] at h
    split at h
    case h_1 s₁ hs =>
      simp only [Prod.mk.injEq] at h
      exact ih (Prod.ext h.1 (Prod.ext rfl h.2.2))
    case h_2 f' s₁ hs =>
      simp only [Prod.mk.injEq, Answer.emit.injEq] at h
      obtain ⟨rfl, -, rfl⟩ := h
      exact r.need_of_settle_emit hs
    case h_3 => simp at h

/-- Reading a stream symbol by symbol is one scan of a part of it and then the
reading of what the scan left. -/
theorem whole_append (s : S) (as bs : List B) : r.whole s (as ++ bs) = match r.scan s as with
      | (.more, used, s') => r.whole s' (as.drop used ++ bs)
      | (.emit f, used, s') => (r.whole s' (as.drop used ++ bs)).after f
      | (.fail e, used, s') => ⟨[], some e, as.drop used ++ bs, s'⟩ := by
  induction as generalizing s with
  | nil => rfl
  | cons a as ih =>
    rw [List.cons_append, whole, scan]
    split
    case h_1 s₁ hs =>
      rw [ih]
      rcases r.scan s₁ as with ⟨_ | f | e, used, s'⟩ <;> rfl
    case h_2 => rfl
    case h_3 => rfl

theorem scan_used_pos (hne : bs ≠ []) : 0 < (r.scan s bs).2.1 := by
  obtain ⟨b, bs, rfl⟩ := List.exists_cons_of_ne_nil hne
  rw [scan]
  split <;> simp

theorem scan_used_le (s : S) (bs : List B) : (r.scan s bs).2.1 ≤ bs.length := by
  induction bs generalizing s with
  | nil => simp
  | cons b bs ih =>
    rw [scan]
    split
    case h_1 s₁ hs => simpa using ih s₁
    case h_2 => simp
    case h_3 => simp

theorem drop_take_append_drop {α : Type*} (l : List α) {n m : ℕ}
    (h : n ≤ (l.take m).length) : (l.take m).drop n ++ l.drop m = l.drop n := by
  conv_rhs => rw [← List.take_append_drop m l]
  rw [List.drop_append_of_le_length h]

/-- What is left of a run is what is left of the stream read symbol by
symbol: a run that did not fail has read a part of it. -/
theorem whole_eq_feed (hpos : 0 < r.need s) (bs : List B) (cs : List Call) : r.whole s bs =
      match (r.feed s bs cs).failure with
      | some _ => r.feed s bs cs
      | none =>
        { r.whole (r.feed s bs cs).state (r.feed s bs cs).rest with
          frames := (r.feed s bs cs).frames ++
            (r.whole (r.feed s bs cs).state (r.feed s bs cs).rest).frames } := by
  induction cs generalizing s bs with
  | nil => rfl
  | cons c cs ih =>
    have hle := r.scan_used_le s (bs.take c.size)
    rw [feed, r.decode_eq_scan hpos]
    conv_lhs => rw [← List.take_append_drop c.size bs, r.whole_append]
    rcases hscan : r.scan s (bs.take c.size) with ⟨_ | f | e, used, s'⟩
    · rw [hscan] at hle
      simp only [drop_take_append_drop bs hle]
      exact ih (r.need_of_scan_more hpos hscan) _
    · rw [hscan] at hle
      simp only [drop_take_append_drop bs hle]
      rw [ih (r.need_of_scan_emit hscan) (bs.drop used) ]
      rcases hf : (r.feed s' (bs.drop used) cs).failure with _ | e <;>
        simp [Outcome.after, hf]
    · rw [hscan] at hle
      simp only [drop_take_append_drop bs hle]

/-- A run that is not cut short has the outcome of the stream read symbol by
symbol, however the stream was cut into calls. -/
theorem feed_eq_whole {s : S} (hpos : 0 < r.need s) {bs : List B}
    {cs : List Call} (h : (r.feed s bs cs).Complete) : r.feed s bs cs = r.whole s bs := by
  rw [r.whole_eq_feed hpos bs cs]
  rcases hf : (r.feed s bs cs).failure with _ | e
  · have hrest : (r.feed s bs cs).rest = [] := by simpa [Outcome.Complete, hf] using h
    simp only [hrest, whole_nil, List.append_nil]
    rw [← hf, ← hrest]
  · rfl

theorem feed_complete (hpos : 0 < r.need s) {cs : List Call} (hsize : ∀ c ∈ cs, 0 < c.size)
    (hlen : bs.length ≤ cs.length) : (r.feed s bs cs).Complete := by
  induction cs generalizing s bs with
  | nil => exact .inr (List.length_eq_zero_iff.mp (Nat.le_zero.mp hlen))
  | cons c cs ih =>
    have hc : 0 < c.size := hsize c (by simp)
    have hcs : ∀ c ∈ cs, 0 < c.size := fun c h => hsize c (by simp [h])
    rw [List.length_cons] at hlen
    have hdrop : (bs.drop (r.scan s (bs.take c.size)).2.1).length ≤
        cs.length := by
      rw [List.length_drop]
      rcases bs with _ | ⟨b, bs⟩
      · simp
      · have hused : 0 < (r.scan s ((b :: bs).take c.size)).2.1 :=
          r.scan_used_pos (by simp; omega)
        omega
    rw [feed, r.decode_eq_scan hpos]
    rcases hscan : r.scan s (bs.take c.size) with ⟨_ | f | e, used, s'⟩
    · exact ih (r.need_of_scan_more hpos hscan) hcs (by simpa [hscan] using hdrop)
    · exact ih (r.need_of_scan_emit hscan) hcs (by simpa [hscan] using hdrop)
    · exact .inl (by simp)

/-- What one call keeps: `P` holds while the call runs, `Q` of the frame and the
state it returns with, `X` of the error and the state it fails with. -/
structure Contract (P : S → Prop) (Q : F → S → Prop) (X : E → S → Prop) : Prop where
  store : ∀ {s} (b : B), 0 < r.need s → P s → P (r.store s [b])
  more : ∀ {s s'}, r.need s = 0 → r.act s = (.more, s') → P s → P s'
  emit : ∀ {s s' f}, r.need s = 0 → r.act s = (.emit f, s') → P s → Q f s'
  fail : ∀ {s s' e}, r.need s = 0 → r.act s = (.fail e, s') → P s → X e s'

variable {r}

theorem Contract.scan {P : S → Prop} {Q : F → S → Prop} {X : E → S → Prop}
    (hc : r.Contract P Q X) (hpos : 0 < r.need s) (hs : P s)
    (bs : List B) :
    match r.scan s bs with
    | (.more, _, s') => P s'
    | (.emit f, _, s') => Q f s'
    | (.fail e, _, s') => X e s' := by
  induction bs generalizing s with
  | nil => exact hs
  | cons b bs ih =>
    have hstore := hc.store b hpos hs
    rw [Reader.scan]
    rcases Nat.eq_zero_or_pos (r.need (r.store s [b])) with h0 | hneed
    · rw [r.settle_of_zero h0]
      rcases h : r.act (r.store s [b]) with ⟨_ | f | e, s'⟩
      · have hrec := ih (r.need_of_act_more h0 h) (hc.more h0 h hstore)
        rcases hscan : r.scan s' bs with ⟨_ | f | e, used, s''⟩ <;>
          simpa [hscan] using hrec
      · exact hc.emit h0 h hstore
      · exact hc.fail h0 h hstore
    · rw [r.settle_of_pos hneed]
      have hrec := ih hneed hstore
      rcases hscan : r.scan (r.store s [b]) bs with
        ⟨_ | f | e, used, s''⟩ <;> simpa [hscan] using hrec

end Reader

end Framing
