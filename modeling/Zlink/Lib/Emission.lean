import Mathlib.Data.Prod.Lex
import Mathlib.Data.List.Basic
import Mathlib.Tactic.Common

/-!
# Writers that fill buffers

A writer turns messages into symbols and hands them out in buffers of any size.
An action of its machine sets the symbols to write next and tells whether they are
the last of the message. `encode` fills one buffer, with the path that hands out
symbols without copying them; `emit` is a run of loads and calls.

The main results are `emit_spec`, that a run emits the symbols of the messages it
loaded, in order, however they were cut into buffers, and `exists_drained`, that
enough calls emit all of them.
-/

namespace Emission

/-- The actions of a writer over states `A`, messages `M` and symbols `B`. An
action that does not end the message brings the machine closer to its end. -/
structure Machine (A M B : Type*) where
  act : A → M → A × List B × Bool
  rank : A → ℕ
  rank_act : ∀ a m, (act a m).2.2 = false → rank (act a m).1 < rank a

/-- A writer: the state of its machine, the message in progress, the symbols still
to write, whether the message ends with them, and the size of its own buffer. -/
structure Writer (A M B : Type*) where
  inner : A
  inProgress : Option M
  toWrite : List B
  newMsgFlag : Bool
  bufSize : ℕ

namespace Machine

variable {A M B : Type*} (mc : Machine A M B)

/-- The machine run to the end of a message, with the symbols it writes. -/
def drain (a : A) (m : M) : A × List B :=
  match _h : mc.act a m with
  | (a', bs, true) => (a', bs)
  | (a', bs, false) =>
    let (a'', rest) := drain a' m
    (a'', bs ++ rest)
termination_by mc.rank a
decreasing_by
  have hlt := mc.rank_act a m (by rw [_h])
  rwa [_h] at hlt

theorem drain_of_last {a a' : A} {m : M} {bs : List B}
    (h : mc.act a m = (a', bs, true)) : mc.drain a m = (a', bs) := by
  rw [drain]
  split
  case h_1 a₁ bs₁ h₁ =>
    rw [h, Prod.mk.injEq, Prod.mk.injEq] at h₁
    rw [h₁.1, h₁.2.1]
  case h_2 a₁ bs₁ h₁ => simp [h] at h₁

theorem drain_of_more {a a' : A} {m : M} {bs : List B} (h : mc.act a m = (a', bs, false)) :
    mc.drain a m = ((mc.drain a' m).1, bs ++ (mc.drain a' m).2) := by
  rw [drain]
  split
  case h_1 a₁ bs₁ h₁ => simp [h] at h₁
  case h_2 a₁ bs₁ h₁ =>
    rw [h, Prod.mk.injEq, Prod.mk.injEq] at h₁
    rw [← h₁.1, ← h₁.2.1]

/-- The machine run over messages, one after the other. -/
def drainAll : A → List M → A × List B
  | a, [] => (a, [])
  | a, m :: ms =>
    ((drainAll (mc.drain a m).1 ms).1, (mc.drain a m).2 ++ (drainAll (mc.drain a m).1 ms).2)

end Machine

namespace Writer

variable {A M B : Type*} (mc : Machine A M B)

def runNext (m : M) (w : Writer A M B) : Writer A M B :=
  { w with
    inner := (mc.act w.inner m).1
    toWrite := (mc.act w.inner m).2.1
    newMsgFlag := (mc.act w.inner m).2.2 }

def refill (m : M) (w : Writer A M B) : Writer A M B :=
  if w.toWrite = [] then w.runNext mc m else w

def toRun (w : Writer A M B) : ℕ :=
  if w.newMsgFlag then 0 else mc.rank w.inner + 1

variable {m : M} {w : Writer A M B}

theorem runNext_toRun (h : w.newMsgFlag = false) : (w.runNext mc m).toRun mc < w.toRun mc := by
  rw [toRun, toRun, h]
  split
  case isTrue hn => simp
  case isFalse hn =>
    have hlt := mc.rank_act w.inner m (by simpa [runNext] using hn)
    simpa [runNext] using hlt

theorem refill_toRun (hend : ¬(w.toWrite = [] ∧ w.newMsgFlag = true))
    (hnil : (w.refill mc m).toWrite = []) : (w.refill mc m).toRun mc < w.toRun mc := by
  rw [refill] at hnil ⊢
  split at hnil
  case isTrue h =>
    rw [if_pos h]
    have hflag : w.newMsgFlag = false := by simpa [h] using hend
    exact runNext_toRun mc hflag
  case isFalse h => exact absurd hnil h

/-- The loop that fills a buffer of the given size, with the symbols already in
it; `own` tells that the buffer is the writer's. -/
def fill (own : Bool) (size : ℕ) (m : M) (out : List B) (w : Writer A M B) :
    List B × Writer A M B :=
  if _hfull : size ≤ out.length then (out, w)
  else if _hend : w.toWrite = [] ∧ w.newMsgFlag = true then
    (out, { w with inProgress := none })
  else if own = true ∧ out = [] ∧ size ≤ (w.refill mc m).toWrite.length then
    ((w.refill mc m).toWrite, { w.refill mc m with toWrite := [] })
  else
    let n := min (w.refill mc m).toWrite.length (size - out.length)
    fill own size m (out ++ (w.refill mc m).toWrite.take n)
      { w.refill mc m with toWrite := (w.refill mc m).toWrite.drop n }
termination_by (size - out.length, w.toRun mc)
decreasing_by
  rw [Prod.lex_def]
  rcases Nat.eq_zero_or_pos (w.refill mc m).toWrite.length with h0 | hpos
  · right
    constructor
    · simp [h0]
    · exact refill_toRun mc _hend (List.length_eq_zero_iff.mp h0)
  · left
    simp only [List.length_append, List.length_take]
    omega

abbrev Buffer := Option ℕ

/-- One call. -/
def encode (buffer : Buffer) (w : Writer A M B) : List B × Writer A M B :=
  match w.inProgress with
  | none => ([], w)
  | some m => w.fill mc buffer.isNone (buffer.getD w.bufSize) m []

/-- Take up a message. The caller sees to it that none is in progress. -/
def loadMsg (m : M) (w : Writer A M B) : Writer A M B :=
  runNext mc m { w with inProgress := some m }

def resizeBuffer (newSize : ℕ) (w : Writer A M B) : Writer A M B :=
  if newSize = 0 ∨ newSize = w.bufSize then w
  else { w with bufSize := newSize }

/-- The symbols of the message in progress that are not written yet, and the
state of the machine after them. -/
def owes (w : Writer A M B) : A × List B :=
  match w.inProgress with
  | none => (w.inner, [])
  | some m =>
    if w.newMsgFlag then (w.inner, w.toWrite)
    else
      ((mc.drain w.inner m).1, w.toWrite ++ (mc.drain w.inner m).2)

theorem owes_of_none (h : w.inProgress = none) : w.owes mc = (w.inner, []) := by
  rw [owes, h]

theorem owes_runNext (hm : w.inProgress = some m) :
    (w.runNext mc m).owes mc = mc.drain w.inner m := by
  have hm' : (w.runNext mc m).inProgress = some m := hm
  rcases hact : mc.act w.inner m with ⟨a', bs, last⟩
  rw [owes, hm']
  rcases last with _ | _
  · simp [runNext, hact, mc.drain_of_more hact]
  · simp [runNext, hact, mc.drain_of_last hact]

theorem owes_drop (hm : w.inProgress = some m) (n : ℕ) : w.owes mc =
      (({ w with toWrite := w.toWrite.drop n } : Writer A M B).owes mc |>.1, w.toWrite.take n ++
          (({ w with toWrite := w.toWrite.drop n } : Writer A M B).owes mc).2) := by
  simp only [owes, hm]
  split <;> simp [← List.append_assoc]

theorem refill_inProgress (m : M) (w : Writer A M B) :
    (w.refill mc m).inProgress = w.inProgress := by
  rw [refill]
  split <;> rfl

theorem owes_refill (hm : w.inProgress = some m)
    (hend : ¬(w.toWrite = [] ∧ w.newMsgFlag = true)) : (w.refill mc m).owes mc = w.owes mc := by
  rw [refill]
  split
  case isTrue h =>
    have hflag : w.newMsgFlag = false := by simpa [h] using hend
    rw [owes_runNext mc hm, owes, hm]
    simp [hflag, h]
  case isFalse h => rfl

theorem fill_spec (own : Bool) (size : ℕ) (out : List B)
    (hm : w.inProgress = some m) : out ++ (w.owes mc).2 =
        (w.fill mc own size m out).1 ++ ((w.fill mc own size m out).2.owes mc).2 ∧
      ((w.fill mc own size m out).2.owes mc).1 = (w.owes mc).1 := by
  fun_induction w.fill mc own size m out with
  | case1 out w hfull => exact ⟨rfl, rfl⟩
  | case2 out w hfull hend => simp [owes, hm, hend.1, hend.2]
  | case3 out w hfull hend hzero =>
    have hrefill := refill_inProgress mc m w
    rw [hm] at hrefill
    have hdrop := owes_drop mc hrefill (w.refill mc m).toWrite.length
    rw [List.drop_length, List.take_length, owes_refill mc hm hend] at hdrop
    rw [hdrop, hzero.2.1]
    exact ⟨rfl, rfl⟩
  | case4 out w hfull hend hzero n ih =>
    have hrefill := refill_inProgress mc m w
    rw [hm] at hrefill
    have hdrop := owes_drop mc hrefill n
    rw [owes_refill mc hm hend] at hdrop
    have hrec := ih hrefill
    rw [List.append_assoc] at hrec
    rw [hdrop]
    exact hrec

theorem encode_spec (buffer : Buffer) (w : Writer A M B) :
    (w.owes mc).2 = (w.encode mc buffer).1 ++ ((w.encode mc buffer).2.owes mc).2 ∧
      ((w.encode mc buffer).2.owes mc).1 = (w.owes mc).1 := by
  rw [encode]
  split
  case h_1 h => simp [owes_of_none mc h]
  case h_2 m hm =>
    have h := fill_spec mc buffer.isNone (buffer.getD w.bufSize) [] hm
    simpa using h

theorem owes_loadMsg (m : M) (w : Writer A M B) : (w.loadMsg mc m).owes mc = mc.drain w.inner m :=
  owes_runNext mc rfl

theorem owes_resizeBuffer (n : ℕ) (w : Writer A M B) : (w.resizeBuffer n).owes mc = w.owes mc := by
  rw [resizeBuffer]
  split <;> rfl

theorem fill_bufSize (own : Bool) (size : ℕ) (m : M) (out : List B)
    (w : Writer A M B) : (w.fill mc own size m out).2.bufSize = w.bufSize := by
  have hrefill : ∀ w : Writer A M B, (w.refill mc m).bufSize = w.bufSize := by
    intro w
    rw [refill]
    split <;> rfl
  fun_induction w.fill mc own size m out with
  | case1 | case2 => rfl
  | case3 out w => exact hrefill w
  | case4 out w hfull hend hzero n ih => exact ih.trans (hrefill w)

theorem fill_progress (own : Bool) {size : ℕ} (hsize : 0 < size) (m : M)
    (out : List B) (w : Writer A M B) : (w.fill mc own size m out).1 ≠ [] ∨
      (w.fill mc own size m out).2.inProgress = none := by
  fun_induction w.fill mc own size m out with
  | case1 out w hfull =>
    left
    exact List.ne_nil_of_length_pos (Nat.lt_of_lt_of_le hsize hfull)
  | case2 => exact .inr rfl
  | case3 out w hfull hend hzero =>
    left
    exact List.ne_nil_of_length_pos (Nat.lt_of_lt_of_le hsize hzero.2.2)
  | case4 out w hfull hend hzero n ih => exact ih

theorem encode_bufSize (buffer : Buffer) (w : Writer A M B) :
    (w.encode mc buffer).2.bufSize = w.bufSize := by
  rw [encode]
  split
  · rfl
  · exact fill_bufSize mc _ _ _ _ w

/-- What is left to do for the message in progress: its symbols, and the call that
finds its end. -/
def cost (w : Writer A M B) : ℕ :=
  if w.inProgress.isNone then 0 else (w.owes mc).2.length + 1

theorem encode_cost {buffer : Buffer}
    (hbusy : w.inProgress ≠ none) (hbuf : 0 < w.bufSize) (hbuffer : buffer ≠ some 0) :
    (w.encode mc buffer).2.cost mc < w.cost mc := by
  obtain ⟨m, hm⟩ := Option.ne_none_iff_exists'.mp hbusy
  have hsize : 0 < buffer.getD w.bufSize := by
    rcases buffer with _ | n
    · exact hbuf
    · exact Nat.pos_of_ne_zero fun h0 => hbuffer (congrArg some h0)
  have hlen := congrArg List.length (encode_spec mc buffer w).1
  rw [List.length_append] at hlen
  have hcost : w.cost mc = (w.owes mc).2.length + 1 := by simp [cost, hm]
  have hprog : (w.encode mc buffer).1 ≠ [] ∨ (w.encode mc buffer).2.inProgress = none := by
    rw [encode, hm]
    exact fill_progress mc _ hsize m [] w
  rw [hcost, cost]
  split
  case isTrue h => exact Nat.succ_pos _
  case isFalse h =>
    have hne := hprog.resolve_right (by simpa using h)
    have hpos := List.length_pos_iff.mpr hne
    omega

end Writer

/-- What the owner of a writer does with it. -/
inductive Event (M : Type*) where
  | load (m : M)
  | encode (buffer : Writer.Buffer)
  | resize (newSize : ℕ)

namespace Event

variable {M : Type*}

def msg : Event M → Option M
  | .load m => some m
  | _ => none

def buffer : Event M → Option Writer.Buffer
  | .encode b => some b
  | _ => none

end Event

namespace Writer

variable {A M B : Type*} (mc : Machine A M B)

/-- One event, with the symbols it hands out. A message is loaded only when none
is in progress. -/
def step (w : Writer A M B) : Event M → Option (List B × Writer A M B)
  | .load m => if w.inProgress.isNone then some ([], w.loadMsg mc m) else none
  | .encode buffer => some (w.encode mc buffer)
  | .resize newSize => some ([], w.resizeBuffer newSize)

/-- A run of events, with the symbols it hands out. -/
def emit : Writer A M B → List (Event M) → Option (List B × Writer A M B)
  | w, [] => some ([], w)
  | w, v :: vs =>
    (w.step mc v).bind fun (bs, w₁) =>
      (emit w₁ vs).map fun (bs', w₂) => (bs ++ bs', w₂)

variable {w w' : Writer A M B}

theorem emit_cons {v : Event M} {vs : List (Event M)} {bytes : List B} :
    w.emit mc (v :: vs) = some (bytes, w') ↔ ∃ bs w₁ bs', w.step mc v = some (bs, w₁) ∧
        w₁.emit mc vs = some (bs', w') ∧ bytes = bs ++ bs' := by
  simp only [emit, Option.bind_eq_some_iff, Option.map_eq_some_iff, Prod.exists, Prod.mk.injEq]
  constructor
  · rintro ⟨bs, w₁, hv, bs', w₂, hvs, hbs, rfl⟩
    exact ⟨bs, w₁, bs', hv, hvs, hbs.symm⟩
  · rintro ⟨bs, w₁, bs', hv, hvs, rfl⟩
    exact ⟨bs, w₁, hv, bs', w', hvs, rfl, rfl⟩

theorem step_spec {v : Event M} {bs : List B} (h : w.step mc v = some (bs, w')) :
    (w.owes mc).2 ++ (mc.drainAll (w.owes mc).1 v.msg.toList).2 = bs ++ (w'.owes mc).2 ∧
      (w'.owes mc).1 = (mc.drainAll (w.owes mc).1 v.msg.toList).1 := by
  cases v with
  | load m =>
    rw [step] at h
    split at h
    case isTrue hnone =>
      obtain ⟨rfl, rfl⟩ := Prod.mk.inj (Option.some.inj h)
      have howes := owes_of_none mc (Option.isNone_iff_eq_none.mp hnone)
      simp [howes, owes_loadMsg, Event.msg, Machine.drainAll]
    case isFalse hsome => simp at h
  | encode buffer =>
    have hw : (bs, w') = w.encode mc buffer := (Option.some.inj h).symm
    have hspec := encode_spec mc buffer w
    rw [← hw] at hspec
    simpa [Event.msg, Machine.drainAll] using hspec
  | resize newSize =>
    obtain ⟨rfl, rfl⟩ := Prod.mk.inj (Option.some.inj h)
    simp [Event.msg, Machine.drainAll, owes_resizeBuffer]

/-- A run hands out the symbols owed at its start and those of the messages it
loads, in order, up to what is still owed at its end. -/
theorem emit_spec {w w' : Writer A M B} {vs : List (Event M)}
    {bytes : List B} (h : w.emit mc vs = some (bytes, w')) :
    (w.owes mc).2 ++ (mc.drainAll (w.owes mc).1 (vs.filterMap Event.msg)).2 =
        bytes ++ (w'.owes mc).2 ∧ (w'.owes mc).1 =
        (mc.drainAll (w.owes mc).1 (vs.filterMap Event.msg)).1 := by
  induction vs generalizing w bytes with
  | nil =>
    obtain ⟨rfl, rfl⟩ := Prod.mk.inj (Option.some.inj h)
    simp [Machine.drainAll]
  | cons v vs ih =>
    obtain ⟨bs, w₁, bs', hv, hvs, rfl⟩ := (emit_cons mc).mp h
    obtain ⟨hbytes, hinner⟩ := step_spec mc hv
    obtain ⟨hrest, hend⟩ := ih hvs
    rw [hinner] at hrest hend
    rcases hmsg : v.msg with _ | m
    · rw [hmsg, Option.toList_none, Machine.drainAll, List.append_nil]
        at hbytes
      rw [hmsg, Option.toList_none, Machine.drainAll] at hrest hend
      rw [List.filterMap_cons_none hmsg]
      constructor
      · rw [hbytes, List.append_assoc, hrest, List.append_assoc]
      · exact hend
    · rw [hmsg, Option.toList_some] at hbytes hrest hend
      simp only [Machine.drainAll, List.append_nil] at hbytes hrest hend
      rw [List.filterMap_cons_some hmsg]
      constructor
      · rw [Machine.drainAll, ← List.append_assoc, hbytes,
          List.append_assoc, hrest, List.append_assoc]
      · exact hend

/-- A run from an idle writer to an idle writer hands out the symbols of its
messages. -/
theorem emit_drained {vs : List (Event M)} {bytes : List B} (h : w.emit mc vs = some (bytes, w'))
    (hw : w.inProgress = none) (hw' : w'.inProgress = none) :
    bytes = (mc.drainAll w.inner (vs.filterMap Event.msg)).2 := by
  have hspec := (emit_spec mc h).1
  rw [owes_of_none mc hw, owes_of_none mc hw'] at hspec
  simpa using hspec.symm

/-- Enough buffers that each hold something drain any messages, whatever their
sizes. -/
theorem exists_drained (buffers : List Buffer)
    (hbuffers : ∀ b ∈ buffers, b ≠ some 0) (ms : List M) (hbuf : 0 < w.bufSize)
    (hlen : w.cost mc + (mc.drainAll (w.owes mc).1 ms).2.length + ms.length ≤ buffers.length) :
    ∃ vs bytes w', w.emit mc vs = some (bytes, w') ∧
      vs.filterMap Event.msg = ms ∧ vs.filterMap Event.buffer <+: buffers ∧
      w'.inProgress = none := by
  induction buffers generalizing w ms with
  | nil =>
    have hms : ms = [] := by
      rw [← List.length_eq_zero_iff]
      simp only [List.length_nil] at hlen
      omega
    have hidle : w.inProgress = none := by
      by_contra hbusy
      have hcost : w.cost mc = (w.owes mc).2.length + 1 := by
        simp [cost, hbusy]
      simp only [List.length_nil] at hlen
      omega
    exact ⟨[], [], w, rfl, hms.symm, List.nil_prefix, hidle⟩
  | cons b bs ih =>
    have hb : b ≠ some 0 := hbuffers b (by simp)
    have hbs : ∀ b ∈ bs, b ≠ some 0 := fun b' h => hbuffers b' (by simp [h])
    -- one call, and the buffers that are left for the rest
    have hbusyCase : ∀ (ms : List M) {w : Writer A M B}, 0 < w.bufSize → w.inProgress ≠ none →
        w.cost mc + (mc.drainAll (w.owes mc).1 ms).2.length + ms.length ≤ bs.length + 1 →
        ∃ vs bytes w', w.emit mc vs = some (bytes, w') ∧ vs.filterMap Event.msg = ms ∧
          vs.filterMap Event.buffer <+: b :: bs ∧ w'.inProgress = none := by
      intro ms w hbuf hbusy hlen
      have hcost := encode_cost mc hbusy hbuf hb
      have howes := (encode_spec mc b w).2
      obtain ⟨vs, bytes, w', hrun, hmsgs, hcalls, hidle⟩ :=
        ih hbs ms (w := (w.encode mc b).2)
          (by rw [encode_bufSize]; exact hbuf) (by rw [howes]; omega)
      refine ⟨.encode b :: vs, _, w',
        (emit_cons mc).mpr ⟨_, _, bytes, rfl, hrun, rfl⟩, ?_, ?_, hidle⟩
      · exact hmsgs
      · simpa [Event.buffer] using hcalls
    by_cases hidle : w.inProgress = none
    · rcases ms with _ | ⟨m, ms⟩
      · exact ⟨[], [], w, rfl, rfl, List.nil_prefix, hidle⟩
      have howes := owes_of_none mc hidle
      have hload : (w.loadMsg mc m).cost mc = (mc.drain w.inner m).2.length + 1 := by
        rw [cost, owes_loadMsg]
        rfl
      obtain ⟨vs, bytes, w', hrun, hmsgs, hcalls, hidle'⟩ :=
        hbusyCase ms (w := w.loadMsg mc m) hbuf (by simp [loadMsg, runNext]) (by
            rw [howes, Machine.drainAll, List.length_append,
              List.length_cons, List.length_cons] at hlen
            rw [hload, owes_loadMsg]
            simp only at hlen
            omega)
      refine ⟨.load m :: vs, bytes, w',
        (emit_cons mc).mpr ⟨[], _, bytes, ?_, hrun, rfl⟩, ?_, ?_, hidle'⟩
      · rw [step, hidle]
        rfl
      · simpa [Event.msg] using hmsgs
      · exact hcalls
    · exact hbusyCase ms hbuf hidle hlen

end Writer

end Emission
