import Mathlib.Algebra.BigOperators.Group.List.Basic
import Mathlib.Algebra.Order.Ring.Int
import Mathlib.Tactic.Ring

/-!
# The ticks of a timer

A dispatch of a Spot timer turns the fires it takes into the ticks it hands to the handler
(`make_ticks`). A tick says how many ticks have been delivered and which scheduled tick it is,
and both numbers are carried over all dispatches of the timer. What happens to the scheduled
ticks that a late dispatch finds behind it is the overrun policy: they are skipped, they are
caught up with to a limit, or the schedule itself is moved back.

Indices are `uint64_t` and wrap. A period is a positive `std::chrono::milliseconds`; a period
times an index is a duration over `uint64_t`, which a tick stores again as milliseconds.
-/

namespace Zlink.Timers

/-- `timer_overrun_policy_t`. -/
inductive OverrunPolicy where
  | skipLateTicks
  | catchUpBounded
  | delayNextTick
  deriving DecidableEq

structure TimerOptions where
  overrunPolicy : OverrunPolicy
  maxCatchUpTicks : UInt64

/-- The largest catch-up limit, `INT_MAX`. -/
def maxCatchUpLimit : UInt64 := 2147483647

/-- What `add_timer_erased` accepts: the name is not empty, the period is positive, and a limit
for catching up lies between one and `INT_MAX`. -/
structure Timer where
  name : String
  period : Int64
  options : TimerOptions
  name_ne_empty : name ≠ ""
  period_pos : 0 < period
  limit_pos : options.overrunPolicy = .catchUpBounded → 0 < options.maxCatchUpTicks
  limit_le : options.overrunPolicy = .catchUpBounded → options.maxCatchUpTicks ≤ maxCatchUpLimit

structure TimerTick where
  name : String
  deliveryIndex : UInt64
  scheduledIndex : UInt64
  period : Int64
  scheduledElapsed : Int64
  startedElapsed : Int64
  delay : Int64
  skippedTicks : UInt64

/-- The counters of a `timer_state_t`, and the last ticks that it remembers. -/
structure Progress where
  deliveryIndex : UInt64
  lastScheduledIndex : UInt64
  deliveredTicks : List TimerTick

def Progress.new : Progress :=
  ⟨0, 0, []⟩

def observationHistoryLimit : ℕ := 256

/-- `append_observation`: at the limit the oldest observation goes. -/
def appendObservation {α : Type*} (history : List α) (value : α) : List α :=
  (if history.length = observationHistoryLimit then history.tail else history) ++ [value]

namespace Timer

variable (x : Timer)

def elapsed (index : UInt64) : UInt64 :=
  x.period.toUInt64 * index

variable (fireCount : UInt64)

/-- The scheduled ticks that a dispatch finds due. -/
def available : UInt64 :=
  max 1 fireCount

def deliveryCount : UInt64 :=
  match x.options.overrunPolicy with
  | .catchUpBounded => min (available fireCount) x.options.maxCatchUpTicks
  | _ => 1

def firstIndex (previousIndex fireCount : UInt64) : UInt64 :=
  match x.options.overrunPolicy with
  | .skipLateTicks => previousIndex + available fireCount
  | .catchUpBounded => previousIndex + available fireCount - x.deliveryCount fireCount + 1
  | .delayNextTick => previousIndex + 1

def startedElapsed (s : Progress) (fireCount : UInt64) : UInt64 :=
  match x.options.overrunPolicy with
  | .delayNextTick => x.elapsed (s.deliveryIndex + 1)
  | _ => x.elapsed (s.lastScheduledIndex + available fireCount)

def tick (previousIndex firstIndex started offset deliveryIndex : UInt64) : TimerTick where
  name := x.name
  deliveryIndex := deliveryIndex
  scheduledIndex := firstIndex + offset
  period := x.period
  scheduledElapsed := (x.elapsed (firstIndex + offset)).toInt64
  startedElapsed := started.toInt64
  delay := (started - x.elapsed (firstIndex + offset)).toInt64
  skippedTicks := if offset = 0 then firstIndex + offset - previousIndex - 1 else 0

/-- The loop of `make_ticks`, with the number of ticks that are still to come. -/
def deliver (x : Timer) (previousIndex firstIndex started : UInt64) :
    ℕ → UInt64 → Progress → Progress × List TimerTick
  | 0, _, s => (s, [])
  | n + 1, offset, s =>
    let made := x.tick previousIndex firstIndex started offset (s.deliveryIndex + 1)
    let s : Progress := { s with
      deliveryIndex := s.deliveryIndex + 1
      deliveredTicks := appendObservation s.deliveredTicks made }
    let rest := deliver x previousIndex firstIndex started n (offset + 1) s
    (rest.1, made :: rest.2)

def makeTicks (s : Progress) (fireCount : UInt64) : Progress × List TimerTick :=
  let made := x.deliver s.lastScheduledIndex (x.firstIndex s.lastScheduledIndex fireCount)
    (x.startedElapsed s fireCount) (x.deliveryCount fireCount).toNat 0 s
  match made.2.getLast? with
  | some last => ({ made.1 with lastScheduledIndex := last.scheduledIndex }, made.2)
  | none => made

def dispatches (x : Timer) : Progress → List UInt64 → Progress × List (List TimerTick)
  | s, [] => (s, [])
  | s, fireCount :: fires =>
    let made := x.makeTicks s fireCount
    let rest := dispatches x made.1 fires
    (rest.1, made.2 :: rest.2)

def advance : ℕ :=
  match x.options.overrunPolicy with
  | .delayNextTick => 1
  | _ => max 1 fireCount.toNat

theorem available_toNat : (available fireCount).toNat = max 1 fireCount.toNat := by
  rw [available, UInt64.toNat_max]
  rfl

theorem available_pos : 0 < (available fireCount).toNat := by
  rw [available_toNat]
  exact Nat.lt_of_lt_of_le Nat.zero_lt_one (Nat.le_max_left _ _)

theorem deliveryCount_pos : 0 < (x.deliveryCount fireCount).toNat := by
  rw [deliveryCount]
  split
  · rename_i hpolicy
    have hlimit := UInt64.lt_iff_toNat_lt.mp (x.limit_pos hpolicy)
    rw [UInt64.toNat_min]
    exact Nat.lt_min.mpr ⟨available_pos fireCount, hlimit⟩
  · exact Nat.zero_lt_one

theorem deliveryCount_le_advance : (x.deliveryCount fireCount).toNat ≤ x.advance fireCount := by
  rw [deliveryCount, advance]
  cases x.options.overrunPolicy with
  | skipLateTicks => exact Nat.le_max_left _ _
  | catchUpBounded =>
    rw [UInt64.toNat_min, ← available_toNat]
    exact Nat.min_le_left _ _
  | delayNextTick => exact Nat.le_refl 1

theorem firstIndex_toNat {previousIndex fireCount : UInt64}
    (hfits : previousIndex.toNat + x.advance fireCount < 2 ^ 64) :
    (x.firstIndex previousIndex fireCount).toNat + (x.deliveryCount fireCount).toNat =
      previousIndex.toNat + x.advance fireCount + 1 := by
  have hle := x.deliveryCount_le_advance fireCount
  have hpos := x.deliveryCount_pos fireCount
  rw [firstIndex]
  rw [advance] at hfits hle ⊢
  cases hpolicy : x.options.overrunPolicy with
  | skipLateTicks =>
    rw [hpolicy] at hfits
    rw [UInt64.toNat_add, available_toNat, Nat.mod_eq_of_lt hfits, deliveryCount, hpolicy]
    rfl
  | catchUpBounded =>
    rw [hpolicy] at hfits hle
    simp only at hfits hle ⊢
    have hdue : (previousIndex + available fireCount).toNat =
        previousIndex.toNat + max 1 fireCount.toNat := by
      rw [UInt64.toNat_add, available_toNat, Nat.mod_eq_of_lt hfits]
    rw [UInt64.toNat_add, UInt64.toNat_sub_of_le, hdue, UInt64.toNat_one, Nat.mod_eq_of_lt]
    · omega
    · omega
    · rw [UInt64.le_iff_toNat_le, hdue]
      omega
  | delayNextTick =>
    rw [hpolicy] at hfits
    rw [UInt64.toNat_add, UInt64.toNat_one, Nat.mod_eq_of_lt hfits, deliveryCount, hpolicy]
    rfl

end Timer

def Continues : ℕ → ℕ → List TimerTick → Prop
  | _, _, [] => True
  | delivered, scheduled, t :: ticks =>
    t.deliveryIndex.toNat = delivered + 1 ∧
      t.scheduledIndex.toNat = scheduled + t.skippedTicks.toNat + 1 ∧
      Continues (delivered + 1) t.scheduledIndex.toNat ticks

def lastIndex : ℕ → List TimerTick → ℕ
  | scheduled, [] => scheduled
  | _, t :: ticks => lastIndex t.scheduledIndex.toNat ticks

theorem lastIndex_append (scheduled : ℕ) (a b : List TimerTick) :
    lastIndex scheduled (a ++ b) = lastIndex (lastIndex scheduled a) b := by
  induction a generalizing scheduled with
  | nil => rfl
  | cons t a ih => exact ih t.scheduledIndex.toNat

theorem lastIndex_of_getLast? (scheduled : ℕ) {ticks : List TimerTick} {t : TimerTick}
    (h : ticks.getLast? = some t) : lastIndex scheduled ticks = t.scheduledIndex.toNat := by
  obtain ⟨before, rfl⟩ := List.getLast?_eq_some_iff.mp h
  exact lastIndex_append scheduled before [t]

variable {delivered : ℕ}

theorem Continues.append {scheduled : ℕ} {a b : List TimerTick}
    (ha : Continues delivered scheduled a)
    (hb : Continues (delivered + a.length) (lastIndex scheduled a) b) :
    Continues delivered scheduled (a ++ b) := by
  induction a generalizing delivered scheduled with
  | nil => exact hb
  | cons t a ih =>
    refine ⟨ha.1, ha.2.1, ih ha.2.2 ?_⟩
    rw [Nat.add_right_comm]
    exact hb

theorem Continues.lastIndex_eq {scheduled : ℕ} {ticks : List TimerTick}
    (h : Continues delivered scheduled ticks) : lastIndex scheduled ticks =
      scheduled + (ticks.map fun t => 1 + t.skippedTicks.toNat).sum := by
  induction ticks generalizing delivered scheduled with
  | nil => rfl
  | cons t ticks ih =>
    rw [lastIndex, ih h.2.2, h.2.1, List.map_cons, List.sum_cons]
    ring

theorem Continues.lt_scheduledIndex {scheduled : ℕ} {ticks : List TimerTick}
    (h : Continues delivered scheduled ticks) {t : TimerTick} (ht : t ∈ ticks) :
    scheduled < t.scheduledIndex.toNat := by
  induction ticks generalizing delivered scheduled with
  | nil => cases ht
  | cons first ticks ih =>
    have hfirst : scheduled < first.scheduledIndex.toNat := by
      rw [h.2.1]
      omega
    rcases List.mem_cons.mp ht with rfl | ht
    · exact hfirst
    · exact hfirst.trans (ih h.2.2 ht)

theorem Continues.increasing {scheduled : ℕ} {ticks : List TimerTick}
    (h : Continues delivered scheduled ticks) :
    ticks.Pairwise fun t u => t.scheduledIndex.toNat < u.scheduledIndex.toNat := by
  induction ticks generalizing delivered scheduled with
  | nil => exact List.Pairwise.nil
  | cons t ticks ih =>
    exact List.Pairwise.cons (fun _ hu => h.2.2.lt_scheduledIndex hu) (ih h.2.2)

namespace Timer

section Deliver

variable (x : Timer) (previousIndex firstIndex started : UInt64)

variable (n : ℕ)

variable (offset : UInt64)

theorem deliver_length (s : Progress) :
    (x.deliver previousIndex firstIndex started n offset s).2.length = n := by
  induction n generalizing offset s with
  | zero => rfl
  | succ n ih => exact congrArg (· + 1) (ih _ _)

theorem deliver_deliveryIndex (s : Progress) (hs : s.deliveryIndex.toNat + n < 2 ^ 64) :
    (x.deliver previousIndex firstIndex started n offset s).1.deliveryIndex.toNat =
      s.deliveryIndex.toNat + n := by
  induction n generalizing offset s with
  | zero => rfl
  | succ n ih =>
    have hnext : (s.deliveryIndex + 1).toNat = s.deliveryIndex.toNat + 1 := by
      rw [UInt64.toNat_add, UInt64.toNat_one, Nat.mod_eq_of_lt]
      omega
    rw [deliver, ih, hnext]
    · ring
    · rw [hnext]
      omega

theorem deliver_getLast? (s : Progress) (hindex : firstIndex.toNat + offset.toNat + n < 2 ^ 64) :
    ∃ last, (x.deliver previousIndex firstIndex started (n + 1) offset s).2.getLast? = some last ∧
      last.scheduledIndex.toNat = firstIndex.toNat + offset.toNat + n := by
  induction n generalizing offset s with
  | zero =>
    refine ⟨_, rfl, ?_⟩
    change (firstIndex + offset).toNat = _
    rw [UInt64.toNat_add, Nat.mod_eq_of_lt (by omega), Nat.add_zero]
  | succ n ih =>
    have hoffset : (offset + 1).toNat = offset.toNat + 1 := by
      rw [UInt64.toNat_add, UInt64.toNat_one, Nat.mod_eq_of_lt]
      omega
    rw [deliver]
    obtain ⟨last, hlast, hscheduled⟩ := ih (offset + 1) { s with
      deliveryIndex := s.deliveryIndex + 1
      deliveredTicks := appendObservation s.deliveredTicks
        (x.tick previousIndex firstIndex started offset (s.deliveryIndex + 1)) }
      (by rw [hoffset]; omega)
    refine ⟨last, ?_, ?_⟩
    · rw [List.getLast?_cons, hlast]
      rfl
    · rw [hscheduled, hoffset]
      ring

variable {x previousIndex firstIndex started}

/-- The ticks of the loop from an offset on, as long as no index wraps: the first tick of the
dispatch closes the gap to the tick before it, the others follow without one. -/
theorem deliver_continues (hfirst : previousIndex < firstIndex) (n : ℕ) (offset : UInt64)
    (s : Progress) (hindex : firstIndex.toNat + offset.toNat + n ≤ 2 ^ 64)
    (hs : s.deliveryIndex.toNat + n < 2 ^ 64) :
    Continues s.deliveryIndex.toNat
      (if offset = 0 then previousIndex.toNat else firstIndex.toNat + offset.toNat - 1)
      (x.deliver previousIndex firstIndex started n offset s).2 := by
  induction n generalizing offset s with
  | zero => trivial
  | succ n ih =>
    have hlt := UInt64.lt_iff_toNat_lt.mp hfirst
    have hdelivery : (s.deliveryIndex + 1).toNat = s.deliveryIndex.toNat + 1 := by
      rw [UInt64.toNat_add, UInt64.toNat_one, Nat.mod_eq_of_lt]
      omega
    have hscheduled : (firstIndex + offset).toNat = firstIndex.toNat + offset.toNat := by
      rw [UInt64.toNat_add, Nat.mod_eq_of_lt]
      omega
    have hoffset : (offset + 1).toNat = offset.toNat + 1 := by
      rw [UInt64.toNat_add, UInt64.toNat_one, Nat.mod_eq_of_lt]
      omega
    have hne : offset + 1 ≠ 0 := by
      intro h
      rw [h] at hoffset
      exact Nat.succ_ne_zero _ hoffset.symm
    have hrest := ih (offset + 1) { s with
      deliveryIndex := s.deliveryIndex + 1
      deliveredTicks := appendObservation s.deliveredTicks
        (x.tick previousIndex firstIndex started offset (s.deliveryIndex + 1)) }
      (by rw [hoffset]; omega) (by rw [hdelivery]; omega)
    rw [if_neg hne, hoffset, hdelivery] at hrest
    refine ⟨hdelivery, ?_, ?_⟩
    · change (firstIndex + offset).toNat = _
      by_cases hzero : offset = 0
      · have hskipped : (firstIndex - previousIndex - 1).toNat =
            firstIndex.toNat - previousIndex.toNat - 1 := by
          have hgap := UInt64.toNat_sub_of_le _ _ (UInt64.le_of_lt hfirst)
          rw [UInt64.toNat_sub_of_le, hgap, UInt64.toNat_one]
          rw [UInt64.le_iff_toNat_le, hgap, UInt64.toNat_one]
          omega
        rw [tick, if_pos hzero, if_pos hzero, hzero, UInt64.add_zero, hskipped]
        omega
      · rw [tick, if_neg hzero, if_neg hzero, hscheduled, UInt64.toNat_zero]
        have hpos : 0 < offset.toNat := Nat.pos_of_ne_zero fun h => hzero (UInt64.toNat.inj h)
        omega
    · change Continues _ (firstIndex + offset).toNat _
      rw [hscheduled]
      exact hrest

theorem deliver_delays (s : Progress) :
    (x.deliver previousIndex firstIndex started n offset s).2.map (·.delay) =
      (List.range n).map fun k =>
        (started - x.elapsed (firstIndex + (offset + UInt64.ofNat k))).toInt64 := by
  induction n generalizing offset s with
  | zero => rfl
  | succ n ih =>
    rw [deliver, List.map_cons, ih, List.range_succ_eq_map, List.map_cons, List.map_map]
    congr 1
    · change (started - x.elapsed (firstIndex + offset)).toInt64 = _
      rw [show UInt64.ofNat 0 = 0 from rfl, UInt64.add_zero]
    · congr 1
      funext k
      change _ = (started - x.elapsed (firstIndex + (offset + UInt64.ofNat (k + 1)))).toInt64
      rw [UInt64.ofNat_add, UInt64.add_assoc, UInt64.add_comm (UInt64.ofNat k)]
      rfl

end Deliver

structure Level (x : Timer) (s : Progress) : Prop where
  delivered_le : s.deliveryIndex.toNat ≤ s.lastScheduledIndex.toNat
  delivered_eq : x.options.overrunPolicy = .delayNextTick → s.deliveryIndex = s.lastScheduledIndex

theorem Level.new (x : Timer) : x.Level .new :=
  ⟨Nat.le_refl _, fun _ => rfl⟩

variable (x : Timer)

theorem makeTicks_ticks (s : Progress) (fireCount : UInt64) : (x.makeTicks s fireCount).2 =
      (x.deliver s.lastScheduledIndex (x.firstIndex s.lastScheduledIndex fireCount)
        (x.startedElapsed s fireCount) (x.deliveryCount fireCount).toNat 0 s).2 := by
  rw [makeTicks]
  split <;> rfl

theorem makeTicks_length (s : Progress) (fireCount : UInt64) :
    (x.makeTicks s fireCount).2.length = (x.deliveryCount fireCount).toNat := by
  rw [makeTicks_ticks]
  exact x.deliver_length _ _ _ _ _ _

section MakeTicks

variable {x : Timer} {s : Progress} {fireCount : UInt64}
  (hfits : s.lastScheduledIndex.toNat + x.advance fireCount < 2 ^ 64)

include hfits

theorem lastScheduledIndex_lt_firstIndex :
    s.lastScheduledIndex < x.firstIndex s.lastScheduledIndex fireCount := by
  have hfirst := x.firstIndex_toNat hfits
  have hle := x.deliveryCount_le_advance fireCount
  rw [UInt64.lt_iff_toNat_lt]
  omega

theorem makeTicks_continues (hlevel : x.Level s) :
    Continues s.deliveryIndex.toNat s.lastScheduledIndex.toNat (x.makeTicks s fireCount).2 := by
  have hfirst := x.firstIndex_toNat hfits
  have hle := x.deliveryCount_le_advance fireCount
  have hdelivered := hlevel.delivered_le
  rw [makeTicks_ticks]
  refine deliver_continues (lastScheduledIndex_lt_firstIndex hfits) _ 0 s ?_ ?_
  · rw [UInt64.toNat_zero]
    omega
  · omega

theorem makeTicks_getLast? : ∃ last, (x.makeTicks s fireCount).2.getLast? = some last ∧
      (x.makeTicks s fireCount).1.lastScheduledIndex = last.scheduledIndex ∧
      last.scheduledIndex.toNat = s.lastScheduledIndex.toNat + x.advance fireCount := by
  have hfirst := x.firstIndex_toNat hfits
  obtain ⟨n, hn⟩ := Nat.exists_eq_add_of_lt (x.deliveryCount_pos fireCount)
  rw [Nat.zero_add] at hn
  have hindex : (x.firstIndex s.lastScheduledIndex fireCount).toNat + (0 : UInt64).toNat + n <
      2 ^ 64 := by
    rw [UInt64.toNat_zero]
    omega
  obtain ⟨last, hlast, hscheduled⟩ :=
    x.deliver_getLast? s.lastScheduledIndex _ (x.startedElapsed s fireCount) n 0 s hindex
  refine ⟨last, ?_, ?_, ?_⟩
  · rw [makeTicks_ticks, hn]
    exact hlast
  · rw [makeTicks, hn, hlast]
  · rw [hscheduled, UInt64.toNat_zero]
    omega

theorem makeTicks_lastScheduledIndex : (x.makeTicks s fireCount).1.lastScheduledIndex.toNat =
      s.lastScheduledIndex.toNat + x.advance fireCount := by
  obtain ⟨last, -, hstate, hscheduled⟩ := makeTicks_getLast? hfits
  rw [hstate, hscheduled]

theorem lastIndex_makeTicks : lastIndex s.lastScheduledIndex.toNat (x.makeTicks s fireCount).2 =
      (x.makeTicks s fireCount).1.lastScheduledIndex.toNat := by
  obtain ⟨last, hlast, hstate, -⟩ := makeTicks_getLast? hfits
  rw [lastIndex_of_getLast? _ hlast, hstate]

theorem makeTicks_deliveryIndex (hlevel : x.Level s) :
    (x.makeTicks s fireCount).1.deliveryIndex.toNat =
      s.deliveryIndex.toNat + (x.deliveryCount fireCount).toNat := by
  have hle := x.deliveryCount_le_advance fireCount
  have hdelivered := hlevel.delivered_le
  have hdeliver := x.deliver_deliveryIndex s.lastScheduledIndex
    (x.firstIndex s.lastScheduledIndex fireCount) (x.startedElapsed s fireCount)
    (x.deliveryCount fireCount).toNat 0 s (by omega)
  rw [makeTicks]
  split <;> exact hdeliver

theorem Level.makeTicks (hlevel : x.Level s) : x.Level (x.makeTicks s fireCount).1 := by
  have hlast := makeTicks_lastScheduledIndex hfits
  have hdelivery := makeTicks_deliveryIndex hfits hlevel
  have hle := x.deliveryCount_le_advance fireCount
  have hdelivered := hlevel.delivered_le
  refine ⟨by omega, fun hpolicy => UInt64.toNat.inj ?_⟩
  rw [hlast, hdelivery, hlevel.delivered_eq hpolicy, advance, deliveryCount, hpolicy]
  rfl

end MakeTicks

/-- How late the ticks of a dispatch are: the last one is on time, each one before it is a period
later. -/
theorem makeTicks_delays {x : Timer} {s : Progress} (hlevel : x.Level s) (fireCount : UInt64) :
    (x.makeTicks s fireCount).2.map (·.delay) =
      (List.range (x.deliveryCount fireCount).toNat).map fun k =>
        (x.elapsed (x.deliveryCount fireCount - 1 - UInt64.ofNat k)).toInt64 := by
  rw [makeTicks_ticks, deliver_delays]
  congr 1
  funext k
  congr 1
  rw [firstIndex, startedElapsed, deliveryCount, elapsed, elapsed]
  cases hpolicy : x.options.overrunPolicy with
  | skipLateTicks | catchUpBounded =>
    simp only [elapsed]
    grind
  | delayNextTick =>
    simp only [elapsed, hlevel.delivered_eq hpolicy]
    grind

theorem zero_le_toInt64_iff (duration : UInt64) :
    0 ≤ duration.toInt64 ↔ duration.toNat < 2 ^ 63 := by
  have hint : duration.toInt64.toInt =
      if 2 * duration.toNat < 2 ^ 64 then (duration.toNat : ℤ) else duration.toNat - 2 ^ 64 :=
    BitVec.toInt_eq_toNat_cond duration.toBitVec
  have hlt := duration.toNat_lt
  rw [Int64.le_iff_toInt_le, hint, Int64.toInt_zero]
  split <;> omega

theorem period_toNat :
    (x.period.toUInt64.toNat : ℤ) = x.period.toInt ∧ x.period.toUInt64.toNat < 2 ^ 63 := by
  have hzero := (zero_le_toInt64_iff x.period.toUInt64).mp (by
    rw [Int64.toInt64_toUInt64]
    exact Int64.le_of_lt x.period_pos)
  have hint : x.period.toInt =
      if 2 * x.period.toUInt64.toNat < 2 ^ 64 then (x.period.toUInt64.toNat : ℤ)
        else x.period.toUInt64.toNat - 2 ^ 64 :=
    BitVec.toInt_eq_toNat_cond x.period.toBitVec
  rw [if_pos (by omega)] at hint
  exact ⟨hint.symm, hzero⟩

theorem forall_mul_mod_lt_iff {p : ℕ} (hp : p < 2 ^ 63) (n : ℕ) :
    (∀ k < n, p * k % 2 ^ 64 < 2 ^ 63) ↔ p * (n - 1) < 2 ^ 63 := by
  constructor
  · intro h
    have hbelow : ∀ k < n, p * k < 2 ^ 63 := by
      intro k
      induction k with
      | zero => intro _; rw [Nat.mul_zero]; decide
      | succ k ih =>
        intro hk
        have hprev := ih (Nat.lt_of_succ_lt hk)
        have hnext := h (k + 1) hk
        rw [Nat.mul_succ] at hnext ⊢
        rwa [Nat.mod_eq_of_lt (by omega)] at hnext
    cases n with
    | zero => rw [Nat.zero_sub, Nat.mul_zero]; decide
    | succ n => exact hbelow n (Nat.lt_succ_self n)
  · intro h k hk
    have hle : p * k ≤ p * (n - 1) := Nat.mul_le_mul_left p (Nat.le_sub_one_of_lt hk)
    rw [Nat.mod_eq_of_lt (by omega)]
    omega

/-- No tick of a dispatch is early exactly when the first one is not so late that its lateness
leaves the range of a duration. -/
theorem makeTicks_onTime_iff {x : Timer} {s : Progress} (hlevel : x.Level s) (fireCount : UInt64) :
    (∀ t ∈ (x.makeTicks s fireCount).2, 0 ≤ t.delay) ↔
      x.period.toInt * ((x.deliveryCount fireCount).toNat - 1) < 2 ^ 63 := by
  have hpos := x.deliveryCount_pos fireCount
  have hlt := (x.deliveryCount fireCount).toNat_lt
  have hdelays : (∀ t ∈ (x.makeTicks s fireCount).2, 0 ≤ t.delay) ↔
      ∀ k < (x.deliveryCount fireCount).toNat,
        0 ≤ (x.elapsed (x.deliveryCount fireCount - 1 - UInt64.ofNat k)).toInt64 := by
    have hmap := List.forall_mem_map (l := (x.makeTicks s fireCount).2)
      (f := TimerTick.delay) (P := fun delay => 0 ≤ delay)
    rw [← hmap, makeTicks_delays hlevel]
    simp only [List.forall_mem_map, List.mem_range]
  have helapsed (k : ℕ) (hk : k < (x.deliveryCount fireCount).toNat) :
      (x.elapsed (x.deliveryCount fireCount - 1 - UInt64.ofNat k)).toNat =
        x.period.toUInt64.toNat * ((x.deliveryCount fireCount).toNat - 1 - k) % 2 ^ 64 := by
    have hone : (x.deliveryCount fireCount - 1).toNat = (x.deliveryCount fireCount).toNat - 1 :=
      UInt64.toNat_sub_of_le _ _ (UInt64.le_iff_toNat_le.mpr hpos)
    have hofNat : (UInt64.ofNat k).toNat = k := by
      rw [UInt64.toNat_ofNat', Nat.mod_eq_of_lt (by omega)]
    rw [elapsed, UInt64.toNat_mul, UInt64.toNat_sub_of_le, hone, hofNat]
    rw [UInt64.le_iff_toNat_le, hone, hofNat]
    omega
  have hreflect : (∀ k < (x.deliveryCount fireCount).toNat,
        0 ≤ (x.elapsed (x.deliveryCount fireCount - 1 - UInt64.ofNat k)).toInt64) ↔
      ∀ k < (x.deliveryCount fireCount).toNat, x.period.toUInt64.toNat * k % 2 ^ 64 < 2 ^ 63 := by
    constructor
    · intro h k hk
      have hk' := h ((x.deliveryCount fireCount).toNat - 1 - k) (by omega)
      rw [zero_le_toInt64_iff, helapsed _ (by omega)] at hk'
      rwa [show (x.deliveryCount fireCount).toNat - 1 -
        ((x.deliveryCount fireCount).toNat - 1 - k) = k by omega] at hk'
    · intro h k hk
      rw [zero_le_toInt64_iff, helapsed k hk]
      exact h _ (by omega)
  obtain ⟨hperiod, hperiod_lt⟩ := x.period_toNat
  rw [hdelays, hreflect, forall_mul_mod_lt_iff hperiod_lt, ← hperiod]
  have hcast : (((x.deliveryCount fireCount).toNat - 1 : ℕ) : ℤ) =
      (x.deliveryCount fireCount).toNat - 1 := by
    omega
  rw [← hcast, ← Nat.cast_mul]
  exact_mod_cast Iff.rfl

theorem makeTicks_skippedTicks {x : Timer} (hpolicy : x.options.overrunPolicy = .delayNextTick)
    (s : Progress) (fireCount : UInt64) {t : TimerTick} (ht : t ∈ (x.makeTicks s fireCount).2) :
    t.skippedTicks = 0 := by
  rw [makeTicks_ticks, firstIndex, deliveryCount, hpolicy] at ht
  cases List.mem_singleton.mp ht
  rw [tick, if_pos rfl]
  grind

def batches (fires : List UInt64) : List (List TimerTick) :=
  (x.dispatches .new fires).2

def ticks (fires : List UInt64) : List TimerTick :=
  (x.batches fires).flatten

def scheduled (fires : List UInt64) : ℕ :=
  (x.dispatches .new fires).1.lastScheduledIndex.toNat

theorem dispatches_lengths (s : Progress) (fires : List UInt64) :
    (x.dispatches s fires).2.map List.length =
      fires.map fun fireCount => (x.deliveryCount fireCount).toNat := by
  induction fires generalizing s with
  | nil => rfl
  | cons fireCount fires ih =>
    rw [dispatches, List.map_cons, List.map_cons, ih, makeTicks_length]

theorem dispatches_skippedTicks {x : Timer}
    (hpolicy : x.options.overrunPolicy = .delayNextTick) (s : Progress) (fires : List UInt64)
    {t : TimerTick} (ht : t ∈ (x.dispatches s fires).2.flatten) : t.skippedTicks = 0 := by
  induction fires generalizing s with
  | nil => cases ht
  | cons fireCount fires ih =>
    rw [dispatches, List.flatten_cons, List.mem_append] at ht
    rcases ht with ht | ht
    · exact makeTicks_skippedTicks hpolicy s fireCount ht
    · exact ih _ ht

theorem dispatches_continues {x : Timer} {s : Progress} (hlevel : x.Level s) (fires : List UInt64)
    (hfits : s.lastScheduledIndex.toNat + (fires.map x.advance).sum < 2 ^ 64) :
    Continues s.deliveryIndex.toNat s.lastScheduledIndex.toNat (x.dispatches s fires).2.flatten ∧
      lastIndex s.lastScheduledIndex.toNat (x.dispatches s fires).2.flatten =
        (x.dispatches s fires).1.lastScheduledIndex.toNat ∧
      (x.dispatches s fires).1.lastScheduledIndex.toNat =
        s.lastScheduledIndex.toNat + (fires.map x.advance).sum := by
  induction fires generalizing s with
  | nil => exact ⟨trivial, rfl, rfl⟩
  | cons fireCount fires ih =>
    rw [List.map_cons, List.sum_cons, ← Nat.add_assoc] at hfits ⊢
    have hfirst : s.lastScheduledIndex.toNat + x.advance fireCount < 2 ^ 64 := by omega
    have hlast := makeTicks_lastScheduledIndex hfirst
    have hdelivery := makeTicks_deliveryIndex hfirst hlevel
    rw [← hlast] at hfits ⊢
    obtain ⟨hticks, hindex, hscheduled⟩ := ih (hlevel.makeTicks hfirst) hfits
    rw [dispatches, List.flatten_cons]
    refine ⟨(makeTicks_continues hfirst hlevel).append ?_, ?_, hscheduled⟩
    · rw [lastIndex_makeTicks hfirst, makeTicks_length, ← hdelivery]
      exact hticks
    · rw [lastIndex_append, lastIndex_makeTicks hfirst]
      exact hindex

theorem dispatches_onTime_iff {x : Timer} {s : Progress} (hlevel : x.Level s) (fires : List UInt64)
    (hfits : s.lastScheduledIndex.toNat + (fires.map x.advance).sum < 2 ^ 64) :
    (∀ t ∈ (x.dispatches s fires).2.flatten, 0 ≤ t.delay) ↔ ∀ fireCount ∈ fires,
        x.period.toInt * ((x.deliveryCount fireCount).toNat - 1) < 2 ^ 63 := by
  induction fires generalizing s with
  | nil => exact ⟨fun _ _ h => (nomatch h), fun _ _ h => (nomatch h)⟩
  | cons fireCount fires ih =>
    rw [List.map_cons, List.sum_cons, ← Nat.add_assoc] at hfits
    have hfirst : s.lastScheduledIndex.toNat + x.advance fireCount < 2 ^ 64 := by omega
    rw [← makeTicks_lastScheduledIndex hfirst] at hfits
    rw [dispatches, List.flatten_cons, List.forall_mem_append, List.forall_mem_cons,
      makeTicks_onTime_iff hlevel, ih (hlevel.makeTicks hfirst) hfits]

structure Accounted (x : Timer) (fires : List UInt64) : Prop where
  /-- The delivery index rises by one, and the scheduled index by one more than what is
  skipped. -/
  continues : Continues 0 0 (x.ticks fires)
  increasing : (x.ticks fires).Pairwise fun t u => t.scheduledIndex < u.scheduledIndex
  /-- The last scheduled index is the sum of what the ticks account for. -/
  lastIndex_eq : lastIndex 0 (x.ticks fires) = x.scheduled fires
  sum_eq : ((x.ticks fires).map fun t => 1 + t.skippedTicks.toNat).sum = x.scheduled fires
  /-- Without a delay of the schedule it is also the sum of the fires. -/
  fires_eq : x.options.overrunPolicy ≠ .delayNextTick →
    x.scheduled fires = (fires.map fun fireCount => max 1 fireCount.toNat).sum
  /-- A dispatch delivers one tick, or catches up to the limit. -/
  single : x.options.overrunPolicy ≠ .catchUpBounded → ∀ batch ∈ x.batches fires, batch.length = 1
  bounded : x.options.overrunPolicy = .catchUpBounded → ∀ batch ∈ x.batches fires,
    1 ≤ batch.length ∧ batch.length ≤ x.options.maxCatchUpTicks.toNat
  none_skipped : x.options.overrunPolicy = .delayNextTick → ∀ t ∈ x.ticks fires, t.skippedTicks = 0
  onTime : ∀ t ∈ x.ticks fires, 0 ≤ t.delay

/-- Fires whose scheduled indices stay in the range of an index, and of which no dispatch delivers
a tick that is so late that its lateness leaves the range of a duration. -/
def Fits (fires : List UInt64) : Prop :=
  (fires.map x.advance).sum < 2 ^ 64 ∧
    ∀ fireCount ∈ fires, x.period.toInt * ((x.deliveryCount fireCount).toNat - 1) < 2 ^ 63

theorem advance_of_ne_delay {x : Timer} (hpolicy : x.options.overrunPolicy ≠ .delayNextTick) :
    x.advance = fun fireCount => max 1 fireCount.toNat := by
  funext fireCount
  rw [advance]
  split
  · contradiction
  · rfl

theorem advance_of_delay {x : Timer} (hpolicy : x.options.overrunPolicy = .delayNextTick) :
    x.advance = fun _ => 1 := by
  funext fireCount
  rw [advance, hpolicy]

variable {fires : List UInt64}

theorem forall_mem_batches {x : Timer} {p : ℕ → Prop}
    (h : ∀ fireCount, p (x.deliveryCount fireCount).toNat) :
    ∀ batch ∈ x.batches fires, p batch.length := by
  intro batch hbatch
  have hmem := List.mem_map_of_mem (f := List.length) hbatch
  rw [batches, dispatches_lengths] at hmem
  obtain ⟨fireCount, -, hcount⟩ := List.mem_map.mp hmem
  rw [← hcount]
  exact h fireCount

theorem length_ticks (fires : List UInt64) : (x.ticks fires).length =
      (fires.map fun fireCount => (x.deliveryCount fireCount).toNat).sum := by
  rw [ticks, List.length_flatten, batches, dispatches_lengths]

theorem Accounted.of_fits {x : Timer} (h : x.Fits fires) : x.Accounted fires := by
  obtain ⟨htotal, hlate⟩ := h
  have hrange : Progress.new.lastScheduledIndex.toNat + (fires.map x.advance).sum < 2 ^ 64 := by
    rwa [show Progress.new.lastScheduledIndex.toNat = 0 from rfl, Nat.zero_add]
  obtain ⟨hcontinues, hlast, hscheduled⟩ := dispatches_continues (Level.new x) fires hrange
  have honTime := (dispatches_onTime_iff (Level.new x) fires hrange).mpr hlate
  constructor
  case continues => exact hcontinues
  case increasing => exact hcontinues.increasing.imp UInt64.lt_iff_toNat_lt.mpr
  case lastIndex_eq => exact hlast
  case sum_eq =>
    have hsum := hcontinues.lastIndex_eq
    rw [hlast, show Progress.new.lastScheduledIndex.toNat = 0 from rfl, Nat.zero_add] at hsum
    exact hsum.symm
  case fires_eq =>
    intro hpolicy
    rw [← advance_of_ne_delay hpolicy]
    exact hscheduled.trans (Nat.zero_add _)
  case single =>
    intro hpolicy
    refine forall_mem_batches (p := (· = 1)) fun fireCount => ?_
    rw [deliveryCount]
    split
    · contradiction
    · rfl
  case bounded =>
    intro hpolicy
    refine forall_mem_batches (p := fun n => 1 ≤ n ∧ n ≤ x.options.maxCatchUpTicks.toNat)
      fun fireCount => ⟨x.deliveryCount_pos fireCount, ?_⟩
    rw [deliveryCount, hpolicy, UInt64.toNat_min]
    exact Nat.min_le_right _ _
  case none_skipped =>
    intro hpolicy t ht
    exact dispatches_skippedTicks hpolicy _ fires ht
  case onTime => exact honTime

theorem Accounted.sum_lt {x : Timer} (h : x.Accounted fires) :
    (fires.map x.advance).sum < 2 ^ 64 := by
  have hlt : x.scheduled fires < 2 ^ 64 := UInt64.toNat_lt _
  by_cases hpolicy : x.options.overrunPolicy = .delayNextTick
  · have hsum : ((x.ticks fires).map fun t => 1 + t.skippedTicks.toNat).sum =
        (x.ticks fires).length := by
      rw [List.map_congr_left (g := fun _ => 1)]
      · rw [List.map_const', List.sum_replicate_nat, Nat.mul_one]
      · intro t ht
        rw [h.none_skipped hpolicy t ht]
        rfl
    have hcount : (fires.map fun fireCount => (x.deliveryCount fireCount).toNat) =
        fires.map x.advance := by
      refine List.map_congr_left fun fireCount _ => ?_
      rw [advance_of_delay hpolicy, deliveryCount, hpolicy]
      rfl
    rw [← hcount, ← length_ticks, ← hsum, h.sum_eq]
    exact hlt
  · rw [advance_of_ne_delay hpolicy, ← h.fires_eq hpolicy]
    exact hlt

/-- The ticks of a timer account for its fires exactly as long as neither an index nor a lateness
leaves its range. -/
theorem accounted_iff_fits (x : Timer) (fires : List UInt64) :
    x.Accounted fires ↔ x.Fits fires := by
  constructor
  · intro h
    have hrange : Progress.new.lastScheduledIndex.toNat + (fires.map x.advance).sum < 2 ^ 64 := by
      rw [show Progress.new.lastScheduledIndex.toNat = 0 from rfl, Nat.zero_add]
      exact h.sum_lt
    exact ⟨h.sum_lt, (dispatches_onTime_iff (Level.new x) fires hrange).mp h.onTime⟩
  · exact Accounted.of_fits

def everySecond : Timer where
  name := "tick"
  period := 1000
  options := ⟨.skipLateTicks, 1⟩
  name_ne_empty := by decide
  period_pos := by decide
  limit_pos := nofun
  limit_le := nofun

/-- After as many fires as an index can count, the next tick is the scheduled tick zero. -/
theorem everySecond_wraps : ¬ everySecond.Accounted [18446744073709551615, 1] := by
  intro h
  exact absurd (h.fires_eq (by decide)) (by decide)

end Timer

end Zlink.Timers
