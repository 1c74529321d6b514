import Mathlib.Algebra.BigOperators.Group.List.Basic
import Zlink.Pipe.Sender

/-!
# Requests that wait for their replies

A request holds a place in the window of its pipe from its admission until its reply has come. The
window counts the bytes of these requests, the work that they stand for, and their number. Its
totals are the sums over the reservations that are outstanding, whatever the order of the calls.
-/

namespace Zlink.Pipe

def requestCorrelationWorkBudget : ℕ := 32 * 1024 * 1024

def requestCorrelationLinearChargeBytes : ℕ := 1024

def requestCorrelationCubicChargeLimitBytes : ℕ := 32 * 1024

def requestCorrelationCountBudget : ℕ := 16 * 1024

def requestCorrelationWorkCharge (accountedBytes : ℕ) : ℕ :=
  if accountedBytes ≤ requestCorrelationLinearChargeBytes then accountedBytes
  else if requestCorrelationCubicChargeLimitBytes < accountedBytes then
    requestCorrelationWorkBudget + 1
  else
    let squared := accountedBytes * accountedBytes
    let cubed := squared * accountedBytes
    let divisor := requestCorrelationLinearChargeBytes * requestCorrelationLinearChargeBytes
    cubed / divisor + if cubed % divisor ≠ 0 then 1 else 0

structure RequestCorrelation where
  bytes : ℕ
  work : ℕ
  count : ℕ
  waiting : Bool
  releaseEpoch : ℕ
  activationPending : Bool
  deriving DecidableEq

/-- Why a request got no place. A full window tells the epoch in which it was full. -/
inductive ReserveError where
  | hostUnreachable
  | again
  | noBuffers (releaseEpoch : ℕ)
  deriving DecidableEq

namespace RequestCorrelation

def init : RequestCorrelation where
  bytes := 0
  work := 0
  count := 0
  waiting := false
  releaseEpoch := 0
  activationPending := false

def charged (accountedBytes : ℕ) : ℕ :=
  if accountedBytes = 0 then 1 else accountedBytes

def Full (r : RequestCorrelation) (accountedBytes workCharge : ℕ) : Prop :=
  uint64Max - r.bytes < accountedBytes ∨ uint64Max - r.work < workCharge ∨
    (¬(r.work = 0 ∧ r.count = 0) ∧ (requestCorrelationWorkBudget < workCharge ∨
        requestCorrelationWorkBudget - workCharge < r.work)) ∨
    requestCorrelationCountBudget ≤ r.count

instance (r : RequestCorrelation) (accountedBytes workCharge : ℕ) :
    Decidable (r.Full accountedBytes workCharge) :=
  inferInstanceAs (Decidable (_ ∨ _ ∨ _ ∨ _))

/-- `try_reserve_request_correlation`; `w` is the pipe. -/
def tryReserve (r : RequestCorrelation) (w : Writer) (accountedBytes : ℕ) :
    Except ReserveError Unit × RequestCorrelation :=
  let accountedBytes := charged accountedBytes
  if w.state ≠ .active then (.error .hostUnreachable, r)
  else if w.transportPairWriteHeld || w.remoteFlowBlocked then (.error .again, r)
  else
    let workCharge := requestCorrelationWorkCharge accountedBytes
    if r.Full accountedBytes workCharge then
      (.error (.noBuffers r.releaseEpoch), { r with waiting := true })
    else
      (.ok (),
        { r with
          bytes := r.bytes + accountedBytes
          work := r.work + workCharge
          count := r.count + 1 })

/-- `release_request_correlation`. There is no result where an assertion fails. -/
def release (r : RequestCorrelation) (accountedBytes : ℕ) : Option RequestCorrelation :=
  let workCharge := requestCorrelationWorkCharge accountedBytes
  if accountedBytes ≤ r.bytes ∧ workCharge ≤ r.work ∧ r.count ≠ 0 then
    let r :=
      { r with
        bytes := r.bytes - accountedBytes
        work := r.work - workCharge
        count := r.count - 1 }
    if r.waiting then
      some
        { r with
          releaseEpoch := (r.releaseEpoch + 1) % 2 ^ 64
          waiting := false
          activationPending := true }
    else some r
  else none

def releaseAll (r : RequestCorrelation) : List ℕ → Option RequestCorrelation
  | [] => some r
  | bytes :: rest => do (← r.release bytes).releaseAll rest

/-- The window after a run of calls, and what stands out. A reservation is entered under a key that
depends on its bytes, and each release names the key of one that stands out. -/
inductive Outstanding (key : ℕ → ℕ) : RequestCorrelation → List ℕ → Prop where
  | init : Outstanding key .init []
  | reserved {r r' : RequestCorrelation} {open' : List ℕ} (h : Outstanding key r open') (w : Writer)
      (accountedBytes : ℕ) (hr : r.tryReserve w accountedBytes = (.ok (), r')) :
      Outstanding key r' (key accountedBytes :: open')
  | refused {r r' : RequestCorrelation} {open' : List ℕ} (h : Outstanding key r open') (w : Writer)
      (accountedBytes : ℕ) (e : ReserveError)
      (hr : r.tryReserve w accountedBytes = (.error e, r')) : Outstanding key r' open'
  | released {r r' : RequestCorrelation} {open' : List ℕ} (h : Outstanding key r open')
      {bytes : ℕ} (hmem : bytes ∈ open') (hr : r.release bytes = some r') :
      Outstanding key r' (open'.erase bytes)

structure Totals (r : RequestCorrelation) (l : List ℕ) : Prop where
  bytes : r.bytes = l.sum
  work : r.work = (l.map requestCorrelationWorkCharge).sum
  count : r.count = l.length
  within : r.work ≤ requestCorrelationWorkBudget ∨ l.length = 1

variable {r r' : RequestCorrelation} {w : Writer} {l : List ℕ} {bytes : ℕ} {e : ReserveError}

theorem eq_of_reserved (h : r.tryReserve w bytes = (.ok (), r')) :
    ¬r.Full (charged bytes) (requestCorrelationWorkCharge (charged bytes)) ∧ r' = { r with
        bytes := r.bytes + charged bytes
        work := r.work + requestCorrelationWorkCharge (charged bytes)
        count := r.count + 1 } := by
  simp only [tryReserve] at h
  split at h
  · cases h
  split at h
  · cases h
  split at h
  · cases h
  · rename_i hfull
    exact ⟨hfull, (Prod.mk.inj h).2.symm⟩

theorem eq_of_refused (h : r.tryReserve w bytes = (.error e, r')) :
    r' = { r with waiting := r'.waiting } := by
  simp only [tryReserve] at h
  split at h
  · rw [← (Prod.mk.inj h).2]
  split at h
  · rw [← (Prod.mk.inj h).2]
  split at h
  · rw [← (Prod.mk.inj h).2]
  · cases h

theorem release_eq (hbytes : bytes ≤ r.bytes) (hwork : requestCorrelationWorkCharge bytes ≤ r.work)
    (hcount : r.count ≠ 0) : ∃ epoch waiting pending, r.release bytes = some
      { bytes := r.bytes - bytes, work := r.work - requestCorrelationWorkCharge bytes
        count := r.count - 1
        waiting
        releaseEpoch := epoch
        activationPending := pending } := by
  rw [release, if_pos ⟨hbytes, hwork, hcount⟩]
  dsimp only
  split
  · exact ⟨_, _, _, rfl⟩
  · exact ⟨_, _, _, rfl⟩

namespace Totals

theorem init : Totals .init [] := ⟨rfl, rfl, rfl, .inl (Nat.zero_le _)⟩

theorem reserved (h : Totals r l) (hr : r.tryReserve w bytes = (.ok (), r')) :
    Totals r' (charged bytes :: l) := by
  obtain ⟨hfull, rfl⟩ := eq_of_reserved hr
  rw [Full, not_or, not_or, not_or] at hfull
  obtain ⟨-, -, hroom, -⟩ := hfull
  constructor
  · rw [List.sum_cons, ← h.bytes]
    exact Nat.add_comm _ _
  · rw [List.map_cons, List.sum_cons, ← h.work]
    exact Nat.add_comm _ _
  · rw [List.length_cons, ← h.count]
  · by_cases hempty : r.work = 0 ∧ r.count = 0
    · right
      rw [List.length_cons, ← h.count, hempty.2]
    · left
      have hfits := fun hover => hroom ⟨hempty, hover⟩
      dsimp only
      omega

theorem refused (h : Totals r l) (hr : r.tryReserve w bytes = (.error e, r')) : Totals r' l := by
  rw [eq_of_refused hr]
  exact ⟨h.bytes, h.work, h.count, h.within⟩

theorem release (h : Totals r l) (hmem : bytes ∈ l) :
    ∃ r', r.release bytes = some r' ∧ Totals r' (l.erase bytes) := by
  have hbytes : r.bytes = bytes + (l.erase bytes).sum := by
    rw [h.bytes, List.sum_erase hmem]
  have hwork : r.work = requestCorrelationWorkCharge bytes +
      ((l.erase bytes).map requestCorrelationWorkCharge).sum := by
    rw [h.work, List.sum_map_erase _ hmem]
  have hcount : r.count = (l.erase bytes).length + 1 := by
    rw [h.count, List.length_erase_add_one hmem]
  obtain ⟨epoch, waiting, pending, hr⟩ := release_eq (hbytes ▸ Nat.le_add_right _ _)
    (hwork ▸ Nat.le_add_right _ _) (hcount ▸ Nat.succ_ne_zero _)
  refine ⟨_, hr, ?_, ?_, ?_, ?_⟩
  · change r.bytes - bytes = _
    rw [hbytes, Nat.add_sub_cancel_left]
  · change r.work - requestCorrelationWorkCharge bytes = _
    rw [hwork, Nat.add_sub_cancel_left]
  · change r.count - 1 = _
    rw [hcount, Nat.add_sub_cancel]
  · left
    change r.work - requestCorrelationWorkCharge bytes ≤ _
    rcases h.within with hwithin | hone
    · exact (Nat.sub_le _ _).trans hwithin
    · have hempty : l.erase bytes = [] := by
        rw [← List.length_eq_zero_iff, List.length_erase_of_mem hmem, hone]
      rw [hwork, Nat.add_sub_cancel_left, hempty]
      exact Nat.zero_le _

theorem releaseAll {order : List ℕ} (h : Totals r l) (hperm : order.Perm l) :
    ∃ z, r.releaseAll order = some z ∧ Totals z [] := by
  induction order generalizing r l with
  | nil =>
    obtain rfl := hperm.symm.eq_nil
    exact ⟨r, rfl, h⟩
  | cons bytes order ih =>
    have hmem : bytes ∈ l := hperm.subset List.mem_cons_self
    obtain ⟨r', hr, hr'⟩ := h.release hmem
    obtain ⟨z, hz, hempty⟩ := ih hr' (List.cons_perm_iff_perm_erase.mp hperm).2
    refine ⟨z, ?_, hempty⟩
    rw [RequestCorrelation.releaseAll, hr]
    exact hz

end Totals

theorem Outstanding.totals (h : Outstanding charged r l) : Totals r l := by
  induction h with
  | init => exact .init
  | reserved h w accountedBytes hr ih => exact ih.reserved hr
  | refused h w accountedBytes e hr ih => exact ih.refused hr
  | released h hmem hr ih =>
    obtain ⟨r', hr', htotals⟩ := ih.release hmem
    obtain rfl := Option.some.inj (hr'.symm.trans hr)
    exact htotals

/-- Through every run of calls in which each release gives back what a reservation was charged for,
the window counts what is outstanding, and the work is within its budget unless one reservation
stands alone. No release of what is outstanding meets an assertion, and once all of it has been
released, in whatever order, nothing is left. -/
theorem totals_of_outstanding (h : Outstanding charged r l) :
    r.bytes = l.sum ∧ r.work = (l.map requestCorrelationWorkCharge).sum ∧ r.count = l.length ∧
      (r.work ≤ requestCorrelationWorkBudget ∨ l.length = 1) ∧ ∀ order : List ℕ, order.Perm l →
        ∃ z, r.releaseAll order = some z ∧ z.bytes = 0 ∧ z.work = 0 ∧ z.count = 0 := by
  have htotals := h.totals
  refine ⟨htotals.bytes, htotals.work, htotals.count, htotals.within, fun order hperm => ?_⟩
  obtain ⟨z, hz, hempty⟩ := htotals.releaseAll hperm
  exact ⟨z, hz, hempty.bytes, hempty.work, hempty.count⟩

/-- The window behind one reservation. -/
def holding (bytes work : ℕ) : RequestCorrelation :=
  { init with bytes, work, count := 1 }

/-- A request beyond the budget stands alone, and goes without a trace. -/
theorem totals_of_outstanding_oversize : ∃ r z : RequestCorrelation,
    requestCorrelationWorkBudget < r.work ∧ r.releaseAll [40000] = some z ∧ z.work = 0 := by
  have hrun : Outstanding charged (holding 40000 (requestCorrelationWorkBudget + 1)) [40000] :=
    .reserved .init (Writer.init 0 false false) 40000 (by decide)
  obtain ⟨z, hz, -, hwork, -⟩ := (totals_of_outstanding hrun).2.2.2.2 [40000] (List.Perm.refl _)
  exact ⟨_, z, Nat.lt_succ_self _, hz, hwork⟩

/-- A request of no bytes is charged for one, and its release under its own bytes gives back none:
nothing is outstanding, and still a byte and its work are counted. -/
theorem exists_outstanding_zero :
    ∃ r, Outstanding id r [] ∧ r.bytes ≠ 0 ∧ r.work ≠ 0 ∧ r.count = 0 := by
  have hreserved : Outstanding id (holding 1 1) [0] :=
    .reserved .init (Writer.init 0 false false) 0 (by decide)
  have hreleased : Outstanding id { init with bytes := 1, work := 1 } [] :=
    .released hreserved List.mem_cons_self (by decide)
  exact ⟨_, hreleased, Nat.one_ne_zero, Nat.one_ne_zero, rfl⟩

end RequestCorrelation

end Zlink.Pipe
