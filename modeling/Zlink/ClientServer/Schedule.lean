import Zlink.Lib.SmoothWeighted

/-!
# Precomputed schedules

Smooth weighted selection is simulated until its credits come back. The selections up to there
are a schedule with the place where its cycle starts, and replaying it selects what the
simulation selects, for ever.
-/

namespace Zlink.ClientServer

open SmoothWeighted

def maxPrecomputedSteps : ℕ :=
  4096

section Precompute

variable {S : Type} [DecidableEq S] (select : S → Option ℕ) (apply : S → ℕ → S)

/-- The loop of `precompute_weighted_schedule`. The states seen so far stand in their order, and
`patience` is the number of steps that begin before `max_precompute_time` is over. -/
def precomputeFrom : (steps patience : ℕ) → (simulated : S) → (seen : List S) →
    (schedule : List ℕ) → Option (List ℕ × ℕ)
  | 0, _, _, _, _ => none
  | _ + 1, 0, _, _, _ => none
  | steps + 1, patience + 1, simulated, seen, schedule =>
    match seen.findIdx? fun x => x = simulated with
    | some cycleStart => some (schedule, cycleStart)
    | none =>
      match select simulated with
      | none => none
      | some selected =>
        precomputeFrom steps patience (apply simulated selected) (seen ++ [simulated])
          (schedule ++ [selected])

def precomputeWeightedSchedule (initial : S) (patience : ℕ) : Option (List ℕ × ℕ) :=
  precomputeFrom select apply maxPrecomputedSteps patience initial [] []

end Precompute

variable {T : Type} [LinearOrder T] {shares : List (Share T)} {total : ℤ} {initial : List ℤ}
  {schedule : List ℕ} {cycleStart cursor i : ℕ}

structure Cycle (shares : List (Share T)) (total : ℤ) (initial : List ℤ) (schedule : List ℕ)
    (cycleStart : ℕ) : Prop where
  follows : Follows shares total initial schedule
  start_lt : cycleStart < schedule.length
  returns : after shares total initial schedule =
    after shares total initial (schedule.take cycleStart)
  length_le : schedule.length ≤ maxPrecomputedSteps

theorem cycle_of_precomputeFrom (schedule : List ℕ) (patience : ℕ) {steps : ℕ}
    {schedule' : List ℕ}
    (hfollows : Follows shares total initial schedule)
    (hsteps : steps + schedule.length ≤ maxPrecomputedSteps)
    (h : precomputeFrom (selectIndex shares) (applySelection shares total) steps patience
      (after shares total initial schedule)
      ((List.range schedule.length).map fun j => after shares total initial (schedule.take j))
      schedule = some (schedule', cycleStart)) :
    Cycle shares total initial schedule' cycleStart := by
  induction steps generalizing schedule patience with
  | zero => cases h
  | succ steps ih =>
    cases patience with
    | zero => cases h
    | succ patience =>
      rw [precomputeFrom] at h
      split at h
      · rename_i start hseen
        obtain ⟨rfl, rfl⟩ := Prod.mk.inj (Option.some.inj h)
        obtain ⟨hlt, hat, -⟩ := List.findIdx?_eq_some_iff_getElem.mp hseen
        rw [List.length_map, List.length_range] at hlt
        refine ⟨hfollows, hlt, ?_, by omega⟩
        simpa using (of_decide_eq_true hat).symm
      · split at h
        · cases h
        · rename_i selected hselected
          refine ih (schedule ++ [selected]) patience
            (follows_append.mpr ⟨hfollows, hselected, trivial⟩) ?_ ?_
          · rw [List.length_append, List.length_singleton]
            omega
          · -- the states seen so far are those before each entry of the schedule
            have hseen : (List.range (schedule ++ [selected]).length).map
                  (fun j => after shares total initial ((schedule ++ [selected]).take j)) =
                (List.range schedule.length).map
                    (fun j => after shares total initial (schedule.take j)) ++
                  [after shares total initial schedule] := by
              rw [List.length_append, List.length_singleton, List.range_succ, List.map_append,
                List.map_singleton, List.take_left]
              refine congrArg (· ++ _) (List.map_congr_left fun j hj => ?_)
              rw [List.take_append_of_le_length (List.mem_range.mp hj).le]
            rw [hseen, after_append]
            exact h

theorem cycle_of_precompute {patience : ℕ}
    (h : precomputeWeightedSchedule (selectIndex shares) (applySelection shares total) initial
      patience = some (schedule, cycleStart)) : Cycle shares total initial schedule cycleStart :=
  cycle_of_precomputeFrom [] patience trivial le_rfl h

namespace Cycle

def next (schedule : List ℕ) (cycleStart cursor : ℕ) : ℕ :=
  if cursor + 1 = schedule.length then cycleStart else cursor + 1

theorem next_lt (h : Cycle shares total initial schedule cycleStart)
    (hcursor : cursor < schedule.length) : next schedule cycleStart cursor < schedule.length := by
  unfold next
  split
  · exact h.start_lt
  · omega

theorem replay (h : Cycle shares total initial schedule cycleStart)
    (hi : schedule[cursor]? = some i) :
    selectIndex shares (after shares total initial (schedule.take cursor)) = some i ∧
      after shares total initial (schedule.take (next schedule cycleStart cursor)) =
        applySelection shares total (after shares total initial (schedule.take cursor)) i := by
  refine ⟨h.follows.selectIndex_take hi, ?_⟩
  rw [← after_take_succ hi, next]
  split
  · rename_i hend
    rw [hend, List.take_length]
    exact h.returns.symm
  · rfl

theorem length_shares_le (h : Cycle shares total initial schedule cycleStart)
    (hlength : initial.length = shares.length) (hweights : ∀ s ∈ shares, 0 < s.weight) :
    shares.length ≤ maxPrecomputedSteps := by
  have hstart : (after shares total initial (schedule.take cycleStart)).length = shares.length :=
    length_after hlength _
  have hcycle : after shares total (after shares total initial (schedule.take cycleStart))
      (schedule.drop cycleStart) = after shares total initial (schedule.take cycleStart) := by
    rw [← after_append, List.take_append_drop]
    exact h.returns
  have hne : schedule.drop cycleStart ≠ [] := by
    rw [← List.length_pos_iff, List.length_drop]
    exact Nat.sub_pos_of_lt h.start_lt
  calc shares.length ≤ (schedule.drop cycleStart).length :=
        length_le_of_cycle hstart hcycle hne hweights
    _ ≤ schedule.length := by rw [List.length_drop]; exact Nat.sub_le _ _
    _ ≤ maxPrecomputedSteps := h.length_le

end Cycle

end Zlink.ClientServer
