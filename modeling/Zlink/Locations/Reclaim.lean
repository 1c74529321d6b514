import Mathlib.Data.List.Basic
import Mathlib.Data.List.Induction
import Mathlib.Data.Nat.Basic
import Mathlib.Logic.Function.Basic
import Mathlib.Tactic.Common

/-!
# Waiting before a record is reclaimed

A record of an owner whose lease is gone may be reclaimed when the owner has been seen dead for
three margins. A location repository keeps one observation for each record: the exact owner, the
time at which it was first seen dead, and the number of the newest read that says so. A number is
taken before the Store is read, and what has been read is reported later, in any order.

The three operations run under one mutex. A report without a number is the newest one:
`reclaim_wait_elapsed` takes a number for it, and no observation has a number that the other two
would give way to. Times are those of a steady clock, in nanoseconds, margins are milliseconds.
-/

namespace Zlink.Locations

/-- `location_owner_token_t`. -/
structure OwnerToken where
  ownerId : String
  leaseGeneration : ℤ
  deriving DecidableEq

structure ReclaimObservation where
  owner : OwnerToken
  at_ : ℕ
  sequence : ℕ

/-- The part of a `location_repository_t` that is behind its reclaim mutex. -/
structure Reclaims where
  observations : String → Option ReclaimObservation
  sequence : ℕ
  margin : ℕ

namespace Reclaims

def new (margin : ℕ) : Reclaims :=
  ⟨fun _ => none, 0, margin⟩

variable (s : Reclaims)

def put (key : String) (x : Option ReclaimObservation) : Reclaims :=
  { s with observations := Function.update s.observations key x }

def reclaimReadSequence : Reclaims × ℕ :=
  ({ s with sequence := s.sequence + 1 }, s.sequence + 1)

def numberFor (readSequence : Option ℕ) : Reclaims × ℕ :=
  match readSequence with
  | some number => (s, number)
  | none => s.reclaimReadSequence

def elapsed (now : ℕ) (x : ReclaimObservation) : Bool :=
  s.margin ≤ (now - x.at_) / 1000000 / 3

def observe (found : Option ReclaimObservation) (now : ℕ) (owner : OwnerToken) (number : ℕ) :
    ReclaimObservation :=
  match found with
  | none => ⟨owner, now, number⟩
  | some x => if x.owner ≠ owner then ⟨owner, now, number⟩ else { x with sequence := number }

def reclaimWaitElapsed (now : ℕ) (key : String) (owner : OwnerToken)
    (ownerLive : Bool) (readSequence : Option ℕ) : Reclaims × Bool :=
  let (s, number) := s.numberFor readSequence
  let found := s.observations key
  let newer := (found.map (·.sequence)).getD 0
  if number < newer ∧ (ownerLive ∨ found.map (·.owner) ≠ some owner) then (s, false)
  else if ownerLive then (s.put key none, false)
  else
    let x := observe found now owner (max number newer)
    (s.put key (some x), s.elapsed now x)

def givesWay (x : ReclaimObservation) (readSequence : Option ℕ) : Bool :=
  readSequence.all fun number => x.sequence ≤ number

def retainReclaimObservation (key : String) (owner : Option OwnerToken)
    (readSequence : Option ℕ) : Reclaims :=
  if (s.observations key).any fun x => givesWay x readSequence && owner ≠ some x.owner
  then s.put key none else s

def removeReclaimObservation (key : String) (owner : OwnerToken)
    (readSequence : Option ℕ) : Reclaims :=
  if (s.observations key).any fun x => givesWay x readSequence && x.owner = owner
  then s.put key none else s

end Reclaims

inductive ReclaimCall where
  | configureReclaimMargin (margin : ℕ)
  | reclaimReadSequence
  | reclaimWaitElapsed (now : ℕ) (key : String) (owner : OwnerToken) (ownerLive : Bool)
      (readSequence : Option ℕ)
  | retainReclaimObservation (key : String) (owner : Option OwnerToken) (readSequence : Option ℕ)
  | removeReclaimObservation (key : String) (owner : OwnerToken) (readSequence : Option ℕ)

namespace Reclaims

def step (s : Reclaims) : ReclaimCall → Reclaims
  | .configureReclaimMargin margin => { s with margin }
  | .reclaimReadSequence => s.reclaimReadSequence.1
  | .reclaimWaitElapsed now key owner ownerLive readSequence =>
    (s.reclaimWaitElapsed now key owner ownerLive readSequence).1
  | .retainReclaimObservation key owner readSequence =>
    s.retainReclaimObservation key owner readSequence
  | .removeReclaimObservation key owner readSequence =>
    s.removeReclaimObservation key owner readSequence

def run (s : Reclaims) (calls : List ReclaimCall) : Reclaims :=
  calls.foldl step s

def number (s : Reclaims) : ReclaimCall → ℕ
  | .reclaimWaitElapsed _ _ _ _ readSequence => (s.numberFor readSequence).2
  | .retainReclaimObservation _ _ readSequence => readSequence.getD s.sequence
  | .removeReclaimObservation _ _ readSequence => readSequence.getD s.sequence
  | _ => 0

end Reclaims

/-- The record was not that of the dead owner when it was read: the owner was alive, there was
another token or no record, or the record of the owner had been removed. -/
def ReclaimCall.contradicts (key : String) (owner : OwnerToken) : ReclaimCall → Bool
  | .reclaimWaitElapsed _ key' owner' ownerLive _ => key' = key && (ownerLive || owner' ≠ owner)
  | .retainReclaimObservation key' owner' _ => key' = key && owner' ≠ some owner
  | .removeReclaimObservation key' owner' _ => key' = key && owner' = owner
  | _ => false

def ReclaimCall.time : ReclaimCall → ℕ
  | .reclaimWaitElapsed now _ _ _ _ => now
  | _ => 0

structure ReclaimStart where
  time : ℕ
  number : ℕ

namespace Reclaims

def startBehind (key : String) (s : Reclaims) (start : Option ReclaimStart) (call : ReclaimCall) :
    Option ReclaimStart :=
  match (s.step call).observations key with
  | none => none
  | some x =>
    if (s.observations key).map (·.owner) = some x.owner then start
    else some ⟨call.time, s.number call⟩

def startOf (key : String) : Reclaims → Option ReclaimStart → List ReclaimCall → Option ReclaimStart
  | _, start, [] => start
  | s, start, call :: calls => startOf key (s.step call) (startBehind key s start call) calls

def contradictions (key : String) (owner : OwnerToken) : Reclaims → List ReclaimCall → List ℕ
  | _, [] => []
  | s, call :: calls =>
    (if call.contradicts key owner then [s.number call] else []) ++
      contradictions key owner (s.step call) calls

end Reclaims

namespace Reclaims

variable {s : Reclaims} {key : String} {owner : OwnerToken} {call : ReclaimCall}
  {x y : ReclaimObservation}

@[simp] theorem put_observations_self (o : Option ReclaimObservation) :
    (s.put key o).observations key = o :=
  Function.update_self ..

theorem put_observations_of_ne {key' : String} (h : key' ≠ key) (o : Option ReclaimObservation) :
    (s.put key' o).observations key = s.observations key :=
  Function.update_of_ne h.symm ..

@[simp] theorem numberFor_observations (readSequence : Option ℕ) :
    (s.numberFor readSequence).1.observations = s.observations := by
  cases readSequence <;> rfl

def newest (s : Reclaims) (key : String) : ℕ :=
  ((s.observations key).map (·.sequence)).getD 0

inductive Leaves (s : Reclaims) (key : String) (call : ReclaimCall) :
    ReclaimObservation → Prop where
  | kept (x y : ReclaimObservation) (found : s.observations key = some x)
      (owner : y.owner = x.owner) (time : y.at_ = x.at_) (sequence : x.sequence ≤ y.sequence)
      (older : call.contradicts key x.owner = true → s.number call < x.sequence) :
      Leaves s key call y
  | started (y : ReclaimObservation) (readSequence : Option ℕ)
      (report : call = .reclaimWaitElapsed y.at_ key y.owner false readSequence)
      (number : y.sequence = s.number call)
      (newest : s.newest key ≤ s.number call)
      (fresh : (s.observations key).map (·.owner) ≠ some y.owner) : Leaves s key call y

theorem Leaves.of_eq (h : s.observations key = some y)
    (hcall : ∀ owner, call.contradicts key owner = false) : Leaves s key call y :=
  .kept y y h rfl rfl (Nat.le_refl _) fun hc => absurd ((hcall _).symm.trans hc) Bool.false_ne_true

theorem leaves_wait (now : ℕ) (readSequence : Option ℕ) (ownerLive : Bool)
    (h : (s.reclaimWaitElapsed now key owner ownerLive readSequence).1.observations key = some y) :
    Leaves s key (.reclaimWaitElapsed now key owner ownerLive readSequence) y := by
  rw [reclaimWaitElapsed] at h
  simp only [numberFor_observations] at h
  split at h
  · -- The report is older than the observation that it contradicts.
    rename_i holder
    rw [numberFor_observations] at h
    refine .kept y y h rfl rfl (Nat.le_refl _) fun _ => ?_
    have hlt := holder.1
    rw [h] at hlt
    exact hlt
  · rename_i hnot
    split at h
    · rw [put_observations_self] at h
      cases h
    · rename_i hdead
      rw [put_observations_self, Option.some.injEq] at h
      rw [Bool.not_eq_true] at hdead
      subst hdead
      cases hfound : s.observations key with
      | none =>
        rw [hfound] at h
        subst h
        refine .started _ readSequence rfl (Nat.max_zero _) ?_ ?_
        · rw [newest, hfound]
          exact Nat.zero_le _
        · rw [hfound]
          exact nofun
      | some x =>
        rw [hfound] at h hnot
        rw [observe] at h
        by_cases howner : x.owner = owner
        · rw [if_neg (not_not.mpr howner)] at h
          subst h
          refine .kept x _ hfound rfl rfl (Nat.le_max_right _ _) fun hcontradicts => ?_
          rw [ReclaimCall.contradicts, ← howner] at hcontradicts
          simp at hcontradicts
        · rw [if_pos howner] at h
          subst h
          have hnewer : x.sequence ≤ (s.numberFor readSequence).2 := by
            refine Nat.le_of_not_lt fun hlt => hnot ⟨hlt, .inr ?_⟩
            exact fun hsame => howner (Option.some.inj hsame)
          refine .started _ readSequence rfl (Nat.max_eq_left hnewer) ?_ ?_
          · rw [newest, hfound]
            exact hnewer
          · rw [hfound]
            exact fun hsame => howner (Option.some.inj hsame)

theorem lt_of_not_givesWay {readSequence : Option ℕ} (h : givesWay x readSequence = false)
    (sequence : ℕ) : readSequence.getD sequence < x.sequence := by
  cases readSequence with
  | none => cases h
  | some number => exact Nat.lt_of_not_le (of_decide_eq_false h)

/-- A report that gives way to the observation, or is about its owner, leaves it. -/
theorem Leaves.of_way {call : ReclaimCall} {readSequence : Option ℕ} {differs : Bool}
    (h : s.observations key = some y)
    (hway : ¬ (givesWay y readSequence && differs) = true)
    (hdiffers : call.contradicts key y.owner = true → differs = true)
    (hnumber : s.number call = readSequence.getD s.sequence) : Leaves s key call y := by
  rw [Bool.not_eq_true, Bool.and_eq_false_iff] at hway
  refine .kept y y h rfl rfl (Nat.le_refl _) fun hcontradicts => ?_
  rcases hway with hway | hsame
  · exact hnumber ▸ lt_of_not_givesWay hway s.sequence
  · exact absurd (hsame.symm.trans (hdiffers hcontradicts)) Bool.false_ne_true

theorem leaves_retain (owner : Option OwnerToken) (readSequence : Option ℕ)
    (h : (s.retainReclaimObservation key owner readSequence).observations key = some y) :
    Leaves s key (.retainReclaimObservation key owner readSequence) y := by
  rw [retainReclaimObservation] at h
  split at h
  · rw [put_observations_self] at h
    cases h
  · rename_i hkept
    rw [h, Option.any_some] at hkept
    exact .of_way h hkept (fun hc => (Bool.and_eq_true_iff.mp hc).2) rfl

theorem leaves_remove (owner : OwnerToken) (readSequence : Option ℕ)
    (h : (s.removeReclaimObservation key owner readSequence).observations key = some y) :
    Leaves s key (.removeReclaimObservation key owner readSequence) y := by
  rw [removeReclaimObservation] at h
  split at h
  · rw [put_observations_self] at h
    cases h
  · rename_i hkept
    rw [h, Option.any_some] at hkept
    refine .of_way h hkept (fun hc => ?_) rfl
    exact decide_eq_true (of_decide_eq_true (Bool.and_eq_true_iff.mp hc).2).symm

theorem wait_observations_of_ne {key' : String} (hkey : key' ≠ key) (now : ℕ)
    (owner : OwnerToken) (ownerLive : Bool) (readSequence : Option ℕ) :
    (s.reclaimWaitElapsed now key' owner ownerLive readSequence).1.observations key =
      s.observations key := by
  rw [reclaimWaitElapsed]
  simp only
  split
  · rw [numberFor_observations]
  · split <;> rw [put_observations_of_ne hkey, numberFor_observations]

theorem leaves_step (h : (s.step call).observations key = some y) : Leaves s key call y := by
  cases call with
  | configureReclaimMargin | reclaimReadSequence => exact .of_eq h fun _ => rfl
  | reclaimWaitElapsed now key' owner ownerLive readSequence =>
    by_cases hkey : key' = key
    · subst hkey
      exact leaves_wait now readSequence ownerLive h
    · refine .of_eq ((wait_observations_of_ne hkey ..).symm.trans h) fun o => ?_
      rw [ReclaimCall.contradicts, decide_eq_false hkey, Bool.false_and]
  | retainReclaimObservation key' owner readSequence =>
    by_cases hkey : key' = key
    · subst hkey
      exact leaves_retain owner readSequence h
    · refine .of_eq (Eq.trans ?_ h) fun o => ?_
      · rw [step, retainReclaimObservation]
        split
        · rw [put_observations_of_ne hkey]
        · rfl
      · rw [ReclaimCall.contradicts, decide_eq_false hkey, Bool.false_and]
  | removeReclaimObservation key' owner readSequence =>
    by_cases hkey : key' = key
    · subst hkey
      exact leaves_remove owner readSequence h
    · refine .of_eq (Eq.trans ?_ h) fun o => ?_
      · rw [step, removeReclaimObservation]
        split
        · rw [put_observations_of_ne hkey]
        · rfl
      · rw [ReclaimCall.contradicts, decide_eq_false hkey, Bool.false_and]

theorem run_concat (s : Reclaims) (calls : List ReclaimCall) (call : ReclaimCall) :
    s.run (calls ++ [call]) = (s.run calls).step call :=
  List.foldl_concat ..

theorem startOf_concat (s : Reclaims) (start : Option ReclaimStart) (calls : List ReclaimCall)
    (call : ReclaimCall) : startOf key s start (calls ++ [call]) =
      startBehind key (s.run calls) (startOf key s start calls) call := by
  induction calls generalizing s start with
  | nil => rfl
  | cons first calls ih => exact ih _ _

theorem contradictions_concat (s : Reclaims) (calls : List ReclaimCall) (call : ReclaimCall) :
    contradictions key owner s (calls ++ [call]) = contradictions key owner s calls ++
        if call.contradicts key owner then [(s.run calls).number call] else [] := by
  induction calls generalizing s with
  | nil => exact List.append_nil _
  | cons first calls ih =>
    rw [List.cons_append, contradictions, contradictions, ih, List.append_assoc]
    rfl

/-- A wait starts behind the reports that contradict it, and a report that an observation
passes over is older than its wait. -/
structure InOrder (margin : ℕ) (before : List ReclaimCall) (call : ReclaimCall) : Prop where
  start : ∀ now key owner readSequence,
    call = .reclaimWaitElapsed now key owner false readSequence →
    (((new margin).run before).observations key).map (·.owner) ≠ some owner →
    ((new margin).run before).newest key ≤ ((new margin).run before).number call →
    ∀ number ∈ contradictions key owner (new margin) before,
      number ≤ ((new margin).run before).number call
  confirmed : ∀ key x start, ((new margin).run before).observations key = some x →
    startOf key (new margin) none before = some start → call.contradicts key x.owner = true →
    ((new margin).run before).number call < x.sequence →
    ((new margin).run before).number call ≤ start.number

variable (margin : ℕ)

def Sound (calls : List ReclaimCall) : Prop :=
  ∀ key x, ((new margin).run calls).observations key = some x →
    ∃ start, startOf key (new margin) none calls = some start ∧ start.time = x.at_ ∧
      start.number ≤ x.sequence ∧
      ∀ number ∈ contradictions key x.owner (new margin) calls, number ≤ start.number

theorem Sound.new : Sound margin [] :=
  nofun

theorem Sound.concat {margin : ℕ} {before : List ReclaimCall} (h : Sound margin before)
    (horder : InOrder margin before call) : Sound margin (before ++ [call]) := by
  intro key y hy
  rw [run_concat] at hy
  rw [startOf_concat, startBehind, hy]
  simp only
  cases leaves_step hy with
  | kept x y found hsame time sequence older =>
    obtain ⟨start, hstart, htime, hnumber, hcontradictions⟩ := h key x found
    rw [if_pos (by rw [found, hsame]; rfl)]
    refine ⟨start, hstart, htime.trans time.symm, Nat.le_trans hnumber sequence, ?_⟩
    intro number hmem
    rw [hsame, contradictions_concat, List.mem_append] at hmem
    rcases hmem with hmem | hmem
    · exact hcontradictions number hmem
    · split at hmem
      · rename_i hcontradicts
        rw [List.mem_singleton.mp hmem]
        exact horder.confirmed key x start found hstart hcontradicts (older hcontradicts)
      · cases hmem
  | started y readSequence report number newest fresh =>
    rw [if_neg fresh]
    refine ⟨_, rfl, ?_, Nat.le_of_eq number.symm, ?_⟩
    · rw [report]
      rfl
    · intro m hmem
      rw [contradictions_concat, List.mem_append] at hmem
      rcases hmem with hmem | hmem
      · exact horder.start _ key y.owner readSequence report fresh newest m hmem
      · rw [report, ReclaimCall.contradicts] at hmem
        simp at hmem

def AllInOrder (calls : List ReclaimCall) : Prop :=
  ∀ before call after, calls = before ++ call :: after → InOrder margin before call

theorem AllInOrder.sound {margin : ℕ} {calls : List ReclaimCall} (h : AllInOrder margin calls) :
    Sound margin calls := by
  induction calls using List.reverseRecOn with
  | nil => exact .new margin
  | append_singleton calls call ih =>
    refine (ih fun before first after hsplit => h before first (after ++ [call]) ?_).concat
      (h calls call [] rfl)
    rw [hsplit, List.append_assoc]
    rfl

def elapsedBehind (s : Reclaims) : ReclaimCall → Bool
  | .reclaimWaitElapsed now key owner ownerLive readSequence =>
    (s.reclaimWaitElapsed now key owner ownerLive readSequence).2
  | _ => false

/-- An owner may be taken to be gone: an observation of exactly this owner is in force, it was
started at least three margins ago, and no read that is newer than the one that has started it
was reported to contradict it. -/
def Justified (before : List ReclaimCall) (call : ReclaimCall) (key : String)
    (owner : OwnerToken) : Prop :=
  ∃ x start, ((new margin).run (before ++ [call])).observations key = some x ∧ x.owner = owner ∧
    startOf key (new margin) none (before ++ [call]) = some start ∧
    3 * ((new margin).run before).margin * 1000000 ≤ call.time - start.time ∧
    ∀ number ∈ contradictions key owner (new margin) before, number ≤ start.number

theorem observe_owner (found : Option ReclaimObservation) (now : ℕ) (owner : OwnerToken)
    (number : ℕ) : (observe found now owner number).owner = owner := by
  cases found with
  | none => rfl
  | some x =>
    rw [observe]
    split
    · rfl
    · rename_i hsame
      exact not_not.mp hsame

theorem observation_of_elapsed {now : ℕ} {ownerLive : Bool} {readSequence : Option ℕ}
    (h : (s.reclaimWaitElapsed now key owner ownerLive readSequence).2 = true) :
    ∃ x, (s.reclaimWaitElapsed now key owner ownerLive readSequence).1.observations key = some x ∧
      x.owner = owner ∧ s.elapsed now x = true := by
  rw [reclaimWaitElapsed] at h ⊢
  simp only at h ⊢
  split at h
  · cases h
  · rename_i hnot
    rw [if_neg hnot]
    split at h
    · cases h
    · rename_i hdead
      rw [if_neg hdead]
      refine ⟨_, put_observations_self _, ?_, ?_⟩
      · exact observe_owner _ now owner _
      · rw [elapsed] at h ⊢
        rw [show (s.numberFor readSequence).1.margin = s.margin by cases readSequence <;> rfl] at h
        exact h

theorem three_margins_le {now : ℕ} (h : s.elapsed now x = true) :
    3 * s.margin * 1000000 ≤ now - x.at_ := by
  have hdiv := of_decide_eq_true h
  rw [Nat.le_div_iff_mul_le (Nat.succ_pos _), Nat.le_div_iff_mul_le (Nat.succ_pos _)] at hdiv
  rwa [Nat.mul_comm 3]

/-- As long as the calls report in order, every answer that the wait is over is justified. -/
theorem justified_of_inOrder (margin : ℕ) (calls : List ReclaimCall)
    (horder : AllInOrder margin calls) (before after : List ReclaimCall) (now : ℕ) (key : String)
    (owner : OwnerToken) (ownerLive : Bool) (readSequence : Option ℕ)
    (hsplit : calls = before ++ .reclaimWaitElapsed now key owner ownerLive readSequence :: after)
    (helapsed : ((new margin).run before).elapsedBehind
      (.reclaimWaitElapsed now key owner ownerLive readSequence) = true) :
    Justified margin before (.reclaimWaitElapsed now key owner ownerLive readSequence) key
      owner := by
  have hsound : Sound margin (before ++ [.reclaimWaitElapsed now key owner ownerLive
      readSequence]) := by
    refine AllInOrder.sound fun front call back hfront => ?_
    refine horder front call (back ++ after) ?_
    rw [hsplit, ← List.cons_append, ← List.append_assoc, ← hfront, List.append_assoc]
    rfl
  obtain ⟨x, hx, howner, hwait⟩ := observation_of_elapsed helapsed
  have hobservation : ((new margin).run (before ++ [.reclaimWaitElapsed now key owner ownerLive
      readSequence])).observations key = some x := by
    rw [run_concat]
    exact hx
  obtain ⟨start, hstart, htime, -, hcontradictions⟩ := hsound key x hobservation
  refine ⟨x, start, hobservation, howner, hstart, ?_, fun number hnumber => ?_⟩
  · rw [htime]
    exact three_margins_le hwait
  · refine hcontradictions number ?_
    rw [howner, contradictions_concat]
    exact List.mem_append_left _ hnumber

theorem AllInOrder.nil : AllInOrder margin [] := by
  intro before call after hsplit
  exact absurd hsplit (by simp)

theorem AllInOrder.concat {margin : ℕ} {calls : List ReclaimCall} (h : AllInOrder margin calls)
    (hcall : InOrder margin calls call) : AllInOrder margin (calls ++ [call]) := by
  intro before first after hsplit
  rcases List.eq_nil_or_concat after with rfl | ⟨front, last, rfl⟩
  · obtain ⟨rfl, hlast⟩ := List.append_inj' hsplit rfl
    rwa [← List.singleton_inj.mp hlast]
  · rw [List.concat_eq_append, ← List.cons_append, ← List.append_assoc] at hsplit
    exact h before first front (List.append_inj' hsplit rfl).1

theorem InOrder.reclaimReadSequence (margin : ℕ) (before : List ReclaimCall) :
    InOrder margin before .reclaimReadSequence :=
  ⟨fun _ _ _ _ => nofun, fun _ _ _ _ _ => nofun⟩

theorem InOrder.reclaimWaitElapsed {margin : ℕ} {before : List ReclaimCall} {now : ℕ}
    {ownerLive : Bool} {readSequence : Option ℕ}
    (hstart : ownerLive = false →
      (((new margin).run before).observations key).map (·.owner) ≠ some owner →
      ∀ number ∈ contradictions key owner (new margin) before,
        number ≤ (((new margin).run before).numberFor readSequence).2)
    (hconfirmed : ∀ x ∈ ((new margin).run before).observations key,
      ∀ start ∈ startOf key (new margin) none before, (ownerLive || owner ≠ x.owner) = true →
        (((new margin).run before).numberFor readSequence).2 < x.sequence →
        (((new margin).run before).numberFor readSequence).2 ≤ start.number) :
    InOrder margin before (.reclaimWaitElapsed now key owner ownerLive readSequence) := by
  refine ⟨?_, fun key' x start hx hfound hcontradicts => ?_⟩
  · rintro _ _ _ _ hcall hnew - number hnumber
    obtain ⟨rfl, rfl, rfl, rfl, rfl⟩ := ReclaimCall.reclaimWaitElapsed.inj hcall
    exact hstart rfl hnew number hnumber
  · rw [ReclaimCall.contradicts, Bool.and_eq_true, decide_eq_true_iff] at hcontradicts
    obtain ⟨rfl, hcontradicts⟩ := hcontradicts
    exact hconfirmed x hx start hfound hcontradicts

/-- A wait that a newer report of the live owner takes back and a second death starts again; the
last report that the owner lives is older than the second death. -/
def deadTwice : List ReclaimCall :=
  [.reclaimReadSequence, .reclaimReadSequence,
    .reclaimWaitElapsed 0 "spot" ⟨"node", 1⟩ false (some 1),
    .reclaimWaitElapsed 1000000000 "spot" ⟨"node", 1⟩ true (some 2),
    .reclaimReadSequence, .reclaimReadSequence,
    .reclaimWaitElapsed 2000000000 "spot" ⟨"node", 1⟩ false (some 4),
    .reclaimWaitElapsed 3000000000 "spot" ⟨"node", 1⟩ true (some 3),
    .reclaimReadSequence]

theorem allInOrder_deadTwice : AllInOrder 5000 (deadTwice ++
    [.reclaimWaitElapsed 17000000000 "spot" ⟨"node", 1⟩ false (some 5)]) :=
  (((((((((((AllInOrder.nil 5000).concat (.reclaimReadSequence ..)).concat
    (.reclaimReadSequence ..)).concat (.reclaimWaitElapsed (by decide) (by decide))).concat
    (.reclaimWaitElapsed (by decide) (by decide))).concat (.reclaimReadSequence ..)).concat
    (.reclaimReadSequence ..)).concat (.reclaimWaitElapsed (by decide) (by decide))).concat
    (.reclaimWaitElapsed (by decide) (by decide))).concat (.reclaimReadSequence ..)).concat
    (.reclaimWaitElapsed (by decide) (by decide)))

theorem justified_deadTwice : Justified 5000 deadTwice
      (.reclaimWaitElapsed 17000000000 "spot" ⟨"node", 1⟩ false (some 5)) "spot" ⟨"node", 1⟩ :=
  justified_of_inOrder 5000 _ allInOrder_deadTwice deadTwice [] 17000000000 "spot" ⟨"node", 1⟩
    false (some 5) rfl (by decide)

/-- The owner of the examples, and the numbers of its reads: the second one finds it alive, and
is reported first. -/
def staleReport : List ReclaimCall :=
  [.reclaimReadSequence, .reclaimReadSequence,
    .reclaimWaitElapsed 0 "spot" ⟨"node", 1⟩ true (some 2),
    .reclaimWaitElapsed 0 "spot" ⟨"node", 1⟩ false (some 1), .reclaimReadSequence]

/-- A report that the owner is dead which is older than one that it is alive starts the wait. -/
theorem not_justified_staleReport : ((new 5000).run staleReport).elapsedBehind
        (.reclaimWaitElapsed 15000000000 "spot" ⟨"node", 1⟩ false (some 3)) = true ∧
      ¬ Justified 5000 staleReport
        (.reclaimWaitElapsed 15000000000 "spot" ⟨"node", 1⟩ false (some 3)) "spot" ⟨"node", 1⟩ := by
  refine ⟨by decide, ?_⟩
  rintro ⟨x, start, -, -, hstart, -, hnumbers⟩
  have htwo := hnumbers 2 (by decide)
  obtain rfl : (⟨0, 1⟩ : ReclaimStart) = start := Option.some.inj hstart
  exact absurd htwo (by decide)

end Reclaims

end Zlink.Locations
