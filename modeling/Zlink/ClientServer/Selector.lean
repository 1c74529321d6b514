import Zlink.ClientServer.Schedule
import Zlink.Lib.Ordered

/-!
# The selector of the client

`smooth_weighted_selector_t` selects among the connections of a client. With a precomputed
schedule a selection is only a step of a cursor, and the credits are worked out from the counts
of the selections when the candidates change. Beside it stands the plain selector, which goes
over the candidates in every selection.

Credits that are not in the map are zero, as they are when they are read, and credits are exact
integers. The bound on what is reached stands in the agreement of the two.
-/

namespace Zlink.ClientServer

open SmoothWeighted

def maxInt64 : ℤ :=
  2 ^ 63 - 1

/-- `weighted_candidate_t`. -/
structure Candidate where
  key : String
  weight : UInt32
  tieBreakKey : String
  deriving DecidableEq

def Candidate.item (x : Candidate) : String × Share String :=
  (x.key, ⟨x.weight.toNat, x.tieBreakKey⟩)

def insertCandidate (normalized : OrderedMap String Candidate) (candidate : Candidate) :
    OrderedMap String Candidate :=
  if candidate.weight = 0 then normalized
  else
    let value :=
      if candidate.tieBreakKey = "" then { candidate with tieBreakKey := candidate.key }
      else candidate
    normalized.insertOrAssign value.key value

def normalize (candidates : List Candidate) : List Candidate :=
  (candidates.foldl insertCandidate .empty).entries.map Prod.snd

/-- The total weight, unless it exceeds an `int64_t`. -/
def sumWeights (total : ℕ) : List Candidate → Option ℕ
  | [] => some total
  | candidate :: candidates =>
    if maxInt64 - candidate.weight.toNat < total then none
    else sumWeights (total + candidate.weight.toNat) candidates

def clamp (low high x : ℤ) : ℤ :=
  if x < low then low else if high < x then high else x

structure Precomputed where
  initialCredits : List ℤ
  cycleStartCredits : List ℤ
  schedule : List ℕ
  selectedCounts : List ℕ
  totalSelections : ℕ
  cursor : ℕ
  cycleStart : ℕ
  scheduleEnd : ℕ

/-- `smooth_weighted_selector_t`. -/
structure Selector where
  candidates : List Candidate
  total : ℕ
  credits : String → ℤ
  precomputed : Option Precomputed

/-- What `set_candidates` makes of the credits. -/
inductive Change where
  | unchanged
  | exceeded
  | changed (credits : String → ℤ) (maximum : ℤ)

namespace Selector

def new : Selector :=
  ⟨[], 0, fun _ => 0, none⟩

variable (s : Selector)

def items : List (String × Share String) :=
  s.candidates.map Candidate.item

def shares : List (Share String) :=
  s.items.map Prod.snd

def selectIndex (s : Selector) (credits : List ℤ) : Option ℕ :=
  if s.candidates = [] ∨ s.total = 0 then none else SmoothWeighted.selectIndex s.shares credits

def applySelection (s : Selector) (credits : List ℤ) (selected : ℕ) : List ℤ :=
  SmoothWeighted.applySelection s.shares s.total credits selected

def currentPrecomputedCredit (x : Precomputed) (index : ℕ) : ℤ :=
  x.initialCredits.getD index 0 +
      x.totalSelections * ((s.shares.map Share.weight).getD index 0 : ℕ) -
    (x.selectedCounts.getD index 0 : ℕ) * s.total

def materializePrecomputedState : Selector :=
  match s.precomputed with
  | none => s
  | some x =>
    let current := (List.range s.candidates.length).map (s.currentPrecomputedCredit x)
    { s with
      credits := assign s.credits (s.candidates.map Candidate.key) current
      precomputed := none }

def rebuildPrecomputedSchedule (patience : ℕ) : Selector :=
  if s.candidates = [] ∨ s.total = 0 then { s with precomputed := none }
  else
    let initial := s.candidates.map fun candidate => s.credits candidate.key
    let built := precomputeWeightedSchedule s.selectIndex s.applySelection initial patience
    { s with
      precomputed := built.map fun (schedule, cycleStart) =>
        { initialCredits := initial
          cycleStartCredits := (schedule.take cycleStart).foldl s.applySelection initial
          schedule := schedule
          selectedCounts := List.replicate s.candidates.length 0
          totalSelections := 0
          cursor := 0
          cycleStart := cycleStart
          scheduleEnd := schedule.length } }

def maximumAbsoluteCredit : ℤ :=
  match s.precomputed with
  | some x => ((List.range s.candidates.length).map fun index =>
    |s.currentPrecomputedCredit x index|).foldl max 0
  | none => (s.candidates.map fun candidate => |s.credits candidate.key|).foldl max 0

/-- `patience` is that of the precomputation, if there is one. -/
def setCandidates (candidates : List Candidate) (patience : ℕ) : Selector × Change :=
  let next := normalize candidates
  if next = s.candidates then (s, .unchanged)
  else
    match sumWeights 0 next with
    | none => (s, .exceeded)
    | some total =>
      let materialized := s.materializePrecomputedState
      let credits := fun key =>
        if key ∈ next.map Candidate.key then clamp (-total) total (materialized.credits key)
        else 0
      let rebuilt :=
        Selector.rebuildPrecomputedSchedule ⟨next, total, credits, none⟩ patience
      (rebuilt, .changed rebuilt.credits rebuilt.maximumAbsoluteCredit)

def replay (x : Precomputed) : Precomputed × Outcome String :=
  match x.schedule[x.cursor]? with
  | none => (x, .idle)
  | some selectedIndex =>
    match s.candidates[selectedIndex]? with
    | none => (x, .idle)
    | some candidate =>
      let next :=
        if x.cursor + 1 = x.scheduleEnd then
          { x with
            initialCredits := x.cycleStartCredits
            selectedCounts := List.replicate s.candidates.length 0
            totalSelections := 0
            cursor := x.cycleStart }
        else
          { x with
            selectedCounts := x.selectedCounts.modify selectedIndex (· + 1)
            totalSelections := x.totalSelections + 1
            cursor := x.cursor + 1 }
      (next, .selected candidate.key)

def select : Selector × Outcome String :=
  if s.candidates = [] ∨ s.total = 0 then (s, .idle)
  else
    match s.precomputed with
    | some x =>
      let (next, outcome) := s.replay x
      ({ s with precomputed := some next }, outcome)
    | none =>
      let (credits, outcome) := turn maxInt64 s.total s.credits s.items
      ({ s with credits }, outcome)

end Selector

structure PlainSelector where
  candidates : List Candidate
  total : ℕ
  credits : String → ℤ

namespace PlainSelector

def new : PlainSelector :=
  ⟨[], 0, fun _ => 0⟩

def maximumAbsoluteCredit (s : PlainSelector) : ℤ :=
  (s.candidates.map fun candidate => |s.credits candidate.key|).foldl max 0

def setCandidates (s : PlainSelector) (candidates : List Candidate) : PlainSelector × Change :=
  let next := normalize candidates
  if next = s.candidates then (s, .unchanged)
  else
    match sumWeights 0 next with
    | none => (s, .exceeded)
    | some total =>
      let changed : PlainSelector :=
        ⟨next, total, fun key =>
          if key ∈ next.map Candidate.key then clamp (-total) total (s.credits key) else 0⟩
      (changed, .changed changed.credits changed.maximumAbsoluteCredit)

def select (s : PlainSelector) : PlainSelector × Outcome String :=
  if s.candidates = [] ∨ s.total = 0 then (s, .idle)
  else
    let (credits, outcome) :=
      turn maxInt64 s.total s.credits (s.candidates.map Candidate.item)
    ({ s with credits }, outcome)

end PlainSelector

/-- The calls of a selector. `patience` says when the precomputation gives up. -/
inductive Call where
  | setCandidates (candidates : List Candidate) (patience : ℕ)
  | select

inductive Shown where
  | change (x : Change)
  | outcome (x : Outcome String) (maximum : ℤ)

namespace Selector

def step (s : Selector) : Call → Selector × Shown
  | .setCandidates candidates patience =>
    let (next, change) := s.setCandidates candidates patience
    (next, .change change)
  | .select =>
    let (next, outcome) := s.select
    (next, .outcome outcome next.maximumAbsoluteCredit)

def shown (s : Selector) : List Call → List Shown
  | [] => []
  | call :: calls => (s.step call).2 :: (s.step call).1.shown calls

end Selector

namespace PlainSelector

def step (s : PlainSelector) : Call → PlainSelector × Shown
  | .setCandidates candidates _ =>
    let (next, change) := s.setCandidates candidates
    (next, .change change)
  | .select =>
    let (next, outcome) := s.select
    (next, .outcome outcome next.maximumAbsoluteCredit)

def shown (s : PlainSelector) : List Call → List Shown
  | [] => []
  | call :: calls => (s.step call).2 :: (s.step call).1.shown calls

end PlainSelector

end Zlink.ClientServer
