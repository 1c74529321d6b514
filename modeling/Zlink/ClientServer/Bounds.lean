import Zlink.ClientServer.Agreement
import Zlink.Lib.SmoothRounds

/-!
# The credits of the selector

Credits are carried over when the candidates change and only cut to the new total, so they may
all be at the total at once. Selections then lift a credit beyond twice the total: six connections
are enough. What bounds the credits is the harmonic number of the candidates.
-/

namespace Zlink.ClientServer

open SmoothWeighted

namespace Selector

def run (s : Selector) (calls : List Call) : Selector :=
  calls.foldl (fun s call => (s.step call).1) s

def credit (s : Selector) (key : String) : ℤ :=
  s.materializePrecomputedState.credits key

def selections (s : Selector) : ℕ → List (Outcome String)
  | 0 => []
  | n + 1 => s.select.2 :: s.select.1.selections n

end Selector

namespace PlainSelector

def items (p : PlainSelector) : List (String × Share String) :=
  p.candidates.map Candidate.item

def shares (p : PlainSelector) : List (Share String) :=
  p.items.map Prod.snd

def run (p : PlainSelector) (calls : List Call) : PlainSelector :=
  calls.foldl (fun p call => (p.step call).1) p

def selections (p : PlainSelector) : ℕ → List (Outcome String)
  | 0 => []
  | n + 1 => p.select.2 :: p.select.1.selections n

end PlainSelector

def totalOf (candidates : List Candidate) : ℕ :=
  (candidates.map fun candidate => candidate.weight.toNat).sum

/-- The bound on the credits of these candidates leaves room for a weight in an `int64_t`. -/
def Fits (candidates : List Candidate) : Prop :=
  (harmonic candidates.length + 1) * totalOf candidates ≤ maxInt64

theorem Fits.total_le {candidates : List Candidate} (h : Fits candidates) :
    (totalOf candidates : ℤ) ≤ maxInt64 := by
  have hharmonic : 0 ≤ harmonic candidates.length := by
    rw [← harmonic_zero]
    exact Vessels.harmonic_mono (Nat.zero_le _)
  have htotal : (0 : ℚ) ≤ totalOf candidates := Nat.cast_nonneg _
  have hle : (totalOf candidates : ℚ) ≤ maxInt64 :=
    (le_mul_of_one_le_left htotal (by linarith)).trans h
  exact_mod_cast hle

theorem sumWeights_eq_some {candidates : List Candidate} {start : ℕ}
    (h : ((start + totalOf candidates : ℕ) : ℤ) ≤ maxInt64) :
    sumWeights start candidates = some (start + totalOf candidates) := by
  induction candidates generalizing start with
  | nil => rfl
  | cons candidate candidates ih =>
    have hcons : totalOf (candidate :: candidates) =
        candidate.weight.toNat + totalOf candidates := List.sum_cons
    rw [hcons, ← Nat.add_assoc] at h ⊢
    have hroom : ¬ maxInt64 - candidate.weight.toNat < start := by
      push_cast at h
      omega
    rw [sumWeights, if_neg hroom, ih h]

def Shown.Overflows : Shown → Prop
  | .change .exceeded => True
  | .outcome .exhausted _ => True
  | _ => False

theorem Shown.exceeded_of_overflows {x : Change} (h : (Shown.change x).Overflows) :
    x = .exceeded := by
  cases x with
  | unchanged | changed => exact h.elim
  | exceeded => rfl

theorem Shown.exhausted_of_overflows {x : Outcome String} {maximum : ℤ}
    (h : (Shown.outcome x maximum).Overflows) : x = .exhausted := by
  cases x with
  | idle | selected => exact h.elim
  | exhausted => rfl

variable {s : Selector} {p : PlainSelector}

theorem Agrees.run (h : Agrees s p) (calls : List Call) : Agrees (s.run calls) (p.run calls) := by
  induction calls generalizing s p with
  | nil => exact h
  | cons call calls ih =>
    cases call with
    | setCandidates candidates patience => exact ih (h.setCandidates candidates patience).2
    | select => exact ih h.select.2

theorem Agrees.selections (h : Agrees s p) (n : ℕ) : s.selections n = p.selections n := by
  induction n generalizing s p with
  | zero => rfl
  | succ n ih =>
    obtain ⟨hselected, hnext⟩ := h.select
    rw [Selector.selections, PlainSelector.selections, hselected, ih hnext]

theorem Agrees.credit (h : Agrees s p) (key : String) : s.credit key = p.credits key := by
  rw [Selector.credit, h.materialized]

/-- The candidates of a selector are normalized, and its credits are balanced and have room in an
`int64_t`. -/
structure Bounded (p : PlainSelector) : Prop where
  keys : (p.items.map Prod.fst).Nodup
  weights : ∀ x ∈ p.candidates, x.weight ≠ 0
  total : p.total = totalWeight p.shares
  balanced : Balanced p.shares (creditsOf p.credits p.items)
  fits : Fits p.candidates

theorem totalOf_eq (p : PlainSelector) : totalOf p.candidates = totalWeight p.shares := by
  rw [totalOf, totalWeight, PlainSelector.shares, PlainSelector.items, List.map_map, List.map_map]
  rfl

theorem bounded_new : Bounded .new where
  keys := .nil
  weights := by
    intro x hx
    cases hx
  total := rfl
  balanced := balanced_of_range rfl (by
    intro c hc
    cases hc)
  fits := by
    rw [Fits, maxInt64]
    norm_num [totalOf, PlainSelector.new]

namespace Bounded

theorem totalWeight_pos (h : Bounded p) (hne : p.candidates ≠ []) : 0 < totalWeight p.shares := by
  obtain ⟨x, hx⟩ := List.exists_mem_of_ne_nil _ hne
  have hweight : x.weight.toNat ≤ totalOf p.candidates :=
    List.single_le_sum (fun _ _ => Nat.zero_le _) _ (List.mem_map_of_mem hx)
  rw [← totalOf_eq]
  refine lt_of_lt_of_le (Nat.pos_of_ne_zero fun hzero => h.weights x hx ?_) hweight
  exact UInt32.toNat_inj.mp hzero

theorem le_limit (h : Bounded p) :
    ∀ item ∈ p.items, p.credits item.1 + item.2.weight ≤ maxInt64 := by
  intro item hitem
  have hcredit := h.balanced.le (List.mem_map_of_mem hitem)
  have hweight : item.2.weight ≤ totalWeight p.shares :=
    List.single_le_sum (fun _ _ => Nat.zero_le _) _
      (List.mem_map_of_mem (List.mem_map_of_mem hitem))
  have hfits := h.fits
  have hlength : p.shares.length = p.candidates.length := by
    rw [PlainSelector.shares, PlainSelector.items, List.length_map, List.length_map]
  rw [Fits, totalOf_eq, ← hlength] at hfits
  have hweight' : (item.2.weight : ℚ) ≤ totalWeight p.shares := by exact_mod_cast hweight
  have hle : ((p.credits item.1 + item.2.weight : ℤ) : ℚ) ≤ (maxInt64 : ℤ) := by
    push_cast
    linarith
  exact_mod_cast hle

theorem select (h : Bounded p) (hne : p.candidates ≠ []) :
    ∃ i key, selectIndex p.shares (creditsOf p.credits p.items) = some i ∧
      (p.items.map Prod.fst)[i]? = some key ∧ p.select.2 = .selected key ∧
      p.select.1.candidates = p.candidates ∧ creditsOf p.select.1.credits p.items =
        applySelection p.shares (totalWeight p.shares) (creditsOf p.credits p.items) i ∧
      Bounded p.select.1 := by
  have hitems : p.items ≠ [] := fun hnil => hne (List.map_eq_nil_iff.mp hnil)
  have hshares : p.shares ≠ [] := fun hnil => hitems (List.map_eq_nil_iff.mp hnil)
  have hbusy : ¬ (p.candidates = [] ∨ p.total = 0) := by
    rw [not_or]
    refine ⟨hne, ?_⟩
    rw [h.total]
    exact (h.totalWeight_pos hne).ne'
  obtain ⟨i, key, hi, hkey, hselected, hcredits, -⟩ :=
    turn_spec p.total h.keys h.le_limit hitems
  have hselect : p.select = ({ p with credits := (turn maxInt64 p.total p.credits p.items).1 },
        (turn maxInt64 p.total p.credits p.items).2) := if_neg hbusy
  rw [h.total] at hcredits
  rw [hselect, h.total]
  refine ⟨i, key, hi, hkey, h.total ▸ hselected, rfl, hcredits, h.keys, h.weights, rfl, ?_, h.fits⟩
  change Balanced p.shares (creditsOf _ p.items)
  rw [hcredits]
  exact h.balanced.applySelection hshares hi

theorem setCandidates (h : Bounded p) {candidates : List Candidate}
    (hfits : Fits (normalize candidates)) :
    (p.setCandidates candidates).2 ≠ .exceeded ∧ Bounded (p.setCandidates candidates).1 := by
  have htotal : sumWeights 0 (normalize candidates) = some (totalOf (normalize candidates)) := by
    have hsum : sumWeights 0 (normalize candidates) =
        some (0 + totalOf (normalize candidates)) :=
      sumWeights_eq_some (by
        rw [Nat.zero_add]
        exact hfits.total_le)
    rwa [Nat.zero_add] at hsum
  unfold PlainSelector.setCandidates
  dsimp only
  split
  · exact ⟨by simp, h⟩
  · rw [htotal]
    dsimp only
    refine ⟨by simp, ?_, fun x hx => weight_normalize hx,
      totalOf_eq ⟨normalize candidates, 0, fun _ => 0⟩, ?_, hfits⟩
    · change (((normalize candidates).map Candidate.item).map Prod.fst).Nodup
      rw [List.map_map]
      exact keys_normalize candidates
    · refine balanced_of_range ?_ fun c hc => ?_
      · rw [creditsOf, List.length_map, PlainSelector.shares, List.length_map]
      · obtain ⟨item, hitem, rfl⟩ := List.mem_map.mp hc
        have hrange := totalOf_eq ⟨normalize candidates, 0, fun _ => 0⟩
        rw [PlainSelector.shares, PlainSelector.items] at hrange ⊢
        rw [← hrange]
        dsimp only
        split
        · exact clamp_range _
        · omega

theorem selections (h : Bounded p) (hne : p.candidates ≠ []) (n : ℕ) :
    ∃ turns : List ℕ, turns.length = n ∧ (∀ i ∈ turns, i < p.items.length) ∧
      Follows p.shares (totalWeight p.shares) (creditsOf p.credits p.items) turns ∧ p.selections n =
        turns.map fun i => .selected ((p.items.map Prod.fst).getD i "") := by
  induction n generalizing p with
  | zero => exact ⟨[], rfl, by simp, trivial, rfl⟩
  | succ n ih =>
    obtain ⟨i, key, hi, hkey, hselected, hsame, hcredits, hnext⟩ := h.select hne
    have hitems : p.select.1.items = p.items := congrArg (List.map Candidate.item) hsame
    have hshares : p.select.1.shares = p.shares := congrArg (List.map Prod.snd) hitems
    obtain ⟨turns, hlength, hturns, hfollows, hrest⟩ := ih hnext (hsame ▸ hne)
    rw [hshares, hitems, hcredits] at hfollows
    rw [hitems] at hturns
    have hlt : i < p.items.length := by
      have hlt := (List.getElem?_eq_some_iff.mp hkey).1
      rwa [List.length_map] at hlt
    refine ⟨i :: turns, congrArg Nat.succ hlength, List.forall_mem_cons.mpr ⟨hlt, hturns⟩,
      ⟨hi, hfollows⟩, ?_⟩
    rw [PlainSelector.selections, hselected, hrest, hitems, List.map_cons,
      List.getD_eq_getElem?_getD, hkey]
    rfl

theorem run (h : Bounded p) {calls : List Call}
    (hfits : ∀ candidates patience, .setCandidates candidates patience ∈ calls →
      Fits (normalize candidates)) :
    Bounded (p.run calls) ∧ ∀ shown ∈ p.shown calls, ¬ shown.Overflows := by
  induction calls generalizing p with
  | nil => exact ⟨h, by simp [PlainSelector.shown]⟩
  | cons call calls ih =>
    have hstep : Bounded (p.step call).1 ∧ ¬ (p.step call).2.Overflows := by
      cases call with
      | setCandidates candidates patience =>
        obtain ⟨hshown, hnext⟩ :=
          h.setCandidates (hfits candidates patience List.mem_cons_self)
        refine ⟨hnext, fun hover => hshown ?_⟩
        exact Shown.exceeded_of_overflows hover
      | select =>
        by_cases hne : p.candidates = []
        · have hselect : p.select = (p, .idle) := if_pos (.inl hne)
          rw [PlainSelector.step, hselect]
          exact ⟨h, id⟩
        · obtain ⟨i, key, -, -, hselected, -, -, hnext⟩ := h.select hne
          refine ⟨hnext, fun hover => ?_⟩
          have hexhausted : p.select.2 = .exhausted := Shown.exhausted_of_overflows hover
          rw [hselected] at hexhausted
          cases hexhausted
    obtain ⟨hrun, hshown⟩ := ih hstep.1 fun candidates patience hcall =>
      hfits candidates patience (List.mem_cons_of_mem _ hcall)
    exact ⟨hrun, List.forall_mem_cons.mpr ⟨hstep.2, hshown⟩⟩

end Bounded

theorem fits_of_le {candidates : List Candidate}
    (h : totalOf (normalize candidates) ≤ 2 ^ 57) : Fits (normalize candidates) := by
  have hfew : (normalize candidates).length ≤ totalOf (normalize candidates) := by
    have hle := List.length_le_sum_of_one_le
      ((normalize candidates).map fun x => x.weight.toNat) (List.forall_mem_map.mpr fun x hx =>
        Nat.pos_of_ne_zero fun hzero => weight_normalize hx (UInt32.toNat_inj.mp hzero))
    rwa [List.length_map] at hle
  have hlog : (harmonic (2 ^ 57) : ℝ) ≤ 41 := by
    have hle := harmonic_le_one_add_log (2 ^ 57)
    have htwo := Real.log_two_lt_d9
    rw [Nat.cast_pow, Real.log_pow, Nat.cast_ofNat, Nat.cast_ofNat] at hle
    linarith
  have hharmonic : harmonic (normalize candidates).length ≤ 41 := by
    refine (Vessels.harmonic_mono (hfew.trans h)).trans ?_
    exact_mod_cast hlog
  have htotal : (totalOf (normalize candidates) : ℚ) ≤ 2 ^ 57 := by exact_mod_cast h
  have hnonneg : (0 : ℚ) ≤ totalOf (normalize candidates) := Nat.cast_nonneg _
  calc (harmonic (normalize candidates).length + 1) * totalOf (normalize candidates)
      ≤ (41 + 1) * totalOf (normalize candidates) :=
        mul_le_mul_of_nonneg_right (by linarith) hnonneg
    _ ≤ (41 + 1) * 2 ^ 57 := by linarith
    _ ≤ maxInt64 := by norm_num [maxInt64]

namespace Selector

def CreditsBounded (s : Selector) : Prop :=
  ∀ x ∈ s.candidates, -2 * (s.total : ℤ) ≤ s.credit x.key ∧
    (s.credit x.key : ℚ) ≤ harmonic s.candidates.length * s.total

def Proportional (s : Selector) : Prop :=
  ∀ n, ∀ x ∈ s.candidates,
    ((s.selections (n + s.total)).drop n).count (.selected x.key) = x.weight.toNat

end Selector

theorem Agrees.creditsBounded (h : Agrees s p) (hp : Bounded p) : s.CreditsBounded := by
  intro x hx
  rw [← h.candidates] at hx
  have hmem : p.credits x.key ∈ creditsOf p.credits p.items :=
    List.mem_map_of_mem (List.mem_map_of_mem hx)
  have hge := hp.balanced.ge _ hmem
  have hle := hp.balanced.le hmem
  have hlength : p.shares.length = p.candidates.length := by
    rw [PlainSelector.shares, PlainSelector.items, List.length_map, List.length_map]
  rw [← hp.total, hlength] at hle
  rw [← hp.total] at hge
  rw [h.credit, ← h.total, ← h.candidates]
  exact ⟨by linarith, by linarith⟩

theorem Agrees.proportional (h : Agrees s p) (hp : Bounded p)
    (hzero : ∀ x ∈ s.candidates, s.credit x.key = 0) : s.Proportional := by
  intro n x hx
  rw [← h.candidates] at hx hzero
  rw [h.selections, ← h.total]
  have hne : p.candidates ≠ [] := List.ne_nil_of_mem hx
  have hcredits : creditsOf p.credits p.items = zeros p.shares := by
    have hall : ∀ c ∈ creditsOf p.credits p.items, c = 0 := by
      intro c hc
      obtain ⟨item, hitem, rfl⟩ := List.mem_map.mp hc
      obtain ⟨y, hy, rfl⟩ := List.mem_map.mp hitem
      rw [← hzero y hy]
      exact (h.credit y.key).symm
    have hreplicate := List.eq_replicate_of_mem hall
    rwa [hp.balanced.length] at hreplicate
  obtain ⟨turns, hlength, hturns, hfollows, hselections⟩ := hp.selections hne (n + p.total)
  rw [hcredits] at hfollows
  obtain ⟨i, hi⟩ := List.mem_iff_getElem?.mp (List.mem_map_of_mem (f := Candidate.item) hx)
  have hshare : p.shares[i]? = some x.item.2 := by
    rw [PlainSelector.shares, List.getElem?_map]
    exact congrArg _ hi
  have hcount := hfollows.count_drop n (hp.total ▸ hlength) (hp.totalWeight_pos hne) hshare
  rw [hselections, ← List.map_drop, ← show x.item.2.weight = x.weight.toNat from rfl, ← hcount,
    List.count, List.countP_map, List.count]
  -- the names of the connections are different
  refine List.countP_congr fun j hj => ?_
  have hlt := hturns j (List.mem_of_mem_drop hj)
  have hat : (p.items.map Prod.fst)[i]? = some x.key := by
    rw [List.getElem?_map]
    exact congrArg (Option.map Prod.fst) hi
  have hkey : (p.items.map Prod.fst)[j]? = some ((p.items.map Prod.fst).getD j "") := by
    rw [List.getD_eq_getElem?_getD, List.getElem?_eq_getElem (by rwa [List.length_map])]
    rfl
  rw [Function.comp_apply, beq_iff_eq, beq_iff_eq]
  constructor
  · intro hsame
    rw [Outcome.selected.inj hsame, ← hat] at hkey
    exact (List.getElem?_inj (by rwa [List.length_map]) hp.keys).mp hkey
  · rintro rfl
    rw [Option.some.inj (hkey.symm.trans hat)]

/-- While the candidates have room the credits are bounded and there is no overflow, and from
credits of zero the selections are proportional. -/
theorem selector_credits :
    (∀ candidates, totalOf (normalize candidates) ≤ 2 ^ 57 → Fits (normalize candidates)) ∧
    ∀ calls, (∀ candidates patience, .setCandidates candidates patience ∈ calls →
        Fits (normalize candidates)) → (Selector.new.run calls).CreditsBounded ∧
      (∀ shown ∈ Selector.new.shown calls, ¬ shown.Overflows) ∧
      ((∀ x ∈ (Selector.new.run calls).candidates, (Selector.new.run calls).credit x.key = 0) →
        (Selector.new.run calls).Proportional) := by
  refine ⟨fun candidates => fits_of_le, fun calls hfits => ?_⟩
  have hagrees := agrees_new.run calls
  obtain ⟨hbounded, hshown⟩ := bounded_new.run hfits
  rw [agrees_new.shown calls]
  exact ⟨hagrees.creditsBounded hbounded, hshown, hagrees.proportional hbounded⟩

def twoConnections : List Candidate :=
  [⟨"a", 2, ""⟩, ⟨"b", 1, ""⟩]

/-- Selections between which a candidate joins, and others take the place of all. -/
def changingConnections : List Call :=
  [.setCandidates twoConnections 4096, .select,
    .setCandidates (⟨"c", 1, ""⟩ :: twoConnections) 4096, .select,
    .setCandidates [⟨"d", 3, ""⟩, ⟨"e", 1, ""⟩] 4096] ++ List.replicate 4 .select

/-- Behind four selections the credits of the last two candidates are zero again. -/
theorem selector_credits_two : (Selector.new.run changingConnections).CreditsBounded ∧
      (∀ shown ∈ Selector.new.shown changingConnections, ¬ shown.Overflows) ∧
      (Selector.new.run changingConnections).Proportional := by
  obtain ⟨hbounded, hshown, hproportional⟩ :=
    selector_credits.2 changingConnections (by
      intro candidates patience hcall
      simp only [changingConnections, List.mem_append, List.mem_cons, Call.setCandidates.injEq,
        reduceCtorEq, List.not_mem_nil, List.mem_replicate, and_false, false_or, or_false] at hcall
      refine selector_credits.1 candidates ?_
      rcases hcall with ⟨rfl, -⟩ | ⟨rfl, -⟩ | ⟨rfl, -⟩ <;> decide +kernel)
  exact ⟨hbounded, hshown, hproportional (by decide +kernel)⟩

def passedOver : List Candidate :=
  [⟨"a", 18, ""⟩, ⟨"b", 18, ""⟩, ⟨"c", 18, ""⟩, ⟨"d", 18, ""⟩, ⟨"e", 18, ""⟩, ⟨"f", 18, ""⟩,
    ⟨"g", 19, ""⟩]

/-- They have all the credit that there can be when their weights change to these. -/
def sixConnections : List Candidate :=
  [⟨"a", 1, ""⟩, ⟨"b", 1, ""⟩, ⟨"c", 1, ""⟩, ⟨"d", 5, ""⟩, ⟨"e", 5, ""⟩, ⟨"f", 5, ""⟩]

def aboveTwice : List Call :=
  [.setCandidates passedOver 4096, .select, .setCandidates sixConnections 4096] ++
    List.replicate 11 .select

/-- The credit of a connection is above twice the total, which is 18. -/
theorem credit_above_twice : ¬ ∀ calls : List Call, (Selector.new.run calls).total ≤ 2 ^ 61 →
      ∀ x ∈ (Selector.new.run calls).candidates,
        -2 * ((Selector.new.run calls).total : ℤ) ≤ (Selector.new.run calls).credit x.key ∧
          (Selector.new.run calls).credit x.key ≤ 2 * (Selector.new.run calls).total := by
  intro h
  have hall := h aboveTwice
  have hagrees := agrees_new.run aboveTwice
  have habove : ∃ x ∈ (PlainSelector.new.run aboveTwice).candidates,
      2 * ((PlainSelector.new.run aboveTwice).total : ℤ) <
        (PlainSelector.new.run aboveTwice).credits x.key := by
    decide +kernel
  have htotal : (PlainSelector.new.run aboveTwice).total ≤ 2 ^ 61 := by decide +kernel
  rw [← hagrees.total, ← hagrees.candidates] at hall
  obtain ⟨x, hx, hlt⟩ := habove
  have hle := (hall htotal x hx).2
  rw [hagrees.credit] at hle
  exact absurd hle (not_le.mpr hlt)

end Zlink.ClientServer
