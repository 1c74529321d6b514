import Zlink.Lib.Trace
import Zlink.Subscription.Sweep

/-!
# The multi-trie as a map, and the count of its prefixes

A `Book` says which pipes every prefix has and how many prefixes have been counted: one
more for every prefix that gets its first pipe, one less for every prefix that a removal
from that prefix alone leaves without pipes. Removing a pipe from all prefixes does not
change the count, so it stays above the number of the prefixes that have pipes.
-/

namespace Zlink.Subscription

namespace Mtrie

variable {P : Type} [LinearOrder P]

inductive Op (P : Type) where
  | add (pipe : P) (p : List UInt8)
  | rm (pipe : P) (p : List UInt8)
  | rmAll (pipe : P) (callOnUniq : Bool)
  | matchData (data : List UInt8)

/-- What an operation returns, or with what it calls the function it is given. -/
inductive Answer (P : Type) where
  | added (first : Bool)
  | removed (ret : RmResult)
  | called (out : List (List UInt8))
  | matched (out : List P)

def Root.perform (fuel : ℕ) (r : Root P) : Op P → Option (Root P × Answer P)
  | .add pipe p => some ((r.add pipe p).1, .added (r.add pipe p).2)
  | .rm pipe p => (r.rm pipe p).map fun (r, ret) => (r, .removed ret)
  | .rmAll pipe uniq => (r.rmAll pipe uniq fuel).map fun (r, out) => (r, .called out)
  | .matchData data => some (r, .matched (r.matchData data))

structure Session (P : Type) where
  root : Root P
  answers : List (Answer P)

namespace Session

def init : Session P :=
  { root := Root.empty, answers := [] }

def step (fuel : ℕ) (y : Session P) (op : Op P) : Option (Session P) :=
  (y.root.perform fuel op).map fun (r, a) => { root := r, answers := y.answers ++ [a] }

end Session

structure Book (P : Type) where
  pipes : List UInt8 → Finset P
  counted : ℕ

namespace Book

variable {b : Book P} {pipe : P} {p : List UInt8} {op : Op P}

def init : Book P :=
  { pipes := fun _ => ∅, counted := 0 }

def perform (b : Book P) : Op P → Book P
  | .add pipe p =>
    { pipes := Function.update b.pipes p (insert pipe (b.pipes p))
      counted := if b.pipes p = ∅ then b.counted + 1 else b.counted }
  | .rm pipe p =>
    { pipes := Function.update b.pipes p ((b.pipes p).erase pipe)
      counted := if b.pipes p = {pipe} then b.counted - 1 else b.counted }
  | .rmAll pipe _ => { b with pipes := fun q => (b.pipes q).erase pipe }
  | .matchData _ => b

instance isTransLe : IsTrans P (· ≤ ·) :=
  ⟨fun _ _ _ => le_trans⟩

instance antisymmLe : Std.Antisymm fun p q : P => p ≤ q :=
  ⟨fun _ _ => le_antisymm⟩

def Answered (b : Book P) : Op P → Answer P → Prop
  | .add _ p, .added first => first = decide (b.pipes p = ∅)
  | .rm pipe p, .removed ret => ret = removal (b.pipes p) pipe
  | .rmAll pipe uniq, .called out =>
    out.Nodup ∧ ∀ p, p ∈ out ↔ pipe ∈ b.pipes p ∧ (uniq = true → b.pipes p = {pipe})
  | .matchData data, .matched out =>
    out = data.inits.flatMap fun p => (b.pipes p).sort (· ≤ ·)
  | _, _ => False

def Answers (b : Book P) : List (Op P) → List (Answer P) → Prop
  | [], [] => True
  | op :: ops, a :: answers => b.Answered op a ∧ (b.perform op).Answers ops answers
  | _, _ => False

def live (b : Book P) : Set (List UInt8) :=
  { q | b.pipes q ≠ ∅ }

/-- A prefix whose last pipe is removed alone finds a count that is not zero in a counter
of 32 bits. -/
def Covered (b : Book P) : Op P → Prop
  | .rm pipe p => b.pipes p = {pipe} → b.counted % 2 ^ 32 ≠ 0
  | _ => True

/-- A prefix that is new finds room in a counter of 32 bits, and no pipe that is removed
from all prefixes is the last one of any. -/
def Steady (b : Book P) : Op P → Prop
  | .add _ p => b.pipes p = ∅ → b.live.ncard + 1 < 2 ^ 32
  | .rmAll pipe _ => ∀ p, b.pipes p ≠ {pipe}
  | _ => True

structure Sound (b : Book P) : Prop where
  finite : b.live.Finite
  bound : b.live.ncard ≤ b.counted

omit [LinearOrder P] in
theorem init_sound : (init : Book P).Sound := by
  have hnone : (init : Book P).live = ∅ := by
    ext q
    simp [live, init]
  constructor
  · rw [hnone]
    exact Set.finite_empty
  · rw [hnone, Set.ncard_empty]
    exact Nat.zero_le _

theorem live_add : (b.perform (.add pipe p)).live = insert p b.live := by
  ext q
  by_cases hq : q = p
  · subst hq
    simp [live, perform]
  · simp [live, perform, hq]

theorem erase_eq_empty {s : Finset P} (h : s ≠ ∅) : s.erase pipe = ∅ ↔ s = {pipe} := by
  rw [Finset.erase_eq_empty_iff]
  exact or_iff_right h

theorem live_rm : (b.perform (.rm pipe p)).live =
    if b.pipes p = {pipe} then b.live \ {p} else b.live := by
  ext q
  by_cases hq : q = p
  · subst hq
    split
    · rename_i hlast
      simp [live, perform, hlast]
    · rename_i hmore
      by_cases hnone : b.pipes q = ∅
      · simp [live, perform, hnone]
      · have hkept : (b.pipes q).erase pipe ≠ ∅ := mt (erase_eq_empty hnone).mp hmore
        simp [live, perform, hnone, hkept]
  · split <;> simp [live, perform, hq]

theorem live_rmAll {uniq : Bool} : (b.perform (.rmAll pipe uniq)).live ⊆ b.live := by
  intro q hq hnone
  apply hq
  change (b.pipes q).erase pipe = ∅
  rw [hnone, Finset.erase_empty]

theorem Sound.perform (h : b.Sound) (op : Op P) : (b.perform op).Sound := by
  have hfinite := h.finite
  have hbound := h.bound
  cases op with
  | add pipe p =>
    constructor
    · rw [live_add]
      exact hfinite.insert p
    · rw [live_add]
      have hle := Set.ncard_insert_le p b.live
      simp only [Book.perform]
      split
      · omega
      · rename_i hsome
        rw [Set.insert_eq_of_mem (show p ∈ b.live from hsome)]
        exact hbound
  | rm pipe p =>
    constructor
    · rw [live_rm]
      split
      · exact hfinite.sdiff
      · exact hfinite
    · rw [live_rm]
      simp only [Book.perform]
      split
      · rename_i hlast
        have hmem : p ∈ b.live := by
          change b.pipes p ≠ ∅
          rw [hlast]
          exact Finset.singleton_ne_empty pipe
        rw [Set.ncard_sdiff_singleton_of_mem hmem]
        omega
      · exact hbound
  | rmAll pipe uniq =>
    constructor
    · exact hfinite.subset live_rmAll
    · exact (Set.ncard_le_ncard live_rmAll hfinite).trans hbound
  | matchData data => exact h

end Book

namespace Root

variable {r : Root P} {b : Book P} {op : Op P}

structure Represents (r : Root P) (b : Book P) : Prop where
  wf : r.node.Wf
  registered : ∀ q, r.node.registered q = b.pipes q
  counter : r.numPrefixes = b.counted % 2 ^ 32
  sound : b.Sound

theorem empty_represents : (empty : Root P).Represents Book.init where
  wf := empty_wf
  registered := registered_empty
  counter := rfl
  sound := Book.init_sound

omit [LinearOrder P] in
theorem registered_update {t u : Mtrie P} {p : List UInt8} {s : Finset P}
    (h : Registers t u p s) (hreg : ∀ q, t.registered q = b.pipes q) (q : List UInt8) :
    u.registered q = Function.update b.pipes p s q := by
  rw [h.registered, Function.update_apply, hreg]

theorem add_represents (h : r.Represents b) (pipe : P) (p : List UInt8) :
    (r.add pipe p).1.Represents (b.perform (.add pipe p)) ∧
      (r.add pipe p).2 = decide (b.pipes p = ∅) := by
  obtain ⟨hret, hreg, -⟩ := add_spec h.wf pipe p
  rw [h.registered] at hret hreg
  refine ⟨?_, hret⟩
  constructor
  · exact hreg.wf
  · exact registered_update hreg h.registered
  · have hcounter := h.counter
    simp only [add, hret, Book.perform, decide_eq_true_eq]
    split
    · rw [hcounter, Nat.mod_add_mod]
    · exact hcounter
  · exact h.sound.perform _

theorem removal_eq_lastValueRemoved {s : Finset P} {pipe : P} :
    removal s pipe = .lastValueRemoved ↔ s = {pipe} := by
  unfold removal
  constructor
  · intro hlast
    split at hlast
    · rename_i hmem
      split at hlast
      · rename_i hnone
        exact (Book.erase_eq_empty (Finset.ne_empty_of_mem hmem)).mp hnone
      · cases hlast
    · cases hlast
  · rintro rfl
    simp

theorem rm_eq (h : r.Represents b) (pipe : P) (p : List UInt8) :
    ∃ node, Registers r.node node p ((b.pipes p).erase pipe) ∧ r.rm pipe p =
        if b.pipes p = {pipe} then
          if 0 < r.numPrefixes then
            some ({ node := node, numPrefixes := r.numPrefixes - 1 }, .lastValueRemoved)
          else none
        else some ({ r with node := node }, removal (b.pipes p) pipe) := by
  obtain ⟨node, hrm, hreg⟩ := rm_spec h.wf pipe p
  rw [h.registered] at hrm hreg
  refine ⟨node, hreg, ?_⟩
  simp only [rm, hrm, Option.bind_eq_bind, Option.bind_some, ← removal_eq_lastValueRemoved]
  split
  · rename_i hlast
    rw [hlast]
    rfl
  · rfl

theorem rm_represents (h : r.Represents b) (pipe : P) (p : List UInt8)
    (hcovered : b.Covered (.rm pipe p)) : ∃ r', r.rm pipe p = some (r', removal (b.pipes p) pipe) ∧
      r'.Represents (b.perform (.rm pipe p)) := by
  obtain ⟨node, hreg, hrm⟩ := rm_eq h pipe p
  have hsound := h.sound.perform (.rm pipe p)
  have hpipes := registered_update hreg h.registered
  by_cases hlast : b.pipes p = {pipe}
  · have hcount := h.counter
    have hpos : 0 < b.counted % 2 ^ 32 := Nat.pos_of_ne_zero (hcovered hlast)
    rw [if_pos hlast, if_pos (hcount ▸ hpos)] at hrm
    refine ⟨_, by rw [hrm, removal_eq_lastValueRemoved.mpr hlast], hreg.wf, hpipes, ?_, hsound⟩
    simp only [Book.perform, if_pos hlast]
    omega
  · rw [if_neg hlast] at hrm
    refine ⟨_, hrm, hreg.wf, hpipes, ?_, hsound⟩
    simp only [Book.perform, if_neg hlast]
    exact h.counter

theorem rmAll_represents (h : r.Represents b) (pipe : P) (uniq : Bool) :
    ∃ r' out n, (∀ fuel, n ≤ fuel → r.rmAll pipe uniq fuel = some (r', out)) ∧
      r'.numPrefixes = r.numPrefixes ∧ r'.Represents (b.perform (.rmAll pipe uniq)) ∧
      b.Answered (.rmAll pipe uniq) (.called out) := by
  obtain ⟨node, out, n, hn, hclean, hlists⟩ := rmAll_spec h.wf pipe uniq
  refine ⟨{ r with node := node }, out, n, ?_, rfl, ?_, hlists.nodup, ?_⟩
  · intro fuel hfuel
    simp only [rmAll, hn fuel hfuel, Option.bind_eq_bind, Option.bind_some]
    rfl
  · constructor
    · exact hclean.wf
    · intro q
      rw [hclean.registered, h.registered]
      rfl
    · exact h.counter
    · exact h.sound.perform _
  · intro p
    rw [hlists.mem]
    simp only [List.nil_append, exists_eq_left', Called, h.registered]
    refine and_congr_right fun hmem => ?_
    rw [Book.erase_eq_empty (Finset.ne_empty_of_mem hmem)]

theorem matchData_eq_flatMap (h : r.Represents b) (data : List UInt8) :
    r.matchData data = data.inits.flatMap fun p => (b.pipes p).sort (· ≤ ·) := by
  rw [Root.matchData, matchData_eq h.wf]
  congr 1
  funext p
  rw [h.registered]

theorem perform_spec (h : r.Represents b) (hcovered : b.Covered op) :
    ∃ r' a n, (∀ fuel, n ≤ fuel → r.perform fuel op = some (r', a)) ∧
      r'.Represents (b.perform op) ∧ b.Answered op a := by
  cases op with
  | add pipe p =>
    obtain ⟨hadd, hret⟩ := add_represents h pipe p
    exact ⟨_, _, 0, fun _ _ => rfl, hadd, hret⟩
  | rm pipe p =>
    obtain ⟨r', hrm, hrep⟩ := rm_represents h pipe p hcovered
    exact ⟨r', .removed (removal (b.pipes p) pipe), 0,
      fun _ _ => by rw [perform, hrm]; rfl, hrep, rfl⟩
  | rmAll pipe uniq =>
    obtain ⟨r', out, n, hn, -, hrep, hout⟩ := rmAll_represents h pipe uniq
    exact ⟨r', .called out, n, fun fuel hfuel => by rw [perform, hn fuel hfuel]; rfl, hrep, hout⟩
  | matchData data => exact ⟨r, _, 0, fun _ _ => rfl, h, matchData_eq_flatMap h data⟩

theorem perform_eq_none (h : r.Represents b) (hcovered : ¬ b.Covered op) (fuel : ℕ) :
    r.perform fuel op = none := by
  cases op with
  | rm pipe p =>
    obtain ⟨node, -, hrm⟩ := rm_eq h pipe p
    simp only [Book.Covered, Classical.not_imp, not_not] at hcovered
    have hzero : ¬ 0 < r.numPrefixes := by
      rw [h.counter, hcovered.2]
      exact lt_irrefl 0
    rw [perform, hrm, if_pos hcovered.1, if_neg hzero]
    rfl
  | add | rmAll | matchData => exact absurd trivial hcovered

end Root

namespace Book

/-- The condition on every operation and the map it finds. -/
abbrev Along (C : Book P → Op P → Prop) (b : Book P) (ops : List (Op P)) : Prop :=
  Trace.Along (fun b op => some (b.perform op)) C b ops

theorem along_cons {C : Book P → Op P → Prop} {b : Book P} {op : Op P} {ops : List (Op P)} :
    Along C b (op :: ops) ↔ C b op ∧ Along C (b.perform op) ops := by
  constructor
  · exact fun h => ⟨h.1, h.2 _ rfl⟩
  · exact fun h => ⟨h.1, fun y hy => Option.some.inj hy ▸ h.2⟩

end Book

namespace Session

variable {y z : Session P} {b : Book P} {op : Op P} {ops : List (Op P)}

def Reaches (y : Session P) (ops : List (Op P)) (z : Session P) : Prop :=
  ∃ n, ∀ fuel, n ≤ fuel → Trace.run (step fuel) y ops = some z

theorem Reaches.cons {r : Root P} {a : Answer P} {n : ℕ}
    (hn : ∀ fuel, n ≤ fuel → y.root.perform fuel op = some (r, a)) : Reaches y (op :: ops) z ↔
      Reaches { root := r, answers := y.answers ++ [a] } ops z := by
  have hrun (fuel : ℕ) (hfuel : n ≤ fuel) : Trace.run (step fuel) y (op :: ops) =
      Trace.run (step fuel) { root := r, answers := y.answers ++ [a] } ops := by
    rw [Trace.run, step, hn fuel hfuel]
    rfl
  constructor
  · rintro ⟨m, hm⟩
    refine ⟨max n m, fun fuel hfuel => ?_⟩
    rw [← hrun fuel ((le_max_left n m).trans hfuel)]
    exact hm fuel ((le_max_right n m).trans hfuel)
  · rintro ⟨m, hm⟩
    refine ⟨max n m, fun fuel hfuel => ?_⟩
    rw [hrun fuel ((le_max_left n m).trans hfuel)]
    exact hm fuel ((le_max_right n m).trans hfuel)

theorem reaches_nil : Reaches y [] z ↔ y = z := by
  constructor
  · rintro ⟨n, hn⟩
    exact Option.some.inj (hn n le_rfl)
  · exact fun h => ⟨0, fun _ _ => congrArg some h⟩

theorem reaches_of_along (h : y.root.Represents b) (hcovered : Book.Along Book.Covered b ops) :
    ∃ z answers, y.Reaches ops z ∧ z.answers = y.answers ++ answers ∧
      z.root.Represents (ops.foldl Book.perform b) ∧ b.Answers ops answers := by
  induction ops generalizing y b with
  | nil => exact ⟨y, [], reaches_nil.mpr rfl, (List.append_nil _).symm, h, trivial⟩
  | cons op ops ih =>
    obtain ⟨hop, hops⟩ := Book.along_cons.mp hcovered
    obtain ⟨r, a, n, hn, hrep, hanswer⟩ := Root.perform_spec h hop
    obtain ⟨z, answers, hreach, hanswers, hz, hrest⟩ :=
      @ih { root := r, answers := y.answers ++ [a] } _ hrep hops
    refine ⟨z, a :: answers, (Reaches.cons hn).mpr hreach, ?_, hz, hanswer, hrest⟩
    rw [hanswers, List.append_assoc, List.singleton_append]

theorem along_of_reaches (h : y.root.Represents b) (hreach : y.Reaches ops z) :
    Book.Along Book.Covered b ops := by
  induction ops generalizing y b with
  | nil => trivial
  | cons op ops ih =>
    by_cases hop : b.Covered op
    · obtain ⟨r, a, n, hn, hrep, -⟩ := Root.perform_spec h hop
      exact Book.along_cons.mpr ⟨hop, ih hrep ((Reaches.cons hn).mp hreach)⟩
    · obtain ⟨n, hn⟩ := hreach
      have hrun := hn n le_rfl
      rw [Trace.run, step, Root.perform_eq_none h hop] at hrun
      cases hrun

/-- **Refinement.** A run gives the answers that a map of sets of pipes gives, and no
assertion fails, exactly when the counter covers every removal. -/
theorem refines_iff (ops : List (Op P)) :
    (∃ z, (init : Session P).Reaches ops z ∧ Book.init.Answers ops z.answers) ↔
      Book.Along Book.Covered Book.init ops := by
  constructor
  · rintro ⟨z, hreach, -⟩
    exact along_of_reaches Root.empty_represents hreach
  · intro hcovered
    obtain ⟨z, answers, hreach, hanswers, -, hall⟩ :=
      @reaches_of_along _ _ init _ _ Root.empty_represents hcovered
    exact ⟨z, hreach, hanswers ▸ hall⟩

/-- A pipe that subscribes to everything and leaves, many times, and then takes back what
it subscribed to. -/
def wornOut (n : ℕ) : List (Op ℕ) :=
  (List.replicate n [.add 0 [], .rmAll 0 false]).flatten ++ [.add 0 [], .rm 0 []]

theorem covered_wornOut {n c : ℕ}
    (h : Book.Along Book.Covered { pipes := fun _ => (∅ : Finset ℕ), counted := c } (wornOut n)) :
    (c + n + 1) % 2 ^ 32 ≠ 0 := by
  induction n generalizing c with
  | zero =>
    have hlast := (Book.along_cons.mp (Book.along_cons.mp h).2).1
    exact hlast (by simp [Book.perform])
  | succ n ih =>
    rw [wornOut, List.replicate_succ, List.flatten_cons, List.append_assoc] at h
    have hrest := (Book.along_cons.mp (Book.along_cons.mp h).2).2
    have hback : (Book.perform (Book.perform { pipes := fun _ => (∅ : Finset ℕ), counted := c }
        (.add 0 [])) (.rmAll 0 false)) = { pipes := fun _ => ∅, counted := c + 1 } := by
      simp only [Book.perform, if_true, Book.mk.injEq, and_true]
      funext q
      rw [Function.update_apply]
      split
      · simp
      · rfl
    rw [hback] at hrest
    have hcount := ih hrest
    rwa [show c + (n + 1) + 1 = c + 1 + n + 1 by omega]

/-- When the counter is back at zero, the removal of the last pipe of a prefix fails an
assertion. -/
theorem not_refines : ¬ ∀ ops : List (Op ℕ), ∃ z, (init : Session ℕ).Reaches ops z ∧
      Book.init.Answers ops z.answers := by
  intro h
  obtain ⟨z, hreach, -⟩ := h (wornOut (2 ^ 32 - 1))
  have hcovered := along_of_reaches Root.empty_represents hreach
  exact covered_wornOut hcovered (by norm_num)

end Session

namespace Book

variable {b : Book P} {op : Op P}

/-- Each prefix that has pipes is counted, no other is, and the counter does not wrap. -/
structure Exact (b : Book P) : Prop where
  counted : b.counted = b.live.ncard
  room : b.live.ncard < 2 ^ 32

omit [LinearOrder P] in
theorem init_exact : (init : Book P).Exact := by
  have hnone : (init : Book P).live = ∅ := by
    ext q
    simp [live, init]
  constructor
  · rw [hnone, Set.ncard_empty]
    rfl
  · rw [hnone, Set.ncard_empty]
    norm_num

omit [LinearOrder P] in
theorem Exact.covered (h : b.Exact) (hsound : b.Sound) (op : Op P) : b.Covered op := by
  cases op with
  | rm pipe p =>
    intro hlast
    have hmem : p ∈ b.live := by
      change b.pipes p ≠ ∅
      rw [hlast]
      exact Finset.singleton_ne_empty pipe
    have hpos : 0 < b.live.ncard := (Set.ncard_pos hsound.finite).mpr ⟨p, hmem⟩
    rw [h.counted, Nat.mod_eq_of_lt h.room]
    exact Nat.ne_of_gt hpos
  | add | rmAll | matchData => trivial

theorem live_rmAll_of_steady {pipe : P} {uniq : Bool} (h : b.Steady (.rmAll pipe uniq)) :
    (b.perform (.rmAll pipe uniq)).live = b.live := by
  apply Set.Subset.antisymm live_rmAll
  intro q hq hnone
  exact h q ((erase_eq_empty hq).mp hnone)

theorem Exact.perform (h : b.Exact) (hsound : b.Sound) (hsteady : b.Steady op) :
    (b.perform op).Exact := by
  have hcounted := h.counted
  have hroom := h.room
  cases op with
  | add pipe p =>
    by_cases hnew : b.pipes p = ∅
    · have hnotMem : p ∉ b.live := fun hmem => hmem hnew
      have hfits := hsteady hnew
      constructor
      · rw [live_add, Set.ncard_insert_of_notMem hnotMem hsound.finite]
        simp only [Book.perform, if_pos hnew, hcounted]
      · rwa [live_add, Set.ncard_insert_of_notMem hnotMem hsound.finite]
    · have hmem : p ∈ b.live := hnew
      constructor
      · rw [live_add, Set.insert_eq_of_mem hmem]
        simp only [Book.perform, if_neg hnew, hcounted]
      · rwa [live_add, Set.insert_eq_of_mem hmem]
  | rm pipe p =>
    by_cases hlast : b.pipes p = {pipe}
    · have hmem : p ∈ b.live := by
        change b.pipes p ≠ ∅
        rw [hlast]
        exact Finset.singleton_ne_empty pipe
      constructor
      · rw [live_rm, if_pos hlast, Set.ncard_sdiff_singleton_of_mem hmem]
        simp only [Book.perform, if_pos hlast, hcounted]
      · rw [live_rm, if_pos hlast, Set.ncard_sdiff_singleton_of_mem hmem]
        omega
    · constructor
      · rw [live_rm, if_neg hlast]
        simp only [Book.perform, if_neg hlast, hcounted]
      · rwa [live_rm, if_neg hlast]
  | rmAll pipe uniq =>
    constructor
    · rw [live_rmAll_of_steady hsteady]
      exact hcounted
    · rwa [live_rmAll_of_steady hsteady]
  | matchData data => exact h

theorem Exact.steady (h : b.Exact) (hsound : b.Sound)
    (hafter : (b.perform op).counted % 2 ^ 32 = (b.perform op).live.ncard) : b.Steady op := by
  have hcounted := h.counted
  have hroom := h.room
  cases op with
  | add pipe p =>
    intro hnew
    have hnotMem : p ∉ b.live := fun hmem => hmem hnew
    rw [live_add, Set.ncard_insert_of_notMem hnotMem hsound.finite] at hafter
    rw [← hafter]
    exact Nat.mod_lt _ (by norm_num)
  | rmAll pipe uniq =>
    intro q hlast
    have hle : b.live.ncard ≤ (b.perform (.rmAll pipe uniq)).live.ncard := by
      rw [← hafter]
      change _ ≤ b.counted % 2 ^ 32
      rw [Nat.mod_eq_of_lt (by omega), hcounted]
    have hsame := Set.eq_of_subset_of_ncard_le live_rmAll hle hsound.finite
    have hmem : q ∈ b.live := by
      change b.pipes q ≠ ∅
      rw [hlast]
      exact Finset.singleton_ne_empty pipe
    rw [← hsame] at hmem
    exact hmem (by simp [Book.perform, hlast])
  | rm | matchData => trivial

end Book

namespace Session

variable {y z : Session P} {b : Book P} {op : Op P} {ops : List (Op P)}

def Counts (y : Session P) (b : Book P) (ops : List (Op P)) : Prop :=
  ∀ front, front <+: ops → ∃ z, y.Reaches front z ∧
    z.root.numPrefixes = (front.foldl Book.perform b).live.ncard

theorem counts_cons {r : Root P} {a : Answer P} {n : ℕ} (h : y.root.Represents b) (hexact : b.Exact)
    (hn : ∀ fuel, n ≤ fuel → y.root.perform fuel op = some (r, a)) : y.Counts b (op :: ops) ↔
      Counts { root := r, answers := y.answers ++ [a] } (b.perform op) ops := by
  constructor
  · intro hcounts front hfront
    obtain ⟨z, hreach, hz⟩ := hcounts (op :: front) (List.cons_prefix_cons.mpr ⟨rfl, hfront⟩)
    exact ⟨z, (Reaches.cons hn).mp hreach, hz⟩
  · intro hcounts front hfront
    cases front with
    | nil =>
      refine ⟨y, reaches_nil.mpr rfl, ?_⟩
      rw [h.counter, hexact.counted, Nat.mod_eq_of_lt hexact.room]
      rfl
    | cons op' front =>
      obtain ⟨rfl, hfront'⟩ := List.cons_prefix_cons.mp hfront
      obtain ⟨z, hreach, hz⟩ := hcounts front hfront'
      exact ⟨z, (Reaches.cons hn).mpr hreach, hz⟩

theorem counts_iff_along (h : y.root.Represents b) (hexact : b.Exact) :
    y.Counts b ops ↔ Book.Along Book.Steady b ops := by
  induction ops generalizing y b with
  | nil =>
    refine ⟨fun _ => trivial, fun _ front hfront => ?_⟩
    obtain rfl := List.prefix_nil.mp hfront
    refine ⟨y, reaches_nil.mpr rfl, ?_⟩
    rw [h.counter, hexact.counted, Nat.mod_eq_of_lt hexact.room]
    rfl
  | cons op ops ih =>
    obtain ⟨r, a, n, hn, hrep, -⟩ := Root.perform_spec h (hexact.covered h.sound op)
    rw [counts_cons h hexact hn, Book.along_cons]
    constructor
    · intro hcounts
      obtain ⟨z, hreach, hz⟩ := hcounts [] List.nil_prefix
      obtain rfl := reaches_nil.mp hreach
      have hsteady := hexact.steady h.sound (hrep.counter.symm.trans hz)
      exact ⟨hsteady, (ih hrep (hexact.perform h.sound hsteady)).mp hcounts⟩
    · rintro ⟨hsteady, hops⟩
      exact (ih hrep (hexact.perform h.sound hsteady)).mpr hops

/-- **Prefix count.** The counter is the number of prefixes that have pipes all along a
run, exactly when each new prefix finds room in it and no removal from all prefixes
leaves one of them without pipes. -/
theorem numPrefixes_iff (ops : List (Op P)) :
    (∀ front, front <+: ops → ∃ z, (init : Session P).Reaches front z ∧
        z.root.numPrefixes = (front.foldl Book.perform Book.init).live.ncard) ↔
      Book.Along Book.Steady Book.init ops :=
  counts_iff_along Root.empty_represents Book.init_exact

/-- The only subscriber of a prefix leaves: no prefix is left, and one is counted. -/
theorem numPrefixes_stale :
    ¬ ∀ (ops : List (Op ℕ)) (z : Session ℕ), (init : Session ℕ).Reaches ops z →
      z.root.numPrefixes = (ops.foldl Book.perform Book.init).live.ncard := by
  intro h
  obtain ⟨z, answers, hreach, -, hrep, -⟩ :=
    @reaches_of_along _ _ (init : Session ℕ) _ [.add 0 [65], .rmAll 0 false]
      Root.empty_represents ⟨trivial, fun _ _ => ⟨trivial, fun _ _ => trivial⟩⟩
  have hcount := h _ z hreach
  rw [hrep.counter] at hcount
  have hnone : ([.add 0 [65], .rmAll 0 false].foldl Book.perform
      (Book.init : Book ℕ)).live = ∅ := by
    ext q
    by_cases hq : q = [65]
    all_goals simp [Book.live, Book.perform, Book.init, hq]
  rw [hnone, Set.ncard_empty] at hcount
  exact absurd hcount (by decide)

end Session

end Mtrie

end Zlink.Subscription
