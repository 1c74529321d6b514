import Mathlib.Data.List.Basic
import Mathlib.Tactic

/-!
# Tables that cover a range

A table whose slots may be empty covers the indices from some lowest one on. `lookup`
is what it says about an index, within the range or not. Padding at either end, and
dropping empty slots there, changes the range and not what the table says.
-/

namespace Window

variable {α : Type*}

/-- What the table that starts at `lo` says about an index. -/
def lookup (lo : ℕ) (slots : List (Option α)) (i : ℕ) : Option α :=
  if i < lo then none else slots[i - lo]?.join

/-- Neither end of the table is an empty slot. -/
structure Tight (slots : List (Option α)) : Prop where
  first : 0 < slots.length → slots[0]?.join ≠ none
  last : 0 < slots.length → slots[slots.length - 1]?.join ≠ none

variable {lo i j n : ℕ} {slots : List (Option α)} {x : Option α}

theorem lookup_of_lt (h : i < lo) : lookup lo slots i = none :=
  if_pos h

theorem lookup_of_le (h : lo ≤ i) : lookup lo slots i = slots[i - lo]?.join :=
  if_neg (Nat.not_lt.mpr h)

theorem lookup_of_ge (h : lo + slots.length ≤ i) : lookup lo slots i = none := by
  rw [lookup_of_le ((Nat.le_add_right _ _).trans h), List.getElem?_eq_none]
  · rfl
  · exact Nat.le_sub_of_add_le (Nat.add_comm _ _ ▸ h)

@[simp] theorem lookup_nil : lookup lo ([] : List (Option α)) i = none := by
  unfold lookup
  split <;> rfl

theorem range_of_lookup {a : α} (h : lookup lo slots i = some a) :
    lo ≤ i ∧ i < lo + slots.length := by
  constructor
  · by_contra hlt
    rw [lookup_of_lt (Nat.lt_of_not_le hlt)] at h
    cases h
  · by_contra hge
    rw [lookup_of_ge (Nat.le_of_not_lt hge)] at h
    cases h

theorem lookup_append_replicate :
    lookup lo (slots ++ List.replicate n none) i = lookup lo slots i := by
  unfold lookup
  split
  · rfl
  · rw [List.getElem?_append]
    split
    · rfl
    · rename_i hge
      rw [List.getElem?_eq_none (Nat.le_of_not_lt hge), List.getElem?_replicate]
      split <;> rfl

theorem lookup_replicate : lookup lo (List.replicate n (none : Option α)) i = none := by
  rw [← List.nil_append (List.replicate n none), lookup_append_replicate, lookup_nil]

theorem lookup_replicate_append :
    lookup lo (List.replicate n none ++ slots) i = lookup (lo + n) slots i := by
  by_cases hlt : i < lo
  · rw [lookup_of_lt hlt, lookup_of_lt (hlt.trans_le (Nat.le_add_right _ _))]
  rw [lookup_of_le (Nat.le_of_not_lt hlt), List.getElem?_append, List.length_replicate]
  split
  · rw [lookup_of_lt (by omega), List.getElem?_replicate, if_pos ‹_›]
    rfl
  · rw [lookup_of_le (by omega)]
    congr 2
    omega

theorem lookup_set (hlo : lo ≤ j) (hlen : j < lo + slots.length) :
    lookup lo (slots.set (j - lo) x) i = if i = j then x else lookup lo slots i := by
  by_cases hlt : i < lo
  · rw [lookup_of_lt hlt, lookup_of_lt hlt, if_neg (by omega)]
  rw [lookup_of_le (Nat.le_of_not_lt hlt), lookup_of_le (Nat.le_of_not_lt hlt), List.getElem?_set]
  by_cases hij : i = j
  · subst hij
    rw [if_pos rfl, if_pos rfl, if_pos (by omega)]
    rfl
  · rw [if_neg (by omega), if_neg hij]

theorem lookup_drop (h : ∀ k < n, slots[k]?.join = none) :
    lookup (lo + n) (slots.drop n) i = lookup lo slots i := by
  by_cases hlt : i < lo + n
  · rw [lookup_of_lt hlt]
    unfold lookup
    split
    · rfl
    · rw [h _ (by omega)]
  · rw [lookup_of_le (Nat.le_of_not_lt hlt), lookup_of_le (by omega), List.getElem?_drop]
    congr 2
    omega

theorem lookup_take (h : ∀ k, n ≤ k → slots[k]?.join = none) :
    lookup lo (slots.take n) i = lookup lo slots i := by
  unfold lookup
  split
  · rfl
  · rw [List.getElem?_take]
    split
    · rfl
    · rw [h _ (Nat.le_of_not_lt ‹_›)]
      rfl

/-- The number of slots that are not empty. -/
def live (slots : List (Option α)) : ℕ :=
  slots.countP Option.isSome

theorem live_append_replicate : live (slots ++ List.replicate n none) = live slots := by
  simp [live, List.countP_append, List.countP_replicate]

theorem live_replicate_append : live (List.replicate n none ++ slots) = live slots := by
  simp [live, List.countP_append, List.countP_replicate]

theorem live_set_some {a : α} (h : slots[j]? = some none) :
    live (slots.set j (some a)) = live slots + 1 := by
  obtain ⟨hlt, hget⟩ := List.getElem?_eq_some_iff.mp h
  simp [live, List.countP_set hlt, hget]

theorem live_set_none {a : α} (h : slots[j]?.join = some a) :
    live (slots.set j none) + 1 = live slots := by
  obtain ⟨hlt, hget⟩ := List.getElem?_eq_some_iff.mp (Option.join_eq_some_iff.mp h)
  have hmem : some a ∈ slots := hget ▸ List.getElem_mem hlt
  have hpos : 0 < slots.countP Option.isSome :=
    List.countP_pos_iff.mpr ⟨_, hmem, rfl⟩
  simp only [live, List.countP_set hlt, hget]
  simp
  omega

theorem live_set_of_some {a b : α} (h : slots[j]?.join = some a) :
    live (slots.set j (some b)) = live slots := by
  obtain ⟨hlt, hget⟩ := List.getElem?_eq_some_iff.mp (Option.join_eq_some_iff.mp h)
  have hmem : some a ∈ slots := hget ▸ List.getElem_mem hlt
  have hpos : 0 < slots.countP Option.isSome :=
    List.countP_pos_iff.mpr ⟨_, hmem, rfl⟩
  simp only [live, List.countP_set hlt, hget]
  simp
  omega

theorem live_eq_zero_iff : live slots = 0 ↔ ∀ k : ℕ, slots[k]?.join = none := by
  unfold live
  rw [List.countP_eq_zero]
  constructor
  · intro h k
    cases hk : slots[k]? with
    | none => rfl
    | some y =>
      have hy := h y (List.mem_of_getElem? hk)
      simpa using hy
  · intro h y hy
    obtain ⟨k, hk⟩ := List.mem_iff_getElem?.mp hy
    have hnone := h k
    rw [hk] at hnone
    change y = none at hnone
    simp [hnone]

theorem eq_of_live_le_one {a b : α} (h : live slots ≤ 1) (hi : slots[i]?.join = some a)
    (hj : slots[j]?.join = some b) : i = j := by
  by_contra hne
  have hset := live_set_none hi
  have hzero : live (slots.set i none) = 0 := by omega
  have hnone := live_eq_zero_iff.mp hzero j
  rw [List.getElem?_set, if_neg hne, hj] at hnone
  cases hnone

theorem lookup_singleton {a : α} (h : live slots = 1) (hi : slots[i]?.join = some a) :
    lookup (lo + i) [some a] j = lookup lo slots j := by
  by_cases hj : j = lo + i
  · subst hj
    rw [lookup_of_le le_rfl, lookup_of_le (Nat.le_add_right _ _), Nat.sub_self,
      Nat.add_sub_cancel_left, hi]
    rfl
  · have hleft : lookup (lo + i) [some a] j = none := by
      unfold lookup
      split
      · rfl
      · rw [List.getElem?_eq_none (by simp; omega)]
        rfl
    rw [hleft]
    cases hb : lookup lo slots j with
    | none => rfl
    | some b =>
      have hrange := range_of_lookup hb
      rw [lookup_of_le hrange.1] at hb
      have heq := eq_of_live_le_one (le_of_eq h) hi hb
      omega

theorem Tight.two_le_live (h : Tight slots) (hlen : 2 ≤ slots.length) : 2 ≤ live slots := by
  obtain ⟨a, ha⟩ := Option.ne_none_iff_exists'.mp (h.first (by omega))
  obtain ⟨b, hb⟩ := Option.ne_none_iff_exists'.mp (h.last (by omega))
  by_contra hlt
  have heq := eq_of_live_le_one (by omega) ha hb
  omega

theorem live_drop (h : ∀ k < n, slots[k]?.join = none) : live (slots.drop n) = live slots := by
  have hsplit : live slots = live (slots.take n) + live (slots.drop n) := by
    unfold live
    rw [← List.countP_append, List.take_append_drop]
  have hzero : live (slots.take n) = 0 := by
    refine live_eq_zero_iff.mpr fun k => ?_
    rw [List.getElem?_take]
    split
    · exact h k ‹_›
    · rfl
  omega

theorem live_take (h : ∀ k, n ≤ k → slots[k]?.join = none) : live (slots.take n) = live slots := by
  have hsplit : live slots = live (slots.take n) + live (slots.drop n) := by
    unfold live
    rw [← List.countP_append, List.take_append_drop]
  have hzero : live (slots.drop n) = 0 := by
    refine live_eq_zero_iff.mpr fun k => ?_
    rw [List.getElem?_drop]
    exact h _ (Nat.le_add_right _ _)
  omega

section Narrow

variable {a b : ℕ}

/-- The table from one slot to another. -/
def narrow (a b : ℕ) (slots : List (Option α)) : List (Option α) :=
  (slots.drop a).take (b + 1 - a)

variable (hlow : ∀ k < a, slots[k]?.join = none) (hhigh : ∀ k, b < k → slots[k]?.join = none)
include hlow hhigh

theorem lookup_narrow (hab : a ≤ b) : lookup (lo + a) (narrow a b slots) i = lookup lo slots i := by
  rw [narrow, lookup_take, lookup_drop hlow]
  intro k hk
  rw [List.getElem?_drop]
  exact hhigh _ (by omega)

theorem live_narrow (hab : a ≤ b) : live (narrow a b slots) = live slots := by
  rw [narrow, live_take, live_drop hlow]
  intro k hk
  rw [List.getElem?_drop]
  exact hhigh _ (by omega)

omit hlow hhigh in
theorem tight_narrow (hab : a ≤ b) (ha : slots[a]?.join ≠ none)
    (hb : slots[b]?.join ≠ none) : Tight (narrow a b slots) := by
  have hlt : b < slots.length := by
    by_contra hge
    rw [List.getElem?_eq_none (Nat.le_of_not_lt hge)] at hb
    exact hb rfl
  have hlen : (narrow a b slots).length = b + 1 - a := by
    rw [narrow, List.length_take, List.length_drop]
    omega
  have hget {k : ℕ} (hk : k < b + 1 - a) : (narrow a b slots)[k]? = slots[a + k]? := by
    rw [narrow, List.getElem?_take, if_pos hk, List.getElem?_drop]
  constructor
  · intro _
    rw [hget (by omega)]
    exact ha
  · intro _
    rw [hlen, hget (by omega), show a + (b + 1 - a - 1) = b by omega]
    exact hb

end Narrow

section Scan

/-- The first and the last full slot below the `i`-th, as long as there is one; before that
the first is the last slot of all, and the last is the first of all. -/
structure Scanned (slots : List (Option α)) (i a b : ℕ) : Prop where
  first : ∀ k < i, slots[k]?.join ≠ none → a ≤ k
  last : ∀ k < i, slots[k]?.join ≠ none → k ≤ b
  lower : (a < i ∧ slots[a]?.join ≠ none) ∨
    a = slots.length - 1 ∧ ∀ k < i, slots[k]?.join = none
  upper : (b < i ∧ slots[b]?.join ≠ none) ∨ b = 0 ∧ ∀ k < i, slots[k]?.join = none

variable {a b : ℕ}

theorem Scanned.start : Scanned slots 0 (slots.length - 1) 0 where
  first _ hk := absurd hk (Nat.not_lt_zero _)
  last _ hk := absurd hk (Nat.not_lt_zero _)
  lower := .inr ⟨rfl, fun _ hk => absurd hk (Nat.not_lt_zero _)⟩
  upper := .inr ⟨rfl, fun _ hk => absurd hk (Nat.not_lt_zero _)⟩

theorem Scanned.skip (h : Scanned slots i a b) (hnone : slots[i]?.join = none) :
    Scanned slots (i + 1) a b := by
  have hbelow {k : ℕ} (hk : k < i + 1) (hlive : slots[k]?.join ≠ none) : k < i := by
    rcases Nat.lt_succ_iff_lt_or_eq.mp hk with hlt | rfl
    · exact hlt
    · exact absurd hnone hlive
  have hempty (hall : ∀ k < i, slots[k]?.join = none) : ∀ k < i + 1, slots[k]?.join = none := by
    intro k hk
    by_contra hlive
    exact hlive (hall k (hbelow hk hlive))
  constructor
  · exact fun k hk hlive => h.first k (hbelow hk hlive) hlive
  · exact fun k hk hlive => h.last k (hbelow hk hlive) hlive
  · exact h.lower.imp (And.imp_left Nat.lt_succ_of_lt) (And.imp_right hempty)
  · exact h.upper.imp (And.imp_left Nat.lt_succ_of_lt) (And.imp_right hempty)

theorem Scanned.take (h : Scanned slots i a b) (hlive : slots[i]?.join ≠ none) :
    Scanned slots (i + 1) (if i < a then i else a) (if b < i then i else b) := by
  have hi : i < slots.length := by
    by_contra hge
    rw [List.getElem?_eq_none (Nat.le_of_not_lt hge)] at hlive
    exact hlive rfl
  constructor
  · intro k hk hk'
    rcases Nat.lt_succ_iff_lt_or_eq.mp hk with hlt | rfl
    · have hle := h.first k hlt hk'
      split <;> omega
    · split <;> omega
  · intro k hk hk'
    rcases Nat.lt_succ_iff_lt_or_eq.mp hk with hlt | rfl
    · have hle := h.last k hlt hk'
      split <;> omega
    · split <;> omega
  · left
    split
    · exact ⟨Nat.lt_succ_self i, hlive⟩
    · rcases h.lower with ⟨hlt, hlow⟩ | ⟨hlow, -⟩
      · exact ⟨Nat.lt_succ_of_lt hlt, hlow⟩
      · rw [show a = i by omega]
        exact ⟨Nat.lt_succ_self i, hlive⟩
  · left
    split
    · exact ⟨Nat.lt_succ_self i, hlive⟩
    · rcases h.upper with ⟨hlt, hhigh⟩ | ⟨hhigh, -⟩
      · exact ⟨Nat.lt_succ_of_lt hlt, hhigh⟩
      · rw [show b = i by omega]
        exact ⟨Nat.lt_succ_self i, hlive⟩

/-- The slots from the `i`-th on do not matter. -/
theorem Scanned.congr {slots' : List (Option α)} (h : Scanned slots i a b)
    (hlen : slots'.length = slots.length) (hbelow : ∀ k < i, slots'[k]? = slots[k]?) :
    Scanned slots' i a b := by
  have hsame {k : ℕ} (hk : k < i) : slots'[k]?.join = slots[k]?.join := by
    rw [hbelow k hk]
  constructor
  · exact fun k hk hlive => h.first k hk (hsame hk ▸ hlive)
  · exact fun k hk hlive => h.last k hk (hsame hk ▸ hlive)
  · rcases h.lower with ⟨hlt, hlow⟩ | ⟨hlow, hall⟩
    · exact .inl ⟨hlt, (hsame hlt).trans_ne hlow⟩
    · exact .inr ⟨hlen ▸ hlow, fun k hk => (hsame hk).trans (hall k hk)⟩
  · rcases h.upper with ⟨hlt, hhigh⟩ | ⟨hhigh, hall⟩
    · exact .inl ⟨hlt, (hsame hlt).trans_ne hhigh⟩
    · exact .inr ⟨hhigh, fun k hk => (hsame hk).trans (hall k hk)⟩

theorem Scanned.ends (h : Scanned slots slots.length a b) (hlive : live slots ≠ 0) :
    slots[a]?.join ≠ none ∧ slots[b]?.join ≠ none ∧ a ≤ b ∧
      (∀ k < a, slots[k]?.join = none) ∧ ∀ k, b < k → slots[k]?.join = none := by
  have hlt {k : ℕ} (hk : slots[k]?.join ≠ none) : k < slots.length := by
    by_contra hge
    rw [List.getElem?_eq_none (Nat.le_of_not_lt hge)] at hk
    exact hk rfl
  have hsome : ¬ ∀ k < slots.length, slots[k]?.join = none := by
    intro hall
    refine hlive (live_eq_zero_iff.mpr fun k => ?_)
    by_contra hk
    exact hk (hall k (hlt hk))
  obtain ⟨-, hlow⟩ := h.lower.resolve_right fun hnone => hsome hnone.2
  obtain ⟨-, hhigh⟩ := h.upper.resolve_right fun hnone => hsome hnone.2
  refine ⟨hlow, hhigh, h.last a (hlt hlow) hlow, ?_, ?_⟩
  · intro k hk
    by_contra hfull
    have hle := h.first k (hlt hfull) hfull
    omega
  · intro k hk
    by_contra hfull
    have hle := h.last k (hlt hfull) hfull
    omega

end Scan

theorem findIdx_of_live (h : live slots ≠ 0) :
    ∃ k, slots.findIdx? Option.isSome = some k ∧ k < slots.length ∧
      slots[k]?.join ≠ none ∧ ∀ j < k, slots[j]?.join = none := by
  cases hk : slots.findIdx? Option.isSome with
  | none =>
    rw [List.findIdx?_eq_none_iff] at hk
    refine absurd (List.countP_eq_zero.mpr fun x hx => ?_) h
    simp [hk x hx]
  | some k =>
    obtain ⟨hlt, hsome, hbefore⟩ := List.findIdx?_eq_some_iff_getElem.mp hk
    refine ⟨k, rfl, hlt, ?_, ?_⟩
    · rw [List.getElem?_eq_getElem hlt]
      exact Option.isSome_iff_ne_none.mp hsome
    · intro j hj
      rw [List.getElem?_eq_getElem (hj.trans hlt)]
      exact Option.not_isSome_iff_eq_none.mp (hbefore j hj)

end Window
