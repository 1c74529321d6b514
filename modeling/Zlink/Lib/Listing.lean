import Mathlib.Data.List.Basic
import Mathlib.Tactic

/-!
# Listing a set of words letter by letter

A set of words is listed, each behind a path, without repetition: first the empty word,
then the words by their first letter. `key` numbers the letters in the order in which they
are dealt with.
-/

namespace Listing

variable {α : Type} (key : α → ℕ)

/-- The words of the set, behind a path. -/
structure Lists (A : List α → Prop) (p : List α) (out : List (List α)) : Prop where
  nodup : out.Nodup
  mem : ∀ q, q ∈ out ↔ ∃ s, q = p ++ s ∧ A s

/-- Those that begin with a letter from the `i`-th on. -/
structure ListsFrom (A : List α → Prop) (i : ℕ) (p : List α) (out : List (List α)) : Prop where
  nodup : out.Nodup
  mem : ∀ q, q ∈ out ↔ ∃ c s, q = p ++ c :: s ∧ i ≤ key c ∧ A (c :: s)

variable {key} {A B : List α → Prop} {i : ℕ} {p : List α} {out outs : List (List α)}

theorem ListsFrom.nil (h : ∀ c s, i ≤ key c → ¬ A (c :: s)) : ListsFrom key A i p [] := by
  refine ⟨List.nodup_nil, fun q => ⟨fun hmem => absurd hmem List.not_mem_nil, ?_⟩⟩
  rintro ⟨c, s, -, hle, hA⟩
  exact absurd hA (h c s hle)

theorem ListsFrom.skip {j : ℕ} (h : ListsFrom key A j p out) (hij : i ≤ j)
    (hnone : ∀ c s, i ≤ key c → key c < j → ¬ A (c :: s)) : ListsFrom key A i p out := by
  refine ⟨h.nodup, fun q => (h.mem q).trans ?_⟩
  constructor
  · rintro ⟨c, s, hq, hle, hA⟩
    exact ⟨c, s, hq, by omega, hA⟩
  · rintro ⟨c, s, hq, hle, hA⟩
    exact ⟨c, s, hq, Nat.not_lt.mp fun hlt => hnone c s hle hlt hA, hA⟩

theorem ListsFrom.cons (hkey : Function.Injective key) {c : α} (hc : key c = i)
    (h : Lists B (p ++ [c]) out) (hB : ∀ s, B s ↔ A (c :: s))
    (hrest : ListsFrom key A (i + 1) p outs) : ListsFrom key A i p (out ++ outs) := by
  constructor
  · refine List.nodup_append.mpr ⟨h.nodup, hrest.nodup, ?_⟩
    intro a ha b hb hab
    obtain ⟨s, rfl, -⟩ := (h.mem a).mp ha
    obtain ⟨d, r, hd, hle, -⟩ := (hrest.mem b).mp hb
    rw [← hab, List.append_assoc, List.append_cancel_left_eq] at hd
    obtain ⟨rfl, -⟩ := List.cons.inj hd
    omega
  · intro q
    rw [List.mem_append, h.mem, hrest.mem]
    constructor
    · rintro (⟨s, rfl, hs⟩ | ⟨d, s, hq, hle, hA⟩)
      · exact ⟨c, s, by simp, by omega, (hB s).mp hs⟩
      · exact ⟨d, s, hq, by omega, hA⟩
    · rintro ⟨d, s, rfl, hle, hA⟩
      by_cases hd : d = c
      · subst hd
        exact .inl ⟨s, by simp, (hB s).mpr hA⟩
      · have hne : key d ≠ key c := fun hsame => hd (hkey hsame)
        exact .inr ⟨d, s, rfl, by omega, hA⟩

theorem ListsFrom.root [Decidable (A [])] (h : ListsFrom key A i p out)
    (hall : ∀ c s, A (c :: s) → i ≤ key c) : Lists A p ((if A [] then [p] else []) ++ out) := by
  constructor
  · refine List.nodup_append.mpr ⟨by split <;> simp, h.nodup, ?_⟩
    intro a ha b hb hab
    have hap : a = p := by
      split at ha
      · exact List.mem_singleton.mp ha
      · cases ha
    obtain ⟨c, s, hbs, -⟩ := (h.mem b).mp hb
    have hnil : p ++ [] = p ++ c :: s := by rw [List.append_nil, ← hbs, ← hab, hap]
    exact absurd (List.append_cancel_left hnil) (by simp)
  · intro q
    rw [List.mem_append, h.mem]
    constructor
    · rintro (hq | ⟨c, s, rfl, -, hA⟩)
      · split at hq
        · rename_i hroot
          refine ⟨[], ?_, hroot⟩
          rw [List.append_nil]
          exact List.mem_singleton.mp hq
        · cases hq
      · exact ⟨c :: s, rfl, hA⟩
    · rintro ⟨s, rfl, hA⟩
      cases s with
      | nil =>
        left
        rw [if_pos hA, List.append_nil]
        exact List.mem_singleton.mpr rfl
      | cons c s => exact .inr ⟨c, s, rfl, hall c s hA, hA⟩

end Listing
