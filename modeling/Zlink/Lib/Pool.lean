import Mathlib

/-!
# A pool of activities

The activities of a component that run side by side are a list. One of them takes its next
step: it leaves the list, and what it goes on with, if anything, comes back to it. A sum over
the pool then changes by what the two sides weigh.
-/

namespace Pool

variable {A M : Type*} [AddCommMonoid M] {xs ys : List A} {k : ℕ} {a b : A}

/-- The activity at `k` goes on with `ys`. -/
def replace (xs : List A) (k : ℕ) (ys : List A) : List A :=
  xs.eraseIdx k ++ ys

theorem perm_of_getElem? (h : xs[k]? = some a) : xs.Perm (a :: xs.eraseIdx k) := by
  obtain ⟨hk, rfl⟩ := List.getElem?_eq_some_iff.mp h
  exact (List.getElem_cons_eraseIdx_perm hk).symm

theorem sum_replace (w : A → M) (h : xs[k]? = some a) (ys : List A) :
    ((replace xs k ys).map w).sum + w a = (xs.map w).sum + (ys.map w).sum := by
  rw [replace, List.map_append, List.sum_append, ((perm_of_getElem? h).map w).sum_eq,
    List.map_cons, List.sum_cons, add_right_comm, add_comm (w a)]

theorem sum_append (w : A → M) (xs ys : List A) :
    ((xs ++ ys).map w).sum = (xs.map w).sum + (ys.map w).sum := by
  rw [List.map_append, List.sum_append]

theorem le_sum {w : A → ℕ} (h : a ∈ xs) : w a ≤ (xs.map w).sum :=
  List.single_le_sum (fun _ _ => Nat.zero_le _) _ (List.mem_map_of_mem h)

end Pool
