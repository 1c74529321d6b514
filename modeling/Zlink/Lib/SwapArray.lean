import Mathlib.Data.List.Nodup
import Mathlib.Data.List.Perm.Basic

/-!
# Arrays whose items move

An array that exchanges two items, and that removes an item by moving the last one
into its place. Both operations change the order of the items only; the results
are stated with permutations, so that membership and the absence of repetitions
follow.
-/

namespace SwapArray

variable {α : Type*}

/-- Exchange two items. -/
def swap (l : List α) (i j : ℕ) : List α :=
  match l[i]?, l[j]? with
  | some a, some b => (l.set i b).set j a
  | _, _ => l

/-- Remove the item at an index: the last item takes its place. -/
def erase (l : List α) (i : ℕ) : List α :=
  match l.getLast? with
  | none => l
  | some b => (l.set i b).dropLast

theorem swap_perm (l : List α) (i j : ℕ) : (swap l i j).Perm l := by
  rw [swap]
  split
  case h_1 a b hi hj =>
    obtain ⟨hilt, rfl⟩ := List.getElem?_eq_some_iff.mp hi
    obtain ⟨hjlt, rfl⟩ := List.getElem?_eq_some_iff.mp hj
    exact List.set_set_perm hilt hjlt
  case h_2 => exact List.Perm.refl l

theorem swap_comm (l : List α) (i j : ℕ) : swap l i j = swap l j i := by
  rw [swap, swap]
  cases hi : l[i]? with
  | none => split <;> simp_all
  | some a =>
    cases hj : l[j]? with
    | none => rfl
    | some b =>
      by_cases hij : i = j
      · subst hij
        rw [Option.some.inj (hi.symm.trans hj)]
      · exact List.set_comm b a hij

@[simp] theorem length_swap (l : List α) (i j : ℕ) : (swap l i j).length = l.length :=
  (swap_perm l i j).length_eq

variable {l : List α} {i j : ℕ}

theorem nodup_swap : (swap l i j).Nodup ↔ l.Nodup :=
  (swap_perm l i j).nodup_iff

variable {a : α}

theorem perm_cons_erase (h : l[i]? = some a) : l.Perm (a :: erase l i) := by
  obtain ⟨hi, rfl⟩ := List.getElem?_eq_some_iff.mp h
  obtain ⟨ini, b, rfl⟩ : ∃ ini b, l = ini ++ [b] :=
    (List.eq_nil_or_concat' l).resolve_left (by rintro rfl; simp at hi)
  have hlast : (ini ++ [b]).getLast? = some b := by simp
  rw [erase, hlast]
  simp only
  rw [List.length_append, List.length_singleton] at hi
  rcases Nat.lt_or_ge i ini.length with hlt | hge
  · -- the last item moves into the gap
    have hset : ((ini ++ [b]).set i b).dropLast = ini.set i b := by
      rw [List.set_append_left _ _ hlt, List.dropLast_concat]
    have hget : (ini ++ [b])[i] = ini[i] := List.getElem_append_left hlt
    rw [hset, hget]
    have hleft : (ini ++ [b]).Perm (b :: ini[i] :: ini.eraseIdx i) :=
      (List.perm_append_singleton b ini).trans ((List.getElem_cons_eraseIdx_perm hlt).symm.cons b)
    have hright : (ini[i] :: ini.set i b).Perm (ini[i] :: b :: ini.eraseIdx i) :=
      (List.set_perm_cons_eraseIdx hlt b).cons ini[i]
    exact hleft.trans ((List.Perm.swap _ _ _).trans hright.symm)
  · -- the last item itself goes
    obtain rfl : i = ini.length := by omega
    have hset : ((ini ++ [b]).set ini.length b).dropLast = ini := by
      simp
    have hget : (ini ++ [b])[ini.length] = b := by simp
    rw [hset, hget]
    exact List.perm_append_singleton b ini

theorem mem_erase (hl : l.Nodup) (h : l[i]? = some a) {b : α} : b ∈ erase l i ↔ b ∈ l ∧ b ≠ a := by
  have hp := perm_cons_erase h
  have hnodup := hp.nodup_iff.mp hl
  rw [hp.mem_iff, List.mem_cons]
  constructor
  · intro hb
    refine ⟨.inr hb, ?_⟩
    rintro rfl
    exact (List.nodup_cons.mp hnodup).1 hb
  · rintro ⟨rfl | hb, hne⟩
    · exact absurd rfl hne
    · exact hb

theorem nodup_erase (hl : l.Nodup) (h : l[i]? = some a) : (erase l i).Nodup :=
  (List.nodup_cons.mp ((perm_cons_erase h).nodup_iff.mp hl)).2

theorem length_erase (h : l[i]? = some a) : (erase l i).length + 1 = l.length :=
  (perm_cons_erase h).length_eq.symm

def exchanged (i j n : ℕ) : ℕ :=
  if n = i then j else if n = j then i else n

theorem exchanged_lt {n k : ℕ} (hi : i < k) (hj : j < k) : exchanged i j n < k ↔ n < k := by
  unfold exchanged
  split_ifs <;> omega

theorem getElem?_swap (hi : i < l.length) (hj : j < l.length)
    (n : ℕ) : (swap l i j)[exchanged i j n]? = l[n]? := by
  rw [swap, List.getElem?_eq_getElem hi, List.getElem?_eq_getElem hj]
  simp only [List.getElem?_set, List.length_set]
  unfold exchanged
  by_cases hni : n = i
  · subst hni
    simp [hi, hj]
  by_cases hnj : n = j
  · subst hnj
    rw [if_neg hni, if_pos rfl]
    simp [hi, hj, hni]
  · rw [if_neg hni, if_neg hnj, if_neg (Ne.symm hnj), if_neg (Ne.symm hni)]

section Places

variable [DecidableEq α]

variable {l : List α} {i : ℕ} {x : α}

theorem idxOf_swap (hl : l.Nodup) {j : ℕ} (hi : i < l.length) (hj : j < l.length) (hx : x ∈ l) :
    (swap l i j).idxOf x = exchanged i j (l.idxOf x) := by
  have hn := List.idxOf_lt_length_of_mem hx
  have hget : (swap l i j)[exchanged i j (l.idxOf x)]? = some x := by
    rw [getElem?_swap hi hj, List.getElem?_eq_getElem hn, List.getElem_idxOf]
  obtain ⟨hlt, hx'⟩ := List.getElem?_eq_some_iff.mp hget
  have hnodup : (swap l i j).Nodup := nodup_swap.mpr hl
  rw [← hnodup.idxOf_getElem _ hlt, hx']

variable {a : α}

theorem idxOf_erase (hl : l.Nodup) (h : l[i]? = some a) (hx : x ∈ l) (hne : x ≠ a) :
    (erase l i).idxOf x = if l.idxOf x + 1 = l.length then i else l.idxOf x := by
  have hn := List.idxOf_lt_length_of_mem hx
  have hi := (List.getElem?_eq_some_iff.mp h).1
  have hlen := length_erase h
  have hni : l.idxOf x ≠ i := by
    intro heq
    rw [← heq, List.getElem?_eq_getElem hn, List.getElem_idxOf, Option.some.injEq] at h
    exact hne h
  have hlast : l.getLast? = l[l.length - 1]? := List.getLast?_eq_getElem?
  have hget : ∀ n, n + 1 < l.length →
      (erase l i)[n]? = if n = i then l[l.length - 1]? else l[n]? := by
    intro n hlt
    have hsome : l[l.length - 1]? = some l[l.length - 1] :=
      List.getElem?_eq_getElem (by omega)
    rw [erase, hlast, hsome]
    simp only [List.getElem?_dropLast, List.length_set]
    rw [if_pos (by omega), List.getElem?_set]
    split
    case isTrue hin => rw [if_pos hin.symm]
    case isFalse hin => rw [if_neg (Ne.symm hin)]
  have hplace : (erase l i)[if l.idxOf x + 1 = l.length then i else l.idxOf x]? =
      some x := by
    split
    case isTrue heq =>
      rw [hget i (by omega), if_pos rfl, show l.length - 1 = l.idxOf x by omega,
        List.getElem?_eq_getElem hn, List.getElem_idxOf]
    case isFalse hne' =>
      rw [hget _ (by omega), if_neg hni, List.getElem?_eq_getElem hn, List.getElem_idxOf]
  obtain ⟨hlt, hx'⟩ := List.getElem?_eq_some_iff.mp hplace
  have hnodup := nodup_erase hl h
  conv_lhs => rw [← hx']
  exact hnodup.idxOf_getElem _ hlt

/-- The items of one list in the places that a function gives in another. -/
structure Rearranged (l l' : List α) (f : ℕ → ℕ) : Prop where
  perm : l'.Perm l
  place : ∀ x ∈ l, l'.idxOf x = f (l.idxOf x)

theorem Rearranged.trans {l₁ l₂ l₃ : List α} {f g : ℕ → ℕ} (h : Rearranged l₁ l₂ f)
    (h' : Rearranged l₂ l₃ g) : Rearranged l₁ l₃ (g ∘ f) where
  perm := h'.perm.trans h.perm
  place := by
    intro x hx
    rw [h'.place x (h.perm.mem_iff.mpr hx), h.place x hx]
    rfl

theorem rearranged_swap (hl : l.Nodup) {j : ℕ} (hi : i < l.length)
    (hj : j < l.length) : Rearranged l (swap l i j) (exchanged i j) where
  perm := swap_perm l i j
  place := fun _ hx => idxOf_swap hl hi hj hx

/-- The array with one part left by a pipe, and the counter of that part. -/
def leave (l : List α) (a : α) (k : ℕ) : List α × ℕ :=
  if l.idxOf a < k then (swap l (l.idxOf a) (k - 1), k - 1) else (l, k)

/-- What holds behind `leave`. -/
structure Left (l l' : List α) (a : α) (k k' : ℕ) : Prop where
  perm : l'.Perm l
  count : k' = if l.idxOf a < k then k - 1 else k
  out : k' ≤ l'.idxOf a
  own : ∀ x ∈ l, (l'.idxOf x < k' ↔ l.idxOf x < k ∧ x ≠ a)
  above : ∀ t, k ≤ t → ∀ x ∈ l, (l'.idxOf x < t ↔ l.idxOf x < t)
  below : ∀ t, t ≤ l.idxOf a → t ≤ k' → ∀ x ∈ l, (l'.idxOf x < t ↔ l.idxOf x < t)

variable {k : ℕ}

theorem leave_spec (hl : l.Nodup) (ha : a ∈ l)
    (hk : k ≤ l.length) : Left l (leave l a k).1 a k (leave l a k).2 := by
  have hxa : ∀ x ∈ l, x ≠ a ↔ l.idxOf x ≠ l.idxOf a :=
    fun x hx => not_congr (List.idxOf_inj hx).symm
  rw [leave]
  split
  case isFalse hge =>
    exact
      { perm := List.Perm.refl l
        count := (if_neg hge).symm
        out := Nat.le_of_not_lt hge
        own := by
          intro x hx
          rw [hxa x hx]
          show l.idxOf x < k ↔ _
          omega
        above := fun _ _ _ _ => Iff.rfl
        below := fun _ _ _ _ _ => Iff.rfl }
  case isTrue hlt =>
    have hr := rearranged_swap hl (i := l.idxOf a) (j := k - 1) (by omega) (by omega)
    exact
      { perm := hr.perm
        count := (if_pos hlt).symm
        out := by
          rw [hr.place a ha]
          unfold exchanged
          split_ifs <;> omega
        own := by
          intro x hx
          rw [hxa x hx, hr.place x hx]
          unfold exchanged
          split_ifs <;> omega
        above := by
          intro t ht x hx
          rw [hr.place x hx]
          exact exchanged_lt (by omega) (by omega)
        below := by
          intro t ht htk x hx
          rw [hr.place x hx]
          unfold exchanged
          split_ifs <;> omega }

structure Joined (l l' : List α) (a : α) (k : ℕ) : Prop where
  perm : l'.Perm l
  own : ∀ x ∈ l, (l'.idxOf x < k + 1 ↔ l.idxOf x < k ∨ x = a)

theorem joined_swap (hl : l.Nodup) (ha : a ∈ l)
    (hk : k ≤ l.idxOf a) : Joined l (swap l (l.idxOf a) k) a k := by
  have hlt := List.idxOf_lt_length_of_mem ha
  have hr := rearranged_swap hl hlt (Nat.lt_of_le_of_lt hk hlt)
  refine { perm := hr.perm, own := ?_ }
  intro x hx
  rw [hr.place x hx, ← List.idxOf_inj hx]
  unfold exchanged
  split_ifs <;> omega

theorem idxOf_erase_lt (hl : l.Nodup) (ha : a ∈ l) (hx : x ∈ l) (hne : x ≠ a) (hk : k ≤ l.idxOf a) :
    (erase l (l.idxOf a)).idxOf x < k ↔ l.idxOf x < k := by
  have hlt := List.idxOf_lt_length_of_mem ha
  have hget : l[l.idxOf a]? = some a := by
    rw [List.getElem?_eq_getElem hlt, List.getElem_idxOf]
  rw [idxOf_erase hl hget hx hne]
  split <;> omega

end Places

end SwapArray
