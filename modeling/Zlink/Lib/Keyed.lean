import Mathlib

/-!
# Lists of entries with keys

A list in which no key occurs twice is a finite map from keys to entries. The lemmas say
what a change or the removal of one entry does to a sum over the entries and to the keys.
-/

namespace Keyed

variable {K A : Type*} [DecidableEq K] (key : A → K)

/-- No key occurs twice. -/
def Unique (xs : List A) : Prop :=
  (xs.map key).Nodup

def find (k : K) (xs : List A) : Option A :=
  xs.find? fun a => key a = k

/-- Change the entry of one key. -/
def modify (k : K) (f : A → A) (xs : List A) : List A :=
  xs.map fun a => if key a = k then f a else a

/-- Remove the entry of one key. -/
def erase (k : K) (xs : List A) : List A :=
  xs.filter fun a => key a ≠ k

variable {key} {k : K} {a b : A} {f : A → A} {xs : List A}

theorem find_cons_self (h : key a = k) : find key k (a :: xs) = some a :=
  List.find?_cons_of_pos (decide_eq_true h)

theorem find_cons_of_ne (h : key a ≠ k) : find key k (a :: xs) = find key k xs :=
  List.find?_cons_of_neg fun heq => h (of_decide_eq_true heq)

theorem mem_of_find (h : find key k xs = some a) : a ∈ xs ∧ key a = k := by
  have hkey := List.find?_some (p := fun a => decide (key a = k)) h
  exact ⟨List.mem_of_find?_eq_some h, of_decide_eq_true hkey⟩

theorem find_of_mem (hxs : Unique key xs) (ha : a ∈ xs) : find key (key a) xs = some a := by
  induction xs with
  | nil => cases ha
  | cons b xs ih =>
    obtain ⟨hb, hxs'⟩ := List.nodup_cons.mp hxs
    rcases List.mem_cons.mp ha with rfl | ha'
    · exact find_cons_self rfl
    · have hne : key b ≠ key a := fun heq => hb (heq ▸ List.mem_map_of_mem ha')
      rw [find_cons_of_ne hne]
      exact ih hxs' ha'

theorem exists_find (h : k ∈ xs.map key) : ∃ a, find key k xs = some a := by
  obtain ⟨a, ha, rfl⟩ := List.mem_map.mp h
  exact Option.isSome_iff_exists.mp (List.find?_isSome.mpr ⟨a, ha, decide_eq_true rfl⟩)

theorem eq_of_find (hxs : Unique key xs) (hfind : find key k xs = some a) (hb : b ∈ xs)
    (hk : key b = k) : b = a := by
  have hfind' := find_of_mem hxs hb
  rw [hk, hfind] at hfind'
  exact (Option.some.inj hfind').symm

theorem find_congr {ys : List A} (hxs : Unique key xs) (hys : Unique key ys)
    (h : ∀ a, a ∈ xs ↔ a ∈ ys) : find key k xs = find key k ys := by
  apply Option.ext
  intro a
  constructor
  · intro ha
    obtain ⟨hmem, rfl⟩ := mem_of_find ha
    exact find_of_mem hys ((h a).mp hmem)
  · intro ha
    obtain ⟨hmem, rfl⟩ := mem_of_find ha
    exact find_of_mem hxs ((h a).mpr hmem)

theorem not_mem_of_find (h : find key k xs = none) : k ∉ xs.map key := by
  intro hmem
  obtain ⟨a, ha⟩ := exists_find hmem
  rw [h] at ha
  cases ha

theorem map_modify {B : Type*} (p : A → B) (hf : ∀ a ∈ xs, key a = k → p (f a) = p a) :
    (modify key k f xs).map p = xs.map p := by
  rw [modify, List.map_map]
  apply List.map_congr_left
  intro a ha
  simp only [Function.comp_apply]
  split
  · rename_i hk
    exact hf a ha hk
  · rfl

theorem Unique.modify (hxs : Unique key xs) (hf : ∀ a ∈ xs, key a = k → key (f a) = key a) :
    Unique key (modify key k f xs) := by
  rw [Unique, map_modify key hf]
  exact hxs

theorem Unique.erase (hxs : Unique key xs) : Unique key (erase key k xs) :=
  hxs.sublist (List.filter_sublist.map key)

omit [DecidableEq K] in
theorem Unique.cons (hxs : Unique key xs) (ha : key a ∉ xs.map key) : Unique key (a :: xs) :=
  List.nodup_cons.mpr ⟨ha, hxs⟩

theorem mem_modify (hb : b ∈ modify key k f xs) :
    b ∈ xs ∧ key b ≠ k ∨ ∃ a ∈ xs, key a = k ∧ b = f a := by
  obtain ⟨a, ha, rfl⟩ := List.mem_map.mp hb
  by_cases hk : key a = k
  · simp only [if_pos hk]
    exact .inr ⟨a, ha, hk, rfl⟩
  · simp only [if_neg hk]
    exact .inl ⟨ha, hk⟩

theorem mem_erase (hb : b ∈ erase key k xs) : b ∈ xs ∧ key b ≠ k :=
  ⟨(List.mem_filter.mp hb).1, of_decide_eq_true (List.mem_filter.mp hb).2⟩

theorem mem_erase_of_mem (hb : b ∈ xs) (hne : key b ≠ k) : b ∈ erase key k xs :=
  List.mem_filter.mpr ⟨hb, decide_eq_true hne⟩

theorem perm_erase (hxs : Unique key xs) (ha : a ∈ xs) : xs.Perm (a :: erase key (key a) xs) := by
  induction xs with
  | nil => cases ha
  | cons b xs ih =>
    obtain ⟨hb, hxs'⟩ := List.nodup_cons.mp hxs
    by_cases hk : key b = key a
    · have hab : b = a := eq_of_find hxs (find_cons_self hk) ha rfl ▸ rfl
      have hrest : erase key (key a) xs = xs := by
        rw [erase, List.filter_eq_self]
        intro c hc
        exact decide_eq_true fun hck => hb (hk.trans hck.symm ▸ List.mem_map_of_mem hc)
      have hself : erase key (key a) (b :: xs) = xs := by
        rw [erase, List.filter_cons_of_neg (by simpa using hk)]
        exact hrest
      rw [hself, hab]
    · have hmem : a ∈ xs := by
        rcases List.mem_cons.mp ha with rfl | hmem
        · exact absurd rfl hk
        · exact hmem
      have hother : erase key (key a) (b :: xs) = b :: erase key (key a) xs :=
        List.filter_cons_of_pos (by simpa using hk)
      rw [hother]
      exact ((ih hxs' hmem).cons b).trans (.swap a b _)

theorem perm_modify (hxs : Unique key xs) (ha : a ∈ xs) :
    (modify key (key a) f xs).Perm (f a :: erase key (key a) xs) := by
  have hperm := (perm_erase hxs ha).map fun b => if key b = key a then f b else b
  rw [List.map_cons, if_pos rfl] at hperm
  have hrest : (erase key (key a) xs).map (fun b => if key b = key a then f b else b) =
      erase key (key a) xs := by
    conv_rhs => rw [← List.map_id (erase key (key a) xs)]
    apply List.map_congr_left
    intro b hb
    exact if_neg (mem_erase hb).2
  rw [hrest] at hperm
  exact hperm

theorem sum_erase (w : A → ℕ) (hxs : Unique key xs) (ha : find key k xs = some a) :
    ((erase key k xs).map w).sum + w a = (xs.map w).sum := by
  obtain ⟨hmem, rfl⟩ := mem_of_find ha
  rw [((perm_erase hxs hmem).map w).sum_eq, List.map_cons, List.sum_cons, Nat.add_comm]

theorem sum_modify (w : A → ℕ) (hf : ∀ a ∈ xs, key a = k → w (f a) = w a) :
    ((modify key k f xs).map w).sum = (xs.map w).sum := by
  rw [map_modify w hf]

theorem le_sum (w : A → ℕ) (ha : a ∈ xs) : w a ≤ (xs.map w).sum :=
  List.single_le_sum (fun _ _ => Nat.zero_le _) _ (List.mem_map_of_mem ha)

end Keyed
