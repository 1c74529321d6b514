import Mathlib.Data.List.GetD
import Mathlib.Data.List.ReduceOption
import Mathlib.Data.List.Perm.Basic

/-!
# Open addressing with linear probing

A table is a list of slots, each empty or full, and every item has a home slot. The table
is in good shape when no empty slot lies between the home of an item and its slot, going
around. Putting an item into the first empty slot from its home keeps the shape. Taking an
item out leaves a hole, which the shift closes: it moves back the items behind the hole
that may stand there, up to the next empty slot.
-/

namespace Probing

variable {α : Type*}

/-- The steps from one slot ahead to another, around a table of `n` slots. -/
def dist (n a b : ℕ) : ℕ :=
  if a ≤ b then b - a else b + n - a

/-- The slot after a slot. -/
def succ (n a : ℕ) : ℕ :=
  if a + 1 = n then 0 else a + 1

def read (T : List (Option α)) (p : ℕ) : Option α :=
  T.getD p none

/-- The items of the table, in the order of their slots. -/
def live (T : List (Option α)) : List α :=
  T.reduceOption

/-- Every slot between the home of an item and its slot is full. -/
def Reached (home : α → ℕ) (T : List (Option α)) : Prop :=
  ∀ p x, read T p = some x →
    ∀ q < T.length, dist T.length (home x) q < dist T.length (home x) p → read T q ≠ none

/-- Go from slot to slot until one stops. -/
def probe (next : ℕ → ℕ) (stop : ℕ → Bool) : ℕ → ℕ → Option ℕ
  | 0, _ => none
  | fuel + 1, i => if stop i then some i else probe next stop fuel (next i)

/-- Put an item into the first empty slot from its home. -/
def place (next : ℕ → ℕ) (home : α → ℕ) (T : List (Option α)) (x : α) : Option (List (Option α)) :=
  (probe next (fun q => (read T q).isNone) T.length (home x)).map fun p =>
    T.set p (some x)

/-- Put every item of a table into another. -/
def placeAll (next : ℕ → ℕ) (home : α → ℕ) :
    List (Option α) → List (Option α) → Option (List (Option α))
  | [], T => some T
  | none :: slots, T => placeAll next home slots T
  | some x :: slots, T => (place next home T x).bind (placeAll next home slots)

/-- Close a hole: the item at `i` moves back into it when it may. -/
def shift (next : ℕ → ℕ) (may : α → ℕ → ℕ → Bool) :
    ℕ → List (Option α) → ℕ → ℕ → Option (List (Option α))
  | 0, _, _, _ => none
  | fuel + 1, T, hole, i =>
    match read T i with
    | none => some T
    | some x =>
      if may x hole i then
        shift next may fuel ((T.set hole (some x)).set i none) i (next i)
      else shift next may fuel T hole (next i)

theorem succ_lt {n a : ℕ} (ha : a < n) : succ n a < n := by
  rw [succ]
  split <;> omega

theorem read_lt {T : List (Option α)} {p : ℕ} {x : α} (h : read T p = some x) : p < T.length := by
  by_contra hp
  rw [read, List.getD_eq_default _ _ (Nat.le_of_not_lt hp)] at h
  exact absurd h (by simp)

theorem read_set {T : List (Option α)} {p : ℕ} (hp : p < T.length) (v : Option α)
    (q : ℕ) : read (T.set p v) q = if q = p then v else read T q := by
  simp only [read, List.getD_eq_getElem?_getD, List.getElem?_set]
  by_cases hq : q = p
  · subst hq
    simp [hp]
  · rw [if_neg (Ne.symm hq), if_neg hq]

theorem set_read {T : List (Option α)} {p : ℕ} {v : Option α} (h : read T p = v)
    (hp : p < T.length) (w : Option α) : (T.set p w).set p v = T := by
  rw [List.set_set, ← h, read, List.getD_eq_getElem _ _ hp, List.set_getElem_self]

theorem mem_live {T : List (Option α)} {x : α} : x ∈ live T ↔ ∃ p, read T p = some x := by
  rw [live, List.reduceOption_mem_iff, List.mem_iff_getElem?]
  constructor
  · rintro ⟨p, hp⟩
    exact ⟨p, by rw [read, List.getD_eq_getElem?_getD, hp, Option.getD_some]⟩
  · rintro ⟨p, hp⟩
    have hlt := read_lt hp
    rw [read, List.getD_eq_getElem _ _ hlt] at hp
    exact ⟨p, by rw [List.getElem?_eq_getElem hlt, hp]⟩

theorem exists_empty {T : List (Option α)} (h : (live T).length < T.length) :
    ∃ p < T.length, read T p = none := by
  obtain ⟨p, hp, hget⟩ := List.mem_iff_getElem.mp (List.reduceOption_length_lt_iff.mp h)
  exact ⟨p, hp, by rw [read, List.getD_eq_getElem _ _ hp, hget]⟩

theorem live_replicate (n : ℕ) : live (List.replicate n (none : Option α)) = [] :=
  List.reduceOption_replicate_none

theorem live_set {T : List (Option α)} {p : ℕ} (hp : p < T.length)
    (h : read T p = none) (x : α) : (live (T.set p (some x))).Perm (x :: live T) := by
  have hold : T.Perm (none :: T.eraseIdx p) := by
    have := (List.getElem_cons_eraseIdx_perm hp).symm
    rwa [← List.getD_eq_getElem T none hp, show T.getD p none = none from h] at this
  have hnew : (T.set p (some x)).Perm (some x :: T.eraseIdx p) :=
    List.set_perm_cons_eraseIdx hp (some x)
  refine (hnew.filterMap id).trans ?_
  exact ((hold.filterMap id).symm.cons x)

theorem live_set_none {T : List (Option α)} {p : ℕ} {x : α} (h : read T p = some x) :
    (live T).Perm (x :: live (T.set p none)) := by
  have hp := read_lt h
  have hset : T = (T.set p none).set p (some x) := (set_read h hp none).symm
  have hlen : p < (T.set p none).length := by rwa [List.length_set]
  conv_lhs => rw [hset]
  exact live_set hlen (by rw [read_set hp, if_pos rfl]) x

section Probe

variable {next : ℕ → ℕ} {n : ℕ} (hnext : ∀ i < n, next i = succ n i)

include hnext in
private theorem probe_bounded {stop : ℕ → Bool} {p : ℕ} (hp : p < n) (hstop : stop p = true) :
    ∀ fuel i, i < n → dist n i p < fuel → ∃ q < n, probe next stop fuel i = some q ∧ stop q = true ∧
        ∀ r < n, dist n i r < dist n i q → stop r = false := by
  intro fuel
  induction fuel with
  | zero =>
    intro i _ hfuel
    exact absurd hfuel (Nat.not_lt_zero _)
  | succ fuel ih =>
    intro i hi hfuel
    rw [probe]
    by_cases hhere : stop i = true
    · refine ⟨i, hi, if_pos hhere, hhere, ?_⟩
      intro r hr hlt
      unfold dist at hlt
      split at hlt <;> split at hlt <;> omega
    · have hne : p ≠ i := by
        rintro rfl
        exact hhere hstop
      have hstep : ∀ r < n, r ≠ i → dist n i r = dist n (succ n i) r + 1 := by
        intro r hr hri
        unfold dist succ
        split_ifs <;> omega
      rw [if_neg hhere, hnext i hi]
      have hless : dist n (succ n i) p < fuel := by
        have := hstep p hp hne
        omega
      obtain ⟨q, hq, hprobe, hqs, hbefore⟩ := ih (succ n i) (succ_lt hi) hless
      refine ⟨q, hq, hprobe, hqs, ?_⟩
      intro r hr hlt
      by_cases hri : r = i
      · rw [hri]
        simpa using hhere
      · have hqi : q ≠ i := by
          rintro rfl
          exact hhere hqs
        rw [hstep r hr hri, hstep q hq hqi] at hlt
        exact hbefore r hr (by omega)

include hnext in
theorem probe_spec {stop : ℕ → Bool} {i : ℕ} (hi : i < n) (hstop : ∃ p < n, stop p = true) :
    ∃ q < n, probe next stop n i = some q ∧ stop q = true ∧
      ∀ r < n, dist n i r < dist n i q → stop r = false := by
  obtain ⟨p, hp, hs⟩ := hstop
  refine probe_bounded hnext hp hs n i hi ?_
  unfold dist
  split <;> omega

end Probe

section Table

variable {next : ℕ → ℕ} {home : α → ℕ} {T : List (Option α)}
  (hnext : ∀ i < T.length, next i = succ T.length i)

theorem reached_replicate (home : α → ℕ) (n : ℕ) : Reached home (List.replicate n none) := by
  intro p x hp
  have hlt := read_lt hp
  rw [read, List.getD_eq_getElem _ _ hlt, List.getElem_replicate] at hp
  exact absurd hp (by simp)

theorem Reached.walk (h : Reached home T) (hhome : ∀ x, home x < T.length) {p : ℕ} {x : α}
    (hp : read T p = some x) : ∃ d, p = (home x + d) % T.length ∧
      ∀ j < d, read T ((home x + j) % T.length) ≠ none := by
  have hplt := read_lt hp
  have hx := hhome x
  have hmod : ∀ j < T.length, (home x + j) % T.length =
      if home x + j < T.length then home x + j else home x + j - T.length := by
    intro j hj
    split
    case isTrue hlt => exact Nat.mod_eq_of_lt hlt
    case isFalse hge =>
      rw [Nat.mod_eq_sub_mod (Nat.le_of_not_lt hge)]
      exact Nat.mod_eq_of_lt (by omega)
  have hd : dist T.length (home x) p < T.length := by
    unfold dist
    split <;> omega
  refine ⟨dist T.length (home x) p, ?_, ?_⟩
  · rw [hmod _ hd]
    unfold dist
    split_ifs <;> omega
  · intro j hj
    have hjlt := Nat.lt_trans hj hd
    refine h p x hp _ (Nat.mod_lt _ (by omega)) ?_
    rw [hmod j hjlt]
    refine lt_of_eq_of_lt ?_ hj
    unfold dist
    split_ifs <;> omega

theorem Reached.set (h : Reached home T) {p : ℕ} (hp : p < T.length) {x : α}
    (hpath : ∀ q < T.length, dist T.length (home x) q < dist T.length (home x) p →
      read T q ≠ none) : Reached home (T.set p (some x)) := by
  intro r y hr q hq hlt
  rw [List.length_set] at hq hlt
  rw [read_set hp] at hr ⊢
  by_cases hqp : q = p
  · rw [if_pos hqp]
    simp
  rw [if_neg hqp]
  by_cases hrp : r = p
  · rw [if_pos hrp, Option.some.injEq] at hr
    subst hr
    rw [hrp] at hlt
    exact hpath q hq hlt
  · rw [if_neg hrp] at hr
    exact h r y hr q hq hlt

include hnext in
theorem Reached.probe (h : Reached home T) (hempty : ∃ p < T.length, read T p = none)
    {i : ℕ} (hi : i < T.length) {sel : α → Bool}
    (hsel : ∀ x ∈ live T, sel x = true → home x = i) :
    ∃ q < T.length, Probing.probe next (fun q => (read T q).all sel) T.length i = some q ∧
        ((∃ x, read T q = some x ∧ sel x = true) ∨ read T q = none ∧ (∀ x ∈ live T, sel x = false) ∧
            ∀ r < T.length, dist T.length i r < dist T.length i q → read T r ≠ none) := by
  have hstop : ∃ p < T.length, (fun q => (read T q).all sel) p = true := by
    obtain ⟨e, he, hnone⟩ := hempty
    exact ⟨e, he, by simp [hnone]⟩
  obtain ⟨q, hq, hprobe, hqs, hbefore⟩ := probe_spec hnext hi hstop
  refine ⟨q, hq, hprobe, ?_⟩
  cases hread : read T q with
  | some x =>
    rw [hread, Option.all_some] at hqs
    exact .inl ⟨x, rfl, hqs⟩
  | none =>
    have hfull : ∀ r < T.length, dist T.length i r < dist T.length i q → read T r ≠ none := by
      intro r hr hlt hr'
      have := hbefore r hr hlt
      rw [hr', Option.all_none] at this
      exact absurd this (by simp)
    refine .inr ⟨rfl, ?_, hfull⟩
    intro x hx
    by_contra hsx
    rw [Bool.not_eq_false] at hsx
    obtain ⟨p, hp⟩ := mem_live.mp hx
    have hhome := hsel x hx hsx
    rcases Nat.lt_or_ge (dist T.length i q) (dist T.length i p) with hlt | hge
    · -- the empty slot would lie between the home of the item and the item
      exact h p x hp q hq (by rwa [hhome]) hread
    · have hpq : p = q := by
        by_contra hne
        have hlt : dist T.length i p < dist T.length i q := by
          have hplt := read_lt hp
          revert hge
          unfold dist
          split_ifs <;> omega
        have := hbefore p (read_lt hp) hlt
        rw [hp, Option.all_some, hsx] at this
        exact absurd this (by simp)
      rw [hpq, hread] at hp
      exact absurd hp (by simp)

include hnext in
theorem Reached.place (h : Reached home T) (hroom : (live T).length < T.length) {x : α}
    (hx : home x < T.length) : ∃ T', Probing.place next home T x = some T' ∧ T'.length = T.length ∧
      Reached home T' ∧ (live T').Perm (x :: live T) := by
  have hstop : ∃ p < T.length, (fun q => (read T q).isNone) p = true := by
    obtain ⟨e, he, hnone⟩ := exists_empty hroom
    exact ⟨e, he, by simp [hnone]⟩
  obtain ⟨q, hq, hprobe, hnone, hbefore⟩ := probe_spec hnext hx hstop
  rw [Option.isNone_iff_eq_none] at hnone
  refine ⟨T.set q (some x), ?_, List.length_set, ?_, live_set hq hnone x⟩
  · rw [Probing.place, hprobe, Option.map_some]
  · refine h.set hq ?_
    intro r hr hlt hr'
    have := hbefore r hr hlt
    rw [hr', Option.isNone_none] at this
    exact absurd this (by simp)

end Table

/-- The table while a hole is closed, with the slots behind the hole looked at up to `i`.
Only the hole may break a path, and the path of no item looked at. -/
structure Shifting (home : α → ℕ) (T : List (Option α)) (hole i : ℕ) : Prop where
  hole_lt : hole < T.length
  lt : i < T.length
  ne : i ≠ hole
  hole_empty : read T hole = none
  full : ∀ q < T.length, q ≠ hole → dist T.length hole q < dist T.length hole i → read T q ≠ none
  reached : ∀ p x, read T p = some x → ∀ q < T.length, q ≠ hole →
    dist T.length (home x) q < dist T.length (home x) p → read T q ≠ none
  avoids : ∀ p x, read T p = some x → dist T.length hole p < dist T.length hole i →
    dist T.length (home x) p ≤ dist T.length (home x) hole
  other : ∃ e < T.length, e ≠ hole ∧ read T e = none

section Shift

variable {home : α → ℕ} {T : List (Option α)} {hole i : ℕ}

theorem Shifting.ahead (h : Shifting home T hole i) {e : ℕ} (he : e < T.length)
    (hne : e ≠ hole) (hnone : read T e = none) : dist T.length hole i ≤ dist T.length hole e := by
  by_contra hlt
  exact h.full e he hne (Nat.lt_of_not_le hlt) hnone

theorem Reached.shifting (h : Reached home T) (hroom : (live T).length < T.length)
    {p : ℕ} {x : α} (hp : read T p = some x) :
    Shifting home (T.set p none) p (succ T.length p) := by
  have hlt := read_lt hp
  obtain ⟨e, he, hnone⟩ := exists_empty hroom
  have hep : e ≠ p := by
    rintro rfl
    rw [hnone] at hp
    exact absurd hp (by simp)
  have hnear : ∀ q < T.length, dist T.length p q < dist T.length p (succ T.length p) → q = p := by
    intro q hq
    unfold dist succ
    split_ifs <;> omega
  refine
    { hole_lt := by rwa [List.length_set]
      lt := by
        rw [List.length_set]
        exact succ_lt hlt
      ne := ?_
      hole_empty := by rw [read_set hlt, if_pos rfl]
      full := ?_
      reached := ?_
      avoids := ?_
      other := ?_ }
  · unfold succ
    split <;> omega
  · intro q hq hne hdist
    rw [List.length_set] at hq hdist
    exact absurd (hnear q hq hdist) hne
  · intro r y hr q hq hne hdist
    rw [List.length_set] at hq hdist
    rw [read_set hlt] at hr ⊢
    rw [if_neg hne]
    split at hr
    · exact absurd hr (by simp)
    · exact h r y hr q hq hdist
  · intro r y hr hdist
    have hrlt := read_lt hr
    rw [List.length_set] at hrlt hdist
    rw [hnear r hrlt hdist, read_set hlt, if_pos rfl] at hr
    exact absurd hr (by simp)
  · exact ⟨e, by rwa [List.length_set], hep, by rw [read_set hlt, if_neg hep, hnone]⟩

theorem Shifting.succ_ne (h : Shifting home T hole i) (hi : read T i ≠ none) :
    succ T.length i ≠ hole ∧ dist T.length hole (succ T.length i) = dist T.length hole i + 1 := by
  obtain ⟨e, he, hne, hnone⟩ := h.other
  have hei : e ≠ i := by
    rintro rfl
    exact hi hnone
  have hahead := h.ahead he hne hnone
  have hhole := h.hole_lt
  have hlt := h.lt
  revert hahead
  unfold dist succ
  split_ifs <;> omega

theorem Shifting.skip (h : Shifting home T hole i) {x : α} (hx : read T i = some x)
    (hhome : home x < T.length) (hmay : dist T.length (home x) i < dist T.length hole i) :
    Shifting home T hole (succ T.length i) := by
  have hi : read T i ≠ none := by
    rw [hx]
    simp
  obtain ⟨hne, hdist⟩ := h.succ_ne hi
  have hstep : ∀ q < T.length, dist T.length hole q < dist T.length hole (succ T.length i) →
      q = i ∨ dist T.length hole q < dist T.length hole i := by
    intro q hq hlt
    have hhole := h.hole_lt
    have hil := h.lt
    rw [hdist] at hlt
    revert hlt
    unfold dist
    split_ifs <;> omega
  refine
    { hole_lt := h.hole_lt, lt := succ_lt h.lt, ne := hne, hole_empty := h.hole_empty
      full := ?_, reached := h.reached, avoids := ?_, other := h.other }
  · intro q hq hqh hlt
    rcases hstep q hq hlt with rfl | hlt'
    · exact hi
    · exact h.full q hq hqh hlt'
  · intro p y hp hlt
    rcases hstep p (read_lt hp) hlt with rfl | hlt'
    · -- the home of the item lies between the hole and the item
      rw [hx, Option.some.injEq] at hp
      subst hp
      have hhole := h.hole_lt
      have hil := h.lt
      revert hmay
      unfold dist
      split_ifs <;> omega
    · exact h.avoids p y hp hlt'

theorem Shifting.move (h : Shifting home T hole i) {x : α} (hx : read T i = some x)
    (hhome : home x < T.length) (hmay : dist T.length hole i ≤ dist T.length (home x) i) :
    Shifting home ((T.set hole (some x)).set i none) i (succ T.length i) := by
  have hi : read T i ≠ none := by
    rw [hx]
    simp
  have hhole := h.hole_lt
  have hlt := h.lt
  have hne := h.ne
  have hlen : ((T.set hole (some x)).set i none).length = T.length := by
    rw [List.length_set, List.length_set]
  have hread : ∀ q, read ((T.set hole (some x)).set i none) q =
      if q = i then none else if q = hole then some x else read T q := by
    intro q
    rw [read_set (by rwa [List.length_set]), read_set hhole]
  obtain ⟨e, he, heh, hnone⟩ := h.other
  have hei : e ≠ i := by
    rintro rfl
    exact hi hnone
  have hnear : ∀ q < T.length, dist T.length i q < dist T.length i (succ T.length i) → q = i := by
    intro q hq
    unfold dist succ
    split_ifs <;> omega
  refine
    { hole_lt := by rwa [hlen]
      lt := by
        rw [hlen]
        exact succ_lt hlt
      ne := ?_
      hole_empty := by rw [hread, if_pos rfl]
      full := ?_
      reached := ?_
      avoids := ?_
      other := ⟨e, by rwa [hlen], hei, by rw [hread, if_neg hei, if_neg heh, hnone]⟩ }
  · unfold succ
    split <;> omega
  · intro q hq hqi hdist
    rw [hlen] at hq hdist
    exact absurd (hnear q hq hdist) hqi
  · intro p y hp q hq hqi hdist
    rw [hlen] at hq hdist
    rw [hread] at hp ⊢
    rw [if_neg hqi]
    by_cases hqh : q = hole
    · rw [if_pos hqh]
      simp
    rw [if_neg hqh]
    by_cases hpi : p = i
    · rw [if_pos hpi] at hp
      exact absurd hp (by simp)
    rw [if_neg hpi] at hp
    by_cases hph : p = hole
    · -- the hole lies between the home of the item and where the item was
      rw [if_pos hph, Option.some.injEq] at hp
      subst hp
      rw [hph] at hdist
      refine h.reached i x hx q hq hqh ?_
      revert hmay hdist
      unfold dist
      split_ifs <;> omega
    · rw [if_neg hph] at hp
      exact h.reached p y hp q hq hqh hdist
  · intro p y hp hdist
    have hplt := read_lt hp
    rw [hlen] at hplt hdist
    rw [hread, if_pos (hnear p hplt hdist)] at hp
    exact absurd hp (by simp)

theorem Shifting.closed (h : Shifting home T hole i) (hhome : ∀ x, home x < T.length)
    (hi : read T i = none) : Reached home T := by
  intro p x hp q hq hdist
  by_cases hqh : q = hole
  · exfalso
    rw [hqh] at hdist
    have hscan : dist T.length hole i ≤ dist T.length hole p := by
      by_contra hlt
      exact absurd (h.avoids p x hp (Nat.lt_of_not_le hlt)) (Nat.not_le_of_lt hdist)
    have hpi : p ≠ i := by
      rintro rfl
      rw [hi] at hp
      exact absurd hp (by simp)
    refine h.reached p x hp i h.lt h.ne ?_ hi
    -- the slot `i` lies between the hole and the item
    have hpl := read_lt hp
    have hhl := h.hole_lt
    have hil := h.lt
    have hhx := hhome x
    revert hdist hscan
    unfold dist
    split_ifs <;> omega
  · exact h.reached p x hp q hq hqh hdist

theorem Shifting.live_move (h : Shifting home T hole i) {x : α} (hx : read T i = some x) :
    (live ((T.set hole (some x)).set i none)).Perm (live T) := by
  have hin : (live (T.set hole (some x))).Perm (x :: live T) :=
    live_set h.hole_lt h.hole_empty x
  have hread : read (T.set hole (some x)) i = some x := by
    rw [read_set h.hole_lt, if_neg h.ne, hx]
  exact List.Perm.cons_inv ((live_set_none hread).symm.trans hin)

theorem Shifting.shift {next : ℕ → ℕ} {may : α → ℕ → ℕ → Bool} {n : ℕ}
    (hnext : ∀ i < n, next i = succ n i) (hhome : ∀ x, home x < n)
    (hmay : ∀ x hole i, hole < n → i < n →
      (may x hole i = true ↔ dist n hole i ≤ dist n (home x) i)) :
    ∀ (fuel : ℕ) (T : List (Option α)) (hole i : ℕ), T.length = n → Shifting home T hole i →
      (∃ e < n, e ≠ hole ∧ read T e = none ∧ dist n i e < fuel) →
      ∃ T', Probing.shift next may fuel T hole i = some T' ∧ T'.length = n ∧
        Reached home T' ∧ (live T').Perm (live T) := by
  intro fuel
  induction fuel with
  | zero =>
    rintro T hole i _ _ ⟨e, _, _, _, hfuel⟩
    exact absurd hfuel (Nat.not_lt_zero _)
  | succ fuel ih =>
    rintro T hole i rfl h ⟨e, he, heh, hnone, hfuel⟩
    rw [Probing.shift]
    cases hx : read T i with
    | none => exact ⟨T, rfl, rfl, h.closed hhome hx, List.Perm.refl _⟩
    | some x =>
      have hei : e ≠ i := by
        rintro rfl
        rw [hx] at hnone
        exact absurd hnone (by simp)
      have hless : dist T.length (succ T.length i) e < fuel := by
        have hil := h.lt
        revert hfuel
        unfold dist succ
        split_ifs <;> omega
      simp only [hnext i h.lt]
      by_cases hm : may x hole i = true
      · rw [if_pos hm]
        have hmove := h.move hx (hhome x) ((hmay x hole i h.hole_lt h.lt).mp hm)
        have hlen : ((T.set hole (some x)).set i none).length = T.length := by
          rw [List.length_set, List.length_set]
        have hread : read ((T.set hole (some x)).set i none) e = none := by
          rw [read_set (by rw [List.length_set]; exact h.lt), if_neg hei,
            read_set h.hole_lt, if_neg heh, hnone]
        obtain ⟨T', hshift, hlen', hreach, hperm⟩ :=
          ih _ i (succ T.length i) hlen hmove ⟨e, he, hei, hread, hless⟩
        exact ⟨T', hshift, hlen', hreach, hperm.trans (h.live_move hx)⟩
      · rw [if_neg hm]
        have hlt : dist T.length (home x) i < dist T.length hole i := by
          by_contra hge
          exact hm ((hmay x hole i h.hole_lt h.lt).mpr (Nat.le_of_not_lt hge))
        exact ih T hole (succ T.length i) rfl (h.skip hx (hhome x) hlt) ⟨e, he, heh, hnone, hless⟩

theorem Reached.erase {next : ℕ → ℕ} {may : α → ℕ → ℕ → Bool} (h : Reached home T)
    (hnext : ∀ i < T.length, next i = succ T.length i) (hhome : ∀ x, home x < T.length)
    (hmay : ∀ x hole i, hole < T.length → i < T.length →
      (may x hole i = true ↔ dist T.length hole i ≤ dist T.length (home x) i))
    (hroom : (live T).length < T.length) {p : ℕ} {x : α} (hp : read T p = some x) :
    ∃ T', Probing.shift next may T.length (T.set p none) p (next p) = some T' ∧
      T'.length = T.length ∧ Reached home T' ∧ (live T).Perm (x :: live T') := by
  have hplt := read_lt hp
  have hshifting := h.shifting hroom hp
  have hempty : ∃ e < T.length, e ≠ p ∧ read (T.set p none) e = none ∧
      dist T.length (succ T.length p) e < T.length := by
    obtain ⟨e, he, hep, hnone⟩ := hshifting.other
    rw [List.length_set] at he
    refine ⟨e, he, hep, hnone, ?_⟩
    have hs := succ_lt hplt
    unfold dist
    split <;> omega
  obtain ⟨T', hshift, hlen, hreach, hperm⟩ :=
    Shifting.shift hnext hhome hmay T.length _ p _ List.length_set hshifting hempty
  refine ⟨T', by rw [hnext p hplt, hshift], hlen, hreach, ?_⟩
  exact (live_set_none hp).trans (hperm.symm.cons x)

end Shift

theorem Reached.placeAll {next : ℕ → ℕ} {home : α → ℕ} (slots : List (Option α)) :
    ∀ T : List (Option α), (∀ i < T.length, next i = succ T.length i) →
      Reached home T → (live T).length + (live slots).length < T.length →
      (∀ x ∈ live slots, home x < T.length) →
      ∃ T', Probing.placeAll next home slots T = some T' ∧ T'.length = T.length ∧
        Reached home T' ∧ (live T').Perm (live slots ++ live T) := by
  induction slots with
  | nil =>
    intro T _ h _ _
    exact ⟨T, rfl, rfl, h, List.Perm.refl _⟩
  | cons slot slots ih =>
    intro T hnext h hroom hhome
    cases slot with
    | none => exact ih T hnext h hroom hhome
    | some x =>
      have hlive : live (some x :: slots) = x :: live slots := rfl
      rw [hlive, List.length_cons] at hroom
      rw [hlive] at hhome
      obtain ⟨T₁, hplace, hlen, hreach, hperm⟩ :=
        h.place hnext (by omega) (hhome x (List.mem_cons_self))
      have hlen₁ := hperm.length_eq
      rw [List.length_cons] at hlen₁
      obtain ⟨T', hall, hlen', hreach', hperm'⟩ :=
        ih T₁ (by rwa [hlen]) hreach (by omega) (by
            intro y hy
            rw [hlen]
            exact hhome y (List.mem_cons_of_mem _ hy))
      refine ⟨T', ?_, hlen'.trans hlen, hreach', ?_⟩
      · rw [Probing.placeAll, hplace, Option.bind_some, hall]
      · rw [hlive]
        refine hperm'.trans ?_
        exact (hperm.append_left (live slots)).trans List.perm_middle

end Probing
