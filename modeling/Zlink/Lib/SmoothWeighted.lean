import Mathlib.Algebra.BigOperators.Group.List.Basic
import Mathlib.Algebra.Order.BigOperators.Group.List
import Mathlib.Data.List.Nodup
import Mathlib.Tactic.Common
import Mathlib.Tactic.Linarith
import Mathlib.Tactic.Ring

/-!
# Smooth weighted selection

Shares with weights take turns. In a turn the credit of every share grows by its weight, the
share with the highest credit is selected, the lower tie key first, and the total weight is
taken from its credit. The credits stand in a list beside the shares.

What the credits are after some turns depends only on how often each share was selected, the sum
of the credits never changes, and turns that lead back to the same credits select every share.
-/

namespace SmoothWeighted

variable {T : Type*}

structure Share (T : Type*) where
  weight : ℕ
  tie : T

def applySelection (shares : List (Share T)) (total : ℤ) (credits : List ℤ) (selected : ℕ) :
    List ℤ :=
  (List.zipWith (fun s c => c + (s.weight : ℤ)) shares credits).modify selected fun c => c - total

def totalWeight (shares : List (Share T)) : ℕ :=
  (shares.map Share.weight).sum

def after (shares : List (Share T)) (total : ℤ) (credits : List ℤ) (turns : List ℕ) : List ℤ :=
  turns.foldl (applySelection shares total) credits

variable {shares : List (Share T)} {total : ℤ} {credits : List ℤ} {turns : List ℕ} {i j : ℕ}
  {s : Share T} {c : ℤ}

@[simp] theorem length_applySelection (hlength : credits.length = shares.length) (selected : ℕ) :
    (applySelection shares total credits selected).length = shares.length := by
  rw [applySelection, List.length_modify, List.length_zipWith, hlength, min_self]

theorem getElem?_applySelection (total : ℤ) (hs : shares[i]? = some s)
    (hc : credits[i]? = some c) (selected : ℕ) :
    (applySelection shares total credits selected)[i]? =
      some (c + s.weight - if selected = i then total else 0) := by
  rw [applySelection, List.getElem?_modify, List.getElem?_zipWith, hs, hc]
  by_cases hself : selected = i
  · simp [hself]
  · simp [hself]

theorem length_after (hlength : credits.length = shares.length) (turns : List ℕ) :
    (after shares total credits turns).length = shares.length := by
  induction turns generalizing credits with
  | nil => exact hlength
  | cons i turns ih => exact ih (length_applySelection hlength i)

theorem after_append (turns rest : List ℕ) : after shares total credits (turns ++ rest) =
      after shares total (after shares total credits turns) rest :=
  List.foldl_append

theorem getElem?_after (total : ℤ) (hs : shares[i]? = some s) (hc : credits[i]? = some c)
    (turns : List ℕ) : (after shares total credits turns)[i]? =
      some (c + turns.length * s.weight - turns.count i * total) := by
  induction turns generalizing credits c with
  | nil => simp [after, hc]
  | cons j turns ih =>
    have hnext := ih (getElem?_applySelection total hs hc j)
    rw [after, List.foldl_cons]
    refine hnext.trans (congrArg some ?_)
    rw [List.length_cons, List.count_cons]
    by_cases hself : j = i
    · simp only [hself, if_true, beq_self_eq_true]
      push_cast
      ring
    · have hbeq : (j == i) = false := beq_eq_false_iff_ne.mpr hself
      simp only [hself, hbeq, if_false]
      push_cast
      ring

theorem sum_modify_sub {xs : List ℤ} (h : i < xs.length) (total : ℤ) :
    (xs.modify i fun c => c - total).sum = xs.sum - total := by
  induction xs generalizing i with
  | nil => exact absurd h (Nat.not_lt_zero i)
  | cons x xs ih =>
    cases i with
    | zero =>
      rw [List.modify_zero_cons, List.sum_cons, List.sum_cons]
      ring
    | succ i =>
      rw [List.modify_succ_cons, List.sum_cons, List.sum_cons, ih (Nat.lt_of_succ_lt_succ h)]
      ring

theorem sum_raise (hlength : credits.length = shares.length) :
    (List.zipWith (fun (s : Share T) c => c + (s.weight : ℤ)) shares credits).sum =
      credits.sum + totalWeight shares := by
  induction shares generalizing credits with
  | nil =>
    rw [List.length_eq_zero_iff.mp hlength]
    rfl
  | cons s shares ih =>
    cases credits with
    | nil => exact absurd hlength (Nat.succ_ne_zero _).symm
    | cons c credits =>
      have hrest := ih (Nat.succ.inj hlength)
      rw [List.zipWith_cons_cons, List.sum_cons, List.sum_cons, hrest, totalWeight, totalWeight,
        List.map_cons, List.sum_cons]
      push_cast
      ring

theorem sum_applySelection (hlength : credits.length = shares.length) (hi : i < shares.length) :
    (applySelection shares (totalWeight shares) credits i).sum = credits.sum := by
  rw [applySelection, sum_modify_sub, sum_raise hlength]
  · ring
  · rwa [List.length_zipWith, hlength, min_self]

theorem after_take_succ (hi : turns[j]? = some i) :
    after shares total credits (turns.take (j + 1)) =
      applySelection shares total (after shares total credits (turns.take j)) i := by
  rw [List.take_add_one, hi, Option.toList_some, after_append]
  rfl

theorem mem_of_cycle (hlength : credits.length = shares.length)
    (hcycle : after shares total credits turns = credits) (hne : turns ≠ [])
    (hs : shares[i]? = some s) (hweight : 0 < s.weight) : i ∈ turns := by
  obtain ⟨hi, -⟩ := List.getElem?_eq_some_iff.mp hs
  obtain ⟨c, hc⟩ : ∃ c, credits[i]? = some c := by
    rw [← hlength] at hi
    exact ⟨_, List.getElem?_eq_getElem hi⟩
  have hafter := getElem?_after total hs hc turns
  rw [hcycle, hc] at hafter
  by_contra hmem
  rw [List.count_eq_zero.mpr hmem] at hafter
  have hgrow : 0 < (turns.length : ℤ) * s.weight :=
    mul_pos (by exact_mod_cast List.length_pos_iff.mpr hne) (by exact_mod_cast hweight)
  have hsame := Option.some.inj hafter
  push_cast at hsame
  linarith

theorem length_le_of_cycle (hlength : credits.length = shares.length)
    (hcycle : after shares total credits turns = credits) (hne : turns ≠ [])
    (hweights : ∀ s ∈ shares, 0 < s.weight) : shares.length ≤ turns.length := by
  have hsub : List.range shares.length ⊆ turns := by
    intro i hi
    have hlt := List.mem_range.mp hi
    exact mem_of_cycle hlength hcycle hne (List.getElem?_eq_getElem hlt)
      (hweights _ (List.getElem_mem hlt))
  have hle := (List.subperm_of_subset List.nodup_range hsub).length_le
  rwa [List.length_range] at hle

theorem sum_le_of_forall_le {xs : List ℤ} {b : ℤ} (h : ∀ x ∈ xs, x ≤ b) :
    xs.sum ≤ xs.length * b := by
  have hle := List.sum_le_card_nsmul xs b h
  rwa [nsmul_eq_mul] at hle

theorem le_sum_of_forall_ge {xs : List ℤ} {b : ℤ} (h : ∀ x ∈ xs, b ≤ x) :
    xs.length * b ≤ xs.sum := by
  have hle := List.card_nsmul_le_sum xs b h
  rwa [nsmul_eq_mul] at hle

theorem le_of_mem_of_ge {xs : List ℤ} {b x : ℤ} (h : ∀ y ∈ xs, b ≤ y) (hx : x ∈ xs) :
    x ≤ xs.sum - (xs.length - 1) * b := by
  obtain ⟨front, back, rfl⟩ := List.append_of_mem hx
  have hfront := le_sum_of_forall_ge fun y hy => h y (List.mem_append_left _ hy)
  have hback := le_sum_of_forall_ge fun y hy =>
    h y (List.mem_append_right _ (List.mem_cons_of_mem _ hy))
  rw [List.sum_append, List.sum_cons, List.length_append, List.length_cons]
  push_cast
  linarith

variable [LinearOrder T]

/-- The first bid has the higher credit, or the lower tie key at the same credit. -/
def beats (x y : ℤ × T) : Bool :=
  y.1 < x.1 || x.1 = y.1 && x.2 < y.2

def leader (index : ℕ) (best : Option (ℕ × (ℤ × T))) : List (ℤ × T) → Option ℕ
  | [] => best.map Prod.fst
  | x :: xs =>
    leader (index + 1) (if best.all fun y => beats x y.2 then some (index, x) else best) xs

def bids (shares : List (Share T)) (credits : List ℤ) : List (ℤ × T) :=
  List.zipWith (fun s c => (c + s.weight, s.tie)) shares credits

def selectIndex (shares : List (Share T)) (credits : List ℤ) : Option ℕ :=
  leader 0 none (bids shares credits)

theorem leader_max (index : ℕ) (best : ℕ × (ℤ × T)) (xs : List (ℤ × T)) :
    ∃ k y, leader index (some best) xs = some k ∧ best.2.1 ≤ y.1 ∧ (∀ x ∈ xs, x.1 ≤ y.1) ∧
      (k = best.1 ∧ y = best.2 ∨ ∃ l, k = index + l ∧ xs[l]? = some y) := by
  induction xs generalizing index best with
  | nil => exact ⟨best.1, best.2, rfl, le_rfl, nofun, .inl ⟨rfl, rfl⟩⟩
  | cons x xs ih =>
    rw [leader]
    simp only [Option.all_some]
    split
    · rename_i hbeats
      have hle : best.2.1 ≤ x.1 := by
        simp only [beats, Bool.or_eq_true, decide_eq_true_eq, Bool.and_eq_true] at hbeats
        rcases hbeats with hlt | ⟨heq, -⟩
        · exact hlt.le
        · exact heq.ge
      obtain ⟨k, y, hk, hxy, hmax, hat⟩ := ih (index + 1) (index, x)
      refine ⟨k, y, hk, hle.trans hxy, List.forall_mem_cons.mpr ⟨hxy, hmax⟩, .inr ?_⟩
      rcases hat with ⟨rfl, rfl⟩ | ⟨l, rfl, hl⟩
      · exact ⟨0, rfl, rfl⟩
      · exact ⟨l + 1, by omega, hl⟩
    · rename_i hbeats
      have hle : x.1 ≤ best.2.1 := by
        simp only [beats, Bool.or_eq_true, decide_eq_true_eq, not_or] at hbeats
        exact not_lt.mp hbeats.1
      obtain ⟨k, y, hk, hby, hmax, hat⟩ := ih (index + 1) best
      refine ⟨k, y, hk, hby, List.forall_mem_cons.mpr ⟨hle.trans hby, hmax⟩, ?_⟩
      rcases hat with hself | ⟨l, rfl, hl⟩
      · exact .inl hself
      · exact .inr ⟨l + 1, by omega, hl⟩

theorem leader_of_ne_nil {xs : List (ℤ × T)} (h : xs ≠ []) :
    ∃ k y, leader 0 none xs = some k ∧ xs[k]? = some y ∧ ∀ x ∈ xs, x.1 ≤ y.1 := by
  cases xs with
  | nil => exact absurd rfl h
  | cons x xs =>
    obtain ⟨k, y, hk, hxy, hmax, hat⟩ := leader_max 1 (0, x) xs
    refine ⟨k, y, hk, ?_, List.forall_mem_cons.mpr ⟨hxy, hmax⟩⟩
    rcases hat with ⟨rfl, rfl⟩ | ⟨l, rfl, hl⟩
    · rfl
    · rw [Nat.add_comm]
      exact hl

theorem selectIndex_spec (hlength : credits.length = shares.length) (hne : shares ≠ []) :
    ∃ k s c, selectIndex shares credits = some k ∧ shares[k]? = some s ∧ credits[k]? = some c ∧
      ∀ (i : ℕ) (s' : Share T) (c' : ℤ), shares[i]? = some s' → credits[i]? = some c' →
        c' + s'.weight ≤ c + s.weight := by
  have hbids : bids shares credits ≠ [] := by
    rw [← List.length_pos_iff, bids, List.length_zipWith, hlength, min_self]
    exact List.length_pos_iff.mpr hne
  obtain ⟨k, y, hk, hy, hmax⟩ := leader_of_ne_nil hbids
  obtain ⟨s, c, hs, hc, rfl⟩ := List.getElem?_zipWith_eq_some.mp hy
  refine ⟨k, s, c, hk, hs, hc, fun i s' c' hs' hc' => ?_⟩
  refine hmax (c' + s'.weight, s'.tie) (List.mem_of_getElem? (i := i) ?_)
  exact List.getElem?_zipWith_eq_some.mpr ⟨s', c', hs', hc', rfl⟩

def Follows (shares : List (Share T)) (total : ℤ) : List ℤ → List ℕ → Prop
  | _, [] => True
  | credits, i :: turns =>
    selectIndex shares credits = some i ∧
      Follows shares total (applySelection shares total credits i) turns

theorem follows_append {rest : List ℕ} : Follows shares total credits (turns ++ rest) ↔
      Follows shares total credits turns ∧
        Follows shares total (after shares total credits turns) rest := by
  induction turns generalizing credits with
  | nil => exact (true_and _).symm.to_iff
  | cons i turns ih =>
    rw [List.cons_append, Follows, Follows, ih, and_assoc]
    rfl

theorem Follows.selectIndex_take (h : Follows shares total credits turns)
    (hi : turns[j]? = some i) :
    selectIndex shares (after shares total credits (turns.take j)) = some i := by
  obtain ⟨hj, hget⟩ := List.getElem?_eq_some_iff.mp hi
  have hsplit : turns = turns.take j ++ i :: turns.drop (j + 1) := by
    rw [← hget, List.cons_getElem_drop_succ, List.take_append_drop]
  rw [hsplit] at h
  exact (follows_append.mp h).2.1

/-- Credits of at least `low` less the total keep that bound, when their sum lets the highest bid
be at least `low`. -/
theorem ge_applySelection {low : ℤ} (hlength : credits.length = shares.length) (hne : shares ≠ [])
    (hsum : shares.length * (low - 1) < credits.sum + totalWeight shares)
    (hge : ∀ c ∈ credits, low - totalWeight shares ≤ c)
    (hselect : selectIndex shares credits = some i) : i < shares.length ∧
      ∀ c ∈ applySelection shares (totalWeight shares) credits i, low - totalWeight shares ≤ c := by
  obtain ⟨k, s, c, hk, hs, hc, hmax⟩ := selectIndex_spec hlength hne
  obtain rfl := Option.some.inj (hselect.symm.trans hk)
  have hi := (List.getElem?_eq_some_iff.mp hs).1
  refine ⟨hi, fun x hx => ?_⟩
  obtain ⟨j, hj⟩ := List.mem_iff_getElem?.mp hx
  have hjlt : j < shares.length := by
    have hlt := (List.getElem?_eq_some_iff.mp hj).1
    rwa [length_applySelection hlength] at hlt
  have hs' := List.getElem?_eq_getElem hjlt
  have hc' := List.getElem?_eq_getElem (hjlt.trans_eq hlength.symm)
  rw [getElem?_applySelection _ hs' hc'] at hj
  obtain rfl := Option.some.inj hj
  have hold := hge _ (List.getElem_mem (hjlt.trans_eq hlength.symm))
  have hweight : (0 : ℤ) ≤ (shares[j].weight : ℤ) := Int.natCast_nonneg _
  split
  · rename_i hself
    subst hself
    -- the highest bid is at least the average
    obtain rfl := Option.some.inj (hc.symm.trans hc')
    obtain rfl := Option.some.inj (hs.symm.trans hs')
    by_contra hlow
    have hall : ∀ b ∈ List.zipWith (fun (s : Share T) c => c + (s.weight : ℤ)) shares credits,
        b ≤ low - 1 := by
      intro b hb
      obtain ⟨l, hl⟩ := List.mem_iff_getElem?.mp hb
      obtain ⟨s', c', hs', hc', rfl⟩ := List.getElem?_zipWith_eq_some.mp hl
      have hle := hmax l s' c' hs' hc'
      linarith
    have hle := sum_le_of_forall_le hall
    rw [sum_raise hlength, List.length_zipWith, hlength, min_self] at hle
    linarith
  · linarith

theorem Follows.keeps {low : ℤ} (h : Follows shares (totalWeight shares) credits turns)
    (hlength : credits.length = shares.length) (hne : shares ≠ [])
    (hsum : shares.length * (low - 1) < credits.sum + totalWeight shares)
    (hge : ∀ c ∈ credits, low - totalWeight shares ≤ c) :
    (after shares (totalWeight shares) credits turns).sum = credits.sum ∧
      ∀ c ∈ after shares (totalWeight shares) credits turns, low - totalWeight shares ≤ c := by
  induction turns generalizing credits with
  | nil => exact ⟨rfl, hge⟩
  | cons i turns ih =>
    obtain ⟨hi, hnext⟩ := ge_applySelection hlength hne hsum hge h.1
    have hsame := sum_applySelection hlength hi
    obtain ⟨hrest, hkept⟩ := ih h.2 (length_applySelection hlength i) (hsame ▸ hsum) hnext
    exact ⟨hrest.trans hsame, hkept⟩

omit [LinearOrder T] in
theorem lt_of_sum_ge {sum : ℤ} (hne : shares ≠ [])
    (h : -(shares.length * totalWeight shares : ℤ) ≤ sum) :
    shares.length * (-(totalWeight shares : ℤ) - 1) < sum + totalWeight shares := by
  have hpos : (0 : ℤ) < shares.length := by exact_mod_cast List.length_pos_iff.mpr hne
  have htotal : (0 : ℤ) ≤ (totalWeight shares : ℤ) := Int.natCast_nonneg _
  linarith

/-- Credits that begin between minus the total and the total stay within three times the total
for each share. -/
theorem Follows.le_bound (h : Follows shares (totalWeight shares) credits turns)
    (hlength : credits.length = shares.length) (hne : shares ≠ [])
    (hrange : ∀ c ∈ credits, -(totalWeight shares : ℤ) ≤ c ∧ c ≤ totalWeight shares) :
    ∀ c ∈ after shares (totalWeight shares) credits turns,
      c ≤ 3 * (shares.length * totalWeight shares) := by
  have htotal : (0 : ℤ) ≤ (totalWeight shares : ℤ) := Int.natCast_nonneg _
  have hlower := le_sum_of_forall_ge fun c hc => (hrange c hc).1
  have hupper := sum_le_of_forall_le fun c hc => (hrange c hc).2
  rw [hlength] at hlower hupper
  obtain ⟨hsum, hge⟩ := h.keeps hlength hne (lt_of_sum_ge hne (by linarith)) fun c hc => by
    have hle := (hrange c hc).1
    linarith
  intro c hc
  have hle := le_of_mem_of_ge hge hc
  rw [hsum, length_after hlength] at hle
  nlinarith

/-! ## Credits by key

The plain form of a turn keeps the credits by key and goes over the shares once. It stops where
a credit would exceed a limit. -/

variable {K : Type*} [DecidableEq K]

def tally (limit : ℤ) (credits : K → ℤ) (selected : Option (K × T)) :
    List (K × Share T) → (K → ℤ) × Option (Option (K × T))
  | [] => (credits, some selected)
  | (key, share) :: items =>
    if limit - share.weight < credits key then (credits, none)
    else
      let raised := Function.update credits key (credits key + share.weight)
      let best := selected.all fun x => beats (raised key, share.tie) (raised x.1, x.2)
      tally limit raised (if best then some (key, share.tie) else selected) items

inductive Outcome (K : Type*) where
  | idle
  | selected (key : K)
  | exhausted
  deriving DecidableEq

def turn (limit total : ℤ) (credits : K → ℤ) (items : List (K × Share T)) : (K → ℤ) × Outcome K :=
  match tally limit credits none items with
  | (raised, none) => (raised, .exhausted)
  | (raised, some none) => (raised, .idle)
  | (raised, some (some x)) => (Function.update raised x.1 (raised x.1 - total), .selected x.1)

variable {limit : ℤ} {byKey : K → ℤ} {items : List (K × Share T)}

def creditsOf (credits : K → ℤ) (items : List (K × Share T)) : List ℤ :=
  items.map fun item => credits item.1

omit [LinearOrder T] in
theorem creditsOf_update {key : K} (hkey : key ∉ items.map Prod.fst) (value : ℤ) :
    creditsOf (Function.update byKey key value) items = creditsOf byKey items := by
  refine List.map_congr_left fun item hitem => ?_
  refine Function.update_of_ne (fun heq => hkey ?_) _ _
  exact heq ▸ List.mem_map_of_mem hitem

theorem tally_spec (byKey : K → ℤ) (front : List (K × Share T)) (best : Option (ℕ × (ℤ × T)))
    (selected : Option (K × T)) (hnodup : (items.map Prod.fst).Nodup)
    (hlimit : ∀ item ∈ items, byKey item.1 + item.2.weight ≤ limit)
    (hbest : selected = best.bind fun b => front[b.1]?.map fun x => (x.1, x.2.tie))
    (hbid : ∀ b, best = some b → ∃ x, front[b.1]? = some x ∧ b.2 = (byKey x.1, x.2.tie) ∧
      x.1 ∉ items.map Prod.fst) :
    (tally limit byKey selected items).2 =
        some ((leader front.length best (bids (items.map Prod.snd) (creditsOf byKey items))).bind
          fun k => (front ++ items)[k]?.map fun x => (x.1, x.2.tie)) ∧
      creditsOf (tally limit byKey selected items).1 items =
        List.zipWith (fun s c => c + (s.weight : ℤ)) (items.map Prod.snd) (creditsOf byKey items) ∧
      ∀ key ∉ items.map Prod.fst, (tally limit byKey selected items).1 key = byKey key := by
  induction items generalizing byKey front best selected with
  | nil =>
    refine ⟨?_, rfl, fun _ _ => rfl⟩
    rw [hbest, List.append_nil]
    cases best <;> rfl
  | cons item items ih =>
    obtain ⟨key, share⟩ := item
    obtain ⟨hkey, hrest⟩ := List.nodup_cons.mp hnodup
    have hle := hlimit (key, share) List.mem_cons_self
    have hraise : (tally limit byKey selected ((key, share) :: items)) =
        tally limit (Function.update byKey key (byKey key + share.weight))
          (if selected.all fun x => beats (byKey key + share.weight, share.tie)
              (Function.update byKey key (byKey key + share.weight) x.1, x.2)
            then some (key, share.tie) else selected) items := by
      rw [tally, if_neg (not_lt.mpr (le_sub_iff_add_le.mpr hle))]
      simp only [Function.update_self]
    -- the best share in front compares as its bid
    have hcompare : (selected.all fun x => beats (byKey key + share.weight, share.tie)
        (Function.update byKey key (byKey key + share.weight) x.1, x.2)) =
          best.all fun y => beats (byKey key + share.weight, share.tie) y.2 := by
      cases hb : best with
      | none => rw [hbest, hb]; rfl
      | some b =>
        obtain ⟨x, hx, hbx, hne⟩ := hbid b hb
        have hkeys : x.1 ≠ key := fun heq => hne (heq ▸ List.mem_cons_self)
        rw [hbest, hb, Option.bind_some, hx, Option.map_some, Option.all_some, Option.all_some,
          Function.update_of_ne hkeys, hbx]
    have hcredits : creditsOf (Function.update byKey key (byKey key + share.weight)) items =
        creditsOf byKey items := creditsOf_update hkey _
    have hnext := ih (Function.update byKey key (byKey key + share.weight))
      (front ++ [(key, share)])
      (if best.all fun y => beats (byKey key + share.weight, share.tie) y.2
        then some (front.length, (byKey key + share.weight, share.tie)) else best)
      (if best.all fun y => beats (byKey key + share.weight, share.tie) y.2
        then some (key, share.tie) else selected) hrest ?_ ?_ ?_
    · rw [hraise, hcompare]
      obtain ⟨hselected, hraised, hothers⟩ := hnext
      rw [hcredits] at hselected hraised
      refine ⟨?_, ?_, ?_⟩
      · rw [hselected, List.length_append, List.length_singleton, List.append_assoc]
        rfl
      · rw [creditsOf, List.map_cons, hothers key hkey, Function.update_self]
        exact congrArg _ hraised
      · intro other hother
        rw [List.map_cons, List.mem_cons, not_or] at hother
        rw [hothers other hother.2, Function.update_of_ne hother.1]
    · intro item hitem
      have hne : item.1 ≠ key := by
        rintro rfl
        exact hkey (show item.1 ∈ _ from List.mem_map_of_mem hitem)
      rw [Function.update_of_ne hne]
      exact hlimit item (List.mem_cons_of_mem _ hitem)
    · split
      · simp
      · rw [hbest]
        cases hb : best with
        | none => rfl
        | some b =>
          obtain ⟨x, hx, -, -⟩ := hbid b hb
          have hlt := (List.getElem?_eq_some_iff.mp hx).1
          rw [Option.bind_some, Option.bind_some, List.getElem?_append_left hlt]
    · intro b hb
      split at hb
      · obtain rfl := Option.some.inj hb
        refine ⟨(key, share), by simp, ?_, hkey⟩
        rw [Function.update_self]
      · obtain ⟨x, hx, hbx, hne⟩ := hbid b hb
        have hlt := (List.getElem?_eq_some_iff.mp hx).1
        rw [List.map_cons, List.mem_cons, not_or] at hne
        refine ⟨x, ?_, ?_, hne.2⟩
        · rwa [List.getElem?_append_left hlt]
        · rwa [Function.update_of_ne hne.1]

theorem turn_spec (total : ℤ) (hnodup : (items.map Prod.fst).Nodup)
    (hlimit : ∀ item ∈ items, byKey item.1 + item.2.weight ≤ limit) (hne : items ≠ []) :
    ∃ k key, selectIndex (items.map Prod.snd) (creditsOf byKey items) = some k ∧
      (items.map Prod.fst)[k]? = some key ∧ (turn limit total byKey items).2 = .selected key ∧
      creditsOf (turn limit total byKey items).1 items =
        applySelection (items.map Prod.snd) total (creditsOf byKey items) k ∧
      ∀ other ∉ items.map Prod.fst, (turn limit total byKey items).1 other = byKey other := by
  have hlength : (creditsOf byKey items).length = (items.map Prod.snd).length := by
    rw [creditsOf, List.length_map, List.length_map]
  obtain ⟨k, s, c, hk, hs, -, -⟩ := selectIndex_spec hlength (by simpa using hne)
  rw [List.getElem?_map] at hs
  obtain ⟨x, hx, rfl⟩ := Option.map_eq_some_iff.mp hs
  obtain ⟨hselected, hraised, hothers⟩ := tally_spec byKey [] none none hnodup hlimit rfl nofun
  have hkey : (items.map Prod.fst)[k]? = some x.1 := by
    rw [List.getElem?_map, hx]
    rfl
  have hleader : leader ([] : List (K × Share T)).length none
      (bids (items.map Prod.snd) (creditsOf byKey items)) = some k := hk
  rw [hleader, Option.bind_some, List.nil_append, hx, Option.map_some] at hselected
  generalize htally : tally limit byKey none items = result at hselected hraised hothers
  obtain ⟨raised, selected⟩ := result
  obtain rfl : selected = some (some (x.1, x.2.tie)) := hselected
  have hturn : turn limit total byKey items =
      (Function.update raised x.1 (raised x.1 - total), .selected x.1) := by
    rw [turn, htally]
  refine ⟨k, x.1, hk, hkey, by rw [hturn], ?_, ?_⟩
  · rw [hturn, applySelection, ← hraised]
    -- the key of the selected share occurs once
    apply List.ext_getElem?
    intro j
    rw [List.getElem?_modify, creditsOf, creditsOf, List.getElem?_map, List.getElem?_map]
    cases hj : items[j]? with
    | none => rfl
    | some y =>
      by_cases hkj : k = j
      · subst hkj
        obtain rfl := Option.some.inj (hx.symm.trans hj)
        simp
      · have hyx : y.1 ≠ x.1 := by
          intro heq
          have hj' : (items.map Prod.fst)[j]? = some x.1 := by
            rw [List.getElem?_map, hj, Option.map_some, heq]
          have hlt := (List.getElem?_eq_some_iff.mp hkey).1
          exact hkj ((List.getElem?_inj hlt hnodup).mp (hkey.trans hj'.symm))
        simp [hkj, hyx]
  · intro other hother
    rw [hturn]
    have hne' : other ≠ x.1 := by
      rintro rfl
      exact hother (List.mem_map_of_mem (List.mem_of_getElem? hx))
    exact (Function.update_of_ne hne' _ _).trans (hothers other hother)

theorem le_of_not_exhausted (selected : Option (K × T))
    (hnodup : (items.map Prod.fst).Nodup) (h : (tally limit byKey selected items).2 ≠ none) :
    ∀ item ∈ items, byKey item.1 + item.2.weight ≤ limit := by
  induction items generalizing byKey selected with
  | nil => nofun
  | cons item items ih =>
    obtain ⟨key, share⟩ := item
    obtain ⟨hkey, hrest⟩ := List.nodup_cons.mp hnodup
    rw [tally] at h
    split at h
    · exact absurd rfl h
    · rename_i hle
      refine List.forall_mem_cons.mpr ⟨le_sub_iff_add_le.mp (not_lt.mp hle), fun x hx => ?_⟩
      have hne : x.1 ≠ key := by
        rintro rfl
        exact hkey (show x.1 ∈ _ from List.mem_map_of_mem hx)
      have hlater := ih _ hrest h x hx
      rwa [Function.update_of_ne hne] at hlater

theorem exhausted_iff : (turn limit total byKey items).2 = .exhausted ↔
    (tally limit byKey none items).2 = none := by
  unfold turn
  rcases tally limit byKey none items with ⟨raised, _ | _ | _⟩ <;> simp

def assign (credits : K → ℤ) : List K → List ℤ → K → ℤ
  | key :: keys, value :: values => assign (Function.update credits key value) keys values
  | _, _ => credits

omit [LinearOrder T] in
theorem assign_of_not_mem {keys : List K} {values : List ℤ} {key : K} (h : key ∉ keys) :
    assign byKey keys values key = byKey key := by
  induction keys generalizing byKey values with
  | nil => rfl
  | cons first keys ih =>
    cases values with
    | nil => rfl
    | cons value values =>
      rw [List.mem_cons, not_or] at h
      rw [assign, ih h.2, Function.update_of_ne h.1]

omit [LinearOrder T] in
theorem creditsOf_assign (byKey : K → ℤ) {values : List ℤ}
    (hnodup : (items.map Prod.fst).Nodup) (hlength : values.length = items.length) :
    creditsOf (assign byKey (items.map Prod.fst) values) items = values := by
  induction items generalizing byKey values with
  | nil => exact (List.length_eq_zero_iff.mp hlength).symm
  | cons item items ih =>
    cases values with
    | nil => exact absurd hlength (Nat.succ_ne_zero _).symm
    | cons value values =>
      obtain ⟨hkey, hrest⟩ := List.nodup_cons.mp hnodup
      rw [List.map_cons, assign, creditsOf, List.map_cons, assign_of_not_mem hkey,
        Function.update_self]
      exact congrArg _ (ih _ hrest (Nat.succ.inj hlength))

end SmoothWeighted
