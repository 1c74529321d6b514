import Mathlib

/-!
# The entries of a page

A page holds as many entries from the front as its limits allow. The entries are cut first
where their raw fields exceed the byte limit, and then, if the encoded page is still too
large, by bisection. A subtraction that would go below zero has no result here.
-/

namespace Zlink.Locations

namespace PagePrefix

def subSize (a b : ℕ) : Option ℕ :=
  if b ≤ a then some (a - b) else none

theorem subSize_of_le {a b : ℕ} (h : b ≤ a) : subSize a b = some (a - b) :=
  if_pos h

def fitFields (remaining : ℕ) : List ℕ → Option (Option ℕ)
  | [] => some (some remaining)
  | field :: fields =>
    if remaining < field then some none
    else do fitFields (← subSize remaining field) fields

def rawPrefix {Entry : Type} (limit byteLimit : ℕ) (rawFieldSizes : Entry → List ℕ)
    (count rawBytes : ℕ) : List Entry → Option ℕ
  | [] => some count
  | entry :: entries =>
    if count < limit then do
      match ← fitFields (← subSize byteLimit rawBytes) (rawFieldSizes entry) with
      | none => some count
      | some remaining =>
        rawPrefix limit byteLimit rawFieldSizes (count + 1) (← subSize byteLimit remaining) entries
    else some count

def bisect (fits : ℕ → Bool) (lower upper : ℕ) : Option ℕ :=
  if lower < upper then
    if upper < lower then none
    else
      let candidate := lower + (upper - lower + 1) / 2
      if fits candidate then bisect fits candidate upper
      else if candidate < 1 then none
      else bisect fits lower (candidate - 1)
  else some lower
termination_by upper - lower

def boundedPagePrefix {Entry : Type} (entries : List Entry) (itemLimit byteLimit : ℕ)
    (rawFieldSizes : Entry → List ℕ) (fits : ℕ → Bool) : Option (Option ℕ) := do
  let limit := min itemLimit entries.length
  let count ← rawPrefix limit byteLimit rawFieldSizes 0 0 entries
  if count = 0 then
    return none
  if fits count then
    return some count
  let upper ← subSize count 1
  let lower ← bisect fits 0 upper
  return if lower = 0 then none else some lower

variable {Entry : Type} {entries : List Entry} {limit itemLimit byteLimit : ℕ}
  {rawFieldSizes : Entry → List ℕ} {fits : ℕ → Bool}

/-- The raw sizes of the first `n` entries. -/
def rawTotal (rawFieldSizes : Entry → List ℕ) (entries : List Entry) (n : ℕ) : ℕ :=
  ((entries.take n).map fun entry => (rawFieldSizes entry).sum).sum

theorem rawTotal_cons (entry : Entry) (n : ℕ) : rawTotal rawFieldSizes (entry :: entries) (n + 1) =
      (rawFieldSizes entry).sum + rawTotal rawFieldSizes entries n := by
  rw [rawTotal, List.take_succ_cons, List.map_cons, List.sum_cons, rawTotal]

theorem rawTotal_mono (rawFieldSizes : Entry → List ℕ) (entries : List Entry) {m n : ℕ}
    (h : m ≤ n) : rawTotal rawFieldSizes entries m ≤ rawTotal rawFieldSizes entries n := by
  induction entries generalizing m n with
  | nil => simp [rawTotal]
  | cons entry entries ih =>
    cases m with
    | zero => exact Nat.zero_le _
    | succ m =>
      cases n with
      | zero => exact absurd h (Nat.not_succ_le_zero m)
      | succ n =>
        rw [rawTotal_cons, rawTotal_cons]
        exact Nat.add_le_add_left (ih (Nat.le_of_succ_le_succ h)) _

theorem fitFields_eq (remaining : ℕ) (fields : List ℕ) : fitFields remaining fields =
      some (if fields.sum ≤ remaining then some (remaining - fields.sum) else none) := by
  induction fields generalizing remaining with
  | nil => simp [fitFields]
  | cons field fields ih =>
    rw [fitFields, List.sum_cons]
    by_cases h : remaining < field
    · rw [if_pos h, if_neg (by omega)]
    · have hle := Nat.le_of_not_lt h
      rw [if_neg h, subSize_of_le hle]
      simp only [Option.bind_eq_bind, Option.bind_some]
      rw [ih, Nat.sub_sub]
      by_cases hsum : fields.sum ≤ remaining - field
      · rw [if_pos hsum, if_pos (by omega)]
      · rw [if_neg hsum, if_neg (by omega)]

theorem rawPrefix_spec (rawFieldSizes : Entry → List ℕ) (entries : List Entry)
    (count rawBytes : ℕ) (hcount : count ≤ limit) (hraw : rawBytes ≤ byteLimit) :
    ∃ m, rawPrefix limit byteLimit rawFieldSizes count rawBytes entries = some (count + m) ∧
      m ≤ entries.length ∧ count + m ≤ limit ∧
      rawBytes + rawTotal rawFieldSizes entries m ≤ byteLimit ∧
      (m < entries.length → count + m < limit →
        byteLimit < rawBytes + rawTotal rawFieldSizes entries (m + 1)) := by
  induction entries generalizing count rawBytes with
  | nil => exact ⟨0, rfl, le_rfl, hcount, hraw, fun h => absurd h (Nat.lt_irrefl 0)⟩
  | cons entry entries ih =>
    rw [rawPrefix]
    by_cases hlt : count < limit
    · rw [if_pos hlt, subSize_of_le hraw]
      simp only [Option.bind_eq_bind, Option.bind_some, fitFields_eq]
      by_cases hsum : (rawFieldSizes entry).sum ≤ byteLimit - rawBytes
      · have hnext : byteLimit - (byteLimit - rawBytes - (rawFieldSizes entry).sum) =
            rawBytes + (rawFieldSizes entry).sum := by omega
        rw [if_pos hsum]
        simp only [subSize_of_le (show byteLimit - rawBytes - (rawFieldSizes entry).sum ≤
          byteLimit by omega), Option.bind_some, hnext]
        obtain ⟨m, heq, hm, hmlimit, hmraw, hmax⟩ :=
          ih (count + 1) (rawBytes + (rawFieldSizes entry).sum) hlt (by omega)
        refine ⟨m + 1, ?_, Nat.succ_le_succ hm, by omega, ?_, ?_⟩
        · rw [heq, Nat.add_assoc, Nat.add_comm 1]
        · rw [rawTotal_cons, ← Nat.add_assoc]
          exact hmraw
        · intro hlength hbelow
          rw [rawTotal_cons, ← Nat.add_assoc]
          exact hmax (Nat.lt_of_succ_lt_succ hlength) (by omega)
      · rw [if_neg hsum]
        refine ⟨0, rfl, Nat.zero_le _, hcount, hraw, fun _ _ => ?_⟩
        rw [rawTotal_cons]
        omega
    · rw [if_neg hlt]
      exact ⟨0, rfl, Nat.zero_le _, hcount, hraw, fun _ h => absurd h hlt⟩

theorem bisect_spec (hdown : ∀ m n, m ≤ n → fits n = true → fits m = true) (lower upper : ℕ)
    (hle : lower ≤ upper) (hlower : lower = 0 ∨ fits lower = true)
    (hupper : ∀ n, upper < n → fits n = false) :
    ∃ last, bisect fits lower upper = some last ∧ last ≤ upper ∧
      (last = 0 ∨ fits last = true) ∧ ∀ n, last < n → fits n = false := by
  induction hspan : upper - lower using Nat.strongRecOn generalizing lower upper with
  | ind span ih =>
    rw [bisect]
    by_cases hlt : lower < upper
    · rw [if_pos hlt, if_neg (Nat.not_lt.mpr hle)]
      simp only
      generalize hcandidate : lower + (upper - lower + 1) / 2 = candidate
      have hlow : lower < candidate := by omega
      have hhigh : candidate ≤ upper := by omega
      by_cases hfits : fits candidate = true
      · rw [if_pos hfits]
        exact ih (upper - candidate) (by omega) candidate upper hhigh (.inr hfits) hupper rfl
      · rw [if_neg hfits, if_neg (by omega)]
        obtain ⟨last, heq, hlast, hrest⟩ := ih (candidate - 1 - lower) (by omega) lower
          (candidate - 1) (by omega) hlower (fun n hn => by
            rw [Bool.eq_false_iff]
            exact fun h => hfits (hdown candidate n (by omega) h)) rfl
        exact ⟨last, heq, by omega, hrest⟩
    · have heq : lower = upper := by omega
      rw [if_neg hlt]
      exact ⟨lower, rfl, hle, hlower, heq ▸ hupper⟩

/-- The counts that a page may have. -/
def Qualifies (entries : List Entry) (itemLimit byteLimit : ℕ) (rawFieldSizes : Entry → List ℕ)
    (fits : ℕ → Bool) (n : ℕ) : Prop :=
  0 < n ∧ n ≤ itemLimit ∧ n ≤ entries.length ∧ rawTotal rawFieldSizes entries n ≤ byteLimit ∧
    fits n = true

/-- A result is the largest count of a set, or there is no count. -/
def Answers (Q : ℕ → Prop) (result : Option ℕ) : Prop :=
  (∀ n, result = some n ↔ IsGreatest { n | Q n } n) ∧ (result = none ↔ ∀ n, ¬ Q n)

theorem answers_some {Q : ℕ → Prop} {n : ℕ} (h : IsGreatest { n | Q n } n) :
    Answers Q (some n) := by
  constructor
  · intro m
    constructor
    · intro heq
      obtain rfl := Option.some.inj heq
      exact h
    · intro hm
      rw [h.unique hm]
  · constructor
    · intro heq
      cases heq
    · intro hnone
      exact absurd h.1 (hnone n)

theorem answers_none {Q : ℕ → Prop} (h : ∀ n, ¬ Q n) : Answers Q none := by
  constructor
  · intro m
    constructor
    · intro heq
      cases heq
    · intro hm
      exact absurd hm.1 (h m)
  · exact iff_of_true rfl h

theorem Qualifies.le_cut {n m : ℕ} (h : Qualifies entries itemLimit byteLimit rawFieldSizes fits n)
    (hmax : m < entries.length → m < min itemLimit entries.length →
      byteLimit < rawTotal rawFieldSizes entries (m + 1)) : n ≤ m := by
  obtain ⟨-, hitems, hlength, hraw, -⟩ := h
  by_contra hlt
  have hbeyond := hmax (by omega) (by omega)
  have hmono := rawTotal_mono rawFieldSizes entries (Nat.lt_of_not_le hlt)
  exact absurd (Nat.lt_of_lt_of_le hbeyond hmono) (Nat.not_lt.mpr hraw)

/-- The search ends without an underflow, with the largest count that qualifies, or with none
where no count does. -/
theorem boundedPagePrefix_greatest (entries : List Entry) (itemLimit byteLimit : ℕ)
    (rawFieldSizes : Entry → List ℕ) (fits : ℕ → Bool)
    (hdown : ∀ m n, m ≤ n → fits n = true → fits m = true) :
    ∃ result, boundedPagePrefix entries itemLimit byteLimit rawFieldSizes fits = some result ∧
      Answers (Qualifies entries itemLimit byteLimit rawFieldSizes fits) result := by
  obtain ⟨cut, hcut, -, hlimit, hraw, hmax⟩ :=
    rawPrefix_spec rawFieldSizes entries 0 0 (Nat.zero_le (min itemLimit entries.length))
      (Nat.zero_le byteLimit)
  simp only [Nat.zero_add] at hcut hlimit hraw hmax
  have hitems : cut ≤ itemLimit := hlimit.trans (Nat.min_le_left _ _)
  have hlength : cut ≤ entries.length := hlimit.trans (Nat.min_le_right _ _)
  have hcounts {n : ℕ} (hn : n ≤ cut) (hpos : n ≠ 0) (hfits : fits n = true) :
      Qualifies entries itemLimit byteLimit rawFieldSizes fits n :=
    ⟨Nat.pos_of_ne_zero hpos, hn.trans hitems, hn.trans hlength, (rawTotal_mono _ _ hn).trans hraw,
      hfits⟩
  rw [boundedPagePrefix]
  simp only [hcut, Option.bind_eq_bind, Option.bind_some]
  by_cases hzero : cut = 0
  · rw [if_pos hzero]
    refine ⟨none, rfl, answers_none fun n hn => ?_⟩
    have hle := hn.le_cut hmax
    exact absurd hn.1 (by omega)
  rw [if_neg hzero]
  by_cases hfits : fits cut = true
  · rw [if_pos hfits]
    exact ⟨some cut, rfl, answers_some ⟨hcounts le_rfl hzero hfits, fun n hn => hn.le_cut hmax⟩⟩
  rw [if_neg hfits, subSize_of_le (Nat.one_le_iff_ne_zero.mpr hzero)]
  have hupper (n : ℕ) (hn : cut - 1 < n) : fits n = false := by
    rw [Bool.eq_false_iff]
    exact fun h => hfits (hdown cut n (by omega) h)
  obtain ⟨last, hlast, hle, hlower, hbeyond⟩ :=
    bisect_spec hdown 0 (cut - 1) (Nat.zero_le _) (.inl rfl) hupper
  have hlargest {n : ℕ} (hn : Qualifies entries itemLimit byteLimit rawFieldSizes fits n) :
      n ≤ last := by
    by_contra hlt
    have hno := hbeyond n (Nat.lt_of_not_le hlt)
    rw [hn.2.2.2.2] at hno
    cases hno
  simp only [Option.bind_some, hlast]
  by_cases hnone : last = 0
  · rw [if_pos hnone]
    refine ⟨none, rfl, answers_none fun n hn => ?_⟩
    have hle := hlargest hn
    exact absurd hn.1 (by omega)
  · rw [if_neg hnone]
    exact ⟨some last, rfl, answers_some ⟨hcounts (by omega) hnone (hlower.resolve_left hnone),
      fun n hn => hlargest hn⟩⟩

/-- Three entries of two bytes each: five bytes take two of them, and a page of at most one
entry takes one. -/
theorem boundedPagePrefix_greatest_three :
    (∀ m n : ℕ, m ≤ n → decide (n ≤ 1) = true → decide (m ≤ 1) = true) ∧
    ∃ result, boundedPagePrefix [(), (), ()] 3 5 (fun _ => [1, 1]) (fun n => decide (n ≤ 1)) =
        some result ∧
      Answers (Qualifies [(), (), ()] 3 5 (fun _ => [1, 1]) fun n => decide (n ≤ 1)) result := by
  have hdown : ∀ m n : ℕ, m ≤ n → decide (n ≤ 1) = true → decide (m ≤ 1) = true := by
    intro m n hle hn
    rw [decide_eq_true_eq] at hn ⊢
    exact hle.trans hn
  exact ⟨hdown, boundedPagePrefix_greatest _ _ _ _ _ hdown⟩

end PagePrefix

end Zlink.Locations
