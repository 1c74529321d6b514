import Mathlib

/-!
# Pages and the cursors between them

A page takes items off the front of a list until it has as many as were asked for, or until the
next item would make it too large; the first item is taken whatever its size.

A service hands out a list in such pages. Each page has the cursor of the next one or is the last,
and a cursor may expire. Between two pages anything may happen to the service. `Owing` collects
what each step has to keep, so that whoever follows the cursors gets the list, each item once.
-/

namespace Zlink.Cursors

section Pages

variable {α : Type*} (size : α → ℕ) (limit bytes : ℕ)

/-- The number of items of a page that has `count` items of `encoded` bytes. -/
def pageEnd (count encoded : ℕ) : List α → ℕ
  | [] => count
  | x :: xs =>
    if count < limit then
      if count ≠ 0 ∧ bytes < encoded + size x then count
      else pageEnd (count + 1) (encoded + size x) xs
    else count

/-- The items make up a page: there are no more than asked for, and beyond the first one they
are not too large. -/
def FitsPage (items : List α) : Prop :=
  items.length ≤ limit ∧ (items.length ≤ 1 ∨ (items.map size).sum ≤ bytes)

variable {size limit bytes}

theorem le_pageEnd (count encoded : ℕ) (xs : List α) :
    count ≤ pageEnd size limit bytes count encoded xs := by
  induction xs generalizing count encoded with
  | nil => exact Nat.le_refl _
  | cons x xs ih =>
    rw [pageEnd]
    split
    · split
      · exact Nat.le_refl _
      · exact Nat.le_of_succ_le (ih _ _)
    · exact Nat.le_refl _

theorem fitsPage_pageEnd (taken : List α) (h : FitsPage size limit bytes taken) (xs : List α) :
    FitsPage size limit bytes (taken ++ xs.take
      (pageEnd size limit bytes taken.length (taken.map size).sum xs - taken.length)) := by
  induction xs generalizing taken with
  | nil => rwa [List.take_nil, List.append_nil]
  | cons x xs ih =>
    rw [pageEnd]
    split
    · rename_i hlimit
      split
      · rwa [Nat.sub_self, List.take_zero, List.append_nil]
      · rename_i hroom
        have hnext : FitsPage size limit bytes (taken ++ [x]) := by
          rw [FitsPage, List.length_append, List.map_append, List.sum_append]
          refine ⟨hlimit, ?_⟩
          rcases Nat.eq_zero_or_pos taken.length with hzero | hpos
          · exact .inl (Nat.le_of_eq (by rw [hzero]; rfl))
          · refine .inr (Nat.le_of_not_lt fun hlt => hroom ⟨Nat.ne_of_gt hpos, ?_⟩)
            simpa using hlt
        have hrest := ih _ hnext
        have hsum : ((taken ++ [x]).map size).sum = (taken.map size).sum + size x := by simp
        rw [hsum, List.length_append, List.length_singleton, List.append_assoc] at hrest
        have hle : taken.length + 1 ≤ pageEnd size limit bytes (taken.length + 1)
            ((taken.map size).sum + size x) xs := le_pageEnd _ _ _
        generalize pageEnd size limit bytes (taken.length + 1)
          ((taken.map size).sum + size x) xs = stop at hrest hle ⊢
        obtain ⟨more, rfl⟩ := Nat.exists_eq_add_of_le hle
        rw [Nat.add_sub_cancel_left] at hrest
        rw [Nat.add_assoc, Nat.add_sub_cancel_left, Nat.add_comm 1 more, List.take_succ_cons]
        exact hrest
    · rwa [Nat.sub_self, List.take_zero, List.append_nil]

theorem fitsPage_take (xs : List α) :
    FitsPage size limit bytes (xs.take (pageEnd size limit bytes 0 0 xs)) :=
  fitsPage_pageEnd [] ⟨Nat.zero_le _, .inl (Nat.zero_le _)⟩ xs

theorem pageEnd_pos (hlimit : 0 < limit) {xs : List α} (hxs : xs ≠ []) :
    0 < pageEnd size limit bytes 0 0 xs := by
  cases xs with
  | nil => exact absurd rfl hxs
  | cons x xs =>
    rw [pageEnd, if_pos hlimit, if_neg fun h => h.1 rfl]
    exact le_pageEnd 1 _ xs

theorem take_drop_ne_nil {items : List α} {offset count : ℕ}
    (hmore : offset + count < items.length) (hpos : items.drop offset ≠ [] → 0 < count) :
    (items.drop offset).take count ≠ [] := by
  have hleft : items.drop offset ≠ [] := by
    rw [Ne, List.drop_eq_nil_iff]
    omega
  rw [Ne, List.take_eq_nil_iff, not_or]
  exact ⟨Nat.ne_of_gt (hpos hleft), hleft⟩

theorem take_drop_eq_self {items : List α} {offset count : ℕ}
    (hall : ¬ offset + count < items.length) :
    (items.drop offset).take count = items.drop offset := by
  rw [List.take_eq_self_iff, List.length_drop]
  omega

end Pages

inductive Answer (C α : Type*) where
  | page (items : List α) (next : Option C)
  | expired

/-- A service that is asked with a request and a cursor, which it may refuse. Other things happen
to it, too. -/
structure Service (S E Q C α : Type*) where
  happen : S → E → S
  ask : S → Q → C → S × Option (Answer C α)

/-- What happens before the cursor at hand is used, and the request that it is used with. -/
structure Leg (E Q : Type*) where
  between : List E
  request : Q

inductive Ending (C : Type*) where
  | ended
  | expired
  | at_ (cursor : C)

/-- The pages of a scan, each with the request for it, and what is at hand in the end. -/
abbrev Scanned (Q C α : Type*) := List (Q × List α) × Ending C

section Following

variable {S E Q C α : Type*}

def proceed (q : Q) (onward : S → C → Scanned Q C α) : S × Answer C α → Scanned Q C α
  | (_, .expired) => ([], .expired)
  | (_, .page items none) => ([(q, items)], .ended)
  | (s, .page items (some next)) => ((q, items) :: (onward s next).1, (onward s next).2)

def follow (v : Service S E Q C α) (s : S) (c : C) : List (Leg E Q) → Scanned Q C α
  | [] => ([], .at_ c)
  | leg :: legs =>
    match v.ask (leg.between.foldl v.happen s) leg.request c with
    | (s, none) => follow v s c legs
    | (s, some answer) => proceed leg.request (fun s c => follow v s c legs) (s, answer)

variable {v : Service S E Q C α} {Fits : Q → List α → Prop} {Owes : S → C → List α → Prop}

inductive Delivers (Fits : Q → List α → Prop) (Owes : S → C → List α → Prop) (q : Q)
    (rest : List α) : S × Answer C α → Prop where
  | expired (s : S) : Delivers Fits Owes q rest (s, .expired)
  | last (s : S) (fits : Fits q rest) : Delivers Fits Owes q rest (s, .page rest none)
  | page (s : S) (items left : List α) (next : C) (split : rest = items ++ left)
      (some_ : items ≠ []) (fits : Fits q items) (owes : Owes s next left) :
      Delivers Fits Owes q rest (s, .page items (some next))

/-- Every step keeps what the cursors owe. -/
structure Owing (v : Service S E Q C α) (Fits : Q → List α → Prop)
    (Owes : S → C → List α → Prop) : Prop where
  happen : ∀ s c rest e, Owes s c rest → Owes (v.happen s e) c rest
  refused : ∀ s t c rest q, Owes s c rest → v.ask s q c = (t, none) → Owes t c rest
  ask : ∀ s t c rest q answer, Owes s c rest → v.ask s q c = (t, some answer) →
    Delivers Fits Owes q rest (t, answer)

variable {s : S} {c : C} {rest : List α}

theorem Owing.foldl (h : Owing v Fits Owes)
    (howes : Owes s c rest) (es : List E) : Owes (es.foldl v.happen s) c rest := by
  induction es generalizing s with
  | nil => exact howes
  | cons e es ih => exact ih (h.happen s c rest e howes)

structure Yields (Fits : Q → List α → Prop) (whole : List α) (scanned : Scanned Q C α) : Prop where
  items : ∃ left, whole = scanned.1.flatMap Prod.snd ++ left ∧ (scanned.2 = .ended → left = [])
  fits : ∀ page ∈ scanned.1, Fits page.1 page.2
  few : scanned.1.length ≤ whole.length + 1

theorem Yields.nothing {whole : List α} {ending : Ending C} (h : ending ≠ .ended) :
    Yields Fits whole ([], ending) :=
  ⟨⟨whole, rfl, fun hended => absurd hended h⟩, nofun, Nat.zero_le _⟩

theorem Delivers.yields {q : Q} {answer : S × Answer C α}
    {onward : S → C → Scanned Q C α} (h : Delivers Fits Owes q rest answer)
    (honward : ∀ s c left, Owes s c left → Yields Fits left (onward s c)) :
    Yields Fits rest (proceed q onward answer) := by
  cases h with
  | expired s => exact .nothing nofun
  | last s fits =>
    refine ⟨⟨[], by simp [proceed], fun _ => rfl⟩, fun page hpage => ?_, Nat.le_add_left 1 _⟩
    rw [List.mem_singleton.mp hpage]
    exact fits
  | page s items left next hsplit hsome fits owes =>
    obtain ⟨⟨tail, hleft, hended⟩, hfits, hfew⟩ := honward s next left owes
    refine ⟨⟨tail, ?_, hended⟩, List.forall_mem_cons.mpr ⟨fits, hfits⟩, ?_⟩
    · rw [hsplit, proceed, List.flatMap_cons, List.append_assoc, ← hleft]
    · have hpos := List.length_pos_iff.mpr hsome
      rw [hsplit, proceed, List.length_cons, List.length_append]
      omega

theorem Owing.follow (h : Owing v Fits Owes)
    (howes : Owes s c rest) (legs : List (Leg E Q)) : Yields Fits rest (follow v s c legs) := by
  induction legs generalizing s c rest with
  | nil => exact .nothing nofun
  | cons leg legs ih =>
    have hbehind := h.foldl howes leg.between
    rw [Cursors.follow]
    split
    · exact ih (h.refused _ _ c rest _ hbehind ‹_›)
    · exact (h.ask _ _ c rest _ _ hbehind ‹_›).yields fun s c left howes => ih howes

/-- Where a cursor is kept a valid request gets a page, and what is calm keeps it. -/
structure Serving (v : Service S E Q C α) (Kept : S → C → Prop) (Valid : Q → Prop)
    (Calm : E → Prop) : Prop where
  happen : ∀ s c e, Calm e → Kept s c → Kept (v.happen s e) c
  ask : ∀ s c q, Valid q → Kept s c → ∃ t items next,
    v.ask s q c = (t, some (.page items next)) ∧ ∀ c', next = some c' → Kept t c'

variable {Kept : S → C → Prop} {Valid : Q → Prop} {Calm : E → Prop}

theorem Serving.foldl (h : Serving v Kept Valid Calm) {es : List E}
    (hcalm : ∀ e ∈ es, Calm e) (hkept : Kept s c) : Kept (es.foldl v.happen s) c := by
  induction es generalizing s with
  | nil => exact hkept
  | cons e es ih =>
    obtain ⟨he, hes⟩ := List.forall_mem_cons.mp hcalm
    exact ih hes (h.happen s c e he hkept)

/-- A scan that nothing disturbs ends, as each page takes an item at least. -/
theorem Serving.follow_ended (h : Serving v Kept Valid Calm) (howing : Owing v Fits Owes)
    {legs : List (Leg E Q)} (howes : Owes s c rest) (hkept : Kept s c)
    (hlegs : ∀ leg ∈ legs, Valid leg.request ∧ ∀ e ∈ leg.between, Calm e)
    (hlen : rest.length < legs.length) : (Cursors.follow v s c legs).2 = .ended := by
  induction legs generalizing s c rest with
  | nil => exact absurd hlen (Nat.not_lt_zero _)
  | cons leg legs ih =>
    obtain ⟨⟨hvalid, hcalm⟩, hlegs⟩ := List.forall_mem_cons.mp hlegs
    obtain ⟨t, items, next, hask, hnext⟩ := h.ask _ c _ hvalid (h.foldl hcalm hkept)
    have hdelivers := howing.ask _ t c rest _ _ (howing.foldl howes leg.between) hask
    rw [Cursors.follow, hask]
    cases hdelivers with
    | last => rfl
    | page _ _ left next hsplit hsome _ howes' =>
      refine ih howes' (hnext next rfl) hlegs ?_
      have hpos := List.length_pos_iff.mpr hsome
      rw [hsplit, List.length_append, List.length_cons] at hlen
      omega

end Following

end Zlink.Cursors
