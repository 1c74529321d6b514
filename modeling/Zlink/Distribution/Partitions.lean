import Zlink.Lib.Trace
import Zlink.Distribution.Dist

/-!
# The parts of the distributor's array

The counters stay in order whatever is called, but for the matching pipes: a match in the
middle of a message takes an eligible pipe that is not active, and then more pipes match
than are active. Matched between messages, the matching pipes are active ones. A pipe that
is activated while it is passive becomes eligible, and no other pipe does.
-/

namespace Zlink.Distribution

open SwapArray

variable {P α : Type} [DecidableEq P]

namespace Dist

variable {d : Dist P α}

variable {i : ℕ}

theorem swap_eq {j : ℕ} (hi : i < d.pipes.length) (hj : j < d.pipes.length) :
    d.swap i j = some { d with pipes := SwapArray.swap d.pipes i j } :=
  if_pos ⟨hi, hj⟩

structure Counted (d : Dist P α) : Prop where
  nodup : d.pipes.Nodup
  matching_le : d.matching ≤ d.eligible
  active_le : d.active ≤ d.eligible
  eligible_le : d.eligible ≤ d.pipes.length

variable {p : P}

theorem index_lt (hp : p ∈ d.pipes) : d.index p < d.pipes.length :=
  List.idxOf_lt_length_of_mem hp

theorem Counted.index_getElem (h : Counted d) (hp : d.pipes[i]? = some p) : d.index p = i := by
  obtain ⟨hi, rfl⟩ := List.getElem?_eq_some_iff.mp hp
  exact h.nodup.idxOf_getElem i hi

/-- Where `deactivate_matching_pipe` puts the pipes. -/
def deactivated (d : Dist P α) (i : ℕ) : ℕ → ℕ :=
  exchanged (d.active - 1) (d.eligible - 1) ∘
    exchanged (d.matching - 1) (d.active - 1) ∘ exchanged i (d.matching - 1)

theorem Counted.deactivate (h : Counted d) (hi : i < d.matching) (hactive : 0 < d.active) :
    ∃ l, d.deactivateMatchingPipe i = some
        { d with
          pipes := l
          matching := d.matching - 1
          active := d.active - 1
          eligible := d.eligible - 1 } ∧
      Rearranged d.pipes l (d.deactivated i) := by
  have hm := h.matching_le
  have ha := h.active_le
  have he := h.eligible_le
  let l₁ := SwapArray.swap d.pipes i (d.matching - 1)
  let l₂ := SwapArray.swap l₁ (d.matching - 1) (d.active - 1)
  have hlen₁ : l₁.length = d.pipes.length := length_swap _ _ _
  have hlen₂ : l₂.length = d.pipes.length := (length_swap _ _ _).trans hlen₁
  have h₁ : Rearranged d.pipes l₁ (exchanged i (d.matching - 1)) :=
    rearranged_swap h.nodup (by omega) (by omega)
  have hnodup₁ : l₁.Nodup := h₁.perm.nodup_iff.mpr h.nodup
  have h₂ : Rearranged l₁ l₂ (exchanged (d.matching - 1) (d.active - 1)) :=
    rearranged_swap hnodup₁ (by omega) (by omega)
  have hnodup₂ : l₂.Nodup := h₂.perm.nodup_iff.mpr hnodup₁
  have h₃ := rearranged_swap hnodup₂ (i := d.active - 1) (j := d.eligible - 1) (by omega) (by omega)
  refine ⟨_, ?_, (h₁.trans h₂).trans h₃⟩
  rw [deactivateMatchingPipe, if_neg (Nat.not_le_of_lt hi),
    swap_eq (by omega) (by omega)]
  simp only [Option.bind_eq_bind, Option.bind_some]
  rw [if_neg (Nat.ne_of_gt hactive), swap_eq (by show _ < l₁.length; omega)
    (by show _ < l₁.length; omega)]
  simp only [Option.bind_some]
  rw [if_neg (by omega), swap_eq (by show _ < l₂.length; omega) (by show _ < l₂.length; omega)]
  rfl

theorem deactivated_parts (hm : d.matching ≤ d.active) (ha : d.active ≤ d.eligible) {n : ℕ}
    (hi : i < d.matching) : (d.deactivated i n < d.matching - 1 ↔ n < d.matching ∧ n ≠ i) ∧
      (d.deactivated i n < d.active - 1 ↔ n < d.active ∧ n ≠ i) ∧
      (d.deactivated i n < d.eligible - 1 ↔ n < d.eligible ∧ n ≠ i) ∧
      (d.deactivated i n < i ↔ n < i) := by
  simp only [deactivated, Function.comp, exchanged]
  split_ifs <;> omega

structure Ordered (d : Dist P α) : Prop extends Counted d where
  matching_le_active : d.matching ≤ d.active

structure Fanned (admitted : Bool) (part : LoadBalancer.Part α) (verdict : P → Verdict)
    (d d' : Dist P α) (i : ℕ) : Prop where
  ordered : Ordered d'
  more : d'.more = d.more
  perm : d'.pipes.Perm d.pipes
  before : ∀ x ∈ d.pipes, d.index x < i → d'.index x < d'.matching ∧ d'.outlet x = d.outlet x
  here : ∀ x ∈ d.pipes, i ≤ d.index x → d.index x < d.matching →
    (d'.index x < d'.matching ↔ ((d.outlet x).fanOut d.more admitted part (verdict x)).2 = true) ∧
      d'.outlet x = ((d.outlet x).fanOut d.more admitted part (verdict x)).1
  rest : ∀ x, (x ∈ d.pipes → d.matching ≤ d.index x) →
    d'.outlet x = d.outlet x ∧ (x ∈ d.pipes → d'.matching ≤ d'.index x)

section Write

variable {admitted : Bool} {part : LoadBalancer.Part α} {verdict : P → Verdict}

@[simp] theorem setOutlet_self (p : P) (o : Outlet α) : (d.setOutlet p o).outlet p = o := by
  simp [setOutlet]

theorem setOutlet_of_ne {p x : P} (h : x ≠ p) (o : Outlet α) :
    (d.setOutlet p o).outlet x = d.outlet x := by
  simp [setOutlet, h]

theorem Counted.setOutlet (h : Counted d) (p : P) (o : Outlet α) : Counted (d.setOutlet p o) :=
  { nodup := h.nodup, matching_le := h.matching_le, active_le := h.active_le
    eligible_le := h.eligible_le }

variable {i : ℕ}

theorem Ordered.deactivate (h : Ordered d) {p : P} (hp : d.pipes[i]? = some p)
    (hi : i < d.matching) :
    ∃ d', d.deactivateMatchingPipe i = some d' ∧ Ordered d' ∧ d'.more = d.more ∧
      d'.outlet = d.outlet ∧ d'.pipes.Perm d.pipes ∧ d'.matching = d.matching - 1 ∧
      ∀ x ∈ d.pipes, (d'.index x < d'.matching ↔ d.index x < d.matching ∧ x ≠ p) ∧
        (d'.index x < i ↔ d.index x < i) := by
  have hm := h.matching_le_active
  obtain ⟨l, heq, hl⟩ := h.toCounted.deactivate hi (by omega)
  have hlen := hl.perm.length_eq
  have hae := h.active_le
  have hel := h.eligible_le
  refine ⟨_, heq, ?_, rfl, rfl, hl.perm, rfl, ?_⟩
  · exact
      { nodup := hl.perm.nodup_iff.mpr h.nodup
        matching_le := by show d.matching - 1 ≤ d.eligible - 1; omega
        active_le := by show d.active - 1 ≤ d.eligible - 1; omega
        eligible_le := by show d.eligible - 1 ≤ l.length; omega
        matching_le_active := by show d.matching - 1 ≤ d.active - 1; omega }
  · intro x hx
    have hxp : x ≠ p ↔ d.index x ≠ i := by
      rw [← h.index_getElem hp]
      exact not_congr (List.idxOf_inj hx).symm
    obtain ⟨hparts, -, -, hbefore⟩ := deactivated_parts (d := d) hm hae (n := d.index x) hi
    have hplace : l.idxOf x = d.deactivated i (d.index x) := hl.place x hx
    rw [hxp]
    constructor
    · show l.idxOf x < d.matching - 1 ↔ _
      rw [hplace, hparts]
    · show l.idxOf x < i ↔ _
      rw [hplace, hbefore]

theorem writeFrom_spec : ∀ (fuel : ℕ) (d : Dist P α) (i : ℕ), Ordered d → i ≤ d.matching →
      d.matching - i ≤ fuel → ∃ d', writeFrom admitted part verdict fuel d i = some d' ∧
        Fanned admitted part verdict d d' i := by
  intro fuel
  induction fuel with
  | zero =>
    intro d i h hle hfuel
    refine ⟨d, if_neg (by omega), ?_⟩
    exact
      { ordered := h, more := rfl, perm := List.Perm.refl _
        before := fun x _ hx => ⟨Nat.lt_of_lt_of_le hx hle, rfl⟩
        here := fun x _ hge hlt => absurd hlt (by omega)
        rest := fun x hx => ⟨rfl, hx⟩ }
  | succ fuel ih =>
    intro d i h hle hfuel
    rw [writeFrom]
    by_cases hi : i < d.matching
    · rw [if_pos hi]
      have hlt : i < d.pipes.length := by
        have hm := h.matching_le
        have he := h.eligible_le
        omega
      obtain ⟨p, hp⟩ : ∃ p, d.pipes[i]? = some p := ⟨_, List.getElem?_eq_getElem hlt⟩
      have hpi := h.index_getElem hp
      have hpm := List.mem_of_getElem? hp
      have hxp : ∀ x ∈ d.pipes, x ≠ p ↔ d.index x ≠ i := by
        intro x hx
        rw [← hpi]
        exact not_congr (List.idxOf_inj hx).symm
      rcases hout : (d.outlet p).fanOut d.more admitted part (verdict p) with ⟨o, ok⟩
      cases ok with
      | true =>
        -- the pipe takes the frame, and the loop goes on behind it
        have hd : Ordered (d.setOutlet p o) :=
          { toCounted := h.toCounted.setOutlet p o
            matching_le_active := h.matching_le_active }
        obtain ⟨d', heq, hf⟩ := ih (d.setOutlet p o) (i + 1) hd hi (by
          show d.matching - (i + 1) ≤ fuel
          omega)
        refine ⟨d', ?_, ?_⟩
        · simp only [writeAt, hp, hout, if_true, Option.bind_eq_bind, Option.bind_some]
          exact heq
        · refine
            { ordered := hf.ordered, more := hf.more, perm := hf.perm
              before := ?_, here := ?_, rest := ?_ }
          · intro x hx hlt
            have hne : x ≠ p := (hxp x hx).mpr (by omega)
            obtain ⟨h₁, h₂⟩ := hf.before x hx (Nat.lt_succ_of_lt hlt)
            exact ⟨h₁, h₂.trans (setOutlet_of_ne hne o)⟩
          · intro x hx hge hlt
            by_cases hne : x = p
            · subst hne
              obtain ⟨h₁, h₂⟩ := hf.before x hx (by
                show d.index x < i + 1
                omega)
              rw [hout]
              exact ⟨⟨fun _ => rfl, fun _ => h₁⟩, h₂.trans (setOutlet_self x o)⟩
            · have hidx := (hxp x hx).mp hne
              have := hf.here x hx (by
                show i + 1 ≤ d.index x
                omega) hlt
              rwa [setOutlet_of_ne hne] at this
          · intro x hx
            have hne : x ≠ p := by
              rintro rfl
              have := hx hpm
              omega
            obtain ⟨h₁, h₂⟩ := hf.rest x hx
            exact ⟨h₁.trans (setOutlet_of_ne hne o), h₂⟩
      | false =>
        -- the pipe leaves, and another one takes its index
        have hd : Ordered (d.setOutlet p o) :=
          { toCounted := h.toCounted.setOutlet p o
            matching_le_active := h.matching_le_active }
        obtain ⟨d₁, heq₁, h₁, hmore₁, hout₁, hperm₁, hmatch₁, hparts₁⟩ :=
          hd.deactivate hp hi
        obtain ⟨d', heq, hf⟩ := ih d₁ i h₁ (by
          rw [hmatch₁]
          show i ≤ d.matching - 1
          omega) (by
          rw [hmatch₁]
          show d.matching - 1 - i ≤ fuel
          omega)
        have hmore : d₁.more = d.more := hmore₁
        have hmem : ∀ {x}, x ∈ d₁.pipes ↔ x ∈ d.pipes := hperm₁.mem_iff
        have hsame : ∀ {x}, x ≠ p → d₁.outlet x = d.outlet x := by
          intro x hne
          rw [hout₁]
          exact setOutlet_of_ne hne o
        have hgone : d₁.matching ≤ d₁.index p := by
          by_contra hlt
          exact ((hparts₁ p hpm).1.mp (Nat.lt_of_not_le hlt)).2 rfl
        refine ⟨d', ?_, ?_⟩
        · simp only [writeAt, hp, hout, Bool.false_eq_true, if_false, heq₁,
            Option.map_some, Option.bind_eq_bind, Option.bind_some]
          exact heq
        · refine
            { ordered := hf.ordered, more := hf.more.trans hmore
              perm := hf.perm.trans hperm₁
              before := ?_, here := ?_, rest := ?_ }
          · intro x hx hlt
            have hne : x ≠ p := (hxp x hx).mpr (by omega)
            obtain ⟨h₃, h₄⟩ := hf.before x (hmem.mpr hx) ((hparts₁ x hx).2.mpr hlt)
            exact ⟨h₃, h₄.trans (hsame hne)⟩
          · intro x hx hge hlt
            by_cases hne : x = p
            · subst hne
              obtain ⟨h₃, h₄⟩ := hf.rest x (fun _ => hgone)
              have hleft := h₄ (hmem.mpr hx)
              rw [hout]
              refine ⟨⟨fun hlt' => absurd hlt' (by omega), fun hf => ?_⟩, ?_⟩
              · exact absurd hf (by simp)
              · rw [h₃, hout₁]
                exact setOutlet_self x o
            · have hge' : i ≤ d₁.index x := by
                by_contra hlt'
                have := (hparts₁ x hx).2.mp (Nat.lt_of_not_le hlt')
                exact absurd this (Nat.not_lt_of_le hge)
              have := hf.here x (hmem.mpr hx) hge' ((hparts₁ x hx).1.mpr ⟨hlt, hne⟩)
              rwa [hsame hne, hmore] at this
          · intro x hx
            have hne : x ≠ p := by
              rintro rfl
              have := hx hpm
              omega
            have hbeyond : x ∈ d₁.pipes → d₁.matching ≤ d₁.index x := by
              intro hx'
              by_contra hlt
              have hin := (hparts₁ x (hmem.mp hx')).1.mp (Nat.lt_of_not_le hlt)
              exact absurd hin.1 (Nat.not_lt_of_le (hx (hmem.mp hx')))
            obtain ⟨h₃, h₄⟩ := hf.rest x hbeyond
            exact ⟨h₃.trans (hsame hne), fun hx' => h₄ (hmem.mpr hx')⟩
    · rw [if_neg hi]
      refine ⟨d, rfl, ?_⟩
      exact
        { ordered := h, more := rfl, perm := List.Perm.refl _
          before := fun x _ hx => ⟨Nat.lt_of_lt_of_le hx hle, rfl⟩
          here := fun x _ hge hlt => absurd hlt (by omega)
          rest := fun x hx => ⟨rfl, hx⟩ }

theorem Counted.deactivate_eq_some (h : Counted d) {d' : Dist P α}
    (hd : d.deactivateMatchingPipe i = some d') :
    i < d.matching ∧ 0 < d.active ∧ ∃ l, l.Perm d.pipes ∧
      d' = { d with pipes := l, matching := d.matching - 1, active := d.active - 1,
                    eligible := d.eligible - 1 } := by
  have hm := h.matching_le
  have he := h.eligible_le
  have hi : i < d.matching := by
    by_contra hge
    rw [deactivateMatchingPipe, if_pos (Nat.le_of_not_lt hge)] at hd
    exact absurd hd (by simp)
  have hactive : 0 < d.active := by
    by_contra hzero
    rw [deactivateMatchingPipe, if_neg (Nat.not_le_of_lt hi),
      swap_eq (by omega) (by omega)] at hd
    simp only [Option.bind_eq_bind, Option.bind_some] at hd
    rw [if_pos (Nat.eq_zero_of_not_pos hzero)] at hd
    exact absurd hd (by simp)
  obtain ⟨l, heq, hl⟩ := h.deactivate hi hactive
  rw [heq, Option.some.injEq] at hd
  exact ⟨hi, hactive, l, hl.perm, hd.symm⟩

theorem Counted.writeAt (h : Counted d) {d' : Dist P α} {ok : Bool}
    (hd : d.writeAt admitted i part verdict = some (d', ok)) :
    Counted d' ∧ d'.more = d.more ∧ (∀ x, x ∈ d'.pipes ↔ x ∈ d.pipes) ∧
      d'.matching = if ok then d.matching else d.matching - 1 := by
  rw [Dist.writeAt] at hd
  cases hp : d.pipes[i]? with
  | none =>
    rw [hp] at hd
    exact absurd hd (by simp)
  | some p =>
    rw [hp] at hd
    rcases hout : (d.outlet p).fanOut d.more admitted part (verdict p) with ⟨o, taken⟩
    simp only [hout] at hd
    cases taken with
    | true =>
      rw [if_pos rfl, Option.some.injEq, Prod.mk.injEq] at hd
      obtain ⟨rfl, rfl⟩ := hd
      exact ⟨h.setOutlet p o, rfl, fun _ => Iff.rfl, rfl⟩
    | false =>
      rw [if_neg Bool.false_ne_true, Option.map_eq_some_iff] at hd
      obtain ⟨d₁, heq, hd⟩ := hd
      rw [Prod.mk.injEq] at hd
      obtain ⟨rfl, rfl⟩ := hd
      obtain ⟨hi, hactive, l, hl, rfl⟩ := (h.setOutlet p o).deactivate_eq_some heq
      have hm := h.matching_le
      have ha := h.active_le
      have he := h.eligible_le
      have hlen := hl.length_eq
      refine ⟨?_, rfl, fun _ => hl.mem_iff, rfl⟩
      exact
        { nodup := hl.nodup_iff.mpr h.nodup
          matching_le := Nat.sub_le_sub_right hm 1
          active_le := Nat.sub_le_sub_right ha 1
          eligible_le := by
            rw [hlen]
            exact (Nat.sub_le _ _).trans he }

theorem Counted.writeFrom : ∀ (fuel : ℕ) (d : Dist P α) (i : ℕ) (d' : Dist P α), Counted d →
      writeFrom admitted part verdict fuel d i = some d' →
        Counted d' ∧ d'.more = d.more ∧ ∀ x, x ∈ d'.pipes ↔ x ∈ d.pipes := by
  intro fuel
  induction fuel with
  | zero =>
    intro d i d' h hd
    rw [Dist.writeFrom] at hd
    split at hd
    · exact absurd hd (by simp)
    · rw [Option.some.injEq] at hd
      subst hd
      exact ⟨h, rfl, fun _ => Iff.rfl⟩
  | succ fuel ih =>
    intro d i d' h hd
    rw [Dist.writeFrom] at hd
    split at hd
    · obtain ⟨⟨d₁, ok⟩, hwrite, hrest⟩ := Option.bind_eq_some_iff.mp hd
      obtain ⟨h₁, hmore₁, hmem₁, -⟩ := h.writeAt hwrite
      obtain ⟨h', hmore', hmem'⟩ := ih d₁ _ d' h₁ hrest
      exact ⟨h', hmore'.trans hmore₁, fun x => (hmem' x).trans (hmem₁ x)⟩
    · rw [Option.some.injEq] at hd
      subst hd
      exact ⟨h, rfl, fun _ => Iff.rfl⟩

theorem Counted.distribute_eq (h : Counted d) : d.distribute admitted part verdict =
      Dist.writeFrom admitted part verdict d.matching d 0 := by
  rw [distribute]
  split
  case isTrue hzero =>
    rw [hzero, Dist.writeFrom, if_neg (by omega)]
  case isFalse hpos =>
    split
    case isFalse => rfl
    case isTrue hone =>
      rw [hone.1, Dist.writeFrom, if_pos (by omega)]
      cases hwrite : d.writeAt admitted 0 part verdict with
      | none => rfl
      | some x =>
        obtain ⟨d₁, ok⟩ := x
        obtain ⟨-, -, -, hmatching⟩ := h.writeAt hwrite
        simp only [Option.map_some, Option.bind_eq_bind, Option.bind_some, Dist.writeFrom]
        rw [if_neg]
        rw [hmatching, hone.1]
        cases ok <;> simp

theorem Ordered.distribute (h : Ordered d) : ∃ d', d.distribute admitted part verdict = some d' ∧
      Fanned admitted part verdict d d' 0 := by
  rw [h.toCounted.distribute_eq]
  exact writeFrom_spec d.matching d 0 h (Nat.zero_le _) (Nat.sub_le _ _)

end Write

structure Kept (d : Dist P α) : Prop extends Counted d where
  settled : d.more = false → d.active = d.eligible

theorem Kept.ordered (h : Kept d) (hmore : d.more = false) : Ordered d :=
  { toCounted := h.toCounted
    matching_le_active := by
      rw [h.settled hmore]
      exact h.matching_le }

/-- One more pipe of a list is eligible, and active unless a message is in the middle. -/
theorem Kept.grown (h : Kept d) {l : List P} (hnodup : l.Nodup) (hlt : d.eligible < l.length) :
    Kept { d with
      pipes := l
      eligible := d.eligible + 1
      active := if d.more then d.active else d.active + 1 } where
  nodup := hnodup
  matching_le := Nat.le_succ_of_le h.matching_le
  active_le := by
    have ha := h.active_le
    show (if d.more then d.active else d.active + 1) ≤ d.eligible + 1
    split <;> omega
  eligible_le := hlt
  settled hmore := by
    show (if d.more then d.active else d.active + 1) = d.eligible + 1
    rw [show d.more = false from hmore, if_neg Bool.false_ne_true, h.settled hmore]

theorem create_kept (o : P → Outlet α) : Kept (create o) :=
  { nodup := List.nodup_nil, matching_le := le_rfl, active_le := le_rfl
    eligible_le := le_rfl, settled := fun _ => rfl }

/-- A new pipe comes behind the pipes that the next message goes to, or behind those that
the message in progress does. -/
theorem Counted.attach (h : Counted d) {p : P} (hp : p ∉ d.pipes) : ∃ l, d.attach p = some { d with
          pipes := l
          active := if d.more then d.active else d.active + 1
          eligible := d.eligible + 1 } ∧
      Rearranged (d.pipes ++ [p]) l
        (exchanged (if d.more then d.eligible else d.active) d.pipes.length) := by
  have ha := h.active_le
  have he := h.eligible_le
  have hnodup : (d.pipes ++ [p]).Nodup := List.nodup_append.mpr ⟨h.nodup, List.nodup_singleton p, by
      rintro x hx y hy rfl
      exact hp (List.mem_singleton.mp hy ▸ hx)⟩
  have hlen : (d.pipes ++ [p]).length = d.pipes.length + 1 := by simp
  have hlast : (d.pipes ++ [p]).length - 1 = d.pipes.length := by omega
  cases hmore : d.more with
  | true =>
    have hl := rearranged_swap hnodup (i := d.eligible) (j := d.pipes.length) (by omega) (by omega)
    refine ⟨_, ?_, hl⟩
    rw [Dist.attach]
    simp only [hmore, if_true, hlast]
    rw [swap_eq (by show _ < (d.pipes ++ [p]).length; omega)
      (by show _ < (d.pipes ++ [p]).length; omega)]
    rfl
  | false =>
    have hl := rearranged_swap hnodup (i := d.active) (j := d.pipes.length) (by omega) (by omega)
    refine ⟨_, ?_, hl⟩
    rw [Dist.attach]
    simp only [hmore, Bool.false_eq_true, if_false, hlast]
    rw [swap_eq (by show _ < (d.pipes ++ [p]).length; omega)
      (by show _ < (d.pipes ++ [p]).length; omega)]
    rfl

theorem Counted.matchPipe (h : Counted d) (p : P) : d.matchPipe p = some d ∨
      d.matching ≤ d.index p ∧ d.index p < d.eligible ∧ ∃ l, l.Perm d.pipes ∧
          d.matchPipe p = some { d with pipes := l, matching := d.matching + 1 } := by
  have he := h.eligible_le
  rw [Dist.matchPipe]
  split
  · exact .inl rfl
  split
  · exact .inl rfl
  rw [swap_eq (by omega) (by omega)]
  exact .inr ⟨by omega, by omega, _, swap_perm _ _ _, rfl⟩

theorem Counted.reverseMatch (h : Counted d) : ∃ l, l.Perm d.pipes ∧
      d.reverseMatch = some { d with pipes := l, matching := d.eligible - d.matching } := by
  have hm := h.matching_le
  have he := h.eligible_le
  have hfold : ∀ (k i : ℕ) (e : Dist P α), i + k ≤ e.pipes.length → e.matching ≤ i →
      ∃ l, l.Perm e.pipes ∧ (List.range' i k).foldlM (fun (d : Dist P α) j => do
            let d ← d.swap j d.matching
            return { d with matching := d.matching + 1 }) e =
          some { e with pipes := l, matching := e.matching + k } := by
    intro k
    induction k with
    | zero =>
      intro i e _ _
      exact ⟨e.pipes, List.Perm.refl _, rfl⟩
    | succ k ih =>
      intro i e hlen hle
      have hlen' : (SwapArray.swap e.pipes i e.matching).length = e.pipes.length :=
        length_swap _ _ _
      obtain ⟨l, hl, heq⟩ := ih (i + 1)
        { e with pipes := SwapArray.swap e.pipes i e.matching, matching := e.matching + 1 }
        (by
          show i + 1 + k ≤ (SwapArray.swap e.pipes i e.matching).length
          omega)
        (Nat.succ_le_succ hle)
      refine ⟨l, hl.trans (swap_perm _ _ _), ?_⟩
      rw [List.range'_succ, List.foldlM_cons, swap_eq (by omega) (by omega)]
      refine Eq.trans heq ?_
      rw [Nat.add_right_comm, Nat.add_assoc]
  obtain ⟨l, hl, heq⟩ := hfold (d.eligible - d.matching) d.matching d.unmatch (by
      show d.matching + (d.eligible - d.matching) ≤ d.pipes.length
      omega)
    (Nat.zero_le _)
  refine ⟨l, hl, ?_⟩
  rw [Dist.reverseMatch, heq, Option.some.injEq]
  show ({ d with pipes := l, matching := 0 + (d.eligible - d.matching) } : Dist P α) = _
  rw [Nat.zero_add]

/-- Where `activated` puts the pipes. -/
def activatedAt (d : Dist P α) (p : P) : ℕ → ℕ :=
  (if d.more then id else exchanged d.eligible d.active) ∘ exchanged (d.index p) d.eligible

theorem Kept.activated (h : Kept d) (hp : p ∈ d.pipes) (hpassive : d.eligible < d.pipes.length) :
    ∃ l, d.activated p = some
        { d with
          pipes := l
          active := if d.more then d.active else d.active + 1
          eligible := d.eligible + 1 } ∧
      Rearranged d.pipes l (d.activatedAt p) := by
  have hi := index_lt hp
  have ha := h.active_le
  have hl := rearranged_swap h.nodup hi hpassive
  have hlen : (SwapArray.swap d.pipes (d.index p) d.eligible).length = d.pipes.length :=
    length_swap _ _ _
  cases hmore : d.more with
  | true =>
    refine ⟨SwapArray.swap d.pipes (d.index p) d.eligible, ?_, ?_⟩
    · rw [Dist.activated, if_pos hpassive, swap_eq hi hpassive]
      simp only [Option.bind_eq_bind, Option.bind_some, hmore, Bool.not_true,
        Bool.false_eq_true, false_and, if_false, if_true]
    · rw [activatedAt, hmore]
      exact hl
  | false =>
    have hl' := rearranged_swap (hl.perm.nodup_iff.mpr h.nodup) (i := d.eligible)
      (j := d.active) (by omega) (by omega)
    refine ⟨SwapArray.swap (SwapArray.swap d.pipes (d.index p) d.eligible) d.eligible
      d.active, ?_, ?_⟩
    · rw [Dist.activated, if_pos hpassive, swap_eq hi hpassive]
      simp only [Option.bind_eq_bind, Option.bind_some, hmore]
      rw [if_pos ⟨rfl, by
          show d.active < (SwapArray.swap d.pipes (d.index p) d.eligible).length
          omega⟩,
        swap_eq (by
          show d.eligible + 1 - 1 < (SwapArray.swap d.pipes (d.index p) d.eligible).length
          omega) (by
          show d.active < (SwapArray.swap d.pipes (d.index p) d.eligible).length
          omega)]
      rfl
    · rw [activatedAt, hmore]
      exact hl.trans hl'

theorem Kept.activated_of_full (h : Kept d) (p : P) (hfull : d.eligible = d.pipes.length) :
    d.activated p = some d := by
  rw [Dist.activated, if_neg (by omega)]
  simp only [Option.bind_eq_bind, Option.bind_some]
  rw [if_neg]
  rintro ⟨hmore, hlt⟩
  rw [Bool.not_eq_true'] at hmore
  have := h.settled hmore
  omega

theorem Kept.activatedAt_lt (h : Kept d) (hpassive : d.eligible ≤ d.index p) (n : ℕ) :
    d.activatedAt p n < d.eligible + 1 ↔ n < d.eligible ∨ n = d.index p := by
  cases hmore : d.more with
  | true =>
    simp only [activatedAt, hmore, if_true, Function.comp, id, exchanged]
    split_ifs <;> omega
  | false =>
    have hsettled := h.settled hmore
    simp only [activatedAt, hmore, Bool.false_eq_true, if_false, Function.comp, exchanged, hsettled]
    split_ifs <;> omega

theorem Kept.activatedAt_matching (h : Kept d) (hp : d.matching ≤ d.index p)
    (n : ℕ) : d.activatedAt p n < d.matching ↔ n < d.matching := by
  have hm := h.matching_le
  cases hmore : d.more with
  | true =>
    simp only [activatedAt, hmore, if_true, Function.comp, id, exchanged]
    split_ifs <;> omega
  | false =>
    have hsettled := h.settled hmore
    simp only [activatedAt, hmore, Bool.false_eq_true, if_false, Function.comp, exchanged, hsettled]
    split_ifs <;> omega

theorem pipeTerminated_eq (h : Counted d) (hp : p ∈ d.pipes) :
    let first := leave d.pipes p d.matching
    let second := leave first.1 p d.active
    let third := leave second.1 p d.eligible
    d.pipeTerminated p = some
      { d with
        pipes := SwapArray.erase third.1 (third.1.idxOf p)
        matching := first.2
        active := second.2
        eligible := third.2 } := by
  have he := h.eligible_le
  have ha := h.active_le
  have hm := h.matching_le
  have hlen : ∀ l k, (leave l p k).1.length = l.length := by
    intro l k
    rw [leave]
    split
    · exact length_swap _ _ _
    · rfl
  have hleave (e : Dist P α) (hpe : p ∈ e.pipes) :
      (e.matching ≤ e.pipes.length → e.leaveMatching p = some { e with
        pipes := (leave e.pipes p e.matching).1
        matching := (leave e.pipes p e.matching).2 }) ∧
      (e.active ≤ e.pipes.length → e.leaveActive p = some { e with
        pipes := (leave e.pipes p e.active).1
        active := (leave e.pipes p e.active).2 }) ∧
      (e.eligible ≤ e.pipes.length → e.leaveEligible p = some { e with
        pipes := (leave e.pipes p e.eligible).1
        eligible := (leave e.pipes p e.eligible).2 }) := by
    have hi := index_lt hpe
    refine ⟨fun hk => ?_, fun hk => ?_, fun hk => ?_⟩
    all_goals
      simp only [leaveMatching, leaveActive, leaveEligible, leave]
      split
      · rw [swap_eq hi (by omega), if_pos ‹_›]
        rfl
      · rw [if_neg ‹_›]
  have hfirst := leave_spec h.nodup hp (hm.trans he)
  have hp₁ := hfirst.perm.mem_iff.mpr hp
  have hsecond := leave_spec (hfirst.perm.nodup_iff.mpr h.nodup) hp₁ (k := d.active) (by
      rw [hlen]
      exact ha.trans he)
  have hp₂ := hsecond.perm.mem_iff.mpr hp₁
  intro first second third
  rw [pipeTerminated, if_neg (not_not.mpr hp), (hleave d hp).1 (hm.trans he)]
  simp only [Option.bind_eq_bind, Option.bind_some]
  rw [(hleave _ hp₁).2.1 (by
    show d.active ≤ (leave d.pipes p d.matching).1.length
    rw [hlen]
    exact ha.trans he)]
  simp only [Option.bind_some]
  rw [(hleave _ hp₂).2.2 (by
    show d.eligible ≤ (leave (leave d.pipes p d.matching).1 p d.active).1.length
    rw [hlen, hlen]
    exact he)]
  rfl

theorem Kept.pipeTerminated (h : Kept d) (hp : p ∈ d.pipes) :
    ∃ d', d.pipeTerminated p = some d' ∧ Kept d' ∧ d'.more = d.more ∧
      d'.outlet = d.outlet ∧ (∀ x, x ∈ d'.pipes ↔ x ∈ d.pipes ∧ x ≠ p) ∧ (Ordered d → Ordered d' ∧
        ∀ x ∈ d'.pipes, (d'.index x < d'.matching ↔ d.index x < d.matching)) := by
  have he := h.eligible_le
  have ha := h.active_le
  have hm := h.matching_le
  let first := leave d.pipes p d.matching
  let second := leave first.1 p d.active
  let third := leave second.1 p d.eligible
  have hfirst : Left d.pipes first.1 p d.matching first.2 :=
    leave_spec h.nodup hp (hm.trans he)
  have hp₁ := hfirst.perm.mem_iff.mpr hp
  have hnodup₁ := hfirst.perm.nodup_iff.mpr h.nodup
  have hlen₁ := hfirst.perm.length_eq
  have hsecond : Left first.1 second.1 p d.active second.2 :=
    leave_spec hnodup₁ hp₁ (by omega)
  have hp₂ := hsecond.perm.mem_iff.mpr hp₁
  have hnodup₂ := hsecond.perm.nodup_iff.mpr hnodup₁
  have hlen₂ := hsecond.perm.length_eq
  have hthird : Left second.1 third.1 p d.eligible third.2 :=
    leave_spec hnodup₂ hp₂ (by omega)
  have hp₃ := hthird.perm.mem_iff.mpr hp₂
  have hnodup₃ := hthird.perm.nodup_iff.mpr hnodup₂
  have hget : third.1[third.1.idxOf p]? = some p := by
    rw [List.getElem?_eq_getElem (List.idxOf_lt_length_of_mem hp₃), List.getElem_idxOf]
  have hlen := length_erase hget
  have hlt := List.idxOf_lt_length_of_mem hp₃
  have hmem : ∀ x, x ∈ SwapArray.erase third.1 (third.1.idxOf p) ↔ x ∈ d.pipes ∧ x ≠ p := by
    intro x
    rw [mem_erase hnodup₃ hget, hthird.perm.mem_iff, hsecond.perm.mem_iff, hfirst.perm.mem_iff]
  -- where the pipe stands decides the counters
  have hin₁ : first.1.idxOf p < d.eligible ↔ d.pipes.idxOf p < d.eligible :=
    hfirst.above d.eligible hm p hp
  have hin₂ : second.1.idxOf p < d.eligible ↔ first.1.idxOf p < d.eligible :=
    hsecond.above d.eligible ha p hp₁
  have hc₁ := hfirst.count
  have hc₂ := hsecond.count
  have hc₃ := hthird.count
  have hout := hthird.out
  have hcounted : Counted (α := α)
      { d with
        pipes := SwapArray.erase third.1 (third.1.idxOf p), matching := first.2
        active := second.2, eligible := third.2 } :=
    { nodup := nodup_erase hnodup₃ hget
      matching_le := by
        show first.2 ≤ third.2
        split at hc₁ <;> split at hc₃ <;> omega
      active_le := by
        show second.2 ≤ third.2
        split at hc₂ <;> split at hc₃ <;> omega
      eligible_le := by
        show third.2 ≤ (SwapArray.erase third.1 (third.1.idxOf p)).length
        omega }
  refine ⟨_, pipeTerminated_eq h.toCounted hp, ?_, rfl, rfl, hmem, ?_⟩
  · refine { toCounted := hcounted, settled := ?_ }
    intro hmore
    have hsettled := h.settled hmore
    show second.2 = third.2
    split at hc₂ <;> split at hc₃ <;> omega
  · intro hordered
    have hle : first.2 ≤ second.2 := by
      have hma := hordered.matching_le_active
      have hin := hfirst.above d.active hma p hp
      split at hc₁ <;> split at hc₂ <;> omega
    have hle' : first.2 ≤ third.2 := hcounted.matching_le
    refine ⟨{ toCounted := hcounted, matching_le_active := hle }, ?_⟩
    intro x hx
    obtain ⟨hxd, hne⟩ := (hmem x).mp hx
    have hx₁ := hfirst.perm.mem_iff.mpr hxd
    have hx₂ := hsecond.perm.mem_iff.mpr hx₁
    have hx₃ := hthird.perm.mem_iff.mpr hx₂
    have hown : first.1.idxOf x < first.2 ↔ d.pipes.idxOf x < d.matching :=
      (hfirst.own x hxd).trans (and_iff_left hne)
    have hbelow₂ := hsecond.below first.2 hfirst.out hle x hx₁
    have hbelow₃ := hthird.below first.2 (hle.trans hsecond.out) hle' x hx₂
    have hplace := idxOf_erase hnodup₃ hget hx₃ hne
    show (SwapArray.erase third.1 (third.1.idxOf p)).idxOf x < first.2 ↔
      d.pipes.idxOf x < d.matching
    rw [← hown, ← hbelow₂, ← hbelow₃, hplace]
    split <;> omega

theorem Kept.rollback (h : Kept d) : Kept d.rollback ∧ Ordered d.rollback := by
  have hcounted : Counted d.rollback :=
    { nodup := h.nodup, matching_le := Nat.zero_le _, active_le := le_rfl
      eligible_le := h.eligible_le }
  exact ⟨{ toCounted := hcounted, settled := fun _ => rfl },
    { toCounted := hcounted, matching_le_active := Nat.zero_le _ }⟩

theorem Counted.finish (h : Counted d) (more : Bool) :
    Kept { (if more then d else { d with active := d.eligible }) with more := more } := by
  cases more with
  | true =>
    exact
      { nodup := h.nodup, matching_le := h.matching_le, active_le := h.active_le
        eligible_le := h.eligible_le
        settled := fun hmore => absurd hmore (by simp) }
  | false =>
    exact
      { nodup := h.nodup, matching_le := h.matching_le, active_le := le_rfl
        eligible_le := h.eligible_le, settled := fun _ => rfl }

theorem Ordered.finish (h : Ordered d) (more : Bool) :
    Ordered { (if more then d else { d with active := d.eligible }) with more := more } :=
  { toCounted := (h.toCounted.finish more).toCounted
    matching_le_active := by
      cases more
      · exact h.matching_le
      · exact h.matching_le_active }

section Send

variable {admitted : Bool} {part : LoadBalancer.Part α} {tooLarge : P → Bool}
  {verdict : P → Verdict}

theorem Kept.sendToMatching (h : Kept d) {d' : Dist P α} {sent : Bool}
    (hd : d.sendToMatching admitted part tooLarge verdict = some (d', sent)) : Kept d' := by
  rw [Dist.sendToMatching] at hd
  split at hd
  · rw [Option.some.injEq, Prod.mk.injEq] at hd
    rw [← hd.1]
    split
    · exact h.rollback.1
    · exact h
  · obtain ⟨d₁, hdist, hrest⟩ := Option.bind_eq_some_iff.mp hd
    rw [h.toCounted.distribute_eq] at hdist
    obtain ⟨h₁, -, -⟩ := Counted.writeFrom _ _ _ _ h.toCounted hdist
    simp only [pure, Option.some.injEq, Prod.mk.injEq] at hrest
    rw [← hrest.1]
    exact h₁.finish part.more

theorem Ordered.sendToMatching (hd : Ordered d) (h : Kept d) :
    ∃ d' sent, d.sendToMatching admitted part tooLarge verdict = some (d', sent) ∧ Ordered d' := by
  rw [Dist.sendToMatching]
  split
  · refine ⟨_, false, rfl, ?_⟩
    split
    · exact h.rollback.2
    · exact hd
  · obtain ⟨d₁, heq, hf⟩ : ∃ d₁, d.distribute admitted part verdict = some d₁ ∧
        Fanned admitted part verdict d d₁ 0 := hd.distribute
    refine ⟨_, true, ?_, hf.ordered.finish part.more⟩
    rw [heq]
    rfl

end Send

theorem Kept.matchAll (h : Kept d) : Kept d.matchAll :=
  { nodup := h.nodup, matching_le := h.active_le, active_le := h.active_le
    eligible_le := h.eligible_le, settled := h.settled }

theorem Kept.matchAll_ordered (h : Kept d) : Ordered d.matchAll :=
  { toCounted := h.matchAll.toCounted, matching_le_active := le_rfl }

/-- A call on the distributor, or a change of its pipes. -/
inductive Act (P α : Type) where
  | attach (p : P)
  | matchPipe (p : P)
  | unmatch
  | reverseMatch
  | activated (p : P)
  | pipeTerminated (p : P)
  | sendToMatching (admitted : Bool) (part : LoadBalancer.Part α) (tooLarge : P → Bool)
      (verdict : P → Verdict)
  | sendToAll (part : LoadBalancer.Part α) (tooLarge : P → Bool) (verdict : P → Verdict)
  | outlets (o : P → Outlet α)

def step (d : Dist P α) : Act P α → Option (Dist P α)
  | .attach p => if p ∈ d.pipes then none else d.attach p
  | .matchPipe p => d.matchPipe p
  | .unmatch => some d.unmatch
  | .reverseMatch => d.reverseMatch
  | .activated p => d.activated p
  | .pipeTerminated p => d.pipeTerminated p
  | .sendToMatching admitted part tooLarge verdict =>
    (d.sendToMatching admitted part tooLarge verdict).map Prod.fst
  | .sendToAll part tooLarge verdict => (d.sendToAll part tooLarge verdict).map Prod.fst
  | .outlets o => some { d with outlet := o }

def MatchesBetween (d : Dist P α) : Act P α → Prop
  | .matchPipe _ | .reverseMatch => d.more = false
  | _ => True

def Calls (d : Dist P α) : Act P α → Prop
  | .attach p => p ∉ d.pipes
  | .activated p => p ∈ d.pipes
  | _ => True

variable {act : Act P α}

theorem Kept.step (h : Kept d) {d' : Dist P α} (hd : d.step act = some d') : Kept d' := by
  cases act with
  | attach p =>
    rw [Dist.step] at hd
    split at hd
    · exact absurd hd (by simp)
    obtain ⟨l, heq, hl⟩ := h.toCounted.attach ‹_›
    rw [heq, Option.some.injEq] at hd
    subst hd
    have hlen := hl.perm.length_eq
    rw [List.length_append, List.length_singleton] at hlen
    have he := h.eligible_le
    have hnodup : (d.pipes ++ [p]).Nodup := List.nodup_append.mpr
      ⟨h.nodup, List.nodup_singleton p, by
        rintro x hx y hy rfl
        exact ‹p ∉ d.pipes› (List.mem_singleton.mp hy ▸ hx)⟩
    exact h.grown (hl.perm.nodup_iff.mpr hnodup) (by omega)
  | matchPipe p =>
    rcases h.toCounted.matchPipe p with heq | ⟨hge, hlt, l, hl, heq⟩
    · rw [Dist.step, heq, Option.some.injEq] at hd
      rw [← hd]
      exact h
    · rw [Dist.step, heq, Option.some.injEq] at hd
      subst hd
      exact
        { nodup := hl.nodup_iff.mpr h.nodup
          matching_le := by
            show d.matching + 1 ≤ d.eligible
            omega
          active_le := h.active_le
          eligible_le := h.eligible_le.trans_eq hl.length_eq.symm
          settled := h.settled }
  | unmatch =>
    rw [Dist.step, Option.some.injEq] at hd
    subst hd
    exact
      { nodup := h.nodup, matching_le := Nat.zero_le _, active_le := h.active_le
        eligible_le := h.eligible_le, settled := h.settled }
  | reverseMatch =>
    obtain ⟨l, hl, heq⟩ := h.toCounted.reverseMatch
    rw [Dist.step, heq, Option.some.injEq] at hd
    subst hd
    exact
      { nodup := hl.nodup_iff.mpr h.nodup
        matching_le := Nat.sub_le _ _
        active_le := h.active_le
        eligible_le := h.eligible_le.trans_eq hl.length_eq.symm
        settled := h.settled }
  | activated p =>
    rw [Dist.step] at hd
    rcases Nat.lt_or_ge d.eligible d.pipes.length with hlt | hge
    · by_cases hp : p ∈ d.pipes
      · obtain ⟨l, heq, hl⟩ := h.activated hp hlt
        rw [heq, Option.some.injEq] at hd
        subst hd
        exact h.grown (hl.perm.nodup_iff.mpr h.nodup) (hl.perm.length_eq ▸ hlt)
      · -- a pipe that is not attached has no index
        have hi : d.index p = d.pipes.length := List.idxOf_of_notMem hp
        rw [Dist.activated, if_pos hlt, swap, if_neg (by omega)] at hd
        exact absurd hd (by simp)
    · have hfull : d.eligible = d.pipes.length := Nat.le_antisymm h.eligible_le hge
      rw [h.activated_of_full p hfull, Option.some.injEq] at hd
      rw [← hd]
      exact h
  | pipeTerminated p =>
    rw [Dist.step] at hd
    by_cases hp : p ∈ d.pipes
    · obtain ⟨d₁, heq, h₁, -⟩ := h.pipeTerminated hp
      rw [heq, Option.some.injEq] at hd
      rw [← hd]
      exact h₁
    · rw [Dist.pipeTerminated, if_pos hp, Option.some.injEq] at hd
      rw [← hd]
      exact h
  | sendToMatching admitted part tooLarge verdict =>
    rw [Dist.step, Option.map_eq_some_iff] at hd
    obtain ⟨⟨d₁, sent⟩, heq, rfl⟩ := hd
    exact h.sendToMatching heq
  | sendToAll part tooLarge verdict =>
    rw [Dist.step, Option.map_eq_some_iff] at hd
    obtain ⟨⟨d₁, sent⟩, heq, rfl⟩ := hd
    exact h.matchAll.sendToMatching heq
  | outlets o =>
    rw [Dist.step, Option.some.injEq] at hd
    subst hd
    exact
      { nodup := h.nodup, matching_le := h.matching_le, active_le := h.active_le
        eligible_le := h.eligible_le, settled := h.settled }

theorem Ordered.step (hd : Ordered d) (h : Kept d) (hcalls : Calls d act)
    (hbetween : MatchesBetween d act) : ∃ d', d.step act = some d' ∧ Ordered d' := by
  have hma := hd.matching_le_active
  have hkept : ∀ {d'}, d.step act = some d' → d'.matching ≤ d'.active → Ordered d' := by
    intro d' heq hle
    exact { toCounted := (h.step heq).toCounted, matching_le_active := hle }
  cases act with
  | attach p =>
    obtain ⟨l, heq, hl⟩ := h.toCounted.attach hcalls
    have hstep : d.step (.attach p) = some _ := (if_neg hcalls).trans heq
    refine ⟨_, hstep, hkept hstep ?_⟩
    show d.matching ≤ if d.more then d.active else d.active + 1
    split <;> omega
  | matchPipe p =>
    rcases h.toCounted.matchPipe p with heq | ⟨hge, hlt, l, hl, heq⟩
    · exact ⟨d, heq, hd⟩
    · refine ⟨_, heq, hkept heq ?_⟩
      have hsettled := h.settled hbetween
      show d.matching + 1 ≤ d.active
      omega
  | unmatch => exact ⟨d.unmatch, rfl, hkept rfl (Nat.zero_le _)⟩
  | reverseMatch =>
    obtain ⟨l, hl, heq⟩ := h.toCounted.reverseMatch
    refine ⟨_, heq, hkept heq ?_⟩
    have hsettled := h.settled hbetween
    show d.eligible - d.matching ≤ d.active
    omega
  | activated p =>
    rcases Nat.lt_or_ge d.eligible d.pipes.length with hlt | hge
    · obtain ⟨l, heq, hl⟩ := h.activated hcalls hlt
      refine ⟨_, heq, hkept heq ?_⟩
      show d.matching ≤ if d.more then d.active else d.active + 1
      split <;> omega
    · have hfull : d.eligible = d.pipes.length := Nat.le_antisymm h.eligible_le hge
      exact ⟨d, h.activated_of_full p hfull, hd⟩
  | pipeTerminated p =>
    by_cases hp : p ∈ d.pipes
    · obtain ⟨d', heq, -, -, -, -, hordered⟩ := h.pipeTerminated hp
      exact ⟨d', heq, (hordered hd).1⟩
    · exact ⟨d, if_pos hp, hd⟩
  | sendToMatching admitted part tooLarge verdict =>
    obtain ⟨d', sent, heq, hd'⟩ : ∃ d' sent,
        d.sendToMatching admitted part tooLarge verdict = some (d', sent) ∧
          Ordered d' := hd.sendToMatching h
    exact ⟨d', by rw [Dist.step, heq, Option.map_some], hd'⟩
  | sendToAll part tooLarge verdict =>
    obtain ⟨d', sent, heq, hd'⟩ : ∃ d' sent,
        d.matchAll.sendToMatching false part tooLarge verdict = some (d', sent) ∧
          Ordered d' := h.matchAll_ordered.sendToMatching h.matchAll
    exact ⟨d', by rw [Dist.step, sendToAll, heq, Option.map_some], hd'⟩
  | outlets o => exact ⟨_, rfl, hkept rfl hma⟩

theorem Kept.step_of_not_calls (h : Kept d) (hcalls : ¬Calls d act)
    {d' : Dist P α} (hd : d.step act = some d') : d' = d := by
  cases act with
  | attach p =>
    rw [Dist.step, if_pos (not_not.mp hcalls)] at hd
    exact absurd hd (by simp)
  | activated p =>
    have hi : d.index p = d.pipes.length := List.idxOf_of_notMem hcalls
    rw [Dist.step] at hd
    rcases Nat.lt_or_ge d.eligible d.pipes.length with hlt | hge
    · rw [Dist.activated, if_pos hlt, swap, if_neg (by omega)] at hd
      exact absurd hd (by simp)
    · rw [h.activated_of_full p (Nat.le_antisymm h.eligible_le hge), Option.some.injEq] at hd
      exact hd.symm
  | _ => exact absurd trivial hcalls

theorem Kept.mem_activated (h : Kept d) (hp : p ∈ d.pipes)
    (hpassive : p ∉ d.pipes.take d.eligible) : ∃ d', d.activated p = some d' ∧
      ∀ x, x ∈ d'.pipes.take d'.eligible ↔ x ∈ d.pipes.take d.eligible ∨ x = p := by
  have hge : d.eligible ≤ d.index p := by
    by_contra hlt
    exact hpassive ((List.mem_take_iff_idxOf_lt hp).mpr (Nat.lt_of_not_le hlt))
  obtain ⟨l, heq, hl⟩ := h.activated hp (hge.trans_lt (index_lt hp))
  refine ⟨_, heq, ?_⟩
  intro x
  show x ∈ l.take (d.eligible + 1) ↔ _
  by_cases hx : x ∈ d.pipes
  · rw [List.mem_take_iff_idxOf_lt (hl.perm.mem_iff.mpr hx), hl.place x hx,
      List.mem_take_iff_idxOf_lt hx, h.activatedAt_lt hge]
    exact or_congr_right (List.idxOf_inj hx)
  · have hxl : x ∉ l := fun hmem => hx (hl.perm.mem_iff.mp hmem)
    constructor
    · exact fun hmem => absurd (List.mem_of_mem_take hmem) hxl
    · rintro (hmem | rfl)
      · exact absurd (List.mem_of_mem_take hmem) hx
      · exact absurd hp hx

theorem run_kept {o : P → Outlet α} {es : List (Act P α)}
    (hrun : Trace.run step (create o) es = some d) : Kept d :=
  Trace.run_invariant (fun _ _ _ h _ hstep => h.step hstep) (create_kept o)
    (Trace.along_true _ _) hrun

theorem run_ordered {o : P → Outlet α} {es : List (Act P α)}
    (hbetween : Trace.Along step MatchesBetween (create o) es)
    (hrun : Trace.run step (create o) es = some d) : Ordered d := by
  have hinit : Kept (create o) ∧ Ordered (create o) :=
    ⟨create_kept o, (create_kept o).ordered rfl⟩
  refine (Trace.run_invariant (I := fun d => Kept d ∧ Ordered d) ?_ hinit hbetween hrun).2
  rintro d act d' ⟨h, hd⟩ hact hstep
  refine ⟨h.step hstep, ?_⟩
  by_cases hcalls : Calls d act
  · obtain ⟨d₁, heq, hd₁⟩ := hd.step h hcalls hact
    rw [heq, Option.some.injEq] at hstep
    exact hstep ▸ hd₁
  · rw [h.step_of_not_calls hcalls hstep]
    exact hd

/-- In every run the matching and the active pipes are eligible ones, and a passive pipe
that is activated is the one pipe that becomes eligible. In every run that matches pipes
between messages only, the matching pipes are active ones too, and every call is possible. -/
theorem run_partitions (o : P → Outlet α) (es : List (Act P α)) (d : Dist P α)
    (hrun : Trace.run step (create o) es = some d) :
    (d.matching ≤ d.eligible ∧ d.active ≤ d.eligible ∧ d.eligible ≤ d.pipes.length) ∧
    (Trace.Along step MatchesBetween (create o) es → d.matching ≤ d.active ∧
      ∀ act, Calls d act → MatchesBetween d act → ∃ d', d.step act = some d') ∧
    ∀ p ∈ d.pipes, p ∉ d.pipes.take d.eligible → ∃ d', d.activated p = some d' ∧
      ∀ x, x ∈ d'.pipes.take d'.eligible ↔ x ∈ d.pipes.take d.eligible ∨ x = p := by
  have h := run_kept hrun
  refine ⟨⟨h.matching_le, h.active_le, h.eligible_le⟩, ?_, ?_⟩
  · intro hbetween
    have hd := run_ordered hbetween hrun
    refine ⟨hd.matching_le_active, ?_⟩
    intro act hcalls hact
    obtain ⟨d', heq, -⟩ := hd.step h hcalls hact
    exact ⟨d', heq⟩
  · intro p hp hpassive
    exact h.mem_activated hp hpassive

theorem run_partitions_refused : ∃ d : Dist ℕ Unit, Trace.run step (create fun _ => Outlet.create)
      [.attach 1, .attach 2, .matchPipe 2, .sendToMatching false ⟨false, ()⟩ (fun _ => false)
        fun _ => .refuses true] = some d ∧
      (d.matching ≤ d.eligible ∧ d.active ≤ d.eligible ∧ d.eligible ≤ d.pipes.length) :=
  ⟨_, rfl, (run_partitions (fun _ => Outlet.create)
    [.attach 1, .attach 2, .matchPipe 2, .sendToMatching false ⟨false, ()⟩ (fun _ => false)
      fun _ => .refuses true] _ rfl).1⟩

/-- A pipe attached in the middle of a message can match before it is active; and a pipe
that is activated while it is eligible makes a passive one eligible in its place. -/
theorem matching_exceeds_active_and_passive_pipe_activated :
    (∃ d : Dist ℕ Unit, Trace.run step (create fun _ => Outlet.create)
      [.sendToMatching false ⟨true, ()⟩ (fun _ => false) fun _ => .accepts, .attach 1,
        .matchPipe 1] = some d ∧ d.active < d.matching) ∧
    ∃ d d' : Dist ℕ Unit, Trace.run step (create fun _ => Outlet.create)
      [.attach 1, .attach 2, .matchPipe 2, .sendToMatching false ⟨false, ()⟩ (fun _ => false)
        fun _ => .refuses true] = some d ∧ 1 ∈ d.pipes ∧ d.activated 1 = some d' ∧
      2 ∈ d'.pipes.take d'.eligible ∧ 2 ∉ d.pipes.take d.eligible ∧ (2 : ℕ) ≠ 1 :=
  ⟨⟨_, rfl, by decide⟩, _, _, rfl, by decide, rfl, by decide, by decide, by decide⟩

end Dist

end Zlink.Distribution
