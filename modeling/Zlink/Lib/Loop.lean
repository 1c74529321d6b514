import Mathlib.Data.Option.Basic
import Mathlib.Tactic

/-!
# Loops

A loop is given by one turn of it, which says how the state goes on, or with which result
the loop ends, or that the turn cannot be made. `run` makes as many turns as it is given.
`Leads` says where some turns lead to; where they lead to a result, enough turns give it.
-/

namespace Loop

variable {S R : Type} (turn : S → Option (S ⊕ R))

def run : ℕ → S → Option R
  | 0, _ => none
  | fuel + 1, x =>
    match turn x with
    | none => none
    | some (.inr r) => some r
    | some (.inl y) => run fuel y

inductive Leads : S → S ⊕ R → Prop
  | last {x : S} {r : S ⊕ R} : turn x = some r → Leads x r
  | step {x y : S} {r : S ⊕ R} : turn x = some (.inl y) → Leads y r → Leads x r

variable {turn}

theorem Leads.trans {x y : S} {r : S ⊕ R} (h : Leads turn x (.inl y))
    (h' : Leads turn y r) : Leads turn x r := by
  generalize hx : (.inl y : S ⊕ R) = z at h
  induction h with
  | last hturn =>
    subst hx
    exact .step hturn h'
  | step hturn _ ih => exact .step hturn (ih hx)

theorem Leads.run {x : S} {r : R} (h : Leads turn x (.inr r)) :
    ∃ n, ∀ m, n ≤ m → Loop.run turn m x = some r := by
  generalize hx : (.inr r : S ⊕ R) = z at h
  induction h with
  | last hturn =>
    subst hx
    refine ⟨1, fun m hm => ?_⟩
    obtain ⟨m, rfl⟩ := Nat.exists_eq_add_of_le' hm
    rw [Loop.run, hturn]
  | step hturn _ ih =>
    obtain ⟨n, hn⟩ := ih hx
    refine ⟨n + 1, fun m hm => ?_⟩
    obtain ⟨m, rfl⟩ := Nat.exists_eq_add_of_le' hm
    rw [← Nat.add_assoc, Loop.run, hturn]
    exact hn _ (Nat.le_add_left _ _)

end Loop
