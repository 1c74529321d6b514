import Mathlib.Data.List.Infix
import Mathlib.Data.List.Induction
import Mathlib.Data.Option.Basic

/-!
# Runs of a partial step function

A system is a function that says, for a state and an event, which state follows, or
that the event cannot happen. A run is a list of events. `Along` states a condition on
every event of a run and the state it finds, and `run_invariant` is the rule for what
every state of such a run keeps.
-/

namespace Trace

variable {S E : Type} (step : S → E → Option S)

/-- The state behind a list of events. -/
def run (x : S) : List E → Option S
  | [] => some x
  | e :: es => (step x e).bind fun y => run y es

/-- The condition holds of every event and the state it finds. -/
def Along (C : S → E → Prop) (x : S) : List E → Prop
  | [] => True
  | e :: es => C x e ∧ ∀ y, step x e = some y → Along C y es

instance decidableAlong (C : S → E → Prop) [∀ x e, Decidable (C x e)] :
    ∀ (es : List E) (x : S), Decidable (Along step C x es)
  | [], _ => .isTrue trivial
  | e :: es, x =>
    match h : step x e with
    | none => decidable_of_iff (C x e) (by simp [Along, h])
    | some y =>
      have := decidableAlong C es y
      decidable_of_iff (C x e ∧ Along step C y es) (by simp [Along, h])

variable {step} {C : S → E → Prop} {x y z : S} {es fs : List E}

theorem run_append (hx : run step x es = some y) : run step x (es ++ fs) = run step y fs := by
  induction es generalizing x with
  | nil => rw [Option.some.inj hx, List.nil_append]
  | cons e es ih =>
    obtain ⟨z, hz, hs⟩ := Option.bind_eq_some_iff.mp hx
    rw [List.cons_append, run, hz]
    exact ih hs

theorem Along.of_append (h : Along step C x (es ++ fs)) : Along step C x es := by
  induction es generalizing x with
  | nil => trivial
  | cons e es ih => exact ⟨h.1, fun y hy => ih (h.2 y hy)⟩

theorem Along.after (h : Along step C x (es ++ fs)) (hx : run step x es = some y) :
    Along step C y fs := by
  induction es generalizing x with
  | nil => exact Option.some.inj hx ▸ h
  | cons e es ih =>
    obtain ⟨z, hz, hs⟩ := Option.bind_eq_some_iff.mp hx
    exact ih (h.2 z hz) hs

theorem run_invariant {I : S → Prop}
    (hstep : ∀ x e y, I x → C x e → step x e = some y → I y) (hx : I x)
    (hC : Along step C x es) (hrun : run step x es = some y) : I y := by
  induction es generalizing x with
  | nil => exact Option.some.inj hrun ▸ hx
  | cons e es ih =>
    obtain ⟨z, hz, hs⟩ := Option.bind_eq_some_iff.mp hrun
    exact ih (hstep x e z hx hC.1 hz) (hC.2 z hz) hs

theorem Along.and {D : S → E → Prop} (h : Along step C x es)
    (h' : Along step D x es) : Along step (fun x e => C x e ∧ D x e) x es := by
  induction es generalizing x with
  | nil => trivial
  | cons e es ih => exact ⟨⟨h.1, h'.1⟩, fun y hy => ih (h.2 y hy) (h'.2 y hy)⟩

theorem along_true (x : S) (es : List E) : Along step (fun _ _ => True) x es := by
  induction es generalizing x with
  | nil => trivial
  | cons e es ih => exact ⟨trivial, fun y _ => ih y⟩

/-- What a quantity of the events comes to along a run. -/
def total (step : S → E → Option S) (f : S → E → ℕ) (x : S) : List E → ℕ
  | [] => 0
  | e :: es => f x e + (step x e).elim 0 fun y => total step f y es

/-- The potential rule: what a run brings is paid for by the potential it starts with and by
what is put in on the way. -/
theorem total_le {I : S → Prop} {m : S → ℕ} {f g : S → E → ℕ}
    (hstep : ∀ x e y, I x → C x e → step x e = some y → I y ∧ f x e + m y ≤ m x + g x e)
    (hx : I x) (hC : Along step C x es) (hrun : run step x es = some y) :
    total step f x es + m y ≤ m x + total step g x es := by
  induction es generalizing x with
  | nil =>
    rw [Option.some.inj hrun, total, total, Nat.zero_add, Nat.add_zero]
  | cons e es ih =>
    obtain ⟨z, hz, hs⟩ := Option.bind_eq_some_iff.mp hrun
    obtain ⟨hI, hpay⟩ := hstep x e z hx hC.1 hz
    have hrest := ih hI (hC.2 z hz) hs
    simp only [total, hz, Option.elim_some]
    omega

section Total

variable (f : S → E → S) (I : S → Prop) {P : S → Prop}

theorem foldl_invariant (hstep : ∀ x e, I x → I (f x e)) (hx : I x) (es : List E) :
    I (es.foldl f x) := by
  induction es generalizing x with
  | nil => exact hx
  | cons e es ih => exact ih (hstep x e hx)

/-- When a step keeps the property exactly under the condition, every state of a run has the
property exactly when every step of the run meets the condition. -/
theorem forall_prefix_iff (hI : ∀ x e, I x → I (f x e))
    (hP : ∀ x e, I x → P x → (P (f x e) ↔ C x e)) (hIx : I x) (hPx : P x) (es : List E) :
    (∀ done, done <+: es → P (done.foldl f x)) ↔
      ∀ done e, done ++ [e] <+: es → C (done.foldl f x) e := by
  have hinv (done : List E) : I (done.foldl f x) := foldl_invariant f I hI hIx done
  constructor
  · intro h done e hdone
    have hnext := h _ hdone
    rw [List.foldl_append] at hnext
    exact (hP _ e (hinv done) (h done ((List.prefix_append done [e]).trans hdone))).mp hnext
  · intro h done
    induction done using List.reverseRecOn with
    | nil => exact fun _ => hPx
    | append_singleton done e ih =>
      intro hdone
      have hbefore := ih ((List.prefix_append done [e]).trans hdone)
      rw [List.foldl_append]
      exact (hP _ e (hinv done) hbefore).mpr (h done e hdone)

end Total

end Trace
