import Mathlib.Data.List.Basic
import Mathlib.Tactic.Common

/-!
# Delimited formats

A delimited format says of the symbols at hand whether a frame can be cut off their front,
whether more symbols are needed first, or whether no frame can ever start so. `parse` cuts
frames as long as it can. A reader that takes a stream in pieces and holds back what no
frame has used yet reads what `parse` reads: `parse_append` is the step of that argument.
-/

namespace Delimited

/-- What a format makes of the symbols at hand. -/
inductive Found (B F E : Type*) where
  | more
  | frame (f : F) (rest : List B)
  | bad (e : E)

structure Format (B F E : Type*) where
  next : List B → Found B F E
  shorter : ∀ {xs f rest}, next xs = .frame f rest → rest.length < xs.length
  frame_append : ∀ {xs f rest} ys, next xs = .frame f rest →
    next (xs ++ ys) = .frame f (rest ++ ys)
  bad_append : ∀ {xs e} ys, next xs = .bad e → next (xs ++ ys) = .bad e

inductive Ending (B E : Type*) where
  | tail (held : List B)
  | bad (e : E)

namespace Format

variable {B F E : Type*} (fmt : Format B F E)

/-- Cut frames off the front as long as there are any. -/
def parse (xs : List B) : List F × Ending B E :=
  match _h : fmt.next xs with
  | .more => ([], .tail xs)
  | .bad e => ([], .bad e)
  | .frame f rest => (f :: (parse rest).1, (parse rest).2)
termination_by xs.length
decreasing_by all_goals exact fmt.shorter _h

variable {fmt} {xs ys rest held : List B} {f : F} {fs gs : List F} {e : E}
  {ending : Ending B E}

theorem parse_of_more (h : fmt.next xs = .more) : fmt.parse xs = ([], .tail xs) := by
  rw [parse]
  split
  · rfl
  · rename_i hbad
    rw [h] at hbad
    cases hbad
  · rename_i hframe
    rw [h] at hframe
    cases hframe

theorem parse_of_bad (h : fmt.next xs = .bad e) : fmt.parse xs = ([], .bad e) := by
  rw [parse]
  split
  · rename_i hmore
    rw [h] at hmore
    cases hmore
  · rename_i hbad
    rw [h] at hbad
    cases hbad
    rfl
  · rename_i hframe
    rw [h] at hframe
    cases hframe

theorem parse_of_frame (h : fmt.next xs = .frame f rest) :
    fmt.parse xs = (f :: (fmt.parse rest).1, (fmt.parse rest).2) := by
  rw [parse]
  split
  · rename_i hmore
    rw [h] at hmore
    cases hmore
  · rename_i hbad
    rw [h] at hbad
    cases hbad
  · rename_i hframe
    rw [h] at hframe
    cases hframe
    rfl

/-- The frames of a longer stream are those of its first part, and then those of what the
first part left over and the second part. -/
theorem parse_append (h : fmt.parse xs = (fs, .tail held)) : fmt.parse (xs ++ ys) =
      (fs ++ (fmt.parse (held ++ ys)).1, (fmt.parse (held ++ ys)).2) := by
  induction hn : xs.length using Nat.strongRecOn generalizing xs fs with
  | ind n ih =>
    cases hnext : fmt.next xs with
    | more =>
      rw [parse_of_more hnext] at h
      cases h
      rfl
    | bad e =>
      rw [parse_of_bad hnext] at h
      cases h
    | frame f rest =>
      rw [parse_of_frame hnext, Prod.mk.injEq] at h
      obtain ⟨rfl, hend⟩ := h
      have hrest : fmt.parse rest = ((fmt.parse rest).1, .tail held) := by rw [← hend]
      rw [parse_of_frame (fmt.frame_append ys hnext),
        ih _ (hn ▸ fmt.shorter hnext) hrest rfl, List.cons_append]

theorem parse_append_of_bad (h : fmt.parse xs = (fs, .bad e)) :
    fmt.parse (xs ++ ys) = (fs, .bad e) := by
  induction hn : xs.length using Nat.strongRecOn generalizing xs fs with
  | ind n ih =>
    cases hnext : fmt.next xs with
    | more =>
      rw [parse_of_more hnext] at h
      cases h
    | bad e' =>
      rw [parse_of_bad hnext] at h
      cases h
      exact parse_of_bad (fmt.bad_append ys hnext)
    | frame f rest =>
      rw [parse_of_frame hnext, Prod.mk.injEq] at h
      obtain ⟨rfl, hend⟩ := h
      have hrest : fmt.parse rest = ((fmt.parse rest).1, .bad e) := by rw [← hend]
      rw [parse_of_frame (fmt.frame_append ys hnext), ih _ (hn ▸ fmt.shorter hnext) hrest rfl]

/-- A reader that has read `xs` and holds `held` goes on with `ys`. -/
theorem parse_extend (h : fmt.parse xs = (fs, .tail held))
    (hys : fmt.parse (held ++ ys) = (gs, ending)) : fmt.parse (xs ++ ys) = (fs ++ gs, ending) := by
  rw [parse_append h, hys]

end Format

end Delimited
