import Mathlib.Data.List.Basic
import Mathlib.Tactic

/-!
# The latest of many reports

A value with a stamp is replaced by a report with a later one. Whatever the order of the
reports, and however often they are repeated, the stamp only grows, and the value at the
end is the one of the latest report.
-/

structure Stamped (α : Type) where
  value : α
  stamp : ℕ
  deriving DecidableEq

namespace Stamped

variable {α : Type} {x y c : Stamped α} {reports : List (Stamped α)}

def take (x y : Stamped α) : Stamped α :=
  if x.stamp < y.stamp then y else x

theorem le_take (x y : Stamped α) : x.stamp ≤ (x.take y).stamp := by
  unfold take
  split
  · exact le_of_lt ‹_›
  · exact le_rfl

theorem report_le_take (x y : Stamped α) : y.stamp ≤ (x.take y).stamp := by
  unfold take
  split
  · exact le_rfl
  · exact Nat.le_of_not_lt ‹_›

theorem le_foldl : x.stamp ≤ (reports.foldl take x).stamp := by
  induction reports generalizing x with
  | nil => exact le_rfl
  | cons y reports ih => exact (le_take x y).trans ih

theorem report_le_foldl (h : c ∈ reports) : c.stamp ≤ (reports.foldl take x).stamp := by
  induction reports generalizing x with
  | nil => exact absurd h List.not_mem_nil
  | cons y reports ih =>
    rcases List.mem_cons.mp h with rfl | hmem
    · exact (report_le_take x c).trans le_foldl
    · exact ih hmem

theorem foldl_eq_or_mem : reports.foldl take x = x ∨ reports.foldl take x ∈ reports := by
  induction reports generalizing x with
  | nil => exact .inl rfl
  | cons y reports ih =>
    rw [List.foldl_cons]
    rcases @ih (x.take y) with hsame | hmem
    · rw [hsame, take]
      split
      · exact .inr List.mem_cons_self
      · exact .inl rfl
    · exact .inr (List.mem_cons_of_mem y hmem)

theorem foldl_value (hmem : c ∈ reports) (hlate : x.stamp < c.stamp)
    (hlatest : ∀ d ∈ reports, d.stamp ≤ c.stamp)
    (hagree : ∀ d ∈ reports, d.stamp = c.stamp → d.value = c.value) :
    (reports.foldl take x).value = c.value := by
  have hle : c.stamp ≤ (reports.foldl take x).stamp := report_le_foldl hmem
  rcases @foldl_eq_or_mem _ x reports with hsame | hreport
  · rw [hsame] at hle
    exact absurd hlate (Nat.not_lt.mpr hle)
  · exact hagree _ hreport (Nat.le_antisymm (hlatest _ hreport) hle)

end Stamped
