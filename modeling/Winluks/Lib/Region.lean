import Mathlib.Order.Lattice
import Mathlib.Tactic.Common

/-!
# Regions

A region is a half-open interval of positions.  Two regions are apart when one
ends before the other begins; a list built by testing each new region against
all earlier ones is pairwise apart (`pairwise_apart_snoc`).
-/

namespace Lib

variable {α : Type} [LinearOrder α]

/-- The positions from `start` up to, but not including, `stop`. -/
structure Region (α : Type) where
  start : α
  stop : α
deriving DecidableEq, Repr

namespace Region

def Contains (r : Region α) (p : α) : Prop := r.start ≤ p ∧ p < r.stop

/-- One of the two ends before the other begins. -/
def Apart (r s : Region α) : Prop := r.stop ≤ s.start ∨ s.stop ≤ r.start

/-- `r` lies in `s`. -/
def Within (r s : Region α) : Prop := s.start ≤ r.start ∧ r.stop ≤ s.stop

variable {r s : Region α}

theorem Apart.symm (h : r.Apart s) : s.Apart r := Or.symm h

/-- The overlap test, failed. -/
theorem apart_of_no_overlap (h : ¬ (r.start < s.stop ∧ s.start < r.stop)) : r.Apart s := by
  by_cases h1 : r.start < s.stop
  · exact Or.inl (not_lt.mp fun h2 => h ⟨h1, h2⟩)
  · exact Or.inr (not_lt.mp h1)

/-- One more region, apart from all before it. -/
theorem pairwise_apart_snoc {l : List (Region α)} (hl : l.Pairwise Apart) (h : ∀ s ∈ l, r.Apart s) :
    (l ++ [r]).Pairwise Apart := by
  rw [List.pairwise_append]
  refine ⟨hl, List.pairwise_singleton _ _, ?_⟩
  intro s hs r' hr'
  obtain rfl := List.mem_singleton.mp hr'
  exact (h s hs).symm

end Region

end Lib
