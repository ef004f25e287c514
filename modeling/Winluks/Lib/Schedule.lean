import Mathlib.Algebra.BigOperators.Group.Finset.Basic
import Mathlib.Algebra.Order.BigOperators.Group.Finset

/-!
# Transfers in parts

A transfer of `size` bytes is made by calls that may each move a part, be
interrupted, or fail.  A schedule says what every call will do.  `progress` is
how much has moved after `k` calls; a transfer is complete when the amounts add
up before a call that ends it, and some call ends it unless interruptions go on
for ever.
-/

namespace Lib

/-- What one call does. -/
inductive Answer where
  | moved (n : Nat)
  | interrupted
  | failed
deriving DecidableEq, Repr

namespace Answer

def amount : Answer → Nat
  | .moved n => n
  | _ => 0

/-- The transfer goes on after the call: it moved something or was interrupted. -/
def Goes : Answer → Prop
  | .moved n => n ≠ 0
  | .interrupted => True
  | .failed => False

instance : DecidablePred Goes := fun a => by
  cases a <;> unfold Goes <;> infer_instance

end Answer

/-- The bytes moved by the first `k` calls, each of which moves no more than what is left. -/
def progress (σ : Nat → Answer) (size : Nat) : Nat → Nat
  | 0 => 0
  | k + 1 => progress σ size k + min (σ k).amount (size - progress σ size k)

/-- Everything is moved before a call that moves nothing or fails. -/
def Completes (σ : Nat → Answer) (size : Nat) : Prop :=
  ∃ k, (∀ j < k, (σ j).Goes) ∧ size ≤ ∑ j ∈ Finset.range k, (σ j).amount

/-- The calls before `k` leave the transfer unfinished and going on. -/
def GoesTo (σ : Nat → Answer) (size k : Nat) : Prop :=
  ∀ j < k, (σ j).Goes ∧ progress σ size j < size

variable {σ : Nat → Answer} {size : Nat}

theorem progress_eq (k : Nat) :
    progress σ size k = min size (∑ j ∈ Finset.range k, (σ j).amount) := by
  induction k with
  | zero => simp [progress]
  | succ k ih =>
    rw [progress, ih, Finset.sum_range_succ]
    omega

theorem progress_le (k : Nat) : progress σ size k ≤ size := by
  rw [progress_eq]
  exact Nat.min_le_left _ _

theorem progress_mono {j k : Nat} (h : j ≤ k) : progress σ size j ≤ progress σ size k := by
  rw [progress_eq, progress_eq]
  have hsum : ∑ i ∈ Finset.range j, (σ i).amount ≤ ∑ i ∈ Finset.range k, (σ i).amount :=
    Finset.sum_le_sum_of_subset (Finset.range_mono h)
  omega

theorem completes_iff : Completes σ size ↔ ∃ k, (∀ j < k, (σ j).Goes) ∧
    progress σ size k = size := by
  have hfull : ∀ k, size ≤ ∑ j ∈ Finset.range k, (σ j).amount ↔ progress σ size k = size := by
    intro k
    rw [progress_eq]
    omega
  simp only [Completes, hfull]

/-- A call that goes on without an interruption moves at least one byte. -/
theorem amount_pos {a : Answer} (hgoes : a.Goes) (hne : a ≠ .interrupted) : 0 < a.amount := by
  cases a with
  | moved n => exact Nat.pos_of_ne_zero hgoes
  | interrupted => exact absurd rfl hne
  | failed => exact hgoes.elim

/-- Unless interruptions go on for ever, some call finds the transfer finished or ends it. -/
theorem exists_stop (h : ∀ k, ∃ j, k ≤ j ∧ σ j ≠ .interrupted) :
    ∃ k, ¬ ((σ k).Goes ∧ progress σ size k < size) := by
  by_contra hnone
  have hgoes : ∀ k, (σ k).Goes ∧ progress σ size k < size := by
    intro k
    by_contra hk
    exact hnone ⟨k, hk⟩
  have hmany : ∀ m, ∃ k, m ≤ ∑ j ∈ Finset.range k, (σ j).amount := by
    intro m
    induction m with
    | zero => exact ⟨0, Nat.zero_le _⟩
    | succ m ih =>
      obtain ⟨k, hk⟩ := ih
      obtain ⟨j, hkj, hj⟩ := h k
      have hmono : ∑ i ∈ Finset.range k, (σ i).amount ≤ ∑ i ∈ Finset.range j, (σ i).amount :=
        Finset.sum_le_sum_of_subset (Finset.range_mono hkj)
      have hpos := amount_pos (hgoes j).1 hj
      refine ⟨j + 1, ?_⟩
      rw [Finset.sum_range_succ]
      omega
  obtain ⟨k, hk⟩ := hmany size
  have := (hgoes k).2
  rw [progress_eq] at this
  omega

/-- The first call that does not leave the transfer going. -/
theorem exists_first_stop (h : ∃ k, ¬ ((σ k).Goes ∧ progress σ size k < size)) :
    ∃ k, GoesTo σ size k ∧ ¬ ((σ k).Goes ∧ progress σ size k < size) := by
  classical
  refine ⟨Nat.find h, fun j hj => ?_, Nat.find_spec h⟩
  exact not_not.mp (Nat.find_min h hj)

end Lib
