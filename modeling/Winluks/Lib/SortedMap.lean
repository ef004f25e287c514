import Mathlib.Tactic.Common
import Mathlib.Data.List.Basic

/-!
# Ordered maps

A map iterated in the order of its keys, as the list of its entries.
`insertKey` replaces the entry of a key or adds one in its place.  A lookup
after an insertion does not need the list to be sorted; what sortedness adds is
that a map is determined by its lookups.  `modifyKey` changes the value of a key
in place.
-/

namespace Lib

variable {κ β : Type} [DecidableEq κ]

/-- Insert at the first larger key, replacing an equal one. -/
def insertKey [LT κ] [DecidableLT κ] (k : κ) (v : β) : List (κ × β) → List (κ × β)
  | [] => [(k, v)]
  | (k', v') :: m =>
    if k = k' then (k, v) :: m
    else if k < k' then (k, v) :: (k', v') :: m
    else (k', v') :: insertKey k v m

section
variable [LT κ] [DecidableLT κ]

@[simp] theorem lookup_insertKey_self (k : κ) (v : β) (m : List (κ × β)) :
    (insertKey k v m).lookup k = some v := by
  induction m with
  | nil => simp [insertKey]
  | cons e m ih =>
    obtain ⟨k', v'⟩ := e
    unfold insertKey
    split
    · simp
    · next hne =>
      split
      · simp
      · rw [List.lookup_cons, beq_false_of_ne hne]; exact ih

theorem lookup_insertKey_of_ne {k k₂ : κ} (h : k₂ ≠ k) (v : β) (m : List (κ × β)) :
    (insertKey k v m).lookup k₂ = m.lookup k₂ := by
  induction m with
  | nil => simp [insertKey, List.lookup_cons, beq_false_of_ne h]
  | cons e m ih =>
    obtain ⟨k', v'⟩ := e
    unfold insertKey
    split
    · next he => subst he; simp [List.lookup_cons, beq_false_of_ne h]
    · split
      · simp [List.lookup_cons, beq_false_of_ne h]
      · simp only [List.lookup_cons, ih]

theorem lookup_insertKey (k k₂ : κ) (v : β) (m : List (κ × β)) :
    (insertKey k v m).lookup k₂ = if k₂ = k then some v else m.lookup k₂ := by
  split
  · next h => subst h; exact lookup_insertKey_self _ _ _
  · next h => exact lookup_insertKey_of_ne h v m

theorem mem_insertKey {k : κ} {v : β} {m : List (κ × β)} {e : κ × β} (h : e ∈ insertKey k v m) :
    e = (k, v) ∨ e ∈ m := by
  induction m with
  | nil => exact Or.inl (by simpa [insertKey] using h)
  | cons e' m ih =>
    obtain ⟨k', v'⟩ := e'
    unfold insertKey at h
    split at h
    · rcases List.mem_cons.mp h with h | h
      · exact Or.inl h
      · exact Or.inr (List.mem_cons_of_mem _ h)
    · split at h
      · exact List.mem_cons.mp h
      · rcases List.mem_cons.mp h with h | h
        · exact Or.inr (h ▸ List.mem_cons_self)
        · rcases ih h with h | h
          · exact Or.inl h
          · exact Or.inr (List.mem_cons_of_mem _ h)

omit [LT κ] [DecidableLT κ] in
theorem lookup_eq_none_iff {k : κ} {m : List (κ × β)} : m.lookup k = none ↔ k ∉ m.map Prod.fst := by
  induction m with
  | nil => simp
  | cons e m ih =>
    obtain ⟨k', v'⟩ := e
    by_cases h : k = k'
    · simp [h]
    · rw [List.lookup_cons, beq_false_of_ne h]
      simp [ih, h]

/-- A new key adds its entry and loses none. -/
theorem insertKey_perm {k : κ} {v : β} {m : List (κ × β)} (hk : m.lookup k = none) :
    (insertKey k v m).Perm ((k, v) :: m) := by
  induction m with
  | nil => exact List.Perm.refl _
  | cons e m ih =>
    obtain ⟨k', v'⟩ := e
    have hnot : k ∉ ((k', v') :: m).map Prod.fst := lookup_eq_none_iff.mp hk
    rw [List.map_cons, List.mem_cons, not_or] at hnot
    unfold insertKey
    rw [if_neg hnot.1]
    split
    · exact List.Perm.refl _
    · exact ((ih (lookup_eq_none_iff.mpr hnot.2)).cons _).trans (List.Perm.swap _ _ _)

/-- A new key keeps the keys distinct. -/
theorem nodup_insertKey {k : κ} {v : β} {m : List (κ × β)} (hm : (m.map Prod.fst).Nodup)
    (hk : m.lookup k = none) : ((insertKey k v m).map Prod.fst).Nodup := by
  rw [((insertKey_perm hk).map Prod.fst).nodup_iff, List.map_cons, List.nodup_cons]
  exact ⟨lookup_eq_none_iff.mp hk, hm⟩

end

/-! ## Sorted by key -/

/-- The entries stand in the order of their keys, each key once. -/
def SortedKeys [LT κ] (m : List (κ × β)) : Prop := m.Pairwise fun a b => a.1 < b.1

section
variable [LT κ]

theorem lookup_eq_none_of_lt [Std.Irrefl (α := κ) (· < ·)] {k : κ} {m : List (κ × β)}
  (h : ∀ e ∈ m, k < e.1) :
    m.lookup k = none := by
  rw [lookup_eq_none_iff]
  intro hk
  obtain ⟨e, he, rfl⟩ := List.mem_map.mp hk
  exact Std.Irrefl.irrefl _ (h e he)

theorem sortedKeys_insertKey [DecidableLT κ] [Trans (· < · : κ → κ → Prop) (· < ·) (· < ·)]
    [Std.Trichotomous (α := κ) (· < ·)] {m : List (κ × β)} (h : SortedKeys m) (k : κ) (v : β) :
    SortedKeys (insertKey k v m) := by
  induction m with
  | nil => exact List.pairwise_singleton _ _
  | cons e m ih =>
    obtain ⟨k', v'⟩ := e
    obtain ⟨hhead, htail⟩ := List.pairwise_cons.mp h
    unfold insertKey
    split
    · next he =>
      subst he
      exact List.pairwise_cons.mpr ⟨hhead, htail⟩
    · next hne =>
      split
      · next hlt =>
        refine List.pairwise_cons.mpr ⟨fun e he => ?_, h⟩
        rcases List.mem_cons.mp he with rfl | he
        · exact hlt
        · exact Trans.trans hlt (hhead e he)
      · next hnot =>
        have hlt : k' < k := by
          by_contra hback
          exact hne (Std.Trichotomous.trichotomous _ _ hnot hback)
        refine List.pairwise_cons.mpr ⟨fun e he => ?_, ih htail⟩
        rcases mem_insertKey he with rfl | he
        · exact hlt
        · exact hhead e he

end

/-! ## Changes in place -/

/-- Apply `f` to the value of `k`. -/
def modifyKey (k : κ) (f : β → β) (m : List (κ × β)) : List (κ × β) :=
  m.map fun e => if e.1 = k then (e.1, f e.2) else e

section
variable {k k₂ : κ} {f : β → β} {m : List (κ × β)}

@[simp] theorem modifyKey_nil : modifyKey k f [] = [] := rfl

theorem modifyKey_cons (e : κ × β) (m : List (κ × β)) :
    modifyKey k f (e :: m) = (if e.1 = k then (e.1, f e.2) else e) :: modifyKey k f m := rfl

@[simp] theorem modifyKey_keys : (modifyKey k f m).map Prod.fst = m.map Prod.fst := by
  rw [modifyKey, List.map_map]
  refine List.map_congr_left fun e _ => ?_
  show (if e.1 = k then (e.1, f e.2) else e).1 = e.1
  split <;> rfl

@[simp] theorem modifyKey_length : (modifyKey k f m).length = m.length := List.length_map _

theorem lookup_modifyKey : (modifyKey k f m).lookup k₂ = if k₂ = k then (m.lookup k).map f
    else m.lookup k₂ := by
  induction m with
  | nil => simp
  | cons e m ih =>
    obtain ⟨k', v'⟩ := e
    rw [modifyKey_cons]
    by_cases hk : k' = k
    · subst hk
      by_cases h₂ : k₂ = k'
      · simp [h₂]
      · rw [if_pos rfl, List.lookup_cons, beq_false_of_ne h₂, ih, if_neg h₂, if_neg h₂,
          List.lookup_cons, beq_false_of_ne h₂]
    · rw [if_neg hk]
      by_cases h₂ : k₂ = k'
      · simp [h₂, hk]
      · have hback : ((k', v') :: m).lookup k = m.lookup k := by
          rw [List.lookup_cons, beq_false_of_ne (Ne.symm hk)]
        rw [hback, List.lookup_cons, beq_false_of_ne h₂, ih, List.lookup_cons, beq_false_of_ne h₂]

theorem lookup_modifyKey_self {v : β} (h : m.lookup k = some v) :
    (modifyKey k f m).lookup k = some (f v) := by
  rw [lookup_modifyKey, if_pos rfl, h, Option.map_some]

theorem lookup_modifyKey_of_ne (h : k₂ ≠ k) : (modifyKey k f m).lookup k₂ = m.lookup k₂ := by
  rw [lookup_modifyKey, if_neg h]

theorem mem_of_lookup {v : β} (h : m.lookup k = some v) : (k, v) ∈ m := by
  induction m with
  | nil => cases h
  | cons e m ih =>
    obtain ⟨k', v'⟩ := e
    rw [List.lookup_cons] at h
    split at h
    · next he =>
      cases h
      rw [eq_of_beq he]
      exact List.mem_cons_self
    · exact List.mem_cons_of_mem _ (ih h)

end

end Lib
