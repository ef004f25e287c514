import Mathlib.Logic.Function.Basic
import Mathlib.Logic.Relation

/-!
# Parties that share a state

Each party is at a place of its own, and all of them share one state.  A step
moves one party and may change what is shared (`Parties.move`); `Reaches` is any
number of steps, of the parties in any order.

`all_move` is the proof rule for assertions that every party makes about its own
place and the shared state: the party that moves establishes its assertion, and
the others are not disturbed.  `Excludes`, that only the owner of a lock is at a
place inside it, is one of them.
-/

namespace Lib

structure Parties (π L G : Type) where
  place : π → L
  shared : G

namespace Parties

variable {π L G : Type}

/-- Every party's assertion holds. -/
def All (A : π → L → G → Prop) (s : Parties π L G) : Prop := ∀ p, A p (s.place p) s.shared

section
variable [DecidableEq π]

/-- Party `p` goes to `l` and leaves `g` behind. -/
def move (s : Parties π L G) (p : π) (l : L) (g : G) : Parties π L G :=
  ⟨Function.update s.place p l, g⟩

variable {s : Parties π L G} {p q : π} {l : L} {g : G}

@[simp] theorem move_shared : (s.move p l g).shared = g := rfl

@[simp] theorem move_place : (s.move p l g).place p = l := Function.update_self ..

theorem move_place_of_ne (h : q ≠ p) : (s.move p l g).place q = s.place q :=
  Function.update_of_ne h ..

/-- **The rule for one step.**  `B` follows for the party that moves, and from `A` for the
others. -/
theorem all_move {A B : π → L → G → Prop} (h : s.All A) (hp : B p l g)
    (hq : ∀ q, q ≠ p → A q (s.place q) s.shared → B q (s.place q) g) : (s.move p l g).All B := by
  intro q
  by_cases hqp : q = p
  · subst hqp
    rw [move_place]
    exact hp
  · rw [move_place_of_ne hqp]
    exact hq q hqp (h q)

end

/-- Only the owner is inside. -/
def Excludes (inside : L → Prop) (owner : G → Option π) (p : π) (l : L) (g : G) : Prop :=
  inside l → owner g = some p

section
variable {inside : L → Prop} {owner : G → Option π} {s : Parties π L G} {p q : π}

theorem eq_of_inside (h : s.All (Excludes inside owner)) (hp : inside (s.place p))
    (hq : inside (s.place q)) :
    p = q :=
  Option.some.inj ((h p hp).symm.trans (h q hq))

theorem outside_of_free (h : s.All (Excludes inside owner)) (hfree : owner s.shared = none) :
    ¬ inside (s.place p) :=
  fun hp => by cases hfree.symm.trans (h p hp)

variable [DecidableEq π] {l : L} {g : G}

/-- A step of the owner that keeps the lock, or of anyone that does not touch it. -/
theorem excludes_keep (h : s.All (Excludes inside owner)) (howner : owner g = owner s.shared)
    (hin : inside l → inside (s.place p)) : (s.move p l g).All (Excludes inside owner) :=
  all_move h (fun hl => by rw [howner]; exact h p (hin hl)) fun q _ hq hin => by
    rw [howner]; exact hq hin

/-- Nobody is inside a free lock, so it can be taken. -/
theorem excludes_take (h : s.All (Excludes inside owner)) (hfree : owner s.shared = none)
    (howner : owner g = some p) : (s.move p l g).All (Excludes inside owner) :=
  all_move h (fun _ => howner) fun q _ hq hin => by cases hfree.symm.trans (hq hin)

/-- The owner leaves. -/
theorem excludes_leave (h : s.All (Excludes inside owner)) (hp : inside (s.place p))
    (hl : ¬ inside l) :
    (s.move p l g).All (Excludes inside owner) :=
  all_move h (fun hin => absurd hin hl) fun _ hqp hq hin =>
    absurd (Option.some.inj ((hq hin).symm.trans (h p hp))) hqp

end

end Parties

/-! ## Runs -/

section
variable {π S : Type} {Step : π → S → S → Prop} {s s' s'' : S}

/-- Any number of steps, of any parties. -/
def Reaches (Step : π → S → S → Prop) : S → S → Prop :=
  Relation.ReflTransGen fun s s' => ∃ p, Step p s s'

namespace Reaches

theorem refl (s : S) : Reaches Step s s := Relation.ReflTransGen.refl

theorem step {p : π} (h : Reaches Step s s') (hp : Step p s' s'') : Reaches Step s s'' :=
  Relation.ReflTransGen.tail h ⟨p, hp⟩

theorem trans (h : Reaches Step s s') (h' : Reaches Step s' s'') : Reaches Step s s'' :=
  Relation.ReflTransGen.trans h h'

/-- **Invariants.**  What every step keeps holds after any number of them. -/
theorem invariant {I : S → Prop} (h : Reaches Step s s') (hs : I s)
    (hstep : ∀ p m m', Reaches Step s m → I m → Step p m m' → I m') : I s' := by
  induction h with
  | refl => exact hs
  | tail hm hp ih =>
    obtain ⟨p, hp⟩ := hp
    exact hstep p _ _ hm ih hp

/-- Nothing follows a state that has no step. -/
theorem eq_of_final (h : Reaches Step s s') (hfinal : ∀ p m, ¬ Step p s m) : s' = s :=
  h.invariant (I := fun m => m = s) rfl fun p m m' _ hm hp => by
    subst hm
    exact absurd hp (hfinal p m')

end Reaches

end

end Lib
