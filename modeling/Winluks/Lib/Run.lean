import Mathlib.Algebra.Order.Ring.Nat
import Mathlib.Tactic.Common

/-!
# Outcomes and stateful runs

A call ends in one of four ways: with a value, with an error, by unwinding
(`panic`), or not at all, because the machine stopped inside it (`halt`).
`Outcome` is the monad of these; `Run σ` adds a state that survives every
ending.  The `bind` equations below read a sequence of steps backwards (from a
successful end to the successful end of each part), and `Run.Keeps` carries a
reflexive and transitive relation through a whole program.
-/

namespace Lib

/-- How a call ends. -/
inductive Outcome (ε α : Type) where
  | ok (a : α)
  | err (e : ε)
  | panic
  | halt
deriving DecidableEq, Repr

namespace Outcome

variable {ε ε' α β : Type}

protected def bind (x : Outcome ε α) (f : α → Outcome ε β) : Outcome ε β :=
  match x with
  | .ok a => f a
  | .err e => .err e
  | .panic => .panic
  | .halt => .halt

instance : Monad (Outcome ε) where
  pure := .ok
  bind := Outcome.bind

/-- A missing value is the error `e`. -/
def ofOption (e : ε) : Option α → Outcome ε α
  | some a => .ok a
  | none => .err e

/-- End with the error `e` when `p` holds. -/
def failIf (p : Prop) [Decidable p] (e : ε) : Outcome ε Unit :=
  if p then .err e else .ok ()

/-- Replace the error. -/
def mapErr (f : ε → ε') : Outcome ε α → Outcome ε' α
  | .ok a => .ok a
  | .err e => .err (f e)
  | .panic => .panic
  | .halt => .halt

/-- The value of a call that succeeded. -/
def toOption : Outcome ε α → Option α
  | .ok a => some a
  | _ => none

/-- The call came back with a value or an error. -/
def Returns : Outcome ε α → Prop
  | .ok _ => True
  | .err _ => True
  | _ => False

instance : DecidablePred (Returns : Outcome ε α → Prop) := fun x => by
  cases x <;> unfold Returns <;> infer_instance

@[simp] theorem pure_eq (a : α) : (pure a : Outcome ε α) = .ok a := rfl
@[simp] theorem ok_bind (a : α) (f : α → Outcome ε β) : (Outcome.ok a >>= f) = f a := rfl
@[simp] theorem err_bind (e : ε) (f : α → Outcome ε β) : (Outcome.err e >>= f) = .err e := rfl
@[simp] theorem panic_bind (f : α → Outcome ε β) : (Outcome.panic >>= f) = .panic := rfl
@[simp] theorem halt_bind (f : α → Outcome ε β) : (Outcome.halt >>= f) = .halt := rfl

theorem bind_assoc {γ : Type} (x : Outcome ε α) (f : α → Outcome ε β) (g : β → Outcome ε γ) :
    ((x >>= f) >>= g) = (x >>= fun a => f a >>= g) := by
  cases x <;> rfl

theorem bind_eq_ok {x : Outcome ε α} {f : α → Outcome ε β} {b : β} :
    (x >>= f) = .ok b ↔ ∃ a, x = .ok a ∧ f a = .ok b := by
  cases x <;> simp

theorem bind_eq_err {x : Outcome ε α} {f : α → Outcome ε β} {e : ε} :
    (x >>= f) = .err e ↔ x = .err e ∨ ∃ a, x = .ok a ∧ f a = .err e := by
  cases x <;> simp

/-- A sequence comes back when each of its steps does. -/
theorem returns_bind {x : Outcome ε α} {f : α → Outcome ε β} :
    (x >>= f).Returns ↔ x.Returns ∧ ∀ a, x = .ok a → (f a).Returns := by
  cases x <;> simp [Returns]

@[simp] theorem returns_ok (a : α) : (Outcome.ok a : Outcome ε α).Returns := trivial
@[simp] theorem returns_err (e : ε) : (Outcome.err e : Outcome ε α).Returns := trivial
@[simp] theorem not_returns_panic : ¬ (Outcome.panic : Outcome ε α).Returns := id
@[simp] theorem not_returns_halt : ¬ (Outcome.halt : Outcome ε α).Returns := id

@[simp] theorem ofOption_some (e : ε) (a : α) : ofOption e (some a) = .ok a := rfl
@[simp] theorem ofOption_none (e : ε) : ofOption e (none : Option α) = .err e := rfl

@[simp] theorem toOption_ok (a : α) : (Outcome.ok a : Outcome ε α).toOption = some a := rfl

theorem toOption_eq_some {x : Outcome ε α} {a : α} : x.toOption = some a ↔ x = .ok a := by
  cases x <;> simp [toOption]

theorem ofOption_eq_ok {e : ε} {x : Option α} {a : α} : ofOption e x = .ok a ↔ x = some a := by
  cases x <;> simp

@[simp] theorem returns_ofOption (e : ε) (x : Option α) : (ofOption e x).Returns := by
  cases x <;> simp

theorem failIf_eq_ok {p : Prop} [Decidable p] {e : ε} {u : Unit} : failIf p e = .ok u ↔ ¬ p := by
  unfold failIf; split <;> simp_all

theorem failIf_eq_err {p : Prop} [Decidable p] {e e' : ε} : failIf p e = .err e' ↔ p ∧ e = e' := by
  unfold failIf; split <;> simp_all

@[simp] theorem failIf_pos {p : Prop} [Decidable p] (h : p) (e : ε) :
    failIf p e = .err e := if_pos h
@[simp] theorem failIf_neg {p : Prop} [Decidable p] (h : ¬ p) (e : ε) :
    failIf p e = .ok () := if_neg h

@[simp] theorem returns_failIf (p : Prop) [Decidable p] (e : ε) : (failIf p e).Returns := by
  unfold failIf; split <;> simp

/-- A check that succeeds has nothing to hand on. -/
theorem unit_bind_eq_ok {x : Outcome ε Unit} {f : Unit → Outcome ε β} {b : β} :
    (x >>= f) = .ok b ↔ x = .ok () ∧ f () = .ok b := by
  rw [bind_eq_ok]
  exact ⟨fun ⟨_, h⟩ => h, fun h => ⟨(), h⟩⟩

theorem ofOption_bind_eq_ok {e : ε} {x : Option α} {f : α → Outcome ε β} {b : β} :
    (ofOption e x >>= f) = .ok b ↔ ∃ a, x = some a ∧ f a = .ok b := by
  simp only [bind_eq_ok, ofOption_eq_ok]

theorem failIf_bind_eq_ok {p : Prop} [Decidable p] {e : ε} {f : Unit → Outcome ε β} {b : β} :
    (failIf p e >>= f) = .ok b ↔ ¬ p ∧ f () = .ok b := by
  by_cases hp : p <;> simp [hp]

theorem failIf_bind_eq_err {p : Prop} [Decidable p] {e e' : ε} {f : Unit → Outcome ε β} :
    (failIf p e >>= f) = .err e' ↔ p ∧ e = e' ∨ ¬ p ∧ f () = .err e' := by
  by_cases hp : p <;> simp [hp]

/-- Two tests with one error. -/
theorem failIf_or {p q : Prop} [Decidable p] [Decidable q] (e : ε) :
    failIf (p ∨ q) e = (failIf p e >>= fun _ => failIf q e) := by
  by_cases hp : p <;> by_cases hq : q <;> simp [hp, hq]

/-- What follows a test is only reached when the test failed. -/
theorem failIf_bind_congr {p : Prop} [Decidable p] {e : ε} {f g : Unit → Outcome ε β}
    (h : ¬ p → f () = g ()) :
    (failIf p e >>= f) = (failIf p e >>= g) := by
  by_cases hp : p
  · simp [hp]
  · simp [hp, h hp]

/-! ### A list of checks -/

theorem forM_eq_ok {f : α → Outcome ε Unit} {xs : List α} :
    forM xs f = .ok () ↔ ∀ x ∈ xs, f x = .ok () := by
  induction xs with
  | nil => simp [pure]
  | cons x xs ih => rw [List.forM_cons, unit_bind_eq_ok, ih, List.forall_mem_cons]

/-- The first check that fails decides the error. -/
theorem forM_eq_err [Preorder α] {f : α → Outcome ε Unit} {xs : List α}
    (hsorted : xs.Pairwise (· < ·)) {e : ε} :
    forM xs f = .err e ↔ ∃ x ∈ xs, (∀ y ∈ xs, y < x → f y = .ok ()) ∧ f x = .err e := by
  induction xs with
  | nil => simp [pure]
  | cons a xs ih =>
    obtain ⟨hfirst, hsorted⟩ := List.pairwise_cons.mp hsorted
    have hstep : forM (a :: xs) f = .err e ↔ f a = .err e ∨ f a = .ok () ∧ forM xs f = .err e := by
      rw [List.forM_cons]
      cases f a <;> simp
    rw [hstep, ih hsorted]
    constructor
    · rintro (he | ⟨hok, x, hx, hall, he⟩)
      · refine ⟨a, List.mem_cons_self, fun y hy hlt => ?_, he⟩
        rcases List.mem_cons.mp hy with rfl | hy
        · exact absurd hlt (lt_irrefl _)
        · exact absurd hlt (lt_asymm (hfirst y hy))
      · exact ⟨x, List.mem_cons_of_mem _ hx, List.forall_mem_cons.mpr ⟨fun _ => hok, hall⟩, he⟩
    · rintro ⟨x, hx, hall, he⟩
      rcases List.mem_cons.mp hx with rfl | hx
      · exact Or.inl he
      · exact Or.inr ⟨hall a List.mem_cons_self (hfirst x hx), x, hx,
          fun y hy => hall y (List.mem_cons_of_mem _ hy), he⟩

/-- The call came back, and an error is one of those in `P`. -/
def ErrsIn (P : ε → Prop) : Outcome ε α → Prop
  | .ok _ => True
  | .err e => P e
  | _ => False

section
variable {P : ε → Prop}

theorem errs_bind {x : Outcome ε α} {f : α → Outcome ε β} :
    (x >>= f).ErrsIn P ↔ x.ErrsIn P ∧ ∀ a, x = .ok a → (f a).ErrsIn P := by
  cases x <;> simp [ErrsIn]

@[simp] theorem errs_ok (a : α) : (Outcome.ok a : Outcome ε α).ErrsIn P := trivial

@[simp] theorem errs_err {e : ε} : (Outcome.err e : Outcome ε α).ErrsIn P ↔ P e := Iff.rfl

@[simp] theorem errs_ofOption {e : ε} (h : P e) (x : Option α) : (ofOption e x).ErrsIn P := by
  cases x <;> simp [h]

@[simp] theorem errs_failIf {e : ε} (h : P e) (p : Prop) [Decidable p] : (failIf p e).ErrsIn P := by
  unfold failIf; split <;> simp [h]

theorem ErrsIn.mono {Q : ε → Prop} {x : Outcome ε α} (h : x.ErrsIn P) (hPQ : ∀ e, P e → Q e) :
    x.ErrsIn Q := by
  cases x with
  | err e => exact hPQ e h
  | ok _ => trivial
  | panic => exact h
  | halt => exact h

/-- A check that has one error is the test of the condition under which it passes. -/
theorem eq_failIf {p : Prop} [Decidable p] {e : ε} {x : Outcome ε Unit} (hok : x = .ok () ↔ p)
    (herr : x.ErrsIn (· = e)) : x = failIf (¬ p) e := by
  cases x with
  | ok u => exact (failIf_neg (not_not.mpr (hok.mp rfl)) e).symm
  | err e' =>
    have hp : ¬ p := fun hp => nomatch hok.mpr hp
    rw [failIf_pos hp, show e' = e from herr]
  | panic => exact herr.elim
  | halt => exact herr.elim

theorem failIf_congr {p q : Prop} [Decidable p] [Decidable q] (h : p ↔ q) (e : ε) :
    failIf p e = failIf q e := by
  by_cases hq : q
  · rw [failIf_pos hq, failIf_pos (h.mpr hq)]
  · rw [failIf_neg hq, failIf_neg (fun hp => hq (h.mp hp))]

theorem ErrsIn.returns {x : Outcome ε α} (h : x.ErrsIn P) : x.Returns := by
  cases x <;> trivial

theorem ErrsIn.err {x : Outcome ε α} (h : x.ErrsIn P) {e : ε} (he : x = .err e) : P e := by
  rw [he] at h
  exact h

end

theorem mapErr_eq_ok {f : ε → ε'} {x : Outcome ε α} {a : α} : x.mapErr f = .ok a ↔ x = .ok a := by
  cases x <;> simp [mapErr]

end Outcome

/-! ## Fixed-width arithmetic

`checkedAdd w` and its like return `none` out of range; the `trap` forms unwind. -/

/-- `a + b` if it fits in `w` bits. -/
def checkedAdd (w a b : Nat) : Option Nat := if a + b < 2 ^ w then some (a + b) else none

/-- `a * b` if it fits in `w` bits. -/
def checkedMul (w a b : Nat) : Option Nat := if a * b < 2 ^ w then some (a * b) else none

/-- `a + b`, unwinding on overflow. -/
def trapAdd {ε : Type} (w a b : Nat) : Outcome ε Nat :=
  if a + b < 2 ^ w then .ok (a + b) else .panic

/-- `a * b`, unwinding on overflow. -/
def trapMul {ε : Type} (w a b : Nat) : Outcome ε Nat :=
  if a * b < 2 ^ w then .ok (a * b) else .panic

/-- `a - b`, unwinding on underflow. -/
def trapSub {ε : Type} (a b : Nat) : Outcome ε Nat := if b ≤ a then .ok (a - b) else .panic

section
variable {ε : Type} {w a b c : Nat}

theorem checkedAdd_eq_some : checkedAdd w a b = some c ↔ a + b < 2 ^ w ∧ a + b = c := by
  by_cases h : a + b < 2 ^ w <;> simp [checkedAdd, h]

theorem checkedMul_eq_some : checkedMul w a b = some c ↔ a * b < 2 ^ w ∧ a * b = c := by
  by_cases h : a * b < 2 ^ w <;> simp [checkedMul, h]

theorem trapAdd_ok (h : a + b < 2 ^ w) : (trapAdd w a b : Outcome ε Nat) = .ok (a + b) := if_pos h

theorem trapMul_ok (h : a * b < 2 ^ w) : (trapMul w a b : Outcome ε Nat) = .ok (a * b) := if_pos h

theorem trapSub_ok (h : b ≤ a) : (trapSub a b : Outcome ε Nat) = .ok (a - b) := if_pos h

end

/-! ## Stateful runs -/

/-- A program over the state `σ`: its outcome, and the state it leaves behind. -/
def Run (σ ε α : Type) : Type := σ → Outcome ε α × σ

namespace Run

variable {σ τ ε ε' α β : Type}

protected def bind (m : Run σ ε α) (f : α → Run σ ε β) : Run σ ε β := fun s =>
  match m s with
  | (.ok a, s') => f a s'
  | (.err e, s') => (.err e, s')
  | (.panic, s') => (.panic, s')
  | (.halt, s') => (.halt, s')

instance : Monad (Run σ ε) where
  pure a := fun s => (.ok a, s)
  bind := Run.bind

/-- A stateless computation. -/
def lift (x : Outcome ε α) : Run σ ε α := fun s => (x, s)

def throw (e : ε) : Run σ ε α := fun s => (.err e, s)

/-- The current state, seen through `f`. -/
def gets (f : σ → α) : Run σ ε α := fun s => (.ok (f s), s)

def modify (f : σ → σ) : Run σ ε Unit := fun s => (.ok (), f s)

/-- Observe an error instead of ending with it. -/
def attempt (m : Run σ ε α) : Run σ ε' (Except ε α) := fun s =>
  match m s with
  | (.ok a, s') => (.ok (.ok a), s')
  | (.err e, s') => (.ok (.error e), s')
  | (.panic, s') => (.panic, s')
  | (.halt, s') => (.halt, s')

/-- `m` without its value. -/
def void (m : Run σ ε α) : Run σ ε Unit := do
  let _ ← m
  pure ()

def mapErr (f : ε → ε') (m : Run σ ε α) : Run σ ε' α := fun s => ((m s).1.mapErr f, (m s).2)

/-- Run `m` on the part of the state that `get` and `set` focus on. -/
def zoom (get : σ → τ) (set : σ → τ → σ) (m : Run τ ε α) : Run σ ε α := fun s =>
  ((m (get s)).1, set s (m (get s)).2)

@[simp] theorem pure_run (a : α) (s : σ) : (pure a : Run σ ε α) s = (.ok a, s) := rfl
@[simp] theorem lift_run (x : Outcome ε α) (s : σ) : (lift x : Run σ ε α) s = (x, s) := rfl
@[simp] theorem throw_run (e : ε) (s : σ) : (throw e : Run σ ε α) s = (.err e, s) := rfl
@[simp] theorem gets_run (f : σ → α) (s : σ) : (gets f : Run σ ε α) s = (.ok (f s), s) := rfl
@[simp] theorem modify_run (f : σ → σ) (s : σ) : (modify f : Run σ ε Unit) s = (.ok (), f s) := rfl

theorem bind_run (m : Run σ ε α) (f : α → Run σ ε β) (s : σ) :
    (m >>= f) s = match m s with
      | (.ok a, s') => f a s'
      | (.err e, s') => (.err e, s')
      | (.panic, s') => (.panic, s')
      | (.halt, s') => (.halt, s') := rfl

theorem bind_run_of {m : Run σ ε α} {f : α → Run σ ε β} {s s' : σ} {a : α}
    (h : m s = (.ok a, s')) : (m >>= f) s = f a s' := by
  rw [bind_run, h]

theorem attempt_ok {m : Run σ ε α} {s s' : σ} {a : α} (h : m s = (.ok a, s')) :
    (m.attempt : Run σ ε' _) s = (.ok (.ok a), s') := by
  rw [attempt, h]

theorem attempt_err {m : Run σ ε α} {s s' : σ} {e : ε} (h : m s = (.err e, s')) :
    (m.attempt : Run σ ε' _) s = (.ok (.error e), s') := by
  rw [attempt, h]

@[simp] theorem lift_bind (x : Outcome ε α) (f : α → Run σ ε β) (s : σ) :
    (lift x >>= f) s = match x with
      | .ok a => f a s
      | .err e => (.err e, s)
      | .panic => (.panic, s)
      | .halt => (.halt, s) := by
  cases x <;> rfl

@[simp] theorem gets_bind (g : σ → α) (f : α → Run σ ε β) (s : σ) :
    (gets g >>= f) s = f (g s) s := rfl
@[simp] theorem modify_bind (g : σ → σ) (f : Unit → Run σ ε β) (s : σ) :
    (modify g >>= f) s = f () (g s) := rfl

theorem bind_assoc {γ : Type} (m : Run σ ε α) (f : α → Run σ ε β) (g : β → Run σ ε γ) :
    ((m >>= f) >>= g) = (m >>= fun a => f a >>= g) := by
  funext s
  simp only [bind_run]
  rcases m s with ⟨_ | _ | _ | _, s'⟩ <;> rfl

theorem void_bind (m : Run σ ε α) (f : α → Run σ ε β) :
    void (m >>= f) = (m >>= fun a => void (f a)) :=
  bind_assoc m f _

theorem lift_of_bind {γ : Type} (x : Outcome ε α) (f : α → Outcome ε β) (g : β → Run σ ε γ) :
    (lift (x >>= f) >>= g) = (lift x >>= fun a => lift (f a) >>= g) := by
  funext s
  cases x <;> rfl

theorem failIf_bind (p : Prop) [Decidable p] (e : ε) (f : Unit → Run σ ε β) (s : σ) :
    (lift (.failIf p e) >>= f) s = if p then (.err e, s) else f () s := by
  by_cases h : p <;> simp [h]

/-- A successful sequence is a successful first step and a successful rest. -/
theorem bind_run_eq_ok {m : Run σ ε α} {f : α → Run σ ε β} {s s'' : σ} {b : β} :
    (m >>= f) s = (.ok b, s'') ↔ ∃ a s', m s = (.ok a, s') ∧ f a s' = (.ok b, s'') := by
  rw [bind_run]
  rcases m s with ⟨_ | _ | _ | _, s'⟩ <;> simp

/-- A sequence comes back when each of its steps does. -/
theorem returns_bind_run {m : Run σ ε α} {f : α → Run σ ε β} {s : σ} (hm : (m s).1.Returns)
    (hf : ∀ a s', m s = (.ok a, s') → (f a s').1.Returns) : ((m >>= f) s).1.Returns := by
  rw [bind_run]
  rcases h : m s with ⟨a | e | _ | _, s'⟩ <;> rw [h] at hm
  · exact hf a s' h
  all_goals exact hm

/-- A sequence goes on after a success and stops at any other end. -/
theorem bind_cases (m : Run σ ε α) (f : α → Run σ ε β) (s : σ) :
    (∃ a s', m s = (.ok a, s') ∧ (m >>= f) s = f a s') ∨
    (∃ e s', m s = (.err e, s') ∧ (m >>= f) s = (.err e, s')) ∨
    (∃ s', m s = (.panic, s') ∧ (m >>= f) s = (.panic, s')) ∨
    (∃ s', m s = (.halt, s') ∧ (m >>= f) s = (.halt, s')) := by
  rw [bind_run]
  rcases m s with ⟨a | e | _ | _, s'⟩
  · exact Or.inl ⟨a, s', rfl, rfl⟩
  · exact Or.inr (Or.inl ⟨e, s', rfl, rfl⟩)
  · exact Or.inr (Or.inr (Or.inl ⟨s', rfl, rfl⟩))
  · exact Or.inr (Or.inr (Or.inr ⟨s', rfl, rfl⟩))

theorem eq_of_fst {m : Run σ ε α} {s s' : σ} {o : Outcome ε α} (ho : (m s).1 = o)
    (hs : s' = (m s).2) : m s = (o, s') := by rw [← ho, hs]

/-- Every step of `m` moves the state along `R`. -/
def Keeps (R : σ → σ → Prop) (m : Run σ ε α) : Prop := ∀ s, R s (m s).2

theorem Keeps.run {R : σ → σ → Prop} {m : Run σ ε α} (h : Keeps R m) {s s' : σ} {o : Outcome ε α}
    (hm : m s = (o, s')) : R s s' := by
  have := h s
  rwa [hm] at this

/-- What follows may rely on the answer of the first part. -/
theorem keeps_bind_ok {R : σ → σ → Prop} (trans : ∀ {a b c}, R a b → R b c → R a c)
    {m : Run σ ε α} {f : α → Run σ ε β} (hm : Keeps R m)
    (hf : ∀ s a s', m s = (.ok a, s') → R s' (f a s').2) : Keeps R (m >>= f) := by
  intro s
  have h := hm s
  rw [bind_run]
  rcases hms : m s with ⟨_ | _ | _ | _, s'⟩ <;> rw [hms] at h
  · exact trans h (hf s _ s' hms)
  all_goals exact h

theorem keeps_bind {R : σ → σ → Prop} (trans : ∀ {a b c}, R a b → R b c → R a c)
    {m : Run σ ε α} {f : α → Run σ ε β} (hm : Keeps R m) (hf : ∀ a, Keeps R (f a)) :
    Keeps R (m >>= f) := keeps_bind_ok (R := R) trans hm fun _ a s' _ => hf a s'

theorem keeps_lift {R : σ → σ → Prop} (refl : ∀ s, R s s) (x : Outcome ε α) :
    Keeps R (lift x : Run σ ε α) := fun s => refl s

theorem keeps_attempt {R : σ → σ → Prop} {m : Run σ ε α} (h : Keeps R m) :
    Keeps R (m.attempt : Run σ ε' _) := by
  intro s
  have := h s
  unfold attempt
  rcases hm : m s with ⟨_ | _ | _ | _, s'⟩ <;> rw [hm] at this <;> exact this

/-- A relation on the focused part is kept when the part is worked on. -/
theorem keeps_zoom {R : τ → τ → Prop} {get : σ → τ} {set : σ → τ → σ}
    (hset : ∀ s t, get (set s t) = t) {m : Run τ ε α} (h : Keeps R m) :
    Keeps (fun s s' => R (get s) (get s')) (zoom get set m) := by
  intro s
  show R (get s) (get (set s (m (get s)).2))
  rw [hset]
  exact h (get s)

theorem keeps_mapErr {R : σ → σ → Prop} {m : Run σ ε α} (h : Keeps R m) (f : ε → ε') :
    Keeps R (m.mapErr f) := fun s => h s

/-- The program does not panic. -/
def Calm (m : Run σ ε α) : Prop := ∀ s, (m s).1 ≠ .panic

theorem calm_bind {m : Run σ ε α} {f : α → Run σ ε β} (hm : Calm m) (hf : ∀ a, Calm (f a)) :
    Calm (m >>= f) := by
  intro s
  have h := hm s
  rw [bind_run]
  rcases hms : m s with ⟨a | e | _ | _, s'⟩ <;> rw [hms] at h
  · exact hf a s'
  · nofun
  · exact absurd rfl h
  · nofun

theorem calm_lift {x : Outcome ε α} (h : x ≠ .panic) : Calm (lift x : Run σ ε α) := fun _ => h

theorem calm_pure (a : α) : Calm (pure a : Run σ ε α) := calm_lift nofun

/-- A program that has no error and does not panic only fails to come back by halting. -/
theorem Calm.comes_back {m : Run σ Empty α} (h : Calm m) {s : σ} (hs : (m s).1 ≠ .halt) :
    ∃ a s', m s = (.ok a, s') := by
  have hcalm := h s
  rcases hm : m s with ⟨a | e | _ | _, s'⟩ <;> rw [hm] at hcalm hs
  · exact ⟨a, s', rfl⟩
  · exact e.elim
  · exact absurd rfl hcalm
  · exact absurd rfl hs

end Run

end Lib
