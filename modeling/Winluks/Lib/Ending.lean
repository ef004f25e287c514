import Winluks.Lib.Run

/-!
# Programs that come to an end

Total correctness of a `Run`.  `Finishes stuck P m Q` says of a start in `P`: a
value comes with a state in `Q`, and the program only fails to come back in a
state that is `stuck`.  The rules follow the constructors of programs; a loop
with fuel finishes where the fuel covers a variant, which is an induction on the
fuel.

`Extends m m'` is for the fuel itself: `m'` does what `m` does wherever `m` comes
back.
-/

namespace Lib

namespace Outcome

variable {ε α : Type}

theorem Returns.ne_halt {x : Outcome ε α} (h : x.Returns) : x ≠ .halt := by
  rintro rfl
  exact h

theorem failIf_ne_halt (p : Prop) [Decidable p] (e : ε) : failIf p e ≠ .halt :=
  (returns_failIf p e).ne_halt

theorem ofOption_ne_halt (e : ε) (x : Option α) : ofOption e x ≠ .halt :=
  (returns_ofOption e x).ne_halt

theorem trapMul_ne_halt (w a b : Nat) : (trapMul w a b : Outcome ε Nat) ≠ .halt := by
  unfold trapMul
  split <;> nofun

end Outcome

namespace Run

variable {σ τ ε ε' α β : Type}

/-- From `P` the program comes back, with a value to `Q`, unless it is stuck. -/
def Finishes (stuck : σ → Prop) (P : σ → Prop) (m : Run σ ε α) (Q : α → σ → Prop) : Prop :=
  ∀ s, P s → (∀ a s', m s = (.ok a, s') → Q a s') ∧ ((m s).1 = .halt → stuck (m s).2)

/-- It comes back from anywhere. -/
abbrev Ended (stuck : σ → Prop) (m : Run σ ε α) : Prop :=
  Finishes stuck (fun _ => True) m fun _ _ => True

variable {stuck : σ → Prop} {P P' : σ → Prop} {m : Run σ ε α} {Q Q' : α → σ → Prop}

theorem Finishes.mono (h : Finishes stuck P m Q) (hP : ∀ s, P' s → P s)
    (hQ : ∀ a s, Q a s → Q' a s) :
    Finishes stuck P' m Q' := fun s hs =>
      ⟨fun a s' hm => hQ a s' ((h s (hP s hs)).1 a s' hm), (h s (hP s hs)).2⟩

theorem Finishes.pre (h : Finishes stuck P m Q) (hP : ∀ s, P' s → P s) : Finishes stuck P' m Q :=
  h.mono hP fun _ _ hQ => hQ

theorem Finishes.post (h : Finishes stuck P m Q) (hQ : ∀ a s, Q a s → Q' a s) :
    Finishes stuck P m Q' :=
  h.mono (fun _ hP => hP) hQ

/-- Where it does not come back it is stuck. -/
theorem Finishes.halt (h : Finishes stuck P m Q) {s s' : σ} (hs : P s) (hm : m s = (.halt, s')) :
    stuck s' := by
  have hstuck := (h s hs).2
  rw [hm] at hstuck
  exact hstuck rfl

theorem ended_of_halt (h : ∀ s, (m s).1 = .halt → stuck (m s).2) : Ended stuck m :=
  fun s _ => ⟨fun _ _ _ => trivial, h s⟩

/-- **Sequencing.** -/
theorem finishes_bind {f : α → Run σ ε β} {R : β → σ → Prop} (hm : Finishes stuck P m Q)
    (hf : ∀ a, Finishes stuck (Q a) (f a) R) : Finishes stuck P (m >>= f) R := by
  intro s hs
  rw [bind_run]
  rcases hms : m s with ⟨a | e | _ | _, s'⟩
  · exact hf a s' ((hm s hs).1 a s' hms)
  · exact ⟨nofun, nofun⟩
  · exact ⟨nofun, nofun⟩
  · exact ⟨nofun, fun _ => hm.halt hs hms⟩

theorem finishes_lift {x : Outcome ε α} (hx : x ≠ .halt) (hQ : ∀ a s, x = .ok a → P s → Q a s) :
    Finishes stuck P (.lift x) Q := fun s hs =>
    ⟨fun a s' h => by cases h; exact hQ a s rfl hs, fun h => absurd h hx⟩

theorem finishes_pure {a : α} (hQ : ∀ s, P s → Q a s) : Finishes stuck P (pure a : Run σ ε α) Q :=
  finishes_lift nofun fun _ s h hs => by cases h; exact hQ s hs

theorem finishes_throw (e : ε) : Finishes stuck P (.throw e : Run σ ε α) Q :=
  finishes_lift nofun nofun

theorem finishes_gets (f : σ → α) (hQ : ∀ s, P s → Q (f s) s) :
    Finishes stuck P (.gets f : Run σ ε α) Q :=
  fun s hs => ⟨fun a s' h => by cases h; exact hQ s hs, nofun⟩

/-- What is looked at is known. -/
theorem finishes_look (f : σ → α) :
    Finishes stuck P (.gets f : Run σ ε α) fun a s => P s ∧ a = f s :=
  finishes_gets f fun _ hs => ⟨hs, rfl⟩

theorem finishes_modify {f : σ → σ} {Q : Unit → σ → Prop} (hQ : ∀ s, P s → Q () (f s)) :
    Finishes stuck P (.modify f : Run σ ε Unit) Q :=
    fun s hs => ⟨fun a s' h => by cases h; exact hQ s hs, nofun⟩

theorem finishes_mapErr (h : Finishes stuck P m Q) (f : ε → ε') :
    Finishes stuck P (m.mapErr f) Q := by
  intro s hs
  unfold mapErr
  rcases hm : m s with ⟨a | e | _ | _, s'⟩
  · exact ⟨fun a' s'' heq => by cases heq; exact (h s hs).1 a s' hm, nofun⟩
  · exact ⟨nofun, nofun⟩
  · exact ⟨nofun, nofun⟩
  · exact ⟨nofun, fun _ => h.halt hs hm⟩

theorem ended_attempt (h : Finishes stuck P m Q) :
    Finishes stuck P (m.attempt : Run σ ε' _) fun _ _ => True := by
  intro s hs
  refine ⟨fun _ _ _ => trivial, ?_⟩
  unfold attempt
  rcases hm : m s with ⟨a | e | _ | _, s'⟩
  · nofun
  · nofun
  · nofun
  · exact fun _ => h.halt hs hm

/-- A part of the state is worked on, and the rest is left. -/
theorem finishes_zoom {get : τ → σ} {set : τ → σ → τ} (hset : ∀ t s, get (set t s) = s)
    {m : Run σ ε α} (h : Ended stuck m) {P : τ → Prop} {Q : α → τ → Prop}
    (hQ : ∀ a t s, P t → Q a (set t s)) :
    Finishes (fun t => stuck (get t)) P (.zoom get set m) Q := fun t ht =>
  ⟨fun a t' hm => (Prod.mk.inj hm).2 ▸ hQ a t _ ht, fun hm => by
    show stuck (get (set t _))
    rw [hset]
    exact (h (get t) trivial).2 hm⟩

theorem Finishes.weaken {stuck' : σ → Prop} (h : Finishes stuck P m Q)
    (hst : ∀ s, stuck s → stuck' s) :
    Finishes stuck' P m Q := fun s hs => ⟨(h s hs).1, fun hm => hst _ ((h s hs).2 hm)⟩

/-- What is known otherwise of a program that comes back. -/
theorem finishes_of_ended (h : Ended stuck m) (hQ : ∀ a s s', m s = (.ok a, s') → Q a s') :
    Finishes stuck P m Q :=
  fun s _ => ⟨fun a s' hm => hQ a s s' hm, (h s trivial).2⟩

/-! ### From anywhere -/

theorem ended_bind {m : Run σ ε α} {f : α → Run σ ε β} (hm : Ended stuck m)
    (hf : ∀ a, Ended stuck (f a)) :
    Ended stuck (m >>= f) := finishes_bind hm hf

theorem ended_lift {x : Outcome ε α} (hx : x ≠ .halt) : Ended stuck (.lift x : Run σ ε α) :=
  finishes_lift hx fun _ _ _ _ => trivial

theorem ended_pure (a : α) : Ended stuck (pure a : Run σ ε α) := finishes_pure fun _ _ => trivial

theorem ended_gets (f : σ → α) : Ended stuck (.gets f : Run σ ε α) :=
  finishes_gets f fun _ _ => trivial

theorem ended_modify (f : σ → σ) : Ended stuck (.modify f : Run σ ε Unit) :=
  finishes_modify fun _ _ => trivial

theorem ended_zoom {get : τ → σ} {set : τ → σ → τ} (hset : ∀ t s, get (set t s) = s) {m : Run σ ε α}
    (h : Ended stuck m) : Ended (fun t => stuck (get t)) (.zoom get set m : Run τ ε α) :=
  finishes_zoom hset h fun _ _ _ _ => trivial

/-! ## More fuel -/

/-- Wherever `m` comes back, `m'` does the same. -/
def Extends (m m' : Run σ ε α) : Prop := ∀ s, (m s).1 ≠ .halt → m' s = m s

theorem extends_refl (m : Run σ ε α) : Extends m m := fun _ _ => rfl

theorem extends_halt (m : Run σ ε α) : Extends (.lift .halt) m := fun _ h => absurd rfl h

theorem extends_bind {m m' : Run σ ε α} {f f' : α → Run σ ε β} (hm : Extends m m')
    (hf : ∀ a, Extends (f a) (f' a)) :
    Extends (m >>= f) (m' >>= f') := by
  intro s h
  rw [bind_run] at h ⊢
  rw [bind_run]
  rcases hms : m s with ⟨a | e | _ | _, s'⟩
  all_goals rw [hms] at h
  · rw [hm s (by rw [hms]; nofun), hms]
    exact hf a s' h
  · rw [hm s (by rw [hms]; nofun), hms]
  · rw [hm s (by rw [hms]; nofun), hms]
  · exact absurd rfl h

theorem extends_mapErr {m m' : Run σ ε α} (h : Extends m m') (f : ε → ε') :
    Extends (m.mapErr f) (m'.mapErr f) := by
  intro s hs
  have hm : (m s).1 ≠ .halt := fun hm => hs (by rw [mapErr, hm]; rfl)
  rw [mapErr, mapErr, h s hm]

end Run

end Lib
