import Winluks.Lib.Run

/-!
# Accounting for events

A program leaves a trace of events, and each event is posted to books: it moves
them, or it is a misuse and they are lost.  `Accounts P m Q` is a triple about
such a program.  From books that satisfy `P`, whatever the end of `m`, the events
it adds can all be posted; and when it returns, the books satisfy `Q`.
-/

namespace Lib

variable {σ ε κ Λ α β : Type} {step : Λ → κ → Option Λ}

/-- Post events to the books; `none` is a misuse. -/
def post (step : Λ → κ → Option Λ) (L : Λ) (events : List κ) : Option Λ := events.foldlM step L

@[simp] theorem post_nil (L : Λ) : post step L [] = some L := rfl

@[simp] theorem post_cons (L : Λ) (e : κ) (events : List κ) :
    post step L (e :: events) = (step L e).bind fun L' => post step L' events := List.foldlM_cons

theorem post_append (L : Λ) (events events' : List κ) :
    post step L (events ++ events') = (post step L events).bind fun L' => post step L' events' :=
    List.foldlM_append

theorem post_trans {L L₁ L₂ : Λ} {events events' : List κ} (h : post step L events = some L₁)
    (h' : post step L₁ events' = some L₂) : post step L (events ++ events') = some L₂ := by
  rw [post_append, h, Option.bind_some, h']

/-- What was posted in full was posted from its beginning. -/
theorem post_of_prefix {L L' : Λ} {made events : List κ} (hmade : made <+: events)
    (h : post step L events = some L') :
    ∃ L₁, post step L made = some L₁ := by
  obtain ⟨rest, rfl⟩ := hmade
  rw [post_append] at h
  obtain ⟨L₁, hL₁, -⟩ := Option.bind_eq_some_iff.mp h
  exact ⟨L₁, hL₁⟩

variable {trace : σ → List κ} {P P' : σ → Λ → Prop} {Q Q' : α → σ → Λ → Prop} {R : β → σ → Λ → Prop}

/-- The events of `m` can be posted to books that satisfy `P`, and books that satisfy `Q` are
left. -/
def Accounts (trace : σ → List κ) (step : Λ → κ → Option Λ) (P : σ → Λ → Prop) (m : Run σ ε α)
    (Q : α → σ → Λ → Prop) : Prop :=
  ∀ s L, P s L → ∃ new L', trace (m s).2 = trace s ++ new ∧ post step L new = some L' ∧
    ∀ a, (m s).1 = .ok a → Q a (m s).2 L'

/-- A run without events. -/
theorem accounts_still {m : Run σ ε α} (htrace : ∀ s, trace (m s).2 = trace s)
    (h : ∀ s L a, P s L → (m s).1 = .ok a → Q a (m s).2 L) : Accounts trace step P m Q :=
  fun s L hs => ⟨[], L, by rw [htrace, List.append_nil], rfl, fun a ha => h s L a hs ha⟩

theorem accounts_pure {a : α} (h : ∀ s L, P s L → Q a s L) :
    Accounts trace step P (pure a : Run σ ε α) Q :=
  accounts_still (fun _ => rfl) fun s L a' hs ha => by
    cases ha
    exact h s L hs

theorem accounts_gets {f : σ → α} (h : ∀ s L, P s L → Q (f s) s L) :
    Accounts trace step P (Run.gets f : Run σ ε α) Q :=
  accounts_still (fun _ => rfl) fun s L a hs ha => by
    cases ha
    exact h s L hs

theorem accounts_bind {m : Run σ ε α} {f : α → Run σ ε β} (hm : Accounts trace step P m Q)
    (hf : ∀ a, Accounts trace step (Q a) (f a) R) : Accounts trace step P (m >>= f) R := by
  intro s L hs
  obtain ⟨new, L₁, htrace, hpost, hq⟩ := hm s L hs
  rw [Run.bind_run]
  rcases hms : m s with ⟨a | e | _ | _, s₁⟩ <;> rw [hms] at htrace hq
  · obtain ⟨new', L₂, htrace', hpost', hr⟩ := hf a s₁ L₁ (hq a rfl)
    exact ⟨new ++ new', L₂, by rw [htrace', htrace, List.append_assoc], post_trans hpost hpost', hr⟩
  all_goals exact ⟨new, L₁, htrace, hpost, nofun⟩

theorem Accounts.mono {m : Run σ ε α} (hm : Accounts trace step P m Q) (hP : ∀ s L, P' s L → P s L)
    (hQ : ∀ a s L, Q a s L → Q' a s L) : Accounts trace step P' m Q' := by
  intro s L hs
  obtain ⟨new, L', htrace, hpost, hq⟩ := hm s L (hP s L hs)
  exact ⟨new, L', htrace, hpost, fun a ha => hQ a _ L' (hq a ha)⟩

theorem Accounts.pre {m : Run σ ε α} (hm : Accounts trace step P m Q) (hP : ∀ s L, P' s L → P s L) :
    Accounts trace step P' m Q := hm.mono hP fun _ _ _ h => h

/-- What does not depend on the state can be assumed. -/
theorem accounts_and {p : Prop} {m : Run σ ε α} (h : p → Accounts trace step P m Q) :
    Accounts trace step (fun s L => p ∧ P s L) m Q := fun s L hs => h hs.1 s L hs.2

/-- Books that were good for the trace so far are good for all of it. -/
theorem Accounts.posted {m : Run σ ε α} (hm : Accounts trace step P m Q) {L₀ L : Λ} {s : σ}
    (hL : post step L₀ (trace s) = some L) (hs : P s L) :
    ∃ L', post step L₀ (trace (m s).2) = some L' ∧ ∀ a, (m s).1 = .ok a → Q a (m s).2 L' := by
  obtain ⟨new, L', htrace, hpost, hq⟩ := hm s L hs
  exact ⟨L', by rw [htrace, post_trans hL hpost], hq⟩

end Lib
