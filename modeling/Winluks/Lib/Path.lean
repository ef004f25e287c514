import Winluks.Lib.Run

/-!
# Programs that work a machine

A machine makes steps, each with an event; after a final event it makes no more.
`Path` is a sequence of steps.  A program with a machine in its state `Follows`
it when all that it does to the machine is to make steps with allowed events:
whatever the end of the program, the machine went along a path, and the path is
still going unless the program was stopped.  A program that comes back also
leaves the machine at rest if it found it so.

Following is closed under sequencing, so an invariant of the paths is one of
every program that follows.
-/

namespace Lib

/-- Steps with events, and the events that nothing follows. -/
structure Machine (σ κ : Type) where
  step : σ → κ → σ → Prop
  final : κ → Prop

namespace Machine

variable {σ τ κ ε ε' α β : Type} (M : Machine σ κ)

inductive Path : σ → List κ → σ → Prop
  | nil (s : σ) : Path s [] s
  | cons {s s₁ s' : σ} {e : κ} {es : List κ} (first : M.step s e s₁) (going : es ≠ [] → ¬ M.final e)
      (rest : Path s₁ es s') : Path s (e :: es) s'

/-- The machine can go on after these events. -/
def Going (es : List κ) : Prop := ∀ e ∈ es, ¬ M.final e

variable {M} {s s₁ s' : σ} {e : κ} {es es' : List κ}

theorem going_append : M.Going (es ++ es') ↔ M.Going es ∧ M.Going es' := List.forall_mem_append

theorem path_single (h : M.step s e s') : M.Path s [e] s' :=
  .cons h (fun hne => absurd rfl hne) (.nil s')

/-- A path that is still going can be continued. -/
theorem Path.append (h : M.Path s es s₁) (hgo : M.Going es) (h' : M.Path s₁ es' s') :
    M.Path s (es ++ es') s' := by
  induction h with
  | nil => exact h'
  | cons first _ _ ih =>
    have hgo' := List.forall_mem_cons.mp hgo
    exact .cons first (fun _ => hgo'.1) (ih hgo'.2 h')

/-- **Invariants of paths.**  What holds at the start, and what a step carries on while the machine
is going, holds of events and state at the end. -/
theorem Path.invariant {P : List κ → σ → Prop} (h : M.Path s es s')
    (step : ∀ past s e s', P past s → M.Going past → M.step s e s' → P (past ++ [e]) s')
    (hs : P [] s) : P es s' := by
  have go : ∀ past, M.Going past → P past s → P (past ++ es) s' := by
    clear hs
    induction h with
    | nil =>
      intro past _ hs
      rwa [List.append_nil]
    | @cons s s₁ s' e es first going rest ih =>
      intro past hpast hs
      have h₁ := step past s e s₁ hs hpast first
      rcases es with _ | ⟨e', es⟩
      · cases rest
        exact h₁
      · have := ih (past ++ [e]) (going_append.mpr
          ⟨hpast, List.forall_mem_singleton.mpr (going (by simp))⟩) h₁
        rwa [List.append_assoc] at this
  simpa using go [] (by simp [Going]) hs

/-! ## Programs -/

/-- All that `m` does to the machine seen by `view` is to make steps with events in `A`, and it
comes back to `Rest`. -/
def Follows (M : Machine σ κ) (view : τ → σ) (A : κ → Prop) (Rest : σ → Prop)
    (m : Run τ ε α) : Prop :=
  ∀ t, ∃ es, M.Path (view t) es (view (m t).2) ∧ (∀ e ∈ es, A e) ∧ ((m t).1 ≠ .halt → M.Going es) ∧
    ((m t).1.Returns → Rest (view t) → Rest (view (m t).2))

variable {view : τ → σ} {A : κ → Prop} {Rest : σ → Prop} {m : Run τ ε α}

/-- A program that leaves the machine alone. -/
theorem follows_of_still (h : ∀ t, view (m t).2 = view t) : M.Follows view A Rest m := by
  intro t
  rw [h t]
  exact ⟨[], .nil _, by simp, by simp [Going], fun _ hr => hr⟩

theorem follows_lift (x : Outcome ε α) : M.Follows view A Rest (.lift x : Run τ ε α) :=
  follows_of_still fun _ => rfl

theorem follows_pure (a : α) : M.Follows view A Rest (pure a : Run τ ε α) :=
  follows_of_still fun _ => rfl

theorem follows_throw (e : ε) : M.Follows view A Rest (.throw e : Run τ ε α) :=
  follows_of_still fun _ => rfl

theorem follows_gets (f : τ → α) : M.Follows view A Rest (.gets f : Run τ ε α) :=
  follows_of_still fun _ => rfl

theorem follows_modify {f : τ → τ} (h : ∀ t, view (f t) = view t) :
    M.Follows view A Rest (.modify f : Run τ ε Unit) := follows_of_still h

/-- **Sequencing.** -/
theorem follows_bind {f : α → Run τ ε β} (hm : M.Follows view A Rest m)
    (hf : ∀ a, M.Follows view A Rest (f a)) :
    M.Follows view A Rest (m >>= f) := by
  intro t
  obtain ⟨es, hpath, hes, hgo, hrest⟩ := hm t
  rcases Run.bind_cases m f t with ⟨a, t₁, h, hb⟩ | ⟨e, t₁, h, hb⟩ | ⟨t₁, h, hb⟩ | ⟨t₁, h, hb⟩ <;>
    rw [hb] <;> rw [h] at hpath hgo hrest
  · obtain ⟨es', hpath', hes', hgo', hrest'⟩ := hf a t₁
    have hgo := hgo (by simp)
    exact ⟨es ++ es', hpath.append hgo hpath', List.forall_mem_append.mpr ⟨hes, hes'⟩,
      fun hne => going_append.mpr ⟨hgo, hgo' hne⟩, fun hret hr => hrest' hret (hrest (by simp) hr)⟩
  · exact ⟨es, hpath, hes, fun _ => hgo (by simp), fun _ => hrest (by simp)⟩
  · exact ⟨es, hpath, hes, fun _ => hgo (by simp), fun hret => absurd hret (by simp)⟩
  · exact ⟨es, hpath, hes, fun hne => absurd rfl hne, fun hret => absurd hret (by simp)⟩

/-- Only how a program ends, and the state it leaves, matter. -/
theorem Follows.congr {m' : Run τ ε' β} (h : M.Follows view A Rest m)
    (hstate : ∀ t, (m' t).2 = (m t).2) (hhalt : ∀ t, (m t).1 = .halt → (m' t).1 = .halt)
    (hret : ∀ t, (m' t).1.Returns → (m t).1.Returns) :
    M.Follows view A Rest m' := by
  intro t
  obtain ⟨es, hpath, hes, hgo, hrest⟩ := h t
  rw [hstate t]
  exact ⟨es, hpath, hes, fun hne => hgo fun hh => hne (hhalt t hh), fun hr => hrest (hret t hr)⟩

theorem follows_attempt (h : M.Follows view A Rest m) :
    M.Follows view A Rest (m.attempt : Run τ ε' _) := by
  refine h.congr ?_ ?_ ?_ <;> intro t <;> unfold Run.attempt <;>
    rcases m t with ⟨_ | _ | _ | _, t₁⟩ <;> simp

theorem follows_mapErr (h : M.Follows view A Rest m) (f : ε → ε') :
    M.Follows view A Rest (m.mapErr f) := by
  refine h.congr (fun _ => rfl) ?_ ?_ <;> intro t <;> unfold Run.mapErr <;>
    rcases m t with ⟨_ | _ | _ | _, t₁⟩ <;>
    simp [Outcome.mapErr]

/-- The machine is in the part that is worked on. -/
theorem follows_zoom {υ : Type} {get : υ → τ} {set : υ → τ → υ} (hset : ∀ u t, get (set u t) = t)
    (h : M.Follows view A Rest m) :
    M.Follows (fun u => view (get u)) A Rest (.zoom get set m : Run υ ε α) := by
  intro u
  obtain ⟨es, hpath, hes, hgo, hrest⟩ := h (get u)
  refine ⟨es, ?_, hes, hgo, ?_⟩ <;> simpa only [Run.zoom, hset]

end Machine

end Lib
