import Winluks.Winspd

/-!
# What an attempt to close the volume has done

Between two calls the other threads touch the adapter and the flag of Ctrl+C,
and nothing else: `Quiet` is this frame.  `lockAndDismount_spec` reads an attempt
from its phase and its code.  Success means the whole sequence, on one handle
with the serial of the session; phase 1 means that the lock was refused and that
the volume was writable before and after.
-/

namespace Winluks

open Lib

/-- The calls `new` were made, and nothing was reported or locked. -/
structure Quiet (w w' : World) (new : List SysCall) : Prop where
  calls : w'.calls = w.calls ++ new
  log : w'.log = w.log
  locked : w'.lockedVolume = w.lockedVolume

theorem quiet_refl (w : World) : Quiet w w [] := ⟨(List.append_nil _).symm, rfl, rfl⟩

theorem quiet_trans {w w₁ w' : World} {new new' : List SysCall} (h : Quiet w w₁ new)
    (h' : Quiet w₁ w' new') :
    Quiet w w' (new ++ new') where
  calls := by rw [h'.calls, h.calls, List.append_assoc]
  log := h'.log.trans h.log
  locked := h'.locked.trans h.locked

/-- The calls an attempt made, with what it kept. -/
structure Tried (w w' : World) (new : List SysCall) : Prop where
  calls : w'.calls = w.calls ++ new
  log : w'.log = w.log

theorem Quiet.tried {w w' : World} {new : List SysCall} (h : Quiet w w' new) : Tried w w' new :=
  ⟨h.calls, h.log⟩

/-- The answer is a writable BTRFS volume. -/
def Writable (r : Except Failure VolumeInfo) : Prop := Setting.modeCode false r = 0

instance (r : Except Failure VolumeInfo) : Decidable (Writable r) :=
  inferInstanceAs (Decidable (_ = _))

namespace Setting

variable (S : Setting)

/-- The volume of this session is looked up: a handle whose descriptor has the serial. -/
def Matched (h : Handle) (calls : List SysCall) : Prop :=
  ∃ reply, .queryProperty h reply ∈ calls ∧ S.belongsToSession reply = true

/-- The attempt committed: on the matched handle `h`, mode, lock, mode, flush and dismount. -/
def Commits (h : Handle) (a : Attempt) : Prop :=
  a.phase = 4 ∧ a.code = 0 ∧ ∃ search i₁ i₂, S.Matched h search ∧ Writable i₁ ∧ Writable i₂ ∧
    a.calls = search ++ [.handleInformation h i₁, .lock h none, .handleInformation h i₂,
      .flushBuffers h none, .dismount h none]

/-- The attempt was refused at the lock, on a volume that was writable before and after. -/
def Refused (a : Attempt) : Prop :=
  a.phase = 1 ∧ ∃ h search i₁ i₂ e, S.Matched h search ∧ Writable i₁ ∧ Writable i₂ ∧
  a.code = e.code ∧
    a.calls = search ++ [.handleInformation h i₁, .lock h (some e), .handleInformation h i₂,
      .closeHandle h]

/-- The volume of this session was found, closed, and seen in the mode of the session. -/
def Readies (calls : List SysCall) : Prop :=
  ∃ h search root info, S.Matched h search ∧ modeCode (S.volume.mode = .readOnly) info = 0 ∧
    calls = search ++ [.closeHandle h, .volumeInformation root info]

variable {S} {w w' : World} {α : Type}

variable (S) in
/-- Between two calls only time passes. -/
theorem tick_frame (w : World) :
    (S.tick w).2.calls = w.calls ∧ (S.tick w).2.lockedVolume = w.lockedVolume ∧
    w.time ≤ (S.tick w).2.time ∧ ∀ u, (S.tick w).1 = .ok u → w.time < (S.tick w).2.time := by
  rw [tick, Run.gets_bind, Run.bind_run, World.onAdapter, Run.zoom]
  rcases callbacks S.prim S.volume (S.os.callbacks w.time) w.adapter with ⟨_ | _ | _ | _, a⟩ <;>
    simp [Run.modify]

theorem tick_quiet {u : Unit} (h : S.tick w = (.ok u, w')) : Quiet w w' [] := by
  simp only [tick, World.onAdapter, Run.gets_bind, Run.bind_run_eq_ok, Run.zoom, Run.modify_run,
    Prod.mk.injEq] at h
  obtain ⟨_, w₁, ⟨-, rfl⟩, -, rfl⟩ := h
  exact ⟨(List.append_nil _).symm, rfl, rfl⟩

theorem ask_quiet {answer : Nat → α} {entry : α → SysCall} {a : α}
    (h : S.ask answer entry w = (.ok a, w')) :
    Quiet w w' [entry a] := by
  simp only [ask, Run.bind_run_eq_ok, Run.gets_run, Run.modify_run, Run.pure_run, Prod.mk.injEq,
    Outcome.ok.injEq] at h
  obtain ⟨_, w₁, ht, _, _, ⟨rfl, rfl⟩, _, w₂, ⟨-, rfl⟩, rfl, rfl⟩ := h
  have hq := tick_quiet ht
  exact ⟨by rw [hq.calls, List.append_nil], hq.log, hq.locked⟩

theorem closeHandle_quiet {h : Handle} {u : Unit} (hc : S.closeHandle h w = (.ok u, w')) :
    Quiet w w' [.closeHandle h] :=
  @ask_quiet S w w' Unit (fun _ => ()) (fun _ => .closeHandle h) u hc

/-- What is known of the volume that was found, and of the error when none was. -/
def FoundIn (found : Found) (calls : List SysCall) : Prop :=
  match found with
  | .ok (h, _) => S.Matched h calls
  | .error e => e ≠ 0

theorem matched_mono {h : Handle} {calls calls' : List SysCall} (hm : S.Matched h calls)
    (hsub : ∀ c ∈ calls, c ∈ calls') : S.Matched h calls' := by
  obtain ⟨reply, hr, hb⟩ := hm
  exact ⟨reply, hsub _ hr, hb⟩

theorem foundIn_append {found : Found} {calls : List SysCall} (hf : S.FoundIn found calls)
    (new : List SysCall) :
    S.FoundIn found (calls ++ new) := by
  unfold FoundIn at hf ⊢
  split
  · exact matched_mono hf fun c hc => List.mem_append_left _ hc
  · exact hf

theorem visitVolume_spec {access : Nat} {name : Name} {found found' : Found} {last : Bool}
    {calls : List SysCall} (hf : S.FoundIn found calls)
    (h : S.visitVolume access name found w = (.ok (last, found'), w')) :
    ∃ new, Quiet w w' new ∧ S.FoundIn found' (calls ++ new) := by
  unfold visitVolume at h
  split at h
  · cases h
    exact ⟨[], quiet_refl w, foundIn_append hf []⟩
  · obtain ⟨opened, w₁, hopen, h⟩ := Run.bind_run_eq_ok.mp h
    have hq := ask_quiet hopen
    split at h
    · cases h
      exact ⟨_, hq, foundIn_append hf _⟩
    · next h₀ =>
      obtain ⟨reply, w₂, hask, h⟩ := Run.bind_run_eq_ok.mp h
      have hq₂ := quiet_trans hq (ask_quiet hask)
      split at h
      · next hbelongs =>
        split at h
        · obtain ⟨_, w₃, hc₁, h⟩ := Run.bind_run_eq_ok.mp h
          obtain ⟨_, w₄, hc₂, h⟩ := Run.bind_run_eq_ok.mp h
          cases h
          exact ⟨_, quiet_trans (quiet_trans hq₂ (closeHandle_quiet hc₁))
            (closeHandle_quiet hc₂), by
            show Code.dupName ≠ 0
            decide⟩
        · cases h
          refine ⟨_, hq₂, reply, ?_, hbelongs⟩
          simp
      · obtain ⟨_, w₃, hc, h⟩ := Run.bind_run_eq_ok.mp h
        cases h
        exact ⟨_, quiet_trans hq₂ (closeHandle_quiet hc), foundIn_append hf _⟩

theorem searchVolumes_spec {access fuel : Nat} {name : Name} {found found' : Found}
    {calls : List SysCall} (hf : S.FoundIn found calls)
    (h : S.searchVolumes access fuel name found w = (.ok found', w')) :
    ∃ new, Quiet w w' new ∧ S.FoundIn found' (calls ++ new) := by
  induction fuel generalizing w name found calls with
  | zero => cases h
  | succ fuel ih =>
    unfold searchVolumes at h
    obtain ⟨⟨last, found₁⟩, w₁, hv, h⟩ := Run.bind_run_eq_ok.mp h
    obtain ⟨new, hq, hf₁⟩ := visitVolume_spec hf hv
    dsimp only at h
    split at h
    · cases h
      exact ⟨new, hq, hf₁⟩
    · obtain ⟨next, w₂, hask, h⟩ := Run.bind_run_eq_ok.mp h
      have hq₂ := quiet_trans hq (ask_quiet hask)
      split at h
      · cases h
        exact ⟨_, hq₂, by rw [← List.append_assoc]; exact foundIn_append hf₁ _⟩
      · next name' =>
        obtain ⟨new', hq', hf'⟩ := ih (foundIn_append hf₁ [.findNext (some name')]) h
        refine ⟨_, quiet_trans hq₂ hq', ?_⟩
        simpa [List.append_assoc] using hf'

theorem findVolume_spec {access : Nat} {found : Found}
    (h : S.findVolume access w = (.ok found, w')) :
    ∃ new, Quiet w w' new ∧ S.FoundIn found new := by
  unfold findVolume at h
  obtain ⟨first, w₁, hask, h⟩ := Run.bind_run_eq_ok.mp h
  have hq := ask_quiet hask
  split at h
  · next e =>
    cases h
    exact ⟨_, hq, e.ne⟩
  · next name =>
    obtain ⟨found', w₂, hsearch, h⟩ := Run.bind_run_eq_ok.mp h
    obtain ⟨_, w₃, hclose, h⟩ := Run.bind_run_eq_ok.mp h
    cases h
    have hnone : S.FoundIn (.error Code.notReady) [.findFirst (.ok name)] := by
      show Code.notReady ≠ 0
      decide
    obtain ⟨new, hq', hf⟩ := searchVolumes_spec hnone hsearch
    exact ⟨_, quiet_trans (quiet_trans hq hq') (ask_quiet hclose), foundIn_append hf _⟩

/-- `wl_volume_ready` says that the volume is ready after it has seen it so. -/
theorem volumeReady_spec {r : Nat} (h : S.volumeReady w = (.ok r, w')) :
    ∃ new, Quiet w w' new ∧ (r = 0 → S.Readies new) := by
  unfold volumeReady at h
  obtain ⟨found, w₁, hfind, h⟩ := Run.bind_run_eq_ok.mp h
  obtain ⟨search, hq, hf⟩ := findVolume_spec hfind
  split at h
  · cases h
    exact ⟨search, hq, fun h0 => absurd h0 hf⟩
  · next h₀ root =>
    obtain ⟨_, w₂, hc, h⟩ := Run.bind_run_eq_ok.mp h
    obtain ⟨info, w₃, hask, h⟩ := Run.bind_run_eq_ok.mp h
    cases h
    refine ⟨_, quiet_trans (quiet_trans hq (closeHandle_quiet hc)) (ask_quiet hask), fun h0 => ?_⟩
    exact ⟨h₀, search, root, info, hf, h0, by rw [List.append_assoc, List.singleton_append]⟩

theorem volumeMode_spec {h : Handle} {mode : Nat} (hm : S.volumeMode h w = (.ok mode, w')) :
    ∃ info, Quiet w w' [.handleInformation h info] ∧ mode = modeCode false info := by
  unfold volumeMode at hm
  obtain ⟨info, w₁, hask, hret⟩ := Run.bind_run_eq_ok.mp hm
  cases hret
  exact ⟨info, ask_quiet hask, rfl⟩

theorem undo_spec {h : Handle} {phase error : Nat} {r : Nat × Nat}
    (hu : S.undo h phase error w = (.ok r, w')) :
    r = (phase, error) ∧ ∃ new, Quiet w w' new := by
  unfold undo at hu
  obtain ⟨_, w₁, hask, hu⟩ := Run.bind_run_eq_ok.mp hu
  obtain ⟨_, w₂, hc, hu⟩ := Run.bind_run_eq_ok.mp hu
  cases hu
  exact ⟨rfl, _, quiet_trans (ask_quiet hask) (closeHandle_quiet hc)⟩

theorem commit_spec {h : Handle} {r : Nat × Nat} (hc : S.commit h w = (.ok r, w')) :
    r.1 ≠ 1 ∧ ∃ new, Tried w w' new ∧ (r.2 ≠ 0 → w'.lockedVolume = w.lockedVolume) ∧
      (r.2 = 0 → r = (4, 0) ∧ w'.lockedVolume = some h ∧ ∃ info, Writable info ∧
        new = [.handleInformation h info, .flushBuffers h none, .dismount h none]) := by
  -- the way back has an error and does not lock
  have back : ∀ {w₁ : World} {phase error : Nat} {new : List SysCall}, Quiet w w₁ new →
      phase ≠ 1 → error ≠ 0 →
      S.undo h phase error w₁ = (.ok r, w') → r.1 ≠ 1 ∧ ∃ new, Tried w w' new ∧
        (r.2 ≠ 0 → w'.lockedVolume = w.lockedVolume) ∧
        (r.2 = 0 → r = (4, 0) ∧ w'.lockedVolume = some h ∧ ∃ info, Writable info ∧
          new = [.handleInformation h info, .flushBuffers h none, .dismount h none]) := by
    intro w₁ phase error new hq hphase herror hu
    obtain ⟨rfl, new', hq'⟩ := undo_spec hu
    have hall := quiet_trans hq hq'
    exact ⟨hphase, _, hall.tried, fun _ => hall.locked, fun h0 => absurd h0 herror⟩
  unfold commit at hc
  obtain ⟨mode, w₁, hm, hc⟩ := Run.bind_run_eq_ok.mp hc
  obtain ⟨info, hq, rfl⟩ := volumeMode_spec hm
  split at hc
  · next hne => exact back hq (by decide) hne hc
  · next hzero =>
    obtain ⟨flushed, w₂, hf, hc⟩ := Run.bind_run_eq_ok.mp hc
    have hq₂ := quiet_trans hq (ask_quiet hf)
    split at hc
    · next e => exact back hq₂ (by decide) e.ne hc
    · obtain ⟨dismounted, w₃, hd, hc⟩ := Run.bind_run_eq_ok.mp hc
      have hq₃ := quiet_trans hq₂ (ask_quiet hd)
      split at hc
      · next e => exact back hq₃ (by decide) e.ne hc
      · rw [Run.modify_bind] at hc
        cases hc
        exact ⟨nofun, _, ⟨hq₃.calls, hq₃.log⟩, fun h => absurd rfl h,
          fun _ => ⟨rfl, rfl, info, Decidable.not_not.mp hzero, rfl⟩⟩

/-- **An attempt to close the volume**, from its phase and its code. -/
theorem lockAndDismount_spec {r : Nat × Nat} (hfree : w.lockedVolume = none)
    (h : S.lockAndDismount w = (.ok r, w')) :
    ∃ new, Tried w w' new ∧ (r.2 ≠ 0 → w'.lockedVolume = none) ∧
      (r.2 = 0 → ∃ v, w'.lockedVolume = some v ∧ S.Commits v ⟨r.1, r.2, new⟩) ∧
      (r.1 = 1 → S.Refused ⟨r.1, r.2, new⟩) := by
  unfold lockAndDismount at h
  simp only [Run.gets_bind, hfree, ne_eq, not_true, if_false] at h
  obtain ⟨found, w₁, hfind, h⟩ := Run.bind_run_eq_ok.mp h
  obtain ⟨search, hq, hf⟩ := findVolume_spec hfind
  have hnone : w₁.lockedVolume = none := hq.locked.trans hfree
  split at h
  · next e =>
    cases h
    exact ⟨search, hq.tried, fun _ => hnone, fun h0 => absurd h0 hf, nofun⟩
  · next h₀ root =>
    obtain ⟨mode, w₂, hm, h⟩ := Run.bind_run_eq_ok.mp h
    obtain ⟨i₁, hq₁, rfl⟩ := volumeMode_spec hm
    have hq₂ := quiet_trans hq hq₁
    split at h
    · next hne =>
      obtain ⟨_, w₃, hc, h⟩ := Run.bind_run_eq_ok.mp h
      cases h
      have hall := quiet_trans hq₂ (closeHandle_quiet hc)
      exact ⟨_, hall.tried, fun _ => hall.locked.trans hfree, fun h0 => absurd h0 hne, nofun⟩
    · next hw₁ =>
      have hw₁ : Writable i₁ := Decidable.not_not.mp hw₁
      obtain ⟨locked, w₃, hl, h⟩ := Run.bind_run_eq_ok.mp h
      have hq₃ := quiet_trans hq₂ (ask_quiet hl)
      split at h
      · next e =>
        obtain ⟨mode, w₄, hm', h⟩ := Run.bind_run_eq_ok.mp h
        obtain ⟨i₂, hq₄, rfl⟩ := volumeMode_spec hm'
        obtain ⟨_, w₅, hc, h⟩ := Run.bind_run_eq_ok.mp h
        have hall := quiet_trans (quiet_trans hq₃ hq₄) (closeHandle_quiet hc)
        cases h
        refine ⟨_, hall.tried, fun _ => hall.locked.trans hfree, ?_, ?_⟩
        · split
          · exact fun h0 => absurd h0 (by decide)
          · exact fun h0 => absurd h0 e.ne
        · split
          · nofun
          · next hw₂ =>
            refine fun _ => ⟨rfl, h₀, search, i₁, i₂, e, hf, hw₁, Decidable.not_not.mp hw₂, rfl, ?_⟩
            simp
      · obtain ⟨hphase, new, ht, hlock, hcommit⟩ := commit_spec h
        refine ⟨_, ⟨by rw [ht.calls, hq₃.calls, List.append_assoc], ht.log.trans hq₃.log⟩,
          fun hne => ?_, fun h0 => ?_,
          fun h1 => absurd h1 hphase⟩
        · exact (hlock hne).trans (hq₃.locked.trans hfree)
        · obtain ⟨rfl, hlocked, i₂, hw₂, rfl⟩ := hcommit h0
          exact ⟨h₀, hlocked, rfl, rfl, search, i₁, i₂, hf, hw₁, hw₂, by simp⟩

end Setting

/-! ## The end of a session -/

/-- The calls that only the end of a session makes. -/
def closing : List SysCall := [.shutdownUnit, .waitDispatcher, .deleteUnit, .closeGuard]

/-- The session went on: no call has ended it, and every report stands. -/
structure Onward (w w' : World) : Prop where
  calls : ∃ new, w'.calls = w.calls ++ new ∧ ∀ c ∈ new, c ∉ closing
  log : w.log <+: w'.log

theorem Onward.calls_begin {w w' : World} (h : Onward w w') : w.calls <+: w'.calls := by
  obtain ⟨new, hnew, -⟩ := h.calls
  exact ⟨new, hnew.symm⟩

theorem onward_of_eq {w w' : World} (hcalls : w'.calls = w.calls) (hlog : w'.log = w.log) :
    Onward w w' := ⟨⟨[], by rw [hcalls, List.append_nil], nofun⟩, by rw [hlog]⟩

theorem onward_refl (w : World) : Onward w w := onward_of_eq rfl rfl

theorem onward_trans {w w₁ w' : World} (h : Onward w w₁) (h' : Onward w₁ w') : Onward w w' := by
  obtain ⟨new, hcalls, hnew⟩ := h.calls
  obtain ⟨new', hcalls', hnew'⟩ := h'.calls
  refine ⟨⟨new ++ new', by rw [hcalls', hcalls, List.append_assoc], ?_⟩, h.log.trans h'.log⟩
  exact List.forall_mem_append.mpr ⟨hnew, hnew'⟩

/-- Every report stands, wherever the program is stopped. -/
abbrev Recorded {ε α : Type} (m : Run World ε α) : Prop :=
  Run.Keeps (fun w w' => w.log <+: w'.log) m

theorem recorded_bind {ε α β : Type} {m : Run World ε α} {f : α → Run World ε β} (hm : Recorded m)
    (hf : ∀ a, Recorded (f a)) : Recorded (m >>= f) := Run.keeps_bind (fun h h' => h.trans h') hm hf

/-- The program does not end the session, wherever it is stopped, and it does not panic. -/
structure GoesOn {ε α : Type} (m : Run World ε α) : Prop where
  keeps : m.Keeps Onward
  calm : m.Calm

section
variable {ε α β : Type}

theorem GoesOn.run {m : Run World ε α} (h : GoesOn m) {w w' : World} {o : Outcome ε α}
    (hm : m w = (o, w')) : Onward w w' := h.keeps.run hm

theorem GoesOn.recorded {m : Run World ε α} (h : GoesOn m) : Recorded m :=
  fun w => (h.keeps w).log

theorem goesOn_bind {m : Run World ε α} {f : α → Run World ε β} (hm : GoesOn m)
    (hf : ∀ a, GoesOn (f a)) : GoesOn (m >>= f) :=
  ⟨Run.keeps_bind (R := Onward) onward_trans hm.keeps fun a => (hf a).keeps,
    Run.calm_bind hm.calm fun a => (hf a).calm⟩

theorem goesOn_halt : GoesOn (.lift .halt : Run World ε α) :=
  ⟨Run.keeps_lift onward_refl _, Run.calm_lift nofun⟩

theorem goesOn_pure (a : α) : GoesOn (pure a : Run World ε α) := ⟨onward_refl, Run.calm_pure a⟩

theorem goesOn_gets (f : World → α) : GoesOn (.gets f : Run World ε α) := ⟨onward_refl, nofun⟩

theorem goesOn_modify {f : World → World} (h : ∀ w, Onward w (f w)) :
    GoesOn (.modify f : Run World ε Unit) := ⟨h, nofun⟩

theorem goesOn_report (r : Report) : GoesOn (World.report r) := goesOn_modify fun w =>
  ⟨⟨[], (List.append_nil _).symm, nofun⟩, w.log.prefix_append [r]⟩

theorem goesOn_onAdapter {m : Run Adapter ε α} (h : m.Calm) : GoesOn (World.onAdapter m) :=
  ⟨fun _ => onward_of_eq rfl rfl, fun w => h w.adapter⟩

end

/-! ### The callbacks do not panic -/

section
variable {ε : Type} (prim : Primitives) (v : ValidatedVolume)

theorem calm_catchUnwind (m : Run Adapter Error Unit) :
    Run.Calm (catchUnwind m : Run Adapter ε Nat) := by
  intro a
  unfold catchUnwind
  rcases m a with ⟨_ | _ | _ | _, a'⟩ <;> nofun

theorem calm_callback (c : Callback) : Run.Calm (callback prim v c : Run Adapter ε Nat) := by
  cases c with
  | read lba count =>
    show Run.Calm (readCb prim v lba count : Run Adapter ε Nat)
    unfold readCb
    split
    · exact Run.calm_pure 2
    · exact calm_catchUnwind _
  | write lba count buffer =>
    show Run.Calm (writeCb prim v lba count buffer : Run Adapter ε Nat)
    unfold writeCb
    split
    · exact Run.calm_pure 2
    · exact calm_catchUnwind _
  | control op lba count => exact calm_catchUnwind _

theorem calm_callbacks (cs : List Callback) :
    Run.Calm (callbacks prim v cs : Run Adapter ε Unit) := by
  induction cs with
  | nil => exact Run.calm_pure ()
  | cons c rest ih => exact Run.calm_bind (calm_callback prim v c) fun _ => ih

end

namespace Setting

variable {S : Setting} {α : Type}

theorem goesOn_tick : GoesOn S.tick :=
  goesOn_bind (goesOn_gets _) fun _ =>
  goesOn_bind (goesOn_onAdapter (calm_callbacks _ _ _)) fun _ =>
    goesOn_modify fun _ => onward_of_eq rfl rfl

theorem goesOn_ask {answer : Nat → α} {entry : α → SysCall} (h : ∀ a, entry a ∉ closing) :
    GoesOn (S.ask answer entry) := by
  refine goesOn_bind goesOn_tick fun _ => goesOn_bind (goesOn_gets _) fun now => ?_
  refine goesOn_bind (goesOn_modify fun w => ⟨⟨_, rfl, ?_⟩, List.prefix_rfl⟩) fun _ => goesOn_pure _
  simpa using h (answer now)

theorem goesOn_closeHandle (h : Handle) : GoesOn (S.closeHandle h) :=
  goesOn_ask fun _ => by simp [closing]

theorem goesOn_error : GoesOn S.error := goesOn_ask fun _ => by simp [closing]

theorem goesOn_visitVolume (access : Nat) (name : Name) (found : Found) :
    GoesOn (S.visitVolume access name found) := by
  unfold visitVolume
  split
  · exact goesOn_pure _
  refine goesOn_bind (goesOn_ask fun _ => by simp [closing]) fun h => ?_
  cases h with
  | none => exact goesOn_pure _
  | some h =>
    refine goesOn_bind (goesOn_ask fun _ => by simp [closing]) fun reply => ?_
    split
    · cases found with
      | ok other =>
        exact goesOn_bind (goesOn_closeHandle _) fun _ =>
          goesOn_bind (goesOn_closeHandle _) fun _ => goesOn_pure _
      | error e => exact goesOn_pure _
    · exact goesOn_bind (goesOn_closeHandle _) fun _ => goesOn_pure _

theorem goesOn_searchVolumes (access fuel : Nat) (name : Name) (found : Found) :
    GoesOn (S.searchVolumes access fuel name found) := by
  induction fuel generalizing name found with
  | zero => exact goesOn_halt
  | succ fuel ih =>
    refine goesOn_bind (goesOn_visitVolume access name found) fun r => ?_
    dsimp only
    split
    · exact goesOn_pure _
    refine goesOn_bind (goesOn_ask fun _ => by simp [closing]) fun next => ?_
    cases next with
    | none => exact goesOn_pure _
    | some name => exact ih name r.2

theorem goesOn_findVolume (access : Nat) : GoesOn (S.findVolume access) := by
  refine goesOn_bind (goesOn_ask fun _ => by simp [closing]) fun first => ?_
  cases first with
  | error e => exact goesOn_pure _
  | ok name =>
    refine goesOn_bind (goesOn_searchVolumes _ _ _ _) fun found => ?_
    exact goesOn_bind (goesOn_ask fun _ => by simp [closing]) fun _ => goesOn_pure _

theorem goesOn_volumeReady : GoesOn S.volumeReady := by
  refine goesOn_bind (goesOn_findVolume 0) fun found => ?_
  cases found with
  | error e => exact goesOn_pure _
  | ok found =>
    refine goesOn_bind (goesOn_closeHandle _) fun _ => ?_
    exact goesOn_bind (goesOn_ask fun _ => by simp [closing]) fun _ => goesOn_pure _

theorem goesOn_volumeMode (h : Handle) : GoesOn (S.volumeMode h) :=
  goesOn_bind (goesOn_ask fun _ => by simp [closing]) fun _ => goesOn_pure _

theorem goesOn_undo (h : Handle) (phase error : Nat) : GoesOn (S.undo h phase error) :=
  goesOn_bind (goesOn_ask fun _ => by simp [closing]) fun _ =>
    goesOn_bind (goesOn_closeHandle _) fun _ => goesOn_pure _

theorem goesOn_commit (h : Handle) : GoesOn (S.commit h) := by
  refine goesOn_bind (goesOn_volumeMode h) fun mode => ?_
  split
  · exact goesOn_undo _ _ _
  refine goesOn_bind (goesOn_ask fun _ => by simp [closing]) fun flushed => ?_
  cases flushed with
  | some e => exact goesOn_undo _ _ _
  | none =>
    refine goesOn_bind (goesOn_ask fun _ => by simp [closing]) fun dismounted => ?_
    cases dismounted with
    | some e => exact goesOn_undo _ _ _
    | none => exact goesOn_bind (goesOn_modify fun _ => onward_of_eq rfl rfl) fun _ => goesOn_pure _

theorem goesOn_lockAndDismount : GoesOn S.lockAndDismount := by
  refine goesOn_bind (goesOn_gets _) fun locked => ?_
  split
  · exact goesOn_pure _
  refine goesOn_bind (goesOn_findVolume _) fun found => ?_
  cases found with
  | error e => exact goesOn_pure _
  | ok found =>
    refine goesOn_bind (goesOn_volumeMode _) fun mode => ?_
    split
    · exact goesOn_bind (goesOn_closeHandle _) fun _ => goesOn_pure _
    refine goesOn_bind (goesOn_ask fun _ => by simp [closing]) fun locked => ?_
    cases locked with
    | some e =>
      exact goesOn_bind (goesOn_volumeMode _) fun _ =>
        goesOn_bind (goesOn_closeHandle _) fun _ => goesOn_pure _
    | none => exact goesOn_commit _

variable {w w' : World}

/-- The calls of `wl_close` in order. -/
def closeCalls (locked : Option Handle) (before after : Nat) : List SysCall :=
  [.dispatcherError before, .shutdownUnit, .waitDispatcher, .dispatcherError after, .deleteUnit] ++
    locked.toList.map .closeHandle ++ [.closeGuard]

/-- **`wl_close`**: what it calls, and what it makes of the errors of the dispatcher. -/
theorem close_calls {code : Nat} (h : S.close w = (.ok code, w')) :
    ∃ before after, w'.calls = w.calls ++ closeCalls w.lockedVolume before after ∧
      w'.log = w.log ∧ w'.lockedVolume = w.lockedVolume ∧
      code = if before ≠ 0 then before else if after = Code.operationAborted then 0 else after := by
  unfold close at h
  obtain ⟨before, w₁, h₁, h⟩ := Run.bind_run_eq_ok.mp h
  obtain ⟨_, w₂, h₂, h⟩ := Run.bind_run_eq_ok.mp h
  obtain ⟨_, w₃, h₃, h⟩ := Run.bind_run_eq_ok.mp h
  obtain ⟨after, w₄, h₄, h⟩ := Run.bind_run_eq_ok.mp h
  obtain ⟨_, w₅, h₅, h⟩ := Run.bind_run_eq_ok.mp h
  have hq := quiet_trans (quiet_trans (quiet_trans (quiet_trans (ask_quiet h₁) (ask_quiet h₂))
    (ask_quiet h₃)) (ask_quiet h₄)) (ask_quiet h₅)
  rw [Run.gets_bind, hq.locked] at h
  refine ⟨before, after, ?_⟩
  cases hv : w.lockedVolume with
  | none =>
    rw [hv] at h
    obtain ⟨_, w₆, h₆, h⟩ := Run.bind_run_eq_ok.mp h
    cases h
    have hq := quiet_trans hq (ask_quiet h₆)
    exact ⟨hq.calls, hq.log, hq.locked.trans hv, rfl⟩
  | some v =>
    rw [hv] at h
    obtain ⟨_, w₆, h₆, h⟩ := Run.bind_run_eq_ok.mp h
    obtain ⟨_, w₇, h₇, h⟩ := Run.bind_run_eq_ok.mp h
    cases h
    have hq := quiet_trans (quiet_trans hq (closeHandle_quiet h₆)) (ask_quiet h₇)
    exact ⟨hq.calls, hq.log, hq.locked.trans hv, rfl⟩

/-- A report stands, whatever is called. -/
theorem recorded_ask {α : Type} {answer : Nat → α} {entry : α → SysCall} :
    Recorded (S.ask answer entry) :=
  recorded_bind goesOn_tick.recorded fun _ => recorded_bind (fun _ => List.prefix_rfl)
    fun _ => recorded_bind (fun _ => List.prefix_rfl) fun _ _ => List.prefix_rfl

theorem calm_ask {answer : Nat → α} {entry : α → SysCall} : (S.ask answer entry).Calm :=
  Run.calm_bind goesOn_tick.calm fun _ => nofun

theorem calm_close : S.close.Calm := by
  refine Run.calm_bind calm_ask fun before => Run.calm_bind calm_ask fun _ => ?_
  refine Run.calm_bind calm_ask fun _ => Run.calm_bind calm_ask fun after => ?_
  refine Run.calm_bind calm_ask fun _ => Run.calm_bind nofun fun locked => ?_
  have hguard : ∀ code : Nat, Run.Calm (S.ask (fun _ => ()) (fun _ => .closeGuard) >>= fun _ =>
      pure code) := fun _ => Run.calm_bind calm_ask fun _ => Run.calm_pure _
  cases locked with
  | none => exact hguard _
  | some h => exact Run.calm_bind calm_ask fun _ => hguard _

theorem recorded_close : Recorded S.close := by
  refine recorded_bind recorded_ask fun before => recorded_bind recorded_ask fun _ => ?_
  refine recorded_bind recorded_ask fun _ => recorded_bind recorded_ask fun after => ?_
  refine recorded_bind recorded_ask fun _ =>
    recorded_bind (fun _ => List.prefix_rfl) fun locked => ?_
  have hguard : ∀ code : Nat, Recorded (S.ask (fun _ => ()) (fun _ => .closeGuard) >>= fun _ =>
      pure code) := fun _ => recorded_bind recorded_ask fun _ _ => List.prefix_rfl
  cases locked with
  | none => exact hguard _
  | some h => exact recorded_bind recorded_ask fun _ => hguard _

end Setting

end Winluks
