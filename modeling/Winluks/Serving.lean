import Winluks.Lib.Path
import Winluks.Lifetimes
import Winluks.Serve

/-!
# A served volume is a session

`serve` publishes a volume, lets the dispatcher call into it, and closes it; all
of this touches the volume by requests only.  So the volume is a machine, every
part of `serve` follows it (`Works`), and a whole run, whatever the system does,
is a session of `ValidatedVolume.run` (`serve_session`).

What is known of sessions then holds of the program: which bytes it may change
(`serve_frames`), and what a crash leaves of it at any moment (`serve_crash`).
-/

namespace Winluks

open Lib Machine

/-! ## The volume as a machine -/

namespace ValidatedVolume

variable (prim : Primitives) (v : ValidatedVolume)

/-- A step is a request; nothing follows one in which the machine stopped. -/
def machine : Machine Io Event where
  step s e s' := e = v.event prim s e.op ∧ s' = (v.exec prim e.op s).2
  final e := e.outcome = .halt

variable {prim v} {s s' : Io} {es : List Event}

/-- Paths of this machine are sessions. -/
theorem run_of_path (h : (v.machine prim).Path s es s') :
    v.run prim (es.map Event.op) s = (es, s') := by
  induction h with
  | nil => rfl
  | @cons s s₁ s' e es first going rest ih =>
    obtain ⟨he, rfl⟩ := first
    have ho : (v.exec prim e.op s).1 = e.outcome := (congrArg Event.outcome he).symm
    simp only [List.map_cons, run, ho, ← he]
    split
    · next hhalt =>
      rcases es with _ | ⟨e', es⟩
      · cases rest
        rfl
      · exact absurd hhalt (going (by simp))
    · rw [ih]

/-- Sessions are paths. -/
theorem path_of_run (v : ValidatedVolume) (ops : List VolOp) (s : Io) :
    (v.machine prim).Path s (v.run prim ops s).1 (v.run prim ops s).2 := by
  induction ops generalizing s with
  | nil => exact .nil s
  | cons op ops ih =>
    have hstep : (v.machine prim).step s (v.event prim s op) (v.exec prim op s).2 := ⟨rfl, rfl⟩
    simp only [run]
    split
    · exact path_single hstep
    · next hgo => exact .cons hstep (fun _ => hgo) (ih _)

/-- The session rule, for paths. -/
theorem path_invariant (hfits : v.volume.Fits) {P : List Event → Io → Prop}
    (step : ∀ past s e s', P past s → (∀ x ∈ past, x.outcome ≠ .halt) →
      v.Step prim s e.op e.outcome s' →
      s'.disk.calls = s.disk.calls ++ e.calls → P (past ++ [e]) s')
    (h : (v.machine prim).Path s es s') (hsize : s.disk.file.size = v.volume.image.len)
    (hP : P [] s) : P es s' := by
  have := run_invariant hfits step (es.map Event.op) hsize hP
  rwa [run_of_path h] at this

section
variable {P : Store} {past : List Event}

/-- An array that a session serves is served further along its path. -/
theorem flat_path (hx : XtsInverts prim) (hfits : v.volume.Fits)
    (hsize : s.disk.file.size = v.volume.image.len) (h : v.Flat prim P past s)
    (hpast : (v.machine prim).Going past) (hpath : (v.machine prim).Path s es s') :
    v.Flat prim P (past ++ es) s' := by
  refine path_invariant hfits (P := fun es s => v.Flat prim P (past ++ es) s) ?_ hpath hsize
    (by rwa [List.append_nil])
  intro past' s e s' h hpast' hs hcalls
  rw [← List.append_assoc]
  exact flat_step hx h (List.forall_mem_append.mpr ⟨hpast, hpast'⟩) hs hcalls

theorem size_path (hfits : v.volume.Fits) (hsize : s.disk.file.size = v.volume.image.len)
    (hpath : (v.machine prim).Path s es s') : s'.disk.file.size = v.volume.image.len :=
  path_invariant hfits (P := fun _ s => s.disk.file.size = v.volume.image.len)
    (fun _ _ _ _ h _ hs _ => (step_size hs).trans h) hpath hsize hsize

theorem durable_path (hx : XtsInverts prim) (hmode : v.mode = .readWrite) (hfits : v.volume.Fits)
    (hsize : s.disk.file.size = v.volume.image.len) (h : v.Durable prim P past s)
    (hpast : (v.machine prim).Going past)
    (hpath : (v.machine prim).Path s es s') : v.Durable prim P (past ++ es) s' := by
  refine path_invariant hfits (P := fun es s => v.Durable prim P (past ++ es) s) ?_ hpath hsize
    (by rwa [List.append_nil])
  intro past' s e s' h hpast' hs hcalls
  rw [← List.append_assoc]
  exact durable_step hx hmode h (List.forall_mem_append.mpr ⟨hpast, hpast'⟩) hs hcalls

theorem outside_path {f : Store} (hfits : v.volume.Fits)
    (hsize : s.disk.file.size = v.volume.image.len) (h : v.Outside f s)
    (hpath : (v.machine prim).Path s es s') : v.Outside f s' :=
  path_invariant hfits (P := fun _ s => v.Outside f s) (fun _ _ _ _ h _ hs _ => outside_step h hs)
    hpath hsize h

/-- A latched session acknowledges nothing. -/
theorem latched_path (hfits : v.volume.Fits) (hsize : s.disk.file.size = v.volume.image.len)
    (hl : s.faulted = true ∨ s.poisoned = true) (hpath : (v.machine prim).Path s es s') :
    (s'.faulted = true ∨ s'.poisoned = true) ∧ ∀ e ∈ es, e.op ≠ .markFaulted →
    ∀ b, e.outcome ≠ .ok b := by
  refine path_invariant hfits (P := fun es s => (s.faulted = true ∨ s.poisoned = true) ∧
    ∀ e ∈ es, e.op ≠ .markFaulted → ∀ b, e.outcome ≠ .ok b) ?_ hpath hsize ⟨hl, by simp⟩
  rintro past s e s' ⟨hl, hpast⟩ - hs hcalls
  obtain ⟨hl', -, -, herr⟩ := step_latched hs hcalls hl
  refine ⟨hl', List.forall_mem_append.mpr ⟨hpast, List.forall_mem_singleton.mpr fun hop b hb => ?_⟩⟩
  obtain ⟨err, he⟩ := herr hop
  rw [he] at hb
  cases hb

end

/-! ### Between requests -/

/-- A poisoned mutex has been noticed. -/
def Noticed (s : Io) : Prop := s.poisoned = true → s.faulted = true

/-- The work under the mutex does not poison it. -/
abbrev KeepsPoison {α : Type} (m : Run Io Error α) : Prop :=
  Run.Keeps (fun s s' : Io => s'.poisoned = s.poisoned) m

theorem keepsPoison_bind {α β : Type} {m : Run Io Error α} {f : α → Run Io Error β}
    (hm : KeepsPoison m) (hf : ∀ a, KeepsPoison (f a)) : KeepsPoison (m >>= f) :=
    Run.keeps_bind (fun h h' => h'.trans h) hm hf

theorem keepsPoison_lift {α : Type} (x : Outcome Error α) : KeepsPoison (.lift x) := fun _ => rfl

theorem keepsPoison_notFaulted : KeepsPoison Io.notFaulted :=
  keepsPoison_bind (fun _ => rfl) fun _ => keepsPoison_lift _

theorem keepsPoison_orFault {α : Type} (m : Run Disk Error α) : KeepsPoison (Io.orFault m) := by
  intro s
  unfold Io.orFault
  rcases m s.disk with ⟨_ | _ | _ | _, d⟩ <;> rfl

/-- A locked section that comes back has noticed the poison. -/
theorem noticed_of_lock {α : Type} {m : Run Io Error α} (hm : KeepsPoison m)
    (h : (Io.lock m s).1.Returns) :
    Noticed (Io.lock m s).2 := by
  by_cases hp : s.poisoned = true
  · rw [Io.lock_poisoned _ _ hp]
    exact fun _ => rfl
  · have hlock : Io.lock m s = Io.dropGuard (m s) := if_neg hp
    rw [hlock] at h ⊢
    have := hm s
    rcases hms : m s with ⟨_ | _ | _ | _, s₁⟩ <;> rw [hms] at h this <;>
      simp_all [Io.dropGuard, Noticed]

theorem keepsPoison_readEncrypted (vol : UnlockedVolume) (off n : Nat) :
    KeepsPoison (vol.readEncrypted off n) := by
  unfold UnlockedVolume.readEncrypted
  split
  · exact keepsPoison_orFault _
  · exact fun _ => rfl

theorem noticed_readAt (vol : UnlockedVolume) (off n : Nat)
    (h : (vol.readAt prim off n s).1.Returns) :
    Noticed (vol.readAt prim off n s).2 := by
  refine noticed_of_lock ?_ h
  refine keepsPoison_bind keepsPoison_notFaulted fun _ =>
    keepsPoison_bind (keepsPoison_lift _) fun _ => ?_
  split
  · exact keepsPoison_lift _
  · refine keepsPoison_bind (keepsPoison_lift _) fun _ =>
      keepsPoison_bind (keepsPoison_lift _) fun _ => ?_
    refine keepsPoison_bind (keepsPoison_lift _) fun _ => ?_
    exact keepsPoison_bind (keepsPoison_readEncrypted _ _ _) fun _ =>
      keepsPoison_bind (keepsPoison_lift _) fun _ => keepsPoison_lift _

/-- A check in front of the mutex. -/
theorem noticed_check {α β : Type} {x : Outcome Error α} {f : α → Run Io Error β} (hs : Noticed s)
    (hf : ∀ a, (f a s).1.Returns → Noticed (f a s).2) (h : ((Run.lift x >>= f) s).1.Returns) :
    Noticed ((Run.lift x >>= f) s).2 := by
  rw [Run.lift_bind] at h ⊢
  cases x with
  | ok a => exact hf a h
  | _ => exact hs

theorem noticed_writeAt (hs : Noticed s) (off : Nat) (bytes : Bytes)
    (h : (v.writeAt prim off bytes s).1.Returns) :
    Noticed (v.writeAt prim off bytes s).2 := by
  refine noticed_check hs (fun _ => noticed_check hs fun _ =>
    noticed_check hs fun _ => noticed_of_lock ?_) h
  refine keepsPoison_bind keepsPoison_notFaulted fun _ => ?_
  split
  · exact fun _ => rfl
  · exact keepsPoison_bind (keepsPoison_lift _) fun _ =>
      keepsPoison_bind (keepsPoison_lift _) fun _ =>
      keepsPoison_orFault _

theorem noticed_flush (h : (v.flush s).1.Returns) : Noticed (v.flush s).2 :=
  noticed_of_lock (keepsPoison_bind keepsPoison_notFaulted fun _ => keepsPoison_orFault _) h

theorem returns_of_noBytes {m : Run Io Error Unit} (h : (noBytes m s).1.Returns) :
    (m s).1.Returns := by
  rcases hm : m s with ⟨_ | _ | _ | _, s₁⟩ <;> simp_all [noBytes, Run.bind_run]

/-- **A request that comes back** leaves no poison unnoticed. -/
theorem noticed_exec (hs : Noticed s) (op : VolOp) (h : (v.exec prim op s).1.Returns) :
    Noticed (v.exec prim op s).2 := by
  cases op with
  | read off len => exact noticed_readAt v.volume off len h
  | write off bytes =>
    simp only [exec, noBytes_state] at h ⊢
    exact noticed_writeAt hs off bytes (returns_of_noBytes h)
  | flush =>
    simp only [exec, noBytes_state] at h ⊢
    exact noticed_flush (returns_of_noBytes h)
  | markFaulted => exact fun _ => rfl

/-! ### Programs over the volume -/

variable (prim v)

/-- The program works the volume by requests in `P`. -/
abbrev Works {τ ε α : Type} (P : VolOp → Prop) (view : τ → Io) (m : Run τ ε α) : Prop :=
  (v.machine prim).Follows view (fun e => P e.op) Noticed m

variable {prim v} {P : VolOp → Prop}

theorem works_exec {op : VolOp} (hop : P op) : v.Works prim P id (v.exec prim op) := by
  intro s
  refine ⟨[v.event prim s op], path_single ⟨rfl, rfl⟩, by simpa [event], ?_,
    fun hret hs => noticed_exec hs op hret⟩
  rintro hne e he
  obtain rfl := List.mem_singleton.mp he
  exact hne

theorem works_noBytes {m : Run Io Error Unit} (h : v.Works prim P id (noBytes m)) :
    v.Works prim P id m := by
  refine h.congr (fun s => (noBytes_state m s).symm) ?_ ?_ <;> intro s <;>
    rcases hm : m s with ⟨_ | _ | _ | _, s₁⟩ <;> simp [noBytes, Run.bind_run, hm]

theorem works_writeAt {off : Nat} {bytes : Bytes} (hop : P (.write off bytes)) :
    v.Works prim P id (v.writeAt prim off bytes) := works_noBytes (works_exec hop)

theorem works_flush (hop : P .flush) : v.Works prim P id v.flush := works_noBytes (works_exec hop)

end ValidatedVolume

/-! ## The adapter and its callbacks -/

/-- The requests that a callback may make of the volume. -/
def Callback.Asks : Callback → VolOp → Prop
  | .read lba count, op => op = .read (lba * 512) (count * 512)
  | .write lba count buffer, op => op = .write (lba * 512) (slice buffer 0 (count * 512))
  | .control _ _ _, op => op = .flush

namespace Adapter

variable {prim : Primitives} {v : ValidatedVolume} {P : VolOp → Prop}

theorem works_onIo {α : Type} {m : Run Io Error α} (h : v.Works prim P id m) :
    v.Works prim P Adapter.io (onIo m) :=
  follows_zoom (fun _ _ => rfl) h

theorem works_notStopping : v.Works prim P Adapter.io notStopping :=
  follows_bind (follows_gets _) fun _ => follows_lift _

/-- A request at a block that is not out of range. -/
theorem works_at {α : Type} {lba : Nat} {m : Nat → Run Adapter Error α}
    (h : v.Works prim P Adapter.io (m (lba * 512))) :
    v.Works prim P Adapter.io (Run.lift (.ofOption .invalidRange (checkedMul 64 lba 512)) >>=
      m) := by
  by_cases hlba : lba * 512 < 2 ^ 64
  · rw [checkedMul, if_pos hlba]
    exact h
  · rw [checkedMul, if_neg hlba]
    exact follows_throw _

theorem works_read {lba count : Nat} (h : P (.read (lba * 512) (count * 512))) :
    v.Works prim P Adapter.io (read prim v lba count) := by
  refine follows_bind works_notStopping fun _ => works_at (works_at ?_)
  exact follows_bind (follows_modify fun _ => rfl) fun _ =>
    works_onIo (ValidatedVolume.works_exec h)

theorem works_write {lba : Nat} {bytes : Bytes} (h : P (.write (lba * 512) bytes)) :
    v.Works prim P Adapter.io (write prim v lba bytes) := by
  refine follows_bind (follows_modify fun _ => rfl) fun _ =>
    follows_bind (follows_lift _) fun _ => ?_
  exact follows_bind works_notStopping fun _ =>
    works_at (works_onIo (ValidatedVolume.works_writeAt h))

theorem works_unmap : v.Works prim P Adapter.io (unmap v) :=
  follows_bind (follows_modify fun _ => rfl) fun _ => follows_throw _

theorem works_flushVolume (h : P .flush) : v.Works prim P Adapter.io (flushVolume v) :=
  follows_bind (follows_modify fun _ => rfl) fun _ => works_onIo (ValidatedVolume.works_flush h)

theorem works_flush (h : P .flush) (lba count : Nat) :
    v.Works prim P Adapter.io (flush v lba count) := by
  refine follows_bind works_notStopping fun _ => works_at ?_
  split
  · split
    · exact works_flushVolume h
    · exact follows_throw _
  · split
    · exact follows_throw _
    · exact works_flushVolume h

theorem works_forget {α : Type} {m : Run Adapter Error α} (h : v.Works prim P Adapter.io m) :
    v.Works prim P Adapter.io (forget m) := follows_bind h fun _ => follows_pure _

end Adapter

section
variable {prim : Primitives} {v : ValidatedVolume} {P : VolOp → Prop} {ε : Type}

/-- Catching an unwinding request is one more request: it marks the fault. -/
theorem works_catchUnwind {m : Run Adapter Error Unit} (h : v.Works prim P Adapter.io m)
    (hmark : P .markFaulted) :
    v.Works prim P Adapter.io (catchUnwind m : Run Adapter ε Nat) := by
  intro a
  obtain ⟨es, hpath, hes, hgo, hrest⟩ := h a
  unfold catchUnwind
  rcases hm : m a with ⟨_ | _ | _ | _, a₁⟩ <;> rw [hm] at hpath hgo hrest
  case panic =>
    have hgo := hgo (by simp)
    refine ⟨es ++ [v.event prim a₁.io .markFaulted], hpath.append hgo (path_single ⟨rfl, rfl⟩),
      List.forall_mem_append.mpr ⟨hes, List.forall_mem_singleton.mpr hmark⟩,
      fun _ => going_append.mpr ⟨hgo, List.forall_mem_singleton.mpr
        (by simp [ValidatedVolume.machine, ValidatedVolume.event, ValidatedVolume.exec, noBytes,
          ValidatedVolume.markFaulted])⟩, fun _ _ _ => rfl⟩
  case ok => exact ⟨es, hpath, hes, fun _ => hgo (by simp), fun _ => hrest (by simp)⟩
  case err => exact ⟨es, hpath, hes, fun _ => hgo (by simp), fun _ => hrest (by simp)⟩
  case halt => exact ⟨es, hpath, hes, fun hne => absurd rfl hne, fun hret => absurd hret (by simp)⟩

theorem works_callback {c : Callback} (h : ∀ op, c.Asks op → P op) (hmark : P .markFaulted) :
    v.Works prim P Adapter.io (callback prim v c : Run Adapter ε Nat) := by
  cases c with
  | read lba count =>
    simp only [callback, readCb]
    split
    · exact follows_pure _
    · exact works_catchUnwind (Adapter.works_forget (Adapter.works_read (h _ rfl))) hmark
  | write lba count buffer =>
    simp only [callback, writeCb]
    split
    · exact follows_pure _
    · exact works_catchUnwind (Adapter.works_write (h _ rfl)) hmark
  | control op lba count =>
    refine works_catchUnwind ?_ hmark
    split
    · exact Adapter.works_flush (h _ rfl) lba count
    · split
      · exact Adapter.works_unmap
      · exact follows_throw _

theorem works_callbacks {cs : List Callback} (h : ∀ c ∈ cs, ∀ op, c.Asks op → P op)
    (hmark : P .markFaulted) :
    v.Works prim P Adapter.io (callbacks prim v cs : Run Adapter ε Unit) := by
  induction cs with
  | nil => exact follows_pure _
  | cons c cs ih =>
    obtain ⟨hc, hcs⟩ := List.forall_mem_cons.mp h
    exact follows_bind (works_callback hc hmark) fun _ => ih hcs

end

/-! ## The parts of `serve` -/

namespace Setting

variable (S : Setting)

/-- What `serve` may make of the volume: what a callback of the dispatcher asks for, the closing
flush, and the mark of a fault. -/
def Asked (op : VolOp) : Prop :=
  op = .flush ∨ op = .markFaulted ∨ ∃ now, ∃ c ∈ S.os.callbacks now, c.Asks op

/-- The program works the volume as `serve` may. -/
abbrev Works {ε α : Type} (m : Run World ε α) : Prop :=
  S.volume.Works S.prim S.Asked (fun w => w.adapter.io) m

variable {S} {ε α : Type}

theorem works_onAdapter {m : Run Adapter ε α} (h : S.volume.Works S.prim S.Asked Adapter.io m) :
    S.Works (World.onAdapter m) := follows_zoom (fun _ _ => rfl) h

theorem works_tick : S.Works S.tick := by
  refine follows_bind (follows_gets _) fun now =>
    follows_bind (works_onAdapter ?_) fun _ => follows_modify fun _ => rfl
  exact works_callbacks (fun c hc op hop => Or.inr (Or.inr ⟨now, c, hc, hop⟩)) (Or.inr (Or.inl rfl))

theorem works_ask {answer : Nat → α} {entry : α → SysCall} : S.Works (S.ask answer entry) :=
  follows_bind works_tick fun _ => follows_bind (follows_gets _) fun _ =>
    follows_bind (follows_modify fun _ => rfl) fun _ => follows_pure _

theorem works_visitVolume (access : Nat) (name : Name) (found : Found) :
    S.Works (S.visitVolume access name found) := by
  unfold visitVolume
  split
  · exact follows_pure _
  · refine follows_bind works_ask fun h => ?_
    cases h with
    | none => exact follows_pure _
    | some h =>
      refine follows_bind works_ask fun reply => ?_
      split
      · cases found with
        | ok other =>
          exact follows_bind works_ask fun _ => follows_bind works_ask fun _ => follows_pure _
        | error => exact follows_pure _
      · exact follows_bind works_ask fun _ => follows_pure _

theorem works_searchVolumes (access fuel : Nat) (name : Name) (found : Found) :
    S.Works (S.searchVolumes access fuel name found) := by
  induction fuel generalizing name found with
  | zero => exact follows_lift _
  | succ fuel ih =>
    refine follows_bind (works_visitVolume access name found) fun r => ?_
    dsimp only
    split
    · exact follows_pure _
    · refine follows_bind works_ask fun next => ?_
      cases next with
      | none => exact follows_pure _
      | some name => exact ih name r.2

theorem works_findVolume (access : Nat) : S.Works (S.findVolume access) := by
  refine follows_bind works_ask fun first => ?_
  cases first with
  | error => exact follows_pure _
  | ok name =>
    exact follows_bind (works_searchVolumes _ _ _ _) fun _ =>
      follows_bind works_ask fun _ => follows_pure _

theorem works_volumeReady : S.Works S.volumeReady := by
  refine follows_bind (works_findVolume _) fun found => ?_
  cases found with
  | error => exact follows_pure _
  | ok r => exact follows_bind works_ask fun _ => follows_bind works_ask fun _ => follows_pure _

theorem works_volumeMode (h : Handle) : S.Works (S.volumeMode h) :=
  follows_bind works_ask fun _ => follows_pure _

theorem works_undo (h : Handle) (phase error : Nat) : S.Works (S.undo h phase error) :=
  follows_bind works_ask fun _ => follows_bind works_ask fun _ => follows_pure _

theorem works_commit (h : Handle) : S.Works (S.commit h) := by
  refine follows_bind (works_volumeMode h) fun mode => ?_
  split
  · exact works_undo _ _ _
  · refine follows_bind works_ask fun flushed => ?_
    cases flushed with
    | some e => exact works_undo _ _ _
    | none =>
      refine follows_bind works_ask fun dismounted => ?_
      cases dismounted with
      | some e => exact works_undo _ _ _
      | none => exact follows_bind (follows_modify fun _ => rfl) fun _ => follows_pure _

theorem works_lockAndDismount : S.Works S.lockAndDismount := by
  refine follows_bind (follows_gets _) fun locked => ?_
  split
  · exact follows_pure _
  · refine follows_bind (works_findVolume _) fun found => ?_
    cases found with
    | error => exact follows_pure _
    | ok r =>
      refine follows_bind (works_volumeMode _) fun mode => ?_
      split
      · exact follows_bind works_ask fun _ => follows_pure _
      · refine follows_bind works_ask fun locked => ?_
        cases locked with
        | some e =>
          exact follows_bind (works_volumeMode _) fun _ =>
            follows_bind works_ask fun _ => follows_pure _
        | none => exact works_commit _

theorem works_report (r : Report) : S.Works (World.report r) := follows_modify fun _ => rfl

theorem works_close : S.Works S.close := by
  refine follows_bind works_ask fun before => follows_bind works_ask fun _ =>
    follows_bind works_ask fun _ => follows_bind works_ask fun after =>
      follows_bind works_ask fun _ => follows_bind (follows_gets _) fun locked => ?_
  have hguard : S.Works (do
      S.ask (fun _ => ()) fun _ => .closeGuard
      pure (if before ≠ 0 then before else if after = Code.operationAborted then 0 else after)) :=
    follows_bind works_ask fun _ => follows_pure _
  cases locked with
  | none => exact hguard
  | some h => exact follows_bind works_ask fun _ => hguard

/-- A look at the world after a tick. -/
theorem works_look (f : World → α) : S.Works (S.tick >>= fun _ => Run.gets f) :=
  follows_bind works_tick fun _ => follows_gets f

theorem works_quitSwap : S.Works S.quitSwap :=
  follows_bind works_tick fun _ => follows_bind (follows_gets _) fun _ =>
    follows_bind (follows_modify fun _ => rfl) fun _ => follows_pure _

theorem works_pollReady : S.Works S.pollReady :=
  follows_bind works_volumeReady fun _ => follows_bind (works_report _) fun _ => follows_pure _

theorem works_discover (fuel ready : Nat) : S.Works (S.discover fuel ready) := by
  induction fuel generalizing ready with
  | zero => exact follows_lift _
  | succ fuel ih =>
    unfold discover
    split
    · exact follows_pure _
    · refine follows_bind (works_look _) fun early => ?_
      split
      · exact follows_pure _
      · refine follows_bind works_ask fun error => ?_
        split
        · exact follows_pure _
        · refine follows_bind (works_look _) fun faulted => ?_
          split
          · exact follows_pure _
          · refine follows_bind (works_look _) fun quit => ?_
            split
            · exact follows_pure _
            · exact follows_bind works_tick fun _ => follows_bind works_pollReady fun _ => ih _

theorem works_attempt : S.Works S.attempt :=
  follows_bind (follows_gets _) fun _ => follows_bind works_lockAndDismount fun _ =>
    follows_bind (follows_gets _) fun _ => follows_bind (works_report _) fun _ => follows_pure _

theorem works_markFaulted : S.Works markFaulted := by
  have hexec : S.volume.Works S.prim S.Asked id (S.volume.exec S.prim .markFaulted) :=
    ValidatedVolume.works_exec (Or.inr (Or.inl rfl))
  have h := Adapter.works_onIo (ValidatedVolume.works_noBytes hexec)
  exact works_onAdapter (h.congr (fun _ => rfl) (by rintro _ ⟨⟩) fun _ _ => trivial)

theorem works_hold (fuel : Nat) : S.Works (S.hold fuel) := by
  induction fuel with
  | zero => exact follows_lift _
  | succ fuel ih =>
    refine follows_bind works_ask fun error => ?_
    split
    · exact follows_pure _
    · refine follows_bind (works_look _) fun faulted => ?_
      split
      · exact follows_pure _
      · refine follows_bind works_quitSwap fun quit => ?_
        split
        · split
          · exact follows_pure _
          · refine follows_bind works_attempt fun r => ?_
            split
            · exact follows_pure _
            · split
              · exact follows_bind works_tick fun _ => ih
              · exact follows_bind works_tick fun _ =>
                  follows_bind works_markFaulted fun _ => follows_pure _
        · exact follows_bind works_tick fun _ => ih

theorem works_giveUp : S.Works S.giveUp := by
  unfold giveUp
  split
  · exact follows_pure _
  · exact follows_bind works_attempt fun _ => follows_pure _

theorem works_others (p : Adapter.ShutdownPoint) : S.Works (S.others p) := by
  cases p with
  | flushed => exact follows_bind works_tick fun _ => works_report _
  | drained => exact works_tick

theorem works_shutdown : S.Works S.shutdown := by
  refine follows_bind ?_ fun synced => follows_bind (works_others _) fun _ => ?_
  · exact works_onAdapter (follows_attempt (Adapter.works_flush (Or.inl rfl) 0 0))
  · refine follows_bind (works_onAdapter (follows_modify fun _ => rfl)) fun _ => ?_
    exact follows_bind works_close fun _ => follows_bind (works_others _) fun _ =>
      follows_bind (follows_gets _) fun _ => follows_pure _

theorem works_checkConsumer : S.Works S.checkConsumer :=
  follows_bind (follows_lift _) fun _ => follows_bind (follows_gets _) fun _ => follows_lift _

theorem works_native {m : Run World Empty α} (h : S.Works m) : S.Works (native m) :=
  follows_mapErr h _

theorem works_session : S.Works S.session := by
  refine follows_bind (works_native works_tick) fun _ =>
    follows_bind (works_native works_pollReady) fun first =>
      follows_bind (works_native (works_discover _ _)) fun ready =>
        follows_bind (works_native ?_) fun clean =>
          follows_bind (works_native works_shutdown) fun _ => follows_lift _
  split
  · exact works_hold _
  · exact works_giveUp

/-- **The whole program** works the volume by what it was asked for. -/
theorem works_serve : S.Works S.serve :=
  follows_bind works_checkConsumer fun _ => follows_bind (follows_gets _) fun _ =>
    follows_bind (follows_lift _) fun _ => follows_bind (follows_lift _) fun _ =>
      follows_bind (works_native (works_report _)) fun _ => works_session

/-! ## Whole runs -/

variable (S) {ext : Parsers} {io : Io}

/-- The session behind a run of `serve`. -/
theorem serve_path (io : Io) :
    ∃ es, (S.volume.machine S.prim).Path io es (S.serve (World.start io)).2.adapter.io ∧
      (∀ e ∈ es, S.Asked e.op) ∧ ((S.serve (World.start io)).1 ≠ .halt →
      ∀ e ∈ es, e.outcome ≠ .halt) ∧
    ((S.serve (World.start io)).1.Returns → io.poisoned = false →
      (S.serve (World.start io)).2.adapter.io.poisoned = true →
      (S.serve (World.start io)).2.adapter.io.faulted = true) := by
  obtain ⟨es, hpath, hes, hgo, hrest⟩ := S.works_serve (World.start io)
  exact ⟨es, hpath, hes, hgo, fun hret hp => hrest hret fun h => absurd (hp.symm.trans h) (by simp)⟩

/-- **A served volume is a session, and so a flat array.**  Run `serve` over an unlocked volume,
whatever the system and the backend do.  All that happens to the volume is one session: its requests
are those of the dispatcher, the closing flush and the marks of faults, and its reads are served
from the array that the image decrypted to, with the writes acknowledged before laid over it. -/
theorem serve_session (hx : XtsInverts S.prim) (hopen : Winluks.Opened S.prim ext S.volume io) :
    ∃ es, S.volume.run S.prim (es.map Event.op) io = (es, (S.serve (World.start io)).2.adapter.io) ∧
      (∀ e ∈ es, S.Asked e.op) ∧ ((S.serve (World.start io)).1 ≠ .halt →
        ∀ e ∈ es, e.outcome ≠ .halt) ∧
      Serves (S.volume.volume.plain S.prim io.disk.file.data) es := by
  obtain ⟨es, hpath, hes, hgo, -⟩ := S.serve_path io
  refine ⟨es, ValidatedVolume.run_of_path hpath, hes, hgo, ?_⟩
  exact (ValidatedVolume.flat_path hx hopen.fits hopen.size ⟨serves_nil _, Or.inl rfl⟩
    (by simp [Going]) hpath).serves

/-- A write that `serve` was asked for comes from the dispatcher. -/
theorem callback_of_asked {off : Nat} {bytes : Bytes} (h : S.Asked (.write off bytes)) :
    ∃ now lba count buffer,
    .write lba count buffer ∈ S.os.callbacks now ∧ off = lba * 512 ∧
    bytes.length = count * 512 := by
  obtain h | h | ⟨now, c, hc, hop⟩ := h
  · cases h
  · cases h
  · cases c with
    | write lba count buffer =>
      cases hop
      exact ⟨now, lba, count, buffer, hc, rfl, slice_length _ _ _⟩
    | _ => cases hop

/-- A path changes what its requests were let through to write. -/
theorem framed_path (hfits : S.volume.volume.Fits) {es : List Event} {s : Io}
    (h : (S.volume.machine S.prim).Path io es s) :
    Framed S.volume (fun p => ∃ e ∈ es, S.volume.Accepts e.op ∧ S.volume.Writes e.op p) io s := by
  refine h.invariant (P := fun past s =>
    Framed S.volume (fun p => ∃ e ∈ past, S.volume.Accepts e.op ∧
    S.volume.Writes e.op p) io s) (fun past s e s' hpast _ hstep => ?_) (framed_refl io)
  obtain ⟨-, rfl⟩ := hstep
  have he := S.volume.framed_exec S.prim hfits e.op s
  refine framed_trans (framed_mono hpast ?_) (framed_mono he ?_)
  · rintro p ⟨x, hx, hw⟩
    exact ⟨x, List.mem_append_left _ hx, hw⟩
  · exact fun p hw => ⟨e, List.mem_append_right _ (List.mem_singleton_self e), hw⟩

variable {S} in
/-- A byte that a path changed lies in the payload of a writable volume, in the range of a write of
the dispatcher. -/
theorem changed_of_path (hfits : S.volume.volume.Fits) {es : List Event} {s : Io}
    (hpath : (S.volume.machine S.prim).Path io es s) (hes : ∀ e ∈ es, S.Asked e.op)
    (hsize : io.disk.file.size = S.volume.volume.image.len) {p : Nat}
    (hp : s.disk.file.data p ≠ io.disk.file.data p) :
    S.readOnly = false ∧ S.volume.volume.payload.Contains p ∧
      ∃ now lba count buffer, .write lba count buffer ∈ S.os.callbacks now ∧
        S.volume.volume.offset + 512 * lba ≤ p ∧
        p < S.volume.volume.offset + 512 * (lba + count) := by
  have hdata := (S.framed_path hfits hpath hsize).data p
  obtain ⟨⟨op, o, calls⟩, he, hacc, hw⟩ := not_not.mp (mt hdata hp)
  obtain ⟨off, bytes, rfl⟩ := ValidatedVolume.write_of_writes hw
  obtain ⟨now, lba, count, buffer, hc, rfl, hlen⟩ := S.callback_of_asked (hes _ he)
  have hmode : S.volume.mode = .readWrite := hacc.1
  obtain ⟨h1, h2⟩ := hw
  exact ⟨by simp [readOnly, hmode], ValidatedVolume.payload_of_writes hacc ⟨h1, h2⟩, now, lba,
    count, buffer, hc,
    by omega, by omega⟩

/-- The only block that the dispatcher of the small machine writes. -/
theorem sample_callback {now lba count : Nat} {buffer : Store}
    (h : .write lba count buffer ∈ sample.os.callbacks now) :
    lba = 1 ∧ count = 1 ∧ buffer = fun _ => 7 := by
  have hcallbacks : sample.os.callbacks now =
      if now = 5 then [.write 1 1 (fun _ => 7), .read 1 1] else [] := rfl
  rw [hcallbacks] at h
  split at h
  · rcases List.mem_cons.mp h with h | h
    · cases h
      exact ⟨rfl, rfl, rfl⟩
    · cases List.mem_singleton.mp h
  · cases h

/-- The first byte of that block is changed. -/
theorem sample_changed :
    (sample.serve (World.start (Sample.io []))).2.adapter.io.disk.file.data 164352 ≠
      (Sample.io []).disk.file.data 164352 := by
  decide +kernel

/-- The write of the dispatcher is in the session of the small volume. -/
theorem serve_session_sample :
    ∃ es, sample.volume.run sample.prim (es.map Event.op) (Sample.io []) =
      (es, (sample.serve (World.start (Sample.io []))).2.adapter.io) ∧
    Serves (sample.volume.volume.plain sample.prim (Sample.io []).disk.file.data) es ∧
    ∃ e ∈ es, ∃ bytes, e.op = .write 512 bytes ∧ bytes.length = 512 := by
  have hopen := Sample.opened .readWrite []
  obtain ⟨es, hrun, hes, -, hserves⟩ := serve_session sample Sample.xtsInverts hopen
  refine ⟨es, hrun, hserves, ?_⟩
  have hpath := @ValidatedVolume.path_of_run sample.prim sample.volume (es.map Event.op)
    (Sample.io [])
  simp only [hrun] at hpath
  have hframed := sample.framed_path hopen.fits hpath hopen.size
  obtain ⟨e, he, -, hw⟩ := not_not.mp fun hno => sample_changed (hframed.data 164352 hno)
  obtain ⟨off, bytes, hop⟩ := ValidatedVolume.write_of_writes hw
  obtain ⟨now, lba, count, buffer, hc, rfl, hlen⟩ := sample.callback_of_asked (hop ▸ hes e he)
  obtain ⟨rfl, rfl, -⟩ := sample_callback hc
  exact ⟨e, he, bytes, hop, hlen⟩

/-- A file that differs in the payload only unlocks as before. -/
theorem sameRun_of_opened (hopen : Winluks.Opened S.prim ext S.volume io) {F' : File}
    (hsize : F'.size = io.disk.file.size)
    (hdata : ∀ p, F'.data p ≠ io.disk.file.data p → S.volume.volume.payload.Contains p)
    {img : Image} (himg : img.len = S.volume.volume.image.len) (keyslot : Nat) (password : Bytes) :
    SameRun io.disk.file F' (UnlockedVolume.unlock S.prim ext img keyslot password) := by
  obtain ⟨image, k, pw, d, d', hfile, hunlock⟩ := hopen.unlocked
  obtain ⟨himage, m, -, -, -, hm, -, -, -, hoff, -⟩ := layout_of_unlock hunlock
  rw [hfile, ← himage, ← himg] at hm
  refine sameRun_unlock img hm hsize.symm (fun p hp => ?_) keyslot password
  by_contra hne
  have : S.volume.volume.offset ≤ p := (hdata p (Ne.symm hne)).1
  omega

/-- **The frame of the whole program.**  Run `serve` over an unlocked volume, whatever the system
and the backend do, and stop it anywhere.  The length of the image stays.  A byte that differs lies
in the payload of a writable volume, in the range of a write of the dispatcher.  A read-only volume
is not changed, and no change is asked for.  Every keyslot unlocks as before. -/
theorem serve_frames (hopen : Winluks.Opened S.prim ext S.volume io) :
    let F := io.disk.file
    let F' := (S.serve (World.start io)).2.adapter.io.disk.file
    F'.size = F.size ∧
    (∀ p, F'.data p ≠ F.data p → S.readOnly = false ∧ S.volume.volume.payload.Contains p ∧
      ∃ now lba count buffer, .write lba count buffer ∈ S.os.callbacks now ∧
        S.volume.volume.offset + 512 * lba ≤ p ∧ p < S.volume.volume.offset + 512 * (lba + count)) ∧
    (S.readOnly = true → F' = F ∧ ∃ new,
      (S.serve (World.start io)).2.adapter.io.disk.calls = io.disk.calls ++ new ∧
      ∀ c ∈ new, c.mutates = false) ∧
    ∀ img : Image, img.len = S.volume.volume.image.len → ∀ keyslot password,
      SameRun F F' (UnlockedVolume.unlock S.prim ext img keyslot password) := by
  intro F F'
  obtain ⟨es, hpath, hes, -⟩ := S.serve_path io
  have h := S.framed_path hopen.fits hpath hopen.size
  refine ⟨h.size, fun p hp => changed_of_path hopen.fits hpath hes hopen.size hp, fun hro => ?_,
    fun img himg keyslot password => S.sameRun_of_opened hopen h.size
      (fun p hp => (changed_of_path hopen.fits hpath hes hopen.size hp).2.1) himg keyslot password⟩
  obtain ⟨new, hnew, hstill⟩ := h.calls
  have hmode : S.volume.mode = .readOnly := by simpa [readOnly] using hro
  exact ⟨h.still hmode, new, hnew, hstill hmode⟩

/-- The small session changes one block, and the password opens what it leaves. -/
theorem serve_frames_sample :
    (sample.serve (World.start (Sample.io []))).2.adapter.io.disk.file.data 164352 ≠
      (Sample.io []).disk.file.data 164352 ∧
    (∀ p, (sample.serve (World.start (Sample.io []))).2.adapter.io.disk.file.data p ≠
      (Sample.io []).disk.file.data p → 164352 ≤ p ∧ p < 164864) ∧
    SameRun (Sample.io []).disk.file
      (sample.serve (World.start (Sample.io []))).2.adapter.io.disk.file
      (UnlockedVolume.unlock sample.prim Sample.parsers (Sample.image .readWrite) 1
        Sample.password) := by
  obtain ⟨-, hchanged, -, hsame⟩ := serve_frames sample (Sample.opened .readWrite [])
  refine ⟨sample_changed, fun p hp => ?_, hsame (Sample.image .readWrite) rfl 1 Sample.password⟩
  obtain ⟨-, -, now, lba, count, buffer, hc, h1, h2⟩ := hchanged p hp
  obtain ⟨rfl, rfl, -⟩ := sample_callback hc
  have hoff : sample.volume.volume.offset = 163840 := rfl
  omega

/-- A writable run that ends well has noticed no fault. -/
theorem faulted_of_ok (hrw : S.readOnly = false) (h : (S.serve (World.start io)).1 = .ok ()) :
    (S.serve (World.start io)).2.adapter.io.faulted = false := by
  rcases S.serve_cases (World.start io) with ⟨-, e, he⟩ | ⟨-, heq⟩
  · rw [he] at h
    cases h
  · rw [heq] at h ⊢
    obtain ⟨polls, earlier, last, v, held, hclean⟩ := session_clean hrw rfl rfl rfl h
    exact hclean.faulted

/-- In a writable run that ends well no write is torn. -/
theorem no_torn_of_ok (hrw : S.readOnly = false) (hopen : Winluks.Opened S.prim ext S.volume io)
    {P : Store} {es : List Event} (hdur :
      S.volume.Durable S.prim P es (S.serve (World.start io)).2.adapter.io)
    (hgo : (S.serve (World.start io)).1 ≠ .halt → ∀ e ∈ es, e.outcome ≠ .halt)
    (hok : (S.serve (World.start io)).1 = .ok ()) : ∀ x ∈ es, ¬ x.Torn := by
  obtain ⟨-, -, -, -, hnoticed⟩ := S.serve_path io
  intro x hx htorn
  have hf := S.faulted_of_ok hrw hok
  rcases hdur.latched ⟨x, hx, htorn⟩ with (h | h) | ⟨y, hy, h⟩
  · rw [hf] at h
    cases h
  · -- the poison would have been noticed
    rw [hnoticed (by simp [hok]) hopen.ready.1 h] at hf
    cases hf
  · exact hgo (by simp [hok]) y hy h

/-- **What a crash leaves of a served volume.**  Run `serve` over a writable volume, unlocked from
an image that is synced, stop it anywhere, and let the crash keep any mixture of durable and
unsynced bytes.  At most one write reached the file without being acknowledged.  Outside its range
every byte decrypts to the initial array with the acknowledged writes laid over it, and outside the
payload the image is what it was.  A run that ends with success has no such write, and leaves
nothing to lose. -/
theorem serve_crash (hx : XtsInverts S.prim) (hopen : Winluks.Opened S.prim ext S.volume io)
    (hrw : S.readOnly = false) {f : Store}
    (hfile : io.disk.file = .synced S.volume.volume.image.len f) :
    let F := (S.serve (World.start io)).2.adapter.io.disk.file
    ∃ es, S.volume.run S.prim (es.map Event.op) io = (es, (S.serve (World.start io)).2.adapter.io) ∧
      (∀ e ∈ es, S.Asked e.op) ∧ es.Pairwise (fun x y => x.Torn → y.calls = []) ∧
      (∀ c, F.Crash c → (∀ p, ¬ S.volume.volume.payload.Contains p → c p = f p) ∧
        ∀ q, (∀ x ∈ es, x.Torn → ¬ x.Covers q) →
          S.volume.volume.plain S.prim c q =
          es.foldl Event.apply (S.volume.volume.plain S.prim f) q) ∧
      ((S.serve (World.start io)).1 = .ok () → (∀ x ∈ es, ¬ x.Torn) ∧ ∀ c, F.Crash c →
        c = F.data) := by
  intro F
  have hmode : S.volume.mode = .readWrite := by
    cases hm : S.volume.mode with
    | readOnly => exact absurd hrw (by simp [readOnly, hm])
    | readWrite => rfl
  have hsynced : io.disk.file.durable = io.disk.file.data ∧ io.disk.file.unsynced = [] := by
    rw [hfile]
    exact ⟨rfl, rfl⟩
  have hdata : io.disk.file.data = f := by rw [hfile]; rfl
  obtain ⟨es, hpath, hes, hgo, -⟩ := S.serve_path io
  have hrun := ValidatedVolume.run_of_path hpath
  have hdur := ValidatedVolume.durable_run hx hopen hmode hsynced (es.map Event.op)
  have hout := ValidatedVolume.outside_path hopen.fits hopen.size
    (ValidatedVolume.outside_synced hfile) hpath
  rw [hrun, hdata] at hdur
  refine ⟨es, hrun, hes, hdur.single, fun c hc =>
    ⟨fun p hp => crash_near hout hc hp, hdur.crash c hc⟩,
    fun hok => ?_⟩
  have hnotorn := S.no_torn_of_ok hrw hopen hdur hgo hok
  obtain ⟨h1, h2⟩ := hdur.synced hnotorn
  exact ⟨hnotorn, fun c hc => (eq_durable_of_crash hc h2).trans h1⟩

/-- The small session ends with success, and no crash undoes its write. -/
theorem serve_crash_sample : (sample.serve (World.start (Sample.io []))).1 = .ok () ∧
    ∀ c, (sample.serve (World.start (Sample.io []))).2.adapter.io.disk.file.Crash c →
      sample.volume.volume.plain sample.prim c 512 = 7 := by
  obtain ⟨es, -, -, -, -, h⟩ := serve_crash sample Sample.xtsInverts
    (Sample.opened .readWrite []) rfl rfl
  refine ⟨sample_ok, fun c hc => ?_⟩
  rw [(h sample_ok).2 c hc]
  decide +kernel

end Setting

end Winluks
