import Winluks.ImageSpec
import Winluks.Sectors
import Winluks.Volume

/-!
# What one request does

`VolOp` is a request to a validated volume.  `exec_step` is the one place where
the three operations are unfolded: every request is refused before it reaches
the file, or is empty, or is performed, and `Performed` says what the file, the
poison and the fault flag are afterwards.
-/

namespace Winluks

open Lib

/-- The layout that an unlocked volume needs. -/
structure UnlockedVolume.Fits (v : UnlockedVolume) : Prop where
  inside : v.offset + v.len ≤ v.image.len
  aligned : v.len % 512 = 0

inductive VolOp where
  | read (offset len : Nat)
  | write (offset : Nat) (bytes : Bytes)
  | flush
  | markFaulted
deriving DecidableEq

variable (prim : Primitives)

/-- A request that returns no bytes. -/
def noBytes (m : Run Io Error Unit) : Run Io Error Bytes := do
  m
  pure []

namespace ValidatedVolume

variable (v : ValidatedVolume)

def exec : VolOp → Run Io Error Bytes
  | .read offset len => v.readAt prim offset len
  | .write offset bytes => noBytes (v.writeAt prim offset bytes)
  | .flush => noBytes v.flush
  | .markFaulted => noBytes markFaulted

/-- The request passes all range and alignment checks. -/
def Accepts : VolOp → Prop
  | .read offset len => offset + len ≤ v.len
  | .write offset bytes => v.mode = .readWrite ∧ bytes.length ≤ maxTransfer ∧
      offset + bytes.length ≤ v.len ∧ offset % 512 = 0 ∧ bytes.length % 512 = 0
  | _ => True

/-- The positions in the image that a request may write. -/
def Writes : VolOp → Nat → Prop
  | .write offset bytes, p => v.volume.offset + offset ≤ p ∧
      p < v.volume.offset + offset + bytes.length
  | _, _ => False

/-- What a request that succeeds has done. -/
def Effect (s : Io) (s' : Io) (o : Bytes) : VolOp → Prop
  | .read offset len => s'.disk.file = s.disk.file ∧
      ∃ plain, decryptSectors prim v.volume.key.bytes (offset / 512)
          (slice s.disk.file.data (v.volume.offset + offset / 512 * 512)
            ((offset + len + 511) / 512 * 512 - offset / 512 * 512)) = .ok plain ∧
        o = plain.extract (offset % 512) (offset % 512 + len)
  | .write offset bytes =>
      (∃ enc, encryptSectors prim v.volume.key.bytes (offset / 512) bytes = .ok enc ∧
        s'.disk.file.data = overlay s.disk.file.data (v.volume.offset + offset) enc) ∧
      s'.disk.file.durable = s'.disk.file.data ∧ s'.disk.file.unsynced = []
  | .flush => s'.disk.file.data = s.disk.file.data ∧
      (v.mode = .readWrite → s'.disk.file.durable = s'.disk.file.data ∧ s'.disk.file.unsynced = [])
  | .markFaulted => False

/-- A request that reached the file and made the calls `new`. -/
structure Performed (s : Io) (op : VolOp) (o : Outcome Error Bytes) (s' : Io) (new : List Call) :
    Prop where
  ready : s.poisoned = false ∧ s.faulted = false
  accepts : v.Accepts op
  calls : s'.disk.calls = s.disk.calls ++ new
  size : s'.disk.file.size = s.disk.file.size
  data : ∀ p, ¬ v.Writes op p → s'.disk.file.data p = s.disk.file.data p
  /-- a read-only session changes nothing and asks for no change -/
  still : v.mode = .readOnly → s'.disk.file = s.disk.file ∧ ∀ c ∈ new, c.mutates = false
  good : (∀ c ∈ new, c.failed v.volume.image.len = false ∧ c.panicked = false) →
    s'.poisoned = false ∧ s'.faulted = false
  bad : (∃ c ∈ new, ¬ c.Good v.volume.image.len) → (∀ b, o ≠ .ok b) ∧
    (v.mode = .readWrite → s'.faulted = true ∨ s'.poisoned = true ∨ o = .halt)
  /-- unless the request is acknowledged, what was durable stays so -/
  torn : (∀ b, o ≠ .ok b) → s'.disk.file.durable = s.disk.file.durable ∧
    ∀ e ∈ s'.disk.file.unsynced, e ∈ s.disk.file.unsynced ∨ v.Writes op e.1
  /-- a write that is not acknowledged is the last request to see the file -/
  unfinished : (∀ b, o ≠ .ok b) →
    (s'.disk.file = s.disk.file ∧ ∀ off bytes, op ≠ .write off bytes) ∨
    (new ≠ [] ∧ (s'.faulted = true ∨ s'.poisoned = true ∨ o = .halt))
  /-- a write or a flush is acknowledged after its sync -/
  synced : v.mode = .readWrite → (∀ off len, op ≠ .read off len) → ∀ b, o = .ok b →
    ∃ pre, new = pre ++ [.sync (.ok ())]
  effect : ∀ b, o = .ok b → v.Effect prim s s' b op

/-- What one request can do. -/
inductive Step (s : Io) : VolOp → Outcome Error Bytes → Io → Prop
  /-- an error before the file is reached; only a poisoned mutex sets the flag -/
  | refused {op : VolOp} {e : Error} {s' : Io} (disk : s'.disk = s.disk)
    (poisoned : s'.poisoned = s.poisoned)
    (faulted : s'.faulted = s.faulted ∨ (s.poisoned = true ∧ s'.faulted = true)) :
    Step s op (.err e) s'
  | empty {op : VolOp} (ready : s.poisoned = false ∧ s.faulted = false)
      (nothing : (∃ off, op = .read off 0) ∨ ∃ off, op = .write off []) : Step s op (.ok []) s
  | marked : Step s .markFaulted (.ok []) { s with faulted := true }
  | performed {op : VolOp} {o : Outcome Error Bytes} {s' : Io} {new : List Call}
      (p : v.Performed prim s op o s' new) : Step s op o s'

end ValidatedVolume

/-! ## The mutex and the flag -/

namespace Io

variable {α : Type} (s : Io)

theorem lock_poisoned (m : Run Io Error α) (h : s.poisoned = true) :
    lock m s = (.err .writebackFailed, { s with faulted := true }) := if_pos h

theorem lock_faulted (m : Run Io Error α) (hp : s.poisoned = false) (hf : s.faulted = true) :
    lock (notFaulted >>= fun _ => m) s = (.err .writebackFailed, s) := by
  have h : (notFaulted >>= fun _ => m) s = (.err .writebackFailed, s) := by
    simp [Run.bind_run, notFaulted, hf]
  unfold lock
  rw [if_neg (by simp [hp]), h]
  rfl

/-- A locked section is refused, whatever it protects, or it runs. -/
theorem lock_cases : (∃ s', (∀ {α : Type} (m : Run Io Error α),
      lock (notFaulted >>= fun _ => m) s = (.err .writebackFailed, s')) ∧ s'.disk = s.disk ∧
      s'.poisoned = s.poisoned ∧ (s'.faulted = s.faulted ∨
        (s.poisoned = true ∧ s'.faulted = true))) ∨
    (s.poisoned = false ∧ s.faulted = false) := by
  cases hp : s.poisoned with
  | true => exact Or.inl ⟨_, fun m => lock_poisoned s _ hp, rfl, hp, Or.inr ⟨rfl, rfl⟩⟩
  | false =>
    cases hf : s.faulted with
    | true => exact Or.inl ⟨s, fun m => lock_faulted s m hp hf, rfl, hp, Or.inl hf⟩
    | false => exact Or.inr ⟨rfl, rfl⟩

/-- What is left of a locked section once the mutex and the flag are seen to be clear. -/
theorem lock_ready (m : Run Io Error α) (hp : s.poisoned = false) (hf : s.faulted = false) :
    lock (notFaulted >>= fun _ => m) s = dropGuard (m s) := by
  have h : (notFaulted >>= fun _ => m) s = m s := by
    simp [Run.bind_run, notFaulted, hf]
  unfold lock
  rw [if_neg (by simp [hp]), h]

end Io

namespace UnlockedVolume

variable (v : UnlockedVolume) {prim} {off len : Nat} {s : Io}

/-- A read in range: what is left to check is its rounded length. -/
theorem readAt_ready (hfits : v.Fits) (hp : s.poisoned = false) (hf : s.faulted = false)
    (hin : off + len ≤ v.len) (hlen : len ≤ maxTransfer) (hpos : 0 < len) :
    v.readAt prim off len s = Io.dropGuard ((do
      .lift (.failIf (maxTransfer < (off + len + 511) / 512 * 512 - off / 512 * 512) .invalidRange)
      let encrypted ← v.readEncrypted (v.offset + off / 512 * 512)
        ((off + len + 511) / 512 * 512 - off / 512 * 512)
      let plain ← .lift (decryptSectors prim v.key.bytes (off / 512) encrypted)
      pure (plain.extract (off - off / 512 * 512) (off - off / 512 * 512 + len)) :
        Run Io Error Bytes) s) := by
  have hbound := v.image.len_lt
  have hfit := hfits.inside
  have hal := hfits.aligned
  have h1 : checkedAdd 64 off len = some (off + len) := checkedAdd_eq_some.mpr ⟨by omega, rfl⟩
  have h2 : checkedAdd 64 (off + len) 511 = some (off + len + 511) :=
    checkedAdd_eq_some.mpr ⟨by omega, rfl⟩
  have h3 : checkedAdd 64 v.offset (off / 512 * 512) = some (v.offset + off / 512 * 512) :=
    checkedAdd_eq_some.mpr ⟨by omega, rfl⟩
  unfold readAt
  rw [Io.lock_ready s _ hp hf, checkedRange, Outcome.failIf_neg (by omega)]
  simp only [Run.lift_bind, if_neg (show ¬ len = 0 by omega), h1, h2, h3, Option.bind_some,
    Outcome.ofOption_some, Nat.mul_div_cancel _ (show 0 < 512 by decide)]

end UnlockedVolume

namespace ValidatedVolume

variable {prim} {v : ValidatedVolume} {s s' : Io} {op : VolOp} {o : Outcome Error Bytes}
    {new : List Call}

/-- Calls that neither fail nor unwind let a program succeed, or are cut by a stop of the
machine. -/
theorem ok_or_halt_of_ends {α : Type} {len : Nat} {o₁ : Outcome Error α} (he : Ends len o₁ new)
    (hg : ∀ c ∈ new, c.failed len = false ∧ c.panicked = false) :
    (∃ a, o₁ = .ok a) ∨ o₁ = .halt := by
  cases o₁ with
  | ok a => exact Or.inl ⟨a, rfl⟩
  | err e => obtain ⟨c, hc, hf⟩ := he; rw [(hg c hc).1] at hf; cases hf
  | panic => obtain ⟨c, hc, hf⟩ := he; rw [(hg c hc).2] at hf; cases hf
  | halt => exact Or.inr rfl

theorem not_good_of_ends {α : Type} {len : Nat} {o₁ : Outcome Error α} (he : Ends len o₁ new)
    (hbad : ∃ c ∈ new, ¬ c.Good len) : ∀ a, o₁ ≠ .ok a := by
  rintro a rfl
  obtain ⟨c, hc, hg⟩ := hbad
  exact hg (he c hc)

/-- A request that only read: `o₁` is how its calls ended. -/
theorem performed_of_reads {α : Type} {o₁ : Outcome Error α}
    (ready : s.poisoned = false ∧ s.faulted = false) (accepts : v.Accepts op)
    (hop : v.mode = .readWrite → ∃ off len, op = .read off len)
    (hr : ReadsOnly v.volume.image.len s.disk o₁ s'.disk new)
    (hok : (∃ a, o₁ = .ok a) ∨ o₁ = .halt → s'.poisoned = false ∧ s'.faulted = false)
    (hno : (∀ a, o₁ ≠ .ok a) → (∀ b, o ≠ .ok b) ∧
      (v.mode = .readWrite → s'.faulted = true ∨ s'.poisoned = true ∨ o = .halt))
    (effect : ∀ b, o = .ok b → v.Effect prim s s' b op) : v.Performed prim s op o s' new where
  ready := ready
  accepts := accepts
  calls := hr.calls
  size := by rw [hr.file]
  data p _ := by rw [hr.file]
  still _ := ⟨hr.file, hr.still⟩
  good hg := hok (ok_or_halt_of_ends hr.ends hg)
  bad hb := hno (not_good_of_ends hr.ends hb)
  torn _ := ⟨by rw [hr.file], fun e he => Or.inl (by rwa [hr.file] at he)⟩
  unfinished _ := by
    refine Or.inl ⟨hr.file, ?_⟩
    rintro off bytes rfl
    obtain ⟨off', len, h⟩ := hop accepts.1
    cases h
  synced hmode hno := by
    obtain ⟨off, len, h⟩ := hop hmode
    exact absurd h (hno off len)
  effect := effect

/-- A request of a writable session whose calls end in a sync. -/
theorem performed_of_commits {o₁ : Outcome Error Unit}
    (ready : s.poisoned = false ∧ s.faulted = false) (accepts : v.Accepts op)
    (hmode : v.mode = .readWrite) {W : Nat → Prop} (hW : ∀ p, W p → v.Writes op p)
    (hc : Image.Commits W v.volume.image.len s.disk o₁ s'.disk new)
    (hok : (∃ u, o₁ = .ok u) ∨ o₁ = .halt → s'.poisoned = false ∧ s'.faulted = false)
    (hno : o₁ ≠ .ok () → (∀ b, o ≠ .ok b) ∧ (s'.faulted = true ∨ s'.poisoned = true ∨ o = .halt))
    (effect : ∀ b, o = .ok b → v.Effect prim s s' b op) (hiff : o₁ = .ok () → ∃ b, o = .ok b) :
    v.Performed prim s op o s' new where
  ready := ready
  accepts := accepts
  calls := hc.calls
  size := hc.size
  data p hp := hc.data p fun hw => hp (hW p hw)
  still hro := by rw [hmode] at hro; cases hro
  good hg := hok (ok_or_halt_of_ends hc.ends hg)
  bad hb := by
    obtain ⟨h1, h2⟩ := hno (not_good_of_ends hc.ends hb ())
    exact ⟨h1, fun _ => h2⟩
  torn ho := by
    have hne : o₁ ≠ .ok () := fun h => by
      obtain ⟨b, hb⟩ := hiff h
      exact ho b hb
    obtain ⟨h1, h2⟩ := hc.torn hne
    refine ⟨h1, fun e he => ?_⟩
    rcases h2 e he with h | h
    · exact Or.inl h
    · exact Or.inr (hW _ h)
  unfinished ho := by
    have hne : o₁ ≠ .ok () := fun h => by
      obtain ⟨b, hb⟩ := hiff h
      exact ho b hb
    refine Or.inr ⟨?_, (hno hne).2⟩
    rintro rfl
    obtain ⟨u, hu⟩ := hc.ends.ok_of_good nofun
    exact hne hu
  synced _ _ b hb := hc.synced (by
    by_contra hne
    exact (hno hne).1 b hb)
  effect := effect

/-- A read of the device that fails in a writable volume leaves the fault behind. -/
theorem readEncrypted_run {pos size : Nat} {o : Outcome Error Bytes} {d : Disk}
    (hrun : v.volume.image.readExactAt pos size s.disk = (o, d)) :
    v.volume.readEncrypted pos size s = match o with
      | .err e => if v.mode = .readWrite then (.err .writebackFailed,
          { s with disk := d, faulted := true })
        else (.err e, { s with disk := d })
      | o => (o, { s with disk := d }) := by
  unfold UnlockedVolume.readEncrypted mode
  split
  · simp only [Io.orFault, hrun]
    cases o <;> rfl
  · simp only [Io.onDisk, Run.zoom, hrun]
    cases o <;> rfl

/-- **A read**, in all the ways it can go. -/
theorem readAt_step (hfits : v.volume.Fits) (off len : Nat) :
    v.Step prim s (.read off len) (v.exec prim (.read off len) s).1
      (v.exec prim (.read off len) s).2 := by
  show v.Step prim s (.read off len) (v.volume.readAt prim off len s).1
      (v.volume.readAt prim off len s).2
  obtain ⟨s', hlock, hdisk, hpoisoned, hfaulted⟩ | ⟨hp, hf⟩ := s.lock_cases
  · unfold UnlockedVolume.readAt
    rw [hlock]
    exact .refused hdisk hpoisoned hfaulted
  by_cases hrange : maxTransfer < len ∨ v.volume.len < off ∨ v.volume.len - off < len
  · unfold UnlockedVolume.readAt
    rw [Io.lock_ready s _ hp hf, checkedRange, Outcome.failIf_pos hrange]
    exact .refused rfl rfl (Or.inl rfl)
  by_cases hlen : len = 0
  · unfold UnlockedVolume.readAt
    rw [Io.lock_ready s _ hp hf, checkedRange, Outcome.failIf_neg hrange]
    simp only [Run.lift_bind, if_pos hlen, Run.pure_run]
    exact .empty ⟨hp, hf⟩ (Or.inl ⟨off, by rw [hlen]⟩)
  rw [v.volume.readAt_ready hfits hp hf (by omega) (by omega) (by omega)]
  by_cases hsmall : maxTransfer < (off + len + 511) / 512 * 512 - off / 512 * 512
  · rw [Outcome.failIf_pos hsmall]
    exact .refused rfl rfl (Or.inl rfl)
  rw [Outcome.failIf_neg hsmall]
  have hin := hfits.inside
  have hal := hfits.aligned
  -- the rounded range ends inside the volume, since its length is a whole number of sectors
  have htarget :
      v.volume.offset + off / 512 * 512 + ((off + len + 511) / 512 * 512 - off / 512 * 512) ≤
      v.volume.image.len := by omega
  obtain ⟨new, hr⟩ := v.volume.image.readExactAt_spec _ s.disk htarget
  rcases hrun : v.volume.image.readExactAt (v.volume.offset + off / 512 * 512)
    ((off + len + 511) / 512 * 512 - off / 512 * 512) s.disk with ⟨o₁, d'⟩
  rw [hrun] at hr
  have hacc : v.Accepts (.read off len) := by show off + len ≤ v.volume.len; omega
  have hop : v.mode = .readWrite → ∃ o n, VolOp.read off len = .read o n := fun _ => ⟨off, len, rfl⟩
  rw [Run.lift_bind]
  dsimp only
  rw [Run.bind_run, readEncrypted_run hrun]
  cases o₁ with
  | ok enc =>
    dsimp only
    obtain ⟨-, hfile, rfl⟩ := v.volume.image.readExactAt_ok _ _ hrun
    have hret := returns_cryptSectors prim v.volume.key.bytes (off / 512)
      (slice s.disk.file.data (v.volume.offset + off / 512 * 512)
        ((off + len + 511) / 512 * 512 - off / 512 * 512)) .decrypt
    rw [Run.lift_bind]
    rcases hdec : decryptSectors prim v.volume.key.bytes (off / 512)
      (slice s.disk.file.data (v.volume.offset + off / 512 * 512)
        ((off + len + 511) / 512 * 512 - off / 512 * 512)) with plain | e | _ | _
    · refine .performed (performed_of_reads ⟨hp, hf⟩ hacc hop hr
      (fun _ => ⟨hp, hf⟩) (fun h => absurd rfl (h _)) ?_)
      rintro b ⟨⟩
      refine ⟨hfile, plain, hdec, ?_⟩
      rw [show off - off / 512 * 512 = off % 512 by omega]
    · exact .performed (performed_of_reads ⟨hp, hf⟩ hacc hop hr
      (fun _ => ⟨hp, hf⟩) (fun h => absurd rfl (h _)) (by rintro _ ⟨⟩))
    · rw [decryptSectors] at hdec
      rw [hdec] at hret
      exact hret.elim
    · rw [decryptSectors] at hdec
      rw [hdec] at hret
      exact hret.elim
  | err e =>
    dsimp only
    by_cases hmode : v.mode = .readWrite
    · rw [if_pos hmode]
      exact .performed (performed_of_reads ⟨hp, hf⟩ hacc hop hr
        (by simp) (fun _ => ⟨by rintro _ ⟨⟩, fun _ => Or.inl rfl⟩) (by rintro _ ⟨⟩))
    · rw [if_neg hmode]
      exact .performed (performed_of_reads ⟨hp, hf⟩ hacc hop hr
        (by simp) (fun _ => ⟨by rintro _ ⟨⟩, fun h => absurd h hmode⟩) (by rintro _ ⟨⟩))
  | panic =>
    exact .performed (performed_of_reads ⟨hp, hf⟩ hacc hop hr
      (by simp) (fun _ => ⟨by rintro _ ⟨⟩, fun _ => Or.inr (Or.inl rfl)⟩) (by rintro _ ⟨⟩))
  | halt =>
    exact .performed (performed_of_reads ⟨hp, hf⟩ hacc hop hr
      (fun _ => ⟨hp, hf⟩) (fun _ => ⟨by rintro _ ⟨⟩, fun _ => Or.inr (Or.inr rfl)⟩)
      (by rintro _ ⟨⟩))

theorem noBytes_ok {m : Run Io Error Unit} {u : Unit} (h : m s = (.ok u, s')) :
    noBytes m s = (.ok [], s') := by
  rw [noBytes, Run.bind_run, h]
  rfl

theorem noBytes_err {m : Run Io Error Unit} {e : Error} (h : m s = (.err e, s')) :
    noBytes m s = (.err e, s') := by
  rw [noBytes, Run.bind_run, h]

theorem noBytes_panic {m : Run Io Error Unit} (h : m s = (.panic, s')) :
    noBytes m s = (.panic, s') := by
  rw [noBytes, Run.bind_run, h]

theorem noBytes_halt {m : Run Io Error Unit} (h : m s = (.halt, s')) :
    noBytes m s = (.halt, s') := by
  rw [noBytes, Run.bind_run, h]

@[simp] theorem noBytes_state (m : Run Io Error Unit) (s : Io) : (noBytes m s).2 = (m s).2 := by
  rw [noBytes, Run.bind_run]
  rcases m s with ⟨_ | _ | _ | _, s'⟩ <;> rfl

/-- A backend sequence under the mutex: its failure faults the session, its unwinding poisons it. -/
theorem guarded_orFault (m : Run Disk Error Unit) (s : Io) :
    Io.dropGuard (Io.orFault m s) = match m s.disk with
      | (.ok u, d) => (.ok u, { s with disk := d })
      | (.err _, d) => (.err .writebackFailed, { s with disk := d, faulted := true })
      | (.panic, d) => (.panic, { s with disk := d, poisoned := true })
      | (.halt, d) => (.halt, { s with disk := d }) := by
  unfold Io.orFault
  rcases m s.disk with ⟨_ | _ | _ | _, d⟩ <;> rfl

/-- A request whose backend sequence commits, once the checks are passed. -/
theorem step_of_commits {m : Run Io Error Unit} {b : Run Disk Error Unit} {W : Nat → Prop}
    (hm : m s = Io.dropGuard (Io.orFault b s)) (ready : s.poisoned = false ∧ s.faulted = false)
    (accepts : v.Accepts op) (hmode : v.mode = .readWrite) (hW : ∀ p, W p → v.Writes op p)
    (hc : Image.Commits W v.volume.image.len s.disk (b s.disk).1 (b s.disk).2 new)
    (effect : (b s.disk).1 = .ok () → v.Effect prim s { s with disk := (b s.disk).2 } [] op) :
    v.Step prim s op (noBytes m s).1 (noBytes m s).2 := by
  rcases hb : b s.disk with ⟨o₁, d'⟩
  rw [hb] at hc effect
  have hrun := guarded_orFault b s
  rw [← hm, hb] at hrun
  cases o₁ with
  | ok u =>
    rw [noBytes_ok hrun]
    refine .performed (performed_of_commits ready accepts hmode hW hc (fun _ => ready)
      (fun h => absurd rfl h) ?_ (fun _ => ⟨_, rfl⟩))
    rintro _ ⟨⟩
    exact effect rfl
  | err e =>
    rw [noBytes_err hrun]
    exact .performed (performed_of_commits ready accepts hmode hW hc (by simp)
      (fun _ => ⟨nofun, Or.inl rfl⟩) nofun nofun)
  | panic =>
    rw [noBytes_panic hrun]
    exact .performed (performed_of_commits ready accepts hmode hW hc (by simp)
      (fun _ => ⟨nofun, Or.inr (Or.inl rfl)⟩) nofun nofun)
  | halt =>
    rw [noBytes_halt hrun]
    exact .performed (performed_of_commits ready accepts hmode hW hc (fun _ => ready)
      (fun _ => ⟨nofun, Or.inr (Or.inr rfl)⟩) nofun nofun)

/-- **A write**, in all the ways it can go. -/
theorem writeAt_step (hfits : v.volume.Fits) (hsize : s.disk.file.size = v.volume.image.len)
    (off : Nat) (bytes : Bytes) :
    v.Step prim s (.write off bytes) (v.exec prim (.write off bytes) s).1
      (v.exec prim (.write off bytes) s).2 := by
  show v.Step prim s (.write off bytes) (noBytes (v.writeAt prim off bytes) s).1
    (noBytes (v.writeAt prim off bytes) s).2
  -- an error that leaves the session alone
  have refuse : ∀ e, v.writeAt prim off bytes s = (.err e, s) →
      v.Step prim s (.write off bytes) (noBytes (v.writeAt prim off bytes) s).1
        (noBytes (v.writeAt prim off bytes) s).2 := by
    intro e he
    rw [noBytes_err he]
    exact .refused rfl rfl (Or.inl rfl)
  by_cases hmode : v.mode = .readWrite
  case neg =>
    refine refuse .readOnly ?_
    unfold writeAt
    rw [Outcome.failIf_pos hmode]
    rfl
  by_cases hrange : maxTransfer < bytes.length ∨ v.len < off ∨ v.len - off < bytes.length
  · refine refuse .invalidRange ?_
    unfold writeAt
    rw [Outcome.failIf_neg (not_not_intro hmode), checkedRange, Outcome.failIf_pos hrange]
    rfl
  by_cases halign : off % 512 ≠ 0 ∨ bytes.length % 512 ≠ 0
  · refine refuse .invalidRange ?_
    unfold writeAt
    rw [Outcome.failIf_neg (not_not_intro hmode), checkedRange, Outcome.failIf_neg hrange,
      Outcome.failIf_pos halign]
    rfl
  have hchecked : v.writeAt prim off bytes s = Io.lock (Io.notFaulted >>= fun _ =>
      if bytes = [] then pure ()
      else do
        let encrypted ← .lift (encryptSectors prim v.volume.key.bytes (off / 512) bytes)
        let target ← .lift (.ofOption .invalidRange (checkedAdd 64 v.volume.offset off))
        Io.orFault do
          v.volume.image.writeAllAt target encrypted
          v.volume.image.sync) s := by
    unfold writeAt
    rw [Outcome.failIf_neg (not_not_intro hmode), checkedRange, Outcome.failIf_neg hrange,
      Outcome.failIf_neg halign]
    rfl
  obtain ⟨s', hlock, hdisk, hpoisoned, hfaulted⟩ | ⟨hp, hf⟩ := s.lock_cases
  · rw [hlock] at hchecked
    rw [noBytes_err hchecked]
    exact .refused hdisk hpoisoned hfaulted
  rw [Io.lock_ready s _ hp hf] at hchecked
  by_cases hempty : bytes = []
  · rw [if_pos hempty] at hchecked
    rw [noBytes_ok hchecked]
    exact .empty ⟨hp, hf⟩ (Or.inr ⟨off, by rw [hempty]⟩)
  rw [if_neg hempty, Run.lift_bind] at hchecked
  have hret := returns_cryptSectors prim v.volume.key.bytes (off / 512) bytes .encrypt
  rw [← encryptSectors] at hret
  rcases henc : encryptSectors prim v.volume.key.bytes (off / 512) bytes with enc | e | _ | _
  · have hin := hfits.inside
    have hbound := v.volume.image.len_lt
    have hvlen : v.len = v.volume.len := rfl
    have hlen : enc.length = bytes.length := cryptSectors_length prim henc
    have hadd : checkedAdd 64 v.volume.offset off = some (v.volume.offset + off) :=
      checkedAdd_eq_some.mpr ⟨by omega, rfl⟩
    rw [henc] at hchecked
    dsimp only at hchecked
    rw [hadd, Outcome.ofOption_some, Run.lift_bind] at hchecked
    obtain ⟨new, hc, hdata⟩ := v.volume.image.writeAllAt_sync_spec (v.volume.offset + off)
      s.disk enc hmode (by omega) hsize
    refine step_of_commits hchecked ⟨hp, hf⟩ ⟨hmode, by omega, by omega, by omega, by omega⟩
      hmode ?_ hc ?_
    · rintro p ⟨h1, h2⟩
      exact ⟨h1, by omega⟩
    · intro hok
      exact ⟨⟨enc, henc, hdata hok⟩, hc.acked hok⟩
  · rw [henc] at hchecked
    exact refuse _ hchecked
  · rw [henc] at hret
    exact hret.elim
  · rw [henc] at hret
    exact hret.elim

/-- **A flush**, in all the ways it can go. -/
theorem flush_step : v.Step prim s .flush (v.exec prim .flush s).1 (v.exec prim .flush s).2 := by
  show v.Step prim s .flush (noBytes v.flush s).1 (noBytes v.flush s).2
  obtain ⟨s', hlock, hdisk, hpoisoned, hfaulted⟩ | ⟨hp, hf⟩ := s.lock_cases
  · have hrun : v.flush s = (.err .writebackFailed, s') := hlock _
    rw [noBytes_err hrun]
    exact .refused hdisk hpoisoned hfaulted
  have hrun : v.flush s = Io.dropGuard (Io.orFault v.volume.image.sync s) := Io.lock_ready s _ hp hf
  cases hmode : v.mode with
  | readWrite =>
    obtain ⟨new, hc⟩ := v.volume.image.sync_spec s.disk hmode
    refine step_of_commits hrun ⟨hp, hf⟩ trivial hmode (fun _ h => h) hc fun hok => ?_
    exact ⟨funext fun p => hc.data p id, fun _ => hc.acked hok⟩
  | readOnly =>
    have hne : v.mode ≠ .readWrite := by simp [hmode]
    have hop : v.mode = .readWrite → ∃ o n, VolOp.flush = .read o n := fun h => absurd h hne
    obtain ⟨new, hr⟩ := v.volume.image.sync_readOnly_spec s.disk hmode
    have hg := guarded_orFault v.volume.image.sync s
    rw [← hrun] at hg
    rcases hb : v.volume.image.sync s.disk with ⟨o₁, d'⟩
    rw [hb] at hr hg
    cases o₁ with
    | ok u =>
      rw [noBytes_ok hg]
      refine .performed (performed_of_reads ⟨hp, hf⟩ trivial hop hr
        (fun _ => ⟨hp, hf⟩) (fun h => absurd rfl (h u)) ?_)
      rintro _ ⟨⟩
      exact ⟨by rw [show d'.file = s.disk.file from hr.file], fun h => absurd h hne⟩
    | err e =>
      rw [noBytes_err hg]
      exact .performed (performed_of_reads ⟨hp, hf⟩ trivial hop hr
        (by simp) (fun _ => ⟨nofun, fun h => absurd h hne⟩) nofun)
    | panic =>
      rw [noBytes_panic hg]
      exact .performed (performed_of_reads ⟨hp, hf⟩ trivial hop hr
        (by simp) (fun _ => ⟨nofun, fun h => absurd h hne⟩) nofun)
    | halt =>
      rw [noBytes_halt hg]
      exact .performed (performed_of_reads ⟨hp, hf⟩ trivial hop hr
        (fun _ => ⟨hp, hf⟩) (fun _ => ⟨nofun, fun h => absurd h hne⟩) nofun)

/-- **One request.**  Everything that a request can do is a `Step`. -/
theorem exec_step (hfits : v.volume.Fits) (hsize : s.disk.file.size = v.volume.image.len)
    (op : VolOp) :
    v.Step prim s op (v.exec prim op s).1 (v.exec prim op s).2 := by
  cases op with
  | read off len => exact readAt_step hfits off len
  | write off bytes => exact writeAt_step hfits hsize off bytes
  | flush => exact flush_step
  | markFaulted => exact .marked

end ValidatedVolume

end Winluks
