import Winluks.Winspd

/-!
# The callback boundary

A request of the dispatcher passes through a callback of `winspd_shim.c` and one
of `windows.rs` before it reaches the adapter, and its status comes back through
`code` and `result`.  Here the callbacks are modelled with the pointers and the
buffer they work on, over any adapter operations; `Adapter.operations` are the
real ones, and `readCb_agrees` and its like relate them to the callbacks without
buffers.

`callbacks_boundary`: a request is GOOD exactly when its operation succeeded, and
the buffer of a read holds the answer or zeros.
-/

namespace Winluks

open Lib

/-! ## The callbacks in Rust -/

/-- What the callbacks call. -/
structure Operations where
  read : (lba count : Nat) → Run Adapter Error Bytes
  write : (lba : Nat) → Bytes → Run Adapter Error Unit
  flush : (lba count : Nat) → Run Adapter Error Unit
  unmap : Run Adapter Error Unit
  read_length : ∀ {lba count a b a'}, read lba count a = (.ok b, a') → b.length = count * 512

/-- The adapter, and the buffer of the request; `none` is the null pointer. -/
structure Transfer where
  adapter : Adapter
  buffer : Option Bytes

namespace Transfer

variable {α : Type}

def onAdapter (m : Run Adapter Empty α) : Run Transfer Empty α :=
  .zoom Transfer.adapter (fun t a => { t with adapter := a }) m

/-- `ptr::copy_nonoverlapping` to the front of the buffer -/
def copy (data : Bytes) : Run Transfer Empty Unit :=
  .modify fun t => { t with buffer := t.buffer.map fun b => data ++ b.drop data.length }

/-- `ptr::write_bytes(buffer, 0, count * 512)` -/
def clear (count : Nat) : Run Transfer Empty Unit :=
  if count ≠ 0 then copy (zeros (count * 512)) else pure ()

end Transfer

namespace Native

/-- `code` of a result -/
def codeOf : Except Error Unit → Nat
  | .ok _ => 0
  | .error e => code e

/-- `catch_unwind`: `none` after a panic. -/
def catching {σ α : Type} (m : Run σ Empty α) : Run σ Empty (Option α) := fun s =>
  match m s with
  | (.ok a, s) => (.ok (some a), s)
  | (.panic, s) => (.ok none, s)
  | (.halt, s) => (.halt, s)

def markFaulted : Run Adapter Empty Unit :=
  .modify fun a => { a with io := { a.io with faulted := true } }

/-- `p` is the context: null, or an adapter. -/
def readCb (p : Option Operations) (lba count : Nat) : Run Transfer Empty Nat := do
  let buffer ← .gets Transfer.buffer
  match p with
  | none => pure 2
  | some ops =>
    if 2048 < count ∨ (count ≠ 0 ∧ buffer = none) then pure 2
    else do
      let outcome ← catching do
        -- clear before the call, so that a panic cannot expose what was there
        Transfer.clear count
        let r ← Transfer.onAdapter (ops.read lba count).attempt
        match r with
        | .ok data => do
          if data ≠ [] then Transfer.copy data else pure ()
          pure 0
        | .error e => do
          Transfer.clear count
          pure (codeOf (.error e))
      match outcome with
      | some code => pure code
      | none => do
        Transfer.onAdapter markFaulted
        Transfer.clear count
        pure 5

/-- The `catch_unwind` of a request without an answer. -/
def guarded (m : Run Adapter Error Unit) : Run Transfer Empty Nat := do
  let outcome ← catching do
    let r ← Transfer.onAdapter m.attempt
    pure (codeOf r)
  match outcome with
  | some status => pure status
  | none => do
    Transfer.onAdapter markFaulted
    pure 5

def writeCb (p : Option Operations) (lba count : Nat) : Run Transfer Empty Nat := do
  let buffer ← .gets Transfer.buffer
  match p with
  | none => pure 2
  | some ops =>
    if 2048 < count ∨ (count ≠ 0 ∧ buffer = none) then pure 2
    else guarded (ops.write lba (if count = 0 then [] else (buffer.getD []).take (count * 512)))

def controlCb (p : Option Operations) (op lba count : Nat) : Run Transfer Empty Nat :=
  match p with
  | none => pure 4
  | some ops =>
    guarded (if op = 2 then ops.flush lba count else if op = 3 then ops.unmap
      else .throw .invalidRange)

end Native

/-! ## The callbacks in C -/

/-- `SPD_STORAGE_UNIT_STATUS` -/
structure Status where
  scsiStatus : Nat
  senseKey : Nat
  asc : Nat
deriving DecidableEq

namespace Status

def Good (s : Status) : Prop := s.scsiStatus = 0

/-- CHECK CONDITION with a sense key -/
def Check (s : Status) : Prop := s.scsiStatus = 2 ∧ s.senseKey ≠ 0

end Status

namespace Shim

/-- `result` clears the status first. -/
def result : (code : Nat) → Status
  | 0 => ⟨0, 0, 0⟩
  | 1 => ⟨2, 7, 0x27⟩
  | 2 => ⟨2, 5, 0x21⟩
  | 3 => ⟨2, 2, 0x04⟩
  | 5 => ⟨2, 3, 0x0c⟩
  | 6 => ⟨2, 5, 0x20⟩
  | _ => ⟨2, 3, 0x11⟩

variable (context : Operations)

/-- The context of a session is not null: `wl_create` refuses that.  Each callback returns TRUE,
which means completed; the flag `fua` is not looked at. -/
def readCb (lba count : Nat) : Run Transfer Empty Status := do
  let buffer ← .gets Transfer.buffer
  if 2048 < count ∨ (count ≠ 0 ∧ buffer = none) then pure (result 2)
  else do
    let code ← Native.readCb (some context) lba count
    pure (result code)

def writeCb (lba count : Nat) : Run Transfer Empty Status := do
  let buffer ← .gets Transfer.buffer
  if 2048 < count ∨ (count ≠ 0 ∧ buffer = none) then pure (result 2)
  else do
    let code ← Native.writeCb (some context) lba count
    pure (result code)

def flushCb (lba count : Nat) : Run Transfer Empty Status := do
  let code ← Native.controlCb (some context) 2 lba count
  pure (result code)

/-- The descriptors are not looked at. -/
def unmapCb (count : Nat) : Run Transfer Empty Status := do
  let code ← Native.controlCb (some context) 3 0 count
  pure (result code)

theorem result_good (c : Nat) : (result c).Good ↔ c = 0 := by
  unfold result Status.Good
  split <;> simp_all

theorem result_check {c : Nat} (h : c ≠ 0) : (result c).Check := by
  unfold result Status.Check
  split <;> simp_all

end Shim

/-! ## What a callback makes of its operation -/

theorem code_ne_zero (e : Error) : code e ≠ 0 := by
  unfold code
  split <;> decide

/-- The adapter of a session in which a panic was caught. -/
def Adapter.fault (a : Adapter) : Adapter := { a with io := { a.io with faulted := true } }

@[simp] theorem Adapter.fault_faulted (a : Adapter) : a.fault.io.faulted = true := rfl

namespace Transfer

variable {t : Transfer}

/-- `data` at the front of the buffer. -/
def fill (data : Bytes) (t : Transfer) : Transfer :=
  { t with buffer := t.buffer.map fun b => data ++ b.drop data.length }

theorem copy_run (data : Bytes) : copy data t = (.ok (), t.fill data) := rfl

theorem fill_nil : t.fill [] = t := by
  obtain ⟨a, b⟩ := t
  cases b <;> rfl

theorem clear_run (count : Nat) : clear count t = (.ok (), t.fill (zeros (count * 512))) := by
  unfold clear
  split
  · exact copy_run _
  · next h =>
    rw [show count = 0 by omega, Nat.zero_mul, show zeros 0 = [] from rfl, fill_nil]
    rfl

/-- What is written last stays. -/
theorem fill_fill {data data' : Bytes} (h : data.length = data'.length) (a : Adapter) :
    { t.fill data' with adapter := a }.fill data = { t with adapter := a }.fill data := by
  obtain ⟨a', b⟩ := t
  cases b with
  | none => rfl
  | some b => simp [fill, h]

/-- A buffer that is filled. -/
theorem fill_eq {data b : Bytes} (hb : t.buffer = some b) (h : b.length = data.length) :
    (t.fill data).buffer = some data := by
  simp [fill, hb, List.drop_eq_nil_of_le (Nat.le_of_eq h)]

end Transfer

/-- The code for an outcome, the adapter behind it, and the rest of the state. -/
def settled {α : Type} (after : Outcome Error α → Adapter → Transfer) :
    Outcome Error α × Adapter → Outcome Empty Nat × Transfer
  | (.ok x, a) => (.ok 0, after (.ok x) a)
  | (.err e, a) => (.ok (code e), after (.err e) a)
  | (.panic, a) => (.ok 5, after .panic a.fault)
  | (.halt, a) => (.halt, after .halt a)

namespace Native

variable {ops : Operations} {lba count : Nat} {t : Transfer}

/-- A call of the adapter goes on with its result. -/
theorem call_bind {α β : Type} (m : Run Adapter Error α)
    (f : Except Error α → Run Transfer Empty β) :
    (Transfer.onAdapter m.attempt >>= f) t = match m t.adapter with
      | (.ok x, a) => f (.ok x) { t with adapter := a }
      | (.err e, a) => f (.error e) { t with adapter := a }
      | (.panic, a) => (.panic, { t with adapter := a })
      | (.halt, a) => (.halt, { t with adapter := a }) := by
  rw [Run.bind_run, Transfer.onAdapter, Run.zoom, Run.attempt]
  rcases m t.adapter with ⟨_ | _ | _ | _, a⟩ <;> rfl

/-- A caught closure goes on unless the machine stopped. -/
theorem catching_bind {σ α β : Type} (m : Run σ Empty α) (f : Option α → Run σ Empty β) (s : σ) :
    (catching m >>= f) s = match m s with
      | (.ok x, s) => f (some x) s
      | (.panic, s) => f none s
      | (.halt, s) => (.halt, s) := by
  rw [Run.bind_run, catching]
  rcases m s with ⟨_ | e | _ | _, s⟩
  · rfl
  · exact e.elim
  · rfl
  · rfl

theorem guarded_run (m : Run Adapter Error Unit) :
    guarded m t = settled (fun _ a => { t with adapter := a }) (m t.adapter) := by
  rw [guarded, catching_bind, call_bind]
  rcases m t.adapter with ⟨_ | e | _ | _, a⟩ <;> rfl

theorem writeCb_run (h : ¬ (2048 < count ∨ (count ≠ 0 ∧ t.buffer = none))) :
    writeCb (some ops) lba count t = settled (fun _ a => { t with adapter := a })
      (ops.write lba ((t.buffer.getD []).take (count * 512)) t.adapter) := by
  have hbytes : (if count = 0 then [] else (t.buffer.getD []).take (count * 512)) =
      (t.buffer.getD []).take (count * 512) := by
    split
    · next hc => rw [hc, Nat.zero_mul, List.take_zero]
    · rfl
  simp only [writeCb, Run.gets_bind, if_neg h, hbytes, guarded_run]

/-- The buffer of a read: its answer, or zeros. -/
def answer (count : Nat) : Outcome Error Bytes → Bytes
  | .ok data => data
  | _ => zeros (count * 512)

theorem answer_length {a a' : Adapter} {o : Outcome Error Bytes}
    (h : ops.read lba count a = (o, a')) :
    (answer count o).length = count * 512 := by
  cases o with
  | ok data => exact ops.read_length h
  | _ => exact zeros_length _

/-- **A read that is let through.** -/
theorem readCb_run (h : ¬ (2048 < count ∨ (count ≠ 0 ∧ t.buffer = none))) :
    readCb (some ops) lba count t =
      settled (fun o a => { t with adapter := a }.fill (answer count o))
        (ops.read lba count t.adapter) := by
  simp only [readCb, Run.gets_bind, if_neg h]
  rw [catching_bind, Run.bind_run_of (Transfer.clear_run count), call_bind]
  have hzeros : ∀ a, Transfer.fill (zeros (count * 512))
      { t.fill (zeros (count * 512)) with adapter := a } =
      { t with adapter := a }.fill (zeros (count * 512)) := Transfer.fill_fill rfl
  rw [show (t.fill (zeros (count * 512))).adapter = t.adapter from rfl]
  rcases hr : ops.read lba count t.adapter with ⟨data | e | _ | _, a⟩
  · have hlen : data.length = (zeros (count * 512)).length := by
      rw [ops.read_length hr, zeros_length]
    have hfill := @Transfer.fill_fill t data _ hlen a
    by_cases hd : data = []
    · rw [hd, Transfer.fill_nil] at hfill
      subst hd
      exact Prod.ext rfl hfill
    · simp only [if_pos hd]
      exact Prod.ext rfl hfill
  · simp only [Run.bind_run_of (Transfer.clear_run count)]
    exact Prod.ext rfl (hzeros a)
  · have hclear : ∀ s, ((do Transfer.clear count; pure 5) : Run Transfer Empty Nat) s =
        (.ok 5, s.fill (zeros (count * 512))) := fun s => Run.bind_run_of (Transfer.clear_run count)
    exact (hclear { t.fill (zeros (count * 512)) with adapter := a.fault }).trans
      (Prod.ext rfl (hzeros a.fault))
  · rfl

end Native

/-! ## The adapter behind the callbacks -/

theorem Io.ok_of_lock {α : Type} {m : Run Io Error α} {s s' : Io} {a : α}
    (h : Io.lock m s = (.ok a, s')) :
    m s = (.ok a, s') := by
  unfold Io.lock Io.dropGuard at h
  split at h
  · cases h
  · split at h
    · cases h
    · exact h

variable {prim : Primitives}

namespace UnlockedVolume

variable {v : UnlockedVolume} {s s' : Io}

theorem readEncrypted_length {off size : Nat} {b : Bytes}
    (h : v.readEncrypted off size s = (.ok b, s')) :
    b.length = size := by
  have hread : (v.image.readExactAt off size s.disk).1 = .ok b := by
    unfold readEncrypted at h
    by_cases hmode : v.image.mode = .readWrite
    · rw [if_pos hmode, Io.orFault] at h
      split at h
      · cases h
      · next hm => rw [hm, (Prod.mk.inj h).1]
    · rw [if_neg hmode] at h
      exact (Prod.mk.inj h).1
  obtain ⟨-, -, rfl⟩ := v.image.readExactAt_ok off s.disk (Prod.ext hread rfl)
  exact slice_length _ _ _

/-- A read of whole sectors returns all of them. -/
theorem readAt_length {off n : Nat} {b : Bytes} (hoff : off % 512 = 0) (hn : n % 512 = 0)
    (h : v.readAt prim off n s = (.ok b, s')) : b.length = n := by
  have h := Io.ok_of_lock h
  rw [Run.bind_run_eq_ok] at h
  obtain ⟨_, s₁, -, h⟩ := h
  rw [Run.bind_run_eq_ok] at h
  obtain ⟨_, s₂, -, h⟩ := h
  split at h
  · next hz =>
    cases h
    exact hz.symm
  · simp only [Run.bind_run_eq_ok, Run.lift_run, Prod.mk.injEq] at h
    obtain ⟨stop, _, ⟨hstop, -⟩, _, _, -, _, _, -, enc, s₃, henc, plain, _, ⟨hplain, -⟩, hret⟩ := h
    cases hret
    rw [Outcome.ofOption_eq_ok, Option.bind_eq_some_iff] at hstop
    obtain ⟨x, hx, hstop⟩ := hstop
    obtain ⟨-, rfl⟩ := checkedAdd_eq_some.mp hx
    obtain ⟨-, rfl⟩ := checkedAdd_eq_some.mp hstop
    have hlen := readEncrypted_length henc
    have hplen : plain.length = enc.length := cryptSectors_length prim hplain
    rw [List.extract_eq_take_drop, List.length_take, List.length_drop]
    omega

end UnlockedVolume

namespace Adapter

variable {v : ValidatedVolume}

theorem read_length {lba count : Nat} {a a' : Adapter} {b : Bytes}
    (h : read prim v lba count a = (.ok b, a')) :
    b.length = count * 512 := by
  simp only [read, Run.bind_run_eq_ok, Run.lift_run, Prod.mk.injEq, Outcome.ofOption_eq_ok,
    checkedMul_eq_some] at h
  obtain ⟨_, _, -, o, _, ⟨⟨-, rfl⟩, -⟩, n, _, ⟨⟨-, rfl⟩, -⟩, _, a₁, -, h⟩ := h
  have hread : v.volume.readAt prim (lba * 512) (count * 512) a₁.io = (.ok b, a'.io) := by
    have h1 := congrArg Prod.fst h
    have h2 := congrArg (fun r => r.2.io) h
    exact Prod.ext h1 h2
  exact UnlockedVolume.readAt_length (by omega) (by omega) hread

/-- The operations of the adapter of the volume `v`. -/
def operations (prim : Primitives) (v : ValidatedVolume) : Operations where
  read := read prim v
  write := write prim v
  flush := flush v
  unmap := unmap v
  read_length := read_length

end Adapter

section
variable {prim : Primitives} {v : ValidatedVolume} {lba count : Nat} {t : Transfer}

/-- Without its buffer, a settled call is a caught one. -/
theorem settled_catchUnwind {α : Type} {after : Outcome Error α → Adapter → Transfer}
    (hafter : ∀ o a, (after o a).adapter = a) {m : Run Adapter Error α}
    {r : Outcome Empty Nat × Transfer} (h : r = settled after (m t.adapter)) :
    (r.1, r.2.adapter) = catchUnwind (Adapter.forget m) t.adapter := by
  subst h
  rw [catchUnwind, Adapter.forget, Run.bind_run]
  rcases m t.adapter with ⟨_ | _ | _ | _, a⟩ <;> exact Prod.ext rfl (hafter _ _)

theorem forget_unit (m : Run Adapter Error Unit) : Adapter.forget m = m := by
  funext a
  rw [Adapter.forget, Run.bind_run]
  rcases m a with ⟨_ | _ | _ | _, a⟩ <;> rfl

theorem readCb_agrees (hb : count ≠ 0 → t.buffer ≠ none) :
    ((Native.readCb (some (Adapter.operations prim v)) lba count t).1,
      (Native.readCb (some (Adapter.operations prim v)) lba count t).2.adapter) =
      readCb prim v lba count t.adapter := by
  by_cases hc : 2048 < count
  · simp only [Native.readCb, Run.gets_bind, if_pos (Or.inl hc : 2048 < count ∨ _), readCb,
      if_pos hc, Run.pure_run]
  · rw [readCb, if_neg hc]
    refine settled_catchUnwind ?_ (Native.readCb_run ?_)
    · exact fun _ _ => rfl
    · rintro (h | ⟨hne, hnone⟩)
      · exact hc h
      · exact hb hne hnone

theorem writeCb_agrees {b : Bytes} {buffer : Store} (hb : t.buffer = some b)
    (hbytes : slice buffer 0 (count * 512) = b.take (count * 512)) :
    ((Native.writeCb (some (Adapter.operations prim v)) lba count t).1,
      (Native.writeCb (some (Adapter.operations prim v)) lba count t).2.adapter) =
      writeCb prim v lba count buffer t.adapter := by
  by_cases hc : 2048 < count
  · simp only [Native.writeCb, Run.gets_bind, if_pos (Or.inl hc : 2048 < count ∨ _), writeCb,
      if_pos hc, Run.pure_run]
  · have hrun := @Native.writeCb_run (Adapter.operations prim v) lba count t (by simp [hc, hb])
    rw [hb, Option.getD_some, ← hbytes] at hrun
    rw [writeCb, if_neg hc, settled_catchUnwind (fun _ _ => rfl) hrun, forget_unit]
    rfl

theorem controlCb_agrees {op : Nat} :
    ((Native.controlCb (some (Adapter.operations prim v)) op lba count t).1,
      (Native.controlCb (some (Adapter.operations prim v)) op lba count t).2.adapter) =
      controlCb v op lba count t.adapter := by
  rw [controlCb, ← forget_unit (if op = 2 then _ else _)]
  exact settled_catchUnwind (fun _ _ => rfl) (Native.guarded_run _)

end

/-! ## The boundary -/

/-- A request that was let through completes as its operation ended: `called` is the operation, and
`done` the request.  A stop of the machine completes nothing. -/
structure Completes {α : Type} (called : Outcome Error α × Adapter)
    (done : Outcome Empty Status × Transfer) : Prop where
  returns : called.1 ≠ .halt → ∃ s, done.1 = .ok s
  good : ∀ s, done.1 = .ok s → (s.Good ↔ ∃ x, called.1 = .ok x)
  check : ∀ s, done.1 = .ok s → (∀ x, called.1 ≠ .ok x) → s.Check
  faulted : called.1 = .panic → done.2.adapter.io.faulted = true
  adapter : called.1 ≠ .panic → done.2.adapter = called.2

/-- The shim refuses a request that is too long, or has no buffer. -/
def Refused (count : Nat) (buffer : Option Bytes) : Prop :=
  2048 < count ∨ (count ≠ 0 ∧ buffer = none)

namespace Shim

variable {α : Type} {ops : Operations} {lba count : Nat} {t : Transfer}

theorem completes_settled {after : Outcome Error α → Adapter → Transfer}
    (hafter : ∀ o a, (after o a).adapter = a) {m : Run Transfer Empty Nat}
    {r : Outcome Error α × Adapter} (h : m t = settled after r) :
    Completes r ((do let code ← m; pure (result code)) t) := by
  rw [Run.bind_run, h]
  rcases r with ⟨x | e | _ | _, a⟩
  · refine ⟨fun _ => ⟨_, rfl⟩, ?_, ?_, nofun, fun _ => hafter _ _⟩
    · rintro s ⟨⟩
      exact ⟨fun _ => ⟨x, rfl⟩, fun _ => rfl⟩
    · exact fun s _ hno => absurd rfl (hno x)
  · refine ⟨fun _ => ⟨_, rfl⟩, ?_, ?_, nofun, fun _ => hafter _ _⟩
    · rintro s ⟨⟩
      rw [result_good]
      exact ⟨fun h => absurd h (code_ne_zero e), nofun⟩
    · rintro s ⟨⟩ -
      exact result_check (code_ne_zero e)
  · refine ⟨fun _ => ⟨_, rfl⟩, ?_, ?_, fun _ => ?_, fun h => absurd rfl h⟩
    · rintro s ⟨⟩
      exact ⟨nofun, nofun⟩
    · rintro s ⟨⟩ -
      exact result_check (by decide)
    · show (after .panic a.fault).adapter.io.faulted = true
      rw [hafter, Adapter.fault_faulted]
  · exact ⟨fun h => absurd rfl h, nofun, nofun, nofun, fun _ => hafter _ _⟩

theorem readCb_refused (h : Refused count t.buffer) :
    readCb ops lba count t = (.ok (result 2), t) := by
  unfold Refused at h
  simp only [readCb, Run.gets_bind, if_pos h, Run.pure_run]

theorem writeCb_refused (h : Refused count t.buffer) :
    writeCb ops lba count t = (.ok (result 2), t) := by
  unfold Refused at h
  simp only [writeCb, Run.gets_bind, if_pos h, Run.pure_run]

theorem readCb_admitted (h : ¬ Refused count t.buffer) : readCb ops lba count t =
    (do let code ← Native.readCb (some ops) lba count; pure (result code) :
      Run Transfer Empty Status) t := by
  unfold Refused at h
  simp only [readCb, Run.gets_bind, if_neg h]

theorem writeCb_admitted (h : ¬ Refused count t.buffer) : writeCb ops lba count t =
    (do let code ← Native.writeCb (some ops) lba count; pure (result code) :
      Run Transfer Empty Status) t := by
  unfold Refused at h
  simp only [writeCb, Run.gets_bind, if_neg h]

/-- The state a read leaves behind holds its answer. -/
theorem readCb_buffer (h : ¬ Refused count t.buffer) {b : Bytes} (hb : t.buffer = some b)
    (hlen : b.length = count * 512) :
    (readCb ops lba count t).2.buffer =
      some (Native.answer count (ops.read lba count t.adapter).1) := by
  have hrun := @Native.readCb_run ops lba count t h
  rw [readCb_admitted h, Run.bind_run, hrun]
  rcases hr : ops.read lba count t.adapter with ⟨x | e | _ | _, a⟩
  all_goals exact Transfer.fill_eq hb (hlen.trans (Native.answer_length hr).symm)

/-- **The boundary of the callbacks.**  A refused request comes to no operation, whatever they are;
one that was let through completes as its operation did, and what a read leaves in its buffer is the
answer or zeros. -/
theorem callbacks_boundary (lba count : Nat) (t : Transfer) :
    (Refused count t.buffer → ∃ s, s.Check ∧ ∀ ops, readCb ops lba count t = (.ok s, t) ∧
      writeCb ops lba count t = (.ok s, t)) ∧
    ∀ ops : Operations,
      (¬ Refused count t.buffer → Completes (ops.read lba count t.adapter)
        (readCb ops lba count t) ∧
        Completes (ops.write lba ((t.buffer.getD []).take (count * 512)) t.adapter)
          (writeCb ops lba count t)) ∧
      (∀ b, count ≤ 2048 → t.buffer = some b → b.length = count * 512 →
        (∀ data a, ops.read lba count t.adapter = (.ok data, a) → data.length = count * 512 ∧
          (readCb ops lba count t).2.buffer = some data) ∧
        ((∀ data, (ops.read lba count t.adapter).1 ≠ .ok data) →
          (readCb ops lba count t).2.buffer = some (zeros (count * 512)))) ∧
      Completes (ops.flush lba count t.adapter) (flushCb ops lba count t) ∧
      Completes (ops.unmap t.adapter) (unmapCb ops count t) := by
  refine ⟨fun h => ⟨_, result_check (by decide), fun ops => ⟨readCb_refused h, writeCb_refused h⟩⟩,
    fun ops =>
    ⟨fun h => ⟨?_, ?_⟩, fun b hc hb hlen => ?_, ?_, ?_⟩⟩
  · rw [readCb_admitted h]
    exact completes_settled (fun _ _ => rfl) (Native.readCb_run h)
  · rw [writeCb_admitted h]
    exact completes_settled (fun _ _ => rfl) (Native.writeCb_run h)
  · have hadmit : ¬ Refused count t.buffer := by
      rintro (h | ⟨-, h⟩)
      · omega
      · rw [hb] at h
        cases h
    rw [readCb_buffer hadmit hb hlen]
    refine ⟨fun data a hr => ⟨ops.read_length hr, by rw [hr]; rfl⟩, fun hno => ?_⟩
    cases hr : (ops.read lba count t.adapter).1 with
    | ok data => exact absurd hr (hno data)
    | _ => rfl
  · exact completes_settled (fun _ _ => rfl) (Native.guarded_run _)
  · exact completes_settled (fun _ _ => rfl) (Native.guarded_run _)

/-- A stopped session answers a read of one block with zeros. -/
theorem callbacks_boundary_sample :
    let t : Transfer := ⟨{ Adapter.new (Sample.io []) with stopping := true },
      some (List.replicate 512 7)⟩
    ∃ s, (readCb (Adapter.operations Sample.prim (Sample.volume .readWrite)) 0 1 t).1 = .ok s ∧
      s.Check ∧
      (readCb (Adapter.operations Sample.prim (Sample.volume .readWrite)) 0 1 t).2.buffer =
      some (zeros 512) := by
  intro t
  have hadmit : ¬ Refused 1 t.buffer := by
    rintro (h | ⟨-, h⟩)
    · omega
    · cases h
  have hread : ∀ data, (Adapter.read Sample.prim (Sample.volume .readWrite) 0 1 t.adapter).1 ≠
      .ok data := nofun
  obtain ⟨-, hops⟩ := callbacks_boundary 0 1 t
  obtain ⟨hcompletes, hbuffer, -⟩ :=
    hops (Adapter.operations Sample.prim (Sample.volume .readWrite))
  obtain ⟨hreturns, -, hcheck, -, -⟩ := (hcompletes hadmit).1
  obtain ⟨s, hs⟩ := hreturns nofun
  exact ⟨s, hs, hcheck s hs hread, (hbuffer _ (by decide) rfl List.length_replicate).2 hread⟩

end Shim

end Winluks
