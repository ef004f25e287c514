import Winluks.Adapter

/-!
# The native shim

`native/winspd_shim.c` and the callbacks of `windows.rs`: how a session finds its
own volume among those of the system, asks for its mode, locks and dismounts it,
and closes the virtual disk.

The operating system is an oracle, `Os`: what it answers at each moment, which
callbacks the dispatcher runs in between, and when Ctrl+C is pressed.  A call
that fails reports an error that is not zero.  `lockAndDismount_spec` reads an
attempt to close the volume backwards from its phase and its code.
-/

namespace Winluks

open Lib

/-! ## Callbacks -/

/-- A request of the dispatcher. -/
inductive Callback where
  | read (lba count : Nat)
  | write (lba count : Nat) (buffer : Store)
  | control (op lba count : Nat)

/-- The status of an error. -/
def code : Error → Nat
  | .readOnly => 1
  | .invalidRange => 2
  | .stopping => 3
  | .writebackFailed => 5
  | .unsupportedOperation => 6
  | _ => 4

/-- The status of a request; unwinding is caught, and faults the session. -/
def catchUnwind {ε : Type} (m : Run Adapter Error Unit) : Run Adapter ε Nat := fun a =>
  match m a with
  | (.ok _, a) => (.ok 0, a)
  | (.err e, a) => (.ok (code e), a)
  | (.panic, a) => (.ok 5, { a with io := { a.io with faulted := true } })
  | (.halt, a) => (.halt, a)

section
variable {ε : Type} (prim : Primitives) (v : ValidatedVolume)

def readCb (lba count : Nat) : Run Adapter ε Nat :=
  if 2048 < count then pure 2 else catchUnwind (Adapter.forget (Adapter.read prim v lba count))

def writeCb (lba count : Nat) (buffer : Store) : Run Adapter ε Nat :=
  if 2048 < count then pure 2 else
    catchUnwind (Adapter.write prim v lba (slice buffer 0 (count * 512)))

def controlCb (op lba count : Nat) : Run Adapter ε Nat :=
  catchUnwind (if op = 2 then Adapter.flush v lba count else if op = 3 then Adapter.unmap v
    else .throw .invalidRange)

def callback : Callback → Run Adapter ε Nat
  | .read lba count => readCb prim v lba count
  | .write lba count buffer => writeCb prim v lba count buffer
  | .control op lba count => controlCb v op lba count

def callbacks : List Callback → Run Adapter ε Unit
  | [] => pure ()
  | c :: rest => do
    let _ ← callback prim v c
    callbacks rest

end

/-! ## The operating system -/

namespace Code

def writeProtect : Nat := 19
def notReady : Nat := 21
def dupName : Nat := 52
def operationAborted : Nat := 995
def unrecognizedVolume : Nat := 1005

end Code

/-- The error of a call that failed. -/
structure Failure where
  code : Nat
  ne : code ≠ 0
deriving DecidableEq

/-- Characters of two bytes, without the final zero. -/
abbrev Name := List UInt16

structure VolumeInfo where
  flags : Nat
  filesystem : Name
deriving DecidableEq

/-- A handle, named by the moment it was opened. -/
abbrev Handle := Nat

/-- A call to the operating system or to WinSpd, with its answer. -/
inductive SysCall where
  | findFirst (r : Except Failure Name)
  | findNext (r : Option Name)
  | findClose
  | openVolume (name : Name) (access : Nat) (r : Option Handle)
  | queryProperty (h : Handle) (r : Option (Nat × Bytes))
  | volumeInformation (root : Name) (r : Except Failure VolumeInfo)
  | handleInformation (h : Handle) (r : Except Failure VolumeInfo)
  | lock (h : Handle) (r : Option Failure)
  | unlock (h : Handle)
  | flushBuffers (h : Handle) (r : Option Failure)
  | dismount (h : Handle) (r : Option Failure)
  | closeHandle (h : Handle)
  | dispatcherError (code : Nat)
  | shutdownUnit
  | waitDispatcher
  | deleteUnit
  | closeGuard
deriving DecidableEq

/-- What the rest of the machine does at each moment.  `none` is success where the answer is a
failure. -/
structure Os where
  consumerReady : Nat → Bool
  setHandler : Nat → Bool
  create : Nat → Nat
  findFirst : Nat → Except Failure Name
  findNext : Nat → Option Name
  openVolume : Nat → Name → Nat → Bool
  queryProperty : Nat → Handle → Option (Nat × Bytes)
  volumeInformation : Nat → Name → Except Failure VolumeInfo
  handleInformation : Nat → Handle → Except Failure VolumeInfo
  lock : Nat → Handle → Option Failure
  flushBuffers : Nat → Handle → Option Failure
  dismount : Nat → Handle → Option Failure
  dispatcherError : Nat → Nat
  beforeDeadline : Nat → Bool
  callbacks : Nat → List Callback
  ctrlC : Nat → Bool

/-- One call of `wl_lock_and_dismount`: its phase, its code, and the calls it made. -/
structure Attempt where
  phase : Nat
  code : Nat
  calls : List SysCall
deriving DecidableEq

/-- What `serve` learns. -/
inductive Report where
  | created
  | ready (code : Nat)
  | attempt (a : Attempt)
  | flushed (syncFailed : Bool)
deriving DecidableEq

/-- The state of one run of `serve`. -/
structure World where
  time : Nat
  adapter : Adapter
  lockedVolume : Option Handle
  quit : Bool
  calls : List SysCall
  log : List Report

namespace World

/-- The state in which `serve` begins, over an image that was unlocked. -/
def start (io : Io) : World := ⟨0, .new io, none, false, [], []⟩

def report (r : Report) : Run World Empty Unit := .modify fun w => { w with log := w.log ++ [r] }

def onAdapter {ε α : Type} (m : Run Adapter ε α) : Run World ε α :=
  .zoom World.adapter (fun w a => { w with adapter := a }) m

end World

/-! ## The shim -/

/-- What a run of `serve` depends on; `fuel` bounds the rounds of each of its loops. -/
structure Setting where
  prim : Primitives
  volume : ValidatedVolume
  os : Os
  serial : Bytes
  fuel : Nat

namespace Setting

variable (S : Setting)

/-- The other threads run: pending callbacks, and the handler of Ctrl+C. -/
def tick : Run World Empty Unit := do
  let now ← .gets World.time
  World.onAdapter (callbacks S.prim S.volume (S.os.callbacks now))
  .modify fun w => { w with time := w.time + 1, quit := w.quit || S.os.ctrlC now }

/-- One call, answered by the oracle and recorded. -/
def ask {α : Type} (answer : Nat → α) (entry : α → SysCall) : Run World Empty α := do
  S.tick
  let now ← .gets World.time
  .modify fun w => { w with calls := w.calls ++ [entry (answer now)] }
  pure (answer now)

def closeHandle (h : Handle) : Run World Empty Unit := S.ask (fun _ => ()) fun _ => .closeHandle h

/-- `SpdStorageUnitGetDispatcherError` -/
def error : Run World Empty Nat := S.ask S.os.dispatcherError .dispatcherError

def lower (c : Nat) : Nat := if 65 ≤ c ∧ c ≤ 90 then c + 32 else c

/-- `_strnicmp(a, b, n)` is 0 -/
def sameText : (n : Nat) → (a b : Bytes) → Bool
  | 0, _, _ => true
  | n + 1, a, b =>
    if lower (a.headD 0).toNat ≠ lower (b.headD 0).toNat then false
    else if a.headD 0 = 0 then true
    else sameText n a.tail b.tail

/-- The descriptor names the serial of this session.  It is read from a buffer of zeros. -/
def belongsToSession : Option (Nat × Bytes) → Bool
  | none => false
  | some (n, d) =>
    let buffer : Store := fun p => d.getD p 0
    let start := leNat (slice buffer 24 4)
    40 ≤ n && n ≤ 4096 && start ≠ 0 && start < n && 36 < n - start &&
      sameText 36 (slice buffer start 36) S.serial && buffer (start + 36) = 0

/-- The session's volume and its root, or an error. -/
abbrev Found := Except Nat (Handle × Name)

/-- One round of the loop of `find_volume`, and whether it is the last. -/
def visitVolume (access : Nat) (name : Name) (found : Found) : Run World Empty (Bool × Found) :=
  if name.getLast? ≠ some 92 then pure (false, found)
  else do
    let h ← S.ask (fun now => if S.os.openVolume now name access then some now else none)
        (.openVolume name access)
    match h with
    | none => pure (false, found)
    | some h => do
      let reply ← S.ask (S.os.queryProperty · h) (.queryProperty h)
      if S.belongsToSession reply then
        match found with
        | .ok (other, _) => do
          S.closeHandle h
          S.closeHandle other
          pure (true, .error Code.dupName)
        | .error _ => pure (false, .ok (h, name))
      else do
        S.closeHandle h
        pure (false, found)

def searchVolumes (access : Nat) : (fuel : Nat) → Name → Found → Run World Empty Found
  | 0, _, _ => .lift .halt
  | fuel + 1, name, found => do
    let (last, found) ← S.visitVolume access name found
    if last then pure found
    else do
      let next ← S.ask S.os.findNext .findNext
      match next with
      | none => pure found
      | some name => searchVolumes access fuel name found

def findVolume (access : Nat) : Run World Empty Found := do
  let first ← S.ask S.os.findFirst .findFirst
  match first with
  | .error e => pure (.error e.code)
  | .ok name => do
    let found ← S.searchVolumes access S.fuel name (.error Code.notReady)
    S.ask (fun _ => ()) fun _ => .findClose
    pure found

/-- `BTRFS` -/
def btrfs : Name := [66, 84, 82, 70, 83]

/-- A BTRFS volume in the mode that is asked for, or the code of what is wrong. -/
def modeCode (readonly : Bool) : Except Failure VolumeInfo → Nat
  | .error e => e.code
  | .ok i =>
    if i.filesystem.map (fun c => lower c.toNat) ≠ btrfs.map (fun c => lower c.toNat) then
      Code.unrecognizedVolume
    else if decide (i.flags &&& 0x80000 ≠ 0) ≠ readonly then Code.writeProtect
    else 0

def volumeReady : Run World Empty Nat := do
  let found ← S.findVolume 0
  match found with
  | .error e => pure e
  | .ok (h, root) => do
    S.closeHandle h
    let info ← S.ask (S.os.volumeInformation · root) (.volumeInformation root)
    pure (modeCode (S.volume.mode = .readOnly) info)

/-- The mode of an open volume; only a writable one will do. -/
def volumeMode (h : Handle) : Run World Empty Nat := do
  let info ← S.ask (S.os.handleInformation · h) (.handleInformation h)
  pure (modeCode false info)

/-- The way back from a locked volume. -/
def undo (h : Handle) (phase error : Nat) : Run World Empty (Nat × Nat) := do
  S.ask (fun _ => ()) fun _ => .unlock h
  S.closeHandle h
  pure (phase, error)

/-- Mode, flush and dismount of a volume that is locked. -/
def commit (h : Handle) : Run World Empty (Nat × Nat) := do
  let mode ← S.volumeMode h
  if mode ≠ 0 then S.undo h 2 mode
  else do
    let flushed ← S.ask (S.os.flushBuffers · h) (.flushBuffers h)
    match flushed with
    | some e => S.undo h 2 e.code
    | none => do
      let dismounted ← S.ask (S.os.dismount · h) (.dismount h)
      match dismounted with
      | some e => S.undo h 3 e.code
      | none => do
        .modify fun w => { w with lockedVolume := some h }
        pure (4, 0)

/-- Phase and code: only a sharing failure in phase 1 is worth another try. -/
def lockAndDismount : Run World Empty (Nat × Nat) := do
  let locked ← .gets World.lockedVolume
  if locked ≠ none then pure (0, 0)
  else do
    -- GENERIC_READ | GENERIC_WRITE
    let found ← S.findVolume 0xc0000000
    match found with
    | .error e => pure (0, e)
    | .ok (h, _) => do
      let mode ← S.volumeMode h
      if mode ≠ 0 then do
        S.closeHandle h
        pure (0, mode)
      else do
        let locked ← S.ask (S.os.lock · h) (.lock h)
        match locked with
        | some e => do
          -- the driver can switch to read-only after a failed commit
          let mode ← S.volumeMode h
          S.closeHandle h
          pure (if mode ≠ 0 then (0, Code.writeProtect) else (1, e.code))
        | none => S.commit h

/-- `wl_close`.  The explicit shutdown aborts the pending request of the transport.  Callbacks are
let in to its end, though the dispatcher makes none once it was waited for. -/
def close : Run World Empty Nat := do
  let before ← S.error
  S.ask (fun _ => ()) fun _ => .shutdownUnit
  S.ask (fun _ => ()) fun _ => .waitDispatcher
  let after ← S.error
  S.ask (fun _ => ()) fun _ => .deleteUnit
  let locked ← .gets World.lockedVolume
  match locked with
  | some h => S.closeHandle h
  | none => pure ()
  S.ask (fun _ => ()) fun _ => .closeGuard
  pure (if before ≠ 0 then before else if after = Code.operationAborted then 0 else after)

end Setting

end Winluks
