import Winluks.Image
import Winluks.Crypto
import Winluks.Metadata
import Winluks.Probe

/-!
# The unlocked volume

`volume.rs`.  A session is an unlocked volume together with what changes while
it is open: the file, whether the I/O mutex is poisoned, and the fault flag.
Every operation takes the mutex, looks at the flag, and then works; unwinding
with the mutex held poisons it.
-/

namespace Winluks

open Lib

def maxTransfer : Nat := 1024 * 1024

structure UnlockedVolume where
  image : Image
  offset : Nat
  len : Nat
  key : VolumeKey
deriving DecidableEq

/-- The state of a session that its operations share. -/
structure Io where
  disk : Disk
  poisoned : Bool
  faulted : Bool

namespace Io

/-- Work on the file only. -/
def onDisk {α : Type} (m : Run Disk Error α) : Run Io Error α :=
  .zoom Io.disk (fun s d => { s with disk := d }) m

/-- Unwinding drops the guard, which poisons the mutex. -/
def dropGuard {α : Type} : Outcome Error α × Io → Outcome Error α × Io
  | (.panic, s) => (.panic, { s with poisoned := true })
  | r => r

/-- `self.io.lock()`, held while `m` runs. -/
def lock {α : Type} (m : Run Io Error α) : Run Io Error α := fun s =>
  if s.poisoned then (.err .writebackFailed, { s with faulted := true })
  else dropGuard (m s)

/-- Refuse to go on in a faulted session. -/
def notFaulted : Run Io Error Unit := do
  let faulted ← .gets Io.faulted
  .lift (.failIf (faulted = true) .writebackFailed)

/-- A backend failure faults the session. -/
def orFault {α : Type} (m : Run Disk Error α) : Run Io Error α := fun s =>
  match m s.disk with
  | (.err _, d) => (.err .writebackFailed, { s with disk := d, faulted := true })
  | (o, d) => (o, { s with disk := d })

end Io

def checkedRange (total offset len : Nat) : Outcome Error Unit :=
  .failIf (maxTransfer < len ∨ total < offset ∨ total - offset < len) .invalidRange

variable (prim : Primitives) (ext : Parsers)

namespace UnlockedVolume

/-- The metadata is read from the image that the volume will use. -/
def unlock (image : Image) (keyslot : Nat) (password : Bytes) : Run Disk Error UnlockedVolume := do
  let m ← Metadata.read prim ext image
  .lift (.failIf (4096 < password.length) .resourceLimit)
  .lift (.failIf (Metadata.utf8 password = none) .unlockFailed)
  let s ← .lift (m.slot keyslot)
  let derived ← .lift (s.kdf.derive prim password s.areaKeySize)
  let size ← .lift (trapMul 64 s.keySize 4000)
  let encrypted ← image.readExactAt s.areaOffset size
  let af ← .lift (decryptSectors prim derived 0 encrypted)
  let key ← .lift (afMerge prim af s.keySize s.afHash)
  let digest ← .lift (s.digestKdf.derive prim key s.digest.length)
  .lift (.failIf (digest ≠ s.digest) .unlockFailed)
  let key ← .lift (VolumeKey.new prim key)
  pure ⟨image, m.offset, m.length, key⟩

variable (v : UnlockedVolume)

/-- A failed read faults a writable session; a read-only one passes the error on. -/
def readEncrypted (offset size : Nat) : Run Io Error Bytes :=
  if v.image.mode = .readWrite then Io.orFault (v.image.readExactAt offset size)
  else Io.onDisk (v.image.readExactAt offset size)

def readAt (offset len : Nat) : Run Io Error Bytes := Io.lock do
  Io.notFaulted
  .lift (checkedRange v.len offset len)
  if len = 0 then pure []
  else do
    let first := offset / 512 * 512
    let stop ← .lift (.ofOption .invalidRange
        ((checkedAdd 64 offset len).bind (checkedAdd 64 · 511)))
    let last := stop / 512 * 512
    -- at most one extra sector for a read that is not aligned
    .lift (.failIf (maxTransfer < last - first) .invalidRange)
    let target ← .lift (.ofOption .invalidRange (checkedAdd 64 v.offset first))
    let encrypted ← v.readEncrypted target (last - first)
    let plain ← .lift (decryptSectors prim v.key.bytes (first / 512) encrypted)
    pure (plain.extract (offset - first) (offset - first + len))

end UnlockedVolume

structure ValidatedVolume where
  volume : UnlockedVolume
  filesystem : Filesystem
deriving DecidableEq

def UnlockedVolume.validate (v : UnlockedVolume) (crc32c : Bytes → UInt32)
    (filesystem : Filesystem) :
    Run Io Error ValidatedVolume := do
  Probe.check crc32c v.len filesystem (v.readAt prim)
  pure ⟨v, filesystem⟩

namespace ValidatedVolume

variable (v : ValidatedVolume)

def mode : AccessMode := v.volume.image.mode
def len : Nat := v.volume.len

def markFaulted : Run Io Error Unit := .modify fun s => { s with faulted := true }

/-- An acknowledged write is in the file and synced. -/
def writeAt (offset : Nat) (plaintext : Bytes) : Run Io Error Unit := do
  .lift (.failIf (v.mode ≠ .readWrite) .readOnly)
  .lift (checkedRange v.len offset plaintext.length)
  .lift (.failIf (offset % 512 ≠ 0 ∨ plaintext.length % 512 ≠ 0) .invalidRange)
  Io.lock do
    Io.notFaulted
    if plaintext = [] then pure ()
    else do
      let encrypted ← .lift (encryptSectors prim v.volume.key.bytes (offset / 512) plaintext)
      let target ← .lift (.ofOption .invalidRange (checkedAdd 64 v.volume.offset offset))
      Io.orFault do
        v.volume.image.writeAllAt target encrypted
        v.volume.image.sync

def flush : Run Io Error Unit := Io.lock do
  Io.notFaulted
  Io.orFault v.volume.image.sync

def readAt (offset len : Nat) : Run Io Error Bytes := v.volume.readAt prim offset len

end ValidatedVolume

end Winluks
