import Winluks.Lib.Run
import Winluks.Lib.Store
import Winluks.Error

/-!
# The image file

`Disk` is the backing file as one session sees it, with the plan of what the
operating system will answer (`fault.rs`; an empty plan completes every call in
full) and the list of calls made so far.  A call that fails, unwinds or is cut
by a stop of the machine may leave any bytes in the range it was asked to
write, and nowhere else.

`data` is what reads return.  `durable` is what the last successful sync made
safe, and `unsynced` lists every byte written since.

On top of it, `Image` (`image.rs`) with its two transfer loops.
-/

namespace Winluks

open Lib

inductive ErrorKind where
  | interrupted
  | other
deriving DecidableEq, Repr

/-- What the operating system does with one call. -/
inductive Action where
  /-- transfer at most `n` bytes -/
  | limit (n : Nat)
  /-- report the file length `n` -/
  | report (n : Nat)
  | fail (kind : ErrorKind) (left : Bytes)
  | panic (left : Bytes)
  | halt (left : Bytes)
deriving DecidableEq, Repr

/-- A call that reached the operating system, and how it ended. -/
inductive Call where
  | metadata (r : Outcome ErrorKind Nat)
  | read (offset size : Nat) (r : Outcome ErrorKind Nat)
  | write (offset size : Nat) (r : Outcome ErrorKind Nat)
  | sync (r : Outcome ErrorKind Unit)
deriving DecidableEq, Repr

structure File where
  size : Nat
  data : Store
  durable : Store
  unsynced : List (Nat × UInt8)

/-- The bytes `bs` reach the file at `off`, but are not synced. -/
def File.write (f : File) (off : Nat) (bs : Bytes) : File :=
  { f with
    size := max f.size (off + bs.length)
    data := overlay f.data off bs
    unsynced := f.unsynced ++ bs.zipIdx.map fun e => (off + e.2, e.1) }

def File.sync (f : File) : File := { f with durable := f.data, unsynced := [] }

structure Disk where
  file : File
  plan : List Action
  calls : List Call

namespace Disk

/-- The next answer; `full` when the plan is used up. -/
def next (d : Disk) (full : Action) : Action := d.plan.headD full

def log (d : Disk) (c : Call) : Disk := { d with plan := d.plan.tail, calls := d.calls ++ [c] }

end Disk

/-- `file.metadata()?.len()` -/
def fileLen : Run Disk ErrorKind Nat := fun d =>
  match d.next (.report d.file.size) with
  | .limit _ => (.ok d.file.size, d.log (.metadata (.ok d.file.size)))
  | .report n => (.ok n, d.log (.metadata (.ok n)))
  | .fail kind _ => (.err kind, d.log (.metadata (.err kind)))
  | .panic _ => (.panic, d.log (.metadata .panic))
  | .halt _ => (.halt, d.log (.metadata .halt))

/-- One positional read of at most `size` bytes; a read stops at the end of the file. -/
def readOnce (offset size : Nat) : Run Disk ErrorKind Bytes := fun d =>
  let got (n : Nat) := slice d.file.data offset (min (min n size) (d.file.size - offset))
  match d.next (.limit size) with
  | .limit n => (.ok (got n), d.log (.read offset size (.ok (got n).length)))
  | .report _ => (.ok (got size), d.log (.read offset size (.ok (got size).length)))
  | .fail kind _ => (.err kind, d.log (.read offset size (.err kind)))
  | .panic _ => (.panic, d.log (.read offset size .panic))
  | .halt _ => (.halt, d.log (.read offset size .halt))

/-- One positional write of at most all of `buf`. -/
def writeOnce (offset : Nat) (buf : Bytes) : Run Disk ErrorKind Nat := fun d =>
  let put (bs : Bytes) (r : Outcome ErrorKind Nat) :=
    { d with file := d.file.write offset bs }.log (.write offset buf.length r)
  match d.next (.limit buf.length) with
  | .limit n => (.ok (min n buf.length), put (buf.take n) (.ok (min n buf.length)))
  | .report _ => (.ok buf.length, put buf (.ok buf.length))
  | .fail kind left => (.err kind, put (left.take buf.length) (.err kind))
  | .panic left => (.panic, put (left.take buf.length) .panic)
  | .halt left => (.halt, put (left.take buf.length) .halt)

/-- `file.sync_all()` -/
def syncAll : Run Disk ErrorKind Unit := fun d =>
  match d.next (.limit 0) with
  | .fail kind _ => (.err kind, d.log (.sync (.err kind)))
  | .panic _ => (.panic, d.log (.sync .panic))
  | .halt _ => (.halt, d.log (.sync .halt))
  | _ => (.ok (), { d with file := d.file.sync }.log (.sync (.ok ())))

inductive AccessMode where
  | readOnly
  | readWrite
deriving DecidableEq, Repr

/-- The handle: its length is fixed when the file is opened. -/
structure Image where
  len : Nat
  mode : AccessMode
  len_lt : len < 2 ^ 64
deriving DecidableEq

theorem readOnce_plan {o n : Nat} {d d' : Disk} {r : Outcome ErrorKind Bytes}
    (h : readOnce o n d = (r, d')) : d'.plan = d.plan.tail := by
  simp only [readOnce, Disk.next, Disk.log] at h
  split at h <;> cases h <;> rfl

theorem writeOnce_plan {o : Nat} {b : Bytes} {d d' : Disk} {r : Outcome ErrorKind Nat}
    (h : writeOnce o b d = (r, d')) : d'.plan = d.plan.tail := by
  simp only [writeOnce, Disk.next, Disk.log] at h
  split at h <;> cases h <;> rfl

/-- An interruption is an answer of the plan. -/
theorem plan_ne_nil_of_readOnce_err {o n : Nat} {d d' : Disk} {k : ErrorKind}
    (h : readOnce o n d = (.err k, d')) : d.plan ≠ [] := by
  intro hp
  simp [readOnce, Disk.next, hp] at h

theorem plan_ne_nil_of_writeOnce_err {o : Nat} {b : Bytes} {d d' : Disk} {k : ErrorKind}
    (h : writeOnce o b d = (.err k, d')) : d.plan ≠ [] := by
  intro hp
  simp [writeOnce, Disk.next, hp] at h

theorem length_tail_lt {α : Type} {l : List α} (h : l ≠ []) : l.tail.length < l.length := by
  cases l with
  | nil => exact absurd rfl h
  | cons a l => simp

/-- The loop of `write_all_at`: `done` bytes of `buf` are written. -/
def writeLoop (offset : Nat) (buf : Bytes) (done : Nat) : Run Disk Error Unit := fun d =>
  if done < buf.length then
    match _h : writeOnce (offset + done) (buf.drop done) d with
    | (.err .interrupted, d') => writeLoop offset buf done d'
    | (.err .other, d') => (.err .backendIo, d')
    | (.ok 0, d') => (.err .backendIo, d')
    | (.ok (n + 1), d') => writeLoop offset buf (done + (n + 1)) d'
    | (.panic, d') => (.panic, d')
    | (.halt, d') => (.halt, d')
  else (.ok (), d)
termination_by d => d.plan.length + (buf.length - done)
decreasing_by
  · have := length_tail_lt (plan_ne_nil_of_writeOnce_err _h)
    rw [writeOnce_plan _h]
    omega
  · rw [writeOnce_plan _h, List.length_tail]
    omega

/-- The loop of `read_exact_at`: `got` is the part of the buffer already filled. -/
def readLoop (offset size : Nat) (got : Bytes) : Run Disk Error Bytes := fun d =>
  if got.length < size then
    match _h : readOnce (offset + got.length) (size - got.length) d with
    | (.err .interrupted, d') => readLoop offset size got d'
    | (.err .other, d') => (.err .backendIo, d')
    | (.ok [], d') => (.err .backendIo, d')
    | (.ok (b :: bs), d') => readLoop offset size (got ++ b :: bs) d'
    | (.panic, d') => (.panic, d')
    | (.halt, d') => (.halt, d')
  else (.ok got, d)
termination_by d => d.plan.length + (size - got.length)
decreasing_by
  · have := length_tail_lt (plan_ne_nil_of_readOnce_err _h)
    rw [readOnce_plan _h]
    omega
  · rw [readOnce_plan _h, List.length_tail, List.length_append, List.length_cons]
    omega

namespace Image

variable (img : Image)

/-- `self.file.metadata()?.len() != self.len` is an error. -/
def checkLen : Run Disk Error Unit := do
  let n ← fileLen.mapErr fun _ => .backendIo
  .lift (.failIf (n ≠ img.len) .backendIo)

def writeAllAt (offset : Nat) (buf : Bytes) : Run Disk Error Unit := do
  .lift (.failIf (img.mode ≠ .readWrite) .readOnly)
  .lift (.failIf (img.len < offset ∨ img.len - offset < buf.length) .invalidRange)
  img.checkLen
  writeLoop offset buf 0

def sync : Run Disk Error Unit := do
  img.checkLen
  if img.mode = .readWrite then syncAll.mapErr fun _ => .backendIo else pure ()

def readExactAt (offset size : Nat) : Run Disk Error Bytes := do
  .lift (.failIf (img.len < offset ∨ img.len - offset < size) .invalidRange)
  img.checkLen
  readLoop offset size []

end Image

end Winluks
