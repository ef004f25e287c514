import Winluks.Lib.Interleave
import Winluks.Callbacks

/-!
# Requests on many threads

The dispatcher calls the callbacks from several threads, while the thread of the
session shuts the adapter down.  Here a callback is a sequence of atomic steps:
it looks at the stop flag, takes the I/O mutex, looks at the fault flag, makes
its calls to the file one by one, sets the fault flag or not, lets go of the
mutex, and returns; unwinding goes through the handler of the callback.
`Threads.Step` is one step of one party.
-/

namespace Winluks

open Lib

/-- What a request does while it holds the mutex. -/
inductive Job where
  | read (offset len : Nat)
  | write (offset : Nat) (bytes : Bytes)
  | flush
deriving DecidableEq

/-! ## Backend calls -/

/-- A point before a backend call, with the variables that are alive there. -/
inductive Work where
  | readLen (target size : Nat)
  | reading (target size : Nat) (got : Bytes)
  | writeLen (target : Nat) (buf : Bytes)
  | writing (target : Nat) (buf : Bytes) (done : Nat)
  | syncLen
  | syncing
  | finished (bytes : Bytes)
deriving DecidableEq

namespace Work

variable (img : Image)

/-- From one point to the next, with at most one call. -/
def step : Work → Run Disk Error Work
  | .readLen target size => do
    .lift (.failIf (img.len < target ∨ img.len - target < size) .invalidRange)
    img.checkLen
    pure (.reading target size [])
  | .reading target size got => fun d =>
    if got.length < size then
      match readOnce (target + got.length) (size - got.length) d with
      | (.err .interrupted, d) => (.ok (.reading target size got), d)
      | (.err .other, d) => (.err .backendIo, d)
      | (.ok [], d) => (.err .backendIo, d)
      | (.ok (b :: bs), d) => (.ok (.reading target size (got ++ b :: bs)), d)
      | (.panic, d) => (.panic, d)
      | (.halt, d) => (.halt, d)
    else (.ok (.finished got), d)
  | .writeLen target buf => do
    .lift (.failIf (img.mode ≠ .readWrite) .readOnly)
    .lift (.failIf (img.len < target ∨ img.len - target < buf.length) .invalidRange)
    img.checkLen
    pure (.writing target buf 0)
  | .writing target buf done => fun d =>
    if done < buf.length then
      match writeOnce (target + done) (buf.drop done) d with
      | (.err .interrupted, d) => (.ok (.writing target buf done), d)
      | (.err .other, d) => (.err .backendIo, d)
      | (.ok 0, d) => (.err .backendIo, d)
      | (.ok (n + 1), d) => (.ok (.writing target buf (done + (n + 1))), d)
      | (.panic, d) => (.panic, d)
      | (.halt, d) => (.halt, d)
    else (.ok .syncLen, d)
  | .syncLen => do
    img.checkLen
    pure (if img.mode = .readWrite then .syncing else .finished [])
  | .syncing => do
    syncAll.mapErr fun _ => .backendIo
    pure (.finished [])
  | .finished bytes => pure (.finished bytes)

/-- The ways in which a step goes on. -/
inductive Goes (d d' : Disk) : Work → Work → Prop
  | readLen {target size : Nat} (hlen : img.checkLen d = (.ok (), d')) :
      Goes d d' (.readLen target size) (.reading target size [])
  | readAgain {target size : Nat} {got : Bytes} (hlt : got.length < size)
      (hread : readOnce (target + got.length) (size - got.length) d = (.err .interrupted, d')) :
      Goes d d' (.reading target size got) (.reading target size got)
  | readMore {target size : Nat} {got : Bytes} {b : UInt8} {bs : Bytes} (hlt : got.length < size)
      (hread : readOnce (target + got.length) (size - got.length) d = (.ok (b :: bs), d')) :
      Goes d d' (.reading target size got) (.reading target size (got ++ b :: bs))
  | readDone {target size : Nat} {got : Bytes} (hd : d' = d) :
      Goes d d' (.reading target size got) (.finished got)
  | writeLen {target : Nat} {buf : Bytes} (hlen : img.checkLen d = (.ok (), d')) :
      Goes d d' (.writeLen target buf) (.writing target buf 0)
  | writeAgain {target : Nat} {buf : Bytes} {done : Nat} (hlt : done < buf.length)
      (hwrite : writeOnce (target + done) (buf.drop done) d = (.err .interrupted, d')) :
      Goes d d' (.writing target buf done) (.writing target buf done)
  | writeMore {target : Nat} {buf : Bytes} {done n : Nat} (hlt : done < buf.length)
      (hwrite : writeOnce (target + done) (buf.drop done) d = (.ok (n + 1), d')) :
      Goes d d' (.writing target buf done) (.writing target buf (done + (n + 1)))
  | writeDone {target : Nat} {buf : Bytes} {done : Nat} (hge : ¬ done < buf.length) (hd : d' = d) :
      Goes d d' (.writing target buf done) .syncLen
  | syncLen {w : Work} (hlen : img.checkLen d = (.ok (), d'))
      (hw : w = if img.mode = .readWrite then .syncing else .finished []) : Goes d d' .syncLen w
  | syncing (hsync : syncAll d = (.ok (), d')) : Goes d d' .syncing (.finished [])
  | finished {bytes : Bytes} (hd : d' = d) : Goes d d' (.finished bytes) (.finished bytes)

variable {img} {w w' : Work} {d d' : Disk}

theorem goes_of_step (h : w.step img d = (.ok w', d')) : Goes img d d' w w' := by
  cases w with
  | readLen target size =>
    simp only [step, Run.bind_run_eq_ok, Run.lift_run, Prod.mk.injEq] at h
    obtain ⟨_, _, ⟨-, rfl⟩, _, d₁, hlen, hret⟩ := h
    cases hret
    exact .readLen hlen
  | reading target size got =>
    by_cases hlt : got.length < size
    · simp only [step, if_pos hlt] at h
      rcases hread : readOnce (target + got.length) (size - got.length) d with
        ⟨(_ | _) | (_ | _) | _ | _, d₁⟩ <;> rw [hread] at h <;> cases h
      · exact .readMore hlt hread
      · exact .readAgain hlt hread
    · simp only [step, if_neg hlt] at h
      cases h
      exact .readDone rfl
  | writeLen target buf =>
    simp only [step, Run.bind_run_eq_ok, Run.lift_run, Prod.mk.injEq] at h
    obtain ⟨_, _, ⟨-, rfl⟩, _, _, ⟨-, rfl⟩, _, d₁, hlen, hret⟩ := h
    cases hret
    exact .writeLen hlen
  | writing target buf done =>
    by_cases hlt : done < buf.length
    · simp only [step, if_pos hlt] at h
      rcases hwrite : writeOnce (target + done) (buf.drop done) d with
        ⟨(_ | _) | (_ | _) | _ | _, d₁⟩ <;>
        rw [hwrite] at h <;> cases h
      · exact .writeMore hlt hwrite
      · exact .writeAgain hlt hwrite
    · simp only [step, if_neg hlt] at h
      cases h
      exact .writeDone hlt rfl
  | syncLen =>
    simp only [step, Run.bind_run_eq_ok] at h
    obtain ⟨_, d₁, hlen, hret⟩ := h
    cases hret
    exact .syncLen hlen rfl
  | syncing =>
    simp only [step, Run.bind_run_eq_ok] at h
    obtain ⟨_, d₁, hsync, hret⟩ := h
    cases hret
    refine .syncing ?_
    rcases hs : syncAll d with ⟨_ | _ | _ | _, d₁⟩ <;> simp only [Run.mapErr, hs] at hsync <;>
      cases hsync
    rfl
  | finished bytes =>
    cases h
    exact .finished rfl

end Work

/-! ## The parts of a request -/

namespace ValidatedVolume

variable (prim : Primitives) (v : ValidatedVolume)

/-- Between the fault flag and the first backend call; `none` when nothing is to be done. -/
def prepare : Job → Outcome Error (Option Work)
  | .read offset len => do
    checkedRange v.len offset len
    if len = 0 then pure none
    else do
      let first := offset / 512 * 512
      let stop ← .ofOption .invalidRange ((checkedAdd 64 offset len).bind (checkedAdd 64 · 511))
      let last := stop / 512 * 512
      .failIf (maxTransfer < last - first) .invalidRange
      let target ← .ofOption .invalidRange (checkedAdd 64 v.volume.offset first)
      pure (some (.readLen target (last - first)))
  | .write offset bytes =>
    if bytes = [] then pure none
    else do
      let encrypted ← encryptSectors prim v.volume.key.bytes (offset / 512) bytes
      let target ← .ofOption .invalidRange (checkedAdd 64 v.volume.offset offset)
      pure (some (.writeLen target encrypted))
  | .flush => pure (some .syncLen)

/-- After the last backend call. -/
def conclude : Job → Bytes → Outcome Error Unit
  | .read offset _, encrypted => do
    let _ ← decryptSectors prim v.volume.key.bytes (offset / 512 * 512 / 512) encrypted
    pure ()
  | _, _ => pure ()

/-- A backend failure faults the session, except that of a read in a read-only one. -/
def faults : Job → Bool
  | .read _ _ => v.mode = .readWrite
  | _ => true

end ValidatedVolume

/-- Refused by the callback itself. -/
def Callback.refused : Callback → Bool
  | .read _ count => 2048 < count
  | .write _ count _ => 2048 < count
  | .control _ _ _ => false

def Adapter.arriveFlush : Run Adapter Error Job := do
  .modify fun a => { a with flushes := bump a.flushes }
  pure .flush

/-- A request as far as the mutex: the stop flag, and all that is checked without holding it. -/
def Adapter.arrive (v : ValidatedVolume) : Callback → Run Adapter Error Job
  | .read lba count => do
    notStopping
    let o ← .lift (.ofOption .invalidRange (checkedMul 64 lba 512))
    let n ← .lift (.ofOption .invalidRange (checkedMul 64 count 512))
    .modify fun a => { a with reads := bump a.reads }
    pure (.read o n)
  | .write lba count buffer => do
    let bytes := slice buffer 0 (count * 512)
    .modify fun a => { a with writeAttempts := bump a.writeAttempts }
    .lift (.failIf (v.mode = .readOnly) .readOnly)
    notStopping
    let offset ← .lift (.ofOption .invalidRange (checkedMul 64 lba 512))
    .lift (.failIf (v.mode ≠ .readWrite) .readOnly)
    .lift (checkedRange v.len offset bytes.length)
    .lift (.failIf (offset % 512 ≠ 0 ∨ bytes.length % 512 ≠ 0) .invalidRange)
    pure (.write offset bytes)
  | .control op lba count =>
    if op = 2 then do
      notStopping
      let o ← .lift (.ofOption .invalidRange (checkedMul 64 lba 512))
      if count = 0 then
        if o ≤ v.len then arriveFlush else .throw .invalidRange
      else if v.len < o ∨ v.len - o < count * 512 then .throw .invalidRange
      else arriveFlush
    else if op = 3 then do
      unmap v
      pure .flush
    else .throw .invalidRange

/-! ## Places -/

/-- Where a party is: on the way through a callback, or, after its flush, through `shutdown`. -/
inductive Place where
  | idle
  | entered
  | acquire (job : Job)
  | check (job : Job)
  | working (job : Job) (w : Work)
  | fault
  | release (o : Outcome Error Unit)
  | handler
  | leaving (status : Nat)
  | returned (status : Nat)
  | flushed (syncFailed : Bool)
  | stopped (syncFailed : Bool)
  | drained (syncFailed : Bool) (transportError : Nat)
  | verdict (failed : Bool)
deriving DecidableEq

namespace Place

/-- Between the lock and the drop of its guard. -/
def Inside : Place → Prop
  | .check _ => True
  | .working _ _ => True
  | .fault => True
  | .release _ => True
  | _ => False

/-- A backend failure or a panic that is still to be marked. -/
def Hit : Place → Prop
  | .fault => True
  | .release .panic => True
  | .handler => True
  | _ => False

/-- Not entered yet, or returned. -/
def Settled : Place → Prop
  | .idle => True
  | .returned _ => True
  | _ => False

/-- The drain is over. -/
def Drained : Place → Prop
  | .drained _ _ => True
  | .verdict _ => True
  | _ => False

/-- After the adapter's part; a machine that stopped goes nowhere. -/
def settle : Outcome Error Unit → Option Place
  | .ok () => some (.leaving 0)
  | .err e => some (.leaving (code e))
  | .panic => some .handler
  | .halt => none

def arrived : Outcome Error Job → Option Place
  | .ok job => some (.acquire job)
  | .err e => some (.leaving (code e))
  | .panic => some .handler
  | .halt => none

end Place

section
variable (prim : Primitives) (v : ValidatedVolume)

/-- With the mutex: the fault flag, and what comes before the first backend call. -/
def Place.checked (job : Job) (faulted : Bool) : Option Place :=
  if faulted then some (.release (.err .writebackFailed))
  else match v.prepare prim job with
    | .ok none => some (.release (.ok ()))
    | .ok (some w) => some (.working job w)
    | .err e => some (.release (.err e))
    | .panic => some (.release .panic)
    | .halt => none

/-- After a backend call. -/
def Place.worked (job : Job) : Outcome Error Work → Option Place
  | .ok (.finished bytes) => some (.release (v.conclude prim job bytes))
  | .ok w => some (.working job w)
  | .err e => some (if v.faults job then .fault else .release (.err e))
  | .panic => some (.release .panic)
  | .halt => none

end

/-! ## The system -/

inductive Party (ι : Type) where
  | shutdown
  | request (i : ι)
deriving DecidableEq

/-- What the parties share: the adapter, and who holds its mutex. -/
structure Shared (ι : Type) where
  adapter : Adapter
  owner : Option (Party ι)

namespace Shared

variable {ι : Type} (g : Shared ι)

def disk : Disk := g.adapter.io.disk
def faulted : Bool := g.adapter.io.faulted
def stopping : Bool := g.adapter.stopping

def setDisk (d : Disk) : Shared ι :=
  { g with adapter := { g.adapter with io := { g.adapter.io with disk := d } } }

def setFaulted : Shared ι := { g with adapter := g.adapter.fault }

def setStopping : Shared ι := { g with adapter := { g.adapter with stopping := true } }

/-- The guard is dropped; while unwinding, it poisons the mutex. -/
def drop {α : Type} (o : Outcome Error α) : Shared ι where
  adapter := { g.adapter with io := (Io.dropGuard (o, g.adapter.io)).2 }
  owner := none

end Shared

/-- A session with any number of requests. -/
structure Threads (ι : Type) where
  prim : Primitives
  volume : ValidatedVolume
  request : ι → Callback

namespace Threads

abbrev State (ι : Type) := Parties (Party ι) Place (Shared ι)

variable {ι : Type} [DecidableEq ι] (T : Threads ι)

/-- The shutdown begins with `flush(0, 0)`. -/
def callback : Party ι → Callback
  | .shutdown => .control 2 0 0
  | .request i => T.request i

/-- One step of one party.  The shutdown is not inside a callback, so unwinding ends it at its
handler. -/
inductive Step : Party ι → State ι → State ι → Prop
  | enter {s} (p) (hp : s.place p = .idle) (hdrained : ¬ (s.place .shutdown).Drained) :
      Step p s (s.move p .entered s.shared)
  | refuse {s} (p) (hp : s.place p = .entered) (hrefused : (T.callback p).refused = true) :
      Step p s (s.move p (.leaving 2) s.shared)
  | arrive {s o a l} (p) (hp : s.place p = .entered) (hrefused : (T.callback p).refused = false)
      (hrun : Adapter.arrive T.volume (T.callback p) s.shared.adapter = (o, a))
      (hl : Place.arrived o = some l) :
      Step p s (s.move p l { s.shared with adapter := a })
  | acquire {s job} (p) (hp : s.place p = .acquire job) (hfree : s.shared.owner = none) :
      Step p s (s.move p (if s.shared.adapter.io.poisoned then .fault else .check job)
        { s.shared with owner := some p })
  | check {s job l} (p) (hp : s.place p = .check job)
      (hl : Place.checked T.prim T.volume job s.shared.faulted = some l) :
      Step p s (s.move p l s.shared)
  | work {s job w o d l} (p) (hp : s.place p = .working job w)
      (hrun : w.step T.volume.volume.image s.shared.disk = (o, d))
      (hl : Place.worked T.prim T.volume job o = some l) :
      Step p s (s.move p l (s.shared.setDisk d))
  | fault {s} (p) (hp : s.place p = .fault) :
      Step p s (s.move p (.release (.err .writebackFailed)) s.shared.setFaulted)
  | release {s o l} (p) (hp : s.place p = .release o) (hl : Place.settle o = some l) :
      Step p s (s.move p l (s.shared.drop o))
  | handle {s} (i) (hp : s.place (.request i) = .handler) :
      Step (.request i) s (s.move (.request i) (.leaving 5) s.shared.setFaulted)
  | leave {s status} (i) (hp : s.place (.request i) = .leaving status) :
      Step (.request i) s (s.move (.request i) (.returned status) s.shared)
  | flushed {s status} (hp : s.place .shutdown = .leaving status) :
      Step .shutdown s (s.move .shutdown (.flushed (status ≠ 0)) s.shared)
  | stop {s syncFailed} (hp : s.place .shutdown = .flushed syncFailed) :
      Step .shutdown s (s.move .shutdown (.stopped syncFailed) s.shared.setStopping)
  /-- `drain()` returns, with any error of the transport. -/
  | drain {s syncFailed} (transportError) (hp : s.place .shutdown = .stopped syncFailed)
      (hsettled : ∀ i, (s.place (.request i)).Settled) :
      Step .shutdown s (s.move .shutdown (.drained syncFailed transportError) s.shared)
  | verdict {s syncFailed transportError}
    (hp : s.place .shutdown = .drained syncFailed transportError) :
      Step .shutdown s
        (s.move .shutdown (.verdict (syncFailed || transportError ≠ 0 || s.shared.faulted))
          s.shared)

/-- A session that starts to serve. -/
structure Start (s : State ι) : Prop where
  running : s.shared.stopping = false
  free : s.shared.owner = none
  idle : ∀ p, s.place p = .idle

end Threads

end Winluks
