import Winluks.Clock
import Winluks.Lookup
import Winluks.Serve

/-!
# The resources of a native session

`wl_create` and `wl_close` in full, with every call they make, around any number
of calls of `wl_volume_ready` and `wl_lock_and_dismount`.  The trace of a session
is posted to a `Ledger`: what is allocated, published, open, searched and locked.
A call on something that is not held is a misuse, so to post a whole trace is to
release nothing twice, and empty books at its end are to leak nothing.  What a
search does to them is what it holds (`Lookup.Held`), laid over what was held
before.

`session_resources`: after each call the only open volume is `locked_volume`, and
it is locked; the last call releases everything in order.
-/

namespace Winluks

open Lib

/-! ## Creating and closing a session -/

namespace Code

def notEnoughMemory : Nat := 8
def genFailure : Nat := 31
def invalidParameter : Nat := 87
def busy : Nat := 170
def alreadyExists : Nat := 183

end Code

/-- The answer of `CreateMutexW`: a new mutex, a handle of the one that exists, or none. -/
inductive MutexAnswer where
  | created
  | existing
  | failed (e : Failure)

/-- A call of a whole session. -/
inductive NativeCall where
  | heapAlloc (ok : Bool)
  | createMutex (r : MutexAnswer)
  | createGuid (ok : Bool)
  | createUnit (r : Option Failure)
  | startDispatcher (r : Option Failure)
  | sys (c : SysCall)
  | heapFree

/-- The answers to the calls of `wl_create`. -/
structure CreateAnswers where
  heapAlloc : Bool
  createMutex : MutexAnswer
  createGuid : Bool
  createUnit : Option Failure
  startDispatcher : Option Failure

/-- The world, and the calls of the session in order. -/
structure Native where
  world : World
  calls : List NativeCall

namespace Native

def call (c : NativeCall) : Run Native Empty Unit :=
  .modify fun s => { s with calls := s.calls ++ [c] }

/-- A part of the session; its calls are appended. -/
def onWorld {α : Type} (m : Run World Empty α) : Run Native Empty α := fun s =>
  ((m s.world).1, ⟨(m s.world).2,
    s.calls ++ ((m s.world).2.calls.drop s.world.calls.length).map .sys⟩)

/-- `wl_create`; the context and the callbacks are not null.  The block is zeroed, `locked_volume`
with it. -/
def create (A : CreateAnswers) (blocks : Nat) : Run Native Empty Nat :=
  if blocks = 0 then pure Code.invalidParameter
  else do
    call (.heapAlloc A.heapAlloc)
    if A.heapAlloc = false then pure Code.notEnoughMemory
    else do
      .modify fun s => { s with world := { s.world with lockedVolume := none } }
      call (.createMutex A.createMutex)
      match A.createMutex with
      | .failed e => do
        call .heapFree
        pure (if e.code = Code.alreadyExists then Code.busy else e.code)
      | .existing => do
        call (.sys .closeGuard)
        call .heapFree
        pure Code.busy
      | .created => do
        call (.createGuid A.createGuid)
        if A.createGuid = false then do
          call (.sys .closeGuard)
          call .heapFree
          pure Code.genFailure
        else do
          call (.createUnit A.createUnit)
          match A.createUnit with
          | some e => do
            call (.sys .closeGuard)
            call .heapFree
            pure e.code
          | none => do
            call (.startDispatcher A.startDispatcher)
            match A.startDispatcher with
            | some e => do
              call (.sys .shutdownUnit)
              call (.sys .waitDispatcher)
              call (.sys .deleteUnit)
              call (.sys .closeGuard)
              call .heapFree
              pure e.code
            | none => pure 0

/-- What may be called between `wl_create` and `wl_close`. -/
inductive Use where
  | volumeReady
  | lockAndDismount
deriving DecidableEq

variable (S : Setting)

/-- The code of a call. -/
def use : Use → Run Native Empty Nat
  | .volumeReady => onWorld S.volumeReady
  | .lockAndDismount => do
    let (_, code) ← onWorld S.lockAndDismount
    pure code

def useAll : List Use → Run Native Empty (List (Use × Nat))
  | [] => pure []
  | u :: rest => do
    let code ← use S u
    let codes ← useAll rest
    pure ((u, code) :: codes)

/-- `wl_close` of a session -/
def close : Run Native Empty Nat := do
  let code ← onWorld S.close
  call .heapFree
  pure code

end Native

/-! ## The books -/

/-- The virtual disk, from `SpdStorageUnitCreate` to `SpdStorageUnitDelete`. -/
inductive UnitState where
  | absent
  | created
  | dispatching
  | shutdown
  | drained
deriving DecidableEq

/-- What a session holds. -/
structure Ledger where
  block : Bool
  guard : Bool
  unit : UnitState
  volumes : List Handle
  locks : List Handle
  searches : Nat
deriving DecidableEq

namespace Ledger

def empty : Ledger := ⟨false, false, .absent, [], [], 0⟩

/-- A handle that was opened. -/
def opened (L : Ledger) (h : Handle) : Ledger := { L with volumes := h :: L.volumes }

/-- A volume that was locked. -/
def locked (L : Ledger) (h : Handle) : Ledger := { L with locks := h :: L.locks }

/-- Closing a handle releases its lock. -/
def closed (L : Ledger) (h : Handle) : Ledger :=
  { L with volumes := L.volumes.erase h, locks := L.locks.erase h }

/-- A search that was begun. -/
def searching (L : Ledger) : Ledger := { L with searches := L.searches + 1 }

/-- Go on if the resource is held, or free, as the call requires. -/
def require (p : Prop) [Decidable p] (L : Ledger) : Option Ledger := if p then some L else none

/-- One call of a session that is created; `unlocks` says for which handles FSCTL_UNLOCK_VOLUME
succeeds. -/
def stepSys (unlocks : Handle → Bool) (L : Ledger) : SysCall → Option Ledger
  | .findFirst (.ok _) => some L.searching
  | .findFirst (.error _) => some L
  | .findNext _ => require (0 < L.searches) L
  | .findClose => require (0 < L.searches) { L with searches := L.searches - 1 }
  | .openVolume _ _ (some h) => require (h ∉ L.volumes) (L.opened h)
  | .openVolume _ _ none => some L
  | .queryProperty h _ => require (h ∈ L.volumes) L
  | .volumeInformation _ _ => some L
  | .handleInformation h _ => require (h ∈ L.volumes) L
  | .lock h none => require (h ∈ L.volumes ∧ h ∉ L.locks) (L.locked h)
  | .lock h (some _) => require (h ∈ L.volumes) L
  | .unlock h => require (h ∈ L.volumes ∧ h ∈ L.locks)
      (if unlocks h then { L with locks := L.locks.erase h } else L)
  | .flushBuffers h _ => require (h ∈ L.volumes) L
  | .dismount h _ => require (h ∈ L.volumes ∧ h ∈ L.locks) L
  | .closeHandle h => require (h ∈ L.volumes) (L.closed h)
  | .dispatcherError _ => require (L.unit ≠ .absent) L
  | .shutdownUnit => require (L.unit = .created ∨ L.unit = .dispatching)
      { L with unit := .shutdown }
  | .waitDispatcher => require (L.unit = .shutdown) { L with unit := .drained }
  | .deleteUnit => require (L.unit = .drained) { L with unit := .absent }
  | .closeGuard => require (L.guard = true ∧ L.unit = .absent) { L with guard := false }

theorem require_pos {p : Prop} [Decidable p] (h : p) (L : Ledger) : require p L = some L := if_pos h

def step (unlocks : Handle → Bool) (L : Ledger) : NativeCall → Option Ledger
  | .heapAlloc ok => require (L.block = false) { L with block := ok }
  | .createMutex (.failed _) => some L
  | .createMutex _ => require (L.guard = false) { L with guard := true }
  | .createGuid _ => some L
  | .createUnit none => require (L.guard = true ∧ L.unit = .absent) { L with unit := .created }
  | .createUnit (some _) => some L
  | .startDispatcher none => require (L.unit = .created) { L with unit := .dispatching }
  | .startDispatcher (some _) => require (L.unit = .created) L
  | .sys c => L.stepSys unlocks c
  -- the block is the last to go
  | .heapFree => require (L.block = true ∧ { L with block := false } = empty)
      { L with block := false }

/-- The books of a trace that begins with nothing. -/
def ofTrace (unlocks : Handle → Bool) (calls : List NativeCall) : Option Ledger :=
  post (step unlocks) empty calls

/-- The books of a session that is created, with `v` for `locked_volume`. -/
def held (v : Option Handle) : Ledger := ⟨true, true, .dispatching, v.toList, v.toList, 0⟩

/-! ### A search in the books -/

variable {unlocks : Handle → Bool} {B : Ledger} {t t' : Nat}

/-- The books of a session while a search holds `K`. -/
def during (B : Ledger) (K : Lookup.Held) : Ledger :=
  { B with volumes := K.volumes ++ B.volumes, searches := B.searches + if K.searching then 1
    else 0 }

/-- What the search holds is its own, and nothing that is open is from the future. -/
structure Apart (B : Ledger) (t : Nat) (K : Lookup.Held) : Prop where
  own : ∀ h ∈ K.volumes, h ∉ B.volumes
  past : ∀ h ∈ K.volumes ++ B.volumes, h ≤ t

/-- **A call of a search**, in the books of the session. -/
theorem stepSys_during (hB : B.locks ⊆ B.volumes) {K K' : Lookup.Held} {c : SysCall}
    (h : K.step c = some K') (hown : ∀ h ∈ K.volumes, h ∉ B.volumes)
    (hnew : ∀ h, Lookup.opens h c = true → h ∉ K.volumes ++ B.volumes) :
    (B.during K).stepSys unlocks c = some (B.during K') := by
  cases c with
  | findFirst r => cases r with
    | error e => cases h
    | ok name =>
      obtain ⟨hs, ⟨⟩⟩ := Option.ite_none_right_eq_some.mp h
      simp [during, stepSys, Ledger.searching, hs]
  | findNext r =>
    obtain ⟨hs, ⟨⟩⟩ := Option.ite_none_right_eq_some.mp h
    exact require_pos (by simp [during, hs]) _
  | findClose =>
    obtain ⟨hs, ⟨⟩⟩ := Option.ite_none_right_eq_some.mp h
    simp [during, stepSys, require, hs]
  | openVolume name access r => cases r with
    | none =>
      cases h
      rfl
    | some handle =>
      cases h
      exact require_pos (hnew handle (by simp [Lookup.opens])) _
  | queryProperty handle r =>
    obtain ⟨hmem, ⟨⟩⟩ := Option.ite_none_right_eq_some.mp h
    exact require_pos (List.mem_append_left _ hmem) _
  | closeHandle handle =>
    obtain ⟨hmem, ⟨⟩⟩ := Option.ite_none_right_eq_some.mp h
    refine (require_pos (List.mem_append_left _ hmem) _).trans (congrArg some ?_)
    have hlock : handle ∉ B.locks := fun hl => hown handle hmem (hB hl)
    simp [during, closed, List.erase_append_left _ hmem, List.erase_of_not_mem hlock]
  | _ => cases h

/-- **The calls of a search**, in the books of the session. -/
theorem post_during (hB : B.locks ⊆ B.volumes) {K K' : Lookup.Held} {calls : List SysCall}
    (hfresh : Lookup.Fresh t' t calls) (hpost : post Lookup.Held.step K calls = some K')
    (hapart : B.Apart t K) :
    post (stepSys unlocks) (B.during K) calls = some (B.during K') ∧ B.Apart t' K' := by
  induction hfresh generalizing K with
  | nil hle =>
    cases hpost
    exact ⟨rfl, hapart.own, fun h hh => (hapart.past h hh).trans hle⟩
  | @opened t handle name access calls hlt _ ih =>
    have hnew : handle ∉ K.volumes ++ B.volumes :=
      fun hmem => Nat.not_le_of_lt hlt (hapart.past handle hmem)
    have hstep : K.step (.openVolume name access (some handle)) = some { K with volumes :=
      handle :: K.volumes } := rfl
    rw [post_cons, hstep, Option.bind_some] at hpost
    rw [post_cons, stepSys_during hB hstep hapart.own fun h hh => by
      rwa [show h = handle by simpa [Lookup.opens, eq_comm] using hh], Option.bind_some]
    refine ih hpost ⟨fun h hh => ?_, fun h hh => ?_⟩
    · rcases List.mem_cons.mp hh with rfl | hh
      · exact fun hmem => hnew (List.mem_append_right _ hmem)
      · exact hapart.own h hh
    · rcases List.mem_cons.mp hh with rfl | hh
      · exact le_rfl
      · exact (hapart.past h hh).trans hlt.le
  | other hc _ ih =>
    rw [post_cons] at hpost
    obtain ⟨K₁, hstep, hpost⟩ := Option.bind_eq_some_iff.mp hpost
    have hsub := Lookup.Held.step_subset hstep hc
    rw [post_cons, stepSys_during hB hstep hapart.own fun h hh => absurd hh (by simp [hc h]),
      Option.bind_some]
    refine ih hpost ⟨fun h hh => hapart.own h (hsub hh), fun h hh => hapart.past h ?_⟩
    exact List.mem_append.mpr ((List.mem_append.mp hh).imp_left fun hmem => hsub hmem)

end Ledger

/-! ## Searching, locking and dismounting -/

/-- The books are `B`, `v` is the locked volume, and no open handle is from the future. -/
def Books (v : Option Handle) (B : Ledger) (w : World) (L : Ledger) : Prop :=
  L = B ∧ w.lockedVolume = v ∧ ∀ h ∈ B.volumes, h ≤ w.time

namespace Setting

variable {S : Setting} {unlocks : Handle → Bool} {v : Option Handle} {B : Ledger} {α : Type}

theorem tick_accounts : Accounts World.calls (Ledger.stepSys unlocks) (Books v B) S.tick
    fun _ w L => L = B ∧ w.lockedVolume = v ∧ ∀ h ∈ B.volumes, h < w.time := by
  refine accounts_still (fun w => (S.tick_frame w).1) fun w L u h hu => ?_
  obtain ⟨hL, hv, htime⟩ := h
  obtain ⟨-, hlocked, -, hlt⟩ := S.tick_frame w
  exact ⟨hL, hlocked.trans hv, fun h hh => lt_of_le_of_lt (htime h hh) (hlt u hu)⟩

/-- A call moves the books by its entry. -/
theorem ask_accounts {answer : Nat → α} {entry : α → SysCall} {Q : α → World → Ledger → Prop}
    (h : ∀ w : World, w.lockedVolume = v → (∀ h ∈ B.volumes, h < w.time) → ∃ B',
      B.stepSys unlocks (entry (answer w.time)) = some B' ∧
      Q (answer w.time) { w with calls := w.calls ++ [entry (answer w.time)] } B') :
    Accounts World.calls (Ledger.stepSys unlocks) (Books v B) (S.ask answer entry) Q := by
  unfold ask
  refine accounts_bind tick_accounts fun _ => ?_
  rintro w L ⟨rfl, hv, htime⟩
  obtain ⟨B', hstep, hQ⟩ := h w hv htime
  refine ⟨[entry (answer w.time)], B', rfl, by rw [post_cons, hstep, Option.bind_some, post_nil],
    fun a ha => ?_⟩
  cases ha
  exact hQ

/-- A call that opens nothing. -/
theorem ask_books {answer : Nat → α} {entry : α → SysCall} (next : α → Ledger)
    (hstep : ∀ a, B.stepSys unlocks (entry a) = some (next a))
    (hvol : ∀ a, ∀ h ∈ (next a).volumes, h ∈ B.volumes) :
    Accounts World.calls (Ledger.stepSys unlocks) (Books v B) (S.ask answer entry) fun a =>
    Books v (next a) :=
  ask_accounts fun _ hv htime =>
  ⟨_, hstep _, rfl, hv, fun h hh => Nat.le_of_lt (htime h (hvol _ h hh))⟩

/-- The handle `h` was opened last. -/
def Opened (v : Option Handle) (B : Ledger) (h : Handle) (w : World) (L : Ledger) : Prop :=
  h ∉ B.volumes ∧ Books v (B.opened h) w L

/-- Closing the handle that was opened last. -/
theorem close_accounts {h : Handle} (hB : B.locks ⊆ B.volumes) :
    Accounts World.calls (Ledger.stepSys unlocks) (Opened v B h) (S.closeHandle h) fun _ =>
    Books v B := by
  refine accounts_and fun hh => ask_books (fun _ => B) (fun _ => ?_) fun _ h' hh' =>
    List.mem_cons_of_mem _ hh'
  show Ledger.require (h ∈ h :: B.volumes) ((B.opened h).closed h) = _
  rw [Ledger.require, if_pos List.mem_cons_self, Ledger.closed, Ledger.opened, List.erase_cons_head,
    List.erase_of_not_mem fun hl => hh (hB hl)]

/-- A look at an open volume. -/
theorem look_accounts {h : Handle} {answer : Nat → α} {entry : α → SysCall}
    (hentry : ∀ a, (B.opened h).stepSys unlocks (entry a) =
      Ledger.require (h ∈ (B.opened h).volumes) (B.opened h)) :
    Accounts World.calls (Ledger.stepSys unlocks) (Opened v B h) (S.ask answer entry) fun _ =>
    Opened v B h :=
  accounts_and fun hh =>
  (ask_books (fun _ => B.opened h) (fun a => (hentry a).trans (if_pos List.mem_cons_self))
    fun _ _ hh => hh).mono (fun _ _ h => h) fun _ _ _ h => ⟨hh, h⟩

/-- What a search has found is open, and the error is not zero when it has found nothing. -/
def Finds (v : Option Handle) (B : Ledger) : Found → World → Ledger → Prop
  | .ok (h, _) => Opened v B h
  | .error e => fun w L => e ≠ 0 ∧ Books v B w L

/-- **`find_volume`** leaves the volume it found open, and nothing else. -/
theorem findVolume_accounts (hB : B.locks ⊆ B.volumes) (access : Nat) :
    Accounts World.calls (Ledger.stepSys unlocks) (Books v B) (S.findVolume access) fun r =>
    Finds v B r := by
  rintro w L ⟨rfl, hv, htime⟩
  obtain ⟨found, new, made, hseen, hmade, hcalls, hfresh, hlocked, hok⟩ :=
    @Lookup.findVolume_seen S access w
  have hstill : ∀ h ∈ L.volumes, h ≤ (S.findVolume access w).2.time :=
    fun h hh => (htime h hh).trans hfresh.le
  refine ⟨made, ?_⟩
  rcases hseen with ⟨e, rfl, rfl⟩ | ⟨v', rest, s, hrun, rfl⟩
  · -- no search was begun
    have hpost : post (Ledger.stepSys unlocks) L [.findFirst (.error e)] = some L := rfl
    obtain ⟨L', hpost'⟩ := post_of_prefix hmade hpost
    refine ⟨L', hcalls, hpost', fun x hx => ?_⟩
    obtain ⟨rfl, rfl⟩ := hok x hx
    cases hpost.symm.trans hpost'
    exact ⟨e.ne, rfl, hlocked.trans hv, hstill⟩
  · obtain ⟨new', K, hnew, hpost, hK⟩ :=
      @Lookup.findVolume_accounts S.serial access v' rest [] ⟨[], false⟩ rfl
    rw [hrun] at hnew hK
    obtain rfl : new = new' := hnew
    obtain rfl := hK s rfl
    obtain ⟨K', hpost'⟩ := post_of_prefix hmade hpost
    obtain ⟨hledger, hapart⟩ := Ledger.post_during hB hfresh hpost' ⟨nofun, htime⟩
    refine ⟨L.during K', hcalls, hledger, fun x hx => ?_⟩
    obtain ⟨rfl, rfl⟩ := hok x hx
    obtain rfl := Option.some.inj (hpost.symm.trans hpost')
    cases hout : s.out with
    | none =>
      simp only [Lookup.Search.found, hout]
      exact ⟨Lookup.error_ne_of_findVolume hrun hout, rfl, hlocked.trans hv, hstill⟩
    | some h =>
      rw [hout] at hapart
      simp only [Lookup.Search.found, hout]
      exact ⟨hapart.own h List.mem_cons_self, rfl, hlocked.trans hv, hapart.past⟩

theorem volumeReady_accounts (hB : B.locks ⊆ B.volumes) :
    Accounts World.calls (Ledger.stepSys unlocks) (Books v B) S.volumeReady fun _ => Books v B := by
  unfold volumeReady
  refine accounts_bind (findVolume_accounts hB 0) fun found => ?_
  cases found with
  | error e => exact accounts_pure fun _ _ h => h.2
  | ok r =>
    refine accounts_bind (close_accounts hB) fun _ => ?_
    refine accounts_bind (ask_books (fun _ => B) (fun _ => rfl) fun _ _ hh => hh) fun info => ?_
    exact accounts_pure fun _ _ h => h

theorem volumeMode_accounts {h : Handle} :
    Accounts World.calls (Ledger.stepSys unlocks) (Opened v B h) (S.volumeMode h) fun _ =>
    Opened v B h := by
  unfold volumeMode
  exact accounts_bind (look_accounts fun _ => rfl) fun _ => accounts_pure fun _ _ h => h

/-! ## The lock -/

/-- The handle `h` was opened last and is locked. -/
def Locked (v : Option Handle) (B : Ledger) (h : Handle) (w : World) (L : Ledger) : Prop :=
  h ∉ B.volumes ∧ Books v ((B.opened h).locked h) w L

theorem look_locked_accounts {h : Handle} {answer : Nat → α} {entry : α → SysCall}
    (hentry : ∀ a, ((B.opened h).locked h).stepSys unlocks (entry a) =
      some ((B.opened h).locked h)) :
    Accounts World.calls (Ledger.stepSys unlocks) (Locked v B h) (S.ask answer entry) fun _ =>
    Locked v B h :=
  accounts_and fun hh => (ask_books (fun _ => (B.opened h).locked h) hentry fun _ _ hh => hh).mono
    (fun _ _ h => h) fun _ _ _ h => ⟨hh, h⟩

/-- **The way back** releases the lock and closes the handle, whether or not the unlocking
succeeds. -/
theorem undo_accounts (hB : B.locks ⊆ B.volumes) {h : Handle} (phase error : Nat) :
    Accounts World.calls (Ledger.stepSys unlocks) (Locked v B h) (S.undo h phase error)
      fun r w L => r = (phase, error) ∧ Books v B w L := by
  unfold undo
  refine accounts_and fun hh => ?_
  have hlock : h ∉ B.locks := fun hl => hh (hB hl)
  refine accounts_bind (ask_books (fun _ => if unlocks h then B.opened h else (B.opened h).locked h)
    (fun _ => ?_) ?_) fun _ => ?_
  · show Ledger.require (h ∈ h :: B.volumes ∧ h ∈ h :: B.locks) _ = _
    rw [Ledger.require, if_pos ⟨List.mem_cons_self, List.mem_cons_self⟩]
    split
    · simp [Ledger.opened, Ledger.locked]
    · rfl
  · intro _ h' hh'
    split at hh' <;> exact hh'
  · refine accounts_bind (ask_books (fun _ => B) (fun _ => ?_) ?_) fun _ =>
      accounts_pure fun _ _ h => ⟨rfl, h⟩
    · split
      · show Ledger.require (h ∈ h :: B.volumes) ((B.opened h).closed h) = _
        rw [Ledger.require, if_pos List.mem_cons_self, Ledger.closed, Ledger.opened,
          List.erase_cons_head, List.erase_of_not_mem hlock]
      · show Ledger.require (h ∈ h :: B.volumes) (((B.opened h).locked h).closed h) = _
        rw [Ledger.require, if_pos List.mem_cons_self, Ledger.closed, Ledger.locked, Ledger.opened,
          List.erase_cons_head, List.erase_cons_head]
    · intro _ h' hh'
      split <;> exact List.mem_cons_of_mem _ hh'

theorem commit_accounts (hB : B.locks ⊆ B.volumes) {h : Handle} :
    Accounts World.calls (Ledger.stepSys unlocks) (Locked v B h) (S.commit h)
      fun r w L => (r.2 = 0 ∧ Locked (some h) B h w L) ∨ (r.2 ≠ 0 ∧ Books v B w L) := by
  have back : ∀ phase error, error ≠ 0 →
      Accounts World.calls (Ledger.stepSys unlocks) (Locked v B h)
      (S.undo h phase error) fun r w L => (r.2 = 0 ∧ Locked (some h) B h w L) ∨
      (r.2 ≠ 0 ∧ Books v B w L) :=
    fun phase error he => (undo_accounts hB phase error).mono (fun _ _ h => h) fun r w L h' => by
      obtain ⟨rfl, hbooks⟩ := h'
      exact Or.inr ⟨he, hbooks⟩
  unfold commit
  have hmode : Accounts World.calls (Ledger.stepSys unlocks) (Locked v B h) (S.volumeMode h)
      fun _ => Locked v B h := by
    unfold volumeMode
    exact accounts_bind (look_locked_accounts fun _ => if_pos List.mem_cons_self) fun _ =>
      accounts_pure fun _ _ h => h
  refine accounts_bind hmode fun mode => ?_
  split
  · next hne => exact back 2 mode hne
  · refine accounts_bind (look_locked_accounts fun _ => if_pos List.mem_cons_self) fun flushed => ?_
    cases flushed with
    | some e => exact back 2 e.code e.ne
    | none =>
      refine accounts_bind (look_locked_accounts fun _ =>
        if_pos ⟨List.mem_cons_self, List.mem_cons_self⟩) fun dismounted => ?_
      cases dismounted with
      | some e => exact back 3 e.code e.ne
      | none =>
        refine accounts_bind (Q := fun _ => Locked (some h) B h)
          (accounts_still (fun _ => rfl) ?_) fun _ =>
          accounts_pure fun _ _ h => Or.inl ⟨rfl, h⟩
        rintro w L u ⟨hh, hL, -, htime⟩ -
        exact ⟨hh, hL, rfl, htime⟩

/-- **`wl_lock_and_dismount`** keeps the volume open and locked when it succeeds, and nothing when
it fails. -/
theorem lockAndDismount_accounts (hB : B.locks ⊆ B.volumes) :
    Accounts World.calls (Ledger.stepSys unlocks) (Books none B) S.lockAndDismount
      fun r w L => (r.2 = 0 ∧ ∃ h, Locked (some h) B h w L) ∨ (r.2 ≠ 0 ∧ Books none B w L) := by
  unfold lockAndDismount
  refine accounts_bind (Q := fun l w L => l = none ∧ Books none B w L)
    (accounts_gets fun w L h => ⟨h.2.1, h⟩) fun locked => ?_
  refine accounts_and fun hnone => ?_
  subst hnone
  rw [if_neg (not_not_intro rfl)]
  refine accounts_bind (findVolume_accounts hB _) fun found => ?_
  cases found with
  | error e => exact accounts_pure fun _ _ h => Or.inr h
  | ok r =>
    obtain ⟨h, root⟩ := r
    refine accounts_bind volumeMode_accounts fun mode => ?_
    split
    · next hne => exact accounts_bind (close_accounts hB) fun _ =>
        accounts_pure fun _ _ hb => Or.inr ⟨hne, hb⟩
    · refine accounts_bind (Q := fun r => match r with
        | none => Locked none B h
        | some _ => Opened none B h) ?_ fun locked => ?_
      · refine accounts_and fun hh => (ask_books (fun r => match r with
          | none => (B.opened h).locked h
          | some _ => B.opened h) (fun r => ?_) fun r _ hh => ?_).mono (fun _ _ h => h) fun r
              _ _ hb => ?_
        · cases r with
          | none => exact Ledger.require_pos ⟨List.mem_cons_self, fun hl => hh (hB hl)⟩ _
          | some e => exact Ledger.require_pos List.mem_cons_self _
        · cases r <;> exact hh
        · cases r <;> exact ⟨hh, hb⟩
      · cases locked with
        | some e =>
          refine accounts_bind volumeMode_accounts fun mode => ?_
          refine accounts_bind (close_accounts hB) fun _ =>
            accounts_pure fun _ _ hb => Or.inr ⟨?_, hb⟩
          split
          · decide
          · exact e.ne
        | none => exact (commit_accounts hB).mono (fun _ _ h => h) fun r w L hr =>
            hr.imp (fun ⟨h0, hl⟩ => ⟨h0, h, hl⟩) id

/-! ## The end of a session -/

/-- A call that every answer moves to the books `C`. -/
theorem ask_to {C : Ledger} {answer : Nat → α} {entry : α → SysCall}
    (hstep : ∀ a, B.stepSys unlocks (entry a) = some C) (hvol : C.volumes ⊆ B.volumes) :
    Accounts World.calls (Ledger.stepSys unlocks) (Books v B) (S.ask answer entry) fun _ =>
    Books v C :=
  ask_books (fun _ => C) hstep fun _ _ hh => hvol hh

/-- **`wl_close`** releases all but the block. -/
theorem close_all_accounts :
    Accounts World.calls (Ledger.stepSys unlocks) (Books v (Ledger.held v)) S.close
    fun _ _ L => L = { Ledger.empty with block := true } := by
  have hunit : (Ledger.held v).unit ≠ .absent := nofun
  have hguard : ∀ before after : Nat, Accounts World.calls (Ledger.stepSys unlocks)
      (Books v { Ledger.empty with block := true, guard := true }) (do
        S.ask (fun _ => ()) fun _ => .closeGuard
        pure (if before ≠ 0 then before else if after = Code.operationAborted then 0 else after))
      fun _ _ L => L = { Ledger.empty with block := true } := fun before after =>
    accounts_bind (ask_to (fun _ => Ledger.require_pos ⟨rfl, rfl⟩ _) fun _ hh => hh) fun _ =>
      accounts_pure fun _ _ h => h.1
  unfold close
  refine accounts_bind (ask_to (fun _ => Ledger.require_pos hunit _) fun _ hh => hh)
    fun before => ?_
  refine accounts_bind (ask_to (fun _ => Ledger.require_pos (Or.inr rfl) _) fun _ hh => hh)
    fun _ => ?_
  refine accounts_bind (ask_to (fun _ => Ledger.require_pos rfl _) fun _ hh => hh) fun _ => ?_
  refine accounts_bind (ask_to (fun _ => Ledger.require_pos nofun _) fun _ hh => hh) fun after => ?_
  refine accounts_bind (ask_to (fun _ => Ledger.require_pos rfl _) fun _ hh => hh) fun _ => ?_
  refine accounts_bind (Q := fun l w L => l = v ∧
    Books v { Ledger.held v with unit := .absent } w L)
    (accounts_gets fun w L h => ⟨h.2.1, h⟩) fun locked => ?_
  refine accounts_and fun hlocked => ?_
  subst hlocked
  cases locked with
  | none => exact hguard before after
  | some h =>
    refine accounts_bind (ask_to (fun _ => ?_) fun _ hh => absurd hh List.not_mem_nil) fun _ =>
      hguard before after
    refine (Ledger.require_pos (show h ∈ [h] from List.mem_cons_self) _).trans (congrArg some ?_)
    show Ledger.mk _ _ _ ([h].erase h) ([h].erase h) _ = _
    rw [List.erase_cons_head]
    rfl

end Setting

/-! ## A whole session -/

namespace Native

variable {S : Setting} {unlocks : Handle → Bool} {α : Type}

theorem onWorld_accounts {P : World → Ledger → Prop} {Q : α → World → Ledger → Prop}
    {m : Run World Empty α} (h : Accounts World.calls (Ledger.stepSys unlocks) P m Q) :
    Accounts Native.calls (Ledger.step unlocks) (fun s L => P s.world L) (onWorld m) fun a s L =>
    Q a s.world L := by
  intro s L hs
  obtain ⟨new, L', htrace, hpost, hq⟩ := h s.world L hs
  refine ⟨new.map .sys, L', ?_, ?_, hq⟩
  · show s.calls ++ ((m s.world).2.calls.drop s.world.calls.length).map NativeCall.sys = _
    rw [htrace, List.drop_left]
  · rw [← hpost, post, List.foldlM_map]
    rfl

/-- The books are `B`, and the world is as `p` says. -/
def At (B : Ledger) (p : World → Prop) (s : Native) (L : Ledger) : Prop := L = B ∧ p s.world

theorem call_at {B C : Ledger} {p : World → Prop} {c : NativeCall} (h : B.step unlocks c = some C) :
    Accounts Native.calls (Ledger.step unlocks) (At B p) (call c) fun _ => At C p := by
  rintro s L ⟨rfl, hp⟩
  exact ⟨[c], C, rfl, by rw [post_cons, h, Option.bind_some, post_nil], fun _ _ => ⟨rfl, hp⟩⟩

/-- What `wl_create` leaves: a session without a locked volume, or nothing. -/
def Creates (code : Nat) (s : Native) (L : Ledger) : Prop :=
  (code = 0 ∧ L = .held none ∧ s.world.lockedVolume = none) ∨ (code ≠ 0 ∧ L = .empty)

/-- The way out of `wl_create` when the guard is held and there is no unit. -/
theorem giveUp_accounts {p : World → Prop} {code : Nat} (hcode : code ≠ 0) :
    Accounts Native.calls (Ledger.step unlocks)
      (At { Ledger.empty with block := true, guard := true } p)
      (do call (.sys .closeGuard); call .heapFree; pure code) Creates :=
  accounts_bind (call_at rfl) fun _ => accounts_bind (call_at rfl) fun _ =>
    accounts_pure fun _ _ h => Or.inr ⟨hcode, h.1⟩

theorem create_accounts (A : CreateAnswers) (blocks : Nat) :
    Accounts Native.calls (Ledger.step unlocks) (At .empty fun _ => True) (create A blocks)
      Creates := by
  obtain ⟨alloc, mutex, guid, unit, start⟩ := A
  unfold create
  split
  · exact accounts_pure fun _ _ h => Or.inr ⟨by decide, h.1⟩
  cases alloc with
  | false => exact accounts_bind (call_at rfl) fun _ =>
      accounts_pure fun _ _ h => Or.inr ⟨by decide, h.1⟩
  | true =>
    refine accounts_bind (call_at (C := { Ledger.empty with block := true }) rfl) fun _ => ?_
    rw [if_neg nofun]
    refine accounts_bind (Q := fun _ =>
      At { Ledger.empty with block := true } fun w => w.lockedVolume = none)
      (accounts_still (fun _ => rfl) fun _ _ _ h _ => ⟨h.1, rfl⟩) fun _ => ?_
    cases mutex with
    | failed e =>
      refine accounts_bind (call_at rfl) fun _ => accounts_bind (call_at rfl) fun _ =>
        accounts_pure fun _ _ h => Or.inr ⟨?_, h.1⟩
      split
      · decide
      · exact e.ne
    | existing => exact accounts_bind (call_at rfl) fun _ => giveUp_accounts (by decide)
    | created =>
      refine accounts_bind (call_at rfl) fun _ => accounts_bind (call_at rfl) fun _ => ?_
      cases guid with
      | false => exact giveUp_accounts (by decide)
      | true =>
        cases unit with
        | some e => exact accounts_bind (call_at rfl) fun _ => giveUp_accounts e.ne
        | none =>
          refine accounts_bind (call_at rfl) fun _ => ?_
          cases start with
          | some e =>
            exact accounts_bind (call_at rfl) fun _ => accounts_bind (call_at rfl) fun _ =>
              accounts_bind (call_at rfl) fun _ =>
              accounts_bind (call_at rfl) fun _ => giveUp_accounts e.ne
          | none => exact accounts_bind (call_at rfl) fun _ =>
              accounts_pure fun _ _ h => Or.inl ⟨rfl, h.1, h.2⟩

/-- The only open volume is `locked_volume`, and it is locked; nothing else is held beyond the
session itself. -/
def Kept (v : Option Handle) (s : Native) (L : Ledger) : Prop := Books v (.held v) s.world L

theorem kept_of_created {s : Native} {L : Ledger} (hL : L = .held none)
    (hv : s.world.lockedVolume = none) :
    Kept none s L := ⟨hL, hv, nofun⟩

/-- A locked volume stays as it is. -/
theorem use_again {s : Native} (h : s.world.lockedVolume ≠ none) :
    use S .lockAndDismount s = (.ok 0, s) := by
  have hrun : S.lockAndDismount s.world = (.ok (0, 0), s.world) := by
    rw [Setting.lockAndDismount, Run.gets_bind, if_pos h, Run.pure_run]
  have hworld : onWorld S.lockAndDismount s = (.ok (0, 0), s) := by
    rw [onWorld, hrun, List.drop_length, List.map_nil, List.append_nil]
  exact Run.bind_run_of hworld

/-- **One call** between creation and closing. -/
theorem use_accounts {v : Option Handle} (u : Use) :
    Accounts Native.calls (Ledger.step unlocks) (Kept v) (use S u) fun code s L => ∃ v',
    Kept v' s L ∧ (v' ≠ none ↔ v ≠ none ∨ (u = .lockAndDismount ∧ code = 0)) ∧
      (u = .lockAndDismount → code ≠ 0 → v' = none) := by
  cases u with
  | volumeReady =>
    exact (onWorld_accounts (Setting.volumeReady_accounts fun _ h => h)).mono (fun _ _ h => h)
      fun code s L h =>
      ⟨v, h, ⟨Or.inl, fun h => h.elim id fun h => nomatch h.1⟩, nofun⟩
  | lockAndDismount =>
    cases v with
    | some h =>
      rintro s L hs
      have hagain := @use_again S s (by rw [hs.2.1]; exact nofun)
      refine ⟨[], L, by rw [hagain, List.append_nil], rfl, fun code hcode => ?_⟩
      rw [hagain] at hcode ⊢
      cases hcode
      exact ⟨some h, hs, ⟨Or.inl, fun _ => nofun⟩, fun _ h0 => absurd rfl h0⟩
    | none =>
      refine accounts_bind (onWorld_accounts (Setting.lockAndDismount_accounts fun _ h => h))
        fun r => ?_
      refine accounts_pure fun s L h => ?_
      rcases h with ⟨h0, h, -, hkept⟩ | ⟨hne, hkept⟩
      · exact ⟨some h, hkept, ⟨fun _ => Or.inr ⟨rfl, h0⟩, fun _ => nofun⟩,
          fun _ hne => absurd h0 hne⟩
      · exact ⟨none, hkept, ⟨fun h => absurd rfl h, fun h => h.elim id fun h => absurd h.2 hne⟩,
          fun _ _ => rfl⟩

theorem useAll_accounts (uses : List Use) {v : Option Handle} :
    Accounts Native.calls (Ledger.step unlocks) (Kept v) (useAll S uses) fun codes s L => ∃ v',
    Kept v' s L ∧
      (v' ≠ none ↔ v ≠ none ∨ (.lockAndDismount, 0) ∈ codes) := by
  induction uses generalizing v with
  | nil => exact accounts_pure fun s L h => ⟨v, h, by simp⟩
  | cons u uses ih =>
    refine accounts_bind (use_accounts u) fun code => ?_
    refine accounts_bind (Q := fun codes s L => ∃ v', Kept v' s L ∧
      (v' ≠ none ↔ v ≠ none ∨ (.lockAndDismount, 0) ∈ (u, code) :: codes)) ?_ fun codes =>
      accounts_pure fun _ _ h => h
    rintro s L ⟨v₁, hkept, hv₁, -⟩
    obtain ⟨new, L', htrace, hpost, hq⟩ := ih s L hkept
    refine ⟨new, L', htrace, hpost, fun codes hcodes => ?_⟩
    obtain ⟨v', hkept', hv'⟩ := hq codes hcodes
    refine ⟨v', hkept', ?_⟩
    rw [hv', hv₁, List.mem_cons, Prod.mk.injEq, or_assoc, eq_comm, @eq_comm _ 0]

theorem create_returns (A : CreateAnswers) (blocks : Nat) (s : Native) :
    ∃ code s₁, create A blocks s = (.ok code, s₁) := by
  obtain ⟨alloc, mutex, guid, unit, start⟩ := A
  unfold create
  split
  · exact ⟨_, _, rfl⟩
  cases alloc with
  | false => exact ⟨_, _, rfl⟩
  | true =>
    cases mutex with
    | failed e => exact ⟨_, _, rfl⟩
    | existing => exact ⟨_, _, rfl⟩
    | created =>
      cases guid with
      | false => exact ⟨_, _, rfl⟩
      | true =>
        cases unit with
        | some e => exact ⟨_, _, rfl⟩
        | none => cases start <;> exact ⟨_, _, rfl⟩

/-- The end of the session and of its block. -/
theorem close_native_accounts {v : Option Handle} :
    Accounts Native.calls (Ledger.step unlocks) (Kept v) (close S) fun _ _ L => L = .empty := by
  refine accounts_bind (onWorld_accounts Setting.close_all_accounts) fun code => ?_
  refine accounts_bind ((call_at (p := fun _ => True) rfl).pre fun _ _ h => ⟨h, trivial⟩)
    fun _ => ?_
  exact accounts_pure fun _ _ h => h.1

theorem close_native_calls {s s' : Native} {code : Nat} (h : close S s = (.ok code, s')) :
    ∃ before after, s'.calls = s.calls ++ (Setting.closeCalls s.world.lockedVolume before after).map
      .sys ++ [.heapFree] ∧
      code = if before ≠ 0 then before else if after = Code.operationAborted then 0 else after := by
  obtain ⟨c, s₁, h₁, h⟩ := Run.bind_run_eq_ok.mp h
  cases h
  have hfst : (S.close s.world).1 = .ok code := congrArg Prod.fst h₁
  have hclose : S.close s.world = (.ok code, (S.close s.world).2) := Prod.ext hfst rfl
  obtain ⟨before, after, hcalls, -, -, hcode⟩ := Setting.close_calls hclose
  have hs₁ : s.calls ++ ((S.close s.world).2.calls.drop s.world.calls.length).map .sys = s₁.calls :=
    congrArg (fun r => r.2.calls) h₁
  refine ⟨before, after, ?_, hcode⟩
  show s₁.calls ++ [.heapFree] = _
  rw [← hs₁, hcalls, List.drop_left]

/-! ### Coming back -/

/-- The call comes back with a value, unless the machine stops inside a call to the file. -/
def ComesBack (m : Run Native Empty α) (s : Native) : Prop :=
  (∃ a s', m s = (.ok a, s')) ∨ (m s).1 = .halt ∧ (m s).2.world.Stuck

/-- Stopping is all that keeps a part of the session from coming back. -/
structure Returning (m : Run Native Empty α) : Prop where
  ended : m.Ended fun s => s.world.Stuck
  calm : m.Calm

theorem Returning.comesBack {m : Run Native Empty α} (h : Returning m) (s : Native) :
    ComesBack m s := by
  by_cases hhalt : (m s).1 = .halt
  · exact Or.inr ⟨hhalt, (h.ended s trivial).2 hhalt⟩
  · exact Or.inl (h.calm.comes_back hhalt)

theorem returning_bind {β : Type} {m : Run Native Empty α} {f : α → Run Native Empty β}
    (hm : Returning m) (hf : ∀ a, Returning (f a)) : Returning (m >>= f) :=
  ⟨Run.ended_bind hm.ended fun a => (hf a).ended, Run.calm_bind hm.calm fun a => (hf a).calm⟩

theorem returning_pure (a : α) : Returning (pure a : Run Native Empty α) :=
  ⟨Run.ended_pure a, Run.calm_pure a⟩

theorem returning_onWorld {m : Run World Empty α} (hended : m.Ended World.Stuck)
    (hcalm : m.Calm) : Returning (onWorld m) where
  ended := Run.ended_of_halt fun s hm => (hended s.world trivial).2 hm
  calm s := hcalm s.world

theorem returning_close : Returning (close S) :=
  returning_bind (returning_onWorld Setting.ended_close Setting.calm_close) fun code =>
    returning_bind ⟨Run.ended_modify _, nofun⟩ fun _ => returning_pure code

section
variable {n : Nat} (hlist : ∀ t, ListedBy S.os.findNext n t) (hfuel : n ≤ S.fuel)
include hlist hfuel

theorem returning_use (u : Use) : Returning (use S u) := by
  cases u with
  | volumeReady =>
    exact returning_onWorld (Setting.ended_volumeReady hlist hfuel) Setting.goesOn_volumeReady.calm
  | lockAndDismount =>
    exact returning_bind (returning_onWorld (Setting.ended_lockAndDismount hlist hfuel)
      Setting.goesOn_lockAndDismount.calm) fun r => returning_pure r.2

theorem returning_useAll (uses : List Use) : Returning (useAll S uses) := by
  induction uses with
  | nil => exact returning_pure []
  | cons u uses ih =>
    exact returning_bind (returning_use hlist hfuel u) fun _ =>
      returning_bind ih fun _ => returning_pure _

end

/-- **The resources of a session.**  A session that is not created holds nothing.  One that is
created keeps its books through any calls: the only volume that is open is `locked_volume`, it is
locked, and it is there exactly when a call to lock it has succeeded.  A call to lock it that
fails leaves nothing behind, one that follows a success changes nothing, and `wl_close` releases
everything in order.  Where the volumes of the system are listed to their end, each call comes
back unless the machine stops inside a call to the file; `wl_close` needs no list for that. -/
theorem session_resources (S : Setting) (unlocks : Handle → Bool) (A : CreateAnswers)
    (blocks : Nat) (w : World) :
    ∃ code s₁, create A blocks ⟨w, []⟩ = (.ok code, s₁) ∧
      (code ≠ 0 → Ledger.ofTrace unlocks s₁.calls = some .empty) ∧
      (code = 0 → ∀ uses, (Ledger.ofTrace unlocks (useAll S uses s₁).2.calls).isSome ∧
        (∀ n, (∀ t, ListedBy S.os.findNext n t) → n ≤ S.fuel → ComesBack (useAll S uses) s₁) ∧
        ∀ codes s₂, useAll S uses s₁ = (.ok codes, s₂) →
          Ledger.ofTrace unlocks s₂.calls = some (.held s₂.world.lockedVolume) ∧
          (s₂.world.lockedVolume ≠ none ↔ (.lockAndDismount, 0) ∈ codes) ∧
          (∀ code s₃, use S .lockAndDismount s₂ = (.ok code, s₃) → code ≠ 0 →
            s₃.world.lockedVolume = none ∧ Ledger.ofTrace unlocks s₃.calls = some (.held none)) ∧
          (s₂.world.lockedVolume ≠ none → use S .lockAndDismount s₂ = (.ok 0, s₂)) ∧
          (Ledger.ofTrace unlocks (close S s₂).2.calls).isSome ∧ ComesBack (close S) s₂ ∧
          ∀ code s₃, close S s₂ = (.ok code, s₃) → Ledger.ofTrace unlocks s₃.calls = some .empty ∧
            ∃ before after, s₃.calls = s₂.calls ++
              (Setting.closeCalls s₂.world.lockedVolume before after).map .sys ++ [.heapFree]) := by
  obtain ⟨code, s₁, hcreate⟩ := create_returns A blocks ⟨w, []⟩
  obtain ⟨L₁, hL₁, hq₁⟩ := (create_accounts A blocks).posted
    (show post (Ledger.step unlocks) .empty (Native.mk w []).calls = some .empty from rfl)
    ⟨rfl, trivial⟩
  rw [hcreate] at hL₁ hq₁
  refine ⟨code, s₁, hcreate, fun hne => ?_, fun hzero uses => ?_⟩
  · rcases hq₁ code rfl with ⟨h0, -⟩ | ⟨-, rfl⟩
    · exact absurd h0 hne
    · exact hL₁
  obtain ⟨-, hL, hv⟩ | ⟨hne, -⟩ := hq₁ code rfl
  swap
  · exact absurd hzero hne
  obtain ⟨L₂, hL₂, hq₂⟩ := (useAll_accounts (S := S) uses).posted hL₁ (kept_of_created hL hv)
  refine ⟨Option.isSome_iff_exists.mpr ⟨L₂, hL₂⟩, fun n hlist hfuel => ?_, fun codes s₂ huses => ?_⟩
  · exact (returning_useAll hlist hfuel uses).comesBack s₁
  rw [huses] at hL₂ hq₂
  obtain ⟨v, hkept, hiff⟩ := hq₂ codes rfl
  obtain ⟨hLv, hv₂, -⟩ := id hkept
  rw [hv₂]
  refine ⟨hLv ▸ hL₂, by simpa using hiff, fun code s₃ huse hne => ?_,
    fun hv => use_again (hv₂ ▸ hv),
    ?_, returning_close.comesBack s₂, fun code s₃ hclose => ?_⟩
  · obtain ⟨L₃, hL₃, hq₃⟩ := (use_accounts (S := S) .lockAndDismount).posted hL₂ hkept
    rw [huse] at hL₃ hq₃
    obtain ⟨v', ⟨rfl, hv₃, -⟩, -, hnone⟩ := hq₃ code rfl
    obtain rfl := hnone rfl hne
    exact ⟨hv₃, hL₃⟩
  · obtain ⟨L₃, hL₃, -⟩ := (close_native_accounts (S := S)).posted hL₂ hkept
    exact Option.isSome_iff_exists.mpr ⟨L₃, hL₃⟩
  · obtain ⟨L₃, hL₃, hq₃⟩ := (close_native_accounts (S := S)).posted hL₂ hkept
    rw [hclose] at hL₃ hq₃
    obtain rfl := hq₃ code rfl
    obtain ⟨before, after, hcalls, -⟩ := close_native_calls hclose
    exact ⟨hL₃, before, after, hv₂ ▸ hcalls⟩

namespace Sample

/-- Every call of `wl_create` succeeds. -/
def answers : CreateAnswers := ⟨true, .created, true, none, none⟩

def created : Native := (create answers 2 ⟨World.start (Winluks.Sample.io []), []⟩).2

theorem create_ok : (create answers 2 ⟨World.start (Winluks.Sample.io []), []⟩).1 = .ok 0 := rfl

def uses : List Use := [.volumeReady, .lockAndDismount, .lockAndDismount]

def used : Native := (useAll Setting.sample uses created).2

theorem use_ok : (useAll Setting.sample uses created).1 =
    .ok [(.volumeReady, 0), (.lockAndDismount, 0), (.lockAndDismount, 0)] := by
  decide +kernel

def closed : Native := (close Setting.sample used).2

theorem close_ok : (close Setting.sample used).1 = .ok 0 := by
  decide +kernel

end Sample

/-- The second call to lock finds the volume locked, and it is released once. -/
theorem session_resources_sample : ∃ s₂ s₃ : Native,
    useAll Setting.sample Sample.uses Sample.created =
      (.ok [(.volumeReady, 0), (.lockAndDismount, 0), (.lockAndDismount, 0)], s₂) ∧
    Ledger.ofTrace (fun _ => true) s₂.calls = some (.held s₂.world.lockedVolume) ∧
    s₂.world.lockedVolume ≠ none ∧ close Setting.sample s₂ = (.ok 0, s₃) ∧
    Ledger.ofTrace (fun _ => true) s₃.calls = some .empty := by
  obtain ⟨code, s₁, hcreate, -, hrun⟩ := session_resources Setting.sample (fun _ => true)
    Sample.answers 2 (World.start (Winluks.Sample.io []))
  have hcode : code = 0 := Outcome.ok.inj ((congrArg Prod.fst hcreate).symm.trans Sample.create_ok)
  have hs₁ : s₁ = Sample.created := (congrArg Prod.snd hcreate).symm
  rw [hs₁] at hrun
  obtain ⟨-, -, hall⟩ := hrun hcode Sample.uses
  have huse := Run.eq_of_fst Sample.use_ok Sample.used.eq_1
  have hclose := Run.eq_of_fst Sample.close_ok Sample.closed.eq_1
  generalize Sample.used = s₂ at huse hclose
  generalize Sample.closed = s₃ at hclose
  obtain ⟨hheld, hiff, -, -, -, -, hend⟩ := hall _ s₂ huse
  exact ⟨s₂, s₃, huse, hheld, hiff.mpr (by decide), hclose, (hend 0 s₃ hclose).1⟩

end Native

end Winluks
