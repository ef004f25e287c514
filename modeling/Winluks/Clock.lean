import Winluks.Lib.Ending
import Winluks.WinspdSpec

/-!
# The clock of a session

A call to the volume or to the system comes back unless the machine stops inside
a call to the file (`World.Stuck`), and it comes back later than it was made.
The search for the volume is the one loop of the shim: it ends where the list of
volumes does (`ListedBy`).

`ended_lockAndDismount` and its like are for the callers of the shim; the loops of
`serve` also need to know when it came back (`clock_ask`, `since_lockAndDismount`).
-/

namespace Winluks

open Lib Run

/-- The machine stopped inside a call to the file. -/
def Disk.Stuck (d : Disk) : Prop := ∃ c ∈ d.calls, c.halted = true

/-! ## The image -/

theorem stuck_log (d : Disk) {c : Call} (h : c.halted = true) : (d.log c).Stuck :=
  ⟨c, List.mem_append_right _ List.mem_cons_self, h⟩

theorem ended_fileLen : Ended Disk.Stuck fileLen := by
  refine ended_of_halt fun d => ?_
  unfold fileLen
  split
  case h_5 => exact fun _ => stuck_log d rfl
  all_goals nofun

theorem ended_readOnce (o n : Nat) : Ended Disk.Stuck (readOnce o n) := by
  refine ended_of_halt fun d => ?_
  unfold readOnce
  split
  case h_5 => exact fun _ => stuck_log d rfl
  all_goals nofun

theorem ended_writeOnce (o : Nat) (buf : Bytes) : Ended Disk.Stuck (writeOnce o buf) := by
  refine ended_of_halt fun d => ?_
  unfold writeOnce
  split
  case h_5 => exact fun _ => stuck_log _ rfl
  all_goals nofun

theorem ended_syncAll : Ended Disk.Stuck syncAll := by
  refine ended_of_halt fun d => ?_
  unfold syncAll
  split
  case h_3 => exact fun _ => stuck_log d rfl
  all_goals nofun

theorem ended_readLoop (offset size : Nat) (got : Bytes) :
    Ended Disk.Stuck (readLoop offset size got) := by
  refine ended_of_halt fun d => ?_
  fun_induction readLoop offset size got d with
  | case1 got d hlt d' h ih => exact ih
  | case4 got d hlt b bs d' h ih => exact ih
  | case6 got d hlt d' h =>
    exact fun _ => (ended_readOnce (offset + got.length) (size - got.length)).halt trivial h
  | _ => nofun

theorem ended_writeLoop (offset : Nat) (buf : Bytes) (done : Nat) :
    Ended Disk.Stuck (writeLoop offset buf done) := by
  refine ended_of_halt fun d => ?_
  fun_induction writeLoop offset buf done d with
  | case1 done d hlt d' h ih => exact ih
  | case4 done d hlt n d' h ih => exact ih
  | case6 done d hlt d' h =>
    exact fun _ => (ended_writeOnce (offset + done) (buf.drop done)).halt trivial h
  | _ => nofun

namespace Image

variable (img : Image)

theorem ended_checkLen : Ended Disk.Stuck img.checkLen :=
  ended_bind (finishes_mapErr ended_fileLen _) fun _ => ended_lift (Outcome.failIf_ne_halt _ _)

theorem ended_readExactAt (offset size : Nat) : Ended Disk.Stuck (img.readExactAt offset size) :=
  ended_bind (ended_lift (Outcome.failIf_ne_halt _ _)) fun _ =>
    ended_bind img.ended_checkLen fun _ => ended_readLoop offset size []

theorem ended_writeAllAt (offset : Nat) (buf : Bytes) :
    Ended Disk.Stuck (img.writeAllAt offset buf) :=
  ended_bind (ended_lift (Outcome.failIf_ne_halt _ _)) fun _ =>
    ended_bind (ended_lift (Outcome.failIf_ne_halt _ _)) fun _ =>
      ended_bind img.ended_checkLen fun _ => ended_writeLoop offset buf 0

theorem ended_sync : Ended Disk.Stuck img.sync := by
  refine ended_bind img.ended_checkLen fun _ => ?_
  split
  · exact finishes_mapErr ended_syncAll _
  · exact ended_pure ()

end Image

/-! ## The volume -/

abbrev Io.Stuck (s : Io) : Prop := s.disk.Stuck

namespace Io

variable {α : Type}

theorem ended_lock {m : Run Io Error α} (h : Ended Stuck m) : Ended Stuck (lock m) := by
  refine ended_of_halt fun s => ?_
  unfold lock
  split
  · nofun
  · rcases hm : m s with ⟨_ | _ | _ | _, s'⟩
    case halt => exact fun _ => h.halt trivial hm
    all_goals nofun

theorem ended_notFaulted : Ended Stuck notFaulted :=
  ended_bind (ended_gets _) fun _ => ended_lift (Outcome.failIf_ne_halt _ _)

theorem ended_onDisk {m : Run Disk Error α} (h : Ended Disk.Stuck m) : Ended Stuck (onDisk m) :=
  ended_zoom (fun _ _ => rfl) h

theorem ended_orFault {m : Run Disk Error α} (h : Ended Disk.Stuck m) :
    Ended Stuck (orFault m) := by
  refine ended_of_halt fun s => ?_
  unfold orFault
  rcases hm : m s.disk with ⟨_ | _ | _ | _, d⟩
  case halt => exact fun _ => h.halt trivial hm
  all_goals nofun

end Io

theorem UnlockedVolume.ended_readAt (prim : Primitives) (v : UnlockedVolume) (offset len : Nat) :
    Ended Io.Stuck (v.readAt prim offset len) := by
  refine Io.ended_lock (ended_bind Io.ended_notFaulted fun _ => ?_)
  refine ended_bind (ended_lift (Outcome.failIf_ne_halt _ _)) fun _ => ?_
  split
  · exact ended_pure []
  · refine ended_bind (ended_lift (Outcome.ofOption_ne_halt _ _)) fun stop => ?_
    refine ended_bind (ended_lift (Outcome.failIf_ne_halt _ _)) fun _ => ?_
    refine ended_bind (ended_lift (Outcome.ofOption_ne_halt _ _)) fun target => ?_
    refine ended_bind ?_ fun encrypted => ?_
    · unfold readEncrypted
      split
      · exact Io.ended_orFault (v.image.ended_readExactAt _ _)
      · exact Io.ended_onDisk (v.image.ended_readExactAt _ _)
    · exact ended_bind (ended_lift (returns_cryptSectors _ _ _ _ _).ne_halt) fun plain =>
        ended_pure _

namespace ValidatedVolume

theorem ended_writeAt (prim : Primitives) (v : ValidatedVolume) (offset : Nat) (bytes : Bytes) :
    Ended Io.Stuck (v.writeAt prim offset bytes) := by
  refine ended_bind (ended_lift (Outcome.failIf_ne_halt _ _)) fun _ => ?_
  refine ended_bind (ended_lift (Outcome.failIf_ne_halt _ _)) fun _ => ?_
  refine ended_bind (ended_lift (Outcome.failIf_ne_halt _ _)) fun _ => ?_
  refine Io.ended_lock (ended_bind Io.ended_notFaulted fun _ => ?_)
  split
  · exact ended_pure ()
  · refine ended_bind (ended_lift (returns_cryptSectors _ _ _ _ _).ne_halt) fun encrypted => ?_
    refine ended_bind (ended_lift (Outcome.ofOption_ne_halt _ _)) fun target => Io.ended_orFault ?_
    exact ended_bind (v.volume.image.ended_writeAllAt _ _) fun _ => v.volume.image.ended_sync

theorem ended_flush (v : ValidatedVolume) : Ended Io.Stuck v.flush :=
  Io.ended_lock (ended_bind Io.ended_notFaulted fun _ => Io.ended_orFault v.volume.image.ended_sync)

end ValidatedVolume

/-! ## The adapter and its callbacks -/

abbrev Adapter.Stuck (a : Adapter) : Prop := a.io.Stuck

namespace Adapter

variable (prim : Primitives) (v : ValidatedVolume)

theorem ended_notStopping : Ended Stuck notStopping :=
  ended_bind (ended_gets _) fun _ => ended_lift (Outcome.failIf_ne_halt _ _)

theorem ended_onIo {α : Type} {m : Run Io Error α} (h : Ended Io.Stuck m) : Ended Stuck (onIo m) :=
  ended_zoom (fun _ _ => rfl) h

theorem ended_forget {α : Type} {m : Run Adapter Error α} (h : Ended Stuck m) :
    Ended Stuck (forget m) :=
  ended_bind h fun _ => ended_pure ()

theorem ended_read (lba count : Nat) : Ended Stuck (read prim v lba count) := by
  refine ended_bind ended_notStopping fun _ => ?_
  refine ended_bind (ended_lift (Outcome.ofOption_ne_halt _ _)) fun o => ?_
  refine ended_bind (ended_lift (Outcome.ofOption_ne_halt _ _)) fun n => ?_
  exact ended_bind (ended_modify _) fun _ => ended_onIo (v.volume.ended_readAt prim o n)

theorem ended_write (lba : Nat) (bytes : Bytes) : Ended Stuck (write prim v lba bytes) := by
  refine ended_bind (ended_modify _) fun _ => ?_
  refine ended_bind (ended_lift (Outcome.failIf_ne_halt _ _)) fun _ => ?_
  refine ended_bind ended_notStopping fun _ => ?_
  exact ended_bind (ended_lift (Outcome.ofOption_ne_halt _ _)) fun offset =>
    ended_onIo (v.ended_writeAt prim offset bytes)

theorem ended_unmap : Ended Stuck (unmap v) := ended_bind (ended_modify _) fun _ => finishes_throw _

theorem ended_flush (lba count : Nat) : Ended Stuck (flush v lba count) := by
  have hflush : Ended Stuck (flushVolume v) :=
    ended_bind (ended_modify _) fun _ => ended_onIo v.ended_flush
  refine ended_bind ended_notStopping fun _ => ?_
  refine ended_bind (ended_lift (Outcome.ofOption_ne_halt _ _)) fun o => ?_
  split
  · split
    · exact hflush
    · exact finishes_throw _
  · split
    · exact finishes_throw _
    · exact hflush

end Adapter

section
variable {ε : Type} (prim : Primitives) (v : ValidatedVolume)

theorem ended_catchUnwind {m : Run Adapter Error Unit} (h : Ended Adapter.Stuck m) :
    Ended Adapter.Stuck (catchUnwind m : Run Adapter ε Nat) := by
  refine ended_of_halt fun a => ?_
  unfold catchUnwind
  rcases hm : m a with ⟨_ | _ | _ | _, a'⟩
  case halt => exact fun _ => h.halt trivial hm
  all_goals nofun

theorem ended_callback (c : Callback) :
    Ended Adapter.Stuck (callback prim v c : Run Adapter ε Nat) := by
  cases c with
  | read lba count =>
    show Ended Adapter.Stuck (readCb prim v lba count : Run Adapter ε Nat)
    unfold readCb
    split
    · exact ended_pure 2
    · exact ended_catchUnwind (Adapter.ended_forget (Adapter.ended_read prim v lba count))
  | write lba count buffer =>
    show Ended Adapter.Stuck (writeCb prim v lba count buffer : Run Adapter ε Nat)
    unfold writeCb
    split
    · exact ended_pure 2
    · exact ended_catchUnwind (Adapter.ended_write prim v lba _)
  | control op lba count =>
    refine ended_catchUnwind ?_
    split
    · exact Adapter.ended_flush v lba count
    · split
      · exact Adapter.ended_unmap v
      · exact finishes_throw _

theorem ended_callbacks (cs : List Callback) :
    Ended Adapter.Stuck (callbacks prim v cs : Run Adapter ε Unit) := by
  induction cs with
  | nil => exact ended_pure ()
  | cons c rest ih => exact ended_bind (ended_callback prim v c) fun _ => ih

end

/-! ## The clock -/

abbrev World.Stuck (w : World) : Prop := w.adapter.Stuck

namespace Setting

/-- The clock is between `lo` and `hi`, and a press of Ctrl+C in the past has not been answered. -/
structure Clock (press : Option Nat) (lo : Nat) (hi : Option Nat) (w : World) : Prop where
  lo : lo ≤ w.time
  hi : ∀ t ∈ hi, w.time ≤ t
  quit : ∀ t ∈ press, t < w.time → w.quit = true

/-- There is no bound from above. -/
abbrev Since (press : Option Nat) (lo : Nat) : World → Prop := Clock press lo none

/-- Every press of Ctrl+C that is waited for is one. -/
abbrev Presses (S : Setting) (press : Option Nat) : Prop := ∀ t ∈ press, S.os.ctrlC t = true

theorem presses_none (S : Setting) : S.Presses none := nofun

variable {S : Setting} {press : Option Nat} {lo lo' : Nat} {hi : Option Nat} {w : World} {α : Type}

theorem Clock.since (h : Clock press lo hi w) (hle : lo' ≤ lo) : Since press lo' w :=
  ⟨hle.trans h.lo, nofun, h.quit⟩

theorem Clock.within {t t' : Nat} (h : Clock press lo (some t) w) (hlo : lo' ≤ lo) (ht : t ≤ t') :
    Clock press lo' (some t') w :=
    ⟨hlo.trans h.lo, fun _ hx => by cases hx; exact (h.hi t rfl).trans ht, h.quit⟩

theorem clock_tick (hpress : S.Presses press) :
    Finishes World.Stuck (Clock press lo hi) S.tick fun _ =>
    Clock press (lo + 1) (hi.map Nat.succ) := by
  refine finishes_bind (finishes_look _) fun now => ?_
  refine finishes_bind (Q := fun _ w => Clock press lo hi w ∧ now = w.time) ?_ fun _ => ?_
  · exact finishes_zoom (fun _ _ => rfl) (ended_callbacks _ _ _) fun _ w a ⟨hw, hnow⟩ =>
      ⟨⟨hw.lo, hw.hi, hw.quit⟩, hnow⟩
  refine finishes_modify fun w ⟨hw, hnow⟩ => ⟨Nat.succ_le_succ hw.lo, ?_, fun t ht hlt => ?_⟩
  · intro t ht
    obtain ⟨t', ht', rfl⟩ := Option.map_eq_some_iff.mp ht
    exact Nat.succ_le_succ (hw.hi t' ht')
  · show (w.quit || S.os.ctrlC now) = true
    rw [Bool.or_eq_true]
    rcases Nat.lt_or_ge t w.time with hpast | hge
    · exact Or.inl (hw.quit t ht hpast)
    · obtain rfl : t = now := by
        have hlt : t < w.time + 1 := hlt
        omega
      exact Or.inr (hpress t ht)

/-- An answer is given at the moment it is asked for. -/
theorem clock_ask (hpress : S.Presses press) (answer : Nat → α) (entry : α → SysCall) :
    Finishes World.Stuck (Clock press lo hi) (S.ask answer entry) fun a w =>
      Clock press (lo + 1) (hi.map Nat.succ) w ∧ a = answer w.time := by
  refine finishes_bind (clock_tick hpress) fun _ => ?_
  refine finishes_bind (finishes_look _) fun now => ?_
  refine finishes_bind (Q := fun _ w => Clock press (lo + 1) (hi.map Nat.succ) w ∧ now = w.time)
    (finishes_modify fun w ⟨hw, hnow⟩ => ⟨⟨hw.lo, hw.hi, hw.quit⟩, hnow⟩) fun _ => ?_
  exact finishes_pure fun w ⟨hw, hnow⟩ => ⟨hw, by rw [hnow]⟩

/-- The same where the answer does not matter. -/
theorem clock_call (hpress : S.Presses press) (answer : Nat → α) (entry : α → SysCall) :
    Finishes World.Stuck (Clock press lo hi) (S.ask answer entry) fun _ =>
    Clock press (lo + 1) (hi.map Nat.succ) :=
  (clock_ask hpress answer entry).post fun _ _ h => h.1

/-! ## Volumes -/

/-- A round of `find_volume` makes at most four calls besides the one that asks for the next
volume. -/
theorem clock_visitVolume (hpress : S.Presses press) (access : Nat) (name : Name)
    (found : Found) {t : Nat} :
    Finishes World.Stuck (Clock press t (some t)) (S.visitVolume access name found) fun _ =>
      Clock press t (some (t + 4)) := by
  unfold visitVolume
  split
  · exact finishes_pure fun w hw => hw.within le_rfl (by omega)
  refine finishes_bind (clock_call hpress _ _) fun h => ?_
  cases h with
  | none => exact finishes_pure fun w hw => hw.within (by omega) (by omega)
  | some h =>
    refine finishes_bind (clock_call hpress _ _) fun reply => ?_
    split
    · cases found with
      | ok other =>
        refine finishes_bind (clock_call hpress _ _) fun _ => ?_
        refine finishes_bind (clock_call hpress _ _) fun _ => ?_
        exact finishes_pure fun w hw => hw.within (by omega) (by omega)
      | error e => exact finishes_pure fun w hw => hw.within (by omega) (by omega)
    · refine finishes_bind (clock_call hpress _ _) fun _ => ?_
      exact finishes_pure fun w hw => hw.within (by omega) (by omega)

end Setting

/-- After an answer at `t` the list of volumes ends within `n` further answers, each at most five
moments after the one before. -/
def ListedBy (findNext : Nat → Option Name) : (n t : Nat) → Prop
  | 0, _ => False
  | n + 1, t => ∀ t', t < t' → t' ≤ t + 5 → findNext t' = none ∨ ListedBy findNext n t'

namespace Setting

variable {S : Setting} {press : Option Nat} {lo : Nat} {α : Type}

theorem clock_searchVolumes (hpress : S.Presses press) (access : Nat) {n t : Nat}
    (hlist : ListedBy S.os.findNext n t) {fuel : Nat} (hfuel : n ≤ fuel) (name : Name)
    (found : Found) :
    Finishes World.Stuck (Clock press t (some t)) (S.searchVolumes access fuel name found) fun _ =>
    Since press t := by
  induction n generalizing t fuel name found with
  | zero => exact hlist.elim
  | succ n ih =>
    obtain ⟨fuel, rfl⟩ : ∃ k, fuel = k + 1 := ⟨fuel - 1, by omega⟩
    unfold searchVolumes
    refine finishes_bind (clock_visitVolume hpress access name found) fun r => ?_
    obtain ⟨last, found'⟩ := r
    show Finishes World.Stuck (Clock press t (some (t + 4))) (if last = true then _ else _) _
    split
    · exact finishes_pure fun w hw => hw.since le_rfl
    refine finishes_bind (clock_ask hpress _ _) fun next => ?_
    rintro w ⟨hw, hnext⟩
    have h1 := hw.lo
    have h2 := hw.hi (t + 5) rfl
    rcases hlist w.time (by omega) h2 with hnone | hlist'
    · rw [hnone] at hnext
      subst hnext
      exact ⟨fun a w' h => by cases h; exact hw.since (by omega), fun h => by cases h⟩
    · cases next with
      | none => exact ⟨fun a w' h => by cases h; exact hw.since (by omega), fun h => by cases h⟩
      | some name =>
        have hrest := ih hlist' (by omega : n ≤ fuel) name found' w
          ⟨le_rfl, fun _ hx => by cases hx; rfl, hw.quit⟩
        exact ⟨fun a w' h => (hrest.1 a w' h).since (by omega), hrest.2⟩

/-- The moment can be looked up. -/
theorem finishes_since {m : Run World Empty α} {Q : α → World → Prop}
    (h : ∀ t, lo ≤ t → Finishes World.Stuck (Clock press t (some t)) m Q) :
    Finishes World.Stuck (Since press lo) m Q :=
  fun w hw => h w.time hw.lo w ⟨le_rfl, fun _ hx => by cases hx; rfl, hw.quit⟩

section
variable (hpress : S.Presses press) {n : Nat} (hlist : ∀ t, ListedBy S.os.findNext n t)
    (hfuel : n ≤ S.fuel)
include hpress hlist hfuel

theorem since_findVolume (access : Nat) :
    Finishes World.Stuck (Since press lo) (S.findVolume access) fun _ => Since press (lo + 1) := by
  refine finishes_bind (clock_call hpress _ _) fun first => ?_
  cases first with
  | error e => exact finishes_pure fun w hw => hw
  | ok name =>
    refine finishes_bind (Q := fun _ => Since press (lo + 1)) ?_ fun found => ?_
    · exact finishes_since fun t ht =>
        (clock_searchVolumes hpress access (hlist t) hfuel name _).post fun _ _ h => h.since ht
    · refine finishes_bind (clock_call hpress _ _) fun _ => ?_
      exact finishes_pure fun w hw => hw.since (by omega)

theorem since_volumeReady : Finishes World.Stuck (Since press lo) S.volumeReady fun _ =>
    Since press (lo + 1) := by
  refine finishes_bind (since_findVolume hpress hlist hfuel 0) fun found => ?_
  cases found with
  | error e => exact finishes_pure fun w hw => hw
  | ok found =>
    refine finishes_bind (clock_call hpress _ _) fun _ => ?_
    refine finishes_bind (clock_call hpress _ _) fun info => ?_
    exact finishes_pure fun w hw => hw.since (by omega)

omit hlist hfuel in
theorem since_undo (h : Handle) (phase error : Nat) :
    Finishes World.Stuck (Since press lo) (S.undo h phase error) fun r w => Since press lo w ∧
    r.1 = phase := by
  refine finishes_bind (clock_call hpress _ _) fun _ => ?_
  refine finishes_bind (clock_call hpress _ _) fun _ => ?_
  exact finishes_pure fun w hw => ⟨hw.since (by omega), rfl⟩

omit hlist hfuel in
theorem since_volumeMode (h : Handle) :
    Finishes World.Stuck (Since press lo) (S.volumeMode h) fun _ => Since press (lo + 1) :=
  finishes_bind (clock_call hpress _ _) fun _ => finishes_pure fun _ hw => hw

omit hlist hfuel in
theorem since_commit (h : Handle) :
    Finishes World.Stuck (Since press lo) (S.commit h) fun r w => Since press lo w ∧ r.1 ≠ 1 := by
  have hundo : ∀ {lo' : Nat}, lo ≤ lo' → ∀ phase error, phase ≠ 1 →
      Finishes World.Stuck (Since press lo') (S.undo h phase error) fun r w => Since press lo w ∧
      r.1 ≠ 1 :=
    fun hle phase error hne => (since_undo hpress h phase error).post
      fun _ _ ⟨hw, hr⟩ => ⟨hw.since hle, by rwa [hr]⟩
  refine finishes_bind (since_volumeMode hpress h) fun mode => ?_
  split
  · exact hundo (by omega) 2 mode (by decide)
  refine finishes_bind (clock_call hpress _ _) fun flushed => ?_
  cases flushed with
  | some e => exact hundo (by omega) 2 e.code (by decide)
  | none =>
    refine finishes_bind (clock_call hpress _ _) fun dismounted => ?_
    cases dismounted with
    | some e => exact hundo (by omega) 3 e.code (by decide)
    | none =>
      refine finishes_bind (Q := fun _ => Since press lo) ?_ fun _ =>
        finishes_pure fun w hw => ⟨hw, by decide⟩
      exact finishes_modify fun w hw => ⟨by have := hw.lo; show lo ≤ w.time; omega, nofun, hw.quit⟩

/-- Phase 1 is a lock that was refused in the meantime. -/
theorem since_lockAndDismount : Finishes World.Stuck (Since press lo) S.lockAndDismount fun r w =>
    Since press lo w ∧ (r.1 = 1 → ∃ t h e, lo ≤ t ∧ S.os.lock t h = some e ∧ r.2 = e.code) := by
  refine finishes_bind (Q := fun _ => Since press lo) (finishes_gets _ fun w hw => hw)
    fun locked => ?_
  split
  · exact finishes_pure fun w hw => ⟨hw, by simp⟩
  refine finishes_bind (since_findVolume hpress hlist hfuel _) fun found => ?_
  cases found with
  | error e => exact finishes_pure fun w hw => ⟨hw.since (by omega), by simp⟩
  | ok found =>
    obtain ⟨h, root⟩ := found
    refine finishes_bind (since_volumeMode hpress h) fun mode => ?_
    split
    · refine finishes_bind (clock_call hpress _ _) fun _ => ?_
      exact finishes_pure fun w hw => ⟨hw.since (by omega), by simp⟩
    refine finishes_bind (Q := fun locked w => Since press (lo + 3) w ∧
      ∀ e, locked = some e → ∃ t, lo ≤ t ∧ S.os.lock t h = some e) ?_ fun locked => ?_
    · refine (clock_ask hpress _ _).post fun locked w ⟨hw, hlocked⟩ => ⟨hw, fun e he => ?_⟩
      have := hw.lo
      exact ⟨w.time, by omega, hlocked.symm.trans he⟩
    cases locked with
    | none =>
      exact (since_commit hpress h).mono (fun _ hw => hw.1) fun r w ⟨hw, hne⟩ =>
        ⟨hw.since (by omega), fun h => absurd h hne⟩
    | some e =>
      intro w ⟨hw, hlock⟩
      obtain ⟨t, ht, hlock⟩ := hlock e rfl
      refine finishes_bind (since_volumeMode hpress h) (fun mode => ?_) w hw
      refine finishes_bind (clock_call hpress _ _) fun _ => ?_
      refine finishes_pure fun w hw => ⟨hw.since (by omega), fun hphase => ⟨t, h, e, ht, hlock, ?_⟩⟩
      split at hphase
      · cases hphase
      · next hmode => rw [if_neg hmode]

end

/-! ## Coming back -/

theorem since_none (w : World) : Since none w.time w := ⟨le_rfl, nofun, nofun⟩

theorem ended_tick : Ended World.Stuck S.tick :=
  (@clock_tick S none 0 none S.presses_none).mono (fun w _ => (since_none w).since (Nat.zero_le _))
    fun _ _ _ => trivial

theorem ended_ask (answer : Nat → α) (entry : α → SysCall) :
    Ended World.Stuck (S.ask answer entry) :=
  (@clock_call S none 0 none α S.presses_none answer entry).mono
    (fun w _ => (since_none w).since (Nat.zero_le _)) fun _ _ _ => trivial

theorem ended_close : Ended World.Stuck S.close := by
  refine ended_bind (ended_ask _ _) fun before => ?_
  refine ended_bind (ended_ask _ _) fun _ => ?_
  refine ended_bind (ended_ask _ _) fun _ => ?_
  refine ended_bind (ended_ask _ _) fun after => ?_
  refine ended_bind (ended_ask _ _) fun _ => ?_
  refine ended_bind (ended_gets _) fun locked => ?_
  have hguard : Ended World.Stuck (do
      S.ask (fun _ => ()) fun _ => .closeGuard
      pure (if before ≠ 0 then before else if after = Code.operationAborted then 0 else after)) :=
    ended_bind (ended_ask _ _) fun _ => ended_pure _
  cases locked with
  | none => exact hguard
  | some h => exact ended_bind (ended_ask _ _) fun _ => hguard

section
variable {n : Nat} (hlist : ∀ t, ListedBy S.os.findNext n t) (hfuel : n ≤ S.fuel)
include hlist hfuel

theorem ended_volumeReady : Ended World.Stuck S.volumeReady :=
  (since_volumeReady S.presses_none hlist hfuel).mono
    (fun w _ => (since_none w).since (Nat.zero_le _)) fun _ _ _ => trivial

theorem ended_lockAndDismount : Ended World.Stuck S.lockAndDismount :=
  (since_lockAndDismount S.presses_none hlist hfuel).mono
    (fun w _ => (since_none w).since (Nat.zero_le _)) fun _ _ _ => trivial

end

end Setting

end Winluks
