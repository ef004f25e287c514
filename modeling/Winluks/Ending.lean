import Winluks.Clock
import Winluks.Copies
import Winluks.ProgramSpec

/-!
# How a run ends

The other results about `serve` and about the program hold of every run, also of
one that is stopped.  Here is when a run comes to its end: the volumes of the
system are listed to their end, the deadline passes, and either the dispatcher
gives up or the user presses Ctrl+C at a moment after which the volume is not
refused as being in use.  Then only a machine that stops inside a call to the
backend keeps `serve` from coming back.

The variant of the loops is the clock of the world, since every round looks at
it.  `serve_ends` is about `serve`, `program_ends` about the whole program.
-/

namespace Winluks

open Lib Run

/-! ## Serving -/

namespace Setting

variable {S : Setting} {press : Option Nat} {lo : Nat} {α : Type}

section
variable (hpress : S.Presses press) {n : Nat} (hlist : ∀ t, ListedBy S.os.findNext n t)
    (hfuel : n ≤ S.fuel)
include hpress hlist hfuel

theorem since_pollReady : Finishes World.Stuck (Since press lo) S.pollReady fun _ =>
    Since press (lo + 1) := by
  refine finishes_bind (since_volumeReady hpress hlist hfuel) fun ready => ?_
  refine finishes_bind (Q := fun _ => Since press (lo + 1)) ?_ fun _ => finishes_pure fun w hw => hw
  exact finishes_modify fun w hw => ⟨hw.lo, nofun, hw.quit⟩

theorem since_attempt : Finishes World.Stuck (Since press lo) S.attempt fun r w =>
    Since press lo w ∧ (r.1 = 1 → ∃ t h e, lo ≤ t ∧ S.os.lock t h = some e ∧ r.2 = e.code) := by
  refine finishes_bind (Q := fun _ => Since press lo) (finishes_gets _ fun w hw => hw)
    fun before => ?_
  refine finishes_bind (since_lockAndDismount hpress hlist hfuel) fun r => ?_
  let Q := fun w => Since press lo w ∧
    (r.1 = 1 → ∃ t h e, lo ≤ t ∧ S.os.lock t h = some e ∧ r.2 = e.code)
  refine finishes_bind (Q := fun _ => Q) (finishes_gets _ fun w hw => hw) fun calls => ?_
  refine finishes_bind (Q := fun _ => Q) ?_ fun _ => finishes_pure fun w hw => hw
  exact finishes_modify fun w ⟨hw, hr⟩ => ⟨⟨hw.lo, nofun, hw.quit⟩, hr⟩

omit hlist hfuel in
/-- A look at the world after a tick. -/
theorem since_look (f : World → α) :
    Finishes World.Stuck (Since press lo) (S.tick >>= fun _ => Run.gets f) fun a w =>
    Since press (lo + 1) w ∧ a = f w := finishes_bind (clock_tick hpress) fun _ => finishes_look f

/-- **Discovery.**  A round after the deadline is the last. -/
theorem since_discover {deadline : Nat}
    (hdeadline : ∀ t, deadline ≤ t → S.os.beforeDeadline t = false) {rounds : Nat}
    (hpos : 0 < rounds) (hcover : deadline + 1 ≤ lo + rounds) (ready : Nat) :
    Finishes World.Stuck (Since press lo) (S.discover rounds ready) fun _ => Since press lo := by
  induction rounds generalizing lo ready with
  | zero => omega
  | succ rounds ih =>
    unfold discover
    split
    · exact finishes_pure fun w hw => hw
    refine finishes_bind (since_look hpress _) fun early => ?_
    cases early with
    | false => exact finishes_pure fun w hw => hw.1.since (by omega)
    | true =>
      rintro w ⟨hw, hearly⟩
      have hlt : w.time < deadline := by
        by_contra hge
        rw [hdeadline w.time (by omega)] at hearly
        cases hearly
      have hlo := hw.lo
      refine finishes_bind (clock_call hpress _ _) (fun error => ?_) w hw
      split
      · exact finishes_pure fun w hw => hw.since (by omega)
      refine finishes_bind (since_look hpress _) fun faulted => ?_
      split
      · exact finishes_pure fun w hw => hw.1.since (by omega)
      refine finishes_bind ((since_look hpress _).pre fun _ hw => hw.1) fun quit => ?_
      split
      · exact finishes_pure fun w hw => hw.1.since (by omega)
      refine finishes_bind ((clock_tick hpress).pre fun _ hw => hw.1) fun _ => ?_
      refine finishes_bind (since_pollReady hpress hlist hfuel) fun ready => ?_
      exact (ih (by omega) (by omega) ready).post fun _ _ hw => hw.since (by omega)

omit hlist hfuel in
/-- A press of Ctrl+C in the past is seen, and answered. -/
theorem since_quitSwap : Finishes World.Stuck (Since press lo) S.quitSwap fun quit w =>
    lo + 1 ≤ w.time ∧ w.quit = false ∧ ∀ t ∈ press, t < w.time → quit = true := by
  refine finishes_bind (clock_tick hpress) fun _ => ?_
  refine finishes_bind (finishes_look _) fun quit => ?_
  refine finishes_bind (Q := fun _ w => lo + 1 ≤ w.time ∧ w.quit = false ∧ ∀ t ∈ press, t < w.time →
    quit = true) ?_ fun _ => finishes_pure fun w hw => hw
  exact finishes_modify fun w ⟨hw, hquit⟩ =>
    ⟨hw.lo, rfl, fun t ht hlt => hquit.trans (hw.quit t ht hlt)⟩

/-- An attempt that is tried again was made before `T`. -/
theorem again_attempt {T : Nat} {w : World} (hrw : S.readOnly = false)
    (hover : press = none ∧ (∀ t, T ≤ t → S.os.dispatcherError t ≠ 0) ∨ press = some T ∧
      (S.readOnly = true ∨ ∀ t, T ≤ t → ∀ h e, S.os.lock t h = some e → e.code ∉ sharing))
    (hstart : press = none ∨ w.time ≤ T → lo < T ∧ Since press w.time w) :
    Finishes World.Stuck (· = w) S.attempt fun r w' =>
      r.1 = 1 ∧ r.2 ∈ sharing → lo < T ∧ Since press w.time w' := by
  by_cases hgo : press = none ∨ w.time ≤ T
  · obtain ⟨hT, hw⟩ := hstart hgo
    exact (since_attempt hpress hlist hfuel).mono (fun _ h => h ▸ hw) fun _ _ h _ => ⟨hT, h.1⟩
  · -- the press is past: no lock is refused for a volume in use
    refine (since_attempt (presses_none S) hlist hfuel).mono
      (fun w' h => (h ▸ since_none w : Since none w.time w')) ?_
    rintro r w' ⟨-, hr⟩ ⟨hphase, hcode⟩
    obtain ⟨t, h, e, ht, hlock, hre⟩ := hr hphase
    rw [not_or, not_le] at hgo
    rcases hover with ⟨hnone, -⟩ | ⟨-, hcalm⟩
    · exact absurd hnone hgo.1
    · rw [hrw] at hcalm
      exact absurd (hre ▸ hcode) (hcalm.resolve_left Bool.false_ne_true t (by omega) h e hlock)

/-- **Holding the volume.**  From `T` on a round is the last: the dispatcher has given up, or there
was a Ctrl+C, and it is not refused for a volume in use. -/
theorem ended_hold {T : Nat} (hover : press = none ∧ (∀ t, T ≤ t → S.os.dispatcherError t ≠ 0) ∨
    press = some T ∧
      (S.readOnly = true ∨ ∀ t, T ≤ t → ∀ h e, S.os.lock t h = some e → e.code ∉ sharing))
    {rounds : Nat} (hpos : 0 < rounds) (hcover : T + 1 ≤ lo + rounds) :
    Finishes World.Stuck (Since press lo) (S.hold rounds) fun _ _ => True := by
  induction rounds generalizing lo with
  | zero => omega
  | succ rounds ih =>
    -- another round is made only before `T`
    have again : ∀ lo', lo < lo' → lo < T →
        Finishes World.Stuck (Since press lo') (S.hold rounds) fun _ _ => True :=
      fun lo' hlo hT => ih (by omega) (by omega)
    unfold hold
    refine finishes_bind (clock_ask hpress _ _) fun error => ?_
    by_cases hzero : error = 0
    case neg =>
      rw [if_pos hzero]
      exact finishes_pure fun _ _ => trivial
    rw [if_neg (not_not.mpr hzero)]
    rintro w ⟨hw, herror⟩
    have hlo := hw.lo
    refine finishes_bind (since_look hpress _) (fun faulted => ?_) w hw
    split
    · exact finishes_pure fun _ _ => trivial
    refine finishes_bind ((since_quitSwap hpress).pre fun _ hw => hw.1) fun quit => ?_
    rintro w' ⟨hlo', -, hseen⟩
    have hstart : press = none ∨ w'.time ≤ T → lo < T ∧ Since press w'.time w' := by
      intro h
      rcases hover with ⟨rfl, herr⟩ | ⟨rfl, -⟩
      · have hlt : lo < T := by
          by_contra hge
          exact herr w.time (by omega) (herror.symm.trans hzero)
        exact ⟨hlt, since_none w'⟩
      · have hle : w'.time ≤ T := h.resolve_left (Option.some_ne_none T)
        exact ⟨by omega, le_rfl, (fun _ ht => by cases ht), fun t ht hlt => by cases ht; omega⟩
    cases quit with
    | false =>
      have hgo : press = none ∨ w'.time ≤ T := by
        rcases hover with ⟨rfl, -⟩ | ⟨rfl, -⟩
        · exact Or.inl rfl
        · exact Or.inr (not_lt.mp fun hlt => by cases hseen T rfl hlt)
      obtain ⟨hT, hw'⟩ := hstart hgo
      exact finishes_bind (clock_tick hpress) (fun _ => again _ (by omega) hT) w' hw'
    | true =>
      cases hro : S.readOnly with
      | true => exact ⟨fun _ _ _ => trivial, fun h => by cases h⟩
      | false =>
        refine finishes_bind (again_attempt hpress hlist hfuel hro hover hstart)
          (fun r => ?_) w' rfl
        split
        · exact finishes_pure fun _ _ => trivial
        split
        · next hagain =>
          intro w'' hw''
          obtain ⟨hT, hw''⟩ := hw'' hagain
          exact finishes_bind (clock_tick hpress) (fun _ => again _ (by omega) hT) w'' hw''
        · refine Finishes.pre (finishes_bind ended_tick fun _ => ?_) fun _ _ => trivial
          exact ended_bind (ended_modify _) fun _ => ended_pure _

omit hlist hfuel hpress in
theorem ended_shutdown : Ended World.Stuck S.shutdown := by
  refine ended_bind (ended_zoom (fun _ _ => rfl) (ended_attempt (Adapter.ended_flush S.volume 0 0)))
    fun synced => ?_
  refine ended_bind (ended_bind ended_tick fun _ => ended_modify _) fun _ => ?_
  refine ended_bind (ended_zoom (fun _ _ => rfl) (ended_modify _)) fun _ => ?_
  refine ended_bind ended_close fun transportError => ?_
  exact ended_bind ended_tick fun _ => ended_bind (ended_gets _) fun faulted => ended_pure _

omit hlist hfuel hpress in
theorem verdict_ne_halt (ready : Nat) (clean failed : Bool) :
    S.verdict ready clean failed ≠ .halt := by
  unfold verdict
  split
  · nofun
  · split
    · nofun
    · split <;> nofun

theorem since_giveUp : Finishes World.Stuck (Since press lo) S.giveUp fun _ _ => True := by
  unfold giveUp
  split
  · exact finishes_pure fun _ _ => trivial
  · exact finishes_bind (since_attempt hpress hlist hfuel) fun r => finishes_pure fun _ _ => trivial

/-- **A session.**  With fuel for every wait it comes to its end. -/
theorem ended_session {deadline T : Nat}
    (hdeadline : ∀ t, deadline ≤ t → S.os.beforeDeadline t = false)
    (hover : press = none ∧ (∀ t, T ≤ t → S.os.dispatcherError t ≠ 0) ∨ press = some T ∧
      (S.readOnly = true ∨ ∀ t, T ≤ t → ∀ h e, S.os.lock t h = some e → e.code ∉ sharing))
    (hfirst : deadline + 1 ≤ S.fuel) (hsecond : T + 1 ≤ S.fuel) :
    Finishes World.Stuck (Since press 0) S.session fun _ _ => True := by
  have hnative : ∀ {α : Type} {m : Run World Empty α},
      Finishes World.Stuck (Since press 0) m (fun _ => Since press 1) →
        Finishes World.Stuck (Since press 0) (native m) fun _ => Since press 0 :=
    fun h => finishes_mapErr (h.post fun _ _ hw => hw.since (by omega)) _
  refine finishes_bind (hnative (clock_tick hpress)) fun _ => ?_
  refine finishes_bind (hnative (since_pollReady hpress hlist hfuel)) fun first => ?_
  refine finishes_bind (finishes_mapErr
    (since_discover hpress hlist hfuel hdeadline (by omega) (by omega) first) _) fun ready => ?_
  refine finishes_bind (Q := fun _ _ => True) (finishes_mapErr ?_ _) fun clean => ?_
  · split
    · exact ended_hold hpress hlist hfuel hover (by omega) (by omega)
    · exact since_giveUp hpress hlist hfuel
  refine finishes_bind (finishes_mapErr ended_shutdown _) fun failed => ?_
  exact ended_lift (verdict_ne_halt ready clean failed)

/-- **Serving.**  It fails before there is a disk, or it is a session. -/
theorem ended_serve {deadline T : Nat}
    (hdeadline : ∀ t, deadline ≤ t → S.os.beforeDeadline t = false)
    (hover : press = none ∧ (∀ t, T ≤ t → S.os.dispatcherError t ≠ 0) ∨ press = some T ∧
      (S.readOnly = true ∨ ∀ t, T ≤ t → ∀ h e, S.os.lock t h = some e → e.code ∉ sharing))
    (hfirst : deadline + 1 ≤ S.fuel) (hsecond : T + 1 ≤ S.fuel) :
    Finishes World.Stuck (Since press 0) S.serve fun _ _ => True := by
  intro w hw
  rcases S.serve_cases w with ⟨-, e, he⟩ | ⟨-, hsession⟩
  · rw [he]
    exact ⟨fun _ _ _ => trivial, nofun⟩
  · rw [hsession]
    exact ended_session hpress hlist hfuel hdeadline hover hfirst hsecond _ ⟨hw.lo, nofun, hw.quit⟩

end

/-! ## Fuel -/

/-- The same with other fuel. -/
def withFuel (S : Setting) (fuel : Nat) : Setting := { S with fuel }

section
variable (S : Setting) {n n' : Nat} (hle : n ≤ n')
include hle

theorem extends_searchVolumes (k k' access : Nat) (name : Name) (found : Found) :
    Extends ((S.withFuel k).searchVolumes access n name found)
      ((S.withFuel k').searchVolumes access n' name found) := by
  induction n generalizing n' name found with
  | zero => exact extends_halt _
  | succ n ih =>
    obtain ⟨n', rfl⟩ : ∃ k, n' = k + 1 := ⟨n' - 1, by omega⟩
    unfold searchVolumes
    refine extends_bind (extends_refl _) fun r => ?_
    obtain ⟨last, found'⟩ := r
    show Extends (if last = true then _ else _) (if last = true then _ else _)
    split
    · exact extends_refl _
    refine extends_bind (extends_refl _) fun next => ?_
    cases next with
    | none => exact extends_refl _
    | some name => exact ih (by omega) name found'

theorem extends_findVolume (access : Nat) :
    Extends ((S.withFuel n).findVolume access) ((S.withFuel n').findVolume access) := by
  refine extends_bind (extends_refl _) fun first => ?_
  cases first with
  | error e => exact extends_refl _
  | ok name => exact extends_bind (extends_searchVolumes S hle n n' access name _) fun _ =>
      extends_refl _

theorem extends_pollReady : Extends (S.withFuel n).pollReady (S.withFuel n').pollReady := by
  refine extends_bind ?_ fun _ => extends_refl _
  exact extends_bind (extends_findVolume S hle 0) fun _ => extends_refl _

theorem extends_attempt : Extends (S.withFuel n).attempt (S.withFuel n').attempt := by
  refine extends_bind (extends_refl _) fun before => extends_bind ?_ fun _ => extends_refl _
  refine extends_bind (extends_refl _) fun locked => ?_
  split
  · exact extends_refl _
  · exact extends_bind (extends_findVolume S hle _) fun _ => extends_refl _

theorem extends_discover {k k' : Nat} (hk : k ≤ k') (ready : Nat) :
    Extends ((S.withFuel n).discover k ready) ((S.withFuel n').discover k' ready) := by
  induction k generalizing k' ready with
  | zero => exact extends_halt _
  | succ k ih =>
    obtain ⟨k', rfl⟩ : ∃ m, k' = m + 1 := ⟨k' - 1, by omega⟩
    unfold discover
    split
    · exact extends_refl _
    refine extends_bind (extends_refl _) fun early => ?_
    split
    · exact extends_refl _
    refine extends_bind (extends_refl _) fun error => ?_
    split
    · exact extends_refl _
    refine extends_bind (extends_refl _) fun faulted => ?_
    split
    · exact extends_refl _
    refine extends_bind (extends_refl _) fun quit => ?_
    split
    · exact extends_refl _
    refine extends_bind (extends_refl _) fun _ => ?_
    exact extends_bind (extends_pollReady S hle) fun ready => ih (by omega) ready

theorem extends_hold {k k' : Nat} (hk : k ≤ k') :
    Extends ((S.withFuel n).hold k) ((S.withFuel n').hold k') := by
  induction k generalizing k' with
  | zero => exact extends_halt _
  | succ k ih =>
    obtain ⟨k', rfl⟩ : ∃ m, k' = m + 1 := ⟨k' - 1, by omega⟩
    unfold hold
    refine extends_bind (extends_refl _) fun error => ?_
    split
    · exact extends_refl _
    refine extends_bind (extends_refl _) fun faulted => ?_
    split
    · exact extends_refl _
    refine extends_bind (extends_refl _) fun quit => ?_
    split
    · show Extends (if S.readOnly = true then _ else _) (if S.readOnly = true then _ else _)
      split
      · exact extends_refl _
      refine extends_bind (extends_attempt S hle) fun r => ?_
      split
      · exact extends_refl _
      split
      · exact extends_bind (extends_refl _) fun _ => ih (by omega)
      · exact extends_refl _
    · exact extends_bind (extends_refl _) fun _ => ih (by omega)

/-- **More fuel changes nothing about a run that came to its end.** -/
theorem extends_session : Extends (S.withFuel n).session (S.withFuel n').session := by
  refine extends_bind (extends_refl _) fun _ => ?_
  refine extends_bind (extends_mapErr (extends_pollReady S hle) _) fun first => ?_
  refine extends_bind (extends_mapErr (extends_discover S hle hle first) _) fun ready => ?_
  refine extends_bind (extends_mapErr ?_ _) fun clean => extends_refl _
  split
  · exact extends_hold S hle hle
  · show Extends (if S.readOnly = true then _ else _) (if S.readOnly = true then _ else _)
    split
    · exact extends_refl _
    · exact extends_bind (extends_attempt S hle) fun r => extends_refl _

theorem extends_serve : Extends (S.withFuel n).serve (S.withFuel n').serve := by
  refine extends_bind (extends_refl _) fun _ => extends_bind (extends_refl _) fun _ => ?_
  refine extends_bind (extends_refl _) fun _ => extends_bind (extends_refl _) fun _ => ?_
  exact extends_bind (extends_refl _) fun _ => extends_session S hle

end

end Setting

/-- What comes to pass around a session, sooner or later.  The volumes of the system are listed to
their end, and time passes.  The dispatcher gives up; or Ctrl+C is pressed, and from then on no lock
is refused for a volume in use. -/
structure Os.Settles (os : Os) (readOnly : Bool) : Prop where
  listed : ∃ n, ∀ t, ListedBy os.findNext n t
  deadline : ∃ T, ∀ t, T ≤ t → os.beforeDeadline t = false
  closed : (∃ T, ∀ t, T ≤ t → os.dispatcherError t ≠ 0) ∨ ∃ T, os.ctrlC T = true ∧
    (readOnly = true ∨ ∀ t, T ≤ t → ∀ h e, os.lock t h = some e → e.code ∉ Setting.sharing)

/-- The fuel is enough whatever volume is served, and whether or not its driver is found to be
ready. -/
theorem Setting.finishes_serve {os : Os} {readOnly : Bool} (h : os.Settles readOnly) :
    ∃ enough, ∀ (S : Setting) ready,
    S.os = { os with consumerReady := ready } → S.readOnly = readOnly → enough ≤ S.fuel →
      ∃ press, Finishes World.Stuck (Since press 0) S.serve fun _ _ => True := by
  obtain ⟨n, hlist⟩ := h.listed
  obtain ⟨D, hdeadline⟩ := h.deadline
  rcases h.closed with ⟨T, herror⟩ | ⟨T, hctrlC, hcalm⟩
  · refine ⟨n + (D + 1) + (T + 1), fun S ready hos hro hfuel => ⟨none, ?_⟩⟩
    exact ended_serve S.presses_none (n := n) (by rw [hos]; exact hlist) (by omega)
      (by rw [hos]; exact hdeadline) (Or.inl ⟨rfl, by rw [hos]; exact herror⟩) (by omega) (by omega)
  · refine ⟨n + (D + 1) + (T + 1), fun S ready hos hro hfuel => ⟨some T, ?_⟩⟩
    exact ended_serve (fun t ht => by cases ht; rw [hos]; exact hctrlC) (n := n)
      (by rw [hos]; exact hlist) (by omega) (by rw [hos]; exact hdeadline)
      (Or.inr ⟨rfl, by rw [hos, hro]; exact hcalm⟩) (by omega) (by omega)

/-! ## The program -/

namespace Metadata

variable (prim : Primitives) (ext : Parsers) (img : Image)

theorem finishes_header (offset : Nat) :
    Finishes Disk.Stuck (fun _ => True) (header prim ext img offset) fun a _ =>
    HeaderSize a.size := by
  refine finishes_of_ended ?_ fun a d d' h => ?_
  · refine ended_bind (finishes_mapErr (img.ended_readExactAt _ _) _) fun fixed => ?_
    refine ended_bind (ended_lift (returns_headerFixed _ _ _).ne_halt) fun e => ?_
    refine ended_bind (finishes_mapErr (img.ended_readExactAt _ _) _) fun data => ?_
    exact ended_lift (returns_headerData _ _ _ _ _ _ _).ne_halt
  · exact (headerOf_size ((computes_header prim ext img d.file offset).ok rfl h).1).1

theorem ended_read : Ended Disk.Stuck (read prim ext img) := by
  refine finishes_bind (finishes_header prim ext img 0) fun a => ?_
  intro d ha
  have hsecond := (finishes_header prim ext img a.size).post fun _ _ _ => trivial
  refine ended_bind hsecond (fun b => ?_) d trivial
  refine ended_bind (ended_lift (Outcome.failIf_ne_halt _ _)) fun _ =>
    ended_lift (Outcome.Returns.ne_halt ?_)
  have hleast := ha.least
  exact (errs_fromJson ext a.json (by omega) img.len).returns

end Metadata

theorem UnlockedVolume.ended_unlock (prim : Primitives) (ext : Parsers) (image : Image)
    (keyslot : Nat) (password : Bytes) :
    Ended Disk.Stuck (unlock prim ext image keyslot password) := by
  refine ended_bind (Metadata.ended_read prim ext image) fun m => ?_
  refine ended_bind (ended_lift (Outcome.failIf_ne_halt _ _)) fun _ => ?_
  refine ended_bind (ended_lift (Outcome.failIf_ne_halt _ _)) fun _ => ?_
  refine ended_bind (ended_lift (Outcome.ofOption_ne_halt _ _)) fun s => ?_
  refine ended_bind (ended_lift (Kdf.returns_derive _ _ _ _).ne_halt) fun derived => ?_
  refine ended_bind (ended_lift (Outcome.trapMul_ne_halt _ _ _)) fun size => ?_
  refine ended_bind (image.ended_readExactAt _ _) fun encrypted => ?_
  refine ended_bind (ended_lift (returns_cryptSectors _ _ _ _ _).ne_halt) fun af => ?_
  refine ended_bind (ended_lift (returns_afMerge _ _ _ _).ne_halt) fun key => ?_
  refine ended_bind (ended_lift (Kdf.returns_derive _ _ _ _).ne_halt) fun digest => ?_
  refine ended_bind (ended_lift (Outcome.failIf_ne_halt _ _)) fun _ => ?_
  exact ended_bind (ended_lift (returns_keyNew _ _).ne_halt) fun key => ended_pure _

theorem Probe.ended_check {σ : Type} {stuck : σ → Prop} (crc32c : Bytes → UInt32) (length : Nat)
    (fs : Filesystem) {read : Nat → Nat → Run σ Error Bytes}
    (hread : ∀ o n, Ended stuck (read o n)) :
    Ended stuck (check crc32c length fs read) := by
  have hmirrors :
      ∀ primary offsets, Ended stuck (checkMirrors crc32c length read primary offsets) := by
    intro primary offsets
    induction offsets with
    | nil => exact ended_pure ()
    | cons offset rest ih =>
      unfold checkMirrors
      split
      · exact ended_pure ()
      refine ended_bind (hread _ _) fun mirror => ?_
      refine ended_bind (ended_lift (returns_btrfsAt _ _ _).ne_halt) fun _ => ?_
      exact ended_bind (ended_lift (Outcome.failIf_ne_halt _ _)) fun _ => ih
  cases fs with
  | ext4 =>
    refine ended_bind (hread _ _) fun s => ended_lift (Outcome.Returns.ne_halt ?_)
    simp [ext4, ext4Features, ext4Geometry, Outcome.returns_bind]
  | btrfs =>
    refine ended_bind (hread _ _) fun primary => ?_
    exact ended_bind (ended_lift (returns_btrfsAt _ _ _).ne_halt) fun _ => hmirrors primary _

theorem UnlockedVolume.ended_validate (prim : Primitives) (v : UnlockedVolume)
    (crc32c : Bytes → UInt32) (filesystem : Filesystem) :
    Ended Io.Stuck (v.validate prim crc32c filesystem) :=
  ended_bind (Probe.ended_check crc32c v.len filesystem (v.ended_readAt prim)) fun _ => ended_pure _

theorem Adapter.ended_checkConsumer (sys : Consumer) (sha256 : Bytes → Bytes)
    (filesystem : Filesystem) (mode : AccessMode) :
    Ended Disk.Stuck (Adapter.checkConsumer sys sha256 filesystem mode) := by
  refine ended_bind (ended_lift (Outcome.failIf_ne_halt _ _)) fun _ => ?_
  refine ended_bind (ended_lift (Outcome.ofOption_ne_halt _ _)) fun buffer => ?_
  refine ended_bind (ended_lift ?_) fun image => ?_
  · have h := returns_openWindows sys.driver (Utf16.toUtf8 (Shim.text buffer)) .readOnly
    cases hopen : Image.openWindows sys.driver (Utf16.toUtf8 (Shim.text buffer)) .readOnly with
    | halt => rw [hopen] at h; exact h.elim
    | _ => nofun
  refine ended_bind (ended_lift (Outcome.failIf_ne_halt _ _)) fun _ => ?_
  refine ended_bind (finishes_mapErr (image.ended_readExactAt _ _) _) fun bytes => ?_
  exact ended_lift (Outcome.failIf_ne_halt _ _)

/-- The machine stopped inside a call to the image or to the driver's file. -/
def Invocation.Stuck (p : Invocation) : Prop := p.io.Stuck ∨ p.driver.Stuck

namespace Invocation

variable {α : Type}

theorem ended_onImage {m : Run Disk Error α} (h : Ended Disk.Stuck m) : Ended Stuck (onImage m) :=
  Finishes.weaken (ended_zoom (fun _ _ => rfl) h : Ended (fun p : Invocation => p.io.disk.Stuck) _)
    fun _ => Or.inl

theorem ended_onDriver {m : Run Disk Error α} (h : Ended Disk.Stuck m) : Ended Stuck (onDriver m) :=
  Finishes.weaken (ended_zoom (fun _ _ => rfl) h : Ended (fun p : Invocation => p.driver.Stuck) _)
    fun _ => Or.inr

theorem ended_onIo {m : Run Io Error α} (h : Ended Io.Stuck m) : Ended Stuck (onIo m) :=
  Finishes.weaken (ended_zoom (fun _ _ => rfl) h : Ended (fun p : Invocation => p.io.Stuck) _)
    fun _ => Or.inl

end Invocation

namespace Environment

variable (E : Environment)

theorem extends_run {n n' : Nat} (hle : n ≤ n') (cmd : Command) :
    Extends ((E.withFuel n).run cmd) ((E.withFuel n').run cmd) := by
  have hserve : ∀ v, Extends ((E.withFuel n).serve v) ((E.withFuel n').serve v) := by
    intro v p hne
    have h := (E.setting v).extends_serve hle (World.start p.io) hne
    have h' : ((E.withFuel n').setting v).serve (World.start p.io) =
        ((E.withFuel n).setting v).serve (World.start p.io) := h
    rw [serve, serve, h']
  refine extends_bind (extends_refl _) fun image => extends_bind (extends_refl _) fun m => ?_
  cases cmd with
  | inspect => exact extends_refl _
  | openVolume keyslot filesystem readWrite =>
    refine extends_bind (extends_refl _) fun _ => extends_bind (extends_refl _) fun _ => ?_
    refine extends_bind (extends_refl _) fun _ => extends_bind (extends_refl _) fun _ => ?_
    refine extends_bind (extends_refl _) fun password => extends_bind (extends_refl _) fun vol => ?_
    have hpublish :
        Extends ((E.withFuel n).publish vol filesystem) ((E.withFuel n').publish vol filesystem) :=
      extends_bind (extends_refl _) fun v => extends_bind (extends_refl _) fun _ => hserve v
    show Extends (if E.keyIsLocked = true then _ else _) (if E.keyIsLocked = true then _ else _)
    split
    · exact hpublish
    · exact extends_bind (extends_refl _) fun _ => hpublish

theorem ended_say (s : Streams) (o : Output) : Run.Ended Invocation.Stuck (Invocation.say s o) := by
  unfold Invocation.say
  split
  · exact ended_modify _
  · exact ended_lift nofun

/-- **The program.**  With fuel for every wait it comes to its end. -/
theorem ended_run {cmd : Command} (h : E.os.Settles (cmd.mode = .readOnly)) :
    ∃ enough, ∀ fuel, enough ≤ fuel →
    Run.Ended Invocation.Stuck ((E.withFuel fuel).run cmd) := by
  obtain ⟨enough, henough⟩ := Setting.finishes_serve h
  refine ⟨enough, fun fuel hfuel => ?_⟩
  have hserve : ∀ v : ValidatedVolume, v.mode = cmd.mode →
      Run.Ended Invocation.Stuck ((E.withFuel fuel).serve v) := by
    intro v hv p _
    obtain ⟨press, hfin⟩ := henough ((E.withFuel fuel).setting v) _ rfl (by rw [← hv]; rfl) hfuel
    exact ⟨fun _ _ _ => trivial, fun hhalt =>
      Or.inl ((hfin (World.start p.io) ⟨Nat.zero_le _, nofun, fun t _ hlt =>
      absurd hlt (Nat.not_lt_zero t)⟩).2 hhalt)⟩
  have hpublish : ∀ (vol : UnlockedVolume) fs, vol.image.mode = cmd.mode →
      Run.Ended Invocation.Stuck ((E.withFuel fuel).publish vol fs) := by
    intro vol fs hvol
    refine finishes_bind (Q := fun v _ => v.mode = cmd.mode) ?_ fun v => ?_
    · refine finishes_of_ended (Invocation.ended_onIo (vol.ended_validate _ _ fs)) fun v
        p p' hv => ?_
      obtain ⟨hv, -⟩ := Prod.mk.inj hv
      obtain rfl := volume_of_validate (Prod.ext hv rfl :
        vol.validate E.prim E.crc32c fs p.io = (.ok v, _))
      exact hvol
    · intro p hv
      exact ended_bind (ended_say _ _) (fun _ => hserve v hv) p trivial
  refine finishes_bind (Q := fun image _ => image.mode = cmd.mode) ?_ fun image => ?_
  · exact finishes_lift (returns_openWindows _ _ _).ne_halt fun image _ himage _ =>
      (mode_of_openWindows himage).1
  intro p himage
  refine ended_bind (Invocation.ended_onImage (Metadata.ended_read _ _ image))
    (fun m => ?_) p trivial
  cases cmd with
  | inspect => exact ended_say _ _
  | openVolume keyslot filesystem readWrite =>
    refine ended_bind (ended_lift (Outcome.failIf_ne_halt _ _)) fun _ => ?_
    refine ended_bind (Invocation.ended_onDriver (Adapter.ended_checkConsumer _ _ _ _)) fun _ => ?_
    refine ended_bind (ended_lift (Outcome.failIf_ne_halt _ _)) fun _ => ?_
    refine ended_bind (ended_say _ _) fun _ => ?_
    refine ended_bind (ended_lift (Outcome.ofOption_ne_halt _ _)) fun password => ?_
    refine finishes_bind (Q := fun vol _ => vol.image.mode =
      (Command.openVolume keyslot filesystem readWrite).mode) ?_ fun vol => ?_
    · refine finishes_of_ended (Invocation.ended_onImage
        (UnlockedVolume.ended_unlock _ _ image keyslot password)) ?_
      intro vol p p' hunlock
      obtain ⟨hunlock, -⟩ := Prod.mk.inj hunlock
      obtain ⟨rfl, -⟩ := layout_of_unlock
        (Prod.ext hunlock rfl : UnlockedVolume.unlock E.prim E.ext image keyslot password
          p.io.disk = (.ok vol, _))
      exact himage
    · intro p hvol
      have hpub := hpublish vol filesystem hvol
      have hrest : Run.Ended Invocation.Stuck
          (if E.keyIsLocked then (E.withFuel fuel).publish vol filesystem else do
          Invocation.say E.streams .keyMemoryLockUnavailable
          (E.withFuel fuel).publish vol filesystem) := by
        split
        · exact hpub
        · exact ended_bind (ended_say _ _) fun _ => hpub
      exact hrest p trivial

theorem exitCode_none {s : Streams} {o : Outcome Error Unit} : s.exitCode o = none ↔ o = .halt := by
  cases o <;> simp [Streams.exitCode]

/-- **The program comes to its end.**  On an environment that settles, with enough fuel for its
waits, any command ends with an exit code unless the machine stops inside a call to a file; and more
fuel changes nothing about the run. The backend is any whose interruptions end: what a `Disk` plans
is finite. -/
theorem program_ends (E : Environment) (cmd : Command) (h : E.os.Settles (cmd.mode = .readOnly)) :
    ∃ enough, ∀ fuel, enough ≤ fuel → ∀ d dr,
      let run := fun n => (E.withFuel n).run cmd (.start d dr)
      (E.streams.exitCode (run fuel).1 = none → (run fuel).2.Stuck) ∧
      (E.streams.exitCode (run enough).1 ≠ none → run fuel = run enough) := by
  obtain ⟨enough, henough⟩ := E.ended_run h
  refine ⟨enough, fun fuel hfuel d dr => ⟨fun hnone => ?_, fun hsome => ?_⟩⟩
  · exact (henough fuel hfuel _ trivial).2 (exitCode_none.mp hnone)
  · exact E.extends_run hfuel cmd _ fun hhalt => hsome (exitCode_none.mpr hhalt)

/-- A machine in a faultless run does not stop. -/
theorem Faultless.not_stuck {E : Environment} {cmd : Command} {d dr : Disk} {p : Invocation}
    (hf : E.Faultless cmd d dr p) (hd : d.calls = []) (hdr : dr.calls = []) {image img : Image}
    (hopen : Image.openWindows E.file E.path cmd.mode = .ok image)
    (hopens : OpensDriver E.consumer img) :
    ¬ p.Stuck := by
  rintro (⟨c, hc, hhalted⟩ | ⟨c, hc, hhalted⟩)
  · obtain ⟨-, -, hno⟩ := hf.image image hopen c (by rwa [hd, List.length_nil, List.drop_zero])
    rw [hhalted] at hno
    cases hno
  · obtain ⟨-, -, hno⟩ := hf.driver img hopens c (by rwa [hdr, List.length_nil, List.drop_zero])
    rw [hhalted] at hno
    cases hno

/-- One volume, a deadline, and a Ctrl+C that is not refused. -/
theorem sampleOs_settles : Setting.sampleOs.Settles false where
  listed := ⟨1, fun _ _ _ _ => Or.inl rfl⟩
  deadline := ⟨20, fun t ht => by simp [Setting.sampleOs]; omega⟩
  closed := Or.inr ⟨10, by decide, Or.inr nofun⟩

/-- No call stops in the run on the small image. -/
theorem sample_not_stuck (n : Nat) :
    ¬ ((Sample.environment n).run Sample.command
      (.start Sample.imageDisk Sample.driverDisk)).2.Stuck := by
  obtain ⟨img, hopens, -⟩ := Sample.approved.driver
  exact (Sample.faultless n Sample.command).not_stuck rfl rfl (Sample.environment_opens _) hopens

theorem withFuel_sample (n : Nat) : (Sample.environment 8).withFuel n = Sample.environment n := rfl

/-- The small volume is served, and the program comes to its end. -/
theorem program_ends_sample : ∃ n,
    ((Sample.environment n).run Sample.command
      (.start Sample.imageDisk Sample.driverDisk)).2.Published ∧
    (Sample.environment n).streams.exitCode
      ((Sample.environment n).run Sample.command (.start Sample.imageDisk Sample.driverDisk)).1 ≠
      none := by
  have hends : ∀ (E : Environment) (cmd : Command), E.os.Settles (cmd.mode = .readOnly) →
      ∃ n, ∀ d dr, E.streams.exitCode ((E.withFuel n).run cmd (.start d dr)).1 = none →
        ((E.withFuel n).run cmd (.start d dr)).2.Stuck := by
    intro E cmd h
    obtain ⟨n, hn⟩ := program_ends E cmd h
    exact ⟨n, fun d dr => (hn n le_rfl d dr).1⟩
  obtain ⟨n, hn⟩ := hends (Sample.environment 8) Sample.command sampleOs_settles
  refine ⟨n, Sample.published n, fun hnone => sample_not_stuck n ?_⟩
  rw [← withFuel_sample] at hnone ⊢
  exact hn _ _ hnone

end Environment

end Winluks
