import Winluks.Program

/-!
# The whole program

What holds of every run of the program, on any environment and any backend: it
writes nothing and asks for nothing before its time (`program_frames`), it
serves what is established (`program_serves`), and a crash leaves of the image
what was acknowledged (`program_crash`).

A run is `Faultless` when no call to the image or to the driver's file goes
wrong; over files that do their work every run is (`faultless_of_steady`).
-/

namespace Winluks

open Lib Machine

/-! ## Runs without faults -/

/-- Over a backend that does its work, `serve` makes no call that goes wrong. -/
theorem Setting.steadily_serve (S : Setting) (io : Io) : Steadily S.volume.volume.image.len io.disk
    (S.serve (World.start io)).2.adapter.io.disk := by
  obtain ⟨es, hpath, -⟩ := S.serve_path io
  refine hpath.invariant (P := fun _ s => Steadily S.volume.volume.image.len io.disk s.disk)
    (fun past s e s' hpast _ hstep => ?_) (steadily_refl io.disk)
  obtain ⟨-, rfl⟩ := hstep
  exact steadily_trans hpast (S.volume.keepsSteady_exec e.op s)

namespace Environment

/-- The same with other fuel. -/
def withFuel (E : Environment) (fuel : Nat) : Environment := { E with fuel }

variable {E : Environment} {cmd : Command} {d dr : Disk}

/-- No call to the image or to the driver's file goes wrong. -/
structure Faultless (E : Environment) (cmd : Command) (d dr : Disk) (p : Invocation) : Prop where
  image : ∀ image, Image.openWindows E.file E.path cmd.mode = .ok image →
    ∀ c ∈ p.io.disk.calls.drop d.calls.length, c.Good image.len
  driver : ∀ img, OpensDriver E.consumer img → ∀ c ∈ p.driver.calls.drop dr.calls.length,
    c.Good img.len

/-- A step of a faultless run succeeds if only a fault keeps it from succeeding. -/
theorem faultless_bind {α β : Type} {m : Run Invocation Error α} {f : α → Run Invocation Error β}
    {p : Invocation} {Q : Outcome Error β × Invocation → Prop}
    (next : ∀ a p', m p = (.ok a, p') → E.Faultless cmd d dr (f a p').2 → Q (f a p'))
    (sound : E.Faultless cmd d dr (m p).2 → ∃ a, (m p).1 = .ok a)
    (hf : E.Faultless cmd d dr ((m >>= f) p).2) :
    Q ((m >>= f) p) := by
  revert hf
  refine bind_elim_ok (P := fun r : Outcome Error β × Invocation => E.Faultless cmd d dr r.2 →
    Q r) next fun hno o _ hf => ?_
  obtain ⟨a, ha⟩ := sound hf
  exact absurd ha (hno a)

/-- A faultless reading of an image in order gives its metadata. -/
theorem read_of_faultless {image : Image} {m : Metadata} {p : Invocation}
    (hopen : Image.openWindows E.file E.path cmd.mode = .ok image)
    (hm : Metadata.readOf E.prim E.ext d.file.data image.len = .ok m)
    (hdisk : p.io.disk = (Metadata.read E.prim E.ext image d).2) (hf : E.Faultless cmd d dr p) :
    (Metadata.read E.prim E.ext image d).1 = .ok m := by
  obtain ⟨new, -, hcalls, -, hgood, -⟩ := Metadata.computes_read E.prim E.ext image d.file d rfl
  have hall := hf.image image hopen
  rw [hdisk, hcalls, List.drop_left] at hall
  exact (hgood hall).trans hm

theorem publish_serves {vol : UnlockedVolume} (hx : XtsServes E.prim .decrypt vol.key.bytes)
    (hfits : vol.Fits) (hopens : Image.openWindows E.file E.path cmd.mode = .ok vol.image)
    (hcoherent : Probe.Coherent E.crc32c vol.len (vol.plain E.prim d.file.data))
    (hsaid : E.streams.stderr = true)
    (hstarts : (E.setting ⟨vol, .btrfs⟩).Starts 0) {p : Invocation} {past : List Call}
    (hready : p.io.Ready)
    (hfile : p.io.disk.file = d.file) (hcalls : p.io.disk.calls = d.calls ++ past)
    (hf : E.Faultless cmd d dr (E.publish vol .btrfs p).2) :
    (E.publish vol .btrfs p).2.Published := by
  have hlen := length_lt hfits
  obtain ⟨new, -, hnew, -, hgood, -⟩ :=
    sees_validate E.prim E.crc32c hfits .btrfs d.file p.io hfile hready
  unfold publish at hf ⊢
  refine faultless_bind (Q := fun r => r.2.Published) (fun v s hstep _ => ?_) (fun hf => ?_) hf
  · obtain ⟨hok, rfl⟩ := Prod.mk.inj hstep
    have hvalid : vol.validate E.prim E.crc32c .btrfs p.io = (.ok v, _) := Prod.ext hok rfl
    obtain ⟨rfl, -⟩ := validate_ok hfits hready hvalid
    rw [Run.bind_run_of (Invocation.say_writes (o := .profileValid _) hsaid _)]
    exact ((E.serve_ended _ _).resolve_left fun h => h.1 hstarts).2
  · have hall : ∀ c ∈ (vol.validate E.prim E.crc32c .btrfs p.io).2.disk.calls.drop d.calls.length,
        c.Good vol.image.len := hf.image vol.image hopens
    rw [hnew, hcalls] at hall
    have hok := hgood (good_of_drop hall)
    have hadmissible : Probe.Admissible E.crc32c vol.len (vol.plain E.prim d.file.data) .btrfs :=
      hcoherent
    rw [Probe.check_of_admissible hlen (fun o n ho hn hmax hin =>
      UnlockedVolume.readOf_aligned hx hlen ho hn hmax hin) hadmissible] at hok
    exact ⟨_, hok⟩

theorem unlock_serves {vol : UnlockedVolume} (hx : XtsServes E.prim .decrypt vol.key.bytes)
    (h : E.Established cmd d.file.data dr.file.data vol) {keyslot : Nat} {password : Bytes}
    (hopens : Image.openWindows E.file E.path cmd.mode = .ok vol.image)
    (hprompt : E.prompt = some password)
    (hunlock : UnlockedVolume.unlockOf E.prim E.ext vol.image keyslot password d.file.data =
      .ok vol)
    {d₁ dr₁ : Disk} {past : List Call} (hfile : d₁.file = d.file)
    (hcalls : d₁.calls = d.calls ++ past)
    (hf : E.Faultless cmd d dr (E.unlock vol.image keyslot .btrfs (.start d₁ dr₁)).2) :
    (E.unlock vol.image keyslot .btrfs (.start d₁ dr₁)).2.Published := by
  obtain ⟨new, hfile₂, hnew, -, hgood, -⟩ :=
    UnlockedVolume.computes_unlock E.prim E.ext vol.image keyslot password d.file d₁ hfile
  unfold unlock at hf ⊢
  rw [Run.bind_run_of (Invocation.say_writes rfl _), hprompt, Outcome.ofOption_some,
    Run.lift_bind] at hf ⊢
  refine faultless_bind (Q := fun r => r.2.Published) (fun v s hstep => ?_) (fun hf => ?_) hf
  · obtain ⟨hok, rfl⟩ := Prod.mk.inj hstep
    have hrun : UnlockedVolume.unlock E.prim E.ext vol.image keyslot password d₁ = (.ok v, _) :=
      Prod.ext hok rfl
    have hof := ((UnlockedVolume.computes_unlock E.prim E.ext vol.image keyslot password d.file).ok
      hfile hrun).1
    obtain rfl := Outcome.ok.inj (hunlock.symm.trans hof)
    have hpublish := fun p : Invocation =>
      @publish_serves E cmd d dr vol hx (fits_of_unlock hrun) hopens h.coherent
      h.said h.starts p (past ++ new)
    cases E.keyIsLocked with
    | true => exact hpublish _ ⟨rfl, rfl⟩ hfile₂ (hnew.trans (by rw [hcalls, List.append_assoc]))
    | false =>
      intro hf
      rw [if_neg (by decide), Run.bind_run_of
        (Invocation.say_writes (o := .keyMemoryLockUnavailable) h.said _)] at hf ⊢
      exact hpublish _ ⟨rfl, rfl⟩ hfile₂ (hnew.trans (by rw [hcalls, List.append_assoc])) hf
  · have hall : ∀ c ∈ (UnlockedVolume.unlock E.prim E.ext vol.image keyslot password
        d₁).2.calls.drop d.calls.length,
        c.Good vol.image.len := hf.image vol.image hopens
    rw [hnew, hcalls] at hall
    exact ⟨vol, (hgood (good_of_drop hall)).trans hunlock⟩

/-- **Where everything is established**, a run without faults publishes a disk. -/
theorem run_serves {vol : UnlockedVolume} (hx : XtsServes E.prim .decrypt vol.key.bytes)
    (h : E.Established cmd d.file.data dr.file.data vol)
    (hf : E.Faultless cmd d dr (E.run cmd (.start d dr)).2) :
    (E.run cmd (.start d dr)).2.Published := by
  obtain ⟨keyslot, password, hp, hprompt, hunlock⟩ := h.prompt
  obtain ⟨readWrite, rfl⟩ := hp.command
  obtain ⟨m, hm, hmem⟩ := hp.metadata
  obtain ⟨new, hfile, hcalls, -⟩ := Metadata.computes_read E.prim E.ext vol.image d.file d rfl
  unfold run at hf ⊢
  rw [hp.opens, Run.lift_bind] at hf ⊢
  refine faultless_bind (Q := fun r => r.2.Published) (fun m' s hstep hf => ?_) (fun hf => ?_) hf
  · obtain ⟨hok, rfl⟩ := Prod.mk.inj hstep
    have hrun : Metadata.read E.prim E.ext vol.image d = (.ok m', _) := Prod.ext hok rfl
    obtain rfl :=
      Outcome.ok.inj (hm.symm.trans ((Metadata.computes_read E.prim E.ext vol.image d.file).ok
        rfl hrun).1)
    dsimp only at hf ⊢
    rw [Outcome.failIf_neg (not_not.mpr hmem), Run.lift_bind] at hf ⊢
    obtain ⟨img, hdriver, hpinned⟩ := hp.driver.driver
    let mode := (Command.openVolume keyslot .btrfs readWrite).mode
    have hcheck : Adapter.checkConsumer E.consumer E.sha256 .btrfs mode dr =
        hashDriver E.sha256 img dr := by
      rcases checkConsumer_cases E.consumer E.sha256 mode dr with
        ⟨hno, -⟩ | ⟨img', -, hdriver', heq⟩
      · exact absurd ⟨hp.driver.mounts, img, hdriver⟩ hno
      · rw [heq, openedDriver_unique hdriver hdriver']
    obtain ⟨new', -, hcalls', -, hgood', -⟩ := computes_hashDriver E.sha256 img dr.file dr rfl
    refine faultless_bind (Q := fun r => r.2.Published) (fun u s hstep hf => ?_) (fun hf => ?_) hf
    · obtain ⟨-, rfl⟩ := Prod.mk.inj hstep
      rw [hp.terminal, Outcome.failIf_neg (by decide), Run.lift_bind] at hf ⊢
      exact unlock_serves hx h hp.opens hprompt hunlock hfile hcalls hf
    · have hall : ∀ c ∈ (Adapter.checkConsumer E.consumer E.sha256 .btrfs mode dr).2.calls.drop
          dr.calls.length,
          c.Good img.len := hf.driver img hdriver
      rw [hcheck, hcalls', List.drop_left] at hall
      have hok := hgood' hall
      rw [Outcome.failIf_neg (not_not.mpr hpinned), ← hcheck] at hok
      exact ⟨(), hok⟩
  · exact ⟨m, read_of_faultless hp.opens hm rfl hf⟩

/-- A faultless inspection of an image that is in order ends with success, if it can be printed. -/
theorem run_inspects {image : Image} {m : Metadata}
    (hopen : Image.openWindows E.file E.path .readOnly = .ok image)
    (hm : Metadata.readOf E.prim E.ext d.file.data image.len = .ok m)
    (hout : E.streams.stdout = true)
    (hf : E.Faultless .inspect d dr (E.run .inspect (.start d dr)).2) :
    (E.run .inspect (.start d dr)).1 = .ok () := by
  have hopen' : Image.openWindows E.file E.path Command.inspect.mode = .ok image := hopen
  unfold run at hf ⊢
  rw [hopen', Run.lift_bind] at hf ⊢
  refine faultless_bind (Q := fun r => r.1 = .ok ()) (fun m' s hstep _ => ?_) (fun hf => ?_) hf
  · show (Invocation.say E.streams _ s).1 = .ok ()
    rw [Invocation.say_writes (o := .inspected _ _) hout]
  · exact ⟨m, read_of_faultless hopen' hm rfl hf⟩

/-- What was said of an inspection has been printed. -/
theorem said_of_inspects {p : Invocation} (h : (E.run .inspect p).1 = .ok ()) :
    E.streams.stdout = true := by
  obtain ⟨image, p₁, -, h⟩ := Run.bind_run_eq_ok.mp (Prod.ext h rfl :
    E.run .inspect p = (.ok (), _))
  obtain ⟨m, p₂, -, h⟩ := Run.bind_run_eq_ok.mp h
  exact (Invocation.say_ok h).1

/-! ## Files that do their work -/

/-- All calls of the run to the image go well. -/
theorem steadily_run {image : Image} (hopen : Image.openWindows E.file E.path cmd.mode = .ok image)
    (p : Invocation) :
    Steadily image.len p.io.disk (E.run cmd p).2.io.disk := by
  let R := fun p p' : Invocation => Steadily image.len p.io.disk p'.io.disk
  have htrans : ∀ {a b c}, R a b → R b c → R a c := steadily_trans
  have hlift : ∀ {α : Type} (x : Outcome Error α), Run.Keeps R (.lift x : Run Invocation Error α) :=
    fun x => Run.keeps_lift (fun p => steadily_refl p.io.disk) x
  have hsay : ∀ o, Run.Keeps R (Invocation.say E.streams o) := fun o p => by
    show Steadily _ p.io.disk (Invocation.say E.streams o p).2.io.disk
    rw [Invocation.say_io]
    exact steadily_refl _
  have himage : ∀ {α : Type} {m : Run Disk Error α}, Run.Keeps (Steadily image.len) m →
      Run.Keeps R (Invocation.onImage m) := fun h p => h p.io.disk
  have hpublish : ∀ vol fs, vol.image = image → Run.Keeps R (E.publish vol fs) := by
    rintro vol fs rfl
    refine Run.keeps_bind_ok (R := R) htrans (fun p =>
      keepsSteady_validate E.prim E.crc32c vol fs p.io) fun p v p' hv => ?_
    obtain ⟨hv, -⟩ := Prod.mk.inj hv
    obtain rfl := volume_of_validate (Prod.ext hv rfl :
      vol.validate E.prim E.crc32c fs p.io = (.ok v, _))
    have hserve : Run.Keeps R (E.serve ⟨vol, fs⟩) :=
      fun p => (E.setting ⟨vol, fs⟩).steadily_serve p.io
    exact Run.keeps_bind (R := R) htrans (hsay _) (fun _ => hserve) p'
  refine Run.keeps_bind_ok (R := R) htrans (hlift _) (fun s image' s' h => ?_) p
  obtain rfl : image = image' := Outcome.ok.inj (hopen.symm.trans (Prod.mk.inj h).1)
  refine Run.keeps_bind (R := R) htrans (himage (Metadata.steadily_read E.prim E.ext image))
    (fun m => ?_) s'
  cases cmd with
  | inspect => exact hsay _
  | openVolume keyslot fs readWrite =>
    refine Run.keeps_bind (R := R) htrans (hlift _) fun _ => ?_
    refine Run.keeps_bind (R := R) htrans (fun p => steadily_refl p.io.disk) fun _ => ?_
    refine Run.keeps_bind (R := R) htrans (hlift _) fun _ =>
      Run.keeps_bind (R := R) htrans (hsay _) fun _ => ?_
    refine Run.keeps_bind (R := R) htrans (hlift _) fun password => ?_
    refine Run.keeps_bind_ok (R := R) htrans
      (himage (UnlockedVolume.steadily_unlock E.prim E.ext image keyslot password)) fun s vol
        s' hvol => ?_
    obtain ⟨hunlock, -⟩ := Prod.mk.inj hvol
    obtain ⟨hsame, -⟩ := layout_of_unlock
      (Prod.ext hunlock rfl : UnlockedVolume.unlock E.prim E.ext image keyslot password s.io.disk =
        (.ok vol, _))
    have hrest : Run.Keeps R (if E.keyIsLocked then E.publish vol fs else do
        Invocation.say E.streams .keyMemoryLockUnavailable
        E.publish vol fs) := by
      split
      · exact hpublish vol fs hsame
      · exact Run.keeps_bind (R := R) htrans (hsay _) fun _ => hpublish vol fs hsame
    exact hrest s'

/-- All calls of the run to the driver's file go well. -/
theorem steadily_driver {img : Image} (hopens : OpensDriver E.consumer img) (p : Invocation) :
    Steadily img.len p.driver (E.run cmd p).2.driver := by
  let R := fun p p' : Invocation => Steadily img.len p.driver p'.driver
  have htrans : ∀ {a b c}, R a b → R b c → R a c := steadily_trans
  have hsame : ∀ {α : Type} {m : Run Invocation Error α}, (∀ p, (m p).2.driver = p.driver) →
      Run.Keeps R m :=
    fun h p => by
      show Steadily _ p.driver _
      rw [h p]
      exact steadily_refl _
  have hsay : ∀ o, Run.Keeps R (Invocation.say E.streams o) :=
    fun o => hsame fun p => Invocation.say_driver _ _ p
  have hpublish : ∀ vol fs, Run.Keeps R (E.publish vol fs) := fun vol fs =>
    Run.keeps_bind (R := R) htrans (hsame fun _ => rfl) fun _ =>
      Run.keeps_bind (R := R) htrans (hsay _) fun _ => hsame fun _ => rfl
  have hcheck : ∀ fs mode, Run.Keeps (Steadily img.len)
      (Adapter.checkConsumer E.consumer E.sha256 fs mode) := by
    intro fs mode dr
    cases fs with
    | ext4 => exact steadily_refl dr
    | btrfs =>
      rcases checkConsumer_cases E.consumer E.sha256 mode dr with ⟨-, heq⟩ | ⟨img', -, hopens', heq⟩
      · rw [heq]
        exact steadily_refl dr
      · rw [heq, ← openedDriver_unique hopens hopens']
        exact steadily_hashDriver E.sha256 img dr
  refine Run.keeps_bind (R := R) htrans (hsame fun _ => rfl) (fun image => ?_) p
  refine Run.keeps_bind (R := R) htrans (hsame fun _ => rfl) fun m => ?_
  cases cmd with
  | inspect => exact hsay _
  | openVolume keyslot fs readWrite =>
    refine Run.keeps_bind (R := R) htrans (hsame fun _ => rfl) fun _ => ?_
    refine Run.keeps_bind (R := R) htrans (fun p => hcheck fs _ p.driver) fun _ => ?_
    refine Run.keeps_bind (R := R) htrans (hsame fun _ => rfl) fun _ => ?_
    refine Run.keeps_bind (R := R) htrans (hsay _) fun _ => ?_
    refine Run.keeps_bind (R := R) htrans (hsame fun _ => rfl) fun password => ?_
    refine Run.keeps_bind (R := R) htrans (hsame fun _ => rfl) fun vol => ?_
    show Run.Keeps R (if E.keyIsLocked then E.publish vol fs else _)
    split
    · exact hpublish vol fs
    · exact Run.keeps_bind (R := R) htrans (hsay _) fun _ => hpublish vol fs

/-- Over files that do their work a run is faultless. -/
theorem faultless_of_steady
    (himage : ∀ image, Image.openWindows E.file E.path cmd.mode = .ok image → d.Steady image.len)
    (hdriver : ∀ img, OpensDriver E.consumer img → dr.Steady img.len) :
    E.Faultless cmd d dr (E.run cmd (.start d dr)).2 where
  image image hopen := by
    obtain ⟨-, new, hcalls, hgood⟩ := steadily_run hopen (.start d dr) (himage image hopen)
    have hcalls : _ = d.calls ++ new := hcalls
    rwa [hcalls, List.drop_left]
  driver img hopens := by
    obtain ⟨-, new, hcalls, hgood⟩ :=
      @steadily_driver E cmd img hopens (.start d dr) (hdriver img hopens)
    have hcalls : _ = dr.calls ++ new := hcalls
    rwa [hcalls, List.drop_left]

/-- At most one volume is established. -/
theorem established_unique {F D : Store} {vol vol' : UnlockedVolume} (h : E.Established cmd F D vol)
    (h' : E.Established cmd F D vol') : vol = vol' := by
  obtain ⟨keyslot, password, hp, hprompt, hunlock⟩ := h.prompt
  obtain ⟨keyslot', password', hp', hprompt', hunlock'⟩ := h'.prompt
  obtain ⟨readWrite, rfl⟩ := hp.command
  obtain ⟨readWrite', hcmd⟩ := hp'.command
  cases hcmd
  obtain rfl := Option.some.inj (hprompt.symm.trans hprompt')
  rw [Outcome.ok.inj (hp.opens.symm.trans hp'.opens)] at hunlock
  exact Outcome.ok.inj (hunlock.symm.trans hunlock')

end Environment

/-! ## The small image is served -/

namespace Sample

def command : Command := .openVolume 1 .btrfs true

def imageDisk : Disk := disk (store 1 body)

theorem environment_len (info : FileMeta) (h : file.metadata = some info) :
    info.len = imageDisk.file.size := by
  cases h
  rfl

theorem unlockOf_image : UnlockedVolume.unlockOf Sample.prim parsers (image .readWrite) 1 password
    imageDisk.file.data = .ok (volume .readWrite).volume := by
  obtain ⟨d', -, hunlock⟩ := unlocked .readWrite
  have hcomputes := UnlockedVolume.computes_unlock Sample.prim parsers (image .readWrite) 1 password
    imageDisk.file
  exact (hcomputes.ok rfl hunlock).1

theorem readOf_image : Metadata.readOf Sample.prim parsers imageDisk.file.data imageLen =
    .ok metadata :=
  readOf_store (by decide : 1 < 2 ^ 64) body

theorem approved : Approved consumer sha256 .readWrite driverDisk.file.data :=
  (checkConsumer_ok driver_checked).2

theorem mayPrompt (fuel : Nat) : (environment fuel).MayPrompt command imageDisk.file.data
    driverDisk.file.data (image .readWrite) 1 where
  command := ⟨true, rfl⟩
  opens := environment_opens .readWrite
  metadata := ⟨metadata, readOf_image, by decide⟩
  driver := approved
  terminal := rfl

theorem starts (fuel : Nat) :
    ((environment fuel).setting ⟨(volume .readWrite).volume, .btrfs⟩).Starts 0 where
  filesystem := nofun
  consumer := by
    dsimp only [Environment.setting, environment, ValidatedVolume.mode, volume, image]
    exact decide_eq_true driver_checked
  handler := rfl
  created := rfl

theorem established (fuel : Nat) : (environment fuel).Established command imageDisk.file.data
    driverDisk.file.data (volume .readWrite).volume where
  prompt := ⟨1, password, mayPrompt fuel, rfl, unlockOf_image⟩
  coherent := admissible .readWrite
  said := rfl
  starts := starts fuel

/-- Nothing goes wrong. -/
theorem faultless (fuel : Nat) (cmd : Command) :
    (environment fuel).Faultless cmd imageDisk driverDisk
    ((environment fuel).run cmd (.start imageDisk driverDisk)).2 := by
  refine Environment.faultless_of_steady (fun img h => ?_) fun img h => ?_
  · obtain rfl := Outcome.ok.inj ((environment_opens cmd.mode).symm.trans h)
    exact disk_steady _
  · obtain ⟨-, -, -, -, -, -, -, hfile⟩ := h
    obtain ⟨info, hinfo, -, -, rfl⟩ := hfile.file
    cases hinfo
    exact ⟨rfl, nofun⟩

/-- A disk is published, whatever the fuel. -/
theorem published (fuel : Nat) :
    ((environment fuel).run command (.start imageDisk driverDisk)).2.Published :=
  Environment.run_serves (xtsTotal.serves (volume .readWrite).volume.key.size) (established fuel)
    (faultless fuel _)

end Sample

/-! ## Whole runs -/

namespace Environment

variable {E : Environment} {cmd : Command} {d dr : Disk}

variable {vol : UnlockedVolume} {p : Invocation}

/-- A write that the dispatcher issued covers `q`. -/
def Issues (E : Environment) (vol : UnlockedVolume) (q : Nat) : Prop :=
  ∃ now lba count buffer, .write lba count buffer ∈ E.os.callbacks now ∧
    vol.offset + 512 * lba ≤ q ∧ q < vol.offset + 512 * (lba + count)

theorem readOnly_eq (vol : UnlockedVolume) (fs : Filesystem) :
    (E.setting ⟨vol, fs⟩).readOnly = decide (vol.image.mode = .readOnly) := rfl

/-- **Nothing is written, and nothing asked for, before its time.**  Run the program, on any
environment and any backend, and stop it anywhere.  The password is only asked for when the image,
its metadata, the driver and the terminal are in order.  As long as no disk was published, the image
was looked at and nothing else, and only an inspection ends with success, which tells what the
metadata says.  With a disk, the key was recognized and the array that it opens is a coherent
volume; then the image keeps its length, a byte that differs lies in the payload of a writable run,
in the range of a write of the dispatcher, and every keyslot unlocks as before. -/
theorem program_frames (E : Environment)
    (hlen : ∀ info, E.file.metadata = some info → info.len = d.file.size) (cmd : Command)
    (dr : Disk) :
    let r := E.run cmd (.start d dr)
    let F' := r.2.io.disk.file
    (.prompted ∈ r.2.output → ∃ image keyslot,
      E.MayPrompt cmd d.file.data dr.file.data image keyslot) ∧
    (¬ r.2.Published → d.Looked r.2.io.disk ∧ (E.streams.exitCode r.1 = some 0 → cmd = .inspect ∧
      ∃ image m, Image.openWindows E.file E.path .readOnly = .ok image ∧
        Metadata.readOf E.prim E.ext d.file.data image.len = .ok m ∧
        r.2.output = [.inspected m.length m.keyslots])) ∧
    (cmd.mode = .readOnly → d.Looked r.2.io.disk) ∧
    (r.2.Published → ∃ vol, E.Established cmd d.file.data dr.file.data vol ∧ F'.size = d.file.size ∧
      (∀ q, F'.data q ≠ d.file.data q → cmd.mode = .readWrite ∧ vol.payload.Contains q ∧
        E.Issues vol q) ∧
      ∀ img : Image, img.len = vol.image.len → ∀ keyslot password,
        SameRun d.file F' (UnlockedVolume.unlock E.prim E.ext img keyslot password)) := by
  intro r F'
  rcases run_ended hlen cmd dr with h | ⟨vol, p, h⟩
  · exact ⟨h.prompted, fun _ => ⟨h.image, fun hok => h.ok (exitCode_zero.mp hok)⟩, fun _ => h.image,
      fun hpublished => absurd hpublished h.published⟩
  have hr : r = E.serve ⟨vol, .btrfs⟩ p := h.ends
  have hpublished : r.2.Published := h.published
  have hF' : F' = (E.serve ⟨vol, .btrfs⟩ p).2.io.disk.file := by rw [← hr]
  have hfile : p.io.disk.file = d.file := h.looked.1
  obtain ⟨es, hpath, hes, -⟩ := (E.setting ⟨vol, .btrfs⟩).serve_path p.io
  have hframed := (E.setting ⟨vol, .btrfs⟩).framed_path h.opened.fits hpath h.opened.size
  have hchanged := fun q => Setting.changed_of_path (S := E.setting ⟨vol, .btrfs⟩)
    (p := q) h.opened.fits hpath hes h.opened.size
  obtain ⟨keyslot, password, hprompt, -⟩ := h.established.prompt
  refine ⟨fun _ => ⟨vol.image, keyslot, hprompt⟩, fun hno => absurd hpublished hno, fun hro => ?_,
    fun _ => ?_⟩
  · rw [hr]
    obtain ⟨new, hnew, hstill⟩ := hframed.calls
    have hmode : vol.image.mode = .readOnly := h.mode.trans hro
    exact looked_trans h.looked ⟨hframed.still hmode, new, hnew, hstill hmode⟩
  rw [hF']
  refine ⟨vol, h.established, ?_, fun q hq => ?_, fun img himg keyslot password => ?_⟩
  · rw [← hfile]
    exact hframed.size
  · rw [← hfile] at hq
    obtain ⟨hmode, hpayload, now, lba, count, buffer, hc, h1, h2⟩ := hchanged q hq
    rw [readOnly_eq, h.mode] at hmode
    refine ⟨?_, hpayload, now, lba, count, buffer, hc, h1, h2⟩
    cases hm : cmd.mode with
    | readOnly => simp [hm] at hmode
    | readWrite => rfl
  · rw [← hfile]
    exact (E.setting ⟨vol, .btrfs⟩).sameRun_of_opened h.opened hframed.size
      (fun q hq => (hchanged q hq).2.1) himg keyslot password

/-- A run on the small image opens it for writing, changes one block, and leaves it to the same
password. -/
theorem program_frames_sample :
    ((Sample.environment 8).run Sample.command
      (.start Sample.imageDisk Sample.driverDisk)).2.Published ∧
    (∀ q, ((Sample.environment 8).run Sample.command
      (.start Sample.imageDisk Sample.driverDisk)).2.io.disk.file.data q ≠
      Sample.imageDisk.file.data q → 164352 ≤ q ∧ q < 164864) ∧
    SameRun Sample.imageDisk.file
      ((Sample.environment 8).run Sample.command
        (.start Sample.imageDisk Sample.driverDisk)).2.io.disk.file
      (UnlockedVolume.unlock Sample.prim Sample.parsers (Sample.image .readWrite) 1
        Sample.password) := by
  obtain ⟨-, -, -, hall⟩ := program_frames (d := Sample.imageDisk) (Sample.environment 8)
    Sample.environment_len Sample.command Sample.driverDisk
  obtain ⟨vol, h, -, hchanged, hsame⟩ := hall (Sample.published 8)
  obtain rfl := established_unique h (Sample.established 8)
  refine ⟨Sample.published 8, fun q hq => ?_, hsame (Sample.image .readWrite) rfl 1 Sample.password⟩
  obtain ⟨-, -, now, lba, count, buffer, hc, h1, h2⟩ := hchanged q hq
  obtain ⟨rfl, rfl, -⟩ := Setting.sample_callback hc
  have hoff : (Sample.volume .readWrite).volume.offset = 163840 := rfl
  omega

/-- **What is established is served.**  The program publishes a disk only where everything in
`Established` is so. Where no call to the image or to the driver's file goes wrong it does publish
one, if the units of the volume can be decrypted under its key; and an inspection ends with success
exactly when the image can be opened, its metadata can be read, and the result can be printed. -/
theorem program_serves (E : Environment)
    (hlen : ∀ info, E.file.metadata = some info → info.len = d.file.size) (cmd : Command)
    (dr : Disk) :
    let r := E.run cmd (.start d dr)
    (r.2.Published → ∃ vol, E.Established cmd d.file.data dr.file.data vol) ∧
    (E.Faultless cmd d dr r.2 →
      (∀ vol, XtsServes E.prim .decrypt vol.key.bytes →
        E.Established cmd d.file.data dr.file.data vol → r.2.Published) ∧
      (cmd = .inspect → (E.streams.exitCode r.1 = some 0 ↔ E.streams.stdout = true ∧
        ∃ image m, Image.openWindows E.file E.path .readOnly = .ok image ∧
          Metadata.readOf E.prim E.ext d.file.data image.len = .ok m))) := by
  intro r
  have hended := run_ended hlen cmd dr
  refine ⟨fun hpublished => ?_, fun hf => ⟨fun vol hx h => run_serves hx h hf, ?_⟩⟩
  · rcases hended with h | ⟨vol, p, h⟩
    · exact absurd hpublished h.published
    · exact ⟨vol, h.established⟩
  · rintro rfl
    rw [exitCode_zero]
    constructor
    · intro hok
      refine ⟨said_of_inspects hok, ?_⟩
      rcases hended with h | ⟨vol, p, h⟩
      · obtain ⟨-, image, m, hopen, hm, -⟩ := h.ok hok
        exact ⟨image, m, hopen, hm⟩
      · obtain ⟨keyslot, password, hp, -⟩ := h.established.prompt
        obtain ⟨readWrite, hcmd⟩ := hp.command
        cases hcmd
    · rintro ⟨hout, image, m, hopen, hm⟩
      exact run_inspects hopen hm hout hf

/-- The small volume is served, and the small image can be inspected. -/
theorem program_serves_sample :
    ((Sample.environment 8).run Sample.command
      (.start Sample.imageDisk Sample.driverDisk)).2.Published ∧
    (Sample.environment 8).streams.exitCode
      ((Sample.environment 8).run .inspect (.start Sample.imageDisk Sample.driverDisk)).1 =
      some 0 := by
  have hserves := fun cmd => program_serves (d := Sample.imageDisk) (Sample.environment 8)
    Sample.environment_len cmd
    Sample.driverDisk
  refine ⟨((hserves Sample.command).2 (Sample.faultless 8 _)).1 _
    (Sample.xtsTotal.serves (Sample.volume .readWrite).volume.key.size) (Sample.established 8), ?_⟩
  exact (((hserves .inspect).2 (Sample.faultless 8 _)).2 rfl).mpr ⟨rfl, _, _,
    Sample.environment_opens .readOnly,
    Sample.readOf_store (by decide : 1 < 2 ^ 64) Sample.body⟩

end Environment

/-- The program that is built for Unix only looks at an image, and only inspects one with
success. -/
theorem runUnix_looked (prim : Primitives) (ext : Parsers) (file : UnixFile) (streams : Streams)
    (cmd : Command) (d dr : Disk) :
    let r := runUnix prim ext file streams cmd (.start d dr)
    d.Looked r.2.io.disk ∧ ¬ r.2.Published ∧ (streams.exitCode r.1 = some 0 → cmd = .inspect) := by
  let P := fun r : Outcome Error Unit × Invocation =>
    d.Looked r.2.io.disk ∧ ¬ r.2.Published ∧ (streams.exitCode r.1 = some 0 → cmd = .inspect)
  have hend : ∀ (o : Outcome Error Unit) (p : Invocation), (∀ u, o ≠ .ok u) → d.Looked p.io.disk →
      p.world = none → P (o, p) :=
    fun o p hno hlooked hworld =>
      ⟨hlooked, Environment.not_published hworld, fun h => absurd (exitCode_zero.mp h) (hno ())⟩
  refine bind_elim (P := P) (fun image s hstep => ?_) fun o hno => hend _ _ hno (looked_refl d) rfl
  obtain ⟨-, rfl⟩ := Prod.mk.inj hstep
  have hlooked := looked_of_computes (Metadata.computes_read prim ext image d.file)
  refine bind_elim (P := P) (fun m s hstep => ?_) fun o hno => hend _ _ hno hlooked rfl
  obtain ⟨-, rfl⟩ := Prod.mk.inj hstep
  cases cmd with
  | inspect =>
    refine ⟨?_, Environment.not_published (Invocation.say_world _ _ _), fun _ => rfl⟩
    rw [Invocation.say_io]
    exact hlooked
  | openVolume keyslot filesystem readWrite =>
    refine bind_elim (P := P) (fun _ s hstep => ?_) fun o hno => hend _ _ hno hlooked rfl
    obtain ⟨-, rfl⟩ := Prod.mk.inj hstep
    exact hend _ _ nofun hlooked rfl

end Winluks
