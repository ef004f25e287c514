import Winluks.Consumer
import Winluks.Gate
import Winluks.Serving

/-!
# The program

`run` of `main.rs`, as it is built for Windows: open the image, read its
metadata, look at the driver, ask for the password, unlock, probe, serve.  The
state is what the process holds of the image, of the driver's file and of what
it has said; everything else is in the `Environment`.

`run_ended` splits every run at the moment a disk is published.  Before it the
image is only looked at; whatever comes after it happens to a volume for which
everything in `Established` has been found out.
-/

namespace Winluks

open Lib Machine

/-- `Command`, without the path of the image.  `--read-only` is the default and conflicts with
`--read-write`. -/
inductive Command where
  | inspect
  | openVolume (keyslot : Nat) (filesystem : Filesystem) (readWrite : Bool)

def Command.mode : Command → AccessMode
  | .inspect => .readOnly
  | .openVolume _ _ readWrite => if readWrite then .readWrite else .readOnly

/-- What the process says. -/
inductive Output where
  | inspected (volumeBytes : Nat) (keyslots : List Nat)
  | prompted
  | keyMemoryLockUnavailable
  | profileValid (readOnly : Bool)
deriving DecidableEq

/-- Whether the standard streams can be written, all the time that the process runs. -/
structure Streams where
  stdout : Bool
  stderr : Bool

/-- The stream of an output can be written; the prompt is written to the console. -/
def Streams.writes (s : Streams) : Output → Bool
  | .inspected _ _ => s.stdout
  | .prompted => true
  | .keyMemoryLockUnavailable => s.stderr
  | .profileValid _ => s.stderr

/-- `main`: the code of the process, when it comes to its end.  An error that cannot be printed is a
panic. -/
def Streams.exitCode (s : Streams) : Outcome Error Unit → Option Nat
  | .ok _ => some 0
  | .err _ => some (if s.stderr then 1 else 101)
  | .panic => some 101
  | .halt => none

/-- All that a run depends on.  The check of the driver is made twice, and may be answered
differently. -/
structure Environment where
  prim : Primitives
  ext : Parsers
  crc32c : Bytes → UInt32
  sha256 : Bytes → Bytes
  path : Option Bytes
  file : WindowsFile
  consumer : Consumer
  terminal : Bool
  prompt : Option Bytes
  keyIsLocked : Bool
  streams : Streams
  published : Consumer
  publishedDriver : Disk
  os : Os
  serial : Bytes
  fuel : Nat

/-- The process: what it holds of the image and of the driver's file, and what it has said. -/
structure Invocation where
  io : Io
  driver : Disk
  output : List Output
  /-- the state in which `serve` was left, if it was entered -/
  world : Option World

/-- A disk was published: `wl_create` was answered with success. -/
def Invocation.Published (p : Invocation) : Prop := ∃ w, p.world = some w ∧ .created ∈ w.log

namespace Invocation

/-- A process that has just been started, over the file of the image and the file of the driver. -/
def start (disk driver : Disk) : Invocation := ⟨⟨disk, false, false⟩, driver, [], none⟩

/-- `println!` and `eprintln!` panic where the stream cannot be written. -/
def say (s : Streams) (o : Output) : Run Invocation Error Unit :=
  if s.writes o then .modify fun p => { p with output := p.output ++ [o] } else .lift .panic

def onImage {α : Type} (m : Run Disk Error α) : Run Invocation Error α :=
  .zoom (fun p => p.io.disk) (fun p d => { p with io := { p.io with disk := d } }) m

def onDriver {α : Type} (m : Run Disk Error α) : Run Invocation Error α :=
  .zoom Invocation.driver (fun p d => { p with driver := d }) m

def onIo {α : Type} (m : Run Io Error α) : Run Invocation Error α :=
  .zoom Invocation.io (fun p io => { p with io := io }) m

variable {s : Streams} {o : Output} {p p' : Invocation}

theorem say_ok (h : say s o p = (.ok (), p')) :
    s.writes o = true ∧ p' = { p with output := p.output ++ [o] } := by
  unfold say at h
  split at h
  · next hw => exact ⟨hw, ((Prod.mk.inj h).2).symm⟩
  · cases h

theorem say_writes (h : s.writes o = true) (p : Invocation) :
    say s o p = (.ok (), { p with output := p.output ++ [o] }) := by
  rw [say, if_pos h]
  rfl

theorem say_silent (h : s.writes o = false) (p : Invocation) : say s o p = (.panic, p) := by
  rw [say, if_neg (by simp [h])]
  rfl

theorem say_io (s : Streams) (o : Output) (p : Invocation) : (say s o p).2.io = p.io := by
  unfold say
  split <;> rfl

theorem say_driver (s : Streams) (o : Output) (p : Invocation) :
    (say s o p).2.driver = p.driver := by
  unfold say
  split <;> rfl

theorem say_world (s : Streams) (o : Output) (p : Invocation) : (say s o p).2.world = p.world := by
  unfold say
  split <;> rfl

end Invocation

namespace Environment

variable (E : Environment)

/-- The setting in which a volume is served; the driver is looked at once more. -/
def setting (v : ValidatedVolume) : Setting where
  prim := E.prim
  volume := v
  os := { E.os with consumerReady := fun _ =>
    (Adapter.checkConsumer E.published E.sha256 v.filesystem v.mode E.publishedDriver).1 = .ok () }
  serial := E.serial
  fuel := E.fuel

def serve (v : ValidatedVolume) : Run Invocation Error Unit := fun p =>
  let r := (E.setting v).serve (World.start p.io)
  (r.1, { p with io := r.2.adapter.io, world := some r.2 })

/-- Probe an unlocked volume, and serve it. -/
def publish (v : UnlockedVolume) (filesystem : Filesystem) : Run Invocation Error Unit := do
  let v ← Invocation.onIo (v.validate E.prim E.crc32c filesystem)
  Invocation.say E.streams (.profileValid (v.mode = .readOnly))
  E.serve v

/-- From the password to the end. -/
def unlock (image : Image) (keyslot : Nat) (filesystem : Filesystem) :
    Run Invocation Error Unit := do
  Invocation.say E.streams .prompted
  let password ← .lift (.ofOption .consoleRequired E.prompt)
  let v ← Invocation.onImage (UnlockedVolume.unlock E.prim E.ext image keyslot password)
  if E.keyIsLocked then pure () else Invocation.say E.streams .keyMemoryLockUnavailable
  E.publish v filesystem

def run (cmd : Command) : Run Invocation Error Unit := do
  let image ← .lift (Image.openWindows E.file E.path cmd.mode)
  let m ← Invocation.onImage (Metadata.read E.prim E.ext image)
  match cmd with
  | .inspect => Invocation.say E.streams (.inspected m.length m.keyslots)
  | .openVolume keyslot filesystem _ => do
    .lift (.failIf (keyslot ∉ m.keyslots) .unsupportedProfile)
    Invocation.onDriver (Adapter.checkConsumer E.consumer E.sha256 filesystem cmd.mode)
    .lift (.failIf (E.terminal = false) .consoleRequired)
    E.unlock image keyslot filesystem

end Environment

/-- `run` as it is built for Unix: an image can be inspected, and there is no driver. -/
def runUnix (prim : Primitives) (ext : Parsers) (file : UnixFile) (streams : Streams)
    (cmd : Command) :
    Run Invocation Error Unit := do
  let image ← .lift (Image.openUnix file cmd.mode)
  let m ← Invocation.onImage (Metadata.read prim ext image)
  match cmd with
  | .inspect => Invocation.say streams (.inspected m.length m.keyslots)
  | .openVolume keyslot _ _ => do
    .lift (.failIf (keyslot ∉ m.keyslots) .unsupportedProfile)
    .throw .fsDriverUnavailable

theorem exitCode_zero {s : Streams} {o : Outcome Error Unit} :
    s.exitCode o = some 0 ↔ o = .ok () := by
  rcases o with ⟨⟩ | _ | _ | _
  case err =>
    simp only [Streams.exitCode]
    split <;> simp
  all_goals simp [Streams.exitCode]

/-! ## A machine for the small image -/

namespace Sample

/-- `\\\\?\\C:\\a.img` -/
def finalPath : List UInt16 := [92, 92, 63, 92, 67, 58, 92, 97, 46, 105, 109, 103]

/-- The small image on a fixed drive. -/
def file : WindowsFile where
  create _ := true
  metadata := some ⟨true, imageLen, 0x20, (image .readOnly).len_lt⟩
  fileType := 1
  remoteInfo := false
  finalPath := (12, fun i => finalPath.getD i 0)
  driveType _ := 3

/-- A driver of four bytes, running and set up to write. -/
def consumer : Consumer where
  manager _ := true
  service _ := true
  status _ := some 4
  registry _ _ _ := some 0
  systemDirectory := some (wide "C:\\Windows\\system32")
  driver := { file with metadata := some ⟨true, 4, 0x20, by decide⟩ }

/-- A digest by which the four bytes are the driver. -/
def sha256 (b : Bytes) : Bytes :=
  if b = zeros 4 then beBytes 32 0x3c46f0f82726e374cec3d2e36defd2c672c68903895a510a29762f6f93866797
    else zeros 32

def driverDisk : Disk := { disk (fun _ => 0) with file := .synced 4 fun _ => 0 }

/-- A machine with this driver, and a user who knows the password. -/
def environment (fuel : Nat) : Environment where
  prim := Sample.prim
  ext := parsers
  crc32c := Probe.Sample.checksum
  sha256 := sha256
  path := some (finalPath.drop 4 |>.map fun u => UInt8.ofNat u.toNat)
  file := file
  consumer := consumer
  terminal := true
  prompt := some password
  keyIsLocked := true
  streams := ⟨true, true⟩
  published := consumer
  publishedDriver := driverDisk
  os := Setting.sampleOs
  serial := textBytes uuid
  fuel := fuel

theorem environment_opens (mode : AccessMode) :
    Image.openWindows file (environment 0).path mode = .ok (image mode) := by
  cases mode <;> decide

theorem driver_checked : (Adapter.checkConsumer consumer sha256 .btrfs .readWrite driverDisk).1 =
    .ok () := by
  decide +kernel

end Sample

/-! ## Up to the publication -/

/-- The file was left alone, and no change was asked for. -/
def Disk.Looked (d d' : Disk) : Prop :=
  d'.file = d.file ∧ ∃ new, d'.calls = d.calls ++ new ∧ ∀ c ∈ new, c.mutates = false

section
variable {d d₁ d₂ : Disk} {α : Type} {len : Nat} {m : Run Disk Error α} {x : Outcome Error α}

theorem looked_refl (d : Disk) : d.Looked d := ⟨rfl, [], (List.append_nil _).symm, nofun⟩

theorem looked_trans (h : d.Looked d₁) (h' : d₁.Looked d₂) : d.Looked d₂ := by
  obtain ⟨hfile, new, hcalls, hstill⟩ := h
  obtain ⟨hfile', new', hcalls', hstill'⟩ := h'
  refine ⟨hfile'.trans hfile, new ++ new', by rw [hcalls', hcalls, List.append_assoc],
    fun c hc => ?_⟩
  exact (List.mem_append.mp hc).elim (hstill c) (hstill' c)

theorem looked_of_computes (h : Computes len d.file m x) : d.Looked (m d).2 := by
  obtain ⟨new, hfile, hcalls, hstill, -⟩ := h d rfl
  exact ⟨hfile, new, hcalls, hstill⟩

end

/-- A property of all ends of a sequence, by the ends of its first step. -/
theorem bind_elim_ok {σ ε α β : Type} {m : Run σ ε α} {f : α → Run σ ε β} {s : σ}
    {P : Outcome ε β × σ → Prop} (next : ∀ a s', m s = (.ok a, s') → P (f a s'))
    (last : (∀ a, (m s).1 ≠ .ok a) → ∀ o, (∀ b, o ≠ .ok b) → P (o, (m s).2)) : P ((m >>= f) s) := by
  obtain ⟨a, s', hm, heq⟩ | ⟨e, s', hm, heq⟩ | ⟨s', hm, heq⟩ | ⟨s', hm, heq⟩ :=
    Run.bind_cases m f s <;> rw [heq]
  · exact next a s' hm
  all_goals
    rw [hm] at last
    exact last (fun a h => by cases h) _ fun b h => by cases h

/-- The same where it does not matter how the first step failed. -/
theorem bind_elim {σ ε α β : Type} {m : Run σ ε α} {f : α → Run σ ε β} {s : σ}
    {P : Outcome ε β × σ → Prop} (next : ∀ a s', m s = (.ok a, s') → P (f a s'))
    (last : ∀ o, (∀ b, o ≠ .ok b) → P (o, (m s).2)) :
    P ((m >>= f) s) := bind_elim_ok next fun _ => last

/-- Calls that come last are among those behind `calls`. -/
theorem good_of_drop {calls past new : List Call} {len : Nat}
    (h : ∀ c ∈ (calls ++ past ++ new).drop calls.length, c.Good len) : ∀ c ∈ new, c.Good len := by
  rw [List.append_assoc, List.drop_left] at h
  exact fun c hc => h c (List.mem_append_right _ hc)

namespace Environment

variable (E : Environment)

/-- All that has been found out before the password is asked for. -/
structure MayPrompt (cmd : Command) (F D : Store) (image : Image) (keyslot : Nat) : Prop where
  command : ∃ readWrite, cmd = .openVolume keyslot .btrfs readWrite
  opens : Image.openWindows E.file E.path cmd.mode = .ok image
  metadata : ∃ m, Metadata.readOf E.prim E.ext F image.len = .ok m ∧ keyslot ∈ m.keyslots
  driver : Approved E.consumer E.sha256 cmd.mode D
  terminal : E.terminal = true

/-- All that has been found out before a disk is published, the creation of the disk included. -/
structure Established (cmd : Command) (F D : Store) (vol : UnlockedVolume) : Prop where
  prompt : ∃ keyslot password, E.MayPrompt cmd F D vol.image keyslot ∧ E.prompt = some password ∧
    UnlockedVolume.unlockOf E.prim E.ext vol.image keyslot password F = .ok vol
  coherent : Probe.Coherent E.crc32c vol.len (vol.plain E.prim F)
  said : E.streams.stderr = true
  starts : (E.setting ⟨vol, .btrfs⟩).Starts 0

/-- An end without a disk. -/
structure Unpublished (cmd : Command) (d dr : Disk) (r : Outcome Error Unit × Invocation) :
    Prop where
  image : d.Looked r.2.io.disk
  published : ¬ r.2.Published
  prompted : .prompted ∈ r.2.output →
    ∃ image keyslot, E.MayPrompt cmd d.file.data dr.file.data image keyslot
  ok : r.1 = .ok () → cmd = .inspect ∧
    ∃ image m, Image.openWindows E.file E.path .readOnly = .ok image ∧
    Metadata.readOf E.prim E.ext d.file.data image.len = .ok m ∧
    r.2.output = [.inspected m.length m.keyslots]

/-- An end behind a publication. -/
structure Publishes (cmd : Command) (d dr : Disk) (r : Outcome Error Unit × Invocation)
    (vol : UnlockedVolume) (p : Invocation) : Prop where
  established : E.Established cmd d.file.data dr.file.data vol
  opened : Opened E.prim E.ext ⟨vol, .btrfs⟩ p.io
  looked : d.Looked p.io.disk
  mode : vol.image.mode = cmd.mode
  published : r.2.Published
  ends : r = E.serve ⟨vol, .btrfs⟩ p

/-- One or the other. -/
def Ended (cmd : Command) (d dr : Disk) (r : Outcome Error Unit × Invocation) : Prop :=
  E.Unpublished cmd d dr r ∨ ∃ vol p, E.Publishes cmd d dr r vol p

variable {E} {cmd : Command} {d dr : Disk}

theorem not_published {p : Invocation} (h : p.world = none) : ¬ p.Published := fun ⟨w, hw, _⟩ => by
  rw [h] at hw
  cases hw

/-- `serve` publishes a disk when everything was checked, and otherwise it does nothing to the
image. -/
theorem serve_ended (E : Environment) (v : ValidatedVolume) (p : Invocation) :
    (¬ (E.setting v).Starts 0 ∧ ¬ (E.serve v p).2.Published ∧ (∀ u, (E.serve v p).1 ≠ .ok u) ∧
        (E.serve v p).2.io = p.io) ∨
      (E.setting v).Starts 0 ∧ (E.serve v p).2.Published := by
  have hpublished : (E.serve v p).2.Published ↔ (E.setting v).Starts 0 := by
    rw [← (E.setting v).created_iff p.io]
    exact ⟨fun ⟨w, hw, hlog⟩ => Option.some.inj hw ▸ hlog, fun h => ⟨_, rfl, h⟩⟩
  rcases (E.setting v).serve_cases (World.start p.io) with ⟨hno, e, he⟩ | ⟨hstart, -⟩
  · refine Or.inl ⟨hno, mt hpublished.mp hno, fun u => ?_, ?_⟩ <;> simp only [serve, he]
    · exact nofun
    · rfl
  · exact Or.inr ⟨hstart, hpublished.mpr hstart⟩

/-- An end before the password is asked for. -/
theorem unpublished_early {r : Outcome Error Unit × Invocation} (himage : d.Looked r.2.io.disk)
    (hworld : r.2.world = none) (hsilent : r.2.output = []) (hno : ∀ u, r.1 ≠ .ok u) :
    E.Unpublished cmd d dr r where
  image := himage
  published := not_published hworld
  prompted h := by
    rw [hsilent] at h
    cases h
  ok h := absurd h (hno ())

/-- An end after it. -/
theorem unpublished_late {r : Outcome Error Unit × Invocation} {image : Image} {keyslot : Nat}
    (hp : E.MayPrompt cmd d.file.data dr.file.data image keyslot) (himage : d.Looked r.2.io.disk)
    (hpublished : ¬ r.2.Published) (hno : ∀ u, r.1 ≠ .ok u) : E.Unpublished cmd d dr r where
  image := himage
  published := hpublished
  prompted _ := ⟨image, keyslot, hp⟩
  ok h := absurd h (hno ())

theorem mode_of_openWindows {sys : WindowsFile} {path : Option Bytes} {mode : AccessMode}
    {img : Image} (h : Image.openWindows sys path mode = .ok img) :
    img.mode = mode ∧ ∃ info, sys.metadata = some info ∧ img.len = info.len := by
  obtain ⟨-, hlocal⟩ := openWindows_iff.mp h
  obtain ⟨info, hinfo, -, -, rfl⟩ := hlocal.file
  exact ⟨rfl, info, hinfo, rfl⟩

/-- From the profile of the file system on. -/
theorem profile_ended {vol : UnlockedVolume} {keyslot : Nat} {password : Bytes}
    (hp : E.MayPrompt cmd d.file.data dr.file.data vol.image keyslot)
    (hprompt : E.prompt = some password)
    (hkey : UnlockedVolume.unlockOf E.prim E.ext vol.image keyslot password d.file.data = .ok vol)
    (hcoherent : Probe.Coherent E.crc32c vol.len (vol.plain E.prim d.file.data)) {p : Invocation}
    (hopened : Opened E.prim E.ext ⟨vol, .btrfs⟩ p.io) (hlooked : d.Looked p.io.disk)
    (hworld : p.world = none)
    {readOnly : Bool} : E.Ended cmd d dr
      ((Invocation.say E.streams (.profileValid readOnly) >>= fun _ => E.serve ⟨vol, .btrfs⟩)
        p) := by
  refine bind_elim (P := E.Ended cmd d dr) (fun _ s hsay => ?_)
    fun o hno => Or.inl (unpublished_late hp ?_ ?_ hno)
  · obtain ⟨hsaid, rfl⟩ := Invocation.say_ok hsay
    rcases E.serve_ended ⟨vol, .btrfs⟩ { p with output :=
      p.output ++ [.profileValid readOnly] } with ⟨-, hpublished, hno,
      hsame⟩ | ⟨hstarts, hpublished⟩
    · refine Or.inl (unpublished_late hp ?_ hpublished hno)
      rw [hsame]
      exact hlooked
    · exact Or.inr ⟨vol, { p with output := p.output ++ [.profileValid readOnly] },
        ⟨⟨keyslot, password, hp, hprompt, hkey⟩, hcoherent, hsaid, hstarts⟩, hopened, hlooked,
        (mode_of_openWindows hp.opens).1, hpublished, rfl⟩
  · rwa [Invocation.say_io]
  · exact not_published ((Invocation.say_world _ _ _).trans hworld)

/-- **From the key on.** -/
theorem publish_ended {vol : UnlockedVolume} {keyslot : Nat}
    (hp : E.MayPrompt cmd d.file.data dr.file.data vol.image keyslot)
    {image : Image} {password : Bytes} (hprompt : E.prompt = some password) {d₁ d₂ : Disk}
    (hlooked : d.Looked d₁)
    (hunlock : UnlockedVolume.unlock E.prim E.ext image keyslot password d₁ = (.ok vol, d₂))
    (hsize : d.file.size = vol.image.len) {p : Invocation} (hio : p.io = ⟨d₂, false, false⟩)
    (hworld : p.world = none) :
    E.Ended cmd d dr (E.publish vol .btrfs p) := by
  have hfits := fits_of_unlock hunlock
  obtain ⟨himage, -⟩ := layout_of_unlock hunlock
  subst himage
  have hcomputes := UnlockedVolume.computes_unlock E.prim E.ext vol.image keyslot password d₁.file
  have hfile₁ : d₁.file = d.file := hlooked.1
  obtain ⟨hkey, hfile₂⟩ := hcomputes.ok rfl hunlock
  have hlooked₂ : d.Looked d₂ := by
    have h := looked_of_computes hcomputes
    rw [hunlock] at h
    exact looked_trans hlooked h
  obtain ⟨new, hvfile, hvcalls, hvstill, -⟩ :=
    sees_validate E.prim E.crc32c hfits .btrfs d₂.file ⟨d₂, false, false⟩ rfl ⟨rfl, rfl⟩
  have hlooked₃ : d.Looked (vol.validate E.prim E.crc32c .btrfs p.io).2.disk := by
    rw [hio]
    exact looked_trans hlooked₂ ⟨hvfile, new, hvcalls, hvstill⟩
  unfold publish
  refine bind_elim (P := E.Ended cmd d dr) (fun v s hstep => ?_)
    fun o hno => Or.inl (unpublished_late hp hlooked₃ (not_published hworld) hno)
  obtain ⟨hok, rfl⟩ := Prod.mk.inj hstep
  have hvalid : vol.validate E.prim E.crc32c .btrfs p.io =
      (.ok v, (vol.validate E.prim E.crc32c .btrfs p.io).2) :=
    Prod.ext hok rfl
  rw [hio] at hvalid
  obtain ⟨rfl, -, hcoherent⟩ := validate_ok hfits ⟨rfl, rfl⟩ hvalid
  have hopened := opened_of_validate hunlock (by rw [hfile₁, hsize]) hvalid
  rw [hfile₂, hfile₁] at hcoherent
  rw [hfile₁] at hkey
  rw [← hio] at hopened
  exact profile_ended (p := { p with io := (vol.validate E.prim E.crc32c .btrfs p.io).2 }) hp
    hprompt hkey hcoherent hopened hlooked₃ hworld

/-- **From the password on.** -/
theorem unlock_ended {image : Image} {keyslot : Nat}
    (hp : E.MayPrompt cmd d.file.data dr.file.data image keyslot) (hsize : d.file.size = image.len)
    {d₁ dr₁ : Disk} (hlooked : d.Looked d₁) :
    E.Ended cmd d dr (E.unlock image keyslot .btrfs (.start d₁ dr₁)) := by
  unfold unlock
  rw [Run.bind_run_of (Invocation.say_writes rfl _)]
  refine bind_elim (P := E.Ended cmd d dr) (fun password s hstep => ?_)
    fun o hno => Or.inl (unpublished_late hp hlooked (not_published rfl) hno)
  obtain ⟨hprompt, rfl⟩ : E.prompt = some password ∧ _ = s := by
    obtain ⟨h1, h2⟩ := Prod.mk.inj hstep
    exact ⟨Outcome.ofOption_eq_ok.mp h1, h2⟩
  have hcomputes := UnlockedVolume.computes_unlock E.prim E.ext image keyslot password d₁.file
  have hlooked₂ := looked_trans hlooked (looked_of_computes hcomputes)
  refine bind_elim (P := E.Ended cmd d dr) (fun vol s hstep => ?_)
    fun o hno => Or.inl (unpublished_late hp hlooked₂ (not_published rfl) hno)
  obtain ⟨hok, rfl⟩ := Prod.mk.inj hstep
  have hunlock : UnlockedVolume.unlock E.prim E.ext image keyslot password d₁ = (.ok vol, _) :=
    Prod.ext hok rfl
  obtain ⟨himage, -⟩ := layout_of_unlock hunlock
  rw [← himage] at hp hsize
  cases E.keyIsLocked with
  | true => exact publish_ended hp hprompt hlooked hunlock hsize rfl rfl
  | false =>
    refine bind_elim (P := E.Ended cmd d dr) (fun _ s hsay => ?_)
      fun o hno => Or.inl (unpublished_late hp ?_ ?_ hno)
    · obtain ⟨-, rfl⟩ := Invocation.say_ok hsay
      exact publish_ended hp hprompt hlooked hunlock hsize rfl rfl
    · rw [Invocation.say_io]
      exact hlooked₂
    · exact not_published (Invocation.say_world _ _ _)

/-- **How a run ends**, over the file that was opened. -/
theorem run_ended (hlen : ∀ info, E.file.metadata = some info → info.len = d.file.size)
    (cmd : Command) (dr : Disk) :
    E.Ended cmd d dr (E.run cmd (.start d dr)) := by
  unfold run
  refine bind_elim (P := E.Ended cmd d dr) (fun image s hstep => ?_)
    fun o hno => Or.inl (unpublished_early (looked_refl d) rfl rfl hno)
  obtain ⟨hopen, rfl⟩ : Image.openWindows E.file E.path cmd.mode = .ok image ∧
    _ = s := Prod.mk.inj hstep
  obtain ⟨hmode, info, hinfo, himage⟩ := mode_of_openWindows hopen
  have hsize : d.file.size = image.len := by rw [himage, hlen info hinfo]
  have hcomputes := Metadata.computes_read E.prim E.ext image d.file
  have hlooked := looked_of_computes hcomputes
  refine bind_elim (P := E.Ended cmd d dr) (fun m s hstep => ?_)
    fun o hno => Or.inl (unpublished_early hlooked rfl rfl hno)
  obtain ⟨hok, rfl⟩ := Prod.mk.inj hstep
  have hm := (hcomputes.ok rfl (Prod.ext hok rfl :
    Metadata.read E.prim E.ext image d = (.ok m, _))).1
  cases cmd with
  | inspect =>
    show E.Ended .inspect d dr (Invocation.say E.streams _ _)
    cases hout : E.streams.writes (.inspected m.length m.keyslots) with
    | true =>
      rw [Invocation.say_writes hout]
      refine Or.inl ⟨hlooked, not_published rfl, fun h => ?_,
        fun _ => ⟨rfl, image, m, hopen, hm, rfl⟩⟩
      cases h with
      | tail _ h => cases h
    | false =>
      rw [Invocation.say_silent hout]
      exact Or.inl (unpublished_early hlooked rfl rfl nofun)
  | openVolume keyslot filesystem readWrite =>
    refine bind_elim (P := E.Ended (.openVolume keyslot filesystem readWrite) d dr)
      (fun _ s hstep => ?_) fun o hno => Or.inl (unpublished_early hlooked rfl rfl hno)
    obtain ⟨hmem, rfl⟩ := Prod.mk.inj hstep
    refine bind_elim (P := E.Ended (.openVolume keyslot filesystem readWrite) d dr)
      (fun _ s hstep => ?_) fun o hno => Or.inl (unpublished_early hlooked rfl rfl hno)
    obtain ⟨hdriver, rfl⟩ := Prod.mk.inj hstep
    obtain ⟨rfl, happroved⟩ := checkConsumer_ok hdriver
    refine bind_elim (P := E.Ended (.openVolume keyslot .btrfs readWrite) d dr)
      (fun _ s hstep => ?_) fun o hno => Or.inl (unpublished_early hlooked rfl rfl hno)
    obtain ⟨hterminal, rfl⟩ := Prod.mk.inj hstep
    have hp : E.MayPrompt (.openVolume keyslot .btrfs readWrite) d.file.data dr.file.data image
        keyslot := {
      command := ⟨readWrite, rfl⟩
      opens := hopen
      metadata := ⟨m, hm, not_not.mp (Outcome.failIf_eq_ok.mp hmem)⟩
      driver := happroved
      terminal := by simpa using Outcome.failIf_eq_ok.mp hterminal }
    exact unlock_ended hp hsize hlooked

end Environment

end Winluks
