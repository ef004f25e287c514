import Winluks.Opening
import Winluks.Callbacks
import Winluks.Steady
import Winluks.StrictJson

/-!
# The driver that will mount the disk

Before a password is asked for, and again before a disk is published, the bridge
looks at the driver that will consume it: `wl_consumer_ready` of the shim asks
the service manager and the registry, `check_consumer` of `windows.rs` hashes the
driver's file, and `check_consumer` of `adapter.rs` refuses the file system that
has no driver.  `consumer_gate` says what has been found out when they agree.
-/

namespace Winluks

open Lib

/-- The units of a text of ASCII characters. -/
def wide (s : String) : Name := s.toList.map fun c => UInt16.ofNat c.toNat

/-- What the system answers during one check: the service manager, the registry (`path name`, once
for each value that is expected there), the system directory, and the calls that open the driver. -/
structure Consumer where
  manager : Name → Bool
  service : Name → Bool
  status : Name → Option Nat
  registry : Name → Name → (expected : Nat) → Option Nat
  systemDirectory : Option Name
  driver : WindowsFile

namespace Shim

variable (sys : Consumer)

/-- The service is there, and `SERVICE_RUNNING`. -/
def running (name : Name) : Bool := sys.manager name && sys.service name && sys.status name = some 4

def setting (path name : Name) (expected : Nat) : Bool :=
  sys.registry path name expected = some expected

/-- `GetSystemDirectoryW`: the length that was copied, or the size that is needed. -/
def getSystemDirectory (capacity : Nat) : Nat :=
  match sys.systemDirectory with
  | none => 0
  | some dir => if dir.length < capacity then dir.length else dir.length + 1

/-- The text in a buffer, up to its first zero. -/
def text (buffer : Name) : Name := buffer.takeWhile (· ≠ 0)

/-- `file` behind the system directory, or `ERROR_INSUFFICIENT_BUFFER`. -/
def driverPath (capacity : Nat) (file : Name) : Except Nat Name :=
  let n := getSystemDirectory sys capacity
  if n = 0 ∨ capacity ≤ n + file.length then .error 122
    else .ok (text (sys.systemDirectory.getD []) ++ file)

/-- `wl_consumer_ready`, with a buffer that is there: its code, or the text it leaves in the
buffer. -/
def consumerReady (filesystem : Nat) (readOnly : Bool) (capacity : Nat) : Except Nat Name :=
  if capacity < 260 then .error 87
  else if filesystem = 0 then
    let path := wide "SYSTEM\\CurrentControlSet\\Services\\btrfs"
    if running sys (wide "btrfs") = false ∨ (setting sys path (wide "Readonly") 0 ||
      (readOnly && setting sys path (wide "Readonly") 1)) = false then .error 21
    else driverPath sys capacity (wide "\\drivers\\btrfs.sys")
  else if filesystem = 1 then
    if readOnly = false then .error 50
    else
      let path := wide "SYSTEM\\CurrentControlSet\\Services\\Ext2Fsd\\Parameters"
      if running sys (wide "Ext2Fsd") = false ∨ setting sys path (wide "WritingSupport") 0 = false ∨
        setting sys path (wide "Ext3ForceWriting") 0 = false ∨
        setting sys path (wide "Readonly") 1 = false then .error 21
      else driverPath sys capacity (wide "\\drivers\\Ext2Fsd.sys")
  else .error 87

end Shim

variable (sys : Consumer) (sha256 : Bytes → Bytes)

/-- The number by which the shim knows a file system, and the digest of its driver. -/
def Native.pin : Filesystem → Nat × Bytes
  | .btrfs => (0, textBytes "3c46f0f82726e374cec3d2e36defd2c672c68903895a510a29762f6f93866797")
  | .ext4 => (1, textBytes "06f6b4a6bc7aaf568d0442a3415394b2b7806c1bd94d35b314bebfa0993898d9")

/-- `check_consumer` of `windows.rs`, over the file of the driver. -/
def Native.checkConsumer (filesystem : Filesystem) (mode : AccessMode) : Run Disk Error Unit := do
  let pin := Native.pin filesystem
  -- every error of the shim is the same to the caller
  let buffer ← .lift (.ofOption .fsDriverUnavailable
    (Shim.consumerReady sys pin.1 (mode = .readOnly) 32768).toOption)
  let path := Utf16.toUtf8 (Shim.text buffer)
  let image ← .lift ((Image.openWindows sys.driver path .readOnly).mapErr fun _ =>
      .fsDriverUnavailable)
  .lift (.failIf (image.len = 0 ∨ 16 * 1024 * 1024 < image.len) .fsDriverUnavailable)
  let bytes ← (image.readExactAt 0 image.len).mapErr fun _ => .fsDriverUnavailable
  .lift (.failIf (Hex.hex (sha256 bytes) ≠ pin.2) .fsDriverUnavailable)

/-- `check_consumer` of `adapter.rs`. -/
def Adapter.checkConsumer (filesystem : Filesystem) (mode : AccessMode) : Run Disk Error Unit := do
  .lift (.failIf (filesystem = .ext4) .fsGateUnpassed)
  Native.checkConsumer sys sha256 filesystem mode

/-! ## What has been found out -/

/-- The driver's file behind the system directory. -/
def driverFile : Name := wide "\\drivers\\btrfs.sys"

/-- The settings under which the driver may mount a disk in this mode: it writes, or it does not
have to. -/
def Shim.Mounts (mode : AccessMode) : Prop :=
  let path := wide "SYSTEM\\CurrentControlSet\\Services\\btrfs"
  running sys (wide "btrfs") = true ∧
    (setting sys path (wide "Readonly") 0 = true ∨ mode = .readOnly ∧
      setting sys path (wide "Readonly") 1 = true)

/-- The driver's file is opened as the plain local file `img`. -/
def OpensDriver (img : Image) : Prop :=
  ∃ dir b, sys.systemDirectory = some dir ∧ 0 < dir.length ∧
    dir.length + driverFile.length < 32768 ∧
    Utf16.toUtf8 (Shim.text (Shim.text dir ++ driverFile)) = some b ∧ Image.checkPath b = .ok () ∧
    LocalFile sys.driver .readOnly img

/-- The content of the driver's file: its size, and the digest that is written down in the
source. -/
def Pinned (sha256 : Bytes → Bytes) (len : Nat) (f : Store) : Prop :=
  0 < len ∧ len ≤ 16 * 1024 * 1024 ∧
    sha256 (slice f 0 len) = beBytes 32
      0x3c46f0f82726e374cec3d2e36defd2c672c68903895a510a29762f6f93866797

instance (len : Nat) : Decidable (Pinned sha256 len f) := inferInstanceAs (Decidable (_ ∧ _ ∧ _))

/-- A driver that may mount a disk in this mode: `f` is the content of its file. -/
structure Approved (mode : AccessMode) (f : Store) : Prop where
  mounts : Shim.Mounts sys mode
  driver : ∃ img, OpensDriver sys img ∧ Pinned sha256 img.len f

variable {sys sha256} {mode : AccessMode} {buffer : Name} {f : Store}

theorem driverPath_iff {file : Name} : Shim.driverPath sys 32768 file = .ok buffer ↔
    ∃ dir, sys.systemDirectory = some dir ∧ 0 < dir.length ∧ dir.length + file.length < 32768 ∧
      buffer = Shim.text dir ++ file := by
  unfold Shim.driverPath Shim.getSystemDirectory
  cases hdir : sys.systemDirectory with
  | none => simp
  | some dir =>
    have hn : (let n := if dir.length < 32768 then dir.length else dir.length + 1; n = 0 ∨
      32768 ≤ n + file.length) ↔
        ¬ (0 < dir.length ∧ dir.length + file.length < 32768) := by
      dsimp only
      split <;> omega
    simp only [Option.getD_some, Option.some.injEq]
    by_cases hfits : 0 < dir.length ∧ dir.length + file.length < 32768
    · rw [if_neg (mt hn.mp (not_not.mpr hfits))]
      exact ⟨fun h => ⟨dir, rfl, hfits.1, hfits.2, (Except.ok.inj h).symm⟩,
        fun ⟨_, rfl, _, _, h⟩ => by rw [h]⟩
    · rw [if_pos (hn.mpr hfits)]
      exact ⟨fun h => (by cases h), fun ⟨_, rfl, h0, hlen, _⟩ => absurd ⟨h0, hlen⟩ hfits⟩

theorem consumerReady_iff :
    (Shim.consumerReady sys (Native.pin .btrfs).1 (mode = .readOnly) 32768).toOption = some buffer ↔
    Shim.Mounts sys mode ∧ Shim.driverPath sys 32768 driverFile = .ok buffer := by
  have hmounts : ¬ (Shim.running sys (wide "btrfs") = false ∨
      (Shim.setting sys (wide "SYSTEM\\CurrentControlSet\\Services\\btrfs") (wide "Readonly") 0 ||
        (decide (mode = .readOnly) && Shim.setting sys
          (wide "SYSTEM\\CurrentControlSet\\Services\\btrfs")
          (wide "Readonly") 1)) = false) ↔ Shim.Mounts sys mode := by
    simp only [Shim.Mounts, not_or, Bool.not_eq_false, Bool.or_eq_true, Bool.and_eq_true,
      decide_eq_true_eq]
  unfold Shim.consumerReady Native.pin
  rw [if_neg (by decide), if_pos rfl]
  by_cases h : Shim.Mounts sys mode
  · rw [if_neg (hmounts.mpr h)]
    simp only [h, true_and]
    show (Shim.driverPath sys 32768 driverFile).toOption = some buffer ↔ _
    cases Shim.driverPath sys 32768 driverFile <;> simp [Except.toOption]
  · rw [if_pos (not_not.mp (mt hmounts.mp h))]
    simp [h, Except.toOption]

/-- The digest in the source is the one of `Approved`, digit by digit. -/
theorem hex_eq_pin_iff {b : Bytes} : Hex.hex b = (Native.pin .btrfs).2 ↔
    b = beBytes 32 0x3c46f0f82726e374cec3d2e36defd2c672c68903895a510a29762f6f93866797 := by
  have hpin : (Native.pin .btrfs).2 =
      Hex.hex (beBytes 32 0x3c46f0f82726e374cec3d2e36defd2c672c68903895a510a29762f6f93866797) := by
        decide
  rw [hpin]
  exact ⟨Hex.hex_inj, fun h => by rw [h]⟩

/-- The file that `check_consumer` opens. -/
theorem opensDriver_iff {img : Image} :
    OpensDriver sys img ↔ ∃ buffer, Shim.driverPath sys 32768 driverFile = .ok buffer ∧
    Image.openWindows sys.driver (Utf16.toUtf8 (Shim.text buffer)) .readOnly = .ok img := by
  simp only [driverPath_iff, openWindows_iff]
  constructor
  · rintro ⟨dir, b, hdir, h0, hlen, hb, hpath, hlocal⟩
    exact ⟨_, ⟨dir, hdir, h0, hlen, rfl⟩, ⟨b, hb, hpath⟩, hlocal⟩
  · rintro ⟨_, ⟨dir, hdir, h0, hlen, rfl⟩, ⟨b, hb, hpath⟩, hlocal⟩
    exact ⟨dir, b, hdir, h0, hlen, hb, hpath, hlocal⟩

theorem openedDriver_unique {img img' : Image} (h : OpensDriver sys img)
    (h' : OpensDriver sys img') : img = img' := by
  obtain ⟨b, hb, hopen⟩ := opensDriver_iff.mp h
  obtain ⟨b', hb', hopen'⟩ := opensDriver_iff.mp h'
  cases hb.symm.trans hb'
  exact Outcome.ok.inj (hopen.symm.trans hopen')

/-- What is left of the check once the driver is opened. -/
def hashDriver (sha256 : Bytes → Bytes) (image : Image) : Run Disk Error Unit := do
  .lift (.failIf (image.len = 0 ∨ 16 * 1024 * 1024 < image.len) .fsDriverUnavailable)
  let bytes ← (image.readExactAt 0 image.len).mapErr fun _ => .fsDriverUnavailable
  .lift (.failIf (Hex.hex (sha256 bytes) ≠ (Native.pin .btrfs).2) .fsDriverUnavailable)

theorem computes_hashDriver (sha256 : Bytes → Bytes) (image : Image) (F : File) :
    Computes image.len F (hashDriver sha256 image)
    (.failIf (¬ Pinned sha256 image.len F.data) .fsDriverUnavailable) := by
  have h := computes_bind (computes_lift
    (.failIf (image.len = 0 ∨ 16 * 1024 * 1024 < image.len) .fsDriverUnavailable))
    fun _ _ => computes_bind (computes_mapErr (computes_readExactAt image F 0 image.len) fun _ =>
      .fsDriverUnavailable)
    fun bytes _ => computes_lift (.failIf (Hex.hex (sha256 bytes) ≠ (Native.pin .btrfs).2)
      .fsDriverUnavailable)
  rw [sliceOf_inside F.data (by omega), Outcome.mapErr, Outcome.ok_bind] at h
  refine Eq.mp (congrArg _ ?_) h
  by_cases hsize : image.len = 0 ∨ 16 * 1024 * 1024 < image.len
  · have hno : ¬ Pinned sha256 image.len F.data := fun hp => by
      have := hp.1
      have := hp.2.1
      omega
    rw [Outcome.failIf_pos hsize, Outcome.failIf_pos hno]
    rfl
  · rw [Outcome.failIf_neg hsize, Outcome.ok_bind]
    refine Outcome.failIf_congr (not_congr ?_) _
    rw [hex_eq_pin_iff]
    exact ⟨fun h => ⟨by omega, by omega, h⟩, fun h => h.2.2⟩

theorem steadily_hashDriver (sha256 : Bytes → Bytes) (image : Image) :
    Run.Keeps (Steadily image.len) (hashDriver sha256 image) :=
  steadily_bind (steadily_lift _) fun _ =>
    steadily_bind (Run.keeps_mapErr (image.steadily_readExactAt 0 image.len) _) fun _ =>
    steadily_lift _

theorem hashDriver_err {image : Image} {d d' : Disk} {e : Error}
    (h : hashDriver sha256 image d = (.err e, d')) :
    e = .fsDriverUnavailable := by
  rw [hashDriver, Run.failIf_bind] at h
  split at h
  · cases h
    rfl
  · obtain ⟨bs, d₁, -, heq⟩ | ⟨e', d₁, hm, heq⟩ | ⟨d₁, -, heq⟩ | ⟨d₁, -, heq⟩ :=
      Run.bind_cases ((image.readExactAt 0 image.len).mapErr fun _ => Error.fsDriverUnavailable)
        (fun bytes => .lift (.failIf (Hex.hex (sha256 bytes) ≠ (Native.pin .btrfs).2)
          .fsDriverUnavailable)) d <;>
      rw [heq] at h
    · exact (Outcome.failIf_eq_err.mp (congrArg Prod.fst h)).2.symm
    · cases h
      rcases hread : (image.readExactAt 0 image.len d).1 with _ | _ | _ | _ <;>
        simp only [Run.mapErr, hread, Outcome.mapErr, Prod.mk.injEq, Outcome.err.injEq,
          reduceCtorEq, false_and] at hm
      exact hm.1.symm
    · cases h
    · cases h

/-- The driver is not opened, with the only error of this check; or it is, and its file decides. -/
theorem checkConsumer_cases (sys : Consumer) (sha256 : Bytes → Bytes) (mode : AccessMode)
    (d : Disk) :
    (¬ (Shim.Mounts sys mode ∧ ∃ img, OpensDriver sys img) ∧
      Adapter.checkConsumer sys sha256 .btrfs mode d = (.err .fsDriverUnavailable, d)) ∨
    ∃ img, Shim.Mounts sys mode ∧ OpensDriver sys img ∧
      Adapter.checkConsumer sys sha256 .btrfs mode d = hashDriver sha256 img d := by
  unfold Adapter.checkConsumer Native.checkConsumer
  rw [Outcome.failIf_neg (by decide), Run.lift_bind]
  simp only [opensDriver_iff]
  cases hready : (Shim.consumerReady sys (Native.pin .btrfs).1 (mode = .readOnly)
    32768).toOption with
  | none =>
    refine Or.inl ⟨?_, by rfl⟩
    rintro ⟨hmounts, img, buffer, hbuffer, -⟩
    rw [consumerReady_iff.mpr ⟨hmounts, hbuffer⟩] at hready
    cases hready
  | some buffer =>
    obtain ⟨hmounts, hbuffer⟩ := consumerReady_iff.mp hready
    have hret := returns_openWindows sys.driver (Utf16.toUtf8 (Shim.text buffer)) .readOnly
    cases hopen : Image.openWindows sys.driver (Utf16.toUtf8 (Shim.text buffer)) .readOnly with
    | ok img =>
      refine Or.inr ⟨img, hmounts, ⟨buffer, hbuffer, hopen⟩, ?_⟩
      simp only [hashDriver, Outcome.ofOption_some, Run.lift_bind, hopen, Outcome.mapErr]
    | err e =>
      refine Or.inl ⟨?_, by simp only [Outcome.ofOption_some, Run.lift_bind, hopen, Outcome.mapErr]⟩
      rintro ⟨-, img, buffer', hbuffer', hopen'⟩
      cases hbuffer.symm.trans hbuffer'
      cases hopen.symm.trans hopen'
    | panic | halt => rw [hopen] at hret; exact hret.elim

/-- What passes has been approved. -/
theorem checkConsumer_ok {fs : Filesystem} {d : Disk}
    (h : (Adapter.checkConsumer sys sha256 fs mode d).1 = .ok ()) :
    fs = .btrfs ∧ Approved sys sha256 mode d.file.data := by
  cases fs with
  | ext4 => cases h
  | btrfs =>
    rcases checkConsumer_cases sys sha256 mode d with ⟨-, heq⟩ | ⟨img, hmounts, hopen, heq⟩
    · rw [heq] at h
      cases h
    · rw [heq] at h
      obtain ⟨new, -, -, -, hgood, hok⟩ := computes_hashDriver sha256 img d.file d rfl
      have hpure := Outcome.failIf_eq_ok.mp ((hgood (hok () h)).symm.trans h)
      exact ⟨rfl, hmounts, img, hopen, not_not.mp hpure⟩

/-- **The gate of the driver.**  Check the driver of a file system, over any answers of the system
and any backend under its file.  The file is left alone.  The check passes only for Btrfs, with a
driver that is running, is set up for the mode, is a plain local file and has the digest that is
written down; and it passes for every such driver unless a call goes wrong.  Otherwise the error
says that there is no gate or no driver. -/
theorem consumer_gate (sys : Consumer) (sha256 : Bytes → Bytes) (fs : Filesystem)
    (mode : AccessMode) (d : Disk) :
    let answer := Adapter.checkConsumer sys sha256 fs mode d
    ∃ new, answer.2.file = d.file ∧ answer.2.calls = d.calls ++ new ∧
      (∀ c ∈ new, c.mutates = false) ∧
      (answer.1 = .ok () → fs = .btrfs ∧ Approved sys sha256 mode d.file.data) ∧
      (fs = .btrfs → Approved sys sha256 mode d.file.data →
        (∀ img, OpensDriver sys img → ∀ c ∈ new, c.Good img.len) → answer.1 = .ok ()) ∧
      ∀ e, answer.1 = .err e → e = if fs = .ext4 then .fsGateUnpassed
        else .fsDriverUnavailable := by
  intro answer
  cases fs with
  | ext4 =>
    have hanswer : answer = (.err .fsGateUnpassed, d) := rfl
    rw [hanswer]
    exact ⟨[], rfl, (List.append_nil _).symm, nofun, nofun, nofun, fun e he => by cases he; rfl⟩
  | btrfs =>
    rcases checkConsumer_cases sys sha256 mode d with ⟨hno, h⟩ | ⟨img, hmounts, hopen, h⟩
    · have hanswer : answer = (.err .fsDriverUnavailable, d) := h
      rw [hanswer]
      refine ⟨[], rfl, (List.append_nil _).symm, nofun, nofun, fun _ happ _ => ?_,
        fun e he => by cases he; rfl⟩
      obtain ⟨img, hopen, -⟩ := happ.driver
      exact absurd ⟨happ.mounts, img, hopen⟩ hno
    · have hanswer : answer = hashDriver sha256 img d := h
      rw [hanswer]
      obtain ⟨new, hfile, hcalls, hstill, hgood, -⟩ := computes_hashDriver sha256 img d.file d rfl
      refine ⟨new, hfile, hcalls, hstill, fun hans => checkConsumer_ok (by rw [h, hans]),
        fun _ happ hnew => ?_,
        fun e he => ?_⟩
      · obtain ⟨img', hopen', hpinned⟩ := happ.driver
        cases openedDriver_unique hopen hopen'
        rw [hgood (hnew img hopen), Outcome.failIf_neg (not_not.mpr hpinned)]
      · exact hashDriver_err (Prod.ext he rfl)

end Winluks
