import Winluks.Admission
import Winluks.Ext4
import Winluks.Plaintext

/-!
# The gate in front of a volume

`validate` probes an unlocked volume through `read_at`, over whatever backend
there is.  `Sees len F m x` is `Computes` one layer up: on a ready session over
the file `F`, the program `m` leaves the file alone, and unless a call goes wrong
it returns `x`.  The probes are read through it, so that `validate_gate` can say
what an answer of the gate means: a volume that passed decrypts to an array of
the profile, and a volume of the profile is only refused when a call fails.
-/

namespace Winluks

open Lib Outcome

variable {α β : Type}

/-- The session takes requests. -/
def Io.Ready (s : Io) : Prop := s.poisoned = false ∧ s.faulted = false

/-- What `m` returns on a ready session over the file `F` is `x`, unless a call goes wrong. -/
def Sees (len : Nat) (F : File) (m : Run Io Error α) (x : Outcome Error α) : Prop :=
  ∀ s, s.disk.file = F → s.Ready → ∃ new, (m s).2.disk.file = F ∧
    (m s).2.disk.calls = s.disk.calls ++ new ∧
    (∀ c ∈ new, c.mutates = false) ∧ ((∀ c ∈ new, c.Good len) → (m s).1 = x) ∧
    ∀ a, (m s).1 = .ok a → (m s).2.Ready ∧ ∀ c ∈ new, c.Good len

section
variable {len : Nat} {F : File} {m : Run Io Error α} {x : Outcome Error α}

/-- A program that makes no call. -/
theorem sees_of_still {m : Run Io Error α} (h : ∀ s, s.disk.file = F → s.Ready → m s = (x, s)) :
    Sees len F m x := by
  intro s hs hr
  rw [h s hs hr]
  exact ⟨[], hs, (List.append_nil _).symm, nofun, fun _ => rfl, fun _ _ => ⟨hr, nofun⟩⟩

theorem sees_lift (x : Outcome Error α) : Sees len F (.lift x) x := sees_of_still fun _ _ _ => rfl

theorem sees_bind {f : α → Run Io Error β} {g : α → Outcome Error β} (hm : Sees len F m x)
    (hf : ∀ a, x = .ok a → Sees len F (f a) (g a)) : Sees len F (m >>= f) (x >>= g) := by
  intro s hs hr
  obtain ⟨new, hfile, hcalls, hstill, hgood, hok⟩ := hm s hs hr
  obtain ⟨a, s', hms, heq⟩ | ⟨e, s', hms, heq⟩ | ⟨s', hms, heq⟩ | ⟨s', hms, heq⟩ :=
    Run.bind_cases m f s <;>
    rw [hms] at hfile hcalls hgood hok <;> rw [heq]
  · obtain ⟨hr', hnew⟩ := hok a rfl
    have hx : x = .ok a := (hgood hnew).symm
    obtain ⟨new', hfile', hcalls', hstill', hgood', hok'⟩ := hf a hx s' hfile hr'
    refine ⟨new ++ new', hfile', by rw [hcalls', hcalls, List.append_assoc], fun c hc => ?_,
      fun hg => ?_,
      fun b hb => ⟨(hok' b hb).1, fun c hc => ?_⟩⟩
    · rcases List.mem_append.mp hc with hc | hc
      · exact hstill c hc
      · exact hstill' c hc
    · rw [hx, ok_bind]
      exact hgood' fun c hc => hg c (List.mem_append_right _ hc)
    · rcases List.mem_append.mp hc with hc | hc
      · exact hnew c hc
      · exact (hok' b hb).2 c hc
  all_goals
    refine ⟨new, hfile, hcalls, hstill, fun hg => ?_, fun _ hb => by cases hb⟩
    rw [← hgood hg]
    rfl

/-- Dropping the guard changes the state only after an unwinding. -/
theorem sees_dropGuard (h : Sees len F m x) : Sees len F (fun s => Io.dropGuard (m s)) x := by
  intro s hs hr
  obtain ⟨new, hfile, hcalls, hstill, hgood, hok⟩ := h s hs hr
  rcases hms : m s with ⟨o, s'⟩
  rw [hms] at hfile hcalls hgood hok
  simp only [hms]
  cases o with
  | panic => exact ⟨new, hfile, hcalls, hstill, hgood, fun _ ha => by cases ha⟩
  | _ => exact ⟨new, hfile, hcalls, hstill, hgood, hok⟩

/-- The read under the mutex.  Its failure may fault the session and change the error; its success
does neither. -/
theorem sees_readEncrypted (v : UnlockedVolume) (F : File) {off n : Nat}
    (hin : off + n ≤ v.image.len) :
    Sees v.image.len F (v.readEncrypted off n) (.ok (slice F.data off n)) := by
  intro s hs hr
  obtain ⟨new, hfile, hcalls, hstill, hgood, hok⟩ := computes_readExactAt v.image F off n s.disk hs
  rw [sliceOf_inside F.data hin] at hgood
  unfold UnlockedVolume.readEncrypted
  rcases hread : v.image.readExactAt off n s.disk with ⟨o, d⟩
  rw [hread] at hfile hcalls hgood hok
  split
  · refine ⟨new, ?_⟩
    rw [Io.orFault, hread]
    cases o with
    | ok bs => exact ⟨hfile, hcalls, hstill, hgood, fun _ _ => ⟨hr, hok bs rfl⟩⟩
    | err e => exact ⟨hfile, hcalls, hstill, fun hg => absurd (hgood hg) (by simp),
        fun _ hb => by cases hb⟩
    | panic => exact ⟨hfile, hcalls, hstill, hgood, fun _ hb => by cases hb⟩
    | halt => exact ⟨hfile, hcalls, hstill, hgood, fun _ hb => by cases hb⟩
  · refine ⟨new, ?_⟩
    rw [Io.onDisk, Run.zoom, hread]
    exact ⟨hfile, hcalls, hstill, hgood, fun bs hb => ⟨hr, hok bs hb⟩⟩

end

/-! ## What a read of the volume returns -/

namespace UnlockedVolume

variable (prim : Primitives) (v : UnlockedVolume)

/-- `read_at` as a function of the content of the image. -/
def readOf (f : Store) (offset len : Nat) : Outcome Error Bytes := do
  checkedRange v.len offset len
  if len = 0 then .ok []
  else do
    .failIf (maxTransfer < coverSize offset len) .invalidRange
    let plain ← decryptSectors prim v.key.bytes (offset / 512)
      (slice f (v.offset + offset / 512 * 512) (coverSize offset len))
    .ok (plain.extract (offset - offset / 512 * 512) (offset - offset / 512 * 512 + len))

variable {prim v} {f : Store} {off n : Nat}

theorem sees_readAt (hfits : v.Fits) (F : File) (off n : Nat) :
    Sees v.image.len F (v.readAt prim off n) (v.readOf prim F.data off n) := by
  intro s hs hr
  obtain ⟨hp, hf⟩ := hr
  have hmax : maxTransfer = 1024 * 1024 := rfl
  have hinside := hfits.inside
  have haligned := hfits.aligned
  unfold readOf checkedRange
  by_cases hrange : maxTransfer < n ∨ v.len < off ∨ v.len - off < n
  · rw [failIf_pos hrange]
    refine sees_of_still (fun s _ hr => ?_) s hs ⟨hp, hf⟩
    unfold readAt
    rw [Io.lock_ready s _ hr.1 hr.2, checkedRange, failIf_pos hrange]
    rfl
  rw [failIf_neg hrange, ok_bind]
  by_cases hzero : n = 0
  · rw [if_pos hzero]
    refine sees_of_still (fun s _ hr => ?_) s hs ⟨hp, hf⟩
    unfold readAt
    rw [Io.lock_ready s _ hr.1 hr.2, checkedRange, failIf_neg hrange, Run.lift_bind, if_pos hzero]
    rfl
  rw [if_neg hzero, readAt_ready v hfits hp hf (by omega) (by omega) (by omega)]
  refine sees_dropGuard (sees_bind (sees_lift _) fun _ _ => ?_) s hs ⟨hp, hf⟩
  have hcover : v.offset + off / 512 * 512 + coverSize off n ≤ v.image.len := by
    unfold coverSize
    omega
  exact sees_bind (sees_readEncrypted v F hcover) (g := fun encrypted => do
    let plain ← decryptSectors prim v.key.bytes (off / 512) encrypted
    .ok (plain.extract (off - off / 512 * 512) (off - off / 512 * 512 + n)))
    fun _ _ => sees_bind (sees_lift _) fun _ _ => sees_lift _

/-- A read that succeeds returns its part of the plaintext. -/
theorem readOf_ok {b : Bytes} (h : v.readOf prim f off n = .ok b) :
    off + n ≤ v.len ∧ b = slice (v.plain prim f) off n := by
  obtain ⟨u, hrange, h⟩ := bind_eq_ok.mp h
  have hrange := failIf_eq_ok.mp hrange
  refine ⟨by omega, ?_⟩
  split at h
  · next hzero =>
    cases h
    rw [hzero, slice_zero]
  · obtain ⟨-, -, h⟩ := bind_eq_ok.mp h
    obtain ⟨plain, hdec, h⟩ := bind_eq_ok.mp h
    cases h
    obtain ⟨hlo, hhi⟩ := coverSize_covers off n
    rw [slice_plain hdec, slice_extract _ _ (by omega)]
    congr 1
    · omega
    · omega

/-- Where the units can be decrypted, a read in range succeeds. -/
theorem readOf_total (hx : XtsServes prim .decrypt v.key.bytes) (hlen : v.len < 2 ^ 64)
    (h : ReadAdmitted v.len off n) :
    ∃ b, v.readOf prim f off n = .ok b := by
  have hmax : maxTransfer = 1024 * 1024 := rfl
  obtain ⟨hn, hin, hcover⟩ := h
  unfold readOf checkedRange
  rw [failIf_neg (by omega), ok_bind]
  split
  · exact ⟨[], rfl⟩
  · rw [failIf_neg (by omega), ok_bind]
    have hsize : coverSize off n % 512 = 0 ∧ off / 512 * 512 + coverSize off n < off + n + 512 := by
      unfold coverSize
      omega
    have hcrypt : Cryptable v.key.bytes (off / 512)
        (slice f (v.offset + off / 512 * 512) (coverSize off n)).length := by
      rw [slice_length]
      exact ⟨v.key.size, hsize.1, by omega, fun i hi => by omega⟩
    obtain ⟨plain, hplain⟩ := @cryptSectors_total prim .decrypt _ _ hx _ hcrypt
    rw [decryptSectors, hplain]
    exact ⟨_, rfl⟩

theorem errs_readOf (hx : XtsServes prim .decrypt v.key.bytes) (hlen : v.len < 2 ^ 64) :
    (v.readOf prim f off n).ErrsIn (· = .invalidRange) := by
  by_cases h : ReadAdmitted v.len off n
  · obtain ⟨b, hb⟩ := readOf_total (f := f) hx hlen h
    rw [hb]
    trivial
  · have hmax : maxTransfer = 1024 * 1024 := rfl
    unfold readOf checkedRange
    rw [errs_bind]
    refine ⟨errs_failIf (by rfl) _, fun _ hrange => ?_⟩
    have hrange := failIf_eq_ok.mp hrange
    split
    · trivial
    · next hn =>
      rw [failIf_pos (by
        by_contra hcover
        exact h ⟨by omega, by omega, Or.inr (by omega)⟩)]
      rfl

/-- Every read of whole sectors inside the payload succeeds, too. -/
theorem readOf_aligned (hx : XtsServes prim .decrypt v.key.bytes) (hlen : v.len < 2 ^ 64)
    (hoff : off % 512 = 0) (hn : n % 512 = 0) (hmax : n ≤ 4096) (hin : off + n ≤ v.len) :
    v.readOf prim f off n = .ok (slice (v.plain prim f) off n) := by
  have hcover : coverSize off n = n := by
    unfold coverSize
    omega
  obtain ⟨b, hb⟩ := readOf_total (f := f) hx hlen ⟨by omega, hin, Or.inr (by omega)⟩
  rw [hb, (readOf_ok hb).2]

end UnlockedVolume

/-! ## The probes -/

theorem lift_bind_fst {σ ε : Type} (x : Outcome ε α) (f : α → Run σ ε β) (st : σ) :
    ((Run.lift x >>= f) st).1 = (x >>= fun a => (f a st).1) := by
  cases x <;> rfl

namespace Probe

variable {crc32c : Bytes → UInt32} {len length : Nat} {F : File}
    {read : Nat → Nat → Run Io Error Bytes}
  {rd : Nat → Nat → Outcome Error Bytes}

theorem sees_checkMirrors (hread : ∀ o n, Sees len F (read o n) (rd o n)) (primary : Bytes)
    (offsets : List Nat) :
    Sees len F (checkMirrors crc32c length read primary offsets)
      (checkMirrors crc32c length (fun o n => .lift (rd o n)) primary offsets ()).1 := by
  induction offsets with
  | nil => exact sees_lift (.ok ())
  | cons offset rest ih =>
    unfold checkMirrors
    split
    · exact sees_lift (.ok ())
    · simp only [lift_bind_fst]
      exact sees_bind (hread _ _) fun _ _ => sees_bind (sees_lift _) fun _ _ =>
        sees_bind (sees_lift _) fun _ _ => ih

theorem sees_check (hread : ∀ o n, Sees len F (read o n) (rd o n)) (fs : Filesystem) :
    Sees len F (check crc32c length fs read)
      (check crc32c length fs (fun o n => .lift (rd o n)) ()).1 := by
  cases fs with
  | ext4 =>
    unfold check
    simp only [lift_bind_fst]
    exact sees_bind (hread _ _) fun _ _ => sees_lift _
  | btrfs =>
    unfold check
    simp only [lift_bind_fst]
    exact sees_bind (hread _ _) fun _ _ =>
      sees_bind (sees_lift _) fun _ _ => sees_checkMirrors hread _ _

theorem keepsSteady_checkMirrors (hread : ∀ o n, Io.KeepsSteady len (read o n)) (primary : Bytes)
    (offsets : List Nat) :
    Io.KeepsSteady len (checkMirrors crc32c length read primary offsets) := by
  induction offsets with
  | nil => exact Io.keepsSteady_lift _
  | cons offset rest ih =>
    unfold checkMirrors
    split
    · exact Io.keepsSteady_lift _
    · exact Io.keepsSteady_bind (hread _ _) fun _ => Io.keepsSteady_bind (Io.keepsSteady_lift _)
        fun _ => Io.keepsSteady_bind (Io.keepsSteady_lift _) fun _ => ih

theorem keepsSteady_check (hread : ∀ o n, Io.KeepsSteady len (read o n)) (fs : Filesystem) :
    Io.KeepsSteady len (check crc32c length fs read) := by
  cases fs with
  | ext4 => exact Io.keepsSteady_bind (hread _ _) fun _ => Io.keepsSteady_lift _
  | btrfs =>
    exact Io.keepsSteady_bind (hread _ _) fun _ => Io.keepsSteady_bind (Io.keepsSteady_lift _)
      fun _ => keepsSteady_checkMirrors hread _ _

/-- The arrays that may be published as this file system. -/
def Admissible (crc32c : Bytes → UInt32) (length : Nat) (f : Store) : Filesystem → Prop
  | .btrfs => Coherent crc32c length f
  | .ext4 => 2048 ≤ length ∧ Ext4.Profile crc32c (slice f 1024 1024) length

variable {f : Store} {fs : Filesystem}

theorem ext4_ok_iff {s : Bytes} (hlength : length < 2 ^ 64) :
    ext4 crc32c s length = .ok () ↔ Ext4.Profile crc32c s length := by
  rw [← Trapping.ext4_eq, Ext4.ext4_clauses crc32c s hlength]
  simp only [failIf_bind_eq_ok, failIf_eq_ok, not_not]
  exact ⟨fun h => ⟨⟨h.1, h.2.1, h.2.2.1, h.2.2.2.1⟩, h.2.2.2.2.1, h.2.2.2.2.2.1, h.2.2.2.2.2.2.1,
    h.2.2.2.2.2.2.2.1, h.2.2.2.2.2.2.2.2.1, h.2.2.2.2.2.2.2.2.2⟩,
    fun h => ⟨h.1.1, h.1.2, h.1.3, h.1.4, h.2, h.3, h.4,
    h.5, h.6, h.7⟩⟩

/-- Reads that return parts of `f` or fail accept no other array. -/
theorem admissible_of_check (hlength : length < 2 ^ 64)
    (hrd : ∀ o n b, rd o n = .ok b → o + n ≤ length ∧ b = slice f o n)
    (h : (check crc32c length fs (fun o n => .lift (rd o n)) ()).1 = .ok ()) :
    Admissible crc32c length f fs := by
  cases fs with
  | ext4 =>
    unfold check at h
    rw [lift_bind_fst] at h
    obtain ⟨s, hs, h⟩ := bind_eq_ok.mp h
    obtain ⟨hin, hblock⟩ := hrd _ _ _ hs
    rw [hblock] at h
    exact ⟨hin, (ext4_ok_iff hlength).mp h⟩
  | btrfs =>
    obtain ⟨primary, hp, hvalid, hm⟩ := (check_btrfs_ok_iff () rd).mp h
    obtain ⟨hfit, hblock⟩ := hrd _ _ _ hp
    rw [hblock] at hvalid hm
    refine ⟨hfit, fun off hoff hf => ?_, fun off hoff hf => ?_⟩
    · rcases List.mem_cons.mp hoff with rfl | hoff
      · exact hvalid
      · obtain ⟨_, hmr, hv, -⟩ := hm off hoff hf
        rwa [(hrd _ _ _ hmr).2] at hv
    · rcases List.mem_cons.mp hoff with rfl | hoff
      · exact fun _ _ _ _ => rfl
      · obtain ⟨_, hmr, -, hsame⟩ := hm off hoff hf
        rw [(hrd _ _ _ hmr).2] at hsame
        exact (same_block_iff f 65536 off).mp hsame

/-- Reads that succeed on whole sectors accept every array that may be published. -/
theorem check_of_admissible (hlength : length < 2 ^ 64)
    (hrd : ∀ o n, o % 512 = 0 → n % 512 = 0 → n ≤ 4096 → o + n ≤ length →
      rd o n = .ok (slice f o n))
    (h : Admissible crc32c length f fs) :
    (check crc32c length fs (fun o n => .lift (rd o n)) ()).1 = .ok () := by
  cases fs with
  | ext4 =>
    obtain ⟨hin, hprofile⟩ := h
    unfold check
    rw [lift_bind_fst, hrd 1024 1024 (by decide) (by decide) (by decide) (by omega), ok_bind]
    exact (ext4_ok_iff hlength).mpr hprofile
  | btrfs =>
    have hblock : ∀ off ∈ superblocks, Fits length off → rd off 4096 = .ok (block f off) :=
      fun off hoff hfit =>
      hrd off 4096 (by revert hoff; simp only [superblocks, List.mem_cons,
        List.not_mem_nil, or_false]; omega) (by decide) (by decide)
        hfit
    have hprim : 65536 ∈ superblocks := List.mem_cons_self
    refine (check_btrfs_ok_iff () rd).mpr ⟨_, hblock _ hprim h.primary, h.valid _ hprim h.primary,
      fun off hoff hfit => ?_⟩
    have hoff' : off ∈ superblocks := List.mem_cons_of_mem _ hoff
    exact ⟨_, hblock off hoff' hfit, h.valid off hoff' hfit,
      (same_block_iff f 65536 off).mpr (h.same off hoff' hfit)⟩

/-- The errors of a probe. -/
def rejections : List Error :=
  [.fsInvalid, .fsTypeMismatch, .fsRecoveryRequired, .fsUnsupportedFeature, .invalidRange]

theorem errs_btrfsAt (s : Bytes) (off : Nat) :
    (btrfsAt crc32c s length off).ErrsIn (· ∈ rejections) := by
  simp [btrfsAt, errs_bind, rejections]

theorem errs_checkMirrors (hrd : ∀ o n, (rd o n).ErrsIn (· = .invalidRange)) (primary : Bytes)
    (offsets : List Nat) :
    (checkMirrors crc32c length (fun o n => .lift (rd o n)) primary offsets ()).1.ErrsIn
      (· ∈ rejections) := by
  induction offsets with
  | nil => trivial
  | cons offset rest ih =>
    unfold checkMirrors
    split
    · trivial
    · simp only [lift_bind_fst, errs_bind]
      exact ⟨(hrd _ _).mono fun e he => by simp [rejections, he],
        fun mirror _ => ⟨errs_btrfsAt _ _, fun _ _ =>
        ⟨errs_failIf (by simp [rejections]) _, fun _ _ => ih⟩⟩⟩

theorem errs_check (hrd : ∀ o n, (rd o n).ErrsIn (· = .invalidRange)) (fs : Filesystem) :
    (check crc32c length fs (fun o n => .lift (rd o n)) ()).1.ErrsIn (· ∈ rejections) := by
  have hread : ∀ o n, (rd o n).ErrsIn (· ∈ rejections) := fun o n => (hrd o n).mono fun e he => by
    simp [rejections, he]
  cases fs with
  | ext4 =>
    unfold check
    simp only [lift_bind_fst, errs_bind]
    refine ⟨hread _ _, fun s _ => ?_⟩
    show (ext4 crc32c s length).ErrsIn (· ∈ rejections)
    simp [ext4, ext4Features, ext4Geometry, errs_bind, rejections]
  | btrfs =>
    unfold check
    simp only [lift_bind_fst, errs_bind]
    exact ⟨hread _ _, fun s _ => ⟨errs_btrfsAt _ _, fun _ _ => errs_checkMirrors hrd _ _⟩⟩

end Probe

/-! ## The gate -/

section
variable {prim : Primitives} {vol : UnlockedVolume} {crc32c : Bytes → UInt32}

theorem length_lt (hfits : vol.Fits) : vol.len < 2 ^ 64 := by
  have := hfits.inside
  have := vol.image.len_lt
  omega

theorem sees_validate (prim : Primitives) (crc32c : Bytes → UInt32) (hfits : vol.Fits)
    (fs : Filesystem) (F : File) :
    Sees vol.image.len F (vol.validate prim crc32c fs) (do
      (Probe.check crc32c vol.len fs (fun o n => .lift (vol.readOf prim F.data o n)) ()).1
      .ok ⟨vol, fs⟩) :=
  sees_bind (Probe.sees_check (fun o n => UnlockedVolume.sees_readAt hfits F o n) fs) fun _
    _ => sees_lift _

theorem keepsSteady_validate (prim : Primitives) (crc32c : Bytes → UInt32) (vol : UnlockedVolume)
    (fs : Filesystem) : Io.KeepsSteady vol.image.len (vol.validate prim crc32c fs) :=
  Io.keepsSteady_bind (Probe.keepsSteady_check vol.keepsSteady_readAt fs) fun _ =>
    Io.keepsSteady_lift _

/-- What passes is the volume that was unlocked. -/
theorem volume_of_validate {fs : Filesystem} {v : ValidatedVolume} {s s' : Io}
    (h : vol.validate prim crc32c fs s = (.ok v, s')) : v = ⟨vol, fs⟩ := by
  obtain ⟨_, s₁, -, hpure⟩ := Run.bind_run_eq_ok.mp h
  cases hpure
  rfl

/-- What passes may be published. -/
theorem validate_ok (hfits : vol.Fits) {fs : Filesystem} {v : ValidatedVolume} {s s' : Io}
    (hr : s.Ready) (h : vol.validate prim crc32c fs s = (.ok v, s')) :
    v = ⟨vol, fs⟩ ∧ s'.Ready ∧ Probe.Admissible crc32c vol.len (vol.plain prim s.disk.file.data)
      fs := by
  obtain ⟨new, -, -, -, hgood, hok⟩ := sees_validate prim crc32c hfits fs s.disk.file s rfl hr
  rw [h] at hgood hok
  obtain ⟨hready, hnew⟩ := hok v rfl
  obtain ⟨u, hcheck, hv⟩ := bind_eq_ok.mp (hgood hnew).symm
  cases hv
  exact ⟨rfl, hready, Probe.admissible_of_check (length_lt hfits)
    (fun o n b => UnlockedVolume.readOf_ok) hcheck⟩

end

/-- **The gate.**  Validate an unlocked volume as some file system, on any backend.  The file is
left alone, and no change is asked for.  A volume that passes is the one that was unlocked, its
session is ready, and the array that it decrypts to may be published as that file system.  Where the
units can be decrypted under its key and no call goes wrong, the gate comes back, a volume whose
array may be published passes, and an error is one of the probes. -/
theorem validate_gate {prim : Primitives} {ext : Parsers} {image : Image} {keyslot : Nat}
    {password : Bytes} {d d' : Disk} {vol : UnlockedVolume}
    (hunlock : UnlockedVolume.unlock prim ext image keyslot password d = (.ok vol, d'))
    (crc32c : Bytes → UInt32) (fs : Filesystem) :
    let answer := vol.validate prim crc32c fs ⟨d', false, false⟩
    let P := vol.plain prim d.file.data
    ∃ new, answer.2.disk.file = d.file ∧ answer.2.disk.calls = d'.calls ++ new ∧
      (∀ c ∈ new, c.mutates = false) ∧
      (∀ v, answer.1 = .ok v →
        v = ⟨vol, fs⟩ ∧ answer.2.Ready ∧ Probe.Admissible crc32c vol.len P fs) ∧
      (XtsServes prim .decrypt vol.key.bytes → (∀ c ∈ new, c.Good image.len) →
        answer.1.ErrsIn (· ∈ Probe.rejections) ∧
        (Probe.Admissible crc32c vol.len P fs → answer.1 = .ok ⟨vol, fs⟩)) := by
  intro answer P
  have hfits := fits_of_unlock hunlock
  have hlen := length_lt hfits
  obtain ⟨himage, -⟩ := layout_of_unlock hunlock
  have hfile : d'.file = d.file :=
    ((UnlockedVolume.computes_unlock prim ext image keyslot password d.file).ok rfl hunlock).2
  obtain ⟨new, hfile', hcalls, hstill, hgood, -⟩ :=
    sees_validate prim crc32c hfits fs d.file ⟨d', false, false⟩ hfile ⟨rfl, rfl⟩
  refine ⟨new, hfile', hcalls, hstill, fun v hv => ?_, fun hx hnew => ?_⟩
  · have hok := validate_ok hfits ⟨rfl, rfl⟩ (Prod.ext hv rfl : answer = (.ok v, answer.2))
    rwa [hfile] at hok
  · rw [himage] at hgood
    have hanswer : answer.1 = _ := hgood hnew
    rw [hanswer, errs_bind]
    refine ⟨⟨Probe.errs_check (fun o n => UnlockedVolume.errs_readOf hx hlen) fs,
      fun _ _ => trivial⟩, fun hadm => ?_⟩
    rw [Probe.check_of_admissible hlen (fun o n ho hn hmax hin =>
      UnlockedVolume.readOf_aligned hx hlen ho hn hmax hin) hadm]
    rfl

/-! ## The small image passes -/

namespace Sample

/-- The payload of the small image decrypts to the small Btrfs volume. -/
theorem plain_body (mode : AccessMode) {q : Nat} (hq : q < 131072) :
    (volume mode).volume.plain Sample.prim (store 1 body) q = Probe.Sample.volume q := by
  have hi : q % 512 < 512 := Nat.mod_lt _ (by decide)
  have hpos : 163840 + q / 512 * 512 + q % 512 = 163840 + q := by omega
  have hbody : store 1 body (163840 + q) =
      Probe.Sample.volume q ^^^ UInt8.ofNat ((163840 + q - 32768) / 512) := by
    rw [store_body (by omega), body, if_neg (by omega), Nat.add_sub_cancel_left]
  -- the sectors of the payload are numbered from the 256th of the area, and a byte counts them
  -- modulo 256
  have htweak : UInt8.ofNat ((163840 + q - 32768) / 512) = UInt8.ofNat (q / 512) := by
    have hnumber : (163840 + q - 32768) / 512 = q / 512 + 256 := by omega
    rw [hnumber, UInt8.ofNat_add]
    exact UInt8.add_zero _
  have hunit : (slice (store 1 body) (163840 + q / 512 * 512) 512).getD (q % 512) 0 =
      Probe.Sample.volume q ^^^ UInt8.ofNat (q / 512) := by
    rw [slice_getD _ _ _ _ hi, hpos, hbody, htweak]
  have hxts : ∀ iv unit : Bytes, (Sample.prim.xts .decrypt (zeros 32) iv unit) =
      some (unit.map (· ^^^ iv.headD 0)) := fun _ _ => rfl
  have hfirst : (tweak (q / 512)).headD 0 = UInt8.ofNat (q / 512) := rfl
  have hlen : q % 512 < (slice (store 1 body) (163840 + q / 512 * 512) 512).length := by
    rw [slice_length]
    exact hi
  rw [List.getD_eq_getElem _ _ hlen] at hunit
  unfold UnlockedVolume.plain
  rw [show (volume mode).volume.key.bytes = zeros 32 from rfl,
    show (volume mode).volume.offset = 163840 from rfl, hxts, Option.getD_some,
    List.getD_eq_getElem _ _ (by rwa [List.length_map]), List.getElem_map, hunit, hfirst,
    UInt8.xor_assoc, UInt8.xor_self, UInt8.xor_zero]

/-- The array of the small image may be published as Btrfs. -/
theorem admissible (mode : AccessMode) : Probe.Admissible Probe.Sample.checksum 131072
    ((volume mode).volume.plain Sample.prim (store 1 body)) .btrfs := by
  suffices hrd : ∀ o n b, Probe.inRange 131072 Probe.Sample.volume o n = .ok b → o + n ≤ 131072 ∧
      b = slice ((volume mode).volume.plain Sample.prim (store 1 body)) o n from
    Probe.admissible_of_check (by decide) hrd (by decide +kernel)
  intro o n b hb
  unfold Probe.inRange at hb
  split at hb
  · next hin =>
    cases hb
    exact ⟨hin, slice_congr fun p _ hp => (plain_body mode (by omega)).symm⟩
  · cases hb

end Sample

/-- The small image passes as Btrfs, and stays as it is. -/
theorem validate_gate_sample :
    ∃ vol d', UnlockedVolume.unlock Sample.prim Sample.parsers (Sample.image .readWrite) 1
      Sample.password (Sample.disk (Sample.store 1 Sample.body)) = (.ok vol, d') ∧
    (vol.validate Sample.prim Probe.Sample.checksum .btrfs ⟨d', false, false⟩).1 =
    .ok ⟨vol, .btrfs⟩ ∧
    (vol.validate Sample.prim Probe.Sample.checksum .btrfs ⟨d', false, false⟩).2.disk.file =
      (Sample.disk (Sample.store 1 Sample.body)).file := by
  obtain ⟨d', hsteady, hunlock⟩ := Sample.unlocked .readWrite
  obtain ⟨new, hfile, hcalls, -, -, hall⟩ := validate_gate hunlock Probe.Sample.checksum .btrfs
  obtain ⟨-, new', hcalls', hgood⟩ := keepsSteady_validate Sample.prim Probe.Sample.checksum
    (Sample.volume .readWrite).volume .btrfs ⟨d', false, false⟩ hsteady
  obtain rfl := List.append_cancel_left (hcalls.symm.trans hcalls')
  obtain ⟨-, hok⟩ := hall (Sample.xtsTotal.serves (Sample.volume .readWrite).volume.key.size) hgood
  exact ⟨_, d', hunlock, hok (Sample.admissible .readWrite), hfile⟩

end Winluks
