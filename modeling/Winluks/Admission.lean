import Winluks.Adapter
import Winluks.CryptoLaws
import Winluks.Steady

/-!
# Which requests are let through

Three layers check the range of a request, each with its own formula: the
adapter multiplies by the sector size, the volume checks the payload and rounds
to sectors, the image checks the file.  In a running session over a backend that
does its work, `admission` says what they amount to, in unbounded integers: the
condition under which each request succeeds, and that every other one is an
`InvalidRange` that leaves the session as it was.
-/

namespace Winluks

open Lib Outcome

/-- A session that takes requests, and a backend that does its work. -/
structure Io.Healthy (len : Nat) (s : Io) : Prop where
  ready : s.poisoned = false ∧ s.faulted = false
  steady : s.disk.Steady len

structure Adapter.Running (len : Nat) (a : Adapter) : Prop where
  running : a.stopping = false
  io : a.io.Healthy len

/-! ## Rounding to sectors -/

/-- The size of the sectors that meet the bytes from `offset` to `offset + n`. -/
def coverSize (offset n : Nat) : Nat := (offset + n + 511) / 512 * 512 - offset / 512 * 512

/-- No aligned range around these bytes is smaller. -/
theorem coverSize_least {offset n lo hi : Nat} (hlo : lo % 512 = 0) (hhi : hi % 512 = 0)
    (h : lo ≤ offset) (h' : offset + n ≤ hi) : coverSize offset n ≤ hi - lo := by
  unfold coverSize
  omega

/-- The sectors themselves are such a range. -/
theorem coverSize_covers (offset n : Nat) : offset / 512 * 512 ≤ offset ∧
    offset + n ≤ offset / 512 * 512 + coverSize offset n := by
  unfold coverSize
  omega

/-- The reads that a payload of `total` bytes takes. -/
def ReadAdmitted (total offset n : Nat) : Prop :=
  n ≤ 1024 * 1024 ∧ offset + n ≤ total ∧ (n = 0 ∨ coverSize offset n ≤ 1024 * 1024)

variable {prim : Primitives}

/-! ## The volume -/

namespace UnlockedVolume

variable {v : UnlockedVolume} {s : Io}

theorem readEncrypted_healthy (hs : s.Healthy v.image.len) {off size : Nat}
    (hin : off + size ≤ v.image.len) :
    ∃ bs s', v.readEncrypted off size s = (.ok bs, s') ∧ bs.length = size ∧
    s'.Healthy v.image.len := by
  obtain ⟨bs, d', hread, hd'⟩ := v.image.readExactAt_steady hs.steady hin
  have hlen : bs.length = size := by
    obtain ⟨-, -, rfl⟩ := v.image.readExactAt_ok off s.disk hread
    exact slice_length _ _ _
  refine ⟨bs, { s with disk := d' }, ?_, hlen, hs.ready, hd'⟩
  unfold readEncrypted
  split
  · rw [Io.orFault, hread]
  · rw [Io.onDisk, Run.zoom, hread]

/-- **`read_at`** succeeds exactly on the admitted reads. -/
theorem readAt_exact (hfits : v.Fits) (ht : XtsTotal prim) (hs : s.Healthy v.image.len)
    (off n : Nat) :
    (ReadAdmitted v.len off n → ∃ b s', v.readAt prim off n s = (.ok b, s') ∧ b.length = n ∧
      s'.Healthy v.image.len) ∧
    (¬ ReadAdmitted v.len off n → v.readAt prim off n s = (.err .invalidRange, s)) := by
  obtain ⟨hp, hf⟩ := hs.ready
  have hinside := hfits.inside
  have haligned := hfits.aligned
  have hbound := v.image.len_lt
  by_cases hrange : maxTransfer < n ∨ v.len < off ∨ v.len - off < n
  · have hmax : maxTransfer = 1024 * 1024 := rfl
    refine ⟨fun ⟨h1, h2, _⟩ => by omega, fun _ => ?_⟩
    unfold readAt
    rw [Io.lock_ready s _ hp hf, checkedRange, failIf_pos hrange]
    rfl
  by_cases hzero : n = 0
  · refine ⟨fun _ => ⟨[], s, ?_, hzero.symm, hs⟩,
      fun hno => absurd ⟨by omega, by omega, Or.inl hzero⟩ hno⟩
    unfold readAt
    rw [Io.lock_ready s _ hp hf, checkedRange, failIf_neg hrange, Run.lift_bind, if_pos hzero]
    rfl
  have hready := @readAt_ready prim v off n s hfits hp hf (by omega) (by omega) (by omega)
  by_cases hspan : maxTransfer < (off + n + 511) / 512 * 512 - off / 512 * 512
  · refine ⟨fun ⟨_, _, hcover⟩ => ?_, fun _ => ?_⟩
    · have hmax : maxTransfer = 1024 * 1024 := rfl
      unfold coverSize at hcover
      omega
    · rw [hready, failIf_pos hspan]
      rfl
  · have hmax : maxTransfer = 1024 * 1024 := rfl
    refine ⟨fun _ => ?_, fun hno =>
      absurd ⟨by omega, by omega, Or.inr (by unfold coverSize; omega)⟩ hno⟩
    obtain ⟨enc, s', henc, hlen, hs'⟩ := @readEncrypted_healthy v s hs (v.offset + off / 512 * 512)
      ((off + n + 511) / 512 * 512 - off / 512 * 512) (by omega)
    obtain ⟨plain, hplain⟩ := @cryptSectors_total prim .decrypt v.key.bytes (off / 512)
      (ht.serves v.key.size) enc ⟨v.key.size, by omega, by omega, fun i hi => by omega⟩
    have hplen := cryptSectors_length prim hplain
    refine ⟨plain.extract (off - off / 512 * 512) (off - off / 512 * 512 + n), s', ?_, ?_, hs'⟩
    · rw [hready, failIf_neg hspan, Run.lift_bind, Run.bind_run_of henc, decryptSectors, hplain]
      rfl
    · rw [List.extract_eq_take_drop, List.length_take, List.length_drop]
      omega

end UnlockedVolume

namespace ValidatedVolume

variable {v : ValidatedVolume} {s : Io}

theorem orFault_ok {m : Run Disk Error Unit} {d' : Disk} (h : m s.disk = (.ok (), d')) :
    Io.orFault m s = (.ok (), { s with disk := d' }) := by
  rw [Io.orFault, h]

/-- **`write_at`** of a writable volume succeeds exactly on the accepted writes. -/
theorem writeAt_exact (hfits : v.volume.Fits) (ht : XtsTotal prim) (hmode : v.mode = .readWrite)
    (hs : s.Healthy v.volume.image.len) (off : Nat) (bytes : Bytes) :
    (v.Accepts (.write off bytes) → ∃ s', v.writeAt prim off bytes s = (.ok (), s') ∧
      s'.Healthy v.volume.image.len) ∧
    (¬ v.Accepts (.write off bytes) → v.writeAt prim off bytes s = (.err .invalidRange, s)) := by
  obtain ⟨hp, hf⟩ := hs.ready
  have hlen : v.len = v.volume.len := rfl
  have hmax : maxTransfer = 1024 * 1024 := rfl
  by_cases hrange : maxTransfer < bytes.length ∨ v.len < off ∨ v.len - off < bytes.length
  · refine ⟨fun ⟨_, _, _, _, _⟩ => by omega, fun _ => ?_⟩
    unfold writeAt
    rw [failIf_neg (not_not_intro hmode), checkedRange, failIf_pos hrange]
    rfl
  by_cases halign : off % 512 ≠ 0 ∨ bytes.length % 512 ≠ 0
  · refine ⟨fun ⟨_, _, _, _, _⟩ => by omega, fun _ => ?_⟩
    unfold writeAt
    rw [failIf_neg (not_not_intro hmode), checkedRange, failIf_neg hrange, failIf_pos halign]
    rfl
  refine ⟨fun _ => ?_, fun hno => absurd ⟨hmode, by omega, by omega, by omega, by omega⟩ hno⟩
  unfold writeAt
  rw [failIf_neg (not_not_intro hmode), checkedRange, failIf_neg hrange, failIf_neg halign]
  simp only [Run.lift_bind]
  rw [Io.lock_ready s _ hp hf]
  by_cases hempty : bytes = []
  · rw [if_pos hempty]
    exact ⟨s, rfl, hs⟩
  · have hin := hfits.inside
    have hbound := v.volume.image.len_lt
    obtain ⟨enc, henc⟩ := @cryptSectors_total prim .encrypt v.volume.key.bytes (off / 512)
      (ht.serves v.volume.key.size) bytes
      ⟨v.volume.key.size, by omega, by omega, fun i hi => by omega⟩
    have helen := cryptSectors_length prim henc
    have hadd : checkedAdd 64 v.volume.offset off = some (v.volume.offset + off) :=
      checkedAdd_eq_some.mpr ⟨by omega, rfl⟩
    obtain ⟨d', hd', hsteady⟩ := v.volume.image.writeAllAt_sync_steady (v.volume.offset + off) enc
      hmode (by omega) hs.steady
    refine ⟨{ s with disk := d' }, ?_, hs.ready, hsteady⟩
    rw [if_neg hempty, encryptSectors, henc]
    simp only [Run.lift_bind, hadd, ofOption_some]
    rw [orFault_ok hd']
    rfl

/-- A flush of the volume succeeds. -/
theorem flush_healthy (hs : s.Healthy v.volume.image.len) :
    ∃ s', v.flush s = (.ok (), s') ∧ s'.Healthy v.volume.image.len := by
  obtain ⟨hp, hf⟩ := hs.ready
  obtain ⟨d', hd', hsteady⟩ := v.volume.image.sync_steady hs.steady
  refine ⟨{ s with disk := d' }, ?_, hs.ready, hsteady⟩
  unfold flush
  rw [Io.lock_ready s _ hp hf, orFault_ok hd']
  rfl

end ValidatedVolume

/-! ## The adapter -/

namespace Adapter

variable {v : ValidatedVolume} {a : Adapter} {len : Nat}

theorem notStopping_running (h : a.Running len) : notStopping a = (.ok (), a) := by
  simp [notStopping, h.running]

theorem read_exact {N : Nat} (hN : v.len = 512 * N) (hfits : v.volume.Fits) (ht : XtsTotal prim)
    (ha : a.Running v.volume.image.len) (lba : Nat) {count : Nat} (hcount : count < 2 ^ 32) :
    (lba + count ≤ N ∧ count ≤ 2048 → ∃ b a', read prim v lba count a = (.ok b, a') ∧
      b.length = 512 * count ∧ a'.Running v.volume.image.len) ∧
    (¬ (lba + count ≤ N ∧ count ≤ 2048) → ∃ a', read prim v lba count a = (.err .invalidRange, a') ∧
      a'.io = a.io) := by
  have hin := hfits.inside
  have hbound := v.volume.image.len_lt
  have hlen : v.volume.len = 512 * N := hN
  have hmulc : checkedMul 64 count 512 = some (count * 512) :=
    checkedMul_eq_some.mpr ⟨by omega, rfl⟩
  unfold read
  rw [Run.bind_run_of (notStopping_running ha)]
  by_cases hmul : lba * 512 < 2 ^ 64
  · have hmull : checkedMul 64 lba 512 = some (lba * 512) := checkedMul_eq_some.mpr ⟨hmul, rfl⟩
    simp only [hmull, hmulc, ofOption_some, Run.lift_bind, Run.modify_bind]
    obtain ⟨hok, herr⟩ := UnlockedVolume.readAt_exact hfits ht ha.io (lba * 512) (count * 512)
    have hcover : coverSize (lba * 512) (count * 512) = count * 512 := by
      unfold coverSize
      omega
    refine ⟨fun hfit => ?_, fun hno => ?_⟩
    · obtain ⟨b, s', hread, hb, hs'⟩ := hok ⟨by omega, by omega, Or.inr (by omega)⟩
      refine ⟨b, { a with reads := bump a.reads, io := s' }, ?_, by omega, ha.running, hs'⟩
      rw [onIo, Run.zoom, ValidatedVolume.readAt, hread]
    · have hread := herr (by
        rintro ⟨hend, hsize, -⟩
        exact hno ⟨by omega, by omega⟩)
      refine ⟨{ a with reads := bump a.reads }, ?_, rfl⟩
      rw [onIo, Run.zoom, ValidatedVolume.readAt, hread]
  · refine ⟨fun hfit => by omega, fun _ => ⟨a, ?_, rfl⟩⟩
    rw [checkedMul, if_neg hmul]
    rfl

theorem write_exact {N : Nat} (hN : v.len = 512 * N) (hfits : v.volume.Fits) (ht : XtsTotal prim)
    (hmode : v.mode = .readWrite) (ha : a.Running v.volume.image.len) (lba : Nat) (bytes : Bytes) :
    (512 ∣ bytes.length ∧ bytes.length ≤ 1024 * 1024 ∧ 512 * lba + bytes.length ≤ 512 * N →
      ∃ a', write prim v lba bytes a = (.ok (), a') ∧ a'.Running v.volume.image.len) ∧
    (¬ (512 ∣ bytes.length ∧ bytes.length ≤ 1024 * 1024 ∧ 512 * lba + bytes.length ≤ 512 * N) →
      ∃ a', write prim v lba bytes a = (.err .invalidRange, a') ∧ a'.io = a.io) := by
  have hin := hfits.inside
  have hbound := v.volume.image.len_lt
  have hlen : v.volume.len = 512 * N := hN
  have hmax : maxTransfer = 1024 * 1024 := rfl
  have hbump : Running v.volume.image.len { a with writeAttempts := bump a.writeAttempts } :=
    ⟨ha.running, ha.io⟩
  unfold write
  rw [Run.modify_bind, failIf_neg (by simp [hmode]), Run.lift_bind]
  dsimp only
  rw [Run.bind_run_of (notStopping_running hbump)]
  by_cases hmul : lba * 512 < 2 ^ 64
  · have hmull : checkedMul 64 lba 512 = some (lba * 512) := checkedMul_eq_some.mpr ⟨hmul, rfl⟩
    simp only [hmull, ofOption_some, Run.lift_bind]
    obtain ⟨hok, herr⟩ := v.writeAt_exact hfits ht hmode ha.io (lba * 512) bytes
    refine ⟨fun hfit => ?_, fun hno => ?_⟩
    · obtain ⟨s', hwrite, hs'⟩ := hok ⟨hmode, by omega, by omega, by omega, by omega⟩
      refine ⟨{ a with writeAttempts := bump a.writeAttempts, io := s' }, ?_, ha.running, hs'⟩
      rw [onIo, Run.zoom, hwrite]
    · have hwrite := herr (by
        rintro ⟨-, hend, hfirst, hlast, hsize⟩
        exact hno ⟨by omega, by omega, by omega⟩)
      refine ⟨{ a with writeAttempts := bump a.writeAttempts }, ?_, rfl⟩
      rw [onIo, Run.zoom, hwrite]
  · refine ⟨fun hfit => by omega, fun _ =>
      ⟨{ a with writeAttempts := bump a.writeAttempts }, ?_, rfl⟩⟩
    rw [checkedMul, if_neg hmul]
    rfl

theorem flush_exact {N : Nat} (hN : v.len = 512 * N) (hfits : v.volume.Fits)
    (ha : a.Running v.volume.image.len) (lba count : Nat) :
    (lba + count ≤ N → ∃ a', flush v lba count a = (.ok (), a') ∧ a'.Running v.volume.image.len) ∧
    (¬ lba + count ≤ N → ∃ a', flush v lba count a = (.err .invalidRange, a') ∧ a'.io = a.io) := by
  have hin := hfits.inside
  have hbound := v.volume.image.len_lt
  have hlen : v.volume.len = 512 * N := hN
  obtain ⟨s', hflush, hs'⟩ := v.flush_healthy ha.io
  have hvol : flushVolume v a = (.ok (), { a with flushes := bump a.flushes, io := s' }) := by
    unfold flushVolume
    rw [Run.modify_bind, onIo, Run.zoom, hflush]
  have hok : ∃ a', flushVolume v a = (.ok (), a') ∧ a'.Running v.volume.image.len :=
    ⟨_, hvol, ha.running, hs'⟩
  unfold flush
  rw [Run.bind_run_of (notStopping_running ha)]
  by_cases hmul : lba * 512 < 2 ^ 64
  · have hmull : checkedMul 64 lba 512 = some (lba * 512) := checkedMul_eq_some.mpr ⟨hmul, rfl⟩
    simp only [hmull, ofOption_some, Run.lift_bind]
    by_cases hzero : count = 0
    · rw [if_pos hzero]
      by_cases hle : lba * 512 ≤ v.len
      · rw [if_pos hle]
        exact ⟨fun _ => hok, fun hno => absurd (by omega) hno⟩
      · rw [if_neg hle]
        exact ⟨fun h => absurd h (by omega), fun _ => ⟨a, rfl, rfl⟩⟩
    · rw [if_neg hzero]
      by_cases hbad : v.len < lba * 512 ∨ v.len - lba * 512 < count * 512
      · rw [if_pos hbad]
        exact ⟨fun h => absurd h (by omega), fun _ => ⟨a, rfl, rfl⟩⟩
      · rw [if_neg hbad]
        exact ⟨fun _ => hok, fun hno => absurd (by omega) hno⟩
  · refine ⟨fun h => absurd h (by omega), fun _ => ⟨a, ?_, rfl⟩⟩
    rw [checkedMul, if_neg hmul]
    rfl

/-- **The admission arithmetic is exact.**  Let a session come from `unlock`, run without a fault,
and have a backend and a cipher that do their work.  Its payload has `N` sectors.  Whatever block,
count, offset and length are asked for, the request succeeds under the condition stated here in
unbounded integers; else it ends in `InvalidRange` and nothing has happened to the volume. -/
theorem admission {ext : Parsers} (ht : XtsTotal prim) {image : Image} {keyslot : Nat}
    {password : Bytes} {d d' : Disk}
    (hunlock : UnlockedVolume.unlock prim ext image keyslot password d = (.ok v.volume, d'))
    (ha : a.Running v.volume.image.len) : ∃ N, v.len = 512 * N ∧ 512 * N < 2 ^ 64 ∧
    (∀ lba count, count < 2 ^ 32 →
      (lba + count ≤ N ∧ count ≤ 2048 → ∃ b a', read prim v lba count a = (.ok b, a') ∧
        b.length = 512 * count) ∧
      (¬ (lba + count ≤ N ∧ count ≤ 2048) →
        ∃ a', read prim v lba count a = (.err .invalidRange, a') ∧ a'.io = a.io)) ∧
    (v.mode = .readWrite → ∀ lba bytes,
      (512 ∣ bytes.length ∧ bytes.length ≤ 1024 * 1024 ∧ 512 * lba + bytes.length ≤ 512 * N →
        ∃ a', write prim v lba bytes a = (.ok (), a')) ∧
      (¬ (512 ∣ bytes.length ∧ bytes.length ≤ 1024 * 1024 ∧ 512 * lba + bytes.length ≤ 512 * N) →
        ∃ a', write prim v lba bytes a = (.err .invalidRange, a') ∧ a'.io = a.io)) ∧
    (∀ lba count, count < 2 ^ 32 → count * 512 < 2 ^ 64 ∧
      (lba + count ≤ N → ∃ a', flush v lba count a = (.ok (), a')) ∧
      (¬ lba + count ≤ N → ∃ a', flush v lba count a = (.err .invalidRange, a') ∧ a'.io = a.io)) ∧
    ∀ offset n,
      (n ≤ 1024 * 1024 ∧ offset + n ≤ 512 * N ∧ (n = 0 ∨ coverSize offset n ≤ 1024 * 1024) →
        ∃ b s', v.readAt prim offset n a.io = (.ok b, s') ∧ b.length = n) ∧
      (¬ (n ≤ 1024 * 1024 ∧ offset + n ≤ 512 * N ∧ (n = 0 ∨ coverSize offset n ≤ 1024 * 1024)) →
        v.readAt prim offset n a.io = (.err .invalidRange, a.io)) := by
  have hfits := fits_of_unlock hunlock
  have haligned := hfits.aligned
  have hin := hfits.inside
  have hbound := v.volume.image.len_lt
  obtain ⟨N, hN⟩ : ∃ N, v.len = 512 * N := ⟨v.len / 512, by
    have hlen : v.len = v.volume.len := rfl
    omega⟩
  have hlen : v.volume.len = 512 * N := hN
  refine ⟨N, hN, by omega, fun lba count hcount => ?_, fun hmode lba bytes => ?_,
    fun lba count hcount => ?_,
    fun offset n => ?_⟩
  · obtain ⟨hok, herr⟩ := read_exact hN hfits ht ha lba hcount
    refine ⟨fun h => ?_, herr⟩
    obtain ⟨b, a', hread, hb, -⟩ := hok h
    exact ⟨b, a', hread, hb⟩
  · obtain ⟨hok, herr⟩ := write_exact hN hfits ht hmode ha lba bytes
    refine ⟨fun h => ?_, herr⟩
    obtain ⟨a', hwrite, -⟩ := hok h
    exact ⟨a', hwrite⟩
  · obtain ⟨hok, herr⟩ := flush_exact hN hfits ha lba count
    refine ⟨by omega, fun h => ?_, herr⟩
    obtain ⟨a', hflush, -⟩ := hok h
    exact ⟨a', hflush⟩
  · obtain ⟨hok, herr⟩ := UnlockedVolume.readAt_exact hfits ht ha.io offset n
    rw [← hlen]
    refine ⟨fun h => ?_, herr⟩
    obtain ⟨b, s', hread, hb, -⟩ := hok h
    exact ⟨b, s', hread, hb⟩

end Adapter

/-! ## Any request

Admitted or not, in a running session or a faulted one: a backend that does its
work goes on doing it, and no call to it goes wrong. -/

/-- The program leaves the file steady, and its calls are good. -/
abbrev Io.KeepsSteady {ε α : Type} (len : Nat) (m : Run Io ε α) : Prop :=
  Run.Keeps (fun s s' : Io => Steadily len s.disk s'.disk) m

namespace Io

variable {ε α β : Type} {len : Nat}

theorem keepsSteady_bind {m : Run Io ε α} {f : α → Run Io ε β} (hm : KeepsSteady len m)
    (hf : ∀ a, KeepsSteady len (f a)) : KeepsSteady len (m >>= f) :=
  Run.keeps_bind (R := fun s s' : Io => Steadily len s.disk s'.disk) steadily_trans hm hf

theorem keepsSteady_lift (x : Outcome ε α) : KeepsSteady len (.lift x : Run Io ε α) :=
  fun s => steadily_refl s.disk

theorem keepsSteady_notFaulted : KeepsSteady len notFaulted :=
  keepsSteady_bind (fun s => steadily_refl s.disk) fun _ => keepsSteady_lift _

theorem keepsSteady_onDisk {m : Run Disk Error α} (h : Run.Keeps (Steadily len) m) :
    KeepsSteady len (onDisk m) := fun s => h s.disk

theorem keepsSteady_orFault {m : Run Disk Error α} (h : Run.Keeps (Steadily len) m) :
    KeepsSteady len (orFault m) := by
  intro s
  have hd := h s.disk
  unfold orFault
  rcases hm : m s.disk with ⟨_ | _ | _ | _, d⟩ <;> rw [hm] at hd <;> exact hd

theorem keepsSteady_lock {m : Run Io Error α} (h : KeepsSteady len m) :
    KeepsSteady len (lock m) := by
  intro s
  have hs := h s
  unfold lock
  split
  · exact steadily_refl s.disk
  · rcases hm : m s with ⟨_ | _ | _ | _, s'⟩ <;> rw [hm] at hs <;> exact hs

end Io

open Io in
theorem UnlockedVolume.keepsSteady_readAt (v : UnlockedVolume) (offset len : Nat) :
    KeepsSteady v.image.len (v.readAt prim offset len) := by
  have hread := v.image.steadily_readExactAt
  refine keepsSteady_lock (keepsSteady_bind keepsSteady_notFaulted fun _ =>
    keepsSteady_bind (keepsSteady_lift _) fun _ => ?_)
  split
  · exact keepsSteady_lift _
  · refine keepsSteady_bind (keepsSteady_lift _) fun stop => keepsSteady_bind (keepsSteady_lift _)
      fun _ => keepsSteady_bind (keepsSteady_lift _) fun target => keepsSteady_bind ?_
      fun encrypted => keepsSteady_bind (keepsSteady_lift _) fun plain => keepsSteady_lift _
    unfold readEncrypted
    split
    · exact keepsSteady_orFault (hread _ _)
    · exact keepsSteady_onDisk (hread _ _)

namespace ValidatedVolume

open Io

theorem keepsSteady_writeAt (v : ValidatedVolume) (offset : Nat) (bytes : Bytes) :
    KeepsSteady v.volume.image.len (v.writeAt prim offset bytes) := by
  refine keepsSteady_bind (keepsSteady_lift _) fun _ => keepsSteady_bind (keepsSteady_lift _)
    fun _ => keepsSteady_bind (keepsSteady_lift _) fun _ =>
      keepsSteady_lock (keepsSteady_bind keepsSteady_notFaulted fun _ => ?_)
  split
  · exact keepsSteady_lift _
  · exact keepsSteady_bind (keepsSteady_lift _) fun _ => keepsSteady_bind (keepsSteady_lift _)
      fun _ => keepsSteady_orFault (v.volume.image.steadily_writeAllAt_sync _ _)

theorem keepsSteady_flush (v : ValidatedVolume) : KeepsSteady v.volume.image.len v.flush :=
  keepsSteady_lock (keepsSteady_bind keepsSteady_notFaulted fun _ =>
    keepsSteady_orFault v.volume.image.steadily_sync)

/-- **A request** over a backend that does its work. -/
theorem keepsSteady_exec (v : ValidatedVolume) (op : VolOp) :
    KeepsSteady v.volume.image.len (v.exec prim op) := by
  cases op with
  | read off len => exact v.volume.keepsSteady_readAt off len
  | write off bytes =>
    exact keepsSteady_bind (v.keepsSteady_writeAt off bytes) fun _ => keepsSteady_lift _
  | flush => exact keepsSteady_bind v.keepsSteady_flush fun _ => keepsSteady_lift _
  | markFaulted =>
    exact keepsSteady_bind (fun s => steadily_refl s.disk) fun _ => keepsSteady_lift _

end ValidatedVolume

namespace Sample

/-- The small session, at its start. -/
def adapter : Adapter := .new (io [])

theorem running : adapter.Running imageLen := ⟨rfl, ⟨rfl, rfl⟩, rfl, nofun⟩

end Sample

/-- The payload of the small image has 256 sectors. -/
theorem Adapter.admission_sample :
    (∃ b a', Adapter.read Sample.prim (Sample.volume .readWrite) 1 1 Sample.adapter = (.ok b, a')) ∧
    ∃ a', Adapter.read Sample.prim (Sample.volume .readWrite) (2 ^ 64 - 1) 1 Sample.adapter =
    (.err .invalidRange, a') := by
  obtain ⟨⟨bytes, hsize⟩, d', rfl, hunlock⟩ := Sample.unlock .readWrite
  obtain ⟨N, hN, hlt, hread, -⟩ :=
    Adapter.admission (v := Sample.volume .readWrite) Sample.xtsTotal hunlock Sample.running
  have hN : 131072 = 512 * N := hN
  obtain ⟨b, a', h, -⟩ := (hread 1 1 (by decide)).1 (by omega)
  obtain ⟨a'', h', -⟩ := (hread (2 ^ 64 - 1) 1 (by decide)).2 (by omega)
  exact ⟨⟨b, a', h⟩, a'', h'⟩

end Winluks
