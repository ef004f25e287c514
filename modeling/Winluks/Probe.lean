import Winluks.Lib.Run
import Winluks.Lib.Store
import Winluks.Error

/-!
# Filesystem probes

`probe.rs`: what a decrypted volume must look like before it is published.
`check` reads the superblocks through `read`; the Btrfs branch reads every
mirror that fits, because the Windows driver may pick any of them.

`check_btrfs_iff` says which volumes the Btrfs branch admits, and that it makes
no difference which of their mirrors is picked.
-/

namespace Winluks

open Lib

inductive Filesystem where
  | btrfs
  | ext4
deriving DecidableEq, Repr

namespace Probe

def u16le (b : Bytes) (p : Nat) : Nat := leNat (b.extract p (p + 2))
def u32le (b : Bytes) (p : Nat) : Nat := leNat (b.extract p (p + 4))
def u64le (b : Bytes) (p : Nat) : Nat := leNat (b.extract p (p + 8))
def byte (b : Bytes) (p : Nat) : Nat := (b.getD p 0).toNat

/-- `x & !allowed` on `w`-bit words -/
def others (w allowed x : Nat) : Nat := x &&& (2 ^ w - 1 - allowed)

/-- `a.div_ceil(b)` -/
def divCeil (a b : Nat) : Nat := (a + b - 1) / b

/-- `low | if has64 { high << 32 } else { 0 }` -/
def wide (has64 : Bool) (high low : Nat) : Nat := low ||| if has64 then high <<< 32 else 0

/-! ## ext4 -/

def ext4Features (s : Bytes) : Outcome Error Unit := do
  let compat := u32le s 0x5c
  let incompat := u32le s 0x60
  let ro := u32le s 0x64
  .failIf (u16le s 0x3a ≠ 1 ∨ incompat &&& 0x4 ≠ 0 ∨ ro &&& 0x10000 ≠ 0 ∨ u32le s 0xe8 ≠ 0 ∨
    u32le s 0x280 ≠ 0) .fsRecoveryRequired
  .failIf (others 32 (0x4 ||| 0x8 ||| 0x10 ||| 0x20) compat ≠ 0 ∨
    others 32 (0x2 ||| 0x40 ||| 0x80 ||| 0x200 ||| 0x2000) incompat ≠ 0 ∨
    others 32 (0x1 ||| 0x2 ||| 0x8 ||| 0x20 ||| 0x40 ||| 0x400) ro ≠ 0 ∨
    compat &&& 4 = 0 ∨ incompat &&& 0x42 ≠ 0x42 ∨ ro &&& 0x400 = 0) .fsUnsupportedFeature

def ext4Geometry (s : Bytes) (length : Nat) : Outcome Error Unit := do
  let high := u32le s 0x150
  let has64 := decide (u32le s 0x60 &&& 0x80 ≠ 0)
  .failIf ((has64 = true ∧ u16le s 0xfe ≠ 64) ∨
    (has64 = false ∧ (high ≠ 0 ∨ u32le s 0x154 ≠ 0 ∨ u32le s 0x158 ≠ 0))) .fsInvalid
  let blocks := wide has64 high (u32le s 4)
  let bytes ← .ofOption .fsInvalid (checkedMul 64 blocks 4096)
  let bpg := u32le s 0x20
  let ipg := u32le s 0x28
  let inodes := u32le s 0
  .failIf (length < bytes ∨ blocks = 0 ∨ bpg = 0 ∨ 32768 < bpg ∨ u32le s 0x24 ≠ bpg ∨ ipg = 0 ∨
    32768 < ipg ∨ ipg % 16 ≠ 0) .fsInvalid
  let groups := divCeil blocks bpg
  .failIf (bpg < divCeil (ipg * 256) 4096 + 2) .fsInvalid
  .failIf (inodes = 0) .fsInvalid
  let all ← .ofOption .fsInvalid (checkedMul 64 groups ipg)
  .failIf (inodes ≠ all ∨ inodes < u32le s 0xe0 ∨ u32le s 0x54 < 11 ∨
    inodes < u32le s 0x54) .fsInvalid
  .failIf (inodes < u32le s 0x10) .fsInvalid
  .failIf (blocks < wide has64 (u32le s 0x158) (u32le s 0xc)) .fsInvalid
  .failIf (blocks < wide has64 (u32le s 0x154) (u32le s 8)) .fsInvalid

variable (crc32c : Bytes → UInt32)

/-- E0 is narrower than ext4's own forward-compatibility rules. -/
def ext4 (s : Bytes) (length : Nat) : Outcome Error Unit := do
  .failIf (s.length ≠ 1024) .fsInvalid
  .failIf (u16le s 0x38 ≠ 0xef53) .fsTypeMismatch
  .failIf (byte s 0x175 ≠ 1) .fsUnsupportedFeature
  -- ext4 stores the running state, without the final complement
  .failIf ((~~~ crc32c (s.take 0x3fc)).toNat ≠ u32le s 0x3fc) .fsInvalid
  ext4Features s
  .failIf (u32le s 0x4c ≠ 1 ∨ u16le s 0x58 ≠ 256 ∨ u32le s 0x18 ≠ 2) .fsUnsupportedFeature
  .failIf (u32le s 0x1c ≠ 2 ∨ u32le s 0x14 ≠ 0) .fsInvalid
  .failIf (u32le s 0xe0 = 0 ∨ u32le s 0xe4 ≠ 0 ∨ (s.extract 0xd0 0xe0).any (· ≠ 0) = true)
    .fsUnsupportedFeature
  ext4Geometry s length

/-! ## Btrfs -/

/-- `_BHRfS_M` -/
def btrfsMagic : Bytes := [0x5f, 0x42, 0x48, 0x52, 0x66, 0x53, 0x5f, 0x4d]

/-- Initial B0: CRC32c, 4 KiB sectors, single device, no outstanding log tree. -/
def btrfsAt (s : Bytes) (length physicalOffset : Nat) : Outcome Error Unit := do
  .failIf (s.length ≠ 4096) .fsInvalid
  .failIf (s.extract 0x40 0x48 ≠ btrfsMagic) .fsTypeMismatch
  .failIf (u16le s 0xc4 ≠ 0) .fsUnsupportedFeature
  .failIf ((crc32c (s.drop 32)).toNat ≠ u32le s 0 ∨ (s.extract 4 32).any (· ≠ 0) = true) .fsInvalid
  .failIf (u64le s 0x30 ≠ physicalOffset ∨ length < u64le s 0x70 ∨ u64le s 0x70 = 0 ∨
    u64le s 0x70 < u64le s 0x78) .fsInvalid
  .failIf (u64le s 0x88 ≠ 1) .fsUnsupportedFeature
  .failIf (u64le s 0x60 ≠ 0) .fsRecoveryRequired
  .failIf (u64le s 0x38 &&& 4 ≠ 0) .fsRecoveryRequired
  .failIf (others 64 1 (u64le s 0x38) ≠ 0) .fsUnsupportedFeature
  .failIf (u64le s 0xac ≠ 0 ∨ u64le s 0xb4 ≠ 0 ∨
    others 64 (1 ||| 2 ||| 8 ||| 16 ||| 32 ||| 64 ||| 256 ||| 512) (u64le s 0xbc) ≠ 0)
      .fsUnsupportedFeature
  .failIf (u32le s 0x90 ≠ 4096 ∨ ¬ u32le s 0x94 ∈ [4096, 8192, 16384, 32768, 65536])
    .fsUnsupportedFeature
  .failIf (u64le s 0x50 = 0 ∨ u64le s 0x50 % 4096 ≠ 0) .fsInvalid
  .failIf (u64le s 0x58 = 0 ∨ u64le s 0x58 % 4096 ≠ 0) .fsInvalid
  .failIf (2048 < u32le s 0xa0 ∨ 8 < byte s 0xc6 ∨ 8 < byte s 0xc7 ∨ 8 < byte s 0xc8) .fsInvalid

def btrfs (s : Bytes) (length : Nat) : Outcome Error Unit := btrfsAt crc32c s length 65536

variable {σ : Type}

/-- The loop of `check` over the mirrors; it stops at the first that does not fit. -/
def checkMirrors (length : Nat) (read : Nat → Nat → Run σ Error Bytes) (primary : Bytes) :
    List Nat → Run σ Error Unit
  | [] => pure ()
  | offset :: rest =>
    if length < offset + 4096 then pure ()
    else do
      let mirror ← read offset 4096
      .lift (btrfsAt crc32c mirror length offset)
      .lift (.failIf (primary.extract 32 48 ≠ mirror.extract 32 48 ∨
        primary.drop 56 ≠ mirror.drop 56) .fsRecoveryRequired)
      checkMirrors length read primary rest

def check (length : Nat) (fs : Filesystem) (read : Nat → Nat → Run σ Error Bytes) :
    Run σ Error Unit :=
  match fs with
  | .ext4 => do
    let s ← read 1024 1024
    .lift (ext4 crc32c s length)
  | .btrfs => do
    let primary ← read 65536 4096
    .lift (btrfsAt crc32c primary length 65536)
    checkMirrors crc32c length read primary [0x4000000, 0x4000000000]

/-- A property that successful reads keep is kept by a probe that succeeds. -/
theorem check_keeps {P : σ → Prop} {read : Nat → Nat → Run σ Error Bytes} {length : Nat}
    {fs : Filesystem} (hread : ∀ off n b s s', P s → read off n s = (.ok b, s') → P s') {s s' : σ}
    (h : check crc32c length fs read s = (.ok (), s')) (hs : P s) : P s' := by
  have hmirrors : ∀ (primary : Bytes) (offs : List Nat) (s : σ), P s →
      checkMirrors crc32c length read primary offs s = (.ok (), s') → P s' := by
    intro primary offs
    induction offs with
    | nil =>
      rintro s hs ⟨⟩
      exact hs
    | cons off offs ih =>
      intro s hs h
      unfold checkMirrors at h
      split at h
      · cases h
        exact hs
      · simp only [Run.bind_run_eq_ok, Run.lift_run, Prod.mk.injEq] at h
        obtain ⟨b, s₁, hr, _, _, ⟨-, rfl⟩, _, _, ⟨-, rfl⟩, hrest⟩ := h
        exact ih s₁ (hread off 4096 b s s₁ hs hr) hrest
  cases fs with
  | ext4 =>
    simp only [check, Run.bind_run_eq_ok, Run.lift_run, Prod.mk.injEq] at h
    obtain ⟨b, s₁, hr, -, rfl⟩ := h
    exact hread _ _ b s s₁ hs hr
  | btrfs =>
    simp only [check, Run.bind_run_eq_ok, Run.lift_run, Prod.mk.injEq] at h
    obtain ⟨b, s₁, hr, _, _, ⟨-, rfl⟩, hrest⟩ := h
    exact hmirrors b _ s₁ (hread _ _ b s s₁ hs hr) hrest

/-! ## What the Btrfs branch admits -/

variable {crc32c} {length : Nat} {f : Store} {s : Bytes} {off : Nat}

/-- Where superblocks are kept. -/
def superblocks : List Nat := [65536, 0x4000000, 0x4000000000]

def Fits (length off : Nat) : Prop := off + 4096 ≤ length

instance : Decidable (Fits length off) := inferInstanceAs (Decidable (_ ≤ _))

/-- The superblock kept at `off`. -/
def block (f : Store) (off : Nat) : Bytes := slice f off 4096

/-- A volume whose superblocks describe one commit.  They may differ in their
checksum and in their own address, and nowhere else. -/
structure Coherent (crc32c : Bytes → UInt32) (length : Nat) (f : Store) : Prop where
  primary : Fits length 65536
  valid : ∀ off ∈ superblocks, Fits length off → btrfsAt crc32c (block f off) length off = .ok ()
  same : ∀ off ∈ superblocks, Fits length off → ∀ i < 4096, 32 ≤ i → ¬ (48 ≤ i ∧ i < 56) →
    f (off + i) = f (65536 + i)

/-- Position and size of the fields that select a tree, a feature set or a device: file system id,
generation, root and chunk root, the three feature words, device item, system chunk array. -/
def identity : List (Nat × Nat) :=
  [(0x20, 16), (0x48, 8), (0x50, 8), (0x58, 8), (0xac, 8), (0xb4, 8), (0xbc, 8), (0xc9, 98),
    (0x32b, 2048)]

/-- The superblock at `off` stands for the same clean volume as the primary one. -/
structure SameVolume (f : Store) (off : Nat) : Prop where
  fields : ∀ e ∈ identity, (block f off).extract e.1 (e.1 + e.2) = (block f 65536).extract
    e.1 (e.1 + e.2)
  noLogTree : u64le (block f off) 0x60 = 0
  noErrorFlag : u64le (block f off) 0x38 &&& 4 = 0

def checksumOk (crc32c : Bytes → UInt32) (s : Bytes) : Bool :=
  (crc32c (s.drop 32)).toNat = u32le s 0

/-- The mirrors a driver may pick from. -/
def candidates (crc32c : Bytes → UInt32) (length : Nat) (f : Store) : List Nat :=
  superblocks.filter fun off => Fits length off ∧ checksumOk crc32c (block f off)

/-- Reads of a volume of `length` bytes: every read inside it succeeds. -/
def inRange (length : Nat) (f : Store) (o n : Nat) : Outcome Error Bytes :=
  if o + n ≤ length then .ok (slice f o n) else .err .invalidRange

theorem btrfsAt_ok (h : btrfsAt crc32c s length off = .ok ()) :
    u64le s 0x60 = 0 ∧ u64le s 0x38 &&& 4 = 0 := by
  simp only [btrfsAt, Outcome.bind_eq_ok, Outcome.failIf_eq_ok] at h
  obtain ⟨_, _, _, _, _, _, _, _, _, _, _, _, _, hlog, _, hflag, _⟩ := h
  exact ⟨by omega, by omega⟩

theorem returns_btrfsAt (s : Bytes) (length off : Nat) : (btrfsAt crc32c s length off).Returns := by
  simp [btrfsAt, Outcome.returns_bind]

/-- One mirror passed the round of the loop. -/
def Admitted (crc32c : Bytes → UInt32) (length : Nat) (rd : Nat → Nat → Outcome Error Bytes)
    (primary : Bytes) (off : Nat) : Prop :=
  ∃ mirror, rd off 4096 = .ok mirror ∧ btrfsAt crc32c mirror length off = .ok () ∧
    primary.extract 32 48 = mirror.extract 32 48 ∧ primary.drop 56 = mirror.drop 56

section
variable {σ : Type} (st : σ) (rd : Nat → Nat → Outcome Error Bytes) (primary : Bytes)

theorem checkMirrors_ok_iff (offsets : List Nat) :
    (checkMirrors crc32c length (fun o n => .lift (rd o n)) primary offsets st).1 = .ok () ↔
      ∀ off ∈ offsets.takeWhile fun o => Fits length o, Admitted crc32c length rd primary off := by
  induction offsets with
  | nil => simp [checkMirrors]
  | cons off rest ih =>
    unfold checkMirrors
    by_cases hfit : length < off + 4096
    · rw [if_pos hfit, List.takeWhile_cons_of_neg (by rw [decide_eq_true_eq]; unfold Fits; omega)]
      simp
    · rw [if_neg hfit, List.takeWhile_cons_of_pos (by rw [decide_eq_true_eq]; unfold Fits; omega),
        List.forall_mem_cons, ← ih]
      cases hrd : rd off 4096 with
      | ok mirror =>
        cases hb : btrfsAt crc32c mirror length off with
        | ok u =>
          by_cases hsame : primary.extract 32 48 = mirror.extract 32 48 ∧
            primary.drop 56 = mirror.drop 56
          · have hadm : Admitted crc32c length rd primary off := ⟨mirror, hrd, hb, hsame⟩
            simp [hb, hsame.1, hsame.2, hadm]
          · have hadm : ¬ Admitted crc32c length rd primary off := by
              rintro ⟨m, hm, -, hs⟩
              rw [hrd] at hm
              cases hm
              exact hsame hs
            have hfail : primary.extract 32 48 ≠ mirror.extract 32 48 ∨
                primary.drop 56 ≠ mirror.drop 56 := by
              rwa [← Decidable.not_and_iff_not_or_not]
            simp [hb, hadm, Outcome.failIf_pos hfail]
        | _ => simp [hb, Admitted, hrd]
      | _ => simp [Admitted, hrd]

theorem returns_checkMirrors (hrd : ∀ o n, (rd o n).Returns) (offsets : List Nat) :
    (checkMirrors crc32c length (fun o n => .lift (rd o n)) primary offsets st).1.Returns := by
  induction offsets generalizing st with
  | nil => trivial
  | cons off rest ih =>
    unfold checkMirrors
    split
    · trivial
    · refine Run.returns_bind_run (hrd off 4096) fun mirror _ _ => ?_
      refine Run.returns_bind_run (returns_btrfsAt mirror length off) fun _ _ _ => ?_
      exact Run.returns_bind_run (Outcome.returns_failIf _ _) fun _ s' _ => ih s'

/-- The mirrors are read in ascending order, so the loop passes over none that fits. -/
theorem mem_takeWhile_fits :
    off ∈ [0x4000000, 0x4000000000].takeWhile (fun o => Fits length o) ↔
      off ∈ [0x4000000, 0x4000000000] ∧ Fits length off := by
  have horder : Fits length 0x4000000000 → Fits length 0x4000000 := by unfold Fits; omega
  simp only [List.takeWhile_cons, List.takeWhile_nil]
  by_cases h1 : Fits length 0x4000000
  · by_cases h2 : Fits length 0x4000000000
    · simp only [h1, h2, decide_true, if_true, List.mem_cons, List.not_mem_nil, or_false]
      constructor
      · rintro (rfl | rfl)
        · exact ⟨Or.inl rfl, h1⟩
        · exact ⟨Or.inr rfl, h2⟩
      · exact fun h => h.1
    · simp only [h1, h2, decide_true, decide_false, if_true, Bool.false_eq_true, if_false,
        List.mem_cons, List.not_mem_nil, or_false]
      constructor
      · rintro rfl
        exact ⟨Or.inl rfl, h1⟩
      · rintro ⟨rfl | rfl, hfit⟩
        · rfl
        · exact absurd hfit h2
  · simp only [h1, decide_false, Bool.false_eq_true, if_false, List.mem_cons,
      List.not_mem_nil, or_false]
    constructor
    · nofun
    · rintro ⟨rfl | rfl, hfit⟩
      · exact absurd hfit h1
      · exact absurd (horder hfit) h1

theorem check_btrfs_ok_iff :
    (check crc32c length .btrfs (fun o n => .lift (rd o n)) st).1 = .ok () ↔
      ∃ primary, rd 65536 4096 = .ok primary ∧ btrfsAt crc32c primary length 65536 = .ok () ∧
        ∀ off ∈ [0x4000000, 0x4000000000], Fits length off →
        Admitted crc32c length rd primary off := by
  simp only [check, Run.lift_bind]
  cases hrd : rd 65536 4096 with
  | ok primary =>
    cases hb : btrfsAt crc32c primary length 65536 with
    | ok u =>
      have hm := @checkMirrors_ok_iff crc32c length σ st rd primary [0x4000000, 0x4000000000]
      simp only [hb, hm, mem_takeWhile_fits]
      constructor
      · intro h
        exact ⟨primary, rfl, hb, fun off hoff hfit => h off ⟨hoff, hfit⟩⟩
      · rintro ⟨p, hp, -, h⟩ off ⟨hoff, hfit⟩
        cases hp
        exact h off hoff hfit
    | _ =>
      simp only [hb]
      constructor
      · nofun
      · rintro ⟨p, hp, h, -⟩
        cases hp
        rw [hb] at h
        cases h
  | _ => simp

end

/-- The two comparisons of `check`, position by position. -/
theorem same_block_iff (f : Store) (a b : Nat) :
    ((block f a).extract 32 48 = (block f b).extract 32 48 ∧
      (block f a).drop 56 = (block f b).drop 56) ↔
      ∀ i < 4096, 32 ≤ i → ¬ (48 ≤ i ∧ i < 56) → f (b + i) = f (a + i) := by
  unfold block
  rw [slice_extract _ _ (by decide), slice_extract _ _ (by decide), slice_drop, slice_drop,
    slice_eq_slice_iff, slice_eq_slice_iff]
  constructor
  · rintro ⟨h1, h2⟩ i hi h32 hhole
    by_cases h : i < 48
    · have := h1 (i - 32) (by omega)
      rw [show a + 32 + (i - 32) = a + i by omega, show b + 32 + (i - 32) = b + i by omega] at this
      exact this.symm
    · have := h2 (i - 56) (by omega)
      rw [show a + 56 + (i - 56) = a + i by omega, show b + 56 + (i - 56) = b + i by omega] at this
      exact this.symm
  · intro h
    refine ⟨fun i hi => ?_, fun i hi => ?_⟩
    · have := h (32 + i) (by omega) (by omega) (by omega)
      rw [← Nat.add_assoc, ← Nat.add_assoc] at this
      exact this.symm
    · have := h (56 + i) (by omega) (by omega) (by omega)
      rw [← Nat.add_assoc, ← Nat.add_assoc] at this
      exact this.symm

/-- Every mirror of a coherent volume stands for the same volume. -/
theorem Coherent.sameVolume (h : Coherent crc32c length f) (hoff : off ∈ superblocks)
    (hfit : Fits length off) :
    SameVolume f off where
  fields e he := by
    have hrange : ∀ e ∈ identity, e.1 + e.2 ≤ 4096 ∧ 32 ≤ e.1 ∧
        (e.1 + e.2 ≤ 48 ∨ 56 ≤ e.1) := by decide
    obtain ⟨h1, h2, h3⟩ := hrange e he
    unfold block
    rw [slice_extract _ _ h1, slice_extract _ _ h1, slice_eq_slice_iff]
    intro i hi
    have := h.same off hoff hfit (e.1 + i) (by omega) (by omega) (by omega)
    rwa [← Nat.add_assoc, ← Nat.add_assoc] at this
  noLogTree := (btrfsAt_ok (h.valid off hoff hfit)).1
  noErrorFlag := (btrfsAt_ok (h.valid off hoff hfit)).2

/-- **The publication gate.**  With reads that succeed inside the volume, the
Btrfs branch admits exactly the coherent volumes; then every superblock a driver
may pick, whatever rule it picks by, stands for the same clean volume.  With
arbitrary reads, one failed read of a mirror that fits is an error. -/
theorem check_btrfs_iff (crc32c : Bytes → UInt32) (length : Nat) (f : Store) :
    ((check crc32c length .btrfs (fun o n => .lift (inRange length f o n)) ()).1 = .ok () ↔
      Coherent crc32c length f) ∧
    ((check crc32c length .btrfs (fun o n => .lift (inRange length f o n)) ()).1 = .ok () →
      ∀ off ∈ candidates crc32c length f, SameVolume f off) ∧
    ∀ (rd : Nat → Nat → Outcome Error Bytes), (∀ o n, (rd o n).Returns) →
      ∀ off ∈ superblocks, Fits length off → (∃ e, rd off 4096 = .err e) →
        ∃ e, (check crc32c length .btrfs (fun o n => .lift (rd o n)) ()).1 = .err e := by
  have hiff : (check crc32c length .btrfs (fun o n => .lift (inRange length f o n)) ()).1 = .ok () ↔
      Coherent crc32c length f := by
    have hread : ∀ off b, inRange length f off 4096 = .ok b ↔ Fits length off ∧
        block f off = b := by
      intro off b
      unfold inRange Fits block
      split
      · next h => simp [h]
      · next h => simp [h]
    rw [check_btrfs_ok_iff]
    simp only [Admitted, hread]
    constructor
    · rintro ⟨_, ⟨hfit, rfl⟩, hb, hm⟩
      refine ⟨hfit, fun off hoff hf => ?_, fun off hoff hf => ?_⟩
      · rcases List.mem_cons.mp hoff with rfl | hoff
        · exact hb
        · obtain ⟨_, ⟨_, rfl⟩, hv, -⟩ := hm off hoff hf
          exact hv
      · rcases List.mem_cons.mp hoff with rfl | hoff
        · exact fun _ _ _ _ => rfl
        · obtain ⟨_, ⟨_, rfl⟩, -, hs⟩ := hm off hoff hf
          exact (same_block_iff f 65536 off).mp hs
    · intro h
      refine ⟨_, ⟨h.primary, rfl⟩, h.valid _ List.mem_cons_self h.primary, fun off hoff hf => ?_⟩
      have hoff' : off ∈ superblocks := List.mem_cons_of_mem _ hoff
      exact ⟨_, ⟨hf, rfl⟩, h.valid off hoff' hf,
        (same_block_iff f 65536 off).mpr (h.same off hoff' hf)⟩
  refine ⟨hiff, fun hok off hoff => ?_, fun rd hrd off hoff hfit hfail => ?_⟩
  · obtain ⟨hmem, hsel⟩ := List.mem_filter.mp hoff
    exact (hiff.mp hok).sameVolume hmem (decide_eq_true_eq.mp hsel).1
  · have hret : (check crc32c length .btrfs (fun o n => .lift (rd o n)) ()).1.Returns := by
      refine Run.returns_bind_run (hrd _ _) fun primary _ _ => ?_
      exact Run.returns_bind_run (returns_btrfsAt _ _ _) fun _ s _ =>
        returns_checkMirrors _ _ _ hrd _
    have hno : (check crc32c length .btrfs (fun o n => .lift (rd o n)) ()).1 ≠ .ok () := by
      intro hok
      obtain ⟨e, he⟩ := hfail
      obtain ⟨p, hp, -, hm⟩ := (check_btrfs_ok_iff _ rd).mp hok
      rcases List.mem_cons.mp hoff with rfl | hoff
      · rw [he] at hp
        cases hp
      · obtain ⟨m, hmr, -⟩ := hm off hoff hfit
        rw [he] at hmr
        cases hmr
    rcases hc : (check crc32c length .btrfs (fun o n => .lift (rd o n)) ()).1 with
      ⟨⟩ | e | _ | _ <;>
      rw [hc] at hret hno
    · exact absurd rfl hno
    · exact ⟨e, rfl⟩
    · exact hret.elim
    · exact hret.elim

/-! ## A small Btrfs volume, with two superblocks -/

namespace Sample

/-- The superblock at `own`, up to its last field that is not zero. -/
def superblock (own : Nat) (checksum : Nat) : Bytes :=
  leBytes 4 checksum ++ zeros 44 ++ leBytes 8 own ++ leBytes 8 1 ++ btrfsMagic ++ leBytes 8 7 ++
    leBytes 8 0x100000 ++ leBytes 8 0x200000 ++ zeros 16 ++ leBytes 8 0x20000 ++
      leBytes 8 0x10000 ++ zeros 8 ++
    leBytes 8 1 ++ leBytes 4 4096 ++ leBytes 4 16384

def volume : Store :=
  overlay (overlay (fun _ => 0) 65536 (superblock 65536 0x5e25a0fe)) 0x4000000
    (superblock 0x4000000 0x900dc15e)

/-- The checksums of the two superblocks, told apart by their own address. -/
def checksum (b : Bytes) : UInt32 := if u64le b 16 = 65536 then 0x5e25a0fe else 0x900dc15e

def volumeLen : Nat := 0x4000000 + 4096

end Sample

theorem check_btrfs_iff_sample :
    (∀ off ∈ candidates Sample.checksum Sample.volumeLen Sample.volume,
      SameVolume Sample.volume off) ∧
    ∃ e, (check Sample.checksum Sample.volumeLen .btrfs (fun o n => .lift
      (if o = 0x4000000 then .err .backendIo else inRange Sample.volumeLen Sample.volume o n))
      ()).1 = .err e := by
  obtain ⟨-, hsame, hfail⟩ := check_btrfs_iff Sample.checksum Sample.volumeLen Sample.volume
  refine ⟨hsame (by decide +kernel),
    hfail _ (fun o n => ?_) 0x4000000 (by decide) (by decide) ⟨_, if_pos rfl⟩⟩
  unfold inRange
  split
  · trivial
  · split <;> trivial

end Probe

end Winluks
