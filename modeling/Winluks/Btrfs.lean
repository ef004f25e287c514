import Winluks.Ext4

/-!
# The Btrfs gate

`Probe.Trapping.check` is `check` with everything that could unwind left in: the
slices of the superblocks, which a reader may return at any length, and the sum
in the bound of the mirrors.  `Profile` says what the gate is for: conditions on
the fields of one superblock, over sets of flags and powers of two.

`btrfs_profile` reads the whole gate off it: it always returns, it accepts the
devices all of whose superblocks are of the profile and agree with the primary
one, and the first superblock that is not accepted decides the error.
-/

namespace Winluks

open Lib

namespace Probe

namespace Trapping

def u64le (b : Bytes) (p : Nat) : Outcome Error Nat := do
  return leNat (← range b p (p + 8))

def btrfsAt (crc32c : Bytes → UInt32) (s : Bytes) (length physicalOffset : Nat) :
    Outcome Error Unit := do
  .failIf (s.length ≠ 4096) .fsInvalid
  .failIf ((← range s 0x40 0x48) ≠ btrfsMagic) .fsTypeMismatch
  .failIf ((← u16le s 0xc4) ≠ 0) .fsUnsupportedFeature
  .failIf ((crc32c (← range s 32 s.length)).toNat ≠ (← u32le s 0) ∨
    (← range s 4 32).any (· ≠ 0) = true) .fsInvalid
  let total ← u64le s 0x70
  .failIf ((← u64le s 0x30) ≠ physicalOffset ∨ length < total ∨ total = 0 ∨
    total < (← u64le s 0x78)) .fsInvalid
  .failIf ((← u64le s 0x88) ≠ 1) .fsUnsupportedFeature
  .failIf ((← u64le s 0x60) ≠ 0) .fsRecoveryRequired
  let flags ← u64le s 0x38
  .failIf (flags &&& 4 ≠ 0) .fsRecoveryRequired
  .failIf (others 64 1 flags ≠ 0) .fsUnsupportedFeature
  .failIf ((← u64le s 0xac) ≠ 0 ∨ (← u64le s 0xb4) ≠ 0 ∨
    others 64 (1 ||| 2 ||| 8 ||| 16 ||| 32 ||| 64 ||| 256 ||| 512) (← u64le s 0xbc) ≠ 0)
      .fsUnsupportedFeature
  let node ← u32le s 0x94
  .failIf ((← u32le s 0x90) ≠ 4096 ∨ ¬ node ∈ [4096, 8192, 16384, 32768, 65536])
    .fsUnsupportedFeature
  let root ← u64le s 0x50
  .failIf (root = 0 ∨ root % 4096 ≠ 0) .fsInvalid
  let chunkRoot ← u64le s 0x58
  .failIf (chunkRoot = 0 ∨ chunkRoot % 4096 ≠ 0) .fsInvalid
  .failIf (2048 < (← u32le s 0xa0) ∨ 8 < (← index s 0xc6) ∨ 8 < (← index s 0xc7) ∨
    8 < (← index s 0xc8)) .fsInvalid

variable {σ : Type} (crc32c : Bytes → UInt32)

def checkMirrors (length : Nat) (read : Nat → Nat → Run σ Error Bytes) (primary : Bytes) :
    List Nat → Run σ Error Unit
  | [] => pure ()
  | offset :: rest => do
    let past ← .lift (trapAdd 64 offset 4096)
    if length < past then pure ()
    else do
      let mirror ← read offset 4096
      .lift (btrfsAt crc32c mirror length offset)
      .lift (do
        .failIf ((← range primary 32 48) ≠ (← range mirror 32 48) ∨
          (← range primary 56 primary.length) ≠ (← range mirror 56 mirror.length))
          .fsRecoveryRequired)
      checkMirrors length read primary rest

def check (length : Nat) (fs : Filesystem) (read : Nat → Nat → Run σ Error Bytes) :
    Run σ Error Unit :=
  match fs with
  | .ext4 => do
    let s ← read 1024 1024
    .lift (ext4 crc32c s length)
  | .btrfs => do
    let primary ← read 65536 4096
    .lift (btrfsAt crc32c primary length 65536)
    checkMirrors crc32c length read primary [0x4000000, 0x4000000000]

/-! ## Nothing unwinds -/

variable {crc32c} {s : Bytes}

theorem u64le_ok {p : Nat} (h : p + 8 ≤ s.length) : u64le s p = .ok (Probe.u64le s p) := by
  simp [u64le, range_ok (Nat.le_add_right p 8) h, Probe.u64le]

theorem extract_end (s : Bytes) (i : Nat) : s.extract i s.length = s.drop i := by
  rw [List.extract_eq_take_drop, List.take_of_length_le (by simp)]

theorem btrfsAt_eq (s : Bytes) (length off : Nat) :
    btrfsAt crc32c s length off = Probe.btrfsAt crc32c s length off := by
  unfold btrfsAt Probe.btrfsAt
  refine Outcome.failIf_bind_congr fun h => ?_
  have hlen : s.length = 4096 := not_not.mp h
  simp (disch := omega) only [u16le_ok, u32le_ok, u64le_ok, index_ok, range_ok, extract_end,
    Outcome.ok_bind]

/-- A superblock that was let through has its size. -/
theorem length_of_btrfsAt {length off : Nat} (h : Probe.btrfsAt crc32c s length off = .ok ()) :
    s.length = 4096 :=
  not_not.mp (Outcome.failIf_bind_eq_ok.mp h).1

theorem checkMirrors_eq {length : Nat} {primary : Bytes} (hp : primary.length = 4096)
    (read : Nat → Nat → Run σ Error Bytes) (offsets : List Nat)
    (hoff : ∀ off ∈ offsets, off + 4096 < 2 ^ 64) :
    checkMirrors crc32c length read primary offsets =
    Probe.checkMirrors crc32c length read primary offsets := by
  induction offsets with
  | nil => rfl
  | cons off rest ih =>
    unfold checkMirrors Probe.checkMirrors
    rw [trapAdd_ok (hoff off List.mem_cons_self), ih fun o ho => hoff o (List.mem_cons_of_mem _ ho)]
    show (if length < off + 4096 then (pure () : Run σ Error Unit) else _) = _
    split
    · rfl
    · congr 1
      funext mirror s
      simp only [Run.lift_bind, btrfsAt_eq]
      cases hb : Probe.btrfsAt crc32c mirror length off with
      | ok u =>
        have hm := length_of_btrfsAt hb
        simp (disch := omega) only [range_ok, extract_end, Outcome.ok_bind]
      | _ => rfl

/-- The probes as they run are the probes: no read leaves a superblock, whatever the reader
returns. -/
theorem check_eq (length : Nat) (fs : Filesystem) (read : Nat → Nat → Run σ Error Bytes) :
    check crc32c length fs read = Probe.check crc32c length fs read := by
  cases fs with
  | ext4 => simp only [check, Probe.check, ext4_eq]
  | btrfs =>
    simp only [check, Probe.check, btrfsAt_eq]
    congr 1
    funext primary s
    simp only [Run.lift_bind]
    cases hb : Probe.btrfsAt crc32c primary length 65536 with
    | ok u => rw [checkMirrors_eq (length_of_btrfsAt hb) read _ (by decide)]
    | _ => rfl

end Trapping

end Probe

namespace Btrfs

/-! ## The profile -/

/-- The fields of a superblock that the profile is about. -/
structure Superblock where
  checksum : Nat
  checksumTail : Bytes
  physical : Nat
  flags : Nat
  magic : Bytes
  root : Nat
  chunkRoot : Nat
  logRoot : Nat
  totalBytes : Nat
  bytesUsed : Nat
  devices : Nat
  sectorSize : Nat
  nodeSize : Nat
  chunkArraySize : Nat
  compat : Nat
  compatRo : Nat
  incompat : Nat
  checksumType : Nat
  rootLevel : Nat
  chunkRootLevel : Nat
  logRootLevel : Nat

open Probe in
def Superblock.parse (s : Bytes) : Superblock where
  checksum := u32le s 0
  checksumTail := s.extract 4 32
  physical := u64le s 0x30
  flags := u64le s 0x38
  magic := s.extract 0x40 0x48
  root := u64le s 0x50
  chunkRoot := u64le s 0x58
  logRoot := u64le s 0x60
  totalBytes := u64le s 0x70
  bytesUsed := u64le s 0x78
  devices := u64le s 0x88
  sectorSize := u32le s 0x90
  nodeSize := u32le s 0x94
  chunkArraySize := u32le s 0xa0
  compat := u64le s 0xac
  compatRo := u64le s 0xb4
  incompat := u64le s 0xbc
  checksumType := u16le s 0xc4
  rootLevel := byte s 0xc6
  chunkRootLevel := byte s 0xc7
  logRootLevel := byte s 0xc8

-- Bits of the flags and of the incompatible features.
def writtenFlag : Nat := 0
def errorFlag : Nat := 2

def mixedBackref : Nat := 0
def defaultSubvol : Nat := 1
def compressLzo : Nat := 3
def compressZstd : Nat := 4
def bigMetadata : Nat := 5
def extendedIref : Nat := 6
def skinnyMetadata : Nat := 8
def noHoles : Nat := 9

namespace Superblock

variable (b : Superblock)

/-- The superblock is where it says, on a volume of `length` bytes that holds its file system. -/
structure Placed (length off : Nat) : Prop where
  physical : b.physical = off
  fits : b.totalBytes ≤ length
  total_pos : 0 < b.totalBytes
  used : b.bytesUsed ≤ b.totalBytes

/-- No log to replay, and no error seen. -/
structure Clean : Prop where
  noLogTree : b.logRoot = 0
  noError : b.flags.testBit errorFlag = false

structure Supported : Prop where
  flags : ∀ i, b.flags.testBit i = true → i ∈ [writtenFlag]
  compat : b.compat = 0
  compatRo : b.compatRo = 0
  incompat : ∀ i, b.incompat.testBit i = true →
    i ∈ [mixedBackref, defaultSubvol, compressLzo, compressZstd, bigMetadata, extendedIref,
      skinnyMetadata, noHoles]
  sectorSize : b.sectorSize = 4096
  nodeSize : ∃ k ≤ 4, b.nodeSize = 4096 * 2 ^ k

/-- The roots are addresses of sectors, and the fixed arrays and trees hold what is said to be in
them. -/
structure Shaped : Prop where
  root_pos : 0 < b.root
  root_dvd : 4096 ∣ b.root
  chunkRoot_pos : 0 < b.chunkRoot
  chunkRoot_dvd : 4096 ∣ b.chunkRoot
  chunkArray : b.chunkArraySize ≤ 2048
  rootLevel : b.rootLevel ≤ 8
  chunkRootLevel : b.chunkRootLevel ≤ 8
  logRootLevel : b.logRootLevel ≤ 8

end Superblock

/-- The superblock is one of Btrfs, with the checksum that is known here. -/
structure Known (s : Bytes) : Prop where
  size : s.length = 4096
  magic : (Superblock.parse s).magic = Probe.btrfsMagic
  checksumType : (Superblock.parse s).checksumType = 0

/-- It arrived whole. -/
structure Intact (crc32c : Bytes → UInt32) (s : Bytes) : Prop where
  checksum : (crc32c (s.drop 32)).toNat = (Superblock.parse s).checksum
  checksumTail : ∀ x ∈ (Superblock.parse s).checksumTail, x = 0

/-- The superblocks that the profile admits at `off` on a volume of `length` bytes. -/
structure Profile (crc32c : Bytes → UInt32) (s : Bytes) (length off : Nat) : Prop where
  known : Known s
  intact : Intact crc32c s
  placed : (Superblock.parse s).Placed length off
  single : (Superblock.parse s).devices = 1
  clean : (Superblock.parse s).Clean
  supported : (Superblock.parse s).Supported
  shaped : (Superblock.parse s).Shaped

/-- Which superblocks end the probe with which error. -/
def Refused (crc32c : Bytes → UInt32) (s : Bytes) (length off : Nat) : Error → Prop
  | .fsTypeMismatch => s.length = 4096 ∧ (Superblock.parse s).magic ≠ Probe.btrfsMagic
  | .fsRecoveryRequired => Known s ∧ Intact crc32c s ∧ (Superblock.parse s).Placed length off ∧
    (Superblock.parse s).devices = 1 ∧ ¬ (Superblock.parse s).Clean
  | .fsUnsupportedFeature =>
    s.length = 4096 ∧ (Superblock.parse s).magic = Probe.btrfsMagic ∧
    (Superblock.parse s).checksumType ≠ 0 ∨
    Known s ∧ Intact crc32c s ∧ (Superblock.parse s).Placed length off ∧
    ((Superblock.parse s).devices ≠ 1 ∨
      (Superblock.parse s).Clean ∧ ¬ (Superblock.parse s).Supported)
  | .fsInvalid => s.length ≠ 4096 ∨ Known s ∧
      (¬ Intact crc32c s ∨ ¬ (Superblock.parse s).Placed length off ∨
    (Superblock.parse s).devices = 1 ∧ (Superblock.parse s).Clean ∧ (Superblock.parse s).Supported ∧
      ¬ (Superblock.parse s).Shaped)
  | _ => False

/-! ## The tests of the gate are the clauses of the profile -/

open Probe

variable {crc32c : Bytes → UInt32} {s : Bytes} {length off : Nat}

theorem u64le_lt (s : Bytes) (p : Nat) : u64le s p < 2 ^ 64 := by
  have h := leNat_lt (s.extract p (p + 8))
  have hlen : (s.extract p (p + 8)).length ≤ 8 := by simp
  exact h.trans_le (Nat.pow_le_pow_right (by decide) hlen)

theorem admitted_iff {word : Nat} (hw : word < 2 ^ 64) {allowed : List Nat}
    (h : ∀ i ∈ allowed, i < 64) :
    (∀ i, word.testBit i = true → i ∈ allowed) ↔ others 64 (mask allowed) word = 0 := by
  rw [others, and_not_mask_eq_zero hw h]

theorem nodeSize_iff (n : Nat) :
    (∃ k ≤ 4, n = 4096 * 2 ^ k) ↔ n ∈ [4096, 8192, 16384, 32768, 65536] := by
  simp only [List.mem_cons, List.not_mem_nil, or_false]
  constructor
  · rintro ⟨k, hk, rfl⟩
    obtain rfl | rfl | rfl | rfl | rfl : k = 0 ∨ k = 1 ∨ k = 2 ∨ k = 3 ∨ k = 4 := by omega
    all_goals simp
  · rintro (rfl | rfl | rfl | rfl | rfl)
    · exact ⟨0, by decide, rfl⟩
    · exact ⟨1, by decide, rfl⟩
    · exact ⟨2, by decide, rfl⟩
    · exact ⟨3, by decide, rfl⟩
    · exact ⟨4, by decide, rfl⟩

theorem intact_iff : Intact crc32c s ↔
    ¬ ((crc32c (s.drop 32)).toNat ≠ u32le s 0 ∨ (s.extract 4 32).any (· ≠ 0) = true) := by
  simp only [not_or, not_not, List.any_eq_true, decide_eq_true_eq, not_exists, not_and]
  exact ⟨fun h => ⟨h.1, h.2⟩, fun h => ⟨h.1, h.2⟩⟩

theorem placed_iff : (Superblock.parse s).Placed length off ↔
    ¬ (u64le s 0x30 ≠ off ∨ length < u64le s 0x70 ∨ u64le s 0x70 = 0 ∨
      u64le s 0x70 < u64le s 0x78) := by
  simp only [not_or, not_not, not_lt]
  exact ⟨fun h => ⟨h.1, h.2, h.3.ne', h.4⟩, fun h =>
    ⟨h.1, h.2.1, Nat.pos_of_ne_zero h.2.2.1, h.2.2.2⟩⟩

theorem clean_iff : (Superblock.parse s).Clean ↔ ¬ (u64le s 0x60 ≠ 0 ∨ u64le s 0x38 &&& 4 ≠ 0) := by
  have herror : (u64le s 0x38).testBit errorFlag = false ↔ u64le s 0x38 &&& 4 = 0 :=
    Ext4.testBit_eq_false_iff _
  rw [not_or, not_not, not_not, ← herror]
  exact ⟨fun h => ⟨h.1, h.2⟩, fun h => ⟨h.1, h.2⟩⟩

theorem supported_iff : (Superblock.parse s).Supported ↔
    ¬ (others 64 1 (u64le s 0x38) ≠ 0 ∨ (u64le s 0xac ≠ 0 ∨ u64le s 0xb4 ≠ 0 ∨
      others 64 (1 ||| 2 ||| 8 ||| 16 ||| 32 ||| 64 ||| 256 ||| 512) (u64le s 0xbc) ≠ 0) ∨
      (u32le s 0x90 ≠ 4096 ∨ ¬ u32le s 0x94 ∈ [4096, 8192, 16384, 32768, 65536])) := by
  have hflags := admitted_iff (u64le_lt s 0x38) (by decide : ∀ i ∈ [writtenFlag], i < 64)
  have hincompat := admitted_iff (u64le_lt s 0xbc)
    (by decide : ∀ i ∈ [mixedBackref, defaultSubvol, compressLzo, compressZstd, bigMetadata,
      extendedIref, skinnyMetadata, noHoles], i < 64)
  have hnode := nodeSize_iff (u32le s 0x94)
  simp only [not_or, not_not]
  constructor
  · rintro ⟨h1, h2, h3, h4, h5, h6⟩
    exact ⟨hflags.mp h1, ⟨h2, h3, hincompat.mp h4⟩, h5, hnode.mp h6⟩
  · rintro ⟨h1, ⟨h2, h3, h4⟩, h5, h6⟩
    exact ⟨hflags.mpr h1, h2, h3, hincompat.mpr h4, h5, hnode.mpr h6⟩

theorem shaped_iff : (Superblock.parse s).Shaped ↔
    ¬ ((u64le s 0x50 = 0 ∨ u64le s 0x50 % 4096 ≠ 0) ∨ (u64le s 0x58 = 0 ∨ u64le s 0x58 % 4096 ≠ 0) ∨
      (2048 < u32le s 0xa0 ∨ 8 < byte s 0xc6 ∨ 8 < byte s 0xc7 ∨ 8 < byte s 0xc8)) := by
  simp only [not_or, not_not, not_lt]
  constructor
  · rintro ⟨h1, h2, h3, h4, h5, h6, h7, h8⟩
    exact ⟨⟨h1.ne', Nat.mod_eq_zero_of_dvd h2⟩, ⟨h3.ne', Nat.mod_eq_zero_of_dvd h4⟩, h5, h6, h7, h8⟩
  · rintro ⟨⟨h1, h2⟩, ⟨h3, h4⟩, h5, h6, h7, h8⟩
    exact ⟨Nat.pos_of_ne_zero h1, Nat.dvd_of_mod_eq_zero h2, Nat.pos_of_ne_zero h3,
      Nat.dvd_of_mod_eq_zero h4, h5, h6, h7, h8⟩

open Classical in
/-- The gate, clause by clause: the first clause that fails decides the error. -/
theorem btrfsAt_clauses (crc32c : Bytes → UInt32) (s : Bytes) (length off : Nat) :
    btrfsAt crc32c s length off = (do
      .failIf (¬ s.length = 4096) .fsInvalid
      .failIf (¬ (Superblock.parse s).magic = btrfsMagic) .fsTypeMismatch
      .failIf (¬ (Superblock.parse s).checksumType = 0) .fsUnsupportedFeature
      .failIf (¬ Intact crc32c s) .fsInvalid
      .failIf (¬ (Superblock.parse s).Placed length off) .fsInvalid
      .failIf (¬ (Superblock.parse s).devices = 1) .fsUnsupportedFeature
      .failIf (¬ (Superblock.parse s).Clean) .fsRecoveryRequired
      .failIf (¬ (Superblock.parse s).Supported) .fsUnsupportedFeature
      .failIf (¬ (Superblock.parse s).Shaped) .fsInvalid) := by
  have htest : ∀ {p q : Prop} [Decidable p], (q ↔ ¬ p) → ∀ e :
      Error, Outcome.failIf (¬ q) e = .failIf p e :=
    fun h e => Outcome.failIf_congr (by rw [h, not_not]) e
  rw [htest intact_iff, htest placed_iff, htest clean_iff, htest supported_iff, htest shaped_iff]
  unfold btrfsAt
  simp only [Outcome.failIf_or, Outcome.bind_assoc]
  congr

theorem profile_iff : Profile crc32c s length off ↔ s.length = 4096 ∧
    (Superblock.parse s).magic = btrfsMagic ∧
    (Superblock.parse s).checksumType = 0 ∧ Intact crc32c s ∧
    (Superblock.parse s).Placed length off ∧
    (Superblock.parse s).devices = 1 ∧ (Superblock.parse s).Clean ∧ (Superblock.parse s).Supported ∧
    (Superblock.parse s).Shaped :=
  ⟨fun h => ⟨h.1.1, h.1.2, h.1.3, h.2, h.3, h.4, h.5, h.6, h.7⟩,
    fun h => ⟨⟨h.1, h.2.1, h.2.2.1⟩, h.2.2.2.1, h.2.2.2.2.1, h.2.2.2.2.2.1, h.2.2.2.2.2.2.1,
      h.2.2.2.2.2.2.2.1, h.2.2.2.2.2.2.2.2⟩⟩

theorem btrfsAt_ok_iff : btrfsAt crc32c s length off = .ok () ↔ Profile crc32c s length off := by
  simp only [btrfsAt_clauses, profile_iff, Outcome.failIf_bind_eq_ok, Outcome.failIf_eq_ok, not_not]

theorem btrfsAt_err_iff {e : Error} :
    btrfsAt crc32c s length off = .err e ↔ Refused crc32c s length off e := by
  have hknown : Known s ↔ s.length = 4096 ∧ (Superblock.parse s).magic = btrfsMagic ∧
      (Superblock.parse s).checksumType = 0 :=
      ⟨fun h => ⟨h.1, h.2, h.3⟩, fun h => ⟨h.1, h.2.1, h.2.2⟩⟩
  rw [btrfsAt_clauses]
  simp only [Outcome.failIf_bind_eq_err, Outcome.failIf_eq_err, not_not]
  cases e <;> simp only [Refused, hknown, reduceCtorEq, and_false, and_true, false_or,
    or_false, ne_eq]
  all_goals grind

/-! ## The device -/

/-- The superblock at `off` is that of the primary one's commit. -/
def Same (f : Store) (off : Nat) : Prop :=
  ∀ i < 4096, 32 ≤ i → ¬ (48 ≤ i ∧ i < 56) → f (off + i) = f (65536 + i)

/-- What the gate asks for of each superblock of the array `f`. -/
structure Accepted (crc32c : Bytes → UInt32) (f : Store) (length off : Nat) : Prop where
  profile : Profile crc32c (block f off) length off
  same : Same f off

/-- How a superblock of the array ends the probe. -/
def Refuses (crc32c : Bytes → UInt32) (f : Store) (length off : Nat) (e : Error) : Prop :=
  Refused crc32c (block f off) length off e ∨
    Profile crc32c (block f off) length off ∧ ¬ Same f off ∧ e = .fsRecoveryRequired

/-- One round of the gate. -/
def round (crc32c : Bytes → UInt32) (f : Store) (length off : Nat) : Outcome Error Unit := do
  btrfsAt crc32c (block f off) length off
  .failIf ((block f 65536).extract 32 48 ≠ (block f off).extract 32 48 ∨
    (block f 65536).drop 56 ≠ (block f off).drop 56) .fsRecoveryRequired

variable {f : Store}

theorem same_iff : Same f off ↔ ¬ ((block f 65536).extract 32 48 ≠ (block f off).extract 32 48 ∨
    (block f 65536).drop 56 ≠ (block f off).drop 56) := by
  rw [not_or, not_not, not_not]
  exact (same_block_iff f 65536 off).symm

theorem round_ok_iff : round crc32c f length off = .ok () ↔ Accepted crc32c f length off := by
  rw [round, Outcome.unit_bind_eq_ok, btrfsAt_ok_iff, Outcome.failIf_eq_ok, ← same_iff]
  exact ⟨fun h => ⟨h.1, h.2⟩, fun h => ⟨h.1, h.2⟩⟩

theorem round_err_iff {e : Error} :
    round crc32c f length off = .err e ↔ Refuses crc32c f length off e := by
  rw [round, Refuses, ← btrfsAt_err_iff, ← btrfsAt_ok_iff, same_iff, not_not]
  cases btrfsAt crc32c (block f off) length off with
  | ok u => simp [Outcome.failIf_eq_err, eq_comm (a := e)]
  | _ => simp

theorem same_primary (f : Store) : Same f 65536 := fun _ _ _ _ => rfl

theorem inRange_block (hfit : Fits length off) : inRange length f off 4096 = .ok (block f off) :=
  if_pos hfit

/-- The loop makes one round for each mirror that fits. -/
theorem checkMirrors_eq_forM (offsets : List Nat) (hsorted : offsets.Pairwise (· < ·)) :
    (checkMirrors crc32c length (fun o n => .lift (inRange length f o n)) (block f 65536)
      offsets ()).1 =
      forM (offsets.filter fun o => Fits length o) (round crc32c f length) := by
  induction offsets with
  | nil => rfl
  | cons off rest ih =>
    obtain ⟨hrest, hsorted⟩ := List.pairwise_cons.mp hsorted
    unfold checkMirrors
    by_cases hfit : Fits length off
    · rw [if_neg (by unfold Fits at hfit; omega), List.filter_cons_of_pos (by simpa using hfit),
        List.forM_cons, ← ih hsorted]
      simp only [Run.lift_bind, inRange_block hfit, round]
      cases btrfsAt crc32c (block f off) length off with
      | ok u =>
        rw [Outcome.ok_bind]
        cases Outcome.failIf ((block f 65536).extract 32 48 ≠ (block f off).extract 32 48 ∨
          (block f 65536).drop 56 ≠ (block f off).drop 56) Error.fsRecoveryRequired <;> rfl
      | _ => rfl
    · -- the next one lies further on
      have hnone : rest.filter (fun o => Fits length o) = [] :=
        List.filter_eq_nil_iff.mpr fun o ho => by
        have := hrest o ho
        rw [decide_eq_true_eq]
        unfold Fits at hfit ⊢
        omega
      rw [if_pos (by unfold Fits at hfit; omega),
        List.filter_cons_of_neg (by simpa using hfit), hnone]
      rfl

theorem superblocks_sorted : superblocks.Pairwise (· < ·) := by decide

theorem check_eq_forM (hfit : Fits length 65536) :
    (Probe.check crc32c length .btrfs (fun o n => .lift (inRange length f o n)) ()).1 =
      forM (superblocks.filter fun o => Fits length o) (round crc32c f length) := by
  rw [superblocks, List.filter_cons_of_pos (by simpa using hfit), List.forM_cons, round,
    Outcome.failIf_neg (same_iff.mp (same_primary f)), ← checkMirrors_eq_forM _ (by decide)]
  simp only [Probe.check, Run.lift_bind, inRange_block hfit]
  cases btrfsAt crc32c (block f 65536) length 65536 <;> rfl

/-- **The Btrfs gate equals its profile.**  On every device and every 64-bit length the gate
returns, also over a reader that answers with superblocks of any length.  It succeeds on the devices
whose superblocks are all accepted, and nowhere else; otherwise the first superblock that is not
accepted decides the error. -/
theorem btrfs_profile (crc32c : Bytes → UInt32) (length : UInt64) (f : Store) :
    let probe := fun read =>
      (Trapping.check crc32c length.toNat .btrfs (fun o n => .lift (read o n)) ()).1
    let answer := probe (inRange length.toNat f)
    let accepts := Accepted crc32c f length.toNat
    (∀ read, (∀ o n, (read o n).Returns) → (probe read).Returns) ∧
    (answer = .ok () ↔ Fits length.toNat 65536 ∧ ∀ off ∈ superblocks, Fits length.toNat off →
      accepts off) ∧
    ∀ e, answer = .err e ↔ ¬ Fits length.toNat 65536 ∧ e = .invalidRange ∨
      ∃ off ∈ superblocks, Fits length.toNat off ∧
      (∀ o ∈ superblocks, o < off → accepts o) ∧ Refuses crc32c f length.toNat off e := by
  intro probe answer accepts
  have hprobe : ∀ read, probe read =
      (Probe.check crc32c length.toNat .btrfs (fun o n => .lift (read o n)) ()).1 :=
    fun read => by simp only [probe, Trapping.check_eq]
  refine ⟨fun read hread => ?_, ?_⟩
  · rw [hprobe]
    exact Run.returns_bind_run (hread _ _) fun primary _ _ =>
      Run.returns_bind_run (returns_btrfsAt _ _ _) fun _ _ _ =>
      returns_checkMirrors _ _ _ hread _
  by_cases hfit : Fits length.toNat 65536
  · have hanswer : answer = _ := (hprobe _).trans (check_eq_forM hfit)
    have hsorted := superblocks_sorted.filter fun o => Fits length.toNat o
    rw [hanswer]
    refine ⟨?_, fun e => ?_⟩
    · simp only [Outcome.forM_eq_ok, List.mem_filter, decide_eq_true_eq, round_ok_iff, hfit,
        true_and, and_imp, accepts]
    · rw [Outcome.forM_eq_err hsorted]
      simp only [List.mem_filter, decide_eq_true_eq, round_ok_iff, round_err_iff, hfit, not_true,
        false_and, false_or, accepts]
      constructor
      · rintro ⟨off, ⟨hoff, hf⟩, hall, he⟩
        exact ⟨off, hoff, hf, fun o ho hlt => hall o ⟨ho, by unfold Fits at hf ⊢; omega⟩ hlt, he⟩
      · rintro ⟨off, hoff, hf, hall, he⟩
        exact ⟨off, ⟨hoff, hf⟩, fun o ho => hall o ho.1, he⟩
  · have hanswer : answer = .err .invalidRange := by
      rw [show answer = _ from hprobe _]
      simp only [Probe.check, Run.lift_bind, inRange,
        if_neg (show ¬ 65536 + 4096 ≤ length.toNat from hfit)]
    have hnone : ∀ off ∈ superblocks, ¬ Fits length.toNat off := by
      unfold Fits at hfit ⊢
      simp only [superblocks, List.mem_cons, List.not_mem_nil, or_false]
      omega
    rw [hanswer]
    refine ⟨by simp [hfit], fun e => ?_⟩
    constructor
    · rintro ⟨⟩
      exact Or.inl ⟨hfit, rfl⟩
    · rintro (⟨-, rfl⟩ | ⟨off, hoff, hf, -⟩)
      · rfl
      · exact absurd hf (hnone off hoff)

end Btrfs

end Winluks
