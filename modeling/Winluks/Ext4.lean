import Winluks.Lib.Bits
import Winluks.Probe

/-!
# The ext4 gate

`Probe.Trapping.ext4` is `ext4` with everything that could unwind or wrap left in:
every field is a slice of the buffer, and `*`, `+`, `<<` and `div_ceil` are those
of 64-bit words.  `Profile` says what the gate is for: conditions on the fields of
a superblock, over unbounded integers and sets of feature bits.

`ext4_profile` says that the first always returns, and which of the two answers
when: success on the profile alone, and each error on its own class of blocks.
-/

namespace Winluks

open Lib

namespace Probe

namespace Trapping

/-- `b[i..j]` -/
def range (b : Bytes) (i j : Nat) : Outcome Error Bytes :=
  if i ≤ j ∧ j ≤ b.length then .ok (b.extract i j) else .panic

/-- `b[p]` -/
def index (b : Bytes) (p : Nat) : Outcome Error Nat :=
  if p < b.length then .ok (byte b p) else .panic

def u16le (b : Bytes) (p : Nat) : Outcome Error Nat := do
  return leNat (← range b p (p + 2))

def u32le (b : Bytes) (p : Nat) : Outcome Error Nat := do
  return leNat (← range b p (p + 4))

/-- `a.div_ceil(b)` -/
def divCeil (a b : Nat) : Outcome Error Nat :=
  if b = 0 then .panic
  else if 0 < a % b then trapAdd 64 (a / b) 1
  else .ok (a / b)

/-- `low | if has64 { high << 32 } else { 0 }`; the shift drops what leaves the word. -/
def wide (has64 : Bool) (high low : Nat) : Nat :=
  low ||| if has64 then (high <<< 32) % 2 ^ 64 else 0

-- A condition makes all its reads here, also those that `||` would skip.

def ext4Features (s : Bytes) (compat incompat ro : Nat) : Outcome Error Unit := do
  .failIf ((← u16le s 0x3a) ≠ 1 ∨ incompat &&& 0x4 ≠ 0 ∨ ro &&& 0x10000 ≠ 0 ∨ (← u32le s 0xe8) ≠ 0 ∨
    (← u32le s 0x280) ≠ 0) .fsRecoveryRequired
  .failIf (others 32 (0x4 ||| 0x8 ||| 0x10 ||| 0x20) compat ≠ 0 ∨
    others 32 (0x2 ||| 0x40 ||| 0x80 ||| 0x200 ||| 0x2000) incompat ≠ 0 ∨
    others 32 (0x1 ||| 0x2 ||| 0x8 ||| 0x20 ||| 0x40 ||| 0x400) ro ≠ 0 ∨
    compat &&& 4 = 0 ∨ incompat &&& 0x42 ≠ 0x42 ∨ ro &&& 0x400 = 0) .fsUnsupportedFeature

def ext4Geometry (s : Bytes) (incompat length : Nat) : Outcome Error Unit := do
  let high ← u32le s 0x150
  let has64 := decide (incompat &&& 0x80 ≠ 0)
  .failIf ((has64 = true ∧ (← u16le s 0xfe) ≠ 64) ∨
    (has64 = false ∧ (high ≠ 0 ∨ (← u32le s 0x154) ≠ 0 ∨ (← u32le s 0x158) ≠ 0))) .fsInvalid
  let blocks := wide has64 high (← u32le s 4)
  let bytes ← .ofOption .fsInvalid (checkedMul 64 blocks 4096)
  let bpg ← u32le s 0x20
  let ipg ← u32le s 0x28
  let inodes ← u32le s 0
  .failIf (length < bytes ∨ blocks = 0 ∨ bpg = 0 ∨ 32768 < bpg ∨ (← u32le s 0x24) ≠ bpg ∨ ipg = 0 ∨
    32768 < ipg ∨ ipg % 16 ≠ 0) .fsInvalid
  let groups ← divCeil blocks bpg
  let tableBytes ← trapMul 64 ipg 256
  let tableBlocks ← divCeil tableBytes 4096
  let needed ← trapAdd 64 tableBlocks 2
  .failIf (bpg < needed) .fsInvalid
  .failIf (inodes = 0) .fsInvalid
  let all ← .ofOption .fsInvalid (checkedMul 64 groups ipg)
  .failIf (inodes ≠ all ∨ inodes < (← u32le s 0xe0) ∨ (← u32le s 0x54) < 11 ∨
    inodes < (← u32le s 0x54)) .fsInvalid
  .failIf (inodes < (← u32le s 0x10)) .fsInvalid
  .failIf (blocks < wide has64 (← u32le s 0x158) (← u32le s 0xc)) .fsInvalid
  .failIf (blocks < wide has64 (← u32le s 0x154) (← u32le s 8)) .fsInvalid

def ext4 (crc32c : Bytes → UInt32) (s : Bytes) (length : Nat) : Outcome Error Unit := do
  .failIf (s.length ≠ 1024) .fsInvalid
  .failIf ((← u16le s 0x38) ≠ 0xef53) .fsTypeMismatch
  let compat ← u32le s 0x5c
  let incompat ← u32le s 0x60
  let ro ← u32le s 0x64
  .failIf ((← index s 0x175) ≠ 1) .fsUnsupportedFeature
  .failIf ((~~~ crc32c (← range s 0 0x3fc)).toNat ≠ (← u32le s 0x3fc)) .fsInvalid
  ext4Features s compat incompat ro
  .failIf ((← u32le s 0x4c) ≠ 1 ∨ (← u16le s 0x58) ≠ 256 ∨ (← u32le s 0x18) ≠ 2)
    .fsUnsupportedFeature
  .failIf ((← u32le s 0x1c) ≠ 2 ∨ (← u32le s 0x14) ≠ 0) .fsInvalid
  .failIf ((← u32le s 0xe0) = 0 ∨ (← u32le s 0xe4) ≠ 0 ∨ (← range s 0xd0 0xe0).any (· ≠ 0) = true)
    .fsUnsupportedFeature
  ext4Geometry s incompat length

/-! ## Nothing unwinds, nothing wraps -/

variable {s : Bytes} {p : Nat}

theorem range_ok {i j : Nat} (hij : i ≤ j) (hj : j ≤ s.length) :
    range s i j = .ok (s.extract i j) := if_pos ⟨hij, hj⟩

theorem index_ok (h : p < s.length) : index s p = .ok (byte s p) := if_pos h

theorem u16le_ok (h : p + 2 ≤ s.length) : u16le s p = .ok (Probe.u16le s p) := by
  simp [u16le, range_ok (Nat.le_add_right p 2) h, Probe.u16le]

theorem u32le_ok (h : p + 4 ≤ s.length) : u32le s p = .ok (Probe.u32le s p) := by
  simp [u32le, range_ok (Nat.le_add_right p 4) h, Probe.u32le]

end Trapping

theorem u32le_lt (s : Bytes) (p : Nat) : u32le s p < 2 ^ 32 := by
  have h := leNat_lt (s.extract p (p + 4))
  have hlen : (s.extract p (p + 4)).length ≤ 4 := by simp
  exact h.trans_le (Nat.pow_le_pow_right (by decide) hlen)

theorem wide_eq {low : Nat} (h : low < 2 ^ 32) (has64 : Bool) (high : Nat) :
    wide has64 high low = if has64 then high * 2 ^ 32 + low else low := by
  cases has64 with
  | true => exact or_shiftLeft h high
  | false => simp [wide]

theorem wide_lt {high low : Nat} (hh : high < 2 ^ 32) (hl : low < 2 ^ 32) (has64 : Bool) :
    wide has64 high low < 2 ^ 64 := by
  rw [wide_eq hl]
  split <;> omega

theorem divCeil_eq (a b : Nat) : divCeil a b = a ⌈/⌉ b := rfl

namespace Trapping

theorem wide_eq {high : Nat} (h : high < 2 ^ 32) (has64 : Bool) (low : Nat) :
    wide has64 high low = Probe.wide has64 high low := by
  have hfit : (high <<< 32) % 2 ^ 64 = high <<< 32 := by
    rw [Nat.shiftLeft_eq]
    exact Nat.mod_eq_of_lt (by omega)
  simp only [wide, Probe.wide, hfit]

theorem divCeil_ok {a b : Nat} (ha : a < 2 ^ 64) (hb : 0 < b) :
    divCeil a b = .ok (Probe.divCeil a b) := by
  rw [Probe.divCeil_eq, ceilDiv_eq_div_add hb, divCeil, if_neg (by omega)]
  split
  · next h =>
    have := div_lt_self_of_mod h
    exact trapAdd_ok (by omega)
  · rfl

theorem ext4Features_eq (hlen : s.length = 1024) :
    ext4Features s (Probe.u32le s 0x5c) (Probe.u32le s 0x60) (Probe.u32le s 0x64) =
    Probe.ext4Features s := by
  unfold ext4Features Probe.ext4Features
  simp (disch := omega) only [u16le_ok, u32le_ok, Outcome.ok_bind]

/-- The quotients and products of the geometry stay inside a word because of the bounds tested
before them. -/
theorem ext4Geometry_eq (hlen : s.length = 1024) (length : Nat) :
    ext4Geometry s (Probe.u32le s 0x60) length = Probe.ext4Geometry s length := by
  unfold ext4Geometry Probe.ext4Geometry
  simp (disch := first | omega | exact u32le_lt _ _) only [u16le_ok, u32le_ok,
    Outcome.ok_bind, wide_eq]
  have hblocks := @wide_lt _ _ (u32le_lt s 0x150) (u32le_lt s 4)
    (decide (Probe.u32le s 0x60 &&& 0x80 ≠ 0))
  generalize Probe.wide (decide (Probe.u32le s 0x60 &&& 0x80 ≠ 0)) (Probe.u32le s 0x150)
    (Probe.u32le s 4) = blocks
    at hblocks
  congr 1
  funext _
  congr 1
  funext bytes
  refine Outcome.failIf_bind_congr fun hgeo => ?_
  have hbpg : 0 < Probe.u32le s 0x20 := by omega
  have hipg : Probe.u32le s 0x28 ≤ 32768 := by omega
  have htable : Probe.divCeil (Probe.u32le s 0x28 * 256) 4096 ≤ Probe.u32le s 0x28 * 256 + 4096 :=
    (Nat.div_le_self _ _).trans (by omega)
  rw [divCeil_ok hblocks hbpg, trapMul_ok (by omega)]
  simp only [Outcome.ok_bind]
  rw [divCeil_ok (by omega) (by decide)]
  simp only [Outcome.ok_bind]
  rw [trapAdd_ok (by omega)]
  rfl

/-- The gate as it runs is the gate over unbounded integers: no read leaves the block, no operation
leaves its word. -/
theorem ext4_eq (crc32c : Bytes → UInt32) (s : Bytes) (length : Nat) :
    ext4 crc32c s length = Probe.ext4 crc32c s length := by
  unfold ext4 Probe.ext4
  refine Outcome.failIf_bind_congr fun h => ?_
  have hlen : s.length = 1024 := not_not.mp h
  simp (disch := omega) only [u16le_ok, u32le_ok, index_ok, range_ok, Outcome.ok_bind,
    ext4Features_eq hlen, ext4Geometry_eq hlen, List.extract_eq_take_drop, List.drop_zero,
    Nat.sub_zero]

end Trapping

end Probe

namespace Ext4

/-! ## The profile -/

/-- The fields of a superblock that the profile is about. -/
structure Superblock where
  inodes : Nat
  blocksLow : Nat
  reservedLow : Nat
  freeLow : Nat
  freeInodes : Nat
  firstDataBlock : Nat
  logBlockSize : Nat
  logClusterSize : Nat
  blocksPerGroup : Nat
  clustersPerGroup : Nat
  inodesPerGroup : Nat
  magic : Nat
  state : Nat
  revision : Nat
  firstInode : Nat
  inodeSize : Nat
  compat : Nat
  incompat : Nat
  roCompat : Nat
  journalUuid : Bytes
  journalInode : Nat
  journalDevice : Nat
  lastOrphan : Nat
  descriptorSize : Nat
  blocksHigh : Nat
  reservedHigh : Nat
  freeHigh : Nat
  checksumType : Nat
  orphanInode : Nat
  checksum : Nat

open Probe in
def Superblock.parse (s : Bytes) : Superblock where
  inodes := u32le s 0
  blocksLow := u32le s 4
  reservedLow := u32le s 8
  freeLow := u32le s 0xc
  freeInodes := u32le s 0x10
  firstDataBlock := u32le s 0x14
  logBlockSize := u32le s 0x18
  logClusterSize := u32le s 0x1c
  blocksPerGroup := u32le s 0x20
  clustersPerGroup := u32le s 0x24
  inodesPerGroup := u32le s 0x28
  magic := u16le s 0x38
  state := u16le s 0x3a
  revision := u32le s 0x4c
  firstInode := u32le s 0x54
  inodeSize := u16le s 0x58
  compat := u32le s 0x5c
  incompat := u32le s 0x60
  roCompat := u32le s 0x64
  journalUuid := s.extract 0xd0 0xe0
  journalInode := u32le s 0xe0
  journalDevice := u32le s 0xe4
  lastOrphan := u32le s 0xe8
  descriptorSize := u16le s 0xfe
  blocksHigh := u32le s 0x150
  reservedHigh := u32le s 0x154
  freeHigh := u32le s 0x158
  checksumType := byte s 0x175
  orphanInode := u32le s 0x280
  checksum := u32le s 0x3fc

-- Bits of the three feature words.
def hasJournal : Nat := 2
def extAttr : Nat := 3
def resizeInode : Nat := 4
def dirIndex : Nat := 5

def filetype : Nat := 1
def recover : Nat := 2
def extents : Nat := 6
def bit64 : Nat := 7
def flexBg : Nat := 9
def csumSeed : Nat := 13

def sparseSuper : Nat := 0
def largeFile : Nat := 1
def hugeFile : Nat := 3
def dirNlink : Nat := 5
def extraIsize : Nat := 6
def metadataCsum : Nat := 10
def orphanPresent : Nat := 16

/-- Every bit of the word is allowed, and the required ones are set. -/
def Admits (word : Nat) (allowed required : List Nat) : Prop :=
  (∀ i, word.testBit i = true → i ∈ allowed) ∧ ∀ i ∈ required, word.testBit i = true

namespace Superblock

variable (b : Superblock) (length : Nat)

/-- No recovery marker is set. -/
structure Clean : Prop where
  state : b.state = 1
  noRecover : b.incompat.testBit recover = false
  noOrphans : b.roCompat.testBit orphanPresent = false
  lastOrphan : b.lastOrphan = 0
  orphanInode : b.orphanInode = 0

structure Supported : Prop where
  compat : Admits b.compat [hasJournal, extAttr, resizeInode, dirIndex] [hasJournal]
  incompat : Admits b.incompat [filetype, extents, bit64, flexBg, csumSeed] [filetype, extents]
  roCompat : Admits b.roCompat [sparseSuper, largeFile, hugeFile, dirNlink, extraIsize,
    metadataCsum] [metadataCsum]

/-- Dynamic revision, inodes of 256 bytes, blocks of 4096. -/
structure FixedSizes : Prop where
  revision : b.revision = 1
  inodeSize : b.inodeSize = 256
  blockSize : 1024 * 2 ^ b.logBlockSize = 4096

/-- Clusters are blocks, and the first group starts with block 0. -/
structure FixedOrigin : Prop where
  clusterSize : 1024 * 2 ^ b.logClusterSize = 4096
  firstDataBlock : b.firstDataBlock = 0

structure InternalJournal : Prop where
  inode : b.journalInode ≠ 0
  device : b.journalDevice = 0
  uuid : ∀ x ∈ b.journalUuid, x = 0

/-- A count is assembled from its halves only with the 64BIT feature. -/
def count (high low : Nat) : Nat := if b.incompat.testBit bit64 then high * 2 ^ 32 + low else low

def blocks : Nat := b.count b.blocksHigh b.blocksLow
def reserved : Nat := b.count b.reservedHigh b.reservedLow
def free : Nat := b.count b.freeHigh b.freeLow

/-- Sizes and counts fit each other and a volume of `length` bytes. -/
structure Geometry : Prop where
  descriptors : b.incompat.testBit bit64 = true → b.descriptorSize = 64
  halves : b.incompat.testBit bit64 = false → b.blocksHigh = 0 ∧ b.reservedHigh = 0 ∧ b.freeHigh = 0
  blocks_pos : 0 < b.blocks
  fits : b.blocks * 4096 ≤ length
  group_pos : 0 < b.blocksPerGroup
  group_le : b.blocksPerGroup ≤ 32768
  clusters : b.clustersPerGroup = b.blocksPerGroup
  table_pos : 0 < b.inodesPerGroup
  table_le : b.inodesPerGroup ≤ 32768
  table_dvd : 16 ∣ b.inodesPerGroup
  table_fits : (b.inodesPerGroup * 256) ⌈/⌉ 4096 + 2 ≤ b.blocksPerGroup
  inodes_eq : b.inodes = (b.blocks ⌈/⌉ b.blocksPerGroup) * b.inodesPerGroup
  inodes_pos : 0 < b.inodes
  journal : b.journalInode ≤ b.inodes
  firstInode_ge : 11 ≤ b.firstInode
  firstInode_le : b.firstInode ≤ b.inodes
  freeInodes : b.freeInodes ≤ b.inodes
  free : b.free ≤ b.blocks
  reserved : b.reserved ≤ b.blocks

end Superblock

/-- The superblock arrived whole. -/
structure Intact (crc32c : Bytes → UInt32) (s : Bytes) : Prop where
  size : s.length = 1024
  magic : (Superblock.parse s).magic = 0xef53
  checksumType : (Superblock.parse s).checksumType = 1
  checksum : (~~~ crc32c (s.take 0x3fc)).toNat = (Superblock.parse s).checksum

/-- The blocks that the experimental profile admits on a volume of `length` bytes. -/
structure Profile (crc32c : Bytes → UInt32) (s : Bytes) (length : Nat) : Prop where
  intact : Intact crc32c s
  clean : (Superblock.parse s).Clean
  supported : (Superblock.parse s).Supported
  sizes : (Superblock.parse s).FixedSizes
  origin : (Superblock.parse s).FixedOrigin
  journal : (Superblock.parse s).InternalJournal
  geometry : (Superblock.parse s).Geometry length

/-! ## The tests of the gate are the clauses of the profile -/

open Probe

variable {s : Bytes} {length : Nat}

theorem admits_iff {word : Nat} (hw : word < 2 ^ 32) {allowed required : List Nat}
    (h : ∀ i ∈ allowed, i < 32) :
    Admits word allowed required ↔
      others 32 (mask allowed) word = 0 ∧ word &&& mask required = mask required := by
  rw [Admits, others, and_not_mask_eq_zero hw h, and_mask_eq_mask]

theorem testBit_eq_false_iff {word : Nat} (i : Nat) :
    word.testBit i = false ↔ word &&& mask [i] = 0 := by
  simp [and_mask_eq_zero]

theorem size_iff (n : Nat) : 1024 * 2 ^ n = 4096 ↔ n = 2 := by
  constructor
  · intro h
    exact Nat.pow_right_injective (le_refl 2) (show 2 ^ n = 2 ^ 2 by omega)
  · rintro rfl
    rfl

theorem clean_iff : (Superblock.parse s).Clean ↔
    ¬ (u16le s 0x3a ≠ 1 ∨ u32le s 0x60 &&& 0x4 ≠ 0 ∨ u32le s 0x64 &&& 0x10000 ≠ 0 ∨
      u32le s 0xe8 ≠ 0 ∨ u32le s 0x280 ≠ 0) := by
  have hrecover : (u32le s 0x60).testBit recover = false ↔ u32le s 0x60 &&& 0x4 = 0 :=
    testBit_eq_false_iff _
  have horphan : (u32le s 0x64).testBit orphanPresent = false ↔ u32le s 0x64 &&& 0x10000 = 0 :=
    testBit_eq_false_iff _
  constructor
  · rintro ⟨h1, h2, h3, h4, h5⟩
    have h2' := hrecover.mp h2
    have h3' := horphan.mp h3
    rintro (h | h | h | h | h)
    · exact h h1
    · exact h h2'
    · exact h h3'
    · exact h h4
    · exact h h5
  · intro h
    simp only [not_or, not_not] at h
    exact ⟨h.1, hrecover.mpr h.2.1, horphan.mpr h.2.2.1, h.2.2.2.1, h.2.2.2.2⟩

theorem supported_iff : (Superblock.parse s).Supported ↔
    ¬ (others 32 (0x4 ||| 0x8 ||| 0x10 ||| 0x20) (u32le s 0x5c) ≠ 0 ∨
      others 32 (0x2 ||| 0x40 ||| 0x80 ||| 0x200 ||| 0x2000) (u32le s 0x60) ≠ 0 ∨
      others 32 (0x1 ||| 0x2 ||| 0x8 ||| 0x20 ||| 0x40 ||| 0x400) (u32le s 0x64) ≠ 0 ∨
      u32le s 0x5c &&& 4 = 0 ∨ u32le s 0x60 &&& 0x42 ≠ 0x42 ∨ u32le s 0x64 &&& 0x400 = 0) := by
  have hcompat := @admits_iff _ (u32le_lt s 0x5c) [hasJournal, extAttr, resizeInode, dirIndex]
    [hasJournal] (by decide)
  have hincompat := @admits_iff _ (u32le_lt s 0x60) [filetype, extents, bit64, flexBg, csumSeed]
    [filetype, extents] (by decide)
  have hro := @admits_iff _ (u32le_lt s 0x64)
    [sparseSuper, largeFile, hugeFile, dirNlink, extraIsize, metadataCsum]
    [metadataCsum] (by decide)
  -- a word of one required bit is tested against zero
  have hone : ∀ word i : Nat, word &&& mask [i] = mask [i] ↔ ¬ word &&& mask [i] = 0 := by
    intro word i
    simp [and_mask_eq_mask, and_mask_eq_zero]
  rw [hone] at hcompat hro
  have hsplit : (Superblock.parse s).Supported ↔
      Admits (u32le s 0x5c) [hasJournal, extAttr, resizeInode, dirIndex] [hasJournal] ∧
      Admits (u32le s 0x60) [filetype, extents, bit64, flexBg, csumSeed] [filetype, extents] ∧
      Admits (u32le s 0x64) [sparseSuper, largeFile, hugeFile, dirNlink, extraIsize, metadataCsum]
        [metadataCsum] :=
    ⟨fun h => ⟨h.1, h.2, h.3⟩, fun h => ⟨h.1, h.2.1, h.2.2⟩⟩
  rw [hsplit, hcompat, hincompat, hro]
  simp only [not_or, not_not]
  constructor
  · rintro ⟨⟨h1, h4⟩, ⟨h2, h5⟩, h3, h6⟩
    exact ⟨h1, h2, h3, h4, h5, h6⟩
  · rintro ⟨h1, h2, h3, h4, h5, h6⟩
    exact ⟨⟨h1, h4⟩, ⟨h2, h5⟩, h3, h6⟩

theorem fixedSizes_iff : (Superblock.parse s).FixedSizes ↔
    ¬ (u32le s 0x4c ≠ 1 ∨ u16le s 0x58 ≠ 256 ∨ u32le s 0x18 ≠ 2) := by
  simp only [not_or, not_not]
  constructor
  · rintro ⟨h1, h2, h3⟩
    exact ⟨h1, h2, (size_iff _).mp h3⟩
  · rintro ⟨h1, h2, h3⟩
    exact ⟨h1, h2, (size_iff _).mpr h3⟩

theorem fixedOrigin_iff : (Superblock.parse s).FixedOrigin ↔
    ¬ (u32le s 0x1c ≠ 2 ∨ u32le s 0x14 ≠ 0) := by
  simp only [not_or, not_not]
  constructor
  · rintro ⟨h1, h2⟩
    exact ⟨(size_iff _).mp h1, h2⟩
  · rintro ⟨h1, h2⟩
    exact ⟨(size_iff _).mpr h1, h2⟩

theorem internalJournal_iff : (Superblock.parse s).InternalJournal ↔
    ¬ (u32le s 0xe0 = 0 ∨ u32le s 0xe4 ≠ 0 ∨ (s.extract 0xd0 0xe0).any (· ≠ 0) = true) := by
  simp only [not_or, List.any_eq_true, decide_eq_true_eq, not_exists, not_and, not_not]
  exact ⟨fun h => ⟨h.1, h.2, h.3⟩, fun h => ⟨h.1, h.2.1, h.2.2⟩⟩

theorem bit64_eq : decide (u32le s 0x60 &&& 0x80 ≠ 0) = (u32le s 0x60).testBit bit64 := by
  have h : (u32le s 0x60).testBit bit64 = false ↔ u32le s 0x60 &&& 0x80 = 0 :=
    testBit_eq_false_iff _
  by_cases hbit : u32le s 0x60 &&& 0x80 = 0
  · simp [hbit, h.mpr hbit]
  · have : (u32le s 0x60).testBit bit64 = true := by
      rw [← Bool.not_eq_false, h]
      exact hbit
    simp [hbit, this]

theorem wide_eq_count (high low : Nat) :
    wide ((u32le s 0x60).testBit bit64) high (u32le s low) =
    (Superblock.parse s).count high (u32le s low) :=
  wide_eq (u32le_lt s low) _ high

/-- The geometry is accepted on its clauses alone; the checked products never decide. -/
theorem ext4Geometry_ok_iff (hlength : length < 2 ^ 64) :
    ext4Geometry s length = .ok () ↔ (Superblock.parse s).Geometry length := by
  unfold ext4Geometry
  simp only [wide_eq_count, bit64_eq, Outcome.bind_eq_ok, Outcome.failIf_eq_ok,
    Outcome.ofOption_eq_ok, checkedMul_eq_some]
  simp only [divCeil_eq, not_or, not_not, not_and, not_lt]
  constructor
  · rintro ⟨_, ⟨hdesc, hhalf⟩, _, ⟨-, rfl⟩, _, hgeo, _, htable, _, hpos, _, ⟨-, rfl⟩, _, hinodes, _,
      hfi, _, hfree, hres⟩
    obtain ⟨hfits, hblocks, hbpg, hbpg', hcpg, hipg, hipg', hdvd⟩ := hgeo
    obtain ⟨hall, hjournal, hfirst, hfirst'⟩ := hinodes
    exact {
      descriptors := hdesc
      halves := hhalf
      blocks_pos := Nat.pos_of_ne_zero hblocks
      fits := hfits
      group_pos := Nat.pos_of_ne_zero hbpg
      group_le := hbpg'
      clusters := hcpg
      table_pos := Nat.pos_of_ne_zero hipg
      table_le := hipg'
      table_dvd := Nat.dvd_of_mod_eq_zero hdvd
      table_fits := htable
      inodes_eq := hall
      inodes_pos := Nat.pos_of_ne_zero hpos
      journal := hjournal
      firstInode_ge := hfirst
      firstInode_le := hfirst'
      freeInodes := hfi
      free := hfree
      reserved := hres }
  · intro h
    have hbytes : (Superblock.parse s).blocks * 4096 < 2 ^ 64 := h.fits.trans_lt hlength
    have hall : (Superblock.parse s).blocks ⌈/⌉ u32le s 0x20 * u32le s 0x28 < 2 ^ 64 := by
      have hinodes := h.inodes_eq
      have hlt := u32le_lt s 0
      exact hinodes ▸ hlt.trans (by decide)
    exact ⟨(), ⟨h.descriptors, h.halves⟩, _, ⟨hbytes, rfl⟩, (),
      ⟨h.fits, h.blocks_pos.ne', h.group_pos.ne', h.group_le, h.clusters,
        h.table_pos.ne', h.table_le, Nat.mod_eq_zero_of_dvd h.table_dvd⟩,
      (), h.table_fits, (), h.inodes_pos.ne', _, ⟨hall, rfl⟩, (),
      ⟨h.inodes_eq, h.journal, h.firstInode_ge, h.firstInode_le⟩, (), h.freeInodes,
      (), h.free, h.reserved⟩

theorem errs_ext4Geometry : (ext4Geometry s length).ErrsIn (· = .fsInvalid) := by
  simp [ext4Geometry, Outcome.errs_bind]

open Classical in
/-- The gate, clause by clause: the first clause that fails decides the error. -/
theorem ext4_clauses (crc32c : Bytes → UInt32) (s : Bytes) (hlength : length < 2 ^ 64) :
    Trapping.ext4 crc32c s length = (do
      .failIf (¬ s.length = 1024) .fsInvalid
      .failIf (¬ (Superblock.parse s).magic = 0xef53) .fsTypeMismatch
      .failIf (¬ (Superblock.parse s).checksumType = 1) .fsUnsupportedFeature
      .failIf (¬ (~~~ crc32c (s.take 0x3fc)).toNat = (Superblock.parse s).checksum) .fsInvalid
      .failIf (¬ (Superblock.parse s).Clean) .fsRecoveryRequired
      .failIf (¬ (Superblock.parse s).Supported) .fsUnsupportedFeature
      .failIf (¬ (Superblock.parse s).FixedSizes) .fsUnsupportedFeature
      .failIf (¬ (Superblock.parse s).FixedOrigin) .fsInvalid
      .failIf (¬ (Superblock.parse s).InternalJournal) .fsUnsupportedFeature
      .failIf (¬ (Superblock.parse s).Geometry length) .fsInvalid) := by
  have hgeo : ext4Geometry s length = .failIf (¬ (Superblock.parse s).Geometry length) .fsInvalid :=
    Outcome.eq_failIf (ext4Geometry_ok_iff hlength) errs_ext4Geometry
  -- a test is `failIf` of its condition, and the condition is the negated clause
  have htest : ∀ {p q : Prop} [Decidable p], (q ↔ ¬ p) → ∀ e :
      Error, Outcome.failIf p e = .failIf (¬ q) e :=
    fun h e => Outcome.failIf_congr (by rw [h, not_not]) e
  rw [Trapping.ext4_eq, Probe.ext4, hgeo, Probe.ext4Features, htest clean_iff, htest supported_iff,
    htest fixedSizes_iff, htest fixedOrigin_iff, htest internalJournal_iff, Outcome.bind_assoc]
  congr

/-! ## The gate -/

/-- **The ext4 gate equals its profile.**  On every byte string and every 64-bit
length the gate returns; it succeeds on the profile and nowhere else.  A marker
of recovery decides before any feature or size does, but only in a superblock
that arrived whole; each other error has its own class of blocks, and what is in
none of them is invalid. -/
theorem ext4_profile (crc32c : Bytes → UInt32) (s : Bytes) (length : UInt64) :
    let b := Superblock.parse s
    let answer := Trapping.ext4 crc32c s length.toNat
    answer.Returns ∧
    (answer = .ok () ↔ Profile crc32c s length.toNat) ∧
    (answer = .err .fsRecoveryRequired ↔ Intact crc32c s ∧ ¬ b.Clean) ∧
    (answer = .err .fsTypeMismatch ↔ s.length = 1024 ∧ b.magic ≠ 0xef53) ∧
    (answer = .err .fsUnsupportedFeature ↔ s.length = 1024 ∧ b.magic = 0xef53 ∧
      (b.checksumType ≠ 1 ∨
      Intact crc32c s ∧ b.Clean ∧ (¬ b.Supported ∨ ¬ b.FixedSizes ∨ b.FixedOrigin ∧
        ¬ b.InternalJournal))) ∧
    ∀ e, answer = .err e →
      e ∈ [Error.fsInvalid, Error.fsTypeMismatch, Error.fsRecoveryRequired,
        Error.fsUnsupportedFeature] := by
  have hintact : Intact crc32c s ↔ s.length = 1024 ∧ (Superblock.parse s).magic = 0xef53 ∧
      (Superblock.parse s).checksumType = 1 ∧ (~~~ crc32c (s.take 0x3fc)).toNat =
      (Superblock.parse s).checksum :=
    ⟨fun h => ⟨h.1, h.2, h.3, h.4⟩, fun h => ⟨h.1, h.2.1, h.2.2.1, h.2.2.2⟩⟩
  have hprofile : Profile crc32c s length.toNat ↔ Intact crc32c s ∧ (Superblock.parse s).Clean ∧
      (Superblock.parse s).Supported ∧ (Superblock.parse s).FixedSizes ∧
      (Superblock.parse s).FixedOrigin ∧
      (Superblock.parse s).InternalJournal ∧ (Superblock.parse s).Geometry length.toNat :=
    ⟨fun h => ⟨h.1, h.2, h.3, h.4, h.5, h.6, h.7⟩,
      fun h => ⟨h.1, h.2.1, h.2.2.1, h.2.2.2.1, h.2.2.2.2.1, h.2.2.2.2.2.1, h.2.2.2.2.2.2⟩⟩
  intro b answer
  have hanswer := ext4_clauses crc32c s length.toNat_lt
  simp only [answer, b, hanswer, hprofile, hintact]
  refine ⟨?_, ?_, ?_, ?_, ?_, fun e he => ?_⟩
  · simp [Outcome.returns_bind]
  · simp only [Outcome.failIf_bind_eq_ok, Outcome.failIf_eq_ok, not_not, and_assoc]
  · simp only [Outcome.failIf_bind_eq_err, Outcome.failIf_eq_err, not_not, reduceCtorEq, and_false,
      and_true, false_or, or_false, and_assoc]
  · simp only [Outcome.failIf_bind_eq_err, Outcome.failIf_eq_err, not_not, reduceCtorEq, and_false,
      and_true, false_or, or_false, ne_eq]
  · simp only [Outcome.failIf_bind_eq_err, Outcome.failIf_eq_err, not_not, reduceCtorEq, and_false,
      and_true, false_or, or_false, ne_eq]
    grind
  · exact Outcome.ErrsIn.err (by simp [Outcome.errs_bind]) he

end Ext4

end Winluks
