import Winluks.Lib.Run
import Winluks.Lib.Store
import Winluks.Error

/-!
# Keys and sectors

`crypto.rs`.  The library primitives (OpenSSL, argon2, the clock behind the KDF
deadline, the allocator) are the fields of `Primitives`; what is modelled is
what the bridge does with them: the KDF limits, one XTS unit per 512-byte
sector, and the LUKS anti-forensic merge.

A primitive answers `none` where the library reports an error.  The two length
fields are the library's interface: a digest has the size of its hash, a KDF
fills the buffer it is given.
-/

namespace Winluks

open Lib

inductive Hash where
  | sha256
  | sha512
deriving DecidableEq, Repr

namespace Hash

def parse (s : String) : Outcome Error Hash :=
  match s with
  | "sha256" => .ok sha256
  | "sha512" => .ok sha512
  | _ => .err .unsupportedProfile

def size : Hash → Nat
  | sha256 => 32
  | sha512 => 64

end Hash

inductive Kdf where
  | pbkdf2 (hash : Hash) (iterations : Nat) (salt : Bytes)
  | argon2 (id : Bool) (memory time cpus : Nat) (salt : Bytes)
deriving DecidableEq, Repr

inductive Mode where
  | encrypt
  | decrypt
deriving DecidableEq, Repr

/-- The libraries behind `crypto.rs`. -/
structure Primitives where
  digest : Hash → Bytes → Option Bytes
  /-- `pbkdf2 hash iterations salt password size` -/
  pbkdf2 : Hash → Nat → Bytes → Bytes → Nat → Option Bytes
  /-- `Params::new(memory, time, cpus, Some(size))` accepts -/
  argon2Params : Nat → Nat → Nat → Nat → Bool
  /-- the blocks for `argon2Params` could be reserved -/
  argon2Reserve : Nat → Nat → Nat → Nat → Bool
  /-- `argon2 id memory time cpus salt password size` -/
  argon2 : Bool → Nat → Nat → Nat → Bytes → Bytes → Nat → Option Bytes
  /-- deriving took longer than the 120 s deadline -/
  overdue : Kdf → Bytes → Nat → Bool
  /-- the page of a volume key could be allocated -/
  keyPage : Bool
  /-- `xts mode key iv unit` -/
  xts : Mode → Bytes → Bytes → Bytes → Option Bytes
  digest_length : ∀ h b d, digest h b = some d → d.length = h.size
  pbkdf2_length : ∀ h i s p n k, pbkdf2 h i s p n = some k → k.length = n
  argon2_length : ∀ b m t c s p n k, argon2 b m t c s p n = some k → k.length = n

variable (prim : Primitives)

namespace Hash

def digest (h : Hash) (b : Bytes) : Outcome Error Bytes := .ofOption .crypto (prim.digest h b)

end Hash

namespace Kdf

/-- The `match` of `derive`. -/
def fill (kdf : Kdf) (password : Bytes) (size : Nat) : Outcome Error Bytes :=
  match kdf with
  | .pbkdf2 hash iterations salt => do
    .failIf (iterations = 0 ∨ 10000000 < iterations) .resourceLimit
    .ofOption .crypto (prim.pbkdf2 hash iterations salt password size)
  | .argon2 id memory time cpus salt => do
    .failIf (1048576 < memory ∨ 10 < time ∨ 8 < cpus) .resourceLimit
    .failIf (prim.argon2Params memory time cpus size = false) .metadataInvalid
    .failIf (prim.argon2Reserve memory time cpus size = false) .resourceLimit
    .ofOption .crypto (prim.argon2 id memory time cpus salt password size)

def derive (kdf : Kdf) (password : Bytes) (size : Nat) : Outcome Error Bytes := do
  .failIf (size = 0 ∨ 64 < size) .resourceLimit
  let out ← kdf.fill prim password size
  .failIf (prim.overdue kdf password size = true) .resourceLimit
  .ok out

end Kdf

/-- `plain64`: the sector number, little-endian, in a 16-byte tweak. -/
def tweak (sector : Nat) : Bytes := leBytes 8 sector ++ zeros 8

/-- The loop of `crypt_sectors` from unit `i` on. -/
def cryptUnits (key : Bytes) (firstSector : Nat) (mode : Mode) :
    (i : Nat) → List Bytes → Outcome Error Bytes
  | _, [] => .ok []
  | i, sector :: rest => do
    let n ← .ofOption .invalidRange (checkedAdd 64 firstSector i)
    let tmp ← .ofOption .crypto (prim.xts mode key (tweak n) sector)
    .failIf (tmp.length ≠ 512) .crypto
    let out ← cryptUnits key firstSector mode (i + 1) rest
    .ok (tmp ++ out)

def cryptSectors (key : Bytes) (firstSector : Nat) (ciphertext : Bytes) (mode : Mode) :
    Outcome Error Bytes := do
  .failIf (key.length ≠ 32 ∧ key.length ≠ 64) .unsupportedProfile
  .failIf (ciphertext.length % 512 ≠ 0 ∨ 1024 * 1024 < ciphertext.length) .invalidRange
  cryptUnits prim key firstSector mode 0 (chunks 512 (ciphertext.length / 512) ciphertext)

def decryptSectors (key : Bytes) (firstSector : Nat) (ciphertext : Bytes) : Outcome Error Bytes :=
  cryptSectors prim key firstSector ciphertext .decrypt

def encryptSectors (key : Bytes) (firstSector : Nat) (plaintext : Bytes) : Outcome Error Bytes :=
  cryptSectors prim key firstSector plaintext .encrypt

/-- Each hash-sized part of the state becomes the hash of its index and itself. -/
def diffuseParts (hashAlg : Hash) : (index : Nat) → List Bytes → Outcome Error Bytes
  | _, [] => .ok []
  | index, part :: rest => do
    let digest ← hashAlg.digest prim (beBytes 4 index ++ part)
    let out ← diffuseParts hashAlg (index + 1) rest
    .ok (digest.take part.length ++ out)

/-- `state.chunks_mut(hash_alg.size())` -/
def hashParts (hashAlg : Hash) (state : Bytes) : List Bytes :=
  chunks hashAlg.size ((state.length + hashAlg.size - 1) / hashAlg.size) state

def mergeStripes (hashAlg : Hash) : List Bytes → (state : Bytes) → Outcome Error Bytes
  | [], state => .ok state
  | stripe :: rest, state => do
    let state ← diffuseParts prim hashAlg 0 (hashParts hashAlg (xorBytes state stripe))
    mergeStripes hashAlg rest state

def afMerge (data : Bytes) (keySize : Nat) (hashAlg : Hash) : Outcome Error Bytes := do
  .failIf ((keySize ≠ 32 ∧ keySize ≠ 64) ∨ data.length ≠ keySize * 4000) .metadataInvalid
  let state ← mergeStripes prim hashAlg (chunks keySize 3999 (data.take (keySize * 3999)))
      (zeros keySize)
  .ok (xorBytes state (data.drop (keySize * 3999)))

/-- A volume key is an AES-XTS key of one of the two supported lengths. -/
structure VolumeKey where
  bytes : Bytes
  size : bytes.length = 32 ∨ bytes.length = 64
deriving DecidableEq

def VolumeKey.new (bytes : Bytes) : Outcome Error VolumeKey :=
  if h : bytes.length = 32 ∨ bytes.length = 64 then do
    .failIf (prim.keyPage = false) .resourceLimit
    .ok ⟨bytes, h⟩
  else .err .crypto

end Winluks
