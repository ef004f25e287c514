import Mathlib.Data.List.Infix
import Winluks.Lib.Region
import Winluks.Image
import Winluks.Crypto
import Winluks.StrictJson

/-!
# LUKS2 metadata

`metadata.rs`: the accessors over a JSON object, the binary header of one copy,
the JSON profile (`fromJson`, read section by section in the order of the
source) and `Metadata.read`.  Arithmetic on `u64` that the source leaves to the
compiler unwinds on overflow, as the release profile does.

The base64 decoder, the UUID parser and the JSON tokenizer are libraries; they
are the fields of `Parsers`.
-/

namespace Winluks

open Lib

/-- The libraries behind `metadata.rs` and `strict_json.rs`. -/
structure Parsers where
  base64 : String → Option Bytes
  uuid : String → Bool
  json : Bytes → Option Doc

structure Slot where
  keySize : Nat
  areaKeySize : Nat
  areaOffset : Nat
  afHash : Hash
  kdf : Kdf
  digestKdf : Kdf
  digest : Bytes
deriving DecidableEq

structure Metadata where
  offset : Nat
  length : Nat
  slots : List (Nat × Slot)
deriving DecidableEq

namespace Value

def asObject : Value → Option Obj
  | .object m => some m
  | _ => none

def asStr : Value → Option String
  | .string s => some s
  | _ => none

def asArray : Value → Option (List Value)
  | .array l => some l
  | _ => none

def asU64 : Value → Option Nat
  | .number (.posInt n) => some n.toNat
  | _ => none

end Value

namespace Metadata

variable (prim : Primitives) (ext : Parsers)

/-! ## Accessors -/

def object (v : Value) : Outcome Error Obj := .ofOption .metadataInvalid v.asObject

def get (o : Obj) (k : String) : Outcome Error Value := .ofOption .metadataInvalid (o.lookup k)

def text (o : Obj) (k : String) : Outcome Error String := do
  let v ← get o k
  .ofOption .metadataInvalid v.asStr

def num (o : Obj) (k : String) : Outcome Error Nat := do
  let v ← get o k
  .ofOption .metadataInvalid v.asU64

/-- `s.parse::<u64>()` before its range check -/
def decimalValue (cs : List Char) : Nat := cs.foldl (fun n c => n * 10 + (c.toNat - '0'.toNat)) 0

def decimal (s : String) : Outcome Error Nat := do
  .failIf (s.toList = [] ∨ s.toList.all Char.isDigit = false ∨
    (1 < s.toList.length ∧ s.toList.head? = some '0')) .metadataInvalid
  .failIf (2 ^ 64 ≤ decimalValue s.toList) .metadataInvalid
  .ok (decimalValue s.toList)

def dec (o : Obj) (k : String) : Outcome Error Nat := do
  let s ← text o k
  decimal s

def only (o : Obj) (allowed : List String) : Outcome Error Unit :=
  .failIf (o.any fun e => !allowed.contains e.1) .unsupportedProfile

def b64 (o : Obj) (k : String) : Outcome Error Bytes := do
  let s ← text o k
  .ofOption .metadataInvalid (ext.base64 s)

def id (s : String) (max : Nat) : Outcome Error Nat := do
  let n ← decimal s
  .failIf (max < n) .metadataInvalid
  .ok n

/-- The loop of `ids`: `out` holds the ids read so far. -/
def idsFrom (max : Nat) : List Value → (out : List Nat) → Outcome Error (List Nat)
  | [], out => .ok out
  | x :: rest, out => do
    let s ← .ofOption .metadataInvalid x.asStr
    let n ← id s max
    .failIf (n ∈ out) .metadataInvalid
    idsFrom max rest (out ++ [n])

def ids (o : Obj) (k : String) (max : Nat) : Outcome Error (List Nat) := do
  let v ← get o k
  let xs ← .ofOption .metadataInvalid v.asArray
  idsFrom max xs []

def bounded (o : Obj) (k : String) (max : Nat) : Outcome Error Nat := do
  let n ← num o k
  .failIf (n = 0 ∨ max < n) .resourceLimit
  .ok n

def parseKdf (o : Obj) : Outcome Error Kdf := do
  let salt ← b64 ext o "salt"
  .failIf (salt.length ≠ 32) .metadataInvalid
  let kind ← text o "type"
  if kind = "pbkdf2" then do
    only o ["type", "hash", "iterations", "salt"]
    let hash ← text o "hash"
    let hash ← Hash.parse hash
    let iterations ← bounded o "iterations" 10000000
    .ok (.pbkdf2 hash iterations salt)
  else if kind = "argon2i" ∨ kind = "argon2id" then do
    only o ["type", "time", "memory", "cpus", "salt"]
    let memory ← bounded o "memory" 1048576
    let time ← bounded o "time" 10
    let cpus ← bounded o "cpus" 8
    let least ← trapMul 32 8 cpus
    .failIf (memory < least) .metadataInvalid
    .ok (.argon2 (kind = "argon2id") memory time cpus salt)
  else .err .unsupportedProfile

/-! ## The binary header -/

def utf8 (b : Bytes) : Option String := String.fromUTF8? b.toByteArray

/-- The bytes before the first zero, after which everything is zero. -/
def untilNul (b : Bytes) : Outcome Error Bytes := do
  .failIf (b.all (· ≠ 0)) .metadataInvalid
  .failIf ((b.dropWhile (· ≠ 0)).any (· ≠ 0)) .metadataInvalid
  .ok (b.takeWhile (· ≠ 0))

def cstr (b : Bytes) : Outcome Error String := do
  let s ← untilNul b
  .ofOption .metadataInvalid (utf8 s)

structure Header where
  size : Nat
  seq : Nat
  uuid : String
  label : String
  subsystem : String
  json : Value
deriving DecidableEq

/-- `LUKS\xba\xbe` in the first copy, `SKUL\xba\xbe` in the second. -/
def magic (offset : Nat) : Bytes :=
  if offset = 0 then [76, 85, 75, 83, 0xba, 0xbe] else [83, 75, 85, 76, 0xba, 0xbe]

def isPowerOfTwo (n : Nat) : Bool := n = 2 ^ n.log2

/-- The checks of `header` on the first 4096 bytes: size, checksum algorithm and UUID. -/
def headerFixed (offset : Nat) (fixed : Bytes) : Outcome Error (Nat × Hash × String) := do
  .failIf (fixed.take 6 ≠ magic offset ∨ fixed.extract 6 8 ≠ [0, 2]) .metadataRecoveryRequired
  let size := beNat (fixed.extract 8 16)
  .failIf (¬ (16 * 1024 ≤ size ∧ size ≤ 4 * 1024 * 1024) ∨ isPowerOfTwo size = false)
    .metadataInvalid
  .failIf (offset ≠ beNat (fixed.extract 256 264) ∨ (offset ≠ 0 ∧ offset ≠ size))
    .metadataRecoveryRequired
  .failIf ((fixed.extract 264 448 ++ fixed.drop 512).any (· ≠ 0)) .unsupportedProfile
  let name ← cstr (fixed.extract 72 104)
  let alg ← Hash.parse name
  let uuid ← cstr (fixed.extract 168 208)
  .failIf (ext.uuid uuid = false) .metadataInvalid
  .ok (size, alg, uuid)

/-- `data[448..512].fill(0)` -/
def clearChecksum (data : Bytes) : Bytes := data.take 448 ++ zeros 64 ++ data.drop 512

/-- The checks of `header` on the whole copy. -/
def headerData (fixed : Bytes) (size : Nat) (alg : Hash) (uuid : String) (data : Bytes) :
    Outcome Error Header := do
  .failIf ((data.extract (448 + alg.size) 512).any (· ≠ 0)) .metadataRecoveryRequired
  let sum ← alg.digest prim (clearChecksum data)
  .failIf (sum ≠ data.extract 448 (448 + alg.size)) .metadataRecoveryRequired
  let json ← untilNul (data.drop 4096)
  let label ← cstr (fixed.extract 24 72)
  let subsystem ← cstr (fixed.extract 208 256)
  let json ← parse ext.json json
  .ok ⟨size, beNat (fixed.extract 16 24), uuid, label, subsystem, json⟩

def header (img : Image) (offset : Nat) : Run Disk Error Header := do
  let fixed ← (img.readExactAt offset 4096).mapErr fun _ => .metadataRecoveryRequired
  let (size, alg, uuid) ← .lift (headerFixed ext offset fixed)
  let data ← (img.readExactAt offset size).mapErr fun _ => .metadataRecoveryRequired
  .lift (headerData prim ext fixed size alg uuid data)

/-! ## The JSON profile -/

/-- `if let Some(f) = o.get("flags") && !f.as_array()?.is_empty()` -/
def noFlags (o : Obj) : Outcome Error Unit :=
  match o.lookup "flags" with
  | none => .ok ()
  | some f => do
    let f ← .ofOption .metadataInvalid f.asArray
    .failIf (f ≠ []) .unsupportedProfile

/-- `s.contains("reencrypt")` -/
def mentionsReencrypt (s : String) : Bool := decide ("reencrypt".toList <:+: s.toList)

/-- No string of the list mentions reencryption. -/
def noReencrypt : List Value → Outcome Error Unit
  | [] => .ok ()
  | x :: rest => do
    let s ← .ofOption .metadataInvalid x.asStr
    .failIf (mentionsReencrypt s = true) .reencryptionUnsupported
    noReencrypt rest

def checkRequirements (config : Obj) : Outcome Error Unit :=
  match config.lookup "requirements" with
  | none => .ok ()
  | some r => do
    let r ← object r
    only r ["mandatory"]
    match r.lookup "mandatory" with
    | none => .ok ()
    | some m => do
      let mandatory ← .ofOption .metadataInvalid m.asArray
      noReencrypt mandatory
      .failIf (mandatory ≠ []) .unsupportedProfile

/-- The `config` section: where the keyslot areas begin and end. -/
def readConfig (root : Obj) (hdrSize : Nat) : Outcome Error (Nat × Nat) := do
  let config ← get root "config"
  let config ← object config
  only config ["json_size", "keyslots_size", "flags", "requirements"]
  let jsonSize ← dec config "json_size"
  let room ← trapSub hdrSize 4096
  .failIf (jsonSize ≠ room) .metadataInvalid
  noFlags config
  checkRequirements config
  let keyslotsSize ← dec config "keyslots_size"
  .failIf (128 * 1024 * 1024 < keyslotsSize ∨ keyslotsSize % 4096 ≠ 0) .resourceLimit
  let areaStart ← .ofOption .metadataInvalid (checkedMul 64 hdrSize 2)
  let areaEnd ← .ofOption .metadataInvalid (checkedAdd 64 areaStart keyslotsSize)
  .ok (areaStart, areaEnd)

/-- A flag of the segment mentions reencryption. -/
def checkReencryptFlags (seg : Obj) : Outcome Error Unit :=
  match seg.lookup "flags" with
  | none => .ok ()
  | some f => do
    let f ← .ofOption .metadataInvalid f.asArray
    noReencrypt f

/-- The loop over all segments, before their number is checked. -/
def checkSegmentFlags : Obj → Outcome Error Unit
  | [] => .ok ()
  | (_, seg) :: rest => do
    let o ← object seg
    checkReencryptFlags o
    checkSegmentFlags rest

/-- A plain AES-XTS segment without an initialization offset. -/
def checkSegment (seg : Obj) : Outcome Error Unit := do
  only seg ["type", "offset", "size", "iv_tweak", "encryption", "sector_size", "flags"]
  let kind ← text seg "type"
  .failIf (kind ≠ "crypt") .unsupportedProfile
  let encryption ← text seg "encryption"
  .failIf (encryption ≠ "aes-xts-plain64") .unsupportedProfile
  let sectorSize ← num seg "sector_size"
  .failIf (sectorSize ≠ 512) .unsupportedProfile
  let ivTweak ← dec seg "iv_tweak"
  .failIf (ivTweak ≠ 0) .unsupportedProfile
  noFlags seg

def segmentLength (offset imageLen : Nat) (size : String) : Outcome Error Nat :=
  if size = "dynamic" then trapSub imageLen offset else decimal size

/-- Offset and length of the payload. -/
def segmentExtent (seg : Obj) (areaEnd imageLen : Nat) : Outcome Error (Nat × Nat) := do
  let offset ← dec seg "offset"
  .failIf (offset < areaEnd ∨ imageLen < offset ∨ offset % 512 ≠ 0) .metadataInvalid
  let size ← text seg "size"
  let length ← segmentLength offset imageLen size
  .failIf (length = 0) .metadataInvalid
  let room ← trapSub imageLen offset
  .failIf (room < length ∨ length % 512 ≠ 0) .metadataInvalid
  .ok (offset, length)

/-- The `segments` section: the id of the only segment, its offset and its length. -/
def readSegment (root : Obj) (areaEnd imageLen : Nat) : Outcome Error (Nat × Nat × Nat) := do
  let segs ← get root "segments"
  let segs ← object segs
  checkSegmentFlags segs
  .failIf (segs.length ≠ 1) .unsupportedProfile
  let (segid, seg) ← .ofOption .metadataInvalid segs.head?
  let segid ← id segid 31
  let seg ← object seg
  checkSegment seg
  let (offset, length) ← segmentExtent seg areaEnd imageLen
  .ok (segid, offset, length)

/-- An entry of `parsed`. -/
structure Keyslot where
  keySize : Nat
  areaKeySize : Nat
  start : Nat
  afHash : Hash
  kdf : Kdf
deriving DecidableEq

/-- The slot of a keyslot that a digest is bound to. -/
def Keyslot.bind (p : Keyslot) (digestKdf : Kdf) (digest : Bytes) : Slot :=
  ⟨p.keySize, p.areaKeySize, p.start, p.afHash, p.kdf, digestKdf, digest⟩

/-- The loop variables of the `keyslots` section. -/
structure Keyslots where
  parsed : List (Nat × Keyslot)
  ranges : List (Region Nat)

def checkPriority (o : Obj) : Outcome Error Unit :=
  match o.lookup "priority" with
  | none => .ok ()
  | some p => do
    let p ← .ofOption .metadataInvalid p.asU64
    .failIf (2 < p) .metadataInvalid

def checkKeyslotType (o : Obj) : Outcome Error Unit := do
  let kind ← text o "type"
  .failIf (kind = "reencrypt") .reencryptionUnsupported
  only o ["type", "key_size", "area", "kdf", "af", "priority"]
  .failIf (kind ≠ "luks2") .unsupportedProfile
  checkPriority o

/-- The two key sizes of a keyslot and its area, which must not meet the areas `ranges` before
it. -/
def readArea (areaStart areaEnd : Nat) (ranges : List (Region Nat)) (o : Obj) :
    Outcome Error (Nat × Nat × Region Nat) := do
  let keySize ← num o "key_size"
  let area ← get o "area"
  let area ← object area
  only area ["type", "offset", "size", "encryption", "key_size"]
  let areaKeySize ← num area "key_size"
  .failIf (¬ (keySize = 32 ∨ keySize = 64) ∨ ¬ (areaKeySize = 32 ∨ areaKeySize = 64))
    .unsupportedProfile
  let areaType ← text area "type"
  .failIf (areaType ≠ "raw") .unsupportedProfile
  let encryption ← text area "encryption"
  .failIf (encryption ≠ "aes-xts-plain64") .unsupportedProfile
  let start ← dec area "offset"
  let size ← dec area "size"
  let stop ← .ofOption .metadataInvalid (checkedAdd 64 start size)
  .failIf (64 * 1024 * 1024 < size) .resourceLimit
  let least ← trapMul 64 keySize 4000
  .failIf (size < least ∨ start < areaStart ∨ areaEnd < stop ∨ start % 4096 ≠ 0 ∨ size % 4096 ≠ 0)
    .metadataInvalid
  .failIf (∃ r ∈ ranges, start < r.stop ∧ r.start < stop) .metadataInvalid
  .ok (keySize, areaKeySize, ⟨start, stop⟩)

/-- The anti-forensic hash and the KDF of a keyslot. -/
def readAfKdf (ext : Parsers) (o : Obj) : Outcome Error (Hash × Kdf) := do
  let af ← get o "af"
  let af ← object af
  only af ["type", "stripes", "hash"]
  let afType ← text af "type"
  .failIf (afType ≠ "luks1") .unsupportedProfile
  let stripes ← num af "stripes"
  .failIf (stripes ≠ 4000) .unsupportedProfile
  let kdf ← get o "kdf"
  let kdf ← object kdf
  let kdf ← parseKdf ext kdf
  let afHash ← text af "hash"
  let afHash ← Hash.parse afHash
  .ok (afHash, kdf)

def readKeyslot (areaStart areaEnd : Nat) (st : Keyslots) (k : String) (v : Value) :
    Outcome Error Keyslots := do
  let keyId ← id k 31
  let o ← object v
  checkKeyslotType o
  let (keySize, areaKeySize, range) ← readArea areaStart areaEnd st.ranges o
  let (afHash, kdf) ← readAfKdf ext o
  .ok ⟨insertKey keyId ⟨keySize, areaKeySize, range.start, afHash, kdf⟩ st.parsed,
    st.ranges ++ [range]⟩

def readKeyslots (areaStart areaEnd : Nat) : Obj → (st : Keyslots) → Outcome Error Keyslots
  | [], st => .ok st
  | (k, v) :: rest, st => do
    let st ← readKeyslot ext areaStart areaEnd st k v
    readKeyslots areaStart areaEnd rest st

def checkTokens : Obj → Outcome Error Unit
  | [] => .ok ()
  | (t, v) :: rest => do
    let _ ← id t 31
    let _ ← object v
    checkTokens rest

/-- Bind the keyslots of one digest; `ds` are the digest's segments. -/
def bindKeyslots (parsed : List (Nat × Keyslot)) (ds : List Nat) (digestKdf : Kdf)
    (digest : Bytes) :
    List Nat → (slots : List (Nat × Slot)) → Outcome Error (List (Nat × Slot))
  | [], slots => .ok slots
  | k :: rest, slots => do
    let p ← .ofOption .metadataInvalid (parsed.lookup k)
    if ds = [] then bindKeyslots parsed ds digestKdf digest rest slots
    else do
      .failIf ((slots.lookup k).isSome) .metadataInvalid
      bindKeyslots parsed ds digestKdf digest rest (insertKey k (p.bind digestKdf digest) slots)

def readDigest (segid : Nat) (parsed : List (Nat × Keyslot)) (slots : List (Nat × Slot))
    (d : String) (v : Value) : Outcome Error (List (Nat × Slot)) := do
  let _ ← id d 31
  let o ← object v
  only o ["type", "keyslots", "segments", "hash", "iterations", "salt", "digest"]
  let kind ← text o "type"
  .failIf (kind ≠ "pbkdf2") .unsupportedProfile
  let digest ← b64 ext o "digest"
  let salt ← b64 ext o "salt"
  let hash ← text o "hash"
  let hash ← Hash.parse hash
  .failIf (salt.length ≠ 32 ∨ (digest.length ≠ 20 ∧ digest.length ≠ hash.size)) .metadataInvalid
  let iterations ← bounded o "iterations" 10000000
  let ds ← ids o "segments" 31
  .failIf (∃ s ∈ ds, s ≠ segid) .metadataInvalid
  let ks ← ids o "keyslots" 31
  bindKeyslots parsed ds (.pbkdf2 hash iterations salt) digest ks slots

def readDigests (segid : Nat) (parsed : List (Nat × Keyslot)) :
    Obj → (slots : List (Nat × Slot)) → Outcome Error (List (Nat × Slot))
  | [], slots => .ok slots
  | (d, v) :: rest, slots => do
    let slots ← readDigest ext segid parsed slots d v
    readDigests segid parsed rest slots

def fromJson (v : Value) (hdrSize imageLen : Nat) : Outcome Error Metadata := do
  let root ← object v
  only root ["keyslots", "tokens", "segments", "digests", "config"]
  let (areaStart, areaEnd) ← readConfig root hdrSize
  let (segid, offset, length) ← readSegment root areaEnd imageLen
  let keys ← get root "keyslots"
  let keys ← object keys
  .failIf (32 < keys.length) .resourceLimit
  let st ← readKeyslots ext areaStart areaEnd keys ⟨[], []⟩
  let tokens ← get root "tokens"
  let tokens ← object tokens
  .failIf (32 < tokens.length) .resourceLimit
  checkTokens tokens
  let digests ← get root "digests"
  let digests ← object digests
  .failIf (32 < digests.length) .resourceLimit
  let slots ← readDigests ext segid st.parsed digests []
  .ok ⟨offset, length, slots⟩

def read (img : Image) : Run Disk Error Metadata := do
  let a ← header prim ext img 0
  let b ← header prim ext img a.size
  .lift (.failIf (a.size ≠ b.size ∨ a.seq ≠ b.seq ∨ a.uuid ≠ b.uuid ∨ a.label ≠ b.label ∨
    a.subsystem ≠ b.subsystem ∨ a.json ≠ b.json) .metadataRecoveryRequired)
  .lift (fromJson ext a.json a.size img.len)

def keyslots (m : Metadata) : List Nat := m.slots.map Prod.fst

def slot (m : Metadata) (id : Nat) : Outcome Error Slot :=
  .ofOption .unsupportedProfile (m.slots.lookup id)

end Metadata

end Winluks
