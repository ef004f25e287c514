import Winluks.Metadata

/-!
# What the JSON declares

A second reading of the metadata JSON, by paths: `v.findDec ["area", "offset"]`
is the decimal string found there, `keyslotArea` the area a keyslot object
declares, `keyslotOf` and `digestOf` the parameters of a keyslot and of a digest.
Nothing is checked here.  The lemmas say what the accessors of `metadata.rs`
return in these terms, and that none of them unwinds.
-/

namespace Winluks

open Lib Outcome

namespace Value

/-- The value at the end of a path of member names. -/
def find : List String → Value → Option Value
  | [], v => some v
  | k :: path, v => do
    let o ← v.asObject
    let w ← o.lookup k
    find path w

def findText (path : List String) (v : Value) : Option String := (v.find path).bind asStr

def findNum (path : List String) (v : Value) : Option Nat := (v.find path).bind asU64

def findDec (path : List String) (v : Value) : Option Nat :=
  (v.findText path).bind fun s => (Metadata.decimal s).toOption

def findHash (path : List String) (v : Value) : Option Hash :=
  (v.findText path).bind fun s => (Hash.parse s).toOption

def findB64 (ext : Parsers) (path : List String) (v : Value) : Option Bytes :=
  (v.findText path).bind ext.base64

def findObject (path : List String) (v : Value) : Option Obj := (v.find path).bind asObject

/-- The decimal strings of an array. -/
def findIds (path : List String) (v : Value) : Option (List Nat) := do
  let a ← v.find path
  let xs ← a.asArray
  xs.mapM fun x => x.asStr.bind fun s => (Metadata.decimal s).toOption

@[simp] theorem find_nil (v : Value) : v.find [] = some v := rfl

@[simp] theorem find_cons (k : String) (path : List String) (v : Value) :
    v.find (k :: path) = v.asObject.bind fun o => (o.lookup k).bind fun w => w.find path := rfl

@[simp] theorem asObject_object (o : Obj) : (Value.object o).asObject = some o := rfl
@[simp] theorem asStr_string (s : String) : (Value.string s).asStr = some s := rfl
@[simp] theorem asU64_posInt (n : UInt64) : (Value.number (.posInt n)).asU64 = some n.toNat := rfl
@[simp] theorem asArray_array (l : List Value) : (Value.array l).asArray = some l := rfl

theorem asObject_eq_some {v : Value} {o : Obj} : v.asObject = some o ↔ v = .object o := by
  cases v <;> simp [asObject]

theorem asStr_eq_some {v : Value} {s : String} : v.asStr = some s ↔ v = .string s := by
  cases v <;> simp [asStr]

theorem asArray_eq_some {v : Value} {l : List Value} : v.asArray = some l ↔ v = .array l := by
  cases v <;> simp [asArray]

end Value

/-- The part of the keyslots area that a keyslot claims, and the key size it claims it for. -/
structure Area where
  keySize : Nat
  region : Region Nat

def keyslotArea (o : Value) : Option Area := do
  let keySize ← o.findNum ["key_size"]
  let start ← o.findDec ["area", "offset"]
  let size ← o.findDec ["area", "size"]
  some ⟨keySize, start, start + size⟩

/-- The areas of all keyslots, bound to a digest or not. -/
def keyslotAreas (v : Value) : Option (List Area) := do
  let keys ← v.findObject ["keyslots"]
  keys.mapM fun e => keyslotArea e.2

def kdfOf (ext : Parsers) (o : Value) : Option Kdf := do
  let salt ← o.findB64 ext ["salt"]
  let kind ← o.findText ["type"]
  if kind = "pbkdf2" then do
    let hash ← o.findHash ["hash"]
    let iterations ← o.findNum ["iterations"]
    some (.pbkdf2 hash iterations salt)
  else if kind = "argon2i" ∨ kind = "argon2id" then do
    let memory ← o.findNum ["memory"]
    let time ← o.findNum ["time"]
    let cpus ← o.findNum ["cpus"]
    some (.argon2 (kind = "argon2id") memory time cpus salt)
  else none

/-- The parameters of a keyslot object. -/
def keyslotOf (ext : Parsers) (o : Value) : Option Metadata.Keyslot := do
  let keySize ← o.findNum ["key_size"]
  let areaKeySize ← o.findNum ["area", "key_size"]
  let start ← o.findDec ["area", "offset"]
  let afHash ← o.findHash ["af", "hash"]
  let kdf ← (o.find ["kdf"]).bind (kdfOf ext)
  some ⟨keySize, areaKeySize, start, afHash, kdf⟩

/-- A digest object: the key it recognizes, and what it is bound to. -/
structure Digest where
  hash : Hash
  iterations : Nat
  salt : Bytes
  value : Bytes
  keyslots : List Nat
  segments : List Nat

def digestOf (ext : Parsers) (o : Value) : Option Digest := do
  let hash ← o.findHash ["hash"]
  let iterations ← o.findNum ["iterations"]
  let salt ← o.findB64 ext ["salt"]
  let value ← o.findB64 ext ["digest"]
  let keyslots ← o.findIds ["keyslots"]
  let segments ← o.findIds ["segments"]
  some ⟨hash, iterations, salt, value, keyslots, segments⟩

namespace Metadata

variable {ext : Parsers} {o : Obj} {v : Value} {k s : String} {n max : Nat}

/-! ## Accessors, read backwards -/

theorem object_eq_ok : object v = .ok o ↔ v = .object o := by
  unfold object
  rw [ofOption_eq_ok, Value.asObject_eq_some]

theorem get_eq_ok : get o k = .ok v ↔ o.lookup k = some v := by
  unfold get
  rw [ofOption_eq_ok]

theorem text_eq_ok : text o k = .ok s ↔ (Value.object o).findText [k] = some s := by
  unfold text
  simp only [bind_eq_ok, get_eq_ok, ofOption_eq_ok]
  cases h : o.lookup k <;> simp [Value.findText, h]

theorem num_eq_ok : num o k = .ok n ↔ (Value.object o).findNum [k] = some n := by
  unfold num
  simp only [bind_eq_ok, get_eq_ok, ofOption_eq_ok]
  cases h : o.lookup k <;> simp [Value.findNum, h]

theorem dec_eq_ok : dec o k = .ok n ↔ (Value.object o).findDec [k] = some n := by
  unfold dec
  simp only [bind_eq_ok, text_eq_ok]
  cases h : (Value.object o).findText [k] <;> simp [Value.findDec, h, toOption_eq_some]

theorem b64_eq_ok {b : Bytes} :
    b64 ext o k = .ok b ↔ (Value.object o).findB64 ext [k] = some b := by
  unfold b64
  simp only [bind_eq_ok, text_eq_ok, ofOption_eq_ok]
  cases h : (Value.object o).findText [k] <;> simp [Value.findB64, h]

theorem id_eq_ok : id s max = .ok n ↔ decimal s = .ok n ∧ n ≤ max := by
  simp only [id, bind_eq_ok, failIf_eq_ok, Nat.not_lt]
  constructor
  · rintro ⟨m, hm, _, hle, he⟩
    injection he with he
    subst he
    exact ⟨hm, hle⟩
  · rintro ⟨hd, hle⟩
    exact ⟨n, hd, (), hle, rfl⟩

theorem bounded_eq_ok : bounded o k max = .ok n ↔ num o k = .ok n ∧ 0 < n ∧ n ≤ max := by
  simp only [bounded, bind_eq_ok, failIf_eq_ok]
  constructor
  · rintro ⟨m, hm, _, hle, he⟩
    injection he with he
    subst he
    exact ⟨hm, by omega, by omega⟩
  · rintro ⟨hd, h0, hle⟩
    exact ⟨n, hd, (), by omega, rfl⟩

/-! ## No accessor unwinds

What the JSON reader reports is about the JSON. -/

/-- The errors of the JSON profile. -/
inductive JsonError : Error → Prop where
  | invalid : JsonError .metadataInvalid
  | profile : JsonError .unsupportedProfile
  | reencryption : JsonError .reencryptionUnsupported
  | limit : JsonError .resourceLimit

attribute [simp] JsonError.invalid JsonError.profile JsonError.reencryption JsonError.limit

/-- The one error of a decimal or of a list of ids. -/
inductive Invalid : Error → Prop where
  | invalid : Invalid .metadataInvalid

attribute [simp] Invalid.invalid

theorem Invalid.json (e : Error) : Invalid e → JsonError e := by
  rintro ⟨⟩
  exact .invalid

section
variable (ext o v k s n max)

theorem invalid_decimal : (decimal s).ErrsIn Invalid := by
  simp [decimal, errs_bind]

theorem invalid_id : (id s max).ErrsIn Invalid := by
  simp [id, errs_bind, invalid_decimal]

theorem invalid_idsFrom (xs : List Value) (out : List Nat) :
    (idsFrom max xs out).ErrsIn Invalid := by
  induction xs generalizing out with
  | nil => trivial
  | cons x xs ih => simp [idsFrom, errs_bind, invalid_id, ih]

theorem invalid_ids : (ids o k max).ErrsIn Invalid := by
  simp [ids, get, errs_bind, invalid_idsFrom]

@[simp] theorem errs_hashParse : (Hash.parse s).ErrsIn JsonError := by
  unfold Hash.parse
  split <;> simp

@[simp] theorem errs_object : (object v).ErrsIn JsonError := errs_ofOption .invalid _

@[simp] theorem errs_get : (get o k).ErrsIn JsonError := errs_ofOption .invalid _

@[simp] theorem errs_text : (text o k).ErrsIn JsonError := by
  simp [text, errs_bind]

@[simp] theorem errs_num : (num o k).ErrsIn JsonError := by
  simp [num, errs_bind]

@[simp] theorem errs_decimal : (decimal s).ErrsIn JsonError := (invalid_decimal s).mono Invalid.json

@[simp] theorem errs_dec : (dec o k).ErrsIn JsonError := by
  simp [dec, errs_bind]

@[simp] theorem errs_only (allowed : List String) : (only o allowed).ErrsIn JsonError :=
  errs_failIf .profile _

@[simp] theorem errs_b64 : (b64 ext o k).ErrsIn JsonError := by
  simp [b64, errs_bind]

@[simp] theorem errs_id : (id s max).ErrsIn JsonError := (invalid_id s max).mono Invalid.json

@[simp] theorem errs_bounded : (bounded o k max).ErrsIn JsonError := by
  simp [bounded, errs_bind]

@[simp] theorem errs_ids : (ids o k max).ErrsIn JsonError := (invalid_ids o k max).mono Invalid.json

/-- The product `8 * cpus` is within `u32` since `cpus` is at most 8. -/
@[simp] theorem errs_parseKdf : (parseKdf ext o).ErrsIn JsonError := by
  simp only [parseKdf, errs_bind, errs_b64, errs_failIf, errs_text, JsonError.invalid, true_and]
  intro salt _ _ _ kind _
  split
  · simp [errs_bind]
  · split
    · simp only [errs_bind, errs_only, errs_bounded, errs_failIf, errs_ok,
        JsonError.invalid, true_and]
      intro _ _ _ _ _ _ cpus hcpus
      obtain ⟨-, -, hle⟩ := bounded_eq_ok.mp hcpus
      rw [trapMul_ok (by omega)]
      simp
    · simp

end

end Metadata

end Winluks
