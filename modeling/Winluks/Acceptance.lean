import Winluks.Binding
import Winluks.Copies

/-!
# The metadata that is accepted

The JSON profile as a property of the document, with nothing of the order in
which `fromJson` looks at it: one structure for each kind of object, in the terms
of `find…`, and `DocumentProfile` for the whole.  A lemma a section says that it
is read exactly when it is of its profile; `fromJson_accepts` puts them together,
and `read_accepts` says the same of an image with its two headers.
-/

namespace Winluks

open Lib Outcome

namespace Metadata

/-! ## The profile -/

/-- Only these members. -/
def Members (allowed : List String) (o : Obj) : Prop := ∀ e ∈ o, e.1 ∈ allowed

/-- There is no such member, or an empty list. -/
def NoneIn (k : String) (o : Obj) : Prop := o.lookup k = none ∨ o.lookup k = some (.array [])

structure ConfigProfile (h size : Nat) (o : Obj) : Prop where
  members : Members ["json_size", "keyslots_size", "flags", "requirements"] o
  jsonSize : (Value.object o).findDec ["json_size"] = some (h - 4096)
  flags : NoneIn "flags" o
  requirements : o.lookup "requirements" = none ∨ ∃ r, o.lookup "requirements" = some (.object r) ∧
    Members ["mandatory"] r ∧ NoneIn "mandatory" r
  keyslotsSize : (Value.object o).findDec ["keyslots_size"] = some size
  most : size ≤ 128 * 1024 * 1024
  aligned : size % 4096 = 0

/-- A plain segment from `lo` on, and inside the image. -/
structure SegmentProfile (lo imageLen offset length : Nat) (o : Obj) : Prop where
  members : Members ["type", "offset", "size", "iv_tweak", "encryption", "sector_size", "flags"] o
  type : (Value.object o).findText ["type"] = some "crypt"
  encryption : (Value.object o).findText ["encryption"] = some "aes-xts-plain64"
  sectorSize : (Value.object o).findNum ["sector_size"] = some 512
  ivTweak : (Value.object o).findDec ["iv_tweak"] = some 0
  flags : NoneIn "flags" o
  begins : (Value.object o).findDec ["offset"] = some offset
  extent : (Value.object o).findText ["size"] = some "dynamic" ∧ length = imageLen - offset ∨
    (Value.object o).findDec ["size"] = some length
  behind : lo ≤ offset
  inside : offset + length ≤ imageLen
  nonempty : 0 < length
  aligned : offset % 512 = 0 ∧ length % 512 = 0

/-- Parameters within the limits. -/
inductive KdfProfile (ext : Parsers) (o : Obj) : Prop
  | pbkdf2 {salt : Bytes} {hash : Hash} {iterations : Nat}
      (members : Members ["type", "hash", "iterations", "salt"] o)
      (type : (Value.object o).findText ["type"] = some "pbkdf2")
      (hsalt : (Value.object o).findB64 ext ["salt"] = some salt) (length : salt.length = 32)
      (hhash : (Value.object o).findHash ["hash"] = some hash)
      (hiterations : (Value.object o).findNum ["iterations"] = some iterations)
      (bounds : 0 < iterations ∧ iterations ≤ 10000000)
  | argon2 {kind : String} {salt : Bytes} {memory time cpus : Nat}
      (members : Members ["type", "time", "memory", "cpus", "salt"] o)
      (type : (Value.object o).findText ["type"] = some kind)
      (hkind : kind = "argon2i" ∨ kind = "argon2id")
      (hsalt : (Value.object o).findB64 ext ["salt"] = some salt) (length : salt.length = 32)
      (hmemory : (Value.object o).findNum ["memory"] = some memory)
      (htime : (Value.object o).findNum ["time"] = some time)
      (hcpus : (Value.object o).findNum ["cpus"] = some cpus)
      (bounds : 0 < memory ∧ memory ≤ 1048576 ∧ 0 < time ∧ time ≤ 10 ∧ 0 < cpus ∧ cpus ≤ 8)
      (least : 8 * cpus ≤ memory)

structure AfProfile (o : Obj) : Prop where
  members : Members ["type", "stripes", "hash"] o
  type : (Value.object o).findText ["type"] = some "luks1"
  stripes : (Value.object o).findNum ["stripes"] = some 4000
  hash : ∃ hash, (Value.object o).findHash ["hash"] = some hash

/-- The area object of a keyslot whose area is `a`. -/
structure AreaProfile (a : Area) (o : Obj) : Prop where
  members : Members ["type", "offset", "size", "encryption", "key_size"] o
  type : (Value.object o).findText ["type"] = some "raw"
  encryption : (Value.object o).findText ["encryption"] = some "aes-xts-plain64"
  keySize : ∃ n, (Value.object o).findNum ["key_size"] = some n ∧ (n = 32 ∨ n = 64)
  offset : (Value.object o).findDec ["offset"] = some a.region.start
  size : ∃ size, (Value.object o).findDec ["size"] = some size ∧
    a.region.stop = a.region.start + size ∧ size ≤ 64 * 1024 * 1024 ∧ size % 4096 = 0

/-- A keyslot whose area lies between `lo` and `hi`. -/
structure KeyslotProfile (ext : Parsers) (lo hi : Nat) (a : Area) (o : Obj) : Prop where
  members : Members ["type", "key_size", "area", "kdf", "af", "priority"] o
  type : (Value.object o).findText ["type"] = some "luks2"
  priority : o.lookup "priority" = none ∨ ∃ n ≤ 2, (Value.object o).findNum ["priority"] = some n
  keySize : (Value.object o).findNum ["key_size"] = some a.keySize
  supported : a.keySize = 32 ∨ a.keySize = 64
  area : ∃ area, o.lookup "area" = some (.object area) ∧ AreaProfile a area
  fits : a.Fits lo hi
  af : ∃ af, o.lookup "af" = some (.object af) ∧ AfProfile af
  kdf : ∃ kdf, o.lookup "kdf" = some (.object kdf) ∧ KdfProfile ext kdf

/-- An id of a keyslot, a token, a segment or a digest. -/
def IsId (s : String) (n : Nat) : Prop := decimal s = .ok n ∧ n ≤ 31

/-- An entry of the keyslots. -/
def KeyslotEntry (ext : Parsers) (lo hi : Nat) (e : String × Value) (a : Area) : Prop :=
  (∃ n, IsId e.1 n) ∧ ∃ o, e.2 = .object o ∧ KeyslotProfile ext lo hi a o

/-- A digest of keyslots that are there, and of no other segment than `segid`. -/
structure DigestProfile (ext : Parsers) (segid : Nat) (keys : Obj) (D : Digest) (o : Obj) :
    Prop where
  members : Members ["type", "keyslots", "segments", "hash", "iterations", "salt", "digest"] o
  type : (Value.object o).findText ["type"] = some "pbkdf2"
  parameters : digestOf ext (.object o) = some D
  valid : D.Valid
  segments : D.segments.Nodup ∧ ∀ n ∈ D.segments, n ≤ 31 ∧ n = segid
  keyslots : D.keyslots.Nodup ∧ ∀ n ∈ D.keyslots, n ≤ 31 ∧ ∃ e ∈ keys, decimal e.1 = .ok n

/-- An entry of the digests. -/
def DigestEntry (ext : Parsers) (segid : Nat) (keys : Obj) (e : String × Value)
    (D : Digest) : Prop :=
  (∃ n, IsId e.1 n) ∧ ∃ o, e.2 = .object o ∧ DigestProfile ext segid keys D o

/-- No keyslot gets a digest from both. -/
def BindApart (D D' : Digest) : Prop :=
  D.segments ≠ [] → D'.segments ≠ [] → ∀ k ∈ D.keyslots, k ∉ D'.keyslots

/-- The whole document: `size` bytes of keyslot areas, the segment `segid`, the keyslots `keys`. -/
structure DocumentProfile (ext : Parsers) (h imageLen size segid offset length : Nat)
    (keys root : Obj) : Prop where
  members : Members ["keyslots", "tokens", "segments", "digests", "config"] root
  config : ∃ config, root.lookup "config" = some (.object config) ∧ ConfigProfile h size config
  segment : ∃ name seg, root.lookup "segments" = some (.object [(name, .object seg)]) ∧
    IsId name segid ∧ SegmentProfile (2 * h + size) imageLen offset length seg
  keyslots : root.lookup "keyslots" = some (.object keys) ∧ keys.length ≤ 32
  areas : ∃ areas, List.Forall₂ (KeyslotEntry ext (2 * h) (2 * h + size)) keys areas ∧
    areas.Pairwise fun a b => a.region.Apart b.region
  tokens : ∃ tokens, root.lookup "tokens" = some (.object tokens) ∧ tokens.length ≤ 32 ∧
    ∀ e ∈ tokens, (∃ n, IsId e.1 n) ∧ ∃ o, e.2 = .object o
  digests : ∃ digests Ds, root.lookup "digests" = some (.object digests) ∧ digests.length ≤ 32 ∧
    List.Forall₂ (DigestEntry ext segid keys) digests Ds ∧ Ds.Pairwise BindApart

/-- A document that gives a payload of `length` bytes at `offset`. -/
def Accepted (ext : Parsers) (h imageLen offset length : Nat) (v : Value) : Prop :=
  ∃ size segid keys root, v = .object root ∧
    DocumentProfile ext h imageLen size segid offset length keys root

/-! ## Accessors -/

variable {ext : Parsers} {o : Obj} {k s : String} {lo hi h imageLen : Nat}

theorem only_eq_ok {allowed : List String} {u : Unit} :
    only o allowed = .ok u ↔ Members allowed o := by
  rw [only, failIf_eq_ok, Bool.not_eq_true, List.any_eq_false]
  exact forall₂_congr fun e _ => by simp

theorem noFlags_eq_ok {u : Unit} : noFlags o = .ok u ↔ NoneIn "flags" o := by
  unfold noFlags NoneIn
  cases hf : o.lookup "flags" with
  | none => simp
  | some f => simp [ofOption_bind_eq_ok, failIf_eq_ok, Value.asArray_eq_some]

theorem checkRequirements_eq_ok {u : Unit} :
    checkRequirements o = .ok u ↔ o.lookup "requirements" = none ∨
    ∃ r, o.lookup "requirements" = some (.object r) ∧ Members ["mandatory"] r ∧
    NoneIn "mandatory" r := by
  unfold checkRequirements
  cases hr : o.lookup "requirements" with
  | none => simp
  | some v =>
    simp only [bind_eq_ok, object_eq_ok, only_eq_ok, reduceCtorEq, false_or, Option.some.injEq]
    refine exists_congr fun r => and_congr_right fun _ => ?_
    unfold NoneIn
    cases hm : r.lookup "mandatory" with
    | none => simp
    | some m =>
      simp only [ofOption_eq_ok, Value.asArray_eq_some, failIf_eq_ok, not_not, bind_eq_ok,
        reduceCtorEq, false_or, Option.some.injEq]
      constructor
      · rintro ⟨_, hmem, xs, rfl, _, _, rfl⟩
        exact ⟨hmem, rfl⟩
      · rintro ⟨hmem, rfl⟩
        exact ⟨(), hmem, [], rfl, (), rfl, rfl⟩

/-! ## The sections -/

theorem readConfig_accepts (hh : HeaderSize h) {root : Obj} : (readConfig root h = .ok (lo, hi)) ↔
    ∃ size config, root.lookup "config" = some (.object config) ∧ ConfigProfile h size config ∧
      lo = 2 * h ∧ hi = 2 * h + size := by
  have hleast := hh.least
  have hmost := hh.most
  simp only [readConfig, bind_eq_ok, get_eq_ok, object_eq_ok, dec_eq_ok, failIf_eq_ok,
    ofOption_eq_ok, checkedMul_eq_some, checkedAdd_eq_some, only_eq_ok, noFlags_eq_ok,
    checkRequirements_eq_ok,
    trapSub_ok (by omega : 4096 ≤ h)]
  constructor
  · rintro ⟨_, hconfig, config, rfl, _, hmembers, json, hjson, room, hroom, _, hsize, _, hflags, _,
      hreq, size, hks, _, hlimit, start, ⟨_, rfl⟩, stop, ⟨_, rfl⟩, hret⟩
    obtain rfl := Outcome.ok.inj hroom
    obtain ⟨rfl, rfl⟩ := Prod.mk.inj (Outcome.ok.inj hret)
    refine ⟨size, config, hconfig,
      ⟨hmembers, ?_, hflags, hreq, hks, by omega, by omega⟩, by omega, by omega⟩
    rw [hjson, not_not.mp hsize]
  · rintro ⟨size, config, hconfig, hp, rfl, rfl⟩
    have h1 := hp.most
    have h2 := hp.aligned
    exact ⟨_, hconfig, config, rfl, (), hp.members, _, hp.jsonSize, _, rfl, (), fun hne => hne rfl,
      (), hp.flags, (),
      hp.requirements, size, hp.keyslotsSize,
      (), by omega, 2 * h, ⟨by omega, by omega⟩, _, ⟨by omega, rfl⟩, rfl⟩

/-! ### The segment -/

theorem decimal_dynamic (n : Nat) : decimal "dynamic" ≠ .ok n := by
  have hdigits : "dynamic".toList.all Char.isDigit = false := by decide +kernel
  rw [decimal, failIf_pos (Or.inr (Or.inl hdigits)), err_bind]
  exact fun h => by cases h

theorem checkSegment_accepts {u : Unit} : checkSegment o = .ok u ↔
    Members ["type", "offset", "size", "iv_tweak", "encryption", "sector_size", "flags"] o ∧
      (Value.object o).findText ["type"] = some "crypt" ∧
      (Value.object o).findText ["encryption"] = some "aes-xts-plain64" ∧
      (Value.object o).findNum ["sector_size"] = some 512 ∧
      (Value.object o).findDec ["iv_tweak"] = some 0 ∧ NoneIn "flags" o := by
  simp only [checkSegment, bind_eq_ok, only_eq_ok, text_eq_ok, num_eq_ok, dec_eq_ok, failIf_eq_ok,
    noFlags_eq_ok, not_not]
  constructor
  · rintro ⟨_, hmembers, _, htype, _, rfl, _, henc, _, rfl, _, hsector, _, rfl, _, htweak, _,
      rfl, hflags⟩
    exact ⟨hmembers, htype, henc, hsector, htweak, hflags⟩
  · rintro ⟨hmembers, htype, henc, hsector, htweak, hflags⟩
    exact ⟨(), hmembers, _, htype, (), rfl, _, henc, (), rfl, _, hsector, (), rfl, _, htweak,
      (), rfl, hflags⟩

theorem segmentLength_eq_ok {offset length : Nat} (hle : offset ≤ imageLen) :
    segmentLength offset imageLen s = .ok length ↔
      s = "dynamic" ∧ length = imageLen - offset ∨ decimal s = .ok length := by
  unfold segmentLength
  rw [trapSub_ok hle]
  split
  · next hs =>
    subst hs
    rw [Outcome.ok.injEq, eq_comm, or_iff_left (decimal_dynamic length), and_iff_right rfl]
  · next hs => simp [hs]

theorem segmentExtent_accepts {offset length : Nat} :
    segmentExtent o lo imageLen = .ok (offset, length) ↔
    (Value.object o).findDec ["offset"] = some offset ∧
      ((Value.object o).findText ["size"] = some "dynamic" ∧ length = imageLen - offset ∨
        (Value.object o).findDec ["size"] = some length) ∧
      lo ≤ offset ∧ offset + length ≤ imageLen ∧ 0 < length ∧ offset % 512 = 0 ∧
      length % 512 = 0 := by
  have hsize : ∀ n, (Value.object o).findDec ["size"] = some n ↔
      ∃ s, (Value.object o).findText ["size"] = some s ∧ decimal s = .ok n := by
    intro n
    simp only [Value.findDec, Option.bind_eq_some_iff, toOption_eq_some]
  simp only [segmentExtent, bind_eq_ok, dec_eq_ok, text_eq_ok, failIf_eq_ok, hsize]
  constructor
  · rintro ⟨off, hoff, _, hrange, s, hs, len, hlen, _, hpos, room, hroom, _, hfit, hret⟩
    cases hret
    rw [trapSub_ok (by omega)] at hroom
    cases hroom
    rw [segmentLength_eq_ok (by omega)] at hlen
    refine ⟨hoff, ?_, by omega, by omega, by omega, by omega, by omega⟩
    rcases hlen with ⟨rfl, hlen⟩ | hlen
    · exact Or.inl ⟨hs, hlen⟩
    · exact Or.inr ⟨s, hs, hlen⟩
  · rintro ⟨hoff, hlen, hlo, hin, hpos, ho, hl⟩
    obtain ⟨s, hs, hlen⟩ : ∃ s, (Value.object o).findText ["size"] = some s ∧
        segmentLength offset imageLen s = .ok length := by
      rcases hlen with ⟨hs, hlen⟩ | ⟨s, hs, hlen⟩
      · exact ⟨_, hs, (segmentLength_eq_ok (by omega)).mpr (Or.inl ⟨rfl, hlen⟩)⟩
      · exact ⟨s, hs, (segmentLength_eq_ok (by omega)).mpr (Or.inr hlen)⟩
    exact ⟨offset, hoff, (), by omega, s, hs, length, hlen, (), by omega, _, trapSub_ok (by omega),
      (), by omega, rfl⟩

/-- A segment without flags has none that mentions reencryption. -/
theorem checkSegmentFlags_single {name : String} (h : NoneIn "flags" o) :
    checkSegmentFlags [(name, .object o)] = .ok () := by
  have hflags : checkReencryptFlags o = .ok () := by
    unfold checkReencryptFlags
    rcases h with h | h
    · rw [h]
    · rw [h]
      rfl
  simp [checkSegmentFlags, object, hflags]

theorem readSegment_accepts {root : Obj} {segid offset length : Nat} :
    readSegment root lo imageLen = .ok (segid, offset, length) ↔
      ∃ name seg, root.lookup "segments" = some (.object [(name, .object seg)]) ∧ IsId name segid ∧
        SegmentProfile lo imageLen offset length seg := by
  simp only [readSegment, bind_eq_ok, get_eq_ok, object_eq_ok, failIf_eq_ok,
    ofOption_eq_ok, id_eq_ok, checkSegment_accepts]
  constructor
  · rintro ⟨_, hsegs, segs, rfl, _, _, _, hone, ⟨name, _⟩, hhead, n, hname, seg, rfl, _,
      ⟨h1, h2, h3, h4, h5, h6⟩, ⟨off, len⟩, hext, hret⟩
    cases hret
    obtain ⟨h7, h8, h9, h10, h11, h12, h13⟩ := segmentExtent_accepts.mp hext
    refine ⟨name, seg, ?_, hname, ⟨h1, h2, h3, h4, h5, h6, h7, h8, h9, h10, h11, h12, h13⟩⟩
    rw [hsegs]
    cases segs with
    | nil => cases hhead
    | cons e rest =>
      cases hhead
      cases rest with
      | nil => rfl
      | cons e' rest => simp at hone
  · rintro ⟨name, seg, hsegs, hname, hp⟩
    exact ⟨_, hsegs, _, rfl, (), checkSegmentFlags_single hp.flags, (), by simp,
      (name, .object seg), rfl, segid, hname, seg, rfl,
      (), ⟨hp.members, hp.type, hp.encryption, hp.sectorSize, hp.ivTweak, hp.flags⟩,
      (offset, length),
      segmentExtent_accepts.mpr ⟨hp.begins, hp.extent, hp.behind, hp.inside, hp.nonempty,
        hp.aligned⟩, rfl⟩

/-! ### The keyslots -/

theorem findHash_eq_some {path : List String} {v : Value} {hash : Hash} :
    v.findHash path = some hash ↔
    ∃ name, v.findText path = some name ∧ Hash.parse name = .ok hash := by
  simp only [Value.findHash, Option.bind_eq_some_iff, toOption_eq_some]

theorem parseKdf_accepts : (∃ kdf, parseKdf ext o = .ok kdf) ↔ KdfProfile ext o := by
  simp only [parseKdf, bind_eq_ok, b64_eq_ok, failIf_eq_ok, text_eq_ok, not_not]
  constructor
  · rintro ⟨kdf, salt, hsalt, _, hlen, kind, hkind, h⟩
    split at h
    · next hk =>
      simp only [bind_eq_ok, only_eq_ok, text_eq_ok, bounded_eq_ok, num_eq_ok] at h
      obtain ⟨_, hmembers, name, hname, hash, hhash, n, ⟨hn, hbounds⟩, -⟩ := h
      exact .pbkdf2 hmembers (by rw [hkind, hk]) hsalt hlen
        (findHash_eq_some.mpr ⟨name, hname, hhash⟩) hn hbounds
    · split at h
      · next hk =>
        simp only [bind_eq_ok, only_eq_ok, bounded_eq_ok, num_eq_ok, failIf_eq_ok] at h
        obtain ⟨_, hmembers, memory, ⟨hm, hm0, hm1⟩, time, ⟨ht, ht0, ht1⟩, cpus, ⟨hc, hc0, hc1⟩,
          least, hleast, _, hle, -⟩ := h
        rw [trapMul_ok (by omega)] at hleast
        obtain rfl := Outcome.ok.inj hleast
        exact .argon2 hmembers hkind hk hsalt hlen hm ht hc ⟨hm0, hm1, ht0, ht1, hc0,
          hc1⟩ (by omega)
      · cases h
  · rintro (@⟨salt, hash, iterations, hmembers, htype, hsalt, hlen, hhash, hn, hbounds⟩ |
      @⟨kind, salt, memory, time, cpus, hmembers, htype, hkind, hsalt, hlen, hm, ht, hc,
        ⟨hm0, hm1, ht0, ht1, hc0, hc1⟩, hle⟩)
    · obtain ⟨name, hname, hhash⟩ := findHash_eq_some.mp hhash
      refine ⟨.pbkdf2 hash iterations salt, salt, hsalt, (), hlen, "pbkdf2", htype, ?_⟩
      simp only [if_true, bind_eq_ok, only_eq_ok, text_eq_ok, bounded_eq_ok, num_eq_ok]
      exact ⟨(), hmembers, name, hname, _, hhash, _, ⟨hn, hbounds⟩, rfl⟩
    · refine ⟨.argon2 (kind = "argon2id") memory time cpus salt, salt, hsalt, (), hlen,
        kind, htype, ?_⟩
      have hne : kind ≠ "pbkdf2" := by
        rcases hkind with rfl | rfl <;> decide
      rw [if_neg hne, if_pos hkind]
      simp only [bind_eq_ok, only_eq_ok, bounded_eq_ok, num_eq_ok, failIf_eq_ok]
      exact ⟨(), hmembers, _, ⟨hm, hm0, hm1⟩, _, ⟨ht, ht0, ht1⟩, _, ⟨hc, hc0, hc1⟩, _,
        trapMul_ok (by omega), (),
        by omega, rfl⟩

theorem readAfKdf_accepts : (∃ r, readAfKdf ext o = .ok r) ↔
    (∃ af, o.lookup "af" = some (.object af) ∧ AfProfile af) ∧
      ∃ kdf, o.lookup "kdf" = some (.object kdf) ∧ KdfProfile ext kdf := by
  simp only [readAfKdf, bind_eq_ok, get_eq_ok, object_eq_ok, only_eq_ok, text_eq_ok, num_eq_ok,
    failIf_eq_ok, not_not]
  constructor
  · rintro ⟨_, _, haf, af, rfl, _, hmembers, _, htype, _, rfl, _, hstripes, _, rfl, _, hkdf, kdf,
      rfl, _, hparse, name, hname, hash, hhash, -⟩
    exact ⟨⟨af, haf, hmembers, htype, hstripes, hash, findHash_eq_some.mpr ⟨name, hname, hhash⟩⟩,
      kdf, hkdf, parseKdf_accepts.mp ⟨_, hparse⟩⟩
  · rintro ⟨⟨af, haf, hp⟩, kdf, hkdf, hparse⟩
    obtain ⟨hash, hhash⟩ := hp.hash
    obtain ⟨name, hname, hhash⟩ := findHash_eq_some.mp hhash
    obtain ⟨k, hparse⟩ := parseKdf_accepts.mpr hparse
    exact ⟨_, _, haf, af, rfl, (), hp.members, _, hp.type, (), rfl, _, hp.stripes, (), rfl, _, hkdf,
      kdf, rfl, k, hparse, name, hname, hash, hhash, rfl⟩

theorem readArea_accepts (hhi : hi < 2 ^ 64) {ranges : List (Region Nat)} {a : Area} :
    (∃ n, readArea lo hi ranges o = .ok (a.keySize, n, a.region)) ↔
      (Value.object o).findNum ["key_size"] = some a.keySize ∧ (a.keySize = 32 ∨ a.keySize = 64) ∧
      (∃ area, o.lookup "area" = some (.object area) ∧ AreaProfile a area) ∧ a.Fits lo hi ∧
      ∀ r ∈ ranges, a.region.Apart r := by
  simp only [readArea, bind_eq_ok, num_eq_ok, get_eq_ok, object_eq_ok, only_eq_ok, text_eq_ok,
    dec_eq_ok, failIf_eq_ok, ofOption_eq_ok, checkedAdd_eq_some, not_not]
  constructor
  · rintro ⟨_, keySize, hkey, _, harea, area, rfl, _, hmembers, n, hn, _, hsizes, _, htype, _, rfl,
      _, henc, _, rfl, start, hstart, size, hsize, stop, ⟨hsum, rfl⟩, _, hmost, least, hleast, _,
      hplace, _, hapart, hret⟩
    simp only [Outcome.ok.injEq, Prod.mk.injEq] at hret
    obtain ⟨rfl, -, hregion⟩ := hret
    rw [trapMul_ok (by omega)] at hleast
    obtain rfl := Outcome.ok.inj hleast
    refine ⟨hkey, by omega, ⟨area, harea, hmembers, htype, henc,
      ⟨n, hn, by omega⟩, by rw [← hregion]; exact hstart,
      size, hsize, by rw [← hregion], by omega, by omega⟩, ⟨?_, ?_, ?_⟩, fun r hr => ?_⟩
    · rw [← hregion]
      exact ⟨by show lo ≤ start; omega, by show start + size ≤ hi; omega⟩
    · rw [← hregion]
      show start % 4096 = 0
      omega
    · rw [← hregion]
      show start + a.keySize * 4000 ≤ start + size
      omega
    · rw [← hregion]
      exact Region.apart_of_no_overlap fun h => hapart ⟨r, hr, h⟩
  · rintro ⟨hkey, hsupported, ⟨area, harea, hp⟩, hfits, hapart⟩
    obtain ⟨n, hn, hn'⟩ := hp.keySize
    obtain ⟨size, hsize, hstop, hmost, haligned⟩ := hp.size
    have hlo := hfits.within.1
    have hup := hfits.within.2
    have hal := hfits.aligned
    have hholds := hfits.holds
    simp only at hlo hup
    refine ⟨n, _, hkey, _, harea, area, rfl, (), hp.members, n, hn, (), by omega, _, hp.type,
      (), rfl, _, hp.encryption,
      (), rfl, _, hp.offset, size, hsize, a.region.stop, ⟨by omega, hstop.symm⟩,
      (), by omega, _, trapMul_ok (by omega),
      (), by omega, (), ?_, rfl⟩
    rintro ⟨r, hr, h1, h2⟩
    rcases hapart r hr with h | h <;> omega

theorem checkPriority_eq_ok {u : Unit} : checkPriority o = .ok u ↔
    o.lookup "priority" = none ∨ ∃ n ≤ 2, (Value.object o).findNum ["priority"] = some n := by
  unfold checkPriority
  cases hp : o.lookup "priority" with
  | none => simp
  | some p =>
    simp only [bind_eq_ok, ofOption_eq_ok, failIf_eq_ok, Nat.not_lt, reduceCtorEq, false_or]
    simp [Value.findNum, hp, and_comm]

theorem checkKeyslotType_accepts {u : Unit} : checkKeyslotType o = .ok u ↔
    Members ["type", "key_size", "area", "kdf", "af", "priority"] o ∧
      (Value.object o).findText ["type"] = some "luks2" ∧
      (o.lookup "priority" = none ∨ ∃ n ≤ 2, (Value.object o).findNum ["priority"] = some n) := by
  simp only [checkKeyslotType, bind_eq_ok, text_eq_ok, only_eq_ok, failIf_eq_ok,
    checkPriority_eq_ok, not_not]
  constructor
  · rintro ⟨_, htype, _, _, _, hmembers, _, rfl, hpriority⟩
    exact ⟨hmembers, htype, hpriority⟩
  · rintro ⟨hmembers, htype, hpriority⟩
    exact ⟨_, htype, (), by decide, (), hmembers, (), rfl, hpriority⟩

/-- One round of the loop over the keyslots. -/
theorem readKeyslot_accepts (hhi : hi < 2 ^ 64) {st : Keyslots} {v : Value}
    {ranges : List (Region Nat)} :
    (∃ st', readKeyslot ext lo hi st k v = .ok st' ∧ st'.ranges = ranges) ↔
      ∃ a, KeyslotEntry ext lo hi (k, v) a ∧ ranges = st.ranges ++ [a.region] ∧
      ∀ r ∈ st.ranges, a.region.Apart r := by
  simp only [readKeyslot, bind_eq_ok, id_eq_ok, object_eq_ok, checkKeyslotType_accepts]
  constructor
  · rintro ⟨st', ⟨n, hid, o, rfl, _, ⟨hmembers, htype, hpriority⟩, ⟨keySize, m, region⟩, hr,
      ⟨afHash, kdf⟩, hkdf, hret⟩, rfl⟩
    obtain ⟨hkey, hsupported, harea, hfits, hapart⟩ :=
      (readArea_accepts (a := ⟨keySize, region⟩) hhi).mp ⟨m, hr⟩
    obtain ⟨haf, hkdf⟩ := readAfKdf_accepts.mp ⟨_, hkdf⟩
    cases hret
    exact ⟨⟨keySize, region⟩, ⟨⟨n, hid⟩, o, rfl, hmembers, htype, hpriority, hkey, hsupported,
      harea, hfits, haf, hkdf⟩, rfl, hapart⟩
  · rintro ⟨a, ⟨⟨n, hid⟩, o, rfl, hp⟩, rfl, hapart⟩
    obtain ⟨m, hr⟩ := (readArea_accepts (a := a) hhi).mpr ⟨hp.keySize, hp.supported, hp.area,
      hp.fits, hapart⟩
    obtain ⟨⟨afHash, kdf⟩, hkdf⟩ := readAfKdf_accepts.mpr ⟨hp.af, hp.kdf⟩
    exact ⟨_, ⟨n, hid, o, rfl, (), ⟨hp.members, hp.type, hp.priority⟩, _, hr, _, hkdf, rfl⟩, rfl⟩

/-- **The keyslots.** -/
theorem readKeyslots_accepts (hhi : hi < 2 ^ 64) {keys : Obj} {st : Keyslots} :
    (∃ st', readKeyslots ext lo hi keys st = .ok st') ↔
    ∃ areas, List.Forall₂ (KeyslotEntry ext lo hi) keys areas ∧
      areas.Pairwise (fun a b => a.region.Apart b.region) ∧
      ∀ a ∈ areas, ∀ r ∈ st.ranges, a.region.Apart r := by
  induction keys generalizing st with
  | nil => simp [readKeyslots]
  | cons e keys ih =>
    obtain ⟨k, v⟩ := e
    simp only [readKeyslots, bind_eq_ok]
    constructor
    · rintro ⟨st', st₁, h₁, hrest⟩
      obtain ⟨a, ha, hranges, hapart⟩ := (readKeyslot_accepts hhi).mp ⟨st₁, h₁, rfl⟩
      obtain ⟨areas, hareas, hpairs, hst⟩ := ih.mp ⟨st', hrest⟩
      rw [hranges] at hst
      refine ⟨a :: areas, .cons ha hareas, List.pairwise_cons.mpr ⟨fun b hb => ?_, hpairs⟩, ?_⟩
      · exact (hst b hb a.region (by simp)).symm
      · intro b hb r hr
        rcases List.mem_cons.mp hb with rfl | hb
        · exact hapart r hr
        · exact hst b hb r (by simp [hr])
    · rintro ⟨areas, hareas, hpairs, hst⟩
      cases hareas with
      | @cons _ a _ areas ha hareas =>
        obtain ⟨hfirst, hpairs⟩ := List.pairwise_cons.mp hpairs
        obtain ⟨st₁, h₁, hranges⟩ := (readKeyslot_accepts hhi).mpr ⟨a, ha, rfl,
          hst a List.mem_cons_self⟩
        obtain ⟨st', hrest⟩ := (@ih st₁).mpr ⟨areas, hareas, hpairs, fun b hb r hr => by
          rw [hranges] at hr
          rcases List.mem_append.mp hr with hr | hr
          · exact hst b (List.mem_cons_of_mem _ hb) r hr
          · obtain rfl := List.mem_singleton.mp hr
            exact (hfirst b hb).symm⟩
        exact ⟨st', st₁, h₁, hrest⟩

/-- The keyslots that were read are the ones that have an entry. -/
theorem readKeyslots_names {keys : Obj} {st st' : Keyslots}
    (h : readKeyslots ext lo hi keys st = .ok st') (n : Nat) :
    (st'.parsed.lookup n).isSome ↔ (st.parsed.lookup n).isSome ∨
    ∃ e ∈ keys, decimal e.1 = .ok n := by
  induction keys generalizing st with
  | nil =>
    cases h
    simp
  | cons e keys ih =>
    obtain ⟨k, v⟩ := e
    rw [readKeyslots, bind_eq_ok] at h
    obtain ⟨st₁, h₁, hrest⟩ := h
    obtain ⟨m, p, -, hm, -, -, -, -, -, hparsed⟩ := readKeyslot_parsed h₁
    rw [ih hrest, hparsed, lookup_insertKey]
    by_cases hnm : n = m
    · subst hnm
      simp [hm]
    · have hne : ¬ decimal k = .ok n := fun hn => hnm (Outcome.ok.inj (hn.symm.trans hm))
      simp [hnm, hne]

theorem checkTokens_accepts {tokens : Obj} {u : Unit} : checkTokens tokens = .ok u ↔
    ∀ e ∈ tokens, (∃ n, IsId e.1 n) ∧ ∃ o, e.2 = .object o := by
  induction tokens with
  | nil => simp [checkTokens]
  | cons e tokens ih =>
    obtain ⟨t, v⟩ := e
    simp only [checkTokens, bind_eq_ok, id_eq_ok, object_eq_ok, List.forall_mem_cons, ← ih]
    constructor
    · rintro ⟨n, hid, o, ho, hrest⟩
      exact ⟨⟨⟨n, hid⟩, o, ho⟩, hrest⟩
    · rintro ⟨⟨⟨n, hid⟩, o, ho⟩, hrest⟩
      exact ⟨n, hid, o, ho, hrest⟩

/-! ### The digests -/

theorem idsFrom_accepts {max : Nat} {xs : List Value} {out res : List Nat} :
    idsFrom max xs out = .ok res ↔
    ∃ ns, xs.mapM (fun x => x.asStr.bind fun s => (decimal s).toOption) = some ns ∧
      res = out ++ ns ∧ ns.Nodup ∧ ∀ n ∈ ns, n ∉ out ∧ n ≤ max := by
  induction xs generalizing out with
  | nil => simp [idsFrom, eq_comm]
  | cons x xs ih =>
    simp only [idsFrom, bind_eq_ok, ofOption_eq_ok, id_eq_ok, failIf_eq_ok, ih, List.mapM_cons,
      Option.bind_eq_bind, Option.bind_eq_some_iff, toOption_eq_some, Option.pure_def,
      Option.some.injEq]
    constructor
    · rintro ⟨s, hs, n, ⟨hn, hle⟩, _, hnew, ns, hns, rfl, hnodup, hall⟩
      refine ⟨n :: ns, ⟨n, ⟨s, hs, hn⟩, ns, hns, rfl⟩, by simp,
        List.nodup_cons.mpr ⟨fun hmem => ?_, hnodup⟩, ?_⟩
      · exact (hall n hmem).1 (by simp)
      · intro m hm
        rcases List.mem_cons.mp hm with rfl | hm
        · exact ⟨hnew, hle⟩
        · exact ⟨fun ho => (hall m hm).1 (by simp [ho]), (hall m hm).2⟩
    · rintro ⟨_, ⟨n, ⟨s, hs, hn⟩, ns, hns, rfl⟩, rfl, hnodup, hall⟩
      obtain ⟨hnot, hnodup⟩ := List.nodup_cons.mp hnodup
      obtain ⟨hnew, hle⟩ := hall n List.mem_cons_self
      refine ⟨s, hs, n, ⟨hn, hle⟩, (), hnew, ns, hns, by simp, hnodup, fun m hm => ?_⟩
      obtain ⟨ho, hle⟩ := hall m (List.mem_cons_of_mem _ hm)
      refine ⟨fun hmem => ?_, hle⟩
      rcases List.mem_append.mp hmem with hmem | hmem
      · exact ho hmem
      · obtain rfl := List.mem_singleton.mp hmem
        exact hnot hm

theorem ids_accepts {max : Nat} {ns : List Nat} : ids o k max = .ok ns ↔
    (Value.object o).findIds [k] = some ns ∧ ns.Nodup ∧ ∀ n ∈ ns, n ≤ max := by
  simp only [ids, bind_eq_ok, get_eq_ok, ofOption_eq_ok, idsFrom_accepts, List.nil_append,
    List.not_mem_nil, not_false_eq_true, true_and]
  constructor
  · rintro ⟨v, hv, xs, hxs, _, hns, rfl, hnodup, hall⟩
    exact ⟨by simp [Value.findIds, hv, hxs, hns], hnodup, hall⟩
  · rintro ⟨hns, hnodup, hall⟩
    simp only [Value.findIds, Value.find_cons, Value.find_nil, Value.asObject_object,
      Option.bind_some, Option.bind_eq_bind, Option.bind_eq_some_iff] at hns
    obtain ⟨v, ⟨w, hw, hwv⟩, xs, hxs, hns⟩ := hns
    obtain rfl := Option.some.inj hwv
    exact ⟨w, hw, xs, hxs, ns, hns, rfl, hnodup, hall⟩

/-- The keyslots of a digest are there, and have none yet if they get this one. -/
theorem bindKeyslots_accepts {parsed : List (Nat × Keyslot)} {ds : List Nat} {kdf : Kdf}
    {digest : Bytes} {ks : List Nat} (hks : ks.Nodup) {slots : List (Nat × Slot)} :
    (∃ slots', bindKeyslots parsed ds kdf digest ks slots = .ok slots') ↔
      (∀ k ∈ ks, (parsed.lookup k).isSome) ∧ (ds ≠ [] → ∀ k ∈ ks, slots.lookup k = none) := by
  induction ks generalizing slots with
  | nil => simp [bindKeyslots]
  | cons k ks ih =>
    obtain ⟨hk, hks⟩ := List.nodup_cons.mp hks
    cases hp : parsed.lookup k with
    | none =>
      simp only [bindKeyslots, hp, ofOption_none, err_bind, List.forall_mem_cons,
        Option.isSome_none, Bool.false_eq_true, false_and, reduceCtorEq, exists_false]
    | some p =>
      by_cases hds : ds = []
      · have := @ih hks slots
        simp only [bindKeyslots, hp, ofOption_some, ok_bind, if_pos hds, this, List.forall_mem_cons,
          Option.isSome_some, true_and]
        simp [hds]
      · cases hs : slots.lookup k with
        | some s =>
          simp only [bindKeyslots, hp, ofOption_some, ok_bind, if_false, hs, Option.isSome_some,
            failIf_pos, err_bind, List.forall_mem_cons, reduceCtorEq, exists_false, false_and,
            ne_eq, hds, not_false_eq_true, forall_const,
            and_false]
        | none =>
          have hsame : (∀ k' ∈ ks, (insertKey k (p.bind kdf digest) slots).lookup k' = none) ↔
              ∀ k' ∈ ks, slots.lookup k' = none :=
            forall₂_congr fun k' hk' => by rw [lookup_insertKey_of_ne (ne_of_mem_of_not_mem hk' hk)]
          have := @ih hks (insertKey k (p.bind kdf digest) slots)
          simp only [bindKeyslots, hp, ofOption_some, ok_bind, if_neg hds, hs, Option.isSome_none,
            Bool.false_eq_true, not_false_eq_true, failIf_neg, this, hsame, List.forall_mem_cons,
            Option.isSome_some, true_and]

/-- Which keyslots have a digest after it. -/
theorem bindKeyslots_none {parsed : List (Nat × Keyslot)} {ds : List Nat} {kdf : Kdf}
    {digest : Bytes} {ks : List Nat} {slots slots' : List (Nat × Slot)}
    (h : bindKeyslots parsed ds kdf digest ks slots = .ok slots') (k : Nat) :
    slots'.lookup k = none ↔ slots.lookup k = none ∧ (ds ≠ [] → k ∉ ks) := by
  by_cases hds : ds = []
  · subst hds
    rw [bindKeyslots_nil h]
    simp
  · obtain ⟨hnew, hall⟩ := bindKeyslots_lookup hds h
    rw [hall k]
    split
    · next hk =>
      obtain ⟨p, hp⟩ := Option.isSome_iff_exists.mp (hnew k hk).2
      simp [hp, hds, hk]
    · next hk => simp [hk]

variable {segid : Nat} {keys : Obj}

/-- One round of the loop over the digests. -/
theorem readDigest_accepts {parsed : List (Nat × Keyslot)} {slots : List (Nat × Slot)}
    {d : String} {v : Value} (hparsed : ∀ n, (parsed.lookup n).isSome ↔
      ∃ e ∈ keys, decimal e.1 = .ok n) :
    (∃ slots', readDigest ext segid parsed slots d v = .ok slots') ↔
      ∃ D, DigestEntry ext segid keys (d, v) D ∧
      (D.segments ≠ [] → ∀ n ∈ D.keyslots, slots.lookup n = none) := by
  simp only [readDigest, bind_eq_ok, id_eq_ok, object_eq_ok, only_eq_ok, text_eq_ok, b64_eq_ok,
    failIf_eq_ok, bounded_eq_ok, num_eq_ok, ids_accepts, not_not]
  constructor
  · rintro ⟨slots', n, hid, o, rfl, _, hmembers, _, htype, _, rfl, value, hvalue, salt, hsalt, name,
      hname, hash, hhash, _, hlens, iterations, ⟨hit, hbounds⟩, ds, ⟨hds, hdn, hdle⟩, _, hseg, ks,
      ⟨hks, hkn, hkle⟩, hbind⟩
    obtain ⟨hthere, hnone⟩ := (bindKeyslots_accepts hkn).mp ⟨slots', hbind⟩
    refine ⟨⟨hash, iterations, salt, value, ks, ds⟩, ⟨⟨n, hid⟩, o, rfl, hmembers, htype, ?_,
      ⟨⟨hbounds.1, hbounds.2, ?_⟩, ?_⟩, ⟨hdn, fun m hm => ⟨hdle m hm, ?_⟩⟩, hkn,
      fun m hm => ⟨hkle m hm, ?_⟩⟩, hnone⟩
    · simp only [digestOf, hash_eq_some hname hhash, hit, hsalt, hvalue, hks, hds,
        Option.bind_eq_bind, Option.bind_some]
    · show salt.length = 32
      omega
    · show value.length = 20 ∨ value.length = hash.size
      omega
    · by_contra hne
      exact hseg ⟨m, hm, hne⟩
    · exact (hparsed m).mp (hthere m hm)
  · rintro ⟨D, ⟨⟨n, hid⟩, o, rfl, hp⟩, hnone⟩
    have hD := hp.parameters
    simp only [digestOf, Option.bind_eq_bind, Option.bind_eq_some_iff] at hD
    obtain ⟨hash, hhash, iterations, hit, salt, hsalt, value, hvalue, ks, hks, ds, hds, hD⟩ := hD
    obtain rfl := Option.some.inj hD
    obtain ⟨name, hname, hhash⟩ := findHash_eq_some.mp hhash
    obtain ⟨⟨hpos, hmost, hsaltlen⟩, hlen⟩ := hp.valid
    obtain ⟨hdn, hdall⟩ := hp.segments
    obtain ⟨hkn, hkall⟩ := hp.keyslots
    obtain ⟨slots', hbind⟩ :
        ∃ slots', bindKeyslots parsed ds (.pbkdf2 hash iterations salt) value ks slots =
        .ok slots' :=
      (bindKeyslots_accepts hkn).mpr ⟨fun m hm => (hparsed m).mpr (hkall m hm).2, hnone⟩
    refine ⟨slots', n, hid, o, rfl, (), hp.members, _, hp.type, (), rfl, value, hvalue, salt, hsalt,
      name, hname, hash,
      hhash, (), ?_, iterations, ⟨hit, hpos, hmost⟩, ds, ⟨hds, hdn, fun m hm => (hdall m hm).1⟩,
      (), ?_, ks,
      ⟨hks, hkn, fun m hm => (hkall m hm).1⟩, hbind⟩
    · have h1 : salt.length = 32 := hsaltlen
      have h2 : value.length = 20 ∨ value.length = hash.size := hlen
      omega
    · rintro ⟨m, hm, hne⟩
      exact hne (hdall m hm).2

/-- What a digest binds has one from then on. -/
theorem readDigest_none {parsed : List (Nat × Keyslot)} {slots slots' : List (Nat × Slot)}
    {d : String} {v : Value} {D : Digest} (hD : DigestEntry ext segid keys (d, v) D)
    (h : readDigest ext segid parsed slots d v = .ok slots') (n : Nat) :
    slots'.lookup n = none ↔ slots.lookup n = none ∧ (D.segments ≠ [] → n ∉ D.keyslots) := by
  obtain ⟨-, o, hv, hp⟩ := hD
  obtain ⟨D', hD', -, -, hbind⟩ := readDigest_ok h
  have hv : v = .object o := hv
  rw [hv, hp.parameters] at hD'
  obtain rfl := Option.some.inj hD'
  exact bindKeyslots_none hbind n

/-- **The digests.** -/
theorem readDigests_accepts {parsed : List (Nat × Keyslot)} {digests : Obj}
    {slots : List (Nat × Slot)} (hparsed : ∀ n, (parsed.lookup n).isSome ↔
      ∃ e ∈ keys, decimal e.1 = .ok n) :
    (∃ slots', readDigests ext segid parsed digests slots = .ok slots') ↔
      ∃ Ds, List.Forall₂ (DigestEntry ext segid keys) digests Ds ∧ Ds.Pairwise BindApart ∧
        ∀ D ∈ Ds, D.segments ≠ [] → ∀ n ∈ D.keyslots, slots.lookup n = none := by
  induction digests generalizing slots with
  | nil => simp [readDigests]
  | cons e digests ih =>
    obtain ⟨d, v⟩ := e
    simp only [readDigests, bind_eq_ok]
    constructor
    · rintro ⟨slots', slots₁, h₁, hrest⟩
      obtain ⟨D, hD, hnone⟩ := (readDigest_accepts hparsed).mp ⟨slots₁, h₁⟩
      obtain ⟨Ds, hDs, hpairs, hall⟩ := ih.mp ⟨slots', hrest⟩
      have hafter := readDigest_none hD h₁
      refine ⟨D :: Ds, .cons hD hDs,
        List.pairwise_cons.mpr ⟨fun D' hD' hs hs' n hn hn' => ?_, hpairs⟩, ?_⟩
      · exact ((hafter n).mp (hall D' hD' hs' n hn')).2 hs hn
      · intro D' hD' hs n hn
        rcases List.mem_cons.mp hD' with rfl | hD'
        · exact hnone hs n hn
        · exact ((hafter n).mp (hall D' hD' hs n hn)).1
    · rintro ⟨_, hDs, hpairs, hall⟩
      cases hDs with
      | @cons _ D _ Ds hD hDs =>
        obtain ⟨hfirst, hpairs⟩ := List.pairwise_cons.mp hpairs
        obtain ⟨slots₁, h₁⟩ := (readDigest_accepts hparsed).mpr ⟨D, hD, hall D List.mem_cons_self⟩
        have hafter := readDigest_none hD h₁
        obtain ⟨slots', hrest⟩ := (@ih slots₁).mpr ⟨Ds, hDs, hpairs, fun D' hD' hs' n hn' =>
          (hafter n).mpr ⟨hall D' (List.mem_cons_of_mem _ hD') hs' n hn',
            fun hs hn => hfirst D' hD' hs hs' n hn hn'⟩⟩
        exact ⟨slots', slots₁, h₁, hrest⟩

/-! ## The document -/

/-- **What is accepted is what is of the profile**, with the payload it declares. -/
theorem fromJson_accepts (hh : HeaderSize h) {v : Value} {offset length : Nat} :
    (∃ slots, fromJson ext v h imageLen = .ok ⟨offset, length, slots⟩) ↔
    Accepted ext h imageLen offset length v := by
  have hmost := hh.most
  simp only [fromJson, bind_eq_ok, object_eq_ok, only_eq_ok, get_eq_ok, failIf_eq_ok, Nat.not_lt,
    checkTokens_accepts]
  constructor
  · rintro ⟨slots, root, rfl, _, hmembers, ⟨lo, hi⟩, hconfig, ⟨segid, offset', length'⟩, hsegment,
      _, hks, keys, rfl, _, hkn, st, hst, _, htok, tokens, rfl, _, htn, _, htokens, _, hds, digests,
      rfl, _, hdn, slots', hslots, hret⟩
    obtain ⟨size, config, hc, hprofile, rfl, rfl⟩ := (readConfig_accepts hh).mp hconfig
    have hsize := hprofile.most
    obtain ⟨areas, hareas, hpairs, -⟩ := (readKeyslots_accepts (by omega)).mp ⟨st, hst⟩
    have hparsed : ∀ n, (st.parsed.lookup n).isSome ↔ ∃ e ∈ keys, decimal e.1 = .ok n := fun n => by
      simpa using readKeyslots_names hst n
    obtain ⟨Ds, hDs, hapart, -⟩ := (readDigests_accepts hparsed).mp ⟨slots', hslots⟩
    cases hret
    exact ⟨size, segid, keys, root, rfl, hmembers, ⟨config, hc, hprofile⟩,
      readSegment_accepts.mp hsegment, ⟨hks, hkn⟩, ⟨areas, hareas, hpairs⟩,
      ⟨tokens, htok, htn, htokens⟩, digests, Ds, hds, hdn, hDs, hapart⟩
  · rintro ⟨size, segid, keys, root, rfl, hp⟩
    obtain ⟨config, hc, hprofile⟩ := hp.config
    have hsize := hprofile.most
    obtain ⟨hks, hkn⟩ := hp.keyslots
    obtain ⟨areas, hareas, hpairs⟩ := hp.areas
    obtain ⟨tokens, htok, htn, htokens⟩ := hp.tokens
    obtain ⟨digests, Ds, hds, hdn, hDs, hapart⟩ := hp.digests
    obtain ⟨st, hst⟩ : ∃ st, readKeyslots ext (2 * h) (2 * h + size) keys ⟨[], []⟩ = .ok st :=
      (readKeyslots_accepts (by omega)).mpr ⟨areas, hareas, hpairs, by simp⟩
    have hparsed : ∀ n, (st.parsed.lookup n).isSome ↔ ∃ e ∈ keys, decimal e.1 = .ok n := fun n => by
      simpa using readKeyslots_names hst n
    obtain ⟨slots, hslots⟩ : ∃ slots, readDigests ext segid st.parsed digests [] = .ok slots :=
      (readDigests_accepts hparsed).mpr ⟨Ds, hDs, hapart, by simp⟩
    exact ⟨slots, root, rfl, (), hp.members, _,
      (readConfig_accepts hh).mpr ⟨size, config, hc, hprofile, rfl, rfl⟩, _,
      readSegment_accepts.mpr hp.segment, _, hks, keys, rfl, (), hkn, st, hst, _, htok, tokens, rfl,
      (), htn, (),
      htokens, _, hds, digests, rfl, (), hdn, slots, hslots, rfl⟩

/-! ## The image -/

/-- Two copies that say the same, and a document of the profile. -/
def LuksImage (prim : Primitives) (ext : Parsers) (f : Store) (len offset length : Nat) : Prop :=
  ∃ H, CopyProfile prim ext f len 0 H ∧ CopyProfile prim ext f len H.size H ∧
    Accepted ext H.size len offset length H.json

variable {prim : Primitives} {f : Store} {len off offset length : Nat} {H : Header}

theorem readOf_accepts : (∃ slots, readOf prim ext f len = .ok ⟨offset, length, slots⟩) ↔
    LuksImage prim ext f len offset length := by
  constructor
  · rintro ⟨slots, h⟩
    obtain ⟨a, b, ha, hb, h1, h2, h3, h4, h5, h6, hm⟩ := readOf_ok h
    obtain rfl : a = b := by
      cases a
      cases b
      cases h1
      cases h2
      cases h3
      cases h4
      cases h5
      cases h6
      rfl
    exact ⟨a, headerOf_accepts.mp ha, headerOf_accepts.mp hb,
      (fromJson_accepts (headerOf_size ha).1).mp ⟨slots, hm⟩⟩
  · rintro ⟨H, ha, hb, hdoc⟩
    have ha := headerOf_accepts.mpr ha
    have hb := headerOf_accepts.mpr hb
    obtain ⟨slots, hm⟩ := (fromJson_accepts (headerOf_size ha).1).mpr hdoc
    have hagree : copiesAgree H H = .ok () := by simp [copiesAgree]
    refine ⟨slots, ?_⟩
    simp only [readOf, bind_eq_ok]
    exact ⟨H, ha, H, hb, (), hagree, hm⟩

/-- **Reading the metadata.**  On any backend it only looks at the file; what it returns is the
payload of an image of the profile; and unless a call goes wrong it returns, with that payload for
every such image. -/
theorem read_accepts (prim : Primitives) (ext : Parsers) (img : Image) (d : Disk) :
    let answer := read prim ext img d
    ∃ new, answer.2.file = d.file ∧ answer.2.calls = d.calls ++ new ∧
      (∀ c ∈ new, c.mutates = false) ∧
      (∀ m, answer.1 = .ok m → LuksImage prim ext d.file.data img.len m.offset m.length) ∧
      ((∀ c ∈ new, c.Good img.len) → answer.1.Returns ∧
        ∀ offset length, LuksImage prim ext d.file.data img.len offset length →
          ∃ slots, answer.1 = .ok ⟨offset, length, slots⟩) := by
  intro answer
  obtain ⟨new, hfile, hcalls, hstill, hgood, hok⟩ := computes_read prim ext img d.file d rfl
  refine ⟨new, hfile, hcalls, hstill, fun m hm => ?_, fun hnew => ?_⟩
  · have hread : readOf prim ext d.file.data img.len = .ok m := (hgood (hok m hm)).symm.trans hm
    exact readOf_accepts.mp ⟨m.slots, hread⟩
  · have hanswer : answer.1 = readOf prim ext d.file.data img.len := hgood hnew
    rw [hanswer]
    exact ⟨returns_readOf, fun offset length h => readOf_accepts.mpr h⟩

/-- The small image is of the profile. -/
theorem read_accepts_sample :
    LuksImage Sample.prim Sample.parsers (Sample.store 1 Sample.body) Sample.imageLen 163840
      131072 := by
  obtain ⟨d', hread⟩ := Sample.read_store (by decide : 1 < 2 ^ 64) Sample.body .readOnly
  obtain ⟨new, -, -, -, hok, -⟩ := read_accepts Sample.prim Sample.parsers (Sample.image .readOnly)
    (Sample.disk (Sample.store 1 Sample.body))
  exact hok Sample.metadata (congrArg Prod.fst hread)

end Metadata

end Winluks
