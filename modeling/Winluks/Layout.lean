import Mathlib.Data.Nat.Basic
import Winluks.Profile

/-!
# Layout of accepted metadata

`fromJson` is read section by section: what each section guarantees when it
succeeds, and that none of its `u64` operations unwinds.  The loop over the
keyslots carries `Placed`: the areas read so far lie inside the keyslots area
and are pairwise apart.

The main result is `fromJson_layout`: whatever the JSON says, metadata that is
accepted puts the two header copies, every keyslot area and the payload at
pairwise disjoint places of the image, and no input makes the parser unwind.
-/

namespace Winluks

open Lib Outcome

/-- A header size that `header` lets through. -/
structure HeaderSize (h : Nat) : Prop where
  least : 16 * 1024 ≤ h
  most : h ≤ 4 * 1024 * 1024
  power : ∃ k, h = 2 ^ k

/-- An area between `lo` and `hi`, aligned and large enough for its 4000 stripes. -/
structure Area.Fits (lo hi : Nat) (a : Area) : Prop where
  within : a.region.Within ⟨lo, hi⟩
  aligned : a.region.start % 4096 = 0
  holds : a.region.start + a.keySize * 4000 ≤ a.region.stop

/-- Where everything of an image lies: header size `h`, `size` bytes of keyslot areas. -/
structure Layout (h size imageLen : Nat) (areas : List Area) (m : Metadata) : Prop where
  areas_fit : ∀ a ∈ areas, a.Fits (2 * h) (2 * h + size)
  areas_before : 2 * h + size ≤ m.offset
  payload_inside : m.offset + m.length ≤ imageLen
  payload_nonempty : 0 < m.length
  offset_aligned : m.offset % 512 = 0
  length_aligned : m.length % 512 = 0
  apart : List.Pairwise Region.Apart
    (⟨0, h⟩ :: ⟨h, 2 * h⟩ :: areas.map Area.region ++ [⟨m.offset, m.offset + m.length⟩])

namespace Layout

variable {h size imageLen : Nat} {areas : List Area} {m : Metadata}

theorem headers_before (l : Layout h size imageLen areas m) : 2 * h ≤ m.offset := by
  have := l.areas_before
  omega

/-- Everything of the layout lies inside the image. -/
theorem inside (l : Layout h size imageLen areas m) :
    ∀ r ∈ (⟨0, h⟩ :: ⟨h, 2 * h⟩ :: areas.map Area.region ++ [⟨m.offset, m.offset + m.length⟩] :
      List (Region Nat)),
      r.Within ⟨0, imageLen⟩ := by
  have hb := l.areas_before
  have hp := l.payload_inside
  intro r hr
  simp only [List.cons_append, List.mem_cons, List.mem_append, List.not_mem_nil, or_false] at hr
  rcases hr with rfl | rfl | hr | rfl
  · exact ⟨Nat.zero_le _, by show h ≤ imageLen; omega⟩
  · exact ⟨Nat.zero_le _, by show 2 * h ≤ imageLen; omega⟩
  · obtain ⟨a, ha, rfl⟩ := List.mem_map.mp hr
    have hw : a.region.stop ≤ 2 * h + size := (l.areas_fit a ha).within.2
    exact ⟨Nat.zero_le _, by show a.region.stop ≤ imageLen; omega⟩
  · exact ⟨Nat.zero_le _, hp⟩

end Layout

namespace Metadata

variable {ext : Parsers} {root o : Obj} {v : Value} {k : String} {hdr imageLen aS aE : Nat}

/-! ## The config section -/

@[simp] theorem errs_noFlags (o : Obj) : (noFlags o).ErrsIn JsonError := by
  unfold noFlags
  split <;> simp [errs_bind]

@[simp] theorem errs_noReencrypt (xs : List Value) : (noReencrypt xs).ErrsIn JsonError := by
  induction xs with
  | nil => trivial
  | cons x xs ih => simp [noReencrypt, errs_bind, ih]

@[simp] theorem errs_checkRequirements (o : Obj) : (checkRequirements o).ErrsIn JsonError := by
  unfold checkRequirements
  split
  · simp
  · simp only [errs_bind, errs_object, errs_only, true_and]
    intro r _ _ _
    split <;> simp [errs_bind]

/-- The keyslots area begins after the two header copies. -/
theorem readConfig_ok (h : readConfig root hdr = .ok (aS, aE)) :
    ∃ size, (Value.object root).findDec ["config", "keyslots_size"] = some size ∧
      aS = 2 * hdr ∧ aE = 2 * hdr + size := by
  simp only [readConfig, bind_eq_ok, get_eq_ok, object_eq_ok, dec_eq_ok, failIf_eq_ok,
    ofOption_eq_ok, checkedMul_eq_some, checkedAdd_eq_some] at h
  obtain ⟨_, hc, config, rfl, _, _, _, _, _, _, _, _, _, _, _, _, size, hs, _, _, start, ⟨_, rfl⟩,
    stop, ⟨_, rfl⟩, hret⟩ := h
  cases hret
  have hfind : (Value.object root).findDec ["config", "keyslots_size"] = some size := by
    simpa [Value.findDec, Value.findText, hc] using hs
  exact ⟨size, hfind, by omega, by omega⟩

theorem errs_readConfig (h : 4096 ≤ hdr) : (readConfig root hdr).ErrsIn JsonError := by
  simp [readConfig, errs_bind, trapSub_ok h]

/-! ## The segments section -/

@[simp] theorem errs_checkReencryptFlags (o : Obj) : (checkReencryptFlags o).ErrsIn JsonError := by
  unfold checkReencryptFlags
  split <;> simp [errs_bind]

@[simp] theorem errs_checkSegmentFlags (segs : Obj) :
    (checkSegmentFlags segs).ErrsIn JsonError := by
  induction segs with
  | nil => trivial
  | cons e segs ih =>
    obtain ⟨name, seg⟩ := e
    simp [checkSegmentFlags, errs_bind, ih]

@[simp] theorem errs_checkSegment (o : Obj) : (checkSegment o).ErrsIn JsonError := by
  simp [checkSegment, errs_bind]

/-- The payload lies behind the keyslots area and inside the image. -/
theorem segmentExtent_ok {offset length : Nat}
    (h : segmentExtent o aE imageLen = .ok (offset, length)) :
    aE ≤ offset ∧ offset + length ≤ imageLen ∧ 0 < length ∧ offset % 512 = 0 ∧
    length % 512 = 0 := by
  simp only [segmentExtent, bind_eq_ok, failIf_eq_ok] at h
  obtain ⟨off, _, _, hoff, size, _, len, _, _, hpos, room, hroom, _, hlen, hret⟩ := h
  cases hret
  rw [trapSub_ok (by omega)] at hroom
  cases hroom
  exact ⟨by omega, by omega, by omega, by omega, by omega⟩

/-- Both subtractions come after the check of the offset. -/
theorem errs_segmentExtent (o : Obj) (aE imageLen : Nat) :
    (segmentExtent o aE imageLen).ErrsIn JsonError := by
  simp only [segmentExtent, errs_bind, errs_dec, errs_failIf, JsonError.invalid, errs_text,
    failIf_eq_ok, true_and]
  intro off _ _ hoff size _
  have hsub : (trapSub imageLen off : Outcome Error Nat) = .ok (imageLen - off) :=
    trapSub_ok (by omega)
  have hlen : (segmentLength off imageLen size).ErrsIn JsonError := by
    unfold segmentLength
    split
    · rw [hsub]; trivial
    · exact errs_decimal _
  simp [hsub, hlen]

theorem readSegment_ok {segid offset length : Nat}
    (h : readSegment root aE imageLen = .ok (segid, offset, length)) :
    ∃ name seg, (Value.object root).findObject ["segments"] = some [(name, .object seg)] ∧
      decimal name = .ok segid ∧ segmentExtent seg aE imageLen = .ok (offset, length) := by
  simp only [readSegment, bind_eq_ok, get_eq_ok, object_eq_ok, failIf_eq_ok, ofOption_eq_ok,
    id_eq_ok] at h
  obtain ⟨_, hseg, segs, rfl, _, _, _, hone, ⟨name, _⟩, hhead, n, ⟨hname, _⟩, seg, rfl, _, _,
    ⟨off, len⟩, hext, hret⟩ := h
  cases hret
  obtain ⟨e, rfl⟩ := List.length_eq_one_iff.mp (Decidable.not_not.mp hone)
  cases hhead
  exact ⟨name, seg, by simp [Value.findObject, hseg], hname, hext⟩

theorem errs_readSegment (root : Obj) (aE imageLen : Nat) :
    (readSegment root aE imageLen).ErrsIn JsonError := by
  simp [readSegment, errs_bind, errs_segmentExtent]

/-! ## The keyslots section -/

@[simp] theorem errs_checkPriority (o : Obj) : (checkPriority o).ErrsIn JsonError := by
  unfold checkPriority
  split <;> simp [errs_bind]

@[simp] theorem errs_checkKeyslotType (o : Obj) : (checkKeyslotType o).ErrsIn JsonError := by
  simp [checkKeyslotType, errs_bind]

/-- The one product of `readArea` comes after the check of the key size. -/
theorem errs_readArea (aS aE : Nat) (ranges : List (Region Nat)) (o : Obj) :
    (readArea aS aE ranges o).ErrsIn JsonError := by
  simp only [readArea, errs_bind, errs_num, errs_get, errs_object, errs_only, errs_failIf,
    JsonError.invalid, JsonError.profile, JsonError.limit, errs_text, errs_dec, errs_ofOption,
    errs_ok, failIf_eq_ok, true_and, and_true, implies_true]
  intro keySize _ _ _ _ _ _ _ areaKeySize _ _ hsizes
  intros
  rw [trapMul_ok (by omega)]
  trivial

/-- An accepted area is the declared one; it fits, and meets none of the areas before it. -/
theorem readArea_ok {ranges : List (Region Nat)} {keySize areaKeySize : Nat} {range : Region Nat}
    (h : readArea aS aE ranges o = .ok (keySize, areaKeySize, range)) :
    keyslotArea (.object o) = some ⟨keySize, range⟩ ∧
      (Value.object o).findNum ["area", "key_size"] = some areaKeySize ∧
      (keySize = 32 ∨ keySize = 64) ∧ (areaKeySize = 32 ∨ areaKeySize = 64) ∧
      Area.Fits aS aE ⟨keySize, range⟩ ∧ ∀ r ∈ ranges, range.Apart r := by
  simp only [readArea, bind_eq_ok, num_eq_ok, get_eq_ok, object_eq_ok, dec_eq_ok, failIf_eq_ok,
    ofOption_eq_ok, checkedAdd_eq_some] at h
  obtain ⟨ks, hks, _, harea, area, rfl, _, _, aks, haks, _, hsizes, _, _, _, _, _, _, _, _, start,
    hstart, size, hsize, stop, ⟨_, rfl⟩, _, _, least, hleast, _, hfit, _, hmiss, hret⟩ := h
  cases hret
  rw [trapMul_ok (by omega)] at hleast
  cases hleast
  have inArea : ∀ path, (Value.object o).find ("area" :: path) = (Value.object area).find path := by
    intro path
    simp [harea]
  refine ⟨?_, ?_, by omega, by omega, ?_, ?_⟩
  · unfold keyslotArea
    rw [show (Value.object o).findDec ["area", "offset"] = some start by
        unfold Value.findDec Value.findText; rw [inArea]; exact hstart,
      show (Value.object o).findDec ["area", "size"] = some size by
        unfold Value.findDec Value.findText; rw [inArea]; exact hsize, hks]
    rfl
  · unfold Value.findNum
    rw [inArea]
    exact haks
  · exact ⟨⟨by show aS ≤ start; omega, by show start + size ≤ aE; omega⟩,
      by show start % 4096 = 0; omega,
      by show start + keySize * 4000 ≤ start + size; omega⟩
  · intro r hr
    apply Region.apart_of_no_overlap
    rintro ⟨h1, h2⟩
    exact hmiss ⟨r, hr, h1, h2⟩

@[simp] theorem errs_readAfKdf (ext : Parsers) (o : Obj) : (readAfKdf ext o).ErrsIn JsonError := by
  simp [readAfKdf, errs_bind]

theorem errs_readKeyslot (ext : Parsers) (aS aE : Nat) (st : Keyslots) (k : String) (v : Value) :
    (readKeyslot ext aS aE st k v).ErrsIn JsonError := by
  simp [readKeyslot, errs_bind, errs_readArea]

/-- What one round of the loop adds. -/
theorem readKeyslot_ok {st st' : Keyslots} (h : readKeyslot ext aS aE st k v = .ok st') :
    ∃ a, keyslotArea v = some a ∧ st'.ranges = st.ranges ++ [a.region] ∧ a.Fits aS aE ∧
      ∀ r ∈ st.ranges, a.region.Apart r := by
  simp only [readKeyslot, bind_eq_ok, object_eq_ok] at h
  obtain ⟨_, _, o, rfl, _, _, ⟨ks, aks, range⟩, hr, ⟨af, kdf⟩, _, hret⟩ := h
  cases hret
  obtain ⟨ha, _, _, _, hfit, hapart⟩ := readArea_ok hr
  exact ⟨_, ha, rfl, hfit, hapart⟩

/-- The areas read so far: inside the keyslots area, and pairwise apart. -/
structure Placed (aS aE : Nat) (ranges : List (Region Nat)) : Prop where
  within : ∀ r ∈ ranges, r.Within ⟨aS, aE⟩
  apart : ranges.Pairwise Region.Apart

theorem placed_nil (aS aE : Nat) : Placed aS aE [] := ⟨nofun, List.Pairwise.nil⟩

theorem placed_snoc {ranges : List (Region Nat)} {r : Region Nat} (h : Placed aS aE ranges)
    (hr : r.Within ⟨aS, aE⟩) (hap : ∀ s ∈ ranges, r.Apart s) : Placed aS aE (ranges ++ [r]) where
  within s hs := by
    rcases List.mem_append.mp hs with hs | hs
    · exact h.within s hs
    · obtain rfl := List.mem_singleton.mp hs
      exact hr
  apart := Region.pairwise_apart_snoc h.apart hap

/-- **The loop over the keyslots.**  Every declared area is read, fits, and stays
apart from the others. -/
theorem readKeyslots_ok {keys : Obj} {st st' : Keyslots} (hst : Placed aS aE st.ranges)
    (h : readKeyslots ext aS aE keys st = .ok st') :
    ∃ areas, keys.mapM (fun e => keyslotArea e.2) = some areas ∧ (∀ a ∈ areas, a.Fits aS aE) ∧
      st'.ranges = st.ranges ++ areas.map Area.region ∧ Placed aS aE st'.ranges := by
  induction keys generalizing st with
  | nil =>
    cases h
    exact ⟨[], rfl, nofun, by simp, hst⟩
  | cons e keys ih =>
    obtain ⟨k, v⟩ := e
    rw [readKeyslots, bind_eq_ok] at h
    obtain ⟨st₁, h₁, h⟩ := h
    obtain ⟨a, ha, hranges, hfit, hapart⟩ := readKeyslot_ok h₁
    have hst₁ : Placed aS aE st₁.ranges := by
      rw [hranges]
      exact placed_snoc hst hfit.within hapart
    obtain ⟨areas, hareas, hfits, hst', hplaced⟩ := ih hst₁ h
    refine ⟨a :: areas, by simp [List.mapM_cons, ha, hareas], ?_, ?_, hplaced⟩
    · intro b hb
      rcases List.mem_cons.mp hb with rfl | hb
      · exact hfit
      · exact hfits b hb
    · rw [hst', hranges, List.append_assoc]
      rfl

theorem errs_readKeyslots (ext : Parsers) (aS aE : Nat) (keys : Obj) (st : Keyslots) :
    (readKeyslots ext aS aE keys st).ErrsIn JsonError := by
  induction keys generalizing st with
  | nil => trivial
  | cons e keys ih =>
    obtain ⟨k, v⟩ := e
    simp [readKeyslots, errs_bind, errs_readKeyslot, ih]

/-! ## Tokens and digests -/

@[simp] theorem errs_checkTokens (tokens : Obj) : (checkTokens tokens).ErrsIn JsonError := by
  induction tokens with
  | nil => trivial
  | cons e tokens ih =>
    obtain ⟨t, v⟩ := e
    simp [checkTokens, errs_bind, ih]

theorem invalid_bindKeyslots (parsed : List (Nat × Keyslot)) (ds : List Nat) (digestKdf : Kdf)
    (digest : Bytes) (ks : List Nat) (slots : List (Nat × Slot)) :
    (bindKeyslots parsed ds digestKdf digest ks slots).ErrsIn Invalid := by
  induction ks generalizing slots with
  | nil => trivial
  | cons k ks ih =>
    simp only [bindKeyslots, errs_bind, errs_ofOption, Invalid.invalid, true_and]
    intro p _
    split
    · exact ih slots
    · simp [errs_bind, ih]

theorem errs_bindKeyslots (parsed : List (Nat × Keyslot)) (ds : List Nat) (digestKdf : Kdf)
    (digest : Bytes) (ks : List Nat) (slots : List (Nat × Slot)) :
    (bindKeyslots parsed ds digestKdf digest ks slots).ErrsIn JsonError :=
  (invalid_bindKeyslots parsed ds digestKdf digest ks slots).mono Invalid.json

theorem errs_readDigests (ext : Parsers) (segid : Nat) (parsed : List (Nat × Keyslot))
    (digests : Obj) (slots : List (Nat × Slot)) :
    (readDigests ext segid parsed digests slots).ErrsIn JsonError := by
  induction digests generalizing slots with
  | nil => trivial
  | cons e digests ih =>
    obtain ⟨d, v⟩ := e
    simp [readDigests, readDigest, errs_bind, errs_bindKeyslots, ih]

/-! ## The whole profile -/

theorem errs_fromJson (ext : Parsers) (v : Value) {h : Nat} (hh : 4096 ≤ h) (imageLen : Nat) :
    (fromJson ext v h imageLen).ErrsIn JsonError := by
  simp [fromJson, errs_bind, errs_readConfig hh, errs_readSegment, errs_readKeyslots,
    errs_readDigests]

/-- The sections of accepted metadata. -/
theorem fromJson_ok {h : Nat} {m : Metadata} (hm : fromJson ext v h imageLen = .ok m) :
    ∃ root aS aE segid keys st digests, v = .object root ∧ readConfig root h = .ok (aS, aE) ∧
      readSegment root aE imageLen = .ok (segid, m.offset, m.length) ∧
      v.findObject ["keyslots"] = some keys ∧ readKeyslots ext aS aE keys ⟨[], []⟩ = .ok st ∧
      v.findObject ["digests"] = some digests ∧
      readDigests ext segid st.parsed digests [] = .ok m.slots := by
  simp only [fromJson, bind_eq_ok, object_eq_ok, get_eq_ok] at hm
  obtain ⟨root, rfl, _, _, ⟨aS, aE⟩, hconfig, ⟨segid, offset, length⟩, hsegment, _, hks, keys, rfl,
    _, _, st, hst, _, _, _, _, _, _, _, _, _, hds, digests, rfl, _, _, slots, hslots, hret⟩ := hm
  cases hret
  exact ⟨root, aS, aE, segid, keys, st, digests, rfl, hconfig,
    hsegment, by simp [Value.findObject, hks], hst,
    by simp [Value.findObject, hds], hslots⟩

/-- Accepted metadata has the layout of the areas that its JSON declares. -/
theorem layout_of_fromJson {h : Nat} {m : Metadata} (hm : fromJson ext v h imageLen = .ok m) :
    ∃ size areas, v.findDec ["config", "keyslots_size"] = some size ∧ keyslotAreas v = some areas ∧
      Layout h size imageLen areas m := by
  obtain ⟨root, aS, aE, segid, keys, st, digests, rfl, hconfig, hsegment, hkeys, hst, -, -⟩ :=
    fromJson_ok hm
  obtain ⟨size, hsize, rfl, rfl⟩ := readConfig_ok hconfig
  obtain ⟨_, _, -, -, hextent⟩ := readSegment_ok hsegment
  obtain ⟨hbefore, hinside, hpos, hoff, hlen⟩ := segmentExtent_ok hextent
  obtain ⟨areas, hareas, hfit, hranges, hplaced⟩ := readKeyslots_ok (placed_nil _ _) hst
  refine ⟨size, areas, hsize, by simp [keyslotAreas, hkeys, hareas], ?_⟩
  refine ⟨hfit, hbefore, hinside, hpos, hoff, hlen, ?_⟩
  have hareasApart : (areas.map Area.region).Pairwise Region.Apart := by
    have := hplaced.apart
    rwa [hranges, List.nil_append] at this
  have hstart : ∀ r ∈ areas.map Area.region, 2 * h ≤ r.start ∧ r.stop ≤ m.offset := by
    intro r hr
    obtain ⟨a, ha, rfl⟩ := List.mem_map.mp hr
    obtain ⟨h1, h2⟩ := (hfit a ha).within
    exact ⟨h1, Nat.le_trans h2 hbefore⟩
  -- each region ends at or before everything that follows it
  refine Region.pairwise_apart_snoc
    (List.pairwise_cons.mpr ⟨?_, List.pairwise_cons.mpr ⟨?_, hareasApart⟩⟩) ?_
  · intro r hr
    rcases List.mem_cons.mp hr with rfl | hr
    · exact Or.inl (Nat.le_refl h)
    · have := (hstart r hr).1
      exact Or.inl (by show h ≤ r.start; omega)
  · intro r hr
    exact Or.inl (hstart r hr).1
  · intro r hr
    refine Or.inr (?_ : r.stop ≤ m.offset)
    rcases List.mem_cons.mp hr with rfl | hr
    · show h ≤ m.offset; omega
    · rcases List.mem_cons.mp hr with rfl | hr
      · show 2 * h ≤ m.offset; omega
      · exact (hstart r hr).2

/-- **Layout safety.**  For every JSON value, every header size and every image
length, the parser does not unwind, and metadata it accepts puts the header
copies, all keyslot areas and the payload inside the image, pairwise apart. -/
theorem fromJson_layout (ext : Parsers) (v : Value) {h : Nat} (hh : HeaderSize h) (imageLen : Nat) :
    (fromJson ext v h imageLen).Returns ∧
    ∀ m, fromJson ext v h imageLen = .ok m → ∃ size areas,
      v.findDec ["config", "keyslots_size"] = some size ∧ keyslotAreas v = some areas ∧
      Layout h size imageLen areas m ∧
      ∀ r ∈ (⟨0, h⟩ :: ⟨h, 2 * h⟩ :: areas.map Area.region ++ [⟨m.offset, m.offset + m.length⟩] :
        List (Region Nat)), r.Within ⟨0, imageLen⟩ := by
  have hleast := hh.least
  refine ⟨(errs_fromJson ext v (by omega) imageLen).returns, fun m hm => ?_⟩
  obtain ⟨size, areas, hsize, hareas, hl⟩ := layout_of_fromJson hm
  exact ⟨size, areas, hsize, hareas, hl, hl.inside⟩

end Metadata

/-! ## A small image

One keyslot whose volume key, area key and three hashes all differ in kind, and
a payload of 256 sectors right behind its area. -/

namespace Sample

/-- The salts and the digest are 32 zero bytes. -/
def zeros64 : String := "AAAAAAAAAAAAAAAAAAAAAAAAAAAAAAAAAAAAAAAAAAA="

def uuid : String := "0f2fbd3e-7d2b-4f0e-9c42-5a6d1f3b8c11"

def doc : Doc := .map [
  ("keyslots", .map [("1", .map [
    ("type", .string "luks2"), ("key_size", .u64 32),
    ("area", .map [("type", .string "raw"), ("offset", .string "32768"), ("size", .string "131072"),
      ("encryption", .string "aes-xts-plain64"), ("key_size", .u64 64)]),
    ("kdf", .map [("type", .string "pbkdf2"), ("hash", .string "sha256"), ("iterations", .u64 1000),
      ("salt", .string zeros64)]),
    ("af", .map [("type", .string "luks1"), ("stripes", .u64 4000),
      ("hash", .string "sha512")])])]),
  ("tokens", .map []),
  ("segments", .map [("0", .map [("type", .string "crypt"), ("offset", .string "163840"),
    ("size", .string "dynamic"), ("iv_tweak", .string "0"),
    ("encryption", .string "aes-xts-plain64"),
    ("sector_size", .u64 512)])]),
  ("digests", .map [("0", .map [("type", .string "pbkdf2"), ("keyslots", .seq [.string "1"]),
    ("segments", .seq [.string "0"]), ("hash", .string "sha256"), ("iterations", .u64 2000),
    ("salt", .string zeros64), ("digest", .string zeros64)])]),
  ("config", .map [("json_size", .string "12288"), ("keyslots_size", .string "131072")])]

/-- The text of `doc`. -/
def text : String :=
  "\x7b\"keyslots\":\x7b\"1\":\x7b\"type\":\"luks2\",\"key_size\":32," ++
  "\"area\":\x7b\"type\":\"raw\",\"offset\":\"32768\",\"size\":\"131072\"," ++
  "\"encryption\":\"aes-xts-plain64\",\"key_size\":64\x7d," ++
  "\"kdf\":\x7b\"type\":\"pbkdf2\",\"hash\":\"sha256\",\"iterations\":1000," ++
  "\"salt\":\"AAAAAAAAAAAAAAAAAAAAAAAAAAAAAAAAAAAAAAAAAAA=\"\x7d," ++
  "\"af\":\x7b\"type\":\"luks1\",\"stripes\":4000,\"hash\":\"sha512\"\x7d\x7d\x7d," ++
  "\"tokens\":\x7b\x7d,\"segments\":\x7b\"0\":\x7b\"type\":\"crypt\"," ++
  "\"offset\":\"163840\",\"size\":\"dynamic\",\"iv_tweak\":\"0\"," ++
  "\"encryption\":\"aes-xts-plain64\",\"sector_size\":512\x7d\x7d," ++
  "\"digests\":\x7b\"0\":\x7b\"type\":\"pbkdf2\",\"keyslots\":[\"1\"]," ++
  "\"segments\":[\"0\"],\"hash\":\"sha256\",\"iterations\":2000," ++
  "\"salt\":\"AAAAAAAAAAAAAAAAAAAAAAAAAAAAAAAAAAAAAAAAAAA=\"," ++
  "\"digest\":\"AAAAAAAAAAAAAAAAAAAAAAAAAAAAAAAAAAAAAAAAAAA=\"\x7d\x7d," ++
  "\"config\":\x7b\"json_size\":\"12288\",\"keyslots_size\":\"131072\"\x7d\x7d"

def json : Value := (node 0 doc).getD .null

/-- The libraries, on this text and its base64 fields. -/
def parsers : Parsers where
  base64 s := if s = zeros64 then some (zeros 32) else none
  uuid s := s = uuid
  json b := if b = textBytes text then some doc else none

def imageLen : Nat := 163840 + 131072

def metadata : Metadata where
  offset := 163840
  length := 131072
  slots := [(1, {
    keySize := 32, areaKeySize := 64, areaOffset := 32768, afHash := .sha512
    kdf := .pbkdf2 .sha256 1000 (zeros 32)
    digestKdf := .pbkdf2 .sha256 2000 (zeros 32), digest := zeros 32 })]

theorem fromJson_json : Metadata.fromJson parsers json 16384 imageLen = .ok metadata := by
  decide +kernel

end Sample

theorem Metadata.fromJson_layout_sample :
    ∃ size areas, Sample.json.findDec ["config", "keyslots_size"] = some size ∧
      keyslotAreas Sample.json = some areas ∧
      Layout 16384 size Sample.imageLen areas Sample.metadata := by
  have hh : HeaderSize 16384 := ⟨by decide, by decide, 14, rfl⟩
  obtain ⟨-, hok⟩ := Metadata.fromJson_layout Sample.parsers Sample.json hh Sample.imageLen
  obtain ⟨size, areas, h1, h2, h3, -⟩ := hok _ Sample.fromJson_json
  exact ⟨size, areas, h1, h2, h3⟩

end Winluks
