import Winluks.Format
import Winluks.Probe
import Winluks.Sectors
import Winluks.Slots
import Winluks.Volume

/-!
# Unlocking a keyslot

The on-disk format, as a statement about bytes: `HoldsKey` says that the area of
a keyslot is the sector-wise encryption of a split of the volume key, under the
key derived from the password.  `unlock_format` is the contract of `unlock`
against it: such a keyslot opens, with this key, and whatever opens satisfies
the digest that the JSON binds to the keyslot.

Each parameter has its own place in the JSON.  `Bound` names the places, so no
pair of key sizes, hashes or derivation parameters can be confused.
-/

namespace Winluks

open Lib Outcome

variable (prim : Primitives) (ext : Parsers)

/-! ## Key derivation -/

namespace Kdf

/-- What the library computes for these parameters. -/
def output (kdf : Kdf) (password : Bytes) (size : Nat) : Option Bytes :=
  match kdf with
  | .pbkdf2 hash iterations salt => prim.pbkdf2 hash iterations salt password size
  | .argon2 id memory time cpus salt => prim.argon2 id memory time cpus salt password size

/-- The library takes the parameters, memory is there, and the deadline is met. -/
def Served (kdf : Kdf) (password : Bytes) (size : Nat) : Prop :=
  (match kdf with
    | .pbkdf2 .. => True
    | .argon2 _ memory time cpus _ =>
      prim.argon2Params memory time cpus size = true ∧
      prim.argon2Reserve memory time cpus size = true) ∧
  prim.overdue kdf password size = false

variable {prim} {kdf : Kdf} {password out : Bytes} {size : Nat}

theorem derive_of (ha : kdf.Allowed) (h0 : 0 < size) (h64 : size ≤ 64)
    (hs : kdf.Served prim password size) (ho : kdf.output prim password size = some out) :
    kdf.derive prim password size = .ok out := by
  have hfill : kdf.fill prim password size = .ok out := by
    cases kdf with
    | pbkdf2 hash iterations salt =>
      obtain ⟨h1, h2, -⟩ := ha
      unfold fill
      dsimp only
      rw [failIf_neg (by omega), ok_bind]
      exact ofOption_eq_ok.mpr ho
    | argon2 id memory time cpus salt =>
      obtain ⟨h1, h2, h3, -⟩ := ha
      obtain ⟨⟨hp, hr⟩, -⟩ := hs
      unfold fill
      dsimp only
      rw [failIf_neg (by omega), ok_bind, failIf_neg (by simp [hp]), ok_bind,
        failIf_neg (by simp [hr]), ok_bind]
      exact ofOption_eq_ok.mpr ho
  unfold derive
  rw [failIf_neg (by omega), ok_bind, hfill, ok_bind, failIf_neg (by simp [hs.2]), ok_bind]

theorem output_length (h : kdf.output prim password size = some out) : out.length = size := by
  unfold output at h
  split at h
  · exact prim.pbkdf2_length _ _ _ _ _ _ h
  · exact prim.argon2_length _ _ _ _ _ _ _ _ h

theorem output_of_derive (h : kdf.derive prim password size = .ok out) :
    kdf.output prim password size = some out := by
  simp only [derive, bind_eq_ok] at h
  obtain ⟨_, _, o, hfill, _, _, hret⟩ := h
  cases hret
  cases kdf with
  | pbkdf2 hash iterations salt =>
    simp only [fill, bind_eq_ok, ofOption_eq_ok] at hfill
    obtain ⟨_, _, ho⟩ := hfill
    exact ho
  | argon2 id memory time cpus salt =>
    simp only [fill, bind_eq_ok, ofOption_eq_ok] at hfill
    obtain ⟨_, _, _, _, _, _, ho⟩ := hfill
    exact ho

variable (prim kdf password size)

@[simp] theorem returns_derive : (kdf.derive prim password size).Returns := by
  have hfill : (kdf.fill prim password size).Returns := by
    cases kdf <;> simp [fill, returns_bind]
  simp [derive, returns_bind, hfill]

end Kdf

theorem returns_diffuseParts (h : Hash) (i : Nat) (ps : List Bytes) :
    (diffuseParts prim h i ps).Returns := by
  induction ps generalizing i with
  | nil => trivial
  | cons p ps ih => simp [diffuseParts, Hash.digest, returns_bind, ih]

theorem returns_mergeStripes (h : Hash) (xs : List Bytes) (s : Bytes) :
    (mergeStripes prim h xs s).Returns := by
  induction xs generalizing s with
  | nil => trivial
  | cons x xs ih => simp [mergeStripes, returns_bind, returns_diffuseParts, ih]

@[simp] theorem returns_afMerge (data : Bytes) (size : Nat) (h : Hash) :
    (afMerge prim data size h).Returns := by
  simp [afMerge, returns_bind, returns_mergeStripes]

@[simp] theorem returns_keyNew (b : Bytes) : (VolumeKey.new prim b).Returns := by
  unfold VolumeKey.new
  split <;> simp [returns_bind]

/-! ## `unlock` as a function of the image content -/

namespace UnlockedVolume

/-- The key of a slot, from the password to the digest check. -/
def keyOf (s : Slot) (password : Bytes) (f : Store) (len : Nat) : Outcome Error VolumeKey := do
  let derived ← s.kdf.derive prim password s.areaKeySize
  let size ← trapMul 64 s.keySize 4000
  let encrypted ← sliceOf len f s.areaOffset size
  let af ← decryptSectors prim derived 0 encrypted
  let key ← afMerge prim af s.keySize s.afHash
  let digest ← s.digestKdf.derive prim key s.digest.length
  .failIf (digest ≠ s.digest) .unlockFailed
  VolumeKey.new prim key

def unlockOf (image : Image) (keyslot : Nat) (password : Bytes) (f : Store) :
    Outcome Error UnlockedVolume := do
  let m ← Metadata.readOf prim ext f image.len
  .failIf (4096 < password.length) .resourceLimit
  .failIf (Metadata.utf8 password = none) .unlockFailed
  let s ← m.slot keyslot
  let key ← keyOf prim s password f image.len
  .ok ⟨image, m.offset, m.length, key⟩

/-- The steps of `unlock` behind the slot lookup, regrouped. -/
theorem unlockOf_eq (image : Image) (keyslot : Nat) (password : Bytes) (f : Store) :
    unlockOf prim ext image keyslot password f = (do
      let m ← Metadata.readOf prim ext f image.len
      .failIf (4096 < password.length) .resourceLimit
      .failIf (Metadata.utf8 password = none) .unlockFailed
      let s ← m.slot keyslot
      let derived ← s.kdf.derive prim password s.areaKeySize
      let size ← trapMul 64 s.keySize 4000
      let encrypted ← sliceOf image.len f s.areaOffset size
      let af ← decryptSectors prim derived 0 encrypted
      let key ← afMerge prim af s.keySize s.afHash
      let digest ← s.digestKdf.derive prim key s.digest.length
      .failIf (digest ≠ s.digest) .unlockFailed
      let key ← VolumeKey.new prim key
      .ok ⟨image, m.offset, m.length, key⟩ : Outcome Error UnlockedVolume) := by
  simp only [unlockOf, keyOf, Outcome.bind_assoc]

theorem computes_unlock (image : Image) (keyslot : Nat) (password : Bytes) (F : File) :
    Computes image.len F (unlock prim ext image keyslot password)
      (unlockOf prim ext image keyslot password F.data) := by
  rw [unlockOf_eq]
  unfold unlock
  refine computes_bind (Metadata.computes_read prim ext image F) fun m _ => ?_
  refine computes_bind (computes_lift _) fun _ _ => ?_
  refine computes_bind (computes_lift _) fun _ _ => ?_
  refine computes_bind (computes_lift _) fun s _ => ?_
  refine computes_bind (computes_lift _) fun derived _ => ?_
  refine computes_bind (computes_lift _) fun size _ => ?_
  refine computes_bind (computes_readExactAt image F _ _) fun encrypted _ => ?_
  refine computes_bind (computes_lift _) fun af _ => ?_
  refine computes_bind (computes_lift _) fun key _ => ?_
  refine computes_bind (computes_lift _) fun digest _ => ?_
  refine computes_bind (computes_lift _) fun _ _ => ?_
  exact computes_bind (computes_lift _) fun _ _ => computes_lift _

theorem steadily_unlock (image : Image) (keyslot : Nat) (password : Bytes) :
    Run.Keeps (Steadily image.len) (unlock prim ext image keyslot password) := by
  unfold unlock
  refine steadily_bind (Metadata.steadily_read prim ext image) fun m => ?_
  refine steadily_bind (steadily_lift _) fun _ => steadily_bind (steadily_lift _) fun _ => ?_
  refine steadily_bind (steadily_lift _) fun s => steadily_bind (steadily_lift _) fun derived => ?_
  refine steadily_bind (steadily_lift _) fun size => ?_
  refine steadily_bind (image.steadily_readExactAt s.areaOffset size) fun encrypted => ?_
  refine steadily_bind (steadily_lift _) fun af => steadily_bind (steadily_lift _) fun key => ?_
  refine steadily_bind (steadily_lift _) fun digest => steadily_bind (steadily_lift _) fun _ => ?_
  exact steadily_bind (steadily_lift _) fun _ => steadily_lift _

end UnlockedVolume

/-! ## The keyslot format -/

/-- The JSON of the first header copy. -/
def jsonOf (f : Store) : Outcome Error Value := do
  let text ← Metadata.untilNul (slice f 4096 (beNat (slice f 8 8) - 4096))
  parse ext.json text

/-- The area of the keyslot `p` holds the volume key `K` under the derived key `areaKey`: sector by
sector, from number 0 on, it is the encryption of a split of `K` into 4000 stripes. -/
structure HoldsKey (f : Store) (p : Metadata.Keyslot) (areaKey K : Bytes) : Prop where
  size : K.length = p.keySize
  area : ∃ H : Bytes → Bytes, (∀ b, prim.digest p.afHash b = some (H b)) ∧
    ∃ stripes : List Bytes, stripes.length = 3999 ∧ (∀ x ∈ stripes, x.length = p.keySize) ∧
      ∀ i < p.keySize * 4000 / 512, prim.xts .encrypt areaKey (tweak i)
        (sector (Af.split H p.afHash.size K stripes) i) = some (slice f (p.start + 512 * i) 512)

/-- The digest `D` recognizes the volume key `K`. -/
def Digest.Recognizes (D : Digest) (K : Bytes) : Prop :=
  D.kdf.output prim K D.value.length = some D.value

/-- Decrypting a 512-byte unit undoes encrypting it. -/
def XtsInverts : Prop := ∀ key iv unit c, unit.length = 512 →
  prim.xts .encrypt key iv unit = some c → prim.xts .decrypt key iv c = some unit

section
variable {prim ext} {f : Store} {len : Nat} {p : Metadata.Keyslot} {D : Digest}
    {password K areaKey : Bytes}

theorem hash_size_pos (h : Hash) : 0 < h.size := by
  cases h <;> decide

/-- The area decrypts to the split. -/
theorem decrypt_area (hx : XtsInverts prim) (hp : p.Valid) {split : Bytes}
    (hkey : areaKey.length = p.areaKeySize) (hlen : split.length = p.keySize * 4000)
    (harea : ∀ i < p.keySize * 4000 / 512, prim.xts .encrypt areaKey (tweak i) (sector split i) =
      some (slice f (p.start + 512 * i) 512)) :
    decryptSectors prim areaKey 0 (slice f p.start (p.keySize * 4000)) = .ok split := by
  have hsize := hp.keySize
  have harea' := hp.areaKeySize
  unfold decryptSectors
  rw [cryptSectors_iff, slice_length]
  refine ⟨by omega, by omega, by omega, hlen, fun i hi => ?_⟩
  have hsec : sector (slice f p.start (p.keySize * 4000)) i = slice f (p.start + 512 * i) 512 :=
    slice_drop_take (512 * i) 512 (by omega)
  have hunit : (sector split i).length = 512 := by
    rw [sector, List.length_take, List.length_drop, hlen]
    omega
  refine ⟨by omega, ?_, hunit⟩
  rw [Nat.zero_add, hsec]
  exact hx _ _ _ _ hunit (harea i hi)

/-- The chain from the password to the volume key, for a keyslot that holds it. -/
theorem keyOf_of_holds (hx : XtsInverts prim) (hp : p.Valid) (hD : D.Valid)
    (hin : p.start + p.keySize * 4000 ≤ len)
    (hkdf : p.kdf.output prim password p.areaKeySize = some areaKey)
    (hserved : p.kdf.Served prim password p.areaKeySize) (hholds : HoldsKey prim f p areaKey K)
    (hrec : D.Recognizes prim K) (hserved' : D.kdf.Served prim K D.value.length)
    (hpage : prim.keyPage = true) :
    ∃ key : VolumeKey, key.bytes = K ∧
    UnlockedVolume.keyOf prim (p.bind D.kdf D.value) password f len = .ok key := by
  obtain ⟨hK, H, hH, stripes, hcount, hstripes, harea⟩ := hholds
  have hsize := hp.keySize
  have hareaSize := hp.areaKeySize
  have hDlen : 0 < D.value.length ∧ D.value.length ≤ 64 := by
    rcases hD.length with h | h
    · omega
    · rw [h]
      cases D.hash <;> decide
  have hareaKey : areaKey.length = p.areaKeySize := Kdf.output_length hkdf
  have hlens : ∀ x ∈ stripes, x.length = K.length := by rw [hK]; exact hstripes
  have hsplit : (Af.split H p.afHash.size K stripes).length = p.keySize * 4000 := by
    rw [Af.split_length (hash_size_pos _) (digest_some hH) hlens, hK, hcount]
  have h1 : p.kdf.derive prim password p.areaKeySize = .ok areaKey :=
    Kdf.derive_of hp.kdf (by omega) (by omega) hserved hkdf
  have h2 : (trapMul 64 p.keySize 4000 : Outcome Error Nat) = .ok (p.keySize * 4000) :=
    trapMul_ok (by omega)
  have h3 : sliceOf len f p.start (p.keySize * 4000) = .ok (slice f p.start (p.keySize * 4000)) :=
    if_pos hin
  have h4 := decrypt_area hx hp hareaKey hsplit harea
  have h5 : afMerge prim (Af.split H p.afHash.size K stripes) p.keySize p.afHash = .ok K := by
    rw [afMerge_eq hH hsize hsplit]
    have := Af.merge_split (hash_size_pos p.afHash) (digest_some hH) hlens
    rw [hK, hcount] at this
    rw [this]
  have h6 : D.kdf.derive prim K D.value.length = .ok D.value :=
    Kdf.derive_of hD.kdf hDlen.1 hDlen.2 hserved' hrec
  have hKsize : K.length = 32 ∨ K.length = 64 := by omega
  refine ⟨⟨K, hKsize⟩, rfl, ?_⟩
  unfold UnlockedVolume.keyOf Metadata.Keyslot.bind
  simp only [h1, h2, h3, h4, h5, h6, ok_bind, ne_eq, not_true, failIf_neg, not_false_eq_true,
    VolumeKey.new, hKsize, dif_pos, hpage, Bool.true_eq_false]

/-- What a key that was found satisfies. -/
theorem keyOf_ok {s : Slot} {key : VolumeKey}
    (h : UnlockedVolume.keyOf prim s password f len = .ok key) :
    s.digestKdf.output prim key.bytes s.digest.length = some s.digest ∧
    ∃ derived af, s.kdf.output prim password s.areaKeySize = some derived ∧
      decryptSectors prim derived 0 (slice f s.areaOffset (s.keySize * 4000)) = .ok af ∧
      afMerge prim af s.keySize s.afHash = .ok key.bytes := by
  simp only [UnlockedVolume.keyOf, bind_eq_ok, failIf_eq_ok, Decidable.not_not,
    Metadata.sliceOf_eq_ok] at h
  obtain ⟨derived, hder, size, hsize, _, ⟨_, rfl⟩, af, haf, k, hk, digest, hdig, _, rfl, hnew⟩ := h
  have hkey : key.bytes = k := by
    unfold VolumeKey.new at hnew
    split at hnew
    · simp only [bind_eq_ok] at hnew
      obtain ⟨_, _, hret⟩ := hnew
      cases hret
      rfl
    · cases hnew
  have hn : size = s.keySize * 4000 := by
    unfold trapMul at hsize
    split at hsize <;> cases hsize
    rfl
  subst hn hkey
  exact ⟨Kdf.output_of_derive hdig, derived, af, Kdf.output_of_derive hder, haf, hk⟩

/-- The JSON that an accepted first copy was read as. -/
theorem jsonOf_header {H : Metadata.Header} (h : Metadata.headerOf prim ext f len 0 = .ok H) :
    jsonOf ext f = .ok H.json ∧ H.json.Distinct := by
  obtain ⟨alg, uuid, hfixed, -, hdata⟩ := Metadata.headerOf_ok h
  obtain ⟨-, hsize, -⟩ := Metadata.headerFixed_size hfixed
  simp only [Metadata.headerData, bind_eq_ok, slice_drop, Nat.zero_add] at hdata
  obtain ⟨_, _, _, _, _, _, text, htext, label, _, subsystem, _, json, hjson, hret⟩ := hdata
  have hj : H.json = json := by
    rw [← Outcome.ok.inj hret]
  rw [hj]
  refine ⟨?_, parse_distinct hjson⟩
  rw [slice_extract 8 16 (by decide), Nat.zero_add] at hsize
  unfold jsonOf
  rw [← hsize, htext, ok_bind, hjson]

/-- The payload that the JSON `v` declares in an image of `len` bytes. -/
def DeclaresPayload (v : Value) (len offset length : Nat) : Prop :=
  ∃ name seg size, v.findObject ["segments"] = some [(name, seg)] ∧
    seg.findDec ["offset"] = some offset ∧ seg.findText ["size"] = some size ∧
    if size = "dynamic" then length = len - offset else Metadata.decimal size = .ok length

theorem declaresPayload_of_fromJson {v : Value} {h : Nat} {m : Metadata}
    (hm : Metadata.fromJson ext v h len = .ok m) : DeclaresPayload v len m.offset m.length := by
  obtain ⟨root, aS, aE, segid, keys, st, digests, rfl, -, hsegment, -⟩ := Metadata.fromJson_ok hm
  obtain ⟨name, seg, hsegs, -, hextent⟩ := Metadata.readSegment_ok hsegment
  simp only [Metadata.segmentExtent, bind_eq_ok, Metadata.dec_eq_ok, Metadata.text_eq_ok] at hextent
  obtain ⟨off, hoff, _, _, size, hsize, length, hlength, _, _, _, _, _, _, hret⟩ := hextent
  obtain ⟨rfl, rfl⟩ := Prod.mk.inj (Outcome.ok.inj hret)
  refine ⟨name, _, size, hsegs, hoff, hsize, ?_⟩
  unfold Metadata.segmentLength at hlength
  split at hlength
  · next hdyn =>
    rw [if_pos hdyn]
    unfold trapSub at hlength
    split at hlength
    · exact (Outcome.ok.inj hlength).symm
    · cases hlength
  · next hdyn =>
    rw [if_neg hdyn]
    exact hlength

theorem mem_keyslots_iff {m : Metadata} {k : Nat} : k ∈ m.keyslots ↔ ∃ s, m.slot k = .ok s := by
  unfold Metadata.keyslots Metadata.slot
  simp only [ofOption_eq_ok]
  rw [← not_iff_not, ← lookup_eq_none_iff, not_exists]
  cases m.slots.lookup k <;> simp

/-- The area of a bound keyslot lies between the headers and the payload. -/
theorem area_before_payload {m : Metadata} {k : Nat} {s : Slot}
    (hm : Metadata.readOf prim ext f len = .ok m) (hs : m.slot k = .ok s) :
    s.areaOffset + s.keySize * 4000 ≤ m.offset := by
  obtain ⟨a, b, ha, -, -, -, -, -, -, -, hjson⟩ := Metadata.readOf_ok hm
  obtain ⟨p, D, hbound, rfl⟩ := (Metadata.slot_iff (jsonOf_header ha).2 hjson k s).mp hs
  obtain ⟨hp, hD, areas, area, hareas, hmem, hareaSize, hareaStart⟩ :=
    Metadata.bound_valid hjson hbound
  obtain ⟨size, areas', -, hareas', hlayout⟩ := Metadata.layout_of_fromJson hjson
  rw [hareas] at hareas'
  cases hareas'
  have hfit := hlayout.areas_fit area hmem
  have hstop : area.region.stop ≤ 2 * a.size + size := hfit.within.2
  have hholds := hfit.holds
  have hbefore := hlayout.areas_before
  show p.start + p.keySize * 4000 ≤ m.offset
  omega

/-- Two images that agree in front of the payload unlock alike, whatever the keyslot and the
password. -/
theorem sameRun_unlock {F F' : File} {m : Metadata} (img : Image)
    (hm : Metadata.readOf prim ext F.data img.len = .ok m) (hsize : F.size = F'.size)
    (hfg : ∀ p, p < m.offset → F.data p = F'.data p) (keyslot : Nat) (password : Bytes) :
    SameRun F F' (UnlockedVolume.unlock prim ext img keyslot password) := by
  obtain ⟨a, b, ha, -, -, -, -, -, -, -, hjson⟩ := Metadata.readOf_ok hm
  obtain ⟨size, areas, -, -, hlayout⟩ := Metadata.layout_of_fromJson hjson
  have hheaders := hlayout.headers_before
  have hread := Metadata.sameRun_read img ha hm hsize fun p hp => hfg p (by omega)
  unfold UnlockedVolume.unlock
  refine sameRun_bind hread fun m' hm' => ?_
  obtain ⟨d, hd, hm'⟩ := hm'
  have hm'' := ((Metadata.computes_read prim ext img F).ok hd (Prod.ext hm' rfl)).1
  rw [hm] at hm''
  cases hm''
  refine sameRun_bind (sameRun_lift _) fun _ _ => sameRun_bind (sameRun_lift _) fun _ _ => ?_
  refine sameRun_bind (sameRun_lift _) fun s hs => ?_
  obtain ⟨_, _, hs⟩ := hs
  have harea := area_before_payload hm hs
  refine sameRun_bind (sameRun_lift _) fun derived _ => sameRun_bind (sameRun_lift _) fun n hn => ?_
  obtain ⟨_, _, hn⟩ := hn
  have hn' : n = s.keySize * 4000 := by
    rw [Run.lift_run, trapMul] at hn
    split at hn
    · cases hn
      rfl
    · cases hn
  refine sameRun_bind (sameRun_readExactAt img hsize fun p _ hp => hfg p (by omega))
    fun encrypted _ => ?_
  refine sameRun_bind (sameRun_lift _) fun af _ => sameRun_bind (sameRun_lift _) fun key _ => ?_
  refine sameRun_bind (sameRun_lift _) fun digest _ => sameRun_bind (sameRun_lift _) fun _ _ => ?_
  exact sameRun_bind (sameRun_lift _) fun _ _ => sameRun_lift _

/-- **The keyslot format.**  Let the metadata of an image be accepted.  Its JSON
declares the payload, and which keyslots are bound to which digest.  A bound
keyslot that holds a volume key under the password, recognized by its digest, is
opened with this key.  Whatever else it holds, `unlock` returns, and a key that
it returns is the merge of the decrypted area and is recognized by the digest. -/
theorem unlock_format (hx : XtsInverts prim) {img : Image} {F : File} {m : Metadata} {d d' : Disk}
    (hd : d.file = F) (hread : Metadata.read prim ext img d = (.ok m, d'))
    (hlen : password.length ≤ 4096)
    (hutf8 : Metadata.utf8 password ≠ none) :
    ∃ v, jsonOf ext F.data = .ok v ∧ DeclaresPayload v img.len m.offset m.length ∧
      (∀ k, k ∈ m.keyslots ↔ ∃ p D, Metadata.Bound ext v k p D) ∧
      ∀ k p D, Metadata.Bound ext v k p D →
        (∀ areaKey K, p.kdf.output prim password p.areaKeySize = some areaKey →
          p.kdf.Served prim password p.areaKeySize → HoldsKey prim F.data p areaKey K →
          D.Recognizes prim K → D.kdf.Served prim K D.value.length → prim.keyPage = true →
          ∃ key : VolumeKey, key.bytes = K ∧
            Computes img.len F (UnlockedVolume.unlock prim ext img k password)
              (.ok ⟨img, m.offset, m.length, key⟩)) ∧
        ∃ x : Outcome Error UnlockedVolume, x.Returns ∧
          Computes img.len F (UnlockedVolume.unlock prim ext img k password) x ∧
          ∀ vol, x = .ok vol → vol.offset = m.offset ∧ vol.len = m.length ∧
            D.Recognizes prim vol.key.bytes ∧
            ∃ areaKey af, p.kdf.output prim password p.areaKeySize = some areaKey ∧
              decryptSectors prim areaKey 0 (slice F.data p.start (p.keySize * 4000)) = .ok af ∧
              afMerge prim af p.keySize p.afHash = .ok vol.key.bytes := by
  have hm := ((Metadata.computes_read prim ext img F).ok hd hread).1
  obtain ⟨a, b, ha, hb, -, -, -, -, -, -, hjson⟩ := Metadata.readOf_ok hm
  obtain ⟨hv, hdistinct⟩ := jsonOf_header ha
  refine ⟨a.json, hv, declaresPayload_of_fromJson hjson, fun k => ?_, fun k p D hbound => ?_⟩
  · rw [mem_keyslots_iff]
    constructor
    · rintro ⟨s, hs⟩
      obtain ⟨p, D, hpD, -⟩ := (Metadata.slot_iff hdistinct hjson k s).mp hs
      exact ⟨p, D, hpD⟩
    · rintro ⟨p, D, hpD⟩
      exact ⟨_, (Metadata.slot_iff hdistinct hjson k _).mpr ⟨p, D, hpD, rfl⟩⟩
  · have hslot := (Metadata.slot_iff hdistinct hjson k _).mpr ⟨p, D, hbound, rfl⟩
    obtain ⟨hp, hD, areas, area, hareas, hmem, hareaSize, hareaStart⟩ :=
      Metadata.bound_valid hjson hbound
    obtain ⟨size, areas', -, hareas', hlayout⟩ := Metadata.layout_of_fromJson hjson
    rw [hareas] at hareas'
    cases hareas'
    -- the area of the keyslot lies in front of the payload
    have hfit := hlayout.areas_fit area hmem
    have hstop : area.region.stop ≤ 2 * a.size + size := hfit.within.2
    have hholds := hfit.holds
    have hbefore := hlayout.areas_before
    have hinside := hlayout.payload_inside
    have hof : UnlockedVolume.unlockOf prim ext img k password F.data = (do
        let key ← UnlockedVolume.keyOf prim (p.bind D.kdf D.value) password F.data img.len
        .ok ⟨img, m.offset, m.length, key⟩ : Outcome Error UnlockedVolume) := by
      unfold UnlockedVolume.unlockOf
      rw [hm, ok_bind, failIf_neg (by omega), ok_bind, failIf_neg hutf8, ok_bind, hslot, ok_bind]
    have hcomp := UnlockedVolume.computes_unlock prim ext img k password F
    rw [hof] at hcomp
    refine ⟨fun areaKey K hkdf hserved hK hrec hserved' hpage => ?_, _, ?_, hcomp,
      fun vol hvol => ?_⟩
    · obtain ⟨key, hkey, hok⟩ := keyOf_of_holds hx hp hD
        (show p.start + p.keySize * 4000 ≤ img.len by omega) hkdf hserved hK hrec hserved' hpage
      rw [hok] at hcomp
      exact ⟨key, hkey, hcomp⟩
    · have hsize : p.keySize * 4000 < 2 ^ 64 := by
        have := hp.keySize
        omega
      have hmul : (trapMul 64 (p.bind D.kdf D.value).keySize 4000 : Outcome Error Nat) =
          .ok (p.keySize * 4000) :=
        trapMul_ok hsize
      have hslice : ∀ o n, (sliceOf img.len F.data o n).Returns := by
        intro o n
        unfold sliceOf
        split <;> trivial
      have hkey : (UnlockedVolume.keyOf prim (p.bind D.kdf D.value) password F.data
          img.len).Returns := by
        simp [UnlockedVolume.keyOf, returns_bind, hmul, hslice, decryptSectors,
          returns_cryptSectors]
      simp [returns_bind, hkey]
    · obtain ⟨key, hkey, hret⟩ := bind_eq_ok.mp hvol
      cases hret
      obtain ⟨hrec, areaKey, af, h1, h2, h3⟩ := keyOf_ok hkey
      exact ⟨rfl, rfl, hrec, areaKey, af, h1, h2, h3⟩

end

/-! ## The small image, unlocked -/

namespace Sample

/-- A split of 32 zero bytes whose random stripes are zero. -/
def split : Bytes :=
  Af.split (fun b => List.replicate 64 (b.getD 23 0 + b.getD 264 0)) 64 (zeros 32)
    (List.replicate 3999 (zeros 32))

/-- What lies behind the headers: a split and a Btrfs volume, both encrypted. -/
def body : Store := fun p =>
  (if p < 163840 then split.getD (p - 32768) 0 else Probe.Sample.volume (p - 163840)) ^^^
    UInt8.ofNat ((p - 32768) / 512)

def keyslot : Metadata.Keyslot := ⟨32, 64, 32768, .sha512, .pbkdf2 .sha256 1000 (zeros 32)⟩

theorem store_body {p : Nat} (h : 32768 ≤ p) : store 1 body p = body p := by
  have hlen : ∀ off, ((copy 1).bytes off (sum 1)).length = 16384 := fun off =>
    Copy.bytes_length (copy_valid (by decide)) (by decide)
  unfold store
  rw [overlay_of_not_mem _ _ _ (by rw [hlen]; omega),
    overlay_of_not_mem _ _ _ (by rw [hlen]; omega)]

theorem split_length : split.length = 128000 := by
  unfold split
  rw [Af.split_length (by decide) (fun b => List.length_replicate)]
  · rw [zeros_length, List.length_replicate]
  · intro x hx
    rw [List.eq_of_mem_replicate hx]

/-- The area of the small image holds a key of zeros. -/
theorem holdsKey : HoldsKey Sample.prim (store 1 body) keyslot (zeros 64) (zeros 32) where
  size := zeros_length 32
  area := by
    refine ⟨fun b => List.replicate 64 (b.getD 23 0 + b.getD 264 0), fun b => rfl,
      List.replicate 3999 (zeros 32),
      List.length_replicate, fun x hx => ?_, fun i hi => ?_⟩
    · rw [List.eq_of_mem_replicate hx]
      exact zeros_length 32
    · have hi : i < 250 := hi
      have hunit : (sector split i).length = 512 := by
        rw [sector, List.length_take, List.length_drop, split_length]
        omega
      refine congrArg some (List.ext_getElem ?_ fun j hj hj' => ?_)
      · rw [List.length_map, slice_length]
        exact hunit
      · have hj : j < 512 := by
          rw [List.length_map] at hj
          exact Nat.lt_of_lt_of_eq hj hunit
        have hpos : 32768 + 512 * i + j - 32768 = 512 * i + j := by omega
        have hnumber : (512 * i + j) / 512 = i := by omega
        have hbody : store 1 body (keyslot.start + 512 * i + j) =
            split.getD (512 * i + j) 0 ^^^ UInt8.ofNat i := by
          refine (store_body (show 32768 ≤ 32768 + 512 * i + j by omega)).trans ?_
          show (if 32768 + 512 * i + j < 163840 then split.getD (32768 + 512 * i + j - 32768) 0
              else _) ^^^
            UInt8.ofNat ((32768 + 512 * i + j - 32768) / 512) = _
          rw [if_pos (by omega), hpos, hnumber]
        rw [slice_getElem, hbody, List.getD_eq_getElem _ _ (by rw [split_length]; omega)]
        simp only [List.getElem_map, sector, List.getElem_take, List.getElem_drop]
        rfl

def password : Bytes := textBytes "secret"

/-- The metadata of the small image offers the keyslot with the digest of its JSON. -/
theorem bound : ∃ D, Metadata.Bound parsers json 1 keyslot D ∧ D.value = zeros 32 := by
  have hslot : metadata.slot 1 = .ok ⟨32, 64, 32768, .sha512, .pbkdf2 .sha256 1000 (zeros 32),
      .pbkdf2 .sha256 2000 (zeros 32), zeros 32⟩ := rfl
  obtain ⟨⟨ks, aks, start, af, kdf⟩, D, hbound, hbind⟩ :=
    (Metadata.slot_iff (parse_distinct parse_text) fromJson_json 1 _).mp hslot
  injection hbind with h1 h2 h3 h4 h5 h6 h7
  refine ⟨D, ?_, h7.symm⟩
  dsimp only at h1 h2 h3 h4 h5
  rwa [← h1, ← h2, ← h3, ← h4, ← h5] at hbound

theorem xtsInverts : XtsInverts Sample.prim := by
  intro key iv unit c hlen hc
  obtain rfl := Option.some.inj hc
  show some ((unit.map _).map _) = some unit
  rw [List.map_map]
  congr 1
  refine List.map_id'' (fun x => ?_) unit
  show x ^^^ iv.headD 0 ^^^ iv.headD 0 = x
  rw [UInt8.xor_assoc, UInt8.xor_self, UInt8.xor_zero]

theorem recognizes {D : Digest} (h : D.value = zeros 32) : D.Recognizes Sample.prim (zeros 32) := by
  show some (zeros D.value.length) = some D.value
  rw [h, zeros_length]

theorem password_utf8 : Metadata.utf8 password ≠ none := by
  rw [password, utf8_textBytes]
  exact Option.some_ne_none _

/-- **The small image opens**, with a key of zeros. -/
theorem unlock (mode : AccessMode) : ∃ (key : VolumeKey) (d' : Disk), key.bytes = zeros 32 ∧
    UnlockedVolume.unlock Sample.prim parsers (image mode) 1 password (disk (store 1 body)) =
      (.ok ⟨image mode, 163840, 131072, key⟩, d') := by
  obtain ⟨D, hbound, hvalue⟩ := bound
  obtain ⟨hp, hD, -⟩ := Metadata.bound_valid fromJson_json hbound
  obtain ⟨key, hbytes, hkey⟩ := @keyOf_of_holds Sample.prim (store 1 body) imageLen keyslot D
    password (zeros 32) (zeros 64)
    xtsInverts hp hD (by decide) rfl ⟨trivial, rfl⟩ holdsKey (recognizes hvalue)
    ⟨trivial, rfl⟩ rfl
  have hslot : metadata.slot 1 = .ok (keyslot.bind D.kdf D.value) :=
    (Metadata.slot_iff (parse_distinct parse_text) fromJson_json 1 _).mpr ⟨keyslot, D, hbound, rfl⟩
  have hof : UnlockedVolume.unlockOf Sample.prim parsers (image mode) 1 password (store 1 body) =
      .ok ⟨image mode, 163840, 131072, key⟩ := by
    unfold UnlockedVolume.unlockOf
    rw [show (image mode).len = imageLen from rfl, readOf_store (by decide) body, ok_bind,
      failIf_neg (by decide), ok_bind, failIf_neg password_utf8, ok_bind, hslot, ok_bind, hkey]
    rfl
  have hcomp := UnlockedVolume.computes_unlock Sample.prim parsers (image mode) 1 password
    (disk (store 1 body)).file
  obtain ⟨hok, -, -⟩ := hcomp.steady (UnlockedVolume.steadily_unlock _ _ _ _ _) (disk_steady _) rfl
  exact ⟨key, _, hbytes, Prod.ext (hok.trans hof) rfl⟩

end Sample

theorem unlock_format_sample : ∃ key : VolumeKey, key.bytes = zeros 32 ∧
    Computes Sample.imageLen (Sample.disk (Sample.store 1 Sample.body)).file
      (UnlockedVolume.unlock Sample.prim Sample.parsers (Sample.image .readOnly) 1 Sample.password)
      (.ok ⟨Sample.image .readOnly, Sample.metadata.offset, Sample.metadata.length, key⟩) := by
  obtain ⟨d', hread⟩ := @Sample.read_store 1 (by decide) Sample.body .readOnly
  obtain ⟨v, hv, -, -, hall⟩ := unlock_format Sample.xtsInverts rfl hread
    (show Sample.password.length ≤ 4096 by decide) Sample.password_utf8
  obtain ⟨D, hbound, hvalue⟩ := Sample.bound
  have hjson := (jsonOf_header (@Sample.headerOf_store 1 (by decide) Sample.body)).1
  obtain rfl := Outcome.ok.inj (hv.symm.trans hjson)
  exact (hall 1 Sample.keyslot D hbound).1 (zeros 64) (zeros 32) rfl ⟨trivial, rfl⟩ Sample.holdsKey
    (Sample.recognizes hvalue) ⟨trivial, rfl⟩ rfl

end Winluks
