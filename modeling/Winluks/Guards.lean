import Winluks.CryptoLaws

/-!
# Checks made twice

The limits of a keyslot and of a digest are written down twice: `from_json`
checks them, and `crypto.rs` and `image.rs` check their own arguments again.
`GuardsPass` lists the second checks on the way from a slot to its key, each for
the values that reach it.  `unlock_guards`: on accepted metadata all of them
pass, so when the libraries and the backing file do their work, the only error
left is a wrong password.
-/

namespace Winluks

open Lib Outcome

variable (prim : Primitives)

/-- `argon2::Params::new` checks its parameters against these bounds and no others. -/
def ArgonParams : Prop := ∀ memory time cpus size, prim.argon2Params memory time cpus size = true ↔
  1 ≤ cpus ∧ 1 ≤ time ∧ 8 * cpus ≤ memory ∧ 4 ≤ size

namespace Kdf

/-- The limits in the `match` of `derive`. -/
def OverLimit : Kdf → Prop
  | .pbkdf2 _ iterations _ => iterations = 0 ∨ 10000000 < iterations
  | .argon2 _ memory time cpus _ => 1048576 < memory ∨ 10 < time ∨ 8 < cpus

/-- `Params::new` reports an error. -/
def Refused (kdf : Kdf) (size : Nat) : Prop :=
  match kdf with
  | .pbkdf2 .. => False
  | .argon2 _ memory time cpus _ => prim.argon2Params memory time cpus size = false

/-- No check of the arguments of `derive` fails. -/
structure Passes (kdf : Kdf) (n : Nat) : Prop where
  size : ¬ (n = 0 ∨ 64 < n)
  limits : ¬ kdf.OverLimit
  params : ¬ kdf.Refused prim n

/-- The lower bounds of the Argon2 parameters. -/
def Least : Kdf → Prop
  | .pbkdf2 .. => True
  | .argon2 _ memory time cpus _ => 1 ≤ cpus ∧ 1 ≤ time ∧ 8 * cpus ≤ memory

end Kdf

/-- The checks between a slot and its key.  `encrypted` is what `read_exact_at` returns for the
area. -/
structure Slot.GuardsPass (s : Slot) (password : Bytes) (len : Nat) : Prop where
  kdf : s.kdf.Passes prim s.areaKeySize
  area : ¬ (len < s.areaOffset ∨ len - s.areaOffset < s.keySize * 4000)
  cipher : ∀ derived (encrypted : Bytes), s.kdf.derive prim password s.areaKeySize = .ok derived →
    encrypted.length = s.keySize * 4000 →
    ¬ (derived.length ≠ 32 ∧ derived.length ≠ 64) ∧
    ¬ (encrypted.length % 512 ≠ 0 ∨ 1024 * 1024 < encrypted.length) ∧
      ∀ i < encrypted.length / 512, 0 + i < 2 ^ 64
  merge : ∀ derived (encrypted af : Bytes), encrypted.length = s.keySize * 4000 →
    decryptSectors prim derived 0 encrypted = .ok af →
    ¬ ((s.keySize ≠ 32 ∧ s.keySize ≠ 64) ∨ af.length ≠ s.keySize * 4000)
  digestKdf : s.digestKdf.Passes prim s.digest.length
  key : ∀ af key, afMerge prim af s.keySize s.afHash = .ok key →
    ¬ (key.length ≠ 32 ∧ key.length ≠ 64)

/-- The library does its work for these arguments: there is memory, a key comes out, and the
deadline is met. -/
structure Kdf.Works (kdf : Kdf) (password : Bytes) (size : Nat) : Prop where
  memory : match kdf with
    | .pbkdf2 .. => True
    | .argon2 _ memory time cpus _ => prim.argon2Reserve memory time cpus size = true
  output : ∃ out, kdf.output prim password size = some out
  inTime : prim.overdue kdf password size = false

/-- The libraries do their work on the way from this slot and this password to a key: its own
derivation, the decryption of its area under the key derived, the hashes of its merge, the digest of
a merged key, and the page for it. -/
structure Reliable (s : Slot) (password : Bytes) : Prop where
  kdf : s.kdf.Works prim password s.areaKeySize
  xts : ∀ areaKey, s.kdf.output prim password s.areaKeySize = some areaKey →
    XtsServes prim .decrypt areaKey
  hash : ∀ b, ∃ d, prim.digest s.afHash b = some d
  digest : ∀ key : Bytes, key.length = s.keySize → s.digestKdf.Works prim key s.digest.length
  keyPage : prim.keyPage = true

/-! ## What the JSON reader has checked -/

namespace Metadata

variable {ext : Parsers} {o : Obj} {v : Value} {aS aE : Nat}

theorem parseKdf_least {kdf : Kdf} (h : parseKdf ext o = .ok kdf) : kdf.Least := by
  simp only [parseKdf, bind_eq_ok, failIf_eq_ok] at h
  obtain ⟨salt, -, _, -, kind, -, h⟩ := h
  split at h
  · simp only [bind_eq_ok] at h
    obtain ⟨_, _, _, _, _, _, _, _, hret⟩ := h
    cases hret
    trivial
  · split at h
    · simp only [bind_eq_ok, failIf_eq_ok, bounded_eq_ok] at h
      obtain ⟨_, _, memory, ⟨-, hm, -⟩, time, ⟨-, ht, -⟩, cpus, ⟨-, hc, hcle⟩, least, hleast, _,
        hge, hret⟩ := h
      cases hret
      rw [trapMul_ok (by omega)] at hleast
      cases hleast
      exact ⟨hc, ht, Nat.not_lt.mp hge⟩
    · cases h

theorem readKeyslots_least {keys : Obj} {st st' : Keyslots}
    (h : readKeyslots ext aS aE keys st = .ok st') {e : String × Value} (he : e ∈ keys)
    {p : Keyslot} (hp : keyslotOf ext e.2 = some p) : p.kdf.Least := by
  induction keys generalizing st with
  | nil => cases he
  | cons e₁ keys ih =>
    obtain ⟨k, v⟩ := e₁
    rw [readKeyslots, bind_eq_ok] at h
    obtain ⟨st₁, h₁, h⟩ := h
    rcases List.mem_cons.mp he with rfl | he
    · simp only [readKeyslot, bind_eq_ok, object_eq_ok] at h₁
      obtain ⟨n, -, o, rfl, _, -, ⟨keySize, areaKeySize, range⟩, -, ⟨afHash, kdf⟩, haf, -⟩ := h₁
      have hkdf := (readAfKdf_ok haf).2.1
      simp only [readAfKdf, bind_eq_ok, get_eq_ok, object_eq_ok] at haf
      obtain ⟨_, -, af, -, _, -, _, -, _, -, _, -, _, -, w, hw, ko, rfl, kdf', hparse, _, -, _, -,
        hret⟩ := haf
      cases hret
      -- the KDF of `p` is the one that was parsed
      simp only [keyslotOf, Option.bind_eq_bind, Option.bind_eq_some_iff] at hp
      obtain ⟨_, -, _, -, _, -, _, -, kdf', hkdf', hret⟩ := hp
      obtain rfl := Option.some.inj (hkdf.symm.trans (Option.bind_eq_some_iff.mpr hkdf'))
      cases hret
      exact parseKdf_least hparse
    · exact ih h he

/-- A bound keyslot has parameters that `Params::new` takes. -/
theorem bound_least {h imageLen k : Nat} {m : Metadata} {p : Keyslot} {D : Digest}
    (hm : fromJson ext v h imageLen = .ok m) (hb : Bound ext v k p D) : p.kdf.Least := by
  obtain ⟨root, aS, aE, segid, keys, st, digests, rfl, -, -, hkeys, hst, -, -⟩ := fromJson_ok hm
  obtain ⟨keys', digests', name, seg, segid', hk, -, -, -, ⟨e, he, -, hp⟩, -⟩ := hb
  rw [hkeys] at hk
  cases hk
  exact readKeyslots_least hst he hp

end Metadata

section
variable {prim} {kdf : Kdf} {password : Bytes} {size : Nat}

theorem Kdf.passes_of (hargon : ArgonParams prim) (ha : kdf.Allowed) (hl : kdf.Least)
    (h4 : 4 ≤ size) (h64 : size ≤ 64) :
    kdf.Passes prim size := by
  refine ⟨by omega, ?_, ?_⟩
  · cases kdf with
    | pbkdf2 hash iterations salt =>
      obtain ⟨h1, h2, -⟩ := ha
      show ¬ (iterations = 0 ∨ 10000000 < iterations)
      omega
    | argon2 id memory time cpus salt =>
      obtain ⟨h1, h2, h3, -⟩ := ha
      show ¬ (1048576 < memory ∨ 10 < time ∨ 8 < cpus)
      omega
  · cases kdf with
    | pbkdf2 hash iterations salt => exact id
    | argon2 id memory time cpus salt =>
      obtain ⟨h1, h2, h3⟩ := hl
      show ¬ prim.argon2Params memory time cpus size = false
      rw [(hargon memory time cpus size).mpr ⟨h1, h2, h3, h4⟩]
      decide

/-- A derivation whose checks pass ends in a key, if the library does its work. -/
theorem Kdf.derive_total (hw : kdf.Works prim password size) (ha : kdf.Allowed)
    (hp : kdf.Passes prim size) : ∃ out, kdf.derive prim password size = .ok out := by
  have hsize := hp.size
  obtain ⟨hmemory, ⟨out, hout⟩, htime⟩ := hw
  refine ⟨out, derive_of ha (by omega) (by omega) ⟨?_, htime⟩ hout⟩
  cases kdf with
  | pbkdf2 hash iterations salt => trivial
  | argon2 id memory time cpus salt =>
    have hparams : prim.argon2Params memory time cpus size = true := by
      simpa [Kdf.Refused] using hp.params
    exact ⟨hparams, hmemory⟩

/-- The digests of the parts fill the parts. -/
theorem diffuseParts_length {h : Hash} {i : Nat} {ps : List Bytes} {out : Bytes}
    (hps : ∀ p ∈ ps, p.length ≤ h.size) (ho : diffuseParts prim h i ps = .ok out) :
    out.length = ps.flatten.length := by
  induction ps generalizing i out with
  | nil =>
    cases ho
    rfl
  | cons p ps ih =>
    simp only [diffuseParts, Hash.digest, bind_eq_ok, ofOption_eq_ok] at ho
    obtain ⟨d, hd, rest, hrest, hret⟩ := ho
    cases hret
    have hp := hps p List.mem_cons_self
    have hdlen := prim.digest_length _ _ _ hd
    rw [List.length_append, List.length_take, List.flatten_cons, List.length_append,
      ih (fun q hq => hps q (List.mem_cons_of_mem _ hq)) hrest]
    omega

theorem mergeStripes_length {h : Hash} {xs : List Bytes} {st out : Bytes}
    (hxs : ∀ x ∈ xs, x.length = st.length) (ho : mergeStripes prim h xs st = .ok out) :
    out.length = st.length := by
  induction xs generalizing st with
  | nil =>
    cases ho
    rfl
  | cons x xs ih =>
    rw [mergeStripes, bind_eq_ok] at ho
    obtain ⟨st₁, h₁, ho⟩ := ho
    have hlen : st₁.length = st.length := by
      have hparts : ∀ p ∈ hashParts h (xorBytes st x), p.length ≤ h.size :=
        fun p hp => Af.length_le_of_mem_chunks hp
      have hflat : (hashParts h (xorBytes st x)).flatten = xorBytes st x :=
        Af.parts_flatten (hash_size_pos h) _
      rw [diffuseParts_length hparts h₁, hflat, xorBytes_length, hxs x List.mem_cons_self,
        Nat.min_self]
    rw [ih (fun y hy => by rw [hlen]; exact hxs y (List.mem_cons_of_mem _ hy)) ho, hlen]

/-- A merge that ends has the right arguments and gives a key of the size asked for. -/
theorem afMerge_length {data key : Bytes} {n : Nat} {h : Hash}
    (hk : afMerge prim data n h = .ok key) :
    (n = 32 ∨ n = 64) ∧ data.length = n * 4000 ∧ key.length = n := by
  simp only [afMerge, bind_eq_ok, failIf_eq_ok] at hk
  obtain ⟨_, hguard, st, hst, hret⟩ := hk
  cases hret
  have hstripes : ∀ x ∈ chunks n 3999 (data.take (n * 3999)), x.length = (zeros n).length := by
    intro x hx
    rw [zeros_length]
    refine length_of_mem_chunks ?_ hx
    rw [List.length_take]
    omega
  refine ⟨by omega, by omega, ?_⟩
  rw [xorBytes_length, mergeStripes_length hstripes hst, zeros_length, List.length_drop]
  omega

/-! ## The guards of `unlock` -/

variable {ext : Parsers} {f : Store} {len : Nat}

/-- **The second checks pass** for every slot of accepted metadata. -/
theorem guardsPass (hargon : ArgonParams prim) {m : Metadata}
    (hm : Metadata.readOf prim ext f len = .ok m) {k : Nat} {s : Slot} (hs : m.slot k = .ok s)
    (password : Bytes) :
    s.GuardsPass prim password len ∧ s.kdf.Allowed ∧ s.digestKdf.Allowed := by
  have harea := area_before_payload hm hs
  obtain ⟨a, b, ha, -, -, -, -, -, -, -, hjson⟩ := Metadata.readOf_ok hm
  obtain ⟨p, D, hbound, rfl⟩ := (Metadata.slot_iff (jsonOf_header ha).2 hjson k s).mp hs
  obtain ⟨hp, hD, -⟩ := Metadata.bound_valid hjson hbound
  obtain ⟨size, areas, -, -, hlayout⟩ := Metadata.layout_of_fromJson hjson
  have hleast := Metadata.bound_least hjson hbound
  have hinside := hlayout.payload_inside
  have hkey : p.keySize = 32 ∨ p.keySize = 64 := hp.keySize
  have hareaKey : p.areaKeySize = 32 ∨ p.areaKeySize = 64 := hp.areaKeySize
  have hDlen : 4 ≤ D.value.length ∧ D.value.length ≤ 64 := by
    rcases hD.length with h | h
    · omega
    · rw [h]
      cases D.hash <;> decide
  have harea' : p.start + p.keySize * 4000 ≤ m.offset := harea
  refine ⟨⟨Kdf.passes_of hargon hp.kdf hleast (by show 4 ≤ p.areaKeySize; omega)
    (by show p.areaKeySize ≤ 64; omega),
    by show ¬ (len < p.start ∨ len - p.start < p.keySize * 4000); omega, ?_, ?_,
    Kdf.passes_of hargon hD.kdf trivial hDlen.1 hDlen.2, ?_⟩, hp.kdf, hD.kdf⟩
  · intro derived encrypted hder henc
    have hlen : derived.length = p.areaKeySize := Kdf.output_length (Kdf.output_of_derive hder)
    have henc : encrypted.length = p.keySize * 4000 := henc
    exact ⟨by omega, by omega, fun i hi => by omega⟩
  · intro derived encrypted af henc haf
    have hlen : af.length = encrypted.length := cryptSectors_length prim haf
    rw [hlen, henc]
    show ¬ ((p.keySize ≠ 32 ∧ p.keySize ≠ 64) ∨ p.keySize * 4000 ≠ p.keySize * 4000)
    omega
  · intro af key hk
    obtain ⟨-, -, hlen⟩ := afMerge_length hk
    have hlen : key.length = p.keySize := hlen
    omega

/-- With these checks out of the way, the chain ends in a key or at the digest. -/
theorem keyOf_total {s : Slot} (hg : s.GuardsPass prim password len) (ha : s.kdf.Allowed)
    (hd : s.digestKdf.Allowed) (hr : Reliable prim s password) (f : Store) :
    (∃ key, UnlockedVolume.keyOf prim s password f len = .ok key) ∨
      UnlockedVolume.keyOf prim s password f len = .err .unlockFailed := by
  have harea := hg.area
  have hin : s.areaOffset + s.keySize * 4000 ≤ len := by omega
  obtain ⟨derived, h1⟩ := Kdf.derive_total hr.kdf ha hg.kdf
  have hslice : (slice f s.areaOffset (s.keySize * 4000)).length = s.keySize * 4000 :=
    slice_length _ _ _
  obtain ⟨hkey, hlen, hlast⟩ := hg.cipher derived _ h1 hslice
  obtain ⟨af, h4⟩ := @cryptSectors_total prim .decrypt derived 0
    (hr.xts derived (Kdf.output_of_derive h1)) (slice f s.areaOffset (s.keySize * 4000))
    ⟨by omega, by omega, by omega, hlast⟩
  have hmerge := hg.merge derived _ af hslice h4
  choose H hH using hr.hash
  obtain ⟨key, h5⟩ : ∃ key, afMerge prim af s.keySize s.afHash = .ok key :=
    ⟨_, afMerge_eq hH (by omega) (by omega)⟩
  have hsize := hg.key af key h5
  obtain ⟨-, -, hkeySize⟩ := afMerge_length h5
  obtain ⟨digest, h6⟩ := Kdf.derive_total (hr.digest key hkeySize) hd hg.digestKdf
  have h2 : (trapMul 64 s.keySize 4000 : Outcome Error Nat) = .ok (s.keySize * 4000) :=
    trapMul_ok (by omega)
  have h3 : sliceOf len f s.areaOffset (s.keySize * 4000) =
      .ok (slice f s.areaOffset (s.keySize * 4000)) := if_pos hin
  unfold UnlockedVolume.keyOf decryptSectors
  simp only [h1, h2, h3, h4, h5, h6, ok_bind]
  by_cases hdig : digest = s.digest
  · left
    exact ⟨_, by rw [failIf_neg (not_not_intro hdig), ok_bind, VolumeKey.new, dif_pos (by omega),
      failIf_neg (by simp [hr.keyPage]), ok_bind]⟩
  · right
    rw [failIf_pos hdig, err_bind]

/-- **Accepted metadata never fails later for structural reasons.**  For every image that
`Metadata::read` accepts, every keyslot it offers and every UTF-8 password of at most 4096 bytes,
all checks of the chain pass, and with libraries and a backing file that do their work `unlock`
returns a volume or reports a wrong password. -/
theorem unlock_guards (hargon : ArgonParams prim) {img : Image} {m : Metadata} {d d' : Disk}
    (hread : Metadata.read prim ext img d = (.ok m, d')) {k : Nat} (hk : k ∈ m.keyslots)
    {password : Bytes}
    (hlen : password.length ≤ 4096) (hutf8 : Metadata.utf8 password ≠ none) :
    ∃ s, m.slot k = .ok s ∧ s.GuardsPass prim password img.len ∧
      (Reliable prim s password → ∃ o : Outcome Error UnlockedVolume,
        ((∃ vol, o = .ok vol) ∨ o = .err .unlockFailed) ∧
        Computes img.len d.file (UnlockedVolume.unlock prim ext img k password) o ∧
        ∀ d₀ : Disk, d₀.file = d.file → d₀.Steady img.len →
          (UnlockedVolume.unlock prim ext img k password d₀).1 = o) := by
  have hm := ((Metadata.computes_read prim ext img d.file).ok rfl hread).1
  obtain ⟨s, hs⟩ := mem_keyslots_iff.mp hk
  obtain ⟨hg, ha, hd⟩ := guardsPass hargon hm hs password
  refine ⟨s, hs, hg, fun hr => ?_⟩
  have hof : UnlockedVolume.unlockOf prim ext img k password d.file.data = (do
      let key ← UnlockedVolume.keyOf prim s password d.file.data img.len
      .ok ⟨img, m.offset, m.length, key⟩ : Outcome Error UnlockedVolume) := by
    unfold UnlockedVolume.unlockOf
    rw [hm, ok_bind, failIf_neg (by omega), ok_bind, failIf_neg hutf8, ok_bind, hs, ok_bind]
  have hcomp := UnlockedVolume.computes_unlock prim ext img k password d.file
  refine ⟨_, ?_, hcomp, fun d₀ hfile hsteady =>
    (hcomp.steady (UnlockedVolume.steadily_unlock prim ext img k password) hsteady hfile).1⟩
  rw [hof]
  obtain ⟨key, hkey⟩ | hkey := keyOf_total hg ha hd hr d.file.data
  · exact Or.inl ⟨_, by rw [hkey, ok_bind]⟩
  · exact Or.inr (by rw [hkey, err_bind])

end

namespace Sample

theorem argonParams : ArgonParams Sample.prim := by
  intro memory time cpus size
  simp [prim]

theorem works (kdf : Kdf) (password : Bytes) (size : Nat) :
    kdf.Works Sample.prim password size := by
  cases kdf with
  | pbkdf2 => exact ⟨trivial, ⟨_, rfl⟩, rfl⟩
  | argon2 => exact ⟨rfl, ⟨_, rfl⟩, rfl⟩

theorem reliable (s : Slot) (password : Bytes) (hsize : s.areaKeySize = 32 ∨ s.areaKeySize = 64) :
    Reliable Sample.prim s password where
  kdf := works _ _ _
  xts areaKey h := xtsTotal.serves (by rwa [Kdf.output_length h])
  hash _ := ⟨_, rfl⟩
  digest _ _ := works _ _ _
  keyPage := rfl

end Sample

theorem unlock_guards_sample : ∃ o, ((∃ vol, o = .ok vol) ∨ o = .err .unlockFailed) ∧
    Computes Sample.imageLen (Sample.disk (Sample.store 1 Sample.body)).file
      (UnlockedVolume.unlock Sample.prim Sample.parsers (Sample.image .readOnly) 1
        Sample.password) o := by
  obtain ⟨d', hread⟩ := @Sample.read_store 1 (by decide) Sample.body .readOnly
  obtain ⟨s, hs, -, hall⟩ := unlock_guards Sample.argonParams hread
    (show 1 ∈ Sample.metadata.keyslots by decide)
    (show Sample.password.length ≤ 4096 by decide) Sample.password_utf8
  have hsize : s.areaKeySize = 64 := by
    cases hs
    rfl
  obtain ⟨o, ho, hcomp, -⟩ := hall (Sample.reliable s _ (Or.inr hsize))
  exact ⟨o, ho, hcomp⟩

end Winluks
