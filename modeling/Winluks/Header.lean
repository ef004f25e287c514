import Winluks.Steady
import Winluks.Layout

/-!
# The header copies as a function of the image content

`headerOf` and `readOf` are `header` and `Metadata.read` without the backend.
`computes_read` connects them: with a backend that does its work the metadata
read from an image is `readOf` of its content, and no success is anything else.

What `headerOf` accepts is spelled out in `headerOf_ok`; every statement about
damaged or torn copies starts from it.
-/

namespace Winluks

open Lib Outcome

namespace Metadata

variable (prim : Primitives) (ext : Parsers)

def headerOf (f : Store) (len offset : Nat) : Outcome Error Header := do
  let fixed ← (sliceOf len f offset 4096).mapErr fun _ => .metadataRecoveryRequired
  let (size, alg, uuid) ← headerFixed ext offset fixed
  let data ← (sliceOf len f offset size).mapErr fun _ => .metadataRecoveryRequired
  headerData prim ext fixed size alg uuid data

/-- The comparison of the two copies. -/
def copiesAgree (a b : Header) : Outcome Error Unit :=
  .failIf (a.size ≠ b.size ∨ a.seq ≠ b.seq ∨ a.uuid ≠ b.uuid ∨ a.label ≠ b.label ∨
    a.subsystem ≠ b.subsystem ∨ a.json ≠ b.json) .metadataRecoveryRequired

def readOf (f : Store) (len : Nat) : Outcome Error Metadata := do
  let a ← headerOf prim ext f len 0
  let b ← headerOf prim ext f len a.size
  copiesAgree a b
  fromJson ext a.json a.size len

/-! ## The checks of a copy, on its bytes -/

def HasMagic (off : Nat) (fixed : Bytes) : Prop :=
  fixed.take 6 = magic off ∧ fixed.extract 6 8 = [0, 2]

/-- The size that a copy states. -/
def sizeField (fixed : Bytes) : Nat := beNat (fixed.extract 8 16)

def SizeOk (n : Nat) : Prop := (16 * 1024 ≤ n ∧ n ≤ 4 * 1024 * 1024) ∧ isPowerOfTwo n = true

/-- The copy states the offset it is read from, and the second one lies right behind the first. -/
def InPlace (off : Nat) (fixed : Bytes) : Prop :=
  off = beNat (fixed.extract 256 264) ∧ (off = 0 ∨ off = sizeField fixed)

/-- Clean padding, a known hash, a UUID. -/
def Readable (fixed : Bytes) : Prop :=
  (fixed.extract 264 448 ++ fixed.drop 512).any (· ≠ 0) = false ∧
  (∃ name alg, cstr (fixed.extract 72 104) = .ok name ∧ Hash.parse name = .ok alg) ∧
  ∃ uuid, cstr (fixed.extract 168 208) = .ok uuid ∧ ext.uuid uuid = true

/-! ## `header` and `read`, with a backend that does its work -/

theorem computes_header (img : Image) (F : File) (offset : Nat) :
    Computes img.len F (header prim ext img offset) (headerOf prim ext F.data img.len offset) := by
  unfold header headerOf
  refine computes_bind (computes_mapErr (computes_readExactAt img F _ _) _) fun fixed _ => ?_
  refine computes_bind (computes_lift _) fun e _ => ?_
  exact computes_bind (computes_mapErr (computes_readExactAt img F _ _) _) fun _ _ =>
    computes_lift _

theorem computes_read (img : Image) (F : File) :
    Computes img.len F (read prim ext img) (readOf prim ext F.data img.len) := by
  unfold read readOf
  refine computes_bind (computes_header prim ext img F 0) fun a _ => ?_
  refine computes_bind (computes_header prim ext img F a.size) fun b _ => ?_
  exact computes_bind (computes_lift _) fun _ _ => computes_lift _

theorem steadily_header (img : Image) (offset : Nat) :
    Run.Keeps (Steadily img.len) (header prim ext img offset) := by
  unfold header
  refine steadily_bind (Run.keeps_mapErr (img.steadily_readExactAt offset 4096) _) fun fixed => ?_
  refine steadily_bind (steadily_lift _) fun e => ?_
  exact steadily_bind (Run.keeps_mapErr (img.steadily_readExactAt offset _) _) fun _ =>
    steadily_lift _

theorem steadily_read (img : Image) : Run.Keeps (Steadily img.len) (read prim ext img) := by
  unfold read
  refine steadily_bind (steadily_header prim ext img 0) fun a => ?_
  refine steadily_bind (steadily_header prim ext img a.size) fun b => ?_
  exact steadily_bind (steadily_lift _) fun _ => steadily_lift _

variable {prim} {ext} {f g : Store} {len off : Nat} {H : Header} {m : Metadata}

theorem sliceOf_eq_ok {n : Nat} {b : Bytes} : sliceOf len f off n = .ok b ↔ off + n ≤ len ∧
    slice f off n = b := by
  unfold sliceOf
  split
  · next h => simp [h]
  · next h => simp [h]

/-! ## What an accepted copy looks like -/

theorem isPowerOfTwo_iff {n : Nat} : isPowerOfTwo n = true → ∃ k, n = 2 ^ k := by
  intro h
  exact ⟨n.log2, by simpa [isPowerOfTwo] using h⟩

theorem headerFixed_ok_iff {fixed : Bytes} {size : Nat} {alg : Hash} {uuid : String} :
    headerFixed ext off fixed = .ok (size, alg, uuid) ↔
      HasMagic off fixed ∧ SizeOk (sizeField fixed) ∧ InPlace off fixed ∧
      (fixed.extract 264 448 ++ fixed.drop 512).any (· ≠ 0) = false ∧
      (∃ name, cstr (fixed.extract 72 104) = .ok name ∧ Hash.parse name = .ok alg) ∧
      cstr (fixed.extract 168 208) = .ok uuid ∧ ext.uuid uuid = true ∧ size = sizeField fixed := by
  simp only [headerFixed, bind_eq_ok, failIf_eq_ok, HasMagic, SizeOk, InPlace, sizeField]
  constructor
  · rintro ⟨_, hmagic, _, hsize, _, hplace, _, hclean, name, hname, alg', halg, uuid', huuid,
      _, hok, hret⟩
    obtain ⟨hs, hret⟩ := Prod.mk.inj (Outcome.ok.inj hret)
    obtain ⟨rfl, rfl⟩ := Prod.mk.inj hret
    refine ⟨by tauto, ⟨by tauto, ?_⟩, by tauto, by simpa using hclean, ⟨name, hname, halg⟩,
      huuid, by simpa using hok,
      hs.symm⟩
    simpa using fun hp => hsize (Or.inr hp)
  · rintro ⟨hmagic, ⟨hsize, hpow⟩, hplace, hclean, ⟨name, hname, halg⟩, huuid, hok, rfl⟩
    refine ⟨(), by tauto, (), ?_, (), by tauto, (), by simpa using hclean, name, hname, alg, halg,
      uuid, huuid, (),
      by simp [hok], rfl⟩
    rw [hpow]
    tauto

theorem headerFixed_size {fixed : Bytes} {size : Nat} {alg : Hash} {uuid : String}
    (h : headerFixed ext off fixed = .ok (size, alg, uuid)) :
    HeaderSize size ∧ size = beNat (fixed.extract 8 16) ∧ (off = 0 ∨ off = size) := by
  simp only [headerFixed, bind_eq_ok, failIf_eq_ok] at h
  obtain ⟨_, _, _, hsize, _, hoff, _, _, _, _, _, _, _, _, _, _, hret⟩ := h
  cases hret
  have hpow : isPowerOfTwo (beNat (fixed.extract 8 16)) = true := by
    cases hp : isPowerOfTwo (beNat (fixed.extract 8 16)) with
    | true => rfl
    | false => exact absurd (Or.inr hp) hsize
  refine ⟨⟨by omega, by omega, isPowerOfTwo_iff hpow⟩, rfl, by omega⟩

/-- An accepted copy: its fixed part, the whole of it inside the image, its checksum. -/
theorem headerOf_ok (h : headerOf prim ext f len off = .ok H) :
    ∃ alg uuid, headerFixed ext off (slice f off 4096) = .ok (H.size, alg, uuid) ∧
      off + H.size ≤ len ∧
      headerData prim ext (slice f off 4096) H.size alg uuid (slice f off H.size) = .ok H := by
  simp only [headerOf, bind_eq_ok, mapErr_eq_ok, sliceOf_eq_ok] at h
  obtain ⟨_, ⟨_, rfl⟩, ⟨size, alg, uuid⟩, hfixed, _, ⟨hin, rfl⟩, hdata⟩ := h
  have hsize : H.size = size := by
    simp only [headerData, bind_eq_ok] at hdata
    obtain ⟨_, _, _, _, _, _, _, _, _, _, _, _, _, _, hret⟩ := hdata
    cases hret
    rfl
  rw [← hsize] at hfixed hin hdata
  exact ⟨alg, uuid, hfixed, hin, hdata⟩

theorem headerOf_size (h : headerOf prim ext f len off = .ok H) :
    HeaderSize H.size ∧ (off = 0 ∨ off = H.size) := by
  obtain ⟨alg, uuid, hfixed, -, -⟩ := headerOf_ok h
  obtain ⟨h1, -, h2⟩ := headerFixed_size hfixed
  exact ⟨h1, h2⟩

/-- The copy of the header that lies at `off`. -/
structure CopyProfile (prim : Primitives) (ext : Parsers) (f : Store) (len off : Nat) (H : Header) :
    Prop where
  inside : off + H.size ≤ len
  magic : HasMagic off (slice f off 4096)
  size : SizeOk H.size ∧ H.size = sizeField (slice f off 4096)
  place : InPlace off (slice f off 4096)
  padding : ((slice f off 4096).extract 264 448 ++ (slice f off 4096).drop 512).any (· ≠ 0) = false
  checksum : ∃ name alg, cstr ((slice f off 4096).extract 72 104) = .ok name ∧
    Hash.parse name = .ok alg ∧
    ((slice f off H.size).extract (448 + alg.size) 512).any (· ≠ 0) = false ∧
    prim.digest alg (clearChecksum (slice f off H.size)) =
    some ((slice f off H.size).extract 448 (448 + alg.size))
  seq : H.seq = beNat ((slice f off 4096).extract 16 24)
  label : cstr ((slice f off 4096).extract 24 72) = .ok H.label
  uuid : cstr ((slice f off 4096).extract 168 208) = .ok H.uuid ∧ ext.uuid H.uuid = true
  subsystem : cstr ((slice f off 4096).extract 208 256) = .ok H.subsystem
  json : ∃ text, untilNul ((slice f off H.size).drop 4096) = .ok text ∧
    parse ext.json text = .ok H.json

theorem headerData_accepts {fixed data : Bytes} {size : Nat} {alg : Hash} {uuid : String} :
    headerData prim ext fixed size alg uuid data = .ok H ↔
    (data.extract (448 + alg.size) 512).any (· ≠ 0) = false ∧
      prim.digest alg (clearChecksum data) = some (data.extract 448 (448 + alg.size)) ∧
      cstr (fixed.extract 24 72) = .ok H.label ∧ cstr (fixed.extract 208 256) = .ok H.subsystem ∧
      (∃ text, untilNul (data.drop 4096) = .ok text ∧ parse ext.json text = .ok H.json) ∧
      H.size = size ∧ H.seq = beNat (fixed.extract 16 24) ∧ H.uuid = uuid := by
  simp only [headerData, Hash.digest, bind_eq_ok, failIf_eq_ok, ofOption_eq_ok, not_not,
    Bool.not_eq_true]
  constructor
  · rintro ⟨_, htail, sum, hsum, _, hstored, text, htext, label, hlabel, subsystem, hsubsystem,
      json, hjson, hret⟩
    obtain rfl := Outcome.ok.inj hret
    exact ⟨htail, by rw [← hstored]; exact hsum, hlabel, hsubsystem, ⟨text, htext, hjson⟩,
      rfl, rfl, rfl⟩
  · rintro ⟨htail, hsum, hlabel, hsubsystem, ⟨text, htext, hjson⟩, rfl, hseq, rfl⟩
    exact ⟨(), htail, _, hsum, (), rfl, text, htext, _, hlabel, _, hsubsystem, _,
      hjson, by rw [← hseq]⟩

theorem headerOf_accepts : headerOf prim ext f len off = .ok H ↔
    CopyProfile prim ext f len off H := by
  constructor
  · intro h
    obtain ⟨alg, uuid, hfixed, hin, hdata⟩ := headerOf_ok h
    obtain ⟨hmagic, hsize, hplace, hpadding, ⟨name, hname, halg⟩, huuid, hok, hstated⟩ :=
      headerFixed_ok_iff.mp hfixed
    obtain ⟨htail, hsum, hlabel, hsubsystem, hjson, -, hseq, rfl⟩ := headerData_accepts.mp hdata
    exact ⟨hin, hmagic, ⟨hstated ▸ hsize, hstated⟩, hplace, hpadding,
      ⟨name, alg, hname, halg, htail, hsum⟩, hseq, hlabel, ⟨huuid, hok⟩, hsubsystem, hjson⟩
  · intro h
    obtain ⟨hsize, hstated⟩ := h.size
    obtain ⟨name, alg, hname, halg, htail, hsum⟩ := h.checksum
    have hin := h.inside
    have hleast := hsize.1.1
    have hfixed : headerFixed ext off (slice f off 4096) = .ok (H.size, alg, H.uuid) :=
      headerFixed_ok_iff.mpr ⟨h.magic, hstated ▸ hsize, h.place, h.padding, ⟨name, hname, halg⟩,
        h.uuid.1, h.uuid.2, hstated⟩
    simp only [headerOf, bind_eq_ok, mapErr_eq_ok, sliceOf_eq_ok]
    exact ⟨_, ⟨by omega, rfl⟩, _, hfixed, _, ⟨hin, rfl⟩,
      headerData_accepts.mpr ⟨htail, hsum, h.label, h.subsystem, h.json, rfl, h.seq, rfl⟩⟩

/-- The two copies behind accepted metadata. -/
theorem readOf_ok (h : readOf prim ext f len = .ok m) :
    ∃ a b, headerOf prim ext f len 0 = .ok a ∧ headerOf prim ext f len a.size = .ok b ∧
      a.size = b.size ∧ a.seq = b.seq ∧ a.uuid = b.uuid ∧ a.label = b.label ∧
      a.subsystem = b.subsystem ∧ a.json = b.json ∧ fromJson ext a.json a.size len = .ok m := by
  simp only [readOf, bind_eq_ok, copiesAgree, failIf_eq_ok] at h
  obtain ⟨a, ha, b, hb, _, hagree, hm⟩ := h
  simp only [not_or, Decidable.not_not] at hagree
  obtain ⟨h1, h2, h3, h4, h5, h6⟩ := hagree
  exact ⟨a, b, ha, hb, h1, h2, h3, h4, h5, h6, hm⟩

/-! ## Copies that are left alone -/

/-- A copy is read from its own bytes only. -/
theorem headerOf_congr (h : headerOf prim ext f len off = .ok H)
    (hfg : ∀ p, off ≤ p → p < off + H.size → f p = g p) :
    headerOf prim ext g len off = .ok H := by
  obtain ⟨alg, uuid, hfixed, hin, hdata⟩ := headerOf_ok h
  have hleast := (headerOf_size h).1.least
  have h1 : slice f off 4096 = slice g off 4096 := slice_congr fun p hp hp' => hfg p hp (by omega)
  have h2 : slice f off H.size = slice g off H.size :=
    slice_congr fun p hp hp' => hfg p hp (by omega)
  rw [h1] at hfixed hdata
  rw [h2] at hdata
  simp only [headerOf, bind_eq_ok, mapErr_eq_ok, sliceOf_eq_ok]
  exact ⟨_, ⟨by omega, rfl⟩, (H.size, alg, uuid), hfixed, _, ⟨hin, rfl⟩, hdata⟩

/-- Metadata depends on nothing behind the two copies. -/
theorem readOf_congr {a : Header} (ha : headerOf prim ext f len 0 = .ok a)
    (h : readOf prim ext f len = .ok m) (hfg : ∀ p, p < 2 * a.size → f p = g p) :
    readOf prim ext g len = .ok m := by
  obtain ⟨a', b, ha', hb, h1, h2, h3, h4, h5, h6, hm⟩ := readOf_ok h
  rw [ha] at ha'
  cases ha'
  have hga := headerOf_congr ha fun p _ hp => hfg p (by omega)
  have hgb := headerOf_congr hb fun p _ hp => hfg p (by omega)
  simp only [readOf, bind_eq_ok, copiesAgree, failIf_eq_ok]
  exact ⟨a, hga, b, hgb, (), by simp [h1, h2, h3, h4, h5, h6], hm⟩

theorem sameRun_header {F F' : File} (img : Image)
    (h : headerOf prim ext F.data img.len off = .ok H) (hsize : F.size = F'.size)
    (hfg : ∀ p, off ≤ p → p < off + H.size → F.data p = F'.data p) :
    SameRun F F' (header prim ext img off) := by
  have hleast := (headerOf_size h).1.least
  obtain ⟨alg, uuid, hfixed, -, -⟩ := headerOf_ok h
  have hread : SameRun F F' (img.readExactAt off 4096) :=
    sameRun_readExactAt img hsize fun p h1 h2 => hfg p h1 (by omega)
  unfold header
  refine sameRun_bind (sameRun_mapErr hread _) fun fixed hf => ?_
  obtain ⟨d, hd, hfixed'⟩ := hf
  -- the bytes that were read are those of the accepted copy, so the size is its size
  have hbytes : fixed = slice F.data off 4096 := by
    have hx := ((computes_mapErr (computes_readExactAt img F off 4096) _).ok hd
      (Prod.ext hfixed' rfl)).1
    exact (sliceOf_eq_ok.mp (mapErr_eq_ok.mp hx)).2.symm
  rw [hbytes]
  refine sameRun_bind (sameRun_lift _) fun e he => ?_
  obtain ⟨_, _, he⟩ := he
  have he' : (H.size, alg, uuid) = e := by
    rw [Run.lift_run, hfixed] at he
    injection he
  subst he'
  have hwhole : SameRun F F' (img.readExactAt off H.size) := sameRun_readExactAt img hsize hfg
  exact sameRun_bind (sameRun_mapErr hwhole _) fun _ _ => sameRun_lift _

/-- Two images that agree on the header copies of an accepted one are read alike. -/
theorem sameRun_read {F F' : File} (img : Image) {a : Header}
    (ha : headerOf prim ext F.data img.len 0 = .ok a) (h : readOf prim ext F.data img.len = .ok m)
    (hsize : F.size = F'.size)
    (hfg : ∀ p, p < 2 * a.size → F.data p = F'.data p) : SameRun F F' (read prim ext img) := by
  obtain ⟨a', b, ha', hb, h1, -⟩ := readOf_ok h
  rw [ha] at ha'
  cases ha'
  have hfirst : SameRun F F' (header prim ext img 0) :=
    sameRun_header img ha hsize fun p _ hp => hfg p (by omega)
  unfold read
  refine sameRun_bind hfirst fun x hx => ?_
  obtain ⟨d, hd, hx⟩ := hx
  have hxa := ((computes_header prim ext img F 0).ok hd (Prod.ext hx rfl)).1
  rw [ha] at hxa
  cases hxa
  refine sameRun_bind (sameRun_header img hb hsize fun p _ hp => hfg p (by omega)) fun _ _ => ?_
  exact sameRun_bind (sameRun_lift _) fun _ _ => sameRun_lift _

end Metadata

end Winluks
