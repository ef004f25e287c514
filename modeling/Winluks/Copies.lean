import Winluks.Format

/-!
# Two generations of metadata

An update rewrites both header copies.  Cut anywhere, it leaves in each copy a
mixture of old and new bytes.  `read_torn` says that no such mixture is read as
metadata: what is accepted is the old generation or the new one, entirely, in
both copies.  The one assumption is about the hash: it tells a proper mixture
from both copies that it is mixed from.
-/

namespace Winluks

open Lib Outcome

namespace Metadata

variable (prim : Primitives) (ext : Parsers)

/-- The stored checksum of a copy is the checksum of its bytes, with the checksum field cleared. -/
def Verifies (copy : Bytes) : Prop :=
  ∃ name alg, cstr (copy.extract 72 104) = .ok name ∧ Hash.parse name = .ok alg ∧
    (copy.extract (448 + alg.size) 512).any (· ≠ 0) = false ∧
    prim.digest alg (clearChecksum copy) = some (copy.extract 448 (448 + alg.size))

/-- No proper mixture of two copies has a valid checksum. -/
def MixturesDetected (c₀ c₁ : Bytes) : Prop :=
  ∀ c, c.length = c₀.length → (∀ i < c.length, c.getD i 0 = c₀.getD i 0 ∨
    c.getD i 0 = c₁.getD i 0) → Verifies prim c → c = c₀ ∨ c = c₁

section
variable (b : Bytes)

@[simp] theorem errs_untilNul : (untilNul b).ErrsIn JsonError := by simp [untilNul, errs_bind]

@[simp] theorem errs_cstr : (cstr b).ErrsIn JsonError := by simp [cstr, errs_bind]

@[simp] theorem errs_parse (json : Bytes → Option Doc) : (parse json b).ErrsIn JsonError := by
  simp [parse]

end

@[simp] theorem returns_headerFixed (off : Nat) (fixed : Bytes) :
    (headerFixed ext off fixed).Returns := by
  simp [headerFixed, returns_bind, (errs_cstr _).returns, (errs_hashParse _).returns]

@[simp] theorem returns_headerData (fixed : Bytes) (size : Nat) (alg : Hash) (uuid : String)
    (data : Bytes) :
    (headerData prim ext fixed size alg uuid data).Returns := by
  simp [headerData, Hash.digest, returns_bind, (errs_untilNul _).returns, (errs_cstr _).returns,
    (errs_parse _ _).returns]

@[simp] theorem returns_headerOf (f : Store) (len off : Nat) :
    (headerOf prim ext f len off).Returns := by
  have hslice :
      ∀ o n, ((sliceOf len f o n).mapErr fun _ => Error.metadataRecoveryRequired).Returns := by
    intro o n
    unfold sliceOf
    split <;> trivial
  simp [headerOf, returns_bind, hslice]

variable {prim ext} {f g f₀ f₁ : Store} {len off : Nat} {H H₀ H₁ : Header} {m m₀ m₁ : Metadata}

/-- Reading metadata ends with a value or an error. -/
theorem returns_readOf : (readOf prim ext f len).Returns := by
  have hjson : ∀ a, headerOf prim ext f len 0 = .ok a →
      ∀ v, (fromJson ext v a.size len).Returns := by
    intro a ha v
    have hleast := (headerOf_size ha).1.least
    exact (errs_fromJson ext v (by omega) len).returns
  simp only [readOf, returns_bind, returns_headerOf, true_and]
  intro a ha b _
  simp only [copiesAgree, returns_failIf, true_and]
  exact fun _ _ => hjson a ha a.json

theorem headerOf_verifies (h : headerOf prim ext f len off = .ok H) :
    Verifies prim (slice f off H.size) := by
  have hleast := (headerOf_size h).1.least
  obtain ⟨alg, uuid, hfixed, -, hdata⟩ := headerOf_ok h
  simp only [headerFixed, bind_eq_ok, failIf_eq_ok] at hfixed
  obtain ⟨_, _, _, _, _, _, _, _, name, hname, alg', halg, _, _, _, _, hret⟩ := hfixed
  obtain ⟨-, hret⟩ := Prod.mk.inj (Outcome.ok.inj hret)
  obtain ⟨rfl, -⟩ := Prod.mk.inj hret
  simp only [headerData, bind_eq_ok, failIf_eq_ok, Hash.digest, ofOption_eq_ok,
    Decidable.not_not] at hdata
  obtain ⟨_, htail, sum, hsum, _, hsame, _⟩ := hdata
  refine ⟨name, alg', ?_, halg, by simpa using htail, by rw [hsum, hsame]⟩
  rw [slice_extract 72 104 (by decide)] at hname
  rw [slice_extract 72 104 (by omega)]
  exact hname

/-- The bytes that hold the size of a copy. -/
theorem headerOf_sizeField (h : headerOf prim ext f len off = .ok H) :
    beNat (slice f (off + 8) 8) = H.size := by
  obtain ⟨alg, uuid, hfixed, -, -⟩ := headerOf_ok h
  obtain ⟨-, hsize, -⟩ := headerFixed_size hfixed
  rw [slice_extract 8 16 (by decide)] at hsize
  exact hsize.symm

/-- A copy whose bytes are those of an accepted one is read as this one. -/
theorem headerOf_eq_of_slice (h₀ : headerOf prim ext f₀ len off = .ok H₀)
    (heq : slice f off H₀.size = slice f₀ off H₀.size) : headerOf prim ext f len off = .ok H₀ := by
  refine headerOf_congr h₀ fun p h1 h2 => ?_
  have := (slice_eq_slice_iff.mp heq) (p - off) (by omega)
  rw [show off + (p - off) = p by omega] at this
  exact this.symm

/-- **One torn copy.**  A mixture of two accepted copies of one size is the one or the other. -/
theorem headerOf_torn (h₀ : headerOf prim ext f₀ len off = .ok H₀)
    (h₁ : headerOf prim ext f₁ len off = .ok H₁) (hsize : H₁.size = H₀.size)
    (hdetect : MixturesDetected prim (slice f₀ off H₀.size) (slice f₁ off H₀.size))
    (hmix : ∀ p, off ≤ p → p < off + H₀.size → f p = f₀ p ∨ f p = f₁ p)
    (h : headerOf prim ext f len off = .ok H) :
    (H = H₀ ∧ slice f off H₀.size = slice f₀ off H₀.size) ∨
    (H = H₁ ∧ slice f off H₀.size = slice f₁ off H₀.size) := by
  have hleast := (headerOf_size h₀).1.least
  -- the size field is the same in both, so it is not torn
  have hfield : slice f₀ (off + 8) 8 = slice f₁ (off + 8) 8 := by
    refine beNat_inj (by simp) ?_
    rw [headerOf_sizeField h₀, headerOf_sizeField h₁, hsize]
  have hsame : H.size = H₀.size := by
    rw [← headerOf_sizeField h, ← headerOf_sizeField h₀]
    congr 1
    refine slice_eq_slice_iff.mpr fun i hi => ?_
    rcases hmix (off + 8 + i) (by omega) (by omega) with hp | hp
    · exact hp
    · rw [hp]
      exact ((slice_eq_slice_iff.mp hfield) i hi).symm
  have hver := headerOf_verifies h
  rw [hsame] at hver
  have hcase := hdetect (slice f off H₀.size) (by simp) (fun i hi => by
    rw [slice_length] at hi
    rw [slice_getD _ _ _ i hi, slice_getD _ _ _ i hi, slice_getD _ _ _ i hi]
    exact hmix (off + i) (by omega) (by omega)) hver
  rcases hcase with hc | hc
  · have := headerOf_eq_of_slice (f := f) h₀ hc
    rw [h] at this
    exact Or.inl ⟨Outcome.ok.inj this, hc⟩
  · have := headerOf_eq_of_slice (f := f) h₁ (by rw [hsize]; exact hc)
    rw [h] at this
    exact Or.inr ⟨Outcome.ok.inj this, hc⟩

/-- **A torn pair of copies**, as far as the content of the image goes. -/
theorem readOf_torn (h₀ : readOf prim ext f₀ len = .ok m₀) (h₁ : readOf prim ext f₁ len = .ok m₁)
    (ha₀ : headerOf prim ext f₀ len 0 = .ok H₀) (ha₁ : headerOf prim ext f₁ len 0 = .ok H₁)
    (hsize : H₁.size = H₀.size) (hseq : H₀.seq ≠ H₁.seq)
    (hdetect : ∀ off, off = 0 ∨ off = H₀.size →
      MixturesDetected prim (slice f₀ off H₀.size) (slice f₁ off H₀.size))
    (hmix : ∀ p, p < 2 * H₀.size → f p = f₀ p ∨ f p = f₁ p) (h : readOf prim ext f len = .ok m) :
    (m = m₀ ∧ ∀ p, p < 2 * H₀.size → f p = f₀ p) ∨
    (m = m₁ ∧ ∀ p, p < 2 * H₀.size → f p = f₁ p) := by
  obtain ⟨a₀, b₀, ha₀', hb₀, hab₀, hseq₀, -, -, -, -, hm₀⟩ := readOf_ok h₀
  obtain ⟨a₁, b₁, ha₁', hb₁, hab₁, hseq₁, -, -, -, -, hm₁⟩ := readOf_ok h₁
  obtain ⟨a, b, ha, hb, hab, hseq', -, -, -, -, hm⟩ := readOf_ok h
  rw [ha₀] at ha₀'
  rw [ha₁] at ha₁'
  cases ha₀'
  cases ha₁'
  -- a copy equal to the old or the new one, byte by byte
  have whole : ∀ {f' : Store}, slice f 0 H₀.size = slice f' 0 H₀.size →
      slice f H₀.size H₀.size = slice f' H₀.size H₀.size → ∀ p, p < 2 * H₀.size → f p = f' p := by
    intro f' h1 h2 p hp
    by_cases hlow : p < H₀.size
    · have := (slice_eq_slice_iff.mp h1) p hlow
      rwa [Nat.zero_add] at this
    · have := (slice_eq_slice_iff.mp h2) (p - H₀.size) (by omega)
      rwa [show H₀.size + (p - H₀.size) = p by omega] at this
  have hfirst := headerOf_torn ha₀ ha₁ hsize (hdetect 0 (Or.inl rfl))
    (fun p _ hp => hmix p (by omega)) ha
  have hasize : a.size = H₀.size := by
    rcases hfirst with ⟨rfl, -⟩ | ⟨rfl, -⟩
    · rfl
    · exact hsize
  rw [hasize] at hb
  rw [hsize] at hb₁
  have hdetect' := hdetect H₀.size (Or.inr rfl)
  rw [hab₀] at hdetect'
  have hsecond := headerOf_torn hb₀ hb₁ (by rw [← hab₁, hsize, hab₀])
    (by rw [← hab₀]; rw [← hab₀] at hdetect'; exact hdetect') (fun p _ hp => hmix p (by omega)) hb
  rw [← hab₀] at hsecond
  rcases hfirst with ⟨rfl, hs⟩ | ⟨rfl, hs⟩ <;> rcases hsecond with ⟨rfl, hs'⟩ | ⟨rfl, hs'⟩
  · rw [hm₀] at hm
    exact Or.inl ⟨(Outcome.ok.inj hm).symm, whole hs hs'⟩
  · omega
  · omega
  · rw [hm₁] at hm
    exact Or.inr ⟨(Outcome.ok.inj hm).symm, whole hs hs'⟩

/-- **No mixture of two generations is accepted.**  Let `d₀` and `d₁` be images with one header size
and different sequence numbers, both read as metadata, and let every byte of the header copies of
`F` come from the one or the other.  Then what is read from `F` is an error, or the metadata of
`d₀` with all its header bytes, or the metadata of `d₁` with all of these. -/
theorem read_torn {img₀ img₁ img : Image} {d₀ d₀' d₁ d₁' : Disk} {F : File}
    (hlen₀ : img₀.len = img.len) (hlen₁ : img₁.len = img.len)
    (h₀ : read prim ext img₀ d₀ = (.ok m₀, d₀')) (h₁ : read prim ext img₁ d₁ = (.ok m₁, d₁'))
    (ha₀ : headerOf prim ext d₀.file.data img.len 0 = .ok H₀)
    (ha₁ : headerOf prim ext d₁.file.data img.len 0 = .ok H₁)
    (hsize : H₁.size = H₀.size) (hseq : H₀.seq ≠ H₁.seq)
    (hdetect : ∀ off, off = 0 ∨ off = H₀.size →
      MixturesDetected prim (slice d₀.file.data off H₀.size) (slice d₁.file.data off H₀.size))
    (hmix : ∀ p, p < 2 * H₀.size → F.data p = d₀.file.data p ∨ F.data p = d₁.file.data p) :
    ∃ x, Computes img.len F (read prim ext img) x ∧
      ((∃ e, x = .err e) ∨ (x = .ok m₀ ∧ ∀ p, p < 2 * H₀.size → F.data p = d₀.file.data p) ∨
        (x = .ok m₁ ∧ ∀ p, p < 2 * H₀.size → F.data p = d₁.file.data p)) := by
  have hm₀ := ((computes_read prim ext img₀ d₀.file).ok rfl h₀).1
  have hm₁ := ((computes_read prim ext img₁ d₁.file).ok rfl h₁).1
  rw [hlen₀] at hm₀
  rw [hlen₁] at hm₁
  refine ⟨_, computes_read prim ext img F, ?_⟩
  have hret := @returns_readOf prim ext F.data img.len
  rcases hx : readOf prim ext F.data img.len with m | e | _ | _
  · rcases readOf_torn hm₀ hm₁ ha₀ ha₁ hsize hseq hdetect hmix hx with ⟨rfl, h⟩ | ⟨rfl, h⟩
    · exact Or.inr (Or.inl ⟨rfl, h⟩)
    · exact Or.inr (Or.inr ⟨rfl, h⟩)
  · exact Or.inl ⟨e, rfl⟩
  · rw [hx] at hret
    exact hret.elim
  · rw [hx] at hret
    exact hret.elim

/-- What a valid checksum says about a copy of the small image, damaged or not. -/
theorem sample_checksum {c : Bytes} {seq off : Nat} (hseq : seq < 2 ^ 64) (hlen : c.length = 16384)
    (hname : ∀ k, 72 ≤ k → k < 104 →
      c.getD k 0 = ((Sample.copy seq).bytes off (Sample.sum seq)).getD k 0)
    (h : Verifies Sample.prim c) {j : Nat} (hj : j < 32) :
    c.getD (448 + j) 0 = c.getD 23 0 + c.getD 264 0 := by
  obtain ⟨name, alg, hcstr, halg, -, hdigest⟩ := h
  have hsum : (Sample.sum seq).length ≤ 64 := by simp [Sample.sum]
  have hclear : ∀ i < 448, (clearChecksum c).getD i 0 = c.getD i 0 := by
    intro i hi
    unfold clearChecksum
    rw [List.append_assoc, List.getD_append _ _ _ _ (by rw [List.length_take]; omega),
      List.getD_eq_getElem _ _ (by rw [List.length_take]; omega),
      List.getD_eq_getElem _ _ (by omega), List.getElem_take]
  have hsha : alg = .sha256 := by
    have hsha : cstr (padded 32 (textBytes "sha256")) = .ok "sha256" :=
      cstr_padded (Hash.name_fits .sha256)
    rw [extract_congr (hlen.trans (Copy.bytes_length (Sample.copy_valid hseq) hsum).symm) hname,
      (Sample.marked hseq off hsum).1.name, hsha] at hcstr
    cases hcstr
    cases halg
    rfl
  subst hsha
  have h : (List.replicate 32 ((clearChecksum c).getD 23 0 + (clearChecksum c).getD 264 0)).getD j
      0 = (c.extract 448 480).getD j 0 := congrArg (fun b => b.getD j 0) (Option.some.inj hdigest)
  rw [List.getD_replicate _ hj, hclear 23 (by decide), hclear 264 (by decide),
    extract_getD c hj] at h
  exact h.symm

/-- A mixture of two generations of the small image is told by its number. -/
theorem sample_detects (off : Nat) :
    MixturesDetected Sample.prim ((Sample.copy 1).bytes off (Sample.sum 1))
    ((Sample.copy 2).bytes off (Sample.sum 2)) := by
  intro c hlen hmix hver
  obtain ⟨h₁, -⟩ := @Sample.marked 1 (by decide) off (Sample.sum 1) (by decide)
  obtain ⟨h₂, -⟩ := @Sample.marked 2 (by decide) off (Sample.sum 2) (by decide)
  have hsize : ∀ seq, seq < 2 ^ 64 →
      ((Sample.copy seq).bytes off (Sample.sum seq)).length = 16384 := fun seq h =>
    Copy.bytes_length (Sample.copy_valid h) (by simp [Sample.sum])
  rw [hsize 1 (by decide)] at hlen
  rw [hlen] at hmix
  -- where the generations agree, the mixture is both of them
  have hsame : ∀ i < 16384, i ≠ 23 → ¬ (448 ≤ i ∧ i < 480) →
      c.getD i 0 = ((Sample.copy 1).bytes off (Sample.sum 1)).getD i 0 := by
    intro i hi h23 hsum
    have := hmix i hi
    rwa [← Sample.bytes_agree off h23 hsum, or_self] at this
  have hsum : ∀ j < 32, c.getD (448 + j) 0 = c.getD 23 0 := by
    intro j hj
    rw [@sample_checksum c 1 off (by decide) hlen (fun k _ hk =>
      hsame k (by omega) (by omega) (by omega)) hver j hj,
      hsame 264 (by decide) (by decide) (by decide), h₁.padding, UInt8.add_zero]
  have whole : ∀ seq, seq < 2 ^ 64 → c.getD 23 0 = UInt8.ofNat seq →
      (∀ i < 16384, i ≠ 23 → ¬ (448 ≤ i ∧ i < 480) →
        c.getD i 0 = ((Sample.copy seq).bytes off (Sample.sum seq)).getD i 0) →
      c = (Sample.copy seq).bytes off (Sample.sum seq) := by
    intro seq hseq h23 hrest
    apply List.ext_getElem
    · rw [hlen, hsize seq hseq]
    · intro i hi hi'
      rw [← List.getD_eq_getElem _ 0 hi, ← List.getD_eq_getElem _ 0 hi']
      by_cases hi23 : i = 23
      · rw [hi23, h23, (Sample.marked hseq off (by simp [Sample.sum])).1.number]
      · by_cases hisum : 448 ≤ i ∧ i < 480
        · obtain ⟨j, rfl⟩ := Nat.exists_eq_add_of_le hisum.1
          rw [hsum j (by omega), h23, Sample.checksum_byte hseq off (by omega)]
        · exact hrest i (by omega) hi23 hisum
  rcases hmix 23 (by decide) with h23 | h23
  · exact Or.inl (whole 1 (by decide) (h23.trans h₁.number) hsame)
  · refine Or.inr (whole 2 (by decide) (h23.trans h₂.number) fun i hi hne hout => ?_)
    rw [hsame i hi hne hout, Sample.bytes_agree off hne hout]

/-- An update from generation 1 to generation 2 that was cut behind the first copy. -/
def tornSample : File :=
  ⟨Sample.imageLen, fun p => if p < 16384 then Sample.store 2 (fun _ => 0) p else
  Sample.store 1 (fun _ => 0) p, fun _ => 0, []⟩

theorem read_torn_sample : ∃ x, Computes Sample.imageLen tornSample
    (read Sample.prim Sample.parsers (Sample.image .readOnly)) x ∧
    ((∃ e, x = .err e) ∨
      (x = .ok Sample.metadata ∧ ∀ p < 2 * 16384, tornSample.data p =
        Sample.store 1 (fun _ => 0) p) ∨
      (x = .ok Sample.metadata ∧ ∀ p < 2 * 16384, tornSample.data p =
        Sample.store 2 (fun _ => 0) p)) := by
  obtain ⟨d₀, h₀⟩ := @Sample.read_store 1 (by decide) (fun _ => 0) .readOnly
  obtain ⟨d₁, h₁⟩ := @Sample.read_store 2 (by decide) (fun _ => 0) .readOnly
  refine read_torn rfl rfl h₀ h₁ (Sample.headerOf_store (by decide) _)
    (Sample.headerOf_store (by decide) _) rfl (show 1 ≠ 2 by decide) ?_ fun p _ => ?_
  · rintro off (rfl | rfl)
    · have h := sample_detects 0
      rwa [← Sample.store_first (by decide) (fun _ => 0),
        ← Sample.store_first (by decide) (fun _ => 0)] at h
    · show MixturesDetected _ (slice (Sample.store 1 _) (Sample.copy 1).size (Sample.copy 1).size)
        (slice (Sample.store 2 _) (Sample.copy 2).size (Sample.copy 2).size)
      rw [Sample.store_second (by decide), Sample.store_second (by decide)]
      exact sample_detects (Sample.copy 1).size
  · show (if p < 16384 then _ else _) = _ ∨ (if p < 16384 then _ else _) = _
    split
    · exact Or.inr rfl
    · exact Or.inl rfl

end Metadata

end Winluks
