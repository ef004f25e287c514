import Winluks.Copies

/-!
# A damaged header copy

`header` looks at the fields of a copy before it looks at the checksum, and
reports some of them with errors of their own.  `Reports` spells out, on the
bytes of a copy, when the first check that fails is one that asks for recovery.
`read_damaged` says that this decides what an image with one damaged copy is
read as.
-/

namespace Winluks

open Lib Outcome

namespace Metadata

variable (prim : Primitives) (ext : Parsers)

/-- Of the checks that the copy at `off` fails, the first is one that asks for recovery: its magic;
its place, after a valid size; or, when everything in front of it is readable, its checksum over the
size that it states. -/
def Reports (f : Store) (len off : Nat) : Prop :=
  ¬ HasMagic off (slice f off 4096) ∨
  (SizeOk (sizeField (slice f off 4096)) ∧
    (¬ InPlace off (slice f off 4096) ∨
      (Readable ext (slice f off 4096) ∧
        (len < off + sizeField (slice f off 4096) ∨
          ¬ Verifies prim (slice f off (sizeField (slice f off 4096)))))))

/-- Two headers do not record the same. -/
def Differs (a b : Header) : Prop :=
  a.size ≠ b.size ∨ a.seq ≠ b.seq ∨ a.uuid ≠ b.uuid ∨ a.label ≠ b.label ∨
  a.subsystem ≠ b.subsystem ∨ a.json ≠ b.json

instance (a b : Header) : Decidable (Differs a b) := inferInstanceAs (Decidable (_ ∨ _))

/-- A smaller copy was put in the place of the first one: its bytes are in order, and at its end lie
the bytes of a copy that asks for recovery, or of one that is in order and records something
else. -/
def Replaced (f : Store) (len h : Nat) : Prop :=
  ∃ a, CopyProfile prim ext f len 0 a ∧ a.size < h ∧
    (Reports prim ext f len a.size ∨ ∃ b, CopyProfile prim ext f len a.size b ∧ Differs a b)

section
variable {prim ext} {f g : Store} {len off h : Nat} {fixed : Bytes} {H : Header} {m : Metadata}

theorem not_jsonError : ¬ JsonError .metadataRecoveryRequired := nofun

/-- An error about the JSON is not one that asks for recovery. -/
theorem ne_recovery {α : Type} {x : Outcome Error α} (h : x.ErrsIn JsonError) :
    x ≠ .err .metadataRecoveryRequired :=
  fun hx => not_jsonError (h.err hx)

theorem headerFixed_recovery : headerFixed ext off fixed = .err .metadataRecoveryRequired ↔
    ¬ HasMagic off fixed ∨ (SizeOk (sizeField fixed) ∧ ¬ InPlace off fixed) := by
  unfold headerFixed HasMagic SizeOk InPlace sizeField
  by_cases hmagic : fixed.take 6 ≠ magic off ∨ fixed.extract 6 8 ≠ [0, 2]
  · rw [failIf_pos hmagic, err_bind]
    have : ¬ (fixed.take 6 = magic off ∧ fixed.extract 6 8 = [0, 2]) := by tauto
    simp only [this, not_false_eq_true, true_or]
  rw [failIf_neg hmagic, ok_bind]
  have hmagic' : fixed.take 6 = magic off ∧ fixed.extract 6 8 = [0, 2] := by tauto
  dsimp only
  by_cases hsize :
    ¬ (16 * 1024 ≤ beNat (fixed.extract 8 16) ∧ beNat (fixed.extract 8 16) ≤ 4 * 1024 * 1024) ∨
      isPowerOfTwo (beNat (fixed.extract 8 16)) = false
  · rw [failIf_pos hsize, err_bind]
    simp only [hmagic', and_self, not_true, false_or]
    constructor
    · nofun
    · rintro ⟨⟨h1, h2⟩, -⟩
      rw [h2] at hsize
      exact absurd h1 (by simpa using hsize)
  rw [failIf_neg hsize, ok_bind]
  have hsize' :
      (16 * 1024 ≤ beNat (fixed.extract 8 16) ∧ beNat (fixed.extract 8 16) ≤ 4 * 1024 * 1024) ∧
      isPowerOfTwo (beNat (fixed.extract 8 16)) = true := by
    cases hp : isPowerOfTwo (beNat (fixed.extract 8 16)) with
    | true => exact ⟨by tauto, rfl⟩
    | false => exact absurd (Or.inr hp) hsize
  by_cases hplace : off ≠ beNat (fixed.extract 256 264) ∨
    (off ≠ 0 ∧ off ≠ beNat (fixed.extract 8 16))
  · rw [failIf_pos hplace, err_bind]
    have : ¬ (off = beNat (fixed.extract 256 264) ∧
        (off = 0 ∨ off = beNat (fixed.extract 8 16))) := by tauto
    simp only [hsize', this, not_false_eq_true, and_self, or_true]
  rw [failIf_neg hplace, ok_bind]
  have hplace' : off = beNat (fixed.extract 256 264) ∧
      (off = 0 ∨ off = beNat (fixed.extract 8 16)) := by tauto
  -- what is left reports the JSON errors only
  constructor
  · intro h
    refine absurd h (ne_recovery ?_)
    simp [errs_bind]
  · rintro (h | ⟨-, h⟩)
    · exact absurd hmagic' h
    · exact absurd hplace' h

/-- When the fixed part is in order, only the checksum asks for recovery. -/
theorem headerData_recovery (hdigest : ∀ alg b, prim.digest alg b ≠ none) {size : Nat} {alg : Hash}
    {uuid name : String} {data : Bytes} (hname : cstr (data.extract 72 104) = .ok name)
    (halg : Hash.parse name = .ok alg) :
    headerData prim ext fixed size alg uuid data = .err .metadataRecoveryRequired ↔
    ¬ Verifies prim data := by
  have hver : Verifies prim data ↔ (data.extract (448 + alg.size) 512).any (· ≠ 0) = false ∧
      prim.digest alg (clearChecksum data) = some (data.extract 448 (448 + alg.size)) := by
    constructor
    · rintro ⟨name', alg', hn, ha, h⟩
      rw [hname] at hn
      cases hn
      rw [halg] at ha
      cases ha
      exact h
    · intro h
      exact ⟨name, alg, hname, halg, h⟩
  rw [hver]
  obtain ⟨sum, hsum⟩ := Option.ne_none_iff_exists'.mp (hdigest alg (clearChecksum data))
  unfold headerData Hash.digest
  cases htail : (data.extract (448 + alg.size) 512).any (· ≠ 0) with
  | true => simp
  | false =>
    rw [failIf_neg (by simp), ok_bind, hsum, ofOption_some, ok_bind]
    by_cases hsame : sum = data.extract 448 (448 + alg.size)
    · rw [failIf_neg (not_not_intro hsame), ok_bind]
      simp only [hsame, and_self, not_true, iff_false]
      refine ne_recovery ?_
      simp [errs_bind]
    · rw [failIf_pos hsame, err_bind]
      exact ⟨fun _ h => hsame (Option.some.inj h.2), fun _ => rfl⟩

/-- **The outcome of one copy.**  A copy that lies in the image asks for recovery exactly when it
`Reports`. -/
theorem headerOf_recovery (hdigest : ∀ alg b, prim.digest alg b ≠ none) (hin : off + 4096 ≤ len) :
    headerOf prim ext f len off = .err .metadataRecoveryRequired ↔ Reports prim ext f len off := by
  have hslice : (sliceOf len f off 4096).mapErr (fun _ => Error.metadataRecoveryRequired) =
      .ok (slice f off 4096) := by
    rw [sliceOf_inside f hin]
    rfl
  unfold headerOf Reports
  rw [hslice, ok_bind, bind_eq_err, headerFixed_recovery]
  constructor
  · rintro ((h | h) | ⟨⟨size, alg, uuid⟩, hfixed, h⟩)
    · exact Or.inl h
    · exact Or.inr ⟨h.1, Or.inl h.2⟩
    · obtain ⟨hmagic, hsize, hplace, hclean, ⟨name, hname, halg⟩, huuid, hok, hs⟩ :=
        headerFixed_ok_iff.mp hfixed
      dsimp only at h
      rw [hs] at h
      refine Or.inr ⟨hsize, Or.inr ⟨⟨hclean, ⟨name, alg, hname, halg⟩, uuid, huuid, hok⟩, ?_⟩⟩
      by_cases hfit : off + sizeField (slice f off 4096) ≤ len
      · rw [sliceOf_inside f hfit] at h
        have hleast := hsize.1.1
        rw [slice_extract 72 104 (by decide)] at hname
        refine Or.inr ((headerData_recovery hdigest ?_ halg).mp h)
        rw [slice_extract 72 104 (by omega)]
        exact hname
      · exact Or.inl (by omega)
  · rintro (h | ⟨hsize, h | ⟨⟨hclean, ⟨name, alg, hname, halg⟩, uuid, huuid, hok⟩, h⟩⟩)
    · exact Or.inl (Or.inl h)
    · exact Or.inl (Or.inr ⟨hsize, h⟩)
    · by_cases hmagic : HasMagic off (slice f off 4096)
      · by_cases hplace : InPlace off (slice f off 4096)
        · refine Or.inr ⟨(_, alg, uuid),
            headerFixed_ok_iff.mpr ⟨hmagic, hsize, hplace, hclean, ⟨name, hname, halg⟩, huuid,
              hok, rfl⟩, ?_⟩
          by_cases hfit : off + sizeField (slice f off 4096) ≤ len
          · have hbroken : ¬ Verifies prim (slice f off (sizeField (slice f off 4096))) := by
              rcases h with h | h
              · omega
              · exact h
            have hleast := hsize.1.1
            dsimp only
            rw [sliceOf_inside f hfit]
            refine (headerData_recovery hdigest ?_ halg).mpr hbroken
            rw [slice_extract 72 104 (by decide)] at hname
            rw [slice_extract 72 104 (by omega)]
            exact hname
          · dsimp only
            rw [sliceOf_outside f hfit]
            rfl
        · exact Or.inl (Or.inr ⟨hsize, hplace⟩)
      · exact Or.inl (Or.inl hmagic)

/-! ## The outcome of an image -/

/-- Behind a first copy that is accepted, what asks for recovery is the second copy or a
difference. -/
theorem readOf_recovery (ha : headerOf prim ext f len 0 = .ok H) :
    readOf prim ext f len = .err .metadataRecoveryRequired ↔
      headerOf prim ext f len H.size = .err .metadataRecoveryRequired ∨
      ∃ b, headerOf prim ext f len H.size = .ok b ∧ Differs H b := by
  have hleast := (headerOf_size ha).1.least
  unfold readOf
  rw [ha, ok_bind, bind_eq_err]
  refine or_congr Iff.rfl (exists_congr fun b => and_congr Iff.rfl ?_)
  rw [bind_eq_err]
  constructor
  · rintro (h | ⟨_, -, h⟩)
    · exact (failIf_eq_err.mp h).1
    · exact absurd h (ne_recovery (errs_fromJson ext H.json (by omega) len))
  · exact fun h => Or.inl (failIf_pos h _)

/-- Behind the first zero there are only zeros. -/
theorem untilNul_zeros {b s : Bytes} (h : untilNul b = .ok s) {i j : Nat} (hij : i < j)
    (hj : j < b.length) (hi : b.getD i 0 = 0) : b.getD j 0 = 0 := by
  simp only [untilNul, bind_eq_ok, failIf_eq_ok] at h
  obtain ⟨_, -, _, hrest, -⟩ := h
  have hsplit := List.takeWhile_append_dropWhile (p := fun x : UInt8 => decide (x ≠ 0)) (l := b)
  have hlen : (b.takeWhile fun x => decide (x ≠ 0)).length ≤ i := by
    by_contra hlt
    rw [← hsplit, List.getD_append _ _ _ _ (by omega), List.getD_eq_getElem _ _ (by omega)] at hi
    have hall := List.all_eq_true.mp (@List.all_takeWhile _ (fun x : UInt8 => decide (x ≠ 0)) b) _
      (List.getElem_mem (by omega : i < (b.takeWhile fun x => decide (x ≠ 0)).length))
    exact of_decide_eq_true hall hi
  have hjlen : j - (b.takeWhile fun x => decide (x ≠ 0)).length <
      (b.dropWhile fun x => decide (x ≠ 0)).length := by
    have := congrArg List.length hsplit
    rw [List.length_append] at this
    omega
  rw [← hsplit, List.getD_append_right _ _ _ _ (by omega), List.getD_eq_getElem _ _ hjlen]
  by_contra hne
  exact hrest (List.any_eq_true.mpr ⟨_, List.getElem_mem hjlen, by simpa using hne⟩)

/-- The JSON area of a first copy cannot reach over the magic and the version of the second one. -/
theorem size_le_of_second {b : Header} (ha : headerOf prim ext g len 0 = .ok H)
    (hb : headerOf prim ext f len b.size = .ok b) (hsame : ∀ p, b.size ≤ p → g p = f p) :
    H.size ≤ b.size := by
  obtain ⟨halgn, -⟩ := headerOf_size ha
  obtain ⟨hbalgn, -⟩ := headerOf_size hb
  by_contra hlt
  have htwice : 2 * b.size ≤ H.size := by
    obtain ⟨i, hi⟩ := halgn.power
    obtain ⟨j, hj⟩ := hbalgn.power
    rw [hi, hj] at hlt ⊢
    have hji : j < i := (Nat.pow_lt_pow_iff_right (a := 2) (by decide)).mp (by omega)
    calc 2 * 2 ^ j = 2 ^ (j + 1) := by rw [Nat.pow_succ, Nat.mul_comm]
      _ ≤ 2 ^ i := Nat.pow_le_pow_right (by decide) hji
  have hleast := hbalgn.least
  obtain ⟨alg, uuid, -, -, hdata⟩ := headerOf_ok ha
  simp only [headerData, bind_eq_ok, slice_drop, Nat.zero_add] at hdata
  obtain ⟨_, _, _, _, _, _, text, htext, _⟩ := hdata
  obtain ⟨_, _, hfixed, -, -⟩ := headerOf_ok hb
  have hmagic := (headerFixed_ok_iff.mp hfixed).1.2
  rw [slice_extract 6 8 (by decide)] at hmagic
  have hver : f (b.size + 6) = 0 ∧ f (b.size + 7) = 2 := by
    have h0 := slice_getD f (b.size + 6) 2 0 (by decide)
    have h1 := slice_getD f (b.size + 6) 2 1 (by decide)
    rw [show (2 : Nat) = 8 - 6 from rfl, hmagic] at h0 h1
    exact ⟨h0.symm, h1.symm⟩
  have hzero := untilNul_zeros htext (i := b.size + 6 - 4096) (j := b.size + 7 - 4096) (by omega)
    (by rw [slice_length]; omega)
    (by rw [slice_getD _ _ _ _ (by omega), show 4096 + (b.size + 6 - 4096) = b.size + 6 by omega,
      hsame _ (by omega), hver.1])
  rw [slice_getD _ _ _ _ (by omega), show 4096 + (b.size + 7 - 4096) = b.size + 7 by omega,
    hsame _ (by omega), hver.2] at hzero
  exact absurd hzero (by decide)

/-- **One damaged copy**, as far as the content of the image goes. -/
theorem readOf_damaged (hdigest : ∀ alg b, prim.digest alg b ≠ none)
    (hm : readOf prim ext f len = .ok m) (ha : headerOf prim ext f len 0 = .ok H)
    (hoff : off = 0 ∨ off = H.size)
    (hsame : ∀ p, ¬ (off ≤ p ∧ p < off + H.size) → g p = f p)
    (hbroken : ¬ Verifies prim (slice g off H.size)) :
    readOf prim ext g len = .err .metadataRecoveryRequired ↔
      Reports prim ext g len off ∨ (off = 0 ∧ Replaced prim ext g len H.size) := by
  obtain ⟨a, b, ha', hb, hab, -⟩ := readOf_ok hm
  rw [ha] at ha'
  cases ha'
  have hleast := (headerOf_size ha).1.least
  obtain ⟨_, _, -, hin, -⟩ := headerOf_ok hb
  rw [← hab] at hin
  rcases hoff with rfl | rfl
  · -- the first copy is the damaged one
    have hfirst := @headerOf_recovery prim ext g len 0 hdigest (by omega)
    constructor
    · intro h
      rw [readOf, bind_eq_err] at h
      rcases h with h | ⟨a', ha', h⟩
      · exact Or.inl (hfirst.mp h)
      · refine Or.inr ⟨rfl, a', headerOf_accepts.mp ha', ?_, ?_⟩
        · have hle : a'.size ≤ b.size :=
            size_le_of_second ha' (hab ▸ hb) fun p hp => hsame p (by omega)
          have hne : a'.size ≠ H.size := fun heq => hbroken (heq ▸ headerOf_verifies ha')
          omega
        · have hle : a'.size ≤ b.size :=
            size_le_of_second ha' (hab ▸ hb) fun p hp => hsame p (by omega)
          have hsecond := @headerOf_recovery prim ext g len a'.size hdigest (by omega)
          rw [← hsecond]
          simp only [← headerOf_accepts]
          exact (readOf_recovery ha').mp (by rw [readOf, ha']; exact h)
    · rintro (h | ⟨-, a', ha', hlt, h⟩)
      · rw [readOf, hfirst.mpr h]
        rfl
      · have hsecond := @headerOf_recovery prim ext g len a'.size hdigest (by omega)
        rw [readOf_recovery (headerOf_accepts.mpr ha'), hsecond]
        simpa only [headerOf_accepts] using h
  · -- the second copy is the damaged one; the first is as it was
    have hga : headerOf prim ext g len 0 = .ok H :=
      headerOf_congr ha fun p _ hp => (hsame p (by omega)).symm
    have hsecond := @headerOf_recovery prim ext g len H.size hdigest (by omega)
    rw [readOf_recovery hga, hsecond]
    constructor
    · rintro (h | ⟨b', hb', -⟩)
      · exact Or.inl h
      · have hsize : b'.size = H.size := by
          rcases (headerOf_size hb').2 with h | h
          · omega
          · exact h.symm
        have hver := headerOf_verifies hb'
        rw [hsize] at hver
        exact absurd hver hbroken
    · rintro (h | ⟨h, -⟩)
      · exact Or.inl h
      · omega

/-- **When a damaged copy is reported.**  Take an image that is accepted, change bytes of one of
its header copies only, and let the checksum of this copy be wrong.  Reading the image asks for
recovery exactly when, of the checks that the damaged copy fails, the first one does; or when it
was replaced with a smaller valid copy that the one behind it does not match. -/
theorem read_damaged (hdigest : ∀ alg b, prim.digest alg b ≠ none) {img₀ img : Image}
    {d d' : Disk} {F : File} (hlen : img₀.len = img.len)
    (hread : read prim ext img₀ d = (.ok m, d'))
    (ha : headerOf prim ext d.file.data img.len 0 = .ok H) (hoff : off = 0 ∨ off = H.size)
    (hsame : ∀ p, ¬ (off ≤ p ∧ p < off + H.size) → F.data p = d.file.data p)
    (hbroken : ¬ Verifies prim (slice F.data off H.size)) :
    ∃ x, Computes img.len F (read prim ext img) x ∧ (x = .err .metadataRecoveryRequired ↔
      Reports prim ext F.data img.len off ∨
      (off = 0 ∧ Replaced prim ext F.data img.len H.size)) := by
  have hm := ((computes_read prim ext img₀ d.file).ok rfl hread).1
  rw [hlen] at hm
  exact ⟨_, computes_read prim ext img F, readOf_damaged hdigest hm ha hoff hsame hbroken⟩

/-- Padding that is not clean is an unsupported profile, whatever the checksum. -/
theorem headerFixed_dirty (hmagic : HasMagic off fixed) (hsize : SizeOk (sizeField fixed))
    (hplace : InPlace off fixed) (hdirty :
      (fixed.extract 264 448 ++ fixed.drop 512).any (· ≠ 0) = true) :
    headerFixed ext off fixed = .err .unsupportedProfile := by
  have h1 : ¬ (fixed.take 6 ≠ magic off ∨ fixed.extract 6 8 ≠ [0, 2]) := by
    rw [not_or, Decidable.not_not, Decidable.not_not]
    exact hmagic
  have h2 : ¬ (¬ (16 * 1024 ≤ beNat (fixed.extract 8 16) ∧
      beNat (fixed.extract 8 16) ≤ 4 * 1024 * 1024) ∨
      isPowerOfTwo (beNat (fixed.extract 8 16)) = false) := by
    rw [not_or, Decidable.not_not]
    exact ⟨hsize.1, fun h => by
      rw [show isPowerOfTwo (beNat (fixed.extract 8 16)) = true from hsize.2] at h
      cases h⟩
  have h3 : ¬ (off ≠ beNat (fixed.extract 256 264) ∨
      (off ≠ 0 ∧ off ≠ beNat (fixed.extract 8 16))) := by
    have := hplace.1
    have := hplace.2
    unfold sizeField at this
    omega
  unfold headerFixed
  rw [failIf_neg h1, ok_bind]
  dsimp only
  rw [failIf_neg h2, ok_bind, failIf_neg h3, ok_bind, failIf_pos hdirty, err_bind]

end

/-- The small image with one padding byte of its second copy set. -/
def damagedSample : File :=
  ⟨Sample.imageLen, overlay (Sample.store 1 fun _ => 0) (16384 + 264) [1], fun _ => 0, []⟩

theorem damagedSample_eq {p : Nat} (h : p ≠ 16384 + 264) :
    damagedSample.data p = Sample.store 1 (fun _ => 0) p :=
  overlay_of_not_mem _ _ _ (by rw [List.length_singleton]; omega)

theorem damagedSample_slice {o n : Nat} (h : o + n ≤ 16384 + 264 ∨ 16384 + 264 < o) :
    slice damagedSample.data o n = slice (Sample.store 1 fun _ => 0) o n :=
  slice_congr fun _ h1 h2 => damagedSample_eq (by omega)

theorem damagedSample_byte {i : Nat} (hi : i < 16384) :
    (slice damagedSample.data 16384 16384).getD i 0 =
    if i = 264 then 1 else ((Sample.copy 1).bytes 16384 (Sample.sum 1)).getD i 0 := by
  have hsecond := @Sample.store_second 1 (by decide) (fun _ => 0)
  rw [Sample.copy_size] at hsecond
  rw [slice_getD _ _ _ _ hi, ← hsecond, slice_getD _ _ _ _ hi]
  split
  · next h =>
    rw [h]
    rfl
  · exact damagedSample_eq (by omega)

theorem damagedSample_broken : ¬ Verifies Sample.prim (slice damagedSample.data 16384 16384) := by
  intro h
  obtain ⟨hmarked, -⟩ := @Sample.marked 1 (by decide) 16384 (Sample.sum 1) (by decide)
  have hsum := @sample_checksum _ 1 16384 (by decide) (by simp) (fun k _ hk => by
    rw [damagedSample_byte (by omega), if_neg (by omega)]) h 0 (by decide)
  rw [damagedSample_byte (by decide), damagedSample_byte (by decide),
    damagedSample_byte (by decide), if_neg (by decide), if_neg (by decide), if_pos rfl,
    Sample.checksum_byte (by decide) 16384 (by decide), hmarked.number] at hsum
  exact absurd hsum (by decide)

theorem read_damagedSample :
    readOf Sample.prim Sample.parsers damagedSample.data Sample.imageLen =
    .err .unsupportedProfile := by
  have hfirst : headerOf Sample.prim Sample.parsers damagedSample.data Sample.imageLen 0 =
      .ok ((Sample.copy 1).header Sample.json) := by
    refine headerOf_congr (Sample.headerOf_store (by decide) fun _ => 0) fun p _ hp =>
      (damagedSample_eq ?_).symm
    have hp : p < 0 + 16384 := hp
    omega
  have hw := Copy.written (Sample.copy_valid (by decide)) (by decide)
    (@Sample.store_second 1 (by decide) fun _ => 0)
  rw [Sample.copy_size] at hw
  have hfixed : headerFixed Sample.parsers 16384 (slice damagedSample.data 16384 4096) =
      .err .unsupportedProfile := by
    refine headerFixed_dirty ⟨?_, ?_⟩ ?_ ⟨?_, Or.inr ?_⟩ ?_
    · rw [slice_take 6 (by decide), damagedSample_slice (Or.inl (by decide)), hw.magic]
    · rw [slice_extract 6 8 (by decide), damagedSample_slice (Or.inl (by decide)), hw.version]
    · rw [sizeField, slice_extract 8 16 (by decide), damagedSample_slice (Or.inl (by decide)),
        hw.size]
      exact ⟨by decide, by decide⟩
    · rw [slice_extract 256 264 (by decide), damagedSample_slice (Or.inl (by decide)), hw.offset]
      decide
    · rw [sizeField, slice_extract 8 16 (by decide), damagedSample_slice (Or.inl (by decide)),
        hw.size]
      decide
    · rw [List.any_append, Bool.or_eq_true]
      left
      rw [List.any_eq_true]
      have hbyte : (slice damagedSample.data (16384 + 264) 184).getD 0 0 = 1 :=
        slice_getD _ _ _ _ (by decide)
      rw [slice_extract 264 448 (by decide)]
      refine ⟨1, ?_, by decide⟩
      rw [← hbyte, List.getD_eq_getElem _ _ (by simp)]
      exact List.getElem_mem _
  rw [readOf, hfirst, ok_bind]
  show (headerOf _ _ _ _ 16384 >>= _) = _
  rw [headerOf, sliceOf_inside _ (by decide), Outcome.mapErr, ok_bind, hfixed]
  rfl

/-- A damaged copy that is not reported: the checksum is wrong, but the padding is looked at
first. -/
theorem damaged_unreported :
    (∃ d', read Sample.prim Sample.parsers (Sample.image .readOnly)
      (Sample.disk (Sample.store 1 fun _ => 0)) = (.ok Sample.metadata, d')) ∧
    (∀ p, ¬ (16384 ≤ p ∧ p < 16384 + 16384) →
      damagedSample.data p = Sample.store 1 (fun _ => 0) p) ∧
    ¬ Verifies Sample.prim (slice damagedSample.data 16384 16384) ∧
    ∀ d, d.file = damagedSample → d.Steady Sample.imageLen →
      (read Sample.prim Sample.parsers (Sample.image .readOnly) d).1 =
      .err .unsupportedProfile := by
  refine ⟨Sample.read_store (by decide) _ _, fun p hp => damagedSample_eq (by omega),
    damagedSample_broken,
    fun d hd hsteady => ?_⟩
  · have hcomp := computes_read Sample.prim Sample.parsers (Sample.image .readOnly) damagedSample
    exact (hcomp.steady (steadily_read _ _ _) hsteady hd).1.trans read_damagedSample

end Metadata

/-! ## A first copy that was replaced -/

namespace Sample

open Metadata

/-- A digest that tells copies of different sizes apart. -/
def sizedPrim : Primitives := { Sample.prim with
  digest := fun h b => some (List.replicate h.size (UInt8.ofNat (b.length / 16384)))
  digest_length := fun h b d hd => by
    obtain rfl := Option.some.inj hd
    exact List.length_replicate }

/-- A document without keyslots, for copies of 32768 bytes. -/
def wideDoc : Doc := .map [
  ("keyslots", .map []),
  ("tokens", .map []),
  ("segments", .map [("0", .map [("type", .string "crypt"), ("offset", .string "65536"),
    ("size", .string "dynamic"), ("iv_tweak", .string "0"),
    ("encryption", .string "aes-xts-plain64"),
    ("sector_size", .u64 512)])]),
  ("digests", .map []),
  ("config", .map [("json_size", .string "28672"), ("keyslots_size", .string "0")])]

def wideText : String :=
  "\x7b\"keyslots\":\x7b\x7d,\"tokens\":\x7b\x7d,\"segments\":\x7b\"0\":\x7b\"type\":\"crypt\"," ++
  "\"offset\":\"65536\",\"size\":\"dynamic\",\"iv_tweak\":\"0\"," ++
  "\"encryption\":\"aes-xts-plain64\",\"sector_size\":512\x7d\x7d,\"digests\":\x7b\x7d," ++
  "\"config\":\x7b\"json_size\":\"28672\",\"keyslots_size\":\"0\"\x7d\x7d"

def wideParsers : Parsers := { Sample.parsers with
  json := fun b => if b = textBytes wideText then some wideDoc else parsers.json b }

def wideJson : Value := (node 0 wideDoc).getD .null

def wideMetadata : Metadata := ⟨65536, 229376, []⟩

def wideCopy : Copy := { copy 1 with size := 32768, text := textBytes wideText }

def wideStore : Store :=
  overlay (overlay (fun _ => 0) 0 (wideCopy.bytes 0 (List.replicate 32 2))) 32768
    (wideCopy.bytes 32768 (List.replicate 32 2))

/-- The first copy of `wideStore`, written over with one of 16384 bytes. -/
@[irreducible] def replaced : Store := overlay wideStore 0 ((copy 1).bytes 0 (List.replicate 32 1))

theorem fromJson_wide : fromJson wideParsers wideJson 32768 imageLen = .ok wideMetadata := by
  decide +kernel

theorem parse_wide : parse wideParsers.json (textBytes wideText) = .ok wideJson := by
  have hjson : wideParsers.json (textBytes wideText) = some wideDoc := by
    simp only [wideParsers, if_true]
  have hdoc : (node 0 wideDoc).isSome = true := by decide +kernel
  obtain ⟨v, hv⟩ := Option.isSome_iff_exists.mp hdoc
  unfold parse wideJson
  rw [hjson, Option.bind_some, hv, ofOption_some, Option.getD_some]

theorem parse_narrow : parse wideParsers.json (textBytes text) = .ok json := by
  have hne : textBytes text ≠ textBytes wideText := by decide +kernel
  have hjson : wideParsers.json (textBytes text) =
      parsers.json (textBytes text) := by
    simp only [wideParsers, if_neg hne]
  have hparse := parse_text
  unfold parse at hparse ⊢
  rwa [hjson]

@[simp] theorem wideCopy_size : wideCopy.size = 32768 := rfl

theorem wide_valid : wideCopy.Valid wideParsers := by
  have hsize : HeaderSize 32768 := ⟨by decide, by decide, 15, rfl⟩
  have htext : FitsField (32768 - 4096) (textBytes wideText) := by decide +kernel
  obtain ⟨-, hseq, hlabel, hsalt, huuid, hknown, hnone, -⟩ := copy_valid (show 1 < 2 ^ 64 by decide)
  exact ⟨hsize, hseq, hlabel, hsalt, huuid, hknown, hnone, htext⟩

theorem narrow_valid : (copy 1).Valid wideParsers := by
  obtain ⟨hsize, hseq, hlabel, hsalt, huuid, hknown, hnone, htext⟩ :=
    copy_valid (show 1 < 2 ^ 64 by decide)
  exact ⟨hsize, hseq, hlabel, hsalt, huuid, hknown, hnone, htext⟩

theorem wide_length (off : Nat) {sum : Bytes} (h : sum.length ≤ 64) :
    (wideCopy.bytes off sum).length = 32768 :=
  Copy.bytes_length wide_valid h

theorem narrow_length (off : Nat) {sum : Bytes} (h : sum.length ≤ 64) :
    ((copy 1).bytes off sum).length = 16384 := Copy.bytes_length narrow_valid h

theorem wide_sum (off : Nat) : wideCopy.Sum sizedPrim off (List.replicate 32 2) := by
  show some (List.replicate 32 (UInt8.ofNat ((wideCopy.bytes off []).length / 16384))) = _
  rw [wide_length off (by decide)]
  rfl

theorem narrow_sum (off : Nat) : (copy 1).Sum sizedPrim off (List.replicate 32 1) := by
  show some (List.replicate 32 (UInt8.ofNat (((copy 1).bytes off []).length / 16384))) = _
  rw [narrow_length off (by decide)]
  rfl

theorem wide_first : slice wideStore 0 32768 = wideCopy.bytes 0 (List.replicate 32 2) := by
  have hself := slice_overlay_self (fun _ => 0) 0 (wideCopy.bytes 0 (List.replicate 32 2))
  rw [wide_length 0 (by decide)] at hself
  rw [wideStore, slice_overlay_disjoint _ _ _ (Or.inl (by decide)), hself]

theorem wide_second : slice wideStore 32768 32768 = wideCopy.bytes 32768 (List.replicate 32 2) := by
  have hself := slice_overlay_self
    (overlay (fun _ => 0) 0 (wideCopy.bytes 0 (List.replicate 32 2))) 32768
    (wideCopy.bytes 32768 (List.replicate 32 2))
  rwa [wide_length 32768 (by decide)] at hself

theorem headerOf_wide : headerOf sizedPrim wideParsers wideStore imageLen 0 =
    .ok (wideCopy.header wideJson) :=
  Copy.headerOf_written wide_valid (Or.inl rfl) (by decide) (wide_sum 0) wide_first parse_wide

theorem readOf_wide : readOf sizedPrim wideParsers wideStore imageLen = .ok wideMetadata :=
  Copy.readOf_written wide_valid (wide_sum 0) (wide_sum 32768) wide_first wide_second parse_wide
    fromJson_wide

theorem replaced_first : slice replaced 0 16384 = (copy 1).bytes 0 (List.replicate 32 1) := by
  have hself := slice_overlay_self wideStore 0 ((copy 1).bytes 0 (List.replicate 32 1))
  rw [narrow_length 0 (by decide)] at hself
  unfold replaced
  exact hself

theorem replaced_eq {p : Nat} (h : 16384 ≤ p) : replaced p = wideStore p := by
  unfold replaced
  exact overlay_of_not_mem _ _ _ (by rw [narrow_length 0 (by decide)]; omega)

/-- The copy in the place of the first one is in order. -/
theorem profile_narrow : CopyProfile sizedPrim wideParsers replaced imageLen 0
    ((copy 1).header json) :=
  headerOf_accepts.mp
    (Copy.headerOf_written narrow_valid (Or.inl rfl) (by decide) (narrow_sum 0) replaced_first
      parse_narrow)

/-- At its end lies the padding of the copy that was there. -/
theorem replaced_end : replaced 16384 = 0 := by
  have hw := Copy.written wide_valid (by decide) wide_first
  have hbyte := slice_getD wideStore (0 + 4096) (wideCopy.size - 4096) 12288 (by decide)
  have hlen : wideCopy.text.length ≤ 12288 := by decide +kernel
  rw [hw.text, padded, List.getD_append_right _ _ _ _ hlen] at hbyte
  rw [replaced_eq le_rfl]
  exact hbyte.symm.trans (by simp [zeros])

theorem replaced_replaced : Replaced sizedPrim wideParsers replaced imageLen wideCopy.size := by
  refine ⟨_, profile_narrow, by decide, Or.inl (Or.inl fun hmagic => ?_)⟩
  have hmagic : HasMagic 16384 (slice replaced 16384 4096) := hmagic
  have hfirst := slice_getD replaced 16384 6 0 (by decide)
  rw [← slice_take 6 (by decide : 6 ≤ 4096), hmagic.1, Nat.add_zero, replaced_end] at hfirst
  exact absurd hfirst (by decide)

theorem replaced_broken : ¬ Verifies sizedPrim (slice replaced 0 wideCopy.size) := by
  rw [wideCopy_size]
  rintro ⟨name, alg, -, -, -, hdigest⟩
  have hpos : 0 < alg.size := by cases alg <;> decide
  have hlen : (clearChecksum (slice replaced 0 32768)).length = 32768 := by
    simp [clearChecksum]
  have hstored : replaced 448 = 1 := by
    have hw := Copy.written narrow_valid (by decide) replaced_first
    have hbyte := slice_getD replaced (0 + 448) 64 0 (by decide)
    rw [hw.sum] at hbyte
    exact hbyte.symm
  have h : (List.replicate alg.size
      (UInt8.ofNat ((clearChecksum (slice replaced 0 32768)).length / 16384))).getD
      0 0 = ((slice replaced 0 32768).extract 448 (448 + alg.size)).getD 0 0 :=
    congrArg (fun b => b.getD 0 0) (Option.some.inj hdigest)
  rw [hlen, List.getD_replicate _ hpos, slice_extract _ _ (by cases alg <;> decide),
    slice_getD _ _ _ _ (by omega)] at h
  exact absurd (h.trans hstored) (by decide)

theorem read_wide : ∃ d', read sizedPrim wideParsers (image .readOnly) (disk wideStore) =
    (.ok wideMetadata, d') := by
  have hcomp := computes_read sizedPrim wideParsers (image .readOnly) (disk wideStore).file
  obtain ⟨hok, -, -⟩ := hcomp.steady (steadily_read sizedPrim wideParsers (image .readOnly))
    (disk_steady _) rfl
  exact ⟨_, Prod.ext (hok.trans readOf_wide) rfl⟩

end Sample

namespace Metadata

/-- The damaged second copy is not reported, as nothing in front of its padding is wrong; the
replaced first copy is. -/
theorem read_damaged_sample :
    (∃ x, Computes Sample.imageLen damagedSample
      (read Sample.prim Sample.parsers (Sample.image .readOnly)) x ∧
      (x = .err .metadataRecoveryRequired ↔
        Reports Sample.prim Sample.parsers damagedSample.data Sample.imageLen 16384 ∨
          (16384 = 0 ∧ Replaced Sample.prim Sample.parsers damagedSample.data
            Sample.imageLen 16384))) ∧
    Computes Sample.imageLen ⟨Sample.imageLen, Sample.replaced, fun _ => 0, []⟩
      (read Sample.sizedPrim Sample.wideParsers (Sample.image .readOnly))
      (.err .metadataRecoveryRequired) := by
  constructor
  · obtain ⟨d', hread⟩ := @Sample.read_store 1 (by decide) (fun _ => 0) .readOnly
    refine read_damaged (fun _ _ => Option.some_ne_none _) rfl hread
      (Sample.headerOf_store (by decide) _) (Or.inr rfl) (fun p hp => ?_) damagedSample_broken
    have hp : ¬ (16384 ≤ p ∧ p < 16384 + 16384) := hp
    exact damagedSample_eq (by omega)
  · obtain ⟨d', hread⟩ := Sample.read_wide
    have hsame : ∀ p, ¬ (0 ≤ p ∧ p < 0 + Sample.wideCopy.size) →
        Sample.replaced p = Sample.wideStore p := by
      intro p hp
      rw [Sample.wideCopy_size] at hp
      exact Sample.replaced_eq (by omega)
    obtain ⟨x, hcomputes, hiff⟩ :=
      read_damaged (F := ⟨Sample.imageLen, Sample.replaced, fun _ => 0, []⟩)
      (fun _ _ => Option.some_ne_none _)
      (rfl : _ = (Sample.image .readOnly).len) hread Sample.headerOf_wide (Or.inl rfl)
      hsame Sample.replaced_broken
    rw [hiff.mpr (Or.inr ⟨rfl, Sample.replaced_replaced⟩)] at hcomputes
    exact hcomputes

end Metadata

end Winluks
