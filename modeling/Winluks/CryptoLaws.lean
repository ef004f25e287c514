import Mathlib.Data.Set.Finite.List
import Winluks.Unlock

/-!
# Laws of the cipher layer

What callers of `crypto.rs` may rely on when the library cipher does its work
(`XtsTotal`, `XtsInverts`).  `cryptSectors_laws`: a request can be split between
any two sectors, decrypting and encrypting undo each other, and each unit has its
own tweak.  `afMerge_laws`: the merge loop undoes the reference split, and for
fixed random stripes it is a bijection from last stripes to keys.

`cryptUnitsInto` is the loop with the two buffers of the source, which the other
definitions leave out.
-/

namespace Winluks

open Lib Outcome

variable (prim : Primitives)

/-! ## The buffers of the loop -/

/-- `buf[off..off + bytes.len()].copy_from_slice(bytes)` -/
def copyInto (buf : Bytes) (off : Nat) (bytes : Bytes) : Bytes :=
  buf.take off ++ bytes ++ buf.drop (off + bytes.length)

/-- The loop of `crypt_sectors` with its scratch buffer `tmp`, where the cipher writes from the
front. -/
def cryptUnitsInto (key : Bytes) (firstSector : Nat) (mode : Mode) :
    (i : Nat) → List Bytes → (tmp out : Bytes) → Outcome Error Bytes
  | _, [], _, out => .ok out
  | i, sector :: rest, tmp, out => do
    let n ← .ofOption .invalidRange (checkedAdd 64 firstSector i)
    let written ← .ofOption .crypto (prim.xts mode key (tweak n) sector)
    let tmp := copyInto tmp 0 written
    .failIf (written.length ≠ 512) .crypto
    cryptUnitsInto key firstSector mode (i + 1) rest (zeros tmp.length)
      (copyInto out (i * 512) (tmp.take 512))

theorem copyInto_take (buf bytes : Bytes) : (copyInto buf 0 bytes).take bytes.length = bytes := by
  rw [copyInto, List.take_zero, List.nil_append, List.take_left]

theorem copyInto_length {buf bytes : Bytes} {off : Nat} (h : off + bytes.length ≤ buf.length) :
    (copyInto buf off bytes).length = buf.length := by
  simp only [copyInto, List.length_append, List.length_take, List.length_drop]
  omega

/-- Two neighbouring copies are one. -/
theorem copyInto_copyInto {buf a b : Bytes} {off : Nat} (h : off + a.length ≤ buf.length) :
    copyInto (copyInto buf off a) (off + a.length) b = copyInto buf off (a ++ b) := by
  have hoff : (buf.take off).length = off := List.length_take_of_le (by omega)
  have hfront : (copyInto buf off a).take (off + a.length) = buf.take off ++ a := by
    rw [copyInto]
    exact List.take_left' (by rw [List.length_append, hoff])
  have hback : (copyInto buf off a).drop (off + a.length + b.length) =
      buf.drop (off + a.length + b.length) := by
    have hlen : (buf.take off ++ a).length = off + a.length := by rw [List.length_append, hoff]
    rw [copyInto, ← List.drop_drop, ← hlen, List.drop_left, List.drop_drop, hlen]
  rw [copyInto, hfront, hback, copyInto, List.length_append, Nat.add_assoc]
  simp only [List.append_assoc]

/-- Nothing of an earlier sector is left in the scratch buffer: the loop with buffers fills the
output with what the loop without them returns. -/
theorem cryptUnitsInto_eq (key : Bytes) (firstSector : Nat) (mode : Mode) (units : List Bytes)
    (i : Nat) (tmp out : Bytes) (hout : 512 * (i + units.length) ≤ out.length) :
    cryptUnitsInto prim key firstSector mode i units tmp out = (do
      let r ← cryptUnits prim key firstSector mode i units
      .ok (copyInto out (i * 512) r)) := by
  induction units generalizing i tmp out with
  | nil => simp [cryptUnitsInto, cryptUnits, copyInto]
  | cons u units ih =>
    simp only [cryptUnitsInto, cryptUnits, Outcome.bind_assoc]
    cases checkedAdd 64 firstSector i with
    | none => rfl
    | some n =>
      cases hx : prim.xts mode key (tweak n) u with
      | none => simp [hx]
      | some w =>
        simp only [ofOption_some, ok_bind, hx]
        by_cases hw : w.length = 512
        · have hin : i * 512 + w.length ≤ out.length := by
            rw [List.length_cons] at hout
            omega
          have hnext : 512 * (i + 1 + units.length) ≤ (copyInto out (i * 512) w).length := by
            rw [copyInto_length hin]
            rw [List.length_cons] at hout
            omega
          have htake : (copyInto tmp 0 w).take 512 = w := by rw [← hw, copyInto_take]
          rw [failIf_neg (not_not_intro hw), ok_bind, ok_bind, htake, ih _ _ _ hnext]
          cases cryptUnits prim key firstSector mode (i + 1) units with
          | ok r =>
            have hmerge := @copyInto_copyInto out w r (i * 512) hin
            rw [hw, ← Nat.succ_mul] at hmerge
            simp only [ok_bind, hmerge]
          | _ => simp only [err_bind, panic_bind, halt_bind]
        · rw [failIf_pos hw]
          rfl

/-- `crypt_sectors` from the buffers that the source starts with. -/
theorem cryptSectors_buffers {key : Bytes} {firstSector : Nat} {b : Bytes} {mode : Mode}
    (hkey : key.length = 32 ∨ key.length = 64) (hmod : b.length % 512 = 0)
    (hmax : b.length ≤ 1024 * 1024) :
    cryptSectors prim key firstSector b mode =
      cryptUnitsInto prim key firstSector mode 0 (chunks 512 (b.length / 512) b) (zeros 528)
        (zeros b.length) := by
  rw [cryptUnitsInto_eq _ _ _ _ _ _ _ _ (by rw [chunks_length, zeros_length]; omega), cryptSectors,
    failIf_neg (by omega), ok_bind, failIf_neg (by omega), ok_bind]
  cases hr : cryptUnits prim key firstSector mode 0 (chunks 512 (b.length / 512) b) with
  | ok r =>
    have hlen := cryptUnits_length prim hr
    rw [chunks_length] at hlen
    have hnil : List.drop r.length (zeros b.length) = [] := by
      rw [List.drop_eq_nil_iff, zeros_length]
      omega
    simp [copyInto, hnil]
  | _ => rfl

/-! ## A cipher that does its work -/

/-- In this mode and under this key the cipher turns every unit into a unit. -/
def XtsServes (mode : Mode) (key : Bytes) : Prop := ∀ iv unit, iv.length = 16 → unit.length = 512 →
  ∃ c, prim.xts mode key iv unit = some c ∧ c.length = 512

/-- Under a key of one of the two lengths the cipher turns every unit into a unit. -/
def XtsTotal : Prop := ∀ mode key iv unit, key.length = 32 ∨ key.length = 64 → iv.length = 16 →
  unit.length = 512 → ∃ c, prim.xts mode key iv unit = some c ∧ c.length = 512

theorem XtsTotal.serves {prim : Primitives} (ht : XtsTotal prim) {mode : Mode} {key : Bytes}
    (hkey : key.length = 32 ∨ key.length = 64) : XtsServes prim mode key :=
  fun iv unit => ht mode key iv unit hkey

@[simp] theorem tweak_length (n : Nat) : (tweak n).length = 16 := by
  simp [tweak]

theorem tweak_inj {n m : Nat} (hn : n < 2 ^ 64) (hm : m < 2 ^ 64) (h : tweak n = tweak m) :
    n = m := by
  have hbytes : leBytes 8 n = leBytes 8 m := (List.append_inj h (by simp)).1
  rw [← leNat_leBytes 8 n (by omega), ← leNat_leBytes 8 m (by omega), hbytes]

instance finiteUInt8 : Finite UInt8 := Finite.of_injective UInt8.toFin fun _ _ => UInt8.toFin_inj.mp

/-- On the units, of which there are finitely many, encrypting also undoes decrypting. -/
theorem xts_encrypt_decrypt {prim : Primitives} (hx : XtsInverts prim) (ht : XtsTotal prim)
    {key iv unit p : Bytes} (hkey : key.length = 32 ∨ key.length = 64) (hiv : iv.length = 16)
    (hunit : unit.length = 512)
    (hp : prim.xts .decrypt key iv unit = some p) : prim.xts .encrypt key iv p = some unit := by
  have : Finite {u : Bytes // u.length = 512} := (List.finite_length_eq UInt8 512).to_subtype
  choose f hf hlen using fun (mode : Mode) (u : {u : Bytes // u.length = 512}) => ht mode key iv u.1
    hkey hiv u.2
  have hleft : Function.LeftInverse (fun u =>
      (⟨f .decrypt u, hlen _ u⟩ : {u : Bytes // u.length = 512}))
      (fun u => ⟨f .encrypt u, hlen _ u⟩) := by
    intro u
    have h := hx key iv u.1 _ u.2 (hf .encrypt u)
    rw [hf .decrypt ⟨f .encrypt u, hlen _ u⟩] at h
    exact Subtype.ext (Option.some.inj h)
  have hright := hleft.rightInverse_of_surjective
    (Finite.injective_iff_surjective.mp hleft.injective)
  obtain rfl : p = f .decrypt ⟨unit, hunit⟩ :=
    Option.some.inj (hp.symm.trans (hf .decrypt ⟨unit, hunit⟩))
  have hback : f .encrypt ⟨f .decrypt ⟨unit, hunit⟩, hlen _ _⟩ = unit :=
    congrArg Subtype.val (hright ⟨unit, hunit⟩)
  rw [hf .encrypt ⟨f .decrypt ⟨unit, hunit⟩, hlen _ _⟩, hback]

/-! ## Sectors of a split request -/

theorem sector_append_left {a : Bytes} (b : Bytes) {i : Nat} (h : 512 * i + 512 ≤ a.length) :
    sector (a ++ b) i = sector a i := by
  rw [sector, sector, List.drop_append_of_le_length (by omega), List.take_append_of_le_length]
  rw [List.length_drop]
  omega

theorem sector_append_right {a : Bytes} (b : Bytes) {k : Nat} (i : Nat) (h : a.length = 512 * k) :
    sector (a ++ b) (k + i) = sector b i := by
  rw [sector, sector, Nat.mul_add, ← List.drop_drop, ← h, List.drop_left]

section
variable {prim} {mode : Mode} {key : Bytes} {first : Nat}

theorem cryptUnits_total (hx : XtsServes prim mode key) {i : Nat} {units : List Bytes}
    (hunits : ∀ u ∈ units, u.length = 512) (hlast : ∀ j < units.length, first + i + j < 2 ^ 64) :
    ∃ out, cryptUnits prim key first mode i units = .ok out := by
  induction units generalizing i with
  | nil => exact ⟨[], rfl⟩
  | cons u units ih =>
    have hadd : checkedAdd 64 first i = some (first + i) :=
      checkedAdd_eq_some.mpr ⟨hlast 0 (by simp), rfl⟩
    obtain ⟨c, hc, hlen⟩ := hx (tweak (first + i)) u (tweak_length _) (hunits u List.mem_cons_self)
    obtain ⟨out, hout⟩ := @ih (i + 1) (fun w hw => hunits w (List.mem_cons_of_mem _ hw))
      fun j hj => by
      have := hlast (j + 1) (by simpa using hj)
      omega
    exact ⟨c ++ out, by simp only [cryptUnits, hadd, ofOption_some, ok_bind, hc,
      failIf_neg (not_not_intro hlen), hout]⟩

/-- The arguments that `crypt_sectors` takes. -/
structure Cryptable (key : Bytes) (first len : Nat) : Prop where
  key : key.length = 32 ∨ key.length = 64
  aligned : len % 512 = 0
  max : len ≤ 1024 * 1024
  last : ∀ i < len / 512, first + i < 2 ^ 64

theorem cryptSectors_total (hx : XtsServes prim mode key) {b : Bytes}
    (h : Cryptable key first b.length) :
    ∃ out, cryptSectors prim key first b mode = .ok out := by
  obtain ⟨hkey, haligned, hmax, hlast⟩ := h
  unfold cryptSectors
  rw [failIf_neg (by omega), ok_bind, failIf_neg (by omega), ok_bind]
  refine cryptUnits_total hx (fun u hu => length_of_mem_chunks (by omega) hu) fun j hj => ?_
  rw [chunks_length] at hj
  exact hlast j hj

/-- **When `crypt_sectors` fails.** -/
theorem cryptSectors_err_iff (ht : XtsTotal prim) {b : Bytes} :
    (∃ e, cryptSectors prim key first b mode = .err e) ↔
      ¬ (key.length = 32 ∨ key.length = 64) ∨ b.length % 512 ≠ 0 ∨ 1024 * 1024 < b.length ∨
        ∃ i < b.length / 512, 2 ^ 64 ≤ first + i := by
  constructor
  · rintro ⟨e, he⟩
    by_contra hno
    have hin : Cryptable key first b.length := by
      refine ⟨?_, ?_, ?_, fun i hi => ?_⟩ <;> by_contra h
      · exact hno (Or.inl h)
      · exact hno (Or.inr (Or.inl h))
      · exact hno (Or.inr (Or.inr (Or.inl (Nat.not_le.mp h))))
      · exact hno (Or.inr (Or.inr (Or.inr ⟨i, hi, Nat.not_lt.mp h⟩)))
    obtain ⟨out, hout⟩ := @cryptSectors_total prim mode key first (ht.serves hin.key) b hin
    rw [he] at hout
    cases hout
  · intro hbad
    have hret := returns_cryptSectors prim key first b mode
    cases hr : cryptSectors prim key first b mode with
    | err e => exact ⟨e, rfl⟩
    | ok out =>
      obtain ⟨hkey, haligned, hmax, -, hc⟩ := cryptSectors_iff.mp hr
      obtain h | h | h | ⟨i, hi, h⟩ := hbad
      · exact absurd hkey h
      · exact absurd haligned h
      · omega
      · have := (hc i hi).1
        omega
    | panic =>
      rw [hr] at hret
      exact hret.elim
    | halt =>
      rw [hr] at hret
      exact hret.elim

/-- A request that is split between two sectors. -/
theorem cryptSectors_append {a b x y : Bytes} (ha : cryptSectors prim key first a mode = .ok x)
    (hb : cryptSectors prim key (first + a.length / 512) b mode = .ok y)
    (hmax : a.length + b.length ≤ 1024 * 1024) :
    cryptSectors prim key first (a ++ b) mode = .ok (x ++ y) := by
  obtain ⟨hkey, hamod, -, hxlen, hx⟩ := cryptSectors_iff.mp ha
  obtain ⟨-, hbmod, -, hylen, hy⟩ := cryptSectors_iff.mp hb
  have hak : a.length = 512 * (a.length / 512) := by omega
  rw [cryptSectors_iff, List.length_append, List.length_append]
  refine ⟨hkey, by omega, by omega, by omega, fun i hi => ?_⟩
  by_cases hia : i < a.length / 512
  · rw [sector_append_left b (by omega), sector_append_left y (by omega)]
    exact hx i hia
  · obtain ⟨j, rfl⟩ : ∃ j, i = a.length / 512 + j := ⟨i - a.length / 512, by omega⟩
    have h := hy j (by omega)
    rw [sector_append_right b j hak, sector_append_right y j (by omega), ← Nat.add_assoc]
    exact h

/-- Decrypting undoes encrypting. -/
theorem decrypt_encrypt (hx : XtsInverts prim) {a c : Bytes}
    (h : encryptSectors prim key first a = .ok c) :
    decryptSectors prim key first c = .ok a := by
  obtain ⟨hkey, hmod, hmax, hlen, hc⟩ := cryptSectors_iff.mp h
  refine cryptSectors_iff.mpr ⟨hkey, by omega, by omega, hlen.symm, fun i hi => ?_⟩
  obtain ⟨hlt, hunit, -⟩ := hc i (by omega)
  have hs : (sector a i).length = 512 := by
    rw [sector, List.length_take, List.length_drop]
    omega
  exact ⟨hlt, hx _ _ _ _ hs hunit, hs⟩

/-- Encrypting undoes decrypting. -/
theorem encrypt_decrypt (hx : XtsInverts prim) (ht : XtsTotal prim) {a p : Bytes}
    (h : decryptSectors prim key first a = .ok p) : encryptSectors prim key first p = .ok a := by
  obtain ⟨hkey, hmod, hmax, hlen, hc⟩ := cryptSectors_iff.mp h
  refine cryptSectors_iff.mpr ⟨hkey, by omega, by omega, hlen.symm, fun i hi => ?_⟩
  obtain ⟨hlt, hunit, -⟩ := hc i (by omega)
  have hs : (sector a i).length = 512 := by
    rw [sector, List.length_take, List.length_drop]
    omega
  exact ⟨hlt, xts_encrypt_decrypt hx ht hkey (tweak_length _) hs hunit, hs⟩

/-- **Sector crypt laws.**  With a library cipher that does not fail and inverts itself, under
either key length: a request may be split between any two sectors; decrypting and encrypting undo
each other; each unit of the output is the XTS unit of the same unit of the input under its own
number, and no two units of a call share a tweak; and a call fails for nothing but its arguments. -/
theorem cryptSectors_laws (hx : XtsInverts prim) (ht : XtsTotal prim) :
    (∀ key first a b, key.length = 32 ∨ key.length = 64 → first < 2 ^ 64 → a.length % 512 = 0 →
      b.length % 512 = 0 →
      a.length + b.length ≤ 1024 * 1024 → first + (a.length + b.length) / 512 ≤ 2 ^ 64 →
      (b ≠ [] → first + a.length / 512 < 2 ^ 64 ∧
        ∀ mode, ∃ x y, cryptSectors prim key first a mode = .ok x ∧
        cryptSectors prim key (first + a.length / 512) b mode = .ok y ∧
        cryptSectors prim key first (a ++ b) mode = .ok (x ++ y)) ∧
      (∃ c, encryptSectors prim key first a = .ok c ∧ decryptSectors prim key first c = .ok a) ∧
      ∃ p, decryptSectors prim key first a = .ok p ∧ encryptSectors prim key first p = .ok a) ∧
    (∀ key first a mode out, cryptSectors prim key first a mode = .ok out → out.length = a.length ∧
      (∀ i < a.length / 512,
        prim.xts mode key (leBytes 8 (first + i) ++ zeros 8) (sector a i) = some (sector out i)) ∧
      ∀ i < a.length / 512, ∀ j < a.length / 512, i ≠ j → tweak (first + i) ≠ tweak (first + j)) ∧
    ∀ key first b mode, (∃ e, cryptSectors prim key first b mode = .err e) ↔
      ¬ (key.length = 32 ∨ key.length = 64) ∨ b.length % 512 ≠ 0 ∨ 1024 * 1024 < b.length ∨
        ∃ i < b.length / 512, 2 ^ 64 ≤ first + i := by
  refine ⟨fun key first a b hkey hfirst ha hb hmax hlast => ?_, fun key first a mode out hout => ?_,
    fun key first b mode => cryptSectors_err_iff ht⟩
  · have hina : Cryptable key first a.length := ⟨hkey, ha, by omega, fun i hi => by omega⟩
    refine ⟨fun hne => ?_, ?_, ?_⟩
    · have hpos := List.length_pos_iff.mpr hne
      have hinb : Cryptable key (first + a.length / 512) b.length :=
        ⟨hkey, hb, by omega, fun i hi => by omega⟩
      refine ⟨by omega, fun mode => ?_⟩
      obtain ⟨x, hxa⟩ := @cryptSectors_total prim mode key first (ht.serves hkey) a hina
      obtain ⟨y, hyb⟩ := @cryptSectors_total prim mode key _ (ht.serves hkey) b hinb
      exact ⟨x, y, hxa, hyb, cryptSectors_append hxa hyb hmax⟩
    · obtain ⟨c, hc⟩ := @cryptSectors_total prim .encrypt key first (ht.serves hkey) a hina
      exact ⟨c, hc, decrypt_encrypt hx hc⟩
    · obtain ⟨p, hp⟩ := @cryptSectors_total prim .decrypt key first (ht.serves hkey) a hina
      exact ⟨p, hp, encrypt_decrypt hx ht hp⟩
  · obtain ⟨-, -, -, hlen, hunits⟩ := cryptSectors_iff.mp hout
    refine ⟨hlen, fun i hi => (hunits i hi).2.1, fun i hi j hj hne heq => hne ?_⟩
    have := tweak_inj (hunits i hi).1 (hunits j hj).1 heq
    omega

end

namespace Sample

theorem xtsTotal : XtsTotal Sample.prim :=
  fun _ _ _ unit _ _ hunit => ⟨_, rfl, by rw [List.length_map, hunit]⟩

end Sample

theorem cryptSectors_laws_sample :
    ∃ c, encryptSectors Sample.prim (zeros 32) 7 (zeros 1024) = .ok c ∧
    decryptSectors Sample.prim (zeros 32) 7 c = .ok (zeros 1024) :=
  ((cryptSectors_laws Sample.xtsInverts Sample.xtsTotal).1 (zeros 32) 7 (zeros 1024) []
    (Or.inl (zeros_length 32))
    (by decide) (by rw [zeros_length]) rfl (by rw [zeros_length]; decide)
    (by rw [zeros_length]; decide)).2.1

/-! ## The merge -/

section
variable {prim}

theorem afMerge_err_iff {h : Hash} {H : Bytes → Bytes} (hH : ∀ b, prim.digest h b = some (H b))
    {data : Bytes} {size : Nat} : (∃ e, afMerge prim data size h = .err e) ↔
      ¬ (size = 32 ∨ size = 64) ∨ data.length ≠ 4000 * size := by
  constructor
  · rintro ⟨e, he⟩
    by_contra hno
    rw [not_or, Decidable.not_not, Decidable.not_not] at hno
    rw [afMerge_eq hH hno.1 (by omega)] at he
    cases he
  · intro hbad
    exact ⟨.metadataInvalid, by rw [afMerge, failIf_pos (by omega), err_bind]⟩

/-- **The AF merge undoes the AF split.**  For every hash function of the fixed length and every
3999 stripes: merging the reference split of a key gives the key, last stripes and keys determine
each other, and the merge fails exactly on a size or a length that is not the format's. -/
theorem afMerge_laws {h : Hash} {H : Bytes → Bytes} (hH : ∀ b, prim.digest h b = some (H b)) :
    (∀ n xs, n = 32 ∨ n = 64 → xs.length = 3999 → (∀ x ∈ xs, x.length = n) →
      (∀ K, K.length = n → afMerge prim (Af.split H h.size K xs) n h = .ok K) ∧
      ∃ f : {b : Bytes // b.length = n} → {b : Bytes // b.length = n}, f.Bijective ∧
        ∀ last, afMerge prim (xs.flatten ++ last.1) n h = .ok (f last).1) ∧
    ∀ data n, (∃ e, afMerge prim data n h = .err e) ↔ ¬ (n = 32 ∨ n = 64) ∨
    data.length ≠ 4000 * n := by
  refine ⟨fun n xs hn hcount hxs => ⟨fun K hK => ?_, ?_⟩, fun data n => afMerge_err_iff hH⟩
  · subst hK
    rw [afMerge_eq hH hn (by rw [Af.split_length (hash_size_pos h) (digest_some hH) hxs, hcount])]
    have hmerge := Af.merge_split (hash_size_pos h) (digest_some hH) hxs
    rw [hcount] at hmerge
    rw [hmerge]
  · obtain ⟨f, hf, hlast⟩ := Af.merge_bijective (hash_size_pos h) (digest_some hH) hxs
    refine ⟨f, hf, fun last => ?_⟩
    have hlen : (xs.flatten ++ last.1).length = n * 4000 := by
      rw [List.length_append, Af.flatten_length hxs, last.2, hcount]
      omega
    rw [afMerge_eq hH hn hlen, ← hlast last, hcount]

end

theorem afMerge_laws_sample :
    let H : Bytes → Bytes := fun b => List.replicate 64 (b.getD 23 0 + b.getD 264 0)
    afMerge Sample.prim (Af.split H 64 (zeros 32) (List.replicate 3999 (zeros 32))) 32 .sha512 =
    .ok (zeros 32) :=
  ((@afMerge_laws Sample.prim .sha512 _ fun _ => rfl).1 32 (List.replicate 3999 (zeros 32))
    (Or.inl rfl)
    List.length_replicate fun x hx => by rw [List.eq_of_mem_replicate hx, zeros_length]).1
      (zeros 32) (zeros_length 32)

end Winluks
