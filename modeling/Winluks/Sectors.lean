import Winluks.Lib.AfSplit
import Winluks.Crypto

/-!
# The cipher and the merge, sector by sector

`cryptSectors_iff` says what a successful `crypt_sectors` means: each sector of
the output is the XTS unit of the same sector of the input under its own number.
`afMerge_eq` connects the merge loop of `crypto.rs` to the general merge.
-/

namespace Winluks

open Lib Outcome

/-- The `i`-th sector of a byte string. -/
def sector (b : Bytes) (i : Nat) : Bytes := (b.drop (512 * i)).take 512

theorem sector_append_zero {a : Bytes} (b : Bytes) (h : a.length = 512) :
    sector (a ++ b) 0 = a := by
  rw [sector, Nat.mul_zero, List.drop_zero, ← h, List.take_left]

theorem sector_append_succ {a : Bytes} (b : Bytes) (i : Nat) (h : a.length = 512) :
    sector (a ++ b) (i + 1) = sector b i := by
  rw [sector, sector, Nat.mul_succ, Nat.add_comm, ← List.drop_drop, ← h, List.drop_left, h]

theorem chunks_getD_sector (b : Bytes) {k i : Nat} (h : i < k) :
    (chunks 512 k b).getD i [] = sector b i := by
  induction k generalizing b i with
  | zero => omega
  | succ k ih =>
    cases i with
    | zero => rfl
    | succ i =>
      show (chunks 512 k (b.drop 512)).getD i [] = _
      rw [ih (b.drop 512) (by omega), sector, sector, List.drop_drop, Nat.mul_succ, Nat.add_comm]

variable (prim : Primitives)

theorem returns_cryptUnits (key : Bytes) (first : Nat) (mode : Mode) (i : Nat)
    (units : List Bytes) :
    (cryptUnits prim key first mode i units).Returns := by
  induction units generalizing i with
  | nil => trivial
  | cons u units ih => simp [cryptUnits, returns_bind, ih]

/-- The cipher layer returns a value or an error. -/
theorem returns_cryptSectors (key : Bytes) (first : Nat) (b : Bytes) (mode : Mode) :
    (cryptSectors prim key first b mode).Returns := by
  simp [cryptSectors, returns_bind, returns_cryptUnits]

theorem cryptUnits_length {key : Bytes} {first : Nat} {mode : Mode} {i : Nat} {units : List Bytes}
    {out : Bytes} (h : cryptUnits prim key first mode i units = .ok out) :
    out.length = 512 * units.length := by
  induction units generalizing i out with
  | nil =>
    cases h
    rfl
  | cons u units ih =>
    simp only [cryptUnits, bind_eq_ok, failIf_eq_ok, Decidable.not_not] at h
    obtain ⟨_, _, tmp, _, _, hlen, rest, hrest, hout⟩ := h
    cases hout
    rw [List.length_append, ih hrest, hlen, List.length_cons]
    omega

/-- Sectors keep their length. -/
theorem cryptSectors_length {key : Bytes} {first : Nat} {mode : Mode} {b out : Bytes}
    (h : cryptSectors prim key first b mode = .ok out) : out.length = b.length := by
  simp only [cryptSectors, bind_eq_ok, failIf_eq_ok] at h
  obtain ⟨_, _, _, hlen, hunits⟩ := h
  rw [cryptUnits_length prim hunits, chunks_length]
  omega

/-- One XTS unit: sector number `n` turns `a` into `b`. -/
def CryptsTo (mode : Mode) (key : Bytes) (n : Nat) (a b : Bytes) : Prop :=
  n < 2 ^ 64 ∧ prim.xts mode key (tweak n) a = some b ∧ b.length = 512

variable {prim} {mode : Mode} {key : Bytes} {first : Nat}

theorem cryptUnits_ok {i : Nat} {units : List Bytes} {out : Bytes}
    (h : cryptUnits prim key first mode i units = .ok out) :
    ∀ j < units.length, CryptsTo prim mode key (first + i + j) (units.getD j [])
      (sector out j) := by
  induction units generalizing i out with
  | nil =>
    intro j hj
    simp at hj
  | cons u units ih =>
    simp only [cryptUnits, bind_eq_ok, ofOption_eq_ok, failIf_eq_ok, Decidable.not_not,
      checkedAdd_eq_some] at h
    obtain ⟨_, ⟨hlt, rfl⟩, tmp, hx, _, hlen, rest, hrest, hout⟩ := h
    cases hout
    intro j hj
    cases j with
    | zero =>
      rw [sector_append_zero rest hlen]
      exact ⟨hlt, hx, hlen⟩
    | succ j =>
      rw [sector_append_succ rest j hlen, show first + i + (j + 1) = first + (i + 1) + j by omega]
      exact ih hrest j (by simpa using hj)

/-- An output whose sectors are the right ones is the output. -/
theorem cryptUnits_of {i : Nat} {units : List Bytes} {out : Bytes}
    (hlen : out.length = 512 * units.length)
    (h : ∀ j < units.length, CryptsTo prim mode key (first + i + j) (units.getD j [])
      (sector out j)) :
    cryptUnits prim key first mode i units = .ok out := by
  induction units generalizing i out with
  | nil =>
    rw [List.eq_nil_of_length_eq_zero hlen]
    rfl
  | cons u units ih =>
    rw [List.length_cons] at hlen h
    obtain ⟨hlt, hx, hs⟩ := h 0 (by omega)
    have hout : out = sector out 0 ++ out.drop 512 := (List.take_append_drop 512 out).symm
    have hrest : cryptUnits prim key first mode (i + 1) units = .ok (out.drop 512) := by
      refine ih (by rw [List.length_drop]; omega) fun j hj => ?_
      have := h (j + 1) (by omega)
      rwa [hout, sector_append_succ _ j hs,
        show first + i + (j + 1) = first + (i + 1) + j by omega] at this
    have hadd : checkedAdd 64 first i = some (first + i) := checkedAdd_eq_some.mpr ⟨hlt, rfl⟩
    have hx' : prim.xts mode key (tweak (first + i)) u = some (sector out 0) := hx
    simp only [cryptUnits, hadd, ofOption_some, ok_bind, hx', hrest, failIf_neg (not_not_intro hs)]
    rw [← hout]

/-- **What `crypt_sectors` does.** -/
theorem cryptSectors_iff {b out : Bytes} :
    cryptSectors prim key first b mode = .ok out ↔
      (key.length = 32 ∨ key.length = 64) ∧ b.length % 512 = 0 ∧ b.length ≤ 1024 * 1024 ∧
      out.length = b.length ∧ ∀ i < b.length / 512, CryptsTo prim mode key (first + i) (sector b i)
        (sector out i) := by
  unfold cryptSectors
  simp only [bind_eq_ok, failIf_eq_ok]
  constructor
  · rintro ⟨_, hkey, _, hlen, hunits⟩
    have hl := cryptUnits_length prim hunits
    have hc := cryptUnits_ok hunits
    rw [chunks_length] at hl hc
    refine ⟨by omega, by omega, by omega, by omega, fun i hi => ?_⟩
    have := hc i hi
    rwa [chunks_getD_sector b hi, Nat.add_zero] at this
  · rintro ⟨hkey, hmod, hmax, hl, hc⟩
    refine ⟨(), by omega, (), by omega, cryptUnits_of ?_ ?_⟩
    · rw [chunks_length]
      omega
    · intro j hj
      rw [chunks_length] at hj
      rw [chunks_getD_sector b hj, Nat.add_zero]
      exact hc j hj

/-! ## The merge -/

theorem digest_some {h : Hash} {H : Bytes → Bytes} (hH : ∀ b, prim.digest h b = some (H b))
    (b : Bytes) :
    (H b).length = h.size := prim.digest_length h b _ (hH b)

theorem diffuseParts_eq {h : Hash} {H : Bytes → Bytes} (hH : ∀ b, prim.digest h b = some (H b))
    (i : Nat) (ps : List Bytes) : diffuseParts prim h i ps = .ok (Af.hashParts H i ps) := by
  induction ps generalizing i with
  | nil => rfl
  | cons p ps ih => simp [diffuseParts, Hash.digest, hH, ih, Af.hashParts]

theorem mergeStripes_eq {h : Hash} {H : Bytes → Bytes} (hH : ∀ b, prim.digest h b = some (H b))
    (s : Bytes) (xs : List Bytes) : mergeStripes prim h xs s = .ok (Af.state H h.size s xs) := by
  induction xs generalizing s with
  | nil => rfl
  | cons x xs ih =>
    rw [mergeStripes, hashParts, diffuseParts_eq hH, ok_bind, ih]
    rfl

/-- With a hash that does not fail, `af_merge` is the general merge. -/
theorem afMerge_eq {h : Hash} {H : Bytes → Bytes} (hH : ∀ b, prim.digest h b = some (H b))
    {data : Bytes} {size : Nat} (hsize : size = 32 ∨ size = 64) (hlen : data.length = size * 4000) :
    afMerge prim data size h = .ok (Af.merge H h.size size 3999 data) := by
  unfold afMerge
  rw [failIf_neg (by omega), ok_bind, mergeStripes_eq hH, ok_bind, chunks_take]
  rfl

end Winluks
