import Mathlib.Algebra.Order.Ring.Nat
import Mathlib.Tactic.Common
import Mathlib.Data.List.GetD
import Mathlib.Data.List.Induction

/-!
# Byte stores

A store is a total function from positions to bytes; a file of known length is
a store read below that length.  `slice` reads a run of bytes and `overlay`
writes one.  The lemmas say how the two compose: what a write leaves alone,
what it makes readable, and that writes at adjacent positions join.
-/

namespace Lib

abbrev Bytes := List UInt8

/-- A byte at every position. -/
abbrev Store := Nat → UInt8

/-- `n` zero bytes. -/
def zeros (n : Nat) : Bytes := List.replicate n 0

/-- Big-endian value of a byte string. -/
def beNat (b : Bytes) : Nat := b.foldl (fun acc x => acc * 256 + x.toNat) 0

/-- Little-endian value of a byte string. -/
def leNat (b : Bytes) : Nat := b.foldr (fun x acc => acc * 256 + x.toNat) 0

/-- The `k` low bytes of `n`, least significant first. -/
def leBytes : (k n : Nat) → Bytes
  | 0, _ => []
  | k + 1, n => UInt8.ofNat n :: leBytes k (n / 256)

/-- The `k` low bytes of `n`, most significant first. -/
def beBytes (k n : Nat) : Bytes := (leBytes k n).reverse

/-- Bytewise exclusive or, as long as the shorter argument. -/
def xorBytes (a b : Bytes) : Bytes := List.zipWith (· ^^^ ·) a b

/-- The first `k` pieces of `n` elements; the last one may be shorter. -/
def chunks {α : Type} (n : Nat) : (k : Nat) → List α → List (List α)
  | 0, _ => []
  | k + 1, l => l.take n :: chunks n k (l.drop n)

@[simp] theorem zeros_length (n : Nat) : (zeros n).length = n := List.length_replicate

@[simp] theorem leBytes_length (k n : Nat) : (leBytes k n).length = k := by
  induction k generalizing n with
  | zero => rfl
  | succ k ih => simp [leBytes, ih]

/-- Numbers below `256 ^ k` are told apart by their `k` low bytes. -/
theorem leNat_leBytes (k n : Nat) (h : n < 256 ^ k) : leNat (leBytes k n) = n := by
  induction k generalizing n with
  | zero => simp at h; simp [leBytes, leNat, h]
  | succ k ih =>
    have hk : n / 256 < 256 ^ k := by
      rw [Nat.div_lt_iff_lt_mul (by decide)]; rw [Nat.pow_succ] at h; exact h
    have htail : leNat (leBytes k (n / 256)) = n / 256 := ih _ hk
    have hhead : (UInt8.ofNat n).toNat = n % 256 := by simp
    show leNat (leBytes k (n / 256)) * 256 + (UInt8.ofNat n).toNat = n
    rw [htail, hhead]
    omega

theorem leNat_lt (b : Bytes) : leNat b < 256 ^ b.length := by
  induction b with
  | nil => simp [leNat]
  | cons x b ih =>
    have hx : x.toNat < 256 := x.toNat_lt
    show leNat b * 256 + x.toNat < 256 ^ (b.length + 1)
    rw [Nat.pow_succ]
    omega

theorem beNat_append (a : Bytes) (x : UInt8) : beNat (a ++ [x]) = beNat a * 256 + x.toNat := by
  simp [beNat]

/-- Byte strings of one length are told apart by their values. -/
theorem beNat_inj {a b : Bytes} (hlen : a.length = b.length) (h : beNat a = beNat b) : a = b := by
  induction a using List.reverseRecOn generalizing b with
  | nil => exact (List.eq_nil_of_length_eq_zero hlen.symm).symm
  | append_singleton a x ih =>
    rcases List.eq_nil_or_concat b with rfl | ⟨b, y, rfl⟩
    · simp at hlen
    · rw [List.concat_eq_append] at hlen h ⊢
      rw [beNat_append, beNat_append] at h
      have hx : x.toNat < 256 := x.toNat_lt
      have hy : y.toNat < 256 := y.toNat_lt
      have hval : beNat a = beNat b := by omega
      have hlast : x = y := UInt8.toNat_inj.mp (by omega)
      rw [ih (by simpa using hlen) hval, hlast]

/-! ## Exclusive or -/

@[simp] theorem xorBytes_length (a b : Bytes) : (xorBytes a b).length = min a.length b.length :=
  List.length_zipWith

theorem xorBytes_comm (a b : Bytes) : xorBytes a b = xorBytes b a :=
  List.zipWith_comm_of_comm (fun _ _ => UInt8.xor_comm _ _)

/-- Masking twice with the same bytes gives the bytes back. -/
theorem xorBytes_cancel (a b : Bytes) (h : a.length = b.length) :
    xorBytes a (xorBytes a b) = b := by
  apply List.ext_getElem
  · simp [h]
  · intro i h1 h2
    simp only [xorBytes, List.getElem_zipWith]
    rw [← UInt8.xor_assoc, UInt8.xor_self, UInt8.zero_xor]

/-! ## Pieces -/

section
variable {α : Type} (n k : Nat) (l : List α)

@[simp] theorem chunks_length : (chunks n k l).length = k := by
  induction k generalizing l with
  | zero => rfl
  | succ k ih => simp [chunks, ih]

/-- The pieces of a list, put together again. -/
theorem chunks_flatten : (chunks n k l).flatten = l.take (n * k) := by
  induction k generalizing l with
  | zero => simp [chunks]
  | succ k ih =>
    rw [chunks, List.flatten_cons, ih, Nat.mul_succ, Nat.add_comm, List.take_add]

variable {n k l}

theorem length_of_mem_chunks (h : n * k ≤ l.length) {c : List α} (hc : c ∈ chunks n k l) :
    c.length = n := by
  induction k generalizing l with
  | zero => cases hc
  | succ k ih =>
    rw [Nat.mul_succ] at h
    rcases List.mem_cons.mp hc with rfl | hc
    · rw [List.length_take]; omega
    · exact ih (by rw [List.length_drop]; omega) hc

/-- Nothing behind the pieces matters. -/
theorem chunks_take : chunks n k (l.take (n * k)) = chunks n k l := by
  induction k generalizing l with
  | zero => rfl
  | succ k ih =>
    rw [chunks, chunks, List.take_take, Nat.min_eq_left (by rw [Nat.mul_succ]; omega),
      List.drop_take, Nat.mul_succ, Nat.add_sub_cancel, ih]

/-- Pieces of the right size are found again. -/
theorem chunks_append (xs : List (List α)) (h : ∀ x ∈ xs, x.length = n) (t : List α) :
    chunks n xs.length (xs.flatten ++ t) = xs := by
  induction xs with
  | nil => rfl
  | cons x xs ih =>
    have hx : x.length = n := h x List.mem_cons_self
    rw [List.length_cons, chunks, List.flatten_cons, List.append_assoc, ← hx, List.take_left,
      List.drop_left, hx, ih fun y hy => h y (List.mem_cons_of_mem _ hy)]

end

/-! ## Parts -/

theorem extract_getD (b : Bytes) {i j k : Nat} (h : k < j - i) :
    (b.extract i j).getD k 0 = b.getD (i + k) 0 := by
  rw [List.extract_eq_take_drop, List.getD_eq_getElem?_getD, List.getElem?_take_of_lt h,
    List.getElem?_drop, List.getD_eq_getElem?_getD]

/-- A part depends on its own bytes only. -/
theorem extract_congr {a b : Bytes} {i j : Nat} (hlen : a.length = b.length)
    (h : ∀ k, i ≤ k → k < j → a.getD k 0 = b.getD k 0) : a.extract i j = b.extract i j := by
  have hl : (a.extract i j).length = (b.extract i j).length := by
    rw [List.extract_eq_take_drop, List.extract_eq_take_drop, List.length_take, List.length_take,
      List.length_drop, List.length_drop, hlen]
  refine List.ext_getElem hl fun k hk hk' => ?_
  have hlt : k < j - i := by
    rw [List.extract_eq_take_drop, List.length_take] at hk
    omega
  rw [← List.getD_eq_getElem _ 0 hk, ← List.getD_eq_getElem _ 0 hk', extract_getD a hlt,
    extract_getD b hlt]
  exact h _ (by omega) (by omega)

/-! ## Reading -/

/-- The `n` bytes of `f` from `o` on. -/
def slice (f : Store) (o n : Nat) : Bytes := (List.range n).map fun i => f (o + i)

section
variable (f g : Store) (o n m : Nat)

@[simp] theorem slice_length : (slice f o n).length = n := by simp [slice]

@[simp] theorem slice_zero : slice f o 0 = [] := rfl

theorem slice_getElem (i : Nat) (h : i < (slice f o n).length) : (slice f o n)[i] = f (o + i) := by
  simp [slice]

theorem slice_getD (i : Nat) (h : i < n) : (slice f o n).getD i 0 = f (o + i) := by
  rw [List.getD_eq_getElem _ _ (by simpa using h), slice_getElem]

theorem slice_add : slice f o (n + m) = slice f o n ++ slice f (o + n) m := by
  simp [slice, List.range_add, Nat.add_assoc]

theorem slice_succ : slice f o (n + 1) = f o :: slice f (o + 1) n := by
  rw [Nat.add_comm, slice_add]
  rfl

variable {f g o n}

theorem slice_congr (h : ∀ p, o ≤ p → p < o + n → f p = g p) : slice f o n = slice g o n := by
  apply List.map_congr_left
  intro i hi
  rw [List.mem_range] at hi
  exact h _ (by omega) (by omega)

theorem slice_eq_slice_iff {o' : Nat} :
    slice f o n = slice g o' n ↔ ∀ i < n, f (o + i) = g (o' + i) := by
  constructor
  · intro h i hi
    rw [← slice_getD f o n i hi, h, slice_getD g o' n i hi]
  · intro h
    exact List.map_congr_left fun i hi => h i (List.mem_range.mp hi)

/-- A part of a slice is a slice. -/
theorem slice_drop_take (i m : Nat) (h : i + m ≤ n) :
    ((slice f o n).drop i).take m = slice f (o + i) m := by
  apply List.ext_getElem
  · simp; omega
  · intro j h1 h2
    simp only [List.getElem_take, List.getElem_drop, slice_getElem, Nat.add_assoc]

theorem slice_take (m : Nat) (h : m ≤ n) : (slice f o n).take m = slice f o m := by
  simpa using @slice_drop_take f o n 0 m (by omega)

theorem slice_drop (i : Nat) : (slice f o n).drop i = slice f (o + i) (n - i) := by
  by_cases h : i ≤ n
  · have := @slice_drop_take f o n i (n - i) (by omega)
    rwa [List.take_of_length_le (by simp)] at this
  · rw [List.drop_eq_nil_of_le (by simp; omega), Nat.sub_eq_zero_of_le (by omega)]; rfl

theorem slice_extract (i j : Nat) (h : j ≤ n) :
    (slice f o n).extract i j = slice f (o + i) (j - i) := by
  by_cases hij : i ≤ j
  · rw [List.extract_eq_take_drop]
    exact slice_drop_take i (j - i) (by omega)
  · rw [List.extract_eq_take_drop, Nat.sub_eq_zero_of_le (by omega)]; simp

end

/-! ## Writing -/

/-- `f` with the bytes `bs` written at `o`. -/
def overlay (f : Store) (o : Nat) (bs : Bytes) : Store := fun p =>
  if o ≤ p ∧ p < o + bs.length then bs.getD (p - o) 0 else f p

section
variable (f : Store) (o : Nat) (bs cs : Bytes)

theorem overlay_of_not_mem {p : Nat} (h : ¬ (o ≤ p ∧ p < o + bs.length)) : overlay f o bs p = f p :=
  if_neg h

theorem overlay_of_mem {p : Nat} (h : o ≤ p ∧ p < o + bs.length) :
    overlay f o bs p = bs.getD (p - o) 0 := if_pos h

@[simp] theorem overlay_nil : overlay f o [] = f := by
  funext p
  exact overlay_of_not_mem f o [] (by rw [List.length_nil]; omega)

/-- Writes at adjacent positions join. -/
theorem overlay_append : overlay (overlay f o bs) (o + bs.length) cs = overlay f o (bs ++ cs) := by
  funext p
  unfold overlay
  rw [List.length_append]
  by_cases h1 : o ≤ p ∧ p < o + bs.length
  · rw [if_neg (by omega), if_pos h1, if_pos (by omega), List.getD_append _ _ _ _ (by omega)]
  · by_cases h2 : o + bs.length ≤ p ∧ p < o + bs.length + cs.length
    · rw [if_pos h2, if_pos (by omega), List.getD_append_right _ _ _ _ (by omega)]
      congr 1
      omega
    · rw [if_neg h2, if_neg h1, if_neg (by omega)]

theorem slice_overlay_self : slice (overlay f o bs) o bs.length = bs := by
  apply List.ext_getElem
  · simp
  · intro i h1 h2
    rw [slice_getElem, overlay_of_mem _ _ _ ⟨by omega, by omega⟩, Nat.add_sub_cancel_left,
      List.getD_eq_getElem _ _ h2]

/-- A read beside a write does not see it. -/
theorem slice_overlay_disjoint {q n : Nat} (h : q + n ≤ o ∨ o + bs.length ≤ q) :
    slice (overlay f o bs) q n = slice f q n :=
  slice_congr fun p h1 h2 => overlay_of_not_mem _ _ _ (by omega)

/-- A longer write at the same place hides a shorter one. -/
theorem overlay_overlay_of_le (h : bs.length ≤ cs.length) :
    overlay (overlay f o bs) o cs = overlay f o cs := by
  funext p
  unfold overlay
  by_cases h1 : o ≤ p ∧ p < o + cs.length
  · rw [if_pos h1, if_pos h1]
  · rw [if_neg h1, if_neg h1, if_neg (by omega)]

end

end Lib
