import Mathlib.Data.Nat.Bitwise
import Mathlib.Algebra.Order.Floor.Div

/-!
# Words as sets of bits

A mask is the word whose bits are those of a list; the tests that code makes with
`&` and a mask are statements about single bits.  The last section has the
rounded-up quotient as `div_ceil` computes it.
-/

namespace Lib

/-- The word whose set bits are those of the list. -/
def mask (bits : List Nat) : Nat := bits.foldr (fun i m => 2 ^ i ||| m) 0

variable {x w n : Nat} {bits : List Nat}

@[simp] theorem testBit_mask (i : Nat) : (mask bits).testBit i = decide (i ∈ bits) := by
  induction bits with
  | nil => simp [mask]
  | cons b bits ih =>
    show (2 ^ b ||| mask bits).testBit i = _
    rw [Nat.testBit_or, ih, Nat.testBit_two_pow]
    by_cases h : b = i
    · simp [h]
    · simp [h, Ne.symm h]

theorem mask_lt (h : ∀ i ∈ bits, i < w) : mask bits < 2 ^ w := by
  refine Nat.lt_pow_two_of_testBit _ fun i hi => ?_
  have : i ∉ bits := fun hmem => absurd (h i hmem) (by omega)
  simp [this]

/-- No bit of the mask is set. -/
theorem and_mask_eq_zero : x &&& mask bits = 0 ↔ ∀ i ∈ bits, x.testBit i = false := by
  constructor
  · intro h i hi
    have : (x &&& mask bits).testBit i = false := by rw [h, Nat.zero_testBit]
    simpa [hi] using this
  · intro h
    refine Nat.eq_of_testBit_eq fun i => ?_
    by_cases hi : i ∈ bits
    · simp [h i hi]
    · simp [hi]

/-- Every bit of the mask is set. -/
theorem and_mask_eq_mask : x &&& mask bits = mask bits ↔ ∀ i ∈ bits, x.testBit i = true := by
  constructor
  · intro h i hi
    have : (x &&& mask bits).testBit i = (mask bits).testBit i := by rw [h]
    simpa [hi] using this
  · intro h
    refine Nat.eq_of_testBit_eq fun i => ?_
    by_cases hi : i ∈ bits
    · simp [hi, h i hi]
    · simp [hi]

/-- No bit outside the mask is set; the complement is that of `w`-bit words. -/
theorem and_not_mask_eq_zero (hx : x < 2 ^ w) (hbits : ∀ i ∈ bits, i < w) :
    x &&& (2 ^ w - 1 - mask bits) = 0 ↔ ∀ i, x.testBit i = true → i ∈ bits := by
  have hbit : ∀ i, (x &&& (2 ^ w - 1 - mask bits)).testBit i =
      (x.testBit i && decide (i ∉ bits)) := by
    intro i
    rw [Nat.testBit_and, Nat.sub_sub, Nat.add_comm, Nat.testBit_two_pow_sub_succ (mask_lt hbits),
      testBit_mask]
    by_cases hi : i < w
    · simp [hi]
    · have : x.testBit i = false :=
        Nat.testBit_lt_two_pow (hx.trans_le (Nat.pow_le_pow_right (by decide) (by omega)))
      simp [this]
  constructor
  · intro h i hi
    have := hbit i
    rw [h, Nat.zero_testBit, hi] at this
    simpa using this
  · intro h
    refine Nat.eq_of_testBit_eq fun i => ?_
    rw [hbit, Nat.zero_testBit]
    by_cases hi : x.testBit i = true
    · simp [h i hi]
    · simp [hi]

/-- A word put together from its halves. -/
theorem or_shiftLeft {low : Nat} (h : low < 2 ^ n) (high : Nat) :
    low ||| high <<< n = high * 2 ^ n + low := by
  rw [Nat.or_comm, ← Nat.shiftLeft_add_eq_or_of_lt h, Nat.shiftLeft_eq]

/-! ## The rounded-up quotient -/

/-- One more than the quotient, unless the division is exact. -/
theorem ceilDiv_eq_div_add {a b : Nat} (hb : 0 < b) :
    a ⌈/⌉ b = a / b + if 0 < a % b then 1 else 0 := by
  rw [Nat.ceilDiv_eq_add_pred_div]
  have hdiv := Nat.div_add_mod a b
  have hmod := Nat.mod_lt a hb
  split
  · next h =>
    rw [show a + b - 1 = a % b - 1 + b * (a / b + 1) by rw [Nat.mul_add]; omega,
      Nat.add_mul_div_left _ _ hb, Nat.div_eq_of_lt (by omega)]
    omega
  · next h =>
    rw [show a + b - 1 = b - 1 + b * (a / b) by omega, Nat.add_mul_div_left _ _ hb,
      Nat.div_eq_of_lt (by omega)]
    omega

/-- The quotient that is not exact leaves room for one more. -/
theorem div_lt_self_of_mod {a b : Nat} (h : 0 < a % b) : a / b < a := by
  have ha : 0 < a := Nat.lt_of_lt_of_le h (Nat.mod_le a b)
  have hb : b ≠ 1 := by
    rintro rfl
    omega
  rcases Nat.eq_zero_or_pos b with rfl | hpos
  · simpa using ha
  · exact Nat.div_lt_self ha (by omega)

end Lib
