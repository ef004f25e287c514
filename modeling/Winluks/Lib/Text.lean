import Winluks.Lib.Store

/-!
# Text

Two encodings of text, as bytes.  UTF-16 is decoded to characters and encoded
again in UTF-8, so that a position means one thing in the units and another in
the bytes; an ASCII prefix is where the two agree (`ascii_prefix_iff`).
Hexadecimal digits determine the bytes they stand for (`hex_inj`).
-/

namespace Lib

/-! ## UTF-16 -/

namespace Utf16

/-- The characters of a text; `none` at a surrogate without its partner. -/
def decode : List UInt16 → Option (List Char)
  | [] => some []
  | u :: rest =>
    if u.toNat < 0xd800 ∨ 0xdfff < u.toNat then (decode rest).map (Char.ofNat u.toNat :: ·)
    else if 0xdbff < u.toNat then none
    else match rest with
      | [] => none
      | l :: rest =>
        if 0xdc00 ≤ l.toNat ∧ l.toNat ≤ 0xdfff then
          (decode rest).map
            (Char.ofNat (0x10000 + (u.toNat - 0xd800) * 1024 + (l.toNat - 0xdc00)) :: ·)
        else none

/-- The same text in UTF-8. -/
def toUtf8 (units : List UInt16) : Option Bytes :=
  (decode units).map (·.flatMap String.utf8EncodeChar)

/-- A byte as a unit. -/
def unit (x : UInt8) : UInt16 := UInt16.ofNat x.toNat

theorem unit_toNat (x : UInt8) : (unit x).toNat = x.toNat := by
  simp [unit]

theorem ofNat_val {n : Nat} (h : n < 0xd800 ∨ 0xdfff < n ∧ n < 0x110000) :
    (Char.ofNat n).val.toNat = n := by
  have hv : n.isValidChar := h
  unfold Char.ofNat
  rw [dif_pos hv]
  rfl

theorem utf8EncodeChar_ascii {c : Char} (h : c.val.toNat < 128) :
    String.utf8EncodeChar c = [UInt8.ofNat c.val.toNat] := by
  unfold String.utf8EncodeChar
  exact if_pos (by omega)

/-- Outside ASCII the first byte is none of ASCII. -/
theorem utf8EncodeChar_wide {c : Char} (h : 128 ≤ c.val.toNat) :
    ∃ y ys, String.utf8EncodeChar c = y :: ys ∧ 128 ≤ y.toNat := by
  have hc := c.val.toNat_lt
  unfold String.utf8EncodeChar
  simp only [if_neg (show ¬ c.val.toNat ≤ 0x7f by omega)]
  split
  · exact ⟨_, _, rfl, by simp; omega⟩
  split
  · exact ⟨_, _, rfl, by simp; omega⟩
  · exact ⟨_, _, rfl, by simp; omega⟩

/-- How a text that is not empty begins, in units and in bytes. -/
theorem toUtf8_cons {u : UInt16} {rest : List UInt16} {b : Bytes}
    (h : toUtf8 (u :: rest) = some b) :
    (∃ x b', u.toNat < 128 ∧ u = unit x ∧ b = x :: b' ∧ toUtf8 rest = some b') ∨
      (128 ≤ u.toNat ∧ ∃ y b', b = y :: b' ∧ 128 ≤ y.toNat) := by
  have hu := u.toNat_lt
  obtain ⟨cs, hcs, rfl⟩ := Option.map_eq_some_iff.mp h
  unfold decode at hcs
  split at hcs
  · next hplain =>
    obtain ⟨cs, hrest, rfl⟩ := Option.map_eq_some_iff.mp hcs
    have hval := ofNat_val (n := u.toNat) (by omega)
    by_cases hascii : u.toNat < 128
    · refine Or.inl ⟨UInt8.ofNat u.toNat, cs.flatMap String.utf8EncodeChar, hascii, ?_,
        ?_, by rw [toUtf8, hrest]; rfl⟩
      · apply UInt16.toNat_inj.mp
        rw [unit_toNat]
        simp
        omega
      · rw [List.flatMap_cons, utf8EncodeChar_ascii (by omega), hval]
        rfl
    · obtain ⟨y, ys, hy, hlt⟩ := utf8EncodeChar_wide (c := Char.ofNat u.toNat) (by omega)
      exact Or.inr ⟨by omega, y, _, by rw [List.flatMap_cons, hy]; rfl, hlt⟩
  · next hsurrogate =>
    split at hcs
    · cases hcs
    split at hcs
    · cases hcs
    · next l rest' =>
      split at hcs
      · next hlow =>
        obtain ⟨cs, hrest, rfl⟩ := Option.map_eq_some_iff.mp hcs
        have hval := ofNat_val (n := 0x10000 + (u.toNat - 0xd800) * 1024 + (l.toNat - 0xdc00))
          (by omega)
        obtain ⟨y, ys, hy, hlt⟩ := utf8EncodeChar_wide
          (c := Char.ofNat (0x10000 + (u.toNat - 0xd800) * 1024 + (l.toNat - 0xdc00))) (by omega)
        exact Or.inr ⟨by omega, y, _, by rw [List.flatMap_cons, hy]; rfl, hlt⟩
      · cases hcs

/-- **An ASCII prefix** is at the same place in the units and in the bytes. -/
theorem ascii_prefix_iff {p : Bytes} (hp : ∀ x ∈ p, x.toNat < 128) {units : List UInt16} {b : Bytes}
    (h : toUtf8 units = some b) : p <+: b ↔ p.map unit <+: units := by
  induction p generalizing units b with
  | nil => simp
  | cons x p ih =>
    have hx := hp x List.mem_cons_self
    rw [List.map_cons]
    cases units with
    | nil =>
      cases h
      simp
    | cons u rest =>
      obtain ⟨x', b', -, rfl, rfl, hrest⟩ | ⟨hu, y, b', rfl, hy⟩ := toUtf8_cons h
      · rw [List.cons_prefix_cons, List.cons_prefix_cons,
          ih (fun z hz => hp z (List.mem_cons_of_mem _ hz)) hrest]
        refine and_congr_left fun _ => ⟨fun h => by rw [h], fun h => ?_⟩
        apply UInt8.toNat_inj.mp
        rw [← unit_toNat x, ← unit_toNat x', h]
      · rw [List.cons_prefix_cons, List.cons_prefix_cons]
        constructor
        · rintro ⟨rfl, -⟩
          omega
        · rintro ⟨rfl, -⟩
          rw [unit_toNat] at hu
          omega

end Utf16

/-! ## Hexadecimal digits -/

namespace Hex

def digit (n : Nat) : UInt8 := UInt8.ofNat (if n < 10 then 48 + n else 87 + n)

/-- Two lower-case digits a byte. -/
def hex (b : Bytes) : Bytes := b.flatMap fun x => [digit (x.toNat / 16), digit (x.toNat % 16)]

theorem digit_inj {n m : Nat} (hn : n < 16) (hm : m < 16) (h : digit n = digit m) : n = m := by
  have hall : ∀ i < 16, ∀ j < 16, digit i = digit j → i = j := by decide
  exact hall n hn m hm h

/-- **Digits determine bytes.** -/
theorem hex_inj {a b : Bytes} (h : hex a = hex b) : a = b := by
  induction a generalizing b with
  | nil =>
    cases b with
    | nil => rfl
    | cons y b => simp [hex] at h
  | cons x a ih =>
    cases b with
    | nil => simp [hex] at h
    | cons y b =>
      have hx := x.toNat_lt
      have hy := y.toNat_lt
      simp only [hex, List.flatMap_cons, List.cons_append, List.nil_append, List.cons.injEq] at h
      obtain ⟨hhi, hlo, hrest⟩ := h
      have hhi := digit_inj (by omega) (by omega) hhi
      have hlo := digit_inj (by omega) (by omega) hlo
      rw [ih hrest, UInt8.toNat_inj.mp (show x.toNat = y.toNat by omega)]

end Hex

end Lib
