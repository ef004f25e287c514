import Mathlib.Logic.Function.Basic
import Mathlib.Tactic.Common
import Winluks.Lib.Store

/-!
# Anti-forensic splitting

A key is spread over many stripes: all but the last are random, and the last
masks the key with a hash of the others.  `merge` folds the stripes the same way
and takes the mask off again (`merge_split`); so the last stripe and the key
determine each other (`merge_bijective`).  The hash `H` gives `n` bytes;
`diffuse` applies it to each `n`-byte part of the state, together with the
number of the part.
-/

namespace Lib

namespace Af

variable (H : Bytes → Bytes) (n : Nat)

/-- The parts of a state that are hashed by themselves. -/
def parts (s : Bytes) : List Bytes := chunks n ((s.length + n - 1) / n) s

/-- The hashes of the parts, numbered from `i` on. -/
def hashParts (i : Nat) : List Bytes → Bytes
  | [] => []
  | p :: rest => (H (beBytes 4 i ++ p)).take p.length ++ hashParts (i + 1) rest

def diffuse (s : Bytes) : Bytes := hashParts H 0 (parts n s)

/-- The state after the stripes `xs`. -/
def state (s : Bytes) (xs : List Bytes) : Bytes :=
  xs.foldl (fun s x => diffuse H n (xorBytes s x)) s

/-- The random stripes `xs`, and one more that hides `key`. -/
def split (key : Bytes) (xs : List Bytes) : Bytes :=
  xs.flatten ++ xorBytes key (state H n (zeros key.length) xs)

/-- Undo a split into `k` random stripes of `size` bytes and the last one. -/
def merge (size k : Nat) (data : Bytes) : Bytes :=
  xorBytes (state H n (zeros size) (chunks size k data)) (data.drop (size * k))

variable {H n}

theorem hashParts_length (hH : ∀ b, (H b).length = n) {ps : List Bytes}
    (hps : ∀ p ∈ ps, p.length ≤ n) (i : Nat) :
    (hashParts H i ps).length = ps.flatten.length := by
  induction ps generalizing i with
  | nil => rfl
  | cons p ps ih =>
    have hp := hps p List.mem_cons_self
    rw [hashParts, List.length_append, ih fun q hq => hps q (List.mem_cons_of_mem _ hq),
      List.length_take, hH, List.flatten_cons, List.length_append]
    omega

theorem parts_flatten (hn : 0 < n) (s : Bytes) : (parts n s).flatten = s := by
  unfold parts
  rw [chunks_flatten]
  apply List.take_of_length_le
  have h1 := Nat.div_add_mod (s.length + n - 1) n
  have h2 := Nat.mod_lt (s.length + n - 1) hn
  omega

theorem length_le_of_mem_chunks {k : Nat} {s p : Bytes} (hp : p ∈ chunks n k s) : p.length ≤ n := by
  induction k generalizing s with
  | zero => cases hp
  | succ k ih =>
    rcases List.mem_cons.mp hp with rfl | hp
    · rw [List.length_take]; omega
    · exact ih hp

theorem diffuse_length (hn : 0 < n) (hH : ∀ b, (H b).length = n) (s : Bytes) :
    (diffuse H n s).length = s.length := by
  have hparts : ∀ p ∈ parts n s, p.length ≤ n := fun p hp => length_le_of_mem_chunks hp
  rw [diffuse, hashParts_length hH hparts, parts_flatten hn]

theorem state_length (hn : 0 < n) (hH : ∀ b, (H b).length = n) {s : Bytes} {xs : List Bytes}
    (hxs : ∀ x ∈ xs, x.length = s.length) : (state H n s xs).length = s.length := by
  induction xs generalizing s with
  | nil => rfl
  | cons x xs ih =>
    have hx := hxs x List.mem_cons_self
    have hstep : (diffuse H n (xorBytes s x)).length = s.length := by
      rw [diffuse_length hn hH, xorBytes_length, hx, Nat.min_self]
    show (state H n (diffuse H n (xorBytes s x)) xs).length = s.length
    rw [ih fun y hy => by rw [hstep]; exact hxs y (List.mem_cons_of_mem _ hy), hstep]

theorem flatten_length {size : Nat} {xs : List Bytes} (hxs : ∀ x ∈ xs, x.length = size) :
    xs.flatten.length = size * xs.length := by
  induction xs with
  | nil => rfl
  | cons x xs ih =>
    rw [List.flatten_cons, List.length_append, hxs x List.mem_cons_self,
      ih fun y hy => hxs y (List.mem_cons_of_mem _ hy), List.length_cons, Nat.mul_succ,
      Nat.add_comm]

/-- A split is as long as its stripes. -/
theorem split_length (hn : 0 < n) (hH : ∀ b, (H b).length = n) {key : Bytes} {xs : List Bytes}
    (hxs : ∀ x ∈ xs, x.length = key.length) :
    (split H n key xs).length = key.length * (xs.length + 1) := by
  have hst : (state H n (zeros key.length) xs).length = key.length := by
    rw [state_length hn hH (by simpa using hxs), zeros_length]
  rw [split, List.length_append, xorBytes_length, hst, Nat.min_self, flatten_length hxs,
    Nat.mul_succ]

/-- The stripes make a mask for the last one. -/
theorem merge_append {size : Nat} {xs : List Bytes} (hxs : ∀ x ∈ xs, x.length = size)
    (last : Bytes) :
    merge H n size xs.length (xs.flatten ++ last) = xorBytes (state H n (zeros size) xs) last := by
  unfold merge
  rw [chunks_append xs hxs, ← flatten_length hxs, List.drop_left]

/-- **Merging a split gives the key back**, whatever the random stripes were. -/
theorem merge_split (hn : 0 < n) (hH : ∀ b, (H b).length = n) {key : Bytes} {xs : List Bytes}
    (hxs : ∀ x ∈ xs, x.length = key.length) :
    merge H n key.length xs.length (split H n key xs) = key := by
  have hst : (state H n (zeros key.length) xs).length = key.length := by
    rw [state_length hn hH (by simpa using hxs), zeros_length]
  unfold split
  rw [merge_append hxs, xorBytes_comm key, xorBytes_cancel _ _ hst]

/-- **Every key has exactly one last stripe**, whatever the stripes before it. -/
theorem merge_bijective (hn : 0 < n) (hH : ∀ b, (H b).length = n) {size : Nat} {xs : List Bytes}
    (hxs : ∀ x ∈ xs, x.length = size) : ∃ f :
    {b : Bytes // b.length = size} → {b : Bytes // b.length = size},
      f.Bijective ∧ ∀ last, merge H n size xs.length (xs.flatten ++ last.1) = (f last).1 := by
  have hst : (state H n (zeros size) xs).length = size := by
    rw [state_length hn hH (by simpa using hxs), zeros_length]
  refine ⟨fun last =>
    ⟨xorBytes (state H n (zeros size) xs)
      last.1, by rw [xorBytes_length, hst, last.2, Nat.min_self]⟩,
    Function.Involutive.bijective fun last => Subtype.ext ?_, fun last => merge_append hxs _⟩
  exact xorBytes_cancel _ _ (hst.trans last.2.symm)

end Af

end Lib
