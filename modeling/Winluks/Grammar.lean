import Winluks.StrictJson
import Winluks.Header

/-!
# What strict JSON accepts and what it keeps

`Doc.Admissible` is the grammar: which documents `strict_json.rs` is meant to
take.  `Tree` is what a document says, up to the order of the members of its
objects; documents and values both have one.

`parse_grammar` says that `parse` takes exactly the admissible documents, that
the value says what the document says, and that two values, and with them two
header copies, compare equal exactly when the documents differ in the order of
members alone.
-/

namespace Winluks

open Lib

/-- What a document says: arrays are lists, objects are maps. -/
inductive Tree where
  | null
  | bool (b : Bool)
  | int (i : Int)
  | fraction
  | string (s : String)
  | array (items : List Tree)
  | object (members : String → Option Tree)

namespace Doc

mutual

def tree : Doc → Tree
  | .null => .null
  | .bool b => .bool b
  | .u64 n => .int n.toNat
  | .i64 n => .int n.toInt
  | .f64 => .fraction
  | .string s => .string s
  | .seq items => .array (trees items)
  | .map members => .object (entry members)

def trees : List Doc → List Tree
  | [] => []
  | x :: rest => tree x :: trees rest

/-- The first member of the key. -/
def entry : List (String × Doc) → String → Option Tree
  | [], _ => none
  | (k, x) :: rest, key => if key = k then some (tree x) else entry rest key

end

/-- `Within d n y`: `y` is a value of `d`, inside `n` arrays and objects. -/
inductive Within : Doc → Nat → Doc → Prop
  | here (d : Doc) : Within d 0 d
  | item {items : List Doc} {x y : Doc} {n : Nat} (hx : x ∈ items) (h : Within x n y) :
    Within (.seq items) (n + 1) y
  | member {members : List (String × Doc)} {e : String × Doc} {y : Doc} {n : Nat} (he : e ∈ members)
      (h : Within e.2 n y) : Within (.map members) (n + 1) y

/-- The restricted grammar: at most 32 enclosing arrays and objects, integers only, each key of an
object once. -/
def Admissible (d : Doc) : Prop :=
  ∀ n y, Within d n y → n ≤ 32 ∧ y ≠ .f64 ∧ ∀ members, y = .map members →
  (members.map Prod.fst).Nodup

/-- The integer of a number. -/
def integer : Doc → Option Int
  | .u64 n => some n.toNat
  | .i64 n => some n.toInt
  | _ => none

mutual

/-- Documents that differ in the order of members alone. -/
inductive Same : Doc → Doc → Prop
  | null : Same .null .null
  | bool (b : Bool) : Same (.bool b) (.bool b)
  | number {d d' : Doc} {i : Int} (h : d.integer = some i) (h' : d'.integer = some i) : Same d d'
  | string (s : String) : Same (.string s) (.string s)
  | seq {items items' : List Doc} (h : SameItems items items') : Same (.seq items) (.seq items')
  | map {members members' reordered : List (String × Doc)} (hperm : members'.Perm reordered)
      (h : SameMembers members reordered) : Same (.map members) (.map members')

inductive SameItems : List Doc → List Doc → Prop
  | nil : SameItems [] []
  | cons {x y : Doc} {xs ys : List Doc} (h : Same x y) (hs : SameItems xs ys) :
    SameItems (x :: xs) (y :: ys)

inductive SameMembers : List (String × Doc) → List (String × Doc) → Prop
  | nil : SameMembers [] []
  | cons (k : String) {x y : Doc} {xs ys : List (String × Doc)} (h : Same x y)
    (hs : SameMembers xs ys) :
      SameMembers ((k, x) :: xs) ((k, y) :: ys)

end

/-! ## The grammar, read from the outside in -/

mutual

/-- The grammar below `depth` arrays and objects. -/
def Fits (depth : Nat) : Doc → Prop
  | .f64 => False
  | .seq items => depth ≤ 32 ∧ FitsItems (depth + 1) items
  | .map members => depth ≤ 32 ∧ (members.map Prod.fst).Nodup ∧ FitsMembers (depth + 1) members
  | _ => depth ≤ 32

def FitsItems (depth : Nat) : List Doc → Prop
  | [] => True
  | x :: rest => Fits depth x ∧ FitsItems depth rest

def FitsMembers (depth : Nat) : List (String × Doc) → Prop
  | [] => True
  | (_, x) :: rest => Fits depth x ∧ FitsMembers depth rest

end

theorem fitsItems_iff {depth : Nat} {items : List Doc} :
    FitsItems depth items ↔ ∀ x ∈ items, Fits depth x := by
  induction items with
  | nil => simp [FitsItems]
  | cons x rest ih => simp [FitsItems, ih]

theorem fitsMembers_iff {depth : Nat} {members : List (String × Doc)} :
    FitsMembers depth members ↔ ∀ e ∈ members, Fits depth e.2 := by
  induction members with
  | nil => simp [FitsMembers]
  | cons e rest ih =>
    obtain ⟨k, x⟩ := e
    simp [FitsMembers, ih]

theorem fits_depth {depth : Nat} {d : Doc} (h : Fits depth d) : depth ≤ 32 := by
  cases d with
  | f64 => exact h.elim
  | seq items => exact h.1
  | map members => exact h.1
  | _ => exact h

/-- What fits keeps the grammar at each of its values. -/
theorem fits_within {depth : Nat} {d y : Doc} {n : Nat} (h : Fits depth d) (hy : Within d n y) :
    Fits (depth + n) y := by
  induction hy generalizing depth with
  | here d => exact h
  | item hx _ ih =>
    have := ih (fitsItems_iff.mp h.2 _ hx)
    rwa [Nat.add_assoc, Nat.add_comm 1] at this
  | member he _ ih =>
    have := ih (fitsMembers_iff.mp h.2.2 _ he)
    rwa [Nat.add_assoc, Nat.add_comm 1] at this

/-- The grammar at every value under `depth` arrays and objects. -/
def AdmissibleAt (depth : Nat) (d : Doc) : Prop :=
  ∀ n y, Within d n y →
    depth + n ≤ 32 ∧ y ≠ .f64 ∧ ∀ members, y = .map members → (members.map Prod.fst).Nodup

theorem AdmissibleAt.item {depth : Nat} {items : List Doc} (h : AdmissibleAt depth (.seq items))
    {x : Doc} (hx : x ∈ items) : AdmissibleAt (depth + 1) x := by
  intro n y hy
  obtain ⟨h1, h2⟩ := h (n + 1) y (.item hx hy)
  exact ⟨by omega, h2⟩

theorem AdmissibleAt.member {depth : Nat} {members : List (String × Doc)}
    (h : AdmissibleAt depth (.map members)) {e : String × Doc} (he : e ∈ members) :
    AdmissibleAt (depth + 1) e.2 := by
  intro n y hy
  obtain ⟨h1, h2⟩ := h (n + 1) y (.member he hy)
  exact ⟨by omega, h2⟩

mutual

theorem fits_of_admissibleAt {depth : Nat} {d : Doc} (h : AdmissibleAt depth d) : Fits depth d := by
  obtain ⟨hdepth, hnum, hkeys⟩ := h 0 d (.here d)
  cases d with
  | f64 => exact absurd rfl hnum
  | seq items => exact ⟨hdepth, fitsItems_of_admissibleAt fun x hx => h.item hx⟩
  | map members => exact ⟨hdepth, hkeys members rfl,
      fitsMembers_of_admissibleAt fun e he => h.member he⟩
  | _ => exact hdepth

theorem fitsItems_of_admissibleAt {depth : Nat} {items : List Doc}
    (h : ∀ x ∈ items, AdmissibleAt depth x) :
    FitsItems depth items := by
  cases items with
  | nil => trivial
  | cons x rest =>
    exact ⟨fits_of_admissibleAt (h x List.mem_cons_self),
      fitsItems_of_admissibleAt fun y hy => h y (List.mem_cons_of_mem _ hy)⟩

theorem fitsMembers_of_admissibleAt {depth : Nat} {members : List (String × Doc)}
    (h : ∀ e ∈ members, AdmissibleAt depth e.2) : FitsMembers depth members := by
  cases members with
  | nil => trivial
  | cons e rest =>
    obtain ⟨k, x⟩ := e
    exact ⟨fits_of_admissibleAt (h (k, x) List.mem_cons_self),
      fitsMembers_of_admissibleAt fun e he => h e (List.mem_cons_of_mem _ he)⟩

end

theorem admissible_iff {d : Doc} : d.Admissible ↔ Fits 0 d := by
  constructor
  · intro h
    refine fits_of_admissibleAt fun n y hy => ?_
    rw [Nat.zero_add]
    exact h n y hy
  · intro h n y hy
    have hfits := fits_within h hy
    rw [Nat.zero_add] at hfits
    refine ⟨fits_depth hfits, ?_, ?_⟩
    · rintro rfl
      exact hfits
    · rintro members rfl
      exact hfits.2.1

end Doc

/-! ## The visitor takes what fits -/

open Doc in
mutual

theorem node_isSome {depth : Nat} {doc : Doc} : (node depth doc).isSome ↔ Fits depth doc := by
  by_cases hdepth : 32 < depth
  · have hnot : ¬ Fits depth doc := fun h => absurd (fits_depth h) (by omega)
    unfold node
    rw [if_pos hdepth]
    simp [hnot]
  · have hle : depth ≤ 32 := by omega
    cases doc with
    | seq items => simp [node, hdepth, Fits, hle, visitSeq_isSome]
    | map members =>
      have h := @visitMap_isSome depth members []
      simp [node, hdepth, Fits, hle, h]
    | _ => simp [node, hdepth, Fits, hle]

theorem visitSeq_isSome {depth : Nat} {items : List Doc} :
    (visitSeq depth items).isSome ↔ FitsItems (depth + 1) items := by
  cases items with
  | nil => simp [visitSeq, FitsItems]
  | cons x rest =>
    rw [FitsItems, ← node_isSome, ← visitSeq_isSome]
    cases hx : node (depth + 1) x <;> cases hrest : visitSeq depth rest <;>
      simp [visitSeq, hx, hrest]

theorem visitMap_isSome {depth : Nat} {members : List (String × Doc)} {m : Obj} :
    (visitMap depth members m).isSome ↔
      (members.map Prod.fst).Nodup ∧ (∀ k ∈ members.map Prod.fst, m.lookup k = none) ∧
        FitsMembers (depth + 1) members := by
  cases members with
  | nil => simp [visitMap, FitsMembers]
  | cons e rest =>
    obtain ⟨k, x⟩ := e
    cases hk : m.lookup k with
    | some v =>
      have hfail : visitMap depth ((k, x) :: rest) m = none := by simp [visitMap, hk]
      rw [hfail]
      refine iff_of_false (by simp) fun h => ?_
      have := h.2.1 k List.mem_cons_self
      rw [hk] at this
      cases this
    | none =>
      rw [FitsMembers, ← node_isSome]
      cases hx : node (depth + 1) x with
      | none => simp [visitMap, hk, hx]
      | some v =>
        have hinsert : ∀ k', (insertKey k v m).lookup k' = none ↔ k' ≠ k ∧ m.lookup k' = none := by
          intro k'
          rw [lookup_insertKey]
          by_cases h : k' = k <;> simp [h]
        have hstep : visitMap depth ((k, x) :: rest) m = visitMap depth rest (insertKey k v m) := by
          simp [visitMap, hk, hx]
        rw [hstep, visitMap_isSome]
        simp only [hinsert, List.map_cons, List.nodup_cons, List.forall_mem_cons, hk,
          Option.isSome_some, true_and]
        constructor
        · rintro ⟨hnodup, hall, hfits⟩
          exact ⟨⟨fun hmem => (hall k hmem).1 rfl, hnodup⟩, fun k' hk' => (hall k' hk').2, hfits⟩
        · rintro ⟨⟨hnot, hnodup⟩, hall, hfits⟩
          refine ⟨hnodup, fun k' hk' => ⟨?_, hall k' hk'⟩, hfits⟩
          rintro rfl
          exact hnot hk'

end

/-! ## The value says what the document says -/

namespace Value

mutual

def tree : Value → Tree
  | .null => .null
  | .bool b => .bool b
  | .number (.posInt n) => .int n.toNat
  | .number (.negInt n) => .int n.toInt
  | .number (.float _) => .fraction
  | .string s => .string s
  | .array items => .array (trees items)
  | .object members => .object (entry members)

def trees : List Value → List Tree
  | [] => []
  | v :: rest => tree v :: trees rest

def entry : Obj → String → Option Tree
  | [], _ => none
  | (k, v) :: rest, key => if key = k then some (tree v) else entry rest key

end

mutual

/-- Integers in one form, objects in the order of their keys. -/
def Canonical : Value → Prop
  | .number (.posInt _) => True
  | .number (.negInt n) => n < 0
  | .number (.float _) => False
  | .array items => CanonicalItems items
  | .object members => SortedKeys members ∧ CanonicalMembers members
  | _ => True

def CanonicalItems : List Value → Prop
  | [] => True
  | v :: rest => Canonical v ∧ CanonicalItems rest

def CanonicalMembers : Obj → Prop
  | [] => True
  | (_, v) :: rest => Canonical v ∧ CanonicalMembers rest

end

theorem entry_eq_lookup (m : Obj) (key : String) : entry m key = (m.lookup key).map tree := by
  induction m with
  | nil => rfl
  | cons e m ih =>
    obtain ⟨k, v⟩ := e
    by_cases h : key = k
    · simp [entry, h]
    · rw [entry, if_neg h, ih, List.lookup_cons, beq_false_of_ne h]

theorem entry_insertKey (k key : String) (v : Value) (m : Obj) :
    entry (insertKey k v m) key = if key = k then some v.tree else entry m key := by
  rw [entry_eq_lookup, lookup_insertKey, entry_eq_lookup]
  split <;> rfl

theorem canonicalMembers_iff {m : Obj} : CanonicalMembers m ↔ ∀ e ∈ m, e.2.Canonical := by
  induction m with
  | nil => simp [CanonicalMembers]
  | cons e m ih =>
    obtain ⟨k, v⟩ := e
    simp [CanonicalMembers, ih]

end Value

theorem Number.tree_ofInt64 (n : Int64) : (Value.number (.ofInt64 n)).tree = .int n.toInt := by
  unfold Number.ofInt64
  split
  · rfl
  · next h =>
    have hle : 0 ≤ n := Int64.not_lt.mp h
    show Tree.int (n.toUInt64.toNat : Int) = _
    rw [Int64.toNat_toUInt64_of_le hle, Int64.toInt_eq_toNatClampNeg hle]

theorem Number.canonical_ofInt64 (n : Int64) : (Value.number (.ofInt64 n)).Canonical := by
  unfold Number.ofInt64
  split
  · next h => exact h
  · trivial

open Value in
mutual

/-- **The visitor loses nothing.** -/
theorem node_tree {depth : Nat} {doc : Doc} {v : Value} (h : node depth doc = some v) :
    v.tree = doc.tree ∧ v.Canonical := by
  unfold node at h
  split at h
  · cases h
  · cases doc with
    | seq items =>
      obtain ⟨vs, hvs, rfl⟩ := Option.map_eq_some_iff.mp h
      obtain ⟨htrees, hcanonical⟩ := visitSeq_trees hvs
      exact ⟨congrArg Tree.array htrees, hcanonical⟩
    | map members =>
      obtain ⟨m, hm, rfl⟩ := Option.map_eq_some_iff.mp h
      obtain ⟨hentry, hsorted, hcanonical⟩ := visitMap_entry hm List.Pairwise.nil trivial
      refine ⟨congrArg Tree.object (funext fun key => ?_), hsorted, hcanonical⟩
      rw [hentry]
      rfl
    | f64 => cases h
    | i64 n =>
      cases h
      exact ⟨Number.tree_ofInt64 n, Number.canonical_ofInt64 n⟩
    | _ =>
      cases h
      exact ⟨rfl, trivial⟩

theorem visitSeq_trees {depth : Nat} {items : List Doc} {vs : List Value}
    (h : visitSeq depth items = some vs) :
    trees vs = Doc.trees items ∧ CanonicalItems vs := by
  cases items with
  | nil =>
    cases h
    exact ⟨rfl, trivial⟩
  | cons x rest =>
    simp only [visitSeq, Option.bind_eq_bind, Option.bind_eq_some_iff] at h
    obtain ⟨v, hv, vs', hvs, hret⟩ := h
    cases hret
    obtain ⟨htree, hv'⟩ := node_tree hv
    obtain ⟨htrees, hvs'⟩ := visitSeq_trees hvs
    exact ⟨by rw [trees, Doc.trees, htree, htrees], hv', hvs'⟩

/-- What was read before stays, since a key is never read again. -/
theorem visitMap_entry {depth : Nat} {members : List (String × Doc)} {m m' : Obj}
    (h : visitMap depth members m = some m') (hm : SortedKeys m) (hc : CanonicalMembers m) :
    (∀ key, entry m' key = (entry m key).or (Doc.entry members key)) ∧ SortedKeys m' ∧
    CanonicalMembers m' := by
  cases members with
  | nil =>
    cases h
    exact ⟨fun key => (Option.or_none).symm, hm, hc⟩
  | cons e rest =>
    obtain ⟨k, x⟩ := e
    unfold visitMap at h
    split at h
    · cases h
    · next hnone =>
      simp only [Option.bind_eq_bind, Option.bind_eq_some_iff] at h
      obtain ⟨v, hv, hrest⟩ := h
      have hk : m.lookup k = none := Option.not_isSome_iff_eq_none.mp hnone
      obtain ⟨htree, hv'⟩ := node_tree hv
      have hc' : CanonicalMembers (insertKey k v m) := by
        rw [canonicalMembers_iff] at hc ⊢
        intro e he
        rcases mem_insertKey he with rfl | he
        · exact hv'
        · exact hc e he
      obtain ⟨hentry, hsorted, hcanonical⟩ := visitMap_entry hrest (sortedKeys_insertKey hm k v) hc'
      refine ⟨fun key => ?_, hsorted, hcanonical⟩
      rw [hentry, entry_insertKey, Doc.entry]
      by_cases hkey : key = k
      · subst hkey
        rw [if_pos rfl, if_pos rfl, entry_eq_lookup, hk, htree]
        rfl
      · rw [if_neg hkey, if_neg hkey]

end

/-! ## A canonical value is what it says -/

namespace Value

theorem number_inj {n n' : Number} (hn : (number n).Canonical) (hn' : (number n').Canonical)
    (h : (number n).tree = (number n').tree) : n = n' := by
  cases n with
  | posInt a => cases n' with
    | posInt b => rw [UInt64.toNat_inj.mp (Int.ofNat.inj (Tree.int.inj h))]
    | negInt b =>
      have hneg : b.toInt < 0 := Int64.lt_iff_toInt_lt.mp hn'
      have := Tree.int.inj h
      omega
    | float _ => exact hn'.elim
  | negInt a => cases n' with
    | posInt b =>
      have hneg : a.toInt < 0 := Int64.lt_iff_toInt_lt.mp hn
      have := Tree.int.inj h
      omega
    | negInt b => rw [Int64.toInt_inj.mp (Tree.int.inj h)]
    | float _ => exact hn'.elim
  | float _ => exact hn.elim

theorem entry_none_of_lt {m : Obj} {key : String} (h : ∀ e ∈ m, key < e.1) :
    entry m key = none := by
  rw [entry_eq_lookup, lookup_eq_none_of_lt h]
  rfl

mutual

theorem tree_inj {v w : Value} (hv : v.Canonical) (hw : w.Canonical) (h : v.tree = w.tree) :
    v = w := by
  cases v with
  | null => cases w with
    | null => rfl
    | number n => cases n <;> cases h
    | _ => cases h
  | bool b => cases w with
    | bool b' => rw [Tree.bool.inj h]
    | number n => cases n <;> cases h
    | _ => cases h
  | number n => cases w with
    | number n' => rw [number_inj hv hw h]
    | _ => cases n <;> cases h
  | string s => cases w with
    | string s' => rw [Tree.string.inj h]
    | number n => cases n <;> cases h
    | _ => cases h
  | array items => cases w with
    | array items' => rw [trees_inj hv hw (Tree.array.inj h)]
    | number n => cases n <;> cases h
    | _ => cases h
  | object members => cases w with
    | object members' => rw [entry_inj hv.1 hw.1 hv.2 hw.2 (congrFun (Tree.object.inj h))]
    | number n => cases n <;> cases h
    | _ => cases h

theorem trees_inj {vs ws : List Value} (hv : CanonicalItems vs) (hw : CanonicalItems ws)
    (h : trees vs = trees ws) :
    vs = ws := by
  cases vs with
  | nil => cases ws with
    | nil => rfl
    | cons w ws => cases h
  | cons v vs => cases ws with
    | nil => cases h
    | cons w ws =>
      obtain ⟨hhead, htail⟩ := List.cons.inj h
      rw [tree_inj hv.1 hw.1 hhead, trees_inj hv.2 hw.2 htail]

/-- Objects in key order: the first key is the least one, so the first members agree. -/
theorem entry_inj {m m' : Obj} (hs : SortedKeys m) (hs' : SortedKeys m') (hc : CanonicalMembers m)
    (hc' : CanonicalMembers m') (h : ∀ key, entry m key = entry m' key) : m = m' := by
  cases m with
  | nil => cases m' with
    | nil => rfl
    | cons e' m' =>
      have := h e'.1
      simp [entry] at this
  | cons e m => cases m' with
    | nil =>
      have := h e.1
      simp [entry] at this
    | cons e' m' =>
      obtain ⟨k, v⟩ := e
      obtain ⟨k', v'⟩ := e'
      obtain ⟨hhead, htail⟩ := List.pairwise_cons.mp hs
      obtain ⟨hhead', htail'⟩ := List.pairwise_cons.mp hs'
      have hkey : k = k' := by
        rcases Std.lt_trichotomy k k' with hlt | heq | hlt
        · have hnone : entry ((k', v') :: m') k = none := entry_none_of_lt fun e he => by
            rcases List.mem_cons.mp he with rfl | he
            · exact hlt
            · exact String.lt_trans hlt (hhead' e he)
          have := h k
          rw [hnone] at this
          simp [entry] at this
        · exact heq
        · have hnone : entry ((k, v) :: m) k' = none := entry_none_of_lt fun e he => by
            rcases List.mem_cons.mp he with rfl | he
            · exact hlt
            · exact String.lt_trans hlt (hhead e he)
          have := h k'
          rw [hnone] at this
          simp [entry] at this
      subst hkey
      have hvalue : v = v' := by
        have := h k
        simp only [entry, if_true, Option.some.injEq] at this
        exact tree_inj hc.1 hc'.1 this
      have hrest : m = m' := by
        refine entry_inj htail htail' hc.2 hc'.2 fun key => ?_
        by_cases hkey : key = k
        · subst hkey
          rw [entry_none_of_lt hhead, entry_none_of_lt hhead']
        · have := h key
          rwa [entry, if_neg hkey, entry, if_neg hkey] at this
      rw [hvalue, hrest]

end

end Value

/-! ## The order of members -/

namespace Doc

theorem entry_none {members : List (String × Doc)} {key : String} (h : key ∉ members.map Prod.fst) :
    entry members key = none := by
  induction members with
  | nil => rfl
  | cons e rest ih =>
    obtain ⟨k, x⟩ := e
    rw [List.map_cons, List.mem_cons, not_or] at h
    rw [entry, if_neg h.1, ih h.2]

theorem entry_of_mem {members : List (String × Doc)} (hn : (members.map Prod.fst).Nodup)
    {k : String} {x : Doc} (h : (k, x) ∈ members) : entry members k = some x.tree := by
  induction members with
  | nil => cases h
  | cons e rest ih =>
    obtain ⟨k', x'⟩ := e
    obtain ⟨hnot, hn'⟩ := List.nodup_cons.mp hn
    rcases List.mem_cons.mp h with heq | hrest
    · cases heq
      rw [entry, if_pos rfl]
    · have hne : k ≠ k' := by
        rintro rfl
        exact hnot (List.mem_map.mpr ⟨_, hrest, rfl⟩)
      rw [entry, if_neg hne, ih hn' hrest]

theorem mem_of_entry {members : List (String × Doc)} {key : String} {t : Tree}
    (h : entry members key = some t) :
    ∃ x, (key, x) ∈ members ∧ x.tree = t := by
  induction members with
  | nil => cases h
  | cons e rest ih =>
    obtain ⟨k, x⟩ := e
    rw [entry] at h
    split at h
    · next hk =>
      subst hk
      cases h
      exact ⟨x, List.mem_cons_self, rfl⟩
    · obtain ⟨y, hy, ht⟩ := ih h
      exact ⟨y, List.mem_cons_of_mem _ hy, ht⟩

/-- Distinct keys: what an object says does not depend on the order of its members. -/
theorem entry_perm {members members' : List (String × Doc)} (hperm : members.Perm members')
    (hn : (members.map Prod.fst).Nodup) (key : String) :
    entry members key = entry members' key := by
  have hn' : (members'.map Prod.fst).Nodup := (hperm.map Prod.fst).nodup_iff.mp hn
  cases h : entry members' key with
  | some t =>
    obtain ⟨x, hx, rfl⟩ := mem_of_entry h
    exact entry_of_mem hn (hperm.mem_iff.mpr hx)
  | none =>
    refine entry_none fun hmem => ?_
    obtain ⟨⟨k, x⟩, he, rfl⟩ := List.mem_map.mp hmem
    rw [entry_of_mem hn' (hperm.mem_iff.mp he)] at h
    cases h

mutual

theorem Same.tree_eq {depth : Nat} {d d' : Doc} (h : Same d d') (hd' : Fits depth d') :
    d.tree = d'.tree := by
  cases h with
  | null => rfl
  | bool b => rfl
  | string s => rfl
  | number h h' =>
    have hint : ∀ {x : Doc} {i : Int}, x.integer = some i → x.tree = .int i := by
      intro x i hx
      cases x <;> cases hx <;> rfl
    rw [hint h, hint h']
  | seq h => exact congrArg Tree.array (h.trees_eq hd'.2)
  | map hperm h =>
    have hmembers := fitsMembers_iff.mpr fun e he =>
      fitsMembers_iff.mp hd'.2.2 e (hperm.mem_iff.mpr he)
    refine congrArg Tree.object (funext fun key => ?_)
    rw [h.entry_eq hmembers, entry_perm hperm hd'.2.1]

theorem SameItems.trees_eq {depth : Nat} {xs ys : List Doc} (h : SameItems xs ys)
    (hys : FitsItems depth ys) :
    trees xs = trees ys := by
  cases h with
  | nil => rfl
  | cons h hs => rw [trees, trees, h.tree_eq hys.1, hs.trees_eq hys.2]

theorem SameMembers.entry_eq {depth : Nat} {xs ys : List (String × Doc)} (h : SameMembers xs ys)
    (hys : FitsMembers depth ys) {key : String} : entry xs key = entry ys key := by
  cases h with
  | nil => rfl
  | cons k h hs => rw [entry, entry, h.tree_eq hys.1, hs.entry_eq hys.2]

end

mutual

theorem same_of_tree_eq {depth : Nat} {d d' : Doc} (hd : Fits depth d) (hd' : Fits depth d')
    (h : d.tree = d'.tree) :
    Same d d' := by
  cases d with
  | null => cases d' <;> first | exact .null | cases h
  | bool b => cases d' with
    | bool b' =>
      cases h
      exact .bool b
    | _ => cases h
  | u64 n => cases d' with
    | u64 n' => exact .number rfl (congrArg some (Tree.int.inj h).symm)
    | i64 n' => exact .number rfl (congrArg some (Tree.int.inj h).symm)
    | _ => cases h
  | i64 n => cases d' with
    | u64 n' => exact .number rfl (congrArg some (Tree.int.inj h).symm)
    | i64 n' => exact .number rfl (congrArg some (Tree.int.inj h).symm)
    | _ => cases h
  | f64 => exact hd.elim
  | string s => cases d' with
    | string s' =>
      cases h
      exact .string s
    | _ => cases h
  | seq items => cases d' with
    | seq items' => exact .seq (sameItems_of_trees_eq hd.2 hd'.2 (Tree.array.inj h))
    | _ => cases h
  | map members => cases d' with
    | map members' =>
      obtain ⟨reordered, hperm, hsame⟩ :=
        sameMembers_of_entry_eq hd.2.1 hd'.2.1 hd.2.2 hd'.2.2 (congrFun (Tree.object.inj h))
      exact .map hperm hsame
    | _ => cases h

theorem sameItems_of_trees_eq {depth : Nat} {xs ys : List Doc} (hx : FitsItems depth xs)
    (hy : FitsItems depth ys) (h : trees xs = trees ys) : SameItems xs ys := by
  cases xs with
  | nil => cases ys with
    | nil => exact .nil
    | cons y ys => cases h
  | cons x xs => cases ys with
    | nil => cases h
    | cons y ys =>
      obtain ⟨hhead, htail⟩ := List.cons.inj h
      exact .cons (same_of_tree_eq hx.1 hy.1 hhead) (sameItems_of_trees_eq hx.2 hy.2 htail)

/-- The member of the first key is moved to the front; the rest agrees without it. -/
theorem sameMembers_of_entry_eq {depth : Nat} {xs ys : List (String × Doc)}
    (hnx : (xs.map Prod.fst).Nodup) (hny : (ys.map Prod.fst).Nodup) (hx : FitsMembers depth xs)
    (hy : FitsMembers depth ys)
    (h : ∀ key, entry xs key = entry ys key) :
    ∃ reordered, ys.Perm reordered ∧ SameMembers xs reordered := by
  cases xs with
  | nil => cases ys with
    | nil => exact ⟨[], List.Perm.refl _, .nil⟩
    | cons e ys =>
      have := h e.1
      simp [entry] at this
  | cons e xs =>
    obtain ⟨k, x⟩ := e
    obtain ⟨hkx, hnx'⟩ := List.nodup_cons.mp hnx
    have hk : entry ys k = some x.tree := by rw [← h k, entry, if_pos rfl]
    obtain ⟨y, hmem, htree⟩ := mem_of_entry hk
    obtain ⟨before, after, rfl⟩ := List.append_of_mem hmem
    have hfront : (before ++ (k, y) :: after).Perm ((k, y) :: (before ++ after)) := List.perm_middle
    have hny' := (hfront.map Prod.fst).nodup_iff.mp hny
    obtain ⟨hky, hnrest⟩ := List.nodup_cons.mp hny'
    have hfits : ∀ e ∈ (k, y) :: (before ++ after), Fits depth e.2 := fun e he =>
      fitsMembers_iff.mp hy e (hfront.mem_iff.mpr he)
    have hrest : ∀ key, entry xs key = entry (before ++ after) key := by
      intro key
      by_cases hkey : key = k
      · subst hkey
        rw [entry_none hkx, entry_none hky]
      · have := h key
        rwa [entry, if_neg hkey, entry_perm hfront hny, entry, if_neg hkey] at this
    obtain ⟨reordered, hperm, hsame⟩ := sameMembers_of_entry_eq hnx' hnrest hx.2
      (fitsMembers_iff.mpr fun e he => hfits e (List.mem_cons_of_mem _ he)) hrest
    exact ⟨(k, y) :: reordered, hfront.trans (hperm.cons _),
      .cons k (same_of_tree_eq hx.1 (hfits _ List.mem_cons_self) htree.symm) hsame⟩

end

/-- Admissible documents say the same exactly when they differ in the order of members alone. -/
theorem same_iff {depth : Nat} {d d' : Doc} (hd : Fits depth d) (hd' : Fits depth d') :
    Same d d' ↔ d.tree = d'.tree :=
  ⟨fun h => h.tree_eq hd', same_of_tree_eq hd hd'⟩

end Doc

/-! ## The reader -/

theorem parse_of_json {json : Bytes → Option Doc} {bytes : Bytes} {d : Doc}
    (h : json bytes = some d) :
    parse json bytes = .ofOption .metadataInvalid (node 0 d) := by
  rw [parse, h, Option.bind_some]

theorem parse_ok_iff {json : Bytes → Option Doc} {bytes : Bytes} {d : Doc} (h : json bytes = some d)
    {v : Value} :
    parse json bytes = .ok v ↔ node 0 d = some v := by
  rw [parse_of_json h, Outcome.ofOption_eq_ok]

/-- Values of the visitor are equal exactly when the documents differ in the order of members
alone. -/
theorem node_eq_iff {d d' : Doc} {v v' : Value} (h : node 0 d = some v) (h' : node 0 d' = some v') :
    v = v' ↔ d.Same d' := by
  obtain ⟨htree, hv⟩ := node_tree h
  obtain ⟨htree', hv'⟩ := node_tree h'
  have hd : Doc.Fits 0 d := node_isSome.mp (by rw [h]; rfl)
  have hd' : Doc.Fits 0 d' := node_isSome.mp (by rw [h']; rfl)
  rw [Doc.same_iff hd hd', ← htree, ← htree']
  exact ⟨fun heq => heq ▸ rfl, Value.tree_inj hv hv'⟩

/-- The document in the JSON area of the copy at `off`. -/
def Metadata.documentOf (ext : Parsers) (f : Store) (off size : Nat) : Option Doc :=
  match untilNul ((slice f off size).drop 4096) with
  | .ok text => ext.json text
  | _ => none

theorem Metadata.headerOf_document {prim : Primitives} {ext : Parsers} {f : Store} {len off : Nat}
    {H : Header} (h : headerOf prim ext f len off = .ok H) :
    ∃ d, documentOf ext f off H.size = some d ∧ node 0 d = some H.json := by
  obtain ⟨alg, uuid, -, -, hdata⟩ := headerOf_ok h
  simp only [headerData, Outcome.bind_eq_ok] at hdata
  obtain ⟨_, -, _, -, _, -, text, htext, _, -, _, -, v, hv, hret⟩ := hdata
  have hjson : v = H.json := congrArg Header.json (Outcome.ok.inj hret)
  obtain ⟨d, hd, hnode⟩ := Option.bind_eq_some_iff.mp (Outcome.ofOption_eq_ok.mp hv)
  refine ⟨d, ?_, hnode.trans (congrArg some hjson)⟩
  rw [documentOf, htext]
  exact hd

/-- **Strict JSON accepts its grammar and loses nothing.**  An admissible
document gives a value that says what it says; any other text is invalid
metadata.  Values, and with them the JSON of two header copies, are equal
exactly when the documents differ in the order of members alone. -/
theorem parse_grammar (prim : Primitives) (ext : Parsers) :
    (∀ bytes d, ext.json bytes = some d → d.Admissible → ∃ v, parse ext.json bytes = .ok v ∧
      v.tree = d.tree) ∧
    (∀ bytes d, ext.json bytes = some d → ¬ d.Admissible →
      parse ext.json bytes = .err .metadataInvalid) ∧
    (∀ bytes, ext.json bytes = none → parse ext.json bytes = .err .metadataInvalid) ∧
    (∀ bytes bytes' d d' v v', ext.json bytes = some d → ext.json bytes' = some d' →
      parse ext.json bytes = .ok v → parse ext.json bytes' = .ok v' → (v = v' ↔ d.Same d')) ∧
    ∀ f len a b, Metadata.headerOf prim ext f len 0 = .ok a →
      Metadata.headerOf prim ext f len a.size = .ok b →
      ∃ d d', Metadata.documentOf ext f 0 a.size = some d ∧
        Metadata.documentOf ext f a.size b.size = some d' ∧
        (Metadata.copiesAgree a b = .ok () ↔ a.size = b.size ∧ a.seq = b.seq ∧ a.uuid = b.uuid ∧
          a.label = b.label ∧ a.subsystem = b.subsystem ∧ d.Same d') := by
  refine ⟨fun bytes d hd hadm => ?_, fun bytes d hd hadm => ?_, fun bytes hnone => ?_,
    fun bytes bytes' d d' v v' hd hd' hv hv' => ?_, fun f len a b ha hb => ?_⟩
  · obtain ⟨v, hv⟩ := Option.isSome_iff_exists.mp (node_isSome.mpr (Doc.admissible_iff.mp hadm))
    exact ⟨v, (parse_ok_iff hd).mpr hv, (node_tree hv).1⟩
  · have hnone : node 0 d = none := by
      rw [← Option.not_isSome_iff_eq_none, node_isSome, ← Doc.admissible_iff]
      exact hadm
    rw [parse_of_json hd, hnone]
    rfl
  · rw [parse, hnone]
    rfl
  · exact node_eq_iff ((parse_ok_iff hd).mp hv) ((parse_ok_iff hd').mp hv')
  · obtain ⟨d, hd, hnode⟩ := Metadata.headerOf_document ha
    obtain ⟨d', hd', hnode'⟩ := Metadata.headerOf_document hb
    refine ⟨d, d', hd, hd', ?_⟩
    rw [← node_eq_iff hnode hnode', Metadata.copiesAgree, Outcome.failIf_eq_ok]
    simp only [not_or, ne_eq, not_not]

end Winluks
