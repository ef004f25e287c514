import Winluks.Lib.Run
import Winluks.Lib.Store
import Winluks.Lib.SortedMap
import Winluks.Error

/-!
# Strict JSON

`strict_json.rs` over the tree that serde_json's tokenizer delivers (`Doc`):
object members in text order, keys decoded, numbers as `u64`, `i64` or
something else.  The visitor rejects duplicate keys, non-integers and values
under more than 32 arrays and objects; what it builds is a `Value`, whose
objects list their members in key order.
-/

namespace Winluks

open Lib

inductive Number where
  | posInt (n : UInt64)
  | negInt (n : Int64)
  | float (bits : UInt64)
deriving DecidableEq, Repr

/-- `Number::from` of an `i64` -/
def Number.ofInt64 (n : Int64) : Number := if n < 0 then .negInt n else .posInt n.toUInt64

inductive Value where
  | null
  | bool (b : Bool)
  | number (n : Number)
  | string (s : String)
  | array (items : List Value)
  | object (members : List (String × Value))
deriving Repr

abbrev Obj := List (String × Value)

namespace Value

mutual

def decEq : (a b : Value) → Decidable (a = b)
  | .null, .null => isTrue rfl
  | .bool a, .bool b => decidable_of_iff (a = b) (by simp)
  | .number a, .number b => decidable_of_iff (a = b) (by simp)
  | .string a, .string b => decidable_of_iff (a = b) (by simp)
  | .array a, .array b =>
    match decEqItems a b with
    | isTrue h => isTrue (by rw [h])
    | isFalse h => isFalse (by simpa using h)
  | .object a, .object b =>
    match decEqMembers a b with
    | isTrue h => isTrue (by rw [h])
    | isFalse h => isFalse (by simpa using h)
  | .null, .bool _ | .null, .number _ | .null, .string _ | .null, .array _ | .null, .object _ =>
    isFalse nofun
  | .bool _, .null | .bool _, .number _ | .bool _, .string _ | .bool _, .array _
  | .bool _, .object _ =>
    isFalse nofun
  | .number _, .null | .number _, .bool _ | .number _, .string _ | .number _, .array _
  | .number _, .object _ => isFalse nofun
  | .string _, .null | .string _, .bool _ | .string _, .number _ | .string _, .array _
  | .string _, .object _ => isFalse nofun
  | .array _, .null | .array _, .bool _ | .array _, .number _ | .array _, .string _
  | .array _, .object _ => isFalse nofun
  | .object _, .null | .object _, .bool _ | .object _, .number _ | .object _, .string _
  | .object _, .array _ => isFalse nofun

def decEqItems : (a b : List Value) → Decidable (a = b)
  | [], [] => isTrue rfl
  | [], _ :: _ => isFalse nofun
  | _ :: _, [] => isFalse nofun
  | x :: xs, y :: ys =>
    match decEq x y, decEqItems xs ys with
    | isTrue h, isTrue h' => isTrue (by rw [h, h'])
    | isFalse h, _ => isFalse fun e => h (List.cons.inj e).1
    | _, isFalse h => isFalse fun e => h (List.cons.inj e).2

def decEqMembers : (a b : List (String × Value)) → Decidable (a = b)
  | [], [] => isTrue rfl
  | [], _ :: _ => isFalse nofun
  | _ :: _, [] => isFalse nofun
  | (k, x) :: xs, (l, y) :: ys =>
    match instDecidableEqString k l, decEq x y, decEqMembers xs ys with
    | isTrue hk, isTrue h, isTrue h' => isTrue (by rw [hk, h, h'])
    | isFalse h, _, _ => isFalse fun e => h (Prod.mk.inj (List.cons.inj e).1).1
    | _, isFalse h, _ => isFalse fun e => h (Prod.mk.inj (List.cons.inj e).1).2
    | _, _, isFalse h => isFalse fun e => h (List.cons.inj e).2

end

instance : DecidableEq Value := Value.decEq

end Value

/-- A document as the tokenizer delivers it. -/
inductive Doc where
  | null
  | bool (b : Bool)
  | u64 (n : UInt64)
  | i64 (n : Int64)
  | f64
  | string (s : String)
  | seq (items : List Doc)
  | map (members : List (String × Doc))

mutual

/-- `Node(depth)` applied to a document; `none` is any of the visitor's errors. -/
def node (depth : Nat) (doc : Doc) : Option Value :=
  if 32 < depth then none
  else match doc with
    | .null => some .null
    | .bool b => some (.bool b)
    | .u64 n => some (.number (.posInt n))
    | .i64 n => some (.number (.ofInt64 n))
    | .f64 => none
    | .string s => some (.string s)
    | .seq items => (visitSeq depth items).map .array
    | .map members => (visitMap depth members []).map .object

def visitSeq (depth : Nat) : List Doc → Option (List Value)
  | [] => some []
  | x :: rest => do
    let v ← node (depth + 1) x
    let vs ← visitSeq depth rest
    some (v :: vs)

/-- `m` holds the members read so far. -/
def visitMap (depth : Nat) : List (String × Doc) → (m : Obj) → Option Obj
  | [], m => some m
  | (k, x) :: rest, m =>
    if (m.lookup k).isSome then none
    else do
      let v ← node (depth + 1) x
      visitMap depth rest (insertKey k v m)

end

/-! ## Distinct names -/

namespace Value

mutual

/-- No object of the value has two members of one name. -/
def Distinct : Value → Prop
  | .array items => DistinctItems items
  | .object members => (members.map Prod.fst).Nodup ∧ DistinctMembers members
  | _ => True

def DistinctItems : List Value → Prop
  | [] => True
  | v :: rest => Distinct v ∧ DistinctItems rest

def DistinctMembers : List (String × Value) → Prop
  | [] => True
  | (_, v) :: rest => Distinct v ∧ DistinctMembers rest

end

mutual

def decidableDistinct : (v : Value) → Decidable v.Distinct
  | .array items => decidableDistinctItems items
  | .object members => @instDecidableAnd _ _ inferInstance (decidableDistinctMembers members)
  | .null | .bool _ | .number _ | .string _ => isTrue trivial

def decidableDistinctItems : (items : List Value) → Decidable (DistinctItems items)
  | [] => isTrue trivial
  | v :: rest => @instDecidableAnd _ _ (decidableDistinct v) (decidableDistinctItems rest)

def decidableDistinctMembers :
    (members : List (String × Value)) → Decidable (DistinctMembers members)
  | [] => isTrue trivial
  | (_, v) :: rest => @instDecidableAnd _ _ (decidableDistinct v) (decidableDistinctMembers rest)

end

instance (v : Value) : Decidable v.Distinct := decidableDistinct v

theorem distinctMembers_lookup {m : Obj} (h : DistinctMembers m) {k : String} {v : Value}
    (hv : m.lookup k = some v) : v.Distinct := by
  induction m with
  | nil => cases hv
  | cons e m ih =>
    obtain ⟨k', v'⟩ := e
    rw [List.lookup_cons] at hv
    split at hv
    · cases hv
      exact h.1
    · exact ih h.2 hv

theorem distinctMembers_insertKey {m : Obj} (h : DistinctMembers m) {v : Value} (hv : v.Distinct)
    (k : String) :
    DistinctMembers (insertKey k v m) := by
  induction m with
  | nil => exact ⟨hv, trivial⟩
  | cons e m ih =>
    obtain ⟨k', v'⟩ := e
    unfold insertKey
    split
    · exact ⟨hv, h.2⟩
    · split
      · exact ⟨hv, h⟩
      · exact ⟨h.1, ih h.2⟩

end Value

mutual

/-- **What the visitor builds has distinct names.** -/
theorem node_distinct {depth : Nat} {doc : Doc} {v : Value} (h : node depth doc = some v) :
    v.Distinct := by
  unfold node at h
  split at h
  · cases h
  · cases doc with
    | seq items =>
      obtain ⟨vs, hvs, rfl⟩ := Option.map_eq_some_iff.mp h
      exact visitSeq_distinct hvs
    | map members =>
      obtain ⟨m, hm, rfl⟩ := Option.map_eq_some_iff.mp h
      exact visitMap_distinct hm List.nodup_nil trivial
    | f64 => cases h
    | _ =>
      cases h
      trivial

theorem visitSeq_distinct {depth : Nat} {items : List Doc} {vs : List Value}
    (h : visitSeq depth items = some vs) : Value.DistinctItems vs := by
  cases items with
  | nil =>
    cases h
    trivial
  | cons x rest =>
    simp only [visitSeq, Option.bind_eq_bind, Option.bind_eq_some_iff] at h
    obtain ⟨v, hv, vs', hvs, hret⟩ := h
    cases hret
    exact ⟨node_distinct hv, visitSeq_distinct hvs⟩

theorem visitMap_distinct {depth : Nat} {members : List (String × Doc)} {m m' : Obj}
    (h : visitMap depth members m = some m') (hn : (m.map Prod.fst).Nodup)
    (hd : Value.DistinctMembers m) :
    (m'.map Prod.fst).Nodup ∧ Value.DistinctMembers m' := by
  cases members with
  | nil =>
    cases h
    exact ⟨hn, hd⟩
  | cons e rest =>
    obtain ⟨k, x⟩ := e
    unfold visitMap at h
    split at h
    · cases h
    · next hnone =>
      simp only [Option.bind_eq_bind, Option.bind_eq_some_iff] at h
      obtain ⟨v, hv, hrest⟩ := h
      have hk : m.lookup k = none := Option.not_isSome_iff_eq_none.mp hnone
      exact visitMap_distinct hrest (nodup_insertKey hn hk)
        (Value.distinctMembers_insertKey hd (node_distinct hv) k)

end

/-- The UTF-8 bytes of a text. -/
def textBytes (s : String) : Bytes := s.toByteArray.data.toList

/-- `json` is the tokenizer, from the first byte to the end of the text. -/
def parse (json : Bytes → Option Doc) (bytes : Bytes) : Outcome Error Value :=
  .ofOption .metadataInvalid ((json bytes).bind (node 0))

theorem parse_distinct {json : Bytes → Option Doc} {bytes : Bytes} {v : Value}
    (h : parse json bytes = .ok v) :
    v.Distinct := by
  obtain ⟨doc, -, hv⟩ := Option.bind_eq_some_iff.mp (Outcome.ofOption_eq_ok.mp h)
  exact node_distinct hv

end Winluks
