import Winluks.Header
import Mathlib.Data.List.Induction

/-!
# Bound keyslots

Which slots does accepted metadata have?  `Bound v k ks D` says, in terms of the
JSON alone, that keyslot `k` has the parameters `ks` and that the digest `D` is
bound to it and to the segment.  `slot_iff` is the answer: the slots are exactly
the bound pairs, each keyslot with its own parameters and its own digest.

Ids are decimal strings without leading zeros, so two members of an object never
name the same keyslot (`decimal_inj`).
-/

namespace Winluks

open Lib Outcome

namespace Metadata

/-! ## Ids -/

theorem decimalValue_snoc (cs : List Char) (c : Char) :
    decimalValue (cs ++ [c]) = decimalValue cs * 10 + (c.toNat - '0'.toNat) := by
  simp [decimalValue]

/-- A list that does not start with a zero has a positive value. -/
theorem decimalValue_pos {c : Char} {cs : List Char} (hd : c.isDigit = true) (hc : c ≠ '0') :
    0 < decimalValue (c :: cs) := by
  have grows : ∀ (cs : List Char) (n : Nat), n ≤
      cs.foldl (fun n c => n * 10 + (c.toNat - '0'.toNat)) n := by
    intro cs
    induction cs with
    | nil => intro n; exact Nat.le_refl _
    | cons c cs ih =>
      intro n
      exact Nat.le_trans (by omega) (ih (n * 10 + (c.toNat - '0'.toNat)))
  have h0 : c.toNat ≠ '0'.toNat := fun h => hc (Char.toNat_inj.mp h)
  have := (Char.isDigit_iff_toNat.mp hd).1
  exact Nat.lt_of_lt_of_le (show 0 < 0 * 10 + (c.toNat - '0'.toNat) by omega) (grows cs _)

/-- No superfluous zero in front. -/
def Canonical (cs : List Char) : Prop :=
  cs.all Char.isDigit = true ∧ (1 < cs.length → cs.head? ≠ some '0')

theorem canonical_init {cs : List Char} {c : Char} (h : Canonical (cs ++ [c])) : Canonical cs := by
  obtain ⟨h1, h2⟩ := h
  rw [List.all_append, Bool.and_eq_true] at h1
  refine ⟨h1.1, fun hlen => ?_⟩
  cases cs with
  | nil => simp at hlen
  | cons x xs => exact h2 (by simp)

theorem decimalValue_inj {cs ds : List Char} (hc : Canonical cs) (hd : Canonical ds)
    (hcne : cs ≠ []) (hdne : ds ≠ []) (h : decimalValue cs = decimalValue ds) : cs = ds := by
  induction cs using List.reverseRecOn generalizing ds with
  | nil => exact absurd rfl hcne
  | append_singleton xs c ih =>
    cases ds using List.reverseRecOn with
    | nil => exact absurd rfl hdne
    | append_singleton ys d =>
      rw [decimalValue_snoc, decimalValue_snoc] at h
      have hcd := Char.isDigit_iff_toNat.mp (List.all_eq_true.mp hc.1 c (by simp))
      have hdd := Char.isDigit_iff_toNat.mp (List.all_eq_true.mp hd.1 d (by simp))
      have hzero : '0'.toNat = 48 := rfl
      have hnine : '9'.toNat = 57 := rfl
      have hlast : c = d := Char.toNat_inj.mp (by omega)
      have hinit : decimalValue xs = decimalValue ys := by omega
      -- a longer list would have to start with a zero
      have lead : ∀ {zs : List Char} {e : Char}, Canonical (zs ++ [e]) → zs ≠ [] →
          0 < decimalValue zs := by
        intro zs e hz hne
        cases zs with
        | nil => exact absurd rfl hne
        | cons z zs =>
          refine decimalValue_pos (List.all_eq_true.mp hz.1 z (by simp)) fun he => ?_
          exact hz.2 (by simp) (by simp [he])
      subst hlast
      congr 1
      by_cases hx : xs = []
      · by_cases hy : ys = []
        · rw [hx, hy]
        · have := lead hd hy
          rw [hx] at hinit
          simp [decimalValue] at hinit this
          omega
      · by_cases hy : ys = []
        · have := lead hc hx
          rw [hy] at hinit
          simp [decimalValue] at hinit this
          omega
        · exact ih (canonical_init hc) (canonical_init hd) hx hy hinit

theorem decimal_inj {s t : String} {n : Nat} (hs : decimal s = .ok n) (ht : decimal t = .ok n) :
    s = t := by
  have canonical : ∀ {s : String}, decimal s = .ok n →
      Canonical s.toList ∧ s.toList ≠ [] ∧ decimalValue s.toList = n := by
    intro s h
    simp only [decimal, bind_eq_ok, failIf_eq_ok, not_or, not_and] at h
    obtain ⟨_, ⟨hne, hall, hlead⟩, _, _, hn⟩ := h
    injection hn with hn
    exact ⟨⟨by simpa using hall, hlead⟩, hne, hn⟩
  obtain ⟨h1, h2, h3⟩ := canonical hs
  obtain ⟨h4, h5, h6⟩ := canonical ht
  exact String.toList_inj.mp (decimalValue_inj h1 h4 h2 h5 (h3.trans h6.symm))

/-! ## Parameters -/

variable {ext : Parsers} {o : Obj} {v : Value} {k : String} {aS aE : Nat}

theorem hash_eq_some {path : List String} {s : String} {h : Hash} (hs : v.findText path = some s)
    (hp : Hash.parse s = .ok h) : v.findHash path = some h := by
  rw [Value.findHash, hs]
  exact toOption_eq_some.mpr hp

end Metadata

/-- Parameters within the limits that `derive` checks again. -/
def Kdf.Allowed : Kdf → Prop
  | .pbkdf2 _ iterations salt => 0 < iterations ∧ iterations ≤ 10000000 ∧ salt.length = 32
  | .argon2 _ memory time cpus salt => memory ≤ 1048576 ∧ time ≤ 10 ∧ cpus ≤ 8 ∧ salt.length = 32

namespace Metadata

variable {ext : Parsers} {o : Obj} {v : Value} {k : String} {aS aE : Nat}

theorem parseKdf_ok {kdf : Kdf} (h : parseKdf ext o = .ok kdf) :
    kdfOf ext (.object o) = some kdf ∧ kdf.Allowed := by
  simp only [parseKdf, bind_eq_ok, failIf_eq_ok, b64_eq_ok, text_eq_ok] at h
  obtain ⟨salt, hsalt, _, hlen, kind, hkind, h⟩ := h
  unfold kdfOf
  rw [hsalt, hkind]
  split at h
  · next hk =>
    simp only [bind_eq_ok, bounded_eq_ok, num_eq_ok, text_eq_ok] at h
    obtain ⟨_, _, name, hname, hash, hhash, n, ⟨hn, hpos, hle⟩, hret⟩ := h
    cases hret
    refine ⟨?_, hpos, hle, by omega⟩
    simp [hk, hash_eq_some hname hhash, hn]
  · next hk =>
    split at h
    · next hk' =>
      simp only [bind_eq_ok, bounded_eq_ok, num_eq_ok] at h
      obtain ⟨_, _, memory, ⟨hm, _, hmle⟩, time, ⟨ht, _, htle⟩, cpus, ⟨hc, _, hcle⟩, least, _, _,
        _, hret⟩ := h
      cases hret
      refine ⟨?_, hmle, htle, hcle, by omega⟩
      simp [hk, hk', hm, ht, hc]
    · cases h

theorem readAfKdf_ok {afHash : Hash} {kdf : Kdf} (h : readAfKdf ext o = .ok (afHash, kdf)) :
    (Value.object o).findHash ["af", "hash"] = some afHash ∧
      ((Value.object o).find ["kdf"]).bind (kdfOf ext) = some kdf ∧ kdf.Allowed := by
  simp only [readAfKdf, bind_eq_ok, get_eq_ok, object_eq_ok, text_eq_ok] at h
  obtain ⟨_, haf, af, rfl, _, _, _, _, _, _, _, _, _, _, _, hkdf, ko, rfl, kdf', hparse, name,
    hname, hash, hhash, hret⟩ := h
  cases hret
  obtain ⟨h1, h2⟩ := parseKdf_ok hparse
  refine ⟨hash_eq_some (s := name) ?_ hhash, by simp [hkdf, h1], h2⟩
  unfold Value.findText at hname ⊢
  rw [← hname]
  simp [haf]

/-- Key sizes, KDF and area of an accepted keyslot are usable as they stand. -/
structure Keyslot.Valid (p : Keyslot) : Prop where
  keySize : p.keySize = 32 ∨ p.keySize = 64
  areaKeySize : p.areaKeySize = 32 ∨ p.areaKeySize = 64
  kdf : p.kdf.Allowed

/-- One round of the loop over the keyslots, as far as the parameters go. -/
theorem readKeyslot_parsed {st st' : Keyslots} (h : readKeyslot ext aS aE st k v = .ok st') :
    ∃ n p a, decimal k = .ok n ∧ keyslotOf ext v = some p ∧ keyslotArea v = some a ∧ p.Valid ∧
      a.keySize = p.keySize ∧ a.region.start = p.start ∧ st'.parsed = insertKey n p st.parsed := by
  simp only [readKeyslot, bind_eq_ok, object_eq_ok, id_eq_ok] at h
  obtain ⟨n, ⟨hn, _⟩, o, rfl, _, _, ⟨keySize, areaKeySize, range⟩, hr, ⟨afHash, kdf⟩,
    haf, hret⟩ := h
  cases hret
  obtain ⟨ha, haks, hks, hak, -, -⟩ := readArea_ok hr
  obtain ⟨hhash, hkdf, hallowed⟩ := readAfKdf_ok haf
  refine ⟨n, ⟨keySize, areaKeySize, range.start, afHash, kdf⟩, _, hn, ?_, ha, ⟨hks, hak, hallowed⟩,
    rfl, rfl, rfl⟩
  simp only [keyslotArea, Option.bind_eq_bind, Option.bind_eq_some_iff] at ha
  obtain ⟨ks, hks', start, hstart, size, _, harea⟩ := ha
  cases harea
  simp only [keyslotOf, hks', haks, hstart, hhash, hkdf, Option.bind_eq_bind, Option.bind_some]

/-- Keyslot `n` of the object `keys` has the parameters `p`. -/
def Declares (ext : Parsers) (keys : Obj) (n : Nat) (p : Keyslot) : Prop :=
  ∃ e ∈ keys, decimal e.1 = .ok n ∧ keyslotOf ext e.2 = some p

/-- **The keyslots read are the ones declared.** -/
theorem readKeyslots_parsed {keys : Obj} (past : Obj) {st st' : Keyslots}
    (h : readKeyslots ext aS aE keys st = .ok st') (hnames : ((past ++ keys).map Prod.fst).Nodup)
    (hst : ∀ n p, st.parsed.lookup n = some p ↔ Declares ext past n p) :
    ∀ n p, st'.parsed.lookup n = some p ↔ Declares ext (past ++ keys) n p := by
  induction keys generalizing past st with
  | nil =>
    cases h
    simpa using hst
  | cons e keys ih =>
    obtain ⟨k, v⟩ := e
    rw [readKeyslots, bind_eq_ok] at h
    obtain ⟨st₁, h₁, h⟩ := h
    obtain ⟨n₁, p₁, -, hn₁, hp₁, -, -, -, -, hparsed⟩ := readKeyslot_parsed h₁
    rw [List.append_cons] at hnames ⊢
    refine ih _ h hnames fun n p => ?_
    rw [hparsed, lookup_insertKey]
    constructor
    · intro hl
      split at hl
      · next heq =>
        cases hl
        exact ⟨(k, v), by simp, heq ▸ hn₁, hp₁⟩
      · obtain ⟨e, he, hd, hk⟩ := (hst n p).mp hl
        exact ⟨e, List.mem_append_left _ he, hd, hk⟩
    · rintro ⟨e, he, hd, hk⟩
      rcases List.mem_append.mp he with he | he
      · -- an earlier member of the same id would have the same name
        have hne : n ≠ n₁ := by
          rintro rfl
          have hname : e.1 = k := decimal_inj hd hn₁
          rw [List.map_append, List.map_append, List.append_assoc] at hnames
          exact (List.nodup_append.mp hnames).2.2 e.1 (List.mem_map.mpr ⟨e, he, rfl⟩) k
            (by simp) hname
        rw [if_neg hne]
        exact (hst n p).mpr ⟨e, he, hd, hk⟩
      · obtain rfl := List.mem_singleton.mp he
        rw [hn₁] at hd
        cases hd
        rw [hp₁] at hk
        rw [if_pos rfl]
        exact hk

theorem readKeyslots_declares {keys : Obj} {st : Keyslots}
    (h : readKeyslots ext aS aE keys ⟨[], []⟩ = .ok st) (hnames : (keys.map Prod.fst).Nodup) :
    ∀ n p, st.parsed.lookup n = some p ↔ Declares ext keys n p := by
  have hempty : ∀ n p, List.lookup n [] = some p ↔ Declares ext [] n p := by
    intro n p
    constructor
    · nofun
    · rintro ⟨e, he, -⟩
      cases he
  simpa using readKeyslots_parsed [] h (by simpa using hnames) hempty

/-! ## Digests -/

theorem idsFrom_ok {max : Nat} {xs : List Value} {out res : List Nat}
    (h : idsFrom max xs out = .ok res) :
    ∃ ns, xs.mapM (fun x => x.asStr.bind fun s => (decimal s).toOption) = some ns ∧
    res = out ++ ns := by
  induction xs generalizing out with
  | nil =>
    cases h
    exact ⟨[], rfl, (List.append_nil _).symm⟩
  | cons x xs ih =>
    simp only [idsFrom, bind_eq_ok, ofOption_eq_ok, id_eq_ok] at h
    obtain ⟨s, hs, n, ⟨hn, _⟩, _, _, hrest⟩ := h
    obtain ⟨ns, hns, rfl⟩ := ih hrest
    refine ⟨n :: ns, by simp [List.mapM_cons, hs, hn, hns], ?_⟩
    rw [List.append_assoc]
    rfl

theorem ids_ok {max : Nat} {ns : List Nat} (h : ids o k max = .ok ns) :
    (Value.object o).findIds [k] = some ns := by
  simp only [ids, bind_eq_ok, get_eq_ok, ofOption_eq_ok] at h
  obtain ⟨a, ha, xs, hxs, hids⟩ := h
  obtain ⟨ms, hms, rfl⟩ := idsFrom_ok hids
  simp [Value.findIds, ha, hxs, hms]

end Metadata

/-- The PBKDF2 call that recomputes a digest. -/
def Digest.kdf (D : Digest) : Kdf := .pbkdf2 D.hash D.iterations D.salt

/-- The call is within the limits of `derive`, and as long as the stored value. -/
structure Digest.Valid (D : Digest) : Prop where
  kdf : D.kdf.Allowed
  length : D.value.length = 20 ∨ D.value.length = D.hash.size

namespace Metadata

variable {ext : Parsers} {v : Value} {segid : Nat} {parsed : List (Nat × Keyslot)}
    {slots slots' : List (Nat × Slot)}

theorem readDigest_ok {d : String} (h : readDigest ext segid parsed slots d v = .ok slots') :
    ∃ D, digestOf ext v = some D ∧ D.Valid ∧ (∀ s ∈ D.segments, s = segid) ∧
      bindKeyslots parsed D.segments D.kdf D.value D.keyslots slots = .ok slots' := by
  simp only [readDigest, bind_eq_ok, object_eq_ok, b64_eq_ok, text_eq_ok, failIf_eq_ok,
    bounded_eq_ok, num_eq_ok] at h
  obtain ⟨_, _, o, rfl, _, _, _, _, _, _, value, hvalue, salt, hsalt, name, hname, hash, hhash, _,
    hlens, iterations, ⟨hit, hpos, hle⟩, ds, hds, _, hseg, ks, hks, hbind⟩ := h
  refine ⟨⟨hash, iterations, salt, value, ks, ds⟩, ?_,
    ⟨⟨hpos, hle, by show salt.length = 32; omega⟩, by
    show value.length = 20 ∨ value.length = hash.size; omega⟩, ?_, hbind⟩
  · simp only [digestOf, hash_eq_some hname hhash, hit, hsalt, hvalue, ids_ok hks, ids_ok hds,
      Option.bind_eq_bind, Option.bind_some]
  · intro s hs
    exact Decidable.byContradiction fun hne => hseg ⟨s, hs, hne⟩

/-- A digest without segments binds nothing. -/
theorem bindKeyslots_nil {kdf : Kdf} {digest : Bytes} {ks : List Nat}
    (h : bindKeyslots parsed [] kdf digest ks slots = .ok slots') : slots' = slots := by
  induction ks with
  | nil =>
    cases h
    rfl
  | cons k ks ih =>
    simp only [bindKeyslots, bind_eq_ok, ofOption_eq_ok, if_true] at h
    obtain ⟨_, _, h⟩ := h
    exact ih h

/-- A digest of the segment binds each of its keyslots, none of which was bound before. -/
theorem bindKeyslots_lookup {ds : List Nat} (hds : ds ≠ []) {kdf : Kdf} {digest : Bytes}
    {ks : List Nat} (h : bindKeyslots parsed ds kdf digest ks slots = .ok slots') :
    (∀ k ∈ ks, slots.lookup k = none ∧ (parsed.lookup k).isSome) ∧
    ∀ k, slots'.lookup k =
      if k ∈ ks then (parsed.lookup k).map fun p => p.bind kdf digest else slots.lookup k := by
  induction ks generalizing slots with
  | nil =>
    cases h
    exact ⟨nofun, fun k => (if_neg (List.not_mem_nil)).symm⟩
  | cons k₁ ks ih =>
    simp only [bindKeyslots, bind_eq_ok, ofOption_eq_ok, if_neg hds, failIf_eq_ok] at h
    obtain ⟨p₁, hp₁, _, hnone, h⟩ := h
    have hnone : slots.lookup k₁ = none := Option.not_isSome_iff_eq_none.mp hnone
    obtain ⟨ih₁, ih₂⟩ := ih h
    have hk₁ : k₁ ∉ ks := by
      intro hk
      have := (ih₁ k₁ hk).1
      rw [lookup_insertKey_self] at this
      cases this
    constructor
    · intro k hk
      rcases List.mem_cons.mp hk with rfl | hk
      · exact ⟨hnone, by rw [hp₁]; rfl⟩
      · obtain ⟨h1, h2⟩ := ih₁ k hk
        have hne : k ≠ k₁ := fun he => hk₁ (he ▸ hk)
        rw [lookup_insertKey_of_ne hne] at h1
        exact ⟨h1, h2⟩
    · intro k
      rw [ih₂ k]
      by_cases hk : k = k₁
      · subst hk
        rw [if_neg hk₁, lookup_insertKey_self, if_pos List.mem_cons_self, hp₁]
        rfl
      · rw [lookup_insertKey_of_ne hk]
        simp [hk]

/-- The digest `D` of the object `digests` is bound to keyslot `k` and to the segment `segid`. -/
def BindsKeyslot (ext : Parsers) (segid : Nat) (digests : Obj) (k : Nat) (D : Digest) : Prop :=
  ∃ e ∈ digests, digestOf ext e.2 = some D ∧ D.Valid ∧ k ∈ D.keyslots ∧ segid ∈ D.segments

theorem bindsKeyslot_snoc {past : Obj} {d : String} {k : Nat} {D : Digest} :
    BindsKeyslot ext segid (past ++ [(d, v)]) k D ↔ BindsKeyslot ext segid past k D ∨
      (digestOf ext v = some D ∧ D.Valid ∧ k ∈ D.keyslots ∧ segid ∈ D.segments) := by
  constructor
  · rintro ⟨e, he, h⟩
    rcases List.mem_append.mp he with he | he
    · exact Or.inl ⟨e, he, h⟩
    · obtain rfl := List.mem_singleton.mp he
      exact Or.inr h
  · rintro (⟨e, he, h⟩ | h)
    · exact ⟨e, List.mem_append_left _ he, h⟩
    · exact ⟨(d, v), by simp, h⟩

/-- A digest that does not bind `k` to the segment changes nothing for it. -/
theorem bindsKeyslot_snoc_of_not {past : Obj} {d : String} {k : Nat} {D : Digest}
    (h : ∀ D, digestOf ext v = some D → k ∈ D.keyslots → segid ∉ D.segments) :
    BindsKeyslot ext segid (past ++ [(d, v)]) k D ↔ BindsKeyslot ext segid past k D := by
  rw [bindsKeyslot_snoc]
  constructor
  · rintro (hb | ⟨hD, -, hk, hs⟩)
    · exact hb
    · exact absurd hs (h D hD hk)
  · exact Or.inl

/-- One round of the loop over the digests. -/
theorem readDigest_lookup {past : Obj} {d : String}
    (h : readDigest ext segid parsed slots d v = .ok slots') {k : Nat} {s : Slot}
    (hslots : ∀ s, slots.lookup k = some s ↔
      ∃ p D, parsed.lookup k = some p ∧ BindsKeyslot ext segid past k D ∧
      s = p.bind D.kdf D.value) :
    slots'.lookup k = some s ↔
      ∃ p D, parsed.lookup k = some p ∧ BindsKeyslot ext segid (past ++ [(d, v)]) k D ∧
      s = p.bind D.kdf D.value := by
  obtain ⟨D, hD, hvalid, hseg, hbind⟩ := readDigest_ok h
  by_cases hds : D.segments = []
  · -- a digest of no segment changes nothing
    have hnot : ∀ D', digestOf ext v = some D' → k ∈ D'.keyslots → segid ∉ D'.segments := by
      intro D' hD' _
      cases hD.symm.trans hD'
      rw [hds]
      exact List.not_mem_nil
    rw [hds] at hbind
    rw [bindKeyslots_nil hbind, hslots s]
    simp only [bindsKeyslot_snoc_of_not hnot]
  · have hsegid : segid ∈ D.segments := by
      obtain ⟨s, hs⟩ := List.exists_mem_of_ne_nil _ hds
      exact hseg s hs ▸ hs
    obtain ⟨hfresh, hlookup⟩ := bindKeyslots_lookup hds hbind
    rw [hlookup k]
    by_cases hk : k ∈ D.keyslots
    · rw [if_pos hk]
      obtain ⟨hnone, hsome⟩ := hfresh k hk
      obtain ⟨p, hp⟩ := Option.isSome_iff_exists.mp hsome
      rw [hp, Option.map_some]
      constructor
      · intro hs
        cases hs
        exact ⟨p, D, rfl, bindsKeyslot_snoc.mpr (Or.inr ⟨hD, hvalid, hk, hsegid⟩), rfl⟩
      · rintro ⟨p', D', hp', hb, rfl⟩
        cases hp'
        rcases bindsKeyslot_snoc.mp hb with hb | ⟨hD', -⟩
        · -- bound before: then its slot would be there
          have hold := (hslots _).mpr ⟨p, D', hp, hb, rfl⟩
          rw [hnone] at hold
          cases hold
        · rw [hD] at hD'
          cases hD'
          rfl
    · have hnot : ∀ D', digestOf ext v = some D' → k ∈ D'.keyslots → segid ∉ D'.segments := by
        intro D' hD' hk'
        cases hD.symm.trans hD'
        exact absurd hk' hk
      rw [if_neg hk, hslots s]
      simp only [bindsKeyslot_snoc_of_not hnot]

/-- **The slots made are the bound pairs.** -/
theorem readDigests_lookup {digests : Obj} (past : Obj)
    (h : readDigests ext segid parsed digests slots = .ok slots')
    (hslots : ∀ k s, slots.lookup k = some s ↔
      ∃ p D, parsed.lookup k = some p ∧ BindsKeyslot ext segid past k D ∧
      s = p.bind D.kdf D.value) :
    ∀ k s, slots'.lookup k = some s ↔
      ∃ p D, parsed.lookup k = some p ∧ BindsKeyslot ext segid (past ++ digests) k D ∧
      s = p.bind D.kdf D.value := by
  induction digests generalizing past slots with
  | nil =>
    cases h
    simpa using hslots
  | cons e digests ih =>
    obtain ⟨d, v⟩ := e
    rw [readDigests, bind_eq_ok] at h
    obtain ⟨slots₁, h₁, h⟩ := h
    rw [List.append_cons]
    exact ih _ h fun k s => readDigest_lookup h₁ (hslots k)

/-! ## The slots of an image -/

/-- What the JSON `v` says about keyslot `k`: its parameters, and the digest bound to it and the
segment. -/
def Bound (ext : Parsers) (v : Value) (k : Nat) (p : Keyslot) (D : Digest) : Prop :=
  ∃ keys digests name seg segid, v.findObject ["keyslots"] = some keys ∧
    v.findObject ["digests"] = some digests ∧
    v.findObject ["segments"] = some [(name, seg)] ∧ decimal name = .ok segid ∧
    Declares ext keys k p ∧ BindsKeyslot ext segid digests k D

theorem distinct_findObject {k : String} {o : Obj} (hv : v.Distinct)
    (h : v.findObject [k] = some o) :
    (o.map Prod.fst).Nodup := by
  cases v with
  | object m =>
    simp only [Value.findObject, Value.find_cons, Value.asObject_object, Option.bind_some,
      Value.find_nil] at h
    obtain ⟨w, hw, ho⟩ := Option.bind_eq_some_iff.mp h
    rw [Option.bind_eq_some_iff] at hw
    obtain ⟨w', hw', he⟩ := hw
    cases he
    have hd := Value.distinctMembers_lookup hv.2 hw'
    rw [Value.asObject_eq_some.mp ho] at hd
    exact hd.1
  | _ => cases h

/-- A declared keyslot was read, so it is valid and its area is among the declared ones. -/
theorem readKeyslots_valid {keys : Obj} {st st' : Keyslots} {aS aE : Nat}
    (h : readKeyslots ext aS aE keys st = .ok st') {e : String × Value} (he : e ∈ keys) :
    ∃ p a, keyslotOf ext e.2 = some p ∧ p.Valid ∧ keyslotArea e.2 = some a ∧ a.keySize = p.keySize ∧
      a.region.start = p.start := by
  induction keys generalizing st with
  | nil => cases he
  | cons e₁ keys ih =>
    obtain ⟨k, v⟩ := e₁
    rw [readKeyslots, bind_eq_ok] at h
    obtain ⟨st₁, h₁, h⟩ := h
    rcases List.mem_cons.mp he with rfl | he
    · obtain ⟨n, p, a, -, hp, ha, hvalid, hks, hstart, -⟩ := readKeyslot_parsed h₁
      exact ⟨p, a, hp, hvalid, ha, hks, hstart⟩
    · exact ih h he

theorem mem_of_mapM {α β : Type} {f : α → Option β} {l : List α} {ys : List β}
    (h : l.mapM f = some ys) {x : α} {y : β} (hx : x ∈ l) (hy : f x = some y) : y ∈ ys := by
  induction l generalizing ys with
  | nil => cases hx
  | cons a l ih =>
    simp only [List.mapM_cons, Option.bind_eq_bind, Option.bind_eq_some_iff] at h
    obtain ⟨b, hb, bs, hbs, hret⟩ := h
    cases hret
    rcases List.mem_cons.mp hx with rfl | hx
    · rw [hy] at hb
      cases hb
      exact List.mem_cons_self
    · exact List.mem_cons_of_mem _ (ih hbs hx)

/-- A bound keyslot and its digest can be used, and its area is one of the layout. -/
theorem bound_valid {h imageLen k : Nat} {m : Metadata} {p : Keyslot} {D : Digest}
    (hm : fromJson ext v h imageLen = .ok m) (hb : Bound ext v k p D) :
    p.Valid ∧ D.Valid ∧ ∃ areas a, keyslotAreas v = some areas ∧ a ∈ areas ∧ a.keySize = p.keySize ∧
      a.region.start = p.start := by
  obtain ⟨root, aS, aE, segid, keys, st, digests, rfl, -, -, hkeys, hst, -, -⟩ := fromJson_ok hm
  obtain ⟨keys', digests', name, seg, segid', hk, -, -, -, ⟨e, he, -, hp⟩, ⟨_, -, -, hD, -⟩⟩ := hb
  rw [hkeys] at hk
  cases hk
  obtain ⟨p', a, hp', hvalid, ha, hks, hstart⟩ := readKeyslots_valid hst he
  rw [hp] at hp'
  cases hp'
  obtain ⟨size, areas, -, hareas, -⟩ := layout_of_fromJson hm
  refine ⟨hvalid, hD, areas, a, hareas, ?_, hks, hstart⟩
  simp only [keyslotAreas, hkeys, Option.bind_eq_bind, Option.bind_some] at hareas
  exact mem_of_mapM hareas he ha

/-- **The slots of accepted metadata** are exactly the bound keyslots of its JSON. -/
theorem slot_iff {h imageLen : Nat} {m : Metadata} (hv : v.Distinct)
    (hm : fromJson ext v h imageLen = .ok m) (k : Nat) (s : Slot) :
    m.slot k = .ok s ↔ ∃ p D, Bound ext v k p D ∧ s = p.bind D.kdf D.value := by
  obtain ⟨root, aS, aE, segid, keys, st, digests, rfl, -, hsegment, hkeys, hst, hdigests, hslots⟩ :=
    fromJson_ok hm
  obtain ⟨name, seg, hsegs, hname, -⟩ := readSegment_ok hsegment
  have hparsed := readKeyslots_declares hst (distinct_findObject hv hkeys)
  have hlookup := readDigests_lookup [] hslots (by
    intro k s
    constructor
    · nofun
    · rintro ⟨p, D, -, ⟨e, he, -⟩, -⟩
      cases he) k s
  rw [List.nil_append] at hlookup
  unfold slot
  rw [ofOption_eq_ok, hlookup]
  constructor
  · rintro ⟨p, D, hp, hb, rfl⟩
    exact ⟨p, D, ⟨keys, digests, name, .object seg, segid, hkeys, hdigests, hsegs, hname,
      (hparsed k p).mp hp, hb⟩, rfl⟩
  · rintro ⟨p, D, ⟨keys', digests', name', seg', segid', hk, hd, hs, hn, hp, hb⟩, rfl⟩
    rw [hkeys] at hk
    rw [hdigests] at hd
    rw [hsegs] at hs
    cases hk
    cases hd
    cases hs
    rw [hname] at hn
    cases hn
    exact ⟨p, D, (hparsed k p).mpr hp, hb, rfl⟩

end Metadata

end Winluks
