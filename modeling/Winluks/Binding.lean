import Mathlib.Data.List.Nodup
import Mathlib.Data.List.Pairwise
import Winluks.Edits
import Winluks.Unlock

/-!
# Keyslots and digests

The JSON relates three maps: a digest names the keyslots whose keys it recognizes
and the segment that they open.  `fromJson_binding` is the relation in both
directions.  Accepted metadata offers exactly the keyslots that one digest binds
to the segment, each with the parameters of that digest.  And a JSON whose only
faults are in the two lists of its digests is refused as invalid when it names
what is not there, repeats itself, or binds a keyslot twice.
-/

namespace Winluks

open Lib Outcome

namespace Metadata

variable {ext : Parsers} {v : Value} {o : Obj} {k : String} {segid hdr imageLen aS aE : Nat}
  {parsed : List (Nat × Keyslot)} {slots slots' : List (Nat × Slot)}

/-- The digest member `e` is bound to keyslot `n` and to nothing but the segment. -/
def BoundBy (ext : Parsers) (segid n : Nat) (e : String × Value) : Prop :=
  ∃ D, digestOf ext e.2 = some D ∧ n ∈ D.keyslots ∧ D.segments = [segid]

/-! ## The two lists of a digest -/

theorem idsFrom_nodup {max : Nat} {xs : List Value} {out res : List Nat}
    (h : idsFrom max xs out = .ok res) (hout : out.Nodup) : res.Nodup := by
  induction xs generalizing out with
  | nil =>
    cases h
    exact hout
  | cons x xs ih =>
    simp only [idsFrom, bind_eq_ok, failIf_eq_ok] at h
    obtain ⟨s, -, n, -, _, hn, hrest⟩ := h
    exact ih hrest (List.nodup_append.mpr ⟨hout, List.nodup_singleton n, fun a ha b hb => by
      rintro rfl
      exact hn (List.mem_singleton.mp hb ▸ ha)⟩)

/-- An accepted list of ids has no repetition. -/
theorem ids_nodup {max : Nat} {ns : List Nat} (h : ids o k max = .ok ns) : ns.Nodup := by
  simp only [ids, bind_eq_ok] at h
  obtain ⟨a, -, xs, -, h⟩ := h
  exact idsFrom_nodup h List.nodup_nil

/-- Distinct ids that are all the segment are none or the segment alone. -/
theorem segments_eq {ds : List Nat} (hn : ds.Nodup) (hall : ∀ s ∈ ds, s = segid) :
    ds = [] ∨ ds = [segid] := by
  match ds, hn, hall with
  | [], _, _ => exact Or.inl rfl
  | [s], _, hall => exact Or.inr (by rw [hall s List.mem_cons_self])
  | s :: t :: rest, hn, hall =>
    have hs := hall s List.mem_cons_self
    have ht := hall t (List.mem_cons_of_mem _ List.mem_cons_self)
    rw [hs, ht] at hn
    exact absurd List.mem_cons_self (List.nodup_cons.mp hn).1

/-- A digest names only keyslots that were read, whether or not it binds them. -/
theorem bindKeyslots_exist {ds : List Nat} {kdf : Kdf} {digest : Bytes} {ks : List Nat}
    (h : bindKeyslots parsed ds kdf digest ks slots = .ok slots') :
    ∀ n ∈ ks, (parsed.lookup n).isSome := by
  induction ks generalizing slots with
  | nil => exact nofun
  | cons n ks ih =>
    simp only [bindKeyslots, bind_eq_ok, ofOption_eq_ok] at h
    obtain ⟨p, hp, h⟩ := h
    have hrest : ∀ n' ∈ ks, (parsed.lookup n').isSome := by
      split at h
      · exact ih h
      · obtain ⟨_, _, h⟩ := bind_eq_ok.mp h
        exact ih h
    intro n' hn'
    rcases List.mem_cons.mp hn' with rfl | hn'
    · rw [hp]
      rfl
    · exact hrest n' hn'

/-- What an accepted digest says. -/
structure ReadsDigest (ext : Parsers) (segid : Nat) (parsed : List (Nat × Keyslot)) (v : Value)
    (D : Digest) : Prop where
  reads : digestOf ext v = some D
  valid : D.Valid
  segments : D.segments = [] ∨ D.segments = [segid]
  keyslots : D.keyslots.Nodup
  exist : ∀ n ∈ D.keyslots, (parsed.lookup n).isSome

theorem readDigest_reads {d : String} (h : readDigest ext segid parsed slots d v = .ok slots') :
    ∃ D, ReadsDigest ext segid parsed v D ∧
      bindKeyslots parsed D.segments D.kdf D.value D.keyslots slots = .ok slots' := by
  obtain ⟨D, hD, hvalid, hseg, hbind⟩ := readDigest_ok h
  refine ⟨D, ⟨hD, hvalid, ?_, ?_, bindKeyslots_exist hbind⟩, hbind⟩
  all_goals
    simp only [readDigest, bind_eq_ok, object_eq_ok] at h
    obtain ⟨_, -, o, rfl, _, -, _, -, _, -, _, -, _, -, _, -, _, -, _, -, _, -, ds, hds, _, -, ks,
      hks, -⟩ := h
    simp only [digestOf, ids_ok hks, ids_ok hds, Option.bind_eq_bind, Option.bind_eq_some_iff,
      Option.bind_some] at hD
    obtain ⟨_, -, _, -, _, -, _, -, hret⟩ := hD
    cases hret
  · exact segments_eq (ids_nodup hds) hseg
  · exact ids_nodup hks

/-! ## The loop over the digests -/

/-- Every digest is read, a keyslot that one of them binds was free before, and no two bind the
same. -/
theorem readDigests_reads {digests : Obj}
    (h : readDigests ext segid parsed digests slots = .ok slots') :
    (∀ e ∈ digests, ∃ D, ReadsDigest ext segid parsed e.2 D) ∧
    (∀ e ∈ digests, ∀ n, BoundBy ext segid n e → slots.lookup n = none) ∧
    digests.Pairwise fun e e' => ∀ n, ¬ (BoundBy ext segid n e ∧ BoundBy ext segid n e') := by
  induction digests generalizing slots with
  | nil => exact ⟨by simp, by simp, List.Pairwise.nil⟩
  | cons e digests ih =>
    obtain ⟨d, v⟩ := e
    rw [readDigests, bind_eq_ok] at h
    obtain ⟨slots₁, h₁, h⟩ := h
    obtain ⟨D, hD, hbind⟩ := readDigest_reads h₁
    obtain ⟨ihread, ihfree, ihpair⟩ := ih h
    -- what the first digest binds was free, and is taken from then on
    have hfirst : ∀ n, BoundBy ext segid n (d, v) → slots.lookup n = none ∧
        slots₁.lookup n ≠ none := by
      rintro n ⟨D', hD', hn, hseg⟩
      obtain rfl := Option.some.inj (hD.reads.symm.trans hD')
      obtain ⟨hfree, hlook⟩ := bindKeyslots_lookup (by rw [hseg]; exact List.cons_ne_nil _ _) hbind
      obtain ⟨hnone, hsome⟩ := hfree n hn
      obtain ⟨p, hp⟩ := Option.isSome_iff_exists.mp hsome
      refine ⟨hnone, ?_⟩
      rw [hlook n, if_pos hn, hp]
      exact Option.some_ne_none _
    -- what is free after it was free before it
    have hkeep : ∀ n, slots₁.lookup n = none → slots.lookup n = none := by
      intro n hn
      rcases hD.segments with hseg | hseg
      · rw [hseg] at hbind
        rwa [bindKeyslots_nil hbind] at hn
      · obtain ⟨hfree, hlook⟩ := bindKeyslots_lookup
          (by rw [hseg]; exact List.cons_ne_nil _ _) hbind
        by_cases hmem : n ∈ D.keyslots
        · exact (hfree n hmem).1
        · rwa [hlook n, if_neg hmem] at hn
    refine ⟨?_, ?_, List.pairwise_cons.mpr ⟨fun e' he' n hboth => ?_, ihpair⟩⟩
    · intro e' he'
      rcases List.mem_cons.mp he' with rfl | he'
      · exact ⟨D, hD⟩
      · exact ihread e' he'
    · intro e' he' n hb
      rcases List.mem_cons.mp he' with rfl | he'
      · exact (hfirst n hb).1
      · exact hkeep n (ihfree e' he' n hb)
    · exact (hfirst n hboth.1).2 (ihfree e' he' n hboth.2)

theorem boundBy_unique {digests : Obj}
    (h : digests.Pairwise fun e e' => ∀ n, ¬ (BoundBy ext segid n e ∧ BoundBy ext segid n e'))
    {n : Nat}
    {e e' : String × Value} (he : e ∈ digests) (he' : e' ∈ digests) (hb : BoundBy ext segid n e)
    (hb' : BoundBy ext segid n e') : e = e' := by
  by_contra hne
  have : Std.Symm fun e e' => ∀ n, ¬ (BoundBy ext segid n e ∧ BoundBy ext segid n e') :=
    ⟨fun _ _ h n hn => h n hn.symm⟩
  exact h.forall he he' hne n ⟨hb, hb'⟩

/-! ## What accepted metadata offers -/

/-- The maps of a JSON: its keyslots, its digests, and the id of its only segment. -/
structure Maps (v : Value) (keys digests : Obj) (segid : Nat) : Prop where
  keyslots : v.findObject ["keyslots"] = some keys
  digests : v.findObject ["digests"] = some digests
  segment : ∃ name seg, v.findObject ["segments"] = some [(name, seg)] ∧ decimal name = .ok segid

section
variable {keys keys' digests digests' : Obj} {segid' : Nat}

theorem Maps.keyslots_unique (h : Maps v keys digests segid) (h' : Maps v keys' digests' segid') :
    keys = keys' :=
  Option.some.inj (h.keyslots.symm.trans h'.keyslots)

theorem Maps.digests_unique (h : Maps v keys digests segid) (h' : Maps v keys' digests' segid') :
    digests = digests' :=
  Option.some.inj (h.digests.symm.trans h'.digests)

theorem Maps.segment_unique (h : Maps v keys digests segid) (h' : Maps v keys' digests' segid') :
    segid = segid' := by
  obtain ⟨name, seg, hseg, hname⟩ := h.segment
  obtain ⟨name', seg', hseg', hname'⟩ := h'.segment
  cases hseg.symm.trans hseg'
  cases hname.symm.trans hname'
  rfl

end

/-- What accepted metadata says about its digests and its slots. -/
theorem fromJson_bound (hv : v.Distinct) {m : Metadata} (hm : fromJson ext v hdr imageLen = .ok m) :
    ∃ keys digests segid, Maps v keys digests segid ∧
      (∀ e ∈ digests, ∃ D, digestOf ext e.2 = some D ∧ (∀ s ∈ D.segments, s = segid) ∧
        D.segments.Nodup ∧ D.keyslots.Nodup ∧ ∀ n ∈ D.keyslots, ∃ p, Declares ext keys n p) ∧
      digests.Pairwise (fun e e' => ∀ n, ¬ (BoundBy ext segid n e ∧ BoundBy ext segid n e')) ∧
      (∀ n, n ∈ m.keyslots ↔ ∃ e ∈ digests, BoundBy ext segid n e) ∧
      ∀ e ∈ digests, ∀ D n p, digestOf ext e.2 = some D → n ∈ D.keyslots → D.segments = [segid] →
        Declares ext keys n p → m.slot n = .ok (p.bind D.kdf D.value) := by
  have hslot := fun k s => slot_iff hv hm k s
  obtain ⟨root, aS, aE, segid, keys, st, digests, rfl, -, hsegment, hkeys, hst, hdigests, hslots⟩ :=
    fromJson_ok hm
  obtain ⟨name, seg, hsegs, hname, -⟩ := readSegment_ok hsegment
  have hparsed := readKeyslots_declares hst (distinct_findObject hv hkeys)
  obtain ⟨hreads, -, hpair⟩ := readDigests_reads hslots
  have hbound : ∀ e ∈ digests, ∀ D n p, digestOf ext e.2 = some D → n ∈ D.keyslots →
      D.segments = [segid] → Declares ext keys n p → m.slot n = .ok (p.bind D.kdf D.value) := by
    intro e he D n p hD hn hseg hp
    obtain ⟨D', hD'⟩ := hreads e he
    obtain rfl := Option.some.inj (hD'.reads.symm.trans hD)
    exact (hslot n _).mpr ⟨p, D', ⟨keys, digests, name, .object seg, segid, hkeys, hdigests,
      hsegs, hname, hp,
      e, he, hD, hD'.valid, hn, by rw [hseg]; exact List.mem_singleton_self segid⟩, rfl⟩
  have hdeclared : ∀ e ∈ digests, ∀ D, ReadsDigest ext segid st.parsed e.2 D →
      ∀ n ∈ D.keyslots, ∃ p, Declares ext keys n p := by
    intro e _ D hD n hn
    obtain ⟨p, hp⟩ := Option.isSome_iff_exists.mp (hD.exist n hn)
    exact ⟨p, (hparsed n p).mp hp⟩
  refine ⟨keys, digests, segid, ⟨hkeys, hdigests, name, _, hsegs, hname⟩, fun e he => ?_, hpair,
    fun n => ?_, hbound⟩
  · obtain ⟨D, hD⟩ := hreads e he
    refine ⟨D, hD.reads, ?_, ?_, hD.keyslots, hdeclared e he D hD⟩
    · rcases hD.segments with hseg | hseg <;> rw [hseg]
      · exact nofun
      · exact fun s hs => List.mem_singleton.mp hs
    · rcases hD.segments with hseg | hseg <;> rw [hseg]
      · exact List.nodup_nil
      · exact List.nodup_singleton _
  · rw [mem_keyslots_iff]
    constructor
    · rintro ⟨s, hs⟩
      obtain ⟨p, D, ⟨keys', digests', name', seg', segid', -, hd, hsegs', hname', -, e, he, hD, -,
        hn, hseg⟩, -⟩ :=
        (hslot n s).mp hs
      cases hdigests.symm.trans hd
      cases hsegs.symm.trans hsegs'
      cases hname.symm.trans hname'
      obtain ⟨D', hD'⟩ := hreads e he
      obtain rfl := Option.some.inj (hD'.reads.symm.trans hD)
      rcases hD'.segments with hnil | hone
      · rw [hnil] at hseg
        cases hseg
      · exact ⟨e, he, D', hD, hn, hone⟩
    · rintro ⟨e, he, D, hD, hn, hseg⟩
      obtain ⟨D', hD'⟩ := hreads e he
      obtain rfl := Option.some.inj (hD'.reads.symm.trans hD)
      obtain ⟨p, hp⟩ := hdeclared e he D' hD' n hn
      exact ⟨_, hbound e he D' n p hD hn hseg hp⟩

/-! ## The lists of a digest, and nothing else -/

end Metadata

namespace Value

/-- The ids in a list of a digest. -/
def named (k : String) (v : Value) : List Nat :=
  (((v.asObject.bind fun o => o.lookup k).bind asArray).getD []).filterMap fun x =>
    x.asStr.bind fun s => (Metadata.decimal s).toOption

/-- A digest with both of its lists emptied. -/
def unbindDigest : Value → Value
  | .object o => .object (modifyKey "segments" (fun _ => .array [])
      (modifyKey "keyslots" (fun _ => .array []) o))
  | v => v

/-- The JSON with the lists of all its digests emptied. -/
def unbind (v : Value) : Value :=
  v.edit ["digests"] fun ds => ds.map fun e => (e.1, unbindDigest e.2)

theorem unbindDigest_object {v : Value} {o' : Obj}
    (h : unbindDigest v = unbindDigest (.object o')) :
    ∃ o, v = .object o ∧ o.map Prod.fst = o'.map Prod.fst ∧
      Metadata.Agree ["type", "hash", "iterations", "salt", "digest"] o' o := by
  cases v with
  | object o =>
    simp only [unbindDigest, Value.object.injEq] at h
    refine ⟨o, rfl, by simpa using congrArg (List.map Prod.fst) h, fun k hk => ?_⟩
    have hl := congrArg (List.lookup k) h
    rwa [lookup_modifyKey_of_ne (ne_of_mem_of_not_mem hk (by decide)),
      lookup_modifyKey_of_ne (ne_of_mem_of_not_mem hk (by decide)),
      lookup_modifyKey_of_ne (ne_of_mem_of_not_mem hk (by decide)),
      lookup_modifyKey_of_ne (ne_of_mem_of_not_mem hk (by decide))] at hl
  | _ => cases h

/-- Two JSONs that differ in the lists only. -/
theorem unbind_object {v : Value} {root' digests' : Obj}
    (h : v.unbind = (Value.object root').unbind)
    (hd : root'.lookup "digests" = some (.object digests')) :
    ∃ root digests, v = .object root ∧ root.map Prod.fst = root'.map Prod.fst ∧
      (∀ k, k ≠ "digests" → root.lookup k = root'.lookup k) ∧
      root.lookup "digests" = some (.object digests) ∧
      (digests.map fun e => (e.1, unbindDigest e.2)) =
      digests'.map fun e => (e.1, unbindDigest e.2) := by
  cases v with
  | object root =>
    simp only [unbind, edit_cons, Value.object.injEq] at h
    have hl := congrArg (List.lookup "digests") h
    rw [lookup_modifyKey, lookup_modifyKey, if_pos rfl, if_pos rfl, hd, Option.map_some, edit_nil,
      Option.map_eq_some_iff] at hl
    obtain ⟨w, hw, he⟩ := hl
    cases w with
    | object digests =>
      refine ⟨root, digests, rfl, by simpa using congrArg (List.map Prod.fst) h, fun k hk => ?_, hw,
        Value.object.inj he⟩
      have hl := congrArg (List.lookup k) h
      rwa [lookup_modifyKey_of_ne hk, lookup_modifyKey_of_ne hk] at hl
    | _ => cases he
  | _ => cases h

end Value

namespace Metadata

variable {ext : Parsers} {v : Value} {o : Obj} {k : String} {segid hdr imageLen : Nat}
  {parsed : List (Nat × Keyslot)} {slots slots' : List (Nat × Slot)}

/-- A fault in the lists of the digests. -/
inductive Misbound (keys digests : Obj) (segid : Nat) : Prop
  | keyslot {e : String × Value} {n : Nat} : e ∈ digests → n ∈ e.2.named "keyslots" →
      (∀ key ∈ keys, decimal key.1 ≠ .ok n) → Misbound keys digests segid
  | segment {e : String × Value} {s : Nat} : e ∈ digests → s ∈ e.2.named "segments" → s ≠ segid →
      Misbound keys digests segid
  | repeated {e : String × Value} {k : String} :
    e ∈ digests → k ∈ ["keyslots", "segments"] → ¬ (e.2.named k).Nodup → Misbound keys digests segid
  | shared {e e' : String × Value} {n : Nat} :
    e ∈ digests → e' ∈ digests → e ≠ e' → e.2.named "segments" = [segid] →
      e'.2.named "segments" = [segid] → n ∈ e.2.named "keyslots" → n ∈ e'.2.named "keyslots" →
      Misbound keys digests segid

theorem filterMap_of_mapM {α β : Type} {f : α → Option β} {l : List α} {ys : List β}
    (h : l.mapM f = some ys) :
    l.filterMap f = ys := by
  induction l generalizing ys with
  | nil =>
    cases h
    rfl
  | cons a l ih =>
    simp only [List.mapM_cons, Option.bind_eq_bind, Option.bind_eq_some_iff] at h
    obtain ⟨b, hb, bs, hbs, hret⟩ := h
    cases hret
    rw [List.filterMap_cons_some hb, ih hbs]

theorem named_of_findIds {ns : List Nat} (h : v.findIds [k] = some ns) : v.named k = ns := by
  simp only [Value.findIds, Value.find_cons, Value.find_nil, Option.bind_eq_bind,
    Option.bind_eq_some_iff] at h
  obtain ⟨a, ⟨o, ho, a', ha, hret⟩, xs, hxs, hms⟩ := h
  cases hret
  simp only [Value.named, ho, Option.bind_some, ha, hxs, Option.getD_some]
  exact filterMap_of_mapM hms

theorem named_of_digestOf {D : Digest} (h : digestOf ext v = some D) :
    v.named "keyslots" = D.keyslots ∧ v.named "segments" = D.segments := by
  cases v with
  | object o =>
    simp only [digestOf, Option.bind_eq_bind, Option.bind_eq_some_iff] at h
    obtain ⟨_, -, _, -, _, -, _, -, ks, hks, ds, hds, hret⟩ := h
    cases hret
    exact ⟨named_of_findIds hks, named_of_findIds hds⟩
  | _ => cases h

/-! ## A fault in the lists is invalid metadata -/

/-- A digest that is read with some lists can only fail for its lists. -/
theorem invalid_readDigest {d : String} {w w' : Value} (hw : w.unbindDigest = w'.unbindDigest)
    (h : readDigest ext segid parsed slots d w' = .ok slots') (slots₁ : List (Nat × Slot)) :
    (readDigest ext segid parsed slots₁ d w).ErrsIn Invalid := by
  obtain ⟨o', rfl⟩ : ∃ o', w' = .object o' := by
    simp only [readDigest, bind_eq_ok, object_eq_ok] at h
    obtain ⟨_, -, o', rfl, -⟩ := h
    exact ⟨o', rfl⟩
  obtain ⟨o, rfl, hn, ha⟩ := Value.unbindDigest_object hw
  simp only [readDigest_front, bind_eq_ok] at h
  obtain ⟨n, hid, ⟨kdf, digest⟩, hfront, -⟩ := h
  simp only [readDigest_front, hid, digestFront_congr hn ha, hfront, ok_bind]
  exact errs_bind.mpr ⟨invalid_ids _ _ _, fun ds _ =>
    errs_bind.mpr ⟨errs_failIf .invalid _, fun _ _ =>
    errs_bind.mpr ⟨invalid_ids _ _ _, fun ks _ => invalid_bindKeyslots _ _ _ _ _ _⟩⟩⟩

theorem invalid_readDigests {digests digests' : Obj}
    (hd : (digests.map fun e => (e.1, e.2.unbindDigest)) =
      digests'.map fun e => (e.1, e.2.unbindDigest))
    (h : readDigests ext segid parsed digests' slots = .ok slots') (slots₁ : List (Nat × Slot)) :
    (readDigests ext segid parsed digests slots₁).ErrsIn Invalid := by
  induction digests generalizing digests' slots slots₁ with
  | nil => trivial
  | cons e digests ih =>
    match digests', hd with
    | e' :: digests', hd =>
      obtain ⟨d, w⟩ := e
      obtain ⟨d', w'⟩ := e'
      simp only [List.map_cons, List.cons.injEq, Prod.mk.injEq] at hd
      obtain ⟨⟨rfl, hw⟩, hd⟩ := hd
      rw [readDigests, bind_eq_ok] at h
      obtain ⟨slots₂, h₂, h⟩ := h
      exact errs_bind.mpr ⟨invalid_readDigest hw h₂ _, fun slots₃ _ => ih hd h slots₃⟩

/-- A JSON that would be accepted with other lists is accepted or invalid. -/
theorem invalid_unbind {v' : Value} {m' : Metadata} (hu : v.unbind = v'.unbind)
    (hm : fromJson ext v' hdr imageLen = .ok m') :
    (fromJson ext v hdr imageLen).ErrsIn Invalid := by
  obtain ⟨root', aS, aE, segid, parsed, digests', rfl, hs, hk, hdigests', hlen, hread⟩ :=
    fromJson_parts hm
  obtain ⟨root, digests, rfl, hn, ha, hdigests, hmap⟩ := Value.unbind_object hu hdigests'
  have hlen : digests.length ≤ 32 := by
    have := congrArg List.length hmap
    simp only [List.length_map] at this
    omega
  rw [fromJson_digests (hs.congr hn fun k hk => ha k (ne_of_mem_of_not_mem hk (by decide)))
    (hk.congr fun k hk => ha k (ne_of_mem_of_not_mem hk (by decide))) hdigests hlen]
  exact errs_bind.mpr ⟨invalid_readDigests hmap hread [], fun _ _ => trivial⟩

/-! ## Both directions -/

/-- What the metadata of a JSON offers, seen from its maps. -/
structure Offers (ext : Parsers) (keys digests : Obj) (segid : Nat) (m : Metadata) : Prop where
  exist : ∀ e ∈ digests, ∀ n ∈ e.2.named "keyslots", ∃ p, Declares ext keys n p
  offered : ∀ n, n ∈ m.keyslots ↔ ∃ e ∈ digests, BoundBy ext segid n e
  unique : ∀ n, ∀ e ∈ digests, ∀ e' ∈ digests, BoundBy ext segid n e →
    BoundBy ext segid n e' → e = e'
  slot : ∀ e ∈ digests, ∀ D n p, digestOf ext e.2 = some D → n ∈ D.keyslots → D.segments = [segid] →
    Declares ext keys n p → m.slot n = .ok (p.bind D.kdf D.value)

theorem fromJson_offers (hv : v.Distinct) {m : Metadata}
    (hm : fromJson ext v hdr imageLen = .ok m) :
    ∃ keys digests segid, Maps v keys digests segid ∧ Offers ext keys digests segid m := by
  obtain ⟨keys, digests, segid, hmaps, hread, hpair, hoffered, hslot⟩ := fromJson_bound hv hm
  refine ⟨keys, digests, segid, hmaps,
    ⟨fun e he n hn => ?_, hoffered, fun n e he e' he' => boundBy_unique hpair he he',
    hslot⟩⟩
  obtain ⟨D, hD, -, -, -, hexist⟩ := hread e he
  rw [(named_of_digestOf hD).1] at hn
  exact hexist n hn

/-- Accepted metadata has no fault in its lists. -/
theorem not_misbound (hv : v.Distinct) {m : Metadata} (hm : fromJson ext v hdr imageLen = .ok m)
    {keys digests : Obj} (hmaps : Maps v keys digests segid) : ¬ Misbound keys digests segid := by
  obtain ⟨keys', digests', segid', hmaps', hread, hpair, -, -⟩ := fromJson_bound hv hm
  obtain rfl := hmaps.keyslots_unique hmaps'
  obtain rfl := hmaps.digests_unique hmaps'
  obtain rfl := hmaps.segment_unique hmaps'
  intro hbad
  cases hbad with
  | @keyslot e n he hn hkeys =>
    obtain ⟨D, hD, -, -, -, hexist⟩ := hread e he
    obtain ⟨p, key, hkey, hdec, -⟩ := hexist n ((named_of_digestOf hD).1 ▸ hn)
    exact hkeys key hkey hdec
  | @segment e s he hs hne =>
    obtain ⟨D, hD, hseg, -⟩ := hread e he
    exact hne (hseg s ((named_of_digestOf hD).2 ▸ hs))
  | @repeated e k he hk hrep =>
    obtain ⟨D, hD, -, hds, hks, -⟩ := hread e he
    obtain ⟨hk1, hk2⟩ := named_of_digestOf hD
    rcases List.mem_pair.mp hk with rfl | rfl
    · exact hrep (hk1 ▸ hks)
    · exact hrep (hk2 ▸ hds)
  | @shared e e' n he he' hne hs hs' hn hn' =>
    have hbound : ∀ e ∈ digests, e.2.named "segments" = [segid] → n ∈ e.2.named "keyslots" →
        BoundBy ext segid n e := by
      intro e he hs hn
      obtain ⟨D, hD, -⟩ := hread e he
      obtain ⟨hk1, hk2⟩ := named_of_digestOf hD
      exact ⟨D, hD, hk1 ▸ hn, hk2 ▸ hs⟩
    exact hne (boundBy_unique hpair he he' (hbound e he hs hn) (hbound e' he' hs' hn'))

/-- **The binding is exact**: accepted metadata offers what its digests bind, and a JSON that would
be accepted with other lists in its digests is invalid when a list of its own is at fault. -/
theorem fromJson_binding (hv : v.Distinct) :
    (∀ m, fromJson ext v hdr imageLen = .ok m →
      ∃ keys digests segid, Maps v keys digests segid ∧ Offers ext keys digests segid m) ∧
    ∀ v' m' keys digests segid, v.unbind = v'.unbind → fromJson ext v' hdr imageLen = .ok m' →
      Maps v keys digests segid → Misbound keys digests segid →
      fromJson ext v hdr imageLen = .err .metadataInvalid := by
  refine ⟨fun m hm => fromJson_offers hv hm, fun v' m' keys digests segid hu hm' hmaps hbad => ?_⟩
  have herrs := invalid_unbind hu hm'
  cases hm : fromJson ext v hdr imageLen with
  | ok m => exact absurd hbad (not_misbound hv hm hmaps)
  | err e =>
    cases herrs.err hm
    rfl
  | _ =>
    rw [hm] at herrs
    exact herrs.elim

/-- The JSON of the sample with a digest that names another keyslot. -/
def misnamed : Value :=
  Sample.json.edit ["digests", "0"] (insertKey "keyslots" (.array [.string "7"]))

theorem fromJson_binding_sample :
    (∃ keys digests segid, Maps Sample.json keys digests segid ∧
      Offers Sample.parsers keys digests segid Sample.metadata) ∧
    fromJson Sample.parsers misnamed 16384 Sample.imageLen = .err .metadataInvalid := by
  obtain ⟨hoffers, -⟩ := @fromJson_binding Sample.parsers Sample.json 16384 Sample.imageLen
    (by decide +kernel)
  obtain ⟨-, hinvalid⟩ := @fromJson_binding Sample.parsers misnamed 16384 Sample.imageLen
    (by decide +kernel)
  have hmaps : Maps misnamed ((misnamed.findObject ["keyslots"]).getD [])
      ((misnamed.findObject ["digests"]).getD []) 0 :=
    ⟨by decide +kernel, by decide +kernel, "0",
      (misnamed.find ["segments", "0"]).getD .null, by decide +kernel,
      by decide +kernel⟩
  refine ⟨hoffers _ Sample.fromJson_json,
    hinvalid Sample.json _ _ _ _ (by decide +kernel) Sample.fromJson_json hmaps ?_⟩
  exact @Misbound.keyslot _ _ _ ("0", (misnamed.find ["digests", "0"]).getD .null) 7
    (by decide +kernel) (by decide +kernel) (by decide +kernel)

end Metadata

end Winluks
