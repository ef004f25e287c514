import Winluks.Edits
import Winluks.Layout

/-!
# No unknown field is ignored

Every object of the metadata JSON that says how to work on the volume has a list
of names, and a volume with any other name in one of them is not opened
(`unknown_field`).  The same holds for a re-encryption that is under way: each of
its three marks is reported for what it is (`reencryption_marked`).

Both are about any accepted JSON and what becomes of its verdict after one edit.
-/

namespace Winluks

open Lib Outcome

namespace Value

theorem findObject_nil {v : Value} {o : Obj} : v.findObject [] = some o ↔ v = .object o := by
  simp [findObject, asObject_eq_some]

theorem findObject_cons {v : Value} {k : String} {path : List String} {x : Obj} :
    v.findObject (k :: path) = some x ↔ ∃ o w, v = .object o ∧ o.lookup k = some w ∧
    w.findObject path = some x := by
  unfold findObject
  rw [find_cons]
  constructor
  · intro h
    obtain ⟨y, hy, hx⟩ := Option.bind_eq_some_iff.mp h
    obtain ⟨o, ho, hy⟩ := Option.bind_eq_some_iff.mp hy
    obtain ⟨w, hw, hy⟩ := Option.bind_eq_some_iff.mp hy
    exact ⟨o, w, asObject_eq_some.mp ho, hw, by rw [hy]; exact hx⟩
  · rintro ⟨o, w, rfl, hw, hx⟩
    rw [asObject_object, Option.bind_some, hw, Option.bind_some]
    exact hx

/-- An object inside a member of a map. -/
theorem findObject_member {root : Obj} {k name : String} {path : List String} {o : Obj}
    (h : (Value.object root).findObject (k :: name :: path) = some o) : ∃ members w,
      root.lookup k = some (.object members) ∧ members.lookup name = some w ∧
      w.findObject path = some o := by
  obtain ⟨_, _, hroot, hk, h⟩ := findObject_cons.mp h
  cases hroot
  obtain ⟨members, w, rfl, hw, h⟩ := findObject_cons.mp h
  exact ⟨members, w, hk, hw, h⟩

theorem findText_member {o : Obj} {k : String} {w : Value} (hk : o.lookup k = some w)
    (path : List String) :
    (Value.object o).findText (k :: path) = w.findText path := by
  rw [findText, find_cons, asObject_object, Option.bind_some, hk, Option.bind_some, findText]

end Value

namespace Metadata

/-- The operational objects of a JSON, by their paths, and the names that each may have. -/
inductive Operational (v : Value) : (path allowed : List String) → Prop where
  | root : Operational v [] ["keyslots", "tokens", "segments", "digests", "config"]
  | config : Operational v ["config"] ["json_size", "keyslots_size", "flags", "requirements"]
  | requirements : Operational v ["config", "requirements"] ["mandatory"]
  | segment (name : String) : Operational v ["segments", name]
      ["type", "offset", "size", "iv_tweak", "encryption", "sector_size", "flags"]
  | keyslot (name : String) : Operational v ["keyslots", name] ["type", "key_size", "area", "kdf",
    "af", "priority"]
  | area (name : String) : Operational v ["keyslots", name, "area"] ["type", "offset", "size",
    "encryption", "key_size"]
  | af (name : String) : Operational v ["keyslots", name, "af"] ["type", "stripes", "hash"]
  | pbkdf2 (name : String) (kind : v.findText ["keyslots", name, "kdf", "type"] = some "pbkdf2") :
      Operational v ["keyslots", name, "kdf"] ["type", "hash", "iterations", "salt"]
  | argon2 (name : String) (kind : v.findText ["keyslots", name, "kdf", "type"] = some "argon2i" ∨
        v.findText ["keyslots", name, "kdf", "type"] = some "argon2id") :
      Operational v ["keyslots", name, "kdf"] ["type", "time", "memory", "cpus", "salt"]
  | digest (name : String) : Operational v ["digests", name]
      ["type", "keyslots", "segments", "hash", "iterations", "salt", "digest"]

variable {ext : Parsers} {root root' o o' seg : Obj} {v w : Value} {key name : String}
    {hdr imageLen aS aE : Nat}

/-! ## The config section -/

theorem readConfig_parts {r : Nat × Nat} (h : readConfig root hdr = .ok r) :
    ∃ c, root.lookup "config" = some (.object c) ∧
      only c ["json_size", "keyslots_size", "flags", "requirements"] = .ok () ∧
      (∃ n, dec c "json_size" = .ok n ∧ (trapSub hdr 4096 : Outcome Error Nat) = .ok n) ∧
      noFlags c = .ok () ∧ checkRequirements c = .ok () := by
  simp only [readConfig, bind_eq_ok, get_eq_ok, object_eq_ok, failIf_eq_ok, Decidable.not_not] at h
  obtain ⟨_, hc, c, rfl, _, honly, n, hn, _, hroom, _, rfl, _, hflags, _, hreq, -⟩ := h
  exact ⟨c, hc, honly, ⟨n, hn, hroom⟩, hflags, hreq⟩

/-- The config section ends at its requirements. -/
theorem readConfig_requirements_err {c : Obj} (hc : root.lookup "config" = some (.object c))
    (honly : only c ["json_size", "keyslots_size", "flags", "requirements"] = .ok ()) {n : Nat}
    (hn : dec c "json_size" = .ok n) (hroom : (trapSub hdr 4096 : Outcome Error Nat) = .ok n)
    (hflags : noFlags c = .ok ()) {e : Error} (he : checkRequirements c = .err e) :
    readConfig root hdr = .err e := by
  simp only [readConfig, get, hc, ofOption_some, ok_bind, object, Value.asObject_object, honly, hn,
    hroom, ne_eq, not_true, failIf_neg, not_false_eq_true, hflags, he, err_bind]

theorem noFlags_congr (h : o'.lookup "flags" = o.lookup "flags") : noFlags o' = noFlags o := by
  simp only [noFlags, h]

/-! ## The segments section -/

/-- The only segment of an accepted JSON. -/
theorem readSegment_parts {segid offset length : Nat}
    (h : readSegment root aE imageLen = .ok (segid, offset, length)) :
    ∃ name seg, root.lookup "segments" = some (.object [(name, .object seg)]) ∧
      id name 31 = .ok segid ∧ checkReencryptFlags seg = .ok () ∧ checkSegment seg = .ok () := by
  simp only [readSegment, bind_eq_ok, get_eq_ok, object_eq_ok, failIf_eq_ok, ofOption_eq_ok] at h
  obtain ⟨_, hseg, segs, rfl, _, hflags, _, hone, ⟨name, _⟩, hhead, n, hname, seg, rfl, _, hcheck,
    ⟨off, len⟩, -, hret⟩ := h
  cases hret
  obtain ⟨e, rfl⟩ := List.length_eq_one_iff.mp (Decidable.not_not.mp hone)
  cases hhead
  simp only [checkSegmentFlags, bind_eq_ok, object_eq_ok] at hflags
  obtain ⟨_, he, _, hflags, -⟩ := hflags
  cases he
  exact ⟨name, seg, hseg, hname, hflags, hcheck⟩

/-- A mark in the flags of the segment comes before everything else about it. -/
theorem readSegment_flags_err (hs : root.lookup "segments" = some (.object [(name, .object seg)]))
    {e : Error} (he : checkReencryptFlags seg = .err e) :
    readSegment root aE imageLen = .err e := by
  simp only [readSegment, get, hs, ofOption_some, ok_bind, object, Value.asObject_object,
    checkSegmentFlags, he, err_bind]

theorem readSegment_check_err (hs : root.lookup "segments" = some (.object [(name, .object seg)]))
    {segid : Nat} (hid : id name 31 = .ok segid) (hflags : checkReencryptFlags seg = .ok ())
    {e : Error}
    (he : checkSegment seg = .err e) : readSegment root aE imageLen = .err e := by
  simp only [readSegment, get, hs, ofOption_some, ok_bind, object, Value.asObject_object,
    checkSegmentFlags, hflags, List.length_cons, List.length_nil, Nat.zero_add, ne_eq, not_true,
    failIf_neg, not_false_eq_true, List.head?_cons, hid,
    he, err_bind]

/-! ## A keyslot -/

/-- What an accepted keyslot has passed. -/
theorem readKeyslot_parts {st st' : Keyslots}
    (h : readKeyslot ext aS aE st name (.object o) = .ok st') :
    ∃ n area af, id name 31 = .ok n ∧ checkKeyslotType o = .ok () ∧
      readArea aS aE st.ranges o = .ok area ∧ readAfKdf ext o = .ok af := by
  simp only [readKeyslot, bind_eq_ok, object_eq_ok] at h
  obtain ⟨n, hn, _, ho, _, htype, area, harea, af, haf, -⟩ := h
  cases ho
  exact ⟨n, area, af, hn, htype, harea, haf⟩

section
variable {st : Keyslots} {n : Nat} {e : Error}

theorem readKeyslot_type_err (hn : id name 31 = .ok n) (he : checkKeyslotType o = .err e) :
    readKeyslot ext aS aE st name (.object o) = .err e := by
  simp only [readKeyslot, hn, ok_bind, object, Value.asObject_object, ofOption_some, he, err_bind]

theorem readKeyslot_area_err (hn : id name 31 = .ok n) (htype : checkKeyslotType o = .ok ())
    (he : readArea aS aE st.ranges o = .err e) :
    readKeyslot ext aS aE st name (.object o) = .err e := by
  simp only [readKeyslot, hn, ok_bind, object, Value.asObject_object, ofOption_some, htype,
    he, err_bind]

theorem readKeyslot_af_err (hn : id name 31 = .ok n) (htype : checkKeyslotType o = .ok ())
    {area : Nat × Nat × Region Nat} (harea : readArea aS aE st.ranges o = .ok area)
    (he : readAfKdf ext o = .err e) :
    readKeyslot ext aS aE st name (.object o) = .err e := by
  simp only [readKeyslot, hn, ok_bind, object, Value.asObject_object, ofOption_some, htype, harea,
    he, err_bind]

end

/-- The type of a keyslot is looked at before its names. -/
theorem checkKeyslotType_insertKey (h : checkKeyslotType o = .ok ())
    (hk : key ∉ ["type", "key_size", "area", "kdf", "af", "priority"]) :
    checkKeyslotType (insertKey key w o) = .err .unsupportedProfile := by
  have ha : Agree ["type", "key_size", "area", "kdf", "af", "priority"] o (insertKey key w o) :=
    agree_insertKey hk w
  simp only [checkKeyslotType, bind_eq_ok, failIf_eq_ok] at h
  obtain ⟨kind, hkind, _, hnot, -⟩ := h
  simp (disch := decide) only [checkKeyslotType, text_agree ha, hkind, ok_bind, failIf_neg hnot,
    only_insertKey hk, err_bind]

theorem readArea_insertKey {ranges : List (Region Nat)} {r : Nat × Nat × Region Nat} {area : Obj}
    (h : readArea aS aE ranges o = .ok r) (harea : o.lookup "area" = some (.object area))
    (hk : key ∉ ["type", "offset", "size", "encryption", "key_size"]) :
    readArea aS aE ranges (modifyKey "area" (Value.edit [] (insertKey key w)) o) =
    .err .unsupportedProfile := by
  have ha : Agree ["key_size"] o (modifyKey "area" (Value.edit [] (insertKey key w)) o) :=
    agree_modifyKey (by decide) _
  simp only [readArea, bind_eq_ok] at h
  obtain ⟨n, hn, -⟩ := h
  simp (disch := decide) only [readArea, num_agree ha, hn, ok_bind, get,
    lookup_modifyKey_self harea, ofOption_some, object, Value.edit_nil, Value.asObject_object,
    only_insertKey hk, err_bind]

/-- What comes in front of the KDF. -/
theorem readAfKdf_parts {r : Hash × Kdf} (h : readAfKdf ext o = .ok r) :
    ∃ af ko kdf, o.lookup "af" = some (.object af) ∧ only af ["type", "stripes", "hash"] = .ok () ∧
      text af "type" = .ok "luks1" ∧ num af "stripes" = .ok 4000 ∧
      o.lookup "kdf" = some (.object ko) ∧ parseKdf ext ko = .ok kdf := by
  simp only [readAfKdf, bind_eq_ok, get_eq_ok, object_eq_ok, failIf_eq_ok, Decidable.not_not] at h
  obtain ⟨_, haf, af, rfl, _, honly, _, htype, _, rfl, _, hstripes, _, rfl, _, hko, ko, rfl, kdf,
    hkdf, -⟩ := h
  exact ⟨af, ko, kdf, haf, honly, htype, hstripes, hko, hkdf⟩

theorem readAfKdf_insertKey_af {af : Obj} (haf : o.lookup "af" = some (.object af))
    (hk : key ∉ ["type", "stripes", "hash"]) :
    readAfKdf ext (modifyKey "af" (Value.edit [] (insertKey key w)) o) =
    .err .unsupportedProfile := by
  simp only [readAfKdf, get, lookup_modifyKey_self haf, ofOption_some, ok_bind, object,
    Value.edit_nil, Value.asObject_object, only_insertKey hk, err_bind]

theorem readAfKdf_kdf_err {r : Hash × Kdf} (h : readAfKdf ext o = .ok r)
    {f : Value → Value} {ko : Obj} (hko : (modifyKey "kdf" f o).lookup "kdf" = some (.object ko))
    {e : Error} (he : parseKdf ext ko = .err e) :
    readAfKdf ext (modifyKey "kdf" f o) = .err e := by
  obtain ⟨af, -, -, haf, honly, htype, hstripes, -, -⟩ := readAfKdf_parts h
  have haf' : (modifyKey "kdf" f o).lookup "af" = some (.object af) :=
    (lookup_modifyKey_of_ne (by decide)).trans haf
  simp only [readAfKdf, get, haf', ofOption_some, ok_bind, object, Value.asObject_object, honly,
    htype, ne_eq, not_true, failIf_neg, not_false_eq_true, hstripes, hko, he, err_bind]

/-- The allowlist of a KDF is that of its own type. -/
theorem parseKdf_insertKey {kdf : Kdf} {ko : Obj} (h : parseKdf ext ko = .ok kdf)
    {allowed : List String} (hkind : text ko "type" = .ok "pbkdf2" ∧
      allowed = ["type", "hash", "iterations", "salt"] ∨
      (text ko "type" = .ok "argon2i" ∨ text ko "type" = .ok "argon2id") ∧
        allowed = ["type", "time", "memory", "cpus", "salt"]) (hk : key ∉ allowed) :
    parseKdf ext (insertKey key w ko) = .err .unsupportedProfile := by
  have hmem : "type" ∈ allowed ∧ "salt" ∈ allowed := by
    rcases hkind with ⟨-, rfl⟩ | ⟨-, rfl⟩ <;> decide
  have ha : Agree allowed ko (insertKey key w ko) := agree_insertKey hk w
  have htype := @text_agree ko (insertKey key w ko) "type" allowed ha hmem.1
  have hsalt := @b64_agree ext ko (insertKey key w ko) "salt" allowed ha hmem.2
  simp only [parseKdf, bind_eq_ok, failIf_eq_ok] at h
  obtain ⟨salt, hs, _, hlen, -⟩ := h
  rcases hkind with ⟨hkind, rfl⟩ | ⟨hkind | hkind, rfl⟩ <;>
    simp only [parseKdf, hsalt, hs, ok_bind, failIf_neg hlen, htype, hkind, only_insertKey hk,
      err_bind, if_true, String.reduceEq, if_false, or_true, true_or]

/-! ## One edit of an accepted JSON -/

section
variable {m : Metadata} {f : Obj → Obj} {path : List String} {e : Error}

/-- An edit inside a keyslot that the loop reports. -/
theorem fromJson_edit_keyslot (hm : fromJson ext (.object root) hdr imageLen = .ok m)
    (ho : ∃ keys, root.lookup "keyslots" = some (.object keys) ∧ keys.lookup name = some w)
    (hf : ∀ aS aE st st', readKeyslot ext aS aE st name w = .ok st' →
      readKeyslot ext aS aE st name (w.edit path f) = .err e) :
    fromJson ext ((Value.object root).edit ("keyslots" :: name :: path) f) hdr imageLen =
    .err e := by
  obtain ⟨_, aS, aE, segid, parsed, digests, hroot, hs, ⟨⟨keys, st, hkeys, hkn, hst, -⟩, -⟩, -⟩ :=
    fromJson_parts hm
  cases hroot
  obtain ⟨keys', hkeys', hw⟩ := ho
  obtain rfl := Value.object.inj (Option.some.inj (hkeys.symm.trans hkeys'))
  exact fromJson_keyslots_err (hs.congr modifyKey_keys (agree_modifyKey (by decide) _))
    (lookup_modifyKey_self hkeys) (by rw [modifyKey_length]; exact hkn)
    (readKeyslots_edit hst hw fun st st' h => hf aS aE st st' h)

/-- An edit inside a digest that the loop reports. -/
theorem fromJson_edit_digest (hm : fromJson ext (.object root) hdr imageLen = .ok m)
    (ho : ∃ digests, root.lookup "digests" = some (.object digests) ∧ digests.lookup name = some w)
    (hf : ∀ segid parsed slots slots', readDigest ext segid parsed slots name w = .ok slots' →
      readDigest ext segid parsed slots name (w.edit path f) = .err e) :
    fromJson ext ((Value.object root).edit ("digests" :: name :: path) f) hdr imageLen =
    .err e := by
  obtain ⟨_, aS, aE, segid, parsed, digests, hroot, hs, hks, hds, hdn, hslots⟩ := fromJson_parts hm
  cases hroot
  obtain ⟨digests', hds', hw⟩ := ho
  obtain rfl := Value.object.inj (Option.some.inj (hds.symm.trans hds'))
  rw [Value.edit_cons, fromJson_digests (hs.congr modifyKey_keys (agree_modifyKey (by decide) _))
    (hks.congr (agree_modifyKey (by decide) _)) (lookup_modifyKey_self hds)
    (by rw [modifyKey_length]; exact hdn),
    readDigests_edit hslots hw fun slots slots' h => hf segid parsed slots slots' h, err_bind]

/-- An edit of the segment that its checks report. -/
theorem fromJson_edit_segment (hm : fromJson ext (.object root) hdr imageLen = .ok m)
    (ho : (Value.object root).findObject ["segments", name] = some o)
    (hf : checkReencryptFlags o = .ok () → checkSegment o = .ok () →
      checkReencryptFlags (f o) = .err e ∨
      checkReencryptFlags (f o) = .ok () ∧ checkSegment (f o) = .err e) :
    fromJson ext ((Value.object root).edit ["segments", name] f) hdr imageLen = .err e := by
  obtain ⟨_, aS, aE, segid, parsed, digests, hroot, hs, -⟩ := fromJson_parts hm
  cases hroot
  obtain ⟨name', seg, hsegs, hid, hflags, hcheck⟩ := readSegment_parts hs.segment
  obtain ⟨_, _, hroot, hlook, ho⟩ := Value.findObject_cons.mp ho
  cases hroot
  obtain rfl := Option.some.inj (hsegs.symm.trans hlook)
  obtain ⟨_, _, hsegs', hlook', ho⟩ := Value.findObject_cons.mp ho
  cases hsegs'
  obtain ⟨rfl, rfl⟩ : name = name' ∧ o = seg := by
    have hmem := mem_of_lookup hlook'
    rw [List.mem_singleton, Prod.mk.injEq, Value.findObject_nil.mp ho, Value.object.injEq] at hmem
    exact hmem
  have hsegs' : (modifyKey "segments" (Value.edit [name] f) root).lookup "segments" =
      some (.object [(name, .object (f o))]) := by
    rw [lookup_modifyKey_self hsegs, Value.edit_cons, modifyKey_cons, if_pos rfl, modifyKey_nil,
      Value.edit_nil]
  have hmembers :=
    (only_keys (modifyKey_keys (k := "segments") (f := Value.edit [name] f) (m := root))).trans
      hs.members
  have hconfig : readConfig (modifyKey "segments" (Value.edit [name] f) root) hdr = .ok (aS, aE) :=
    (readConfig_congr (lookup_modifyKey_of_ne (by decide))).trans hs.config
  refine fromJson_segment_err hmembers hconfig ?_
  obtain herr | ⟨hok, herr⟩ := hf hflags hcheck
  · exact readSegment_flags_err hsegs' herr
  · exact readSegment_check_err hsegs' hid hok herr

/-- An edit of the config section that the section reports. -/
theorem fromJson_edit_config (hm : fromJson ext (.object root) hdr imageLen = .ok m)
    {F : Value → Value} (hf : ∀ c, root.lookup "config" = some (.object c) →
      only c ["json_size", "keyslots_size", "flags", "requirements"] = .ok () →
      checkRequirements c = .ok () → ∃ c', F (.object c) = .object c' ∧
        (only c' ["json_size", "keyslots_size", "flags", "requirements"] = .err e ∨
          only c' ["json_size", "keyslots_size", "flags", "requirements"] = .ok () ∧
          Agree ["json_size", "flags"] c c' ∧ checkRequirements c' = .err e)) :
    fromJson ext (.object (modifyKey "config" F root)) hdr imageLen = .err e := by
  obtain ⟨_, aS, aE, segid, parsed, digests, hroot, hs, -⟩ := fromJson_parts hm
  cases hroot
  obtain ⟨c, hc, honly, ⟨n, hn, hroom⟩, hflags, hreq⟩ := readConfig_parts hs.config
  obtain ⟨c', hF, hc'⟩ := hf c hc honly hreq
  have hmembers := (only_keys (modifyKey_keys (k := "config") (f := F) (m := root))).trans
    hs.members
  have hlook : (modifyKey "config" F root).lookup "config" = some (.object c') := by
    rw [lookup_modifyKey_self hc, hF]
  refine fromJson_config_err hmembers ?_
  obtain herr | ⟨hok, ha, herr⟩ := hc'
  · simp only [readConfig, get, hlook, ofOption_some, ok_bind, object, Value.asObject_object,
      herr, err_bind]
  · exact readConfig_requirements_err hlook hok ((dec_agree ha (by decide)).trans hn) hroom
      ((noFlags_congr (ha _ (by decide))).trans hflags) herr

/-- The KDF of a keyslot, under the names of its own type. -/
theorem fromJson_edit_kdf (hm : fromJson ext (.object root) hdr imageLen = .ok m)
    (ho : (Value.object root).findObject ["keyslots", name, "kdf"] = some o) {allowed : List String}
    (hkind : ∀ {kind : String}, (Value.object root).findText ["keyslots", name, "kdf", "type"] =
      some kind → kind = "pbkdf2" ∧ allowed = ["type", "hash", "iterations", "salt"] ∨
        (kind = "argon2i" ∨ kind = "argon2id") ∧
        allowed = ["type", "time", "memory", "cpus", "salt"])
    (hk : key ∉ allowed) :
    fromJson ext ((Value.object root).edit ["keyslots", name, "kdf"] (insertKey key w))
      hdr imageLen = .err .unsupportedProfile := by
  obtain ⟨keys, w', hkeys, hw, ho⟩ := Value.findObject_member ho
  obtain ⟨slot, _, rfl, hkdf, ho⟩ := Value.findObject_cons.mp ho
  obtain rfl := Value.findObject_nil.mp ho
  refine fromJson_edit_keyslot hm ⟨keys, hkeys, hw⟩ fun aS aE st st' h => ?_
  obtain ⟨n, area, af, hn, htype, harea, haf⟩ := readKeyslot_parts h
  refine readKeyslot_af_err hn
    ((checkKeyslotType_congr modifyKey_keys (agree_modifyKey (by decide) _)).trans htype)
    ((readArea_congr (agree_modifyKey (by decide) _)).trans harea) ?_
  obtain ⟨_, ko, kdf, -, -, -, -, hko, hparse⟩ := readAfKdf_parts haf
  obtain rfl := Value.object.inj (Option.some.inj (hko.symm.trans hkdf))
  have hpath : ∀ {kind : String}, text ko "type" = .ok kind →
      (Value.object root).findText ["keyslots", name, "kdf", "type"] = some kind := by
    intro kind ht
    rw [Value.findText_member hkeys, Value.findText_member hw, Value.findText_member hkdf]
    exact text_eq_ok.mp ht
  refine readAfKdf_kdf_err haf (lookup_modifyKey_self hkdf) (parseKdf_insertKey hparse ?_ hk)
  simp only [parseKdf, bind_eq_ok] at hparse
  obtain ⟨_, -, _, -, kind, ht, -⟩ := hparse
  obtain ⟨rfl, hallowed⟩ | ⟨rfl | rfl, hallowed⟩ := hkind (hpath ht)
  · exact Or.inl ⟨ht, hallowed⟩
  · exact Or.inr ⟨Or.inl ht, hallowed⟩
  · exact Or.inr ⟨Or.inr ht, hallowed⟩

end

/-- **No unknown operational field is ignored.**  Take any JSON that is accepted, any of its
operational objects and any name outside the list of that object: with a member of this name the
JSON is refused as unsupported. -/
theorem unknown_field {m : Metadata} (hm : fromJson ext v hdr imageLen = .ok m)
    {path allowed : List String} (hop : Operational v path allowed)
    (ho : v.findObject path = some o) (hk : key ∉ allowed) (w : Value) :
    fromJson ext (v.edit path (insertKey key w)) hdr imageLen = .err .unsupportedProfile := by
  obtain ⟨root, -, -, -, -, -, rfl, -⟩ := fromJson_parts hm
  cases hop with
  | root =>
    simp only [Value.edit_nil, fromJson, object, Value.asObject_object, ofOption_some, ok_bind,
      only_insertKey hk, err_bind]
  | config =>
    refine fromJson_edit_config hm fun c _ _ _ =>
      ⟨insertKey key w c, rfl, Or.inl (only_insertKey hk w c)⟩
  | requirements =>
    obtain ⟨_, _, hroot, hc, ho⟩ := Value.findObject_cons.mp ho
    cases hroot
    obtain ⟨c, _, rfl, hr, ho⟩ := Value.findObject_cons.mp ho
    obtain rfl := Value.findObject_nil.mp ho
    refine fromJson_edit_config hm fun c' hc' honly _ => ?_
    obtain rfl := Value.object.inj (Option.some.inj (hc.symm.trans hc'))
    refine ⟨_, rfl, Or.inr ⟨(only_keys modifyKey_keys).trans honly,
      agree_modifyKey (by decide) _, ?_⟩⟩
    simp only [checkRequirements, lookup_modifyKey_self hr, Value.edit_nil, object,
      Value.asObject_object, ofOption_some, ok_bind, only_insertKey hk, err_bind]
  | segment name =>
    refine fromJson_edit_segment hm ho fun hflags hcheck => Or.inr ⟨?_, ?_⟩
    · rw [← hflags, checkReencryptFlags, agree_insertKey hk w "flags" (by decide),
        checkReencryptFlags]
    · rw [checkSegment, only_insertKey hk, err_bind]
  | keyslot name =>
    obtain ⟨keys, w', hkeys, hw, ho⟩ := Value.findObject_member ho
    obtain rfl := Value.findObject_nil.mp ho
    refine fromJson_edit_keyslot hm ⟨keys, hkeys, hw⟩ fun aS aE st st' h => ?_
    obtain ⟨n, area, af, hn, htype, -⟩ := readKeyslot_parts h
    exact readKeyslot_type_err hn (checkKeyslotType_insertKey htype hk)
  | area name =>
    obtain ⟨keys, w', hkeys, hw, ho⟩ := Value.findObject_member ho
    obtain ⟨slot, _, rfl, harea, ho⟩ := Value.findObject_cons.mp ho
    obtain rfl := Value.findObject_nil.mp ho
    refine fromJson_edit_keyslot hm ⟨keys, hkeys, hw⟩ fun aS aE st st' h => ?_
    obtain ⟨n, area, af, hn, htype, hok, -⟩ := readKeyslot_parts h
    exact readKeyslot_area_err hn
      ((checkKeyslotType_congr modifyKey_keys (agree_modifyKey (by decide) _)).trans htype)
      (readArea_insertKey hok harea hk)
  | af name =>
    obtain ⟨keys, w', hkeys, hw, ho⟩ := Value.findObject_member ho
    obtain ⟨slot, _, rfl, haf, ho⟩ := Value.findObject_cons.mp ho
    obtain rfl := Value.findObject_nil.mp ho
    refine fromJson_edit_keyslot hm ⟨keys, hkeys, hw⟩ fun aS aE st st' h => ?_
    obtain ⟨n, area, af, hn, htype, hok, -⟩ := readKeyslot_parts h
    exact readKeyslot_af_err hn
      ((checkKeyslotType_congr modifyKey_keys (agree_modifyKey (by decide) _)).trans htype)
      ((readArea_congr (agree_modifyKey (by decide) _)).trans hok) (readAfKdf_insertKey_af haf hk)
  | pbkdf2 name hkind =>
    exact fromJson_edit_kdf hm ho (fun h => Or.inl ⟨Option.some.inj (h.symm.trans hkind), rfl⟩) hk
  | argon2 name hkind =>
    exact fromJson_edit_kdf hm ho (fun h =>
      Or.inr ⟨hkind.imp (fun hkind => Option.some.inj (h.symm.trans hkind))
      fun hkind => Option.some.inj (h.symm.trans hkind), rfl⟩) hk
  | digest name =>
    obtain ⟨digests, w', hds, hw, ho⟩ := Value.findObject_member ho
    obtain rfl := Value.findObject_nil.mp ho
    refine fromJson_edit_digest hm ⟨digests, hds, hw⟩ fun segid parsed slots slots' h => ?_
    rw [readDigest_front, bind_eq_ok] at h
    obtain ⟨n, hn, -⟩ := h
    rw [Value.edit_nil, readDigest_front, hn, ok_bind, digestFront, only_insertKey hk,
      err_bind, err_bind]

/-! ## Marks of a re-encryption -/

/-- Append a string to the array `k`, or begin one. -/
def appendText (k s : String) (o : Obj) : Obj :=
  insertKey k (.array (((o.lookup k).bind Value.asArray).getD [] ++ [.string s])) o

/-- Append a string to the mandatory requirements of a config object, or begin them. -/
def appendMandatory (s : String) (config : Obj) : Obj :=
  insertKey "requirements" (.object (appendText "mandatory" s
    (((config.lookup "requirements").bind Value.asObject).getD []))) config

theorem lookup_appendText (k s : String) (o : Obj) : (appendText k s o).lookup k =
    some (.array (((o.lookup k).bind Value.asArray).getD [] ++ [.string s])) :=
    lookup_insertKey_self _ _ _

/-- A marked string at the end of an empty array is found. -/
theorem noReencrypt_marked {s : String} (hs : mentionsReencrypt s = true) :
    noReencrypt [.string s] = .err .reencryptionUnsupported := by
  simp only [noReencrypt, Value.asStr_string, ofOption_some, ok_bind, failIf_pos hs, err_bind]

/-- Accepted flags are absent or empty. -/
theorem noFlags_empty (h : noFlags o = .ok ()) :
    ((o.lookup "flags").bind Value.asArray).getD [] = [] := by
  unfold noFlags at h
  split at h
  · next hnone => rw [hnone, Option.bind_none, Option.getD_none]
  · next f hf =>
    simp only [bind_eq_ok, ofOption_eq_ok, failIf_eq_ok, Decidable.not_not] at h
    obtain ⟨l, hl, rfl⟩ := h
    rw [hf, Option.bind_some, hl, Option.getD_some]

/-- Accepted requirements are absent or empty. -/
theorem checkRequirements_empty {c : Obj} (h : checkRequirements c = .ok ()) :
    only (((c.lookup "requirements").bind Value.asObject).getD []) ["mandatory"] = .ok () ∧
      (((((c.lookup "requirements").bind Value.asObject).getD []).lookup "mandatory").bind
        Value.asArray).getD [] = [] := by
  unfold checkRequirements at h
  split at h
  · next hnone =>
    rw [hnone]
    exact ⟨rfl, rfl⟩
  · next r hr =>
    simp only [bind_eq_ok, object_eq_ok] at h
    obtain ⟨o, rfl, _, honly, h⟩ := h
    rw [hr, Option.bind_some, Value.asObject_object, Option.getD_some]
    refine ⟨honly, ?_⟩
    split at h
    · next hnone => rw [hnone, Option.bind_none, Option.getD_none]
    · next l hl =>
      simp only [bind_eq_ok, ofOption_eq_ok, failIf_eq_ok, Decidable.not_not] at h
      obtain ⟨l', hl', _, -, rfl⟩ := h
      rw [hl, Option.bind_some, hl', Option.getD_some]

theorem checkRequirements_marked {c : Obj} (h : checkRequirements c = .ok ()) {s : String}
    (hs : mentionsReencrypt s = true) :
    checkRequirements (appendMandatory s c) = .err .reencryptionUnsupported := by
  obtain ⟨honly, hempty⟩ := checkRequirements_empty h
  have honly' := only_insertKey_of_mem (List.mem_singleton_self "mandatory")
    (.array [.string s]) honly
  have hlook := lookup_appendText "mandatory" s
    (((c.lookup "requirements").bind Value.asObject).getD [])
  unfold appendText at hlook
  rw [hempty, List.nil_append] at hlook
  unfold checkRequirements appendMandatory appendText
  rw [lookup_insertKey_self, hempty, List.nil_append]
  simp only [object, Value.asObject_object, ofOption_some, ok_bind, honly', hlook,
    Value.asArray_array, noReencrypt_marked hs, err_bind]

/-- **A re-encryption is reported as one**: a mark among the mandatory requirements or the flags of
the segment, and a keyslot of the type `reencrypt`. -/
theorem reencryption_marked {m : Metadata} (hm : fromJson ext v hdr imageLen = .ok m) :
    (∀ s, mentionsReencrypt s = true →
      fromJson ext (v.edit ["config"] (appendMandatory s)) hdr imageLen =
        .err .reencryptionUnsupported) ∧
    (∀ name seg s, v.findObject ["segments", name] = some seg → mentionsReencrypt s = true →
      fromJson ext (v.edit ["segments", name] (appendText "flags" s)) hdr imageLen =
        .err .reencryptionUnsupported) ∧
    ∀ name slot, v.findObject ["keyslots", name] = some slot →
      fromJson ext (v.edit ["keyslots", name] (insertKey "type" (.string "reencrypt"))) hdr
        imageLen = .err .reencryptionUnsupported := by
  obtain ⟨root, -, -, -, -, -, rfl, -⟩ := fromJson_parts hm
  refine ⟨fun s hs => ?_, fun name seg s ho hs => ?_, fun name slot ho => ?_⟩
  · refine fromJson_edit_config hm fun c _ honly hreq =>
      ⟨appendMandatory s c, rfl, Or.inr ⟨?_, ?_, ?_⟩⟩
    · exact only_insertKey_of_mem (by decide) _ honly
    · exact agree_insertKey (by decide) _
    · exact checkRequirements_marked hreq hs
  · refine fromJson_edit_segment hm ho fun _ hcheck => Or.inl ?_
    have hempty : ((seg.lookup "flags").bind Value.asArray).getD [] = [] := by
      simp only [checkSegment, bind_eq_ok] at hcheck
      obtain ⟨_, -, _, -, _, -, _, -, _, -, _, -, _, -, _, -, _, -, hflags⟩ := hcheck
      exact noFlags_empty hflags
    rw [checkReencryptFlags, lookup_appendText, hempty, List.nil_append]
    simp only [Value.asArray_array, ofOption_some, ok_bind, noReencrypt_marked hs]
  · obtain ⟨keys, w', hkeys, hw, ho⟩ := Value.findObject_member ho
    obtain rfl := Value.findObject_nil.mp ho
    refine fromJson_edit_keyslot hm ⟨keys, hkeys, hw⟩ fun aS aE st st' h => ?_
    obtain ⟨n, area, af, hn, -⟩ := readKeyslot_parts h
    refine readKeyslot_type_err hn ?_
    simp only [checkKeyslotType, text, get, lookup_insertKey_self, ofOption_some, ok_bind,
      Value.asStr_string, failIf_pos, err_bind]

/-- **Nothing unknown and no re-encryption goes unnoticed.** -/
theorem fromJson_strict {m : Metadata} (hm : fromJson ext v hdr imageLen = .ok m) :
    (∀ path allowed o key w, Operational v path allowed → v.findObject path = some o →
      key ∉ allowed →
      fromJson ext (v.edit path (insertKey key w)) hdr imageLen = .err .unsupportedProfile) ∧
    (∀ s, mentionsReencrypt s = true →
      fromJson ext (v.edit ["config"] (appendMandatory s)) hdr imageLen =
        .err .reencryptionUnsupported) ∧
    (∀ name seg s, v.findObject ["segments", name] = some seg → mentionsReencrypt s = true →
      fromJson ext (v.edit ["segments", name] (appendText "flags" s)) hdr imageLen =
        .err .reencryptionUnsupported) ∧
    ∀ name slot, v.findObject ["keyslots", name] = some slot →
      fromJson ext (v.edit ["keyslots", name] (insertKey "type" (.string "reencrypt"))) hdr
        imageLen = .err .reencryptionUnsupported :=
  ⟨fun _ _ _ _ w hop ho hk => unknown_field hm hop ho hk w, reencryption_marked hm⟩

theorem fromJson_strict_sample :
    fromJson Sample.parsers (Sample.json.edit [] (insertKey "epoch" .null)) 16384 Sample.imageLen =
    .err .unsupportedProfile ∧
    fromJson Sample.parsers (Sample.json.edit ["config"] (appendMandatory "online-reencrypt-v2"))
      16384 Sample.imageLen = .err .reencryptionUnsupported := by
  obtain ⟨hunknown, hmark, -⟩ := fromJson_strict Sample.fromJson_json
  obtain ⟨root, -, -, -, -, -, hroot, -⟩ := fromJson_parts Sample.fromJson_json
  exact ⟨hunknown [] _ root "epoch" .null .root (Value.findObject_nil.mpr hroot) (by decide),
    hmark _ (by decide +kernel)⟩

end Metadata

end Winluks
