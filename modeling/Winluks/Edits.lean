import Winluks.Slots

/-!
# Edits of the metadata JSON

What changes in the verdict of `fromJson` when one object of the JSON is edited?
`v.edit path f` applies `f` to the object at the end of a path.  A section of the
reader depends on the members it looks up and on the names that `only` sees, so
it does not notice an edit elsewhere (`readConfig_congr` and its like); and a
loop over a map reaches the edited member with everything before it as it was
(`readKeyslots_edit`, `readDigests_edit`).
-/

namespace Winluks

open Lib Outcome

namespace Value

/-- Apply `f` to the object at the end of a path of member names. -/
def edit : List String → (Obj → Obj) → Value → Value
  | [], f, .object o => .object (f o)
  | k :: path, f, .object o => .object (modifyKey k (edit path f) o)
  | _, _, v => v

@[simp] theorem edit_nil (f : Obj → Obj) (o : Obj) : edit [] f (.object o) = .object (f o) := rfl

@[simp] theorem edit_cons (k : String) (path : List String) (f : Obj → Obj) (o : Obj) :
    edit (k :: path) f (.object o) = .object (modifyKey k (edit path f) o) := rfl

end Value

namespace Metadata

variable {ext : Parsers} {root root' o o' : Obj} {v : Value} {k : String} {hdr imageLen aS aE : Nat}
    {A : List String}

/-! ## Objects that look alike -/

/-- The two objects have the same members of these names. -/
def Agree (A : List String) (o o' : Obj) : Prop := ∀ k ∈ A, o'.lookup k = o.lookup k

theorem agree_insertKey (hk : k ∉ A) (w : Value) : Agree A o (insertKey k w o) :=
  fun _ h => lookup_insertKey_of_ne (ne_of_mem_of_not_mem h hk) w o

theorem agree_modifyKey (hk : k ∉ A) (f : Value → Value) : Agree A o (modifyKey k f o) :=
  fun _ h => lookup_modifyKey_of_ne (ne_of_mem_of_not_mem h hk)

theorem get_agree (h : Agree A o o') (hk : k ∈ A) : get o' k = get o k := by
  rw [get, h k hk, get]

theorem text_agree (h : Agree A o o') (hk : k ∈ A) : text o' k = text o k := by
  rw [text, get_agree h hk, text]

theorem num_agree (h : Agree A o o') (hk : k ∈ A) : num o' k = num o k := by
  rw [num, get_agree h hk, num]

theorem dec_agree (h : Agree A o o') (hk : k ∈ A) : dec o' k = dec o k := by
  rw [dec, text_agree h hk, dec]

theorem b64_agree (h : Agree A o o') (hk : k ∈ A) : b64 ext o' k = b64 ext o k := by
  rw [b64, text_agree h hk, b64]

theorem bounded_agree {max : Nat} (h : Agree A o o') (hk : k ∈ A) :
    bounded o' k max = bounded o k max := by
  rw [bounded, num_agree h hk, bounded]

theorem only_keys {allowed : List String} (h : o'.map Prod.fst = o.map Prod.fst) :
    only o' allowed = only o allowed := by
  have hany : ∀ m : Obj, (m.any fun e => !allowed.contains e.1) = (m.map Prod.fst).any fun k =>
      !allowed.contains k := by
    intro m
    rw [List.any_map]
    rfl
  rw [only, only, hany, hany, h]

/-! ## A name that is not allowed -/

theorem mem_insertKey_self (k : String) (w : Value) (o : Obj) : (k, w) ∈ insertKey k w o :=
  mem_of_lookup (lookup_insertKey_self k w o)

/-- An unknown member is reported. -/
theorem only_insertKey {allowed : List String} (hk : k ∉ allowed) (w : Value) (o : Obj) :
    only (insertKey k w o) allowed = .err .unsupportedProfile := by
  have hany : ((insertKey k w o).any fun e => !allowed.contains e.1) = true :=
    List.any_eq_true.mpr ⟨(k, w), mem_insertKey_self k w o, by simpa using hk⟩
  exact failIf_pos hany _

/-- An allowed member is not. -/
theorem only_insertKey_of_mem {allowed : List String} (hk : k ∈ allowed) (w : Value)
    (h : only o allowed = .ok ()) :
    only (insertKey k w o) allowed = .ok () := by
  rw [only, failIf_eq_ok] at h ⊢
  rw [Bool.not_eq_true, List.any_eq_false] at h ⊢
  intro e he
  rcases mem_insertKey he with rfl | he
  · simpa using hk
  · exact h e he

/-! ## Sections that do not see an edit -/

theorem readConfig_congr (h : root'.lookup "config" = root.lookup "config") :
    readConfig root' hdr = readConfig root hdr := by
  simp only [readConfig, get, h]

theorem readSegment_congr (h : root'.lookup "segments" = root.lookup "segments") :
    readSegment root' aE imageLen = readSegment root aE imageLen := by
  simp only [readSegment, get, h]

theorem checkKeyslotType_congr (hn : o'.map Prod.fst = o.map Prod.fst)
    (h : Agree ["type", "priority"] o o') :
    checkKeyslotType o' = checkKeyslotType o := by
  simp (disch := decide) only [checkKeyslotType, checkPriority, text_agree h, only_keys hn,
    h "priority"]

theorem readArea_congr {ranges : List (Region Nat)} (h : Agree ["key_size", "area"] o o') :
    readArea aS aE ranges o' = readArea aS aE ranges o := by
  simp (disch := decide) only [readArea, num_agree h, get_agree h]

/-- The part of a digest that comes before its two lists. -/
def digestFront (ext : Parsers) (o : Obj) : Outcome Error (Kdf × Bytes) := do
  only o ["type", "keyslots", "segments", "hash", "iterations", "salt", "digest"]
  let kind ← text o "type"
  .failIf (kind ≠ "pbkdf2") .unsupportedProfile
  let digest ← b64 ext o "digest"
  let salt ← b64 ext o "salt"
  let hash ← text o "hash"
  let hash ← Hash.parse hash
  .failIf (salt.length ≠ 32 ∨ (digest.length ≠ 20 ∧ digest.length ≠ hash.size)) .metadataInvalid
  let iterations ← bounded o "iterations" 10000000
  .ok (.pbkdf2 hash iterations salt, digest)

theorem digestFront_congr (hn : o'.map Prod.fst = o.map Prod.fst)
    (h : Agree ["type", "hash", "iterations", "salt", "digest"] o o') :
    digestFront ext o' = digestFront ext o := by
  simp (disch := decide) only [digestFront, only_keys hn, text_agree h, b64_agree h,
    bounded_agree h]

theorem readDigest_front {segid : Nat} {parsed : List (Nat × Keyslot)} {slots : List (Nat × Slot)}
    {d : String} :
    readDigest ext segid parsed slots d (.object o) = (do
      let _ ← id d 31
      let (kdf, digest) ← digestFront ext o
      let ds ← ids o "segments" 31
      .failIf (∃ s ∈ ds, s ≠ segid) .metadataInvalid
      let ks ← ids o "keyslots" 31
      bindKeyslots parsed ds kdf digest ks slots) := by
  simp only [readDigest, digestFront, object, Value.asObject_object, ofOption_some, ok_bind,
    Outcome.bind_assoc]

/-! ## Everything in front of a loop -/

/-- The members of the root that are read. -/
def rootMembers : List String := ["keyslots", "tokens", "segments", "digests", "config"]

/-- The sections in front of the keyslots are read. -/
structure ReadsSegment (root : Obj) (hdr imageLen aS aE segid offset length : Nat) : Prop where
  members : only root rootMembers = .ok ()
  config : readConfig root hdr = .ok (aS, aE)
  segment : readSegment root aE imageLen = .ok (segid, offset, length)

/-- The sections in front of the digests are read. -/
structure ReadsKeyslots (ext : Parsers) (root : Obj) (aS aE : Nat) (parsed : List (Nat × Keyslot)) :
    Prop where
  keyslots : ∃ keys st, root.lookup "keyslots" = some (.object keys) ∧ keys.length ≤ 32 ∧
    readKeyslots ext aS aE keys ⟨[], []⟩ = .ok st ∧ st.parsed = parsed
  tokens : ∃ tokens, root.lookup "tokens" = some (.object tokens) ∧ tokens.length ≤ 32 ∧
    checkTokens tokens = .ok ()

section
variable {segid offset length : Nat} {parsed : List (Nat × Keyslot)}

theorem ReadsSegment.congr (h : ReadsSegment root hdr imageLen aS aE segid offset length)
    (hn : root'.map Prod.fst = root.map Prod.fst) (ha : Agree ["config", "segments"] root root') :
    ReadsSegment root' hdr imageLen aS aE segid offset length where
  members := (only_keys hn).trans h.members
  config := (readConfig_congr (ha _ (by decide))).trans h.config
  segment := (readSegment_congr (ha _ (by decide))).trans h.segment

theorem ReadsKeyslots.congr (h : ReadsKeyslots ext root aS aE parsed)
    (ha : Agree ["keyslots", "tokens"] root root') :
    ReadsKeyslots ext root' aS aE parsed where
  keyslots := by
    rw [ha "keyslots" (by decide)]
    exact h.keyslots
  tokens := by
    rw [ha "tokens" (by decide)]
    exact h.tokens

/-- All parts of accepted metadata. -/
theorem fromJson_parts {m : Metadata} (hm : fromJson ext v hdr imageLen = .ok m) :
    ∃ root aS aE segid parsed digests, v = .object root ∧
      ReadsSegment root hdr imageLen aS aE segid m.offset m.length ∧
      ReadsKeyslots ext root aS aE parsed ∧
      root.lookup "digests" = some (.object digests) ∧ digests.length ≤ 32 ∧
      readDigests ext segid parsed digests [] = .ok m.slots := by
  simp only [fromJson, bind_eq_ok, object_eq_ok, get_eq_ok, failIf_eq_ok, Nat.not_lt] at hm
  obtain ⟨root, rfl, _, honly, ⟨aS, aE⟩, hconfig, ⟨segid, offset, length⟩, hsegment, _, hks, keys,
    rfl, _, hkn, st, hst, _, htok, tokens, rfl, _, htn, _, htokens, _, hds, digests, rfl, _, hdn,
    slots, hslots, hret⟩ := hm
  cases hret
  exact ⟨root, aS, aE, segid, st.parsed, digests, rfl, ⟨honly, hconfig, hsegment⟩,
    ⟨⟨keys, st, hks, hkn, hst, rfl⟩, tokens, htok, htn, htokens⟩, hds, hdn, hslots⟩

/-- When everything in front of the digests is read, they decide. -/
theorem fromJson_digests (hs : ReadsSegment root hdr imageLen aS aE segid offset length)
    (hk : ReadsKeyslots ext root aS aE parsed) {digests : Obj}
    (hd : root.lookup "digests" = some (.object digests))
    (hn : digests.length ≤ 32) : fromJson ext (.object root) hdr imageLen = (do
      let slots ← readDigests ext segid parsed digests []
      .ok ⟨offset, length, slots⟩) := by
  obtain ⟨⟨keys, st, hks, hkn, hst, rfl⟩, tokens, htok, htn, htokens⟩ := hk
  have hmembers := hs.members
  unfold rootMembers at hmembers
  simp only [fromJson, object, Value.asObject_object, ofOption_some, ok_bind, hmembers, hs.config,
    hs.segment, get, hks, failIf_neg (Nat.not_lt.mpr hkn), hst, htok,
    failIf_neg (Nat.not_lt.mpr htn), htokens, hd,
    failIf_neg (Nat.not_lt.mpr hn)]

/-- An error of a section is the error of the reader. -/
theorem fromJson_config_err (hmembers : only root rootMembers = .ok ()) {e : Error}
    (he : readConfig root hdr = .err e) :
    fromJson ext (.object root) hdr imageLen = .err e := by
  unfold rootMembers at hmembers
  simp only [fromJson, object, Value.asObject_object, ofOption_some, ok_bind, hmembers,
    he, err_bind]

theorem fromJson_segment_err (hmembers : only root rootMembers = .ok ())
    (hconfig : readConfig root hdr = .ok (aS, aE)) {e : Error}
    (he : readSegment root aE imageLen = .err e) :
    fromJson ext (.object root) hdr imageLen = .err e := by
  unfold rootMembers at hmembers
  simp only [fromJson, object, Value.asObject_object, ofOption_some, ok_bind, hmembers, hconfig,
    he, err_bind]

theorem fromJson_keyslots_err (hs : ReadsSegment root hdr imageLen aS aE segid offset length)
    {keys : Obj} (hk : root.lookup "keyslots" = some (.object keys))
    (hn : keys.length ≤ 32) {e : Error}
    (he : readKeyslots ext aS aE keys ⟨[], []⟩ = .err e) :
    fromJson ext (.object root) hdr imageLen = .err e := by
  have hmembers := hs.members
  unfold rootMembers at hmembers
  simp only [fromJson, object, Value.asObject_object, ofOption_some, ok_bind, hmembers, hs.config,
    hs.segment, get, hk, failIf_neg (Nat.not_lt.mpr hn), he, err_bind]

/-! ## Loops -/

/-- The loop over the keyslots reaches an edited member with everything before it as it was. -/
theorem readKeyslots_edit {keys : Obj} {name : String} {f : Value → Value} {e : Error}
    {st st' : Keyslots} (h : readKeyslots ext aS aE keys st = .ok st') {w : Value}
    (hw : keys.lookup name = some w)
    (hf : ∀ st st', readKeyslot ext aS aE st name w = .ok st' →
      readKeyslot ext aS aE st name (f w) = .err e) :
    readKeyslots ext aS aE (modifyKey name f keys) st = .err e := by
  induction keys generalizing st with
  | nil => cases hw
  | cons x keys ih =>
    obtain ⟨k, v⟩ := x
    rw [readKeyslots, bind_eq_ok] at h
    obtain ⟨st₁, h₁, h⟩ := h
    rw [modifyKey_cons]
    by_cases hk : k = name
    · subst hk
      rw [List.lookup_cons_self] at hw
      cases hw
      rw [if_pos rfl, readKeyslots, hf st st₁ h₁, err_bind]
    · rw [List.lookup_cons, beq_false_of_ne (Ne.symm hk)] at hw
      rw [if_neg hk, readKeyslots, h₁, ok_bind]
      exact ih h hw

/-- So does the loop over the digests. -/
theorem readDigests_edit {digests : Obj} {name : String} {f : Value → Value} {e : Error}
    {slots slots' : List (Nat × Slot)} (h : readDigests ext segid parsed digests slots = .ok slots')
    {w : Value} (hw : digests.lookup name = some w)
    (hf : ∀ slots slots', readDigest ext segid parsed slots name w = .ok slots' →
      readDigest ext segid parsed slots name (f w) = .err e) :
    readDigests ext segid parsed (modifyKey name f digests) slots = .err e := by
  induction digests generalizing slots with
  | nil => cases hw
  | cons x digests ih =>
    obtain ⟨d, v⟩ := x
    rw [readDigests, bind_eq_ok] at h
    obtain ⟨slots₁, h₁, h⟩ := h
    rw [modifyKey_cons]
    by_cases hd : d = name
    · subst hd
      rw [List.lookup_cons_self] at hw
      cases hw
      rw [if_pos rfl, readDigests, hf slots slots₁ h₁, err_bind]
    · rw [List.lookup_cons, beq_false_of_ne (Ne.symm hd)] at hw
      rw [if_neg hd, readDigests, h₁, ok_bind]
      exact ih h hw

end

end Metadata

end Winluks
