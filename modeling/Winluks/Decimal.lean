import Winluks.Binding

/-!
# Decimal strings

`decimal_iff`: the decimal strings are the renderings of the numbers of 64 bits,
each read back as its number.  So distinct names are distinct ids (`Denotes`),
and the loops that build tables of ids lose nothing: the map of the keyslots
holds one entry for each member of the object (`Kept`).
-/

namespace Winluks

open Lib Outcome

namespace Metadata

/-! ## The rendering of a number -/

/-- A number other than zero does not begin with a zero. -/
theorem head?_toDigits {b n : Nat} (hb : 1 < b) (hn : 0 < n) :
    (Nat.toDigits b n).head? ≠ some '0' := by
  induction n using Nat.strongRecOn with
  | ind n ih =>
    rw [Nat.toDigits_eq_if hb]
    split
    · simpa using Nat.ne_of_gt hn
    · next hge =>
      have hpos : 0 < n / b := Nat.div_pos (Nat.le_of_not_lt hge) (by omega)
      rw [List.head?_append_of_ne_nil _ Nat.toDigits_ne_nil]
      exact ih (n / b) (Nat.div_lt_self hn hb) hpos

theorem canonical_toDigits (n : Nat) : Canonical (Nat.toDigits 10 n) := by
  refine ⟨List.all_eq_true.mpr fun c hc => Nat.isDigit_of_mem_toDigits (by decide) (by decide) hc,
    fun hlen => ?_⟩
  have hn : n ≠ 0 := by
    rintro rfl
    rw [Nat.toDigits_zero] at hlen
    exact absurd hlen (by decide)
  exact head?_toDigits (by decide) (Nat.pos_of_ne_zero hn)

theorem decimalValue_toDigits (n : Nat) : decimalValue (Nat.toDigits 10 n) = n := by
  have hvalue : ∀ cs, decimalValue cs = Nat.ofDigitChars 10 cs 0 := fun cs => by
    simp only [decimalValue, Nat.ofDigitChars_eq_foldl, Nat.mul_comm]
  rw [hvalue, Nat.ofDigitChars_ten_toDigits]

/-- Digits only, no sign, and no zero in front of another digit. -/
structure Numeral (s : String) : Prop where
  ne : s ≠ ""
  digits : ∀ c ∈ s.toList, c.isDigit = true
  lead : s.toList.head? = some '0' → s = "0"

theorem toList_toString (n : Nat) : (toString n).toList = Nat.toDigits 10 n := Nat.toList_repr

theorem numeral_toString (n : Nat) : Numeral (toString n) where
  ne := Nat.repr_ne_empty
  digits := by
    rw [toList_toString]
    exact List.all_eq_true.mp (canonical_toDigits n).1
  lead h := by
    rw [toList_toString] at h
    have hn : n = 0 := Nat.eq_zero_of_not_pos fun hpos => head?_toDigits (by decide) hpos h
    rw [hn]
    rfl

theorem Numeral.canonical {s : String} (h : Numeral s) : Canonical s.toList := by
  refine ⟨List.all_eq_true.mpr h.digits, fun hlen hhead => ?_⟩
  rw [h.lead hhead] at hlen
  exact absurd hlen (by decide)

/-- A numeral is the rendering of its value. -/
theorem Numeral.eq_toString {s : String} (h : Numeral s) :
    s = toString (decimalValue s.toList) := by
  rw [← String.toList_inj, toList_toString]
  exact decimalValue_inj h.canonical (canonical_toDigits _) (by simpa using h.ne)
    Nat.toDigits_ne_nil (decimalValue_toDigits _).symm

theorem decimal_eq_ok {s : String} {n : Nat} :
    decimal s = .ok n ↔ Numeral s ∧ decimalValue s.toList = n ∧ n < 2 ^ 64 := by
  simp only [decimal, bind_eq_ok, failIf_eq_ok, not_or, not_and]
  constructor
  · rintro ⟨_, ⟨hne, hall, hlead⟩, _, hlt, hn⟩
    cases hn
    refine ⟨⟨fun hs => hne (by rw [hs]; rfl), by simpa using hall, fun hhead => ?_⟩, rfl, by omega⟩
    -- the zero in front is the only digit
    rcases hcs : s.toList with _ | ⟨c, _ | ⟨d, cs⟩⟩
    · exact absurd hcs hne
    · rw [hcs] at hhead
      cases hhead
      exact String.toList_inj.mp hcs
    · exact absurd hhead (hlead (by rw [hcs, List.length_cons, List.length_cons]; omega))
  · rintro ⟨hs, rfl, hlt⟩
    obtain ⟨hall, hlead⟩ := hs.canonical
    exact ⟨(), ⟨by simpa using hs.ne, by simpa using hall, hlead⟩, (), by omega, rfl⟩

/-- **Decimal strings are canonical.** -/
theorem decimal_iff {s : String} {n : Nat} : decimal s = .ok n ↔ n < 2 ^ 64 ∧ s = toString n := by
  rw [decimal_eq_ok]
  constructor
  · rintro ⟨hs, rfl, hlt⟩
    exact ⟨hlt, hs.eq_toString⟩
  · rintro ⟨hlt, rfl⟩
    exact ⟨numeral_toString n, by rw [toList_toString, decimalValue_toDigits], hlt⟩

theorem decimal_toString {n : Nat} (hn : n < 2 ^ 64) : decimal (toString n) = .ok n :=
  decimal_iff.mpr ⟨hn, rfl⟩

theorem numeral_iff {s : String} : Numeral s ↔ ∃ n : Nat, s = toString n :=
  ⟨fun h => ⟨_, h.eq_toString⟩, fun ⟨n, hn⟩ => hn ▸ numeral_toString n⟩

/-! ## Ids -/

/-- The strings are the decimals of the ids `ns`, no two of which are the same and none over 31. -/
structure Denotes (names : List String) (ns : List Nat) : Prop where
  each : names.map decimal = ns.map .ok
  distinct : ns.Nodup
  bound : ∀ n ∈ ns, n ≤ 31

theorem denotes_cons {s : String} {names : List String} {ms : List Nat}
    (h : Denotes (s :: names) ms) :
    ∃ n ns, ms = n :: ns ∧ decimal s = .ok n ∧ n ∉ ns ∧ Denotes names ns := by
  match ms, h with
  | n :: ns, h =>
    obtain ⟨hn, heach⟩ := List.cons.inj h.each
    obtain ⟨hnew, hdistinct⟩ := List.nodup_cons.mp h.distinct
    exact ⟨n, ns, rfl, hn, hnew, heach, hdistinct,
      fun n' hn' => h.bound n' (List.mem_cons_of_mem _ hn')⟩

/-- Distinct decimals are distinct ids. -/
theorem exists_denotes {names : List String} (hnames : names.Nodup)
    (hids : ∀ s ∈ names, ∃ n ≤ 31, decimal s = .ok n) :
    ∃ ns, Denotes names ns := by
  induction names with
  | nil => exact ⟨[], rfl, List.nodup_nil, nofun⟩
  | cons s names ih =>
    rw [List.nodup_cons] at hnames
    obtain ⟨ns, hns⟩ := ih hnames.2 fun t ht => hids t (List.mem_cons_of_mem _ ht)
    obtain ⟨n, hle, hn⟩ := hids s List.mem_cons_self
    refine ⟨n :: ns, ?_, List.nodup_cons.mpr ⟨fun hmem => ?_, hns.distinct⟩,
      List.forall_mem_cons.mpr ⟨hle, hns.bound⟩⟩
    · rw [List.map_cons, List.map_cons, hn, hns.each]
    · have : (.ok n : Outcome Error Nat) ∈ names.map decimal := hns.each ▸ List.mem_map_of_mem hmem
      obtain ⟨t, ht, hdec⟩ := List.mem_map.mp this
      exact hnames.1 (decimal_inj hdec hn ▸ ht)

variable {ext : Parsers} {v : Value} {o : Obj} {k : String} {hdr imageLen aS aE : Nat}

theorem idsFrom_denotes {max : Nat} {xs : List Value} {out res : List Nat}
    (h : idsFrom max xs out = .ok res) :
    ∃ (names : List String) (ns : List Nat), xs = names.map .string ∧ res = out ++ ns ∧
    names.map decimal = ns.map .ok ∧ ∀ n ∈ ns, n ≤ max := by
  induction xs generalizing out with
  | nil =>
    cases h
    exact ⟨[], [], rfl, (List.append_nil _).symm, rfl, nofun⟩
  | cons x xs ih =>
    simp only [idsFrom, bind_eq_ok, ofOption_eq_ok, id_eq_ok, Value.asStr_eq_some] at h
    obtain ⟨s, rfl, n, ⟨hn, hle⟩, _, -, hrest⟩ := h
    obtain ⟨names, ns, rfl, rfl, hnames, hmax⟩ := ih hrest
    refine ⟨s :: names, n :: ns, rfl, ?_, ?_, List.forall_mem_cons.mpr ⟨hle, hmax⟩⟩
    · rw [List.append_assoc]
      rfl
    · rw [List.map_cons, List.map_cons, hn, hnames]

/-- The entries of an accepted list denote its ids. -/
theorem ids_denotes {ns : List Nat} (h : ids o k 31 = .ok ns) :
    ∃ names, o.lookup k = some (.array (names.map .string)) ∧ Denotes names ns := by
  have hdistinct := ids_nodup h
  simp only [ids, bind_eq_ok, get_eq_ok, ofOption_eq_ok, Value.asArray_eq_some] at h
  obtain ⟨_, ha, xs, rfl, hids⟩ := h
  obtain ⟨names, ns', rfl, rfl, hnames, hmax⟩ := idsFrom_denotes hids
  exact ⟨names, ha, hnames, hdistinct, hmax⟩

/-! ## The loops over named members -/

theorem checkTokens_ids {tokens : Obj} (h : checkTokens tokens = .ok ()) :
    ∀ s ∈ tokens.map Prod.fst, ∃ n ≤ 31, decimal s = .ok n := by
  induction tokens with
  | nil => exact nofun
  | cons e tokens ih =>
    simp only [checkTokens, bind_eq_ok, id_eq_ok] at h
    obtain ⟨n, ⟨hn, hle⟩, _, -, hrest⟩ := h
    exact List.forall_mem_cons.mpr ⟨⟨n, hle, hn⟩, ih hrest⟩

theorem readDigests_each {segid : Nat} {parsed : List (Nat × Keyslot)}
    {slots slots' : List (Nat × Slot)} {digests : Obj}
    (h : readDigests ext segid parsed digests slots = .ok slots') :
    ∀ e ∈ digests, ∃ s s', readDigest ext segid parsed s e.1 e.2 = .ok s' := by
  induction digests generalizing slots with
  | nil => exact nofun
  | cons e digests ih =>
    rw [readDigests, bind_eq_ok] at h
    obtain ⟨slots₁, h₁, hrest⟩ := h
    exact List.forall_mem_cons.mpr ⟨⟨slots, slots₁, h₁⟩, ih hrest⟩

theorem readDigests_ids {segid : Nat} {parsed : List (Nat × Keyslot)}
    {slots slots' : List (Nat × Slot)} {digests : Obj}
    (h : readDigests ext segid parsed digests slots = .ok slots') :
    ∀ s ∈ digests.map Prod.fst, ∃ n ≤ 31, decimal s = .ok n := by
  refine List.forall_mem_map.mpr fun e he => ?_
  obtain ⟨s, s', hd⟩ := readDigests_each h e he
  simp only [readDigest, bind_eq_ok, id_eq_ok] at hd
  obtain ⟨n, ⟨hn, hle⟩, -⟩ := hd
  exact ⟨n, hle, hn⟩

theorem readKeyslots_ids {keys : Obj} {st st' : Keyslots}
    (h : readKeyslots ext aS aE keys st = .ok st') :
    ∀ s ∈ keys.map Prod.fst, ∃ n ≤ 31, decimal s = .ok n := by
  induction keys generalizing st with
  | nil => exact nofun
  | cons e keys ih =>
    rw [readKeyslots, bind_eq_ok] at h
    obtain ⟨st₁, h₁, hrest⟩ := h
    simp only [readKeyslot, bind_eq_ok, id_eq_ok] at h₁
    obtain ⟨n, ⟨hn, hle⟩, -⟩ := h₁
    exact List.forall_mem_cons.mpr ⟨⟨n, hle, hn⟩, ih hrest⟩

/-- The loop over `keys` adds one entry for each member, and each at a new id. -/
structure Kept (ext : Parsers) (aS aE : Nat) (keys : Obj) (ns : List Nat) (st : Keyslots) :
    Prop where
  fresh : ∀ past e rest, keys = past ++ e :: rest →
    ∀ st₁ n, readKeyslots ext aS aE past ⟨[], []⟩ = .ok st₁ →
    decimal e.1 = .ok n → st₁.parsed.lookup n = none
  all : ∃ ps, keys.map (fun e => keyslotOf ext e.2) = ps.map some ∧ st.parsed.Perm (ns.zip ps)

/-- What has been read denotes no id that is still to come. -/
theorem readKeyslots_fresh {past rest : Obj} {e : String × Value} {st : Keyslots} {n : Nat}
    (hnames : ((past ++ e :: rest).map Prod.fst).Nodup)
    (h : readKeyslots ext aS aE past ⟨[], []⟩ = .ok st)
    (hn : decimal e.1 = .ok n) : st.parsed.lookup n = none := by
  rw [List.map_append, List.nodup_append] at hnames
  obtain ⟨hpast, -, hapart⟩ := hnames
  rw [Option.eq_none_iff_forall_ne_some]
  intro p hp
  obtain ⟨e', he', hn', -⟩ := (readKeyslots_declares h hpast n p).mp hp
  exact hapart e'.1 (List.mem_map_of_mem he') e.1 List.mem_cons_self (decimal_inj hn' hn)

theorem readKeyslots_perm {keys : Obj} {ns : List Nat} {st st' : Keyslots}
    (h : readKeyslots ext aS aE keys st = .ok st') (hns : Denotes (keys.map Prod.fst) ns)
    (hfree : ∀ n ∈ ns, st.parsed.lookup n = none) :
    ∃ ps, keys.map (fun e => keyslotOf ext e.2) = ps.map some ∧
    st'.parsed.Perm (ns.zip ps ++ st.parsed) := by
  induction keys generalizing ns st with
  | nil =>
    cases h
    exact ⟨[], rfl, by rw [List.zip_nil_right, List.nil_append]⟩
  | cons e keys ih =>
    obtain ⟨n, ns, rfl, hn, hnew, hrest⟩ := denotes_cons hns
    rw [readKeyslots, bind_eq_ok] at h
    obtain ⟨st₁, h₁, h⟩ := h
    obtain ⟨n₁, p, -, hn₁, hp, -, -, -, -, hparsed⟩ := readKeyslot_parsed h₁
    cases hn.symm.trans hn₁
    have hfree₁ : ∀ n' ∈ ns, st₁.parsed.lookup n' = none := by
      intro n' hn'
      have hne : n' ≠ n := fun heq => hnew (heq ▸ hn')
      rw [hparsed, lookup_insertKey_of_ne hne]
      exact hfree n' (List.mem_cons_of_mem _ hn')
    obtain ⟨ps, hps, hperm⟩ := ih h hrest hfree₁
    refine ⟨p :: ps, by rw [List.map_cons, List.map_cons, hp, hps], ?_⟩
    rw [List.zip_cons_cons]
    calc st'.parsed.Perm (ns.zip ps ++ st₁.parsed) := hperm
      List.Perm _ (ns.zip ps ++ (n, p) :: st.parsed) := by
        rw [hparsed]
        exact (insertKey_perm (hfree n List.mem_cons_self)).append_left _
      List.Perm _ ((n, p) :: (ns.zip ps ++ st.parsed)) := List.perm_middle

/-- What the ids of an accepted JSON are. -/
structure Identified (ext : Parsers) (v : Value) (hdr : Nat) : Prop where
  maps : ∀ k ∈ ["keyslots", "tokens", "segments", "digests"], ∃ o ns, v.findObject [k] = some o ∧
    Denotes (o.map Prod.fst) ns
  lists : ∀ digests, v.findObject ["digests"] = some digests →
    ∀ e ∈ digests, ∀ k ∈ ["keyslots", "segments"],
    ∃ names ns, e.2.find [k] = some (.array (names.map .string)) ∧ Denotes names ns
  keyslots : ∃ root aS aE keys ns st, v = .object root ∧ readConfig root hdr = .ok (aS, aE) ∧
    v.findObject ["keyslots"] = some keys ∧ Denotes (keys.map Prod.fst) ns ∧
    readKeyslots ext aS aE keys ⟨[], []⟩ = .ok st ∧ Kept ext aS aE keys ns st

theorem fromJson_tokens {m : Metadata} (hm : fromJson ext v hdr imageLen = .ok m) :
    ∃ tokens, v.findObject ["tokens"] = some tokens ∧ checkTokens tokens = .ok () := by
  simp only [fromJson, bind_eq_ok, object_eq_ok, get_eq_ok] at hm
  obtain ⟨root, rfl, _, -, _, -, _, -, _, -, _, -, _, -, _, -, _, htokens, tokens, rfl, _, -, _,
    hcheck, -⟩ := hm
  exact ⟨tokens, by simp [Value.findObject, htokens], hcheck⟩

theorem readSegment_id {root : Obj} {segid offset length : Nat}
    (h : readSegment root aE imageLen = .ok (segid, offset, length)) : segid ≤ 31 := by
  simp only [readSegment, bind_eq_ok, id_eq_ok] at h
  obtain ⟨_, -, _, -, _, -, _, -, _, -, n, ⟨-, hle⟩, _, -, _, -, _, -, hret⟩ := h
  cases hret
  exact hle

theorem readDigest_lists {segid : Nat} {parsed : List (Nat × Keyslot)}
    {slots slots' : List (Nat × Slot)} {d : String}
    (h : readDigest ext segid parsed slots d v = .ok slots') : ∀ k ∈ ["keyslots", "segments"],
    ∃ names ns, v.find [k] = some (.array (names.map .string)) ∧ Denotes names ns := by
  simp only [readDigest, bind_eq_ok, object_eq_ok] at h
  obtain ⟨_, -, o, rfl, _, -, _, -, _, -, _, -, _, -, _, -, _, -, _, -, _, -, ds, hds, _, -, ks,
    hks, -⟩ := h
  intro k hk
  have hids : ∃ ns, ids o k 31 = .ok ns := by
    rcases List.mem_pair.mp hk with rfl | rfl
    · exact ⟨ks, hks⟩
    · exact ⟨ds, hds⟩
  obtain ⟨ns, hns⟩ := hids
  obtain ⟨names, ho, hnames⟩ := ids_denotes hns
  exact ⟨names, ns, by simp [ho], hnames⟩

theorem fromJson_identified (hv : v.Distinct) {m : Metadata}
    (hm : fromJson ext v hdr imageLen = .ok m) :
    Identified ext v hdr := by
  obtain ⟨tokens, htokens, hcheck⟩ := fromJson_tokens hm
  obtain ⟨root, aS, aE, segid, keys, st, digests, rfl, hconfig, hsegment, hkeys, hst, hdigests,
    hslots⟩ := fromJson_ok hm
  obtain ⟨name, seg, hsegs, hname, -⟩ := readSegment_ok hsegment
  have hdenotes : ∀ {k o}, (Value.object root).findObject [k] = some o →
      (∀ s ∈ o.map Prod.fst, ∃ n ≤ 31, decimal s = .ok n) → ∃ ns, Denotes (o.map Prod.fst) ns :=
    fun ho => exists_denotes (distinct_findObject hv ho)
  obtain ⟨ns, hns⟩ := hdenotes hkeys (readKeyslots_ids hst)
  obtain ⟨ps, hps, hperm⟩ := readKeyslots_perm hst hns fun _ _ => rfl
  refine ⟨fun k hk => ?_, fun digests' hdigests' e he k hk => ?_, root, aS, aE, keys, ns, st, rfl,
    hconfig, hkeys, hns, hst,
    ?_, ps, hps, by rwa [List.append_nil] at hperm⟩
  · simp only [List.mem_cons, List.not_mem_nil, or_false] at hk
    rcases hk with rfl | rfl | rfl | rfl
    · exact ⟨keys, ns, hkeys, hns⟩
    · obtain ⟨ns, hns⟩ := hdenotes htokens (checkTokens_ids hcheck)
      exact ⟨tokens, ns, htokens, hns⟩
    · obtain ⟨ns, hns⟩ := hdenotes hsegs (by simpa using ⟨segid, readSegment_id hsegment, hname⟩)
      exact ⟨_, ns, hsegs, hns⟩
    · obtain ⟨ns, hns⟩ := hdenotes hdigests (readDigests_ids hslots)
      exact ⟨digests, ns, hdigests, hns⟩
  · cases hdigests.symm.trans hdigests'
    obtain ⟨s, s', hd⟩ := readDigests_each hslots e he
    exact readDigest_lists hd k hk
  · rintro past e rest rfl st₁ n hpast hn
    exact readKeyslots_fresh (distinct_findObject hv hkeys) hpast hn

/-- **Decimal strings are canonical**, so ids never collide.  The accepted strings are the
renderings of the numbers of 64 bits, and those are the digits without a sign or a superfluous zero;
each is read as its number, and no two as the same.  In accepted metadata names and entries
therefore denote distinct ids of at most 31, and the map of the keyslots holds each of them. -/
theorem decimal_canonical (ext : Parsers) :
    (∀ s n, decimal s = .ok n ↔ n < 2 ^ 64 ∧ s = toString n) ∧
    (∀ s, Numeral s ↔ ∃ n : Nat, s = toString n) ∧
    (∀ n < 2 ^ 64, decimal (toString n) = .ok n) ∧
    (∀ s t n, decimal s = .ok n → decimal t = .ok n → s = t) ∧
    ∀ v hdr imageLen m, v.Distinct → fromJson ext v hdr imageLen = .ok m → Identified ext v hdr :=
  ⟨fun _ _ => decimal_iff, fun _ => numeral_iff, fun _ => decimal_toString,
    fun _ _ _ => decimal_inj,
    fun _ _ _ _ hv hm => fromJson_identified hv hm⟩

theorem decimal_canonical_sample :
    decimal "31" = .ok 31 ∧ Identified Sample.parsers Sample.json 16384 := by
  obtain ⟨-, -, hinverse, -, haccepted⟩ := decimal_canonical Sample.parsers
  exact ⟨hinverse 31 (by decide),
    haccepted _ _ Sample.imageLen _ (by decide +kernel) Sample.fromJson_json⟩

end Metadata

end Winluks
