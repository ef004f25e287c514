import Winluks.Header
import Winluks.Steady

/-!
# Writing the format

The other direction: `Copy.bytes` lays out a header copy field by field, as the
format has it, and `readOf_format` says that an image with two such copies is
read back, with the metadata of their JSON.  So the checks of the reader refuse
no image in the format, and images for examples are written rather than found.
-/

namespace Winluks

open Lib Outcome

theorem utf8_textBytes (s : String) : Metadata.utf8 (textBytes s) = some s := by
  have hbytes : (textBytes s).toByteArray = s.toByteArray := by
    apply ByteArray.ext
    apply Array.toList_inj.mp
    simp [textBytes]
  unfold Metadata.utf8
  rw [hbytes]
  simp [String.fromUTF8?, String.fromUTF8, s.isValidUTF8]

theorem any_zeros (n : Nat) : (zeros n).any (fun x => decide (x ≠ 0)) = false := by
  rw [List.any_eq_false]
  intro x hx
  simp [List.eq_of_mem_replicate hx]

/-- A field of `n` bytes, filled up with zeros. -/
def padded (n : Nat) (b : Bytes) : Bytes := b ++ zeros (n - b.length)

/-- The bytes fit into a field of `n` bytes that ends with a zero. -/
def FitsField (n : Nat) (b : Bytes) : Prop := 0 ∉ b ∧ b.length < n

instance (n : Nat) (b : Bytes) : Decidable (FitsField n b) := inferInstanceAs (Decidable (_ ∧ _))

theorem padded_length {n : Nat} {b : Bytes} (h : b.length ≤ n) : (padded n b).length = n := by
  simp [padded, h]

theorem untilNul_padded {n : Nat} {b : Bytes} (h : FitsField n b) :
    Metadata.untilNul (padded n b) = .ok b := by
  obtain ⟨hzero, hlen⟩ := h
  obtain ⟨k, hk⟩ : ∃ k, n - b.length = k + 1 := ⟨n - b.length - 1, by omega⟩
  have hall : ∀ x ∈ b, decide (x ≠ 0) = true := fun x hx => decide_eq_true fun h0 => hzero (h0 ▸ hx)
  have hpad : zeros (k + 1) = 0 :: zeros k := List.replicate_succ
  unfold Metadata.untilNul padded
  rw [hk, hpad, List.takeWhile_append_of_pos hall, List.dropWhile_append_of_pos hall]
  simp [zeros]

theorem cstr_padded {n : Nat} {s : String} (h : FitsField n (textBytes s)) :
    Metadata.cstr (padded n (textBytes s)) = .ok s := by
  unfold Metadata.cstr
  rw [untilNul_padded h, ok_bind, utf8_textBytes, ofOption_some]

def Hash.name : Hash → String
  | sha256 => "sha256"
  | sha512 => "sha512"

theorem Hash.parse_name (h : Hash) : Hash.parse h.name = .ok h := by
  cases h <;> rfl

theorem Hash.name_fits (h : Hash) : FitsField 32 (textBytes h.name) := by
  cases h <;> decide

theorem beNat_beBytes {k n : Nat} (h : n < 256 ^ k) : beNat (beBytes k n) = n := by
  have hrev : ∀ b : Bytes, beNat b.reverse = leNat b := fun b => by
    simp [beNat, leNat, List.foldl_reverse]
  rw [beBytes, hrev, leNat_leBytes k n h]

/-- Lists that differ in a middle part only. -/
theorem getD_middle {X M M' Y : Bytes} {i : Nat} (hlen : M.length = M'.length)
    (h : ∀ j < M.length, X.length + j = i → M.getD j 0 = M'.getD j 0) :
    (X ++ (M ++ Y)).getD i 0 = (X ++ (M' ++ Y)).getD i 0 := by
  by_cases h1 : i < X.length
  · rw [List.getD_append _ _ _ _ h1, List.getD_append _ _ _ _ h1]
  · have h1 : X.length ≤ i := Nat.le_of_not_lt h1
    rw [List.getD_append_right _ _ _ _ h1, List.getD_append_right _ _ _ _ h1]
    by_cases h2 : i - X.length < M.length
    · rw [List.getD_append _ _ _ _ h2, List.getD_append _ _ _ _ (hlen ▸ h2)]
      exact h _ h2 (Nat.add_sub_cancel' h1)
    · have h2 : M.length ≤ i - X.length := Nat.le_of_not_lt h2
      rw [List.getD_append_right _ _ _ _ h2, List.getD_append_right _ _ _ _ (hlen ▸ h2), hlen]

/-! ## A header copy -/

/-- What a header copy records. -/
structure Copy where
  size : Nat
  seq : Nat
  label : String
  alg : Hash
  salt : Bytes
  uuid : String
  subsystem : String
  text : Bytes

namespace Copy

variable (prim : Primitives) (ext : Parsers) (c : Copy)

structure Valid : Prop where
  size : HeaderSize c.size
  seq : c.seq < 2 ^ 64
  label : FitsField 48 (textBytes c.label)
  salt : c.salt.length = 64
  uuid : FitsField 40 (textBytes c.uuid)
  known : ext.uuid c.uuid = true
  subsystem : FitsField 48 (textBytes c.subsystem)
  text : FitsField (c.size - 4096) c.text

/-- The fields of the copy at `offset`, with the checksum `sum`. -/
def fields (offset : Nat) (sum : Bytes) : List Bytes :=
  [Metadata.magic offset, [0, 2], beBytes 8 c.size, beBytes 8 c.seq, padded 48 (textBytes c.label),
    padded 32 (textBytes c.alg.name), c.salt, padded 40 (textBytes c.uuid),
    padded 48 (textBytes c.subsystem),
    beBytes 8 offset, zeros 184, padded 64 sum, zeros 3584, padded (c.size - 4096) c.text]

def bytes (offset : Nat) (sum : Bytes) : Bytes := (c.fields offset sum).flatten

/-- The checksum of the copy, with its own field cleared. -/
def Sum (offset : Nat) (sum : Bytes) : Prop := prim.digest c.alg (c.bytes offset []) = some sum

/-- What is read from the copy, when its text is the JSON `v`. -/
def header (v : Value) : Metadata.Header := ⟨c.size, c.seq, c.uuid, c.label, c.subsystem, v⟩

section
variable {prim ext c} {offset : Nat} {sum : Bytes}

/-- Where each field begins. -/
theorem fields_lengths (h : c.Valid ext) (hsum : sum.length ≤ 64) :
    (c.fields offset sum).map List.length = [6, 2, 8, 8, 48, 32, 64, 40, 48, 8, 184, 64, 3584,
      c.size - 4096] := by
  have hmagic : (Metadata.magic offset).length = 6 := by
    unfold Metadata.magic
    split <;> rfl
  have hbe : ∀ n, (beBytes 8 n).length = 8 := fun n => by simp [beBytes]
  simp [fields, hmagic, hbe, h.salt, padded_length h.label.2.le, padded_length c.alg.name_fits.2.le,
    padded_length h.uuid.2.le, padded_length h.subsystem.2.le, padded_length hsum,
    padded_length h.text.2.le]

theorem bytes_length (h : c.Valid ext) (hsum : sum.length ≤ 64) :
    (c.bytes offset sum).length = c.size := by
  have hleast := h.size.least
  have htotal : ∀ n, [6, 2, 8, 8, 48, 32, 64, 40, 48, 8, 184, 64, 3584, n].sum = n + 4096 :=
    fun n => by
    simp only [List.sum_cons, List.sum_nil]
    omega
  rw [bytes, List.length_flatten, fields_lengths h hsum, htotal]
  exact Nat.sub_add_cancel (by omega)

/-- A store that holds a sequence of fields holds each of them behind the ones before it. -/
theorem slice_field {f : Store} {off n a : Nat} {fs : List Bytes} {x : Bytes}
    (hf : slice f off n = fs.flatten) (k : Nat) (hk : fs[k]? = some x)
    (ha : ((fs.map List.length).take k).sum = a) : slice f (off + a) x.length = x := by
  obtain ⟨hlt, rfl⟩ := List.getElem?_eq_some_iff.mp hk
  have hsplit : fs.flatten = (fs.take k).flatten ++ (fs[k] ++ (fs.drop (k + 1)).flatten) := by
    rw [← List.flatten_cons, List.getElem_cons_drop hlt, ← List.flatten_append,
      List.take_append_drop]
  have hlen := congrArg List.length (hf.trans hsplit)
  rw [slice_length, List.length_append, List.length_append] at hlen
  have hpart : ((slice f off n).drop (fs.take k).flatten.length).take fs[k].length = fs[k] := by
    rw [hf, hsplit, List.drop_left, List.take_left]
  rw [slice_drop_take _ _ (by omega), List.length_flatten, List.map_take, ha] at hpart
  exact hpart

/-- The fields of a copy in a store, by their offsets. -/
structure Written (f : Store) (off : Nat) (c : Copy) (sum : Bytes) : Prop where
  magic : slice f off 6 = Metadata.magic off
  version : slice f (off + 6) 2 = [0, 2]
  size : slice f (off + 8) 8 = beBytes 8 c.size
  seq : slice f (off + 16) 8 = beBytes 8 c.seq
  label : slice f (off + 24) 48 = padded 48 (textBytes c.label)
  alg : slice f (off + 72) 32 = padded 32 (textBytes c.alg.name)
  uuid : slice f (off + 168) 40 = padded 40 (textBytes c.uuid)
  subsystem : slice f (off + 208) 48 = padded 48 (textBytes c.subsystem)
  offset : slice f (off + 256) 8 = beBytes 8 off
  clean : slice f (off + 264) 184 = zeros 184
  sum : slice f (off + 448) 64 = padded 64 sum
  clean' : slice f (off + 512) 3584 = zeros 3584
  text : slice f (off + 4096) (c.size - 4096) = padded (c.size - 4096) c.text

theorem written {f : Store} {off : Nat} (h : c.Valid ext) (hsum : sum.length ≤ 64)
    (hf : slice f off c.size = c.bytes off sum) : Written f off c sum := by
  have hlens := @fields_lengths ext c off sum h hsum
  have hat : ∀ (k : Nat) {x : Bytes} {a n : Nat}, (c.fields off sum)[k]? = some x →
      ([6, 2, 8, 8, 48, 32, 64, 40, 48, 8, 184, 64, 3584, c.size - 4096].take k).sum = a →
      x.length = n → slice f (off + a) n = x := fun k x a n hk ha hn => by
    rw [← hlens] at ha
    rw [← hn]
    exact slice_field hf k hk ha
  have hmagic : (Metadata.magic off).length = 6 := by
    unfold Metadata.magic
    split <;> rfl
  have hbe : ∀ n, (beBytes 8 n).length = 8 := fun n => by simp [beBytes]
  constructor
  · exact hat 0 rfl rfl hmagic
  · exact hat 1 rfl rfl rfl
  · exact hat 2 rfl rfl (hbe _)
  · exact hat 3 rfl rfl (hbe _)
  · exact hat 4 rfl rfl (padded_length h.label.2.le)
  · exact hat 5 rfl rfl (padded_length c.alg.name_fits.2.le)
  · exact hat 7 rfl rfl (padded_length h.uuid.2.le)
  · exact hat 8 rfl rfl (padded_length h.subsystem.2.le)
  · exact hat 9 rfl rfl (hbe _)
  · exact hat 10 rfl rfl (zeros_length _)
  · exact hat 11 rfl rfl (padded_length hsum)
  · exact hat 12 rfl rfl (zeros_length _)
  · exact hat 13 rfl rfl (padded_length h.text.2.le)

theorem isPowerOfTwo_of {n k : Nat} (h : n = 2 ^ k) : Metadata.isPowerOfTwo n = true := by
  simp [Metadata.isPowerOfTwo, h]

theorem headerFixed_written {f : Store} {off : Nat} (h : c.Valid ext) (hw : Written f off c sum)
    (hoff : off = 0 ∨ off = c.size) :
    Metadata.headerFixed ext off (slice f off 4096) = .ok (c.size, c.alg, c.uuid) := by
  have hmost := h.size.most
  obtain ⟨k, hk⟩ := h.size.power
  have hsize : Metadata.sizeField (slice f off 4096) = c.size := by
    unfold Metadata.sizeField
    rw [slice_extract 8 16 (by decide), hw.size, beNat_beBytes (by omega)]
  rw [Metadata.headerFixed_ok_iff, hsize]
  refine ⟨⟨?_, ?_⟩, ⟨⟨h.size.least, hmost⟩, isPowerOfTwo_of hk⟩, ⟨?_, by rwa [hsize]⟩, ?_,
    ⟨c.alg.name, ?_, Hash.parse_name _⟩, ?_, h.known, rfl⟩
  · rw [slice_take 6 (by decide), hw.magic]
  · rw [slice_extract 6 8 (by decide), hw.version]
  · rw [slice_extract 256 264 (by decide), hw.offset, beNat_beBytes (by omega)]
  · rw [slice_extract 264 448 (by decide), slice_drop, hw.clean, hw.clean', List.any_append,
      any_zeros, any_zeros]
    rfl
  · rw [slice_extract 72 104 (by decide), hw.alg, cstr_padded c.alg.name_fits]
  · rw [slice_extract 168 208 (by decide), hw.uuid, cstr_padded h.uuid]

/-- A copy around its number and its checksum. -/
theorem bytes_split (c : Copy) (offset : Nat) (sum : Bytes) :
    c.bytes offset sum = ((c.fields offset []).take 3).flatten ++ (beBytes 8 c.seq ++
      ((((c.fields offset []).drop 4).take 7).flatten ++
        (padded 64 sum ++ ((c.fields offset []).drop 12).flatten))) := by
  simp [bytes, fields]

theorem split_lengths (h : c.Valid ext) : ((c.fields offset []).take 3).flatten.length = 16 ∧
    (((c.fields offset []).drop 4).take 7).flatten.length = 424 := by
  have hlens := @fields_lengths ext c offset [] h (by decide)
  constructor
  · rw [List.length_flatten, List.map_take, hlens]
    rfl
  · rw [List.length_flatten, List.map_take, List.map_drop, hlens]
    rfl

/-- Clearing the checksum field of a copy gives the bytes that the checksum is of. -/
theorem clearChecksum_bytes (h : c.Valid ext) (hsum : sum.length ≤ 64) :
    Metadata.clearChecksum (c.bytes offset sum) = c.bytes offset [] := by
  obtain ⟨hA, hB⟩ := @split_lengths ext c offset h
  have hpad : (padded 64 sum).length = 64 := padded_length hsum
  rw [bytes_split c offset sum, bytes_split c offset []]
  generalize ((c.fields offset []).take 3).flatten = A at hA ⊢
  generalize (((c.fields offset []).drop 4).take 7).flatten = B at hB ⊢
  have hfront : (A ++ (beBytes 8 c.seq ++ B)).length = 448 := by
    rw [List.length_append, List.length_append, hA, hB, beBytes, List.length_reverse,
      leBytes_length]
  have hassoc : ∀ r : Bytes, A ++ (beBytes 8 c.seq ++ (B ++ r)) = (A ++ (beBytes 8 c.seq ++ B)) ++
      r := fun r => by
    simp only [List.append_assoc]
  unfold Metadata.clearChecksum
  rw [hassoc, hassoc, ← hfront, List.take_left, List.append_assoc]
  congr 2
  rw [show 512 = (A ++ (beBytes 8 c.seq ++ B)).length + 64 by rw [hfront], ← List.drop_drop,
    List.drop_left, List.drop_left' hpad]

theorem headerData_written {f : Store} {off : Nat} {v : Value} (h : c.Valid ext)
    (hsum : c.Sum prim off sum) (hf : slice f off c.size = c.bytes off sum)
    (hv : parse ext.json c.text = .ok v) :
    Metadata.headerData prim ext (slice f off 4096) c.size c.alg c.uuid (slice f off c.size) =
    .ok (c.header v) := by
  have hleast := h.size.least
  have halg : c.alg.size ≤ 64 := by cases c.alg <;> decide
  have hlen : sum.length = c.alg.size := prim.digest_length _ _ _ hsum
  have hw := written h (by omega) hf
  have hstored : slice f (off + 448) c.alg.size = sum := by
    rw [← slice_take c.alg.size halg, hw.sum, ← hlen]
    exact List.take_left
  have hrest : slice f (off + (448 + c.alg.size)) (512 - (448 + c.alg.size)) =
      zeros (64 - sum.length) := by
    have : (slice f (off + 448) 64).drop sum.length = zeros (64 - sum.length) := by
      rw [hw.sum]
      exact List.drop_left
    rw [slice_drop, hlen] at this
    rw [hlen, ← this, Nat.add_assoc]
    congr 1
    omega
  unfold Metadata.headerData Hash.digest
  rw [slice_extract _ _ (by omega), hrest, any_zeros, failIf_neg (by decide), ok_bind, hf,
    clearChecksum_bytes h (by omega), hsum, ofOption_some, ok_bind, ← hf,
    slice_extract _ _ (by omega), Nat.add_sub_cancel_left, hstored,
    failIf_neg (by simp), ok_bind, slice_drop, hw.text, untilNul_padded h.text, ok_bind,
    slice_extract 24 72 (by decide), hw.label, cstr_padded h.label, ok_bind,
    slice_extract 208 256 (by decide),
    hw.subsystem, cstr_padded h.subsystem, ok_bind, hv, ok_bind,
    slice_extract 16 24 (by decide), hw.seq,
    beNat_beBytes h.seq]
  rfl

theorem headerOf_written {f : Store} {len off : Nat} {v : Value} (h : c.Valid ext)
    (hoff : off = 0 ∨ off = c.size) (hin : off + c.size ≤ len) (hsum : c.Sum prim off sum)
    (hf : slice f off c.size = c.bytes off sum)
    (hv : parse ext.json c.text = .ok v) :
    Metadata.headerOf prim ext f len off = .ok (c.header v) := by
  have hleast := h.size.least
  have halg : c.alg.size ≤ 64 := by cases c.alg <;> decide
  have hlen : sum.length = c.alg.size := prim.digest_length _ _ _ hsum
  unfold Metadata.headerOf
  rw [sliceOf_inside f (by omega), Outcome.mapErr, ok_bind,
    headerFixed_written h (written h (by omega) hf) hoff, ok_bind]
  dsimp only
  rw [sliceOf_inside f hin, Outcome.mapErr, ok_bind, headerData_written h hsum hf hv]

/-- **What is written is read.**  An image that begins with two copies of one header, each with
its checksum, is read as the metadata of their JSON. -/
theorem readOf_written {f : Store} {len : Nat} {sum' : Bytes} {v : Value} {m : Metadata}
    (h : c.Valid ext) (hsum : c.Sum prim 0 sum) (hsum' : c.Sum prim c.size sum')
    (hf : slice f 0 c.size = c.bytes 0 sum)
    (hf' : slice f c.size c.size = c.bytes c.size sum') (hv : parse ext.json c.text = .ok v)
    (hm : Metadata.fromJson ext v c.size len = .ok m) : Metadata.readOf prim ext f len = .ok m := by
  obtain ⟨size, areas, -, -, hlayout⟩ := Metadata.layout_of_fromJson hm
  have hbefore := hlayout.headers_before
  have hinside := hlayout.payload_inside
  have ha := @headerOf_written prim ext c _ f len _ v h (Or.inl rfl) (by omega) hsum hf hv
  have hb := @headerOf_written prim ext c _ f len _ v h (Or.inr rfl) (by omega) hsum' hf' hv
  simp only [Metadata.readOf, bind_eq_ok, Metadata.copiesAgree, failIf_eq_ok]
  exact ⟨_, ha, _, hb, (), by simp, hm⟩

end

end Copy

namespace Sample

/-- Primitives that keep the laws of the real ones: a checksum that depends on two bytes of a copy,
keys of zeros, and an XTS unit masked with its sector number. -/
def prim : Primitives where
  digest h b := some (List.replicate h.size (b.getD 23 0 + b.getD 264 0))
  pbkdf2 _ _ _ _ n := some (zeros n)
  argon2Params memory time cpus size := 1 ≤ cpus ∧ 1 ≤ time ∧ 8 * cpus ≤ memory ∧ 4 ≤ size
  argon2Reserve _ _ _ _ := true
  argon2 _ _ _ _ _ _ n := some (zeros n)
  overdue _ _ _ := false
  keyPage := true
  xts _ _ iv unit := some (unit.map (· ^^^ iv.headD 0))
  digest_length h b d hd := by
    obtain rfl := Option.some.inj hd
    exact List.length_replicate
  pbkdf2_length _ _ _ _ n k hk := by
    obtain rfl := Option.some.inj hk
    exact zeros_length n
  argon2_length _ _ _ _ _ _ n k hk := by
    obtain rfl := Option.some.inj hk
    exact zeros_length n

/-- The header of generation `seq`. -/
def copy (seq : Nat) : Copy where
  size := 16384
  seq := seq
  label := "root"
  alg := .sha256
  salt := zeros 64
  uuid := uuid
  subsystem := ""
  text := textBytes text

@[simp] theorem copy_size (seq : Nat) : (copy seq).size = 16384 := rfl

def sum (seq : Nat) : Bytes := List.replicate 32 (UInt8.ofNat seq)

theorem parse_text : parse parsers.json (textBytes text) = .ok json := by
  have hjson : parsers.json (textBytes text) = some doc := by
    simp only [parsers, if_true]
  have hdoc : (node 0 doc).isSome = true := by decide +kernel
  obtain ⟨v, hv⟩ := Option.isSome_iff_exists.mp hdoc
  unfold parse json
  rw [hjson, Option.bind_some, hv, ofOption_some, Option.getD_some]

theorem text_fits : FitsField (16384 - 4096) (textBytes text) := by decide +kernel

theorem copy_valid {seq : Nat} (h : seq < 2 ^ 64) : (copy seq).Valid parsers := by
  have hsize : HeaderSize 16384 := ⟨by decide, by decide, 14, rfl⟩
  have huuid : FitsField 40 (textBytes uuid) := by decide +kernel
  have hlabel : FitsField 48 (textBytes "root") := by decide +kernel
  have hnone : FitsField 48 (textBytes "") := by decide +kernel
  have hknown : parsers.uuid uuid = true := by decide
  exact ⟨hsize, h, hlabel, zeros_length 64, huuid, hknown, hnone, text_fits⟩

/-- An image of generation `seq`, with `rest` behind the header copies. -/
def store (seq : Nat) (rest : Store) : Store :=
  overlay (overlay rest 0 ((copy seq).bytes 0 (sum seq))) 16384 ((copy seq).bytes 16384 (sum seq))

theorem beBytes_last (n : Nat) : (beBytes 8 n).getD 7 0 = UInt8.ofNat n := by
  simp [beBytes, leBytes]

theorem copy_slice {seq : Nat} (h : seq < 2 ^ 64) (f : Store) (off : Nat) {sum : Bytes}
    (hsum : sum.length ≤ 64) :
    slice (overlay f off ((copy seq).bytes off sum)) off (copy seq).size = (copy seq).bytes
      off sum := by
  have hlen : ((copy seq).bytes off sum).length = (copy seq).size :=
    Copy.bytes_length (copy_valid h) hsum
  have hself := slice_overlay_self f off ((copy seq).bytes off sum)
  rwa [hlen] at hself

/-- The bytes of a copy that the examples look at. -/
structure Marked (b : Bytes) (seq : Nat) : Prop where
  number : b.getD 23 0 = UInt8.ofNat seq
  name : b.extract 72 104 = padded 32 (textBytes "sha256")
  padding : b.getD 264 0 = 0

theorem marked {seq : Nat} (h : seq < 2 ^ 64) (off : Nat) {sum : Bytes} (hsum : sum.length ≤ 64) :
    Marked ((copy seq).bytes off sum) seq ∧
    slice (fun p => ((copy seq).bytes off sum).getD p 0) 448 64 = padded 64 sum := by
  have hf := copy_slice h (fun _ => 0) off hsum
  have hw := Copy.written (copy_valid h) hsum hf
  generalize overlay (fun _ => 0) off ((copy seq).bytes off sum) = f at hf hw
  have hbyte : ∀ i < 16384, ((copy seq).bytes off sum).getD i 0 = f (off + i) := fun i hi => by
    rw [← hf, slice_getD f off _ i (by rw [copy_size]; exact hi)]
  refine ⟨⟨?_, ?_, ?_⟩, ?_⟩
  · have hlast := slice_getD f (off + 16) 8 7 (by decide)
    rw [hw.seq] at hlast
    exact (hbyte 23 (by decide)).trans (hlast.symm.trans (beBytes_last _))
  · rw [← hf, slice_extract 72 104 (by rw [copy_size]; decide)]
    exact hw.alg
  · have hfirst := slice_getD f (off + 264) 184 0 (by decide)
    rw [hw.clean] at hfirst
    exact (hbyte 264 (by decide)).trans hfirst.symm
  · rw [← hw.sum]
    refine slice_eq_slice_iff.mpr fun i hi => ?_
    rw [hbyte _ (by omega), Nat.add_assoc]

theorem copy_sum {seq : Nat} (h : seq < 2 ^ 64) (off : Nat) :
    (copy seq).Sum prim off (sum seq) := by
  obtain ⟨⟨h23, -, h264⟩, -⟩ := @marked seq h off [] (by decide)
  show some _ = some _
  rw [h23, h264, UInt8.add_zero]
  rfl

/-- The checksum field of a copy repeats the last byte of its number. -/
theorem checksum_byte {seq : Nat} (h : seq < 2 ^ 64) (off : Nat) {j : Nat} (hj : j < 32) :
    ((copy seq).bytes off (sum seq)).getD (448 + j) 0 = UInt8.ofNat seq := by
  have hsum := (@marked seq h off (sum seq) (by simp [sum])).2
  have hbyte := slice_getD (fun p => ((copy seq).bytes off (sum seq)).getD p 0) 448 64 j (by omega)
  rw [hsum, padded, List.getD_append _ _ _ _ (by simpa [sum] using hj), sum,
    List.getD_replicate _ hj] at hbyte
  exact hbyte.symm

/-- Two generations differ in the last byte of their numbers and in their checksums. -/
theorem bytes_agree (off : Nat) {i : Nat} (h23 : i ≠ 23) (hsum : ¬ (448 ≤ i ∧ i < 480)) :
    ((copy 1).bytes off (sum 1)).getD i 0 = ((copy 2).bytes off (sum 2)).getD i 0 := by
  have hfront : ((copy 2).fields off []).take 3 = ((copy 1).fields off []).take 3 := rfl
  have hmiddle : ((copy 2).fields off []).drop 4 = ((copy 1).fields off []).drop 4 := rfl
  have hback : ((copy 2).fields off []).drop 12 = ((copy 1).fields off []).drop 12 := rfl
  obtain ⟨hA, hB⟩ := @Copy.split_lengths parsers (copy 1) off (copy_valid (by decide))
  rw [Copy.bytes_split (copy 1), Copy.bytes_split (copy 2), hfront, hmiddle, hback]
  generalize (((copy 1).fields off []).take 3).flatten = A at hA ⊢
  generalize ((((copy 1).fields off []).drop 4).take 7).flatten = B at hB ⊢
  generalize (((copy 1).fields off []).drop 12).flatten = C
  have hseq : ∀ j < 8, j ≠ 7 → (beBytes 8 1).getD j 0 = (beBytes 8 2).getD j 0 := by decide
  have hpad : ∀ j < 64, ¬ j < 32 →
      (padded 64 (sum 1)).getD j 0 = (padded 64 (sum 2)).getD j 0 := by decide
  have h1 := @getD_middle A (beBytes 8 1) (beBytes 8 2) (B ++ (padded 64 (sum 1) ++ C)) i rfl
    fun j hj he => hseq j hj (by omega)
  have h2 := @getD_middle (A ++ (beBytes 8 2 ++ B)) (padded 64 (sum 1)) (padded 64 (sum 2)) C i rfl
    fun j hj he =>
    hpad j hj (by
      have hlen : (beBytes 8 2).length = 8 := rfl
      rw [List.length_append, List.length_append] at he
      omega)
  simp only [List.append_assoc] at h2
  exact h1.trans h2

theorem store_first {seq : Nat} (h : seq < 2 ^ 64) (rest : Store) :
    slice (store seq rest) 0 (copy seq).size = (copy seq).bytes 0 (sum seq) := by
  have hsum : (sum seq).length ≤ 64 := by simp [sum]
  rw [store, slice_overlay_disjoint _ _ _ (Or.inl (by simp)), copy_slice h rest 0 hsum]

theorem store_second {seq : Nat} (h : seq < 2 ^ 64) (rest : Store) :
    slice (store seq rest) (copy seq).size (copy seq).size = (copy seq).bytes (copy seq).size
      (sum seq) :=
  copy_slice h _ (copy seq).size (by simp [sum])

theorem headerOf_store {seq : Nat} (h : seq < 2 ^ 64) (rest : Store) :
    Metadata.headerOf prim parsers (store seq rest) imageLen 0 = .ok ((copy seq).header json) :=
  Copy.headerOf_written (copy_valid h) (Or.inl rfl) (by rw [copy_size]; decide) (copy_sum h 0)
    (store_first h rest) parse_text

theorem readOf_store {seq : Nat} (h : seq < 2 ^ 64) (rest : Store) :
    Metadata.readOf prim parsers (store seq rest) imageLen = .ok metadata :=
  Copy.readOf_written (copy_valid h) (copy_sum h 0) (copy_sum h _) (store_first h rest)
    (store_second h rest) parse_text fromJson_json

def image (mode : AccessMode) : Image := ⟨imageLen, mode, by decide⟩

/-- A disk with the content `f`, all of it durable, on a machine where every call succeeds. -/
def disk (f : Store) : Disk := ⟨⟨imageLen, f, f, []⟩, [], []⟩

theorem disk_steady (f : Store) : (disk f).Steady imageLen := ⟨rfl, nofun⟩

theorem read_store {seq : Nat} (h : seq < 2 ^ 64) (rest : Store) (mode : AccessMode) :
    ∃ d', Metadata.read prim parsers (image mode) (disk (store seq rest)) = (.ok metadata, d') := by
  have hcomp := Metadata.computes_read prim parsers (image mode) (disk (store seq rest)).file
  obtain ⟨hok, -, -⟩ := hcomp.steady (Metadata.steadily_read prim parsers (image mode))
    (disk_steady _) rfl
  exact ⟨_, Prod.ext (hok.trans (readOf_store h rest)) rfl⟩

end Sample

end Winluks
