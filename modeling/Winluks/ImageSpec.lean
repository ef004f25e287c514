import Winluks.Image

/-!
# What the transfer loops do to the file

`Call.failed` is a failed backend step: an error other than an interruption, a
transfer of no byte, a file length other than the one the image was opened
with, a failed sync.  `Ends` ties the way a program ends to the calls it made:
it succeeds exactly when no call failed, unwound or was cut short.

`readExactAt_spec` and `writeAllAt_spec` are the two facts the volume layer
uses: a read that succeeds returns the bytes of the file, a write touches only
its own range, and a write that succeeds is the whole overlay.
-/

namespace Winluks

open Lib

namespace Call

/-- The call ends its operation with an error.  A transfer that was interrupted does not, since it
is made again; a query for the length is not, and an interrupted one counts as failed. -/
def failed (len : Nat) : Call → Bool
  | .metadata (.ok n) => n ≠ len
  | .metadata (.err _) => true
  | .read _ _ (.ok n) => n = 0
  | .read _ _ (.err k) => k = .other
  | .write _ _ (.ok n) => n = 0
  | .write _ _ (.err k) => k = .other
  | .sync (.err _) => true
  | _ => false

def panicked : Call → Bool
  | .metadata .panic => true
  | .read _ _ .panic => true
  | .write _ _ .panic => true
  | .sync .panic => true
  | _ => false

def halted : Call → Bool
  | .metadata .halt => true
  | .read _ _ .halt => true
  | .write _ _ .halt => true
  | .sync .halt => true
  | _ => false

/-- The call may change what the file holds. -/
def mutates : Call → Bool
  | .write .. => true
  | .sync _ => true
  | _ => false

/-- No failure, no unwinding, no stop. -/
def Good (len : Nat) (c : Call) : Prop :=
  c.failed len = false ∧ c.panicked = false ∧ c.halted = false

end Call

/-- A program that made the calls `new` ends the way they did. -/
def Ends {ε α : Type} (len : Nat) (o : Outcome ε α) (new : List Call) : Prop :=
  match o with
  | .ok _ => ∀ c ∈ new, c.Good len
  | .err _ => ∃ c ∈ new, c.failed len = true
  | .panic => ∃ c ∈ new, c.panicked = true
  | .halt => ∃ c ∈ new, c.halted = true

section
variable {ε ε' α β : Type} {len : Nat} {new new' : List Call}

theorem ends_pure (a : α) : Ends len (.ok a : Outcome ε α) [] := by
  intro c hc
  cases hc

/-- A good beginning does not change how the rest ends. -/
theorem ends_append {o : Outcome ε α} (h : ∀ c ∈ new, c.Good len) (h' : Ends len o new') :
    Ends len o (new ++ new') := by
  cases o with
  | ok a =>
    intro c hc
    rcases List.mem_append.mp hc with hc | hc
    · exact h c hc
    · exact h' c hc
  | err e => obtain ⟨c, hc, hf⟩ := h'; exact ⟨c, List.mem_append_right _ hc, hf⟩
  | panic => obtain ⟨c, hc, hf⟩ := h'; exact ⟨c, List.mem_append_right _ hc, hf⟩
  | halt => obtain ⟨c, hc, hf⟩ := h'; exact ⟨c, List.mem_append_right _ hc, hf⟩

theorem ends_cons {o : Outcome ε α} {c : Call} (h : c.Good len) (h' : Ends len o new') :
    Ends len o (c :: new') := by
  have hs : ∀ d ∈ [c], d.Good len := by simpa using h
  exact ends_append hs h'

/-- Only a call that went wrong keeps a program from succeeding. -/
theorem Ends.ok_of_good {o : Outcome ε α} (h : Ends len o new) (hg : ∀ c ∈ new, c.Good len) :
    ∃ a, o = .ok a := by
  cases o with
  | ok a => exact ⟨a, rfl⟩
  | err e => obtain ⟨c, hc, hf⟩ := h; rw [(hg c hc).1] at hf; cases hf
  | panic => obtain ⟨c, hc, hf⟩ := h; rw [(hg c hc).2.1] at hf; cases hf
  | halt => obtain ⟨c, hc, hf⟩ := h; rw [(hg c hc).2.2] at hf; cases hf

end

/-! ## What may change in the file -/

/-- Only bytes at positions in `W` differ, and none of them is synced. -/
structure File.Touches (W : Nat → Prop) (f f' : File) : Prop where
  size : f'.size = f.size
  data : ∀ p, ¬ W p → f'.data p = f.data p
  durable : f'.durable = f.durable
  unsynced : ∀ e ∈ f'.unsynced, e ∈ f.unsynced ∨ W e.1

section
variable {W : Nat → Prop} {f f' f'' : File}

theorem touches_refl (f : File) : f.Touches W f :=
  ⟨rfl, fun _ _ => rfl, rfl, fun _ h => Or.inl h⟩

theorem touches_trans (h : f.Touches W f') (h' : f'.Touches W f'') : f.Touches W f'' where
  size := h'.size.trans h.size
  data p hp := (h'.data p hp).trans (h.data p hp)
  durable := h'.durable.trans h.durable
  unsynced e he := by
    rcases h'.unsynced e he with he | he
    · exact h.unsynced e he
    · exact Or.inr he

/-- A write inside `W` and inside the file touches only `W`. -/
theorem touches_write {o : Nat} {bs : Bytes} (hW : ∀ p, o ≤ p → p < o + bs.length → W p)
    (hsize : o + bs.length ≤ f.size) : f.Touches W (f.write o bs) where
  size := by simp [File.write, hsize]
  data p hp := overlay_of_not_mem _ _ _ fun ⟨h1, h2⟩ => hp (hW p h1 h2)
  durable := rfl
  unsynced e he := by
    rcases List.mem_append.mp he with he | he
    · exact Or.inl he
    · obtain ⟨x, hx, rfl⟩ := List.mem_map.mp he
      have hlt : x.2 < bs.length := by
        have := List.snd_lt_of_mem_zipIdx hx
        omega
      exact Or.inr (hW _ (by simp) (by simpa using hlt))

end

/-- A program that only read: it left the file as it was and made the calls `new`. -/
structure ReadsOnly {α : Type} (len : Nat) (d : Disk) (o : Outcome Error α) (d' : Disk)
    (new : List Call) : Prop where
  file : d'.file = d.file
  calls : d'.calls = d.calls ++ new
  still : ∀ c ∈ new, c.mutates = false
  ends : Ends len o new

/-- A program that may have written in `W`, and made the calls `new`. -/
structure WritesIn {α : Type} (W : Nat → Prop) (len : Nat) (d : Disk)
    (o : Outcome Error α) (d' : Disk) (new : List Call) : Prop where
  touches : d.file.Touches W d'.file
  calls : d'.calls = d.calls ++ new
  ends : Ends len o new

section
variable {α : Type} {W : Nat → Prop} {len : Nat} {d d₁ d' : Disk} {o : Outcome Error α} {c : Call}
  {new : List Call}

theorem ReadsOnly.nil (a : α) : ReadsOnly len d (.ok a) d [] :=
  ⟨rfl, by simp, by simp, ends_pure a⟩

theorem ReadsOnly.last (hf : d'.file = d.file) (hc : d'.calls = d.calls ++ [c])
    (hm : c.mutates = false) (he : Ends len o [c]) : ReadsOnly len d o d' [c] :=
  ⟨hf, hc, by simpa using hm, he⟩

theorem ReadsOnly.cons (hf : d₁.file = d.file) (hc : d₁.calls = d.calls ++ [c])
    (hm : c.mutates = false) (hg : c.Good len) (h : ReadsOnly len d₁ o d' new) :
    ReadsOnly len d o d' (c :: new) where
  file := h.file.trans hf
  calls := by rw [h.calls, hc, List.append_assoc]; rfl
  still := by simpa [hm] using h.still
  ends := ends_cons hg h.ends

theorem WritesIn.last (ht : d.file.Touches W d'.file) (hc : d'.calls = d.calls ++ [c])
    (he : Ends len o [c]) : WritesIn W len d o d' [c] :=
  ⟨ht, hc, he⟩

theorem WritesIn.cons (ht : d.file.Touches W d₁.file) (hc : d₁.calls = d.calls ++ [c])
    (hg : c.Good len) (h : WritesIn W len d₁ o d' new) : WritesIn W len d o d' (c :: new) where
  touches := touches_trans ht h.touches
  calls := by rw [h.calls, hc, List.append_assoc]; rfl
  ends := ends_cons hg h.ends

end

/-! ## Single calls -/

theorem fileLen_spec {d d' : Disk} {o : Outcome ErrorKind Nat} (h : fileLen d = (o, d')) :
    d'.file = d.file ∧ d'.calls = d.calls ++ [.metadata o] := by
  simp only [fileLen, Disk.log] at h
  split at h <;> cases h <;> exact ⟨rfl, rfl⟩

theorem readOnce_spec {off n : Nat} {d d' : Disk} {o : Outcome ErrorKind Bytes}
    (h : readOnce off n d = (o, d')) :
    d'.file = d.file ∧
    (∃ r, d'.calls = d.calls ++ [.read off n r] ∧
      match o with
      | .ok bs => r = .ok bs.length
      | .err k => r = .err k
      | .panic => r = .panic
      | .halt => r = .halt) ∧
    ∀ bs, o = .ok bs → ∃ k ≤ n, bs = slice d.file.data off k := by
  simp only [readOnce, Disk.log] at h
  split at h <;> cases h
  · exact ⟨rfl, ⟨_, rfl, rfl⟩, by rintro bs ⟨⟩; exact ⟨_, by omega, rfl⟩⟩
  · exact ⟨rfl, ⟨_, rfl, rfl⟩, by rintro bs ⟨⟩; exact ⟨_, by omega, rfl⟩⟩
  all_goals exact ⟨rfl, ⟨_, rfl, rfl⟩, by rintro bs ⟨⟩⟩

theorem writeOnce_spec {off : Nat} {buf : Bytes} {d d' : Disk} {o : Outcome ErrorKind Nat}
    (h : writeOnce off buf d = (o, d')) :
    d'.calls = d.calls ++ [.write off buf.length o] ∧
    ∃ bs, bs.length ≤ buf.length ∧ d'.file = d.file.write off bs ∧
      ∀ n, o = .ok n → n ≤ buf.length ∧ bs = buf.take n := by
  simp only [writeOnce, Disk.log] at h
  split at h <;> cases h
  · refine ⟨rfl, _, List.length_take_le' _ _, rfl, ?_⟩
    rintro n ⟨⟩
    exact ⟨by omega, by rw [List.take_eq_take_iff]; omega⟩
  · exact ⟨rfl, buf, Nat.le_refl _, rfl, by rintro n ⟨⟩; exact ⟨Nat.le_refl _, by simp⟩⟩
  all_goals exact ⟨rfl, _, List.length_take_le _ _, rfl, by rintro n ⟨⟩⟩

theorem syncAll_spec {d d' : Disk} {o : Outcome ErrorKind Unit} (h : syncAll d = (o, d')) :
    d'.calls = d.calls ++ [.sync o] ∧ (o = .ok () → d'.file = d.file.sync) ∧
    (o ≠ .ok () → d'.file = d.file) := by
  simp only [syncAll, Disk.log] at h
  split at h <;> cases h
  case h_4 => exact ⟨rfl, fun _ => rfl, fun hk => absurd rfl hk⟩
  all_goals exact ⟨rfl, by rintro ⟨⟩, fun _ => rfl⟩

/-! ## The loops -/

theorem readLoop_eq (off size : Nat) (got : Bytes) (d : Disk) :
    readLoop off size got d = if got.length < size then
      match readOnce (off + got.length) (size - got.length) d with
      | (.err .interrupted, d') => readLoop off size got d'
      | (.err .other, d') => (.err .backendIo, d')
      | (.ok [], d') => (.err .backendIo, d')
      | (.ok (b :: bs), d') => readLoop off size (got ++ b :: bs) d'
      | (.panic, d') => (.panic, d')
      | (.halt, d') => (.halt, d')
    else (.ok got, d) := by
  rw [readLoop]
  split
  · split <;> simp [*]
  · rfl

theorem writeLoop_eq (off : Nat) (buf : Bytes) (done : Nat) (d : Disk) :
    writeLoop off buf done d = if done < buf.length then
      match writeOnce (off + done) (buf.drop done) d with
      | (.err .interrupted, d') => writeLoop off buf done d'
      | (.err .other, d') => (.err .backendIo, d')
      | (.ok 0, d') => (.err .backendIo, d')
      | (.ok (n + 1), d') => writeLoop off buf (done + (n + 1)) d'
      | (.panic, d') => (.panic, d')
      | (.halt, d') => (.halt, d')
    else (.ok (), d) := by
  rw [writeLoop]
  split
  · split <;> simp [*]
  · rfl

/-- **Reads return the file.**  The loop changes nothing, and what it returns
continues the part already read by the bytes of the file. -/
theorem readLoop_spec (len off size : Nat) (got : Bytes) (d : Disk) (hlen : got.length ≤ size)
    (hgot : got = slice d.file.data off got.length) :
    ∃ new, ReadsOnly len d (readLoop off size got d).1 (readLoop off size got d).2 new ∧
      ∀ bs, (readLoop off size got d).1 = .ok bs → bs = slice d.file.data off size := by
  induction got, d using readLoop.induct off size with
  | case1 got d hlt d' hro ih =>
    rw [readLoop_eq, if_pos hlt, hro]
    obtain ⟨hf, ⟨r, hc, hr⟩, -⟩ := readOnce_spec hro
    obtain ⟨new, h, hbs⟩ := ih hlen (by rw [hf]; exact hgot)
    rw [hf] at hbs
    exact ⟨_, h.cons hf hc rfl (by rw [hr]; exact ⟨rfl, rfl, rfl⟩), hbs⟩
  | case4 got d hlt b bs d' hro ih =>
    rw [readLoop_eq, if_pos hlt, hro]
    obtain ⟨hf, ⟨r, hc, hr⟩, hbs⟩ := readOnce_spec hro
    obtain ⟨k, hk, hb⟩ := hbs _ rfl
    have hl : (b :: bs).length = k := by rw [hb, slice_length]
    have hnext : got ++ b :: bs = slice d.file.data off (got ++ b :: bs).length := by
      rw [List.length_append, hl, slice_add, ← hb, ← hgot]
    obtain ⟨new, h, hbs⟩ := ih (by rw [List.length_append, hl]; omega) (by rw [hf]; exact hnext)
    rw [hf] at hbs
    exact ⟨_, h.cons hf hc rfl (by rw [hr]; exact ⟨rfl, rfl, rfl⟩), hbs⟩
  | case7 got d hge =>
    rw [readLoop_eq, if_neg hge]
    refine ⟨[], .nil got, ?_⟩
    rintro bs ⟨⟩
    rwa [show got.length = size by omega] at hgot
  | _ got d hlt d' hro =>
    rw [readLoop_eq, if_pos hlt, hro]
    obtain ⟨hf, ⟨r, hc, hr⟩, -⟩ := readOnce_spec hro
    exact ⟨_, .last hf hc rfl ⟨_, List.mem_singleton_self _, by rw [hr]; rfl⟩, by rintro bs ⟨⟩⟩

/-- **Writes stay in their range.**  The loop touches only the part of the
range still to be written, and when it succeeds that part holds `buf`. -/
theorem writeLoop_spec (len off : Nat) (buf : Bytes) (done : Nat) (d : Disk)
    (hsize : off + buf.length ≤ d.file.size) :
    ∃ new, WritesIn (fun p => off ≤ p ∧ p < off + buf.length) len d (writeLoop off buf done d).1
        (writeLoop off buf done d).2 new ∧
      ((writeLoop off buf done d).1 = .ok () →
        (writeLoop off buf done d).2.file.data = overlay d.file.data (off + done)
        (buf.drop done)) := by
  have inside : ∀ {k : Nat} {bs : Bytes} {e e' : Disk}, k < buf.length →
      bs.length ≤ (buf.drop k).length →
      off + buf.length ≤ e.file.size → e'.file = e.file.write (off + k) bs →
      e.file.Touches (fun p => off ≤ p ∧ p < off + buf.length) e'.file := by
    intro k bs e e' hk hb he hf
    rw [List.length_drop] at hb
    rw [hf]
    exact touches_write (fun p h1 h2 => ⟨by omega, by omega⟩) (by omega)
  induction done, d using writeLoop.induct off buf with
  | case1 done d hlt d' hwo ih =>
    rw [writeLoop_eq, if_pos hlt, hwo]
    obtain ⟨hc, bs, hb, hf, -⟩ := writeOnce_spec hwo
    have ht := inside hlt hb hsize hf
    obtain ⟨new, h, hdata⟩ := ih (by rw [ht.size]; exact hsize)
    refine ⟨_, h.cons ht hc ⟨rfl, rfl, rfl⟩, fun ho => ?_⟩
    -- what the interrupted call left is written over
    rw [hdata ho, hf]
    exact overlay_overlay_of_le _ _ _ _ hb
  | case4 done d hlt n d' hwo ih =>
    rw [writeLoop_eq, if_pos hlt, hwo]
    obtain ⟨hc, bs, hb, hf, hn⟩ := writeOnce_spec hwo
    obtain ⟨hle, hbs⟩ := hn _ rfl
    have ht := inside hlt hb hsize hf
    obtain ⟨new, h, hdata⟩ := ih (by rw [ht.size]; exact hsize)
    refine ⟨_, h.cons ht hc ⟨rfl, rfl, rfl⟩, fun ho => ?_⟩
    have hl : bs.length = n + 1 := by rw [hbs, List.length_take]; omega
    have hjoin : bs ++ buf.drop (done + (n + 1)) = buf.drop done := by
      rw [hbs, ← List.drop_drop, List.take_append_drop]
    rw [hdata ho, hf]
    show overlay (overlay d.file.data (off + done) bs) _ _ = _
    rw [← hjoin, ← overlay_append, hl, Nat.add_assoc]
  | case7 done d hge =>
    rw [writeLoop_eq, if_neg hge]
    refine ⟨[], ⟨touches_refl _, by simp, ends_pure _⟩, fun _ => ?_⟩
    rw [List.drop_eq_nil_of_le (by omega), overlay_nil]
  | _ done d hlt d' hwo =>
    rw [writeLoop_eq, if_pos hlt, hwo]
    obtain ⟨hc, bs, hb, hf, -⟩ := writeOnce_spec hwo
    exact ⟨_, .last (inside hlt hb hsize hf) hc ⟨_, List.mem_singleton_self _, rfl⟩, by rintro ⟨⟩⟩

/-! ## The image -/

/-- The way a program ended decides whether it went on. -/
theorem ReadsOnly.bind {α β : Type} {len : Nat} {m : Run Disk Error α} {f : α → Run Disk Error β}
    {d : Disk} (hm : ∃ new, ReadsOnly len d (m d).1 (m d).2 new)
    (hf : ∀ a d', m d = (.ok a, d') → ∃ new, ReadsOnly len d' (f a d').1 (f a d').2 new) :
    ∃ new, ReadsOnly len d ((m >>= f) d).1 ((m >>= f) d).2 new := by
  obtain ⟨new, h⟩ := hm
  obtain ⟨a, d', hmd, hr⟩ | ⟨e, d', hmd, hr⟩ | ⟨d', hmd, hr⟩ | ⟨d', hmd, hr⟩ :=
    Run.bind_cases m f d <;>
    rw [hmd] at h <;> rw [hr]
  · obtain ⟨new', h'⟩ := hf a d' hmd
    refine ⟨new ++ new', h'.file.trans h.file, ?_, ?_, ends_append h.ends h'.ends⟩
    · rw [h'.calls, h.calls, List.append_assoc]
    · intro c hc
      rcases List.mem_append.mp hc with hc | hc
      · exact h.still c hc
      · exact h'.still c hc
  all_goals exact ⟨new, h.file, h.calls, h.still, h.ends⟩

/-- What was learnt from a successful first step holds of the rest. -/
theorem WritesIn.after {α : Type} {W : Nat → Prop} {len : Nat} {d d₁ d' : Disk} {u : Unit}
    {o : Outcome Error α} {new new' : List Call} (h : ReadsOnly len d (.ok u) d₁ new)
    (h' : WritesIn W len d₁ o d' new') : WritesIn W len d o d' (new ++ new') where
  touches := h.file ▸ h'.touches
  calls := by rw [h'.calls, h.calls, List.append_assoc]
  ends := ends_append h.ends h'.ends

namespace Image

variable (img : Image) (off : Nat) (d : Disk)

theorem checkLen_spec : ∃ new, ReadsOnly img.len d (img.checkLen d).1 (img.checkLen d).2 new := by
  unfold checkLen
  rw [Run.bind_run]
  unfold Run.mapErr
  rcases h : fileLen d with ⟨o, d'⟩
  obtain ⟨hf, hc⟩ := fileLen_spec h
  cases o with
  | ok n =>
    refine ⟨_, .last hf hc rfl ?_⟩
    by_cases hn : n = img.len
    · simp [Outcome.mapErr, hn, Ends, Call.Good, Call.failed, Call.panicked, Call.halted]
    · simp [Outcome.mapErr, hn, Ends, Call.failed]
  | err k => exact ⟨_, .last hf hc rfl ⟨_, List.mem_singleton_self _, rfl⟩⟩
  | panic => exact ⟨_, .last hf hc rfl ⟨_, List.mem_singleton_self _, rfl⟩⟩
  | halt => exact ⟨_, .last hf hc rfl ⟨_, List.mem_singleton_self _, rfl⟩⟩

theorem checkLen_file : (img.checkLen d).2.file = d.file := by
  obtain ⟨new, h⟩ := img.checkLen_spec d
  exact h.file

/-- Out of range, nothing reaches the operating system. -/
theorem readExactAt_out {size : Nat} (h : ¬ off + size ≤ img.len) :
    img.readExactAt off size d = (.err .invalidRange, d) := by
  unfold readExactAt
  rw [Outcome.failIf_pos (by omega)]
  rfl

theorem readExactAt_in {size : Nat} (h : off + size ≤ img.len) :
    img.readExactAt off size d = (img.checkLen >>= fun _ => readLoop off size []) d := by
  unfold readExactAt
  rw [Outcome.failIf_neg (by omega)]
  rfl

/-- **Reading.**  In range, `read_exact_at` leaves the file alone, and fails only when a call
does. -/
theorem readExactAt_spec {size : Nat} (h : off + size ≤ img.len) :
    ∃ new, ReadsOnly img.len d (img.readExactAt off size d).1 (img.readExactAt off size d).2
      new := by
  rw [readExactAt_in img off d h]
  refine ReadsOnly.bind (img.checkLen_spec d) fun _ d' _ => ?_
  obtain ⟨new, hr, -⟩ := readLoop_spec img.len off size [] d' (by simp) (by simp)
  exact ⟨new, hr⟩

/-- What `read_exact_at` returns is the part of the file it was asked for. -/
theorem readExactAt_ok {size : Nat} {bs : Bytes} {d' : Disk}
    (h : img.readExactAt off size d = (.ok bs, d')) :
    off + size ≤ img.len ∧ d'.file = d.file ∧ bs = slice d.file.data off size := by
  by_cases hin : off + size ≤ img.len
  · obtain ⟨new, hr⟩ := img.readExactAt_spec off d hin
    rw [h] at hr
    refine ⟨hin, hr.file, ?_⟩
    rw [readExactAt_in img off d hin, Run.bind_run_eq_ok] at h
    obtain ⟨u, d₁, hcl, hl⟩ := h
    obtain ⟨new₁, hr₁⟩ := img.checkLen_spec d
    rw [hcl] at hr₁
    obtain ⟨new₂, -, hbs⟩ := readLoop_spec img.len off size [] d₁ (by simp) (by simp)
    rw [hl, hr₁.file] at hbs
    exact hbs bs rfl
  · rw [readExactAt_out img off d hin] at h
    cases h

/-- **Writing.**  In range and in a writable session, `write_all_at` touches only its
range, fails only when a call does, and otherwise leaves `buf` there. -/
theorem writeAllAt_spec (buf : Bytes) (hmode : img.mode = .readWrite)
    (h : off + buf.length ≤ img.len) (hsize : d.file.size = img.len) :
    ∃ new, WritesIn (fun p => off ≤ p ∧ p < off + buf.length) img.len d (img.writeAllAt off buf d).1
        (img.writeAllAt off buf d).2 new ∧
      ((img.writeAllAt off buf d).1 = .ok () →
        (img.writeAllAt off buf d).2.file.data = overlay d.file.data off buf) := by
  have heq : img.writeAllAt off buf d = (img.checkLen >>= fun _ => writeLoop off buf 0) d := by
    unfold writeAllAt
    rw [Outcome.failIf_neg (by simp [hmode]), Outcome.failIf_neg (by omega)]
    rfl
  obtain ⟨new, hc⟩ := img.checkLen_spec d
  rw [heq]
  obtain ⟨a, d₁, hcd, hr⟩ | ⟨e, d₁, hcd, hr⟩ | ⟨d₁, hcd, hr⟩ | ⟨d₁, hcd, hr⟩ :=
    Run.bind_cases img.checkLen (fun _ => writeLoop off buf 0) d <;> rw [hcd] at hc <;> rw [hr]
  · obtain ⟨new', hw, hdata⟩ := writeLoop_spec img.len off buf 0 d₁
      (by rw [hc.file, hsize]; exact h)
    refine ⟨_, .after hc hw, fun ho => ?_⟩
    rw [hdata ho, hc.file]
    simp
  all_goals exact ⟨new, ⟨hc.file ▸ touches_refl _, hc.calls, hc.ends⟩, by rintro ⟨⟩⟩

/-- A program that writes in `W` and then syncs.  Success makes everything durable;
any other end leaves what was durable as it was. -/
structure Commits (W : Nat → Prop) (len : Nat) (d : Disk) (o : Outcome Error Unit) (d' : Disk)
    (new : List Call) : Prop where
  size : d'.file.size = d.file.size
  data : ∀ p, ¬ W p → d'.file.data p = d.file.data p
  calls : d'.calls = d.calls ++ new
  ends : Ends len o new
  acked : o = .ok () → d'.file.durable = d'.file.data ∧ d'.file.unsynced = []
  synced : o = .ok () → ∃ pre, new = pre ++ [.sync (.ok ())]
  torn : o ≠ .ok () → d'.file.durable = d.file.durable ∧
    ∀ e ∈ d'.file.unsynced, e ∈ d.file.unsynced ∨ W e.1

/-- **Syncing.**  A sync that succeeds makes the file durable; it never changes what reads
return. -/
theorem sync_spec (hmode : img.mode = .readWrite) :
    ∃ new, Commits (fun _ => False) img.len d (img.sync d).1 (img.sync d).2 new := by
  have heq : img.sync = (img.checkLen >>= fun _ => syncAll.mapErr fun _ => .backendIo) := by
    unfold sync
    rw [if_pos hmode]
  -- an end that changes nothing in the file
  have still : ∀ (o : Outcome Error Unit) d' new, o ≠ .ok () → d'.file = d.file →
      d'.calls = d.calls ++ new →
      Ends img.len o new → Commits (fun _ => False) img.len d o d' new :=
      fun o d' new ho hf hc he =>
    ⟨by rw [hf], fun _ _ => by rw [hf], hc, he, fun hk => absurd hk ho, fun hk => absurd hk ho,
      fun _ => ⟨by rw [hf], fun e he => Or.inl (hf ▸ he)⟩⟩
  obtain ⟨new, hc⟩ := img.checkLen_spec d
  rw [heq]
  obtain ⟨a, d₁, hcd, hr⟩ | ⟨e, d₁, hcd, hr⟩ | ⟨d₁, hcd, hr⟩ | ⟨d₁, hcd, hr⟩ :=
    Run.bind_cases img.checkLen (fun _ => syncAll.mapErr fun _ => .backendIo) d <;>
    rw [hcd] at hc <;> rw [hr]
  · rcases hs : syncAll d₁ with ⟨o, d₂⟩
    obtain ⟨hcalls, hok, hno⟩ := syncAll_spec hs
    have hall : d₂.calls = d.calls ++ (new ++ [.sync o]) := by
      rw [hcalls, hc.calls, List.append_assoc]
    have hrun : syncAll.mapErr (fun _ => Error.backendIo) d₁ =
        (o.mapErr fun _ => .backendIo, d₂) := by
      simp [Run.mapErr, hs]
    rw [hrun]
    refine ⟨new ++ [.sync o], ?_⟩
    cases o with
    | ok u =>
      have hf := hok rfl
      rw [hc.file] at hf
      refine ⟨by rw [hf]; rfl, fun _ _ => by rw [hf]; rfl, hall, ends_append hc.ends ?_,
        fun _ => by rw [hf]; exact ⟨rfl, rfl⟩, fun _ => ⟨new, rfl⟩, fun hk => absurd rfl hk⟩
      simp [Outcome.mapErr, Ends, Call.Good, Call.failed, Call.panicked, Call.halted]
    | _ =>
      refine still _ _ _ (by rintro ⟨⟩) ((hno (by rintro ⟨⟩)).trans hc.file) hall ?_
      exact ends_append hc.ends ⟨_, List.mem_singleton_self _, rfl⟩
  all_goals exact ⟨new, still _ _ _ (by rintro ⟨⟩) hc.file hc.calls hc.ends⟩

/-- In a read-only session a sync only asks for the length of the file. -/
theorem sync_readOnly_spec (hmode : img.mode = .readOnly) :
    ∃ new, ReadsOnly img.len d (img.sync d).1 (img.sync d).2 new := by
  unfold sync
  rw [if_neg (by simp [hmode])]
  exact ReadsOnly.bind (img.checkLen_spec d) fun u d' _ => ⟨[], .nil u⟩

/-- **A write and its sync.**  Both succeed, or the write is not acknowledged. -/
theorem writeAllAt_sync_spec (buf : Bytes) (hmode : img.mode = .readWrite)
    (h : off + buf.length ≤ img.len) (hsize : d.file.size = img.len) :
    ∃ new, Commits (fun p => off ≤ p ∧ p < off + buf.length) img.len d
        ((img.writeAllAt off buf >>= fun _ => img.sync) d).1
        ((img.writeAllAt off buf >>= fun _ => img.sync) d).2 new ∧
      (((img.writeAllAt off buf >>= fun _ => img.sync) d).1 = .ok () →
        ((img.writeAllAt off buf >>= fun _ => img.sync) d).2.file.data = overlay d.file.data
          off buf) := by
  obtain ⟨new, hw, hdata⟩ := img.writeAllAt_spec off d buf hmode h hsize
  obtain ⟨a, d₁, hwd, hr⟩ | ⟨e, d₁, hwd, hr⟩ | ⟨d₁, hwd, hr⟩ | ⟨d₁, hwd, hr⟩ :=
    Run.bind_cases (img.writeAllAt off buf) (fun _ => img.sync) d <;>
    rw [hwd] at hw hdata <;> rw [hr]
  · obtain ⟨new', hs⟩ := img.sync_spec d₁ hmode
    refine ⟨new ++ new', ⟨hs.size.trans hw.touches.size, fun p hp => ?_, ?_,
      ends_append hw.ends hs.ends,
      hs.acked, fun hk => ?_, fun hk => ?_⟩, fun hk => ?_⟩
    · exact (hs.data p id).trans (hw.touches.data p hp)
    · rw [hs.calls, hw.calls, List.append_assoc]
    · obtain ⟨pre, hpre⟩ := hs.synced hk
      exact ⟨new ++ pre, by rw [hpre, List.append_assoc]⟩
    · obtain ⟨h1, h2⟩ := hs.torn hk
      refine ⟨h1.trans hw.touches.durable, fun e he => ?_⟩
      rcases h2 e he with he | he
      · exact hw.touches.unsynced e he
      · exact he.elim
    · rw [← hdata rfl]
      exact funext fun p => hs.data p id
  all_goals exact ⟨new, ⟨hw.touches.size, hw.touches.data, hw.calls,
    hw.ends, by rintro ⟨⟩, by rintro ⟨⟩,
    fun _ => ⟨hw.touches.durable, hw.touches.unsynced⟩⟩, by rintro ⟨⟩⟩

end Image

end Winluks
