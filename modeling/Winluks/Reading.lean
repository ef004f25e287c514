import Winluks.ImageSpec

/-!
# Programs that only read

`Computes len F m x`: on a file `F`, the program `m` leaves the file alone, and
unless a call goes wrong its outcome is the value `x`, computed from the content
of `F` alone.  `SameRun F F' m`: under the same answers of the operating system,
`m` cannot tell `F` from `F'`.  Both are closed under sequencing; the metadata
reader and `unlock` are read through them.
-/

namespace Winluks

open Lib

variable {α β : Type}

/-- What `m` returns on the file `F` is `x`, unless a call goes wrong. -/
def Computes (len : Nat) (F : File) (m : Run Disk Error α) (x : Outcome Error α) : Prop :=
  ∀ d, d.file = F → ∃ new, (m d).2.file = F ∧ (m d).2.calls = d.calls ++ new ∧
    (∀ c ∈ new, c.mutates = false) ∧ ((∀ c ∈ new, c.Good len) → (m d).1 = x) ∧
    ∀ a, (m d).1 = .ok a → ∀ c ∈ new, c.Good len

section
variable {len : Nat} {F : File} {m : Run Disk Error α} {x : Outcome Error α}

theorem computes_lift (x : Outcome Error α) : Computes len F (.lift x) x :=
  fun _ hd => ⟨[], hd, (List.append_nil _).symm, nofun, fun _ => rfl, fun _ _ => nofun⟩

/-- A program of the transfer layer computes what it returns when it succeeds. -/
theorem computes_of_readsOnly (hr : ∀ d, d.file = F → ∃ new, ReadsOnly len d (m d).1 (m d).2 new)
    (hx : ∀ d a, d.file = F → (m d).1 = .ok a → x = .ok a) : Computes len F m x := by
  intro d hd
  obtain ⟨new, h⟩ := hr d hd
  refine ⟨new, h.file.trans hd, h.calls, h.still, fun hg => ?_, fun a ha => ?_⟩
  · obtain ⟨a, ha⟩ := h.ends.ok_of_good hg
    rw [ha, hx d a hd ha]
  · have := h.ends
    rw [ha] at this
    exact this

/-- A success is the computed value. -/
theorem Computes.ok (h : Computes len F m x) {d d' : Disk} {a : α} (hd : d.file = F)
    (hm : m d = (.ok a, d')) :
    x = .ok a ∧ d'.file = F := by
  obtain ⟨new, hf, -, -, hg, hok⟩ := h d hd
  rw [hm] at hf hg hok
  exact ⟨(hg (hok a rfl)).symm, hf⟩

theorem computes_bind {f : α → Run Disk Error β} {g : α → Outcome Error β} (hm : Computes len F m x)
    (hf : ∀ a, x = .ok a → Computes len F (f a) (g a)) : Computes len F (m >>= f) (x >>= g) := by
  intro d hd
  obtain ⟨new, hfile, hcalls, hstill, hgood, hok⟩ := hm d hd
  obtain ⟨a, d₁, hmd, hr⟩ | ⟨e, d₁, hmd, hr⟩ | ⟨d₁, hmd, hr⟩ | ⟨d₁, hmd, hr⟩ :=
    Run.bind_cases m f d <;>
    rw [hmd] at hfile hcalls hgood hok <;> rw [hr]
  · have hx : x = .ok a := (hgood (hok a rfl)).symm
    obtain ⟨new', hfile', hcalls', hstill', hgood', hok'⟩ := hf a hx d₁ hfile
    refine ⟨new ++ new', hfile', ?_, ?_, fun hg => ?_, fun b hb c hc => ?_⟩
    · rw [hcalls', hcalls, List.append_assoc]
    · intro c hc
      rcases List.mem_append.mp hc with hc | hc
      · exact hstill c hc
      · exact hstill' c hc
    · rw [hx, Outcome.ok_bind]
      exact hgood' fun c hc => hg c (List.mem_append_right _ hc)
    · rcases List.mem_append.mp hc with hc | hc
      · exact hok a rfl c hc
      · exact hok' b hb c hc
  · refine ⟨new, hfile, hcalls, hstill, fun hg => ?_, nofun⟩
    rw [← hgood hg]
    rfl
  · refine ⟨new, hfile, hcalls, hstill, fun hg => ?_, nofun⟩
    rw [← hgood hg]
    rfl
  · refine ⟨new, hfile, hcalls, hstill, fun hg => ?_, nofun⟩
    rw [← hgood hg]
    rfl

theorem computes_mapErr (h : Computes len F m x) (f : Error → Error) :
    Computes len F (m.mapErr f) (x.mapErr f) := by
  intro d hd
  obtain ⟨new, hfile, hcalls, hstill, hgood, hok⟩ := h d hd
  refine ⟨new, hfile, hcalls, hstill, fun hg => ?_, fun a ha => hok a (Outcome.mapErr_eq_ok.mp ha)⟩
  show (m d).1.mapErr f = _
  rw [hgood hg]

end

/-- `read_exact_at` on a file of the image's own content. -/
def sliceOf (len : Nat) (f : Store) (off n : Nat) : Outcome Error Bytes :=
  if off + n ≤ len then .ok (slice f off n) else .err .invalidRange

theorem sliceOf_inside {len : Nat} (f : Store) {off n : Nat} (h : off + n ≤ len) :
    sliceOf len f off n = .ok (slice f off n) := if_pos h

theorem sliceOf_outside {len : Nat} (f : Store) {off n : Nat} (h : ¬ off + n ≤ len) :
    sliceOf len f off n = .err .invalidRange := if_neg h

theorem computes_readExactAt (img : Image) (F : File) (off n : Nat) :
    Computes img.len F (img.readExactAt off n) (sliceOf img.len F.data off n) := by
  unfold sliceOf
  split
  · next h =>
    refine computes_of_readsOnly (fun d _ => img.readExactAt_spec off d h) fun d a hd ha => ?_
    obtain ⟨-, -, rfl⟩ := img.readExactAt_ok off d (Prod.ext ha rfl :
      img.readExactAt off n d = (.ok a, _))
    rw [hd]
  · next h =>
    intro d hd
    rw [img.readExactAt_out off d h]
    exact ⟨[], hd, (List.append_nil _).symm, nofun, fun _ => rfl, fun _ _ => nofun⟩

/-! ## Two files that a program cannot tell apart -/

/-- Under the same answers, `m` ends the same way on `F` and on `F'`, and changes neither. -/
def SameRun (F F' : File) (m : Run Disk Error α) : Prop :=
  ∀ d d', d.file = F → d'.file = F' → d.plan = d'.plan →
    (m d).1 = (m d').1 ∧ (m d).2.plan = (m d').2.plan ∧ (m d).2.file = F ∧ (m d').2.file = F'

section
variable {F F' : File} {m : Run Disk Error α}

theorem sameRun_lift (x : Outcome Error α) : SameRun F F' (.lift x) :=
  fun _ _ hd hd' hp => ⟨rfl, hp, hd, hd'⟩

theorem sameRun_mapErr (h : SameRun F F' m) (f : Error → Error) : SameRun F F' (m.mapErr f) := by
  intro d d' hd hd' hp
  obtain ⟨h1, h2⟩ := h d d' hd hd' hp
  refine ⟨?_, h2⟩
  show (m d).1.mapErr f = (m d').1.mapErr f
  rw [h1]

/-- The rest of a program only has to agree on values that the first step really returns. -/
theorem sameRun_bind {f : α → Run Disk Error β} (hm : SameRun F F' m)
    (hf : ∀ a, (∃ d, d.file = F ∧ (m d).1 = .ok a) → SameRun F F' (f a)) :
    SameRun F F' (m >>= f) := by
  intro d d' hd hd' hp
  obtain ⟨h1, h2, h3, h4⟩ := hm d d' hd hd' hp
  have hs : ∀ a, (m d).1 = .ok a → SameRun F F' (f a) := fun a ha => hf a ⟨d, hd, ha⟩
  simp only [Run.bind_run]
  rcases hmd : m d with ⟨o, e⟩
  rcases hmd' : m d' with ⟨o', e'⟩
  rw [hmd] at h1 h2 h3 hs
  rw [hmd'] at h1 h2 h4
  dsimp only at h1 h2 h3 h4 hs
  subst h1
  cases o with
  | ok a => exact hs a rfl e e' h3 h4 h2
  | err e => exact ⟨rfl, h2, h3, h4⟩
  | panic => exact ⟨rfl, h2, h3, h4⟩
  | halt => exact ⟨rfl, h2, h3, h4⟩

theorem sameRun_fileLen (f : ErrorKind → Error) (hsize : F.size = F'.size) :
    SameRun F F' (fileLen.mapErr f) := by
  intro d d' hd hd' hp
  subst hd hd'
  simp only [Run.mapErr, fileLen, Disk.next, Disk.log, hp, hsize]
  split <;> exact ⟨rfl, rfl, rfl, rfl⟩

/-- One call answers the same on both files, and leaves both alone. -/
theorem sameRun_readOnce {off n : Nat} (hsize : F.size = F'.size)
    (h : ∀ p, off ≤ p → p < off + n → F.data p = F'.data p) {d d' e : Disk}
    {o : Outcome ErrorKind Bytes}
    (hd : d.file = F) (hd' : d'.file = F') (hp : d.plan = d'.plan)
    (hro : readOnce off n d = (o, e)) :
    ∃ e', readOnce off n d' = (o, e') ∧ e.file = F ∧ e'.file = F' ∧ e.plan = e'.plan := by
  subst hd hd'
  have hs : ∀ k, slice d.file.data off (min (min k n) (d.file.size - off)) =
      slice d'.file.data off (min (min k n) (d'.file.size - off)) := by
    intro k
    rw [hsize]
    exact slice_congr fun p h1 h2 => h p h1 (by omega)
  simp only [readOnce, Disk.next, Disk.log, hp, hs] at hro ⊢
  split at hro <;> cases hro <;> exact ⟨_, rfl, rfl, rfl, rfl⟩

theorem sameRun_readLoop {off n : Nat} (hsize : F.size = F'.size)
    (h : ∀ p, off ≤ p → p < off + n → F.data p = F'.data p) (got : Bytes) :
    SameRun F F' (readLoop off n got) := by
  intro d d' hd hd' hp
  have hrest : ∀ {got : Bytes}, got.length < n → ∀ p, off + got.length ≤ p →
      p < off + got.length + (n - got.length) → F.data p = F'.data p :=
      fun hlt p h1 h2 => h p (by omega) (by omega)
  induction got, d using readLoop.induct off n generalizing d' with
  | case7 got d hge =>
    rw [readLoop_eq, readLoop_eq, if_neg hge, if_neg hge]
    exact ⟨rfl, hp, hd, hd'⟩
  | case1 got d hlt e hro ih =>
    obtain ⟨e', hro', he, he', hp'⟩ := sameRun_readOnce hsize (hrest hlt) hd hd' hp hro
    rw [readLoop_eq, readLoop_eq off n got d', if_pos hlt, if_pos hlt, hro, hro']
    exact ih e' he he' hp'
  | case4 got d hlt b bs e hro ih =>
    obtain ⟨e', hro', he, he', hp'⟩ := sameRun_readOnce hsize (hrest hlt) hd hd' hp hro
    rw [readLoop_eq, readLoop_eq off n got d', if_pos hlt, if_pos hlt, hro, hro']
    exact ih e' he he' hp'
  | _ got d hlt e hro =>
    obtain ⟨e', hro', he, he', hp'⟩ := sameRun_readOnce hsize (hrest hlt) hd hd' hp hro
    rw [readLoop_eq, readLoop_eq off n got d', if_pos hlt, if_pos hlt, hro, hro']
    exact ⟨rfl, hp', he, he'⟩

/-- A read cannot see a change outside its range. -/
theorem sameRun_readExactAt (img : Image) {off n : Nat} (hsize : F.size = F'.size)
    (h : ∀ p, off ≤ p → p < off + n → F.data p = F'.data p) :
    SameRun F F' (img.readExactAt off n) := by
  refine sameRun_bind (sameRun_lift _) fun _ _ => ?_
  refine sameRun_bind ?_ fun _ _ => sameRun_readLoop hsize h []
  exact sameRun_bind (sameRun_fileLen _ hsize) fun _ _ => sameRun_lift _

end

end Winluks
