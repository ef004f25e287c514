import Winluks.Session

/-!
# The volume as a flat array

What a session is for: an array of plaintext bytes.  `plain` decrypts an image
sector by sector; an acknowledged write overlays the array, and nothing else
changes it.  `run_refines` says that the reads of a session are served from this
array, whatever the operating system does to the calls underneath.
-/

namespace Winluks

open Lib

variable (prim : Primitives)

/-- The plaintext behind the image content `f`, by position in the volume.
A sector that the library refuses to decrypt reads as zeros here. -/
def UnlockedVolume.plain (v : UnlockedVolume) (f : Store) : Store := fun q =>
  ((prim.xts .decrypt v.key.bytes (tweak (q / 512)) (slice f (v.offset + q / 512 * 512) 512)).getD
    []).getD (q % 512) 0

namespace UnlockedVolume

variable {prim} {v : UnlockedVolume} {f g : Store} {n : Nat}

/-- Each plaintext byte depends on its own sector. -/
theorem plain_congr {q : Nat} (h : ∀ p, v.offset + q / 512 * 512 ≤ p →
    p < v.offset + q / 512 * 512 + 512 → f p = g p) :
    v.plain prim f q = v.plain prim g q := by
  unfold plain
  rw [slice_congr h]

theorem sector_getD (b : Bytes) (i : Nat) : (sector b (i / 512)).getD (i % 512) 0 = b.getD i 0 := by
  have hi : 512 * (i / 512) + i % 512 = i := Nat.div_add_mod i 512
  have hlt : i % 512 < 512 := Nat.mod_lt i (by decide)
  rw [sector, List.getD_eq_getElem?_getD, List.getElem?_take_of_lt hlt, List.getElem?_drop, hi,
    List.getD_eq_getElem?_getD]

/-- Decrypting whole sectors reads the plaintext. -/
theorem slice_plain {len : Nat} {out : Bytes}
    (h : decryptSectors prim v.key.bytes n (slice f (v.offset + n * 512) len) = .ok out) :
    out = slice (v.plain prim f) (n * 512) len := by
  obtain ⟨-, hmod, -, hlen, hunit⟩ := cryptSectors_iff.mp h
  rw [slice_length] at hmod hlen hunit
  apply List.ext_getElem
  · rw [hlen, slice_length]
  intro i h1 h2
  have hi : i / 512 < len / 512 := by omega
  obtain ⟨-, hx, -⟩ := hunit (i / 512) hi
  have hsec : sector (slice f (v.offset + n * 512) len) (i / 512) =
      slice f (v.offset + (n + i / 512) * 512) 512 := by
    rw [sector, slice_drop_take _ _ (by omega)]
    congr 1
    omega
  rw [hsec] at hx
  rw [slice_getElem]
  unfold plain
  rw [show (n * 512 + i) / 512 = n + i / 512 by omega,
    show (n * 512 + i) % 512 = i % 512 by
        omega, hx, Option.getD_some, sector_getD, List.getD_eq_getElem _ _ h1]

/-- Writing encrypted sectors overlays the plaintext. -/
theorem plain_overlay (hx : XtsInverts prim) {bytes enc : Bytes}
    (h : encryptSectors prim v.key.bytes n bytes = .ok enc) :
    v.plain prim (overlay f (v.offset + n * 512) enc) = overlay (v.plain prim f)
      (n * 512) bytes := by
  obtain ⟨-, hmod, -, hlen, hunit⟩ := cryptSectors_iff.mp h
  funext q
  by_cases hq : n * 512 ≤ q ∧ q < n * 512 + bytes.length
  · rw [overlay_of_mem _ _ _ hq]
    have hj : q / 512 - n < bytes.length / 512 := by omega
    obtain ⟨-, henc, -⟩ := hunit (q / 512 - n) hj
    have hunitlen : (sector bytes (q / 512 - n)).length = 512 := by
      rw [sector, List.length_take, List.length_drop]
      omega
    have hsec : slice (overlay f (v.offset + n * 512) enc) (v.offset + q / 512 * 512) 512 =
        sector enc (q / 512 - n) := by
      have hpart := @slice_drop_take (overlay f (v.offset + n * 512) enc)
        (v.offset + n * 512) enc.length (512 * (q / 512 - n)) 512 (by omega)
      rw [slice_overlay_self, show v.offset + n * 512 + 512 * (q / 512 - n) =
        v.offset + q / 512 * 512 by omega] at hpart
      exact hpart.symm
    have hdec := hx _ _ _ _ hunitlen henc
    have hnum : n + (q / 512 - n) = q / 512 := by omega
    have hdiv : (q - n * 512) / 512 = q / 512 - n := by omega
    have hmod' : (q - n * 512) % 512 = q % 512 := by omega
    rw [hnum] at hdec
    unfold plain
    rw [hsec, hdec, Option.getD_some, ← sector_getD bytes (q - n * 512), hdiv, hmod']
  · rw [overlay_of_not_mem _ _ _ hq]
    -- the sector of `q` is not among the written ones, since these are whole sectors
    refine plain_congr fun p h1 h2 => overlay_of_not_mem _ _ _ ?_
    omega

end UnlockedVolume

/-! ## The array that a session serves -/

namespace Event

/-- The array after a request: only an acknowledged write changes it. -/
def apply (P : Store) (e : Event) : Store :=
  match e.op, e.outcome with
  | .write off bytes, .ok _ => overlay P off bytes
  | _, _ => P

/-- A read that returned bytes returned those of the array. -/
def Answers (P : Store) (e : Event) : Prop :=
  ∀ off len data, e.op = .read off len → e.outcome = .ok data → data = slice P off len

theorem apply_of_not_ok {P : Store} {e : Event} (h : ∀ b, e.outcome ≠ .ok b) : e.apply P = P := by
  unfold apply
  split
  · next ho => exact absurd ho (h _)
  · rfl

theorem answers_of_not_ok {P : Store} {e : Event} (h : ∀ b, e.outcome ≠ .ok b) : e.Answers P :=
  fun _ _ _ _ ho => absurd ho (h _)

end Event

/-- Every read of the trace sees the writes acknowledged before it, in order, over `P`. -/
def Serves (P : Store) (trace : List Event) : Prop :=
  ∀ past e later, trace = past ++ e :: later → e.Answers (past.foldl Event.apply P)

theorem serves_nil (P : Store) : Serves P [] := by
  intro past e later h
  simp at h

theorem serves_snoc {P : Store} {trace : List Event} {e : Event} (h : Serves P trace)
    (he : e.Answers (trace.foldl Event.apply P)) : Serves P (trace ++ [e]) := by
  intro past x later heq
  rcases List.eq_nil_or_concat later with rfl | ⟨later', y, rfl⟩
  · obtain ⟨rfl, hx⟩ := List.append_inj' heq rfl
    obtain rfl := List.singleton_inj.mp hx
    exact he
  · have heq' : trace ++ [e] = (past ++ x :: later') ++ [y] := by simpa using heq
    exact h past x later' (List.append_inj' heq' rfl).1

namespace ValidatedVolume

variable {prim} {ext : Parsers} {v : ValidatedVolume} {s s' : Io} {e : Event}

/-- A request moves the array as its event says, or it is the last one to see the file. -/
theorem step_plain (hx : XtsInverts prim) (h : v.Step prim s e.op e.outcome s') :
    (v.volume.plain prim s'.disk.file.data = e.apply (v.volume.plain prim s.disk.file.data) ∨
      s'.faulted = true ∨ s'.poisoned = true ∨ e.outcome = .halt) ∧
    e.Answers (v.volume.plain prim s.disk.file.data) := by
  obtain ⟨op, outcome, calls⟩ := e
  cases h with
  | @refused _ err _ disk =>
    have hno : ∀ b, (Outcome.err err : Outcome Error Bytes) ≠ .ok b := fun _ => nofun
    refine ⟨Or.inl ?_, Event.answers_of_not_ok hno⟩
    rw [Event.apply_of_not_ok hno, disk]
  | empty ready nothing =>
    rcases nothing with ⟨off, rfl⟩ | ⟨off, rfl⟩
    · refine ⟨Or.inl rfl, ?_⟩
      rintro _ _ _ ⟨⟩ ⟨⟩
      rfl
    · exact ⟨Or.inl (overlay_nil _ _).symm, fun _ _ _ hop => by cases hop⟩
  | marked => exact ⟨Or.inl rfl, fun _ _ _ hop => by cases hop⟩
  | performed p =>
    by_cases hok : ∃ b, outcome = .ok b
    · obtain ⟨b, rfl⟩ := hok
      have heff := p.effect b rfl
      cases op with
      | read off len =>
        obtain ⟨hfile, plain, hdec, rfl⟩ := heff
        refine ⟨Or.inl (by rw [hfile]; rfl), ?_⟩
        rintro _ _ _ ⟨⟩ ⟨⟩
        rw [UnlockedVolume.slice_plain hdec, slice_extract _ _ (by omega)]
        congr 1
        · omega
        · omega
      | write off bytes =>
        obtain ⟨⟨enc, henc, hdata⟩, -, -⟩ := heff
        have hoff : off / 512 * 512 = off := by
          have := p.accepts.2.2.2.1
          omega
        have := UnlockedVolume.plain_overlay (f := s.disk.file.data) hx henc
        rw [hoff, ← hdata] at this
        exact ⟨Or.inl this, fun _ _ _ hop => by cases hop⟩
      | flush => exact ⟨Or.inl (by rw [heff.1]; rfl), fun _ _ _ hop => by cases hop⟩
      | markFaulted => exact heff.elim
    · have hno : ∀ b, outcome ≠ .ok b := fun b hb => hok ⟨b, hb⟩
      refine ⟨?_, Event.answers_of_not_ok hno⟩
      rw [Event.apply_of_not_ok hno]
      rcases p.unfinished hno with ⟨hfile, -⟩ | ⟨-, hl⟩
      · exact Or.inl (by rw [hfile])
      · exact Or.inr hl

/-- Past and state of a session, as an array: they agree until the session is latched or stopped. -/
structure Flat (prim : Primitives) (v : ValidatedVolume) (P : Store) (past : List Event) (s : Io) :
    Prop where
  serves : Serves P past
  array : v.volume.plain prim s.disk.file.data = past.foldl Event.apply P ∨
    (s.faulted = true ∨ s.poisoned = true) ∨ ∃ x ∈ past, x.outcome = .halt

theorem flat_step (hx : XtsInverts prim) {P : Store} {past : List Event} (h : v.Flat prim P past s)
    (hpast : ∀ x ∈ past, x.outcome ≠ .halt) (hs : v.Step prim s e.op e.outcome s')
    (hcalls : s'.disk.calls = s.disk.calls ++ e.calls) : v.Flat prim P (past ++ [e]) s' := by
  have hlast : e ∈ past ++ [e] := List.mem_append_right _ (List.mem_singleton_self e)
  rcases h.array with harray | hl | ⟨x, hx, hhalt⟩
  · obtain ⟨hmove, hans⟩ := step_plain hx hs
    rw [harray] at hmove hans
    refine ⟨serves_snoc h.serves hans, ?_⟩
    rw [List.foldl_append]
    rcases hmove with hmove | hf | hp | hh
    · exact Or.inl hmove
    · exact Or.inr (Or.inl (Or.inl hf))
    · exact Or.inr (Or.inl (Or.inr hp))
    · exact Or.inr (Or.inr ⟨e, hlast, hh⟩)
  · obtain ⟨hl', -, -, herr⟩ := step_latched hs hcalls hl
    refine ⟨serves_snoc h.serves fun off len data hop ho => ?_, Or.inr (Or.inl hl')⟩
    obtain ⟨err, he⟩ := herr (by rw [hop]; nofun)
    rw [he] at ho
    cases ho
  · exact absurd hhalt (hpast x hx)

/-- **A session is a flat array.**  Start from the array that the image decrypts
to.  In every run, each read that succeeds returns its part of this array with
all writes acknowledged before laid over it, in order, and nothing else; a write
that failed is seen by no successful read. -/
theorem run_refines (hx : XtsInverts prim) (hopen : Opened prim ext v s) (ops : List VolOp) :
    Serves (v.volume.plain prim s.disk.file.data) (v.run prim ops s).1 :=
  (run_invariant hopen.fits (P := v.Flat prim (v.volume.plain prim s.disk.file.data))
    (fun _ _ _ _ h hpast hs hcalls => flat_step hx h hpast hs hcalls) ops hopen.size
    ⟨serves_nil _, Or.inl rfl⟩).serves

theorem run_refines_sample :
    Serves ((Sample.volume .readWrite).volume.plain Sample.prim (Sample.store 1 Sample.body))
    ((Sample.volume .readWrite).run Sample.prim [.write 512 (zeros 512), .read 500 100]
      (Sample.io [.limit 1, .limit 7])).1 :=
  run_refines Sample.xtsInverts (Sample.opened .readWrite [.limit 1, .limit 7]) _

end ValidatedVolume

end Winluks
