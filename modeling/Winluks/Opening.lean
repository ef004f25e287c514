import Winluks.Lib.Text
import Winluks.Image

/-!
# Opening an image

`open_with_mode` of `image.rs`, once for each system it is compiled for, over
what the system answers to its calls.  On Windows the path must be an ordinary
one on a drive, and the handle must be a plain file on a fixed drive; the drive
is found in the canonical path of the handle, whose prefix is checked in UTF-8
and whose letter is taken from UTF-16.  `openWindows_iff` says which files are
let through, with the letter that is checked.
-/

namespace Winluks

open Lib

/-- `std::fs::Metadata` -/
structure FileMeta where
  isFile : Bool
  len : Nat
  attributes : Nat
  len_lt : len < 2 ^ 64

def isAlphabetic (x : UInt8) : Bool :=
  (65 ≤ x.toNat && x.toNat ≤ 90) || (97 ≤ x.toNat && x.toNat ≤ 122)

/-! ## Unix -/

/-- What Unix answers while a path is opened: the open itself, the metadata, and whether the lock is
granted. -/
structure UnixFile where
  opened : (write : Bool) → Bool
  metadata : Option FileMeta
  flock : (exclusive : Bool) → Bool

/-- A `LOCK_SH` for a reader and a `LOCK_EX` for a writer, neither of them waiting. -/
def Image.openUnix (sys : UnixFile) (mode : AccessMode) : Outcome Error Image := do
  .failIf (sys.opened (mode = .readWrite) = false) .backendIo
  let info ← .ofOption .backendIo sys.metadata
  .failIf (info.isFile = false) .unsupportedProfile
  .failIf (sys.flock (mode = .readWrite) = false) .backendIo
  .ok ⟨info.len, mode, info.len_lt⟩

/-! ## Windows -/

/-- The arguments of `CreateFileW` that depend on the mode. -/
structure CreateRequest where
  access : Nat
  share : Nat
  flags : Nat
deriving DecidableEq

/-- What Windows answers while a path is opened. -/
structure WindowsFile where
  create : CreateRequest → Bool
  metadata : Option FileMeta
  fileType : Nat
  /-- the information about a remote protocol could be queried -/
  remoteInfo : Bool
  /-- `GetFinalPathNameByHandleW`: its result, and the buffer of 32768 units -/
  finalPath : Nat × (Nat → UInt16)
  driveType : List UInt16 → Nat

/-- A reader shares with readers, a writer with nobody; a writer writes through. -/
def Image.request (mode : AccessMode) : CreateRequest where
  access := if mode = .readWrite then 0x80000000 ||| 0x40000000 else 0x80000000
  share := if mode = .readOnly then 1 else 0
  flags := 0x00200000 ||| if mode = .readWrite then 0x80000000 else 0

/-- The first units of the buffer. -/
def units (n : Nat) (name : Nat → UInt16) : List UInt16 := (List.range n).map name

/-- Only absolute paths on a drive: no stream, no device. -/
def Image.checkPath (b : Bytes) : Outcome Error Unit :=
  .failIf (b.length < 3 ∨ isAlphabetic (b.getD 0 0) = false ∨ b.getD 1 0 ≠ 58 ∨ b.getD 2 0 ≠ 92 ∨
    (b.drop 2).contains 58 = true) .unsupportedProfile

/-- The handle resolves to a fixed drive.  The path is not opened again. -/
def Image.checkDrive (sys : WindowsFile) : Outcome Error Unit := do
  let n := sys.finalPath.1
  let name := sys.finalPath.2
  .failIf (n = 0 ∨ 32768 ≤ n) .backendIo
  let s ← .ofOption .unsupportedProfile (Utf16.toUtf8 (units n name))
  .failIf (¬ [92, 92, 63, 92] <+: s ∨ s.length < 7 ∨ isAlphabetic (s.getD 4 0) = false ∨
    s.getD 5 0 ≠ 58 ∨ s.getD 6 0 ≠ 92) .unsupportedProfile
  .failIf (sys.driveType [name 4, 58, 92, 0] ≠ 3) .unsupportedProfile

/-- `path` is `none` where it is no Unicode. -/
def Image.openWindows (sys : WindowsFile) (path : Option Bytes) (mode : AccessMode) :
    Outcome Error Image := do
  let b ← .ofOption .unsupportedProfile path
  Image.checkPath b
  .failIf (sys.create (Image.request mode) = false) .backendIo
  let info ← .ofOption .backendIo sys.metadata
  .failIf (info.isFile = false) .unsupportedProfile
  .failIf (info.attributes &&& 0x400 ≠ 0) .unsupportedProfile
  .failIf (sys.fileType ≠ 1) .unsupportedProfile
  .failIf (sys.remoteInfo = true) .unsupportedProfile
  Image.checkDrive sys
  .ok ⟨info.len, mode, info.len_lt⟩

/-! ## What is let through -/

/-- `x:\` -/
def driveRoot (x : UInt8) : Bytes := [x, 58, 92]

theorem checkPath_iff {b : Bytes} : Image.checkPath b = .ok () ↔
    ∃ x rest, isAlphabetic x = true ∧ b = driveRoot x ++ rest ∧ 58 ∉ rest := by
  rw [Image.checkPath, Outcome.failIf_eq_ok]
  constructor
  · intro h
    match b with
    | x :: c :: s :: rest =>
      simp only [List.length_cons, List.getD_cons_zero, List.getD_cons_succ, List.drop_succ_cons,
        List.drop_zero, List.contains_cons, not_or, not_lt, Bool.not_eq_false, ne_eq, not_not,
        Bool.or_eq_true] at h
      obtain ⟨-, hx, rfl, rfl, -, hrest⟩ := h
      exact ⟨x, rest, hx, rfl, fun hmem => hrest (by simpa using hmem)⟩
    | [] | [_] | [_, _] => simp at h
  · rintro ⟨x, rest, hx, rfl, hrest⟩
    simp [driveRoot, hx, hrest]

theorem isAlphabetic_ascii {x : UInt8} (h : isAlphabetic x = true) : x.toNat < 128 := by
  simp only [isAlphabetic, Bool.or_eq_true, Bool.and_eq_true, decide_eq_true_eq] at h
  omega

/-- The tests of the canonical path, as one prefix. -/
theorem canonical_iff {s : Bytes} :
    ¬ (¬ [92, 92, 63, 92] <+: s ∨ s.length < 7 ∨ isAlphabetic (s.getD 4 0) = false ∨
    s.getD 5 0 ≠ 58 ∨ s.getD 6 0 ≠ 92) ↔ ∃ x, isAlphabetic x = true ∧
    [92, 92, 63, 92] ++ driveRoot x <+: s := by
  constructor
  · intro h
    simp only [not_or, not_not, not_lt, Bool.not_eq_false] at h
    obtain ⟨⟨rest, rfl⟩, hlen, hx, hcolon, hslash⟩ := h
    match rest with
    | x :: c :: b :: rest =>
      obtain rfl : c = 58 := hcolon
      obtain rfl : b = 92 := hslash
      exact ⟨x, hx, rest, rfl⟩
    | [] | [_] | [_, _] => simp at hlen
  · rintro ⟨x, hx, rest, rfl⟩
    simp [driveRoot, hx]

/-- The unit that names the drive is the letter of the canonical path. -/
theorem unit_of_prefix {n : Nat} {name : Nat → UInt16} {p : List UInt16} {u : UInt16}
    (h : p ++ [u] <+: units n name) :
    name p.length = u := by
  obtain ⟨rest, hrest⟩ := h
  have hget : (units n name)[p.length]? = some u := by
    rw [← hrest]
    simp
  obtain ⟨hlen, hget⟩ := List.getElem?_eq_some_iff.mp hget
  simpa only [units, List.getElem_map, List.getElem_range] using hget

/-- The canonical path begins with `\\?\x:\`, and the drive of this letter is fixed. -/
theorem checkDrive_iff {sys : WindowsFile} : Image.checkDrive sys = .ok () ↔
    0 < sys.finalPath.1 ∧ sys.finalPath.1 < 32768 ∧
    (Utf16.toUtf8 (units sys.finalPath.1 sys.finalPath.2)).isSome ∧
      ∃ x, isAlphabetic x = true ∧ ([92, 92, 63, 92] ++ driveRoot x).map Utf16.unit <+:
        units sys.finalPath.1 sys.finalPath.2 ∧
        sys.driveType ((driveRoot x).map Utf16.unit ++ [0]) = 3 := by
  rcases sys with ⟨_, _, _, _, ⟨n, name⟩, driveType⟩
  -- the letter of an accepted path, in both encodings
  have hletter : ∀ s x, Utf16.toUtf8 (units n name) = some s → isAlphabetic x = true →
      ([92, 92, 63, 92] ++ driveRoot x <+: s ↔
        ([92, 92, 63, 92] ++ driveRoot x).map Utf16.unit <+: units n name) := by
    intro s x hs hx
    refine Utf16.ascii_prefix_iff (fun y hy => ?_) hs
    have := isAlphabetic_ascii hx
    simp only [driveRoot, List.cons_append, List.nil_append, List.mem_cons, List.not_mem_nil,
      or_false] at hy
    rcases hy with rfl | rfl | rfl | rfl | rfl | rfl | rfl <;> first | decide | exact this
  have hroot : ∀ x, ([92, 92, 63, 92] ++ driveRoot x).map Utf16.unit <+: units n name →
      name 4 = Utf16.unit x := by
    intro x h
    exact unit_of_prefix (p := [92, 92, 63, 92])
      ((show [92, 92, 63, 92] ++ [Utf16.unit x] <+: _ from
      ⟨[58, 92], rfl⟩ : [92, 92, 63, 92] ++ [Utf16.unit x] <+: ([92, 92, 63, 92] ++ driveRoot x).map
        Utf16.unit).trans h)
  simp only [Image.checkDrive, Outcome.failIf_bind_eq_ok, Outcome.ofOption_bind_eq_ok,
    Outcome.failIf_eq_ok, canonical_iff]
  simp only [not_or, Nat.pos_iff_ne_zero, not_le, Option.isSome_iff_exists, ne_eq, not_not]
  constructor
  · rintro ⟨⟨h0, hn⟩, s, hs, ⟨x, hx, hpre⟩, hdrive⟩
    have hpre' := (hletter s x hs hx).mp hpre
    refine ⟨h0, hn, ⟨s, hs⟩, x, hx, hpre', ?_⟩
    rwa [hroot x hpre'] at hdrive
  · rintro ⟨h0, hn, ⟨s, hs⟩, x, hx, hpre, hdrive⟩
    refine ⟨⟨h0, hn⟩, s, hs, ⟨x, hx, (hletter s x hs hx).mpr hpre⟩, ?_⟩
    rw [hroot x hpre]
    exact hdrive

/-- What `CreateFileW` gave a handle to is a plain file on a fixed drive. -/
structure LocalFile (sys : WindowsFile) (mode : AccessMode) (img : Image) : Prop where
  granted : sys.create (Image.request mode) = true
  file : ∃ info, sys.metadata = some info ∧ info.isFile = true ∧ info.attributes &&& 0x400 = 0 ∧
    img = ⟨info.len, mode, info.len_lt⟩
  disk : sys.fileType = 1 ∧ sys.remoteInfo = false
  drive : Image.checkDrive sys = .ok ()

theorem openWindows_iff {sys : WindowsFile} {path : Option Bytes} {mode : AccessMode}
    {img : Image} :
    Image.openWindows sys path mode = .ok img ↔
      (∃ b, path = some b ∧ Image.checkPath b = .ok ()) ∧ LocalFile sys mode img := by
  simp only [Image.openWindows, Outcome.unit_bind_eq_ok, Outcome.ofOption_bind_eq_ok,
    Outcome.failIf_eq_ok, Outcome.ok.injEq, ne_eq, not_not, Bool.not_eq_false, Bool.not_eq_true]
  constructor
  · rintro ⟨b, hb, hpath, hcreate, info, hinfo, hfile, hattr, hdisk, hremote, hdrive, rfl⟩
    exact ⟨⟨b, hb, hpath⟩, hcreate, ⟨info, hinfo, hfile, hattr, rfl⟩, ⟨hdisk, hremote⟩, hdrive⟩
  · rintro ⟨⟨b, hb, hpath⟩, hcreate, ⟨info, hinfo, hfile, hattr, rfl⟩, ⟨hdisk, hremote⟩, hdrive⟩
    exact ⟨b, hb, hpath, hcreate, info, hinfo, hfile, hattr, hdisk, hremote, hdrive, rfl⟩

theorem returns_openWindows (sys : WindowsFile) (path : Option Bytes) (mode : AccessMode) :
    (Image.openWindows sys path mode).Returns := by
  simp [Image.openWindows, Image.checkPath, Image.checkDrive, Outcome.returns_bind]

end Winluks
