import Winluks.Session

/-!
# The block adapter

`adapter.rs`: requests of the block device, in units of 512 bytes, on top of a
validated volume.  `shutdown` flushes, stops the adapter, and lets the transport
drain: while it drains, requests still arrive.

`run_frames` is the frame property of everything above the image.  In any run,
whatever the operating system answers, a byte of the file changes only inside
the payload and inside the range of a write request that was let through.  So
the headers and the keyslot areas stay, and so does all that is read from them.
-/

namespace Winluks

open Lib

structure Adapter where
  io : Io
  stopping : Bool
  reads : Nat
  writeAttempts : Nat
  unmapAttempts : Nat
  flushes : Nat

namespace Adapter

def new (io : Io) : Adapter := ⟨io, false, 0, 0, 0, 0⟩

/-- `fetch_add(1)` -/
def bump (n : Nat) : Nat := (n + 1) % 2 ^ 64

def onIo {α : Type} (m : Run Io Error α) : Run Adapter Error α :=
  .zoom Adapter.io (fun a s => { a with io := s }) m

def notStopping : Run Adapter Error Unit := do
  let stopping ← .gets Adapter.stopping
  .lift (.failIf (stopping = true) .stopping)

variable (prim : Primitives) (v : ValidatedVolume)

def read (lba count : Nat) : Run Adapter Error Bytes := do
  notStopping
  let o ← .lift (.ofOption .invalidRange (checkedMul 64 lba 512))
  let n ← .lift (.ofOption .invalidRange (checkedMul 64 count 512))
  .modify fun a => { a with reads := bump a.reads }
  onIo (v.readAt prim o n)

def write (lba : Nat) (bytes : Bytes) : Run Adapter Error Unit := do
  .modify fun a => { a with writeAttempts := bump a.writeAttempts }
  .lift (.failIf (v.mode = .readOnly) .readOnly)
  notStopping
  let offset ← .lift (.ofOption .invalidRange (checkedMul 64 lba 512))
  onIo (v.writeAt prim offset bytes)

def unmap : Run Adapter Error Unit := do
  .modify fun a => { a with unmapAttempts := bump a.unmapAttempts }
  .throw (if v.mode = .readOnly then .readOnly else .unsupportedOperation)

def flushVolume : Run Adapter Error Unit := do
  .modify fun a => { a with flushes := bump a.flushes }
  onIo v.flush

/-- A count of 0 means through the end of the device. -/
def flush (lba count : Nat) : Run Adapter Error Unit := do
  notStopping
  let o ← .lift (.ofOption .invalidRange (checkedMul 64 lba 512))
  if count = 0 then
    if o ≤ v.len then flushVolume v else .throw .invalidRange
  else if v.len < o ∨ v.len - o < count * 512 then .throw .invalidRange
  else flushVolume v

def stop {ε : Type} : Run Adapter ε Unit := .modify fun a => { a with stopping := true }

def isErr {ε α : Type} : Except ε α → Bool
  | .error _ => true
  | .ok _ => false

/-- A point between two statements of `shutdown`, with the value computed last. -/
inductive ShutdownPoint where
  | flushed (syncFailed : Bool)
  | drained (transportError : Nat)
deriving DecidableEq

/-- Whether the session failed.  `drain` captures a state `σ` that the adapter is a part of;
`others` is what other threads do at the points in between. -/
def shutdown {σ ε : Type} (get : σ → Adapter) (set : σ → Adapter → σ)
    (others : ShutdownPoint → Run σ ε Unit) (drain : Run σ ε Nat) : Run σ ε Bool := do
  let synced ← .zoom get set (flush v 0 0).attempt
  others (.flushed (isErr synced))
  .zoom get set stop
  let transportError ← drain
  others (.drained transportError)
  let faulted ← .gets fun s => (get s).io.faulted
  pure (isErr synced || transportError ≠ 0 || faulted)

end Adapter

/-- A request to the adapter, or directly to its volume. -/
inductive Request where
  | read (lba count : Nat)
  | write (lba : Nat) (bytes : Bytes)
  | unmap
  | flush (lba count : Nat)
  | stop
  | volume (op : VolOp)
deriving DecidableEq

/-- A request, or the shutdown: the requests that other threads make before it stops the adapter and
while it drains, and the error of the transport. -/
inductive AdapterOp where
  | request (r : Request)
  | shutdown (before drained : List Request) (transportError : Nat)
deriving DecidableEq

namespace Adapter

variable (prim : Primitives) (v : ValidatedVolume)

/-- The result of a request, without the bytes of a read. -/
def forget {α : Type} (m : Run Adapter Error α) : Run Adapter Error Unit := do
  let _ ← m
  pure ()

def exec : Request → Run Adapter Error Unit
  | .read lba count => forget (read prim v lba count)
  | .write lba bytes => write prim v lba bytes
  | .unmap => unmap v
  | .flush lba count => flush v lba count
  | .stop => stop
  | .volume op => forget (onIo (v.exec prim op))

/-- One after the other, each on its own: only a stop of the machine ends the sequence. -/
def sequence {β : Type} (step : β → Run Adapter Error Unit) : List β → Run Adapter Error Unit
  | [] => pure ()
  | b :: bs => fun a =>
    if (step b a).1 = .halt then step b a else sequence step bs (step b a).2

def perform : AdapterOp → Run Adapter Error Unit
  | .request r => exec prim v r
  | .shutdown before drained transportError => forget (shutdown v id (fun _ a => a)
      (fun
        | .flushed _ => sequence (exec prim v) before
        | .drained _ => pure ())
      (do
        sequence (exec prim v) drained
        pure transportError))

def run (ops : List AdapterOp) : Run Adapter Error Unit := sequence (perform prim v) ops

end Adapter

/-! ## What may change -/

/-- Only bytes at positions in `W` change, and in a read-only session nothing does. -/
structure Frames (v : ValidatedVolume) (W : Nat → Prop) (s s' : Io) : Prop where
  size : s'.disk.file.size = s.disk.file.size
  data : ∀ p, ¬ W p → s'.disk.file.data p = s.disk.file.data p
  still : v.mode = .readOnly → s'.disk.file = s.disk.file
  calls : ∃ new, s'.disk.calls = s.disk.calls ++ new ∧
    (v.mode = .readOnly → ∀ c ∈ new, c.mutates = false)

/-- `Frames` from a file of the right length on. -/
def Framed (v : ValidatedVolume) (W : Nat → Prop) (s s' : Io) : Prop :=
  s.disk.file.size = v.volume.image.len → Frames v W s s'

section
variable {v : ValidatedVolume} {W W' : Nat → Prop} {s s' s'' : Io}

theorem frames_of_disk (h : s'.disk = s.disk) : Frames v W s s' :=
  ⟨by rw [h], fun _ _ => by rw [h], fun _ => by rw [h], [], by rw [h, List.append_nil],
    fun _ => nofun⟩

theorem framed_refl (s : Io) : Framed v W s s := fun _ => frames_of_disk rfl

theorem framed_trans (h : Framed v W s s') (h' : Framed v W s' s'') : Framed v W s s'' := by
  intro hsize
  have h := h hsize
  have h' := h' (h.size.trans hsize)
  obtain ⟨new, hnew, hstill⟩ := h.calls
  obtain ⟨new', hnew', hstill'⟩ := h'.calls
  refine ⟨h'.size.trans h.size, fun p hp => (h'.data p hp).trans (h.data p hp),
    fun hro => (h'.still hro).trans (h.still hro), new ++ new', ?_, fun hro c hc => ?_⟩
  · rw [hnew', hnew, List.append_assoc]
  · rcases List.mem_append.mp hc with hc | hc
    · exact hstill hro c hc
    · exact hstill' hro c hc

theorem framed_mono (h : Framed v W s s') (hW : ∀ p, W p → W' p) : Framed v W' s s' := fun hsize =>
  let h := h hsize
  ⟨h.size, fun p hp => h.data p fun hw => hp (hW p hw), h.still, h.calls⟩

end

namespace ValidatedVolume

variable (prim : Primitives) (v : ValidatedVolume)

/-- A request to the volume changes only what it was let through to write. -/
theorem framed_exec (hfits : v.volume.Fits) (op : VolOp) :
    Run.Keeps (Framed v fun p => v.Accepts op ∧ v.Writes op p) (v.exec prim op) := by
  intro s hsize
  have hs := @exec_step prim v s hfits hsize op
  generalize (v.exec prim op s).1 = o at hs
  generalize (v.exec prim op s).2 = s' at hs
  cases hs with
  | refused disk => exact frames_of_disk disk
  | empty => exact frames_of_disk rfl
  | marked => exact frames_of_disk rfl
  | performed p =>
    refine ⟨p.size, fun q hq => p.data q fun hw => hq ⟨p.accepts, hw⟩, fun hro => (p.still hro).1,
      _, p.calls,
      fun hro => (p.still hro).2⟩

end ValidatedVolume

/-- The write that a request asks for, by its offset in the volume. -/
def Request.asWrite : Request → Option (Nat × Bytes)
  | .write lba bytes => some (lba * 512, bytes)
  | .volume (.write offset bytes) => some (offset, bytes)
  | _ => none

/-- The position `p` of the image is in the range of this write, which passes all range and
alignment checks. -/
def Request.Writes (v : ValidatedVolume) (r : Request) (p : Nat) : Prop :=
  ∃ offset bytes, r.asWrite = some (offset, bytes) ∧ v.Accepts (.write offset bytes) ∧
    v.Writes (.write offset bytes) p

/-- Every request of the operation, the drained ones included. -/
def AdapterOp.requests : AdapterOp → List Request
  | .request r => [r]
  | .shutdown before drained _ => before ++ drained

namespace Adapter

variable {prim : Primitives} {ext : Parsers} {v : ValidatedVolume} {W : Nat → Prop}

/-- What a run of the adapter does to the file under it. -/
abbrev Keeps {α : Type} (v : ValidatedVolume) (W : Nat → Prop) (m : Run Adapter Error α) : Prop :=
  Run.Keeps (fun a a' : Adapter => Framed v W a.io a'.io) m

theorem keeps_bind {α β : Type} {m : Run Adapter Error α} {f : α → Run Adapter Error β}
    (hm : Keeps v W m) (hf : ∀ a, Keeps v W (f a)) : Keeps v W (m >>= f) :=
  Run.keeps_bind (R := fun a a' : Adapter => Framed v W a.io a'.io) framed_trans hm hf

theorem keeps_lift {α : Type} (x : Outcome Error α) : Keeps v W (.lift x) :=
  fun a => framed_refl a.io

theorem keeps_throw {α : Type} (e : Error) : Keeps v W (.throw e : Run Adapter Error α) :=
  fun a => framed_refl a.io

/-- A counter or a flag of the adapter is not the file. -/
theorem keeps_modify {f : Adapter → Adapter} (hf : ∀ a, (f a).io = a.io) :
    Keeps v W (.modify f : Run Adapter Error Unit) := by
  intro a
  show Framed v W a.io (f a).io
  rw [hf]
  exact framed_refl a.io

theorem keeps_notStopping : Keeps v W notStopping :=
  keeps_bind (fun a => framed_refl a.io) fun _ => keeps_lift _

theorem keeps_onIo {α : Type} {m : Run Io Error α} (h : Run.Keeps (Framed v W) m) :
    Keeps v W (onIo m) :=
  Run.keeps_zoom (fun _ _ => rfl) h

theorem keeps_forget {α : Type} {m : Run Adapter Error α} (h : Keeps v W m) :
    Keeps v W (forget m) :=
  keeps_bind h fun _ a => framed_refl a.io

theorem keeps_sequence {β : Type} {step : β → Run Adapter Error Unit} {bs : List β}
    (h : ∀ b ∈ bs, Keeps v W (step b)) : Keeps v W (sequence step bs) := by
  induction bs with
  | nil => exact fun a => framed_refl a.io
  | cons b bs ih =>
    intro a
    unfold sequence
    have hb := h b List.mem_cons_self a
    split
    · exact hb
    · exact framed_trans hb (ih (fun x hx => h x (List.mem_cons_of_mem _ hx)) _)

/-- A flush writes nothing that was not written before. -/
theorem framed_flush (prim : Primitives) (hfits : v.volume.Fits) :
    Run.Keeps (Framed v W) v.flush := by
  intro s
  have h := v.framed_exec prim hfits .flush s
  rw [show (v.exec prim .flush s).2 = (v.flush s).2 from ValidatedVolume.noBytes_state _ s] at h
  exact framed_mono h fun p hp => hp.2.elim

theorem keeps_flush (prim : Primitives) (hfits : v.volume.Fits) (lba count : Nat) :
    Keeps v W (flush v lba count) := by
  have hv : Keeps v W (flushVolume v) :=
    keeps_bind (keeps_modify fun _ => rfl) fun _ => keeps_onIo (framed_flush prim hfits)
  refine keeps_bind keeps_notStopping fun _ => keeps_bind (keeps_lift _) fun o => ?_
  split
  · split
    · exact hv
    · exact keeps_throw _
  · split
    · exact keeps_throw _
    · exact hv

theorem keeps_exec (hfits : v.volume.Fits) (r : Request) :
    Keeps v (r.Writes v) (exec prim v r) := by
  cases r with
  | read lba count =>
    refine keeps_forget (keeps_bind keeps_notStopping fun _ => keeps_bind (keeps_lift _) fun o =>
      keeps_bind (keeps_lift _) fun n =>
      keeps_bind (keeps_modify fun _ => rfl) fun _ => keeps_onIo fun s => ?_)
    exact framed_mono (v.framed_exec prim hfits (.read o n) s) fun p hp => hp.2.elim
  | write lba bytes =>
    refine keeps_bind (keeps_modify fun _ => rfl) fun _ => keeps_bind (keeps_lift _) fun _ =>
      keeps_bind keeps_notStopping fun _ => ?_
    intro a
    rw [Run.lift_bind]
    rcases hmul : (Outcome.ofOption .invalidRange (checkedMul 64 lba 512) : Outcome Error Nat) with
      o | e | _ | _
    · obtain ⟨-, rfl⟩ := checkedMul_eq_some.mp (Outcome.ofOption_eq_ok.mp hmul)
      refine keeps_onIo (fun s => ?_) a
      have h := v.framed_exec prim hfits (.write (lba * 512) bytes) s
      rw [show (v.exec prim (.write (lba * 512) bytes) s).2 =
        (v.writeAt prim (lba * 512) bytes s).2 from
        ValidatedVolume.noBytes_state _ s] at h
      exact framed_mono h fun p hp => ⟨lba * 512, bytes, rfl, hp⟩
    all_goals exact framed_refl a.io
  | unmap => exact keeps_bind (keeps_modify fun _ => rfl) fun _ => keeps_throw _
  | flush lba count => exact keeps_flush prim hfits lba count
  | stop => exact keeps_modify fun _ => rfl
  | volume op =>
    refine keeps_forget (keeps_onIo fun s =>
      framed_mono (v.framed_exec prim hfits op s) fun p hp => ?_)
    cases op with
    | write offset bytes => exact ⟨offset, bytes, rfl, hp⟩
    | _ => exact hp.2.elim

theorem keeps_mono {α : Type} {W' : Nat → Prop} {m : Run Adapter Error α} (h : Keeps v W m)
    (hW : ∀ p, W p → W' p) : Keeps v W' m := fun a => framed_mono (h a) hW

theorem keeps_perform (hfits : v.volume.Fits) (op : AdapterOp) :
    Keeps v (fun p => ∃ r ∈ op.requests, r.Writes v p) (perform prim v op) := by
  cases op with
  | request r => exact keeps_mono (keeps_exec hfits r) fun p hp =>
      ⟨r, List.mem_singleton_self r, hp⟩
  | shutdown before drained transportError =>
    have hseq : ∀ rs, (∀ r ∈ rs, r ∈ before ++ drained) →
        Keeps v (fun p => ∃ r ∈ before ++ drained, r.Writes v p) (sequence (exec prim v) rs) :=
        fun rs hrs =>
      keeps_sequence fun r hr => keeps_mono (keeps_exec hfits r) fun p hp => ⟨r, hrs r hr, hp⟩
    have hbefore := hseq before fun r hr => List.mem_append_left _ hr
    have hdrain := hseq drained fun r hr => List.mem_append_right _ hr
    -- the focus of `shutdown` is the whole adapter
    have hfocus : ∀ {α : Type} {m : Run Adapter Error α},
        Keeps v (fun p => ∃ r ∈ before ++ drained, r.Writes v p) m →
        Keeps v (fun p => ∃ r ∈ before ++ drained, r.Writes v p) (.zoom id (fun _ a => a) m) :=
        fun h a => h a
    refine keeps_forget (keeps_bind (hfocus (Run.keeps_attempt (keeps_flush prim hfits 0 0)))
      fun synced =>
      keeps_bind hbefore fun _ => keeps_bind (hfocus (keeps_modify fun _ => rfl)) fun _ =>
      keeps_bind (keeps_bind hdrain fun _ a => framed_refl a.io) fun _ =>
      keeps_bind (fun a => framed_refl a.io) fun _ =>
      keeps_bind (fun a => framed_refl a.io) fun _ a => framed_refl a.io)

theorem keeps_run (hfits : v.volume.Fits) (ops : List AdapterOp) :
    Keeps v (fun p => ∃ op ∈ ops, ∃ r ∈ op.requests, r.Writes v p) (run prim v ops) :=
  keeps_sequence fun op hop => keeps_mono (keeps_perform hfits op) fun _ hp => ⟨op, hop, hp⟩

/-- What a write may reach lies in the payload. -/
theorem writes_in_payload {r : Request} {p : Nat} (h : r.Writes v p) :
    (⟨v.volume.offset, v.volume.offset + v.volume.len⟩ : Region Nat).Contains p := by
  obtain ⟨offset, bytes, -, ⟨-, -, hin, -, -⟩, h1, h2⟩ := h
  have hlen : v.len = v.volume.len := rfl
  exact ⟨by show v.volume.offset ≤ p; omega, by show p < v.volume.offset + v.volume.len; omega⟩

/-- **The frame of a session.**  Run any requests on an adapter over an unlocked volume,
against any backend.  The length of the image stays.  A byte that changes lies in the
payload and in the range of a write that passed all checks.  A read-only session changes
nothing and asks for no change.  So the header copies and the keyslot areas are what they
were, and reading the metadata and unlocking any keyslot go as before. -/
theorem run_frames {a : Adapter} (hopen : Opened prim ext v a.io) (ops : List AdapterOp) :
    let F := a.io.disk.file
    let F' := (run prim v ops a).2.io.disk.file
    F'.size = F.size ∧
    (∀ p, F'.data p ≠ F.data p →
      (⟨v.volume.offset, v.volume.offset + v.volume.len⟩ : Region Nat).Contains p ∧
      ∃ op ∈ ops, ∃ r ∈ op.requests, r.Writes v p) ∧
    (v.mode = .readOnly → F' = F ∧ ∃ new,
      (run prim v ops a).2.io.disk.calls = a.io.disk.calls ++ new ∧
      ∀ c ∈ new, c.mutates = false) ∧
    ∃ m header size areas, Metadata.headerOf prim ext F.data v.volume.image.len 0 = .ok header ∧
      keyslotAreas header.json = some areas ∧ Layout header.size size v.volume.image.len areas m ∧
      (∀ r ∈ (⟨0, header.size⟩ :: ⟨header.size, 2 * header.size⟩ :: areas.map Area.region :
        List (Region Nat)),
        ∀ p, r.Contains p → F'.data p = F.data p) ∧
      ∀ img : Image, img.len = v.volume.image.len →
        Computes img.len F (Metadata.read prim ext img) (.ok m) ∧
        Computes img.len F' (Metadata.read prim ext img) (.ok m) ∧
        SameRun F F' (Metadata.read prim ext img) ∧
        ∀ keyslot password, SameRun F F' (UnlockedVolume.unlock prim ext img keyslot password) := by
  intro F F'
  have h : Frames v _ a.io (run prim v ops a).2.io := keeps_run hopen.fits ops a hopen.size
  have hdata : ∀ p, F'.data p ≠ F.data p → ∃ op ∈ ops, ∃ r ∈ op.requests, r.Writes v p := by
    intro p hp
    by_contra hno
    exact hp (h.data p hno)
  refine ⟨h.size, fun p hp => ?_, fun hro => ?_, ?_⟩
  · obtain ⟨op, hop, r, hr, hw⟩ := hdata p hp
    exact ⟨writes_in_payload hw, op, hop, r, hr, hw⟩
  · obtain ⟨new, hnew, hstill⟩ := h.calls
    exact ⟨h.still hro, new, hnew, hstill hro⟩
  · obtain ⟨image, keyslot, password, d, d', hfile, hunlock⟩ := hopen.unlocked
    obtain ⟨himage, m, header, size, areas, hm, hheader, hareas, hlayout, hoff, hlen⟩ :=
      layout_of_unlock hunlock
    rw [hfile, ← himage] at hm hheader
    rw [← himage] at hlayout
    -- nothing in front of the payload has changed
    have hfront : ∀ p, p < m.offset → F'.data p = F.data p := by
      intro p hp
      by_contra hne
      obtain ⟨op, -, r, -, hw⟩ := hdata p hne
      have : v.volume.offset ≤ p := (writes_in_payload hw).1
      omega
    have hheaders := hlayout.headers_before
    have hbefore := hlayout.areas_before
    have hm' : Metadata.readOf prim ext F'.data v.volume.image.len = .ok m :=
      Metadata.readOf_congr hheader hm fun p hp => (hfront p (by omega)).symm
    refine ⟨m, header, size, areas, hheader, hareas, hlayout, fun r hr p hp => hfront p ?_,
      fun img himg => ?_⟩
    · obtain ⟨-, hp⟩ := hp
      simp only [List.mem_cons, List.mem_map] at hr
      rcases hr with rfl | rfl | ⟨area, harea, rfl⟩
      · dsimp only at hp
        omega
      · dsimp only at hp
        omega
      · have hstop : area.region.stop ≤ 2 * header.size + size :=
          (hlayout.areas_fit area harea).within.2
        omega
    · rw [← himg] at hm hm' hheader
      have hread := Metadata.computes_read prim ext img F
      have hread' := Metadata.computes_read prim ext img F'
      rw [hm] at hread
      rw [hm'] at hread'
      exact ⟨hread, hread', Metadata.sameRun_read img hheader hm h.size.symm fun p hp =>
        (hfront p (by omega)).symm,
        sameRun_unlock img hm h.size.symm fun p hp => (hfront p hp).symm⟩

theorem run_frames_sample :
    let a : Adapter := .new (Sample.io [.limit 1, .fail .other [7]])
    (run Sample.prim (Sample.volume .readWrite) [.request (.write 1 (zeros 512)),
      .shutdown [] [.read 0 1] 0] a).2.io.disk.file.size =
      a.io.disk.file.size :=
  (run_frames (a := .new (Sample.io [.limit 1, .fail .other [7]])) (Sample.opened .readWrite _) _).1

end Adapter

end Winluks
