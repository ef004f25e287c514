import Winluks.Unlock
import Winluks.VolumeSpec

/-!
# Sessions

A session is a sequence of requests to one volume, executed one at a time.  An
unwinding request is caught by its caller, so the session goes on after it; when
the machine stops inside a request, nothing follows.  `run` keeps a trace of the
requests, their outcomes and the calls they made.

A session starts `Opened`: the volume was unlocked from the file that it is
about to work on.  `run_invariant` carries a property of past and state through
a session, and `run_sticky` is the sticky fault in both directions.
-/

namespace Winluks

open Lib

/-- A request, how it ended, and the calls it made. -/
structure Event where
  op : VolOp
  outcome : Outcome Error Bytes
  calls : List Call

variable (prim : Primitives)

namespace ValidatedVolume

variable (v : ValidatedVolume)

def event (s : Io) (op : VolOp) : Event where
  op := op
  outcome := (v.exec prim op s).1
  calls := (v.exec prim op s).2.disk.calls.drop s.disk.calls.length

def run : List VolOp → Io → List Event × Io
  | [], s => ([], s)
  | op :: ops, s =>
    let s' := (v.exec prim op s).2
    if (v.exec prim op s).1 = .halt then ([v.event prim s op], s')
    else (v.event prim s op :: (run ops s').1, (run ops s').2)

variable {prim v}

theorem step_size {s s' : Io} {op : VolOp} {o : Outcome Error Bytes} (h : v.Step prim s op o s') :
    s'.disk.file.size = s.disk.file.size := by
  cases h with
  | refused disk => rw [disk]
  | empty => rfl
  | marked => rfl
  | performed p => exact p.size

/-- Calls are only added to the log. -/
theorem step_calls {s s' : Io} {op : VolOp} {o : Outcome Error Bytes} (h : v.Step prim s op o s') :
    ∃ new, s'.disk.calls = s.disk.calls ++ new := by
  cases h with
  | refused disk => exact ⟨[], by rw [disk, List.append_nil]⟩
  | empty => exact ⟨[], by rw [List.append_nil]⟩
  | marked => exact ⟨[], by simp⟩
  | performed p => exact ⟨_, p.calls⟩

/-- **The run rule.**  What holds at the start, and what every step of a session
that is still going carries on, holds of every session. -/
theorem run_invariant (hfits : v.volume.Fits) {P : List Event → Io → Prop}
    (step : ∀ past s e s', P past s → (∀ x ∈ past, x.outcome ≠ .halt) →
      v.Step prim s e.op e.outcome s' →
      s'.disk.calls = s.disk.calls ++ e.calls → P (past ++ [e]) s')
    (ops : List VolOp) {s : Io} (hsize : s.disk.file.size = v.volume.image.len) (h : P [] s) :
    P (v.run prim ops s).1 (v.run prim ops s).2 := by
  have go : ∀ (ops : List VolOp) (past : List Event) (s : Io), s.disk.file.size =
      v.volume.image.len → (∀ x ∈ past, x.outcome ≠ .halt) → P past s →
      P (past ++ (v.run prim ops s).1) (v.run prim ops s).2 := by
    intro ops
    induction ops with
    | nil =>
      intro past s _ _ h
      simpa [run] using h
    | cons op ops ih =>
      intro past s hsize hpast h
      have hs := @exec_step prim v s hfits hsize op
      have hcalls : (v.exec prim op s).2.disk.calls = s.disk.calls ++
          (v.event prim s op).calls := by
        obtain ⟨new, hnew⟩ := step_calls hs
        show _ = _ ++ (v.exec prim op s).2.disk.calls.drop _
        rw [hnew, List.drop_left]
      have h' := step past s (v.event prim s op) _ h hpast hs hcalls
      unfold run
      dsimp only
      split
      · exact h'
      · next hne =>
        have := ih (past ++ [v.event prim s op]) (v.exec prim op s).2
          ((step_size hs).trans hsize) ?_ h'
        · rwa [List.append_assoc] at this
        · intro x hx
          rcases List.mem_append.mp hx with hx | hx
          · exact hpast x hx
          · obtain rfl := List.mem_singleton.mp hx
            exact hne
  simpa using go ops [] s hsize nofun h

end ValidatedVolume

/-! ## How a session starts -/

variable (ext : Parsers)

/-- The volume was unlocked from the file, whose length is still the one it was opened with. -/
structure Opened (v : ValidatedVolume) (s : Io) : Prop where
  unlocked : ∃ image keyslot password d d', d.file = s.disk.file ∧
    UnlockedVolume.unlock prim ext image keyslot password d = (.ok v.volume, d')
  size : s.disk.file.size = v.volume.image.len
  ready : s.poisoned = false ∧ s.faulted = false

variable {prim ext}

/-- The metadata and the layout behind an unlocked volume. -/
theorem layout_of_unlock {image : Image} {keyslot : Nat} {password : Bytes} {d d' : Disk}
    {vol : UnlockedVolume} (h : UnlockedVolume.unlock prim ext image keyslot password d =
      (.ok vol, d')) :
    vol.image = image ∧ ∃ m a size areas, Metadata.readOf prim ext d.file.data image.len = .ok m ∧
      Metadata.headerOf prim ext d.file.data image.len 0 = .ok a ∧
      keyslotAreas a.json = some areas ∧
      Layout a.size size image.len areas m ∧ vol.offset = m.offset ∧ vol.len = m.length := by
  have hof := ((UnlockedVolume.computes_unlock prim ext image keyslot password d.file).ok rfl h).1
  simp only [UnlockedVolume.unlockOf, Outcome.bind_eq_ok] at hof
  obtain ⟨m, hm, _, -, _, -, s, -, key, -, hret⟩ := hof
  cases hret
  obtain ⟨a, b, ha, -, -, -, -, -, -, -, hjson⟩ := Metadata.readOf_ok hm
  obtain ⟨size, areas, -, hareas, hlayout⟩ := Metadata.layout_of_fromJson hjson
  exact ⟨rfl, m, a, size, areas, hm, ha, hareas, hlayout, rfl, rfl⟩

theorem fits_of_unlock {image : Image} {keyslot : Nat} {password : Bytes} {d d' : Disk}
    {vol : UnlockedVolume} (h : UnlockedVolume.unlock prim ext image keyslot password d =
      (.ok vol, d')) : vol.Fits := by
  obtain ⟨himage, m, a, size, areas, -, -, -, hlayout, hoff, hlen⟩ := layout_of_unlock h
  have hin := hlayout.payload_inside
  have hal := hlayout.length_aligned
  refine ⟨?_, ?_⟩
  · rw [himage, hoff, hlen]
    omega
  · rw [hlen]
    omega

theorem Opened.fits {v : ValidatedVolume} {s : Io} (h : Opened prim ext v s) : v.volume.Fits := by
  obtain ⟨image, keyslot, password, d, d', -, hunlock⟩ := h.unlocked
  exact fits_of_unlock hunlock

/-- What `validate` hands over is opened: a probe only reads. -/
theorem opened_of_validate {image : Image} {keyslot : Nat} {password : Bytes} {d d' : Disk}
    {vol : UnlockedVolume} (hunlock :
      UnlockedVolume.unlock prim ext image keyslot password d = (.ok vol, d'))
    (hsize : d.file.size = image.len) {crc32c : Bytes → UInt32} {fs : Filesystem}
    {v : ValidatedVolume} {s : Io}
    (hv : vol.validate prim crc32c fs ⟨d', false, false⟩ = (.ok v, s)) : Opened prim ext v s := by
  have himage := (layout_of_unlock hunlock).1
  have hfile := ((UnlockedVolume.computes_unlock prim ext image keyslot password d.file).ok
    rfl hunlock).2
  obtain ⟨_, s', hcheck, hret⟩ := Run.bind_run_eq_ok.mp hv
  cases hret
  have hfits := fits_of_unlock hunlock
  obtain ⟨h1, h2⟩ : s.disk.file = d.file ∧ s.poisoned = false ∧ s.faulted = false := by
    refine Probe.check_keeps crc32c (P := fun s => s.disk.file = d.file ∧ s.poisoned = false ∧
      s.faulted = false) (fun off n b s s' hs hread => ?_) hcheck ⟨hfile, rfl, rfl⟩
    have hstep := @ValidatedVolume.readAt_step prim ⟨vol, fs⟩ s hfits off n
    rw [show (ValidatedVolume.exec prim ⟨vol, fs⟩ (.read off n) s) = (.ok b, s') from
      hread] at hstep
    obtain ⟨hf, hp⟩ := hs
    cases hstep with
    | empty => exact ⟨hf, hp⟩
    | performed p =>
      refine ⟨(p.effect b rfl).1.trans hf, p.good fun c hc => ?_⟩
      by_contra hbad
      exact (p.bad ⟨c, hc, fun hg => hbad ⟨hg.1, hg.2.1⟩⟩).1 b rfl
  exact ⟨⟨image, keyslot, password, d, d', h1.symm, hunlock⟩, by rw [h1, himage]; exact hsize, h2⟩

/-! ## A small session -/

namespace Sample

def key : VolumeKey := ⟨zeros 32, Or.inl (zeros_length 32)⟩

/-- The volume of the small image, and its session at the start. -/
def volume (mode : AccessMode) : ValidatedVolume := ⟨⟨image mode, 163840, 131072, key⟩, .btrfs⟩

def io (plan : List Action) : Io := ⟨{ disk (store 1 body) with plan := plan }, false, false⟩

theorem unlocked (mode : AccessMode) : ∃ d', d'.Steady imageLen ∧ UnlockedVolume.unlock Sample.prim
    parsers (image mode) 1 password (disk (store 1 body)) = (.ok (volume mode).volume, d') := by
  obtain ⟨⟨bytes, hsize⟩, d', rfl, hunlock⟩ := unlock mode
  have h := UnlockedVolume.steadily_unlock Sample.prim parsers (image mode) 1 password _
    (disk_steady (store 1 body))
  rw [hunlock] at h
  exact ⟨d', h.1, hunlock⟩

theorem opened (mode : AccessMode) (plan : List Action) :
    Opened Sample.prim parsers (volume mode) (io plan) := by
  obtain ⟨d', -, hunlock⟩ := unlocked mode
  exact ⟨⟨image mode, 1, password, disk (store 1 body), d', rfl, hunlock⟩, rfl, rfl, rfl⟩

end Sample

/-! ## The sticky fault -/

/-- A call of the request failed or unwound. -/
def Event.Failed (len : Nat) (x : Event) : Prop :=
  ∃ c ∈ x.calls, c.failed len = true ∨ c.panicked = true

namespace ValidatedVolume

variable {v : ValidatedVolume} {s s' : Io} {e : Event}

/-- A request with such a call is not acknowledged, and latches a writable session. -/
theorem step_failed (h : v.Step prim s e.op e.outcome s')
    (hcalls : s'.disk.calls = s.disk.calls ++ e.calls) (hbad : e.Failed v.volume.image.len) :
    (∀ b, e.outcome ≠ .ok b) ∧
      (v.mode = .readWrite → s'.faulted = true ∨ s'.poisoned = true ∨ e.outcome = .halt) := by
  obtain ⟨c, hc, hbad⟩ := hbad
  have hmade : s'.disk ≠ s.disk := fun hd => by
    rw [hd] at hcalls
    rw [List.append_right_eq_self.mp hcalls.symm] at hc
    cases hc
  obtain ⟨op, outcome, calls⟩ := e
  cases h with
  | refused disk => exact absurd disk hmade
  | empty => exact absurd rfl hmade
  | marked => exact absurd rfl hmade
  | performed p =>
    have hnew := List.append_cancel_left (p.calls.symm.trans hcalls)
    refine p.bad ⟨c, by rwa [hnew], fun hg => ?_⟩
    obtain ⟨h1, h2, -⟩ := hg
    rcases hbad with hbad | hbad
    · rw [h1] at hbad
      cases hbad
    · rw [h2] at hbad
      cases hbad

/-- A latched session refuses every request before it reaches the file, and stays latched. -/
theorem step_latched (h : v.Step prim s e.op e.outcome s')
    (hcalls : s'.disk.calls = s.disk.calls ++ e.calls) (hl : s.faulted = true ∨ s.poisoned = true) :
    (s'.faulted = true ∨ s'.poisoned = true) ∧ s'.disk = s.disk ∧ e.calls = [] ∧
      (e.op ≠ .markFaulted → ∃ err, e.outcome = .err err) := by
  have hempty : s'.disk = s.disk → e.calls = [] := fun hd => by
    rw [hd] at hcalls
    exact List.append_right_eq_self.mp hcalls.symm
  have hready : ¬ (s.poisoned = false ∧ s.faulted = false) := by
    rintro ⟨h1, h2⟩
    rw [h1, h2] at hl
    rcases hl with hl | hl <;> cases hl
  obtain ⟨op, outcome, calls⟩ := e
  cases h with
  | refused disk poisoned faulted =>
    refine ⟨?_, disk, hempty disk, fun _ => ⟨_, rfl⟩⟩
    rw [poisoned]
    rcases faulted with hf | ⟨-, hf⟩
    · rw [hf]
      exact hl
    · exact Or.inl hf
  | empty ready => exact absurd ready hready
  | marked => exact ⟨Or.inl rfl, rfl, hempty rfl, fun hne => absurd rfl hne⟩
  | performed p => exact absurd p.ready hready

/-- Nothing but a failed call, or a request to do so, latches a session. -/
theorem step_clear (h : v.Step prim s e.op e.outcome s')
    (hcalls : s'.disk.calls = s.disk.calls ++ e.calls) (hop : e.op ≠ .markFaulted)
    (hgood : ¬ e.Failed v.volume.image.len)
    (hc : s.faulted = false ∧ s.poisoned = false) : s'.faulted = false ∧ s'.poisoned = false := by
  obtain ⟨op, outcome, calls⟩ := e
  cases h with
  | refused disk poisoned faulted =>
    rcases faulted with hf | ⟨hp, -⟩
    · exact ⟨hf.trans hc.1, poisoned.trans hc.2⟩
    · rw [hc.2] at hp
      cases hp
  | empty => exact hc
  | marked => exact absurd rfl hop
  | performed p =>
    have hnew := List.append_cancel_left (p.calls.symm.trans hcalls)
    refine (p.good fun c hmem => ?_).symm
    rw [hnew] at hmem
    constructor
    · exact Bool.eq_false_iff.mpr fun h => hgood ⟨c, hmem, Or.inl h⟩
    · exact Bool.eq_false_iff.mpr fun h => hgood ⟨c, hmem, Or.inr h⟩

/-- Past and state of a session, as far as faults go. -/
structure Sticky (v : ValidatedVolume) (past : List Event) (s : Io) : Prop where
  refused : ∀ x ∈ past, x.Failed v.volume.image.len → ∀ b, x.outcome ≠ .ok b
  later : past.Pairwise fun x y => x.Failed v.volume.image.len → y.op ≠ .markFaulted →
    (∃ err, y.outcome = .err err) ∧ y.calls = []
  latched : (∃ x ∈ past, x.Failed v.volume.image.len) →
    s.faulted = true ∨ s.poisoned = true ∨ ∃ x ∈ past, x.outcome = .halt
  clear : (∀ x ∈ past, x.op ≠ .markFaulted ∧ ¬ x.Failed v.volume.image.len) → s.faulted = false ∧
    s.poisoned = false

theorem sticky_step {past : List Event} (hmode : v.mode = .readWrite) (h : v.Sticky past s)
    (hpast : ∀ x ∈ past, x.outcome ≠ .halt) (hs : v.Step prim s e.op e.outcome s')
    (hcalls : s'.disk.calls = s.disk.calls ++ e.calls) : v.Sticky (past ++ [e]) s' := by
  have hlatch : (∃ x ∈ past, x.Failed v.volume.image.len) → s.faulted = true ∨
      s.poisoned = true := by
    intro hx
    rcases h.latched hx with hl | hl | ⟨x, hx, hhalt⟩
    · exact Or.inl hl
    · exact Or.inr hl
    · exact absurd hhalt (hpast x hx)
  constructor
  case refused =>
    intro x hx
    rcases List.mem_append.mp hx with hx | hx
    · exact h.refused x hx
    · obtain rfl := List.mem_singleton.mp hx
      exact fun hbad => (step_failed hs hcalls hbad).1
  case later =>
    refine List.pairwise_append.mpr ⟨h.later, List.pairwise_singleton _ _,
      fun x hx y hy hbad hop => ?_⟩
    obtain rfl := List.mem_singleton.mp hy
    obtain ⟨-, -, hnone, herr⟩ := step_latched hs hcalls (hlatch ⟨x, hx, hbad⟩)
    exact ⟨herr hop, hnone⟩
  case latched =>
    rintro ⟨x, hx, hbad⟩
    rcases List.mem_append.mp hx with hx | hx
    · rcases (step_latched hs hcalls (hlatch ⟨x, hx, hbad⟩)).1 with hl | hl
      · exact Or.inl hl
      · exact Or.inr (Or.inl hl)
    · obtain rfl := List.mem_singleton.mp hx
      rcases (step_failed hs hcalls hbad).2 hmode with hl | hl | hl
      · exact Or.inl hl
      · exact Or.inr (Or.inl hl)
      · exact Or.inr (Or.inr ⟨x, List.mem_append_right _ (List.mem_singleton_self x), hl⟩)
  case clear =>
    intro hall
    obtain ⟨hop, hgood⟩ := hall e (List.mem_append_right _ (List.mem_singleton_self e))
    exact step_clear hs hcalls hop hgood (h.clear fun x hx => hall x (List.mem_append_left _ hx))

theorem op_mem_of_mem_run {ops : List VolOp} {x : Event} (hx : x ∈ (v.run prim ops s).1) :
    x.op ∈ ops := by
  induction ops generalizing s with
  | nil => cases hx
  | cons op ops ih =>
    unfold run at hx
    dsimp only at hx
    split at hx
    · obtain rfl := List.mem_singleton.mp hx
      exact List.mem_cons_self
    · rcases List.mem_cons.mp hx with rfl | hx
      · exact List.mem_cons_self
      · exact List.mem_cons_of_mem _ (ih hx)

/-- **The sticky fault.**  In a writable session opened by `unlock`: a request
one of whose calls fails or unwinds is not acknowledged, and every later request
is an error that makes no call.  Without such a call, and unless it is asked
for, the session is never faulted, whatever the requests are. -/
theorem run_sticky (hopen : Opened prim ext v s) (hmode : v.mode = .readWrite) (ops : List VolOp) :
    (∀ x ∈ (v.run prim ops s).1, x.Failed v.volume.image.len → ∀ b, x.outcome ≠ .ok b) ∧
    (v.run prim ops s).1.Pairwise (fun x y => x.Failed v.volume.image.len → y.op ≠ .markFaulted →
      (∃ err, y.outcome = .err err) ∧ y.calls = []) ∧
    ((∀ op ∈ ops, op ≠ .markFaulted) → (∀ x ∈ (v.run prim ops s).1, ¬ x.Failed v.volume.image.len) →
      (v.run prim ops s).2.faulted = false ∧ (v.run prim ops s).2.poisoned = false) := by
  have hstart : v.Sticky [] s := by
    refine ⟨nofun, List.Pairwise.nil, ?_, fun _ => hopen.ready.symm⟩
    rintro ⟨x, hx, -⟩
    cases hx
  have h : v.Sticky (v.run prim ops s).1 (v.run prim ops s).2 :=
    run_invariant hopen.fits (fun _ _ _ _ h hpast hs hcalls => sticky_step hmode h hpast hs hcalls)
      ops hopen.size hstart
  exact ⟨h.refused, h.later, fun hops hgood => h.clear fun x hx =>
    ⟨hops _ (op_mem_of_mem_run hx), hgood x hx⟩⟩

theorem run_sticky_sample :
    ((Sample.volume .readWrite).run Sample.prim [.flush, .write 0 (zeros 512), .read 0 512]
    (Sample.io [.limit 1, .fail .other []])).1.Pairwise fun x y =>
      x.Failed Sample.imageLen → y.op ≠ .markFaulted → (∃ err, y.outcome = .err err) ∧
      y.calls = [] :=
  (run_sticky (Sample.opened .readWrite [.limit 1, .fail .other []]) rfl _).2.1

end ValidatedVolume

end Winluks
