import Winluks.Threads
import Winluks.CryptoLaws

/-!
# The verdict of the shutdown

`shutdown` flushes, stores the stop flag, drains, and only then looks at the
fault flag.  A request that was let in before the stop can fail at any moment,
also after the flush; what carries the verdict is that a failure is on its way
to the flag until it is set (`Wounded`), that the flag is never cleared, and that
a drain leaves nobody on the way.

The invariants are one lemma for each kind of step: `step_excludes` (the mutex),
`step_wounded`, `step_quiet` (after the drain), `step_late` (after the stop), and
`step_progress` (a write holds the mutex from its first byte to its sync).
-/

namespace Winluks

open Lib

/-! ## Backend calls -/

namespace Work

variable {img : Image} {w w' : Work} {d d' : Disk}

theorem goes_calls (h : Goes img d d' w w') :
    ∃ new, d'.calls = d.calls ++ new ∧ ∀ c ∈ new, c.Good img.len := by
  have hcheck (hlen : img.checkLen d = (.ok (), d')) :
      ∃ new, d'.calls = d.calls ++ new ∧ ∀ c ∈ new, c.Good img.len := by
    obtain ⟨new, hspec⟩ := img.checkLen_spec d
    rw [hlen] at hspec
    exact ⟨new, hspec.calls, hspec.ends⟩
  have hsame : d' = d → ∃ new, d'.calls = d.calls ++ new ∧ ∀ c ∈ new, c.Good img.len :=
    fun hd => ⟨[], by rw [hd, List.append_nil], nofun⟩
  cases h with
  | readLen hlen => exact hcheck hlen
  | readAgain hlt hread =>
    obtain ⟨-, ⟨r, hcalls, rfl⟩, -⟩ := readOnce_spec hread
    exact ⟨_, hcalls, by simp [Call.Good, Call.failed, Call.panicked, Call.halted]⟩
  | readMore hlt hread =>
    obtain ⟨-, ⟨r, hcalls, rfl⟩, -⟩ := readOnce_spec hread
    exact ⟨_, hcalls, by simp [Call.Good, Call.failed, Call.panicked, Call.halted]⟩
  | readDone hd => exact hsame hd
  | writeLen hlen => exact hcheck hlen
  | writeAgain hlt hwrite =>
    exact ⟨_, (writeOnce_spec
      hwrite).1, by simp [Call.Good, Call.failed, Call.panicked, Call.halted]⟩
  | writeMore hlt hwrite =>
    exact ⟨_, (writeOnce_spec
      hwrite).1, by simp [Call.Good, Call.failed, Call.panicked, Call.halted]⟩
  | writeDone hge hd => exact hsame hd
  | syncLen hlen hw => exact hcheck hlen
  | syncing hsync =>
    exact ⟨_, (syncAll_spec hsync).1, by simp [Call.Good, Call.failed, Call.panicked, Call.halted]⟩
  | finished hd => exact hsame hd

variable {target : Nat} {buf : Bytes}

/-- A file that answers every call in full. -/
def Answers (img : Image) (d : Disk) : Prop := d.plan = [] ∧ d.file.size = img.len

theorem answers_checkLen (h : Answers img d) :
    ∃ d', img.checkLen d = (.ok (), d') ∧ Answers img d' := by
  obtain ⟨hplan, hsize⟩ := h
  refine ⟨d.log (.metadata (.ok d.file.size)), ?_, by simp [Disk.log, hplan], hsize⟩
  simp [Image.checkLen, fileLen, Disk.next, hplan, hsize, Run.bind_run, Run.mapErr, Outcome.mapErr]

theorem answers_writeLen (h : Answers img d) (hmode : img.mode = .readWrite)
    (hin : target + buf.length ≤ img.len) :
    ∃ d', step img (.writeLen target buf) d = (.ok (.writing target buf 0), d') ∧
    Answers img d' := by
  obtain ⟨d', hrun, h'⟩ := answers_checkLen h
  refine ⟨d', ?_, h'⟩
  simp only [step]
  rw [Outcome.failIf_neg (not_not_intro hmode), Outcome.failIf_neg (by omega)]
  exact Run.bind_run_of hrun

theorem answers_writing (h : Answers img d) (hne : 0 < buf.length)
    (hin : target + buf.length ≤ img.len) :
    ∃ d', step img (.writing target buf 0) d = (.ok (.writing target buf buf.length), d') ∧
    Answers img d' := by
  obtain ⟨hplan, hsize⟩ := h
  refine ⟨{ d with file := d.file.write target buf }.log
    (.write target buf.length (.ok buf.length)), ?_,
    by simp [Disk.log, hplan], ?_⟩
  · obtain ⟨n, hn⟩ : ∃ n, buf.length = n + 1 := ⟨buf.length - 1, by omega⟩
    simp only [step, if_pos hne, writeOnce, Disk.next, hplan, List.headD_nil, List.drop_zero,
      Nat.add_zero, Nat.min_self, List.take_length]
    rw [hn]
    simp
  · simp [Disk.log, File.write, hsize, hin]

theorem answers_syncLen (h : Answers img d) (hmode : img.mode = .readWrite) :
    ∃ d', step img .syncLen d = (.ok .syncing, d') ∧ Answers img d' := by
  obtain ⟨d', hrun, h'⟩ := answers_checkLen h
  refine ⟨d', ?_, h'⟩
  simp only [step, if_pos hmode]
  exact Run.bind_run_of hrun

theorem answers_syncing (h : Answers img d) :
    ∃ d', step img .syncing d = (.ok (.finished []), d') ∧ Answers img d' := by
  obtain ⟨hplan, hsize⟩ := h
  refine ⟨{ d with file := d.file.sync }.log (.sync (.ok ())), ?_, by simp [Disk.log, hplan], hsize⟩
  simp [step, syncAll, Disk.next, hplan, Run.bind_run, Run.mapErr, Outcome.mapErr]

end Work

/-! ## Arrivals -/

namespace Adapter

variable {v : ValidatedVolume} {c : Callback} {a a' : Adapter}

/-- A step on the way to the mutex: at most a count changes. -/
def Counts (a a' : Adapter) : Prop := a'.io = a.io ∧ a'.stopping = a.stopping

theorem counts_bind {α β : Type} {m : Run Adapter Error α} {f : α → Run Adapter Error β}
    (hm : Run.Keeps Counts m) (hf : ∀ x, Run.Keeps Counts (f x)) : Run.Keeps Counts (m >>= f) :=
  Run.keeps_bind (fun h h' => ⟨h'.1.trans h.1, h'.2.trans h.2⟩) hm hf

theorem arrive_counts (v : ValidatedVolume) (c : Callback) : Run.Keeps Counts (arrive v c) := by
  have hlift : ∀ {α : Type} (x : Outcome Error α), Run.Keeps Counts (Run.lift x) :=
    fun _ _ => ⟨rfl, rfl⟩
  have hstop : Run.Keeps Counts notStopping := fun _ => ⟨rfl, rfl⟩
  have hflush : Run.Keeps Counts arriveFlush := fun _ => ⟨rfl, rfl⟩
  have hthrow : ∀ {α : Type} (e : Error), Run.Keeps Counts (Run.throw e : Run Adapter Error α) :=
    fun _ _ => ⟨rfl, rfl⟩
  cases c with
  | read lba count =>
    exact counts_bind hstop fun _ => counts_bind (hlift _) fun _ =>
      counts_bind (hlift _) fun _ _ => ⟨rfl, rfl⟩
  | write lba count buffer =>
    exact counts_bind (fun _ => ⟨rfl, rfl⟩) fun _ =>
      counts_bind (hlift _) fun _ => counts_bind hstop fun _ =>
      counts_bind (hlift _) fun _ => counts_bind (hlift _) fun _ => counts_bind (hlift _) fun _ =>
      counts_bind (hlift _) fun _ _ => ⟨rfl, rfl⟩
  | control op lba count =>
    simp only [arrive]
    split
    · refine counts_bind hstop fun _ => counts_bind (hlift _) fun _ => ?_
      split
      · split
        · exact hflush
        · exact hthrow _
      · split
        · exact hthrow _
        · exact hflush
    · split
      · exact fun _ => ⟨rfl, rfl⟩
      · exact hthrow _

theorem running_of_notStopping {u : Unit} (h : notStopping a = (.ok u, a')) :
    a.stopping = false ∧ a' = a := by
  simp only [notStopping, Run.gets_bind, Run.lift_run, Prod.mk.injEq, Outcome.failIf_eq_ok] at h
  exact ⟨eq_false_of_ne_true h.1, h.2.symm⟩

/-- **A request gets to the mutex only in a running adapter.**  A write then has the bytes of its
buffer. -/
theorem arrive_ok {job : Job} (h : arrive v c a = (.ok job, a')) :
    a.stopping = false ∧ ∀ lba count buffer, c = .write lba count buffer →
      job = .write (lba * 512) (slice buffer 0 (count * 512)) := by
  cases c with
  | read lba count =>
    obtain ⟨_, _, hstop, -⟩ := Run.bind_run_eq_ok.mp h
    refine ⟨(running_of_notStopping hstop).1, ?_⟩
    rintro _ _ _ ⟨⟩
  | write lba count buffer =>
    simp only [arrive, Run.bind_run_eq_ok, Run.modify_run, Run.lift_run, Prod.mk.injEq,
      Outcome.ofOption_eq_ok, checkedMul_eq_some] at h
    obtain ⟨_, _, ⟨-, rfl⟩, _, _, ⟨-, rfl⟩, _, _, hstop, o, _, ⟨⟨-, rfl⟩, rfl⟩, _, _, -, _, _, -, _,
      _, -, hret⟩ := h
    cases hret
    refine ⟨(running_of_notStopping hstop).1, ?_⟩
    rintro _ _ _ ⟨⟩
    rfl
  | control op lba count =>
    refine ⟨?_, by rintro _ _ _ ⟨⟩⟩
    simp only [arrive] at h
    split at h
    · obtain ⟨_, _, hstop, -⟩ := Run.bind_run_eq_ok.mp h
      exact (running_of_notStopping hstop).1
    · split at h
      · obtain ⟨_, _, hunmap, -⟩ := Run.bind_run_eq_ok.mp h
        cases hunmap
      · cases h

end Adapter

/-! ## Places -/

namespace Place

variable {prim : Primitives} {v : ValidatedVolume} {job : Job} {l : Place}

/-- Not on the way to the backend. -/
def Away : Place → Prop
  | .idle => True
  | .entered => True
  | .handler => True
  | .leaving _ => True
  | .returned _ => True
  | _ => False

theorem not_drained_of_inside (h : l.Inside) : ¬ l.Drained := by
  cases l <;> first | exact id | exact h.elim

theorem inside_of_checked {faulted : Bool} (h : checked prim v job faulted = some l) :
    l.Inside := by
  unfold checked at h
  split at h
  · cases h
    trivial
  · split at h <;> cases h <;> trivial

theorem inside_of_worked {o : Outcome Error Work} (h : worked prim v job o = some l) :
    l.Inside := by
  unfold worked at h
  split at h <;> cases h
  case h_3 => split <;> trivial
  all_goals trivial

end Place

namespace Threads

variable {ι : Type} {T : Threads ι} {D D' : Prop}

/-! ## Writes -/

/-- The ciphertext of a write, and where it goes. -/
structure Encrypts (T : Threads ι) (off : Nat) (bytes : Bytes) (target : Nat) (buf : Bytes) :
    Prop where
  encrypt : encryptSectors T.prim T.volume.volume.key.bytes (off / 512) bytes = .ok buf
  target : checkedAdd 64 T.volume.volume.offset off = some target

/-- Between the calls of a write: what it has written so far is in the file. -/
def Written (T : Threads ι) (off : Nat) (bytes : Bytes) (d : Disk) : Work → Prop
  | .writeLen target buf => T.Encrypts off bytes target buf
  | .writing target buf done =>
    T.Encrypts off bytes target buf ∧ done ≤ buf.length ∧
    slice d.file.data target done = buf.take done
  | .syncLen => ∃ target buf, T.Encrypts off bytes target buf ∧
      slice d.file.data target buf.length = buf
  | .syncing => ∃ target buf, T.Encrypts off bytes target buf ∧
      slice d.file.data target buf.length = buf
  | _ => False

/-- Just after a sync that made the whole write durable. -/
structure Durable (T : Threads ι) (off : Nat) (bytes : Bytes) (d : Disk) : Prop where
  sync : d.calls.getLast? = some (.sync (.ok ()))
  stored : ∃ target buf, T.Encrypts off bytes target buf ∧
    slice d.file.durable target buf.length = buf

/-- **A write loses nothing on its way**, and its last call is a sync. -/
theorem written_step {off : Nat} {bytes : Bytes} {d d' : Disk} {w w' : Work}
    (hmode : T.volume.mode = .readWrite) (h : Work.Goes T.volume.volume.image d d' w w')
    (hw : T.Written off bytes d w) :
    T.Written off bytes d' w' ∨ w' = .finished [] ∧ T.Durable off bytes d' := by
  cases h with
  | writeLen hlen => exact Or.inl ⟨hw, Nat.zero_le _, rfl⟩
  | writeAgain hlt hwrite =>
    obtain ⟨-, bs, -, hf, -⟩ := writeOnce_spec hwrite
    obtain ⟨henc, hle, hdata⟩ := hw
    refine Or.inl ⟨henc, hle, ?_⟩
    rw [hf]
    exact (slice_overlay_disjoint _ _ _ (Or.inl (Nat.le_refl _))).trans hdata
  | writeMore hlt hwrite =>
    rename_i target buf done n
    obtain ⟨-, bs, -, hf, hn⟩ := writeOnce_spec hwrite
    obtain ⟨hle, rfl⟩ := hn _ rfl
    obtain ⟨henc, -, hdata⟩ := hw
    rw [List.length_drop] at hle
    refine Or.inl ⟨henc, by omega, ?_⟩
    have hlen : ((buf.drop done).take (n + 1)).length = n + 1 := by
      rw [List.length_take, List.length_drop]
      omega
    rw [hf, slice_add]
    show slice (overlay d.file.data (target + done) _) target done ++
      slice (overlay d.file.data (target + done) _) (target + done) (n + 1) = _
    have hself := slice_overlay_self d.file.data (target + done) ((buf.drop done).take (n + 1))
    rw [hlen] at hself
    rw [slice_overlay_disjoint _ _ _ (Or.inl (Nat.le_refl _)), hdata, hself, ← List.take_add]
  | writeDone hge hd =>
    rename_i target buf done
    obtain ⟨henc, hle, hdata⟩ := hw
    obtain rfl : done = buf.length := by omega
    subst hd
    exact Or.inl ⟨target, buf, henc, by rw [hdata, List.take_length]⟩
  | syncLen hlen hw' =>
    obtain ⟨new, hspec⟩ := T.volume.volume.image.checkLen_spec d
    rw [hlen] at hspec
    obtain ⟨target, buf, henc, hdata⟩ := hw
    have hmode : T.volume.volume.image.mode = .readWrite := hmode
    rw [hw', if_pos hmode]
    exact Or.inl ⟨target, buf, henc, by rw [hspec.file, hdata]⟩
  | syncing hsync =>
    obtain ⟨hcalls, hok, -⟩ := syncAll_spec hsync
    obtain ⟨target, buf, henc, hdata⟩ := hw
    refine Or.inr ⟨rfl, by rw [hcalls]; exact List.getLast?_concat, target, buf, henc, ?_⟩
    rw [hok rfl]
    exact hdata
  | readLen _ | readAgain _ _ | readMore _ _ | readDone _ | finished _ => exact hw.elim

theorem prepare_none {off : Nat} {bytes : Bytes}
    (h : T.volume.prepare T.prim (.write off bytes) = .ok none) : bytes = [] := by
  by_contra hne
  simp only [ValidatedVolume.prepare, if_neg hne, Outcome.bind_eq_ok, Outcome.pure_eq] at h
  obtain ⟨_, -, _, -, hret⟩ := h
  cases hret

theorem prepare_some {off : Nat} {bytes : Bytes} {w : Work}
    (h : T.volume.prepare T.prim (.write off bytes) = .ok (some w)) :
    ∃ target buf, w = .writeLen target buf ∧ T.Encrypts off bytes target buf := by
  by_cases hempty : bytes = []
  · simp [ValidatedVolume.prepare, hempty] at h
  · simp only [ValidatedVolume.prepare, if_neg hempty, Outcome.bind_eq_ok, Outcome.pure_eq,
      Outcome.ofOption_eq_ok] at h
    obtain ⟨buf, hbuf, target, htarget, hret⟩ := h
    cases hret
    exact ⟨target, buf, rfl, hbuf, htarget⟩

/-- How far the write `off`, `bytes` of a party has come; `D` once it is acknowledged. -/
def Progress (T : Threads ι) (off : Nat) (bytes : Bytes) (D : Prop) (l : Place)
    (g : Shared ι) : Prop :=
  match l with
  | .acquire job => job = .write off bytes
  | .check job => job = .write off bytes
  | .working job w => job = .write off bytes ∧ T.Written off bytes g.disk w
  | .release o => o = .ok () → D
  | .leaving status => status = 0 → D
  | .returned status => status = 0 → D
  | _ => True

theorem progress_mono {off : Nat} {bytes : Bytes} {l : Place} {g g' : Shared ι}
    (h : T.Progress off bytes D l g) (hD : D → D') (hdisk : l.Inside → g'.disk = g.disk) :
    T.Progress off bytes D' l g' := by
  cases l with
  | working job w => exact ⟨h.1, by rw [hdisk trivial]; exact h.2⟩
  | release o => exact fun ho => hD (h ho)
  | leaving status => exact fun h0 => hD (h h0)
  | returned status => exact fun h0 => hD (h h0)
  | _ => exact h

/-! ## The steps -/

variable [DecidableEq ι] {p q : Party ι} {i : ι} {s s' : State ι}

theorem step_place_of_ne (h : T.Step p s s') (hq : q ≠ p) : s'.place q = s.place q := by
  cases h <;> exact Parties.move_place_of_ne hq

/-- Nothing clears the flags. -/
theorem step_flags (h : T.Step p s s') : (s.shared.faulted = true → s'.shared.faulted = true) ∧
    (s.shared.stopping = true → s'.shared.stopping = true) := by
  cases h with
  | arrive p hp hrefused hrun hl =>
    rename_i o a l
    have hframe := Adapter.arrive_counts T.volume (T.callback p) s.shared.adapter
    rw [hrun] at hframe
    refine ⟨fun hf => ?_, fun hs => hframe.2.trans hs⟩
    show a.io.faulted = true
    rw [hframe.1]
    exact hf
  | fault p hp => exact ⟨fun _ => rfl, id⟩
  | handle i hp => exact ⟨fun _ => rfl, id⟩
  | stop hp => exact ⟨id, fun _ => rfl⟩
  | release p hp hl =>
    rename_i o l
    cases o <;> exact ⟨id, id⟩
  | _ => exact ⟨id, id⟩

/-- Only the owner of the mutex is inside. -/
theorem step_excludes (h : T.Step p s s')
    (hex : s.All (Parties.Excludes Place.Inside Shared.owner)) :
    s'.All (Parties.Excludes Place.Inside Shared.owner) := by
  cases h with
  | arrive p hp hrefused hrun hl =>
    rename_i o a l
    cases o <;> cases hl <;> exact Parties.excludes_keep hex rfl False.elim
  | acquire p hp hfree => exact Parties.excludes_take hex hfree rfl
  | check p hp hl => exact Parties.excludes_keep hex rfl fun _ => by rw [hp]; trivial
  | work p hp hrun hl => exact Parties.excludes_keep hex rfl fun _ => by rw [hp]; trivial
  | fault p hp => exact Parties.excludes_keep hex rfl fun _ => by rw [hp]; trivial
  | release p hp hl =>
    rename_i o l
    cases o <;> cases hl <;> exact Parties.excludes_leave hex (by rw [hp]; trivial) id
  | _ => exact Parties.excludes_keep hex rfl False.elim

/-! ### Failures -/

/-- The session failed, or a failure is on its way to the flag. -/
def Wounded (s : State ι) : Prop := s.shared.faulted = true ∨ ∃ p, (s.place p).Hit

theorem step_hit (h : T.Step p s s') (hhit : (s.place p).Hit) :
    s'.shared.faulted = true ∨ (s'.place p).Hit := by
  cases h with
  | fault p hp => exact Or.inl rfl
  | handle i hp => exact Or.inl rfl
  | release p hp hl =>
    rename_i o l
    rw [hp] at hhit
    cases o with
    | panic =>
      cases hl
      refine Or.inr ?_
      rw [Parties.move_place]
      trivial
    | _ => exact hhit.elim
  | enter _ hp | refuse _ hp | arrive _ hp | acquire _ hp | check _ hp | work _ hp | leave _ hp
  | flushed hp | stop hp | drain _ hp | verdict hp =>
    rw [hp] at hhit
    exact hhit.elim

theorem step_wounded (h : T.Step p s s') (hw : Wounded s) : Wounded s' := by
  rcases hw with hf | ⟨q, hq⟩
  · exact Or.inl ((step_flags h).1 hf)
  · by_cases hqp : q = p
    · subst hqp
      rcases step_hit h hq with hf | hhit
      · exact Or.inl hf
      · exact Or.inr ⟨q, hhit⟩
    · refine Or.inr ⟨q, ?_⟩
      rw [step_place_of_ne h hqp]
      exact hq

/-- **A step in a writable session** makes good calls only, or puts its party on the way to the
fault flag. -/
theorem step_sound (hmode : T.volume.mode = .readWrite) (h : T.Step p s s') : (s'.place p).Hit ∨
    ∃ new, s'.shared.disk.calls = s.shared.disk.calls ++ new ∧
    ∀ c ∈ new, c.Good T.volume.volume.image.len := by
  have hsame : s'.shared.disk = s.shared.disk → (s'.place p).Hit ∨
      ∃ new, s'.shared.disk.calls = s.shared.disk.calls ++ new ∧
      ∀ c ∈ new, c.Good T.volume.volume.image.len :=
    fun hd => Or.inr ⟨[], by rw [hd, List.append_nil], nofun⟩
  cases h with
  | work p hp hrun hl =>
    rename_i job w o d l
    cases o with
    | ok w' => exact Or.inr (Work.goes_calls (Work.goes_of_step hrun))
    | err e =>
      have hfaults : T.volume.faults job = true := by
        cases job <;> simp [ValidatedVolume.faults, hmode]
      cases hl
      left
      rw [Parties.move_place, if_pos hfaults]
      trivial
    | panic =>
      cases hl
      left
      rw [Parties.move_place]
      trivial
    | halt => cases hl
  | arrive p hp hrefused hrun hl =>
    rename_i o a l
    have hframe := Adapter.arrive_counts T.volume (T.callback p) s.shared.adapter
    rw [hrun] at hframe
    exact hsame (congrArg Io.disk hframe.1)
  | release p hp hl =>
    rename_i o l
    refine hsame ?_
    cases o <;> rfl
  | _ => exact hsame rfl

/-! ### The drain -/

/-- After the drain, no request is on its way. -/
def Quiet (s : State ι) : Prop := (s.place .shutdown).Drained → ∀ i, (s.place (.request i)).Settled

/-- What has returned stays, and nobody enters after the drain. -/
theorem not_step_of_drained (hdrained : (s.place .shutdown).Drained)
    (hsettled : (s.place (.request i)).Settled) :
    ¬ T.Step (.request i) s s' := by
  intro h
  cases h with
  | enter _ hp hno => exact hno hdrained
  | refuse _ hp | arrive _ hp | acquire _ hp | check _ hp | work _ hp | fault _ hp | release _ hp
  | handle _ hp | leave _ hp =>
    rw [hp] at hsettled
    exact hsettled

/-- The last two steps of the shutdown. -/
theorem drained_cases (h : T.Step .shutdown s s') (hdrained : (s'.place .shutdown).Drained) :
    (∃ syncFailed transportError, s.place .shutdown = .stopped syncFailed ∧
      (∀ i, (s.place (.request i)).Settled) ∧
      s' = s.move .shutdown (.drained syncFailed transportError) s.shared) ∨
    ∃ syncFailed transportError, s.place .shutdown = .drained syncFailed transportError ∧
      s' = s.move .shutdown (.verdict (syncFailed || transportError ≠ 0 || s.shared.faulted))
        s.shared := by
  cases h with
  | drain t hp hsettled => exact Or.inl ⟨_, t, hp, hsettled, rfl⟩
  | verdict hp => exact Or.inr ⟨_, _, hp, rfl⟩
  | arrive _ hp hrefused hrun hl =>
    rename_i o a l
    rw [Parties.move_place] at hdrained
    cases o <;> cases hl <;> exact hdrained.elim
  | acquire _ hp hfree =>
    rw [Parties.move_place] at hdrained
    split at hdrained <;> exact hdrained.elim
  | check _ hp hl =>
    rw [Parties.move_place] at hdrained
    exact absurd hdrained (Place.not_drained_of_inside (Place.inside_of_checked hl))
  | work _ hp hrun hl =>
    rw [Parties.move_place] at hdrained
    exact absurd hdrained (Place.not_drained_of_inside (Place.inside_of_worked hl))
  | release _ hp hl =>
    rename_i o l
    rw [Parties.move_place] at hdrained
    cases o <;> cases hl <;> exact hdrained.elim
  | enter _ hp | refuse _ hp | fault _ hp | flushed hp | stop hp =>
    rw [Parties.move_place] at hdrained
    exact hdrained.elim

theorem step_quiet (h : T.Step p s s') (hquiet : Quiet s) : Quiet s' := by
  intro hdrained i
  cases p with
  | request j =>
    have hplace : s'.place .shutdown = s.place .shutdown := step_place_of_ne h nofun
    rw [hplace] at hdrained
    exact absurd h (not_step_of_drained hdrained (hquiet hdrained j))
  | shutdown =>
    have hplace : s'.place (.request i) = s.place (.request i) := step_place_of_ne h nofun
    rw [hplace]
    rcases drained_cases h hdrained with ⟨_, _, -, hsettled, -⟩ | ⟨_, _, hp, -⟩
    · exact hsettled i
    · exact hquiet (by rw [hp]; trivial) i

/-- The verdict is the last step of all. -/
theorem not_step_of_verdict {failed : Bool} (hquiet : Quiet s)
    (hv : s.place .shutdown = .verdict failed) :
    ¬ T.Step p s s' := by
  have hdrained : (s.place .shutdown).Drained := by
    rw [hv]
    trivial
  cases p with
  | request i => exact not_step_of_drained hdrained (hquiet hdrained i)
  | shutdown =>
    intro h
    cases h with
    | enter _ hp | refuse _ hp | arrive _ hp | acquire _ hp | check _ hp | work _ hp | fault _ hp
    | release _ hp | flushed hp | stop hp | drain _ hp | verdict hp => cases hv.symm.trans hp

/-- A good verdict comes from a session that did not fail. -/
def Honest (s : State ι) : Prop := s.place .shutdown = .verdict false → s.shared.faulted = false

theorem honest_of_step (h : T.Step p s s') (hquiet : Quiet s) : Honest s' := by
  intro hv
  cases p with
  | request i =>
    have hplace : s'.place .shutdown = s.place .shutdown := step_place_of_ne h nofun
    exact absurd h (not_step_of_verdict hquiet (hplace.symm.trans hv))
  | shutdown =>
    rcases drained_cases h (by rw [hv]; trivial) with ⟨_, _, -, -, rfl⟩ | ⟨syncFailed, t, -, rfl⟩
    · rw [Parties.move_place] at hv
      cases hv
    · rw [Parties.move_place] at hv
      have hall : (syncFailed || decide (t ≠ 0) || s.shared.faulted) = false := Place.verdict.inj hv
      exact (Bool.or_eq_false_iff.mp hall).2

/-! ### After the stop -/

/-- The adapter is stopped, and request `i` has not got past the flag. -/
def Late (i : ι) (s : State ι) : Prop := s.shared.stopping = true ∧ (s.place (.request i)).Away

theorem step_away (h : T.Step (.request i) s s') (hlate : Late i s) :
    (s'.place (.request i)).Away ∧ s'.shared.disk = s.shared.disk := by
  obtain ⟨hstopping, haway⟩ := hlate
  cases h with
  | enter _ hp | refuse _ hp | handle _ hp | leave _ hp =>
    rw [Parties.move_place]
    exact ⟨trivial, rfl⟩
  | arrive _ hp hrefused hrun hl =>
    rename_i o a l
    have hframe := Adapter.arrive_counts T.volume (T.callback (.request i)) s.shared.adapter
    rw [hrun] at hframe
    rw [Parties.move_place]
    refine ⟨?_, congrArg Io.disk hframe.1⟩
    cases o with
    | ok job =>
      have hrunning : s.shared.stopping = false := (Adapter.arrive_ok hrun).1
      rw [hstopping] at hrunning
      cases hrunning
    | err e =>
      cases hl
      trivial
    | panic =>
      cases hl
      trivial
    | halt => cases hl
  | acquire _ hp | check _ hp | work _ hp | fault _ hp | release _ hp =>
    rw [hp] at haway
    exact haway.elim

theorem step_late (h : T.Step p s s') (hlate : Late i s) : Late i s' := by
  refine ⟨(step_flags h).2 hlate.1, ?_⟩
  by_cases hp : p = .request i
  · subst hp
    exact (step_away h hlate).1
  · rw [step_place_of_ne h (Ne.symm hp)]
    exact hlate.2

/-! ### Writes -/

variable {lba count : Nat} {buffer : Store}

/-- **A step of the write.** -/
theorem progress_step (hmode : T.volume.mode = .readWrite)
    (hreq : T.request i = .write lba count buffer) (h : T.Step (.request i) s s')
    (hprogress : T.Progress (lba * 512) (slice buffer 0 (count * 512)) D
      (s.place (.request i)) s.shared)
    (hD : D → D') (hempty : slice buffer 0 (count * 512) = [] → D')
    (hdurable : s'.shared.owner = s.shared.owner → (s.place (.request i)).Inside →
      T.Durable (lba * 512) (slice buffer 0 (count * 512)) s'.shared.disk → D') :
    T.Progress (lba * 512) (slice buffer 0 (count * 512)) D' (s'.place (.request i)) s'.shared := by
  cases h with
  | enter _ hp hdrained =>
    rw [Parties.move_place]
    trivial
  | refuse _ hp hrefused =>
    rw [Parties.move_place]
    exact nofun
  | arrive _ hp hrefused hrun hl =>
    rename_i o a l
    rw [Parties.move_place]
    cases o with
    | ok job =>
      cases hl
      exact (Adapter.arrive_ok hrun).2 lba count buffer hreq
    | err e =>
      cases hl
      exact fun h0 => absurd h0 (code_ne_zero e)
    | panic =>
      cases hl
      trivial
    | halt => cases hl
  | acquire _ hp hfree =>
    rw [hp] at hprogress
    rw [Parties.move_place]
    split
    · trivial
    · exact hprogress
  | check _ hp hl =>
    rename_i job l
    rw [hp] at hprogress
    obtain rfl : job = _ := hprogress
    rw [Parties.move_place]
    unfold Place.checked at hl
    split at hl
    · cases hl
      exact nofun
    · split at hl
      · next hprepare =>
        cases hl
        exact fun _ => hempty (prepare_none hprepare)
      · next hprepare =>
        cases hl
        obtain ⟨target, buf, rfl, henc⟩ := prepare_some hprepare
        exact ⟨rfl, henc⟩
      · cases hl
        exact nofun
      · cases hl
        exact nofun
      · cases hl
  | work _ hp hrun hl =>
    rename_i job w o d l
    rw [hp] at hprogress
    obtain ⟨rfl, hwritten⟩ := hprogress
    rw [Parties.move_place]
    cases o with
    | ok w' =>
      rcases written_step hmode (Work.goes_of_step hrun) hwritten with hw' | ⟨rfl, hsynced⟩
      · cases w'
        case finished bytes => exact hw'.elim
        all_goals
          cases hl
          exact ⟨rfl, hw'⟩
      · cases hl
        exact fun _ => hdurable rfl (by rw [hp]; trivial) hsynced
    | err e =>
      cases hl
      trivial
    | panic =>
      cases hl
      exact nofun
    | halt => cases hl
  | fault _ hp =>
    rw [Parties.move_place]
    exact nofun
  | release _ hp hl =>
    rename_i o l
    rw [hp] at hprogress
    rw [Parties.move_place]
    cases o with
    | ok u =>
      cases hl
      exact fun _ => hD (hprogress rfl)
    | err e =>
      cases hl
      exact fun h0 => absurd h0 (code_ne_zero e)
    | panic =>
      cases hl
      trivial
    | halt => cases hl
  | handle _ hp =>
    rw [Parties.move_place]
    exact nofun
  | leave _ hp =>
    rw [hp] at hprogress
    rw [Parties.move_place]
    exact fun h0 => hD (hprogress h0)

/-- Only the owner of the mutex works on the file. -/
theorem step_disk (h : T.Step p s s') : (s.place p).Inside ∨ s'.shared.disk = s.shared.disk := by
  cases h with
  | work _ hp =>
    left
    rw [hp]
    trivial
  | arrive _ hp hrefused hrun hl =>
    rename_i o a l
    have hframe := Adapter.arrive_counts T.volume (T.callback p) s.shared.adapter
    rw [hrun] at hframe
    exact Or.inr (congrArg Io.disk hframe.1)
  | release _ hp hl =>
    rename_i o l
    cases o <;> exact Or.inr rfl
  | _ => exact Or.inr rfl

/-! ## A run -/

/-- One request: a write of the first sector. -/
def sample : Threads Unit := ⟨Sample.prim, Sample.volume .readWrite, fun _ => .write 0 1 fun _ => 0⟩

def sampleStart : State Unit := ⟨fun _ => .idle, .new (Sample.io []), none⟩

theorem sample_arrive {a : Adapter} (h : a.stopping = false) :
    Adapter.arrive sample.volume (.write 0 1 fun _ => 0) a =
      (.ok (.write 0 (slice (fun _ => 0) 0 512)),
        { a with writeAttempts := Adapter.bump a.writeAttempts }) := by
  simp [Adapter.arrive, Adapter.notStopping, h, sample, ValidatedVolume.mode, Sample.volume,
    Sample.image, checkedMul, checkedRange, maxTransfer, ValidatedVolume.len, Run.bind_run,
    Outcome.failIf]

theorem sample_check : ∃ enc : Bytes, enc.length = 512 ∧
    Place.checked sample.prim sample.volume (.write 0 (slice (fun _ => 0) 0 512)) false =
      some (.working (.write 0 (slice (fun _ => 0) 0 512)) (.writeLen 163840 enc)) := by
  have hin : Cryptable Sample.key.bytes 0 (slice (fun _ => 0) 0 512).length := by
    rw [slice_length]
    exact ⟨Or.inl rfl, rfl, by decide, fun i hi => by omega⟩
  obtain ⟨enc, henc⟩ := @cryptSectors_total Sample.prim .encrypt _ _
    (Sample.xtsTotal.serves hin.key) _ hin
  have hlen : enc.length = (slice (fun _ => 0) 0 512).length := cryptSectors_length _ henc
  rw [slice_length] at hlen
  refine ⟨enc, hlen, ?_⟩
  have hne : slice (fun _ => 0) 0 512 ≠ [] :=
    List.ne_nil_of_length_pos (by rw [slice_length]; decide)
  have hprepare : sample.volume.prepare sample.prim (.write 0 (slice (fun _ => 0) 0 512)) =
      .ok (some (.writeLen 163840 enc)) := by
    simp only [ValidatedVolume.prepare, if_neg hne]
    have henc : encryptSectors sample.prim sample.volume.volume.key.bytes (0 / 512)
        (slice (fun _ => 0) 0 512) = .ok enc := henc
    rw [henc]
    rfl
  simp only [Place.checked, hprepare]
  rfl

theorem sample_run : ∃ s, Reaches sample.Step sampleStart s ∧ s.place .shutdown = .verdict false ∧
    s.place (.request ()) = .returned 0 := by
  have hmode : sample.volume.volume.image.mode = .readWrite := rfl
  have h : Reaches sample.Step sampleStart sampleStart := .refl _
  -- the flush of the shutdown
  have h := h.step (.enter .shutdown rfl id)
  have h := h.step (.arrive .shutdown rfl rfl rfl rfl)
  have h := h.step (.acquire .shutdown rfl rfl)
  have h := h.step (.check .shutdown rfl rfl)
  have hd : Work.Answers sample.volume.volume.image (Sample.io []).disk := ⟨rfl, rfl⟩
  obtain ⟨d, hrun, hd⟩ := Work.answers_syncLen hd hmode
  have h := h.step (.work .shutdown rfl hrun rfl)
  obtain ⟨d, hrun, hd⟩ := Work.answers_syncing hd
  have h := h.step (.work .shutdown rfl hrun rfl)
  have h := h.step (.release .shutdown rfl rfl)
  have h := h.step (.flushed rfl)
  -- the write is let in before the stop, and works while the transport drains
  have h := h.step (.enter (.request ()) rfl id)
  have h := h.step (.arrive (.request ()) rfl rfl (sample_arrive rfl) rfl)
  have h := h.step (.stop rfl)
  have h := h.step (.acquire (.request ()) rfl rfl)
  obtain ⟨enc, hlen, hcheck⟩ := sample_check
  have h := h.step (.check (.request ()) rfl hcheck)
  have hin : 163840 + enc.length ≤ sample.volume.volume.image.len := by
    rw [hlen]
    decide
  obtain ⟨d, hrun, hd⟩ := Work.answers_writeLen hd hmode hin
  have h := h.step (.work (.request ()) rfl hrun rfl)
  obtain ⟨d, hrun, hd⟩ := Work.answers_writing hd (by omega) hin
  have h := h.step (.work (.request ()) rfl hrun rfl)
  have h := h.step (.work (.request ()) rfl (if_neg (Nat.lt_irrefl _)) rfl)
  obtain ⟨d, hrun, hd⟩ := Work.answers_syncLen hd hmode
  have h := h.step (.work (.request ()) rfl hrun rfl)
  obtain ⟨d, hrun, hd⟩ := Work.answers_syncing hd
  have h := h.step (.work (.request ()) rfl hrun rfl)
  have h := h.step (.release (.request ()) rfl rfl)
  have h := h.step (.leave () rfl)
  have h := h.step (.drain 0 rfl fun i => by cases i; trivial)
  have h := h.step (.verdict rfl)
  exact ⟨_, h, rfl, rfl⟩

/-! ## All runs -/

/-- A write of nothing, or one that was durable at a moment of the run when its request held the
mutex. -/
def Acked (T : Threads ι) (s₀ s : State ι) (i : ι) (off : Nat) (bytes : Bytes) : Prop :=
  bytes = [] ∨ ∃ m, Reaches T.Step s₀ m ∧ Reaches T.Step m s ∧ m.shared.owner = some (.request i) ∧
    T.Durable off bytes m.shared.disk

section
variable {s₀ : State ι}

theorem run_excludes (hstart : Start s₀) (h : Reaches T.Step s₀ s) :
    s.All (Parties.Excludes Place.Inside Shared.owner) :=
  h.invariant (fun p hin => by rw [hstart.idle p] at hin; exact hin.elim)
    fun _ _ _ _ hex hp => step_excludes hp hex

theorem run_quiet (hstart : Start s₀) (h : Reaches T.Step s₀ s) : Quiet s :=
  h.invariant (fun hd => by rw [hstart.idle] at hd; exact hd.elim) fun _ _ _ _ hquiet hp =>
  step_quiet hp hquiet

theorem run_honest (hstart : Start s₀) (h : Reaches T.Step s₀ s) : Honest s :=
  h.invariant (fun hv => by rw [hstart.idle] at hv; cases hv)
    fun _ _ _ hm _ hp => honest_of_step hp (run_quiet hstart hm)

theorem run_wounded (h : Reaches T.Step s s') (hw : Wounded s) : Wounded s' :=
  h.invariant hw fun _ _ _ _ hw hp => step_wounded hp hw

theorem run_sound (hmode : T.volume.mode = .readWrite) (h : Reaches T.Step s₀ s) : Wounded s ∨
    ∃ new, s.shared.disk.calls = s₀.shared.disk.calls ++ new ∧
    ∀ c ∈ new, c.Good T.volume.volume.image.len := by
  refine h.invariant (I := fun s => Wounded s ∨
    ∃ new, s.shared.disk.calls = s₀.shared.disk.calls ++ new ∧
    ∀ c ∈ new, c.Good T.volume.volume.image.len) (Or.inr ⟨[], (List.append_nil _).symm, nofun⟩) ?_
  rintro p m m' - (hw | ⟨new, hcalls, hgood⟩) hp
  · exact Or.inl (step_wounded hp hw)
  · rcases step_sound hmode hp with hhit | ⟨new', hcalls', hgood'⟩
    · exact Or.inl (Or.inr ⟨p, hhit⟩)
    · refine Or.inr ⟨new ++ new', by rw [hcalls', hcalls, List.append_assoc], fun c hc => ?_⟩
      rcases List.mem_append.mp hc with hc | hc
      · exact hgood c hc
      · exact hgood' c hc

theorem run_late (h : Reaches T.Step s s') (hlate : Late i s) : Late i s' :=
  h.invariant hlate fun _ _ _ _ hlate hp => step_late hp hlate

/-- **The mutex covers a write.**  What its request has written is in the file until it is
synced. -/
theorem run_progress (hmode : T.volume.mode = .readWrite) (hstart : Start s₀)
    (hreq : T.request i = .write lba count buffer) (h : Reaches T.Step s₀ s) :
    T.Progress (lba * 512) (slice buffer 0 (count * 512))
      (T.Acked s₀ s i (lba * 512) (slice buffer 0 (count * 512)))
      (s.place (.request i)) s.shared := by
  refine h.invariant (I := fun s => T.Progress (lba * 512) (slice buffer 0 (count * 512))
    (T.Acked s₀ s i (lba * 512) (slice buffer 0 (count * 512))) (s.place (.request i)) s.shared)
    (by rw [hstart.idle]; trivial) ?_
  intro p m m' hm hprogress hp
  have hex := run_excludes hstart hm
  have hlater : T.Acked s₀ m i (lba * 512) (slice buffer 0 (count * 512)) →
      T.Acked s₀ m' i (lba * 512) (slice buffer 0 (count * 512)) := by
    rintro (hempty | ⟨x, hx, hxm, howner, hdurable⟩)
    · exact Or.inl hempty
    · exact Or.inr ⟨x, hx, hxm.step hp, howner, hdurable⟩
  by_cases hpi : p = .request i
  · subst hpi
    refine progress_step hmode hreq hp hprogress hlater Or.inl fun howner hin hdurable => ?_
    exact Or.inr ⟨m', hm.step hp, .refl m', howner.trans (hex _ hin), hdurable⟩
  · rw [step_place_of_ne hp (Ne.symm hpi)]
    refine progress_mono hprogress hlater fun hin => ?_
    rcases step_disk hp with hin' | hdisk
    · exact absurd (Parties.eq_of_inside hex hin' hin) hpi
    · exact hdisk

/-- **The verdict of the shutdown.**  In any interleaving of any requests with one shutdown of a
writable session: when it returns false, no request failed or unwound at any moment; an acknowledged
write was synced while its request held the mutex; nothing happens after the verdict; and a request
that has not looked at the stop flag when it is set never touches the file. -/
theorem shutdown_verdict (hmode : T.volume.mode = .readWrite) (hstart : Start s₀)
    (h : Reaches T.Step s₀ s) :
    (s.place .shutdown = .verdict false →
      (∀ m p, Reaches T.Step s₀ m → Reaches T.Step m s → ¬ (m.place p).Hit) ∧
      ∃ new, s.shared.disk.calls = s₀.shared.disk.calls ++ new ∧
        ∀ c ∈ new, c.failed T.volume.volume.image.len = false ∧ c.panicked = false) ∧
    (∀ i lba count buffer, T.request i = .write lba count buffer →
      s.place (.request i) = .returned 0 →
      T.Acked s₀ s i (lba * 512) (slice buffer 0 (count * 512))) ∧
    (∀ failed m, s.place .shutdown = .verdict failed → Reaches T.Step s m →
      m.shared.disk = s.shared.disk) ∧
    ∀ i m m', s.shared.stopping = true → s.place (.request i) = .idle ∨
      s.place (.request i) = .entered →
      Reaches T.Step s m → T.Step (.request i) m m' → m'.shared.disk = m.shared.disk := by
  have hquiet := run_quiet hstart h
  refine ⟨fun hv => ?_, fun i lba count buffer hreq hret => ?_, fun failed m hv hm => ?_, ?_⟩
  · have hclean : ¬ Wounded s := by
      rintro (hf | ⟨p, hhit⟩)
      · rw [run_honest hstart h hv] at hf
        cases hf
      · cases p with
        | shutdown =>
          rw [hv] at hhit
          exact hhit
        | request i =>
          have hsettled := hquiet (by rw [hv]; trivial) i
          revert hhit hsettled
          cases s.place (.request i) <;> exact fun hhit hsettled => by
            first | exact hhit | exact hsettled
    refine ⟨fun m p _ hms hhit => hclean (run_wounded hms (Or.inr ⟨p, hhit⟩)), ?_⟩
    obtain ⟨new, hcalls, hgood⟩ := (run_sound hmode h).resolve_left hclean
    exact ⟨new, hcalls, fun c hc => ⟨(hgood c hc).1, (hgood c hc).2.1⟩⟩
  · have hprogress := run_progress hmode hstart hreq h
    rw [hret] at hprogress
    exact hprogress rfl
  · rw [hm.eq_of_final fun _ _ => not_step_of_verdict hquiet hv]
  · intro i m m' hstopping hearly hm hstep
    have hlate : Late i s := ⟨hstopping, by rcases hearly with he | he <;> rw [he] <;> trivial⟩
    exact (step_away hstep (run_late hm hlate)).2

end

/-- A write that works during the drain. -/
theorem shutdown_verdict_sample : ∃ s, Reaches sample.Step sampleStart s ∧
    s.place .shutdown = .verdict false ∧
    (∀ m p, Reaches sample.Step sampleStart m → Reaches sample.Step m s → ¬ (m.place p).Hit) ∧
    sample.Acked sampleStart s () 0 (slice (fun _ => 0) 0 512) := by
  obtain ⟨s, h, hv, hret⟩ := sample_run
  obtain ⟨hclean, hacked, -⟩ := shutdown_verdict (T := sample) rfl ⟨rfl, rfl, fun _ => rfl⟩ h
  exact ⟨s, h, hv, (hclean hv).1, hacked () 0 1 (fun _ => 0) rfl hret⟩

end Threads

end Winluks
