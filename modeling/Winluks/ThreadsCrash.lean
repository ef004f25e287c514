import Winluks.Linear

/-!
# A crash among the threads

A crash can come at any state of an interleaving, also in the middle of a
request.  `Near` says what it finds of the file: outside the range of the
request that holds the mutex, the content with which that request began.
`Touch` carries this along the steps of the holder; nobody else touches the
file.  `threads_crash` puts it together with the session behind the
interleaving.
-/

namespace Winluks

open Lib Machine

/-! ## Backend calls -/

/-- The call writes nowhere else. -/
def Work.Targets (W : Nat → Prop) : Work → Prop
  | .writeLen target buf => ∀ p, target ≤ p → p < target + buf.length → W p
  | .writing target buf _ => ∀ p, target ≤ p → p < target + buf.length → W p
  | _ => True

namespace Work

variable {W : Nat → Prop} {f : Store} {img : Image} {w w' : Work} {d d' : Disk}

theorem targets_step (h : w.step img d = (.ok w', d')) (hw : w.Targets W) : w'.Targets W := by
  cases goes_of_step h with
  | syncLen _ hw' =>
    subst hw'
    split <;> trivial
  | _ => first | exact hw | trivial

/-- The program stays near what it found. -/
abbrev Stays {ε α : Type} (W : Nat → Prop) (f : Store) (m : Run Disk ε α) : Prop :=
  Run.Keeps (fun d d' : Disk => d.file.Near W f → d'.file.Near W f) m

theorem stays_bind {α β : Type} {m : Run Disk Error α} {g : α → Run Disk Error β} (hm : Stays W f m)
    (hg : ∀ a, Stays W f (g a)) : Stays W f (m >>= g) :=
    Run.keeps_bind (fun h h' hn => h' (h hn)) hm hg

theorem stays_lift {α : Type} (x : Outcome Error α) : Stays W f (.lift x : Run Disk Error α) :=
  fun _ h => h

theorem stays_checkLen : Stays W f img.checkLen := fun d h => by rwa [img.checkLen_file]

theorem stays_syncAll : Stays W f (syncAll.mapErr fun _ => .backendIo : Run Disk Error Unit) := by
  intro d h
  rcases hs : syncAll d with ⟨o, d'⟩
  obtain ⟨-, hok, hno⟩ := syncAll_spec hs
  show (syncAll d).2.file.Near W f
  rw [hs]
  by_cases ho : o = .ok ()
  · rw [hok ho]
    exact near_sync h
  · rw [hno ho]
    exact h

/-- **A call stays near** what its request began with. -/
theorem stays_step (hw : w.Targets W) : Stays W f (w.step img) := by
  cases w with
  | readLen target size =>
      exact stays_bind (stays_lift _) fun _ => stays_bind stays_checkLen fun _ => stays_lift _
  | reading target size got =>
    intro d h
    simp only [step]
    split
    · rcases hread : readOnce (target + got.length) (size - got.length) d with ⟨o, d'⟩
      obtain ⟨hfile, -⟩ := readOnce_spec hread
      rw [← hfile] at h
      rcases o with (_ | _) | (_ | _) | _ | _ <;> exact h
    · exact h
  | writeLen target buf =>
    exact stays_bind (stays_lift _) fun _ => stays_bind (stays_lift _) fun _ =>
      stays_bind stays_checkLen fun _ => stays_lift _
  | writing target buf done =>
    intro d h
    simp only [step]
    split
    · rcases hwrite : writeOnce (target + done) (buf.drop done) d with ⟨o, d'⟩
      obtain ⟨-, bs, hlen, hfile, -⟩ := writeOnce_spec hwrite
      have h' : d'.file.Near W f := by
        rw [hfile]
        refine near_write h fun p h1 h2 => hw p (by omega) ?_
        rw [List.length_drop] at hlen
        omega
      rcases o with (_ | _) | (_ | _) | _ | _ <;> exact h'
    · exact h
  | syncLen => exact stays_bind stays_checkLen fun _ => stays_lift _
  | syncing => exact stays_bind stays_syncAll fun _ => stays_lift _
  | finished bytes => exact stays_lift _

/-- A backend that cuts the first write of a buffer. -/
theorem cut_write {target n : Nat} {buf : Bytes} {plan : List Action}
    (hplan : d.plan = .limit 0 :: .limit (n + 1) :: plan) (hsize : d.file.size = img.len)
    (hmode : img.mode = .readWrite) (hin : target + buf.length ≤ img.len)
    (hn : n + 1 ≤ buf.length) :
    ∃ d₁ d₂, step img (.writeLen target buf) d = (.ok (.writing target buf 0), d₁) ∧
      step img (.writing target buf 0) d₁ = (.ok (.writing target buf (n + 1)), d₂) := by
  let d₁ := d.log (.metadata (.ok d.file.size))
  refine ⟨d₁, { d₁ with file := d₁.file.write target (buf.take (n + 1)) }.log
    (.write target buf.length (.ok (n + 1))), ?_, ?_⟩
  · have hlen : img.checkLen d = (.ok (), d.log (.metadata (.ok d.file.size))) := by
      simp [Image.checkLen, fileLen, Disk.next, hplan, hsize, Run.bind_run, Run.mapErr,
        Outcome.mapErr]
    simp only [step]
    rw [Outcome.failIf_neg (not_not_intro hmode), Outcome.failIf_neg (by omega)]
    exact Run.bind_run_of hlen
  · have hplan' : d₁.plan = .limit (n + 1) :: plan := by simp [d₁, Disk.log, hplan]
    have hmin : min (n + 1) buf.length = n + 1 := Nat.min_eq_left hn
    simp only [step, if_pos (show 0 < buf.length by omega), writeOnce, Disk.next, hplan',
      List.headD_cons, List.drop_zero, Nat.add_zero, hmin, Nat.zero_add]

end Work

section
variable {prim : Primitives} {v : ValidatedVolume} {job : Job} {w : Work}

/-- The calls of a write have the range that its request asks for. -/
theorem targets_prepare (h : v.prepare prim job = .ok (some w)) : w.Targets (v.Writes job.op) := by
  cases job with
  | read offset len =>
    simp only [ValidatedVolume.prepare, Outcome.bind_eq_ok] at h
    obtain ⟨_, -, h⟩ := h
    split at h
    · cases h
    · simp only [Outcome.bind_eq_ok] at h
      obtain ⟨_, -, _, -, _, -, h⟩ := h
      cases h
      trivial
  | write offset bytes =>
    obtain ⟨target, buf, rfl, henc, htarget⟩ :=
      @Threads.prepare_some Unit ⟨prim, v, fun _ => .control 0 0 0⟩ _ _ _ h
    obtain ⟨-, rfl⟩ := checkedAdd_eq_some.mp htarget
    have hlen : buf.length = bytes.length := cryptSectors_length prim henc
    intro p h1 h2
    rw [hlen] at h2
    exact ⟨h1, h2⟩
  | flush =>
    cases h
    trivial

end

/-! ## The holder of the mutex -/

namespace Threads

variable {ι : Type} (T : Threads ι)

/-- The job may have written, in a session that was ready for it. -/
structure Wrote (σ : Io) (job : Job) (g : Shared ι) : Prop where
  ready : σ.poisoned = false ∧ σ.faulted = false
  near : g.disk.file.Near (T.volume.Writes job.op) σ.disk.file.data

/-- The party has left the file alone, or may have written in the range of its job. -/
def Changed (σ : Io) (p : Party ι) (g : Shared ι) : Prop :=
  g.disk = σ.disk ∨ ∃ job, T.Asked p job ∧ T.Wrote σ job g

/-- What the party inside the mutex has made of the file since the session was in the state `σ`. -/
def Touch (σ : Io) (p : Party ι) (l : Place) (g : Shared ι) : Prop :=
  match l with
  | .check job => T.Asked p job ∧ g.adapter.io = σ
  | .working job w => T.Asked p job ∧ w.Targets (T.volume.Writes job.op) ∧ T.Wrote σ job g
  | .fault => T.Changed σ p g
  | .release _ => T.Changed σ p g
  | _ => True

variable {T} {p q : Party ι} {l : Place} {g g' : Shared ι} {log : Log ι} {σ σ' io₀ : Io}
    {s s' : State ι}

theorem touch_outside (hl : ¬ l.Inside) : T.Touch σ p l g := by
  cases l <;> first | exact absurd trivial hl | trivial

theorem touch_congr (hio : g'.adapter.io = g.adapter.io) (h : T.Touch σ p l g) :
    T.Touch σ p l g' := by
  have hdisk : g'.disk = g.disk := congrArg Io.disk hio
  have hwrote : ∀ job, T.Wrote σ job g → T.Wrote σ job g' :=
    fun job h => ⟨h.ready, by rw [hdisk]; exact h.near⟩
  have hchanged : T.Changed σ p g → T.Changed σ p g' := by
    rintro (h | ⟨job, hasked, h⟩)
    · exact Or.inl (hdisk.trans h)
    · exact Or.inr ⟨job, hasked, hwrote job h⟩
  cases l <;> try trivial
  case check => exact ⟨h.1, hio.trans h.2⟩
  case working => exact ⟨h.1, h.2.1, hwrote _ h.2.2⟩
  case fault => exact hchanged h
  case release => exact hchanged h

/-- The look at the fault flag, and what comes before the first call. -/
theorem touch_checked {job : Job} (hpois : σ.poisoned = false)
    (hsync : σ.poisoned = false → σ.faulted = false → σ.disk.file.durable = σ.disk.file.data ∧
      σ.disk.file.unsynced = [])
    (h : T.Touch σ p (.check job) g) (hl : Place.checked T.prim T.volume job g.faulted = some l) :
    T.Touch σ p l g := by
  obtain ⟨hasked, hio⟩ := h
  have hdisk : g.disk = σ.disk := congrArg Io.disk hio
  unfold Place.checked at hl
  split at hl
  · cases hl
    exact Or.inl hdisk
  · next hf =>
    have hf : σ.faulted = false := by
      rw [← hio]
      exact eq_false_of_ne_true hf
    split at hl
    case h_5 => cases hl
    case h_2 w hprepare =>
      cases hl
      refine ⟨hasked, targets_prepare hprepare, ⟨hpois, hf⟩, ?_⟩
      rw [hdisk]
      exact near_synced (hsync hpois hf)
    all_goals
      cases hl
      exact Or.inl hdisk

/-- A call. -/
theorem touch_worked {job : Job} {w : Work} {o : Outcome Error Work} {d : Disk}
    (h : T.Touch σ p (.working job w) g) (hrun : w.step T.volume.volume.image g.disk = (o, d))
    (hl : Place.worked T.prim T.volume job o = some l) :
    T.Touch σ p l (g.setDisk d) := by
  obtain ⟨hasked, htargets, hwrote⟩ := h
  have hnear : (w.step T.volume.volume.image g.disk).2.file.Near _ _ :=
    Work.stays_step htargets g.disk hwrote.near
  rw [hrun] at hnear
  have hwrote' : T.Wrote σ job (g.setDisk d) := ⟨hwrote.ready, hnear⟩
  rcases o with w' | e | _ | _
  · have htargets' := Work.targets_step hrun htargets
    cases w'
    case finished =>
      cases hl
      exact Or.inr ⟨job, hasked, hwrote'⟩
    all_goals
      cases hl
      exact ⟨hasked, htargets', hwrote'⟩
  · cases hl
    split
    · exact Or.inr ⟨job, hasked, hwrote'⟩
    · exact Or.inr ⟨job, hasked, hwrote'⟩
  · cases hl
    exact Or.inr ⟨job, hasked, hwrote'⟩
  · cases hl

/-! ## What a crash finds -/

/-- A session that is ready has nothing to lose. -/
theorem synced_of_ready {P : Store} {past : List Event} (hdur : T.volume.Durable T.prim P past σ)
    (hpast : (T.volume.machine T.prim).Going past) (hpois : σ.poisoned = false)
    (hf : σ.faulted = false) :
    σ.disk.file.durable = σ.disk.file.data ∧ σ.disk.file.unsynced = [] := by
  refine hdur.synced fun x hx htorn => ?_
  rcases hdur.latched ⟨x, hx, htorn⟩ with (h | h) | ⟨y, hy, h⟩
  · rw [hf] at h
    cases h
  · rw [hpois] at h
    cases h
  · exact hpast y hy h

/-- In a sector that the job does not write, a crash finds what was there. -/
theorem plain_of_wrote {job : Job} (hasked : T.Asked p job) (hwrote : T.Wrote σ job g) {c : Store}
    (hc : g.disk.file.Crash c) {q : Nat} (hq : ∀ off bytes, (T.callback p).Asks (.write off bytes) →
      ¬ (off ≤ q ∧ q < off + bytes.length)) :
    T.volume.volume.plain T.prim c q = T.volume.volume.plain T.prim σ.disk.file.data q := by
  refine UnlockedVolume.plain_congr fun pos h1 h2 => crash_near hwrote.near hc fun hw => ?_
  have hacc := hasked.accepts pos hw
  obtain ⟨off, bytes, hop⟩ := ValidatedVolume.write_of_writes hw
  rw [hop] at hw hacc
  obtain ⟨-, -, -, hoff, hlen⟩ := hacc
  obtain ⟨h3, h4⟩ := hw
  have := hq off bytes (hop ▸ hasked.asks)
  omega

/-! ## The steps -/

variable [DecidableEq ι]

/-- A step of a party outside that leaves the volume alone. -/
theorem touch_still (ht : s.All (T.Touch σ)) (hl : ¬ l.Inside)
    (hio : g.adapter.io = s.shared.adapter.io) :
    (s.move p l g).All (T.Touch σ) :=
    Parties.all_move ht (touch_outside hl) fun _ _ h => touch_congr hio h

/-- A step of the party inside. -/
theorem touch_inside (hex : s.All (Parties.Excludes Place.Inside Shared.owner))
    (hp : (s.place p).Inside) (ht : s.All (T.Touch σ)) (hl : T.Touch σ p l g) :
    (s.move p l g).All (T.Touch σ) :=
  Parties.all_move ht hl fun _ hqp _ => touch_outside fun hin =>
  hqp (Parties.eq_of_inside hex hin hp)

theorem touch_quiet (hex : s.All (Parties.Excludes Place.Inside Shared.owner))
    (ho : T.Orders io₀ s log σ) (hsync : σ.poisoned = false → σ.faulted = false →
      σ.disk.file.durable = σ.disk.file.data ∧ σ.disk.file.unsynced = [])
    (ht : s.All (T.Touch σ)) (h : T.Step p s s') (hrelease : ∀ o, s.place p ≠ .release o)
    (hhandler : s.place p ≠ .handler) : s'.All (T.Touch σ) := by
  have htp := ht p
  cases h with
  | arrive _ hp _ hrun hl =>
    have hcounts := Adapter.arrive_counts T.volume (T.callback p) s.shared.adapter
    rw [hrun] at hcounts
    refine touch_still ht ?_ hcounts.1
    unfold Place.arrived at hl
    split at hl <;> cases hl <;> exact id
  | acquire _ hp hfree =>
    have hio := ho.free fun _ => Parties.outside_of_free hex hfree
    have hlocal := ho.all p
    rw [hp] at hlocal
    refine Parties.all_move ht ?_ fun q _ _ => touch_outside (Parties.outside_of_free hex hfree)
    split
    · exact Or.inl (congrArg Io.disk hio)
    · exact ⟨hlocal.2, hio⟩
  | check _ hp hl =>
    have hin : (s.place p).Inside := by rw [hp]; trivial
    have hlocal := (local_inside hin).mp (ho.all p)
    rw [hp] at htp hlocal
    exact touch_inside hex hin ht (touch_checked (hlocal.sound trivial) hsync htp hl)
  | work _ hp hrun hl =>
    have hin : (s.place p).Inside := by rw [hp]; trivial
    rw [hp] at htp
    exact touch_inside hex hin ht (touch_worked htp hrun hl)
  | fault _ hp =>
    have hin : (s.place p).Inside := by rw [hp]; trivial
    rw [hp] at htp
    refine touch_inside hex hin ht (htp.imp id ?_)
    rintro ⟨job, hasked, hwrote⟩
    exact ⟨job, hasked, hwrote.ready, hwrote.near⟩
  | release _ hp => exact absurd hp (hrelease _)
  | handle _ hp => exact absurd hp hhandler
  | _ => exact touch_still ht id rfl

theorem touch_release (hex : s.All (Parties.Excludes Place.Inside Shared.owner))
    {o : Outcome Error Unit} (hp : s.place p = .release o) (hl : Place.settle o = some l) :
    (s.move p l (s.shared.drop o)).All (T.Touch σ') := by
  have hin : (s.place p).Inside := by rw [hp]; trivial
  refine Parties.all_move (A := fun q l _ => q = p ∨ ¬ l.Inside) ?_ (touch_outside ?_)
    fun q hqp h => ?_
  · intro q
    by_cases hqp : q = p
    · exact Or.inl hqp
    · exact Or.inr fun hin' => hqp (Parties.eq_of_inside hex hin' hin)
  · unfold Place.settle at hl
    split at hl <;> cases hl <;> exact id
  · exact touch_outside (h.resolve_left hqp)

/-- With a handler on its way the mutex is poisoned, and whoever is inside has left the file
alone. -/
theorem touch_handle (ho : T.Orders io₀ s log σ) (ht : s.All (T.Touch σ))
    (hp : s.place p = .handler) :
    (s.move p (.leaving 5) s.shared.setFaulted).All (T.Touch { σ with faulted := true }) := by
  have hlocal := ho.all p
  rw [hp] at hlocal
  have hpois : σ.poisoned = true := hlocal.1
  have hchanged : ∀ q, T.Changed σ q s.shared →
      T.Changed { σ with faulted := true } q s.shared.setFaulted := by
    rintro q (h | ⟨job, -, h⟩)
    · exact Or.inl h
    · exact absurd hpois (by simp [h.ready.1])
  refine Parties.all_move (A := fun q l g => T.Local σ log q l g ∧ T.Touch σ q l g)
    (fun q => ⟨ho.all q, ht q⟩) trivial ?_
  rintro q - ⟨hq, htq⟩
  generalize s.place q = l at hq htq
  cases l <;> try trivial
  case check =>
    have hq : T.InFlight _ _ _ _ _ := hq
    exact absurd hpois (by simp [hq.sound trivial])
  case working => exact absurd hpois (by simp [htq.2.2.ready.1])
  case fault => exact hchanged q htq
  case release => exact hchanged q htq

/-- **A step** keeps the session and the file together. -/
theorem touched_step (hex : s.All (Parties.Excludes Place.Inside Shared.owner))
    (ho : T.Orders io₀ s log σ) (hsync : σ.poisoned = false → σ.faulted = false →
      σ.disk.file.durable = σ.disk.file.data ∧ σ.disk.file.unsynced = [])
    (ht : s.All (T.Touch σ)) (h : T.Step p s s') :
    ∃ log' σ', T.Orders io₀ s' log' σ' ∧ s'.All (T.Touch σ') := by
  by_cases hrelease : ∃ o, s.place p = .release o
  · obtain ⟨o, hp⟩ := hrelease
    obtain ⟨l, hl, rfl⟩ := step_release h hp
    obtain ⟨e, σ', ho'⟩ := orders_release hex ho hp hl
    exact ⟨_, σ', ho', touch_release hex hp hl⟩
  · by_cases hhandler : s.place p = .handler
    · rw [step_handler h hhandler]
      exact ⟨_, _, orders_handle ho hhandler, touch_handle ho ht hhandler⟩
    · have hno : ∀ o, s.place p ≠ .release o := fun o ho => hrelease ⟨o, ho⟩
      exact ⟨log, σ, orders_quiet hex h ho hno hhandler, touch_quiet hex ho hsync ht h hno hhandler⟩

/-! ## A crash at any state -/

/-- The file is that of the session, or the holder of the mutex has been writing. -/
theorem disk_cases (hex : s.All (Parties.Excludes Place.Inside Shared.owner))
    (ho : T.Orders io₀ s log σ) (ht : s.All (T.Touch σ)) : s.shared.disk = σ.disk ∨
      ∃ p job, s.shared.owner = some p ∧ T.Asked p job ∧ T.Wrote σ job s.shared := by
  by_cases hin : ∃ p, (s.place p).Inside
  · obtain ⟨p, hp⟩ := hin
    have howner := hex p hp
    have htp := ht p
    have hchanged : T.Changed σ p s.shared → s.shared.disk = σ.disk ∨
        ∃ p job, s.shared.owner = some p ∧ T.Asked p job ∧ T.Wrote σ job s.shared :=
      fun h => h.imp id fun ⟨job, hasked, hwrote⟩ => ⟨p, job, howner, hasked, hwrote⟩
    generalize s.place p = l at hp htp
    cases l <;> try exact hp.elim
    case check => exact Or.inl (congrArg Io.disk htp.2)
    case working job w => exact Or.inr ⟨p, job, howner, htp.1, htp.2.2⟩
    case fault => exact hchanged htp
    case release => exact hchanged htp
  · exact Or.inl (congrArg Io.disk (ho.free fun p hp => hin ⟨p, hp⟩))

/-- **A crash at any moment of an interleaving.**  Let any number of requests and the shutdown of a
writable session, opened from a synced image, run on threads of their own; cut them at any state,
and let the crash keep any mixture of durable and unsynced bytes.  Outside the payload the image is
what it was.  Inside, it decrypts to the array of the session behind the interleaving, except in the
range of the one write that was torn before, or of the one that holds the mutex. -/
theorem threads_crash {ext : Parsers} {s₀ : State ι} (hx : XtsInverts T.prim)
    (hopen : Opened T.prim ext T.volume s₀.shared.adapter.io) (hmode : T.volume.mode = .readWrite)
    {f : Store}
    (hfile : s₀.shared.adapter.io.disk.file = .synced T.volume.volume.image.len f)
    (hstart : Start s₀)
    (h : Reaches T.Step s₀ s) : ∃ log, T.Shows s₀.shared.adapter.io s log ∧
      (log.map Prod.snd).Pairwise (fun x y => x.Torn → y.calls = []) ∧
      ∀ c, s.shared.disk.file.Crash c → (∀ p, ¬ T.volume.volume.payload.Contains p → c p = f p) ∧
        ∀ q, (∀ x ∈ log, x.2.Torn → ¬ x.2.Covers q) →
          (∀ p, s.shared.owner = some p → ∀ off bytes, (T.callback p).Asks (.write off bytes) →
            ¬ (off ≤ q ∧ q < off + bytes.length)) →
          T.volume.volume.plain T.prim c q =
          (log.map Prod.snd).foldl Event.apply (T.volume.volume.plain T.prim f) q := by
  have hfits := hopen.fits
  have hdata : s₀.shared.adapter.io.disk.file.data = f := by rw [hfile]; rfl
  have hsynced : s₀.shared.adapter.io.disk.file.durable = s₀.shared.adapter.io.disk.file.data ∧
      s₀.shared.adapter.io.disk.file.unsynced = [] := by
    rw [hfile]
    exact ⟨rfl, rfl⟩
  have hdurable : ∀ {s log σ}, T.Orders s₀.shared.adapter.io s log σ →
      T.volume.Durable T.prim (T.volume.volume.plain T.prim f) (log.map Prod.snd) σ := by
    intro s log σ ho
    have hstart : T.volume.Durable T.prim _ [] _ := ValidatedVolume.durable_start hsynced
    rw [hdata] at hstart
    exact ValidatedVolume.durable_path hx hmode hfits hopen.size hstart (by simp [Going]) ho.path
  obtain ⟨log, σ, ho, ht⟩ : ∃ log σ, T.Orders s₀.shared.adapter.io s log σ ∧ s.All (T.Touch σ) := by
    refine h.invariant (I := fun s => ∃ log σ, T.Orders s₀.shared.adapter.io s log σ ∧
      s.All (T.Touch σ)) ⟨[], _, orders_start hstart, fun p => ?_⟩ ?_
    · rw [hstart.idle p]
      trivial
    · rintro p m m' hm ⟨log, σ, ho, ht⟩ hstep
      exact touched_step (run_excludes hstart hm) ho (synced_of_ready (hdurable ho) ho.going)
        ht hstep
  have hdur := hdurable ho
  have hout : T.volume.Outside f σ :=
    ValidatedVolume.outside_path hfits hopen.size (ValidatedVolume.outside_synced hfile) ho.path
  refine ⟨log, shows_of_orders (run_excludes hstart h) ho, hdur.single, fun c hc => ?_⟩
  have hnone : ∀ q, (∀ x ∈ log, x.2.Torn → ¬ x.2.Covers q) → ∀ x ∈ log.map Prod.snd, x.Torn →
      ¬ x.Covers q := by
    intro q hq x hx
    obtain ⟨y, hy, rfl⟩ := List.mem_map.mp hx
    exact hq y hy
  rcases disk_cases (run_excludes hstart h) ho ht with hdisk | ⟨p, job, howner, hasked, hwrote⟩
  · rw [hdisk] at hc
    exact ⟨fun p hp => crash_near hout hc hp, fun q hq _ => hdur.crash c hc q (hnone q hq)⟩
  · refine ⟨fun pos hp => ?_, fun q hq hholder => ?_⟩
    · rw [crash_near hwrote.near hc fun hw =>
        hp (ValidatedVolume.payload_of_writes (hasked.accepts pos hw) hw)]
      exact hout.data pos hp
    · obtain ⟨h1, -⟩ := synced_of_ready hdur ho.going hwrote.ready.1 hwrote.ready.2
      rw [plain_of_wrote hasked hwrote hc fun off bytes => hholder p howner off bytes, ← h1]
      exact hdur.crash _ (crash_durable _) q (hnone q hq)

/-- The small session, on a backend that writes seven bytes at first. -/
def cutStart : State Unit := ⟨fun _ => .idle, .new (Sample.io [.limit 0, .limit 7]), none⟩

theorem cut_run : ∃ (s : State Unit) (enc : Bytes), Reaches sample.Step cutStart s ∧
    s.shared.owner = some (.request ()) ∧
    s.place (.request ()) = .working (.write 0 (slice (fun _ => 0) 0 512))
      (.writing 163840 enc 7) := by
  have h : Reaches sample.Step cutStart cutStart := .refl _
  have h := h.step (.enter (.request ()) rfl id)
  have h := h.step (.arrive (.request ()) rfl rfl (sample_arrive rfl) rfl)
  have h := h.step (.acquire (.request ()) rfl rfl)
  obtain ⟨enc, hlen, hcheck⟩ := sample_check
  have h := h.step (.check (.request ()) rfl hcheck)
  have hin : 163840 + enc.length ≤ sample.volume.volume.image.len := by
    rw [hlen]
    decide
  have hshort : 6 + 1 ≤ enc.length := by omega
  obtain ⟨d₁, d₂, hrun, hcut⟩ :=
    @Work.cut_write sample.volume.volume.image (Sample.io [.limit 0, .limit 7]).disk _ _ _ [] rfl
      rfl rfl hin hshort
  have h := h.step (.work (.request ()) rfl hrun rfl)
  have h := h.step (.work (.request ()) rfl hcut rfl)
  exact ⟨_, enc, h, rfl, rfl⟩

/-- No request of the small session asks for a byte after the first sector. -/
theorem sample_covers {p : Party Unit} {e : Event}
    (h : (sample.callback p).Asks e.op ∨ e.op = .markFaulted) {q : Nat} (hq : 512 ≤ q) :
    ¬ e.Covers q := by
  rintro ⟨off, bytes, hop, -, hlt⟩
  rw [hop] at h
  rcases h with h | h
  · cases p with
    | shutdown => cases h
    | request =>
      have hasks : VolOp.write off bytes = .write (0 * 512) (slice (fun _ => 0) 0 (1 * 512)) := h
      obtain ⟨hoff, hbytes⟩ := VolOp.write.inj hasks
      rw [hoff, hbytes, slice_length] at hlt
      omega
  · cases h

/-- Cut the write of the small session after seven bytes: whatever the crash keeps of them, all that
lies outside the sector is as it was. -/
theorem threads_crash_sample :
    ∃ (s : State Unit) (enc : Bytes), s.shared.owner = some (.request ()) ∧
    s.place (.request ()) = .working (.write 0 (slice (fun _ => 0) 0 512)) (.writing 163840 enc 7) ∧
    ∃ log, sample.Shows (Sample.io [.limit 0, .limit 7]) s log ∧ ∀ c, s.shared.disk.file.Crash c →
      (∀ p, ¬ sample.volume.volume.payload.Contains p → c p = Sample.store 1 Sample.body p) ∧
      ∀ q, 512 ≤ q → sample.volume.volume.plain sample.prim c q =
        sample.volume.volume.plain sample.prim (Sample.store 1 Sample.body) q := by
  obtain ⟨s, enc, hrun, howner, hplace⟩ := cut_run
  obtain ⟨log, hshows, -, hcrash⟩ :=
    threads_crash Sample.xtsInverts (Sample.opened .readWrite _) rfl rfl ⟨rfl, rfl,
      fun _ => rfl⟩ hrun
  refine ⟨s, enc, howner, hplace, log, hshows, fun c hc => ⟨(hcrash c hc).1, fun q hq => ?_⟩⟩
  have hcovers := fun x hx => sample_covers (hshows.asked x hx) hq
  have hholder : ∀ p, s.shared.owner = some p →
      ∀ off bytes, (sample.callback p).Asks (.write off bytes) →
      ¬ (off ≤ q ∧ q < off + bytes.length) := fun p _ off bytes hasks hin =>
    @sample_covers p ⟨.write off bytes, .halt, []⟩ (Or.inl hasks) q hq ⟨off, bytes, rfl, hin⟩
  rw [(hcrash c hc).2 q (fun x hx _ => hcovers x hx) hholder]
  refine Event.foldl_apply fun e he => ?_
  obtain ⟨x, hx, rfl⟩ := List.mem_map.mp he
  exact hcovers x hx

end Threads

end Winluks
