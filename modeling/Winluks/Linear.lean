import Winluks.Alone
import Winluks.Serving
import Winluks.Verdict

/-!
# Interleavings are sessions

The callbacks of `Threads` overlap; the sessions of `ValidatedVolume.run` are
sequential.  The mutex relates the two: a request takes its place in a session
when it lets go of the mutex, and a caught panic when its handler sets the flag.
`Orders` is the invariant of all reachable states.  What is left to do under the
mutex, from the shared state on, ends as the whole request from the state of the
session on.

`threads_linear`: every interleaving is a session in which each request that was
answered has one place, with its status, and an order that agrees with the order
in time.  `threads_crash`: what a crash leaves at any moment of an interleaving.
-/

namespace Winluks

open Lib Machine

/-! ## The request of a job -/

def Job.op : Job → VolOp
  | .read offset len => .read offset len
  | .write offset bytes => .write offset bytes
  | .flush => .flush

section
variable (prim : Primitives) (v : ValidatedVolume)

/-- All of the request is done under the mutex. -/
def Job.Direct (job : Job) : Prop := Run.void (v.exec prim job.op) = Io.lock (v.body prim job)

variable {prim v}

theorem void_noBytes (m : Run Io Error Unit) : Run.void (noBytes m) = m := by
  funext s
  simp only [Run.void, noBytes, Run.bind_run]
  rcases m s with ⟨_ | _ | _ | _, s'⟩ <;> rfl

theorem direct_read (o n : Nat) : (Job.read o n).Direct prim v := v.readAt_body prim o n

theorem direct_flush : Job.flush.Direct prim v := (void_noBytes v.flush).trans (v.flush_body prim)

theorem direct_write {o : Nat} {b : Bytes} (hmode : v.mode = .readWrite)
    (hrange : checkedRange v.len o b.length = .ok ())
    (haligned : ¬ (o % 512 ≠ 0 ∨ b.length % 512 ≠ 0)) : (Job.write o b).Direct prim v := by
  refine (void_noBytes (v.writeAt prim o b)).trans ?_
  funext s
  rw [v.writeAt_body prim, Run.failIf_bind, if_neg (by simp [hmode]), Run.lift_bind, hrange,
    Run.failIf_bind, if_neg haligned]

theorem checkedRange_ok {total offset len : Nat} {u : Unit}
    (h : checkedRange total offset len = .ok u) :
    len ≤ maxTransfer ∧ offset + len ≤ total := by
  have := Outcome.failIf_eq_ok.mp h
  omega

/-- A flush arrives as a flush. -/
theorem flush_of_arriveFlush {a a' : Adapter} {job : Job}
    (h : Adapter.arriveFlush a = (.ok job, a')) : job = .flush := by
  cases h
  rfl

/-- **What arrives at the mutex** is what the callback asks for, with all checks before the mutex
passed. -/
theorem direct_of_arrive {c : Callback} {a a' : Adapter} {job : Job}
    (h : Adapter.arrive v c a = (.ok job, a')) :
    job.Direct prim v ∧ c.Asks job.op ∧ ∀ q, v.Writes job.op q → v.Accepts job.op := by
  cases c with
  | read lba count =>
    simp only [Adapter.arrive, Run.bind_run_eq_ok, Run.lift_run, Run.modify_run, Prod.mk.injEq,
      Outcome.ofOption_eq_ok, checkedMul_eq_some] at h
    obtain ⟨_, _, -, _, _, ⟨⟨-, rfl⟩, -⟩, _, _, ⟨⟨-, rfl⟩, -⟩, _, _, -, hret⟩ := h
    cases hret
    exact ⟨direct_read _ _, rfl, fun _ hw => hw.elim⟩
  | write lba count buffer =>
    simp only [Adapter.arrive, Run.bind_run_eq_ok, Run.modify_run, Run.lift_run, Prod.mk.injEq,
      Outcome.ofOption_eq_ok, checkedMul_eq_some, Outcome.failIf_eq_ok] at h
    obtain ⟨_, _, -, _, _, -, _, _, -, _, _, ⟨⟨-, rfl⟩, -⟩, _, _, ⟨hmode, -⟩, _, _, ⟨hrange, -⟩, _,
      _, ⟨haligned, -⟩, hret⟩ := h
    cases hret
    have hmode := not_not.mp hmode
    obtain ⟨hmax, hin⟩ := checkedRange_ok hrange
    exact ⟨direct_write hmode hrange haligned, rfl,
      fun _ _ => ⟨hmode, hmax, hin, by omega, by omega⟩⟩
  | control op lba count =>
    have hjob : job = .flush := by
      simp only [Adapter.arrive] at h
      split at h
      · obtain ⟨_, _, -, h⟩ := Run.bind_run_eq_ok.mp h
        obtain ⟨_, _, -, h⟩ := Run.bind_run_eq_ok.mp h
        repeat' split at h
        all_goals first | exact flush_of_arriveFlush h | cases h
      · split at h <;> cases h
    subst hjob
    exact ⟨direct_flush, rfl, fun _ hw => hw.elim⟩

theorem returns_notStopping (a : Adapter) : (Adapter.notStopping a).1.Returns := by
  rw [Adapter.notStopping, Run.gets_bind]
  exact Outcome.returns_failIf _ _

/-- Nothing on the way to the mutex unwinds or stops. -/
theorem returns_arrive (c : Callback) (a : Adapter) : (Adapter.arrive v c a).1.Returns := by
  have hat : ∀ (n : Nat) (a : Adapter),
      ((.lift (.ofOption .invalidRange (checkedMul 64 n 512)) : Run Adapter Error Nat)
        a).1.Returns :=
    fun n _ => Outcome.returns_ofOption _ _
  cases c with
  | read lba count =>
    refine Run.returns_bind_run (returns_notStopping a) fun _ a₁ _ =>
      Run.returns_bind_run (hat _ _) fun _ a₂ _ => ?_
    exact Run.returns_bind_run (hat _ _) fun _ a₃ _ => trivial
  | write lba count buffer =>
    refine Run.returns_bind_run trivial fun _ a₁ _ =>
      Run.returns_bind_run (Outcome.returns_failIf _ _) fun _ a₂ _ => ?_
    refine Run.returns_bind_run (returns_notStopping a₂) fun _ a₃ _ =>
      Run.returns_bind_run (hat _ _) fun _ a₄ _ => ?_
    refine Run.returns_bind_run (Outcome.returns_failIf _ _) fun _ a₅ _ => ?_
    exact Run.returns_bind_run (Outcome.returns_failIf _ _) fun _ a₆ _ =>
      Run.returns_bind_run (Outcome.returns_failIf _ _) fun _ a₇ _ => trivial
  | control op lba count =>
    simp only [Adapter.arrive]
    split
    · refine Run.returns_bind_run (returns_notStopping a) fun _ a₁ _ =>
        Run.returns_bind_run (hat _ _) fun _ a₂ _ => ?_
      repeat' split
      all_goals trivial
    · split <;> trivial

theorem void_run {τ ε α : Type} (m : Run τ ε α) (s : τ) :
    Run.void m s = ((m s).1 >>= fun _ => .ok (), (m s).2) := by
  rw [Run.void, Run.bind_run]
  rcases m s with ⟨_ | _ | _ | _, s'⟩ <;> rfl

/-- A direct request, from the outcome and the state of its body. -/
theorem exec_direct {job : Job} (h : job.Direct prim v) (σ : Io) :
    (v.exec prim job.op σ).2 = (Io.lock (v.body prim job) σ).2 ∧
    ((v.exec prim job.op σ).1 >>= fun _ => .ok ()) = (Io.lock (v.body prim job) σ).1 := by
  have := congrFun h σ
  rw [void_run] at this
  rw [← this]
  exact ⟨rfl, rfl⟩

/-- A poisoned mutex stays so. -/
theorem poisoned_exec {job : Job} (h : job.Direct prim v) {σ : Io} (hpois : σ.poisoned = true) :
    (v.exec prim job.op σ).2.poisoned = true := by
  rw [(exec_direct h σ).1, Io.lock_poisoned _ _ hpois]
  exact hpois

end

/-! ## Under the mutex -/

/-- What is left to do before the guard is dropped. -/
def Place.left (prim : Primitives) (v : ValidatedVolume) : Place → Run Io Error Unit
  | .check job => v.body prim job
  | .working job w => v.resume prim job w
  | .fault => Io.orFault (.throw .writebackFailed)
  | .release o => .lift o
  | _ => .lift .halt

/-- The file may still be reached. -/
def Place.Busy : Place → Prop
  | .check _ => True
  | .working _ _ => True
  | _ => False

section
variable {prim : Primitives} {v : ValidatedVolume} {job : Job} {s : Io}

theorem left_checked {l : Place} (hl : Place.checked prim v job s.faulted = some l) :
    (Place.check job).left prim v s = l.left prim v s := by
  unfold Place.checked at hl
  split at hl
  · next hf =>
    cases hl
    simp [Place.left, ValidatedVolume.body, Io.notFaulted, hf, Run.bind_run]
  · next hf =>
    have hbody := fun o => @ValidatedVolume.body_ready prim v job s o (eq_false_of_ne_true hf)
    split at hl
    case h_5 => cases hl
    all_goals
      next hprepare =>
      cases hl
      exact hbody _ hprepare

theorem left_worked {w : Work} {o : Outcome Error Work} {d : Disk} {l : Place}
    (hrun : w.step v.volume.image s.disk = (o, d)) (hl : Place.worked prim v job o = some l) :
    (Place.working job w).left prim v s = l.left prim v { s with disk := d } := by
  cases o with
  | ok w' =>
    have h := @ValidatedVolume.resume_ok prim v job _ _ s _ hrun
    cases w'
    case finished bytes =>
      rw [ValidatedVolume.resume_finished] at h
      cases hl
      exact h
    all_goals
      cases hl
      exact h
  | err e =>
    have h := @ValidatedVolume.resume_err prim v job _ s _ _ hrun
    cases hl
    by_cases hf : v.faults job = true
    · rw [if_pos hf] at h ⊢
      exact h
    · rw [if_neg hf] at h ⊢
      exact h
  | panic =>
    cases hl
    exact ValidatedVolume.resume_panic hrun
  | halt => cases hl

theorem left_fault : Place.fault.left prim v s =
    (Place.release (.err .writebackFailed)).left prim v { s with faulted := true } := rfl

end

/-! ## The order of the requests -/

namespace Threads

/-- Requests to the volume, and whose they are. -/
abbrev Log (ι : Type) := List (Party ι × Event)

/-- The status of a request that made the events `es` of the volume: none if it did not come to the
mutex, since the shim refused its length or the adapter would not have it; else one, and one more
when it unwound and was caught.  The adapter says that it stops only when it is `stopping`. -/
inductive Answered (v : ValidatedVolume) (c : Callback) (stopping : Bool) :
    (es : List Event) → (status : Nat) → Prop
  | refused (h : c.refused = true) : Answered v c stopping [] 2
  | denied {err : Error} {a a' : Adapter} (hstop : a.stopping = true → stopping = true)
    (h : Adapter.arrive v c a = (.err err, a')) : Answered v c stopping [] (code err)
  | done {e : Event} {b : Bytes} (hop : c.Asks e.op) (ho : e.outcome = .ok b) :
    Answered v c stopping [e] 0
  | failed {e : Event} {err : Error} (hop : c.Asks e.op) (ho : e.outcome = .err err) :
    Answered v c stopping [e] (code err)
  | caught {e m : Event} (hop : c.Asks e.op) (ho : e.outcome = .panic) (hm : m.op = .markFaulted) :
    Answered v c stopping [e, m] 5

theorem Answered.mono {v : ValidatedVolume} {c : Callback} {stopping stopping' : Bool}
    {es : List Event} {status : Nat} (h : Answered v c stopping es status)
    (hle : stopping = true → stopping' = true) : Answered v c stopping' es status := by
  cases h with
  | refused h => exact .refused h
  | denied hstop h => exact .denied (fun ha => hle (hstop ha)) h
  | done hop ho => exact .done hop ho
  | failed hop ho => exact .failed hop ho
  | caught hop ho hm => exact .caught hop ho hm

variable {ι : Type} [DecidableEq ι] (T : Threads ι)

/-- The part of a party in the log. -/
def own (p : Party ι) (log : Log ι) : List Event := (log.filter fun x => x.1 = p).map Prod.snd

/-- The job comes from the callback of the party. -/
structure Asked (p : Party ι) (job : Job) : Prop where
  direct : job.Direct T.prim T.volume
  asks : (T.callback p).Asks job.op
  accepts : ∀ q, T.volume.Writes job.op q → T.volume.Accepts job.op

/-- A party inside the mutex: what is left of its job, from the shared state on, is all of it from
`σ` on. -/
structure InFlight (σ : Io) (log : Log ι) (p : Party ι) (l : Place) (g : Shared ι) : Prop where
  new : own p log = []
  rejoins : ∃ job, T.Asked p job ∧
    Io.lock (T.volume.body T.prim job) σ = Io.held (l.left T.prim T.volume) g.adapter.io
  sound : l.Busy → σ.poisoned = false

/-- What a party at `l` has made of the session, whose state is `σ`. -/
def Local (σ : Io) (log : Log ι) (p : Party ι) (l : Place) (g : Shared ι) : Prop :=
  match l with
  | .idle => own p log = []
  | .entered => own p log = []
  | .acquire job => own p log = [] ∧ T.Asked p job
  | .check job => T.InFlight σ log p (.check job) g
  | .working job w => T.InFlight σ log p (.working job w) g
  | .fault => T.InFlight σ log p .fault g
  | .release o => T.InFlight σ log p (.release o) g
  | .handler => σ.poisoned = true ∧ ∃ e, own p log = [e] ∧ (T.callback p).Asks e.op ∧
      e.outcome = .panic
  | .leaving status => Answered T.volume (T.callback p) g.stopping (own p log) status
  | .returned status => Answered T.volume (T.callback p) g.stopping (own p log) status
  | _ => ∃ status, Answered T.volume (T.callback p) g.stopping (own p log) status

/-- The log is a session from `io₀` to `σ`, which is the shared state unless somebody is inside the
mutex. -/
structure Orders (io₀ : Io) (s : State ι) (log : Log ι) (σ : Io) : Prop where
  path : (T.volume.machine T.prim).Path io₀ (log.map Prod.snd) σ
  going : (T.volume.machine T.prim).Going (log.map Prod.snd)
  free : (∀ p, ¬ (s.place p).Inside) → s.shared.adapter.io = σ
  all : s.All (T.Local σ log)

variable {T} {p q : Party ι} {l : Place} {g g' : Shared ι} {log : Log ι} {σ σ' io₀ : Io}
    {s s' : State ι}

theorem local_inside (hl : l.Inside) : T.Local σ log p l g ↔ T.InFlight σ log p l g := by
  cases l <;> first | exact hl.elim | exact Iff.rfl

/-- Outside the mutex, nothing matters of what is shared but that the adapter stops for good. -/
theorem local_outside (hl : ¬ l.Inside) (hstop : g.stopping = true → g'.stopping = true)
    (h : T.Local σ log p l g) : T.Local σ log p l g' := by
  cases l <;> try exact absurd trivial hl
  case idle | entered | acquire | handler => exact h
  case leaving | returned => exact Answered.mono h hstop
  all_goals exact h.imp fun _ h => h.mono hstop

/-- Inside, only the volume matters. -/
theorem local_congr (hio : g'.adapter.io = g.adapter.io)
    (hstop : g.stopping = true → g'.stopping = true) (h : T.Local σ log p l g) :
    T.Local σ log p l g' := by
  by_cases hl : l.Inside
  · rw [local_inside hl] at h ⊢
    refine ⟨h.new, ?_, h.sound⟩
    rw [hio]
    exact h.rejoins
  · exact local_outside hl hstop h

/-! ### Steps that are not seen by the session -/

/-- Nobody was inside before the step of a party outside, if nobody is after it. -/
theorem free_before (hp : ¬ (s.place p).Inside) (hfree : ∀ q, ¬ ((s.move p l g).place q).Inside)
    (q : Party ι) :
    ¬ (s.place q).Inside := by
  by_cases hqp : q = p
  · rwa [hqp]
  · have := hfree q
    rwa [Parties.move_place_of_ne hqp] at this

/-- A step outside the mutex that leaves the volume alone. -/
theorem orders_still (ho : T.Orders io₀ s log σ) (hp : ¬ (s.place p).Inside)
    (hio : g.adapter.io = s.shared.adapter.io)
    (hstop : s.shared.stopping = true → g.stopping = true) (hl : T.Local σ log p l g) :
    T.Orders io₀ (s.move p l g) log σ where
  path := ho.path
  going := ho.going
  free hfree := hio.trans (ho.free (free_before hp hfree))
  all := Parties.all_move ho.all hl fun _ _ hq => local_congr hio hstop hq

theorem orders_acquire {job : Job} (hex : s.All (Parties.Excludes Place.Inside Shared.owner))
    (ho : T.Orders io₀ s log σ) (hp : s.place p = .acquire job) (hfree : s.shared.owner = none) :
    T.Orders io₀ (s.move p (if s.shared.adapter.io.poisoned then .fault else .check job)
      { s.shared with owner := some p }) log σ := by
  have hio := ho.free fun _ => Parties.outside_of_free hex hfree
  have hlocal := ho.all p
  rw [hp] at hlocal
  obtain ⟨hnew, hasked⟩ : own p log = [] ∧ T.Asked p job := hlocal
  refine ⟨ho.path, ho.going, fun hno => ?_, Parties.all_move ho.all ?_ fun q _ hq =>
    local_congr (g := s.shared) rfl id hq⟩
  · refine absurd ?_ (hno p)
    rw [Parties.move_place]
    split <;> trivial
  by_cases hpois : s.shared.adapter.io.poisoned = true
  · rw [if_pos hpois]
    refine ⟨hnew, ⟨job, hasked, ?_⟩, fun h => h.elim⟩
    rw [← hio, Io.lock_poisoned _ _ hpois]
    rfl
  · rw [if_neg hpois]
    refine ⟨hnew, ⟨job, hasked, ?_⟩, fun _ => by rw [← hio]; exact eq_false_of_ne_true hpois⟩
    rw [← hio]
    exact if_neg hpois

/-- A step inside the mutex. -/
theorem orders_inside (hex : s.All (Parties.Excludes Place.Inside Shared.owner))
    (ho : T.Orders io₀ s log σ) (hp : (s.place p).Inside) (hl : l.Inside)
    (hleft : (s.place p).left T.prim T.volume s.shared.adapter.io = l.left T.prim T.volume
      g.adapter.io)
    (hbusy : l.Busy → (s.place p).Busy) (hstop : s.shared.stopping = true → g.stopping = true) :
    T.Orders io₀ (s.move p l g) log σ := by
  obtain ⟨hnew, ⟨job, hasked, hrejoins⟩, hsound⟩ := (local_inside hp).mp (ho.all p)
  refine ⟨ho.path, ho.going, fun hno => absurd ?_ (hno p),
    Parties.all_move ho.all ?_ fun q hqp hq => local_outside ?_ hstop hq⟩
  · rwa [Parties.move_place]
  · rw [local_inside hl]
    refine ⟨hnew, ⟨job, hasked, ?_⟩, fun h => hsound (hbusy h)⟩
    rw [hrejoins, Io.held, Io.held, hleft]
  · exact fun hin => hqp (Parties.eq_of_inside hex hin hp)

/-! ### Steps of the session -/

theorem own_append_self (e : Event) : own p (log ++ [(p, e)]) = own p log ++ [e] := by simp [own]

theorem own_append_of_ne (h : q ≠ p) (e : Event) : own q (log ++ [(p, e)]) = own q log := by
  simp [own, Ne.symm h]

/-- Outside the mutex, a party knows its own part of the log only. -/
theorem local_own {log' : Log ι} (hl : ¬ l.Inside) (hown : own p log' = own p log)
    (hpois : σ.poisoned = true → σ'.poisoned = true)
    (hstop : g.stopping = true → g'.stopping = true) (h : T.Local σ log p l g) :
    T.Local σ' log' p l g' := by
  have h : T.Local σ log p l g' := local_outside hl hstop h
  cases l <;> try exact absurd trivial hl
  case handler => exact ⟨hpois h.1, by rw [hown]; exact h.2⟩
  all_goals
    simp only [Local] at h ⊢
    rw [hown]
    exact h

theorem dropGuard_fst {α : Type} (o : Outcome Error α) (io : Io) :
    (Io.dropGuard (o, io)).1 = o := by
  cases o <;> rfl

/-- **The release** is the moment at which a request takes its place in the session. -/
theorem orders_release (hex : s.All (Parties.Excludes Place.Inside Shared.owner))
    (ho : T.Orders io₀ s log σ) {o : Outcome Error Unit} (hp : s.place p = .release o)
    (hl : Place.settle o = some l) :
    ∃ e σ', T.Orders io₀ (s.move p l (s.shared.drop o)) (log ++ [(p, e)]) σ' := by
  have hin : (s.place p).Inside := by rw [hp]; trivial
  obtain ⟨hnew, ⟨job, hasked, hrejoins⟩, -⟩ := (local_inside hin).mp (ho.all p)
  rw [hp] at hrejoins
  change _ = Io.dropGuard (o, s.shared.adapter.io) at hrejoins
  obtain ⟨hstate, hout⟩ := exec_direct hasked.direct σ
  rw [hrejoins] at hstate hout
  rw [dropGuard_fst] at hout
  refine ⟨T.volume.event T.prim σ job.op, (T.volume.exec T.prim job.op σ).2, ?_, ?_,
    fun _ => hstate.symm,
    Parties.all_move ho.all ?_ fun q hqp hq => ?_⟩
  · rw [List.map_append]
    exact ho.path.append ho.going (path_single ⟨rfl, rfl⟩)
  · rw [List.map_append]
    refine going_append.mpr ⟨ho.going, List.forall_mem_singleton.mpr fun hhalt => ?_⟩
    have : (T.volume.exec T.prim job.op σ).1 = .halt := hhalt
    rw [this] at hout
    obtain rfl : Outcome.halt = o := hout
    cases hl
  · have hown : own p (log ++ [(p, T.volume.event T.prim σ job.op)]) =
        [T.volume.event T.prim σ job.op] := by
      rw [own_append_self, hnew]
      rfl
    rcases hexec : (T.volume.exec T.prim job.op σ).1 with b | e | _ | _ <;> rw [hexec] at hout <;>
      subst hout <;> cases hl
    · rw [Local, hown]
      exact .done hasked.asks hexec
    · rw [Local, hown]
      exact .failed hasked.asks hexec
    · refine ⟨by rw [hstate]; rfl, _, hown, hasked.asks, hexec⟩
  · exact local_own (g := s.shared) (fun hin' => hqp (Parties.eq_of_inside hex hin' hin))
      (own_append_of_ne hqp _)
      (poisoned_exec hasked.direct) id hq

/-- What is left under a poisoned mutex is left when the flag is set. -/
theorem inFlight_fault (hpois : σ.poisoned = true) (hin : l.Inside) (h : T.InFlight σ log p l g)
    {log' : Log ι} (hown : own p log' = own p log) :
    T.InFlight { σ with faulted := true } log' p l g.setFaulted := by
  obtain ⟨hnew, ⟨job, hasked, hrejoins⟩, hsound⟩ := h
  have hlock : Io.lock (T.volume.body T.prim job) { σ with faulted := true } =
      (.err .writebackFailed, { σ with faulted := true }) := Io.lock_poisoned _ _ hpois
  refine ⟨hown.trans hnew, ⟨job, hasked, ?_⟩, fun hb => absurd hpois (by simp [hsound hb])⟩
  rw [Io.lock_poisoned _ _ hpois] at hrejoins
  rw [hlock]
  cases l <;> try exact hin.elim
  case fault => exact hrejoins
  case release o =>
    have hio := congrArg Prod.snd hrejoins
    rcases o with _ | e | _ | _ <;> cases congrArg Prod.fst hrejoins
    exact Prod.ext rfl (congrArg (fun io => { io with faulted := true }) hio)
  all_goals exact absurd hpois (by simp [hsound trivial])

/-- **The handler of a callback** marks the fault, which is a request of its own. -/
theorem orders_handle (ho : T.Orders io₀ s log σ) (hp : s.place p = .handler) :
    T.Orders io₀ (s.move p (.leaving 5) s.shared.setFaulted)
      (log ++ [(p, T.volume.event T.prim σ .markFaulted)]) { σ with faulted := true } := by
  have hlocal := ho.all p
  rw [hp] at hlocal
  obtain ⟨hpois, e, hown, hop, he⟩ := hlocal
  refine ⟨?_, ?_, fun hfree => ?_, Parties.all_move ho.all ?_ fun q hqp hq => ?_⟩
  · rw [List.map_append]
    exact ho.path.append ho.going (path_single ⟨rfl, rfl⟩)
  · rw [List.map_append]
    exact going_append.mpr ⟨ho.going, List.forall_mem_singleton.mpr
      (by simp [ValidatedVolume.machine, ValidatedVolume.event, ValidatedVolume.exec, noBytes,
        ValidatedVolume.markFaulted])⟩
  · rw [← ho.free (free_before (by rw [hp]; exact id) hfree)]
    rfl
  · rw [Local, own_append_self, hown]
    exact .caught hop he rfl
  · by_cases hin : (s.place q).Inside
    · rw [local_inside hin] at hq ⊢
      exact inFlight_fault hpois hin hq (own_append_of_ne hqp _)
    · have hkeep : σ.poisoned = true → ({ σ with faulted := true } : Io).poisoned = true :=
        fun h => h
      exact local_own (g := s.shared) hin (own_append_of_ne hqp _) hkeep id hq

/-! ### All steps -/

/-- A party that arrives is at the mutex, or has its answer. -/
theorem local_arrived {o : Outcome Error Job} {a a' : Adapter} (hnew : own p log = [])
    (hrun : Adapter.arrive T.volume (T.callback p) a = (o, a')) (hl : Place.arrived o = some l)
    (hstop : a.stopping = true → g.stopping = true) : T.Local σ log p l g := by
  have hret := returns_arrive (v := T.volume) (T.callback p) a
  rw [hrun] at hret
  rcases o with job | e | _ | _
  · cases hl
    obtain ⟨hdirect, hasks, haccepts⟩ := direct_of_arrive hrun
    exact ⟨hnew, hdirect, hasks, haccepts⟩
  · cases hl
    rw [Local, hnew]
    exact .denied hstop hrun
  · exact absurd hret (by simp)
  · cases hl

/-- A step that is not seen by the session. -/
theorem orders_quiet (hex : s.All (Parties.Excludes Place.Inside Shared.owner)) (h : T.Step p s s')
    (ho : T.Orders io₀ s log σ) (hrelease : ∀ o, s.place p ≠ .release o)
    (hhandler : s.place p ≠ .handler) :
    T.Orders io₀ s' log σ := by
  have hlocal := ho.all p
  have hstill : ∀ {l g}, g.adapter.io = s.shared.adapter.io →
      (s.shared.stopping = true → g.stopping = true) → ¬ (s.place p).Inside →
      T.Local σ log p l g → T.Orders io₀ (s.move p l g) log σ :=
    fun hio hstop hp hl => orders_still ho hp hio hstop hl
  cases h with
  | enter _ hp =>
    rw [hp] at hlocal
    exact hstill rfl id (by rw [hp]; exact id) hlocal
  | refuse _ hp hrefused =>
    rw [hp] at hlocal
    have hnew : own p log = [] := hlocal
    refine hstill rfl id (by rw [hp]; exact id) ?_
    rw [Local, hnew]
    exact .refused hrefused
  | arrive _ hp _ hrun hl =>
    rw [hp] at hlocal
    have hcounts := Adapter.arrive_counts T.volume (T.callback p) s.shared.adapter
    rw [hrun] at hcounts
    exact hstill hcounts.1 hcounts.2.trans (by rw [hp]; exact id)
      (local_arrived hlocal hrun hl hcounts.2.trans)
  | acquire _ hp hfree => exact orders_acquire hex ho hp hfree
  | check _ hp hl =>
    refine orders_inside hex ho (by rw [hp]; trivial) (Place.inside_of_checked hl) ?_
      (fun _ => by rw [hp]; trivial) id
    rw [hp]
    exact left_checked hl
  | work _ hp hrun hl =>
    refine orders_inside hex ho (by rw [hp]; trivial) (Place.inside_of_worked hl) ?_
      (fun _ => by rw [hp]; trivial) id
    rw [hp]
    exact left_worked hrun hl
  | fault _ hp =>
    refine orders_inside hex ho (by rw [hp]; trivial) trivial ?_ (fun h => h.elim) id
    rw [hp]
    exact left_fault
  | release _ hp => exact absurd hp (hrelease _)
  | handle _ hp => exact absurd hp hhandler
  | leave _ hp =>
    rw [hp] at hlocal
    exact hstill rfl id (by rw [hp]; exact id) hlocal
  | flushed hp =>
    rw [hp] at hlocal
    exact hstill rfl id (by rw [hp]; exact id) ⟨_, hlocal⟩
  | stop hp =>
    rw [hp] at hlocal
    have hlocal : ∃ status, Answered T.volume (T.callback .shutdown) s.shared.stopping
      (own .shutdown log) status := hlocal
    exact hstill rfl (fun _ => rfl) (by rw [hp]; exact id)
      (hlocal.imp fun _ h => h.mono fun _ => rfl)
  | drain _ hp =>
    rw [hp] at hlocal
    exact hstill rfl id (by rw [hp]; exact id) hlocal
  | verdict hp =>
    rw [hp] at hlocal
    exact hstill rfl id (by rw [hp]; exact id) hlocal

/-- There is one way out of the mutex. -/
theorem step_release {o : Outcome Error Unit} (h : T.Step p s s') (hp : s.place p = .release o) :
    ∃ l, Place.settle o = some l ∧ s' = s.move p l (s.shared.drop o) := by
  cases h with
  | release _ hp' hl =>
    cases hp.symm.trans hp'
    exact ⟨_, hl, rfl⟩
  | _ => simp_all only [reduceCtorEq]

/-- There is one way out of a handler. -/
theorem step_handler (h : T.Step p s s') (hp : s.place p = .handler) :
    s' = s.move p (.leaving 5) s.shared.setFaulted := by
  cases h with
  | handle => rfl
  | _ => simp_all only [reduceCtorEq]

/-- **A step of an interleaving** is a step of the session, or none. -/
theorem orders_step (hex : s.All (Parties.Excludes Place.Inside Shared.owner)) (h : T.Step p s s')
    (ho : T.Orders io₀ s log σ) : ∃ new σ', T.Orders io₀ s' (log ++ new) σ' := by
  by_cases hrelease : ∃ o, s.place p = .release o
  · obtain ⟨o, hp⟩ := hrelease
    obtain ⟨l, hl, rfl⟩ := step_release h hp
    obtain ⟨e, σ', ho'⟩ := orders_release hex ho hp hl
    exact ⟨_, σ', ho'⟩
  · by_cases hhandler : s.place p = .handler
    · rw [step_handler h hhandler]
      exact ⟨_, _, orders_handle ho hhandler⟩
    · refine ⟨[], σ, ?_⟩
      rw [List.append_nil]
      exact orders_quiet hex h ho (fun o ho => hrelease ⟨o, ho⟩) hhandler

/-- An interleaving lengthens its session. -/
theorem orders_run {s₀ m : State ι} (hstart : Start s₀) (hm : Reaches T.Step s₀ m)
    (ho : T.Orders io₀ m log σ) (h : Reaches T.Step m s) :
    ∃ new σ', T.Orders io₀ s (log ++ new) σ' := by
  refine h.invariant (I := fun s => ∃ new σ', T.Orders io₀ s (log ++ new) σ')
    ⟨[], σ, by rwa [List.append_nil]⟩ ?_
  rintro p x y hx ⟨new, σ', ho'⟩ hstep
  obtain ⟨new', σ'', ho''⟩ := orders_step (run_excludes hstart (hm.trans hx)) hstep ho'
  exact ⟨new ++ new', σ'', by rwa [← List.append_assoc]⟩

theorem orders_start {s₀ : State ι} (hstart : Start s₀) :
    T.Orders s₀.shared.adapter.io s₀ [] s₀.shared.adapter.io := by
  refine ⟨.nil _, by simp [Going], fun _ => rfl, fun p => ?_⟩
  rw [hstart.idle p]
  rfl

/-! ## Every interleaving is a session -/

variable (T) in
/-- The log is a session that explains the state `s`: which events are whose, which requests have
not had their turn, and the status of those that were answered. -/
structure Shows (io₀ : Io) (s : State ι) (log : Log ι) : Prop where
  session : ∃ σ, T.volume.run T.prim (log.map fun x => x.2.op) io₀ = (log.map Prod.snd, σ) ∧
    (s.shared.owner = none → s.shared.adapter.io = σ)
  asked : ∀ x ∈ log, (T.callback x.1).Asks x.2.op ∨ x.2.op = .markFaulted
  before : ∀ p, s.place p = .idle ∨ s.place p = .entered → own p log = []
  answered : ∀ i status, s.place (.request i) = .returned status →
    Answered T.volume (T.request i) s.shared.stopping (own (.request i) log) status

theorem asked_of_answered {v : ValidatedVolume} {c : Callback} {stopping : Bool}
    {es : List Event} {status : Nat} (h : Answered v c stopping es status) :
    ∀ e ∈ es, c.Asks e.op ∨ e.op = .markFaulted := by
  cases h with
  | refused => simp
  | denied => simp
  | done hop => simpa using Or.inl hop
  | failed hop => simpa using Or.inl hop
  | caught hop _ hm =>
    refine List.forall_mem_cons.mpr ⟨Or.inl hop, ?_⟩
    exact List.forall_mem_singleton.mpr (Or.inr hm)

theorem asked_of_local (h : T.Local σ log p l g) :
    ∀ e ∈ own p log, (T.callback p).Asks e.op ∨ e.op = .markFaulted := by
  have hnil : own p log = [] → ∀ e ∈ own p log, (T.callback p).Asks e.op ∨ e.op = .markFaulted :=
    fun h => by simp [h]
  by_cases hl : l.Inside
  · exact hnil ((local_inside hl).mp h).new
  · cases l <;> try exact absurd trivial hl
    case idle => exact hnil h
    case entered => exact hnil h
    case acquire => exact hnil h.1
    case handler =>
      obtain ⟨-, e, hown, hop, -⟩ := h
      rw [hown]
      exact List.forall_mem_singleton.mpr (Or.inl hop)
    case leaving => exact asked_of_answered h
    case returned => exact asked_of_answered h
    all_goals
      obtain ⟨status, h⟩ := h
      exact asked_of_answered h

theorem shows_of_orders (hex : s.All (Parties.Excludes Place.Inside Shared.owner))
    (ho : T.Orders io₀ s log σ) :
    T.Shows io₀ s log where
  session := by
    have hrun := ValidatedVolume.run_of_path ho.path
    rw [List.map_map] at hrun
    exact ⟨σ, hrun, fun hfree => ho.free fun _ => Parties.outside_of_free hex hfree⟩
  asked x hx := asked_of_local (ho.all x.1) x.2
    (List.mem_map.mpr ⟨x, List.mem_filter.mpr ⟨hx, by simp⟩, rfl⟩)
  before p hp := by
    have := ho.all p
    rcases hp with hp | hp <;> rw [hp] at this <;> exact this
  answered i status hp := by
    have := ho.all (.request i)
    rwa [hp] at this

/-- **Every interleaving is a session.**  Let any number of requests and the shutdown of a session
run on threads of their own.  In every state there is a sequential session that explains it: with
the mutex free, it ends in the shared state; the reads in it are served from the flat array; each
request that was answered has its one place in it, with its status, unless it was turned away before
the mutex, where the status says by what; and the session only grows, so that a request that was
answered before another one entered comes before it. -/
theorem threads_linear {ext : Parsers} {s₀ m : State ι} (hx : XtsInverts T.prim)
    (hopen : Opened T.prim ext T.volume s₀.shared.adapter.io) (hstart : Start s₀)
    (hm : Reaches T.Step s₀ m)
    (hs : Reaches T.Step m s) : ∃ log new,
      T.Shows s₀.shared.adapter.io m log ∧ T.Shows s₀.shared.adapter.io s (log ++ new) ∧
      Serves (T.volume.volume.plain T.prim s₀.shared.adapter.io.disk.file.data)
        ((log ++ new).map Prod.snd) := by
  obtain ⟨log, σ, ho⟩ := orders_run hstart (.refl s₀) (orders_start hstart) hm
  rw [List.nil_append] at ho
  obtain ⟨new, σ', ho'⟩ := orders_run hstart hm ho hs
  refine ⟨log, new, shows_of_orders (run_excludes hstart hm) ho,
    shows_of_orders (run_excludes hstart (hm.trans hs)) ho', ?_⟩
  exact (ValidatedVolume.flat_path hx hopen.fits hopen.size ⟨serves_nil _, Or.inl rfl⟩
    (by simp [Going]) ho'.path).serves

theorem sample_start : Start sampleStart := ⟨rfl, rfl, fun _ => rfl⟩

/-- A write that works during the drain has its place in a session. -/
theorem threads_linear_sample :
    ∃ s, s.place .shutdown = .verdict false ∧ s.place (.request ()) = .returned 0 ∧
    ∃ log, sample.Shows (Sample.io []) s log ∧
      Serves (sample.volume.volume.plain sample.prim (Sample.store 1 Sample.body))
        (log.map Prod.snd) := by
  obtain ⟨s, hrun, hverdict, hreturned⟩ := sample_run
  obtain ⟨log, new, -, hshows, hserves⟩ :=
    threads_linear Sample.xtsInverts (Sample.opened .readWrite []) sample_start (.refl _) hrun
  exact ⟨s, hverdict, hreturned, _, hshows, hserves⟩

end Threads

end Winluks
