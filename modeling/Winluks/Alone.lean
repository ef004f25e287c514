import Winluks.Threads

/-!
# A request on its own

The steps of `Threads` against the functions of the other modules.  `finish` and
`rest` say in one go what is left to do at a point and at a place; a step leaves
it unchanged (`finish_eq`, `rest_step`), and no request has infinitely many steps
(`size_step`).  So a request that nobody disturbs is its `callback` (`alone_iff`).
-/

namespace Winluks

open Lib

/-! ## Backend calls -/

namespace Work

variable (img : Image)

/-- All that is left, in one go. -/
def finish : Work → Run Disk Error Bytes
  | .readLen target size => img.readExactAt target size
  | .reading target size got => readLoop target size got
  | .writeLen target buf => do
    img.writeAllAt target buf
    img.sync
    pure []
  | .writing target buf done => do
    writeLoop target buf done
    img.sync
    pure []
  | .syncLen => do
    img.sync
    pure []
  | .syncing => do
    syncAll.mapErr fun _ => .backendIo
    pure []
  | .finished bytes => pure bytes

theorem finish_eq (w : Work) : w.finish img = (w.step img >>= Work.finish img) := by
  funext d
  cases w with
  | readLen target size =>
    simp only [finish, step, Image.readExactAt, Run.bind_assoc]
    rfl
  | reading target size got =>
    by_cases hlt : got.length < size
    · show readLoop target size got d = _
      rw [readLoop_eq, if_pos hlt, Run.bind_run]
      simp only [step, if_pos hlt]
      rcases readOnce (target + got.length) (size - got.length) d with
        ⟨(_ | _) | (_ | _) | _ | _, d'⟩ <;> rfl
    · show readLoop target size got d = _
      rw [readLoop_eq, if_neg hlt, Run.bind_run]
      simp only [step, if_neg hlt]
      rfl
  | writeLen target buf =>
    simp only [finish, step, Image.writeAllAt, Run.bind_assoc]
    rfl
  | writing target buf done =>
    by_cases hlt : done < buf.length
    · show (writeLoop target buf done >>= fun _ => img.sync >>= fun _ => pure []) d = _
      rw [Run.bind_run, writeLoop_eq, if_pos hlt, Run.bind_run]
      simp only [step, if_pos hlt]
      rcases writeOnce (target + done) (buf.drop done) d with
        ⟨(_ | _) | (_ | _) | _ | _, d'⟩ <;> rfl
    · show (writeLoop target buf done >>= fun _ => img.sync >>= fun _ => pure []) d = _
      rw [Run.bind_run, writeLoop_eq, if_neg hlt, Run.bind_run]
      simp only [step, if_neg hlt]
      rfl
  | syncLen =>
    simp only [finish, step, Image.sync, Run.bind_assoc]
    by_cases h : img.mode = .readWrite
    · simp only [if_pos h]
      rfl
    · simp only [if_neg h]
      rfl
  | syncing =>
    simp only [finish, step, Run.bind_assoc]
    rfl
  | finished bytes => rfl

variable {img} {w w' : Work} {d d' : Disk}

theorem checkLen_plan {o : Outcome Error Unit} (h : img.checkLen d = (o, d')) :
    d'.plan.length ≤ d.plan.length := by
  have hplan : (fileLen d).2.plan = d.plan.tail := by
    unfold fileLen
    cases d.next (.report d.file.size) <;> rfl
  have hcheck : (img.checkLen d).2 = (fileLen d).2 := by
    unfold Image.checkLen
    rw [Run.bind_run, Run.mapErr]
    rcases fileLen d with ⟨_ | _ | _ | _, d'⟩ <;> rfl
  rw [show d' = (img.checkLen d).2 by rw [h], hcheck, hplan, List.length_tail]
  omega

/-- How many steps are left at most, when the plan has `n` answers. -/
def size (n : Nat) : Work → Nat
  | .readLen _ size => n + size + 2
  | .reading _ size got => n + (size - got.length) + 1
  | .writeLen _ buf => n + buf.length + 4
  | .writing _ buf done => n + (buf.length - done) + 3
  | .syncLen => n + 2
  | .syncing => n + 1
  | .finished _ => 0

theorem size_step (h : w.step img d = (.ok w', d')) (hw : ∀ bytes, w ≠ .finished bytes) :
    w'.size d'.plan.length < w.size d.plan.length := by
  cases goes_of_step h with
  | readLen hlen =>
    have := checkLen_plan hlen
    simp only [size, List.length_nil]
    omega
  | readAgain hlt hread =>
    have := length_tail_lt (plan_ne_nil_of_readOnce_err hread)
    rw [← readOnce_plan hread] at this
    simp only [size]
    omega
  | readMore hlt hread =>
    have := congrArg List.length (readOnce_plan hread)
    rw [List.length_tail] at this
    simp only [size, List.length_append, List.length_cons]
    omega
  | readDone hd =>
    simp only [size]
    omega
  | writeLen hlen =>
    have := checkLen_plan hlen
    simp only [size]
    omega
  | writeAgain hlt hwrite =>
    have := length_tail_lt (plan_ne_nil_of_writeOnce_err hwrite)
    rw [← writeOnce_plan hwrite] at this
    simp only [size]
    omega
  | writeMore hlt hwrite =>
    have := congrArg List.length (writeOnce_plan hwrite)
    rw [List.length_tail] at this
    simp only [size]
    omega
  | writeDone hge hd =>
    subst hd
    simp only [size]
    omega
  | syncLen hlen hw =>
    have := checkLen_plan hlen
    subst hw
    split <;> simp only [size] <;> omega
  | syncing hsync =>
    simp only [size]
    omega
  | finished hd => exact absurd rfl (hw _)

end Work

/-! ## The work under the mutex -/

namespace ValidatedVolume

variable (prim : Primitives) (v : ValidatedVolume)

def backend {α : Type} (job : Job) (m : Run Disk Error α) : Run Io Error α :=
  if v.faults job then Io.orFault m else Io.onDisk m

/-- From a point between the backend calls to the drop of the guard. -/
def resume (job : Job) (w : Work) : Run Io Error Unit := do
  let bytes ← v.backend job (w.finish v.volume.image)
  .lift (v.conclude prim job bytes)

/-- All that a request does with the mutex. -/
def body (job : Job) : Run Io Error Unit := do
  Io.notFaulted
  let w ← .lift (v.prepare prim job)
  match w with
  | none => pure ()
  | some w => v.resume prim job w

theorem lock_void {α : Type} (m : Run Io Error α) : Run.void (Io.lock m) = Io.lock m.void := by
  funext s
  simp only [Run.void, Run.bind_run, Io.lock]
  by_cases hp : s.poisoned = true
  · simp [hp]
  · simp only [hp]
    rcases m s with ⟨_ | _ | _ | _, s'⟩ <;> rfl

theorem readAt_body (o n : Nat) :
    Run.void (v.readAt prim o n) = Io.lock (v.body prim (.read o n)) := by
  unfold readAt UnlockedVolume.readAt
  rw [lock_void]
  congr 1
  simp only [Run.void_bind, body, prepare, Run.lift_of_bind]
  refine bind_congr fun _ => bind_congr fun _ => ?_
  by_cases hn : n = 0
  · simp only [if_pos hn]
    rfl
  · simp only [if_neg hn, Run.void_bind, Run.lift_of_bind]
    refine bind_congr fun stop => bind_congr fun _ => bind_congr fun target => ?_
    have hback : ∀ size, v.backend (.read o n) (Work.finish v.volume.image (.readLen target size)) =
        v.volume.readEncrypted target size := by
      intro size
      simp only [backend, faults, decide_eq_true_eq]
      rfl
    show _ = v.resume prim (.read o n) (.readLen target _)
    rw [resume, hback]
    refine bind_congr fun encrypted => funext fun s => ?_
    rw [Run.lift_bind]
    show _ = (decryptSectors prim v.volume.key.bytes (o / 512 * 512 / 512) encrypted >>=
        fun _ => pure (), s)
    rcases decryptSectors prim v.volume.key.bytes (o / 512 * 512 / 512) encrypted with
      _ | _ | _ | _ <;> rfl

/-- What a request without an answer returns does not matter. -/
theorem orFault_tail (m : Run Disk Error Unit) (b : Bytes) {f : Bytes → Run Io Error Unit}
    (hf : ∀ b, f b = pure ()) : (Io.orFault (m >>= fun _ => pure b) >>= f) = Io.orFault m := by
  obtain rfl : f = fun _ => pure () := funext hf
  funext s
  rw [Run.bind_run, Io.orFault, Io.orFault, Run.bind_run]
  rcases m s.disk with ⟨_ | _ | _ | _, d⟩ <;> rfl

theorem writeAt_body (o : Nat) (b : Bytes) : v.writeAt prim o b = (do
    .lift (.failIf (v.mode ≠ .readWrite) .readOnly)
    .lift (checkedRange v.len o b.length)
    .lift (.failIf (o % 512 ≠ 0 ∨ b.length % 512 ≠ 0) .invalidRange)
    Io.lock (v.body prim (.write o b))) := by
  unfold writeAt
  refine bind_congr fun _ => bind_congr fun _ => bind_congr fun _ => congrArg Io.lock ?_
  simp only [body, prepare]
  refine bind_congr fun _ => ?_
  by_cases hb : b = []
  · simp only [if_pos hb]
    rfl
  · simp only [if_neg hb, Run.lift_of_bind]
    refine bind_congr fun encrypted => bind_congr fun target => ?_
    have hfinish : Work.finish v.volume.image (.writeLen target encrypted) =
        ((do v.volume.image.writeAllAt target encrypted; v.volume.image.sync) >>=
          fun _ => pure []) :=
      (Run.bind_assoc ..).symm
    show _ = v.resume prim (.write o b) (.writeLen target encrypted)
    rw [resume, hfinish]
    exact (orFault_tail _ [] fun _ => rfl).symm

theorem flush_body : v.flush = Io.lock (v.body prim .flush) := by
  unfold flush
  refine congrArg Io.lock (bind_congr fun _ => ?_)
  exact (orFault_tail v.volume.image.sync [] fun _ => rfl).symm

end ValidatedVolume

/-! ## The callbacks -/

section
variable (prim : Primitives) (v : ValidatedVolume)

/-- What a request does from the mutex on. -/
def Adapter.serve (job : Job) : Run Adapter Error Unit := onIo (Io.lock (v.body prim job))

theorem void_onIo {α : Type} (m : Run Io Error α) :
    Run.void (Adapter.onIo m) = Adapter.onIo m.void := by
  funext a
  simp only [Run.void, Run.bind_run, Adapter.onIo, Run.zoom]
  rcases m a.io with ⟨_ | _ | _ | _, s⟩ <;> rfl

theorem read_arrive (lba count : Nat) : Adapter.forget (Adapter.read prim v lba count) =
    (Adapter.arrive v (.read lba count) >>= Adapter.serve prim v) := by
  show Run.void (Adapter.read prim v lba count) = _
  simp only [Adapter.read, Adapter.arrive, Run.void_bind, Run.bind_assoc]
  refine bind_congr fun _ => bind_congr fun o => bind_congr fun n => bind_congr fun _ => ?_
  rw [void_onIo, ValidatedVolume.readAt_body]
  rfl

theorem write_arrive (lba count : Nat) (buffer : Store) :
    Adapter.write prim v lba (slice buffer 0 (count * 512)) =
      (Adapter.arrive v (.write lba count buffer) >>= Adapter.serve prim v) := by
  simp only [Adapter.write, Adapter.arrive, Run.bind_assoc]
  refine bind_congr fun _ => bind_congr fun _ => bind_congr fun _ => bind_congr fun offset => ?_
  rw [ValidatedVolume.writeAt_body]
  funext a
  simp only [Adapter.onIo, Run.zoom, Run.lift_bind]
  by_cases hmode : v.mode ≠ .readWrite
  · simp only [Outcome.failIf_pos hmode]
  · simp only [Outcome.failIf_neg hmode]
    rcases checkedRange v.len offset (slice buffer 0 (count * 512)).length with _ | _ | _ | _
    · by_cases halign : offset % 512 ≠ 0 ∨ (slice buffer 0 (count * 512)).length % 512 ≠ 0
      · simp only [Outcome.failIf_pos halign]
      · simp only [Outcome.failIf_neg halign]
        rfl
    all_goals rfl

theorem flush_arrive (lba count : Nat) :
    Adapter.flush v lba count = (Adapter.arrive v (.control 2 lba count) >>=
      Adapter.serve prim v) := by
  have hflush : Adapter.flushVolume v = (Adapter.arriveFlush >>= Adapter.serve prim v) := by
    rw [Adapter.flushVolume, v.flush_body prim]
    rfl
  simp only [Adapter.flush, Adapter.arrive, Run.bind_assoc, if_true]
  refine bind_congr fun _ => bind_congr fun o => ?_
  split
  · split
    · exact hflush
    · rfl
  · split
    · rfl
    · exact hflush

/-- **A callback is what comes before the mutex and what comes after it.** -/
theorem callback_eq {ε : Type} (c : Callback) : (callback prim v c : Run Adapter ε Nat) =
    if c.refused then pure 2 else catchUnwind (Adapter.arrive v c >>= Adapter.serve prim v) := by
  cases c with
  | read lba count => simp only [callback, readCb, read_arrive, Callback.refused, decide_eq_true_eq]
  | write lba count buffer => simp only [callback, writeCb, write_arrive, Callback.refused,
      decide_eq_true_eq]
  | control op lba count =>
    simp only [callback, controlCb, Callback.refused]
    congr 1
    by_cases h2 : op = 2
    · subst h2
      exact flush_arrive prim v lba count
    · by_cases h3 : op = 3
      · subst h3
        rfl
      · simp only [Adapter.arrive, if_neg h2, if_neg h3]
        rfl

end

/-! ## Steps -/

namespace ValidatedVolume

variable {prim : Primitives} {v : ValidatedVolume} {job : Job} {w w' : Work} {s : Io} {d : Disk}

theorem backend_congr {α : Type} {m m' : Run Disk Error α} (h : m s.disk = m' d) :
    v.backend job m s = v.backend job m' { s with disk := d } := by
  unfold backend
  split
  · unfold Io.orFault
    rw [h]
  · unfold Io.onDisk Run.zoom
    rw [h]

theorem resume_ok (h : w.step v.volume.image s.disk = (.ok w', d)) :
    v.resume prim job w s = v.resume prim job w' { s with disk := d } := by
  have hfin : w.finish v.volume.image s.disk = w'.finish v.volume.image d := by
    rw [Work.finish_eq, Run.bind_run_of h]
  rw [resume, Run.bind_run, backend_congr hfin]
  rfl

theorem resume_finished (bytes : Bytes) :
    v.resume prim job (.finished bytes) s = (v.conclude prim job bytes, s) := by
  unfold resume backend
  by_cases hf : v.faults job = true
  · simp only [if_pos hf]
    rfl
  · simp only [if_neg hf]
    rfl

/-- The backend calls end with `x`. -/
theorem resume_of_finish {x : Outcome Error Bytes} (h : w.finish v.volume.image s.disk = (x, d)) :
    v.resume prim job w s =
      (v.backend job (.lift x) >>= fun bytes => .lift (v.conclude prim job bytes))
      { s with disk := d } := by
  have hfin : w.finish v.volume.image s.disk = (Run.lift x : Run Disk Error Bytes) d := h
  rw [resume, Run.bind_run, backend_congr hfin]
  rfl

theorem resume_err {e : Error} (h : w.step v.volume.image s.disk = (.err e, d)) :
    v.resume prim job w s = (if v.faults job then Io.orFault (.throw .writebackFailed)
      else .throw e) { s with disk := d } := by
  rw [resume_of_finish (by rw [Work.finish_eq, Run.bind_run, h])]
  by_cases hf : v.faults job = true
  · simp only [backend, if_pos hf]
    rfl
  · simp only [backend, if_neg hf]
    rfl

theorem resume_panic (h : w.step v.volume.image s.disk = (.panic, d)) :
    v.resume prim job w s = (.panic, { s with disk := d }) := by
  rw [resume_of_finish (by rw [Work.finish_eq, Run.bind_run, h])]
  unfold backend
  split <;> rfl

theorem resume_halt (h : w.step v.volume.image s.disk = (.halt, d)) :
    v.resume prim job w s = (.halt, { s with disk := d }) := by
  rw [resume_of_finish (by rw [Work.finish_eq, Run.bind_run, h])]
  unfold backend
  split <;> rfl

theorem body_ready {o : Outcome Error (Option Work)} (hf : s.faulted = false)
    (h : v.prepare prim job = o) :
    v.body prim job s = (Run.lift o >>= fun w => match w with
      | none => pure ()
      | some w => v.resume prim job w) s := by
  subst h
  show (Io.notFaulted >>= _) s = _
  rw [Run.bind_run_of (show Io.notFaulted s =
    (.ok (), s) by simp [Io.notFaulted, hf, Run.bind_run])]

end ValidatedVolume

/-- `m`, and then the guard is dropped. -/
def Io.held {α : Type} (m : Run Io Error α) : Run Io Error α := fun s => dropGuard (m s)

theorem held_congr {ε : Type} {m n : Run Io Error Unit} (a : Adapter) (d : Disk)
    (h : m a.io = n { a.io with disk := d }) :
    (catchUnwind (Adapter.onIo (Io.held m)) a : Outcome ε Nat × Adapter) =
      catchUnwind (Adapter.onIo (Io.held n)) { a with io := { a.io with disk := d } } := by
  simp only [catchUnwind, Adapter.onIo, Run.zoom, Io.held, h]

/-- What is left to do at a place, in one go: the status, and the adapter then. -/
def Place.rest (prim : Primitives) (v : ValidatedVolume) (c : Callback) :
    Place → Run Adapter Empty Nat
  | .idle => callback prim v c
  | .entered => callback prim v c
  | .acquire job => catchUnwind (Adapter.serve prim v job)
  | .check job => catchUnwind (Adapter.onIo (Io.held (v.body prim job)))
  | .working job w => catchUnwind (Adapter.onIo (Io.held (v.resume prim job w)))
  | .fault => catchUnwind (Adapter.onIo (Io.held (Io.orFault (.throw .writebackFailed))))
  | .release o => catchUnwind (Adapter.onIo (Io.held (.lift o)))
  | .handler => catchUnwind (.lift .panic)
  | .leaving status => pure status
  | .returned status => pure status
  | _ => .lift .halt

section
variable {prim : Primitives} {v : ValidatedVolume} {c : Callback} {job : Job} {a : Adapter}

theorem rest_checked {l : Place} (hl : Place.checked prim v job a.io.faulted = some l) :
    (Place.check job).rest prim v c a = l.rest prim v c a := by
  unfold Place.checked at hl
  split at hl
  · next hf =>
    cases hl
    have hbody : v.body prim job a.io = (.err .writebackFailed, a.io) := by
      simp [ValidatedVolume.body, Io.notFaulted, hf, Run.bind_run]
    exact held_congr (n := .lift _) _ a.io.disk hbody
  · next hf =>
    have hbody := fun o => @ValidatedVolume.body_ready prim v job a.io o
      (eq_false_of_ne_true hf)
    split at hl
    case h_5 => cases hl
    all_goals
      next hprepare =>
      cases hl
      exact held_congr _ a.io.disk (hbody _ hprepare)

theorem rest_worked {w : Work} {o : Outcome Error Work} {d : Disk} {l : Place}
    (hrun : w.step v.volume.image a.io.disk = (o, d)) (hl : Place.worked prim v job o = some l) :
    (Place.working job w).rest prim v c a = l.rest prim v c { a with io :=
      { a.io with disk := d } } := by
  cases o with
  | ok w' =>
    have h := @ValidatedVolume.resume_ok prim v job _ _ a.io _ hrun
    cases w'
    case finished bytes =>
      rw [ValidatedVolume.resume_finished] at h
      cases hl
      exact held_congr (n := .lift _) _ d h
    all_goals
      cases hl
      exact held_congr _ d h
  | err e =>
    have h := @ValidatedVolume.resume_err prim v job _ a.io _ _ hrun
    cases hl
    split
    · next hf =>
      rw [if_pos hf] at h
      exact held_congr _ d h
    · next hf =>
      rw [if_neg hf] at h
      exact held_congr _ d h
  | panic =>
    have h := @ValidatedVolume.resume_panic prim v job _ a.io _ hrun
    cases hl
    exact held_congr (n := .lift _) _ d h
  | halt => cases hl

end

namespace Threads

variable {ι : Type} [DecidableEq ι] {T : Threads ι} {i : ι} {s s' m : State ι}

/-- **A step leaves unchanged what is left to do.** -/
theorem rest_step (h : T.Step (.request i) s s') :
    (s.place (.request i)).rest T.prim T.volume (T.request i) s.shared.adapter =
      (s'.place (.request i)).rest T.prim T.volume (T.request i) s'.shared.adapter := by
  cases h with
  | enter _ hp _ =>
    rw [hp, Parties.move_place]
    rfl
  | refuse _ hp hrefused =>
    rw [hp, Parties.move_place]
    have hrefused : (T.request i).refused = true := hrefused
    show Winluks.callback _ _ _ _ = _
    rw [callback_eq, if_pos hrefused]
    rfl
  | arrive _ hp hrefused hrun hl =>
    rename_i o a l
    rw [hp, Parties.move_place]
    have hrefused : (T.request i).refused = false := hrefused
    show Winluks.callback _ _ _ _ = _
    rw [callback_eq, if_neg (by rw [hrefused]; decide), catchUnwind, Run.bind_run,
      show Adapter.arrive T.volume (T.request i) s.shared.adapter = (o, a) from hrun]
    cases o <;> cases hl <;> rfl
  | acquire _ hp hfree =>
    rw [hp, Parties.move_place]
    show catchUnwind (Adapter.serve T.prim T.volume _) _ = _
    rw [catchUnwind, Adapter.serve]
    cases hpoisoned : s.shared.adapter.io.poisoned
    · simp [Adapter.onIo, Run.zoom, Io.lock, hpoisoned, Place.rest, Io.held, catchUnwind]
    · simp [Adapter.onIo, Run.zoom, Io.lock, hpoisoned, Place.rest, catchUnwind,
        Io.held, Io.orFault, Io.dropGuard]
  | check _ hp hl =>
    rw [hp, Parties.move_place]
    exact rest_checked hl
  | work _ hp hrun hl =>
    rw [hp, Parties.move_place]
    exact rest_worked hrun hl
  | fault _ hp =>
    rw [hp, Parties.move_place]
    rfl
  | release _ hp hl =>
    rename_i o l
    rw [hp, Parties.move_place]
    cases o <;> cases hl <;> rfl
  | handle _ hp =>
    rw [hp, Parties.move_place]
    rfl
  | leave _ hp =>
    rw [hp, Parties.move_place]
    rfl
/-! ## A request that nobody disturbs -/

/-- Any number of steps of request `i` alone. -/
def Alone (T : Threads ι) (i : ι) : State ι → State ι → Prop :=
  Reaches fun (_ : Unit) s s' => T.Step (.request i) s s'

/-- What is left of request `i`. -/
def left (T : Threads ι) (i : ι) (s : State ι) : Outcome Empty Nat × Adapter :=
  (s.place (.request i)).rest T.prim T.volume (T.request i) s.shared.adapter

theorem left_alone (h : T.Alone i s s') : T.left i s' = T.left i s :=
  h.invariant (I := fun m => T.left i m = T.left i s) rfl fun _ _ _ _ hm hp =>
  (rest_step hp).symm.trans hm

/-- Unless the machine stops, the request can get to its end alone. -/
def Finishes (T : Threads ι) (i : ι) (s : State ι) : Prop :=
  (T.left i s).1 ≠ .halt → ∃ s' status, T.Alone i s s' ∧ s'.place (.request i) = .returned status

theorem finishes_step (h : T.Step (.request i) s m) (hm : T.Finishes i m) : T.Finishes i s := by
  intro hhalt
  rw [left, rest_step h] at hhalt
  obtain ⟨s', status, hrun, hs'⟩ := hm hhalt
  exact ⟨s', status, ((Reaches.refl s).step (p := ()) h).trans hrun, hs'⟩

theorem finishes_leaving {status : Nat} (h : s.place (.request i) = .leaving status) :
    T.Finishes i s :=
  finishes_step (.leave i h) fun _ => ⟨_, status, Reaches.refl _, Parties.move_place⟩

theorem finishes_handler (h : s.place (.request i) = .handler) : T.Finishes i s :=
  finishes_step (.handle i h) (finishes_leaving Parties.move_place)

theorem finishes_release {o : Outcome Error Unit} (h : s.place (.request i) = .release o) :
    T.Finishes i s := by
  cases o with
  | ok u => exact finishes_step (.release _ h rfl) (finishes_leaving Parties.move_place)
  | err e => exact finishes_step (.release _ h rfl) (finishes_leaving Parties.move_place)
  | panic => exact finishes_step (.release _ h rfl) (finishes_handler Parties.move_place)
  | halt =>
    intro hhalt
    rw [left, h] at hhalt
    exact absurd rfl hhalt

theorem finishes_fault (h : s.place (.request i) = .fault) : T.Finishes i s :=
  finishes_step (.fault _ h) (finishes_release Parties.move_place)

theorem finishes_working (n : Nat) : ∀ {s : State ι} {job : Job} {w : Work},
    s.place (.request i) = .working job w → w.size s.shared.disk.plan.length < n →
    T.Finishes i s := by
  induction n with
  | zero => intro s job w _ hlt; omega
  | succ n ih =>
    intro s job w h hlt
    rcases hrun : w.step T.volume.volume.image s.shared.disk with ⟨o, d⟩
    cases o with
    | ok w' =>
      by_cases hw' : ∃ bytes, w' = .finished bytes
      · obtain ⟨bytes, rfl⟩ := hw'
        exact finishes_step (.work _ h hrun rfl) (finishes_release Parties.move_place)
      · have hne : ∀ bytes, w ≠ .finished bytes := by
          rintro bytes rfl
          exact hw' ⟨bytes, (congrArg Prod.fst hrun).symm |> Outcome.ok.inj⟩
        have hsize := Work.size_step hrun hne
        have hl : Place.worked T.prim T.volume job (.ok w') = some (.working job w') := by
          cases w'
          case finished bytes => exact absurd ⟨bytes, rfl⟩ hw'
          all_goals rfl
        refine finishes_step (.work _ h hrun hl) (ih Parties.move_place ?_)
        show w'.size d.plan.length < n
        omega
    | err e =>
      refine finishes_step (.work _ h hrun rfl) ?_
      by_cases hf : T.volume.faults job = true
      · rw [if_pos hf]
        exact finishes_fault Parties.move_place
      · rw [if_neg hf]
        exact finishes_release Parties.move_place
    | panic => exact finishes_step (.work _ h hrun rfl) (finishes_release Parties.move_place)
    | halt =>
      intro hhalt
      have hresume := @ValidatedVolume.resume_halt T.prim T.volume job w s.shared.adapter.io d hrun
      rw [left, h] at hhalt
      refine absurd ?_ hhalt
      simp only [Place.rest, catchUnwind, Adapter.onIo, Run.zoom, Io.held, hresume]
      rfl

theorem finishes_check {job : Job} (h : s.place (.request i) = .check job) : T.Finishes i s := by
  have hstep : ∀ l, Place.checked T.prim T.volume job s.shared.faulted = some l →
      T.Step (.request i) s (s.move (.request i) l s.shared) := fun l hl => .check _ h hl
  unfold Place.checked at hstep
  split at hstep
  · exact finishes_step (hstep _ rfl) (finishes_release Parties.move_place)
  · next hf =>
    split at hstep
    case h_2 => exact finishes_step (hstep _ rfl) (finishes_working _ Parties.move_place
      (Nat.lt_succ_self _))
    case h_5 hprepare =>
      intro hhalt
      have hbody := ValidatedVolume.body_ready (eq_false_of_ne_true hf) hprepare
      rw [left, h] at hhalt
      refine absurd ?_ hhalt
      simp only [Place.rest, catchUnwind, Adapter.onIo, Run.zoom, Io.held]
      rw [hbody]
      rfl
    all_goals exact finishes_step (hstep _ rfl) (finishes_release Parties.move_place)

theorem finishes_acquire {job : Job} (h : s.place (.request i) = .acquire job)
    (hfree : s.shared.owner = none) :
    T.Finishes i s := by
  refine finishes_step (.acquire _ h hfree) ?_
  split
  · exact finishes_fault Parties.move_place
  · exact finishes_check Parties.move_place

theorem finishes_entered (h : s.place (.request i) = .entered) (hfree : s.shared.owner = none) :
    T.Finishes i s := by
  cases hrefused : (T.request i).refused
  · rcases hrun : Adapter.arrive T.volume (T.request i) s.shared.adapter with ⟨o, a⟩
    have hstep : ∀ l, Place.arrived o = some l →
        T.Step (.request i) s (s.move (.request i) l { s.shared with adapter := a }) :=
      fun l hl => .arrive _ h hrefused hrun hl
    cases o with
    | ok job => exact finishes_step (hstep _ rfl) (finishes_acquire Parties.move_place hfree)
    | err e => exact finishes_step (hstep _ rfl) (finishes_leaving Parties.move_place)
    | panic => exact finishes_step (hstep _ rfl) (finishes_handler Parties.move_place)
    | halt =>
      intro hhalt
      rw [left, h] at hhalt
      refine absurd ?_ hhalt
      show (Winluks.callback _ _ _ _).1 = _
      rw [callback_eq, if_neg (by rw [hrefused]; decide), catchUnwind, Run.bind_run, hrun]
  · exact finishes_step (.refuse _ h hrefused) (finishes_leaving Parties.move_place)

/-- **A request that nobody disturbs is its callback.**  Alone, with the mutex free, it returns a
status exactly when `callback` does, and leaves the adapter as `callback` does. -/
theorem alone_iff (hidle : s.place (.request i) = .idle) (hdrained : ¬ (s.place .shutdown).Drained)
    (hfree : s.shared.owner = none) (status : Nat) (a : Adapter) :
    (∃ s', T.Alone i s s' ∧ s'.place (.request i) = .returned status ∧ s'.shared.adapter = a) ↔
      Winluks.callback T.prim T.volume (T.request i) s.shared.adapter =
        ((.ok status, a) : Outcome Empty Nat × Adapter) := by
  have hleft : T.left i s = Winluks.callback T.prim T.volume (T.request i) s.shared.adapter := by
    rw [left, hidle]
    rfl
  have hreturned : ∀ {s' status'}, s'.place (.request i) = .returned status' →
      T.left i s' = (.ok status', s'.shared.adapter) := by
    intro s' status' hs'
    rw [left, hs']
    rfl
  rw [← hleft]
  constructor
  · rintro ⟨s', hrun, hs', rfl⟩
    rw [← left_alone hrun, hreturned hs']
  · intro h
    have hstart : T.Finishes i s :=
      finishes_step (.enter _ hidle hdrained) (finishes_entered Parties.move_place hfree)
    obtain ⟨s', status', hrun, hs'⟩ := hstart (by rw [h]; exact nofun)
    have hend := left_alone hrun
    rw [hreturned hs', h] at hend
    cases hend
    exact ⟨s', hrun, hs', rfl⟩

end Threads

end Winluks
