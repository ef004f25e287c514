import Winluks.Callbacks
import Winluks.Serving

/-!
# The virtual disk

What WinSpd sees of a session: it sends requests for blocks of 512 bytes, each
with a buffer, and gets a status and the buffer back (`Adapter.exchanges`).
`Exchange.Legal` is the contract of a block device: a content that GOOD writes
change and GOOD reads show, in range, and nothing of it in the buffer of a read
that failed.  Every request is at most one request to the volume (`Asks`), so a
sequence of them is a session.

`device_legal`: every answer is legal, over the array that the image decrypted
to.  `device_crash`: what a crash leaves is this array, except in the range of at
most one write that was not GOOD.
-/

namespace Winluks

open Lib Machine

/-! ## Requests and answers -/

/-- A request of the dispatcher, with the buffer that goes with it. -/
inductive Scsi where
  | read (lba count : Nat) (buffer : Option Bytes)
  | write (lba count : Nat) (buffer : Option Bytes)
  | flush (lba count : Nat)
  | unmap (count : Nat)
deriving DecidableEq

namespace Scsi

def buffer : Scsi → Option Bytes
  | .read _ _ b => b
  | .write _ _ b => b
  | _ => none

/-- The callback for the request. -/
def callback (context : Operations) : Scsi → Run Transfer Empty Status
  | .read lba count _ => Shim.readCb context lba count
  | .write lba count _ => Shim.writeCb context lba count
  | .flush lba count => Shim.flushCb context lba count
  | .unmap count => Shim.unmapCb context count

/-- The bytes of a write. -/
def bytes (count : Nat) (buffer : Option Bytes) : Bytes := (buffer.getD []).take (count * 512)

/-- What the request asks of the volume. -/
def op : Scsi → Option VolOp
  | .read lba count _ => some (.read (lba * 512) (count * 512))
  | .write lba count b => some (.write (lba * 512) (bytes count b))
  | .flush _ _ => some .flush
  | .unmap _ => none

/-- The buffer once the data are in it. -/
def filled (data : Bytes) : Scsi → Option Bytes
  | .read _ _ b => b.map fun b => data ++ b.drop data.length
  | r => r.buffer

/-- The buffer of a request that failed.  One that is too long is not touched. -/
def spoiled : Scsi → Option Bytes
  | .read lba count b => if 2048 < count then b
      else (Scsi.read lba count b).filled (zeros (count * 512))
  | r => r.buffer

end Scsi

/-- A request and its answer.  There is no status when the machine stopped inside the request. -/
structure Exchange where
  request : Scsi
  status : Option Status
  buffer : Option Bytes
deriving DecidableEq

namespace Adapter

variable (prim : Primitives) (v : ValidatedVolume)

def exchange (r : Scsi) (a : Adapter) : Exchange × Adapter :=
  match r.callback (operations prim v) ⟨a, r.buffer⟩ with
  | (o, t) => (⟨r, o.toOption, t.buffer⟩, t.adapter)

/-- One request after the other; nothing follows one in which the machine stopped. -/
def exchanges : List Scsi → Adapter → List Exchange × Adapter
  | [], a => ([], a)
  | r :: rs, a =>
    let x := exchange prim v r a
    if x.1.status = none then ([x.1], x.2) else (x.1 :: (exchanges rs x.2).1, (exchanges rs x.2).2)

end Adapter

/-! ## The contract of a block device -/

instance Status.decidableGood (s : Status) : Decidable s.Good := inferInstanceAs (Decidable (_ = _))

namespace Exchange

def Good (x : Exchange) : Prop := ∃ s, x.status = some s ∧ s.Good

/-- The content after an exchange: only a GOOD write changes it. -/
def apply (P : Store) (x : Exchange) : Store :=
  match x.request, x.status with
  | .write lba count b, some s => if s.Good then overlay P (lba * 512) (Scsi.bytes count b) else P
  | _, _ => P

/-- The exchange is a write that may have reached the byte at `q`. -/
def Covers (x : Exchange) (q : Nat) : Prop :=
  ∃ lba count b, x.request = .write lba count b ∧ lba * 512 ≤ q ∧
    q < lba * 512 + (Scsi.bytes count b).length

/-- What a disk of `len` bytes with content `P` may answer. -/
structure Legal (len : Nat) (writable : Prop) (P : Store) (x : Exchange) : Prop where
  whole : ∀ s, x.status = some s → s.Good ∨ s.Check
  read : ∀ lba count b, x.request = .read lba count b → x.Good →
    x.buffer = x.request.filled (slice P (lba * 512) (count * 512)) ∧
    (count ≠ 0 → (lba + count) * 512 ≤ len)
  spoiled : ∀ s, x.status = some s → ¬ s.Good → x.buffer = x.request.spoiled
  write : ∀ lba count b, x.request = .write lba count b → x.Good → x.buffer = b ∧ writable ∧
    (Scsi.bytes count b ≠ [] → lba * 512 + (Scsi.bytes count b).length ≤ len)
  /-- a protected disk says so -/
  guarded : ¬ writable → ∀ lba count b s, x.request = .write lba count b → x.status = some s →
    s = ⟨2, 7, 0x27⟩ ∨ Refused count b ∧ s = ⟨2, 5, 0x21⟩
  unmap : ∀ count, x.request = .unmap count → ¬ x.Good

end Exchange

/-! ## An operation is one request to the volume -/

section
variable {prim : Primitives} {v : ValidatedVolume} {α β : Type} {op : VolOp} {bytes : α → Bytes}
    {a : Adapter}

/-- The operation is refused in front of the volume, or it is the request `op` to it. -/
inductive Asks (prim : Primitives) (v : ValidatedVolume) (m : Run Adapter Error α) (op : VolOp)
    (bytes : α → Bytes) (a : Adapter) : Prop
  | refused {e : Error} (hout : (m a).1 = .err e) (hio : (m a).2.io = a.io)
  | asked (hout : (v.exec prim op a.io).1 = (m a).1 >>= fun x => .ok (bytes x))
      (hio : (v.exec prim op a.io).2 = (m a).2.io)

/-- A check in front of the volume. -/
theorem asks_check {m : Run Adapter Error β} {f : β → Run Adapter Error α} (hio : (m a).2.io = a.io)
    (hret : (m a).1.Returns) (hf : ∀ x a', Asks prim v (f x) op bytes a') :
    Asks prim v (m >>= f) op bytes a := by
  rcases Run.bind_cases m f a with ⟨x, a', h, hb⟩ | ⟨e, a', h, hb⟩ | ⟨a', h, hb⟩ | ⟨a', h, hb⟩ <;>
    rw [h] at hio hret
  · dsimp only at hio
    rcases hf x a' with ⟨hout, hio'⟩ | ⟨hout, hio'⟩
    · exact .refused (by rw [hb]; exact hout) (by rw [hb]; exact hio'.trans hio)
    · rw [hio] at hout hio'
      exact .asked (by rw [hb]; exact hout) (by rw [hb]; exact hio')
  · exact .refused (congrArg Prod.fst hb) (by rw [hb]; exact hio)
  · exact absurd hret (by simp)
  · exact absurd hret (by simp)

theorem asks_notStopping {f : Unit → Run Adapter Error α}
    (hf : ∀ x a', Asks prim v (f x) op bytes a') :
    Asks prim v (Adapter.notStopping >>= f) op bytes a := by
  refine asks_check ?_ ?_ hf <;> rw [Adapter.notStopping, Run.gets_bind, Run.lift_run]
  exact Outcome.returns_failIf _ _

theorem asks_at {n : Nat} {f : Nat → Run Adapter Error α}
    (hf : Asks prim v (f (n * 512)) op bytes a) :
    Asks prim v (Run.lift (.ofOption .invalidRange (checkedMul 64 n 512)) >>= f) op bytes a := by
  by_cases hn : n * 512 < 2 ^ 64
  · rw [checkedMul, if_pos hn]
    exact hf
  · rw [checkedMul, if_neg hn]
    exact .refused rfl rfl

theorem asks_onIo {m : Run Io Error α}
    (hout : ∀ s, (v.exec prim op s).1 = (m s).1 >>= fun x => .ok (bytes x))
    (hio : ∀ s, (v.exec prim op s).2 = (m s).2) : Asks prim v (Adapter.onIo m) op bytes a :=
    .asked (hout _) (hio _)

theorem asks_read (lba count : Nat) :
    Asks prim v (Adapter.read prim v lba count) (.read (lba * 512) (count * 512)) id a := by
  refine asks_notStopping fun _ a₁ =>
    asks_at (asks_at (asks_check rfl trivial fun _ a₂ => asks_onIo (fun s => ?_) fun s => rfl))
  show (v.readAt prim _ _ s).1 = (v.readAt prim _ _ s).1 >>= fun x => .ok x
  cases (v.readAt prim (lba * 512) (count * 512) s).1 <;> rfl

theorem noBytes_fst (m : Run Io Error Unit) (s : Io) :
    (noBytes m s).1 = (m s).1 >>= fun _ => .ok [] := by
  rw [noBytes, Run.bind_run]
  rcases m s with ⟨_ | _ | _ | _, s'⟩ <;> rfl

theorem asks_write (lba : Nat) (bs : Bytes) :
    Asks prim v (Adapter.write prim v lba bs) (.write (lba * 512) bs) (fun _ => []) a := by
  refine asks_check rfl trivial fun _ a₁ =>
    asks_check rfl (Outcome.returns_failIf _ _) fun _ a₂ => ?_
  refine asks_notStopping fun _ a₃ => asks_at (asks_onIo (fun s => noBytes_fst _ s) fun s => ?_)
  exact ValidatedVolume.noBytes_state _ s

theorem asks_flushVolume : Asks prim v (Adapter.flushVolume v) .flush (fun _ => []) a :=
  asks_check rfl trivial fun _ _ =>
  asks_onIo (fun s => noBytes_fst _ s) fun s => ValidatedVolume.noBytes_state _ s

theorem asks_flush (lba count : Nat) :
    Asks prim v (Adapter.flush v lba count) .flush (fun _ => []) a := by
  refine asks_notStopping fun _ a₁ => asks_at ?_
  split
  · split
    · exact asks_flushVolume
    · exact .refused rfl rfl
  · split
    · exact .refused rfl rfl
    · exact asks_flushVolume

end

/-! ## One exchange -/

namespace Exchange

/-- What an exchange is for the volume: one request with its answer, or requests of which none was
acknowledged. -/
inductive Made (x : Exchange) : List Event → Prop
  | good {s : Status} {op : VolOp} {data : Bytes} {calls : List Call} (hs : x.status = some s)
    (hgood : s.Good) (hop : x.request.op = some op) (hbuffer : x.buffer = x.request.filled data) :
    Made x [⟨op, .ok data, calls⟩]
  | bad {es : List Event} (hcheck : ∀ s, x.status = some s → s.Check)
      (hbuffer : ∀ s, x.status = some s → x.buffer = x.request.spoiled)
      (hes : ∀ e ∈ es, x.request.op = some e.op ∧ (∀ b, e.outcome ≠ .ok b) ∨ e.op = .markFaulted) :
      Made x es

theorem not_good_of_check {s : Status} (h : s.Check) : ¬ s.Good := by
  unfold Status.Good
  rw [h.1]
  decide

theorem apply_of_not_good {x : Exchange} (h : ¬ x.Good) (P : Store) : x.apply P = P := by
  obtain ⟨_ | _ | _ | _, _ | s, b⟩ := x
  case write.some => exact if_neg fun hs => h ⟨s, rfl, hs⟩
  all_goals rfl

theorem fold_of_not_acked {es : List Event}
    (h : ∀ e ∈ es, (∀ b, e.outcome ≠ .ok b) ∨ e.op = .markFaulted) (P : Store) :
    es.foldl Event.apply P = P := by
  induction es with
  | nil => rfl
  | cons e es ih =>
    obtain ⟨he, hes⟩ := List.forall_mem_cons.mp h
    have : e.apply P = P := by
      rcases he with he | he
      · exact Event.apply_of_not_ok he
      · exact Event.apply_of_not_write fun off bytes => by simp [he]
    rw [List.foldl_cons, this, ih hes]

/-- The two views of a content agree. -/
theorem Made.apply_eq {x : Exchange} {es : List Event} (h : x.Made es) (P : Store) :
    es.foldl Event.apply P = x.apply P := by
  cases h with
  | @good s op data calls hs hgood hop hbuffer =>
    obtain ⟨r, st, b⟩ := x
    obtain rfl : st = some s := hs
    cases r with
    | write =>
      cases hop
      exact (if_pos hgood).symm
    | unmap => cases hop
    | _ =>
      cases hop
      rfl
  | bad hcheck hbuffer hes =>
    rw [fold_of_not_acked (fun e he => (hes e he).imp And.right id), apply_of_not_good]
    rintro ⟨s, hs, hgood⟩
    exact not_good_of_check (hcheck s hs) hgood

end Exchange

section
variable {prim : Primitives} {v : ValidatedVolume} {a : Adapter} {r : Scsi}

/-- The events behind an exchange. -/
def Exchanged (prim : Primitives) (v : ValidatedVolume) (r : Scsi) (a : Adapter) : Prop :=
  ∃ es, (v.machine prim).Path a.io es (Adapter.exchange prim v r a).2.io ∧
    ((Adapter.exchange prim v r a).1.status ≠ none → (v.machine prim).Going es) ∧
    (Adapter.exchange prim v r a).1.Made es

/-- A request that no callback passed on. -/
theorem exchanged_of_refused {s : Status} {b : Option Bytes}
    (h : r.callback (Adapter.operations prim v) ⟨a, r.buffer⟩ = (.ok s, ⟨a, b⟩)) (hs : s.Check)
    (hb : b = r.spoiled) :
    Exchanged prim v r a := by
  have hx : Adapter.exchange prim v r a = (⟨r, some s, b⟩, a) := by rw [Adapter.exchange, h]; rfl
  rw [Exchanged, hx]
  refine ⟨[], .nil _, fun _ => by simp [Going], .bad ?_ ?_ (by simp)⟩
  · rintro s' ⟨⟩
    exact hs
  · exact fun _ _ => hb

/-- What an operation is for the volume. -/
theorem path_of_asks {α : Type} {m : Run Adapter Error α} {op : VolOp} {bytes : α → Bytes}
    (h : Asks prim v m op bytes a) :
    ∃ es, (v.machine prim).Path a.io es (m a).2.io ∧ ((m a).1 ≠ .halt → (v.machine prim).Going es) ∧
      (∀ x, (m a).1 = .ok x → ∃ calls, es = [⟨op, .ok (bytes x), calls⟩]) ∧
      ((∀ x, (m a).1 ≠ .ok x) → ∀ e ∈ es, e.op = op ∧ ∀ b, e.outcome ≠ .ok b) := by
  rcases h with ⟨hout, hio⟩ | ⟨hout, hio⟩
  · rw [hout, hio]
    exact ⟨[], .nil _, fun _ => by simp [Going], by simp, by simp⟩
  · have hnot : (∀ x, (m a).1 ≠ .ok x) → ∀ b, (v.exec prim op a.io).1 ≠ .ok b := by
      intro hno b hb
      obtain ⟨x, hx, -⟩ := Outcome.bind_eq_ok.mp (hout.symm.trans hb)
      exact hno x hx
    refine ⟨[v.event prim a.io op], path_single ⟨rfl, hio.symm⟩, fun hne => ?_, fun x hx => ?_,
      fun hno => ?_⟩
    · refine List.forall_mem_singleton.mpr fun hhalt => hne ?_
      have : (v.exec prim op a.io).1 = .halt := hhalt
      rw [hout] at this
      rcases hm : (m a).1 with _ | _ | _ | _ <;> rw [hm] at this <;> first | rfl | cases this
    · have : (v.exec prim op a.io).1 = .ok (bytes x) := by rw [hout, hx]; rfl
      exact ⟨_, by rw [ValidatedVolume.event, this]⟩
    · exact List.forall_mem_singleton.mpr ⟨rfl, hnot hno⟩

/-- A request that was passed on to an operation of the adapter. -/
theorem exchanged_of_settled {α : Type} {m : Run Adapter Error α} {op : VolOp} {bytes : α → Bytes}
    {after : Outcome Error α → Adapter → Transfer} {code : Run Transfer Empty Nat}
    (h : r.callback (Adapter.operations prim v) ⟨a, r.buffer⟩ =
      (do let c ← code; pure (Shim.result c) : Run Transfer Empty Status) ⟨a, r.buffer⟩)
    (hcode : code ⟨a, r.buffer⟩ = settled after (m a)) (hafter : ∀ o a', (after o a').adapter = a')
    (hasks : Asks prim v m op bytes a) (hop : r.op = some op)
    (hfilled : ∀ x a', (m a).1 = .ok x → (after (.ok x) a').buffer = r.filled (bytes x))
    (hspoiled : ∀ o a', (∀ x, o ≠ .ok x) → (after o a').buffer = r.spoiled) :
    Exchanged prim v r a := by
  have hx : ∀ {o t}, settled after (m a) = (o, t) → Adapter.exchange prim v r a =
      (⟨r, (o >>= fun c => .ok (Shim.result c)).toOption, t.buffer⟩, t.adapter) := by
    intro o t hsettled
    rw [Adapter.exchange, h, Run.bind_run, hcode, hsettled]
    rcases o with _ | e | _ | _ <;> rfl
  obtain ⟨es, hpath, hgo, hgood, hbad⟩ := path_of_asks hasks
  have hmade : (∀ x, (m a).1 ≠ .ok x) → ∀ e ∈ es, r.op = some e.op ∧ (∀ b, e.outcome ≠ .ok b) ∨
      e.op = .markFaulted :=
    fun hno e he => Or.inl ⟨by rw [(hbad hno e he).1, hop], (hbad hno e he).2⟩
  rw [Exchanged]
  rcases hm : m a with ⟨x | e | _ | _, a'⟩ <;> rw [hm] at hx hpath hgo hgood hmade <;> rw [hx rfl]
  · obtain ⟨calls, rfl⟩ := hgood x rfl
    exact ⟨_, by rwa [hafter], fun _ => hgo (by simp),
      .good rfl rfl hop (hfilled x a' (by rw [hm]))⟩
  · refine ⟨es, by rwa [hafter], fun _ => hgo (by simp),
      .bad ?_ (fun _ _ => hspoiled _ _ (by simp)) (hmade (by simp))⟩
    rintro s ⟨⟩
    exact Shim.result_check (code_ne_zero e)
  · -- the handler marks the fault, with one more request
    have hmark : (v.machine prim).Path a'.io [v.event prim a'.io .markFaulted] a'.fault.io :=
      path_single ⟨rfl, rfl⟩
    have hgoing : (v.machine prim).Going [v.event prim a'.io .markFaulted] :=
      List.forall_mem_singleton.mpr
        (by simp [ValidatedVolume.machine, ValidatedVolume.event, ValidatedVolume.exec, noBytes,
          ValidatedVolume.markFaulted])
    refine ⟨es ++ [v.event prim a'.io .markFaulted], ?_,
      fun _ => going_append.mpr ⟨hgo (by simp), hgoing⟩,
      .bad ?_ (fun _ _ => hspoiled _ _ (by simp)) ?_⟩
    · rw [hafter]
      exact hpath.append (hgo (by simp)) hmark
    · rintro s ⟨⟩
      exact Shim.result_check (by decide)
    · exact List.forall_mem_append.mpr ⟨hmade (by simp), List.forall_mem_singleton.mpr (Or.inr rfl)⟩
  · exact ⟨es, by rwa [hafter], fun hne => absurd rfl hne,
      .bad (by rintro s ⟨⟩) (by rintro s ⟨⟩) (hmade (by simp))⟩

/-- A buffer that a read has filled with zeros is spoiled. -/
theorem spoiled_of_short {lba count : Nat} {b : Option Bytes} (h : ¬ 2048 < count) :
    (Scsi.read lba count b).spoiled = (Scsi.read lba count b).filled (zeros (count * 512)) :=
    if_neg h

theorem not_long {count : Nat} {b : Option Bytes} (h : ¬ Refused count b) : ¬ 2048 < count :=
  fun hc => h (Or.inl hc)

/-- **One exchange** is one request to the volume, or requests of which none was acknowledged. -/
theorem exchanged (prim : Primitives) (v : ValidatedVolume) (r : Scsi) (a : Adapter) :
    Exchanged prim v r a := by
  have hcheck : (Shim.result 2).Check := Shim.result_check (by decide)
  cases r with
  | read lba count b =>
    by_cases href : Refused count b
    · refine exchanged_of_refused (Shim.readCb_refused href) hcheck ?_
      rw [Scsi.spoiled]
      split
      · rfl
      · next hc =>
        obtain ⟨-, rfl⟩ := href.resolve_left hc
        rfl
    · refine exchanged_of_settled (Shim.readCb_admitted href) (Native.readCb_run href)
        (fun _ _ => rfl) (asks_read lba count) rfl (fun _ _ _ => rfl) fun o a' ho => ?_
      rw [spoiled_of_short (not_long href)]
      cases o with
      | ok x => exact absurd rfl (ho x)
      | _ => rfl
  | write lba count b =>
    by_cases href : Refused count b
    · exact exchanged_of_refused (Shim.writeCb_refused href) hcheck rfl
    · exact exchanged_of_settled (Shim.writeCb_admitted href) (Native.writeCb_run href)
        (fun _ _ => rfl) (asks_write lba _) rfl (fun _ _ _ => rfl) fun _ _ _ => rfl
  | flush lba count =>
    exact exchanged_of_settled rfl (Native.guarded_run _) (fun _ _ => rfl)
      (asks_flush lba count) rfl (fun _ _ _ => rfl) fun _ _ _ => rfl
  | unmap count =>
    -- an adapter that only counts and refuses
    refine ⟨[], .nil _, fun _ => by simp [Going], .bad ?_ (fun _ _ => rfl) (by simp)⟩
    rintro s hs
    obtain rfl : Shim.result (code (if v.mode = .readOnly then .readOnly
      else .unsupportedOperation)) = s :=
      Option.some.inj hs
    exact Shim.result_check (code_ne_zero _)

end

/-! ## Sequences of exchanges -/

section
variable {prim : Primitives} {v : ValidatedVolume} {a : Adapter} {r : Scsi} {P : Store}
    {past es : List Event} {s s' : Io}

/-- An acknowledged request passed all checks, unless there was nothing to do. -/
theorem accepts_of_acked {op : VolOp} {data : Bytes} {calls : List Call} (hfits : v.volume.Fits)
    (hsize : s.disk.file.size = v.volume.image.len)
    (hpath : (v.machine prim).Path s [⟨op, .ok data, calls⟩] s') :
    v.Accepts op ∨ (∃ off, op = .read off 0) ∨ ∃ off, op = .write off [] := by
  rcases hpath with _ | ⟨⟨he, -⟩, -, -⟩
  have hs : v.Step prim s op (v.exec prim op s).1 _ := ValidatedVolume.exec_step hfits hsize op
  rw [show (v.exec prim op s).1 = .ok data from (congrArg Event.outcome he).symm] at hs
  generalize (v.exec prim op s).2 = s₁ at hs
  cases hs with
  | empty _ nothing => exact Or.inr nothing
  | marked => exact Or.inl trivial
  | performed p => exact Or.inl p.accepts

theorem write_protected (hmode : v.mode ≠ .readWrite) (lba : Nat) (bs : Bytes) :
    (Adapter.write prim v lba bs a).1 = .err .readOnly := by
  have hro : v.mode = .readOnly := by
    cases hm : v.mode with
    | readOnly => rfl
    | readWrite => exact absurd hm hmode
  rw [Adapter.write, Run.modify_bind, Run.failIf_bind, if_pos hro]

theorem status_refused {lba count : Nat} {b : Option Bytes} (h : Refused count b) :
    (Adapter.exchange prim v (.write lba count b) a).1.status = some ⟨2, 5, 0x21⟩ := by
  have hcall : Shim.writeCb (Adapter.operations prim v) lba count ⟨a, b⟩ = _ :=
    Shim.writeCb_refused h
  rw [Adapter.exchange, Scsi.callback, Scsi.buffer, hcall]
  rfl

theorem status_protected (hmode : v.mode ≠ .readWrite) {lba count : Nat} {b : Option Bytes}
    (h : ¬ Refused count b) :
    (Adapter.exchange prim v (.write lba count b) a).1.status = some ⟨2, 7, 0x27⟩ := by
  have hcode : Native.writeCb (some (Adapter.operations prim v)) lba count ⟨a, b⟩ = _ :=
    Native.writeCb_run h
  have hcall : Shim.writeCb (Adapter.operations prim v) lba count ⟨a, b⟩ = _ :=
    Shim.writeCb_admitted h
  rw [Adapter.exchange, Scsi.callback, Scsi.buffer, hcall, Run.bind_run, hcode]
  have hw : (Adapter.write prim v lba ((b.getD []).take (count * 512)) a).1 = .err .readOnly :=
    write_protected hmode _ _
  rcases hm : (Adapter.operations prim v).write lba ((b.getD []).take (count * 512)) a with ⟨o, a'⟩
  obtain rfl : o = .err .readOnly := (congrArg Prod.fst hm).symm.trans hw
  rfl

/-- **One answer** is legal over the array that the session serves. -/
theorem exchange_legal (hx : XtsInverts prim) (hfits : v.volume.Fits)
    (hsize : a.io.disk.file.size = v.volume.image.len) (h : v.Flat prim P past a.io)
    (hpast : (v.machine prim).Going past) :
    (Adapter.exchange prim v r a).1.Legal v.len (v.mode = .readWrite)
    (past.foldl Event.apply P) := by
  obtain ⟨es, hpath, -, hmade⟩ := exchanged prim v r a
  have hreq : (Adapter.exchange prim v r a).1.request = r := rfl
  have hguarded : ¬ v.mode = .readWrite → ∀ lba count b s, r = .write lba count b →
      (Adapter.exchange prim v r a).1.status = some s → s = ⟨2, 7, 0x27⟩ ∨ Refused count b ∧
      s = ⟨2, 5, 0x21⟩ := by
    rintro hmode lba count b s rfl hs
    by_cases href : Refused count b
    · rw [status_refused href] at hs
      exact Or.inr ⟨href, (Option.some.inj hs).symm⟩
    · rw [status_protected hmode href] at hs
      exact Or.inl (Option.some.inj hs).symm
  generalize Adapter.exchange prim v r a = x at *
  obtain ⟨x, a'⟩ := x
  dsimp only at *
  cases hmade with
  | @good s op data calls hs hgood hop hbuffer =>
    have hflat := ValidatedVolume.flat_path hx hfits hsize h hpast hpath
    have hans := hflat.serves past _ [] rfl
    have hacc := accepts_of_acked hfits hsize hpath
    refine ⟨?_, ?_, ?_, ?_, by rwa [hreq], ?_⟩
    · intro s' hs'
      rw [hs] at hs'
      cases hs'
      exact Or.inl hgood
    · intro lba count b hr _
      rw [hr] at hop hbuffer ⊢
      cases hop
      obtain rfl := hans _ _ _ rfl rfl
      refine ⟨hbuffer, fun hcount => ?_⟩
      obtain hacc | ⟨off, hacc⟩ | ⟨off, hacc⟩ := hacc
      · rw [Nat.add_mul]
        exact hacc
      · exact absurd (VolOp.read.inj hacc).2 (Nat.mul_ne_zero hcount (by decide))
      · cases hacc
    · intro s' hs' hbad
      rw [hs] at hs'
      cases hs'
      exact absurd hgood hbad
    · intro lba count b hr _
      rw [hr] at hop hbuffer
      cases hop
      refine ⟨hbuffer, ?_, fun hne => ?_⟩
      · by_contra hmode
        obtain rfl | ⟨-, rfl⟩ := hguarded hmode lba count b s (hreq.symm.trans hr) hs <;>
          cases hgood
      · obtain hacc | ⟨off, hacc⟩ | ⟨off, hacc⟩ := hacc
        · exact hacc.2.2.1
        · cases hacc
        · exact absurd (VolOp.write.inj hacc).2 hne
    · intro count hr
      rw [hr] at hop
      cases hop
  | bad hcheck hbuffer hes =>
    have hno : ¬ x.Good := by
      rintro ⟨s, hs, hgood⟩
      exact Exchange.not_good_of_check (hcheck s hs) hgood
    exact ⟨fun s hs => Or.inr (hcheck s hs), fun _ _ _ _ hg => absurd hg hno,
      fun s hs _ => hbuffer s hs,
      fun _ _ _ _ hg => absurd hg hno, by rwa [hreq], fun _ _ => hno⟩

/-- The session behind a sequence of exchanges. -/
theorem exchanges_path (rs : List Scsi) (a : Adapter) : ∃ es,
    (v.machine prim).Path a.io es (Adapter.exchanges prim v rs a).2.io ∧
    ∀ P, es.foldl Event.apply P = (Adapter.exchanges prim v rs a).1.foldl Exchange.apply P := by
  induction rs generalizing a with
  | nil => exact ⟨[], .nil _, fun _ => rfl⟩
  | cons r rs ih =>
    obtain ⟨es, hpath, hgo, hmade⟩ := exchanged prim v r a
    rw [Adapter.exchanges]
    split
    · exact ⟨es, hpath, fun P => hmade.apply_eq P⟩
    · next hne =>
      obtain ⟨es', hpath', hfold⟩ := ih (Adapter.exchange prim v r a).2
      refine ⟨es ++ es', hpath.append (hgo hne) hpath', fun P => ?_⟩
      rw [List.foldl_append, hmade.apply_eq, hfold, List.foldl_cons]

/-- A GOOD request is an event that was acknowledged. -/
theorem not_good_of_latched (hfits : v.volume.Fits)
    (hsize : a.io.disk.file.size = v.volume.image.len)
    (hl : a.io.faulted = true ∨ a.io.poisoned = true) (rs : List Scsi) :
    ∀ x ∈ (Adapter.exchanges prim v rs a).1, ¬ x.Good := by
  induction rs generalizing a with
  | nil => simp [Adapter.exchanges]
  | cons r rs ih =>
    obtain ⟨es, hpath, -, hmade⟩ := exchanged prim v r a
    obtain ⟨hl', hnone⟩ := ValidatedVolume.latched_path hfits hsize hl hpath
    have hx : ¬ (Adapter.exchange prim v r a).1.Good := by
      rintro ⟨s, hs, hgood⟩
      cases hmade with
      | @good s' op data calls hs' _ hop =>
        refine hnone _ (List.mem_singleton_self _) ?_ data rfl
        rintro rfl
        cases r <;> cases hop
      | bad hcheck => exact Exchange.not_good_of_check (hcheck s hs) hgood
    rw [Adapter.exchanges]
    split
    · exact List.forall_mem_singleton.mpr hx
    · exact List.forall_mem_cons.mpr ⟨hx, ih (ValidatedVolume.size_path hfits hsize hpath) hl'⟩

/-- A torn write is one whose exchange was not GOOD. -/
theorem Exchange.Made.torn {x : Exchange} (h : x.Made es) {e : Event} (he : e ∈ es) (ht : e.Torn) :
    ¬ x.Good ∧ ∃ lba count b, x.request = .write lba count b ∧
    e.op = .write (lba * 512) (Scsi.bytes count b) := by
  obtain ⟨⟨off, bytes, hop⟩, -, hno⟩ := ht
  cases h with
  | @good s op data calls hs =>
    obtain rfl := List.mem_singleton.mp he
    exact absurd rfl (hno data)
  | bad hcheck hbuffer hes =>
    refine ⟨fun ⟨s, hs, hgood⟩ => not_good_of_check (hcheck s hs) hgood, ?_⟩
    rcases hes e he with ⟨hreq, -⟩ | hmark
    · rw [hop] at hreq
      rcases hr : x.request with ⟨lba, count, b⟩ | ⟨lba, count, b⟩ | _ | _ <;>
        rw [hr] at hreq <;> cases hreq
      exact ⟨lba, count, b, rfl, hop⟩
    · rw [hop] at hmark
      cases hmark

end

/-! ## The disk over a session -/

section
variable {prim : Primitives} {ext : Parsers} {v : ValidatedVolume} {a : Adapter} {P : Store}
    {past : List Event}

theorem exchanges_legal (hx : XtsInverts prim) (hfits : v.volume.Fits)
    (hsize : a.io.disk.file.size = v.volume.image.len) (h : v.Flat prim P past a.io)
    (hpast : (v.machine prim).Going past) (rs : List Scsi) :
    ∀ pre x later, (Adapter.exchanges prim v rs a).1 = pre ++ x :: later →
      x.Legal v.len (v.mode = .readWrite)
        (pre.foldl Exchange.apply (past.foldl Event.apply P)) := by
  induction rs generalizing a past with
  | nil => simp [Adapter.exchanges]
  | cons r rs ih =>
    have hlegal := exchange_legal hx hfits hsize h hpast (r := r)
    obtain ⟨es, hpath, hgo, hmade⟩ := exchanged prim v r a
    intro pre x later hxs
    rw [Adapter.exchanges] at hxs
    rcases pre with _ | ⟨y, pre⟩
    · split at hxs
      · rwa [← (List.cons.inj hxs).1]
      · rwa [← (List.cons.inj hxs).1]
    · split at hxs
      · exact absurd (List.cons.inj hxs).2 (by simp)
      · next hne =>
        obtain ⟨rfl, hrest⟩ := List.cons.inj hxs
        have := ih (ValidatedVolume.size_path hfits hsize hpath)
          (ValidatedVolume.flat_path hx hfits hsize h hpast hpath)
          (going_append.mpr ⟨hpast, hgo hne⟩) pre x later hrest
        rwa [List.foldl_append, hmade.apply_eq] at this

/-- **The virtual disk is a block device.**  Over an unlocked volume, whatever the backend does,
every answer to a sequence of requests is legal: a GOOD read fills its buffer with its part of the
array that the image decrypted to, with the GOOD writes before laid over it, and a read that failed
leaves zeros in its place; a GOOD request lies inside the disk; a protected disk refuses every write
as such; an unmap is never GOOD; and a status is GOOD or a CHECK CONDITION. -/
theorem device_legal (hx : XtsInverts prim) (hopen : Opened prim ext v a.io) (rs : List Scsi) :
    ∀ past x later, (Adapter.exchanges prim v rs a).1 = past ++ x :: later →
      x.Legal v.len (v.mode = .readWrite)
        (past.foldl Exchange.apply (v.volume.plain prim a.io.disk.file.data)) :=
  exchanges_legal hx hopen.fits hopen.size ⟨serves_nil _, Or.inl rfl⟩ (by simp [Going]) rs

/-- A write whose image is cut by a short answer, and a read across it. -/
theorem device_legal_sample :
    let xs := (Adapter.exchanges Sample.prim (Sample.volume .readWrite)
      [.write 0 1 (some (zeros 512)), .read 0 2 (some (List.replicate 2000 7))]
      (.new (Sample.io [.limit 1, .limit 7]))).1
    xs ≠ [] ∧ ∀ past x later, xs = past ++ x :: later →
      x.Legal 131072 ((Sample.volume .readWrite).mode = .readWrite) (past.foldl Exchange.apply
        ((Sample.volume .readWrite).volume.plain Sample.prim (Sample.store 1 Sample.body))) := by
  refine ⟨?_, device_legal Sample.xtsInverts (Sample.opened .readWrite [.limit 1, .limit 7]) _⟩
  rw [Adapter.exchanges]
  split <;> exact List.cons_ne_nil _ _

/-- A session has one torn write at most. -/
theorem torn_unique {es : List Event} (h : es.Pairwise fun x y => x.Torn → y.calls = [])
    {x y : Event} (hx : x ∈ es) (hxt : x.Torn) (hy : y ∈ es) (hyt : y.Torn) : x = y := by
  induction h with
  | nil => cases hx
  | cons hfirst _ ih =>
    rcases List.mem_cons.mp hx with rfl | hx' <;> rcases List.mem_cons.mp hy with rfl | hy'
    · rfl
    · exact absurd (hfirst y hy' hxt) hyt.2.1
    · exact absurd (hfirst x hx' hyt) hxt.2.1
    · exact ih hx' hy'

/-- What a crash keeps, when no write before was torn. -/
theorem exchanges_crash (hx : XtsInverts prim) (hmode : v.mode = .readWrite) (hfits : v.volume.Fits)
    (hsize : a.io.disk.file.size = v.volume.image.len) (h : v.Durable prim P past a.io)
    (hpast : (v.machine prim).Going past) (hnone : ∀ e ∈ past, ¬ e.Torn) (rs : List Scsi) :
    let F := (Adapter.exchanges prim v rs a).2.io.disk.file
    let A := (Adapter.exchanges prim v rs a).1.foldl Exchange.apply (past.foldl Event.apply P)
    (∀ c, F.Crash c → c = F.data ∧ v.volume.plain prim c = A) ∨
    ∃ pre x post, (Adapter.exchanges prim v rs a).1 = pre ++ x :: post ∧
      (∃ lba count b, x.request = .write lba count b) ∧ ¬ x.Good ∧ (∀ y ∈ post, ¬ y.Good) ∧
      ∀ c, F.Crash c → ∀ q, ¬ x.Covers q → v.volume.plain prim c q = A q := by
  induction rs generalizing a past with
  | nil =>
    obtain ⟨h1, h2⟩ := h.synced hnone
    refine Or.inl fun c hc => ⟨(eq_durable_of_crash hc h2).trans h1, funext fun q => ?_⟩
    exact h.crash c hc q fun e he ht => absurd ht (hnone e he)
  | cons r rs ih =>
    obtain ⟨es, hpath, hgo, hmade⟩ := exchanged prim v r a
    have hdur := ValidatedVolume.durable_path hx hmode hfits hsize h hpast hpath
    have hsize' := ValidatedVolume.size_path hfits hsize hpath
    by_cases htorn : ∃ e ∈ es, e.Torn
    · -- this exchange is the torn one
      obtain ⟨e, he, ht⟩ := htorn
      obtain ⟨hbad, lba, count, b, hreq, hop⟩ := hmade.torn he ht
      have hcovers : ∀ q, ¬ (Adapter.exchange prim v r a).1.Covers q → ¬ e.Covers q := by
        rintro q hq ⟨off, bytes, hop', hlo, hhi⟩
        rw [hop] at hop'
        cases hop'
        exact hq ⟨lba, count, b, hreq, hlo, hhi⟩
      refine Or.inr ?_
      rw [Adapter.exchanges]
      split
      · refine ⟨[], _, [], rfl, ⟨lba, count, b, hreq⟩, hbad, by simp, fun c hc q hq => ?_⟩
        rw [hdur.crash c hc q fun x hx hxt =>
          torn_unique hdur.single (List.mem_append_right _ he) ht hx hxt ▸ hcovers q hq,
          List.foldl_append, hmade.apply_eq]
        rfl
      · next hne =>
        obtain ⟨es', hpath', hfold⟩ := exchanges_path rs (Adapter.exchange prim v r a).2
        have hgoing := going_append.mpr ⟨hpast, hgo hne⟩
        have hall := ValidatedVolume.durable_path hx hmode hfits hsize' hdur hgoing hpath'
        have hlatched := (hdur.latched ⟨e, List.mem_append_right _ he, ht⟩).resolve_right
          fun ⟨x, hx, hhalt⟩ => hgoing x hx hhalt
        refine ⟨[], _, _, rfl, ⟨lba, count, b, hreq⟩, hbad,
          not_good_of_latched hfits hsize' hlatched rs,
          fun c hc q hq => ?_⟩
        have he' : e ∈ past ++ es ++ es' := List.mem_append_left _ (List.mem_append_right _ he)
        rw [hall.crash c hc q fun x hx hxt => torn_unique hall.single he' ht hx hxt ▸ hcovers q hq,
          List.foldl_append, List.foldl_append, hmade.apply_eq, hfold]
        rfl
    · have hnone' : ∀ e ∈ past ++ es, ¬ e.Torn :=
        List.forall_mem_append.mpr ⟨hnone, fun e he ht => htorn ⟨e, he, ht⟩⟩
      rw [Adapter.exchanges]
      split
      · obtain ⟨h1, h2⟩ := hdur.synced hnone'
        refine Or.inl fun c hc => ⟨(eq_durable_of_crash hc h2).trans h1, funext fun q => ?_⟩
        rw [hdur.crash c hc q fun x hx hxt => absurd hxt (hnone' x hx), List.foldl_append,
          hmade.apply_eq]
        rfl
      · next hne =>
        have := ih hsize' hdur (going_append.mpr ⟨hpast, hgo hne⟩) hnone'
        rw [List.foldl_append, hmade.apply_eq] at this
        refine this.imp id ?_
        rintro ⟨pre, x, post, hxs, hreq, hbad, hpost, hcrash⟩
        exact ⟨_ :: pre, x, post, by rw [hxs]; rfl, hreq, hbad, hpost, hcrash⟩

/-- **The virtual disk and a crash.**  Over a writable volume, unlocked from a synced image, send
requests, stop anywhere, and let the crash keep any mixture of durable and unsynced bytes.  Either
there is nothing to lose, and the image decrypts to the array with the GOOD writes laid over it; or
one write that was not GOOD may have reached the image in part, no request after it was GOOD, and
every byte outside its range is that of this array. -/
theorem device_crash (hx : XtsInverts prim) (hopen : Opened prim ext v a.io)
    (hmode : v.mode = .readWrite) (hsynced : a.io.disk.file.durable = a.io.disk.file.data ∧
      a.io.disk.file.unsynced = []) (rs : List Scsi) :
    let F := (Adapter.exchanges prim v rs a).2.io.disk.file
    let A := (Adapter.exchanges prim v rs a).1.foldl Exchange.apply
      (v.volume.plain prim a.io.disk.file.data)
    (∀ c, F.Crash c → c = F.data ∧ v.volume.plain prim c = A) ∨
    ∃ pre x post, (Adapter.exchanges prim v rs a).1 = pre ++ x :: post ∧
      (∃ lba count b, x.request = .write lba count b) ∧ ¬ x.Good ∧ (∀ y ∈ post, ¬ y.Good) ∧
      ∀ c, F.Crash c → ∀ q, ¬ x.Covers q → v.volume.plain prim c q = A q := by
  exact exchanges_crash hx hmode hopen.fits hopen.size (ValidatedVolume.durable_start hsynced)
    (by simp [Going]) (by simp) rs

/-- The machine stops inside the second of two writes. -/
theorem device_crash_sample :
    let r := Adapter.exchanges Sample.prim (Sample.volume .readWrite)
      [.write 1 1 (some (zeros 512)), .write 0 1 (some (zeros 512))]
      (.new (Sample.io [.limit 512, .limit 512, .limit 512, .limit 0, .halt [7]]))
    let A := r.1.foldl Exchange.apply
      ((Sample.volume .readWrite).volume.plain Sample.prim (Sample.store 1 Sample.body))
    (∀ c, r.2.io.disk.file.Crash c → c = r.2.io.disk.file.data ∧
      (Sample.volume .readWrite).volume.plain Sample.prim c = A) ∨
    ∃ pre x post, r.1 = pre ++ x :: post ∧ (∃ lba count b, x.request = .write lba count b) ∧
      ¬ x.Good ∧ (∀ y ∈ post, ¬ y.Good) ∧ ∀ c, r.2.io.disk.file.Crash c → ∀ q, ¬ x.Covers q →
        (Sample.volume .readWrite).volume.plain Sample.prim c q = A q :=
  device_crash Sample.xtsInverts (Sample.opened .readWrite _) rfl ⟨rfl, rfl⟩ _

end

end Winluks
