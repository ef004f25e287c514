import Winluks.Lib.Schedule
import Winluks.ImageSpec

/-!
# The transfer loops under any schedule

`write_all_at` and `read_exact_at` over a backend that answers every call as an
infinite schedule says: it moves a part, is interrupted, or fails without moving
anything.  The two loops are one, `transferLoop`, around `writeOnce` or
`readOnce`; `fuel` bounds its rounds, and a loop that runs out of it has not
come back (`halt`).  `writeLoop_schedule` and `readLoop_schedule` find the loops
of `Image` in it.

`transfers` says that both realise one positional transfer, and
`writeAllAt_transfers` and `readExactAt_transfers` say the same of the operations
of an image.
-/

namespace Winluks

open Lib

/-- The file with the length it has now, the buffer of the caller, the number of calls made, and
where each was and for how much. -/
structure Backend where
  file : Store
  size : Nat
  buffer : Bytes
  time : Nat
  calls : List (Nat × Nat)

namespace Backend

section
variable (σ : Nat → Answer)

/-- A call at `offset` for what is behind `done` was made. -/
def called (d : Backend) (offset done : Nat) : Backend :=
  { d with time := d.time + 1, calls := d.calls ++ [(offset, d.buffer.length - done)] }

/-- One positional write of `&buf[done..]`. -/
def writeOnce (offset done : Nat) : Run Backend ErrorKind Nat := fun d =>
  match σ d.time with
  | .moved n =>
    let n := min n (d.buffer.length - done)
    (.ok n, { d.called offset done with
      file := overlay d.file offset ((d.buffer.drop done).take n) })
  | .interrupted => (.err .interrupted, d.called offset done)
  | .failed => (.err .other, d.called offset done)

/-- One positional read into `&mut buf[done..]`. -/
def readOnce (offset done : Nat) : Run Backend ErrorKind Nat := fun d =>
  match σ d.time with
  | .moved n =>
    let n := min n (d.buffer.length - done)
    (.ok n, { d.called offset done with
      buffer := d.buffer.take done ++ slice d.file offset n ++ d.buffer.drop (done + n) })
  | .interrupted => (.err .interrupted, d.called offset done)
  | .failed => (.err .other, d.called offset done)

/-- The loop of `write_all_at` and of `read_exact_at`: `done` bytes are transferred. -/
def transferLoop (once : Nat → Nat → Run Backend ErrorKind Nat) (offset : Nat) :
    (fuel done : Nat) → Run Backend Error Unit
  | 0, _ => .lift .halt
  | fuel + 1, done => do
    let size ← .gets fun d => d.buffer.length
    if done < size then do
      let position ← .lift (trapAdd 64 offset done)
      let n ← (once position done).attempt
      match n with
      | .error .interrupted => transferLoop once offset fuel done
      | .error .other => .throw .backendIo
      | .ok 0 => .throw .backendIo
      | .ok (n + 1) => do
        let done ← .lift (trapAdd 64 done (n + 1))
        transferLoop once offset fuel done
    else pure ()

variable (img : Image) (fuel offset : Nat)

/-- The checks of a range, and of the length of the file. -/
def checkRange : Run Backend Error Unit := do
  let size ← .gets fun d => d.buffer.length
  .lift (.failIf (img.len < offset ∨ img.len - offset < size) .invalidRange)
  let n ← .gets Backend.size
  .lift (.failIf (n ≠ img.len) .backendIo)

def writeAllAt : Run Backend Error Unit := do
  .lift (.failIf (img.mode ≠ .readWrite) .readOnly)
  checkRange img offset
  transferLoop (writeOnce σ) offset fuel 0

def readExactAt : Run Backend Error Unit := do
  checkRange img offset
  transferLoop (readOnce σ) offset fuel 0

end

/-! ## One positional transfer -/

/-- What the transfer of `size` bytes is to do, however much fuel it is given.
`held m d`: in `d`, `m` bytes are transferred, and nothing else is touched. -/
structure OneTransfer (σ : Nat → Answer) (size len : Nat) (run : Nat → Outcome Error Unit × Backend)
    (held : Nat → Backend → Prop) : Prop where
  terminates : (∀ k, ∃ j, k ≤ j ∧ σ j ≠ .interrupted) → ∃ fuel, (run fuel).1.Returns
  ok_iff : (∃ fuel, (run fuel).1 = .ok ()) ↔ Completes σ size
  ok : ∀ fuel, (run fuel).1 = .ok () → held size (run fuel).2
  err : ∀ fuel e, (run fuel).1 = .err e → e = .backendIo ∧ ∃ m < size, held m (run fuel).2
  no_panic : ∀ fuel, (run fuel).1 ≠ .panic
  inside : ∀ fuel, ∀ c ∈ (run fuel).2.calls, c.1 + c.2 ≤ len
  stable : ∀ fuel fuel', (run fuel).1.Returns → fuel ≤ fuel' → run fuel' = run fuel

/-! ## The rounds of the loop -/

/-- The answer to a call for `rest` bytes. -/
def result (rest : Nat) : Answer → Outcome ErrorKind Nat
  | .moved n => .ok (min n rest)
  | .interrupted => .err .interrupted
  | .failed => .err .other

/-- A call moves what the schedule says, from where the transfer stands. -/
structure Lawful (σ : Nat → Answer) (once : Nat → Nat → Run Backend ErrorKind Nat)
    (offset size : Nat) (held : Nat → Backend → Prop) : Prop where
  buffer : ∀ {m d}, held m d → d.buffer.length = size
  call : ∀ {m d}, m < size → held m d →
    ∃ d', once (offset + m) m d = (result (size - m) (σ d.time), d') ∧
    held (m + min (σ d.time).amount (size - m)) d' ∧ d'.time = d.time + 1 ∧
    d'.calls = d.calls ++ [(offset + m, size - m)]

section
variable {σ : Nat → Answer} {once : Nat → Nat → Run Backend ErrorKind Nat} {offset size len : Nat}
  {held : Nat → Backend → Prop} {start : Backend}

/-- After `k` calls: what is transferred, and where the calls were. -/
structure Stands (σ : Nat → Answer) (size len : Nat) (held : Nat → Backend → Prop) (k : Nat)
    (d : Backend) : Prop where
  held : held (progress σ size k) d
  time : d.time = k
  inside : ∀ c ∈ d.calls, c.1 + c.2 ≤ len

theorem loop_done (h : Lawful σ once offset size held) {k : Nat} {d : Backend}
    (hd : Stands σ size len held k d) (hfull : progress σ size k = size) (fuel : Nat) :
    transferLoop once offset (fuel + 1) (progress σ size k) d = (.ok (), d) := by
  have hbuf := h.buffer hd.held
  unfold transferLoop
  rw [Run.gets_bind, hbuf, if_neg (by omega)]
  rfl

/-- The round after its call. -/
def afterCall (once : Nat → Nat → Run Backend ErrorKind Nat) (offset fuel done : Nat) :
    Except ErrorKind Nat → Run Backend Error Unit
  | .error .interrupted => transferLoop once offset fuel done
  | .error .other => .throw .backendIo
  | .ok 0 => .throw .backendIo
  | .ok (n + 1) => do
    let done ← .lift (trapAdd 64 done (n + 1))
    transferLoop once offset fuel done

/-- One round, while there is something left: the call, and what follows on its answer. -/
theorem loop_round (h : Lawful σ once offset size held) (hin : offset + size ≤ len)
    (hlen : len < 2 ^ 64) {k : Nat} {d : Backend} (hd : Stands σ size len held k d)
    (hleft : progress σ size k < size) :
    ∃ d', Stands σ size len held (k + 1) d' ∧
    ∀ fuel, transferLoop once offset (fuel + 1) (progress σ size k) d =
      if (σ k).Goes then transferLoop once offset fuel (progress σ size (k + 1)) d'
        else (.err .backendIo, d') := by
  obtain ⟨d', hcall, hheld, htime, hcalls⟩ := h.call hleft hd.held
  rw [hd.time] at hcall hheld
  have hinside : ∀ c ∈ d'.calls, c.1 + c.2 ≤ len := by
    intro c hc
    rw [hcalls] at hc
    rcases List.mem_append.mp hc with hc | hc
    · exact hd.inside c hc
    · rw [List.mem_singleton.mp hc]
      show offset + progress σ size k + (size - progress σ size k) ≤ len
      omega
  refine ⟨d', ⟨hheld, by rw [htime, hd.time], hinside⟩, fun fuel => ?_⟩
  have hbuf := h.buffer hd.held
  have hle := @progress_le σ size (k + 1)
  have hround : transferLoop once offset (fuel + 1) (progress σ size k) d =
      ((once (offset + progress σ size k) (progress σ size k)).attempt >>=
        afterCall once offset fuel (progress σ size k)) d := by
    unfold transferLoop
    rw [Run.gets_bind, hbuf, if_pos hleft, trapAdd_ok (by omega)]
    rfl
  rw [hround]
  cases hans : σ k with
  | interrupted =>
    rw [hans] at hcall
    have hgoes : Answer.Goes .interrupted := trivial
    have hstill : progress σ size (k + 1) = progress σ size k := by
      rw [progress, hans]
      exact congrArg (progress σ size k + ·) (Nat.zero_min _)
    rw [Run.bind_run_of (Run.attempt_err hcall), if_pos hgoes, hstill]
    rfl
  | failed =>
    rw [hans] at hcall
    have hends : ¬ Answer.Goes .failed := id
    rw [Run.bind_run_of (Run.attempt_err hcall), if_neg hends]
    rfl
  | moved n =>
    rw [hans] at hcall
    rw [Run.bind_run_of (Run.attempt_ok hcall)]
    cases n with
    | zero =>
      have hends : ¬ Answer.Goes (.moved 0) := fun h => h rfl
      rw [if_neg hends, Nat.zero_min]
      rfl
    | succ n =>
      have hmoved : progress σ size (k + 1) =
          progress σ size k + min (n + 1) (size - progress σ size k) := by
        rw [progress, hans]
        rfl
      obtain ⟨m, hm⟩ := Nat.exists_eq_succ_of_ne_zero
        (show min (n + 1) (size - progress σ size k) ≠ 0 by omega)
      have hgoes : Answer.Goes (.moved (n + 1)) := Nat.succ_ne_zero n
      rw [if_pos hgoes, hmoved, hm]
      simp only [afterCall]
      rw [trapAdd_ok (by omega)]
      rfl

/-- The rounds before `k`, as long as each leaves something to do. -/
theorem loop_rounds (h : Lawful σ once offset size held) (hin : offset + size ≤ len)
    (hlen : len < 2 ^ 64) (hstart : Stands σ size len held 0 start) {k : Nat}
    (hgo : GoesTo σ size k) :
    ∃ d, Stands σ size len held k d ∧ ∀ fuel,
      transferLoop once offset (fuel + k) 0 start =
      transferLoop once offset fuel (progress σ size k) d := by
  induction k with
  | zero => exact ⟨start, hstart, fun _ => rfl⟩
  | succ k ih =>
    obtain ⟨d, hd, hrun⟩ := ih fun j hj => hgo j (by omega)
    obtain ⟨hgoes, hleft⟩ := hgo k (Nat.lt_succ_self k)
    obtain ⟨d', hd', hround⟩ := loop_round h hin hlen hd hleft
    refine ⟨d', hd', fun fuel => ?_⟩
    rw [show fuel + (k + 1) = fuel + 1 + k by omega, hrun, hround, if_pos hgoes]

/-- With too little fuel the loop has not come back. -/
theorem loop_halts (h : Lawful σ once offset size held) (hin : offset + size ≤ len)
    (hlen : len < 2 ^ 64) (hstart : Stands σ size len held 0 start) {k : Nat}
    (hgo : GoesTo σ size k) :
    ∃ d, (∀ c ∈ d.calls, c.1 + c.2 ≤ len) ∧ transferLoop once offset k 0 start = (.halt, d) := by
  obtain ⟨d, hd, hrun⟩ := loop_rounds h hin hlen hstart hgo
  have := hrun 0
  rw [Nat.zero_add] at this
  exact ⟨d, hd.inside, this⟩

/-- How the loop ends at the first round that does not go on. -/
theorem loop_stops (h : Lawful σ once offset size held) (hin : offset + size ≤ len)
    (hlen : len < 2 ^ 64) (hstart : Stands σ size len held 0 start) {k : Nat}
    (hgo : GoesTo σ size k)
    (hstop : ¬ ((σ k).Goes ∧ progress σ size k < size)) :
    ∃ d, (∀ c ∈ d.calls, c.1 + c.2 ≤ len) ∧ held (progress σ size k) d ∧ ∀ fuel, k < fuel →
      transferLoop once offset fuel 0 start =
        (if progress σ size k = size then .ok () else .err .backendIo, d) := by
  obtain ⟨d, hd, hrun⟩ := loop_rounds h hin hlen hstart hgo
  have hfuel : ∀ fuel, k < fuel → fuel = fuel - k - 1 + 1 + k := fun fuel hk => by omega
  by_cases hfull : progress σ size k = size
  · refine ⟨d, hd.inside, hd.held, fun fuel hk => ?_⟩
    rw [hfuel fuel hk, hrun, loop_done h hd hfull, if_pos hfull]
  · have hleft : progress σ size k < size := lt_of_le_of_ne (progress_le k) hfull
    have hends : ¬ (σ k).Goes := fun hgoes => hstop ⟨hgoes, hleft⟩
    obtain ⟨d', hd', hround⟩ := loop_round h hin hlen hd hleft
    -- a call that ends the transfer moves nothing
    have hstill : progress σ size (k + 1) = progress σ size k := by
      have hzero : (σ k).amount = 0 := by
        cases hans : σ k with
        | moved n =>
          rw [hans] at hends
          exact not_not.mp hends
        | interrupted => rfl
        | failed => rfl
      rw [progress, hzero, Nat.zero_min, Nat.add_zero]
    refine ⟨d', hd'.inside, hstill ▸ hd'.held, fun fuel hk => ?_⟩
    rw [hfuel fuel hk, hrun, hround, if_neg hends, if_neg hfull]

variable {run : Nat → Outcome Error Unit × Backend}

/-- A run that ends at its first round that does not go on, `k`, whatever fuel it is given beyond
that. -/
theorem oneTransfer_of_stop {k : Nat} {d : Backend} (hgo : GoesTo σ size k)
    (hstop : ¬ ((σ k).Goes ∧ progress σ size k < size))
    (hshort : ∀ fuel ≤ k, ∃ d, (∀ c ∈ d.calls, c.1 + c.2 ≤ len) ∧ run fuel = (.halt, d))
    (hrun : ∀ fuel, k < fuel →
      run fuel = (if progress σ size k = size then .ok () else .err .backendIo, d))
    (hinside : ∀ c ∈ d.calls, c.1 + c.2 ≤ len) (hheld : held (progress σ size k) d) :
    OneTransfer σ size len run held := by
  have hback : ∀ fuel, (run fuel).1 ≠ .halt → k < fuel := by
    intro fuel hret
    by_contra hk
    obtain ⟨d', -, hhalt⟩ := hshort fuel (by omega)
    exact hret (by rw [hhalt])
  have hok : ∀ fuel, (run fuel).1 = .ok () → k < fuel ∧ progress σ size k = size := by
    intro fuel h
    have hk := hback fuel (by rw [h]; nofun)
    refine ⟨hk, ?_⟩
    rw [hrun fuel hk] at h
    by_contra hfull
    simp [hfull] at h
  exact {
    terminates := fun _ => ⟨k + 1, by rw [hrun _ (Nat.lt_succ_self k)]; split <;> trivial⟩
    ok_iff := by
      rw [completes_iff]
      constructor
      · rintro ⟨fuel, h⟩
        exact ⟨k, fun j hj => (hgo j hj).1, (hok fuel h).2⟩
      · rintro ⟨n, hall, hn⟩
        have hfull : progress σ size k = size := by
          by_contra hfull
          have hleft : progress σ size k < size := lt_of_le_of_ne (progress_le k) hfull
          have hnk : n ≤ k := by
            by_contra hnk
            exact hstop ⟨hall k (by omega), hleft⟩
          have := @progress_mono σ size n k hnk
          omega
        exact ⟨k + 1, by rw [hrun _ (Nat.lt_succ_self k), if_pos hfull]⟩
    ok := fun fuel h => by
      obtain ⟨hk, hfull⟩ := hok fuel h
      rw [hrun fuel hk]
      exact hfull ▸ hheld
    err := fun fuel e h => by
      have hk := hback fuel (by rw [h]; nofun)
      rw [hrun fuel hk] at h ⊢
      split at h
      · cases h
      · next hfull =>
        cases h
        exact ⟨rfl, _, lt_of_le_of_ne (progress_le k) hfull, hheld⟩
    no_panic := fun fuel h => by
      have hk := hback fuel (by rw [h]; nofun)
      rw [hrun fuel hk] at h
      split at h <;> cases h
    inside := fun fuel => by
      by_cases hk : k < fuel
      · rw [hrun fuel hk]
        exact hinside
      · obtain ⟨d', hd', hhalt⟩ := hshort fuel (by omega)
        rw [hhalt]
        exact hd'
    stable := fun fuel fuel' hret hle => by
      have hk := hback fuel (fun h => by rw [h] at hret; exact hret)
      rw [hrun fuel hk, hrun fuel' (by omega)] }

/-- A run that every call leaves going: interruptions go on for ever. -/
theorem oneTransfer_of_never (hgo : ∀ k, GoesTo σ size k)
    (hnever : ∀ fuel, ∃ d, (∀ c ∈ d.calls, c.1 + c.2 ≤ len) ∧ run fuel = (.halt, d)) :
    OneTransfer σ size len run held := by
  have hhalt : ∀ fuel, (run fuel).1 = .halt := by
    intro fuel
    obtain ⟨d, -, hrun⟩ := hnever fuel
    rw [hrun]
  exact {
    terminates := fun hinf => by
      obtain ⟨k, hstop⟩ := @exists_stop σ size hinf
      exact absurd (hgo (k + 1) k (Nat.lt_succ_self k)) hstop
    ok_iff := by
      refine iff_of_false ?_ ?_
      · rintro ⟨fuel, h⟩
        rw [hhalt] at h
        cases h
      · rw [completes_iff]
        rintro ⟨n, -, hn⟩
        have := (hgo (n + 1) n (Nat.lt_succ_self n)).2
        omega
    ok := fun fuel h => nomatch (hhalt fuel).symm.trans h
    err := fun fuel e h => nomatch (hhalt fuel).symm.trans h
    no_panic := fun fuel h => nomatch (hhalt fuel).symm.trans h
    inside := fun fuel => by
      obtain ⟨d, hd, hrun⟩ := hnever fuel
      rw [hrun]
      exact hd
    stable := fun fuel _ hret _ => by
      rw [hhalt] at hret
      exact hret.elim }

/-- **The loop is one positional transfer**, for whatever its calls move. -/
theorem loop_oneTransfer (h : Lawful σ once offset size held) (hin : offset + size ≤ len)
    (hlen : len < 2 ^ 64) (hstart : held 0 start) (htime : start.time = 0)
    (hcalls : start.calls = []) :
    OneTransfer σ size len (fun fuel => transferLoop once offset fuel 0 start) held := by
  have hstands : Stands σ size len held 0 start := ⟨hstart, htime, by rw [hcalls]; exact nofun⟩
  by_cases hstops : ∃ k, ¬ ((σ k).Goes ∧ progress σ size k < size)
  · obtain ⟨k, hgo, hstop⟩ := exists_first_stop hstops
    obtain ⟨d, hinside, hheld, hrun⟩ := loop_stops h hin hlen hstands hgo hstop
    have hshort : ∀ fuel ≤ k, ∃ d, (∀ c ∈ d.calls, c.1 + c.2 ≤ len) ∧
        transferLoop once offset fuel 0 start = (.halt, d) := fun fuel hk =>
      loop_halts h hin hlen hstands fun j hj => hgo j (by omega)
    exact oneTransfer_of_stop hgo hstop hshort hrun hinside hheld
  · have hgo : ∀ k, GoesTo σ size k := fun k j _ => not_not.mp fun hj => hstops ⟨j, hj⟩
    exact oneTransfer_of_never hgo fun fuel => loop_halts h hin hlen hstands (hgo fuel)

end

/-! ## Writing and reading -/

section
variable (file : Store) (offset : Nat) (buf : Bytes)

/-- The first `m` bytes of the buffer are in the file. -/
structure Written (m : Nat) (d : Backend) : Prop where
  le : m ≤ buf.length
  content : d.file = overlay file offset (buf.take m)
  source : d.buffer = buf

/-- The first `m` bytes of the buffer are those of the file. -/
structure Filled (m : Nat) (d : Backend) : Prop where
  le : m ≤ buf.length
  source : d.file = file
  content : d.buffer = slice file offset m ++ buf.drop m

theorem lawful_writeOnce (σ : Nat → Answer) :
    Lawful σ (writeOnce σ) offset buf.length (Written file offset buf) where
  buffer h := congrArg List.length h.source
  call {m d} hm h := by
    have hstill : Written file offset buf (m + min 0 (buf.length - m))
        (d.called (offset + m) m) := by
      rw [Nat.zero_min]
      exact ⟨h.le, h.content, h.source⟩
    have hcalls : (d.called (offset + m) m).calls = d.calls ++ [(offset + m, buf.length - m)] := by
      rw [← h.source]
      rfl
    unfold writeOnce
    cases hans : σ d.time with
    | interrupted => exact ⟨_, rfl, hstill, rfl, hcalls⟩
    | failed => exact ⟨_, rfl, hstill, rfl, hcalls⟩
    | moved n =>
      dsimp only
      rw [h.source]
      refine ⟨_, rfl, ⟨?_, ?_, h.source⟩, rfl, hcalls⟩
      · show m + min n (buf.length - m) ≤ buf.length
        omega
      · show overlay d.file (offset + m) ((buf.drop m).take (min n (buf.length - m))) = _
        have hlen : (buf.take m).length = m := by rw [List.length_take, Nat.min_eq_left h.le]
        rw [h.content, List.take_add, ← overlay_append, hlen]
        rfl

theorem Filled.length {m : Nat} {d : Backend} (h : Filled file offset buf m d) :
    d.buffer.length = buf.length := by
  have := h.le
  rw [h.content, List.length_append, slice_length, List.length_drop]
  omega

theorem lawful_readOnce (σ : Nat → Answer) :
    Lawful σ (readOnce σ) offset buf.length (Filled file offset buf) where
  buffer h := h.length
  call {m d} hm h := by
    have hbuf := h.length
    have hstill : Filled file offset buf (m + min 0 (buf.length - m))
        (d.called (offset + m) m) := by
      rw [Nat.zero_min]
      exact ⟨h.le, h.source, h.content⟩
    have hcalls : (d.called (offset + m) m).calls = d.calls ++ [(offset + m, buf.length - m)] := by
      rw [← hbuf]
      rfl
    unfold readOnce
    cases hans : σ d.time with
    | interrupted => exact ⟨_, rfl, hstill, rfl, hcalls⟩
    | failed => exact ⟨_, rfl, hstill, rfl, hcalls⟩
    | moved n =>
      dsimp only
      rw [hbuf]
      refine ⟨_, rfl, ⟨?_, h.source, ?_⟩, rfl, hcalls⟩
      · show m + min n (buf.length - m) ≤ buf.length
        omega
      · show d.buffer.take m ++ slice d.file (offset + m) (min n (buf.length - m)) ++
          d.buffer.drop (m + min n (buf.length - m)) = _
        have hlen : (slice file offset m).length = m := slice_length _ _ _
        have hhead : d.buffer.take m = slice file offset m := by
          rw [h.content, List.take_left' hlen]
        have htail : ∀ j, d.buffer.drop (m + j) = buf.drop (m + j) := fun j => by
          rw [h.content, ← List.drop_drop, List.drop_left' hlen, List.drop_drop]
        rw [hhead, htail, h.source, ← slice_add]
        rfl

end

/-! ## The loops over a plan -/

section
variable {answers : List Answer} {k : Nat}

/-- The answer as an entry of a plan. -/
def action : Answer → Action
  | .moved n => .limit n
  | .interrupted => .fail .interrupted []
  | .failed => .fail .other []

/-- Calls beyond the plan are completed in full. -/
def schedule (answers : List Answer) (size k : Nat) : Answer := answers.getD k (.moved size)

theorem plan_head {d : Disk} (hplan : d.plan = (answers.drop k).map action) (full : Action) :
    d.next full = (answers[k]?.map action).getD full ∧
    d.plan.tail = (answers.drop (k + 1)).map action := by
  constructor
  · rw [Disk.next, hplan, List.headD_eq_head?_getD, List.head?_map, List.head?_drop]
  · rw [hplan, ← List.map_tail, List.tail_drop]

theorem disk_writeOnce {d : Disk} (hplan : d.plan = (answers.drop k).map action) (offset : Nat)
    (rest : Bytes) {size : Nat} (hsize : rest.length ≤ size) : ∃ d',
    Winluks.writeOnce offset rest d = (result rest.length (schedule answers size k), d') ∧
      d'.plan = (answers.drop (k + 1)).map action ∧
      d'.file.data = overlay d.file.data offset
        (rest.take (min (schedule answers size k).amount rest.length)) := by
  obtain ⟨hnext, htail⟩ := plan_head hplan (.limit rest.length)
  have htake : ∀ n, rest.take (min n rest.length) = rest.take n := fun n => by
    rw [← List.take_take, List.take_length]
  rw [htake]
  unfold Winluks.writeOnce schedule
  rw [hnext, List.getD_eq_getElem?_getD]
  cases answers[k]? with
  | none =>
    refine ⟨_, Prod.ext ?_ rfl, htail, ?_⟩
    · simp [result, Nat.min_eq_right hsize]
    · show overlay _ _ (rest.take rest.length) = overlay _ _ (rest.take size)
      rw [List.take_length, List.take_of_length_le hsize]
  | some a => cases a with
    | moved n => exact ⟨_, rfl, htail, rfl⟩
    | interrupted => exact ⟨_, rfl, htail, congrArg (overlay d.file.data offset) List.take_nil⟩
    | failed => exact ⟨_, rfl, htail, congrArg (overlay d.file.data offset) List.take_nil⟩

/-- The bytes of a read that returned their number. -/
def found (file : Store) (offset : Nat) (r : Outcome ErrorKind Nat) : Outcome ErrorKind Bytes := do
  let n ← r
  .ok (slice file offset n)

theorem of_found_ok {file : Store} {offset : Nat} {r : Outcome ErrorKind Nat} {bs : Bytes}
    (h : found file offset r = .ok bs) : r = .ok bs.length ∧ bs = slice file offset bs.length := by
  obtain ⟨n, rfl, hn⟩ := Outcome.bind_eq_ok.mp h
  cases hn
  rw [slice_length]
  exact ⟨rfl, rfl⟩

theorem of_found_err {file : Store} {offset : Nat} {r : Outcome ErrorKind Nat} {e : ErrorKind}
    (h : found file offset r = .err e) : r = .err e :=
  (Outcome.bind_eq_err.mp h).resolve_right fun ⟨_, _, hn⟩ => nomatch hn

theorem disk_readOnce {d : Disk} (hplan : d.plan = (answers.drop k).map action) {offset rest : Nat}
    (hin : offset + rest ≤ d.file.size) {size : Nat} (hsize : rest ≤ size) : ∃ d',
    Winluks.readOnce offset rest d =
    (found d.file.data offset (result rest (schedule answers size k)), d') ∧
      d'.plan = (answers.drop (k + 1)).map action ∧ d'.file = d.file := by
  obtain ⟨hnext, htail⟩ := plan_head hplan (.limit rest)
  have hclamp : ∀ n, min (min n rest) (d.file.size - offset) = min n rest := fun n => by omega
  have hrest : min rest (d.file.size - offset) = rest := by omega
  unfold Winluks.readOnce schedule
  rw [hnext, List.getD_eq_getElem?_getD]
  cases answers[k]? with
  | none =>
    refine ⟨_, Prod.ext ?_ rfl, htail, rfl⟩
    simp [found, result, hrest, Nat.min_eq_right hsize]
  | some a => cases a with
    | moved n =>
      refine ⟨_, Prod.ext ?_ rfl, htail, rfl⟩
      simp [action, found, result, hclamp]
    | interrupted => exact ⟨_, rfl, htail, rfl⟩
    | failed => exact ⟨_, rfl, htail, rfl⟩

theorem result_returns {rest : Nat} {a : Answer} {r : Outcome ErrorKind Nat}
    (h : result rest a = r) : r.Returns := by
  cases a <;> (rw [← h]; trivial)

theorem of_result_interrupted {rest : Nat} {a : Answer} (h : result rest a = .err .interrupted) :
    a.Goes ∧ a.amount = 0 := by
  cases a with
  | moved n => cases h
  | interrupted => exact ⟨trivial, rfl⟩
  | failed => cases h

theorem of_result_ok {rest n : Nat} {a : Answer} (h : result rest a = .ok (n + 1)) :
    a.Goes ∧ min a.amount rest = n + 1 := by
  cases a with
  | moved m =>
    injection h with h
    exact ⟨fun hm => by omega, h⟩
  | interrupted => cases h
  | failed => cases h

theorem of_result_ends {rest : Nat} {a : Answer} {r : Outcome ErrorKind Nat} (h : result rest a = r)
    (hrest : 0 < rest) (hint : r ≠ .err .interrupted) (hok : ∀ n, r ≠ .ok (n + 1)) : ¬ a.Goes := by
  intro hgoes
  cases a with
  | moved n =>
    obtain ⟨m, hm⟩ := Nat.exists_eq_succ_of_ne_zero
      (show min n rest ≠ 0 from fun h0 => hgoes (by omega))
    exact hok m (by rw [← h, result, hm])
  | interrupted => exact hint h.symm
  | failed => exact hgoes

theorem found_returns {file : Store} {offset rest : Nat} {a : Answer} {r : Outcome ErrorKind Bytes}
    (h : found file offset (result rest a) = r) : r.Returns := by
  rw [← h]
  exact Outcome.returns_bind.mpr ⟨result_returns rfl, fun _ _ => trivial⟩

theorem of_found_ends {file : Store} {offset rest : Nat} {a : Answer} {r : Outcome ErrorKind Bytes}
    (h : found file offset (result rest a) = r) (hrest : 0 < rest) (hint : r ≠ .err .interrupted)
    (hok : ∀ b bs, r ≠ .ok (b :: bs)) : ¬ a.Goes := by
  refine of_result_ends rfl hrest (fun hr => ?_) fun n hr => ?_
  · exact hint (by rw [← h, hr]; rfl)
  · exact hok (file offset) (slice file (offset + 1) n) (by rw [← h, hr, ← slice_succ]; rfl)

section
variable {file : Store} {offset len : Nat} {buf : Bytes} {d d' : Disk} {t : Backend}
    {σ : Nat → Answer}
  (hσ : σ = schedule answers buf.length)
include hσ

/-- A round over the plan and the round over its schedule: the same answer, and the same file. -/
theorem writeRound_schedule (hin : offset + buf.length ≤ len) (hlen : len < 2 ^ 64)
    (ht : Stands σ buf.length len (Written file offset buf) k t)
    (hplan : d.plan = (answers.drop k).map action)
    (hfile : d.file.data = t.file) (hlt : progress σ buf.length k < buf.length)
    {r : Outcome ErrorKind Nat}
    (hcall : Winluks.writeOnce (offset + progress σ buf.length k)
      (buf.drop (progress σ buf.length k)) d = (r, d')) :
    ∃ t', Stands σ buf.length len (Written file offset buf) (k + 1) t' ∧
      result (buf.length - progress σ buf.length k) (σ k) = r ∧
      d'.file.data = t'.file ∧ d'.plan = (answers.drop (k + 1)).map action ∧ ∀ fuel,
      transferLoop (writeOnce σ) offset (fuel + 1) (progress σ buf.length k) t =
        if (σ k).Goes then transferLoop (writeOnce σ) offset fuel (progress σ buf.length (k + 1)) t'
        else (.err .backendIo, t') := by
  obtain ⟨t', ht', hround⟩ := loop_round (lawful_writeOnce file offset buf _) hin hlen ht hlt
  obtain ⟨d'', hdisk, hplan', hdata⟩ :=
    @disk_writeOnce answers k d hplan (offset + progress σ buf.length k)
    (buf.drop (progress σ buf.length k)) buf.length (by rw [List.length_drop]; omega)
  rw [hcall, ← hσ, List.length_drop] at hdisk
  cases hdisk
  refine ⟨t', ht', rfl, ?_, hplan', hround⟩
  have hprefix : (buf.take (progress σ buf.length k)).length = progress σ buf.length k := by
    rw [List.length_take, Nat.min_eq_left ht.held.le]
  rw [hdata, hfile, ht.held.content, ht'.held.content, List.length_drop, progress, List.take_add,
    ← overlay_append, hprefix, hσ]

/-- The same for a read, of a file that is as long as the image says. -/
theorem readRound_schedule (hin : offset + buf.length ≤ len) (hlen : len < 2 ^ 64)
    (ht : Stands σ buf.length len (Filled file offset buf) k t)
    (hplan : d.plan = (answers.drop k).map action)
    (hdata : d.file.data = file) (hsize : d.file.size = len)
    (hlt : progress σ buf.length k < buf.length)
    {r : Outcome ErrorKind Bytes}
    (hcall : Winluks.readOnce (offset + progress σ buf.length k)
      (buf.length - progress σ buf.length k) d = (r, d')) :
    ∃ t', Stands σ buf.length len (Filled file offset buf) (k + 1) t' ∧
      found file (offset + progress σ buf.length k)
        (result (buf.length - progress σ buf.length k) (σ k)) = r ∧
      d'.file = d.file ∧ d'.plan = (answers.drop (k + 1)).map action ∧ ∀ fuel,
      transferLoop (readOnce σ) offset (fuel + 1) (progress σ buf.length k) t =
        if (σ k).Goes then transferLoop (readOnce σ) offset fuel (progress σ buf.length (k + 1)) t'
        else (.err .backendIo, t') := by
  obtain ⟨t', ht', hround⟩ := loop_round (lawful_readOnce file offset buf _) hin hlen ht hlt
  obtain ⟨d'', hdisk, hplan', hfile'⟩ :=
    @disk_readOnce answers k d hplan (offset + progress σ buf.length k)
    (buf.length - progress σ buf.length k) (by omega) buf.length (Nat.sub_le _ _)
  rw [hcall, ← hσ, hdata] at hdisk
  cases hdisk
  exact ⟨t', ht', rfl, hfile', hplan', hround⟩

/-- **The loop of `write_all_at` over a plan** is the loop over its schedule. -/
theorem writeLoop_schedule (hin : offset + buf.length ≤ len) (hlen : len < 2 ^ 64) {done : Nat}
    (ht : Stands σ buf.length len (Written file offset buf) k t)
    (hdone : progress σ buf.length k = done)
    (hplan : d.plan = (answers.drop k).map action) (hfile : d.file.data = t.file) :
    ∃ fuel T, transferLoop (writeOnce σ) offset fuel done t = ((writeLoop offset buf done d).1, T) ∧
      T.file = (writeLoop offset buf done d).2.file.data ∧
      (writeLoop offset buf done d).1.Returns := by
  induction done, d using writeLoop.induct offset buf generalizing k t with
  | case1 done d hlt d' hwo ih =>
    subst hdone
    obtain ⟨t', ht', hr, hfile', hplan', hround⟩ :=
      writeRound_schedule hσ hin hlen ht hplan hfile hlt hwo
    obtain ⟨hgoes, hzero⟩ := of_result_interrupted hr
    have hstill : progress σ buf.length (k + 1) = progress σ buf.length k := by
      rw [progress, hzero, Nat.zero_min, Nat.add_zero]
    obtain ⟨fuel, T, hrun, hT⟩ := ih ht' hstill hplan' hfile'
    have hwrite : writeLoop offset buf (progress σ buf.length k) d =
        writeLoop offset buf (progress σ buf.length k) d' := by
      rw [writeLoop_eq _ _ _ d, if_pos hlt, hwo]
    rw [hwrite]
    refine ⟨fuel + 1, T, ?_, hT⟩
    rw [hround, if_pos hgoes, hstill, hrun]
  | case4 done d hlt n d' hwo ih =>
    subst hdone
    obtain ⟨t', ht', hr, hfile', hplan', hround⟩ :=
      writeRound_schedule hσ hin hlen ht hplan hfile hlt hwo
    obtain ⟨hgoes, hmoved⟩ := of_result_ok hr
    have hnext : progress σ buf.length (k + 1) = progress σ buf.length k + (n + 1) := by
      rw [progress, hmoved]
    obtain ⟨fuel, T, hrun, hT⟩ := ih ht' hnext hplan' hfile'
    have hwrite : writeLoop offset buf (progress σ buf.length k) d =
        writeLoop offset buf (progress σ buf.length k + (n + 1)) d' := by
      rw [writeLoop_eq _ _ _ d, if_pos hlt, hwo]
    rw [hwrite]
    refine ⟨fuel + 1, T, ?_, hT⟩
    rw [hround, if_pos hgoes, hnext, hrun]
  | case7 done d hge =>
    subst hdone
    have hfull : progress σ buf.length k = buf.length := by have := ht.held.le; omega
    rw [writeLoop_eq, if_neg hge]
    exact ⟨1, t, loop_done (lawful_writeOnce file offset buf _) ht hfull 0, hfile.symm, trivial⟩
  | case5 done d hlt d' hwo | case6 done d hlt d' hwo =>
    subst hdone
    obtain ⟨-, -, hr, -⟩ := writeRound_schedule hσ hin hlen ht hplan hfile hlt hwo
    exact (result_returns hr).elim
  | _ done d hlt d' hwo =>
    subst hdone
    obtain ⟨t', ht', hr, hfile', hplan', hround⟩ :=
      writeRound_schedule hσ hin hlen ht hplan hfile hlt hwo
    have hends := of_result_ends hr (by omega) (by simp) (by simp)
    have hwrite : writeLoop offset buf (progress σ buf.length k) d = (.err .backendIo, d') := by
      rw [writeLoop_eq _ _ _ d, if_pos hlt, hwo]
    rw [hwrite]
    refine ⟨1, t', ?_, hfile'.symm, trivial⟩
    rw [hround, if_neg hends]

/-- **The loop of `read_exact_at` over a plan** is the loop over its schedule. -/
theorem readLoop_schedule (hin : offset + buf.length ≤ len) (hlen : len < 2 ^ 64) {got : Bytes}
    (ht : Stands σ buf.length len (Filled file offset buf) k t)
    (hgot : got = slice file offset (progress σ buf.length k))
    (hplan : d.plan = (answers.drop k).map action)
    (hdata : d.file.data = file) (hsize : d.file.size = len) :
    ∃ fuel T, transferLoop (readOnce σ) offset fuel got.length t =
        ((readLoop offset buf.length got d).1 >>= fun _ => .ok (), T) ∧
      (∀ bs, (readLoop offset buf.length got d).1 = .ok bs → T.buffer = bs) ∧
      (readLoop offset buf.length got d).1.Returns := by
  have hdone : progress σ buf.length k = got.length := by rw [hgot, slice_length]
  induction got, d using readLoop.induct offset buf.length generalizing k t with
  | case1 got d hlt d' hro ih =>
    rw [← hdone] at hlt hro
    obtain ⟨t', ht', hr, hfile', hplan', hround⟩ :=
      readRound_schedule hσ hin hlen ht hplan hdata hsize hlt hro
    obtain ⟨hgoes, hzero⟩ := of_result_interrupted (of_found_err hr)
    have hstill : progress σ buf.length (k + 1) = progress σ buf.length k := by
      rw [progress, hzero, Nat.zero_min, Nat.add_zero]
    obtain ⟨fuel, T, hrun, hT⟩ := ih ht' (by rw [hstill, hgot]) hplan' (by rw [hfile', hdata])
      (by rw [hfile', hsize]) (hstill.trans hdone)
    have hread : readLoop offset buf.length got d = readLoop offset buf.length got d' := by
      rw [readLoop_eq _ _ _ d, if_pos (hdone ▸ hlt), ← hdone, hro]
    refine ⟨fuel + 1, T, ?_, ?_⟩
    · rw [← hdone, hround, if_pos hgoes, hstill, hdone, hrun, hread]
    · rw [hread]
      exact hT
  | case4 got d hlt b bs d' hro ih =>
    rw [← hdone] at hlt hro
    obtain ⟨t', ht', hr, hfile', hplan', hround⟩ :=
      readRound_schedule hσ hin hlen ht hplan hdata hsize hlt hro
    obtain ⟨hok, hbs⟩ := of_found_ok hr
    obtain ⟨hgoes, hmoved⟩ := of_result_ok hok
    have hnext : progress σ buf.length (k + 1) = progress σ buf.length k + (bs.length + 1) := by
      rw [progress, hmoved]
    have hmore : got ++ b :: bs = slice file offset (progress σ buf.length (k + 1)) := by
      rw [hnext, slice_add, ← hgot, hbs, List.length_cons]
    obtain ⟨fuel, T, hrun, hT⟩ := ih ht' hmore hplan' (by rw [hfile', hdata])
      (by rw [hfile', hsize]) (by rw [hmore, slice_length])
    have hread : readLoop offset buf.length got d =
        readLoop offset buf.length (got ++ b :: bs) d' := by
      rw [readLoop_eq _ _ _ d, if_pos (hdone ▸ hlt), ← hdone, hro]
    refine ⟨fuel + 1, T, ?_, ?_⟩
    · rw [← hdone, hround, if_pos hgoes, hread, ← hrun, hmore, slice_length]
    · rw [hread]
      exact hT
  | case7 got d hge =>
    have hfull : progress σ buf.length k = buf.length := by have := ht.held.le; omega
    rw [readLoop_eq, if_neg hge]
    refine ⟨1, t, ?_, ?_, trivial⟩
    · rw [← hdone, loop_done (lawful_readOnce file offset buf _) ht hfull]
      rfl
    · rintro bs ⟨⟩
      rw [ht.held.content, hfull, List.drop_length, List.append_nil, hgot, hfull]
  | case5 got d hlt d' hro | case6 got d hlt d' hro =>
    rw [← hdone] at hlt hro
    obtain ⟨-, -, hr, -⟩ := readRound_schedule hσ hin hlen ht hplan hdata hsize hlt hro
    exact (found_returns hr).elim
  | _ got d hlt d' hro =>
    have hread : readLoop offset buf.length got d = (.err .backendIo, d') := by
      rw [readLoop_eq _ _ _ d, if_pos hlt, hro]
    rw [← hdone] at hlt hro
    obtain ⟨t', ht', hr, hfile', hplan', hround⟩ :=
      readRound_schedule hσ hin hlen ht hplan hdata hsize hlt hro
    have hends := of_found_ends hr (by omega) (by simp) (by simp)
    rw [hread]
    refine ⟨1, t', ?_, by rintro bs ⟨⟩, trivial⟩
    rw [← hdone, hround, if_neg hends]
    rfl

end

end

/-- Over an image whose file has kept its length, with `buf` for the buffer. -/
def begin (img : Image) (file : Store) (buf : Bytes) : Backend := ⟨file, img.len, buf, 0, []⟩

theorem checkRange_in {img : Image} {offset : Nat} {file : Store} {buf : Bytes}
    (hin : offset + buf.length ≤ img.len) :
    checkRange img offset (begin img file buf) = (.ok (), begin img file buf) := by
  have hrange : ¬ (img.len < offset ∨ img.len - offset < buf.length) := by omega
  have hsize : ¬ img.len ≠ img.len := not_not.mpr rfl
  unfold checkRange
  rw [Run.gets_bind]
  show ((Run.lift (.failIf (img.len < offset ∨ img.len - offset < buf.length) Error.invalidRange) :
      Run Backend Error Unit)
    >>= _) _ = _
  rw [Outcome.failIf_neg hrange, Run.lift_bind]
  show Run.lift (.failIf (img.len ≠ img.len) Error.backendIo) (begin img file buf) = _
  rw [Outcome.failIf_neg hsize]
  rfl

/-! ### One transfer each -/

section
variable {img : Image} {offset : Nat} {buf : Bytes}

theorem writeAllAt_run (file : Store) (σ : Nat → Answer) (hmode : img.mode = .readWrite)
    (hin : offset + buf.length ≤ img.len) (fuel : Nat) :
    writeAllAt σ img fuel offset (begin img file buf) =
      transferLoop (writeOnce σ) offset fuel 0 (begin img file buf) := by
  unfold writeAllAt
  rw [Outcome.failIf_neg (not_not.mpr hmode), Run.lift_bind, Run.bind_run_of (checkRange_in hin)]

theorem readExactAt_run (file : Store) (σ : Nat → Answer) (hin : offset + buf.length ≤ img.len)
    (fuel : Nat) :
    readExactAt σ img fuel offset (begin img file buf) =
      transferLoop (readOnce σ) offset fuel 0 (begin img file buf) := by
  unfold readExactAt
  rw [Run.bind_run_of (checkRange_in hin)]

/-- Before the first call, nothing is written and nothing filled. -/
theorem stands_written (file : Store) (σ : Nat → Answer) :
    Stands σ buf.length img.len (Written file offset buf) 0 (begin img file buf) :=
  ⟨⟨Nat.zero_le _, by rw [progress, List.take_zero, overlay_nil]; rfl, rfl⟩, rfl, nofun⟩

theorem stands_filled (file : Store) (σ : Nat → Answer) :
    Stands σ buf.length img.len (Filled file offset buf) 0 (begin img file buf) :=
  ⟨⟨Nat.zero_le _, rfl, rfl⟩, rfl, nofun⟩

theorem writeAllAt_oneTransfer (file : Store) (σ : Nat → Answer) (hmode : img.mode = .readWrite)
    (hin : offset + buf.length ≤ img.len) :
    OneTransfer σ buf.length img.len (fun fuel => writeAllAt σ img fuel offset (begin img file buf))
      (Written file offset buf) := by
  simp only [writeAllAt_run file σ hmode hin]
  exact loop_oneTransfer (lawful_writeOnce file offset buf σ) hin img.len_lt
    (stands_written file σ).held rfl rfl

theorem readExactAt_oneTransfer (file : Store) (σ : Nat → Answer)
    (hin : offset + buf.length ≤ img.len) :
    OneTransfer σ buf.length img.len (fun fuel =>
      readExactAt σ img fuel offset (begin img file buf)) (Filled file offset buf) := by
  simp only [readExactAt_run file σ hin]
  exact loop_oneTransfer (lawful_readOnce file offset buf σ) hin img.len_lt
    (stands_filled file σ).held rfl rfl

end

/-- **The transfer loops realise one positional transfer.**  Under every schedule,
with the file length unchanged: they come back unless interruptions go on for
ever, they succeed exactly when the schedule moves everything before a call that
moves nothing or fails, and what is moved is the buffer or a prefix of it, at
its place.  No call leaves the range, and no sum its word. -/
theorem transfers (img : Image) (offset : Nat) (buf : Bytes) (file : Store) (σ : Nat → Answer)
    (hin : offset + buf.length ≤ img.len) :
    (img.mode = .readWrite →
      OneTransfer σ buf.length img.len (fun fuel =>
        writeAllAt σ img fuel offset (begin img file buf)) (Written file offset buf)) ∧
    OneTransfer σ buf.length img.len (fun fuel =>
      readExactAt σ img fuel offset (begin img file buf)) (Filled file offset buf) :=
  ⟨fun hmode => writeAllAt_oneTransfer file σ hmode hin, readExactAt_oneTransfer file σ hin⟩

/-- Two bytes at 1, after an interruption, one at a time. -/
theorem transfers_sample :
    let σ : Nat → Answer := fun k => if k = 0 then .interrupted else .moved 1
    let img : Image := ⟨4, .readWrite, by decide⟩
    let file : Store := fun p => p.toUInt8
    Written file 1 [7, 8] 2 (writeAllAt σ img 4 1 (begin img file [7, 8])).2 ∧
      Filled file 1 [7, 8] 2 (readExactAt σ img 4 1 (begin img file [7, 8])).2 := by
  intro σ img file
  obtain ⟨hwrite, hread⟩ := transfers img 1 [7, 8] file σ (by decide)
  exact ⟨(hwrite rfl).ok 4 rfl, hread.ok 4 rfl⟩

/-! ### The operations of an image -/

/-- Whatever the fuel, a run that comes back comes back with the same. -/
theorem OneTransfer.eq_of_returns {σ : Nat → Answer} {size len : Nat}
    {run : Nat → Outcome Error Unit × Backend} {held : Nat → Backend → Prop}
    (h : OneTransfer σ size len run held) {fuel fuel' : Nat}
    (hret : (run fuel).1.Returns) (hret' : (run fuel').1.Returns) : run fuel = run fuel' :=
  (h.stable fuel (max fuel fuel') hret (Nat.le_max_left _ _)).symm.trans
    (h.stable fuel' (max fuel fuel') hret' (Nat.le_max_right _ _))

/-- A run that came back succeeds exactly when the schedule completes the transfer. -/
theorem OneTransfer.ok_iff_of_returns {σ : Nat → Answer} {size len : Nat}
    {run : Nat → Outcome Error Unit × Backend} {held : Nat → Backend → Prop}
    (h : OneTransfer σ size len run held) {fuel : Nat} (hret : (run fuel).1.Returns) :
    (run fuel).1 = .ok () ↔ Completes σ size := by
  rw [← h.ok_iff]
  refine ⟨fun hok => ⟨fuel, hok⟩, ?_⟩
  rintro ⟨fuel', hok⟩
  rwa [h.eq_of_returns hret (by rw [hok]; trivial)]

section
variable {img : Image} {offset : Nat} {answers : List Answer} {d d' : Disk}

/-- **A write over a plan** comes back.  It succeeds exactly when the calls move everything before
one that moves nothing or fails, and what it leaves in the file is a prefix of the buffer, all of it
on success. -/
theorem writeAllAt_transfers {buf : Bytes} (hmode : img.mode = .readWrite)
    (hin : offset + buf.length ≤ img.len) (hlen : img.checkLen d = (.ok (), d'))
    (hplan : d'.plan = answers.map action) :
    (img.writeAllAt offset buf d).1.Returns ∧
    ((img.writeAllAt offset buf d).1 = .ok () ↔
      Completes (schedule answers buf.length) buf.length) ∧
    ∃ m ≤ buf.length,
      (img.writeAllAt offset buf d).2.file.data = overlay d.file.data offset (buf.take m) ∧
      ((img.writeAllAt offset buf d).1 = .ok () → m = buf.length) := by
  have hfile : d'.file = d.file := by rw [← img.checkLen_file d, hlen]
  have hrun : img.writeAllAt offset buf d = writeLoop offset buf 0 d' := by
    unfold Image.writeAllAt
    rw [Outcome.failIf_neg (not_not.mpr hmode), Run.lift_bind, Outcome.failIf_neg (by omega),
      Run.lift_bind, Run.bind_run_of hlen]
  rw [hrun]
  have hone := writeAllAt_oneTransfer d.file.data (schedule answers buf.length) hmode hin
  obtain ⟨fuel, T, hloop, hT, hret⟩ := writeLoop_schedule rfl hin img.len_lt
    (stands_written d.file.data (schedule answers buf.length))
    (show progress _ _ 0 = 0 from rfl) hplan
    (congrArg File.data hfile)
  rw [← writeAllAt_run d.file.data _ hmode hin] at hloop
  have hout := congrArg Prod.fst hloop
  have hback := congrArg Prod.snd hloop
  rw [← hT]
  rw [← hout] at hret ⊢
  refine ⟨hret, hone.ok_iff_of_returns hret, ?_⟩
  rcases ho : (writeAllAt (schedule answers buf.length) img fuel offset
    (begin img d.file.data buf)).1 with u | e | _ | _
  · have hheld := hone.ok fuel ho
    rw [hback] at hheld
    exact ⟨buf.length, le_rfl, hheld.content, fun _ => rfl⟩
  · obtain ⟨-, m, hm, hheld⟩ := hone.err fuel e ho
    rw [hback] at hheld
    exact ⟨m, hm.le, hheld.content, nofun⟩
  · rw [ho] at hret
    exact hret.elim
  · rw [ho] at hret
    exact hret.elim

/-- **A read over a plan** comes back.  It succeeds exactly when the calls move everything before
one that moves nothing or fails, and then with the bytes of the file. -/
theorem readExactAt_transfers {size : Nat} (hin : offset + size ≤ img.len)
    (hsize : d.file.size = img.len) (hlen : img.checkLen d = (.ok (), d'))
    (hplan : d'.plan = answers.map action) :
    (img.readExactAt offset size d).1.Returns ∧
    ((∃ bs, (img.readExactAt offset size d).1 = .ok bs) ↔ Completes (schedule answers size) size) ∧
    ∀ bs, (img.readExactAt offset size d).1 = .ok bs → bs = slice d.file.data offset size := by
  have hfile : d'.file = d.file := by rw [← img.checkLen_file d, hlen]
  obtain ⟨buf, rfl⟩ : ∃ buf : Bytes, buf.length = size := ⟨zeros size, List.length_replicate⟩
  have hrun : img.readExactAt offset buf.length d = readLoop offset buf.length [] d' := by
    unfold Image.readExactAt
    rw [Outcome.failIf_neg (by omega), Run.lift_bind, Run.bind_run_of hlen]
  rw [hrun]
  have hone := readExactAt_oneTransfer d.file.data (schedule answers buf.length) hin
  obtain ⟨fuel, T, hloop, hT, hret⟩ := readLoop_schedule rfl hin img.len_lt
    (stands_filled d.file.data (schedule answers buf.length))
    (show [] = slice d.file.data offset (progress _ _ 0) from rfl) hplan (congrArg File.data hfile)
    (by rw [hfile, hsize])
  rw [List.length_nil, ← readExactAt_run d.file.data _ hin] at hloop
  have hout := congrArg Prod.fst hloop
  have hback := congrArg Prod.snd hloop
  dsimp only at hout hback
  have hreturns : (readExactAt (schedule answers buf.length) img fuel offset
      (begin img d.file.data buf)).1.Returns := by
    rw [hout]
    exact Outcome.returns_bind.mpr ⟨hret, fun _ _ => trivial⟩
  refine ⟨hret, ?_, fun bs hbs => ?_⟩
  · rw [← hone.ok_iff_of_returns hreturns, hout, Outcome.bind_eq_ok]
    simp
  · rw [hbs] at hout
    have hheld := hone.ok fuel hout
    rw [hback] at hheld
    rw [← hT bs hbs, hheld.content, List.drop_length, List.append_nil]

end

end Backend

end Winluks
