import Winluks.WinspdSpec

/-!
# Serving a volume

`windows.rs`: publish the disk, wait until the system has mounted it, hold it
until Ctrl+C, close it.  The run leaves a report of what it learnt, next to the
calls that it made.  `serve_clean` reads both: a writable session ends with
success only after one attempt to close the volume went through all its steps,
every attempt before it was refused at the lock for a sharing failure, and
nothing failed afterwards.
-/

namespace Winluks

open Lib

namespace Setting

variable (S : Setting)

def readOnly : Bool := S.volume.mode = .readOnly

/-- A part of `serve` that has no error of its own. -/
def native {α : Type} (m : Run World Empty α) : Run World Error α := m.mapErr fun e => e.elim

def checkConsumer : Run World Error Unit := do
  .lift (.failIf (S.volume.filesystem = .ext4) .fsGateUnpassed)
  let now ← .gets World.time
  .lift (.failIf (S.os.consumerReady now = false) .fsDriverUnavailable)

def faulted : Run World Empty Bool := do
  S.tick
  .gets fun w => w.adapter.io.faulted

def beforeDeadline : Run World Empty Bool := do
  S.tick
  .gets fun w => S.os.beforeDeadline w.time

/-- `quit.load` -/
def quitLoad : Run World Empty Bool := do
  S.tick
  .gets World.quit

/-- `quit.swap(false)` -/
def quitSwap : Run World Empty Bool := do
  S.tick
  let quit ← .gets World.quit
  .modify fun w => { w with quit := false }
  pure quit

def sleep : Run World Empty Unit := S.tick

/-- `wl_volume_ready`, reported. -/
def pollReady : Run World Empty Nat := do
  let ready ← S.volumeReady
  World.report (.ready ready)
  pure ready

/-- The loop that waits for the volume. -/
def discover : (fuel : Nat) → (ready : Nat) → Run World Empty Nat
  | 0, _ => .lift .halt
  | fuel + 1, ready =>
    if ready = 0 then pure 0
    else do
      let early ← S.beforeDeadline
      if early = false then pure ready
      else do
        let error ← S.error
        if error ≠ 0 then pure ready
        else do
          let faulted ← S.faulted
          if faulted then pure ready
          else do
            let quit ← S.quitLoad
            if quit then pure ready
            else do
              S.sleep
              let ready ← S.pollReady
              discover fuel ready

/-- `wl_lock_and_dismount`, reported with the calls it made. -/
def attempt : Run World Empty (Nat × Nat) := do
  let before ← .gets fun w => w.calls.length
  let r ← S.lockAndDismount
  let calls ← .gets fun w => w.calls.drop before
  World.report (.attempt ⟨r.1, r.2, calls⟩)
  pure r

/-- Codes of a volume with open files. -/
def sharing : List Nat := [5, 32, 33, 170]

def markFaulted : Run World Empty Unit :=
  World.onAdapter (.modify fun a => { a with io := { a.io with faulted := true } })

/-- The loop that holds the published volume; the result is `clean`. -/
def hold : (fuel : Nat) → Run World Empty Bool
  | 0 => .lift .halt
  | fuel + 1 => do
    let error ← S.error
    if error ≠ 0 then pure S.readOnly
    else do
      let faulted ← S.faulted
      if faulted then pure S.readOnly
      else do
        let quit ← S.quitSwap
        if quit then
          if S.readOnly then pure S.readOnly
          else do
            let r ← S.attempt
            if r.2 = 0 then pure true
            else if r.1 = 1 ∧ r.2 ∈ sharing then do
              S.sleep
              hold fuel
            else do
              S.tick
              markFaulted
              pure S.readOnly
        else do
          S.sleep
          hold fuel

/-- A volume that was not discovered is closed all the same. -/
def giveUp : Run World Empty Bool :=
  if S.readOnly then pure true
  else do
    let r ← S.attempt
    pure (r.2 = 0)

/-- What the other threads do around the statements of `shutdown`. -/
def others : Adapter.ShutdownPoint → Run World Empty Unit
  | .flushed syncFailed => do
    S.tick
    World.report (.flushed syncFailed)
  | .drained _ => S.tick

def shutdown : Run World Empty Bool :=
  Adapter.shutdown S.volume World.adapter (fun w a => { w with adapter := a }) S.others S.close

def verdict (ready : Nat) (clean failed : Bool) : Outcome Error Unit :=
  if S.readOnly = false ∧ (clean = false ∨ failed = true) then .err .uncleanClose
  else if ready ≠ 0 then .err .volumeDiscoveryFailed
  else if failed then .err .devicePublishFailed
  else .ok ()

/-- `serve` from the moment the disk exists, and its dispatcher runs. -/
def session : Run World Error Unit := do
  native S.tick
  let first ← native S.pollReady
  let ready ← native (S.discover S.fuel first)
  let clean ← native (if ready = 0 then S.hold S.fuel else S.giveUp)
  let failed ← native S.shutdown
  .lift (S.verdict ready clean failed)

def serve : Run World Error Unit := do
  S.checkConsumer
  let now ← .gets World.time
  .lift (.failIf (S.os.setHandler now = false) .devicePublishFailed)
  .lift (.failIf (S.os.create now ≠ 0) .devicePublishFailed)
  native (World.report .created)
  S.session

/-! ## The parts of a run -/

variable {S} {w w' : World} {α β : Type}

theorem goesOn_look (f : World → α) : GoesOn (S.tick >>= fun _ => Run.gets f) :=
  goesOn_bind goesOn_tick fun _ => goesOn_gets f

theorem goesOn_pollReady : GoesOn S.pollReady :=
  goesOn_bind goesOn_volumeReady fun _ => goesOn_bind (goesOn_report _) fun _ => goesOn_pure _

theorem goesOn_discover (fuel ready : Nat) : GoesOn (S.discover fuel ready) := by
  induction fuel generalizing ready with
  | zero => exact goesOn_halt
  | succ fuel ih =>
    unfold discover
    split
    · exact goesOn_pure _
    refine goesOn_bind (goesOn_look _) fun early => ?_
    split
    · exact goesOn_pure _
    refine goesOn_bind goesOn_error fun error => ?_
    split
    · exact goesOn_pure _
    refine goesOn_bind (goesOn_look _) fun faulted => ?_
    split
    · exact goesOn_pure _
    refine goesOn_bind (goesOn_look _) fun quit => ?_
    split
    · exact goesOn_pure _
    exact goesOn_bind goesOn_tick fun _ => goesOn_bind goesOn_pollReady fun ready => ih ready

theorem goesOn_attempt : GoesOn S.attempt :=
  goesOn_bind (goesOn_gets _) fun _ => goesOn_bind goesOn_lockAndDismount fun _ =>
    goesOn_bind (goesOn_gets _) fun _ => goesOn_bind (goesOn_report _) fun _ => goesOn_pure _

theorem goesOn_quitSwap : GoesOn S.quitSwap :=
  goesOn_bind goesOn_tick fun _ => goesOn_bind (goesOn_gets _) fun _ =>
    goesOn_bind (goesOn_modify fun _ => onward_of_eq rfl rfl) fun _ => goesOn_pure _

theorem goesOn_hold (fuel : Nat) : GoesOn (S.hold fuel) := by
  induction fuel with
  | zero => exact goesOn_halt
  | succ fuel ih =>
    have again : GoesOn (S.sleep >>= fun _ => S.hold fuel) := goesOn_bind goesOn_tick fun _ => ih
    refine goesOn_bind goesOn_error fun error => ?_
    split
    · exact goesOn_pure _
    refine goesOn_bind (goesOn_look _) fun faulted => ?_
    split
    · exact goesOn_pure _
    refine goesOn_bind goesOn_quitSwap fun quit => ?_
    split
    · split
      · exact goesOn_pure _
      refine goesOn_bind goesOn_attempt fun r => ?_
      split
      · exact goesOn_pure _
      split
      · exact again
      · exact goesOn_bind goesOn_tick fun _ =>
          goesOn_bind (goesOn_onAdapter nofun) fun _ => goesOn_pure _
    · exact again

theorem goesOn_giveUp : GoesOn S.giveUp := by
  unfold giveUp
  split
  · exact goesOn_pure _
  · exact goesOn_bind goesOn_attempt fun _ => goesOn_pure _

/-- Holding the volume, or giving it up. -/
theorem goesOn_rest (ready : Nat) : GoesOn (if ready = 0 then S.hold S.fuel else S.giveUp) := by
  split
  · exact goesOn_hold _
  · exact goesOn_giveUp

/-- A part without errors of its own does not end a run that returns. -/
theorem native_bind_returns {m : Run World Empty α} {f : α → Run World Error β}
    (h : ((native m >>= f) w).1.Returns) :
    ∃ a w', m w = (.ok a, w') ∧ (native m >>= f) w = f a w' := by
  rw [Run.bind_run] at h ⊢
  unfold native Run.mapErr at h ⊢
  rcases hm : m w with ⟨a | e | _ | _, w₁⟩
  · exact ⟨a, w₁, rfl, rfl⟩
  · exact e.elim
  · rw [hm] at h
    exact h.elim
  · rw [hm] at h
    exact h.elim

/-- Nothing was reported, and nothing was locked. -/
def Silent (w w' : World) : Prop := w'.log = w.log ∧ w'.lockedVolume = w.lockedVolume

/-- The volume was seen in the mode of the session. -/
def Seen (S : Setting) (w : World) : Prop := ∃ calls, S.Readies calls ∧ calls <:+: w.calls

theorem silent_refl (w : World) : Silent w w := ⟨rfl, rfl⟩

theorem silent_trans {w₁ : World} (h : Silent w w₁) (h' : Silent w₁ w') : Silent w w' :=
  ⟨h'.1.trans h.1, h'.2.trans h.2⟩

theorem Quiet.silent {new : List SysCall} (h : Quiet w w' new) : Silent w w' := ⟨h.log, h.locked⟩

theorem tick_silent {u : Unit} (h : S.tick w = (.ok u, w')) : Silent w w' :=
  Quiet.silent (tick_quiet h)

theorem ask_silent {answer : Nat → α} {entry : α → SysCall} {a : α}
    (h : S.ask answer entry w = (.ok a, w')) :
    Silent w w' := Quiet.silent (ask_quiet h)

/-- A look at the state of the world after a tick. -/
theorem look_silent {f : World → α} {a : α} (h : (S.tick >>= fun _ => Run.gets f) w = (.ok a, w')) :
    Silent w w' := by
  obtain ⟨_, w₁, ht, hg⟩ := Run.bind_run_eq_ok.mp h
  cases hg
  exact tick_silent ht

theorem quitSwap_silent {b : Bool} (h : S.quitSwap w = (.ok b, w')) : Silent w w' := by
  unfold quitSwap at h
  obtain ⟨_, w₁, ht, h⟩ := Run.bind_run_eq_ok.mp h
  have hs := tick_silent ht
  cases h
  exact ⟨hs.1, hs.2⟩

theorem pollReady_spec {r : Nat} (h : S.pollReady w = (.ok r, w')) :
    w'.log = w.log ++ [.ready r] ∧ w'.lockedVolume = w.lockedVolume ∧ (r = 0 → S.Seen w') := by
  unfold pollReady at h
  obtain ⟨r₁, w₁, hr, h⟩ := Run.bind_run_eq_ok.mp h
  obtain ⟨new, hq, hready⟩ := volumeReady_spec hr
  cases h
  refine ⟨?_, hq.locked, fun h0 => ⟨new, hready h0, w.calls, [], ?_⟩⟩
  · show w₁.log ++ _ = _
    rw [hq.log]
  · show _ = w₁.calls
    rw [hq.calls, List.append_nil]

/-- Discovery reports a list of codes; the last one is its result. -/
theorem discover_spec {fuel ready r : Nat} (hseen : ready = 0 → S.Seen w)
    (h : S.discover fuel ready w = (.ok r, w')) :
    ∃ polls : List Nat, w'.log = w.log ++ polls.map .ready ∧ w'.lockedVolume = w.lockedVolume ∧
      (ready :: polls).getLast? = some r ∧ (r = 0 → S.Seen w') := by
  induction fuel generalizing w ready with
  | zero => cases h
  | succ fuel ih =>
    -- an exit keeps the code that was polled last
    have exit : ∀ {w₁ : World}, Silent w w₁ → (ready = 0 → S.Seen w₁) →
        ((.ok ready, w₁) : Outcome Empty Nat × World) = (.ok r, w') →
        ∃ polls : List Nat, w'.log = w.log ++ polls.map .ready ∧
          w'.lockedVolume = w.lockedVolume ∧ (ready :: polls).getLast? = some r ∧
          (r = 0 → S.Seen w') := by
      rintro w₁ ⟨h1, h2⟩ hseen hret
      cases hret
      exact ⟨[], by rw [h1, List.map_nil, List.append_nil], h2, rfl, hseen⟩
    unfold discover at h
    by_cases hzero : ready = 0
    · rw [if_pos hzero, ← hzero] at h
      exact exit (silent_refl w) hseen h
    rw [if_neg hzero] at h
    have hnot : ∀ {w₁ : World}, ready = 0 → S.Seen w₁ := fun h0 => absurd h0 hzero
    obtain ⟨early, w₁, he, h⟩ := Run.bind_run_eq_ok.mp h
    have hs := look_silent he
    split at h
    · exact exit hs hnot h
    obtain ⟨error, w₂, herr, h⟩ := Run.bind_run_eq_ok.mp h
    have hs := silent_trans hs (ask_silent herr)
    split at h
    · exact exit hs hnot h
    obtain ⟨bad, w₃, hbad, h⟩ := Run.bind_run_eq_ok.mp h
    have hs := silent_trans hs (look_silent hbad)
    split at h
    · exact exit hs hnot h
    obtain ⟨quit, w₄, hquit, h⟩ := Run.bind_run_eq_ok.mp h
    have hs := silent_trans hs (look_silent hquit)
    split at h
    · exact exit hs hnot h
    obtain ⟨_, w₅, hsleep, h⟩ := Run.bind_run_eq_ok.mp h
    obtain ⟨next, w₆, hpoll, h⟩ := Run.bind_run_eq_ok.mp h
    obtain ⟨h1, h2⟩ := silent_trans hs (tick_silent hsleep)
    obtain ⟨hlog, hlocked, hseen'⟩ := pollReady_spec hpoll
    obtain ⟨polls, hlog', hlocked', hlast, hseen''⟩ := ih hseen' h
    refine ⟨next :: polls, ?_, hlocked'.trans (hlocked.trans h2), ?_, hseen''⟩
    · rw [hlog', hlog, h1, List.map_cons, List.append_assoc, List.singleton_append]
    · rw [List.getLast?_cons_cons]
      exact hlast

theorem attempt_spec {r : Nat × Nat} (hfree : w.lockedVolume = none)
    (h : S.attempt w = (.ok r, w')) :
    ∃ a : Attempt, w'.log = w.log ++ [.attempt a] ∧ w'.calls = w.calls ++ a.calls ∧
      (r.2 ≠ 0 → w'.lockedVolume = none) ∧
      (r.2 = 0 → ∃ v, w'.lockedVolume = some v ∧ S.Commits v a) ∧
      (r.1 = 1 → S.Refused a) ∧ a.phase = r.1 ∧ a.code = r.2 := by
  unfold attempt at h
  rw [Run.gets_bind] at h
  obtain ⟨r₁, w₁, htry, h⟩ := Run.bind_run_eq_ok.mp h
  cases h
  obtain ⟨new, ht, hfree', hcommit, hrefused⟩ := lockAndDismount_spec hfree htry
  have hnew : w₁.calls.drop w.calls.length = new := by rw [ht.calls, List.drop_left]
  refine ⟨⟨r.1, r.2, new⟩, ?_, ht.calls, hfree', hcommit, hrefused, rfl, rfl⟩
  show w₁.log ++ [.attempt ⟨r.1, r.2, w₁.calls.drop w.calls.length⟩] = _
  rw [hnew, ht.log]

/-- An attempt that may be followed by another one. -/
def Retryable (S : Setting) (a : Attempt) : Prop := S.Refused a ∧ a.code ∈ sharing

/-- What the loop that holds the volume adds to the log: attempts with the calls they made, the
last of which locked the volume and committed if the loop ended clean. -/
def Tries (S : Setting) (clean : Bool) (w w' : World) : Prop :=
  ∃ attempts : List Attempt, w'.log = w.log ++ attempts.map .attempt ∧
    (∀ a ∈ attempts, a.calls <:+: w'.calls) ∧
    (clean = true → ∃ earlier last v, attempts = earlier ++ [last] ∧ w'.lockedVolume = some v ∧
      S.Commits v last ∧ ∀ a ∈ earlier, S.Retryable a)

/-- An end that is not clean adds nothing to answer for. -/
theorem tries_unclean {attempts : List Attempt} (hlog : w'.log = w.log ++ attempts.map .attempt)
    (hcalls : ∀ a ∈ attempts, a.calls <:+: w'.calls) : S.Tries false w w' :=
  ⟨attempts, hlog, hcalls, nofun⟩

/-- Another round after the attempts `before`. -/
theorem tries_again {clean : Bool} {w₁ : World} {before : List Attempt}
    (hlog : w₁.log = w.log ++ before.map .attempt)
    (hbefore : ∀ a ∈ before, S.Retryable a ∧ a.calls <:+: w₁.calls) (hcalls : w₁.calls <+: w'.calls)
    (h : S.Tries clean w₁ w') : S.Tries clean w w' := by
  obtain ⟨attempts, hlog', hcalls', hclean⟩ := h
  refine ⟨before ++ attempts, by rw [hlog', hlog, List.map_append, List.append_assoc],
    List.forall_mem_append.mpr ⟨fun a ha => (hbefore a ha).2.trans hcalls.isInfix, hcalls'⟩,
    fun hc => ?_⟩
  obtain ⟨earlier, last, v, rfl, hlocked, hlast, hearlier⟩ := hclean hc
  exact ⟨before ++ earlier, last, v, by rw [List.append_assoc], hlocked, hlast,
    List.forall_mem_append.mpr ⟨fun a ha => (hbefore a ha).1, hearlier⟩⟩

/-- Holding a writable volume reports attempts; it ends clean exactly with one that committed. -/
theorem hold_spec {fuel : Nat} {clean : Bool} (hrw : S.readOnly = false)
    (hfree : w.lockedVolume = none) (h : S.hold fuel w = (.ok clean, w')) : S.Tries clean w w' := by
  induction fuel generalizing w with
  | zero => cases h
  | succ fuel ih =>
    have onward : ∀ {w₁ : World}, S.hold fuel w₁ = (.ok clean, w') → Onward w₁ w' := fun h =>
      (goesOn_hold fuel).run h
    -- an exit without an attempt is not clean
    have exit : ∀ {w₁ : World}, w₁.log = w.log →
        ((.ok S.readOnly, w₁) : Outcome Empty Bool × World) = (.ok clean, w') →
        S.Tries clean w w' := by
      intro w₁ hlog hret
      rw [hrw] at hret
      cases hret
      exact @tries_unclean S w w' [] (by rw [hlog, List.map_nil, List.append_nil]) nofun
    unfold hold at h
    obtain ⟨error, w₁, herr, h⟩ := Run.bind_run_eq_ok.mp h
    have hs := ask_silent herr
    split at h
    · exact exit hs.1 h
    obtain ⟨bad, w₂, hbad, h⟩ := Run.bind_run_eq_ok.mp h
    have hs := silent_trans hs (look_silent hbad)
    split at h
    · exact exit hs.1 h
    obtain ⟨quit, w₃, hquit, h⟩ := Run.bind_run_eq_ok.mp h
    have hs := silent_trans hs (quitSwap_silent hquit)
    split at h
    · rw [hrw] at h
      obtain ⟨r, w₄, htry, h⟩ := Run.bind_run_eq_ok.mp h
      obtain ⟨a, hlog, hcalls, hfree', hcommit, hrefused, hphase, hcode⟩ :=
        attempt_spec (hs.2.trans hfree) htry
      have hfiled : a.calls <:+: w₄.calls := ⟨w₃.calls, [], by rw [hcalls, List.append_nil]⟩
      split at h
      · next hzero =>
        cases h
        obtain ⟨v, hlocked, hcommits⟩ := hcommit hzero
        refine ⟨[a], by rw [hlog, hs.1]; rfl, List.forall_mem_singleton.mpr hfiled, fun _ => ?_⟩
        exact ⟨[], a, v, rfl, hlocked, hcommits, nofun⟩
      · next hne =>
        split at h
        · next hretry =>
          obtain ⟨_, w₅, hsleep, h⟩ := Run.bind_run_eq_ok.mp h
          have hs' := tick_silent hsleep
          have hquiet := (tick_quiet hsleep).calls
          rw [List.append_nil] at hquiet
          have hretryable : ∀ x ∈ [a], S.Retryable x ∧ x.calls <:+: w₅.calls := by
            refine List.forall_mem_singleton.mpr
              ⟨⟨hrefused hretry.1, ?_⟩, by rw [hquiet]; exact hfiled⟩
            rw [hcode]
            exact hretry.2
          exact tries_again (by rw [hs'.1, hlog, hs.1]; rfl) hretryable (onward h).calls_begin
            (ih (hs'.2.trans (hfree' hne)) h)
        · obtain ⟨_, w₅, ht, h⟩ := Run.bind_run_eq_ok.mp h
          obtain ⟨_, w₆, hm, h⟩ := Run.bind_run_eq_ok.mp h
          cases hm
          cases h
          refine @tries_unclean S w _ [a] ?_ (List.forall_mem_singleton.mpr ?_)
          · show w₅.log = _
            rw [(tick_silent ht).1, hlog, hs.1]
            rfl
          · show a.calls <:+: w₅.calls
            rw [(tick_quiet ht).calls, List.append_nil]
            exact hfiled
    · obtain ⟨_, w₄, hsleep, h⟩ := Run.bind_run_eq_ok.mp h
      have hs := silent_trans hs (tick_silent hsleep)
      have hnone : ∀ x ∈ [], S.Retryable x ∧ x.calls <:+: w₄.calls := nofun
      exact tries_again (by rw [hs.1, List.map_nil, List.append_nil]) hnone (onward h).calls_begin
        (ih (hs.2.trans hfree) h)

/-- What the shutdown did, and what it makes of a session that did not fail. -/
theorem shutdown_spec {failed : Bool} (h : S.shutdown w = (.ok failed, w')) :
    ∃ before after, w'.calls = w.calls ++ closeCalls w.lockedVolume before after ∧
      (failed = false → (Adapter.flush S.volume 0 0 w.adapter).1 = .ok () ∧ before = 0 ∧
        (after = 0 ∨ after = Code.operationAborted) ∧ w'.adapter.io.faulted = false) := by
  unfold shutdown Adapter.shutdown at h
  obtain ⟨synced, w₁, h₁, h⟩ := Run.bind_run_eq_ok.mp h
  obtain ⟨_, w₂, h₂, h⟩ := Run.bind_run_eq_ok.mp h
  obtain ⟨_, w₃, h₃, h⟩ := Run.bind_run_eq_ok.mp h
  obtain ⟨error, w₄, h₄, h⟩ := Run.bind_run_eq_ok.mp h
  obtain ⟨_, w₅, h₅, h⟩ := Run.bind_run_eq_ok.mp h
  cases h
  obtain ⟨_, w₂', ht, hr⟩ := Run.bind_run_eq_ok.mp h₂
  cases hr
  cases h₃
  obtain ⟨hsynced, rfl⟩ := Prod.mk.inj h₁
  obtain ⟨before, after, hcalls, -, -, hcode⟩ := close_calls h₄
  have hq := tick_quiet ht
  refine ⟨before, after, ?_, fun hf => ?_⟩
  · rw [(tick_quiet h₅).calls, List.append_nil, hcalls]
    show w₂'.calls ++ closeCalls w₂'.lockedVolume before after = _
    rw [hq.calls, hq.locked, List.append_nil]
  · simp only [Bool.or_eq_false_iff, decide_eq_false_iff_not, Decidable.not_not] at hf
    obtain ⟨⟨hsync, herror⟩, hfaulted⟩ := hf
    obtain ⟨hb, ha⟩ : before = 0 ∧ (after = 0 ∨ after = Code.operationAborted) := by
      rw [hcode] at herror
      split at herror
      · next hb => exact absurd herror hb
      · next hb =>
        refine ⟨not_not.mp hb, ?_⟩
        split at herror
        · next ha => exact Or.inr ha
        · exact Or.inl herror
    refine ⟨?_, hb, ha, hfaulted⟩
    unfold Run.attempt at hsynced
    revert hsynced
    rcases Adapter.flush S.volume 0 0 w.adapter with ⟨_ | _ | _ | _, a⟩ <;> intro hsynced <;>
      cases hsynced
    · rfl
    · cases hsync

/-! ## The whole run -/

/-- All that is checked before there is a disk, at the moment `now`. -/
structure Starts (S : Setting) (now : Nat) : Prop where
  filesystem : S.volume.filesystem ≠ .ext4
  consumer : S.os.consumerReady now = true
  handler : S.os.setHandler now = true
  created : S.os.create now = 0

/-- A run fails before there is a disk, and then it has done nothing, or it is a session. -/
theorem serve_cases (S : Setting) (w : World) :
    (¬ S.Starts w.time ∧ ∃ e, S.serve w = (.err e, w)) ∨
      (S.Starts w.time ∧ S.serve w = S.session { w with log := w.log ++ [.created] }) := by
  have hserve : S.serve w = if S.volume.filesystem = .ext4 then (.err .fsGateUnpassed, w)
      else if S.os.consumerReady w.time = false then (.err .fsDriverUnavailable, w)
      else if S.os.setHandler w.time = false then (.err .devicePublishFailed, w)
      else if S.os.create w.time ≠ 0 then (.err .devicePublishFailed, w)
      else S.session { w with log := w.log ++ [.created] } := by
    unfold serve checkConsumer
    simp only [Run.bind_assoc, Run.gets_bind, Run.failIf_bind]
    rfl
  rw [hserve]
  split
  · next hext4 => exact Or.inl ⟨fun h => h.filesystem hext4, _, rfl⟩
  · next hfs =>
    split
    · next hno => exact Or.inl ⟨fun h => by simp [h.consumer] at hno, _, rfl⟩
    · next hconsumer =>
      split
      · next hno => exact Or.inl ⟨fun h => by simp [h.handler] at hno, _, rfl⟩
      · next hhandler =>
        split
        · next hno => exact Or.inl ⟨fun h => hno h.created, _, rfl⟩
        · next hcreate =>
          rw [Bool.not_eq_false] at hconsumer hhandler
          exact Or.inr ⟨⟨hfs, hconsumer, hhandler, not_not.mp hcreate⟩, rfl⟩

theorem recorded_others (p : Adapter.ShutdownPoint) : Recorded (S.others p) := by
  cases p with
  | flushed => exact (goesOn_bind goesOn_tick fun _ => goesOn_report _).recorded
  | drained => exact goesOn_tick.recorded

theorem recorded_shutdown : Recorded S.shutdown := by
  refine recorded_bind (fun _ => List.prefix_rfl) fun synced => ?_
  refine recorded_bind (recorded_others _) fun _ =>
    recorded_bind (fun _ => List.prefix_rfl) fun _ => ?_
  exact recorded_bind recorded_close fun _ => recorded_bind (recorded_others _) fun _ =>
    recorded_bind (fun _ => List.prefix_rfl) fun _ _ => List.prefix_rfl

theorem recorded_native {m : Run World Empty α} (h : Recorded m) : Recorded (native m) :=
  Run.keeps_mapErr h _

theorem recorded_session : Recorded S.session := by
  refine recorded_bind (recorded_native goesOn_tick.recorded) fun _ => ?_
  refine recorded_bind (recorded_native goesOn_pollReady.recorded) fun first => ?_
  refine recorded_bind (recorded_native (goesOn_discover _ _).recorded) fun ready => ?_
  refine recorded_bind (recorded_native (goesOn_rest _).recorded) fun clean => ?_
  exact recorded_bind (recorded_native recorded_shutdown) fun _ _ => List.prefix_rfl

/-- There is a disk exactly when everything was checked. -/
theorem created_iff (S : Setting) (io : Io) :
    .created ∈ (S.serve (World.start io)).2.log ↔ S.Starts 0 := by
  rcases S.serve_cases (World.start io) with ⟨hno, e, he⟩ | ⟨hstart, heq⟩
  · rw [he]
    exact iff_of_false List.not_mem_nil hno
  · rw [heq]
    exact iff_of_true ((recorded_session _).subset List.mem_cons_self) hstart

/-- A session that returns went through all its parts. -/
theorem session_returns (h : (S.session w).1.Returns) :
    ∃ w₀ w₁ w₂ w₃ w₄ first ready clean failed, S.tick w = (.ok (), w₀) ∧
      S.pollReady w₀ = (.ok first, w₁) ∧ S.discover S.fuel first w₁ = (.ok ready, w₂) ∧
      (if ready = 0 then S.hold S.fuel else S.giveUp) w₂ = (.ok clean, w₃) ∧
      S.shutdown w₃ = (.ok failed, w₄) ∧ S.session w = (S.verdict ready clean failed, w₄) := by
  unfold session at h ⊢
  obtain ⟨_, w₀, htick, heq⟩ := native_bind_returns h
  rw [heq] at h ⊢
  obtain ⟨first, w₁, hpoll, heq⟩ := native_bind_returns h
  rw [heq] at h ⊢
  obtain ⟨ready, w₂, hdiscover, heq⟩ := native_bind_returns h
  rw [heq] at h ⊢
  obtain ⟨clean, w₃, hhold, heq⟩ := native_bind_returns h
  rw [heq] at h ⊢
  obtain ⟨failed, w₄, hshut, heq⟩ := native_bind_returns h
  rw [heq]
  exact ⟨w₀, w₁, w₂, w₃, w₄, first, ready, clean, failed, htick, hpoll, hdiscover,
    hhold, hshut, rfl⟩

/-- Nothing ends a session before its shutdown. -/
theorem onward_parts {w₀ w₁ w₂ w₃ : World} {first ready : Nat} {clean : Bool}
    (htick : S.tick w = (.ok (), w₀)) (hpoll : S.pollReady w₀ = (.ok first, w₁))
    (hdiscover : S.discover S.fuel first w₁ = (.ok ready, w₂))
    (hhold : (if ready = 0 then S.hold S.fuel else S.giveUp) w₂ = (.ok clean, w₃)) : Onward w w₃ :=
  onward_trans (goesOn_tick.run htick) (onward_trans (goesOn_pollReady.run hpoll)
    (onward_trans ((goesOn_discover _ _).run hdiscover) ((goesOn_rest _).run hhold)))

/-- How a writable session went that closed clean: it stopped holding the volume in the world
`held`, with the lock on `v`, and it ended in `w`. -/
structure Clean (S : Setting) (polls : List Nat) (earlier : List Attempt) (last : Attempt)
    (v : Handle) (held w : World) : Prop where
  log : held.log = .created :: polls.map .ready ++ (earlier ++ [last]).map .attempt
  ready : polls.getLast? = some 0
  seen : S.Seen held
  commits : S.Commits v last
  retried : ∀ a ∈ earlier, S.Retryable a
  made : ∀ a ∈ earlier ++ [last], a.calls <:+: held.calls
  flushed : (Adapter.flush S.volume 0 0 held.adapter).1 = .ok ()
  shut : S.shutdown held = (.ok false, w)
  going : ∀ c ∈ held.calls, c ∉ closing
  closed : ∃ after, (after = 0 ∨ after = Code.operationAborted) ∧
    w.calls = held.calls ++ closeCalls (some v) 0 after
  faulted : w.adapter.io.faulted = false

theorem verdict_ok {ready : Nat} {clean failed : Bool} (hrw : S.readOnly = false)
    (h : S.verdict ready clean failed = .ok ()) : ready = 0 ∧ clean = true ∧ failed = false := by
  unfold verdict at h
  split at h
  · cases h
  · next hclean =>
    split at h
    · cases h
    · next hready =>
      simp only [hrw, true_and, not_or, Bool.not_eq_false, Bool.not_eq_true] at hclean
      exact ⟨Decidable.not_not.mp hready, hclean⟩

/-- `wl_close` makes each of the calls that end a session once. -/
theorem count_closing (locked : Option Handle) (before after : Nat) {c : SysCall}
    (hc : c ∈ closing) :
    (closeCalls locked before after).count c = 1 := by
  simp only [closing, List.mem_cons, List.not_mem_nil, or_false] at hc
  rcases hc with rfl | rfl | rfl | rfl <;> cases locked <;> rfl

/-- A writable session that ends with success closed clean. -/
theorem session_clean (hrw : S.readOnly = false) (hlog : w.log = [.created])
    (hfree : w.lockedVolume = none) (hcalls : w.calls = []) (hok : (S.session w).1 = .ok ()) :
    ∃ polls earlier last v held, S.Clean polls earlier last v held (S.session w).2 := by
  have hret : (S.session w).1.Returns := by
    rw [hok]
    trivial
  obtain ⟨w₀, w₁, w₂, w₃, w₄, first, ready, clean, failed, htick, hpoll, hdiscover, hhold, hshut,
    heq⟩ := session_returns hret
  rw [heq] at hok ⊢
  obtain ⟨rfl, rfl, rfl⟩ := verdict_ok hrw hok
  obtain ⟨new, hnew, hgoing⟩ := (onward_parts htick hpoll hdiscover hhold).calls
  rw [hcalls, List.nil_append] at hnew
  obtain ⟨hlog₁, hlock₁, hseen₁⟩ := pollReady_spec hpoll
  obtain ⟨polls, hlog₂, hlock₂, hlast, hseen₂⟩ := discover_spec hseen₁ hdiscover
  rw [if_pos rfl] at hhold
  obtain ⟨calls, hready, hcalls₂⟩ := hseen₂ rfl
  have hseen : S.Seen w₃ :=
    ⟨calls, hready, hcalls₂.trans ((goesOn_hold _).run hhold).calls_begin.isInfix⟩
  have hs := tick_silent htick
  have hfree₂ : w₂.lockedVolume = none := by rw [hlock₂, hlock₁, hs.2, hfree]
  obtain ⟨attempts, hlog₃, hmade, hclean⟩ := hold_spec hrw hfree₂ hhold
  obtain ⟨earlier, last, v, rfl, hlocked, hcommits, hearlier⟩ := hclean rfl
  obtain ⟨before, after, hclose, hgood⟩ := shutdown_spec hshut
  obtain ⟨hflushed, rfl, hafter, hfault⟩ := hgood rfl
  refine ⟨first :: polls, earlier, last, v, w₃, ?_, hlast, hseen, hcommits, hearlier, hmade,
    hflushed, hshut, fun c hc => hgoing c (hnew ▸ hc), ⟨after, hafter, hlocked ▸ hclose⟩, hfault⟩
  rw [hlog₃, hlog₂, hlog₁, hs.1, hlog]
  simp only [List.map_cons, List.cons_append, List.nil_append]

/-- A session that returns has closed its device once. -/
theorem session_closes (hcalls : w.calls = []) (hret : (S.session w).1.Returns) {c : SysCall}
    (hc : c ∈ closing) : (S.session w).2.calls.count c = 1 := by
  obtain ⟨w₀, w₁, w₂, w₃, w₄, first, ready, clean, failed, htick, hpoll, hdiscover, hhold, hshut,
    heq⟩ := session_returns hret
  obtain ⟨new, hnew, hgoing⟩ := (onward_parts htick hpoll hdiscover hhold).calls
  obtain ⟨before, after, hclose, -⟩ := shutdown_spec hshut
  rw [heq]
  show w₄.calls.count c = 1
  rw [hclose, hnew, hcalls, List.nil_append, List.count_append,
    List.count_eq_zero_of_not_mem fun h => hgoing c h hc, Nat.zero_add, count_closing _ _ _ hc]

/-- **A clean close is not reported falsely.**  A writable session ends with success only
when its volume was discovered, the last attempt to close it went through all its steps on
a volume with the serial of the session, each attempt before it was refused at the lock for
a sharing failure, the final flush succeeded, `wl_close` read no error of the dispatcher before
the shutdown and none but the abort after it, and the adapter is not faulted.  A session that
was created and returns has called `wl_close` once. -/
theorem serve_clean (hrw : S.readOnly = false) (io : Io) :
    ((S.serve (World.start io)).1 = .ok () → ∃ polls earlier last v held,
      S.Clean polls earlier last v held (S.serve (World.start io)).2) ∧
    ((S.serve (World.start io)).1.Returns → .created ∈ (S.serve (World.start io)).2.log →
      ∀ c ∈ closing, (S.serve (World.start io)).2.calls.count c = 1) := by
  rcases S.serve_cases (World.start io) with ⟨-, e, he⟩ | ⟨-, heq⟩
  · rw [he]
    exact ⟨nofun, fun _ h => by cases h⟩
  · rw [heq]
    exact ⟨session_clean hrw rfl rfl rfl, fun hret _ c hc => session_closes rfl hret hc⟩

/-- A machine with one volume, that of the session; the dispatcher writes a block and reads it
back, and Ctrl+C is pressed once. -/
def sampleOs : Os where
  consumerReady _ := true
  setHandler _ := true
  create _ := 0
  findFirst _ := .ok [92]
  findNext _ := none
  openVolume _ _ _ := true
  queryProperty _ _ := some (77, zeros 24 ++ leBytes 4 40 ++ zeros 12 ++
    textBytes Sample.uuid ++ [0])
  volumeInformation _ _ := .ok ⟨0, btrfs⟩
  handleInformation _ _ := .ok ⟨0, btrfs⟩
  lock _ _ := none
  flushBuffers _ _ := none
  dismount _ _ := none
  dispatcherError now := if now < 30 then 0 else Code.operationAborted
  beforeDeadline now := now < 20
  callbacks now := if now = 5 then [.write 1 1 (fun _ => 7), .read 1 1] else []
  ctrlC now := now = 10

def sample : Setting := ⟨Sample.prim, Sample.volume .readWrite, sampleOs, textBytes Sample.uuid, 8⟩

theorem sample_ok : (sample.serve (World.start (Sample.io []))).1 = .ok () := by
  decide +kernel

theorem serve_clean_sample :
    (∃ polls earlier last v held, sample.Clean polls earlier last v held
      (sample.serve (World.start (Sample.io []))).2) ∧
    ∀ c ∈ closing, (sample.serve (World.start (Sample.io []))).2.calls.count c = 1 := by
  have hclean := @serve_clean sample rfl (Sample.io [])
  exact ⟨hclean.1 sample_ok, hclean.2 (by rw [sample_ok]; trivial) (by decide +kernel)⟩

end Setting

end Winluks
