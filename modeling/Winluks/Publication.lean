import Mathlib.Logic.Function.Basic
import Mathlib.Logic.Relation
import Winluks.Resources

/-!
# At most one publisher

Processes that run `wl_create` and `wl_close` share one named mutex, which exists
while some process has a handle of it.  `wlCreate` and `wlClose` are the two
functions as programs of single calls (`create_eq_run` and `close_calls_run` relate
them to the functions that run through), and `Step` lets any process make its next
call, which may fail.

`publication_exclusive`: in every reachable state at most one process has a storage
unit, and it has the guard around the whole life of the unit.  The reason is in
`Disciplined`: a program creates its unit only behind a mutex that it created
itself, and nobody else can create one before the handle is closed.
-/

namespace Winluks

open Lib

/-! ## Programs of single calls -/

/-- A program that makes one call and goes on with its answer. -/
inductive Prog where
  | ret (code : Nat)
  | heapAlloc (k : Bool → Prog)
  | createMutex (k : MutexAnswer → Prog)
  | createGuid (k : Bool → Prog)
  | createUnit (k : Option Failure → Prog)
  | startDispatcher (k : Option Failure → Prog)
  | dispatcherError (k : Nat → Prog)
  | shutdownUnit (k : Prog)
  | waitDispatcher (k : Prog)
  | deleteUnit (k : Prog)
  | closeVolume (h : Handle) (k : Prog)
  | closeGuard (k : Prog)
  | heapFree (k : Prog)

def wlCreate (blocks : Nat) : Prog :=
  if blocks = 0 then .ret Code.invalidParameter
  else .heapAlloc fun ok =>
    if ok = false then .ret Code.notEnoughMemory
    else .createMutex fun
      | .failed e => .heapFree (.ret (if e.code = Code.alreadyExists then Code.busy else e.code))
      | .existing => .closeGuard (.heapFree (.ret Code.busy))
      | .created => .createGuid fun ok =>
        if ok = false then .closeGuard (.heapFree (.ret Code.genFailure))
        else .createUnit fun
          | some e => .closeGuard (.heapFree (.ret e.code))
          | none => .startDispatcher fun
            | some e => .shutdownUnit (.waitDispatcher
                (.deleteUnit (.closeGuard (.heapFree (.ret e.code)))))
            | none => .ret 0

def wlClose (lockedVolume : Option Handle) : Prog :=
  .dispatcherError fun before => .shutdownUnit (.waitDispatcher (.dispatcherError fun after =>
    .deleteUnit (
      let last := .closeGuard (.heapFree
        (.ret (if before ≠ 0 then before else if after = Code.operationAborted then 0 else after)))
      match lockedVolume with
      | some h => .closeVolume h last
      | none => last)))

namespace Prog

/-- What is left of the program after the call `c`, with the answer it has there; `none` if that is
not its next call. -/
def next : Prog → NativeCall → Option Prog
  | .heapAlloc k, .heapAlloc ok => some (k ok)
  | .createMutex k, .createMutex r => some (k r)
  | .createGuid k, .createGuid ok => some (k ok)
  | .createUnit k, .createUnit r => some (k r)
  | .startDispatcher k, .startDispatcher r => some (k r)
  | .dispatcherError k, .sys (.dispatcherError code) => some (k code)
  | .shutdownUnit k, .sys .shutdownUnit => some k
  | .waitDispatcher k, .sys .waitDispatcher => some k
  | .deleteUnit k, .sys .deleteUnit => some k
  | .closeVolume h k, .sys (.closeHandle h') => if h = h' then some k else none
  | .closeGuard k, .sys .closeGuard => some k
  | .heapFree k, .heapFree => some k
  | _, _ => none

/-- The program makes these calls and returns. -/
def Runs (p : Prog) (calls : List NativeCall) (code : Nat) : Prop :=
  post next p calls = some (.ret code)

end Prog

/-- **Creation, call by call.**  The calls of `create` are those of the program. -/
theorem create_runs (A : CreateAnswers) (blocks : Nat) (s : Native) : ∃ code s' new,
    Native.create A blocks s = (.ok code, s') ∧ s'.calls = s.calls ++ new ∧
    (wlCreate blocks).Runs new code := by
  obtain ⟨alloc, mutex, guid, unit, start⟩ := A
  unfold Native.create wlCreate
  split
  · exact ⟨_, _, [], rfl, (List.append_nil _).symm, rfl⟩
  cases alloc with
  | false => exact ⟨_, _, [.heapAlloc false], rfl, rfl, rfl⟩
  | true =>
    cases mutex with
    | failed e =>
      refine ⟨_, _, [.heapAlloc true, .createMutex (.failed e), .heapFree], rfl, ?_, rfl⟩
      simp
    | existing =>
      refine ⟨_, _, [.heapAlloc true, .createMutex .existing, .sys .closeGuard, .heapFree],
        rfl, ?_, rfl⟩
      simp
    | created =>
      cases guid with
      | false =>
        refine ⟨_, _, [.heapAlloc true, .createMutex .created, .createGuid false, .sys .closeGuard,
          .heapFree], rfl, ?_, rfl⟩
        simp
      | true =>
        cases unit with
        | some e =>
          refine ⟨_, _, [.heapAlloc true, .createMutex .created, .createGuid true,
            .createUnit (some e), .sys .closeGuard, .heapFree], rfl, ?_, rfl⟩
          simp
        | none =>
          cases start with
          | some e =>
            refine ⟨_, _, [.heapAlloc true, .createMutex .created, .createGuid true,
              .createUnit none, .startDispatcher (some e), .sys .shutdownUnit, .sys .waitDispatcher,
              .sys .deleteUnit, .sys .closeGuard,
              .heapFree], rfl, ?_, rfl⟩
            simp
          | none =>
            refine ⟨_, _, [.heapAlloc true, .createMutex .created, .createGuid true,
              .createUnit none, .startDispatcher none], rfl, ?_, rfl⟩
            simp

/-- **Closing, call by call.** -/
theorem close_runs {S : Setting} {s s' : Native} {code : Nat}
    (h : Native.close S s = (.ok code, s')) :
    ∃ new, s'.calls = s.calls ++ new ∧ (wlClose s.world.lockedVolume).Runs new code := by
  obtain ⟨before, after, hcalls, rfl⟩ := Native.close_native_calls h
  refine ⟨_, by rw [hcalls, List.append_assoc], ?_⟩
  cases s.world.lockedVolume with
  | none => rfl
  | some v => simp [wlClose, Prog.Runs, Setting.closeCalls, Prog.next]

/-! ## Processes -/

/-- A handle of the named mutex: none, a further one, or that of its creator. -/
inductive NamedHandle where
  | none
  | further
  | creator
deriving DecidableEq

/-- What a process holds. -/
structure Holding where
  mutex : NamedHandle
  unit : Bool
deriving DecidableEq

namespace Holding

def nothing : Holding := ⟨.none, false⟩

/-- The guard and a unit -/
def published : Holding := ⟨.creator, true⟩

def after (h : Holding) : NativeCall → Holding
  | .createMutex .created => { h with mutex := .creator }
  | .createMutex .existing => { h with mutex := .further }
  | .createUnit Option.none => { h with unit := true }
  | .sys .deleteUnit => { h with unit := false }
  | .sys .closeGuard => { h with mutex := .none }
  | _ => h

end Holding

/-- Where a process stands. -/
inductive Control where
  | outside
  | creating (p : Prog)
  | session
  | closing (p : Prog)

structure Process where
  control : Control
  holding : Holding

def Process.start : Process := ⟨.outside, .nothing⟩

section
variable {ι : Type}

/-- What the named mutex answers: it exists while some process has a handle. -/
def Answerable (s : ι → Process) : NativeCall → Prop
  | .createMutex .created => ∀ j, (s j).holding.mutex = .none
  | .createMutex .existing => ∃ j, (s j).holding.mutex ≠ .none
  | _ => True

variable [DecidableEq ι]

/-- One process makes its next step.  The other calls of a session touch neither the guard nor the
unit. -/
inductive Step (s : ι → Process) : (ι → Process) → Prop where
  | create (i : ι) (blocks : Nat) : (s i).control = .outside →
      Step s (Function.update s i ⟨.creating (wlCreate blocks), (s i).holding⟩)
  | createCall (i : ι) {p p' : Prog} {c : NativeCall} :
    (s i).control = .creating p → p.next c = some p' → Answerable s c →
      Step s (Function.update s i ⟨.creating p', (s i).holding.after c⟩)
  | created (i : ι) : (s i).control = .creating (.ret 0) →
    Step s (Function.update s i ⟨.session, (s i).holding⟩)
  | failed (i : ι) {code : Nat} : (s i).control = .creating (.ret code) → code ≠ 0 →
      Step s (Function.update s i ⟨.outside, (s i).holding⟩)
  | close (i : ι) (lockedVolume : Option Handle) : (s i).control = .session →
      Step s (Function.update s i ⟨.closing (wlClose lockedVolume), (s i).holding⟩)
  | closeCall (i : ι) {p p' : Prog} {c : NativeCall} :
    (s i).control = .closing p → p.next c = some p' → Answerable s c →
      Step s (Function.update s i ⟨.closing p', (s i).holding.after c⟩)
  | closed (i : ι) {code : Nat} : (s i).control = .closing (.ret code) →
      Step s (Function.update s i ⟨.outside, (s i).holding⟩)

end

/-! ## The discipline of a program -/

/-- A program that holds `h` creates and deletes its unit behind its own mutex, and returns a code
with the holdings that `fin` asks for. -/
def Disciplined (fin : Nat → Holding → Prop) : Holding → Prog → Prop
  | h, .ret code => fin code h
  | h, .heapAlloc k => ∀ ok, Disciplined fin h (k ok)
  | h, .createMutex k => h = .nothing ∧ ∀ r, Disciplined fin (h.after (.createMutex r)) (k r)
  | h, .createGuid k => ∀ ok, Disciplined fin h (k ok)
  | h, .createUnit k => h.mutex = .creator ∧ ∀ r, Disciplined fin (h.after (.createUnit r)) (k r)
  | h, .startDispatcher k => ∀ r, Disciplined fin h (k r)
  | h, .dispatcherError k => ∀ code, Disciplined fin h (k code)
  | h, .shutdownUnit k => Disciplined fin h k
  | h, .waitDispatcher k => Disciplined fin h k
  | h, .deleteUnit k => h.mutex = .creator ∧ Disciplined fin { h with unit := false } k
  | h, .closeVolume _ k => Disciplined fin h k
  | h, .closeGuard k => h.unit = false ∧ Disciplined fin { h with mutex := .none } k
  | h, .heapFree k => Disciplined fin h k

/-- `wl_create` publishes or holds nothing. -/
def CreateEnds (code : Nat) (h : Holding) : Prop :=
  (code = 0 ∧ h = .published) ∨ (code ≠ 0 ∧ h = .nothing)

/-- `wl_close` gives everything back. -/
def CloseEnds (_ : Nat) (h : Holding) : Prop := h = .nothing

theorem wlCreate_disciplined (blocks : Nat) :
    Disciplined CreateEnds .nothing (wlCreate blocks) := by
  unfold wlCreate
  split
  · exact Or.inr ⟨by decide, rfl⟩
  rintro (_ | _)
  · exact Or.inr ⟨by decide, rfl⟩
  refine ⟨rfl, fun r => ?_⟩
  cases r with
  | failed e =>
    refine Or.inr ⟨?_, rfl⟩
    split
    · decide
    · exact e.ne
  | existing => exact ⟨rfl, Or.inr ⟨by decide, rfl⟩⟩
  | created =>
    rintro (_ | _)
    · exact ⟨rfl, Or.inr ⟨by decide, rfl⟩⟩
    refine ⟨rfl, fun r => ?_⟩
    cases r with
    | some e => exact ⟨rfl, Or.inr ⟨e.ne, rfl⟩⟩
    | none =>
      intro r
      cases r with
      | some e => exact ⟨rfl, rfl, Or.inr ⟨e.ne, rfl⟩⟩
      | none => exact Or.inl ⟨rfl, rfl⟩

theorem wlClose_disciplined (lockedVolume : Option Handle) :
    Disciplined CloseEnds .published (wlClose lockedVolume) := by
  intro before after
  refine ⟨rfl, ?_⟩
  cases lockedVolume <;> exact ⟨rfl, rfl⟩

/-- What one call of a disciplined program does to its holdings. -/
inductive Moves (h : Holding) : NativeCall → Holding → Prop where
  | still {c : NativeCall} : Moves h c h
  | guarded : h = .nothing → Moves h (.createMutex .created) ⟨.creator, false⟩
  | further : h = .nothing → Moves h (.createMutex .existing) ⟨.further, false⟩
  | published {c : NativeCall} : h.mutex = .creator → Moves h c .published
  | withdrawn {c : NativeCall} : h.mutex = .creator → Moves h c ⟨.creator, false⟩
  | released {c : NativeCall} : h.unit = false → Moves h c .nothing

/-- **One call of a disciplined program.** -/
theorem Disciplined.next {fin : Nat → Holding → Prop} {h : Holding} {p p' : Prog} {c : NativeCall}
    (hp : Disciplined fin h p) (hc : p.next c = some p') :
    Disciplined fin (h.after c) p' ∧ Moves h c (h.after c) := by
  obtain ⟨mutex, unit⟩ := h
  unfold Prog.next at hc
  split at hc
  case h_2 k r =>
    cases hc
    obtain ⟨hnothing, hp⟩ := hp
    cases hnothing
    refine ⟨hp r, ?_⟩
    cases r
    · exact .guarded rfl
    · exact .further rfl
    · exact .still
  case h_4 k r =>
    cases hc
    obtain ⟨hcreator, hp⟩ := hp
    cases hcreator
    refine ⟨hp r, ?_⟩
    cases r
    · exact .published rfl
    · exact .still
  case h_9 k =>
    cases hc
    obtain ⟨hcreator, hp⟩ := hp
    cases hcreator
    exact ⟨hp, .withdrawn rfl⟩
  case h_10 v k v' =>
    split at hc
    · cases hc
      exact ⟨hp, .still⟩
    · cases hc
  case h_11 k =>
    cases hc
    obtain ⟨hunit, hp⟩ := hp
    cases hunit
    exact ⟨hp, .released rfl⟩
  case h_13 => cases hc
  -- a call that changes no holding
  all_goals
    cases hc
    first | exact ⟨hp, .still⟩ | exact ⟨hp _, .still⟩

/-! ## Every interleaving -/

/-- A process is where its holdings say. -/
structure Process.Sound (x : Process) : Prop where
  unit : x.holding.unit = true → x.holding.mutex = .creator
  outside : x.control = .outside → x.holding = .nothing
  creating : ∀ p, x.control = .creating p → Disciplined CreateEnds x.holding p
  session : x.control = .session → x.holding = .published
  closing : ∀ p, x.control = .closing p → Disciplined CloseEnds x.holding p

/-- The invariant: there is one creator at most, and every process is sound. -/
structure Exclusive {ι : Type} (s : ι → Process) : Prop where
  sound : ∀ i, (s i).Sound
  creator : ∀ i j, (s i).holding.mutex = .creator → (s j).holding.mutex = .creator → i = j

section
variable {ι : Type} [DecidableEq ι] {s s' : ι → Process} {i : ι}

/-- A process that keeps its holdings. -/
theorem Exclusive.still (hs : Exclusive s) {control : Control}
    (hx : Process.Sound ⟨control, (s i).holding⟩) :
    Exclusive (Function.update s i ⟨control, (s i).holding⟩) := by
  have hholding : ∀ j, (Function.update s i ⟨control, (s i).holding⟩ j).holding =
      (s j).holding := by
    intro j
    by_cases hj : j = i
    · subst hj
      rw [Function.update_self]
    · rw [Function.update_of_ne hj]
  refine ⟨fun j => ?_, fun j k => ?_⟩
  · by_cases hj : j = i
    · subst hj
      rw [Function.update_self]
      exact hx
    · rw [Function.update_of_ne hj]
      exact hs.sound j
  · rw [hholding, hholding]
    exact hs.creator j k

/-- A process that makes a call. -/
theorem Exclusive.call (hs : Exclusive s) {control : Control} {c : NativeCall} {h : Holding}
    (hc : Answerable s c) (hmoves : Moves (s i).holding c h) (hx : Process.Sound ⟨control, h⟩) :
    Exclusive (Function.update s i ⟨control, h⟩) := by
  -- a new creator is the only one with a handle
  have hnew : h.mutex = .creator → ∀ j, j ≠ i → (s j).holding.mutex ≠ .creator := by
    intro hcreator j hj hother
    cases hmoves with
    | still => exact hj (hs.creator j i hother hcreator)
    | guarded =>
      rw [hc j] at hother
      cases hother
    | further => cases hcreator
    | published h' => exact hj (hs.creator j i hother h')
    | withdrawn h' => exact hj (hs.creator j i hother h')
    | released => cases hcreator
  refine ⟨fun j => ?_, fun j k => ?_⟩
  · by_cases hj : j = i
    · subst hj
      rw [Function.update_self]
      exact hx
    · rw [Function.update_of_ne hj]
      exact hs.sound j
  · by_cases hj : j = i <;> by_cases hk : k = i
    · exact fun _ _ => hj.trans hk.symm
    · subst hj
      rw [Function.update_self, Function.update_of_ne hk]
      exact fun h1 h2 => absurd h2 (hnew h1 k hk)
    · subst hk
      rw [Function.update_self, Function.update_of_ne hj]
      exact fun h1 h2 => absurd h1 (hnew h2 j hj)
    · rw [Function.update_of_ne hj, Function.update_of_ne hk]
      exact hs.creator j k

theorem Moves.unit {h h' : Holding} {c : NativeCall} (hm : Moves h c h')
    (hu : h.unit = true → h.mutex = .creator) :
    h'.unit = true → h'.mutex = .creator := by
  cases hm with
  | still => exact hu
  | published | withdrawn => exact fun _ => rfl
  | guarded | further | released => exact nofun

/-- **One step of one process.** -/
theorem Exclusive.step (hs : Exclusive s) (h : Step s s') : Exclusive s' := by
  cases h with
  | create i blocks hi =>
    have hnothing := (hs.sound i).outside hi
    refine hs.still ⟨(hs.sound i).unit, nofun, ?_, nofun, nofun⟩
    rintro p ⟨⟩
    rw [hnothing]
    exact wlCreate_disciplined blocks
  | createCall i hi hnext hc =>
    obtain ⟨hp, hmoves⟩ := ((hs.sound i).creating _ hi).next hnext
    refine hs.call hc hmoves ⟨hmoves.unit (hs.sound i).unit, nofun, ?_, nofun, nofun⟩
    rintro p ⟨⟩
    exact hp
  | created i hi =>
    refine hs.still ⟨(hs.sound i).unit, nofun, nofun, fun _ => ?_, nofun⟩
    rcases (hs.sound i).creating _ hi with ⟨-, h⟩ | ⟨h, -⟩
    · exact h
    · exact absurd rfl h
  | failed i hi hcode =>
    refine hs.still ⟨(hs.sound i).unit, fun _ => ?_, nofun, nofun, nofun⟩
    rcases (hs.sound i).creating _ hi with ⟨h, -⟩ | ⟨-, h⟩
    · exact absurd h hcode
    · exact h
  | close i lockedVolume hi =>
    have hpublished := (hs.sound i).session hi
    refine hs.still ⟨(hs.sound i).unit, nofun, nofun, nofun, ?_⟩
    rintro p ⟨⟩
    rw [hpublished]
    exact wlClose_disciplined lockedVolume
  | closeCall i hi hnext hc =>
    obtain ⟨hp, hmoves⟩ := ((hs.sound i).closing _ hi).next hnext
    refine hs.call hc hmoves ⟨hmoves.unit (hs.sound i).unit, nofun, nofun, nofun, ?_⟩
    rintro p ⟨⟩
    exact hp
  | closed i hi => exact hs.still ⟨(hs.sound i).unit, fun _ => (hs.sound i).closing _ hi, nofun,
      nofun, nofun⟩

omit [DecidableEq ι] in
theorem exclusive_start : Exclusive fun _ : ι => Process.start :=
  ⟨fun _ => ⟨nofun, fun _ => rfl, nofun, nofun, nofun⟩, nofun⟩

/-- **Every run.** -/
theorem exclusive_of_run (h : Relation.ReflTransGen Step (fun _ => Process.start) s) :
    Exclusive s := by
  induction h with
  | refl => exact exclusive_start
  | tail _ hstep ih => exact ih.step hstep

/-- A unit comes and goes behind the guard. -/
theorem Moves.unit_changed {h h' : Holding} {c : NativeCall} (hm : Moves h c h')
    (hu : h'.unit ≠ h.unit) :
    h.mutex = .creator ∧ h'.mutex = .creator := by
  cases hm with
  | still => exact absurd rfl hu
  | guarded hnothing | further hnothing =>
    subst hnothing
    exact absurd rfl hu
  | published h' | withdrawn h' => exact ⟨h', rfl⟩
  | released hunit => exact absurd hunit.symm hu

theorem Exclusive.unit_changed (hs : Exclusive s) (h : Step s s') (j : ι)
    (hu : (s' j).holding.unit ≠ (s j).holding.unit) :
    (s j).holding.mutex = .creator ∧ (s' j).holding.mutex = .creator := by
  have hmoved : ∀ {i : ι} {x : Process} {c : NativeCall}, s' = Function.update s i x →
      Moves (s i).holding c x.holding → (s j).holding.mutex = .creator ∧
      (s' j).holding.mutex = .creator := by
    rintro i x c rfl hm
    by_cases hj : j = i
    · subst hj
      rw [Function.update_self] at hu ⊢
      exact hm.unit_changed hu
    · rw [Function.update_of_ne hj] at hu
      exact absurd rfl hu
  cases h with
  | createCall i hi hnext hc => exact hmoved rfl (((hs.sound i).creating _ hi).next hnext).2
  | closeCall i hi hnext hc => exact hmoved rfl (((hs.sound i).closing _ hi).next hnext).2
  | create i | created i | failed i | close i | closed i => exact @hmoved i _ .heapFree rfl .still

/-- **At most one publisher.**  In any run of any processes, one at most has a unit at a time; a
failed creation leaves nothing behind; and a session has the guard from before its unit is created
until after it is deleted. -/
theorem publication_exclusive (h : Relation.ReflTransGen Step (fun _ => Process.start) s) :
    (∀ i j, (s i).holding.unit = true → (s j).holding.unit = true → i = j) ∧
    (∀ i code, (s i).control = .creating (.ret code) → code ≠ 0 → (s i).holding = .nothing) ∧
    (∀ i, (s i).control = .outside → (s i).holding = .nothing) ∧
    (∀ i, (s i).control = .session → (s i).holding = .published) ∧
    (∀ i, (s i).holding.unit = true → (s i).holding.mutex = .creator) ∧
    ∀ s' i, Step s s' → (s' i).holding.unit ≠ (s i).holding.unit →
      (s i).holding.mutex = .creator ∧ (s' i).holding.mutex = .creator := by
  have hs := exclusive_of_run h
  refine ⟨fun i j hi hj => hs.creator i j ((hs.sound i).unit hi) ((hs.sound j).unit hj),
    fun i code hi hcode => ?_,
    fun i => (hs.sound i).outside, fun i => (hs.sound i).session, fun i => (hs.sound i).unit,
    fun s' i hstep => hs.unit_changed hstep i⟩
  rcases (hs.sound i).creating _ hi with ⟨h0, -⟩ | ⟨-, hnothing⟩
  · exact absurd h0 hcode
  · exact hnothing

end

/-- One of two processes publishes. -/
theorem publication_exclusive_sample : ∃ s : Bool → Process, (s true).holding.unit = true ∧
    (s true).holding.mutex = .creator ∧ ∀ j, (s j).holding.unit = true → j = true := by
  have h₁ := Relation.ReflTransGen.single
    (Step.create (s := fun _ : Bool => Process.start) true 1 rfl)
  have h₂ := h₁.tail (.createCall true (c := .heapAlloc true) rfl rfl trivial)
  have h₃ := h₂.tail (.createCall true (c := .createMutex .created) rfl rfl
    fun j => by cases j <;> rfl)
  have h₄ := h₃.tail (.createCall true (c := .createGuid true) rfl rfl trivial)
  have h₅ := h₄.tail (.createCall true (c := .createUnit none) rfl rfl trivial)
  obtain ⟨hunique, -, -, -, hguard, -⟩ := publication_exclusive h₅
  exact ⟨_, rfl, hguard true rfl, fun j hj => hunique j true hj rfl⟩

end Winluks
