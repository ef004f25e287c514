import Winluks.Lib.Ledger
import Winluks.WinspdSpec

/-!
# Looking a volume up

`find_volume` over a finite enumeration: each volume has a name, may open or not,
and answers the storage query with any bytes and any size.  `belongsToSession`
keeps the positions of the descriptor that it reads.  `Setting.findVolume` does
the same with the rest of the system running in between (`findVolume_seen`).

`findVolume_unambiguous` says that the volume of the session is found when there
is one, and that nothing is left open when there is none or more than one.
-/

namespace Winluks

open Lib

/-! ## The serial of a session -/

structure Guid where
  data1 : UInt32
  data2 : UInt16
  data3 : UInt16
  data4 : Fin 8 → UInt8

/-- A digit of `%x`. -/
def hexDigit (n : Nat) : UInt8 := UInt8.ofNat (if n < 10 then 48 + n else 87 + n)

/-- `%0*x` of a number of at most `w` digits. -/
def hex (w n : Nat) : Bytes := (List.range w).map fun i => hexDigit (n / 16 ^ (w - 1 - i) % 16)

/-- `%08lx-%04x-%04x-%02x%02x-%02x%02x%02x%02x%02x%02x` -/
def Guid.serial (g : Guid) : Bytes :=
  hex 8 g.data1.toNat ++ [45] ++ hex 4 g.data2.toNat ++ [45] ++ hex 4 g.data3.toNat ++ [45] ++
    hex 2 (g.data4 0).toNat ++ hex 2 (g.data4 1).toNat ++ [45] ++
    hex 2 (g.data4 2).toNat ++ hex 2 (g.data4 3).toNat ++ hex 2 (g.data4 4).toNat ++
      hex 2 (g.data4 5).toNat ++
    hex 2 (g.data4 6).toNat ++ hex 2 (g.data4 7).toNat

namespace Lookup

/-! ## The descriptor -/

/-- One byte of the descriptor; its position is kept. -/
def peek (descriptor : Store) (p : Nat) : Run (List Nat) Empty UInt8 := do
  .modify (· ++ [p])
  pure (descriptor p)

/-- A `DWORD` of the descriptor. -/
def dword (descriptor : Store) (p : Nat) : Run (List Nat) Empty Nat := do
  let b₀ ← peek descriptor p
  let b₁ ← peek descriptor (p + 1)
  let b₂ ← peek descriptor (p + 2)
  let b₃ ← peek descriptor (p + 3)
  pure (leNat [b₀, b₁, b₂, b₃])

/-- `_strnicmp(descriptor + p, serial, n)` is 0 -/
def strnicmp (descriptor : Store) : (n p : Nat) → (serial : Bytes) → Run (List Nat) Empty Bool
  | 0, _, _ => pure true
  | n + 1, p, serial => do
    let b ← peek descriptor p
    if Setting.lower b.toNat ≠ Setting.lower (serial.headD 0).toNat then pure false
    else if b = 0 then pure true
    else strnicmp descriptor n (p + 1) serial.tail

/-- What the query returned: its size, and the bytes it put into a buffer of zeros. -/
abbrev Reply := Option (Nat × Bytes)

def belongsToSession (serial : Bytes) : Reply → Run (List Nat) Empty Bool
  | none => pure false
  | some (n, bytes) =>
    let descriptor : Store := fun p => bytes.getD p 0
    if 40 ≤ n ∧ n ≤ 4096 then do
      let start ← dword descriptor 24
      if start ≠ 0 ∧ start < n ∧ 36 < n - start then do
        let same ← strnicmp descriptor 36 start serial
        if same then do
          let last ← peek descriptor (start + 36)
          pure (last = 0)
        else pure false
      else pure false
    else pure false

/-! ## The enumeration -/

/-- A volume of the system: `handle access` is the answer to `CreateFileW`, `reply` that to the
query. -/
structure Volume where
  name : Name
  handle : Nat → Option Handle
  reply : Reply

/-- `*out`, `root` and `error` -/
structure Search where
  out : Option Handle
  root : Name
  error : Nat

def call (c : SysCall) : Run (List SysCall) Empty Unit := .modify (· ++ [c])

def belongs (serial : Bytes) (reply : Reply) : Bool :=
  (belongsToSession serial reply []).1 = .ok true

section
variable (serial : Bytes) (access : Nat)

/-- One round of the loop, and whether it ends in `break`. -/
def visit (v : Volume) (s : Search) : Run (List SysCall) Empty (Bool × Search) :=
  if v.name.getLast? ≠ some 92 then pure (false, s)
  else do
    call (.openVolume v.name access (v.handle access))
    match v.handle access with
    | none => pure (false, s)
    | some volume => do
      call (.queryProperty volume v.reply)
      if belongs serial v.reply then
        match s.out with
        | some other => do
          call (.closeHandle volume)
          call (.closeHandle other)
          pure (true, { s with out := none, error := Code.dupName })
        | none => pure (false, ⟨some volume, v.name, 0⟩)
      else do
        call (.closeHandle volume)
        pure (false, s)

def search : (rest : List Volume) → Volume → Search → Run (List SysCall) Empty Search
  | [], v, s => do
    let (last, s) ← visit serial access v s
    if last then pure s
    else do
      call (.findNext none)
      pure s
  | next :: rest, v, s => do
    let (last, s) ← visit serial access v s
    if last then pure s
    else do
      call (.findNext (some next.name))
      search rest next s

/-- `FindFirstVolumeW` succeeded, with `v`. -/
def findVolume (v : Volume) (rest : List Volume) : Run (List SysCall) Empty Search := do
  call (.findFirst (.ok v.name))
  let s ← search serial access rest v ⟨none, [], Code.notReady⟩
  call .findClose
  pure s

/-- The volume has a proper name, opens, and belongs to the session. -/
def Mine (v : Volume) : Prop :=
  v.name.getLast? = some 92 ∧ (v.handle access).isSome ∧ belongs serial v.reply = true

instance : DecidablePred (Mine serial access) := fun _ => inferInstanceAs (Decidable (_ ∧ _ ∧ _))

end

/-! ## What is read of the descriptor -/

section
variable {descriptor : Store} {log : List Nat}

theorem peek_bind {α : Type} (p : Nat) (f : UInt8 → Run (List Nat) Empty α) :
    (peek descriptor p >>= f) log = f (descriptor p) (log ++ [p]) := rfl

theorem dword_bind {α : Type} (p : Nat) (f : Nat → Run (List Nat) Empty α) :
    (dword descriptor p >>= f) log = f (leNat (slice descriptor p 4))
    (log ++ [p] ++ [p + 1] ++ [p + 2] ++ [p + 3]) :=
  rfl

/-- The comparison looks at no byte but the `n` it is asked for. -/
theorem strnicmp_run (n p : Nat) (serial : Bytes) : ∃ new,
    strnicmp descriptor n p serial log = (.ok (Setting.sameText n (slice descriptor p n) serial),
      log ++ new) ∧ ∀ q ∈ new, p ≤ q ∧ q < p + n := by
  induction n generalizing p serial log with
  | zero => exact ⟨[], by rw [List.append_nil]; rfl, nofun⟩
  | succ n ih =>
    rw [slice_succ]
    unfold strnicmp Setting.sameText
    rw [peek_bind, List.headD_cons]
    have hhere : ∀ q ∈ [p], p ≤ q ∧ q < p + (n + 1) := by simp
    split
    · exact ⟨[p], rfl, hhere⟩
    · split
      · exact ⟨[p], rfl, hhere⟩
      · obtain ⟨new, hrun, hnew⟩ := @ih (log ++ [p]) (p + 1) serial.tail
        refine ⟨p :: new, by rw [hrun, List.append_assoc]; rfl, fun q hq => ?_⟩
        rcases List.mem_cons.mp hq with rfl | hq
        · omega
        · have := hnew q hq
          omega

/-- The answer alone. -/
def matchesSerial (serial : Bytes) : Reply → Bool
  | none => false
  | some (n, bytes) =>
    let descriptor : Store := fun p => bytes.getD p 0
    let start := leNat (slice descriptor 24 4)
    40 ≤ n && n ≤ 4096 && start ≠ 0 && start < n && 36 < n - start &&
      Setting.sameText 36 (slice descriptor start 36) serial && descriptor (start + 36) = 0

/-- Every byte that is read lies in what the query returned, and the answer is that of the shim. -/
theorem belongsToSession_run (serial : Bytes) (reply : Reply) : ∃ new,
    belongsToSession serial reply log = (.ok (matchesSerial serial reply), log ++ new) ∧
      ∀ q ∈ new, ∃ n bytes, reply = some (n, bytes) ∧ q < n := by
  obtain _ | ⟨n, bytes⟩ := reply
  · exact ⟨[], by rw [List.append_nil]; rfl, nofun⟩
  unfold belongsToSession matchesSerial
  set descriptor : Store := fun p => bytes.getD p 0
  by_cases hn : 40 ≤ n ∧ n ≤ 4096
  · dsimp only
    rw [if_pos hn, dword_bind]
    set start := leNat (slice descriptor 24 4)
    have hfield : ∀ q ∈ [24, 24 + 1, 24 + 2, 24 + 3], q < n := by
      simp only [List.forall_mem_cons, List.not_mem_nil, false_implies, implies_true, and_true]
      omega
    by_cases hstart : start ≠ 0 ∧ start < n ∧ 36 < n - start
    · rw [if_pos hstart]
      obtain ⟨new, hrun, hnew⟩ := @strnicmp_run descriptor (log ++ [24] ++ [24 + 1] ++ [24 + 2] ++
        [24 + 3]) 36 start serial
      rw [Run.bind_run_of hrun]
      have htext : ∀ q ∈ [24, 24 + 1, 24 + 2, 24 + 3] ++ new, q < n := by
        intro q hq
        rcases List.mem_append.mp hq with hq | hq
        · exact hfield q hq
        · have := hnew q hq
          omega
      cases hsame : Setting.sameText 36 (slice descriptor start 36) serial with
      | false =>
        refine ⟨[24, 24 + 1, 24 + 2, 24 + 3] ++ new, ?_, fun q hq => ⟨n, bytes, rfl, htext q hq⟩⟩
        simp [List.append_assoc]
      | true =>
        refine ⟨[24, 24 + 1, 24 + 2, 24 + 3] ++ new ++ [start + 36], ?_,
          fun q hq => ⟨n, bytes, rfl, ?_⟩⟩
        · rw [if_pos rfl, peek_bind]
          simp [hn, hstart]
        · rcases List.mem_append.mp hq with hq | hq
          · exact htext q hq
          · rw [List.mem_singleton.mp hq]
            omega
    · rw [if_neg hstart]
      refine ⟨[24, 24 + 1, 24 + 2, 24 + 3], ?_, fun q hq => ⟨n, bytes, rfl, hfield q hq⟩⟩
      have hfalse : (40 ≤ n && n ≤ 4096 && start ≠ 0 && start < n && 36 < n - start) = false := by
        simp only [Bool.and_eq_false_imp, Bool.and_eq_true, decide_eq_true_eq,
          decide_eq_false_iff_not]
        rintro ⟨⟨-, h1⟩, h2⟩ h3
        exact hstart ⟨h1, h2, h3⟩
      simp only [hfalse, Bool.false_and, Run.pure_run, List.append_assoc]
      rfl
  · dsimp only
    rw [if_neg hn]
    refine ⟨[], ?_, nofun⟩
    have hfalse : (40 ≤ n && n ≤ 4096) = false := by
      rw [← Bool.not_eq_true, Bool.and_eq_true, decide_eq_true_eq, decide_eq_true_eq]
      exact hn
    simp only [hfalse, Bool.false_and, Run.pure_run, List.append_nil]

theorem belongs_eq (serial : Bytes) (reply : Reply) :
    belongs serial reply = matchesSerial serial reply := by
  obtain ⟨new, hrun, -⟩ := @belongsToSession_run [] serial reply
  rw [belongs, hrun]
  cases matchesSerial serial reply <;> rfl

theorem belongs_setting (S : Setting) (reply : Reply) :
    belongs S.serial reply = S.belongsToSession reply :=
  (belongs_eq S.serial reply).trans (by cases reply <;> rfl)

end

theorem lower_eq_zero {c : Nat} : Setting.lower c = 0 ↔ c = 0 := by
  unfold Setting.lower
  split <;> omega

theorem sameText_cons (n : Nat) (x y : UInt8) (a b : Bytes) :
    Setting.sameText (n + 1) (x :: a) (y :: b) =
      if Setting.lower x.toNat ≠ Setting.lower y.toNat then false
      else if x = 0 then true
      else Setting.sameText n a b := rfl

/-- Texts without a zero are compared to their end. -/
theorem sameText_iff {a b : Bytes} (hlen : a.length = b.length) (hzero : ∀ x ∈ b, x ≠ 0) :
    Setting.sameText b.length a b = true ↔
      ∀ i < b.length, Setting.lower (a.getD i 0).toNat = Setting.lower (b.getD i 0).toNat := by
  induction b generalizing a with
  | nil => simp [Setting.sameText]
  | cons y b ih => cases a with
    | nil => cases hlen
    | cons x a =>
      obtain ⟨hy, hb⟩ := List.forall_mem_cons.mp hzero
      rw [List.length_cons, sameText_cons]
      by_cases hhead : Setting.lower x.toNat = Setting.lower y.toNat
      · have hx : x ≠ 0 := by
          rintro rfl
          have hnat : y.toNat = 0 := lower_eq_zero.mp hhead.symm
          exact hy (UInt8.toNat_inj.mp hnat)
        rw [if_neg (not_not.mpr hhead), if_neg hx, ih (by simpa using hlen) hb]
        constructor
        · intro h i hi
          cases i with
          | zero => exact hhead
          | succ i => exact h i (by omega)
        · intro h i hi
          exact h (i + 1) (by omega)
      · rw [if_pos hhead]
        refine iff_of_false (by decide) fun h => hhead (h 0 (by omega))

/-- A descriptor of `n` bytes that has, where it says, the serial up to the case of its letters and
a zero byte behind it, inside what the query returned. -/
structure Carries (serial : Bytes) (n : Nat) (bytes : Bytes) (start : Nat) : Prop where
  size : 40 ≤ n ∧ n ≤ 4096
  offset : start = leNat (slice (fun p => bytes.getD p 0) 24 4)
  given : start ≠ 0
  inside : start + serial.length + 1 ≤ n
  text : ∀ i < serial.length, Setting.lower (bytes.getD (start + i) 0).toNat =
    Setting.lower (serial.getD i 0).toNat
  ends : bytes.getD (start + serial.length) 0 = 0

/-- The query returned a descriptor with the serial. -/
def Names (serial : Bytes) (reply : Reply) : Prop :=
  ∃ n bytes start, reply = some (n, bytes) ∧ Carries serial n bytes start

/-- The text of a descriptor is the serial. -/
theorem sameText_slice {serial : Bytes} (hlen : serial.length = 36) (hzero : ∀ x ∈ serial, x ≠ 0)
    (f : Store) (start : Nat) : Setting.sameText 36 (slice f start 36) serial = true ↔
      ∀ i < serial.length, Setting.lower (f (start + i)).toNat =
      Setting.lower (serial.getD i 0).toNat := by
  rw [← hlen, sameText_iff (slice_length _ _ _) hzero]
  refine forall_congr' fun i => forall_congr' fun hi => ?_
  rw [slice_getD _ _ _ _ hi]

theorem belongs_iff {serial : Bytes} {reply : Reply} (hlen : serial.length = 36)
    (hzero : ∀ x ∈ serial, x ≠ 0) :
    belongs serial reply = true ↔ Names serial reply := by
  rw [belongs_eq]
  obtain _ | ⟨n, bytes⟩ := reply
  · refine iff_of_false (by simp [matchesSerial]) ?_
    rintro ⟨_, _, _, ⟨⟩, _⟩
  simp only [matchesSerial, Bool.and_eq_true, decide_eq_true_eq, sameText_slice hlen hzero]
  constructor
  · rintro ⟨⟨⟨⟨⟨⟨h1, h2⟩, hgiven⟩, hstart⟩, hroom⟩, htext⟩, hends⟩
    exact ⟨n, bytes, _, rfl, ⟨h1, h2⟩, rfl, hgiven, by omega, htext, by rw [hlen]; exact hends⟩
  · rintro ⟨_, _, start, ⟨⟩, ⟨h1, h2⟩, rfl, hgiven, hinside, htext, hends⟩
    rw [hlen] at hends
    exact ⟨⟨⟨⟨⟨⟨h1, h2⟩, hgiven⟩, by omega⟩, by omega⟩, htext⟩, hends⟩

end Lookup

/-! ## The serial has 36 characters -/

theorem hexDigit_ne (n : Nat) : hexDigit (n % 16) ≠ 0 := by
  have hall : ∀ d < 16, hexDigit d ≠ 0 := by decide
  exact hall _ (Nat.mod_lt _ (by decide))

theorem hex_ne {w n : Nat} {x : UInt8} (h : x ∈ hex w n) : x ≠ 0 := by
  obtain ⟨i, -, rfl⟩ := List.mem_map.mp h
  exact hexDigit_ne _

@[simp] theorem hex_length (w n : Nat) : (hex w n).length = w := by simp [hex]

theorem Guid.serial_length (g : Guid) : g.serial.length = 36 := by simp [Guid.serial]

theorem Guid.serial_ne (g : Guid) : ∀ x ∈ g.serial, x ≠ 0 := by
  intro x hx
  simp only [Guid.serial, List.mem_append, List.mem_singleton, or_assoc] at hx
  rcases hx with h | rfl | h | rfl | h | rfl | h | h | rfl | h | h | h | h | h | h
  all_goals first | exact hex_ne h | decide

namespace Lookup

/-! ## What is open -/

/-- The handles a search holds. -/
structure Held where
  volumes : List Handle
  searching : Bool
deriving DecidableEq

/-- A call moves what is held; one on something that is not held is a misuse. -/
def Held.step (L : Held) : SysCall → Option Held
  | .findFirst (.ok _) => if L.searching = false then some { L with searching := true } else none
  | .findNext _ => if L.searching = true then some L else none
  | .findClose => if L.searching = true then some { L with searching := false } else none
  | .openVolume _ _ none => some L
  | .openVolume _ _ (some h) => some { L with volumes := h :: L.volumes }
  | .queryProperty h _ => if h ∈ L.volumes then some L else none
  | .closeHandle h => if h ∈ L.volumes then some { L with volumes := L.volumes.erase h } else none
  | _ => none

section
variable {serial : Bytes} {access : Nat}

theorem call_accounts {K L : Held} {c : SysCall} (h : K.step c = some L) :
    Accounts id Held.step (fun _ M => M = K) (call c) fun _ _ M => M = L := by
  rintro log M rfl
  exact ⟨[c], L, rfl, by rw [post_cons, h, Option.bind_some, post_nil], fun _ _ => rfl⟩

/-- The handle that was opened last is closed again. -/
theorem closeLast_accounts (h : Handle) (open' : List Handle) :
    Accounts id Held.step (fun _ L => L = ⟨h :: open', true⟩) (call (.closeHandle h)) fun _ _ L =>
    L = ⟨open', true⟩ :=
  call_accounts (by simp [Held.step])

theorem visit_accounts (v : Volume) (s : Search) :
    Accounts id Held.step (fun _ L => L = ⟨s.out.toList, true⟩) (visit serial access v s)
      fun r _ L => L = ⟨r.2.out.toList, true⟩ := by
  unfold visit
  split
  · exact accounts_pure fun _ _ h => h
  · cases hopen : v.handle access with
    | none => exact accounts_bind (call_accounts (K := ⟨s.out.toList, true⟩) rfl) fun _ =>
        accounts_pure fun _ _ h => h
    | some volume =>
      refine accounts_bind (call_accounts (K := ⟨s.out.toList, true⟩) rfl) fun _ => ?_
      refine accounts_bind (call_accounts (L := ⟨volume :: s.out.toList, true⟩)
        (by simp [Held.step])) fun _ => ?_
      split
      · split
        · next other hout =>
          rw [hout]
          refine accounts_bind (closeLast_accounts volume [other]) fun _ => ?_
          exact accounts_bind (closeLast_accounts other []) fun _ => accounts_pure fun _ _ h => h
        · next hout =>
          rw [hout]
          exact accounts_pure fun _ _ h => h
      · exact accounts_bind (closeLast_accounts volume s.out.toList) fun _ => accounts_pure
          fun _ _ h => h

theorem search_accounts (rest : List Volume) (v : Volume) (s : Search) :
    Accounts id Held.step (fun _ L => L = ⟨s.out.toList, true⟩) (search serial access rest v s)
      fun s' _ L => L = ⟨s'.out.toList, true⟩ := by
  induction rest generalizing v s with
  | nil =>
    unfold search
    refine accounts_bind (visit_accounts v s) fun r => ?_
    dsimp only
    split
    · exact accounts_pure fun _ _ h => h
    · exact accounts_bind (call_accounts (K := ⟨r.2.out.toList, true⟩) rfl) fun _ => accounts_pure
        fun _ _ h => h
  | cons next rest ih =>
    unfold search
    refine accounts_bind (visit_accounts v s) fun r => ?_
    dsimp only
    split
    · exact accounts_pure fun _ _ h => h
    · exact accounts_bind (call_accounts (K := ⟨r.2.out.toList, true⟩) rfl) fun _ => ih next r.2

/-- A search holds nothing but the volume it yields. -/
theorem findVolume_accounts (v : Volume) (rest : List Volume) :
    Accounts id Held.step (fun _ L => L = ⟨[], false⟩) (findVolume serial access v rest)
      fun s _ L => L = ⟨s.out.toList, false⟩ := by
  unfold findVolume
  refine accounts_bind (call_accounts (K := ⟨[], false⟩) (L := ⟨[], true⟩) rfl) fun _ => ?_
  refine accounts_bind (search_accounts rest v ⟨none, [], Code.notReady⟩) fun s => ?_
  exact accounts_bind (call_accounts (K := ⟨s.out.toList, true⟩) rfl) fun _ => accounts_pure
    fun _ _ h => h

end

/-- `c` opens the volume `h`. -/
def opens (h : Handle) : SysCall → Bool
  | .openVolume _ _ (some h') => h' = h
  | _ => false

def closes (h : Handle) : SysCall → Bool
  | .closeHandle h' => h' = h
  | _ => false

theorem Held.step_count {L M : Held} {c : SysCall} (h : L.step c = some M) (v : Handle) :
    L.volumes.count v + (if opens v c then 1 else 0) = M.volumes.count v + if closes v c then 1
      else 0 := by
  have hsame : ∀ {p : Prop} [Decidable p] {L' : Held}, (if p then some L' else none) = some M →
      L'.volumes = L.volumes → L.volumes.count v = M.volumes.count v := by
    intro p _ L' hif hvol
    obtain ⟨-, ⟨⟩⟩ := Option.ite_none_right_eq_some.mp hif
    rw [hvol]
  cases c with
  | openVolume name access r => cases r with
    | none =>
      cases h
      rfl
    | some h' =>
      cases h
      simp [opens, closes, List.count_cons]
  | closeHandle h' =>
    obtain ⟨hmem, ⟨⟩⟩ := Option.ite_none_right_eq_some.mp h
    have hpos : 0 < L.volumes.count h' := List.count_pos_iff.mpr hmem
    by_cases hv : h' = v
    · subst hv
      simp only [opens, closes, decide_true, if_true, Bool.false_eq_true, if_false,
        List.count_erase_self]
      omega
    · simp [opens, closes, hv, List.count_erase_of_ne (Ne.symm hv)]
  | findFirst r => cases r with
    | error e => cases h
    | ok name => simpa [opens, closes] using hsame h rfl
  | findNext r => simpa [opens, closes] using hsame h rfl
  | findClose => simpa [opens, closes] using hsame h rfl
  | queryProperty h' r => simpa [opens, closes] using hsame h rfl
  | _ => cases h

/-- Only opening adds to what is held. -/
theorem Held.step_subset {L M : Held} {c : SysCall} (h : L.step c = some M)
    (hc : ∀ v, opens v c = false) :
    M.volumes ⊆ L.volumes := by
  intro v hv
  have hcount := L.step_count h v
  have hpos := List.count_pos_iff.mpr hv
  rw [hc v, if_neg nofun] at hcount
  exact List.count_pos_iff.mp (by omega)

/-- What was opened and is not held any more was closed, each once. -/
theorem opened_eq {L L' : Held} {calls : List SysCall} (h : post Held.step L calls = some L')
    (v : Handle) :
    L.volumes.count v + calls.countP (opens v) = calls.countP (closes v) + L'.volumes.count v := by
  induction calls generalizing L with
  | nil =>
    cases h
    simp
  | cons c calls ih =>
    rw [post_cons, Option.bind_eq_some_iff] at h
    obtain ⟨M, hM, hrest⟩ := h
    have hrec := ih hrest
    have hstep := Held.step_count hM v
    rw [List.countP_cons, List.countP_cons]
    omega

/-! ## What is found -/

section
variable {serial : Bytes} {access : Nat} {log : List SysCall}

/-- The outcome of a search whose own volumes are `mine`. -/
def Settles (access : Nat) (mine : List Volume) (s : Search) : Prop :=
  match mine with
  | [] => s.out = none ∧ s.error = Code.notReady
  | [u] => ∃ h, u.handle access = some h ∧ s = ⟨some h, u.name, 0⟩
  | _ :: _ :: _ => s.out = none ∧ s.error = Code.dupName

theorem call_bind {α : Type} (c : SysCall) (f : Unit → Run (List SysCall) Empty α) :
    (call c >>= f) log = f () (log ++ [c]) := rfl

/-- A name that does not end in a backslash is passed over. -/
theorem visit_unnamed {v : Volume} (hname : v.name.getLast? ≠ some 92) (s : Search) :
    visit serial access v s log = (.ok (false, s), log) := by
  unfold visit
  rw [if_pos hname]
  rfl

theorem visit_closed {v : Volume} (hname : v.name.getLast? = some 92)
    (hopen : v.handle access = none) (s : Search) :
    visit serial access v s log =
      (.ok (false, s), log ++ [.openVolume v.name access none]) := by
  unfold visit
  rw [if_neg (not_not.mpr hname), hopen, call_bind]
  rfl

/-- A volume that was opened is asked for its serial. -/
theorem visit_opened {v : Volume} {volume : Handle} (hname : v.name.getLast? = some 92)
    (hopen : v.handle access = some volume) (s : Search) :
    visit serial access v s log =
      (if belongs serial v.reply then
        match s.out with
        | some other => do
          call (.closeHandle volume)
          call (.closeHandle other)
          pure (true, { s with out := none, error := Code.dupName })
        | none => pure (false, ⟨some volume, v.name, 0⟩)
      else do
        call (.closeHandle volume)
        pure (false, s))
      (log ++ [SysCall.openVolume v.name access (some volume),
        SysCall.queryProperty volume v.reply]) := by
  unfold visit
  rw [if_neg (not_not.mpr hname), hopen, call_bind]
  dsimp only
  rw [call_bind, List.append_assoc]
  rfl

/-- A round passes a volume over, takes it for the first, or gives up on a second. -/
theorem visit_cases (v : Volume) (s : Search) : ∃ new, SysCall.findClose ∉ new ∧
    ((¬ Mine serial access v ∧ visit serial access v s log = (.ok (false, s), log ++ new)) ∨
      (∃ h, Mine serial access v ∧ v.handle access = some h ∧ s.out = none ∧
        visit serial access v s log = (.ok (false, ⟨some h, v.name, 0⟩), log ++ new)) ∨
      (Mine serial access v ∧ s.out ≠ none ∧
        visit serial access v s log = (.ok (true, { s with out := none, error := Code.dupName }),
          log ++ new))) := by
  by_cases hname : v.name.getLast? = some 92
  case neg =>
    exact ⟨[], nofun,
      .inl ⟨fun h => hname h.1, by rw [visit_unnamed hname, List.append_nil]⟩⟩
  cases hopen : v.handle access with
  | none =>
    refine ⟨[.openVolume v.name access none], by simp,
      .inl ⟨fun h => ?_, visit_closed hname hopen s⟩⟩
    have := h.2.1
    rw [hopen] at this
    cases this
  | some volume =>
    rw [visit_opened hname hopen]
    by_cases hbelongs : belongs serial v.reply = true
    · have hmine : Mine serial access v := ⟨hname, by rw [hopen]; rfl, hbelongs⟩
      rw [if_pos hbelongs]
      cases hout : s.out with
      | none =>
        exact ⟨[.openVolume v.name access (some volume), .queryProperty volume v.reply], by simp,
          .inr (.inl ⟨volume, hmine, rfl, rfl, rfl⟩)⟩
      | some other =>
        refine ⟨[.openVolume v.name access (some volume), .queryProperty volume v.reply,
          .closeHandle volume, .closeHandle other], by simp, .inr (.inr ⟨hmine, nofun, ?_⟩)⟩
        dsimp only
        rw [call_bind, call_bind, Run.pure_run, List.append_assoc, List.append_assoc]
        rfl
    · rw [if_neg hbelongs, call_bind, Run.pure_run, List.append_assoc]
      exact ⟨[.openVolume v.name access (some volume), .queryProperty volume v.reply,
        .closeHandle volume], by simp, .inl ⟨fun h => hbelongs h.2.2, rfl⟩⟩

/-- One more volume, seen from the answer so far. -/
theorem visit_settles {mine : List Volume} {s : Search} (v : Volume) (hs : Settles access mine s)
    (hone : mine.length ≤ 1) :
    ∃ new last s', SysCall.findClose ∉ new ∧
      visit serial access v s log = (.ok (last, s'), log ++ new) ∧
      Settles access (mine ++ [v].filter (Mine serial access)) s' ∧
      (last = true ↔ 1 < (mine ++ [v].filter (Mine serial access)).length) := by
  obtain ⟨new, hnew, ⟨hnot, hrun⟩ | ⟨h, hmine, hopen, hout, hrun⟩ | ⟨hmine, hout, hrun⟩⟩ :=
    @visit_cases serial access log v s
  · refine ⟨new, false, s, hnew, hrun, ?_⟩
    rw [List.filter_cons_of_neg (by simpa using hnot), List.filter_nil, List.append_nil]
    exact ⟨hs, iff_of_false nofun (by omega)⟩
  · refine ⟨new, false, _, hnew, hrun, ?_⟩
    rw [List.filter_cons_of_pos (by simpa using hmine), List.filter_nil]
    match mine, hs with
    | [], _ => exact ⟨⟨h, hopen, rfl⟩, iff_of_false nofun (by simp)⟩
    | [u], hs =>
      obtain ⟨h', -, rfl⟩ := hs
      cases hout
    | _ :: _ :: _, _ => simp at hone
  · refine ⟨new, true, _, hnew, hrun, ?_⟩
    rw [List.filter_cons_of_pos (by simpa using hmine), List.filter_nil]
    match mine, hs with
    | [], hs => exact absurd hs.1 hout
    | [u], _ => exact ⟨⟨rfl, rfl⟩, iff_of_true rfl (by simp)⟩
    | _ :: _ :: _, _ => simp at hone

/-- Two are enough: what comes after the second does not change the answer. -/
theorem settles_append {mine : List Volume} {s : Search} (hs : Settles access mine s)
    (htwo : 1 < mine.length) (more : List Volume) : Settles access (mine ++ more) s := by
  match mine, hs with
  | [], _ => simp at htwo
  | [u], _ => simp at htwo
  | _ :: _ :: _, hs => exact hs

theorem search_settles {mine : List Volume} {s : Search} (rest : List Volume) (v : Volume)
    (hs : Settles access mine s) (hone : mine.length ≤ 1) : ∃ new s', SysCall.findClose ∉ new ∧
      search serial access rest v s log = (.ok s', log ++ new) ∧
      Settles access (mine ++ (v :: rest).filter (Mine serial access)) s' := by
  induction rest generalizing v s mine log with
  | nil =>
    obtain ⟨new, last, s', hnew, hrun, hs', -⟩ := @visit_settles serial access log mine s v hs hone
    unfold search
    rw [Run.bind_run_of hrun]
    dsimp only
    split
    · exact ⟨new, s', hnew, rfl, hs'⟩
    · exact ⟨new ++ [.findNext none],
        s', by simp [hnew], by rw [call_bind, List.append_assoc]; rfl, hs'⟩
  | cons next rest ih =>
    obtain ⟨new, last, s', hnew, hrun, hs', hlast⟩ :=
      @visit_settles serial access log mine s v hs hone
    have hsplit : (v :: next :: rest).filter (Mine serial access) =
        [v].filter (Mine serial access) ++ (next :: rest).filter (Mine serial access) := by
      rw [← List.filter_append]
      rfl
    unfold search
    rw [Run.bind_run_of hrun, hsplit, ← List.append_assoc]
    dsimp only
    split
    · next hbreak => exact ⟨new, s', hnew, rfl, settles_append hs' (hlast.mp hbreak) _⟩
    · next hgo =>
      have hone' : (mine ++ [v].filter (Mine serial access)).length ≤ 1 := by
        have := mt hlast.mpr hgo
        omega
      obtain ⟨new', s'', hnew', hrun', hs''⟩ :=
        @ih (log ++ new ++ [.findNext (some next.name)]) _ s' next hs' hone'
      refine ⟨new ++ [.findNext (some next.name)] ++ new', s'', by simp [hnew, hnew'], ?_, hs''⟩
      rw [call_bind, hrun']
      simp only [List.append_assoc]

theorem findVolume_settles (v : Volume) (rest : List Volume) : ∃ body s, SysCall.findClose ∉ body ∧
    findVolume serial access v rest [] = (.ok s, .findFirst (.ok v.name) :: body ++ [.findClose]) ∧
    Settles access ((v :: rest).filter (Mine serial access)) s := by
  obtain ⟨new, s, hnew, hrun, hs⟩ := @search_settles serial access [.findFirst (.ok v.name)]
    [] ⟨none, [], Code.notReady⟩
    rest v ⟨rfl, rfl⟩ (Nat.zero_le _)
  refine ⟨new, s, hnew, ?_, hs⟩
  unfold findVolume
  rw [call_bind, List.nil_append, Run.bind_run_of hrun, call_bind]
  rfl

/-- A search that found nothing says why. -/
theorem error_ne_of_findVolume {v : Volume} {rest : List Volume} {s : Search} {calls : List SysCall}
    (h : findVolume serial access v rest [] = (.ok s, calls)) (hout : s.out = none) :
    s.error ≠ 0 := by
  obtain ⟨body, s', -, hrun, hs⟩ := @findVolume_settles serial access v rest
  obtain rfl := Outcome.ok.inj (congrArg Prod.fst (hrun.symm.trans h))
  generalize (v :: rest).filter (Mine serial access) = mine at hs
  match mine, hs with
  | [], hs =>
    rw [hs.2]
    decide
  | [u], hs =>
    obtain ⟨handle, -, rfl⟩ := hs
    cases hout
  | _ :: _ :: _, hs =>
    rw [hs.2]
    decide

end

/-! ## The shim looks its volume up so -/

/-- What `find_volume` hands on. -/
def Search.found (s : Search) : Setting.Found :=
  match s.out with
  | some h => .ok (h, s.root)
  | none => .error s.error

/-- The handles that the calls open are new at `t`, each newer than the one before, and none is
newer than `t'`. -/
inductive Fresh (t' : Nat) : (t : Nat) → List SysCall → Prop
  | nil {t : Nat} (h : t ≤ t') : Fresh t' t []
  | opened {t h : Nat} {name : Name} {access : Nat} {calls : List SysCall} (hnew : t < h)
    (hrest : Fresh t' h calls) :
    Fresh t' t (.openVolume name access (some h) :: calls)
  | other {t : Nat} {c : SysCall} {calls : List SysCall} (hc : ∀ h, opens h c = false)
    (hrest : Fresh t' t calls) :
    Fresh t' t (c :: calls)

theorem Fresh.mono {t t' u : Nat} {calls : List SysCall} (h : Fresh t' t calls) (hu : u ≤ t) :
    Fresh t' u calls := by
  induction h generalizing u with
  | nil h => exact .nil (hu.trans h)
  | opened hnew hrest => exact .opened (lt_of_le_of_lt hu hnew) hrest
  | other hc _ ih => exact .other hc (ih hu)

theorem Fresh.append {t t' t'' : Nat} {calls calls' : List SysCall} (h : Fresh t' t calls)
    (h' : Fresh t'' t' calls') :
    Fresh t'' t (calls ++ calls') := by
  induction h with
  | nil h => exact h'.mono h
  | opened hnew _ ih => exact .opened hnew ih
  | other hc _ ih => exact .other hc ih

theorem Fresh.le {t t' : Nat} {calls : List SysCall} (h : Fresh t' t calls) : t ≤ t' := by
  induction h with
  | nil h => exact h
  | opened hnew _ ih => exact (Nat.le_of_lt hnew).trans ih
  | other _ _ ih => exact ih

section
variable {S : Setting} {access : Nat} {α β : Type}

/-- Whatever the end of `m`, it has made the beginning of calls that are as `P` says of it; when it
returns it has made them all. -/
def Sees (m : Run World Empty α) (P : α → List SysCall → Prop) : Prop :=
  ∀ w, ∃ a new made, P a new ∧ made <+: new ∧
  (m w).2.calls = w.calls ++ made ∧ Fresh (m w).2.time w.time made ∧
  (m w).2.lockedVolume = w.lockedVolume ∧ ∀ x, (m w).1 = .ok x → x = a ∧ made = new

variable {P P' : α → List SysCall → Prop} {Q : β → List SysCall → Prop}

theorem sees_pure {a : α} (h : P a []) : Sees (pure a) P := fun w =>
  ⟨a, [], [], h, List.prefix_refl _, (List.append_nil _).symm, .nil le_rfl, rfl,
    fun _ hx => by cases hx; exact ⟨rfl, rfl⟩⟩

theorem sees_halt {a : α} {new : List SysCall} (h : P a new) : Sees (.lift .halt) P := fun _ =>
  ⟨a, new, [], h, List.nil_prefix, (List.append_nil _).symm, .nil le_rfl, rfl, nofun⟩

theorem Sees.mono {m : Run World Empty α} (hm : Sees m P) (h : ∀ a new, P a new → P' a new) :
    Sees m P' := by
  intro w
  obtain ⟨a, new, made, hP, hrest⟩ := hm w
  exact ⟨a, new, made, h a new hP, hrest⟩

theorem sees_bind {m : Run World Empty α} {f : α → Run World Empty β} (hm : Sees m P)
    (hf : ∀ a new, P a new → Sees (f a) fun b new' => Q b (new ++ new')) : Sees (m >>= f) Q := by
  intro w
  obtain ⟨a, new, made, hP, hmade, hcalls, hfresh, hlocked, hok⟩ := hm w
  by_cases ho : ∃ x, (m w).1 = .ok x
  · obtain ⟨x, ho⟩ := ho
    obtain ⟨rfl, rfl⟩ := hok x ho
    obtain ⟨b, new', made', hQ, hmade', hcalls', hfresh', hlocked', hok'⟩ := hf x made hP (m w).2
    rw [Run.bind_run_of (Prod.ext ho rfl : m w = (.ok x, (m w).2))]
    exact ⟨b, made ++ new', made ++ made', hQ, (List.prefix_append_right_inj made).mpr hmade',
      by rw [hcalls', hcalls, List.append_assoc], hfresh.append hfresh', hlocked'.trans hlocked,
      fun y hy => ⟨(hok' y hy).1, by rw [(hok' y hy).2]⟩⟩
  · -- what was not done is made up
    obtain ⟨b, new', -, hQ, -⟩ := hf a new hP w
    have hsame : ((m >>= f) w).2 = (m w).2 ∧ ∀ y, ((m >>= f) w).1 ≠ .ok y := by
      rw [Run.bind_run]
      rcases h : m w with ⟨x | _ | _ | _, w'⟩
      · exact absurd ⟨x, by rw [h]⟩ ho
      all_goals exact ⟨rfl, nofun⟩
    rw [hsame.1]
    exact ⟨b, new ++ new', made, hQ, hmade.trans (List.prefix_append new new'), hcalls,
      hfresh, hlocked,
      fun y hy => absurd hy (hsame.2 y)⟩

/-- A call that opens nothing older than itself. -/
theorem sees_ask {answer : Nat → α} {entry : α → SysCall}
    (hfresh : ∀ t u, u < t → Fresh t u [entry (answer t)])
    (h : ∀ t, P (answer t) [entry (answer t)]) : Sees (S.ask answer entry) P := by
  intro w
  obtain ⟨hcalls, hlocked, hle, hlt⟩ := S.tick_frame w
  by_cases ho : (S.tick w).1 = .ok ()
  · have hrun : S.ask answer entry w = (.ok (answer (S.tick w).2.time),
        { (S.tick w).2 with calls := (S.tick w).2.calls ++
          [entry (answer (S.tick w).2.time)] }) := by
      unfold Setting.ask
      rw [Run.bind_run_of (Prod.ext ho rfl : S.tick w = (.ok (), (S.tick w).2))]
      rfl
    rw [hrun]
    refine ⟨_, _, _, h (S.tick w).2.time,
      List.prefix_refl _, by rw [hcalls], hfresh _ _ (hlt () ho), hlocked, ?_⟩
    rintro x ⟨⟩
    exact ⟨rfl, rfl⟩
  · have hrun : (S.ask answer entry w).2 = (S.tick w).2 ∧
        ∀ x, (S.ask answer entry w).1 ≠ .ok x := by
      unfold Setting.ask
      rw [Run.bind_run]
      rcases htick : S.tick w with ⟨_ | _ | _ | _, w'⟩
      · exact absurd (by rw [htick]) ho
      all_goals exact ⟨rfl, nofun⟩
    rw [hrun.1]
    exact ⟨_, _, [], h 0, List.nil_prefix, by rw [hcalls, List.append_nil], .nil hle, hlocked,
      fun x hx => absurd hx (hrun.2 x)⟩

theorem sees_call {answer : Nat → α} {entry : α → SysCall} {f : α → Run World Empty β}
    (hentry : ∀ a h, opens h (entry a) = false)
    (hf : ∀ a, Sees (f a) fun b new => Q b (entry a :: new)) :
    Sees (S.ask answer entry >>= f) Q :=
  sees_bind (P := fun a new => new = [entry a])
    (sees_ask (fun _ _ h => .other (hentry _) (.nil h.le)) fun _ => rfl)
    fun a new hnew => by subst hnew; exact hf a

theorem sees_close {h : Handle} {f : Unit → Run World Empty β}
    (hf : Sees (f ()) fun b new => Q b (.closeHandle h :: new)) :
    Sees (S.closeHandle h >>= f) Q := sees_call (fun _ _ => rfl) fun _ => hf

theorem sees_open {name : Name} {f : Option Handle → Run World Empty β}
    (hf : ∀ r, Sees (f r) fun b new => Q b (.openVolume name access r :: new)) :
    Sees (S.ask (fun now => if S.os.openVolume now name access then some now else none)
      (.openVolume name access) >>= f) Q := by
  refine sees_bind (P := fun r new => new = [.openVolume name access r])
    (sees_ask (fun t u h => ?_) fun _ => rfl) fun r new hnew => by subst hnew; exact hf r
  split
  · exact .opened h (.nil le_rfl)
  · exact .other (fun _ => rfl) (.nil h.le)

theorem visitVolume_seen (name : Name) (s : Search) :
    Sees (S.visitVolume access name s.found) fun r new => ∃ v s',
    v.name = name ∧ (∀ log, visit S.serial access v s log = (.ok (r.1, s'), log ++ new)) ∧
    s'.found = r.2 := by
  unfold Setting.visitVolume
  split
  · next hname =>
    refine sees_pure ⟨⟨name, fun _ => none, none⟩, s, rfl, fun log => ?_, rfl⟩
    rw [visit_unnamed hname, List.append_nil]
  next hname =>
  have hlast : name.getLast? = some 92 := not_not.mp hname
  refine sees_open fun r => ?_
  cases r with
  | none =>
    exact sees_pure ⟨⟨name, fun _ => none, none⟩, s, rfl, fun log => visit_closed hlast rfl s, rfl⟩
  | some volume =>
    refine sees_call (fun _ _ => rfl) fun reply => ?_
    rw [← belongs_setting]
    have hvisit := fun log => @visit_opened S.serial access log
      ⟨name, fun _ => some volume, reply⟩ volume hlast rfl s
    split
    · next hbelongs =>
      cases hout : s.out with
      | some other =>
        simp only [Search.found, hout]
        refine sees_close (sees_close (sees_pure ⟨⟨name, fun _ => some volume, reply⟩,
          { s with out := none, error := Code.dupName }, rfl, fun log => ?_, rfl⟩))
        rw [hvisit, if_pos hbelongs, hout]
        dsimp only
        rw [call_bind, call_bind, Run.pure_run, List.append_assoc, List.append_assoc]
        rfl
      | none =>
        simp only [Search.found, hout]
        refine sees_pure ⟨⟨name, fun _ => some volume, reply⟩, ⟨some volume, name, 0⟩, rfl,
          fun log => ?_, rfl⟩
        rw [hvisit, if_pos hbelongs, hout]
        rfl
    · next hbelongs =>
      refine sees_close (sees_pure ⟨⟨name, fun _ => some volume, reply⟩, s, rfl,
        fun log => ?_, rfl⟩)
      rw [hvisit, if_neg hbelongs, call_bind, Run.pure_run, List.append_assoc]
      rfl

/-- A search that ends with a volume that does not open. -/
theorem search_last (serial : Bytes) (name : Name) (s : Search) : ∃ new, ∀ log,
    search serial access [] ⟨name, fun _ => none, none⟩ s log = (.ok s, log ++ new) := by
  have hvisit : ∃ new, ∀ log, visit serial access ⟨name, fun _ => none, none⟩ s log =
      (.ok (false, s), log ++ new) := by
    unfold visit
    by_cases hname : name.getLast? = some 92
    · exact ⟨[.openVolume name access none], fun log => by rw [if_neg (not_not.mpr hname)]; rfl⟩
    · exact ⟨[], fun log => by rw [if_pos hname, List.append_nil]; rfl⟩
  obtain ⟨new, hrun⟩ := hvisit
  refine ⟨new ++ [.findNext none], fun log => ?_⟩
  unfold search
  rw [Run.bind_run_of (hrun log), ← List.append_assoc]
  rfl

theorem searchVolumes_seen (fuel : Nat) (name : Name) (s : Search) :
    Sees (S.searchVolumes access fuel name s.found) fun found new => ∃ rest v s', v.name = name ∧
      (∀ log, search S.serial access rest v s log = (.ok s', log ++ new)) ∧ s'.found = found := by
  induction fuel generalizing name s with
  | zero =>
    -- the last volume might be one that cannot be opened
    obtain ⟨new, hrun⟩ := search_last S.serial name s
    exact sees_halt ⟨[], _, s, rfl, hrun, rfl⟩
  | succ fuel ih =>
    unfold Setting.searchVolumes
    refine sees_bind (visitVolume_seen name s) fun r new hvisit => ?_
    obtain ⟨last, found⟩ := r
    obtain ⟨v, s₁, hname, hrun, rfl⟩ := hvisit
    dsimp only
    split
    · next hlast =>
      refine sees_pure ⟨[], v, s₁, hname, fun log => ?_, rfl⟩
      unfold search
      rw [Run.bind_run_of (hrun log), List.append_nil]
      dsimp only
      rw [if_pos hlast]
      rfl
    · next hlast =>
      refine sees_call (fun _ _ => rfl) fun next => ?_
      cases next with
      | none =>
        refine sees_pure ⟨[], v, s₁, hname, fun log => ?_, rfl⟩
        unfold search
        rw [Run.bind_run_of (hrun log)]
        dsimp only
        rw [if_neg hlast, call_bind, Run.pure_run, List.append_assoc]
      | some name' =>
        refine (ih name' s₁).mono ?_
        rintro found new' ⟨rest, v', s', rfl, hrun', hfound⟩
        refine ⟨v' :: rest, v, s', hname, fun log => ?_, hfound⟩
        unfold search
        rw [Run.bind_run_of (hrun log)]
        dsimp only
        rw [if_neg hlast, call_bind, hrun']
        simp only [List.append_assoc, List.cons_append, List.nil_append]

/-- **The shim, between the steps of the system.**  A lookup is the lookup over the volumes that it
saw, call by call, or, when the machine stops inside it, the beginning of one. -/
theorem findVolume_seen : Sees (S.findVolume access) fun found new =>
    (∃ e, found = .error e.code ∧ new = [.findFirst (.error e)]) ∨
      ∃ v rest s, findVolume S.serial access v rest [] = (.ok s, new) ∧ s.found = found := by
  unfold Setting.findVolume
  refine sees_call (fun _ _ => rfl) fun first => ?_
  cases first with
  | error e => exact sees_pure (.inl ⟨e, rfl, rfl⟩)
  | ok name =>
    refine sees_bind (searchVolumes_seen S.fuel name ⟨none, [], Code.notReady⟩) fun found new
      hsearch => ?_
    obtain ⟨rest, v, s, rfl, hrun, hfound⟩ := hsearch
    refine sees_call (fun _ _ => rfl) fun _ => sees_pure (.inr ⟨v, rest, s, ?_, hfound⟩)
    unfold findVolume
    rw [call_bind, List.nil_append, Run.bind_run_of (hrun _), call_bind]
    rfl

end

/-! ## The lookup -/

theorem Settles.spec {access : Nat} {mine : List Volume} {s : Search} (h : Settles access mine s) :
    (s.error = 0 ↔ mine.length = 1) ∧ (s.error = Code.dupName ↔ 2 ≤ mine.length) ∧
    (s.error = Code.notReady ↔ mine = []) ∧
    (∀ u, mine = [u] → ∃ h, u.handle access = some h ∧ s.out = some h ∧ s.root = u.name) ∧
    (s.error ≠ 0 → s.out = none) := by
  match mine, h with
  | [], h =>
    rw [h.2]
    simp [Code.notReady, Code.dupName, h.1]
  | [u], h =>
    obtain ⟨handle, hopen, rfl⟩ := h
    refine ⟨by simp, by simp [Code.dupName], by simp [Code.notReady], ?_, fun h => absurd rfl h⟩
    rintro _ ⟨⟩
    exact ⟨handle, hopen, rfl, rfl⟩
  | _ :: _ :: _, h =>
    rw [h.2]
    simp [Code.notReady, Code.dupName, h.1]

/-- **Volume lookup is unambiguous.**  Success is exactly one volume of the
session, and yields it; two or none yield nothing.  Every handle that was opened
and is not yielded was closed, each once and while it was open, and so was the
search.  A volume is of the session when what the query returned has the whole
serial and a zero behind it, where it says, and only then; and nothing else of
the buffer is ever read. -/
theorem findVolume_unambiguous (g : Guid) (access : Nat) (v : Volume) (rest : List Volume) :
    (∃ s calls body, findVolume g.serial access v rest [] = (.ok s, calls) ∧
      (s.error = 0 ↔ ((v :: rest).filter (Mine g.serial access)).length = 1) ∧
      (s.error = Code.dupName ↔ 2 ≤ ((v :: rest).filter (Mine g.serial access)).length) ∧
      (s.error = Code.notReady ↔ (v :: rest).filter (Mine g.serial access) = []) ∧
      (∀ u, (v :: rest).filter (Mine g.serial access) = [u] →
        ∃ h, u.handle access = some h ∧ s.out = some h ∧ s.root = u.name) ∧
      (s.error ≠ 0 → s.out = none) ∧
      post Held.step ⟨[], false⟩ calls = some ⟨s.out.toList, false⟩ ∧
      (∀ h, calls.countP (opens h) = calls.countP (closes h) + if s.out = some h then 1 else 0) ∧
      calls = .findFirst (.ok v.name) :: body ++ [.findClose] ∧ SysCall.findClose ∉ body) ∧
    ∀ reply, (belongs g.serial reply = true ↔ Names g.serial reply) ∧
      ∀ q ∈ (belongsToSession g.serial reply []).2, ∃ n bytes, reply = some (n, bytes) ∧ q < n := by
  refine ⟨?_, fun reply => ⟨belongs_iff g.serial_length g.serial_ne, ?_⟩⟩
  · obtain ⟨body, s, hbody, hrun, hs⟩ := @findVolume_settles g.serial access v rest
    obtain ⟨hone, htwo, hzero, hfound, hnone⟩ := hs.spec
    obtain ⟨new, L, hnew, hpost, hL⟩ :=
      @findVolume_accounts g.serial access v rest [] ⟨[], false⟩ rfl
    rw [hrun] at hnew hL
    have hheld : L = ⟨s.out.toList, false⟩ := hL s rfl
    have hcalls : new = .findFirst (.ok v.name) :: body ++ [.findClose] := hnew.symm
    rw [hheld, hcalls] at hpost
    refine ⟨s, _, body, hrun, hone, htwo, hzero, hfound, hnone, hpost, fun h => ?_, rfl, hbody⟩
    have hcount := opened_eq hpost h
    rw [List.count_nil, Nat.zero_add] at hcount
    rw [hcount]
    cases s.out with
    | none => simp
    | some h' => simp [List.count_cons]
  · obtain ⟨new, hrun, hnew⟩ := @belongsToSession_run [] g.serial reply
    rw [hrun]
    exact hnew

end Lookup

end Winluks
