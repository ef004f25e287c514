import Winluks.Plaintext

/-!
# What a crash leaves behind

A crash keeps, at every position, the durable byte or one written since the last
sync.  A session can be cut at any call, so `run_crash` speaks about the end of
every run: whatever the crash keeps decrypts to the acknowledged array, except
in the range of the one write that reached the file and was not acknowledged.
-/

namespace Winluks

open Lib

/-- A mixture of the durable content and the bytes that are not synced. -/
def File.Crash (f : File) (c : Store) : Prop := ∀ p, c p = f.durable p ∨ (p, c p) ∈ f.unsynced

theorem crash_durable (f : File) : f.Crash f.durable := fun _ => Or.inl rfl

/-- After a sync there is nothing to lose. -/
theorem eq_durable_of_crash {f : File} {c : Store} (h : f.Crash c) (hu : f.unsynced = []) :
    c = f.durable := by
  funext p
  rcases h p with hp | hp
  · exact hp
  · rw [hu] at hp
    cases hp

namespace Event

/-- A write that reached the file and was not acknowledged. -/
def Torn (e : Event) : Prop := (∃ off bytes, e.op = .write off bytes) ∧ e.calls ≠ [] ∧
  ∀ b, e.outcome ≠ .ok b

/-- The request asks to write the plaintext byte at `q`. -/
def Covers (e : Event) (q : Nat) : Prop :=
  ∃ off bytes, e.op = .write off bytes ∧ off ≤ q ∧ q < off + bytes.length

/-- A write of at least one byte that was acknowledged. -/
def Acked (e : Event) : Prop :=
  (∃ off bytes, e.op = .write off bytes ∧ bytes ≠ []) ∧ ∃ b, e.outcome = .ok b

theorem not_torn_of_no_calls {e : Event} (h : e.calls = []) : ¬ e.Torn := fun ht => ht.2.1 h

theorem apply_of_not_write {P : Store} {e : Event} (h : ∀ off bytes, e.op ≠ .write off bytes) :
    e.apply P = P := by
  unfold apply
  split
  · next hop _ => exact absurd hop (h _ _)
  · rfl

theorem apply_of_not_covers {P : Store} {e : Event} {q : Nat} (h : ¬ e.Covers q) :
    e.apply P q = P q := by
  by_cases hwrite : ∃ off bytes, e.op = .write off bytes
  · obtain ⟨off, bytes, hop⟩ := hwrite
    by_cases hok : ∃ b, e.outcome = .ok b
    · obtain ⟨b, ho⟩ := hok
      simp only [apply, hop, ho]
      exact overlay_of_not_mem _ _ _ fun hq => h ⟨off, bytes, hop, hq⟩
    · rw [apply_of_not_ok fun b ho => hok ⟨b, ho⟩]
  · rw [apply_of_not_write fun off bytes hop => hwrite ⟨off, bytes, hop⟩]

theorem foldl_apply {es : List Event} {q : Nat} (h : ∀ e ∈ es, ¬ e.Covers q) {P : Store} :
    es.foldl apply P q = P q := by
  induction es generalizing P with
  | nil => rfl
  | cons e es ih =>
    rw [List.foldl_cons, ih fun x hx => h x (List.mem_cons_of_mem e hx)]
    exact apply_of_not_covers (h e List.mem_cons_self)

end Event

namespace ValidatedVolume

variable {prim : Primitives} {ext : Parsers} {v : ValidatedVolume} {s s' : Io} {e : Event}
    {past : List Event}

/-- Past and state of a writable session, as far as a crash is concerned.  `P` is the array at its
start. -/
structure Durable (prim : Primitives) (v : ValidatedVolume) (P : Store) (past : List Event)
    (s : Io) : Prop where
  crash : ∀ c, s.disk.file.Crash c → ∀ q, (∀ x ∈ past, x.Torn → ¬ x.Covers q) →
    v.volume.plain prim c q = past.foldl Event.apply P q
  synced : (∀ x ∈ past, ¬ x.Torn) → s.disk.file.durable = s.disk.file.data ∧
    s.disk.file.unsynced = []
  latched : (∃ x ∈ past, x.Torn) → (s.faulted = true ∨ s.poisoned = true) ∨
    ∃ x ∈ past, x.outcome = .halt
  single : past.Pairwise fun x y => x.Torn → y.calls = []
  acked : ∀ x ∈ past, x.Acked → ∃ pre, x.calls = pre ++ [.sync (.ok ())]

/-- What a request does to a synced file.  The array it leaves is `e.apply`; a torn write
endangers its own range only. -/
structure Moves (prim : Primitives) (v : ValidatedVolume) (s : Io) (e : Event) (s' : Io) :
    Prop where
  crash : ∀ c, s'.disk.file.Crash c → ∀ q, (e.Torn → ¬ e.Covers q) →
    v.volume.plain prim c q = e.apply (v.volume.plain prim s.disk.file.data) q
  synced : ¬ e.Torn → s'.disk.file.durable = s'.disk.file.data ∧ s'.disk.file.unsynced = []
  latched : e.Torn → (s'.faulted = true ∨ s'.poisoned = true) ∨ e.outcome = .halt
  acked : e.Acked → ∃ pre, e.calls = pre ++ [.sync (.ok ())]

section
variable (hs : s.disk.file.durable = s.disk.file.data ∧ s.disk.file.unsynced = [])
include hs

/-- A request that leaves the file and the array alone. -/
theorem moves_still (hdisk : s'.disk.file = s.disk.file) (htorn : ¬ e.Torn) (hacked : ¬ e.Acked)
    (happly : ∀ P, e.apply P = P) : v.Moves prim s e s' where
  crash c hc q _ := by
    rw [hdisk] at hc
    rw [happly, eq_durable_of_crash hc hs.2, hs.1]
  synced _ := by rw [hdisk]; exact hs
  latched h := absurd h htorn
  acked h := absurd h hacked

/-- A write of whole sectors that was cut leaves every other sector as it was. -/
theorem crash_torn {off : Nat} {bytes : Bytes} (hacc : v.Accepts (.write off bytes))
    (hdurable : s'.disk.file.durable = s.disk.file.durable)
    (hunsynced : ∀ x ∈ s'.disk.file.unsynced, x ∈ s.disk.file.unsynced ∨
      v.Writes (.write off bytes) x.1)
    {c : Store} (hc : s'.disk.file.Crash c) {q : Nat} (hq : ¬ (off ≤ q ∧ q < off + bytes.length)) :
    v.volume.plain prim c q = v.volume.plain prim s.disk.file.data q := by
  obtain ⟨-, -, -, hoff, hlen⟩ := hacc
  refine UnlockedVolume.plain_congr fun p h1 h2 => ?_
  rcases hc p with hp | hp
  · rw [hp, hdurable, hs.1]
  · rcases hunsynced _ hp with hp | ⟨h3, h4⟩
    · rw [hs.2] at hp
      cases hp
    · -- the sector of `q` and the written sectors do not meet
      dsimp only at h3 h4
      omega

/-- A request that was carried out: its effect is the event's, and a write ended in a sync. -/
theorem moves_of_ok {op : VolOp} {b : Bytes} {calls : List Call} (hx : XtsInverts prim)
    (hmode : v.mode = .readWrite) (p : v.Performed prim s op (.ok b) s' calls) :
    v.Moves prim s ⟨op, .ok b, calls⟩ s' := by
  have hnt : ¬ (⟨op, .ok b, calls⟩ : Event).Torn := fun ht => ht.2.2 b rfl
  have heff := p.effect b rfl
  cases op with
  | read off len =>
    refine moves_still hs heff.1 hnt ?_ fun P => rfl
    rintro ⟨⟨off, bytes, hop, -⟩, -⟩
    cases hop
  | write off bytes =>
    obtain ⟨⟨enc, henc, hdata⟩, hdurable, hunsynced⟩ := heff
    refine ⟨fun c hc q _ => ?_, fun _ => ⟨hdurable, hunsynced⟩, fun ht => absurd ht hnt,
      fun _ => p.synced hmode (fun _ _ => nofun) b rfl⟩
    have hoff : off / 512 * 512 = off := by
      have := p.accepts.2.2.2.1
      omega
    have hplain := UnlockedVolume.plain_overlay (f := s.disk.file.data) hx henc
    rw [hoff, ← hdata] at hplain
    rw [eq_durable_of_crash hc hunsynced, hdurable, hplain]
    rfl
  | flush =>
    obtain ⟨hdata, hflush⟩ := heff
    obtain ⟨hdurable, hunsynced⟩ := hflush hmode
    refine ⟨fun c hc q _ => ?_, fun _ => ⟨hdurable, hunsynced⟩, fun ht => absurd ht hnt, ?_⟩
    · rw [eq_durable_of_crash hc hunsynced, hdurable, hdata]
      rfl
    · rintro ⟨⟨off, bytes, hop, -⟩, -⟩
      cases hop
  | markFaulted => exact heff.elim

/-- A request that was cut or failed: a write is torn, a flush had nothing to save. -/
theorem moves_of_unfinished {op : VolOp} {o : Outcome Error Bytes} {calls : List Call}
    (p : v.Performed prim s op o s' calls) (hno : ∀ b, o ≠ .ok b) :
    v.Moves prim s ⟨op, o, calls⟩ s' := by
  have hnacked : ¬ (⟨op, o, calls⟩ : Event).Acked := fun ⟨_, b, hb⟩ => hno b hb
  rcases p.unfinished hno with ⟨hfile, hop⟩ | ⟨hne, hl⟩
  · refine moves_still hs hfile ?_ hnacked fun P => Event.apply_of_not_ok hno
    rintro ⟨⟨off, bytes, h⟩, -⟩
    exact hop off bytes h
  · obtain ⟨hdurable, hunsynced⟩ := p.torn hno
    by_cases hw : ∃ off bytes, op = .write off bytes
    · obtain ⟨off, bytes, rfl⟩ := hw
      have ht : (⟨.write off bytes, o, calls⟩ : Event).Torn := ⟨⟨off, bytes, rfl⟩, hne, hno⟩
      refine ⟨fun c hc q hq => ?_, fun h => absurd ht h, fun _ => or_assoc.mpr hl,
        fun ha => absurd ha hnacked⟩
      rw [Event.apply_of_not_ok hno]
      exact crash_torn hs p.accepts hdurable hunsynced hc fun h => hq ht ⟨off, bytes, rfl, h⟩
    · -- a flush that failed: nothing was waiting for it
      have hnw : ∀ p, ¬ v.Writes op p := fun p hp => by
        cases op with
        | write off bytes => exact hw ⟨off, bytes, rfl⟩
        | _ => exact hp
      have hun : s'.disk.file.unsynced = [] := List.eq_nil_iff_forall_not_mem.mpr fun x hx => by
        rcases hunsynced x hx with hx | hx
        · rw [hs.2] at hx
          cases hx
        · exact hnw _ hx
      have hdata : s'.disk.file.data = s.disk.file.data := funext fun q => p.data q (hnw q)
      refine ⟨fun c hc q _ => ?_, fun _ => ⟨by rw [hdurable, hs.1, hdata], hun⟩, ?_,
        fun ha => absurd ha hnacked⟩
      · rw [Event.apply_of_not_ok hno, eq_durable_of_crash hc hun, hdurable, hs.1]
      · rintro ⟨h, -⟩
        exact absurd h hw

theorem moves_step (hx : XtsInverts prim) (hmode : v.mode = .readWrite)
    (h : v.Step prim s e.op e.outcome s') (hcalls : s'.disk.calls = s.disk.calls ++ e.calls) :
    v.Moves prim s e s' := by
  have hnone : s'.disk = s.disk → ¬ e.Torn := fun hd => by
    rw [hd] at hcalls
    exact Event.not_torn_of_no_calls (List.append_right_eq_self.mp hcalls.symm)
  obtain ⟨op, outcome, calls⟩ := e
  cases h with
  | @refused _ err _ disk =>
    have hno : ∀ b, (Outcome.err err : Outcome Error Bytes) ≠ .ok b := fun _ => nofun
    refine moves_still hs (by rw [disk]) (hnone disk) ?_ fun P => Event.apply_of_not_ok hno
    rintro ⟨-, b, hb⟩
    exact hno b hb
  | empty ready nothing =>
    refine moves_still hs rfl (hnone rfl) ?_ fun P => ?_
    · rintro ⟨⟨off, bytes, hop, hne⟩, -⟩
      rcases nothing with ⟨off', rfl⟩ | ⟨off', rfl⟩
      · cases hop
      · cases hop
        exact hne rfl
    · rcases nothing with ⟨off', rfl⟩ | ⟨off', rfl⟩
      · rfl
      · exact overlay_nil P off'
  | marked =>
    refine moves_still hs rfl (hnone rfl) ?_ fun P => rfl
    rintro ⟨⟨off, bytes, hop, -⟩, -⟩
    cases hop
  | performed p =>
    have hnew := List.append_cancel_left (p.calls.symm.trans hcalls)
    rw [hnew] at p
    by_cases hok : ∃ b, outcome = .ok b
    · obtain ⟨b, rfl⟩ := hok
      exact moves_of_ok hs hx hmode p
    · exact moves_of_unfinished hs p fun b hb => hok ⟨b, hb⟩

end

/-- After a torn write the session is latched: the next request does not reach the file. -/
theorem durable_latched {P : Store} (h : v.Durable prim P past s)
    (hpast : ∀ x ∈ past, x.outcome ≠ .halt) (hs : v.Step prim s e.op e.outcome s')
    (hcalls : s'.disk.calls = s.disk.calls ++ e.calls)
    (htorn : ∃ x ∈ past, x.Torn) : v.Durable prim P (past ++ [e]) s' := by
  have hold : ∀ x ∈ past, x ∈ past ++ [e] := fun x hx => List.mem_append_left _ hx
  have hl : s.faulted = true ∨ s.poisoned = true := by
    rcases h.latched htorn with hl | ⟨x, hx, hhalt⟩
    · exact hl
    · exact absurd hhalt (hpast x hx)
  obtain ⟨hl', hdisk, hnone, herr⟩ := step_latched hs hcalls hl
  have happly : ∀ P, e.apply P = P := fun P => by
    by_cases hop : e.op = .markFaulted
    · exact Event.apply_of_not_write fun _ _ => by rw [hop]; nofun
    · obtain ⟨err, he⟩ := herr hop
      exact Event.apply_of_not_ok fun b => by rw [he]; nofun
  have hnacked : ¬ e.Acked := by
    rintro ⟨⟨off, bytes, hop, -⟩, b, hb⟩
    obtain ⟨err, he⟩ := herr (by rw [hop]; nofun)
    rw [he] at hb
    cases hb
  obtain ⟨x, hx, ht⟩ := htorn
  constructor
  case crash =>
    intro c hc q hq
    rw [hdisk] at hc
    rw [List.foldl_append, List.foldl_cons, List.foldl_nil, happly]
    exact h.crash c hc q fun x hx => hq x (hold x hx)
  case synced => exact fun hall => absurd ht (hall x (hold x hx))
  case latched => exact fun _ => Or.inl hl'
  case single =>
    refine List.pairwise_append.mpr ⟨h.single, List.pairwise_singleton _ _, fun x _ y hy _ => ?_⟩
    obtain rfl := List.mem_singleton.mp hy
    exact hnone
  case acked =>
    exact List.forall_mem_append.mpr
      ⟨h.acked, List.forall_mem_singleton.mpr fun ha => absurd ha hnacked⟩

/-- While no write was torn, the array is what the events made of it, and one more event moves
it. -/
theorem durable_clean (hx : XtsInverts prim) (hmode : v.mode = .readWrite) {P : Store}
    (h : v.Durable prim P past s) (hs : v.Step prim s e.op e.outcome s')
    (hcalls : s'.disk.calls = s.disk.calls ++ e.calls)
    (hclean : ∀ x ∈ past, ¬ x.Torn) : v.Durable prim P (past ++ [e]) s' := by
  have hlast : e ∈ past ++ [e] := List.mem_append_right _ (List.mem_singleton_self e)
  obtain ⟨hdurable, hunsynced⟩ := h.synced hclean
  have harray : v.volume.plain prim s.disk.file.data = past.foldl Event.apply P := by
    funext q
    rw [← hdurable]
    exact h.crash _ (crash_durable _) q fun x hx ht => absurd ht (hclean x hx)
  have hm := moves_step ⟨hdurable, hunsynced⟩ hx hmode hs hcalls
  constructor
  case crash =>
    intro c hc q hq
    rw [List.foldl_append, List.foldl_cons, List.foldl_nil, ← harray]
    exact hm.crash c hc q (hq e hlast)
  case synced => exact fun hall => hm.synced (hall e hlast)
  case latched =>
    rintro ⟨x, hx, ht⟩
    rcases List.mem_append.mp hx with hx | hx
    · exact absurd ht (hclean x hx)
    · obtain rfl := List.mem_singleton.mp hx
      rcases hm.latched ht with hl | hl
      · exact Or.inl hl
      · exact Or.inr ⟨x, hlast, hl⟩
  case single =>
    refine List.pairwise_append.mpr ⟨h.single, List.pairwise_singleton _ _, fun x hx y _ ht => ?_⟩
    exact absurd ht (hclean x hx)
  case acked => exact List.forall_mem_append.mpr ⟨h.acked, List.forall_mem_singleton.mpr hm.acked⟩

theorem durable_step (hx : XtsInverts prim) (hmode : v.mode = .readWrite) {P : Store}
    (h : v.Durable prim P past s) (hpast : ∀ x ∈ past, x.outcome ≠ .halt)
    (hs : v.Step prim s e.op e.outcome s')
    (hcalls : s'.disk.calls = s.disk.calls ++ e.calls) : v.Durable prim P (past ++ [e]) s' := by
  by_cases htorn : ∃ x ∈ past, x.Torn
  · exact durable_latched h hpast hs hcalls htorn
  · exact durable_clean hx hmode h hs hcalls fun x hx ht => htorn ⟨x, hx, ht⟩

/-- **Acknowledged writes survive a crash.**  Cut a writable session anywhere, and let
the crash keep any mixture of durable and unsynced bytes.  At most one write of the
session reached the file without being acknowledged.  Outside its range, every byte
decrypts to the initial array with the acknowledged writes laid over it.  An
acknowledged write ends with a successful sync, and as long as there is no torn
write everything in the file is durable. -/
theorem run_crash (hx : XtsInverts prim) (hopen : Opened prim ext v s) (hmode : v.mode = .readWrite)
    (hsynced : s.disk.file.durable = s.disk.file.data ∧ s.disk.file.unsynced = [])
    (ops : List VolOp) :
    (∀ c, (v.run prim ops s).2.disk.file.Crash c →
      ∀ q, (∀ x ∈ (v.run prim ops s).1, x.Torn → ¬ x.Covers q) →
      v.volume.plain prim c q = (v.run prim ops s).1.foldl Event.apply
        (v.volume.plain prim s.disk.file.data) q) ∧
    (v.run prim ops s).1.Pairwise (fun x y => x.Torn → y.calls = []) ∧
    (∀ x ∈ (v.run prim ops s).1, x.Acked → ∃ pre, x.calls = pre ++ [.sync (.ok ())]) ∧
    ((∀ x ∈ (v.run prim ops s).1, ¬ x.Torn) →
      (v.run prim ops s).2.disk.file.durable = (v.run prim ops s).2.disk.file.data ∧
      (v.run prim ops s).2.disk.file.unsynced = []) := by
  have hstart : v.Durable prim (v.volume.plain prim s.disk.file.data) [] s := by
    refine ⟨fun c hc q _ => ?_, fun _ => hsynced, ?_, List.Pairwise.nil, nofun⟩
    · rw [eq_durable_of_crash hc hsynced.2, hsynced.1]
      rfl
    · rintro ⟨x, hx, -⟩
      cases hx
  have h := run_invariant hopen.fits (P := v.Durable prim (v.volume.plain prim s.disk.file.data))
    (fun _ _ _ _ h hpast hs hcalls => durable_step hx hmode h hpast hs hcalls) ops hopen.size hstart
  exact ⟨h.crash, h.single, h.acked, h.synced⟩

theorem run_crash_sample :
    ((Sample.volume .readWrite).run Sample.prim [.write 512 (zeros 512), .write 0 (zeros 512)]
    (Sample.io [.limit 1, .fail .other [7]])).1.Pairwise fun x y => x.Torn → y.calls = [] :=
  (run_crash Sample.xtsInverts (Sample.opened .readWrite [.limit 1, .fail .other [7]]) rfl
    ⟨rfl, rfl⟩ _).2.1

end ValidatedVolume

end Winluks
