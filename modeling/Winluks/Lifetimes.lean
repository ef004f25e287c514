import Winluks.Adapter
import Winluks.Crash

/-!
# One session after another

An image outlives its sessions.  A `Life` of it is one session, opened from what
the image holds, ended by a crash at any moment; the crash keeps any mixture of
durable and unsynced bytes.  A `History` is any number of lives.

`history_known` is what a user may rely on over all of it.  Outside the payload
nothing ever changes, so every keyslot opens as it did on the first day.  What is
known of the plaintext is known by the rule of `Event.learn`: a write that was
acknowledged fixes its range, one that reached the file and was not acknowledged
leaves its range open until it is written again.
-/

namespace Winluks

open Lib

/-- Where the encrypted sectors are. -/
def UnlockedVolume.payload (v : UnlockedVolume) : Region Nat := ⟨v.offset, v.offset + v.len⟩

/-- A file of `len` bytes that holds `f`, all of it durable. -/
def File.synced (len : Nat) (f : Store) : File := ⟨len, f, f, []⟩

/-! ## What a crash finds of the file -/

/-- Outside `W`, the file and all that a crash may keep of it are `f`. -/
structure File.Near (W : Nat → Prop) (f : Store) (F : File) : Prop where
  data : ∀ p, ¬ W p → F.data p = f p
  durable : ∀ p, ¬ W p → F.durable p = f p
  unsynced : ∀ e ∈ F.unsynced, W e.1

section
variable {W : Nat → Prop} {f : Store} {F : File}

theorem near_synced (h : F.durable = F.data ∧ F.unsynced = []) : F.Near W F.data where
  data _ _ := rfl
  durable p _ := by rw [h.1]
  unsynced := by simp [h.2]

theorem near_write {off : Nat} {bs : Bytes} (h : F.Near W f)
    (hW : ∀ p, off ≤ p → p < off + bs.length → W p) :
    (F.write off bs).Near W f where
  data p hp := (overlay_of_not_mem _ _ _ fun ⟨h1, h2⟩ => hp (hW p h1 h2)).trans (h.data p hp)
  durable := h.durable
  unsynced e he := by
    rcases List.mem_append.mp he with he | he
    · exact h.unsynced e he
    · obtain ⟨x, hx, rfl⟩ := List.mem_map.mp he
      have hlt := List.snd_lt_of_mem_zipIdx hx
      exact hW _ (by simp) (by simpa using hlt)

theorem near_sync (h : F.Near W f) : F.sync.Near W f where
  data := h.data
  durable := h.data
  unsynced := by simp [File.sync]

theorem crash_near (h : F.Near W f) {c : Store} (hc : F.Crash c) {p : Nat} (hp : ¬ W p) :
    c p = f p := by
  rcases hc p with h' | h'
  · exact h'.trans (h.durable p hp)
  · exact absurd (h.unsynced _ h') hp

end

/-! ## Outside the payload -/

namespace ValidatedVolume

variable {prim : Primitives} {ext : Parsers} {v : ValidatedVolume} {f : Store}
    {s s' : Io} {e : Event}

theorem write_of_writes {op : VolOp} {p : Nat} (hw : v.Writes op p) :
    ∃ off bytes, op = .write off bytes := by
  cases op with
  | write off bytes => exact ⟨off, bytes, rfl⟩
  | _ => exact hw.elim

/-- A write that is let through lies in the payload. -/
theorem payload_of_writes {op : VolOp} {p : Nat} (hacc : v.Accepts op) (hw : v.Writes op p) :
    v.volume.payload.Contains p := by
  obtain ⟨off, bytes, rfl⟩ := write_of_writes hw
  obtain ⟨-, -, hin, -⟩ := hacc
  obtain ⟨h1, h2⟩ := hw
  have hlen : v.len = v.volume.len := rfl
  constructor <;> dsimp only [UnlockedVolume.payload] <;> omega

/-- Outside the payload the file is `f`, in all that a crash may keep. -/
abbrev Outside (v : ValidatedVolume) (f : Store) (s : Io) : Prop :=
  s.disk.file.Near v.volume.payload.Contains f

theorem outside_synced {len : Nat} (h : s.disk.file = .synced len f) : v.Outside f s := by
  rw [Outside, h]
  exact @near_synced v.volume.payload.Contains (.synced len f) ⟨rfl, rfl⟩

theorem outside_of_file (h : v.Outside f s) (hfile : s'.disk.file = s.disk.file) :
    v.Outside f s' := by
  rwa [Outside, hfile]

theorem outside_step {o : Outcome Error Bytes} {op : VolOp} (h : v.Outside f s)
    (hs : v.Step prim s op o s') :
    v.Outside f s' := by
  cases hs with
  | refused disk => exact outside_of_file h (by rw [disk])
  | empty => exact h
  | marked => exact outside_of_file h rfl
  | performed p =>
    have hdata : ∀ q, ¬ v.volume.payload.Contains q → s'.disk.file.data q = f q := fun q hq =>
      (p.data q fun hw => hq (payload_of_writes p.accepts hw)).trans (h.data q hq)
    by_cases hok : ∃ b, o = .ok b
    · obtain ⟨b, rfl⟩ := hok
      have heff := p.effect b rfl
      have hsynced : s'.disk.file.durable = s'.disk.file.data ∧ s'.disk.file.unsynced = [] →
          v.Outside f s' := by
        rintro ⟨h1, h2⟩
        refine ⟨hdata, h1 ▸ hdata, ?_⟩
        rw [h2]
        exact fun x hx => absurd hx List.not_mem_nil
      cases op with
      | read off len => exact outside_of_file h heff.1
      | write off bytes => exact hsynced heff.2
      | flush =>
        cases hm : v.mode with
        | readOnly => exact outside_of_file h (p.still hm).1
        | readWrite => exact hsynced (heff.2 hm)
      | markFaulted => exact heff.elim
    · obtain ⟨h1, h2⟩ := p.torn fun b hb => hok ⟨b, hb⟩
      refine ⟨hdata, h1 ▸ h.durable, fun x hx => ?_⟩
      rcases h2 x hx with hx | hw
      · exact h.unsynced x hx
      · exact payload_of_writes p.accepts hw

theorem outside_run (hfits : v.volume.Fits) (hsize : s.disk.file.size = v.volume.image.len)
    (h : v.Outside f s) (ops : List VolOp) : v.Outside f (v.run prim ops s).2 :=
  run_invariant hfits (P := fun _ s => v.Outside f s) (fun _ _ _ _ h _ hs _ => outside_step h hs)
    ops hsize h

end ValidatedVolume

/-! ## What is known of the plaintext -/

namespace Event

/-- What is known of the array after a request: an acknowledged write fixes its range, and one that
reached the file without being acknowledged leaves it open. -/
def learn (K : Nat → Option UInt8) (e : Event) : Nat → Option UInt8 := fun q =>
  match e.op with
  | .write off bytes =>
    if off ≤ q ∧ q < off + bytes.length then
      match e.outcome with
      | .ok _ => some (bytes.getD (q - off) 0)
      | _ => if e.calls = [] then K q else none
    else K q
  | _ => K q

/-- All that is known is so. -/
def Knows (K : Nat → Option UInt8) (P : Store) : Prop := ∀ q b, K q = some b → P q = b

variable {K : Nat → Option UInt8} {P : Store} {e : Event} {es : List Event}

/-- The request is no write that reached the file. -/
def Idle (e : Event) : Prop := ((∃ off bytes, e.op = .write off bytes) → e.calls = []) ∧ ¬ e.Acked

theorem idle_still (h : e.Idle) : e.learn K = K ∧ e.apply P = P := by
  obtain ⟨hcalls, hacked⟩ := h
  unfold learn apply
  rcases e with ⟨op, o, calls⟩
  cases op with
  | write off bytes =>
    obtain rfl : calls = [] := hcalls ⟨off, bytes, rfl⟩
    rcases o with b | _ | _ | _ <;> dsimp only
    · by_cases hb : bytes = []
      · subst hb
        exact ⟨funext fun q => if_neg fun h => absurd h.2 (Nat.not_lt.mpr h.1), overlay_nil P off⟩
      · exact absurd ⟨⟨off, bytes, rfl, hb⟩, b, rfl⟩ hacked
    all_goals
      refine ⟨funext fun q => ?_, rfl⟩
      rw [if_pos rfl, ite_self]
  | _ => exact ⟨rfl, rfl⟩

theorem idle_fold (h : ∀ x ∈ es, x.Idle) : es.foldl learn K = K ∧ es.foldl apply P = P := by
  induction es with
  | nil => exact ⟨rfl, rfl⟩
  | cons x es ih =>
    obtain ⟨hx, hes⟩ := List.forall_mem_cons.mp h
    obtain ⟨h1, h2⟩ := idle_still (K := K) (P := P) hx
    rw [List.foldl_cons, List.foldl_cons, h1, h2]
    exact ih hes

/-- What is learnt from a torn write is known of the bytes beside it. -/
theorem learn_of_torn (ht : e.Torn) {q : Nat} {b : UInt8} (h : e.learn K q = some b) :
    ¬ e.Covers q ∧ K q = some b := by
  rcases e with ⟨op, o, calls⟩
  obtain ⟨⟨off, bytes, rfl⟩, hcalls, hno⟩ := ht
  unfold learn at h
  dsimp only at h
  by_cases hq : off ≤ q ∧ q < off + bytes.length
  · exfalso
    rw [if_pos hq] at h
    rcases o with x | _ | _ | _ <;> dsimp only at h
    · exact hno x rfl
    all_goals
      rw [if_neg hcalls] at h
      cases h
  · rw [if_neg hq] at h
    refine ⟨?_, h⟩
    rintro ⟨off', bytes', hop, h1, h2⟩
    cases hop
    exact hq ⟨h1, h2⟩

/-- Any other write is acknowledged, or has not happened. -/
theorem knows_learn (hK : Knows K P) (ht : ¬ e.Torn) : Knows (e.learn K) (e.apply P) := by
  intro q b h
  unfold learn at h
  unfold apply
  rcases e with ⟨op, o, calls⟩
  cases op with
  | write off bytes =>
    rcases o with x | _ | _ | _ <;> dsimp only at h ⊢
    · split at h
      · rw [overlay_of_mem _ _ _ ‹_›]
        exact Option.some.inj h
      · rw [overlay_of_not_mem _ _ _ ‹_›]
        exact hK q b h
    all_goals
      have hcalls : calls = [] := by
        by_contra hne
        exact ht ⟨⟨off, bytes, rfl⟩, hne, by rintro _ ⟨⟩⟩
      rw [if_pos hcalls] at h
      exact hK q b (by split at h <;> exact h)
  | _ => exact hK q b h

/-- **Learning from a session**, at most one write of which was torn. -/
theorem knows_fold (hK : Knows K P) (hsingle : es.Pairwise fun x y => x.Torn → y.calls = [])
    (hacked : ∀ x ∈ es, x.Acked → x.calls ≠ []) {q : Nat} {b : UInt8}
    (h : es.foldl learn K q = some b) :
    (∀ x ∈ es, x.Torn → ¬ x.Covers q) ∧ es.foldl apply P q = b := by
  induction es generalizing K P with
  | nil => exact ⟨by simp, hK q b h⟩
  | cons e es ih =>
    obtain ⟨hfirst, hsingle⟩ := List.pairwise_cons.mp hsingle
    obtain ⟨-, hacked⟩ := List.forall_mem_cons.mp hacked
    rw [List.foldl_cons] at h
    rw [List.foldl_cons, List.forall_mem_cons]
    by_cases ht : e.Torn
    · -- nothing after a torn write reaches the file
      have hcalls : ∀ x ∈ es, x.calls = [] := fun x hx => hfirst x hx ht
      obtain ⟨h1, h2⟩ := idle_fold (K := e.learn K) (P := e.apply P) fun x hx =>
        ⟨fun _ => hcalls x hx, fun ha => hacked x hx ha (hcalls x hx)⟩
      rw [h1] at h
      obtain ⟨hcover, hq⟩ := learn_of_torn ht h
      refine ⟨⟨fun _ => hcover, fun x hx hxt => absurd hxt (not_torn_of_no_calls (hcalls x hx))⟩,
        ?_⟩
      rw [h2, apply_of_not_ok ht.2.2]
      exact hK q b hq
    · obtain ⟨h1, h2⟩ := ih (knows_learn hK ht) hsingle hacked h
      exact ⟨⟨fun h => absurd h ht, h1⟩, h2⟩

end Event

namespace ValidatedVolume

variable {prim : Primitives} {ext : Parsers} {v : ValidatedVolume} {s : Io}

/-- A read-only session leaves the file as it found it, and none of its requests is a write that
reached it. -/
theorem still_run (hfits : v.volume.Fits) (hsize : s.disk.file.size = v.volume.image.len)
    (hmode : v.mode = .readOnly) (ops : List VolOp) :
    (v.run prim ops s).2.disk.file = s.disk.file ∧ ∀ x ∈ (v.run prim ops s).1, x.Idle := by
  refine run_invariant hfits (P := fun past s₁ => s₁.disk.file = s.disk.file ∧ ∀ x ∈ past, x.Idle)
    ?_ ops hsize ⟨rfl, by simp⟩
  rintro past s₁ ⟨op, o, calls⟩ s' ⟨hfile, hpast⟩ - hs hcalls
  have hnone : s'.disk = s₁.disk → calls = [] := fun hd => by simpa [hd] using hcalls
  refine ⟨?_, List.forall_mem_append.mpr ⟨hpast, List.forall_mem_singleton.mpr ?_⟩⟩
  · cases hs with
    | refused disk => rw [disk, hfile]
    | empty => exact hfile
    | marked => exact hfile
    | performed p => exact (p.still hmode).1.trans hfile
  · dsimp only at hs hcalls
    cases hs with
    | refused disk => exact ⟨fun _ => hnone disk, by rintro ⟨-, b, hb⟩; cases hb⟩
    | empty _ nothing =>
      refine ⟨fun _ => hnone rfl, ?_⟩
      rintro ⟨⟨off, bytes, hop, hne⟩, -⟩
      rcases nothing with ⟨_, h⟩ | ⟨_, h⟩ <;> rw [h] at hop <;> cases hop
      exact hne rfl
    | marked => exact ⟨fun _ => hnone rfl, by rintro ⟨⟨off, bytes, hop, -⟩, -⟩; cases hop⟩
    | performed p =>
      have hop : ∀ off bytes, op ≠ .write off bytes := by
        rintro off bytes rfl
        exact absurd (hmode.symm.trans p.accepts.1) (by simp)
      exact ⟨fun ⟨off, bytes, h⟩ => absurd h (hop off bytes),
        fun ⟨⟨off, bytes, h, _⟩, _⟩ => hop off bytes h⟩

/-- A session that starts synced has nothing to lose. -/
theorem durable_start (hsynced : s.disk.file.durable = s.disk.file.data ∧
    s.disk.file.unsynced = []) :
    v.Durable prim (v.volume.plain prim s.disk.file.data) [] s := by
  refine ⟨fun c hc q _ => ?_, fun _ => hsynced, ?_, List.Pairwise.nil, by simp⟩
  · rw [eq_durable_of_crash hc hsynced.2, hsynced.1]
    rfl
  · rintro ⟨x, hx, -⟩
    cases hx

/-- What a crash leaves of a writable session that started synced. -/
theorem durable_run (hx : XtsInverts prim) (hopen : Opened prim ext v s)
    (hmode : v.mode = .readWrite) (hsynced : s.disk.file.durable = s.disk.file.data ∧
      s.disk.file.unsynced = []) (ops : List VolOp) :
    v.Durable prim (v.volume.plain prim s.disk.file.data) (v.run prim ops s).1
      (v.run prim ops s).2 :=
  run_invariant hopen.fits (P := v.Durable prim (v.volume.plain prim s.disk.file.data))
    (fun _ _ _ _ h hpast hs hcalls => durable_step hx hmode h hpast hs hcalls) ops hopen.size
      (durable_start hsynced)

end ValidatedVolume

/-! ## Lives -/

variable (prim : Primitives) (ext : Parsers)

/-- A session with the key of `vol`, from an image that holds `f` to a crash that keeps `c`. -/
inductive Life (vol : UnlockedVolume) (f : Store) : List Event → Store → Prop
  | session {v : ValidatedVolume} {s : Io} {ops : List VolOp} {c : Store}
    (opened : Opened prim ext v s) (len : v.volume.image.len = vol.image.len)
    (key : v.volume.key = vol.key) (file : s.disk.file = .synced vol.image.len f)
    (crash : (v.run prim ops s).2.disk.file.Crash c) :
      Life vol f (v.run prim ops s).1 c

/-- Any number of lives of one image. -/
inductive History (vol : UnlockedVolume) (f : Store) : List Event → Store → Prop
  | fresh : History vol f [] f
  | life {past es : List Event} {g c : Store} (before : History vol f past g)
    (next : Life prim ext vol g es c) :
      History vol f (past ++ es) c

variable {prim ext} {vol : UnlockedVolume} {f g c : Store} {es : List Event} {m : Metadata}

theorem UnlockedVolume.plain_eq {v v' : UnlockedVolume} (hoff : v.offset = v'.offset)
    (hkey : v.key = v'.key) (f : Store) :
    v.plain prim f = v'.plain prim f := by
  unfold UnlockedVolume.plain
  rw [hoff, hkey]

/-- **One life.**  It stays in the payload, and what is known afterwards is what was learnt. -/
theorem life_step (hx : XtsInverts prim) (hm : Metadata.readOf prim ext g vol.image.len = .ok m)
    (hoff : vol.offset = m.offset) (hlen : vol.len = m.length) {K : Nat → Option UInt8}
    (hK : Event.Knows K (vol.plain prim g)) (h : Life prim ext vol g es c) :
    (∀ p, ¬ vol.payload.Contains p → c p = g p) ∧
    Event.Knows (es.foldl Event.learn K) (vol.plain prim c) := by
  obtain @⟨v, s, ops, c, hopen, himage, hkey, hfile, hcrash⟩ := h
  have hfits := hopen.fits
  obtain ⟨image, keyslot, password, d, d', hd, hunlock⟩ := hopen.unlocked
  obtain ⟨hi, m', a, size, areas, hm', -, -, -, hoff', hlen'⟩ := layout_of_unlock hunlock
  -- the volume of this life is the one of the image
  rw [hd, hfile, ← hi, himage] at hm'
  obtain rfl : m' = m := Outcome.ok.inj (hm'.symm.trans hm)
  have hpayload : v.volume.payload = vol.payload := by
    rw [UnlockedVolume.payload, UnlockedVolume.payload, hoff, hlen, hoff', hlen']
  have hplain : ∀ f, v.volume.plain prim f = vol.plain prim f :=
    UnlockedVolume.plain_eq (hoff'.trans hoff.symm) hkey
  refine ⟨fun p hp => ?_, fun q b hq => ?_⟩
  · have hout : v.Outside g (v.run prim ops s).2 :=
      ValidatedVolume.outside_run hfits hopen.size (ValidatedVolume.outside_synced hfile) ops
    exact crash_near hout hcrash (by rwa [hpayload])
  · have hdata : s.disk.file.data = g := by rw [hfile]; rfl
    cases hmode : v.mode with
    | readOnly =>
      obtain ⟨hstill, hidle⟩ : (v.run prim ops s).2.disk.file = s.disk.file ∧
        ∀ x ∈ (v.run prim ops s).1, x.Idle :=
        ValidatedVolume.still_run hfits hopen.size hmode ops
      rw [hstill, hfile] at hcrash
      have hc : c = g := eq_durable_of_crash hcrash rfl
      rw [(Event.idle_fold (K := K) (P := g) hidle).1] at hq
      rw [hc]
      exact hK q b hq
    | readWrite =>
      have hsynced : s.disk.file.durable = s.disk.file.data ∧ s.disk.file.unsynced = [] := by
        rw [hfile]
        exact ⟨rfl, rfl⟩
      have hdur := ValidatedVolume.durable_run hx hopen hmode hsynced ops
      obtain ⟨hq₁, hq₂⟩ := Event.knows_fold hK hdur.single (fun x hx hxa hno => by
        obtain ⟨pre, hpre⟩ := hdur.acked x hx hxa
        rw [hno] at hpre
        cases pre <;> cases hpre) hq
      rw [← hplain, hdur.crash c hcrash q hq₁, hdata, hplain]
      exact hq₂

/-- **An image and its sessions.**  Let a volume be unlocked from an image.  After any number of
sessions with its key, in either mode, each on any backend and cut at any moment by a crash that
keeps any mixture of durable and unsynced bytes: outside the payload the image is what it was, so
every keyslot unlocks as before; and what was learnt from the requests of all sessions is what the
image decrypts to. -/
theorem history_known (hx : XtsInverts prim) {image : Image} {keyslot : Nat} {password : Bytes}
    {d d' : Disk} (hunlock : UnlockedVolume.unlock prim ext image keyslot password d =
      (.ok vol, d'))
    (hfile : d.file = .synced image.len f) (h : History prim ext vol f es g) :
    (∀ p, ¬ vol.payload.Contains p → g p = f p) ∧
    (∀ img : Image, img.len = vol.image.len → ∀ keyslot password,
      SameRun (.synced img.len f) (.synced img.len g)
        (UnlockedVolume.unlock prim ext img keyslot password)) ∧
    ∀ q b, es.foldl Event.learn (fun q => some (vol.plain prim f q)) q = some b →
    vol.plain prim g q = b := by
  obtain ⟨himage, m, a, size, areas, hm, hheader, -, hlayout, hoff, hlen⟩ :=
    layout_of_unlock hunlock
  have hdata : d.file.data = f := by rw [hfile]; rfl
  rw [hdata, ← himage] at hm hheader
  have hheaders := hlayout.headers_before
  -- images that agree outside the payload have the same metadata
  have hfront : ∀ g : Store, (∀ p, ¬ vol.payload.Contains p → g p = f p) → ∀ p, p < m.offset →
      f p = g p := by
    intro g hg p hp
    refine (hg p fun hc => ?_).symm
    have : vol.offset ≤ p := hc.1
    omega
  have hinv : (∀ p, ¬ vol.payload.Contains p → g p = f p) ∧
      Event.Knows (es.foldl Event.learn (fun q => some (vol.plain prim f q)))
        (vol.plain prim g) := by
    induction h with
    | fresh => exact ⟨fun _ _ => rfl, fun q b hq => Option.some.inj hq⟩
    | @life past es g c before next ih =>
      obtain ⟨hout, hknown⟩ := ih
      have hm' : Metadata.readOf prim ext g vol.image.len = .ok m :=
        Metadata.readOf_congr hheader hm fun p hp => hfront g hout p (by omega)
      obtain ⟨hout', hknown'⟩ := life_step hx hm' hoff hlen hknown next
      rw [List.foldl_append]
      exact ⟨fun p hp => (hout' p hp).trans (hout p hp), hknown'⟩
  refine ⟨hinv.1, fun img himg keyslot password => ?_, hinv.2⟩
  rw [← himg] at hm
  exact @sameRun_unlock prim ext (.synced img.len f) (.synced img.len g) m img hm rfl
    (hfront g hinv.1) keyslot password

namespace Sample

/-- A session of the small image that is cut inside its second write. -/
def cut : List Event × Io :=
  (volume .readWrite).run Sample.prim [.write 512 (zeros 512), .write 0 (zeros 512)]
  (io [.limit 512, .limit 512, .limit 512, .limit 0, .halt [7]])

theorem life : Life Sample.prim parsers (volume .readWrite).volume (store 1 body) cut.1
    cut.2.disk.file.durable := by
  unfold cut
  exact .session (opened .readWrite _) rfl rfl rfl (crash_durable _)

end Sample

theorem history_known_sample : Sample.cut.2.disk.file.durable 0 = Sample.store 1 Sample.body 0 := by
  obtain ⟨⟨bytes, hsize⟩, d', rfl, hunlock⟩ := Sample.unlock .readWrite
  have h := (history_known Sample.xtsInverts hunlock rfl (.life .fresh Sample.life)).1
  exact h 0 fun hc => absurd (show 163840 ≤ 0 from hc.1) (by decide)

end Winluks
