import Winluks.Reading

/-!
# A backend that does its work

`Disk.Steady`: the file has its length, and what is left of the plan only
shortens transfers.  Then no call goes wrong (`Steadily`), so what a program
computes from the file is what it returns.
-/

namespace Winluks

open Lib

/-- Every answer to come transfers at least one byte, and the file has its length. -/
structure Disk.Steady (len : Nat) (d : Disk) : Prop where
  size : d.file.size = len
  plan : ∀ a ∈ d.plan, ∃ n, a = .limit (n + 1)

/-- From a steady state on, the calls made are good and the state stays steady. -/
def Steadily (len : Nat) (d d' : Disk) : Prop :=
  d.Steady len → d'.Steady len ∧ ∃ new, d'.calls = d.calls ++ new ∧ ∀ c ∈ new, c.Good len

section
variable {len : Nat} {d d' d'' : Disk}

theorem steadily_refl (d : Disk) : Steadily len d d :=
  fun h => ⟨h, [], (List.append_nil _).symm, nofun⟩

theorem steadily_trans (h : Steadily len d d') (h' : Steadily len d' d'') : Steadily len d d'' := by
  intro hd
  obtain ⟨hd', new, hnew, hgood⟩ := h hd
  obtain ⟨hd'', new', hnew', hgood'⟩ := h' hd'
  refine ⟨hd'', new ++ new', by rw [hnew', hnew, List.append_assoc], fun c hc => ?_⟩
  rcases List.mem_append.mp hc with hc | hc
  · exact hgood c hc
  · exact hgood' c hc

/-- The next answer lets a transfer of `n` bytes move some of them. -/
theorem Disk.Steady.next (h : d.Steady len) {n : Nat} (hn : 0 < n) :
    ∃ k, d.next (.limit n) = .limit (k + 1) := by
  unfold Disk.next
  cases hp : d.plan with
  | nil => exact ⟨n - 1, by rw [List.headD_nil, Nat.sub_add_cancel hn]⟩
  | cons a rest => exact h.plan a (by rw [hp]; exact List.mem_cons_self)

theorem Disk.Steady.log (h : d.Steady len) (c : Call) : (d.log c).Steady len :=
  ⟨h.size, fun a ha => h.plan a (List.mem_of_mem_tail ha)⟩

theorem fileLen_steady (h : d.Steady len) : ∃ d', fileLen d = (.ok len, d') ∧ d'.Steady len := by
  unfold fileLen
  rw [h.size]
  cases hp : d.plan with
  | nil =>
    simp only [Disk.next, hp, List.headD_nil]
    exact ⟨_, rfl, h.log _⟩
  | cons a rest =>
    obtain ⟨k, rfl⟩ := h.plan a (by rw [hp]; exact List.mem_cons_self)
    simp only [Disk.next, hp, List.headD_cons]
    exact ⟨_, rfl, h.log _⟩

theorem readOnce_steady {off n : Nat} (h : d.Steady len) (hn : 0 < n) (hin : off + n ≤ len) :
    ∃ b bs d', readOnce off n d = (.ok (b :: bs), d') ∧ d'.Steady len := by
  obtain ⟨k, hk⟩ := h.next hn
  unfold readOnce
  simp only [hk]
  cases hgot : slice d.file.data off (min (min (k + 1) n) (d.file.size - off)) with
  | nil =>
    have hsize := h.size
    have hlen := congrArg List.length hgot
    rw [slice_length, List.length_nil] at hlen
    omega
  | cons b bs => exact ⟨b, bs, _, rfl, h.log _⟩

theorem writeOnce_steady {off : Nat} {buf : Bytes} (h : d.Steady len) (hbuf : 0 < buf.length)
    (hin : off + buf.length ≤ len) : ∃ n d', writeOnce off buf d = (.ok (n + 1), d') ∧
    d'.Steady len := by
  obtain ⟨k, hk⟩ := h.next hbuf
  unfold writeOnce
  simp only [hk]
  obtain ⟨n, hn⟩ : ∃ n, min (k + 1) buf.length = n + 1 := ⟨min (k + 1) buf.length - 1, by omega⟩
  refine ⟨n, _, by rw [hn], ⟨?_, fun a ha => h.plan a (List.mem_of_mem_tail ha)⟩⟩
  have hsize := h.size
  show max d.file.size (off + (buf.take (k + 1)).length) = len
  rw [List.length_take]
  omega

theorem readLoop_steady (off size : Nat) (got : Bytes) (d : Disk) (h : d.Steady len)
    (hin : off + size ≤ len) :
    ∃ bs d', readLoop off size got d = (.ok bs, d') ∧ d'.Steady len := by
  induction got, d using readLoop.induct off size with
  | case4 got d hlt b bs d' hro ih =>
    obtain ⟨b', bs', d₁, hr, hd₁⟩ :=
      readOnce_steady h (by omega) (show off + got.length + (size - got.length) ≤ len by omega)
    rw [hro] at hr
    obtain ⟨-, rfl⟩ := Prod.mk.inj hr
    rw [readLoop_eq, if_pos hlt, hro]
    exact ih hd₁
  | case7 got d hge =>
    rw [readLoop_eq, if_neg hge]
    exact ⟨got, d, rfl, h⟩
  | _ got d hlt d' hro =>
    -- a steady backend does not end a read this way
    obtain ⟨b', bs', d₁, hr, -⟩ :=
      readOnce_steady h (by omega) (show off + got.length + (size - got.length) ≤ len by omega)
    rw [hro] at hr
    cases hr

theorem writeLoop_steady (off : Nat) (buf : Bytes) (done : Nat) (d : Disk) (h : d.Steady len)
    (hin : off + buf.length ≤ len) : ∃ d', writeLoop off buf done d = (.ok (), d') ∧
    d'.Steady len := by
  induction done, d using writeLoop.induct off buf with
  | case4 done d hlt n d' hwo ih =>
    obtain ⟨n', d₁, hw, hd₁⟩ := @writeOnce_steady len d (off + done) (buf.drop done) h
      (by rw [List.length_drop]; omega) (by rw [List.length_drop]; omega)
    rw [hwo] at hw
    obtain ⟨-, rfl⟩ := Prod.mk.inj hw
    rw [writeLoop_eq, if_pos hlt, hwo]
    exact ih hd₁
  | case7 done d hge =>
    rw [writeLoop_eq, if_neg hge]
    exact ⟨d, rfl, h⟩
  | _ done d hlt d' hwo =>
    obtain ⟨n', d₁, hw, -⟩ := @writeOnce_steady len d (off + done) (buf.drop done) h
      (by rw [List.length_drop]; omega) (by rw [List.length_drop]; omega)
    rw [hwo] at hw
    cases hw

theorem syncAll_steady (h : d.Steady len) : ∃ d', syncAll d = (.ok (), d') ∧ d'.Steady len := by
  have hnext : ∃ n, d.next (.limit 0) = .limit n := by
    unfold Disk.next
    cases hp : d.plan with
    | nil => exact ⟨0, rfl⟩
    | cons a rest =>
      obtain ⟨k, rfl⟩ := h.plan a (by rw [hp]; exact List.mem_cons_self)
      exact ⟨k + 1, rfl⟩
  obtain ⟨n, hn⟩ := hnext
  unfold syncAll
  rw [hn]
  exact ⟨_, rfl, ⟨h.size, fun a ha => h.plan a (List.mem_of_mem_tail ha)⟩⟩

end

namespace Image

variable (img : Image) {d : Disk}

theorem checkLen_steady (h : d.Steady img.len) :
    ∃ d', img.checkLen d = (.ok (), d') ∧ d'.Steady img.len := by
  obtain ⟨d', hd', h'⟩ := fileLen_steady h
  refine ⟨d', ?_, h'⟩
  simp [checkLen, Run.bind_run, Run.mapErr, hd', Outcome.mapErr]

theorem readExactAt_steady {off size : Nat} (hd : d.Steady img.len) (hin : off + size ≤ img.len) :
    ∃ bs d', img.readExactAt off size d = (.ok bs, d') ∧ d'.Steady img.len := by
  obtain ⟨d₁, hcl, h₁⟩ := img.checkLen_steady hd
  obtain ⟨bs, d₂, hl, h₂⟩ := readLoop_steady off size [] d₁ h₁ hin
  exact ⟨bs, d₂, by rw [readExactAt_in img off d hin, Run.bind_run_of hcl, hl], h₂⟩

/-- A steady backend completes a read in range, and its calls are good. -/
theorem steadily_readExactAt (off size : Nat) :
    Run.Keeps (Steadily img.len) (img.readExactAt off size) := by
  intro d hd
  by_cases hin : off + size ≤ img.len
  · obtain ⟨new, hr⟩ := img.readExactAt_spec off d hin
    obtain ⟨bs, d₂, hrun, h₂⟩ := img.readExactAt_steady hd hin
    rw [hrun] at hr ⊢
    exact ⟨h₂, new, hr.calls, hr.ends⟩
  · rw [readExactAt_out img off d hin]
    exact steadily_refl d hd

theorem sync_steady (hd : d.Steady img.len) :
    ∃ d', img.sync d = (.ok (), d') ∧ d'.Steady img.len := by
  obtain ⟨d₁, hcl, h₁⟩ := img.checkLen_steady hd
  unfold sync
  rw [Run.bind_run_of hcl]
  split
  · obtain ⟨d₂, hs, h₂⟩ := syncAll_steady h₁
    exact ⟨d₂, by simp [Run.mapErr, hs, Outcome.mapErr], h₂⟩
  · exact ⟨d₁, rfl, h₁⟩

theorem writeAllAt_sync_steady (off : Nat) (buf : Bytes) (hmode : img.mode = .readWrite)
    (h : off + buf.length ≤ img.len) (hd : d.Steady img.len) :
    ∃ d', (img.writeAllAt off buf >>= fun _ => img.sync) d = (.ok (), d') ∧ d'.Steady img.len := by
  obtain ⟨d₁, hcl, h₁⟩ := img.checkLen_steady hd
  obtain ⟨d₂, hw, h₂⟩ := writeLoop_steady off buf 0 d₁ h₁ h
  obtain ⟨d₃, hs, h₃⟩ := img.sync_steady h₂
  have hwrite : img.writeAllAt off buf d = (.ok (), d₂) := by
    unfold writeAllAt
    rw [Run.failIf_bind, if_neg (by simp [hmode]), Run.failIf_bind, if_neg (by omega),
      Run.bind_run_of hcl, hw]
  exact ⟨d₃, by rw [Run.bind_run_of hwrite, hs], h₃⟩

theorem steadily_sync : Run.Keeps (Steadily img.len) img.sync := by
  intro d hd
  obtain ⟨d', hsync, h'⟩ := img.sync_steady hd
  cases hmode : img.mode with
  | readOnly =>
    obtain ⟨new, hs⟩ := img.sync_readOnly_spec d hmode
    rw [hsync] at hs ⊢
    exact ⟨h', new, hs.calls, hs.ends⟩
  | readWrite =>
    obtain ⟨new, hs⟩ := img.sync_spec d hmode
    rw [hsync] at hs ⊢
    exact ⟨h', new, hs.calls, hs.ends⟩

/-- The writes of a session, in range or not. -/
theorem steadily_writeAllAt_sync (off : Nat) (buf : Bytes) :
    Run.Keeps (Steadily img.len) (img.writeAllAt off buf >>= fun _ => img.sync) := by
  intro d hd
  by_cases hmode : img.mode = .readWrite
  · by_cases hin : off + buf.length ≤ img.len
    · obtain ⟨new, hw, -⟩ := img.writeAllAt_sync_spec off d buf hmode hin hd.size
      obtain ⟨d', hrun, h'⟩ := img.writeAllAt_sync_steady off buf hmode hin hd
      rw [hrun] at hw ⊢
      exact ⟨h', new, hw.calls, hw.ends⟩
    · have hout : img.writeAllAt off buf d = (.err .invalidRange, d) := by
        unfold writeAllAt
        rw [Run.failIf_bind, if_neg (not_not.mpr hmode), Run.failIf_bind, if_pos (by omega)]
      rw [Run.bind_run, hout]
      exact steadily_refl d hd
  · have hout : img.writeAllAt off buf d = (.err .readOnly, d) := by
      unfold writeAllAt
      rw [Run.failIf_bind, if_pos hmode]
    rw [Run.bind_run, hout]
    exact steadily_refl d hd

end Image

/-! ## Programs that only read -/

section
variable {α β : Type} {len : Nat}

theorem steadily_bind {m : Run Disk Error α} {f : α → Run Disk Error β}
    (hm : Run.Keeps (Steadily len) m) (hf : ∀ a, Run.Keeps (Steadily len) (f a)) :
    Run.Keeps (Steadily len) (m >>= f) :=
  Run.keeps_bind (R := Steadily len) steadily_trans hm hf

theorem steadily_lift (x : Outcome Error α) :
    Run.Keeps (Steadily len) (.lift x : Run Disk Error α) :=
  Run.keeps_lift steadily_refl x

/-- Against a steady backend a program returns what it computes. -/
theorem Computes.steady {F : File} {m : Run Disk Error α} {x : Outcome Error α}
    (h : Computes len F m x) (hm : Run.Keeps (Steadily len) m) {d : Disk} (hd : d.Steady len)
    (hF : d.file = F) :
    (m d).1 = x ∧ (m d).2.file = F ∧ (m d).2.Steady len := by
  obtain ⟨new, hfile, hcalls, -, hgood, -⟩ := h d hF
  obtain ⟨hd', new', hcalls', hgood'⟩ := hm d hd
  obtain rfl := List.append_cancel_left (hcalls.symm.trans hcalls')
  exact ⟨hgood hgood', hfile, hd'⟩

end

end Winluks
