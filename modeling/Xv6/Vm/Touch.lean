import Xv6.Vm.View

/-!
What reads and writes the memory of a process, in terms of its image: instructions of its program,
with the page faults that `usertrap` handles, `copyout` and `copyin`; and the image of a child.
-/

namespace Xv6.Vm.Touch

open Xv6.Data Xv6.Data.Effect Xv6.Data.Effect.Eff Xv6.Vm.Paging Xv6.Vm.Memory Xv6.Vm.Table
  Xv6.Vm.Tree Xv6.Vm.Walk Xv6.Vm.Maps Xv6.Vm.Grow Xv6.Vm.Copy Xv6.Vm.Space Xv6.Vm.Process
  Xv6.Vm.Transfer Xv6.Vm.Holding Xv6.Vm.Fork Xv6.Vm.View

/-! ### Instructions of a program -/

/-- What the hardware finds of an entry for user code that needs the flag `f`. -/
def Grants (e f : UInt64) : Prop := e &&& PTE_U ≠ 0 ∧ e &&& f ≠ 0

instance (e f : UInt64) : Decidable (Grants e f) := inferInstanceAs (Decidable (_ ∧ _))

/-- An instruction of user code gets at the page of `va` with the right `f`. It faults where the
entry does not grant that; `usertrap` calls `vmfault`, after which the instruction is run again, or
kills the process. -/
def touch (p : Proc) (f va : UInt64) : Eff Ram Bool := do
  let e ← look fun s => entryOf s p (vpn va)
  if Grants e f then pure true
  else do
    let r ← vmfault p p.pagetable va
    if r ≠ 0 then do
      let e ← look fun s => entryOf s p (vpn va)
      pure (decide (Grants e f))
    else pure false

/-- A load of one byte. -/
def load (p : Proc) (va : UInt64) : Eff Ram (Option UInt8) := do
  if ← touch p PTE_R va then
    look fun s => some (s.mem (PTE2PA (entryOf s p (vpn va))) ⟨va.toNat % 4096, low_lt va.toNat⟩)
  else pure none

/-- A store of one byte. -/
def store (p : Proc) (va : UInt64) (c : UInt8) : Eff Ram Bool := do
  if ← touch p PTE_W va then do
    let pa ← look fun s => PTE2PA (entryOf s p (vpn va))
    memmove pa (va.toNat % 4096) 1 fun _ => c
    pure true
  else pure false

variable {s s' s'' : Ram} {p : Proc} {t c : Task} {a e f va dstva srcva len : UInt64} {k l n d m : ℕ}
  {src : ℕ → UInt8} {may : String → Prop}

/-- The page of `va` is there but for `vmfault`, which looks at the address and not at its page. -/
def Awaits (s : Ram) (p : Proc) (va : UInt64) : Prop := va < p.sz ∧ entryOf s p (vpn va) = 0

/-- What `touch` comes to. -/
def Touched (s s' : Ram) (p : Proc) (f va : UInt64) (b : Bool) : Prop :=
  Change s s' p (· = vpn va) ∧ (∀ a, view s' p a = view s p a) ∧
  (b = true ∧ s'.failed = s.failed ∧ Grants (entryOf s' p (vpn va)) f ∧
      (Grants (entryOf s p (vpn va)) f ∨ Awaits s p va) ∨
    b = false ∧ s'.failed = s.failed ∧ ¬Grants (entryOf s p (vpn va)) f ∧ ¬Awaits s p va ∨
    b = false ∧ s.failed < s'.failed ∧ Awaits s p va)

lemma Awaits.lazy (h : Awaits s p va) : Lazy s p (vpn va) := by
  have h1 : va.toNat < p.sz.toNat := h.1
  refine ⟨?_, h.2⟩
  unfold vpn
  omega

lemma touch_spec (h : Sound s p) (hf : f.toNat < 1024) (hg : (FAULT ||| PTE_V) &&& f ≠ 0) :
    wp may (touch p f va) (fun b s' => Touched s s' p f va b) s := by
  unfold touch
  rw [wp_bind, wp_look, wp_ite]
  refine ⟨fun hy => ?_, fun hn => ?_⟩
  · rw [wp_pure]
    exact ⟨Change.refl h, fun _ => rfl, .inl ⟨rfl, rfl, hy, .inl hy⟩⟩
  refine wp_call (vmfault_spec h) fun r s1 hr => ?_
  obtain ⟨hview, ⟨rfl, hch, hcase⟩ | ⟨hne, hfail, hlt, hz, hnew, hch, -⟩⟩ := hr
  · rw [if_neg (not_not.mpr rfl), wp_pure]
    refine ⟨hch.mono fun _ hf => hf.elim, hview, .inr ?_⟩
    rcases hcase with ⟨hno, rfl⟩ | ⟨hlt, hz, hfail⟩
    · exact .inl ⟨rfl, rfl, hn, hno⟩
    · exact .inr ⟨rfl, hfail, hlt, hz⟩
  · have hgr : Grants (entryOf s1 p (vpn va)) f :=
      ⟨fault_flag hnew (by decide) (by decide), fault_flag hnew hf hg⟩
    rw [if_pos hne, wp_bind, wp_look, wp_pure, decide_eq_true hgr]
    exact ⟨hch, hview, .inl ⟨rfl, hfail, hgr, .inr ⟨hlt, hz⟩⟩⟩

lemma grants_iff (hk : k < USER) (hf : RIGHTS &&& f = f) (hl : ¬Lazy s p k) :
    rightsOf s p k &&& PTE_U ≠ 0 ∧ rightsOf s p k &&& f ≠ 0 ↔ Grants (entryOf s p k) f := by
  rw [rights_and hk (by decide) hl, rights_and hk hf hl]
  exact Iff.rfl

/-- What `load` comes to. -/
def Loaded (s s' : Ram) (p : Proc) (va : UInt64) (o : Option UInt8) : Prop :=
  Change s s' p (· = vpn va) ∧ (∀ a, view s' p a = view s p a) ∧
    (o = none ∨ s'.failed = s.failed ∧ o = view s p va.toNat) ∧
    (va < p.sz → s'.failed = s.failed → o = view s p va.toNat)

/-- **`load`** of an address below the size finds the byte there, or there is none. -/
theorem load_spec (h : Sound s p) : wp may (load p va) (fun o s' => Loaded s s' p va o) s := by
  unfold load
  refine wp_call (touch_spec h (by decide) (by decide)) fun b s1 hb => ?_
  obtain ⟨hch, hview, ⟨rfl, hfail, hgr, -⟩ | ⟨rfl, hfail, hno, hna⟩ | ⟨rfl, hfail, ha⟩⟩ := hb
  · rw [if_pos rfl, wp_look]
    have hM : Mapped s1 p (va.toNat / 4096) := hgr.1
    have hv : view s p va.toNat =
        some (s1.mem (PTE2PA (entryOf s1 p (vpn va))) ⟨va.toNat % 4096, low_lt va.toNat⟩) := by
      rw [← hview, view_mapped hM]
      rfl
    exact ⟨hch, hview, .inr ⟨hfail, hv.symm⟩, fun _ _ => hv.symm⟩
  · rw [if_neg (by decide), wp_pure]
    refine ⟨hch, hview, .inl rfl, fun hlt _ => (view_none (fun hm => ?_) fun hl => ?_).symm⟩
    · exact hno ⟨hm, h.leaf _ hm.ne_zero⟩
    · exact hna ⟨hlt, hl.2⟩
  · rw [if_neg (by decide), wp_pure]
    exact ⟨hch, hview, .inl rfl, fun _ hsame => absurd hsame (by omega)⟩

/-- What `store` comes to. -/
def Stored (s s' : Ram) (p : Proc) (va : UInt64) (c : UInt8) (b : Bool) : Prop :=
  Change s s' p (· = vpn va) ∧ Arrived s s' p va.toNat (if b then 1 else 0) (fun _ => c) ∧
    (b = true → s'.failed = s.failed ∧ (Writable s p (vpn va) ∨ Lazy s p (vpn va))) ∧
    (va < p.sz → s'.failed = s.failed → Writable s p (vpn va) ∨ Lazy s p (vpn va) → b = true)

/-- **`store`** to an address below the size changes the byte there where the program may do that. -/
theorem store_spec {c : UInt8} (h : Sound s p) :
    wp may (store p va c) (fun b s' => Stored s s' p va c b) s := by
  unfold store
  refine wp_call (touch_spec h (by decide) (by decide)) fun b s1 hb => ?_
  obtain ⟨hch, hview, ⟨rfl, hfail, hgr, hold⟩ | ⟨rfl, hfail, hno, hna⟩ | ⟨rfl, hfail, ha⟩⟩ := hb
  · rw [if_pos rfl, wp_bind, wp_look, wp_bind, memmove, wp_change, wp_pure]
    obtain ⟨pg, hpg⟩ : ∃ pg, pg = patch (s1.mem (PTE2PA (entryOf s1 p (vpn va))))
      (va.toNat % 4096) 1 fun _ => c := ⟨_, rfl⟩
    rw [← hpg]
    obtain ⟨s2, hs2⟩ : ∃ s2 : Ram, s2 =
      { s1 with mem := Function.update s1.mem (PTE2PA (entryOf s1 p (vpn va))) pg } := ⟨_, rfl⟩
    rw [← hs2]
    have hM : Mapped s1 p (vpn va) := hgr.1
    have hmem : s2.mem = Function.update s1.mem (PTE2PA (entryOf s1 p (vpn va))) pg := by rw [hs2]
    obtain ⟨hch2, hview2⟩ := hch.sound.written hM hmem
      (by rw [hs2]; exact ⟨rfl, rfl, le_rfl, le_rfl⟩) (by rw [hs2])
    have hone : first va.toNat 1 = 1 := by
      unfold first
      omega
    refine ⟨hch.trans (hch2.mono fun _ hf => hf.elim), fun a => ?_, fun _ => ?_, fun _ _ _ => rfl⟩
    · rw [hview2 a, if_pos rfl, ← hview a, hpg]
      have hp : (if a / 4096 = va.toNat / 4096 then
          some (patch (s1.mem (PTE2PA (entryOf s1 p (vpn va)))) (va.toNat % 4096)
            (first va.toNat 1) (fun _ => c) ⟨a % 4096, low_lt a⟩) else view s1 p a) =
          if va.toNat ≤ a ∧ a < va.toNat + first va.toNat 1 then some c else view s1 p a :=
        patched hM rfl
      rw [hone] at hp
      exact hp
    · rw [hs2]
      exact ⟨hfail, hold.imp id Awaits.lazy⟩
  · rw [if_neg (by decide), wp_pure]
    refine ⟨hch, fun a => ?_, fun hb => absurd hb (by decide), fun hlt _ hw => ?_⟩
    · rw [hview, if_neg (by rw [if_neg (by decide)]; omega)]
    · rcases hw with hW | hL
      · exact absurd hW hno
      · exact absurd ⟨hlt, hL.2⟩ hna
  · rw [if_neg (by decide), wp_pure]
    refine ⟨hch, fun a => ?_, fun hb => absurd hb (by decide), fun _ hsame => absurd hsame (by omega)⟩
    rw [hview, if_neg (by rw [if_neg (by decide)]; omega)]

/-! ### `copyout` and `copyin` -/

/-- How many of the `n` bytes from `d` come before a page that is not `ok`. -/
def upTo (ok : ℕ → Bool) (d : ℕ) : ℕ → ℕ
  | 0 => 0
  | n + 1 => if ok (d / 4096) then upTo ok (d + 1) n + 1 else 0

lemma upTo_le (ok : ℕ → Bool) (d n : ℕ) : upTo ok d n ≤ n := by
  induction n generalizing d with
  | zero => exact le_rfl
  | succ n ih =>
    rw [upTo]
    split_ifs
    · exact Nat.succ_le_succ (ih _)
    · exact Nat.zero_le _

lemma upTo_stop {ok : ℕ → Bool} (h : ok (d / 4096) = false) : upTo ok d n = 0 := by
  cases n with
  | zero => rfl
  | succ n => rw [upTo, h, if_neg (by decide)]

/-- Bytes of one page. -/
lemma upTo_page {ok : ℕ → Bool} (h : ok (d / 4096) = true) (hm : d % 4096 + m ≤ 4096) :
    upTo ok d (m + n) = m + upTo ok (d + m) n := by
  induction m generalizing d with
  | zero => rw [Nat.zero_add, Nat.zero_add, Nat.add_zero]
  | succ m ih =>
    have hsum : m + 1 + n = m + n + 1 := by omega
    rw [hsum, upTo, if_pos h]
    by_cases hz : m = 0
    · subst hz
      rw [Nat.zero_add, Nat.zero_add, Nat.add_comm]
    · have hk : (d + 1) / 4096 = d / 4096 := by omega
      rw [ih (by rwa [hk]) (by omega)]
      have hd : d + 1 + m = d + (m + 1) := by omega
      rw [hd]
      omega

/-- The first page and then the rest. -/
lemma upTo_first {ok : ℕ → Bool} (h : ok (d / 4096) = true) :
    upTo ok d n = first d n + upTo ok ((d / 4096 + 1) * 4096) (n - first d n) := by
  by_cases hn : n = first d n
  · have hz : n - first d n = 0 := by omega
    have hp := upTo_page (n := 0) (m := n) h (by unfold first at hn; omega)
    rw [hz]
    rw [Nat.add_zero] at hp
    rw [hp, ← hn]
    rfl
  · have hd : d + first d n = (d / 4096 + 1) * 4096 := by
      unfold first at hn ⊢
      omega
    have hsum : n = first d n + (n - first d n) := by
      unfold first
      omega
    rw [← hd]
    conv_lhs => rw [hsum]
    exact upTo_page h (by unfold first; omega)

/-- `copyout` stores what comes before the first page that it cannot write to, as long as memory does
not run out, and in any case no more. -/
lemma copyoutLoop_upTo (fuel tot : ℕ) (h : Sound s p) (hfuel : 0 < fuel)
    (hrounds : PGROUNDDOWN dstva < MAXVA → PAGES + 1 ≤ fuel + vpn dstva) {ok : ℕ → Bool}
    (hok : ∀ k, ok k = true ↔ Writable s p k ∨ Lazy s p k) :
    wp may (copyoutLoop p p.pagetable fuel dstva src len tot) (fun r s' =>
      r.2 ≤ tot + upTo ok dstva.toNat len.toNat ∧ s.failed ≤ s'.failed ∧
        (s'.failed = s.failed → r.2 = tot + upTo ok dstva.toNat len.toNat)) s := by
  induction fuel generalizing s dstva src len tot with
  | zero => omega
  | succ fuel ih =>
    rw [copyoutLoop, wp_ite]
    refine ⟨fun hpos => ?_, fun hz => ?_⟩
    · have hn : 0 < len.toNat := hpos
      have hal : (PGROUNDDOWN dstva).toNat % 4096 = 0 := by
        rw [toNat_PGROUNDDOWN]
        omega
      refine wp_call (destOf_spec h hal) fun pa0 s1 hd => ?_
      rw [Dest, vpn_down] at hd
      obtain ⟨hview, hch, ⟨rfl, hbad⟩ | ⟨hne, hfail, hgood, hW, hpa⟩⟩ := hd
      · rw [if_pos rfl, wp_pure]
        refine ⟨Nat.le_add_right _ _, hch.failed, fun hsame => ?_⟩
        have hno : ok (dstva.toNat / 4096) = false := by
          by_contra hy
          exact hbad ⟨(hok _).mp (Bool.eq_true_of_not_eq_false hy), hsame⟩
        rw [upTo_stop hno, Nat.add_zero]
      have hyes : ok (dstva.toNat / 4096) = true := (hok _).mpr hgood
      rw [if_neg hne]
      refine wp_call (moved hch.sound hW hpa) fun _ s2 hm => ?_
      obtain ⟨hch2, hfail2, he2, -⟩ := hm
      have hboth : Change s s2 p (· = vpn dstva) := hch.trans (hch2.mono fun _ hf => hf.elim)
      have hva : PGROUNDDOWN dstva < MAXVA := by
        refine lt_MAXVA.mpr ?_
        rw [vpn_down]
        exact (hch.sound.mapped_lt hW.1).trans USER_lt
      obtain ⟨hnext, hlen⟩ := toNat_next len hva
      have hpast := lt_MAXVA.mp hva
      rw [vpn_down] at hpast
      have hfuel' := hrounds hva
      have hvpn : vpn (PGROUNDDOWN dstva + PGSIZE) = vpn dstva + 1 := by
        unfold vpn
        rw [hnext]
        omega
      have hok2 : ∀ k, ok k = true ↔ Writable s2 p k ∨ Lazy s2 p k := by
        intro k
        rw [hok]
        rcases eq_or_ne k (vpn dstva) with rfl | hk
        · exact iff_of_true hgood (.inl ((Writable.congr he2).mpr hW))
        · have he := Change.entry_other hboth hk
          exact or_congr (Writable.congr he).symm (Lazy.congr he).symm
      refine wp_mono (ih _ hch2.sound (by omega) (by rw [hvpn]; intro _; omega) hok2)
        fun r s' hr => ?_
      obtain ⟨hle, hlater, heq⟩ := hr
      rw [hnext, hlen, toNat_inPage] at hle heq
      rw [upTo_first hyes]
      refine ⟨by omega, by omega, fun hsame => ?_⟩
      rw [heq (by omega), Nat.add_assoc]
    · have hz' : len.toNat = 0 := by
        have : ¬0 < len.toNat := hz
        omega
      rw [wp_pure, hz']
      exact ⟨le_rfl, le_rfl, fun _ => rfl⟩

/-! ### What becomes of the image -/

/-- A process goes on after its memory has been read or written to. -/
lemma act_of_change {R : ℕ → Prop} (h : Good s t) (hch : Change s s' t.mem R) :
    Act s s' (some t) (some t) := act_of_kept h (kept_of_change h.whole hch)

/-- The bytes are what has arrived. -/
lemma image_arrived {R : ℕ → Prop} (h : Good s t)
    (hone : ∀ x, (Holding.pages s t + s.free).count x ≤ 1) (hch : Change s s' t.mem R)
    (ha : Arrived s s' t.mem d m src) : image s' t = (image s t).store d m src := by
  rw [image_of_change hch (frame_of_kept hone (kept_of_change h.whole hch)), funext ha]
  rfl

lemma image_same {R : ℕ → Prop} (h : Good s t)
    (hone : ∀ x, (Holding.pages s t + s.free).count x ≤ 1) (hch : Change s s' t.mem R)
    (hv : ∀ a, view s' t.mem a = view s t.mem a) : image s' t = image s t := by
  rw [image_of_change hch (frame_of_kept hone (kept_of_change h.whole hch)), funext hv]
  rfl

theorem load_image (h : Good s t) (hone : ∀ x, (Holding.pages s t + s.free).count x ≤ 1) :
    wp may (load t.mem va) (fun o s' => Act s s' (some t) (some t) ∧ image s' t = image s t ∧
      (o = none ∨ s'.failed = s.failed ∧ o = (image s t).bytes va.toNat) ∧
      (va < t.mem.sz → s'.failed = s.failed → o = (image s t).bytes va.toNat)) s :=
  wp_mono (load_spec h.whole.toSound) fun _ _ hr =>
    ⟨act_of_change h hr.1, image_same h hone hr.1 hr.2.1, hr.2.2⟩

theorem store_image {b : UInt8} (h : Good s t)
    (hone : ∀ x, (Holding.pages s t + s.free).count x ≤ 1) :
    wp may (store t.mem va b) (fun r s' => Act s s' (some t) (some t) ∧
      image s' t = (image s t).store va.toNat (if r then 1 else 0) (fun _ => b) ∧
      (r = true → s'.failed = s.failed ∧ (image s t).CanWrite (vpn va)) ∧
      (va < t.mem.sz → s'.failed = s.failed → r = decide ((image s t).CanWrite (vpn va)))) s := by
  refine wp_mono (store_spec h.whole.toSound) fun r s' hr => ?_
  obtain ⟨hch, ha, honly, hall⟩ := hr
  have hiff := canWrite_iff (k := vpn va) h.whole.toSound
  refine ⟨act_of_change h hch, image_arrived h hone hch ha, fun hb => (honly hb).imp_right hiff.mpr,
    fun hlt hsame => ?_⟩
  rw [Bool.eq_iff_iff, decide_eq_true_iff, hiff]
  exact ⟨fun hb => (honly hb).2, hall hlt hsame⟩

theorem copyout_image (h : Good s t) (hone : ∀ x, (Holding.pages s t + s.free).count x ≤ 1) :
    wp may (copyout t.mem t.mem.pagetable dstva src len) (fun r s' =>
      Act s s' (some t) (some t) ∧ image s' t = (image s t).store dstva.toNat r.2 src ∧
      r.2 ≤ upTo (fun k => decide ((image s t).CanWrite k)) dstva.toNat len.toNat ∧
      r.1 = (if r.2 = len.toNat then 0 else -1) ∧ (r.1 = 0 → s'.failed = s.failed) ∧
      (s'.failed = s.failed →
        r.2 = upTo (fun k => decide ((image s t).CanWrite k)) dstva.toNat len.toNat)) s := by
  have hpast : PGROUNDDOWN dstva < MAXVA → PAGES + 1 ≤ ROUNDS + vpn dstva := by
    rw [PAGES_eq, ROUNDS]
    omega
  have hspec : wp may (copyout t.mem t.mem.pagetable dstva src len) (fun r s' =>
      r.2 ≤ upTo (fun k => decide ((image s t).CanWrite k)) dstva.toNat len.toNat ∧
        (s'.failed = s.failed →
          r.2 = upTo (fun k => decide ((image s t).CanWrite k)) dstva.toNat len.toNat)) s := by
    have hok : ∀ k, decide ((image s t).CanWrite k) = true ↔
        Writable s t.mem k ∨ Lazy s t.mem k := fun k => by
      rw [decide_eq_true_iff]
      exact canWrite_iff h.whole.toSound
    refine wp_mono (copyoutLoop_upTo ROUNDS 0 h.whole.toSound (by decide) hpast hok)
      fun r s' hr => ?_
    rw [Nat.zero_add] at hr
    exact ⟨hr.1, hr.2.2⟩
  have hout : wp may (copyout t.mem t.mem.pagetable dstva src len) (fun r s' =>
      CopiedOut s s' t.mem dstva.toNat len.toNat src r.1 r.2) s := copyout_spec h.whole.toSound
  refine wp_mono (wp_and hspec hout) fun r s' hr => ?_
  obtain ⟨⟨hle, heq⟩, hout⟩ := hr
  refine ⟨act_of_change h hout.change, image_arrived h hone hout.change hout.arrived, hle, ?_,
    fun hz => (hout.iff.mp hz).2, heq⟩
  split_ifs with hall
  · exact hout.all.mpr hall
  · exact hout.result.resolve_left fun hz => hall (hout.all.mp hz)

/-- The program may read the `n` bytes from `d`. -/
def Readable (i : Image) (d n : ℕ) : Prop := ∀ j < n, (i.bytes (d + j)).isSome

instance (i : Image) (d n : ℕ) : Decidable (Readable i d n) :=
  inferInstanceAs (Decidable (∀ j < n, _))

lemma view_isSome {va : ℕ} : (view s p va).isSome ↔ Mapped s p (va / 4096) ∨ Lazy s p (va / 4096) := by
  by_cases hm : Mapped s p (va / 4096)
  · rw [view_mapped hm]
    exact iff_of_true rfl (.inl hm)
  by_cases hl : Lazy s p (va / 4096)
  · rw [view_lazy hl]
    exact iff_of_true rfl (.inr hl)
  rw [view_none hm hl]
  exact iff_of_false (by decide) (not_or.mpr ⟨hm, hl⟩)

theorem copyin_image (h : Good s t) (hone : ∀ x, (Holding.pages s t + s.free).count x ≤ 1) :
    wp may (copyin t.mem t.mem.pagetable srcva len) (fun r s' =>
      Act s s' (some t) (some t) ∧ image s' t = image s t ∧
      (r.1 = 0 → s'.failed = s.failed ∧ Readable (image s t) srcva.toNat len.toNat ∧ r.2.map some =
        (List.range len.toNat).map fun j => (image s t).bytes (srcva.toNat + j)) ∧
      (r.1 = 0 ∨ r.1 = -1) ∧
      (s'.failed = s.failed → Readable (image s t) srcva.toNat len.toNat → r.1 = 0)) s := by
  refine wp_mono (copyin_spec h.whole.toSound) fun r s' hr => ?_
  obtain ⟨hch, hview, ⟨m, -, hbytes, hall⟩, hr, hiff, -⟩ := hr
  have hread : Readable (image s t) srcva.toNat len.toNat ↔
      ∀ k, InRange srcva.toNat len.toNat k → Mapped s t.mem k ∨ Lazy s t.mem k := by
    refine ⟨fun hg k hk => ?_, fun hg j hj => view_isSome.mpr (hg _ ⟨_, by omega, by omega, rfl⟩)⟩
    obtain ⟨va, h1, h2, rfl⟩ := hk
    have hj := view_isSome.mp (hg (va - srcva.toNat) (by omega))
    have hva : srcva.toNat + (va - srcva.toNat) = va := by omega
    rwa [hva] at hj
  refine ⟨act_of_change h hch, image_same h hone hch hview, fun hz => ⟨(hiff.mp hz).2, ?_, ?_⟩, hr,
    fun hsame hg => hiff.mpr ⟨hread.mp hg, hsame⟩⟩
  · exact hread.mpr (hiff.mp hz).1
  · rw [hbytes, hall hz]
    rfl

/-- `a0` is a saved register. -/
def A0 : Fin 36 := 14

/-- The image of the child. -/
def childImage (i : Image) : Image := { i with regs := Function.update i.regs A0 0 }

lemma forked_image {c : Task} (h : Forked s s' t (some c)) :
    image s' c = childImage (image s t) := by
  obtain ⟨hsize, hview, hmapped⟩ := h.same c rfl
  ext1
  · exact hsize
  · funext k
    change rightsOf s' c.mem k = rightsOf s t.mem k
    by_cases hk : k < USER
    · obtain ⟨hz, hf⟩ := hmapped k hk
      have hl : Lazy s' c.mem k ↔ Lazy s t.mem k := by
        unfold Lazy
        rw [hsize, hz]
      rw [rightsOf, rightsOf, if_pos hk, if_pos hk, hf RIGHTS (by decide)]
      simp only [hl]
    · rw [rightsOf, rightsOf, if_neg hk, if_neg hk]
  · exact funext hview
  · funext i
    change reg s' c _ = Function.update (image s t).regs A0 0 i
    rw [h.regs c rfl _ i.isLt]
    by_cases hi : i = A0
    · rw [hi, Function.update_self]
      rfl
    · rw [Function.update_of_ne hi, if_neg]
      · rfl
      · exact fun hv => hi (Fin.ext (congrArg (fun j : Fin 512 => j.val) hv))

end Xv6.Vm.Touch
