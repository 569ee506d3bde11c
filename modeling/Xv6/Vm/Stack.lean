import Xv6.Vm.Build

/-!
The end of `kexec`: the stack of the new program with its guard page and its arguments, and the step
from the old address space to the new one.
-/

namespace Xv6.Vm.Stack

open Xv6.Data Xv6.Data.Effect Xv6.Data.Effect.Eff Xv6.Vm.Paging Xv6.Vm.Memory Xv6.Vm.Table
  Xv6.Vm.Tree Xv6.Vm.Walk Xv6.Vm.Maps Xv6.Vm.Grow Xv6.Vm.Copy Xv6.Vm.Space Xv6.Vm.Free
  Xv6.Vm.Process Xv6.Vm.Transfer Xv6.Vm.Holding Xv6.Vm.Fork Xv6.Vm.View Xv6.Vm.Touch Xv6.Vm.Exec
  Xv6.Vm.Build

variable {s s' s'' s1 s2 s3 : Ram} {p q q' : Proc} {t : Task} {a e va len tf sp base : UInt64}
  {sz pt : UInt64} {k l n m : ℕ} {f : File} {src : ℕ → UInt8} {argv : List (List UInt8)}
  {may : String → Prop}

/-! ### The guard page -/

/-- A page that user code may no longer get at is still there. -/
lemma PTE2PA_guard (e : UInt64) : PTE2PA (e &&& ~~~PTE_U) = PTE2PA e := by
  have hmask : (~~~PTE_U) >>> 10 = (-1 : UInt64) >>> 10 := by decide
  have hshift : (e &&& ~~~PTE_U) >>> 10 = e >>> 10 := by
    rw [UInt64.shiftRight_and, hmask, ← UInt64.shiftRight_and, UInt64.and_neg_one]
  rw [PTE2PA, PTE2PA, hshift]

lemma guard_and {f : UInt64} (e : UInt64) (hf : ~~~PTE_U &&& f = f) :
    (e &&& ~~~PTE_U) &&& f = e &&& f := by
  rw [UInt64.and_assoc, hf]

/-- Page `k` becomes a guard page. -/
lemma Draft.guarded (h : Draft s s1 q) (htf : tf ∉ s.free) (hm : Mapped s1 q k)
    (he : Edit s1 s2 q.pagetable
      (Function.update (entryOf s1 q) k (entryOf s1 q k &&& ~~~PTE_U)) 0 0) :
    Draft s s2 q ∧ (∀ l, l ≠ k → entryOf s2 q l = entryOf s1 q l) ∧
      image s2 ⟨q, tf⟩ = guard (image s1 ⟨q, tf⟩) k := by
  have hs := h.whole.toSound
  have hkU := hs.mapped_lt hm
  have hentry : entryOf s2 q =
      Function.update (entryOf s1 q) k (entryOf s1 q k &&& ~~~PTE_U) := he.map
  have hself : entryOf s2 q k = entryOf s1 q k &&& ~~~PTE_U := by
    rw [hentry, Function.update_self]
  have hother : ∀ l, l ≠ k → entryOf s2 q l = entryOf s1 q l := fun l hl => by
    rw [hentry, Function.update_of_ne hl]
  have hread : entryOf s2 q k &&& PTE_R = entryOf s1 q k &&& PTE_R := by
    rw [hself]
    exact guard_and _ (by decide)
  have hne : entryOf s2 q k ≠ 0 := by
    intro hz
    rw [hz, UInt64.zero_and] at hread
    exact hs.leaf k hm.ne_zero hread.symm
  have hgone : ¬Mapped s2 q k := by
    unfold Mapped
    have hmask : ~~~PTE_U &&& PTE_U = 0 := by decide
    rw [hself, UInt64.and_assoc, hmask, UInt64.and_zero]
    exact not_not.mpr rfl
  have hzero : ∀ l, entryOf s2 q l = 0 ↔ entryOf s1 q l = 0 := by
    intro l
    by_cases hl : l = k
    · rw [hl]
      exact iff_of_false hne hm.ne_zero
    · rw [hother l hl]
  have hpages : ∀ l, Maps.pages (entryOf s2 q l) = Maps.pages (entryOf s1 q l) := by
    intro l
    by_cases hl : l = k
    · rw [hl, pages_of_ne hne, pages_of_ne hm.ne_zero, hself, PTE2PA_guard]
    · rw [hother l hl]
  have hheld : held (entryOf s2 q) 0 USER = held (entryOf s1 q) 0 USER := by
    unfold held
    exact Finset.sum_congr rfl fun j _ => hpages _
  have hkeep : owned s2 q + s2.free = owned s1 q + s1.free := by
    have hk := he.keep
    rw [add_zero, add_zero] at hk
    unfold owned
    rw [hheld, add_right_comm, hk, add_right_comm]
  have hwhole : Whole s2 q := by
    refine ⟨⟨he.proper, once_of_keep hs hkeep, ?_, hs.size, fun l hl hn => ?_, fun l hl => ?_,
      fun l hn => ?_⟩, h.whole.low.congr he.top⟩
    · rw [hheld]
      exact fun x hx => he.toLater.frame.mpr (hs.frame x hx)
    · exact hs.below l hl (mt (hzero l).mpr hn)
    · rw [hother l (by omega)]
      exact hs.high l hl
    · by_cases hl : l = k
      · rw [hl, hread]
        exact hs.leaf k hm.ne_zero
      · rw [hother l hl] at hn ⊢
        exact hs.leaf l hn
  have hkept : Kept s1 s2 q q := ⟨he.toLater, hwhole, hkeep, fun x h1 h2 =>
    he.frame x (fun ht => h1 (Multiset.mem_add.mpr (.inl ht))) h2 (Multiset.notMem_zero x)⟩
  have hnew := h.step hkept fun l hl => mt (hzero l).mp (h.full l hl)
  have hlazy : ∀ l, Lazy s2 q l ↔ Lazy s1 q l := by
    intro l
    unfold Lazy
    rw [hzero]
  refine ⟨hnew, hother, ?_⟩
  ext1
  · rfl
  · funext l
    change rightsOf s2 q l = Function.update (rightsOf s1 q) k (rightsOf s1 q k &&& ~~~PTE_U) l
    by_cases hl : l = k
    · have hno : ¬Lazy s1 q k := fun hz => hm.ne_zero hz.2
      rw [hl, Function.update_self, rightsOf, rightsOf, if_pos hkU, if_pos hkU,
        if_neg (mt (hlazy k).mp hno), if_neg hno, hself, UInt64.and_assoc, UInt64.and_assoc,
        UInt64.and_comm RIGHTS]
    · rw [Function.update_of_ne hl, rightsOf, rightsOf, hother l hl]
      simp only [hlazy]
  · funext va
    change view s2 q va = if va / 4096 = k then none else view s1 q va
    by_cases hl : va / 4096 = k
    · rw [if_pos hl]
      refine view_none (by rwa [hl]) fun hz => ?_
      rw [hl] at hz
      exact hne hz.2
    · rw [if_neg hl]
      exact view_same (hother _ hl) fun hmap =>
        hs.kept (hs.mem_held (hs.mapped_lt hmap) hmap.ne_zero) he (Multiset.notMem_zero _)
  · funext i
    change entry (s2.mem tf) _ = entry (s1.mem tf) _
    rw [hnew.other tf htf, h.other tf htf]

/-! ### `copyout` to the new stack -/

/-- `copyout` within one page, which is there: `p` does not matter. -/
lemma copyout_page (p : Proc) (h : Sound s q) (hW : Writable s q (vpn va)) (hpos : 0 < len.toNat)
    (hfit : va.toNat % 4096 + len.toNat ≤ 4096) :
    wp may (copyout p q.pagetable va src len) (fun r s' => r.1 = 0 ∧
      Change s s' q (fun _ => False) ∧ s'.failed = s.failed ∧
        Arrived s s' q va.toNat len.toNat src) s := by
  obtain ⟨fuel, hfuel⟩ : ∃ m, ROUNDS = m + 2 := ⟨ROUNDS - 2, by unfold ROUNDS; omega⟩
  have hlt := h.mapped_lt hW.1
  have hmax : PGROUNDDOWN va < MAXVA := by
    refine lt_MAXVA.mpr ?_
    rw [vpn_down]
    exact hlt.trans USER_lt
  have hM : Mapped s q (vpn (PGROUNDDOWN va)) := by
    rw [vpn_down]
    exact hW.1
  have hdest : wp may (destOf p q.pagetable (PGROUNDDOWN va)) (fun r s' =>
      s' = s ∧ r = PTE2PA (entryOf s q (vpn va))) s := by
    have hnz := page_ne_zero h hW.1
    have hval : (if mapping s.mem q.pagetable (vpn (PGROUNDDOWN va)) &&& PTE_U ≠ 0 then
        PTE2PA (mapping s.mem q.pagetable (vpn (PGROUNDDOWN va))) else 0) =
          PTE2PA (entryOf s q (vpn va)) := by
      rw [vpn_down]
      exact if_pos hW.1
    unfold destOf
    rw [if_neg (UInt64.not_le.mpr hmax), wp_bind, pageOf, wp_bind]
    refine wp_of_ok (walkaddr_eq s q.pagetable _) ?_
    rw [hval, if_neg hnz, wp_pure, if_neg hnz, wp_bind]
    obtain ⟨t, hwalk, hentry⟩ := walk_mapping hmax hM.ne_zero
    refine wp_of_ok hwalk ?_
    rw [vpn_down] at hentry ⊢
    change wp may (fetch t (Fin.ofNat 512 (vpn va)) >>= _) _ s
    rw [wp_bind, fetch, wp_look, hentry]
    change wp may (if entryOf s q (vpn va) &&& PTE_W = 0 then _ else _) _ s
    rw [if_neg hW.2, wp_pure]
    exact ⟨rfl, rfl⟩
  have hpos' : len > 0 := hpos
  have hin : inPage va len = len := by
    rw [← UInt64.toNat_inj, toNat_inPage]
    unfold first
    omega
  have hfirst : first va.toNat len.toNat = len.toNat := by
    unfold first
    omega
  rw [copyout, hfuel, copyoutLoop, if_pos hpos']
  refine wp_call hdest fun pa s1 hd => ?_
  obtain ⟨rfl, rfl⟩ := hd
  rw [if_neg (page_ne_zero h hW.1)]
  refine wp_call (moved h hW rfl) fun _ s2 hm => ?_
  obtain ⟨hch, hfail, -, harr⟩ := hm
  rw [hfirst] at harr
  have hend : ¬len - len > 0 := by
    rw [UInt64.sub_self]
    decide
  rw [copyoutLoop, hin, if_neg hend, wp_pure]
  exact ⟨rfl, hch, hfail, harr⟩

/-! ### Arguments -/

lemma toNat_pushed (h : n ≤ sp.toNat) : (pushed sp n).toNat = (sp.toNat - n) / 16 * 16 := by
  have hsp := sp.toNat_lt
  have hn : (UInt64.ofNat n).toNat = n := UInt64.toNat_ofNat_of_lt' (by
    have hsize : UInt64.size = 2 ^ 64 := rfl
    omega)
  have hsub : (sp - UInt64.ofNat n).toNat = sp.toNat - n := by
    rw [UInt64.toNat_sub_of_le _ _ ?_, hn]
    change (UInt64.ofNat n).toNat ≤ sp.toNat
    rwa [hn]
  have hmod : ((sp - UInt64.ofNat n) % 16).toNat = (sp.toNat - n) % 16 := by
    rw [UInt64.toNat_mod, hsub]
    rfl
  have hle : (sp - UInt64.ofNat n) % 16 ≤ sp - UInt64.ofNat n := by
    change ((sp - UInt64.ofNat n) % 16).toNat ≤ (sp - UInt64.ofNat n).toNat
    rw [hmod, hsub]
    exact Nat.mod_le _ _
  rw [pushed, UInt64.toNat_sub_of_le _ _ hle, hmod, hsub]
  omega

/-- The stack is a page of the new address space, from `base` on, and `sp` is in it. -/
structure Within (s : Ram) (q : Proc) (base sp : UInt64) : Prop where
  writable : Writable s q (vpn base)
  aligned : base.toNat % 4096 = 0
  low : 4096 ≤ base.toNat
  le : base.toNat ≤ sp.toNat
  high : sp.toNat ≤ base.toNat + 4096

/-- What is pushed is in the page, unless it is below. -/
lemma Within.pushed (h : Within s q base sp) (hpos : 0 < n) (hn : n ≤ 4096)
    (hge : ¬pushed sp n < base) : base.toNat ≤ (Exec.pushed sp n).toNat ∧
      (Exec.pushed sp n).toNat + n ≤ sp.toNat ∧ vpn (Exec.pushed sp n) = vpn base := by
  have hlow := h.low
  have hle := h.le
  have hhigh := h.high
  have hal := h.aligned
  have hnat : (Exec.pushed sp n).toNat = _ := toNat_pushed (by omega)
  have hge' : ¬(Exec.pushed sp n).toNat < base.toNat := hge
  refine ⟨by omega, by omega, ?_⟩
  unfold vpn
  omega

/-- `n` bytes are pushed. -/
lemma push_spec (p : Proc) (htf : tf ∉ s.free) (h : Draft s s1 q)
    (hw : Within s1 q base sp) (hpos : 0 < n) (hn : n ≤ 4096) (hge : ¬pushed sp n < base) :
    wp may (copyout p q.pagetable (pushed sp n) src (UInt64.ofNat n)) (fun r s2 => r.1 = 0 ∧
      Draft s s2 q ∧ s2.failed = s1.failed ∧ Within s2 q base (pushed sp n) ∧
        image s2 ⟨q, tf⟩ = (image s1 ⟨q, tf⟩).store (pushed sp n).toNat n src) s1 := by
  obtain ⟨h1, h2, h3⟩ := hw.pushed hpos hn hge
  have hlen : (UInt64.ofNat n).toNat = n := UInt64.toNat_ofNat_of_lt' (by
    have hsize : UInt64.size = 2 ^ 64 := rfl
    omega)
  have hhigh := hw.high
  have hal := hw.aligned
  have hspec : wp may (copyout p q.pagetable (pushed sp n) src (UInt64.ofNat n)) (fun r s' =>
      r.1 = 0 ∧ Change s1 s' q (fun _ => False) ∧ s'.failed = s1.failed ∧
        Arrived s1 s' q (pushed sp n).toNat (UInt64.ofNat n).toNat src) s1 :=
    copyout_page p h.whole.toSound (by rw [h3]; exact hw.writable) (by omega) (by omega)
  refine wp_mono hspec fun r s2 hr => ?_
  obtain ⟨hr0, hch, hfail, harr⟩ := hr
  rw [hlen] at harr
  refine ⟨hr0, h.change hch, hfail, ⟨?_, hal, hw.low, h1, by omega⟩, h.arrived htf hch harr⟩
  exact (Writable.congr ((hch.map _).resolve_right fun hf => hf.1)).mpr hw.writable

/-- What the loop over the arguments comes to. -/
def Pushes (s s1 s2 : Ram) (q : Proc) (tf base : UInt64)
    (w : Option (Image × UInt64 × List UInt64)) (o : Option (UInt64 × List UInt64)) : Prop :=
  Draft s s2 q ∧ s2.failed = s1.failed ∧
    (o = none ∧ w = none ∨ ∃ r, o = some r ∧ w = some (image s2 ⟨q, tf⟩, r) ∧
      Within s2 q base r.1 ∧ r.2.length ≤ MAXARG)

lemma pushArgs_spec (p : Proc) (htf : tf ∉ s.free)
    (hargs : ∀ arg ∈ argv, arg.length < 4096) (sp : UInt64) (ustack : List UInt64)
    (h : Draft s s1 q) (hw : Within s1 q base sp) (hn : ustack.length ≤ MAXARG) :
    wp may (pushArgs p q.pagetable base argv sp ustack) (fun o s2 =>
      Pushes s s1 s2 q tf base (withArgs base argv sp ustack (image s1 ⟨q, tf⟩)) o) s1 := by
  induction argv generalizing s1 sp ustack with
  | nil =>
    rw [pushArgs, wp_pure]
    exact ⟨h, rfl, .inr ⟨_, rfl, rfl, hw, hn⟩⟩
  | cons arg argv ih =>
    have harg := hargs arg List.mem_cons_self
    rw [pushArgs, wp_ite]
    refine ⟨fun hfull => ?_, fun hroom => ?_⟩
    · rw [wp_pure, withArgs, if_pos (.inl hfull)]
      exact ⟨h, rfl, .inl ⟨rfl, rfl⟩⟩
    rw [wp_ite]
    refine ⟨fun hlow => ?_, fun hge => ?_⟩
    · rw [wp_pure, withArgs, if_pos (.inr hlow)]
      exact ⟨h, rfl, .inl ⟨rfl, rfl⟩⟩
    have hpush : wp may (copyout p q.pagetable (pushed sp (arg.length + 1)) (char arg)
        (UInt64.ofNat (arg.length + 1))) (fun r s2 => r.1 = 0 ∧ Draft s s2 q ∧
          s2.failed = s1.failed ∧ Within s2 q base (pushed sp (arg.length + 1)) ∧
          image s2 ⟨q, tf⟩ = (image s1 ⟨q, tf⟩).store (pushed sp (arg.length + 1)).toNat
            (arg.length + 1) (char arg)) s1 :=
      push_spec p htf h hw (Nat.succ_pos _) harg hge
    refine wp_call hpush fun r s2 hr => ?_
    obtain ⟨hr0, h2, hfail, hw2, him⟩ := hr
    have hcons : withArgs base (arg :: argv) sp ustack (image s1 ⟨q, tf⟩) =
        withArgs base argv (pushed sp (arg.length + 1)) (ustack ++ [pushed sp (arg.length + 1)])
          (image s2 ⟨q, tf⟩) := by
      rw [withArgs, if_neg (not_or.mpr ⟨hroom, hge⟩), him]
    have hpos : ¬r.1 < 0 := by
      rw [hr0]
      decide
    rw [if_neg hpos, hcons]
    refine wp_mono (ih (fun arg ha => hargs arg (List.mem_cons_of_mem _ ha)) _ _ h2 hw2 ?_)
      fun o s3 ho => ?_
    · rw [List.length_append, List.length_singleton]
      exact Nat.lt_of_not_le hroom
    · unfold Pushes at ho ⊢
      rw [hfail] at ho
      exact ho

/-! ### `stack` -/

lemma pagesUp_PGROUNDUP (h : sz ≤ TRAPFRAME) :
    (PGROUNDUP sz).toNat = pagesUp sz * 4096 ∧ pagesUp (PGROUNDUP sz) = pagesUp sz := by
  have hle : sz.toNat ≤ TRAPFRAME.toNat := h
  rw [toNat_TRAPFRAME] at hle
  have hup : (PGROUNDUP sz).toNat = (sz.toNat + 4095) / 4096 * 4096 :=
    toNat_PGROUNDUP_of_le (by omega)
  unfold pagesUp
  rw [hup]
  omega

/-- An address space with all its pages there, up to the end of its last page. -/
lemma Draft.rounded (tf : UInt64) (h : Draft s s1 ⟨sz, pt⟩) : Draft s s1 ⟨PGROUNDUP sz, pt⟩ ∧
    (Open s1 ⟨sz, pt⟩ → Open s1 ⟨PGROUNDUP sz, pt⟩) ∧
    image s1 ⟨⟨PGROUNDUP sz, pt⟩, tf⟩ =
      { image s1 ⟨⟨sz, pt⟩, tf⟩ with sz := PGROUNDUP sz } := by
  obtain ⟨-, hup⟩ := pagesUp_PGROUNDUP h.whole.size
  have hs : Whole s1 ⟨sz, pt⟩ := h.whole
  have hfull : ∀ k < pagesUp sz, entryOf s1 ⟨sz, pt⟩ k ≠ 0 := h.full
  have hentry : entryOf s1 ⟨PGROUNDUP sz, pt⟩ = entryOf s1 ⟨sz, pt⟩ := by
    rw [entryOf_mk, entryOf_mk]
  have howned : owned s1 ⟨PGROUNDUP sz, pt⟩ = owned s1 ⟨sz, pt⟩ := by
    rw [owned, owned, hentry]
  have hlazy : ∀ k, ¬Lazy s1 ⟨PGROUNDUP sz, pt⟩ k ∧ ¬Lazy s1 ⟨sz, pt⟩ k := by
    intro k
    refine ⟨fun hl => hfull k ?_ ?_, fun hl => hfull k (lt_pagesUp.mpr hl.1) hl.2⟩
    · rw [← hup]
      exact lt_pagesUp.mpr hl.1
    · rw [← hentry]
      exact hl.2
  have hmapped : ∀ k, Mapped s1 ⟨PGROUNDUP sz, pt⟩ k ↔ Mapped s1 ⟨sz, pt⟩ k := by
    intro k
    unfold Mapped
    rw [hentry]
  have hwhole : Whole s1 ⟨PGROUNDUP sz, pt⟩ := by
    refine ⟨⟨hs.proper, ?_, ?_, le_TRAPFRAME.mpr ?_, ?_, ?_, ?_⟩, hs.low⟩
    · rw [howned]
      exact hs.once
    · rw [hentry]
      exact hs.frame
    · rw [hup]
      exact hs.pages
    · rw [hentry, hup]
      exact hs.below
    · rw [hentry]
      exact hs.high
    · rw [hentry]
      exact hs.leaf
  refine ⟨⟨h.toLater, hwhole, ?_, h.other, ?_⟩, fun ho k hk => ?_, ?_⟩
  · rw [howned]
    exact h.keep
  · rw [hup, hentry]
    exact hfull
  · rw [hmapped]
    refine ho k ?_
    rw [← hup]
    exact hk
  · ext1
    · rfl
    · funext k
      change rightsOf s1 ⟨PGROUNDUP sz, pt⟩ k = rightsOf s1 ⟨sz, pt⟩ k
      rw [rightsOf, rightsOf, if_neg (hlazy k).1, if_neg (hlazy k).2, hentry]
    · funext va
      change view s1 ⟨PGROUNDUP sz, pt⟩ va = view s1 ⟨sz, pt⟩ va
      rw [view, view, if_neg (hlazy _).1, if_neg (hlazy _).2, hentry]
      simp only [hmapped]
    · rfl

/-- What `stack` comes to. -/
def Stacked (s s1 s2 : Ram) (pt tf : UInt64) (w : Option (Image × UInt64)) (r : Option UInt64 × UInt64) :
    Prop :=
  Draft s s2 ⟨r.2, pt⟩ ∧
    (s2.failed = s1.failed ∧
        (r.1 = none ∧ w = none ∨
          ∃ sp, r.1 = some sp ∧ w = some (image s2 ⟨⟨r.2, pt⟩, tf⟩, sp)) ∨
      s1.failed < s2.failed ∧ r.1 = none)

lemma toNat_stack : ((USERSTACK + 1) * PGSIZE).toNat = 8192 ∧ (USERSTACK * PGSIZE).toNat = 4096 :=
  ⟨rfl, rfl⟩

/-- The new pages of the stack may be written to. -/
lemma stack_writable {sz1 : UInt64} (h : Draft s s2 ⟨sz1, pt⟩)
    (him : image s2 ⟨⟨sz1, pt⟩, tf⟩ = (image s1 ⟨⟨sz, pt⟩, tf⟩).span sz1 (PTE_R ||| PTE_U ||| PTE_W))
    (h1 : pagesUp sz ≤ k) (h2 : k < pagesUp sz1) : Writable s2 ⟨sz1, pt⟩ k := by
  have hcan : (image s2 ⟨⟨sz1, pt⟩, tf⟩).CanWrite k := by
    have hrights : (image s2 ⟨⟨sz1, pt⟩, tf⟩).rights k = PTE_R ||| PTE_U ||| PTE_W := by
      rw [him]
      change (if _ then if k < pagesUp sz then _ else _ else _) = _
      rw [if_pos h2, if_neg (not_lt.mpr h1)]
    unfold Image.CanWrite
    rw [hrights]
    decide
  refine ((canWrite_iff h.whole.toSound).mp hcan).resolve_right fun hl => ?_
  exact h.full k h2 hl.2

/-- The strings and the pointers to them. -/
lemma pointers_spec {γ : Type} {Q : γ → Ram → Prop} (p : Proc) (htf : tf ∉ s.free)
    {r : UInt64 × List UInt64} (h : Draft s s1 q) (hw : Within s1 q base r.1)
    (hn : r.2.length ≤ MAXARG) {x : γ} {y : UInt64 → γ}
    (hbad : withPointers base (image s1 ⟨q, tf⟩, r) = none → Q x s1)
    (hgood : ∀ sp s2, Draft s s2 q → s2.failed = s1.failed →
      withPointers base (image s1 ⟨q, tf⟩, r) = some (image s2 ⟨q, tf⟩, sp) → Q (y sp) s2) :
    wp may (if pushed r.1 ((r.2.length + 1) * 8) < base then pure x
      else do
        let c ← copyout p q.pagetable (pushed r.1 ((r.2.length + 1) * 8)) (bytesOf (r.2 ++ [0]))
          (UInt64.ofNat ((r.2.length + 1) * 8))
        if c.1 < 0 then pure x else pure (y (pushed r.1 ((r.2.length + 1) * 8)))) Q s1 := by
  have hsmall : (r.2.length + 1) * 8 ≤ 4096 := by
    unfold MAXARG at hn
    omega
  rw [wp_ite]
  refine ⟨fun hlow => ?_, fun hge => ?_⟩
  · rw [wp_pure]
    refine hbad ?_
    rw [withPointers]
    exact if_pos hlow
  · refine wp_call (push_spec p htf h hw (by omega) hsmall hge) fun c s2 hc => ?_
    obtain ⟨hc0, h2, hfail, -, him⟩ := hc
    have hpos : ¬c.1 < 0 := by
      rw [hc0]
      decide
    rw [if_neg hpos, wp_pure]
    refine hgood _ s2 h2 hfail ?_
    rw [withPointers, him]
    exact if_neg hge

lemma withStack_eq {i : Image} {newsz : UInt64} (h : (extend { i with sz := PGROUNDUP i.sz }
    (PGROUNDUP i.sz + (USERSTACK + 1) * PGSIZE) PTE_W).sz = newsz) :
    withStack i argv = (withArgs (newsz - USERSTACK * PGSIZE) argv newsz []
      (guard (extend { i with sz := PGROUNDUP i.sz }
        (PGROUNDUP i.sz + (USERSTACK + 1) * PGSIZE) PTE_W) (vpn (PGROUNDUP i.sz)))).bind
      (withPointers (newsz - USERSTACK * PGSIZE)) := by
  subst h
  rfl

/-- **`stack`** makes what `withStack` says, or gives up. -/
theorem stack_spec (p : Proc) (hs : Pool s) (htf : tf ∉ s.free)
    (hargs : ∀ arg ∈ argv, arg.length < 4096) (h : Draft s s1 ⟨sz, pt⟩) (ho : Open s1 ⟨sz, pt⟩) :
    wp may (stack p pt sz argv)
      (fun r s2 => Stacked s s1 s2 pt tf (withStack (image s1 ⟨⟨sz, pt⟩, tf⟩) argv) r) s1 := by
  obtain ⟨hrnd, hup⟩ : (PGROUNDUP sz).toNat = pagesUp sz * 4096 ∧
      pagesUp (PGROUNDUP sz) = pagesUp sz := pagesUp_PGROUNDUP h.whole.size
  obtain ⟨h', hopen, him⟩ := Draft.rounded tf h
  obtain ⟨w, hw⟩ : ∃ w, w = withStack (image s1 ⟨⟨sz, pt⟩, tf⟩) argv := ⟨_, rfl⟩
  rw [← hw]
  have hroom := h.room hs
  have hcount : pagesUp sz + s1.free.card ≤ FRAMES := hroom
  unfold FRAMES at hcount
  obtain ⟨htwo, hone⟩ := toNat_stack
  have hnew : (PGROUNDUP sz + (USERSTACK + 1) * PGSIZE).toNat = pagesUp sz * 4096 + 8192 := by
    rw [UInt64.toNat_add, htwo, hrnd]
    exact Nat.mod_eq_of_lt (by omega)
  obtain ⟨newsz, hnewsz⟩ : ∃ x, x = PGROUNDUP sz + (USERSTACK + 1) * PGSIZE := ⟨_, rfl⟩
  have hge : ¬newsz < PGROUNDUP sz := by
    intro hlt
    have hlt' : newsz.toNat < (PGROUNDUP sz).toNat := hlt
    rw [hnewsz, hnew, hrnd] at hlt'
    omega
  have hsize : (extend (image s1 ⟨⟨PGROUNDUP sz, pt⟩, tf⟩) newsz PTE_W).sz = newsz := by
    rw [extend_sz]
    exact if_neg hge
  have hwith : w = (withArgs (newsz - USERSTACK * PGSIZE) argv newsz []
      (guard (extend (image s1 ⟨⟨PGROUNDUP sz, pt⟩, tf⟩) newsz PTE_W) (vpn (PGROUNDUP sz)))).bind
      (withPointers (newsz - USERSTACK * PGSIZE)) := by
    rw [hnewsz] at hsize ⊢
    rw [him] at hsize ⊢
    rw [hw]
    exact withStack_eq hsize
  unfold stack
  dsimp only
  rw [← hnewsz]
  have hperm : (PTE_R ||| PTE_U ||| PTE_W ||| PTE_V) &&& RIGHTS = PTE_R ||| PTE_U ||| PTE_W := by
    decide
  have halloc : wp may (uvmalloc pt (PGROUNDUP sz) newsz PTE_W)
      (fun r s2 => Extended s s1 s2 ⟨PGROUNDUP sz, pt⟩ tf newsz PTE_W r) s1 :=
    uvmalloc_extends h' hs htf (by decide) hperm
  refine wp_call halloc fun sz1 s2 hx => ?_
  rcases hx with ⟨rfl, hfail, hd⟩ | ⟨hfail, hd, hopen2, him2⟩
  · rw [if_pos rfl, wp_pure]
    exact ⟨hd, .inr ⟨hfail, rfl⟩⟩
  have hsz1 : sz1 = newsz := (congrArg Image.sz him2).trans hsize
  subst hsz1
  rw [← him2] at hwith
  have hspan : image s2 ⟨⟨sz1, pt⟩, tf⟩ =
      (image s1 ⟨⟨PGROUNDUP sz, pt⟩, tf⟩).span sz1 (PTE_R ||| PTE_U ||| PTE_W) := by
    rw [him2, extend]
    exact if_neg hge
  have hnz : ¬sz1 = 0 := by
    intro hz
    have hzero : (0 : UInt64).toNat = 0 := rfl
    rw [hz] at hnewsz
    rw [← hnewsz] at hnew
    omega
  have hpages : pagesUp sz1 = pagesUp sz + 2 := by
    rw [hnewsz]
    unfold pagesUp at hnew ⊢
    rw [hnew]
    omega
  -- the guard page
  have hguard : sz1 - (USERSTACK + 1) * PGSIZE = PGROUNDUP sz := by
    rw [hnewsz, UInt64.add_sub_cancel]
  have hvpn : vpn (PGROUNDUP sz) = pagesUp sz := by
    unfold vpn
    rw [hrnd]
    omega
  have hm : Mapped s2 ⟨sz1, pt⟩ (vpn (PGROUNDUP sz)) := by
    have hlt : vpn (PGROUNDUP sz) < pagesUp sz1 := by omega
    exact hopen2 (hopen ho) _ hlt
  obtain ⟨htop, t, htable, -⟩ := mapping_table hm.ne_zero
  rw [if_neg hnz, hguard]
  refine wp_call (uvmclear_spec hd.whole.proper (.inl (lt_MAXVA.mpr htop)) (.inl ?_))
    fun _ s3 h3 => ?_
  · rw [htable]
    exact Option.some_ne_none t
  obtain ⟨-, hfail3, hedit⟩ := h3
  obtain ⟨hd3, hother, him3⟩ := Draft.guarded hd htf hm hedit
  rw [← him3] at hwith
  -- the page of the stack
  have hbase : (sz1 - USERSTACK * PGSIZE).toNat = pagesUp sz * 4096 + 4096 := by
    rw [UInt64.toNat_sub_of_le, hone, hnewsz, hnew]
    · omega
    · change (USERSTACK * PGSIZE).toNat ≤ sz1.toNat
      rw [hone, hnewsz, hnew]
      omega
  have hsz1 : sz1.toNat = pagesUp sz * 4096 + 8192 := by
    rw [hnewsz]
    exact hnew
  have hwithin : Within s3 ⟨sz1, pt⟩ (sz1 - USERSTACK * PGSIZE) sz1 := by
    have hk : vpn (sz1 - USERSTACK * PGSIZE) = pagesUp sz + 1 := by
      unfold vpn
      rw [hbase]
      omega
    refine ⟨?_, by omega, by omega, by omega, by omega⟩
    rw [hk]
    refine (Writable.congr (hother _ ?_)).mpr (stack_writable hd hspan ?_ ?_)
    · omega
    · omega
    · omega
  have hnil : ([] : List UInt64).length ≤ MAXARG := Nat.zero_le _
  have hpush : wp may (pushArgs p pt (sz1 - USERSTACK * PGSIZE) argv sz1 []) (fun o s4 =>
      Pushes s s3 s4 ⟨sz1, pt⟩ tf (sz1 - USERSTACK * PGSIZE) (withArgs (sz1 - USERSTACK * PGSIZE)
        argv sz1 [] (image s3 ⟨⟨sz1, pt⟩, tf⟩)) o) s3 :=
    pushArgs_spec p htf hargs sz1 [] hd3 hwithin hnil
  refine wp_call hpush fun o s4 h4 => ?_
  obtain ⟨hd4, hfail4, hcase⟩ := h4
  have hsame : s4.failed = s1.failed := hfail4.trans (hfail3.trans hfail)
  rcases hcase with ⟨rfl, hnone⟩ | ⟨r, rfl, hsome, hin, hlen⟩
  · rw [Option.elim_none, wp_pure]
    rw [hnone, Option.bind_none] at hwith
    exact ⟨hd4, .inl ⟨hsame, .inl ⟨rfl, hwith⟩⟩⟩
  · rw [hsome, Option.bind_some] at hwith
    rw [Option.elim_some]
    refine pointers_spec (q := ⟨sz1, pt⟩) (x := (none, sz1)) (y := fun sp => (some sp, sz1)) p htf
      hd4 hin hlen (fun hno => ?_) fun sp s5 h5 hfail5 hyes => ?_
    · exact ⟨hd4, .inl ⟨hsame, .inl ⟨rfl, hwith.trans hno⟩⟩⟩
    · exact ⟨h5, .inl ⟨hfail5.trans hsame, .inr ⟨sp, rfl, hwith.trans hyes⟩⟩⟩

/-! ### `kexec` -/

/-- The bytes and the rights are what they were. -/
lemma image_moved (he : entryOf s' q = entryOf s q) (hv : ∀ va, view s' q va = view s q va) :
    image s' ⟨q, tf⟩ =
      { image s ⟨q, tf⟩ with regs := fun i => reg s' ⟨q, tf⟩ (i.castLE regs_le) } := by
  have hlazy : ∀ k, Lazy s' q k ↔ Lazy s q k := fun k => Lazy.congr (congrFun he k)
  ext1
  · rfl
  · funext k
    change rightsOf s' q k = rightsOf s q k
    simp only [rightsOf, hlazy, he]
  · exact funext hv
  · rfl

/-- A new address space has nothing for its program. -/
lemma draft_made {trampoline trapframe r : UInt64} (hm : Whole s1 ⟨0, r⟩)
    (hkeep : owned s1 ⟨0, r⟩ + s1.free = s.free) (hl : Later s s1)
    (hother : ∀ x, x ∉ s.free → s1.mem x = s.mem x)
    (hentry : entryOf s1 ⟨0, r⟩ = kernelMap trampoline trapframe) (htf : tf ∉ s.free) :
    Draft s s1 ⟨0, r⟩ ∧ Open s1 ⟨0, r⟩ ∧ image s1 ⟨⟨0, r⟩, tf⟩ =
      ⟨0, fun _ => 0, fun _ => none, fun i => reg s ⟨⟨0, r⟩, tf⟩ (i.castLE regs_le)⟩ := by
  have hempty : ∀ k < USER, entryOf s1 ⟨0, r⟩ k = 0 := (owned_bare hentry).2
  have hlazy : ∀ k, ¬Lazy s1 ⟨0, r⟩ k := fun k hl => absurd hl.1 (Nat.not_lt_zero _)
  have hnone : ∀ k, ¬k < pagesUp 0 := fun k => Nat.not_lt_zero k
  refine ⟨⟨hl, hm, hkeep, hother, fun k hk => absurd hk (hnone k)⟩,
    fun k hk => absurd hk (hnone k), ?_⟩
  ext1
  · rfl
  · funext k
    change rightsOf s1 ⟨0, r⟩ k = 0
    by_cases hk : k < USER
    · rw [rightsOf, if_pos hk, if_neg (hlazy k), hempty k hk, UInt64.zero_and]
    · rw [rightsOf, if_neg hk]
  · funext va
    refine view_none (fun hmap => ?_) (hlazy _)
    exact hmap.ne_zero (hempty _ (hm.mapped_lt hmap))
  · funext i
    change entry (s1.mem tf) _ = entry (s.mem tf) _
    rw [hother tf htf]

/-- Where all pages that have been taken are free again, nothing has happened. -/
lemma untouched (h : Good s t) (hone : ∀ x, (Holding.pages s t + s.free).count x ≤ 1)
    (hl : Later s s') (hfree : s'.free = s.free) (hmem : ∀ x, x ∉ s.free → s'.mem x = s.mem x) :
    Act s s' (some t) (some t) ∧ image s' t = image s t := by
  obtain ⟨-, htf⟩ := frame_out hone
  have hout : ∀ x ∈ owned s t.mem, s'.mem x = s.mem x := fun x hx => by
    refine hmem x ?_
    exact Multiset.disjoint_left.mp (Multiset.nodup_add.mp h.whole.nodup).2.2 hx
  obtain ⟨hwhole, howned, hentry, hview⟩ := h.whole.congr hl hout (by rw [hfree]; exact h.whole.once)
    fun x hx => h.whole.proper.frame x (Multiset.mem_add.mpr (.inr (by rwa [hfree] at hx)))
  have hkept : Kept s s' t.mem t.mem :=
    ⟨hl, hwhole, by rw [howned, hfree], fun x _ hx => hmem x hx⟩
  refine ⟨act_of_kept h hkept, ?_⟩
  have him : image s' ⟨t.mem, t.trapframe⟩ = _ := image_moved hentry hview
  refine him.trans ?_
  ext1
  · rfl
  · rfl
  · rfl
  · funext i
    change entry (s'.mem t.trapframe) _ = entry (s.mem t.trapframe) _
    rw [hmem _ htf]

/-- The new pages are given back. -/
lemma Draft.dropped (h : Draft s s2 q) (hf : Freed s2 s3 (owned s2 q) s2.free) :
    Later s s3 ∧ s3.free = s.free ∧ ∀ x, x ∉ s.free → s3.mem x = s.mem x := by
  refine ⟨h.toLater.trans hf.toLater, hf.free.trans h.keep, fun x hx => ?_⟩
  have hout : x ∉ owned s2 q + s2.free := by rwa [h.keep]
  rw [Multiset.mem_add, not_or] at hout
  rw [hf.frame x hout.1 hout.2, h.other x hx]

/-- What `kexec` comes to, where `o` is the image it is to make. -/
def Execed (s s' : Ram) (t : Task) (o : Option Image) (argc : ℕ) (r : ℤ × Task) : Prop :=
  Act s s' (some t) (some r.2) ∧
    (s'.failed = s.failed ∧ r.1 = argc ∧ o = some (image s' r.2) ∨
      r = (-1, t) ∧ image s' t = image s t ∧ (s'.failed = s.failed ∧ o = none ∨ s.failed < s'.failed))

/-- `kexec` gives up. -/
lemma giveUp_spec {o : Option Image} {argc : ℕ} (h : Good s t)
    (hone : ∀ x, (Holding.pages s t + s.free).count x ≤ 1) (hd : Draft s s2 ⟨sz, pt⟩)
    (ho : s2.failed = s.failed ∧ o = none ∨ s.failed < s2.failed) :
    wp may (proc_freepagetable pt sz >>= fun _ => pure (-1, t))
      (fun r s' => Execed s s' t o argc r ∧ s'.failed = s2.failed) s2 := by
  have hdrop : wp may (proc_freepagetable pt sz)
      (fun _ s' => Freed s2 s' (owned s2 ⟨sz, pt⟩) s2.free) s2 :=
    free_spec (p := ⟨sz, pt⟩) hd.whole
  refine wp_call hdrop fun _ s3 hf => ?_
  obtain ⟨hl, hfree, hmem⟩ := Draft.dropped hd hf
  obtain ⟨hact, him⟩ := untouched h hone hl hfree hmem
  rw [wp_pure]
  refine ⟨⟨hact, .inr ⟨rfl, him, ?_⟩⟩, hf.same⟩
  rw [hf.same]
  exact ho

/-- The registers with which the program starts. -/
lemma start_spec {α : Type} {sp pc : UInt64} {z : Eff Ram α} {Q : α → Ram → Prop}
    (h : ∀ pg : Page, (∀ i : Fin 36, entry pg (i.castLE regs_le) =
      started (fun i => entry (s.mem tf) (i.castLE regs_le)) pc sp i) →
        wp may z Q { s with mem := Function.update s.mem tf pg }) :
    wp may (assign tf A1 sp >>= fun _ => assign tf EPC pc >>= fun _ => assign tf SP sp >>=
      fun _ => z) Q s := by
  rw [wp_bind, assign, wp_change, wp_bind, assign, wp_change, wp_bind, assign, wp_change]
  simp only [Ram.put, Function.update_self, Function.update_idem]
  refine h _ fun i => ?_
  unfold started
  split_ifs with hsp hepc ha1
  · rw [hsp, entry_setEntry_self]
  · rw [entry_setEntry_ne hsp, hepc, entry_setEntry_self]
  · rw [entry_setEntry_ne hsp, entry_setEntry_ne hepc, ha1, entry_setEntry_self]
  · rw [entry_setEntry_ne hsp, entry_setEntry_ne hepc, entry_setEntry_ne ha1]

/-- The program starts in its new address space, and the old one is given back. -/
lemma install_spec {pg : Page} (h : Good s t)
    (hone : ∀ x, (Holding.pages s t + s.free).count x ≤ 1) (hd : Draft s s2 q) (hl : Later s2 s3)
    (hfree : s3.free = s2.free) (hmem : s3.mem = Function.update s2.mem t.trapframe pg) :
    wp may (proc_freepagetable t.mem.pagetable t.mem.sz) (fun _ s' =>
      Act s s' (some t) (some ⟨q, t.trapframe⟩) ∧ s'.failed = s3.failed ∧
        image s' ⟨q, t.trapframe⟩ =
          { image s2 ⟨q, t.trapframe⟩ with regs := fun i => entry pg (i.castLE regs_le) }) s3 := by
  obtain ⟨htfo, htf⟩ := frame_out hone
  have hdis := (Multiset.nodup_add.mp h.whole.nodup).2.2
  have hnew : owned s2 q ≤ s.free := by
    rw [← hd.keep]
    exact Multiset.le_add_right _ _
  have hrest : s2.free ≤ s.free := by
    rw [← hd.keep]
    exact Multiset.le_add_left _ _
  have hother : ∀ x, x ≠ t.trapframe → s3.mem x = s2.mem x := fun x hx => by
    rw [hmem, Function.update_of_ne hx]
  have hframe : ∀ x ∈ s.free, s.Frame x := fun x hx =>
    h.whole.proper.frame x (Multiset.mem_add.mpr (.inr hx))
  -- both address spaces, after the trapframe has been written
  obtain ⟨holdw, holdo, -, -⟩ := h.whole.congr (hd.toLater.trans hl) (fun x hx => by
      rw [hother x fun he => htfo (he ▸ hx), hd.other x (Multiset.disjoint_left.mp hdis hx)])
    (fun x => by
      rw [hfree]
      exact (Multiset.count_le_of_le x (add_le_add_right hrest _)).trans (h.whole.once x))
    fun x hx => hframe x (Multiset.mem_of_le hrest (by rwa [hfree] at hx))
  obtain ⟨hneww, hnewo, hnewe, hnewv⟩ := hd.whole.congr hl
    (fun x hx => hother x fun he => htf (Multiset.mem_of_le hnew (he ▸ hx)))
    (by rw [hfree]; exact hd.whole.once)
    fun x hx => hd.whole.proper.frame x (Multiset.mem_add.mpr (.inr (by rwa [hfree] at hx)))
  refine wp_mono (free_spec holdw) fun _ s4 hf => ?_
  rw [holdo] at hf
  have hfree4 : s4.free = owned s t.mem + s2.free := by rw [hf.free, hfree]
  have hmem4 : ∀ x, x ∉ owned s t.mem → x ∉ s2.free → s4.mem x = s3.mem x := fun x h1 h2 =>
    hf.frame x h1 (by rwa [hfree])
  have hlater : Later s s4 := hd.toLater.trans (hl.trans hf.toLater)
  have hnod := (Multiset.nodup_add.mp hd.whole.nodup).2.2
  have hall : owned s2 q + s4.free = owned s t.mem + s.free := by
    rw [hfree4, ← hd.keep]
    abel
  obtain ⟨hw4, ho4, he4, hv4⟩ := hneww.congr hf.toLater (fun x hx => by
      rw [hnewo] at hx
      exact hmem4 x (fun hx' => Multiset.disjoint_left.mp hdis hx' (Multiset.mem_of_le hnew hx))
        (Multiset.disjoint_left.mp hnod hx))
    (by rw [hnewo, hall]; exact h.whole.once)
    fun x hx => by
      rw [hfree4] at hx
      refine (hd.toLater.trans hl).frame.mpr ?_
      rcases Multiset.mem_add.mp hx with hx | hx
      · exact h.pages_frame (Multiset.mem_add.mpr (.inl hx))
      · exact hframe x (Multiset.mem_of_le hrest hx)
  refine ⟨⟨hlater, ?_, ?_, fun x h1 h2 => ?_⟩, hf.same, ?_⟩
  · rintro _ ⟨⟩
    exact ⟨hw4, hlater.frame.mpr h.frame⟩
  · rw [has_some, has_some, Holding.pages, Holding.pages]
    change owned s4 q + {t.trapframe} + s4.free = _
    rw [ho4, hnewo, add_right_comm, hall, add_right_comm]
  · rw [has_some, Holding.pages, Multiset.mem_add, not_or, Multiset.mem_singleton] at h1
    rw [hmem4 x h1.1 fun hx => h2 (Multiset.mem_of_le hrest hx), hother x h1.2, hd.other x h2]
  · have him : image s4 ⟨q, t.trapframe⟩ = { image s2 ⟨q, t.trapframe⟩ with
        regs := fun i => reg s4 ⟨q, t.trapframe⟩ (i.castLE regs_le) } :=
      image_moved (he4.trans hnewe) fun va => (hv4 va).trans (hnewv va)
    have hregs : (fun i : Fin 36 => reg s4 ⟨q, t.trapframe⟩ (i.castLE regs_le)) =
        fun i => entry pg (i.castLE regs_le) := by
      funext i
      rw [reg, hmem4 _ htfo fun hx => htf (Multiset.mem_of_le hrest hx), hmem, Function.update_self]
    rw [him, hregs]

/-- What has been loaded is not more than there is memory. -/
def Small (f : File) (regs : Fin 36 → UInt64) : Prop :=
  ∀ m, loaded f regs = some m → pagesUp m.sz ≤ FRAMES

/-- **`kexec`** either makes the image of the new program, in pages that were free, and gives back all
of the old one, or changes nothing. -/
theorem kexec_spec (trampoline : UInt64) (argv : Argv) (h : Good s t)
    (hone : ∀ x, (Holding.pages s t + s.free).count x ≤ 1) :
    wp may (kexec trampoline f argv t) (fun r s' =>
      Execed s s' t (execImage f argv (image s t).regs) argv.args.length r ∧
        (s'.failed = s.failed → Small f (image s t).regs)) s := by
  obtain ⟨-, htf⟩ := frame_out hone
  have hpool : Pool s := Proper.pool h.whole.proper
  obtain ⟨o, ho⟩ : ∃ o, o = execImage f argv (image s t).regs := ⟨_, rfl⟩
  obtain ⟨l, hl⟩ : ∃ l, l = loaded f (image s t).regs := ⟨_, rfl⟩
  unfold Small
  rw [← ho, ← hl]
  rw [execImage, ← hl] at ho
  have hnothing : l = none → Execed s s t o argv.args.length (-1, t) ∧
      (s.failed = s.failed → ∀ m, l = some m → pagesUp m.sz ≤ FRAMES) := by
    intro hz
    rw [hz, Option.bind_none] at ho
    refine ⟨⟨act_of_kept h (Kept.refl h.whole), .inr ⟨rfl, rfl, .inl ⟨rfl, ho⟩⟩⟩, fun _ m hm => ?_⟩
    rw [hz] at hm
    cases hm
  unfold kexec
  rw [wp_ite]
  refine ⟨fun hshort => ?_, fun hhdr => ?_⟩
  · rw [wp_pure]
    exact hnothing (by rw [hl, loaded, if_pos (.inl hshort)])
  rw [wp_ite]
  refine ⟨fun hmagic => ?_, fun hmagic => ?_⟩
  · rw [wp_pure]
    exact hnothing (by rw [hl, loaded, if_pos (.inr hmagic)])
  rw [loaded, if_neg (not_or.mpr ⟨hhdr, hmagic⟩)] at hl
  refine wp_call (proc_pagetable_spec hpool trampoline t.trapframe) fun pt s1 hm => ?_
  obtain ⟨hlater, hother, ⟨rfl, hfail, hfree⟩ | ⟨hnz, hfail, hw, hkeep, hentry⟩⟩ := hm
  · rw [if_pos rfl, wp_pure]
    obtain ⟨hact, him⟩ := untouched h hone hlater hfree hother
    exact ⟨⟨hact, .inr ⟨rfl, him, .inr hfail⟩⟩, fun hsame => absurd hsame (by omega)⟩
  obtain ⟨hd, hopen, him⟩ := draft_made hw hkeep hlater hother hentry htf
  have hregs : (⟨0, fun _ => 0, fun _ => none, (image s t).regs⟩ : Image) =
      image s1 ⟨⟨0, pt⟩, t.trapframe⟩ := by
    rw [him]
    rfl
  rw [hregs] at hl
  rw [if_neg hnz]
  refine wp_call (segments_spec hpool htf _ _ _ hd hopen) fun r s2 hr => ?_
  obtain ⟨done, sz⟩ := r
  obtain ⟨hd2, ⟨hsame, ⟨rfl, hopen2, hsome⟩ | ⟨rfl, hnone⟩⟩ | ⟨hless, rfl⟩⟩ := hr
  · -- the file has been loaded
    rw [← hl] at hsome
    rw [hsome, Option.bind_some] at ho
    have hsize : pagesUp sz ≤ FRAMES := (Nat.le_add_right _ _).trans (hd2.room hpool)
    have hsmall : ∀ m, l = some m → pagesUp m.sz ≤ FRAMES := by
      intro m hm
      rw [hsome] at hm
      cases hm
      exact hsize
    rw [if_pos rfl]
    refine wp_call (stack_spec t.mem hpool htf argv.size hd2 hopen2) fun c s3 hc => ?_
    obtain ⟨c, sz1⟩ := c
    obtain ⟨hd3, ⟨hsame3, ⟨rfl, hnone⟩ | ⟨sp, rfl, hsome⟩⟩ | ⟨hless, rfl⟩⟩ := hc
    · rw [Option.elim_none]
      refine wp_mono (giveUp_spec h hone hd3 (.inl ⟨by omega, ?_⟩)) fun _ _ hr =>
        ⟨hr.1, fun _ => hsmall⟩
      rw [ho, hnone, Option.map_none]
    · rw [Option.elim_some]
      rw [hsome, Option.map_some] at ho
      refine start_spec fun pg hpg => ?_
      have hin : wp may (proc_freepagetable t.mem.pagetable t.mem.sz) (fun _ s' =>
          Act s s' (some t) (some ⟨⟨sz1, pt⟩, t.trapframe⟩) ∧ s'.failed = s3.failed ∧
            image s' ⟨⟨sz1, pt⟩, t.trapframe⟩ = { image s3 ⟨⟨sz1, pt⟩, t.trapframe⟩ with
              regs := fun i => entry pg (i.castLE regs_le) })
          { s3 with mem := Function.update s3.mem t.trapframe pg } :=
        install_spec h hone hd3 ⟨rfl, rfl, le_rfl, le_rfl⟩ rfl rfl
      refine wp_call hin fun _ s4 h4 => ?_
      obtain ⟨hact, hfail4, him4⟩ := h4
      rw [wp_pure]
      refine ⟨⟨hact, .inl ⟨by omega, rfl, ?_⟩⟩, fun _ => hsmall⟩
      have hstart : (fun i : Fin 36 => entry pg (i.castLE regs_le)) =
          started (image s t).regs (elfhdr f).entry sp := by
        funext i
        rw [hpg i, hd3.other _ htf]
        rfl
      rw [ho, him4, hstart]
    · rw [Option.elim_none]
      exact wp_mono (giveUp_spec h hone hd3 (.inr (by omega))) fun _ _ hr =>
        ⟨hr.1, fun _ => hsmall⟩
  · rw [← hl] at hnone
    rw [if_neg Bool.false_ne_true]
    refine wp_mono (giveUp_spec h hone hd2 (.inl ⟨by omega, ?_⟩)) fun _ _ hr =>
      ⟨hr.1, fun _ m hm => ?_⟩
    · rw [ho, hnone, Option.bind_none]
    · rw [hnone] at hm
      cases hm
  · rw [if_neg Bool.false_ne_true]
    exact wp_mono (giveUp_spec h hone hd2 (.inr (by omega))) fun _ _ hr =>
      ⟨hr.1, fun hsame => absurd hsame (by have := hr.2; omega)⟩

end Xv6.Vm.Stack
