import Xv6.Vm.Free

/-!
The user memory of a process as `proc.c` handles it: made with the trampoline and the trapframe,
grown and shrunk, and freed with all that it has.
-/

namespace Xv6.Vm.Process

open Xv6.Data Xv6.Data.Effect Xv6.Data.Effect.Eff Xv6.Vm.Paging Xv6.Vm.Memory Xv6.Vm.Table
  Xv6.Vm.Tree Xv6.Vm.Walk Xv6.Vm.Maps Xv6.Vm.Grow Xv6.Vm.Copy Xv6.Vm.Space Xv6.Vm.Free

def proc_freepagetable (pagetable sz : UInt64) : Eff Ram Unit := do
  uvmunmap pagetable TRAMPOLINE 1 false
  uvmunmap pagetable TRAPFRAME 1 false
  uvmfree pagetable sz

/-- `trampoline` and `trapframe` are the pages that are mapped. -/
def proc_pagetable (trampoline trapframe : UInt64) : Eff Ram UInt64 := do
  let pagetable ← uvmcreate
  if pagetable = 0 then pure 0
  else do
    let r ← mappages pagetable TRAMPOLINE PGSIZE trampoline (PTE_R ||| PTE_X)
    if r < 0 then do
      uvmfree pagetable 0
      pure 0
    else do
      let r ← mappages pagetable TRAPFRAME PGSIZE trapframe (PTE_R ||| PTE_W)
      if r < 0 then do
        uvmunmap pagetable TRAMPOLINE 1 false
        uvmfree pagetable 0
        pure 0
      else pure pagetable

/-- `growproc`, with the `p->sz` that it leaves. -/
def growproc (p : Proc) (n : Int32) : Eff Ram (ℤ × UInt64) :=
  if n > 0 then
    if p.sz + n.toInt64.toUInt64 > TRAPFRAME then pure (-1, p.sz)
    else do
      let sz ← uvmalloc p.pagetable p.sz (p.sz + n.toInt64.toUInt64) PTE_W
      if sz = 0 then pure (-1, p.sz) else pure (0, sz)
  else if n < 0 then do
    let sz ← uvmdealloc p.pagetable p.sz (p.sz + n.toInt64.toUInt64)
    pure (0, sz)
  else pure (0, p.sz)

variable {s s' s'' : Ram} {p p' p'' : Proc} {a b e newsz perm xperm : UInt64} {k l n : ℕ}
  {x y : Multiset UInt64} {may : String → Prop}

/-! ### What holds of the memory of a process -/

/-- A sound address space with nothing from `MAXVA` on. -/
structure Whole (s : Ram) (p : Proc) : Prop extends Sound s p where
  low : Low s p.pagetable

/-- `p` has become `p'`, with pages of its own or free ones, and no other page has changed. -/
structure Kept (s s' : Ram) (p p' : Proc) : Prop extends Later s s' where
  whole : Whole s' p'
  keep : owned s' p' + s'.free = owned s p + s.free
  frame : ∀ x, x ∉ owned s p → x ∉ s.free → s'.mem x = s.mem x

lemma Kept.refl (h : Whole s p) : Kept s s p p := ⟨Later.refl s, h, rfl, fun _ _ _ => rfl⟩

lemma Kept.trans (h : Kept s s' p p') (h' : Kept s' s'' p' p'') : Kept s s'' p p'' := by
  refine ⟨h.toLater.trans h'.toLater, h'.whole, h'.keep.trans h.keep, fun x h1 h2 => ?_⟩
  have hout : x ∉ owned s' p' + s'.free := by
    rw [h.keep, Multiset.mem_add, not_or]
    exact ⟨h1, h2⟩
  rw [Multiset.mem_add, not_or] at hout
  rw [h'.frame x hout.1 hout.2, h.frame x h1 h2]

lemma kept_of_change {R : ℕ → Prop} (h : Whole s p) (hc : Change s s' p R) : Kept s s' p p :=
  ⟨hc.toLater, ⟨hc.sound, h.low.congr hc.top⟩, hc.keep, hc.frame⟩

lemma toNat_TRAPFRAME : TRAPFRAME.toNat = 67108862 * 4096 := rfl

lemma le_TRAPFRAME {sz : UInt64} : sz ≤ TRAPFRAME ↔ pagesUp sz ≤ USER := by
  have hle : sz ≤ TRAPFRAME ↔ sz.toNat ≤ TRAPFRAME.toNat := Iff.rfl
  rw [hle, toNat_TRAPFRAME, USER_eq]
  unfold pagesUp
  omega

lemma Whole.pages (h : Whole s p) : pagesUp p.sz ≤ USER := le_TRAPFRAME.mp h.size

lemma Whole.none (h : Whole s p) (h1 : pagesUp p.sz ≤ k) (h2 : k < USER) : entryOf s p k = 0 := by
  by_contra hne
  have := h.below k h2 hne
  omega

/-- What a process holds is in the pages below its size. -/
lemma Whole.held (h : Whole s p) :
    held (entryOf s p) 0 USER = Maps.held (entryOf s p) 0 (pagesUp p.sz) :=
  held_cut h.pages fun _ => h.none

/-- An address space is what it was while its own pages are. -/
lemma Whole.congr (h : Whole s p) (hl : Later s s') (hm : ∀ x ∈ owned s p, s'.mem x = s.mem x)
    (hone : ∀ x, (owned s p + s'.free).count x ≤ 1) (hf : ∀ x ∈ s'.free, s.Frame x) :
    Whole s' p ∧ owned s' p = owned s p ∧ entryOf s' p = entryOf s p ∧
      ∀ va, view s' p va = view s p va := by
  have htab : ∀ x ∈ tables s.mem p.pagetable, s'.mem x = s.mem x := fun x hx =>
    hm x (Multiset.mem_add.mpr (.inl hx))
  have hentry : entryOf s' p = entryOf s p := mapping_congr htab
  have howned : owned s' p = owned s p := by
    rw [owned, owned, hentry, tables_congr htab]
  have hnod := Multiset.nodup_iff_count_le_one.mpr hone
  have hproper : Proper 2 s' p.pagetable := by
    refine h.proper.congr htab hl.kend (Multiset.nodup_of_le ?_ hnod) hf
    exact add_le_add_left (Multiset.le_add_right _ _) _
  refine ⟨⟨⟨hproper, ?_, ?_, h.size, ?_, ?_, ?_⟩, h.low.congr fun i _ => ?_⟩, howned, hentry,
    fun va => ?_⟩
  · rw [howned]
    exact hone
  · rw [hentry]
    exact fun x hx => hl.frame.mpr (h.frame x hx)
  · rw [hentry]
    exact h.below
  · rw [hentry]
    exact h.high
  · rw [hentry]
    exact h.leaf
  · rw [htab p.pagetable Radix.self_mem_nodes]
  · refine view_same (congrFun hentry _) fun hmap => hm _ (Multiset.mem_add.mpr (.inr ?_))
    exact h.mem_held (h.mapped_lt hmap) hmap.ne_zero

/-! ### Freeing -/

lemma vpn_TRAPFRAME : vpn TRAPFRAME = USER := by
  rw [USER_eq]
  rfl

lemma vpn_TRAMPOLINE : vpn TRAMPOLINE = USER + 1 := by
  rw [USER_eq]
  rfl

/-- A page of the kernel is unmapped. -/
lemma unmap_high {pt va : UInt64} (h : Proper 2 s pt) (hal : va.toNat % 4096 = 0)
    (hva : vpn va < PAGES) : wp may (uvmunmap pt va 1 false) (fun _ s' => s'.failed = s.failed ∧
      Edit s s' pt (Function.update (mapping s.mem pt) (vpn va) 0) 0 0) s := by
  have hone : (1 : UInt64).toNat = 1 := rfl
  have hlt : va.toNat / 4096 < 67108864 := by
    rw [PAGES_eq] at hva
    exact hva
  refine wp_mono (uvmunmap_spec h (.inl hal) ?_ (.inl ?_) ?_ ?_) fun _ s' hs => ?_
  · rw [hone]
    omega
  · rw [hone]
    omega
  · exact fun hf => absurd hf (by decide)
  · exact fun hf => absurd hf (by decide)
  · rw [hone, ← clear_succ, clear_zero] at hs
    exact hs

/-- Without the pages of the kernel nothing is mapped past the size. -/
lemma Whole.cleared (h : Whole s p) : ∀ k, pagesUp p.sz ≤ k →
    Function.update (Function.update (entryOf s p) (USER + 1) 0) USER 0 k = 0 := by
  intro k hk
  by_cases h0 : k = USER
  · rw [h0, Function.update_self]
  by_cases h1 : k = USER + 1
  · rw [h1, Function.update_of_ne (by omega), Function.update_self]
  rw [Function.update_of_ne h0, Function.update_of_ne h1]
  by_cases hlt : k < USER
  · exact h.none hk hlt
  · refine mapping_of_le ?_
    have hup : PAGES = USER + 2 := by rw [PAGES_eq, USER_eq]
    omega

/-- **`proc_freepagetable`** frees all that a process has, each page once. -/
theorem free_spec (h : Whole s p) : wp may (proc_freepagetable p.pagetable p.sz)
    (fun _ s' => Freed s s' (owned s p) s.free) s := by
  have hup := h.pages
  have hpages : PAGES = USER + 2 := by rw [PAGES_eq, USER_eq]
  unfold proc_freepagetable
  refine wp_call (unmap_high h.proper rfl ?_) fun _ s1 h1 => ?_
  · rw [vpn_TRAMPOLINE]
    omega
  rw [vpn_TRAMPOLINE] at h1
  obtain ⟨hf1, he1⟩ := h1
  refine wp_call (unmap_high he1.proper rfl ?_) fun _ s2 h2 => ?_
  · rw [vpn_TRAPFRAME]
    omega
  rw [vpn_TRAPFRAME, he1.map] at h2
  obtain ⟨hf2, he2⟩ := h2
  have hedit := he1.trans he2
  rw [add_zero] at hedit
  have hmap : mapping s2.mem p.pagetable =
      Function.update (Function.update (entryOf s p) (USER + 1) 0) USER 0 := hedit.map
  have hheld : Maps.held (mapping s2.mem p.pagetable) 0 (pagesUp p.sz) = held (entryOf s p) 0 USER := by
    rw [h.held, hmap]
    refine held_congr fun k _ hk => ?_
    rw [Function.update_of_ne (by omega), Function.update_of_ne (by omega)]
  have hkeep := hedit.keep
  rw [add_zero, add_zero] at hkeep
  refine wp_mono (uvmfree_spec hedit.proper (h.low.congr hedit.top) (by omega) ?_ ?_ ?_) ?_
  · rw [hmap]
    exact h.cleared
  · rw [hheld]
    exact fun z hz => hedit.toLater.frame.mpr (h.frame z hz)
  · rw [hheld, hkeep, add_right_comm]
    exact h.nodup
  · intro _ s' hf
    rw [hheld] at hf
    have hfree : s'.free = owned s p + s.free := by
      rw [hf.free, add_right_comm, hkeep, add_right_comm]
      rfl
    refine ⟨hedit.toLater.trans hf.toLater, hf.same.trans (hf2.trans hf1), hfree,
      fun z hz1 hz2 => ?_⟩
    rw [owned, Multiset.mem_add, not_or] at hz1
    have hz : z ∉ tables s2.mem p.pagetable + s2.free := by
      rw [hkeep, Multiset.mem_add, not_or]
      exact ⟨hz1.1, hz2⟩
    rw [Multiset.mem_add, not_or] at hz
    rw [hf.frame z ?_ hz.2, hedit.frame z hz1.1 hz2 (Multiset.notMem_zero z)]
    rw [Multiset.mem_add, not_or]
    exact ⟨hz.1, hz1.2⟩

/-! ### Making -/

/-- Flags of a page of the kernel. -/
lemma kernel_entry {f : UInt64} (hU : f &&& PTE_U = 0) (hR : f &&& PTE_R ≠ 0) :
    (PA2PTE a ||| f ||| PTE_V) &&& PTE_U = 0 ∧ (PA2PTE a ||| f ||| PTE_V) &&& PTE_R ≠ 0 := by
  have hV : PTE_V &&& PTE_U = 0 := by decide
  have hV' : PTE_V &&& PTE_R = 0 := by decide
  rw [UInt64.or_assoc, entry_and (by decide), entry_and (by decide), or_and, or_and, hU, hV, hV']
  exact ⟨by decide, by rwa [UInt64.or_zero]⟩

lemma entryOf_mk (s : Ram) (sz a : UInt64) : entryOf s ⟨sz, a⟩ = mapping s.mem a := by
  funext k
  unfold entryOf
  rfl

/-- An address space with nothing but pages of the kernel. -/
lemma whole_empty {m : ℕ → UInt64} (h : Proper 2 s a) (hl : Low s a) (hm : mapping s.mem a = m)
    (hlow : ∀ k < USER, m k = 0) (hU : ∀ k, USER ≤ k → m k &&& PTE_U = 0)
    (hR : ∀ k, m k ≠ 0 → m k &&& PTE_R ≠ 0) :
    Whole s ⟨0, a⟩ ∧ owned s ⟨0, a⟩ = tables s.mem a := by
  have hentry : entryOf s ⟨0, a⟩ = m := (entryOf_mk s 0 a).trans hm
  have hheld : held (entryOf s ⟨0, a⟩) 0 USER = 0 := by
    rw [hentry]
    exact held_none fun k _ hk => hlow k (by omega)
  have howned : owned s ⟨0, a⟩ = tables s.mem a := by
    rw [owned, hheld, add_zero]
  have hsize : (0 : UInt64) ≤ TRAPFRAME := Nat.zero_le _
  refine ⟨⟨⟨h, ?_, ?_, hsize, ?_, ?_, ?_⟩, hl⟩, howned⟩
  · rw [howned]
    exact Multiset.nodup_iff_count_le_one.mp h.nodup
  · rw [hheld]
    exact fun x hx => absurd hx (Multiset.notMem_zero x)
  · rw [hentry]
    exact fun k hk hne => absurd (hlow k hk) hne
  · rw [hentry]
    exact hU
  · rw [hentry]
    exact hR

/-- What the kernel maps in every address space. -/
def kernelMap (trampoline trapframe : UInt64) : ℕ → UInt64 :=
  Function.update (Function.update (fun _ => 0) (USER + 1)
    (PA2PTE trampoline ||| (PTE_R ||| PTE_X) ||| PTE_V)) USER
    (PA2PTE trapframe ||| (PTE_R ||| PTE_W) ||| PTE_V)

/-- What `proc_pagetable` comes to. -/
def Made (s s' : Ram) (trampoline trapframe r : UInt64) : Prop :=
  Later s s' ∧ (∀ x, x ∉ s.free → s'.mem x = s.mem x) ∧
    (r = 0 ∧ s.failed < s'.failed ∧ s'.free = s.free ∨
      r ≠ 0 ∧ s'.failed = s.failed ∧ Whole s' ⟨0, r⟩ ∧ owned s' ⟨0, r⟩ + s'.free = s.free ∧
        entryOf s' ⟨0, r⟩ = kernelMap trampoline trapframe)

/-- A page table of one page has no valid entries. -/
lemma low_of_tables (h : tables s.mem a = {a}) : Low s a := by
  intro i _
  by_contra hv
  have hc : child (entries s.mem a i) = some (PTE2PA (entry (s.mem a) i)) :=
    child_eq_some.mpr ⟨hv, rfl⟩
  have hsum : {a} + branches s.mem 1 a 512 = {a} := by
    rw [← nodes_branches]
    exact h
  have hin : PTE2PA (entry (s.mem a) i) ∈ branches s.mem 1 a 512 := by
    rw [branches, Multiset.mem_sum]
    refine ⟨i.val, Finset.mem_range.mpr i.isLt, ?_⟩
    have hi : Fin.ofNat 512 i.val = i := Fin.ofNat_val_eq_self i
    have hbranch : branch s.mem 1 a i =
        Radix.nodes child (entries s.mem) 1 (PTE2PA (entry (s.mem a) i)) := by
      rw [branch, hc, Option.elim_some]
    rw [hi, hbranch]
    exact Radix.self_mem_nodes
  have hz : branches s.mem 1 a 512 = 0 := by
    have := congrArg Multiset.card hsum
    rw [Multiset.card_add, Multiset.card_singleton] at this
    exact Multiset.card_eq_zero.mp (by omega)
  rw [hz] at hin
  exact Multiset.notMem_zero _ hin

/-- A page table that maps nothing of its own is freed. -/
lemma drop_table (h : Proper 2 s a) (hl : Low s a) (hm : mapping s.mem a = fun _ => 0) :
    wp may (uvmfree a 0) (fun _ s' => Freed s s' (tables s.mem a) s.free) s := by
  have hz : pagesUp 0 = 0 := rfl
  have hheld : held (mapping s.mem a) 0 (pagesUp 0) = 0 := by rw [hz, held_zero]
  refine wp_mono (uvmfree_spec h hl ?_ (fun k _ => congrFun hm k) ?_ ?_) fun _ s' hf => ?_
  · rw [hz]
    exact Nat.zero_le _
  · rw [hheld]
    exact fun y hy => absurd hy (Multiset.notMem_zero y)
  · rw [hheld, add_zero]
    exact h.nodup
  · rwa [hheld, add_zero] at hf

/-- **`proc_pagetable`** makes an address space without user memory, or leaves the free pages as they
were. -/
theorem proc_pagetable_spec (h : Pool s) (trampoline trapframe : UInt64) :
    wp may (proc_pagetable trampoline trapframe)
      (fun r s' => Made s s' trampoline trapframe r) s := by
  have hup : PAGES = USER + 2 := by rw [PAGES_eq, USER_eq]
  unfold proc_pagetable
  refine wp_call (uvmcreate_spec h) fun pt s1 h1 => ?_
  obtain ⟨hl1, ⟨rfl, hf1, hfree1, hmem1⟩ | ⟨hne, hf1, hin, hfree1, hp1, ht1, hm1, hmem1⟩⟩ := h1
  · rw [if_pos rfl, wp_pure]
    exact ⟨hl1, fun x _ => by rw [hmem1], .inl ⟨rfl, hf1, hfree1⟩⟩
  rw [if_neg hne]
  -- all that has been taken so far
  have hall : tables s1.mem pt + s1.free = s.free := by
    rw [ht1, hfree1, Multiset.singleton_add, Multiset.cons_erase hin]
  have hlow1 := low_of_tables ht1
  have hout : ∀ s2 m, Edit s1 s2 pt m 0 0 → ∀ x, x ∉ s.free → s2.mem x = s.mem x := by
    intro s2 m he x hx
    have hx' : x ∉ tables s1.mem pt + s1.free := by rwa [hall]
    rw [Multiset.mem_add, not_or] at hx'
    have hxp : x ≠ pt := by
      rintro rfl
      exact hx hin
    rw [he.frame x hx'.1 hx'.2 (Multiset.notMem_zero x), hmem1 x hxp]
  have hkeep : ∀ s2 m, Edit s1 s2 pt m 0 0 → tables s2.mem pt + s2.free = s.free := by
    intro s2 m he
    have := he.keep
    rwa [add_zero, add_zero, hall] at this
  -- giving up
  have hgive : ∀ s2, Edit s1 s2 pt (fun _ => 0) 0 0 → s.failed < s2.failed →
      wp may (uvmfree pt 0 >>= fun _ => pure (0 : UInt64))
        (fun r s' => Made s s' trampoline trapframe r) s2 := by
    intro s2 he hfail
    refine wp_call (drop_table he.proper (hlow1.congr he.top) he.map) fun _ s3 hf => ?_
    rw [wp_pure]
    have hl := (hl1.trans he.toLater).trans hf.toLater
    have hsame := hf.same
    refine ⟨hl, fun x hx => ?_, .inl ⟨rfl, by omega, ?_⟩⟩
    · have hx' : x ∉ tables s2.mem pt + s2.free := by rwa [hkeep s2 _ he]
      rw [Multiset.mem_add, not_or] at hx'
      rw [hf.frame x hx'.1 hx'.2, hout s2 _ he x hx]
    · rw [hf.free, hkeep s2 _ he]
  have hz1 : mapping s1.mem pt (vpn TRAMPOLINE) = 0 := congrFun hm1 _
  refine wp_call (mappages_one hp1 rfl (.inl ?_) (.inl hz1)) fun r s2 hr => ?_
  · rw [vpn_TRAMPOLINE]
    omega
  obtain ⟨rfl, hf2, -, -, he2⟩ | ⟨rfl, hf2, he2⟩ := hr
  swap
  · rw [if_pos (by decide)]
    rw [hm1] at he2
    exact hgive s2 he2 (by omega)
  rw [if_neg (by decide)]
  rw [vpn_TRAMPOLINE, hm1] at he2
  have hz2 : mapping s2.mem pt (vpn TRAPFRAME) = 0 := by
    rw [he2.map, vpn_TRAPFRAME, Function.update_of_ne (by omega)]
  refine wp_call (mappages_one he2.proper rfl (.inl ?_) (.inl hz2)) fun r s3 hr => ?_
  · rw [vpn_TRAPFRAME]
    omega
  obtain ⟨rfl, hf3, -, -, he3⟩ | ⟨rfl, hf3, he3⟩ := hr
  · rw [if_neg (by decide), wp_pure]
    have he := he2.trans he3
    rw [add_zero] at he
    have hmap : mapping s3.mem pt = kernelMap trampoline trapframe := by
      rw [he3.map, he2.map, vpn_TRAPFRAME]
      rfl
    have hflags := kernel_entry (a := trampoline) (f := PTE_R ||| PTE_X) (by decide) (by decide)
    have hflags' := kernel_entry (a := trapframe) (f := PTE_R ||| PTE_W) (by decide) (by decide)
    have hcases : ∀ k, kernelMap trampoline trapframe k = 0 ∨ USER ≤ k ∧
        (kernelMap trampoline trapframe k = PA2PTE trampoline ||| (PTE_R ||| PTE_X) ||| PTE_V ∨
          kernelMap trampoline trapframe k = PA2PTE trapframe ||| (PTE_R ||| PTE_W) ||| PTE_V) := by
      intro k
      unfold kernelMap
      by_cases h0 : k = USER
      · rw [h0, Function.update_self]
        exact .inr ⟨le_rfl, .inr rfl⟩
      by_cases h1 : k = USER + 1
      · rw [h1, Function.update_of_ne (by omega), Function.update_self]
        exact .inr ⟨by omega, .inl rfl⟩
      rw [Function.update_of_ne h0, Function.update_of_ne h1]
      exact .inl rfl
    obtain ⟨hwhole, howned⟩ := whole_empty he.proper (hlow1.congr he.top) hmap
      (fun k hk => (hcases k).resolve_right fun h => by omega)
      (fun k _ => by
        rcases hcases k with hz | ⟨-, hk | hk⟩
        · rw [hz]
          exact UInt64.zero_and
        · rw [hk]
          exact hflags.1
        · rw [hk]
          exact hflags'.1)
      (fun k hne => by
        rcases hcases k with hz | ⟨-, hk | hk⟩
        · exact absurd hz hne
        · rw [hk]
          exact hflags.2
        · rw [hk]
          exact hflags'.2)
    refine ⟨hl1.trans he.toLater, hout s3 _ he,
      .inr ⟨hne, by omega, hwhole, ?_, (entryOf_mk s3 0 pt).trans hmap⟩⟩
    rw [howned]
    exact hkeep s3 _ he
  · -- the trampoline is taken out again
    rw [if_pos (by decide)]
    have hmap3 : mapping s3.mem pt = Function.update (fun _ => 0) (USER + 1)
        (PA2PTE trampoline ||| (PTE_R ||| PTE_X) ||| PTE_V) := by
      rw [he3.map, he2.map]
    refine wp_call (unmap_high he3.proper rfl ?_) fun _ s4 h4 => ?_
    · rw [vpn_TRAMPOLINE]
      omega
    obtain ⟨hf4, he4⟩ := h4
    have he := (he2.trans he3).trans he4
    rw [vpn_TRAMPOLINE, hmap3, Function.update_idem, add_zero, add_zero] at he
    have hz : Function.update (fun _ : ℕ => (0 : UInt64)) (USER + 1) 0 = fun _ => 0 :=
      Function.update_eq_self _ _
    rw [hz] at he
    exact hgive s4 he (by omega)

/-! ### Growing and shrinking -/

/-- The pages up to `newsz` have been mapped to fresh pages of zeros, and what was there is as it
was. -/
structure Grown (s s' : Ram) (p : Proc) (newsz perm : UInt64) : Prop where
  kept : Kept s s' p ⟨newsz, p.pagetable⟩
  same : s'.failed = s.failed
  other : ∀ k, ¬(pagesUp p.sz ≤ k ∧ k < pagesUp newsz) →
    entryOf s' ⟨newsz, p.pagetable⟩ k = entryOf s p k
  fresh : ∀ k, pagesUp p.sz ≤ k → k < pagesUp newsz → ∃ a, s.Frame a ∧
    entryOf s' ⟨newsz, p.pagetable⟩ k = PA2PTE a ||| perm ||| PTE_V ∧ s'.mem a = filled 0
  pages : ∀ x ∈ held (entryOf s p) 0 USER, s'.mem x = s.mem x

lemma grown_of_filled (h : Whole s p) (hge : ¬newsz < p.sz)
    (hf : Filled s s' p.pagetable (pagesUp p.sz) (pagesUp newsz - pagesUp p.sz) perm)
    (hperm : perm.toNat < 1024) (hR : perm &&& PTE_R ≠ 0) (hsz : newsz ≤ TRAPFRAME) :
    Grown s s' p newsz perm := by
  have hle := pagesUp_mono (UInt64.not_lt.mp hge)
  have hup := le_TRAPFRAME.mp hsz
  have hrange : ∀ k, (pagesUp p.sz ≤ k ∧ k < pagesUp p.sz + (pagesUp newsz - pagesUp p.sz)) ↔
      pagesUp p.sz ≤ k ∧ k < pagesUp newsz := fun k => by omega
  have hentry : entryOf s' ⟨newsz, p.pagetable⟩ = mapping s'.mem p.pagetable := entryOf_mk ..
  have hother : ∀ k, ¬(pagesUp p.sz ≤ k ∧ k < pagesUp newsz) →
      entryOf s' ⟨newsz, p.pagetable⟩ k = entryOf s p k := by
    intro k hk
    rw [hentry]
    exact hf.other k (by rwa [hrange])
  have hfresh : ∀ k, pagesUp p.sz ≤ k → k < pagesUp newsz → ∃ a, a ∈ s.free ∧
      entryOf s' ⟨newsz, p.pagetable⟩ k = PA2PTE a ||| perm ||| PTE_V ∧ s'.mem a = filled 0 := by
    intro k h1 h2
    rw [hentry]
    exact hf.fresh k h1 (by omega)
  have hnone : ∀ k, pagesUp newsz ≤ k → k < USER → entryOf s' ⟨newsz, p.pagetable⟩ k = 0 := by
    intro k h1 h2
    rw [hother k (by omega)]
    exact h.none (by omega) h2
  -- the pages that are held, old and new
  have hheld : held (entryOf s' ⟨newsz, p.pagetable⟩) 0 USER = held (entryOf s p) 0 USER +
      held (mapping s'.mem p.pagetable) (pagesUp p.sz) (pagesUp newsz - pagesUp p.sz) := by
    have hcut : pagesUp newsz = pagesUp p.sz + (pagesUp newsz - pagesUp p.sz) := by omega
    have hold : held (entryOf s' ⟨newsz, p.pagetable⟩) 0 (pagesUp p.sz) =
        held (entryOf s p) 0 (pagesUp p.sz) :=
      held_congr fun k _ hk => hother k (by omega)
    rw [held_cut hup hnone, hcut, held_append, hold, h.held, ← hcut, Nat.zero_add, hentry]
  have hkeep : owned s' ⟨newsz, p.pagetable⟩ + s'.free = owned s p + s.free := by
    have hk := hf.edit.keep
    rw [add_zero] at hk
    rw [owned, owned, hheld, add_right_comm, add_right_comm (tables s.mem p.pagetable), ← hk]
    change tables s'.mem p.pagetable + _ + _ = _
    abel
  have hwhole : Whole s' ⟨newsz, p.pagetable⟩ := by
    refine ⟨⟨hf.edit.proper, ?_, ?_, hsz, fun k hk hne => ?_, fun k hk => ?_, fun k hne => ?_⟩,
      h.low.congr hf.edit.top⟩
    · rw [hkeep]
      exact h.once
    · rw [hheld]
      intro x hx
      refine hf.edit.toLater.frame.mpr ?_
      rcases Multiset.mem_add.mp hx with hx | hx
      · exact h.frame x hx
      · exact (hf.held_free h.proper hperm hx).2.1
    · by_contra hge'
      exact hne (hnone k (not_lt.mp hge') hk)
    · rw [hother k (by omega)]
      exact h.high k hk
    · by_cases hk : pagesUp p.sz ≤ k ∧ k < pagesUp newsz
      · obtain ⟨a, -, hmap, -⟩ := hfresh k hk.1 hk.2
        have hV : PTE_V &&& PTE_R = 0 := by decide
        rw [hmap, UInt64.or_assoc, entry_and (by decide), or_and, hV, UInt64.or_zero]
        exact hR
      · rw [hother k hk] at hne ⊢
        exact h.leaf k hne
  have hframe : ∀ x, x ∉ tables s.mem p.pagetable → x ∉ s.free → s'.mem x = s.mem x :=
    fun x h1 h2 => hf.edit.frame x h1 h2 (Multiset.notMem_zero x)
  refine ⟨⟨hf.edit.toLater, hwhole, hkeep, fun x h1 h2 => ?_⟩, hf.failed, hother,
    fun k h1 h2 => ?_, fun x hx => hframe x (h.out hx).1 (h.out hx).2⟩
  · rw [owned, Multiset.mem_add, not_or] at h1
    exact hframe x h1.1 h2
  · obtain ⟨a, hfree, hmap, hz⟩ := hfresh k h1 h2
    exact ⟨a, h.proper.frame a (Multiset.mem_add.mpr (.inr hfree)), hmap, hz⟩

/-- What `uvmalloc` comes to for a process. -/
def Alloc (s s' : Ram) (p : Proc) (newsz perm r : UInt64) : Prop :=
  newsz < p.sz ∧ r = p.sz ∧ s' = s ∨ ¬newsz < p.sz ∧
    (r = newsz ∧ newsz ≤ TRAPFRAME ∧ Grown s s' p newsz perm ∨
      r = 0 ∧ s.failed < s'.failed ∧ Change s s' p (fun _ => False) ∧
        ∀ va, view s' p va = view s p va)

/-- **`uvmalloc`** for a process, where its memory would fit or the free pages would not. -/
theorem alloc_spec (h : Whole s p) (hp : xperm.toNat < 1024)
    (hroom : pagesUp newsz ≤ USER ∨ pagesUp p.sz + s.free.card ≤ USER) :
    wp may (uvmalloc p.pagetable p.sz newsz xperm)
      (fun r s' => Alloc s s' p newsz (PTE_R ||| PTE_U ||| xperm) r) s := by
  have hsz := h.pages
  have hpages : PAGES = USER + 2 := by rw [PAGES_eq, USER_eq]
  have hvpn : vpn (PGROUNDUP p.sz) = pagesUp p.sz := by
    refine vpn_PGROUNDUP ?_
    rw [USER_eq] at hsz
    unfold pagesUp at hsz
    omega
  have hperm : (PTE_R ||| PTE_U ||| xperm).toNat < 1024 := toNat_perm (by decide) hp
  have hR : (PTE_R ||| PTE_U ||| xperm) &&& PTE_R ≠ 0 := by
    have h1 : (PTE_R ||| PTE_U) &&& PTE_R = PTE_R := by decide
    intro hz
    have hbit := congrArg (fun w => w.toNat.testBit 1) hz
    rw [or_and, h1] at hbit
    simp only [UInt64.toNat_or, Nat.testBit_or] at hbit
    have hb : PTE_R.toNat.testBit 1 = true := by decide
    rw [hb] at hbit
    simp at hbit
  have hlt : ∀ k, pagesUp p.sz ≤ k → k < pagesUp newsz → k < pagesUp p.sz + s.free.card →
      k < USER := by
    intro k _ h2 h3
    omega
  refine wp_mono (uvmalloc_spec h.proper hp (.inl ?_) (.inl ?_)) fun r s' hr => ?_
  · rw [hvpn]
    intro k h1 h2 h3
    have := hlt k h1 h2 h3
    omega
  · rw [hvpn]
    exact fun k h1 h2 h3 => h.none h1 (hlt k h1 h2 h3)
  · rw [hvpn] at hr
    rcases hr with hr | ⟨hge, ⟨hr, hf⟩ | ⟨hr, hfail, he⟩⟩
    · exact .inl hr
    · have hle := pagesUp_mono (UInt64.not_lt.mp hge)
      have hcard := hf.card
      have hnew : newsz ≤ TRAPFRAME := le_TRAPFRAME.mpr (by omega)
      exact .inr ⟨hge, .inl ⟨hr, hnew, grown_of_filled h hge hf hperm hR hnew⟩⟩
    · obtain ⟨hch, hview⟩ := h.toSound.unchanged he
      exact .inr ⟨hge, .inr ⟨hr, hfail, hch, hview⟩⟩

/-- The pages from `newsz` on have been freed, and what is left is as it was. -/
structure Shrunk (s s' : Ram) (p : Proc) (newsz : UInt64) : Prop where
  kept : Kept s s' p ⟨newsz, p.pagetable⟩
  same : s'.failed = s.failed
  entry : ∀ k, entryOf s' ⟨newsz, p.pagetable⟩ k =
    if pagesUp newsz ≤ k ∧ k < pagesUp p.sz then 0 else entryOf s p k
  pages : ∀ x ∈ held (entryOf s' ⟨newsz, p.pagetable⟩) 0 USER, s'.mem x = s.mem x

/-- **`uvmdealloc`** for a process. -/
theorem dealloc_spec (h : Whole s p) : wp may (uvmdealloc p.pagetable p.sz newsz) (fun r s' =>
    newsz ≥ p.sz ∧ r = p.sz ∧ s' = s ∨ ¬newsz ≥ p.sz ∧ r = newsz ∧ Shrunk s s' p newsz) s := by
  by_cases hge : newsz ≥ p.sz
  · rw [uvmdealloc, if_pos hge, wp_pure]
    exact .inl ⟨hge, rfl, rfl⟩
  have hup := h.pages
  have hlt : newsz.toNat < p.sz.toNat := UInt64.not_le.mp hge
  have hle : pagesUp newsz ≤ pagesUp p.sz := by
    unfold pagesUp
    omega
  have hpages : PAGES = USER + 2 := by rw [PAGES_eq, USER_eq]
  have hsum : pagesUp newsz + (pagesUp p.sz - pagesUp newsz) = pagesUp p.sz := by omega
  -- the pages that are held, left and freed
  have hcut : held (entryOf s p) 0 USER = held (entryOf s p) 0 (pagesUp newsz) +
      held (entryOf s p) (pagesUp newsz) (pagesUp p.sz - pagesUp newsz) := by
    have := held_append (entryOf s p) 0 (pagesUp newsz) (pagesUp p.sz - pagesUp newsz)
    rw [hsum, Nat.zero_add] at this
    rw [h.held, this]
  have hgone : ∀ y ∈ held (entryOf s p) (pagesUp newsz) (pagesUp p.sz - pagesUp newsz),
      y ∈ held (entryOf s p) 0 USER := by
    intro y hy
    rw [hcut]
    exact Multiset.mem_add.mpr (.inr hy)
  have hnod := h.nodup
  rw [owned, hcut] at hnod
  refine wp_mono (uvmdealloc_spec h.proper ?_ (.inl ?_) (.inl ?_) ?_) fun r s' hr => ?_
  · rw [USER_eq] at hup
    omega
  · intro _
    omega
  · exact fun y hy => h.frame y (hgone y hy)
  · refine Multiset.nodup_of_le ?_ hnod
    change tables s.mem p.pagetable + s.free + held (entryOf s p) _ _ ≤ _
    rw [add_right_comm (tables s.mem p.pagetable)]
    refine add_le_add_left (add_le_add_right ?_ _) _
    exact Multiset.le_add_left _ _
  · obtain ⟨hr, hfail, he⟩ := hr
    rw [if_neg hge] at hr
    refine .inr ⟨hge, hr, ?_⟩
    have hentry : entryOf s' ⟨newsz, p.pagetable⟩ = mapping s'.mem p.pagetable := entryOf_mk ..
    have hmap : ∀ k, entryOf s' ⟨newsz, p.pagetable⟩ k =
        if pagesUp newsz ≤ k ∧ k < pagesUp p.sz then 0 else entryOf s p k := by
      intro k
      rw [hentry, he.map, clear, hsum]
      rfl
    have hnone : ∀ k, pagesUp newsz ≤ k → k < USER → entryOf s' ⟨newsz, p.pagetable⟩ k = 0 := by
      intro k h1 h2
      rw [hmap]
      split_ifs with hk
      · rfl
      · exact h.none (by omega) h2
    have hheld : held (entryOf s' ⟨newsz, p.pagetable⟩) 0 USER =
        held (entryOf s p) 0 (pagesUp newsz) := by
      rw [held_cut (by omega) hnone]
      refine held_congr fun k _ hk => ?_
      rw [hmap, if_neg (by omega)]
    have hleft : ∀ x ∈ held (entryOf s' ⟨newsz, p.pagetable⟩) 0 USER,
        x ∈ held (entryOf s p) 0 USER ∧
          x ∉ held (entryOf s p) (pagesUp newsz) (pagesUp p.sz - pagesUp newsz) := by
      intro x hx
      rw [hheld] at hx
      refine ⟨by rw [hcut]; exact Multiset.mem_add.mpr (.inl hx), fun hx' => ?_⟩
      have h1 := (Multiset.nodup_add.mp (Multiset.nodup_add.mp hnod).1).2.1
      exact Multiset.disjoint_left.mp (Multiset.nodup_add.mp h1).2.2 hx hx'
    have hkeep : owned s' ⟨newsz, p.pagetable⟩ + s'.free = owned s p + s.free := by
      have hk := he.keep
      rw [add_zero] at hk
      rw [owned, owned, hheld, hcut]
      change tables s'.mem p.pagetable + _ + _ = _
      rw [add_right_comm, hk]
      change tables s.mem p.pagetable + s.free + held (entryOf s p) _ _ + _ = _
      abel
    have hwhole : Whole s' ⟨newsz, p.pagetable⟩ := by
      refine ⟨⟨he.proper, ?_, ?_, ?_, fun k hk hne => ?_, fun k hk => ?_, fun k hne => ?_⟩,
        h.low.congr he.top⟩
      · rw [hkeep]
        exact h.once
      · exact fun x hx => he.toLater.frame.mpr (h.frame x (hleft x hx).1)
      · exact le_TRAPFRAME.mpr (hle.trans hup)
      · by_contra hge'
        exact hne (hnone k (not_lt.mp hge') hk)
      · rw [hmap, if_neg (by omega)]
        exact h.high k hk
      · rw [hmap] at hne ⊢
        split_ifs at hne ⊢ with hk
        · exact absurd rfl hne
        · exact h.leaf k hne
    refine ⟨⟨he.toLater, hwhole, hkeep, fun x h1 h2 => ?_⟩, hfail, hmap, fun x hx => ?_⟩
    · rw [owned, Multiset.mem_add, not_or] at h1
      exact he.frame x h1.1 h2 fun hx => h1.2 (hgone x hx)
    · obtain ⟨h1, h2⟩ := hleft x hx
      exact he.frame x (h.out h1).1 (h.out h1).2 h2

end Xv6.Vm.Process
