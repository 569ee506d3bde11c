import Xv6.Vm.Fork

/-!
A process as its program finds it: its size, what it may do with each page, the bytes at its
addresses and its registers, and nothing of the pages behind them. `sbrk` and page faults in these
terms: a page that `sys_sbrk` has left to `vmfault` is like any other.
-/

namespace Xv6.Vm.View

open Xv6.Data Xv6.Data.Effect Xv6.Data.Effect.Eff Xv6.Vm.Paging Xv6.Vm.Memory Xv6.Vm.Table
  Xv6.Vm.Tree Xv6.Vm.Walk Xv6.Vm.Maps Xv6.Vm.Grow Xv6.Vm.Copy Xv6.Vm.Space Xv6.Vm.Process
  Xv6.Vm.Transfer Xv6.Vm.Holding Xv6.Vm.Fork

/-! ### Images -/

/-- The flags of an entry that say what user code may do. -/
def RIGHTS : UInt64 := PTE_R ||| PTE_W ||| PTE_X ||| PTE_U

/-- What a program can tell of its process. -/
@[ext] structure Image where
  sz : UInt64
  /-- What it may do with each page. -/
  rights : ℕ → UInt64
  bytes : ℕ → Option UInt8
  regs : Fin 36 → UInt64

/-- The rights for page `k`: those that `vmfault` gives, where it has not been allocated. -/
def rightsOf (s : Ram) (p : Proc) (k : ℕ) : UInt64 :=
  if k < USER then if Lazy s p k then FAULT else entryOf s p k &&& RIGHTS else 0

lemma regs_le : 36 ≤ 512 := by decide

def image (s : Ram) (t : Task) : Image where
  sz := t.mem.sz
  rights := rightsOf s t.mem
  bytes := view s t.mem
  regs := fun i => reg s t (i.castLE regs_le)

/-- The program may write to page `k`. -/
def Image.CanWrite (m : Image) (k : ℕ) : Prop := m.rights k &&& PTE_U ≠ 0 ∧ m.rights k &&& PTE_W ≠ 0

instance (m : Image) (k : ℕ) : Decidable (m.CanWrite k) := inferInstanceAs (Decidable (_ ∧ _))

/-- With another size. New pages are zeros, with the rights `f`. -/
def Image.span (m : Image) (sz f : UInt64) : Image where
  sz := sz
  rights := fun k => if k < pagesUp sz then if k < pagesUp m.sz then m.rights k else f else 0
  bytes := fun a => if a / 4096 < pagesUp sz then
    if a / 4096 < pagesUp m.sz then m.bytes a else some 0 else none
  regs := m.regs

/-- With another size. New pages are to read and write. -/
def Image.resize (m : Image) (sz : UInt64) : Image := m.span sz FAULT

/-- The size that `sbrk(n)` leaves, where there are addresses for it. Nothing is taken off where that
would be more than there is. -/
def Image.want (m : Image) (n : Int32) : Option UInt64 :=
  if (m.sz.toNat : ℤ) + n.toInt < 0 then some m.sz
  else if (m.sz.toNat : ℤ) + n.toInt ≤ TRAPFRAME.toNat then
    some (UInt64.ofNat ((m.sz.toNat : ℤ) + n.toInt).toNat)
  else none

/-- With `n` bytes of `src` from `d` on. -/
def Image.store (m : Image) (d n : ℕ) (src : ℕ → UInt8) : Image :=
  { m with bytes := fun a => if d ≤ a ∧ a < d + n then some (src (a - d)) else m.bytes a }

variable {s s' s'' : Ram} {p : Proc} {t t' : Task} {a e f va newsz : UInt64} {k l n : ℕ}
  {R : ℕ → Prop} {may : String → Prop}

lemma and_RIGHTS (hf : RIGHTS &&& f = f) : e &&& RIGHTS &&& f = e &&& f := by
  rw [UInt64.and_assoc, hf]

/-- A flag of the rights is one of the entry, unless the page has not been allocated. -/
lemma rights_and (hk : k < USER) (hf : RIGHTS &&& f = f) (hl : ¬Lazy s p k) :
    rightsOf s p k &&& f = entryOf s p k &&& f := by
  rw [rightsOf, if_pos hk, if_neg hl, and_RIGHTS hf]

lemma rights_lazy (hk : k < USER) (hl : Lazy s p k) : rightsOf s p k = FAULT := by
  rw [rightsOf, if_pos hk, if_pos hl]

lemma canWrite_iff (h : Sound s t.mem) :
    (image s t).CanWrite k ↔ Writable s t.mem k ∨ Lazy s t.mem k := by
  change rightsOf s t.mem k &&& PTE_U ≠ 0 ∧ rightsOf s t.mem k &&& PTE_W ≠ 0 ↔ _
  by_cases hk : k < USER
  · by_cases hl : Lazy s t.mem k
    · rw [rights_lazy hk hl]
      exact ⟨fun _ => .inr hl, fun _ => by decide⟩
    · rw [rights_and hk (by decide) hl, rights_and hk (by decide) hl]
      exact ⟨.inl, fun h => h.resolve_right hl⟩
  · rw [rightsOf, if_neg hk]
    refine ⟨fun hz => absurd UInt64.zero_and hz.1, fun hg => ?_⟩
    rcases hg with hW | hL
    · exact absurd (h.mapped_lt hW.1) hk
    · exact absurd (h.lazy_lt hL) hk

/-- Allocating pages on demand does not show. -/
lemma rights_of_change (hch : Change s s' p R) : rightsOf s' p = rightsOf s p := by
  funext k
  by_cases hk : k < USER
  · rw [rightsOf, rightsOf, if_pos hk, if_pos hk]
    rcases hch.map k with he | ⟨-, hl, a, ha⟩
    · simp only [Lazy.congr he, he]
    · have hnew : ¬Lazy s' p k := fun hl' => by
        have hz := hl'.2
        rw [ha] at hz
        exact entry_ne_zero a FAULT hz
      rw [if_neg hnew, if_pos hl, ha, UInt64.or_assoc, entry_and (by decide)]
      decide
  · rw [rightsOf, rightsOf, if_neg hk, if_neg hk]

lemma image_of_change (hch : Change s s' t.mem R)
    (hf : s'.mem t.trapframe = s.mem t.trapframe) :
    image s' t = { image s t with bytes := view s' t.mem } := by
  ext1
  · rfl
  · exact rights_of_change hch
  · rfl
  · funext i
    change reg s' t _ = reg s t _
    rw [reg, hf]
    rfl

/-! ### `sbrk` -/

def SBRK_EAGER : Int32 := 1

/-- `sys_sbrk`, with the `p->sz` that it leaves. -/
def sys_sbrk (p : Proc) (n t : Int32) : Eff Ram (UInt64 × UInt64) :=
  if t = SBRK_EAGER ∨ n < 0 then do
    let r ← growproc p n
    if r.1 < 0 then pure (-1, r.2) else pure (p.sz, r.2)
  else if p.sz + n.toInt64.toUInt64 < p.sz then pure (-1, p.sz)
  else if p.sz + n.toInt64.toUInt64 > TRAPFRAME then pure (-1, p.sz)
  else pure (p.sz, p.sz + n.toInt64.toUInt64)

/-- Adding an `int` to a size. -/
lemma toNat_add (n : Int32) (h : p.sz ≤ TRAPFRAME) :
    (0 ≤ (p.sz.toNat : ℤ) + n.toInt →
      ((p.sz + n.toInt64.toUInt64).toNat : ℤ) = p.sz.toNat + n.toInt) ∧
    ((p.sz.toNat : ℤ) + n.toInt < 0 → p.sz ≤ p.sz + n.toInt64.toUInt64) := by
  have hext : (n.toInt64.toUInt64.toNat : ℤ) = n.toInt % 2 ^ 64 := by
    have hlt := n.toInt64.toUInt64.toNat_lt
    have hmod : n.toInt64.toInt = Int.bmod n.toInt64.toUInt64.toNat (2 ^ 64) :=
      BitVec.toInt_eq_toNat_bmod _
    rw [Int32.toInt_toInt64] at hmod
    rw [hmod, Int.bmod_def]
    split_ifs <;> omega
  have hsz : p.sz.toNat ≤ TRAPFRAME.toNat := h
  rw [toNat_TRAPFRAME] at hsz
  have h1 := n.toInt_lt
  have h2 := n.le_toInt
  have hadd : (p.sz + n.toInt64.toUInt64).toNat =
      (p.sz.toNat + n.toInt64.toUInt64.toNat) % 2 ^ 64 := UInt64.toNat_add _ _
  refine ⟨fun hpos => ?_, fun hneg => ?_⟩
  · rw [hadd]
    omega
  · have hle : p.sz.toNat ≤ (p.sz + n.toInt64.toUInt64).toNat := by
      rw [hadd]
      omega
    exact hle

lemma lt_pagesUp {sz : UInt64} : k < pagesUp sz ↔ k * 4096 < sz.toNat := by
  unfold pagesUp
  omega

/-- The image after the size has changed. Pages that `vmfault` will bring need not be there. -/
lemma image_span (h : Whole s t.mem) (h' : Whole s' ⟨newsz, t.mem.pagetable⟩)
    (hf : s'.mem t.trapframe = s.mem t.trapframe)
    (hold : ∀ k, k < pagesUp t.mem.sz → k < pagesUp newsz →
      entryOf s' ⟨newsz, t.mem.pagetable⟩ k = entryOf s t.mem k ∧ (Mapped s t.mem k →
        s'.mem (PTE2PA (entryOf s t.mem k)) = s.mem (PTE2PA (entryOf s t.mem k))))
    (hnew : ∀ k, pagesUp t.mem.sz ≤ k → k < pagesUp newsz →
      f = FAULT ∧ entryOf s' ⟨newsz, t.mem.pagetable⟩ k = 0 ∨ ∃ a, s.Frame a ∧
        s'.mem a = filled 0 ∧
          entryOf s' ⟨newsz, t.mem.pagetable⟩ k = PA2PTE a ||| f ||| PTE_V)
    (hR : (f ||| PTE_V) &&& RIGHTS = f) (hU : f &&& PTE_U ≠ 0) (hsmall : f.toNat < 1024) :
    image s' ⟨⟨newsz, t.mem.pagetable⟩, t.trapframe⟩ = (image s t).span newsz f := by
  have hup := h.pages
  have hup' : pagesUp newsz ≤ USER := h'.pages
  have hgone : ∀ k, k < USER → ¬k < pagesUp newsz →
      entryOf s' ⟨newsz, t.mem.pagetable⟩ k = 0 ∧ ¬Lazy s' ⟨newsz, t.mem.pagetable⟩ k := by
    intro k hk hlt
    exact ⟨h'.none (not_lt.mp hlt) hk, fun hl => hlt (lt_pagesUp.mpr hl.1)⟩
  have hlazy : ∀ k, k < pagesUp t.mem.sz → k < pagesUp newsz →
      (Lazy s' ⟨newsz, t.mem.pagetable⟩ k ↔ Lazy s t.mem k) := by
    intro k h1 h2
    unfold Lazy
    rw [(hold k h1 h2).1, ← lt_pagesUp, ← lt_pagesUp]
    exact ⟨fun hl => ⟨h1, hl.2⟩, fun hl => ⟨h2, hl.2⟩⟩
  have hfresh : ∀ k, pagesUp t.mem.sz ≤ k → k < pagesUp newsz →
      entryOf s' ⟨newsz, t.mem.pagetable⟩ k = 0 → Lazy s' ⟨newsz, t.mem.pagetable⟩ k :=
    fun k _ h2 hz => ⟨lt_pagesUp.mp h2, hz⟩
  ext1
  · rfl
  · funext k
    change rightsOf s' _ k = if _ then if _ then rightsOf s t.mem k else _ else _
    by_cases h2 : k < pagesUp newsz
    · have hk : k < USER := by omega
      rw [if_pos h2]
      by_cases h1 : k < pagesUp t.mem.sz
      · have h1' : k < pagesUp (image s t).sz := h1
        rw [if_pos h1', rightsOf, rightsOf, if_pos hk, if_pos hk]
        simp only [hlazy k h1 h2, (hold k h1 h2).1]
      · have h1' : ¬k < pagesUp (image s t).sz := h1
        rw [if_neg h1']
        rcases hnew k (not_lt.mp h1) h2 with ⟨rfl, hz⟩ | ⟨a, -, -, ha⟩
        · exact rights_lazy hk (hfresh k (not_lt.mp h1) h2 hz)
        · have hne : ¬Lazy s' ⟨newsz, t.mem.pagetable⟩ k := fun hl => by
            have hz := hl.2
            rw [ha] at hz
            exact entry_ne_zero a f hz
          rw [rightsOf, if_pos hk, if_neg hne, ha, UInt64.or_assoc, entry_and (by decide), hR]
    · rw [if_neg h2, rightsOf]
      by_cases hk : k < USER
      · obtain ⟨hz, hl⟩ := hgone k hk h2
        rw [if_pos hk, if_neg hl, hz, UInt64.zero_and]
      · rw [if_neg hk]
  · funext va
    change view s' _ va = if _ then if _ then view s t.mem va else _ else _
    by_cases h2 : va / 4096 < pagesUp newsz
    · rw [if_pos h2]
      by_cases h1 : va / 4096 < pagesUp t.mem.sz
      · have h1' : va / 4096 < pagesUp (image s t).sz := h1
        obtain ⟨he, hm⟩ := hold _ h1 h2
        rw [if_pos h1']
        by_cases hmap : Mapped s t.mem (va / 4096)
        · have hmap' : Mapped s' ⟨newsz, t.mem.pagetable⟩ (va / 4096) := by
            unfold Mapped
            rw [he]
            exact hmap
          rw [view_mapped hmap, view_mapped hmap', he, hm hmap]
        · have hmap' : ¬Mapped s' ⟨newsz, t.mem.pagetable⟩ (va / 4096) := by
            unfold Mapped
            rw [he]
            exact hmap
          by_cases hl : Lazy s t.mem (va / 4096)
          · rw [view_lazy hl, view_lazy ((hlazy _ h1 h2).mpr hl)]
          · rw [view_none hmap hl, view_none hmap' (mt (hlazy _ h1 h2).mp hl)]
      · have h1' : ¬va / 4096 < pagesUp (image s t).sz := h1
        rw [if_neg h1']
        rcases hnew _ (not_lt.mp h1) h2 with ⟨rfl, hz⟩ | ⟨a, hframe, hzero, ha⟩
        · exact view_lazy (hfresh _ (not_lt.mp h1) h2 hz)
        · have hmap : Mapped s' ⟨newsz, t.mem.pagetable⟩ (va / 4096) := by
            have hV : PTE_V &&& PTE_U = 0 := by decide
            unfold Mapped
            rw [ha, UInt64.or_assoc, entry_and (by decide), or_and, hV, UInt64.or_zero]
            exact hU
          rw [view_mapped hmap, ha, entry_page hframe.1 hsmall, hzero]
          rfl
    · rw [if_neg h2]
      by_cases hk : va / 4096 < USER
      · obtain ⟨hz, hl⟩ := hgone _ hk h2
        exact view_none (fun hm => hm.ne_zero hz) hl
      · exact view_none (fun hm => hk (h'.mapped_lt hm)) fun hl => h2 (lt_pagesUp.mpr hl.1)
  · funext i
    change entry (s'.mem t.trapframe) _ = entry (s.mem t.trapframe) _
    rw [hf]

/-- The image after the size has changed, whether or not the new pages have been allocated. -/
lemma image_resize (h : Whole s t.mem) (h' : Whole s' ⟨newsz, t.mem.pagetable⟩)
    (hf : s'.mem t.trapframe = s.mem t.trapframe)
    (hold : ∀ k, k < pagesUp t.mem.sz → k < pagesUp newsz →
      entryOf s' ⟨newsz, t.mem.pagetable⟩ k = entryOf s t.mem k ∧ (Mapped s t.mem k →
        s'.mem (PTE2PA (entryOf s t.mem k)) = s.mem (PTE2PA (entryOf s t.mem k))))
    (hnew : ∀ k, pagesUp t.mem.sz ≤ k → k < pagesUp newsz →
      entryOf s' ⟨newsz, t.mem.pagetable⟩ k = 0 ∨ ∃ a, s.Frame a ∧ s'.mem a = filled 0 ∧
        entryOf s' ⟨newsz, t.mem.pagetable⟩ k = PA2PTE a ||| FAULT ||| PTE_V) :
    image s' ⟨⟨newsz, t.mem.pagetable⟩, t.trapframe⟩ = (image s t).resize newsz :=
  image_span h h' hf hold (fun k h1 h2 => (hnew k h1 h2).imp_left fun hz => ⟨rfl, hz⟩) (by decide)
    (by decide) (by decide)

/-- To the size that it has. -/
lemma image_resize_self (h : Whole s t.mem) : (image s t).resize t.mem.sz = image s t :=
  (image_resize h h rfl (fun _ _ _ => ⟨rfl, fun _ => rfl⟩) fun _ h1 h2 => absurd h2 (not_lt.mpr h1)).symm

/-- What `sys_sbrk` comes to. -/
def Sized (s s' : Ram) (t : Task) (n : Int32) (r sz : UInt64) : Prop :=
  Act s s' (some t) (some ⟨⟨sz, t.mem.pagetable⟩, t.trapframe⟩) ∧
  ((image s t).want n = none ∧ r = -1 ∧ s'.failed = s.failed ∧
      image s' ⟨⟨sz, t.mem.pagetable⟩, t.trapframe⟩ = image s t ∨
    (image s t).want n = some sz ∧ r = t.mem.sz ∧ s'.failed = s.failed ∧
      image s' ⟨⟨sz, t.mem.pagetable⟩, t.trapframe⟩ = (image s t).resize sz ∨
    r = -1 ∧ s.failed < s'.failed ∧
      image s' ⟨⟨sz, t.mem.pagetable⟩, t.trapframe⟩ = image s t)

/-- The trapframe of a process is no page of its address space, and not free. -/
lemma frame_out (hone : ∀ x, (Holding.pages s t + s.free).count x ≤ 1) :
    t.trapframe ∉ owned s t.mem ∧ t.trapframe ∉ s.free := by
  have hnod := Multiset.nodup_iff_count_le_one.mpr hone
  have hin := Multiset.mem_singleton_self t.trapframe
  refine ⟨fun hx => ?_, fun hx => ?_⟩
  · exact Multiset.disjoint_left.mp (Multiset.nodup_add.mp (Multiset.nodup_add.mp hnod).1).2.2 hx hin
  · exact Multiset.disjoint_left.mp (Multiset.nodup_add.mp hnod).2.2
      (Multiset.mem_add.mpr (.inr hin)) hx

lemma frame_of_kept {p' : Proc} (hone : ∀ x, (Holding.pages s t + s.free).count x ≤ 1)
    (h : Kept s s' t.mem p') : s'.mem t.trapframe = s.mem t.trapframe :=
  h.frame _ (frame_out hone).1 (frame_out hone).2

/-- Nothing has been done. -/
lemma sized_none {n : Int32} (h : Good s t) (hw : (image s t).want n = none) :
    Sized s s t n (-1) t.mem.sz :=
  ⟨act_of_kept h (Kept.refl h.whole), .inl ⟨hw, rfl, rfl, rfl⟩⟩

/-- Nothing had to be done. -/
lemma sized_same {n : Int32} (h : Good s t) (hw : (image s t).want n = some t.mem.sz) :
    Sized s s t n t.mem.sz t.mem.sz :=
  ⟨act_of_kept h (Kept.refl h.whole), .inr (.inl ⟨hw, rfl, rfl, (image_resize_self h.whole).symm⟩)⟩

/-- The address space ends elsewhere now, with no page allocated. -/
lemma sized_lazy {n : Int32} (h : Good s t) (hw : (image s t).want n = some newsz)
    (hle : newsz ≤ TRAPFRAME) (hge : t.mem.sz ≤ newsz) : Sized s s t n t.mem.sz newsz := by
  have hup := pagesUp_mono hge
  have hentry : entryOf s ⟨newsz, t.mem.pagetable⟩ = entryOf s t.mem := entryOf_mk ..
  have howned : owned s ⟨newsz, t.mem.pagetable⟩ = owned s t.mem := by
    rw [owned, owned, hentry]
  have hwhole : Whole s ⟨newsz, t.mem.pagetable⟩ := by
    refine ⟨⟨h.whole.proper, ?_, ?_, hle, ?_, ?_, ?_⟩, h.whole.low⟩
    · rw [howned]
      exact h.whole.once
    · rw [hentry]
      exact h.whole.frame
    · rw [hentry]
      exact fun k hk hne => (h.whole.below k hk hne).trans_le hup
    · rw [hentry]
      exact h.whole.high
    · rw [hentry]
      exact h.whole.leaf
  have hkept : Kept s s t.mem ⟨newsz, t.mem.pagetable⟩ :=
    ⟨Later.refl s, hwhole, by rw [howned], fun _ _ _ => rfl⟩
  refine ⟨act_of_kept h hkept, .inr (.inl ⟨hw, rfl, rfl, image_resize h.whole hwhole rfl
    (fun k _ _ => ⟨congrFun hentry k, fun _ => rfl⟩) fun k h1 h2 => .inl ?_⟩)⟩
  rw [hentry]
  exact h.whole.none h1 (h2.trans_le (le_TRAPFRAME.mp hle))

/-- Pages have been allocated up to the new size. -/
lemma sized_grown {n : Int32} (h : Good s t) (hone : ∀ x, (Holding.pages s t + s.free).count x ≤ 1)
    (hw : (image s t).want n = some newsz) (hg : Grown s s' t.mem newsz FAULT) :
    Sized s s' t n t.mem.sz newsz := by
  refine ⟨act_of_kept h hg.kept, .inr (.inl ⟨hw, rfl, hg.same, ?_⟩)⟩
  refine image_resize h.whole hg.kept.whole (frame_of_kept hone hg.kept) (fun k h1 h2 => ?_)
    fun k h1 h2 => ?_
  · refine ⟨hg.other k (by omega), fun hm => hg.pages _ ?_⟩
    exact h.whole.mem_held (h.whole.mapped_lt hm) hm.ne_zero
  · obtain ⟨a, hframe, ha, hz⟩ := hg.fresh k h1 h2
    exact .inr ⟨a, hframe, hz, ha⟩

/-- Pages have been freed from the new size on. -/
lemma sized_shrunk {n : Int32} (h : Good s t) (hone : ∀ x, (Holding.pages s t + s.free).count x ≤ 1)
    (hw : (image s t).want n = some newsz) (hlt : newsz < t.mem.sz)
    (hg : Shrunk s s' t.mem newsz) : Sized s s' t n t.mem.sz newsz := by
  have hup := pagesUp_mono (UInt64.le_of_lt hlt)
  have hsz := h.whole.pages
  refine ⟨act_of_kept h hg.kept, .inr (.inl ⟨hw, rfl, hg.same, ?_⟩)⟩
  refine image_resize h.whole hg.kept.whole (frame_of_kept hone hg.kept) (fun k h1 h2 => ?_)
    fun k h1 h2 => ?_
  · have he : entryOf s' ⟨newsz, t.mem.pagetable⟩ k = entryOf s t.mem k := by
      rw [hg.entry, if_neg (by omega)]
    refine ⟨he, fun hm => hg.pages _ ?_⟩
    rw [← he]
    refine hg.kept.whole.mem_held (by omega) ?_
    rw [he]
    exact hm.ne_zero
  · omega

/-- The size that is wanted, as the kernel computes it. -/
lemma want_eq (h : Good s t) (n : Int32) :
    ((t.mem.sz.toNat : ℤ) + n.toInt < 0 → (image s t).want n = some t.mem.sz ∧
      t.mem.sz ≤ t.mem.sz + n.toInt64.toUInt64) ∧
    (0 ≤ (t.mem.sz.toNat : ℤ) + n.toInt →
      ((t.mem.sz + n.toInt64.toUInt64).toNat : ℤ) = t.mem.sz.toNat + n.toInt ∧
      (image s t).want n = if t.mem.sz + n.toInt64.toUInt64 ≤ TRAPFRAME then
        some (t.mem.sz + n.toInt64.toUInt64) else none) := by
  obtain ⟨hpos, hneg⟩ := toNat_add n h.whole.size
  have hwant : (image s t).want n = if (t.mem.sz.toNat : ℤ) + n.toInt < 0 then some t.mem.sz
      else if (t.mem.sz.toNat : ℤ) + n.toInt ≤ TRAPFRAME.toNat then
        some (UInt64.ofNat ((t.mem.sz.toNat : ℤ) + n.toInt).toNat) else none := rfl
  refine ⟨fun hn => ⟨?_, hneg hn⟩, fun hn => ⟨hpos hn, ?_⟩⟩
  · rw [hwant, if_pos hn]
  · rw [hwant, if_neg (not_lt.mpr hn), ← hpos hn, Int.toNat_natCast, UInt64.ofNat_toNat]
    have hiff : ((t.mem.sz + n.toInt64.toUInt64).toNat : ℤ) ≤ TRAPFRAME.toNat ↔
        t.mem.sz + n.toInt64.toUInt64 ≤ TRAPFRAME := by
      rw [Int.ofNat_le]
      exact Iff.rfl
    simp only [hiff]

/-- **`growproc`**, which allocates and frees. -/
lemma growproc_spec (h : Good s t) (hone : ∀ x, (Holding.pages s t + s.free).count x ≤ 1)
    (n : Int32) : wp may (growproc t.mem n) (fun r s' => r.1 = -1 ∧ Sized s s' t n (-1) r.2 ∨
      r.1 = 0 ∧ Sized s s' t n t.mem.sz r.2) s := by
  obtain ⟨hless, hmore⟩ := want_eq h n
  unfold growproc
  rw [wp_ite]
  refine ⟨fun hpos => ?_, fun hpos => ?_⟩
  · have hn : 0 < n.toInt := Int32.lt_iff_toInt_lt.mp hpos
    obtain ⟨hsum, hw⟩ := hmore (by omega)
    have hge : ¬t.mem.sz + n.toInt64.toUInt64 < t.mem.sz := by
      intro hlt
      have hlt' : (t.mem.sz + n.toInt64.toUInt64).toNat < t.mem.sz.toNat := hlt
      omega
    rw [wp_ite]
    refine ⟨fun hgt => ?_, fun hle => ?_⟩
    · rw [if_neg (UInt64.not_le.mpr hgt)] at hw
      rw [wp_pure]
      exact .inl ⟨rfl, sized_none h hw⟩
    · rw [if_pos (UInt64.not_lt.mp hle)] at hw
      have hroom := le_TRAPFRAME.mp (UInt64.not_lt.mp hle)
      refine wp_call (alloc_spec h.whole (by decide) (.inl hroom)) fun r s' hr => ?_
      rcases hr with ⟨hlt, -⟩ | ⟨-, ⟨rfl, -, hg⟩ | ⟨rfl, hfail, hch, hview⟩⟩
      · exact absurd hlt hge
      · have hnz : t.mem.sz + n.toInt64.toUInt64 ≠ 0 := by
          intro hz
          rw [hz] at hsum
          have hzero : (0 : UInt64).toNat = 0 := rfl
          omega
        rw [if_neg hnz, wp_pure]
        exact .inr ⟨rfl, sized_grown h hone hw hg⟩
      · rw [if_pos rfl, wp_pure]
        have hkept := kept_of_change h.whole hch
        refine .inl ⟨rfl, act_of_kept h hkept, .inr (.inr ⟨rfl, hfail, ?_⟩)⟩
        have him := image_of_change hch (frame_of_kept hone hkept)
        rw [funext hview] at him
        exact him
  rw [wp_ite]
  refine ⟨fun hneg => ?_, fun hneg => ?_⟩
  · have hn : n.toInt < 0 := Int32.lt_iff_toInt_lt.mp hneg
    refine wp_call (dealloc_spec h.whole) fun r s' hr => ?_
    rw [wp_pure]
    rcases hr with ⟨hge, rfl, rfl⟩ | ⟨hlt, rfl, hs⟩
    · by_cases hsum : (t.mem.sz.toNat : ℤ) + n.toInt < 0
      · exact .inr ⟨rfl, sized_same h (hless hsum).1⟩
      · obtain ⟨heq, -⟩ := hmore (by omega)
        have hge' : t.mem.sz.toNat ≤ (t.mem.sz + n.toInt64.toUInt64).toNat := hge
        omega
    · by_cases hsum : (t.mem.sz.toNat : ℤ) + n.toInt < 0
      · exact absurd (hless hsum).2 hlt
      · obtain ⟨-, hw⟩ := hmore (by omega)
        have hlt' := UInt64.not_le.mp hlt
        rw [if_pos (UInt64.le_trans (UInt64.le_of_lt hlt') h.whole.size)] at hw
        exact .inr ⟨rfl, sized_shrunk h hone hw hlt' hs⟩
  · have hn : n.toInt = 0 := by
      have h1 : ¬0 < n.toInt := fun hp => hpos (Int32.lt_iff_toInt_lt.mpr hp)
      have h2 : ¬n.toInt < 0 := fun hp => hneg (Int32.lt_iff_toInt_lt.mpr hp)
      omega
    obtain ⟨hsum, hw⟩ := hmore (by omega)
    have hsame : t.mem.sz + n.toInt64.toUInt64 = t.mem.sz := by
      rw [← UInt64.toNat_inj]
      omega
    rw [hsame, if_pos h.whole.size] at hw
    rw [wp_pure]
    exact .inr ⟨rfl, sized_same h hw⟩

/-- **`sys_sbrk`**, eager or lazy, changes the size to what is wanted. -/
theorem sbrk_spec (h : Good s t) (hone : ∀ x, (Holding.pages s t + s.free).count x ≤ 1)
    (n ty : Int32) : wp may (sys_sbrk t.mem n ty) (fun r s' => Sized s s' t n r.1 r.2) s := by
  unfold sys_sbrk
  rw [wp_ite]
  refine ⟨fun _ => ?_, fun hlazy => ?_⟩
  · refine wp_call (growproc_spec h hone n) fun r s' hr => ?_
    rw [wp_ite]
    refine ⟨fun hneg => ?_, fun hneg => ?_⟩
    · rcases hr with ⟨-, hs⟩ | ⟨hr, -⟩
      · exact hs
      · exact absurd hneg (by rw [hr]; decide)
    · rcases hr with ⟨hr, -⟩ | ⟨-, hs⟩
      · exact absurd (by rw [hr]; decide) hneg
      · exact hs
  · have hn : 0 ≤ n.toInt := by
      have h2 : ¬n.toInt < 0 := fun hp => hlazy (.inr (Int32.lt_iff_toInt_lt.mpr hp))
      omega
    obtain ⟨hsum, hw⟩ := (want_eq h n).2 (by omega)
    have hge : ¬t.mem.sz + n.toInt64.toUInt64 < t.mem.sz := by
      intro hlt
      have hlt' : (t.mem.sz + n.toInt64.toUInt64).toNat < t.mem.sz.toNat := hlt
      omega
    rw [if_neg hge, wp_ite]
    refine ⟨fun hgt => ?_, fun hle => ?_⟩
    · rw [if_neg (UInt64.not_le.mpr hgt)] at hw
      exact sized_none h hw
    · have hle' := UInt64.not_lt.mp hle
      rw [if_pos hle'] at hw
      exact sized_lazy h hw hle' (UInt64.not_lt.mp hge)

end Xv6.Vm.View
