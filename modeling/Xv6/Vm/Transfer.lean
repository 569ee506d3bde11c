import Xv6.Vm.Space

/-!
`copyout` and `copyin` between the kernel and a user address space: what arrives, which pages are
allocated on the way, and when they fail.
-/

namespace Xv6.Vm.Transfer

open Xv6.Data Xv6.Data.Effect Xv6.Data.Effect.Eff Xv6.Vm.Paging Xv6.Vm.Memory Xv6.Vm.Table
  Xv6.Vm.Tree Xv6.Vm.Walk Xv6.Vm.Maps Xv6.Vm.Grow Xv6.Vm.Copy Xv6.Vm.Space

variable {s s' s'' : Ram} {p : Proc} {a va va0 pt e len dstva srcva : UInt64} {k n : ℕ}
  {may : String → Prop} {src : ℕ → UInt8}

/-! ### Looking up a page -/

lemma walk_mapping (hva : va < MAXVA) (hne : mapping s.mem pt (vpn va) ≠ 0) :
    ∃ t, walk pt va false s = .ok s (some (t, Fin.ofNat 512 (vpn va))) ∧
      entry (s.mem t) (Fin.ofNat 512 (vpn va)) = mapping s.mem pt (vpn va) := by
  obtain ⟨-, t, ht, hentry⟩ := mapping_table hne
  refine ⟨t, ?_, hentry⟩
  rw [walk_leaf hva, leaf, ht]
  rfl

/-- What a `pte_t *` that `walk` returned leads to, as far as it is valid. -/
lemma walk_entry (s : Ram) (pt : UInt64) (hva : va < MAXVA) : ∃ o, walk pt va false s = .ok s o ∧
    (o = none ∧ mapping s.mem pt (vpn va) = 0 ∨ ∃ t i, o = some (t, i) ∧
      mapping s.mem pt (vpn va) = if entry (s.mem t) i &&& PTE_V ≠ 0 then entry (s.mem t) i else 0) := by
  refine ⟨_, walk_leaf hva, ?_⟩
  cases ht : table s.mem pt (vpn va) with
  | none =>
    refine .inl ⟨?_, mapping_of_none ht⟩
    rw [leaf, ht]
    rfl
  | some t =>
    refine .inr ⟨t, Fin.ofNat 512 (vpn va), ?_, mapping_of_table (lt_MAXVA.mp hva) ht⟩
    rw [leaf, ht]
    rfl

lemma walkaddr_eq (s : Ram) (pt va : UInt64) : walkaddr pt va s =
    .ok s (if mapping s.mem pt (vpn va) &&& PTE_U ≠ 0 then PTE2PA (mapping s.mem pt (vpn va))
      else 0) := by
  have hzero : ¬((0 : UInt64) &&& PTE_U ≠ 0) := not_not.mpr UInt64.zero_and
  unfold walkaddr
  by_cases hva : va < MAXVA
  · rw [if_neg (UInt64.not_le.mpr hva)]
    obtain ⟨o, ho, ⟨rfl, hz⟩ | ⟨t, i, rfl, hmap⟩⟩ := walk_entry s pt hva
    · rw [bind_ok ho, hz, if_neg hzero]
      rfl
    · rw [bind_ok ho, hmap]
      change (fetch t i >>= _) s = _
      rw [fetch_bind]
      by_cases hv : entry (s.mem t) i &&& PTE_V = 0
      · rw [if_pos hv, if_neg (not_not.mpr hv), if_neg hzero]
        rfl
      · rw [if_neg hv, if_pos hv]
        by_cases hu : entry (s.mem t) i &&& PTE_U = 0
        · rw [if_pos hu, if_neg (not_not.mpr hu)]
          rfl
        · rw [if_neg hu, if_pos hu]
          rfl
  · rw [if_pos (UInt64.not_lt.mp hva), mapping_of_le (Nat.le_of_not_lt (mt lt_MAXVA.mpr hva)),
      if_neg hzero]
    rfl

lemma ismapped_eq (hva : va < MAXVA) :
    ismapped pt va s = .ok s (decide (mapping s.mem pt (vpn va) ≠ 0)) := by
  unfold ismapped
  obtain ⟨o, ho, ⟨rfl, hz⟩ | ⟨t, i, rfl, hmap⟩⟩ := walk_entry s pt hva
  · rw [bind_ok ho, hz]
    rfl
  · rw [bind_ok ho, hmap]
    change (fetch t i >>= _) s = _
    rw [fetch_bind]
    by_cases hv : entry (s.mem t) i &&& PTE_V ≠ 0
    · have hne : entry (s.mem t) i ≠ 0 := by
        intro hz
        rw [hz] at hv
        exact hv UInt64.zero_and
      rw [if_pos hv, decide_eq_true hv, decide_eq_true hne]
      rfl
    · rw [if_neg hv, decide_eq_false hv]
      rfl

/-! ### `vmfault` -/

lemma vpn_down (va : UInt64) : vpn (PGROUNDDOWN va) = vpn va := by
  unfold vpn
  rw [toNat_PGROUNDDOWN]
  omega

/-- What `vmfault` comes to. -/
def Faulted (s s' : Ram) (p : Proc) (va r : UInt64) : Prop :=
  (∀ a, view s' p a = view s p a) ∧
  (r = 0 ∧ Change s s' p (fun _ => False) ∧
      (¬(va < p.sz ∧ entryOf s p (vpn va) = 0) ∧ s' = s ∨
        va < p.sz ∧ entryOf s p (vpn va) = 0 ∧ s.failed < s'.failed) ∨
    r ≠ 0 ∧ s'.failed = s.failed ∧ va < p.sz ∧ entryOf s p (vpn va) = 0 ∧
      entryOf s' p (vpn va) = PA2PTE r ||| FAULT ||| PTE_V ∧ Change s s' p (· = vpn va) ∧
      PTE2PA (entryOf s' p (vpn va)) = r)

/-- **`vmfault`** allocates the page of an address below `sz`, unless it is there. -/
theorem vmfault_spec (h : Sound s p) :
    wp may (vmfault p p.pagetable va) (fun r s' => Faulted s s' p va r) s := by
  have hnothing : ¬(va < p.sz ∧ entryOf s p (vpn va) = 0) → Faulted s s p va 0 := fun hn =>
    ⟨fun _ => rfl, .inl ⟨rfl, Change.refl h, .inl ⟨hn, rfl⟩⟩⟩
  unfold vmfault
  rw [wp_ite]
  refine ⟨fun hge => ?_, fun hlt => ?_⟩
  · rw [wp_pure]
    exact hnothing fun hn => UInt64.not_lt.mpr hge hn.1
  have hsz : va < p.sz := UInt64.not_le.mp hlt
  have hmax : va < MAXVA := by
    have h1 : va.toNat < p.sz.toNat := hsz
    have h2 : p.sz.toNat ≤ 274877898752 := h.size
    change va.toNat < 274877906944
    omega
  have hdown : PGROUNDDOWN va < MAXVA := lt_MAXVA.mpr (by rw [vpn_down]; exact lt_MAXVA.mp hmax)
  have hal : (PGROUNDDOWN va).toNat % 4096 = 0 := by
    rw [toNat_PGROUNDDOWN]
    omega
  rw [wp_bind]
  refine wp_of_ok (ismapped_eq hdown) ?_
  rw [vpn_down, wp_ite]
  refine ⟨fun hmap => ?_, fun hmap => ?_⟩
  · rw [wp_pure]
    exact hnothing fun hn => of_decide_eq_true hmap hn.2
  have hz : entryOf s p (vpn va) = 0 := by
    by_contra hne
    exact hmap (decide_eq_true hne)
  have hlazy : Lazy s p (vpn va) := by
    refine ⟨?_, hz⟩
    have : va.toNat < p.sz.toNat := hsz
    unfold vpn
    omega
  refine wp_call (kalloc_edit h.proper) fun mem s1 hk => ?_
  obtain ⟨rfl, hfail, hedit⟩ | ⟨hfree, hne, hfail, hedit⟩ := hk
  · rw [if_pos rfl, wp_pure]
    obtain ⟨hch, hview⟩ := h.unchanged hedit
    exact ⟨hview, .inl ⟨rfl, hch, .inr ⟨hsz, hz, hfail⟩⟩⟩
  rw [if_neg hne, wp_bind, memset, wp_change]
  obtain ⟨s2, hs2⟩ : ∃ s2 : Ram, s2 = { s1 with mem := Function.update s1.mem mem (filled 0) } :=
    ⟨_, rfl⟩
  have hw := edit_write hedit h.proper hfree (filled 0)
  rw [← hs2] at hw ⊢
  have hf2 : s2.failed = s.failed := by
    rw [hs2]
    exact hfail
  have hpage : s2.mem mem = filled 0 := by
    rw [hs2]
    exact Function.update_self _ _ _
  refine wp_call (map_taken h.proper hw hal (.inl (lt_MAXVA.mp hdown))
    (.inl (by rw [vpn_down]; exact hz))) fun r s3 hr => ?_
  rw [wp_ite]
  refine ⟨fun hrz => ?_, fun hrz => ?_⟩
  · obtain ⟨hr, -⟩ | ⟨-, hfail3, hed3⟩ := hr
    · exact absurd hr hrz
    refine wp_call (give_taken h.proper hfree hed3) fun _ s4 hs4 => ?_
    obtain ⟨hf4, hed4⟩ := hs4
    obtain ⟨hch, hview⟩ := h.unchanged hed4
    rw [wp_pure]
    exact ⟨hview, .inl ⟨rfl, hch, .inr ⟨hsz, hz, by omega⟩⟩⟩
  · obtain ⟨-, hfail3, -, -, hpage3, hed3⟩ | ⟨hr, -⟩ := hr
    · rw [vpn_down] at hed3
      rw [hpage] at hpage3
      obtain ⟨hch, hview⟩ := h.faulted hlazy hed3 hfree hpage3
      have hnew : entryOf s3 p (vpn va) = PA2PTE mem ||| FAULT ||| PTE_V := by
        rw [show entryOf s3 p = _ from hed3.map, Function.update_self]
        rfl
      have hframe := h.proper.frame mem (Multiset.mem_add.mpr (.inr hfree))
      rw [wp_pure]
      refine ⟨hview, .inr ⟨hne, by omega, hsz, hz, hnew, hch, ?_⟩⟩
      rw [hnew]
      exact entry_page hframe.1 (by decide)
    · exact absurd hr (by rintro rfl; exact hrz (by decide))

/-! ### One page -/

/-- Page `k` is there now, as `r`, or cannot be used. -/
def Found (s s' : Ram) (p : Proc) (k : ℕ) (r : UInt64) : Prop :=
  (∀ a, view s' p a = view s p a) ∧
  (r = 0 ∧ Change s s' p (fun _ => False) ∧
      (¬Mapped s p k ∧ ¬Lazy s p k ∧ s'.failed = s.failed ∨ Lazy s p k ∧ s.failed < s'.failed) ∨
    r ≠ 0 ∧ s'.failed = s.failed ∧ Mapped s' p k ∧ PTE2PA (entryOf s' p k) = r ∧
      Change s s' p (· = k) ∧
      (Mapped s p k ∧ entryOf s' p k = entryOf s p k ∨ Lazy s p k ∧ Writable s' p k))

lemma page_ne_zero (h : Sound s p) (hm : Mapped s p k) : PTE2PA (entryOf s p k) ≠ 0 :=
  frame_ne_zero h.proper.kend (h.frame _ (h.mem_held (h.mapped_lt hm) hm.ne_zero))

lemma lazy_iff (hal : va0.toNat % 4096 = 0) :
    Lazy s p (vpn va0) ↔ va0 < p.sz ∧ entryOf s p (vpn va0) = 0 := by
  unfold Lazy
  have hva : vpn va0 * 4096 = va0.toNat := by
    unfold vpn
    omega
  rw [hva]
  exact Iff.rfl

lemma fault_flag {f : UInt64} (he : entryOf s p k = PA2PTE a ||| FAULT ||| PTE_V)
    (hf : f.toNat < 1024) (hne : (FAULT ||| PTE_V) &&& f ≠ 0) : entryOf s p k &&& f ≠ 0 := by
  rw [he, UInt64.or_assoc, entry_and hf]
  exact hne

lemma pageOf_spec (h : Sound s p) (hal : va0.toNat % 4096 = 0) :
    wp may (pageOf p p.pagetable va0) (fun r s' => Found s s' p (vpn va0) r) s := by
  unfold pageOf
  rw [wp_bind]
  refine wp_of_ok (walkaddr_eq s p.pagetable va0) ?_
  by_cases hm : Mapped s p (vpn va0)
  · have hne := page_ne_zero h hm
    have hval : (if mapping s.mem p.pagetable (vpn va0) &&& PTE_U ≠ 0 then
        PTE2PA (mapping s.mem p.pagetable (vpn va0)) else 0) = PTE2PA (entryOf s p (vpn va0)) :=
      if_pos hm
    rw [hval, if_neg hne, wp_pure]
    exact ⟨fun _ => rfl, .inr ⟨hne, rfl, hm, rfl, Change.refl h, .inl ⟨hm, rfl⟩⟩⟩
  · have hval : (if mapping s.mem p.pagetable (vpn va0) &&& PTE_U ≠ 0 then
        PTE2PA (mapping s.mem p.pagetable (vpn va0)) else 0) = 0 := if_neg hm
    rw [hval, if_pos rfl]
    refine wp_mono (vmfault_spec h) fun r s' hr => ?_
    obtain ⟨hview, ⟨hr, hch, hcase⟩ | ⟨hr, hfail, hlt, hz, hnew, hch, hpa⟩⟩ := hr
    · refine ⟨hview, .inl ⟨hr, hch, ?_⟩⟩
      rw [lazy_iff hal]
      rcases hcase with ⟨hn, rfl⟩ | ⟨hlt, hz, hfail⟩
      · exact .inl ⟨hm, hn, rfl⟩
      · exact .inr ⟨⟨hlt, hz⟩, hfail⟩
    · have hU : Mapped s' p (vpn va0) := fault_flag hnew (by decide) (by decide)
      have hW : entryOf s' p (vpn va0) &&& PTE_W ≠ 0 :=
        fault_flag hnew (by decide) (by decide)
      exact ⟨hview, .inr ⟨hr, hfail, hU, hpa, hch, .inr ⟨(lazy_iff hal).mpr ⟨hlt, hz⟩, hU, hW⟩⟩⟩

/-! ### Ranges of addresses -/

/-- Some of the `n` bytes from `d` is in page `k`. -/
def InRange (d n k : ℕ) : Prop := ∃ va, d ≤ va ∧ va < d + n ∧ va / 4096 = k

/-- How many of them are in the first page. -/
def first (d n : ℕ) : ℕ := min (4096 - d % 4096) n

lemma inRange_split {d : ℕ} (hn : 0 < n) : InRange d n k ↔
    k = d / 4096 ∨ InRange ((d / 4096 + 1) * 4096) (n - first d n) k := by
  unfold first
  constructor
  · rintro ⟨va, h1, h2, rfl⟩
    by_cases hva : va / 4096 = d / 4096
    · exact .inl hva
    · exact .inr ⟨va, by omega, by omega, rfl⟩
  · rintro (rfl | ⟨va, h1, h2, rfl⟩)
    · exact ⟨d, le_rfl, by omega, rfl⟩
    · exact ⟨va, by omega, by omega, rfl⟩

lemma not_inRange_zero {d : ℕ} : ¬InRange d 0 k := by
  rintro ⟨va, h1, h2, -⟩
  omega

lemma toNat_off (va : UInt64) : (va - PGROUNDDOWN va).toNat = va.toNat % 4096 := by
  have hle : PGROUNDDOWN va ≤ va := by
    change (PGROUNDDOWN va).toNat ≤ va.toNat
    rw [toNat_PGROUNDDOWN]
    omega
  rw [UInt64.toNat_sub_of_le _ _ hle, toNat_PGROUNDDOWN]
  omega

lemma toNat_inPage (va len : UInt64) : (inPage va len).toNat = first va.toNat len.toNat := by
  have hle : va - PGROUNDDOWN va ≤ PGSIZE := by
    change (va - PGROUNDDOWN va).toNat ≤ 4096
    rw [toNat_off]
    omega
  have hrest : (PGSIZE - (va - PGROUNDDOWN va)).toNat = 4096 - va.toNat % 4096 := by
    rw [UInt64.toNat_sub_of_le _ _ hle, toNat_off, toNat_PGSIZE]
  unfold inPage first
  split_ifs with h
  · have : len.toNat < (PGSIZE - (va - PGROUNDDOWN va)).toNat := h
    omega
  · have : ¬len.toNat < (PGSIZE - (va - PGROUNDDOWN va)).toNat := h
    omega

/-- Where a transfer goes on after the first page. -/
lemma toNat_next (len : UInt64) (hva : PGROUNDDOWN va < MAXVA) :
    (PGROUNDDOWN va + PGSIZE).toNat = (va.toNat / 4096 + 1) * 4096 ∧
      (len - inPage va len).toNat = len.toNat - first va.toNat len.toNat := by
  have hlt : (PGROUNDDOWN va).toNat < 2 ^ 38 := hva
  have hdown := toNat_PGROUNDDOWN va
  have hin := toNat_inPage va len
  constructor
  · rw [UInt64.toNat_add, toNat_PGSIZE, hdown]
    omega
  · have hle : inPage va len ≤ len := by
      change (inPage va len).toNat ≤ len.toNat
      rw [hin]
      unfold first
      omega
    rw [UInt64.toNat_sub_of_le _ _ hle, hin]

/-! ### `copyout` -/

/-- Page `k` can be written to now, as `r`, or cannot. -/
def Dest (s s' : Ram) (p : Proc) (k : ℕ) (r : UInt64) : Prop :=
  (∀ a, view s' p a = view s p a) ∧ Change s s' p (· = k) ∧
  (r = 0 ∧ ¬((Writable s p k ∨ Lazy s p k) ∧ s'.failed = s.failed) ∨
    r ≠ 0 ∧ s'.failed = s.failed ∧ (Writable s p k ∨ Lazy s p k) ∧ Writable s' p k ∧
      PTE2PA (entryOf s' p k) = r)

lemma Change.entry_other (h : Change s s' p (· = k)) {l : ℕ} (hl : l ≠ k) :
    entryOf s' p l = entryOf s p l := (h.map l).resolve_right fun hk => hl hk.1

lemma Writable.congr (he : entryOf s' p k = entryOf s p k) : Writable s' p k ↔ Writable s p k := by
  unfold Writable Mapped
  rw [he]

lemma destOf_spec (h : Sound s p) (hal : va0.toNat % 4096 = 0) :
    wp may (destOf p p.pagetable va0) (fun r s' => Dest s s' p (vpn va0) r) s := by
  unfold destOf
  rw [wp_ite]
  refine ⟨fun hge => ?_, fun hlt => ?_⟩
  · rw [wp_pure]
    refine ⟨fun _ => rfl, Change.refl h, .inl ⟨rfl, fun hg => ?_⟩⟩
    have hpast := Nat.le_of_not_lt (mt lt_MAXVA.mpr (UInt64.not_lt.mpr hge))
    have hup := USER_lt
    rcases hg.1 with hW | hL
    · have := h.mapped_lt hW.1
      omega
    · have := h.lazy_lt hL
      omega
  refine wp_call (pageOf_spec h hal) fun pa0 s1 hf => ?_
  obtain ⟨hview, ⟨rfl, hch, hcase⟩ | ⟨hne, hfail, hM, hpa, hch, hcase⟩⟩ := hf
  · rw [if_pos rfl, wp_pure]
    refine ⟨hview, hch.mono fun _ hf => hf.elim, .inl ⟨rfl, fun hg => ?_⟩⟩
    rcases hcase with ⟨hM, hL, -⟩ | ⟨-, hfail⟩
    · exact hg.1.elim (fun hW => hM hW.1) hL
    · omega
  rw [if_neg hne, wp_bind]
  -- the entry is looked up once more
  obtain ⟨t, hwalk, hentry⟩ := walk_mapping (UInt64.not_le.mp hlt) hM.ne_zero
  refine wp_of_ok hwalk ?_
  change wp may (fetch t (Fin.ofNat 512 (vpn va0)) >>= _) _ s1
  rw [wp_bind, fetch, wp_look, hentry]
  change wp may (if entryOf s1 p (vpn va0) &&& PTE_W = 0 then _ else _) _ s1
  rw [wp_ite]
  refine ⟨fun hro => ?_, fun hwr => ?_⟩
  · rw [wp_pure]
    refine ⟨hview, hch, .inl ⟨rfl, fun hg => ?_⟩⟩
    rcases hcase with ⟨hm, he⟩ | ⟨-, hW⟩
    · rw [he] at hro
      exact hg.1.elim (fun hW => hW.2 hro) fun hL => hm.ne_zero hL.2
    · exact hW.2 hro
  · rw [wp_pure]
    refine ⟨hview, hch, .inr ⟨hne, hfail, ?_, ⟨hM, hwr⟩, hpa⟩⟩
    refine hcase.imp (fun hm => ⟨hm.1, ?_⟩) fun hl => hl.1
    rw [hm.2] at hwr
    exact hwr

/-- The `m` bytes from `d` are those of `src`, and the others are as they were. -/
def Arrived (s s' : Ram) (p : Proc) (d m : ℕ) (src : ℕ → UInt8) : Prop :=
  ∀ va, view s' p va = if d ≤ va ∧ va < d + m then some (src (va - d)) else view s p va

/-- What `copyout` comes to, which stores `m` bytes. -/
structure CopiedOut (s s' : Ram) (p : Proc) (d n : ℕ) (src : ℕ → UInt8) (r : ℤ) (m : ℕ) : Prop where
  change : Change s s' p (InRange d n)
  le : m ≤ n
  arrived : Arrived s s' p d m src
  all : r = 0 ↔ m = n
  result : r = 0 ∨ r = -1
  writable : r = 0 → ∀ k, InRange d n k → Writable s' p k
  iff : r = 0 ↔ (∀ k, InRange d n k → Writable s p k ∨ Lazy s p k) ∧ s'.failed = s.failed

lemma minus_one_ne : (-1 : ℤ) ≠ 0 := by decide

/-- Nothing arrives where the first page cannot be used. -/
lemma copiedOut_none {d : ℕ} (hn : 0 < n) (hch : Change s s' p (InRange d n))
    (hv : ∀ a, view s' p a = view s p a)
    (hbad : ¬((∀ k, InRange d n k → Writable s p k ∨ Lazy s p k) ∧ s'.failed = s.failed)) :
    CopiedOut s s' p d n src (-1) 0 := by
  refine ⟨hch, Nat.zero_le _, fun va => ?_, ⟨fun hr => absurd hr minus_one_ne, fun hm => by omega⟩,
    .inr rfl, fun hr => absurd hr minus_one_ne, ⟨fun hr => absurd hr minus_one_ne, fun hg => absurd hg hbad⟩⟩
  rw [hv, if_neg (by omega)]

/-- After the first page has been written, the rest is copied. -/
lemma copiedOut_cons {s1 : Ram} {d m : ℕ} {r : ℤ} (hn : 0 < n)
    (hch : Change s s1 p (· = d / 4096)) (hfail : s1.failed = s.failed)
    (hgood : Writable s p (d / 4096) ∨ Lazy s p (d / 4096)) (hW : Writable s1 p (d / 4096))
    (harr : Arrived s s1 p d (first d n) src)
    (hrest : CopiedOut s1 s' p ((d / 4096 + 1) * 4096) (n - first d n)
      (fun j => src (first d n + j)) r m) : CopiedOut s s' p d n src r (first d n + m) := by
  obtain ⟨hch', hm, harr', hall, hr, hwr, hiff⟩ := hrest
  have hnot : ∀ k, InRange ((d / 4096 + 1) * 4096) (n - first d n) k → k ≠ d / 4096 := by
    rintro k ⟨va, h1, -, rfl⟩
    omega
  refine ⟨?_, ?_, fun va => ?_, ?_, hr, fun hz k hk => ?_, ?_⟩
  · refine (hch.mono fun k hk => ?_).trans (hch'.mono fun k hk => ?_)
    · rw [hk]
      exact (inRange_split hn).mpr (.inl rfl)
    · exact (inRange_split hn).mpr (.inr hk)
  · unfold first at hm ⊢
    omega
  · rw [harr' va, harr va]
    by_cases hnew : (d / 4096 + 1) * 4096 ≤ va ∧ va < (d / 4096 + 1) * 4096 + m
    · have hfull : first d n = (d / 4096 + 1) * 4096 - d := by
        unfold first at hm ⊢
        omega
      have hidx : first d n + (va - (d / 4096 + 1) * 4096) = va - d := by omega
      rw [if_pos hnew, if_pos ⟨by omega, by omega⟩]
      exact congrArg (fun j => some (src j)) hidx
    · rw [if_neg hnew]
      have hiff' : (d ≤ va ∧ va < d + (first d n + m)) ↔ d ≤ va ∧ va < d + first d n := by
        unfold first at hm ⊢
        omega
      simp only [hiff']
  · rw [hall]
    unfold first at hm ⊢
    omega
  · rcases (inRange_split hn).mp hk with rfl | hk'
    · refine (Writable.congr ?_).mpr hW
      exact (hch'.map _).resolve_right fun hb => hnot _ hb.1 rfl
    · exact hwr hz k hk'
  · rw [hiff, hfail]
    refine and_congr_left fun _ => ⟨fun hg k hk => ?_, fun hg k hk => ?_⟩
    · rcases (inRange_split hn).mp hk with rfl | hk'
      · exact hgood
      · have he := Change.entry_other hch (hnot k hk')
        exact (hg k hk').imp (Writable.congr he).mp (Lazy.congr he).mp
    · have he := Change.entry_other hch (hnot k hk)
      exact (hg k ((inRange_split hn).mpr (.inr hk))).imp (Writable.congr he).mpr
        (Lazy.congr he).mpr

/-- What the first page shows after it has been written. -/
lemma patched {va d n : ℕ} (hM : Mapped s p (d / 4096)) (hpa : PTE2PA (entryOf s p (d / 4096)) = a) :
    (if va / 4096 = d / 4096 then
        some (patch (s.mem a) (d % 4096) (first d n) src ⟨va % 4096, low_lt va⟩) else view s p va) =
      if d ≤ va ∧ va < d + first d n then some (src (va - d)) else view s p va := by
  by_cases hk : va / 4096 = d / 4096
  · have hview : view s p va = some (s.mem a ⟨va % 4096, low_lt va⟩) := by
      rw [view_mapped (hk ▸ hM)]
      rw [hk, hpa]
    have hiff : (d % 4096 ≤ va % 4096 ∧ va % 4096 < d % 4096 + first d n) ↔
        d ≤ va ∧ va < d + first d n := by
      unfold first
      omega
    have hoff : va % 4096 - d % 4096 = va - d := by omega
    rw [if_pos hk, hview, patch]
    simp only [hiff, hoff]
    split_ifs <;> rfl
  · rw [if_neg hk, if_neg]
    unfold first
    omega

/-- A `memmove` to the page of `dstva`. -/
lemma moved (h : Sound s p) (hW : Writable s p (vpn dstva))
    (hpa : PTE2PA (entryOf s p (vpn dstva)) = a) :
    wp may (memmove a (dstva - PGROUNDDOWN dstva).toNat (inPage dstva len).toNat src)
      (fun _ s' => Change s s' p (fun _ => False) ∧ s'.failed = s.failed ∧
        entryOf s' p (vpn dstva) = entryOf s p (vpn dstva) ∧
        Arrived s s' p dstva.toNat (first dstva.toNat len.toNat) src) s := by
  rw [memmove, wp_change, toNat_off, toNat_inPage]
  obtain ⟨pg, hpg⟩ : ∃ pg, pg = patch (s.mem a) (dstva.toNat % 4096)
      (first dstva.toNat len.toNat) src := ⟨_, rfl⟩
  rw [← hpg]
  obtain ⟨s', hs'⟩ : ∃ s' : Ram, s' = { s with mem := Function.update s.mem a pg } := ⟨_, rfl⟩
  rw [← hs']
  have hmem : s'.mem = Function.update s.mem (PTE2PA (entryOf s p (vpn dstva))) pg := by
    rw [hs', hpa]
  have hfree : s'.free = s.free := by rw [hs']
  have hfail : s'.failed = s.failed := by rw [hs']
  have hl : Later s s' := by
    rw [hs']
    exact ⟨rfl, rfl, le_rfl, le_rfl⟩
  obtain ⟨hch, hview⟩ := h.written hW.1 hmem hl hfree
  refine ⟨hch, hfail, (hch.map _).resolve_right fun hf => hf.1.elim, fun va => ?_⟩
  rw [hview va, hpg]
  exact patched hW.1 hpa

lemma copyoutLoop_spec (fuel tot : ℕ) (h : Sound s p) (hfuel : 0 < fuel)
    (hrounds : PGROUNDDOWN dstva < MAXVA → PAGES + 1 ≤ fuel + vpn dstva) :
    wp may (copyoutLoop p p.pagetable fuel dstva src len tot) (fun r s' =>
      ∃ m, r.2 = tot + m ∧ CopiedOut s s' p dstva.toNat len.toNat src r.1 m) s := by
  induction fuel generalizing s dstva src len tot with
  | zero => omega
  | succ fuel ih =>
    rw [copyoutLoop, wp_ite]
    refine ⟨fun hpos => ?_, fun hz => ?_⟩
    · have hn : 0 < len.toNat := hpos
      have hin : InRange dstva.toNat len.toNat (vpn dstva) := (inRange_split hn).mpr (.inl rfl)
      have hal : (PGROUNDDOWN dstva).toNat % 4096 = 0 := by
        rw [toNat_PGROUNDDOWN]
        omega
      refine wp_call (destOf_spec h hal) fun pa0 s1 hd => ?_
      rw [Dest, vpn_down] at hd
      obtain ⟨hview, hch, ⟨rfl, hbad⟩ | ⟨hne, hfail, hgood, hW, hpa⟩⟩ := hd
      · rw [if_pos rfl, wp_pure]
        refine ⟨0, rfl, copiedOut_none hn (hch.mono fun k hk => ?_) hview fun hg => ?_⟩
        · rw [hk]
          exact hin
        · exact hbad ⟨hg.1 _ hin, hg.2⟩
      rw [if_neg hne]
      refine wp_call (moved hch.sound hW hpa) fun _ s2 hm => ?_
      obtain ⟨hch2, hfail2, he2, harr⟩ := hm
      have hboth : Change s s2 p (· = vpn dstva) := hch.trans (hch2.mono fun _ hf => hf.elim)
      have hva : PGROUNDDOWN dstva < MAXVA := by
        refine lt_MAXVA.mpr ?_
        rw [vpn_down]
        exact (hch.sound.mapped_lt hW.1).trans USER_lt
      obtain ⟨hnext, hlen⟩ := toNat_next len hva
      have hpast := lt_MAXVA.mp hva
      rw [vpn_down] at hpast
      have hfuel' := hrounds hva
      have hvpn : vpn (PGROUNDDOWN dstva + PGSIZE) = vpn dstva + 1 := by
        unfold vpn
        rw [hnext]
        omega
      refine wp_mono (ih _ hch2.sound (by omega) (by rw [hvpn]; intro _; omega)) fun r s' hr => ?_
      obtain ⟨m, hm, hcopied⟩ := hr
      rw [hnext, hlen, toNat_inPage] at hcopied
      rw [toNat_inPage] at hm
      refine ⟨_, hm.trans (Nat.add_assoc _ _ _), ?_⟩
      refine copiedOut_cons hn hboth (hfail2.trans hfail) hgood ((Writable.congr he2).mpr hW) ?_
        hcopied
      intro va
      rw [harr va, hview va]
    · have hz' : len.toNat = 0 := by
        have : ¬0 < len.toNat := hz
        omega
      rw [wp_pure, hz']
      refine ⟨0, rfl, Change.refl h, le_rfl, fun va => ?_, ⟨fun _ => rfl, fun _ => rfl⟩, .inl rfl,
        fun _ k hk => absurd hk not_inRange_zero, ?_⟩
      · rw [if_neg (by omega)]
      · exact ⟨fun _ => ⟨fun k hk => absurd hk not_inRange_zero, rfl⟩, fun _ => rfl⟩

theorem copyout_spec (h : Sound s p) :
    wp may (copyout p p.pagetable dstva src len)
      (fun r s' => CopiedOut s s' p dstva.toNat len.toNat src r.1 r.2) s := by
  refine wp_mono (copyoutLoop_spec ROUNDS 0 h (by decide) fun _ => ?_) fun r s' hr => ?_
  · rw [PAGES_eq, ROUNDS]
    omega
  · obtain ⟨m, hm, hcopied⟩ := hr
    rw [hm, Nat.zero_add]
    exact hcopied

/-- The byte at `va` can be stored. -/
def Takes (s : Ram) (p : Proc) (va : UInt64) : Prop :=
  value (destOf p p.pagetable (PGROUNDDOWN va)) s ≠ some 0

/-- Something is stored where the first byte can be. -/
lemma copyout_takes (h : Sound s p) (hn : 0 < len) :
    wp may (copyout p p.pagetable dstva src len) (fun r _ => 0 < r.2 ↔ Takes s p dstva) s := by
  have hspec : wp (fun _ => False) (copyout p p.pagetable dstva src len)
      (fun r s' => CopiedOut s s' p dstva.toNat len.toNat src r.1 r.2) s := copyout_spec h
  have hal : (PGROUNDDOWN dstva).toNat % 4096 = 0 := by
    rw [toNat_PGROUNDDOWN]
    omega
  have hdest : wp (fun _ => False) (destOf p p.pagetable (PGROUNDDOWN dstva)) (fun r s' =>
      Dest s s' p (vpn (PGROUNDDOWN dstva)) r) s := destOf_spec h hal
  rw [copyout, show ROUNDS = 2 ^ 26 + 1 from rfl, copyoutLoop, if_pos hn]
  unfold Takes value
  cases hd : destOf p p.pagetable (PGROUNDDOWN dstva) s with
  | panic msg => exact (hdest.panic hd).elim
  | ok s1 pa0 =>
    rw [wp_bind]
    refine wp_of_ok hd ?_
    have hdest' := hdest.ok hd
    rw [Dest, vpn_down] at hdest'
    obtain ⟨-, hch, ⟨rfl, -⟩ | ⟨hne, -, -, hW, hpa⟩⟩ := hdest'
    · rw [if_pos rfl, wp_pure]
      exact ⟨fun hlt => absurd hlt (lt_irrefl 0), fun hbad => absurd rfl hbad⟩
    rw [if_neg hne]
    refine wp_call (moved hch.sound hW hpa) fun _ s2 hm => ?_
    have hva : PGROUNDDOWN dstva < MAXVA := by
      refine lt_MAXVA.mpr ?_
      rw [vpn_down]
      exact (hch.sound.mapped_lt hW.1).trans USER_lt
    refine wp_mono (copyoutLoop_spec (2 ^ 26) _ hm.1.sound (by decide) ?_) fun r s' hr => ?_
    · intro _
      have hnext := (toNat_next len hva).1
      rw [PAGES_eq]
      unfold vpn
      rw [hnext]
      omega
    · obtain ⟨m, hm, -⟩ := hr
      have hlen : 0 < len.toNat := hn
      have hfirst : 0 < first dstva.toNat len.toNat := by
        unfold first
        omega
      rw [hm, Nat.zero_add, toNat_inPage]
      exact ⟨fun _ hz => hne (Option.some.inj hz), fun _ => by omega⟩

/-! ### `copyin` -/

/-- What `copyin` comes to, with `out` as what it puts into the kernel's buffer. -/
def CopiedIn (s s' : Ram) (p : Proc) (d n : ℕ) (r : ℤ) (out : List UInt8) : Prop :=
  Change s s' p (InRange d n) ∧ (∀ a, view s' p a = view s p a) ∧
    (∃ m ≤ n, out.map some = (List.range m).map (fun j => view s p (d + j)) ∧ (r = 0 → m = n)) ∧
    (r = 0 ∨ r = -1) ∧
    (r = 0 ↔ (∀ k, InRange d n k → Mapped s p k ∨ Lazy s p k) ∧ s'.failed = s.failed) ∧
    ((∀ k, InRange d n k → Mapped s p k) → s'.failed = s.failed)

/-- The bytes of a page of user memory. -/
lemma slice_view {d n : ℕ} (hM : Mapped s p (d / 4096)) (hpa : PTE2PA (entryOf s p (d / 4096)) = a) :
    (slice (s.mem a) (d % 4096) (first d n)).map some =
      (List.range (first d n)).map fun j => view s p (d + j) := by
  rw [slice, List.map_map]
  refine List.map_congr_left fun j hj => ?_
  have hlt : j < first d n := List.mem_range.mp hj
  have hk : (d + j) / 4096 = d / 4096 := by
    unfold first at hlt
    omega
  have hoff : (d + j) % 4096 = d % 4096 + j := by
    unfold first at hlt
    omega
  have hin : d % 4096 + j < 4096 := by
    rw [← hoff]
    exact low_lt _
  have hview : view s p (d + j) = some (s.mem a ⟨d % 4096 + j, hin⟩) := by
    rw [view_mapped (hk ▸ hM)]
    simp only [hk, hpa, hoff]
  rw [hview, Function.comp_apply, dif_pos hin]

lemma range_append (m n : ℕ) (f : ℕ → Option UInt8) :
    (List.range m).map f ++ (List.range n).map (fun j => f (m + j)) =
      (List.range (m + n)).map f := by
  rw [List.range_add, List.map_append, List.map_map]
  rfl

/-- After the first page has been read, the rest is copied. -/
lemma copiedIn_cons {s1 : Ram} {d : ℕ} {r : ℤ} {out : List UInt8} (hn : 0 < n)
    (hch : Change s s1 p (· = d / 4096)) (hview : ∀ a, view s1 p a = view s p a)
    (hfail : s1.failed = s.failed) (hgood : Mapped s p (d / 4096) ∨ Lazy s p (d / 4096))
    (hM : Mapped s1 p (d / 4096)) (hpa : PTE2PA (entryOf s1 p (d / 4096)) = a)
    (hrest : CopiedIn s1 s' p ((d / 4096 + 1) * 4096) (n - first d n) r out) :
    CopiedIn s s' p d n r (slice (s1.mem a) (d % 4096) (first d n) ++ out) := by
  obtain ⟨hch', hview', ⟨m, hm, hout, hall⟩, hr, hiff, hnofail⟩ := hrest
  have hnot : ∀ k, InRange ((d / 4096 + 1) * 4096) (n - first d n) k → k ≠ d / 4096 := by
    rintro k ⟨va, h1, -, rfl⟩
    omega
  have hsame : ∀ k, InRange ((d / 4096 + 1) * 4096) (n - first d n) k →
      entryOf s1 p k = entryOf s p k := fun k hk => Change.entry_other hch (hnot k hk)
  refine ⟨?_, fun a => (hview' a).trans (hview a), ⟨if m = 0 then first d n else first d n + m,
    ?_, ?_, fun hz => ?_⟩, hr, ?_, fun hmap => ?_⟩
  · refine (hch.mono fun k hk => ?_).trans (hch'.mono fun k hk => ?_)
    · rw [hk]
      exact (inRange_split hn).mpr (.inl rfl)
    · exact (inRange_split hn).mpr (.inr hk)
  · unfold first at hm ⊢
    split_ifs <;> omega
  · have hfun : (fun j => view s1 p (d + j)) = fun j => view s p (d + j) := funext fun j => hview _
    rw [List.map_append, slice_view hM hpa, hout, hfun]
    by_cases hz : m = 0
    · rw [if_pos hz, hz]
      simp
    · have hfull : first d n + d = (d / 4096 + 1) * 4096 := by
        unfold first at hm ⊢
        omega
      rw [if_neg hz, ← range_append (first d n) m]
      congr 1
      refine List.map_congr_left fun j _ => ?_
      rw [hview, ← hfull]
      congr 1
      omega
  · have := hall hz
    unfold first at this ⊢
    split_ifs <;> omega
  · rw [hiff, hfail]
    refine and_congr_left fun _ => ⟨fun hg k hk => ?_, fun hg k hk => ?_⟩
    · rcases (inRange_split hn).mp hk with rfl | hk'
      · exact hgood
      · exact (hg k hk').imp (Mapped.congr (hsame k hk')).mp (Lazy.congr (hsame k hk')).mp
    · exact (hg k ((inRange_split hn).mpr (.inr hk))).imp (Mapped.congr (hsame k hk)).mpr
        (Lazy.congr (hsame k hk)).mpr
  · rw [hnofail fun k hk => ?_, hfail]
    exact (Mapped.congr (hsame k hk)).mpr (hmap k ((inRange_split hn).mpr (.inr hk)))

lemma copyinLoop_spec (fuel : ℕ) (dst : List UInt8) (h : Sound s p) (hfuel : 0 < fuel)
    (hrounds : PGROUNDDOWN srcva < MAXVA → PAGES + 1 ≤ fuel + vpn srcva) :
    wp may (copyinLoop p p.pagetable fuel srcva len dst)
      (fun r s' => ∃ out, r.2 = dst ++ out ∧ CopiedIn s s' p srcva.toNat len.toNat r.1 out) s := by
  induction fuel generalizing s srcva len dst with
  | zero => omega
  | succ fuel ih =>
    rw [copyinLoop, wp_ite]
    refine ⟨fun hpos => ?_, fun hz => ?_⟩
    · have hn : 0 < len.toNat := hpos
      have hin : InRange srcva.toNat len.toNat (vpn srcva) := (inRange_split hn).mpr (.inl rfl)
      have hal : (PGROUNDDOWN srcva).toNat % 4096 = 0 := by
        rw [toNat_PGROUNDDOWN]
        omega
      refine wp_call (pageOf_spec h hal) fun pa0 s1 hf => ?_
      rw [Found, vpn_down] at hf
      obtain ⟨hview, ⟨rfl, hch, hcase⟩ | ⟨hne, hfail, hM, hpa, hch, hcase⟩⟩ := hf
      · rw [if_pos rfl, wp_pure]
        refine ⟨[], (List.append_nil _).symm, hch.mono fun _ hf => hf.elim, hview,
          ⟨0, Nat.zero_le _, rfl, fun hr => absurd hr minus_one_ne⟩, .inr rfl,
          ⟨fun hr => absurd hr minus_one_ne, fun hg => ?_⟩, fun hmap => ?_⟩
        · rcases hcase with ⟨hM, hL, -⟩ | ⟨-, hfail⟩
          · exact absurd (hg.1 _ hin) (not_or.mpr ⟨hM, hL⟩)
          · omega
        · rcases hcase with ⟨hM, -, -⟩ | ⟨hL, -⟩
          · exact absurd (hmap _ hin) hM
          · exact absurd hL.2 (hmap _ hin).ne_zero
      have hva : PGROUNDDOWN srcva < MAXVA := by
        refine lt_MAXVA.mpr ?_
        rw [vpn_down]
        exact (hch.sound.mapped_lt hM).trans USER_lt
      rw [if_neg hne, wp_bind, wp_look, toNat_off, toNat_inPage]
      obtain ⟨hnext, hlen⟩ := toNat_next len hva
      have hpast := lt_MAXVA.mp hva
      rw [vpn_down] at hpast
      have hfuel' := hrounds hva
      have hvpn : vpn (PGROUNDDOWN srcva + PGSIZE) = vpn srcva + 1 := by
        unfold vpn
        rw [hnext]
        omega
      refine wp_mono (ih _ hch.sound (by omega) (by rw [hvpn]; intro _; omega)) fun r s' hr => ?_
      obtain ⟨out, hout, hcopied⟩ := hr
      rw [hnext, hlen] at hcopied
      refine ⟨_, hout.trans (List.append_assoc _ _ _), ?_⟩
      exact copiedIn_cons hn hch hview hfail (hcase.imp And.left And.left) hM hpa hcopied
    · have hz' : len.toNat = 0 := by
        have : ¬0 < len.toNat := hz
        omega
      rw [wp_pure, hz']
      refine ⟨[], (List.append_nil _).symm, Change.refl h, fun _ => rfl,
        ⟨0, le_rfl, rfl, fun _ => rfl⟩, .inl rfl, ⟨fun _ => ⟨fun k hk => absurd hk not_inRange_zero,
          rfl⟩, fun _ => rfl⟩, fun _ => rfl⟩

theorem copyin_spec (h : Sound s p) :
    wp may (copyin p p.pagetable srcva len)
      (fun r s' => CopiedIn s s' p srcva.toNat len.toNat r.1 r.2) s := by
  refine wp_mono (copyinLoop_spec ROUNDS [] h (by decide) fun _ => ?_) fun r s' hr => ?_
  · rw [PAGES_eq, ROUNDS]
    omega
  · obtain ⟨out, hout, hcopied⟩ := hr
    rw [hout, List.nil_append]
    exact hcopied

/-! ### One after the other -/

/-- **Copying out and in again.** `copyout` returns 0 exactly where every page of the range can be
written to or is allocated on the way; `copyin` then finds the bytes, and all others are as they
were. Where it fails, a prefix of the range may have been written. -/
theorem copyout_copyin (s : Ram) (p : Proc) (dstva len : UInt64) (src : ℕ → UInt8)
    (h : Sound s p) : ∃ r m s', copyout p p.pagetable dstva src len s = .ok s' (r, m) ∧ Sound s' p ∧
    (r = 0 ↔ (∀ k, InRange dstva.toNat len.toNat k → Writable s p k ∨ Lazy s p k) ∧
      s'.failed = s.failed) ∧
    Arrived s s' p dstva.toNat m src ∧
    (r = 0 → m = len.toNat ∧
      ∃ s'', copyin p p.pagetable dstva len s' = .ok s'' (0, (List.range len.toNat).map src)) ∧
    (r ≠ 0 → r = -1 ∧ m ≤ len.toNat) ∧
    ∀ k, ¬InRange dstva.toNat len.toNat k → entryOf s' p k = entryOf s p k := by
  have hspec : wp (fun _ => False) (copyout p p.pagetable dstva src len)
      (fun r s' => CopiedOut s s' p dstva.toNat len.toNat src r.1 r.2) s := copyout_spec h
  cases hout : copyout p p.pagetable dstva src len s with
  | panic msg => exact (hspec.panic hout).elim
  | ok s' r =>
    obtain ⟨hch, hm, harr, hall, hr, hwr, hiff⟩ := hspec.ok hout
    refine ⟨r.1, r.2, s', rfl, hch.sound, hiff, harr, fun hz => ⟨hall.mp hz, ?_⟩,
      fun hne => ⟨hr.resolve_left hne, hm⟩,
      fun k hk => (hch.map k).resolve_right fun hb => hk hb.1⟩
    have hback : wp (fun _ => False) (copyin p p.pagetable dstva len)
        (fun q s'' => CopiedIn s' s'' p dstva.toNat len.toNat q.1 q.2) s' := copyin_spec hch.sound
    cases hcopy : copyin p p.pagetable dstva len s' with
    | panic msg => exact (hback.panic hcopy).elim
    | ok s'' q =>
      obtain ⟨-, -, ⟨j, -, hbytes, hj⟩, -, hiff', hnofail⟩ := hback.ok hcopy
      have hmapped : ∀ k, InRange dstva.toNat len.toNat k → Mapped s' p k :=
        fun k hk => (hwr hz k hk).1
      have hq : q.1 = 0 := hiff'.mpr ⟨fun k hk => .inl (hmapped k hk), hnofail hmapped⟩
      rw [hj hq] at hbytes
      refine ⟨s'', congrArg _ (Prod.ext hq ?_)⟩
      refine List.map_injective_iff.mpr (Option.some_injective _) ?_
      rw [hbytes, List.map_map]
      refine List.map_congr_left fun i hi => ?_
      have hlt := List.mem_range.mp hi
      rw [harr, if_pos ⟨by omega, by rw [hall.mp hz]; omega⟩, Nat.add_sub_cancel_left]
      rfl

theorem copyout_copyin_young : ∃ s' s'',
    copyout young young.pagetable 4092 (fun j => UInt8.ofNat (7 + j)) 4 room = .ok s' (0, 4) ∧
      copyin young young.pagetable 4092 4 s' = .ok s'' (0, [7, 8, 9, 10]) := by
  have hval : value (copyout young young.pagetable 4092 (fun j => UInt8.ofNat (7 + j)) 4) room =
      some (0, 4) := by decide +kernel
  obtain ⟨r, m, s', hout, -, -, -, hback, -⟩ :=
    copyout_copyin room young 4092 4 (fun j => UInt8.ofNat (7 + j)) sound_young
  rw [value, hout] at hval
  obtain ⟨rfl, rfl⟩ : r = 0 ∧ m = 4 := Prod.ext_iff.mp (Option.some.inj hval)
  obtain ⟨-, s'', hin⟩ := hback rfl
  exact ⟨s', s'', hout, hin⟩

end Xv6.Vm.Transfer
