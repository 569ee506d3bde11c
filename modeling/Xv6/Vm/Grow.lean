import Xv6.Vm.Maps

/-!
Growing and shrinking a user address space: `uvmalloc` maps fresh pages, or takes back all it did
when memory runs out; `uvmdealloc` frees.
-/

namespace Xv6.Vm.Grow

open Xv6.Data Xv6.Data.Effect Xv6.Data.Effect.Eff Xv6.Vm.Paging Xv6.Vm.Memory Xv6.Vm.Table
  Xv6.Vm.Tree Xv6.Vm.Walk Xv6.Vm.Maps

variable {s s' s'' : Ram} {pt a b va pa e oldsz newsz perm xperm : UInt64} {i : Fin 512}
  {k lo n j : ℕ} {m m' : ℕ → UInt64} {out inn x : Multiset UInt64} {may : String → Prop}

/-- The number of pages that a size needs. -/
def pagesUp (sz : UInt64) : ℕ := (sz.toNat + 4095) / 4096

lemma vpn_PGROUNDUP (h : a.toNat ≤ 2 ^ 64 - 4096) : vpn (PGROUNDUP a) = pagesUp a := by
  unfold vpn pagesUp
  rw [toNat_PGROUNDUP_of_le h]
  omega

lemma PGROUNDUP_past (h : 2 ^ 64 - 4096 < a.toNat) : PGROUNDUP a = 0 := by
  have := a.toNat_lt
  rw [← UInt64.toNat_inj, toNat_PGROUNDUP]
  change _ = 0
  omega

lemma pagesUp_mono (h : oldsz ≤ newsz) : pagesUp oldsz ≤ pagesUp newsz := by
  have : oldsz.toNat ≤ newsz.toNat := h
  unfold pagesUp
  omega

/-- Nothing is mapped past `MAXVA`. -/
lemma clear_past (h : PAGES ≤ lo) : clear (mapping s.mem pt) lo n = mapping s.mem pt := by
  funext k
  unfold clear
  split_ifs with hk
  · rw [mapping_of_le (by omega)]
  · rfl

lemma held_past (h : PAGES ≤ lo) : held (mapping s.mem pt) lo n = 0 := by
  unfold held
  refine Finset.sum_eq_zero fun j _ => ?_
  rw [mapping_of_le (by omega), pages_zero]

/-! ### `uvmdealloc` -/

lemma toNat_int {c : UInt64} (h : c.toNat < 2 ^ 31) :
    (c.toUInt32.toInt32.toInt64.toUInt64).toNat = c.toNat := by
  have hlow : (c.toBitVec.setWidth 32).toNat = c.toNat := by
    rw [BitVec.toNat_setWidth]
    exact Nat.mod_eq_of_lt (lt_of_lt_of_le h (by decide))
  have hmsb : (c.toBitVec.setWidth 32).msb = false := by
    rw [BitVec.msb_eq_false_iff_two_mul_lt, hlow]
    omega
  change ((c.toBitVec.setWidth 32).signExtend 64).toNat = c.toNat
  rw [BitVec.signExtend_eq_setWidth_of_msb_false hmsb, BitVec.toNat_setWidth, hlow]
  exact Nat.mod_eq_of_lt c.toNat_lt

lemma toNat_npages (hold : oldsz.toNat ≤ 2 ^ 64 - 4096) (hlt : newsz < oldsz)
    (hcount : pagesUp oldsz - pagesUp newsz < 2 ^ 31) :
    (npages oldsz newsz).toNat = pagesUp oldsz - pagesUp newsz := by
  have hlt' : newsz.toNat < oldsz.toNat := hlt
  have hup := toNat_PGROUNDUP_of_le hold
  have hup' : (PGROUNDUP newsz).toNat = (newsz.toNat + 4095) / 4096 * 4096 :=
    toNat_PGROUNDUP_of_le (by omega)
  have hle : PGROUNDUP newsz ≤ PGROUNDUP oldsz := by
    change (PGROUNDUP newsz).toNat ≤ (PGROUNDUP oldsz).toNat
    omega
  have hdiv : ((PGROUNDUP oldsz - PGROUNDUP newsz) / PGSIZE).toNat =
      pagesUp oldsz - pagesUp newsz := by
    rw [UInt64.toNat_div, UInt64.toNat_sub_of_le _ _ hle, toNat_PGSIZE, hup, hup']
    unfold pagesUp
    omega
  unfold npages
  rw [toNat_int (by rw [hdiv]; exact hcount), hdiv]

/-- **`uvmdealloc`**, unless the pages are more than an `int` counts. -/
theorem uvmdealloc_spec (h : Proper 2 s pt) (hcount : pagesUp oldsz - pagesUp newsz < 2 ^ 31)
    (hwalk : (pagesUp newsz < pagesUp oldsz → pagesUp oldsz ≤ PAGES) ∨ may "walk")
    (hfree : (∀ y ∈ held (mapping s.mem pt) (pagesUp newsz) (pagesUp oldsz - pagesUp newsz),
      s.Frame y) ∨ may "kfree")
    (hnod : (tables s.mem pt + s.free +
      held (mapping s.mem pt) (pagesUp newsz) (pagesUp oldsz - pagesUp newsz)).Nodup) :
    wp may (uvmdealloc pt oldsz newsz) (fun r s' => r = (if newsz ≥ oldsz then oldsz else newsz) ∧
      s'.failed = s.failed ∧
      Edit s s' pt (clear (mapping s.mem pt) (pagesUp newsz) (pagesUp oldsz - pagesUp newsz)) 0
        (held (mapping s.mem pt) (pagesUp newsz) (pagesUp oldsz - pagesUp newsz))) s := by
  -- where there is nothing to free
  have hnothing : clear (mapping s.mem pt) (pagesUp newsz) (pagesUp oldsz - pagesUp newsz) =
      mapping s.mem pt → held (mapping s.mem pt) (pagesUp newsz) (pagesUp oldsz - pagesUp newsz) =
      0 → s.failed = s.failed ∧
      Edit s s pt (clear (mapping s.mem pt) (pagesUp newsz) (pagesUp oldsz - pagesUp newsz)) 0
        (held (mapping s.mem pt) (pagesUp newsz) (pagesUp oldsz - pagesUp newsz)) := by
    intro h1 h2
    rw [h1, h2]
    exact ⟨rfl, Edit.refl h⟩
  unfold uvmdealloc
  rw [wp_ite]
  refine ⟨fun hle => ?_, fun hlt => ?_⟩
  · have hz : pagesUp oldsz - pagesUp newsz = 0 := Nat.sub_eq_zero_of_le (pagesUp_mono hle)
    rw [wp_pure, if_pos hle]
    exact ⟨rfl, hnothing (by rw [hz, clear_zero]) (by rw [hz, held_zero])⟩
  · rw [if_neg hlt]
    have hlt' : newsz < oldsz := UInt64.not_le.mp hlt
    change wp may (if PGROUNDUP newsz < PGROUNDUP oldsz then
      uvmunmap pt (PGROUNDUP newsz) (npages oldsz newsz) true >>= fun _ => pure newsz
      else pure newsz) _ s
    rw [wp_ite]
    by_cases hold : oldsz.toNat ≤ 2 ^ 64 - 4096
    · have hnew : newsz.toNat ≤ 2 ^ 64 - 4096 := by
        have : newsz.toNat < oldsz.toNat := hlt'
        omega
      have hv := vpn_PGROUNDUP hnew
      have hn := toNat_npages hold hlt' hcount
      refine ⟨fun hup => ?_, fun hup => ?_⟩
      · have hup' : (PGROUNDUP newsz).toNat < (PGROUNDUP oldsz).toNat := hup
        have h1 := toNat_PGROUNDUP_of_le hold
        have h2 := toNat_PGROUNDUP_of_le hnew
        have hlast : (PGROUNDUP newsz).toNat + (pagesUp oldsz - pagesUp newsz) * 4096 =
            (PGROUNDUP oldsz).toNat := by
          rw [h1, h2]
          unfold pagesUp
          omega
        have hend : (PGROUNDUP newsz).toNat + (npages oldsz newsz).toNat * 4096 < 2 ^ 64 := by
          rw [hn, hlast]
          exact (PGROUNDUP oldsz).toNat_lt
        have hpages : pagesUp newsz < pagesUp oldsz := by
          unfold pagesUp
          omega
        refine wp_call (uvmunmap_spec h (.inl (by omega)) hend ?_ ?_ ?_) fun _ s' hs' => ?_
        · rw [hv, hn]
          exact hwalk.imp_left fun hw => by have := hw hpages; omega
        · rw [hv, hn]
          exact fun _ => hfree
        · rw [hv, hn]
          exact fun _ => hnod
        · rw [hv, hn] at hs'
          rw [wp_pure]
          exact ⟨rfl, hs'⟩
      · have hup' : ¬(PGROUNDUP newsz).toNat < (PGROUNDUP oldsz).toNat := hup
        rw [toNat_PGROUNDUP_of_le hold, toNat_PGROUNDUP_of_le hnew] at hup'
        have hz : pagesUp oldsz - pagesUp newsz = 0 := by
          unfold pagesUp
          omega
        rw [wp_pure]
        exact ⟨rfl, hnothing (by rw [hz, clear_zero]) (by rw [hz, held_zero])⟩
    · -- the rounded size wraps around to 0, and all pages in question are past `MAXVA`
      have hpg : PGROUNDUP oldsz = 0 := PGROUNDUP_past (by omega)
      rw [hpg]
      refine ⟨fun hup => absurd hup UInt64.not_lt_zero, fun _ => ?_⟩
      have hpast : PAGES ≤ pagesUp newsz := by
        rw [PAGES_eq]
        unfold pagesUp at hcount ⊢
        omega
      rw [wp_pure]
      exact ⟨rfl, hnothing (clear_past hpast) (held_past hpast)⟩

/-! ### `uvmalloc` -/

/-- The `n` pages from `lo`, which were not mapped, have been mapped to fresh pages of zeros. -/
structure Filled (s s' : Ram) (pt : UInt64) (lo n : ℕ) (perm : UInt64) : Prop where
  edit : Edit s s' pt (mapping s'.mem pt) (held (mapping s'.mem pt) lo n) 0
  failed : s'.failed = s.failed
  other : ∀ k, ¬(lo ≤ k ∧ k < lo + n) → mapping s'.mem pt k = mapping s.mem pt k
  before : ∀ k, lo ≤ k → k < lo + n → mapping s.mem pt k = 0
  fresh : ∀ k, lo ≤ k → k < lo + n → ∃ p, p ∈ s.free ∧
    mapping s'.mem pt k = PA2PTE p ||| perm ||| PTE_V ∧ s'.mem p = filled 0
  bound : 0 < n → lo + n ≤ PAGES

lemma Filled.refl (h : Proper 2 s pt) (lo : ℕ) (perm : UInt64) : Filled s s pt lo 0 perm := by
  refine ⟨?_, rfl, fun _ _ => rfl, fun k _ _ => by omega, fun k _ _ => by omega, fun h => by omega⟩
  rw [held_zero]
  exact Edit.refl h

lemma toNat_perm {f g : UInt64} (hf : f.toNat < 1024) (hg : g.toNat < 1024) :
    (f ||| g).toNat < 1024 := by
  rw [UInt64.toNat_or]
  exact Nat.or_lt_two_pow (n := 10) hf hg

lemma entry_page (hp : a.toNat % 4096 = 0) (hf : perm.toNat < 1024) :
    PTE2PA (PA2PTE a ||| perm ||| PTE_V) = a := by
  rw [UInt64.or_assoc]
  exact PTE2PA_entry hp (toNat_perm hf (by decide))

lemma entry_ne_zero (a perm : UInt64) : PA2PTE a ||| perm ||| PTE_V ≠ 0 := by
  intro hz
  have := valid_or (PA2PTE a ||| perm)
  rw [hz] at this
  exact this rfl

/-- The pages mapped to are frames that were free. -/
lemma Filled.held_free (h : Filled s s' pt lo n perm) (hs : Proper 2 s pt)
    (hp : perm.toNat < 1024) {y : UInt64} (hy : y ∈ held (mapping s'.mem pt) lo n) :
    y ∈ s.free ∧ s.Frame y ∧ s'.mem y = filled 0 := by
  obtain ⟨k, h1, h2, -, rfl⟩ := mem_held.mp hy
  obtain ⟨p, hfree, hmap, hzero⟩ := h.fresh k h1 h2
  have hframe := hs.frame p (Multiset.mem_add.mpr (.inr hfree))
  rw [hmap, entry_page hframe.1 hp]
  exact ⟨hfree, hframe, hzero⟩

lemma card_held {m : ℕ → UInt64} (h : ∀ k, lo ≤ k → k < lo + n → m k ≠ 0) :
    (held m lo n).card = n := by
  induction n with
  | zero => rw [held_zero, Multiset.card_zero]
  | succ n ih =>
    rw [held_snoc, Multiset.card_add, ih fun k h1 h2 => h k h1 (by omega),
      pages_of_ne (h (lo + n) (by omega) (by omega)), Multiset.card_singleton]

/-- No more pages are mapped than were free. -/
lemma Filled.card (h : Filled s s' pt lo n perm) : s'.free.card + n ≤ s.free.card := by
  obtain ⟨t, ht⟩ := h.edit.more
  have hheld : (held (mapping s'.mem pt) lo n).card = n := by
    refine card_held fun k h1 h2 => ?_
    obtain ⟨p, -, hmap, -⟩ := h.fresh k h1 h2
    rw [hmap]
    exact entry_ne_zero p perm
  have hkeep := congrArg Multiset.card h.edit.keep
  rw [add_zero, ht] at hkeep
  simp only [Multiset.card_add, hheld] at hkeep
  omega

/-- Everything is taken back. -/
lemma Filled.undo (h : Filled s s' pt lo n perm) (hs : Proper 2 s pt) (hp : perm.toNat < 1024)
    (h' : Edit s' s'' pt (clear (mapping s'.mem pt) lo n) (out + 0)
      (inn + held (mapping s'.mem pt) lo n)) : Edit s s'' pt (mapping s.mem pt) out inn := by
  have hmap : clear (mapping s'.mem pt) lo n = mapping s.mem pt := by
    funext k
    unfold clear
    by_cases hk : lo ≤ k ∧ k < lo + n
    · rw [if_pos hk, h.before k hk.1 hk.2]
    · rw [if_neg hk, h.other k hk]
  rw [hmap] at h'
  have hall := h.edit.trans h'
  rw [add_zero, zero_add, add_comm _ out] at hall
  exact edit_cancel hall fun y hy => (h.held_free hs hp hy).1

/-- One page more. -/
lemma Filled.snoc {s1 : Ram} (h : Filled s s' pt lo n perm) (hs : Proper 2 s pt)
    (hp : perm.toNat < 1024) (ha : a ∈ s'.free) (hzero : mapping s'.mem pt (lo + n) = 0)
    (h1 : Edit s' s1 pt (Function.update (mapping s'.mem pt) (lo + n) (PA2PTE a ||| perm ||| PTE_V))
      {a} 0) (hfail : s1.failed = s'.failed) (hpage : s1.mem a = filled 0)
    (hbound : lo + n < PAGES) : Filled s s1 pt lo (n + 1) perm := by
  have hmem := h.edit.mem (.inr (.inl ha))
  have hframe : s.Frame a := h.edit.toLater.frame.mp
    (h.edit.proper.frame a (Multiset.mem_add.mpr (.inr ha)))
  have hnew : mapping s1.mem pt (lo + n) = PA2PTE a ||| perm ||| PTE_V := by
    rw [h1.map, Function.update_self]
  have hold : ∀ k, k ≠ lo + n → mapping s1.mem pt k = mapping s'.mem pt k := by
    intro k hk
    rw [h1.map, Function.update_of_ne hk]
  have hheld : held (mapping s1.mem pt) lo (n + 1) = held (mapping s'.mem pt) lo n + {a} := by
    rw [held_snoc, hnew, pages_of_ne (entry_ne_zero a perm), entry_page hframe.1 hp]
    congr 1
    exact held_congr fun k _ hk => hold k (by omega)
  -- the pages that are held are distinct from the tables and the free pages
  have hnd : (tables s'.mem pt + s'.free + held (mapping s'.mem pt) lo n).Nodup := by
    rw [h.edit.keep, add_zero]
    exact hs.nodup
  refine ⟨?_, hfail.trans h.failed, fun k hk => ?_, fun k hk1 hk2 => ?_, fun k hk1 hk2 => ?_,
    fun _ => by omega⟩
  · rw [hheld]
    have hall := h.edit.trans h1
    rw [← h1.map, add_zero] at hall
    exact hall
  · rw [hold k (by omega)]
    exact h.other k (by omega)
  · by_cases hk : k = lo + n
    · subst hk
      rw [← h.other _ (by omega)]
      exact hzero
    · exact h.before k hk1 (by omega)
  · by_cases hk : k = lo + n
    · subst hk
      have hfree : a ∈ s.free := by
        -- a page of a table stays one
        rcases hmem with ht | hf | hz
        · obtain ⟨t, hmore⟩ := h.edit.more
          have hin : a ∈ tables s'.mem pt := by
            rw [hmore]
            exact Multiset.mem_add.mpr (.inl ht)
          exact absurd ha (Multiset.disjoint_left.mp
            (Multiset.nodup_add.mp (Multiset.nodup_add.mp hnd).1).2.2 hin)
        · exact hf
        · simp at hz
      exact ⟨a, hfree, hnew, hpage⟩
    · obtain ⟨p, hfree, hmap, hpz⟩ := h.fresh k hk1 (by omega)
      refine ⟨p, hfree, by rw [hold k hk, hmap], ?_⟩
      have hpf : s.Frame p := hs.frame p (Multiset.mem_add.mpr (.inr hfree))
      have hin : p ∈ held (mapping s'.mem pt) lo n := by
        refine mem_held.mpr ⟨k, hk1, by omega, ?_, ?_⟩
        · rw [hmap]
          exact entry_ne_zero p perm
        · rw [hmap, entry_page hpf.1 hp]
      have hout : p ∉ tables s'.mem pt + s'.free := fun hx =>
        Multiset.disjoint_left.mp (Multiset.nodup_add.mp hnd).2.2 hx hin
      rw [Multiset.mem_add, not_or] at hout
      rw [h1.frame p hout.1 hout.2 (by simp), hpz]

lemma kalloc_edit (h : Proper 2 s pt) : wp may kalloc (fun r s' =>
    r = 0 ∧ s.failed < s'.failed ∧ Edit s s' pt (mapping s.mem pt) 0 0 ∨
      r ∈ s.free ∧ r ≠ 0 ∧ s'.failed = s.failed ∧ Edit s s' pt (mapping s.mem pt) {r} 0) s := by
  refine wp_mono (kalloc_spec s) fun r s' hk => ?_
  obtain ⟨hl, ⟨hr, hmem, hfree, hfail⟩ | ⟨hr, hfree, hfail, hmem⟩⟩ := hk
  · obtain ⟨hproper, htab, hmap⟩ := edit_congr h hl hfree fun y _ => by rw [hmem]
    refine .inl ⟨hr, hfail, hl, hproper, by rw [htab, hfree], ⟨0, by rw [htab, add_zero]⟩, hmap,
      fun y _ _ _ => by rw [hmem], fun i _ => by rw [hmem]⟩
  · have hne := frame_ne_zero h.kend (h.frame r (Multiset.mem_add.mpr (.inr hr)))
    exact .inr ⟨hr, hne, hfail, edit_take h hl hr hfree fun y hy => by
      rw [hmem, Function.update_of_ne hy]⟩

lemma not_mem_taken (h : Edit s s' pt m {a} 0) (hs : Proper 2 s pt) :
    a ∉ tables s'.mem pt ∧ a ∉ s'.free := by
  have hnd : (tables s'.mem pt + s'.free + {a}).Nodup := by
    rw [h.keep, add_zero]
    exact hs.nodup
  have hout : a ∉ tables s'.mem pt + s'.free := fun hx =>
    Multiset.disjoint_left.mp (Multiset.nodup_add.mp hnd).2.2 hx (Multiset.mem_singleton_self a)
  rwa [Multiset.mem_add, not_or] at hout

/-- What is written to a page that was taken. -/
lemma edit_write (h : Edit s s' pt m {a} 0) (hs : Proper 2 s pt) (ha : a ∈ s.free) (pg : Page) :
    Edit s { s' with mem := Function.update s'.mem a pg } pt m {a} 0 := by
  have hout := not_mem_taken h hs
  obtain ⟨s1, hs1⟩ : ∃ s1, s1 = { s' with mem := Function.update s'.mem a pg } := ⟨_, rfl⟩
  have hl : Later s' s1 := by
    rw [hs1]
    exact ⟨rfl, rfl, le_rfl, le_rfl⟩
  have hfree : s1.free = s'.free := by rw [hs1]
  have hmem : ∀ y, y ≠ a → s1.mem y = s'.mem y := by
    intro y hy
    rw [hs1]
    exact Function.update_of_ne hy _ _
  rw [← hs1]
  obtain ⟨hproper, htab, hmap⟩ := edit_congr h.proper hl hfree fun y hy => hmem y (by
    rintro rfl
    exact hy.elim hout.1 hout.2)
  refine ⟨h.toLater.trans hl, hproper, by rw [htab, hfree, h.keep], ?_, hmap.trans h.map,
    fun y h1 h2 h3 => ?_, fun i hi => ?_⟩
  · rw [htab]
    exact h.more
  · rw [hmem y (by rintro rfl; exact h2 ha), h.frame y h1 h2 h3]
  · rw [hmem pt (by rintro rfl; exact hout.1 Radix.self_mem_nodes), h.top i hi]

/-- A page that was taken is mapped. -/
lemma map_taken (hs : Proper 2 s pt) (h : Edit s s' pt (mapping s.mem pt) {a} 0)
    (hva : va.toNat % 4096 = 0) (hwalk : vpn va < PAGES ∨ may "walk")
    (hremap : mapping s.mem pt (vpn va) = 0 ∨ may "mappages: remap") :
    wp may (mappages pt va PGSIZE a perm) (fun r s'' =>
      r = 0 ∧ s''.failed = s'.failed ∧ vpn va < PAGES ∧ mapping s.mem pt (vpn va) = 0 ∧
        s''.mem a = s'.mem a ∧ Edit s s'' pt
          (Function.update (mapping s.mem pt) (vpn va) (PA2PTE a ||| perm ||| PTE_V)) {a} 0 ∨
      r = -1 ∧ s'.failed < s''.failed ∧ Edit s s'' pt (mapping s.mem pt) {a} 0) s' := by
  refine wp_mono (mappages_one h.proper hva hwalk (by rwa [h.map])) fun r s'' hr => ?_
  rw [MappedOne, h.map] at hr
  obtain ⟨hr, hfail, hlt, hz, hedit⟩ | ⟨hr, hfail, hedit⟩ := hr
  · have hall := h.trans hedit
    rw [add_zero, add_zero] at hall
    obtain ⟨ht, hf⟩ := not_mem_taken h hs
    exact .inl ⟨hr, hfail, hlt, hz, hedit.frame a ht hf (Multiset.notMem_zero a), hall⟩
  · have hall := h.trans hedit
    rw [add_zero, add_zero] at hall
    exact .inr ⟨hr, hfail, hall⟩

/-- A page that was taken is freed again. -/
lemma give_taken (hs : Proper 2 s pt) (ha : a ∈ s.free) (h : Edit s s' pt m {a} 0) :
    wp may (kfree a) (fun _ s'' => s''.failed = s'.failed ∧ Edit s s'' pt m 0 0) s' := by
  have hnd : (tables s'.mem pt + s'.free + {a}).Nodup := by
    rw [h.keep, add_zero]
    exact hs.nodup
  have hframe : s'.Frame a :=
    h.toLater.frame.mpr (hs.frame a (Multiset.mem_add.mpr (.inr ha)))
  refine wp_mono (kfree_spec (.inl hframe)) fun _ s'' hk => ?_
  obtain ⟨hl, hfail, -, hfree, hmem⟩ := hk
  have hgive := edit_give h.proper hl hframe hnd hfree fun y hy => by
    rw [hmem, Function.update_of_ne hy]
  have hback := h.trans hgive
  rw [h.map, add_comm ({a} : Multiset UInt64) 0] at hback
  refine ⟨hfail, edit_cancel hback fun y hy => ?_⟩
  rw [Multiset.mem_singleton.mp hy]
  exact ha

/-- What `uvmalloc` comes to: all pages or none. -/
def Allocated (s s' : Ram) (pt newsz : UInt64) (lo : ℕ) (perm r : UInt64) : Prop :=
  r = newsz ∧ Filled s s' pt lo (pagesUp newsz - lo) perm ∨
    r = 0 ∧ s.failed < s'.failed ∧ Edit s s' pt (mapping s.mem pt) 0 0

/-- Taking back the pages from `lo` to `a`. -/
lemma dealloc_undo {base : UInt64} (hs : Proper 2 s pt) (h : Filled s s' pt lo n perm)
    (hp : perm.toNat < 1024) (h1 : Edit s' s'' pt (mapping s'.mem pt) 0 0)
    (ha : a.toNat = (lo + n) * 4096) (hbase : base.toNat = lo * 4096) :
    wp may (uvmdealloc pt a base) (fun _ s3 => s3.failed = s''.failed ∧
      Edit s s3 pt (mapping s.mem pt) 0 0) s'' := by
  have hua : pagesUp a = lo + n := by
    unfold pagesUp
    omega
  have hub : pagesUp base = lo := by
    unfold pagesUp
    omega
  have hcount : pagesUp a - pagesUp base = n := by omega
  have hheld : held (mapping s''.mem pt) lo n = held (mapping s'.mem pt) lo n := by rw [h1.map]
  have hnd : (tables s''.mem pt + s''.free + held (mapping s''.mem pt) lo n).Nodup := by
    have h1k := h1.keep
    rw [add_zero, add_zero] at h1k
    rw [hheld, h1k, h.edit.keep, add_zero]
    exact hs.nodup
  have hn : n < 2 ^ 31 := by
    by_cases hz : n = 0
    · omega
    · have := h.bound (by omega)
      rw [PAGES_eq] at this
      omega
  refine wp_mono (uvmdealloc_spec h1.proper ?_ (.inl ?_) (.inl ?_) ?_) fun r s3 hr => ?_
  · rw [hcount]
    exact hn
  · intro hlt
    rw [hua]
    exact h.bound (by omega)
  · rw [hcount, hub, hheld]
    exact fun y hy => (h.edit.toLater.trans h1.toLater).frame.mpr (h.held_free hs hp hy).2.1
  · rw [hcount, hub]
    exact hnd
  · rw [hcount, hub] at hr
    obtain ⟨-, hfail, hedit⟩ := hr
    have hall := h1.trans hedit
    rw [hheld, h1.map] at hall
    have hback : Edit s s3 pt (mapping s.mem pt) 0 0 := h.undo hs hp hall
    exact ⟨hfail, hback⟩

lemma uvmallocLoop_spec {base : UInt64} (fuel : ℕ) (hs : Proper 2 s pt)
    (h : Filled s s' pt lo n (PTE_R ||| PTE_U ||| xperm)) (hp : xperm.toNat < 1024)
    (ha : a.toNat = (lo + n) * 4096) (hbase : base.toNat = lo * 4096) (hfuel : 0 < fuel)
    (hrounds : a < MAXVA → PAGES + 1 ≤ fuel + (lo + n))
    (hle : n = 0 ∨ lo + n ≤ pagesUp newsz)
    (hwalk : (∀ k, lo ≤ k → k < pagesUp newsz → k < lo + s.free.card → k < PAGES) ∨ may "walk")
    (hremap : (∀ k, lo ≤ k → k < pagesUp newsz → k < lo + s.free.card → mapping s.mem pt k = 0) ∨
      may "mappages: remap") :
    wp may (uvmallocLoop pt base newsz xperm fuel a)
      (fun r s'' => Allocated s s'' pt newsz lo (PTE_R ||| PTE_U ||| xperm) r) s' := by
  have hperm : (PTE_R ||| PTE_U ||| xperm).toNat < 1024 := toNat_perm (by decide) hp
  induction fuel generalizing s' a n with
  | zero => omega
  | succ fuel ih =>
    have hvpn : vpn a = lo + n := by
      unfold vpn
      omega
    rw [uvmallocLoop, wp_ite]
    refine ⟨fun hlt => ?_, fun hge => ?_⟩
    · have hlt' : a.toNat < newsz.toNat := hlt
      have hmore : lo + n < pagesUp newsz := by
        unfold pagesUp
        omega
      refine wp_call (kalloc_edit h.edit.proper) fun mem s1 hk => ?_
      obtain ⟨rfl, hfail, hedit⟩ | ⟨hfree, hne, hfail, hedit⟩ := hk
      · rw [if_pos rfl]
        refine wp_call (dealloc_undo hs h hperm hedit ha hbase) fun _ s2 hs2 => ?_
        obtain ⟨hf2, hed2⟩ := hs2
        have hf := h.failed
        rw [wp_pure]
        exact .inr ⟨rfl, by omega, hed2⟩
      · rw [if_neg hne, wp_bind, memset, wp_change]
        obtain ⟨s2, hs2⟩ : ∃ s2 : Ram, s2 = { s1 with mem := Function.update s1.mem mem (filled 0) } :=
          ⟨_, rfl⟩
        have hw := edit_write hedit h.edit.proper hfree (filled 0)
        rw [← hs2] at hw ⊢
        have hf2 : s2.failed = s'.failed := by
          rw [hs2]
          exact hfail
        have hpage : s2.mem mem = filled 0 := by
          rw [hs2]
          exact Function.update_self _ _ _
        have hzero : ∀ k, lo + n ≤ k → mapping s'.mem pt k = mapping s.mem pt k := fun k hk =>
          h.other k (by omega)
        have hcard : lo + n < lo + s.free.card := by
          have h1 := h.card
          have h2 := Multiset.card_pos_iff_exists_mem.mpr ⟨mem, hfree⟩
          omega
        refine wp_call (map_taken h.edit.proper hw (by omega)
          (hwalk.imp_left fun hw => by
            rw [hvpn]
            exact hw _ (by omega) hmore hcard)
          (hremap.imp_left fun hz => by
            rw [hvpn, hzero _ le_rfl]
            exact hz _ (by omega) hmore hcard)) fun r s3 hr => ?_
        rw [hvpn] at hr
        rw [wp_ite]
        refine ⟨fun hrz => ?_, fun hrz => ?_⟩
        · -- no page for the page table: the page goes back, and so do the others
          obtain ⟨hr, -⟩ | ⟨-, hfail3, hed3⟩ := hr
          · exact absurd hr hrz
          refine wp_call (give_taken h.edit.proper hfree hed3) fun _ s4 hs4 => ?_
          obtain ⟨hf4, hed4⟩ := hs4
          refine wp_call (dealloc_undo hs h hperm hed4 ha hbase) fun _ s5 hs5 => ?_
          obtain ⟨hf5, hed5⟩ := hs5
          have hf := h.failed
          rw [wp_pure]
          exact .inr ⟨rfl, by omega, hed5⟩
        · obtain ⟨-, hfail3, hbound, hz, hpage3, hed3⟩ | ⟨hr, -⟩ := hr
          · rw [hpage] at hpage3
            have hnext := h.snoc hs hperm hfree hz hed3 (by omega) hpage3 hbound
            have halt : a.toNat + 4096 < 2 ^ 64 := by
              rw [PAGES_eq] at hbound
              omega
            obtain ⟨hv, hsum⟩ := vpn_add (by omega) halt
            have hlast := hrounds (lt_MAXVA.mpr (by omega))
            exact ih hnext (by omega) (by omega) (fun _ => by omega) (.inr (by omega))
          · exact absurd hr (by rintro rfl; exact hrz (by decide))
    · have hge' : ¬a.toNat < newsz.toNat := hge
      have hn : n = pagesUp newsz - lo := by
        unfold pagesUp at hle ⊢
        omega
      rw [wp_pure]
      subst hn
      exact .inl ⟨rfl, h⟩

/-- **`uvmalloc`** maps fresh pages from the rounded `oldsz` to `newsz`, or leaves everything
mapped and free as it was, but for pages that have become part of the page table. It gets no further
than there are free pages. -/
theorem uvmalloc_spec (hs : Proper 2 s pt) (hp : xperm.toNat < 1024)
    (hwalk : (∀ k, vpn (PGROUNDUP oldsz) ≤ k → k < pagesUp newsz →
      k < vpn (PGROUNDUP oldsz) + s.free.card → k < PAGES) ∨ may "walk")
    (hremap : (∀ k, vpn (PGROUNDUP oldsz) ≤ k → k < pagesUp newsz →
      k < vpn (PGROUNDUP oldsz) + s.free.card → mapping s.mem pt k = 0) ∨ may "mappages: remap") :
    wp may (uvmalloc pt oldsz newsz xperm) (fun r s' => newsz < oldsz ∧ r = oldsz ∧ s' = s ∨
      ¬newsz < oldsz ∧ Allocated s s' pt newsz (vpn (PGROUNDUP oldsz))
        (PTE_R ||| PTE_U ||| xperm) r) s := by
  unfold uvmalloc
  rw [wp_ite]
  refine ⟨fun hlt => ?_, fun hge => ?_⟩
  · rw [wp_pure]
    exact .inl ⟨hlt, rfl, rfl⟩
  · have hbase : (PGROUNDUP oldsz).toNat = vpn (PGROUNDUP oldsz) * 4096 := by
      rw [vpn, toNat_PGROUNDUP, Nat.mul_div_cancel _ (by decide : 0 < 4096)]
    have hr : ROUNDS = PAGES + 1 := by
      rw [PAGES_eq]
      rfl
    refine wp_mono (uvmallocLoop_spec ROUNDS hs (Filled.refl hs _ _) hp hbase hbase (by decide)
      (fun _ => by omega) (.inl rfl) hwalk hremap) fun r s' hr => .inr ⟨hge, hr⟩

/-! ### `uvmcreate` and `uvmclear` -/

/-- The free pages are frames, each of them free once. -/
structure Pool (s : Ram) : Prop where
  nodup : s.free.Nodup
  frame : ∀ p ∈ s.free, s.Frame p
  kend : KERNBASE ≤ s.kend

lemma Proper.pool {d : ℕ} (h : Proper d s pt) : Pool s :=
  ⟨(Multiset.nodup_add.mp h.nodup).2.1, fun p hp => h.frame p (Multiset.mem_add.mpr (.inr hp)),
    h.kend⟩

/-- A page of zeros is a page table that maps nothing. -/
lemma proper_zero (h : Pool s) (ha : s.Frame a) (hf : a ∉ s.free) (hz : s.mem a = filled 0) :
    Proper 2 s a ∧ tables s.mem a = {a} ∧ mapping s.mem a = fun _ => 0 := by
  have hchild : ∀ j, child (entries s.mem a j) = none := by
    intro j
    rw [child_eq_none, entries, hz, entry_zero]
    rfl
  have htab : tables s.mem a = {a} := Radix.nodes_fresh hchild
  refine ⟨⟨?_, ?_, fun p b hp hfind i => ?_, h.kend⟩, htab, ?_⟩
  · change (tables s.mem a + s.free).Nodup
    rw [htab, Multiset.singleton_add, Multiset.nodup_cons]
    exact ⟨hf, h.nodup⟩
  · change ∀ x ∈ tables s.mem a + s.free, s.Frame x
    rw [htab]
    intro x hx
    rcases Multiset.mem_add.mp hx with hx | hx
    · rw [Multiset.mem_singleton.mp hx]
      exact ha
    · exact h.frame x hx
  · have hb : b ∈ tables s.mem a := Radix.mem_nodes.mpr ⟨p, hp.le, hfind⟩
    rw [htab, Multiset.mem_singleton] at hb
    rw [hb, hz, entry_zero]
    exact fun hv => absurd rfl hv
  · funext k
    have hnone : table s.mem a k = none := by
      rw [table, steps, Radix.find, hchild]
      rfl
    exact mapping_of_none hnone

/-- What `uvmcreate` comes to. -/
def Created (s s' : Ram) (r : UInt64) : Prop :=
  Later s s' ∧ (r = 0 ∧ s.failed < s'.failed ∧ s'.free = s.free ∧ s'.mem = s.mem ∨
    r ≠ 0 ∧ s'.failed = s.failed ∧ r ∈ s.free ∧ s'.free = s.free.erase r ∧ Proper 2 s' r ∧
      tables s'.mem r = {r} ∧ mapping s'.mem r = (fun _ => 0) ∧ ∀ x, x ≠ r → s'.mem x = s.mem x)

lemma uvmcreate_spec (h : Pool s) : wp may uvmcreate (fun r s' => Created s s' r) s := by
  unfold uvmcreate
  refine wp_call (kalloc_spec s) fun r s1 hk => ?_
  obtain ⟨hl, ⟨rfl, hmem, hfree, hfail⟩ | ⟨hr, hfree, hfail, hmem⟩⟩ := hk
  · rw [if_pos rfl, wp_pure]
    exact ⟨hl, .inl ⟨rfl, hfail, hfree, hmem⟩⟩
  · have hne := frame_ne_zero h.kend (h.frame r hr)
    rw [if_neg hne, wp_bind, memset, wp_change, wp_pure]
    obtain ⟨s2, hs2⟩ : ∃ s2 : Ram, s2 = { s1 with mem := Function.update s1.mem r (filled 0) } :=
      ⟨_, rfl⟩
    rw [← hs2]
    have hl2 : Later s s2 := by
      rw [hs2]
      exact ⟨hl.kend, hl.pick, hl.calls, hl.failed⟩
    have hfree2 : s2.free = s.free.erase r := by
      rw [hs2]
      exact hfree
    have hpool : Pool s2 := by
      refine ⟨?_, ?_, ?_⟩
      · rw [hfree2]
        exact h.nodup.erase r
      · rw [hfree2]
        exact fun p hp => hl2.frame.mpr (h.frame p (Multiset.mem_of_mem_erase hp))
      · rw [hl2.kend]
        exact h.kend
    have hout : r ∉ s2.free := by
      rw [hfree2, h.nodup.mem_erase_iff]
      exact fun hx => hx.1 rfl
    have hz : s2.mem r = filled 0 := by
      rw [hs2]
      exact Function.update_self _ _ _
    obtain ⟨hproper, htab, hmap⟩ := proper_zero hpool (hl2.frame.mpr (h.frame r hr)) hout hz
    refine ⟨hl2, .inr ⟨hne, by rw [hs2]; exact hfail, hr, hfree2, hproper, htab, hmap,
      fun x hx => ?_⟩⟩
    rw [hs2]
    change Function.update s1.mem r (filled 0) x = s.mem x
    rw [Function.update_of_ne hx, hmem, Function.update_of_ne hx]

lemma and_not_valid (e : UInt64) : (e &&& ~~~PTE_U) &&& PTE_V = e &&& PTE_V := by
  have hmask : ~~~PTE_U &&& PTE_V = PTE_V := by decide
  rw [UInt64.and_assoc, hmask]

lemma uvmclear_spec (h : Proper 2 s pt) (hwalk : va < MAXVA ∨ may "walk")
    (htable : table s.mem pt (vpn va) ≠ none ∨ may "uvmclear") :
    wp may (uvmclear pt va) (fun _ s' => vpn va < PAGES ∧ s'.failed = s.failed ∧ Edit s s' pt
      (Function.update (mapping s.mem pt) (vpn va) (mapping s.mem pt (vpn va) &&& ~~~PTE_U)) 0 0)
      s := by
  unfold uvmclear
  rw [wp_bind]
  refine wp_walk hwalk fun hlt => ?_
  have hk := lt_MAXVA.mp hlt
  cases ht : table s.mem pt (vpn va) with
  | none =>
    rw [leaf, ht]
    exact htable.resolve_left fun hne => hne ht
  | some t =>
    rw [leaf, ht]
    have hedit := edit_put h hk ht (entry (s.mem t) (Fin.ofNat 512 (vpn va)) &&& ~~~PTE_U)
    have hmap := mapping_of_table hk ht
    rw [and_not_valid] at hedit
    refine ⟨hk, rfl, ?_⟩
    rw [hmap]
    split_ifs at hedit ⊢ with hv
    · exact hedit
    · have hz : (0 : UInt64) &&& ~~~PTE_U = 0 := by decide
      rw [hz]
      exact hedit

end Xv6.Vm.Grow
