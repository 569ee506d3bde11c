import Xv6.Vm.Walk

/-!
What `mappages`, `uvmunmap`, `uvmalloc` and `uvmdealloc` do to what a page table maps, and to the
free pages.
-/

namespace Xv6.Vm.Maps

open Xv6.Data Xv6.Data.Effect Xv6.Data.Effect.Eff Xv6.Vm.Paging Xv6.Vm.Memory Xv6.Vm.Table
  Xv6.Vm.Tree Xv6.Vm.Walk

variable {s s' s'' : Ram} {pt a b va pa e perm : UInt64} {i : Fin 512} {k lo n j : ℕ}
  {m m' : ℕ → UInt64} {out inn x : Multiset UInt64} {may : String → Prop}

/-! ### Ranges of pages -/

/-- `m` with the pages from `lo` mapped to those from `pa`. -/
def mapsTo (m : ℕ → UInt64) (lo n : ℕ) (pa perm : UInt64) (k : ℕ) : UInt64 :=
  if lo ≤ k ∧ k < lo + n then PA2PTE (pa + UInt64.ofNat ((k - lo) * 4096)) ||| perm ||| PTE_V
  else m k

/-- `m` without the `n` pages from `lo`. -/
def clear (m : ℕ → UInt64) (lo n k : ℕ) : UInt64 := if lo ≤ k ∧ k < lo + n then 0 else m k

/-- The page a valid entry maps to. -/
def pages (e : UInt64) : Multiset UInt64 := if e = 0 then 0 else {PTE2PA e}

/-- The pages that the `n` virtual pages from `lo` are mapped to. -/
def held (m : ℕ → UInt64) (lo n : ℕ) : Multiset UInt64 := ∑ j ∈ Finset.range n, pages (m (lo + j))

lemma mapsTo_zero : mapsTo m lo 0 pa perm = m := by
  funext k
  exact if_neg (by omega)

lemma mapsTo_succ : mapsTo (Function.update m lo (PA2PTE pa ||| perm ||| PTE_V)) (lo + 1) n
    (pa + PGSIZE) perm = mapsTo m lo (n + 1) pa perm := by
  funext k
  unfold mapsTo
  by_cases hk : lo + 1 ≤ k ∧ k < lo + 1 + n
  · have haddr : pa + PGSIZE + UInt64.ofNat ((k - (lo + 1)) * 4096) =
        pa + UInt64.ofNat ((k - lo) * 4096) := by
      have hk' : (k - lo) * 4096 = 4096 + (k - (lo + 1)) * 4096 := by omega
      rw [hk', UInt64.ofNat_add, UInt64.add_assoc]
      rfl
    rw [if_pos hk, if_pos (by omega), haddr]
  · rw [if_neg hk]
    by_cases hlo : k = lo
    · subst hlo
      rw [Function.update_self, if_pos (by omega), Nat.sub_self, Nat.zero_mul]
      have hz : UInt64.ofNat 0 = 0 := rfl
      rw [hz, UInt64.add_zero]
    · rw [Function.update_of_ne hlo, if_neg (by omega)]

lemma clear_zero : clear m lo 0 = m := by
  funext k
  exact if_neg (by omega)

lemma clear_succ : clear (Function.update m lo 0) (lo + 1) n = clear m lo (n + 1) := by
  funext k
  unfold clear
  by_cases hlo : k = lo
  · subst hlo
    rw [if_neg (by omega), if_pos (by omega), Function.update_self]
  · rw [Function.update_of_ne hlo]
    by_cases hk : lo + 1 ≤ k ∧ k < lo + 1 + n
    · rw [if_pos hk, if_pos (by omega)]
    · rw [if_neg hk, if_neg (by omega)]

lemma pages_zero : pages 0 = 0 := if_pos rfl

lemma pages_of_ne (h : e ≠ 0) : pages e = {PTE2PA e} := if_neg h

lemma held_zero : held m lo 0 = 0 := by simp [held]

lemma held_succ : held m lo (n + 1) = pages (m lo) + held m (lo + 1) n := by
  unfold held
  rw [Finset.sum_range_succ', add_comm]
  simp only [add_zero, add_assoc, add_comm 1]

lemma held_snoc : held m lo (n + 1) = held m lo n + pages (m (lo + n)) := by
  unfold held
  rw [Finset.sum_range_succ]

lemma held_congr (h : ∀ k, lo ≤ k → k < lo + n → m k = m' k) : held m lo n = held m' lo n := by
  unfold held
  refine Finset.sum_congr rfl fun j hj => ?_
  rw [h (lo + j) (by omega) (by have := Finset.mem_range.mp hj; omega)]

lemma held_update {e : UInt64} (h1 : lo ≤ k) (h2 : k < lo + n) (hz : m k = 0) :
    held (Function.update m k e) lo n = held m lo n + pages e := by
  induction n with
  | zero => omega
  | succ n ih =>
    rw [held_snoc, held_snoc]
    by_cases hk : k = lo + n
    · subst hk
      have hsame : held (Function.update m (lo + n) e) lo n = held m lo n :=
        held_congr fun j _ hj => Function.update_of_ne (by omega) _ _
      rw [hsame, Function.update_self, hz, pages_zero, add_zero]
    · rw [ih (by omega), Function.update_of_ne (Ne.symm hk), add_right_comm]

lemma mem_held {y : UInt64} :
    y ∈ held m lo n ↔ ∃ k, lo ≤ k ∧ k < lo + n ∧ m k ≠ 0 ∧ PTE2PA (m k) = y := by
  unfold held
  rw [Multiset.mem_sum]
  constructor
  · rintro ⟨j, hj, hy⟩
    rw [Finset.mem_range] at hj
    by_cases hz : m (lo + j) = 0
    · rw [hz, pages_zero] at hy
      simp at hy
    · rw [pages_of_ne hz, Multiset.mem_singleton] at hy
      exact ⟨lo + j, by omega, by omega, hz, hy.symm⟩
  · rintro ⟨k, h1, h2, hz, rfl⟩
    refine ⟨k - lo, Finset.mem_range.mpr (by omega), ?_⟩
    rw [Nat.add_sub_cancel' h1, pages_of_ne hz]
    exact Multiset.mem_singleton_self _

/-! ### Addresses -/

lemma vpn_add (ha : a.toNat % 4096 = 0) (hlt : a.toNat + 4096 < 2 ^ 64) :
    vpn (a + PGSIZE) = vpn a + 1 ∧ (a + PGSIZE).toNat = a.toNat + 4096 := by
  have hsum : (a + PGSIZE).toNat = a.toNat + 4096 := by
    rw [UInt64.toNat_add, toNat_PGSIZE]
    omega
  exact ⟨by unfold vpn; omega, hsum⟩

lemma mod_PGSIZE : va % PGSIZE = 0 ↔ va.toNat % 4096 = 0 := by
  rw [← UInt64.toNat_inj, UInt64.toNat_mod, toNat_PGSIZE]
  rfl

/-! ### One entry -/

/-- Pages that come and go again. -/
lemma edit_cancel (h : Edit s s' pt m (out + x) (inn + x)) (hx : ∀ y ∈ x, y ∈ s.free) :
    Edit s s' pt m out inn := by
  refine ⟨h.toLater, h.proper, ?_, h.more, h.map, fun y h1 h2 h3 => h.frame y h1 h2 ?_, h.top⟩
  · have hkeep := h.keep
    rw [← add_assoc, ← add_assoc] at hkeep
    exact add_right_cancel hkeep
  · rw [Multiset.mem_add, not_or]
    exact ⟨h3, fun hy => h2 (hx y hy)⟩

/-- Only pages that are no tables and not free change. -/
lemma edit_congr (h : Proper 2 s pt) (hl : Later s s') (hf : s'.free = s.free)
    (hm : ∀ y, y ∈ tables s.mem pt ∨ y ∈ s.free → s'.mem y = s.mem y) :
    Proper 2 s' pt ∧ tables s'.mem pt = tables s.mem pt ∧
      mapping s'.mem pt = mapping s.mem pt := by
  refine ⟨h.congr (fun y hy => hm y (.inl hy)) hl.kend ?_ ?_,
    tables_congr fun y hy => hm y (.inl hy), mapping_congr fun y hy => hm y (.inl hy)⟩
  · rw [hf]
    exact h.nodup
  · rw [hf]
    exact fun y hy => h.frame y (Multiset.mem_add.mpr (.inr hy))

/-- A page is put into the free list. -/
lemma edit_give (h : Proper 2 s pt) (hl : Later s s') (hframe : s.Frame a)
    (hnd : (tables s.mem pt + s.free + {a}).Nodup) (hf : s'.free = a ::ₘ s.free)
    (hm : ∀ y, y ≠ a → s'.mem y = s.mem y) : Edit s s' pt (mapping s.mem pt) 0 {a} := by
  have htab : ∀ y ∈ tables s.mem pt, s'.mem y = s.mem y := by
    intro y hy
    refine hm y ?_
    rintro rfl
    exact Multiset.disjoint_left.mp (Multiset.nodup_add.mp hnd).2.2
      (Multiset.mem_add.mpr (.inl hy)) (Multiset.mem_singleton_self y)
  have hkeep : tables s.mem pt + s'.free = tables s.mem pt + s.free + {a} := by
    rw [hf, ← Multiset.singleton_add]
    abel
  have hproper : Proper 2 s' pt := by
    refine h.congr htab hl.kend ?_ ?_
    · change (tables s.mem pt + s'.free).Nodup
      rw [hkeep]
      exact hnd
    · rw [hf]
      intro y hy
      rcases Multiset.mem_cons.mp hy with rfl | hy
      · exact hframe
      · exact h.frame y (Multiset.mem_add.mpr (.inr hy))
  refine ⟨hl, hproper, ?_, ⟨0, ?_⟩, mapping_congr htab, fun y _ _ hy => hm y ?_,
    fun i _ => by rw [htab pt Radix.self_mem_nodes]⟩
  · rw [tables_congr htab, add_zero, hkeep]
  · rw [tables_congr htab, add_zero]
  · exact fun hya => hy (Multiset.mem_singleton.mpr hya)

/-- A page is taken from the free list. -/
lemma edit_take (h : Proper 2 s pt) (hl : Later s s') (ha : a ∈ s.free)
    (hf : s'.free = s.free.erase a) (hm : ∀ y, y ≠ a → s'.mem y = s.mem y) :
    Edit s s' pt (mapping s.mem pt) {a} 0 := by
  have htab : ∀ y ∈ tables s.mem pt, s'.mem y = s.mem y := by
    intro y hy
    refine hm y ?_
    rintro rfl
    exact Multiset.disjoint_left.mp (Multiset.nodup_add.mp h.nodup).2.2 hy ha
  have hkeep : tables s.mem pt + s'.free + {a} = tables s.mem pt + s.free := by
    rw [hf, add_assoc, add_comm (s.free.erase a), Multiset.singleton_add, Multiset.cons_erase ha]
  have hproper : Proper 2 s' pt := by
    refine h.congr htab hl.kend ?_ ?_
    · have hnd := h.nodup
      change (tables s.mem pt + s.free).Nodup at hnd
      rw [← hkeep] at hnd
      exact (Multiset.nodup_add.mp hnd).1
    · rw [hf]
      exact fun y hy => h.frame y (Multiset.mem_add.mpr (.inr (Multiset.mem_of_mem_erase hy)))
  refine ⟨hl, hproper, ?_, ⟨0, ?_⟩, mapping_congr htab, fun y _ hy _ => hm y ?_,
    fun i _ => by rw [htab pt Radix.self_mem_nodes]⟩
  · rw [tables_congr htab, add_zero, hkeep]
  · rw [tables_congr htab, add_zero]
  · rintro rfl
    exact hy ha

/-- The entry of a page is assigned. -/
lemma edit_put (h : Proper 2 s pt) (hk : k < PAGES) (ht : table s.mem pt k = some a) (e : UInt64) :
    Edit s (s.put a (Fin.ofNat 512 k) e) pt
      (Function.update (mapping s.mem pt) k (if e &&& PTE_V ≠ 0 then e else 0)) 0 0 := by
  obtain ⟨s', hs'⟩ : ∃ s', s' = s.put a (Fin.ofNat 512 k) e := ⟨_, rfl⟩
  have hm : s'.mem = Function.update s.mem a (setEntry (s.mem a) (Fin.ofNat 512 k) e) := by
    rw [hs']
    rfl
  have hf : s'.free = s.free := by
    rw [hs']
    rfl
  have hl : Later s s' := by
    rw [hs']
    exact ⟨rfl, rfl, le_rfl, le_rfl⟩
  rw [← hs']
  obtain ⟨hproper, htables, htable⟩ := assign_leaf h ht hm hf hl.kend
  refine ⟨hl, hproper, by rw [htables, hf], ⟨0, by rw [htables, add_zero]⟩,
    mapping_assign h hk ht hm htable, fun y hy _ _ => ?_, fun i _ => ?_⟩
  · have hya : y ≠ a := by
      rintro rfl
      exact hy (table_mem ht)
    rw [hm, Function.update_of_ne hya]
  · -- the root has no entries of the last level
    have hpta : pt ≠ a := by
      rintro rfl
      have hroot : Radix.find child (entries s.mem) [] pt = some pt := rfl
      have hp := Radix.find_inj (Multiset.nodup_add.mp h.nodup).1 ht hroot le_rfl (Nat.zero_le 2)
      cases hp
    rw [hm, Function.update_of_ne hpta]

/-! ### `mappages` -/

/-- What `mappages` comes to: the first `j` of the `n` pages are mapped, all of them unless a
page-table page is missing. -/
def MappedTo (s s' : Ram) (pt : UInt64) (lo n : ℕ) (pa perm : UInt64) (r : ℤ) : Prop :=
  ∃ j ≤ n, Edit s s' pt (mapsTo (mapping s.mem pt) lo j pa perm) 0 0 ∧
    (r = 0 ∧ j = n ∧ s'.failed = s.failed ∨ r = -1 ∧ j < n ∧ s.failed < s'.failed) ∧
    (∀ k, lo ≤ k → k < lo + j → mapping s.mem pt k = 0) ∧ lo + j ≤ PAGES

lemma mappagesLoop_spec {last : UInt64} (fuel : ℕ) (h : Proper 2 s pt) (ha : a.toNat % 4096 = 0)
    (hn : n + 1 < 2 ^ 52) (hlast : last = a + UInt64.ofNat (n * 4096)) (hfuel : 0 < fuel)
    (hrounds : a < MAXVA → PAGES + 1 ≤ fuel + vpn a)
    (hwalk : vpn a + (n + 1) ≤ PAGES ∨ may "walk")
    (hremap : (∀ k, vpn a ≤ k → k < vpn a + (n + 1) → mapping s.mem pt k = 0) ∨
      may "mappages: remap") :
    wp may (mappagesLoop pt last perm fuel a pa)
      (fun r s' => MappedTo s s' pt (vpn a) (n + 1) pa perm r) s := by
  induction fuel generalizing s a pa n with
  | zero => omega
  | succ fuel ih =>
    rw [mappagesLoop]
    refine wp_call (walk_alloc h (hwalk.imp_left fun hle => lt_MAXVA.mpr (by omega)))
      fun r s1 hw => ?_
    obtain ⟨hlt, hedit, ⟨rfl, hfail⟩ | ⟨hfail, t, ht, rfl⟩⟩ := hw
    · rw [wp_pure]
      refine ⟨0, Nat.zero_le _, ?_, .inr ⟨rfl, Nat.succ_pos _, hfail⟩, fun k _ _ => by omega, ?_⟩
      · rw [mapsTo_zero]
        exact hedit
      · have := lt_MAXVA.mp hlt
        omega
    · have hk : vpn a < PAGES := lt_MAXVA.mp hlt
      have hentry : mapping s.mem pt (vpn a) = if entry (s1.mem t) (Fin.ofNat 512 (vpn a)) &&& PTE_V ≠ 0
          then entry (s1.mem t) (Fin.ofNat 512 (vpn a)) else 0 := by
        rw [← hedit.map, mapping_of_table hk ht]
      change wp may (fetch t (Fin.ofNat 512 (vpn a)) >>= _) _ s1
      rw [wp_bind, fetch, wp_look, wp_ite]
      constructor
      · intro hv
        rw [wp_fail]
        refine hremap.resolve_left fun hz => ?_
        rw [hz (vpn a) le_rfl (by omega), if_pos hv] at hentry
        rw [← hentry] at hv
        exact hv rfl
      · intro hv
        have hzero : mapping s.mem pt (vpn a) = 0 := by rw [hentry, if_neg hv]
        rw [wp_bind, assign, wp_change]
        -- the state after the assignment
        let s2 := s1.put t (Fin.ofNat 512 (vpn a)) (PA2PTE pa ||| perm ||| PTE_V)
        have hassign : Edit s1 s2 pt (Function.update (mapping s1.mem pt) (vpn a)
            (PA2PTE pa ||| perm ||| PTE_V)) 0 0 := by
          have := edit_put hedit.proper hk ht (PA2PTE pa ||| perm ||| PTE_V)
          rwa [if_pos (valid_or _)] at this
        have htwo := hedit.trans hassign
        rw [add_zero, hedit.map] at htwo
        have hfail2 : s2.failed = s.failed := hfail
        rw [wp_ite]
        constructor
        · intro heq
          rw [wp_pure]
          have hz : n = 0 := by
            rw [hlast] at heq
            have hnat := congrArg UInt64.toNat heq
            rw [UInt64.toNat_add, UInt64.toNat_ofNat_of_lt' (by
              simp only [UInt64.size]; omega)] at hnat
            have := a.toNat_lt
            omega
          subst hz
          refine ⟨1, le_rfl, ?_, .inl ⟨rfl, rfl, hfail2⟩, fun k h1 h2 => ?_, by omega⟩
          · rw [← mapsTo_succ, mapsTo_zero]
            exact htwo
          · obtain rfl : k = vpn a := by omega
            exact hzero
        · intro hne
          have hpos : n ≠ 0 := by
            rintro rfl
            refine hne ?_
            rw [hlast, Nat.zero_mul]
            exact (UInt64.add_zero a).symm
          obtain ⟨n, rfl⟩ := Nat.exists_eq_succ_of_ne_zero hpos
          have halt : a.toNat + 4096 < 2 ^ 64 := by
            have : a.toNat < 2 ^ 38 := hlt
            omega
          obtain ⟨hvpn, hsum⟩ := vpn_add ha halt
          have hnext : wp may (mappagesLoop pt last perm fuel (a + PGSIZE) (pa + PGSIZE))
              (fun r s' => MappedTo s2 s' pt (vpn (a + PGSIZE)) (n + 1) (pa + PGSIZE) perm r) s2 := by
            refine ih hassign.proper (by omega) (by omega) ?_ ?_ ?_ ?_ ?_
            · have hmul : (n + 1) * 4096 = 4096 + n * 4096 := by omega
              rw [hlast, Nat.succ_eq_add_one, hmul, UInt64.ofNat_add, UInt64.add_assoc]
              rfl
            · have := hrounds hlt
              omega
            · intro _
              have := hrounds hlt
              omega
            · refine hwalk.imp_left fun hle => ?_
              omega
            · refine hremap.imp_left fun hz k h1 h2 => ?_
              rw [hassign.map, Function.update_of_ne (by omega), hedit.map]
              exact hz k (by omega) (by omega)
          refine wp_mono hnext fun r s' hr => ?_
          obtain ⟨j, hj, hed, hcase, hfresh, hle⟩ := hr
          rw [hassign.map, hedit.map, hvpn, mapsTo_succ] at hed
          have hall := htwo.trans hed
          rw [add_zero] at hall
          refine ⟨j + 1, by omega, hall, ?_, fun k h1 h2 => ?_, by omega⟩
          · rcases hcase with ⟨h1, h2, h3⟩ | ⟨h1, h2, h3⟩
            · exact .inl ⟨h1, by omega, by omega⟩
            · exact .inr ⟨h1, by omega, by omega⟩
          · by_cases hka : k = vpn a
            · rw [hka]
              exact hzero
            · have := hfresh k (by omega) (by omega)
              rw [hassign.map, Function.update_of_ne hka, hedit.map] at this
              exact this

/-- **`mappages`** maps its range, or a part from the start of it when it runs out of memory. -/
theorem mappages_spec {size : UInt64} (h : Proper 2 s pt)
    (hva : va.toNat % 4096 = 0 ∨ may "mappages: va not aligned")
    (hsize : size.toNat % 4096 = 0 ∨ may "mappages: size not aligned")
    (hpos : size ≠ 0 ∨ may "mappages: size")
    (hwalk : vpn va + size.toNat / 4096 ≤ PAGES ∨ may "walk")
    (hremap : (∀ k, vpn va ≤ k → k < vpn va + size.toNat / 4096 → mapping s.mem pt k = 0) ∨
      may "mappages: remap") :
    wp may (mappages pt va size pa perm)
      (fun r s' => MappedTo s s' pt (vpn va) (size.toNat / 4096) pa perm r) s := by
  unfold mappages
  rw [wp_ite]
  refine ⟨fun hne => ?_, fun hal => ?_⟩
  · rw [wp_fail]
    exact hva.resolve_left (mt mod_PGSIZE.mpr hne)
  rw [wp_ite]
  refine ⟨fun hne => ?_, fun hsz => ?_⟩
  · rw [wp_fail]
    exact hsize.resolve_left (mt mod_PGSIZE.mpr hne)
  rw [wp_ite]
  refine ⟨fun hz => ?_, fun hnz => ?_⟩
  · rw [wp_fail]
    exact hpos.resolve_left (not_not.mpr hz)
  have halign : va.toNat % 4096 = 0 := mod_PGSIZE.mp (not_not.mp hal)
  have hmod : size.toNat % 4096 = 0 := mod_PGSIZE.mp (not_not.mp hsz)
  have hlt := size.toNat_lt
  have hne : size.toNat ≠ 0 := fun hz => hnz (UInt64.toNat_inj.mp hz)
  obtain ⟨n, hn⟩ : ∃ n, size.toNat / 4096 = n + 1 := ⟨size.toNat / 4096 - 1, by omega⟩
  have hlast : va + size - PGSIZE = va + UInt64.ofNat (n * 4096) := by
    have hsz : size = UInt64.ofNat (n * 4096) + PGSIZE := by
      rw [← UInt64.toNat_inj, UInt64.toNat_add, toNat_PGSIZE,
        UInt64.toNat_ofNat_of_lt' (by simp only [UInt64.size]; omega)]
      omega
    rw [hsz, ← UInt64.add_assoc, UInt64.add_sub_cancel]
  rw [hn] at hwalk hremap ⊢
  refine mappagesLoop_spec ROUNDS h halign ?_ hlast (by decide) ?_ hwalk hremap
  · omega
  · intro _
    have : ROUNDS = PAGES + 1 := by rw [PAGES_eq]; rfl
    omega

/-- One page is mapped, or a page-table page is missing. -/
def MappedOne (s s' : Ram) (pt : UInt64) (k : ℕ) (pa perm : UInt64) (r : ℤ) : Prop :=
  r = 0 ∧ s'.failed = s.failed ∧ k < PAGES ∧ mapping s.mem pt k = 0 ∧ Edit s s' pt
      (Function.update (mapping s.mem pt) k (PA2PTE pa ||| perm ||| PTE_V)) 0 0 ∨
    r = -1 ∧ s.failed < s'.failed ∧ Edit s s' pt (mapping s.mem pt) 0 0

/-- `mappages` for one page. -/
theorem mappages_one (h : Proper 2 s pt) (hva : va.toNat % 4096 = 0)
    (hwalk : vpn va < PAGES ∨ may "walk")
    (hremap : mapping s.mem pt (vpn va) = 0 ∨ may "mappages: remap") :
    wp may (mappages pt va PGSIZE pa perm)
      (fun r s' => MappedOne s s' pt (vpn va) pa perm r) s := by
  have hone : PGSIZE.toNat / 4096 = 1 := rfl
  refine wp_mono (mappages_spec h (.inl hva) (.inl rfl) (.inl (by decide)) ?_ ?_) ?_
  · rw [hone]
    exact hwalk.imp_left fun hlt => hlt
  · rw [hone]
    refine hremap.imp_left fun hz k h1 h2 => ?_
    obtain rfl : k = vpn va := by omega
    exact hz
  · intro r s' ⟨j, hj, hedit, hcase, hfresh, hbound⟩
    rw [hone] at hj hcase
    rcases hcase with ⟨hr, rfl, hfail⟩ | ⟨hr, hlt, hfail⟩
    · rw [← mapsTo_succ, mapsTo_zero] at hedit
      exact .inl ⟨hr, hfail, hbound, hfresh _ le_rfl (Nat.lt_succ_self _), hedit⟩
    · obtain rfl : j = 0 := by omega
      rw [mapsTo_zero] at hedit
      exact .inr ⟨hr, hfail, hedit⟩

/-! ### `uvmunmap` -/

/-- What is freed when `m` are pages. -/
def freed (do_free : Bool) (x : Multiset UInt64) : Multiset UInt64 := if do_free then x else 0

lemma unmapPage_spec {do_free : Bool} (h : Proper 2 s pt) (hwalk : vpn va < PAGES ∨ may "walk")
    (hfree : do_free = true → mapping s.mem pt (vpn va) ≠ 0 →
      s.Frame (PTE2PA (mapping s.mem pt (vpn va))) ∨ may "kfree")
    (hnod : do_free = true →
      (tables s.mem pt + s.free + pages (mapping s.mem pt (vpn va))).Nodup) :
    wp may (unmapPage pt va do_free) (fun _ s' => vpn va < PAGES ∧ s'.failed = s.failed ∧
      Edit s s' pt (Function.update (mapping s.mem pt) (vpn va) 0) 0
        (freed do_free (pages (mapping s.mem pt (vpn va))))) s := by
  unfold unmapPage
  rw [wp_bind]
  refine wp_walk (hwalk.imp_left lt_MAXVA.mpr) fun hlt => ?_
  have hk : vpn va < PAGES := lt_MAXVA.mp hlt
  -- nothing is mapped: nothing is done
  have hnone : mapping s.mem pt (vpn va) = 0 → s.failed = s.failed ∧
      Edit s s pt (Function.update (mapping s.mem pt) (vpn va) 0) 0
        (freed do_free (pages (mapping s.mem pt (vpn va)))) := by
    intro hz
    have hupd : Function.update (mapping s.mem pt) (vpn va) 0 = mapping s.mem pt := by
      rw [← hz, Function.update_eq_self]
    have hpages : freed do_free (pages (mapping s.mem pt (vpn va))) = 0 := by
      rw [hz, pages_zero]
      cases do_free <;> rfl
    rw [hupd, hpages]
    exact ⟨rfl, Edit.refl h⟩
  cases ht : table s.mem pt (vpn va) with
  | none =>
    rw [leaf, ht]
    exact ⟨hk, hnone (mapping_of_none ht)⟩
  | some t =>
    have hmap := mapping_of_table hk ht
    rw [leaf, ht]
    change wp may (fetch t (Fin.ofNat 512 (vpn va)) >>= _) _ s
    rw [wp_bind, fetch, wp_look, wp_ite]
    constructor
    · intro hv
      rw [if_neg (not_not.mpr hv)] at hmap
      exact ⟨hk, hnone hmap⟩
    · intro hv
      rw [if_pos hv] at hmap
      have hne : mapping s.mem pt (vpn va) ≠ 0 := by
        rw [hmap]
        rintro hz
        rw [hz] at hv
        exact hv rfl
      have hz : (0 : UInt64) &&& PTE_V = 0 := rfl
      have hclear := fun {r : Ram} (hr : Proper 2 r pt) (htr : table r.mem pt (vpn va) = some t) =>
        edit_put hr hk htr 0
      simp only [hz, ne_eq, not_true_eq_false, if_false] at hclear
      change wp may (if do_free = true then
        kfree (PTE2PA (entry (s.mem t) (Fin.ofNat 512 (vpn va)))) >>=
          fun _ => assign t (Fin.ofNat 512 (vpn va)) 0
        else assign t (Fin.ofNat 512 (vpn va)) 0) _ s
      rw [wp_ite]
      constructor
      · intro hdo
        rw [← hmap]
        refine wp_call (kfree_spec (hfree hdo hne)) fun _ s1 hs1 => ?_
        obtain ⟨hlater, hfail, hframe, hfr, hmem⟩ := hs1
        have hnd := hnod hdo
        rw [freed, if_pos hdo]
        rw [pages_of_ne hne] at hnd ⊢
        generalize hx : PTE2PA (mapping s.mem pt (vpn va)) = x at *
        have hother : ∀ y, y ≠ x → s1.mem y = s.mem y := by
          intro y hy
          rw [hmem, Function.update_of_ne hy]
        have hxt : ∀ y ∈ tables s.mem pt, s1.mem y = s.mem y := by
          intro y hy
          refine hother y ?_
          rintro rfl
          exact Multiset.disjoint_left.mp (Multiset.nodup_add.mp hnd).2.2
            (Multiset.mem_add.mpr (.inl hy)) (Multiset.mem_singleton_self y)
        -- first the page is freed, then the entry is cleared
        have hone : Edit s s1 pt (mapping s.mem pt) 0 {x} := edit_give h hlater hframe hnd hfr hother
        have htwo := hone.trans (hclear hone.proper ((table_congr hxt).trans ht))
        rw [hone.map, add_zero, add_zero] at htwo
        exact ⟨hk, hfail, htwo⟩
      · intro hdo
        rw [freed, if_neg hdo]
        exact ⟨hk, rfl, hclear h ht⟩

lemma uvmunmapLoop_spec {stop : UInt64} {do_free : Bool} (fuel : ℕ) (h : Proper 2 s pt)
    (ha : a.toNat % 4096 = 0) (hstop : stop.toNat = a.toNat + n * 4096) (hfuel : 0 < fuel)
    (hrounds : a < MAXVA → PAGES + 1 ≤ fuel + vpn a)
    (hwalk : vpn a + n ≤ PAGES ∨ may "walk")
    (hfree : do_free = true → (∀ y ∈ held (mapping s.mem pt) (vpn a) n, s.Frame y) ∨ may "kfree")
    (hnod : do_free = true →
      (tables s.mem pt + s.free + held (mapping s.mem pt) (vpn a) n).Nodup) :
    wp may (uvmunmapLoop pt stop do_free fuel a) (fun _ s' => s'.failed = s.failed ∧
      Edit s s' pt (clear (mapping s.mem pt) (vpn a) n) 0
        (freed do_free (held (mapping s.mem pt) (vpn a) n))) s := by
  induction fuel generalizing s a n with
  | zero => omega
  | succ fuel ih =>
    rw [uvmunmapLoop, wp_ite]
    cases n with
    | zero =>
      refine ⟨fun hlt => ?_, fun _ => ?_⟩
      · have : a.toNat < stop.toNat := hlt
        omega
      · rw [wp_pure, clear_zero, held_zero]
        have hz : freed do_free 0 = 0 := by cases do_free <;> rfl
        rw [hz]
        exact ⟨rfl, Edit.refl h⟩
    | succ n =>
      have hlt : a < stop := by
        change a.toNat < stop.toNat
        omega
      have hstop' := stop.toNat_lt
      refine ⟨fun _ => ?_, fun hle => absurd hlt hle⟩
      have hmem : mapping s.mem pt (vpn a) ≠ 0 →
          PTE2PA (mapping s.mem pt (vpn a)) ∈ held (mapping s.mem pt) (vpn a) (n + 1) := fun hne =>
        mem_held.mpr ⟨vpn a, le_rfl, by omega, hne, rfl⟩
      have hsplit : held (mapping s.mem pt) (vpn a) (n + 1) =
          pages (mapping s.mem pt (vpn a)) + held (mapping s.mem pt) (vpn a + 1) n := held_succ
      have hfirst : do_free = true →
          (tables s.mem pt + s.free + pages (mapping s.mem pt (vpn a))).Nodup := by
        intro hdo
        have := hnod hdo
        rw [hsplit, ← add_assoc] at this
        exact (Multiset.nodup_add.mp this).1
      refine wp_call (unmapPage_spec h (hwalk.imp_left fun hle => by omega)
        (fun hdo hne => (hfree hdo).imp_left fun hf => hf _ (hmem hne)) hfirst) fun _ s1 hs1 => ?_
      obtain ⟨hk, hfail, hedit⟩ := hs1
      have halt : a.toNat + 4096 < 2 ^ 64 := by
        have : a.toNat < 2 ^ 38 := lt_MAXVA.mpr hk
        omega
      obtain ⟨hvpn, hsum⟩ := vpn_add ha halt
      have hround := hrounds (lt_MAXVA.mpr hk)
      -- the rest of the range is mapped as before
      have hrest : held (mapping s1.mem pt) (vpn (a + PGSIZE)) n =
          held (mapping s.mem pt) (vpn a + 1) n := by
        rw [hvpn, hedit.map]
        exact held_congr fun k h1 _ => Function.update_of_ne (by omega) _ _
      have hnext : wp may (uvmunmapLoop pt stop do_free fuel (a + PGSIZE))
          (fun _ s' => s'.failed = s1.failed ∧
            Edit s1 s' pt (clear (mapping s1.mem pt) (vpn (a + PGSIZE)) n) 0
              (freed do_free (held (mapping s1.mem pt) (vpn (a + PGSIZE)) n))) s1 := by
        refine ih hedit.proper (by omega) (by omega) (by omega) (fun _ => by omega) ?_ ?_ ?_
        · exact hwalk.imp_left fun hle => by omega
        · intro hdo
          refine (hfree hdo).imp_left fun hf y hy => hedit.toLater.frame.mpr (hf y ?_)
          rw [hsplit]
          rw [hrest] at hy
          exact Multiset.mem_add.mpr (.inr hy)
        · intro hdo
          have hkeep := hedit.keep
          rw [freed, if_pos hdo, add_zero] at hkeep
          rw [hrest, hkeep, add_assoc, ← hsplit]
          exact hnod hdo
      refine wp_mono hnext fun _ s' hs' => ?_
      obtain ⟨hfail', hedit'⟩ := hs'
      have hall := hedit.trans hedit'
      rw [hrest, hvpn, hedit.map, clear_succ, add_zero] at hall
      refine ⟨hfail'.trans hfail, ?_⟩
      rw [hsplit]
      cases do_free with
      | false => simpa only [freed, Bool.false_eq_true, if_false, add_zero] using hall
      | true => simpa only [freed, if_true] using hall

lemma toNat_range {npages : UInt64} (h : va.toNat + npages.toNat * 4096 < 2 ^ 64) :
    (va + npages * PGSIZE).toNat = va.toNat + npages.toNat * 4096 := by
  rw [UInt64.toNat_add, UInt64.toNat_mul, toNat_PGSIZE]
  omega

/-- **`uvmunmap`** where the end of the range is not past the 64 bits. -/
theorem uvmunmap_spec {npages : UInt64} {do_free : Bool} (h : Proper 2 s pt)
    (hva : va.toNat % 4096 = 0 ∨ may "uvmunmap: not aligned")
    (hwrap : va.toNat + npages.toNat * 4096 < 2 ^ 64)
    (hwalk : vpn va + npages.toNat ≤ PAGES ∨ may "walk")
    (hfree : do_free = true →
      (∀ y ∈ held (mapping s.mem pt) (vpn va) npages.toNat, s.Frame y) ∨ may "kfree")
    (hnod : do_free = true →
      (tables s.mem pt + s.free + held (mapping s.mem pt) (vpn va) npages.toNat).Nodup) :
    wp may (uvmunmap pt va npages do_free) (fun _ s' => s'.failed = s.failed ∧
      Edit s s' pt (clear (mapping s.mem pt) (vpn va) npages.toNat) 0
        (freed do_free (held (mapping s.mem pt) (vpn va) npages.toNat))) s := by
  unfold uvmunmap
  rw [wp_ite]
  refine ⟨fun hne => ?_, fun hal => ?_⟩
  · rw [wp_fail]
    exact hva.resolve_left (mt mod_PGSIZE.mpr hne)
  · refine uvmunmapLoop_spec ROUNDS h (mod_PGSIZE.mp (not_not.mp hal)) (toNat_range hwrap)
      (by decide) ?_ hwalk hfree hnod
    intro _
    have : ROUNDS = PAGES + 1 := by rw [PAGES_eq]; rfl
    omega

attribute [irreducible] held

end Xv6.Vm.Maps
