import Xv6.Vm.Space

/-!
Freeing a page table (`freewalk`, `uvmfree`, `proc_freepagetable`): each of its pages, and of the
pages that it maps, goes to the free list once.
-/

namespace Xv6.Vm.Free

open Xv6.Data Xv6.Data.Effect Xv6.Data.Effect.Eff Xv6.Vm.Paging Xv6.Vm.Memory Xv6.Vm.Table
  Xv6.Vm.Tree Xv6.Vm.Walk Xv6.Vm.Maps Xv6.Vm.Grow Xv6.Vm.Copy Xv6.Vm.Space

variable {s s' s'' : Ram} {pt a b c e : UInt64} {d k n : ℕ} {i : Fin 512} {x y : Multiset UInt64}
  {may : String → Prop}

/-! ### `freewalk` -/

/-- No entry of the last level is valid. -/
def Bare (d : ℕ) (s : Ram) (pt : UInt64) : Prop :=
  ∀ p a, p.length = d → Radix.find child (entries s.mem) p pt = some a → ∀ i,
    entry (s.mem a) i &&& PTE_V = 0

/-- The pages `x` have been freed, and apart from them only pages in `y` have changed. -/
structure Freed (s s' : Ram) (x y : Multiset UInt64) : Prop extends Later s s' where
  same : s'.failed = s.failed
  free : s'.free = x + s.free
  frame : ∀ z, z ∉ x → z ∉ y → s'.mem z = s.mem z

lemma Freed.refl (s : Ram) (y : Multiset UInt64) : Freed s s 0 y :=
  ⟨Later.refl s, rfl, (zero_add _).symm, fun _ _ _ => rfl⟩

/-- The tables below entry `i` of `pt`. -/
def branch (mem : UInt64 → Page) (d : ℕ) (pt : UInt64) (i : Fin 512) : Multiset UInt64 :=
  (child (entries mem pt i)).elim 0 (Radix.nodes child (entries mem) d)

@[irreducible] def branches (mem : UInt64 → Page) (d : ℕ) (pt : UInt64) (n : ℕ) : Multiset UInt64 :=
  ∑ j ∈ Finset.range n, branch mem d pt (Fin.ofNat 512 j)

lemma branches_succ (mem : UInt64 → Page) (d : ℕ) (pt : UInt64) (n : ℕ) :
    branches mem d pt (n + 1) = branch mem d pt (Fin.ofNat 512 n) + branches mem d pt n := by
  rw [branches, branches, Finset.sum_range_succ, add_comm]

lemma branches_le (mem : UInt64 → Page) (d : ℕ) (pt : UInt64) (h : n ≤ 512) :
    branches mem d pt n ≤ branches mem d pt 512 := by
  rw [branches, branches]
  refine Finset.sum_le_sum_of_subset ?_
  intro j hj
  rw [Finset.mem_range] at hj ⊢
  omega

lemma nodes_branches (mem : UInt64 → Page) (d : ℕ) (pt : UInt64) :
    Radix.nodes child (entries mem) (d + 1) pt = {pt} + branches mem d pt 512 := by
  have hsum : branches mem d pt 512 = ∑ i, branch mem d pt i := by
    rw [branches, Finset.sum_range]
    refine Finset.sum_congr rfl fun i _ => ?_
    congr 1
    exact Fin.ofNat_val_eq_self i
  rw [Radix.nodes_succ, hsum]
  rfl

/-- The tables below one entry are a proper tree of their own. -/
lemma Proper.branch (h : Proper (d + 1) s pt) (hc : child (entries s.mem pt i) = some c)
    (hx : Radix.nodes child (entries s.mem) d c + x ≤ branches s.mem d pt 512)
    (hf : Freed s s' x {pt}) : Radix.nodes child (entries s'.mem) d c =
        Radix.nodes child (entries s.mem) d c ∧ Proper d s' c ∧
      (Bare (d + 1) s pt → Bare d s' c) ∧ pt ∉ Radix.nodes child (entries s.mem) d c := by
  have hnod := h.nodup
  rw [nodes_branches] at hnod
  have hroot : pt ∉ branches s.mem d pt 512 := fun hin =>
    Multiset.disjoint_left.mp (Multiset.nodup_add.mp (Multiset.nodup_add.mp hnod).1).2.2
      (Multiset.mem_singleton_self pt) hin
  have hsub : Radix.nodes child (entries s.mem) d c + x + s.free ≤ 
      {pt} + branches s.mem d pt 512 + s.free :=
    add_le_add_left (hx.trans (Multiset.le_add_left _ _)) _
  have hnod' := Multiset.nodup_of_le hsub hnod
  have hpt : pt ∉ Radix.nodes child (entries s.mem) d c := fun hin =>
    hroot (Multiset.mem_of_le hx (Multiset.mem_add.mpr (.inl hin)))
  have hsame : ∀ z ∈ Radix.nodes child (entries s.mem) d c, s'.mem z = s.mem z := by
    intro z hz
    refine hf.frame z (fun hzx => ?_) (fun hzp => ?_)
    · exact Multiset.disjoint_left.mp (Multiset.nodup_add.mp (Multiset.nodup_add.mp hnod').1).2.2 hz
        hzx
    · rw [Multiset.mem_singleton.mp hzp] at hz
      exact hpt hz
  have hagree : Radix.Agree child (entries s.mem) (entries s'.mem) d c :=
    Radix.agree_of_eq fun z hz => funext fun j => by rw [entries, hsame z hz, entries]
  have hnodes := Radix.nodes_congr hagree
  refine ⟨hnodes, ⟨?_, ?_, fun p a hp hfind j => ?_, ?_⟩, fun hb p a hp hfind j => ?_, hpt⟩
  · rw [hnodes, hf.free, ← add_assoc]
    exact hnod'
  · rw [hnodes, hf.free, ← add_assoc]
    intro z hz
    refine hf.toLater.frame.mpr (h.frame z ?_)
    rw [nodes_branches]
    exact Multiset.mem_of_le hsub hz
  · rw [Radix.find_congr hagree hp.le] at hfind
    rw [hsame a (Radix.mem_nodes.mpr ⟨p, hp.le, hfind⟩)]
    exact h.inner (i :: p) a (by simpa using hp) (Radix.find_cons.mpr ⟨c, hc, hfind⟩) j
  · rw [hf.kend]
    exact h.kend
  · rw [Radix.find_congr hagree hp.le] at hfind
    rw [hsame a (Radix.mem_nodes.mpr ⟨p, hp.le, hfind⟩)]
    exact hb (i :: p) a (by simpa using hp) (Radix.find_cons.mpr ⟨c, hc, hfind⟩) j

lemma freewalkLoop_idle (f : UInt64 → Eff Ram Unit) (h : ∀ i, entry (s.mem pt) i &&& PTE_V = 0)
    (n : ℕ) : freewalkLoop f pt n s = .ok s () := by
  induction n with
  | zero =>
    rw [freewalkLoop_zero]
    rfl
  | succ n ih =>
    rw [freewalkLoop_succ, bind_ok ih, fetch_bind, if_neg fun hv => hv.1 (h _), if_neg (not_not.mpr (h _))]
    rfl

lemma freewalkLoop_spec (h : Proper (d + 1) s pt) (hb : Bare (d + 1) s pt)
    (hrec : ∀ s c, Proper d s c → Bare d s c →
      wp may (freewalk d c) (fun _ s' => Freed s s' (Radix.nodes child (entries s.mem) d c) 0) s)
    (hn : n ≤ 512) : wp may (freewalkLoop (freewalk d) pt n) (fun _ s' =>
      Freed s s' (branches s.mem d pt n) {pt} ∧
        ∀ j : Fin 512, n ≤ j.val → entry (s'.mem pt) j = entry (s.mem pt) j) s := by
  induction n with
  | zero =>
    have hz : branches s.mem d pt 0 = 0 := by rw [branches, Finset.range_zero, Finset.sum_empty]
    rw [hz, freewalkLoop_zero, wp_pure]
    exact ⟨Freed.refl s _, fun _ _ => rfl⟩
  | succ n ih =>
    rw [freewalkLoop_succ]
    refine wp_call (ih (by omega)) fun _ s1 h1 => ?_
    obtain ⟨hf, hentry⟩ := h1
    obtain ⟨i, hi⟩ : ∃ i, i = Fin.ofNat 512 n := ⟨_, rfl⟩
    have hval : i.val = n := by
      rw [hi]
      exact Nat.mod_eq_of_lt (by omega)
    have hkeep : ∀ j : Fin 512, n + 1 ≤ j.val → entry (s1.mem pt) j = entry (s.mem pt) j :=
      fun j hj => hentry j (by omega)
    rw [← hi, wp_bind, fetch, wp_look, hentry i (by omega), branches_succ, ← hi]
    obtain ⟨e, he⟩ : ∃ e, e = entry (s.mem pt) i := ⟨_, rfl⟩
    rw [← he]
    by_cases hv : e &&& PTE_V ≠ 0
    · have hflags : e &&& (PTE_R ||| PTE_W ||| PTE_X) = 0 := by
        rw [he] at hv ⊢
        exact h.inner [] pt (Nat.succ_pos d) rfl i hv
      have hc : child (entries s.mem pt i) = some (PTE2PA e) :=
        child_eq_some.mpr ⟨by rw [entries, ← he]; exact hv, by rw [entries, ← he]⟩
      have hbranch : branch s.mem d pt i = Radix.nodes child (entries s.mem) d (PTE2PA e) := by
        rw [branch, hc]
        rfl
      have hle : Radix.nodes child (entries s.mem) d (PTE2PA e) + branches s.mem d pt n ≤
          branches s.mem d pt 512 := by
        have := branches_le s.mem d pt hn
        rwa [branches_succ, ← hi, hbranch] at this
      obtain ⟨hnodes, hproper, hbare, hpt⟩ := Proper.branch h hc hle hf
      rw [if_pos ⟨hv, hflags⟩]
      refine wp_call (hrec s1 _ hproper (hbare hb)) fun _ s2 hf2 => ?_
      rw [hnodes] at hf2
      have hroot : s2.mem pt = s1.mem pt := hf2.frame pt hpt (Multiset.notMem_zero _)
      have hl : Later s2 (s2.put pt i 0) := ⟨rfl, rfl, le_rfl, le_rfl⟩
      rw [assign, wp_change]
      refine ⟨⟨(hf.toLater.trans hf2.toLater).trans hl, hf2.same.trans hf.same, ?_, fun z hz1 hz2 => ?_⟩,
        fun j hj => ?_⟩
      · change s2.free = _
        rw [hf2.free, hf.free, hbranch, add_assoc]
      · rw [hbranch, Multiset.mem_add, not_or] at hz1
        have hne : z ≠ pt := fun hz => hz2 (Multiset.mem_singleton.mpr hz)
        change Function.update s2.mem pt _ z = _
        rw [Function.update_of_ne hne, hf2.frame z hz1.1 (Multiset.notMem_zero _),
          hf.frame z hz1.2 hz2]
      · change entry (Function.update s2.mem pt _ pt) j = _
        rw [Function.update_self, entry_setEntry_ne (by rintro rfl; omega), hroot, hkeep j hj]
    · have hz : branch s.mem d pt i = 0 := by
        have hc : child (entries s.mem pt i) = none := by
          rw [child_eq_none, entries, ← he]
          exact not_not.mp hv
        rw [branch, hc]
        rfl
      rw [if_neg fun hv' => hv hv'.1, if_neg hv, wp_pure, hz, zero_add]
      exact ⟨hf, hkeep⟩

/-- **`freewalk`** frees the pages of a page table, each once. -/
theorem freewalk_spec (d : ℕ) (h : Proper d s pt) (hb : Bare d s pt) :
    wp may (freewalk d pt) (fun _ s' => Freed s s' (Radix.nodes child (entries s.mem) d pt) 0) s := by
  induction d generalizing s pt with
  | zero =>
    have hidle : ∀ n, wp may (freewalkLoop (fun _ => fail "rounds") pt n) (fun _ s' => s' = s) s :=
      fun n => wp_of_ok (freewalkLoop_idle _ (fun i => hb [] pt rfl rfl i) n) rfl
    have hpt : pt ∈ Radix.nodes child (entries s.mem) 0 pt := Radix.self_mem_nodes
    have hnodes : Radix.nodes child (entries s.mem) 0 pt = {pt} := Radix.nodes_zero
    have hframe := h.frame pt (Multiset.mem_add.mpr (.inl hpt))
    have hrest : wp may (kfree pt) (fun _ s' => Freed s s' {pt} 0) s := by
      refine wp_mono (kfree_spec (.inl hframe)) fun _ s' hk => ?_
      obtain ⟨hl, hfail, -, hfree, hmem⟩ := hk
      refine ⟨hl, hfail, hfree, fun z hz _ => ?_⟩
      rw [hmem, Function.update_of_ne fun hzp => hz (Multiset.mem_singleton.mpr hzp)]
    rw [freewalk, hnodes]
    exact wp_call (hidle 512) fun _ s' hs => by rwa [hs]
  | succ d ih =>
    have hpt : pt ∈ Radix.nodes child (entries s.mem) (d + 1) pt := Radix.self_mem_nodes
    have hloop : ∀ n ≤ 512, wp may (freewalkLoop (freewalk d) pt n) (fun _ s' =>
        Freed s s' (branches s.mem d pt n) {pt}) s := fun n hn =>
      wp_mono (freewalkLoop_spec h hb (fun _ _ => ih) hn) fun _ _ hs => hs.1
    have hrest : ∀ s1, Freed s s1 (branches s.mem d pt 512) {pt} →
        wp may (kfree pt) (fun _ s' => Freed s s' ({pt} + branches s.mem d pt 512) 0) s1 := by
      intro s1 hf
      have hframe := hf.toLater.frame.mpr (h.frame pt (Multiset.mem_add.mpr (.inl hpt)))
      refine wp_mono (kfree_spec (.inl hframe)) fun _ s' hk => ?_
      obtain ⟨hl, hfail, -, hfree, hmem⟩ := hk
      refine ⟨hf.toLater.trans hl, hfail.trans hf.same, ?_, fun z hz _ => ?_⟩
      · rw [hfree, hf.free, ← Multiset.singleton_add, add_assoc]
      · rw [Multiset.mem_add, not_or] at hz
        have hne : z ≠ pt := fun hzp => hz.1 (Multiset.mem_singleton.mpr hzp)
        rw [hmem, Function.update_of_ne hne, hf.frame z hz.2 hz.1]
    rw [freewalk, nodes_branches]
    exact wp_call (hloop 512 le_rfl) fun _ s1 hf => hrest s1 hf

/-! ### `uvmfree` -/

/-- The entries of the root from `MAXVA` on are not valid. -/
def Low (s : Ram) (pt : UInt64) : Prop :=
  ∀ i : Fin 512, 256 ≤ i.val → entry (s.mem pt) i &&& PTE_V = 0

lemma Low.congr (h : Low s pt)
    (ht : ∀ i : Fin 512, 256 ≤ i.val → entry (s'.mem pt) i = entry (s.mem pt) i) : Low s' pt := by
  intro i hi
  rw [ht i hi]
  exact h i hi

/-- Where nothing is mapped, no entry of the last level is valid. -/
lemma bare_of_mapping (hl : Low s pt) (h : mapping s.mem pt = fun _ => 0) : Bare 2 s pt := by
  intro p a hp hfind i
  obtain ⟨i2, i1, rfl⟩ := List.length_eq_two.mp hp
  have htop : i2.val < 256 := by
    by_contra hge
    obtain ⟨c, hc, -⟩ := Radix.find_cons.mp hfind
    exact (child_eq_some.mp hc).1 (hl i2 (by omega))
  have h1 := i1.isLt
  have h0 := i.isLt
  obtain ⟨k, hk⟩ : ∃ k, k = i2.val * 512 ^ 2 + i1.val * 512 + i.val := ⟨_, rfl⟩
  have hlt : k < PAGES := by
    rw [PAGES_eq]
    omega
  have hsteps : steps k 2 = [i2, i1] := by
    have e2 : Fin.ofNat 512 (k / 512 ^ 2) = i2 := Fin.ext (by change k / 512 ^ 2 % 512 = _; omega)
    have e1 : Fin.ofNat 512 (k / 512 ^ 1) = i1 := Fin.ext (by change k / 512 ^ 1 % 512 = _; omega)
    rw [steps, steps, steps, e2, e1]
  have hidx : Fin.ofNat 512 k = i := Fin.ext (by change k % 512 = _; omega)
  have htable : table s.mem pt k = some a := by
    rw [table, hsteps]
    exact hfind
  have hmap := mapping_of_table hlt htable
  rw [congrFun h, hidx] at hmap
  by_contra hv
  rw [if_pos hv] at hmap
  rw [← hmap] at hv
  exact hv rfl

lemma held_append (m : ℕ → UInt64) (lo n j : ℕ) :
    held m lo (n + j) = held m lo n + held m (lo + n) j := by
  induction j with
  | zero => rw [held_zero, add_zero, add_zero]
  | succ j ih => rw [← add_assoc, held_snoc, ih, held_snoc, add_assoc, add_assoc]

lemma held_none {m : ℕ → UInt64} {lo : ℕ} (h : ∀ k, lo ≤ k → k < lo + n → m k = 0) :
    held m lo n = 0 := by
  refine Multiset.eq_zero_of_forall_notMem fun x hx => ?_
  obtain ⟨k, h1, h2, hne, -⟩ := mem_held.mp hx
  exact hne (h k h1 h2)

/-- Nothing is held past the pages that are mapped. -/
lemma held_cut {m : ℕ → UInt64} {j : ℕ} (hn : n ≤ j) (h : ∀ k, n ≤ k → k < j → m k = 0) :
    held m 0 j = held m 0 n := by
  obtain ⟨l, rfl⟩ := Nat.exists_eq_add_of_le hn
  rw [held_append, Nat.zero_add, held_none h, add_zero]

/-- **`uvmfree`** frees the pages of user memory and those of the page table. -/
theorem uvmfree_spec {sz : UInt64} (h : Proper 2 s pt) (hl : Low s pt) (hsz : pagesUp sz ≤ PAGES)
    (hmap : ∀ k, pagesUp sz ≤ k → mapping s.mem pt k = 0)
    (hframe : ∀ y ∈ held (mapping s.mem pt) 0 (pagesUp sz), s.Frame y)
    (hnod : (tables s.mem pt + s.free + held (mapping s.mem pt) 0 (pagesUp sz)).Nodup) :
    wp may (uvmfree pt sz) (fun _ s' =>
      Freed s s' (tables s.mem pt + held (mapping s.mem pt) 0 (pagesUp sz)) s.free) s := by
  -- what is left for `freewalk`
  have hrest : ∀ s1, s1.failed = s.failed → Edit s s1 pt (fun _ => 0) 0
      (held (mapping s.mem pt) 0 (pagesUp sz)) → wp may (freewalk 2 pt) (fun _ s' =>
        Freed s s' (tables s.mem pt + held (mapping s.mem pt) 0 (pagesUp sz)) s.free) s1 := by
    intro s1 hfail hedit
    refine wp_mono (freewalk_spec 2 hedit.proper
      (bare_of_mapping (hl.congr hedit.top) hedit.map)) fun _ s' hf => ?_
    have hkeep := hedit.keep
    rw [add_zero] at hkeep
    refine ⟨hedit.toLater.trans hf.toLater, hf.same.trans hfail, ?_, fun z h1 h2 => ?_⟩
    · have hfree : s'.free = tables s1.mem pt + s1.free := hf.free
      rw [hfree, hkeep, add_right_comm]
    · rw [Multiset.mem_add, not_or] at h1
      have hz : z ∉ tables s1.mem pt + s1.free := by
        rw [hkeep, Multiset.mem_add, Multiset.mem_add, not_or, not_or]
        exact ⟨⟨h1.1, h2⟩, h1.2⟩
      rw [Multiset.mem_add, not_or] at hz
      rw [hf.frame z hz.1 (Multiset.notMem_zero z), hedit.frame z h1.1 h2 h1.2]
  have hle : sz.toNat ≤ 2 ^ 64 - 4096 := by
    rw [PAGES_eq] at hsz
    unfold pagesUp at hsz
    omega
  have hcount : (PGROUNDUP sz / PGSIZE).toNat = pagesUp sz := by
    rw [UInt64.toNat_div, toNat_PGROUNDUP_of_le hle, toNat_PGSIZE]
    unfold pagesUp
    omega
  have hv0 : vpn 0 = 0 := rfl
  unfold uvmfree
  by_cases hpos : sz > 0
  · rw [if_pos hpos]
    refine wp_call (uvmunmap_spec h (.inl rfl) ?_ (.inl ?_) ?_ ?_) fun _ s1 h1 => ?_
    · rw [hcount]
      change 0 + pagesUp sz * 4096 < 2 ^ 64
      rw [PAGES_eq] at hsz
      omega
    · rw [hcount, hv0, Nat.zero_add]
      exact hsz
    · rw [hcount, hv0]
      exact fun _ => .inl hframe
    · rw [hcount, hv0]
      exact fun _ => hnod
    · rw [hcount, hv0] at h1
      obtain ⟨hfail, hedit⟩ := h1
      have hz : clear (mapping s.mem pt) 0 (pagesUp sz) = fun _ => 0 := by
        funext k
        unfold clear
        split_ifs with hk
        · rfl
        · exact hmap k (by omega)
      rw [hz] at hedit
      exact hrest s1 hfail hedit
  · have hz : pagesUp sz = 0 := by
      have : ¬0 < sz.toNat := hpos
      unfold pagesUp
      omega
    rw [if_neg hpos]
    refine hrest s rfl ?_
    have hm : mapping s.mem pt = fun _ => 0 := funext fun k => hmap k (by omega)
    rw [hz, held_zero, ← hm]
    exact Edit.refl h

end Xv6.Vm.Free
