import Xv6.Vm.Holding
import Xv6.Vm.Transfer

/-!
`uvmcopy` and `kfork`, as far as memory goes: the child finds at every address what its parent does,
in pages of its own, and a `kfork` that fails leaves nothing behind.
-/

namespace Xv6.Vm.Fork

open Xv6.Data Xv6.Data.Effect Xv6.Data.Effect.Eff Xv6.Vm.Paging Xv6.Vm.Memory Xv6.Vm.Table
  Xv6.Vm.Tree Xv6.Vm.Walk Xv6.Vm.Maps Xv6.Vm.Grow Xv6.Vm.Copy Xv6.Vm.Space Xv6.Vm.Free
  Xv6.Vm.Process Xv6.Vm.Transfer Xv6.Vm.Holding

variable {s s' s'' : Ram} {p q : Proc} {a b e f new sz : UInt64} {k l n : ℕ}
  {out inn : Multiset UInt64} {m : ℕ → UInt64} {may : String → Prop}

/-! ### `uvmcopy` -/

/-- Page `k` of `new` is a copy of that of `p`, in a page that was free. -/
def Twin (s s' : Ram) (p : Proc) (new : UInt64) (k : ℕ) : Prop := ∃ a, a ∈ s.free ∧
  mapping s'.mem new k = PA2PTE a ||| PTE_FLAGS (entryOf s p k) ||| PTE_V ∧
    s'.mem a = s.mem (PTE2PA (entryOf s p k))

/-- The first `n` pages have been copied. -/
structure Copied (s s' : Ram) (p : Proc) (new : UInt64) (n : ℕ) : Prop where
  edit : Edit s s' new (mapping s'.mem new) (held (mapping s'.mem new) 0 n) 0
  same : s'.failed = s.failed
  other : ∀ k, n ≤ k → mapping s'.mem new k = mapping s.mem new k
  hole : ∀ k < n, entryOf s p k = 0 → mapping s'.mem new k = 0
  twin : ∀ k < n, entryOf s p k ≠ 0 → Twin s s' p new k

/-- `new` maps no user memory, and has nothing in common with `p`. -/
structure Ready (s : Ram) (p : Proc) (new : UInt64) : Prop where
  whole : Whole s p
  proper : Proper 2 s new
  empty : ∀ k < USER, mapping s.mem new k = 0
  once : ∀ x, (owned s p + tables s.mem new + s.free).count x ≤ 1

lemma flags_lt (e : UInt64) : (PTE_FLAGS e).toNat < 1024 := by
  rw [toNat_PTE_FLAGS]
  omega

lemma Ready.apart (h : Ready s p new) {x : UInt64} (hx : x ∈ owned s p) :
    x ∉ tables s.mem new ∧ x ∉ s.free := by
  have hn := Multiset.nodup_iff_count_le_one.mpr h.once
  have h1 := (Multiset.nodup_add.mp (Multiset.nodup_add.mp hn).1).2.2
  have h2 := (Multiset.nodup_add.mp hn).2.2
  exact ⟨fun ht => Multiset.disjoint_left.mp h1 hx ht,
    fun hf => Multiset.disjoint_left.mp h2 (Multiset.mem_add.mpr (.inl hx)) hf⟩

/-- What `p` has stays as it is. -/
lemma Ready.kept (h : Ready s p new) (he : Edit s s' new m out 0) {x : UInt64}
    (hx : x ∈ owned s p) : s'.mem x = s.mem x :=
  he.frame x (h.apart hx).1 (h.apart hx).2 (Multiset.notMem_zero x)

lemma Ready.entry (h : Ready s p new) (he : Edit s s' new m out 0) : entryOf s' p = entryOf s p := by
  have htab : ∀ x ∈ tables s.mem p.pagetable, s'.mem x = s.mem x := fun x hx =>
    h.kept he (Multiset.mem_add.mpr (.inl hx))
  exact mapping_congr htab

lemma Copied.refl (h : Ready s p new) : Copied s s p new 0 := by
  refine ⟨?_, rfl, fun _ _ => rfl, fun k hk => by omega, fun k hk => by omega⟩
  rw [held_zero]
  exact Edit.refl h.proper

/-- The pages of the copy were free. -/
lemma Copied.held_free (h : Copied s s' p new n) (hr : Ready s p new) {y : UInt64}
    (hy : y ∈ held (mapping s'.mem new) 0 n) : y ∈ s.free ∧ s.Frame y := by
  obtain ⟨k, -, hk, hne, rfl⟩ := mem_held.mp hy
  have hold : entryOf s p k ≠ 0 := fun hz => hne (h.hole k (by omega) hz)
  obtain ⟨a, hfree, hmap, -⟩ := h.twin k (by omega) hold
  have hframe := hr.proper.frame a (Multiset.mem_add.mpr (.inr hfree))
  rw [hmap, entry_page hframe.1 (flags_lt _)]
  exact ⟨hfree, hframe⟩

/-- The pages of the copy are taken back. -/
lemma Copied.undo (h : Copied s s' p new n) (hr : Ready s p new) (hn : n ≤ USER)
    (h' : Edit s' s'' new (clear (mapping s'.mem new) 0 n) (out + 0)
      (inn + held (mapping s'.mem new) 0 n)) : Edit s s'' new (mapping s.mem new) out inn := by
  have hmap : clear (mapping s'.mem new) 0 n = mapping s.mem new := by
    funext k
    unfold clear
    by_cases hk : 0 ≤ k ∧ k < 0 + n
    · rw [if_pos hk, hr.empty k (by omega)]
    · rw [if_neg hk, h.other k (by omega)]
  rw [hmap] at h'
  have hall := h.edit.trans h'
  rw [add_zero, zero_add, add_comm _ out] at hall
  exact edit_cancel hall fun y hy => (h.held_free hr hy).1

/-- A page that is not mapped is left out. -/
lemma Copied.skip (h : Copied s s' p new n) (hr : Ready s p new) (hn : n < USER)
    (hz : entryOf s p n = 0) : Copied s s' p new (n + 1) := by
  have hnew : mapping s'.mem new n = 0 := by
    rw [h.other n le_rfl]
    exact hr.empty n hn
  refine ⟨?_, h.same, fun k hk => h.other k (by omega), fun k hk hk0 => ?_, fun k hk hk0 => ?_⟩
  · rw [held_snoc, Nat.zero_add, hnew, pages_zero, add_zero]
    exact h.edit
  · rcases Nat.lt_succ_iff_lt_or_eq.mp hk with hlt | rfl
    · exact h.hole k hlt hk0
    · exact hnew
  · rcases Nat.lt_succ_iff_lt_or_eq.mp hk with hlt | rfl
    · exact h.twin k hlt hk0
    · exact absurd hz hk0

/-- One page more. -/
lemma Copied.snoc {s1 : Ram} (h : Copied s s' p new n) (hr : Ready s p new) (hn : n < USER)
    (ha : a ∈ s'.free) (h1 : Edit s' s1 new (Function.update (mapping s'.mem new) n
      (PA2PTE a ||| PTE_FLAGS (entryOf s p n) ||| PTE_V)) {a} 0) (hfail : s1.failed = s'.failed)
    (hpage : s1.mem a = s.mem (PTE2PA (entryOf s p n))) (hz : entryOf s p n ≠ 0) :
    Copied s s1 p new (n + 1) := by
  have hmem := h.edit.mem (.inr (.inl ha))
  have hframe : s.Frame a := h.edit.toLater.frame.mp
    (h.edit.proper.frame a (Multiset.mem_add.mpr (.inr ha)))
  have hflags := flags_lt (entryOf s p n)
  have hnew : mapping s1.mem new n = PA2PTE a ||| PTE_FLAGS (entryOf s p n) ||| PTE_V := by
    rw [h1.map, Function.update_self]
  have hold : ∀ k, k ≠ n → mapping s1.mem new k = mapping s'.mem new k := by
    intro k hk
    rw [h1.map, Function.update_of_ne hk]
  have hheld : held (mapping s1.mem new) 0 (n + 1) = held (mapping s'.mem new) 0 n + {a} := by
    rw [held_snoc, Nat.zero_add, hnew, pages_of_ne (entry_ne_zero _ _), entry_page hframe.1 hflags]
    congr 1
    exact held_congr fun k _ hk => hold k (by omega)
  have hnd : (tables s'.mem new + s'.free + held (mapping s'.mem new) 0 n).Nodup := by
    rw [h.edit.keep, add_zero]
    exact hr.proper.nodup
  refine ⟨?_, hfail.trans h.same, fun k hk => ?_, fun k hk hk0 => ?_, fun k hk hk0 => ?_⟩
  · rw [hheld]
    have hall := h.edit.trans h1
    rw [← h1.map, add_zero] at hall
    exact hall
  · rw [hold k (by omega)]
    exact h.other k (by omega)
  · rcases Nat.lt_succ_iff_lt_or_eq.mp hk with hlt | rfl
    · rw [hold k (by omega)]
      exact h.hole k hlt hk0
    · exact absurd hk0 hz
  · rcases Nat.lt_succ_iff_lt_or_eq.mp hk with hlt | rfl
    · obtain ⟨b, hfree, hmap, hb⟩ := h.twin k hlt hk0
      refine ⟨b, hfree, by rw [hold k (by omega), hmap], ?_⟩
      have hbf : s.Frame b := hr.proper.frame b (Multiset.mem_add.mpr (.inr hfree))
      have hin : b ∈ held (mapping s'.mem new) 0 n := by
        refine mem_held.mpr ⟨k, Nat.zero_le k, by omega, ?_, ?_⟩
        · rw [hmap]
          exact entry_ne_zero _ _
        · rw [hmap, entry_page hbf.1 (flags_lt _)]
      have hout : b ∉ tables s'.mem new + s'.free := fun hx =>
        Multiset.disjoint_left.mp (Multiset.nodup_add.mp hnd).2.2 hx hin
      rw [Multiset.mem_add, not_or] at hout
      rw [h1.frame b hout.1 hout.2 (Multiset.notMem_zero b), hb]
    · have hfree : a ∈ s.free := by
        rcases hmem with ht | hf | hx
        · obtain ⟨t, hmore⟩ := h.edit.more
          have hin : a ∈ tables s'.mem new := by
            rw [hmore]
            exact Multiset.mem_add.mpr (.inl ht)
          exact absurd ha (Multiset.disjoint_left.mp
            (Multiset.nodup_add.mp (Multiset.nodup_add.mp hnd).1).2.2 hin)
        · exact hf
        · exact absurd hx (Multiset.notMem_zero a)
      exact ⟨a, hfree, hnew, hpage⟩

/-- Taking back the first `n` pages. -/
lemma copy_undo {i : UInt64} (h : Copied s s' p new n) (hr : Ready s p new) (hn : n ≤ USER)
    (h1 : Edit s' s'' new (mapping s'.mem new) 0 0) (hi : i.toNat = n * 4096) :
    wp may (uvmunmap new 0 (i / PGSIZE) true) (fun _ s3 => s3.failed = s''.failed ∧
      Edit s s3 new (mapping s.mem new) 0 0) s'' := by
  have hcount : (i / PGSIZE).toNat = n := by
    rw [UInt64.toNat_div, toNat_PGSIZE, hi, Nat.mul_div_cancel _ (by decide : 0 < 4096)]
  have hv0 : vpn 0 = 0 := rfl
  have hup := USER_lt
  have hheld : held (mapping s''.mem new) 0 n = held (mapping s'.mem new) 0 n := by rw [h1.map]
  have hnd : (tables s''.mem new + s''.free + held (mapping s''.mem new) 0 n).Nodup := by
    have h1k := h1.keep
    rw [add_zero, add_zero] at h1k
    rw [hheld, h1k, h.edit.keep, add_zero]
    exact hr.proper.nodup
  refine wp_mono (uvmunmap_spec h1.proper (.inl rfl) ?_ (.inl ?_) ?_ ?_) fun _ s3 hs => ?_
  · rw [hcount]
    change 0 + n * 4096 < 2 ^ 64
    rw [PAGES_eq] at hup
    omega
  · rw [hcount, hv0]
    omega
  · rw [hcount, hv0, hheld]
    exact fun _ => .inl fun y hy =>
      (h.edit.toLater.trans h1.toLater).frame.mpr (h.held_free hr hy).2
  · rw [hcount, hv0]
    exact fun _ => hnd
  · rw [hcount, hv0] at hs
    obtain ⟨hfail, he⟩ := hs
    have hall := h1.trans he
    rw [hheld, h1.map] at hall
    exact ⟨hfail, h.undo hr hn hall⟩

/-- What `uvmcopy` comes to: all pages or none. -/
def Outcome (s s' : Ram) (p : Proc) (new : UInt64) (r : ℤ) : Prop :=
  r = 0 ∧ Copied s s' p new (pagesUp p.sz) ∨
    r = -1 ∧ s.failed < s'.failed ∧ Edit s s' new (mapping s.mem new) 0 0

lemma uvmcopyLoop_spec {i : UInt64} (fuel : ℕ) (hr : Ready s p new) (h : Copied s s' p new n)
    (hi : i.toNat = n * 4096) (hfuel : PAGES + 1 ≤ fuel + n) (hle : n ≤ pagesUp p.sz) :
    wp may (uvmcopyLoop p.pagetable new p.sz fuel i) (fun r s'' => Outcome s s'' p new r) s' := by
  have hsz := hr.whole.pages
  have hup := USER_lt
  induction fuel generalizing s' n i with
  | zero => omega
  | succ fuel ih =>
    rw [uvmcopyLoop]
    by_cases hlt : i < p.sz
    · have hlt' : i.toNat < p.sz.toNat := hlt
      have hn : n < pagesUp p.sz := by
        unfold pagesUp
        omega
      have hvpn : vpn i = n := by
        unfold vpn
        omega
      have hva : i < MAXVA := lt_MAXVA.mpr (by omega)
      have hnext : (i + PGSIZE).toNat = (n + 1) * 4096 := by
        have hlast : i.toNat + 4096 < 2 ^ 64 := by
          rw [PAGES_eq] at hup
          omega
        rw [(vpn_add (by omega) hlast).2]
        omega
      have hold : mapping s'.mem p.pagetable (vpn i) = entryOf s p n := by
        rw [hvpn]
        exact congrFun (hr.entry h.edit) n
      -- the page is not mapped
      have hskip : entryOf s p n = 0 →
          wp may (uvmcopyLoop p.pagetable new p.sz fuel (i + PGSIZE))
            (fun r s'' => Outcome s s'' p new r) s' := fun hz =>
        ih (h.skip hr (by omega) hz) hnext (by omega) hn
      rw [if_pos hlt, wp_bind]
      obtain ⟨o, ho, ⟨rfl, hz⟩ | ⟨t, j, rfl, hmap⟩⟩ := walk_entry s' p.pagetable hva
      · exact wp_of_ok ho (hskip (hold.symm.trans hz))
      refine wp_of_ok ho ?_
      rw [hold] at hmap
      change wp may (fetch t j >>= _) _ s'
      rw [wp_bind, fetch, wp_look, wp_ite]
      refine ⟨fun hv => ?_, fun hv => ?_⟩
      · rw [if_neg (not_not.mpr hv)] at hmap
        exact hskip hmap
      rw [if_pos hv] at hmap
      rw [← hmap]
      have hne : entryOf s p n ≠ 0 := by
        intro hz
        rw [← hmap, hz] at hv
        exact hv UInt64.zero_and
      have hpage : PTE2PA (entryOf s p n) ∈ owned s p :=
        Multiset.mem_add.mpr (.inr (hr.whole.mem_held (by omega) hne))
      -- giving up after `n` pages
      have hgive : ∀ s1, s'.failed < s1.failed → Edit s' s1 new (mapping s'.mem new) 0 0 →
          wp may (uvmunmap new 0 (i / PGSIZE) true >>= fun _ => pure (-1))
            (fun r s'' => Outcome s s'' p new r) s1 := by
        intro s1 hfail he
        refine wp_call (copy_undo h hr (by omega) he hi) fun _ s3 hs => ?_
        have hf := h.same
        rw [wp_pure]
        exact .inr ⟨rfl, by omega, hs.2⟩
      refine wp_call (kalloc_edit h.edit.proper) fun mem s1 hk => ?_
      obtain ⟨rfl, hfail, hedit⟩ | ⟨hfree, hne0, hfail, hedit⟩ := hk
      · rw [if_pos rfl]
        exact hgive s1 hfail hedit
      rw [if_neg hne0, wp_bind, wp_change]
      obtain ⟨pg, hpg⟩ : ∃ pg, pg = s1.mem (PTE2PA (entryOf s p n)) := ⟨_, rfl⟩
      rw [← hpg]
      obtain ⟨s2, hs2⟩ : ∃ s2 : Ram, s2 = { s1 with mem := Function.update s1.mem mem pg } :=
        ⟨_, rfl⟩
      have hw := edit_write hedit h.edit.proper hfree pg
      rw [← hs2] at hw ⊢
      have hf2 : s2.failed = s'.failed := by
        rw [hs2]
        exact hfail
      have hcopy : s2.mem mem = s.mem (PTE2PA (entryOf s p n)) := by
        have hall := h.edit.trans hedit
        rw [add_zero] at hall
        rw [hs2, ← hr.kept hall hpage, ← hpg]
        exact Function.update_self _ _ _
      have hzero : mapping s'.mem new (vpn i) = 0 := by
        rw [hvpn, h.other n le_rfl]
        exact hr.empty n (by omega)
      refine wp_call (map_taken h.edit.proper hw (by omega) (.inl (by omega)) (.inl hzero))
        fun r s3 hr3 => ?_
      rw [hvpn] at hr3
      rw [wp_ite]
      refine ⟨fun hrz => ?_, fun hrz => ?_⟩
      · obtain ⟨hr3, -⟩ | ⟨-, hfail3, he3⟩ := hr3
        · exact absurd hr3 hrz
        refine wp_call (give_taken h.edit.proper hfree he3) fun _ s4 hs4 => ?_
        exact hgive s4 (by omega) hs4.2
      · obtain ⟨-, hfail3, -, -, hpage3, he3⟩ | ⟨hr3, -⟩ := hr3
        · have hsnoc := h.snoc hr (by omega) hfree he3 (by omega) (hpage3.trans hcopy) hne
          exact ih hsnoc hnext (by omega) hn
        · exact absurd hr3 (by rintro rfl; exact hrz (by decide))
    · have hge : ¬i.toNat < p.sz.toNat := hlt
      have hn : n = pagesUp p.sz := by
        unfold pagesUp at hle ⊢
        omega
      rw [hn] at h
      rw [if_neg hlt, wp_pure]
      exact .inl ⟨rfl, h⟩

/-- **`uvmcopy`** copies every page that is mapped, or takes everything back. -/
theorem uvmcopy_spec (h : Ready s p new) : wp may (uvmcopy p.pagetable new p.sz)
    (fun r s' => Outcome s s' p new r) s := by
  have hr : ROUNDS = PAGES + 1 := by
    rw [PAGES_eq]
    rfl
  exact uvmcopyLoop_spec ROUNDS h (Copied.refl h) rfl (by omega) (Nat.zero_le _)

/-! ### The child -/

lemma and_flags {e f : UInt64} (hf : f.toNat < 1024) : PTE_FLAGS e &&& f = e &&& f := by
  have hmask : (0x3FF : UInt64) &&& f = f := by
    rw [← UInt64.toNat_inj, UInt64.toNat_and, Nat.and_comm]
    change f.toNat &&& (2 ^ 10 - 1) = f.toNat
    rw [and_low]
    exact Nat.mod_eq_of_lt hf
  rw [PTE_FLAGS, UInt64.and_assoc, hmask]

/-- The copy of a valid entry has its flags. -/
lemma copy_flags (he : e &&& PTE_V ≠ 0) (hf : f.toNat < 1024) :
    (PA2PTE a ||| PTE_FLAGS e ||| PTE_V) &&& f = e &&& f := by
  have hV : PTE_FLAGS e ||| PTE_V = PTE_FLAGS e := by
    have hv : PTE_FLAGS e &&& PTE_V ≠ 0 := by
      rw [and_flags (by decide)]
      exact he
    rw [valid_iff] at hv
    rw [← UInt64.toNat_inj, UInt64.toNat_or]
    apply Nat.eq_of_testBit_eq
    intro i
    have hone : PTE_V.toNat = 2 ^ 1 - 1 := rfl
    rw [Nat.testBit_or, hone, Nat.testBit_two_pow_sub_one]
    cases i with
    | zero =>
      rw [Nat.testBit_zero, hv]
      rfl
    | succ i =>
      have hlt : ¬i + 1 < 1 := by omega
      rw [decide_eq_false hlt, Bool.or_false]
  rw [UInt64.or_assoc, hV, entry_and hf, and_flags hf]

/-- `c` finds in `s'` what `p` does in `s`. -/
structure Same (s s' : Ram) (p c : Proc) : Prop where
  size : c.sz = p.sz
  view : ∀ va, view s' c va = view s p va
  /-- Which pages are mapped, and the permissions of each. -/
  mapped : ∀ k < USER, (entryOf s' c k = 0 ↔ entryOf s p k = 0) ∧
    ∀ f : UInt64, f.toNat < 1024 → entryOf s' c k &&& f = entryOf s p k &&& f

/-- **The child's address space**: the copy is whole, with pages that were free or tables of `new`,
and shows what `p` does. -/
theorem Copied.child (h : Copied s s' p new (pagesUp p.sz)) (hr : Ready s p new)
    (hq : Whole s ⟨0, new⟩) : Whole s' ⟨p.sz, new⟩ ∧
      owned s' ⟨p.sz, new⟩ + s'.free = tables s.mem new + s.free ∧ Same s s' p ⟨p.sz, new⟩ := by
  have hup := hr.whole.pages
  have hentry : entryOf s' ⟨p.sz, new⟩ = mapping s'.mem new := entryOf_mk ..
  have hentry0 : entryOf s ⟨0, new⟩ = mapping s.mem new := entryOf_mk ..
  have hnone : ∀ k, pagesUp p.sz ≤ k → k < USER → entryOf s' ⟨p.sz, new⟩ k = 0 := by
    intro k h1 h2
    rw [hentry, h.other k h1]
    exact hr.empty k h2
  have hhigh : ∀ k, USER ≤ k → entryOf s' ⟨p.sz, new⟩ k = entryOf s ⟨0, new⟩ k := by
    intro k hk
    rw [hentry, h.other k (by omega), hentry0]
  -- page by page
  have hpage : ∀ k < USER, entryOf s' ⟨p.sz, new⟩ k = 0 ∧ entryOf s p k = 0 ∨
      entryOf s p k ≠ 0 ∧ ∃ a, s.Frame a ∧ s'.mem a = s.mem (PTE2PA (entryOf s p k)) ∧
        entryOf s' ⟨p.sz, new⟩ k = PA2PTE a ||| PTE_FLAGS (entryOf s p k) ||| PTE_V := by
    intro k hk
    rw [hentry]
    by_cases hlt : k < pagesUp p.sz
    · by_cases hz : entryOf s p k = 0
      · exact .inl ⟨h.hole k hlt hz, hz⟩
      · obtain ⟨a, hfree, hmap, hmem⟩ := h.twin k hlt hz
        exact .inr ⟨hz, a, hr.proper.frame a (Multiset.mem_add.mpr (.inr hfree)), hmem, hmap⟩
    · rw [h.other k (by omega)]
      exact .inl ⟨hr.empty k hk, hr.whole.none (by omega) hk⟩
  have hflags : ∀ k < USER, ∀ f : UInt64, f.toNat < 1024 →
      entryOf s' ⟨p.sz, new⟩ k &&& f = entryOf s p k &&& f := by
    intro k hk f hf
    obtain ⟨h1, h2⟩ | ⟨hne, a, -, -, hmap⟩ := hpage k hk
    · rw [h1, h2]
    · have hv : entryOf s p k &&& PTE_V ≠ 0 := mapping_valid hne
      rw [hmap, copy_flags hv hf]
  have hzero : ∀ k < USER, (entryOf s' ⟨p.sz, new⟩ k = 0 ↔ entryOf s p k = 0) := by
    intro k hk
    obtain ⟨h1, h2⟩ | ⟨hne, a, -, -, hmap⟩ := hpage k hk
    · rw [h1, h2]
    · rw [hmap]
      exact ⟨fun hz => absurd hz (entry_ne_zero _ _), fun hz => absurd hz hne⟩
  have hheld : held (entryOf s' ⟨p.sz, new⟩) 0 USER = held (mapping s'.mem new) 0 (pagesUp p.sz) := by
    rw [held_cut hup hnone, hentry]
  have hkeep : owned s' ⟨p.sz, new⟩ + s'.free = tables s.mem new + s.free := by
    have hk := h.edit.keep
    rw [add_zero] at hk
    rw [owned, hheld, add_right_comm, ← hk]
  refine ⟨⟨⟨h.edit.proper, ?_, ?_, hr.whole.size, fun k hk hne => ?_, fun k hk => ?_, fun k hne => ?_⟩,
    hq.low.congr h.edit.top⟩, hkeep, rfl, fun va => ?_, fun k hk => ⟨hzero k hk, hflags k hk⟩⟩
  · rw [hkeep]
    exact Multiset.nodup_iff_count_le_one.mp hr.proper.nodup
  · rw [hheld]
    exact fun y hy => h.edit.toLater.frame.mpr (h.held_free hr hy).2
  · by_contra hge
    exact hne (hnone k (not_lt.mp hge) hk)
  · rw [hhigh k hk]
    exact hq.high k hk
  · by_cases hk : k < USER
    · rw [hflags k hk _ (by decide)]
      exact hr.whole.leaf k fun hz => hne ((hzero k hk).mpr hz)
    · rw [hhigh k (by omega)] at hne ⊢
      exact hq.leaf k hne
  · obtain ⟨k, hk⟩ : ∃ k, k = va / 4096 := ⟨_, rfl⟩
    by_cases hlt : k < USER
    · by_cases hm : Mapped s p k
      · have hm' : Mapped s' ⟨p.sz, new⟩ k := by
          unfold Mapped
          rw [hflags k hlt _ (by decide)]
          exact hm
        rw [hk] at hm hm' hlt
        obtain ⟨-, h2⟩ | ⟨hne, a, hframe, hmem, hmap⟩ := hpage _ hlt
        · exact absurd h2 hm.ne_zero
        · have hpa : PTE2PA (entryOf s' ⟨p.sz, new⟩ (va / 4096)) = a := by
            rw [hmap]
            exact entry_page hframe.1 (flags_lt _)
          rw [view_mapped hm, view_mapped hm', hpa, hmem]
      · have hm' : ¬Mapped s' ⟨p.sz, new⟩ k := by
          unfold Mapped
          rw [hflags k hlt _ (by decide)]
          exact hm
        have hlazy : Lazy s' ⟨p.sz, new⟩ k ↔ Lazy s p k := by
          unfold Lazy
          rw [hzero k hlt]
        rw [hk] at hm hm' hlazy
        by_cases hl : Lazy s p (va / 4096)
        · rw [view_lazy hl, view_lazy (hlazy.mpr hl)]
        · rw [view_none hm hl, view_none hm' (mt hlazy.mp hl)]
    · -- neither has user memory there
      have hm : ¬Mapped s p k := fun hm => hlt (hr.whole.mapped_lt hm)
      have hl : ¬Lazy s p k := fun hl => hlt (hr.whole.toSound.lazy_lt hl)
      have hm' : ¬Mapped s' ⟨p.sz, new⟩ k := by
        unfold Mapped
        rw [hhigh k (by omega)]
        exact fun hm' => hm' (hq.high k (by omega))
      have hl' : ¬Lazy s' ⟨p.sz, new⟩ k := by
        intro hl'
        have h1 := hl'.1
        change k * 4096 < p.sz.toNat at h1
        unfold pagesUp at hup
        omega
      rw [hk] at hm hl hm' hl'
      rw [view_none hm hl, view_none hm' hl']

/-! ### `kfork` -/

/-- The bytes of a `struct trapframe`. -/
def FRAME : ℕ := 288

/-- The register at offset `8 * i` of the trapframe. -/
def reg (s : Ram) (t : Task) (i : Fin 512) : UInt64 := entry (s.mem t.trapframe) i

/-- Where `a0` is in the trapframe. -/
def a0 : Fin 512 := 14

/-- `*(np->trapframe) = *(p->trapframe)`. -/
def copyFrame (p np : UInt64) : Eff Ram Unit := change fun s =>
  { s with mem := Function.update s.mem np fun k => if k.val < FRAME then s.mem p k else s.mem np k }

/-- `kfork`, as far as memory goes. -/
def kfork (trampoline : UInt64) (p : Task) : Eff Ram (Option Task) := do
  match ← allocproc trampoline with
  | none => pure none
  | some np => do
    let r ← uvmcopy p.mem.pagetable np.mem.pagetable p.mem.sz
    if r < 0 then do
      freeproc np
      pure none
    else do
      copyFrame p.trapframe np.trapframe
      assign np.trapframe a0 0
      pure (some ⟨⟨p.mem.sz, np.mem.pagetable⟩, np.trapframe⟩)

lemma entry_copyFrame {pg pg' : Page} {i : Fin 512} (hi : i.val < 36) :
    entry (fun k => if k.val < FRAME then pg k else pg' k) i = entry pg i := by
  have hlt : ∀ j : Fin 8, (slot i j).val < FRAME := by
    intro j
    simp only [slot, FRAME]
    omega
  simp only [entry, hlt, if_true]

/-- What `kfork` comes to. -/
structure Forked (s s' : Ram) (p : Task) (o : Option Task) : Prop where
  act : Act s s' none o
  fail : o = none → s.failed < s'.failed
  room : o ≠ none → s'.failed = s.failed
  same : ∀ c, o = some c → Same s s' p.mem c.mem
  regs : ∀ c, o = some c → ∀ i : Fin 512, i.val < 36 →
    reg s' c i = if i = a0 then 0 else reg s p i

/-- The child has the parent's registers, with zero in `a0`. -/
lemma frame_spec {α : Type} {t c : UInt64} {z : Eff Ram α} {Q : α → Ram → Prop}
    (h : ∀ pg : Page, (∀ i : Fin 512, i.val < 36 →
      entry pg i = if i = a0 then 0 else entry (s.mem t) i) →
        wp may z Q { s with mem := Function.update s.mem c pg }) :
    wp may (copyFrame t c >>= fun _ => assign c a0 0 >>= fun _ => z) Q s := by
  rw [wp_bind, copyFrame, wp_change, wp_bind, assign, wp_change]
  simp only [Ram.put, Function.update_self, Function.update_idem]
  refine h _ fun i hi => ?_
  by_cases ha : i = a0
  · rw [if_pos ha, ha]
    exact entry_setEntry_self
  · rw [if_neg ha, entry_setEntry_ne ha]
    exact entry_copyFrame hi

/-- A process without user memory has the pages of its page table only. -/
lemma owned_bare {trampoline trapframe : UInt64} (h : entryOf s p = kernelMap trampoline trapframe) :
    owned s p = tables s.mem p.pagetable ∧ ∀ k < USER, mapping s.mem p.pagetable k = 0 := by
  have hz : ∀ k < USER, entryOf s p k = 0 := by
    intro k hk
    rw [h, kernelMap, Function.update_of_ne (by omega), Function.update_of_ne (by omega)]
  refine ⟨?_, hz⟩
  rw [owned, held_none fun k _ hk => hz k (by omega), add_zero]

/-- The address space of a new process is ready for a copy of `t`'s. -/
lemma ready_of_new {t c : Task} {trampoline : UInt64} (h : Aside s s' t) (ha : Act s s' none (some c))
    (hone : ∀ x, (Holding.pages s t + s.free).count x ≤ 1)
    (hm : entryOf s' c.mem = kernelMap trampoline c.trapframe) :
    Ready s' t.mem c.mem.pagetable := by
  obtain ⟨hown, hempty⟩ := owned_bare hm
  refine ⟨h.good.whole, (ha.good c rfl).whole.proper, hempty, fun x => ?_⟩
  have hkeep := ha.keep
  rw [has_none, has_some, zero_add, Holding.pages, hown] at hkeep
  have hpages := h.pages
  refine (Multiset.count_le_of_le x ?_).trans (hone x)
  rw [← hpages, ← hkeep, add_assoc]
  refine add_le_add (Multiset.le_add_right _ _) (add_le_add_left ?_ _)
  exact Multiset.le_add_right _ _

/-- The child is made with a copy of the memory and the registers. -/
lemma Copied.forked {s1 s2 s3 : Ram} {t : Task} {tf : UInt64} {pg : Page}
    (hact : Act s s1 none (some ⟨⟨0, new⟩, tf⟩)) (hfail : s1.failed = s.failed) (haside : Aside s s1 t)
    (hready : Ready s1 t.mem new) (hnod : (Holding.pages s1 ⟨⟨0, new⟩, tf⟩ + s1.free).Nodup)
    (hown : owned s1 ⟨0, new⟩ = tables s1.mem new) (hout : t.trapframe ∉ s.free)
    (hc : Copied s1 s2 t.mem new (pagesUp t.mem.sz))
    (h3 : s3 = { s2 with mem := Function.update s2.mem tf pg })
    (hreg : ∀ i : Fin 512, i.val < 36 →
      entry (s3.mem tf) i = if i = a0 then 0 else entry (s2.mem t.trapframe) i) :
    Forked s s3 t (some ⟨⟨t.mem.sz, new⟩, tf⟩) := by
  have hgood := hact.good _ rfl
  obtain ⟨hwhole, hkeep, hsame⟩ := hc.child hready hgood.whole
  have hkeep1 := hact.keep
  rw [has_none, has_some, zero_add] at hkeep1
  -- the trapframe is not a page of the copy
  have htf : tf ∈ s.free ∧ tf ∉ tables s1.mem new + s1.free := by
    rw [← hkeep1]
    rw [Holding.pages, hown, add_right_comm, Multiset.nodup_add] at hnod
    refine ⟨Multiset.mem_add.mpr (.inl (Multiset.mem_add.mpr (.inr ?_))), fun hx =>
      Multiset.disjoint_left.mp hnod.2.2 hx (Multiset.mem_singleton_self _)⟩
    exact Multiset.mem_singleton_self _
  have hmem : ∀ x, x ≠ tf → s3.mem x = s2.mem x := by
    intro x hx
    rw [h3]
    exact Function.update_of_ne hx _ _
  have hfree : s3.free = s2.free := by rw [h3]
  have hl3 : Later s2 s3 := by
    rw [h3]
    exact ⟨rfl, rfl, le_rfl, le_rfl⟩
  have hframe2 : ∀ x, x ∉ s.free → s2.mem x = s.mem x := by
    intro x hx
    have hx' : x ∉ Holding.pages s1 ⟨⟨0, new⟩, tf⟩ + s1.free := by rwa [hkeep1]
    rw [Holding.pages, hown, Multiset.mem_add, Multiset.mem_add, not_or, not_or] at hx'
    rw [hc.edit.frame x hx'.1.1 hx'.2 (Multiset.notMem_zero x),
      hact.other x (by rw [has_none]; exact Multiset.notMem_zero x) hx]
  have hl := (hact.toLater.trans hc.edit.toLater).trans hl3
  obtain ⟨hwhole3, howned3, hentry3, hview3⟩ := hwhole.congr hl3
    (fun x hx => hmem x (by
      rintro rfl
      rw [← hkeep] at htf
      exact htf.2 (Multiset.mem_add.mpr (.inl hx))))
    (by
      rw [hfree, hkeep]
      exact Multiset.nodup_iff_count_le_one.mp hready.proper.nodup)
    (fun x hx => by
      rw [hfree] at hx
      exact hc.edit.proper.frame x (Multiset.mem_add.mpr (.inr hx)))
  refine ⟨⟨hl, ?_, ?_, fun x _ hx => ?_⟩, fun hn => (by cases hn), fun _ => ?_, ?_, ?_⟩
  · rintro _ ⟨⟩
    exact ⟨hwhole3, hl3.frame.mpr (hc.edit.toLater.frame.mpr hgood.frame)⟩
  · rw [has_none, has_some, zero_add, ← hkeep1, Holding.pages, Holding.pages, hfree, howned3,
      add_right_comm, hkeep, hown, add_right_comm]
  · rw [hmem x (by rintro rfl; exact hx htf.1), hframe2 x hx]
  · rw [h3]
    exact hc.same.trans hfail
  · rintro _ ⟨⟩
    refine ⟨hsame.size, fun va => ?_, fun k hk => ?_⟩
    · rw [hview3, hsame.view, haside.view]
    · rw [hentry3, ← haside.entry]
      exact hsame.mapped k hk
  · rintro _ ⟨⟩ i hi
    rw [reg, reg, hreg i hi, hframe2 _ hout]

/-- **`kfork`** makes a child that finds at every address what its parent does, and in every register
but `a0`, or it leaves nothing behind. -/
theorem kfork_spec {t : Task} (h : Good s t) (hone : ∀ x, (Holding.pages s t + s.free).count x ≤ 1)
    (trampoline : UInt64) : wp may (kfork trampoline t) (fun o s' => Forked s s' t o) s := by
  unfold kfork
  refine wp_call (allocproc_spec (Proper.pool h.whole.proper) trampoline) fun o s1 ha => ?_
  obtain ⟨hact, hnone, hsome⟩ := ha
  cases o with
  | none =>
    rw [wp_pure]
    exact ⟨hact, hnone, fun hn => absurd rfl hn, fun _ hn => (by cases hn),
      fun _ hn => (by cases hn)⟩
  | some np =>
    obtain ⟨hfail, hzero, hmap, -⟩ := hsome np rfl
    have hgood := hact.good np rfl
    have haside : Aside s s1 t := h.aside hact (by
      rw [has_none]
      exact fun x hx => absurd hx (Multiset.notMem_zero x)) (by rwa [has_none, zero_add])
    have hready := ready_of_new haside hact hone hmap
    have hkeep := hact.keep
    rw [has_none, has_some, zero_add] at hkeep
    have hout : t.trapframe ∉ s.free := fun hx =>
      Multiset.disjoint_left.mp (Multiset.nodup_add.mp (Multiset.nodup_iff_count_le_one.mpr hone)).2.2
        (Multiset.mem_add.mpr (.inr (Multiset.mem_singleton_self _))) hx
    have hnod : (Holding.pages s1 np + s1.free).Nodup := by
      rw [hkeep]
      exact (Multiset.nodup_add.mp (Multiset.nodup_iff_count_le_one.mpr hone)).2.1
    refine wp_call (uvmcopy_spec hready) fun r s2 hr => ?_
    rcases hr with ⟨rfl, hc⟩ | ⟨rfl, hfail2, he⟩
    swap
    · -- all is given back
      rw [if_pos (by decide)]
      have hmap1 : mapping s1.mem np.mem.pagetable = entryOf s1 np.mem := rfl
      rw [hmap1] at he
      obtain ⟨hch, -⟩ := hgood.whole.toSound.unchanged he
      have hact2 := act_of_kept hgood (kept_of_change hgood.whole hch)
      have hnp : (⟨np.mem, np.trapframe⟩ : Task) = np := rfl
      rw [hnp] at hact2
      have hkeep2 := hact2.keep
      rw [has_some, has_some] at hkeep2
      refine wp_call (freeproc_spec (hact2.good np rfl) ?_) fun _ s3 h3 => ?_
      · rw [hkeep2]
        exact Multiset.nodup_iff_count_le_one.mp hnod
      · obtain ⟨hact3, hfail3⟩ := h3
        rw [wp_pure]
        exact ⟨(hact.trans hact2).trans hact3, fun _ => (by omega), fun hn => absurd rfl hn,
          fun _ hn => (by cases hn), fun _ hn => (by cases hn)⟩
    · rw [if_neg (by decide)]
      obtain ⟨⟨sz, pt⟩, tf⟩ := np
      have hz : sz = 0 := hzero
      rw [hz] at hact hnod hmap
      refine frame_spec fun pg hreg => ?_
      rw [wp_pure]
      refine hc.forked hact hfail haside hready hnod (owned_bare hmap).1 hout rfl fun i hi => ?_
      rw [← hreg i hi]
      exact congrArg (fun pg => entry pg i) (Function.update_self _ _ _)

end Xv6.Vm.Fork
