import Xv6.Vm.Copy
import Xv6.Vm.Grow

/-!
A user address space: a page table, the pages of user memory it maps, each of them once, and what
the process finds at its addresses. Pages below `sz` that are not mapped read as zeros.
-/

namespace Xv6.Vm.Space

open Xv6.Data Xv6.Data.Effect Xv6.Data.Effect.Eff Xv6.Vm.Paging Xv6.Vm.Memory Xv6.Vm.Table
  Xv6.Vm.Tree Xv6.Vm.Walk Xv6.Vm.Maps Xv6.Vm.Grow Xv6.Vm.Copy

/-- The virtual pages of user memory. -/
@[irreducible] def USER : ℕ := vpn TRAPFRAME

/-- What page `k` of `p` is mapped by. -/
def entryOf (s : Ram) (p : Proc) (k : ℕ) : UInt64 := mapping s.mem p.pagetable k

/-- The pages of `p`, of its page table and of its user memory. -/
def owned (s : Ram) (p : Proc) : Multiset UInt64 :=
  tables s.mem p.pagetable + held (entryOf s p) 0 USER

/-- The address space of a process. -/
structure Sound (s : Ram) (p : Proc) : Prop where
  proper : Proper 2 s p.pagetable
  once : ∀ x, (owned s p + s.free).count x ≤ 1
  frame : ∀ x ∈ held (entryOf s p) 0 USER, s.Frame x
  size : p.sz ≤ TRAPFRAME
  below : ∀ k < USER, entryOf s p k ≠ 0 → k < pagesUp p.sz
  /-- The pages of the trampoline and the trapframe are not for user code. -/
  high : ∀ k, USER ≤ k → entryOf s p k &&& PTE_U = 0
  leaf : ∀ k, entryOf s p k ≠ 0 → entryOf s p k &&& PTE_R ≠ 0

/-- Page `k` is mapped for user code. -/
def Mapped (s : Ram) (p : Proc) (k : ℕ) : Prop := entryOf s p k &&& PTE_U ≠ 0

/-- Page `k` belongs to `p`, but has not been allocated. -/
def Lazy (s : Ram) (p : Proc) (k : ℕ) : Prop := k * 4096 < p.sz.toNat ∧ entryOf s p k = 0

/-- Page `k` is mapped for user code to write. -/
def Writable (s : Ram) (p : Proc) (k : ℕ) : Prop := Mapped s p k ∧ entryOf s p k &&& PTE_W ≠ 0

instance (s : Ram) (p : Proc) (k : ℕ) : Decidable (Mapped s p k) :=
  inferInstanceAs (Decidable (¬_ = _))

instance (s : Ram) (p : Proc) (k : ℕ) : Decidable (Lazy s p k) :=
  inferInstanceAs (Decidable (_ ∧ _))

lemma low_lt (va : ℕ) : va % 4096 < 4096 := Nat.mod_lt _ (by decide)

/-- The byte at the user address `va`. -/
def view (s : Ram) (p : Proc) (va : ℕ) : Option UInt8 :=
  if Mapped s p (va / 4096) then
    some (s.mem (PTE2PA (entryOf s p (va / 4096))) ⟨va % 4096, low_lt va⟩)
  else if Lazy s p (va / 4096) then some 0
  else none

variable {s s' s'' : Ram} {p : Proc} {a b va e : UInt64} {k l n : ℕ} {R R' : ℕ → Prop}
  {may : String → Prop}

lemma USER_eq : USER = 67108862 := by
  unfold USER
  rfl

lemma Mapped.ne_zero (h : Mapped s p k) : entryOf s p k ≠ 0 := by
  intro hz
  unfold Mapped at h
  rw [hz] at h
  exact h UInt64.zero_and

lemma Sound.mapped_lt (h : Sound s p) (hk : Mapped s p k) : k < USER := by
  by_contra hle
  exact hk (h.high k (by omega))

lemma Sound.lazy_lt (h : Sound s p) (hk : Lazy s p k) : k < USER := by
  have h1 : p.sz.toNat ≤ TRAPFRAME.toNat := h.size
  have h2 : TRAPFRAME.toNat = 67108862 * 4096 := rfl
  have h3 := hk.1
  rw [USER_eq]
  omega

lemma USER_lt : USER < PAGES := by
  rw [USER_eq, PAGES_eq]
  omega

lemma Sound.nodup (h : Sound s p) : (owned s p + s.free).Nodup :=
  Multiset.nodup_iff_count_le_one.mpr h.once

lemma Sound.mem_held (_h : Sound s p) (hk : k < USER) (hne : entryOf s p k ≠ 0) :
    PTE2PA (entryOf s p k) ∈ held (entryOf s p) 0 USER :=
  Maps.mem_held.mpr ⟨k, Nat.zero_le _, by omega, hne, rfl⟩

/-- What user memory is mapped to is no table and not free. -/
lemma Sound.out (h : Sound s p) {x : UInt64} (hx : x ∈ held (entryOf s p) 0 USER) :
    x ∉ tables s.mem p.pagetable ∧ x ∉ s.free := by
  have hn := h.nodup
  have h1 := (Multiset.nodup_add.mp (Multiset.nodup_add.mp hn).1).2.2
  have h2 := (Multiset.nodup_add.mp hn).2.2
  exact ⟨fun ht => Multiset.disjoint_left.mp h1 ht hx,
    fun hf => Multiset.disjoint_left.mp h2 (Multiset.mem_add.mpr (.inr hx)) hf⟩

lemma held_inj {m : ℕ → UInt64} {lo : ℕ} (h : (held m lo n).Nodup) (hk : lo ≤ k ∧ k < lo + n)
    (hl : lo ≤ l ∧ l < lo + n) (hne : m k ≠ 0) (hne' : m l ≠ 0)
    (heq : PTE2PA (m k) = PTE2PA (m l)) : k = l := by
  induction n generalizing lo with
  | zero => omega
  | succ n ih =>
    rw [held_succ] at h
    obtain ⟨-, hrest, hdis⟩ := Multiset.nodup_add.mp h
    have hin : ∀ j, lo + 1 ≤ j → j < lo + 1 + n → m j ≠ 0 → PTE2PA (m j) ∈ held m (lo + 1) n :=
      fun j h1 h2 h3 => Maps.mem_held.mpr ⟨j, h1, h2, h3, rfl⟩
    by_cases hklo : k = lo
    · by_cases hllo : l = lo
      · omega
      · subst hklo
        rw [pages_of_ne hne] at hdis
        refine absurd (hin l (by omega) (by omega) hne') ?_
        rw [← heq]
        exact Multiset.disjoint_left.mp hdis (Multiset.mem_singleton_self _)
    · by_cases hllo : l = lo
      · subst hllo
        rw [pages_of_ne hne'] at hdis
        refine absurd (hin k (by omega) (by omega) hne) ?_
        rw [heq]
        exact Multiset.disjoint_left.mp hdis (Multiset.mem_singleton_self _)
      · exact ih hrest (by omega) (by omega)

/-- Two pages of user memory are not mapped to the same page. -/
theorem Sound.inj (h : Sound s p) (hk : k < USER) (hl : l < USER) (hne : entryOf s p k ≠ 0)
    (hne' : entryOf s p l ≠ 0) (heq : PTE2PA (entryOf s p k) = PTE2PA (entryOf s p l)) : k = l :=
  held_inj (Multiset.nodup_add.mp (Multiset.nodup_add.mp h.nodup).1).2.1 (by omega) (by omega) hne
    hne' heq

/-! ### What an address space goes through -/

/-- Flags of a page that `vmfault` allocates. -/
def FAULT : UInt64 := PTE_W ||| PTE_U ||| PTE_R

/-- Pages of `p` in `R` that had not been allocated may have been, and the contents of its pages
may have changed. -/
structure Change (s s' : Ram) (p : Proc) (R : ℕ → Prop) : Prop extends Later s s' where
  sound : Sound s' p
  keep : owned s' p + s'.free = owned s p + s.free
  map : ∀ k, entryOf s' p k = entryOf s p k ∨
    R k ∧ Lazy s p k ∧ ∃ a, entryOf s' p k = PA2PTE a ||| FAULT ||| PTE_V
  frame : ∀ x, x ∉ owned s p → x ∉ s.free → s'.mem x = s.mem x
  top : ∀ i : Fin 512, 256 ≤ i.val → entry (s'.mem p.pagetable) i = entry (s.mem p.pagetable) i

lemma Change.refl (h : Sound s p) : Change s s p R :=
  ⟨Later.refl s, h, rfl, fun _ => .inl rfl, fun _ _ _ => rfl, fun _ _ => rfl⟩

lemma Change.mono (h : Change s s' p R) (hR : ∀ k, R k → R' k) : Change s s' p R' :=
  ⟨h.toLater, h.sound, h.keep, fun k => (h.map k).imp_right fun hk => ⟨hR k hk.1, hk.2⟩, h.frame,
    h.top⟩

lemma Change.trans (h : Change s s' p R) (h' : Change s' s'' p R) : Change s s'' p R := by
  refine ⟨h.toLater.trans h'.toLater, h'.sound, h'.keep.trans h.keep, fun k => ?_,
    fun x h1 h2 => ?_, fun i hi => (h'.top i hi).trans (h.top i hi)⟩
  · rcases h'.map k with hk' | ⟨hR, hlazy, a, ha⟩
    · rw [hk']
      exact h.map k
    · rcases h.map k with hk | hk
      · refine .inr ⟨hR, ⟨hlazy.1, by rw [← hk]; exact hlazy.2⟩, a, ha⟩
      · obtain ⟨-, -, b, hb⟩ := hk
        have hz := hlazy.2
        rw [hb] at hz
        exact absurd hz (entry_ne_zero b FAULT)
  · have hout : x ∉ owned s' p + s'.free := by
      rw [h.keep, Multiset.mem_add, not_or]
      exact ⟨h1, h2⟩
    rw [Multiset.mem_add, not_or] at hout
    rw [h'.frame x hout.1 hout.2, h.frame x h1 h2]

lemma once_of_keep (h : Sound s p) (hk : owned s' p + s'.free = owned s p + s.free) :
    ∀ x, (owned s' p + s'.free).count x ≤ 1 := by
  rw [hk]
  exact h.once

lemma view_mapped {va : ℕ} (h : Mapped s p (va / 4096)) :
    view s p va = some (s.mem (PTE2PA (entryOf s p (va / 4096))) ⟨va % 4096, low_lt va⟩) := if_pos h

lemma view_lazy {va : ℕ} (h : Lazy s p (va / 4096)) : view s p va = some 0 := by
  have hn : ¬Mapped s p (va / 4096) := fun hm => hm.ne_zero h.2
  rw [view, if_neg hn, if_pos h]

lemma view_none {va : ℕ} (h : ¬Mapped s p (va / 4096)) (h' : ¬Lazy s p (va / 4096)) :
    view s p va = none := by
  rw [view, if_neg h, if_neg h']

lemma Mapped.congr (he : entryOf s' p k = entryOf s p k) : Mapped s' p k ↔ Mapped s p k := by
  unfold Mapped
  rw [he]

lemma Lazy.congr (he : entryOf s' p k = entryOf s p k) : Lazy s' p k ↔ Lazy s p k := by
  unfold Lazy
  rw [he]

/-- Contents of user memory are what they were while their pages are. -/
lemma view_same {va : ℕ} (he : entryOf s' p (va / 4096) = entryOf s p (va / 4096))
    (hm : Mapped s p (va / 4096) →
      s'.mem (PTE2PA (entryOf s p (va / 4096))) = s.mem (PTE2PA (entryOf s p (va / 4096)))) :
    view s' p va = view s p va := by
  by_cases hmap : Mapped s p (va / 4096)
  · rw [view_mapped hmap, view_mapped ((Mapped.congr he).mpr hmap), he, hm hmap]
  · have hmap' := mt (Mapped.congr he).mp hmap
    by_cases hlazy : Lazy s p (va / 4096)
    · rw [view_lazy hlazy, view_lazy ((Lazy.congr he).mpr hlazy)]
    · rw [view_none hmap hlazy, view_none hmap' (mt (Lazy.congr he).mp hlazy)]

lemma Sound.kept (h : Sound s p) {x : UInt64} (hx : x ∈ held (entryOf s p) 0 USER)
    {out inn : Multiset UInt64} {m : ℕ → UInt64} (he : Edit s s' p.pagetable m out inn)
    (hinn : x ∉ inn) : s'.mem x = s.mem x :=
  he.frame x (h.out hx).1 (h.out hx).2 hinn

/-- Nothing is mapped otherwise. -/
lemma Sound.unchanged (h : Sound s p) (he : Edit s s' p.pagetable (entryOf s p) 0 0) :
    Change s s' p (fun _ => False) ∧ ∀ va, view s' p va = view s p va := by
  have hentry : entryOf s' p = entryOf s p := he.map
  have hkeep : owned s' p + s'.free = owned s p + s.free := by
    have hk := he.keep
    rw [add_zero, add_zero] at hk
    unfold owned
    rw [hentry, add_right_comm, hk, add_right_comm]
  refine ⟨⟨he.toLater, ⟨he.proper, once_of_keep h hkeep, ?_, h.size, ?_, ?_, ?_⟩, hkeep,
    fun k => .inl (congrFun hentry k), fun x h1 h2 => ?_, he.top⟩, fun va => ?_⟩
  · rw [hentry]
    exact fun x hx => he.toLater.frame.mpr (h.frame x hx)
  · rw [hentry]
    exact h.below
  · rw [hentry]
    exact h.high
  · rw [hentry]
    exact h.leaf
  · refine he.frame x (fun ht => h1 (Multiset.mem_add.mpr (.inl ht))) h2 (Multiset.notMem_zero x)
  · exact view_same (congrFun hentry _) fun hm =>
      h.kept (h.mem_held (h.mapped_lt hm) hm.ne_zero) he (Multiset.notMem_zero _)

/-- A page that had not been allocated is mapped. -/
lemma Sound.faulted (h : Sound s p) (hlazy : Lazy s p k)
    (he : Edit s s' p.pagetable
      (Function.update (entryOf s p) k (PA2PTE a ||| FAULT ||| PTE_V)) {a} 0)
    (ha : a ∈ s.free) (hz : s'.mem a = filled 0) :
    Change s s' p (· = k) ∧ ∀ va, view s' p va = view s p va := by
  have hentry : entryOf s' p = Function.update (entryOf s p) k (PA2PTE a ||| FAULT ||| PTE_V) :=
    he.map
  have hnew : entryOf s' p k = PA2PTE a ||| FAULT ||| PTE_V := by
    rw [hentry, Function.update_self]
  have hold : ∀ l, l ≠ k → entryOf s' p l = entryOf s p l := fun l hl => by
    rw [hentry, Function.update_of_ne hl]
  have hk := h.lazy_lt hlazy
  have hframe : s.Frame a := h.proper.frame a (Multiset.mem_add.mpr (.inr ha))
  have hpage : PTE2PA (PA2PTE a ||| FAULT ||| PTE_V) = a := entry_page hframe.1 (by decide)
  have hheld : held (entryOf s' p) 0 USER = held (entryOf s p) 0 USER + {a} := by
    rw [hentry, held_update (Nat.zero_le _) (by omega) hlazy.2, pages_of_ne (entry_ne_zero a FAULT),
      hpage]
  have hkeep : owned s' p + s'.free = owned s p + s.free := by
    have hk := he.keep
    rw [add_zero] at hk
    unfold owned
    calc tables s'.mem p.pagetable + held (entryOf s' p) 0 USER + s'.free
        = tables s'.mem p.pagetable + s'.free + {a} + held (entryOf s p) 0 USER := by
          rw [hheld]; abel
      _ = tables s.mem p.pagetable + held (entryOf s p) 0 USER + s.free := by rw [hk]; abel
  have hflag : ∀ f : UInt64, f.toNat < 1024 → (FAULT ||| PTE_V) &&& f ≠ 0 →
      entryOf s' p k &&& f ≠ 0 := by
    intro f hf hne
    rw [hnew, UInt64.or_assoc, entry_and hf]
    exact hne
  have hR := hflag PTE_R (by decide) (by decide)
  have hU : Mapped s' p k := hflag PTE_U (by decide) (by decide)
  refine ⟨⟨he.toLater, ⟨he.proper, once_of_keep h hkeep, ?_, h.size, fun l hl hne => ?_,
    fun l hl => ?_, fun l hne => ?_⟩, hkeep, fun l => ?_, fun x h1 h2 => ?_, he.top⟩, fun va => ?_⟩
  · rw [hheld]
    intro x hx
    rcases Multiset.mem_add.mp hx with hx | hx
    · exact he.toLater.frame.mpr (h.frame x hx)
    · rw [Multiset.mem_singleton.mp hx]
      exact he.toLater.frame.mpr hframe
  · by_cases hlk : l = k
    · subst hlk
      have hlt := hlazy.1
      unfold pagesUp
      omega
    · rw [hold l hlk] at hne
      exact h.below l hl hne
  · rw [hold l (by omega)]
    exact h.high l hl
  · by_cases hlk : l = k
    · subst hlk
      exact hR
    · rw [hold l hlk] at hne ⊢
      exact h.leaf l hne
  · by_cases hlk : l = k
    · subst hlk
      exact .inr ⟨rfl, hlazy, a, hnew⟩
    · exact .inl (hold l hlk)
  · exact he.frame x (fun ht => h1 (Multiset.mem_add.mpr (.inl ht))) h2 (Multiset.notMem_zero x)
  · by_cases hva : va / 4096 = k
    · subst hva
      rw [view_mapped hU, view_lazy hlazy, hnew, hpage, hz]
      rfl
    · exact view_same (hold _ hva) fun hm =>
        h.kept (h.mem_held (h.mapped_lt hm) hm.ne_zero) he (Multiset.notMem_zero _)

/-- A page of user memory is written to. -/
lemma Sound.written (h : Sound s p) (hm : Mapped s p k) {pg : Page}
    (hmem : s'.mem = Function.update s.mem (PTE2PA (entryOf s p k)) pg) (hl : Later s s')
    (hf : s'.free = s.free) : Change s s' p (fun _ => False) ∧
      ∀ va, view s' p va = if va / 4096 = k then some (pg ⟨va % 4096, low_lt va⟩) else view s p va := by
  have hk := h.mapped_lt hm
  have hin := h.mem_held hk hm.ne_zero
  obtain ⟨hout, hfree⟩ := h.out hin
  have hother : ∀ y, y ≠ PTE2PA (entryOf s p k) → s'.mem y = s.mem y := by
    intro y hy
    rw [hmem, Function.update_of_ne hy]
  obtain ⟨hproper, htab, hmap⟩ := edit_congr h.proper hl hf fun y hy => hother y (by
    rintro rfl
    exact hy.elim hout hfree)
  have hentry : entryOf s' p = entryOf s p := hmap
  have hkeep : owned s' p + s'.free = owned s p + s.free := by
    unfold owned
    rw [hentry, htab, hf]
  refine ⟨⟨hl, ⟨hproper, once_of_keep h hkeep, ?_, h.size, ?_, ?_, ?_⟩, hkeep,
    fun l => .inl (congrFun hentry l), fun x h1 _ => hother x ?_, fun i _ => ?_⟩, fun va => ?_⟩
  · rw [hentry]
    exact fun x hx => hl.frame.mpr (h.frame x hx)
  · rw [hentry]
    exact h.below
  · rw [hentry]
    exact h.high
  · rw [hentry]
    exact h.leaf
  · rintro rfl
    exact h1 (Multiset.mem_add.mpr (.inr hin))
  · rw [hother p.pagetable]
    intro hroot
    rw [← hroot] at hout
    exact hout Radix.self_mem_nodes
  · by_cases hva : va / 4096 = k
    · subst hva
      rw [if_pos rfl, view_mapped ((Mapped.congr (congrFun hentry _)).mpr hm), congrFun hentry,
        hmem, Function.update_self]
    · rw [if_neg hva]
      refine view_same (congrFun hentry _) fun hm' => hother _ fun heq => hva ?_
      exact h.inj (h.mapped_lt hm') hk hm'.ne_zero hm.ne_zero heq

/-! ### A process that has touched none of its memory -/

/-- Nothing is mapped yet. -/
lemma sound_zero (h : Proper 2 s p.pagetable) (hz : mapping s.mem p.pagetable = fun _ => 0)
    (hsz : p.sz ≤ TRAPFRAME) : Sound s p := by
  have hentry : entryOf s p = fun _ => 0 := hz
  have hheld : held (entryOf s p) 0 USER = 0 := by
    rw [hentry]
    refine Multiset.eq_zero_of_forall_notMem fun x hx => ?_
    obtain ⟨k, -, -, hne, -⟩ := Maps.mem_held.mp hx
    exact hne rfl
  have howned : owned s p = tables s.mem p.pagetable := by
    rw [owned, hheld, add_zero]
  refine ⟨h, ?_, ?_, hsz, ?_, ?_, ?_⟩
  · rw [howned]
    exact Multiset.nodup_iff_count_le_one.mp h.nodup
  · rw [hheld]
    exact fun x hx => absurd hx (Multiset.notMem_zero x)
  · rw [hentry]
    exact fun k _ hk => absurd rfl hk
  · rw [hentry]
    exact fun k _ => UInt64.zero_and
  · rw [hentry]
    exact fun k hk => absurd rfl hk

lemma sound_fresh {sz : UInt64} (h : Pool s) (ha : s.Frame a) (hf : a ∉ s.free)
    (hz : s.mem a = filled 0) (hsz : sz ≤ TRAPFRAME) : Sound s ⟨sz, a⟩ := by
  obtain ⟨hproper, -, hmap⟩ := proper_zero h ha hf hz
  exact sound_zero (p := ⟨sz, a⟩) hproper hmap hsz

/-- Eight pages, of which the first has been taken for a page table. -/
def room : Ram where
  mem _ := filled 0
  free := {0x80002000, 0x80003000, 0x80004000, 0x80005000, 0x80006000, 0x80007000, 0x80008000}
  pick n := UInt64.ofNat (0x80002000 + 4096 * n)
  calls := 0
  failed := 0
  kend := 0x80001000

/-- A process with two pages of memory. -/
def young : Proc := ⟨8192, 0x80001000⟩

lemma pool_room : Pool room := by
  have hall : ∀ p ∈ room.free, room.Frame p := by
    simp only [room, Multiset.insert_eq_cons, Multiset.forall_mem_cons, Multiset.mem_singleton,
      forall_eq]
    decide +kernel
  exact ⟨by decide +kernel, hall, by decide +kernel⟩

lemma sound_young : Sound room young :=
  sound_fresh pool_room (by decide +kernel) (by decide +kernel) rfl (by decide +kernel)

end Xv6.Vm.Space
