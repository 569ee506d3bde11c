import Xv6.Vm.Table

/-!
A page table is a radix tree of depth 2 in physical memory, whose nodes are neither met twice nor
free. What is said of it: the pages it is made of, and which entry maps a virtual page.
-/

namespace Xv6.Vm.Tree

open Xv6.Data Xv6.Data.Effect Xv6.Data.Effect.Eff Xv6.Vm.Paging Xv6.Vm.Memory Xv6.Vm.Table

/-- The page that a valid entry leads to. -/
def child (e : UInt64) : Option UInt64 := if e &&& PTE_V ≠ 0 then some (PTE2PA e) else none

def entries (mem : UInt64 → Page) (a : UInt64) (i : Fin 512) : UInt64 := entry (mem a) i

/-- The page-table pages of `pt`. -/
def tables (mem : UInt64 → Page) (pt : UInt64) : Multiset UInt64 :=
  Radix.nodes child (entries mem) 2 pt

/-- The indices of page `k` from `level` down to 1. -/
def steps (k : ℕ) : ℕ → List (Fin 512)
  | 0 => []
  | level + 1 => Fin.ofNat 512 (k / 512 ^ (level + 1)) :: steps k level

/-- The pages below `MAXVA`. -/
@[irreducible] def PAGES : ℕ := 2 ^ 26

lemma PAGES_eq : PAGES = 67108864 := by
  unfold PAGES
  rfl

/-- The page-table page that has the entry of page `k`. -/
def table (mem : UInt64 → Page) (pt : UInt64) (k : ℕ) : Option UInt64 :=
  Radix.find child (entries mem) (steps k 2) pt

/-- Where the entry of page `k` is. -/
def leaf (mem : UInt64 → Page) (pt : UInt64) (k : ℕ) : Pte :=
  (table mem pt k).map fun t => (t, Fin.ofNat 512 k)

/-- The valid entry that maps page `k`, or 0. -/
def mapping (mem : UInt64 → Page) (pt : UInt64) (k : ℕ) : UInt64 :=
  if k < PAGES then
    match table mem pt k with
    | none => 0
    | some t => if entry (mem t) (Fin.ofNat 512 k) &&& PTE_V ≠ 0 then
        entry (mem t) (Fin.ofNat 512 k) else 0
  else 0

/-- `pt` is a table with `d` levels of tables below it, apart from the free pages. -/
structure Proper (d : ℕ) (s : Ram) (pt : UInt64) : Prop where
  nodup : (Radix.nodes child (entries s.mem) d pt + s.free).Nodup
  frame : ∀ p ∈ Radix.nodes child (entries s.mem) d pt + s.free, s.Frame p
  /-- Entries of the upper levels have no flags but `PTE_V`. -/
  inner : ∀ p a, p.length < d → Radix.find child (entries s.mem) p pt = some a → ∀ i,
    entry (s.mem a) i &&& PTE_V ≠ 0 → entry (s.mem a) i &&& (PTE_R ||| PTE_W ||| PTE_X) = 0
  kend : KERNBASE ≤ s.kend

/-! ### Bits -/

variable {s s' : Ram} {pt a b va e : UInt64} {i j : Fin 512} {k l : ℕ} {p q : List (Fin 512)}

lemma PX_eq {level : ℕ} (hl : level ≤ 2) (va : UInt64) :
    PX level va = Fin.ofNat 512 (vpn va / 512 ^ level) := by
  refine Fin.ext ?_
  change _ = vpn va / 512 ^ level % 512
  interval_cases level
  · rw [PX_zero, pow_zero, Nat.div_one]
  · rw [PX_one, pow_one]
  · rw [PX_two, pow_two]

lemma frame_ne_zero (hk : KERNBASE ≤ s.kend) (h : s.Frame a) : a ≠ 0 := by
  rintro rfl
  have h1 : (0x80000000 : ℕ) ≤ s.kend.toNat := hk
  have h2 : s.kend.toNat ≤ (0 : ℕ) := h.2.1
  omega

lemma and_V (e : UInt64) : (e &&& PTE_V).toNat = e.toNat % 2 := by
  rw [UInt64.toNat_and]
  exact and_low _ 1

lemma valid_iff : e &&& PTE_V ≠ 0 ↔ e.toNat % 2 = 1 := by
  rw [Ne, ← UInt64.toNat_inj, and_V]
  change ¬e.toNat % 2 = 0 ↔ _
  omega

lemma valid_or (e : UInt64) : (e ||| PTE_V) &&& PTE_V ≠ 0 := by
  intro h
  have hbit := congrArg (fun w => w.toNat.testBit 0) h
  simp only [UInt64.toNat_and, UInt64.toNat_or, Nat.testBit_and, Nat.testBit_or] at hbit
  have hV : PTE_V.toNat.testBit 0 = true := by decide
  rw [hV] at hbit
  simp at hbit

lemma child_entry (h : a.toNat % 4096 = 0) : child (PA2PTE a ||| PTE_V) = some a := by
  rw [child, if_pos (valid_or _), PTE2PA_entry h (by decide)]

lemma child_eq_none : child e = none ↔ e &&& PTE_V = 0 := by
  simp [child]

lemma child_eq_some : child e = some a ↔ e &&& PTE_V ≠ 0 ∧ PTE2PA e = a := by
  simp [child]

lemma entry_flags (a : UInt64) : (PA2PTE a ||| PTE_V) &&& (PTE_R ||| PTE_W ||| PTE_X) = 0 := by
  rw [entry_and (by decide)]
  decide

/-! ### One page changes -/

lemma entries_update (mem : UInt64 → Page) (e : UInt64) :
    entries (Function.update mem a (setEntry (mem a) i e)) = Radix.set (entries mem) a i e := by
  funext b j
  by_cases hb : b = a
  · subst hb
    by_cases hj : j = i
    · subst hj
      rw [Radix.set_self, entries, Function.update_self, entry_setEntry_self]
    · rw [Radix.set_entry hj, entries, Function.update_self, entry_setEntry_ne hj, entries]
  · rw [Radix.set_node hb, entries, Function.update_of_ne hb, entries]

lemma entries_update_ne {mem : UInt64 → Page} {pg : Page} (h : b ≠ a) :
    entries (Function.update mem a pg) b = entries mem b := by
  funext j
  rw [entries, Function.update_of_ne h, entries]

lemma agree_update {mem : UInt64 → Page} {d : ℕ} {pg : Page}
    (h : a ∉ Radix.nodes child (entries mem) d pt) :
    Radix.Agree child (entries mem) (entries (Function.update mem a pg)) d pt :=
  Radix.agree_of_eq fun b hb => entries_update_ne (by rintro rfl; exact h hb)

/-! ### Entries of the last level -/

lemma steps_inj (hk : k < PAGES) (hl : l < PAGES) (h : steps k 2 = steps l 2)
    (hi : Fin.ofNat 512 k = Fin.ofNat 512 l) : k = l := by
  simp only [steps, List.cons.injEq, and_true] at h
  have h2 : k / 512 ^ 2 % 512 = l / 512 ^ 2 % 512 := congrArg Fin.val h.1
  have h1 : k / 512 ^ 1 % 512 = l / 512 ^ 1 % 512 := congrArg Fin.val h.2
  have h0 : k % 512 = l % 512 := congrArg Fin.val hi
  rw [PAGES_eq] at hk hl
  omega

lemma table_mem (h : table s.mem pt k = some a) : a ∈ tables s.mem pt :=
  Radix.mem_nodes.mpr ⟨steps k 2, le_rfl, h⟩

/-- Two pages do not share an entry. -/
theorem leaf_inj (h : Proper 2 s pt) (hk : k < PAGES) (hl : l < PAGES)
    (ht : table s.mem pt k = some a) (hu : table s.mem pt l = some a)
    (hi : Fin.ofNat 512 k = Fin.ofNat 512 l) : k = l :=
  steps_inj hk hl (Radix.find_inj (Multiset.nodup_add.mp h.nodup).1 ht hu le_rfl le_rfl) hi

lemma mapping_of_table (hk : k < PAGES) (h : table s.mem pt k = some a) :
    mapping s.mem pt k = if entry (s.mem a) (Fin.ofNat 512 k) &&& PTE_V ≠ 0 then
      entry (s.mem a) (Fin.ofNat 512 k) else 0 := by
  unfold mapping
  rw [if_pos hk, h]

lemma mapping_of_none (h : table s.mem pt k = none) : mapping s.mem pt k = 0 := by
  unfold mapping
  rw [h]
  split_ifs <;> rfl

lemma mapping_of_le (h : PAGES ≤ k) : mapping s.mem pt k = 0 := if_neg (by omega)

/-- `mapping` is 0 or a valid entry. -/
lemma mapping_valid (h : mapping s.mem pt k ≠ 0) : mapping s.mem pt k &&& PTE_V ≠ 0 := by
  by_cases hk : k < PAGES
  · cases ht : table s.mem pt k with
    | none => exact absurd (mapping_of_none ht) h
    | some t =>
      rw [mapping_of_table hk ht] at h ⊢
      split_ifs at h ⊢ with hv
      · exact hv
      · exact absurd rfl h
  · exact absurd (mapping_of_le (by omega)) h

/-- The page that `k` is mapped to. -/
lemma mapping_table (h : mapping s.mem pt k ≠ 0) : k < PAGES ∧ ∃ t, table s.mem pt k = some t ∧
    entry (s.mem t) (Fin.ofNat 512 k) = mapping s.mem pt k := by
  have hk : k < PAGES := by
    by_contra hle
    exact h (mapping_of_le (by omega))
  refine ⟨hk, ?_⟩
  cases ht : table s.mem pt k with
  | none => exact absurd (mapping_of_none ht) h
  | some t =>
    rw [mapping_of_table hk ht] at h ⊢
    refine ⟨t, rfl, ?_⟩
    split_ifs at h ⊢
    · rfl
    · exact absurd rfl h

lemma table_congr {mem : UInt64 → Page} (h : ∀ x ∈ tables s.mem pt, mem x = s.mem x) :
    table mem pt k = table s.mem pt k := by
  have hagree : Radix.Agree child (entries s.mem) (entries mem) 2 pt := by
    refine Radix.agree_of_eq fun x hx => funext fun i => ?_
    rw [entries, h x hx, entries]
  exact Radix.find_congr hagree le_rfl

/-- Nothing is mapped otherwise while the page-table pages stay as they are. -/
lemma mapping_congr {mem : UInt64 → Page} (h : ∀ x ∈ tables s.mem pt, mem x = s.mem x) :
    mapping mem pt = mapping s.mem pt := by
  funext k
  unfold mapping
  rw [table_congr h]
  cases ht : table s.mem pt k with
  | none => rfl
  | some t =>
    have := h t (table_mem ht)
    simp only [this]

lemma tables_congr {mem : UInt64 → Page} (h : ∀ x ∈ tables s.mem pt, mem x = s.mem x) :
    tables mem pt = tables s.mem pt := by
  refine Radix.nodes_congr (Radix.agree_of_eq fun x hx => funext fun i => ?_)
  rw [entries, h x hx, entries]

/-- Pages that are no tables change, and the free pages with them. -/
lemma Proper.congr {d : ℕ} (h : Proper d s pt)
    (hm : ∀ x ∈ Radix.nodes child (entries s.mem) d pt, s'.mem x = s.mem x)
    (hk : s'.kend = s.kend)
    (hn : (Radix.nodes child (entries s.mem) d pt + s'.free).Nodup)
    (hf : ∀ x ∈ s'.free, s.Frame x) : Proper d s' pt := by
  have hagree : Radix.Agree child (entries s.mem) (entries s'.mem) d pt := by
    refine Radix.agree_of_eq fun x hx => funext fun i => ?_
    rw [entries, hm x hx, entries]
  have hnodes := Radix.nodes_congr hagree
  refine ⟨by rwa [hnodes], fun x hx => ?_, fun p a hp hfind i => ?_, by rw [hk]; exact h.kend⟩
  · rw [hnodes] at hx
    unfold Ram.Frame
    rw [hk]
    rcases Multiset.mem_add.mp hx with hx | hx
    · exact h.frame x (Multiset.mem_add.mpr (.inl hx))
    · exact hf x hx
  · rw [Radix.find_congr hagree hp.le] at hfind
    rw [hm a (Radix.mem_nodes.mpr ⟨p, hp.le, hfind⟩)]
    exact h.inner p a hp hfind i

/-- An entry of the last level is assigned. -/
lemma assign_leaf (h : Proper 2 s pt) (ht : table s.mem pt k = some a)
    (hm : s'.mem = Function.update s.mem a (setEntry (s.mem a) (Fin.ofNat 512 k) e))
    (hf : s'.free = s.free) (hk : s'.kend = s.kend) :
    Proper 2 s' pt ∧ tables s'.mem pt = tables s.mem pt ∧ table s'.mem pt = table s.mem pt := by
  have hset : entries s'.mem = Radix.set (entries s.mem) a (Fin.ofNat 512 k) e := by
    rw [hm]
    exact entries_update s.mem e
  have hagree : Radix.Agree child (entries s.mem) (entries s'.mem) 2 pt := by
    rw [hset]
    exact Radix.agree_set (Multiset.nodup_add.mp h.nodup).1 rfl ht
  have hnodes := Radix.nodes_congr hagree
  refine ⟨⟨?_, ?_, fun p b hp hfind i => ?_, ?_⟩, hnodes, ?_⟩
  · rw [hnodes, hf]
    exact h.nodup
  · rw [hnodes, hf]
    unfold Ram.Frame
    rw [hk]
    exact h.frame
  · have hb := hfind
    rw [Radix.find_congr hagree hp.le] at hb
    have hba : b ≠ a := by
      rintro rfl
      have := Radix.find_inj (Multiset.nodup_add.mp h.nodup).1 hb ht hp.le le_rfl
      rw [this] at hp
      exact absurd hp (lt_irrefl _)
    rw [hm, Function.update_of_ne hba]
    exact h.inner p b hp hb i
  · rw [hk]
    exact h.kend
  · funext l
    exact Radix.find_congr hagree le_rfl

/-- What is mapped after an entry of the last level is assigned. -/
lemma mapping_assign (h : Proper 2 s pt) (hk : k < PAGES) (ht : table s.mem pt k = some a)
    (hm : s'.mem = Function.update s.mem a (setEntry (s.mem a) (Fin.ofNat 512 k) e))
    (htable : table s'.mem pt = table s.mem pt) :
    mapping s'.mem pt =
      Function.update (mapping s.mem pt) k (if e &&& PTE_V ≠ 0 then e else 0) := by
  funext l
  by_cases hl : l < PAGES
  · by_cases hlk : l = k
    · subst hlk
      rw [Function.update_self, mapping_of_table hl (a := a) (by rw [htable, ht]), hm,
        Function.update_self, entry_setEntry_self]
    · rw [Function.update_of_ne hlk]
      cases hu : table s.mem pt l with
      | none => rw [mapping_of_none hu, mapping_of_none (by rw [htable, hu])]
      | some b =>
        have hentry : entry (s'.mem b) (Fin.ofNat 512 l) = entry (s.mem b) (Fin.ofNat 512 l) := by
          rw [hm]
          by_cases hba : b = a
          · subst hba
            rw [Function.update_self, entry_setEntry_ne]
            exact fun hi => hlk (leaf_inj h hl hk hu ht hi)
          · rw [Function.update_of_ne hba]
        rw [mapping_of_table hl hu, mapping_of_table hl (a := b) (by rw [htable, hu]), hentry]
  · rw [mapping_of_le (by omega), Function.update_of_ne (by omega), mapping_of_le (by omega)]

end Xv6.Vm.Tree
