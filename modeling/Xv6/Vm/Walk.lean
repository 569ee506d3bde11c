import Xv6.Vm.Tree

/-!
What `walk` does. Where it allocates, pages go from the free list into the page table and nothing
is mapped otherwise than before.
-/

namespace Xv6.Vm.Walk

open Xv6.Data Xv6.Data.Effect Xv6.Data.Effect.Eff Xv6.Vm.Paging Xv6.Vm.Memory Xv6.Vm.Table
  Xv6.Vm.Tree

variable {s s' s'' : Ram} {pt a b va e : UInt64} {i : Fin 512} {k n : ℕ} {m m' : ℕ → UInt64}
  {out inn out' inn' : Multiset UInt64} {may : String → Prop}

/-- What stays or only grows. -/
structure Later (s s' : Ram) : Prop where
  kend : s'.kend = s.kend
  pick : s'.pick = s.pick
  calls : s.calls ≤ s'.calls
  failed : s.failed ≤ s'.failed

lemma Later.refl (s : Ram) : Later s s := ⟨rfl, rfl, le_rfl, le_rfl⟩

lemma Later.trans (h : Later s s') (h' : Later s' s'') : Later s s'' :=
  ⟨h'.kend.trans h.kend, h'.pick.trans h.pick, h.calls.trans h'.calls, h.failed.trans h'.failed⟩

lemma Later.frame (h : Later s s') : s'.Frame a ↔ s.Frame a := by
  unfold Ram.Frame
  rw [h.kend]

/-- The page table `pt` comes to map `m`. The pages `out` are taken from the free list for other
use, the pages `inn` are put into it, and nothing else changes. -/
structure Edit (s s' : Ram) (pt : UInt64) (m : ℕ → UInt64) (out inn : Multiset UInt64) : Prop
    extends Later s s' where
  proper : Proper 2 s' pt
  keep : tables s'.mem pt + s'.free + out = tables s.mem pt + s.free + inn
  more : ∃ t, tables s'.mem pt = tables s.mem pt + t
  map : mapping s'.mem pt = m
  frame : ∀ x, x ∉ tables s.mem pt → x ∉ s.free → x ∉ inn → s'.mem x = s.mem x
  /-- The entries of the root from `MAXVA` on. -/
  top : ∀ i : Fin 512, 256 ≤ i.val → entry (s'.mem pt) i = entry (s.mem pt) i

lemma Edit.refl (h : Proper 2 s pt) : Edit s s pt (mapping s.mem pt) 0 0 :=
  ⟨Later.refl s, h, rfl, ⟨0, (add_zero _).symm⟩, rfl, fun _ _ _ _ => rfl, fun _ _ => rfl⟩

lemma Edit.mem (h : Edit s s' pt m out inn) {x : UInt64}
    (hx : x ∈ tables s'.mem pt ∨ x ∈ s'.free ∨ x ∈ out) :
    x ∈ tables s.mem pt ∨ x ∈ s.free ∨ x ∈ inn := by
  have hin : x ∈ tables s'.mem pt + s'.free + out := by
    simp only [Multiset.mem_add]
    tauto
  rw [h.keep] at hin
  simp only [Multiset.mem_add] at hin
  tauto

/-- One change after another. -/
theorem Edit.trans (h : Edit s s' pt m out inn) (h' : Edit s' s'' pt m' out' inn') :
    Edit s s'' pt m' (out + out') (inn + inn') := by
  obtain ⟨t, ht⟩ := h.more
  obtain ⟨t', ht'⟩ := h'.more
  refine ⟨h.toLater.trans h'.toLater, h'.proper, ?_, ⟨t + t', by rw [ht', ht, add_assoc]⟩,
    h'.map, fun x h1 h2 h3 => ?_, fun i hi => (h'.top i hi).trans (h.top i hi)⟩
  · calc tables s''.mem pt + s''.free + (out + out')
        = (tables s''.mem pt + s''.free + out') + out := by abel
      _ = (tables s'.mem pt + s'.free + out) + inn' := by rw [h'.keep]; abel
      _ = tables s.mem pt + s.free + (inn + inn') := by rw [h.keep]; abel
  · rw [Multiset.mem_add, not_or] at h3
    have hold : ¬(x ∈ tables s.mem pt ∨ x ∈ s.free ∨ x ∈ inn) := by tauto
    have h1' : x ∉ tables s'.mem pt := fun hx => hold (h.mem (.inl hx))
    have h2' : x ∉ s'.free := fun hx => hold (h.mem (.inr (.inl hx)))
    rw [h'.frame x h1' h2' h3.2, h.frame x h1 h2 h3.1]

/-! ### The allocator -/

lemma kalloc_spec (s : Ram) : wp may kalloc (fun r s' => Later s s' ∧
    (r = 0 ∧ s'.mem = s.mem ∧ s'.free = s.free ∧ s.failed < s'.failed ∨
      r ∈ s.free ∧ s'.free = s.free.erase r ∧ s'.failed = s.failed ∧
        s'.mem = Function.update s.mem r (filled 5))) s := by
  unfold kalloc
  rw [wp_bind, wp_look, wp_bind, wp_look, wp_bind, wp_change, wp_ite]
  constructor
  · intro hr
    rw [wp_bind, wp_change, wp_bind, memset, wp_change, wp_pure]
    exact ⟨⟨rfl, rfl, Nat.le_succ _, le_rfl⟩, .inr ⟨hr, rfl, rfl, rfl⟩⟩
  · intro _
    rw [wp_bind, wp_change, wp_pure]
    exact ⟨⟨rfl, rfl, Nat.le_succ _, Nat.le_succ _⟩, .inl ⟨rfl, rfl, rfl, Nat.lt_succ_self _⟩⟩

lemma kfree_spec (ha : s.Frame a ∨ may "kfree") : wp may (kfree a) (fun _ s' => Later s s' ∧
    s'.failed = s.failed ∧ s.Frame a ∧
    s'.free = a ::ₘ s.free ∧ s'.mem = Function.update s.mem a (filled 1)) s := by
  unfold kfree
  rw [wp_bind, wp_look]
  by_cases hf : s.Frame a
  · rw [if_pos (decide_eq_true hf), wp_bind, memset, wp_change, wp_change]
    exact ⟨⟨rfl, rfl, le_rfl, le_rfl⟩, rfl, hf, rfl, rfl⟩
  · rw [if_neg (by simpa using hf), wp_fail]
    exact ha.resolve_left hf

/-! ### Walking without allocating -/

lemma lt_MAXVA : va < MAXVA ↔ vpn va < PAGES := by
  rw [PAGES_eq]
  unfold vpn
  change va.toNat < 2 ^ 38 ↔ _
  omega

lemma fetch_bind {α : Type} (t : UInt64) (f : UInt64 → Eff Ram α) :
    (fetch t i >>= f) s = f (entry (s.mem t) i) s := rfl

lemma walkLoop_find (level : ℕ) (hl : level ≤ 2) (s : Ram) (pt va : UInt64) :
    walkLoop va false level pt s =
      .ok s ((Radix.find child (entries s.mem) (steps (vpn va) level) pt).map
        fun t => (t, Fin.ofNat 512 (vpn va))) := by
  induction level generalizing pt with
  | zero =>
    have hidx : PX 0 va = Fin.ofNat 512 (vpn va) := by
      rw [PX_eq (by omega), pow_zero, Nat.div_one]
    rw [walkLoop, hidx]
    rfl
  | succ level ih =>
    have hidx := PX_eq hl va
    rw [walkLoop, hidx, fetch_bind]
    by_cases hv : entry (s.mem pt) (Fin.ofNat 512 (vpn va / 512 ^ (level + 1))) &&& PTE_V ≠ 0
    · have hc := child_eq_some.mpr ⟨hv, rfl⟩
      rw [if_pos hv, ih (by omega)]
      simp only [steps, Radix.find, entries, hc, Option.bind_some]
    · have hc := child_eq_none.mpr (not_not.mp hv)
      rw [if_neg hv, if_neg Bool.false_ne_true]
      simp only [steps, Radix.find, entries, hc, Option.bind_none, Option.map_none]
      rfl

/-- `walk` without `alloc` finds the entry of the page, where there is a table for it. -/
theorem walk_leaf (hva : va < MAXVA) : walk pt va false s = .ok s (leaf s.mem pt (vpn va)) := by
  have hlt : ¬va ≥ MAXVA := UInt64.not_le.mpr hva
  rw [walk, if_neg hlt, walkLoop_find 2 le_rfl]
  rfl

lemma wp_walk {Q : Pte → Ram → Prop} (hva : va < MAXVA ∨ may "walk")
    (h : va < MAXVA → Q (leaf s.mem pt (vpn va)) s) : wp may (walk pt va false) Q s := by
  by_cases hlt : va < MAXVA
  · exact wp_of_ok (walk_leaf hlt) (h hlt)
  · rw [walk, if_pos (UInt64.not_lt.mp hlt), wp_fail]
    exact hva.resolve_left hlt

/-! ### Walking with `alloc` -/

/-- A free page becomes a page-table page without entries. -/
lemma edit_link {p : List (Fin 512)} (h : Proper 2 s pt) (hp : p.length < 2)
    (hf : Radix.find child (entries s.mem) p pt = some a) (hc : entry (s.mem a) i &&& PTE_V = 0)
    (htop : p = [] → i.val < 256) (hb : b ∈ s.free) (hl : Later s s')
    (hfree : s'.free = s.free.erase b)
    (hm : s'.mem = Function.update (Function.update s.mem b (filled 0)) a
      (setEntry (s.mem a) i (PA2PTE b ||| PTE_V))) :
    Edit s s' pt (mapping s.mem pt) 0 0 ∧
      Radix.find child (entries s'.mem) (p ++ [i]) pt = some b := by
  have hnod := Multiset.nodup_add.mp h.nodup
  have hbt : b ∉ tables s.mem pt := fun hx => Multiset.disjoint_left.mp hnod.2.2 hx hb
  have hframe := h.frame b (Multiset.mem_add.mpr (.inr hb))
  have hat : a ∈ tables s.mem pt := Radix.mem_nodes.mpr ⟨p, hp.le, hf⟩
  have hab : a ≠ b := by
    rintro rfl
    exact hbt hat
  -- first the page is cleared, which the tree does not see
  let mem := Function.update s.mem b (filled 0)
  have hmem : ∀ x ∈ tables s.mem pt, mem x = s.mem x := fun x hx =>
    Function.update_of_ne (by rintro rfl; exact hbt hx) _ _
  have hagree : Radix.Agree child (entries s.mem) (entries mem) 2 pt :=
    Radix.agree_of_eq fun x hx => funext fun j => by rw [entries, hmem x hx, entries]
  have hnodes : Radix.nodes child (entries mem) 2 pt = tables s.mem pt := Radix.nodes_congr hagree
  have hnod' : (Radix.nodes child (entries mem) 2 pt).Nodup := by
    rw [hnodes]
    exact hnod.1
  have hfa : Radix.find child (entries mem) p pt = some a := by
    rw [Radix.find_congr hagree hp.le]
    exact hf
  have hset : entries s'.mem = Radix.set (entries mem) a i (PA2PTE b ||| PTE_V) := by
    have hpage : mem a = s.mem a := Function.update_of_ne hab _ _
    rw [hm, ← entries_update mem, hpage]
  have hca : child (entries mem a i) = none := by
    rw [child_eq_none, entries, hmem a hat]
    exact hc
  have hcb : child (PA2PTE b ||| PTE_V) = some b := child_entry hframe.1
  have hempty : ∀ j, child (entries mem b j) = none := by
    intro j
    have hpage : mem b = filled 0 := Function.update_self _ _ _
    rw [child_eq_none, entries, hpage, entry_zero]
    rfl
  have hbn : b ∉ Radix.nodes child (entries mem) 2 pt := by
    rw [hnodes]
    exact hbt
  have htables : tables s'.mem pt = b ::ₘ tables s.mem pt := by
    rw [tables, hset, Radix.nodes_link hnod' hp hfa hca hcb hbn hempty, hnodes]
  have hfind : ∀ q : List (Fin 512), q.length ≤ 2 → Radix.find child (entries s'.mem) q pt =
      if q = p ++ [i] then some b else Radix.find child (entries s.mem) q pt := by
    intro q hq
    rw [hset, Radix.find_link hnod' hp hfa hca hcb hbn hempty hq, Radix.find_congr hagree hq]
  have hkeep : tables s'.mem pt + s'.free = tables s.mem pt + s.free := by
    rw [htables, hfree, Multiset.cons_add, ← Multiset.add_cons, Multiset.cons_erase hb]
  have hother : ∀ x, x ≠ a → x ≠ b → s'.mem x = s.mem x := by
    intro x hxa hxb
    rw [hm, Function.update_of_ne hxa, Function.update_of_ne hxb]
  have hpa : s'.mem a = setEntry (s.mem a) i (PA2PTE b ||| PTE_V) := by
    rw [hm, Function.update_self]
  have hpb : s'.mem b = filled 0 := by
    rw [hm, Function.update_of_ne hab.symm, Function.update_self]
  have hproper : Proper 2 s' pt := by
    refine ⟨?_, ?_, fun q x hq hx j => ?_, ?_⟩
    · change (tables s'.mem pt + s'.free).Nodup
      rw [hkeep]
      exact h.nodup
    · change ∀ x ∈ tables s'.mem pt + s'.free, s'.Frame x
      rw [hkeep]
      exact fun x hx => hl.frame.mpr (h.frame x hx)
    · rw [hfind q hq.le] at hx
      by_cases hqp : q = p ++ [i]
      · rw [if_pos hqp] at hx
        obtain rfl : b = x := by simpa using hx
        rw [hpb, entry_zero]
        intro hv
        exact absurd rfl hv
      · rw [if_neg hqp] at hx
        by_cases hxa : x = a
        · subst hxa
          rw [hpa]
          by_cases hj : j = i
          · subst hj
            rw [entry_setEntry_self]
            exact fun _ => entry_flags b
          · rw [entry_setEntry_ne hj]
            exact h.inner q x hq hx j
        · have hxb : x ≠ b := by
            rintro rfl
            exact hbt (Radix.mem_nodes.mpr ⟨q, hq.le, hx⟩)
          rw [hother x hxa hxb]
          exact h.inner q x hq hx j
    · rw [hl.kend]
      exact h.kend
  have hmap : mapping s'.mem pt = mapping s.mem pt := by
    funext l
    by_cases hlk : l < PAGES
    · by_cases hq : steps l 2 = p ++ [i]
      · -- the entries of the new page are not valid
        have hnew : table s'.mem pt l = some b := (hfind _ le_rfl).trans (if_pos hq)
        have hold : table s.mem pt l = none := by
          have hci : child (entries s.mem a i) = none := child_eq_none.mpr hc
          rw [table, hq, Radix.find_snoc hf]
          exact hci
        rw [mapping_of_none hold, mapping_of_table hlk hnew, hpb, entry_zero]
        simp
      · have hsame : table s'.mem pt l = table s.mem pt l := (hfind _ le_rfl).trans (if_neg hq)
        cases ht : table s.mem pt l with
        | none => rw [mapping_of_none ht, mapping_of_none (hsame.trans ht)]
        | some t =>
          have hta : t ≠ a := by
            rintro rfl
            have := Radix.find_inj hnod.1 ht hf le_rfl hp.le
            rw [← this] at hp
            exact absurd hp (lt_irrefl _)
          have htb : t ≠ b := by
            rintro rfl
            exact hbt (table_mem ht)
          rw [mapping_of_table hlk ht, mapping_of_table hlk (hsame.trans ht), hother t hta htb]
    · rw [mapping_of_le (by omega), mapping_of_le (by omega)]
  refine ⟨⟨hl, hproper, by rw [add_zero, add_zero, hkeep], ⟨{b}, ?_⟩, hmap,
    fun x hx hxf _ => ?_, fun j hj => ?_⟩, ?_⟩
  · rw [htables, add_comm, Multiset.singleton_add]
  · refine hother x ?_ ?_
    · rintro rfl
      exact hx hat
    · rintro rfl
      exact hxf hb
  · by_cases hpta : pt = a
    · subst hpta
      have hp0 : p = [] := Radix.find_inj hnod.1 hf rfl hp.le (Nat.zero_le 2)
      have := htop hp0
      rw [hpa, entry_setEntry_ne (by rintro rfl; omega)]
    · rw [hother pt hpta (by rintro rfl; exact hbt Radix.self_mem_nodes)]
  · rw [hfind _ (by simp; omega), if_pos rfl]

/-- What a walk that may allocate comes to. -/
def Walked (s s' : Ram) (pt : UInt64) (k : ℕ) (r : Pte) : Prop :=
  Edit s s' pt (mapping s.mem pt) 0 0 ∧ (r = none ∧ s.failed < s'.failed ∨
    s'.failed = s.failed ∧ ∃ t, table s'.mem pt k = some t ∧ r = some (t, Fin.ofNat 512 k))

lemma walkLoop_alloc (level : ℕ) (p : List (Fin 512)) (h : Proper 2 s pt) (hk : vpn va < PAGES)
    (hp : p ++ steps (vpn va) level = steps (vpn va) 2) (hl : p.length + level = 2)
    (hf : Radix.find child (entries s.mem) p pt = some a) :
    wp may (walkLoop va true level a) (fun r s' => Walked s s' pt (vpn va) r) s := by
  induction level generalizing s p a with
  | zero =>
    have hidx : PX 0 va = Fin.ofNat 512 (vpn va) := by
      rw [PX_eq (by omega), pow_zero, Nat.div_one]
    have hpath : p = steps (vpn va) 2 := by simpa [steps] using hp
    rw [walkLoop, wp_pure]
    exact ⟨Edit.refl h, .inr ⟨rfl, a, by rw [table, ← hpath, hf], by rw [hidx]⟩⟩
  | succ level ih =>
    have hidx : PX (level + 1) va = Fin.ofNat 512 (vpn va / 512 ^ (level + 1)) :=
      PX_eq (by omega) va
    have hsteps : p ++ [PX (level + 1) va] ++ steps (vpn va) level = steps (vpn va) 2 := by
      rw [← hp, hidx, steps]
      simp
    have hlen : (p ++ [PX (level + 1) va]).length + level = 2 := by
      simp
      omega
    rw [walkLoop, wp_bind, fetch, wp_look, wp_ite]
    constructor
    · intro hv
      refine ih (p ++ [PX (level + 1) va]) h hsteps hlen ?_
      rw [Radix.find_snoc hf]
      exact child_eq_some.mpr ⟨hv, rfl⟩
    · intro hv
      rw [if_pos rfl]
      refine wp_call (kalloc_spec s) fun page s1 hk => ?_
      obtain ⟨hlater, ⟨rfl, hmem, hfree, hfail⟩ | ⟨hpage, hfree, hfail, hmem⟩⟩ := hk
      · rw [if_pos rfl, wp_pure]
        have hedit := Edit.refl h
        refine ⟨⟨hlater, ?_, ?_, ⟨0, ?_⟩, ?_, fun x _ _ _ => by rw [hmem], fun i _ => by rw [hmem]⟩,
          .inl ⟨rfl, hfail⟩⟩
        · refine h.congr (fun x _ => by rw [hmem]) hlater.kend ?_ ?_
          · rw [hfree]
            exact h.nodup
          · rw [hfree]
            exact fun x hx => h.frame x (Multiset.mem_add.mpr (.inr hx))
        · rw [hmem, hfree]
        · rw [hmem, add_zero]
        · rw [hmem]
      · have hne : page ≠ 0 :=
          frame_ne_zero h.kend (h.frame page (Multiset.mem_add.mpr (.inr hpage)))
        rw [if_neg hne, wp_bind, memset, wp_change, wp_bind, assign, wp_change]
        have hat : a ∈ tables s.mem pt := Radix.mem_nodes.mpr ⟨p, by omega, hf⟩
        have hap : a ≠ page := by
          rintro rfl
          exact Multiset.disjoint_left.mp (Multiset.nodup_add.mp h.nodup).2.2 hat hpage
        -- the state in which the walk goes on, one level down
        let s2 : Ram := { s1 with mem := Function.update s1.mem page (filled 0) }
        let s3 := s2.put a (PX (level + 1) va) (PA2PTE page ||| PTE_V)
        have hm3 : s3.mem = Function.update (Function.update s.mem page (filled 0)) a
            (setEntry (s.mem a) (PX (level + 1) va) (PA2PTE page ||| PTE_V)) := by
          have hm2 : s2.mem = Function.update s.mem page (filled 0) := by
            change Function.update s1.mem page (filled 0) = _
            rw [hmem, Function.update_idem]
          change Function.update s2.mem a (setEntry (s2.mem a) _ _) = _
          rw [hm2, Function.update_of_ne hap]
        have hlater3 : Later s s3 := ⟨hlater.kend, hlater.pick, hlater.calls, hlater.failed⟩
        have htop : p = [] → (PX (level + 1) va).val < 256 := by
          rintro rfl
          have hlevel : level = 1 := by simpa using hl
          have hval : (PX (level + 1) va).val = vpn va / 512 ^ (level + 1) % 512 := by
            rw [hidx]
            rfl
          rw [PAGES_eq] at hk
          rw [hval, hlevel]
          omega
        obtain ⟨hedit, hfind⟩ := edit_link h (by omega) hf (not_not.mp hv) htop hpage hlater3 hfree
          hm3
        refine wp_mono (ih (s := s3) (p ++ [PX (level + 1) va]) hedit.proper hsteps hlen hfind) ?_
        rintro r s' ⟨hw, hr⟩
        have hw' := hedit.trans hw
        rw [add_zero, hedit.map] at hw'
        have hf3 : s3.failed = s.failed := hfail
        rw [hf3] at hr
        exact ⟨hw', hr⟩

/-- **Walking with `alloc`** changes no translation. -/
theorem walk_alloc (h : Proper 2 s pt) (hva : va < MAXVA ∨ may "walk") :
    wp may (walk pt va true) (fun r s' => va < MAXVA ∧ Walked s s' pt (vpn va) r) s := by
  unfold walk
  rw [wp_ite]
  constructor
  · intro hle
    rw [wp_fail]
    exact hva.resolve_left (UInt64.not_lt.mpr hle)
  · intro hlt
    refine wp_mono (walkLoop_alloc 2 [] h (lt_MAXVA.mp (UInt64.not_le.mp hlt)) rfl rfl rfl) fun r s' hw => ?_
    exact ⟨UInt64.not_le.mp hlt, hw⟩

end Xv6.Vm.Walk
