import Xv6.Vm.Process

/-!
A process as the owner of pages: its address space and its trapframe. What `allocproc` takes and
`freeproc` gives back.
-/

namespace Xv6.Vm.Holding

open Xv6.Data Xv6.Data.Effect Xv6.Data.Effect.Eff Xv6.Vm.Paging Xv6.Vm.Memory Xv6.Vm.Table
  Xv6.Vm.Tree Xv6.Vm.Walk Xv6.Vm.Maps Xv6.Vm.Grow Xv6.Vm.Copy Xv6.Vm.Space Xv6.Vm.Free
  Xv6.Vm.Process

/-- Of `struct proc`, what has pages. -/
structure Task where
  mem : Proc
  trapframe : UInt64

def freeproc (p : Task) : Eff Ram Unit := do
  if p.trapframe ≠ 0 then kfree p.trapframe else pure ()
  if p.mem.pagetable ≠ 0 then proc_freepagetable p.mem.pagetable p.mem.sz else pure ()

/-- `allocproc` from where it has found a slot. -/
def allocproc (trampoline : UInt64) : Eff Ram (Option Task) := do
  let trapframe ← kalloc
  if trapframe = 0 then do
    freeproc ⟨⟨0, 0⟩, 0⟩
    pure none
  else do
    let pagetable ← proc_pagetable trampoline trapframe
    if pagetable = 0 then do
      freeproc ⟨⟨0, 0⟩, trapframe⟩
      pure none
    else pure (some ⟨⟨0, pagetable⟩, trapframe⟩)

variable {s s' s'' : Ram} {p : Proc} {t t' : Task} {o o' o'' : Option Task} {a b : UInt64}
  {x y : Multiset UInt64} {may : String → Prop}

/-! ### Steps of one process -/

def pages (s : Ram) (t : Task) : Multiset UInt64 := owned s t.mem + {t.trapframe}

/-- What is in a slot of the process table has. -/
def has (s : Ram) (o : Option Task) : Multiset UInt64 := o.elim 0 (pages s)

/-- A process that is in order. -/
structure Good (s : Ram) (t : Task) : Prop where
  whole : Whole s t.mem
  frame : s.Frame t.trapframe

/-- What is in one slot of the process table becomes `o'`. It takes free pages or gives pages of its
own back, and no other page changes. -/
structure Act (s s' : Ram) (o o' : Option Task) : Prop extends Later s s' where
  good : ∀ t, o' = some t → Good s' t
  keep : has s' o' + s'.free = has s o + s.free
  other : ∀ x, x ∉ has s o → x ∉ s.free → s'.mem x = s.mem x

lemma has_none (s : Ram) : has s none = 0 := by
  rw [has, Option.elim_none]

lemma has_some (s : Ram) (t : Task) : has s (some t) = pages s t := by
  rw [has, Option.elim_some]

lemma Act.trans (h : Act s s' o o') (h' : Act s' s'' o' o'') : Act s s'' o o'' := by
  refine ⟨h.toLater.trans h'.toLater, h'.good, h'.keep.trans h.keep, fun x h1 h2 => ?_⟩
  have hx : x ∉ has s' o' + s'.free := by
    rw [h.keep, Multiset.mem_add, not_or]
    exact ⟨h1, h2⟩
  rw [Multiset.mem_add, not_or] at hx
  rw [h'.other x hx.1 hx.2, h.other x h1 h2]

/-- A process goes on with its address space. -/
lemma act_of_kept {p' : Proc} (ht : Good s t) (h : Kept s s' t.mem p') :
    Act s s' (some t) (some ⟨p', t.trapframe⟩) := by
  refine ⟨h.toLater, ?_, ?_, fun x h1 h2 => h.frame x (fun hx => h1 ?_) h2⟩
  · rintro _ ⟨⟩
    exact ⟨h.whole, h.toLater.frame.mpr ht.frame⟩
  · rw [has_some, has_some, pages, pages, add_right_comm, h.keep, add_right_comm]
  · rw [has_some]
    exact Multiset.mem_add.mpr (.inl hx)

lemma Good.pages_frame (h : Good s t) {x : UInt64} (hx : x ∈ pages s t) : s.Frame x := by
  rcases Multiset.mem_add.mp hx with hx | hx
  · rcases Multiset.mem_add.mp hx with hx | hx
    · exact h.whole.proper.frame x (Multiset.mem_add.mpr (.inl hx))
    · exact h.whole.frame x hx
  · rw [Multiset.mem_singleton.mp hx]
    exact h.frame

/-- A process that another slot's step leaves alone. -/
structure Aside (s s' : Ram) (t : Task) : Prop where
  good : Good s' t
  pages : pages s' t = pages s t
  entry : entryOf s' t.mem = entryOf s t.mem
  view : ∀ va, view s' t.mem va = view s t.mem va
  frame : s'.mem t.trapframe = s.mem t.trapframe

/-- What has nothing to do with the slot is left alone. -/
lemma Good.aside (h : Good s t) (ha : Act s s' o o') (hframe : ∀ x ∈ has s o, s.Frame x)
    (hone : ∀ x, (Holding.pages s t + (has s o + s.free)).count x ≤ 1) : Aside s s' t := by
  have hnod := Multiset.nodup_iff_count_le_one.mpr hone
  have hout : ∀ x ∈ Holding.pages s t, s'.mem x = s.mem x := by
    intro x hx
    have hx' : x ∉ has s o + s.free :=
      Multiset.disjoint_left.mp (Multiset.nodup_add.mp hnod).2.2 hx
    rw [Multiset.mem_add, not_or] at hx'
    exact ha.other x hx'.1 hx'.2
  have hle : s'.free ≤ has s o + s.free := by
    rw [← ha.keep]
    exact Multiset.le_add_left _ _
  have hcount : ∀ x, (owned s t.mem + s'.free).count x ≤ 1 := by
    intro x
    refine (Multiset.count_le_of_le x ?_).trans (hone x)
    exact add_le_add (Multiset.le_add_right _ _) hle
  obtain ⟨hwhole, howned, hentry, hview⟩ := h.whole.congr ha.toLater
    (fun x hx => hout x (Multiset.mem_add.mpr (.inl hx))) hcount fun x hx => by
      rcases Multiset.mem_add.mp (Multiset.mem_of_le hle hx) with hx | hx
      · exact hframe x hx
      · exact h.whole.proper.frame x (Multiset.mem_add.mpr (.inr hx))
  refine ⟨⟨hwhole, ha.toLater.frame.mpr h.frame⟩, ?_, hentry, hview, hout _ ?_⟩
  · rw [Holding.pages, Holding.pages, howned]
  · exact Multiset.mem_add.mpr (.inr (Multiset.mem_singleton_self _))

/-! ### `freeproc` and `allocproc` -/

lemma root_ne_zero (h : Proper 2 s a) : a ≠ 0 :=
  frame_ne_zero h.kend (h.frame a (Multiset.mem_add.mpr (.inl Radix.self_mem_nodes)))

/-- **`freeproc`** gives back all pages of a process. -/
theorem freeproc_spec (h : Good s t) (hone : ∀ x, (pages s t + s.free).count x ≤ 1) :
    wp may (freeproc t) (fun _ s' => Act s s' (some t) none ∧ s'.failed = s.failed) s := by
  have hnod := Multiset.nodup_iff_count_le_one.mpr hone
  have hne := frame_ne_zero h.whole.proper.kend h.frame
  have hroot := root_ne_zero h.whole.proper
  have htf : t.trapframe ∉ owned s t.mem := fun hx => Multiset.disjoint_left.mp
    (Multiset.nodup_add.mp (Multiset.nodup_add.mp hnod).1).2.2 hx (Multiset.mem_singleton_self _)
  unfold freeproc
  rw [if_pos hne]
  refine wp_call (kfree_spec (.inl h.frame)) fun _ s1 h1 => ?_
  obtain ⟨hl, hfail, -, hfree, hmem⟩ := h1
  have hkeep : owned s t.mem + s1.free = pages s t + s.free := by
    rw [hfree, pages, ← Multiset.singleton_add, add_assoc]
  have hown : ∀ x ∈ owned s t.mem, s1.mem x = s.mem x := by
    intro x hx
    rw [hmem, Function.update_of_ne]
    rintro rfl
    exact htf hx
  have hfr : ∀ x ∈ s1.free, s.Frame x := by
    rw [hfree]
    intro x hx
    rcases Multiset.mem_cons.mp hx with rfl | hx
    · exact h.frame
    · exact h.whole.proper.frame x (Multiset.mem_add.mpr (.inr hx))
  obtain ⟨hwhole, howned, -, -⟩ := h.whole.congr hl hown (by rw [hkeep]; exact hone) hfr
  rw [if_pos hroot]
  refine wp_mono (free_spec hwhole) fun _ s2 hf => ?_
  rw [howned] at hf
  refine ⟨⟨hl.trans hf.toLater, fun _ hn => (by cases hn), ?_, fun x h1 h2 => ?_⟩,
    hf.same.trans hfail⟩
  · rw [has_none, zero_add, hf.free, hkeep, has_some]
  · rw [has_some, pages, Multiset.mem_add, not_or, Multiset.mem_singleton] at h1
    have hx : x ∉ s1.free := by
      rw [hfree, Multiset.mem_cons, not_or]
      exact ⟨h1.2, h2⟩
    rw [hf.frame x h1.1 hx, hmem, Function.update_of_ne h1.2]

/-- What `allocproc` comes to. -/
def Alloced (s s' : Ram) (trampoline : UInt64) (o : Option Task) : Prop :=
  Act s s' none o ∧ (o = none → s.failed < s'.failed) ∧
    ∀ t, o = some t → s'.failed = s.failed ∧ t.mem.sz = 0 ∧
      entryOf s' t.mem = kernelMap trampoline t.trapframe ∧ s'.mem t.trapframe = filled 5

/-- **`allocproc`** makes a process without user memory, or takes nothing. -/
theorem allocproc_spec (h : Pool s) (trampoline : UInt64) :
    wp may (allocproc trampoline) (fun o s' => Alloced s s' trampoline o) s := by
  have hzero : ∀ s1 : Ram, freeproc ⟨⟨0, 0⟩, 0⟩ s1 = .ok s1 () := fun _ => rfl
  unfold allocproc
  refine wp_call (kalloc_spec s) fun tf s1 hk => ?_
  obtain ⟨hl, ⟨rfl, hmem, hfree, hfail⟩ | ⟨hin, hfree, hfail, hmem⟩⟩ := hk
  · rw [if_pos rfl, wp_bind]
    refine wp_of_ok (hzero s1) ?_
    rw [wp_pure]
    refine ⟨⟨hl, fun _ hn => (by cases hn), ?_, fun x _ _ => (by rw [hmem])⟩, fun _ => hfail,
      fun _ hn => (by cases hn)⟩
    rw [has_none, has_none, hfree]
  have hframe := h.frame tf hin
  have hne := frame_ne_zero h.kend hframe
  have hpool : Pool s1 := by
    refine ⟨?_, fun x hx => ?_, by rw [hl.kend]; exact h.kend⟩
    · rw [hfree]
      exact h.nodup.erase tf
    · rw [hfree] at hx
      exact hl.frame.mpr (h.frame x (Multiset.mem_of_mem_erase hx))
  have hout : ∀ x, x ∉ s.free → x ∉ s1.free ∧ s1.mem x = s.mem x := by
    intro x hx
    refine ⟨fun hx1 => hx (Multiset.mem_of_mem_erase (by rwa [hfree] at hx1)), ?_⟩
    rw [hmem, Function.update_of_ne]
    rintro rfl
    exact hx hin
  have htf : tf ∉ s1.free := by
    rw [hfree]
    exact h.nodup.notMem_erase
  rw [if_neg hne]
  refine wp_call (proc_pagetable_spec hpool trampoline tf) fun pt s2 hm => ?_
  obtain ⟨hl2, hother, ⟨rfl, hfail2, hfree2⟩ | ⟨hne2, hfail2, hwhole, hkeep, hmap⟩⟩ := hm
  · rw [if_pos rfl]
    have hfreeproc : wp may (freeproc ⟨⟨0, 0⟩, tf⟩) (fun _ s' => Later s2 s' ∧ s'.failed = s2.failed ∧
        s'.free = tf ::ₘ s2.free ∧ s'.mem = Function.update s2.mem tf (filled 1)) s2 := by
      unfold freeproc
      rw [if_pos hne]
      refine wp_call (kfree_spec (.inl ((hl.trans hl2).frame.mpr hframe))) fun _ s3 h3 => ?_
      obtain ⟨hl3, hfail3, -, hfree3, hmem3⟩ := h3
      exact ⟨hl3, hfail3, hfree3, hmem3⟩
    refine wp_call hfreeproc fun _ s3 h3 => ?_
    obtain ⟨hl3, hfail3, hfree3, hmem3⟩ := h3
    rw [wp_pure]
    refine ⟨⟨(hl.trans hl2).trans hl3, fun _ hn => (by cases hn), ?_, fun x _ hx => ?_⟩,
      fun _ => (by omega), fun _ hn => (by cases hn)⟩
    · rw [has_none, has_none, hfree3, hfree2, hfree, Multiset.cons_erase hin]
    · obtain ⟨hx1, hmemx⟩ := hout x hx
      have hxt : x ≠ tf := by
        rintro rfl
        exact hx hin
      rw [hmem3, Function.update_of_ne hxt, hother x hx1, hmemx]
  · rw [if_neg hne2, wp_pure]
    refine ⟨⟨hl.trans hl2, ?_, ?_, fun x _ hx => ?_⟩, fun hn => (by cases hn), ?_⟩
    · rintro _ ⟨⟩
      exact ⟨hwhole, (hl.trans hl2).frame.mpr hframe⟩
    · rw [has_none, has_some, pages, zero_add, add_right_comm]
      change owned s2 ⟨0, pt⟩ + s2.free + {tf} = s.free
      rw [hkeep, hfree, add_comm, Multiset.singleton_add, Multiset.cons_erase hin]
    · obtain ⟨hx1, hmemx⟩ := hout x hx
      rw [hother x hx1, hmemx]
    · rintro _ ⟨⟩
      refine ⟨hfail2.trans hfail, rfl, hmap, ?_⟩
      rw [hother tf htf, hmem, Function.update_self]

end Xv6.Vm.Holding
