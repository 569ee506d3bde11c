import Xv6.Vm.Walk

/-!
The free list of `kalloc.c`, which is in the free pages themselves: each begins with the address
of the next. The pages are handed out as the model of physical memory has it, each to one owner at
a time and each as long as there is one.
-/

namespace Xv6.Vm.Freelist

open Xv6.Conc Xv6.Data.Effect Xv6.Data.Effect.Eff Xv6.Vm.Paging Xv6.Vm.Memory

/-- `kmem`, and physical memory by pages. -/
structure Kmem where
  mem : UInt64 → Page
  freelist : UInt64
  /-- `end`, the first address after the kernel. -/
  kend : UInt64

/-- A page that `kfree` takes. -/
def Kmem.Frame (k : Kmem) (pa : UInt64) : Prop :=
  pa.toNat % 4096 = 0 ∧ k.kend ≤ pa ∧ pa < PHYSTOP

instance (k : Kmem) (pa : UInt64) : Decidable (k.Frame pa) :=
  inferInstanceAs (Decidable (_ ∧ _ ∧ _))

def Kmem.set (pa : UInt64) (pg : Page) (k : Kmem) : Kmem :=
  { k with mem := Function.update k.mem pa pg }

/-- The field `next` of the `struct run` in a page. -/
def next (mem : UInt64 → Page) (r : UInt64) : UInt64 := entry (mem r) 0

def setNext (r a : UInt64) (k : Kmem) : Kmem := k.set r (setEntry (k.mem r) 0 a)

def kfree (pa : UInt64) : Eff Kmem Unit := do
  let ok ← look fun k => decide (k.Frame pa)
  if ok then
    -- Fill with junk to catch dangling refs.
    change (Kmem.set pa (filled 1))
    change fun k => setNext pa k.freelist k
    change fun k => { k with freelist := pa }
  else
    fail "kfree"

def kalloc : Eff Kmem UInt64 := do
  let r ← look Kmem.freelist
  if r ≠ 0 then
    change fun k => { k with freelist := next k.mem r }
    change (Kmem.set r (filled 5))
    pure r
  else
    pure r

def freerangeLoop (pa_end : UInt64) : (fuel : ℕ) → (p : UInt64) → Eff Kmem Unit
  | 0, _ => fail "rounds"
  | n + 1, p =>
    if p + PGSIZE ≤ pa_end then do
      kfree p
      freerangeLoop pa_end n (p + PGSIZE)
    else
      pure ()

/-- No range of pages has more than `2 ^ 52` of them. -/
def freerange (pa_start pa_end : UInt64) : Eff Kmem Unit :=
  freerangeLoop pa_end (2 ^ 52) (PGROUNDUP pa_start)

def kinit : Eff Kmem Unit := do
  let kend ← look Kmem.kend
  freerange kend PHYSTOP

lemma bind_panic {σ α β : Type} {x : Eff σ α} {s : σ} {msg : String} (h : x s = .panic msg)
    (f : α → Eff σ β) : (x >>= f) s = .panic msg := by
  change Eff.bind x f s = .panic msg
  simp only [Eff.bind, h]

/-! ### The list -/

/-- The list that begins at `a`. -/
def Chain (mem : UInt64 → Page) : UInt64 → List UInt64 → Prop
  | a, [] => a = 0
  | a, x :: xs => a = x ∧ Chain mem (next mem x) xs

/-- The free pages are those listed. -/
structure Lists (k : Kmem) (xs : List UInt64) : Prop where
  chain : Chain k.mem k.freelist xs
  nodup : xs.Nodup
  frame : ∀ x ∈ xs, k.Frame x
  kend : KERNBASE ≤ k.kend

variable {k k' : Kmem} {s : Ram} {a pa x : UInt64} {xs : List UInt64} {pg : Page}

lemma Chain.congr {mem mem' : UInt64 → Page} (h : Chain mem a xs) (hx : ∀ x ∈ xs, mem' x = mem x) :
    Chain mem' a xs := by
  induction xs generalizing a with
  | nil => exact h
  | cons x xs ih =>
    refine ⟨h.1, ?_⟩
    rw [next, hx x List.mem_cons_self]
    exact ih h.2 fun y hy => hx y (List.mem_cons_of_mem x hy)

/-- Which pages `kfree` takes does not depend on memory. -/
lemma frame_congr (h : k'.kend = k.kend) : k'.Frame a ↔ k.Frame a := by
  rw [Kmem.Frame, Kmem.Frame, h]

lemma frame_pos (hk : KERNBASE ≤ k.kend) (h : k.Frame a) : a ≠ 0 := by
  rintro rfl
  have h1 : (0x80000000 : ℕ) ≤ k.kend.toNat := hk
  have h2 : k.kend.toNat ≤ (0 : ℕ) := h.2.1
  omega

/-- Writing to a page that is not free leaves the list. -/
lemma Lists.set (h : Lists k xs) (hpa : pa ∉ xs) (pg : Page) : Lists (k.set pa pg) xs := by
  refine ⟨h.chain.congr fun x hx => ?_, h.nodup, fun x hx => ?_, h.kend⟩
  · refine Function.update_of_ne ?_ pg k.mem
    rintro rfl
    exact hpa hx
  · exact (frame_congr rfl).mpr (h.frame x hx)

/-! ### The allocator -/

/-- The state after a call of `kfree`. -/
def freed (pa : UInt64) (k : Kmem) : Kmem :=
  { setNext pa k.freelist (k.set pa (filled 1)) with freelist := pa }

/-- The state after a call of `kalloc` that finds page `r`. -/
def taken (r : UInt64) (k : Kmem) : Kmem :=
  Kmem.set r (filled 5) { k with freelist := next k.mem r }

lemma kfree_frame (h : k.Frame pa) : kfree pa k = .ok (freed pa k) () := by
  unfold kfree
  rw [bind_ok (look_ok _), if_pos (decide_eq_true h)]
  rfl

lemma kfree_else (h : ¬ k.Frame pa) : kfree pa k = .panic "kfree" := by
  unfold kfree
  rw [bind_ok (look_ok _), if_neg (by simpa using h)]
  rfl

lemma Lists.kfree (h : Lists k xs) (hf : k.Frame pa) (hpa : pa ∉ xs) :
    Lists (freed pa k) (pa :: xs) := by
  refine ⟨⟨rfl, ?_⟩, List.nodup_cons.mpr ⟨hpa, h.nodup⟩, fun x hx => ?_, h.kend⟩
  · have hnext : next (freed pa k).mem pa = k.freelist := by
      simp [freed, setNext, Kmem.set, next, entry_setEntry_self]
    rw [hnext]
    refine h.chain.congr fun x hx => ?_
    have hne : x ≠ pa := fun he => hpa (he ▸ hx)
    simp [freed, setNext, Kmem.set, hne]
  · refine (frame_congr (k := k) rfl).mpr ?_
    rcases List.mem_cons.mp hx with rfl | hx
    · exact hf
    · exact h.frame x hx

lemma kalloc_nil (h : Lists k []) : kalloc k = .ok k 0 := by
  have h0 : k.freelist = 0 := h.chain
  unfold kalloc
  rw [bind_ok (look_ok _), if_neg (by simpa using h0), h0]
  rfl

lemma kalloc_pos (h : k.freelist ≠ 0) : kalloc k = .ok (taken k.freelist k) k.freelist := by
  unfold kalloc
  rw [bind_ok (look_ok _), if_pos h]
  rfl

/-- The list without its first page. The place where it begins is a variable, since `next` of a
page is long to unfold. -/
lemma Lists.tail {mem : UInt64 → Page} {kend : UInt64} (h : Lists ⟨mem, a, kend⟩ (x :: xs))
    (hpa : pa = next mem x) : Lists ⟨mem, pa, kend⟩ xs :=
  ⟨hpa ▸ h.chain.2, (List.nodup_cons.mp h.nodup).2,
    fun y hy => h.frame y (List.mem_cons_of_mem x hy), h.kend⟩

lemma Lists.taken (h : Lists k (x :: xs)) : Lists (taken x k) xs := by
  have hmem : x ∉ xs := (List.nodup_cons.mp h.nodup).1
  exact (h.tail rfl).set hmem (filled 5)

lemma kalloc_cons (h : Lists k (x :: xs)) : kalloc k = .ok (taken x k) x := by
  have hx : k.freelist = x := h.chain.1
  have hrun := kalloc_pos (hx ▸ frame_pos h.kend (h.frame x List.mem_cons_self))
  rwa [hx] at hrun

/-! ### The pages at the start -/

lemma toNat_PHYSTOP : PHYSTOP.toNat = 0x88000000 := rfl

lemma toNat_add_PGSIZE {p : UInt64} (hp : p.toNat ≤ 0x88000000) :
    (p + PGSIZE).toNat = p.toNat + 4096 := by
  rw [UInt64.toNat_add, toNat_PGSIZE, Nat.mod_eq_of_lt (by omega)]

/-- The loop adds every page from `p` on that is below `PHYSTOP`. -/
lemma freerangeLoop_spec (fuel : ℕ) {p : UInt64} (h : Lists k xs) (hp : p.toNat % 4096 = 0)
    (hkend : k.kend ≤ p) (htop : p.toNat ≤ 0x88000000) (hlow : ∀ x ∈ xs, x.toNat < p.toNat)
    (hfuel : 0x88000 < fuel + p.toNat / 4096) :
    ∃ k' xs', freerangeLoop PHYSTOP fuel p k = .ok k' () ∧ Lists k' xs' ∧ k'.kend = k.kend ∧
      ∀ pa, pa ∈ xs' ↔ pa ∈ xs ∨ k.Frame pa ∧ p.toNat ≤ pa.toNat := by
  induction fuel generalizing k xs p with
  | zero => omega
  | succ fuel ih =>
    have hadd := toNat_add_PGSIZE htop
    rw [freerangeLoop]
    by_cases hle : p + PGSIZE ≤ PHYSTOP
    · have hle' : p.toNat + 4096 ≤ 0x88000000 := hadd ▸ hle
      have hlt : p < PHYSTOP := by
        rw [UInt64.lt_iff_toNat_lt, toNat_PHYSTOP]
        omega
      have hframe : k.Frame p := ⟨hp, hkend, hlt⟩
      have hnot : p ∉ xs := fun hmem => Nat.lt_irrefl _ (hlow p hmem)
      have hkend' : (freed p k).kend ≤ p + PGSIZE := by
        have hk : k.kend.toNat ≤ p.toNat := hkend
        change k.kend ≤ p + PGSIZE
        rw [UInt64.le_iff_toNat_le, hadd]
        omega
      obtain ⟨k', xs', hrun, hlists, hk', hmem⟩ := ih (p := p + PGSIZE) (h.kfree hframe hnot)
        (by omega) hkend' (by omega)
        (fun x hx => by
          rcases List.mem_cons.mp hx with rfl | hx
          · omega
          · have := hlow x hx
            omega)
        (by omega)
      refine ⟨k', xs', ?_, hlists, hk', fun pa => ?_⟩
      · rw [if_pos hle, bind_ok (kfree_frame hframe), hrun]
      · rw [hmem, List.mem_cons]
        constructor
        · rintro ((rfl | hx) | ⟨hf, hge⟩)
          · exact Or.inr ⟨hframe, Nat.le_refl _⟩
          · exact Or.inl hx
          · exact Or.inr ⟨hf, by omega⟩
        · rintro (hx | ⟨hf, hge⟩)
          · exact Or.inl (Or.inr hx)
          · by_cases he : pa = p
            · exact Or.inl (Or.inl he)
            · have hne : pa.toNat ≠ p.toNat := fun h => he (UInt64.toNat_inj.mp h)
              have hal := hf.1
              exact Or.inr ⟨hf, by omega⟩
    · refine ⟨k, xs, by rw [if_neg hle]; rfl, h, rfl, fun pa => ?_⟩
      have hgt : 0x88000000 < p.toNat + 4096 := by
        rw [UInt64.le_iff_toNat_le, hadd, toNat_PHYSTOP] at hle
        omega
      refine ⟨Or.inl, fun hpa => hpa.resolve_right ?_⟩
      rintro ⟨⟨hal, -, hlt⟩, hge⟩
      rw [UInt64.lt_iff_toNat_lt, toNat_PHYSTOP] at hlt
      omega

/-- **`kinit`** does not panic, and the list then has the pages between the kernel and
`PHYSTOP`. -/
theorem kinit_spec (hk : KERNBASE ≤ k.kend) (hend : k.kend ≤ PHYSTOP) (h0 : k.freelist = 0) :
    ∃ k' xs, kinit k = .ok k' () ∧ Lists k' xs ∧ k'.kend = k.kend ∧ ∀ pa, pa ∈ xs ↔ k.Frame pa := by
  have hend' : k.kend.toNat ≤ 0x88000000 := hend
  have hup := toNat_PGROUNDUP_of_le (a := k.kend) (by omega)
  have hempty : Lists k [] := ⟨h0, List.nodup_nil, fun x hx => absurd hx List.not_mem_nil, hk⟩
  obtain ⟨k', xs, hrun, hlists, hk', hmem⟩ := freerangeLoop_spec (2 ^ 52)
    (p := PGROUNDUP k.kend) hempty (by omega)
    (by rw [UInt64.le_iff_toNat_le, hup]; omega) (by omega)
    (fun x hx => absurd hx List.not_mem_nil) (by omega)
  refine ⟨k', xs, ?_, hlists, hk', fun pa => ?_⟩
  · unfold kinit freerange
    rw [bind_ok (look_ok _), hrun]
  · rw [hmem]
    refine ⟨fun h => (h.resolve_left List.not_mem_nil).1, fun hf => Or.inr ⟨hf, ?_⟩⟩
    have hal := hf.1
    have hge : k.kend.toNat ≤ pa.toNat := hf.2.1
    omega

/-! ### Runs -/

/-- What happens to physical memory. `write` is whatever the owner of a page does to it. -/
inductive Op where
  | kalloc
  | kfree (pa : UInt64)
  | write (pa : UInt64) (pg : Page)

/-- The page that a call is about. -/
def Op.page : Op → Option UInt64
  | .kalloc => none
  | .kfree pa => some pa
  | .write pa _ => some pa

def step : Op → Eff Kmem (Option UInt64)
  | .kalloc => do
    let r ← kalloc
    pure (some r)
  | .kfree pa => do
    kfree pa
    pure none
  | .write pa pg => do
    change (Kmem.set pa pg)
    pure none

/-- `step` with the free pages as a multiset. -/
def ramStep : Op → Eff Ram (Option UInt64)
  | .kalloc => do
    let r ← Memory.kalloc
    pure (some r)
  | .kfree pa => do
    Memory.kfree pa
    pure none
  | .write pa pg => do
    change fun s => { s with mem := Function.update s.mem pa pg }
    pure none

/-- The answers to a list of calls. -/
def run {σ : Type} (step : Op → Eff σ (Option UInt64)) : List Op → Eff σ (List (Option UInt64))
  | [] => pure []
  | op :: ops => do
    let answer ← step op
    let answers ← run step ops
    pure (answer :: answers)

/-- What the calls of `kalloc` find. -/
def picks : List Op → Kmem → List UInt64
  | [], _ => []
  | op :: ops, k => match step op k with
    | .ok k' answer => answer.toList ++ picks ops k'
    | .panic _ => []

/-- No page is freed or written to while it is free. -/
def Owned : List Op → Kmem → Prop
  | [], _ => True
  | op :: ops, k => (∀ pa xs, op.page = some pa → Lists k xs → pa ∉ xs) ∧
      ∀ k' answer, step op k = .ok k' answer → Owned ops k'

/-- The multiset has the pages of the list, and memory is the same but for these. -/
structure Refines (k : Kmem) (s : Ram) (xs : List UInt64) : Prop where
  lists : Lists k xs
  free : s.free = xs
  mem : ∀ a, a ∉ xs → s.mem a = k.mem a
  kend : s.kend = k.kend

/-- One answer and states of which one refines the other, or one panic. -/
def Agrees {α : Type} : Outcome Kmem α → Outcome Ram α → Prop
  | .ok k x, .ok s y => x = y ∧ ∃ xs, Refines k s xs
  | .panic msg, .panic msg' => msg = msg'
  | _, _ => False

variable {op : Op} {ops : List Op} {answer : Option UInt64}

lemma Refines.frame (h : Refines k s xs) : s.Frame pa ↔ k.Frame pa := by
  rw [Ram.Frame, Kmem.Frame, h.kend]

lemma ram_kalloc_mem (h : s.pick s.calls ∈ s.free) : Memory.kalloc s =
    .ok { s with
      mem := Function.update s.mem (s.pick s.calls) (filled 5)
      free := s.free.erase (s.pick s.calls)
      calls := s.calls + 1 } (s.pick s.calls) := by
  unfold Memory.kalloc
  rw [bind_ok (look_ok _), bind_ok (look_ok _)]
  change (if _ then _ else _ : Eff Ram UInt64) _ = _
  rw [if_pos h]
  rfl

lemma ram_kalloc_none (h : s.free = 0) : Memory.kalloc s =
    .ok { s with calls := s.calls + 1, failed := s.failed + 1 } 0 := by
  unfold Memory.kalloc
  rw [bind_ok (look_ok _), bind_ok (look_ok _)]
  change (if _ then _ else _ : Eff Ram UInt64) _ = _
  rw [if_neg (h ▸ Multiset.notMem_zero _)]
  rfl

lemma ram_kfree_frame (h : s.Frame pa) : Memory.kfree pa s =
    .ok { s with mem := Function.update s.mem pa (filled 1), free := pa ::ₘ s.free } () := by
  unfold Memory.kfree
  rw [bind_ok (look_ok _), if_pos (decide_eq_true h)]
  rfl

lemma ram_kfree_else (h : ¬ s.Frame pa) : Memory.kfree pa s = .panic "kfree" := by
  unfold Memory.kfree
  rw [bind_ok (look_ok _), if_neg (by simpa using h)]
  rfl

/-- A step from a list that a multiset shows. -/
lemma step_refines (h : Refines k s xs) (hown : ∀ pa, op.page = some pa → pa ∉ xs)
    (hpick : ∀ k' r, step op k = .ok k' (some r) → s.pick s.calls = r) :
    (∃ k' s' answer xs', step op k = .ok k' answer ∧ ramStep op s = .ok s' answer ∧
        Refines k' s' xs' ∧ s'.pick = s.pick ∧ s'.calls = s.calls + answer.toList.length) ∨
      ∃ msg, step op k = .panic msg ∧ ramStep op s = .panic msg := by
  cases op with
  | kalloc =>
    refine Or.inl ?_
    cases xs with
    | nil =>
      have hfree : s.free = 0 := h.free
      have hram := ram_kalloc_none hfree
      refine ⟨k, _, some 0, [], bind_ok (kalloc_nil h.lists), bind_ok hram, ?_, rfl, rfl⟩
      exact ⟨h.lists, hfree, h.mem, h.kend⟩
    | cons x xs =>
      have hrun := kalloc_cons h.lists
      have hlists := h.lists.taken
      have hstep : step .kalloc k = .ok (taken x k) (some x) := bind_ok hrun
      have hx := hpick _ _ hstep
      have hfree : s.pick s.calls ∈ s.free := by
        rw [hx, h.free]
        exact List.mem_cons_self
      have hram := ram_kalloc_mem hfree
      rw [hx] at hram
      refine ⟨_, _, some x, xs, hstep, bind_ok hram, ⟨hlists, ?_, fun a ha => ?_, h.kend⟩, rfl, rfl⟩
      · change s.free.erase x = xs
        rw [h.free, Multiset.coe_erase, List.erase_cons_head]
      · change Function.update s.mem x (filled 5) a = Function.update k.mem x (filled 5) a
        by_cases he : a = x
        · rw [he, Function.update_self, Function.update_self]
        · rw [Function.update_of_ne he, Function.update_of_ne he]
          refine h.mem a fun hmem => ?_
          rcases List.mem_cons.mp hmem with hax | hmem
          · exact he hax
          · exact ha hmem
  | kfree pa =>
    by_cases hf : k.Frame pa
    · have hpa := hown pa rfl
      have hram := ram_kfree_frame (h.frame.mpr hf)
      refine Or.inl ⟨_, _, none, pa :: xs, bind_ok (kfree_frame hf), bind_ok hram, ?_, rfl, rfl⟩
      refine ⟨h.lists.kfree hf hpa, ?_, fun a ha => ?_, h.kend⟩
      · change pa ::ₘ s.free = _
        rw [h.free]
        rfl
      · rw [List.mem_cons, not_or] at ha
        obtain ⟨hne, ha⟩ := ha
        change Function.update s.mem pa (filled 1) a = _
        rw [Function.update_of_ne hne, h.mem a ha]
        simp [freed, setNext, Kmem.set, hne]
    · refine Or.inr ⟨"kfree", bind_panic (kfree_else hf) _, bind_panic (ram_kfree_else ?_) _⟩
      exact fun hr => hf (h.frame.mp hr)
  | write pa pg =>
    refine Or.inl ⟨k.set pa pg, _, none, xs, rfl, rfl, ?_, rfl, rfl⟩
    refine ⟨h.lists.set (hown pa rfl) pg, h.free, fun a ha => ?_, h.kend⟩
    change Function.update s.mem pa pg a = Function.update k.mem pa pg a
    by_cases he : a = pa
    · rw [he, Function.update_self, Function.update_self]
    · rw [Function.update_of_ne he, Function.update_of_ne he, h.mem a ha]

lemma Agrees.map {α β : Type} {x : Eff Kmem α} {y : Eff Ram α} (h : Agrees (x k) (y s))
    (f : α → β) :
    Agrees ((x >>= fun a => pure (f a)) k) ((y >>= fun a => pure (f a)) s) := by
  cases hx : x k with
  | ok k' a =>
    cases hy : y s with
    | ok s' b =>
      rw [hx, hy] at h
      rw [bind_ok hx, bind_ok hy]
      exact ⟨congrArg f h.1, h.2⟩
    | panic msg => rw [hx, hy] at h; exact h.elim
  | panic msg =>
    cases hy : y s with
    | ok s' b => rw [hx, hy] at h; exact h.elim
    | panic msg' =>
      rw [hx, hy] at h
      rw [bind_panic hx _, bind_panic hy _]
      exact h

lemma run_follows (h : Refines k s xs) (hown : Owned ops k)
    (hpick : ∀ n < (picks ops k).length, s.pick (s.calls + n) = (picks ops k).getD n 0) :
    Agrees (run step ops k) (run ramStep ops s) := by
  induction ops generalizing k s xs with
  | nil => exact ⟨rfl, xs, h⟩
  | cons op ops ih =>
    have hfirst : ∀ k' r, step op k = .ok k' (some r) → s.pick s.calls = r := by
      intro k' r hs
      rw [picks, hs] at hpick
      exact hpick 0 (Nat.succ_pos _)
    rw [run, run]
    rcases step_refines h (fun pa hpa => hown.1 pa xs hpa h.lists) hfirst with
      ⟨k', s', answer, xs', hs, hr, href, hpk, hcalls⟩ | ⟨msg, hs, hr⟩
    · rw [bind_ok hs, bind_ok hr]
      refine (ih href (hown.2 k' answer hs) fun n hn => ?_).map (answer :: ·)
      rw [picks, hs] at hpick
      have hlater := hpick (answer.toList.length + n) (by rw [List.length_append]; omega)
      rw [List.getD_append_right _ _ _ _ (Nat.le_add_right _ _), Nat.add_sub_cancel_left] at hlater
      rw [hpk, hcalls, Nat.add_assoc, hlater]
    · rw [bind_panic hs _, bind_panic hr _]
      rfl

/-- **The free list refines the multiset of free pages**: from `kinit` on, whatever calls are made
by owners of pages, the allocator gives the answers of the one that hands out pages of a multiset in
some order, panics where that one does, and leaves the same bytes in all pages that are not free. -/
theorem kalloc_refines (hk : KERNBASE ≤ k.kend) (hend : k.kend ≤ PHYSTOP) (h0 : k.freelist = 0) :
    ∃ (k' : Kmem) (free : Multiset UInt64), kinit k = .ok k' () ∧ free.Nodup ∧
      (∀ pa, pa ∈ free ↔ k.Frame pa) ∧ ∀ ops, Owned ops k' → ∃ pick,
        Agrees (run step ops k') (run ramStep ops ⟨k'.mem, free, pick, 0, 0, k'.kend⟩) := by
  obtain ⟨k', xs, hrun, hlists, -, hmem⟩ := kinit_spec hk hend h0
  refine ⟨k', xs, hrun, hlists.nodup, hmem, fun ops hown => ?_⟩
  refine ⟨fun n => (picks ops k').getD n 0, ?_⟩
  refine run_follows ⟨hlists, rfl, fun _ _ => rfl, rfl⟩ hown fun n _ => ?_
  rw [Nat.zero_add]

theorem kalloc_refines_first : ∃ k free pick,
    kinit ⟨fun _ => filled 0, 0, KERNBASE⟩ = .ok k () ∧
      Agrees (run step [.kalloc] k) (run ramStep [.kalloc] ⟨k.mem, free, pick, 0, 0, k.kend⟩) := by
  obtain ⟨k, free, hrun, -, -, hall⟩ := kalloc_refines
    (k := ⟨fun _ => filled 0, 0, KERNBASE⟩) (UInt64.le_refl _) (by decide) rfl
  have hown : Owned [.kalloc] k := ⟨(fun _ _ h => nomatch h), fun _ _ _ => trivial⟩
  obtain ⟨pick, hagrees⟩ := hall [.kalloc] hown
  exact ⟨k, free, pick, hrun, hagrees⟩

/-! ### Each page to one owner -/

def Op.frees : Op → UInt64 → Bool
  | .kfree a, pa => a = pa
  | _, _ => false

/-- How often a page was freed. -/
def frees (ops : List Op) (pa : UInt64) : ℕ := ops.countP fun op => op.frees pa

/-- A step hands out a page of the list, or takes one back, or leaves the list. -/
lemma step_counts (h : Lists k xs) (hown : ∀ pa, op.page = some pa → pa ∉ xs)
    (hs : step op k = .ok k' answer) : ∃ ys, Lists k' ys ∧ ∀ pa, pa ≠ 0 →
      [answer].count (some pa) + ys.count pa = xs.count pa + frees [op] pa := by
  cases op with
  | kalloc =>
    cases xs with
    | nil =>
      rw [step, bind_ok (kalloc_nil h)] at hs
      cases hs
      refine ⟨[], h, fun pa hpa => ?_⟩
      simp [frees, Op.frees, Ne.symm hpa]
    | cons x xs =>
      have hrun := kalloc_cons h
      rw [step, bind_ok hrun] at hs
      cases hs
      refine ⟨xs, h.taken, fun pa _ => ?_⟩
      simp [frees, Op.frees, List.count_cons, Nat.add_comm]
  | kfree a =>
    by_cases hf : k.Frame a
    · rw [step, bind_ok (kfree_frame hf)] at hs
      cases hs
      refine ⟨a :: xs, h.kfree hf (hown a rfl), fun pa _ => ?_⟩
      simp [frees, Op.frees, List.count_cons, List.countP_cons]
    · rw [step, bind_panic (kfree_else hf) _] at hs
      cases hs
  | write a pg =>
    cases hs
    exact ⟨xs, h.set (hown a rfl) pg, fun pa _ => by simp [frees, Op.frees]⟩

lemma run_counts {answers : List (Option UInt64)} (h : Lists k xs) (hown : Owned ops k)
    (hr : run step ops k = .ok k' answers) : ∃ ys, Lists k' ys ∧ ∀ pa, pa ≠ 0 →
      answers.count (some pa) + ys.count pa = xs.count pa + frees ops pa := by
  induction ops generalizing k xs answers with
  | nil =>
    cases hr
    exact ⟨xs, h, fun pa _ => by simp [frees]⟩
  | cons op ops ih =>
    rw [run] at hr
    cases hs : step op k with
    | panic msg => rw [bind_panic hs _] at hr; cases hr
    | ok k₁ answer =>
      rw [bind_ok hs] at hr
      cases hrest : run step ops k₁ with
      | panic msg => rw [bind_panic hrest _] at hr; cases hr
      | ok k₂ answers' =>
        rw [bind_ok hrest] at hr
        cases hr
        obtain ⟨ys, hy, hcount⟩ := step_counts h (fun pa hpa => hown.1 pa xs hpa h) hs
        obtain ⟨zs, hz, hcount'⟩ := ih hy (hown.2 k₁ answer hs) hrest
        refine ⟨zs, hz, fun pa hpa => ?_⟩
        have hfirst := hcount pa hpa
        have hlater := hcount' pa hpa
        have hanswers : (answer :: answers').count (some pa) =
            [answer].count (some pa) + answers'.count (some pa) := by
          rw [← List.count_append]
          rfl
        have hfrees : frees (op :: ops) pa = frees [op] pa + frees ops pa := by
          rw [frees, frees, frees, ← List.countP_append]
          rfl
        omega

/-- **Each page has one owner at a time**: from `kinit` on, whatever calls are made by owners of
pages, a page between the kernel and `PHYSTOP` has been handed out exactly as often as it was freed
while it is free, and once more while it is not. The next `kalloc` returns 0 if and only if there is
no free page, and else a free page. -/
theorem handed_out {k₀ : Kmem} {answers : List (Option UInt64)} (hk : KERNBASE ≤ k₀.kend)
    (hend : k₀.kend ≤ PHYSTOP) (h0 : k₀.freelist = 0) (hinit : kinit k₀ = .ok k ())
    (hown : Owned ops k) (hr : run step ops k = .ok k' answers) :
    ∃ ys, Lists k' ys ∧
      (∀ pa, k₀.Frame pa →
        answers.count (some pa) + (if pa ∈ ys then 1 else 0) = frees ops pa + 1) ∧
      ∃ r k'', kalloc k' = .ok k'' r ∧ (r = 0 ↔ ys = []) ∧ (r ≠ 0 → r ∈ ys) := by
  obtain ⟨k₁, xs, hrun, hlists, -, hmem⟩ := kinit_spec hk hend h0
  obtain rfl : k₁ = k := by
    rw [hrun] at hinit
    cases hinit
    rfl
  obtain ⟨ys, hys, hcount⟩ := run_counts hlists hown hr
  refine ⟨ys, hys, fun pa hpa => ?_, ?_⟩
  · have hpage := hcount pa (frame_pos hk hpa)
    rw [hlists.nodup.count, if_pos ((hmem pa).mpr hpa), hys.nodup.count] at hpage
    omega
  · cases ys with
    | nil => exact ⟨0, k', kalloc_nil hys, ⟨fun _ => rfl, fun _ => rfl⟩, fun h => absurd rfl h⟩
    | cons y ys =>
      have hy := frame_pos hys.kend (hys.frame y List.mem_cons_self)
      refine ⟨y, _, kalloc_cons hys, ⟨fun h => absurd h hy, (fun h => nomatch h)⟩, fun _ => ?_⟩
      exact List.mem_cons_self

theorem handed_out_first : ∃ k k' x ys, kinit ⟨fun _ => filled 0, 0, KERNBASE⟩ = .ok k () ∧
    kalloc k = .ok k' x ∧ Lists k' ys ∧
      [some x].count (some KERNBASE) + (if KERNBASE ∈ ys then 1 else 0) = 1 := by
  have hk : KERNBASE ≤ KERNBASE := UInt64.le_refl _
  have hend : KERNBASE ≤ PHYSTOP := by decide
  obtain ⟨k, xs, hrun, hlists, -, hmem⟩ :=
    kinit_spec (k := ⟨fun _ => filled 0, 0, KERNBASE⟩) hk hend rfl
  have hfirst : Kmem.Frame ⟨fun _ => filled 0, 0, KERNBASE⟩ KERNBASE := by decide
  cases xs with
  | nil => exact absurd ((hmem KERNBASE).mpr hfirst) List.not_mem_nil
  | cons x xs =>
    have hkalloc := kalloc_cons hlists
    have hstep : run step [.kalloc] k = .ok (taken x k) [some x] := by
      have hone : step .kalloc k = .ok (taken x k) (some x) := bind_ok hkalloc
      rw [run, bind_ok hone]
      rfl
    have hown : Owned [.kalloc] k := ⟨(fun _ _ h => nomatch h), fun _ _ _ => trivial⟩
    obtain ⟨ys, hys, hcount, -⟩ := handed_out hk hend rfl hrun hown hstep
    exact ⟨k, _, x, ys, hrun, hkalloc, hys, hcount KERNBASE hfirst⟩

end Xv6.Vm.Freelist
