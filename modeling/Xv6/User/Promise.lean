import Xv6.User.Arena
import Xv6.Vm.Copy
import Xv6.Vm.Grow

/-!
`malloc` on the kernel's `sbrk`, whose `int` argument does not hold every size.
-/

namespace Xv6.User.Promise

open Xv6.Data.Cover Xv6.User.Umalloc Xv6.User.FreeList Xv6.User.Release Xv6.User.Allot
  Xv6.User.Arena Xv6.Vm.Paging Xv6.Vm.Memory Xv6.Vm.Grow Xv6.Vm.Copy

/-- The memory of a process: its size, and the numbers of the pages that are mapped. `calls` is how
often it has asked for more. -/
structure Space where
  sz : UInt64
  pages : Finset ℕ
  calls : ℕ

/-- The `int` added to a `uint64`. -/
def extend (n : Int32) : UInt64 := n.toInt64.toUInt64

/-- How many pages there are to hand out at most. -/
def FRAMES : ℕ := ((PHYSTOP - KERNBASE) / PGSIZE).toNat

/-- The pages from the end of `sz` to the end of `newsz`. -/
def between (sz newsz : UInt64) : Finset ℕ := Finset.Ico (pagesUp sz) (pagesUp newsz)

/-- `uvmalloc` maps them all or, where `kalloc` runs out, none. `plenty` says whether it does. -/
def uvmalloc (plenty : ℕ → Bool) (k : Space) (newsz : UInt64) : Option Space :=
  if plenty k.calls ∧ (k.pages ∪ between k.sz newsz).card ≤ FRAMES then
    some { k with sz := newsz, pages := k.pages ∪ between k.sz newsz }
  else none

def uvmdealloc (k : Space) (newsz : UInt64) : Space :=
  if k.sz ≤ newsz then k
  else { k with sz := newsz, pages := k.pages \ between newsz k.sz }

def growproc (plenty : ℕ → Bool) (k : Space) (n : Int32) : Option Space :=
  if 0 < n then
    if TRAPFRAME < k.sz + extend n then none else uvmalloc plenty k (k.sz + extend n)
  else if n < 0 then some (uvmdealloc k (k.sz + extend n))
  else some k

/-- `sys_sbrk` of `SBRK_EAGER`. -/
def sys_sbrk (plenty : ℕ → Bool) (k : Space) (n : Int32) : Space × Option ℕ :=
  match growproc plenty k n with
  | none => ({ k with calls := k.calls + 1 }, none)
  | some k' => ({ k' with calls := k.calls + 1 }, some k.sz.toNat)

/-- A program as the kernel runs it. A page below `sz` that is not mapped yet is brought by `vmfault`
when it is touched: a process for which there is none does not go on. -/
def kernel (base : ℕ) (plenty : ℕ → Bool) : Machine Space where
  base := base
  sbrk := sys_sbrk plenty
  ok k a := decide (a / 4096 ∈ k.pages) || decide (a < k.sz.toNat)

/-- What goes on beside the allocator: `sbrk` and `sbrklazy` of the program itself, and pages that
are touched for the first time. -/
structure Grows (k k' : Space) : Prop where
  sz : k.sz ≤ k'.sz
  pages : k.pages ⊆ k'.pages
  limit : k'.sz ≤ TRAPFRAME
  frames : k'.pages.card ≤ FRAMES
  below : ∀ q ∈ k'.pages, q < pagesUp k'.sz

/-- **What is promised** by the address `p` for `nbytes` bytes. -/
structure Promised (s : State Space) (h' : Heap Space) (p : ℕ) (nbytes : UInt32) : Prop where
  obtained : ∀ x, p ≤ x → x < p + nbytes.toNat → 0 < count h'.obtained x ∧ x < h'.kernel.sz.toNat
  disjoint : ∀ b ∈ s.live, ∀ x, p ≤ x → x < p + nbytes.toNat → ¬Holds Block.start Block.bytes x b
  kept : s.heap.kernel.sz ≤ h'.kernel.sz

/-- How far the break is lowered for a request of `n` units whose bytes do not fit into an `int`. -/
def lowered (n : ℕ) : ℕ := 2 ^ 32 - HEADER * n

/-- The break is in a page that stays mapped when it is lowered by `d` bytes. -/
def Behind (k : Space) (d : ℕ) : Prop :=
  k.sz.toNat / 4096 ∈ k.pages ∧ (k.sz.toNat + 11) / 4096 ∈ k.pages ∧
    (k.sz.toNat < d ∨ k.sz.toNat / 4096 * 4096 < k.sz.toNat - d)

/-- The kernel has 16 bytes more. -/
def Room (plenty : ℕ → Bool) (k : Space) : Prop :=
  k.sz + 16 ≤ TRAPFRAME ∧ plenty k.calls = true ∧
    (k.pages ∪ between k.sz (k.sz + 16)).card ≤ FRAMES

/-- **The condition**: there is a free block that is large enough, or the bytes to ask for are an
`int`, or asking for what they are as an `int` brings no header behind the break. -/
def Safe (plenty : ℕ → Bool) (fs : List Block) (k : Space) (nbytes : UInt32) : Prop :=
  (∃ b ∈ fs, (unitsFor nbytes).toNat ≤ b.units) ∨ (unitsFor nbytes).toNat < 2 ^ 27 ∨
    ((unitsFor nbytes).toNat ≤ 2 ^ 28 → ¬Behind k (lowered (unitsFor nbytes).toNat)) ∧
      ((unitsFor nbytes).toNat = 2 ^ 28 + 1 → ¬Room plenty k)

variable {base : ℕ} {plenty : ℕ → Bool} {k k' : Space} {s s' : State Space} {h : Heap Space}
  {fs : List Block} {live : Multiset Block} {n : Int32} {nu : UInt32}

/-! ### The request as an `int` -/

lemma extend_toNat (n : Int32) : ((extend n).toNat : ℤ) = n.toInt % 2 ^ 64 := by
  have hbmod : n.toInt64.toInt = ((extend n).toNat : ℤ).bmod (2 ^ 64) :=
    BitVec.toInt_eq_toNat_bmod _
  rw [Int32.toInt_toInt64] at hbmod
  have hlt := (extend n).toNat_lt
  rw [hbmod, Int.bmod_def]
  omega

lemma add_extend (sz : UInt64) (n : Int32) :
    ((sz + extend n).toNat : ℤ) = (sz.toNat + n.toInt) % 2 ^ 64 := by
  rw [UInt64.toNat_add]
  push_cast
  rw [extend_toNat]
  omega

/-- The units whose bytes are no `int`: the break is lowered. -/
lemma request_neg (h : 2 ^ 27 ≤ nu.toNat) (h' : nu.toNat ≤ 2 ^ 28) :
    (request nu).toInt = -(lowered nu.toNat : ℤ) := by
  unfold lowered HEADER
  rw [request_bmod, Int.bmod_def]
  omega

lemma request_last (h : nu.toNat = 2 ^ 28 + 1) : request nu = 16 := by
  rw [← Int32.toInt_inj, request_bmod, h]
  rfl

lemma unitsFor_le (nbytes : UInt32) : (unitsFor nbytes).toNat ≤ 2 ^ 28 + 1 := by
  have hlt := nbytes.toNat_lt
  rw [unitsFor_toNat]
  omega

/-! ### The kernel -/

lemma sbrk_pos (hn : 0 < n) {a : ℕ} (h : sys_sbrk plenty k n = (k', some a)) :
    a = k.sz.toNat ∧ k'.sz = k.sz + extend n ∧ ¬TRAPFRAME < k'.sz ∧ plenty k.calls = true ∧
      k'.pages = k.pages ∪ between k.sz k'.sz ∧ k'.pages.card ≤ FRAMES := by
  unfold sys_sbrk growproc uvmalloc at h
  rw [if_pos hn] at h
  split_ifs at h with htop hplenty
  · cases (Prod.mk.inj h).2
  · obtain ⟨rfl, ha⟩ := Prod.mk.inj h
    exact ⟨(Option.some.inj ha).symm, rfl, htop, hplenty.1, rfl, hplenty.2⟩
  · cases (Prod.mk.inj h).2

lemma sbrk_none (h : sys_sbrk plenty k n = (k', none)) : k' = { k with calls := k.calls + 1 } := by
  unfold sys_sbrk at h
  split at h
  · exact (Prod.mk.inj h).1.symm
  · cases (Prod.mk.inj h).2

/-! ### What is kept -/

/-- The free blocks on the list, if there is one yet. -/
def FreeBlocks (base : ℕ) (plenty : ℕ → Bool) (s : State Space) (fs : List Block) : Prop :=
  s.heap.freep = 0 ∧ fs = [] ∨ Listed (kernel base plenty) s.heap (⟨base, 0⟩ :: fs)

/-- **What holds of every state.** Memory that is obtained is below the break, and but for the rest
of the page that the break was in it is mapped. -/
structure Kept (base : ℕ) (plenty : ℕ → Bool) (s : State Space) : Prop where
  sound : s.heap.freep = 0 ∧ s.heap.obtained = [] ∧ s.live = 0 ∨
    ∃ fs, Sound (kernel base plenty) s.heap fs s.live
  below : ∀ r ∈ s.heap.obtained, r.stop ≤ s.heap.kernel.sz.toNat
  large : ∀ r ∈ s.heap.obtained, 8192 ≤ r.bytes
  mapped : ∀ r ∈ s.heap.obtained, ∀ x, r.start + 4096 ≤ x → x < r.stop →
    x / 4096 ∈ s.heap.kernel.pages
  base : base + HEADER ≤ s.heap.kernel.sz.toNat
  limit : s.heap.kernel.sz ≤ TRAPFRAME
  frames : s.heap.kernel.pages.card ≤ FRAMES
  top : ∀ q ∈ s.heap.kernel.pages, q < pagesUp s.heap.kernel.sz

lemma card_pages (P : Finset ℕ) (N : ℕ) :
    ((Finset.range N).filter fun x => x / 4096 ∈ P).card ≤ 4096 * P.card := by
  have himage : ((Finset.range N).filter fun x => x / 4096 ∈ P).image (· / 4096) ⊆ P := by
    intro q hq
    obtain ⟨x, hx, rfl⟩ := Finset.mem_image.mp hq
    exact (Finset.mem_filter.mp hx).2
  refine (Finset.card_le_mul_card_image _ 4096 fun q _ => ?_).trans
    (Nat.mul_le_mul_left 4096 (Finset.card_le_card himage))
  have hsub : (((Finset.range N).filter fun x => x / 4096 ∈ P).filter fun x => x / 4096 = q) ⊆
      Finset.Ico (4096 * q) (4096 * q + 4096) := by
    intro x hx
    have hxq := (Finset.mem_filter.mp hx).2
    rw [Finset.mem_Ico]
    omega
  refine (Finset.card_le_card hsub).trans ?_
  rw [Nat.card_Ico]
  omega

/-- The part of a region that was mapped when it was obtained. -/
def tailLen (r : Block) : ℕ := r.bytes - 4096

def tailStart (r : Block) : ℕ := r.start + 4096

lemma total_tail {t : Multiset Block} (h : ∀ r ∈ t, 8192 ≤ r.bytes) :
    total Block.bytes t ≤ 2 * total tailLen t := by
  induction t using Multiset.induction_on with
  | empty => exact le_rfl
  | cons r t ih =>
    have hr := h r (Multiset.mem_cons_self r t)
    have ht := ih fun r' hr' => h r' (Multiset.mem_cons_of_mem hr')
    rw [total_cons, total_cons]
    unfold tailLen at *
    omega

lemma holds_tail {x : ℕ} {r : Block} (hx : Holds tailStart tailLen x r) :
    Holds Block.start Block.bytes x r := by
  have h1 : r.start + 4096 ≤ x := hx.1
  have h2 : x < r.start + 4096 + (r.bytes - 4096) := hx.2
  have h3 : x < r.start + r.bytes := by omega
  exact ⟨by omega, h3⟩

lemma cover_tail (t : Multiset Block) (x : ℕ) :
    cover tailStart tailLen t x ≤ count t x := by
  induction t using Multiset.induction_on with
  | empty =>
    rw [cover_zero]
    exact Nat.zero_le _
  | cons r t ih =>
    rw [cover_cons, count, cover_cons]
    refine Nat.add_le_add ?_ ih
    by_cases hx : Holds tailStart tailLen x r
    · rw [if_pos hx, if_pos (holds_tail hx)]
    · rw [if_neg hx]
      exact Nat.zero_le _

/-- **There is not that much memory**: the sizes of blocks do not overflow. -/
lemma Kept.total_le (hK : Kept base plenty s) (honce : ∀ x, count s.heap.obtained x ≤ 1) :
    total Block.bytes s.heap.obtained ≤ 2 ^ 28 := by
  obtain ⟨N, hN⟩ := exists_bound tailStart tailLen (s.heap.obtained : Multiset Block)
  have htail := total_tail (t := s.heap.obtained) fun r hr => hK.large r (Multiset.mem_coe.mp hr)
  have hsum := sum_cover hN
  have hle : ∑ x ∈ Finset.range N,
        cover tailStart tailLen (s.heap.obtained : Multiset Block) x ≤
      ∑ x ∈ Finset.range N, if x / 4096 ∈ s.heap.kernel.pages then 1 else 0 := by
    refine Finset.sum_le_sum fun x _ => ?_
    by_cases hx : x / 4096 ∈ s.heap.kernel.pages
    · rw [if_pos hx]
      exact (cover_tail _ x).trans (honce x)
    · rw [if_neg hx, Nat.le_zero]
      by_contra hne
      obtain ⟨r, hr, hxr⟩ := exists_of_cover (Nat.pos_of_ne_zero hne)
      refine hx (hK.mapped r (Multiset.mem_coe.mp hr) x hxr.1 ?_)
      have hlt := hxr.2
      have hbig := hK.large r (Multiset.mem_coe.mp hr)
      unfold tailStart tailLen at hlt
      unfold Block.stop
      omega
  have hcard : ∑ x ∈ Finset.range N, (if x / 4096 ∈ s.heap.kernel.pages then 1 else 0) ≤
      4096 * s.heap.kernel.pages.card := by
    rw [Finset.sum_boole]
    exact card_pages _ _
  have hframes : 4096 * s.heap.kernel.pages.card ≤ 4096 * FRAMES := Nat.mul_le_mul_left _ hK.frames
  have hvalue : FRAMES = 2 ^ 15 := rfl
  omega

/-! ### Requests that are an `int` -/

lemma pagesUp_le {x : ℕ} {sz : UInt64} (h : pagesUp sz ≤ x / 4096) : sz.toNat ≤ x := by
  unfold pagesUp at h
  omega

lemma toNat_add_extend {a : UInt64} {m : ℕ} (ha : a ≤ TRAPFRAME) (hn : n.toInt = m)
    (hm : m < 2 ^ 32) : (a + extend n).toNat = a.toNat + m := by
  have hadd := add_extend a n
  have htop : a.toNat ≤ 2 ^ 38 - 8192 := ha
  rw [hn] at hadd
  omega

/-- What the kernel brings for a request that is an `int`. -/
structure Brought (k k' : Space) (a m : ℕ) : Prop where
  start : a = k.sz.toNat
  sz : k'.sz.toNat = a + m
  pages : k'.pages = k.pages ∪ between k.sz k'.sz
  frames : k'.pages.card ≤ FRAMES
  limit : k'.sz ≤ TRAPFRAME

lemma sbrk_brought {a : ℕ} (hlimit : k.sz ≤ TRAPFRAME) (hnu : 0 < nu.toNat)
    (hlt : nu.toNat < 2 ^ 27) (h : sys_sbrk plenty k (request nu) = (k', some a)) :
    Brought k k' a (HEADER * nu.toNat) := by
  have hreq := request_toInt hlt
  unfold HEADER at hreq ⊢
  have hpos : 0 < request nu := by
    rw [Int32.lt_iff_toInt_lt, hreq, Int32.toInt_zero]
    omega
  obtain ⟨ha, hsz, htop, -, hpages, hframes⟩ := sbrk_pos hpos h
  have hadd : (k.sz + extend (request nu)).toNat = k.sz.toNat + 16 * nu.toNat :=
    toNat_add_extend hlimit (by rw [hreq]; norm_cast) (by omega)
  exact ⟨ha, by rw [hsz, hadd, ha], hpages, hframes, UInt64.not_lt.mp htop⟩

lemma kernel_ok {x : ℕ} : (kernel base plenty).ok k x = true ↔ x / 4096 ∈ k.pages ∨ x < k.sz.toNat := by
  change (decide (x / 4096 ∈ k.pages) || decide (x < k.sz.toNat)) = true ↔ _
  rw [Bool.or_eq_true, decide_eq_true_iff, decide_eq_true_iff]

lemma fresh_brought {a : ℕ} (hK : Kept base plenty s) (hlt : nu.toNat < 2 ^ 27)
    (hB : Brought s.heap.kernel k' a (HEADER * nu.toNat)) (honce : ∀ x, count s.heap.obtained x ≤ 1) :
    Fresh (kernel base plenty) s.heap k' a nu.toNat := by
  have hsz := hB.sz
  have hstart := hB.start
  refine ⟨fun r hr => ?_, ?_, fun x hx => ?_, fun x hx hx' => ?_, ?_⟩
  · rw [hstart]
    exact hK.below r hr
  · rw [hstart]
    exact hK.base
  · rw [kernel_ok] at hx ⊢
    rw [hB.pages, Finset.mem_union]
    rcases hx with hx | hx
    · exact .inl (.inl hx)
    · exact .inr (by omega)
  · rw [kernel_ok]
    exact .inr (by omega)
  · have htotal := hK.total_le honce
    unfold HEADER
    omega

/-- **A block of a sound heap is what was promised.** -/
lemma promised_of_sound {h' : Heap Space} {fs' : List Block} {b : Block} {nbytes : UInt32}
    (hS : Sound (kernel base plenty) h' fs' (b ::ₘ s.live))
    (hb : b.units = (unitsFor nbytes).toNat)
    (hbelow : ∀ r ∈ h'.obtained, r.stop ≤ h'.kernel.sz.toNat)
    (hkept : s.heap.kernel.sz ≤ h'.kernel.sz) : Promised s h' (b.start + HEADER) nbytes := by
  have hbytes : b.bytes = 16 * b.units := rfl
  have hH : HEADER = 16 := rfl
  rw [unitsFor_toNat] at hb
  have hin : ∀ x, b.start + HEADER ≤ x → x < b.start + HEADER + nbytes.toNat →
      Holds Block.start Block.bytes x b := by
    intro x hx hx'
    exact ⟨by omega, by omega⟩
  have hmem : b ∈ (fs' : Multiset Block) + b ::ₘ s.live :=
    Multiset.mem_add.mpr (.inr (Multiset.mem_cons_self b _))
  refine ⟨fun x hx hx' => ?_, fun c hc x hx hx' => ?_, hkept⟩
  · have hheld := hS.held hmem (hin x hx hx')
    obtain ⟨r, hr, hxr⟩ := exists_of_cover hheld
    exact ⟨hheld, lt_of_lt_of_le hxr.2 (hbelow r (Multiset.mem_coe.mp hr))⟩
  · have hone := hS.le_one x
    rw [Multiset.add_cons] at hone
    exact not_holds hone (hin x hx hx') (Multiset.mem_add.mpr (.inr hc))

/-! ### Requests that are not -/

section

variable {κ : Type} {M : Machine κ} {h : Heap κ} {k' : κ} {a : ℕ} {m : UInt32}

lemma stop_le (hS : Sound M h fs live) (hbehind : ∀ r ∈ h.obtained, r.stop ≤ a)
    (hbase : M.base + HEADER ≤ a) {b : Block} (hb : b ∈ (⟨M.base, 0⟩ : Block) :: fs) : b.stop ≤ a := by
  rcases List.mem_cons.mp hb with rfl | hb
  · change M.base + 0 ≤ a
    omega
  · have hpos := hS.fsPos hb
    have hstop := stop_eq b
    have hlast : Holds Block.start Block.bytes (b.stop - 1) b := by
      unfold Holds
      unfold Block.stop Block.bytes HEADER at *
      omega
    obtain ⟨r, hr, hxr⟩ := exists_of_cover (hS.held (Multiset.mem_add.mpr
      (.inl (Multiset.mem_coe.mpr hb))) hlast)
    have hr' := hbehind r (Multiset.mem_coe.mp hr)
    have hlt : b.stop - 1 < r.stop := hxr.2
    omega

/-- **A request that is answered with something else**: where `sbrk` returns `a` and the header at
`a` can be accessed, `malloc` takes the size for granted and returns the address behind it. -/
lemma granted (hbase : 0 < M.base) (hS : Sound M h fs live) (hsmall : ∀ b ∈ fs, b.units < m.toNat)
    (hm : 4096 ≤ m.toNat) (hm' : m.toNat ≤ 2 ^ 28 + 1)
    (hk : M.sbrk h.kernel (request m) = (k', some a)) (hbehind : ∀ r ∈ h.obtained, r.stop ≤ a)
    (ha : M.base + HEADER ≤ a) (hok : touches M k' a = true)
    (hlist : ∀ b ∈ (⟨M.base, 0⟩ : Block) :: fs, touches M k' b.start = true)
    (hfit : total Block.bytes h.obtained ≤ 2 ^ 28) :
    ∃ h', Returns (fun fuel => mallocLoop M fuel h h.freep (h.mem h.freep).ptr m) (h', a + HEADER) ∧
      h'.kernel = k' := by
  have hasked : asked m = m := by
    unfold asked
    rw [if_neg]
    rw [UInt32.lt_iff_toNat_lt, not_lt]
    exact hm
  have hH : HEADER = 16 := rfl
  have hsmallL : ∀ b ∈ (⟨M.base, 0⟩ : Block) :: fs, b.units < m.toNat := by
    intro b hb
    rcases List.mem_cons.mp hb with rfl | hb
    · change 0 < m.toNat
      omega
    · exact hsmall b hb
  obtain ⟨pre, p, hL⟩ : ∃ pre p, (⟨M.base, 0⟩ : Block) :: fs = pre ++ [p] :=
    ⟨_, _, (List.dropLast_append_getLast (List.cons_ne_nil _ _)).symm⟩
  have hpL : p ∈ (⟨M.base, 0⟩ : Block) :: fs := by
    rw [hL]
    exact List.mem_append_right _ List.mem_cons_self
  have hpstop := stop_le hS hbehind ha hpL
  have hpunits : 16 * p.units ≤ 2 ^ 28 := by
    rcases List.mem_cons.mp hpL with rfl | hpfs
    · exact Nat.zero_le _
    · have htotal := hS.total
      have hsum := List.single_le_sum (fun n _ => Nat.zero_le n) p.units
        (List.mem_map_of_mem (f := Block.units) hpfs)
      omega
  have hpa : p.start < a := by
    rcases List.mem_cons.mp hpL with rfl | hpfs
    · change M.base < a
      omega
    · have hpos := hS.fsPos hpfs
      rw [stop_eq] at hpstop
      omega
  obtain ⟨h₁, hh₁⟩ : ∃ h₁ : Heap κ,
      h₁ = { h with kernel := k', obtained := brought a (request m) ++ h.obtained } := ⟨_, rfl⟩
  obtain ⟨h₂, hh₂⟩ : ∃ h₂ : Heap κ,
      h₂ = { h₁ with mem := Function.update h.mem a ⟨(h.mem a).ptr, m⟩ } := ⟨_, rfl⟩
  have hlisted : Listed M h₂ (pre ++ p :: []) := by
    rw [← hL, hh₂, hh₁]
    refine ⟨hS.listed.base, hS.listed.linked.transport fun b hb => Function.update_of_ne ?_ _ _,
      hS.listed.sorted, hS.listed.freep, hlist⟩
    rcases List.mem_cons.mp hb with rfl | hbfs
    · change M.base ≠ a
      omega
    · have hb' := stop_le hS hbehind ha hb
      have hpos := hS.fsPos hbfs
      rw [stop_eq] at hb'
      omega
  have hsize : (h₂.mem (⟨a, m.toNat⟩ : Block).start).size.toNat = (⟨a, m.toNat⟩ : Block).units := by
    rw [hh₂]
    change (Function.update h.mem a ⟨(h.mem a).ptr, m⟩ a).size.toNat = m.toNat
    rw [Function.update_self]
  have hok₂ : touches M h₂.kernel (⟨a, m.toNat⟩ : Block).start = true := by
    rw [hh₂, hh₁]
    exact hok
  have hlen : fs.length + 1 = pre.length + 1 := by
    have hlen := congrArg List.length hL
    rwa [List.length_cons, List.length_append, List.length_singleton] at hlen
  have hround : (pre ++ p :: []).length ≤ fs.length + 2 := by
    rw [List.length_append, List.length_singleton]
    omega
  obtain ⟨mem, hfree, hlisted', -⟩ := free_spec hlisted hpa hpstop
    (fun q hq => absurd hq List.not_mem_nil) (show 0 < m.toNat by omega) hsize hok₂
    (show p.units + m.toNat + 0 < 2 ^ 32 by omega) hround
  obtain ⟨h₃, hh₃⟩ : ∃ h₃ : Heap κ, h₃ = { h₂ with mem := mem, freep := p.start } := ⟨_, rfl⟩
  have hkernel : h₃.kernel = k' := by rw [hh₃, hh₂, hh₁]
  have hfreep : h₃.freep = p.start := by rw [hh₃]
  rw [← hh₃] at hfree hlisted'
  -- `morecore` has put the block on the list
  have hmore : morecore M (fs.length + 2) h m = .ok (h₃, h₃.freep) := by
    have hk' : M.sbrk h.kernel (request (asked m)) = (k', some a) := by
      rw [hasked]
      exact hk
    have ho : h₁ = { h with
        kernel := k'
        obtained := brought a (request (asked m)) ++ h.obtained } := by
      rw [hasked]
      exact hh₁
    refine morecore_some hk' ho hok ?_
    rw [hasked, ← hh₂]
    exact hfree
  have hpbase : M.base ≤ p.start := hS.listed.base_le hpL
  have hpok : touches M h₃.kernel p.start = true := by
    rw [hkernel]
    exact hlist p hpL
  have hgive : give p ⟨a, m.toNat⟩ [] = join p ⟨a, m.toNat⟩ [] := rfl
  have hlen₃ : (pre ++ give p ⟨a, m.toNat⟩ []).length ≤ fs.length + 2 := by
    have hle : (give p ⟨a, m.toNat⟩ []).length ≤ 0 + 2 := length_give
    rw [List.length_append]
    omega
  have hwhich : ∀ b ∈ pre ++ give p ⟨a, m.toNat⟩ [], m.toNat ≤ b.units →
      (taken b m.toNat).start = a := by
    intro b hb hle
    have hbL : b ∉ (⟨M.base, 0⟩ : Block) :: fs := fun hb' => by
      have hlt := hsmallL b hb'
      omega
    rw [hL] at hbL
    rcases List.mem_append.mp hb with hb | hb
    · exact absurd (List.mem_append_left _ hb) hbL
    · rw [hgive] at hb
      unfold join at hb
      unfold taken
      split_ifs at hb with heq
      · obtain rfl := List.mem_singleton.mp hb
        change p.start + HEADER * (p.units + m.toNat - m.toNat) = a
        rw [Nat.add_sub_cancel]
        exact heq
      · rcases List.mem_cons.mp hb with rfl | hb
        · exact absurd (List.mem_append_right _ List.mem_cons_self) hbL
        · obtain rfl := List.mem_singleton.mp hb
          change a + HEADER * (m.toNat - m.toNat) = a
          rw [Nat.sub_self]
          rfl
  obtain ⟨h', hloop, hkernel'⟩ : ∃ h', mallocLoop M (fs.length + 2) h₃ h₃.freep
      (h₃.mem h₃.freep).ptr m = .ok (h', a + HEADER) ∧ h'.kernel = k' := by
    obtain ⟨j, hj⟩ : ∃ j, fs.length + 2 = j + (pre ++ give p ⟨a, m.toNat⟩ []).length :=
      ⟨_, (Nat.sub_add_cancel hlen₃).symm⟩
    rw [hj]
    rcases search hlisted' (show 0 < m.toNat by omega) j with
      ⟨us, q, b, vs, heq, hle, htake⟩ | ⟨hnone, -⟩
    · have hb : b ∈ pre ++ give p ⟨a, m.toNat⟩ [] := by
        rw [heq]
        exact List.mem_append_right _ (List.mem_cons_of_mem _ List.mem_cons_self)
      have hstart := hwhich b hb hle
      rw [heq] at hlisted'
      obtain ⟨mem', htake', -, -, -⟩ := take_spec hlisted' (show 0 < m.toNat by omega) hle fun _ => by
        rw [hstart, hkernel]
        exact hok
      refine ⟨{ h₃ with mem := mem', freep := q.start }, htake.trans (htake'.trans ?_), hkernel⟩
      rw [hstart]
    · obtain ⟨c, hc, hle⟩ := mem_give (p := p) (b := ⟨a, m.toNat⟩) []
      have hlt := hnone c (List.mem_append_right _ hc)
      change m.toNat ≤ c.units at hle
      omega
  have hrefill : refill M (fs.length + 2) h m = .ok (h', a + HEADER) := by
    unfold refill
    rw [hmore, ok_bind, if_neg (show ¬h₃.freep = 0 by omega),
      load_ok (show touches M h₃.kernel h₃.freep = true by rw [hfreep]; exact hpok), ok_bind]
    exact hloop
  rcases search hS.listed (show 0 < m.toNat by omega) (fs.length + 2) with
    ⟨us, q, b, vs, heq, hle, -⟩ | ⟨-, hsearch⟩
  · have hb : b ∈ (⟨M.base, 0⟩ : Block) :: fs := by
      rw [heq]
      exact List.mem_append_right _ (List.mem_cons_of_mem _ List.mem_cons_self)
    have hlt := hsmallL b hb
    omega
  · exact ⟨h', Returns.of_mono (hsearch.trans hrefill) fun _ => mallocLoop_mono, hkernel'⟩

/-- Where the header at the address that `sbrk` returns cannot be accessed, `malloc` does not
return. -/
lemma killed (hS : Sound M h fs live) (hsmall : ∀ b ∈ fs, b.units < m.toNat) (hm : 4096 ≤ m.toNat)
    (hk : M.sbrk h.kernel (request m) = (k', some a)) (hok : ¬touches M k' a = true)
    (r : Heap κ × ℕ) :
    ¬Returns (fun fuel => mallocLoop M fuel h h.freep (h.mem h.freep).ptr m) r := by
  rintro ⟨N, hN⟩
  have hasked : ¬m < 4096 := by
    rw [UInt32.lt_iff_toNat_lt, not_lt]
    exact hm
  rcases search hS.listed (show 0 < m.toNat by omega) N with
    ⟨us, q, b, vs, heq, hle, -⟩ | ⟨-, hsearch⟩
  · have hb : b ∈ (⟨M.base, 0⟩ : Block) :: fs := by
      rw [heq]
      exact List.mem_append_right _ (List.mem_cons_of_mem _ List.mem_cons_self)
    rcases List.mem_cons.mp hb with rfl | hb
    · change m.toNat ≤ 0 at hle
      omega
    · exact absurd hle (Nat.not_le.mpr (hsmall b hb))
  · have hrun := hN (N + ((⟨M.base, 0⟩ : Block) :: fs).length) (Nat.le_add_right _ _)
    simp only at hrun
    rw [hsearch] at hrun
    have hmore : morecore M N h m = .error .killed := by
      unfold morecore
      simp only [if_neg hasked, hk]
      have hload : load M { h with kernel := k', obtained := brought a (request m) ++ h.obtained } a =
          .error .killed := if_neg hok
      rw [hload]
      rfl
    unfold refill at hrun
    rw [hmore] at hrun
    cases hrun

end

lemma touches_iff {x : ℕ} : touches (kernel base plenty) k x = true ↔
    (x / 4096 ∈ k.pages ∨ x < k.sz.toNat) ∧ ((x + 11) / 4096 ∈ k.pages ∨ x + 11 < k.sz.toNat) := by
  unfold touches
  rw [Bool.and_eq_true, kernel_ok, kernel_ok]

lemma page_lt {q : ℕ} {sz : UInt64} : q < pagesUp sz ↔ q * 4096 < sz.toNat := by
  unfold pagesUp
  omega

/-- What the kernel does with a request that is not positive. -/
lemma sbrk_cases {a d : ℕ} (hreq : n.toInt = -(d : ℤ)) (hd : d ≤ 2 ^ 31)
    (h : sys_sbrk plenty k n = (k', some a)) :
    a = k.sz.toNat ∧ ((k'.sz = k.sz ∧ k'.pages = k.pages ∧ (k.sz.toNat < d ∨ d = 0)) ∨
      0 < d ∧ d ≤ k.sz.toNat ∧ k'.sz.toNat = k.sz.toNat - d ∧
        k'.pages = k.pages \ between k'.sz k.sz) := by
  have hadd := add_extend k.sz n
  have hlt := k.sz.toNat_lt
  rw [hreq] at hadd
  have hpos : ¬0 < n := by
    rw [Int32.lt_iff_toInt_lt, hreq, Int32.toInt_zero]
    omega
  have hneg : n < 0 ↔ 0 < d := by
    rw [Int32.lt_iff_toInt_lt, hreq, Int32.toInt_zero]
    omega
  unfold sys_sbrk growproc uvmdealloc at h
  rw [if_neg hpos] at h
  by_cases hd0 : 0 < d
  · rw [if_pos (hneg.mpr hd0)] at h
    by_cases hle : k.sz ≤ k.sz + extend n
    · rw [if_pos hle] at h
      obtain ⟨rfl, ha⟩ := Prod.mk.inj h
      have hle' := UInt64.le_iff_toNat_le.mp hle
      exact ⟨(Option.some.inj ha).symm, .inl ⟨rfl, rfl, .inl (by omega)⟩⟩
    · rw [if_neg hle] at h
      obtain ⟨rfl, ha⟩ := Prod.mk.inj h
      have hlt' := UInt64.lt_iff_toNat_lt.mp (UInt64.not_le.mp hle)
      refine ⟨(Option.some.inj ha).symm, .inr ⟨hd0, by omega, ?_, rfl⟩⟩
      change (k.sz + extend n).toNat = k.sz.toNat - d
      omega
  · rw [if_neg (mt hneg.mp hd0)] at h
    obtain ⟨rfl, ha⟩ := Prod.mk.inj h
    exact ⟨(Option.some.inj ha).symm, .inl ⟨rfl, rfl, .inr (by omega)⟩⟩

lemma sbrk_some (h : n.toInt ≤ 0) : ∃ k', sys_sbrk plenty k n = (k', some k.sz.toNat) := by
  have hpos : ¬0 < n := by
    rw [Int32.lt_iff_toInt_lt, Int32.toInt_zero]
    omega
  unfold sys_sbrk growproc
  rw [if_neg hpos]
  by_cases hneg : n < 0
  · rw [if_pos hneg]
    exact ⟨_, rfl⟩
  · rw [if_neg hneg]
    exact ⟨_, rfl⟩

/-- A header behind the break that begins in its page ends there. -/
lemma same_page {x d : ℕ} (h : (x + 11) / 4096 * 4096 < x) (hd : d ≤ x)
    (hx : x < d ∨ x / 4096 * 4096 < x - d) :
    x / 4096 * 4096 < x - d ∧ (x + 11) / 4096 * 4096 < x - d := by
  have heq : (x + 11) / 4096 = x / 4096 := by omega
  rw [heq]
  omega

/-- **The break is lowered**: what is behind the old one can be accessed where it is in a page that
stays. -/
lemma sbrk_lowered {a : ℕ} (htop : ∀ q ∈ k.pages, q < pagesUp k.sz) (hnu : 2 ^ 27 ≤ nu.toNat)
    (hnu' : nu.toNat ≤ 2 ^ 28) (h : sys_sbrk plenty k (request nu) = (k', some a)) :
    a = k.sz.toNat ∧ k'.sz ≤ k.sz ∧
      (touches (kernel base plenty) k' a = true ↔ Behind k (lowered nu.toNat)) ∧
      (Behind k (lowered nu.toNat) → ∀ x < a, (kernel base plenty).ok k' x = true) := by
  have hd : lowered nu.toNat ≤ 2 ^ 31 := by
    unfold lowered HEADER
    omega
  obtain ⟨rfl, hcases⟩ := sbrk_cases (request_neg hnu hnu') hd h
  obtain ⟨d, hd'⟩ : ∃ d, d = lowered nu.toNat := ⟨_, rfl⟩
  rw [← hd'] at hcases ⊢
  clear hd hd'
  have hpage : ∀ q ∈ k.pages, q * 4096 < k.sz.toNat := fun q hq => page_lt.mp (htop q hq)
  rcases hcases with ⟨hsz, hpages, hout⟩ | ⟨hpos, hle, hsz, hpages⟩
  · refine ⟨rfl, UInt64.le_iff_toNat_le.mpr (by rw [hsz]), ?_, fun _ x hx => ?_⟩
    · rw [touches_iff, hsz, hpages]
      unfold Behind
      constructor
      · rintro ⟨h1 | h1, h2 | h2⟩
        · have hq := hpage _ h1
          exact ⟨h1, h2, by omega⟩
        · omega
        · omega
        · omega
      · rintro ⟨h1, h2, -⟩
        exact ⟨.inl h1, .inl h2⟩
    · rw [kernel_ok, hsz]
      exact .inr hx
  · have hmem : ∀ q, q ∈ k'.pages ↔ q ∈ k.pages ∧ q * 4096 < k.sz.toNat - d := by
      intro q
      rw [hpages, Finset.mem_sdiff, between, Finset.mem_Ico, ← hsz, ← page_lt]
      constructor
      · rintro ⟨hq, hnot⟩
        have hlt := htop q hq
        exact ⟨hq, by omega⟩
      · rintro ⟨hq, hlt⟩
        exact ⟨hq, by omega⟩
    refine ⟨rfl, UInt64.le_iff_toNat_le.mpr (by omega), ?_, fun hB x hx => ?_⟩
    · rw [touches_iff, hmem, hmem, hsz]
      unfold Behind
      constructor
      · rintro ⟨⟨h1, h1'⟩ | h1, ⟨h2, h2'⟩ | h2⟩
        · exact ⟨h1, h2, .inr h1'⟩
        · omega
        · omega
        · omega
      · rintro ⟨h1, h2, h3⟩
        have hsame := same_page (hpage _ h2) hle h3
        exact ⟨.inl ⟨h1, hsame.1⟩, .inl ⟨h2, hsame.2⟩⟩
    · obtain ⟨h1, -, h3⟩ := hB
      rw [kernel_ok, hmem, hsz]
      by_cases hxs : x < k.sz.toNat - d
      · exact .inr hxs
      · have hsame : x / 4096 = k.sz.toNat / 4096 := by omega
        rw [hsame]
        exact .inl ⟨h1, by omega⟩

/-- The last sizes of all: the kernel is asked for 16 bytes. -/
lemma sbrk_last (hlimit : k.sz ≤ TRAPFRAME) (hnu : nu.toNat = 2 ^ 28 + 1) :
    (Room plenty k → ∃ k', sys_sbrk plenty k (request nu) = (k', some k.sz.toNat) ∧
        k'.sz.toNat = k.sz.toNat + 16) ∧
      (¬Room plenty k → ∃ k', sys_sbrk plenty k (request nu) = (k', none)) := by
  have hadd : (k.sz + 16).toNat = k.sz.toNat + 16 := by
    have htop : k.sz.toNat ≤ TRAPFRAME.toNat := hlimit
    have hvalue : TRAPFRAME.toNat = 2 ^ 38 - 8192 := rfl
    have h16 : (16 : UInt64).toNat = 16 := rfl
    rw [UInt64.toNat_add, h16]
    omega
  have hextend : extend 16 = 16 := by decide
  rw [request_last hnu]
  unfold sys_sbrk growproc uvmalloc Room
  rw [if_pos (by decide), hextend]
  constructor
  · rintro ⟨hle, hplenty, hcard⟩
    rw [if_neg (UInt64.not_lt.mpr hle), if_pos ⟨hplenty, hcard⟩]
    exact ⟨_, rfl, hadd⟩
  · intro hno
    by_cases hle : TRAPFRAME < k.sz + 16
    · rw [if_pos hle]
      exact ⟨_, rfl⟩
    · rw [if_neg hle, if_neg fun hyes => hno ⟨UInt64.not_lt.mp hle, hyes.1, hyes.2⟩]
      exact ⟨_, rfl⟩

/-! ### A call -/

variable {nbytes : UInt32} {r : Heap Space × ℕ}

/-- The blocks in use after a call that has returned `p`. -/
def after (live : Multiset Block) (nbytes : UInt32) (p : ℕ) : Multiset Block :=
  if p = 0 then live else ⟨p - HEADER, (unitsFor nbytes).toNat⟩ ::ₘ live

lemma after_block {b : Block} (hb : b.units = (unitsFor nbytes).toNat) :
    after live nbytes (b.start + HEADER) = b ::ₘ live := by
  unfold after
  rw [if_neg (by unfold HEADER; omega), Nat.add_sub_cancel, ← hb]

lemma Kept.refused (hK : Kept base plenty s) (hS : Sound (kernel base plenty) s.heap fs s.live) :
    Kept base plenty
      ⟨{ s.heap with kernel := { s.heap.kernel with calls := s.heap.kernel.calls + 1 } }, s.live⟩ :=
  ⟨.inr ⟨fs, keeps_sound hS fun _ h => h⟩, hK.below, hK.large, hK.mapped, hK.base, hK.limit,
    hK.frames, hK.top⟩

lemma Kept.grown {h' : Heap Space} {fs' : List Block} {live' : Multiset Block} {a m : ℕ}
    (hK : Kept base plenty s) (hS : Sound (kernel base plenty) h' fs' live') (hm : 4096 ≤ m)
    (ho : h'.obtained = ⟨a, m⟩ :: s.heap.obtained)
    (hB : Brought s.heap.kernel h'.kernel a (HEADER * m)) : Kept base plenty ⟨h', live'⟩ := by
  have hsz := hB.sz
  have hstart := hB.start
  have hstop : (⟨a, m⟩ : Block).stop = a + HEADER * m := rfl
  have hH : HEADER = 16 := rfl
  refine ⟨.inr ⟨fs', hS⟩, fun r hr => ?_, fun r hr => ?_, fun r hr x hx hx' => ?_, ?_, hB.limit,
    hB.frames, fun q hq => ?_⟩
  · rw [ho] at hr
    rcases List.mem_cons.mp hr with rfl | hr
    · rw [hstop, hsz]
    · have hle := hK.below r hr
      change r.stop ≤ h'.kernel.sz.toNat
      omega
  · rw [ho] at hr
    rcases List.mem_cons.mp hr with rfl | hr
    · change 8192 ≤ 16 * m
      omega
    · exact hK.large r hr
  · rw [ho] at hr
    rw [hB.pages, Finset.mem_union]
    rcases List.mem_cons.mp hr with rfl | hr
    · refine .inr (Finset.mem_Ico.mpr ⟨?_, ?_⟩)
      · change a + 4096 ≤ x at hx
        unfold pagesUp
        omega
      · rw [page_lt]
        rw [hstop] at hx'
        omega
    · exact .inl (hK.mapped r hr x hx hx')
  · have hle := hK.base
    change base + HEADER ≤ h'.kernel.sz.toNat
    omega
  · change q ∈ h'.kernel.pages at hq
    change q < pagesUp h'.kernel.sz
    rw [hB.pages] at hq
    rcases Finset.mem_union.mp hq with hq | hq
    · have hlt := hK.top q hq
      rw [page_lt] at hlt ⊢
      omega
    · exact (Finset.mem_Ico.mp hq).2

lemma asked_bounds (h : (unitsFor nbytes).toNat < 2 ^ 27) :
    4096 ≤ (asked (unitsFor nbytes)).toNat ∧ (asked (unitsFor nbytes)).toNat < 2 ^ 27 := by
  unfold asked
  split_ifs with hlt
  · exact ⟨le_rfl, by decide⟩
  · rw [UInt32.lt_iff_toNat_lt, not_lt] at hlt
    exact ⟨hlt, h⟩

lemma asked_eq (h : 2 ^ 27 ≤ (unitsFor nbytes).toNat) : asked (unitsFor nbytes) = unitsFor nbytes := by
  unfold asked
  rw [if_neg]
  have h4096 : (4096 : UInt32).toNat = 4096 := rfl
  rw [UInt32.lt_iff_toNat_lt, h4096]
  omega

/-- What comes of a call that a block on the list or an `int` is enough for. -/
lemma served_result (hK : Kept base plenty s) (hS : Sound (kernel base plenty) s.heap fs s.live)
    (hr : Served (kernel base plenty) s.heap fs s.live (unitsFor nbytes) r)
    (hsmall : (∀ b ∈ fs, b.units < (unitsFor nbytes).toNat) → (unitsFor nbytes).toNat < 2 ^ 27) :
    Kept base plenty ⟨r.1, after s.live nbytes r.2⟩ ∧ (r.2 ≠ 0 → Promised s r.1 r.2 nbytes) := by
  cases hr with
  | found h' fs' b hb hS' hk ho =>
    have hbelow : ∀ r ∈ h'.obtained, r.stop ≤ h'.kernel.sz.toNat := by
      rw [ho, hk]
      exact hK.below
    have hkept : s.heap.kernel.sz ≤ h'.kernel.sz := by
      rw [hk]
      exact UInt64.le_refl _
    refine ⟨⟨.inr ⟨fs', ?_⟩, hbelow, ?_, ?_, ?_, ?_, ?_, ?_⟩,
      fun _ => promised_of_sound hS' hb hbelow hkept⟩
    · rw [after_block hb]
      exact hS'
    · rw [ho]
      exact hK.large
    · rw [ho, hk]
      exact hK.mapped
    · rw [hk]
      exact hK.base
    · rw [hk]
      exact hK.limit
    · rw [hk]
      exact hK.frames
    · rw [hk]
      exact hK.top
  | grown h' fs' b a hb hS' hk ho hno =>
    obtain ⟨hlow, hlt⟩ := asked_bounds (hsmall hno)
    have hB := sbrk_brought hK.limit (by omega) hlt hk
    have hK' := hK.grown hS' hlow ho hB
    have hsz := hB.sz
    have hstart := hB.start
    have hkept : s.heap.kernel.sz ≤ h'.kernel.sz := by
      rw [UInt64.le_iff_toNat_le]
      omega
    refine ⟨?_, fun _ => promised_of_sound hS' hb hK'.below hkept⟩
    rw [after_block hb]
    exact hK'
  | refused k' hk hno =>
    refine ⟨?_, fun hne => absurd rfl hne⟩
    rw [sbrk_none hk]
    exact hK.refused hS

/-- **A call that meets the condition** returns what it promises, if it returns an address. -/
lemma safe_result (hbase : 0 < base) (hK : Kept base plenty s)
    (hS : Sound (kernel base plenty) s.heap fs s.live)
    (hsafe : Safe plenty fs s.heap.kernel nbytes)
    (hr : Returns (fun fuel => malloc (kernel base plenty) fuel s.heap nbytes) r) :
    Kept base plenty ⟨r.1, after s.live nbytes r.2⟩ ∧ (r.2 ≠ 0 → Promised s r.1 r.2 nbytes) := by
  by_cases hint : (∃ b ∈ fs, (unitsFor nbytes).toNat ≤ b.units) ∨ (unitsFor nbytes).toNat < 2 ^ 27
  · have hsmall : (∀ b ∈ fs, b.units < (unitsFor nbytes).toNat) →
        (unitsFor nbytes).toNat < 2 ^ 27 := fun hno => hint.resolve_left fun hb => by
      obtain ⟨b, hb, hle⟩ := hb
      exact absurd hle (Nat.not_le.mpr (hno b hb))
    obtain ⟨r', hr', hserved⟩ := malloc_returns hbase hS
      (fun hno => request_toInt (asked_bounds (hsmall hno)).2)
      fun hno k' a hk => by
        obtain ⟨hlow, hlt⟩ := asked_bounds (hsmall hno)
        exact fresh_brought hK hlt (sbrk_brought hK.limit (by omega) hlt hk) hS.once
    rw [hr.unique hr']
    exact served_result hK hS hserved hsmall
  · push Not at hint
    obtain ⟨hno, hlarge⟩ := hint
    have hsafe' := (hsafe.resolve_left fun hb => by
      obtain ⟨b, hb, hle⟩ := hb
      exact absurd hle (Nat.not_le.mpr (hno b hb))).resolve_left (Nat.not_lt.mpr hlarge)
    have hr' := hr
    simp only [malloc_eq hbase hS] at hr'
    rcases hsb : sys_sbrk plenty s.heap.kernel (request (unitsFor nbytes)) with ⟨k', _ | a⟩
    · -- there is no memory
      have hk : (kernel base plenty).sbrk s.heap.kernel (request (asked (unitsFor nbytes))) =
          (k', none) := by
        rw [asked_eq hlarge]
        exact hsb
      have hnone := refused_returns hS (unitsFor_pos nbytes) hno hk
      obtain ⟨N, hN⟩ := hr'
      have heq := (hN _ (Nat.le_add_right N (fs.length + 1))).symm.trans (hnone N)
      rw [Except.ok.inj heq]
      refine ⟨?_, fun hne => absurd rfl hne⟩
      rw [sbrk_none hsb]
      exact hK.refused hS
    · -- there is something else
      have hcannot : ¬touches (kernel base plenty) k' a = true := by
        rcases Nat.lt_or_ge (2 ^ 28) (unitsFor nbytes).toNat with hlast | hneg
        · have heq : (unitsFor nbytes).toNat = 2 ^ 28 + 1 := by
            have hle := unitsFor_le nbytes
            omega
          obtain ⟨k'', hk''⟩ := (sbrk_last hK.limit heq).2 (hsafe'.2 heq)
          rw [hk''] at hsb
          cases (Prod.mk.inj hsb).2
        · obtain ⟨-, -, hiff, -⟩ := sbrk_lowered hK.top hlarge hneg hsb
          rw [hiff]
          exact hsafe'.1 hneg
      exact absurd hr' (killed hS hno (by omega) hsb hcannot r)

/-- **A call that does not** returns an address behind the break. -/
lemma unsafe_result (hbase : 0 < base) (hK : Kept base plenty s)
    (hS : Sound (kernel base plenty) s.heap fs s.live)
    (hbroken : ¬Safe plenty fs s.heap.kernel nbytes) :
    ∃ h' p, Returns (fun fuel => malloc (kernel base plenty) fuel s.heap nbytes) (h', p) ∧ p ≠ 0 ∧
      ¬Promised s h' p nbytes := by
  unfold Safe at hbroken
  push Not at hbroken
  obtain ⟨hno, hlarge, hmissing⟩ := hbroken
  have hpos : 0 < nbytes.toNat := by
    rw [unitsFor_toNat] at hlarge
    omega
  obtain ⟨k', hsb, hsz, hok, hall⟩ : ∃ k',
      sys_sbrk plenty s.heap.kernel (request (unitsFor nbytes)) =
        (k', some s.heap.kernel.sz.toNat) ∧ k'.sz.toNat ≤ s.heap.kernel.sz.toNat + 16 ∧
      touches (kernel base plenty) k' s.heap.kernel.sz.toNat = true ∧
      ∀ x < s.heap.kernel.sz.toNat, (kernel base plenty).ok k' x = true := by
    rcases Nat.lt_or_ge (2 ^ 28) (unitsFor nbytes).toNat with hlast | hneg
    · obtain ⟨heq, hroom⟩ := hmissing fun hle => absurd hle (Nat.not_le.mpr hlast)
      obtain ⟨k', hsb, hsz⟩ := (sbrk_last hK.limit heq).1 hroom
      refine ⟨k', hsb, hsz.le, ?_, fun x hx => ?_⟩
      · rw [touches_iff, hsz]
        exact ⟨.inr (by omega), .inr (by omega)⟩
      · rw [kernel_ok, hsz]
        exact .inr (by omega)
    · have hB : Behind s.heap.kernel (lowered (unitsFor nbytes).toNat) := by
        by_contra hB
        have heq := (hmissing fun _ => hB).1
        omega
      obtain ⟨k', hsb⟩ : ∃ k', sys_sbrk plenty s.heap.kernel (request (unitsFor nbytes)) =
          (k', some s.heap.kernel.sz.toNat) :=
        sbrk_some (by rw [request_neg hlarge hneg]; exact Int.neg_nonpos_of_nonneg (Int.natCast_nonneg _))
      obtain ⟨-, hle, hiff, hall⟩ := sbrk_lowered hK.top hlarge hneg hsb
      exact ⟨k', hsb, (UInt64.le_iff_toNat_le.mp hle).trans (Nat.le_add_right _ _), hiff.mpr hB, hall hB⟩
  have hlist : ∀ b ∈ (⟨base, 0⟩ : Block) :: fs, touches (kernel base plenty) k' b.start = true := by
    intro b hb
    have hend : b.start + HEADER ≤ s.heap.kernel.sz.toNat := by
      rcases List.mem_cons.mp hb with rfl | hbfs
      · exact hK.base
      · have hstop := stop_le hS hK.below hK.base hb
        have hbpos := hS.fsPos hbfs
        rw [stop_eq] at hstop
        unfold HEADER
        omega
    unfold HEADER at hend
    unfold touches
    rw [Bool.and_eq_true]
    exact ⟨hall _ (by omega), hall _ (by omega)⟩
  obtain ⟨h', hrun, hk'⟩ := granted hbase hS hno (by omega) (unitsFor_le nbytes) hsb hK.below hK.base
    hok hlist (hK.total_le hS.once)
  refine ⟨h', s.heap.kernel.sz.toNat + HEADER, ?_, Nat.succ_ne_zero _, fun hP => ?_⟩
  · simp only [malloc_eq hbase hS]
    exact hrun
  · have hx := (hP.obtained _ le_rfl (by omega)).2
    rw [hk'] at hx
    unfold HEADER at hx
    omega

/-! ### Runs -/

/-- What happens to the program: it calls the allocator, as the condition allows, and its memory
grows for other reasons. -/
inductive Run (base : ℕ) (plenty : ℕ → Bool) (s : State Space) : State Space → Prop
  | step (s' : State Space)
      (h : Step (kernel base plenty)
        (fun s nbytes => ∀ fs, FreeBlocks base plenty s fs → Safe plenty fs s.heap.kernel nbytes) s s') :
      Run base plenty s s'
  | grows (k' : Space) (h : Grows s.heap.kernel k') :
      Run base plenty s ⟨{ s.heap with kernel := k' }, s.live⟩

/-- Before the first call. -/
structure Initial (base : ℕ) (s : State Space) : Prop where
  freep : s.heap.freep = 0
  obtained : s.heap.obtained = []
  live : s.live = 0
  base : base + HEADER ≤ s.heap.kernel.sz.toNat
  limit : s.heap.kernel.sz ≤ TRAPFRAME
  frames : s.heap.kernel.pages.card ≤ FRAMES
  top : ∀ q ∈ s.heap.kernel.pages, q < pagesUp s.heap.kernel.sz

/-- At every call there is a sound heap, once the list of `base` is set up, and its free blocks are
those on the list. -/
lemma Kept.ready (hbase : 0 < base) (hK : Kept base plenty s) :
    ∃ h fs, Sound (kernel base plenty) h fs s.live ∧ Kept base plenty ⟨h, s.live⟩ ∧
      h.kernel = s.heap.kernel ∧ (∀ fuel nbytes, malloc (kernel base plenty) fuel s.heap nbytes =
        malloc (kernel base plenty) fuel h nbytes) ∧
      ∀ fs', FreeBlocks base plenty s fs' ↔ fs' = fs := by
  have hfreep : ∀ h fs, Listed (kernel base plenty) h (⟨base, 0⟩ :: fs) → h.freep ≠ 0 := by
    intro h fs hL
    obtain ⟨b, hb, hfb⟩ := hL.freep
    have hle : base ≤ b.start := hL.base_le hb
    omega
  rcases hK.sound with ⟨hfirst, ho, hlive⟩ | ⟨fs, hS⟩
  · have hok : touches (kernel base plenty) s.heap.kernel base = true := by
      have hle := hK.base
      unfold HEADER at hle
      rw [touches_iff]
      exact ⟨.inr (by omega), .inr (by omega)⟩
    obtain ⟨h, hstart, hS, hk, ho'⟩ := start_sound (M := kernel base plenty) hfirst ho hok
    rw [← hlive] at hS
    refine ⟨h, [], hS, ⟨.inr ⟨[], hS⟩, ?_, ?_, ?_, ?_, ?_, ?_, ?_⟩, hk, fun fuel nbytes =>
      malloc_start hstart (if_neg (hfreep h [] hS.listed)) nbytes, fun fs' => ⟨?_, ?_⟩⟩
    · rw [ho', hk, ← ho]
      exact hK.below
    · rw [ho', ← ho]
      exact hK.large
    · rw [ho', hk, ← ho]
      exact hK.mapped
    · rw [hk]
      exact hK.base
    · rw [hk]
      exact hK.limit
    · rw [hk]
      exact hK.frames
    · rw [hk]
      exact hK.top
    · rintro (⟨-, hnil⟩ | hL)
      · exact hnil
      · exact absurd hfirst (hfreep _ _ hL)
    · exact fun hnil => .inl ⟨hfirst, hnil⟩
  · refine ⟨s.heap, fs, hS, hK, rfl, fun _ _ => rfl, fun fs' => ⟨?_, ?_⟩⟩
    · rintro (⟨hzero, -⟩ | hL)
      · exact absurd hzero (hfreep _ _ hS.listed)
      · have hL' : Listed (kernel base plenty) s.heap (⟨(kernel base plenty).base, 0⟩ :: fs') := hL
        exact hL'.unique hS.listed
    · rintro rfl
      exact .inr hS.listed

lemma kept_run (hbase : 0 < base) (hK : Kept base plenty s) (hrun : Run base plenty s s') :
    Kept base plenty s' := by
  cases hrun with
  | step _ hstep =>
    cases hstep with
    | malloc nbytes h' p hmay hret =>
      obtain ⟨h, fs, hS, hK', hk, heq, hfree⟩ := hK.ready hbase
      have hsafe : Safe plenty fs h.kernel nbytes := by
        rw [hk]
        exact hmay fs ((hfree fs).mpr rfl)
      have hret' : Returns (fun fuel => malloc (kernel base plenty) fuel h nbytes) (h', p) := by
        simp only [← heq]
        exact hret
      exact (safe_result hbase hK' hS hsafe hret').1
    | free b h' hb hret =>
      rcases hK.sound with ⟨-, -, hlive⟩ | ⟨fs, hS⟩
      · rw [hlive] at hb
        exact absurd hb (Multiset.notMem_zero b)
      · have hfit := hK.total_le hS.once
        rw [← Multiset.cons_erase hb] at hS
        obtain ⟨h'', fs', hfree, hS', hk, ho⟩ := free_returns hS (by omega)
        obtain rfl := hfree.unique hret
        refine ⟨.inr ⟨fs', hS'⟩, ?_, ?_, ?_, ?_, ?_, ?_, ?_⟩
        · rw [ho, hk]
          exact hK.below
        · rw [ho]
          exact hK.large
        · rw [ho, hk]
          exact hK.mapped
        · rw [hk]
          exact hK.base
        · rw [hk]
          exact hK.limit
        · rw [hk]
          exact hK.frames
        · rw [hk]
          exact hK.top
    | write m hsame =>
      refine ⟨?_, hK.below, hK.large, hK.mapped, hK.base, hK.limit, hK.frames, hK.top⟩
      rcases hK.sound with hfirst | ⟨fs, hS⟩
      · exact .inl hfirst
      · exact .inr ⟨fs, write_sound hS hsame⟩
  | grows k' hG =>
    have hsz := UInt64.le_iff_toNat_le.mp hG.sz
    refine ⟨?_, fun r hr => (hK.below r hr).trans hsz, hK.large,
      fun r hr x hx hx' => hG.pages (hK.mapped r hr x hx hx'), hK.base.trans hsz, hG.limit, hG.frames,
      hG.below⟩
    rcases hK.sound with hfirst | ⟨fs, hS⟩
    · exact .inl hfirst
    · refine .inr ⟨fs, keeps_sound hS fun x hx => ?_⟩
      rw [kernel_ok] at hx ⊢
      exact hx.imp (fun h => hG.pages h) fun h => h.trans_le hsz

/-- **`malloc` keeps its promise**, in every state of every run whose requests meet the condition,
exactly for the requests that meet it: what is behind an address that it returns has been obtained
and is below the break, no other block in use has a part in it, and the break is not lower. -/
theorem malloc_promises (base : ℕ) (plenty : ℕ → Bool) (hbase : 0 < base) (s₀ s : State Space)
    (hinit : Initial base s₀) (hrun : Relation.ReflTransGen (Run base plenty) s₀ s)
    (fs : List Block) (hfs : FreeBlocks base plenty s fs) (nbytes : UInt32) :
    (∀ h' p, Returns (fun fuel => malloc (kernel base plenty) fuel s.heap nbytes) (h', p) → p ≠ 0 →
        Promised s h' p nbytes) ↔
      Safe plenty fs s.heap.kernel nbytes := by
  have hK : Kept base plenty s := by
    clear hfs
    induction hrun with
    | refl =>
      refine ⟨.inl ⟨hinit.freep, hinit.obtained, hinit.live⟩, fun r hr => ?_, fun r hr => ?_,
        fun r hr => ?_, hinit.base, hinit.limit, hinit.frames, hinit.top⟩
      · rw [hinit.obtained] at hr
        exact absurd hr List.not_mem_nil
      · rw [hinit.obtained] at hr
        exact absurd hr List.not_mem_nil
      · rw [hinit.obtained] at hr
        exact absurd hr List.not_mem_nil
    | tail _ hstep ih => exact kept_run hbase ih hstep
  obtain ⟨h, fs', hS, hK', hk, heq, hfree⟩ := hK.ready hbase
  obtain rfl := (hfree fs).mp hfs
  have hsame : ∀ h' p, Promised ⟨h, s.live⟩ h' p nbytes ↔ Promised s h' p nbytes := by
    intro h' p
    refine ⟨fun hP => ⟨hP.obtained, hP.disjoint, ?_⟩, fun hP => ⟨hP.obtained, hP.disjoint, ?_⟩⟩
    · rw [← hk]
      exact hP.kept
    · change h.kernel.sz ≤ h'.kernel.sz
      rw [hk]
      exact hP.kept
  simp only [heq]
  rw [← hk]
  constructor
  · intro hall
    by_contra hbroken
    obtain ⟨h', p, hret, hp, hnot⟩ := unsafe_result hbase hK' hS hbroken
    exact hnot ((hsame h' p).mpr (hall h' p hret hp))
  · intro hsafe h' p hret hp
    exact (hsame h' p).mp ((safe_result hbase hK' hS hsafe hret).2 hp)

/-- A process of two pages that has not called `malloc` yet. -/
def fresh : State Space := ⟨⟨⟨8192, {0, 1}, 0⟩, fun _ => ⟨0, 0⟩, 0, []⟩, 0⟩

/-- Its request of ten bytes. -/
theorem malloc_promises_ten : ∃ p,
    (given (kernel 4096 fun _ => true) fresh.heap 10).2 = some p ∧
      Promised fresh (given (kernel 4096 fun _ => true) fresh.heap 10).1 p 10 := by
  have htop : ∀ q ∈ fresh.heap.kernel.pages, q < pagesUp fresh.heap.kernel.sz := by decide
  have hinit : Initial 4096 fresh :=
    ⟨rfl, rfl, rfl, by decide, by decide, by decide, htop⟩
  have hgiven : (given (kernel 4096 fun _ => true) fresh.heap 10).2 = some 73712 := by
    decide +kernel
  have hall := (malloc_promises 4096 (fun _ => true) (by decide) fresh fresh hinit .refl []
    (.inl ⟨rfl, rfl⟩) 10).mpr (.inr (.inl (by decide)))
  exact ⟨73712, hgiven, hall _ _ (given_returns hgiven) (by decide)⟩

/-- Its request of 2^32 - 1 bytes: it asks the kernel for 16, and is promised them all. -/
theorem malloc_overpromises :
    ∃ h' p, Returns (fun fuel => malloc (kernel 4096 fun _ => true) fuel fresh.heap 4294967295)
        (h', p) ∧ p ≠ 0 ∧ h'.kernel.sz.toNat = p ∧ ¬Promised fresh h' p 4294967295 := by
  have hgiven : (given (kernel 4096 fun _ => true) fresh.heap 4294967295).2 = some 8208 := by
    decide +kernel
  have hsz : (given (kernel 4096 fun _ => true) fresh.heap 4294967295).1.kernel.sz.toNat = 8208 := by
    decide +kernel
  refine ⟨_, 8208, given_returns hgiven, by decide, hsz, fun hP => ?_⟩
  have hx := (hP.obtained 8208 le_rfl (by decide)).2
  rw [hsz] at hx
  exact absurd hx (Nat.lt_irrefl _)

end Xv6.User.Promise
