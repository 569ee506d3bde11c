import Xv6.Data.Calls
import Xv6.Vm.Stack

/-!
All processes and the free pages, under any sequence of calls: no page is in two places or lost, no
process changes what another one finds, and what a program finds is what it would with memory of its
own that never runs out.
-/

namespace Xv6.Vm.System

open Xv6.Data Xv6.Data.Effect Xv6.Data.Effect.Eff Xv6.Data.Calls Xv6.Vm.Paging Xv6.Vm.Memory
  Xv6.Vm.Walk Xv6.Vm.Maps Xv6.Vm.Grow Xv6.Vm.Copy Xv6.Vm.Space Xv6.Vm.Process Xv6.Vm.Holding
  Xv6.Vm.Fork Xv6.Vm.View Xv6.Vm.Touch Xv6.Vm.Exec Xv6.Vm.Stack

variable {NPROC : ℕ}

/-! ### Calls -/

/-- The pages, and the process table as far as it has pages. -/
structure State (NPROC : ℕ) where
  ram : Ram
  procs : Fin NPROC → Option Task

/-- What a call answers. -/
structure Answer where
  ret : ℤ
  data : List UInt8

def failed : Answer := ⟨-1, []⟩

inductive Op (NPROC : ℕ)
  /-- `allocproc`, as `userinit` calls it. -/
  | start
  | fork (i : Fin NPROC)
  /-- `freeproc`, as `kwait` calls it for a zombie. -/
  | free (i : Fin NPROC)
  | sbrk (i : Fin NPROC) (n t : Int32)
  | exec (i : Fin NPROC) (f : File) (argv : Argv)
  /-- An instruction of the program reads or writes a byte. -/
  | load (i : Fin NPROC) (va : UInt64)
  | store (i : Fin NPROC) (va : UInt64) (c : UInt8)
  | copyout (i : Fin NPROC) (dstva : UInt64) (src : ℕ → UInt8) (len : UInt64)
  | copyin (i : Fin NPROC) (srcva len : UInt64)

/-- The first slot of the process table that is not in use. -/
def firstFree {α : Type} (procs : Fin NPROC → Option α) : Option (Fin NPROC) :=
  (List.finRange NPROC).find? fun i => (procs i).isNone

/-- A call for the process in slot `i`, which says what becomes of it. -/
def within (i : Fin NPROC) (f : Task → Eff Ram (Answer × Option Task)) : Eff (State NPROC) Answer :=
  fun s => (s.procs i).elim (.ok s failed) fun t => match f t s.ram with
    | .ok ram r => .ok ⟨ram, Function.update s.procs i r.2⟩ r.1
    | .panic msg => .panic msg

/-- A call that makes a process, in the first slot that is not in use. -/
def anew (x : Eff Ram (Option Task)) : Eff (State NPROC) Answer :=
  fun s => (firstFree s.procs).elim (.ok s failed) fun j => match x s.ram with
    | .ok ram o => .ok ⟨ram, Function.update s.procs j o⟩ (if o.isSome then ⟨j, []⟩ else failed)
    | .panic msg => .panic msg

/-- The calls. A process is named by its slot. -/
def call (trampoline : UInt64) : Op NPROC → Eff (State NPROC) Answer
  | .start => anew (allocproc trampoline)
  | .fork i => fun s => (s.procs i).elim (.ok s failed) fun t => anew (kfork trampoline t) s
  | .free i => within i fun t => do
    freeproc t
    pure (⟨0, []⟩, none)
  | .sbrk i n ty => within i fun t => do
    let r ← sys_sbrk t.mem n ty
    pure (if r.1 = -1 then failed else ⟨r.1.toNat, []⟩,
      some ⟨⟨r.2, t.mem.pagetable⟩, t.trapframe⟩)
  | .exec i f argv => within i fun t => do
    let r ← kexec trampoline f argv t
    pure (⟨r.1, []⟩, some r.2)
  | .load i va => within i fun t => do
    let o ← load t.mem va
    pure (o.elim failed fun c => ⟨0, [c]⟩, some t)
  | .store i va c => within i fun t => do
    let b ← store t.mem va c
    pure (if b then ⟨0, []⟩ else failed, some t)
  | .copyout i dstva src len => within i fun t => do
    let r ← copyout t.mem t.mem.pagetable dstva src len
    pure (⟨r.1, []⟩, some t)
  | .copyin i srcva len => within i fun t => do
    let r ← copyin t.mem t.mem.pagetable srcva len
    pure (⟨r.1, if r.1 = 0 then r.2 else []⟩, some t)

/-! ### What programs find -/

/-- The processes as their programs find them. -/
abbrev Machine (NPROC : ℕ) := Fin NPROC → Option Image

def machine (s : State NPROC) : Machine NPROC := fun i => (s.procs i).map (image s.ram)

/-- A process without user memory. Its registers are what `kalloc` has filled the trapframe with. -/
def blank : Image := ⟨0, fun _ => 0, fun _ => none, fun _ => 0x0505050505050505⟩

def alone (m : Machine NPROC) (i : Fin NPROC) (f : Image → Answer × Option Image) :
    Machine NPROC × Answer :=
  (m i).elim (m, failed) fun im => (Function.update m i (f im).2, (f im).1)

def made (m : Machine NPROC) (im : Image) : Machine NPROC × Answer :=
  (firstFree m).elim (m, failed) fun j => (Function.update m j (some im), ⟨j, []⟩)

/-! What a call does to one image, with its answer. -/

def idealSbrk (n : Int32) (im : Image) : Answer × Option Image :=
  (im.want n).elim (failed, some im) fun sz => (⟨im.sz.toNat, []⟩, some (im.resize sz))

def idealExec (f : File) (argv : Argv) (im : Image) : Answer × Option Image :=
  (execImage f argv im.regs).elim (failed, some im) fun im' =>
    (⟨argv.args.length, []⟩, some im')

def idealLoad (va : UInt64) (im : Image) : Answer × Option Image :=
  ((im.bytes va.toNat).elim failed fun c => ⟨0, [c]⟩, some im)

def idealStore (va : UInt64) (c : UInt8) (im : Image) : Answer × Option Image :=
  if im.CanWrite (vpn va) then (⟨0, []⟩, some (im.store va.toNat 1 fun _ => c))
  else (failed, some im)

/-- How many bytes `copyout` stores. -/
def takes (im : Image) (dstva len : UInt64) : ℕ :=
  upTo (fun k => decide (im.CanWrite k)) dstva.toNat len.toNat

def idealCopyout (dstva : UInt64) (src : ℕ → UInt8) (len : UInt64) (im : Image) :
    Answer × Option Image :=
  (⟨if takes im dstva len = len.toNat then 0 else -1, []⟩,
    some (im.store dstva.toNat (takes im dstva len) src))

def idealCopyin (srcva len : UInt64) (im : Image) : Answer × Option Image :=
  if Readable im srcva.toNat len.toNat then
    (⟨0, (List.range len.toNat).filterMap fun j => im.bytes (srcva.toNat + j)⟩, some im)
  else (failed, some im)

/-- The calls where every process has memory of its own and there is always enough of it. Whether
`sbrk` is eager or lazy makes no difference. -/
def ideal (m : Machine NPROC) : Op NPROC → Machine NPROC × Answer
  | .start => made m blank
  | .fork i => (m i).elim (m, failed) fun im => made m (childImage im)
  | .free i => alone m i fun _ => (⟨0, []⟩, none)
  | .sbrk i n _ => alone m i (idealSbrk n)
  | .exec i f argv => alone m i (idealExec f argv)
  | .load i va => alone m i (idealLoad va)
  | .store i va c => alone m i (idealStore va c)
  | .copyout i dstva src len => alone m i (idealCopyout dstva src len)
  | .copyin i srcva len => alone m i (idealCopyin srcva len)

/-- Instructions use addresses below the size of their process. -/
def Tame (m : Machine NPROC) : Op NPROC → Prop
  | .load i va => ∀ im, m i = some im → va < im.sz
  | .store i va _ => ∀ im, m i = some im → va < im.sz
  | _ => True

/-- What a call may have done that runs out of memory: nothing, or the first bytes of a `copyout`. -/
def Short (m : Machine NPROC) : Op NPROC → Machine NPROC → Prop
  | .copyout i dstva src len, m' => ∃ im n, m i = some im ∧
    n ≤ takes im dstva len ∧ m' = Function.update m i (some (im.store dstva.toNat n src))
  | _, m' => m' = m

/-- The process that a call is about. -/
def Op.slot : Op NPROC → Option (Fin NPROC)
  | .start => none
  | .fork _ => none
  | .free i => some i
  | .sbrk i _ _ => some i
  | .exec i _ _ => some i
  | .load i _ => some i
  | .store i _ _ => some i
  | .copyout i _ _ _ => some i
  | .copyin i _ _ => some i

/-! ### What holds of every state -/

/-- All pages, of processes and free ones. -/
def total (s : State NPROC) : Multiset UInt64 := ∑ i, has s.ram (s.procs i) + s.ram.free

structure Inv (s : State NPROC) : Prop where
  pool : Pool s.ram
  good : ∀ i t, s.procs i = some t → Good s.ram t
  once : ∀ x, (total s).count x ≤ 1

variable {s s' s'' : State NPROC} {i j : Fin NPROC} {t : Task} {o : Option Task} {ram : Ram}
  {trampoline : UInt64} {op : Op NPROC} {a : Answer} {may : String → Prop}

lemma image_of_aside {r r' : Ram} (h : Aside r r' t) : image r' t = image r t := by
  have hlazy : ∀ k, Lazy r' t.mem k ↔ Lazy r t.mem k := fun k => Lazy.congr (congrFun h.entry k)
  ext1
  · rfl
  · funext k
    change rightsOf r' t.mem k = rightsOf r t.mem k
    simp only [rightsOf, hlazy, h.entry]
  · exact funext h.view
  · funext l
    change entry (r'.mem t.trapframe) _ = entry (r.mem t.trapframe) _
    rw [h.frame]

lemma total_split (s : State NPROC) (i : Fin NPROC) : total s =
    ∑ j ∈ Finset.univ.erase i, has s.ram (s.procs j) + (has s.ram (s.procs i) + s.ram.free) := by
  rw [total, ← Finset.sum_erase_add _ _ (Finset.mem_univ i), add_assoc]

/-- What one process has, and the free pages. -/
lemma Inv.alone (h : Inv s) (ht : s.procs i = some t) :
    ∀ x, (Holding.pages s.ram t + s.ram.free).count x ≤ 1 := by
  intro x
  refine (Multiset.count_le_of_le x ?_).trans (h.once x)
  rw [total_split s i, ht, has_some]
  exact Multiset.le_add_left _ _

/-- A process and the slot of another one. -/
lemma Inv.apart (h : Inv s) (ht : s.procs j = some t) (hij : j ≠ i) :
    ∀ x, (Holding.pages s.ram t + (has s.ram (s.procs i) + s.ram.free)).count x ≤ 1 := by
  intro x
  refine (Multiset.count_le_of_le x ?_).trans (h.once x)
  rw [total_split s i]
  refine add_le_add_left ?_ _
  have hle := Finset.single_le_sum (f := fun j => has s.ram (s.procs j)) (s := Finset.univ.erase i)
    (fun _ _ => Multiset.zero_le _) (Finset.mem_erase.mpr ⟨hij, Finset.mem_univ j⟩)
  rw [ht, has_some] at hle
  exact hle

lemma Inv.aside (h : Inv s) (ht : s.procs j = some t) (hij : j ≠ i)
    (hact : Act s.ram ram (s.procs i) o) : Aside s.ram ram t := by
  refine (h.good j t ht).aside hact (fun x hx => ?_) (h.apart ht hij)
  cases hi : s.procs i with
  | none =>
    rw [hi, has_none] at hx
    exact absurd hx (Multiset.notMem_zero x)
  | some u =>
    rw [hi, has_some] at hx
    exact (h.good i u hi).pages_frame hx

/-- **One slot's step**: the invariant is kept, no page is lost, and no other process notices. -/
theorem Inv.step (h : Inv s) (hact : Act s.ram ram (s.procs i) o) :
    Inv ⟨ram, Function.update s.procs i o⟩ ∧
      total ⟨ram, Function.update s.procs i o⟩ = total s ∧
      machine ⟨ram, Function.update s.procs i o⟩ =
        Function.update (machine s) i (o.map (image ram)) := by
  have hother : ∀ j, j ≠ i → ∀ t, s.procs j = some t → Aside s.ram ram t := fun j hij t ht =>
    h.aside ht hij hact
  have hhas : ∀ j ∈ Finset.univ.erase i, has ram (Function.update s.procs i o j) =
      has s.ram (s.procs j) := by
    intro j hj
    have hij := Finset.ne_of_mem_erase hj
    rw [Function.update_of_ne hij]
    cases ht : s.procs j with
    | none => rw [has_none, has_none]
    | some t => rw [has_some, has_some, (hother j hij t ht).pages]
  have htotal : total ⟨ram, Function.update s.procs i o⟩ = total s := by
    rw [total_split _ i, total_split s i, Finset.sum_congr rfl hhas]
    congr 1
    change has ram (Function.update s.procs i o i) + ram.free = _
    rw [Function.update_self]
    exact hact.keep
  have hle : ram.free ≤ has s.ram (s.procs i) + s.ram.free := by
    rw [← hact.keep]
    exact Multiset.le_add_left _ _
  refine ⟨⟨⟨?_, fun x hx => ?_, ?_⟩, fun j t ht => ?_, ?_⟩, htotal, ?_⟩
  · refine Multiset.nodup_of_le hle (Multiset.nodup_iff_count_le_one.mpr fun x => ?_)
    refine (Multiset.count_le_of_le x ?_).trans (h.once x)
    rw [total_split s i]
    exact Multiset.le_add_left _ _
  · refine hact.toLater.frame.mpr ?_
    rcases Multiset.mem_add.mp (Multiset.mem_of_le hle hx) with hx | hx
    · cases hi : s.procs i with
      | none =>
        rw [hi, has_none] at hx
        exact absurd hx (Multiset.notMem_zero x)
      | some u =>
        rw [hi, has_some] at hx
        exact (h.good i u hi).pages_frame hx
    · exact h.pool.frame x hx
  · change KERNBASE ≤ ram.kend
    rw [hact.kend]
    exact h.pool.kend
  · change Function.update s.procs i o j = some t at ht
    by_cases hij : j = i
    · subst hij
      rw [Function.update_self] at ht
      exact hact.good t ht
    · rw [Function.update_of_ne hij] at ht
      exact (hother j hij t ht).good
  · rw [htotal]
    exact h.once
  · funext j
    change (Function.update s.procs i o j).map (image ram) = _
    by_cases hij : j = i
    · subst hij
      rw [Function.update_self, Function.update_self]
    · rw [Function.update_of_ne hij, Function.update_of_ne hij]
      change _ = (s.procs j).map (image s.ram)
      cases ht : s.procs j with
      | none => rw [Option.map_none, Option.map_none]
      | some t => rw [Option.map_some, Option.map_some, image_of_aside (hother j hij t ht)]

/-! ### One call -/

/-- What a call comes to. -/
structure Step (s s' : State NPROC) (op : Op NPROC) (a : Answer) : Prop where
  keep : total s' = total s
  later : s.ram.failed ≤ s'.ram.failed
  /-- No other process notices. -/
  others : ∀ j im, machine s j = some im → op.slot ≠ some j → machine s' j = some im
  result : s'.ram.failed = s.ram.failed ∧ ((machine s', a) = ideal (machine s) op ∨
      ¬Tame (machine s) op ∧ machine s' = machine s ∧ a = failed) ∨
    s.ram.failed < s'.ram.failed ∧ a.ret = -1 ∧ Short (machine s) op (machine s')

/-- What a call for one process comes to, in terms of its image. -/
def Result (f : Image → Answer × Option Image) (wild : Image → Prop)
    (short : Image → Option Image → Prop) (im : Image) (r r' : Ram) (x : Answer × Option Task) :
    Prop :=
  r'.failed = r.failed ∧ ((x.1, x.2.map (image r')) = f im ∨
      wild im ∧ x.2.map (image r') = some im ∧ x.1 = failed) ∨
    r.failed < r'.failed ∧ x.1.ret = -1 ∧ short im (x.2.map (image r'))

/-- Nothing has happened. -/
lemma step_none (hideal : ideal (machine s) op = (machine s, failed)) : Step s s op failed :=
  ⟨rfl, le_rfl, fun _ _ h _ => h, .inl ⟨rfl, .inl hideal.symm⟩⟩

lemma machine_some (ht : s.procs i = some t) : machine s i = some (image s.ram t) := by
  rw [machine, ht, Option.map_some]

lemma machine_none (ht : s.procs i = none) : machine s i = none := by
  rw [machine, ht, Option.map_none]

lemma within_ok {f : Task → Eff Ram (Answer × Option Task)} {r : Answer × Option Task}
    (ht : s.procs i = some t) (hf : f t s.ram = .ok ram r) :
    within i f s = .ok ⟨ram, Function.update s.procs i r.2⟩ r.1 := by
  rw [within, ht, Option.elim_some, hf]

lemma within_spec {f : Task → Eff Ram (Answer × Option Task)} {f' : Image → Answer × Option Image}
    {w : Image → Prop} {q : Image → Option Image → Prop} (h : Inv s)
    (hf : ∀ t, s.procs i = some t → wp may (f t) (fun r ram => Act s.ram ram (some t) r.2 ∧
      Result f' w q (image s.ram t) s.ram ram r) s.ram)
    (hslot : op.slot = some i) (hideal : ideal (machine s) op = alone (machine s) i f')
    (hwild : ∀ im, machine s i = some im → w im → ¬Tame (machine s) op)
    (hshort : ∀ im o, machine s i = some im → q im o →
      Short (machine s) op (Function.update (machine s) i o)) :
    wp may (within i f) (fun a s' => Inv s' ∧ Step s s' op a) s := by
  unfold wp within
  cases ht : s.procs i with
  | none =>
    rw [Option.elim_none]
    refine ⟨h, step_none ?_⟩
    rw [hideal, alone, machine_none ht, Option.elim_none]
  | some t =>
    rw [Option.elim_some]
    have hm := machine_some ht
    have hspec := hf t ht
    cases hx : f t s.ram with
    | panic msg => exact hspec.panic hx
    | ok ram r =>
      obtain ⟨hact, hres⟩ := hspec.ok hx
      rw [← ht] at hact
      obtain ⟨hinv, hkeep, hmach⟩ := h.step hact
      refine ⟨hinv, hkeep, hact.failed, fun j im hj hne => ?_, ?_⟩
      · have hij : j ≠ i := fun he => hne (by rw [hslot, he])
        rw [hmach, Function.update_of_ne hij]
        exact hj
      · rw [hmach, hideal, alone, hm, Option.elim_some]
        rcases hres with ⟨hsame, hres⟩ | ⟨hfail, hret, hs⟩
        · refine .inl ⟨hsame, hres.imp (fun he => ?_) fun hw => ⟨hwild _ hm hw.1, ?_, hw.2.2⟩⟩
          · rw [← he]
          · rw [hw.2.1, ← hm, Function.update_eq_self]
        · exact .inr ⟨hfail, hret, hshort _ _ hm hs⟩

lemma firstFree_none {α : Type} {procs : Fin NPROC → Option α} (h : firstFree procs = some j) :
    procs j = none :=
  Option.isNone_iff_eq_none.mp (List.find?_some (p := fun i => (procs i).isNone) h)

lemma firstFree_machine (s : State NPROC) : firstFree (machine s) = firstFree s.procs := by
  unfold firstFree machine
  congr 1
  funext i
  exact Option.isNone_map

lemma anew_spec {x : Eff Ram (Option Task)} {m : Image} (h : Inv s)
    (hx : wp may x (fun o ram => Act s.ram ram none o ∧ (o = none → s.ram.failed < ram.failed) ∧
      ∀ c, o = some c → ram.failed = s.ram.failed ∧ image ram c = m) s.ram)
    (hideal : ideal (machine s) op = made (machine s) m)
    (hshort : Short (machine s) op (machine s)) :
    wp may (anew x) (fun a s' => Inv s' ∧ Step s s' op a) s := by
  unfold wp anew
  cases hj : firstFree s.procs with
  | none =>
    rw [Option.elim_none]
    refine ⟨h, step_none ?_⟩
    rw [hideal, made, firstFree_machine, hj, Option.elim_none]
  | some j =>
    rw [Option.elim_some]
    have ht := firstFree_none hj
    have hm := machine_none ht
    cases hr : x s.ram with
    | panic msg => exact hx.panic hr
    | ok ram o =>
      obtain ⟨hact, hnone, hsome⟩ := hx.ok hr
      rw [← ht] at hact
      obtain ⟨hinv, hkeep, hmach⟩ := h.step hact
      refine ⟨hinv, hkeep, hact.failed, fun l im' hl _ => ?_, ?_⟩
      · have hlj : l ≠ j := by
          rintro rfl
          rw [hm] at hl
          cases hl
        rw [hmach, Function.update_of_ne hlj]
        exact hl
      · rw [hmach, hideal, made, firstFree_machine, hj, Option.elim_some]
        cases o with
        | none =>
          refine .inr ⟨hnone rfl, rfl, ?_⟩
          rw [Option.map_none, ← hm, Function.update_eq_self]
          exact hshort
        | some c =>
          obtain ⟨hsame, him⟩ := hsome c rfl
          refine .inl ⟨hsame, .inl ?_⟩
          rw [Option.map_some, him]
          rfl

/-- The image of a new process. -/
lemma image_blank {r : Ram} (hz : t.mem.sz = 0) (hm : entryOf r t.mem = kernelMap trampoline t.trapframe)
    (hf : r.mem t.trapframe = filled 5) (h : Good r t) : image r t = blank := by
  have hempty : ∀ k < USER, entryOf r t.mem k = 0 := (owned_bare hm).2
  have hlazy : ∀ k, ¬Lazy r t.mem k := by
    intro k hl
    have h1 := hl.1
    rw [hz] at h1
    exact absurd h1 (Nat.not_lt_zero _)
  ext1
  · exact hz
  · funext k
    change rightsOf r t.mem k = 0
    by_cases hk : k < USER
    · rw [rightsOf, if_pos hk, if_neg (hlazy k), hempty k hk, UInt64.zero_and]
    · rw [rightsOf, if_neg hk]
  · funext va
    refine view_none (fun hmap => ?_) (hlazy _)
    exact hmap.ne_zero (hempty _ (h.whole.mapped_lt hmap))
  · funext l
    change entry (r.mem t.trapframe) _ = 0x0505050505050505
    rw [hf]
    simp only [entry, filled, Fin.sum_univ_eight]
    decide

lemma store_zero (im : Image) (d : ℕ) (src : ℕ → UInt8) : im.store d 0 src = im := by
  ext1
  · rfl
  · rfl
  · funext va
    exact if_neg (by omega)
  · rfl

lemma filterMap_of_map {l : List UInt8} {n : ℕ} {f : ℕ → Option UInt8}
    (h : l.map some = (List.range n).map f) : (List.range n).filterMap f = l := by
  have hl := congrArg (List.filterMap id) h
  rw [List.filterMap_map, List.filterMap_map] at hl
  exact hl.symm.trans (List.filterMap_some)

/-- The address is past the size, where `vmfault` does not bring a page that `copyout` finds. -/
def Wild (va : UInt64) (im : Image) : Prop := ¬va < im.sz

/-- Nothing changes where memory runs out. -/
def Still (im : Image) (o : Option Image) : Prop := o = some im

/-- Where memory runs out, the first bytes may have been stored. -/
def Partly (dstva : UInt64) (src : ℕ → UInt8) (len : UInt64) (im : Image) (o : Option Image) : Prop :=
  ∃ n, n ≤ takes im dstva len ∧ o = some (im.store dstva.toNat n src)

section results

variable {r : Ram} {n : Int32} {ty : Int32} {va dstva srcva len : UInt64} {c : UInt8}
  {src : ℕ → UInt8}

lemma sbrk_result {x : UInt64 × UInt64} (h : Good r t) {r' : Ram} (hs : Sized r r' t n x.1 x.2) :
    Result (idealSbrk n) (fun _ => False) Still (image r t) r r'
      (if x.1 = -1 then failed else ⟨x.1.toNat, []⟩,
        some ⟨⟨x.2, t.mem.pagetable⟩, t.trapframe⟩) := by
  have hlow : t.mem.sz ≠ -1 := by
    intro hm
    have hsz : t.mem.sz.toNat ≤ TRAPFRAME.toNat := h.whole.size
    rw [hm, toNat_TRAPFRAME] at hsz
    exact absurd hsz (by decide)
  unfold Result
  dsimp only
  rw [Option.map_some, idealSbrk]
  rcases hs.2 with ⟨hw, hret, hsame, hi⟩ | ⟨hw, hret, hsame, hi⟩ | ⟨hret, hfail, hi⟩
  · refine .inl ⟨hsame, .inl ?_⟩
    rw [hw, Option.elim_none, hret, if_pos rfl, hi]
  · refine .inl ⟨hsame, .inl ?_⟩
    rw [hw, Option.elim_some, hret, if_neg hlow, hi]
    rfl
  · refine .inr ⟨hfail, ?_, congrArg some hi⟩
    rw [hret, if_pos rfl]
    rfl

lemma exec_result {f : File} {argv : Argv} {r' : Ram} {x : ℤ × Task}
    (h : Execed r r' t (execImage f argv (image r t).regs) argv.args.length x) :
    Result (idealExec f argv) (fun _ => False) Still (image r t) r r' (⟨x.1, []⟩, some x.2) := by
  unfold Result
  dsimp only
  rw [Option.map_some, idealExec]
  rcases h.2 with ⟨hsame, hret, him⟩ | ⟨rfl, him, ⟨hsame, hnone⟩ | hfail⟩
  · refine .inl ⟨hsame, .inl ?_⟩
    rw [him, Option.elim_some, hret]
  · refine .inl ⟨hsame, .inl ?_⟩
    rw [hnone, Option.elim_none, him]
    rfl
  · exact .inr ⟨hfail, rfl, congrArg some him⟩

lemma load_result (h : Good r t) (hone : ∀ x, (Holding.pages r t + r.free).count x ≤ 1) :
    wp may (load t.mem va) (fun o r' => Act r r' (some t) (some t) ∧
      Result (idealLoad va) (Wild va) Still (image r t) r r'
        (o.elim failed fun c => ⟨0, [c]⟩, some t)) r := by
  refine wp_mono (load_image h hone) fun o r' hr => ?_
  obtain ⟨hact, hi, hres, htame⟩ := hr
  refine ⟨hact, ?_⟩
  unfold Result
  dsimp only
  rw [Option.map_some, hi]
  by_cases hsame : r'.failed = r.failed
  · refine .inl ⟨hsame, ?_⟩
    by_cases hlt : va < t.mem.sz
    · rw [htame hlt hsame]
      exact .inl rfl
    · rcases hres with rfl | ⟨-, rfl⟩
      · exact .inr ⟨hlt, rfl, rfl⟩
      · exact .inl rfl
  · have hfail := hact.failed
    have ho : o = none := hres.resolve_right fun hr => hsame hr.1
    refine .inr ⟨by omega, ?_, rfl⟩
    rw [ho, Option.elim_none]
    rfl

lemma store_result (h : Good r t) (hone : ∀ x, (Holding.pages r t + r.free).count x ≤ 1) :
    wp may (store t.mem va c) (fun b r' => Act r r' (some t) (some t) ∧
      Result (idealStore va c) (Wild va) Still (image r t) r r'
        (if b then ⟨0, []⟩ else failed, some t)) r := by
  refine wp_mono (store_image h hone) fun b r' hr => ?_
  obtain ⟨hact, hi, hres, htame⟩ := hr
  refine ⟨hact, ?_⟩
  unfold Result
  dsimp only
  rw [Option.map_some, hi, idealStore]
  cases b with
  | true =>
    obtain ⟨hsame, hw⟩ := hres rfl
    rw [if_pos rfl, if_pos rfl, if_pos hw]
    exact .inl ⟨hsame, .inl rfl⟩
  | false =>
    rw [if_neg (by decide), if_neg (by decide), store_zero]
    by_cases hsame : r'.failed = r.failed
    · refine .inl ⟨hsame, ?_⟩
      by_cases hlt : va < t.mem.sz
      · have hw := of_decide_eq_false (htame hlt hsame).symm
        rw [if_neg hw]
        exact .inl rfl
      · exact .inr ⟨hlt, rfl, rfl⟩
    · have hfail := hact.failed
      exact .inr ⟨by omega, rfl, rfl⟩

lemma copyout_result (h : Good r t) (hone : ∀ x, (Holding.pages r t + r.free).count x ≤ 1) :
    wp may (copyout t.mem t.mem.pagetable dstva src len) (fun x r' => Act r r' (some t) (some t) ∧
      Result (idealCopyout dstva src len) (fun _ => False) (Partly dstva src len) (image r t) r r'
        (⟨x.1, []⟩, some t)) r := by
  refine wp_mono (copyout_image h hone) fun x r' hr => ?_
  obtain ⟨hact, hi, hle, hret, hroom, hall⟩ := hr
  refine ⟨hact, ?_⟩
  unfold Result
  dsimp only
  rw [Option.map_some, hi, idealCopyout]
  by_cases hsame : r'.failed = r.failed
  · refine .inl ⟨hsame, .inl ?_⟩
    rw [hret, hall hsame]
    rfl
  · have hfail := hact.failed
    refine .inr ⟨by omega, ?_, _, hle, rfl⟩
    rw [hret] at hroom ⊢
    split_ifs at hroom ⊢ with hx
    · exact absurd (hroom rfl) hsame
    · rfl

lemma copyin_result (h : Good r t) (hone : ∀ x, (Holding.pages r t + r.free).count x ≤ 1) :
    wp may (copyin t.mem t.mem.pagetable srcva len) (fun x r' => Act r r' (some t) (some t) ∧
      Result (idealCopyin srcva len) (fun _ => False) Still (image r t) r r'
        (⟨x.1, if x.1 = 0 then x.2 else []⟩, some t)) r := by
  refine wp_mono (copyin_image h hone) fun x r' hr => ?_
  obtain ⟨hact, hi, hgot, hret, hall⟩ := hr
  refine ⟨hact, ?_⟩
  unfold Result
  dsimp only
  rw [Option.map_some, hi, idealCopyin]
  by_cases hz : x.1 = 0
  · obtain ⟨hsame, hread, hbytes⟩ := hgot hz
    refine .inl ⟨hsame, .inl ?_⟩
    rw [if_pos hread, if_pos hz, hz, filterMap_of_map hbytes]
  · have hneg := hret.resolve_left hz
    rw [if_neg hz, hneg]
    by_cases hsame : r'.failed = r.failed
    · refine .inl ⟨hsame, .inl ?_⟩
      rw [if_neg fun hread => hz (hall hsame hread)]
      rfl
    · have hfail := hact.failed
      exact .inr ⟨by omega, rfl, rfl⟩

end results

/-- **One call**, and what it comes to for the processes. -/
theorem step_of_call (h : Inv s) (op : Op NPROC) :
    wp may (call trampoline op) (fun a s' => Inv s' ∧ Step s s' op a) s := by
  have hnever : ∀ i : Fin NPROC, ∀ im, machine s i = some im → False → ¬Tame (machine s) op :=
    fun _ _ _ hf => hf.elim
  have hstill : ∀ i im o, machine s i = some im → Still im o →
      Function.update (machine s) i o = machine s := by
    intro i im o hm ho
    rw [ho, ← hm, Function.update_eq_self]
  cases op with
  | start =>
    refine anew_spec h (wp_mono (allocproc_spec h.pool trampoline) fun o r hr => ?_) rfl rfl
    refine ⟨hr.1, hr.2.1, fun c hc => ?_⟩
    obtain ⟨hsame, hz, hm, hf⟩ := hr.2.2 c hc
    exact ⟨hsame, image_blank hz hm hf (hr.1.good c hc)⟩
  | fork i =>
    have hcall : call trampoline (.fork i) s = (s.procs i).elim (.ok s failed) fun t =>
      anew (kfork trampoline t) s := rfl
    unfold wp
    rw [hcall]
    cases ht : s.procs i with
    | none =>
      rw [Option.elim_none]
      refine ⟨h, step_none ?_⟩
      rw [ideal, machine_none ht, Option.elim_none]
    | some t =>
      rw [Option.elim_some]
      refine anew_spec (m := childImage (image s.ram t)) h
        (wp_mono (kfork_spec (h.good i t ht) (h.alone ht) trampoline) fun o r hr => ?_) ?_ rfl
      · refine ⟨hr.act, hr.fail, fun c hc => ?_⟩
        subst hc
        exact ⟨hr.room (by rintro ⟨⟩), forked_image hr⟩
      · rw [ideal, machine_some ht, Option.elim_some]
  | free i =>
    refine within_spec (q := fun _ _ => False) h (fun t ht => ?_) rfl rfl (hnever i)
      fun _ _ _ hf => hf.elim
    refine wp_call (freeproc_spec (h.good i t ht) (h.alone ht)) fun _ r hr => ?_
    rw [wp_pure]
    exact ⟨hr.1, .inl ⟨hr.2, .inl rfl⟩⟩
  | sbrk i n ty =>
    refine within_spec h (fun t ht => ?_) rfl rfl (hnever i) (hstill i)
    refine wp_call (sbrk_spec (h.good i t ht) (h.alone ht) n ty) fun x r hr => ?_
    rw [wp_pure]
    exact ⟨hr.1, sbrk_result (h.good i t ht) hr⟩
  | exec i f argv =>
    refine within_spec h (fun t ht => ?_) rfl rfl (hnever i) (hstill i)
    refine wp_call (kexec_spec trampoline argv (h.good i t ht) (h.alone ht)) fun x r hr => ?_
    rw [wp_pure]
    exact ⟨hr.1.1, exec_result hr.1⟩
  | load i va =>
    refine within_spec (w := Wild va) h (fun t ht => ?_) rfl rfl
      (fun im hm hw htame => hw (htame im hm)) (hstill i)
    exact wp_call (load_result (h.good i t ht) (h.alone ht)) fun _ _ hr => hr
  | store i va c =>
    refine within_spec (w := Wild va) h (fun t ht => ?_) rfl rfl
      (fun im hm hw htame => hw (htame im hm)) (hstill i)
    exact wp_call (store_result (h.good i t ht) (h.alone ht)) fun _ _ hr => hr
  | copyout i dstva src len =>
    refine within_spec (q := Partly dstva src len) h (fun t ht => ?_) rfl rfl (hnever i)
      fun im o hm ho => ?_
    · exact wp_call (copyout_result (h.good i t ht) (h.alone ht)) fun _ _ hr => hr
    · obtain ⟨n, hle, ho⟩ := ho
      exact ⟨im, n, hm, hle, by rw [ho]⟩
  | copyin i srcva len =>
    refine within_spec h (fun t ht => ?_) rfl rfl (hnever i) (hstill i)
    exact wp_call (copyin_result (h.good i t ht) (h.alone ht)) fun _ _ hr => hr

/-! ### Runs -/

/-- No process, and all pages that there are free. -/
def boot (ram : Ram) : State NPROC := ⟨ram, fun _ => none⟩

lemma total_boot (ram : Ram) : total (boot ram : State NPROC) = ram.free := by
  have hz : ∑ i : Fin NPROC, has ram ((boot ram : State NPROC).procs i) = 0 :=
    Finset.sum_eq_zero fun _ _ => has_none ram
  rw [total]
  change ∑ i : Fin NPROC, has ram ((boot ram : State NPROC).procs i) + ram.free = _
  rw [hz, zero_add]

lemma inv_boot {ram : Ram} (h : Pool ram) : Inv (boot ram : State NPROC) := by
  refine ⟨h, fun _ _ ht => (by cases ht), ?_⟩
  rw [total_boot]
  exact Multiset.nodup_iff_count_le_one.mp h.nodup

lemma run_inv (trampoline : UInt64) (h : Inv s) (ops : List (Op NPROC)) :
    ∃ as s', calls (call trampoline) ops s = .ok s' as ∧ Inv s' ∧ total s' = total s := by
  have hspec : wp (fun _ => False) (calls (call trampoline) ops)
      (fun _ s' => Inv s' ∧ total s' = total s) s :=
    wp_calls (R := fun s _ _ s' => total s' = total s) (fun s op hs => step_of_call hs op)
      (fun _ _ => rfl) (fun _ _ _ _ _ _ _ _ _ hq hr => hr.trans hq.keep) ops s h
  cases hx : calls (call trampoline) ops s with
  | panic msg => exact (hspec.panic hx).elim
  | ok s' as => exact ⟨as, s', rfl, hspec.ok hx⟩

/-- **Every run of calls**: the kernel does not panic, whatever memory runs out, and the pages are
where they should be: each of them, and no other, free or in one place of one process. -/
theorem run_safe (trampoline : UInt64) {ram : Ram} (h : Pool ram) (ops : List (Op NPROC)) :
    ∃ as s', calls (call trampoline) ops (boot ram) = .ok s' as ∧ Inv s' ∧ total s' = ram.free := by
  obtain ⟨as, s', hrun, hinv, hkeep⟩ := run_inv trampoline (s := (boot ram : State NPROC)) (inv_boot h) ops
  exact ⟨as, s', hrun, hinv, hkeep.trans (total_boot ram)⟩

theorem run_safe_room : ∃ as s', calls (call 0x80000000)
    [.start, .fork 0, .sbrk (0 : Fin 2) 8192 1, .store 0 5000 7, .fork 0, .free 0] (boot room) =
      .ok s' as ∧ Inv s' ∧ total s' = room.free :=
  run_safe 0x80000000 pool_room _

/-- **All or nothing**: a call, from any state that is reached, does what it should or, where memory
runs out, nothing but the first part of a `copyout`. -/
theorem call_whole (trampoline : UInt64) {ram : Ram} (h : Pool ram) (ops : List (Op NPROC))
    (op : Op NPROC) : ∃ as s a s', calls (call trampoline) ops (boot ram) = .ok s as ∧
      call trampoline op s = .ok s' a ∧ Inv s' ∧ Step s s' op a := by
  obtain ⟨as, s, hrun, hinv, -⟩ := run_inv trampoline (s := (boot ram : State NPROC)) (inv_boot h) ops
  have hspec : wp (fun _ => False) (call trampoline op) (fun a s' => Inv s' ∧ Step s s' op a) s :=
    step_of_call hinv op
  cases hx : call trampoline op s with
  | panic msg => exact (hspec.panic hx).elim
  | ok s' a => exact ⟨as, s, a, s', hrun, hx, hspec.ok hx⟩

/-- With seven pages a second process does not fit. -/
theorem call_whole_room : ∃ as s a s', calls (call 0x80000000) [.start] (boot room) = .ok s as ∧
    call 0x80000000 (.fork (0 : Fin 2)) s = .ok s' a ∧ Inv s' ∧ Step s s' (.fork 0) a :=
  call_whole 0x80000000 pool_room _ _

/-- Twenty pages. -/
def roomy : Ram :=
  { room with free := (Multiset.range 20).map fun n => UInt64.ofNat (0x80002000 + 4096 * n) }

lemma pool_roomy : Pool roomy := by
  have hall : ∀ n ∈ Multiset.range 20, room.Frame (UInt64.ofNat (0x80002000 + 4096 * n)) := by
    decide +kernel
  refine ⟨by decide +kernel, fun p hp => ?_, pool_room.kend⟩
  have hp' : p ∈ (Multiset.range 20).map fun n => UInt64.ofNat (0x80002000 + 4096 * n) := hp
  obtain ⟨n, hn, rfl⟩ := Multiset.mem_map.mp hp'
  exact hall n hn

/-- **Isolation**: calls for other processes, and new ones, do not change what a program finds. -/
theorem run_isolated (trampoline : UInt64) (h : Inv s) (j : Fin NPROC) (im : Image)
    (hj : machine s j = some im) (ops : List (Op NPROC)) (hops : ∀ op ∈ ops, op.slot ≠ some j) :
    ∃ as s', calls (call trampoline) ops s = .ok s' as ∧ machine s' j = some im := by
  have hspec : wp (fun _ => False) (calls (call trampoline) ops) (fun _ s' => Inv s' ∧
      (machine s j = some im → (∀ op ∈ ops, op.slot ≠ some j) → machine s' j = some im)) s := by
    refine wp_calls (R := fun s ops _ s' => machine s j = some im →
      (∀ op ∈ ops, op.slot ≠ some j) → machine s' j = some im) (fun s op hs => step_of_call hs op)
      (fun _ _ hm _ => hm) (fun s op _ s' ops _ _ _ _ hq hr hm hn => ?_) ops s h
    exact hr (hq.others j im hm (hn op List.mem_cons_self)) fun op' hop =>
      hn op' (List.mem_cons_of_mem op hop)
  cases hx : calls (call trampoline) ops s with
  | panic msg => exact (hspec.panic hx).elim
  | ok s' as => exact ⟨as, s', rfl, (hspec.ok hx).2 hj hops⟩

theorem run_isolated_room : ∃ im as s',
    machine (after (calls (call 0x80000000) [.start, .start]) (boot roomy)) (1 : Fin 2) = some im ∧
    calls (call 0x80000000) [.sbrk (0 : Fin 2) 100 2, .fork 0, .free 0]
      (after (calls (call 0x80000000) [.start, .start]) (boot roomy)) = .ok s' as ∧
    machine s' 1 = some im := by
  obtain ⟨as, s, hrun, hinv, -⟩ :=
    run_inv 0x80000000 (inv_boot pool_roomy) [.start, (.start : Op 2)]
  have hs : after (calls (call 0x80000000) [.start, .start]) (boot roomy : State 2) = s := by
    rw [after, hrun]
  have hsome : ((after (calls (call 0x80000000) [.start, .start])
    (boot roomy : State 2)).procs 1).isSome := by decide +kernel
  obtain ⟨t, ht⟩ := Option.isSome_iff_exists.mp hsome
  have hm := machine_some ht
  rw [hs] at hm ⊢
  obtain ⟨bs, s', hrun', hj⟩ := run_isolated 0x80000000 hinv 1 _ hm
    [.sbrk (0 : Fin 2) 100 2, .fork 0, .free 0] (by decide)
  exact ⟨_, bs, s', hm, hrun', hj⟩

/-- The same call, but for how `sbrk` gets the memory. -/
inductive Alike : Op NPROC → Op NPROC → Prop
  | same (op : Op NPROC) : Alike op op
  | sbrk (i : Fin NPROC) (n t t' : Int32) : Alike (.sbrk i n t) (.sbrk i n t')

lemma Alike.ideal {op op' : Op NPROC} (h : Alike op op') (m : Machine NPROC) :
    System.ideal m op = System.ideal m op' ∧ (Tame m op ↔ Tame m op') := by
  cases h with
  | same => exact ⟨rfl, Iff.rfl⟩
  | sbrk => exact ⟨rfl, Iff.rfl⟩

end Xv6.Vm.System
