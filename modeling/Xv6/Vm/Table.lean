import Xv6.Vm.Memory

/-!
The page tables of user processes (`vm.c`).
-/

namespace Xv6.Vm.Table

open Xv6.Data.Effect Xv6.Data.Effect.Eff Xv6.Vm.Paging Xv6.Vm.Memory

/-- A `pte_t *`: 0, or the entry of a page-table page. -/
abbrev Pte := Option (UInt64 × Fin 512)

/-- The loop of `walk`, from `level` down. -/
def walkLoop (va : UInt64) (alloc : Bool) : ℕ → UInt64 → Eff Ram Pte
  | 0, pagetable => pure (some (pagetable, PX 0 va))
  | level + 1, pagetable => do
    let pte ← fetch pagetable (PX (level + 1) va)
    if pte &&& PTE_V ≠ 0 then
      walkLoop va alloc level (PTE2PA pte)
    else if alloc then do
      let page ← kalloc
      if page = 0 then
        pure none
      else do
        memset page 0
        assign pagetable (PX (level + 1) va) (PA2PTE page ||| PTE_V)
        walkLoop va alloc level page
    else
      pure none

def walk (pagetable va : UInt64) (alloc : Bool) : Eff Ram Pte :=
  if va ≥ MAXVA then fail "walk" else walkLoop va alloc 2 pagetable

def walkaddr (pagetable va : UInt64) : Eff Ram UInt64 :=
  if va ≥ MAXVA then pure 0 else do
    match ← walk pagetable va false with
    | none => pure 0
    | some (t, i) => do
      let pte ← fetch t i
      if pte &&& PTE_V = 0 then pure 0
      else if pte &&& PTE_U = 0 then pure 0
      else pure (PTE2PA pte)

/-- More often than this no loop over pages goes round: `walk` panics from `MAXVA` on. -/
def ROUNDS : ℕ := 2 ^ 26 + 1

/-- The loop of `mappages`. The `int perm` is sign-extended. -/
def mappagesLoop (pagetable last perm : UInt64) : ℕ → UInt64 → UInt64 → Eff Ram ℤ
  | 0, _, _ => fail "rounds"
  | n + 1, a, pa => do
    match ← walk pagetable a true with
    | none => pure (-1)
    | some (t, i) => do
      let pte ← fetch t i
      if pte &&& PTE_V ≠ 0 then fail "mappages: remap"
      else do
        assign t i (PA2PTE pa ||| perm ||| PTE_V)
        if a = last then pure 0 else mappagesLoop pagetable last perm n (a + PGSIZE) (pa + PGSIZE)

def mappages (pagetable va size pa perm : UInt64) : Eff Ram ℤ :=
  if va % PGSIZE ≠ 0 then fail "mappages: va not aligned"
  else if size % PGSIZE ≠ 0 then fail "mappages: size not aligned"
  else if size = 0 then fail "mappages: size"
  else mappagesLoop pagetable (va + size - PGSIZE) perm ROUNDS va pa

def uvmcreate : Eff Ram UInt64 := do
  let pagetable ← kalloc
  if pagetable = 0 then pure 0
  else do
    memset pagetable 0
    pure pagetable

/-- One round of the loop of `uvmunmap`. -/
def unmapPage (pagetable a : UInt64) (do_free : Bool) : Eff Ram Unit := do
  match ← walk pagetable a false with
  | none => pure ()
  | some (t, i) => do
    let pte ← fetch t i
    if pte &&& PTE_V = 0 then pure ()
    else do
      if do_free then kfree (PTE2PA pte) else pure ()
      assign t i 0

def uvmunmapLoop (pagetable stop : UInt64) (do_free : Bool) : ℕ → UInt64 → Eff Ram Unit
  | 0, _ => fail "rounds"
  | n + 1, a =>
    if a < stop then do
      unmapPage pagetable a do_free
      uvmunmapLoop pagetable stop do_free n (a + PGSIZE)
    else pure ()

def uvmunmap (pagetable va npages : UInt64) (do_free : Bool) : Eff Ram Unit :=
  if va % PGSIZE ≠ 0 then fail "uvmunmap: not aligned"
  else uvmunmapLoop pagetable (va + npages * PGSIZE) do_free ROUNDS va

/-- The number of pages goes through an `int`. -/
def npages (oldsz newsz : UInt64) : UInt64 :=
  (((PGROUNDUP oldsz - PGROUNDUP newsz) / PGSIZE).toUInt32.toInt32.toInt64).toUInt64

def uvmdealloc (pagetable oldsz newsz : UInt64) : Eff Ram UInt64 :=
  if newsz ≥ oldsz then pure oldsz else do
    if PGROUNDUP newsz < PGROUNDUP oldsz then
      uvmunmap pagetable (PGROUNDUP newsz) (npages oldsz newsz) true
    else pure ()
    pure newsz

/-- The loop of `uvmalloc`, with `oldsz` rounded up. -/
def uvmallocLoop (pagetable oldsz newsz xperm : UInt64) : ℕ → UInt64 → Eff Ram UInt64
  | 0, _ => fail "rounds"
  | n + 1, a =>
    if a < newsz then do
      let mem ← kalloc
      if mem = 0 then do
        let _ ← uvmdealloc pagetable a oldsz
        pure 0
      else do
        memset mem 0
        let r ← mappages pagetable a PGSIZE mem (PTE_R ||| PTE_U ||| xperm)
        if r ≠ 0 then do
          kfree mem
          let _ ← uvmdealloc pagetable a oldsz
          pure 0
        else uvmallocLoop pagetable oldsz newsz xperm n (a + PGSIZE)
    else pure newsz

def uvmalloc (pagetable oldsz newsz xperm : UInt64) : Eff Ram UInt64 :=
  if newsz < oldsz then pure oldsz
  else uvmallocLoop pagetable (PGROUNDUP oldsz) newsz xperm ROUNDS (PGROUNDUP oldsz)

/-- The loop of `freewalk`, which is called on the tables `level` levels above the last one. -/
def freewalkLoop (child : UInt64 → Eff Ram Unit) (pagetable : UInt64) : ℕ → Eff Ram Unit
  | 0 => pure ()
  | n + 1 => do
    freewalkLoop child pagetable n
    let i := Fin.ofNat 512 n
    let pte ← fetch pagetable i
    if pte &&& PTE_V ≠ 0 ∧ pte &&& (PTE_R ||| PTE_W ||| PTE_X) = 0 then do
      child (PTE2PA pte)
      assign pagetable i 0
    else if pte &&& PTE_V ≠ 0 then fail "freewalk: leaf"
    else pure ()

def freewalk : ℕ → UInt64 → Eff Ram Unit
  | 0, pagetable => do
    freewalkLoop (fun _ => fail "rounds") pagetable 512
    kfree pagetable
  | level + 1, pagetable => do
    freewalkLoop (freewalk level) pagetable 512
    kfree pagetable

def uvmfree (pagetable sz : UInt64) : Eff Ram Unit := do
  if sz > 0 then uvmunmap pagetable 0 (PGROUNDUP sz / PGSIZE) true else pure ()
  freewalk 2 pagetable

/-- The loop of `uvmcopy`. -/
def uvmcopyLoop (old new sz : UInt64) : ℕ → UInt64 → Eff Ram ℤ
  | 0, _ => fail "rounds"
  | n + 1, i =>
    if i < sz then do
      match ← walk old i false with
      | none => uvmcopyLoop old new sz n (i + PGSIZE)
      | some (t, k) => do
        let pte ← fetch t k
        if pte &&& PTE_V = 0 then uvmcopyLoop old new sz n (i + PGSIZE)
        else do
          let mem ← kalloc
          if mem = 0 then do
            uvmunmap new 0 (i / PGSIZE) true
            pure (-1)
          else do
            change fun s => { s with mem := Function.update s.mem mem (s.mem (PTE2PA pte)) }
            let r ← mappages new i PGSIZE mem (PTE_FLAGS pte)
            if r ≠ 0 then do
              kfree mem
              uvmunmap new 0 (i / PGSIZE) true
              pure (-1)
            else uvmcopyLoop old new sz n (i + PGSIZE)
    else pure 0

def uvmcopy (old new sz : UInt64) : Eff Ram ℤ := uvmcopyLoop old new sz ROUNDS 0

def uvmclear (pagetable va : UInt64) : Eff Ram Unit := do
  match ← walk pagetable va false with
  | none => fail "uvmclear"
  | some (t, i) => do
    let pte ← fetch t i
    assign t i (pte &&& ~~~PTE_U)

lemma freewalkLoop_zero (child : UInt64 → Eff Ram Unit) (pagetable : UInt64) :
    freewalkLoop child pagetable 0 = pure () := rfl

lemma freewalkLoop_succ (child : UInt64 → Eff Ram Unit) (pagetable : UInt64) (n : ℕ) :
    freewalkLoop child pagetable (n + 1) = (do
      freewalkLoop child pagetable n
      let i := Fin.ofNat 512 n
      let pte ← fetch pagetable i
      if pte &&& PTE_V ≠ 0 ∧ pte &&& (PTE_R ||| PTE_W ||| PTE_X) = 0 then do
        child (PTE2PA pte)
        assign pagetable i 0
      else if pte &&& PTE_V ≠ 0 then fail "freewalk: leaf"
      else pure ()) := rfl

attribute [irreducible] freewalkLoop

end Xv6.Vm.Table
