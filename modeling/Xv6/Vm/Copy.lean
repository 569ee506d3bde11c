import Xv6.Vm.Table

/-!
How the kernel reads and writes user memory (`vm.c`): `copyout`, `copyin`, `copyinstr`, and
`vmfault`, which allocates a page of a process that `sys_sbrk` has not.
-/

namespace Xv6.Vm.Copy

open Xv6.Data.Effect Xv6.Data.Effect.Eff Xv6.Vm.Paging Xv6.Vm.Memory Xv6.Vm.Table

/-- Of `struct proc`, its memory. -/
structure Proc where
  sz : UInt64
  pagetable : UInt64

def TRAMPOLINE : UInt64 := MAXVA - PGSIZE

def TRAPFRAME : UInt64 := TRAMPOLINE - PGSIZE

def ismapped (pagetable va : UInt64) : Eff Ram Bool := do
  match ← walk pagetable va false with
  | none => pure false
  | some (t, i) => do
    let pte ← fetch t i
    pure (decide (pte &&& PTE_V ≠ 0))

/-- `p` is `myproc()`. -/
def vmfault (p : Proc) (pagetable va : UInt64) : Eff Ram UInt64 :=
  if va ≥ p.sz then pure 0
  else do
    let va := PGROUNDDOWN va
    if ← ismapped pagetable va then pure 0
    else do
      let mem ← kalloc
      if mem = 0 then pure 0
      else do
        memset mem 0
        let r ← mappages p.pagetable va PGSIZE mem (PTE_W ||| PTE_U ||| PTE_R)
        if r ≠ 0 then do
          kfree mem
          pure 0
        else pure mem

/-- The page of user address `va0`, allocated now if it has to be. -/
def pageOf (p : Proc) (pagetable va0 : UInt64) : Eff Ram UInt64 := do
  let pa0 ← walkaddr pagetable va0
  if pa0 = 0 then vmfault p pagetable va0 else pure pa0

/-- A page with the first `n` bytes of `src` from `off` on. -/
def patch (pg : Page) (off n : ℕ) (src : ℕ → UInt8) : Page := fun k =>
  if off ≤ k.val ∧ k.val < off + n then src (k.val - off) else pg k

/-- `memmove(pa + off, src, n)`, within a page. -/
def memmove (pa : UInt64) (off n : ℕ) (src : ℕ → UInt8) : Eff Ram Unit :=
  change fun s => { s with mem := Function.update s.mem pa (patch (s.mem pa) off n src) }

/-- The bytes from `off` of a page. -/
def slice (pg : Page) (off n : ℕ) : List UInt8 :=
  (List.range n).map fun j => if h : off + j < 4096 then pg ⟨off + j, h⟩ else 0

/-- How many of `len` bytes at `va` are in the page of `va`. -/
def inPage (va len : UInt64) : UInt64 :=
  if PGSIZE - (va - PGROUNDDOWN va) > len then len else PGSIZE - (va - PGROUNDDOWN va)

/-- The page of user address `va0` for `copyout`, or 0 where it returns -1. -/
def destOf (p : Proc) (pagetable va0 : UInt64) : Eff Ram UInt64 :=
  if va0 ≥ MAXVA then pure 0
  else do
    let pa0 ← pageOf p pagetable va0
    if pa0 = 0 then pure 0
    else do
      match ← walk pagetable va0 false with
      | none => fail "null pointer"
      | some (t, i) => do
        let pte ← fetch t i
        if pte &&& PTE_W = 0 then pure 0 else pure pa0

/-- The loop of `copyout`, with `src` as the function that gives its bytes. It also says how many
bytes it has stored, `tot` of them before. -/
def copyoutLoop (p : Proc) (pagetable : UInt64) :
    ℕ → UInt64 → (ℕ → UInt8) → UInt64 → ℕ → Eff Ram (ℤ × ℕ)
  | 0, _, _, _, _ => fail "rounds"
  | fuel + 1, dstva, src, len, tot =>
    if len > 0 then do
      let pa0 ← destOf p pagetable (PGROUNDDOWN dstva)
      if pa0 = 0 then pure (-1, tot)
      else do
        memmove pa0 (dstva - PGROUNDDOWN dstva).toNat (inPage dstva len).toNat src
        copyoutLoop p pagetable fuel (PGROUNDDOWN dstva + PGSIZE)
          (fun j => src ((inPage dstva len).toNat + j)) (len - inPage dstva len)
          (tot + (inPage dstva len).toNat)
    else pure (0, tot)

def copyout (p : Proc) (pagetable dstva : UInt64) (src : ℕ → UInt8) (len : UInt64) :
    Eff Ram (ℤ × ℕ) :=
  copyoutLoop p pagetable ROUNDS dstva src len 0

/-- The loop of `copyin`, which has put the bytes `dst` into the kernel's buffer. -/
def copyinLoop (p : Proc) (pagetable : UInt64) :
    ℕ → UInt64 → UInt64 → List UInt8 → Eff Ram (ℤ × List UInt8)
  | 0, _, _, _ => fail "rounds"
  | fuel + 1, srcva, len, dst =>
    if len > 0 then do
      let pa0 ← pageOf p pagetable (PGROUNDDOWN srcva)
      if pa0 = 0 then pure (-1, dst)
      else do
        let pg ← look fun s => s.mem pa0
        copyinLoop p pagetable fuel (PGROUNDDOWN srcva + PGSIZE) (len - inPage srcva len)
          (dst ++ slice pg (srcva - PGROUNDDOWN srcva).toNat (inPage srcva len).toNat)
    else pure (0, dst)

def copyin (p : Proc) (pagetable srcva len : UInt64) : Eff Ram (ℤ × List UInt8) :=
  copyinLoop p pagetable ROUNDS srcva len []

/-- The inner loop of `copyinstr`: bytes up to the first `'\0'`, which is put in as well, and
whether there was one. -/
def copyChars : List UInt8 → List UInt8 × Bool
  | [] => ([], false)
  | c :: cs => if c = 0 then ([0], true) else (c :: (copyChars cs).1, (copyChars cs).2)

def copyinstrLoop (pagetable : UInt64) :
    ℕ → UInt64 → UInt64 → List UInt8 → Eff Ram (ℤ × List UInt8)
  | 0, _, _, _ => fail "rounds"
  | fuel + 1, srcva, max, dst =>
    if max > 0 then do
      let pa0 ← walkaddr pagetable (PGROUNDDOWN srcva)
      if pa0 = 0 then pure (-1, dst)
      else do
        let pg ← look fun s => s.mem pa0
        let r := copyChars (slice pg (srcva - PGROUNDDOWN srcva).toNat (inPage srcva max).toNat)
        if r.2 then pure (0, dst ++ r.1)
        else do
          copyinstrLoop pagetable fuel (PGROUNDDOWN srcva + PGSIZE) (max - inPage srcva max)
            (dst ++ r.1)
    else pure (-1, dst)

def copyinstr (pagetable srcva max : UInt64) : Eff Ram (ℤ × List UInt8) :=
  copyinstrLoop pagetable ROUNDS srcva max []

end Xv6.Vm.Copy
