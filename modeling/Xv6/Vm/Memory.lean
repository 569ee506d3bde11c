import Mathlib.Data.Multiset.Basic
import Xv6.Data.Effect
import Xv6.Data.Radix
import Xv6.Vm.Paging

/-!
Physical memory by pages, and its allocator (`kalloc.c`).
-/

namespace Xv6.Vm.Memory

open Xv6.Data.Effect Xv6.Data.Effect.Eff Xv6.Vm.Paging

def KERNBASE : UInt64 := 0x80000000

def PHYSTOP : UInt64 := KERNBASE + 128 * 1024 * 1024

/-- Physical memory. The free pages are a multiset, since the order of `kmem.freelist` is up to
what the other processes do in between. So is which page a call of `kalloc` finds: call `n` finds
`pick n`, if that page is free, and none otherwise. -/
structure Ram where
  mem : UInt64 → Page
  free : Multiset UInt64
  pick : ℕ → UInt64
  /-- Calls of `kalloc` so far, and how many of them returned 0. -/
  calls : ℕ
  failed : ℕ
  /-- `end`, the first address after the kernel. -/
  kend : UInt64

/-- A page that `kfree` takes. -/
def Ram.Frame (s : Ram) (pa : UInt64) : Prop :=
  pa.toNat % 4096 = 0 ∧ s.kend ≤ pa ∧ pa < PHYSTOP

instance (s : Ram) (pa : UInt64) : Decidable (s.Frame pa) := inferInstanceAs (Decidable (_ ∧ _ ∧ _))

def memset (pa : UInt64) (c : UInt8) : Eff Ram Unit :=
  change fun s => { s with mem := Function.update s.mem pa (filled c) }

def kalloc : Eff Ram UInt64 := do
  let r ← look fun s => s.pick s.calls
  let free ← look Ram.free
  change fun s => { s with calls := s.calls + 1 }
  if r ∈ free then
    change fun s => { s with free := s.free.erase r }
    memset r 5
    pure r
  else
    change fun s => { s with failed := s.failed + 1 }
    pure 0

def kfree (pa : UInt64) : Eff Ram Unit := do
  let ok ← look fun s => decide (s.Frame pa)
  if ok then
    memset pa 1
    change fun s => { s with free := pa ::ₘ s.free }
  else
    fail "kfree"

/-- Read `pagetable[i]`. -/
def fetch (pagetable : UInt64) (i : Fin 512) : Eff Ram UInt64 :=
  look fun s => entry (s.mem pagetable) i

def Ram.put (s : Ram) (pagetable : UInt64) (i : Fin 512) (e : UInt64) : Ram :=
  { s with mem := Function.update s.mem pagetable (setEntry (s.mem pagetable) i e) }

/-- The assignment `pagetable[i] = e`. -/
def assign (pagetable : UInt64) (i : Fin 512) (e : UInt64) : Eff Ram Unit :=
  change fun s => s.put pagetable i e

end Xv6.Vm.Memory
