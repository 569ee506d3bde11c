import Mathlib.Data.UInt
import Mathlib.Logic.Function.Basic
import Xv6.Data.Cover

/-!
`umalloc.c`: the free blocks are a circular list in the order of their addresses, on which `base`
stands for the beginning.
-/

namespace Xv6.User.Umalloc

/-- `union header` -/
structure Header where
  ptr : ℕ
  size : UInt32

/-- `sizeof(Header)`: sizes of blocks are counted in units of it. -/
def HEADER : ℕ := 16

structure Block where
  start : ℕ
  units : ℕ
deriving DecidableEq

namespace Block

def bytes (b : Block) : ℕ := HEADER * b.units

/-- The first address behind the block. -/
def stop (b : Block) : ℕ := b.start + b.bytes

end Block

/-- What the allocator runs on: where `base` is, the system call `sbrk`, and which addresses can be
accessed. -/
structure Machine (κ : Type) where
  base : ℕ
  sbrk : κ → Int32 → κ × Option ℕ
  ok : κ → ℕ → Bool

/-- The headers by their addresses. `obtained` is the memory that `sbrk` has brought. -/
structure Heap (κ : Type) where
  kernel : κ
  mem : ℕ → Header
  freep : ℕ
  obtained : List Block

inductive Stop
  | killed
  | fuel
deriving DecidableEq

variable {κ : Type} (M : Machine κ)

/-- An access to the header at `a`, of which 12 bytes are in use. -/
def touches (k : κ) (a : ℕ) : Bool := M.ok k a && M.ok k (a + 11)

def load (h : Heap κ) (a : ℕ) : Except Stop Header :=
  if touches M h.kernel a then .ok (h.mem a) else .error .killed

def store (h : Heap κ) (a : ℕ) (x : Header) : Except Stop (Heap κ) :=
  if touches M h.kernel a then .ok { h with mem := Function.update h.mem a x } else .error .killed

/-- The loop of `free` that looks for the place of `bp`. -/
def findLoop (h : Heap κ) (bp : ℕ) : ℕ → ℕ → Except Stop ℕ
  | 0, _ => .error .fuel
  | fuel + 1, p => do
    let x ← load M h p
    if p < bp ∧ bp < x.ptr then return p
    else if x.ptr ≤ p ∧ (p < bp ∨ bp < x.ptr) then return p
    else findLoop h bp fuel x.ptr

/-- The link from `bp` up: to the block after `p`, or past it if `bp` reaches up to it. -/
def linkAbove (h : Heap κ) (bp p : ℕ) : Except Stop (Heap κ) := do
  let b ← load M h bp
  let x ← load M h p
  if bp + HEADER * b.size.toNat = x.ptr then
    let y ← load M h x.ptr
    store M h bp ⟨y.ptr, b.size + y.size⟩
  else store M h bp ⟨x.ptr, b.size⟩

/-- The link from `p` up: to `bp`, or past it if `p` reaches up to it. -/
def linkBelow (h : Heap κ) (bp p : ℕ) : Except Stop (Heap κ) := do
  let x ← load M h p
  if p + HEADER * x.size.toNat = bp then
    let b ← load M h bp
    store M h p ⟨b.ptr, x.size + b.size⟩
  else store M h p ⟨bp, x.size⟩

def free (fuel : ℕ) (h : Heap κ) (ap : ℕ) : Except Stop (Heap κ) := do
  let bp := ap - HEADER
  let p ← findLoop M h bp fuel h.freep
  let h ← linkAbove M h bp p
  let h ← linkBelow M h bp p
  return { h with freep := p }

/-- `nu * sizeof(Header)` as the `int` that `sbrk` takes. -/
def request (nu : UInt32) : Int32 := (nu.toUInt64 * 16).toUInt32.toInt32

/-- What a call of `sbrk` that returns `p` has brought. -/
def brought (p : ℕ) (n : Int32) : List Block :=
  if 0 < n then [⟨p, n.toInt.toNat / HEADER⟩] else []

def morecore (fuel : ℕ) (h : Heap κ) (nu : UInt32) : Except Stop (Heap κ × ℕ) := do
  let nu := if nu < 4096 then 4096 else nu
  match M.sbrk h.kernel (request nu) with
  | (k, none) => return ({ h with kernel := k }, 0)
  | (k, some p) =>
    let h := { h with kernel := k, obtained := brought p (request nu) ++ h.obtained }
    let x ← load M h p
    let h ← store M h p ⟨x.ptr, nu⟩
    let h ← free M fuel h (p + HEADER)
    return (h, h.freep)

/-- A block that is large enough: the whole of it, or its tail. -/
def take (h : Heap κ) (prevp p : ℕ) (nunits : UInt32) : Except Stop (Heap κ × ℕ) := do
  let x ← load M h p
  if x.size = nunits then
    let y ← load M h prevp
    let h ← store M h prevp ⟨x.ptr, y.size⟩
    return ({ h with freep := prevp }, p + HEADER)
  else
    let h ← store M h p ⟨x.ptr, x.size - nunits⟩
    let p := p + HEADER * (x.size - nunits).toNat
    let z ← load M h p
    let h ← store M h p ⟨z.ptr, nunits⟩
    return ({ h with freep := prevp }, p + HEADER)

/-- The loop of `malloc`. -/
def mallocLoop : ℕ → Heap κ → ℕ → ℕ → UInt32 → Except Stop (Heap κ × ℕ)
  | 0, _, _, _, _ => .error .fuel
  | fuel + 1, h, prevp, p, nunits => do
    let x ← load M h p
    if nunits ≤ x.size then take M h prevp p nunits
    else if p = h.freep then
      let r ← morecore M fuel h nunits
      if r.2 = 0 then return (r.1, 0)
      else
        let y ← load M r.1 r.2
        mallocLoop fuel r.1 r.2 y.ptr nunits
    else mallocLoop fuel h p x.ptr nunits

/-- `(nbytes + sizeof(Header) - 1)/sizeof(Header) + 1` -/
def unitsFor (nbytes : UInt32) : UInt32 := ((nbytes.toUInt64 + 16 - 1) / 16 + 1).toUInt32

/-- The list of `base` alone, if there is none yet. -/
def start (h : Heap κ) : Except Stop (Heap κ) :=
  if h.freep = 0 then do
    let h ← store M h M.base ⟨M.base, 0⟩
    return { h with freep := M.base }
  else return h

/-- `malloc`. It returns the heap and the address, which is 0 where there is no memory. -/
def malloc (fuel : ℕ) (h : Heap κ) (nbytes : UInt32) : Except Stop (Heap κ × ℕ) := do
  let nunits := unitsFor nbytes
  let h ← start M h
  let x ← load M h h.freep
  mallocLoop M fuel h h.freep x.ptr nunits

end Xv6.User.Umalloc
