import Xv6.Disk.Block
import Xv6.Param

/-!
The buffer cache: `NBUF` buffers in least-recently-used order.

The functions here are what the kernel does to the cache inside one critical section of
`bcache.lock`; the sleeplock of a buffer and its data change outside it.
-/

namespace Xv6.Bio.Cache

open Xv6.Disk Xv6.Param

/-- `struct buf`, for processes `T`. `lock` is the process that holds the sleeplock. -/
structure Buf (T : Type) where
  dev : UInt32
  blockno : BlockNo
  valid : Bool
  refcnt : ℕ
  lock : Option T
  data : Block

/-- The buffers, and their order from `head.next` (most recent) to `head.prev` (least). -/
structure Bcache (T : Type) where
  buf : Fin NBUF → Buf T
  lru : List (Fin NBUF)

variable {T : Type}

def binit : Bcache T where
  buf _ := ⟨0, 0, false, 0, none, zero⟩
  lru := (List.finRange NBUF).reverse

def setBuf (i : Fin NBUF) (b : Buf T) (c : Bcache T) : Bcache T :=
  { c with buf := Function.update c.buf i b }

/-- The buffer that caches a block, if one does. -/
def cached (dev : UInt32) (b : BlockNo) (c : Bcache T) : Option (Fin NBUF) :=
  c.lru.find? fun i => (c.buf i).dev = dev ∧ (c.buf i).blockno = b

/-- The least recently used buffer that nobody refers to, if there is one. -/
def unused (c : Bcache T) : Option (Fin NBUF) :=
  c.lru.reverse.find? fun i => (c.buf i).refcnt = 0

/-- The part of `bget` under `bcache.lock`; `none` is its panic. -/
def bget (dev : UInt32) (b : BlockNo) (c : Bcache T) : Option (Fin NBUF × Bcache T) :=
  match cached dev b c with
  | some i => some (i, setBuf i { c.buf i with refcnt := (c.buf i).refcnt + 1 } c)
  | none => match unused c with
    | some i => some (i, setBuf i
        { c.buf i with dev := dev, blockno := b, valid := false, refcnt := 1 } c)
    | none => none

/-- The part of `brelse` under `bcache.lock`. -/
def putRef (i : Fin NBUF) (c : Bcache T) : Bcache T :=
  let c' := setBuf i { c.buf i with refcnt := (c.buf i).refcnt - 1 } c
  if (c'.buf i).refcnt = 0 then { c' with lru := i :: c'.lru.erase i } else c'

def bpin (i : Fin NBUF) (c : Bcache T) : Bcache T :=
  setBuf i { c.buf i with refcnt := (c.buf i).refcnt + 1 } c

def bunpin (i : Fin NBUF) (c : Bcache T) : Bcache T :=
  setBuf i { c.buf i with refcnt := (c.buf i).refcnt - 1 } c

end Xv6.Bio.Cache
