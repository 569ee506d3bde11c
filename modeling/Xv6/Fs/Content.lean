import Xv6.Data.Effect
import Xv6.Disk.Block

/-!
The disk of the file system (`fs.c`): the bitmap, the inodes on disk and the data blocks, seen
through the buffer cache, and what the kernel does to the content of an inode while it has it
locked.
-/

namespace Xv6.Fs.Content

open Xv6.Conc Xv6.Data.Effect Xv6.Data.Effect.Eff Xv6.Disk

def NDIRECT : ℕ := 12
def NINDIRECT : ℕ := BSIZE / 4
def MAXFILE : ℕ := NDIRECT + NINDIRECT

instance (priority := 2000) : NeZero (NDIRECT + 1) := ⟨Nat.succ_ne_zero NDIRECT⟩

def T_DIR : Int16 := 1
def T_FILE : Int16 := 2
def T_DEVICE : Int16 := 3

/-- `struct dinode`, which is also the part of `struct inode` that is a copy of it. -/
structure Dinode where
  type : Int16
  major : Int16
  minor : Int16
  nlink : Int16
  /-- A `uint`, like every offset and count below. -/
  size : ℕ
  addrs : Fin (NDIRECT + 1) → BlockNo

def Dinode.free : Dinode := ⟨0, 0, 0, 0, 0, fun _ => 0⟩

def Dinode.setAddr (ip : Dinode) (i : Fin (NDIRECT + 1)) (b : BlockNo) : Dinode :=
  { ip with addrs := Function.update ip.addrs i b }

/-- `&ip->addrs[NDIRECT]`. -/
def indirect : Fin (NDIRECT + 1) := Fin.last NDIRECT

structure Store where
  /-- `sb.size` -/
  size : ℕ
  /-- `sb.ninodes` -/
  ninodes : ℕ
  /-- The bitmap. -/
  used : BlockNo → Bool
  dinode : ℕ → Dinode
  block : BlockNo → Block
  /-- `log.outstanding` -/
  outstanding : ℕ

def Store.mark (b : BlockNo) (v : Bool) (s : Store) : Store :=
  { s with used := Function.update s.used b v }

def Store.setBlock (b : BlockNo) (v : Block) (s : Store) : Store :=
  { s with block := Function.update s.block b v }

def Store.setDinode (inum : ℕ) (d : Dinode) (s : Store) : Store :=
  { s with dinode := Function.update s.dinode inum d }

/-- `log_write`, as far as the operations are concerned. -/
def logWrite : Eff Store Unit := fun s =>
  if s.outstanding < 1 then .panic "log_write outside of trans" else .ok s ()

def bzero (b : BlockNo) : Eff Store Unit := do
  change (Store.setBlock b zero)
  logWrite

/-- The first block whose bit is not set. -/
def Store.unused (s : Store) : Option BlockNo :=
  ((List.range s.size).map UInt32.ofNat).find? fun b => !s.used b

/-- Returns 0 if out of disk space. -/
def balloc : Eff Store BlockNo := do
  match ← look Store.unused with
  | some b =>
    change (Store.mark b true)
    logWrite
    bzero b
    return b
  | none => return 0

def bfree (b : BlockNo) : Eff Store Unit := do
  if ← look (·.used b) then
    change (Store.mark b false)
    logWrite
  else
    fail "freeing free block"

def iupdate (inum : ℕ) (ip : Dinode) : Eff Store Unit := do
  change (Store.setDinode inum ip)
  logWrite

/-- `ip->addrs[i]`, allocated if necessary. -/
def addrAt (ip : Dinode) (i : Fin (NDIRECT + 1)) : Eff Store (Dinode × BlockNo) := do
  if ip.addrs i = 0 then
    let addr ← balloc
    if addr = 0 then return (ip, 0) else return (ip.setAddr i addr, addr)
  else
    return (ip, ip.addrs i)

/-- Entry `bn` of the indirect block `addr`, allocated if necessary. -/
def entryAt (addr : BlockNo) (bn : ℕ) : Eff Store BlockNo := do
  let a ← look fun s => word (s.block addr) bn
  if a = 0 then
    let b ← balloc
    if b = 0 then return 0
    else
      change fun s => s.setBlock addr (setWord (s.block addr) bn b)
      logWrite
      return b
  else
    return a

/-- Returns 0 if out of disk space. -/
def bmap (ip : Dinode) (bn : ℕ) : Eff Store (Dinode × BlockNo) := do
  if bn < NDIRECT then
    addrAt ip (Fin.ofNat (NDIRECT + 1) bn)
  else if bn - NDIRECT < NINDIRECT then
    let (ip, addr) ← addrAt ip indirect
    if addr = 0 then return (ip, 0)
    else
      let a ← entryAt addr (bn - NDIRECT)
      return (ip, a)
  else
    fail "bmap: out of range"

/-- `if(b) bfree(b)` for each of the blocks listed. -/
def freeEach : List BlockNo → Eff Store Unit
  | [] => return ()
  | b :: bs => do
    if b = 0 then freeEach bs
    else
      bfree b
      freeEach bs

/-- The entries of an indirect block. -/
def entries (v : Block) : List BlockNo := (List.range NINDIRECT).map (word v)

def itrunc (inum : ℕ) (ip : Dinode) : Eff Store Dinode := do
  freeEach ((List.finRange NDIRECT).map fun i => ip.addrs i.castSucc)
  if ip.addrs indirect = 0 then
    let ip := { ip with addrs := fun _ => 0, size := 0 }
    iupdate inum ip
    return ip
  else
    freeEach (entries (← look (·.block (ip.addrs indirect))))
    bfree (ip.addrs indirect)
    let ip := { ip with addrs := fun _ => 0, size := 0 }
    iupdate inum ip
    return ip

/-! ### Reading and writing -/

/-- The `m` bytes from offset `o` on. -/
def slice (v : Block) (o m : ℕ) : List UInt8 := (List.range m).map fun i => byte v (o + i)

/-- The bytes `bs` copied to offset `o`. -/
def patch (v : Block) (o : ℕ) (bs : List UInt8) : Block := fun k =>
  if o ≤ k.1 ∧ k.1 < o + bs.length then bs.getD (k.1 - o) 0 else v k

/-- How many bytes the next round of `readi` or `writei` copies. -/
def chunk (n tot off : ℕ) : ℕ := min (n - tot) (BSIZE - off % BSIZE)

/-- The loop of `readi`. `writable i` says whether byte `i` of the destination can be written;
`got` is what has been copied out. -/
def readLoop (writable : ℕ → Bool) (n : ℕ) :
    (fuel : ℕ) → Dinode → (tot off : ℕ) → (got : List UInt8) → Eff Store (Dinode × ℤ × List UInt8)
  | 0, ip, tot, _, got => return (ip, tot, got)
  | fuel + 1, ip, tot, off, got => do
    if tot < n then
      let (ip, addr) ← bmap ip (off / BSIZE)
      if addr = 0 then return (ip, tot, got)
      else
        let m := chunk n tot off
        let bs ← look fun s => slice (s.block addr) (off % BSIZE) m
        if (List.range m).all fun i => writable (tot + i) then
          readLoop writable n fuel ip (tot + m) (off + m) (got ++ bs)
        else
          return (ip, -1, got)
    else
      return (ip, tot, got)

/-- A round of the loop copies at least one byte, so `n` rounds are enough. -/
def readi (ip : Dinode) (writable : ℕ → Bool) (off n : ℕ) : Eff Store (Dinode × ℤ × List UInt8) :=
  if off > ip.size ∨ (off + n) % 2 ^ 32 < off then
    return (ip, 0, [])
  else
    let n := if off + n > ip.size then ip.size - off else n
    readLoop writable n n ip 0 off []

/-- The bytes of the source up to the first that cannot be read. -/
def copyin (src : ℕ → Option UInt8) (tot m : ℕ) : List UInt8 :=
  (((List.range m).map fun i => src (tot + i)).takeWhile Option.isSome).reduceOption

/-- The loop of `writei`. `src i` is byte `i` of the source, if it can be read. -/
def writeLoop (src : ℕ → Option UInt8) (n : ℕ) :
    (fuel : ℕ) → Dinode → (tot off : ℕ) → Eff Store (Dinode × ℕ × ℕ)
  | 0, ip, tot, off => return (ip, tot, off)
  | fuel + 1, ip, tot, off => do
    if tot < n then
      let (ip, addr) ← bmap ip (off / BSIZE)
      if addr = 0 then return (ip, tot, off)
      else
        let m := chunk n tot off
        let bs := copyin src tot m
        change fun s => s.setBlock addr (patch (s.block addr) (off % BSIZE) bs)
        if bs.length = m then
          logWrite
          writeLoop src n fuel ip (tot + m) (off + m)
        else
          return (ip, tot, off)
    else
      return (ip, tot, off)

def writei (inum : ℕ) (ip : Dinode) (src : ℕ → Option UInt8) (off n : ℕ) : Eff Store (Dinode × ℤ) :=
  if off > ip.size ∨ (off + n) % 2 ^ 32 < off then
    return (ip, -1)
  else if (off + n) % 2 ^ 32 > MAXFILE * BSIZE then
    return (ip, -1)
  else do
    let (ip, tot, off) ← writeLoop src n n ip 0 off
    let ip := if off > ip.size then { ip with size := off } else ip
    iupdate inum ip
    return (ip, tot)

end Xv6.Fs.Content
