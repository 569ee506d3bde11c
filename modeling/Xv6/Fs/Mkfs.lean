import Xv6.Fs.Kernel
import Xv6.Fs.Layout
import Xv6.Param

/-!
`mkfs`: the program that makes the first image of the disk.
-/

namespace Xv6.Fs.Mkfs

open Xv6.Data.Effect Xv6.Data.Effect.Eff Xv6.Disk Xv6.Fs.Content Xv6.Fs.Kernel Xv6.Fs.Layout
  Xv6.Fs.Path Xv6.Param

def FSSIZE : ℕ := 2000
def NINODES : ℕ := 200

def nbitmap : ℕ := FSSIZE / BPB + 1
def ninodeblocks : ℕ := NINODES / IPB + 1
def nlog : ℕ := LOGBLOCKS + 1
def nmeta : ℕ := 2 + nlog + ninodeblocks + nbitmap

def sb : Superblock where
  magic := FSMAGIC
  size := FSSIZE
  nblocks := FSSIZE - nmeta
  ninodes := NINODES
  nlog := nlog
  logstart := 2
  inodestart := 2 + nlog
  bmapstart := 2 + nlog + ninodeblocks

/-- The file `fs.img` and the global variables. -/
structure Mkfs where
  /-- The length of the file, in blocks. -/
  sectors : ℕ
  sect : ℕ → Block
  freeinode : ℕ
  /-- A `uint`. -/
  freeblock : ℕ

/-- Before `main`, and after the image has been opened. -/
def start : Mkfs := ⟨0, fun _ => zero, 1, nmeta⟩

/-- Which block of the file is at the offset `sec * BSIZE`, a `uint`. -/
def place (sec : ℕ) : ℕ := sec * BSIZE % 2 ^ 32 / BSIZE

def wsect (sec : ℕ) (buf : Block) : Eff Mkfs Unit :=
  change fun s => { s with
    sectors := max s.sectors (place sec + 1)
    sect := Function.update s.sect (place sec) buf }

def rsect (sec : ℕ) : Eff Mkfs Block := do
  if place sec < (← look (·.sectors)) then
    look fun s => s.sect (place sec)
  else
    fail "read"

def winode (inum : ℕ) (ip : Dinode) : Eff Mkfs Unit := do
  let buf ← rsect (IBLOCK inum sb)
  wsect (IBLOCK inum sb) (putDinode buf (inum % IPB) ip)

def rinode (inum : ℕ) : Eff Mkfs Dinode := do
  let buf ← rsect (IBLOCK inum sb)
  return getDinode buf (inum % IPB)

def ialloc (type : Int16) : Eff Mkfs ℕ := do
  let inum ← look (·.freeinode)
  change fun s => { s with freeinode := s.freeinode + 1 }
  winode inum { Dinode.free with type := type, nlink := 1 }
  return inum

/-- The first `used` bits. -/
def marked : (used : ℕ) → Block
  | 0 => zero
  | i + 1 => setBit (marked i) i

def balloc (used : ℕ) : Eff Mkfs Unit :=
  if used < BPB then wsect sb.bmapstart (marked used) else fail "used < BPB"

/-! ### Appending -/

/-- `freeblock++` -/
def nextBlock : Eff Mkfs BlockNo := do
  let b ← look (·.freeblock)
  change fun s => { s with freeblock := s.freeblock + 1 }
  return UInt32.ofNat b

/-- Make sure that `din.addrs[i]` is a block. -/
def addrAt (din : Dinode) (i : Fin (NDIRECT + 1)) : Eff Mkfs Dinode := do
  if din.addrs i = 0 then
    let b ← nextBlock
    return din.setAddr i b
  else
    return din

/-- Entry `k` of the indirect block `ind`, made a block if it is none. -/
def entryAt (ind : BlockNo) (k : ℕ) : Eff Mkfs BlockNo := do
  let indirect ← rsect ind.toNat
  if word indirect k = 0 then
    let b ← nextBlock
    wsect ind.toNat (setWord indirect k b)
    return b
  else
    return word indirect k

/-- The block `x` that `iappend` finds for block `fbn` of the file. -/
def blockAt (din : Dinode) (fbn : ℕ) : Eff Mkfs (Dinode × BlockNo) := do
  if fbn < NDIRECT then
    let din ← addrAt din (Fin.ofNat (NDIRECT + 1) fbn)
    return (din, din.addrs (Fin.ofNat (NDIRECT + 1) fbn))
  else
    let din ← addrAt din indirect
    let x ← entryAt (din.addrs indirect) (fbn - NDIRECT)
    return (din, x)

/-- The loop of `iappend`; `p` is what is left of the bytes. Every round takes one at least, so
that as many rounds as there are bytes are enough. -/
def iappendLoop : (fuel : ℕ) → Dinode → (off : ℕ) → (p : List UInt8) → Eff Mkfs (Dinode × ℕ)
  | 0, din, off, _ => return (din, off)
  | fuel + 1, din, off, p => do
    if p = [] then
      return (din, off)
    else if off / BSIZE < MAXFILE then
      let (din, x) ← blockAt din (off / BSIZE)
      let n1 := min p.length ((off / BSIZE + 1) * BSIZE - off)
      let buf ← rsect x.toNat
      wsect x.toNat (patch buf (off - off / BSIZE * BSIZE) (p.take n1))
      iappendLoop fuel din (off + n1) (p.drop n1)
    else
      fail "fbn < MAXFILE"

def iappend (inum : ℕ) (p : List UInt8) : Eff Mkfs Unit := do
  let din ← rinode inum
  let (din, off) ← iappendLoop p.length din din.size p
  winode inum { din with size := off }

/-! ### The program -/

/-- A file of the command line. -/
structure Input where
  /-- `argv[i]`, without the 0 at the end. -/
  arg : List UInt8
  /-- What the calls of `read` return. -/
  reads : List (List UInt8)

/-- `"user/"` -/
def user : List UInt8 := [117, 115, 101, 114, 47]

/-- `argv[i]` without `"user/"`. -/
def shortname (arg : List UInt8) : List UInt8 := if strncmp arg user 5 = 0 then arg.drop 5 else arg

/-- `'_'` -/
def underscore : UInt8 := 95

/-- The name in the file system. -/
def stripped (arg : List UInt8) : List UInt8 :=
  if (shortname arg).headD 0 = underscore then (shortname arg).tail else shortname arg

/-- The loop that reads a file to its end. -/
def copyIn (inum : ℕ) : List (List UInt8) → Eff Mkfs Unit
  | [] => return ()
  | buf :: reads => do
    if buf = [] then
      return ()
    else
      iappend inum buf
      copyIn inum reads

def addFile (rootino : ℕ) (f : Input) : Eff Mkfs Unit := do
  if slash ∈ shortname f.arg then
    fail "index(shortname, '/') == 0"
  else if (stripped f.arg).length ≤ DIRSIZ then
    let inum ← ialloc T_FILE
    iappend rootino (encode ⟨inum, stripped f.arg⟩)
    copyIn inum f.reads
  else
    fail "strlen(shortname) <= DIRSIZ"

def addFiles (rootino : ℕ) : List Input → Eff Mkfs Unit
  | [] => return ()
  | f :: files => do
    addFile rootino f
    addFiles rootino files

/-- Zero the first `n` blocks of the image. -/
def wipe : (n : ℕ) → Eff Mkfs Unit
  | 0 => return ()
  | i + 1 => do
    wipe i
    wsect i zero

/-- The image before there is an inode in it. -/
-- irreducible, so that no proof step runs the loop
@[irreducible] def format : Eff Mkfs Unit := do
  wipe FSSIZE
  wsect 1 sb.block

def main (files : List Input) : Eff Mkfs Unit := do
  format
  let rootino ← ialloc T_DIR
  if rootino = ROOTINO then
    iappend rootino (encode ⟨rootino, dot⟩)
    iappend rootino (encode ⟨rootino, dotdot⟩)
    addFiles rootino files
    let din ← rinode rootino
    winode rootino { din with size := (din.size / BSIZE + 1) * BSIZE }
    balloc (← look (·.freeblock))
  else
    fail "rootino == ROOTINO"

end Xv6.Fs.Mkfs
