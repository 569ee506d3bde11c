import Xv6.Disk.Writes
import Xv6.Disk.Block
import Xv6.Param

/-!
Committing a transaction to the log and recovering from it, as sequences of block writes.

A machine holds the disk, the buffer cache and the in-memory header. The buffer cache is what
`bread` returns for each block; a machine that boots finds it equal to the disk. Every block
write is recorded, so that the machine can be stopped between any two of them.
-/

namespace Xv6.Log.Commit

open Xv6.Disk Xv6.Disk.Writes Xv6.Param

structure Mach where
  disk : BlockNo → Block
  /-- The contents of the buffer `bread` returns for a block. -/
  buf : BlockNo → Block
  /-- `log.lh.block[0..n)`; its length is `log.lh.n`. -/
  lh : List BlockNo
  /-- The block writes made so far, oldest first. -/
  issued : List (BlockNo × Block)

def boot (d : BlockNo → Block) : Mach := ⟨d, d, [], []⟩

def setBuf (b : BlockNo) (v : Block) (m : Mach) : Mach :=
  { m with buf := Function.update m.buf b v }

def bwrite (b : BlockNo) (m : Mach) : Mach :=
  { m with
    disk := Function.update m.disk b (m.buf b)
    issued := m.issued ++ [(b, m.buf b)] }

/-- The block of the log that holds the `tail`-th block of a transaction. -/
def slot (start : BlockNo) (tail : ℕ) : BlockNo := start + UInt32.ofNat (tail + 1)

/-- `lh->n`, an `int`, as the number of rounds of a loop bounded by it. -/
def headCount (hb : Block) : ℕ := (word hb 0).toBitVec.toInt.toNat

def headBlocks (hb : Block) : List BlockNo :=
  (List.range (headCount hb)).map fun i => word hb (i + 1)

def fillBlocks : ℕ → List BlockNo → Block → Block
  | _, [], hb => hb
  | i, b :: bs, hb => fillBlocks (i + 1) bs (setWord hb (i + 1) b)

/-- The header block once `hb->n` and `hb->block[0..n)` are set, the rest left as it was. -/
def fillHead (lh : List BlockNo) (hb : Block) : Block :=
  fillBlocks 0 lh (setWord hb 0 (UInt32.ofNat lh.length))

variable (start : BlockNo)

def readHead (m : Mach) : Mach := { m with lh := headBlocks (m.buf start) }

def writeHead (m : Mach) : Mach :=
  bwrite start (setBuf start (fillHead m.lh (m.buf start)) m)

def writeLogFrom : ℕ → List BlockNo → Mach → Mach
  | _, [], m => m
  | tail, b :: bs, m =>
    writeLogFrom (tail + 1) bs
      (bwrite (slot start tail) (setBuf (slot start tail) (m.buf b) m))

def writeLog (m : Mach) : Mach := writeLogFrom start 0 m.lh m

def installFrom : ℕ → List BlockNo → Mach → Mach
  | _, [], m => m
  | tail, b :: bs, m =>
    installFrom (tail + 1) bs (bwrite b (setBuf b (m.buf (slot start tail)) m))

def installTrans (m : Mach) : Mach := installFrom start 0 m.lh m

def commit (m : Mach) : Mach :=
  if 0 < m.lh.length then
    writeHead start { installTrans start (writeHead start (writeLog start m)) with lh := [] }
  else m

def recoverFromLog (m : Mach) : Mach :=
  writeHead start { installTrans start (readHead start m) with lh := [] }

/-! ### Stopping the machine -/

/-- The disk left by a boot on `d` whose recovery stops after `k` block writes. -/
def recoverCut (d : BlockNo → Block) (k : ℕ) : BlockNo → Block :=
  cut k d (recoverFromLog start (boot d)).issued

/-- A machine about to commit the transaction `tx`: the modified blocks are in the buffer
cache, every other buffer holds what is on the disk. -/
def ready (d : BlockNo → Block) (tx : List (BlockNo × Block)) : Mach :=
  ⟨d, apply d tx, tx.map Prod.fst, []⟩

/-- The disk left by a commit of `tx` that stops after `k` block writes. -/
def commitCut (d : BlockNo → Block) (tx : List (BlockNo × Block)) (k : ℕ) : BlockNo → Block :=
  cut k d (commit start (ready d tx)).issued

/-- The disk after a commit cut at `k` and after recoveries cut at each of `ks` in turn. -/
def crashed (d : BlockNo → Block) (tx : List (BlockNo × Block)) (k : ℕ) (ks : List ℕ) :
    BlockNo → Block :=
  ks.foldl (recoverCut start) (commitCut start d tx k)

/-- The disk after a recovery that runs to its end. -/
def recovered (d : BlockNo → Block) : BlockNo → Block :=
  (recoverFromLog start (boot d)).disk

/-- The header block and the `LOGBLOCKS` blocks after it. -/
def InLog (b : BlockNo) : Prop := b = start ∨ ∃ i < LOGBLOCKS, b = slot start i

instance : DecidablePred (InLog start) := fun b =>
  inferInstanceAs (Decidable (b = start ∨ ∃ i < LOGBLOCKS, b = slot start i))

end Xv6.Log.Commit
