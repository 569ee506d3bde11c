import Xv6.Bio.Cache
import Xv6.Conc.Prog
import Xv6.Log.Commit

/-!
File system operations that share one log: `begin_op`, `log_write`, `end_op` and the commit
by whichever operation ends last, as programs that any number of processes interleave.

A critical section of `log.lock` or `bcache.lock` is one action. What `commit` does to the
header it does without `log.lock`, one access at a time. A process that sleeps on `&log`
inside `begin_op` is marked asleep; it goes on once it is woken, by a `wakeup(&log)` or, when
the environment so chooses, by a kill.
-/

namespace Xv6.Log.Group

open Xv6.Conc Xv6.Conc.Prog Xv6.Disk Xv6.Bio.Cache Xv6.Param
open Xv6.Log.Commit (slot fillHead)

/-- The device of the file system. -/
def ROOTDEV : UInt32 := 1

/-- A `log_write`: the process, which of its operations it belonged to, how many transactions
had been committed before it, and the block. -/
structure Logged (T : Type) where
  who : T
  op : ℕ
  commit : ℕ
  block : BlockNo

structure St (T : Type) where
  outstanding : ℤ
  committing : Bool
  /-- `lh.block[0..n)`; its length is `lh.n`. -/
  lh : List BlockNo
  /-- The processes `SLEEPING` on `&log`. -/
  asleep : T → Bool
  cache : Bcache T
  disk : BlockNo → Block
  /-- History: the processes that `begin_op` has admitted and that have not reached `end_op`. -/
  inside : Finset T
  /-- History: the number of operations each process has begun. -/
  ops : T → ℕ
  /-- History: every `log_write`. -/
  written : List (Logged T)
  /-- History: `lh.block[0..n)` of every committed transaction. -/
  commits : List (List BlockNo)
  /-- History: who refers to which block, from `bget` to `brelse`. -/
  users : List (T × BlockNo)
  /-- History: the blocks pinned by `log_write` and not yet unpinned. -/
  pins : List BlockNo

inductive Act
  /-- `begin_op`'s test, under `log.lock`: is the operation admitted? -/
  | beginTest
  /-- Returning from the `sleep` in `begin_op`. -/
  | awake
  /-- `end_op` up to the first `release`: must this operation commit? -/
  | endFirst
  /-- `end_op` after `commit`. -/
  | endLast
  | logWrite (i : Fin NBUF)
  /-- Reading `log.lh.n`. -/
  | readN
  /-- Reading `log.lh.block[tail]`. -/
  | readBlock (tail : ℕ)
  /-- `log.lh.n = 0`, the end of a transaction. -/
  | clearN
  | bget (b : BlockNo)
  | acquiresleep (i : Fin NBUF)
  /-- `bread`'s read from the disk of a buffer that is not valid. -/
  | fill (i : Fin NBUF)
  | bwrite (i : Fin NBUF)
  /-- `brelse` up to the release of the sleeplock. -/
  | releasesleep (i : Fin NBUF)
  /-- `brelse` after it. -/
  | putRef (i : Fin NBUF)
  | bunpin (i : Fin NBUF)
  /-- `memmove(dst->data, src->data, BSIZE)`. -/
  | copy (dst src : Fin NBUF)
  /-- Filling the header block from `log.lh`. -/
  | setHead (i : Fin NBUF)
  /-- A file system operation's change to a buffer it holds. -/
  | store (i : Fin NBUF) (v : Block)

@[reducible] def Res : Act → Type
  | .beginTest | .endFirst => Bool
  | .readN => ℕ
  | .readBlock _ => BlockNo
  | .bget _ => Fin NBUF
  | _ => Unit

section Semantics

variable {T : Type} [DecidableEq T]

def setData (i : Fin NBUF) (v : Block) (s : St T) : St T :=
  { s with cache := setBuf i { s.cache.buf i with data := v } s.cache }

def setLock (i : Fin NBUF) (holder : Option T) (s : St T) : St T :=
  { s with cache := setBuf i { s.cache.buf i with lock := holder } s.cache }

/-- `virtio_disk_rw(b, 0)` and `b->valid = 1`. -/
def readDisk (i : Fin NBUF) (s : St T) : St T :=
  let b := s.cache.buf i
  { s with cache := setBuf i { b with data := s.disk b.blockno, valid := true } s.cache }

/-- `lh.block` with the block added, unless it is there already. -/
def absorb (lh : List BlockNo) (b : BlockNo) : List BlockNo := if b ∈ lh then lh else lh ++ [b]

/-- `log_write` once its checks are passed. -/
def record (t : T) (i : Fin NBUF) (s : St T) : St T :=
  let b := (s.cache.buf i).blockno
  { s with
    lh := absorb s.lh b
    cache := if b ∈ s.lh then s.cache else bpin i s.cache
    pins := if b ∈ s.lh then s.pins else b :: s.pins
    written := ⟨t, s.ops t, s.commits.length, b⟩ :: s.written }

/-- What process `t` makes of an action. The choice `kill` lets a kill wake it. -/
def sem (t : T) : (a : Act) → (kill : Bool) → St T → Option (Outcome (St T) (Res a))
  | .beginTest, _, s =>
    if s.committing then
      some (.ok { s with asleep := Function.update s.asleep t true } false)
    else if (s.lh.length : ℤ) + (s.outstanding + 1) * MAXOPBLOCKS > LOGBLOCKS then
      some (.ok { s with asleep := Function.update s.asleep t true } false)
    else
      some (.ok { s with
        outstanding := s.outstanding + 1
        inside := insert t s.inside
        ops := Function.update s.ops t (s.ops t + 1) } true)
  | .awake, kill, s =>
    if s.asleep t && !kill then none
    else some (.ok { s with asleep := Function.update s.asleep t false } ())
  | .endFirst, _, s =>
    if s.committing then some (.panic "log.committing")
    else if s.outstanding - 1 = 0 then
      some (.ok { s with
        outstanding := s.outstanding - 1
        inside := s.inside.erase t
        committing := true } true)
    else
      some (.ok { s with
        outstanding := s.outstanding - 1
        inside := s.inside.erase t
        asleep := fun _ => false } false)
  | .endLast, _, s => some (.ok { s with committing := false, asleep := fun _ => false } ())
  | .logWrite i, _, s =>
    if LOGBLOCKS ≤ s.lh.length then some (.panic "too big a transaction")
    else if s.outstanding < 1 then some (.panic "log_write outside of trans")
    else some (.ok (record t i s) ())
  | .readN, _, s => some (.ok s s.lh.length)
  | .readBlock tail, _, s => some (.ok s (s.lh.getD tail 0))
  | .clearN, _, s => some (.ok { s with lh := [], commits := s.commits ++ [s.lh] } ())
  | .bget b, _, s =>
    match Bio.Cache.bget ROOTDEV b s.cache with
    | some (i, c) => some (.ok { s with cache := c, users := (t, b) :: s.users } i)
    | none => some (.panic "bget: no buffers")
  | .acquiresleep i, _, s =>
    if (s.cache.buf i).lock = none then
      some (.ok (setLock i (some t) s) ())
    else none
  | .fill i, _, s =>
    if (s.cache.buf i).valid then some (.ok s ())
    else some (.ok (readDisk i s) ())
  | .bwrite i, _, s =>
    if (s.cache.buf i).lock = some t then
      some (.ok { s with
        disk := Function.update s.disk (s.cache.buf i).blockno (s.cache.buf i).data } ())
    else some (.panic "bwrite")
  | .releasesleep i, _, s =>
    if (s.cache.buf i).lock = some t then
      some (.ok (setLock i none s) ())
    else some (.panic "brelse")
  | .putRef i, _, s =>
    some (.ok { s with
      cache := Bio.Cache.putRef i s.cache
      users := s.users.erase (t, (s.cache.buf i).blockno) } ())
  | .bunpin i, _, s =>
    some (.ok { s with
      cache := Bio.Cache.bunpin i s.cache
      pins := s.pins.erase (s.cache.buf i).blockno } ())
  | .copy dst src, _, s => some (.ok (setData dst (s.cache.buf src).data s) ())
  | .setHead i, _, s => some (.ok (setData i (fillHead s.lh (s.cache.buf i).data) s) ())
  | .store i v, _, s => some (.ok (setData i v s) ())

end Semantics

/-! ### The programs -/

abbrev P := Prog Act Res

/-- Perform one action. -/
abbrev act (a : Act) : P (Res a) := perform a

def bread (b : BlockNo) : P (Fin NBUF) := do
  let i ← act (.bget b)
  act (.acquiresleep i)
  act (.fill i)
  return i

def brelse (i : Fin NBUF) : P Unit := do
  act (.releasesleep i)
  act (.putRef i)

def beginOp : P Unit :=
  iterate () fun _ => do
    let admitted ← act .beginTest
    if admitted then return .inr ()
    act .awake
    return .inl ()

variable (start : BlockNo)

def writeHead : P Unit := do
  let buf ← bread start
  act (.setHead buf)
  act (.bwrite buf)
  brelse buf

def writeLog : P Unit :=
  iterate 0 fun tail => do
    let n ← act .readN
    if tail < n then
      let toBuf ← bread (slot start tail)
      let b ← act (.readBlock tail)
      let fromBuf ← bread b
      act (.copy toBuf fromBuf)
      act (.bwrite toBuf)
      brelse fromBuf
      brelse toBuf
      return .inl (tail + 1)
    else return .inr ()

/-- `install_trans(0)`; recovery, before any operation runs, is in `Xv6.Log.Commit`. -/
def installTrans : P Unit :=
  iterate 0 fun tail => do
    let n ← act .readN
    if tail < n then
      let lbuf ← bread (slot start tail)
      let b ← act (.readBlock tail)
      let dbuf ← bread b
      act (.copy dbuf lbuf)
      act (.bwrite dbuf)
      act (.bunpin dbuf)
      brelse lbuf
      brelse dbuf
      return .inl (tail + 1)
    else return .inr ()

def commit : P Unit := do
  let n ← act .readN
  if 0 < n then
    writeLog start
    writeHead start
    installTrans start
    act .clearN
    writeHead start

def endOp : P Unit := do
  let doCommit ← act .endFirst
  if doCommit then
    commit start
    act .endLast

/-! ### Operations -/

/-- What an operation does to blocks between `begin_op` and `end_op`. -/
inductive Cmd
  | bread (b : BlockNo)
  | store (b : BlockNo) (v : Block)
  | logWrite (b : BlockNo)
  | brelse (b : BlockNo)

/-- Releasing the buffers still held when the operation is over. -/
def releaseAll : List (BlockNo × Fin NBUF) → P Unit
  | [] => return ()
  | (_, i) :: held => do
    brelse i
    releaseAll held

/-- The operation's commands, `held` being the buffers it has locked, by block. A command on
a block that is not held does nothing. -/
def runCmds : List Cmd → List (BlockNo × Fin NBUF) → P Unit
  | [], held => releaseAll held
  | .bread b :: cs, held => do
    let i ← Group.bread b
    runCmds cs ((b, i) :: held)
  | .store b v :: cs, held => match held.lookup b with
    | some i => do
      act (.store i v)
      runCmds cs held
    | none => runCmds cs held
  | .logWrite b :: cs, held => match held.lookup b with
    | some i => do
      act (.logWrite i)
      runCmds cs held
    | none => runCmds cs held
  | .brelse b :: cs, held => match held.lookup b with
    | some i => do
      Group.brelse i
      runCmds cs (held.eraseP fun h => h.1 == b)
    | none => runCmds cs held

def operation (cs : List Cmd) : P Unit := do
  beginOp
  runCmds cs []
  endOp start

/-- Processes `T` that run any operations, one after the other. -/
def sys (T : Type) [DecidableEq T] : Sys (St T) T Bool Act Res Unit where
  sem := sem
  enter _ s p s' p' := p = .ret () ∧ s' = s ∧ ∃ cs, p' = operation start cs

/-- The log after `initlog` on a clean disk, the cache empty and no operation running. -/
def init (T : Type) (disk : BlockNo → Block) : Pool (St T) T Act Res Unit where
  shared :=
    { outstanding := 0, committing := false, lh := [], asleep := fun _ => false
      cache := binit, disk, inside := ∅, ops := fun _ => 0, written := [], commits := []
      users := [], pins := [] }
  thread _ := .ret ()

/-- Each process about to begin an operation of its own. -/
def started {T : Type} (disk : BlockNo → Block) (ops : T → List Cmd) :
    Pool (St T) T Act Res Unit :=
  ⟨(init T disk).shared, fun t => operation start (ops t)⟩

lemma reach_started {T : Type} [DecidableEq T] [Fintype T] {S : Sys (St T) T Bool Act Res Unit}
    (hS : ∀ t s cs, S.enter t s (.ret ()) s (operation start cs)) (disk : BlockNo → Block)
    (ops : T → List Cmd) :
    Reach S (init T disk) (started start disk ops) := by
  have key : ∀ F : Finset T, Reach S (init T disk)
      ⟨(init T disk).shared, fun t => if t ∈ F then operation start (ops t) else .ret ()⟩ := by
    intro F
    induction F using Finset.induction_on with
    | empty => simp only [Finset.notMem_empty, if_false]; exact .refl
    | insert t F ht ih =>
      refine ih.tail ?_
      have hstep := Step.enter (S := S) (c := ⟨(init T disk).shared,
        fun t => if t ∈ F then operation start (ops t) else .ret ()⟩) t
        (by simpa only [if_neg ht] using hS t _ (ops t))
      convert hstep using 2
      ext u
      by_cases hu : u = t
      · simp [hu]
      · simp [hu]
  simpa [started] using key Finset.univ

end Xv6.Log.Group
