import Xv6.Fs.Content
import Xv6.Fs.Path

/-!
The inode table, the file table and the descriptors of the processes, and the actions of the
kernel on them.

An access under a spinlock or a sleeplock is an action of its own. What `readi`, `writei`,
`itrunc` and `iupdate` do is one action: their caller has the inode locked, and each access to
a block they share with others is made under the lock of its buffer.
-/

namespace Xv6.Fs.Kernel

open Xv6.Conc Xv6.Conc.Prog Xv6.Data.Effect Xv6.Disk Xv6.Fs.Content Xv6.Fs.Path

def NINODE : ℕ := 50
def NFILE : ℕ := 100
def NOFILE : ℕ := 16
def NDEV : ℕ := 10
def ROOTDEV : ℕ := 1
def ROOTINO : ℕ := 1

instance : NeZero NINODE := ⟨by decide⟩

/-- An entry of `itable.inode`, with the process that holds its sleeplock. -/
structure Inode (NPROC : ℕ) where
  dev : ℕ
  inum : ℕ
  ref : ℤ
  lock : Option (Fin NPROC)
  valid : Bool
  /-- The copy of the inode on disk. -/
  copy : Dinode

inductive FileType | none | pipe | inode | device
  deriving DecidableEq

/-- `struct file`; a pipe is named by its page. -/
structure File where
  type : FileType
  ref : ℤ
  readable : Bool
  writable : Bool
  pipe : ℕ
  ip : Fin NINODE
  off : ℕ
  major : Int16

/-- `struct pipe`, as far as opening and closing go. -/
structure Pipe where
  readopen : Bool
  writeopen : Bool

inductive ProcState | unused | used | runnable | running | zombie
  deriving DecidableEq

structure Proc where
  state : ProcState
  ofile : Fin NOFILE → Option (Fin NFILE)
  cwd : Option (Fin NINODE)

inductive Lock
  | itable
  | ftable
  | pipe (page : ℕ)
  deriving DecidableEq

structure State (NPROC : ℕ) where
  store : Store
  inode : Fin NINODE → Inode NPROC
  file : Fin NFILE → File
  /-- The pages that are pipes. -/
  pipe : ℕ → Option Pipe
  proc : Fin NPROC → Proc
  lock : Lock → Option (Fin NPROC)
  /-- Which devices can be read and written. -/
  devsw : Int16 → Bool × Bool

/-- What the environment decides at an action. -/
structure Choice where
  /-- The log has no room yet, or the memory no page. -/
  fails : Bool
  /-- The page that `kalloc` takes. -/
  page : ℕ
  /-- The memory of the process that can be read. -/
  mem : ℕ → Option UInt8
  writable : ℕ → Bool
  /-- What a device or a pipe returns. -/
  result : ℤ

/-- Where the bytes that `writei` writes come from. -/
inductive Src
  | kernel (bs : List UInt8)
  | user (addr : ℕ)

def Src.bytes (c : Choice) : Src → ℕ → Option UInt8
  | .kernel bs, i => bs[i]?
  | .user addr, i => c.mem (addr + i)

/-- The fields of `struct inode` that the kernel assigns to one by one. -/
inductive Field
  | valid (v : Bool)
  | type (v : Int16)
  | major (v : Int16)
  | minor (v : Int16)
  | nlink (v : Int16)

inductive Act (NPROC : ℕ)
  | acquire (l : Lock)
  | release (l : Lock)
  | beginOp
  | endOp
  /-- Something fails that does not concern files. -/
  | fails
  | panic (msg : String)
  /-- The loop of `iget`: the entry of an inode, and the first that is free. -/
  | scan (dev inum : ℕ)
  /-- Recycling an entry. -/
  | claim (i : Fin NINODE) (dev inum : ℕ)
  | incRef (i : Fin NINODE)
  | decRef (i : Fin NINODE)
  /-- Reading the fields of an entry. -/
  | inode (i : Fin NINODE)
  | set (i : Fin NINODE) (f : Field)
  | acquiresleep (i : Fin NINODE)
  | releasesleep (i : Fin NINODE)
  | holdingsleep (i : Fin NINODE)
  /-- Copying the inode from the disk. -/
  | load (i : Fin NINODE)
  | iupdate (i : Fin NINODE)
  | itrunc (i : Fin NINODE)
  /-- `dst` is a user address, or none for a variable of the kernel. -/
  | readi (i : Fin NINODE) (dst : Option ℕ) (off n : ℕ)
  | writei (i : Fin NINODE) (src : Src) (off n : ℕ)
  /-- A round of the loop of `ialloc`: allocates the inode if it is free. -/
  | ialloc (inum : ℕ) (type : Int16)
  | ninodes
  /-- Reading an inode on the disk. -/
  | dinode (inum : ℕ)
  /-- The loop of `filealloc`. -/
  | unusedFile
  | incFile (f : Fin NFILE)
  /-- `--f->ref` -/
  | decFile (f : Fin NFILE)
  /-- Reading the fields of a `struct file`. -/
  | file (f : Fin NFILE)
  | setType (f : Fin NFILE) (t : FileType)
  | setOff (f : Fin NFILE) (off : ℕ)
  /-- Filling in all fields but `ref`. -/
  | fill (f : Fin NFILE) (v : File)
  | ofile (fd : Fin NOFILE)
  | setOfile (q : Fin NPROC) (fd : Fin NOFILE) (o : Option (Fin NFILE))
  | cwd
  | setCwd (q : Fin NPROC) (o : Option (Fin NINODE))
  | myproc
  | allocproc
  | setState (q : Fin NPROC) (st : ProcState)
  | kalloc
  | initPipe (k : ℕ)
  | setOpen (k : ℕ) (writable : Bool)
  | pipe (k : ℕ)
  | kfree (k : ℕ)
  /-- `devsw[major]` -/
  | devsw (major : Int16)
  /-- Reading or writing a device or a pipe. -/
  | io

@[reducible] def Res {NPROC : ℕ} : Act NPROC → Type
  | .fails | .holdingsleep _ | .ialloc _ _ => Bool
  | .panic _ => Empty
  | .scan _ _ => Option (Fin NINODE) × Option (Fin NINODE)
  | .inode _ => Inode NPROC
  | .readi _ _ _ _ => ℤ × List UInt8
  | .writei _ _ _ _ | .decFile _ | .io => ℤ
  | .ninodes => ℕ
  | .dinode _ => Dinode
  | .unusedFile | .ofile _ => Option (Fin NFILE)
  | .file _ => File
  | .cwd => Option (Fin NINODE)
  | .myproc => Fin NPROC
  | .allocproc => Option (Fin NPROC)
  | .kalloc => Option ℕ
  | .pipe _ => Pipe
  | .devsw _ => Bool × Bool
  | _ => Unit

/-! ### Changes of the state -/

section State

variable {NPROC : ℕ}

def setInode (i : Fin NINODE) (v : Inode NPROC) (s : State NPROC) : State NPROC :=
  { s with inode := Function.update s.inode i v }

def setFile (f : Fin NFILE) (v : File) (s : State NPROC) : State NPROC :=
  { s with file := Function.update s.file f v }

def setPipe (k : ℕ) (v : Option Pipe) (s : State NPROC) : State NPROC :=
  { s with pipe := Function.update s.pipe k v }

def setProc (q : Fin NPROC) (v : Proc) (s : State NPROC) : State NPROC :=
  { s with proc := Function.update s.proc q v }

def setLock (l : Lock) (o : Option (Fin NPROC)) (s : State NPROC) : State NPROC :=
  { s with lock := Function.update s.lock l o }

def Field.write : Field → Inode NPROC → Inode NPROC
  | .valid v, ip => { ip with valid := v }
  | .type v, ip => { ip with copy := { ip.copy with type := v } }
  | .major v, ip => { ip with copy := { ip.copy with major := v } }
  | .minor v, ip => { ip with copy := { ip.copy with minor := v } }
  | .nlink v, ip => { ip with copy := { ip.copy with nlink := v } }

def findInode (s : State NPROC) (dev inum : ℕ) : Option (Fin NINODE) :=
  (List.finRange NINODE).find? fun i =>
    0 < (s.inode i).ref ∧ (s.inode i).dev = dev ∧ (s.inode i).inum = inum

def freeInode (s : State NPROC) : Option (Fin NINODE) :=
  (List.finRange NINODE).find? fun i => (s.inode i).ref = 0

def freeFile (s : State NPROC) : Option (Fin NFILE) :=
  (List.finRange NFILE).find? fun f => (s.file f).ref = 0

def freeProc (s : State NPROC) : Option (Fin NPROC) :=
  (List.finRange NPROC).find? fun q => (s.proc q).state = .unused

/-- Runs `x` on the disk, and puts the inode that it returns into entry `i`. -/
def onInode {α : Type} (i : Fin NINODE) (x : Eff Store (Dinode × α)) (s : State NPROC) :
    Outcome (State NPROC) α :=
  match x s.store with
  | .ok st (d, a) => .ok (setInode i { s.inode i with copy := d } { s with store := st }) a
  | .panic msg => .panic msg

/-- Runs `x` on the disk. -/
def onStore {α : Type} (x : Eff Store α) (s : State NPROC) : Outcome (State NPROC) α :=
  match x s.store with
  | .ok st a => .ok { s with store := st } a
  | .panic msg => .panic msg

/-- The inode is taken if it is free. -/
def tryAlloc (inum : ℕ) (type : Int16) : Eff Store Bool := do
  if (← Eff.look (·.dinode inum)).type = 0 then
    Eff.change (Store.setDinode inum { Dinode.free with type := type })
    logWrite
    return true
  else
    return false

def truncate (inum : ℕ) (d : Dinode) : Eff Store (Dinode × Unit) := do
  let d ← itrunc inum d
  return (d, ())

def read (d : Dinode) (ok : ℕ → Bool) (off n : ℕ) : Eff Store (Dinode × (ℤ × List UInt8)) := do
  let (d, r, bs) ← readi d ok off n
  return (d, (r, bs))

/-- What process `p` makes of an action. A pipe that has been freed is not to be used. -/
def sem (p : Fin NPROC) : (a : Act NPROC) → Choice → State NPROC →
    Option (Outcome (State NPROC) (Res a))
  | .acquire l, _, s =>
    if s.lock l = some p then some (.panic "acquire")
    else if s.lock l ≠ none then none
    else some (.ok (setLock l (some p) s) ())
  | .release l, _, s =>
    if s.lock l ≠ some p then some (.panic "release") else some (.ok (setLock l none s) ())
  | .beginOp, c, s =>
    if c.fails then none
    else some (.ok { s with store := { s.store with outstanding := s.store.outstanding + 1 } } ())
  | .endOp, _, s =>
    some (.ok { s with store := { s.store with outstanding := s.store.outstanding - 1 } } ())
  | .fails, c, s => some (.ok s c.fails)
  | .panic msg, _, _ => some (.panic msg)
  | .scan dev inum, _, s => some (.ok s (findInode s dev inum, freeInode s))
  | .claim i dev inum, _, s =>
    some (.ok (setInode i { s.inode i with dev := dev, inum := inum, ref := 1, valid := false } s) ())
  | .incRef i, _, s => some (.ok (setInode i { s.inode i with ref := (s.inode i).ref + 1 } s) ())
  | .decRef i, _, s => some (.ok (setInode i { s.inode i with ref := (s.inode i).ref - 1 } s) ())
  | .inode i, _, s => some (.ok s (s.inode i))
  | .set i f, _, s => some (.ok (setInode i (f.write (s.inode i)) s) ())
  | .acquiresleep i, _, s =>
    if (s.inode i).lock ≠ none then none
    else some (.ok (setInode i { s.inode i with lock := some p } s) ())
  | .releasesleep i, _, s => some (.ok (setInode i { s.inode i with lock := none } s) ())
  | .holdingsleep i, _, s => some (.ok s ((s.inode i).lock = some p))
  | .load i, _, s =>
    some (.ok (setInode i { s.inode i with copy := s.store.dinode (s.inode i).inum } s) ())
  | .iupdate i, _, s => some (onStore (iupdate (s.inode i).inum (s.inode i).copy) s)
  | .itrunc i, _, s => some (onInode i (truncate (s.inode i).inum (s.inode i).copy) s)
  | .readi i dst off n, c, s =>
    let ok := match dst with
      | some a => fun k => c.writable (a + k)
      | none => fun _ => true
    some (onInode i (read (s.inode i).copy ok off n) s)
  | .writei i src off n, c, s =>
    some (onInode i (writei (s.inode i).inum (s.inode i).copy (src.bytes c) off n) s)
  | .ialloc inum type, _, s => some (onStore (tryAlloc inum type) s)
  | .ninodes, _, s => some (.ok s s.store.ninodes)
  | .dinode inum, _, s => some (.ok s (s.store.dinode inum))
  | .unusedFile, _, s => some (.ok s (freeFile s))
  | .incFile f, _, s => some (.ok (setFile f { s.file f with ref := (s.file f).ref + 1 } s) ())
  | .decFile f, _, s =>
    some (.ok (setFile f { s.file f with ref := (s.file f).ref - 1 } s) ((s.file f).ref - 1))
  | .file f, _, s => some (.ok s (s.file f))
  | .setType f t, _, s => some (.ok (setFile f { s.file f with type := t } s) ())
  | .setOff f off, _, s => some (.ok (setFile f { s.file f with off := off } s) ())
  | .fill f v, _, s => some (.ok (setFile f { v with ref := (s.file f).ref } s) ())
  | .ofile fd, _, s => some (.ok s ((s.proc p).ofile fd))
  | .setOfile q fd o, _, s =>
    some (.ok (setProc q { s.proc q with ofile := Function.update (s.proc q).ofile fd o } s) ())
  | .cwd, _, s => some (.ok s (s.proc p).cwd)
  | .setCwd q o, _, s => some (.ok (setProc q { s.proc q with cwd := o } s) ())
  | .myproc, _, s => some (.ok s p)
  | .allocproc, c, s =>
    match freeProc s with
    | some q =>
      if c.fails then some (.ok s none)
      else some (.ok (setProc q { s.proc q with state := .used } s) (some q))
    | none => some (.ok s none)
  | .setState q st, _, s => some (.ok (setProc q { s.proc q with state := st } s) ())
  | .kalloc, c, s =>
    if c.fails ∨ (s.pipe c.page).isSome then some (.ok s none)
    else some (.ok (setPipe c.page (some ⟨false, false⟩) s) (some c.page))
  | .initPipe k, _, s => some (.ok (setPipe k (some ⟨true, true⟩) s) ())
  | .setOpen k writable, _, s =>
    match s.pipe k with
    | some pi => some (.ok (setPipe k (some
        (if writable then { pi with writeopen := false } else { pi with readopen := false })) s) ())
    | none => some (.panic "pipe freed")
  | .pipe k, _, s =>
    match s.pipe k with
    | some pi => some (.ok s pi)
    | none => some (.panic "pipe freed")
  | .kfree k, _, s =>
    if (s.pipe k).isSome then some (.ok (setPipe k none s) ()) else some (.panic "pipe freed")
  | .devsw major, _, s => some (.ok s (s.devsw major))
  | .io, c, s => some (.ok s c.result)

end State

end Xv6.Fs.Kernel
