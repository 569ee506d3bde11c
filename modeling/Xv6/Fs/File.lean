import Xv6.Fs.Inode
import Xv6.Param

/-!
Open files and pipes (`file.c`, `pipe.c`), and the system calls on descriptors (`sysfile.c`).
-/

namespace Xv6.Fs.File

open Xv6.Conc Xv6.Conc.Prog Xv6.Disk Xv6.Param Xv6.Fs.Content Xv6.Fs.Kernel Xv6.Fs.Inode

variable {NPROC : ℕ}

def filealloc : P NPROC (Option (Fin NFILE)) := do
  act (.acquire .ftable)
  match ← act .unusedFile with
  | some f =>
    act (.incFile f)
    act (.release .ftable)
    return some f
  | none =>
    act (.release .ftable)
    return none

def filedup (f : Fin NFILE) : P NPROC (Fin NFILE) := do
  act (.acquire .ftable)
  let v ← act (.file f)
  if v.ref < 1 then
    kpanic "filedup"
  else
    act (.incFile f)
    act (.release .ftable)
    return f

/-- Waking up those who sleep on the pipe is left out. -/
def pipeclose (k : ℕ) (writable : Bool) : P NPROC Unit := do
  act (.acquire (.pipe k))
  act (.setOpen k writable)
  let pi ← act (.pipe k)
  if pi.readopen = false ∧ pi.writeopen = false then
    act (.release (.pipe k))
    act (.kfree k)
  else
    act (.release (.pipe k))

/-- What is done for a file that nobody refers to any more. -/
def closeLast (ff : File) : P NPROC Unit :=
  if ff.type = .pipe then
    pipeclose ff.pipe ff.writable
  else
    whenever (ff.type = .inode ∨ ff.type = .device) do
      act .beginOp
      iput ff.ip
      act .endOp

def fileclose (f : Fin NFILE) : P NPROC Unit := do
  act (.acquire .ftable)
  let v ← act (.file f)
  if v.ref < 1 then
    kpanic "fileclose"
  else
    let ref ← act (.decFile f)
    if ref > 0 then
      act (.release .ftable)
    else
      let ff ← act (.file f)
      act (.setType f .none)
      act (.release .ftable)
      closeLast ff

def filestat (f : Fin NFILE) : P NPROC ℤ := do
  let v ← act (.file f)
  if v.type = .inode ∨ v.type = .device then
    ilock v.ip
    let _ ← act (.inode v.ip)
    iunlock v.ip
    if ← act .fails then return -1 else return 0
  else
    return -1

/-- `f->off += r` -/
def advanceOff (f : Fin NFILE) (r : ℤ) : P NPROC Unit := do
  let v ← act (.file f)
  act (.setOff f ((v.off + r.toNat) % 2 ^ 32))

/-- An `int` as a `uint`. -/
def uint (n : ℤ) : ℕ := (n % 2 ^ 32).toNat

def fileread (f : Fin NFILE) (addr : ℕ) (n : ℤ) : P NPROC ℤ := do
  let v ← act (.file f)
  if v.readable = false then
    return -1
  else if v.type = .pipe then
    act .io
  else if v.type = .device then
    let dev ← act (.devsw v.major)
    if v.major < 0 ∨ NDEV ≤ v.major.toInt ∨ dev.1 = false then return -1 else act .io
  else if v.type = .inode then
    ilock v.ip
    let w ← act (.file f)
    let r ← act (.readi v.ip (some addr) w.off (uint n))
    whenever (r.1 > 0) (advanceOff f r.1)
    iunlock v.ip
    return r.1
  else
    kpanic "fileread"

/-- The largest number of bytes written in one transaction. -/
def maxWrite : ℕ := ((MAXOPBLOCKS - 1 - 1 - 2) / 2) * BSIZE

/-- One round of the loop of `filewrite`, in a transaction of its own. -/
def writeSome (f : Fin NFILE) (ip : Fin NINODE) (addr n1 : ℕ) : P NPROC ℤ := do
  act .beginOp
  ilock ip
  let w ← act (.file f)
  let r ← act (.writei ip (.user addr) w.off n1)
  whenever (r > 0) (advanceOff f r)
  iunlock ip
  act .endOp
  return r

def filewrite (f : Fin NFILE) (addr : ℕ) (n : ℤ) : P NPROC ℤ := do
  let v ← act (.file f)
  if v.writable = false then
    return -1
  else if v.type = .pipe then
    act .io
  else if v.type = .device then
    let dev ← act (.devsw v.major)
    if v.major < 0 ∨ NDEV ≤ v.major.toInt ∨ dev.2 = false then return -1 else act .io
  else if v.type = .inode then
    iterate (0 : ℕ) fun i => do
      if (i : ℤ) < n then
        let n1 := min (n.toNat - i) maxWrite
        let r ← writeSome f v.ip (addr + i) n1
        if r ≠ n1 then return .inr (-1) else return .inl (i + n1)
      else
        return .inr (if (i : ℤ) = n then n else -1)
  else
    kpanic "filewrite"

/-! ### Descriptors -/

def argfd (fd : ℤ) : P NPROC (Option (Fin NOFILE × Fin NFILE)) := do
  if h : 0 ≤ fd ∧ fd < NOFILE then
    let o ← act (.ofile ⟨fd.toNat, by omega⟩)
    return o.map fun f => (⟨fd.toNat, by omega⟩, f)
  else
    return none

/-- The first of the descriptors listed that is free is given to the file. -/
def fdallocIn (p : Fin NPROC) (f : Fin NFILE) : List (Fin NOFILE) → P NPROC (Option (Fin NOFILE))
  | [] => return none
  | fd :: fds => do
    match ← act (.ofile fd) with
    | none =>
      act (.setOfile p fd (some f))
      return some fd
    | some _ => fdallocIn p f fds

def fdalloc (f : Fin NFILE) : P NPROC (Option (Fin NOFILE)) := do
  let p ← act .myproc
  fdallocIn p f (List.finRange NOFILE)

def sysDup (fd : ℤ) : P NPROC ℤ := do
  match ← argfd fd with
  | none => return -1
  | some (_, f) =>
    match ← fdalloc f with
    | none => return -1
    | some fd =>
      let _ ← filedup f
      return fd.val

def sysRead (fd : ℤ) (addr : ℕ) (n : ℤ) : P NPROC ℤ := do
  match ← argfd fd with
  | none => return -1
  | some (_, f) => fileread f addr n

def sysWrite (fd : ℤ) (addr : ℕ) (n : ℤ) : P NPROC ℤ := do
  match ← argfd fd with
  | none => return -1
  | some (_, f) => filewrite f addr n

def sysClose (fd : ℤ) : P NPROC ℤ := do
  match ← argfd fd with
  | none => return -1
  | some (fd, f) =>
    let p ← act .myproc
    act (.setOfile p fd none)
    fileclose f
    return 0

def sysFstat (fd : ℤ) : P NPROC ℤ := do
  match ← argfd fd with
  | none => return -1
  | some (_, f) => filestat f

/-! ### Pipes -/

/-- What becomes of the files that `pipealloc` has when it fails. -/
def closeSome : Option (Fin NFILE) → P NPROC Unit
  | some f => fileclose f
  | none => return ()

/-- The two files, each of which may be missing, and the pipe for them. -/
def pipeFill (f0 f1 : Fin NFILE) (k : ℕ) : P NPROC Unit := do
  act (.initPipe k)
  let v ← act (.file f0)
  act (.fill f0 { v with type := .pipe, readable := true, writable := false, pipe := k })
  let v ← act (.file f1)
  act (.fill f1 { v with type := .pipe, readable := false, writable := true, pipe := k })

def pipealloc : P NPROC (Option (Fin NFILE × Fin NFILE)) := do
  match ← filealloc with
  | none => return none
  | some f0 =>
    match ← filealloc with
    | none =>
      fileclose f0
      return none
    | some f1 =>
      match ← act .kalloc with
      | none =>
        fileclose f0
        fileclose f1
        return none
      | some k =>
        pipeFill f0 f1 k
        return some (f0, f1)

/-- Undoing the work of `sys_pipe` on the files and the descriptors they have got. -/
def unpipe (p : Fin NPROC) (fds : List (Fin NOFILE)) (rf wf : Fin NFILE) : P NPROC ℤ := do
  match fds with
  | [] =>
    fileclose rf
    fileclose wf
    return -1
  | fd :: fds =>
    act (.setOfile p fd none)
    unpipe p fds rf wf

def sysPipe : P NPROC ℤ := do
  let p ← act .myproc
  match ← pipealloc with
  | none => return -1
  | some (rf, wf) =>
    match ← fdalloc rf with
    | none => unpipe p [] rf wf
    | some fd0 =>
      match ← fdalloc wf with
      | none => unpipe p [fd0] rf wf
      | some fd1 =>
        -- one of the two `copyout`s
        if ← act .fails then unpipe p [fd0, fd1] rf wf else return 0

end Xv6.Fs.File
