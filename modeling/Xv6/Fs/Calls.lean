import Xv6.Fs.File

/-!
The system calls on path names (`sysfile.c`), `kexec`, and what `kfork` and `kexit` do to open
files and the current directory; the system of processes that make these calls.
-/

namespace Xv6.Fs.Calls

open Xv6.Conc Xv6.Conc.Prog Xv6.Fs.Content Xv6.Fs.Path Xv6.Fs.Kernel Xv6.Fs.Inode Xv6.Fs.File

variable {NPROC : ℕ}

def O_RDONLY : UInt32 := 0
def O_WRONLY : UInt32 := 1
def O_RDWR : UInt32 := 2
def O_CREATE : UInt32 := 0x200
def O_TRUNC : UInt32 := 0x400

/-- `return -1` after leaving the operation. -/
def failOp : P NPROC ℤ := do
  act .endOp
  return -1

/-- The label `bad` of `sys_link`. -/
def unlinkOld (ip : Fin NINODE) : P NPROC ℤ := do
  ilock ip
  let v ← act (.inode ip)
  act (.set ip (.nlink (v.copy.nlink - 1)))
  act (.iupdate ip)
  iunlockput ip
  failOp

def sysLink (old new : Option Path) : P NPROC ℤ := do
  match old, new with
  | some old, some new =>
    act .beginOp
    match ← namei old with
    | none => failOp
    | some ip =>
      ilock ip
      let v ← act (.inode ip)
      if v.copy.type = T_DIR then
        iunlockput ip
        failOp
      else
        act (.set ip (.nlink (v.copy.nlink + 1)))
        act (.iupdate ip)
        iunlock ip
        match ← nameiparent new with
        | none => unlinkOld ip
        | some (dp, name) =>
          ilock dp
          let d ← act (.inode dp)
          let v ← act (.inode ip)
          if d.dev ≠ v.dev then
            iunlockput dp
            unlinkOld ip
          else if ← dirlink dp name v.inum then
            iunlockput dp
            iput ip
            act .endOp
            return 0
          else
            iunlockput dp
            unlinkOld ip
  | _, _ => return -1

def isdirempty (dp : Fin NINODE) : P NPROC Bool :=
  iterate (2 * DIRENT) fun off => do
    let d ← act (.inode dp)
    if off < d.copy.size then
      let r ← act (.readi dp none off DIRENT)
      if r.1 ≠ DIRENT then
        kpanic "isdirempty: readi"
      else if (decode r.2).inum ≠ 0 then
        return .inr false
      else
        return .inl (off + DIRENT)
    else
      return .inr true

/-- The label `bad` of `sys_unlink`. -/
def unlinkBad (dp : Fin NINODE) : P NPROC ℤ := do
  iunlockput dp
  failOp

/-- `sys_unlink` once the entry at `off` is to be removed. -/
def removeEntry (dp ip : Fin NINODE) (off : ℕ) : P NPROC ℤ := do
  let r ← act (.writei dp (.kernel (List.replicate DIRENT 0)) off DIRENT)
  if r ≠ DIRENT then
    kpanic "unlink: writei"
  else
    let v ← act (.inode ip)
    whenever (v.copy.type = T_DIR) do
      let d ← act (.inode dp)
      act (.set dp (.nlink (d.copy.nlink - 1)))
      act (.iupdate dp)
    iunlockput dp
    let v ← act (.inode ip)
    act (.set ip (.nlink (v.copy.nlink - 1)))
    act (.iupdate ip)
    iunlockput ip
    act .endOp
    return 0

def sysUnlink (path : Option Path) : P NPROC ℤ := do
  match path with
  | none => return -1
  | some path =>
    act .beginOp
    match ← nameiparent path with
    | none => failOp
    | some (dp, name) =>
      ilock dp
      if name = dot ∨ name = dotdot then
        unlinkBad dp
      else
        match ← dirlookup dp name with
        | none => unlinkBad dp
        | some (ip, off) =>
          ilock ip
          let v ← act (.inode ip)
          if v.copy.nlink < 1 then
            kpanic "unlink: nlink < 1"
          else
            let busy ← (if v.copy.type = T_DIR then do return !(← isdirempty ip) else return false)
            if busy then
              iunlockput ip
              unlinkBad dp
            else
              removeEntry dp ip off

/-- The label `fail` of `create`. -/
def uncreate (dp ip : Fin NINODE) : P NPROC (Option (Fin NINODE)) := do
  act (.set ip (.nlink 0))
  act (.iupdate ip)
  iunlockput ip
  iunlockput dp
  return none

/-- The entries of a new directory. -/
def dotEntries (dp ip : Fin NINODE) : P NPROC Bool := do
  let v ← act (.inode ip)
  if ← dirlink ip dot v.inum then
    let d ← act (.inode dp)
    dirlink ip dotdot d.inum
  else
    return false

/-- `create` for a name that is new, with the directory locked. -/
def createNew (dp : Fin NINODE) (name : Name) (type major minor : Int16) :
    P NPROC (Option (Fin NINODE)) := do
  let d ← act (.inode dp)
  match ← ialloc d.dev type with
  | none =>
    iunlockput dp
    return none
  | some ip =>
    ilock ip
    act (.set ip (.major major))
    act (.set ip (.minor minor))
    act (.set ip (.nlink 1))
    act (.iupdate ip)
    let ready ← (if type = T_DIR then dotEntries dp ip else return true)
    if ready then
      let v ← act (.inode ip)
      if ← dirlink dp name v.inum then
        whenever (type = T_DIR) do
          let d ← act (.inode dp)
          act (.set dp (.nlink (d.copy.nlink + 1)))
          act (.iupdate dp)
        iunlockput dp
        return some ip
      else
        uncreate dp ip
    else
      uncreate dp ip

/-- The inode is returned locked. -/
def create (path : Path) (type major minor : Int16) : P NPROC (Option (Fin NINODE)) := do
  match ← nameiparent path with
  | none => return none
  | some (dp, name) =>
    ilock dp
    match ← dirlookup dp name with
    | some (ip, _) =>
      iunlockput dp
      ilock ip
      let v ← act (.inode ip)
      if type = T_FILE ∧ (v.copy.type = T_FILE ∨ v.copy.type = T_DEVICE) then
        return some ip
      else
        iunlockput ip
        return none
    | none => createNew dp name type major minor

/-- `iunlockput`, `end_op` and `return -1`. -/
def dropOp (ip : Fin NINODE) : P NPROC ℤ := do
  iunlockput ip
  failOp

/-- The inode that `sys_open` opens, locked. -/
def openInode (path : Path) (omode : UInt32) : P NPROC (Option (Fin NINODE)) := do
  if omode &&& O_CREATE ≠ 0 then
    create path T_FILE 0 0
  else
    match ← namei path with
    | none => return none
    | some ip =>
      ilock ip
      let v ← act (.inode ip)
      if v.copy.type = T_DIR ∧ omode ≠ O_RDONLY then
        iunlockput ip
        return none
      else
        return some ip

/-- `sys_open` with a file and a descriptor for it. -/
def openFile (ip : Fin NINODE) (f : Fin NFILE) (fd : Fin NOFILE) (omode : UInt32) : P NPROC ℤ := do
  let v ← act (.inode ip)
  let w ← act (.file f)
  let w := if v.copy.type = T_DEVICE then { w with type := .device, major := v.copy.major }
    else { w with type := .inode, off := 0 }
  act (.fill f { w with
    ip := ip
    readable := omode &&& O_WRONLY = 0
    writable := omode &&& O_WRONLY ≠ 0 ∨ omode &&& O_RDWR ≠ 0 })
  whenever (omode &&& O_TRUNC ≠ 0 ∧ v.copy.type = T_FILE) (act (.itrunc ip))
  iunlock ip
  act .endOp
  return fd.val

def sysOpen (path : Option Path) (omode : UInt32) : P NPROC ℤ := do
  match path with
  | none => return -1
  | some path =>
    act .beginOp
    match ← openInode path omode with
    | none => failOp
    | some ip =>
      let v ← act (.inode ip)
      if v.copy.type = T_DEVICE ∧ (v.copy.major < 0 ∨ NDEV ≤ v.copy.major.toInt) then
        dropOp ip
      else
        match ← filealloc with
        | none => dropOp ip
        | some f =>
          match ← fdalloc f with
          | none =>
            fileclose f
            dropOp ip
          | some fd => openFile ip f fd omode

/-- `sys_mkdir` and `sys_mknod`. -/
def sysCreate (path : Option Path) (type major minor : Int16) : P NPROC ℤ := do
  act .beginOp
  match path with
  | none => failOp
  | some path =>
    match ← create path type major minor with
    | none => failOp
    | some ip =>
      iunlockput ip
      act .endOp
      return 0

def sysMkdir (path : Option Path) : P NPROC ℤ := sysCreate path T_DIR 0 0

def sysMknod (path : Option Path) (major minor : Int16) : P NPROC ℤ :=
  sysCreate path T_DEVICE major minor

/-- `iput(p->cwd)` -/
def putCwd : P NPROC Unit := do
  match ← act .cwd with
  | some ip => iput ip
  | none => kpanic "iput"

def sysChdir (path : Option Path) : P NPROC ℤ := do
  act .beginOp
  match path with
  | none => failOp
  | some path =>
    match ← namei path with
    | none => failOp
    | some ip =>
      ilock ip
      let v ← act (.inode ip)
      if v.copy.type ≠ T_DIR then
        dropOp ip
      else
        iunlock ip
        putCwd
        act .endOp
        let p ← act .myproc
        act (.setCwd p (some ip))
        return 0

/-! ### Programs -/

def ELF_MAGIC : ℕ := 0x464C457F
def ELF_PROG_LOAD : ℕ := 1
def PGSIZE : ℕ := 4096
/-- `sizeof(struct elfhdr)` -/
def ELFHDR : ℕ := 64
/-- `sizeof(struct proghdr)` -/
def PROGHDR : ℕ := 56

/-- The pages have been mapped by `uvmalloc`. -/
def loadseg (ip : Fin NINODE) (offset sz : ℕ) : P NPROC Bool :=
  iterate (0 : ℕ) fun i => do
    if i < sz then
      let n := min (sz - i) PGSIZE
      let r ← act (.readi ip none ((offset + i) % 2 ^ 32) n)
      if r.1 ≠ n then return .inr false else return .inl (i + PGSIZE)
    else
      return .inr true

/-- One program header; the memory for it may be missing. -/
def loadHeader (ip : Fin NINODE) (off : ℕ) : P NPROC Bool := do
  let r ← act (.readi ip none (off % 2 ^ 32) PROGHDR)
  if r.1 ≠ PROGHDR then
    return false
  else if number r.2 0 4 ≠ ELF_PROG_LOAD then
    return true
  else
    let vaddr := number r.2 16 8
    let filesz := number r.2 32 8
    let memsz := number r.2 40 8
    if memsz < filesz ∨ (vaddr + memsz) % 2 ^ 64 < vaddr ∨ vaddr % PGSIZE ≠ 0 then
      return false
    else if ← act .fails then
      return false
    else
      loadseg ip (number r.2 8 8 % 2 ^ 32) (filesz % 2 ^ 32)

/-- The part of `kexec` that reads the file, which is locked. -/
def loadImage (ip : Fin NINODE) : P NPROC Bool := do
  let r ← act (.readi ip none 0 ELFHDR)
  if r.1 ≠ ELFHDR then
    return false
  else if number r.2 0 4 ≠ ELF_MAGIC then
    return false
  else if ← act .fails then
    return false
  else
    let phoff := number r.2 32 8
    let phnum := number r.2 56 2
    iterate (0 : ℕ) fun i => do
      if i < phnum then
        if ← loadHeader ip (phoff + i * PROGHDR) then return .inl (i + 1) else return .inr false
      else
        return .inr true

/-- The arguments are fetched first, and put on the new stack after the file has been read;
both may fail. -/
def sysExec (path : Option Path) : P NPROC ℤ := do
  match path with
  | none => return -1
  | some path =>
    if ← act .fails then
      return -1
    else
      act .beginOp
      match ← namei path with
      | none => failOp
      | some ip =>
        ilock ip
        if ← loadImage ip then
          iunlockput ip
          act .endOp
          if ← act .fails then return -1 else return 0
        else
          dropOp ip

/-! ### Processes -/

/-- The open files listed are duplicated for the child. -/
def dupFiles (np : Fin NPROC) : List (Fin NOFILE) → P NPROC Unit
  | [] => return ()
  | fd :: fds => do
    match ← act (.ofile fd) with
    | some f =>
      let f ← filedup f
      act (.setOfile np fd (some f))
      dupFiles np fds
    | none => dupFiles np fds

/-- Returns the new process, whose memory may be missing. -/
def kfork : P NPROC ℤ := do
  match ← act .allocproc with
  | none => return -1
  | some np =>
    if ← act .fails then
      act (.setState np .unused)
      return -1
    else
      dupFiles np (List.finRange NOFILE)
      match ← act .cwd with
      | some ip =>
        let ip ← idup ip
        act (.setCwd np (some ip))
        act (.setState np .runnable)
        return np.val
      | none => kpanic "idup"

def closeFiles (p : Fin NPROC) : List (Fin NOFILE) → P NPROC Unit
  | [] => return ()
  | fd :: fds => do
    match ← act (.ofile fd) with
    | some f =>
      fileclose f
      act (.setOfile p fd none)
      closeFiles p fds
    | none => closeFiles p fds

def kexit (initproc : Fin NPROC) : P NPROC Unit := do
  let p ← act .myproc
  if p = initproc then
    kpanic "init exiting"
  else
    closeFiles p (List.finRange NOFILE)
    act .beginOp
    putCwd
    act .endOp
    act (.setCwd p none)
    act (.setState p .zombie)

/-! ### The system -/

/-- A path is missing where it cannot be copied from the process. -/
inductive Request
  | open (path : Option Path) (omode : UInt32)
  | mkdir (path : Option Path)
  | mknod (path : Option Path) (major minor : Int16)
  | link (old new : Option Path)
  | unlink (path : Option Path)
  | chdir (path : Option Path)
  | exec (path : Option Path)
  | read (fd : ℤ) (addr : ℕ) (n : ℤ)
  | write (fd : ℤ) (addr : ℕ) (n : ℤ)
  | close (fd : ℤ)
  | dup (fd : ℤ)
  | fstat (fd : ℤ)
  | pipe
  | fork
  | exit

def serve (initproc : Fin NPROC) : Request → P NPROC ℤ
  | .open path omode => sysOpen path omode
  | .mkdir path => sysMkdir path
  | .mknod path major minor => sysMknod path major minor
  | .link old new => sysLink old new
  | .unlink path => sysUnlink path
  | .chdir path => sysChdir path
  | .exec path => sysExec path
  | .read fd addr n => sysRead fd addr n
  | .write fd addr n => sysWrite fd addr n
  | .close fd => sysClose fd
  | .dup fd => sysDup fd
  | .fstat fd => sysFstat fd
  | .pipe => sysPipe
  | .fork => kfork
  | .exit => do
    kexit initproc
    return 0

/-- A running process makes a system call; a new process starts; a process that has exited is
waited for. -/
inductive Enter (initproc : Fin NPROC) : Fin NPROC → State NPROC → P NPROC ℤ → State NPROC →
    P NPROC ℤ → Prop
  | call {p : Fin NPROC} {s : State NPROC} {v : ℤ} (req : Request)
      (hs : (s.proc p).state = .running) : Enter initproc p s (.ret v) s (serve initproc req)
  | start {p : Fin NPROC} {s : State NPROC} {v : ℤ} (hs : (s.proc p).state = .runnable) :
      Enter initproc p s (.ret v) (setProc p { s.proc p with state := .running } s) (.ret 0)
  | reap {p : Fin NPROC} {s : State NPROC} {v : ℤ} (hs : (s.proc p).state = .zombie) :
      Enter initproc p s (.ret v) (setProc p { s.proc p with state := .unused } s) (.ret 0)

def system (initproc : Fin NPROC) :
    Sys (State NPROC) (Fin NPROC) Choice (Act NPROC) Res ℤ where
  sem := sem
  enter := Enter initproc

/-- The first process is in user space, in the root directory; no file is open. -/
def boot (initproc : Fin NPROC) (st : Store) (devsw : Int16 → Bool × Bool) :
    Pool (State NPROC) (Fin NPROC) (Act NPROC) Res ℤ where
  shared :=
    { store := { st with outstanding := 0 }
      inode := fun i =>
        if i = 0 then ⟨ROOTDEV, ROOTINO, 1, none, false, .free⟩ else ⟨0, 0, 0, none, false, .free⟩
      file := fun _ => ⟨.none, 0, false, false, 0, 0, 0, 0⟩
      pipe := fun _ => none
      proc := fun p =>
        if p = initproc then ⟨.running, fun _ => none, some 0⟩ else ⟨.unused, fun _ => none, none⟩
      lock := fun _ => none
      devsw := devsw }
  thread := fun _ => .ret 0

end Xv6.Fs.Calls
