import Xv6.Vm.Touch

/-!
`kexec` (`exec.c`), from where it has found and locked the inode: it builds a new address space from
the file and the arguments, and only then gives up the old one.
-/

namespace Xv6.Vm.Exec

open Xv6.Data Xv6.Data.Effect Xv6.Data.Effect.Eff Xv6.Vm.Paging Xv6.Vm.Memory Xv6.Vm.Table
  Xv6.Vm.Grow Xv6.Vm.Copy Xv6.Vm.Process Xv6.Vm.Holding Xv6.Vm.View

def MAXARG : ℕ := 32

/-- Pages of the user stack. -/
def USERSTACK : UInt64 := 1

def ELF_MAGIC : ℕ := 0x464C457F

def ELF_PROG_LOAD : ℕ := 1

/-! ### Files -/

/-- What `readi` finds in the inode. -/
structure File where
  size : UInt32
  data : ℕ → UInt8

/-- What `readi(ip, 0, dst, off, n)` returns; it has put the bytes of the file from `off` on to `dst`. -/
def readi (f : File) (off n : UInt32) : UInt32 :=
  if off > f.size ∨ off + n < off then 0
  else if off + n > f.size then f.size - off
  else n

/-- The number in the `n` bytes at `o`, little-endian. -/
def field (f : File) (o n : ℕ) : ℕ := ∑ j ∈ Finset.range n, (f.data (o + j)).toNat * 2 ^ (8 * j)

/-- Of `struct elfhdr`, what is used. -/
structure Elfhdr where
  magic : ℕ
  entry : UInt64
  phoff : UInt64
  phnum : ℕ

def Elfhdr.SIZE : UInt32 := 64

def elfhdr (f : File) : Elfhdr where
  magic := field f 0 4
  entry := UInt64.ofNat (field f 24 8)
  phoff := UInt64.ofNat (field f 32 8)
  phnum := field f 56 2

/-- Of `struct proghdr`, what is used. -/
structure Proghdr where
  type : ℕ
  flags : ℕ
  off : UInt64
  vaddr : UInt64
  filesz : UInt64
  memsz : UInt64

def Proghdr.SIZE : UInt32 := 56

/-- The program header at `o`. -/
def proghdr (f : File) (o : ℕ) : Proghdr where
  type := field f o 4
  flags := field f (o + 4) 4
  off := UInt64.ofNat (field f (o + 8) 8)
  vaddr := UInt64.ofNat (field f (o + 16) 8)
  filesz := UInt64.ofNat (field f (o + 32) 8)
  memsz := UInt64.ofNat (field f (o + 40) 8)

/-- What `sys_exec` has fetched: fewer than `MAXARG` strings of C, each in a page. -/
structure Argv where
  args : List (List UInt8)
  count : args.length < MAXARG
  size : ∀ arg ∈ args, arg.length < 4096
  chars : ∀ arg ∈ args, (0 : UInt8) ∉ arg

/-! ### `kexec` -/

def flags2perm (flags : ℕ) : UInt64 :=
  (if flags.testBit 0 then PTE_X else 0) ||| (if flags.testBit 1 then PTE_W else 0)

def loadsegLoop (pagetable va : UInt64) (f : File) (offset sz : UInt32) : ℕ → UInt32 → Eff Ram ℤ
  | 0, _ => fail "rounds"
  | fuel + 1, i =>
    if i < sz then do
      let pa ← walkaddr pagetable (va + i.toUInt64)
      if pa = 0 then fail "loadseg: address should exist"
      else do
        let n := if sz - i < 4096 then sz - i else 4096
        memmove pa 0 (readi f (offset + i) n).toNat fun j => f.data ((offset + i).toNat + j)
        if readi f (offset + i) n ≠ n then pure (-1)
        else loadsegLoop pagetable va f offset sz fuel (i + 4096)
    else pure 0

/-- As many rounds as a `uint` of bytes has pages, and one to find that it is done. -/
def ROUNDS32 : ℕ := 2 ^ 20 + 1

/-- `offset` and `sz` are `uint`, of which `kexec` has 64 bits. -/
def loadseg (pagetable va : UInt64) (f : File) (offset sz : UInt32) : Eff Ram ℤ :=
  loadsegLoop pagetable va f offset sz ROUNDS32 0

/-- The loop over the program headers: whether it has come to its end, and `sz`. -/
def segments (pagetable : UInt64) (f : File) : ℕ → UInt32 → UInt64 → Eff Ram (Bool × UInt64)
  | 0, _, sz => pure (true, sz)
  | n + 1, off, sz =>
    let ph := proghdr f off.toNat
    if readi f off Proghdr.SIZE ≠ Proghdr.SIZE then pure (false, sz)
    else if ph.type ≠ ELF_PROG_LOAD then segments pagetable f n (off + Proghdr.SIZE) sz
    else if ph.memsz < ph.filesz then pure (false, sz)
    else if ph.vaddr + ph.memsz < ph.vaddr then pure (false, sz)
    else if ph.vaddr % PGSIZE ≠ 0 then pure (false, sz)
    else do
      let sz1 ← uvmalloc pagetable sz (ph.vaddr + ph.memsz) (flags2perm ph.flags)
      if sz1 = 0 then pure (false, sz)
      else do
        let r ← loadseg pagetable ph.vaddr f ph.off.toUInt32 ph.filesz.toUInt32
        if r < 0 then pure (false, sz1)
        else segments pagetable f n (off + Proghdr.SIZE) sz1

/-- The byte of a string of C. -/
def char (arg : List UInt8) (j : ℕ) : UInt8 := arg.getD j 0

/-- Where a string of `n` bytes goes that is pushed below `sp`. -/
def pushed (sp : UInt64) (n : ℕ) : UInt64 :=
  (sp - UInt64.ofNat n) - (sp - UInt64.ofNat n) % 16

/-- The loop over `argv`, with the `sp` and the `ustack[]` that it leaves. `p` is the process as it
was before, for `copyout`. -/
def pushArgs (p : Proc) (pagetable stackbase : UInt64) :
    List (List UInt8) → UInt64 → List UInt64 → Eff Ram (Option (UInt64 × List UInt64))
  | [], sp, ustack => pure (some (sp, ustack))
  | arg :: argv, sp, ustack =>
    if ustack.length ≥ MAXARG then pure none
    else
      let sp := pushed sp (arg.length + 1)
      if sp < stackbase then pure none
      else do
        let r ← copyout p pagetable sp (char arg) (UInt64.ofNat (arg.length + 1))
        if r.1 < 0 then pure none
        else pushArgs p pagetable stackbase argv sp (ustack ++ [sp])

/-- The bytes of an array of pointers. -/
def bytesOf (ustack : List UInt64) (j : ℕ) : UInt8 :=
  UInt8.ofNat ((ustack.getD (j / 8) 0).toNat / 2 ^ (8 * (j % 8)))

/-- The stack: its guard page, the arguments and the array of pointers to them. It says what `sp` is
then, and the size, where nothing has gone wrong. -/
def stack (p : Proc) (pagetable sz : UInt64) (argv : List (List UInt8)) :
    Eff Ram (Option UInt64 × UInt64) := do
  let sz := PGROUNDUP sz
  let sz1 ← uvmalloc pagetable sz (sz + (USERSTACK + 1) * PGSIZE) PTE_W
  if sz1 = 0 then pure (none, sz)
  else do
    uvmclear pagetable (sz1 - (USERSTACK + 1) * PGSIZE)
    let stackbase := sz1 - USERSTACK * PGSIZE
    let o ← pushArgs p pagetable stackbase argv sz1 []
    o.elim (pure (none, sz1)) fun r => do
      let sp := pushed r.1 ((r.2.length + 1) * 8)
      if sp < stackbase then pure (none, sz1)
      else do
        let q ← copyout p pagetable sp (bytesOf (r.2 ++ [0])) (UInt64.ofNat ((r.2.length + 1) * 8))
        if q.1 < 0 then pure (none, sz1) else pure (some sp, sz1)

/-- Places in the trapframe. -/
def EPC : Fin 512 := 3
def SP : Fin 512 := 6
def A1 : Fin 512 := 15

/-- `kexec`, with what becomes of the process. -/
def kexec (trampoline : UInt64) (f : File) (argv : Argv) (t : Task) : Eff Ram (ℤ × Task) :=
  if readi f 0 Elfhdr.SIZE ≠ Elfhdr.SIZE then pure (-1, t)
  else if (elfhdr f).magic ≠ ELF_MAGIC then pure (-1, t)
  else do
    let pagetable ← proc_pagetable trampoline t.trapframe
    if pagetable = 0 then pure (-1, t)
    else do
      let r ← segments pagetable f (elfhdr f).phnum (elfhdr f).phoff.toUInt32 0
      if r.1 then do
        let o ← stack t.mem pagetable r.2 argv.args
        o.1.elim
          (do
            proc_freepagetable pagetable o.2
            pure (-1, t))
          fun sp => do
            assign t.trapframe A1 sp
            assign t.trapframe EPC (elfhdr f).entry
            assign t.trapframe SP sp
            proc_freepagetable t.mem.pagetable t.mem.sz
            pure (argv.args.length, ⟨⟨o.2, pagetable⟩, t.trapframe⟩)
      else do
        proc_freepagetable pagetable r.2
        pure (-1, t)

/-! ### The image of the new program -/

/-- `uvmalloc` of an image. -/
def extend (m : Image) (sz perm : UInt64) : Image :=
  if sz < m.sz then m else m.span sz (PTE_R ||| PTE_U ||| perm)

/-- The file has the `n` bytes from `off`. -/
def Has (f : File) (off n : UInt32) : Prop := n = 0 ∨ off.toNat + n.toNat ≤ f.size.toNat

instance (f : File) (off n : UInt32) : Decidable (Has f off n) := inferInstanceAs (Decidable (_ ∨ _))

/-- With the segment of a program header. -/
def withSegment (f : File) (ph : Proghdr) (m : Image) : Option Image :=
  if ph.memsz < ph.filesz ∨ ph.vaddr + ph.memsz < ph.vaddr ∨ ph.vaddr % PGSIZE ≠ 0 then none
  else
    let m := extend m (ph.vaddr + ph.memsz) (flags2perm ph.flags)
    if m.sz = 0 ∨ ¬Has f ph.off.toUInt32 ph.filesz.toUInt32 then none
    else some (m.store ph.vaddr.toNat ph.filesz.toUInt32.toNat
      fun j => f.data (ph.off.toUInt32.toNat + j))

/-- With the segments of `n` program headers. -/
def withSegments (f : File) : ℕ → UInt32 → Image → Option Image
  | 0, _, m => some m
  | n + 1, off, m =>
    if readi f off Proghdr.SIZE ≠ Proghdr.SIZE then none
    else if (proghdr f off.toNat).type ≠ ELF_PROG_LOAD then
      withSegments f n (off + Proghdr.SIZE) m
    else (withSegment f (proghdr f off.toNat) m).bind (withSegments f n (off + Proghdr.SIZE))

/-- Page `k` is not for the program. -/
def guard (m : Image) (k : ℕ) : Image :=
  { m with
    rights := Function.update m.rights k (m.rights k &&& ~~~PTE_U)
    bytes := fun a => if a / 4096 = k then none else m.bytes a }

/-- With the strings of `argv` on the stack. -/
def withArgs (stackbase : UInt64) :
    List (List UInt8) → UInt64 → List UInt64 → Image → Option (Image × UInt64 × List UInt64)
  | [], sp, ustack, m => some (m, sp, ustack)
  | arg :: argv, sp, ustack, m =>
    if ustack.length ≥ MAXARG ∨ pushed sp (arg.length + 1) < stackbase then none
    else withArgs stackbase argv (pushed sp (arg.length + 1))
      (ustack ++ [pushed sp (arg.length + 1)])
      (m.store (pushed sp (arg.length + 1)).toNat (arg.length + 1) (char arg))

/-- With the array of pointers below the strings, and `sp`. -/
def withPointers (stackbase : UInt64) (r : Image × UInt64 × List UInt64) : Option (Image × UInt64) :=
  let sp := pushed r.2.1 ((r.2.2.length + 1) * 8)
  if sp < stackbase then none
  else some (r.1.store sp.toNat ((r.2.2.length + 1) * 8) (bytesOf (r.2.2 ++ [0])), sp)

/-- With the stack above what has been loaded. -/
def withStack (m : Image) (argv : List (List UInt8)) : Option (Image × UInt64) :=
  let sz := PGROUNDUP m.sz
  let m := guard (extend { m with sz := sz } (sz + (USERSTACK + 1) * PGSIZE) PTE_W) (vpn sz)
  (withArgs (m.sz - USERSTACK * PGSIZE) argv m.sz [] m).bind
    (withPointers (m.sz - USERSTACK * PGSIZE))

/-- A trapframe from which the program starts. -/
def started (regs : Fin 36 → UInt64) (entry sp : UInt64) : Fin 36 → UInt64 := fun i =>
  if i.castLE regs_le = SP then sp
  else if i.castLE regs_le = EPC then entry
  else if i.castLE regs_le = A1 then sp
  else regs i

/-- What `kexec` loads from a file, for a process with `regs`. -/
def loaded (f : File) (regs : Fin 36 → UInt64) : Option Image :=
  if readi f 0 Elfhdr.SIZE ≠ Elfhdr.SIZE ∨ (elfhdr f).magic ≠ ELF_MAGIC then none
  else withSegments f (elfhdr f).phnum (elfhdr f).phoff.toUInt32
    ⟨0, fun _ => 0, fun _ => none, regs⟩

/-- The image that `kexec` makes from a file and arguments. -/
def execImage (f : File) (argv : Argv) (regs : Fin 36 → UInt64) : Option Image :=
  (loaded f regs).bind fun m => (withStack m argv.args).map fun r =>
    { r.1 with regs := started regs (elfhdr f).entry r.2 }

end Xv6.Vm.Exec
