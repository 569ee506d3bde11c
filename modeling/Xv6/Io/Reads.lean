import Xv6.Fs.Kernel
import Xv6.Fs.Sound
import Xv6.Ipc.Waits
import Xv6.Vm.Transfer

/-!
`fileread` (`file.c`) and what it calls for each kind of file: `piperead`, `consoleread` and
`readi`, which store into the memory of the process.

The call is followed alone. What other processes and the interrupts do in the meantime happens
while it sleeps.
-/

namespace Xv6.Io.Reads

open Xv6.Data.Effect Xv6.Data.Effect.Eff Xv6.Vm.Memory Xv6.Vm.Copy Xv6.Vm.Space
open Xv6.Disk Xv6.Fs.Content Xv6.Fs.Sound
open Xv6.Data.Ring (index)
open Xv6.Ipc.Pipes (Pipe)
open Xv6.Ipc.Waits (Cons place ctrlD)
open Xv6.Fs.Kernel (FileType NDEV)

/-- What a read of the file `f` uses and changes. -/
structure Sys where
  ram : Ram
  /-- `f->pipe` -/
  pipe : Pipe
  cons : Cons
  store : Store
  /-- `f->ip` -/
  ip : Dinode
  /-- `f->off` -/
  off : UInt32
  /-- How often the reader has slept. -/
  naps : ℕ
  /-- The bytes that the call has taken out of the pipe or the console. -/
  taken : List UInt8
  /-- The bytes that it has stored in user memory. -/
  stored : List UInt8
  /-- The byte that it could not store. -/
  unstored : Option UInt8

/-- What others leave as it is. -/
structure Kept (p : Proc) (s s' : Sys) : Prop where
  sound : Sound s.ram p → Sound s'.ram p
  view : ∀ va, view s'.ram p va = view s.ram p va
  file : FileOk s.store.block s.ip → FileOk s'.store.block s'.ip
  taken : s'.taken = s.taken
  stored : s'.stored = s.stored
  unstored : s'.unstored = s.unstored

/-- What happens while the reader sleeps, and whether it has been killed then. -/
structure Others (p : Proc) where
  nap : ℕ → Sys → Sys
  killed : ℕ → Bool
  keeps : ∀ n s, Kept p s (nap n s)

variable {α : Type} {p : Proc}

def onRam (x : Eff Ram α) : Eff Sys α := fun s => match x s.ram with
  | .ok ram a => .ok { s with ram := ram } a
  | .panic msg => .panic msg

def onStore (x : Eff Store α) : Eff Sys α := fun s => match x s.store with
  | .ok store a => .ok { s with store := store } a
  | .panic msg => .panic msg

def slept (env : Others p) (s : Sys) : Sys := { env.nap s.naps s with naps := s.naps + 1 }

def sleep (env : Others p) : Eff Sys Unit := change (slept env)

def killed (env : Others p) : Eff Sys Bool := look fun s => env.killed s.naps

/-- To a user address. -/
def either_copyout (p : Proc) (dst : UInt64) (src : ℕ → UInt8) (len : UInt64) : Eff Sys ℤ := do
  let r ← onRam (copyout p p.pagetable dst src len)
  change fun s => { s with
    stored := s.stored ++ (List.range r.2).map src
    unstored := if r.1 = -1 then some (src r.2) else s.unstored }
  pure r.1

/-! ### `pipe.c` -/

/-- The loop of `piperead` that waits for a byte or for the end; whether it was killed. -/
def emptyLoop (env : Others p) : ℕ → Eff Sys Bool
  | 0 => fail "asleep"
  | fuel + 1 => do
    let pi ← look Sys.pipe
    if pi.nread = pi.nwrite ∧ pi.writeopen = true then do
      if ← killed env then pure true
      else do
        sleep env
        emptyLoop env fuel
    else pure false

/-- `pi->nread++`, after `ch` has been read. -/
def Sys.advance (ch : UInt8) (s : Sys) : Sys :=
  { s with pipe := { s.pipe with nread := s.pipe.nread + 1 }, taken := s.taken ++ [ch] }

/-- The loop of `piperead` that copies, with `n - i` rounds to go. -/
def copyLoop (p : Proc) (addr : UInt64) : ℕ → ℕ → Eff Sys ℤ
  | 0, i => pure i
  | left + 1, i => do
    let pi ← look Sys.pipe
    if pi.nread = pi.nwrite then pure i
    else do
      let ch := UInt8.ofBitVec (pi.data (index pi.nread))
      let r ← either_copyout p (addr + UInt64.ofNat i) (fun _ => ch) 1
      if r = -1 then pure (if i = 0 then -1 else i)
      else do
        change (Sys.advance ch)
        copyLoop p addr left (i + 1)

def piperead (env : Others p) (fuel : ℕ) (addr : UInt64) (n : Int32) : Eff Sys ℤ := do
  let dead ← emptyLoop env fuel
  if dead then pure (-1) else copyLoop p addr n.toInt.toNat 0

/-! ### `console.c` -/

/-- `cons.r++`, which takes the byte `c`. -/
def Sys.take (c : UInt8) (s : Sys) : Sys :=
  { s with cons := { s.cons with r := s.cons.r + 1 }, taken := s.taken ++ [c] }

/-- `cons.r--` -/
def Sys.untake (s : Sys) : Sys :=
  { s with cons := { s.cons with r := s.cons.r - 1 }, taken := s.taken.dropLast }

/-- The loops of `consoleread`: a round waits for input or takes a byte. They end with what is
left of `n`, or in a return of the function. -/
def lineLoop (env : Others p) (target : ℤ) : ℕ → UInt64 → ℤ → Eff Sys (Except ℤ ℤ)
  | 0, _, _ => fail "asleep"
  | fuel + 1, dst, n =>
    if 0 < n then do
      let cons ← look Sys.cons
      if cons.r = cons.w then do
        if ← killed env then pure (.error (-1))
        else do
          sleep env
          lineLoop env target fuel dst n
      else do
        let c := UInt8.ofBitVec (cons.buf (place cons.r))
        change (Sys.take c)
        if c = UInt8.ofBitVec ctrlD then
          if n < target then do
            -- `^D` is kept for the next read
            change Sys.untake
            pure (.ok n)
          else pure (.ok n)
        else do
          let r ← either_copyout p dst (fun _ => c) 1
          if r = -1 then pure (.ok n)
          else if c = 10 then pure (.ok (n - 1))
          else lineLoop env target fuel (dst + 1) (n - 1)
    else pure (.ok n)

def consoleread (env : Others p) (fuel : ℕ) (dst : UInt64) (n : Int32) : Eff Sys ℤ := do
  match ← lineLoop env n.toInt fuel dst n.toInt with
  | .error r => pure r
  | .ok left => pure (n.toInt - left)

/-! ### `fs.c` and `file.c` -/

/-- `bmap(ip, bn)`, which may give `ip` new blocks. -/
def bmapAt (bn : ℕ) : Eff Sys BlockNo := do
  let ip ← look Sys.ip
  let r ← onStore (bmap ip bn)
  change fun s => { s with ip := r.1 }
  pure r.2

/-- The loop of `readi`. -/
def readiLoop (p : Proc) (n : ℕ) : ℕ → UInt64 → (tot off : ℕ) → Eff Sys ℤ
  | 0, _, tot, _ => pure tot
  | fuel + 1, dst, tot, off =>
    if tot < n then do
      let addr ← bmapAt (off / BSIZE)
      if addr = 0 then pure tot
      else do
        let data ← look fun s => s.store.block addr
        let m := chunk n tot off
        let r ← either_copyout p dst (fun j => byte data (off % BSIZE + j)) (UInt64.ofNat m)
        if r = -1 then pure (-1)
        else readiLoop p n fuel (dst + UInt64.ofNat m) (tot + m) (off + m)
    else pure tot

/-- `readi` to a user address. A round of the loop copies at least one byte, so `n` rounds are
enough. -/
def readiTo (p : Proc) (dst : UInt64) (off n : ℕ) : Eff Sys ℤ := do
  let size ← look fun s => s.ip.size
  if off > size ∨ (off + n) % 2 ^ 32 < off then pure 0
  else do
    let n := if off + n > size then size - off else n
    readiLoop p n n dst 0 off

/-- `struct file`, as far as it does not change. -/
structure File where
  type : FileType
  readable : Bool
  major : Int16

/-- The only device that can be read. -/
def CONSOLE : Int16 := 1

def fileread (env : Others p) (f : File) (fuel : ℕ) (addr : UInt64) (n : Int32) : Eff Sys ℤ :=
  if f.readable = false then pure (-1)
  else match f.type with
    | .pipe => piperead env fuel addr n
    | .device =>
      if f.major < 0 ∨ (NDEV : ℤ) ≤ f.major.toInt ∨ f.major ≠ CONSOLE then pure (-1)
      else consoleread env fuel addr n
    | .inode => do
      -- `ilock`
      sleep env
      let off ← look Sys.off
      let r ← readiTo p addr off.toNat n.toUInt32.toNat
      if r > 0 then change fun s => { s with off := s.off + UInt32.ofNat r.toNat } else pure ()
      pure r
    | .none => fail "fileread"

end Xv6.Io.Reads
