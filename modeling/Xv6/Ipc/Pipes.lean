import Xv6.Data.Ring
import Xv6.Proc.Coarse

/-!
Pipes (`pipe.c`): one pipe, and processes that write to it, read from it, close its ends and
kill one another.

User memory is left to the environment: a copy fails or not, and brings in any byte. So is the
`kfree` of a pipe both of whose ends are closed; nobody has a file for it any more.
-/

namespace Xv6.Ipc.Pipes

open Xv6.Conc Xv6.Conc.Prog Xv6.Data.Ring Xv6.Sched.Table Xv6.Sched.Kernel Xv6.Proc.Coarse

abbrev PIPESIZE : ℕ := 512

instance : NeZero PIPESIZE := ⟨by decide⟩

abbrev Byte := BitVec 8

structure Pipe where
  data : Fin PIPESIZE → Byte
  nread : BitVec 32
  nwrite : BitVec 32
  readopen : Bool
  writeopen : Bool

inductive PAct
  /-- Reading the fields of `pi`. -/
  | read
  /-- `pi->data[pi->nwrite++ % PIPESIZE] = ch`. -/
  | put (ch : Byte)
  /-- `pi->nread++`. -/
  | advance
  | close (writable : Bool)
  | copyin
  | copyout (ch : Byte)

/-- A copy from user space brings a byte unless it fails, one to user space says whether it
fails. -/
@[reducible] def PRes : PAct → Type
  | .read => Pipe
  | .copyin => Option Byte
  | .copyout _ => Bool
  | _ => Unit

/-- The pipe as a ring buffer. -/
def Pipe.ring (pi : Pipe) : Ring 32 PIPESIZE Byte := ⟨pi.data, pi.nread, pi.nwrite⟩

def Pipe.put (pi : Pipe) (ch : Byte) : Pipe :=
  { pi with data := Function.update pi.data (index pi.nwrite) ch, nwrite := pi.nwrite + 1 }

def Pipe.close (pi : Pipe) (writable : Bool) : Pipe :=
  if writable then { pi with writeopen := false } else { pi with readopen := false }

/-- `fail` and `ch` are the environment's choice. -/
def pipeStep {T : Type} (_ : T) : (b : PAct) → Bool × Byte → Pipe → Option (Pipe × PRes b)
  | .read, _, pi => some (pi, pi)
  | .put ch, _, pi => some (pi.put ch, ())
  | .advance, _, pi => some ({ pi with nread := pi.nread + 1 }, ())
  | .close writable, _, pi => some (pi.close writable, ())
  | .copyin, (fail, ch), pi => some (pi, if fail then none else some ch)
  | .copyout _, (fail, _), pi => some (pi, fail)

variable {NPROC NCPU : ℕ}

/-- An action of the process table, or one on the pipe. -/
abbrev PipeAct (NPROC : ℕ) := Act NPROC Site Empty ⊕ PAct

abbrev PP (NPROC : ℕ) := Prog (PipeAct NPROC) (Both Res PRes)

/-- A program of the process table. -/
abbrev base {α : Type} (x : P NPROC Site Empty α) : PP NPROC α := left x

/-- An action on the pipe. -/
abbrev dev (b : PAct) : PP NPROC (PRes b) := right b

/-- `pi->lock`. -/
abbrev pipeLock : Lock NPROC Site Empty := .cond .pipe

/-! ### The functions of `pipe.c` -/

def pipeclose (writable : Bool) : PP NPROC Unit := do
  base (act (.acquire pipeLock))
  dev (.close writable)
  base (wakeup (some (.cond (if writable then .nread else .nwrite))))
  base (act (.release pipeLock))

/-- The test `pi->readopen == 0 || killed(pr)`. -/
def noReader (pr : Fin NPROC) : PP NPROC Bool := do
  let pi ← dev .read
  if pi.readopen then base (killed pr) else return true

/-- The loop of `pipewrite` with the number `i` of bytes written, which ends with this number
or in a return of the function. -/
def writeLoop (pr : Fin NPROC) (n : ℤ) : PP NPROC (Except ℤ ℤ) :=
  iterate (0 : ℤ) fun i =>
    if i < n then do
      let stop ← noReader pr
      if stop then
        base (act (.release pipeLock))
        return .inr (.error (-1))
      else
        let pi ← dev .read
        if pi.nwrite = pi.nread + BitVec.ofNat 32 PIPESIZE then
          base (wakeup (some (.cond .nread)))
          base (sleep (.cond .nwrite) pipeLock)
          return .inl i
        else
          let o ← dev .copyin
          match o with
          | none => return .inr (.ok i)
          | some ch =>
            dev (.put ch)
            return .inl (i + 1)
    else return .inr (.ok i)

def pipewrite (n : ℤ) : PP NPROC ℤ := do
  let pr ← base self
  base (act (.acquire pipeLock))
  let r ← writeLoop pr n
  match r with
  | .error v => return v
  | .ok i =>
    base (wakeup (some (.cond .nread)))
    base (act (.release pipeLock))
    return i

/-- The loop of `piperead` that waits for a byte or for the end; whether it was killed. -/
def emptyLoop (pr : Fin NPROC) : PP NPROC Bool :=
  iterate () fun _ => do
    let pi ← dev .read
    if pi.nread = pi.nwrite ∧ pi.writeopen = true then
      let k ← base (killed pr)
      if k then
        base (act (.release pipeLock))
        return .inr true
      else
        base (sleep (.cond .nread) pipeLock)
        return .inl ()
    else return .inr false

/-- The loop of `piperead` that copies, and the `i` it ends with. -/
def copyLoop (n : ℤ) : PP NPROC ℤ :=
  iterate (0 : ℤ) fun i =>
    if i < n then do
      let pi ← dev .read
      if pi.nread = pi.nwrite then return .inr i
      else
        let fail ← dev (.copyout (pi.data (index pi.nread)))
        if fail then return .inr (if i = 0 then -1 else i)
        else
          dev .advance
          return .inl (i + 1)
    else return .inr i

def piperead (n : ℤ) : PP NPROC ℤ := do
  let pr ← base self
  base (act (.acquire pipeLock))
  let dead ← emptyLoop pr
  if dead then return -1
  else
    let i ← copyLoop n
    base (wakeup (some (.cond .nwrite)))
    base (act (.release pipeLock))
    return i

/-! ### The system -/

inductive Request
  | write (n : ℤ)
  | read (n : ℤ)
  | close (writable : Bool)
  | kill (pid : ℤ)

def serve : Request → PP NPROC ℤ
  | .write n => pipewrite n
  | .read n => piperead n
  | .close writable => do
    pipeclose writable
    return 0
  | .kill pid => base (kkill pid)

/-- A call of a process, and what it has done so far. -/
structure Call where
  req : Option Request
  /-- The bytes it has put into the pipe, or taken out. -/
  moved : ℕ
  /-- Those it has put in since it acquired `pi->lock` last. -/
  unsaid : ℕ
  /-- The pipe when it released `pi->lock` last. -/
  atRelease : Option Pipe

structure History (NPROC : ℕ) where
  call : Fin NPROC → Call
  /-- The bytes that writers have put in. -/
  accepted : List Byte
  /-- The bytes that readers have received. -/
  delivered : List Byte

def History.setCall (h : History NPROC) (p : Fin NPROC) (k : Call) : History NPROC :=
  { h with call := Function.update h.call p k }

def watch : Ctx NPROC NCPU → (a : PipeAct NPROC) → Both Res PRes a →
    World NPROC NCPU Site Empty × Pipe → History NPROC → History NPROC
  | .proc p, .inr (.put ch), _, _, h =>
    let k := h.call p
    { h.setCall p { k with moved := k.moved + 1, unsaid := k.unsaid + 1 } with
      accepted := h.accepted ++ [ch] }
  | .proc p, .inr (.copyout ch), false, _, h =>
    { h.setCall p { h.call p with moved := (h.call p).moved + 1 } with
      delivered := h.delivered ++ [ch] }
  | .proc p, .inl (.acquire (.cond .pipe)), _, _, h => h.setCall p { h.call p with unsaid := 0 }
  | .proc p, .inl (.release (.cond .pipe)), _, s, h =>
    h.setCall p { h.call p with atRelease := some s.2 }
  | _, _, _, _, h => h

/-- What the threads share, and the history. -/
abbrev State (NPROC NCPU : ℕ) := (World NPROC NCPU Site Empty × Pipe) × History NPROC

/-- A process that is in user space makes a system call. -/
inductive Enter : Ctx NPROC NCPU → State NPROC NCPU → PP NPROC ℤ → State NPROC NCPU →
    PP NPROC ℤ → Prop
  | call {p : Fin NPROC} {s : State NPROC NCPU} {v : ℤ} (req : Request) :
      Enter (.proc p) s (.ret v) (s.1, s.2.setCall p ⟨some req, 0, 0, none⟩) (serve req)

def pipes (NPROC NCPU : ℕ) : Sys (State NPROC NCPU) (Ctx NPROC NCPU) (Bool × Bool × Byte)
    (PipeAct NPROC) (Both Res PRes) ℤ :=
  (((world NPROC NCPU Site Empty).join pipeStep : Sys _ _ _ _ _ ℤ).observe watch).reenter Enter

/-- Processes in user space with the pids and `killed` flags given, and an empty pipe with both
ends open and any value of its counters. -/
def start (NCPU : ℕ) (pid : Fin NPROC → ℤ) (killed : Fin NPROC → Bool) (data : Fin PIPESIZE → Byte)
    (count : BitVec 32) : Pool (State NPROC NCPU) (Ctx NPROC NCPU) (PipeAct NPROC)
      (Both Res PRes) ℤ where
  shared :=
    (({ proc := fun p => ⟨.running, none, killed p, 0, pid p, none⟩
        lock := fun _ => none
        nextpid := 0
        fresh := fun _ => false
        away := fun _ => false }, ⟨data, count, count, true, true⟩),
      ⟨fun _ => ⟨none, 0, 0, none⟩, [], []⟩)
  thread := fun _ => .ret 0

end Xv6.Ipc.Pipes
