import Xv6.Conc.Prog

/-!
The process table, the CPUs and the locks: what one access to them does.

Every CPU executes some kernel thread: its own scheduler or that of a process. `swtch` makes
it execute another one. A spinlock is held by a CPU; what protects a critical section from
being preempted is that `acquire` turns interrupts off on that CPU.
-/

namespace Xv6.Sched.Table

open Xv6.Conc

/-- `enum procstate`. -/
inductive PState | unused | used | sleeping | runnable | running | zombie
  deriving DecidableEq

/-- What a process may sleep on: a process (in `kwait`), a condition, a sleeplock. -/
inductive Chan (NPROC : ℕ) (ι κ : Type)
  | proc (p : Fin NPROC)
  | cond (i : ι)
  | slk (j : κ)
  deriving DecidableEq

/-- The spinlocks: `p->lock`, `wait_lock`, `pid_lock`, and those of the conditions and of the
sleeplocks. -/
inductive Lock (NPROC : ℕ) (ι κ : Type)
  | proc (p : Fin NPROC)
  | wait
  | pid
  | cond (i : ι)
  | slk (j : κ)
  deriving DecidableEq

/-- A kernel thread: the scheduler of a CPU, or the kernel stack of a process. -/
inductive Ctx (NPROC NCPU : ℕ)
  | sched (c : Fin NCPU)
  | proc (p : Fin NPROC)
  deriving DecidableEq

variable {NPROC NCPU : ℕ} {ι κ : Type}

/-- `struct proc`, as far as scheduling goes. -/
structure Proc (NPROC : ℕ) (ι κ : Type) where
  state : PState
  chan : Option (Chan NPROC ι κ)
  killed : Bool
  xstate : ℤ
  pid : ℤ
  parent : Option (Fin NPROC)

/-- `struct cpu`, the interrupt enable bit, and the thread the CPU executes. -/
structure Cpu (NPROC NCPU : ℕ) where
  proc : Option (Fin NPROC)
  noff : ℕ
  intena : Bool
  intr : Bool
  running : Ctx NPROC NCPU

structure Sleeplock where
  locked : Bool
  pid : ℤ

structure St (NPROC NCPU : ℕ) (ι κ : Type) where
  proc : Fin NPROC → Proc NPROC ι κ
  cpu : Fin NCPU → Cpu NPROC NCPU
  /-- The CPU that holds each lock. -/
  lock : Lock NPROC ι κ → Option (Fin NCPU)
  nextpid : ℤ
  /-- `p->context` is set to start at `forkret`, and has not started yet. -/
  fresh : Fin NPROC → Bool
  cond : ι → Bool
  slk : κ → Sleeplock
  /-- History: the processes between `acquiresleep` and `releasesleep`. -/
  holders : κ → List (Fin NPROC)

/-- An assignment to a field of `struct proc`. -/
inductive Field (NPROC : ℕ) (ι κ : Type)
  | state (st : PState)
  | chan (ch : Option (Chan NPROC ι κ))
  | killed (b : Bool)
  | xstate (v : ℤ)
  | pid (n : ℤ)
  | parent (q : Option (Fin NPROC))

def Field.write (p : Proc NPROC ι κ) : Field NPROC ι κ → Proc NPROC ι κ
  | .state st => { p with state := st }
  | .chan ch => { p with chan := ch }
  | .killed b => { p with killed := b }
  | .xstate v => { p with xstate := v }
  | .pid n => { p with pid := n }
  | .parent q => { p with parent := q }

inductive Act (NPROC : ℕ) (ι κ : Type)
  | acquire (l : Lock NPROC ι κ)
  | release (l : Lock NPROC ι κ)
  | myproc
  | intrOn
  | intrOff
  | get (p : Fin NPROC)
  | set (p : Fin NPROC) (f : Field NPROC ι κ)
  /-- `p->context` set to start at `forkret`. -/
  | initContext (p : Fin NPROC)
  /-- The checks of `sched`, and reading `mycpu()->intena`. -/
  | checkSched (p : Fin NPROC)
  | setIntena (b : Bool)
  /-- `swtch(&p->context, &mycpu()->context)`. -/
  | swtchBack
  /-- `swtch(&c->context, &p->context)`. -/
  | swtchTo (p : Fin NPROC)
  /-- `c->proc = ..`. -/
  | setCpuProc (o : Option (Fin NPROC))
  | takePid
  | getCond (i : ι)
  | setCond (i : ι) (b : Bool)
  | getLocked (j : κ)
  | setLocked (j : κ) (b : Bool)
  | setLockPid (j : κ) (n : ℤ)
  /-- Does an allocation or a copy fail? -/
  | fails
  | panic (msg : String)

@[reducible] def Res : Act NPROC ι κ → Type
  | .myproc => Option (Fin NPROC)
  | .get _ => Proc NPROC ι κ
  | .checkSched _ | .getCond _ | .getLocked _ | .fails => Bool
  | .takePid => ℤ
  | .panic _ => Empty
  | _ => Unit

section Semantics

variable [DecidableEq ι] [DecidableEq κ]

def setCpu (c : Fin NCPU) (v : Cpu NPROC NCPU) (s : St NPROC NCPU ι κ) : St NPROC NCPU ι κ :=
  { s with cpu := Function.update s.cpu c v }

def setProc (p : Fin NPROC) (v : Proc NPROC ι κ) (s : St NPROC NCPU ι κ) : St NPROC NCPU ι κ :=
  { s with proc := Function.update s.proc p v }

def setLock (l : Lock NPROC ι κ) (o : Option (Fin NCPU)) (s : St NPROC NCPU ι κ) :
    St NPROC NCPU ι κ :=
  { s with lock := Function.update s.lock l o }

/-- `push_off` on CPU `c`. -/
def pushOff (c : Fin NCPU) (s : St NPROC NCPU ι κ) : St NPROC NCPU ι κ :=
  let k := s.cpu c
  setCpu c { k with
    intr := false, noff := k.noff + 1, intena := if k.noff = 0 then k.intr else k.intena } s

/-- `pop_off` on CPU `c`, its checks passed. -/
def popOff (c : Fin NCPU) (s : St NPROC NCPU ι κ) : St NPROC NCPU ι κ :=
  let k := s.cpu c
  setCpu c { k with
    noff := k.noff - 1, intr := if k.noff - 1 = 0 ∧ k.intena = true then true else k.intr } s

/-- What CPU `c` makes of an action of the thread it executes; `fail` is the environment's
choice. A CPU that finds a lock taken by another one waits. -/
def step (c : Fin NCPU) (fail : Bool) :
    (a : Act NPROC ι κ) → St NPROC NCPU ι κ → Option (Outcome (St NPROC NCPU ι κ) (Res a))
  | .acquire l, s =>
    if s.lock l = some c then some (.panic "acquire")
    else if s.lock l ≠ none then none
    else some (.ok (setLock l (some c) (pushOff c s)) ())
  | .release l, s =>
    if s.lock l ≠ some c then some (.panic "release")
    else if (s.cpu c).intr then some (.panic "pop_off - interruptible")
    else if (s.cpu c).noff < 1 then some (.panic "pop_off")
    else some (.ok (setLock l none (popOff c s)) ())
  | .myproc, s => some (.ok s (s.cpu c).proc)
  | .intrOn, s => some (.ok (setCpu c { s.cpu c with intr := true } s) ())
  | .intrOff, s => some (.ok (setCpu c { s.cpu c with intr := false } s) ())
  | .get p, s => some (.ok s (s.proc p))
  | .set p f, s => some (.ok (setProc p (f.write (s.proc p)) s) ())
  | .initContext p, s => some (.ok { s with fresh := Function.update s.fresh p true } ())
  | .checkSched p, s =>
    if s.lock (.proc p) ≠ some c then some (.panic "sched p->lock")
    else if (s.cpu c).noff ≠ 1 then some (.panic "sched locks")
    else if (s.proc p).state = .running then some (.panic "sched RUNNING")
    else if (s.cpu c).intr then some (.panic "sched interruptible")
    else some (.ok s (s.cpu c).intena)
  | .setIntena b, s => some (.ok (setCpu c { s.cpu c with intena := b } s) ())
  | .swtchBack, s => some (.ok (setCpu c { s.cpu c with running := .sched c } s) ())
  | .swtchTo p, s => some (.ok (setCpu c { s.cpu c with running := .proc p } s) ())
  | .setCpuProc o, s => some (.ok (setCpu c { s.cpu c with proc := o } s) ())
  | .takePid, s => some (.ok { s with nextpid := s.nextpid + 1 } s.nextpid)
  | .getCond i, s => some (.ok s (s.cond i))
  | .setCond i b, s => some (.ok { s with cond := Function.update s.cond i b } ())
  | .getLocked j, s => some (.ok s (s.slk j).locked)
  | .setLocked j b, s =>
    -- the history follows the process that `c` executes
    let hs := match (s.cpu c).running with
      | .proc p => if b then p :: s.holders j else (s.holders j).erase p
      | .sched _ => s.holders j
    some (.ok { s with
      slk := Function.update s.slk j { s.slk j with locked := b }
      holders := Function.update s.holders j hs } ())
  | .setLockPid j n, s =>
    some (.ok { s with slk := Function.update s.slk j { s.slk j with pid := n } } ())
  | .fails, s => some (.ok s fail)
  | .panic msg, _ => some (.panic msg)

/-- Thread `t` is at its saved context, not at a new one. -/
def Started (s : St NPROC NCPU ι κ) : Ctx NPROC NCPU → Prop
  | .sched _ => True
  | .proc p => s.fresh p = false

instance (s : St NPROC NCPU ι κ) (t : Ctx NPROC NCPU) : Decidable (Started s t) :=
  match t with
  | .sched _ => inferInstanceAs (Decidable True)
  | .proc p => inferInstanceAs (Decidable (s.fresh p = false))

/-- A thread acts when a CPU executes it. -/
def sem (t : Ctx NPROC NCPU) (a : Act NPROC ι κ) (ch : Fin NCPU × Bool) (s : St NPROC NCPU ι κ) :
    Option (Outcome (St NPROC NCPU ι κ) (Res a)) :=
  if (s.cpu ch.1).running = t ∧ Started s t then step ch.1 ch.2 a s else none

end Semantics

end Xv6.Sched.Table
