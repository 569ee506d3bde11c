import Xv6.Proc.Coarse

/-!
Parents and children: `kfork`, `kexit` and `kwait` (`proc.c`), in a system with `kkill` and with
any other sleeps and wakeups, whose conditions are left out.
-/

namespace Xv6.Proc.Family

open Xv6.Conc Xv6.Conc.Prog Xv6.Sched.Table Xv6.Sched.Kernel Xv6.Proc.Coarse

variable {NPROC NCPU : ℕ} {ι : Type} [DecidableEq ι]

/-- Sleeping once on a condition, under its lock. -/
def nap (i : ι) : P NPROC ι Empty Unit := do
  act (.acquire (.cond i))
  sleep (.cond i) (.cond i)
  act (.release (.cond i))

def rouse (i : ι) : P NPROC ι Empty Unit := do
  act (.acquire (.cond i))
  wakeup (some (.cond i))
  act (.release (.cond i))

inductive Request (ι : Type)
  | fork
  | exit (status : ℤ)
  | wait (addr : Bool)
  | kill (pid : ℤ)
  | nap (i : ι)
  | rouse (i : ι)
  deriving DecidableEq

variable (initproc : Fin NPROC)

def serve : Request ι → P NPROC ι Empty ℤ
  | .fork => kfork
  | .exit status => do
    kexit initproc status
    return 0
  | .wait addr => kwait addr
  | .kill pid => kkill pid
  | .nap i => do
    nap i
    return 0
  | .rouse i => do
    rouse i
    return 0

/-! ### The history -/

/-- What a process exited with. -/
structure Exit (NPROC : ℕ) where
  slot : Fin NPROC
  pid : ℤ
  status : ℤ

/-- A zombie is reaped: which exit it is, by whom, who its parent is at that moment and who
forked it, and what is returned. -/
structure Reap (NPROC : ℕ) where
  exit : Option ℕ
  reaper : Fin NPROC
  parent : Option (Fin NPROC)
  forker : Option (Fin NPROC)
  pid : ℤ
  status : ℤ

/-- A call of a process: the child whose status it failed to copy out, the reap it has made. -/
structure Call (NPROC : ℕ) (ι : Type) where
  req : Option (Request ι)
  failed : Option (Fin NPROC)
  got : Option ℕ

structure History (NPROC : ℕ) (ι : Type) where
  call : Fin NPROC → Call NPROC ι
  /-- The process whose lock a process has acquired last. -/
  last : Fin NPROC → Option (Fin NPROC)
  exits : List (Exit NPROC)
  /-- The exit of the zombie in the slot, until it is reaped. -/
  corpse : Fin NPROC → Option ℕ
  forker : Fin NPROC → Option (Fin NPROC)
  reaps : List (Reap NPROC)

def History.setCall (h : History NPROC ι) (p : Fin NPROC) (k : Call NPROC ι) : History NPROC ι :=
  { h with call := Function.update h.call p k }

def History.exit (h : History NPROC ι) (q : Fin NPROC) (v : Proc NPROC ι Empty) : History NPROC ι :=
  { h with
    exits := h.exits ++ [⟨q, v.pid, v.xstate⟩]
    corpse := Function.update h.corpse q (some h.exits.length) }

/-- `p` begins to free the zombie in slot `q`. -/
def History.reap (h : History NPROC ι) (p q : Fin NPROC) (v : Proc NPROC ι Empty) :
    History NPROC ι :=
  { h.setCall p { h.call p with got := some h.reaps.length } with
    corpse := Function.update h.corpse q none
    reaps := h.reaps ++ [⟨h.corpse q, p, v.parent, h.forker q, v.pid, v.xstate⟩] }

def note (p : Fin NPROC) : (a : Act NPROC ι Empty) → Res a → World NPROC NCPU ι Empty →
    History NPROC ι → History NPROC ι
  | .acquire (.proc q), _, _, h => { h with last := Function.update h.last p (some q) }
  | .fails, fail, _, h =>
    if fail = true ∧ (h.call p).req = some (.wait true) then
      h.setCall p { h.call p with failed := h.last p }
    else h
  | .set q (.parent (some u)), _, _, h =>
    if u = p then { h with forker := Function.update h.forker q (some p) } else h
  | .set q (.state .zombie), _, w, h => h.exit q (w.proc q)
  -- the pid is the first field that `freeproc` resets
  | .set q (.pid _), _, w, h => if (w.proc q).state = .zombie then h.reap p q (w.proc q) else h
  | _, _, _, h => h

def watch : Ctx NPROC NCPU → (a : Act NPROC ι Empty) → Res a → World NPROC NCPU ι Empty →
    History NPROC ι → History NPROC ι
  | .proc p, a, r, w, h => note p a r w h
  | .sched _, _, _, _, h => h

/-! ### The system -/

abbrev State (NPROC NCPU : ℕ) (ι : Type) := World NPROC NCPU ι Empty × History NPROC ι

/-- A process begins something new. -/
def History.begin (h : History NPROC ι) (p : Fin NPROC) (req : Option (Request ι)) :
    History NPROC ι :=
  h.setCall p ⟨req, none, none⟩

/-- A new process starts; a process in user space makes a system call; a device interrupts. -/
inductive Enter : Ctx NPROC NCPU → State NPROC NCPU ι → P NPROC ι Empty ℤ →
    State NPROC NCPU ι → P NPROC ι Empty ℤ → Prop
  | start {p : Fin NPROC} {w : World NPROC NCPU ι Empty} {h : History NPROC ι}
      {rest : P NPROC ι Empty ℤ} (hf : w.fresh p = true) (hs : (w.proc p).state = .runnable)
      (hl : w.lock (.proc p) = none) :
      Enter (.proc p) (w, h) rest
        (resume p { w with fresh := Function.update w.fresh p false }, h.begin p none)
        (do forkret; return 0)
  | call {p : Fin NPROC} {s : State NPROC NCPU ι} {v : ℤ} (req : Request ι)
      (hs : (s.1.proc p).state = .running) (hf : s.1.fresh p = false) :
      Enter (.proc p) s (.ret v) (s.1, s.2.begin p (some req)) (serve initproc req)
  | interrupt {c : Fin NCPU} {s : State NPROC NCPU ι} {v : ℤ} (i : ι) :
      Enter (.sched c) s (.ret v) s (do rouse i; return 0)

def family (NCPU : ℕ) : Sys (State NPROC NCPU ι) (Ctx NPROC NCPU) Bool (Act NPROC ι Empty) Res ℤ :=
  ((world NPROC NCPU ι Empty).observe watch).reenter (Enter initproc)

/-- The first process is in user space, and there is no other. -/
def boot (NCPU : ℕ) : Pool (State NPROC NCPU ι) (Ctx NPROC NCPU) (Act NPROC ι Empty) Res ℤ where
  shared :=
    ({ proc := fun p =>
         if p = initproc then ⟨.running, none, false, 0, 1, none⟩
         else ⟨.unused, none, false, 0, 0, none⟩
       lock := fun _ => none
       nextpid := 2
       fresh := fun _ => false
       away := fun _ => false },
      ⟨fun _ => ⟨none, none, none⟩, fun _ => none, [], fun _ => none, fun _ => none, []⟩)
  thread := fun _ => .ret 0

/-! ### Runs by hand -/

/-- What may happen next: a thread takes `n` steps, `fail` saying whether allocations and copies
fail; a process starts, or it makes a system call. -/
inductive Move (NPROC NCPU : ℕ) (ρ : Type)
  | run (t : Ctx NPROC NCPU) (fail : Bool) (n : ℕ)
  | start (p : Fin NPROC)
  | call (p : Fin NPROC) (req : ρ)

section Moves

variable {σ ρ : Type} (S : Sys σ (Ctx NPROC NCPU) Bool (Act NPROC ι Empty) Res ℤ)
  (world : σ → World NPROC NCPU ι Empty) (start : Fin NPROC → σ → σ) (call : Fin NPROC → ρ → σ → σ)
  (serve : ρ → P NPROC ι Empty ℤ)

def Move.make (c : Pool σ (Ctx NPROC NCPU) (Act NPROC ι Empty) Res ℤ) :
    Move NPROC NCPU ρ → Option (Pool σ (Ctx NPROC NCPU) (Act NPROC ι Empty) Res ℤ)
  | .run t fail n => schedule S [(t, fail, n)] c
  | .start p =>
    let w := world c.shared
    if w.fresh p = true ∧ (w.proc p).state = .runnable ∧ w.lock (.proc p) = none then
      some ⟨start p c.shared, Function.update c.thread (.proc p) (do forkret; return 0)⟩
    else none
  | .call p req =>
    let w := world c.shared
    match c.thread (.proc p) with
    | .ret _ =>
      if (w.proc p).state = .running ∧ w.fresh p = false then
        some ⟨call p req c.shared, Function.update c.thread (.proc p) (serve req)⟩
      else none
    | _ => none

def play : List (Move NPROC NCPU ρ) → Pool σ (Ctx NPROC NCPU) (Act NPROC ι Empty) Res ℤ →
    Option (Pool σ (Ctx NPROC NCPU) (Act NPROC ι Empty) Res ℤ)
  | [], c => some c
  | m :: ms, c =>
    match m.make S world start call serve c with
    | some c' => play ms c'
    | none => none

variable {S world start call serve} {c c' : Pool σ (Ctx NPROC NCPU) (Act NPROC ι Empty) Res ℤ}

end Moves

def called (p : Fin NPROC) (req : Request ι) (s : State NPROC NCPU ι) : State NPROC NCPU ι :=
  (s.1, s.2.begin p (some req))

end Xv6.Proc.Family
