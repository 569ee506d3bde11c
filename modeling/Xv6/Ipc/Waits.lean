import Xv6.Ipc.Pipes

/-!
The waits that a kill interrupts: `kwait`, `piperead` and `pipewrite`, `consoleread`
(`console.c`) and `sys_pause` (`sysproc.c`), in one system with the device interrupts that end
them, with `kkill`, and with the forks and exits that make and unmake the processes.
-/

namespace Xv6.Ipc.Waits

open Xv6.Conc Xv6.Conc.Prog Xv6.Sched.Table Xv6.Sched.Kernel Xv6.Proc.Coarse Xv6.Ipc.Pipes

abbrev INPUT_BUF_SIZE : ℕ := 128

/-- `cons`: the input buffer and its read, write and edit index. -/
structure Cons where
  buf : Fin INPUT_BUF_SIZE → Byte
  r : BitVec 32
  w : BitVec 32
  e : BitVec 32

def place (i : BitVec 32) : Fin INPUT_BUF_SIZE :=
  ⟨i.toNat % INPUT_BUF_SIZE, Nat.mod_lt _ (by decide)⟩

structure Dev where
  cons : Cons
  ticks : BitVec 32

inductive DAct
  | getCons
  | setCons (c : Cons)
  | getTicks
  /-- `ticks++`. -/
  | tick
  | copyout

/-- A copy to user space says whether it fails. -/
@[reducible] def DRes : DAct → Type
  | .getCons => Cons
  | .getTicks => BitVec 32
  | .copyout => Bool
  | _ => Unit

/-- `fail` is the environment's choice. -/
def devStep {T : Type} (_ : T) : (b : DAct) → Bool → Dev → Option (Dev × DRes b)
  | .getCons, _, d => some (d, d.cons)
  | .setCons c, _, d => some ({ d with cons := c }, ())
  | .getTicks, _, d => some (d, d.ticks)
  | .tick, _, d => some ({ d with ticks := d.ticks + 1 }, ())
  | .copyout, fail, d => some (d, fail)

variable {NPROC NCPU : ℕ}

/-- An action of the process table, one on the pipe, or one on the console or the clock. -/
abbrev KAct (NPROC : ℕ) := PipeAct NPROC ⊕ DAct

@[reducible] def KRes : KAct NPROC → Type := Both (Both Res PRes) DRes

abbrev KP (NPROC : ℕ) := Prog (KAct NPROC) (Both (Both Res PRes) DRes)

/-- A program of the process table. -/
abbrev low {α : Type} (x : P NPROC Site Empty α) : KP NPROC α := left (left x)

/-- A program of the pipe. -/
abbrev piped {α : Type} (x : PP NPROC α) : KP NPROC α := left x

/-- An action on the console or the clock. -/
abbrev gear (b : DAct) : KP NPROC (DRes b) := right b

/-! ### `console.c` -/

/-- `C('D')`, `C('U')`, `C('P')`, `C('H')` and the delete key. -/
abbrev ctrlD : Byte := 4
abbrev ctrlU : Byte := 21
abbrev ctrlP : Byte := 16
abbrev ctrlH : Byte := 8
abbrev del : Byte := 127

/-- The loop that waits for input; whether the process was killed. -/
def inputLoop : KP NPROC Bool :=
  iterate () fun _ => do
    let cons ← gear .getCons
    if cons.r = cons.w then
      let pr ← low self
      let k ← low (killed pr)
      if k then
        low (act (.release (.cond .cons)))
        return .inr true
      else
        low (sleep (.cond .cons) (.cond .cons))
        return .inl ()
    else return .inr false

/-- The outer loop of `consoleread`, with the number of bytes still to read; it ends with this
number or in a return of the function. -/
def lineLoop (target : ℤ) : KP NPROC (Except ℤ ℤ) :=
  iterate target fun n =>
    if 0 < n then do
      let dead ← inputLoop
      if dead then return .inr (.error (-1))
      else
        let cons ← gear .getCons
        let c := cons.buf (place cons.r)
        gear (.setCons { cons with r := cons.r + 1 })
        if c = ctrlD then
          if n < target then
            -- `^D` is kept for the next read
            let cons ← gear .getCons
            gear (.setCons { cons with r := cons.r - 1 })
            return .inr (.ok n)
          else return .inr (.ok n)
        else
          let fail ← gear .copyout
          if fail then return .inr (.ok n)
          else if c = 10 then return .inr (.ok (n - 1))
          else return .inl (n - 1)
    else return .inr (.ok n)

def consoleread (n : ℤ) : KP NPROC ℤ := do
  low (act (.acquire (.cond .cons)))
  let r ← lineLoop n
  match r with
  | .error v => return v
  | .ok m =>
    low (act (.release (.cond .cons)))
    return n - m

/-- What a control-U takes out: the characters since the last newline. -/
def killLine : KP NPROC Unit :=
  iterate () fun _ => do
    let cons ← gear .getCons
    if cons.e ≠ cons.w ∧ cons.buf (place (cons.e - 1)) ≠ 10 then
      gear (.setCons { cons with e := cons.e - 1 })
      return .inl ()
    else return .inr ()

def backspace : KP NPROC Unit := do
  let cons ← gear .getCons
  if cons.e ≠ cons.w then gear (.setCons { cons with e := cons.e - 1 }) else return ()

/-- An ordinary character; a whole line wakes up the readers. -/
def typed (ch : Byte) : KP NPROC Unit := do
  let cons ← gear .getCons
  if ch ≠ 0 ∧ cons.e - cons.r < BitVec.ofNat 32 INPUT_BUF_SIZE then
    let c : Byte := if ch = 13 then 10 else ch
    let cons' : Cons :=
      { cons with buf := Function.update cons.buf (place cons.e) c, e := cons.e + 1 }
    gear (.setCons cons')
    if c = 10 ∨ c = ctrlD ∨ cons'.e - cons'.r = BitVec.ofNat 32 INPUT_BUF_SIZE then
      gear (.setCons { cons' with w := cons'.e })
      low (wakeup (some (.cond .cons)))
    else return ()
  else return ()

/-- The `switch` of `consoleintr`, less the echo and the listing of the processes. -/
def edit (ch : Byte) : KP NPROC Unit :=
  if ch = ctrlP then return ()
  else if ch = ctrlU then killLine
  else if ch = ctrlH ∨ ch = del then backspace
  else typed ch

def consoleintr (ch : Byte) : KP NPROC Unit := do
  low (act (.acquire (.cond .cons)))
  edit ch
  low (act (.release (.cond .cons)))

/-! ### The clock -/

def pauseLoop (n : ℤ) (ticks0 : BitVec 32) : KP NPROC Bool :=
  iterate () fun _ => do
    let ticks ← gear .getTicks
    if ticks - ticks0 < BitVec.ofInt 32 n then
      let pr ← low self
      let k ← low (killed pr)
      if k then
        low (act (.release (.cond .ticks)))
        return .inr true
      else
        low (sleep (.cond .ticks) (.cond .ticks))
        return .inl ()
    else return .inr false

def sys_pause (n : ℤ) : KP NPROC ℤ := do
  low (act (.acquire (.cond .ticks)))
  let ticks0 ← gear .getTicks
  let dead ← pauseLoop (if n < 0 then 0 else n) ticks0
  if dead then return -1
  else
    low (act (.release (.cond .ticks)))
    return 0

/-- `clockintr` on CPU 0. -/
def clockintr : KP NPROC Unit := do
  low (act (.acquire (.cond .ticks)))
  gear .tick
  low (wakeup (some (.cond .ticks)))
  low (act (.release (.cond .ticks)))

/-! ### The system -/

inductive Request
  | wait (addr : Bool)
  | read (n : ℤ)
  | write (n : ℤ)
  | close (writable : Bool)
  | console (n : ℤ)
  | pause (n : ℤ)
  | kill (pid : ℤ)
  | fork
  | exit (status : ℤ)
  deriving DecidableEq

/-- The calls whose waits end when the process is killed. -/
def Request.interruptible : Request → Bool
  | .wait _ | .read _ | .write _ | .console _ | .pause _ => true
  | _ => false

def Request.writes : Request → Bool
  | .write _ => true
  | _ => false

variable (initproc : Fin NPROC)

def serve : Request → KP NPROC ℤ
  | .wait addr => low (kwait addr)
  | .read n => piped (piperead n)
  | .write n => piped (pipewrite n)
  | .close writable => do
    piped (pipeclose writable)
    return 0
  | .console n => consoleread n
  | .pause n => sys_pause n
  | .kill pid => low (kkill pid)
  | .fork => low kfork
  | .exit status => do
    low (kexit initproc status)
    return 0

inductive Interrupt
  | typed (ch : Byte)
  | clock

def handle : Interrupt → KP NPROC ℤ
  | .typed ch => do
    consoleintr ch
    return 0
  | .clock => do
    clockintr
    return 0

structure History (NPROC NCPU : ℕ) where
  /-- What each process is doing, or has done last. -/
  serving : Fin NPROC → Option Request
  /-- It has found that it is not killed, and goes to sleep next. -/
  dozing : Fin NPROC → Bool
  /-- The process whose `killed` a thread has set, and whose lock it still has to release. -/
  hitting : Ctx NPROC NCPU → Option (Fin NPROC)
  /-- A kill of the process is over, and `killed` has not been reset since. -/
  struck : Fin NPROC → Bool

/-- What the threads share. -/
abbrev Shared (NPROC NCPU : ℕ) := (World NPROC NCPU Site Empty × Pipe) × Dev

/-- The condition on which `pipewrite` sleeps. -/
def Full (pi : Pipe) : Prop := pi.nwrite = pi.nread + BitVec.ofNat 32 PIPESIZE

instance (pi : Pipe) : Decidable (Full pi) := inferInstanceAs (Decidable (_ = _))

/-- A process with this call, which finds now that it is not killed, goes to sleep next. -/
def Request.sleeps (req : Request) (pi : Pipe) : Bool :=
  req.interruptible && (!req.writes || decide (Full pi))

/-- After the test of `killed` that `p` makes now it goes to sleep. -/
def Dozes (s : Shared NPROC NCPU) (h : History NPROC NCPU) (p : Fin NPROC) : Prop :=
  s.1.1.lock (.proc p) = some (.proc p) ∧ (s.1.1.proc p).killed = false ∧
    ∃ req ∈ h.serving p, req.sleeps s.1.2 = true

instance (s : Shared NPROC NCPU) (h : History NPROC NCPU) (p : Fin NPROC) :
    Decidable (Dozes s h p) := inferInstanceAs (Decidable (_ ∧ _))

def note (t : Ctx NPROC NCPU) : Act NPROC Site Empty → Shared NPROC NCPU → History NPROC NCPU →
    History NPROC NCPU
  | .get q, s, h =>
    if t = .proc q ∧ Dozes s h q then { h with dozing := Function.update h.dozing q true } else h
  | .set q (.state .sleeping), _, h => { h with dozing := Function.update h.dozing q false }
  | .set q (.killed true), _, h => { h with hitting := Function.update h.hitting t (some q) }
  | .set q (.killed false), _, h => { h with struck := Function.update h.struck q false }
  | .release (.proc q), s, h =>
    if h.hitting t = some q then { h with
      hitting := Function.update h.hitting t none
      struck := Function.update h.struck q (s.1.1.proc q).killed }
    else h
  | _, _, h => h

def watch (t : Ctx NPROC NCPU) :
    (a : KAct NPROC) → KRes a → Shared NPROC NCPU → History NPROC NCPU → History NPROC NCPU
  | .inl (.inl a), _, s, h => note t a s h
  | _, _, _, h => h

abbrev State (NPROC NCPU : ℕ) := Shared NPROC NCPU × History NPROC NCPU

/-- The process begins something new. -/
def History.begin (h : History NPROC NCPU) (p : Fin NPROC) (req : Option Request) :
    History NPROC NCPU :=
  { h with
    serving := Function.update h.serving p req
    dozing := Function.update h.dozing p false
    hitting := Function.update h.hitting (.proc p) none }

/-- A new process starts; a process in user space makes a system call; a device interrupts. -/
inductive Enter : Ctx NPROC NCPU → State NPROC NCPU → KP NPROC ℤ → State NPROC NCPU →
    KP NPROC ℤ → Prop
  | start {p : Fin NPROC} {w : World NPROC NCPU Site Empty} {pi : Pipe} {d : Dev}
      {h : History NPROC NCPU} {rest : KP NPROC ℤ} (hf : w.fresh p = true)
      (hs : (w.proc p).state = .runnable) (hl : w.lock (.proc p) = none) :
      Enter (.proc p) (((w, pi), d), h) rest
        (((resume p { w with fresh := Function.update w.fresh p false }, pi), d), h.begin p none)
        (do low forkret; return 0)
  | call {p : Fin NPROC} {s : State NPROC NCPU} {v : ℤ} (req : Request)
      (hs : (s.1.1.1.proc p).state = .running) (hf : s.1.1.1.fresh p = false) :
      Enter (.proc p) s (.ret v) (s.1, s.2.begin p (some req)) (serve initproc req)
  | interrupt {c : Fin NCPU} {s : State NPROC NCPU} {v : ℤ} (i : Interrupt) :
      Enter (.sched c) s (.ret v) s (handle i)

def waits (NCPU : ℕ) : Sys (State NPROC NCPU) (Ctx NPROC NCPU) ((Bool × Bool × Byte) × Bool)
    (KAct NPROC) (Both (Both Res PRes) DRes) ℤ :=
  ((((world NPROC NCPU Site Empty).join pipeStep : Sys _ _ _ _ _ ℤ).join devStep :
    Sys _ _ _ _ _ ℤ).observe watch).reenter (Enter initproc)

/-- Some slots are taken by processes in user space with the pids and parents given; the pipe
and the devices are in any state. -/
def start (NCPU : ℕ) (live : Fin NPROC → Bool) (pid : Fin NPROC → ℤ)
    (parent : Fin NPROC → Option (Fin NPROC)) (nextpid : ℤ) (pi : Pipe) (d : Dev) :
    Pool (State NPROC NCPU) (Ctx NPROC NCPU) (KAct NPROC) (Both (Both Res PRes) DRes) ℤ where
  shared :=
    ((({ proc := fun p =>
          if live p then ⟨.running, none, false, 0, pid p, parent p⟩
          else ⟨.unused, none, false, 0, 0, none⟩
         lock := fun _ => none
         nextpid
         fresh := fun _ => false
         away := fun _ => false }, pi), d),
      ⟨fun _ => none, fun _ => false, fun _ => none, fun _ => false⟩)
  thread := fun _ => .ret 0

end Xv6.Ipc.Waits
