import Xv6.Sched.Table

/-!
The kernel's scheduling code as programs: `proc.c` and `sleeplock.c`.

What these functions call outside scheduling is left out, but for whether it fails: memory
(`kalloc`, `uvmcopy`, `copyout`), and in `kexit` the closing of files.
-/

namespace Xv6.Sched.Kernel

open Xv6.Conc Xv6.Conc.Prog Xv6.Sched.Table

variable {NPROC NCPU : ℕ} {ι κ : Type}

abbrev P (NPROC : ℕ) (ι κ : Type) := Prog (Act NPROC ι κ) Res

abbrev act (a : Act NPROC ι κ) : P NPROC ι κ (Res a) := perform a

def whenever (b : Prop) [Decidable b] (p : P NPROC ι κ Unit) : P NPROC ι κ Unit :=
  if b then p else return ()

def panic {α : Type} (msg : String) : P NPROC ι κ α := do
  let r ← act (.panic msg)
  return r.elim

/-- `myproc()` where the caller goes on to use the process. -/
def self : P NPROC ι κ (Fin NPROC) := do
  let o ← act .myproc
  match o with
  | some p => return p
  | none => panic "myproc"

/-! ### Switching -/

def sched : P NPROC ι κ Unit := do
  let p ← self
  let intena ← act (.checkSched p)
  act .swtchBack
  act (.setIntena intena)

def yield : P NPROC ι κ Unit := do
  let p ← self
  act (.acquire (.proc p))
  act (.set p (.state .runnable))
  sched
  act (.release (.proc p))

/-- The loop of `scheduler`, which holds in its local value the processes that this round has
still to visit. `found` only decides whether to wait for an interrupt, and is left out. -/
def scheduler : P NPROC ι κ Unit := do
  act (.setCpuProc none)
  iterate ([] : List (Fin NPROC)) fun
    | [] => do
      act .intrOn
      act .intrOff
      return .inl (List.finRange NPROC)
    | p :: ps => do
      act (.acquire (.proc p))
      let pr ← act (.get p)
      whenever (pr.state = .runnable) do
        act (.set p (.state .running))
        act (.setCpuProc (some p))
        act (.swtchTo p)
        act (.setCpuProc none)
      act (.release (.proc p))
      return .inl ps

/-- `forkret` of a process other than the first, then the return to user space. -/
def forkret : P NPROC ι κ Unit := do
  let p ← self
  act (.release (.proc p))
  act .intrOn

/-! ### Sleeping and waking -/

section Sleep

variable [DecidableEq ι] [DecidableEq κ]

def sleep (ch : Chan NPROC ι κ) (lk : Lock NPROC ι κ) : P NPROC ι κ Unit := do
  let p ← self
  act (.acquire (.proc p))
  act (.release lk)
  act (.set p (.chan (some ch)))
  act (.set p (.state .sleeping))
  sched
  act (.set p (.chan none))
  act (.release (.proc p))
  act (.acquire lk)

/-- One round of the loop of `wakeup`, for a process other than the caller. -/
def wakeOne (ch : Option (Chan NPROC ι κ)) (p : Fin NPROC) : P NPROC ι κ Unit := do
  act (.acquire (.proc p))
  let pr ← act (.get p)
  whenever (pr.state = .sleeping ∧ pr.chan = ch) (act (.set p (.state .runnable)))
  act (.release (.proc p))

/-- `wakeup`; the channel `none` is the null pointer. -/
def wakeup (ch : Option (Chan NPROC ι κ)) : P NPROC ι κ Unit :=
  iterate (List.finRange NPROC) fun
    | [] => return .inr ()
    | p :: ps => do
      let me ← act .myproc
      whenever (me ≠ some p) (wakeOne ch p)
      return .inl ps

def kkill (pid : ℤ) : P NPROC ι κ ℤ :=
  iterate (List.finRange NPROC) fun
    | [] => return .inr (-1)
    | p :: ps => do
      act (.acquire (.proc p))
      let pr ← act (.get p)
      if pr.pid = pid then
        act (.set p (.killed true))
        let pr' ← act (.get p)
        whenever (pr'.state = .sleeping) (act (.set p (.state .runnable)))
        act (.release (.proc p))
        return .inr 0
      else
        act (.release (.proc p))
        return .inl ps

def killed (p : Fin NPROC) : P NPROC ι κ Bool := do
  act (.acquire (.proc p))
  let pr ← act (.get p)
  act (.release (.proc p))
  return pr.killed

/-! ### Creating and ending processes -/

def allocpid : P NPROC ι κ ℤ := do
  act (.acquire .pid)
  let pid ← act .takePid
  act (.release .pid)
  return pid

def freeproc (p : Fin NPROC) : P NPROC ι κ Unit := do
  act (.set p (.pid 0))
  act (.set p (.parent none))
  act (.set p (.chan none))
  act (.set p (.killed false))
  act (.set p (.xstate 0))
  act (.set p (.state .unused))

/-- `allocproc` from the label `found`. -/
def found (p : Fin NPROC) : P NPROC ι κ (Option (Fin NPROC)) := do
  let pid ← allocpid
  act (.set p (.pid pid))
  act (.set p (.state .used))
  let noFrame ← act .fails
  if noFrame then
    freeproc p
    act (.release (.proc p))
    return none
  else
    let noTable ← act .fails
    if noTable then
      freeproc p
      act (.release (.proc p))
      return none
    else
      act (.initContext p)
      return some p

def allocproc : P NPROC ι κ (Option (Fin NPROC)) :=
  iterate (List.finRange NPROC) fun
    | [] => return .inr none
    | p :: ps => do
      act (.acquire (.proc p))
      let pr ← act (.get p)
      if pr.state = .unused then
        let r ← found p
        return .inr r
      else
        act (.release (.proc p))
        return .inl ps

def kfork : P NPROC ι κ ℤ := do
  let p ← self
  let o ← allocproc
  match o with
  | none => return -1
  | some np =>
    let noCopy ← act .fails
    if noCopy then
      freeproc np
      act (.release (.proc np))
      return -1
    else
      let pr ← act (.get np)
      act (.release (.proc np))
      act (.acquire .wait)
      act (.set np (.parent (some p)))
      act (.release .wait)
      act (.acquire (.proc np))
      act (.set np (.state .runnable))
      act (.release (.proc np))
      return pr.pid

variable (initproc : Fin NPROC)

def reparent (p : Fin NPROC) : P NPROC ι κ Unit :=
  iterate (List.finRange NPROC) fun
    | [] => return .inr ()
    | pp :: ps => do
      let pr ← act (.get pp)
      whenever (pr.parent = some p) do
        act (.set pp (.parent (some initproc)))
        wakeup (some (.proc initproc))
      return .inl ps

def kexit (status : ℤ) : P NPROC ι κ Unit := do
  let p ← self
  if p = initproc then panic "init exiting"
  else
    act (.acquire .wait)
    reparent initproc p
    let pr ← act (.get p)
    wakeup (pr.parent.map .proc)
    act (.acquire (.proc p))
    act (.set p (.xstate status))
    act (.set p (.state .zombie))
    act (.release .wait)
    sched
    panic "zombie exit"

/-- What `kwait` does with a child that has exited. `addr` says whether the exit status is to
be copied out. -/
def reap (addr : Bool) (pp : Fin NPROC) (pid : ℤ) : P NPROC ι κ ℤ := do
  let noCopy ← act .fails
  if addr && noCopy then
    act (.release (.proc pp))
    act (.release .wait)
    return -1
  else
    freeproc pp
    act (.release (.proc pp))
    act (.release .wait)
    return pid

/-- The scan of `kwait`: whether `p` has children, and the result if one has exited. -/
def scanKids (addr : Bool) (p : Fin NPROC) : P NPROC ι κ (Bool × Option ℤ) :=
  iterate (List.finRange NPROC, false) fun
    | ([], havekids) => return .inr (havekids, none)
    | (pp :: ps, havekids) => do
      let pr ← act (.get pp)
      if pr.parent = some p then
        act (.acquire (.proc pp))
        let pr' ← act (.get pp)
        if pr'.state = .zombie then
          let r ← reap addr pp pr'.pid
          return .inr (true, some r)
        else
          act (.release (.proc pp))
          return .inl (ps, true)
      else return .inl (ps, havekids)

def kwait (addr : Bool) : P NPROC ι κ ℤ := do
  let p ← self
  act (.acquire .wait)
  iterate () fun _ => do
    let scan ← scanKids addr p
    match scan with
    | (_, some r) => return .inr r
    | (false, none) =>
      act (.release .wait)
      return .inr (-1)
    | (true, none) =>
      let k ← killed p
      if k then
        act (.release .wait)
        return .inr (-1)
      else
        sleep (.proc p) .wait
        return .inl ()

/-! ### Conditions and sleeplocks -/

/-- A process that waits for a condition, and makes it false again if it `consume`s it. -/
def waiter (i : ι) (consume : Bool) : P NPROC ι κ Unit := do
  act (.acquire (.cond i))
  iterate () fun _ => do
    let holds ← act (.getCond i)
    if holds then return .inr ()
    else
      sleep (.cond i) (.cond i)
      return .inl ()
  whenever (consume = true) (act (.setCond i false))
  act (.release (.cond i))

/-- Whoever makes a condition true: a process, or a device interrupt. -/
def waker (i : ι) : P NPROC ι κ Unit := do
  act (.acquire (.cond i))
  act (.setCond i true)
  wakeup (some (.cond i))
  act (.release (.cond i))

def acquiresleep (j : κ) : P NPROC ι κ Unit := do
  act (.acquire (.slk j))
  iterate () fun _ => do
    let locked ← act (.getLocked j)
    if locked then
      sleep (.slk j) (.slk j)
      return .inl ()
    else return .inr ()
  act (.setLocked j true)
  let p ← self
  let pr ← act (.get p)
  act (.setLockPid j pr.pid)
  act (.release (.slk j))

def releasesleep (j : κ) : P NPROC ι κ Unit := do
  act (.acquire (.slk j))
  act (.setLocked j false)
  act (.setLockPid j 0)
  wakeup (some (.slk j))
  act (.release (.slk j))

/-! ### The system -/

/-- What a process does inside one system call. -/
inductive Cmd (ι κ : Type)
  | wait (i : ι) (consume : Bool)
  | wake (i : ι)
  | acquire (j : κ)
  | release (j : κ)
  | kill (pid : ℤ)
  | yield

def releaseAll : List κ → P NPROC ι κ Unit
  | [] => return ()
  | j :: held => do
    releasesleep j
    releaseAll held

/-- `held` are the sleeplocks that the process has taken; it releases no other, and all of
them in the end. -/
def runCmds : List (Cmd ι κ) → List κ → P NPROC ι κ Unit
  | [], held => releaseAll held
  | .wait i consume :: cs, held => do
    waiter i consume
    runCmds cs held
  | .wake i :: cs, held => do
    waker i
    runCmds cs held
  | .acquire j :: cs, held => do
    acquiresleep j
    runCmds cs (j :: held)
  | .release j :: cs, held =>
    if j ∈ held then do
      releasesleep j
      runCmds cs (held.erase j)
    else runCmds cs held
  | .kill pid :: cs, held => do
    let _ ← kkill pid
    runCmds cs held
  | .yield :: cs, held => do
    yield
    runCmds cs held

inductive Call (ι κ : Type)
  | cmds (cs : List (Cmd ι κ))
  | fork
  | exit (status : ℤ)
  | wait (addr : Bool)

def syscall : Call ι κ → P NPROC ι κ Unit
  | .cmds cs => runCmds cs []
  | .fork => do
    let _ ← kfork
    return ()
  | .exit status => kexit initproc status
  | .wait addr => do
    let _ ← kwait addr
    return ()

/-- An interrupt handler on top of what was interrupted. -/
def interrupted (handler rest : P NPROC ι κ Unit) : P NPROC ι κ Unit := do
  handler
  act .intrOn
  rest

/-- A new process starts; a process in user space makes a system call; a CPU that has
interrupts on is interrupted by a device or, if it executes a process, by the timer. -/
inductive Enter : Ctx NPROC NCPU → St NPROC NCPU ι κ → P NPROC ι κ Unit →
    St NPROC NCPU ι κ → P NPROC ι κ Unit → Prop
  | start {p : Fin NPROC} {s : St NPROC NCPU ι κ} {rest : P NPROC ι κ Unit}
      (h : s.fresh p = true) :
      Enter (.proc p) s rest { s with fresh := Function.update s.fresh p false } forkret
  | call {p : Fin NPROC} {s : St NPROC NCPU ι κ} (c : Fin NCPU)
      (h : (s.cpu c).running = .proc p) (hs : s.fresh p = false) (k : Call ι κ) :
      Enter (.proc p) s (.ret ()) s (syscall initproc k)
  | device {t : Ctx NPROC NCPU} {s : St NPROC NCPU ι κ} {rest : P NPROC ι κ Unit} (c : Fin NCPU)
      (h : (s.cpu c).running = t) (hs : Started s t) (hi : (s.cpu c).intr = true) (i : ι) :
      Enter t s rest (setCpu c { s.cpu c with intr := false } s) (interrupted (waker i) rest)
  | timer {p : Fin NPROC} {s : St NPROC NCPU ι κ} {rest : P NPROC ι κ Unit} (c : Fin NCPU)
      (h : (s.cpu c).running = .proc p) (hs : s.fresh p = false) (hi : (s.cpu c).intr = true) :
      Enter (.proc p) s rest (setCpu c { s.cpu c with intr := false } s) (interrupted yield rest)

def sys (NCPU : ℕ) : Sys (St NPROC NCPU ι κ) (Ctx NPROC NCPU) (Fin NCPU × Bool) (Act NPROC ι κ)
    Res Unit where
  sem := sem
  enter := Enter initproc

/-- After `userinit`: the first process is ready to start, every CPU enters `scheduler`. -/
def boot (NCPU : ℕ) (cond : ι → Bool) :
    Pool (St NPROC NCPU ι κ) (Ctx NPROC NCPU) (Act NPROC ι κ) Res Unit where
  shared :=
    { proc := fun p =>
        if p = initproc then ⟨.runnable, none, false, 0, 1, none⟩
        else ⟨.unused, none, false, 0, 0, none⟩
      cpu := fun c => ⟨none, 0, false, false, .sched c⟩
      lock := fun _ => none
      nextpid := 2
      fresh := fun p => p = initproc
      cond
      slk := fun _ => ⟨false, 0⟩
      holders := fun _ => [] }
  thread := fun
    | .sched _ => scheduler
    | .proc _ => .ret ()

/-! ### Runs by hand -/

/-- What may happen next: thread `t` takes `n` steps on CPU `k`, a process starts, or it makes
a system call. -/
inductive Event (NPROC NCPU : ℕ) (ι κ : Type)
  | run (t : Ctx NPROC NCPU) (k : Fin NCPU) (n : ℕ)
  | start (p : Fin NPROC)
  | call (p : Fin NPROC) (c : Fin NCPU) (k : Call ι κ)

def Event.occur (initproc : Fin NPROC)
    (c : Pool (St NPROC NCPU ι κ) (Ctx NPROC NCPU) (Act NPROC ι κ) Res Unit) :
    Event NPROC NCPU ι κ →
      Option (Pool (St NPROC NCPU ι κ) (Ctx NPROC NCPU) (Act NPROC ι κ) Res Unit)
  | .run t k n => schedule (sys initproc NCPU) [(t, (k, false), n)] c
  | .start p =>
    if c.shared.fresh p = true then
      some ⟨{ c.shared with fresh := Function.update c.shared.fresh p false },
        Function.update c.thread (.proc p) forkret⟩
    else none
  | .call p c' k =>
    match c.thread (.proc p) with
    | .ret _ =>
      if (c.shared.cpu c').running = .proc p ∧ c.shared.fresh p = false then
        some ⟨c.shared, Function.update c.thread (.proc p) (syscall initproc k)⟩
      else none
    | _ => none

def occurAll (initproc : Fin NPROC) : List (Event NPROC NCPU ι κ) →
    Pool (St NPROC NCPU ι κ) (Ctx NPROC NCPU) (Act NPROC ι κ) Res Unit →
    Option (Pool (St NPROC NCPU ι κ) (Ctx NPROC NCPU) (Act NPROC ι κ) Res Unit)
  | [], c => some c
  | e :: es, c =>
    match e.occur initproc c with
    | some c' => occurAll initproc es c'
    | none => none

variable {c c' : Pool (St NPROC NCPU ι κ) (Ctx NPROC NCPU) (Act NPROC ι κ) Res Unit}

lemma reach_of_occur {e : Event NPROC NCPU ι κ} (h : e.occur initproc c = some c') :
    Reach (sys initproc NCPU) c c' := by
  cases e with
  | run t k n => exact reach_of_schedule h
  | start p =>
    simp only [Event.occur] at h
    split_ifs at h with hf
    cases h
    exact .single (.enter (Ctx.proc p) (Enter.start hf))
  | call p c₁ k =>
    simp only [Event.occur] at h
    split at h
    · rename_i _ hret
      split_ifs at h with hc
      cases h
      exact .single (.enter (Ctx.proc p) (by rw [hret]; exact Enter.call c₁ hc.1 hc.2 k))
    · cases h

/-- A run from `c` by the events listed, with what `f` shows in the end. -/
lemma exists_of_events {β : Type}
    (c : Pool (St NPROC NCPU ι κ) (Ctx NPROC NCPU) (Act NPROC ι κ) Res Unit)
    (f : Pool (St NPROC NCPU ι κ) (Ctx NPROC NCPU) (Act NPROC ι κ) Res Unit → β)
    (es : List (Event NPROC NCPU ι κ)) {b : β}
    (h : (occurAll initproc es c).map f = some b) :
    ∃ c', Reach (sys initproc NCPU) c c' ∧ f c' = b := by
  induction es generalizing c with
  | nil => exact ⟨c, .refl, by simpa [occurAll] using h⟩
  | cons e es ih =>
    rw [occurAll] at h
    cases he : e.occur initproc c with
    | none => simp [he] at h
    | some c₁ =>
      rw [he] at h
      obtain ⟨c', hr, hf⟩ := ih c₁ h
      exact ⟨c', (reach_of_occur initproc he).trans hr, hf⟩

end Sleep

end Xv6.Sched.Kernel
