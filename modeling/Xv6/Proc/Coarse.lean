import Xv6.Conc.Join
import Xv6.Sched.Calls

/-!
Processes without the scheduler. The programs are those of `Sched.Kernel`, but a process has a
CPU whenever it can use one: in `sched` it goes away, its lock is released, and it is back as
soon as it is `RUNNABLE` and its lock is free. Spinlocks are held by threads.

An interrupt handler has a thread of its own, the one of a CPU that is idle. A handler that
interrupts a process does nothing else: `wakeup` passes over the process it interrupts, but
that process is not asleep.
-/

namespace Xv6.Proc.Coarse

open Xv6.Conc Xv6.Conc.Prog Xv6.Sched.Table

variable {NPROC NCPU : ℕ} {ι κ : Type}

structure World (NPROC NCPU : ℕ) (ι κ : Type) where
  proc : Fin NPROC → Proc NPROC ι κ
  /-- The thread that holds each lock. -/
  lock : Lock NPROC ι κ → Option (Ctx NPROC NCPU)
  nextpid : ℤ
  /-- `p->context` is set to start at `forkret`, and has not started yet. -/
  fresh : Fin NPROC → Bool
  /-- The process is in `sched`, and its CPU has gone on to something else. -/
  away : Fin NPROC → Bool

section Semantics

variable [DecidableEq ι] [DecidableEq κ]

def setProc (p : Fin NPROC) (v : Proc NPROC ι κ) (w : World NPROC NCPU ι κ) : World NPROC NCPU ι κ :=
  { w with proc := Function.update w.proc p v }

def setLock (l : Lock NPROC ι κ) (o : Option (Ctx NPROC NCPU)) (w : World NPROC NCPU ι κ) :
    World NPROC NCPU ι κ :=
  { w with lock := Function.update w.lock l o }

/-- The scheduler takes the lock of `p`, finds it `RUNNABLE` and switches to it. -/
def resume (p : Fin NPROC) (w : World NPROC NCPU ι κ) : World NPROC NCPU ι κ :=
  setLock (.proc p) (some (.proc p)) (setProc p { w.proc p with state := .running }
    { w with away := Function.update w.away p false })

/-- The switch back, and the release of the lock by the scheduler, which panics if the process
does not hold it. -/
def leave (p : Fin NPROC) (w : World NPROC NCPU ι κ) : World NPROC NCPU ι κ :=
  setLock (.proc p) none { w with away := Function.update w.away p true }

/-- What a thread makes of an action while a CPU executes it; `fail` is the environment's
choice. Conditions and sleeplocks are not part of this level, nor is what only the scheduler
does. -/
def step (t : Ctx NPROC NCPU) (fail : Bool) : (a : Act NPROC ι κ) → World NPROC NCPU ι κ →
    Option (Outcome (World NPROC NCPU ι κ) (Res a))
  | .acquire l, w =>
    if w.lock l = some t then some (.panic "acquire")
    else if w.lock l ≠ none then none
    else some (.ok (setLock l (some t) w) ())
  | .release l, w =>
    if w.lock l ≠ some t then some (.panic "release") else some (.ok (setLock l none w) ())
  | .myproc, w => some (.ok w (match t with | .proc p => some p | .sched _ => none))
  | .intrOn, w | .intrOff, w => some (.ok w ())
  | .get p, w => some (.ok w (w.proc p))
  | .set p f, w => some (.ok (setProc p (f.write (w.proc p)) w) ())
  | .initContext p, w => some (.ok { w with fresh := Function.update w.fresh p true } ())
  | .checkSched p, w =>
    if w.lock (.proc p) ≠ some t then some (.panic "sched p->lock")
    else if (w.proc p).state = .running then some (.panic "sched RUNNING")
    else some (.ok w fail)
  | .setIntena _, w => some (.ok w ())
  | .swtchBack, w => match t with
    | .proc p =>
      if w.lock (.proc p) ≠ some (.proc p) then some (.panic "release")
      else some (.ok (leave p w) ())
    | .sched _ => none
  | .takePid, w => some (.ok { w with nextpid := w.nextpid + 1 } w.nextpid)
  | .fails, w => some (.ok w fail)
  | .panic msg, _ => some (.panic msg)
  | .swtchTo _, _ | .setCpuProc _, _ | .getCond _, _ | .setCond _ _, _ | .getLocked _, _
  | .setLocked _ _, _ | .setLockPid _ _, _ => none

/-- The state in which a thread acts: a process that is away must be back first, on the stack
that it left. -/
def back (t : Ctx NPROC NCPU) (w : World NPROC NCPU ι κ) : Option (World NPROC NCPU ι κ) :=
  match t with
  | .sched _ => some w
  | .proc p =>
    if w.away p then
      if (w.proc p).state = .runnable ∧ w.lock (.proc p) = none ∧ w.fresh p = false then
        some (resume p w)
      else none
    else some w

def sem (t : Ctx NPROC NCPU) (a : Act NPROC ι κ) (fail : Bool) (w : World NPROC NCPU ι κ) :
    Option (Outcome (World NPROC NCPU ι κ) (Res a)) :=
  (back t w).bind (step t fail a)

def world (NPROC NCPU : ℕ) (ι κ : Type) [DecidableEq ι] [DecidableEq κ] :
    Sys (World NPROC NCPU ι κ) (Ctx NPROC NCPU) Bool (Act NPROC ι κ) Res ℤ where
  sem := sem
  enter _ _ _ _ _ := False

end Semantics

/-- The devices that a process may wait for, by their spinlock or their channel: `pi->lock`,
`&pi->nread`, `&pi->nwrite`, `cons.lock` and `&cons.r`, `tickslock` and `&ticks`. -/
inductive Site | pipe | nread | nwrite | cons | ticks
  deriving DecidableEq

/-! ### What a step changes -/

section Frame

variable [DecidableEq ι] [DecidableEq κ] {t u : Ctx NPROC NCPU} {fail : Bool} {a : Act NPROC ι κ}
  {r : Res a} {w w' : World NPROC NCPU ι κ} {l : Lock NPROC ι κ} {p : Fin NPROC}

/-- The thread is not in `sched`. -/
def Here (t : Ctx NPROC NCPU) (w : World NPROC NCPU ι κ) : Prop := ∀ p, t = .proc p → w.away p = false

lemma back_of_here (h : Here t w) : back t w = some w := by
  cases t with
  | sched c => rfl
  | proc p => simp [back, h p rfl]

lemma sem_of_here (h : Here t w) : sem t a fail w = step t fail a w := by
  simp [sem, back_of_here h]

lemma back_cases (h : back t w = some w') : w' = w ∧ Here t w ∨
    ∃ p, t = .proc p ∧ w.away p = true ∧ (w.proc p).state = .runnable ∧
      w.lock (.proc p) = none ∧ w.fresh p = false ∧ w' = resume p w := by
  cases t with
  | sched c =>
    cases h
    exact .inl ⟨rfl, fun p hp => by cases hp⟩
  | proc p =>
    simp only [back] at h
    split_ifs at h with ha hr
    · cases h
      exact .inr ⟨p, rfl, ha, hr.1, hr.2.1, hr.2.2, rfl⟩
    · cases h
      exact .inl ⟨rfl, fun q hq => by cases hq; simpa using ha⟩

lemma sem_cases {o : Outcome (World NPROC NCPU ι κ) (Res a)} (h : sem t a fail w = some o) :
    ∃ w₁, back t w = some w₁ ∧ step t fail a w₁ = some o :=
  Option.bind_eq_some_iff.mp h

/-- A lock is lost by its holder only: by its release, or in `sched`. -/
lemma lock_step (h : step t fail a w = some (.ok w' r)) (hl : w.lock l = some u)
    (hu : u ≠ t ∨ a ≠ .release l ∧ ∀ p, l = .proc p → a ≠ .swtchBack) : w'.lock l = some u := by
  cases a with
  | acquire l' =>
    simp only [step] at h
    split_ifs at h with h1 h2 <;> cases h
    have hne : l ≠ l' := by
      rintro rfl
      simp [hl] at h2
    simpa [setLock, hne] using hl
  | release l' =>
    simp only [step] at h
    split_ifs at h with h1 <;> cases h
    have hne : l ≠ l' := by
      rintro rfl
      rcases hu with hu | hu
      · simp only [ne_eq, Decidable.not_not] at h1
        rw [hl] at h1
        cases h1
        exact hu rfl
      · exact hu.1 rfl
    simpa [setLock, hne] using hl
  | swtchBack =>
    cases t with
    | sched c => cases h
    | proc p =>
      simp only [step] at h
      split_ifs at h with h1 <;> cases h
      have hne : l ≠ .proc p := by
        rintro rfl
        simp only [ne_eq, Decidable.not_not] at h1
        rw [hl] at h1
        cases h1
        exact (hu.resolve_left fun h => h rfl).2 p rfl rfl
      simpa [leave, setLock, hne] using hl
  | checkSched p =>
    simp only [step] at h
    split_ifs at h <;> cases h
    exact hl
  | swtchTo _ | setCpuProc _ | getCond _ | setCond _ _ | getLocked _ | setLocked _ _
  | setLockPid _ _ | panic _ => cases h
  | _ => cases h; exact hl

lemma acquire_ok {u : Unit} (h : step t fail (.acquire l) w = some (.ok w' u)) :
    w.lock l = none ∧ w' = setLock l (some t) w := by
  simp only [step] at h
  split_ifs at h with h1 h2 <;> cases h
  exact ⟨by simpa using h2, rfl⟩

lemma release_ok {u : Unit} (h : step t fail (.release l) w = some (.ok w' u)) :
    w.lock l = some t ∧ w' = setLock l none w := by
  simp only [step] at h
  split_ifs at h with h1 <;> cases h
  exact ⟨by simpa using h1, rfl⟩

lemma leave_ok {u : Unit} (h : step (.proc p) fail .swtchBack w = some (.ok w' u)) :
    w.lock (.proc p) = some (.proc p) ∧ w' = leave p w := by
  simp only [step] at h
  split_ifs at h with h1 <;> cases h
  exact ⟨by simpa using h1, rfl⟩

/-- A process is as it was, or it is assigned to. -/
lemma proc_step (h : step t fail a w = some (.ok w' r)) (p : Fin NPROC) : w'.proc p = w.proc p ∨
    ∃ f, a = .set p f ∧ w'.proc p = f.write (w.proc p) := by
  cases a with
  | acquire l | release l | checkSched q =>
    simp only [step] at h
    split_ifs at h <;> cases h
    exact .inl rfl
  | swtchBack =>
    cases t with
    | sched c => cases h
    | proc q =>
      obtain ⟨-, rfl⟩ := leave_ok h
      exact .inl rfl
  | set q f =>
    cases h
    by_cases hp : p = q
    · subst hp
      exact .inr ⟨f, rfl, by simp [setProc]⟩
    · exact .inl (by simp [setProc, hp])
  | swtchTo _ | setCpuProc _ | getCond _ | setCond _ _ | getLocked _ | setLocked _ _
  | setLockPid _ _ | panic _ => cases h
  | _ => cases h; exact .inl rfl

lemma step_frame (h : step t fail a w = some (.ok w' r)) (hs : ∀ q f, a ≠ .set q f)
    (hb : a ≠ .swtchBack) : w'.proc = w.proc ∧ w'.away = w.away := by
  cases a with
  | acquire l | release l | checkSched p =>
    simp only [step] at h
    split_ifs at h <;> cases h
    exact ⟨rfl, rfl⟩
  | set q f => exact absurd rfl (hs q f)
  | swtchBack => exact absurd rfl hb
  | swtchTo _ | setCpuProc _ | getCond _ | setCond _ _ | getLocked _ | setLocked _ _
  | setLockPid _ _ | panic _ => cases h
  | _ => cases h; exact ⟨rfl, rfl⟩

end Frame

end Xv6.Proc.Coarse
