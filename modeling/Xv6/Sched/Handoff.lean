import Xv6.Conc.Proto
import Xv6.Sched.Kernel

/-!
How `p->lock` is handed over between a process and the scheduler.

A process that gives up its CPU acquires its lock, changes its state and switches; the
scheduler on the other side releases the lock. Between the two the lock speaks for the
process: whoever holds it and finds a state other than `RUNNING` knows that no CPU executes
that process.
-/

namespace Xv6.Sched.Handoff

open Xv6.Conc Xv6.Conc.Prog Xv6.Conc.Proto Xv6.Sched.Table Xv6.Sched.Kernel

variable {NPROC NCPU : ℕ} {ι κ : Type}

/-- Where a thread is in the handing over. `doze ch b`: in `sleep`, once the condition lock is
released; `b` says that `p->chan` is set. `leave st`: the state is changed, `swtch` is next.
`saved b`: switched out, for good if `b`. The scheduler has `picked` a process when it has
made it `RUNNING`, `aimed` at it when `c->proc` is set, and is `away` when it has switched. -/
inductive Mode (NPROC : ℕ) (ι κ : Type)
  | run
  | doze (ch : Chan NPROC ι κ) (b : Bool)
  | leave (st : PState)
  | saved (final : Bool)
  | picked (p : Fin NPROC)
  | aimed (p : Fin NPROC)
  | away (p : Fin NPROC)

/-- The thread waits to be switched back to. -/
def Mode.parked : Mode NPROC ι κ → Bool
  | .saved _ | .away _ => true
  | _ => false

/-- What is known of a thread. -/
structure Ghost (NPROC : ℕ) (ι κ : Type) where
  locks : List (Lock NPROC ι κ)
  mode : Mode NPROC ι κ
  /-- The state and channel it has read of a process whose lock it holds. -/
  seen : Option (Fin NPROC × PState × Option (Chan NPROC ι κ))
  /-- The condition it has tested under its lock, and the outcome. -/
  tested : Option (Chan NPROC ι κ × Bool)
  /-- It has made a condition true, and has still to visit these processes. -/
  scan : Option (Chan NPROC ι κ × List (Fin NPROC))
  /-- The process it is creating, and whether its context is set. -/
  owns : Option (Fin NPROC × Bool)
  /-- The sleeplocks it has taken. -/
  slocks : List κ

def lockOf : Chan NPROC ι κ → Lock NPROC ι κ
  | .proc _ => .wait
  | .cond i => .cond i
  | .slk j => .slk j

/-! ### Views of the state -/

section Views

variable (s : St NPROC NCPU ι κ)

def running (c : Fin NCPU) : Ctx NPROC NCPU := (s.cpu c).running
def cproc (c : Fin NCPU) : Option (Fin NPROC) := (s.cpu c).proc
def noff (c : Fin NCPU) : ℕ := (s.cpu c).noff
def intr (c : Fin NCPU) : Bool := (s.cpu c).intr
def state (p : Fin NPROC) : PState := (s.proc p).state
def chan (p : Fin NPROC) : Option (Chan NPROC ι κ) := (s.proc p).chan

/-- The condition of a channel; for `kwait` none is claimed. -/
def ready : Chan NPROC ι κ → Bool
  | .proc _ => false
  | .cond i => s.cond i
  | .slk j => !(s.slk j).locked

end Views

/-! ### Locks and CPUs -/

section Cpus

variable {run : Fin NCPU → Ctx NPROC NCPU} {lock : Lock NPROC ι κ → Option (Fin NCPU)}
  {off : Fin NCPU → ℕ} {int : Fin NCPU → Bool} {locks : Ctx NPROC NCPU → List (Lock NPROC ι κ)}

/-- Every CPU executes a thread of its own and holds the locks of that thread. -/
structure Cpus (run : Fin NCPU → Ctx NPROC NCPU) (lock : Lock NPROC ι κ → Option (Fin NCPU))
    (off : Fin NCPU → ℕ) (int : Fin NCPU → Bool)
    (locks : Ctx NPROC NCPU → List (Lock NPROC ι κ)) : Prop where
  home : ∀ c c', run c = .sched c' → c' = c
  inj : Function.Injective run
  held : ∀ c l, lock l = some c ↔ l ∈ locks (run c)
  nodup : ∀ c, (locks (run c)).Nodup
  off : ∀ c, off c = (locks (run c)).length
  intr : ∀ c, int c = true → locks (run c) = []

variable {c c' : Fin NCPU} {l : Lock NPROC ι κ}

/-- Two threads that CPUs execute share no lock. -/
lemma Cpus.excl (h : Cpus run lock off int locks) (hl : l ∈ locks (run c))
    (hl' : l ∈ locks (run c')) : c = c' := by
  have h1 := (h.held c l).mpr hl
  have h2 := (h.held c' l).mpr hl'
  exact Option.some.inj (h1.symm.trans h2)

/-- Interrupts may be turned off at any time, and on where no lock is held. -/
lemma Cpus.setIntr (h : Cpus run lock off int locks) {b : Bool}
    (hb : b = true → locks (run c) = []) :
    Cpus run lock off (Function.update int c b) locks := by
  refine ⟨h.home, h.inj, h.held, h.nodup, h.off, fun c' hc' => ?_⟩
  by_cases hc : c' = c
  · subst hc; exact hb (by simpa using hc')
  · exact h.intr c' (by simpa [hc] using hc')

/-- `swtch` to a thread that takes over the locks of the CPU. -/
lemma Cpus.swtch (h : Cpus run lock off int locks) {t : Ctx NPROC NCPU}
    (hhome : ∀ c', t = .sched c' → c' = c) (hfree : ∀ c', c' ≠ c → run c' ≠ t)
    (hlocks : locks t = locks (run c)) :
    Cpus (Function.update run c t) lock off int locks := by
  have hrun : ∀ c', locks (Function.update run c t c') = locks (run c') := fun c' => by
    by_cases hc : c' = c
    · subst hc; simpa using hlocks
    · simp [hc]
  refine ⟨fun c' c'' hc' => ?_, fun c1 c2 he => ?_, fun c' l' => ?_, fun c' => ?_, fun c' => ?_,
    fun c' hc' => ?_⟩
  · by_cases hc : c' = c
    · subst hc; exact hhome c'' (by simpa using hc')
    · exact h.home c' c'' (by simpa [hc] using hc')
  · by_cases h1 : c1 = c <;> by_cases h2 : c2 = c
    · rw [h1, h2]
    · subst h1; exact absurd (by simpa [h2] using he.symm) (hfree c2 h2)
    · subst h2; exact absurd (by simpa [h1] using he) (hfree c1 h1)
    · exact h.inj (by simpa [h1, h2] using he)
  · rw [hrun]; exact h.held c' l'
  · rw [hrun]; exact h.nodup c'
  · rw [hrun]; exact h.off c'
  · rw [hrun]; exact h.intr c' hc'

variable [DecidableEq ι] [DecidableEq κ]

lemma Cpus.acquire (h : Cpus run lock off int locks) (hl : lock l = none) :
    Cpus run (Function.update lock l (some c)) (Function.update off c (off c + 1))
      (Function.update int c false) (Function.update locks (run c) (l :: locks (run c))) := by
  have hout : ∀ c', l ∉ locks (run c') := fun c' hmem => by
    rw [← h.held, hl] at hmem
    cases hmem
  have hne : ∀ c', c' ≠ c → run c' ≠ run c := fun c' hc he => hc (h.inj he)
  refine ⟨h.home, h.inj, fun c' l' => ?_, fun c' => ?_, fun c' => ?_, fun c' hc' => ?_⟩
  · by_cases hc : c' = c
    · subst hc
      by_cases hll : l' = l
      · subst hll; simp
      · simp [hll, h.held]
    · rw [Function.update_of_ne (hne c' hc)]
      by_cases hll : l' = l
      · subst hll; simp [hout, Ne.symm hc]
      · simp [hll, h.held]
  · by_cases hc : c' = c
    · subst hc; simpa using ⟨hout c', h.nodup c'⟩
    · rw [Function.update_of_ne (hne c' hc)]; exact h.nodup c'
  · by_cases hc : c' = c
    · subst hc; simp [h.off]
    · rw [Function.update_of_ne (hne c' hc), Function.update_of_ne hc]; exact h.off c'
  · by_cases hc : c' = c
    · subst hc; simp at hc'
    · rw [Function.update_of_ne hc] at hc'
      rw [Function.update_of_ne (hne c' hc)]; exact h.intr c' hc'

/-- `pop_off` may turn interrupts on only when no lock is left. -/
lemma Cpus.release (h : Cpus run lock off int locks) (hl : l ∈ locks (run c)) (b : Bool) :
    Cpus run (Function.update lock l none) (Function.update off c (off c - 1))
      (Function.update int c (if off c - 1 = 0 ∧ b = true then true else int c))
      (Function.update locks (run c) ((locks (run c)).erase l)) := by
  have hlock := (h.held c l).mpr hl
  have hlen := List.length_erase_of_mem hl
  have hne : ∀ c', c' ≠ c → run c' ≠ run c := fun c' hc he => hc (h.inj he)
  refine ⟨h.home, h.inj, fun c' l' => ?_, fun c' => ?_, fun c' => ?_, fun c' hc' => ?_⟩
  · by_cases hc : c' = c
    · subst hc
      by_cases hll : l' = l
      · subst hll; simp [(h.nodup c').mem_erase_iff]
      · simp [hll, h.held, (h.nodup c').mem_erase_iff]
    · rw [Function.update_of_ne (hne c' hc)]
      by_cases hll : l' = l
      · subst hll
        simp only [Function.update_self]
        exact iff_of_false (by simp) fun hmem => hc (h.excl hmem hl)
      · simp [hll, h.held]
  · by_cases hc : c' = c
    · subst hc; simpa using (h.nodup c').erase l
    · rw [Function.update_of_ne (hne c' hc)]; exact h.nodup c'
  · by_cases hc : c' = c
    · subst hc; simp [h.off, hlen]
    · rw [Function.update_of_ne (hne c' hc), Function.update_of_ne hc]; exact h.off c'
  · by_cases hc : c' = c
    · subst hc
      simp only [Function.update_self] at hc' ⊢
      split_ifs at hc' with hz
      · refine List.length_eq_zero_iff.mp ?_
        rw [hlen, ← h.off]
        exact hz.1
      · rw [h.intr c' hc'] at hl
        cases hl
    · rw [Function.update_of_ne hc] at hc'
      rw [Function.update_of_ne (hne c' hc)]; exact h.intr c' hc'

end Cpus

/-! ### Processes and their threads -/

section Disp

variable {run : Fin NCPU → Ctx NPROC NCPU} {cp : Fin NCPU → Option (Fin NPROC)}
  {st : Fin NPROC → PState} {fresh : Fin NPROC → Bool} {mode : Ctx NPROC NCPU → Mode NPROC ι κ}
  {c : Fin NCPU} {p : Fin NPROC}

/-- What `c->proc` is while `c` executes its scheduler. -/
def target : Mode NPROC ι κ → Option (Fin NPROC)
  | .aimed p | .away p => some p
  | _ => none

/-- The state of a process whose thread a CPU executes. -/
def Running (st : PState) (fresh : Bool) : Mode NPROC ι κ → Prop
  | .run | .doze _ _ => st = .running ∧ fresh = false
  | .leave st' => st = st' ∧ st' ≠ .running ∧ fresh = false
  | .saved final => st = .running ∧ (fresh = true ∨ final = false)
  | _ => False

/-- The thread goes on, from `forkret` or from its saved context, once it is switched to. -/
def Startable (fresh : Fin NPROC → Bool) (mode : Ctx NPROC NCPU → Mode NPROC ι κ)
    (p : Fin NPROC) : Prop :=
  fresh p = true ∨ mode (.proc p) = .saved false

/-- The scheduler of some CPU is about to switch to `p`. -/
def Chosen (mode : Ctx NPROC NCPU → Mode NPROC ι κ) (c : Fin NCPU) (p : Fin NPROC) : Prop :=
  mode (.sched c) = .picked p ∨ mode (.sched c) = .aimed p

/-- The states of processes agree with what the CPUs execute. -/
structure Disp (run : Fin NCPU → Ctx NPROC NCPU) (cp : Fin NCPU → Option (Fin NPROC))
    (st : Fin NPROC → PState) (fresh : Fin NPROC → Bool)
    (mode : Ctx NPROC NCPU → Mode NPROC ι κ) : Prop where
  cproc : ∀ c p, run c = .proc p → cp c = some p
  cprocSched : ∀ c, run c = .sched c → cp c = target (mode (.sched c))
  away : ∀ c p, run c = .proc p → mode (.sched c) = .away p
  onCpu : ∀ p, (∀ c, run c ≠ .proc p) → ∃ b, mode (.proc p) = .saved b
  unstarted : ∀ p, fresh p = true → ∃ b, mode (.proc p) = .saved b
  running : ∀ c p, run c = .proc p → Running (st p) (fresh p) (mode (.proc p))
  resting : ∀ p, (∀ c, run c ≠ .proc p) → st p = .running → ∃ c, Chosen mode c p
  ready : ∀ p, (∀ c, run c ≠ .proc p) → st p = .runnable ∨ st p = .sleeping →
    Startable fresh mode p
  chosen : ∀ c p, Chosen mode c p →
    (∀ c', run c' ≠ .proc p) ∧ st p = .running ∧ Startable fresh mode p

lemma startable_update_sched {m : Mode NPROC ι κ} :
    Startable fresh (Function.update mode (.sched c) m) p ↔ Startable fresh mode p := by
  simp [Startable]

/-- The state of a process that no CPU executes or is about to execute changes. -/
lemma Disp.setState (h : Disp run cp st fresh mode) (hoff : ∀ c, run c ≠ .proc p)
    (hst : st p ≠ .running) {a : PState} (ha : a ≠ .running)
    (hready : a = .runnable ∨ a = .sleeping → Startable fresh mode p) :
    Disp run cp (Function.update st p a) fresh mode := by
  refine ⟨h.cproc, h.cprocSched, h.away, h.onCpu, h.unstarted, fun c q hc => ?_, fun q hq hr => ?_,
    fun q hq hr => ?_, fun c q hc => ?_⟩
  · have hqp : q ≠ p := by rintro rfl; exact hoff c hc
    rw [Function.update_of_ne hqp]; exact h.running c q hc
  · by_cases hqp : q = p
    · subst hqp; exact absurd (by simpa using hr) ha
    · exact h.resting q hq (by simpa [hqp] using hr)
  · by_cases hqp : q = p
    · subst hqp; exact hready (by simpa using hr)
    · exact h.ready q hq (by simpa [hqp] using hr)
  · obtain ⟨h1, h2, h3⟩ := h.chosen c q hc
    have hqp : q ≠ p := by rintro rfl; exact hst h2
    exact ⟨h1, by rwa [Function.update_of_ne hqp], h3⟩

/-- A running process changes its own state, or what it is about to do. -/
lemma Disp.setOwn (h : Disp run cp st fresh mode) (hc : run c = .proc p)
    {m : Mode NPROC ι κ} {a : PState} (hm : Running a (fresh p) m) (hf : fresh p = false) :
    Disp run cp (Function.update st p a) fresh (Function.update mode (.proc p) m) := by
  have hsched : ∀ c', Function.update mode (.proc p) m (.sched c') = mode (.sched c') :=
    fun c' => by simp
  have hstart : ∀ q, q ≠ p → (Startable fresh (Function.update mode (.proc p) m) q ↔
      Startable fresh mode q) := fun q hq => by simp [Startable, hq]
  refine ⟨h.cproc, fun c' hc' => ?_, fun c' q hc' => ?_, fun q hq => ?_, fun q hq => ?_,
    fun c' q hc' => ?_, fun q hq hr => ?_, fun q hq hr => ?_, fun c' q hc' => ?_⟩
  · rw [hsched]; exact h.cprocSched c' hc'
  · rw [hsched]; exact h.away c' q hc'
  · have hqp : q ≠ p := by rintro rfl; exact hq c hc
    simpa [hqp] using h.onCpu q hq
  · have hqp : q ≠ p := by rintro rfl; simp [hf] at hq
    simpa [hqp] using h.unstarted q hq
  · by_cases hqp : q = p
    · subst hqp; simpa using hm
    · simpa [hqp] using h.running c' q hc'
  · have hqp : q ≠ p := by rintro rfl; exact hq c hc
    obtain ⟨c', hch⟩ := h.resting q hq (by simpa [hqp] using hr)
    exact ⟨c', by simpa [Chosen, hsched] using hch⟩
  · have hqp : q ≠ p := by rintro rfl; exact hq c hc
    exact (hstart q hqp).mpr (h.ready q hq (by simpa [hqp] using hr))
  · obtain ⟨h1, h2, h3⟩ := h.chosen c' q (by simpa [Chosen, hsched] using hc')
    have hqp : q ≠ p := by rintro rfl; exact h1 c hc
    exact ⟨h1, by rwa [Function.update_of_ne hqp], (hstart q hqp).mpr h3⟩

/-- A scheduler makes a process that waits to run `RUNNING`. -/
lemma Disp.pick (h : Disp run cp st fresh mode) (hc : run c = .sched c)
    (hm : mode (.sched c) = .run) (hoff : ∀ c', run c' ≠ .proc p) (hst : st p = .runnable) :
    Disp run cp (Function.update st p .running) fresh
      (Function.update mode (.sched c) (.picked p)) := by
  have hstart := h.ready p hoff (.inl hst)
  have hchosen : ∀ c' q, Chosen (Function.update mode (.sched c) (.picked p)) c' q →
      (c' = c ∧ q = p) ∨ (c' ≠ c ∧ Chosen mode c' q) := fun c' q hch => by
    by_cases hcc : c' = c
    · subst hcc
      simp only [Chosen, Function.update_self, Mode.picked.injEq, reduceCtorEq, or_false] at hch
      exact .inl ⟨rfl, hch.symm⟩
    · exact .inr ⟨hcc, by simpa [Chosen, hcc] using hch⟩
  refine ⟨h.cproc, fun c' hc' => ?_, fun c' q hc' => ?_, fun q hq => ?_, fun q hq => ?_,
    fun c' q hc' => ?_, fun q hq hr => ?_, fun q hq hr => ?_, fun c' q hc' => ?_⟩
  · by_cases hcc : c' = c
    · subst hcc; simpa [target, hm] using h.cprocSched c' hc'
    · simpa [hcc] using h.cprocSched c' hc'
  · have hcc : c' ≠ c := by rintro rfl; rw [hc] at hc'; cases hc'
    simpa [hcc] using h.away c' q hc'
  · simpa using h.onCpu q hq
  · simpa using h.unstarted q hq
  · have hqp : q ≠ p := by rintro rfl; exact hoff c' hc'
    simpa [hqp] using h.running c' q hc'
  · by_cases hqp : q = p
    · subst hqp; exact ⟨c, .inl (by simp)⟩
    · obtain ⟨c', hch⟩ := h.resting q hq (by simpa [hqp] using hr)
      have hcc : c' ≠ c := by rintro rfl; simp [Chosen, hm] at hch
      exact ⟨c', by simpa [Chosen, hcc] using hch⟩
  · by_cases hqp : q = p
    · subst hqp; simp at hr
    · exact startable_update_sched.mpr (h.ready q hq (by simpa [hqp] using hr))
  · rcases hchosen c' q hc' with ⟨rfl, rfl⟩ | ⟨-, hch⟩
    · exact ⟨hoff, by simp, startable_update_sched.mpr hstart⟩
    · obtain ⟨h1, h2, h3⟩ := h.chosen c' q hch
      have hqp : q ≠ p := by rintro rfl; rw [hst] at h2; cases h2
      exact ⟨h1, by rwa [Function.update_of_ne hqp], startable_update_sched.mpr h3⟩

/-- A scheduler goes from one of its modes to another, which says what `c->proc` is. -/
lemma Disp.setSched (h : Disp run cp st fresh mode) (hc : run c = .sched c) {m : Mode NPROC ι κ}
    (hm : ∀ q, Chosen (Function.update mode (.sched c) m) c q ↔ Chosen mode c q) :
    Disp run (Function.update cp c (target m)) st fresh (Function.update mode (.sched c) m) := by
  have hchosen : ∀ c' q, Chosen (Function.update mode (.sched c) m) c' q ↔ Chosen mode c' q :=
    fun c' q => by
      by_cases hcc : c' = c
      · subst hcc; exact hm q
      · simp [Chosen, hcc]
  have hne : ∀ c' q, run c' = .proc q → c' ≠ c := by
    rintro c' q hc' rfl; rw [hc] at hc'; cases hc'
  refine ⟨fun c' q hc' => ?_, fun c' hc' => ?_, fun c' q hc' => ?_, fun q hq => ?_, fun q hq => ?_,
    fun c' q hc' => ?_, fun q hq hr => ?_, fun q hq hr => ?_, fun c' q hc' => ?_⟩
  · rw [Function.update_of_ne (hne c' q hc')]; exact h.cproc c' q hc'
  · by_cases hcc : c' = c
    · subst hcc; simp
    · simpa [hcc] using h.cprocSched c' hc'
  · simpa [hne c' q hc'] using h.away c' q hc'
  · simpa using h.onCpu q hq
  · simpa using h.unstarted q hq
  · simpa using h.running c' q hc'
  · obtain ⟨c', hch⟩ := h.resting q hq hr
    exact ⟨c', (hchosen c' q).mpr hch⟩
  · exact startable_update_sched.mpr (h.ready q hq hr)
  · obtain ⟨h1, h2, h3⟩ := h.chosen c' q ((hchosen c' q).mp hc')
    exact ⟨h1, h2, startable_update_sched.mpr h3⟩

/-- `swtch` from the scheduler: it has chosen a process that no CPU executes. -/
lemma Disp.swtchTo (h : Disp run cp st fresh mode) (hc : run c = .sched c)
    (hm : mode (.sched c) = .aimed p)
    (hone : ∀ c', Chosen mode c' p → c' = c) :
    Disp (Function.update run c (.proc p)) cp st fresh
      (Function.update mode (.sched c) (.away p)) := by
  obtain ⟨hoff, hst, hstart⟩ := h.chosen c p (.inr hm)
  have hsched : ∀ c', Function.update run c (.proc p) c' = .sched c' → c' ≠ c ∧ run c' = .sched c' :=
    fun c' hc' => by
      by_cases hcc : c' = c
      · subst hcc; simp at hc'
      · exact ⟨hcc, by simpa [hcc] using hc'⟩
  have hproc : ∀ c' q, Function.update run c (.proc p) c' = .proc q →
      (c' = c ∧ q = p) ∨ (c' ≠ c ∧ run c' = .proc q) := fun c' q hc' => by
    by_cases hcc : c' = c
    · subst hcc; exact .inl ⟨rfl, by simpa using hc'.symm⟩
    · exact .inr ⟨hcc, by simpa [hcc] using hc'⟩
  have hoff' : ∀ q, (∀ c', Function.update run c (.proc p) c' ≠ .proc q) →
      q ≠ p ∧ ∀ c', run c' ≠ .proc q := fun q hq => by
    refine ⟨by rintro rfl; exact hq c (by simp), fun c' hc' => ?_⟩
    have hcc : c' ≠ c := by rintro rfl; rw [hc] at hc'; cases hc'
    exact hq c' (by simpa [hcc] using hc')
  have hchosen : ∀ c' q, Chosen (Function.update mode (.sched c) (.away p)) c' q ↔
      c' ≠ c ∧ Chosen mode c' q := fun c' q => by
    by_cases hcc : c' = c
    · subst hcc; simp [Chosen]
    · simp [Chosen, hcc]
  refine ⟨fun c' q hc' => ?_, fun c' hc' => ?_, fun c' q hc' => ?_, fun q hq => ?_, fun q hq => ?_,
    fun c' q hc' => ?_, fun q hq hr => ?_, fun q hq hr => ?_, fun c' q hc' => ?_⟩
  · rcases hproc c' q hc' with ⟨rfl, rfl⟩ | ⟨-, hc'⟩
    · simpa [hm, target] using h.cprocSched c' hc
    · exact h.cproc c' q hc'
  · obtain ⟨hcc, hc'⟩ := hsched c' hc'
    simpa [hcc] using h.cprocSched c' hc'
  · rcases hproc c' q hc' with ⟨rfl, rfl⟩ | ⟨hcc, hc'⟩
    · simp
    · simpa [hcc] using h.away c' q hc'
  · simpa using h.onCpu q (hoff' q hq).2
  · simpa using h.unstarted q hq
  · rcases hproc c' q hc' with ⟨rfl, rfl⟩ | ⟨-, hc'⟩
    · obtain ⟨b, hb⟩ := h.onCpu q hoff
      rcases hstart with hf | hs
      · simp [hb, Running, hst, hf]
      · simp [hs, Running, hst]
    · simpa using h.running c' q hc'
  · obtain ⟨hqp, hq⟩ := hoff' q hq
    obtain ⟨c', hch⟩ := h.resting q hq hr
    refine ⟨c', (hchosen c' q).mpr ⟨?_, hch⟩⟩
    rintro rfl
    simp only [Chosen, hm, Mode.aimed.injEq, reduceCtorEq, false_or] at hch
    exact hqp hch.symm
  · exact startable_update_sched.mpr (h.ready q (hoff' q hq).2 hr)
  · obtain ⟨hcc, hch⟩ := (hchosen c' q).mp hc'
    obtain ⟨h1, h2, h3⟩ := h.chosen c' q hch
    refine ⟨fun c'' hc'' => ?_, h2, startable_update_sched.mpr h3⟩
    rcases hproc c'' q hc'' with ⟨-, rfl⟩ | ⟨-, hc''⟩
    · exact hcc (hone c' hch)
    · exact h1 c'' hc''

/-- `swtch` from a process back to the scheduler of the CPU. -/
lemma Disp.swtchBack (h : Disp run cp st fresh mode) (hc : run c = .proc p) {a : PState}
    (hm : mode (.proc p) = .leave a) (hinj : Function.Injective run) :
    Disp (Function.update run c (.sched c)) cp st fresh
      (Function.update mode (.proc p) (.saved (a = .zombie))) := by
  obtain ⟨hsta, hne, hfresh⟩ : st p = a ∧ a ≠ .running ∧ fresh p = false := by
    simpa [hm, Running] using h.running c p hc
  have hproc : ∀ c' q, Function.update run c (.sched c) c' = .proc q ↔
      q ≠ p ∧ run c' = .proc q := fun c' q => by
    by_cases hcc : c' = c
    · subst hcc
      simp only [Function.update_self, reduceCtorEq, false_iff]
      rintro ⟨hqp, hc'⟩
      rw [hc] at hc'
      cases hc'
      exact hqp rfl
    · rw [Function.update_of_ne hcc]
      refine ⟨fun hc' => ⟨?_, hc'⟩, And.right⟩
      rintro rfl
      exact hcc (hinj (hc'.trans hc.symm))
  have hoff' : ∀ q, (∀ c', Function.update run c (.sched c) c' ≠ .proc q) → q ≠ p →
      ∀ c', run c' ≠ .proc q := fun q hq hqp c' hc' => hq c' ((hproc c' q).mpr ⟨hqp, hc'⟩)
  have hstart : ∀ q, q ≠ p → (Startable fresh
      (Function.update mode (.proc p) (.saved (a = .zombie))) q ↔ Startable fresh mode q) :=
    fun q hq => by simp [Startable, hq]
  refine ⟨fun c' q hc' => ?_, fun c' hc' => ?_, fun c' q hc' => ?_, fun q hq => ?_, fun q hq => ?_,
    fun c' q hc' => ?_, fun q hq hr => ?_, fun q hq hr => ?_, fun c' q hc' => ?_⟩
  · exact h.cproc c' q ((hproc c' q).mp hc').2
  · by_cases hcc : c' = c
    · subst hcc
      simp [h.away c' p hc, target, h.cproc c' p hc]
    · simpa using h.cprocSched c' (by simpa [hcc] using hc')
  · simpa using h.away c' q ((hproc c' q).mp hc').2
  · by_cases hqp : q = p
    · subst hqp; exact ⟨decide (a = .zombie), by simp⟩
    · simpa [hqp] using h.onCpu q (hoff' q hq hqp)
  · have hqp : q ≠ p := by rintro rfl; simp [hfresh] at hq
    simpa [hqp] using h.unstarted q hq
  · obtain ⟨hqp, hc'⟩ := (hproc c' q).mp hc'
    simpa [hqp] using h.running c' q hc'
  · by_cases hqp : q = p
    · subst hqp; exact absurd (hsta.symm.trans hr) hne
    · obtain ⟨c', hch⟩ := h.resting q (hoff' q hq hqp) hr
      exact ⟨c', by simpa [Chosen] using hch⟩
  · by_cases hqp : q = p
    · subst hqp
      refine .inr ?_
      rw [hsta] at hr
      rcases hr with rfl | rfl <;> simp
    · exact (hstart q hqp).mpr (h.ready q (hoff' q hq hqp) hr)
  · obtain ⟨h1, h2, h3⟩ := h.chosen c' q (by simpa [Chosen] using hc')
    have hqp : q ≠ p := by rintro rfl; exact h1 c hc
    exact ⟨fun c'' hc'' => h1 c'' ((hproc c'' q).mp hc'').2, h2, (hstart q hqp).mpr h3⟩

/-- `allocproc` sets the context of a process that no CPU executes. -/
lemma Disp.initContext (h : Disp run cp st fresh mode) (hoff : ∀ c, run c ≠ .proc p) :
    Disp run cp st (Function.update fresh p true) mode := by
  have hstart : ∀ q, Startable fresh mode q → Startable (Function.update fresh p true) mode q :=
    fun q hq => by
      by_cases hqp : q = p
      · subst hqp; exact .inl (by simp)
      · simpa [Startable, hqp] using hq
  refine ⟨h.cproc, h.cprocSched, h.away, h.onCpu, fun q hq => ?_, fun c q hc => ?_, h.resting,
    fun q hq hr => hstart q (h.ready q hq hr), fun c q hc => ?_⟩
  · by_cases hqp : q = p
    · subst hqp; exact h.onCpu q hoff
    · exact h.unstarted q (by simpa [hqp] using hq)
  · have hqp : q ≠ p := by rintro rfl; exact hoff c hc
    rw [Function.update_of_ne hqp]; exact h.running c q hc
  · obtain ⟨h1, h2, h3⟩ := h.chosen c q hc
    exact ⟨h1, h2, hstart q h3⟩

/-- A new process takes up `forkret`. -/
lemma Disp.start (h : Disp run cp st fresh mode) (hf : fresh p = true) :
    Disp run cp st (Function.update fresh p false)
      (Function.update mode (.proc p) (.saved false)) := by
  obtain ⟨b, hb⟩ := h.unstarted p hf
  have hstart : ∀ q, Startable fresh mode q → Startable (Function.update fresh p false)
      (Function.update mode (.proc p) (.saved false)) q := fun q hq => by
    by_cases hqp : q = p
    · subst hqp; exact .inr (by simp)
    · simpa [Startable, hqp] using hq
  refine ⟨h.cproc, fun c hc => ?_, fun c q hc => ?_, fun q hq => ?_, fun q hq => ?_,
    fun c q hc => ?_, fun q hq hr => ?_, fun q hq hr => hstart q (h.ready q hq hr),
    fun c q hc => ?_⟩
  · simpa using h.cprocSched c hc
  · simpa using h.away c q hc
  · by_cases hqp : q = p
    · subst hqp; exact ⟨false, by simp⟩
    · simpa [hqp] using h.onCpu q hq
  · have hqp : q ≠ p := by rintro rfl; simp at hq
    simpa [hqp] using h.unstarted q (by simpa [hqp] using hq)
  · have hr := h.running c q hc
    by_cases hqp : q = p
    · subst hqp
      simp only [hb, Running] at hr
      simp [Running, hr.1]
    · simpa [hqp] using hr
  · obtain ⟨c, hch⟩ := h.resting q hq hr
    exact ⟨c, by simpa [Chosen] using hch⟩
  · obtain ⟨h1, h2, h3⟩ := h.chosen c q (by simpa [Chosen] using hc)
    exact ⟨h1, h2, hstart q h3⟩

end Disp

end Xv6.Sched.Handoff
