import Xv6.Sched.Follow

/-!
What scheduling guarantees: a process is executed by one CPU at a time, and by one exactly if
it is `RUNNING`; only a `RUNNABLE` process is dispatched; the slot of a process is given up
when no CPU is on its kernel stack any more.
-/

namespace Xv6.Sched.Dispatch

open Xv6.Conc Xv6.Conc.Prog Xv6.Conc.Proto Xv6.Sched.Table Xv6.Sched.Kernel Xv6.Sched.Handoff
  Xv6.Sched.Protocol Xv6.Sched.Specs Xv6.Sched.Follow

variable {NPROC NCPU : ℕ} {ι κ : Type} {s : St NPROC NCPU ι κ}
  {γ : Ctx NPROC NCPU → Ghost NPROC ι κ} {t : Ctx NPROC NCPU} {k : Fin NCPU} {p : Fin NPROC}

/-- While `p->lock` is free no scheduler has chosen `p`, or is on its way back from it. -/
lemma Inv.not_held {c' : Fin NCPU} (hi : Inv s γ) (hfree : s.lock (.proc p) = none)
    (hrun : running s c' = .sched c') : target (γ (.sched c')).mode ≠ some p := by
  intro ht
  have hlocks := (hi.know (.sched c')).locks
  have hl : (γ (.sched c')).locks = [.proc p] := by
    cases hm : (γ (.sched c')).mode with
    | aimed q => rw [hm] at ht hlocks; cases ht; exact hlocks
    | away q => rw [hm] at ht hlocks; cases ht; exact hlocks
    | _ => rw [hm] at ht; cases ht
  have : s.lock (.proc p) = some c' := (hi.cpus.held c' _).mpr (by simp [hrun, hl])
  rw [hfree] at this
  cases this

/-- While `p->lock` is free, `c->proc == p` says that `c` executes `p`. -/
lemma Inv.cproc_iff (hi : Inv s γ) (hfree : s.lock (.proc p) = none) :
    cproc s k = some p ↔ running s k = .proc p := by
  refine ⟨fun hp => ?_, fun hr => hi.disp.cproc k p hr⟩
  cases hr : running s k with
  | proc q =>
    have := hi.disp.cproc k q hr
    rw [hp] at this
    cases this
    rfl
  | sched c' =>
    cases hi.cpus.home k c' hr
    rw [hi.disp.cprocSched k hr] at hp
    exact absurd hp (Inv.not_held hi hfree hr)

/-- While `p->lock` is free, `p` is `RUNNING` when a CPU executes it. -/
lemma Inv.running_iff (hi : Inv s γ) (hfree : s.lock (.proc p) = none) :
    state s p = .running ↔ ∃ k, running s k = .proc p := by
  refine ⟨fun hst => ?_, fun ⟨k, hr⟩ => ?_⟩
  · by_contra hoff
    push Not at hoff
    obtain ⟨c', hch⟩ := hi.disp.resting p hoff hst
    have hlocks := (hi.know (.sched c')).locks
    have hl : (γ (.sched c')).locks = [.proc p] ∧ (γ (.sched c')).mode.parked = false := by
      rcases hch with (hm : (γ (.sched c')).mode = _) | (hm : (γ (.sched c')).mode = _) <;>
        rw [hm] at hlocks <;> exact ⟨hlocks, by simp [hm, Mode.parked]⟩
    obtain ⟨k, -, hk⟩ := hi.lock_eq (l := .proc p) hl.2 (by simp [hl.1])
    rw [hfree] at hk
    cases hk
  · have hrun := hi.disp.running k p hr
    cases hm : (γ (.proc p)).mode with
    | leave a =>
      have hlocks := (hi.know (.proc p)).locks
      rw [hm] at hlocks
      obtain ⟨p', hp', hmem⟩ := hlocks
      cases hp'
      have := (hi.cpus.held k (.proc p)).mpr (by rwa [hr])
      rw [hfree] at this
      cases this
    | run => rw [hm] at hrun; exact hrun.1
    | doze _ _ => rw [hm] at hrun; exact hrun.1
    | saved _ => rw [hm] at hrun; exact hrun.1
    | _ => rw [hm] at hrun; exact hrun.elim

/-- A thread that has read a process in a state other than `RUNNING` under its lock has it to
itself. -/
lemma Inv.quiet (hi : Inv s γ) (hq : Quiet (γ t) p) :
    (∃ k, running s k = t ∧ s.lock (.proc p) = some k) ∧ ∀ k, running s k ≠ .proc p := by
  obtain ⟨hm, a, ch, hseen, ha⟩ := hq
  obtain ⟨hl, hst, -⟩ := (hi.know t).seen p a ch hseen
  obtain ⟨k, hk, hlock⟩ := hi.lock_eq (by simp [hm, Mode.parked]) hl
  refine ⟨⟨k, hk, hlock⟩, hi.rest hk hl (other_of_seen hi hk hm hseen ha) ?_⟩
  rwa [hst]

variable [DecidableEq ι] [DecidableEq κ]

/-- **The scheduler's invariant**, in every run of any number of processes on any number of
CPUs. -/
theorem scheduler_invariant (initproc : Fin NPROC) (NCPU : ℕ) (cond : ι → Bool)
    {c : Pool (St NPROC NCPU ι κ) (Ctx NPROC NCPU) (Act NPROC ι κ) Res Unit}
    (hr : Reach (sys initproc NCPU) (boot initproc NCPU cond) c) :
    -- `RUNNING` means to be the process of exactly one CPU
    (∀ p, c.shared.lock (.proc p) = none →
      ((c.shared.proc p).state = .running ↔ ∃! k, (c.shared.cpu k).proc = some p)) ∧
    -- no two CPUs are on one kernel stack
    (∀ k k', (c.shared.cpu k).running = (c.shared.cpu k').running → k = k') ∧
    -- a process is made `RUNNING` from `RUNNABLE`, and switched to when it is `RUNNING`, under
    -- its lock, and while no CPU executes it
    (∀ t p, Performs c t (.set p (.state .running)) → (c.shared.proc p).state = .runnable ∧
      (∃ k, (c.shared.cpu k).running = t ∧ c.shared.lock (.proc p) = some k) ∧
      ∀ k, (c.shared.cpu k).running ≠ .proc p) ∧
    (∀ t p, Performs c t (.swtchTo p) → (c.shared.proc p).state = .running ∧
      (∃ k, (c.shared.cpu k).running = t ∧ c.shared.lock (.proc p) = some k) ∧
      ∀ k, (c.shared.cpu k).running ≠ .proc p) ∧
    -- `freeproc`, from its first assignment to its last, is out of the way of its process
    (∀ t p, (∃ n, Performs c t (.set p (.pid n))) ∨ Performs c t (.set p (.state .unused)) →
      (∃ k, (c.shared.cpu k).running = t ∧ c.shared.lock (.proc p) = some k) ∧
      ∀ k, (c.shared.cpu k).running ≠ .proc p) ∧
    -- and no check of `sched`, `acquire` or `release` fails
    ∀ t msg, Panics (sys initproc NCPU) t c.shared (c.thread t) msg → msg = "init exiting" := by
  have hf := follows_reach (P := proto initproc) enters (follows_boot cond) hr
  obtain ⟨γ, hi, hmay⟩ := follows_may hf
  change Ctx NPROC NCPU → Ghost NPROC ι κ at γ
  change Inv c.shared γ at hi
  change ∀ t a, Performs c t a → May a (γ t) at hmay
  refine ⟨fun p hfree => ?_, fun k k' h => hi.cpus.inj h, fun t p hp => ?_, fun t p hp => ?_,
    fun t p hp => Inv.quiet hi ?_, fun t msg hp => panics_ok hf hp⟩
  · change state c.shared p = .running ↔ ∃! k, cproc c.shared k = some p
    rw [Inv.running_iff hi hfree]
    simp only [Inv.cproc_iff hi hfree]
    exact ⟨fun ⟨k, hk⟩ => ⟨k, hk, fun k' hk' => hi.cpus.inj (hk'.trans hk.symm)⟩,
      fun h => h.exists⟩
  · obtain ⟨hm, ch, hseen⟩ := hmay t _ hp
    exact ⟨((hi.know t).seen _ _ _ hseen).2.1, Inv.quiet hi ⟨hm, _, _, hseen, by simp⟩⟩
  · have hm : (γ t).mode = .aimed p := hmay t _ hp
    have hpark : (γ t).mode.parked = false := by simp [hm, Mode.parked]
    have hl : (γ t).locks = [.proc p] := by
      have := (hi.know t).locks
      rwa [hm] at this
    obtain ⟨k, hk, hlock⟩ := hi.lock_eq (l := .proc p) hpark (by simp [hl])
    have hch : Chosen (fun t => (γ t).mode) k p := by
      cases t with
      | sched c' =>
        cases hi.cpus.home k c' hk
        exact .inr hm
      | proc q =>
        have := hi.disp.running k q hk
        rw [hm] at this
        exact this.elim
    obtain ⟨hoff, hst, -⟩ := hi.disp.chosen k p hch
    exact ⟨hst, ⟨k, hk, hlock⟩, hoff⟩
  · rcases hp with ⟨n, hp⟩ | hp
    · exact hmay t _ hp
    · exact hmay t _ hp

/-- The first process starts on CPU 0 of two: that is the only CPU whose process it is. -/
theorem scheduler_invariant_start : ∃ c,
    Reach (sys 0 2) (boot (0 : Fin 2) 2 (ι := Fin 1) (κ := Fin 1) fun _ => false) c ∧
    (c.shared.proc 0).state = .running ∧ (c.shared.cpu 0).proc = some 0 ∧
    ∀ k, (c.shared.cpu k).proc = some 0 → k = 0 := by
  obtain ⟨c, hr, hc⟩ := exists_of_events 0
    (boot (0 : Fin 2) 2 (ι := Fin 1) (κ := Fin 1) fun _ => false)
    (fun c => ((c.shared.proc 0).state, c.shared.lock (.proc 0), (c.shared.cpu 0).proc))
    [.start 0, .run (.sched 0) 0 10, .run (.proc 0) 0 2] (b := (.running, none, some 0))
    (by decide +kernel)
  simp only [Prod.mk.injEq] at hc
  have h := scheduler_invariant 0 2 (fun _ => false) hr
  exact ⟨c, hr, hc.1, hc.2.2, fun k hk => ((h.1 0 hc.2.1).mp hc.1).unique hk hc.2.2⟩

end Xv6.Sched.Dispatch
