import Xv6.Sched.Follow

/-!
No wakeup is lost: when the lock of a condition is free and the condition true, nobody sleeps
on it. For sleeplocks, that and mutual exclusion.
-/

namespace Xv6.Sched.Wakeup

open Xv6.Conc Xv6.Conc.Prog Xv6.Conc.Proto Xv6.Sched.Table Xv6.Sched.Kernel Xv6.Sched.Handoff
  Xv6.Sched.Protocol Xv6.Sched.Specs Xv6.Sched.Follow

variable {NPROC NCPU : ℕ} {ι κ : Type} {s : St NPROC NCPU ι κ}
  {γ : Ctx NPROC NCPU → Ghost NPROC ι κ} {p : Fin NPROC}

/-- Process `p` is asleep on `k`. -/
def Asleep (s : St NPROC NCPU ι κ) (p : Fin NPROC) (k : Chan NPROC ι κ) : Prop :=
  (s.proc p).state = .sleeping ∧ (s.proc p).chan = some k

/-- Whoever has made a condition true and not yet visited a sleeper holds the lock. -/
lemma Inv.awake {k : Chan NPROC ι κ} (hi : Inv s γ) (hfree : s.lock (lockOf k) = none)
    (hr : ready s k = true) : ¬ Asleep s p k := by
  rintro ⟨hst, hch⟩
  rcases hi.wake p k (.inr ⟨hst, hch⟩) with h | ⟨t, ps, hs, -⟩
  · rw [h] at hr
    cases hr
  · have hk := hi.know t
    have hpark : (γ t).mode.parked = false := by
      by_contra hp
      have hnone := (hk.parked (by simpa using hp)).2.2
      simp [hnone] at hs
    obtain ⟨c, -, hlock⟩ := hi.lock_eq hpark (hk.scan k ps hs)
    rw [hfree] at hlock
    cases hlock

variable [DecidableEq ι] [DecidableEq κ]

/-- **No wakeup is lost**, in any run of any processes that wait for conditions or take
sleeplocks, of processes and devices that make the conditions true, and of `kkill`. -/
theorem no_lost_wakeup (initproc : Fin NPROC) (NCPU : ℕ) (cond : ι → Bool)
    {c : Pool (St NPROC NCPU ι κ) (Ctx NPROC NCPU) (Act NPROC ι κ) Res Unit}
    (hr : Reach (sys initproc NCPU) (boot initproc NCPU cond) c) :
    (∀ i, c.shared.lock (.cond i) = none → c.shared.cond i = true →
      ∀ p, ¬ Asleep c.shared p (.cond i)) ∧
    -- for a sleeplock the condition is that it is not locked
    (∀ j, c.shared.lock (.slk j) = none → (c.shared.slk j).locked = false →
      ∀ p, ¬ Asleep c.shared p (.slk j)) ∧
    -- one process at a time is between `acquiresleep` and `releasesleep`
    ∀ j, (c.shared.holders j).length ≤ 1 ∧
      ((c.shared.slk j).locked = true ↔ c.shared.holders j ≠ []) := by
  obtain ⟨γ, hi, -⟩ := follows_reach (P := proto initproc) enters (follows_boot cond) hr
  change Ctx NPROC NCPU → Ghost NPROC ι κ at γ
  change Inv c.shared γ at hi
  refine ⟨fun i hfree hcond p => Inv.awake hi hfree hcond,
    fun j hfree hl p => Inv.awake hi hfree (by simpa [ready] using hl), fun j => ?_⟩
  cases hl : (c.shared.slk j).locked with
  | false => simp [hi.slk.free j hl]
  | true =>
    obtain ⟨p, hp⟩ := hi.slk.taken j hl
    simp [hp]

/-- Process 1 goes to sleep on a sleeplock of process 0 and is woken when it is released. -/
theorem no_lost_wakeup_sleeplock : ∃ c,
    Reach (sys 0 2) (boot (0 : Fin 2) 2 (ι := Fin 1) (κ := Fin 1) fun _ => false) c ∧
    c.shared.lock (.slk 0) = none ∧ (c.shared.slk 0).locked = false ∧
    (c.shared.proc 1).chan = some (.slk 0) ∧ ¬ Asleep c.shared 1 (.slk 0) := by
  obtain ⟨c, hr, hc⟩ := exists_of_events 0
    (boot (0 : Fin 2) 2 (ι := Fin 1) (κ := Fin 1) fun _ => false)
    (fun c => (c.shared.lock (.slk 0), (c.shared.slk 0).locked, (c.shared.proc 1).chan))
    [.start 0, .run (.sched 0) 0 10, .run (.proc 0) 0 3,
      .call 0 0 .fork, .run (.proc 0) 0 25,
      .start 1, .run (.sched 1) 1 14, .run (.proc 1) 1 3,
      .call 0 0 (.cmds [.acquire 0, .release 0]), .run (.proc 0) 0 8,
      .call 1 1 (.cmds [.acquire 0]), .run (.proc 1) 1 11, .run (.sched 1) 1 2,
      .run (.proc 0) 0 13]
    (b := (none, false, some (.slk 0))) (by decide +kernel)
  simp only [Prod.mk.injEq] at hc
  have h := no_lost_wakeup 0 2 (fun _ => false) hr
  exact ⟨c, hr, hc.1, hc.2.1, hc.2.2, h.2.1 0 hc.1 hc.2.1 1⟩

end Xv6.Sched.Wakeup
