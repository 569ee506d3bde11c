import Xv6.Ipc.Fifo

/-!
Who sleeps on a pipe. `pipewrite` returns without a wakeup when it finds itself killed, and
leaves readers asleep beside the bytes that it has put in. In the runs in which that does not
happen nobody sleeps on a pipe that has something for him.
-/

namespace Xv6.Ipc.Stranded

open Xv6.Conc Xv6.Conc.Prog Xv6.Conc.Proto Xv6.Sched.Table Xv6.Proc.Coarse Xv6.Ipc.Pipes
  Xv6.Ipc.Guard Xv6.Ipc.Walk Xv6.Ipc.Fifo

variable {NPROC NCPU : ℕ}

/-- The runs in which no writer finds itself killed after it has put bytes in that it has not
announced. -/
def announcing (NPROC NCPU : ℕ) : Sys (State NPROC NCPU) (Ctx NPROC NCPU) (Bool × Bool × Byte)
    (PipeAct NPROC) (Both Res PRes) ℤ :=
  (pipes NPROC NCPU).restrict fun t a s => lapse t a s = false

lemma within_announcing : Within (announcing NPROC NCPU) True :=
  ⟨fun _ _ _ _ _ h => (restrict_sem.mp h).2, fun _ _ _ _ _ _ h => (restrict_sem.mp h).1, rfl⟩

/-- A process that is asleep on a channel of the pipe has reason to. -/
def Rightly (c : Pool (State NPROC NCPU) (Ctx NPROC NCPU) (PipeAct NPROC) (Both Res PRes) ℤ)
    (p : Fin NPROC) : Prop :=
  ((c.shared.1.1.proc p).chan = some (.cond .nread) →
    c.shared.1.2.nread = c.shared.1.2.nwrite ∧ c.shared.1.2.writeopen = true) ∧
  ((c.shared.1.1.proc p).chan = some (.cond .nwrite) →
    c.shared.1.2.nwrite = c.shared.1.2.nread + BitVec.ofNat 32 PIPESIZE ∧
      c.shared.1.2.readopen = true)

/-- **No reader or writer is stranded** in the runs in which no writer finds itself killed with
bytes that it has not announced. -/
theorem none_stranded (pid : Fin NPROC → ℤ) (killed : Fin NPROC → Bool)
    (data : Fin PIPESIZE → Byte) (count : BitVec 32)
    {c : Pool (State NPROC NCPU) (Ctx NPROC NCPU) (PipeAct NPROC) (Both Res PRes) ℤ}
    (hr : Reach (announcing NPROC NCPU) (start NCPU pid killed data count) c)
    (hfree : c.shared.1.1.lock pipeLock = none) {p : Fin NPROC}
    (hp : (c.shared.1.1.proc p).state = .sleeping) : Rightly c p := by
  obtain ⟨γ, hi, -⟩ := follows_reach (enters within_announcing) (follows_start pid killed data) hr
  change Ctx NPROC NCPU → Guard.Ghost NPROC at γ
  change Inv True count c.shared γ at hi
  obtain ⟨i, hnap⟩ := (hi.each (.proc p)).sleeping p rfl hp
  have hchan := (hi.each (.proc p)).asleep p i rfl hnap
  -- nobody holds the lock, so nobody owes a wakeup
  have hj : Justified c.shared.1.2 i := by
    rcases hi.wake trivial p i (.inr ⟨hnap, hp⟩) with hj | ⟨t, ht, -⟩
    · exact hj
    · have := (hi.each t).holds ht
      rw [hfree] at this
      cases this
  refine ⟨fun h => ?_, fun h => ?_⟩
  · rw [hchan] at h
    cases h
    exact hj
  · rw [hchan] at h
    cases h
    exact hj

set_option synthInstance.maxSize 400 in
/-- A reader is asleep on an empty pipe. -/
theorem none_stranded_reader : ∃ c, Reach (announcing 3 1) three c ∧
    (c.shared.1.1.proc 1).state = .sleeping ∧
    (c.shared.1.1.proc 1).chan = some (.cond .nread) ∧ Rightly c 1 := by
  obtain ⟨c, hr, hc⟩ := exists_of_schedule (announcing 3 1)
    (fun c => ((c.shared.1.1.proc 1).state, (c.shared.1.1.proc 1).chan,
      c.shared.1.1.lock pipeLock))
    (begin three [(1, .read 1)]) [(.proc 1, (false, false, 7), 15)]
    (b := (.sleeping, some (.cond .nread), none)) (by decide +kernel)
  simp only [Prod.mk.injEq] at hc
  obtain ⟨hs, hch, hfree⟩ := hc
  have hreach : Reach (announcing 3 1) three c :=
    (reach_begin (c := three) rfl (by simp [three, start]) (by decide)).trans hr
  exact ⟨c, hreach, hs, hch, none_stranded _ _ _ _ hreach hfree hs⟩

set_option synthInstance.maxSize 400 in
/-- **A reader is stranded**: a writer that was to put in two bytes is killed after the first
and returns, and the reader sleeps on, beside the byte. -/
theorem reader_stranded : ∃ c, Reach (pipes 3 1) three c ∧ c.thread (.proc 0) = .ret (-1) ∧
    c.shared.1.1.lock pipeLock = none ∧ (c.shared.1.1.proc 1).state = .sleeping ∧
    (c.shared.1.1.proc 1).chan = some (.cond .nread) ∧
    c.shared.1.2.nread ≠ c.shared.1.2.nwrite := by
  obtain ⟨c, hr, hc⟩ := exists_of_schedule (pipes 3 1)
    (fun c => (value (c.thread (.proc 0)), c.shared.1.1.lock pipeLock,
      (c.shared.1.1.proc 1).state, (c.shared.1.1.proc 1).chan,
      decide (c.shared.1.2.nread = c.shared.1.2.nwrite)))
    (begin three [(0, .write 2), (1, .read 1), (2, .kill 1)])
    [(.proc 1, (false, false, 7), 15), (.proc 0, (false, false, 7), 9),
      (.proc 2, (false, false, 7), 6), (.proc 0, (false, false, 7), 7)]
    (b := (some (-1), none, .sleeping, some (.cond .nread), false)) (by decide +kernel)
  simp only [Prod.mk.injEq] at hc
  obtain ⟨h0, hfree, hs, hch, hne⟩ := hc
  exact ⟨c, (reach_begin (c := three) rfl (by simp [three, start]) (by decide)).trans hr,
    eq_ret_of_value h0, hfree, hs, hch, of_decide_eq_false hne⟩

end Xv6.Ipc.Stranded
