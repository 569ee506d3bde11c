import Xv6.Ipc.Walk

/-!
A pipe is a bounded queue: whatever its readers and writers do in whatever order, with their
copies failing and its counters wrapping, the bytes come out as they went in.
-/

namespace Xv6.Ipc.Fifo

open Xv6.Conc Xv6.Conc.Prog Xv6.Conc.Proto Xv6.Data.Ring Xv6.Sched.Table Xv6.Proc.Coarse
  Xv6.Ipc.Pipes Xv6.Ipc.Guard Xv6.Ipc.Walk

variable {NPROC NCPU : ℕ}

lemma within_pipes : Within (pipes NPROC NCPU) False := ⟨fun _ _ _ _ _ h => h, False.elim, rfl⟩

/-- The state of a pipe and of the calls on it. -/
structure Queue (c : Pool (State NPROC NCPU) (Ctx NPROC NCPU) (PipeAct NPROC) (Both Res PRes) ℤ) :
    Prop where
  bound : (c.shared.1.2.nwrite - c.shared.1.2.nread).toNat ≤ PIPESIZE
  /-- The bytes are delivered as they were accepted. -/
  order : c.shared.2.delivered <+: c.shared.2.accepted
  /-- Those not yet delivered are there. -/
  rest : c.shared.1.1.lock pipeLock = none →
    c.shared.2.accepted = c.shared.2.delivered ++ contents c.shared.1.2.ring
  /-- What a call returns, unless it is negative, is what it has put in or taken out. -/
  count : ∀ p v n, c.thread (.proc p) = .ret v →
    (c.shared.2.call p).req = some (.write n) ∨ (c.shared.2.call p).req = some (.read n) →
    0 ≤ v → v = (c.shared.2.call p).moved
  /-- A reader that returns nothing has left the pipe empty, with no writer. -/
  ended : ∀ p n, c.thread (.proc p) = .ret 0 → (c.shared.2.call p).req = some (.read n) → 0 < n →
    ∃ pi, (c.shared.2.call p).atRelease = some pi ∧ pi.nread = pi.nwrite ∧ pi.writeopen = false

/-- **A pipe is a bounded FIFO**, from any value of its counters. -/
theorem pipe_queue (pid : Fin NPROC → ℤ) (killed : Fin NPROC → Bool)
    (data : Fin PIPESIZE → Byte) (count : BitVec 32)
    {c : Pool (State NPROC NCPU) (Ctx NPROC NCPU) (PipeAct NPROC) (Both Res PRes) ℤ}
    (hr : Reach (pipes NPROC NCPU) (start NCPU pid killed data count) c) : Queue c := by
  have hf := follows_reach (enters within_pipes) (follows_start pid killed data) hr
  obtain ⟨γ, hi, hret⟩ := follows_ret hf
  change Ctx NPROC NCPU → Guard.Ghost NPROC at γ
  change Inv False count c.shared γ at hi
  obtain ⟨b, ⟨k, hc, hk, hdel⟩, hb⟩ := hi.flow
  have hdone : ∀ p v, c.thread (.proc p) = .ret v → Returned v (c.shared.2.call p) := by
    intro p v ht
    obtain ⟨k', o, hg, hret⟩ := hret (.proc p) v ht p rfl
    rw [(hi.each (.proc p)).call p rfl]
    change γ (.proc p) = _ at hg
    rw [hg]
    exact hret
  refine ⟨?_, ?_, fun hfree => ?_, fun p v n ht => (hdone p v ht).count n,
    fun p n ht hreq hn => (hdone p 0 ht).ended n hreq hn rfl⟩
  · have hlen := hc.length size_lt
    have hroom := hc.room
    simp only [Pipe.ring] at hlen
    omega
  · rw [hdel]
    exact List.take_prefix _ _
  · have hb' : b = false := by
      by_contra hb'
      obtain ⟨t, ht⟩ := hb.mp (by simpa using hb')
      have := (hi.each t).holds ((hi.each t).ahead ht)
      rw [hfree] at this
      cases this
    subst hb'
    rw [hdel, hc.contents size_lt]
    exact (List.take_append_drop k _).symm

/-! ### Runs by hand -/

/-- The system calls listed are begun, one of each process. -/
def begin (c : Pool (State NPROC NCPU) (Ctx NPROC NCPU) (PipeAct NPROC) (Both Res PRes) ℤ) :
    List (Fin NPROC × Request) →
      Pool (State NPROC NCPU) (Ctx NPROC NCPU) (PipeAct NPROC) (Both Res PRes) ℤ
  | [] => c
  | (p, req) :: calls =>
    begin ⟨(c.shared.1, c.shared.2.setCall p ⟨some req, 0, 0, none⟩),
      Function.update c.thread (.proc p) (serve req)⟩ calls

lemma reach_begin {S : Sys (State NPROC NCPU) (Ctx NPROC NCPU) (Bool × Bool × Byte)
      (PipeAct NPROC) (Both Res PRes) ℤ} (hS : S.enter = Enter)
    {c : Pool (State NPROC NCPU) (Ctx NPROC NCPU) (PipeAct NPROC) (Both Res PRes) ℤ}
    {calls : List (Fin NPROC × Request)} (hc : ∀ x ∈ calls, c.thread (.proc x.1) = .ret 0)
    (hn : (calls.map Prod.fst).Nodup) : Reach S c (begin c calls) := by
  induction calls generalizing c with
  | nil => exact .refl
  | cons x calls ih =>
    obtain ⟨p, req⟩ := x
    rw [List.map_cons, List.nodup_cons] at hn
    have hstep : Step S c ⟨(c.shared.1, c.shared.2.setCall p ⟨some req, 0, 0, none⟩),
        Function.update c.thread (.proc p) (serve req)⟩ := by
      refine Step.enter (Ctx.proc p) ?_
      rw [hS, hc (p, req) (List.mem_cons_self ..)]
      exact Enter.call req
    refine .head hstep (ih (fun y hy => ?_) hn.2)
    have hne : y.1 ≠ p := by
      rintro rfl
      have hmem := List.mem_map_of_mem (f := Prod.fst) hy
      exact hn.1 hmem
    simpa [hne] using hc y (List.mem_cons_of_mem _ hy)

/-- Three processes with the pids 1, 2 and 3, and counters about to wrap. -/
def three : Pool (State 3 1) (Ctx 3 1) (PipeAct 3) (Both Res PRes) ℤ :=
  start 1 (fun p => (p.val : ℤ) + 1) (fun _ => false) (fun _ => 0) (BitVec.ofNat 32 (2 ^ 32 - 1))

set_option synthInstance.maxSize 400 in
/-- A writer puts two bytes in while a reader waits for one; the counter wraps. -/
theorem pipe_queue_wraps : ∃ c, Reach (pipes 3 1) three c ∧ c.thread (.proc 0) = .ret 2 ∧
    c.thread (.proc 1) = .ret 1 ∧ c.shared.2.accepted = [7, 7] ∧ c.shared.2.delivered = [7] ∧
    contents c.shared.1.2.ring = [7] ∧ c.shared.1.2.nread = 0 := by
  obtain ⟨c, hr, hc⟩ := exists_of_schedule (pipes 3 1)
    (fun c => (value (c.thread (.proc 0)), value (c.thread (.proc 1)), c.shared.2.accepted,
      c.shared.2.delivered, c.shared.1.2.nread, c.shared.1.1.lock pipeLock))
    (begin three [(0, .write 2), (1, .read 1)])
    [(.proc 0, (false, false, 7), 33), (.proc 1, (false, false, 7), 23)]
    (b := (some 2, some 1, [7, 7], [7], 0, none)) (by decide +kernel)
  simp only [Prod.mk.injEq] at hc
  obtain ⟨h0, h1, hacc, hdel, hnread, hfree⟩ := hc
  have hreach := (reach_begin (c := three) rfl (by simp [three, start]) (by decide)).trans hr
  have hq := pipe_queue _ _ _ _ hreach
  refine ⟨c, hreach, eq_ret_of_value h0, eq_ret_of_value h1, hacc, hdel, ?_, hnread⟩
  have hrest := hq.rest hfree
  rw [hacc, hdel] at hrest
  simpa using hrest.symm

end Xv6.Ipc.Fifo
