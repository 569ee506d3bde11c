import Xv6.Proc.Reaping

/-!
Exit and wait: while `wait_lock` is free every parent is alive, and no process sleeps in `kwait`
while a child of its is a zombie. Every exit is reaped at most once, by the parent.
-/

namespace Xv6.Proc.Delivery

open Xv6.Conc Xv6.Conc.Prog Xv6.Conc.Proto Xv6.Proc.Coarse Xv6.Proc.Kin Xv6.Proc.Rules Xv6.Proc.Changes
  Xv6.Proc.Reaping
open Xv6.Proc.Family hiding Call
open Xv6.Sched.Kernel hiding boot
open Xv6.Sched.Table hiding step sem setProc setLock

variable {NPROC NCPU : ℕ} {ι : Type} [DecidableEq ι] {g : Ghost NPROC ι} {p : Fin NPROC}
  {initproc : Fin NPROC} {n : ℤ}

/-! ### Threads that have returned -/

/-- What a call returns, if it is one of `kwait`. -/
def Answer (c : Family.Call NPROC ι) (n v : ℤ) : Prop :=
  ∀ addr, c.req = some (.wait addr) →
    (∃ i, c.got = some i ∧ c.failed = none ∧ v = n) ∨ c.got = none ∧ v = -1

def Done : Ctx NPROC NCPU → ℤ → Ghost NPROC ι → Prop
  | .proc _, v, g =>
    g.phase = .gone ∨ g = busy none none none g.call g.pid ∧ Answer g.call g.pid v
  | .sched _, _, g => g = busy none none none g.call g.pid

/-- A call that is not one of `kwait`, and has just begun. -/
abbrev calling (req : Option (Request ι)) : Family.Call NPROC ι := ⟨req, none, none⟩

omit [DecidableEq ι] in
lemma done_of_eq {v : ℤ} {req : Option (Request ι)} (hreq : ∀ addr, req ≠ some (.wait addr))
    (hg : g = busy none none none (calling req) n) : Done (.proc p : Ctx NPROC NCPU) v g := by
  subst hg
  exact .inr ⟨rfl, fun addr h => absurd h (hreq addr)⟩

/-- **Every call follows the protocol.** -/
theorem serve_wp {req : Request ι} :
    wp initproc (.proc p : Ctx NPROC NCPU) (serve initproc req) (Done (.proc p : Ctx NPROC NCPU))
      (busy none none none (calling (some req)) n) := by
  cases req with
  | fork => exact wp_mono (kfork_wp (by simp)) fun _ g' hg' => done_of_eq (by simp) hg'
  | exit status => exact wp_call (I := fun _ _ => False) (kexit_wp rfl) fun _ _ h => h.elim
  | wait addr =>
    refine wp_mono kwait_wp fun v g' ⟨hg', hreq, hv⟩ => .inr ⟨hg', fun _ _ => hv⟩
  | kill pid => exact wp_mono kkill_wp fun _ g' hg' => done_of_eq (by simp) hg'
  | nap i => exact wp_next (nap_wp (by simp)) fun _ => done_of_eq (by simp) rfl
  | rouse i => exact wp_next rouse_wp fun _ => done_of_eq (by simp) rfl

/-- A new process releases its lock. -/
lemma forkret_wp {c : Family.Call NPROC ι} :
    wp initproc (.proc p : Ctx NPROC NCPU) forkret (fun _ g' => g' = busy none none none c n)
      (busy none (some ⟨p, none, false⟩) none c n) :=
  wp_self rfl (wp_release (wp_perform (spec_idle rfl trivial)))

theorem enters (initproc : Fin NPROC) :
    (kin initproc : Proto (family (ι := ι) initproc NCPU)).Enters Done := by
  intro t s γ x s' x' hi hw henter
  change Ctx NPROC NCPU → Ghost NPROC ι at γ
  change Inv s initproc γ at hi
  cases henter with
  | @start p w h rest hf hs hl =>
    have hlocal := hi.each (.proc p)
    have hgone : (γ (.proc p)).phase = .gone := by
      have hphase := hlocal.phase p rfl
      cases hg : (γ (.proc p)).phase with
      | gone => rfl
      | asleep kids =>
        rw [hg] at hphase
        exact absurd (hf.symm.trans hphase.2.1) (by simp)
      | awake =>
        rw [hg] at hphase
        exact absurd (hs.symm.trans hphase.1) (by simp)
      | falling b =>
        rw [hg] at hphase
        exact absurd (hs.symm.trans hphase.1) (by simp)
    -- the lock is free, so the process that was in the slot before has left it
    obtain ⟨hgrip, hhold, hmaking⟩ := (hlocal.gone p rfl hgone).resolve_left fun ⟨k, hk, hslot⟩ => by
      have hlock := (hlocal.grip k hk).lock
      rw [hslot] at hlock
      exact absurd (hl.symm.trans hlock) (by simp)
    have hres := resume_inv hi rfl hs hl hgrip hhold hmaking
    have hcall := call_inv (c := calling none) hres (Function.update_self ..) rfl
      (fun q hq => by cases hq) fun n hn => by cases hn
    rw [Function.update_idem] at hcall
    refine ⟨_, hcall, ?_⟩
    rw [hhold, hmaking]
    exact wp_next forkret_wp fun _ => done_of_eq (by simp) rfl
  | @call p s v req hs hf =>
    have hphase := (hi.each (.proc p)).phase p rfl
    have hdone : (γ (.proc p)).phase = .gone ∨
        γ (.proc p) = busy none none none (γ (.proc p)).call (γ (.proc p)).pid ∧ _ := hw
    obtain ⟨hg, -⟩ := hdone.resolve_left fun hgone => by
      rw [hgone] at hphase
      exact hphase.1 hs
    have hcall := call_inv (c := calling (some req)) hi hg rfl
      (fun q hq => by cases hq) fun n hn => by cases hn
    exact ⟨_, hcall, serve_wp⟩
  | @interrupt c s v i =>
    have hg : γ (.sched c) = busy none none none (γ (.sched c)).call (γ (.sched c)).pid := hw
    have hi' : Inv s initproc (Function.update γ (.sched c) (γ (.sched c))) := by
      rwa [Function.update_eq_self]
    refine ⟨γ (.sched c), hi', ?_⟩
    rw [hg]
    exact wp_next rouse_wp fun _ => rfl

/-! ### Boot -/

/-- What is known at boot: only the first process is there. -/
def bootGhost (initproc : Fin NPROC) : Ctx NPROC NCPU → Ghost NPROC ι
  | .proc p => if p = initproc then busy none none none (calling none) 0
    else { busy none none none (calling none) 0 with phase := .gone }
  | .sched _ => busy none none none (calling none) 0

omit [DecidableEq ι] in
lemma boot_state (NCPU : ℕ) (initproc q : Fin NPROC) :
    (((boot (ι := ι) initproc NCPU).shared.1.proc q).state = .running ∧ q = initproc ∨
      ((boot (ι := ι) initproc NCPU).shared.1.proc q).state = .unused ∧ q ≠ initproc) ∧
    ((boot (ι := ι) initproc NCPU).shared.1.proc q).parent = none := by
  by_cases hq : q = initproc <;> simp [boot, hq]

/-- What a call of `kwait` by `p` that returns `v` has done: it has reaped the child whose pid it
returns, or none. -/
def Outcome (h : History NPROC ι) (p : Fin NPROC) (v : ℤ) : Prop :=
  (∃ n r, (h.call p).got = some n ∧ (h.call p).failed = none ∧ h.reaps[n]? = some r ∧ r.reaper = p ∧
    r.pid = v) ∨
  (h.call p).got = none ∧ v = -1

end Xv6.Proc.Delivery
