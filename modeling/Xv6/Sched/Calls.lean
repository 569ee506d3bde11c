import Xv6.Conc.Extend
import Xv6.Sched.Follow

/-!
System calls with what they return, one after the other, and a history of them: it sees every
action, and is told when a process begins a call.
-/

namespace Xv6.Sched.Calls

open Xv6.Conc Xv6.Conc.Prog Xv6.Conc.Proto Xv6.Sched.Table Xv6.Sched.Kernel Xv6.Sched.Handoff
  Xv6.Sched.Protocol Xv6.Sched.Switch Xv6.Sched.Specs Xv6.Sched.Follow

variable {NPROC NCPU : ℕ} {ι κ : Type} [DecidableEq ι] [DecidableEq κ] (initproc : Fin NPROC)

/-! ### The system -/

def setkilled (p : Fin NPROC) : P NPROC ι κ Unit := do
  act (.acquire (.proc p))
  act (.set p (.killed true))
  act (.release (.proc p))

/-- `usertrap` of an exception that it cannot handle. -/
def fault : P NPROC ι κ Unit := do
  let p ← self
  setkilled p
  let k ← killed p
  whenever (k = true) (kexit initproc (-1))

/-- Why a process enters the kernel. -/
inductive Request (ι κ : Type)
  | fork
  | exit (status : ℤ)
  | wait (addr : Bool)
  | kill (pid : ℤ)
  | fault
  /-- Any other calls; those that kill are requests of their own. -/
  | other (cs : List (Cmd ι κ)) (h : ∀ pid, .kill pid ∉ cs)

def serve : Request ι κ → P NPROC ι κ ℤ
  | .fork => kfork
  | .exit status => do
    kexit initproc status
    return 0
  | .wait addr => kwait addr
  | .kill pid => kkill pid
  | .fault => do
    fault initproc
    return 0
  | .other cs _ => do
    runCmds cs []
    return 0

/-- An interrupt handler on top of what was interrupted. -/
def interrupted (handler : P NPROC ι κ Unit) (rest : P NPROC ι κ ℤ) : P NPROC ι κ ℤ := do
  handler
  act .intrOn
  rest

section System

variable {H : Type} (watch : Ctx NPROC NCPU → (a : Act NPROC ι κ) → Res a → St NPROC NCPU ι κ → H → H)
  (onCall : Fin NPROC → Option (Request ι κ) → H → H)

/-- `Kernel.Enter`, for the calls of `Request`. The history learns of a new process, too. -/
inductive Enter : Ctx NPROC NCPU → St NPROC NCPU ι κ × H → P NPROC ι κ ℤ →
    St NPROC NCPU ι κ × H → P NPROC ι κ ℤ → Prop
  | start {p : Fin NPROC} {s : St NPROC NCPU ι κ} {h : H} {rest : P NPROC ι κ ℤ}
      (hf : s.fresh p = true) :
      Enter (.proc p) (s, h) rest
        ({ s with fresh := Function.update s.fresh p false }, onCall p none h)
        (do forkret; return 0)
  | call {p : Fin NPROC} {s : St NPROC NCPU ι κ} {h : H} {v : ℤ} (c : Fin NCPU)
      (hc : (s.cpu c).running = .proc p) (hs : s.fresh p = false) (req : Request ι κ) :
      Enter (.proc p) (s, h) (.ret v) (s, onCall p (some req) h) (serve initproc req)
  | device {t : Ctx NPROC NCPU} {s : St NPROC NCPU ι κ} {h : H} {rest : P NPROC ι κ ℤ} (c : Fin NCPU)
      (hc : (s.cpu c).running = t) (hs : Started s t) (hi : (s.cpu c).intr = true) (i : ι) :
      Enter t (s, h) rest (setCpu c { s.cpu c with intr := false } s, h)
        (interrupted (waker i) rest)
  | timer {p : Fin NPROC} {s : St NPROC NCPU ι κ} {h : H} {rest : P NPROC ι κ ℤ} (c : Fin NCPU)
      (hc : (s.cpu c).running = .proc p) (hs : s.fresh p = false) (hi : (s.cpu c).intr = true) :
      Enter (.proc p) (s, h) rest (setCpu c { s.cpu c with intr := false } s, h)
        (interrupted yield rest)

def calls (NCPU : ℕ)
    (watch : Ctx NPROC NCPU → (a : Act NPROC ι κ) → Res a → St NPROC NCPU ι κ → H → H) :
    Sys (St NPROC NCPU ι κ × H) (Ctx NPROC NCPU) (Fin NCPU × Bool) (Act NPROC ι κ) Res ℤ :=
  ((sys initproc NCPU).observe watch).reenter (Enter initproc onCall)

/-- As `Kernel.boot`, with the history `h`. -/
def boot (NCPU : ℕ) (cond : ι → Bool) (h : H) :
    Pool (St NPROC NCPU ι κ × H) (Ctx NPROC NCPU) (Act NPROC ι κ) Res ℤ where
  shared := ((Kernel.boot initproc NCPU cond).shared, h)
  thread := fun
    | .sched _ => do
      scheduler
      return 0
    | .proc _ => .ret 0

end System

/-! ### Programs that keep to plain actions -/

/-- The actions that neither make a process, end it, kill it nor put it to sleep. -/
def Plain : Act NPROC ι κ → Prop
  | .set _ (.state st) => st = .runnable ∨ st = .running
  | .set _ _ | .fails => False
  | .acquire l | .release l => l ≠ .wait
  | _ => True

section Plain

variable {p q : Fin NPROC}

omit [DecidableEq ι] [DecidableEq κ]

lemma all_whenever {N : Act NPROC ι κ → Prop} {b : Prop} [Decidable b] {x : P NPROC ι κ Unit}
    (h : b → x.All N) : (whenever b x).All N := by
  unfold whenever
  split_ifs with hb
  · exact h hb
  · trivial

lemma all_self : (self : P NPROC ι κ (Fin NPROC)).All Plain := by
  refine all_then trivial fun o => ?_
  cases o with
  | some p => trivial
  | none => exact ⟨trivial, fun r => r.elim⟩

lemma all_sched : (sched : P NPROC ι κ Unit).All Plain :=
  all_bind all_self fun _ => ⟨trivial, fun _ => ⟨trivial, fun _ => ⟨trivial, fun _ => trivial⟩⟩⟩

lemma all_yield : (yield : P NPROC ι κ Unit).All Plain := by
  refine all_bind all_self fun p => all_then (by simp [Plain]) fun _ => ?_
  refine all_then (.inl rfl) fun _ => all_bind all_sched fun _ => ?_
  exact ⟨by simp [Plain], fun _ => trivial⟩

lemma all_scheduler : (scheduler : P NPROC ι κ Unit).All Plain := by
  refine all_then trivial fun _ => all_iterate.mpr fun ps => ?_
  cases ps with
  | nil => exact ⟨trivial, fun _ => ⟨trivial, fun _ => trivial⟩⟩
  | cons p ps =>
    refine all_then (by simp [Plain]) fun _ => all_then trivial fun pr => ?_
    refine all_bind (all_whenever fun _ => ?_) fun _ => ⟨by simp [Plain], fun _ => trivial⟩
    exact ⟨.inr rfl, fun _ => ⟨trivial, fun _ => ⟨trivial, fun _ => ⟨trivial, fun _ => trivial⟩⟩⟩⟩

lemma all_forkret : (forkret : P NPROC ι κ Unit).All Plain :=
  all_bind all_self fun _ => ⟨by simp [Plain], fun _ => ⟨trivial, fun _ => trivial⟩⟩

lemma all_killed : (killed p : P NPROC ι κ Bool).All Plain :=
  ⟨by simp [Plain], fun _ => ⟨trivial, fun _ => ⟨by simp [Plain], fun _ => trivial⟩⟩⟩

lemma all_allocpid : (allocpid : P NPROC ι κ ℤ).All Plain :=
  ⟨by simp [Plain], fun _ => ⟨trivial, fun _ => ⟨by simp [Plain], fun _ => trivial⟩⟩⟩

end Plain

lemma all_wakeup {k : Option (Chan NPROC ι κ)} : (wakeup k : P NPROC ι κ Unit).All Plain := by
  refine all_iterate.mpr fun ps => ?_
  cases ps with
  | nil => trivial
  | cons q ps =>
    refine all_then trivial fun me => all_bind (all_whenever fun _ => ?_) fun _ => trivial
    refine all_then (by simp [Plain]) fun _ => all_then trivial fun pr => ?_
    refine all_bind (all_whenever fun _ => ?_) fun _ => ⟨by simp [Plain], fun _ => trivial⟩
    exact ⟨.inl rfl, fun _ => trivial⟩

lemma all_waker {i : ι} : (waker i : P NPROC ι κ Unit).All Plain := by
  refine all_then (by simp [Plain]) fun _ => all_then trivial fun _ => ?_
  exact all_bind all_wakeup fun _ => ⟨by simp [Plain], fun _ => trivial⟩

lemma all_releasesleep {j : κ} : (releasesleep j : P NPROC ι κ Unit).All Plain := by
  refine all_then (by simp [Plain]) fun _ => all_then trivial fun _ => all_then trivial fun _ => ?_
  exact all_bind all_wakeup fun _ => ⟨by simp [Plain], fun _ => trivial⟩

/-! ### Extensions of the protocol -/

section Extension

variable {H K : Type}

/-- `Spec` in an extension. -/
abbrev ESpec (initproc : Fin NPROC) (S' : Sys (St NPROC NCPU ι κ × H) (Ctx NPROC NCPU)
      (Fin NCPU × Bool) (Act NPROC ι κ) Res ℤ)
    (J : St NPROC NCPU ι κ → H → (Ctx NPROC NCPU → K) → Prop)
    (M : Act NPROC ι κ → Ghost NPROC ι κ → K → Prop) (t : Ctx NPROC NCPU) (a : Act NPROC ι κ)
    (g : Ghost NPROC ι κ × K) (Q : Res a → Ghost NPROC ι κ × K → Prop) : Prop :=
  ((proto initproc).extend S' J M).Spec t a g Q

abbrev ewp (initproc : Fin NPROC) (S' : Sys (St NPROC NCPU ι κ × H) (Ctx NPROC NCPU)
      (Fin NCPU × Bool) (Act NPROC ι κ) Res ℤ)
    (J : St NPROC NCPU ι κ → H → (Ctx NPROC NCPU → K) → Prop)
    (M : Act NPROC ι κ → Ghost NPROC ι κ → K → Prop) (t : Ctx NPROC NCPU) {β : Type}
    (x : P NPROC ι κ β) (Q : β → Ghost NPROC ι κ × K → Prop) (g : Ghost NPROC ι κ × K) : Prop :=
  ((proto initproc).extend S' J M).wp t x Q g

/-- A process that has returned `v` is in user space, or has not started. -/
def Done (fin : Fin NPROC → ℤ → K → Prop) (t : Ctx NPROC NCPU) (v : ℤ)
    (g : Ghost NPROC ι κ × K) : Prop :=
  Follow.Q t () g.1 ∧ ∀ p, t = .proc p → fin p v g.2

/-- What an extension must see to where the environment interferes. `Idle` is what is known of
a thread that may be interrupted, `fin p v` of a process that has returned `v`. -/
structure Tolerant (initproc : Fin NPROC) (S' : Sys (St NPROC NCPU ι κ × H) (Ctx NPROC NCPU)
      (Fin NCPU × Bool) (Act NPROC ι κ) Res ℤ)
    (onCall : Fin NPROC → Option (Request ι κ) → H → H)
    (J : St NPROC NCPU ι κ → H → (Ctx NPROC NCPU → K) → Prop)
    (M : Act NPROC ι κ → Ghost NPROC ι κ → K → Prop) (Idle : K → Prop)
    (fin : Fin NPROC → ℤ → K → Prop) : Prop where
  /-- Plain actions touch nothing new. -/
  plain : ∀ t a g k (Q : Res a → Ghost NPROC ι κ → Prop), Plain a → Idle k →
    Spec initproc t a g Q →
    ESpec initproc S' J M t a (g, k) fun r g' => Q r g'.1 ∧ g'.2 = k
  /-- Nor does the interrupt enable bit, or that a process has started. -/
  congr : ∀ s s' h c, J s h c → s'.proc = s.proc → s'.lock = s.lock → running s' = running s →
    J s' h c
  /-- Where interrupts are on, a thread is idle. -/
  idle : ∀ s (γ : Ctx NPROC NCPU → Ghost NPROC ι κ) h c k, Protocol.Inv s γ → J s h c →
    intr s k = true → Idle (c (running s k))
  start : ∀ s h c p, J s h c → s.fresh p = true →
    ∃ k, Idle k ∧ fin p 0 k ∧ J s (onCall p none h) (Function.update c (.proc p) k)
  serve : ∀ s h c p v req, J s h c → fin p v (c (.proc p)) →
    ∃ k, J s (onCall p (some req) h) (Function.update c (.proc p) k) ∧ ∀ sl,
      ewp initproc S' J M (.proc p) (serve initproc req) (Done fin (.proc p : Ctx NPROC NCPU))
        (calm [] none sl, k)

variable {initproc : Fin NPROC}
  {watch : Ctx NPROC NCPU → (a : Act NPROC ι κ) → Res a → St NPROC NCPU ι κ → H → H}
  {onCall : Fin NPROC → Option (Request ι κ) → H → H}
  {S' : Sys (St NPROC NCPU ι κ × H) (Ctx NPROC NCPU) (Fin NCPU × Bool) (Act NPROC ι κ) Res ℤ}
  {J : St NPROC NCPU ι κ → H → (Ctx NPROC NCPU → K) → Prop}
  {M : Act NPROC ι κ → Ghost NPROC ι κ → K → Prop} {Idle : K → Prop}
  {fin : Fin NPROC → ℤ → K → Prop} {t : Ctx NPROC NCPU} {g : Ghost NPROC ι κ} {k : K}

/-- A plain program of the protocol, in an extension. -/
lemma Tolerant.frame (h : Tolerant initproc S' onCall J M Idle fin) (hk : Idle k) {β : Type}
    {x : P NPROC ι κ β} (hx : x.All Plain) {Q : β → Ghost NPROC ι κ → Prop}
    (hw : wp initproc t x Q g) :
    ewp initproc S' J M t x (fun r g' => Q r g'.1 ∧ g'.2 = k) (g, k) :=
  wp_frame (fun a g Q ha hs => h.plain t a g k Q ha hk hs) hx hw

lemma Tolerant.interrupted (h : Tolerant initproc S' onCall J M Idle fin) (hk : Idle k)
    {handler : P NPROC ι κ Unit} {rest : P NPROC ι κ ℤ} {Q : ℤ → Ghost NPROC ι κ × K → Prop}
    {ow : Option (Fin NPROC × Bool)} {sl : List κ} (hx : handler.All Plain)
    (hh : wp initproc t handler (fun _ g' => g' = calm [] ow sl) (calm [] ow sl))
    (hr : ewp initproc S' J M t rest Q (calm [] ow sl, k)) :
    ewp initproc S' J M t (interrupted handler rest) Q (calm [] ow sl, k) := by
  refine wp_call (h.frame hk hx hh) fun _ g' ⟨h1, h2⟩ => ?_
  obtain ⟨g', k'⟩ := g'
  obtain rfl : g' = _ := h1
  obtain rfl : k' = k := h2
  refine wp_act (h.plain _ _ _ _ _ trivial hk (spec_intrOn rfl)) fun _ g' ⟨h1, h2⟩ => ?_
  obtain ⟨g', k''⟩ := g'
  obtain rfl : g' = _ := h1
  obtain rfl : k'' = k' := h2
  exact hr

omit [DecidableEq ι] [DecidableEq κ] in
/-- The invariant of an extension, from its two halves. -/
lemma ext_update {s : St NPROC NCPU ι κ} {h : H} {γ : Ctx NPROC NCPU → Ghost NPROC ι κ × K}
    (hi : Protocol.Inv s (Function.update (fun u => (γ u).1) t g))
    (hj : J s h (Function.update (fun u => (γ u).2) t k)) :
    Protocol.Inv s (fun u => (Function.update γ t (g, k) u).1) ∧
      J s h fun u => (Function.update γ t (g, k) u).2 := by
  rw [update_fst, update_snd]
  exact ⟨hi, hj⟩

/-- **New work keeps an extension.** -/
theorem Tolerant.enters (h : Tolerant initproc S' onCall J M Idle fin)
    (hS : S'.enter = Enter initproc onCall) :
    ((proto initproc).extend S' J M).Enters (Done fin) := by
  intro t s γ x s' x' hi hw henter
  change Ctx NPROC NCPU → Ghost NPROC ι κ × K at γ
  change Protocol.Inv s.1 (fun t => (γ t).1) ∧ J s.1 s.2 (fun t => (γ t).2) at hi
  change ewp initproc S' J M t x (Done fin t) (γ t) at hw
  change ∃ g' : Ghost NPROC ι κ × K, (Protocol.Inv s'.1 (fun u => (Function.update γ t g' u).1) ∧
    J s'.1 s'.2 fun u => (Function.update γ t g' u).2) ∧ ewp initproc S' J M t x' (Done fin t) g'
  obtain ⟨hi, hj⟩ := hi
  rw [hS] at henter
  -- the thread is interrupted
  have hintr : ∀ c handler, running s.1 c = t → (s.1.cpu c).intr = true → handler.All Plain →
      (∀ ow sl, wp initproc t handler (fun _ g' => g' = calm [] ow sl) (calm [] ow sl)) →
      ∃ g' : Ghost NPROC ι κ × K,
        (Protocol.Inv (setCpu c { s.1.cpu c with intr := false } s.1)
            (fun u => (Function.update γ t g' u).1) ∧
          J (setCpu c { s.1.cpu c with intr := false } s.1) s.2
            fun u => (Function.update γ t g' u).2) ∧
        ewp initproc S' J M t (Calls.interrupted handler x) (Done fin t) g' := by
    intro c handler hc hint hx hh
    have hidle := h.idle s.1 _ s.2 _ c hi hj hint
    rw [hc] at hidle
    refine ⟨γ t, ?_, ?_⟩
    · rw [Function.update_eq_self]
      refine ⟨step_setIntr hi (by simp), h.congr _ _ _ _ hj rfl rfl ?_⟩
      exact cpu_same Cpu.running rfl
    · have hcalm := calm_of_intr hi hc hint
      have hsplit : γ t = (calm [] (γ t).1.owns (γ t).1.slocks, (γ t).2) := Prod.ext hcalm rfl
      rw [hsplit] at hw ⊢
      exact h.interrupted hidle hx (hh _ _) hw
  cases henter with
  | @start p s o rest hf =>
    obtain ⟨k, hk, hfin, hjk⟩ := h.start _ _ _ p hj hf
    refine ⟨_, ext_update (step_start hi hf rfl) (h.congr _ _ _ _ hjk rfl rfl rfl), ?_⟩
    refine wp_call (h.frame hk all_forkret forkret_wp) fun _ g' ⟨h1, h2⟩ => ?_
    obtain ⟨g', k'⟩ := g'
    obtain rfl : k' = k := h2
    exact ⟨.inr ⟨_, h1⟩, fun q hq => by cases hq; exact hfin⟩
  | @call p s o v c hc hf req =>
    obtain ⟨hq, hfin⟩ := hw
    obtain ⟨k, hjk, hwp⟩ := h.serve _ _ _ p v req hj (hfin p rfl)
    rcases hq with hm | ⟨sl, hg⟩
    · have hrun := hi.disp.running c p hc
      rw [show (γ (.proc p)).1.mode = .saved true from hm, hf] at hrun
      simp [Running] at hrun
    · refine ⟨_, ext_update ?_ hjk, hwp sl⟩
      rwa [update_of_eq (γ := fun u => (γ u).1) hg]
  | device c hc _ hint i => exact hintr c _ hc hint all_waker fun _ _ => waker_wp
  | timer c hc _ hint => exact hintr c _ hc hint all_yield fun _ _ => yield_wp

/-- The state after boot is within an extension. -/
lemma Tolerant.follows_boot (h : Tolerant initproc S' onCall J M Idle fin) (hk : Idle k)
    (hfin : ∀ p, fin p 0 k) {cond : ι → Bool} {o : H}
    (hj : J (Kernel.boot initproc NCPU cond).shared o fun _ => k) :
    ((proto initproc).extend S' J M).Follows (Done fin) (boot initproc NCPU cond o) := by
  refine ⟨fun t => (bootGhost t, k), ⟨inv_boot cond, hj⟩, fun t => ?_⟩
  cases t with
  | sched c =>
    refine wp_call (h.frame hk all_scheduler (scheduler_wp (Q := fun _ _ => False)))
      fun _ g' ⟨h1, _⟩ => h1.elim
  | proc p => exact ⟨.inl rfl, fun q hq => by cases hq; exact hfin p⟩

end Extension

/-! ### Who holds a lock -/

section Holds

variable {s s' : St NPROC NCPU ι κ} {t u : Ctx NPROC NCPU} {c : Fin NCPU} {fail : Bool}
  {l : Lock NPROC ι κ} {a : Act NPROC ι κ} {r : Res a}

/-- Thread `t` is on a CPU that holds `l`. -/
def Holds (s : St NPROC NCPU ι κ) (t : Ctx NPROC NCPU) (l : Lock NPROC ι κ) : Prop :=
  ∃ c, running s c = t ∧ s.lock l = some c

omit [DecidableEq ι] [DecidableEq κ]

lemma Holds.excl (h : Holds s t l) (h' : Holds s u l) : t = u := by
  obtain ⟨c, hc, hl⟩ := h
  obtain ⟨c', hc', hl'⟩ := h'
  rw [hl] at hl'
  cases hl'
  exact hc.symm.trans hc'

lemma Holds.congr (h : Holds s t l) (hl : s'.lock = s.lock) (hr : running s' = running s) :
    Holds s' t l := by
  obtain ⟨c, hc, hlock⟩ := h
  exact ⟨c, by rwa [hr], by rwa [hl]⟩

lemma holds_of_mem {γ : Ctx NPROC NCPU → Ghost NPROC ι κ} (hi : Protocol.Inv s γ)
    (hm : (γ t).mode.parked = false) (hl : l ∈ (γ t).locks) : Holds s t l := by
  obtain ⟨c, hc, hlock⟩ := hi.lock_eq hm hl
  exact ⟨c, hc, hlock⟩

lemma sem_ok [DecidableEq ι] [DecidableEq κ] {ch : Fin NCPU × Bool}
    {o : Outcome (St NPROC NCPU ι κ) (Res a)} (h : sem t a ch s = some o) :
    running s ch.1 = t ∧ step ch.1 ch.2 a s = some o := by
  unfold sem at h
  split_ifs at h with hc
  exact ⟨hc.1, h⟩

/-- The actions by which a thread loses lock `l`. -/
def Loses (l : Lock NPROC ι κ) : Act NPROC ι κ → Prop
  | .release l' => l' = l
  | .swtchTo _ | .swtchBack => True
  | _ => False

/-- A lock is lost by its holder only, and only by what `Loses` lists. -/
lemma Holds.step [DecidableEq ι] [DecidableEq κ] (h : Holds s u l) (hc : running s c = t)
    (hu : u ≠ t ∨ ¬ Loses l a) (ho : step c fail a s = some (.ok s' r)) : Holds s' u l := by
  obtain ⟨k, hk, hl⟩ := h
  have hcpu : u ≠ t → k ≠ c := by
    rintro hne rfl
    exact hne (hk.symm.trans hc)
  have hrun : ∀ v : Cpu NPROC NCPU, v.running = (s.cpu c).running →
      running (setCpu c v s) k = u := fun v hv => (congrFun (cpu_same Cpu.running hv) k).trans hk
  cases a with
  | acquire l' =>
    simp only [Table.step] at ho
    split_ifs at ho with h1 h2 <;> cases ho
    have hne : l ≠ l' := by
      rintro rfl
      rw [hl] at h2
      simp at h2
    refine ⟨k, ?_, by simpa [setLock, pushOff, setCpu, hne] using hl⟩
    change running (pushOff c s) k = u
    exact hrun _ (by rfl)
  | release l' =>
    simp only [Table.step] at ho
    split_ifs at ho with h1 <;> cases ho
    have hne : l ≠ l' := by
      rintro rfl
      rcases hu with hu | hu
      · rw [hl] at h1
        simp only [ne_eq, Option.some.injEq, Decidable.not_not] at h1
        exact hcpu hu h1
      · exact hu rfl
    refine ⟨k, ?_, by simpa [setLock, popOff, setCpu, hne] using hl⟩
    change running (popOff c s) k = u
    exact hrun _ (by rfl)
  | swtchBack | swtchTo p =>
    cases ho
    have hkc : k ≠ c := hcpu (hu.resolve_right fun hn => hn trivial)
    exact ⟨k, by simpa [running, setCpu, hkc] using hk, hl⟩
  | intrOn | intrOff | setIntena b | setCpuProc o =>
    cases ho
    exact ⟨k, hrun _ (by rfl), hl⟩
  | checkSched p =>
    simp only [Table.step] at ho
    split_ifs at ho <;> cases ho
    exact ⟨k, hk, hl⟩
  | panic msg => cases ho
  | _ =>
    cases ho
    exact ⟨k, hk, hl⟩

/-- Only assignments change the process table. -/
lemma step_proc [DecidableEq ι] [DecidableEq κ] (ho : step c fail a s = some (.ok s' r)) :
    (∃ q f, a = .set q f ∧ s' = setProc q (f.write (s.proc q)) s) ∨ s'.proc = s.proc := by
  cases a with
  | set q f => cases ho; exact .inl ⟨q, f, rfl, rfl⟩
  | acquire l | release l | checkSched p =>
    right
    simp only [Table.step] at ho
    split_ifs at ho <;> cases ho
    rfl
  | panic msg => cases ho
  | _ => right; cases ho; rfl

end Holds

/-! ### Runs by hand -/

section Moves

variable {H : Type} {onCall : Fin NPROC → Option (Request ι κ) → H → H}
  {S : Sys (St NPROC NCPU ι κ × H) (Ctx NPROC NCPU) (Fin NCPU × Bool) (Act NPROC ι κ) Res ℤ}

/-- What a program that is over has returned. -/
def result {α : Type} : P NPROC ι κ α → Option α
  | .ret a => some a
  | _ => none

/-- As `Kernel.Event`; `fail` says whether allocations and copies fail. -/
inductive Move (NPROC NCPU : ℕ) (ι κ : Type)
  | run (t : Ctx NPROC NCPU) (k : Fin NCPU) (fail : Bool) (n : ℕ)
  | start (p : Fin NPROC)
  | call (p : Fin NPROC) (c : Fin NCPU) (req : Request ι κ)

variable (S onCall) in
def Move.make (c : Pool (St NPROC NCPU ι κ × H) (Ctx NPROC NCPU) (Act NPROC ι κ) Res ℤ) :
    Move NPROC NCPU ι κ →
      Option (Pool (St NPROC NCPU ι κ × H) (Ctx NPROC NCPU) (Act NPROC ι κ) Res ℤ)
  | .run t k fail n => schedule S [(t, (k, fail), n)] c
  | .start p =>
    if c.shared.1.fresh p = true then
      some ⟨({ c.shared.1 with fresh := Function.update c.shared.1.fresh p false },
          onCall p none c.shared.2),
        Function.update c.thread (.proc p) (do forkret; return 0)⟩
    else none
  | .call p c' req =>
    match c.thread (.proc p) with
    | .ret _ =>
      if (c.shared.1.cpu c').running = .proc p ∧ c.shared.1.fresh p = false then
        some ⟨(c.shared.1, onCall p (some req) c.shared.2),
          Function.update c.thread (.proc p) (serve initproc req)⟩
      else none
    | _ => none

variable (S onCall) in
def play : List (Move NPROC NCPU ι κ) →
    Pool (St NPROC NCPU ι κ × H) (Ctx NPROC NCPU) (Act NPROC ι κ) Res ℤ →
    Option (Pool (St NPROC NCPU ι κ × H) (Ctx NPROC NCPU) (Act NPROC ι κ) Res ℤ)
  | [], c => some c
  | e :: es, c =>
    match e.make initproc onCall S c with
    | some c' => play es c'
    | none => none

variable {c c' : Pool (St NPROC NCPU ι κ × H) (Ctx NPROC NCPU) (Act NPROC ι κ) Res ℤ}

end Moves

end Xv6.Sched.Calls
