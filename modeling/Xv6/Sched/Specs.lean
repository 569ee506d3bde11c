import Xv6.Sched.Switch

/-!
The protocol of the scheduling code: what a thread may do with what it knows, and what it
knows afterwards.
-/

namespace Xv6.Sched.Specs

open Xv6.Conc Xv6.Conc.Prog Xv6.Conc.Proto Xv6.Sched.Table Xv6.Sched.Kernel Xv6.Sched.Handoff
  Xv6.Sched.Protocol Xv6.Sched.Switch

variable {NPROC NCPU : ℕ} {ι κ : Type}

/-- `p` is locked, and was read in a state in which no CPU executes it. -/
def Quiet (g : Ghost NPROC ι κ) (p : Fin NPROC) : Prop :=
  g.mode = .run ∧ ∃ a k, g.seen = some (p, a, k) ∧ a ≠ .running

/-- What a thread must know to dispatch a process or to free one. -/
def May : Act NPROC ι κ → Ghost NPROC ι κ → Prop
  | .set p (.state .running), g => g.mode = .run ∧ ∃ k, g.seen = some (p, .runnable, k)
  | .set p (.state .unused), g | .set p (.pid _), g => Quiet g p
  | .swtchTo p, g => g.mode = .aimed p
  | _, _ => True

variable [DecidableEq ι] [DecidableEq κ]

/-- Only the first process panics, when it exits. -/
def proto (initproc : Fin NPROC) :
    Proto (sys initproc NCPU : Sys (St NPROC NCPU ι κ) _ _ _ _ _) where
  Ghost := Ghost NPROC ι κ
  Inv := Inv
  May := May
  Ok msg := msg = "init exiting"

variable {initproc : Fin NPROC} {s s' : St NPROC NCPU ι κ}
  {γ : Ctx NPROC NCPU → Ghost NPROC ι κ} {t : Ctx NPROC NCPU} {c : Fin NCPU} {p q : Fin NPROC}
  {g : Ghost NPROC ι κ} {l : Lock NPROC ι κ} {fail : Bool}

/-- `Spec` in this protocol. -/
abbrev Spec (initproc : Fin NPROC) (t : Ctx NPROC NCPU) (a : Act NPROC ι κ) (g : Ghost NPROC ι κ)
    (Q : Res a → Ghost NPROC ι κ → Prop) : Prop :=
  (proto initproc).Spec t a g Q

abbrev wp (initproc : Fin NPROC) (t : Ctx NPROC NCPU) {β : Type} (x : P NPROC ι κ β)
    (Q : β → Ghost NPROC ι κ → Prop) (g : Ghost NPROC ι κ) : Prop :=
  (proto initproc).wp t x Q g

/-- A specification from what an action does on the CPU that executes the thread. -/
lemma spec_of {a : Act NPROC ι κ} {Q : Res a → Ghost NPROC ι κ → Prop} (hm : May a g)
    (h : ∀ (s : St NPROC NCPU ι κ) γ c fail o, Inv s γ → γ t = g → running s c = t → Started s t →
      step c fail a s = some o → match o with
        | .panic msg => msg = "init exiting"
        | .ok s' r => ∃ g', Inv s' (Function.update γ t g') ∧ Q r g') :
    Spec initproc t a g Q := by
  refine ⟨hm, fun s γ ch hi hg o ho => ?_⟩
  change sem t a ch s = some o at ho
  unfold sem at ho
  split_ifs at ho with hc
  have := h s γ ch.1 ch.2 o hi hg hc.1 hc.2 ho
  cases o with
  | ok s' r => exact this
  | panic msg => exact this

/-- An action that the invariant does not notice. -/
lemma spec_same {a : Act NPROC ι κ} (hm : May a g)
    (h : ∀ (s : St NPROC NCPU ι κ) c fail o, step c fail a s = some o →
      ∃ s' r, o = .ok s' r ∧ views s' = views s) :
    Spec initproc t a g fun _ g' => g' = g := by
  refine spec_of hm fun s γ c fail o hi hg _ _ ho => ?_
  obtain ⟨s', r, rfl, hv⟩ := h s c fail o ho
  exact ⟨g, by rw [update_of_eq hg]; exact hi.congr hv, rfl⟩

/-! ### Locks -/

lemma spec_acquire (hm : g.mode = .run) (hl : l ∉ g.locks) :
    Spec initproc t (.acquire l) g fun _ g' => g' = { g with locks := l :: g.locks } := by
  refine spec_of (by trivial) fun s γ c fail o hi hg hc _ ho => ?_
  subst hg
  cases o with
  | ok s' r => exact ⟨_, step_acquire hi hc hm rfl ho, rfl⟩
  | panic msg =>
    simp only [step] at ho
    split_ifs at ho with h1 <;> cases ho
    exact absurd ((hi.cpus.held c l).mp h1) (by rwa [hc])

/-- `release` of a lock that the thread holds does not panic. -/
lemma release_ok {msg : String} (hi : Inv s γ) (hc : running s c = t) (hl : l ∈ (γ t).locks) :
    step c fail (.release l) s ≠ some (.panic msg) := by
  subst hc
  have hlock := (hi.cpus.held c l).mpr hl
  have hlen := List.length_pos_of_mem hl
  have hoff : noff s c = (γ (running s c)).locks.length := hi.cpus.off c
  have hint : intr s c ≠ true := fun h => by
    have := hi.cpus.intr c h
    rw [show (γ (running s c)).locks = [] from this] at hl
    cases hl
  simp only [noff, intr] at hoff hint
  simp only [step, hlock, ne_eq, not_true, if_false]
  rw [if_neg hint, if_neg (by omega)]
  simp

lemma spec_release_proc (hm : g.mode = .run) (hl : .proc q ∈ g.locks) :
    Spec initproc t (.release (.proc q)) g fun _ g' =>
      g' = { g with locks := g.locks.erase (.proc q), seen := none } := by
  refine spec_of (by trivial) fun s γ c fail o hi hg hc _ ho => ?_
  subst hg
  cases o with
  | ok s' r => exact ⟨_, step_release_proc hi hc hm hl rfl ho, rfl⟩
  | panic msg => exact absurd ho (release_ok hi hc hl)

/-- `wakeup` is done with a process that, as it has read, is not asleep on the channel. -/
lemma spec_release_visit {k : Chan NPROC ι κ} {ps : List (Fin NPROC)} {a : PState}
    {k' : Option (Chan NPROC ι κ)} (hm : g.mode = .run) (hs : g.scan = some (k, q :: ps))
    (hseen : g.seen = some (q, a, k')) (hq : t ≠ .proc q) (hne : ¬ (a = .sleeping ∧ k' = some k)) :
    Spec initproc t (.release (.proc q)) g fun _ g' => g' = { g with
      locks := g.locks.erase (.proc q), seen := none, scan := some (k, ps) } := by
  refine spec_of (by trivial) fun s γ c fail o hi hg hc _ ho => ?_
  subst hg
  obtain ⟨hl, hst, hch⟩ := (hi.know t).seen q a k' hseen
  cases o with
  | panic msg => exact absurd ho (release_ok hi hc hl)
  | ok s' r =>
    have hcom : ¬ Committed (state s) (chan s) (fun u => (γ u).mode) q k := by
      rintro (⟨b, hb⟩ | ⟨h1, h2⟩)
      · replace hb : (γ (.proc q)).mode = .doze k b := hb
        have hown := (hi.know (.proc q)).locks
        rw [hb] at hown
        obtain ⟨q', hq', hmem⟩ := hown
        cases hq'
        exact hq (hi.excl hc hl (by simp [hb, Mode.parked]) hmem).symm
      · exact hne ⟨hst.symm.trans h1, hch.symm.trans h2⟩
    have hi' := step_visit hi hs hcom rfl
    have := step_release_proc hi' hc (q := q) (by simpa using hm) (by simpa using hl) rfl ho
    rw [Function.update_idem, Function.update_self] at this
    exact ⟨_, this, rfl⟩

lemma spec_release (hm : g.mode = .run ∨ ∃ a, g.mode = .leave a) (hl : l ∈ g.locks)
    (hq : ∀ q, l ≠ .proc q) (hs : ∀ k ps, g.scan = some (k, ps) → ps = []) :
    Spec initproc t (.release l) g fun _ g' =>
      g' = { g with locks := g.locks.erase l, tested := none, scan := none } := by
  refine spec_of (by trivial) fun s γ c fail o hi hg hc _ ho => ?_
  subst hg
  cases o with
  | ok s' r => exact ⟨_, step_release_cond hi hc hm hl hq hs rfl ho, rfl⟩
  | panic msg => exact absurd ho (release_ok hi hc hl)

/-- What `sleep` relies on: the condition was found false under the lock that it is given. -/
lemma spec_doze {k : Chan NPROC ι κ} (hm : g.mode = .run) (hown : .proc p ∈ g.locks)
    (hl : lockOf k ∈ g.locks) (hr : (∃ p, k = .proc p) ∨ g.tested = some (k, false))
    (hs : g.scan = none) :
    Spec initproc (.proc p : Ctx NPROC NCPU) (.release (lockOf k)) g fun _ g' => g' = { g with
      locks := g.locks.erase (lockOf k), mode := .doze k false, seen := none, tested := none } := by
  refine spec_of (by cases k <;> trivial) fun s γ c fail o hi hg hc hf ho => ?_
  subst hg
  cases o with
  | panic msg => exact absurd ho (release_ok hi hc hl)
  | ok s' r =>
    have hfalse : ready s k = false := by
      rcases hr with ⟨p, rfl⟩ | hr
      · rfl
      · exact ((hi.know (.proc p)).tested _ _ hr).2
    exact ⟨_, step_doze hi hc hm hf hown hl hfalse hs rfl ho, rfl⟩

lemma spec_intrOn (hl : g.locks = []) :
    Spec initproc t .intrOn g fun _ g' => g' = g := by
  refine spec_of (by trivial) fun s γ c fail o hi hg hc _ ho => ?_
  cases ho
  subst hg
  refine ⟨γ t, ?_, rfl⟩
  rw [Function.update_eq_self]
  exact step_setIntr hi fun _ => by rw [hc, hl]

lemma spec_intrOff : Spec initproc t .intrOff g fun _ g' => g' = g := by
  refine spec_of (by trivial) fun s γ c fail o hi hg hc _ ho => ?_
  cases ho
  subst hg
  refine ⟨γ t, ?_, rfl⟩
  rw [Function.update_eq_self]
  exact step_setIntr hi (by simp)

/-! ### Switching -/

/-- `myproc()` on the CPU of a process. -/
lemma spec_myproc :
    Spec initproc (.proc p : Ctx NPROC NCPU) .myproc g fun r g' => r = some p ∧ g' = g := by
  refine spec_of (by trivial) fun s γ c fail o hi hg hc _ ho => ?_
  cases ho
  subst hg
  exact ⟨γ (.proc p), by rwa [Function.update_eq_self], hi.disp.cproc c p hc, rfl⟩

/-- `myproc()` in `forkret`, where the process finds itself running. -/
lemma spec_myproc_start {f : Bool} (hm : g.mode = .saved f) :
    Spec initproc (.proc p : Ctx NPROC NCPU) .myproc g fun r g' =>
      r = some p ∧ g' = { g with mode := .run } := by
  refine spec_of (by trivial) fun s γ c fail o hi hg hc hf ho => ?_
  cases ho
  subst hg
  exact ⟨_, (step_resume hi hc hf hm rfl).2, hi.disp.cproc c p hc, rfl⟩

/-- `myproc()` in `wakeup`, which any thread may call. -/
lemma spec_myproc_any (hm : g.mode = .run) :
    Spec initproc t .myproc g fun r g' => (∀ q, r = some q ↔ t = .proc q) ∧ g' = g := by
  refine spec_of (by trivial) fun s γ c fail o hi hg hc _ ho => ?_
  cases ho
  subst hg
  refine ⟨γ t, by rwa [Function.update_eq_self], fun q => ?_, rfl⟩
  change cproc s c = some q ↔ t = .proc q
  cases t with
  | proc p => simp [hi.disp.cproc c p hc]
  | sched c' =>
    cases hi.cpus.home c c' hc
    simp [hi.disp.cprocSched c hc, hm, target]

/-- `wakeup` passes over its own process, which is awake. -/
lemma spec_myproc_visit {k : Chan NPROC ι κ} {ps : List (Fin NPROC)} (hm : g.mode = .run)
    (hs : g.scan = some (k, p :: ps)) :
    Spec initproc (.proc p : Ctx NPROC NCPU) .myproc g fun r g' =>
      r = some p ∧ g' = { g with scan := some (k, ps) } := by
  refine spec_of (by trivial) fun s γ c fail o hi hg hc hf ho => ?_
  cases ho
  subst hg
  have hrun := hi.disp.running c p hc
  rw [hm] at hrun
  refine ⟨_, step_visit hi hs ?_ rfl, hi.disp.cproc c p hc, rfl⟩
  rintro (⟨b, hb⟩ | ⟨h1, -⟩)
  · rw [show (γ (.proc p)).mode = .doze k b from hb] at hm
    cases hm
  · rw [hrun.1] at h1
    cases h1

/-- The checks of `sched`: only `p->lock` is held, and the state is changed. -/
lemma spec_checkSched {a : PState} (hm : g.mode = .leave a) (hl : g.locks = [.proc p]) :
    Spec initproc (.proc p : Ctx NPROC NCPU) (.checkSched p) g fun _ g' => g' = g := by
  refine spec_of (by trivial) fun s γ c fail o hi hg hc hf ho => ?_
  subst hg
  have hlock : s.lock (.proc p) = some c := (hi.cpus.held c _).mpr (by rw [hc, hl]; simp)
  have hoff : (s.cpu c).noff = 1 := by
    have := hi.cpus.off c
    rwa [hc, hl] at this
  have hint : (s.cpu c).intr = false := by
    by_contra h
    have := hi.cpus.intr c (show (s.cpu c).intr = true by simpa using h)
    rw [hc, hl] at this
    cases this
  have hst : (s.proc p).state ≠ .running := by
    have hrun := hi.disp.running c p hc
    rw [hm] at hrun
    rw [show (s.proc p).state = a from hrun.1]
    exact hrun.2.1
  simp only [step, hlock, hoff, hint, hst, ne_eq, not_true, if_false, Bool.false_eq_true] at ho
  cases ho
  exact ⟨γ (.proc p), by rwa [Function.update_eq_self], rfl⟩

lemma spec_swtchBack {a : PState} (hm : g.mode = .leave a) (hl : g.locks = [.proc p])
    (hnone : g.seen = none ∧ g.tested = none ∧ g.scan = none) :
    Spec initproc (.proc p : Ctx NPROC NCPU) .swtchBack g fun _ g' =>
      g' = { g with mode := .saved (a = .zombie) } := by
  refine spec_of (by trivial) fun s γ c fail o hi hg hc _ ho => ?_
  subst hg
  cases o with
  | ok s' r => exact ⟨_, step_swtchBack hi hc hm hl hnone rfl ho, rfl⟩
  | panic msg => cases ho

/-- What comes after `swtch` runs only in a process that has not exited. -/
lemma spec_setIntena {f b : Bool} (hm : g.mode = .saved f) :
    Spec initproc (.proc p : Ctx NPROC NCPU) (.setIntena b) g fun _ g' =>
      f = false ∧ g' = { g with mode := .run } := by
  refine spec_of (by trivial) fun s γ c fail o hi hg hc hf ho => ?_
  subst hg
  cases ho
  obtain ⟨h1, h2⟩ := step_resume hi hc hf hm rfl
  refine ⟨_, h2.congr ?_, h1, rfl⟩
  simp only [views, Prod.mk.injEq]
  exact ⟨cpu_same Cpu.running rfl, rfl, cpu_same Cpu.noff rfl, cpu_same Cpu.intr rfl,
    cpu_same Cpu.proc rfl, rfl, rfl, rfl, rfl, rfl, rfl⟩

lemma spec_pick {k : Option (Chan NPROC ι κ)} (hm : g.mode = .run) (hl : g.locks = [.proc q])
    (hs : g.seen = some (q, .runnable, k)) :
    Spec initproc (.sched c) (.set q (.state .running)) g fun _ g' =>
      g' = { g with mode := .picked q, seen := none } := by
  refine spec_of ⟨hm, k, hs⟩ fun s γ c' fail o hi hg hc _ ho => ?_
  subst hg
  cases hi.cpus.home c' c hc
  cases o with
  | ok s' r => exact ⟨_, step_pick hi hc hm hs hl rfl ho, rfl⟩
  | panic msg => cases ho

lemma spec_aim (hm : g.mode = .picked q) :
    Spec initproc (.sched c) (.setCpuProc (some q)) g fun _ g' =>
      g' = { g with mode := .aimed q } := by
  refine spec_of (by trivial) fun s γ c' fail o hi hg hc _ ho => ?_
  subst hg
  cases hi.cpus.home c' c hc
  cases o with
  | panic msg => cases ho
  | ok s' r =>
    have hl : (γ (.sched c)).locks = [.proc q] := by
      have := (hi.know (.sched c)).locks
      rwa [hm] at this
    refine ⟨_, step_setCpuProc (m := .aimed q) hi hc rfl hl rfl (fun p => ?_) rfl ho, rfl⟩
    simp [Chosen, hm]

/-- `c->proc = 0`, before the loop and after a process has come back. -/
lemma spec_clear (hm : g.mode = .run ∨ g.mode = .away q) :
    Spec initproc (.sched c) (.setCpuProc none) g fun _ g' => g' = { g with mode := .run } := by
  refine spec_of (by trivial) fun s γ c' fail o hi hg hc _ ho => ?_
  subst hg
  cases hi.cpus.home c' c hc
  cases o with
  | panic msg => cases ho
  | ok s' r =>
    refine ⟨_, step_setCpuProc (m := .run) hi hc rfl trivial rfl (fun p => ?_) rfl ho, rfl⟩
    rcases hm with hm | hm <;> simp [Chosen, hm]

lemma spec_swtchTo (hm : g.mode = .aimed q)
    (hnone : g.seen = none ∧ g.tested = none ∧ g.scan = none) :
    Spec initproc (.sched c) (.swtchTo q) g fun _ g' => g' = { g with mode := .away q } := by
  refine spec_of hm fun s γ c' fail o hi hg hc _ ho => ?_
  subst hg
  cases hi.cpus.home c' c hc
  cases o with
  | ok s' r => exact ⟨_, step_swtchTo hi hc hm hnone rfl ho, rfl⟩
  | panic msg => cases ho

/-! ### Processes -/

/-- Reading a process whose lock is not held tells nothing. -/
lemma spec_get : Spec initproc t (.get q) g fun _ g' => g' = g :=
  spec_same (by trivial) fun s _ _ _ ho => by
    cases ho
    exact ⟨s, _, rfl, rfl⟩

lemma spec_read (hm : g.mode = .run) (hl : .proc q ∈ g.locks) :
    Spec initproc t (.get q) g fun r g' => g' = { g with seen := some (q, r.state, r.chan) } := by
  refine spec_of (by trivial) fun s γ c fail o hi hg hc _ ho => ?_
  cases ho
  subst hg
  exact ⟨_, step_get hi (by simp [hm, Mode.parked]) hl, rfl⟩

/-- Fields that only their users look at. -/
lemma spec_setField {f : Field NPROC ι κ} (hf : ∀ p : Proc NPROC ι κ,
      (f.write p).state = p.state ∧ (f.write p).chan = p.chan)
    (hm : May (.set q f) g) : Spec initproc t (.set q f) g fun _ g' => g' = g := by
  refine spec_same hm fun s c fail o ho => ?_
  cases ho
  refine ⟨_, (), rfl, ?_⟩
  simp only [views, Prod.mk.injEq]
  exact ⟨rfl, rfl, rfl, rfl, rfl, proc_same Proc.state (hf _).1, proc_same Proc.chan (hf _).2,
    rfl, rfl, rfl, rfl⟩

/-- A process sets its state before it switches away. -/
lemma spec_leave {a : PState} (hl : .proc p ∈ g.locks)
    (hm : g.mode = .run ∧ (a = .runnable ∨ a = .zombie) ∨
      ∃ k, g.mode = .doze k true ∧ a = .sleeping) :
    Spec initproc (.proc p : Ctx NPROC NCPU) (.set p (.state a)) g fun _ g' =>
      g' = { g with mode := .leave a, seen := none } := by
  refine spec_of ?_ fun s γ c fail o hi hg hc hf ho => ?_
  · rcases hm with ⟨-, rfl | rfl⟩ | ⟨k, -, rfl⟩ <;> trivial
  · subst hg
    cases o with
    | panic msg => cases ho
    | ok s' r =>
      refine ⟨_, step_leave hi hc hl hf (hm.imp_left fun h => ⟨h.1, ?_⟩) rfl ho, rfl⟩
      rcases h.2 with rfl | rfl <;> simp

/-- A process is woken. -/
lemma spec_wake {k : Option (Chan NPROC ι κ)} (hm : g.mode = .run)
    (hs : g.seen = some (q, .sleeping, k)) :
    Spec initproc t (.set q (.state .runnable)) g fun _ g' =>
      t ≠ .proc q ∧ g' = { g with seen := some (q, .runnable, k) } := by
  refine spec_of (by trivial) fun s γ c fail o hi hg hc hf ho => ?_
  subst hg
  have hq : t ≠ .proc q := by
    rintro rfl
    have hrun := hi.disp.running c q hc
    rw [hm] at hrun
    have := ((hi.know _).seen _ _ _ hs).2.1
    rw [hrun.1] at this
    cases this
  cases o with
  | panic msg => cases ho
  | ok s' r =>
    refine ⟨_, ?_, hq, rfl⟩
    exact step_setState hi hc hm hs hq (by simp) (by simp) (fun _ => .inl rfl) (by simp) rfl
      (.inr rfl) (.inr (.inl ⟨by simp, rfl⟩)) ho

omit [DecidableEq ι] [DecidableEq κ] in
/-- A process that was read in a state other than `RUNNING` is another one. -/
lemma other_of_seen {a : PState} {k : Option (Chan NPROC ι κ)} (hi : Inv s γ)
    (hc : running s c = t) (hm : (γ t).mode = .run) (hs : (γ t).seen = some (q, a, k))
    (ha : a ≠ .running) : t ≠ .proc q := by
  rintro rfl
  have hrun := hi.disp.running c q hc
  rw [hm] at hrun
  have := ((hi.know _).seen _ _ _ hs).2.1
  rw [hrun.1] at this
  exact ha this.symm

/-- `allocproc` takes a slot. -/
lemma spec_take {k : Option (Chan NPROC ι κ)} (hm : g.mode = .run)
    (hs : g.seen = some (q, .unused, k)) :
    Spec initproc t (.set q (.state .used)) g fun _ g' =>
      g' = { g with seen := some (q, .used, k), owns := some (q, false) } := by
  refine spec_of (by trivial) fun s γ c fail o hi hg hc hf ho => ?_
  subst hg
  cases o with
  | panic msg => cases ho
  | ok s' r =>
    refine ⟨_, ?_, rfl⟩
    exact step_setState hi hc hm hs (other_of_seen hi hc hm hs (by simp)) (by simp) (by simp)
      (by simp) (by simp) rfl (.inr rfl) (.inr (.inr ⟨rfl, rfl, rfl⟩)) ho

/-- `freeproc` gives up a slot that is being created, or was left by its process for good. -/
lemma spec_free {a : PState} {k : Option (Chan NPROC ι κ)} (hm : g.mode = .run)
    (hs : g.seen = some (q, a, k))
    (ha : a = .used ∧ (∃ b, g.owns = some (q, b)) ∨ a = .zombie) :
    Spec initproc t (.set q (.state .unused)) g fun _ g' =>
      g' = { g with seen := some (q, .unused, k), owns := none } := by
  have hne : a ≠ .running := by rcases ha with ⟨rfl, -⟩ | rfl <;> simp
  refine spec_of ⟨hm, a, k, hs, hne⟩ fun s γ c fail o hi hg hc hf ho => ?_
  subst hg
  cases o with
  | panic msg => cases ho
  | ok s' r =>
    refine ⟨_, ?_, rfl⟩
    refine step_setState hi hc hm hs (other_of_seen hi hc hm hs hne) hne (by simp)
      (by simp) (fun hu => ?_) rfl (.inr rfl) (.inl rfl) ho
    rcases ha with ⟨-, hb⟩ | rfl
    · exact hb
    · cases hu

/-- `kfork` makes the process it has created ready to run. -/
lemma spec_launch (hm : g.mode = .run) (hl : .proc q ∈ g.locks) (ho : g.owns = some (q, true)) :
    Spec initproc t (.set q (.state .runnable)) g fun _ g' =>
      g' = { g with seen := none, owns := none } := by
  refine spec_of (by trivial) fun s γ c fail o hi hg hc hf hst => ?_
  subst hg
  cases o with
  | panic msg => cases hst
  | ok s' r =>
    -- nobody but the creator changes the state of a process in creation
    have hused := ((hi.know t).owns q true ho).1
    have hi' := step_get (q := q) hi (by simp [hm, Mode.parked]) hl
    rw [hused] at hi'
    have hm' : (Function.update γ t { γ t with seen := some (q, .used, chan s q) } t).mode =
        .run := by simpa using hm
    have hs' : (Function.update γ t { γ t with seen := some (q, .used, chan s q) } t).seen =
        some (q, .used, chan s q) := by simp
    have ho' : (Function.update γ t { γ t with seen := some (q, .used, chan s q) } t).owns =
        some (q, true) := by simpa using ho
    refine ⟨{ γ t with seen := none, owns := none }, ?_, rfl⟩
    have := step_setState (g := { γ t with seen := none, owns := none }) hi' hc hm' hs'
      (other_of_seen hi' hc hm' hs' (by simp)) (by simp) (by simp) (fun _ => .inr ho')
      (fun _ => ⟨true, ho'⟩) (by simp) (.inl rfl) (.inl rfl) hst
    rwa [Function.update_idem] at this

/-- `freeproc` resets the channel. -/
lemma spec_setChan_rest {a : PState} {k k' : Option (Chan NPROC ι κ)} (hm : g.mode = .run)
    (hs : g.seen = some (q, a, k')) (ha : a ≠ .sleeping) :
    Spec initproc t (.set q (.chan k)) g fun _ g' => g' = { g with seen := some (q, a, k) } := by
  refine spec_of (by trivial) fun s γ c fail o hi hg hc hf ho => ?_
  subst hg
  cases o with
  | ok s' r => exact ⟨_, step_setChan_rest hi hc hm hs ha rfl ho, rfl⟩
  | panic msg => cases ho

/-- `p->chan = chan` in `sleep`. -/
lemma spec_setChan {k : Chan NPROC ι κ} (hm : g.mode = .doze k false) (hl : .proc p ∈ g.locks)
    (hs : g.seen = none) :
    Spec initproc (.proc p : Ctx NPROC NCPU) (.set p (.chan (some k))) g fun _ g' =>
      g' = { g with mode := .doze k true } := by
  refine spec_of (by trivial) fun s γ c fail o hi hg hc hf ho => ?_
  subst hg
  cases o with
  | ok s' r =>
    refine ⟨_, ?_, rfl⟩
    exact step_setChan_own hi hc hl hf (.inl ⟨k, hm, rfl, rfl⟩) hs rfl ho
  | panic msg => cases ho

/-- `p->chan = 0` in `sleep`. -/
lemma spec_resetChan (hm : g.mode = .run) (hl : .proc p ∈ g.locks) (hs : g.seen = none) :
    Spec initproc (.proc p : Ctx NPROC NCPU) (.set p (.chan none)) g fun _ g' => g' = g := by
  refine spec_of (by trivial) fun s γ c fail o hi hg hc hf ho => ?_
  subst hg
  cases o with
  | ok s' r =>
    refine ⟨γ (.proc p), ?_, rfl⟩
    exact step_setChan_own hi hc hl hf (.inr ⟨hm, hm⟩) hs rfl ho
  | panic msg => cases ho

lemma spec_initContext {k : Option (Chan NPROC ι κ)} (hm : g.mode = .run)
    (hs : g.seen = some (q, .used, k)) (ho : g.owns = some (q, false)) :
    Spec initproc t (.initContext q) g fun _ g' => g' = { g with owns := some (q, true) } := by
  refine spec_of (by trivial) fun s γ c fail o hi hg hc hf hst => ?_
  subst hg
  cases hst
  exact ⟨_, step_initContext hi hc hm (other_of_seen hi hc hm hs (by simp)) hs ho rfl, rfl⟩

/-! ### Conditions and sleeplocks -/

variable {i : ι} {j : κ} {b : Bool}

lemma spec_getCond (hm : g.mode = .run) (hl : .cond i ∈ g.locks) :
    Spec initproc t (.getCond i) g fun r g' => g' = { g with tested := some (.cond i, r) } := by
  refine spec_of (by trivial) fun s γ c fail o hi hg hc _ ho => ?_
  cases ho
  subst hg
  exact ⟨_, step_test (k := .cond i) hi (by simp [hm, Mode.parked]) hl, rfl⟩

lemma spec_getLocked (hm : g.mode = .run) (hl : .slk j ∈ g.locks) :
    Spec initproc t (.getLocked j) g fun r g' => g' = { g with tested := some (.slk j, !r) } := by
  refine spec_of (by trivial) fun s γ c fail o hi hg hc _ ho => ?_
  cases ho
  subst hg
  exact ⟨_, step_test (k := .slk j) hi (by simp [hm, Mode.parked]) hl, rfl⟩

lemma spec_setCond (hm : g.mode = .run) (hl : .cond i ∈ g.locks) (hs : g.scan = none) :
    Spec initproc t (.setCond i b) g fun _ g' => g' = { g with
      tested := none, scan := if b then some (.cond i, List.finRange NPROC) else none } := by
  refine spec_of (by trivial) fun s γ c fail o hi hg hc _ ho => ?_
  subst hg
  cases o with
  | ok s' r => exact ⟨_, step_setCond hi hc hm hl hs rfl ho, rfl⟩
  | panic msg => cases ho

lemma spec_lock (hm : g.mode = .run) (ht : g.tested = some (.slk j, true)) :
    Spec initproc (.proc p : Ctx NPROC NCPU) (.setLocked j true) g fun _ g' =>
      g' = { g with tested := none, slocks := j :: g.slocks } := by
  refine spec_of (by trivial) fun s γ c fail o hi hg hc _ ho => ?_
  subst hg
  cases o with
  | ok s' r => exact ⟨_, step_lock hi hc hm ht rfl ho, rfl⟩
  | panic msg => cases ho

lemma spec_unlock (hm : g.mode = .run) (hl : .slk j ∈ g.locks) (hj : j ∈ g.slocks)
    (hs : g.scan = none) :
    Spec initproc (.proc p : Ctx NPROC NCPU) (.setLocked j false) g fun _ g' => g' = { g with
      tested := none, scan := some (.slk j, List.finRange NPROC), slocks := g.slocks.erase j } := by
  refine spec_of (by trivial) fun s γ c fail o hi hg hc _ ho => ?_
  subst hg
  cases o with
  | ok s' r => exact ⟨_, step_unlock hi hc hm hl hj hs rfl ho, rfl⟩
  | panic msg => cases ho

lemma spec_setLockPid {n : ℤ} : Spec initproc t (.setLockPid j n) g fun _ g' => g' = g := by
  refine spec_same (by trivial) fun s c fail o ho => ?_
  cases ho
  refine ⟨_, (), rfl, ?_⟩
  have hlocked : ∀ j', (Function.update s.slk j { s.slk j with pid := n } j').locked =
      (s.slk j').locked := fun j' => by
    by_cases hjj : j' = j
    · subst hjj; simp
    · simp [hjj]
  have hready : ready { s with slk := Function.update s.slk j { s.slk j with pid := n } } =
      ready s := by
    funext k
    cases k <;> simp [ready, hlocked]
  simp only [views, hready, hlocked]
  rfl

lemma spec_takePid : Spec initproc t .takePid g fun _ g' => g' = g :=
  spec_same (by trivial) fun _ _ _ _ ho => by
    cases ho
    exact ⟨_, _, rfl, rfl⟩

lemma spec_fails : Spec initproc t .fails g fun _ g' => g' = g :=
  spec_same (by trivial) fun _ _ _ _ ho => by
    cases ho
    exact ⟨_, _, rfl, rfl⟩

/-- The one panic that can happen. -/
lemma spec_panic {Q : Empty → Ghost NPROC ι κ → Prop} :
    Spec initproc t (.panic "init exiting") g Q := by
  refine spec_of (by trivial) fun s γ c fail o hi hg hc _ ho => ?_
  cases ho
  rfl

end Xv6.Sched.Specs
