import Xv6.Sched.Handoff

/-!
The invariant of the scheduling code: locks, processes, and who may be asleep.

A process that tests a condition and goes to sleep is committed from the moment it releases
the condition lock. As long as one is committed, the condition is false, or whoever made it
true still holds the lock and has yet to visit that process.
-/

namespace Xv6.Sched.Protocol

open Xv6.Conc Xv6.Conc.Prog Xv6.Conc.Proto Xv6.Sched.Table Xv6.Sched.Kernel Xv6.Sched.Handoff

variable {NPROC NCPU : ℕ} {ι κ : Type}

/-! ### The invariant -/

section Invariant

variable (st : Fin NPROC → PState) (ch : Fin NPROC → Option (Chan NPROC ι κ))
  (rdy : Chan NPROC ι κ → Bool) (start : Fin NPROC → Prop)
  (mode : Ctx NPROC NCPU → Mode NPROC ι κ)

/-- The locks that go with a mode. -/
def ModeLocks (t : Ctx NPROC NCPU) : Mode NPROC ι κ → List (Lock NPROC ι κ) → Prop
  | .run, _ => True
  | .saved _, ls => ∃ p, t = .proc p ∧ ls = [.proc p]
  | .doze _ _, ls | .leave _, ls => ∃ p, t = .proc p ∧ .proc p ∈ ls
  | .picked p, ls | .aimed p, ls | .away p, ls => ls = [.proc p]

/-- What a thread knows is so, for as long as it holds the locks that protect it. -/
structure Know (t : Ctx NPROC NCPU) (g : Ghost NPROC ι κ) : Prop where
  locks : ModeLocks t g.mode g.locks
  seen : ∀ q a k, g.seen = some (q, a, k) → .proc q ∈ g.locks ∧ st q = a ∧ ch q = k
  tested : ∀ k r, g.tested = some (k, r) → lockOf k ∈ g.locks ∧ rdy k = r
  scan : ∀ k ps, g.scan = some (k, ps) → lockOf k ∈ g.locks
  owns : ∀ q b, g.owns = some (q, b) → st q = .used ∧ (b = true → start q)
  doze : ∀ p k, t = .proc p → g.mode = .doze k true → ch p = some k
  parked : g.mode.parked = true → g.seen = none ∧ g.tested = none ∧ g.scan = none

/-- `p` sleeps on `k`, or will without looking again. -/
def Committed (p : Fin NPROC) (k : Chan NPROC ι κ) : Prop :=
  (∃ b, mode (.proc p) = .doze k b) ∨ (st p = .sleeping ∧ ch p = some k)

/-- No wakeup is lost. -/
def Wake (scan : Ctx NPROC NCPU → Option (Chan NPROC ι κ × List (Fin NPROC))) : Prop :=
  ∀ p k, Committed st ch mode p k →
    rdy k = false ∨ ∃ t ps, scan t = some (k, ps) ∧ p ∈ ps

/-- A sleeplock is locked exactly if one process has taken it. -/
structure Slk (locked : κ → Bool) (holders : κ → List (Fin NPROC))
    (slocks : Ctx NPROC NCPU → List κ) : Prop where
  taken : ∀ j, locked j = true → ∃ p, holders j = [p]
  free : ∀ j, locked j = false → holders j = []
  holder : ∀ j p, p ∈ holders j ↔ j ∈ slocks (.proc p)
  nodup : ∀ p, (slocks (.proc p)).Nodup

end Invariant

structure Inv (s : St NPROC NCPU ι κ) (γ : Ctx NPROC NCPU → Ghost NPROC ι κ) : Prop where
  cpus : Cpus (running s) s.lock (noff s) (intr s) fun t => (γ t).locks
  disp : Disp (running s) (cproc s) (state s) s.fresh fun t => (γ t).mode
  know : ∀ t, Know (state s) (chan s) (ready s) (Startable s.fresh fun t => (γ t).mode) t (γ t)
  owner : ∀ t u q b b', (γ t).owns = some (q, b) → (γ u).owns = some (q, b') → t = u
  wake : Wake (state s) (chan s) (ready s) (fun t => (γ t).mode) fun t => (γ t).scan
  slk : Slk (fun j => (s.slk j).locked) s.holders fun t => (γ t).slocks

section Basics

variable {s s' : St NPROC NCPU ι κ} {γ : Ctx NPROC NCPU → Ghost NPROC ι κ} {t u : Ctx NPROC NCPU}
  {c : Fin NCPU} {p q : Fin NPROC} {l : Lock NPROC ι κ}

lemma view_update {α : Type} (f : Ghost NPROC ι κ → α)
    (g : Ghost NPROC ι κ) :
    (fun u => f (Function.update γ t g u)) = Function.update (fun u => f (γ u)) t (f g) := by
  funext u
  by_cases h : u = t
  · subst h; simp
  · simp [h]

lemma view_same {α : Type} (f : Ghost NPROC ι κ → α) {g : Ghost NPROC ι κ} (h : f g = f (γ t)) :
    (fun u => f (Function.update γ t g u)) = fun u => f (γ u) := by
  rw [view_update, h, Function.update_eq_self]

lemma cpu_view {α : Type} (f : Cpu NPROC NCPU → α) (v : Cpu NPROC NCPU) :
    (fun c' => f ((setCpu c v s).cpu c')) = Function.update (fun c' => f (s.cpu c')) c (f v) := by
  funext c'
  by_cases h : c' = c
  · subst h; simp [setCpu]
  · simp [setCpu, h]

lemma cpu_same {α : Type} (f : Cpu NPROC NCPU → α) {v : Cpu NPROC NCPU}
    (h : f v = f (s.cpu c)) :
    (fun c' => f ((setCpu c v s).cpu c')) = fun c' => f (s.cpu c') := by
  rw [cpu_view, h]
  exact Function.update_eq_self c fun c' => f (s.cpu c')

lemma proc_view {α : Type} (f : Proc NPROC ι κ → α) (v : Proc NPROC ι κ) :
    (fun q => f ((setProc p v s).proc q)) = Function.update (fun q => f (s.proc q)) p (f v) := by
  funext q
  by_cases h : q = p
  · subst h; simp [setProc]
  · simp [setProc, h]

lemma proc_same {α : Type} (f : Proc NPROC ι κ → α) {v : Proc NPROC ι κ}
    (h : f v = f (s.proc p)) :
    (fun q => f ((setProc p v s).proc q)) = fun q => f (s.proc q) := by
  rw [proc_view, h]
  exact Function.update_eq_self p fun q => f (s.proc q)

/-- A thread that does not wait to be switched to is executed by some CPU. -/
lemma Inv.on (hi : Inv s γ) (ht : (γ t).mode.parked = false) : ∃ c, running s c = t := by
  cases t with
  | proc p =>
    by_contra hne
    obtain ⟨b, hb⟩ := hi.disp.onCpu p fun c hc => hne ⟨c, hc⟩
    simp [hb, Mode.parked] at ht
  | sched c =>
    refine ⟨c, ?_⟩
    cases hr : running s c with
    | sched c' => rw [hi.cpus.home c c' hr]
    | proc p =>
      have := hi.disp.away c p hr
      simp [this, Mode.parked] at ht

/-- Threads that hold one lock are one thread. -/
lemma Inv.excl (hi : Inv s γ) (hc : running s c = t) (hl : l ∈ (γ t).locks)
    (hu : (γ u).mode.parked = false) (hl' : l ∈ (γ u).locks) : u = t := by
  obtain ⟨c', rfl⟩ := hi.on hu
  subst hc
  rw [hi.cpus.excl hl' hl]

/-- A thread that is not switched out holds its locks on the CPU that executes it. -/
lemma Inv.lock_eq (hi : Inv s γ) (ht : (γ t).mode.parked = false) (hl : l ∈ (γ t).locks) :
    ∃ c, running s c = t ∧ s.lock l = some c := by
  obtain ⟨c, hc⟩ := hi.on ht
  exact ⟨c, hc, (hi.cpus.held c l).mpr (hc ▸ hl)⟩

/-- Whoever holds the lock of another process finds it running, or no CPU executes it. -/
lemma Inv.rest (hi : Inv s γ) (hc : running s c = t) (hl : .proc q ∈ (γ t).locks)
    (hq : t ≠ .proc q) (hst : state s q ≠ .running) : ∀ c', running s c' ≠ .proc q := by
  intro c' hc'
  have hrun := hi.disp.running c' q hc'
  have hlocks := (hi.know (.proc q)).locks
  have hnot : .proc q ∉ (γ (.proc q)).locks := fun hmem => by
    have hcc : c = c' := hi.cpus.excl (by rw [hc]; exact hl) (by rw [hc']; exact hmem)
    subst hcc
    exact hq (hc.symm.trans hc')
  cases hm : (γ (.proc q)).mode with
  | run => rw [hm] at hrun; exact hst hrun.1
  | doze k b => rw [hm] at hrun; exact hst hrun.1
  | leave a =>
    rw [hm] at hlocks
    obtain ⟨q', hq', hmem⟩ := hlocks
    cases hq'
    exact hnot hmem
  | saved b => rw [hm] at hrun; exact hst hrun.1
  | _ => rw [hm] at hrun; exact hrun

lemma Know.congr {st st' : Fin NPROC → PState} {ch ch' : Fin NPROC → Option (Chan NPROC ι κ)}
    {rdy rdy' : Chan NPROC ι κ → Bool} {start start' : Fin NPROC → Prop} {g : Ghost NPROC ι κ}
    (h : Know st ch rdy start t g)
    (hseen : ∀ q a k, g.seen = some (q, a, k) → st' q = st q ∧ ch' q = ch q)
    (htested : ∀ k r, g.tested = some (k, r) → rdy' k = rdy k)
    (howns : ∀ q b, g.owns = some (q, b) → st' q = st q ∧ (start q → start' q))
    (hdoze : ∀ p k, t = .proc p → g.mode = .doze k true → ch' p = ch p) :
    Know st' ch' rdy' start' t g := by
  refine ⟨h.locks, fun q a k hs => ?_, fun k r ht => ?_, h.scan, fun q b ho => ?_,
    fun p k hp hm => ?_, h.parked⟩
  · obtain ⟨h1, h2, h3⟩ := h.seen q a k hs
    obtain ⟨h4, h5⟩ := hseen q a k hs
    exact ⟨h1, h4.trans h2, h5.trans h3⟩
  · obtain ⟨h1, h2⟩ := h.tested k r ht
    exact ⟨h1, (htested k r ht).trans h2⟩
  · obtain ⟨h1, h2⟩ := h.owns q b ho
    obtain ⟨h3, h4⟩ := howns q b ho
    exact ⟨h3.trans h1, fun hb => h4 (h2 hb)⟩
  · exact (hdoze p k hp hm).trans (h.doze p k hp hm)

lemma forall_update {R : Ctx NPROC NCPU → Ghost NPROC ι κ → Prop} {g : Ghost NPROC ι κ}
    (ht : R t g) (hother : ∀ u, u ≠ t → R u (γ u)) (u : Ctx NPROC NCPU) :
    R u (Function.update γ t g u) := by
  by_cases h : u = t
  · subst h; simpa using ht
  · simpa [h] using hother u h

/-- A process that is created by `t` is created by no other thread. -/
lemma owner_update {g : Ghost NPROC ι κ}
    (hi : ∀ t u q b b', (γ t).owns = some (q, b) → (γ u).owns = some (q, b') → t = u)
    (hg : ∀ q b, g.owns = some (q, b) → ∀ u b', u ≠ t → (γ u).owns ≠ some (q, b'))
    (u v : Ctx NPROC NCPU) (q : Fin NPROC) (b b' : Bool)
    (hu : (Function.update γ t g u).owns = some (q, b))
    (hv : (Function.update γ t g v).owns = some (q, b')) : u = v := by
  by_cases h1 : u = t <;> by_cases h2 : v = t
  · rw [h1, h2]
  · subst h1
    rw [Function.update_self] at hu
    rw [Function.update_of_ne h2] at hv
    exact absurd hv (hg q b hu v b' h2)
  · subst h2
    rw [Function.update_self] at hv
    rw [Function.update_of_ne h1] at hu
    exact absurd hu (hg q b' hv u b h1)
  · rw [Function.update_of_ne h1] at hu
    rw [Function.update_of_ne h2] at hv
    exact hi u v q b b' hu hv

lemma Inv.owner_same (hi : Inv s γ) {g : Ghost NPROC ι κ} (hg : g.owns = (γ t).owns) :
    ∀ u v q b b', (Function.update γ t g u).owns = some (q, b) →
      (Function.update γ t g v).owns = some (q, b') → u = v :=
  owner_update hi.owner fun q b ho u b' hu hu' =>
    hu (hi.owner u t q b' b hu' (hg ▸ ho))

end Basics

/-! ### What each action does -/

section Steps

variable {s s' : St NPROC NCPU ι κ} {γ : Ctx NPROC NCPU → Ghost NPROC ι κ} {t : Ctx NPROC NCPU}
  {c : Fin NCPU} {p q : Fin NPROC} {fail : Bool}

/-- All that the invariant reads of the state. -/
def views (s : St NPROC NCPU ι κ) :=
  (running s, s.lock, noff s, intr s, cproc s, state s, chan s, ready s, s.fresh,
    fun j => (s.slk j).locked, s.holders)

lemma Inv.congr (hi : Inv s γ) (h : views s' = views s) : Inv s' γ := by
  simp only [views, Prod.mk.injEq] at h
  obtain ⟨h1, h2, h3, h4, h5, h6, h7, h8, h9, h10, h11⟩ := h
  obtain ⟨a, b, d, e, f, g⟩ := hi
  exact ⟨by rwa [h1, h2, h3, h4], by rwa [h1, h5, h6, h9], by rwa [h6, h7, h8, h9], e,
    by rwa [h6, h7, h8], by rwa [h10, h11]⟩

/-- A thread learns something, or forgets it. -/
lemma Inv.learn (hi : Inv s γ) {g : Ghost NPROC ι κ}
    (hg : (g.locks, g.mode, g.owns, g.slocks) =
      ((γ t).locks, (γ t).mode, (γ t).owns, (γ t).slocks))
    (hk : Know (state s) (chan s) (ready s) (Startable s.fresh fun t => (γ t).mode) t g)
    (hw : Wake (state s) (chan s) (ready s) (fun t => (γ t).mode)
      fun u => (Function.update γ t g u).scan) : Inv s (Function.update γ t g) := by
  simp only [Prod.mk.injEq] at hg
  obtain ⟨h1, h2, h3, h4⟩ := hg
  have hmode := view_same Ghost.mode h2
  refine ⟨?_, ?_, ?_, hi.owner_same h3, ?_, ?_⟩
  · rw [view_same Ghost.locks h1]; exact hi.cpus
  · rw [hmode]; exact hi.disp
  · rw [hmode]
    exact forall_update hk fun u _ => hi.know u
  · rw [hmode]; exact hw
  · rw [view_same Ghost.slocks h4]; exact hi.slk

variable [DecidableEq ι] [DecidableEq κ] {l : Lock NPROC ι κ}

lemma step_acquire (hi : Inv s γ) (hc : running s c = t) (hm : (γ t).mode = .run)
    {g : Ghost NPROC ι κ} (hg : g = { γ t with locks := l :: (γ t).locks })
    (ho : step c fail (.acquire l) s = some (.ok s' ())) : Inv s' (Function.update γ t g) := by
  simp only [step] at ho
  split_ifs at ho with h1 h2 <;> cases ho
  have hfree : s.lock l = none := not_not.mp h2
  have hrun : running (setLock l (some c) (pushOff c s)) = running s := cpu_same Cpu.running rfl
  have hcp : cproc (setLock l (some c) (pushOff c s)) = cproc s := cpu_same Cpu.proc rfl
  have hoff : noff (setLock l (some c) (pushOff c s)) =
      Function.update (noff s) c (noff s c + 1) := cpu_view Cpu.noff _
  have hint : intr (setLock l (some c) (pushOff c s)) = Function.update (intr s) c false :=
    cpu_view Cpu.intr _
  have hlocks : g.locks = l :: (γ t).locks := by rw [hg]
  have hmode : (fun u => (Function.update γ t g u).mode) = fun u => (γ u).mode :=
    view_same Ghost.mode (by rw [hg])
  have hscan : (fun u => (Function.update γ t g u).scan) = fun u => (γ u).scan :=
    view_same Ghost.scan (by rw [hg])
  have hslocks : (fun u => (Function.update γ t g u).slocks) = fun u => (γ u).slocks :=
    view_same Ghost.slocks (by rw [hg])
  refine ⟨?_, ?_, ?_, hi.owner_same (by rw [hg]), ?_, ?_⟩
  · rw [hrun, hoff, hint, view_update Ghost.locks, hlocks]
    subst hc
    exact hi.cpus.acquire hfree
  · rw [hrun, hcp, hmode]
    exact hi.disp
  · rw [hmode]
    refine forall_update ?_ fun u _ => hi.know u
    have hk := hi.know t
    subst hg
    refine ⟨by simp [hm, ModeLocks], fun q a k hs => ?_, fun k r ht => ?_, fun k ps hs => ?_,
      hk.owns, hk.doze, hk.parked⟩
    · exact ⟨List.mem_cons_of_mem _ (hk.seen q a k hs).1, (hk.seen q a k hs).2⟩
    · exact ⟨List.mem_cons_of_mem _ (hk.tested k r ht).1, (hk.tested k r ht).2⟩
    · exact List.mem_cons_of_mem _ (hk.scan k ps hs)
  · rw [hmode, hscan]
    exact hi.wake
  · rw [hslocks]
    exact hi.slk

/-- Releasing a lock, whatever becomes of what was known under it. -/
lemma step_release (hi : Inv s γ) (hc : running s c = t) (hl : l ∈ (γ t).locks)
    {g : Ghost NPROC ι κ} (hg : (g.locks, g.owns, g.slocks) =
      ((γ t).locks.erase l, (γ t).owns, (γ t).slocks))
    (hd : Disp (running s) (cproc s) (state s) s.fresh
      (Function.update (fun u => (γ u).mode) t g.mode))
    (hs : ∀ q, Startable s.fresh (fun u => (γ u).mode) q →
      Startable s.fresh (Function.update (fun u => (γ u).mode) t g.mode) q)
    (hk : Know (state s) (chan s) (ready s) (Startable s.fresh
      (Function.update (fun u => (γ u).mode) t g.mode)) t g)
    (hw : Wake (state s) (chan s) (ready s) (Function.update (fun u => (γ u).mode) t g.mode)
      fun u => (Function.update γ t g u).scan)
    (ho : step c fail (.release l) s = some (.ok s' ())) :
    Inv s' (Function.update γ t g) := by
  simp only [step] at ho
  split_ifs at ho <;> cases ho
  simp only [Prod.mk.injEq] at hg
  obtain ⟨hg1, hg2, hg3⟩ := hg
  have hrun : running (setLock l none (popOff c s)) = running s := cpu_same Cpu.running rfl
  have hcp : cproc (setLock l none (popOff c s)) = cproc s := cpu_same Cpu.proc rfl
  have hoff : noff (setLock l none (popOff c s)) =
      Function.update (noff s) c (noff s c - 1) := cpu_view Cpu.noff _
  have hint : intr (setLock l none (popOff c s)) = Function.update (intr s) c
      (if noff s c - 1 = 0 ∧ (s.cpu c).intena = true then true else intr s c) :=
    cpu_view Cpu.intr _
  have hmode := view_update (γ := γ) (t := t) Ghost.mode g
  refine ⟨?_, ?_, ?_, hi.owner_same hg2, ?_, ?_⟩
  · rw [hrun, hoff, hint, view_update Ghost.locks, hg1]
    subst hc
    exact hi.cpus.release hl _
  · rw [hrun, hcp, hmode]
    exact hd
  · rw [hmode]
    refine forall_update hk fun u _ => (hi.know u).congr (fun _ _ _ _ => ⟨rfl, rfl⟩)
      (fun _ _ _ => rfl) (fun q _ _ => ⟨rfl, hs q⟩) fun _ _ _ _ => rfl
  · rw [hmode]
    exact hw
  · rw [view_same Ghost.slocks hg3]
    exact hi.slk

omit [DecidableEq ι] [DecidableEq κ] in
lemma lockOf_ne_proc (k : Chan NPROC ι κ) (q : Fin NPROC) : lockOf k ≠ .proc q := by
  cases k <;> simp [lockOf]

omit [DecidableEq ι] [DecidableEq κ] in
/-- A thread that runs is not one that could be started. -/
lemma startable_mono {fresh : Fin NPROC → Bool} {mode : Ctx NPROC NCPU → Mode NPROC ι κ}
    {m : Mode NPROC ι κ} (hm : mode t ≠ .saved false) {q : Fin NPROC}
    (h : Startable fresh mode q) : Startable fresh (Function.update mode t m) q := by
  rcases h with hf | hs
  · exact .inl hf
  · refine .inr ?_
    rw [Function.update_of_ne (by rintro rfl; exact hm hs), hs]

omit [DecidableEq ι] [DecidableEq κ] in
/-- Giving up a scan is harmless once it has visited every committed process. -/
lemma Wake.scan {st : Fin NPROC → PState} {ch : Fin NPROC → Option (Chan NPROC ι κ)}
    {rdy : Chan NPROC ι κ → Bool} {mode : Ctx NPROC NCPU → Mode NPROC ι κ} {g : Ghost NPROC ι κ}
    (h : Wake st ch rdy mode fun u => (γ u).scan)
    (hg : ∀ k ps, (γ t).scan = some (k, ps) → ∀ p ∈ ps, Committed st ch mode p k →
      ∃ ps', g.scan = some (k, ps') ∧ p ∈ ps') :
    Wake st ch rdy mode fun u => (Function.update γ t g u).scan := by
  intro p k hp
  rcases h p k hp with hr | ⟨u, ps, hu, hmem⟩
  · exact .inl hr
  · by_cases hut : u = t
    · subst hut
      obtain ⟨ps', h1, h2⟩ := hg k ps hu p hmem hp
      exact .inr ⟨u, ps', by simpa using h1, h2⟩
    · exact .inr ⟨u, ps, by simpa [hut] using hu, hmem⟩

lemma step_release_proc (hi : Inv s γ) (hc : running s c = t) (hm : (γ t).mode = .run)
    (hl : .proc q ∈ (γ t).locks) {g : Ghost NPROC ι κ}
    (hg : g = { γ t with locks := (γ t).locks.erase (.proc q), seen := none })
    (ho : step c fail (.release (.proc q)) s = some (.ok s' ())) :
    Inv s' (Function.update γ t g) := by
  have hmode : Function.update (fun u => (γ u).mode) t g.mode = fun u => (γ u).mode := by
    rw [hg]; exact Function.update_eq_self t fun u => (γ u).mode
  have hk := hi.know t
  refine step_release hi hc hl (by rw [hg]) ?_ (fun q hq => by rwa [hmode]) ?_ ?_ ho
  · rw [hmode]; exact hi.disp
  · rw [hmode]
    subst hg
    refine ⟨by simp [hm, ModeLocks], by simp, fun k r ht => ?_, fun k ps hs => ?_, hk.owns,
      hk.doze, fun hpk => ⟨rfl, (hk.parked hpk).2⟩⟩
    · obtain ⟨h1, h2⟩ := hk.tested k r ht
      exact ⟨(List.mem_erase_of_ne (lockOf_ne_proc k q)).mpr h1, h2⟩
    · exact (List.mem_erase_of_ne (lockOf_ne_proc k q)).mpr (hk.scan k ps hs)
  · rw [hmode]
    refine hi.wake.scan fun k ps hs p hp _ => ⟨ps, ?_, hp⟩
    rw [hg]; exact hs

/-- Releasing a lock other than that of a process: whoever has woken others has visited all. -/
lemma step_release_cond (hi : Inv s γ) (hc : running s c = t)
    (hm : (γ t).mode = .run ∨ ∃ a, (γ t).mode = .leave a) (hl : l ∈ (γ t).locks)
    (hq : ∀ q, l ≠ .proc q) (hs : ∀ k ps, (γ t).scan = some (k, ps) → ps = [])
    {g : Ghost NPROC ι κ}
    (hg : g = { γ t with locks := (γ t).locks.erase l, tested := none, scan := none })
    (ho : step c fail (.release l) s = some (.ok s' ())) : Inv s' (Function.update γ t g) := by
  have hmode : Function.update (fun u => (γ u).mode) t g.mode = fun u => (γ u).mode := by
    rw [hg]; exact Function.update_eq_self t fun u => (γ u).mode
  have hk := hi.know t
  refine step_release hi hc hl (by rw [hg]) ?_ (fun q hq => by rwa [hmode]) ?_ ?_ ho
  · rw [hmode]; exact hi.disp
  · rw [hmode]
    subst hg
    refine ⟨?_, fun q a k hs => ?_, by simp, by simp, hk.owns, hk.doze,
      fun hpk => ⟨(hk.parked hpk).1, rfl, rfl⟩⟩
    · rcases hm with hm | ⟨a, hm⟩
      · simp [hm, ModeLocks]
      · have hown := hk.locks
        simp only [hm, ModeLocks] at hown ⊢
        obtain ⟨p, hp, hmem⟩ := hown
        exact ⟨p, hp, (List.mem_erase_of_ne (hq p).symm).mpr hmem⟩
    · obtain ⟨h1, h2⟩ := hk.seen q a k hs
      exact ⟨(List.mem_erase_of_ne (hq q).symm).mpr h1, h2⟩
  · rw [hmode]
    refine hi.wake.scan fun k ps hps p hp _ => ?_
    rw [hs k ps hps] at hp
    cases hp

/-- `sleep` releases the condition lock: the process is committed, and the condition false. -/
lemma step_doze {k : Chan NPROC ι κ} (hi : Inv s γ) (hc : running s c = .proc p)
    (hm : (γ (.proc p)).mode = .run) (hf : s.fresh p = false)
    (hown : .proc p ∈ (γ (.proc p)).locks) (hl : lockOf k ∈ (γ (.proc p)).locks)
    (hr : ready s k = false) (hs : (γ (.proc p)).scan = none) {g : Ghost NPROC ι κ}
    (hg : g = { γ (.proc p) with
      locks := (γ (.proc p)).locks.erase (lockOf k), mode := .doze k false, seen := none
      tested := none })
    (ho : step c fail (.release (lockOf k)) s = some (.ok s' ())) :
    Inv s' (Function.update γ (.proc p) g) := by
  have hk := hi.know (.proc p)
  have hst : state s p = .running := by
    have := hi.disp.running c p hc
    rw [hm] at this
    exact this.1
  have hmono : ∀ q, Startable s.fresh (fun u => (γ u).mode) q →
      Startable s.fresh (Function.update (fun u => (γ u).mode) (.proc p) g.mode) q :=
    fun q hq => startable_mono (by simp [hm]) hq
  refine step_release hi hc hl (by rw [hg]) ?_ hmono ?_ ?_ ho
  · have hd := hi.disp.setOwn hc (m := g.mode) (a := state s p)
      (by rw [hg]; exact ⟨hst, hf⟩) hf
    rwa [Function.update_eq_self] at hd
  · subst hg
    refine ⟨⟨p, rfl, ?_⟩, by simp, by simp, by simp [hs], fun q b hq => ?_, by simp,
      by simp [Mode.parked]⟩
    · exact (List.mem_erase_of_ne (lockOf_ne_proc k p).symm).mpr hown
    · obtain ⟨h1, h2⟩ := hk.owns q b hq
      exact ⟨h1, fun hb => hmono q (h2 hb)⟩
  · -- only `p` is newly committed, on a condition that is false
    intro q k' hq
    by_cases hk' : ready s k' = false
    · exact .inl hk'
    have hold : Committed (state s) (chan s) (fun u => (γ u).mode) q k' := by
      rcases hq with ⟨b, hb⟩ | hq
      · by_cases hqp : q = p
        · subst hqp
          simp only [hg, Function.update_self, Mode.doze.injEq] at hb
          exact absurd (hb.1 ▸ hr) hk'
        · exact .inl ⟨b, by simpa [hqp] using hb⟩
      · exact .inr hq
    rcases hi.wake q k' hold with h | ⟨u, ps, hu, hmem⟩
    · exact .inl h
    · have hup : u ≠ .proc p := by rintro rfl; simp [hs] at hu
      exact .inr ⟨u, ps, by simpa [hup] using hu, hmem⟩

omit [DecidableEq ι] [DecidableEq κ] in
/-- Reading a process under its lock. -/
lemma step_get (hi : Inv s γ) (hm : (γ t).mode.parked = false) (hl : .proc q ∈ (γ t).locks) :
    Inv s (Function.update γ t { γ t with seen := some (q, state s q, chan s q) }) := by
  have hk := hi.know t
  refine hi.learn rfl ⟨hk.locks, fun q' a k hs => ?_, hk.tested, hk.scan, hk.owns, hk.doze,
    fun h => absurd h (by simp [hm])⟩ ?_
  · simp only [Option.some.injEq, Prod.mk.injEq] at hs
    obtain ⟨rfl, rfl, rfl⟩ := hs
    exact ⟨hl, rfl, rfl⟩
  · exact hi.wake.scan fun k ps hs p hp _ => ⟨ps, hs, hp⟩

omit [DecidableEq ι] [DecidableEq κ] in
/-- Testing a condition under its lock. -/
lemma step_test {k : Chan NPROC ι κ} (hi : Inv s γ) (hm : (γ t).mode.parked = false)
    (hl : lockOf k ∈ (γ t).locks) :
    Inv s (Function.update γ t { γ t with tested := some (k, ready s k) }) := by
  have hk := hi.know t
  refine hi.learn rfl ⟨hk.locks, hk.seen, fun k' r ht => ?_, hk.scan, hk.owns, hk.doze,
    fun h => absurd h (by simp [hm])⟩ ?_
  · simp only [Option.some.injEq, Prod.mk.injEq] at ht
    obtain ⟨rfl, rfl⟩ := ht
    exact ⟨hl, rfl⟩
  · exact hi.wake.scan fun k ps hs p hp _ => ⟨ps, hs, hp⟩

omit [DecidableEq ι] [DecidableEq κ] in
/-- A scan goes on to the next process, which is not asleep on the channel. -/
lemma step_visit {k : Chan NPROC ι κ} {ps : List (Fin NPROC)} (hi : Inv s γ)
    (hs : (γ t).scan = some (k, q :: ps))
    (hq : ¬ Committed (state s) (chan s) (fun u => (γ u).mode) q k) {g : Ghost NPROC ι κ}
    (hg : g = { γ t with scan := some (k, ps) }) : Inv s (Function.update γ t g) := by
  have hk := hi.know t
  refine hi.learn (by rw [hg]) ?_ ?_
  · subst hg
    refine ⟨hk.locks, hk.seen, hk.tested, fun k' ps' hs' => ?_, hk.owns, hk.doze, fun hpk => ?_⟩
    · simp only [Option.some.injEq, Prod.mk.injEq] at hs'
      exact hs'.1 ▸ hk.scan k _ hs
    · have := (hk.parked hpk).2.2
      simp [hs] at this
  · refine hi.wake.scan fun k' ps' hs' p hp hcom => ?_
    rw [hs] at hs'
    cases hs'
    rcases List.mem_cons.mp hp with rfl | hp
    · exact absurd hcom hq
    · exact ⟨ps, by rw [hg], hp⟩

omit [DecidableEq ι] [DecidableEq κ] in
/-- What others know of a process stays so while its lock is held. -/
lemma Inv.know_setProc (hi : Inv s γ) (hc : running s c = t) (hl : .proc q ∈ (γ t).locks)
    {v : Proc NPROC ι κ} {start : Fin NPROC → Prop}
    (hstart : ∀ q, Startable s.fresh (fun u => (γ u).mode) q → start q)
    (howns : v.state ≠ state s q → ∀ u b, u ≠ t → (γ u).owns ≠ some (q, b))
    {u : Ctx NPROC NCPU} (hu : u ≠ t) :
    Know (state (setProc q v s)) (chan (setProc q v s)) (ready s) start u (γ u) := by
  have hst : state (setProc q v s) = Function.update (state s) q v.state := proc_view Proc.state v
  have hch : chan (setProc q v s) = Function.update (chan s) q v.chan := proc_view Proc.chan v
  have hk := hi.know u
  have hfree : ∀ q', (γ u).mode.parked = false → .proc q' ∈ (γ u).locks → q' ≠ q := by
    rintro q' hp hmem rfl
    exact hu (hi.excl hc hl hp hmem)
  refine hk.congr (fun q' a k hs => ?_) (fun _ _ _ => rfl) (fun q' b ho => ?_)
    fun p k hup hmode => ?_
  · have hne : q' ≠ q := hfree q' (by
      by_contra hp
      have := (hk.parked (by simpa using hp)).1
      simp [hs] at this) (hk.seen q' a k hs).1
    rw [hst, hch, Function.update_of_ne hne, Function.update_of_ne hne]
    exact ⟨rfl, rfl⟩
  · refine ⟨?_, hstart q'⟩
    by_cases hqq : q' = q
    · subst hqq
      rw [hst, Function.update_self]
      by_contra hne
      exact howns hne u b hu ho
    · rw [hst, Function.update_of_ne hqq]
  · have hown := hk.locks
    rw [hmode] at hown
    obtain ⟨p', hup', hmem⟩ := hown
    cases hup.symm.trans hup'
    have hne : p ≠ q := hfree p (by simp [hmode, Mode.parked]) hmem
    rw [hch, Function.update_of_ne hne]

/-- A process about to switch away sets its state under its own lock. -/
lemma step_leave {a : PState} (hi : Inv s γ) (hc : running s c = .proc p)
    (hl : .proc p ∈ (γ (.proc p)).locks) (hf : s.fresh p = false)
    (hm : (γ (.proc p)).mode = .run ∧ a ≠ .running ∧ a ≠ .sleeping ∨
      ∃ k, (γ (.proc p)).mode = .doze k true ∧ a = .sleeping) {g : Ghost NPROC ι κ}
    (hg : g = { γ (.proc p) with mode := .leave a, seen := none })
    (ho : step c fail (.set p (.state a)) s = some (.ok s' ())) :
    Inv s' (Function.update γ (.proc p) g) := by
  cases ho
  have hst : state (setProc p (Field.write (s.proc p) (.state a)) s) =
      Function.update (state s) p a := proc_view Proc.state _
  have hch : chan (setProc p (Field.write (s.proc p) (.state a)) s) = chan s :=
    proc_same Proc.chan rfl
  have hk := hi.know (.proc p)
  have hrun : state s p = .running := by
    have := hi.disp.running c p hc
    rcases hm with ⟨hm, -⟩ | ⟨k, hm, -⟩ <;> rw [hm] at this <;> exact this.1
  have ha : a ≠ .running := by rcases hm with ⟨-, ha, -⟩ | ⟨k, -, rfl⟩ <;> simp_all
  have hns : (γ (.proc p)).mode ≠ .saved false := by
    rcases hm with ⟨hm, -⟩ | ⟨k, hm, -⟩ <;> simp [hm]
  have hmode := view_update (γ := γ) (t := .proc p) Ghost.mode g
  have hmono : ∀ q, Startable s.fresh (fun u => (γ u).mode) q →
      Startable s.fresh (Function.update (fun u => (γ u).mode) (.proc p) g.mode) q :=
    fun q hq => startable_mono hns hq
  refine ⟨?_, ?_, ?_, hi.owner_same (by rw [hg]), ?_, ?_⟩
  · rw [view_same Ghost.locks (show g.locks = (γ (.proc p)).locks by rw [hg])]
    exact hi.cpus
  · rw [hmode, hst]
    exact hi.disp.setOwn hc (by rw [hg]; exact ⟨rfl, ha, hf⟩) hf
  · rw [hmode]
    refine forall_update ?_ fun u hu => hi.know_setProc hc hl hmono (fun _ u b _ ho => ?_) hu
    · subst hg
      refine ⟨⟨p, rfl, hl⟩, by simp, hk.tested, hk.scan, fun q b hq => ?_,
        by simp, by simp [Mode.parked]⟩
      obtain ⟨h1, h2⟩ := hk.owns q b hq
      have hqp : q ≠ p := by rintro rfl; rw [hrun] at h1; cases h1
      exact ⟨(congrFun hst q).trans (by rw [Function.update_of_ne hqp, h1]), fun hb => hmono q (h2 hb)⟩
    · have := ((hi.know u).owns p b ho).1
      rw [hrun] at this
      cases this
  · rw [hmode, view_same Ghost.scan (show g.scan = (γ (.proc p)).scan by rw [hg])]
    intro q k hq
    refine hi.wake q k ?_
    rcases hq with ⟨b, hb⟩ | ⟨h1, h2⟩
    · by_cases hqp : q = p
      · subst hqp; simp [hg] at hb
      · exact .inl ⟨b, by simpa [hqp] using hb⟩
    · have hs1 : Function.update (state s) p a q = .sleeping := (congrFun hst q).symm.trans h1
      have hs2 : chan s q = some k := (congrFun hch q).symm.trans h2
      by_cases hqp : q = p
      · subst hqp
        rcases hm with ⟨-, -, hm⟩ | ⟨k', hm, -⟩
        · exact absurd (by simpa using hs1) hm
        · have hk' := hk.doze q k' rfl hm
          rw [hs2, Option.some.injEq] at hk'
          exact .inl ⟨true, hk' ▸ hm⟩
      · exact .inr ⟨by simpa [hqp] using hs1, hs2⟩
  · rw [view_same Ghost.slocks (show g.slocks = (γ (.proc p)).slocks by rw [hg])]
    exact hi.slk

/-- The state of another process changes while its lock is held. -/
lemma step_setState {a a₀ : PState} {k₀ : Option (Chan NPROC ι κ)} (hi : Inv s γ)
    (hc : running s c = t) (hm : (γ t).mode = .run) (hseen : (γ t).seen = some (q, a₀, k₀))
    (hq : t ≠ .proc q) (ha₀ : a₀ ≠ .running) (ha : a ≠ .running ∧ a ≠ .sleeping)
    (hready : a = .runnable → a₀ = .sleeping ∨ (γ t).owns = some (q, true))
    (howner : a₀ = .used → ∃ b, (γ t).owns = some (q, b)) {g : Ghost NPROC ι κ}
    (hg : (g.locks, g.mode, g.tested, g.scan, g.slocks) =
      ((γ t).locks, (γ t).mode, (γ t).tested, (γ t).scan, (γ t).slocks))
    (hgs : g.seen = none ∨ g.seen = some (q, a, k₀))
    (hgo : g.owns = none ∨ (a₀ ≠ .used ∧ g.owns = (γ t).owns) ∨
      (a₀ = .unused ∧ a = .used ∧ g.owns = some (q, false)))
    (ho : step c fail (.set q (.state a)) s = some (.ok s' ())) :
    Inv s' (Function.update γ t g) := by
  cases ho
  simp only [Prod.mk.injEq] at hg
  obtain ⟨hg1, hg2, hg3, hg4, hg5⟩ := hg
  have hst : state (setProc q (Field.write (s.proc q) (.state a)) s) =
      Function.update (state s) q a := proc_view Proc.state _
  have hch : chan (setProc q (Field.write (s.proc q) (.state a)) s) = chan s :=
    proc_same Proc.chan rfl
  have hk := hi.know t
  obtain ⟨hl, hst₀, hch₀⟩ := hk.seen q a₀ k₀ hseen
  have hoff := hi.rest hc hl hq (by rw [hst₀]; exact ha₀)
  have hstart : a = .runnable → Startable s.fresh (fun u => (γ u).mode) q := fun har => by
    rcases hready har with rfl | hown
    · exact hi.disp.ready q hoff (.inr hst₀)
    · exact (hk.owns q true hown).2 rfl
  have hmode := view_same (t := t) Ghost.mode hg2
  have hothers : ∀ u b, u ≠ t → (γ u).owns = some (q, b) → a₀ = .unused → False :=
    fun u b _ hu hun => by
      have := ((hi.know u).owns q b hu).1
      rw [hst₀, hun] at this
      cases this
  refine ⟨?_, ?_, ?_, ?_, ?_, ?_⟩
  · rw [view_same Ghost.locks hg1]
    exact hi.cpus
  · rw [hmode, hst]
    exact hi.disp.setState hoff (by rw [hst₀]; exact ha₀) ha.1 fun h =>
      hstart (h.resolve_right ha.2)
  · rw [hmode]
    refine forall_update ?_ fun u hu => hi.know_setProc hc hl (fun _ h => h) (fun _ u b hu' ho => ?_) hu
    · refine ⟨by rw [hg2, hm]; trivial, fun q' a' k' hs => ?_, fun k r ht => ?_, fun k ps hs => ?_,
        fun q' b hb => ?_, fun p k hp hd => ?_, fun hp => ?_⟩
      · rcases hgs with hn | hn <;> rw [hn] at hs <;> cases hs
        exact ⟨hg1 ▸ hl, by rw [hst]; simp, (congrFun hch q).trans hch₀⟩
      · rw [hg3] at ht
        exact ⟨hg1 ▸ (hk.tested k r ht).1, (hk.tested k r ht).2⟩
      · rw [hg4] at hs
        exact hg1 ▸ hk.scan k ps hs
      · rw [hst]
        rcases hgo with hn | ⟨hne, hn⟩ | ⟨-, ha', hn⟩
        · rw [hn] at hb; cases hb
        · rw [hn] at hb
          obtain ⟨h1, h2⟩ := hk.owns q' b hb
          have hqq : q' ≠ q := by rintro rfl; exact hne (hst₀.symm.trans h1)
          exact ⟨by rw [Function.update_of_ne hqq, h1], h2⟩
        · rw [hn] at hb
          cases hb
          exact ⟨by simpa using ha', by simp⟩
      · rw [hg2, hm] at hd; cases hd
      · rw [hg2, hm] at hp; cases hp
    · have hused := ((hi.know u).owns q b ho).1
      obtain ⟨b', hb'⟩ := howner (hst₀.symm.trans hused)
      exact hu' (hi.owner u t q b b' ho hb')
  · refine owner_update hi.owner fun q' b hb u b' hu hub => ?_
    rcases hgo with hn | ⟨-, hn⟩ | ⟨hun, -, hn⟩
    · rw [hn] at hb; cases hb
    · rw [hn] at hb
      exact hu (hi.owner u t q' b' b hub hb)
    · rw [hn] at hb
      cases hb
      exact hothers u b' hu hub hun
  · rw [hmode, view_same Ghost.scan hg4]
    intro p k hp
    refine hi.wake p k ?_
    rcases hp with hd | ⟨h1, h2⟩
    · exact .inl hd
    · have hs1 : Function.update (state s) q a p = .sleeping := (congrFun hst p).symm.trans h1
      have hpq : p ≠ q := by rintro rfl; exact ha.2 (by simpa using hs1)
      exact .inr ⟨by simpa [hpq] using hs1, (congrFun hch p).symm.trans h2⟩
  · rw [view_same Ghost.slocks hg5]
    exact hi.slk

/-- `p->chan` changes while the lock is held and `p` is not asleep. -/
lemma Inv.setChan {k : Option (Chan NPROC ι κ)} (hi : Inv s γ) (hc : running s c = t)
    (hl : .proc q ∈ (γ t).locks) (hst : state s q ≠ .sleeping) {g : Ghost NPROC ι κ}
    (hg : (g.locks, g.scan, g.owns, g.slocks) =
      ((γ t).locks, (γ t).scan, (γ t).owns, (γ t).slocks))
    (hmode : Disp (running s) (cproc s) (state s) s.fresh
      (Function.update (fun u => (γ u).mode) t g.mode))
    (hmono : ∀ q, Startable s.fresh (fun u => (γ u).mode) q →
      Startable s.fresh (Function.update (fun u => (γ u).mode) t g.mode) q)
    (hdoze : ∀ p k, t = .proc p → (∃ b, g.mode = .doze k b) → ∃ b, (γ t).mode = .doze k b)
    (hk : Know (state s) (Function.update (chan s) q k) (ready s)
      (Startable s.fresh (Function.update (fun u => (γ u).mode) t g.mode)) t g)
    (ho : step c fail (.set q (.chan k)) s = some (.ok s' ())) :
    Inv s' (Function.update γ t g) := by
  cases ho
  have hst' : state (setProc q (Field.write (s.proc q) (.chan k)) s) = state s :=
    proc_same Proc.state rfl
  have hch : chan (setProc q (Field.write (s.proc q) (.chan k)) s) =
      Function.update (chan s) q k := proc_view Proc.chan _
  simp only [Prod.mk.injEq] at hg
  obtain ⟨hg1, hg2, hg3, hg4⟩ := hg
  have hview := view_update (γ := γ) (t := t) Ghost.mode g
  refine ⟨?_, ?_, ?_, hi.owner_same hg3, ?_, ?_⟩
  · rw [view_same Ghost.locks hg1]; exact hi.cpus
  · rw [hview, hst']; exact hmode
  · rw [hview]
    refine forall_update ?_ fun u hu => hi.know_setProc (v := Field.write (s.proc q) (.chan k))
      hc hl hmono (fun h => absurd rfl h) hu
    rw [hst', hch]
    exact hk
  · rw [hview, hst', hch, view_same Ghost.scan hg2]
    intro p k' hp
    refine hi.wake p k' ?_
    rcases hp with ⟨b, hb⟩ | ⟨h1, h2⟩
    · by_cases hpt : t = .proc p
      · subst hpt
        exact .inl (hdoze p k' rfl ⟨b, by simpa using hb⟩)
      · exact .inl ⟨b, by simpa [Ne.symm hpt] using hb⟩
    · have hpq : p ≠ q := by rintro rfl; exact hst h1
      exact .inr ⟨h1, by simpa [hpq] using h2⟩
  · rw [view_same Ghost.slocks hg4]; exact hi.slk

/-- In `sleep`, `p->chan` is set; after it, it is reset. -/
lemma step_setChan_own {k : Option (Chan NPROC ι κ)} (hi : Inv s γ) (hc : running s c = .proc p)
    (hl : .proc p ∈ (γ (.proc p)).locks) (hf : s.fresh p = false) {g : Ghost NPROC ι κ}
    (hm : (∃ k', (γ (.proc p)).mode = .doze k' false ∧ k = some k' ∧ g.mode = .doze k' true) ∨
      (γ (.proc p)).mode = .run ∧ g.mode = .run)
    (hs : g.seen = none) (hg : (g.locks, g.tested, g.scan, g.owns, g.slocks) =
      ((γ (.proc p)).locks, (γ (.proc p)).tested, (γ (.proc p)).scan, (γ (.proc p)).owns,
        (γ (.proc p)).slocks))
    (ho : step c fail (.set p (.chan k)) s = some (.ok s' ())) :
    Inv s' (Function.update γ (.proc p) g) := by
  simp only [Prod.mk.injEq] at hg
  obtain ⟨hg1, hg2, hg3, hg4, hg5⟩ := hg
  have hk := hi.know (.proc p)
  have hrun : state s p = .running := by
    have := hi.disp.running c p hc
    rcases hm with ⟨k', hm, -⟩ | ⟨hm, -⟩ <;> rw [hm] at this <;> exact this.1
  have hmode : Running (state s p) (s.fresh p) g.mode := by
    rcases hm with ⟨k', -, -, hm⟩ | ⟨-, hm⟩ <;> rw [hm] <;> exact ⟨hrun, hf⟩
  have hmono : ∀ q, Startable s.fresh (fun u => (γ u).mode) q →
      Startable s.fresh (Function.update (fun u => (γ u).mode) (.proc p) g.mode) q :=
    fun q hq => startable_mono (by rcases hm with ⟨k', hm, -⟩ | ⟨hm, -⟩ <;> simp [hm]) hq
  have hd := hi.disp.setOwn hc hmode hf
  rw [Function.update_eq_self] at hd
  refine hi.setChan hc hl (by rw [hrun]; simp) (by rw [hg1, hg3, hg4, hg5]) hd hmono
    (fun p' k' _ ⟨b, hb⟩ => ?_) ?_ ho
  · rcases hm with ⟨k'', hm, -, hm'⟩ | ⟨-, hm'⟩
    · rw [hm'] at hb
      cases hb
      exact ⟨false, hm⟩
    · rw [hm'] at hb; cases hb
  · refine ⟨?_, by simp [hs], fun k' r ht => ?_, fun k' ps hsc => ?_, fun q b hq => ?_,
      fun p' k' hp' hd' => ?_, fun hp => ?_⟩
    · rcases hm with ⟨k', -, -, hm⟩ | ⟨-, hm⟩ <;> rw [hm]
      · exact ⟨p, rfl, hg1 ▸ hl⟩
      · trivial
    · rw [hg2] at ht
      exact ⟨hg1 ▸ (hk.tested k' r ht).1, (hk.tested k' r ht).2⟩
    · rw [hg3] at hsc
      exact hg1 ▸ hk.scan k' ps hsc
    · rw [hg4] at hq
      exact ⟨(hk.owns q b hq).1, fun hb => hmono q ((hk.owns q b hq).2 hb)⟩
    · cases hp'
      rcases hm with ⟨k'', -, hkk, hm⟩ | ⟨-, hm⟩ <;> rw [hm] at hd' <;> cases hd'
      rw [Function.update_self, hkk]
    · rcases hm with ⟨k'', -, -, hm⟩ | ⟨-, hm⟩ <;> rw [hm] at hp <;> cases hp

/-- `freeproc` resets the channel of a process that is not asleep. -/
lemma step_setChan_rest {a : PState} {k k₀ : Option (Chan NPROC ι κ)} (hi : Inv s γ)
    (hc : running s c = t) (hm : (γ t).mode = .run) (hseen : (γ t).seen = some (q, a, k₀))
    (ha : a ≠ .sleeping) {g : Ghost NPROC ι κ} (hg : g = { γ t with seen := some (q, a, k) })
    (ho : step c fail (.set q (.chan k)) s = some (.ok s' ())) :
    Inv s' (Function.update γ t g) := by
  have hk := hi.know t
  obtain ⟨hl, hst, -⟩ := hk.seen q a k₀ hseen
  have hmode : Function.update (fun u => (γ u).mode) t g.mode = fun u => (γ u).mode := by
    rw [hg]; exact Function.update_eq_self t fun u => (γ u).mode
  refine hi.setChan hc hl (by rwa [hst]) (by rw [hg]) (by rw [hmode]; exact hi.disp)
    (fun q hq => by rwa [hmode]) (fun p k' _ h => by rwa [hg] at h) ?_ ho
  rw [hmode]
  subst hg
  refine ⟨hk.locks, fun q' a' k' hs => ?_, hk.tested, hk.scan, hk.owns, fun p k' _ hd => ?_,
    fun hp => ?_⟩
  · cases hs
    exact ⟨hl, hst, by simp⟩
  · rw [show (γ t).mode = .doze k' true from hd] at hm; cases hm
  · exact absurd (show (γ t).mode.parked = true from hp) (by simp [hm, Mode.parked])

/-- `scheduler` makes a `RUNNABLE` process `RUNNING`. -/
lemma step_pick {k₀ : Option (Chan NPROC ι κ)} (hi : Inv s γ) (hc : running s c = .sched c)
    (hm : (γ (.sched c)).mode = .run) (hseen : (γ (.sched c)).seen = some (q, .runnable, k₀))
    (hlocks : (γ (.sched c)).locks = [.proc q]) {g : Ghost NPROC ι κ}
    (hg : g = { γ (.sched c) with mode := .picked q, seen := none })
    (ho : step c fail (.set q (.state .running)) s = some (.ok s' ())) :
    Inv s' (Function.update γ (.sched c) g) := by
  cases ho
  have hst : state (setProc q (Field.write (s.proc q) (.state .running)) s) =
      Function.update (state s) q .running := proc_view Proc.state _
  have hch : chan (setProc q (Field.write (s.proc q) (.state .running)) s) = chan s :=
    proc_same Proc.chan rfl
  have hk := hi.know (.sched c)
  obtain ⟨hl, hst₀, -⟩ := hk.seen q .runnable k₀ hseen
  have hoff := hi.rest hc hl (by simp) (by simp [hst₀])
  have hview := view_update (γ := γ) (t := .sched c) Ghost.mode g
  have hmono : ∀ p, Startable s.fresh (fun u => (γ u).mode) p →
      Startable s.fresh (Function.update (fun u => (γ u).mode) (.sched c) g.mode) p :=
    fun p hp => startable_update_sched.mpr hp
  have hnone : ∀ u b, (γ u).owns ≠ some (q, b) := fun u b ho => by
    have := ((hi.know u).owns q b ho).1
    rw [hst₀] at this
    cases this
  refine ⟨?_, ?_, ?_, hi.owner_same (by rw [hg]), ?_, ?_⟩
  · rw [view_same Ghost.locks (show g.locks = (γ (.sched c)).locks by rw [hg])]
    exact hi.cpus
  · rw [hview, hst, show g.mode = .picked q by rw [hg]]
    exact hi.disp.pick hc hm hoff hst₀
  · rw [hview]
    refine forall_update ?_ fun u hu => hi.know_setProc hc hl hmono (fun _ u b _ => hnone u b) hu
    subst hg
    refine ⟨hlocks, by simp, hk.tested, hk.scan, fun q' b hq' => ?_, by simp, by simp [Mode.parked]⟩
    obtain ⟨h1, h2⟩ := hk.owns q' b hq'
    have hqq : q' ≠ q := by rintro rfl; exact hnone _ b hq'
    exact ⟨by rw [hst, Function.update_of_ne hqq, h1], fun hb => hmono q' (h2 hb)⟩
  · rw [hview, view_same Ghost.scan (show g.scan = (γ (.sched c)).scan by rw [hg])]
    intro p k hp
    refine hi.wake p k ?_
    rcases hp with ⟨b, hb⟩ | ⟨h1, h2⟩
    · exact .inl ⟨b, by simpa using hb⟩
    · have hs1 : Function.update (state s) q .running p = .sleeping := (congrFun hst p).symm.trans h1
      have hpq : p ≠ q := by rintro rfl; simp at hs1
      exact .inr ⟨by simpa [hpq] using hs1, (congrFun hch p).symm.trans h2⟩
  · rw [view_same Ghost.slocks (show g.slocks = (γ (.sched c)).slocks by rw [hg])]
    exact hi.slk

/-- `c->proc = ..` in `scheduler`. -/
lemma step_setCpuProc {m : Mode NPROC ι κ} {o : Option (Fin NPROC)} (hi : Inv s γ)
    (hc : running s c = .sched c) (htarget : target m = o)
    (hlocks : ModeLocks (.sched c) m (γ (.sched c)).locks) (hpark : m.parked = false)
    (hdoze : ∀ p, Chosen (Function.update (fun u => (γ u).mode) (.sched c) m) c p ↔
      Chosen (fun u => (γ u).mode) c p) {g : Ghost NPROC ι κ} (hg : g = { γ (.sched c) with mode := m })
    (ho : step c fail (.setCpuProc o) s = some (.ok s' ())) :
    Inv s' (Function.update γ (.sched c) g) := by
  cases ho
  have hcp : cproc (setCpu c { s.cpu c with proc := o } s) = Function.update (cproc s) c o :=
    cpu_view Cpu.proc _
  have hrun : running (setCpu c { s.cpu c with proc := o } s) = running s := cpu_same Cpu.running rfl
  have hoff : noff (setCpu c { s.cpu c with proc := o } s) = noff s := cpu_same Cpu.noff rfl
  have hint : intr (setCpu c { s.cpu c with proc := o } s) = intr s := cpu_same Cpu.intr rfl
  have hk := hi.know (.sched c)
  have hview := view_update (γ := γ) (t := .sched c) Ghost.mode g
  have hgm : g.mode = m := by rw [hg]
  rw [hgm] at hview
  have hstart : ∀ p, Startable s.fresh (fun u => (γ u).mode) p →
      Startable s.fresh (Function.update (fun u => (γ u).mode) (.sched c) m) p :=
    fun p hp => startable_update_sched.mpr hp
  refine ⟨?_, ?_, ?_, hi.owner_same (by rw [hg]), ?_, ?_⟩
  · rw [hrun, hoff, hint, view_same Ghost.locks (show g.locks = (γ (.sched c)).locks by rw [hg])]
    exact hi.cpus
  · rw [hrun, hcp, hview, ← htarget]
    exact hi.disp.setSched hc hdoze
  · rw [hview]
    refine forall_update ?_ fun u _ => (hi.know u).congr (fun _ _ _ _ => ⟨rfl, rfl⟩)
      (fun _ _ _ => rfl) (fun q _ _ => ⟨rfl, hstart q⟩) fun _ _ _ _ => rfl
    subst hg
    exact ⟨hlocks, hk.seen, hk.tested, hk.scan,
      fun q b hq => ⟨(hk.owns q b hq).1, fun hb => hstart q ((hk.owns q b hq).2 hb)⟩, by simp,
      fun hp => absurd hp (by simp [hpark])⟩
  · rw [hview, view_same Ghost.scan (show g.scan = (γ (.sched c)).scan by rw [hg])]
    intro p k hp
    refine hi.wake p k ?_
    rcases hp with ⟨b, hb⟩ | hp
    · exact .inl ⟨b, by simpa using hb⟩
    · exact .inr hp
  · rw [view_same Ghost.slocks (show g.slocks = (γ (.sched c)).slocks by rw [hg])]
    exact hi.slk

omit [DecidableEq ι] [DecidableEq κ] in
/-- A thread is switched out in favour of one that takes over its lock. -/
lemma Inv.swtch {u : Ctx NPROC NCPU} {m : Mode NPROC ι κ} (hi : Inv s γ) (hc : running s c = t)
    (hhome : ∀ c', u = .sched c' → c' = c) (hfree : ∀ c', c' ≠ c → running s c' ≠ u)
    (hu : (γ u).locks = (γ t).locks) (hpark : m.parked = true)
    (hlocks : ModeLocks t m (γ t).locks)
    (hrun : (γ t).mode ≠ .saved false)
    (hnone : (γ t).seen = none ∧ (γ t).tested = none ∧ (γ t).scan = none)
    (hd : Disp (Function.update (running s) c u) (cproc s) (state s) s.fresh
      (Function.update (fun u => (γ u).mode) t m))
    {g : Ghost NPROC ι κ} (hg : g = { γ t with mode := m }) :
    Inv (setCpu c { s.cpu c with running := u } s) (Function.update γ t g) := by
  have hr : running (setCpu c { s.cpu c with running := u } s) = Function.update (running s) c u :=
    cpu_view Cpu.running _
  have hcp : cproc (setCpu c { s.cpu c with running := u } s) = cproc s := cpu_same Cpu.proc rfl
  have hoff : noff (setCpu c { s.cpu c with running := u } s) = noff s := cpu_same Cpu.noff rfl
  have hint : intr (setCpu c { s.cpu c with running := u } s) = intr s := cpu_same Cpu.intr rfl
  have hk := hi.know t
  have hview := view_update (γ := γ) (t := t) Ghost.mode g
  have hgm : g.mode = m := by rw [hg]
  rw [hgm] at hview
  have hstart : ∀ p, Startable s.fresh (fun u => (γ u).mode) p →
      Startable s.fresh (Function.update (fun u => (γ u).mode) t m) p :=
    fun p hp => startable_mono hrun hp
  have hm : ∀ k b, m ≠ .doze k b := by rintro k b rfl; cases hpark
  refine ⟨?_, ?_, ?_, hi.owner_same (by rw [hg]), ?_, ?_⟩
  · rw [hr, hoff, hint, view_same Ghost.locks (show g.locks = (γ t).locks by rw [hg])]
    exact hi.cpus.swtch hhome hfree (by rw [hc]; exact hu)
  · rw [hr, hcp, hview]
    exact hd
  · rw [hview]
    refine forall_update ?_ fun u _ => (hi.know u).congr (fun _ _ _ _ => ⟨rfl, rfl⟩)
      (fun _ _ _ => rfl) (fun q _ _ => ⟨rfl, hstart q⟩) fun _ _ _ _ => rfl
    subst hg
    exact ⟨hlocks, hk.seen, hk.tested, hk.scan,
      fun q b hq => ⟨(hk.owns q b hq).1, fun hb => hstart q ((hk.owns q b hq).2 hb)⟩,
      fun p k _ hp => absurd hp (hm k true), fun _ => hnone⟩
  · rw [hview, view_same Ghost.scan (show g.scan = (γ t).scan by rw [hg])]
    intro p k hp
    refine hi.wake p k ?_
    rcases hp with ⟨b, hb⟩ | hp
    · by_cases hpt : t = .proc p
      · subst hpt; exact absurd (by simpa using hb) (hm k b)
      · exact .inl ⟨b, by simpa [Ne.symm hpt] using hb⟩
    · exact .inr hp
  · rw [view_same Ghost.slocks (show g.slocks = (γ t).slocks by rw [hg])]
    exact hi.slk

end Steps

end Xv6.Sched.Protocol
