import Xv6.Sched.Protocol

/-!
The steps of the invariant at which control changes hands: `swtch`, the start of a process,
interrupts; and those that change a condition or a sleeplock.
-/

namespace Xv6.Sched.Switch

open Xv6.Conc Xv6.Conc.Prog Xv6.Conc.Proto Xv6.Sched.Table Xv6.Sched.Kernel Xv6.Sched.Handoff
  Xv6.Sched.Protocol

variable {NPROC NCPU : ℕ} {ι κ : Type} {s s' : St NPROC NCPU ι κ}
  {γ : Ctx NPROC NCPU → Ghost NPROC ι κ} {t : Ctx NPROC NCPU} {c : Fin NCPU} {p q : Fin NPROC}
  {fail : Bool}

/-! ### Switching -/

section Switching

variable [DecidableEq ι] [DecidableEq κ]

/-- `swtch` from the scheduler to the process it aims at. -/
lemma step_swtchTo (hi : Inv s γ) (hc : running s c = .sched c)
    (hm : (γ (.sched c)).mode = .aimed q)
    (hnone : (γ (.sched c)).seen = none ∧ (γ (.sched c)).tested = none ∧ (γ (.sched c)).scan = none)
    {g : Ghost NPROC ι κ} (hg : g = { γ (.sched c) with mode := .away q })
    (ho : step c fail (.swtchTo q) s = some (.ok s' ())) :
    Inv s' (Function.update γ (.sched c) g) := by
  cases ho
  obtain ⟨hoff, hst, -⟩ := hi.disp.chosen c q (.inr hm)
  have hlocks : (γ (.sched c)).locks = [.proc q] := by
    have := (hi.know (.sched c)).locks
    rwa [hm] at this
  have hq : (γ (.proc q)).locks = [.proc q] := by
    obtain ⟨b, hb⟩ := hi.disp.onCpu q hoff
    have := (hi.know (.proc q)).locks
    rw [hb] at this
    obtain ⟨q', hq', hl⟩ := this
    cases hq'
    exact hl
  refine hi.swtch (m := .away q) hc (by simp) (fun c' _ => hoff c') (hq.trans hlocks.symm) rfl
    hlocks (by simp [hm]) hnone (hi.disp.swtchTo hc hm fun c' hch => ?_) hg
  -- two schedulers that have chosen `q` both hold its lock
  replace hch : (γ (.sched c')).mode = .picked q ∨ (γ (.sched c')).mode = .aimed q := hch
  have hmem : (γ (.sched c')).locks = [.proc q] := by
    have := (hi.know (.sched c')).locks
    rcases hch with hm' | hm' <;> rwa [hm'] at this
  have hpark : (γ (.sched c')).mode.parked = false := by
    rcases hch with hm' | hm' <;> simp [hm', Mode.parked]
  have := hi.excl (l := .proc q) hc (by simp [hlocks]) hpark (by simp [hmem])
  cases this
  rfl

/-- `swtch` from a process that has set its state back to the scheduler of its CPU. -/
lemma step_swtchBack {a : PState} (hi : Inv s γ) (hc : running s c = .proc p)
    (hm : (γ (.proc p)).mode = .leave a) (hl : (γ (.proc p)).locks = [.proc p])
    (hnone : (γ (.proc p)).seen = none ∧ (γ (.proc p)).tested = none ∧ (γ (.proc p)).scan = none)
    {g : Ghost NPROC ι κ} (hg : g = { γ (.proc p) with mode := .saved (a = .zombie) })
    (ho : step c fail .swtchBack s = some (.ok s' ())) :
    Inv s' (Function.update γ (.proc p) g) := by
  cases ho
  have hlocks : (γ (.sched c)).locks = [.proc p] := by
    have := (hi.know (.sched c)).locks
    rwa [hi.disp.away c p hc] at this
  refine hi.swtch (m := .saved _) hc (by simp) (fun c' hcc hc' => hcc (hi.cpus.home c' c hc').symm)
    (hlocks.trans hl.symm) rfl ⟨p, rfl, hl⟩ (by simp [hm]) hnone
    (hi.disp.swtchBack hc hm hi.cpus.inj) hg

omit [DecidableEq ι] [DecidableEq κ] in
/-- A thread that has been switched to is not one that has left for good, and goes on. -/
lemma step_resume {f : Bool} (hi : Inv s γ) (hc : running s c = .proc p)
    (hf : s.fresh p = false) (hm : (γ (.proc p)).mode = .saved f) {g : Ghost NPROC ι κ}
    (hg : g = { γ (.proc p) with mode := .run }) :
    f = false ∧ Inv s (Function.update γ (.proc p) g) := by
  have hrun := hi.disp.running c p hc
  simp only [hm, Running, hf] at hrun
  obtain ⟨hst, hff⟩ := hrun
  refine ⟨by simpa using hff, ?_⟩
  have hk := hi.know (.proc p)
  have hgm : g.mode = .run := by rw [hg]
  have hview := view_update (γ := γ) (t := .proc p) Ghost.mode g
  rw [hgm] at hview
  have hd := hi.disp.setOwn hc (m := .run) (a := state s p) ⟨hst, hf⟩ hf
  rw [Function.update_eq_self] at hd
  have hmono : ∀ u r b, (γ u).owns = some (r, b) →
      Startable s.fresh (fun u => (γ u).mode) r →
      Startable s.fresh (Function.update (fun u => (γ u).mode) (.proc p) .run) r := by
    intro u r b ho hr
    have hrp : r ≠ p := by
      rintro rfl
      have := ((hi.know u).owns r b ho).1
      rw [hst] at this
      cases this
    simpa [Startable, hrp] using hr
  refine ⟨?_, ?_, ?_, hi.owner_same (by rw [hg]), ?_, ?_⟩
  · rw [view_same Ghost.locks (show g.locks = (γ (.proc p)).locks by rw [hg])]
    exact hi.cpus
  · rw [hview]; exact hd
  · rw [hview]
    refine forall_update ?_ fun u _ => (hi.know u).congr (fun _ _ _ _ => ⟨rfl, rfl⟩)
      (fun _ _ _ => rfl) (fun r b ho => ⟨rfl, hmono u r b ho⟩) fun _ _ _ _ => rfl
    subst hg
    exact ⟨trivial, hk.seen, hk.tested, hk.scan,
      fun r b ho => ⟨(hk.owns r b ho).1, fun hb => hmono _ r b ho ((hk.owns r b ho).2 hb)⟩,
      by simp, by simp [Mode.parked]⟩
  · rw [hview, view_same Ghost.scan (show g.scan = (γ (.proc p)).scan by rw [hg])]
    intro r k hr
    refine hi.wake r k ?_
    rcases hr with ⟨b, hb⟩ | hr
    · by_cases hrp : r = p
      · subst hrp; simp at hb
      · exact .inl ⟨b, by simpa [hrp] using hb⟩
    · exact .inr hr
  · rw [view_same Ghost.slocks (show g.slocks = (γ (.proc p)).slocks by rw [hg])]
    exact hi.slk

omit [DecidableEq ι] [DecidableEq κ] in
/-- Interrupts go off, or on where no lock is held. -/
lemma step_setIntr {b : Bool} (hi : Inv s γ) (hb : b = true → (γ (running s c)).locks = []) :
    Inv (setCpu c { s.cpu c with intr := b } s) γ := by
  have hrun : running (setCpu c { s.cpu c with intr := b } s) = running s := cpu_same Cpu.running rfl
  have hcp : cproc (setCpu c { s.cpu c with intr := b } s) = cproc s := cpu_same Cpu.proc rfl
  have hoff : noff (setCpu c { s.cpu c with intr := b } s) = noff s := cpu_same Cpu.noff rfl
  have hint : intr (setCpu c { s.cpu c with intr := b } s) = Function.update (intr s) c b :=
    cpu_view Cpu.intr _
  refine ⟨?_, ?_, hi.know, hi.owner, hi.wake, hi.slk⟩
  · rw [hrun, hoff, hint]
    exact hi.cpus.setIntr hb
  · rw [hrun, hcp]
    exact hi.disp

omit [DecidableEq ι] [DecidableEq κ] in
/-- `allocproc` sets the context of the process it creates. -/
lemma step_initContext {k : Option (Chan NPROC ι κ)} (hi : Inv s γ) (hc : running s c = t)
    (hm : (γ t).mode = .run) (hq : t ≠ .proc q) (hseen : (γ t).seen = some (q, .used, k))
    (howns : (γ t).owns = some (q, false)) {g : Ghost NPROC ι κ}
    (hg : g = { γ t with owns := some (q, true) }) :
    Inv { s with fresh := Function.update s.fresh q true } (Function.update γ t g) := by
  have hk := hi.know t
  obtain ⟨hl, hst, -⟩ := hk.seen q .used k hseen
  have hoff := hi.rest hc hl hq (by simp [hst])
  have hstart : ∀ r, Startable s.fresh (fun u => (γ u).mode) r →
      Startable (Function.update s.fresh q true) (fun u => (γ u).mode) r := fun r hr => by
    by_cases hrq : r = q
    · subst hrq; exact .inl (by simp)
    · simpa [Startable, hrq] using hr
  have hmode : (fun u => (Function.update γ t g u).mode) = fun u => (γ u).mode :=
    view_same Ghost.mode (by rw [hg])
  refine ⟨?_, ?_, ?_, ?_, ?_, ?_⟩
  · rw [view_same Ghost.locks (show g.locks = (γ t).locks by rw [hg])]
    exact hi.cpus
  · rw [hmode]; exact hi.disp.initContext hoff
  · rw [hmode]
    refine forall_update ?_ fun u _ => (hi.know u).congr (fun _ _ _ _ => ⟨rfl, rfl⟩)
      (fun _ _ _ => rfl) (fun r b _ => ⟨rfl, hstart r⟩) fun _ _ _ _ => rfl
    subst hg
    refine ⟨hk.locks, hk.seen, hk.tested, hk.scan, fun r b ho => ?_, hk.doze, fun hp => ?_⟩
    · cases ho
      exact ⟨hst, fun _ => .inl (by simp)⟩
    · exact absurd (show (γ t).mode.parked = true from hp) (by simp [hm, Mode.parked])
  · refine owner_update hi.owner fun r b ho u b' hu hu' => ?_
    rw [hg] at ho
    cases ho
    exact hu (hi.owner u t q b' false hu' howns)
  · rw [hmode, view_same Ghost.scan (show g.scan = (γ t).scan by rw [hg])]
    exact hi.wake
  · rw [view_same Ghost.slocks (show g.slocks = (γ t).slocks by rw [hg])]
    exact hi.slk

omit [DecidableEq ι] [DecidableEq κ] in
/-- A new process takes up `forkret`, of which nothing is known but the lock it is given. -/
lemma step_start (hi : Inv s γ) (hf : s.fresh p = true) {g : Ghost NPROC ι κ}
    (hg : g = ⟨[.proc p], .saved false, none, none, none, none, (γ (.proc p)).slocks⟩) :
    Inv { s with fresh := Function.update s.fresh p false } (Function.update γ (.proc p) g) := by
  obtain ⟨b, hb⟩ := hi.disp.unstarted p hf
  have hk := hi.know (.proc p)
  have hlocks : g.locks = (γ (.proc p)).locks := by
    have := hk.locks
    rw [hb] at this
    obtain ⟨q, hq, hl⟩ := this
    cases hq
    rw [hg, hl]
  have hscan : g.scan = (γ (.proc p)).scan := by
    rw [hg, (hk.parked (by simp [hb, Mode.parked])).2.2]
  have hgm : g.mode = .saved false := by rw [hg]
  have hview := view_update (γ := γ) (t := .proc p) Ghost.mode g
  rw [hgm] at hview
  have hmono : ∀ r, Startable s.fresh (fun u => (γ u).mode) r →
      Startable (Function.update s.fresh p false)
        (Function.update (fun u => (γ u).mode) (.proc p) (.saved false)) r := fun r hr => by
    by_cases hrp : r = p
    · subst hrp; exact .inr (by simp)
    · simpa [Startable, hrp] using hr
  refine ⟨?_, ?_, ?_, ?_, ?_, ?_⟩
  · rw [view_same Ghost.locks hlocks]
    exact hi.cpus
  · rw [hview]; exact hi.disp.start hf
  · rw [hview]
    refine forall_update ?_ fun u _ => (hi.know u).congr (fun _ _ _ _ => ⟨rfl, rfl⟩)
      (fun _ _ _ => rfl) (fun r b _ => ⟨rfl, hmono r⟩) fun _ _ _ _ => rfl
    subst hg
    exact ⟨⟨p, rfl, rfl⟩, by simp, by simp, by simp, by simp, by simp, fun _ => ⟨rfl, rfl, rfl⟩⟩
  · refine owner_update hi.owner fun r b ho => ?_
    rw [hg] at ho
    cases ho
  · rw [hview, view_same Ghost.scan hscan]
    intro r k hr
    refine hi.wake r k ?_
    rcases hr with ⟨b', hb'⟩ | hr
    · by_cases hrp : r = p
      · subst hrp; simp at hb'
      · exact .inl ⟨b', by simpa [hrp] using hb'⟩
    · exact .inr hr
  · rw [view_same Ghost.slocks (show g.slocks = (γ (.proc p)).slocks by rw [hg])]
    exact hi.slk

end Switching

/-! ### Conditions and sleeplocks -/

section Conditions

/-- A condition changes under its lock; whoever makes it true has all processes to visit. -/
lemma Inv.setReady [DecidableEq ι] [DecidableEq κ] {k : Chan NPROC ι κ} {b : Bool}
    (hi : Inv s γ) (hc : running s c = t) (hm : (γ t).mode = .run) (hl : lockOf k ∈ (γ t).locks)
    (hs : (running s', s'.lock, noff s', intr s', cproc s', state s', chan s', s'.fresh) =
      (running s, s.lock, noff s, intr s, cproc s, state s, chan s, s.fresh))
    (hr : ready s' = Function.update (ready s) k b) {g : Ghost NPROC ι κ}
    (hg : (g.locks, g.mode, g.seen, g.tested, g.owns) =
      ((γ t).locks, .run, (γ t).seen, none, (γ t).owns))
    (hscan : b = false ∧ g.scan = (γ t).scan ∨
      b = true ∧ (γ t).scan = none ∧ g.scan = some (k, List.finRange NPROC))
    (hslk : Slk (fun j => (s'.slk j).locked) s'.holders
      fun u => (Function.update γ t g u).slocks) :
    Inv s' (Function.update γ t g) := by
  simp only [Prod.mk.injEq] at hs hg
  obtain ⟨h1, h2, h3, h4, h5, h6, h7, h8⟩ := hs
  obtain ⟨hg1, hg2, hg3, hg4, hg5⟩ := hg
  have hmode := view_same (γ := γ) (t := t) Ghost.mode (hg2.trans hm.symm)
  have hk := hi.know t
  refine ⟨?_, ?_, ?_, hi.owner_same hg5, ?_, hslk⟩
  · rw [view_same Ghost.locks hg1, h1, h2, h3, h4]
    exact hi.cpus
  · rw [hmode, h1, h5, h6, h8]
    exact hi.disp
  · rw [hmode, h6, h7, h8]
    refine forall_update ?_ fun u hu => (hi.know u).congr (fun _ _ _ _ => ⟨rfl, rfl⟩)
      (fun k' r ht => ?_) (fun _ _ _ => ⟨rfl, id⟩) fun _ _ _ _ => rfl
    · refine ⟨by rw [hg2]; trivial, ?_, by simp [hg4], fun k' ps hs => ?_, ?_, by simp [hg2],
        by simp [hg2, Mode.parked]⟩
      · rw [hg1, hg3]; exact hk.seen
      · rw [hg1]
        rcases hscan with ⟨-, hsc⟩ | ⟨-, -, hsc⟩ <;> rw [hsc] at hs
        · exact hk.scan k' ps hs
        · cases hs
          exact hl
      · rw [hg5]; exact hk.owns
    · -- the lock of the condition excludes others that have tested it
      have hne : k' ≠ k := by
        rintro rfl
        refine hu (hi.excl hc hl ?_ ((hi.know u).tested k' r ht).1)
        by_contra hp
        have := ((hi.know u).parked (by simpa using hp)).2.1
        simp [ht] at this
      rw [hr, Function.update_of_ne hne]
  · rw [hmode, h6, h7, hr]
    intro p k' hp
    by_cases hkk : k' = k
    · subst hkk
      rcases hscan with ⟨rfl, -⟩ | ⟨-, -, hsc⟩
      · exact .inl (by simp)
      · exact .inr ⟨t, _, by simpa using hsc, List.mem_finRange p⟩
    · rw [Function.update_of_ne hkk]
      rcases hi.wake p k' hp with h | ⟨u, ps, hu, hmem⟩
      · exact .inl h
      · refine .inr ⟨u, ps, ?_, hmem⟩
        by_cases hut : u = t
        · subst hut
          rcases hscan with ⟨-, hsc⟩ | ⟨-, hsc, -⟩
          · simpa [hsc] using hu
          · simp [hsc] at hu
        · simpa [hut] using hu

lemma step_setCond [DecidableEq ι] [DecidableEq κ] {i : ι} {b : Bool} (hi : Inv s γ)
    (hc : running s c = t) (hm : (γ t).mode = .run) (hl : .cond i ∈ (γ t).locks)
    (hscan : (γ t).scan = none) {g : Ghost NPROC ι κ}
    (hg : g = { γ t with
      tested := none, scan := if b then some (.cond i, List.finRange NPROC) else none })
    (ho : step c fail (.setCond i b) s = some (.ok s' ())) :
    Inv s' (Function.update γ t g) := by
  cases ho
  refine Inv.setReady (k := .cond i) (b := b) (g := g) hi hc hm hl ?_ ?_ (by rw [hg, ← hm]) ?_ ?_
  · rfl
  · funext k'
    cases k' with
    | cond i' =>
      by_cases hii : i' = i
      · subst hii; simp [ready]
      · simp [ready, hii]
    | _ => simp [ready]
  · cases b
    · exact .inl ⟨rfl, by simp [hg, hscan]⟩
    · exact .inr ⟨rfl, hscan, by simp [hg]⟩
  · rw [view_same Ghost.slocks (show g.slocks = (γ t).slocks by rw [hg])]
    exact hi.slk

lemma Slk.take [DecidableEq κ] {locked : κ → Bool} {holders : κ → List (Fin NPROC)}
    {j : κ} {g : Ghost NPROC ι κ}
    (h : Slk locked holders fun u : Ctx NPROC NCPU => (γ u).slocks) (hj : locked j = false)
    (hg : g.slocks = j :: (γ (.proc p)).slocks) :
    Slk (Function.update locked j true) (Function.update holders j (p :: holders j))
      fun u => (Function.update γ (.proc p) g u).slocks := by
  have hnone := h.free j hj
  refine ⟨fun j' hj' => ?_, fun j' hj' => ?_, fun j' p' => ?_, fun p' => ?_⟩
  · by_cases hjj : j' = j
    · subst hjj; exact ⟨p, by simp [hnone]⟩
    · simpa [hjj] using h.taken j' (by simpa [hjj] using hj')
  · have hjj : j' ≠ j := by rintro rfl; simp at hj'
    simpa [hjj] using h.free j' (by simpa [hjj] using hj')
  · by_cases hp : p' = p <;> by_cases hjj : j' = j
    · subst hp hjj; simp [hg]
    · subst hp; simpa [hg, hjj] using h.holder j' p'
    · subst hjj
      have := h.holder j' p'
      simp only [hnone, List.not_mem_nil, false_iff] at this
      simp [hp, hnone, this]
    · simpa [hp, hjj] using h.holder j' p'
  · by_cases hp : p' = p
    · subst hp
      have hout : j ∉ (γ (.proc p')).slocks := fun hmem => by
        have := (h.holder j p').mpr hmem
        rw [hnone] at this
        cases this
      simpa [hg] using ⟨hout, h.nodup p'⟩
    · simpa [hp] using h.nodup p'

lemma Slk.drop [DecidableEq κ] {locked : κ → Bool} {holders : κ → List (Fin NPROC)}
    {j : κ} {g : Ghost NPROC ι κ}
    (h : Slk locked holders fun u : Ctx NPROC NCPU => (γ u).slocks)
    (hj : j ∈ (γ (.proc p)).slocks) (hg : g.slocks = (γ (.proc p)).slocks.erase j) :
    Slk (Function.update locked j false) (Function.update holders j ((holders j).erase p))
      fun u => (Function.update γ (.proc p) g u).slocks := by
  have hmem := (h.holder j p).mpr hj
  have hone : holders j = [p] := by
    cases hlk : locked j with
    | false => rw [h.free j hlk] at hmem; cases hmem
    | true =>
      obtain ⟨p', hp'⟩ := h.taken j hlk
      rw [hp', List.mem_singleton] at hmem
      rw [hp', hmem]
  refine ⟨fun j' hj' => ?_, fun j' hj' => ?_, fun j' p' => ?_, fun p' => ?_⟩
  · have hjj : j' ≠ j := by rintro rfl; simp at hj'
    simpa [hjj] using h.taken j' (by simpa [hjj] using hj')
  · by_cases hjj : j' = j
    · subst hjj; simp [hone]
    · simpa [hjj] using h.free j' (by simpa [hjj] using hj')
  · by_cases hp : p' = p <;> by_cases hjj : j' = j
    · subst hp hjj; simp [hone, hg, (h.nodup p').mem_erase_iff]
    · subst hp; simpa [hg, hjj, List.mem_erase_of_ne hjj] using h.holder j' p'
    · subst hjj
      have := h.holder j' p'
      rw [hone, List.mem_singleton] at this
      simp [hp, hone, ← this]
    · simpa [hp, hjj] using h.holder j' p'
  · by_cases hp : p' = p
    · subst hp; simpa [hg] using (h.nodup p').erase j
    · simpa [hp] using h.nodup p'

variable [DecidableEq ι] [DecidableEq κ] {j : κ}

lemma ready_setLocked {b : Bool} {hs : κ → List (Fin NPROC)} :
    ready { s with
      slk := Function.update s.slk j { s.slk j with locked := b }, holders := hs } =
      Function.update (ready s) (.slk j) (!b) := by
  funext k'
  cases k' with
  | slk j' =>
    by_cases hjj : j' = j
    · subst hjj; simp [ready]
    · simp [ready, hjj]
  | _ => simp [ready]

omit [DecidableEq ι] in
lemma locked_update {b : Bool} {hs : κ → List (Fin NPROC)} :
    (fun j' => (({ s with
      slk := Function.update s.slk j { s.slk j with locked := b }, holders := hs }
        : St NPROC NCPU ι κ).slk j').locked) =
      Function.update (fun j' => (s.slk j').locked) j b := by
  funext j'
  by_cases hjj : j' = j
  · subst hjj; simp
  · simp [hjj]

/-- `acquiresleep` takes a sleeplock that it has found free. -/
lemma step_lock (hi : Inv s γ) (hc : running s c = .proc p) (hm : (γ (.proc p)).mode = .run)
    (htested : (γ (.proc p)).tested = some (.slk j, true)) {g : Ghost NPROC ι κ}
    (hg : g = { γ (.proc p) with tested := none, slocks := j :: (γ (.proc p)).slocks })
    (ho : step c fail (.setLocked j true) s = some (.ok s' ())) :
    Inv s' (Function.update γ (.proc p) g) := by
  cases ho
  obtain ⟨hl, hfree⟩ := (hi.know (.proc p)).tested _ _ htested
  have hc' : (s.cpu c).running = .proc p := hc
  refine Inv.setReady (k := .slk j) (b := false) (g := g) hi hc hm hl ?_ ?_
    (by rw [hg, ← hm]) (.inl ⟨rfl, by rw [hg]⟩) ?_
  · rfl
  · exact ready_setLocked
  · rw [locked_update]
    simp only [hc', if_pos]
    exact Slk.take hi.slk (by simpa [ready] using hfree) (by rw [hg])

/-- `releasesleep` frees a sleeplock of its process, and has all processes to visit. -/
lemma step_unlock (hi : Inv s γ) (hc : running s c = .proc p) (hm : (γ (.proc p)).mode = .run)
    (hl : .slk j ∈ (γ (.proc p)).locks) (hj : j ∈ (γ (.proc p)).slocks)
    (hscan : (γ (.proc p)).scan = none) {g : Ghost NPROC ι κ}
    (hg : g = { γ (.proc p) with
      tested := none, scan := some (.slk j, List.finRange NPROC)
      slocks := (γ (.proc p)).slocks.erase j })
    (ho : step c fail (.setLocked j false) s = some (.ok s' ())) :
    Inv s' (Function.update γ (.proc p) g) := by
  cases ho
  have hc' : (s.cpu c).running = .proc p := hc
  refine Inv.setReady (k := .slk j) (b := true) (g := g) hi hc hm hl ?_ ?_
    (by rw [hg, ← hm]) (.inr ⟨rfl, hscan, by rw [hg]⟩) ?_
  · rfl
  · exact ready_setLocked
  · rw [locked_update]
    simp only [hc', Bool.false_eq_true, if_false]
    exact Slk.drop hi.slk hj (by rw [hg])

end Conditions

end Xv6.Sched.Switch
