import Xv6.Ipc.Pipes

/-!
The protocol of `pi->lock`: what a thread knows of the pipe while it holds the lock, that the
pipe carries the bytes that went in and did not come out, and who sleeps on it with what right.

A process is committed to a channel from when it releases `pi->lock` in `sleep`. It has the
right to sleep as long as the pipe is as it was then; a thread that changes the pipe owes it a
wakeup, until it has visited it in `wakeup`.
-/

namespace Xv6.Ipc.Guard

open Xv6.Conc Xv6.Conc.Prog Xv6.Conc.Proto Xv6.Data.Ring Xv6.Sched.Kernel Xv6.Proc.Coarse
  Xv6.Ipc.Pipes
open Xv6.Sched.Table hiding step sem setProc setLock

variable {NPROC NCPU : ℕ}

/-- A writer finds itself killed, with bytes in the pipe that it has not announced. -/
def lapse : Ctx NPROC NCPU → PipeAct NPROC → State NPROC NCPU → Bool
  | .proc p, .inl (.get q), s =>
    q = p && (s.1.1.proc p).killed && 0 < (s.2.call p).unsaid
  | _, _, _ => false

/-- A system within the runs of `pipes`; if it is strict, no writer lapses in its runs. -/
structure Within (S : Sys (State NPROC NCPU) (Ctx NPROC NCPU) (Bool × Bool × Byte)
    (PipeAct NPROC) (Both Res PRes) ℤ) (strict : Prop) : Prop where
  sem : ∀ t a c s o, S.sem t a c s = some o → (pipes NPROC NCPU).sem t a c s = some o
  faithful : strict → ∀ t a c s o, S.sem t a c s = some o → lapse t a s = false
  enter : S.enter = Enter

/-! ### Ghost state -/

/-- Where a process is in `sleep`: it has released the lock, with or without having set its
channel; it has set its state and is not yet back. -/
inductive Nap
  | awake
  | falling (i : Site) (named : Bool)
  | asleep (i : Site)

structure Ghost (NPROC : ℕ) where
  /-- It holds `pi->lock`. -/
  holds : Bool
  /-- The process whose lock it holds. -/
  locked : Option (Fin NPROC)
  away : Bool
  /-- What it knows the pipe to be. -/
  pipe : Option Pipe
  /-- It has copied out the byte at the front, and has not yet incremented `nread`. -/
  ahead : Bool
  call : Call
  /-- The state and the channel it has seen of the process whose lock it holds. -/
  seen : Option (PState × Option (Chan NPROC Site Empty))
  nap : Nap
  /-- The wakeups it owes. -/
  owes : Site → Fin NPROC → Prop

/-- What gives a process the right to sleep. -/
def Justified (pi : Pipe) : Site → Prop
  | .nread => pi.nread = pi.nwrite ∧ pi.writeopen = true
  | .nwrite => pi.nwrite = pi.nread + BitVec.ofNat 32 PIPESIZE ∧ pi.readopen = true
  | _ => False

/-- What a ghost value says of its thread. -/
structure Local (s : State NPROC NCPU) (t : Ctx NPROC NCPU) (g : Ghost NPROC) : Prop where
  here : ∀ p, t = .proc p → s.1.1.away p = g.away
  holds : g.holds = true → s.1.1.lock pipeLock = some t
  locked : ∀ q, g.locked = some q → s.1.1.lock (.proc q) = some t
  know : ∀ d, g.pipe = some d → g.holds = true ∧ s.1.2 = d
  ahead : g.ahead = true → g.holds = true
  call : ∀ p, t = .proc p → s.2.call p = g.call
  seen : ∀ st ch, g.seen = some (st, ch) → ∃ q, g.locked = some q ∧
    (s.1.1.proc q).state = st ∧ (s.1.1.proc q).chan = ch
  falling : ∀ p i b, t = .proc p → g.nap = .falling i b →
    g.locked = some p ∧ (b = true → (s.1.1.proc p).chan = some (.cond i))
  asleep : ∀ p i, t = .proc p → g.nap = .asleep i → (s.1.1.proc p).chan = some (.cond i)
  sleeping : ∀ p, t = .proc p → (s.1.1.proc p).state = .sleeping → ∃ i, g.nap = .asleep i

/-- The process will sleep on the channel, or does so. -/
def Committed (s : State NPROC NCPU) (p : Fin NPROC) (g : Ghost NPROC) (i : Site) : Prop :=
  (∃ b, g.nap = .falling i b) ∨ g.nap = .asleep i ∧ (s.1.1.proc p).state = .sleeping

/-- The pipe holds what was accepted and not delivered; if `ahead`, its first byte has been
delivered already. -/
def Flow (n₀ : BitVec 32) (s : State NPROC NCPU) (ahead : Bool) : Prop :=
  ∃ k, Carries n₀ s.2.accepted k s.1.2.ring ∧ k + ahead.toNat ≤ s.2.accepted.length ∧
    s.2.delivered = s.2.accepted.take (k + ahead.toNat)

structure Inv (strict : Prop) (n₀ : BitVec 32) (s : State NPROC NCPU)
    (γ : Ctx NPROC NCPU → Ghost NPROC) : Prop where
  each : ∀ t, Local s t (γ t)
  flow : ∃ b, Flow n₀ s b ∧ (b = true ↔ ∃ t, (γ t).ahead = true)
  wake : strict → ∀ p i, Committed s p (γ (.proc p)) i →
    Justified s.1.2 i ∨ ∃ t, (γ t).holds = true ∧ (γ t).owes i p

/-! ### Steps -/

section Steps

variable {strict : Prop} {n₀ : BitVec 32} {s s' : State NPROC NCPU}
  {γ : Ctx NPROC NCPU → Ghost NPROC} {t u : Ctx NPROC NCPU} {g g' : Ghost NPROC} {i : Site}
  {p q : Fin NPROC}

/-- What the other threads may rely on when `t` makes a step. -/
structure Rely (t : Ctx NPROC NCPU) (s s' : State NPROC NCPU) : Prop where
  lock : ∀ u l, u ≠ t → s.1.1.lock l = some u → s'.1.1.lock l = some u
  away : ∀ p, t ≠ .proc p → s'.1.1.away p = s.1.1.away p
  call : ∀ p, t ≠ .proc p → s'.2.call p = s.2.call p
  pipe : s'.1.2 = s.1.2 ∨ s.1.1.lock pipeLock = some t
  proc : ∀ q, s'.1.1.proc q = s.1.1.proc q ∨
    (∀ u, u ≠ t → s.1.1.lock (.proc q) ≠ some u) ∧ (t ≠ .proc q →
      (s'.1.1.proc q).chan = (s.1.1.proc q).chan ∧
      ((s'.1.1.proc q).state = .sleeping → (s.1.1.proc q).state = .sleeping))

lemma Rely.state (h : Rely t s s') (hp : t ≠ .proc p) (hs : (s'.1.1.proc p).state = .sleeping) :
    (s.1.1.proc p).state = .sleeping := by
  rcases h.proc p with h | ⟨-, h⟩
  · rwa [h] at hs
  · exact (h hp).2 hs

lemma Rely.chan (h : Rely t s s') (hp : t ≠ .proc p) :
    (s'.1.1.proc p).chan = (s.1.1.proc p).chan := by
  rcases h.proc p with h | ⟨-, h⟩
  · rw [h]
  · exact (h hp).1

/-- What a thread knows survives the steps of the others. -/
lemma Local.stable (h : Local s u g) (hr : Rely t s s') (hu : u ≠ t) : Local s' u g := by
  have hother : ∀ p, u = .proc p → t ≠ .proc p := fun p hp ht => hu (hp.trans ht.symm)
  refine ⟨fun p hp => ?_, fun hg => hr.lock _ _ hu (h.holds hg),
    fun q hq => hr.lock _ _ hu (h.locked q hq), fun d hd => ?_, h.ahead, fun p hp => ?_,
    fun st ch hst => ?_, fun p i b hp hn => ?_, fun p i hp hn => ?_, fun p hp hs => ?_⟩
  · rw [hr.away p (hother p hp)]
    exact h.here p hp
  · obtain ⟨h1, h2⟩ := h.know d hd
    refine ⟨h1, ?_⟩
    rcases hr.pipe with hpipe | hlock
    · rw [hpipe, h2]
    · have := h.holds h1
      rw [hlock] at this
      exact absurd (Option.some.inj this).symm hu
  · rw [hr.call p (hother p hp)]
    exact h.call p hp
  · obtain ⟨q, hq, h1, h2⟩ := h.seen st ch hst
    refine ⟨q, hq, ?_⟩
    rcases hr.proc q with hq' | ⟨hq', -⟩
    · rw [hq']
      exact ⟨h1, h2⟩
    · exact absurd (h.locked q hq) (hq' u hu)
  · obtain ⟨h1, h2⟩ := h.falling p i b hp hn
    exact ⟨h1, fun hb => by rw [hr.chan (hother p hp)]; exact h2 hb⟩
  · rw [hr.chan (hother p hp)]
    exact h.asleep p i hp hn
  · exact h.sleeping p hp (hr.state (hother p hp) hs)

/-- Two threads do not hold `pi->lock` at a time. -/
lemma Inv.excl (hi : Inv strict n₀ s γ) (ht : (γ t).holds = true) (hu : (γ u).holds = true) :
    t = u :=
  Option.some.inj (((hi.each t).holds ht).symm.trans ((hi.each u).holds hu))

/-- What becomes of the bytes. -/
def Carry (n₀ : BitVec 32) (s s' : State NPROC NCPU) (g g' : Ghost NPROC) : Prop :=
  s'.1.2 = s.1.2 ∧ s'.2.accepted = s.2.accepted ∧ s'.2.delivered = s.2.delivered ∧
      g'.ahead = g.ahead ∨
    g.holds = true ∧ (Flow n₀ s g.ahead → Flow n₀ s' g'.ahead)

lemma Inv.carry (hi : Inv strict n₀ s γ) (hg : γ t = g) (hc : Carry n₀ s s' g g') :
    ∃ b, Flow n₀ s' b ∧ (b = true ↔ ∃ u, (Function.update γ t g' u).ahead = true) := by
  obtain ⟨b, hb, hiff⟩ := hi.flow
  rcases hc with ⟨hpi, hacc, hdel, hahead⟩ | ⟨hh, hc⟩
  · refine ⟨b, ?_, hiff.trans (exists_congr fun u => ?_)⟩
    · unfold Flow at hb ⊢
      rwa [hpi, hacc, hdel]
    · by_cases hu : u = t
      · subst hu
        rw [Function.update_self, hahead, hg]
      · rw [Function.update_of_ne hu]
  · have hothers : ∀ u, u ≠ t → (γ u).ahead = false := by
      intro u hu
      by_contra ha
      have hahead := (hi.each u).ahead (by simpa using ha)
      exact hu (hi.excl hahead (by rw [hg]; exact hh))
    have hbg : b = g.ahead := by
      rw [Bool.eq_iff_iff, hiff, ← hg]
      refine ⟨fun h => ?_, fun h => ⟨t, h⟩⟩
      obtain ⟨u, hu⟩ := h
      by_cases hut : u = t
      · rwa [← hut]
      · rw [hothers u hut] at hu
        cases hu
    refine ⟨g'.ahead, hc (hbg ▸ hb), fun h => ⟨t, by rwa [Function.update_self]⟩, fun h => ?_⟩
    obtain ⟨u, hu⟩ := h
    by_cases hut : u = t
    · rwa [hut, Function.update_self] at hu
    · rw [Function.update_of_ne hut, hothers u hut] at hu
      cases hu

/-- **A step keeps the invariant** if it keeps to what the others rely on, and leaves its thread
with true knowledge, a right to sleep where it commits itself, and no wakeup forgotten. -/
theorem Inv.step (hi : Inv strict n₀ s γ) (hg : γ t = g) (hr : Rely t s s') (hl : Local s' t g')
    (hflow : Carry n₀ s s' g g')
    (hcom : strict → ∀ p i, t = .proc p → Committed s' p g' i →
      Committed s p g i ∨ Justified s'.1.2 i)
    (howes : strict → ∀ p i, g.holds = true → g.owes i p →
      g'.holds = true ∧ g'.owes i p ∨ ¬ Committed s' p (Function.update γ t g' (.proc p)) i)
    (hjust : strict → ∀ i, Justified s.1.2 i →
      Justified s'.1.2 i ∨ g'.holds = true ∧ ∀ p, g'.owes i p) :
    Inv strict n₀ s' (Function.update γ t g') := by
  refine ⟨fun u => ?_, hi.carry hg hflow, fun hstrict p i hp => ?_⟩
  · by_cases hu : u = t
    · rw [hu, Function.update_self]
      exact hl
    · rw [Function.update_of_ne hu]
      exact (hi.each u).stable hr hu
  have hbefore : Committed s p (γ (.proc p)) i ∨ Justified s'.1.2 i := by
    by_cases hpt : t = .proc p
    · subst hpt
      rw [Function.update_self] at hp
      rw [hg]
      exact hcom hstrict p i rfl hp
    · rw [Function.update_of_ne (Ne.symm hpt)] at hp
      exact .inl (hp.imp id fun h => ⟨h.1, hr.state hpt h.2⟩)
  rcases hbefore with hbefore | hnow
  · rcases hi.wake hstrict p i hbefore with hj | ⟨u, hu, ho⟩
    · rcases hjust hstrict i hj with hj | ⟨h1, h2⟩
      · exact .inl hj
      · exact .inr ⟨t, by rw [Function.update_self]; exact ⟨h1, h2 p⟩⟩
    · by_cases hut : u = t
      · rw [hut, hg] at hu ho
        rcases howes hstrict p i hu ho with h | h
        · exact .inr ⟨t, by rwa [Function.update_self]⟩
        · exact absurd hp h
      · exact .inr ⟨u, by rw [Function.update_of_ne hut]; exact ⟨hu, ho⟩⟩
  · exact .inl hnow

end Steps

/-! ### Specifications -/

variable {strict : Prop} {n₀ : BitVec 32}
  {S : Sys (State NPROC NCPU) (Ctx NPROC NCPU) (Bool × Bool × Byte) (PipeAct NPROC)
    (Both Res PRes) ℤ} {t : Ctx NPROC NCPU} {g : Ghost NPROC} {p q : Fin NPROC}

def proto (S : Sys (State NPROC NCPU) (Ctx NPROC NCPU) (Bool × Bool × Byte) (PipeAct NPROC)
    (Both Res PRes) ℤ) (strict : Prop) (n₀ : BitVec 32) : Proto S where
  Ghost := Ghost NPROC
  Inv := Inv strict n₀
  May _ _ := True
  Ok _ := True

abbrev Spec (S : Sys (State NPROC NCPU) (Ctx NPROC NCPU) (Bool × Bool × Byte) (PipeAct NPROC)
    (Both Res PRes) ℤ) (strict : Prop) (n₀ : BitVec 32) (t : Ctx NPROC NCPU) (a : PipeAct NPROC)
    (g : Ghost NPROC) (Q : Both Res PRes a → Ghost NPROC → Prop) : Prop :=
  (proto S strict n₀).Spec t a g Q

lemma pipes_base {a : Act NPROC Site Empty} {c : Bool × Bool × Byte} {s s' : State NPROC NCPU}
    {r : Res a} : (pipes NPROC NCPU).sem t (.inl a) c s = some (.ok s' r) ↔
      sem t a c.1 s.1.1 = some (.ok s'.1.1 r) ∧ s'.1.2 = s.1.2 ∧
        s'.2 = watch t (.inl a) r s.1 s.2 := by
  unfold pipes Sys.reenter
  rw [observe_ok, join_left, and_assoc]
  rfl

lemma pipes_dev {b : PAct} {c : Bool × Bool × Byte} {s s' : State NPROC NCPU} {r : PRes b} :
    (pipes NPROC NCPU).sem t (.inr b) c s = some (.ok s' r) ↔
      pipeStep t b c.2 s.1.2 = some (s'.1.2, r) ∧ s'.1.1 = s.1.1 ∧
        s'.2 = watch t (.inr b) r s.1 s.2 := by
  unfold pipes Sys.reenter
  rw [observe_ok, join_right, and_assoc]

/-- An action of the process table, by a thread that is not away. -/
lemma spec_base (hS : Within S strict) {a : Act NPROC Site Empty} (hg : g.away = false)
    {Q : Res a → Ghost NPROC → Prop}
    (h : ∀ (s : State NPROC NCPU) (γ : Ctx NPROC NCPU → Ghost NPROC) fail w' r,
      Inv strict n₀ s γ → γ t = g → Local s t g → step t fail a s.1.1 = some (.ok w' r) →
      (strict → lapse t (.inl a) s = false) →
      ∃ g', Inv strict n₀ ((w', s.1.2), watch t (.inl a) r s.1 s.2) (Function.update γ t g') ∧
        Q r g') : Spec S strict n₀ t (.inl a) g Q := by
  refine ⟨trivial, fun s γ c hi hγ o ho => ?_⟩
  cases o with
  | panic msg => trivial
  | ok s' r =>
    obtain ⟨⟨w', pi'⟩, h'⟩ := s'
    obtain ⟨hsem, hpi, hh⟩ := pipes_base.mp (hS.sem _ _ _ _ _ ho)
    simp only at hsem hpi hh
    subst hpi hh
    have hl : Local s t g := hγ ▸ hi.each t
    rw [sem_of_here fun p hp => (hl.here p hp).trans hg] at hsem
    exact h s γ c.1 w' r hi hγ hl hsem fun hs => hS.faithful hs _ _ _ _ _ ho

/-- As `spec_base`, where the action does not concern the history. -/
lemma spec_table (hS : Within S strict) {a : Act NPROC Site Empty} (hg : g.away = false)
    (hw : ∀ r s h, watch t (.inl a) r s h = h) {Q : Res a → Ghost NPROC → Prop}
    (h : ∀ (s : State NPROC NCPU) (γ : Ctx NPROC NCPU → Ghost NPROC) fail w' r,
      Inv strict n₀ s γ → γ t = g → Local s t g → step t fail a s.1.1 = some (.ok w' r) →
      (strict → lapse t (.inl a) s = false) →
      ∃ g', Q r g' ∧ Rely t s ((w', s.1.2), s.2) ∧ Local ((w', s.1.2), s.2) t g' ∧
        g'.ahead = g.ahead ∧
        (∀ p i, t = .proc p → Committed ((w', s.1.2), s.2) p g' i →
          Committed s p g i ∨ Justified s.1.2 i) ∧
        (∀ p i, g.holds = true → g.owes i p → g'.holds = true ∧ g'.owes i p ∨
          ¬ Committed ((w', s.1.2), s.2) p (Function.update γ t g' (.proc p)) i)) :
    Spec S strict n₀ t (.inl a) g Q := by
  refine spec_base hS hg fun s γ fail w' r hi hγ hl ho hf => ?_
  obtain ⟨g', hq, hr, hl', ha, hcom, howes⟩ := h s γ fail w' r hi hγ hl ho hf
  rw [hw]
  exact ⟨g', hi.step hγ hr hl' (.inl ⟨rfl, rfl, rfl, ha⟩) (fun _ => hcom) (fun _ => howes)
    fun _ i hj => .inl hj, hq⟩

section Table

variable {s s' : State NPROC NCPU} {w' : World NPROC NCPU Site Empty} {fail : Bool}
  {a : Act NPROC Site Empty} {r : Res a} {h' : History NPROC}

lemma rely_of_step (h : step t fail a s.1.1 = some (.ok w' r)) (hs : ∀ q f, a ≠ .set q f)
    (hb : a ≠ .swtchBack) (hc : ∀ p, t ≠ .proc p → h'.call p = s.2.call p) :
    Rely t s ((w', s.1.2), h') := by
  obtain ⟨hproc, haway⟩ := step_frame h hs hb
  refine ⟨fun u l hu hl => lock_step h hl (.inl hu),
    fun p _ => congrFun haway p, hc, .inl rfl, fun q => .inl (congrFun hproc q)⟩

lemma Local.mono (hl : Local s t g) (hproc : s'.1.1.proc = s.1.1.proc)
    (haway : s'.1.1.away = s.1.1.away) (hpi : s'.1.2 = s.1.2)
    (hcall : ∀ p, t = .proc p → s'.2.call p = s.2.call p)
    (hlock : ∀ l, s.1.1.lock l = some t → s'.1.1.lock l = some t) : Local s' t g := by
  refine ⟨fun p hp => ?_, fun h => hlock _ (hl.holds h), fun q hq => hlock _ (hl.locked q hq),
    fun d hd => ?_, hl.ahead, fun p hp => ?_, fun st ch hst => ?_, fun p i b hp hn => ?_,
    fun p i hp hn => ?_, fun p hp hs => ?_⟩
  · rw [haway]; exact hl.here p hp
  · rw [hpi]; exact hl.know d hd
  · rw [hcall p hp]; exact hl.call p hp
  · rw [hproc]; exact hl.seen st ch hst
  · rw [hproc]; exact hl.falling p i b hp hn
  · rw [hproc]; exact hl.asleep p i hp hn
  · rw [hproc] at hs; exact hl.sleeping p hp hs

/-- The thread keeps its locks, unless it releases one or is switched away from. -/
lemma Local.keep (hl : Local s t g) (h : step t fail a s.1.1 = some (.ok w' r))
    (hs : ∀ q f, a ≠ .set q f) (hb : a ≠ .swtchBack) (hrel : ∀ l, a ≠ .release l) :
    Local ((w', s.1.2), s.2) t g := by
  obtain ⟨hproc, haway⟩ := step_frame h hs hb
  exact hl.mono hproc haway rfl (fun _ _ => rfl) fun l hlock =>
    lock_step h hlock (.inr ⟨hrel l, fun _ _ => hb⟩)

lemma committed_congr {i : Site} (hproc : w'.proc = s.1.1.proc) {k : Ghost NPROC} :
    Committed ((w', s.1.2), s.2) p k i ↔ Committed s p k i := by
  simp only [Committed, hproc]

lemma not_committed {i : Site} (hn : g.nap = .awake) : ¬ Committed s p g i := by
  rintro (⟨b, hb⟩ | ⟨hb, -⟩)
  · rw [hn] at hb
    cases hb
  · rw [hn] at hb
    cases hb

end Table

/-- Actions that change nothing that matters here. -/
lemma spec_still (hS : Within S strict) {a : Act NPROC Site Empty} (hg : g.away = false)
    (ha : (∃ q, a = .checkSched q) ∨ (∃ b, a = .setIntena b) ∨ ∃ q, a = .get q) :
    Spec S strict n₀ t (.inl a) g fun _ g' => g' = g := by
  have hw : ∀ r s h, watch t (.inl a) r s h = h := by
    intro r s h
    rcases ha with ⟨q, rfl⟩ | ⟨b, rfl⟩ | ⟨q, rfl⟩ <;> cases t <;> rfl
  have hs : ∀ q f, a ≠ .set q f := by
    rcases ha with ⟨q, rfl⟩ | ⟨b, rfl⟩ | ⟨q, rfl⟩ <;> simp
  have hb : a ≠ .swtchBack := by
    rcases ha with ⟨q, rfl⟩ | ⟨b, rfl⟩ | ⟨q, rfl⟩ <;> simp
  have hrel : ∀ l, a ≠ .release l := by
    rcases ha with ⟨q, rfl⟩ | ⟨b, rfl⟩ | ⟨q, rfl⟩ <;> simp
  refine spec_table hS hg hw fun s γ fail w' r hi hγ hl ho hf => ?_
  refine ⟨g, rfl, rely_of_step ho hs hb fun _ _ => rfl, hl.keep ho hs hb hrel, rfl, ?_,
    fun p i h1 h2 => .inl ⟨h1, h2⟩⟩
  intro p i hp hc
  exact .inl ((committed_congr (step_frame ho hs hb).1).mp hc)

lemma spec_self (hS : Within S strict) (hg : g.away = false) :
    Spec S strict n₀ (.proc p) (.inl .myproc) g fun r g' => r = some p ∧ g' = g := by
  refine spec_table hS hg (fun _ _ _ => rfl) fun s γ fail w' r hi hγ hl ho hf => ?_
  have hr : Rely _ s ((w', s.1.2), s.2) :=
    rely_of_step ho (by simp) (by simp) fun _ _ => rfl
  cases ho
  exact ⟨g, ⟨rfl, rfl⟩, hr, { hl with }, rfl, fun q i _ hc => .inl hc, fun q i h1 h2 => .inl ⟨h1, h2⟩⟩

/-- The ghost value of a thread that owes less. -/
def Ghost.owing (g : Ghost NPROC) (o : Site → Fin NPROC → Prop) : Ghost NPROC :=
  { g with owes := o }

/-- `myproc()`; a process that is awake owes itself nothing. -/
lemma spec_myproc (hS : Within S strict) (hg : g.away = false) (hn : g.nap = .awake) :
    Spec S strict n₀ (.proc p) (.inl .myproc) g fun r g' =>
      r = some p ∧ g' = g.owing fun i q => g.owes i q ∧ q ≠ p := by
  refine spec_table hS hg (fun _ _ _ => rfl) fun s γ fail w' r hi hγ hl ho hf => ?_
  have hr : Rely _ s ((w', s.1.2), s.2) :=
    rely_of_step ho (by simp) (by simp) fun _ _ => rfl
  cases ho
  refine ⟨_, ⟨rfl, rfl⟩, hr, { hl with }, rfl, fun q i _ hc => .inl hc, fun q i h1 h2 => ?_⟩
  by_cases hq : q = p
  · subst hq
    right
    rw [Function.update_self]
    exact not_committed hn
  · exact .inl ⟨h1, h2, hq⟩

lemma spec_acquire_proc (hS : Within S strict) (hg : g.away = false) (hl : g.locked = none) :
    Spec S strict n₀ t (.inl (.acquire (.proc q))) g fun _ g' => g' = { g with locked := some q } := by
  refine spec_table hS hg (fun _ _ _ => by cases t <;> rfl) fun s γ fail w' r hi hγ hloc ho hf => ?_
  have hkeep := hloc.keep ho (by simp) (by simp) (by simp)
  have hlock : w'.lock (.proc q) = some t := by
    rw [(acquire_ok ho).2]
    simp [setLock]
  refine ⟨_, rfl, rely_of_step ho (by simp) (by simp) fun _ _ => rfl, { hkeep with
    locked := fun q' hq' => by cases hq'; exact hlock
    seen := fun st ch hst => ?_
    falling := fun p i b hp hn => ?_ }, rfl, fun p i _ hc => ?_, fun p i h1 h2 => .inl ⟨h1, h2⟩⟩
  · obtain ⟨q', hq', -⟩ := hkeep.seen st ch hst
    rw [hl] at hq'
    cases hq'
  · have := (hkeep.falling p i b hp hn).1
    rw [hl] at this
    cases this
  · exact .inl ((committed_congr (step_frame ho (by simp) (by simp)).1).mp hc)

/-- Releasing the lock of a process that is not asleep on channel `i` settles what was owed to
it on that channel. -/
lemma spec_release_visit (hS : Within S strict) (hg : g.away = false) (hl : g.locked = some q)
    (hn : g.nap = .awake) {i : Site} {st : PState} {ch : Option (Chan NPROC Site Empty)}
    (hs : g.seen = some (st, ch)) (hst : ¬(st = .sleeping ∧ ch = some (.cond i)))
    (hq : t ≠ .proc q) :
    Spec S strict n₀ t (.inl (.release (.proc q))) g fun _ g' =>
      g' = { g with
        locked := none, seen := none, owes := fun j p => g.owes j p ∧ ¬(j = i ∧ p = q) } := by
  refine spec_table hS hg (fun _ _ _ => by cases t <;> rfl) fun s γ fail w' r hi hγ hloc ho hf => ?_
  have hproc := step_frame ho (by simp) (by simp)
  have hlock : ∀ l, l ≠ .proc q → w'.lock l = s.1.1.lock l := by
    intro l hne
    rw [(release_ok ho).2]
    simp [setLock, hne]
  refine ⟨_, rfl, rely_of_step ho (by simp) (by simp) fun _ _ => rfl, ⟨?_, ?_, ?_, hloc.know,
    hloc.ahead, hloc.call, ?_, ?_, ?_, ?_⟩, rfl, fun p j _ hc => ?_, fun p j h1 h2 => ?_⟩
  · intro p hp
    rw [hproc.2]
    exact hloc.here p hp
  · intro hh
    rw [hlock _ (by simp)]
    exact hloc.holds hh
  · intro q' hq'
    cases hq'
  · intro st ch h
    cases h
  · intro p j b hp hb
    rw [hn] at hb
    cases hb
  · intro p j hp hb
    rw [hn] at hb
    cases hb
  · intro p hp hsl
    rw [hproc.1] at hsl
    exact hloc.sleeping p hp hsl
  · exact .inl ((committed_congr hproc.1).mp hc)
  · by_cases hjp : j = i ∧ p = q
    · obtain ⟨rfl, rfl⟩ := hjp
      right
      rw [Function.update_of_ne (Ne.symm hq)]
      obtain ⟨q', hq', h1, h2⟩ := hloc.seen st ch hs
      rw [hl] at hq'
      cases hq'
      rintro (⟨b, hb⟩ | ⟨hb, hsl⟩)
      · have h3 := (hi.each (.proc p)).locked p ((hi.each (.proc p)).falling p j b rfl hb).1
        rw [hloc.locked p hl] at h3
        exact hq (Option.some.inj h3)
      · have h3 := (hi.each (.proc p)).asleep p j rfl hb
        rw [show ((w', s.1.2), s.2).1.1 = w' from rfl, hproc.1] at hsl
        exact hst ⟨h1.symm.trans hsl, h2.symm.trans h3⟩
    · exact .inl ⟨h1, h2, hjp⟩

lemma spec_release_proc (hS : Within S strict) (hg : g.away = false) (hn : g.nap = .awake) :
    Spec S strict n₀ t (.inl (.release (.proc q))) g fun _ g' =>
      g' = { g with locked := none, seen := none } := by
  refine spec_table hS hg (fun _ _ _ => by cases t <;> rfl) fun s γ fail w' r hi hγ hloc ho hf => ?_
  have hproc := step_frame ho (by simp) (by simp)
  have hlock : ∀ l, l ≠ .proc q → w'.lock l = s.1.1.lock l := by
    intro l hne
    rw [(release_ok ho).2]
    simp [setLock, hne]
  refine ⟨_, rfl, rely_of_step ho (by simp) (by simp) fun _ _ => rfl, ⟨?_, ?_, ?_, hloc.know,
    hloc.ahead, hloc.call, ?_, ?_, ?_, ?_⟩, rfl, fun p j _ hc => ?_, fun p j h1 h2 => .inl ⟨h1, h2⟩⟩
  · intro p hp
    rw [hproc.2]
    exact hloc.here p hp
  · intro hh
    rw [hlock _ (by simp)]
    exact hloc.holds hh
  · intro q' hq'
    cases hq'
  · intro st ch h
    cases h
  · intro p j b hp hb
    rw [hn] at hb
    cases hb
  · intro p j hp hb
    rw [hn] at hb
    cases hb
  · intro p hp hsl
    rw [hproc.1] at hsl
    exact hloc.sleeping p hp hsl
  · exact .inl ((committed_congr hproc.1).mp hc)

/-- Reading a process under its lock. -/
lemma spec_see (hS : Within S strict) (hg : g.away = false) (hl : g.locked = some q) :
    Spec S strict n₀ t (.inl (.get q)) g fun r g' => g' = { g with seen := some (r.state, r.chan) } := by
  refine spec_table hS hg (fun _ _ _ => by cases t <;> rfl) fun s γ fail w' r hi hγ hloc ho hf => ?_
  have hr : Rely _ s ((w', s.1.2), s.2) :=
    rely_of_step ho (by simp) (by simp) fun _ _ => rfl
  cases ho
  refine ⟨_, rfl, hr,
    { hloc with seen := fun st ch h => ?_ }, rfl, fun p i _ hc => .inl hc, fun p i h1 h2 => .inl ⟨h1, h2⟩⟩
  cases h
  exact ⟨q, hl, rfl, rfl⟩

/-- The test of `killed`: a strict system has no writer that lapses. -/
lemma spec_test (hS : Within S strict) (hg : g.away = false) :
    Spec S strict n₀ (.proc p) (.inl (.get p)) g fun r g' =>
      g' = g ∧ (strict → r.killed = true → g.call.unsaid = 0) := by
  refine spec_table hS hg (fun _ _ _ => rfl) fun s γ fail w' r hi hγ hloc ho hf => ?_
  have hr : Rely _ s ((w', s.1.2), s.2) :=
    rely_of_step ho (by simp) (by simp) fun _ _ => rfl
  cases ho
  refine ⟨g, ⟨rfl, fun hs hk => ?_⟩, hr, { hloc with }, rfl, fun p i _ hc => .inl hc,
    fun p i h1 h2 => .inl ⟨h1, h2⟩⟩
  have hlapse := hf hs
  simpa [lapse, hk, hloc.call p rfl] using hlapse

section Set

variable {s : State NPROC NCPU} {f : Field NPROC Site Empty}

lemma rely_set (hloc : Local s t g) (hl : g.locked = some q)
    (hf : t ≠ .proc q → (f.write (s.1.1.proc q)).chan = (s.1.1.proc q).chan ∧
      ((f.write (s.1.1.proc q)).state = .sleeping → (s.1.1.proc q).state = .sleeping)) :
    Rely t s ((setProc q (f.write (s.1.1.proc q)) s.1.1, s.1.2), s.2) := by
  refine ⟨fun _ _ _ h => h, fun _ _ => rfl, fun _ _ => rfl, .inl rfl, fun q' => ?_⟩
  by_cases hq : q' = q
  · subst hq
    refine .inr ⟨fun u hu hlock => ?_, fun ht => by simpa [setProc] using hf ht⟩
    rw [hloc.locked q' hl] at hlock
    exact hu (Option.some.inj hlock).symm
  · exact .inl (by simp [setProc, hq])

end Set

/-- A visitor sets `killed`, or makes the process `RUNNABLE`. -/
lemma spec_set (hS : Within S strict) (hg : g.away = false) (hl : g.locked = some q)
    (hn : g.nap = .awake) {f : Field NPROC Site Empty} {st : PState}
    {ch : Option (Chan NPROC Site Empty)} (hs : g.seen = some (st, ch)) {st' : PState}
    (hf : f = .killed true ∧ st' = st ∨ f = .state .runnable ∧ st' = .runnable) :
    Spec S strict n₀ t (.inl (.set q f)) g fun _ g' => g' = { g with seen := some (st', ch) } := by
  refine spec_table hS hg (fun _ _ _ => by cases t <;> rfl) fun s γ fail w' r hi hγ hloc ho hf' => ?_
  cases ho
  have hwrite : ∀ v : Proc NPROC Site Empty, (f.write v).chan = v.chan ∧
      ((f.write v).state = .sleeping → v.state = .sleeping) := by
    intro v
    rcases hf with ⟨rfl, -⟩ | ⟨rfl, -⟩
    · exact ⟨rfl, id⟩
    · exact ⟨rfl, fun h => by cases h⟩
  refine ⟨_, rfl, rely_set hloc hl fun _ => hwrite _, { hloc with
    seen := fun st₁ ch₁ h => ?_
    falling := fun p j b _ hb => absurd (hn.symm.trans hb) (by simp)
    asleep := fun p j _ hb => absurd (hn.symm.trans hb) (by simp)
    sleeping := fun p hp hsl => ?_ }, rfl,
    fun p j _ hc => absurd hc (not_committed hn), fun p j h1 h2 => .inl ⟨h1, h2⟩⟩
  · cases h
    obtain ⟨q', hq', h1, h2⟩ := hloc.seen st ch hs
    rw [hl] at hq'
    cases hq'
    refine ⟨q, hl, ?_, ?_⟩
    · rcases hf with ⟨rfl, rfl⟩ | ⟨rfl, rfl⟩
      · simpa [setProc, Field.write] using h1
      · simp [setProc, Field.write]
    · simpa [setProc] using (hwrite _).1.trans h2
  · by_cases hpq : p = q
    · subst hpq
      exact hloc.sleeping p hp ((hwrite _).2 (by simpa [setProc] using hsl))
    · exact hloc.sleeping p hp (by simpa [setProc, hpq] using hsl)

/-- What a process does to its own record in `sleep`. -/
inductive Falls (p : Fin NPROC) : Nap → Field NPROC Site Empty → Nap → Prop
  | name (i : Site) : Falls p (.falling i false) (.chan (some (.cond i))) (.falling i true)
  | sleep (i : Site) : Falls p (.falling i true) (.state .sleeping) (.asleep i)
  | tidy : Falls p .awake (.chan none) .awake

lemma spec_fall (hS : Within S strict) (hg : g.away = false) (hl : g.locked = some p)
    (hs : g.seen = none) {f : Field NPROC Site Empty} {n' : Nap} (hf : Falls p g.nap f n') :
    Spec S strict n₀ (.proc p) (.inl (.set p f)) g fun _ g' => g' = { g with nap := n' } := by
  obtain ⟨holds, locked, away, pipe, ahead, call, seen, nap, owes⟩ := g
  simp only at hl hs hf hg
  subst hs
  refine spec_table hS hg (fun _ _ _ => rfl) fun s γ fail w' r hi hγ hloc ho hf' => ?_
  cases ho
  refine ⟨_, rfl, rely_set hloc hl fun h => absurd rfl h, { hloc with
    seen := fun st₁ ch₁ h => by cases h
    falling := fun p' j b hp hb => ?_
    asleep := fun p' j hp hb => ?_
    sleeping := fun p' hp hsl => ?_ }, rfl, fun p' j hp hc => ?_, fun p j h1 h2 => .inl ⟨h1, h2⟩⟩
  · cases hp
    cases hf with
    | name i => cases hb; exact ⟨hl, fun _ => by simp [setProc, Field.write]⟩
    | sleep i => cases hb
    | tidy => cases hb
  · cases hp
    cases hf with
    | sleep i =>
      cases hb
      have := (hloc.falling p j true rfl rfl).2 rfl
      simpa [setProc, Field.write] using this
    | name i => cases hb
    | tidy => cases hb
  · cases hp
    cases hf with
    | sleep i => exact ⟨i, rfl⟩
    | name i =>
      obtain ⟨j, hj⟩ := hloc.sleeping p rfl (by simpa [setProc, Field.write] using hsl)
      cases hj
    | tidy =>
      obtain ⟨j, hj⟩ := hloc.sleeping p rfl (by simpa [setProc, Field.write] using hsl)
      cases hj
  · cases hp
    left
    cases hf with
    | name i =>
      rcases hc with ⟨b, hb⟩ | ⟨hb, -⟩
      · cases hb; exact .inl ⟨false, rfl⟩
      · cases hb
    | sleep i =>
      rcases hc with ⟨b, hb⟩ | ⟨hb, -⟩
      · cases hb
      · cases hb; exact .inl ⟨true, rfl⟩
    | tidy => exact absurd hc (not_committed rfl)

/-- The process goes away, asleep. -/
lemma spec_leave (hS : Within S strict) (hg : g.away = false) (hl : g.locked = some p)
    (hs : g.seen = none) {i : Site} (hn : g.nap = .asleep i) :
    Spec S strict n₀ (.proc p) (.inl .swtchBack) g fun _ g' =>
      g' = { g with locked := none, away := true } := by
  refine spec_table hS hg (fun _ _ _ => rfl) fun s γ fail w' r hi hγ hloc ho hf => ?_
  obtain ⟨-, rfl⟩ := leave_ok ho
  have hlock : ∀ l, l ≠ .proc p → (leave p s.1.1).lock l = s.1.1.lock l := fun l hne => by
    simp [leave, setLock, hne]
  have haway : ∀ q, q ≠ p → (leave p s.1.1).away q = s.1.1.away q := fun q hne => by
    simp [leave, setLock, hne]
  refine ⟨_, rfl, ⟨fun u l hu hl' => ?_, fun q hq => haway q fun h => hq (by rw [h]),
    fun _ _ => rfl, .inl rfl, fun q => .inl rfl⟩, { hloc with
    here := fun q hq => by cases hq; simp [leave, setLock]
    holds := fun h => by
      rw [hlock _ (by simp)]
      exact hloc.holds h
    locked := fun q hq => by cases hq
    seen := fun st ch h => by rw [hs] at h; cases h
    falling := fun q j b _ hb => absurd (hn.symm.trans hb) (by simp) }, rfl,
    fun q j _ hc => .inl hc, fun q j h1 h2 => .inl ⟨h1, h2⟩⟩
  rw [hlock]
  · exact hl'
  · rintro rfl
    rw [hloc.locked p hl] at hl'
    exact hu (Option.some.inj hl').symm

/-- The process is back, awake and with its lock. -/
lemma spec_back (hS : Within S strict) (hg : g.away = true) (hs : g.seen = none) {b : Bool} :
    Spec S strict n₀ (.proc p) (.inl (.setIntena b)) g fun _ g' =>
      g' = { g with locked := some p, away := false, nap := .awake } := by
  refine ⟨trivial, fun s γ c hi hγ o ho => ?_⟩
  cases o with
  | panic msg => trivial
  | ok s' r =>
    obtain ⟨⟨w', pi'⟩, h'⟩ := s'
    obtain ⟨hsem, hpi, hh⟩ := pipes_base.mp (hS.sem _ _ _ _ _ ho)
    simp only at hsem hpi hh
    subst hpi hh
    have hloc : Local s (.proc p) g := hγ ▸ hi.each _
    obtain ⟨w₁, hback, hstep⟩ := sem_cases hsem
    cases hstep
    rcases back_cases hback with ⟨-, hhere⟩ | ⟨q, hq, -, -, hfree, -, rfl⟩
    · have := hhere p rfl
      rw [hloc.here p rfl, hg] at this
      cases this
    · cases hq
      have hlock : ∀ l, l ≠ .proc p → (resume p s.1.1).lock l = s.1.1.lock l := fun l hne => by
        simp [resume, setLock, setProc, hne]
      have hproc : ∀ q, q ≠ p → (resume p s.1.1).proc q = s.1.1.proc q := fun q hne => by
        simp [resume, setLock, setProc, hne]
      refine ⟨({ g with locked := some p, away := false, nap := .awake } : Ghost NPROC),
        hi.step hγ ⟨fun u l hu hl' => ?_, fun q hq => ?_, fun _ _ => rfl, .inl rfl,
          fun q => ?_⟩ { hloc with
          here := fun q hq => by cases hq; simp [resume, setLock, setProc]
          holds := fun h => ?_
          locked := fun q hq => by cases hq; simp [resume, setLock]
          seen := fun st ch h => absurd (hs.symm.trans h) (by simp)
          falling := fun q j b _ hb => by cases hb
          asleep := fun q j _ hb => by cases hb
          sleeping := fun q hq hsl => ?_ } (.inl ⟨rfl, rfl, rfl, rfl⟩)
        (fun _ q j _ hc => absurd hc (not_committed rfl))
        (fun _ q j h1 h2 => .inl ⟨h1, h2⟩) (fun _ j hj => .inl hj), rfl⟩
      · change (resume p s.1.1).lock l = some u
        rw [hlock l ?_]
        · exact hl'
        · rintro rfl
          rw [hfree] at hl'
          cases hl'
      · have hne : q ≠ p := fun h => hq (by rw [h])
        simp [resume, setLock, setProc, hne]
      · by_cases hq : q = p
        · subst hq
          refine .inr ⟨fun u _ hl' => ?_, fun h => absurd rfl h⟩
          rw [hfree] at hl'
          cases hl'
        · exact .inl (hproc q hq)
      · change (resume p s.1.1).lock pipeLock = _
        rw [hlock _ (by simp)]
        exact hloc.holds h
      · cases hq
        simp [resume, setLock, setProc] at hsl

/-! ### The lock of the pipe -/

lemma watch_acquire {r : Unit} {s : World NPROC NCPU Site Empty × Pipe} {h : History NPROC} :
    watch (.proc p) (.inl (.acquire pipeLock)) r s h =
      h.setCall p { h.call p with unsaid := 0 } := rfl

lemma spec_acquire (hS : Within S strict) (hg : g.away = false) :
    Spec S strict n₀ (.proc p) (.inl (.acquire pipeLock)) g fun _ g' =>
      g' = { g with holds := true, pipe := none, call := { g.call with unsaid := 0 } } := by
  refine spec_base hS hg fun s γ fail w' r hi hγ hloc ho hf => ?_
  obtain ⟨hfree, rfl⟩ := acquire_ok ho
  have hproc := step_frame ho (by simp) (by simp)
  have hcall : ∀ q, q ≠ p →
      (watch (.proc p) (.inl (.acquire pipeLock)) r s.1 s.2).call q = s.2.call q := fun q hne => by
    simp [watch, History.setCall, hne]
  have hlock : ∀ l, l ≠ pipeLock →
      (setLock pipeLock (some (.proc p)) s.1.1).lock l = s.1.1.lock l := fun l hne => by
    simp [setLock, hne]
  refine ⟨({ g with
      holds := true, pipe := none, call := { g.call with unsaid := 0 } } : Ghost NPROC),
    hi.step hγ (rely_of_step ho (by simp) (by simp) fun q hq => hcall q fun h => hq (by rw [h]))
      { hloc with
        holds := fun _ => by simp [setLock]
        locked := fun q hq => by
          rw [hlock _ (by simp)]
          exact hloc.locked q hq
        know := fun d hd => by cases hd
        ahead := fun _ => rfl
        call := fun q hq => by
          cases hq
          rw [← hloc.call p rfl]
          simp [watch, History.setCall] }
      (.inl ⟨rfl, rfl, rfl, rfl⟩) (fun _ q i _ hc => .inl hc)
      (fun _ q i _ h => .inl ⟨rfl, h⟩) (fun _ i hj => .inl hj), rfl⟩

/-- Releasing the lock, when no wakeup is owed. A process that is about to sleep may release it
while it has the right to. -/
lemma spec_release (hS : Within S strict) (hg : g.away = false) (ha : g.ahead = false)
    (ho : strict → ∀ i q, ¬ g.owes i q) {m : Nap}
    (hn : m = .awake ∧ g.nap = .awake ∨ ∃ i d, m = .falling i false ∧ g.locked = some p ∧
      g.nap = .awake ∧ g.pipe = some d ∧ Justified d i) :
    Spec S strict n₀ (.proc p) (.inl (.release pipeLock)) g fun _ g' =>
      ∃ d, (∀ d', g.pipe = some d' → d' = d) ∧ g' = { g with
        holds := false, pipe := none, nap := m, call := { g.call with atRelease := some d } } := by
  have hawake : g.nap = .awake := by
    rcases hn with ⟨-, h⟩ | ⟨i, d, -, -, h, -⟩
    · exact h
    · exact h
  refine spec_base hS hg fun s γ fail w' r hi hγ hloc hstep hf => ?_
  obtain ⟨-, rfl⟩ := release_ok hstep
  have hcall : ∀ q, q ≠ p →
      (watch (.proc p) (.inl (.release pipeLock)) r s.1 s.2).call q = s.2.call q := fun q hne => by
    simp [watch, History.setCall, hne]
  have hlock : ∀ l, l ≠ pipeLock → (setLock pipeLock none s.1.1).lock l = s.1.1.lock l :=
    fun l hne => by simp [setLock, hne]
  refine ⟨({ g with
      holds := false, pipe := none, nap := m
      call := { g.call with atRelease := some s.1.2 } } : Ghost NPROC),
    hi.step hγ (rely_of_step hstep (by simp) (by simp) fun q hq => hcall q fun h => hq (by rw [h]))
      { hloc with
        holds := fun h => by cases h
        locked := fun q hq => by
          rw [hlock _ (by simp)]
          exact hloc.locked q hq
        know := fun d hd => by cases hd
        ahead := fun h => absurd (ha.symm.trans h) (by simp)
        call := fun q hq => by
          cases hq
          rw [← hloc.call p rfl]
          simp [watch, History.setCall]
        falling := fun q i b hq hb => ?_
        asleep := fun q i hq hb => ?_
        sleeping := fun q hq hsl => ?_ }
      (.inl ⟨rfl, rfl, rfl, rfl⟩) (fun _ q i hq hc => ?_)
      (fun hst q i _ h => absurd h (ho hst i q)) (fun _ i hj => .inl hj),
    s.1.2, fun d hd => (hloc.know d hd).2.symm, rfl⟩
  · cases hq
    rcases hn with ⟨rfl, -⟩ | ⟨j, d, rfl, hlk, -, -, -⟩
    · cases hb
    · cases hb
      exact ⟨hlk, fun h => by cases h⟩
  · rcases hn with ⟨rfl, -⟩ | ⟨j, d, rfl, hlk, -, -, -⟩
    · cases hb
    · cases hb
  · obtain ⟨i, hi'⟩ := hloc.sleeping q hq hsl
    rw [hawake] at hi'
    cases hi'
  · rcases hn with ⟨rfl, -⟩ | ⟨j, d, rfl, -, -, hd, hj⟩
    · exact absurd hc (not_committed rfl)
    · rcases hc with ⟨b, hb⟩ | ⟨hb, -⟩
      · cases hb
        right
        rw [← (hloc.know d hd).2] at hj
        exact hj
      · cases hb

/-! ### The pipe -/

lemma spec_dev (hS : Within S strict) {b : PAct} {Q : PRes b → Ghost NPROC → Prop}
    (h : ∀ (s : State NPROC NCPU) (γ : Ctx NPROC NCPU → Ghost NPROC) ch pi' r,
      Inv strict n₀ s γ → γ t = g → Local s t g → pipeStep t b ch s.1.2 = some (pi', r) →
      ∃ g', Inv strict n₀ ((s.1.1, pi'), watch t (.inr b) r s.1 s.2) (Function.update γ t g') ∧
        Q r g') : Spec S strict n₀ t (.inr b) g Q := by
  refine ⟨trivial, fun s γ c hi hγ o ho => ?_⟩
  cases o with
  | panic msg => trivial
  | ok s' r =>
    obtain ⟨⟨w', pi'⟩, h'⟩ := s'
    obtain ⟨hsem, hw, hh⟩ := pipes_dev.mp (hS.sem _ _ _ _ _ ho)
    simp only at hsem hw hh
    subst hw hh
    exact h s γ c.2 pi' r hi hγ (hγ ▸ hi.each t) hsem

/-- Only the holder of the lock changes the pipe. -/
lemma rely_dev {s : State NPROC NCPU} {pi' : Pipe} {h' : History NPROC} (hloc : Local s t g)
    (hh : g.holds = true) (hc : ∀ p, t ≠ .proc p → h'.call p = s.2.call p) :
    Rely t s ((s.1.1, pi'), h') :=
  ⟨fun _ _ _ h => h, fun _ _ => rfl, hc, .inr (hloc.holds hh), fun _ => .inl rfl⟩

/-- Reading the pipe. -/
lemma spec_read (hS : Within S strict) (hh : g.holds = true) :
    Spec S strict n₀ (.proc p) (.inr .read) g fun (r : Pipe) g' =>
      (∀ d, g.pipe = some d → d = r) ∧ g' = { g with pipe := some r } := by
  refine spec_dev hS fun s γ ch pi' r hi hγ hloc ho => ?_
  cases ho
  refine ⟨({ g with pipe := some s.1.2 } : Ghost NPROC), hi.step hγ
    (rely_dev hloc hh fun _ _ => rfl) { hloc with know := fun d hd => ?_ }
    (.inl ⟨rfl, rfl, rfl, rfl⟩) (fun _ q i _ hc => .inl hc) (fun _ q i h1 h2 => .inl ⟨h1, h2⟩)
    fun _ i hj => .inl hj, fun d hd => (hloc.know d hd).2.symm, rfl⟩
  cases hd
  exact ⟨hh, rfl⟩

lemma spec_copyin (hS : Within S strict) (hh : g.holds = true) :
    Spec S strict n₀ (.proc p) (.inr .copyin) g fun _ g' => g' = g := by
  refine spec_dev hS fun s γ ch pi' r hi hγ hloc ho => ?_
  cases ho
  exact ⟨g, hi.step hγ (rely_dev hloc hh fun _ _ => rfl) { hloc with }
    (.inl ⟨rfl, rfl, rfl, rfl⟩) (fun _ q i _ hc => .inl hc) (fun _ q i h1 h2 => .inl ⟨h1, h2⟩)
    fun _ i hj => .inl hj, rfl⟩

lemma size_dvd : PIPESIZE ∣ 2 ^ 32 := by decide

lemma size_lt : PIPESIZE < 2 ^ 32 := by decide

/-- **Putting a byte in**, where there is room; the sleeping readers are owed a wakeup. -/
lemma spec_put (hS : Within S strict) (hh : g.holds = true) (ha : g.ahead = false) {d : Pipe}
    (hd : g.pipe = some d) (hroom : d.nwrite ≠ d.nread + BitVec.ofNat 32 PIPESIZE) {ch : Byte} :
    Spec S strict n₀ (.proc p) (.inr (.put ch)) g fun _ g' => g' = { g with
      pipe := some (d.put ch), owes := fun i q => i = .nread ∨ g.owes i q
      call := { g.call with moved := g.call.moved + 1, unsaid := g.call.unsaid + 1 } } := by
  refine spec_dev hS fun s γ ch' pi' r hi hγ hloc ho => ?_
  cases ho
  obtain ⟨-, rfl⟩ := hloc.know d hd
  refine ⟨({ g with
      pipe := some (s.1.2.put ch), owes := fun i q => i = .nread ∨ g.owes i q
      call := { g.call with
        moved := g.call.moved + 1, unsaid := g.call.unsaid + 1 } } : Ghost NPROC),
    hi.step hγ (rely_dev hloc hh fun q hq => ?_)
      { hloc with
        know := fun d hd => by cases hd; exact ⟨hh, rfl⟩
        call := fun q hq => by
          cases hq
          rw [← hloc.call p rfl]
          simp [watch, History.setCall] }
      (.inr ⟨hh, fun hf => ?_⟩) (fun _ q i _ hc => .inl hc)
      (fun _ q i h1 h2 => .inl ⟨h1, .inr h2⟩) (fun _ i hj => ?_), rfl⟩
  · have hne : q ≠ p := fun h => hq (by rw [h])
    simp [watch, History.setCall, hne]
  · rw [ha] at hf
    change Flow n₀ _ g.ahead
    rw [ha]
    obtain ⟨k, hc, hk, hdel⟩ := hf
    replace hk : k + 0 ≤ s.2.accepted.length := hk
    refine ⟨k, hc.push size_dvd size_lt hroom ch, ?_, ?_⟩
    · change k + 0 ≤ (s.2.accepted ++ [ch]).length
      rw [List.length_append]
      omega
    · change s.2.delivered = (s.2.accepted ++ [ch]).take (k + 0)
      rw [List.take_append_of_le_length hk]
      exact hdel
  · cases i with
    | nread => exact .inr ⟨hh, fun q => .inl rfl⟩
    | nwrite => exact absurd hj.1 hroom
    | _ => exact absurd hj id

/-- A reader copies out the byte at the front, if the pipe is not empty. -/
lemma spec_copyout (hS : Within S strict) (hh : g.holds = true) (ha : g.ahead = false) {d : Pipe}
    (hd : g.pipe = some d) (hne : d.nread ≠ d.nwrite) :
    Spec S strict n₀ (.proc p) (.inr (.copyout (d.data (index d.nread)))) g
      fun (fail : Bool) g' => g' = if fail then g else
        { g with ahead := true, call := { g.call with moved := g.call.moved + 1 } } := by
  refine spec_dev hS fun s γ ch' pi' r hi hγ hloc ho => ?_
  obtain ⟨fail, byte⟩ := ch'
  cases ho
  change Bool at r
  cases r with
  | true =>
    exact ⟨g, hi.step hγ (rely_dev hloc hh fun _ _ => rfl) { hloc with }
      (.inl ⟨rfl, rfl, rfl, rfl⟩) (fun _ q i _ hc => .inl hc)
      (fun _ q i h1 h2 => .inl ⟨h1, h2⟩) fun _ i hj => .inl hj, rfl⟩
  | false =>
    obtain ⟨-, rfl⟩ := hloc.know d hd
    refine ⟨({ g with ahead := true, call := { g.call with moved := g.call.moved + 1 } } :
        Ghost NPROC), hi.step hγ (rely_dev hloc hh fun q hq => ?_)
      { hloc with
        ahead := fun _ => hh
        call := fun q hq => by
          cases hq
          rw [← hloc.call p rfl]
          simp [watch, History.setCall] }
      (.inr ⟨hh, fun hf => ?_⟩) (fun _ q i _ hc => .inl hc)
      (fun _ q i h1 h2 => .inl ⟨h1, h2⟩) (fun _ i hj => .inl hj), rfl⟩
    · have hne : q ≠ p := fun h => hq (by rw [h])
      simp [watch, History.setCall, hne]
    · rw [ha] at hf
      obtain ⟨k, hc, hk, hdel⟩ := hf
      have hk' : s.2.accepted.length ≠ k := fun h => hne ((hc.empty_iff size_lt).mpr h)
      obtain ⟨hfront, -⟩ := hc.pop hk'
      have htaken := hc.taken
      refine ⟨k, hc, ?_, ?_⟩
      · change k + 1 ≤ s.2.accepted.length
        omega
      · change s.2.delivered ++ [s.1.2.data (index s.1.2.nread)] = s.2.accepted.take (k + 1)
        rw [hdel, List.take_add_one, hfront]
        rfl

/-- **Taking the byte out** that was copied; the sleeping writers are owed a wakeup. -/
lemma spec_advance (hS : Within S strict) (hh : g.holds = true) (ha : g.ahead = true) {d : Pipe}
    (hd : g.pipe = some d) (hne : d.nread ≠ d.nwrite) :
    Spec S strict n₀ (.proc p) (.inr .advance) g fun _ g' => g' = { g with
      pipe := none, ahead := false, owes := fun i q => i = .nwrite ∨ g.owes i q } := by
  refine spec_dev hS fun s γ ch' pi' r hi hγ hloc ho => ?_
  cases ho
  obtain ⟨-, rfl⟩ := hloc.know d hd
  refine ⟨({ g with
      pipe := none, ahead := false, owes := fun i q => i = .nwrite ∨ g.owes i q } : Ghost NPROC),
    hi.step hγ (rely_dev hloc hh fun _ _ => rfl)
      { hloc with
        know := fun d hd => by cases hd
        ahead := fun h => by cases h }
      (.inr ⟨hh, fun hf => ?_⟩) (fun _ q i _ hc => .inl hc)
      (fun _ q i h1 h2 => .inl ⟨h1, .inr h2⟩) (fun _ i hj => ?_), rfl⟩
  · rw [ha] at hf
    obtain ⟨k, hc, hk, hdel⟩ := hf
    have hk' : k + 1 ≤ s.2.accepted.length := hk
    exact ⟨k + 1, (hc.pop (by omega)).2, hk', hdel⟩
  · cases i with
    | nread => exact absurd hj.1 hne
    | nwrite => exact .inr ⟨hh, fun q => .inl rfl⟩
    | _ => exact absurd hj id

/-- Closing an end: those asleep on its channel are owed a wakeup. -/
lemma spec_close (hS : Within S strict) (hh : g.holds = true) {writable : Bool} :
    Spec S strict n₀ (.proc p) (.inr (.close writable)) g fun _ g' => g' = { g with
      pipe := none
      owes := fun i q => i = (if writable then .nread else .nwrite) ∨ g.owes i q } := by
  refine spec_dev hS fun s γ ch' pi' r hi hγ hloc ho => ?_
  cases ho
  refine ⟨({ g with
      pipe := none
      owes := fun i q => i = (if writable then .nread else .nwrite) ∨ g.owes i q } : Ghost NPROC),
    hi.step hγ (rely_dev hloc hh fun _ _ => rfl) { hloc with know := fun d hd => by cases hd }
      (.inr ⟨hh, fun hf => ?_⟩) (fun _ q i _ hc => .inl hc)
      (fun _ q i h1 h2 => .inl ⟨h1, .inr h2⟩) (fun _ i hj => ?_), rfl⟩
  · obtain ⟨k, hc, hk, hdel⟩ := hf
    refine ⟨k, ?_, hk, hdel⟩
    change Carries n₀ s.2.accepted k (s.1.2.close writable).ring
    cases writable <;> exact hc
  · cases writable <;> cases i <;>
      first
      | exact absurd hj id
      | exact .inl hj
      | exact .inr ⟨hh, fun q => .inl rfl⟩

end Xv6.Ipc.Guard
