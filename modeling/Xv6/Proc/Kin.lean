import Xv6.Proc.Family

/-!
The protocol of `wait_lock`. Parents are changed under it, processes become zombies under it,
and whoever makes a zombie of a process, or gives one to `initproc`, has woken the parent up or
still owes it a wakeup. So a process that goes to sleep in `kwait`, having found no zombie among
its children, is not asleep when there is one.
-/

namespace Xv6.Proc.Kin

open Xv6.Conc Xv6.Conc.Prog Xv6.Conc.Proto Xv6.Sched.Kernel Xv6.Proc.Coarse Xv6.Proc.Family
open Xv6.Sched.Table hiding step sem setProc setLock

variable {NPROC NCPU : ℕ} {ι : Type}

/-! ### Ghost state -/

/-- Where a process is: it has released `wait_lock` to sleep in `kwait`, with or without having
set its channel; it is asleep, in `kwait` or elsewhere; it has exited, or is not there. -/
inductive Phase
  | awake
  | falling (named : Bool)
  | asleep (kids : Bool)
  | gone

/-- What a thread knows while it holds `wait_lock`. -/
structure Hold (NPROC : ℕ) where
  /-- The parent of a process. -/
  kin : Option (Fin NPROC × Option (Fin NPROC))
  /-- The slots that hold no zombie child of the process. -/
  scanned : Fin NPROC → Prop
  /-- The slots that hold no child of the process. -/
  orphaned : Fin NPROC → Prop
  /-- A process that will not sleep in `kwait` while the lock is held. -/
  told : Option (Fin NPROC)
  /-- It has given a child to `initproc`, which it still has to wake up. -/
  owes : Bool

/-- The process whose lock a thread holds, what it has seen of it, and whether it has begun to
free it as a zombie. -/
structure Grip (NPROC : ℕ) (ι : Type) where
  slot : Fin NPROC
  seen : Option (Proc NPROC ι Empty)
  freeing : Bool

/-- The process that a thread is making. -/
structure Making (NPROC : ℕ) where
  slot : Fin NPROC
  ready : Bool
  adopted : Bool

structure Ghost (NPROC : ℕ) (ι : Type) where
  away : Bool
  phase : Phase
  hold : Option (Hold NPROC)
  grip : Option (Grip NPROC ι)
  making : Option (Making NPROC)
  call : Call NPROC ι
  /-- The pid of the child that the call has reaped. -/
  pid : ℤ

section Facts

variable (s : State NPROC NCPU ι)

def PhaseOk (p : Fin NPROC) : Phase → Prop
  | .awake => (s.1.proc p).state = .running ∧ s.1.fresh p = false
  | .falling named => (s.1.proc p).state = .running ∧ s.1.fresh p = false ∧
      (named = true → (s.1.proc p).chan = some (.proc p))
  | .asleep kids => ((s.1.proc p).state = .sleeping ∨ (s.1.proc p).state = .runnable) ∧
      s.1.fresh p = false ∧ (kids = true → (s.1.proc p).chan = some (.proc p))
  | .gone => (s.1.proc p).state ≠ .running ∧ (s.1.proc p).state ≠ .sleeping ∧
      ((s.1.proc p).state = .runnable → s.1.fresh p = true)

structure HoldOk (t : Ctx NPROC NCPU) (h : Hold NPROC) : Prop where
  lock : s.1.lock .wait = some t
  kin : ∀ q o, h.kin = some (q, o) → (s.1.proc q).parent = o
  scanned : ∀ p q, t = .proc p → h.scanned q →
    ¬((s.1.proc q).parent = some p ∧ (s.1.proc q).state = .zombie)
  orphaned : ∀ p q, t = .proc p → h.orphaned q → (s.1.proc q).parent ≠ some p

structure GripOk (t : Ctx NPROC NCPU) (k : Grip NPROC ι) : Prop where
  lock : s.1.lock (.proc k.slot) = some t
  last : ∀ p, t = .proc p → k.slot ≠ p → s.2.last p = some k.slot
  seen : ∀ v, k.seen = some v → (s.1.proc k.slot).state = v.state ∧
    (s.1.proc k.slot).chan = v.chan ∧ (s.1.proc k.slot).pid = v.pid
  freeing : k.freeing = true → (s.1.proc k.slot).state = .zombie ∧ s.2.corpse k.slot = none

structure MakingOk (m : Making NPROC) : Prop where
  used : (s.1.proc m.slot).state = .used
  ready : m.ready = true → s.1.fresh m.slot = true
  adopted : m.adopted = false → (s.1.proc m.slot).parent = none

/-- What a ghost value says of its thread. -/
structure Local (t : Ctx NPROC NCPU) (g : Ghost NPROC ι) : Prop where
  here : ∀ p, t = .proc p → s.1.away p = g.away
  phase : ∀ p, t = .proc p → PhaseOk s p g.phase
  falling : ∀ p b, t = .proc p → g.phase = .falling b → ∃ k, g.grip = some k ∧ k.slot = p
  kids : ∀ p k addr, t = .proc p → g.phase = .asleep k → g.call.req = some (.wait addr) → k = true
  hold : ∀ h, g.hold = some h → HoldOk s t h
  grip : ∀ k, g.grip = some k → GripOk s t k
  making : ∀ m, g.making = some m → MakingOk s m
  call : ∀ p, t = .proc p → s.2.call p = g.call
  failed : ∀ p q, t = .proc p → g.call.failed = some q →
    (s.1.proc q).state = .zombie ∧ (s.1.proc q).parent = some p
  got : ∀ p n, t = .proc p → g.call.got = some n →
    ∃ r, s.2.reaps[n]? = some r ∧ r.reaper = p ∧ r.pid = g.pid
  gone : ∀ p, t = .proc p → g.phase = .gone → (∃ k, g.grip = some k ∧ k.slot = p) ∨
    g.grip = none ∧ g.hold = none ∧ g.making = none

/-- The process will sleep in `kwait`, or does so. -/
def Committed (p : Fin NPROC) (g : Ghost NPROC ι) : Prop :=
  (∃ b, g.phase = .falling b) ∨ g.phase = .asleep true ∧ (s.1.proc p).state = .sleeping

def Alive (p : Fin NPROC) : Prop :=
  (s.1.proc p).state = .running ∨ (s.1.proc p).state = .sleeping ∨ (s.1.proc p).state = .runnable

/-- The family tree. -/
structure Tree (initproc : Fin NPROC) (γ : Ctx NPROC NCPU → Ghost NPROC ι) : Prop where
  making : ∀ t u m n, (γ t).making = some m → (γ u).making = some n → m.slot = n.slot → t = u
  parent : ∀ q p, (s.1.proc q).parent = some p → Alive s p
  init : Alive s initproc
  unused : ∀ q, (s.1.proc q).state = .unused → (s.1.proc q).parent = none
  wake : ∀ p q, Committed s p (γ (.proc p)) → (s.1.proc q).parent = some p →
    (s.1.proc q).state = .zombie → p = initproc ∧ ∃ t h, (γ t).hold = some h ∧ h.owes = true
  told : ∀ t h p, (γ t).hold = some h → h.told = some p → ¬ Committed s p (γ (.proc p))

/-- A reap returns what its child exited with, to its parent. -/
def Good (initproc : Fin NPROC) (exits : List (Exit NPROC)) (r : Reap NPROC) : Prop :=
  (∃ i e, r.exit = some i ∧ exits[i]? = some e ∧ e.pid = r.pid ∧ e.status = r.status) ∧
    r.parent = some r.reaper ∧ (r.reaper = initproc ∨ r.forker = some r.reaper)

/-- The history of exits and reaps. -/
structure Book (initproc : Fin NPROC) (γ : Ctx NPROC NCPU → Ghost NPROC ι) : Prop where
  zombie : ∀ q, (s.1.proc q).state = .zombie → (∃ i, s.2.corpse q = some i) ∨
    ∃ t k, (γ t).grip = some k ∧ k.slot = q ∧ k.freeing = true
  corpse : ∀ q i, s.2.corpse q = some i → (s.1.proc q).state = .zombie ∧
    (∃ e, s.2.exits[i]? = some e ∧ e.slot = q ∧ e.pid = (s.1.proc q).pid ∧
      e.status = (s.1.proc q).xstate) ∧ ∀ r ∈ s.2.reaps, r.exit ≠ some i
  once : (s.2.reaps.map Reap.exit).Nodup
  good : ∀ r ∈ s.2.reaps, Good initproc s.2.exits r
  forker : ∀ q p, (s.1.proc q).parent = some p → p = initproc ∨ s.2.forker q = some p

structure Inv (initproc : Fin NPROC) (γ : Ctx NPROC NCPU → Ghost NPROC ι) : Prop where
  each : ∀ t, Local s t (γ t)
  tree : Tree s initproc γ
  book : Book s initproc γ

end Facts

/-! ### Steps -/

section Steps

variable {s s' : State NPROC NCPU ι} {γ : Ctx NPROC NCPU → Ghost NPROC ι} {t u : Ctx NPROC NCPU}
  {g g' : Ghost NPROC ι} {p q : Fin NPROC} {initproc : Fin NPROC}

/-- What the other threads may rely on when `t` makes a step; `mine` is what it is making. -/
structure Rely (t : Ctx NPROC NCPU) (mine : Fin NPROC → Prop) (s s' : State NPROC NCPU ι) :
    Prop where
  lock : ∀ u l, u ≠ t → s.1.lock l = some u → s'.1.lock l = some u
  away : ∀ p, t ≠ .proc p → s'.1.away p = s.1.away p
  phase : ∀ p ph, t ≠ .proc p → PhaseOk s p ph → PhaseOk s' p ph
  seen : ∀ u q, u ≠ t → s.1.lock (.proc q) = some u →
    (s'.1.proc q).state = (s.1.proc q).state ∧ (s'.1.proc q).chan = (s.1.proc q).chan ∧
      (s'.1.proc q).pid = (s.1.proc q).pid ∧ s'.2.corpse q = s.2.corpse q
  kin : ∀ u, u ≠ t → s.1.lock .wait = some u → ∀ q,
    (s'.1.proc q).parent = (s.1.proc q).parent ∧
      ((s'.1.proc q).state = .zombie → (s.1.proc q).state = .zombie)
  making : ∀ m, ¬ mine m.slot → MakingOk s m → MakingOk s' m
  call : ∀ p, t ≠ .proc p → s'.2.call p = s.2.call p ∧ s'.2.last p = s.2.last p
  zombie : ∀ p q, t ≠ .proc p → (s.1.proc q).state = .zombie → (s.1.proc q).parent = some p →
    (s'.1.proc q).state = .zombie ∧ (s'.1.proc q).parent = some p
  reaps : ∀ (n : ℕ) r, s.2.reaps[n]? = some r → s'.2.reaps[n]? = some r

/-- The slot that a thread with this ghost value is making. -/
def Ghost.mine (g : Ghost NPROC ι) (q : Fin NPROC) : Prop := ∃ m, g.making = some m ∧ m.slot = q

/-- What a thread knows survives the steps of the others. -/
lemma Local.stable {mine : Fin NPROC → Prop} (hl : Local s u g) (hr : Rely t mine s s')
    (hu : u ≠ t) (hm : ∀ m, g.making = some m → ¬ mine m.slot) : Local s' u g := by
  have hother : ∀ p, u = .proc p → t ≠ .proc p := fun p hp ht => hu (hp.trans ht.symm)
  refine ⟨fun p hp => ?_, fun p hp => hr.phase p _ (hother p hp) (hl.phase p hp), hl.falling,
    hl.kids, fun h hh => ?_, fun k hk => ?_, fun m hg => hr.making m (hm m hg) (hl.making m hg),
    fun p hp => ?_, fun p q hp hf => ?_, fun p n hp hn => ?_, hl.gone⟩
  · rw [hr.away p (hother p hp)]
    exact hl.here p hp
  · obtain ⟨hlock, hkin, hscan, horph⟩ := hl.hold h hh
    have hsame := hr.kin u hu hlock
    refine ⟨hr.lock _ _ hu hlock, fun q o hq => ?_, fun p q hp hq h' => ?_, fun p q hp hq => ?_⟩
    · rw [(hsame q).1]
      exact hkin q o hq
    · exact hscan p q hp hq ⟨(hsame q).1.symm.trans h'.1, (hsame q).2 h'.2⟩
    · rw [(hsame q).1]
      exact horph p q hp hq
  · obtain ⟨hlock, hlast, hseen, hfree⟩ := hl.grip k hk
    obtain ⟨h1, h2, h3, h4⟩ := hr.seen u _ hu hlock
    refine ⟨hr.lock _ _ hu hlock, fun p hp hne => ?_, fun v hv => ?_, fun hf => ?_⟩
    · rw [(hr.call p (hother p hp)).2]
      exact hlast p hp hne
    · rw [h1, h2, h3]
      exact hseen v hv
    · rw [h1, h4]
      exact hfree hf
  · rw [(hr.call p (hother p hp)).1]
    exact hl.call p hp
  · obtain ⟨h1, h2⟩ := hl.failed p q hp hf
    exact hr.zombie p q (hother p hp) h1 h2
  · obtain ⟨r, h1, h2⟩ := hl.got p n hp hn
    exact ⟨r, hr.reaps n r h1, h2⟩

lemma update_proc {G : Type} {γ : Ctx NPROC NCPU → G} {g' : G} (h : t ≠ .proc p) :
    Function.update γ t g' (.proc p) = γ (.proc p) :=
  Function.update_of_ne (Ne.symm h) ..

/-- **A step keeps the family tree in order** if nobody loses a parent, and whoever makes a zombie
has told its parent, or owes it a wakeup. -/
lemma Tree.step (hi : Inv s initproc γ) (hg : γ t = g)
    (hmaking : ∀ m, g'.making = some m → (∃ n, g.making = some n ∧ n.slot = m.slot) ∨
      ∀ u n, (γ u).making = some n → n.slot ≠ m.slot)
    (hparent : ∀ q p, (s'.1.proc q).parent = some p →
      (s.1.proc q).parent = some p ∨ Alive s' p)
    (halive : ∀ p, Alive s p → Alive s' p ∨ p ≠ initproc ∧ ∀ q, (s'.1.proc q).parent ≠ some p)
    (hunused : ∀ q, (s'.1.proc q).state = .unused → (s'.1.proc q).parent = none)
    (hsleep : ∀ p, t ≠ .proc p → (s'.1.proc p).state = .sleeping → (s.1.proc p).state = .sleeping)
    (hcommit : ∀ p, t = .proc p → Committed s' p g' → Committed s p g ∨
      s.1.lock .wait = some t ∧ g'.hold = none ∧
        ∀ q, (s'.1.proc q).parent = some p → (s'.1.proc q).state ≠ .zombie)
    (hzombie : ∀ p q, (s'.1.proc q).parent = some p → (s'.1.proc q).state = .zombie →
      (s.1.proc q).parent = some p ∧ (s.1.proc q).state = .zombie ∨
      (∃ h, g.hold = some h ∧ h.told = some p) ∨
      p = initproc ∧ ∃ h, g'.hold = some h ∧ h.owes = true)
    (howes : ∀ h, g.hold = some h → h.owes = true → (∃ h', g'.hold = some h' ∧ h'.owes = true) ∨
      ¬ Committed s' initproc (Function.update γ t g' (.proc initproc)))
    (htold : ∀ h p, g'.hold = some h → h.told = some p →
      (∃ h', g.hold = some h' ∧ h'.told = some p) ∨
      ¬ Committed s' p (Function.update γ t g' (.proc p))) :
    Tree s' initproc (Function.update γ t g') := by
  have hcom : ∀ p, Committed s' p (Function.update γ t g' (.proc p)) →
      Committed s p (γ (.proc p)) ∨ t = .proc p ∧ s.1.lock .wait = some t ∧ g'.hold = none ∧
        ∀ q, (s'.1.proc q).parent = some p → (s'.1.proc q).state ≠ .zombie := by
    intro p hp
    by_cases ht : t = .proc p
    · subst ht
      rw [Function.update_self] at hp
      rw [hg]
      exact (hcommit p rfl hp).imp id fun h => ⟨rfl, h⟩
    · rw [update_proc ht] at hp
      exact .inl (hp.imp id fun h => ⟨h.1, hsleep p ht h.2⟩)
  refine ⟨fun u v m n hm hn hmn => ?_, fun q p hq => ?_, ?_, hunused, fun p q hp hq hz => ?_,
    fun u h p hu hp hc => ?_⟩
  · have hfresh : ∀ u m n, u ≠ t → (γ u).making = some m → g'.making = some n →
        m.slot ≠ n.slot := by
      intro u m n hu hm hn hmn
      rcases hmaking n hn with ⟨k, hk, hslot⟩ | h
      · exact hu (hi.tree.making u t m k hm (by rw [hg]; exact hk) (hmn.trans hslot.symm))
      · exact h u m hm hmn
    by_cases hu : u = t
    · by_cases hv : v = t
      · rw [hu, hv]
      · rw [hu, Function.update_self] at hm
        rw [Function.update_of_ne hv] at hn
        exact absurd hmn.symm (hfresh v n m hv hn hm)
    · rw [Function.update_of_ne hu] at hm
      by_cases hv : v = t
      · rw [hv, Function.update_self] at hn
        exact absurd hmn (hfresh u m n hu hm hn)
      · rw [Function.update_of_ne hv] at hn
        exact hi.tree.making u v m n hm hn hmn
  · rcases hparent q p hq with h | h
    · exact (halive p (hi.tree.parent q p h)).resolve_right fun h => h.2 q hq
    · exact h
  · exact (halive initproc hi.tree.init).resolve_right fun h => h.1 rfl
  · rcases hcom p hp with hbefore | ⟨-, -, -, h⟩
    swap
    · exact absurd hz (h q hq)
    rcases hzombie p q hq hz with ⟨h1, h2⟩ | ⟨h, h1, h2⟩ | ⟨h1, h, h2⟩
    · obtain ⟨rfl, u, h, hu, ho⟩ := hi.tree.wake p q hbefore h1 h2
      refine ⟨rfl, ?_⟩
      by_cases hut : u = t
      · rw [hut, hg] at hu
        rcases howes h hu ho with ⟨h', h3, h4⟩ | hn
        · exact ⟨t, h', by rwa [Function.update_self], h4⟩
        · exact absurd hp hn
      · exact ⟨u, h, by rwa [Function.update_of_ne hut], ho⟩
    · exact absurd hbefore (hi.tree.told t h p (by rw [hg]; exact h1) h2)
    · exact ⟨h1, t, h, by rw [Function.update_self]; exact h2⟩
  · by_cases hut : u = t
    · rw [hut, Function.update_self] at hu
      rcases htold h p hu hp with ⟨h', h1, h2⟩ | hn
      · rcases hcom p hc with hb | ⟨-, -, hnone, -⟩
        · exact hi.tree.told t h' p (by rw [hg]; exact h1) h2 hb
        · rw [hu] at hnone
          cases hnone
      · exact hn hc
    · rw [Function.update_of_ne hut] at hu
      rcases hcom p hc with hb | ⟨-, hlock, -⟩
      · exact hi.tree.told u h p hu hp hb
      · have := ((hi.each u).hold h hu).lock
        rw [hlock] at this
        exact hut (Option.some.inj this).symm

/-- A step that is neither an exit nor a reap keeps the history in order. -/
lemma Book.step (hi : Inv s initproc γ) (hg : γ t = g) (hexits : s'.2.exits = s.2.exits)
    (hcorpse : s'.2.corpse = s.2.corpse) (hreaps : s'.2.reaps = s.2.reaps)
    (hforker : ∀ q p, (s'.1.proc q).parent = some p →
      (s.1.proc q).parent = some p ∧ s'.2.forker q = s.2.forker q ∨
        p = initproc ∨ s'.2.forker q = some p)
    (hzombie : ∀ q, (s'.1.proc q).state = .zombie → (s.1.proc q).state = .zombie)
    (hdead : ∀ q i, s.2.corpse q = some i → (s'.1.proc q).state = (s.1.proc q).state ∧
      (s'.1.proc q).pid = (s.1.proc q).pid ∧ (s'.1.proc q).xstate = (s.1.proc q).xstate)
    (hfreeing : ∀ k, g.grip = some k → k.freeing = true →
      (∃ k', g'.grip = some k' ∧ k'.slot = k.slot ∧ k'.freeing = true) ∨
        (s'.1.proc k.slot).state ≠ .zombie) :
    Book s' initproc (Function.update γ t g') := by
  refine ⟨fun q hq => ?_, fun q i hq => ?_, by rw [hreaps]; exact hi.book.once,
    fun r hr => ?_, fun q p hq => ?_⟩
  · rcases hi.book.zombie q (hzombie q hq) with ⟨i, h⟩ | ⟨u, k, hk, hslot, hf⟩
    · exact .inl ⟨i, by rw [hcorpse]; exact h⟩
    · right
      by_cases hu : u = t
      · rw [hu, hg] at hk
        rcases hfreeing k hk hf with ⟨k', h1, h2, h3⟩ | h
        · exact ⟨t, k', by rwa [Function.update_self], h2.trans hslot, h3⟩
        · rw [hslot] at h
          exact absurd hq h
      · exact ⟨u, k, by rwa [Function.update_of_ne hu], hslot, hf⟩
  · rw [hcorpse] at hq
    obtain ⟨h1, ⟨e, h2, h3, h4, h5⟩, h6⟩ := hi.book.corpse q i hq
    obtain ⟨d1, d2, d3⟩ := hdead q i hq
    rw [d1, d2, d3, hexits, hreaps]
    exact ⟨h1, ⟨e, h2, h3, h4, h5⟩, h6⟩
  · rw [hreaps] at hr
    rw [hexits]
    exact hi.book.good r hr
  · rcases hforker q p hq with ⟨h1, h2⟩ | h
    · rw [h2]
      exact hi.book.forker q p h1
    · exact h

lemma Inv.step (hi : Inv s initproc γ) (hg : γ t = g) (hr : Rely t g.mine s s')
    (hl : Local s' t g') (htree : Tree s' initproc (Function.update γ t g'))
    (hbook : Book s' initproc (Function.update γ t g')) :
    Inv s' initproc (Function.update γ t g') := by
  refine ⟨fun u => ?_, htree, hbook⟩
  by_cases hu : u = t
  · rw [hu, Function.update_self]
    exact hl
  · rw [Function.update_of_ne hu]
    refine (hi.each u).stable hr hu fun m hm hmine => ?_
    obtain ⟨n, hn, hslot⟩ := hmine
    exact hu (hi.tree.making u t m n hm (by rw [hg]; exact hn) hslot.symm)

/-! Steps that leave the processes alone. -/

structure Quiet (t : Ctx NPROC NCPU) (s s' : State NPROC NCPU ι) : Prop where
  proc : s'.1.proc = s.1.proc
  fresh : s'.1.fresh = s.1.fresh
  away : s'.1.away = s.1.away
  lock : ∀ u l, u ≠ t → s.1.lock l = some u → s'.1.lock l = some u
  history : ∃ last, s'.2 = { s.2 with last := last } ∧ ∀ p, t ≠ .proc p → last p = s.2.last p

lemma Quiet.phase (hq : Quiet t s s') {ph : Phase} (h : PhaseOk s p ph) : PhaseOk s' p ph := by
  cases ph <;> simpa only [PhaseOk, hq.proc, hq.fresh] using h

lemma Quiet.rely (hq : Quiet t s s') {mine : Fin NPROC → Prop} : Rely t mine s s' := by
  obtain ⟨last, hh, hlast⟩ := hq.history
  refine ⟨hq.lock, fun p _ => congrFun hq.away p, fun p ph _ h => hq.phase h, fun u q _ _ => ?_,
    fun u _ _ q => ?_, fun m _ hm => ⟨?_, ?_, ?_⟩, fun p hp => ?_, fun p q _ h1 h2 => ?_,
    fun n r hr => ?_⟩
  · rw [hq.proc, hh]
    exact ⟨rfl, rfl, rfl, rfl⟩
  · rw [hq.proc]
    exact ⟨rfl, id⟩
  · rw [hq.proc]
    exact hm.used
  · rw [hq.fresh]
    exact hm.ready
  · rw [hq.proc]
    exact hm.adopted
  · rw [hh]
    exact ⟨rfl, hlast p hp⟩
  · rw [hq.proc]
    exact ⟨h1, h2⟩
  · rw [hh]
    exact hr

lemma HoldOk.quiet {h : Hold NPROC} (hh : HoldOk s t h) (hq : Quiet t s s')
    (hlock : s'.1.lock .wait = some t) : HoldOk s' t h := by
  refine ⟨hlock, ?_, ?_, ?_⟩
  · rw [hq.proc]; exact hh.kin
  · rw [hq.proc]; exact hh.scanned
  · rw [hq.proc]; exact hh.orphaned

lemma GripOk.quiet {k : Grip NPROC ι} (hk : GripOk s t k) (hq : Quiet t s s')
    (hlock : s'.1.lock (.proc k.slot) = some t)
    (hlast : ∀ p, t = .proc p → s'.2.last p = s.2.last p) : GripOk s' t k := by
  obtain ⟨last, hh, -⟩ := hq.history
  refine ⟨hlock, fun p hp hne => (hlast p hp).trans (hk.last p hp hne), ?_, ?_⟩
  · rw [hq.proc]; exact hk.seen
  · rw [hq.proc, hh]; exact hk.freeing

/-- What a thread knows after such a step of its own. -/
lemma Local.quiet (hl : Local s t g) (hq : Quiet t s s') {H : Option (Hold NPROC)}
    {K : Option (Grip NPROC ι)} (hH : ∀ h, H = some h → HoldOk s' t h)
    (hK : ∀ k, K = some k → GripOk s' t k)
    (hfall : ∀ p b, t = .proc p → g.phase = .falling b → ∃ k, K = some k ∧ k.slot = p)
    (hgone : ∀ p, t = .proc p → g.phase = .gone → (∃ k, K = some k ∧ k.slot = p) ∨
      K = none ∧ H = none ∧ g.making = none) :
    Local s' t { g with hold := H, grip := K } := by
  obtain ⟨last, hh, -⟩ := hq.history
  refine ⟨fun p hp => ?_, fun p hp => hq.phase (hl.phase p hp), hfall, hl.kids, hH, hK,
    fun m hm => (hq.rely : Rely t (fun _ => False) s s').making m id (hl.making m hm), fun p hp => ?_,
    fun p q hp hf => ?_, fun p n hp hn => ?_, hgone⟩
  · rw [hq.away]; exact hl.here p hp
  · rw [hh]; exact hl.call p hp
  · rw [hq.proc]; exact hl.failed p q hp hf
  · rw [hh]; exact hl.got p n hp hn

/-- Such a step keeps the invariant, if no debt is forgotten. -/
lemma Inv.quiet (hi : Inv s initproc γ) (hg : γ t = g) (hq : Quiet t s s') (hl : Local s' t g')
    (hphase : g'.phase = g.phase) (hmaking : g'.making = g.making)
    (howes : ∀ h, g.hold = some h → h.owes = true → (∃ h', g'.hold = some h' ∧ h'.owes = true) ∨
      ¬ Committed s initproc (Function.update γ t g' (.proc initproc)))
    (htold : ∀ h p, g'.hold = some h → h.told = some p →
      (∃ h', g.hold = some h' ∧ h'.told = some p) ∨
      ¬ Committed s p (Function.update γ t g' (.proc p)))
    (hfreeing : ∀ k, g.grip = some k → k.freeing = true →
      ∃ k', g'.grip = some k' ∧ k'.slot = k.slot ∧ k'.freeing = true) :
    Inv s' initproc (Function.update γ t g') := by
  obtain ⟨last, hh, -⟩ := hq.history
  have hcom : ∀ p k, Committed s' p k ↔ Committed s p k := fun p k => by
    simp only [Committed, hq.proc]
  refine hi.step hg hq.rely hl (Tree.step hi hg (fun m hm => ?_) (fun q p h => ?_) (fun p h => ?_)
    (fun q h => ?_) (fun p _ h => ?_) (fun p _ h => ?_) (fun p q h1 h2 => ?_) (fun h h1 h2 => ?_)
    fun h p h1 h2 => ?_) (Book.step hi hg (by rw [hh]) (by rw [hh]) (by rw [hh]) (fun q p h => ?_)
    (fun q h => ?_) (fun q i _ => ?_) fun k h1 h2 => ?_)
  · exact .inl ⟨m, hmaking ▸ hm, rfl⟩
  · rw [hq.proc] at h; exact .inl h
  · left
    simpa only [Alive, hq.proc] using h
  · rw [hq.proc] at h ⊢; exact hi.tree.unused q h
  · rwa [hq.proc] at h
  · rw [hcom] at h
    left
    simpa only [Committed, hphase] using h
  · rw [hq.proc] at h1 h2; exact .inl ⟨h1, h2⟩
  · rw [hcom]; exact howes h h1 h2
  · rw [hcom]; exact htold h p h1 h2
  · left
    rw [hq.proc] at h
    rw [hh]
    exact ⟨h, rfl⟩
  · rwa [hq.proc] at h
  · rw [hq.proc]; exact ⟨rfl, rfl, rfl⟩
  · exact .inl (hfreeing k h1 h2)

end Steps

end Xv6.Proc.Kin
