import Xv6.Proc.Kin

/-!
Assignments to a process, as steps of the protocol of `wait_lock`.
-/

namespace Xv6.Proc.Deeds

open Xv6.Conc Xv6.Conc.Prog Xv6.Conc.Proto Xv6.Sched.Kernel Xv6.Proc.Coarse Xv6.Proc.Family Xv6.Proc.Kin
open Xv6.Sched.Table hiding step sem setProc setLock

variable {NPROC NCPU : ℕ} {ι : Type} {s s' : State NPROC NCPU ι}
  {γ : Ctx NPROC NCPU → Ghost NPROC ι} {t : Ctx NPROC NCPU} {g g' : Ghost NPROC ι}
  {p q : Fin NPROC} {v : Proc NPROC ι Empty} {initproc : Fin NPROC}

/-- The step changes the record of process `q`, and of the history at most what concerns `q` and
the thread `t`. -/
structure Assign (t : Ctx NPROC NCPU) (q : Fin NPROC) (v : Proc NPROC ι Empty)
    (s s' : State NPROC NCPU ι) : Prop where
  proc : s'.1.proc = Function.update s.1.proc q v
  lock : s'.1.lock = s.1.lock
  fresh : s'.1.fresh = s.1.fresh
  away : s'.1.away = s.1.away
  last : s'.2.last = s.2.last
  call : ∀ p, t ≠ .proc p → s'.2.call p = s.2.call p
  corpse : s'.2.corpse = s.2.corpse ∨
    s.1.lock (.proc q) = some t ∧ ∀ p, p ≠ q → s'.2.corpse p = s.2.corpse p
  reaps : ∀ (n : ℕ) r, s.2.reaps[n]? = some r → s'.2.reaps[n]? = some r

namespace Assign

variable (ha : Assign t q v s s')

include ha

lemma self : s'.1.proc q = v := by rw [ha.proc, Function.update_self]

lemma other (hp : p ≠ q) : s'.1.proc p = s.1.proc p := by rw [ha.proc, Function.update_of_ne hp]

/-- A field that keeps its value at `q` keeps it everywhere. -/
lemma field {A : Type} (f : Proc NPROC ι Empty → A) (h : f v = f (s.1.proc q)) (p : Fin NPROC) :
    f (s'.1.proc p) = f (s.1.proc p) := by
  by_cases hp : p = q
  · subst hp
    rw [ha.self, h]
  · rw [ha.other hp]

lemma phase {ph : Phase} (hp : p ≠ q) (h : PhaseOk s p ph) : PhaseOk s' p ph := by
  cases ph <;> simpa only [PhaseOk, ha.other hp, ha.fresh] using h

lemma corpse_of_ne (hp : p ≠ q) : s'.2.corpse p = s.2.corpse p := by
  rcases ha.corpse with h | h
  · rw [h]
  · exact h.2 p hp

/-- What the other threads see of it. -/
lemma rely {mine : Fin NPROC → Prop}
    (hphase : t ≠ .proc q → ∀ ph, PhaseOk s q ph → PhaseOk s' q ph)
    (hseen : v.state = (s.1.proc q).state ∧ v.chan = (s.1.proc q).chan ∧ v.pid = (s.1.proc q).pid ∨
      s.1.lock (.proc q) = some t)
    (hkin : v.parent = (s.1.proc q).parent ∧ (v.state = .zombie → (s.1.proc q).state = .zombie) ∨
      s.1.lock .wait = some t)
    (hmaking : ¬ mine q → (s.1.proc q).state = .used → v.state = .used ∧
      ((s.1.proc q).parent = none → v.parent = none))
    (hzombie : ∀ p, t ≠ .proc p → (s.1.proc q).state = .zombie → (s.1.proc q).parent = some p →
      v.state = .zombie ∧ v.parent = some p) : Rely t mine s s' := by
  refine ⟨fun u l _ h => by rw [ha.lock]; exact h, fun p _ => by rw [ha.away], fun p ph hp h => ?_,
    fun u r hu h => ?_, fun u hu h r => ?_, fun m hm h => ?_, fun p hp => ⟨ha.call p hp, by rw [ha.last]⟩,
    fun p r hp h1 h2 => ?_, ha.reaps⟩
  · by_cases hq : p = q
    · subst hq
      exact hphase hp ph h
    · exact ha.phase hq h
  · by_cases hq : r = q
    · subst hq
      have hne : s.1.lock (.proc r) ≠ some t := by
        rw [h]
        simpa using hu
      have hc : s'.2.corpse = s.2.corpse := ha.corpse.resolve_right fun h => hne h.1
      have h3 := hseen.resolve_right hne
      rw [ha.self, hc]
      exact ⟨h3.1, h3.2.1, h3.2.2, rfl⟩
    · rw [ha.other hq, ha.corpse_of_ne hq]
      exact ⟨rfl, rfl, rfl, rfl⟩
  · by_cases hq : r = q
    · subst hq
      have hne : s.1.lock .wait ≠ some t := by
        rw [h]
        simpa using hu
      rw [ha.self]
      exact hkin.resolve_right hne
    · rw [ha.other hq]
      exact ⟨rfl, id⟩
  · by_cases hq : m.slot = q
    · rw [hq] at hm
      have hused := h.used
      rw [hq] at hused
      obtain ⟨h1, h2⟩ := hmaking hm hused
      refine ⟨by rw [hq, ha.self, h1], fun hr => by rw [ha.fresh]; exact h.ready hr, fun ho => ?_⟩
      rw [hq, ha.self]
      exact h2 (by rw [← hq]; exact h.adopted ho)
    · exact ⟨by rw [ha.other hq]; exact h.used, fun hr => by rw [ha.fresh]; exact h.ready hr,
        fun ho => by rw [ha.other hq]; exact h.adopted ho⟩
  · by_cases hq : r = q
    · subst hq
      rw [ha.self]
      exact hzombie p hp h1 h2
    · rw [ha.other hq]
      exact ⟨h1, h2⟩

/-- The family tree after it, if nobody is told anything or forgets a debt. -/
lemma tree (hi : Inv s initproc γ) (hg : γ t = g)
    (hmaking : ∀ m, g'.making = some m → (∃ n, g.making = some n ∧ n.slot = m.slot) ∨
      ∀ u n, (γ u).making = some n → n.slot ≠ m.slot)
    (hparent : ∀ p, v.parent = some p → (s.1.proc q).parent = some p ∨ Alive s' p)
    (halive : Alive s q → Alive s' q ∨ q ≠ initproc ∧ ∀ r, (s'.1.proc r).parent ≠ some q)
    (hunused : v.state = .unused → v.parent = none)
    (hsleep : t ≠ .proc q → v.state = .sleeping → (s.1.proc q).state = .sleeping)
    (hcommit : ∀ p, t = .proc p → Committed s' p g' → Committed s p g)
    (hzombie : ∀ p, v.parent = some p → v.state = .zombie →
      (s.1.proc q).parent = some p ∧ (s.1.proc q).state = .zombie ∨
      (∃ h, g.hold = some h ∧ h.told = some p) ∨
      p = initproc ∧ ∃ h, g'.hold = some h ∧ h.owes = true)
    (howes : ∀ h, g.hold = some h → h.owes = true → ∃ h', g'.hold = some h' ∧ h'.owes = true)
    (htold : ∀ h p, g'.hold = some h → h.told = some p → ∃ h', g.hold = some h' ∧ h'.told = some p) :
    Tree s' initproc (Function.update γ t g') := by
  refine Tree.step hi hg hmaking (fun r p hr => ?_) (fun p hp => ?_) (fun r hr => ?_) (fun p hp h => ?_)
    (fun p hp h => .inl (hcommit p hp h)) (fun p r hr hz => ?_) (fun h hh ho => .inl (howes h hh ho))
    fun h p hh hp => .inl (htold h p hh hp)
  · by_cases hq : r = q
    · subst hq
      rw [ha.self] at hr
      exact hparent p hr
    · rw [ha.other hq] at hr
      exact .inl hr
  · by_cases hq : p = q
    · subst hq
      exact halive hp
    · left
      simpa only [Alive, ha.other hq] using hp
  · by_cases hq : r = q
    · subst hq
      rw [ha.self] at hr ⊢
      exact hunused hr
    · rw [ha.other hq] at hr ⊢
      exact hi.tree.unused r hr
  · by_cases hq : p = q
    · subst hq
      rw [ha.self] at h
      exact hsleep hp h
    · rwa [ha.other hq] at h
  · by_cases hq : r = q
    · subst hq
      rw [ha.self] at hr hz
      exact hzombie p hr hz
    · rw [ha.other hq] at hr hz
      exact .inl ⟨hr, hz⟩

/-- The history after it, if it is neither an exit nor a reap. -/
lemma book (hi : Inv s initproc γ) (hg : γ t = g) (hexits : s'.2.exits = s.2.exits)
    (hcorpse : s'.2.corpse = s.2.corpse) (hreaps : s'.2.reaps = s.2.reaps)
    (hforker : ∀ r, r ≠ q → s'.2.forker r = s.2.forker r)
    (hparent : ∀ p, v.parent = some p →
      (s.1.proc q).parent = some p ∧ s'.2.forker q = s.2.forker q ∨
        p = initproc ∨ s'.2.forker q = some p)
    (hzombie : v.state = .zombie → (s.1.proc q).state = .zombie)
    (hdead : ∀ i, s.2.corpse q = some i → v.state = (s.1.proc q).state ∧
      v.pid = (s.1.proc q).pid ∧ v.xstate = (s.1.proc q).xstate)
    (hfreeing : ∀ k, g.grip = some k → k.freeing = true →
      (∃ k', g'.grip = some k' ∧ k'.slot = k.slot ∧ k'.freeing = true) ∨
        (s'.1.proc k.slot).state ≠ .zombie) :
    Book s' initproc (Function.update γ t g') := by
  refine Book.step hi hg hexits hcorpse hreaps (fun r p hr => ?_) (fun r hr => ?_) (fun r i hr => ?_)
    hfreeing
  · by_cases hq : r = q
    · subst hq
      rw [ha.self] at hr
      exact hparent p hr
    · rw [ha.other hq] at hr
      exact .inl ⟨hr, hforker r hq⟩
  · by_cases hq : r = q
    · subst hq
      rw [ha.self] at hr
      exact hzombie hr
    · rwa [ha.other hq] at hr
  · by_cases hq : r = q
    · subst hq
      rw [ha.self]
      exact hdead i hr
    · rw [ha.other hq]
      exact ⟨rfl, rfl, rfl⟩

lemma hold {h : Hold NPROC} (hh : HoldOk s t h) (hparent : v.parent = (s.1.proc q).parent)
    (hzombie : v.state = .zombie → (s.1.proc q).state = .zombie) : HoldOk s' t h := by
  have hfield := ha.field Proc.parent hparent
  refine ⟨by rw [ha.lock]; exact hh.lock, fun r o hr => by rw [hfield]; exact hh.kin r o hr,
    fun p r hp hr hz => ?_, fun p r hp hr => by rw [hfield]; exact hh.orphaned p r hp hr⟩
  rw [hfield] at hz
  by_cases hq : r = q
  · subst hq
    rw [ha.self] at hz
    exact hh.scanned p r hp hr ⟨hz.1, hzombie hz.2⟩
  · rw [ha.other hq] at hz
    exact hh.scanned p r hp hr hz

/-- The lock of the process is still held. -/
lemma grip {k : Grip NPROC ι} {w : Option (Proc NPROC ι Empty)} {b : Bool} (hk : GripOk s t k)
    (hslot : k.slot = q)
    (hw : ∀ x, w = some x → v.state = x.state ∧ v.chan = x.chan ∧ v.pid = x.pid)
    (hb : b = true → v.state = .zombie ∧ s'.2.corpse q = none) : GripOk s' t ⟨q, w, b⟩ := by
  refine ⟨by rw [ha.lock, ← hslot]; exact hk.lock, fun p hp => by rw [ha.last, ← hslot]; exact hk.last p hp,
    fun x hx => ?_, fun h => ?_⟩
  · change (s'.1.proc q).state = _ ∧ (s'.1.proc q).chan = _ ∧ (s'.1.proc q).pid = _
    rw [ha.self]
    exact hw x hx
  · change (s'.1.proc q).state = _ ∧ _
    rw [ha.self]
    exact hb h

lemma grip_other {k : Grip NPROC ι} (hk : GripOk s t k) (hslot : k.slot ≠ q) : GripOk s' t k := by
  refine ⟨by rw [ha.lock]; exact hk.lock, fun p hp => by rw [ha.last]; exact hk.last p hp, ?_, ?_⟩
  · rw [ha.other hslot]
    exact hk.seen
  · rw [ha.other hslot, ha.corpse_of_ne hslot]
    exact hk.freeing

/-- An assignment that is of no interest to who holds the lock. -/
lemma grip_same {k : Grip NPROC ι} (hk : GripOk s t k) (hcorpse : s'.2.corpse = s.2.corpse)
    (hstate : v.state = (s.1.proc q).state) (hchan : v.chan = (s.1.proc q).chan)
    (hpid : v.pid = (s.1.proc q).pid) : GripOk s' t k := by
  refine ⟨by rw [ha.lock]; exact hk.lock, fun p hp => by rw [ha.last]; exact hk.last p hp, ?_, ?_⟩
  · rw [ha.field Proc.state hstate, ha.field Proc.chan hchan, ha.field Proc.pid hpid]
    exact hk.seen
  · rw [ha.field Proc.state hstate, hcorpse]
    exact hk.freeing

lemma making {m : Making NPROC} (hm : MakingOk s m)
    (hq : m.slot = q → v.state = .used ∧ (m.adopted = false → v.parent = none)) : MakingOk s' m := by
  by_cases h : m.slot = q
  · refine ⟨by rw [h, ha.self]; exact (hq h).1, fun hr => by rw [ha.fresh]; exact hm.ready hr, fun ho => ?_⟩
    rw [h, ha.self]
    exact (hq h).2 ho
  · refine ⟨by rw [ha.other h]; exact hm.used, fun hr => by rw [ha.fresh]; exact hm.ready hr, fun ho => ?_⟩
    rw [ha.other h]
    exact hm.adopted ho

lemma failed (hfailed : (s.1.proc q).state = .zombie → (s.1.proc q).parent = some p →
      v.state = .zombie ∧ v.parent = some p)
    {r : Fin NPROC} (hr : (s.1.proc r).state = .zombie ∧ (s.1.proc r).parent = some p) :
    (s'.1.proc r).state = .zombie ∧ (s'.1.proc r).parent = some p := by
  by_cases hq : r = q
  · subst hq
    rw [ha.self]
    exact hfailed hr.1 hr.2
  · rw [ha.other hq]
    exact hr

end Assign

/-! ### Assignments that leave the state and the parent alone -/

lemma committed_congr {s s' : State NPROC NCPU ι} {g g' : Ghost NPROC ι} (hphase : g'.phase = g.phase)
    (hstate : (s'.1.proc p).state = (s.1.proc p).state) (h : Committed s' p g') : Committed s p g := by
  unfold Committed at h ⊢
  rwa [hphase, hstate] at h

/-- What becomes of the ghost value: the channel may be named, and more may be known of the process
whose lock is held. -/
lemma mild (hi : Inv s initproc γ) (hg : γ t = g) (ha : Assign t q v s s') (hh : s'.2 = s.2)
    (hstate : v.state = (s.1.proc q).state) (hparent : v.parent = (s.1.proc q).parent)
    (hseen : v.chan = (s.1.proc q).chan ∧ v.pid = (s.1.proc q).pid ∨ s.1.lock (.proc q) = some t)
    (hother : t ≠ .proc q → ∀ ph, PhaseOk s q ph → PhaseOk s' q ph)
    (hdead : ∀ i, s.2.corpse q = some i → v.pid = (s.1.proc q).pid ∧ v.xstate = (s.1.proc q).xstate)
    {ph : Phase} {K : Option (Grip NPROC ι)} (hown : ∀ p, t = .proc p → PhaseOk s' p ph)
    (hph : ph = g.phase ∨ g.phase = .falling false ∧ ph = .falling true)
    (hK : ∀ k, K = some k → GripOk s' t k)
    (hkeep : ∀ k, g.grip = some k → ∃ k', K = some k' ∧ k'.slot = k.slot ∧ k'.freeing = k.freeing)
    (hnone : g.grip = none → K = none) :
    Inv s' initproc (Function.update γ t { g with phase := ph, grip := K }) := by
  have hl := hi.each t
  rw [hg] at hl
  have hsame := ha.field Proc.state hstate
  have hfall : ∀ p b, t = .proc p → ph = .falling b → ∃ k, K = some k ∧ k.slot = p := by
    intro p b hp hb
    have hbefore : ∃ b', g.phase = .falling b' := by
      rcases hph with h | h
      · exact ⟨b, h ▸ hb⟩
      · exact ⟨false, h.1⟩
    obtain ⟨b', hb'⟩ := hbefore
    obtain ⟨k, hk, hslot⟩ := hl.falling p b' hp hb'
    obtain ⟨k', hk', hslot', -⟩ := hkeep k hk
    exact ⟨k', hk', hslot'.trans hslot⟩
  refine hi.step hg (ha.rely hother ?_ (.inl ⟨hparent, fun h => hstate ▸ h⟩) ?_ ?_) ?_
    (ha.tree hi hg (fun m hm => .inl ⟨m, hm, rfl⟩) (fun p hp => .inl (hparent ▸ hp)) ?_ ?_ ?_ ?_ ?_
      (fun h h1 h2 => ⟨h, h1, h2⟩) fun h p h1 h2 => ⟨h, h1, h2⟩)
    (ha.book hi hg (by rw [hh]) (by rw [hh]) (by rw [hh]) (fun r _ => by rw [hh]) ?_
      (fun h => hstate ▸ h) (fun i hc => ⟨hstate, hdead i hc⟩) ?_)
  · exact hseen.imp (fun h => ⟨hstate, h⟩) id
  · intro _ hused
    exact ⟨hstate.trans hused, fun h => hparent.trans h⟩
  · intro p _ h1 h2
    exact ⟨hstate.trans h1, hparent.trans h2⟩
  · refine ⟨fun p hp => by rw [ha.away]; exact hl.here p hp, hown, hfall, fun p k addr hp hk hreq => ?_,
      fun h h1 => ha.hold (hl.hold h h1) hparent fun h => hstate ▸ h, hK, fun m hm => ?_,
      fun p hp => by rw [hh]; exact hl.call p hp, fun p r hp hr => ?_, fun p n hp hn => ?_,
      fun p hp hg => ?_⟩
    · rcases hph with h | h
      · exact hl.kids p k addr hp (h ▸ hk) hreq
      · exact absurd (h.2.symm.trans hk) (by simp)
    · refine ha.making (hl.making m hm) fun hslot => ⟨?_, fun ho => ?_⟩
      · rw [hstate, ← hslot]
        exact (hl.making m hm).used
      · rw [hparent, ← hslot]
        exact (hl.making m hm).adopted ho
    · exact ha.failed (fun h1 h2 => ⟨hstate.trans h1, hparent.trans h2⟩) (hl.failed p r hp hr)
    · rw [hh]
      exact hl.got p n hp hn
    · have hbefore : g.phase = .gone := by
        rcases hph with h | h
        · exact h ▸ hg
        · exact absurd (h.2.symm.trans hg) (by simp)
      rcases hl.gone p hp hbefore with ⟨k, hk, hslot⟩ | ⟨h1, h2, h3⟩
      · obtain ⟨k', hk', hslot', -⟩ := hkeep k hk
        exact .inl ⟨k', hk', hslot'.trans hslot⟩
      · exact .inr ⟨hnone h1, h2, h3⟩
  · intro h
    left
    simpa only [Alive, hsame] using h
  · intro h
    rw [hparent]
    exact hi.tree.unused q (hstate ▸ h)
  · intro _ h
    exact hstate ▸ h
  · intro p hp h
    rcases hph with h1 | h1
    · exact committed_congr h1 (hsame p) h
    · exact .inl ⟨false, h1.1⟩
  · intro p h1 h2
    exact .inl ⟨hparent ▸ h1, hstate ▸ h2⟩
  · intro p hp
    rw [hh]
    exact .inl ⟨hparent ▸ hp, rfl⟩
  · intro k hk hf
    obtain ⟨k', h1, h2, h3⟩ := hkeep k hk
    exact .inl ⟨k', h1, h2, h3.trans hf⟩

end Xv6.Proc.Deeds
