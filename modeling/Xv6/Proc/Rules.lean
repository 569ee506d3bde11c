import Xv6.Proc.Deeds

/-!
What each action does to the protocol of `wait_lock`: locks and reads.
-/

namespace Xv6.Proc.Rules

open Xv6.Conc Xv6.Conc.Prog Xv6.Conc.Proto Xv6.Sched.Kernel Xv6.Proc.Coarse Xv6.Proc.Family Xv6.Proc.Kin
  Xv6.Proc.Deeds
open Xv6.Sched.Table hiding step sem setProc setLock

variable {NPROC NCPU : ℕ} {ι : Type} [DecidableEq ι]

/-- When a process may be made `UNUSED` or `USED`. -/
def May : Act NPROC ι Empty → Ghost NPROC ι → Prop
  | .set q (.state .unused), g => ∃ k, g.grip = some k ∧ k.slot = q ∧
      (k.freeing = true ∨ ∃ m, g.making = some m ∧ m.slot = q)
  | .set q (.state .used), g => ∃ k v, g.grip = some k ∧ k.slot = q ∧ k.seen = some v ∧ v.state = .unused
  | _, _ => True

def kin (initproc : Fin NPROC) : Proto (family (ι := ι) initproc NCPU) where
  Ghost := Ghost NPROC ι
  Inv s γ := Inv s initproc γ
  May := May
  Ok _ := True

abbrev Spec (initproc : Fin NPROC) (t : Ctx NPROC NCPU) (a : Act NPROC ι Empty) (g : Ghost NPROC ι)
    (Q : Res a → Ghost NPROC ι → Prop) : Prop :=
  (kin initproc).Spec t a g Q

abbrev wp (initproc : Fin NPROC) (t : Ctx NPROC NCPU) {β : Type} (x : P NPROC ι Empty β)
    (Q : β → Ghost NPROC ι → Prop) (g : Ghost NPROC ι) : Prop :=
  (kin initproc).wp t x Q g

variable {s : State NPROC NCPU ι} {w' : World NPROC NCPU ι Empty}
  {γ : Ctx NPROC NCPU → Ghost NPROC ι} {t : Ctx NPROC NCPU} {g g' : Ghost NPROC ι}
  {p q : Fin NPROC} {initproc : Fin NPROC} {a : Act NPROC ι Empty} {l : Lock NPROC ι Empty}
  {h : Hold NPROC} {k : Grip NPROC ι} {v : Proc NPROC ι Empty}

/-- A rule for a thread that is not in `sched`. -/
lemma spec_of {Q : Res a → Ghost NPROC ι → Prop} (haway : g.away = false) (hm : May a g)
    (hstep : ∀ (s : State NPROC NCPU ι) γ fail w' r, Inv s initproc γ → γ t = g →
      step t fail a s.1 = some (.ok w' r) →
      ∃ g', Inv (w', watch t a r s.1 s.2) initproc (Function.update γ t g') ∧ Q r g') :
    Spec initproc t a g Q := by
  refine ⟨hm, fun s γ fail hi hg o ho => ?_⟩
  change Inv s initproc γ at hi
  cases o with
  | panic msg => trivial
  | ok s' r =>
    obtain ⟨w', h'⟩ := s'
    obtain ⟨hsem, hh⟩ := observe_ok.mp ho
    dsimp only at hsem hh
    subst hh
    have hhere : Here t s.1 := fun p hp => by
      rw [(hi.each t).here p hp, hg]
      exact haway
    replace hsem : Coarse.sem t a fail s.1 = some (.ok w' r) := hsem
    rw [sem_of_here hhere] at hsem
    exact hstep s γ fail w' r hi hg hsem

/-! ### Steps that change nothing that is known -/

/-- Actions on locks other than `wait_lock` and the processes' own, and what touches no process. -/
def Idle : Act NPROC ι Empty → Prop
  | .acquire l | .release l => l ≠ .wait ∧ ∀ q, l ≠ .proc q
  | .myproc | .intrOn | .intrOff | .checkSched _ | .setIntena _ | .takePid => True
  | _ => False

omit [DecidableEq ι] in
lemma idle_may (ha : Idle a) : May a g := by
  cases a with
  | set q f => exact ha.elim
  | _ => trivial

lemma idle_watch {r : Res a} {w : World NPROC NCPU ι Empty} {h : History NPROC ι} (ha : Idle a) :
    watch t a r w h = h := by
  cases t with
  | sched c => rfl
  | proc p =>
    cases a with
    | acquire l =>
      cases l with
      | proc q => exact absurd rfl (ha.2 q)
      | _ => rfl
    | set q f => exact ha.elim
    | fails => exact ha.elim
    | _ => rfl

/-- The shared part of such a step. -/
lemma idle_step {fail : Bool} {r : Res a} (ha : Idle a) (hs : step t fail a s.1 = some (.ok w' r)) :
    w'.proc = s.1.proc ∧ w'.fresh = s.1.fresh ∧ w'.away = s.1.away ∧
      (∀ u l, u ≠ t → s.1.lock l = some u → w'.lock l = some u) ∧
      ∀ l, l = .wait ∨ (∃ q, l = .proc q) → w'.lock l = s.1.lock l := by
  cases a with
  | acquire l =>
    obtain ⟨hnone, rfl⟩ := acquire_ok hs
    refine ⟨rfl, rfl, rfl, fun u l' hu hl => ?_, fun l' hl => ?_⟩
    · have hne : l' ≠ l := by
        rintro rfl
        rw [hnone] at hl
        cases hl
      simpa [setLock, hne] using hl
    · have hne : l' ≠ l := by
        rintro rfl
        exact hl.elim ha.1 fun h => ha.2 _ h.choose_spec
      simp [setLock, hne]
  | release l =>
    obtain ⟨hown, rfl⟩ := release_ok hs
    refine ⟨rfl, rfl, rfl, fun u l' hu hl => ?_, fun l' hl => ?_⟩
    · have hne : l' ≠ l := by
        rintro rfl
        rw [hown] at hl
        exact hu (Option.some.inj hl).symm
      simpa [setLock, hne] using hl
    · have hne : l' ≠ l := by
        rintro rfl
        exact hl.elim ha.1 fun h => ha.2 _ h.choose_spec
      simp [setLock, hne]
  | checkSched q =>
    simp only [step] at hs
    split_ifs at hs <;> cases hs
    exact ⟨rfl, rfl, rfl, fun _ _ _ h => h, fun _ _ => rfl⟩
  | myproc | intrOn | intrOff | setIntena b | takePid =>
    cases hs
    exact ⟨rfl, rfl, rfl, fun _ _ _ h => h, fun _ _ => rfl⟩
  | _ => exact ha.elim

lemma idle_inv {fail : Bool} {r : Res a} (ha : Idle a) (hi : Inv s initproc γ) (hg : γ t = g)
    (hs : step t fail a s.1 = some (.ok w' r)) :
    Inv (w', watch t a r s.1 s.2) initproc (Function.update γ t g) := by
  rw [idle_watch ha]
  obtain ⟨hproc, hfresh, haway, hlock, hkeep⟩ := idle_step ha hs
  have hq : Quiet t s (w', s.2) := ⟨hproc, hfresh, haway, hlock, s.2.last, rfl, fun _ _ => rfl⟩
  have hl := hi.each t
  rw [hg] at hl
  refine hi.quiet hg hq (hl.quiet (H := g.hold) (K := g.grip) hq (fun h hh => ?_) (fun k hk => ?_) hl.falling
    hl.gone) rfl rfl (fun h hh ho => .inl ⟨h, hh, ho⟩) (fun h p hh hp => .inl ⟨h, hh, hp⟩)
    fun k hk hf => ⟨k, hk, rfl, hf⟩
  · exact (hl.hold h hh).quiet hq ((hkeep _ (.inl rfl)).trans (hl.hold h hh).lock)
  · exact (hl.grip k hk).quiet hq ((hkeep _ (.inr ⟨_, rfl⟩)).trans (hl.grip k hk).lock) fun _ _ => rfl

lemma spec_idle (haway : g.away = false) (ha : Idle a) : Spec initproc t a g fun _ g' => g' = g :=
  spec_of haway (idle_may ha) fun _ _ _ _ _ hi hg hs => ⟨g, idle_inv ha hi hg hs, rfl⟩

lemma spec_myproc (haway : g.away = false) :
    Spec initproc t .myproc g fun r g' => (∀ p, r = some p ↔ t = .proc p) ∧ g' = g := by
  refine spec_of haway trivial fun s γ fail w' r hi hg hs => ⟨g, idle_inv trivial hi hg hs, ?_, rfl⟩
  cases hs
  cases t with
  | sched c => simp
  | proc u => simp

lemma spec_panic {msg : String} {Q : Empty → Ghost NPROC ι → Prop} :
    Spec initproc t (.panic msg) g Q := by
  refine ⟨trivial, fun s γ fail _ _ o ho => ?_⟩
  cases o with
  | panic m => trivial
  | ok s' r => exact r.elim

/-! ### The locks -/

/-- A thread that has just acquired `wait_lock`. -/
def newly : Hold NPROC := ⟨none, fun _ => False, fun _ => False, none, false⟩

lemma spec_acquire_wait (haway : g.away = false) (hawake : g.phase = .awake) :
    Spec initproc t (.acquire .wait) g fun _ g' => g' = { g with hold := some newly } := by
  refine spec_of haway trivial fun s γ fail w' r hi hg hs => ⟨_, ?_, rfl⟩
  have hw : watch t (.acquire .wait) r s.1 s.2 = s.2 := by cases t <;> rfl
  rw [hw]
  obtain ⟨hnone, rfl⟩ := acquire_ok hs
  have hl := hi.each t
  rw [hg] at hl
  have hkeep : ∀ l, l ≠ .wait → (setLock .wait (some t) s.1).lock l = s.1.lock l := fun l hl => by
    simp [setLock, hl]
  have hfree : ∀ h, g.hold ≠ some h := by
    intro h hh
    rw [(hl.hold h hh).lock] at hnone
    cases hnone
  have hq : Quiet t s (setLock .wait (some t) s.1, s.2) := by
    refine ⟨rfl, rfl, rfl, fun u l hu hlock => ?_, s.2.last, rfl, fun _ _ => rfl⟩
    have hne : l ≠ .wait := by
      rintro rfl
      rw [hnone] at hlock
      cases hlock
    exact (hkeep l hne).trans hlock
  refine hi.quiet hg hq (hl.quiet (H := some newly) (K := g.grip) hq (fun h hh => ?_) (fun k hk => ?_)
    hl.falling fun p _ hg => by rw [hawake] at hg; cases hg) rfl rfl (fun h hh => absurd hh (hfree h))
    (fun h p hh hp => ?_)
    fun k hk hf => ⟨k, hk, rfl, hf⟩
  · cases hh
    exact ⟨by simp [setLock], by simp [newly], by simp [newly], by simp [newly]⟩
  · exact (hl.grip k hk).quiet hq ((hkeep _ (by simp)).trans (hl.grip k hk).lock) fun _ _ => rfl
  · cases hh
    cases hp

/-- The lock of a process, by a thread that holds no other of its kind. -/
lemma spec_acquire_proc (haway : g.away = false) (hawake : g.phase = .awake) (hgrip : g.grip = none) :
    Spec initproc t (.acquire (.proc q)) g fun _ g' => g' = { g with grip := some ⟨q, none, false⟩ } := by
  refine spec_of haway trivial fun s γ fail w' r hi hg hs => ⟨_, ?_, rfl⟩
  obtain ⟨hnone, rfl⟩ := acquire_ok hs
  have hl := hi.each t
  rw [hg] at hl
  have hkeep : ∀ l, l ≠ .proc q → (setLock (.proc q) (some t) s.1).lock l = s.1.lock l := fun l hl => by
    simp [setLock, hl]
  obtain ⟨last, hw, hother, hlast⟩ : ∃ last,
      watch t (.acquire (.proc q)) r s.1 s.2 = { s.2 with last := last } ∧
        (∀ p, t ≠ .proc p → last p = s.2.last p) ∧ ∀ p, t = .proc p → last p = some q := by
    cases t with
    | sched c => exact ⟨s.2.last, rfl, fun _ _ => rfl, fun p hp => by cases hp⟩
    | proc u =>
      refine ⟨Function.update s.2.last u (some q), rfl, fun p hp => ?_, fun p hp => ?_⟩
      · rw [Function.update_of_ne]
        rintro rfl
        exact hp rfl
      · cases hp
        rw [Function.update_self]
  rw [hw]
  have hq : Quiet t s (setLock (.proc q) (some t) s.1, { s.2 with last := last }) := by
    refine ⟨rfl, rfl, rfl, fun u l hu hlock => ?_, last, rfl, hother⟩
    have hne : l ≠ .proc q := by
      rintro rfl
      rw [hnone] at hlock
      cases hlock
    exact (hkeep l hne).trans hlock
  refine hi.quiet hg hq (hl.quiet (H := g.hold) (K := some ⟨q, none, false⟩) hq (fun h hh => ?_)
    (fun k hk => ?_) (fun p b hp hb => by rw [hawake] at hb; cases hb)
    fun p _ hg => by rw [hawake] at hg; cases hg) rfl rfl
    (fun h hh ho => .inl ⟨h, hh, ho⟩) (fun h p hh hp => .inl ⟨h, hh, hp⟩) fun k hk hf => ?_
  · exact (hl.hold h hh).quiet hq ((hkeep _ (by simp)).trans (hl.hold h hh).lock)
  · cases hk
    exact ⟨by simp [setLock], fun p hp _ => hlast p hp, by simp, by simp⟩
  · rw [hgrip] at hk
    cases hk

/-- A release changes nothing but the lock. -/
lemma release_quiet {fail : Bool} {r : Res (.release l : Act NPROC ι Empty)}
    (hs : step t fail (.release l) s.1 = some (.ok w' r)) :
    watch t (.release l) r s.1 s.2 = s.2 ∧ Quiet t s (w', s.2) ∧
      ∀ l', l' ≠ l → w'.lock l' = s.1.lock l' := by
  obtain ⟨hown, rfl⟩ := release_ok hs
  refine ⟨by cases t <;> rfl, ⟨rfl, rfl, rfl, fun u l' hu hlock => ?_, s.2.last, rfl, fun _ _ => rfl⟩,
    fun l' hl => by simp [setLock, hl]⟩
  have hne : l' ≠ l := by
    rintro rfl
    rw [hown] at hlock
    exact hu (Option.some.inj hlock).symm
  simpa [setLock, hne] using hlock

/-- `wait_lock` is released by a thread that owes nobody a wakeup. -/
lemma spec_release_wait (haway : g.away = false) (hhold : g.hold = some h) (howes : h.owes = false) :
    Spec initproc t (.release .wait) g fun _ g' => g' = { g with hold := none } := by
  refine spec_of haway trivial fun s γ fail w' r hi hg hs => ⟨_, ?_, rfl⟩
  obtain ⟨hw, hq, hkeep⟩ := release_quiet hs
  rw [hw]
  have hl := hi.each t
  rw [hg] at hl
  refine hi.quiet hg hq (hl.quiet (H := none) (K := g.grip) hq (fun h hh => by cases hh) (fun k hk => ?_)
    hl.falling fun p hp hg => ?_) rfl rfl (fun h' hh ho => ?_) (fun h p hh => by cases hh)
    fun k hk hf => ⟨k, hk, rfl, hf⟩
  · exact (hl.grip k hk).quiet hq ((hkeep _ (by simp)).trans (hl.grip k hk).lock) fun _ _ => rfl
  · rcases hl.gone p hp hg with h | ⟨h1, h2, h3⟩
    · exact .inl h
    · exact .inr ⟨h1, rfl, h3⟩
  · obtain rfl := Option.some.inj (hhold.symm.trans hh)
    rw [howes] at ho
    cases ho

/-- It is released in `sleep`, by a process whose children are no zombies. -/
lemma spec_release_fall (haway : g.away = false) (hhold : g.hold = some h) (howes : h.owes = false)
    (hscan : ∀ q, h.scanned q) (hawake : g.phase = .awake) (hgrip : g.grip = some k)
    (hslot : k.slot = p) :
    Spec initproc (.proc p : Ctx NPROC NCPU) (.release .wait) g
      fun _ g' => g' = { g with hold := none, phase := .falling false } := by
  refine spec_of haway trivial fun s γ fail w' r hi hg hs => ⟨_, ?_, rfl⟩
  have hlock := (release_ok hs).1
  obtain ⟨hw, hq, hkeep⟩ := release_quiet hs
  rw [hw]
  have hproc : w'.proc = s.1.proc := hq.proc
  have hl := hi.each (.proc p)
  rw [hg] at hl
  have hphase := hl.phase p rfl
  rw [hawake] at hphase
  have hlocal := hl.quiet (H := none) (K := g.grip) hq (fun h hh => by cases hh)
    (fun k hk => (hl.grip k hk).quiet hq ((hkeep _ (by simp)).trans (hl.grip k hk).lock) fun _ _ => rfl)
    hl.falling fun u _ hg => by rw [hawake] at hg; cases hg
  refine hi.step hg hq.rely ?_ (Tree.step hi hg (fun m hm => .inl ⟨m, hm, rfl⟩) (fun q p h => ?_)
    (fun p h => ?_) (fun q h => ?_) (fun p _ h => ?_) (fun p hp _ => ?_) (fun p q h1 h2 => ?_)
    (fun h' h1 h2 => ?_) fun h p h1 => by cases h1) (Book.step hi hg rfl rfl rfl
    (fun q p h => ?_) (fun q h => ?_) (fun q i _ => ?_) fun k h1 h2 => .inl ⟨k, h1, rfl, h2⟩)
  · refine { hlocal with
      phase := fun u hu => ?_
      falling := fun u b hu _ => ?_
      kids := fun u k addr hu hk => by cases hk
      gone := fun u hu hg => by cases hg }
    · cases hu
      refine ⟨?_, ?_, by simp⟩
      · rw [hq.proc]
        exact hphase.1
      · rw [hq.fresh]
        exact hphase.2
    · cases hu
      exact ⟨k, hgrip, hslot⟩
  · rw [hq.proc] at h
    exact .inl h
  · left
    simpa only [Alive, hproc] using h
  · rw [hq.proc] at h ⊢
    exact hi.tree.unused q h
  · rwa [hq.proc] at h
  · cases hp
    refine .inr ⟨hlock, rfl, fun q h1 h2 => ?_⟩
    rw [hq.proc] at h1 h2
    exact (hl.hold h hhold).scanned p q rfl (hscan q) ⟨h1, h2⟩
  · rw [hq.proc] at h1 h2
    exact .inl ⟨h1, h2⟩
  · obtain rfl := Option.some.inj (hhold.symm.trans h1)
    rw [howes] at h2
    cases h2
  · rw [hq.proc] at h
    exact .inl ⟨h, rfl⟩
  · rwa [hq.proc] at h
  · rw [hq.proc]
    exact ⟨rfl, rfl, rfl⟩

omit [DecidableEq ι] in
/-- A process that is seen not to sleep in `kwait` does not, nor is it about to. -/
lemma not_committed (hi : Inv s initproc γ) (hg : γ t = g) (hgrip : g.grip = some k)
    (hawake : g.phase = .awake) (hseen : k.seen = some v)
    (hv : ¬(v.state = .sleeping ∧ v.chan = some (.proc k.slot))) (hphase : g'.phase = g.phase) :
    ¬ Committed s k.slot (Function.update γ t g' (.proc k.slot)) := by
  intro hc
  have hl := hi.each t
  rw [hg] at hl
  have hk := hl.grip k hgrip
  by_cases ht : t = .proc k.slot
  · rw [← ht, Function.update_self, Committed, hphase, hawake] at hc
    simp at hc
  · rw [update_proc ht] at hc
    have hu := hi.each (.proc k.slot)
    rcases hc with ⟨b, hb⟩ | ⟨hb, hstate⟩
    · obtain ⟨k', hk', hslot⟩ := hu.falling k.slot b rfl hb
      have hlock := (hu.grip k' hk').lock
      rw [hslot, hk.lock] at hlock
      exact ht (Option.some.inj hlock)
    · have hphase := hu.phase k.slot rfl
      rw [hb] at hphase
      obtain ⟨h1, h2, -⟩ := hk.seen v hseen
      exact hv ⟨h1.symm.trans hstate, h2.symm.trans (hphase.2.2 rfl)⟩

/-- After the visit of `wakeup` to process `q`. -/
def inform (initproc q : Fin NPROC) (h : Hold NPROC) : Hold NPROC :=
  { h with told := some q, owes := h.owes && decide (q ≠ initproc) }

lemma release_proc_inv {fail : Bool} {r : Res (.release (.proc q) : Act NPROC ι Empty)}
    {H : Option (Hold NPROC)} (hi : Inv s initproc γ) (hg : γ t = g)
    (hs : step t fail (.release (.proc q)) s.1 = some (.ok w' r)) (hawake : g.phase = .awake)
    (hgrip : g.grip = some k) (hslot : k.slot = q) (hfree : k.freeing = false)
    (hH : H = g.hold ∨ ∃ h, g.hold = some h ∧ H = some (inform initproc q h) ∧
      ∃ v, k.seen = some v ∧ ¬(v.state = .sleeping ∧ v.chan = some (.proc q))) :
    Inv (w', watch t (.release (.proc q)) r s.1 s.2) initproc
      (Function.update γ t { g with hold := H, grip := none }) := by
  obtain ⟨hw, hq, hkeep⟩ := release_quiet hs
  rw [hw]
  have hl := hi.each t
  rw [hg] at hl
  have hwas : ∀ h, H = some h → ∃ h', g.hold = some h' ∧ h.kin = h'.kin ∧ h.scanned = h'.scanned ∧
      h.orphaned = h'.orphaned := by
    rintro h rfl
    rcases hH with hH | ⟨h', hh', hH, -⟩
    · exact ⟨h, hH.symm, rfl, rfl, rfl⟩
    · cases hH
      exact ⟨h', hh', rfl, rfl, rfl⟩
  have hnot : ∀ v, k.seen = some v → ¬(v.state = .sleeping ∧ v.chan = some (.proc q)) →
      ¬ Committed s q (Function.update γ t { g with hold := H, grip := none } (.proc q)) := by
    intro v hv hne
    subst hslot
    exact not_committed hi hg hgrip hawake hv hne rfl
  refine hi.quiet hg hq (hl.quiet hq (fun h hh => ?_) (fun k hk => by cases hk) (fun p b hp hb => ?_)
    fun p _ hg => by rw [hawake] at hg; cases hg) rfl rfl (fun h hh ho => ?_) (fun h p hh hp => ?_) fun k' hk' hf => ?_
  · obtain ⟨h', hh', h1, h2, h3⟩ := hwas h hh
    have hok := (hl.hold h' hh').quiet hq ((hkeep _ (by simp)).trans (hl.hold h' hh').lock)
    refine ⟨hok.lock, ?_, ?_, ?_⟩
    · rw [h1]
      exact hok.kin
    · rw [h2]
      exact hok.scanned
    · rw [h3]
      exact hok.orphaned
  · rw [hawake] at hb
    cases hb
  · rcases hH with rfl | ⟨h', hh', rfl, v, hv, hne⟩
    · exact .inl ⟨h, hh, ho⟩
    · obtain rfl := Option.some.inj (hh.symm.trans hh')
      by_cases hq : q = initproc
      · subst hq
        exact .inr (hnot v hv hne)
      · exact .inl ⟨_, rfl, by simp [inform, ho, hq]⟩
  · rcases hH with rfl | ⟨h', hh', rfl, v, hv, hne⟩
    · exact .inl ⟨h, hh, hp⟩
    · cases hh
      cases hp
      exact .inr (hnot v hv hne)
  · obtain rfl := Option.some.inj (hgrip.symm.trans hk')
    rw [hfree] at hf
    cases hf

lemma spec_release_proc (haway : g.away = false) (hawake : g.phase = .awake) (hgrip : g.grip = some k)
    (hslot : k.slot = q) (hfree : k.freeing = false) :
    Spec initproc t (.release (.proc q)) g fun _ g' => g' = { g with grip := none } :=
  spec_of haway trivial fun _ _ _ _ _ hi hg hs =>
    ⟨_, release_proc_inv hi hg hs hawake hgrip hslot hfree (.inl rfl), rfl⟩

/-- The process was not asleep on itself, so it has been told. -/
lemma spec_release_told (haway : g.away = false) (hawake : g.phase = .awake) (hgrip : g.grip = some k)
    (hslot : k.slot = q) (hfree : k.freeing = false) (hhold : g.hold = some h) (hseen : k.seen = some v)
    (hv : ¬(v.state = .sleeping ∧ v.chan = some (.proc q))) :
    Spec initproc t (.release (.proc q)) g
      fun _ g' => g' = { g with hold := some (inform initproc q h), grip := none } :=
  spec_of haway trivial fun _ _ _ _ _ hi hg hs =>
    ⟨_, release_proc_inv hi hg hs hawake hgrip hslot hfree (.inr ⟨h, hhold, rfl, v, hseen, hv⟩), rfl⟩

/-- A process is not asleep while it calls `wakeup`. -/
lemma spec_myproc_told (haway : g.away = false) (hawake : g.phase = .awake) (hhold : g.hold = some h) :
    Spec initproc (.proc p : Ctx NPROC NCPU) .myproc g
      fun r g' => r = some p ∧ g' = { g with hold := some (inform initproc p h) } := by
  refine spec_of haway trivial fun s γ fail w' r hi hg hs => ⟨_, ?_, ?_, rfl⟩
  swap
  · cases hs
    rfl
  have hidle : Idle (.myproc : Act NPROC ι Empty) := trivial
  obtain ⟨hproc, hfresh, haway, hlock, hkeep⟩ := idle_step hidle hs
  rw [idle_watch hidle]
  have hq : Quiet (.proc p) s (w', s.2) := ⟨hproc, hfresh, haway, hlock, s.2.last, rfl, fun _ _ => rfl⟩
  have hl := hi.each (.proc p)
  rw [hg] at hl
  have hnot : ∀ x : Ghost NPROC ι, x.phase = g.phase →
      ¬ Committed s p (Function.update γ (.proc p) x (.proc p)) := by
    intro x hx hc
    rw [Function.update_self, Committed, hx, hawake] at hc
    simp at hc
  refine hi.quiet hg hq (hl.quiet (H := some (inform initproc p h)) (K := g.grip) hq (fun x hx => ?_)
    (fun k hk => ?_) hl.falling fun u _ hg => by rw [hawake] at hg; cases hg) rfl rfl
    (fun x hx ho => ?_) (fun x u hx hu => ?_)
    fun k hk hf => ⟨k, hk, rfl, hf⟩
  · cases hx
    have hok := (hl.hold h hhold).quiet hq ((hkeep _ (.inl rfl)).trans (hl.hold h hhold).lock)
    exact ⟨hok.lock, hok.kin, hok.scanned, hok.orphaned⟩
  · exact (hl.grip k hk).quiet hq ((hkeep _ (.inr ⟨_, rfl⟩)).trans (hl.grip k hk).lock) fun _ _ => rfl
  · obtain rfl := Option.some.inj (hhold.symm.trans hx)
    by_cases hp : p = initproc
    · subst hp
      exact .inr (hnot _ rfl)
    · exact .inl ⟨_, rfl, by simp [inform, ho, hp]⟩
  · cases hx
    cases hu
    exact .inr (hnot _ rfl)

/-! ### Reads -/

/-- What is known of the process whose lock is held, after a look at process `q`. -/
def Grip.look (q : Fin NPROC) (v : Proc NPROC ι Empty) (k : Grip NPROC ι) : Grip NPROC ι :=
  if k.slot = q then { k with seen := some v } else k

/-- What is known under `wait_lock`. -/
def Hold.look (t : Ctx NPROC NCPU) (q : Fin NPROC) (v : Proc NPROC ι Empty) (h : Hold NPROC) :
    Hold NPROC :=
  { h with
    kin := some (q, v.parent)
    scanned := fun x => h.scanned x ∨
      x = q ∧ ∀ p, t = .proc p → ¬(v.parent = some p ∧ v.state = .zombie)
    orphaned := fun x => h.orphaned x ∨ x = q ∧ ∀ p, t = .proc p → v.parent ≠ some p }

lemma look_inv {H : Option (Hold NPROC)} (hi : Inv s initproc γ) (hg : γ t = g)
    (hH : H = g.hold ∨ H = g.hold.map (Hold.look t q (s.1.proc q))) :
    Inv (s.1, watch t (.get q) (s.1.proc q) s.1 s.2) initproc
      (Function.update γ t { g with hold := H, grip := g.grip.map (Grip.look q (s.1.proc q)) }) := by
  have hw : watch t (.get q) (s.1.proc q) s.1 s.2 = s.2 := by cases t <;> rfl
  rw [hw]
  have hl := hi.each t
  rw [hg] at hl
  have hq : Quiet t s (s.1, s.2) := ⟨rfl, rfl, rfl, fun _ _ _ h => h, s.2.last, rfl, fun _ _ => rfl⟩
  have hwas : ∀ h, H = some h → ∃ h', g.hold = some h' ∧ h.told = h'.told ∧ HoldOk s t h := by
    intro h hh
    rcases hH with rfl | rfl
    · exact ⟨h, hh, rfl, hl.hold h hh⟩
    · obtain ⟨x, hx, rfl⟩ := Option.map_eq_some_iff.mp hh
      have hok := hl.hold x hx
      refine ⟨x, hx, rfl, hok.lock, fun u o hu => ?_, fun p u hp hu => ?_, fun p u hp hu => ?_⟩
      · cases hu
        rfl
      · rcases hu with hu | ⟨rfl, hu⟩
        · exact hok.scanned p u hp hu
        · exact hu p hp
      · rcases hu with hu | ⟨rfl, hu⟩
        · exact hok.orphaned p u hp hu
        · exact hu p hp
  have hslot : ∀ k : Grip NPROC ι, (Grip.look q (s.1.proc q) k).slot = k.slot ∧
      (Grip.look q (s.1.proc q) k).freeing = k.freeing := by
    intro k
    unfold Grip.look
    split_ifs <;> exact ⟨rfl, rfl⟩
  refine hi.quiet hg hq (hl.quiet hq (fun h hh => ?_) (fun k hk => ?_) (fun p b hp hb => ?_)
    fun p hp hg => ?_) rfl rfl (fun h hh ho => .inl ?_) (fun h p hh hp => ?_)
    fun k hk hf => ⟨Grip.look q (s.1.proc q) k, by simp [hk], (hslot k).1, (hslot k).2.trans hf⟩
  · obtain ⟨-, -, -, hok⟩ := hwas h hh
    exact hok
  · obtain ⟨x, hx, rfl⟩ := Option.map_eq_some_iff.mp hk
    have hok := hl.grip x hx
    unfold Grip.look
    split_ifs with hx
    · refine ⟨hok.lock, hok.last, fun v hv => ?_, hok.freeing⟩
      cases hv
      rw [← hx]
      exact ⟨rfl, rfl, rfl⟩
    · exact hok
  · obtain ⟨k, hk, hkp⟩ := hl.falling p b hp hb
    exact ⟨Grip.look q (s.1.proc q) k, by simp [hk], (hslot k).1.trans hkp⟩
  · rcases hl.gone p hp hg with ⟨k, hk, hkp⟩ | ⟨h1, h2, h3⟩
    · exact .inl ⟨Grip.look q (s.1.proc q) k, by simp [hk], (hslot k).1.trans hkp⟩
    · refine .inr ⟨by simp [h1], ?_, h3⟩
      rcases hH with rfl | rfl
      · exact h2
      · simp [h2]
  · rcases hH with rfl | rfl
    · exact ⟨h, hh, ho⟩
    · exact ⟨Hold.look t q (s.1.proc q) h, by simp [hh], ho⟩
  · obtain ⟨h', hh', htold, -⟩ := hwas h hh
    exact .inl ⟨h', hh', htold ▸ hp⟩

/-- A look at a process whose lock is held. -/
lemma spec_get_grip (haway : g.away = false) :
    Spec initproc t (.get q) g fun r g' => g' = { g with grip := g.grip.map (Grip.look q r) } := by
  refine spec_of haway trivial fun s γ fail w' r hi hg hs => ⟨_, ?_, rfl⟩
  cases hs
  exact look_inv hi hg (.inl rfl)

/-- A look at a process under `wait_lock`. -/
lemma spec_get (haway : g.away = false) (hhold : g.hold = some h) :
    Spec initproc t (.get q) g fun r g' =>
      g' = { g with hold := some (Hold.look t q r h), grip := g.grip.map (Grip.look q r) } ∧
        ∀ o, h.kin = some (q, o) → r.parent = o := by
  refine spec_of haway trivial fun s γ fail w' r hi hg hs => ?_
  cases hs
  refine ⟨_, look_inv hi hg (.inr (by rw [hhold]; rfl)), rfl, fun o hk => ?_⟩
  have hl := hi.each t
  rw [hg] at hl
  exact (hl.hold h hhold).kin q o hk

/-! ### The history of calls -/

omit [DecidableEq ι] in
/-- The history of the call of a process is brought up to date. -/
lemma call_inv {c : Family.Call NPROC ι} (hi : Inv s initproc γ) (hg : γ (.proc p) = g)
    (hawake : g.phase = .awake)
    (hfailed : ∀ q, c.failed = some q → (s.1.proc q).state = .zombie ∧ (s.1.proc q).parent = some p)
    (hgot : ∀ n, c.got = some n → ∃ r, s.2.reaps[n]? = some r ∧ r.reaper = p ∧ r.pid = g.pid) :
    Inv (s.1, s.2.setCall p c) initproc (Function.update γ (.proc p) { g with call := c }) := by
  have hl := hi.each (.proc p)
  rw [hg] at hl
  have hr : Rely (.proc p) g.mine s (s.1, s.2.setCall p c) := by
    refine ⟨fun _ _ _ h => h, fun _ _ => rfl, fun _ _ _ h => h, fun _ _ _ _ => ⟨rfl, rfl, rfl, rfl⟩,
      fun _ _ _ _ => ⟨rfl, id⟩, fun _ _ h => ⟨h.used, h.ready, h.adopted⟩, fun u hu => ⟨?_, rfl⟩,
      fun _ _ _ h1 h2 => ⟨h1, h2⟩, fun _ _ h => h⟩
    refine Function.update_of_ne ?_ _ _
    rintro rfl
    exact hu rfl
  have hhold : ∀ h, g.hold = some h → HoldOk (s.1, s.2.setCall p c) (.proc p) h := fun h hh =>
    ⟨(hl.hold h hh).lock, (hl.hold h hh).kin, (hl.hold h hh).scanned, (hl.hold h hh).orphaned⟩
  have hgrip : ∀ k, g.grip = some k → GripOk (s.1, s.2.setCall p c) (.proc p) k := fun k hk =>
    ⟨(hl.grip k hk).lock, (hl.grip k hk).last, (hl.grip k hk).seen, (hl.grip k hk).freeing⟩
  have hmaking : ∀ m, g.making = some m → MakingOk (s.1, s.2.setCall p c) m := fun m hm =>
    ⟨(hl.making m hm).used, (hl.making m hm).ready, (hl.making m hm).adopted⟩
  refine hi.step hg hr ⟨hl.here, hl.phase, hl.falling, fun u k addr hu hk => ?_, hhold, hgrip,
    hmaking, fun u hu => ?_, fun u q hu hq => ?_, fun u n hu hn => ?_, hl.gone⟩
    (Tree.step hi hg (fun m hm => .inl ⟨m, hm, rfl⟩) (fun _ _ h => .inl h) (fun _ h => .inl h)
      hi.tree.unused (fun _ _ h => h) (fun _ _ h => .inl h) (fun _ _ h1 h2 => .inl ⟨h1, h2⟩)
      (fun h h1 h2 => .inl ⟨h, h1, h2⟩) fun h u h1 h2 => .inl ⟨h, h1, h2⟩)
    (Book.step hi hg rfl rfl rfl (fun _ _ h => .inl ⟨h, rfl⟩) (fun _ h => h)
      (fun _ _ _ => ⟨rfl, rfl, rfl⟩) fun k h1 h2 => .inl ⟨k, h1, rfl, h2⟩)
  · rw [hawake] at hk
    cases hk
  · cases hu
    exact Function.update_self ..
  · cases hu
    exact hfailed q hq
  · cases hu
    exact hgot n hn

lemma spec_fails (haway : g.away = false) (hreq : g.call.req ≠ some (.wait true)) :
    Spec initproc (.proc p : Ctx NPROC NCPU) .fails g fun _ g' => g' = g := by
  refine spec_of haway trivial fun s γ fail w' r hi hg hs => ⟨g, ?_, rfl⟩
  cases hs
  have hl := hi.each (.proc p)
  rw [hg] at hl
  have hw : watch (.proc p : Ctx NPROC NCPU) .fails fail s.1 s.2 = s.2 := by
    simp only [watch, note, hl.call p rfl, hreq, and_false, if_false]
  rw [hw, update_of_eq hg]
  exact hi

/-- Copying out the status of a zombie, which is the caller's child. -/
lemma spec_fails_reap {addr : Bool} (haway : g.away = false) (hawake : g.phase = .awake)
    (hcall : g.call = ⟨some (.wait addr), none, none⟩) (hgrip : g.grip = some k)
    (hseen : k.seen = some v) (hzombie : v.state = .zombie) (hhold : g.hold = some h)
    (hkin : h.kin = some (k.slot, some p)) :
    Spec initproc (.proc p : Ctx NPROC NCPU) .fails g fun r g' =>
      g' = if (addr && r) = true then { g with call := ⟨some (.wait addr), some k.slot, none⟩ } else g := by
  refine spec_of haway trivial fun s γ fail w' r hi hg hs => ⟨_, ?_, rfl⟩
  cases hs
  have hl := hi.each (.proc p)
  rw [hg] at hl
  have hk := hl.grip k hgrip
  have hkid : (s.1.proc k.slot).state = .zombie ∧ (s.1.proc k.slot).parent = some p :=
    ⟨(hk.seen v hseen).1.trans hzombie, (hl.hold h hhold).kin _ _ hkin⟩
  have hne : k.slot ≠ p := by
    intro hp
    have hphase := hl.phase p rfl
    rw [hawake, PhaseOk, ← hp, hkid.1] at hphase
    simp at hphase
  by_cases hboth : (addr && fail) = true
  · simp only [Bool.and_eq_true] at hboth
    obtain ⟨rfl, rfl⟩ := hboth
    have hw : watch (.proc p : Ctx NPROC NCPU) .fails true s.1 s.2 =
        s.2.setCall p ⟨some (.wait true), some k.slot, none⟩ := by
      simp [watch, note, hl.call p rfl, hcall, hk.last p rfl hne]
    rw [hw]
    refine call_inv hi hg hawake (fun q hq => ?_) fun n hn => by cases hn
    cases hq
    exact hkid
  · have hw : watch (.proc p : Ctx NPROC NCPU) .fails fail s.1 s.2 = s.2 := by
      simp only [watch, note, hl.call p rfl, hcall]
      cases addr <;> cases fail <;> simp_all
    rw [hw, if_neg hboth, update_of_eq hg]
    exact hi

end Xv6.Proc.Rules
