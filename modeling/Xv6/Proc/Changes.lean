import Xv6.Proc.Rules

/-!
What each assignment to a process does to the protocol of `wait_lock`.
-/

namespace Xv6.Proc.Changes

open Xv6.Conc Xv6.Conc.Prog Xv6.Conc.Proto Xv6.Sched.Kernel Xv6.Proc.Coarse Xv6.Proc.Family Xv6.Proc.Kin
  Xv6.Proc.Deeds Xv6.Proc.Rules
open Xv6.Sched.Table hiding step sem setProc setLock

variable {NPROC NCPU : ℕ} {ι : Type} [DecidableEq ι] {s : State NPROC NCPU ι}
  {w' : World NPROC NCPU ι Empty} {γ : Ctx NPROC NCPU → Ghost NPROC ι} {t : Ctx NPROC NCPU}
  {g : Ghost NPROC ι} {p q : Fin NPROC} {initproc : Fin NPROC} {f : Field NPROC ι Empty}
  {h : Hold NPROC} {k : Grip NPROC ι} {v : Proc NPROC ι Empty} {m : Making NPROC}

/-- A rule for an assignment that the history does not record. -/
lemma spec_set {Q : Unit → Ghost NPROC ι → Prop} (haway : g.away = false) (hm : May (.set q f) g)
    (hw : ∀ (s : State NPROC NCPU ι) γ, Inv s initproc γ → γ t = g →
      watch t (.set q f) () s.1 s.2 = s.2)
    (hstep : ∀ (s s' : State NPROC NCPU ι) γ, Inv s initproc γ → γ t = g →
      Assign t q (f.write (s.1.proc q)) s s' → s'.2 = s.2 →
      ∃ g', Inv s' initproc (Function.update γ t g') ∧ Q () g') : Spec initproc t (.set q f) g Q := by
  refine spec_of haway hm fun s γ fail w' r hi hg hs => ?_
  cases hs
  have hsame := hw s γ hi hg
  refine hstep s _ γ hi hg ?_ hsame
  rw [hsame]
  exact ⟨rfl, rfl, rfl, rfl, rfl, fun _ _ => rfl, .inl rfl, fun _ _ h => h⟩

omit [DecidableEq ι] in
/-- A process that neither runs nor sleeps. -/
lemma phase_gone {ph : Phase} {s' : State NPROC NCPU ι} (h : PhaseOk s q ph)
    (hstate : (s.1.proc q).state = .unused ∨ (s.1.proc q).state = .used ∨
      (s.1.proc q).state = .zombie)
    (hs : (s'.1.proc q).state ≠ .running ∧ (s'.1.proc q).state ≠ .sleeping)
    (hfresh : (s'.1.proc q).state = .runnable → s'.1.fresh q = true) : PhaseOk s' q ph := by
  cases ph with
  | awake =>
    rcases hstate with h1 | h1 | h1 <;> rw [PhaseOk, h1] at h <;> simp at h
  | falling b =>
    rcases hstate with h1 | h1 | h1 <;> rw [PhaseOk, h1] at h <;> simp at h
  | asleep b =>
    rcases hstate with h1 | h1 | h1 <;> rw [PhaseOk, h1] at h <;> simp at h
  | gone => exact ⟨hs.1, hs.2, hfresh⟩

omit [DecidableEq ι] in
lemma phase_congr {ph : Phase} {s' : State NPROC NCPU ι} (h : PhaseOk s q ph)
    (hstate : (s'.1.proc q).state = (s.1.proc q).state) (hchan : (s'.1.proc q).chan = (s.1.proc q).chan)
    (hfresh : s'.1.fresh = s.1.fresh) : PhaseOk s' q ph := by
  cases ph <;> simpa only [PhaseOk, hstate, hchan, hfresh] using h

omit [DecidableEq ι] in
lemma phase_congr_awake {s' : State NPROC NCPU ι} (h : PhaseOk s q .awake)
    (hstate : (s'.1.proc q).state = (s.1.proc q).state) (hfresh : s'.1.fresh = s.1.fresh) :
    PhaseOk s' q .awake := by
  simpa only [PhaseOk, hstate, hfresh] using h

/-! ### Assignments that leave the state and the parent alone -/

lemma spec_killed {b : Bool} (haway : g.away = false) :
    Spec initproc t (.set q (.killed b)) g fun _ g' => g' = g := by
  refine spec_set haway trivial (fun s _ _ _ => by cases t <;> rfl) fun s s' γ hi hg ha hh =>
    ⟨g, ?_, rfl⟩
  have hl := hi.each t
  rw [hg] at hl
  have hphase : ∀ p ph, PhaseOk s p ph → PhaseOk s' p ph := fun p ph hp =>
    phase_congr hp (ha.field Proc.state rfl p) (ha.field Proc.chan rfl p) ha.fresh
  exact mild hi hg ha hh rfl rfl (.inl ⟨rfl, rfl⟩) (fun _ ph => hphase q ph) (fun _ _ => ⟨rfl, rfl⟩)
    (K := g.grip) (fun p hp => hphase p _ (hl.phase p hp)) (.inl rfl)
    (fun k hk => ha.grip_same (hl.grip k hk) (by rw [hh]) rfl rfl rfl) (fun k hk => ⟨k, hk, rfl, rfl⟩) id

/-- A process of which there is no corpse: it runs, or is being freed, or made. -/
def Bodiless (t : Ctx NPROC NCPU) (g : Ghost NPROC ι) (q : Fin NPROC) : Prop :=
  t = .proc q ∧ g.phase = .awake ∨ (∃ k, g.grip = some k ∧ k.slot = q ∧ k.freeing = true) ∨
    ∃ m, g.making = some m ∧ m.slot = q

omit [DecidableEq ι] in
lemma Bodiless.corpse (hb : Bodiless t g q) (hi : Inv s initproc γ) (hg : γ t = g) :
    s.2.corpse q = none := by
  have hl := hi.each t
  rw [hg] at hl
  have hstate : ∀ i, s.2.corpse q = some i → (s.1.proc q).state = .zombie := fun i hc =>
    (hi.book.corpse q i hc).1
  cases hc : s.2.corpse q with
  | none => rfl
  | some i =>
    have hz := hstate i hc
    rcases hb with ⟨ht, hawake⟩ | ⟨k, hk, rfl, hf⟩ | ⟨m, hm, rfl⟩
    · have hphase := hl.phase q ht
      rw [hawake, PhaseOk, hz] at hphase
      simp at hphase
    · rw [((hl.grip k hk).freeing hf).2] at hc
      cases hc
    · rw [(hl.making m hm).used] at hz
      cases hz

lemma spec_xstate {n : ℤ} (haway : g.away = false) (hb : Bodiless t g q) :
    Spec initproc t (.set q (.xstate n)) g fun _ g' => g' = g := by
  refine spec_set haway trivial (fun s _ _ _ => by cases t <;> rfl) fun s s' γ hi hg ha hh =>
    ⟨g, ?_, rfl⟩
  have hl := hi.each t
  rw [hg] at hl
  have hphase : ∀ p ph, PhaseOk s p ph → PhaseOk s' p ph := fun p ph hp =>
    phase_congr hp (ha.field Proc.state rfl p) (ha.field Proc.chan rfl p) ha.fresh
  refine mild hi hg ha hh rfl rfl (.inl ⟨rfl, rfl⟩) (fun _ ph => hphase q ph) (fun i hc => ?_)
    (K := g.grip) (fun p hp => hphase p _ (hl.phase p hp)) (.inl rfl)
    (fun k hk => ha.grip_same (hl.grip k hk) (by rw [hh]) rfl rfl rfl) (fun k hk => ⟨k, hk, rfl, rfl⟩) id
  rw [hb.corpse hi hg] at hc
  cases hc

/-- Process `q` is being freed: it is a zombie that the thread has begun to free, or one that the
thread was making. -/
def Doomed (g : Ghost NPROC ι) (q : Fin NPROC) : Prop :=
  ∃ k, g.grip = some k ∧ k.slot = q ∧
    (k.freeing = true ∨ ∃ m, g.making = some m ∧ m.slot = q ∧ m.adopted = false)

omit [DecidableEq ι] in
lemma Doomed.bodiless (hd : Doomed g q) : Bodiless t g q := by
  obtain ⟨k, hk, hslot, hf | ⟨m, hm, hmq, -⟩⟩ := hd
  · exact .inr (.inl ⟨k, hk, hslot, hf⟩)
  · exact .inr (.inr ⟨m, hm, hmq⟩)

omit [DecidableEq ι] in
lemma Doomed.state (hd : Doomed g q) (hl : Local s t g) :
    (s.1.proc q).state = .zombie ∨ (s.1.proc q).state = .used ∧ (s.1.proc q).parent = none := by
  obtain ⟨k, hk, rfl, hf | ⟨m, hm, hslot, ho⟩⟩ := hd
  · exact .inl ((hl.grip k hk).freeing hf).1
  · have hok := hl.making m hm
    rw [← hslot]
    exact .inr ⟨hok.used, hok.adopted ho⟩

/-- What was seen of the process whose lock is held is forgotten. -/
def blind (g : Ghost NPROC ι) : Ghost NPROC ι :=
  { g with grip := g.grip.map fun k => { k with seen := none } }

omit [DecidableEq ι] in
lemma grip_blind {s' : State NPROC NCPU ι} (ha : Assign t q v s s') (hl : Local s t g)
    (hh : s'.2.corpse = s.2.corpse) (hstate : v.state = (s.1.proc q).state) {k' : Grip NPROC ι}
    (hk : (blind g).grip = some k') : GripOk s' t k' := by
  obtain ⟨k, hwas, rfl⟩ := Option.map_eq_some_iff.mp hk
  have hok := hl.grip k hwas
  refine ⟨by rw [ha.lock]; exact hok.lock, fun p hp => by rw [ha.last]; exact hok.last p hp, by simp, ?_⟩
  change k.freeing = true → (s'.1.proc k.slot).state = .zombie ∧ s'.2.corpse k.slot = none
  rw [ha.field Proc.state hstate, hh]
  exact hok.freeing

lemma spec_chan_free (haway : g.away = false) (hd : Doomed g q) (hawake : g.phase = .awake) :
    Spec initproc t (.set q (.chan none)) g fun _ g' => g' = blind g := by
  refine spec_set haway trivial (fun s _ _ _ => by cases t <;> rfl) fun s s' γ hi hg ha hh =>
    ⟨blind g, ?_, rfl⟩
  have hl := hi.each t
  rw [hg] at hl
  have hstate := hd.state hl
  have hgone : (s.1.proc q).state = .unused ∨ (s.1.proc q).state = .used ∨
      (s.1.proc q).state = .zombie := by
    rcases hstate with h | h
    · exact .inr (.inr h)
    · exact .inr (.inl h.1)
  have hlock : s.1.lock (.proc q) = some t := by
    obtain ⟨k, hk, rfl, -⟩ := hd
    exact (hl.grip k hk).lock
  have hself : (s'.1.proc q).state = (s.1.proc q).state := ha.field Proc.state rfl q
  refine mild hi hg ha hh rfl rfl (.inr hlock) (fun _ ph hp => phase_gone hp hgone ?_ ?_)
    (fun i hc => ⟨rfl, rfl⟩) (K := (blind g).grip) (fun p hp => ?_) (.inl rfl)
    (fun k hk => grip_blind ha hl (by rw [hh]) rfl hk)
    (fun k hk => ⟨{ k with seen := none }, ?_, rfl, rfl⟩) fun hn => by simp [blind, hn]
  · rw [hself]
    rcases hgone with h | h | h <;> simp [h]
  · rw [hself]
    rcases hgone with h | h | h <;> simp [h]
  · have hown := hl.phase p hp
    rw [hawake] at hown ⊢
    exact phase_congr_awake hown (ha.field Proc.state rfl p) ha.fresh
  · simp [blind, hk]

/-- What is seen of a process that gets a new pid. -/
def rename (n : ℤ) (g : Ghost NPROC ι) : Ghost NPROC ι :=
  { g with grip := g.grip.map fun k => { k with seen := k.seen.map fun v => { v with pid := n } } }

/-- A new pid for a process that is no zombie. -/
lemma spec_pid {n : ℤ} (haway : g.away = false) (hgrip : g.grip = some k) (hslot : k.slot = q)
    (hfree : k.freeing = false)
    (hstate : (∃ v, k.seen = some v ∧ v.state = .unused) ∨ ∃ m, g.making = some m ∧ m.slot = q) :
    Spec initproc t (.set q (.pid n)) g fun _ g' => g' = rename n g := by
  have hlive : ∀ (s : State NPROC NCPU ι) γ, Inv s initproc γ → γ t = g →
      (s.1.proc q).state ≠ .zombie := by
    intro s γ hi hg
    have hl := hi.each t
    rw [hg] at hl
    rcases hstate with ⟨v, hv, hun⟩ | ⟨m, hm, rfl⟩
    · rw [← hslot, ((hl.grip k hgrip).seen v hv).1, hun]
      simp
    · rw [(hl.making m hm).used]
      simp
  refine spec_set haway trivial (fun s γ hi hg => ?_) fun s s' γ hi hg ha hh => ⟨rename n g, ?_, rfl⟩
  · cases t with
    | sched c => rfl
    | proc u => simp [watch, note, hlive s γ hi hg]
  · have hl := hi.each t
    rw [hg] at hl
    have hok := hl.grip k hgrip
    have hphase : ∀ p ph, PhaseOk s p ph → PhaseOk s' p ph := fun p ph hp =>
      phase_congr hp (ha.field Proc.state rfl p) (ha.field Proc.chan rfl p) ha.fresh
    refine mild hi hg ha hh rfl rfl (.inr (by rw [← hslot]; exact hok.lock)) (fun _ ph => hphase q ph)
      (fun i hc => absurd (hi.book.corpse q i hc).1 (hlive s γ hi hg)) (K := (rename n g).grip)
      (fun p hp => hphase p _ (hl.phase p hp)) (.inl rfl) (fun k' hk' => ?_)
      (fun k' hk' => ⟨{ k' with seen := k'.seen.map fun v => { v with pid := n } }, by simp [rename, hk'],
        rfl, rfl⟩) fun hn => by simp [rename, hn]
    simp only [rename, hgrip, Option.map_some, Option.some.injEq] at hk'
    subst hk'
    rw [hslot]
    refine ha.grip hok hslot (fun x hx => ?_) fun hb => ?_
    · obtain ⟨v, hv, rfl⟩ := Option.map_eq_some_iff.mp hx
      obtain ⟨h1, h2, -⟩ := hok.seen v hv
      rw [hslot] at h1 h2
      exact ⟨h1, h2, rfl⟩
    · rw [hfree] at hb
      cases hb

/-- A process that is awake may change its channel. -/
lemma spec_chan_own {ch : Option (Chan NPROC ι Empty)} (haway : g.away = false)
    (hawake : g.phase = .awake) (hgrip : g.grip = some k) (hslot : k.slot = p) :
    Spec initproc (.proc p : Ctx NPROC NCPU) (.set p (.chan ch)) g fun _ g' => g' = blind g := by
  refine spec_set haway trivial (fun s _ _ _ => rfl) fun s s' γ hi hg ha hh => ⟨blind g, ?_, rfl⟩
  have hl := hi.each (.proc p)
  rw [hg] at hl
  have hlock : s.1.lock (.proc p) = some (.proc p) := by
    rw [← hslot]
    exact (hl.grip k hgrip).lock.trans (by rw [hslot])
  refine mild hi hg ha hh rfl rfl (.inr hlock) (fun hne => absurd rfl hne) (fun i hc => ⟨rfl, rfl⟩)
    (K := (blind g).grip) (fun u hu => ?_) (.inl rfl)
    (fun k hk => grip_blind ha hl (by rw [hh]) rfl hk)
    (fun k hk => ⟨{ k with seen := none }, ?_, rfl, rfl⟩) fun hn => by simp [blind, hn]
  · have hown := hl.phase u hu
    rw [hawake] at hown ⊢
    exact phase_congr_awake hown (ha.field Proc.state rfl u) ha.fresh
  · simp [blind, hk]

/-- A process names its channel in `kwait`. -/
lemma spec_chan_wait (haway : g.away = false) (hphase : g.phase = .falling false) :
    Spec initproc (.proc p : Ctx NPROC NCPU) (.set p (.chan (some (.proc p)))) g
      fun _ g' => g' = blind { g with phase := .falling true } := by
  refine spec_set haway trivial (fun s _ _ _ => rfl) fun s s' γ hi hg ha hh =>
    ⟨blind { g with phase := .falling true }, ?_, rfl⟩
  have hl := hi.each (.proc p)
  rw [hg] at hl
  obtain ⟨k, hgrip, hslot⟩ := hl.falling p false rfl hphase
  have hlock : s.1.lock (.proc p) = some (.proc p) := by
    rw [← hslot]
    exact (hl.grip k hgrip).lock.trans (by rw [hslot])
  have hown := hl.phase p rfl
  rw [hphase] at hown
  refine mild hi hg ha hh rfl rfl (.inr hlock) (fun hne => absurd rfl hne) (fun i hc => ⟨rfl, rfl⟩)
    (K := (blind g).grip) (fun u hu => ?_) (.inr ⟨hphase, rfl⟩)
    (fun k hk => grip_blind ha hl (by rw [hh]) rfl hk)
    (fun k hk => ⟨{ k with seen := none }, ?_, rfl, rfl⟩) fun hn => by simp [blind, hn]
  · cases hu
    refine ⟨?_, ?_, fun _ => ?_⟩
    · rw [ha.field Proc.state rfl]
      exact hown.1
    · rw [ha.fresh]
      exact hown.2.1
    · rw [ha.self]
      rfl
  · simp [blind, hk]

/-! ### Going to sleep and waking up -/

/-- The lock of process `q`, held by the thread. -/
def Grips (g : Ghost NPROC ι) (q : Fin NPROC) : Prop := ∃ k, g.grip = some k ∧ k.slot = q

omit [DecidableEq ι] in
lemma Grips.lock (hk : Grips g q) (hl : Local s t g) : s.1.lock (.proc q) = some t := by
  obtain ⟨k, hk, rfl⟩ := hk
  exact (hl.grip k hk).lock

omit [DecidableEq ι] in
/-- What is known of the process whose lock is held, after an assignment to it. -/
lemma grip_written {s' : State NPROC NCPU ι} (ha : Assign t q v s s') (hl : Local s t g)
    (hgrip : Grips g q) {W : Option (Proc NPROC ι Empty)}
    (hW : ∀ x, W = some x → v.state = x.state ∧ v.chan = x.chan ∧ v.pid = x.pid)
    {k : Grip NPROC ι} (hk : some ⟨q, W, false⟩ = some k) : GripOk s' t k := by
  obtain ⟨k', hk', hslot⟩ := hgrip
  cases hk
  exact ha.grip (hl.grip k' hk') hslot hW (by simp)

omit [DecidableEq ι] in
/-- A zombie is not freed by who holds the lock of a process in another state. -/
lemma not_freeing (hl : Local s t g) (hgrip : Grips g q) (hstate : (s.1.proc q).state ≠ .zombie)
    (hk : g.grip = some k) : k.freeing = false := by
  obtain ⟨k', hk', hslot⟩ := hgrip
  obtain rfl := Option.some.inj (hk.symm.trans hk')
  cases hf : k.freeing with
  | false => rfl
  | true =>
    rw [← hslot] at hstate
    exact absurd ((hl.grip k hk).freeing hf).1 hstate

omit [DecidableEq ι] in
/-- A process changes its state under its lock, and is a zombie neither before nor after. -/
lemma shift {s s' : State NPROC NCPU ι} (hi : Inv s initproc γ) (hg : γ t = g)
    (ha : Assign t q v s s') (hh : s'.2 = s.2) (hgrip : Grips g q)
    (hparent : v.parent = (s.1.proc q).parent) (hold : (s.1.proc q).state ≠ .zombie)
    (hnew : v.state ≠ .zombie) (hother : t ≠ .proc q → ∀ ph, PhaseOk s q ph → PhaseOk s' q ph)
    (hmine : (s.1.proc q).state = .used → g.mine q) (halive : Alive s q → Alive s' q)
    (hunused : v.state = .unused → v.parent = none)
    (hsleep : t ≠ .proc q → v.state = .sleeping → (s.1.proc q).state = .sleeping)
    {ph : Phase} {mk : Option (Making NPROC)} {W : Option (Proc NPROC ι Empty)}
    (hW : ∀ x, W = some x → v.state = x.state ∧ v.chan = x.chan ∧ v.pid = x.pid)
    (hown : ∀ p, t = .proc p → PhaseOk s' p ph) (hfall : ∀ b, ph ≠ .falling b)
    (hkids : ∀ k addr, ph = .asleep k → g.call.req = some (.wait addr) → k = true)
    (hcommit : ∀ p, t = .proc p → Committed s' p { g with phase := ph } → Committed s p g)
    (hmk : ∀ m, mk = some m → MakingOk s' m)
    (hmaking : ∀ m, mk = some m → (∃ n, g.making = some n ∧ n.slot = m.slot) ∨
      ∀ u n, (γ u).making = some n → n.slot ≠ m.slot) (hgone : ph ≠ .gone) :
    Inv s' initproc
      (Function.update γ t { g with phase := ph, grip := some ⟨q, W, false⟩, making := mk }) := by
  have hl := hi.each t
  rw [hg] at hl
  refine hi.step hg (ha.rely hother (.inr (hgrip.lock hl)) (.inl ⟨hparent, fun h => absurd h hnew⟩)
    (fun hm h => absurd (hmine h) hm) fun u _ h => absurd h hold) ?_
    (ha.tree hi hg hmaking (fun u hu => .inl (hparent ▸ hu)) (fun h => .inl (halive h)) hunused hsleep
      hcommit (fun u _ h => absurd h hnew) (fun h h1 h2 => ⟨h, h1, h2⟩) fun h u h1 h2 => ⟨h, h1, h2⟩)
    (ha.book hi hg (by rw [hh]) (by rw [hh]) (by rw [hh]) (fun r _ => by rw [hh])
      (fun u hu => .inl ⟨hparent ▸ hu, by rw [hh]⟩) (fun h => absurd h hnew)
      (fun i hc => absurd (hi.book.corpse q i hc).1 hold) fun k hk hf => ?_)
  · refine ⟨fun u hu => ?_, hown, fun u b _ hb => absurd hb (hfall b), fun u k addr _ hk => hkids k addr hk,
      fun h h1 => ha.hold (hl.hold h h1) hparent fun h => absurd h hnew,
      fun k hk => grip_written ha hl hgrip hW hk, hmk,
      fun u hu => ?_, fun u r hu hr => ?_, fun u n hu hn => ?_, fun u _ hg => absurd hg hgone⟩
    · rw [ha.away]
      exact hl.here u hu
    · rw [hh]
      exact hl.call u hu
    · exact ha.failed (fun h _ => absurd h hold) (hl.failed u r hu hr)
    · rw [hh]
      exact hl.got u n hu hn
  · rw [not_freeing hl hgrip hold hk] at hf
    cases hf

omit [DecidableEq ι] in
/-- What a thread is making is still there after an assignment to another process. -/
lemma making_other {s s' : State NPROC NCPU ι} (ha : Assign t q v s s') (hl : Local s t g)
    (hq : (s.1.proc q).state ≠ .used) (hm : g.making = some m) : MakingOk s' m := by
  refine ha.making (hl.making m hm) fun hslot => ?_
  have := (hl.making m hm).used
  rw [hslot] at this
  exact absurd this hq

omit [DecidableEq ι] in
lemma running (hl : Local s (.proc p : Ctx NPROC NCPU) g) (hawake : g.phase = .awake) :
    (s.1.proc p).state = .running ∧ s.1.fresh p = false := by
  have hown := hl.phase p rfl
  rw [hawake] at hown
  exact hown

/-- The process is asleep, in `kwait` if it has been on the way there. -/
lemma spec_doze {kids : Bool} (haway : g.away = false) (hgrip : Grips g p)
    (hphase : kids = true ∧ g.phase = .falling true ∨
      kids = false ∧ g.phase = .awake ∧ ∀ addr, g.call.req ≠ some (.wait addr)) :
    Spec initproc (.proc p : Ctx NPROC NCPU) (.set p (.state .sleeping)) g
      fun _ g' => g' = { g with phase := .asleep kids, grip := some ⟨p, none, false⟩ } := by
  refine spec_set haway trivial (fun s _ _ _ => rfl) fun s s' γ hi hg ha hh => ⟨_, ?_, rfl⟩
  have hl := hi.each (.proc p)
  rw [hg] at hl
  have hown := hl.phase p rfl
  have hrun : (s.1.proc p).state = .running ∧ s.1.fresh p = false := by
    rcases hphase with ⟨-, h⟩ | ⟨-, h, -⟩ <;> rw [h] at hown
    · exact ⟨hown.1, hown.2.1⟩
    · exact hown
  refine shift hi hg ha hh hgrip rfl (by simp [hrun.1]) (by simp [Field.write])
    (fun hne => absurd rfl hne) (fun h => by rw [hrun.1] at h; cases h) (fun _ => ?_)
    (fun h => by cases h) (fun hne => absurd rfl hne) (by simp) (fun u hu => ?_)
    (fun b hb => by cases hb) (fun k addr hk hreq => ?_) (fun u hu hc => ?_)
    (fun m hm => making_other ha hl (by simp [hrun.1]) hm) (fun m hm => .inl ⟨m, hm, rfl⟩) (by simp)
  · rw [Alive, ha.self]
    exact .inr (.inl rfl)
  · cases hu
    refine ⟨.inl (by rw [ha.self]; rfl), by rw [ha.fresh]; exact hrun.2, fun hkids => ?_⟩
    rcases hphase with ⟨-, h⟩ | ⟨h, -⟩
    · rw [h] at hown
      rw [ha.self]
      exact hown.2.2 rfl
    · rw [h] at hkids
      cases hkids
  · cases hk
    rcases hphase with ⟨h, -⟩ | ⟨-, -, h⟩
    · exact h
    · exact absurd hreq (h addr)
  · rcases hc with ⟨b, hb⟩ | ⟨hb, -⟩
    · cases hb
    · cases hb
      rcases hphase with ⟨-, h⟩ | ⟨h, -⟩
      · exact .inl ⟨true, h⟩
      · cases h

/-- A sleeping process is made `RUNNABLE`. -/
lemma spec_wake (haway : g.away = false) (hawake : g.phase = .awake) (hgrip : g.grip = some k)
    (hslot : k.slot = q) (hseen : k.seen = some v) (hv : v.state = .sleeping) :
    Spec initproc t (.set q (.state .runnable)) g fun _ g' =>
      g' = { g with grip := some ⟨q, some { v with state := .runnable }, false⟩ } := by
  have hgrips : Grips g q := ⟨k, hgrip, hslot⟩
  refine spec_set haway trivial (fun s _ _ _ => by cases t <;> rfl) fun s s' γ hi hg ha hh =>
    ⟨{ g with
        phase := .awake
        grip := some ⟨q, some { v with state := .runnable }, false⟩
        making := g.making }, ?_, by rw [← hawake]⟩
  have hl := hi.each t
  rw [hg] at hl
  obtain ⟨-, hchan, hpid⟩ := (hl.grip k hgrip).seen v hseen
  rw [hslot] at hchan hpid
  have hasleep : (s.1.proc q).state = .sleeping := by
    rw [← hslot, ((hl.grip k hgrip).seen v hseen).1, hv]
  have hnot : t ≠ .proc q := by
    rintro rfl
    rw [(running hl hawake).1] at hasleep
    cases hasleep
  refine shift hi hg ha hh hgrips rfl (by simp [hasleep]) (by simp [Field.write])
    (fun _ ph hp => ?_) (fun h => by rw [hasleep] at h; cases h) (fun _ => ?_)
    (fun h => by cases h) (fun _ h => by cases h) (fun x hx => by cases hx; exact ⟨rfl, hchan, hpid⟩)
    (fun u hu => ?_) (fun b hb => by cases hb) (fun k addr hk => by cases hk) (fun u hu hc => ?_)
    (fun m hm => making_other ha hl (by simp [hasleep]) hm) (fun m hm => .inl ⟨m, hm, rfl⟩) (by simp)
  · cases ph with
    | awake =>
      rw [PhaseOk, hasleep] at hp
      simp at hp
    | falling b =>
      rw [PhaseOk, hasleep] at hp
      simp at hp
    | asleep b =>
      refine ⟨.inr (by rw [ha.self]; rfl), by rw [ha.fresh]; exact hp.2.1, fun hb => ?_⟩
      rw [ha.self]
      exact hp.2.2 hb
    | gone =>
      rw [PhaseOk, hasleep] at hp
      simp at hp
  · rw [Alive, ha.self]
    exact .inr (.inr rfl)
  · have hne : u ≠ q := by
      rintro rfl
      exact hnot hu
    have hown := hl.phase u hu
    rw [hawake] at hown
    exact ha.phase hne hown
  · rcases hc with ⟨b, hb⟩ | ⟨hb, -⟩ <;> cases hb

/-! ### Making a process -/

omit [DecidableEq ι] in
/-- A thread that is awake stays so when another process is assigned to. -/
lemma awake_other {s s' : State NPROC NCPU ι} (ha : Assign t q v s s') (hl : Local s t g)
    (hawake : g.phase = .awake) (hq : (s.1.proc q).state ≠ .running) (u : Fin NPROC)
    (hu : t = .proc u) : PhaseOk s' u .awake := by
  have hown := hl.phase u hu
  rw [hawake] at hown
  have hne : u ≠ q := by
    rintro rfl
    exact hq hown.1
  exact ha.phase hne hown

omit [DecidableEq ι] in
lemma not_alive {s : State NPROC NCPU ι} (hq : (s.1.proc q).state = .unused ∨ (s.1.proc q).state = .used ∨
      (s.1.proc q).state = .zombie) : ¬ Alive s q := by
  unfold Alive
  rcases hq with h | h | h <;> simp [h]

omit [DecidableEq ι] in
lemma not_committed_awake {s : State NPROC NCPU ι} (hawake : g.phase = .awake) : ¬ Committed s p g := by
  unfold Committed
  simp [hawake]

/-- `allocproc` takes an unused process. -/
lemma spec_take (haway : g.away = false) (hawake : g.phase = .awake) (hgrip : g.grip = some k)
    (hslot : k.slot = q) (hseen : k.seen = some v) (hv : v.state = .unused) :
    Spec initproc t (.set q (.state .used)) g
      fun _ g' => g' = { g with grip := some ⟨q, none, false⟩, making := some ⟨q, false, false⟩ } := by
  have hgrips : Grips g q := ⟨k, hgrip, hslot⟩
  refine spec_set haway ⟨k, v, hgrip, hslot, hseen, hv⟩ (fun s _ _ _ => by cases t <;> rfl)
    fun s s' γ hi hg ha hh =>
    ⟨{ g with phase := .awake, grip := some ⟨q, none, false⟩, making := some ⟨q, false, false⟩ }, ?_,
      by rw [← hawake]⟩
  have hl := hi.each t
  rw [hg] at hl
  have hun : (s.1.proc q).state = .unused := by
    rw [← hslot, ((hl.grip k hgrip).seen v hseen).1, hv]
  have hnow : (s'.1.proc q).state = .used := by
    rw [ha.self]
    rfl
  refine shift hi hg ha hh hgrips rfl (by simp [hun]) (by simp [Field.write])
    (fun _ ph hp => phase_gone hp (.inl hun) (by simp [hnow]) (by simp [hnow]))
    (fun h => by rw [hun] at h; cases h) (fun h => absurd h (not_alive (.inl hun)))
    (fun h => by cases h) (fun _ h => by cases h) (by simp) (awake_other ha hl hawake (by simp [hun]))
    (fun b hb => by cases hb) (fun k addr hk => by cases hk)
    (fun u hu hc => absurd hc (not_committed_awake rfl)) (fun m hm => ?_)
    (fun m hm => .inr fun u n hn hslot => ?_) (by simp)
  · cases hm
    refine ⟨hnow, fun h => (by cases h), fun _ => ?_⟩
    change (s'.1.proc q).parent = none
    rw [ha.self]
    exact hi.tree.unused q hun
  · cases hm
    have := ((hi.each u).making n hn).used
    change n.slot = q at hslot
    rw [hslot, hun] at this
    cases this

/-- `kfork` makes its child `RUNNABLE`. -/
lemma spec_launch (haway : g.away = false) (hawake : g.phase = .awake) (hgrip : Grips g q)
    (hmaking : g.making = some ⟨q, true, true⟩) :
    Spec initproc t (.set q (.state .runnable)) g
      fun _ g' => g' = { g with grip := some ⟨q, none, false⟩, making := none } := by
  refine spec_set haway trivial (fun s _ _ _ => by cases t <;> rfl) fun s s' γ hi hg ha hh =>
    ⟨{ g with phase := .awake, grip := some ⟨q, none, false⟩, making := none }, ?_, by rw [← hawake]⟩
  have hl := hi.each t
  rw [hg] at hl
  have hok := hl.making _ hmaking
  have hused : (s.1.proc q).state = .used := hok.used
  have hnow : (s'.1.proc q).state = .runnable := by
    rw [ha.self]
    rfl
  refine shift hi hg ha hh hgrip rfl (by simp [hused]) (by simp [Field.write])
    (fun _ ph hp => phase_gone hp (.inr (.inl hused)) (by simp [hnow]) fun _ => ?_)
    (fun _ => ⟨_, hmaking, rfl⟩) (fun h => absurd h (not_alive (.inr (.inl hused))))
    (fun h => by cases h) (fun _ h => by cases h) (by simp) (awake_other ha hl hawake (by simp [hused]))
    (fun b hb => by cases hb) (fun k addr hk => by cases hk)
    (fun u hu hc => absurd hc (not_committed_awake rfl)) (fun m hm => by cases hm)
    (fun m hm => by cases hm) (by simp)
  rw [ha.fresh]
  exact hok.ready rfl

/-- A process that was not finished is given up. -/
lemma spec_unmake (haway : g.away = false) (hawake : g.phase = .awake) (hgrip : Grips g q)
    (hmaking : g.making = some m) (hslot : m.slot = q) (hadopted : m.adopted = false) :
    Spec initproc t (.set q (.state .unused)) g
      fun _ g' => g' = { g with grip := some ⟨q, none, false⟩, making := none } := by
  have hmay : May (.set q (.state .unused)) g := by
    obtain ⟨k, hk, hkq⟩ := hgrip
    exact ⟨k, hk, hkq, .inr ⟨m, hmaking, hslot⟩⟩
  refine spec_set haway hmay (fun s _ _ _ => by cases t <;> rfl) fun s s' γ hi hg ha hh =>
    ⟨{ g with phase := .awake, grip := some ⟨q, none, false⟩, making := none }, ?_, by rw [← hawake]⟩
  have hl := hi.each t
  rw [hg] at hl
  have hok := hl.making m hmaking
  have hused : (s.1.proc q).state = .used := hslot ▸ hok.used
  have hnow : (s'.1.proc q).state = .unused := by
    rw [ha.self]
    rfl
  exact shift hi hg ha hh hgrip rfl (by simp [hused]) (by simp [Field.write])
    (fun _ ph hp => phase_gone hp (.inr (.inl hused)) (by simp [hnow]) (by simp [hnow]))
    (fun _ => ⟨m, hmaking, hslot⟩) (fun h => absurd h (not_alive (.inr (.inl hused))))
    (fun _ => hslot ▸ hok.adopted hadopted) (fun _ h => by cases h) (by simp)
    (awake_other ha hl hawake (by simp [hused])) (fun b hb => by cases hb)
    (fun k addr hk => by cases hk) (fun u hu hc => absurd hc (not_committed_awake rfl))
    (fun m hm => by cases hm) (fun m hm => by cases hm) (by simp)

/-- The context of the process that is being made is set. -/
lemma spec_ready (haway : g.away = false) (hmaking : g.making = some m) (hslot : m.slot = q) :
    Spec initproc t (.initContext q) g
      fun _ g' => g' = { g with making := some { m with ready := true } } := by
  refine spec_of haway trivial fun s γ fail w' r hi hg hs => ⟨_, ?_, rfl⟩
  cases hs
  have hw : watch t (.initContext q) () s.1 s.2 = s.2 := by cases t <;> rfl
  rw [hw]
  have hl := hi.each t
  rw [hg] at hl
  have hok := hl.making m hmaking
  have hused : (s.1.proc q).state = .used := hslot ▸ hok.used
  have hphase : ∀ u ph, PhaseOk s u ph →
      PhaseOk ({ s.1 with fresh := Function.update s.1.fresh q true }, s.2) u ph := by
    intro u ph hp
    by_cases hu : u = q
    · subst hu
      exact phase_gone hp (.inr (.inl hused)) (by simp [hused]) (by simp [hused])
    · cases ph <;> simpa only [PhaseOk, Function.update_of_ne hu] using hp
  refine hi.step hg ⟨fun _ _ _ h => h, fun _ _ => rfl, fun u ph _ => hphase u ph,
    fun _ _ _ _ => ⟨rfl, rfl, rfl, rfl⟩, fun _ _ _ _ => ⟨rfl, id⟩, fun n hn h => ?_,
    fun _ _ => ⟨rfl, rfl⟩, fun _ _ _ h1 h2 => ⟨h1, h2⟩, fun _ _ h => h⟩ ?_
    (Tree.step hi hg (fun n hn => ?_) (fun _ _ h => .inl h) (fun _ h => .inl h)
      hi.tree.unused (fun _ _ h => h) (fun _ _ h => .inl h) (fun _ _ h1 h2 => .inl ⟨h1, h2⟩)
      (fun h h1 h2 => .inl ⟨h, h1, h2⟩) fun h u h1 h2 => .inl ⟨h, h1, h2⟩)
    (Book.step hi hg rfl rfl rfl (fun _ _ h => .inl ⟨h, rfl⟩) (fun _ h => h)
      (fun _ _ _ => ⟨rfl, rfl, rfl⟩) fun k h1 h2 => .inl ⟨k, h1, rfl, h2⟩)
  · have hne : n.slot ≠ q := fun h => hn ⟨m, hmaking, hslot.trans h.symm⟩
    refine ⟨h.used, fun hr => ?_, h.adopted⟩
    change Function.update s.1.fresh q true n.slot = true
    rw [Function.update_of_ne hne]
    exact h.ready hr
  · refine ⟨hl.here, fun u hu => hphase u _ (hl.phase u hu), hl.falling, hl.kids, fun h hh => ?_,
      fun k hk => ?_, fun n hn => ?_, hl.call, hl.failed, hl.got, fun u hu hg => ?_⟩
    · exact ⟨(hl.hold h hh).lock, (hl.hold h hh).kin, (hl.hold h hh).scanned, (hl.hold h hh).orphaned⟩
    · exact ⟨(hl.grip k hk).lock, (hl.grip k hk).last, (hl.grip k hk).seen, (hl.grip k hk).freeing⟩
    · cases hn
      refine ⟨hok.used, fun _ => ?_, hok.adopted⟩
      change Function.update s.1.fresh q true m.slot = true
      rw [hslot, Function.update_self]
    · rcases hl.gone u hu hg with h | ⟨-, -, h⟩
      · exact .inl h
      · rw [hmaking] at h
        cases h
  · cases hn
    exact .inl ⟨m, hmaking, rfl⟩

/-! ### Exits -/

omit [DecidableEq ι] in
/-- An exit is entered at the end of the list. -/
lemma exits_append {h : History NPROC ι} {i : ℕ} {e : Exit NPROC} {v : Proc NPROC ι Empty}
    (he : h.exits[i]? = some e) : (h.exit q v).exits[i]? = some e := by
  obtain ⟨hi, -⟩ := List.getElem?_eq_some_iff.mp he
  simp only [History.exit]
  rwa [List.getElem?_append_left hi]

omit [DecidableEq ι] in
lemma Good.append {h : History NPROC ι} {r : Reap NPROC} {v : Proc NPROC ι Empty}
    (hr : Kin.Good initproc h.exits r) : Kin.Good initproc (h.exit q v).exits r := by
  obtain ⟨⟨i, e, h1, h2, h3⟩, h4⟩ := hr
  exact ⟨⟨i, e, h1, exits_append h2, h3⟩, h4⟩

/-- A process exits. It has no children any more, and its parent has been told. -/
lemma spec_exit {o : Option (Fin NPROC)} (haway : g.away = false) (hawake : g.phase = .awake)
    (hgrip : Grips g p) (hmaking : g.making = none) (hhold : g.hold = some h)
    (horphaned : ∀ q, h.orphaned q) (hkin : h.kin = some (p, o)) (htold : ∀ u, o = some u → h.told = some u)
    (hinit : p ≠ initproc) :
    Spec initproc (.proc p : Ctx NPROC NCPU) (.set p (.state .zombie)) g
      fun _ g' => g' = { g with phase := .gone, grip := some ⟨p, none, false⟩ } := by
  refine spec_of haway trivial fun s γ fail w' r hi hg hs => ⟨_, ?_, rfl⟩
  cases hs
  change Inv (setProc p _ s.1, s.2.exit p (s.1.proc p)) initproc _
  have hl := hi.each (.proc p)
  rw [hg] at hl
  have hlock := hgrip.lock hl
  have hrun := running hl hawake
  have hnz : (s.1.proc p).state ≠ .zombie := by simp [hrun.1]
  have hok := hl.hold h hhold
  obtain ⟨s', hs'⟩ : ∃ s' : State NPROC NCPU ι, s' =
      (setProc p (Field.write (s.1.proc p) (.state .zombie)) s.1, s.2.exit p (s.1.proc p)) := ⟨_, rfl⟩
  have ha : Assign (.proc p) p (Field.write (s.1.proc p) (.state .zombie)) s s' := by
    subst hs'
    refine ⟨rfl, rfl, rfl, rfl, rfl, fun _ _ => rfl, .inr ⟨hlock, fun u hu => ?_⟩, fun _ _ h => h⟩
    exact Function.update_of_ne hu ..
  have hstate : (s'.1.proc p).state = .zombie := by
    rw [ha.self]
    rfl
  have hexits : s'.2 = s.2.exit p (s.1.proc p) := by rw [hs']
  have hparent : ∀ u, (s'.1.proc u).parent = (s.1.proc u).parent := ha.field Proc.parent rfl
  have hcorpse : ∀ u, u ≠ p → s'.2.corpse u = s.2.corpse u := fun u hu => ha.corpse_of_ne hu
  rw [← hs']
  refine hi.step hg (ha.rely (fun hne => absurd rfl hne) (.inr hlock) (.inr hok.lock)
    (fun _ h => by rw [hrun.1] at h; cases h) fun u _ h => absurd h hnz) ?_
    (ha.tree hi hg (fun m hm => .inl ⟨m, hm, rfl⟩) (fun u hu => .inl hu)
      (fun _ => .inr ⟨hinit, fun u => ?_⟩) (fun h => by cases h) (fun hne => absurd rfl hne)
      (fun u hu hc => ?_) (fun u hu _ => .inr (.inl ⟨h, hhold, htold u ?_⟩))
      (fun h h1 h2 => ⟨h, h1, h2⟩) fun h u h1 h2 => ⟨h, h1, h2⟩) ⟨fun u hu => ?_, fun u i hu => ?_, ?_, fun r hr => ?_, fun u r hr => ?_⟩
  · refine ⟨fun u hu => ?_, fun u hu => ?_, fun u b _ hb => (by cases hb),
      fun u k addr _ hk => (by cases hk), fun x hx => ?_, fun k hk => ?_, fun m hm => ?_, fun u hu => ?_, fun u r hu hr => ?_, fun u n hu hn => ?_,
      fun u hu _ => ?_⟩
    · rw [ha.away]
      exact hl.here u hu
    · cases hu
      exact ⟨by simp [hstate], by simp [hstate], by simp [hstate]⟩
    · obtain rfl := Option.some.inj (hhold.symm.trans hx)
      refine ⟨by rw [ha.lock]; exact hok.lock, fun u o' hu => ?_, fun u r hu _ hr => ?_, fun u r hu _ => ?_⟩
      · rw [hparent]
        exact hok.kin u o' hu
      · rw [hparent] at hr
        exact hok.orphaned u r hu (horphaned r) hr.1
      · rw [hparent]
        exact hok.orphaned u r hu (horphaned r)
    · exact grip_written ha hl hgrip (by simp) hk
    · change g.making = some m at hm
      rw [hmaking] at hm
      cases hm
    · rw [hexits]
      exact hl.call u hu
    · exact ha.failed (fun h _ => absurd h hnz) (hl.failed u r hu hr)
    · rw [hexits]
      exact hl.got u n hu hn
    · cases hu
      exact .inl ⟨_, rfl, rfl⟩
  · rw [hparent]
    exact hok.orphaned p u rfl (horphaned u)
  · rcases hc with ⟨b, hb⟩ | ⟨hb, -⟩ <;> cases hb
  · rw [← hok.kin p o hkin]
    exact hu
  · by_cases hup : u = p
    · subst hup
      exact .inl ⟨s.2.exits.length, by rw [hexits]; exact Function.update_self ..⟩
    · rw [ha.other hup] at hu
      rcases hi.book.zombie u hu with ⟨i, hc⟩ | ⟨x, k, hk, hslot, hf⟩
      · exact .inl ⟨i, by rw [hcorpse u hup]; exact hc⟩
      · refine .inr ⟨x, k, ?_, hslot, hf⟩
        have hne : x ≠ .proc p := by
          rintro rfl
          rw [hg] at hk
          rw [not_freeing hl hgrip hnz hk] at hf
          cases hf
        rwa [Function.update_of_ne hne]
  · by_cases hup : u = p
    · subst hup
      have hnew : s'.2.corpse u = some s.2.exits.length := by
        rw [hexits]
        exact Function.update_self ..
      obtain rfl := Option.some.inj (hnew.symm.trans hu)
      refine ⟨hstate, ⟨⟨u, (s.1.proc u).pid, (s.1.proc u).xstate⟩, ?_, rfl, ?_, ?_⟩, fun r hr hx => ?_⟩
      · rw [hexits]
        simp [History.exit]
      · rw [ha.self]
        rfl
      · rw [ha.self]
        rfl
      · rw [hexits] at hr
        obtain ⟨⟨i, e, h1, h2, -⟩, -⟩ := hi.book.good r hr
        rw [hx] at h1
        cases h1
        obtain ⟨hlt, -⟩ := List.getElem?_eq_some_iff.mp h2
        exact absurd hlt (lt_irrefl _)
    · rw [hcorpse u hup] at hu
      obtain ⟨h1, ⟨e, h2, h3⟩, h4⟩ := hi.book.corpse u i hu
      rw [ha.other hup, hexits]
      exact ⟨h1, ⟨e, exits_append h2, h3⟩, h4⟩
  · rw [hexits]
    exact hi.book.once
  · rw [hexits] at hr ⊢
    exact Good.append (hi.book.good r hr)
  · rw [hparent] at hr
    rw [hexits]
    exact hi.book.forker u r hr

/-! ### Reaping -/

/-- A parent begins to free its zombie child. -/
lemma spec_reap {n : ℤ} {addr : Bool} (haway : g.away = false) (hawake : g.phase = .awake)
    (hmaking : g.making = none) (hgrip : g.grip = some k) (hslot : k.slot = q)
    (hfree : k.freeing = false) (hseen : k.seen = some v) (hv : v.state = .zombie)
    (hhold : g.hold = some h) (hkin : h.kin = some (q, some p))
    (hcall : g.call = ⟨some (.wait addr), none, none⟩) :
    Spec initproc (.proc p : Ctx NPROC NCPU) (.set q (.pid n)) g fun _ g' => ∃ i,
      g' = { g with
        grip := some ⟨q, none, true⟩
        call := ⟨some (.wait addr), none, some i⟩
        pid := v.pid } := by
  refine spec_of haway trivial fun s γ fail w' r hi hg hs => ⟨_, ?_, s.2.reaps.length, rfl⟩
  cases hs
  have hl := hi.each (.proc p)
  rw [hg] at hl
  have hgr := hl.grip k hgrip
  have hok := hl.hold h hhold
  have hlock : s.1.lock (.proc q) = some (.proc p) := by
    rw [← hslot]
    exact hgr.lock
  have hz : (s.1.proc q).state = .zombie := by
    rw [← hslot, (hgr.seen v hseen).1, hv]
  have hpid : (s.1.proc q).pid = v.pid := by
    rw [← hslot, (hgr.seen v hseen).2.2]
  have hpar : (s.1.proc q).parent = some p := hok.kin q _ hkin
  have hnot : q ≠ p := by
    rintro rfl
    rw [(running hl hawake).1] at hz
    cases hz
  -- nobody else is freeing the zombie
  have hbody : ∃ i, s.2.corpse q = some i := by
    refine (hi.book.zombie q hz).resolve_right ?_
    rintro ⟨u, k', hk', hslot', hf⟩
    have hu := ((hi.each u).grip k' hk').lock
    rw [hslot', hlock] at hu
    obtain rfl := Option.some.inj hu
    rw [hg, hgrip] at hk'
    cases hk'
    rw [hfree] at hf
    cases hf
  obtain ⟨i, hi'⟩ := hbody
  obtain ⟨-, ⟨e, he, -, hepid, hestat⟩, hfresh⟩ := hi.book.corpse q i hi'
  have hw : watch (.proc p : Ctx NPROC NCPU) (.set q (.pid n)) () s.1 s.2 = s.2.reap p q (s.1.proc q) := by
    simp [watch, note, hz]
  rw [hw]
  obtain ⟨s', hs'⟩ : ∃ s' : State NPROC NCPU ι, s' =
      (setProc q (Field.write (s.1.proc q) (.pid n)) s.1, s.2.reap p q (s.1.proc q)) := ⟨_, rfl⟩
  have hhist : s'.2 = s.2.reap p q (s.1.proc q) := by rw [hs']
  have hreaps : s'.2.reaps = s.2.reaps ++
      [⟨s.2.corpse q, p, (s.1.proc q).parent, s.2.forker q, (s.1.proc q).pid, (s.1.proc q).xstate⟩] := by
    rw [hhist]
    rfl
  have hold : ∀ (n : ℕ) r, s.2.reaps[n]? = some r → s'.2.reaps[n]? = some r := by
    intro n r hr
    obtain ⟨hn, -⟩ := List.getElem?_eq_some_iff.mp hr
    rw [hreaps, List.getElem?_append_left hn]
    exact hr
  have ha : Assign (.proc p) q (Field.write (s.1.proc q) (.pid n)) s s' := by
    subst hs'
    refine ⟨rfl, rfl, rfl, rfl, rfl, fun u hu => Function.update_of_ne ?_ .., .inr ⟨hlock, fun u hu => ?_⟩,
      hold⟩
    · rintro rfl
      exact hu rfl
    · exact Function.update_of_ne hu ..
  have hstate : ∀ u, (s'.1.proc u).state = (s.1.proc u).state := ha.field Proc.state rfl
  have hparent : ∀ u, (s'.1.proc u).parent = (s.1.proc u).parent := ha.field Proc.parent rfl
  have hbare : s'.2.corpse q = none := by
    rw [hhist]
    exact Function.update_self ..
  have hphase : ∀ u ph, PhaseOk s u ph → PhaseOk s' u ph := fun u ph hp =>
    phase_congr hp (hstate u) (ha.field Proc.chan rfl u) ha.fresh
  rw [← hs']
  refine hi.step hg (ha.rely (fun _ ph => hphase q ph) (.inr hlock) (.inr hok.lock)
    (fun _ h => by rw [hz] at h; cases h) fun u _ h1 h2 => ⟨h1, h2⟩) ?_
    (ha.tree hi hg (fun m hm => .inl ⟨m, hm, rfl⟩) (fun u hu => .inl hu)
      (fun h => .inl ?_) (fun h => ?_) (fun _ h => h) (fun u _ hc => ?_) (fun u h1 h2 => .inl ⟨h1, h2⟩)
      (fun h h1 h2 => ⟨h, h1, h2⟩) fun h u h1 h2 => ⟨h, h1, h2⟩)
    ⟨fun u hu => ?_, fun u j hu => ?_, ?_, fun r hr => ?_, fun u r hr => ?_⟩
  · refine ⟨fun u hu => ?_, fun u hu => hphase u _ (hl.phase u hu), fun u b _ hb => ?_,
      fun u k addr _ hk => ?_, fun x hx => ha.hold (hl.hold x hx) rfl id, fun k' hk' => ?_, fun m hm => ?_,
      fun u hu => ?_, fun u r hu hr => (by cases hr), fun u m hu hm => ?_, fun u _ hg => ?_⟩
    · rw [ha.away]
      exact hl.here u hu
    · change g.phase = .falling b at hb
      rw [hawake] at hb
      cases hb
    · change g.phase = .asleep k at hk
      rw [hawake] at hk
      cases hk
    · cases hk'
      exact ha.grip hgr hslot (by simp) fun _ => ⟨hz, hbare⟩
    · change g.making = some m at hm
      rw [hmaking] at hm
      cases hm
    · cases hu
      rw [hhist]
      change Function.update s.2.call p _ p = _
      rw [Function.update_self, hl.call p rfl, hcall]
    · cases hu
      cases hm
      exact ⟨_, by rw [hreaps, List.getElem?_concat_length], rfl, hpid⟩
    · change g.phase = .gone at hg
      rw [hawake] at hg
      cases hg
  · simpa only [Alive, hstate] using h
  · rw [Field.write, hz] at h
    cases h
  · exact committed_congr rfl (hstate u) hc
  · by_cases huq : u = q
    · exact .inr ⟨.proc p, ⟨q, none, true⟩, by rw [Function.update_self], huq.symm, rfl⟩
    · rw [ha.other huq] at hu
      rcases hi.book.zombie u hu with ⟨j, hc⟩ | ⟨x, k', hk', hslot', hf⟩
      · exact .inl ⟨j, by rw [ha.corpse_of_ne huq]; exact hc⟩
      · refine .inr ⟨x, k', ?_, hslot', hf⟩
        have hne : x ≠ .proc p := by
          rintro rfl
          rw [hg, hgrip] at hk'
          cases hk'
          rw [hfree] at hf
          cases hf
        rwa [Function.update_of_ne hne]
  · have huq : u ≠ q := by
      rintro rfl
      rw [hbare] at hu
      cases hu
    rw [ha.corpse_of_ne huq] at hu
    obtain ⟨h1, h2, h3⟩ := hi.book.corpse u j hu
    rw [ha.other huq, hhist]
    refine ⟨h1, h2, fun r hr hx => ?_⟩
    rcases List.mem_append.mp hr with hr | hr
    · exact h3 r hr hx
    · rw [List.mem_singleton.mp hr] at hx
      change s.2.corpse q = some j at hx
      -- one exit is not the corpse of two slots
      obtain ⟨-, ⟨e₁, he₁, hs₁, -⟩, -⟩ := hi.book.corpse q j hx
      obtain ⟨e₂, he₂, hs₂, -⟩ := h2
      rw [he₁] at he₂
      cases he₂
      exact huq (hs₂.symm.trans hs₁)
  · rw [hreaps, List.map_append, List.nodup_append]
    refine ⟨hi.book.once, by simp, fun a ha' b hb hab => ?_⟩
    simp only [List.map_cons, List.map_nil, List.mem_singleton] at hb
    obtain ⟨r, hr, rfl⟩ := List.mem_map.mp ha'
    exact hfresh r hr (hab.trans (hb.trans hi'))
  · rw [hreaps] at hr
    have hexits : s'.2.exits = s.2.exits := by
      rw [hhist]
      rfl
    rw [hexits]
    rcases List.mem_append.mp hr with hr | hr
    · exact hi.book.good r hr
    · rw [List.mem_singleton.mp hr]
      exact ⟨⟨i, e, hi', he, hepid, hestat⟩, hpar, (hi.book.forker q p hpar).imp id id⟩
  · rw [hparent] at hr
    rw [hhist]
    exact hi.book.forker u r hr

/-- The zombie, which is nobody's child any more, is gone. -/
lemma spec_bury (haway : g.away = false) (hawake : g.phase = .awake) (hmaking : g.making = none)
    (hgrip : g.grip = some k) (hslot : k.slot = q) (hfree : k.freeing = true)
    (hhold : g.hold = some h) (hkin : h.kin = some (q, none)) :
    Spec initproc t (.set q (.state .unused)) g
      fun _ g' => g' = { g with grip := some ⟨q, none, false⟩ } := by
  refine spec_set haway ⟨k, hgrip, hslot, .inl hfree⟩ (fun s _ _ _ => by cases t <;> rfl)
    fun s s' γ hi hg ha hh => ⟨_, ?_, rfl⟩
  have hl := hi.each t
  rw [hg] at hl
  have hgr := hl.grip k hgrip
  have hok := hl.hold h hhold
  obtain ⟨hz, hbare⟩ := hgr.freeing hfree
  have hlock := hgr.lock
  rw [hslot] at hz hbare hlock
  have hpar : (s.1.proc q).parent = none := hok.kin q _ hkin
  have hnow : (s'.1.proc q).state = .unused := by
    rw [ha.self]
    rfl
  refine hi.step hg (ha.rely (fun _ ph hp => phase_gone hp (.inr (.inr hz)) (by simp [hnow]) (by simp [hnow]))
    (.inr hlock) (.inr hok.lock) (fun _ h => by rw [hz] at h; cases h)
    fun u _ _ h => by rw [hpar] at h; cases h) ?_
    (ha.tree hi hg (fun m hm => .inl ⟨m, hm, rfl⟩) (fun u hu => .inl hu)
      (fun h => absurd h (not_alive (.inr (.inr hz)))) (fun _ => hpar) (fun _ h => by cases h)
      (fun u _ hc => absurd hc (not_committed_awake hawake)) (fun u _ h => by cases h)
      (fun h h1 h2 => ⟨h, h1, h2⟩) fun h u h1 h2 => ⟨h, h1, h2⟩)
    (ha.book hi hg (by rw [hh]) (by rw [hh]) (by rw [hh]) (fun r _ => by rw [hh])
      (fun u hu => .inl ⟨hu, by rw [hh]⟩) (fun h => by cases h)
      (fun i hc => by rw [hbare] at hc; cases hc) fun k' hk' _ => .inr ?_)
  · refine ⟨fun u hu => ?_, fun u hu => ?_, fun u b _ hb => ?_,
      fun u k addr _ hk => ?_, fun x hx => ha.hold (hl.hold x hx) rfl fun h => (by cases h), fun k' hk' => ?_,
      fun m hm => ?_, fun u hu => ?_, fun u r hu hr => ?_, fun u n hu hn => ?_, fun u _ hg => ?_⟩
    · rw [ha.away]
      exact hl.here u hu
    · change PhaseOk s' u g.phase
      rw [hawake]
      exact awake_other ha hl hawake (by simp [hz]) u hu
    · change g.phase = .falling b at hb
      rw [hawake] at hb
      cases hb
    · change g.phase = .asleep k at hk
      rw [hawake] at hk
      cases hk
    · cases hk'
      exact ha.grip hgr hslot (by simp) (by simp)
    · change g.making = some m at hm
      rw [hmaking] at hm
      cases hm
    · rw [hh]
      exact hl.call u hu
    · exact ha.failed (fun _ h => by rw [hpar] at h; cases h) (hl.failed u r hu hr)
    · rw [hh]
      exact hl.got u n hu hn
    · change g.phase = .gone at hg
      rw [hawake] at hg
      cases hg
  · obtain rfl := Option.some.inj (hgrip.symm.trans hk')
    rw [hslot, hnow]
    simp

/-! ### Parents -/

/-- A process that is given up has no parent to lose. -/
lemma spec_disown_new (haway : g.away = false) (hmaking : g.making = some m) (hslot : m.slot = q)
    (hadopted : m.adopted = false) :
    Spec initproc t (.set q (.parent none)) g fun _ g' => g' = g := by
  refine spec_set haway trivial (fun s _ _ _ => by cases t <;> rfl) fun s s' γ hi hg ha hh =>
    ⟨g, ?_, rfl⟩
  have hl := hi.each t
  rw [hg] at hl
  have hparent : (s.1.proc q).parent = none := hslot ▸ (hl.making m hmaking).adopted hadopted
  have hphase : ∀ p ph, PhaseOk s p ph → PhaseOk s' p ph := fun p ph hp =>
    phase_congr hp (ha.field Proc.state rfl p) (ha.field Proc.chan rfl p) ha.fresh
  exact mild hi hg ha hh rfl hparent.symm (.inl ⟨rfl, rfl⟩) (fun _ ph => hphase q ph)
    (fun _ _ => ⟨rfl, rfl⟩) (K := g.grip) (fun p hp => hphase p _ (hl.phase p hp)) (.inl rfl)
    (fun k hk => ha.grip_same (hl.grip k hk) (by rw [hh]) rfl rfl rfl) (fun k hk => ⟨k, hk, rfl, rfl⟩) id

/-- Under `wait_lock` a thread takes a child away from its own process, or frees it. -/
lemma spec_disown {o : Option (Fin NPROC)} (haway : g.away = false) (hawake : g.phase = .awake)
    (hmaking : g.making = none) (hhold : g.hold = some h) (hkin : h.kin = some (q, some p))
    (hfailed : g.call.failed = none) (ho : o = none ∨ o = some initproc ∧ p ≠ initproc) :
    Spec initproc (.proc p : Ctx NPROC NCPU) (.set q (.parent o)) g fun _ g' =>
      g' = { g with hold := some { h with
        kin := some (q, o)
        orphaned := fun x => h.orphaned x ∨ x = q
        owes := h.owes || decide (o ≠ none) } } := by
  refine spec_set haway trivial (fun s _ _ _ => ?_) fun s s' γ hi hg ha hh => ⟨_, ?_, rfl⟩
  · rcases ho with rfl | ⟨rfl, hne⟩
    · rfl
    · simp [watch, note, Ne.symm hne]
  have hl := hi.each (.proc p)
  rw [hg] at hl
  have hok := hl.hold h hhold
  have hpar : (s.1.proc q).parent = some p := hok.kin q _ hkin
  have hnow : (s'.1.proc q).parent = o := by
    rw [ha.self]
    rfl
  have hself : o ≠ some p := by
    rcases ho with rfl | ⟨rfl, hne⟩
    · simp
    · simpa using Ne.symm hne
  have hstate : ∀ u, (s'.1.proc u).state = (s.1.proc u).state := ha.field Proc.state rfl
  have hphase : ∀ p ph, PhaseOk s p ph → PhaseOk s' p ph := fun p ph hp =>
    phase_congr hp (hstate p) (ha.field Proc.chan rfl p) ha.fresh
  refine hi.step hg (ha.rely (fun _ ph => hphase q ph) (.inl ⟨rfl, rfl, rfl⟩) (.inr hok.lock)
    (fun _ h => ⟨h, fun h' => by rw [hpar] at h'; cases h'⟩) fun u hu _ h2 => ?_) ?_
    (ha.tree hi hg (fun m hm => .inl ⟨m, hm, rfl⟩) (fun u hu => .inr ?_) (fun h => .inl ?_) (fun h => ?_)
      (fun _ h => h) (fun u _ hc => committed_congr rfl (hstate u) hc) (fun u h1 h2 => .inr (.inr ?_))
      (fun x h1 h2 => ?_) fun x u h1 h2 => ?_)
    (ha.book hi hg (by rw [hh]) (by rw [hh]) (by rw [hh]) (fun r _ => by rw [hh]) (fun u hu => .inr (.inl ?_))
      id (fun i _ => ⟨rfl, rfl, rfl⟩) fun k hk hf => .inl ⟨k, hk, rfl, hf⟩)
  · rw [hpar] at h2
    cases h2
    exact absurd rfl hu
  · refine ⟨fun u hu => ?_, fun u hu => hphase u _ (hl.phase u hu), fun u b _ hb => ?_,
      fun u k addr _ hk => ?_, fun x hx => ?_,
      fun k hk => ha.grip_same (hl.grip k hk) (by rw [hh]) rfl rfl rfl, fun m hm => ?_,
      fun u hu => ?_, fun u r _ hr => ?_, fun u n hu hn => ?_, fun u _ hg => ?_⟩
    · rw [ha.away]
      exact hl.here u hu
    · change g.phase = .falling b at hb
      rw [hawake] at hb
      cases hb
    · change g.phase = .asleep k at hk
      rw [hawake] at hk
      cases hk
    · cases hx
      refine ⟨by rw [ha.lock]; exact hok.lock, fun r o' hr => ?_, fun u r hu hr hz => ?_, fun u r hu hr => ?_⟩
      · cases hr
        exact hnow
      · cases hu
        by_cases hrq : r = q
        · subst hrq
          exact hself (hnow.symm.trans hz.1)
        · rw [ha.other hrq] at hz
          exact hok.scanned p r rfl hr hz
      · cases hu
        by_cases hrq : r = q
        · subst hrq
          rw [hnow]
          exact hself
        · rw [ha.other hrq]
          exact hok.orphaned p r rfl (hr.resolve_right hrq)
    · change g.making = some m at hm
      rw [hmaking] at hm
      cases hm
    · rw [hh]
      exact hl.call u hu
    · change g.call.failed = some r at hr
      rw [hfailed] at hr
      cases hr
    · rw [hh]
      exact hl.got u n hu hn
    · change g.phase = .gone at hg
      rw [hawake] at hg
      cases hg
  · -- the new parent is `initproc`
    change o = some u at hu
    rcases ho with rfl | ⟨rfl, -⟩
    · cases hu
    · cases hu
      simpa only [Alive, hstate] using hi.tree.init
  · simpa only [Alive, hstate] using h
  · have := hi.tree.unused q h
    rw [hpar] at this
    cases this
  · change o = some u at h1
    rcases ho with rfl | ⟨rfl, -⟩
    · cases h1
    · cases h1
      exact ⟨rfl, _, rfl, by simp⟩
  · obtain rfl := Option.some.inj (hhold.symm.trans h1)
    exact ⟨_, rfl, by simp [h2]⟩
  · cases h1
    exact ⟨h, hhold, h2⟩
  · change o = some u at hu
    rcases ho with rfl | ⟨rfl, -⟩
    · cases hu
    · cases hu
      rfl

/-- `kfork` makes itself the parent of its child. -/
lemma spec_adopt (haway : g.away = false) (hawake : g.phase = .awake) (hhold : g.hold = some newly)
    (hmaking : g.making = some ⟨q, true, false⟩) :
    Spec initproc (.proc p : Ctx NPROC NCPU) (.set q (.parent (some p))) g
      fun _ g' => g' = { g with making := some ⟨q, true, true⟩ } := by
  refine spec_of haway trivial fun s γ fail w' r hi hg hs => ⟨_, ?_, rfl⟩
  cases hs
  have hw : watch (.proc p : Ctx NPROC NCPU) (.set q (.parent (some p))) () s.1 s.2 =
      { s.2 with forker := Function.update s.2.forker q (some p) } := by
    simp [watch, note]
  rw [hw]
  obtain ⟨s', hs'⟩ : ∃ s' : State NPROC NCPU ι, s' =
      (setProc q (Field.write (s.1.proc q) (.parent (some p))) s.1,
        { s.2 with forker := Function.update s.2.forker q (some p) }) := ⟨_, rfl⟩
  have hhist : s'.2 = { s.2 with forker := Function.update s.2.forker q (some p) } := by rw [hs']
  have ha : Assign (.proc p) q (Field.write (s.1.proc q) (.parent (some p))) s s' := by
    subst hs'
    exact ⟨rfl, rfl, rfl, rfl, rfl, fun _ _ => rfl, .inl rfl, fun _ _ h => h⟩
  have hl := hi.each (.proc p)
  rw [hg] at hl
  have hok := hl.hold newly hhold
  have hmk := hl.making _ hmaking
  have hused : (s.1.proc q).state = .used := hmk.used
  have hrun := running hl hawake
  have hne : p ≠ q := by
    rintro rfl
    rw [hrun.1] at hused
    cases hused
  have hstate : ∀ u, (s'.1.proc u).state = (s.1.proc u).state := ha.field Proc.state rfl
  have hphase : ∀ p ph, PhaseOk s p ph → PhaseOk s' p ph := fun p ph hp =>
    phase_congr hp (hstate p) (ha.field Proc.chan rfl p) ha.fresh
  rw [← hs']
  refine hi.step hg (ha.rely (fun _ ph => hphase q ph) (.inl ⟨rfl, rfl, rfl⟩) (.inr hok.lock)
    (fun hm => absurd ⟨_, hmaking, rfl⟩ hm) fun u _ h => by rw [hused] at h; cases h) ?_
    (ha.tree hi hg (fun m hm => ?_) (fun u hu => .inr ?_) (fun h => .inl ?_) (fun h => ?_)
      (fun _ h => h) (fun u _ hc => committed_congr rfl (hstate u) hc) (fun u _ h => ?_)
      (fun x h1 h2 => ⟨x, h1, h2⟩) fun x u h1 h2 => ⟨x, h1, h2⟩)
    (ha.book hi hg (by rw [hhist]) (by rw [hhist]) (by rw [hhist]) (fun r hr => ?_)
      (fun u hu => .inr (.inr ?_)) id (fun i _ => ⟨rfl, rfl, rfl⟩) fun k hk hf => .inl ⟨k, hk, rfl, hf⟩)
  · refine ⟨fun u hu => ?_, fun u hu => hphase u _ (hl.phase u hu), fun u b _ hb => ?_,
      fun u k addr _ hk => ?_, fun x hx => ?_,
      fun k hk => ha.grip_same (hl.grip k hk) (by rw [hhist]) rfl rfl rfl, fun m hm => ?_,
      fun u hu => ?_, fun u r hu hr => ?_, fun u n hu hn => ?_, fun u _ hg => ?_⟩
    · rw [ha.away]
      exact hl.here u hu
    · change g.phase = .falling b at hb
      rw [hawake] at hb
      cases hb
    · change g.phase = .asleep k at hk
      rw [hawake] at hk
      cases hk
    · obtain rfl := Option.some.inj (hhold.symm.trans hx)
      exact ⟨by rw [ha.lock]; exact hok.lock, by simp [newly], by simp [newly], by simp [newly]⟩
    · cases hm
      exact ⟨(hstate q).trans hused, fun _ => by rw [ha.fresh]; exact hmk.ready rfl, fun h => by cases h⟩
    · rw [hhist]
      exact hl.call u hu
    · refine ha.failed (fun h _ => ?_) (hl.failed u r hu hr)
      rw [hused] at h
      cases h
    · rw [hhist]
      exact hl.got u n hu hn
    · change g.phase = .gone at hg
      rw [hawake] at hg
      cases hg
  · cases hm
    exact .inl ⟨_, hmaking, rfl⟩
  · change some p = some u at hu
    cases hu
    rw [Alive, hstate]
    exact .inl hrun.1
  · simpa only [Alive, hstate] using h
  · change (s.1.proc q).state = .unused at h
    rw [hused] at h
    cases h
  · change (s.1.proc q).state = .zombie at h
    rw [hused] at h
    cases h
  · rw [hhist]
    exact Function.update_of_ne hr ..
  · change some p = some u at hu
    cases hu
    rw [hhist]
    exact Function.update_self ..

/-! ### Going away and coming back -/

/-- A process goes away to sleep, or for good. -/
lemma spec_leave {x : Option (Proc NPROC ι Empty)} (haway : g.away = false)
    (hphase : (∃ kids, g.phase = .asleep kids) ∨ g.phase = .gone) (hgrip : g.grip = some ⟨p, x, false⟩)
    (hhold : g.hold = none) (hmaking : g.making = none) :
    Spec initproc (.proc p : Ctx NPROC NCPU) .swtchBack g
      fun _ g' => g' = { g with away := true, grip := none } := by
  refine spec_of haway trivial fun s γ fail w' r hi hg hs => ⟨_, ?_, rfl⟩
  obtain ⟨hlock, rfl⟩ := leave_ok hs
  change Inv (leave p s.1, s.2) initproc _
  have hl := hi.each (.proc p)
  rw [hg] at hl
  have hfall : ∀ b, g.phase ≠ .falling b := by
    rcases hphase with ⟨kids, h⟩ | h <;> simp [h]
  have hother : ∀ u, Ctx.proc p ≠ (Ctx.proc u : Ctx NPROC NCPU) → u ≠ p := by
    rintro u hu rfl
    exact hu rfl
  refine hi.step hg ⟨fun u l hu h => ?_, fun u hu => Function.update_of_ne (hother u hu) ..,
    fun _ _ _ h => h, fun _ _ _ _ => ⟨rfl, rfl, rfl, rfl⟩, fun _ _ _ _ => ⟨rfl, id⟩,
    fun _ _ h => ⟨h.used, h.ready, h.adopted⟩, fun _ _ => ⟨rfl, rfl⟩, fun _ _ _ h1 h2 => ⟨h1, h2⟩,
    fun _ _ h => h⟩ ?_
    (Tree.step hi hg (fun m hm => .inl ⟨m, hm, rfl⟩) (fun _ _ h => .inl h) (fun _ h => .inl h)
      hi.tree.unused (fun _ _ h => h) (fun _ _ h => .inl h) (fun _ _ h1 h2 => .inl ⟨h1, h2⟩)
      (fun h h1 h2 => .inl ⟨h, h1, h2⟩) fun h u h1 h2 => .inl ⟨h, h1, h2⟩)
    (Book.step hi hg rfl rfl rfl (fun _ _ h => .inl ⟨h, rfl⟩) (fun _ h => h)
      (fun _ _ _ => ⟨rfl, rfl, rfl⟩) fun k hk hf => ?_)
  · have hne : l ≠ .proc p := by
      rintro rfl
      rw [hlock] at h
      exact hu (Option.some.inj h).symm
    simpa [leave, setLock, hne] using h
  · refine ⟨fun u hu => ?_, hl.phase, fun u b _ hb => absurd hb (hfall b), hl.kids, fun h hh => ?_,
      fun k hk => (by cases hk), fun m hm => ?_, hl.call, hl.failed, hl.got,
      fun u _ _ => .inr ⟨rfl, hhold, hmaking⟩⟩
    · cases hu
      exact Function.update_self ..
    · change g.hold = some h at hh
      rw [hhold] at hh
      cases hh
    · change g.making = some m at hm
      rw [hmaking] at hm
      cases hm
  · rw [hgrip] at hk
    cases hk
    cases hf

/-- A process starts, or comes back, with its lock. -/
lemma resume_inv (hi : Inv s initproc γ) (hg : γ (.proc p) = g)
    (hstate : (s.1.proc p).state = .runnable) (hlock : s.1.lock (.proc p) = none)
    (hgrip : g.grip = none) (hhold : g.hold = none) (hmaking : g.making = none) :
    Inv (resume p { s.1 with fresh := Function.update s.1.fresh p false }, s.2) initproc
      (Function.update γ (.proc p)
        { g with away := false, phase := .awake, grip := some ⟨p, none, false⟩ }) := by
  have hl := hi.each (.proc p)
  rw [hg] at hl
  obtain ⟨s', hs'⟩ : ∃ s' : State NPROC NCPU ι, s' =
      (resume p { s.1 with fresh := Function.update s.1.fresh p false }, s.2) := ⟨_, rfl⟩
  have hhist : s'.2 = s.2 := by rw [hs']
  have hself : s'.1.proc p = { s.1.proc p with state := .running } := by
    rw [hs']
    exact Function.update_self ..
  have hproc : ∀ u, u ≠ p → s'.1.proc u = s.1.proc u := by
    intro u hu
    rw [hs']
    exact Function.update_of_ne hu ..
  have hfresh : ∀ u, u ≠ p → s'.1.fresh u = s.1.fresh u := by
    intro u hu
    rw [hs']
    exact Function.update_of_ne hu ..
  have hstarted : s'.1.fresh p = false := by
    rw [hs']
    exact Function.update_self ..
  have hawayp : s'.1.away p = false := by
    rw [hs']
    exact Function.update_self ..
  have haway : ∀ u, u ≠ p → s'.1.away u = s.1.away u := by
    intro u hu
    rw [hs']
    exact Function.update_of_ne hu ..
  have hown : s'.1.lock (.proc p) = some (.proc p) := by
    rw [hs']
    exact Function.update_self ..
  have hlocks : ∀ l, l ≠ .proc p → s'.1.lock l = s.1.lock l := by
    intro l hl
    rw [hs']
    exact Function.update_of_ne hl ..
  have hparent : ∀ u, (s'.1.proc u).parent = (s.1.proc u).parent := by
    intro u
    by_cases hu : u = p
    · rw [hu, hself]
    · rw [hproc u hu]
  have hzombie : ∀ u, (s'.1.proc u).state = .zombie → (s.1.proc u).state = .zombie := by
    intro u hu
    by_cases hup : u = p
    · rw [hup, hself] at hu
      cases hu
    · rwa [hproc u hup] at hu
  have hnz : (s.1.proc p).state ≠ .zombie := by simp [hstate]
  have hother : ∀ u, Ctx.proc p ≠ (Ctx.proc u : Ctx NPROC NCPU) → u ≠ p := by
    rintro u hu rfl
    exact hu rfl
  rw [← hs']
  refine hi.step hg ⟨fun u l _ h => ?_, fun u hu => haway u (hother u hu), fun u ph hu h => ?_,
    fun u q _ h => ?_, fun u _ _ q => ⟨hparent q, hzombie q⟩, fun m _ h => ?_,
    fun _ _ => by rw [hhist]; exact ⟨rfl, rfl⟩, fun u q _ h1 h2 => ?_, fun n r h => by rw [hhist]; exact h⟩ ?_
    (Tree.step hi hg (fun m hm => .inl ⟨m, hm, rfl⟩) (fun q u h => .inl (hparent q ▸ h)) (fun u h => .inl ?_)
      (fun q h => ?_) (fun u hu h => ?_) (fun u _ h => absurd h (not_committed_awake rfl))
      (fun u q h1 h2 => .inl ⟨hparent q ▸ h1, hzombie q h2⟩)
      (fun h h1 h2 => .inl ⟨h, h1, h2⟩) fun h u h1 h2 => .inl ⟨h, h1, h2⟩)
    (Book.step hi hg (by rw [hhist]) (by rw [hhist]) (by rw [hhist])
      (fun q u h => .inl ⟨hparent q ▸ h, by rw [hhist]⟩) hzombie (fun q i h => ?_) fun k hk _ => ?_)
  · by_cases hlp : l = .proc p
    · rw [hlp, hlock] at h
      cases h
    · rwa [hlocks l hlp]
  · have hup := hother u hu
    cases ph <;> simpa only [PhaseOk, hproc u hup, hfresh u hup] using h
  · have hqp : q ≠ p := by
      rintro rfl
      rw [hlock] at h
      cases h
    rw [hproc q hqp, hhist]
    exact ⟨rfl, rfl, rfl, rfl⟩
  · have hmp : m.slot ≠ p := by
      intro hmp
      have hused := h.used
      rw [hmp, hstate] at hused
      cases hused
    exact ⟨by rw [hproc _ hmp]; exact h.used, by rw [hfresh _ hmp]; exact h.ready,
      by rw [hproc _ hmp]; exact h.adopted⟩
  · have hqp : q ≠ p := by
      rintro rfl
      exact hnz h1
    rw [hproc q hqp]
    exact ⟨h1, h2⟩
  · refine ⟨fun u hu => ?_, fun u hu => ?_, fun u b _ hb => (by cases hb), fun u k addr _ hk => (by cases hk),
      fun h hh => ?_, fun k hk => ?_, fun m hm => ?_, fun u hu => ?_, fun u q hu hq => ?_,
      fun u n hu hn => ?_, fun u _ hgone => (by cases hgone)⟩
    · cases hu
      exact hawayp
    · cases hu
      exact ⟨by rw [hself], hstarted⟩
    · change g.hold = some h at hh
      rw [hhold] at hh
      cases hh
    · cases hk
      exact ⟨hown, fun u hu hne => by cases hu; exact absurd rfl hne, by simp, by simp⟩
    · change g.making = some m at hm
      rw [hmaking] at hm
      cases hm
    · rw [hhist]
      exact hl.call u hu
    · obtain ⟨h1, h2⟩ := hl.failed u q hu hq
      have hqp : q ≠ p := by
        rintro rfl
        exact hnz h1
      rw [hproc q hqp]
      exact ⟨h1, h2⟩
    · rw [hhist]
      exact hl.got u n hu hn
  · by_cases hup : u = p
    · rw [hup, Alive, hself]
      exact .inl rfl
    · rw [Alive, hproc u hup]
      exact h
  · by_cases hqp : q = p
    · rw [hqp, hself] at h
      cases h
    · rw [hproc q hqp] at h ⊢
      exact hi.tree.unused q h
  · rwa [hproc u (hother u hu)] at h
  · have hqp : q ≠ p := by
      rintro rfl
      exact hnz (hi.book.corpse q i h).1
    rw [hproc q hqp]
    exact ⟨rfl, rfl, rfl⟩
  · rw [hgrip] at hk
    cases hk

/-- A process is back from `sched`: it has slept, for one that has exited does not come back. -/
lemma spec_back {b : Bool} {Q : Unit → Ghost NPROC ι → Prop} (haway : g.away = true)
    (hgrip : g.grip = none) (hhold : g.hold = none) (hmaking : g.making = none)
    (hphase : (∃ kids, g.phase = .asleep kids) ∨ g.phase = .gone)
    (hQ : (∃ kids, g.phase = .asleep kids) →
      Q () { g with away := false, phase := .awake, grip := some ⟨p, none, false⟩ }) :
    Spec initproc (.proc p : Ctx NPROC NCPU) (.setIntena b) g Q := by
  refine ⟨trivial, fun s γ fail hi hg o ho => ?_⟩
  change Inv s initproc γ at hi
  have hl := hi.each (.proc p)
  rw [hg] at hl
  cases o with
  | panic msg => trivial
  | ok s' r =>
    obtain ⟨w', h'⟩ := s'
    obtain ⟨hsem, hh⟩ := observe_ok.mp ho
    dsimp only at hsem hh
    subst hh
    obtain ⟨w₁, hback, hstep⟩ := sem_cases hsem
    cases hstep
    rcases back_cases hback with ⟨-, hhere⟩ | ⟨u, hu, -, hstate, hlock, hfresh, rfl⟩
    · have := hhere p rfl
      rw [hl.here p rfl, haway] at this
      cases this
    · cases hu
      have hslept : ∃ kids, g.phase = .asleep kids := by
        refine hphase.resolve_right fun hgone => ?_
        have hown := hl.phase p rfl
        rw [hgone] at hown
        rw [hown.2.2 hstate] at hfresh
        cases hfresh
      refine ⟨_, ?_, hQ hslept⟩
      have hres := resume_inv hi hg hstate hlock hgrip hhold hmaking
      have hsame : ({ s.1 with fresh := Function.update s.1.fresh p false } : World NPROC NCPU ι Empty) =
          s.1 := by
        rw [← hfresh, Function.update_eq_self]
      rw [hsame] at hres
      exact hres

end Xv6.Proc.Changes
