import Xv6.Ipc.Waits

/-!
The window between the test of `killed` and the sleep. In the runs in which no kill falls into
it, a process that is about to sleep is not killed, and one that sleeps and is killed is so by a
kill that has still to wake it up.
-/

namespace Xv6.Ipc.Window

open Xv6.Conc Xv6.Conc.Prog Xv6.Conc.Proto Xv6.Sched.Kernel Xv6.Proc.Coarse Xv6.Ipc.Waits
open Xv6.Sched.Table hiding step sem setProc setLock
open Xv6.Ipc.Pipes hiding State Request History Enter watch serve start

variable {NPROC NCPU : ℕ}

/-- A kill falls into the window of its victim. -/
def intrudes : KAct NPROC → History NPROC NCPU → Bool
  | .inl (.inl (.set q (.killed true))), h => h.dozing q
  | _, _ => false

/-- The runs in which no kill falls into the window of its victim. -/
def timely (initproc : Fin NPROC) (NCPU : ℕ) : Sys (State NPROC NCPU) (Ctx NPROC NCPU)
    ((Bool × Bool × Byte) × Bool) (KAct NPROC) (Both (Both Res PRes) DRes) ℤ :=
  (waits initproc NCPU).restrict fun _ a s => intrudes a s.2 = false

/-! ### Ghost state -/

/-- How far a thread that holds the lock of a process is with killing it. -/
inductive Grip | held | hit | settled
  deriving DecidableEq

structure Ghost (NPROC : ℕ) where
  serving : Option Request
  /-- It knows that it is about to sleep. -/
  dozing : Bool
  /-- The process whose lock it holds. -/
  grip : Option (Fin NPROC × Grip)
  /-- It holds `pi->lock`. -/
  holds : Bool
  /-- What it knows the pipe to be. -/
  pipe : Option Pipe

/-- What a ghost value says of its thread. -/
structure Local (s : State NPROC NCPU) (t : Ctx NPROC NCPU) (g : Ghost NPROC) : Prop where
  serving : ∀ p, t = .proc p → s.2.serving p = g.serving
  dozing : ∀ p, t = .proc p → g.dozing = true → s.2.dozing p = true
  grip : ∀ q k, g.grip = some (q, k) → s.1.1.1.lock (.proc q) = some t
  settled : ∀ q, g.grip = some (q, .settled) → (s.1.1.1.proc q).state ≠ .sleeping
  hitting : ∀ q, s.2.hitting t = some q → ∃ k, g.grip = some (q, k) ∧ k ≠ .held
  holds : g.holds = true → s.1.1.1.lock pipeLock = some t
  know : ∀ d, g.pipe = some d → g.holds = true ∧ s.1.1.2 = d

/-- What the kills have come to. -/
structure Kills (s : State NPROC NCPU) : Prop where
  dozing : ∀ p, s.2.dozing p = true → (s.1.1.1.proc p).killed = false
  asleep : ∀ q, (s.1.1.1.proc q).state = .sleeping → (s.1.1.1.proc q).killed = true →
    s.2.struck q = false
  struck : ∀ q, s.2.struck q = true → (s.1.1.1.proc q).killed = true

structure Inv (s : State NPROC NCPU) (γ : Ctx NPROC NCPU → Ghost NPROC) : Prop where
  each : ∀ t, Local s t (γ t)
  kills : Kills s

/-! ### Steps -/

section Steps

variable {s s' : State NPROC NCPU} {γ : Ctx NPROC NCPU → Ghost NPROC} {t u : Ctx NPROC NCPU}
  {g g' : Ghost NPROC} {p q : Fin NPROC} {w w' : World NPROC NCPU Site Empty} {pi : Pipe} {d : Dev}
  {h h' : History NPROC NCPU} {fail : Bool} {a : Act NPROC Site Empty} {r : Res a}

/-- What the other threads may rely on when `t` makes a step. -/
structure Rely (t : Ctx NPROC NCPU) (s s' : State NPROC NCPU) : Prop where
  lock : ∀ u l, u ≠ t → s.1.1.1.lock l = some u → s'.1.1.1.lock l = some u
  sleep : ∀ q, (s'.1.1.1.proc q).state = .sleeping →
    (s.1.1.1.proc q).state = .sleeping ∨ s.1.1.1.lock (.proc q) = some t
  pipe : s'.1.1.2 = s.1.1.2 ∨ s.1.1.1.lock pipeLock = some t
  serving : ∀ p, t ≠ .proc p → s'.2.serving p = s.2.serving p
  dozing : ∀ p, t ≠ .proc p → s'.2.dozing p = s.2.dozing p
  hitting : ∀ u, u ≠ t → s'.2.hitting u = s.2.hitting u

/-- What a thread knows survives the steps of the others. -/
lemma Local.stable (hl : Local s u g) (hr : Rely t s s') (hu : u ≠ t) : Local s' u g := by
  have hother : ∀ p, u = .proc p → t ≠ .proc p := fun p hp ht => hu (hp.trans ht.symm)
  have hexcl : ∀ l, s.1.1.1.lock l = some u → s.1.1.1.lock l ≠ some t := fun l h1 h2 =>
    hu (Option.some.inj (h1.symm.trans h2))
  refine ⟨fun p hp => ?_, fun p hp hd => ?_, fun q k hq => hr.lock _ _ hu (hl.grip q k hq),
    fun q hq hs => ?_, fun q hh => ?_, fun hh => hr.lock _ _ hu (hl.holds hh),
    fun d hd => ⟨(hl.know d hd).1, ?_⟩⟩
  · rw [hr.serving p (hother p hp)]
    exact hl.serving p hp
  · rw [hr.dozing p (hother p hp)]
    exact hl.dozing p hp hd
  · rcases hr.sleep q hs with h | h
    · exact hl.settled q hq h
    · exact hexcl _ (hl.grip q _ hq) h
  · rw [hr.hitting u hu] at hh
    exact hl.hitting q hh
  · rcases hr.pipe with h | h
    · rw [h, (hl.know d hd).2]
    · exact absurd h (hexcl _ (hl.holds (hl.know d hd).1))

lemma Inv.step (hi : Inv s γ) (hr : Rely t s s') (hl : Local s' t g') (hk : Kills s') :
    Inv s' (Function.update γ t g') := by
  refine ⟨fun u => ?_, hk⟩
  by_cases hu : u = t
  · rw [hu, Function.update_self]
    exact hl
  · rw [Function.update_of_ne hu]
    exact (hi.each u).stable hr hu

lemma resume_killed (q : Fin NPROC) :
    ((resume p w).proc q).killed = (w.proc q).killed := by
  by_cases hq : q = p
  · subst hq
    simp [resume, setLock, setProc]
  · simp [resume, setLock, setProc, hq]

lemma back_killed (hb : back t w = some w') (q : Fin NPROC) :
    (w'.proc q).killed = (w.proc q).killed := by
  rcases back_cases hb with ⟨rfl, -⟩ | ⟨p, -, -, -, -, -, rfl⟩
  · rfl
  · exact resume_killed q

/-- The scheduler's switch to a process changes nothing that matters here. -/
lemma Inv.resumed (hi : Inv (((w, pi), d), h) γ) (hfree : w.lock (.proc p) = none) :
    Inv (((resume p w, pi), d), h) γ := by
  have hlock : ∀ u l, w.lock l = some u → (resume p w).lock l = some u := by
    intro u l hl
    have hne : l ≠ .proc p := by
      rintro rfl
      rw [hfree] at hl
      cases hl
    simpa [resume, setLock, setProc, hne] using hl
  have hsleep : ∀ q, ((resume p w).proc q).state = .sleeping →
      (w.proc q).state = .sleeping := by
    intro q hq
    by_cases hqp : q = p
    · subst hqp
      simp [resume, setLock, setProc] at hq
    · simpa [resume, setLock, setProc, hqp] using hq
  refine ⟨fun u => ?_, ⟨fun q hq => ?_, fun q hq hk => ?_, fun q hq => ?_⟩⟩
  · have hl := hi.each u
    exact { hl with
      grip := fun q k hq => hlock _ _ (hl.grip q k hq)
      settled := fun q hq hs => hl.settled q hq (hsleep q hs)
      holds := fun hh => hlock _ _ (hl.holds hh) }
  · exact (resume_killed q).trans (hi.kills.dozing q hq)
  · exact hi.kills.asleep q (hsleep q hq) ((resume_killed q).symm.trans hk)
  · exact (resume_killed q).trans (hi.kills.struck q hq)

lemma Inv.back (hi : Inv (((w, pi), d), h) γ) (hb : back t w = some w') :
    Inv (((w', pi), d), h) γ := by
  rcases back_cases hb with ⟨rfl, -⟩ | ⟨p, rfl, -, -, hfree, -, rfl⟩
  · exact hi
  · exact hi.resumed hfree

/-- A process begins something new, and forgets what it knew. -/
lemma Inv.begin (hi : Inv s γ) (o : Option Request) :
    Inv (s.1, s.2.begin p o) (Function.update γ (.proc p) ⟨o, false, none, false, none⟩) := by
  have hothers : ∀ q, Ctx.proc p ≠ (.proc q : Ctx NPROC NCPU) → q ≠ p := fun q hq h =>
    hq (by rw [h])
  refine hi.step ⟨fun _ _ _ h => h, fun _ h => .inl h, .inl rfl, fun q hq => ?_, fun q hq => ?_,
    fun u hu => ?_⟩ {
      serving := fun q hq => ?_
      dozing := fun q hq hd => by cases hd
      grip := fun q k hq => by cases hq
      settled := fun q hq => by cases hq
      hitting := fun q hq => ?_
      holds := fun hh => by cases hh
      know := fun d hd => by cases hd } ⟨fun q hq => ?_, hi.kills.asleep, hi.kills.struck⟩
  · simp [History.begin, hothers q hq]
  · simp [History.begin, hothers q hq]
  · simp [History.begin, hu]
  · cases hq
    simp [History.begin]
  · simp [History.begin] at hq
  · by_cases hqp : q = p
    · subst hqp
      simp [History.begin] at hq
    · exact hi.kills.dozing q (by simpa [History.begin, hqp] using hq)

/-! What a step does to a process, and what the history makes of it. -/

lemma sleeping_step (hs : step t fail a w = some (.ok w' r))
    (hq : (w'.proc q).state = .sleeping) :
    (w.proc q).state = .sleeping ∨ a = .set q (.state .sleeping) := by
  rcases proc_step hs q with h | ⟨f, rfl, h⟩
  · exact .inl (by rwa [← h])
  · rw [h] at hq
    cases f with
    | state st =>
      cases hq
      exact .inr rfl
    | _ => exact .inl hq

lemma killed_step (hs : step t fail a w = some (.ok w' r)) (q : Fin NPROC) :
    (w'.proc q).killed = (w.proc q).killed ∨ ∃ b, a = .set q (.killed b) ∧
      (w'.proc q).killed = b := by
  rcases proc_step hs q with h | ⟨f, rfl, h⟩
  · exact .inl (by rw [h])
  · rw [h]
    cases f with
    | killed b => exact .inr ⟨b, rfl, rfl⟩
    | _ => exact .inl rfl

lemma note_serving {s : Shared NPROC NCPU} : (note t a s h).serving = h.serving := by
  unfold note
  split <;> first | rfl | (split_ifs <;> rfl)

lemma note_hitting {s : Shared NPROC NCPU} (hu : u ≠ t) :
    (note t a s h).hitting u = h.hitting u := by
  unfold note
  split <;> first | rfl | (split_ifs <;> simp [hu]) | simp [hu]

/-- A process comes to doze by its test of `killed`, and ceases to when it sleeps. -/
lemma note_dozing {s : Shared NPROC NCPU} (ha : a ≠ .set p (.state .sleeping)) :
    (note t a s h).dozing p = h.dozing p ∨ t = .proc p ∧ a = .get p ∧ Dozes s h p ∧
      (note t a s h).dozing p = true := by
  unfold note
  split
  case h_1 q =>
    split_ifs with hc
    · by_cases hq : p = q
      · subst hq
        exact .inr ⟨hc.1, rfl, hc.2, by simp⟩
      · exact .inl (by simp [hq])
    · exact .inl rfl
  case h_2 q =>
    have hq : p ≠ q := fun h => ha (by rw [h])
    exact .inl (by simp [hq])
  case h_5 q =>
    split_ifs
    · exact .inl rfl
    · exact .inl rfl
  all_goals exact .inl rfl

/-- A kill is over when the lock is released after it; it is forgotten with the flag. -/
lemma note_struck {s : Shared NPROC NCPU} :
    (note t a s h).struck q = h.struck q ∧ a ≠ .set q (.killed false) ∨
      a = .set q (.killed false) ∧ (note t a s h).struck q = false ∨
      a = .release (.proc q) ∧ h.hitting t = some q ∧
        (note t a s h).struck q = (s.1.1.proc q).killed := by
  unfold note
  split
  case h_1 =>
    left
    split_ifs
    · exact ⟨rfl, by simp⟩
    · exact ⟨rfl, by simp⟩
  case h_4 q' =>
    by_cases hq : q = q'
    · subst hq
      exact .inr (.inl ⟨rfl, by simp⟩)
    · exact .inl ⟨by simp [hq], by simpa using fun h => hq h.symm⟩
  case h_5 q' =>
    split_ifs with hc
    · by_cases hq : q = q'
      · subst hq
        exact .inr (.inr ⟨rfl, hc, by simp⟩)
      · exact .inl ⟨by simp [hq], by simp⟩
    · exact .inl ⟨rfl, by simp⟩
  case h_6 hne _ => exact .inl ⟨rfl, fun h => hne _ h⟩
  all_goals exact .inl ⟨rfl, by simp⟩

/-- What a thread is hitting, after a step in which it sets no flag. -/
lemma note_hits {s : Shared NPROC NCPU} (ha : ∀ q, a ≠ .set q (.killed true))
    (hq : (note t a s h).hitting t = some q) :
    h.hitting t = some q ∧ a ≠ .release (.proc q) := by
  unfold note at hq
  split at hq
  case h_1 =>
    split_ifs at hq
    · exact ⟨hq, by simp⟩
    · exact ⟨hq, by simp⟩
  case h_3 q' => exact absurd rfl (ha q')
  case h_5 q' =>
    split_ifs at hq with hc
    · simp at hq
    · refine ⟨hq, fun h => hc ?_⟩
      cases h
      exact hq
  case h_6 hne => exact ⟨hq, fun h => hne q h⟩
  all_goals exact ⟨hq, by simp⟩

/-- The actions that have nothing to do with kills, sleeping or the pipe. -/
def Plain : Act NPROC Site Empty → Prop
  | .set _ (.killed true) | .set _ (.state .sleeping) => False
  | .acquire l | .release l => l ≠ pipeLock
  | _ => True

/-- The thread goes on holding the lock that it is known to hold. -/
def Keeps (g : Ghost NPROC) (a : Act NPROC Site Empty) : Prop :=
  ∀ q k, g.grip = some (q, k) → a ≠ .release (.proc q) ∧ a ≠ .swtchBack

lemma keeps_of_none (hg : g.grip = none) : Keeps g a := fun q k h => by
  rw [hg] at h
  cases h

variable {v : World NPROC NCPU Site Empty}

/-- The kills, after a step that sets no flag and by which nobody falls asleep. -/
lemma Kills.step (hk : Kills (((w, pi), d), h)) (hs : step t fail a w = some (.ok w' r))
    (hb : back t v = some w)
    (hset : ∀ q, a ≠ .set q (.killed true)) (hsleep : ∀ q, a ≠ .set q (.state .sleeping))
    (hrel : ∀ q, a = .release (.proc q) → h.hitting t = some q → (w.proc q).state ≠ .sleeping) :
    Kills (((w', pi), d), note t a ((v, pi), d) h) := by
  have hasleep : ∀ q, (w'.proc q).state = .sleeping → (w.proc q).state = .sleeping := fun q hq =>
    (sleeping_step hs hq).resolve_right (hsleep q)
  have hkilled : ∀ q, (w'.proc q).killed = (w.proc q).killed ∨
      a = .set q (.killed false) ∧ (w'.proc q).killed = false := by
    intro q
    rcases killed_step hs q with h | ⟨b, rfl, h⟩
    · exact .inl h
    · cases b with
      | true => exact absurd rfl (hset q)
      | false => exact .inr ⟨rfl, h⟩
  refine ⟨fun p hp => ?_, fun q hq hkq => ?_, fun q hq => ?_⟩
  · have hbefore : (w.proc p).killed = false := by
      rcases note_dozing (hsleep p) with h1 | ⟨-, -, h1, -⟩
      · exact hk.dozing p (h1.symm.trans hp)
      · exact (back_killed hb p).trans h1.2.1
    rcases hkilled p with h2 | h2
    · exact h2.trans hbefore
    · exact h2.2
  · have hbefore : (w.proc q).killed = true := by
      rcases hkilled q with h2 | h2
      · exact h2.symm.trans hkq
      · exact absurd (h2.2.symm.trans hkq) (by simp)
    rcases note_struck with ⟨h1, -⟩ | ⟨-, h1⟩ | ⟨ha, h1, -⟩
    · exact h1.trans (hk.asleep q (hasleep q hq) hbefore)
    · exact h1
    · exact absurd (hasleep q hq) (hrel q ha h1)
  · rcases note_struck with ⟨h1, h2⟩ | ⟨-, h1⟩ | ⟨ha, -, h1⟩
    · rcases hkilled q with h3 | h3
      · exact h3.trans (hk.struck q (h1.symm.trans hq))
      · exact absurd h3.1 h2
    · exact absurd (h1.symm.trans hq) (by simp)
    · rcases hkilled q with h3 | h3
      · exact h3.trans ((back_killed hb q).trans (h1.symm.trans hq))
      · exact absurd (ha.symm.trans h3.1) (by simp)

/-- What the others rely on in a step by which nobody else falls asleep. -/
lemma rely_step (hs : step t fail a w = some (.ok w' r))
    (hsleep : ∀ q, a = .set q (.state .sleeping) → w.lock (.proc q) = some t ∧ t = .proc q) :
    Rely t (((w, pi), d), h) (((w', pi), d), note t a ((v, pi), d) h) := by
  refine ⟨fun u l hu hl => lock_step hs hl (.inl hu), fun q hq => ?_, .inl rfl,
    fun p _ => by rw [note_serving], fun p hp => ?_, fun u hu => note_hitting hu⟩
  · exact (sleeping_step hs hq).imp id fun ha => (hsleep q ha).1
  · rcases note_dozing fun ha => hp (hsleep p ha).2 with h1 | ⟨h1, -⟩
    · exact h1
    · exact absurd h1 hp

/-- What a thread knows survives its own plain step. -/
lemma Local.plain (hl : Local (((w, pi), d), h) t g) (hs : step t fail a w = some (.ok w' r))
    (ha : Plain a) (hk : Keeps g a) :
    Local (((w', pi), d), note t a ((v, pi), d) h) t g := by
  have hsleep : ∀ q, a ≠ .set q (.state .sleeping) := by
    rintro q rfl
    exact ha
  refine ⟨fun p hp => ?_, fun p hp hd => ?_, fun q k hq => ?_, fun q hq hsl => ?_, fun q hq => ?_,
    fun hh => ?_, hl.know⟩
  · rw [note_serving]
    exact hl.serving p hp
  · rcases note_dozing (hsleep p) with h1 | ⟨-, -, -, h1⟩
    · exact h1.trans (hl.dozing p hp hd)
    · exact h1
  · exact lock_step hs (hl.grip q k hq) (.inr ⟨(hk q k hq).1, fun _ _ => (hk q k hq).2⟩)
  · exact hl.settled q hq ((sleeping_step hs hsl).resolve_right (hsleep q))
  · refine hl.hitting q (note_hits ?_ hq).1
    rintro q' rfl
    exact ha
  · refine lock_step hs (hl.holds hh) (.inr ⟨?_, fun p hp => by cases hp⟩)
    rintro rfl
    exact ha rfl

end Steps

/-! ### Specifications -/

variable {initproc : Fin NPROC} {t : Ctx NPROC NCPU} {g : Ghost NPROC} {p q : Fin NPROC}

def proto (initproc : Fin NPROC) (NCPU : ℕ) : Proto (timely initproc NCPU) where
  Ghost := Ghost NPROC
  Inv := Inv
  May _ _ := True
  Ok _ := True

abbrev Spec (initproc : Fin NPROC) (t : Ctx NPROC NCPU) (a : KAct NPROC) (g : Ghost NPROC)
    (Q : KRes a → Ghost NPROC → Prop) : Prop :=
  (proto initproc NCPU).Spec t a g Q

lemma waits_low {a : Act NPROC Site Empty} {c : (Bool × Bool × Byte) × Bool}
    {s s' : State NPROC NCPU} {r : Res a} :
    (waits initproc NCPU).sem t (.inl (.inl a)) c s = some (.ok s' r) ↔
      (sem t a c.1.1 s.1.1.1 = some (.ok s'.1.1.1 r) ∧ s'.1.1.2 = s.1.1.2) ∧
        s'.1.2 = s.1.2 ∧ s'.2 = note t a s.1 s.2 := by
  unfold waits Sys.reenter
  rw [observe_ok, join_left, join_left, and_assoc]
  rfl

lemma waits_pipe {b : PAct} {c : (Bool × Bool × Byte) × Bool} {s s' : State NPROC NCPU}
    {r : PRes b} : (waits initproc NCPU).sem t (.inl (.inr b)) c s = some (.ok s' r) ↔
      (pipeStep t b c.1.2 s.1.1.2 = some (s'.1.1.2, r) ∧ s'.1.1.1 = s.1.1.1) ∧
        s'.1.2 = s.1.2 ∧ s'.2 = s.2 := by
  unfold waits Sys.reenter
  rw [observe_ok, join_left, join_right, and_assoc]
  rfl

lemma waits_gear {b : DAct} {c : (Bool × Bool × Byte) × Bool} {s s' : State NPROC NCPU}
    {r : DRes b} : (waits initproc NCPU).sem t (.inr b) c s = some (.ok s' r) ↔
      devStep t b c.2 s.1.2 = some (s'.1.2, r) ∧ s'.1.1 = s.1.1 ∧ s'.2 = s.2 := by
  unfold waits Sys.reenter
  rw [observe_ok, join_right, and_assoc]
  rfl

section Table

variable {a : Act NPROC Site Empty}

/-- An action of the process table, by a thread that is back. -/
lemma spec_base {Q : Res a → Ghost NPROC → Prop}
    (hstep : ∀ w₀ w pi d h fail w' r, back t w₀ = some w → Kills (((w, pi), d), h) →
      Local (((w₀, pi), d), h) t g → Local (((w, pi), d), h) t g →
      step t fail a w = some (.ok w' r) → intrudes (.inl (.inl a)) h = false →
      ∃ g', Rely t (((w, pi), d), h) (((w', pi), d), note t a ((w₀, pi), d) h) ∧
        Local (((w', pi), d), note t a ((w₀, pi), d) h) t g' ∧
        Kills (((w', pi), d), note t a ((w₀, pi), d) h) ∧ Q r g') :
    Spec initproc t (.inl (.inl a)) g Q := by
  refine ⟨trivial, fun s γ c hi hγ o ho => ?_⟩
  cases o with
  | panic msg => trivial
  | ok s' r =>
    obtain ⟨hc, ho⟩ := restrict_sem.mp ho
    obtain ⟨⟨hsem, hpi⟩, hd, hh⟩ := waits_low.mp ho
    obtain ⟨⟨⟨w, pi⟩, d⟩, h⟩ := s
    obtain ⟨⟨⟨w', pi'⟩, d'⟩, h'⟩ := s'
    simp only at hsem hpi hd hh
    subst hpi hd hh
    obtain ⟨w₁, hback, hs⟩ := sem_cases hsem
    have hi₁ : Inv (((w₁, pi'), d'), h) γ := Inv.back hi hback
    have hl : Local (((w, pi'), d'), h) t g := hγ ▸ Inv.each hi t
    have hl₁ : Local (((w₁, pi'), d'), h) t g := hγ ▸ hi₁.each t
    obtain ⟨g', hr, hl', hk, hq⟩ := hstep w w₁ pi' d' h c.1.1 w' r hback hi₁.kills hl hl₁ hs hc
    exact ⟨g', hi₁.step hr hl' hk, hq⟩

/-- A plain action, by a thread that keeps its lock. -/
lemma spec_plain (ha : Plain a) (hk : Keeps g a) :
    Spec initproc t (.inl (.inl a)) g fun _ g' => g' = g := by
  refine spec_base fun w₀ w pi d h fail w' r hb hkills _ hl hs _ => ⟨g, rely_step hs ?_,
    hl.plain hs ha hk, hkills.step hs hb ?_ ?_ ?_, rfl⟩
  · rintro q rfl
    exact ha.elim
  · rintro q rfl
    exact ha
  · rintro q rfl
    exact ha
  · rintro q rfl hq
    obtain ⟨k, hg, -⟩ := hl.hitting q hq
    exact absurd rfl (hk q k hg).1

lemma spec_self : Spec initproc (.proc p : Ctx NPROC NCPU) (.inl (.inl .myproc)) g fun r g' =>
    r = some p ∧ g' = g := by
  refine spec_base fun w₀ w pi d h fail w' r hb hkills _ hl hs _ => ?_
  refine ⟨g, rely_step hs (by simp), hl.plain hs (by simp [Plain]) fun q k _ => ⟨by simp, by simp⟩,
    hkills.step hs hb (by simp) (by simp) (by simp), ?_, rfl⟩
  cases hs
  rfl

/-- Taking the lock of a process. -/
lemma spec_grip (hg : g.grip = none) :
    Spec initproc t (.inl (.inl (.acquire (.proc q)))) g fun _ g' =>
      g' = { g with grip := some (q, .held) } := by
  refine spec_base fun w₀ w pi d h fail w' r hb hkills _ hl hs _ => ?_
  have hl' := hl.plain (v := w₀) hs (by simp [Plain]) (keeps_of_none hg)
  refine ⟨({ g with grip := some (q, .held) } : Ghost NPROC), rely_step hs (by simp), { hl' with
    grip := fun q' k hq => ?_
    settled := fun q' hq => by cases hq
    hitting := fun q' hq => ?_ }, hkills.step hs hb (by simp) (by simp) (by simp), rfl⟩
  · cases hq
    rw [(acquire_ok hs).2]
    simp [setLock]
  · obtain ⟨k, hk, -⟩ := hl'.hitting q' hq
    rw [hg] at hk
    cases hk

/-- Releasing the lock of a process that is not hit, or cannot be asleep. -/
lemma spec_ungrip {k : Grip} (hg : g.grip = some (q, k)) (hk : k ≠ .hit) :
    Spec initproc t (.inl (.inl (.release (.proc q)))) g fun _ g' =>
      g' = { g with grip := none } := by
  refine spec_base fun w₀ w pi d h fail w' r hb hkills _ hl hs _ => ?_
  have hproc := (step_frame hs (by simp) (by simp)).1
  have hlock : ∀ l, l ≠ .proc q → w'.lock l = w.lock l := fun l hne => by
    rw [(release_ok hs).2]
    simp [setLock, hne]
  refine ⟨({ g with grip := none } : Ghost NPROC), rely_step hs (by simp), { hl with
    serving := fun p hp => ?_
    dozing := fun p hp hd => ?_
    grip := fun q' k hq => by cases hq
    settled := fun q' hq => by cases hq
    hitting := fun q' hq => ?_
    holds := fun hh => ?_ }, hkills.step hs hb (by simp) (by simp) fun q' ha hq' => ?_, rfl⟩
  · rw [note_serving]
    exact hl.serving p hp
  · rcases note_dozing (a := .release (.proc q)) (p := p) (by simp) with h1 | ⟨-, -, -, h1⟩
    · exact h1.trans (hl.dozing p hp hd)
    · exact h1
  · obtain ⟨hq, hne⟩ := note_hits (by simp) hq
    obtain ⟨k', hg', -⟩ := hl.hitting q' hq
    rw [hg] at hg'
    cases hg'
    exact absurd rfl hne
  · rw [hlock _ (by simp)]
    exact hl.holds hh
  · cases ha
    obtain ⟨k', hg', hne⟩ := hl.hitting q hq'
    rw [hg] at hg'
    cases hg'
    cases k with
    | held => exact absurd rfl hne
    | hit => exact absurd rfl hk
    | settled => exact hl.settled q hg

/-- In `sched` a process loses its lock. -/
lemma spec_leave (hg : g.grip = some (p, .held)) :
    Spec initproc (.proc p : Ctx NPROC NCPU) (.inl (.inl .swtchBack)) g fun _ g' =>
      g' = { g with grip := none } := by
  refine spec_base fun w₀ w pi d h fail w' r hb hkills _ hl hs _ => ?_
  obtain ⟨-, rfl⟩ := leave_ok hs
  refine ⟨({ g with grip := none } : Ghost NPROC), rely_step hs (by simp), { hl with
    grip := fun q' k hq => by cases hq
    settled := fun q' hq => by cases hq
    hitting := fun q' hq => ?_
    holds := fun hh => ?_ }, hkills.step hs hb (by simp) (by simp) (by simp), rfl⟩
  · obtain ⟨k, hk, hne⟩ := hl.hitting q' hq
    rw [hg] at hk
    cases hk
    exact absurd rfl hne
  · change (leave p w).lock pipeLock = _
    simpa [leave, setLock] using hl.holds hh

/-- **The test of `killed`.** If it fails, and the process sleeps next, it dozes. -/
lemma spec_test (hg : g.grip = some (p, .held)) {req : Request} (hreq : g.serving = some req) :
    Spec initproc (.proc p : Ctx NPROC NCPU) (.inl (.inl (.get p))) g fun r g' => ∃ b, g' = { g with dozing := b } ∧
      (r.killed = false → req.interruptible = true →
        (req.writes = true → ∃ d, g.pipe = some d ∧ Full d) → b = true) := by
  refine spec_base fun w₀ w pi d h fail w' r hb hkills hl₀ hl hs _ => ?_
  have hl' := hl.plain (v := w₀) hs (by simp [Plain]) fun q k _ => ⟨by simp, by simp⟩
  refine ⟨{ g with dozing := (note (.proc p) (.get p) ((w₀, pi), d) h).dozing p },
    rely_step hs (by simp), { hl' with dozing := fun q hq hd => by cases hq; exact hd },
    hkills.step hs hb (by simp) (by simp) (by simp), _, rfl, fun hk hint hw => ?_⟩
  cases hs
  have hdozes : Dozes ((w₀, pi), d) h p := by
    refine ⟨hl₀.grip p _ hg, (back_killed hb p).symm.trans hk, req, ?_, ?_⟩
    · exact (hl.serving p rfl).trans hreq
    · unfold Request.sleeps
      rw [hint]
      cases hwr : req.writes with
      | false => rfl
      | true =>
        obtain ⟨d', hd', hfull⟩ := hw hwr
        obtain ⟨-, hpi⟩ := hl.know d' hd'
        subst hpi
        simpa using hfull
  simp [note, hdozes]

/-- A process that dozes falls asleep, under its lock. -/
lemma spec_sleep (hg : g.grip = some (p, .held)) (hd : g.dozing = true) :
    Spec initproc (.proc p : Ctx NPROC NCPU) (.inl (.inl (.set p (.state .sleeping)))) g fun _ g' =>
      g' = { g with dozing := false } := by
  refine spec_base fun w₀ w pi d h fail w' r hb hkills _ hl hs _ => ?_
  have hrely : Rely (.proc p) (((w, pi), d), h)
      (((w', pi), d), note (.proc p) (.set p (.state .sleeping)) ((w₀, pi), d) h) := by
    refine rely_step hs fun q hq => ?_
    cases hq
    exact ⟨hl.grip p _ hg, rfl⟩
  cases hs
  have hkilled := hkills.dozing p (hl.dozing p rfl hd)
  have hsame : ∀ q, ((setProc p (Field.write (w.proc p) (.state .sleeping)) w).proc q).killed =
      (w.proc q).killed := by
    intro q
    by_cases hq : q = p
    · subst hq
      simp [setProc, Field.write]
    · simp [setProc, hq]
  refine ⟨({ g with dozing := false } : Ghost NPROC), hrely, { hl with
    dozing := fun q hq hd => by cases hd
    settled := fun q hq => ?_ }, ⟨fun q hq => ?_, fun q hq hk => ?_, fun q hq => ?_⟩, rfl⟩
  · rw [hg] at hq
    cases hq
  · refine (hsame q).trans (hkills.dozing q ?_)
    by_cases hqp : q = p
    · subst hqp
      exact hl.dozing q rfl hd
    · simpa [note, hqp] using hq
  · have hne : q ≠ p := by
      rintro rfl
      exact absurd (hkilled.symm.trans ((hsame q).symm.trans hk)) (by simp)
    exact hkills.asleep q (by simpa [setProc, hne] using hq) ((hsame q).symm.trans hk)
  · exact (hsame q).trans (hkills.struck q hq)

/-- A kill, which does not fall into the window of its victim. -/
lemma spec_hit (hg : g.grip = some (q, .held)) :
    Spec initproc t (.inl (.inl (.set q (.killed true)))) g fun _ g' =>
      g' = { g with grip := some (q, .hit) } := by
  refine spec_base fun w₀ w pi d h fail w' r hb hkills _ hl hs hc => ?_
  replace hc : h.dozing q = false := hc
  have hstate : ∀ q', (w'.proc q').state = (w.proc q').state := by
    intro q'
    cases hs
    by_cases hq : q' = q
    · subst hq
      simp [setProc, Field.write]
    · simp [setProc, hq]
  have hkilled : ∀ q', q' ≠ q → (w'.proc q').killed = (w.proc q').killed := by
    intro q' hq
    cases hs
    simp [setProc, hq]
  have hset : (w'.proc q).killed = true := by
    cases hs
    simp [setProc, Field.write]
  have hlock : ∀ l, w'.lock l = w.lock l := by
    cases hs
    exact fun l => rfl
  refine ⟨({ g with grip := some (q, .hit) } : Ghost NPROC), rely_step hs (by simp), { hl with
    grip := fun q' k hq => ?_
    settled := fun q' hq => by cases hq
    hitting := fun q' hq => ?_
    holds := fun hh => (hlock _).trans (hl.holds hh) }, ⟨fun q' hq => ?_, fun q' hq hk => ?_,
      fun q' hq => ?_⟩, rfl⟩
  · cases hq
    exact (hlock _).trans (hl.grip q _ hg)
  · obtain rfl : q = q' := by simpa [note] using hq
    exact ⟨_, rfl, by simp⟩
  · have hne : q' ≠ q := by
      rintro rfl
      exact absurd (hc.symm.trans hq) (by simp)
    exact (hkilled q' hne).trans (hkills.dozing q' hq)
  · rw [hstate] at hq
    by_cases hqq : q' = q
    · subst hqq
      -- a victim that was struck before is not asleep
      by_contra hst
      have hst : h.struck q' = true := by simpa [note] using hst
      exact absurd (hkills.asleep q' hq (hkills.struck q' hst)) (by simp [hst])
    · exact hkills.asleep q' hq ((hkilled q' hqq).symm.trans hk)
  · by_cases hqq : q' = q
    · subst hqq
      exact hset
    · exact (hkilled q' hqq).trans (hkills.struck q' hq)

/-- `kkill` finds its victim awake, or wakes it up. -/
lemma spec_seen (hg : g.grip = some (q, .hit)) :
    Spec initproc t (.inl (.inl (.get q))) g fun r g' =>
      g' = if r.state = .sleeping then g else { g with grip := some (q, .settled) } := by
  refine spec_base fun w₀ w pi d h fail w' r hb hkills _ hl hs _ => ?_
  have hl' := hl.plain (v := w₀) hs (by simp [Plain]) fun q k _ => ⟨by simp, by simp⟩
  refine ⟨_, rely_step hs (by simp), ?_, hkills.step hs hb (by simp) (by simp) (by simp), rfl⟩
  split_ifs with hsl
  · exact hl'
  · cases hs
    refine { hl' with
      grip := fun q' k hq => by cases hq; exact hl.grip q _ hg
      settled := fun q' hq => by cases hq; exact hsl
      hitting := fun q' hq => ?_ }
    obtain ⟨k', hk', -⟩ := hl'.hitting q' hq
    rw [hg] at hk'
    cases hk'
    exact ⟨_, rfl, by simp⟩

lemma spec_rouse (hg : g.grip = some (q, .hit)) :
    Spec initproc t (.inl (.inl (.set q (.state .runnable)))) g fun _ g' =>
      g' = { g with grip := some (q, .settled) } := by
  refine spec_base fun w₀ w pi d h fail w' r hb hkills _ hl hs _ => ?_
  have hl' := hl.plain (v := w₀) hs (by simp [Plain]) fun q k _ => ⟨by simp, by simp⟩
  refine ⟨({ g with grip := some (q, .settled) } : Ghost NPROC), rely_step hs (by simp), { hl' with
    grip := fun q' k hq => by cases hq; exact hl'.grip q _ hg
    settled := fun q' hq => ?_
    hitting := fun q' hq => ?_ }, hkills.step hs hb (by simp) (by simp) (by simp), rfl⟩
  · cases hq
    cases hs
    simp [setProc, Field.write]
  · obtain ⟨k', hk', -⟩ := hl'.hitting q' hq
    rw [hg] at hk'
    cases hk'
    exact ⟨_, rfl, by simp⟩

/-- Taking and releasing `pi->lock`. -/
lemma spec_enter : Spec initproc t (.inl (.inl (.acquire pipeLock))) g fun _ g' =>
    g' = { g with holds := true, pipe := none } := by
  refine spec_base fun w₀ w pi d h fail w' r hb hkills _ hl hs _ => ?_
  refine ⟨({ g with holds := true, pipe := none } : Ghost NPROC), rely_step hs (by simp), { hl with
    grip := fun q k hq => lock_step hs (hl.grip q k hq) (.inr ⟨by simp, by simp⟩)
    settled := fun q hq hsl => hl.settled q hq ((sleeping_step hs hsl).resolve_right (by simp))
    holds := fun _ => ?_
    know := fun d hd => by cases hd }, hkills.step hs hb (by simp) (by simp) (by simp), rfl⟩
  rw [(acquire_ok hs).2]
  simp [setLock]

lemma spec_exit : Spec initproc t (.inl (.inl (.release pipeLock))) g fun _ g' =>
    g' = { g with holds := false, pipe := none } := by
  refine spec_base fun w₀ w pi d h fail w' r hb hkills _ hl hs _ => ?_
  exact ⟨({ g with holds := false, pipe := none } : Ghost NPROC), rely_step hs (by simp), { hl with
    grip := fun q k hq => lock_step hs (hl.grip q k hq) (.inr ⟨by simp, by simp⟩)
    settled := fun q hq hsl => hl.settled q hq ((sleeping_step hs hsl).resolve_right (by simp))
    holds := fun hh => by cases hh
    know := fun d hd => by cases hd }, hkills.step hs hb (by simp) (by simp) (by simp), rfl⟩

end Table

/-! The pipe and the devices. -/

lemma spec_pipe {b : PAct} {Q : PRes b → Ghost NPROC → Prop}
    (hstep : ∀ (s : State NPROC NCPU) c pi' r, Local s t g →
      pipeStep t b c s.1.1.2 = some (pi', r) →
      ∃ g', (pi' = s.1.1.2 ∨ g.holds = true) ∧ Local (((s.1.1.1, pi'), s.1.2), s.2) t g' ∧
        Q r g') : Spec initproc t (.inl (.inr b)) g Q := by
  refine ⟨trivial, fun s γ c hi hγ o ho => ?_⟩
  cases o with
  | panic msg => trivial
  | ok s' r =>
    obtain ⟨-, ho⟩ := restrict_sem.mp ho
    obtain ⟨⟨hsem, hw⟩, hd, hh⟩ := waits_pipe.mp ho
    obtain ⟨⟨⟨w', pi'⟩, d'⟩, h'⟩ := s'
    simp only at hsem hw hd hh
    subst hw hd hh
    have hl : Local s t g := hγ ▸ Inv.each hi t
    obtain ⟨g', hpi, hl', hq⟩ := hstep s c.1.2 pi' r hl hsem
    refine ⟨g', Inv.step hi ⟨fun _ _ _ h => h, fun _ h => .inl h, hpi.imp id hl.holds,
      fun _ _ => rfl, fun _ _ => rfl, fun _ _ => rfl⟩ hl' ?_, hq⟩
    exact ⟨(Inv.kills hi).dozing, (Inv.kills hi).asleep, (Inv.kills hi).struck⟩

/-- Reading the pipe. -/
lemma spec_read (hh : g.holds = true) :
    Spec initproc t (.inl (.inr .read)) g fun (r : Pipe) g' =>
      (∀ d, g.pipe = some d → d = r) ∧ g' = { g with pipe := some r } := by
  refine spec_pipe fun s c pi' r hl hs => ?_
  cases hs
  refine ⟨({ g with pipe := some s.1.1.2 } : Ghost NPROC), .inl rfl, { hl with know := fun d hd => ?_ }, fun d hd => (hl.know d hd).2.symm, rfl⟩
  cases hd
  exact ⟨hh, rfl⟩

/-- Any action on the pipe, by a thread that holds its lock and forgets what it knew. -/
lemma spec_change {b : PAct} (hh : g.holds = true) :
    Spec initproc t (.inl (.inr b)) g fun _ g' => g' = { g with pipe := none } :=
  spec_pipe fun _ _ _ _ hl _ =>
    ⟨({ g with pipe := none } : Ghost NPROC), .inr hh, { hl with know := fun d hd => by cases hd }, rfl⟩

lemma spec_gear {b : DAct} : Spec initproc t (.inr b) g fun _ g' => g' = g := by
  refine ⟨trivial, fun s γ c hi hγ o ho => ?_⟩
  cases o with
  | panic msg => trivial
  | ok s' r =>
    obtain ⟨-, ho⟩ := restrict_sem.mp ho
    obtain ⟨-, hw, hh⟩ := waits_gear.mp ho
    obtain ⟨w', h'⟩ := s'
    obtain ⟨wp', d'⟩ := w'
    simp only at hw hh
    subst hw hh
    have hl : Local s t g := hγ ▸ Inv.each hi t
    refine ⟨g, Inv.step hi ⟨fun _ _ _ h => h, fun _ h => .inl h, .inl rfl,
      fun _ _ => rfl, fun _ _ => rfl, fun _ _ => rfl⟩ { hl with } ?_, rfl⟩
    exact ⟨(Inv.kills hi).dozing, (Inv.kills hi).asleep, (Inv.kills hi).struck⟩

end Xv6.Ipc.Window
