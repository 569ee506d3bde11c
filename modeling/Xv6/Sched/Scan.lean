import Xv6.Sched.Kernel
import Xv6.Conc.Extend

/-!
The scan of `scheduler`. Between two dispatches of one process by a CPU its loop comes past
every other process, and dispatches any that it finds runnable. The loop may be interrupted,
and it is suspended while a process runs; how far it has come is in its local value.
-/

namespace Xv6.Sched.Scan

open Xv6.Conc Xv6.Conc.Prog Xv6.Conc.Proto Xv6.Sched.Table Xv6.Sched.Kernel

variable {NPROC NCPU : ℕ} {ι κ : Type}

/-! ### The order of the visits -/

/-- What is visited next: the rest `ps` of this round, then a new one. -/
def agenda (ps : List (Fin NPROC)) : List (Fin NPROC) := ps ++ List.finRange NPROC

/-- `q` comes up before `p` does. -/
def Before (q p : Fin NPROC) (l : List (Fin NPROC)) : Prop := l.idxOf q < l.idxOf p

section Order

variable {p q r : Fin NPROC} {ps l : List (Fin NPROC)}

@[simp] lemma agenda_cons : agenda (r :: ps) = r :: agenda ps := rfl

lemma before_head_ne (h : Before q p (r :: l)) : r ≠ p := by
  rintro rfl
  simp [Before] at h

/-- A visit to another process does not change who comes first. -/
lemma before_tail (h : Before q p (r :: l)) (hr : r ≠ q) : Before q p l := by
  have hp := before_head_ne h
  unfold Before at h ⊢
  rw [List.idxOf_cons_ne _ hr, List.idxOf_cons_ne _ hp] at h
  omega

lemma before_round (h : Before q p (agenda [])) : Before q p (agenda (List.finRange NPROC)) := by
  unfold Before agenda at h ⊢
  rw [List.idxOf_append_of_mem (List.mem_finRange q), List.idxOf_append_of_mem (List.mem_finRange p)]
  simpa using h

/-- After a visit to `p` every other process comes up before `p` does. -/
lemma before_of_visit (hne : q ≠ p) (hps : p :: ps <:+ List.finRange NPROC) :
    Before q p (agenda ps) := by
  obtain ⟨pre, hpre⟩ := hps
  have hnodup : (pre ++ p :: ps).Nodup := by
    rw [hpre]
    exact List.nodup_finRange NPROC
  have hp : p ∉ ps := (List.nodup_cons.mp (List.nodup_append.mp hnodup).2.1).1
  unfold Before agenda
  by_cases hq : q ∈ ps
  · rw [List.idxOf_append_of_mem hq, List.idxOf_append_of_notMem hp]
    have := List.idxOf_lt_length_of_mem hq
    omega
  · -- it has been visited in this round already
    have hmem : q ∈ pre := by
      have : q ∈ pre ++ p :: ps := by
        rw [hpre]
        exact List.mem_finRange q
      simpa [hq, hne] using this
    have hpre' : p ∉ pre := fun h =>
      (List.nodup_append.mp hnodup).2.2 p h p List.mem_cons_self rfl
    rw [List.idxOf_append_of_notMem hq, List.idxOf_append_of_notMem hp, ← hpre,
      List.idxOf_append_of_mem hmem, List.idxOf_append_of_notMem hpre']
    have := List.idxOf_lt_length_of_mem hmem
    omega

end Order

/-! ### What is watched -/

section System

variable [DecidableEq ι] [DecidableEq κ]

/-- The history of CPU `c` and of two processes: `c` has switched to `p`, and `q` has been
runnable ever since. -/
def watch (c : Fin NCPU) (p q : Fin NPROC) (t : Ctx NPROC NCPU) :
    (a : Act NPROC ι κ) → Res a → St NPROC NCPU ι κ → Bool → Bool
  | .swtchTo r, _, s, h => if t = .sched c ∧ r = p then (s.proc q).state = .runnable else h
  | .set r (.state st), _, _, h => if r = q ∧ st ≠ .runnable then false else h
  | _, _, _, h => h

def watched (initproc : Fin NPROC) (c : Fin NCPU) (p q : Fin NPROC) :
    Sys (St NPROC NCPU ι κ × Bool) (Ctx NPROC NCPU) (Fin NCPU × Bool) (Act NPROC ι κ) Res Unit :=
  (sys initproc NCPU).observe (watch c p q)

end System

/-- Where a scheduler stands in its loop. -/
inductive Place (NPROC : ℕ)
  /-- It has still to visit `ps` in this round. -/
  | ahead (ps : List (Fin NPROC))
  /-- It visits `r`, and has found it in state `st`. -/
  | saw (r : Fin NPROC) (st : PState) (ps : List (Fin NPROC))
  /-- It has chosen `r`. -/
  | picked (r : Fin NPROC) (ps : List (Fin NPROC))
  /-- The thread is no scheduler. -/
  | outside

/-- From this place the loop comes to a runnable `q` before it comes to `p`. -/
def Owed (q p : Fin NPROC) : Place NPROC → Prop
  | .ahead ps => Before q p (agenda ps)
  | .saw r st ps => Before q p (r :: agenda ps) ∧ (r = q → st = .runnable)
  | .picked r ps => r ≠ p ∧ Before q p (agenda ps)
  | .outside => False

/-- While `q` stays runnable, the scheduler of `c` owes it a visit before it may come to `p`. -/
structure Inv (c : Fin NCPU) (p q : Fin NPROC) (s : St NPROC NCPU ι κ × Bool)
    (γ : Ctx NPROC NCPU → Place NPROC) : Prop where
  outside : ∀ r, γ (.proc r) = .outside
  owed : s.2 = true → (s.1.proc q).state = .runnable ∧ Owed q p (γ (.sched c))

variable [DecidableEq ι] [DecidableEq κ] {initproc : Fin NPROC} {c k : Fin NCPU}
  {p q r : Fin NPROC} {t : Ctx NPROC NCPU} {a : Act NPROC ι κ} {g : Place NPROC}
  {s s' : St NPROC NCPU ι κ} {ch : Fin NCPU × Bool} {ps : List (Fin NPROC)} {st : PState}

/-- The protocol of the scan: a scheduler switches to the process that it has chosen. -/
def scan (initproc : Fin NPROC) (c : Fin NCPU) (p q : Fin NPROC) :
    Proto (watched (ι := ι) (κ := κ) initproc c p q) where
  Ghost := Place NPROC
  Inv := Inv c p q
  May a g := ∀ r, a = .swtchTo r → g = .outside ∨ ∃ ps, g = .picked r ps
  Ok _ := True

/-- Actions that switch to no process. -/
def Steady (a : Act NPROC ι κ) : Prop := ∀ r, a ≠ .swtchTo r

/-! ### Steps -/

lemma sem_ok {x : Res a} (h : sem t a ch s = some (.ok s' x)) :
    step ch.1 ch.2 a s = some (.ok s' x) := by
  unfold sem at h
  split_ifs at h
  exact h

/-- Only an assignment to its state touches the state of a process. -/
lemma step_state {x : Res a} (h : step ch.1 ch.2 a s = some (.ok s' x)) :
    (∃ st, a = .set q (.state st) ∧ (s'.proc q).state = st) ∨
      (s'.proc q).state = (s.proc q).state ∧ ∀ st, a ≠ .set q (.state st) := by
  cases a with
  | set r f =>
    simp only [step, setProc, Option.some.injEq, Outcome.ok.injEq] at h
    obtain ⟨rfl, -⟩ := h
    by_cases hr : r = q
    · subst hr
      cases f with
      | state st => exact .inl ⟨st, rfl, by simp [Field.write]⟩
      | _ => exact .inr ⟨by simp [Field.write], by simp⟩
    · exact .inr ⟨by simp [Function.update_of_ne (Ne.symm hr)], by simp [hr]⟩
  | acquire l =>
    simp only [step] at h
    split_ifs at h <;> cases h
    exact .inr ⟨rfl, by simp⟩
  | release l =>
    simp only [step] at h
    split_ifs at h <;> cases h
    exact .inr ⟨rfl, by simp⟩
  | checkSched r =>
    simp only [step] at h
    split_ifs at h <;> cases h
    exact .inr ⟨rfl, by simp⟩
  | panic msg => simp [step] at h
  | _ =>
    simp only [step, Option.some.injEq, Outcome.ok.injEq] at h
    obtain ⟨rfl, -⟩ := h
    exact .inr ⟨rfl, by simp⟩

omit [DecidableEq ι] [DecidableEq κ] in
lemma watch_steady {h : Bool} {x : Res a} (ha : Steady a) (hw : watch c p q t a x s h = true) :
    h = true := by
  cases a with
  | swtchTo r => exact absurd rfl (ha r)
  | set r f =>
    cases f with
    | state st =>
      simp only [watch] at hw
      split_ifs at hw
      exact hw
    | _ => exact hw
  | _ => exact hw

/-- The history ends where `q` is no longer runnable. -/
lemma step_runnable {h : Bool} {x : Res a} (hs : step ch.1 ch.2 a s = some (.ok s' x))
    (hw : watch c p q t a x s h = true) (hq : (s.proc q).state = .runnable) :
    (s'.proc q).state = .runnable := by
  rcases step_state (q := q) hs with ⟨st, rfl, hst⟩ | ⟨hst, -⟩
  · simp only [watch, true_and, ite_not] at hw
    split_ifs at hw with hrun
    exact hst.trans hrun
  · exact hst.trans hq

/-- It goes on where `q` is runnable still. -/
lemma watch_stays {x : Res a} (hs : step ch.1 ch.2 a s = some (.ok s' x))
    (hq : (s'.proc q).state = .runnable) : watch c p q t a x s true = true := by
  rcases step_state (q := q) hs with ⟨st, rfl, hst⟩ | ⟨hst, hne⟩
  · simp [watch, ← hst, hq]
  · have hq' : (s.proc q).state = .runnable := hst.symm.trans hq
    cases a with
    | swtchTo r => simp [watch, hq']
    | set r f =>
      cases f with
      | state st =>
        have hr : r ≠ q := by
          rintro rfl
          exact hne st rfl
        simp [watch, hr]
      | _ => rfl
    | _ => rfl

abbrev Spec (initproc : Fin NPROC) (c : Fin NCPU) (p q : Fin NPROC) (t : Ctx NPROC NCPU)
    (a : Act NPROC ι κ) (g : Place NPROC) (Q : Res a → Place NPROC → Prop) : Prop :=
  (scan initproc c p q).Spec t a g Q

abbrev wp (initproc : Fin NPROC) (c : Fin NCPU) (p q : Fin NPROC) (t : Ctx NPROC NCPU) {β : Type}
    (x : P NPROC ι κ β) (Q : β → Place NPROC → Prop) (g : Place NPROC) : Prop :=
  (scan initproc c p q).wp t x Q g

omit [DecidableEq ι] [DecidableEq κ] in
/-- A step of a scheduler, which knows what it owes if it is the scheduler of `c`. -/
lemma Inv.sched {γ : Ctx NPROC NCPU → Place NPROC} {x x' : St NPROC NCPU ι κ × Bool}
    (hi : Inv c p q x γ) (hrun : x'.2 = true → (x'.1.proc q).state = .runnable)
    (howed : k = c → x'.2 = true → Owed q p g) (hkeep : k ≠ c → x'.2 = true → x.2 = true) :
    Inv c p q x' (Function.update γ (.sched k) g) := by
  refine ⟨fun r => ?_, fun htrue => ⟨hrun htrue, ?_⟩⟩
  · rw [Function.update_of_ne (by simp)]
    exact hi.outside r
  · by_cases hk : k = c
    · subst hk
      rw [Function.update_self]
      exact howed rfl htrue
    · rw [Function.update_of_ne (by simpa using Ne.symm hk)]
      exact (hi.owed (hkeep hk htrue)).2

/-- A scheduler goes on to a place from which it owes `q` the same visit. -/
lemma spec_move {f : Res a → Place NPROC} (ha : Steady a)
    (hf : ∀ (s s' : St NPROC NCPU ι κ) (ch : Fin NCPU × Bool) (x : Res a),
      step ch.1 ch.2 a s = some (.ok s' x) → (s.proc q).state = .runnable →
      (s'.proc q).state = .runnable → Owed q p g → Owed q p (f x)) :
    Spec initproc c p q (.sched k) a g fun x g' => g' = f x := by
  refine Spec.of_step (fun r hr => absurd hr (ha r)) (fun s γ ch s' x hi hg hs => ?_)
    fun _ _ _ _ _ _ _ => trivial
  obtain ⟨hsem, hw⟩ := observe_ok.mp hs
  replace hsem := sem_ok hsem
  have hfrom : s'.2 = true → s.2 = true := fun h => watch_steady ha (hw ▸ h)
  have hrun : s'.2 = true → (s'.1.proc q).state = .runnable := fun h =>
    step_runnable hsem (hw ▸ h) (hi.owed (hfrom h)).1
  refine Inv.sched hi hrun (fun hk htrue => ?_) fun _ => hfrom
  obtain ⟨hq, howed⟩ := hi.owed (hfrom htrue)
  rw [← hk, hg] at howed
  exact hf s.1 s'.1 ch x hsem hq (hrun htrue) howed

/-- A scheduler stays where it is. -/
lemma spec_stay (ha : Steady a) : Spec initproc c p q (.sched k) a g fun _ g' => g' = g :=
  spec_move ha fun _ _ _ _ _ _ _ h => h

lemma spec_round : Spec (ι := ι) (κ := κ) initproc c p q (.sched k) .intrOff (.ahead [])
    fun _ g' => g' = .ahead (List.finRange NPROC) :=
  spec_move (by simp [Steady]) fun _ _ _ _ _ _ _ h => before_round h

lemma spec_look : Spec (ι := ι) (κ := κ) initproc c p q (.sched k) (.get r) (.ahead (r :: ps))
    fun pr g' => g' = .saw r pr.state ps := by
  refine spec_move (by simp [Steady]) fun s s' ch x hs hq _ h => ?_
  simp only [step, Option.some.injEq, Outcome.ok.injEq] at hs
  obtain ⟨-, rfl⟩ := hs
  refine ⟨h, ?_⟩
  rintro rfl
  exact hq

/-- If `q` stays runnable, it is not what is dispatched. -/
lemma spec_pick : Spec (ι := ι) (κ := κ) initproc c p q (.sched k) (.set r (.state .running))
    (.saw r .runnable ps) fun _ g' => g' = .picked r ps := by
  refine spec_move (by simp [Steady]) fun s s' ch x hs _ hq' h => ?_
  have hr : r ≠ q := by
    rintro rfl
    simp only [step, Option.some.injEq, Outcome.ok.injEq] at hs
    obtain ⟨rfl, -⟩ := hs
    simp [setProc, Field.write] at hq'
  exact ⟨before_head_ne h.1, before_tail h.1 hr⟩

lemma spec_pass {l : Lock NPROC ι κ} (hst : st ≠ .runnable) :
    Spec initproc c p q (.sched k) (.release l) (.saw r st ps) fun _ g' => g' = .ahead ps :=
  spec_move (by simp [Steady]) fun _ _ _ _ _ _ _ h => before_tail h.1 fun hr => hst (h.2 hr)

/-- After a switch to `p` every other process comes first. -/
lemma spec_dispatch (hne : q ≠ p) (hps : r :: ps <:+ List.finRange NPROC) :
    Spec (ι := ι) (κ := κ) initproc c p q (.sched k) (.swtchTo r) (.picked r ps)
      fun _ g' => g' = .ahead ps := by
  refine Spec.of_step (fun r' hr => ?_) (fun s γ ch s' x hi hg hs => ?_)
    fun _ _ _ _ _ _ _ => trivial
  · cases hr
    exact .inr ⟨ps, rfl⟩
  obtain ⟨hsem, hw⟩ := observe_ok.mp hs
  replace hsem := sem_ok hsem
  simp only [step, Option.some.injEq, Outcome.ok.injEq] at hsem
  have hproc : s'.1.proc = s.1.proc := by rw [← hsem.1]; rfl
  simp only [watch, Ctx.sched.injEq] at hw
  by_cases hp : k = c ∧ r = p
  · -- `p` itself
    obtain ⟨rfl, rfl⟩ := hp
    simp only [and_self, if_true] at hw
    refine Inv.sched hi (fun htrue => ?_) (fun _ _ => before_of_visit hne hps)
      fun h => absurd rfl h
    rw [hproc]
    simpa [hw] using htrue
  · rw [if_neg hp] at hw
    refine Inv.sched hi (fun htrue => ?_) (fun hk htrue => ?_) fun _ htrue => hw ▸ htrue
    · rw [hproc]
      exact (hi.owed (hw ▸ htrue)).1
    · have := (hi.owed (hw ▸ htrue)).2
      rw [← hk, hg] at this
      exact this.2

/-- What a thread other than the schedulers does. -/
lemma spec_outside : Spec initproc c p q (.proc r) a .outside fun _ g' => g' = .outside := by
  refine Spec.of_step (fun _ _ => .inl rfl) (fun s γ ch s' x hi hg hs => ?_)
    fun _ _ _ _ _ _ _ => trivial
  obtain ⟨hsem, hw⟩ := observe_ok.mp hs
  replace hsem := sem_ok hsem
  have hfrom : s'.2 = true → s.2 = true := by
    intro h
    rw [hw] at h
    by_cases ha : Steady a
    · exact watch_steady ha h
    · unfold Steady at ha
      push Not at ha
      obtain ⟨r', rfl⟩ := ha
      simpa [watch] using h
  rw [update_of_eq hg]
  refine ⟨hi.outside, fun htrue => ?_⟩
  obtain ⟨hq, howed⟩ := hi.owed (hfrom htrue)
  exact ⟨step_runnable hsem (hw ▸ htrue) hq, howed⟩

/-! ### Programs -/

lemma outside_wp {β : Type} {x : P NPROC ι κ β} :
    wp initproc c p q (.proc r) x (fun _ g' => g' = .outside) .outside := by
  induction x with
  | ret b => rfl
  | act a f ih =>
    refine spec_outside.mono fun x g' hg' => ?_
    subst hg'
    exact ih x
  | loop b body f ihb ihf =>
    refine ⟨fun _ g' => g' = .outside, rfl, fun b' g' hg' => ?_⟩
    subst hg'
    refine wp_mono (ihb b') fun y g'' hg'' => ?_
    cases y with
    | inl b'' => exact hg''
    | inr d =>
      subst hg''
      exact ihf d

/-- A program that switches to no process, on the stack of a scheduler. -/
lemma steady_wp {β : Type} {x : P NPROC ι κ β} (hx : x.All Steady) :
    wp initproc c p q (.sched k) x (fun _ g' => g' = g) g := by
  induction x with
  | ret b => rfl
  | act a f ih =>
    refine (spec_stay hx.1).mono fun x g' hg' => ?_
    subst hg'
    exact ih x (hx.2 x)
  | loop b body f ihb ihf =>
    refine ⟨fun _ g' => g' = g, rfl, fun b' g' hg' => ?_⟩
    subst hg'
    refine wp_mono (ihb b' (hx.1 b')) fun y g'' hg'' => ?_
    cases y with
    | inl b'' => exact hg''
    | inr d =>
      subst hg''
      exact ihf d (hx.2 d)

/-- Going on after an action that switches to no process. -/
lemma wp_stay {β : Type} {f : Res a → P NPROC ι κ β} {Q : β → Place NPROC → Prop} (ha : Steady a)
    (hf : ∀ x, wp initproc c p q (.sched k) (f x) Q g) :
    wp initproc c p q (.sched k) ((perform a).bind f) Q g :=
  wp_act (spec_stay ha) fun x g' hg' => by subst hg'; exact hf x

lemma scheduler_wp (hne : q ≠ p) :
    wp (ι := ι) (κ := κ) initproc c p q (.sched k) scheduler (fun _ _ => True) (.ahead []) := by
  refine wp_stay (by simp [Steady]) fun _ => ?_
  refine wp_iterate (fun ps g' => g' = .ahead ps ∧ ps <:+ List.finRange NPROC)
    ⟨rfl, List.nil_suffix⟩ fun ps g' h => ?_
  obtain ⟨rfl, hps⟩ := h
  cases ps with
  | nil =>
    refine wp_stay (by simp [Steady]) fun _ => ?_
    refine wp_act spec_round fun _ g' hg' => ?_
    subst hg'
    exact ⟨rfl, List.suffix_rfl⟩
  | cons r ps =>
    have hrest : ps <:+ List.finRange NPROC := (List.suffix_cons r ps).trans hps
    refine wp_stay (by simp [Steady]) fun _ => ?_
    refine wp_act spec_look fun pr g' hg' => ?_
    subst hg'
    refine wp_call (I := fun _ (g' : Place NPROC) =>
      g' = .ahead ps ∨ ∃ st ≠ .runnable, g' = .saw r st ps) ?_ fun _ g' hg' => ?_
    · unfold whenever
      split_ifs with hrun
      · rw [hrun]
        refine wp_act spec_pick fun _ g' hg' => ?_
        subst hg'
        refine wp_stay (by simp [Steady]) fun _ => ?_
        refine wp_act (spec_dispatch hne hps) fun _ g' hg' => ?_
        subst hg'
        exact (spec_stay (by simp [Steady])).mono fun _ g' hg' => .inl hg'
      · exact .inr ⟨_, hrun, rfl⟩
    · rcases hg' with rfl | ⟨st, hst, rfl⟩
      · exact wp_stay (by simp [Steady]) fun _ => ⟨rfl, hrest⟩
      · refine wp_act (spec_pass hst) fun _ g' hg' => ?_
        subst hg'
        exact ⟨rfl, hrest⟩

/-! ### Interrupts -/

lemma all_wakeOne {o : Option (Chan NPROC ι κ)} : (wakeOne o r : P NPROC ι κ Unit).All Steady := by
  refine all_then (by simp [Steady]) fun _ => all_then (by simp [Steady]) fun pr => ?_
  refine all_bind ?_ fun _ => all_perform.mpr (by simp [Steady])
  unfold whenever
  exact all_ite (all_perform.mpr (by simp [Steady])) trivial

lemma all_wakeup {o : Option (Chan NPROC ι κ)} : (wakeup o : P NPROC ι κ Unit).All Steady := by
  refine all_iterate.mpr fun ps => ?_
  cases ps with
  | nil => trivial
  | cons r ps =>
    refine all_then (by simp [Steady]) fun me => all_bind ?_ fun _ => trivial
    unfold whenever
    exact all_ite all_wakeOne trivial

lemma all_waker {i : ι} : (waker i : P NPROC ι κ Unit).All Steady := by
  refine all_then (by simp [Steady]) fun _ => all_then (by simp [Steady]) fun _ => ?_
  exact all_bind all_wakeup fun _ => all_perform.mpr (by simp [Steady])

lemma enter_proc {x x' : P NPROC ι κ Unit}
    (h : Enter initproc t s x s' x') : s'.proc = s.proc := by
  cases h <;> rfl

lemma enters : (scan (ι := ι) (κ := κ) initproc c p q).Enters fun _ _ _ => True := by
  rintro t ⟨s, b⟩ γ x ⟨s', b'⟩ x' hi hx ⟨h, hs⟩
  dsimp only at h hs
  subst hs
  have hi' : Inv c p q (s', b') γ := by
    refine ⟨hi.outside, fun htrue => ?_⟩
    rw [enter_proc h]
    exact hi.owed htrue
  refine ⟨γ t, ?_, ?_⟩
  · rw [Function.update_eq_self]
    exact hi'
  · cases t with
    | proc r =>
      rw [hi.outside r]
      exact wp_mono outside_wp fun _ _ _ => trivial
    | sched k =>
      cases h with
      | device c' hc hst hintr i =>
        refine wp_call (steady_wp all_waker) fun _ g' hg' => ?_
        subst hg'
        exact wp_stay (by simp [Steady]) fun _ => hx

def bootPlace : Ctx NPROC NCPU → Place NPROC
  | .sched _ => .ahead []
  | .proc _ => .outside

lemma follows_boot (hne : q ≠ p) (cond : ι → Bool) :
    (scan (κ := κ) initproc c p q).Follows (fun _ _ _ => True)
      ⟨((boot initproc NCPU cond).shared, false), (boot initproc NCPU cond).thread⟩ := by
  refine ⟨bootPlace, ⟨fun _ => rfl, fun h => by cases h⟩, fun t => ?_⟩
  cases t with
  | sched k => exact scheduler_wp hne
  | proc r => trivial

/-! ### Runs -/

variable {x x' x₁ x₂ x₃ x₄ : Pool (St NPROC NCPU ι κ) (Ctx NPROC NCPU) (Act NPROC ι κ) Res Unit}

/-- The step from `x` to `x'` is that of CPU `c`'s `scheduler` switching to process `p`. -/
def Dispatches (initproc : Fin NPROC) (c : Fin NCPU) (p : Fin NPROC)
    (x x' : Pool (St NPROC NCPU ι κ) (Ctx NPROC NCPU) (Act NPROC ι κ) Res Unit) : Prop :=
  Performs x (.sched c) (.swtchTo p) ∧ ∃ s y,
    Next (sys initproc NCPU) (.sched c) x.shared (x.thread (.sched c)) s y ∧
      x' = ⟨s, Function.update x.thread (.sched c) y⟩

def Runnable (q : Fin NPROC)
    (x : Pool (St NPROC NCPU ι κ) (Ctx NPROC NCPU) (Act NPROC ι κ) Res Unit) : Prop :=
  (x.shared.proc q).state = .runnable

/-- A run from `x` to `x'` in every state of which `q` is runnable. -/
def StaysRunnable (initproc q : Fin NPROC)
    (x x' : Pool (St NPROC NCPU ι κ) (Ctx NPROC NCPU) (Act NPROC ι κ) Res Unit) : Prop :=
  Runnable q x ∧
    Relation.ReflTransGen (fun u v => Step (sys initproc NCPU) u v ∧ Runnable q v) x x'

/-- The pool with its history. -/
def withHistory (x : Pool (St NPROC NCPU ι κ) (Ctx NPROC NCPU) (Act NPROC ι κ) Res Unit)
    (h : Bool) : Pool (St NPROC NCPU ι κ × Bool) (Ctx NPROC NCPU) (Act NPROC ι κ) Res Unit :=
  ⟨(x.shared, h), x.thread⟩

/-- The history starts with the dispatch of `p`. -/
lemma watch_dispatch {h : Bool} (hd : Dispatches initproc c p x x') (hq : Runnable q x') :
    Step (watched initproc c p q) (withHistory x h) (withHistory x' true) := by
  obtain ⟨⟨f, hf⟩, s, y, hn, rfl⟩ := hd
  rw [hf] at hn
  cases hn with
  | act ch hsem =>
    refine Step.run (c := withHistory x h) (Ctx.sched c) ?_
    rw [withHistory, hf]
    refine .act ch (observe_ok.mpr ⟨hsem, ?_⟩)
    replace hsem := sem_ok hsem
    simp only [step, Option.some.injEq, Outcome.ok.injEq] at hsem
    obtain ⟨rfl, -⟩ := hsem
    have hrun : (x.shared.proc q).state = .runnable := hq
    simp [watch, hrun]

/-- It goes on while `q` stays runnable. -/
lemma watch_step (hs : Step (sys initproc NCPU) x x') (hq : Runnable q x') :
    Step (watched initproc c p q) (withHistory x true) (withHistory x' true) := by
  cases hs with
  | run t hn =>
    refine Step.run (c := withHistory x true) t ?_
    rw [withHistory]
    generalize x.thread t = y at hn
    cases hn with
    | act ch hsem =>
      exact .act ch (observe_ok.mpr ⟨hsem, (watch_stays (sem_ok hsem) hq).symm⟩)
    | loop v body f => exact .loop v body f
  | enter t hn => exact Step.enter (c := withHistory x true) t ⟨hn, rfl⟩

lemma watch_run (h : StaysRunnable initproc q x x') :
    Reach (watched initproc c p q) (withHistory x true) (withHistory x' true) := by
  obtain ⟨-, hrun⟩ := h
  induction hrun with
  | refl => exact .refl
  | tail _ hs ih => exact ih.tail (watch_step hs.1 hs.2)

/-- **Nobody is skipped**: in every run on any number of CPUs, between two dispatches of the
same process by one CPU no other process has been runnable all the while. -/
theorem scan_skips_nobody (initproc : Fin NPROC) (NCPU : ℕ) (cond : ι → Bool) {c : Fin NCPU}
    {p q : Fin NPROC}
    {x₁ x₂ x₃ x₄ : Pool (St NPROC NCPU ι κ) (Ctx NPROC NCPU) (Act NPROC ι κ) Res Unit}
    (hr : Reach (sys initproc NCPU) (boot initproc NCPU cond) x₁)
    (h₁ : Dispatches initproc c p x₁ x₂) (hq : StaysRunnable initproc q x₂ x₃) (hne : q ≠ p) :
    ¬ Dispatches initproc c p x₃ x₄ := by
  rintro ⟨hperf, -⟩
  obtain ⟨h, hboot⟩ := exists_observe (f := watch c p q) hr false
  have hrun : Reach (watched initproc c p q)
      ⟨((boot initproc NCPU cond).shared, false), (boot initproc NCPU cond).thread⟩
      (withHistory x₃ true) :=
    (hboot.tail (watch_dispatch h₁ hq.1)).trans (watch_run hq)
  obtain ⟨γ, hi, hmay⟩ := follows_may (follows_reach enters (follows_boot hne cond) hrun)
  obtain ⟨-, howed⟩ := hi.owed rfl
  rcases hmay (.sched c) (.swtchTo p) hperf p rfl with hout | ⟨ps, hpicked⟩
  · rw [hout] at howed
    exact howed
  · rw [hpicked] at howed
    exact howed.1 rfl

/-- The process that the scheduler of `c` is about to switch to. -/
def aim (c : Fin NCPU) (x : Pool (St NPROC NCPU ι κ) (Ctx NPROC NCPU) (Act NPROC ι κ) Res Unit) :
    Option (Fin NPROC) :=
  match x.thread (.sched c) with
  | .act (.swtchTo p) _ => some p
  | _ => none

lemma exists_dispatch (initproc : Fin NPROC) (ha : aim c x = some p)
    (hc : (x.shared.cpu c).running = .sched c) :
    ∃ x', Dispatches initproc c p x x' ∧ x'.shared.proc = x.shared.proc := by
  unfold aim at ha
  split at ha
  · rename_i r f hx
    cases ha
    have hsem : sem (.sched c) (.swtchTo p) (c, false) x.shared =
        some (.ok (setCpu c { x.shared.cpu c with running := .proc p } x.shared) ()) := by
      simp [sem, hc, Started, step]
    have hn : Next (sys initproc NCPU) (.sched c) x.shared (x.thread (.sched c))
        (setCpu c { x.shared.cpu c with running := .proc p } x.shared) (f ()) := by
      rw [hx]
      exact .act (c, false) hsem
    exact ⟨_, ⟨⟨f, hx⟩, _, _, hn, rfl⟩, rfl⟩
  · cases ha

/-- The first process forks a child and yields: it waits while the child is dispatched. -/
theorem scan_skips_nobody_two :
    ∃ x₁ x₂ : Pool (St 2 1 (Fin 1) (Fin 1)) (Ctx 2 1) (Act 2 (Fin 1) (Fin 1)) Res Unit,
      Reach (sys 0 1) (boot (0 : Fin 2) 1 fun _ => false) x₁ ∧ Dispatches 0 0 1 x₁ x₂ ∧
      Runnable 0 x₂ ∧ ∀ x₄, ¬ Dispatches 0 0 1 x₂ x₄ := by
  obtain ⟨x₁, hr, hx⟩ := exists_of_events 0
    (boot (0 : Fin 2) 1 (ι := Fin 1) (κ := Fin 1) fun _ => false)
    (fun x => (aim 0 x, (x.shared.cpu 0).running, (x.shared.proc 0).state))
    [.start 0, .run (.sched 0) 0 10, .run (.proc 0) 0 3,
      .call 0 0 .fork, .run (.proc 0) 0 25,
      .call 0 0 (.cmds [.yield]), .run (.proc 0) 0 6, .run (.sched 0) 0 7]
    (b := (some 1, .sched 0, .runnable)) (by decide +kernel)
  simp only [Prod.mk.injEq] at hx
  obtain ⟨x₂, hd, hproc⟩ := exists_dispatch 0 hx.1 hx.2.1
  have hq : Runnable 0 x₂ := by
    unfold Runnable
    rw [hproc]
    exact hx.2.2
  exact ⟨x₁, x₂, hr, hd, hq, fun x₄ =>
    scan_skips_nobody 0 1 (fun _ => false) hr hd ⟨hq, .refl⟩ (by decide)⟩

end Xv6.Sched.Scan
