import Xv6.Sched.Specs

/-!
Every program of the scheduling code follows the protocol.
-/

namespace Xv6.Sched.Follow

open Xv6.Conc Xv6.Conc.Prog Xv6.Conc.Proto Xv6.Sched.Table Xv6.Sched.Kernel Xv6.Sched.Handoff
  Xv6.Sched.Protocol Xv6.Sched.Switch Xv6.Sched.Specs

variable {NPROC NCPU : ℕ} {ι κ : Type} [DecidableEq ι] [DecidableEq κ] {initproc : Fin NPROC}
  {t : Ctx NPROC NCPU} {c : Fin NCPU} {p q : Fin NPROC} {L : List (Lock NPROC ι κ)}
  {ow : Option (Fin NPROC × Bool)} {sl : List κ} {g : Ghost NPROC ι κ} {l : Lock NPROC ι κ}

/-- A thread that runs, holds the locks `L` and has read nothing. -/
abbrev calm (L : List (Lock NPROC ι κ)) (ow : Option (Fin NPROC × Bool)) (sl : List κ) :
    Ghost NPROC ι κ :=
  ⟨L, .run, none, none, none, ow, sl⟩

/-! ### Rules -/

lemma wp_acquire {β : Type} {f : Unit → P NPROC ι κ β} {Q : β → Ghost NPROC ι κ → Prop}
    (hm : g.mode = .run) (hl : l ∉ g.locks)
    (hf : wp initproc t (f ()) Q { g with locks := l :: g.locks }) :
    wp initproc t ((perform (.acquire l)).bind f) Q g :=
  wp_act (spec_acquire hm hl) fun _ g' hg' => by subst hg'; exact hf

section Release

variable {β : Type} {f : Unit → P NPROC ι κ β} {Q : β → Ghost NPROC ι κ → Prop}
  {R : Unit → Ghost NPROC ι κ → Prop}

lemma release_proc_wp (hm : g.mode = .run) (hl : g.locks = .proc q :: L)
    (hR : R () { g with locks := L, seen := none }) :
    wp initproc t (perform (.release (.proc q))) R g := by
  refine wp_perform ((spec_release_proc hm (by simp [hl])).mono fun _ g' hg' => ?_)
  rw [hl, List.erase_cons_head] at hg'
  rwa [hg']

lemma release_wp (hm : g.mode = .run) (hl : g.locks = l :: L) (hq : ∀ q, l ≠ .proc q)
    (hs : ∀ k ps, g.scan = some (k, ps) → ps = [])
    (hR : R () { g with locks := L, tested := none, scan := none }) :
    wp initproc t (perform (.release l)) R g := by
  refine wp_perform ((spec_release (.inl hm) (by simp [hl]) hq hs).mono fun _ g' hg' => ?_)
  rw [hl, List.erase_cons_head] at hg'
  rwa [hg']

lemma wp_release_proc (hm : g.mode = .run) (hl : g.locks = .proc q :: L)
    (hf : wp initproc t (f ()) Q { g with locks := L, seen := none }) :
    wp initproc t ((perform (.release (.proc q))).bind f) Q g :=
  wp_bind (release_proc_wp hm hl hf)

lemma wp_release (hm : g.mode = .run) (hl : g.locks = l :: L) (hq : ∀ q, l ≠ .proc q)
    (hs : ∀ k ps, g.scan = some (k, ps) → ps = [])
    (hf : wp initproc t (f ()) Q { g with locks := L, tested := none, scan := none }) :
    wp initproc t ((perform (.release l)).bind f) Q g :=
  wp_bind (release_wp hm hl hq hs hf)

end Release

/-- Going on after a piece of program that keeps what is known. -/
lemma wp_keep {β δ : Type} {x : P NPROC ι κ β} {f : β → P NPROC ι κ δ}
    {Q : δ → Ghost NPROC ι κ → Prop} (h : wp initproc t x (fun _ g' => g' = g) g)
    (hf : ∀ r, wp initproc t (f r) Q g) : wp initproc t (x.bind f) Q g :=
  wp_call h fun r g' hg' => by subst hg'; exact hf r

/-- Going on after a piece of program that leaves with `m`. -/
lemma wp_next {β δ : Type} {x : P NPROC ι κ β} {f : β → P NPROC ι κ δ}
    {Q : δ → Ghost NPROC ι κ → Prop} {m : Ghost NPROC ι κ}
    (h : wp initproc t x (fun _ g' => g' = m) g) (hf : ∀ r, wp initproc t (f r) Q m) :
    wp initproc t (x.bind f) Q g :=
  wp_call h fun r g' hg' => by subst hg'; exact hf r

lemma wp_whenever {b : Prop} [Decidable b] {x : P NPROC ι κ Unit}
    {Q : Unit → Ghost NPROC ι κ → Prop} (h1 : b → wp initproc t x Q g) (h2 : ¬ b → Q () g) :
    wp initproc t (whenever b x) Q g := by
  unfold whenever
  split_ifs with hb
  · exact h1 hb
  · exact h2 hb

/-! ### Switching -/

lemma self_wp : wp initproc (.proc p : Ctx NPROC NCPU) self (fun r g' => r = p ∧ g' = g) g := by
  refine wp_act spec_myproc fun r g' ⟨hr, hg'⟩ => ?_
  subst hr hg'
  exact ⟨rfl, rfl⟩

/-- Going on after `myproc()`. -/
lemma wp_self {β : Type} {f : Fin NPROC → P NPROC ι κ β} {Q : β → Ghost NPROC ι κ → Prop}
    (hf : wp initproc (.proc p : Ctx NPROC NCPU) (f p) Q g) :
    wp initproc (.proc p : Ctx NPROC NCPU) (self.bind f) Q g :=
  wp_call self_wp fun r g' ⟨hr, hg'⟩ => by subst hr hg'; exact hf

lemma sched_wp {a : PState} (hm : g.mode = .leave a) (hl : g.locks = [.proc p])
    (hnone : g.seen = none ∧ g.tested = none ∧ g.scan = none) :
    wp initproc (.proc p : Ctx NPROC NCPU) sched
      (fun _ g' => a ≠ .zombie ∧ g' = { g with mode := .run }) g := by
  refine wp_self (wp_act (spec_checkSched hm hl) fun intena g' hg' => ?_)
  subst hg'
  refine wp_act (spec_swtchBack hm hl hnone) fun _ g' hg' => ?_
  subst hg'
  refine wp_perform ((spec_setIntena rfl).mono fun _ g' ⟨hf, hg'⟩ => ⟨by simpa using hf, hg'⟩)

lemma yield_wp : wp initproc (.proc p : Ctx NPROC NCPU) (yield : P NPROC ι κ Unit)
    (fun _ g' => g' = calm [] ow sl) (calm [] ow sl) := by
  refine wp_self ?_
  refine wp_acquire rfl (by simp) ?_
  refine wp_act (spec_leave (by simp) (.inl ⟨rfl, .inl rfl⟩)) fun _ g' hg' => ?_
  subst hg'
  refine wp_call (sched_wp rfl rfl ⟨rfl, rfl, rfl⟩) fun _ g' ⟨_, hg'⟩ => ?_
  subst hg'
  exact release_proc_wp rfl rfl rfl

lemma scheduler_wp {Q : Unit → Ghost NPROC ι κ → Prop} :
    wp initproc (.sched c) scheduler Q (calm [] ow sl) := by
  refine wp_act (spec_clear (q := initproc) (.inl rfl)) fun _ g' hg' => ?_
  subst hg'
  refine wp_iterate (fun _ g' => g' = calm [] ow sl) rfl fun ps g' hg' => ?_
  subst hg'
  cases ps with
  | nil =>
    refine wp_act (spec_intrOn rfl) fun _ g' hg' => ?_
    subst hg'
    refine wp_act spec_intrOff fun _ g' hg' => ?_
    subst hg'
    rfl
  | cons p ps =>
    refine wp_acquire rfl (by simp) ?_
    refine wp_act (spec_read rfl (by simp)) fun pr g' hg' => ?_
    subst hg'
    refine wp_call (wp_whenever (Q := fun _ g' => ∃ k, g' = { calm [.proc p] ow sl with seen := k })
      (fun hr => ?_) fun _ => ⟨_, rfl⟩) fun _ g' ⟨k, hg'⟩ => ?_
    · -- dispatch `p`
      refine wp_act (spec_pick rfl rfl (by rw [hr])) fun _ g' hg' => ?_
      subst hg'
      refine wp_act (spec_aim rfl) fun _ g' hg' => ?_
      subst hg'
      refine wp_act (spec_swtchTo rfl ⟨rfl, rfl, rfl⟩) fun _ g' hg' => ?_
      subst hg'
      exact wp_perform ((spec_clear (.inr rfl)).mono fun _ g' hg' => ⟨none, hg'⟩)
    · subst hg'
      exact wp_release_proc rfl rfl rfl

lemma forkret_wp {f : Bool} :
    wp initproc (.proc p : Ctx NPROC NCPU) (forkret : P NPROC ι κ Unit)
      (fun _ g' => g' = calm [] ow sl) ⟨[.proc p], .saved f, none, none, none, ow, sl⟩ := by
  refine wp_act (spec_myproc_start rfl) fun r g' ⟨hr, hg'⟩ => ?_
  subst hr hg'
  refine wp_release_proc rfl rfl ?_
  exact wp_perform (spec_intrOn rfl)

/-! ### Sleeping and waking -/

variable {b : Option (Chan NPROC ι κ × Bool)} {sc : Option (Chan NPROC ι κ × List (Fin NPROC))}

/-- `sleep` gives the lock back, and forgets what was tested under it. -/
lemma sleep_wp {k : Chan NPROC ι κ} (hr : (∃ q, k = .proc q) ∨ b = some (k, false)) :
    wp initproc (.proc p : Ctx NPROC NCPU) (sleep k (lockOf k))
      (fun _ g' => g' = calm [lockOf k] ow sl)
      ⟨[lockOf k], .run, none, b, none, ow, sl⟩ := by
  have hne := lockOf_ne_proc k p
  refine wp_self ?_
  refine wp_acquire rfl (by simpa using hne.symm) ?_
  refine wp_act (spec_doze rfl (by simp) (by simp) hr rfl) fun _ g' hg' => ?_
  replace hg' : g' = ⟨[.proc p], .doze k false, none, none, none, ow, sl⟩ := by
    rw [hg', List.erase_cons_tail (by simpa using hne.symm), List.erase_cons_head]
  subst hg'
  refine wp_act (spec_setChan rfl (by simp) rfl) fun _ g' hg' => ?_
  subst hg'
  refine wp_act (spec_leave (by simp) (.inr ⟨k, rfl, rfl⟩)) fun _ g' hg' => ?_
  subst hg'
  refine wp_call (sched_wp rfl rfl ⟨rfl, rfl, rfl⟩) fun _ g' ⟨_, hg'⟩ => ?_
  subst hg'
  refine wp_act (spec_resetChan rfl (by simp) rfl) fun _ g' hg' => ?_
  subst hg'
  refine wp_release_proc rfl rfl ?_
  exact wp_perform (spec_acquire rfl (by simp))

/-- A round of `wakeup` that is not part of a scan. -/
lemma wakeOne_wp {k : Option (Chan NPROC ι κ)} (hq : .proc q ∉ L) :
    wp initproc t (wakeOne k q) (fun _ g' => g' = ⟨L, .run, none, b, sc, ow, sl⟩)
      ⟨L, .run, none, b, sc, ow, sl⟩ := by
  refine wp_acquire rfl hq ?_
  refine wp_act (spec_read rfl (by simp)) fun pr g' hg' => ?_
  subst hg'
  refine wp_call (wp_whenever (Q := fun _ g' => ∃ r, g' =
    ⟨.proc q :: L, .run, r, b, sc, ow, sl⟩) (fun hb => ?_) fun _ => ⟨_, rfl⟩) fun _ g' ⟨r, hg'⟩ => ?_
  · exact wp_perform ((spec_wake (k := pr.chan) rfl (by rw [hb.1])).mono fun _ g' hg' =>
      ⟨_, hg'.2⟩)
  · subst hg'
    exact release_proc_wp rfl rfl rfl

/-- A round of `wakeup` that has to visit `q`. -/
lemma wakeOne_scan {k : Chan NPROC ι κ} {ps : List (Fin NPROC)} (hq : .proc q ∉ L)
    (ht : t ≠ .proc q) :
    wp initproc t (wakeOne (some k) q) (fun _ g' => g' = ⟨L, .run, none, b, some (k, ps), ow, sl⟩)
      ⟨L, .run, none, b, some (k, q :: ps), ow, sl⟩ := by
  refine wp_acquire rfl hq ?_
  refine wp_act (spec_read rfl (by simp)) fun pr g' hg' => ?_
  subst hg'
  refine wp_call (wp_whenever (Q := fun _ g' => ∃ a k', ¬ (a = .sleeping ∧ k' = some k) ∧
      g' = ⟨.proc q :: L, .run, some (q, a, k'), b, some (k, q :: ps), ow, sl⟩) (fun hb => ?_)
    fun hb => ⟨_, _, hb, rfl⟩) fun _ g' ⟨a, k', hne, hg'⟩ => ?_
  · exact wp_perform ((spec_wake (k := pr.chan) rfl (by rw [hb.1])).mono fun _ g' hg' =>
      ⟨_, _, by simp, hg'.2⟩)
  · subst hg'
    refine wp_perform ((spec_release_visit rfl rfl rfl ht hne).mono fun _ g' hg' => ?_)
    rw [hg', List.erase_cons_head]

/-- `wakeup` by a thread that has made nothing true. -/
lemma wakeup_wp {k : Option (Chan NPROC ι κ)} (hq : ∀ q, .proc q ∉ L) :
    wp initproc t (wakeup k) (fun _ g' => g' = ⟨L, .run, none, b, sc, ow, sl⟩)
      ⟨L, .run, none, b, sc, ow, sl⟩ := by
  refine wp_iterate (fun _ g' => g' = ⟨L, .run, none, b, sc, ow, sl⟩) rfl fun ps g' hg' => ?_
  subst hg'
  cases ps with
  | nil => rfl
  | cons q ps =>
    refine wp_act (spec_myproc_any rfl) fun r g' ⟨_, hg'⟩ => ?_
    subst hg'
    exact wp_keep (wp_whenever (fun _ => wakeOne_wp (hq q)) fun _ => rfl) fun _ => rfl

/-- `wakeup` by a thread that has made a condition true visits every process. -/
lemma wakeup_scan {k : Chan NPROC ι κ} (hq : ∀ q, .proc q ∉ L) :
    wp initproc t (wakeup (some k)) (fun _ g' => g' = ⟨L, .run, none, b, some (k, []), ow, sl⟩)
      ⟨L, .run, none, b, some (k, List.finRange NPROC), ow, sl⟩ := by
  refine wp_iterate (fun ps g' => g' = ⟨L, .run, none, b, some (k, ps), ow, sl⟩) rfl
    fun ps g' hg' => ?_
  subst hg'
  cases ps with
  | nil => rfl
  | cons q ps =>
    by_cases ht : t = .proc q
    · -- the caller itself
      subst ht
      refine wp_act (spec_myproc_visit rfl rfl) fun r g' ⟨hr, hg'⟩ => ?_
      subst hr hg'
      exact wp_keep (wp_whenever (fun h => absurd rfl h) fun _ => rfl) fun _ => rfl
    · refine wp_act (spec_myproc_any rfl) fun r g' ⟨hr, hg'⟩ => ?_
      subst hg'
      have hne : r ≠ some q := fun h => ht ((hr q).mp h)
      refine wp_next (m := ⟨L, .run, none, b, some (k, ps), ow, sl⟩)
        (wp_whenever (fun _ => wakeOne_scan (hq q) ht) fun h => absurd hne h) fun _ => rfl

lemma kkill_wp {pid : ℤ} (hq : ∀ q, .proc q ∉ L) :
    wp initproc t (kkill pid) (fun _ g' => g' = calm L ow sl) (calm L ow sl) := by
  refine wp_iterate (fun _ g' => g' = calm L ow sl) rfl fun ps g' hg' => ?_
  subst hg'
  cases ps with
  | nil => rfl
  | cons q ps =>
    refine wp_acquire rfl (hq q) ?_
    refine wp_act (spec_read rfl (by simp)) fun pr g' hg' => ?_
    subst hg'
    split_ifs with hpid
    · refine wp_act (spec_setField (fun _ => ⟨rfl, rfl⟩) (by trivial)) fun _ g' hg' => ?_
      subst hg'
      refine wp_act (spec_read rfl (by simp)) fun pr' g' hg' => ?_
      subst hg'
      refine wp_call (wp_whenever (Q := fun _ g' => ∃ r, g' =
        ⟨.proc q :: L, .run, r, none, none, ow, sl⟩) (fun hs => ?_) fun _ => ⟨_, rfl⟩)
        fun _ g' h => ?_
      · exact wp_perform ((spec_wake (k := pr'.chan) rfl (by rw [hs])).mono fun _ g' hg' =>
          ⟨_, hg'.2⟩)
      · obtain ⟨r, hg'⟩ := h
        subst hg'
        exact wp_release_proc rfl rfl rfl
    · exact wp_release_proc rfl rfl rfl

lemma killed_wp (hq : .proc q ∉ L) :
    wp initproc t (killed q) (fun _ g' => g' = calm L ow sl) (calm L ow sl) := by
  refine wp_acquire rfl hq ?_
  refine wp_act (spec_read rfl (by simp)) fun pr g' hg' => ?_
  subst hg'
  exact wp_release_proc rfl rfl rfl

/-! ### Creating and ending processes -/

variable {r : Option (Fin NPROC × PState × Option (Chan NPROC ι κ))}

lemma allocpid_wp (hl : .pid ∉ L) :
    wp initproc t allocpid (fun _ g' => g' = ⟨L, .run, r, none, none, ow, sl⟩)
      ⟨L, .run, r, none, none, ow, sl⟩ := by
  refine wp_acquire rfl hl ?_
  refine wp_act spec_takePid fun pid g' hg' => ?_
  subst hg'
  exact wp_release rfl rfl (by simp) (by simp) rfl

/-- `freeproc` of a process that is being created, or has exited. -/
lemma freeproc_wp {a : PState} {k : Option (Chan NPROC ι κ)}
    (ha : a = .used ∧ (∃ b, ow = some (q, b)) ∨ a = .zombie) :
    wp initproc t (freeproc q)
      (fun _ g' => g' = ⟨L, .run, some (q, .unused, none), none, none, none, sl⟩)
      ⟨L, .run, some (q, a, k), none, none, ow, sl⟩ := by
  have hrun : a ≠ .running := by rcases ha with ⟨rfl, -⟩ | rfl <;> simp
  have hsleep : a ≠ .sleeping := by rcases ha with ⟨rfl, -⟩ | rfl <;> simp
  refine wp_act (spec_setField (fun _ => ⟨rfl, rfl⟩) ⟨rfl, a, k, rfl, hrun⟩) fun _ g' hg' => ?_
  subst hg'
  refine wp_act (spec_setField (fun _ => ⟨rfl, rfl⟩) (by trivial)) fun _ g' hg' => ?_
  subst hg'
  refine wp_act (spec_setChan_rest rfl rfl hsleep) fun _ g' hg' => ?_
  subst hg'
  refine wp_act (spec_setField (fun _ => ⟨rfl, rfl⟩) (by trivial)) fun _ g' hg' => ?_
  subst hg'
  refine wp_act (spec_setField (fun _ => ⟨rfl, rfl⟩) (by trivial)) fun _ g' hg' => ?_
  subst hg'
  exact wp_perform (spec_free rfl rfl ha)

/-- What `allocproc` knows of the process that it returns locked. -/
def Allocated (sl : List κ) (o : Option (Fin NPROC)) (g : Ghost NPROC ι κ) : Prop :=
  match o with
  | none => g = calm [] none sl
  | some np => ∃ k, g = ⟨[.proc np], .run, some (np, .used, k), none, none, some (np, true), sl⟩

lemma found_wp {k : Option (Chan NPROC ι κ)} :
    wp initproc t (found q) (Allocated sl)
      ⟨[.proc q], .run, some (q, .unused, k), none, none, none, sl⟩ := by
  refine wp_keep (allocpid_wp (by simp)) fun pid => ?_
  refine wp_act (spec_setField (fun _ => ⟨rfl, rfl⟩) ⟨rfl, .unused, k, rfl, by simp⟩)
    fun _ g' hg' => ?_
  subst hg'
  refine wp_act (spec_take rfl rfl) fun _ g' hg' => ?_
  subst hg'
  have hgiveUp : wp initproc t
      ((freeproc q).bind fun _ => (perform (.release (.proc q))).bind fun _ => .ret none)
      (Allocated sl)
      (⟨[.proc q], .run, some (q, .used, k), none, none, some (q, false), sl⟩ : Ghost NPROC ι κ) :=
    wp_next (freeproc_wp (.inl ⟨rfl, false, rfl⟩)) fun _ => wp_release_proc rfl rfl rfl
  refine wp_act spec_fails fun noFrame g' hg' => ?_
  subst hg'
  cases noFrame with
  | true => exact hgiveUp
  | false =>
    refine wp_act spec_fails fun noTable g' hg' => ?_
    subst hg'
    cases noTable with
    | true => exact hgiveUp
    | false =>
      refine wp_act (spec_initContext rfl rfl rfl) fun _ g' hg' => ?_
      exact ⟨k, hg'⟩

lemma allocproc_wp : wp initproc t allocproc (Allocated sl)
    (calm [] none sl : Ghost NPROC ι κ) := by
  refine wp_iterate (fun _ g' => g' = calm [] none sl) rfl fun ps g' hg' => ?_
  subst hg'
  cases ps with
  | nil => rfl
  | cons q ps =>
    refine wp_acquire rfl (by simp) ?_
    refine wp_act (spec_read rfl (by simp)) fun pr g' hg' => ?_
    subst hg'
    split_ifs with hun
    · rw [hun]
      exact wp_call found_wp fun o g' hg' => hg'
    · exact wp_release_proc rfl rfl rfl

lemma kfork_wp : wp initproc (.proc p : Ctx NPROC NCPU) (kfork : P NPROC ι κ ℤ)
    (fun _ g' => g' = calm [] none sl) (calm [] none sl) := by
  refine wp_self ?_
  refine wp_call allocproc_wp fun o g' hg' => ?_
  cases o with
  | none => exact hg'
  | some np =>
    obtain ⟨k, rfl⟩ := hg'
    refine wp_act spec_fails fun noCopy g' hg' => ?_
    subst hg'
    cases noCopy with
    | true =>
      refine wp_next (freeproc_wp (.inl ⟨rfl, true, rfl⟩)) fun _ => ?_
      exact wp_release_proc rfl rfl rfl
    | false =>
      refine wp_act spec_get fun pr g' hg' => ?_
      subst hg'
      refine wp_release_proc rfl rfl ?_
      refine wp_acquire rfl (by simp) ?_
      refine wp_act (spec_setField (fun _ => ⟨rfl, rfl⟩) (by trivial)) fun _ g' hg' => ?_
      subst hg'
      refine wp_release rfl rfl (by simp) (by simp) ?_
      refine wp_acquire rfl (by simp) ?_
      refine wp_act (spec_launch rfl (by simp) rfl) fun _ g' hg' => ?_
      subst hg'
      exact wp_release_proc rfl rfl rfl

lemma reparent_wp : wp initproc t (reparent initproc p : P NPROC ι κ Unit)
    (fun _ g' => g' = calm [.wait] ow sl) (calm [.wait] ow sl) := by
  refine wp_iterate (fun _ g' => g' = calm [.wait] ow sl) rfl fun ps g' hg' => ?_
  subst hg'
  cases ps with
  | nil => rfl
  | cons pp ps =>
    refine wp_act spec_get fun pr g' hg' => ?_
    subst hg'
    refine wp_keep (wp_whenever (fun _ => ?_) fun _ => rfl) fun _ => rfl
    refine wp_act (spec_setField (fun _ => ⟨rfl, rfl⟩) (by trivial)) fun _ g' hg' => ?_
    subst hg'
    exact wakeup_wp (by simp)

/-- `kexit` does not return, and only the first process panics in it. -/
lemma kexit_wp {status : ℤ} {Q : Unit → Ghost NPROC ι κ → Prop} :
    wp initproc (.proc p : Ctx NPROC NCPU) (kexit initproc status) Q (calm [] none sl) := by
  refine wp_self ?_
  split_ifs
  · exact wp_act spec_panic (I := fun _ _ => True) fun r => r.elim
  · refine wp_acquire rfl (by simp) ?_
    refine wp_keep reparent_wp fun _ => ?_
    refine wp_act spec_get fun pr g' hg' => ?_
    subst hg'
    refine wp_keep (wakeup_wp (by simp)) fun _ => ?_
    refine wp_acquire rfl (by simp) ?_
    refine wp_act (spec_setField (fun _ => ⟨rfl, rfl⟩) (by trivial)) fun _ g' hg' => ?_
    subst hg'
    refine wp_act (spec_leave (by simp) (.inl ⟨rfl, .inr rfl⟩)) fun _ g' hg' => ?_
    subst hg'
    refine wp_act (spec_release (.inr ⟨_, rfl⟩) (by simp) (by simp) (by simp)) fun _ g' hg' => ?_
    replace hg' : g' = ⟨[.proc p], .leave .zombie, none, none, none, none, sl⟩ := by
      rw [hg', List.erase_cons_tail (by simp), List.erase_cons_head]
    subst hg'
    exact wp_call (sched_wp rfl rfl ⟨rfl, rfl, rfl⟩) fun _ g' ⟨hne, _⟩ => absurd rfl hne

lemma reap_wp {addr : Bool} {pid : ℤ} {k : Option (Chan NPROC ι κ)} :
    wp initproc t (reap addr q pid) (fun _ g' => g' = calm [] none sl)
      ⟨[.proc q, .wait], .run, some (q, .zombie, k), none, none, none, sl⟩ := by
  refine wp_act spec_fails fun noCopy g' hg' => ?_
  subst hg'
  split_ifs
  · refine wp_release_proc rfl rfl ?_
    exact wp_release rfl rfl (by simp) (by simp) rfl
  · refine wp_next (freeproc_wp (.inr rfl)) fun _ => ?_
    refine wp_release_proc rfl rfl ?_
    exact wp_release rfl rfl (by simp) (by simp) rfl

/-- The scan ends with `wait_lock` released if it returns a result for `kwait`. -/
def Scanned (sl : List κ) (o : Bool × Option ℤ) (g : Ghost NPROC ι κ) : Prop :=
  g = calm (match o.2 with
    | none => [.wait]
    | some _ => []) none sl

lemma scanKids_wp {addr : Bool} :
    wp initproc t (scanKids addr p) (Scanned sl) (calm [.wait] none sl : Ghost NPROC ι κ) := by
  refine wp_iterate (fun _ g' => g' = calm [.wait] none sl) rfl fun ps g' hg' => ?_
  subst hg'
  obtain ⟨ps, havekids⟩ := ps
  cases ps with
  | nil => rfl
  | cons pp ps =>
    refine wp_act spec_get fun pr g' hg' => ?_
    subst hg'
    split_ifs
    · refine wp_acquire rfl (by simp) ?_
      refine wp_act (spec_read rfl (by simp)) fun pr' g' hg' => ?_
      subst hg'
      split_ifs with hz
      · rw [hz]
        exact wp_next reap_wp fun _ => rfl
      · exact wp_release_proc rfl rfl rfl
    · rfl

lemma kwait_wp {addr : Bool} : wp initproc (.proc p : Ctx NPROC NCPU) (kwait addr)
    (fun _ g' => g' = calm [] none sl) (calm [] none sl : Ghost NPROC ι κ) := by
  refine wp_self ?_
  refine wp_acquire rfl (by simp) ?_
  refine wp_iterate (fun _ g' => g' = calm [.wait] none sl) rfl fun _ g' hg' => ?_
  subst hg'
  refine wp_call scanKids_wp fun o g' hg' => ?_
  obtain ⟨havekids, o⟩ := o
  subst hg'
  cases o with
  | some n => cases havekids <;> rfl
  | none =>
    cases havekids with
    | false => exact wp_release rfl rfl (by simp) (by simp) rfl
    | true =>
      refine wp_keep (killed_wp (by simp)) fun k => ?_
      cases k with
      | true => exact wp_release rfl rfl (by simp) (by simp) rfl
      | false => exact wp_next (sleep_wp (.inl ⟨p, rfl⟩)) fun _ => rfl

/-! ### Conditions and sleeplocks -/

variable {i : ι} {j : κ}

lemma waiter_wp {consume : Bool} :
    wp initproc (.proc p : Ctx NPROC NCPU) (waiter i consume)
      (fun _ g' => g' = calm [] ow sl) (calm [] ow sl : Ghost NPROC ι κ) := by
  refine wp_acquire rfl (by simp) ?_
  refine wp_call (I := fun _ (g' : Ghost NPROC ι κ) => ∃ b, g' = ⟨[.cond i], .run, none, b, none, ow, sl⟩)
    (wp_iterate (fun _ g' => g' = calm [.cond i] ow sl) rfl fun _ g' hg' => ?_)
    fun _ g' ⟨b, hg'⟩ => ?_
  · subst hg'
    refine wp_act (spec_getCond rfl (by simp)) fun holds g' hg' => ?_
    subst hg'
    cases holds with
    | true => exact ⟨_, rfl⟩
    | false => exact wp_next (sleep_wp (.inr rfl)) fun _ => rfl
  · subst hg'
    refine wp_call (I := fun _ (g' : Ghost NPROC ι κ) => ∃ b, g' = ⟨[.cond i], .run, none, b, none, ow, sl⟩)
      (wp_whenever (fun _ => ?_) fun _ => ⟨b, rfl⟩) fun _ g' ⟨b', hg'⟩ => ?_
    · exact wp_perform ((spec_setCond rfl (by simp) rfl).mono fun _ g' hg' => ⟨none, hg'⟩)
    · subst hg'
      exact release_wp rfl rfl (by simp) (by simp) rfl

lemma waker_wp : wp initproc t (waker i) (fun _ g' => g' = calm [] ow sl)
    (calm [] ow sl : Ghost NPROC ι κ) := by
  refine wp_acquire rfl (by simp) ?_
  refine wp_act (spec_setCond rfl (by simp) rfl) fun _ g' hg' => ?_
  subst hg'
  refine wp_next (wakeup_scan (by simp)) fun _ => ?_
  exact release_wp rfl rfl (by simp) (by simp) rfl

lemma acquiresleep_wp :
    wp initproc (.proc p : Ctx NPROC NCPU) (acquiresleep j)
      (fun _ g' => g' = calm [] ow (j :: sl)) (calm [] ow sl : Ghost NPROC ι κ) := by
  refine wp_acquire rfl (by simp) ?_
  refine wp_next (m := ⟨[.slk j], .run, none, some (.slk j, true), none, ow, sl⟩)
    (wp_iterate (fun _ g' => g' = calm [.slk j] ow sl) rfl fun _ g' hg' => ?_) fun _ => ?_
  · subst hg'
    refine wp_act (spec_getLocked rfl (by simp)) fun locked g' hg' => ?_
    subst hg'
    cases locked with
    | true => exact wp_next (sleep_wp (.inr rfl)) fun _ => rfl
    | false => rfl
  · refine wp_act (spec_lock rfl rfl) fun _ g' hg' => ?_
    subst hg'
    refine wp_self ?_
    refine wp_act spec_get fun pr g' hg' => ?_
    subst hg'
    refine wp_act spec_setLockPid fun _ g' hg' => ?_
    subst hg'
    exact release_wp rfl rfl (by simp) (by simp) rfl

lemma releasesleep_wp (hj : j ∈ sl) :
    wp initproc (.proc p : Ctx NPROC NCPU) (releasesleep j)
      (fun _ g' => g' = calm [] ow (sl.erase j)) (calm [] ow sl : Ghost NPROC ι κ) := by
  refine wp_acquire rfl (by simp) ?_
  refine wp_act (spec_unlock rfl (by simp) hj rfl) fun _ g' hg' => ?_
  subst hg'
  refine wp_act spec_setLockPid fun _ g' hg' => ?_
  subst hg'
  refine wp_next (wakeup_scan (by simp)) fun _ => ?_
  exact release_wp rfl rfl (by simp) (by simp) rfl

/-! ### System calls -/

/-- A process in user space, or one that will not be back there. -/
def Q (_ : Ctx NPROC NCPU) (_ : Unit) (g : Ghost NPROC ι κ) : Prop :=
  g.mode = .saved true ∨ ∃ sl, g = calm [] none sl

lemma releaseAll_wp {held : List κ} (h : List.Subperm held sl) :
    wp initproc (.proc p : Ctx NPROC NCPU) (releaseAll held) (fun _ g' => ∃ sl, g' = calm [] none sl)
      (calm [] none sl : Ghost NPROC ι κ) := by
  induction held generalizing sl with
  | nil => exact ⟨sl, rfl⟩
  | cons j held ih =>
    refine wp_next (releasesleep_wp (h.subset List.mem_cons_self)) fun _ => ih ?_
    simpa using h.erase j

lemma runCmds_wp {cs : List (Cmd ι κ)} {held : List κ} (h : List.Subperm held sl) :
    wp initproc (.proc p : Ctx NPROC NCPU) (runCmds cs held) (fun _ g' => ∃ sl, g' = calm [] none sl)
      (calm [] none sl : Ghost NPROC ι κ) := by
  induction cs generalizing held sl with
  | nil => exact releaseAll_wp h
  | cons cmd cs ih =>
    cases cmd with
    | wait i consume => exact wp_keep waiter_wp fun _ => ih h
    | wake i => exact wp_keep waker_wp fun _ => ih h
    | acquire j => exact wp_next acquiresleep_wp fun _ => ih (List.subperm_cons j |>.mpr h)
    | release j =>
      simp only [runCmds]
      split_ifs with hj
      · exact wp_next (releasesleep_wp (h.subset hj)) fun _ => ih (h.erase j)
      · exact ih h
    | kill pid => exact wp_keep (kkill_wp (by simp)) fun _ => ih h
    | yield => exact wp_keep yield_wp fun _ => ih h

lemma syscall_wp {k : Call ι κ} :
    wp initproc (.proc p : Ctx NPROC NCPU) (syscall initproc k) (fun _ g' => ∃ sl, g' = calm [] none sl)
      (calm [] none sl : Ghost NPROC ι κ) := by
  cases k with
  | cmds cs => exact runCmds_wp (List.nil_subperm)
  | fork => exact wp_next kfork_wp fun _ => ⟨sl, rfl⟩
  | exit status => exact kexit_wp
  | wait addr => exact wp_next kwait_wp fun _ => ⟨sl, rfl⟩

/-- An interrupt handler leaves what was interrupted as it was. -/
lemma interrupted_wp {handler rest : P NPROC ι κ Unit} {R : Unit → Ghost NPROC ι κ → Prop}
    (hh : wp initproc t handler (fun _ g' => g' = calm [] ow sl) (calm [] ow sl))
    (hr : wp initproc t rest R (calm [] ow sl)) :
    wp initproc t (interrupted handler rest) R (calm [] ow sl) := by
  refine wp_keep hh fun _ => ?_
  refine wp_act (spec_intrOn rfl) fun _ g' hg' => ?_
  subst hg'
  exact hr

variable {s s' : St NPROC NCPU ι κ} {γ : Ctx NPROC NCPU → Ghost NPROC ι κ}

omit [DecidableEq ι] [DecidableEq κ] in
/-- Where interrupts are on, the thread is doing nothing that an interrupt could disturb. -/
lemma calm_of_intr (hi : Inv s γ) (hc : running s c = t)
    (hint : (s.cpu c).intr = true) : γ t = calm [] (γ t).owns (γ t).slocks := by
  have hl : (γ t).locks = [] := by
    have := hi.cpus.intr c hint
    rwa [hc] at this
  have hk := hi.know t
  have hnone : (γ t).seen = none ∧ (γ t).tested = none ∧ (γ t).scan = none := by
    refine ⟨?_, ?_, ?_⟩
    · by_contra h
      obtain ⟨⟨q, a, k⟩, h⟩ := Option.ne_none_iff_exists'.mp h
      simpa [hl] using (hk.seen q a k h).1
    · by_contra h
      obtain ⟨⟨k, r⟩, h⟩ := Option.ne_none_iff_exists'.mp h
      simpa [hl] using (hk.tested k r h).1
    · by_contra h
      obtain ⟨⟨k, ps⟩, h⟩ := Option.ne_none_iff_exists'.mp h
      simpa [hl] using hk.scan k ps h
  have hm : (γ t).mode = .run := by
    have hlocks := hk.locks
    rw [hl] at hlocks
    cases h : (γ t).mode with
    | run => rfl
    | _ => simp [h, ModeLocks] at hlocks
  rcases h : γ t with ⟨L, m, r, b, sc, ow, sl⟩
  simp only [h] at hl hm hnone
  obtain ⟨rfl, rfl, rfl⟩ := hnone
  subst hl hm
  rfl

lemma enters : (proto initproc : Proto (sys initproc NCPU (ι := ι) (κ := κ))).Enters Q := by
  intro t s γ x s' x' hi hw henter
  change Ctx NPROC NCPU → Ghost NPROC ι κ at γ
  change Inv s γ at hi
  change wp initproc t x (Q t) (γ t) at hw
  change ∃ g', Inv s' (Function.update γ t g') ∧ wp initproc t x' (Q t) g'
  -- the thread is interrupted
  have hintr : ∀ c handler, running s c = t → (s.cpu c).intr = true →
      (∀ ow sl, wp initproc t handler (fun _ g' => g' = calm [] ow sl) (calm [] ow sl)) →
      ∃ g', Inv (setCpu c { s.cpu c with intr := false } s) (Function.update γ t g') ∧
        wp initproc t (interrupted handler x) (Q t) g' := by
    intro c handler hc hint hh
    have hcalm := calm_of_intr hi hc hint
    refine ⟨γ t, ?_, ?_⟩
    · rw [Function.update_eq_self]
      exact step_setIntr hi (by simp)
    · rw [hcalm] at hw ⊢
      exact interrupted_wp (hh _ _) hw
  cases henter with
  | @start p _ _ hf =>
    exact ⟨_, step_start hi hf rfl, wp_mono forkret_wp fun _ g' hg' => .inr ⟨_, hg'⟩⟩
  | @call p _ c hc hf k =>
    rcases hw with hm | ⟨sl, hg⟩
    · have hrun := hi.disp.running c p hc
      rw [show (γ (.proc p)).mode = .saved true from hm, hf] at hrun
      simp [Running] at hrun
    · refine ⟨calm [] none sl, ?_, wp_mono syscall_wp fun _ g' hg' => .inr hg'⟩
      rwa [update_of_eq hg]
  | device c hc _ hint i => exact hintr c _ hc hint fun _ _ => waker_wp
  | timer c hc _ hint => exact hintr c _ hc hint fun _ _ => yield_wp

/-- What is known at boot: the processes have not run, the schedulers are about to. -/
def bootGhost : Ctx NPROC NCPU → Ghost NPROC ι κ
  | .sched _ => calm [] none []
  | .proc p => ⟨[.proc p], .saved true, none, none, none, none, []⟩

omit [DecidableEq ι] [DecidableEq κ] in
lemma boot_state {cond : ι → Bool} (p : Fin NPROC) :
    state (boot initproc NCPU cond (κ := κ)).shared p = if p = initproc then .runnable else .unused := by
  simp only [boot, state]
  split_ifs <;> rfl

omit [DecidableEq ι] [DecidableEq κ] in
lemma inv_boot (cond : ι → Bool) : Inv (boot initproc NCPU cond (κ := κ)).shared bootGhost where
  cpus := ⟨by simp [boot, running], fun c c' h => by simpa [boot, running] using h,
    by simp [boot, running, bootGhost], by simp [boot, running, bootGhost],
    by simp [boot, running, bootGhost, noff], by simp [boot, running, bootGhost]⟩
  disp := by
    refine ⟨by simp [boot, running], by simp [boot, cproc, bootGhost, target],
      by simp [boot, running], fun p _ => ⟨true, rfl⟩, fun p _ => ⟨true, rfl⟩,
      by simp [boot, running], fun p _ h => ?_, fun p _ h => ?_, by simp [Chosen, bootGhost]⟩
    · rw [boot_state] at h
      split_ifs at h
    · rw [boot_state] at h
      split_ifs at h with hp
      · exact .inl (by simp [boot, hp])
      · simp at h
  know t := by
    cases t <;> refine ⟨?_, ?_, ?_, ?_, ?_, ?_, ?_⟩ <;> simp [bootGhost, ModeLocks, Mode.parked]
  owner := fun t u q b b' h => by cases t <;> simp [bootGhost] at h
  wake := by
    rintro p k (⟨b, hb⟩ | ⟨h, -⟩)
    · simp [bootGhost] at hb
    · rw [boot_state] at h
      split_ifs at h
  slk := ⟨by simp [boot], by simp [boot], by simp [boot, bootGhost], by
    intro p; simp [bootGhost]⟩

lemma follows_boot (cond : ι → Bool) :
    (proto initproc).Follows Q (boot initproc NCPU cond (κ := κ)) := by
  refine ⟨bootGhost, inv_boot cond, fun t => ?_⟩
  cases t with
  | sched c => exact scheduler_wp
  | proc p => exact .inl rfl

end Xv6.Sched.Follow
