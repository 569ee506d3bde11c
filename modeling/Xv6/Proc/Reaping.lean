import Xv6.Proc.Changes

/-!
`kfork`, `kexit` and `kwait` follow the protocol of `wait_lock`.
-/

namespace Xv6.Proc.Reaping

open Xv6.Conc Xv6.Conc.Prog Xv6.Conc.Proto Xv6.Sched.Kernel Xv6.Proc.Coarse Xv6.Proc.Kin Xv6.Proc.Rules
  Xv6.Proc.Changes
open Xv6.Proc.Family hiding Call
open Xv6.Sched.Table hiding step sem setProc setLock

variable {NPROC NCPU : ℕ} {ι : Type} [DecidableEq ι] {t : Ctx NPROC NCPU} {g m : Ghost NPROC ι}
  {p q : Fin NPROC} {initproc : Fin NPROC} {a : Act NPROC ι Empty} {H : Option (Hold NPROC)}
  {h : Hold NPROC} {K : Option (Grip NPROC ι)} {M : Option (Making NPROC)} {v : Proc NPROC ι Empty}
  {x : Option (Proc NPROC ι Empty)} {c : Family.Call NPROC ι} {n : ℤ} {β : Type}
  {Q : β → Ghost NPROC ι → Prop}

/-- A thread that runs. -/
abbrev busy (H : Option (Hold NPROC)) (K : Option (Grip NPROC ι)) (M : Option (Making NPROC))
    (c : Family.Call NPROC ι) (n : ℤ) : Ghost NPROC ι :=
  ⟨false, .awake, H, K, M, c, n⟩

/-! ### Rules -/

lemma wp_idle {f : Res a → P NPROC ι Empty β} (haway : g.away = false) (ha : Idle a)
    (hf : ∀ r, wp initproc t (f r) Q g) : wp initproc t ((perform a).bind f) Q g :=
  wp_act (spec_idle haway ha) fun r g' hg' => by subst hg'; exact hf r

/-- Going on after a piece of program that leaves with `m`. -/
lemma wp_next {δ : Type} {y : P NPROC ι Empty δ} {f : δ → P NPROC ι Empty β}
    (h : wp initproc t y (fun _ g' => g' = m) g) (hf : ∀ r, wp initproc t (f r) Q m) :
    wp initproc t (y.bind f) Q g :=
  wp_call h fun r g' hg' => by subst hg'; exact hf r

/-- Going on after an action that leaves with `m`. -/
lemma wp_then {f : Res a → P NPROC ι Empty β} (h : Spec initproc t a g fun _ g' => g' = m)
    (hf : ∀ r, wp initproc t (f r) Q m) : wp initproc t ((perform a).bind f) Q g :=
  wp_act h fun r g' hg' => by subst hg'; exact hf r

lemma wp_self {f : Fin NPROC → P NPROC ι Empty β} (haway : g.away = false)
    (hf : wp initproc (.proc p : Ctx NPROC NCPU) (f p) Q g) :
    wp initproc (.proc p : Ctx NPROC NCPU) (self.bind f) Q g := by
  refine wp_act (spec_myproc haway) fun r g' ⟨hr, hg'⟩ => ?_
  obtain rfl : r = some p := (hr p).mpr rfl
  subst hg'
  exact hf

lemma wp_whenever {b : Prop} [Decidable b] {y : P NPROC ι Empty Unit}
    {Q : Unit → Ghost NPROC ι → Prop} (h1 : b → wp initproc t y Q g) (h2 : ¬ b → Q () g) :
    wp initproc t (whenever b y) Q g := by
  unfold whenever
  split_ifs with hb
  · exact h1 hb
  · exact h2 hb

/-- The lock of process `q` is acquired, and the process looked at. -/
lemma wp_look {f : Proc NPROC ι Empty → P NPROC ι Empty β}
    (hf : ∀ v, wp initproc t (f v) Q (busy H (some ⟨q, some v, false⟩) M c n)) :
    wp initproc t ((perform (.acquire (.proc q))).bind fun _ => (perform (.get q)).bind f) Q
      (busy H none M c n) := by
  refine wp_then (spec_acquire_proc rfl rfl rfl) fun _ => wp_act (spec_get_grip rfl) fun v g' hg' => ?_
  simp only [Option.map_some, Grip.look, if_true] at hg'
  subst hg'
  exact hf v

lemma release_wp : wp initproc t (perform (.release (.proc q))) (fun _ g' => g' = busy H none M c n)
    (busy H (some ⟨q, x, false⟩) M c n) :=
  wp_perform (spec_release_proc rfl rfl rfl rfl rfl)

lemma wp_release {f : Unit → P NPROC ι Empty β} (hf : wp initproc t (f ()) Q (busy H none M c n)) :
    wp initproc t ((perform (.release (.proc q))).bind f) Q (busy H (some ⟨q, x, false⟩) M c n) :=
  wp_then (spec_release_proc rfl rfl rfl rfl rfl) fun _ => hf

/-! ### Sleeping and waking -/

/-- A process that has gone to sleep is back. -/
lemma sched_wp {kids : Bool} :
    wp initproc (.proc p : Ctx NPROC NCPU) sched (fun _ g' => g' = busy none (some ⟨p, none, false⟩) none c n)
      ⟨false, .asleep kids, none, some ⟨p, x, false⟩, none, c, n⟩ := by
  refine wp_self rfl (wp_idle rfl trivial fun intena => ?_)
  refine wp_then (spec_leave rfl (.inl ⟨kids, rfl⟩) rfl rfl rfl) fun _ => ?_
  exact wp_perform (spec_back rfl rfl rfl rfl (.inl ⟨kids, rfl⟩) fun _ => rfl)

/-- A process that has exited is never back. -/
lemma sched_gone {Q : Unit → Ghost NPROC ι → Prop} :
    wp initproc (.proc p : Ctx NPROC NCPU) sched Q
      ⟨false, .gone, none, some ⟨p, x, false⟩, none, c, n⟩ := by
  refine wp_self rfl (wp_idle rfl trivial fun intena => ?_)
  refine wp_then (spec_leave rfl (.inr rfl) rfl rfl rfl) fun _ => ?_
  exact wp_perform (spec_back rfl rfl rfl rfl (.inr rfl) fun ⟨_, h⟩ => by cases h)

/-- Sleeping on a condition. -/
lemma sleep_wp {i : ι} (hc : ∀ addr, c.req ≠ some (.wait addr)) :
    wp initproc (.proc p : Ctx NPROC NCPU) (sleep (.cond i) (.cond i))
      (fun _ g' => g' = busy none none none c n) (busy none none none c n) := by
  refine wp_self rfl ?_
  refine wp_then (spec_acquire_proc rfl rfl rfl) fun _ => ?_
  refine wp_idle rfl ⟨by simp, by simp⟩ fun _ => ?_
  refine wp_then (spec_chan_own rfl rfl rfl rfl) fun _ => ?_
  refine wp_then (spec_doze rfl ⟨_, rfl, rfl⟩ (.inr ⟨rfl, rfl, hc⟩)) fun _ => ?_
  refine wp_next sched_wp fun _ => ?_
  refine wp_then (spec_chan_own rfl rfl rfl rfl) fun _ => wp_release ?_
  exact wp_perform (spec_idle rfl ⟨by simp, by simp⟩)

/-- Sleeping in `kwait`. -/
lemma sleep_wait_wp (howes : h.owes = false) (hscan : ∀ q, h.scanned q) :
    wp initproc (.proc p : Ctx NPROC NCPU) (sleep (.proc p) .wait)
      (fun _ g' => g' = busy (some newly) none none c n) (busy (some h) none none c n) := by
  refine wp_self rfl ?_
  refine wp_then (spec_acquire_proc rfl rfl rfl) fun _ => ?_
  refine wp_then (spec_release_fall rfl rfl howes hscan rfl rfl rfl) fun _ => ?_
  refine wp_then (spec_chan_wait rfl rfl) fun _ => ?_
  refine wp_then (spec_doze rfl ⟨_, rfl, rfl⟩ (.inl ⟨rfl, rfl⟩)) fun _ => ?_
  refine wp_next sched_wp fun _ => ?_
  refine wp_then (spec_chan_own rfl rfl rfl rfl) fun _ => wp_release ?_
  exact wp_perform (spec_acquire_wait rfl rfl)

/-- A round of `wakeup`. -/
lemma wakeOne_wp {ch : Option (Chan NPROC ι Empty)} :
    wp initproc t (wakeOne ch q) (fun _ g' => g' = busy H none M c n) (busy H none M c n) := by
  refine wp_look fun v => ?_
  refine wp_call (I := fun _ g' => ∃ x, g' = busy H (some ⟨q, x, false⟩) M c n)
    (wp_whenever (fun hv => ?_) fun _ => ⟨_, rfl⟩) fun _ g' ⟨x, hg'⟩ => ?_
  · refine wp_perform (Spec.mono (spec_wake (k := ⟨q, some v, false⟩) rfl rfl rfl rfl rfl hv.1)
      fun _ g' hg' => ?_)
    exact ⟨_, hg'⟩
  · subst hg'
    exact release_wp

/-- The visit to the process that sleeps on itself, if it does. -/
lemma wakeOne_told :
    wp initproc t (wakeOne (some (.proc q)) q)
      (fun _ g' => g' = busy (some (inform initproc q h)) none M c n) (busy (some h) none M c n) := by
  refine wp_look fun v => ?_
  refine wp_call (I := fun _ g' => ∃ v, ¬(v.state = .sleeping ∧ v.chan = some (.proc q)) ∧
    g' = busy (some h) (some ⟨q, some v, false⟩) M c n)
    (wp_whenever (fun hv => ?_) fun hv => ⟨_, hv, rfl⟩) fun _ g' ⟨v, hv, hg'⟩ => ?_
  · refine wp_perform (Spec.mono (spec_wake (k := ⟨q, some v, false⟩) rfl rfl rfl rfl rfl hv.1)
      fun _ g' hg' => ?_)
    exact ⟨_, by simp, hg'⟩
  · subst hg'
    exact wp_perform (spec_release_told rfl rfl rfl rfl rfl rfl rfl hv)

lemma wakeup_wp {ch : Option (Chan NPROC ι Empty)} :
    wp initproc t (wakeup ch) (fun _ g' => g' = busy H none M c n) (busy H none M c n) := by
  refine wp_iterate (fun _ g' => g' = busy H none M c n) rfl fun ps g' hg' => ?_
  subst hg'
  cases ps with
  | nil => rfl
  | cons q ps =>
    refine wp_idle rfl trivial fun me => ?_
    exact wp_next (wp_whenever (fun _ => wakeOne_wp) fun _ => rfl) fun _ => rfl

omit [DecidableEq ι] in
lemma inform_inform : inform initproc q (inform initproc q h) = inform initproc q h := by
  simp [inform]

/-- `wakeup` of a process that may wait for its children. -/
lemma wakeup_told :
    wp initproc t (wakeup (some (.proc q)))
      (fun _ g' => g' = busy (some (inform initproc q h)) none M c n) (busy (some h) none M c n) := by
  refine wp_iterate (fun ps g' => g' = busy (some (inform initproc q h)) none M c n ∨
    q ∈ ps ∧ g' = busy (some h) none M c n) (.inr ⟨List.mem_finRange q, rfl⟩) fun ps g' hg' => ?_
  -- whether `q` has been visited or not, a visit leaves the same behind
  obtain ⟨h', hg', hor⟩ : ∃ h', g' = busy (some h') none M c n ∧
      (h' = inform initproc q h ∨ q ∈ ps ∧ h' = h) := by
    rcases hg' with hg' | ⟨hq, hg'⟩
    · exact ⟨_, hg', .inl rfl⟩
    · exact ⟨_, hg', .inr ⟨hq, rfl⟩⟩
  subst hg'
  cases ps with
  | nil =>
    obtain rfl := hor.resolve_right fun h => by simp at h
    rfl
  | cons r ps =>
    by_cases hr : r = q
    · subst hr
      have htell : inform initproc r h' = inform initproc r h := by
        rcases hor with rfl | ⟨-, rfl⟩
        · exact inform_inform
        · rfl
      by_cases ht : t = .proc r
      · subst ht
        refine wp_act (spec_myproc_told rfl rfl rfl) fun me g' ⟨hme, hg'⟩ => ?_
        subst hg'
        rw [htell]
        exact wp_next (wp_whenever (fun h => absurd hme h) fun _ => rfl) fun _ => .inl rfl
      · refine wp_act (spec_myproc rfl) fun me g' ⟨hme, hg'⟩ => ?_
        subst hg'
        have hne : me ≠ some r := fun h => ht ((hme r).mp h)
        refine wp_next (wp_whenever (fun _ => wakeOne_told) fun h => absurd hne h) fun _ => .inl ?_
        rw [htell]
    · refine wp_idle rfl trivial fun me => ?_
      refine wp_next (wp_whenever (fun _ => wakeOne_wp) fun _ => rfl) fun _ => ?_
      rcases hor with rfl | ⟨hq, rfl⟩
      · exact .inl rfl
      · exact .inr ⟨(List.mem_cons.mp hq).resolve_left (Ne.symm hr), rfl⟩

/-- Waking up whoever sleeps on a condition, under its lock. -/
lemma rouse_wp {i : ι} :
    wp initproc t (rouse i) (fun _ g' => g' = busy H none M c n) (busy H none M c n) := by
  refine wp_idle rfl ⟨by simp, by simp⟩ fun _ => wp_next wakeup_wp fun _ => ?_
  exact wp_perform (spec_idle rfl ⟨by simp, by simp⟩)

lemma nap_wp {i : ι} (hc : ∀ addr, c.req ≠ some (.wait addr)) :
    wp initproc (.proc p : Ctx NPROC NCPU) (nap i) (fun _ g' => g' = busy none none none c n)
      (busy none none none c n) := by
  refine wp_idle rfl ⟨by simp, by simp⟩ fun _ => wp_next (sleep_wp hc) fun _ => ?_
  exact wp_perform (spec_idle rfl ⟨by simp, by simp⟩)

lemma killed_wp :
    wp initproc t (killed q) (fun _ g' => g' = busy H none M c n) (busy H none M c n) := by
  refine wp_look fun v => wp_release ?_
  rfl

lemma kkill_wp {pid : ℤ} :
    wp initproc t (kkill pid) (fun _ g' => g' = busy H none M c n) (busy H none M c n) := by
  refine wp_iterate (fun _ g' => g' = busy H none M c n) rfl fun ps g' hg' => ?_
  subst hg'
  cases ps with
  | nil => rfl
  | cons q ps =>
    refine wp_look fun v => ?_
    split_ifs with hpid
    · refine wp_then (spec_killed rfl) fun _ => wp_act (spec_get_grip rfl) fun v' g' hg' => ?_
      simp only [Option.map_some, Grip.look, if_true] at hg'
      subst hg'
      refine wp_call (I := fun _ g' => ∃ x, g' = busy H (some ⟨q, x, false⟩) M c n)
        (wp_whenever (fun hv => ?_) fun _ => ⟨_, rfl⟩) fun _ g' hx => ?_
      · refine wp_perform (Spec.mono (spec_wake (k := ⟨q, some v', false⟩) rfl rfl rfl rfl rfl hv)
          fun _ g' hg' => ?_)
        exact ⟨_, hg'⟩
      · obtain ⟨x, hg'⟩ := hx
        subst hg'
        exact wp_release rfl
    · exact wp_release rfl

/-! ### Making a process -/

lemma allocpid_wp (haway : g.away = false) :
    wp initproc t allocpid (fun _ g' => g' = g) g := by
  refine wp_idle haway ⟨by simp, by simp⟩ fun _ => wp_idle haway trivial fun pid => ?_
  refine wp_idle haway ⟨by simp, by simp⟩ fun _ => ?_
  rfl

/-- `freeproc` of a process that was not finished. -/
lemma freeproc_new {b : Bool} :
    wp initproc t (freeproc q) (fun _ g' => g' = busy none (some ⟨q, none, false⟩) none c n)
      (busy none (some ⟨q, x, false⟩) (some ⟨q, b, false⟩) c n) := by
  refine wp_then (spec_pid rfl rfl rfl rfl (.inr ⟨_, rfl, rfl⟩)) fun _ => ?_
  refine wp_then (spec_disown_new rfl rfl rfl rfl) fun _ => ?_
  refine wp_then (spec_chan_free rfl ⟨_, rfl, rfl, .inr ⟨_, rfl, rfl, rfl⟩⟩ rfl) fun _ => ?_
  refine wp_then (spec_killed rfl) fun _ => ?_
  refine wp_then (spec_xstate rfl (.inr (.inr ⟨_, rfl, rfl⟩))) fun _ => ?_
  exact wp_perform (spec_unmake rfl rfl ⟨_, rfl, rfl⟩ rfl rfl rfl)

/-- What `allocproc` leaves behind. -/
def Allocated (c : Family.Call NPROC ι) (n : ℤ) (o : Option (Fin NPROC)) (g : Ghost NPROC ι) : Prop :=
  match o with
  | none => g = busy none none none c n
  | some np => g = busy none (some ⟨np, none, false⟩) (some ⟨np, true, false⟩) c n

lemma found_wp (hc : c.req ≠ some (.wait true)) (hv : v.state = .unused) :
    wp initproc (.proc p : Ctx NPROC NCPU) (found q) (Allocated c n)
      (busy none (some ⟨q, some v, false⟩) none c n) := by
  refine wp_next (allocpid_wp rfl) fun pid => ?_
  refine wp_then (spec_pid rfl rfl rfl rfl (.inl ⟨v, rfl, hv⟩)) fun _ => ?_
  refine wp_then (spec_take rfl rfl rfl rfl rfl hv) fun _ => ?_
  have hgiveUp : ∀ b, wp initproc (.proc p : Ctx NPROC NCPU)
      ((freeproc q).bind fun _ => (perform (.release (.proc q))).bind fun _ => .ret none)
      (Allocated c n) (busy none (some ⟨q, none, false⟩) (some ⟨q, b, false⟩) c n) := fun b =>
    wp_next freeproc_new fun _ => wp_release rfl
  refine wp_then (spec_fails rfl hc) fun noFrame => ?_
  cases noFrame with
  | true => exact hgiveUp false
  | false =>
    refine wp_then (spec_fails rfl hc) fun noTable => ?_
    cases noTable with
    | true => exact hgiveUp false
    | false => exact wp_then (spec_ready rfl rfl rfl) fun _ => rfl

lemma allocproc_wp (hc : c.req ≠ some (.wait true)) :
    wp initproc (.proc p : Ctx NPROC NCPU) allocproc (Allocated c n) (busy none none none c n) := by
  refine wp_iterate (fun _ g' => g' = busy none none none c n) rfl fun ps g' hg' => ?_
  subst hg'
  cases ps with
  | nil => rfl
  | cons q ps =>
    refine wp_look fun v => ?_
    split_ifs with hv
    · exact wp_call (found_wp hc hv) fun o g' hg' => hg'
    · exact wp_release rfl

lemma kfork_wp (hc : c.req ≠ some (.wait true)) :
    wp initproc (.proc p : Ctx NPROC NCPU) kfork (fun _ g' => g' = busy none none none c n)
      (busy none none none c n) := by
  refine wp_self rfl (wp_call (allocproc_wp hc) fun o g' hg' => ?_)
  cases o with
  | none => exact hg'
  | some np =>
    subst hg'
    refine wp_then (spec_fails rfl hc) fun noCopy => ?_
    cases noCopy with
    | true => exact wp_next freeproc_new fun _ => wp_release rfl
    | false =>
      refine wp_act (spec_get_grip rfl) fun pr g' hg' => ?_
      subst hg'
      refine wp_then (spec_release_proc rfl rfl rfl (by simp [Grip.look]) (by simp [Grip.look])) fun _ => ?_
      refine wp_then (spec_acquire_wait rfl rfl) fun _ => ?_
      refine wp_then (spec_adopt rfl rfl rfl rfl) fun _ => ?_
      refine wp_then (spec_release_wait rfl rfl rfl) fun _ => ?_
      refine wp_then (spec_acquire_proc rfl rfl rfl) fun _ => ?_
      refine wp_then (spec_launch rfl rfl ⟨_, rfl, rfl⟩ rfl) fun _ => ?_
      exact wp_release rfl

/-! ### Exits -/

/-- After `reparent` a process has no children. -/
lemma reparent_wp (hinit : p ≠ initproc) (hc : c.failed = none) :
    wp initproc (.proc p : Ctx NPROC NCPU) (reparent initproc p)
      (fun _ g' => ∃ h, g' = busy (some h) none none c n ∧ h.owes = false ∧ ∀ x, h.orphaned x)
      (busy (some newly) none none c n) := by
  refine wp_iterate (fun ps g' => ∃ h, g' = busy (some h) none none c n ∧ h.owes = false ∧
    ∀ x, x ∈ ps ∨ h.orphaned x) ⟨newly, rfl, rfl, fun x => .inl (List.mem_finRange x)⟩
    fun ps g' ⟨h, hg', howes, horph⟩ => ?_
  subst hg'
  cases ps with
  | nil => exact ⟨h, rfl, howes, fun x => (horph x).resolve_left (by simp)⟩
  | cons pp ps =>
    refine wp_act (spec_get rfl rfl) fun pr g' ⟨hg', _⟩ => ?_
    subst hg'
    refine wp_call (I := fun _ g' => ∃ h, g' = busy (some h) none none c n ∧ h.owes = false ∧
      ∀ x, x ∈ ps ∨ h.orphaned x) (wp_whenever (fun hpar => ?_) fun hpar => ?_)
      fun _ g' ⟨h', hg', howes', horph'⟩ => ⟨h', hg', howes', horph'⟩
    · -- a child is given to `initproc`, which is woken up
      refine wp_then (spec_disown rfl rfl rfl rfl (by simp [Hold.look, hpar]) hc (.inr ⟨rfl, hinit⟩))
        fun _ => ?_
      refine wp_mono wakeup_told fun _ g' hg' => ⟨_, hg', by simp [inform], fun x => ?_⟩
      rcases horph x with hx | hx
      · exact (List.mem_cons.mp hx).elim (fun h => .inr (.inr h)) .inl
      · exact .inr (.inl (.inl hx))
    · refine ⟨_, rfl, howes, fun x => ?_⟩
      rcases horph x with hx | hx
      · refine (List.mem_cons.mp hx).elim (fun h => .inr (.inr ⟨h, fun u hu => ?_⟩)) .inl
        cases hu
        exact hpar
      · exact .inr (.inl hx)

lemma kexit_wp {status : ℤ} {Q : Unit → Ghost NPROC ι → Prop} (hc : c.failed = none) :
    wp initproc (.proc p : Ctx NPROC NCPU) (kexit initproc status) Q (busy none none none c n) := by
  refine wp_self rfl ?_
  split_ifs with hinit
  · exact wp_act spec_panic (I := fun _ _ => True) fun r => r.elim
  · refine wp_then (spec_acquire_wait rfl rfl) fun _ => ?_
    refine wp_call (reparent_wp hinit hc) fun _ g' ⟨h, hg', howes, horph⟩ => ?_
    subst hg'
    refine wp_act (spec_get rfl rfl) fun pr g' ⟨hg', _⟩ => ?_
    subst hg'
    refine wp_call (I := fun _ g' => ∃ h, g' = busy (some h) none none c n ∧ h.owes = false ∧
      (∀ x, h.orphaned x) ∧ h.kin = some (p, pr.parent) ∧ ∀ u, pr.parent = some u → h.told = some u)
      ?_ fun _ g' ⟨h, hg', howes, horph, hkin, htold⟩ => ?_
    · cases hpar : pr.parent with
      | none =>
        refine wp_mono wakeup_wp fun _ g' hg' => ⟨_, hg', howes, fun x => .inl (horph x), ?_, by simp⟩
        simp [Hold.look, hpar]
      | some u =>
        refine wp_mono wakeup_told fun _ g' hg' => ⟨_, hg', ?_, fun x => .inl (horph x), ?_, ?_⟩
        · simp [inform, Hold.look, howes]
        · simp [inform, Hold.look, hpar]
        · intro u' hu'
          cases hu'
          rfl
    · subst hg'
      refine wp_then (spec_acquire_proc rfl rfl rfl) fun _ => ?_
      refine wp_then (spec_xstate rfl (.inl ⟨rfl, rfl⟩)) fun _ => ?_
      refine wp_then (spec_exit rfl rfl ⟨_, rfl, rfl⟩ rfl rfl horph hkin htold hinit) fun _ => ?_
      refine wp_then (spec_release_wait rfl rfl howes) fun _ => ?_
      exact wp_call (I := fun _ _ => False) sched_gone fun _ _ h => h.elim

/-! ### Waiting -/

/-- A call of `kwait` for which `addr` says whether to copy out, so far. -/
abbrev waiting (addr : Bool) : Family.Call NPROC ι := ⟨some (.wait addr), none, none⟩

/-- `kwait` returns the pid of the child it has reaped, or -1. -/
def Returned (addr : Bool) (r : ℤ) (g : Ghost NPROC ι) : Prop :=
  g = busy none none none g.call g.pid ∧ g.call.req = some (.wait addr) ∧
    ((∃ i, g.call.got = some i ∧ g.call.failed = none ∧ r = g.pid) ∨ g.call.got = none ∧ r = -1)

/-- `freeproc` of a zombie child. -/
lemma freeproc_zombie {addr : Bool} (hv : v.state = .zombie) (hkin : h.kin = some (q, some p))
    (howes : h.owes = false) :
    wp initproc (.proc p : Ctx NPROC NCPU) (freeproc q)
      (fun _ g' => ∃ h i, h.owes = false ∧
        g' = busy (some h) (some ⟨q, none, false⟩) none ⟨some (.wait addr), none, some i⟩ v.pid)
      (busy (some h) (some ⟨q, some v, false⟩) none (waiting addr) n) := by
  refine wp_act (spec_reap rfl rfl rfl rfl rfl rfl rfl hv rfl hkin rfl) fun _ g' ⟨i, hg'⟩ => ?_
  subst hg'
  refine wp_then (spec_disown rfl rfl rfl rfl hkin rfl (.inl rfl)) fun _ => ?_
  refine wp_then (spec_chan_free rfl ⟨_, rfl, rfl, .inl rfl⟩ rfl) fun _ => ?_
  refine wp_then (spec_killed rfl) fun _ => ?_
  refine wp_then (spec_xstate rfl (.inr (.inl ⟨_, rfl, rfl, rfl⟩))) fun _ => ?_
  refine wp_perform (Spec.mono (spec_bury rfl rfl rfl rfl rfl rfl rfl rfl) fun _ g' hg' => ?_)
  exact ⟨_, i, by simp [howes], hg'⟩

lemma reap_wp {addr : Bool} (hv : v.state = .zombie) (hkin : h.kin = some (q, some p))
    (howes : h.owes = false) :
    wp initproc (.proc p : Ctx NPROC NCPU) (reap addr q v.pid) (Returned addr)
      (busy (some h) (some ⟨q, some v, false⟩) none (waiting addr) n) := by
  refine wp_act (spec_fails_reap rfl rfl rfl rfl rfl hv rfl hkin) fun noCopy g' hg' => ?_
  by_cases hboth : (addr && noCopy) = true
  · rw [if_pos hboth] at hg' ⊢
    subst hg'
    refine wp_release (wp_then (spec_release_wait rfl rfl howes) fun _ => ?_)
    exact ⟨rfl, rfl, .inr ⟨rfl, rfl⟩⟩
  · rw [if_neg hboth] at hg' ⊢
    subst hg'
    refine wp_call (freeproc_zombie hv hkin howes) fun _ g' ⟨h', i, howes', hg'⟩ => ?_
    subst hg'
    refine wp_release (wp_then (spec_release_wait rfl rfl howes') fun _ => ?_)
    exact ⟨rfl, rfl, .inl ⟨i, rfl, rfl, rfl⟩⟩

/-- After a scan without a result no child is a zombie. -/
def Scanned (addr : Bool) (n : ℤ) (o : Bool × Option ℤ) (g : Ghost NPROC ι) : Prop :=
  match o.2 with
  | some r => Returned addr r g
  | none => ∃ h, g = busy (some h) none none (waiting addr) n ∧ h.owes = false ∧ ∀ x, h.scanned x

lemma scanKids_wp {addr : Bool} (howes : h.owes = false) :
    wp initproc (.proc p : Ctx NPROC NCPU) (scanKids addr p) (Scanned addr n)
      (busy (some h) none none (waiting addr : Family.Call NPROC ι) n) := by
  refine wp_iterate (fun ps g' => ∃ h, g' = busy (some h) none none (waiting addr) n ∧ h.owes = false ∧
    ∀ x, x ∈ ps.1 ∨ h.scanned x) ⟨h, rfl, howes, fun x => .inl (List.mem_finRange x)⟩
    fun ps g' hps => ?_
  obtain ⟨h, hg', howes, hscan⟩ := hps
  subst hg'
  obtain ⟨ps, havekids⟩ := ps
  cases ps with
  | nil => exact ⟨h, rfl, howes, fun x => (hscan x).resolve_left (by simp)⟩
  | cons pp ps =>
    refine wp_act (spec_get rfl rfl) fun pr g' hpr => ?_
    obtain ⟨hg', -⟩ := hpr
    subst hg'
    split_ifs with hpar
    · refine wp_then (spec_acquire_proc rfl rfl rfl) fun _ => ?_
      refine wp_act (spec_get rfl rfl) fun pr' g' hpr' => ?_
      obtain ⟨hg', hsame⟩ := hpr'
      have hkid : pr'.parent = some p := hsame (some p) (by simp [Hold.look, hpar])
      simp only [Option.map_some, Grip.look, if_true] at hg'
      subst hg'
      split_ifs with hz
      · exact wp_call (reap_wp hz (by simp [Hold.look, hkid]) howes) fun r g' hr => hr
      · refine wp_release ⟨_, rfl, howes, fun x => ?_⟩
        rcases hscan x with hx | hx
        · refine (List.mem_cons.mp hx).elim (fun h => .inr (.inr ⟨h, fun u _ hu => ?_⟩)) .inl
          exact hz hu.2
        · exact .inr (.inl (.inl hx))
    · refine ⟨_, rfl, howes, fun x => ?_⟩
      rcases hscan x with hx | hx
      · refine (List.mem_cons.mp hx).elim (fun h => .inr (.inr ⟨h, fun u hu hk => ?_⟩)) .inl
        cases hu
        exact hpar hk.1
      · exact .inr (.inl hx)

lemma kwait_wp {addr : Bool} :
    wp initproc (.proc p : Ctx NPROC NCPU) (kwait addr) (Returned addr)
      (busy none none none (waiting addr : Family.Call NPROC ι) n) := by
  refine wp_self rfl (wp_then (spec_acquire_wait rfl rfl) fun _ => ?_)
  refine wp_iterate (fun _ g' => ∃ h, g' = busy (some h) none none (waiting addr) n ∧ h.owes = false)
    ⟨newly, rfl, rfl⟩ fun _ g' ⟨h, hg', howes⟩ => ?_
  subst hg'
  refine wp_call (scanKids_wp howes) fun o g' hg' => ?_
  obtain ⟨havekids, o⟩ := o
  cases o with
  | some r => cases havekids <;> exact hg'
  | none =>
    obtain ⟨h', rfl, howes', hscan⟩ := hg'
    have hnone : Returned addr (-1) (busy none none none (waiting addr) n : Ghost NPROC ι) :=
      ⟨rfl, rfl, .inr ⟨rfl, rfl⟩⟩
    cases havekids with
    | false => exact wp_then (spec_release_wait rfl rfl howes') fun _ => hnone
    | true =>
      refine wp_next killed_wp fun k => ?_
      cases k with
      | true => exact wp_then (spec_release_wait rfl rfl howes') fun _ => hnone
      | false => exact wp_next (sleep_wait_wp howes' hscan) fun _ => ⟨newly, rfl, rfl⟩

end Xv6.Proc.Reaping
