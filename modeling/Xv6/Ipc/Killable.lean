import Xv6.Ipc.Window

/-!
Kills and interruptible waits. A kill that falls between the test of `killed` and the sleep
leaves its victim asleep. In the runs in which none does, a process is never asleep once a kill
of it is over.
-/

namespace Xv6.Ipc.Killable

open Xv6.Conc Xv6.Conc.Prog Xv6.Conc.Proto Xv6.Sched.Kernel Xv6.Proc.Coarse Xv6.Ipc.Waits
  Xv6.Ipc.Window
open Xv6.Sched.Table hiding step sem setProc setLock
open Xv6.Ipc.Pipes hiding State Request History Enter watch serve start

variable {NPROC NCPU : ℕ} {initproc : Fin NPROC} {t : Ctx NPROC NCPU} {g : Ghost NPROC}
  {p q : Fin NPROC} {β δ : Type}

abbrev wp (initproc : Fin NPROC) (t : Ctx NPROC NCPU) {β : Type} (x : KP NPROC β)
    (Q : β → Ghost NPROC → Prop) (g : Ghost NPROC) : Prop :=
  (proto initproc NCPU).wp t x Q g

/-! ### Rules -/

section Rules

variable {Q : δ → Ghost NPROC → Prop}

lemma wp_low {a : Act NPROC Site Empty} {f : Res a → P NPROC Site Empty δ}
    {I : Res a → Ghost NPROC → Prop} (h : Spec initproc t (.inl (.inl a)) g I)
    (hf : ∀ r g', I r g' → wp initproc t (low (f r)) Q g') :
    wp initproc t (low ((perform a).bind f)) Q g :=
  Spec.mono h hf

lemma wp_low_call {x : P NPROC Site Empty β} {f : β → P NPROC Site Empty δ}
    {I : β → Ghost NPROC → Prop} (h : wp initproc t (low x) I g)
    (hf : ∀ a g', I a g' → wp initproc t (low (f a)) Q g') :
    wp initproc t (low (x.bind f)) Q g := by
  simp only [low, left_bind]
  exact wp_call h hf

lemma wp_low_iterate {b : β} {body : β → P NPROC Site Empty (β ⊕ δ)}
    (I : β → Ghost NPROC → Prop) (h0 : I b g)
    (h : ∀ b' g', I b' g' → wp initproc t (low (body b')) (fun r g'' => match r with
      | .inl b'' => I b'' g''
      | .inr d => Q d g'') g') : wp initproc t (low (iterate b body)) Q g := by
  change wp initproc t (piped (iterate b fun x => left (body x))) Q g
  refine wp_left_iterate I h0 fun b' g' hg' => wp_mono (h b' g' hg') fun r g'' hr => ?_
  cases r with
  | inl b'' => exact hr
  | inr d => exact hr

/-- The rule for an action on the pipe. -/
lemma wp_pipe {b : PAct} {f : PRes b → PP NPROC δ} {I : PRes b → Ghost NPROC → Prop}
    (h : Spec initproc t (.inl (.inr b)) g I)
    (hf : ∀ r g', I r g' → wp initproc t (piped (f r)) Q g') :
    wp initproc t (piped ((dev b).bind f)) Q g :=
  Spec.mono h hf

end Rules

/-- What a program may do that has nothing to do with kills or sleeping, and with the pipe only
where it is free to. -/
def Calm (free : Prop) : KAct NPROC → Prop
  | .inl (.inl a) => Plain a
  | .inl (.inr _) => free
  | .inr _ => True

/-- Such a program changes nothing that matters here. -/
lemma wp_calm {c : Prop} {x : KP NPROC β} (hx : x.All (Calm c)) (hg : g.grip = none)
    (hp : c → g.holds = true ∧ g.pipe = none) :
    wp initproc t x (fun _ g' => g' = g) g := by
  induction x with
  | ret a => exact rfl
  | act a k ih =>
    have hspec : Spec initproc t a g fun _ g' => g' = g := by
      rcases a with (a | b) | b
      · exact spec_plain hx.1 (keeps_of_none hg)
      · obtain ⟨hh, hpi⟩ := hp hx.1
        refine Spec.mono (spec_change hh) fun _ g' h => ?_
        rw [h, ← hpi]
      · exact spec_gear
    refine Spec.mono hspec fun r g' h => ?_
    subst h
    exact ih r (hx.2 r)
  | loop b body k ihb ihk =>
    refine ⟨fun _ g' => g' = g, rfl, fun b' g' h => ?_⟩
    subst h
    refine wp_mono (ihb b' (hx.1 b')) fun r g'' h => ?_
    subst h
    cases r with
    | inl b'' => exact rfl
    | inr d => exact ihk d (hx.2 d)

lemma wp_plain {x : P NPROC Site Empty β} (hx : x.All Plain) (hg : g.grip = none) :
    wp initproc t (low x) (fun _ g' => g' = g) g :=
  wp_calm (c := False) (all_left.mpr (all_left.mpr hx)) hg False.elim

/-! ### Plain programs -/

section Plain

variable {ch : Option (Chan NPROC Site Empty)}

lemma all_self : (self : P NPROC Site Empty (Fin NPROC)).All Plain := by
  refine all_then trivial fun o => ?_
  cases o with
  | some p => trivial
  | none => exact ⟨trivial, fun r => r.elim⟩

lemma all_sched : (sched : P NPROC Site Empty Unit).All Plain :=
  all_bind all_self fun _ => ⟨trivial, fun _ => ⟨trivial, fun _ => ⟨trivial, fun _ => trivial⟩⟩⟩

lemma all_whenever {b : Prop} [Decidable b] {x : P NPROC Site Empty Unit} (hx : x.All Plain) :
    (whenever b x).All Plain := by
  unfold whenever
  split_ifs
  · exact hx
  · trivial

lemma all_wakeup : (wakeup ch : P NPROC Site Empty Unit).All Plain := by
  refine all_iterate.mpr fun ps => ?_
  cases ps with
  | nil => trivial
  | cons q ps =>
    refine all_then trivial fun me => all_bind (all_whenever ?_) fun _ => trivial
    refine all_then (by simp [Plain]) fun _ => all_then trivial fun pr => ?_
    refine all_bind (all_whenever ?_) fun _ => ⟨by simp [Plain], fun _ => trivial⟩
    exact ⟨trivial, fun _ => trivial⟩

lemma all_forkret : (forkret : P NPROC Site Empty Unit).All Plain :=
  all_bind all_self fun _ => ⟨by simp [Plain], fun _ => ⟨trivial, fun _ => trivial⟩⟩

lemma all_allocpid : (allocpid : P NPROC Site Empty ℤ).All Plain :=
  ⟨by simp [Plain], fun _ => ⟨trivial, fun _ => ⟨by simp [Plain], fun _ => trivial⟩⟩⟩

lemma all_freeproc : (freeproc q : P NPROC Site Empty Unit).All Plain :=
  all_then trivial fun _ => all_then trivial fun _ => all_then trivial fun _ =>
    all_then trivial fun _ => all_then trivial fun _ => ⟨trivial, fun _ => trivial⟩

lemma all_found : (found q : P NPROC Site Empty (Option (Fin NPROC))).All Plain := by
  have hfail : ((freeproc q).bind fun _ => (act (.release (.proc q))).bind fun _ =>
      (.ret none : P NPROC Site Empty (Option (Fin NPROC)))).All Plain :=
    all_bind all_freeproc fun _ => ⟨by simp [Plain], fun _ => trivial⟩
  refine all_bind all_allocpid fun pid => all_then trivial fun _ => all_then trivial fun _ => ?_
  refine all_then trivial fun noFrame => ?_
  split_ifs
  · exact hfail
  · refine all_then trivial fun noTable => ?_
    split_ifs
    · exact hfail
    · exact ⟨trivial, fun _ => trivial⟩

lemma all_allocproc : (allocproc : P NPROC Site Empty (Option (Fin NPROC))).All Plain := by
  refine all_iterate.mpr fun ps => ?_
  cases ps with
  | nil => trivial
  | cons q ps =>
    refine all_then (by simp [Plain]) fun _ => all_then trivial fun pr => ?_
    split_ifs
    · exact all_bind all_found fun _ => trivial
    · exact ⟨by simp [Plain], fun _ => trivial⟩

lemma all_kfork : (kfork : P NPROC Site Empty ℤ).All Plain := by
  refine all_bind all_self fun p => all_bind all_allocproc fun o => ?_
  cases o with
  | none => trivial
  | some np =>
    refine all_then trivial fun noCopy => ?_
    split_ifs
    · exact all_bind all_freeproc fun _ => ⟨by simp [Plain], fun _ => trivial⟩
    · refine all_then trivial fun pr => all_then (by simp [Plain]) fun _ => ?_
      refine all_then (by simp [Plain]) fun _ => all_then trivial fun _ => ?_
      refine all_then (by simp [Plain]) fun _ => all_then (by simp [Plain]) fun _ => ?_
      exact all_then trivial fun _ => ⟨by simp [Plain], fun _ => trivial⟩

lemma all_reparent : (reparent initproc p : P NPROC Site Empty Unit).All Plain := by
  refine all_iterate.mpr fun ps => ?_
  cases ps with
  | nil => trivial
  | cons pp ps =>
    refine all_then trivial fun pr => all_bind (all_whenever ?_) fun _ => trivial
    exact all_then trivial fun _ => all_wakeup

lemma all_kexit {status : ℤ} : (kexit initproc status : P NPROC Site Empty Unit).All Plain := by
  refine all_bind all_self fun p => ?_
  split_ifs
  · exact ⟨trivial, fun r => r.elim⟩
  · refine all_then (by simp [Plain]) fun _ => all_bind all_reparent fun _ => ?_
    refine all_then trivial fun pr => all_bind all_wakeup fun _ => ?_
    refine all_then (by simp [Plain]) fun _ => all_then trivial fun _ => all_then trivial fun _ => ?_
    refine all_then (by simp [Plain]) fun _ => all_bind all_sched fun _ => ?_
    exact ⟨trivial, fun r => r.elim⟩

lemma all_scanKids {addr : Bool} :
    (scanKids addr p : P NPROC Site Empty (Bool × Option ℤ)).All Plain := by
  refine all_iterate.mpr fun x => ?_
  obtain ⟨ps, havekids⟩ := x
  cases ps with
  | nil => trivial
  | cons pp ps =>
    refine all_then trivial fun pr => ?_
    split_ifs
    swap
    · trivial
    refine all_then (by simp [Plain]) fun _ => all_then trivial fun pr' => ?_
    split_ifs
    · refine all_bind (all_then trivial fun noCopy => ?_) fun _ => trivial
      split_ifs
      · exact all_then (by simp [Plain]) fun _ => ⟨by simp [Plain], fun _ => trivial⟩
      · exact all_bind all_freeproc fun _ => all_then (by simp [Plain]) fun _ =>
          ⟨by simp [Plain], fun _ => trivial⟩
    · exact ⟨by simp [Plain], fun _ => trivial⟩

end Plain

/-! ### Testing, sleeping, killing -/

/-- A process with a call, which holds `pi->lock` if that is the lock `lk`. -/
def inside (req : Request) (b : Bool) (lk : Lock NPROC Site Empty) (d : Option Pipe) :
    Ghost NPROC :=
  ⟨some req, b, none, decide (lk = pipeLock), d⟩

def outside (req : Option Request) (b : Bool) : Ghost NPROC := ⟨req, b, none, false, none⟩

variable {req : Request} {b : Bool} {lk : Lock NPROC Site Empty} {d : Option Pipe}

/-- The test of `killed`. If it fails, a process that sleeps next dozes. -/
lemma killed_wp : wp initproc (.proc p : Ctx NPROC NCPU) (low (killed p))
    (fun k g' => ∃ b', g' = inside req b' lk d ∧ (k = false → req.interruptible = true →
      (req.writes = true → ∃ pi, d = some pi ∧ Full pi) → b' = true)) (inside req b lk d) := by
  refine wp_low (spec_grip rfl) fun _ g' h => ?_
  subst h
  refine wp_low (spec_test rfl rfl) fun pr g' h => ?_
  obtain ⟨b', rfl, hb⟩ := h
  refine wp_low (spec_ungrip rfl (by simp)) fun _ g' h => ?_
  subst h
  exact ⟨b', rfl, hb⟩

lemma acquire_wp (hlk : ∀ q, lk ≠ .proc q) : wp initproc t (low (act (.acquire lk)))
    (fun _ g' => g' = inside req b lk none) (outside (some req) b) := by
  by_cases h : lk = pipeLock
  · subst h
    exact Spec.mono spec_enter fun _ g' h => h
  · refine Spec.mono (spec_plain h (keeps_of_none rfl)) fun _ g' h' => ?_
    subst h'
    change outside (some req) b = inside req b lk none
    simp [inside, outside, h]

/-- Releasing a lock other than that of a process. -/
lemma spec_release {k : Option (Fin NPROC × Grip)} (hlk : ∀ q, lk ≠ .proc q)
    (hd : lk ≠ pipeLock → d = none) : Spec initproc t (.inl (.inl (.release lk)))
      { inside req b lk d with grip := k } fun _ g' =>
        g' = { (outside (some req) b : Ghost NPROC) with grip := k } := by
  by_cases h : lk = pipeLock
  · subst h
    exact spec_exit
  · refine Spec.mono (spec_plain h fun q k _ => ⟨by simpa using fun h => hlk q h, by simp⟩)
      fun _ g' h' => ?_
    rw [h', hd h]
    simp [inside, outside, h]

lemma self_wp : wp initproc (.proc p : Ctx NPROC NCPU) (low self) (fun r g' => r = p ∧ g' = g) g := by
  refine wp_low spec_self fun r g' h => ?_
  obtain ⟨rfl, rfl⟩ := h
  exact ⟨rfl, rfl⟩

lemma wp_self {f : Fin NPROC → P NPROC Site Empty β} {Q : β → Ghost NPROC → Prop}
    (hf : wp initproc (.proc p : Ctx NPROC NCPU) (low (f p)) Q g) :
    wp initproc (.proc p : Ctx NPROC NCPU) (low (self.bind f)) Q g := by
  refine wp_low_call self_wp fun r g' h => ?_
  obtain ⟨rfl, rfl⟩ := h
  exact hf

/-- In `sched` a process loses its lock. -/
lemma sched_wp : wp initproc (.proc p : Ctx NPROC NCPU) (low sched)
    (fun _ g' => g' = outside (some req) b)
    { (outside (some req) b : Ghost NPROC) with grip := some (p, .held) } := by
  refine wp_self ?_
  refine wp_low (spec_plain trivial fun q k _ => ⟨by simp, by simp⟩) fun intena g' h => ?_
  subst h
  refine wp_low (spec_leave rfl) fun _ g' h => ?_
  subst h
  exact spec_plain trivial (keeps_of_none rfl)

/-- **`sleep`**, by a process that dozes. -/
lemma sleep_wp {ch : Chan NPROC Site Empty} (hlk : ∀ q, lk ≠ .proc q)
    (hd : lk ≠ pipeLock → d = none) : wp initproc (.proc p : Ctx NPROC NCPU) (low (sleep ch lk))
      (fun _ g' => g' = inside req false lk none) (inside req true lk d) := by
  refine wp_self ?_
  refine wp_low (spec_grip rfl) fun _ g' h => ?_
  subst h
  refine wp_low (spec_release hlk hd) fun _ g' h => ?_
  subst h
  refine wp_low (spec_plain trivial fun q k _ => ⟨by simp, by simp⟩) fun _ g' h => ?_
  subst h
  refine wp_low (spec_sleep rfl rfl) fun _ g' h => ?_
  subst h
  refine wp_low_call sched_wp fun _ g' h => ?_
  subst h
  refine wp_low (spec_plain trivial (keeps_of_none rfl)) fun _ g' h => ?_
  subst h
  refine wp_low (spec_plain (by simp [Plain]) (keeps_of_none rfl)) fun _ g' h => ?_
  subst h
  exact acquire_wp hlk

lemma kkill_wp {pid : ℤ} {o : Option Request} : wp initproc t (low (kkill pid))
    (fun _ g' => g' = outside o b) (outside o b) := by
  refine wp_low_iterate (fun _ g' => g' = outside o b) rfl fun ps g' h => ?_
  subst h
  cases ps with
  | nil => exact rfl
  | cons q ps =>
    refine wp_low (spec_grip rfl) fun _ g' h => ?_
    subst h
    refine wp_low (spec_plain trivial fun q k _ => ⟨by simp, by simp⟩) fun pr g' h => ?_
    subst h
    split_ifs with hpid
    · refine wp_low (spec_hit rfl) fun _ g' h => ?_
      subst h
      refine wp_low (spec_seen rfl) fun pr' g' h => ?_
      subst h
      refine wp_low_call (I := fun _ g' =>
        g' = { (outside o b : Ghost NPROC) with grip := some (q, .settled) }) ?_ fun _ g' h => ?_
      · unfold whenever
        split_ifs
        · exact spec_rouse rfl
        · exact rfl
      · subst h
        exact wp_low (spec_ungrip rfl (by simp)) fun _ g' h => h
    · exact wp_low (spec_ungrip rfl (by simp)) fun _ g' h => h

/-! ### The waits -/

/-- A call that is over, or a thread that has none. -/
def Done (_ : Ctx NPROC NCPU) (_ : ℤ) (g : Ghost NPROC) : Prop := ∃ o b, g = outside o b

lemma kwait_wp {addr : Bool} : wp initproc (.proc p : Ctx NPROC NCPU) (low (kwait addr))
    (Done (.proc p : Ctx NPROC NCPU)) (outside (some (.wait addr)) b) := by
  refine wp_self ?_
  refine wp_low_call (acquire_wp (by simp)) fun _ g' h => ?_
  subst h
  refine wp_low_iterate (fun _ g' => ∃ b, g' = inside (.wait addr) b .wait none) ⟨b, rfl⟩
    fun _ g' h => ?_
  obtain ⟨b, rfl⟩ := h
  refine wp_low_call (wp_plain all_scanKids rfl) fun scan g' h => ?_
  subst h
  obtain ⟨havekids, _ | v⟩ := scan
  swap
  · exact ⟨some (.wait addr), b, rfl⟩
  cases havekids with
  | false =>
    refine wp_low (spec_release (by simp) (by simp)) fun _ g' h => ?_
    exact ⟨_, b, h⟩
  | true =>
    refine wp_low_call killed_wp fun k g' h => ?_
    obtain ⟨b', rfl, hb⟩ := h
    split_ifs with hk
    · refine wp_low (spec_release (by simp) (by simp)) fun _ g' h => ?_
      exact ⟨_, b', h⟩
    · obtain rfl := hb (by simpa using hk) rfl (by simp [Request.writes])
      refine wp_low_call (sleep_wp (by simp) (by simp)) fun _ g' h => ?_
      exact ⟨false, h⟩

lemma release_wp (hlk : ∀ q, lk ≠ .proc q) (hd : lk ≠ pipeLock → d = none) :
    wp initproc t (low (act (.release lk))) (fun _ g' => g' = outside (some req) b)
      (inside req b lk d) :=
  spec_release hlk hd

lemma spec_look : Spec initproc t (.inl (.inr .read)) (inside req b pipeLock d)
    fun (pi : Pipe) g' => (∀ e, d = some e → e = pi) ∧ g' = inside req b pipeLock (some pi) :=
  spec_read rfl

lemma spec_forget {a : PAct} : Spec initproc t (.inl (.inr a)) (inside req b pipeLock d)
    fun _ g' => g' = inside req b pipeLock none :=
  spec_change rfl

/-- What a thread does with the pipe while it holds the lock. -/
lemma wp_quiet {x : PP NPROC β} (hx : (piped x).All (Calm True)) :
    wp initproc t (piped x) (fun _ g' => g' = inside req b pipeLock none)
      (inside req b pipeLock none) :=
  wp_calm hx rfl fun _ => ⟨rfl, rfl⟩

lemma all_copyLoop {n : ℤ} : (piped (copyLoop n) : KP NPROC ℤ).All (Calm True) := by
  refine all_left.mpr (all_iterate.mpr fun i => all_ite ?_ trivial)
  refine all_then trivial fun pi => all_ite trivial ?_
  refine all_then trivial fun fail => all_ite trivial ?_
  exact ⟨trivial, fun _ => trivial⟩

lemma wakeup_wp {i : Site} : wp initproc t (low (wakeup (some (.cond i))))
    (fun _ g' => g' = inside req b lk d) (inside req b lk d) :=
  wp_plain all_wakeup rfl

lemma piperead_wp {n : ℤ} : wp initproc (.proc p : Ctx NPROC NCPU) (piped (piperead n))
    (Done (.proc p : Ctx NPROC NCPU)) (outside (some (.read n)) b) := by
  refine wp_left_call self_wp fun pr g' h => ?_
  obtain ⟨rfl, rfl⟩ := h
  refine wp_left_call (acquire_wp (by simp)) fun _ g' h => ?_
  subst h
  refine wp_left_call (I := fun dead g' => ∃ b, g' = if dead then outside (some (.read n)) b
    else inside (.read n) b pipeLock none) ?_ fun dead g' h => ?_
  · refine wp_left_iterate (fun _ g' => ∃ b, g' = inside (.read n) b pipeLock none) ⟨b, rfl⟩
      fun _ g' h => ?_
    obtain ⟨b, rfl⟩ := h
    refine wp_pipe spec_forget fun (pi : Pipe) g' h => ?_
    subst h
    split_ifs with hempty
    · refine wp_left_call killed_wp fun k g' h => ?_
      obtain ⟨b', rfl, hb⟩ := h
      split_ifs with hk
      · refine wp_left_call (release_wp (by simp) (by simp)) fun _ g' h => ?_
        exact ⟨b', h⟩
      · obtain rfl := hb (by simpa using hk) rfl (by simp [Request.writes])
        refine wp_left_call (sleep_wp (by simp) (by simp)) fun _ g' h => ?_
        exact ⟨false, h⟩
    · exact ⟨b, rfl⟩
  · obtain ⟨b, h⟩ := h
    cases dead with
    | true => exact ⟨_, b, h⟩
    | false =>
      subst h
      refine wp_left_call (wp_quiet all_copyLoop) fun i g' h => ?_
      subst h
      refine wp_left_call wakeup_wp fun _ g' h => ?_
      subst h
      refine wp_left_call (release_wp (by simp) (by simp)) fun _ g' h => ?_
      exact ⟨_, b, h⟩

/-- After a loop under the lock `lk` that may have returned from its function. -/
def Left (req : Request) (lk : Lock NPROC Site Empty) : Except ℤ ℤ → Ghost NPROC → Prop
  | .error _, g => ∃ b, g = outside (some req) b
  | .ok _, g => ∃ b d, g = inside req b lk d ∧ (lk ≠ pipeLock → d = none)

lemma pipewrite_wp {n : ℤ} : wp initproc (.proc p : Ctx NPROC NCPU) (piped (pipewrite n))
    (Done (.proc p : Ctx NPROC NCPU)) (outside (some (.write n)) b) := by
  refine wp_left_call self_wp fun pr g' h => ?_
  obtain ⟨rfl, rfl⟩ := h
  refine wp_left_call (acquire_wp (by simp)) fun _ g' h => ?_
  subst h
  refine wp_left_call (I := Left (.write n) pipeLock) ?_ fun r g' h => ?_
  · refine wp_left_iterate (fun _ g' => ∃ b d, g' = inside (.write n) b pipeLock d) ⟨b, none, rfl⟩
      fun i g' h => ?_
    obtain ⟨b, d, rfl⟩ := h
    by_cases hin : i < n
    swap
    · rw [if_neg hin]
      exact ⟨b, d, rfl, by simp⟩
    rw [if_pos hin]
    -- a writer that finds the pipe full dozes, since nobody changes the pipe meanwhile
    refine wp_left_call (I := fun stop g' => ∃ b pi, g' = inside (.write n) b pipeLock (some pi) ∧
      (stop = false → Full pi → b = true)) ?_ fun stop g' h => ?_
    · refine wp_pipe spec_look fun (pi : Pipe) g' h => ?_
      obtain ⟨-, rfl⟩ := h
      split_ifs with hopen
      · refine wp_mono killed_wp fun k g' h => ?_
        obtain ⟨b', rfl, hb⟩ := h
        exact ⟨b', pi, rfl, fun hk hfull => hb hk rfl fun _ => ⟨pi, rfl, hfull⟩⟩
      · exact ⟨b, pi, rfl, by simp⟩
    obtain ⟨b, pi, rfl, hb⟩ := h
    split_ifs with hs
    · refine wp_left_call (release_wp (by simp) (by simp)) fun _ g' h => ?_
      exact ⟨b, h⟩
    refine wp_pipe spec_look fun (pi' : Pipe) g' h => ?_
    obtain ⟨hpi, rfl⟩ := h
    obtain rfl := hpi pi rfl
    split_ifs with hfull
    · obtain rfl := hb (by simpa using hs) hfull
      refine wp_left_call wakeup_wp fun _ g' h => ?_
      subst h
      refine wp_left_call (sleep_wp (by simp) (by simp)) fun _ g' h => ?_
      exact ⟨false, none, h⟩
    · refine wp_pipe spec_forget fun ch g' h => ?_
      subst h
      cases ch with
      | none => exact ⟨b, none, rfl, by simp⟩
      | some ch => exact wp_pipe spec_forget fun _ g' h => ⟨b, none, h⟩
  · cases r with
    | error v =>
      obtain ⟨b, h⟩ := h
      exact ⟨_, b, h⟩
    | ok i =>
      obtain ⟨b, d, rfl, -⟩ := h
      refine wp_left_call wakeup_wp fun _ g' h => ?_
      subst h
      refine wp_left_call (release_wp (by simp) (by simp)) fun _ g' h => ?_
      exact ⟨_, b, h⟩

lemma pipeclose_wp {writable : Bool} {req : Request} : wp initproc t (piped (pipeclose writable))
    (fun _ g' => g' = outside (some req) b) (outside (some req) b) := by
  refine wp_left_call (acquire_wp (by simp)) fun _ g' h => ?_
  subst h
  refine wp_pipe spec_forget fun _ g' h => ?_
  subst h
  refine wp_left_call wakeup_wp fun _ g' h => ?_
  subst h
  exact release_wp (by simp) (by simp)

/-- The round of a wait for a device in which the process sleeps, unless it was killed. -/
lemma nap_wp {ch : Chan NPROC Site Empty} (hlk : ∀ q, lk ≠ .proc q)
    (hint : req.interruptible = true) (hwr : req.writes = false) {Q : Unit ⊕ Bool → Ghost NPROC → Prop}
    (hdead : ∀ b, Q (.inr true) (outside (some req) b)) (hback : Q (.inl ()) (inside req false lk none)) :
    wp initproc (.proc p : Ctx NPROC NCPU) (do
      let pr ← low self
      let k ← low (killed pr)
      if k then
        low (act (.release lk))
        return .inr true
      else
        low (sleep ch lk)
        return .inl ()) Q (inside req b lk none) := by
  refine wp_call self_wp fun pr g' h => ?_
  obtain ⟨rfl, rfl⟩ := h
  refine wp_call killed_wp fun k g' h => ?_
  obtain ⟨b', rfl, hb⟩ := h
  split_ifs with hk
  · refine wp_call (release_wp hlk fun _ => rfl) fun _ g' h => ?_
    subst h
    exact hdead b'
  · obtain rfl := hb (by simpa using hk) hint (by simp [hwr])
    refine wp_call (sleep_wp hlk fun _ => rfl) fun _ g' h => ?_
    subst h
    exact hback

lemma inputLoop_wp {n : ℤ} : wp initproc (.proc p : Ctx NPROC NCPU) inputLoop
    (fun dead g' => ∃ b, g' = if dead then outside (some (.console n)) b
      else inside (.console n) b (.cond .cons) none) (inside (.console n) b (.cond .cons) none) := by
  refine wp_iterate (fun _ g' => ∃ b, g' = inside (.console n) b (.cond .cons) none) ⟨b, rfl⟩
    fun _ g' h => ?_
  obtain ⟨b, rfl⟩ := h
  refine wp_right spec_gear fun cons g' h => ?_
  subst h
  split_ifs with hempty
  · exact nap_wp (by simp) rfl rfl (fun b => ⟨b, rfl⟩) ⟨false, rfl⟩
  · exact ⟨b, rfl⟩

lemma consoleread_wp {n : ℤ} : wp initproc (.proc p : Ctx NPROC NCPU) (consoleread n)
    (Done (.proc p : Ctx NPROC NCPU)) (outside (some (.console n)) b) := by
  refine wp_call (acquire_wp (by simp)) fun _ g' h => ?_
  subst h
  refine wp_call (I := Left (.console n) (.cond .cons)) ?_ fun r g' h => ?_
  · refine wp_iterate (fun _ g' => ∃ b, g' = inside (.console n) b (.cond .cons) none) ⟨b, rfl⟩
      fun i g' h => ?_
    obtain ⟨b, rfl⟩ := h
    by_cases hin : 0 < i
    swap
    · rw [if_neg hin]
      exact ⟨b, none, rfl, fun _ => rfl⟩
    rw [if_pos hin]
    refine wp_call inputLoop_wp fun dead g' h => ?_
    obtain ⟨b, h⟩ := h
    cases dead with
    | true => exact ⟨b, h⟩
    | false =>
      subst h
      refine wp_right spec_gear fun cons g' h => ?_
      subst h
      refine wp_right spec_gear fun _ g' h => ?_
      subst h
      by_cases hend : cons.buf (place cons.r) = ctrlD
      · rw [if_pos hend]
        by_cases hfirst : i < n
        · rw [if_pos hfirst]
          refine wp_right spec_gear fun cons g' h => ?_
          subst h
          exact wp_right spec_gear fun _ g' h => ⟨b, none, h, fun _ => rfl⟩
        · rw [if_neg hfirst]
          exact ⟨b, none, rfl, fun _ => rfl⟩
      · rw [if_neg hend]
        refine wp_right spec_gear fun fail g' h => ?_
        subst h
        by_cases hfail : fail = true
        · rw [if_pos hfail]
          exact ⟨b, none, rfl, fun _ => rfl⟩
        rw [if_neg hfail]
        by_cases hline : cons.buf (place cons.r) = 10
        · rw [if_pos hline]
          exact ⟨b, none, rfl, fun _ => rfl⟩
        · rw [if_neg hline]
          exact ⟨b, rfl⟩
  · cases r with
    | error v =>
      obtain ⟨b, h⟩ := h
      exact ⟨_, b, h⟩
    | ok i =>
      obtain ⟨b, d, rfl, hd⟩ := h
      refine wp_call (release_wp (by simp) hd) fun _ g' h => ?_
      exact ⟨_, b, h⟩

lemma pauseLoop_wp {n m : ℤ} {ticks0 : BitVec 32} :
    wp initproc (.proc p : Ctx NPROC NCPU) (pauseLoop m ticks0)
      (fun dead g' => ∃ b, g' = if dead then outside (some (.pause n)) b
        else inside (.pause n) b (.cond .ticks) none) (inside (.pause n) b (.cond .ticks) none) := by
  refine wp_iterate (fun _ g' => ∃ b, g' = inside (.pause n) b (.cond .ticks) none) ⟨b, rfl⟩
    fun _ g' h => ?_
  obtain ⟨b, rfl⟩ := h
  refine wp_right spec_gear fun ticks g' h => ?_
  subst h
  split_ifs
  · exact nap_wp (by simp) rfl rfl (fun b => ⟨b, rfl⟩) ⟨false, rfl⟩
  · exact ⟨b, rfl⟩

lemma sys_pause_wp {n : ℤ} : wp initproc (.proc p : Ctx NPROC NCPU) (sys_pause n)
    (Done (.proc p : Ctx NPROC NCPU)) (outside (some (.pause n)) b) := by
  refine wp_call (acquire_wp (by simp)) fun _ g' h => ?_
  subst h
  refine wp_right spec_gear fun ticks0 g' h => ?_
  subst h
  refine wp_call pauseLoop_wp fun dead g' h => ?_
  obtain ⟨b, h⟩ := h
  cases dead with
  | true => exact ⟨_, b, h⟩
  | false =>
    subst h
    refine wp_call (release_wp (by simp) (by simp)) fun _ g' h => ?_
    exact ⟨_, b, h⟩

/-! ### Runs -/

lemma serve_wp (req : Request) : wp initproc (.proc p : Ctx NPROC NCPU) (serve initproc req)
    (Done (.proc p : Ctx NPROC NCPU)) (outside (some req) false) := by
  cases req with
  | wait addr => exact kwait_wp
  | read n => exact piperead_wp
  | write n => exact pipewrite_wp
  | close writable => exact wp_call pipeclose_wp fun _ g' h => ⟨_, false, h⟩
  | console n => exact consoleread_wp
  | pause n => exact sys_pause_wp
  | kill pid => exact wp_mono kkill_wp fun _ g' h => ⟨_, false, h⟩
  | fork => exact wp_mono (wp_plain all_kfork rfl) fun _ g' h => ⟨_, false, h⟩
  | exit status => exact wp_call (wp_plain all_kexit rfl) fun _ g' h => ⟨_, false, h⟩

lemma all_handle (i : Interrupt) : (handle i : KP NPROC ℤ).All (Calm False) := by
  have hwake : ∀ {j : Site}, (low (wakeup (some (.cond j))) : KP NPROC Unit).All (Calm False) :=
    all_left.mpr (all_left.mpr all_wakeup)
  cases i with
  | typed ch =>
    refine all_bind (all_then (by simp [Calm, Plain]) fun _ => all_bind ?_ fun _ => ?_) fun _ => trivial
    · refine all_ite trivial (all_ite ?_ (all_ite ?_ ?_))
      · refine all_iterate.mpr fun _ => all_then trivial fun cons => all_ite ?_ trivial
        exact ⟨trivial, fun _ => trivial⟩
      · exact all_then trivial fun cons => all_ite ⟨trivial, fun _ => trivial⟩ trivial
      · refine all_then trivial fun cons => all_ite ?_ trivial
        refine all_then trivial fun _ => all_ite ?_ trivial
        exact all_then trivial fun _ => hwake
    · exact ⟨by simp [Calm, Plain], fun _ => trivial⟩
  | clock =>
    refine all_bind (all_then (by simp [Calm, Plain]) fun _ => all_then trivial fun _ => ?_)
      fun _ => trivial
    exact all_bind hwake fun _ => ⟨by simp [Calm, Plain], fun _ => trivial⟩

/-- New work is within the protocol. -/
lemma enters : (proto initproc NCPU).Enters Done := by
  intro t s γ x s' x' hi hw henter
  cases henter with
  | @start p w pi d h rest hf hs hl =>
    have hi' : Inv (((w, pi), d), h) γ := hi
    have hfresh : Inv ((({ w with fresh := Function.update w.fresh p false }, pi), d), h) γ :=
      ⟨fun t => { hi'.each t with }, { hi'.kills with }⟩
    refine ⟨outside none false, (hfresh.resumed hl).begin none, ?_⟩
    exact wp_call (wp_plain all_forkret rfl) fun _ g' h => ⟨none, false, h⟩
  | @call p s v req hs hf =>
    exact ⟨outside (some req) false, Inv.begin hi (some req), serve_wp req⟩
  | @interrupt c s v i =>
    obtain ⟨o, b, hg⟩ := hw
    refine ⟨outside o b, ?_, ?_⟩
    · rw [← hg, Function.update_eq_self]
      exact hi
    · exact wp_mono (wp_calm (all_handle i) rfl False.elim) fun _ g' h => ⟨o, b, h⟩

variable {live : Fin NPROC → Bool} {pid : Fin NPROC → ℤ} {parent : Fin NPROC → Option (Fin NPROC)}
  {nextpid : ℤ} {pi : Pipe} {dv : Dev}

lemma follows_start :
    (proto initproc NCPU).Follows Done (start NCPU live pid parent nextpid pi dv) := by
  refine ⟨fun _ => outside none false, ⟨fun t => ⟨fun _ _ => rfl, ?_, ?_, ?_, ?_, ?_, ?_⟩,
    ⟨?_, ?_, ?_⟩⟩, fun t => ⟨none, false, rfl⟩⟩
  all_goals simp [start, outside]

/-- **No killed process is left asleep** in the runs in which no kill falls between the test of
`killed` and the sleep of its victim. -/
theorem none_left_asleep
    {c : Pool (State NPROC NCPU) (Ctx NPROC NCPU) (KAct NPROC) (Both (Both Res PRes) DRes) ℤ}
    (hr : Reach (timely initproc NCPU) (start NCPU live pid parent nextpid pi dv) c)
    {q : Fin NPROC} (hk : (c.shared.1.1.1.proc q).killed = true)
    (hs : c.shared.2.struck q = true) : (c.shared.1.1.1.proc q).state ≠ .sleeping := by
  obtain ⟨γ, hi, -⟩ := follows_reach enters follows_start hr
  change Ctx NPROC NCPU → Ghost NPROC at γ
  change Inv c.shared γ at hi
  intro hsl
  have := hi.kills.asleep q hsl hk
  rw [hs] at this
  cases this

/-! ### Runs by hand -/

/-- The system calls listed are made, one by each process. -/
def called (initproc : Fin NPROC)
    (c : Pool (State NPROC NCPU) (Ctx NPROC NCPU) (KAct NPROC) (Both (Both Res PRes) DRes) ℤ) :
    List (Fin NPROC × Request) →
      Pool (State NPROC NCPU) (Ctx NPROC NCPU) (KAct NPROC) (Both (Both Res PRes) DRes) ℤ
  | [] => c
  | (p, req) :: calls =>
    called initproc ⟨(c.shared.1, c.shared.2.begin p (some req)),
      Function.update c.thread (.proc p) (serve initproc req)⟩ calls

lemma reach_called {S : Sys (State NPROC NCPU) (Ctx NPROC NCPU) ((Bool × Bool × Byte) × Bool)
      (KAct NPROC) (Both (Both Res PRes) DRes) ℤ} (hS : S.enter = Waits.Enter initproc)
    {c : Pool (State NPROC NCPU) (Ctx NPROC NCPU) (KAct NPROC) (Both (Both Res PRes) DRes) ℤ}
    {calls : List (Fin NPROC × Request)} (hc : ∀ x ∈ calls, c.thread (.proc x.1) = .ret 0)
    (hs : ∀ x ∈ calls, (c.shared.1.1.1.proc x.1).state = .running ∧
      c.shared.1.1.1.fresh x.1 = false)
    (hn : (calls.map Prod.fst).Nodup) : Reach S c (called initproc c calls) := by
  induction calls generalizing c with
  | nil => exact .refl
  | cons x calls ih =>
    obtain ⟨p, req⟩ := x
    rw [List.map_cons, List.nodup_cons] at hn
    have hstep : Step S c ⟨(c.shared.1, c.shared.2.begin p (some req)),
        Function.update c.thread (.proc p) (serve initproc req)⟩ := by
      refine Step.enter (Ctx.proc p) ?_
      rw [hS, hc (p, req) (List.mem_cons_self ..)]
      obtain ⟨h1, h2⟩ := hs (p, req) (List.mem_cons_self ..)
      exact Waits.Enter.call req h1 h2
    refine .head hstep (ih (fun y hy => ?_) (fun y hy => hs y (List.mem_cons_of_mem _ hy)) hn.2)
    have hne : y.1 ≠ p := by
      rintro rfl
      have hmem := List.mem_map_of_mem (f := Prod.fst) hy
      exact hn.1 hmem
    simpa [hne] using hc y (List.mem_cons_of_mem _ hy)

/-- Two processes with the pids 1 and 2. -/
def two : Pool (State 2 1) (Ctx 2 1) (KAct 2) (Both (Both Res PRes) DRes) ℤ :=
  start 1 (fun _ => true) (fun p => (p.val : ℤ) + 1) (fun _ => none) 3
    ⟨fun _ => 0, 0, 0, true, true⟩ ⟨⟨fun _ => 0, 0, 0, 0⟩, 0⟩

lemma reach_two {S : Sys (State 2 1) (Ctx 2 1) ((Bool × Bool × Byte) × Bool) (KAct 2)
    (Both (Both Res PRes) DRes) ℤ} (hS : S.enter = Waits.Enter 0) :
    Reach S two (called 0 two [(0, .pause 5), (1, .kill 1)]) :=
  reach_called hS (by simp [two, start]) (by simp [two, start]) (by decide)

set_option synthInstance.maxSize 400 in
/-- A kill finds its victim asleep, and wakes it up. -/
theorem none_left_asleep_woken : ∃ c, Reach (timely 0 1) two c ∧
    (c.shared.1.1.1.proc 0).killed = true ∧ c.shared.2.struck 0 = true ∧
    (c.shared.1.1.1.proc 0).state ≠ .sleeping := by
  obtain ⟨c, hr, hc⟩ := exists_of_schedule (timely 0 1)
    (fun c => ((c.shared.1.1.1.proc 0).killed, c.shared.2.struck 0))
    (called 0 two [(0, .pause 5), (1, .kill 1)])
    [(.proc 0, ((false, false, 0), false), 16), (.proc 1, ((false, false, 0), false), 7)]
    (b := (true, true)) (by decide +kernel)
  simp only [Prod.mk.injEq] at hc
  have hreach : Reach (timely 0 1) two c := (reach_two rfl).trans hr
  exact ⟨c, hreach, hc.1, hc.2, none_left_asleep hreach hc.1 hc.2⟩

set_option synthInstance.maxSize 1000 in
/-- **A killed process is left asleep**: the kill falls between the test of `killed` and the
sleep of a process in `sys_pause`, and no tick has passed. -/
theorem left_asleep : ∃ c, Reach (waits 0 1) two c ∧ c.thread (.proc 1) = .ret 0 ∧
    c.shared.2.serving 0 = some (.pause 5) ∧ (c.shared.1.1.1.proc 0).killed = true ∧
    c.shared.2.struck 0 = true ∧ (c.shared.1.1.1.proc 0).state = .sleeping ∧
    (c.shared.1.1.1.proc 0).chan = some (.cond .ticks) ∧ c.shared.1.2.ticks = 0 := by
  obtain ⟨c, hr, hc⟩ := exists_of_schedule (waits 0 1)
    (fun c => (value (c.thread (.proc 1)), decide (c.shared.2.serving 0 = some (.pause 5)),
      (c.shared.1.1.1.proc 0).killed && c.shared.2.struck 0,
      (c.shared.1.1.1.proc 0).state, (c.shared.1.1.1.proc 0).chan,
      decide (c.shared.1.2.ticks = 0)))
    (called 0 two [(0, .pause 5), (1, .kill 1)])
    [(.proc 0, ((false, false, 0), false), 8), (.proc 1, ((false, false, 0), false), 6),
      (.proc 0, ((false, false, 0), false), 8)]
    (b := (some 0, true, true, .sleeping, some (.cond .ticks), true)) (by decide +kernel)
  simp only [Prod.mk.injEq, Bool.and_eq_true] at hc
  obtain ⟨h0, hreq, ⟨hk, hst⟩, hs, hch, ht⟩ := hc
  exact ⟨c, (reach_two rfl).trans hr, eq_ret_of_value h0, of_decide_eq_true hreq, hk, hst, hs, hch,
    of_decide_eq_true ht⟩

end Xv6.Ipc.Killable
