import Xv6.Ipc.Guard

/-!
The functions of `pipe.c` follow the protocol, and so does every run of the system.
-/

namespace Xv6.Ipc.Walk

open Xv6.Conc Xv6.Conc.Prog Xv6.Conc.Proto Xv6.Data.Ring Xv6.Sched.Kernel Xv6.Proc.Coarse
  Xv6.Ipc.Pipes Xv6.Ipc.Guard
open Xv6.Sched.Table hiding step sem setProc setLock

variable {NPROC NCPU : ℕ} {strict : Prop} {n₀ : BitVec 32}
  {S : Sys (State NPROC NCPU) (Ctx NPROC NCPU) (Bool × Bool × Byte) (PipeAct NPROC)
    (Both Res PRes) ℤ} {g : Ghost NPROC} {p q : Fin NPROC}

abbrev wp (S : Sys (State NPROC NCPU) (Ctx NPROC NCPU) (Bool × Bool × Byte) (PipeAct NPROC)
    (Both Res PRes) ℤ) (strict : Prop) (n₀ : BitVec 32) (t : Ctx NPROC NCPU) {β : Type}
    (x : PP NPROC β) (Q : β → Ghost NPROC → Prop) (g : Ghost NPROC) : Prop :=
  (proto S strict n₀).wp t x Q g

/-- A process that holds `pi->lock`. -/
def inside (k : Call) (d : Option Pipe) (o : Site → Fin NPROC → Prop) : Ghost NPROC :=
  ⟨true, none, false, d, false, k, none, .awake, o⟩

def outside (k : Call) (o : Site → Fin NPROC → Prop) : Ghost NPROC :=
  ⟨false, none, false, none, false, k, none, .awake, o⟩

variable {k : Call} {d : Option Pipe} {o : Site → Fin NPROC → Prop} {i : Site} {β : Type}

/-! ### Sleeping and waking -/

lemma wp_self {f : Fin NPROC → P NPROC Site Empty β} {Q : β → Ghost NPROC → Prop}
    (hS : Within S strict) (hg : g.away = false)
    (hf : wp S strict n₀ (.proc p) (left (f p)) Q g) :
    wp S strict n₀ (.proc p) (left (self.bind f)) Q g := by
  refine wp_left_call (I := fun r g' => r = p ∧ g' = g) ?_ fun r g' ⟨h1, h2⟩ => ?_
  · refine wp_left (spec_self hS hg) fun r g' ⟨h1, h2⟩ => ?_
    subst h1
    exact ⟨rfl, h2⟩
  · subst h1 h2
    exact hf

lemma wakeOne_wp (hS : Within S strict) (hq : q ≠ p) :
    wp S strict n₀ (.proc p) (base (wakeOne (some (.cond i)) q))
      (fun _ g' => g' = inside k d fun j p' => o j p' ∧ ¬(j = i ∧ p' = q)) (inside k d o) := by
  refine wp_left (spec_acquire_proc hS rfl rfl) fun _ g' hg' => ?_
  subst hg'
  refine wp_left (spec_see hS rfl rfl) fun pr g' hg' => ?_
  subst hg'
  refine wp_left_call (I := fun _ g' => ∃ st ch, ¬(st = .sleeping ∧ ch = some (.cond i)) ∧
    g' = ⟨true, some q, false, d, false, k, some (st, ch), .awake, o⟩) ?_ fun _ g' h => ?_
  · unfold whenever
    split_ifs with h
    · refine wp_left_perform (Spec.mono (spec_set hS rfl rfl rfl rfl (.inr ⟨rfl, rfl⟩))
        fun _ g' hg' => ?_)
      exact ⟨.runnable, pr.chan, by simp, hg'⟩
    · exact ⟨pr.state, pr.chan, h, rfl⟩
  · obtain ⟨st, ch, hst, rfl⟩ := h
    exact wp_left_perform (spec_release_visit hS rfl rfl rfl rfl hst (by simpa using hq.symm))

lemma wakeup_wp (hS : Within S strict) :
    wp S strict n₀ (.proc p) (base (wakeup (some (.cond i))))
      (fun _ g' => ∃ o', (∀ j q, o' j q → o j q ∧ j ≠ i) ∧ g' = inside k d o') (inside k d o) := by
  -- what is owed on the channel is owed to the processes still to visit
  refine wp_left_iterate (fun ps g' => ∃ o', (∀ j q, o' j q → o j q ∧ (j = i → q ∈ ps)) ∧
    g' = inside k d o') ⟨o, fun j q h => ⟨h, fun _ => List.mem_finRange q⟩, rfl⟩
    fun ps g' h => ?_
  obtain ⟨o₁, ho₁, rfl⟩ := h
  cases ps with
  | nil => exact ⟨o₁, fun j q h => ⟨(ho₁ j q h).1, fun hj => absurd ((ho₁ j q h).2 hj) (by simp)⟩, rfl⟩
  | cons q ps =>
    refine wp_left (spec_myproc hS rfl rfl) fun me g' h => ?_
    obtain ⟨rfl, rfl⟩ := h
    by_cases hq : q = p
    · subst hq
      refine wp_left_call (I := fun _ g' => g' = inside k d fun j p' => o₁ j p' ∧ p' ≠ q) ?_
        fun _ g' h => ?_
      · unfold whenever
        rw [if_neg (by simp)]
        exact rfl
      · subst h
        refine ⟨_, fun j p' h => ⟨(ho₁ j p' h.1).1, fun hj => ?_⟩, rfl⟩
        exact (List.mem_cons.mp ((ho₁ j p' h.1).2 hj)).resolve_left h.2
    · refine wp_left_call (I := fun _ g' => g' = inside k d fun j p' =>
        (o₁ j p' ∧ p' ≠ p) ∧ ¬(j = i ∧ p' = q)) ?_ fun _ g' h => ?_
      · unfold whenever
        rw [if_pos (by simpa using fun h => hq h.symm)]
        exact wakeOne_wp hS hq
      · subst h
        refine ⟨_, fun j p' h => ⟨(ho₁ j p' h.1.1).1, fun hj => ?_⟩, rfl⟩
        exact (List.mem_cons.mp ((ho₁ j p' h.1.1).2 hj)).resolve_left fun hp => h.2 ⟨hj, hp⟩

/-- In `sched` a process that is asleep goes away and comes back awake. -/
lemma sched_wp (hS : Within S strict) :
    wp S strict n₀ (.proc p) (base sched)
      (fun _ g' => g' = ⟨false, some p, false, none, false, k, none, .awake, o⟩)
      ⟨false, some p, false, none, false, k, none, .asleep i, o⟩ := by
  refine wp_self hS rfl ?_
  refine wp_left (spec_still hS rfl (.inl ⟨p, rfl⟩)) fun b g' h => ?_
  subst h
  refine wp_left (spec_leave hS rfl rfl rfl rfl) fun _ g' h => ?_
  subst h
  exact wp_left_perform (spec_back hS rfl rfl)

/-- **`sleep`**, by a process that has the right to. -/
lemma sleep_wp (hS : Within S strict) {d : Pipe} (hj : Justified d i)
    (ho : strict → ∀ j q, ¬ o j q) :
    wp S strict n₀ (.proc p) (base (sleep (.cond i) pipeLock))
      (fun _ g' => ∃ e, g' = inside { k with atRelease := e, unsaid := 0 } none o)
      (inside k (some d) o) := by
  refine wp_self hS rfl ?_
  refine wp_left (spec_acquire_proc hS rfl rfl) fun _ g' h => ?_
  subst h
  refine wp_left (spec_release (m := .falling i false) hS rfl rfl ho
    (.inr ⟨i, d, rfl, rfl, rfl, rfl, hj⟩)) fun _ g' h => ?_
  obtain ⟨e, -, rfl⟩ := h
  refine wp_left (spec_fall hS rfl rfl rfl (.name i)) fun _ g' h => ?_
  subst h
  refine wp_left (spec_fall hS rfl rfl rfl (.sleep i)) fun _ g' h => ?_
  subst h
  refine wp_left_call (sched_wp (i := i) hS) fun _ g' h => ?_
  subst h
  refine wp_left (spec_fall hS rfl rfl rfl .tidy) fun _ g' h => ?_
  subst h
  refine wp_left (spec_release_proc hS rfl rfl) fun _ g' h => ?_
  subst h
  exact wp_left_perform (Spec.mono (spec_acquire hS rfl) fun _ g' h => ⟨some e, h⟩)

/-- The test of `killed`; if it is true of a writer, there is nothing it has not announced. -/
lemma killed_wp (hS : Within S strict) :
    wp S strict n₀ (.proc p) (base (killed p))
      (fun b g' => g' = inside k d o ∧ (b = true → strict → k.unsaid = 0)) (inside k d o) := by
  refine wp_left (spec_acquire_proc hS rfl rfl) fun _ g' h => ?_
  subst h
  refine wp_left (spec_test hS rfl) fun pr g' h => ?_
  obtain ⟨rfl, hk⟩ := h
  refine wp_left (spec_release_proc hS rfl rfl) fun _ g' h => ?_
  subst h
  exact ⟨rfl, fun hb hs => hk hs hb⟩

lemma kkill_wp (hS : Within S strict) {pid : ℤ} :
    wp S strict n₀ (.proc p) (base (kkill pid)) (fun _ g' => g' = outside k o) (outside k o) := by
  refine wp_left_iterate (fun _ g' => g' = outside k o) rfl fun ps g' h => ?_
  subst h
  cases ps with
  | nil => exact rfl
  | cons q ps =>
    refine wp_left (spec_acquire_proc hS rfl rfl) fun _ g' h => ?_
    subst h
    refine wp_left (spec_see hS rfl rfl) fun pr g' h => ?_
    subst h
    split_ifs with hpid
    · refine wp_left (spec_set hS rfl rfl rfl rfl (.inl ⟨rfl, rfl⟩)) fun _ g' h => ?_
      subst h
      refine wp_left (spec_see hS rfl rfl) fun pr' g' h => ?_
      subst h
      refine wp_left_call (I := fun _ g' => ∃ x,
        g' = ⟨false, some q, false, none, false, k, x, .awake, o⟩) ?_ fun _ g' h => ?_
      · unfold whenever
        split_ifs
        · exact wp_left_perform (Spec.mono (spec_set hS rfl rfl rfl rfl (.inr ⟨rfl, rfl⟩))
            fun _ g' h => ⟨_, h⟩)
        · exact ⟨_, rfl⟩
      · obtain ⟨x, rfl⟩ := h
        exact wp_left (spec_release_proc hS rfl rfl) fun _ g' h => h
    · exact wp_left (spec_release_proc hS rfl rfl) fun _ g' h => h

/-! ### The functions of `pipe.c` -/

lemma release_wp (hS : Within S strict) (ho : strict → ∀ j q, ¬ o j q) :
    wp S strict n₀ (.proc p) (base (act (.release pipeLock)))
      (fun _ g' => ∃ e, (∀ d', d = some d' → d' = e) ∧
        g' = outside { k with atRelease := some e } o) (inside k d o) :=
  wp_left_perform (spec_release hS rfl rfl ho (.inl ⟨rfl, rfl⟩))

lemma pipeclose_wp (hS : Within S strict) {writable : Bool} (ho : ∀ j q, ¬ o j q) :
    wp S strict n₀ (.proc p) (pipeclose writable) (fun _ g' => ∃ k' o', g' = outside k' o' ∧
      (∀ j q, ¬ o' j q) ∧ k'.req = k.req) (outside k o) := by
  refine wp_act (spec_acquire hS rfl) fun _ g' h => ?_
  subst h
  refine wp_right (spec_close hS rfl) fun _ g' h => ?_
  subst h
  refine wp_call (wakeup_wp hS) fun _ g' h => ?_
  obtain ⟨o', ho', rfl⟩ := h
  have hnone : ∀ j q, ¬ o' j q := fun j q hjq =>
    ho j q ((ho' j q hjq).1.resolve_left (ho' j q hjq).2)
  refine wp_mono (release_wp hS fun _ => hnone) fun _ g' h => ?_
  obtain ⟨e, -, rfl⟩ := h
  exact ⟨_, o', rfl, hnone, rfl⟩

/-- The writer has put `i` bytes in, owes the readers at most, and owes them nothing unless the
pipe is known to be open. -/
def Writing (req : Option Request) (i : ℤ) (g : Ghost NPROC) : Prop :=
  ∃ k d o, g = inside k d o ∧ k.req = req ∧ (k.moved : ℤ) = i ∧ (∀ j q, o j q → j = .nread) ∧
    ((∃ d', d = some d' ∧ d'.readopen = true ∧ 0 < k.unsaid) ∨ ∀ j q, ¬ o j q)

/-- Where a writer stops it owes nothing: the readers' end was open when it put a byte in. -/
lemma noReader_wp (hS : Within S strict) {req : Option Request} {n : ℤ} (hg : Writing req n g) :
    wp S strict n₀ (.proc p) (noReader p) (fun stop g' => ∃ k pi o, g' = inside k (some pi) o ∧
      (stop = true → strict → ∀ j q, ¬ o j q) ∧ (stop = false → pi.readopen = true) ∧
      Writing req n g') g := by
  obtain ⟨k, d, o, rfl, hreq, hmoved, hside, howes⟩ := hg
  refine wp_right (spec_read hS rfl) fun (pi : Pipe) g' h => ?_
  obtain ⟨hpi, rfl⟩ := h
  split_ifs with hopen
  · refine wp_mono (killed_wp hS) fun b g' h => ?_
    obtain ⟨rfl, hk⟩ := h
    refine ⟨k, pi, o, rfl, fun hb hs => ?_, fun _ => hopen, k, some pi, o, rfl, hreq, hmoved,
      hside, ?_⟩
    · rcases howes with ⟨d', -, -, hun⟩ | hnone
      · have : k.unsaid = 0 := hk hb hs
        omega
      · exact hnone
    · rcases howes with ⟨d', -, -, hun⟩ | hnone
      · exact .inl ⟨pi, rfl, hopen, hun⟩
      · exact .inr hnone
  · have hnone : ∀ j q, ¬ o j q := by
      rcases howes with ⟨d', hd, hopen', -⟩ | hnone
      · rw [hpi d' hd] at hopen'
        exact absurd hopen' hopen
      · exact hnone
    exact ⟨k, pi, o, rfl, fun _ _ => hnone, by simp, k, some pi, o, rfl, hreq, hmoved,
      hside, .inr hnone⟩

lemma writeLoop_wp (hS : Within S strict) {n : ℤ} (req : Option Request)
    (hg : Writing req 0 g) :
    wp S strict n₀ (.proc p) (writeLoop p n) (fun r g' => match r with
      | .error v => v = -1 ∧ ∃ k o, g' = outside k o ∧ k.req = req ∧ (strict → ∀ j q, ¬ o j q)
      | .ok i => Writing req i g') g := by
  refine wp_iterate (Writing req) hg fun i g h => ?_
  split_ifs with hin
  swap
  · exact h
  refine wp_call (noReader_wp hS h) fun stop g' h => ?_
  obtain ⟨k, pi, o, rfl, hstop, hopen, k', d', o', hg', hreq, hmoved, hside, howes⟩ := h
  cases hg'
  split_ifs with hs
  · refine wp_call (release_wp hS (hstop hs)) fun _ g' h => ?_
    obtain ⟨e, -, rfl⟩ := h
    exact ⟨rfl, _, o, rfl, hreq, hstop hs⟩
  replace hopen := hopen (by simpa using hs)
  refine wp_right (spec_read hS rfl) fun (pi' : Pipe) g' h => ?_
  obtain ⟨hpi', rfl⟩ := h
  obtain rfl := hpi' pi rfl
  split_ifs with hfull
  · refine wp_call (wakeup_wp hS) fun _ g' h => ?_
    obtain ⟨o', ho', rfl⟩ := h
    have hnone : ∀ j q, ¬ o' j q := fun j q hjq => (ho' j q hjq).2 (hside j q (ho' j q hjq).1)
    refine wp_call (sleep_wp hS (d := pi) ⟨hfull, hopen⟩ fun _ => hnone) fun _ g' h => ?_
    obtain ⟨e, rfl⟩ := h
    exact ⟨_, none, o', rfl, hreq, hmoved, fun j q hjq => absurd hjq (hnone j q), .inr hnone⟩
  · refine wp_right (spec_copyin hS rfl) fun ch g' h => ?_
    subst h
    cases ch with
    | none =>
      refine ⟨k, some pi, o, rfl, hreq, hmoved, hside, ?_⟩
      rcases howes with ⟨d', -, -, hun⟩ | hnone
      · exact .inl ⟨pi, rfl, hopen, hun⟩
      · exact .inr hnone
    | some ch =>
      refine wp_right (spec_put hS rfl rfl rfl hfull) fun _ g' h => ?_
      subst h
      refine ⟨_, _, _, rfl, hreq, ?_, fun j q hjq => hjq.elim id (hside j q),
        .inl ⟨_, rfl, hopen, Nat.succ_pos _⟩⟩
      change ((k.moved + 1 : ℕ) : ℤ) = i + 1
      omega

/-- What is true of a call that has returned `v`. -/
structure Returned (v : ℤ) (k : Call) : Prop where
  count : ∀ n, k.req = some (.write n) ∨ k.req = some (.read n) → 0 ≤ v → v = k.moved
  ended : ∀ n, k.req = some (.read n) → 0 < n → v = 0 →
    ∃ pi, k.atRelease = some pi ∧ pi.nread = pi.nwrite ∧ pi.writeopen = false

/-- A process in user space. -/
def Done (t : Ctx NPROC NCPU) (v : ℤ) (g : Guard.Ghost NPROC) : Prop :=
  ∀ p, t = .proc p → ∃ k o, g = outside k o ∧ Returned v k

lemma returned_neg {k : Call} : Returned (-1) k :=
  ⟨fun _ _ h => by omega, fun _ _ _ h => by omega⟩

lemma returned_other {v : ℤ} {k : Call}
    (h : ∀ n, k.req ≠ some (.write n) ∧ k.req ≠ some (.read n)) : Returned v k :=
  ⟨fun n hn => by rcases hn with hn | hn; exacts [absurd hn (h n).1, absurd hn (h n).2],
    fun n hn => absurd hn (h n).2⟩

lemma pipewrite_wp (hS : Within S strict) {n : ℤ} :
    wp S strict n₀ (.proc p) (pipewrite n) (Done (.proc p : Ctx NPROC NCPU))
      (outside ⟨some (.write n), 0, 0, none⟩ fun _ _ => False) := by
  refine wp_call (I := fun r g' => r = p ∧
    g' = outside ⟨some (.write n), 0, 0, none⟩ fun _ _ => False) ?_ fun pr g' h => ?_
  · refine wp_left (spec_self hS rfl) fun r g' h => ?_
    obtain ⟨rfl, rfl⟩ := h
    exact ⟨rfl, rfl⟩
  obtain ⟨rfl, rfl⟩ := h
  refine wp_act (spec_acquire hS rfl) fun _ g' h => ?_
  subst h
  refine wp_call (writeLoop_wp hS (some (.write n))
    ⟨_, _, _, rfl, rfl, rfl, fun _ _ h => h.elim, .inr fun _ _ h => h⟩) fun r g' h => ?_
  cases r with
  | error v =>
    obtain ⟨rfl, k, o, rfl, -⟩ := h
    rintro q -
    exact ⟨k, o, rfl, returned_neg⟩
  | ok i =>
    obtain ⟨k, d, o, rfl, hreq, hmoved, hside, -⟩ := h
    refine wp_call (wakeup_wp hS) fun _ g' h => ?_
    obtain ⟨o', ho', rfl⟩ := h
    refine wp_call (release_wp hS fun _ j q hjq => (ho' j q hjq).2 (hside j q (ho' j q hjq).1))
      fun _ g' h => ?_
    obtain ⟨e, -, rfl⟩ := h
    rintro q -
    refine ⟨_, o', rfl, fun _ _ _ => hmoved.symm, fun n' h => ?_⟩
    rw [show Call.req _ = k.req from rfl, hreq] at h
    cases h

/-- Where the first loop of `piperead` is left, there is a byte, or the pipe has ended. -/
lemma emptyLoop_wp (hS : Within S strict) (req : Option Request) (ho : ∀ j q, ¬ o j q)
    (hreq : k.req = req) (hk : k.moved = 0) :
    wp S strict n₀ (.proc p) (emptyLoop p) (fun dead g' => ∃ k' d', k'.req = req ∧ k'.moved = 0 ∧
      (dead = true → g' = outside k' o) ∧ (dead = false → g' = inside k' (some d') o ∧
        ¬(d'.nread = d'.nwrite ∧ d'.writeopen = true))) (inside k d o) := by
  refine wp_iterate (fun _ g' => ∃ k' d', g' = inside k' d' o ∧ k'.req = req ∧ k'.moved = 0)
    ⟨k, d, rfl, hreq, hk⟩ fun _ g' h => ?_
  obtain ⟨k', d', rfl, hreq, hk⟩ := h
  refine wp_right (spec_read hS rfl) fun (pi : Pipe) g' h => ?_
  obtain ⟨-, rfl⟩ := h
  split_ifs with hempty
  · refine wp_call (killed_wp hS) fun b g' h => ?_
    obtain ⟨rfl, -⟩ := h
    split_ifs with hb
    · refine wp_call (release_wp hS fun _ => ho) fun _ g' h => ?_
      obtain ⟨e, -, rfl⟩ := h
      exact ⟨{ k' with atRelease := some e }, pi, hreq, hk, fun _ => rfl, by simp⟩
    · refine wp_call (sleep_wp hS (i := .nread) hempty fun _ => ho) fun _ g' h => ?_
      obtain ⟨e, rfl⟩ := h
      exact ⟨_, none, rfl, hreq, hk⟩
  · exact ⟨k', pi, hreq, hk, by simp, fun _ => ⟨rfl, hempty⟩⟩

/-- The reader has taken `i` bytes out and owes the writers at most; if it has taken none, the
pipe is as it was. -/
def Reading (req : Option Request) (d : Pipe) (i : ℤ) (g : Guard.Ghost NPROC) : Prop :=
  ∃ k d' o, g = inside k d' o ∧ k.req = req ∧ (k.moved : ℤ) = i ∧ (∀ j q, o j q → j = .nwrite) ∧
    (i = 0 → d' = some d)

lemma copyLoop_wp (hS : Within S strict) {n : ℤ} (req : Option Request) {d : Pipe}
    (hg : Reading req d 0 g) :
    wp S strict n₀ (.proc p) (copyLoop n) (fun v g' => (v = -1 ∨ Reading req d v g') ∧
      (∃ k d' o, g' = inside k d' o ∧ ∀ j q, o j q → j = .nwrite) ∧
      (v = 0 → 0 < n → d.nread = d.nwrite)) g := by
  refine wp_iterate (Reading req d) hg fun i g h => ?_
  obtain ⟨k, d', o, rfl, hreq, hmoved, hside, hsame⟩ := h
  by_cases hin : i < n
  swap
  · rw [if_neg hin]
    exact ⟨.inr ⟨k, d', o, rfl, hreq, hmoved, hside, hsame⟩, ⟨k, d', o, rfl, hside⟩,
      fun h0 hn => by omega⟩
  rw [if_pos hin]
  refine wp_right (spec_read hS rfl) fun (pi : Pipe) g' h => ?_
  obtain ⟨hpi, rfl⟩ := h
  have hfirst : i = 0 → d = pi := fun h0 => hpi d (hsame h0)
  by_cases hempty : pi.nread = pi.nwrite
  · rw [if_pos hempty]
    refine ⟨.inr ⟨k, some pi, o, rfl, hreq, hmoved, hside, fun h0 => ?_⟩,
      ⟨k, some pi, o, rfl, hside⟩, fun h0 _ => ?_⟩
    · rw [hfirst h0]
    · rw [hfirst h0]
      exact hempty
  rw [if_neg hempty]
  refine wp_right (spec_copyout hS rfl rfl rfl hempty) fun (fail : Bool) g' h => ?_
  cases fail with
  | true =>
    subst h
    rw [if_pos rfl]
    by_cases h0 : i = 0
    · rw [if_pos h0]
      exact ⟨.inl rfl, ⟨k, some pi, o, rfl, hside⟩, fun h => by cases h⟩
    · rw [if_neg h0]
      exact ⟨.inr ⟨k, some pi, o, rfl, hreq, hmoved, hside, fun h => absurd h h0⟩,
        ⟨k, some pi, o, rfl, hside⟩, fun h => absurd h h0⟩
  | false =>
    subst h
    rw [if_neg (by simp)]
    refine wp_right (spec_advance hS rfl rfl rfl hempty) fun _ g' h => ?_
    subst h
    refine ⟨_, _, _, rfl, hreq, ?_, fun j q hjq => hjq.elim id (hside j q), fun h => ?_⟩
    · change ((k.moved + 1 : ℕ) : ℤ) = i + 1
      omega
    · omega

lemma piperead_wp (hS : Within S strict) {n : ℤ} :
    wp S strict n₀ (.proc p) (piperead n) (Done (.proc p : Ctx NPROC NCPU))
      (outside ⟨some (.read n), 0, 0, none⟩ fun _ _ => False) := by
  refine wp_call (I := fun r g' => r = p ∧
    g' = outside ⟨some (.read n), 0, 0, none⟩ fun _ _ => False) ?_ fun pr g' h => ?_
  · refine wp_left (spec_self hS rfl) fun r g' h => ?_
    obtain ⟨rfl, rfl⟩ := h
    exact ⟨rfl, rfl⟩
  obtain ⟨rfl, rfl⟩ := h
  refine wp_act (spec_acquire hS rfl) fun _ g' h => ?_
  subst h
  refine wp_call (emptyLoop_wp hS (some (.read n)) (fun _ _ h => h) rfl rfl) fun dead g' h => ?_
  obtain ⟨k, d, hreq, hk, hdead, hlive⟩ := h
  split_ifs with hd
  · rw [hdead hd]
    rintro q -
    exact ⟨k, _, rfl, returned_neg⟩
  obtain ⟨rfl, hopen⟩ := hlive (by simpa using hd)
  refine wp_call (copyLoop_wp hS (some (.read n)) (d := d)
    ⟨k, some d, _, rfl, hreq, by simp [hk], fun _ _ h => h.elim, fun _ => rfl⟩) fun v g' h => ?_
  obtain ⟨hv, ⟨k', d', o, rfl, hside⟩, hzero⟩ := h
  refine wp_call (wakeup_wp hS) fun _ g' h => ?_
  obtain ⟨o', ho', rfl⟩ := h
  refine wp_call (release_wp hS fun _ j q hjq => (ho' j q hjq).2 (hside j q (ho' j q hjq).1))
    fun _ g' h => ?_
  obtain ⟨e, he, rfl⟩ := h
  rintro q -
  refine ⟨_, o', rfl, ?_⟩
  rcases hv with rfl | ⟨k₁, d₁, o₁, hg, hreq₁, hmoved, -, hsame⟩
  · exact returned_neg
  · cases hg
    refine ⟨fun _ _ _ => hmoved.symm, fun n' hn' hpos h0 => ?_⟩
    rw [show Call.req _ = k'.req from rfl, hreq₁] at hn'
    cases hn'
    have hempty := hzero h0 hpos
    refine ⟨e, rfl, ?_⟩
    rw [← he d (hsame h0)]
    exact ⟨hempty, by simpa [hempty] using hopen⟩

/-! ### Runs -/

lemma serve_wp (hS : Within S strict) (req : Request) :
    wp S strict n₀ (.proc p) (serve req) (Done (.proc p : Ctx NPROC NCPU))
      (outside ⟨some req, 0, 0, none⟩ fun _ _ => False) := by
  cases req with
  | write n => exact pipewrite_wp hS
  | read n => exact piperead_wp hS
  | close writable =>
    refine wp_call (pipeclose_wp hS fun _ _ h => h) fun _ g' h => ?_
    obtain ⟨k, o, rfl, -, hreq⟩ := h
    rintro q -
    exact ⟨k, o, rfl, returned_other fun n => by simp [hreq]⟩
  | kill pid =>
    refine wp_mono (kkill_wp hS) fun v g' h => ?_
    rintro q -
    exact ⟨_, _, h, returned_other fun n => by simp⟩

/-- A new call is within the protocol. -/
lemma enters (hS : Within S strict) : (proto S strict n₀).Enters Done := by
  intro t s γ x s' x' hi hw henter
  rw [hS.enter] at henter
  cases henter with
  | @call p s v req =>
    obtain ⟨k, o, hg, -⟩ := hw p rfl
    have hloc : Local s (.proc p) (outside k o) := hg ▸ hi.each (.proc p)
    have hcall : ∀ q, q ≠ p → (s.2.setCall p ⟨some req, 0, 0, none⟩).call q = s.2.call q :=
      fun q hne => by simp [History.setCall, hne]
    refine ⟨outside ⟨some req, 0, 0, none⟩ fun _ _ => False, hi.step hg
      ⟨fun _ _ _ h => h, fun _ _ => rfl, fun q hq => hcall q fun h => hq (by rw [h]), .inl rfl,
        fun _ => .inl rfl⟩ { hloc with call := fun q hq => ?_ }
      (.inl ⟨rfl, rfl, rfl, rfl⟩) (fun _ q i _ hc => .inl hc) (fun _ q i h _ => by cases h)
      (fun _ i hj => .inl hj), serve_wp hS req⟩
    cases hq
    simp [History.setCall, outside]

lemma follows_start (pid : Fin NPROC → ℤ) (killed : Fin NPROC → Bool)
    (data : Fin PIPESIZE → Byte) :
    (proto S strict n₀).Follows Done (start NCPU pid killed data n₀) := by
  refine ⟨fun _ => outside ⟨none, 0, 0, none⟩ fun _ _ => False, ⟨fun t => ?_, ⟨false, ?_, ?_⟩,
    fun _ p i hc => absurd hc (not_committed rfl)⟩, fun t p _ => ⟨_, _, rfl, ?_⟩⟩
  · exact ⟨fun _ _ => rfl, by simp [outside], by simp [outside], by simp [outside],
      by simp [outside], fun _ _ => rfl, by simp [outside], by simp [outside], by simp [outside],
      by simp [start]⟩
  · exact ⟨0, carries_start, le_rfl, rfl⟩
  · simp [outside]
  · exact returned_other fun n => by simp

end Xv6.Ipc.Walk
