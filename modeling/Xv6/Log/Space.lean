import Xv6.Conc.Extend
import Xv6.Log.Pins

/-!
Waiting for log space. A process that `begin_op` puts to sleep is woken by every `end_op`, be
it after a commit or not; so whoever sleeps has reason to, and there is somebody to wake it.
-/

namespace Xv6.Log.Space

open Xv6.Conc Xv6.Conc.Prog Xv6.Conc.Proto Xv6.Disk Xv6.Param Xv6.Log.Group
open Xv6.Log.Exclusion (Phase Neutral sem_neutral logOf)
open Xv6.Log.Pins (Installs watched)

variable {T : Type} [DecidableEq T] {start : BlockNo}

/-- `lh.n + (outstanding + 1) * MAXOPBLOCKS > LOGBLOCKS`. -/
def NoRoom (s : St T) : Prop :=
  (s.lh.length : ℤ) + (s.outstanding + 1) * MAXOPBLOCKS > LOGBLOCKS

/-! ### Who is in an operation -/

/-- Where a process is: in no operation, in the `sleep` of `begin_op`, or in an operation, up to
the end of its `end_op`. -/
inductive Place | out | abed | busy
  deriving DecidableEq

structure Manned (s : St T) (_ : Installs) (κ : T → Place) : Prop where
  asleep : ∀ t, s.asleep t = true → κ t = .abed
  inside : ∀ t ∈ s.inside, κ t = .busy
  commit : s.committing = true → ∃ t, κ t = .busy

variable (start T) in
abbrev proto : Proto (watched start T) :=
  (Exclusion.proto start T).extend (watched start T) Manned fun _ _ _ => True

lemma tracks : Tracks (sys start T) (watched start T) (Pins.watch start) := by
  intro t a c s h o ho
  cases o with
  | ok s' r => exact observe_ok.mp ho
  | panic msg => exact observe_panic.mp ho

variable {s s' : St T} {h h' : Installs} {κ : T → Place} {t u : T} {kill : Bool}

/-- Every action but those that begin or end an operation or a sleep. -/
def Plain : Act → Prop
  | .beginTest | .awake | .endFirst | .endLast => False
  | _ => True

lemma plain_step (kill : Bool) {a : Act} {r : Res a} (ha : Plain a)
    (ho : sem t a kill s = some (.ok s' r)) :
    s'.asleep = s.asleep ∧ s'.inside = s.inside ∧ s'.committing = s.committing := by
  cases a with
  | beginTest | awake | endFirst | endLast => exact absurd ha id
  | _ =>
    simp only [sem] at ho
    first
      | (cases ho; exact ⟨rfl, rfl, rfl⟩)
      | (split at ho <;> cases ho <;> exact ⟨rfl, rfl, rfl⟩)
      | (split_ifs at ho <;> cases ho <;> exact ⟨rfl, rfl, rfl⟩)

/-- A process moves from one place to another. -/
lemma Manned.move {k : Place} (hm : Manned s h κ)
    (hsleep : ∀ u, s'.asleep u = true → if u = t then k = .abed else s.asleep u = true)
    (hin : ∀ u ∈ s'.inside, if u = t then k = .busy else u ∈ s.inside)
    (hcom : s'.committing = true → k = .busy ∨ s.committing = true ∧ κ t ≠ .busy) :
    Manned s' h' (Function.update κ t k) := by
  refine ⟨fun u hu => ?_, fun u hu => ?_, fun hc => ?_⟩
  · have := hsleep u hu
    by_cases hut : u = t
    · rw [hut, Function.update_self]
      rwa [if_pos hut] at this
    · rw [Function.update_of_ne hut]
      rw [if_neg hut] at this
      exact hm.asleep u this
  · have := hin u hu
    by_cases hut : u = t
    · rw [hut, Function.update_self]
      rwa [if_pos hut] at this
    · rw [Function.update_of_ne hut]
      rw [if_neg hut] at this
      exact hm.inside u this
  · rcases hcom hc with hk | ⟨hc, ht⟩
    · exact ⟨t, by rwa [Function.update_self]⟩
    · obtain ⟨u, hu⟩ := hm.commit hc
      refine ⟨u, ?_⟩
      rwa [Function.update_of_ne]
      rintro rfl
      exact ht hu

lemma spec_plain {a : Act} {g : Phase} {k : Place} {Q : Res a → Phase → Prop} (ha : Plain a)
    (hs : (Exclusion.proto start T).Spec t a g Q) :
    (proto T start).Spec t a (g, k) fun r g' => Q r g'.1 ∧ g'.2 = k := by
  refine Spec.extend tracks hs trivial fun s o γ κ c s' r g' hi hj hg hk hx hsem hi' hq => ?_
  obtain ⟨h1, h2, h3⟩ := plain_step c ha hsem
  refine ⟨k, ?_, hq, rfl⟩
  rw [← hk, Function.update_eq_self]
  exact ⟨by rw [h1]; exact hj.asleep, by rw [h2]; exact hj.inside, by rw [h3]; exact hj.commit⟩

lemma spec_beginTest : (proto T start).Spec t .beginTest (.out, .out) fun r g' =>
    g' = if r then (.inOp, .busy) else (.out, .abed) := by
  refine Spec.extend tracks Exclusion.spec_beginTest trivial
    fun s o γ κ c s' r g' hi hj hg hk hx hsem hi' hq => ?_
  subst hq
  have hin : ∀ u ∈ s.inside, if u = t then Place.abed = .busy else u ∈ s.inside := by
    intro u hu
    have hne : u ≠ t := fun h => by simpa [h, hk] using hj.inside u hu
    rwa [if_neg hne]
  have hsleep : ∀ u, Function.update s.asleep t true u = true →
      if u = t then Place.abed = .abed else s.asleep u = true := by
    intro u hu
    split_ifs with h
    · rfl
    · rwa [Function.update_of_ne h] at hu
  simp only [sys, sem] at hsem
  split_ifs at hsem with hcom hfull
  · cases hsem
    exact ⟨.abed, hj.move hsleep hin fun hc => .inr ⟨hc, by simp [hk]⟩, rfl⟩
  · cases hsem
    exact ⟨.abed, hj.move hsleep hin fun hc => .inr ⟨hc, by simp [hk]⟩, rfl⟩
  · cases hsem
    refine ⟨.busy, hj.move (fun u hu => ?_) (fun u hu => ?_) fun _ => .inl rfl, rfl⟩
    · have hne : u ≠ t := fun h => by simpa [h, hk] using hj.asleep u hu
      rwa [if_neg hne]
    · split_ifs with h
      · rfl
      · exact Finset.mem_of_mem_insert_of_ne hu h

lemma spec_awake : (proto T start).Spec t .awake (.out, .abed) fun _ g' =>
    g' = (.out, .out) := by
  refine Spec.extend tracks (Exclusion.spec_neutral trivial rfl) trivial
    fun s o γ κ c s' r g' hi hj hg hk hx hsem hi' hq => ⟨.out, ?_, by rw [hq]⟩
  simp only [sys, sem] at hsem
  split_ifs at hsem
  cases hsem
  refine hj.move (fun u hu => ?_) (fun u hu => ?_) fun hc => .inr ⟨hc, by simp [hk]⟩
  · have hne : u ≠ t := fun h => by simp [h] at hu
    rw [if_neg hne]
    simpa only [Function.update_of_ne hne] using hu
  · have hne : u ≠ t := fun h => by simpa [h, hk] using hj.inside u hu
    rwa [if_neg hne]

lemma spec_endFirst : (proto T start).Spec t .endFirst (.inOp, .busy) fun r g' =>
    g' = if r then (.commit, .busy) else (.out, .out) := by
  refine Spec.extend tracks Exclusion.spec_endFirst trivial
    fun s o γ κ c s' r g' hi hj hg hk hx hsem hi' hq => ?_
  subst hq
  simp only [sys, sem] at hsem
  split_ifs at hsem with hcom hlast <;> cases hsem
  · refine ⟨.busy, hj.move (fun u hu => ?_) (fun u hu => ?_) fun _ => .inl rfl, rfl⟩
    · have hne : u ≠ t := fun h => by simpa [h, hk] using hj.asleep u hu
      rwa [if_neg hne]
    · split_ifs
      · rfl
      · exact Finset.mem_of_mem_erase hu
  · refine ⟨.out, hj.move (fun u hu => absurd hu (by simp)) (fun u hu => ?_)
      fun hc => absurd hc hcom, rfl⟩
    rw [if_neg (Finset.ne_of_mem_erase hu)]
    exact Finset.mem_of_mem_erase hu

lemma spec_endLast : (proto T start).Spec t .endLast (.commit, .busy) fun _ g' =>
    g' = (.out, .out) := by
  refine Spec.extend tracks Exclusion.spec_endLast trivial
    fun s o γ κ c s' r g' hi hj hg hk hx hsem hi' hq => ⟨.out, ?_, by rw [hq]⟩
  cases hsem
  refine hj.move (fun u hu => absurd hu (by simp)) (fun u hu => ?_) fun hc => absurd hc (by simp)
  -- a process that commits is no longer inside
  have hne : u ≠ t := fun h => by
    have := (Exclusion.Inv.inside hi u).mp hu
    rw [h, hg] at this
    cases this
  rwa [if_neg hne]

/-! ### The programs -/

lemma all_bread (b : BlockNo) : All Plain (bread b) :=
  all_then trivial fun _ => all_then trivial fun _ => all_then trivial fun _ => trivial

lemma all_brelse (i : Fin NBUF) : All Plain (brelse i) :=
  all_then trivial fun _ => all_perform.mpr trivial

lemma all_writeHead : All Plain (writeHead start) := by
  refine all_bind (all_bread _) fun buf => all_then trivial fun _ => ?_
  exact all_then trivial fun _ => all_brelse buf

lemma all_writeLog : All Plain (writeLog start) := by
  refine all_iterate.mpr fun tail => all_then trivial fun n => all_ite ?_ trivial
  refine all_bind (all_bread _) fun toBuf => all_then trivial fun b => ?_
  refine all_bind (all_bread b) fun fromBuf => all_then trivial fun _ => ?_
  refine all_then trivial fun _ => ?_
  exact all_bind (all_brelse _) fun _ => all_bind (all_brelse _) fun _ => trivial

lemma all_installTrans : All Plain (installTrans start) := by
  refine all_iterate.mpr fun tail => all_then trivial fun n => all_ite ?_ trivial
  refine all_bind (all_bread _) fun lbuf => all_then trivial fun b => ?_
  refine all_bind (all_bread b) fun dbuf => all_then trivial fun _ => ?_
  refine all_then trivial fun _ => all_then trivial fun _ => ?_
  exact all_bind (all_brelse _) fun _ => all_bind (all_brelse _) fun _ => trivial

lemma all_commit : All Plain (commit start) := by
  refine all_then trivial fun n => all_ite ?_ trivial
  refine all_bind all_writeLog fun _ => all_bind all_writeHead fun _ => ?_
  exact all_bind all_installTrans fun _ => all_then trivial fun _ => all_writeHead

lemma all_releaseAll (held : List (BlockNo × Fin NBUF)) : All Plain (releaseAll held) := by
  induction held with
  | nil => trivial
  | cons h held ih => exact all_bind (all_brelse _) fun _ => ih

lemma all_runCmds (cs : List Cmd) (held : List (BlockNo × Fin NBUF)) :
    All Plain (runCmds cs held) := by
  induction cs generalizing held with
  | nil => exact all_releaseAll held
  | cons cmd cs ih =>
    cases cmd with
    | bread b => exact all_bind (all_bread b) fun _ => ih _
    | store b v =>
      simp only [runCmds]
      cases held.lookup b with
      | some i => exact all_then trivial fun _ => ih _
      | none => exact ih _
    | logWrite b =>
      simp only [runCmds]
      cases held.lookup b with
      | some i => exact all_then trivial fun _ => ih _
      | none => exact ih _
    | brelse b =>
      simp only [runCmds]
      cases held.lookup b with
      | some i => exact all_bind (all_brelse i) fun _ => ih _
      | none => exact ih _

lemma beginOp_wp : (proto T start).wp t beginOp (fun _ g' => g' = (.inOp, .busy))
    (.out, .out) := by
  refine wp_iterate (fun _ g' => g' = (.out, .out)) rfl fun _ g' hg' => ?_
  subst hg'
  refine wp_act spec_beginTest fun r g' hg' => ?_
  subst hg'
  cases r with
  | true => rfl
  | false =>
    refine wp_act spec_awake fun _ g' hg' => ?_
    subst hg'
    rfl

/-- A piece of program that only does what is plain. -/
lemma wp_plain {β δ : Type} {g g' : Phase} {k : Place} {p : P β} {f : β → P δ}
    {Q : δ → Phase × Place → Prop} (hp : All Plain p)
    (h : (Exclusion.proto start T).wp t p (fun _ x => x = g') g)
    (hf : ∀ r, (proto T start).wp t (f r) Q (g', k)) :
    (proto T start).wp t (p.bind f) Q (g, k) := by
  refine wp_call (wp_frame (fun a g Q => spec_plain) hp h) fun r x hx => ?_
  obtain ⟨g, k⟩ := x
  obtain ⟨rfl, rfl⟩ := hx
  exact hf r

lemma endOp_wp : (proto T start).wp t (endOp start) (fun _ g' => g' = (.out, .out))
    (.inOp, .busy) := by
  refine wp_act spec_endFirst fun r g' hg' => ?_
  subst hg'
  cases r with
  | true => exact wp_plain all_commit Exclusion.commit_wp fun _ => wp_perform spec_endLast
  | false => rfl

lemma operation_wp (cs : List Cmd) : (proto T start).wp t (operation start cs)
    (fun _ g' => g' = (.out, .out)) (.out, .out) := by
  refine wp_call beginOp_wp fun _ g' hg' => ?_
  subst hg'
  exact wp_plain (all_runCmds cs []) (Exclusion.runCmds_wp cs []) fun _ => endOp_wp

/-- Between two operations a process is in none. -/
def Q (_ : T) (_ : Unit) (g : Phase × Place) : Prop := g = (.out, .out)

lemma enters : (proto T start).Enters Q := by
  rintro t ⟨s, h⟩ γ p ⟨s', h'⟩ p' hi hw ⟨⟨rfl, he, cs, rfl⟩, hh⟩
  simp only at he hh
  subst he hh
  have hout : γ t = (.out, .out) := hw
  exact ⟨(.out, .out), by rwa [update_of_eq hout], operation_wp cs⟩

lemma follows_init (disk : BlockNo → Block) :
    (proto T start).Follows Q (Pins.init T disk) := by
  refine ⟨fun _ => (.out, .out), ⟨Exclusion.inv_init disk, ?_, ?_, ?_⟩, fun _ => rfl⟩
  · exact fun t ht => absurd ht (by simp [Pins.init, init])
  · exact fun t ht => absurd ht (by simp [Pins.init, init])
  · exact fun hc => absurd hc (by simp [Pins.init, init])

/-! ### Who sleeps has reason to -/

structure Rightful (s : St T) : Prop where
  reason : ∀ t, s.asleep t = true → s.committing = true ∨ NoRoom s
  /-- The log is empty when no operation is in progress. -/
  empty : s.outstanding = 0 → s.committing = false → s.lh = []

lemma length_absorb (lh : List BlockNo) (b : BlockNo) : lh.length ≤ (absorb lh b).length := by
  unfold absorb
  split_ifs
  · exact le_refl _
  · simp

/-- Only `begin_op`'s test puts a process to sleep. -/
lemma asleep_neutral {a : Act} {r : Res a} (hn : Neutral a)
    (ho : sem t a kill s = some (.ok s' r)) (u : T) (hu : s'.asleep u = true) :
    s.asleep u = true := by
  by_cases ha : Plain a
  · rwa [(plain_step kill ha ho).1] at hu
  cases a with
  | awake =>
    simp only [sem] at ho
    split_ifs at ho
    cases ho
    by_cases h : u = t
    · simp [h] at hu
    · simpa only [Function.update_of_ne h] using hu
  | beginTest | endFirst | endLast => exact absurd hn id
  | _ => exact absurd trivial ha

/-- **No step strands a process**, `endLast` being made of an empty log. -/
lemma Rightful.step {γ : T → Phase} {a : Act} {r : Res a} (h : Rightful s)
    (hi : Exclusion.Inv s γ) (hm : Exclusion.May a (γ t)) (hend : a = .endLast → s.lh = [])
    (ho : sem t a kill s = some (.ok s' r)) : Rightful s' := by
  by_cases hn : Neutral a
  · have hlog := sem_neutral hn ho
    simp only [logOf, Prod.mk.injEq] at hlog
    obtain ⟨h1, h2, h3, -⟩ := hlog
    refine ⟨fun u hu => ?_, by rw [h1, h2, h3]; exact h.empty⟩
    have := h.reason u (asleep_neutral hn ho u hu)
    unfold NoRoom at this ⊢
    rwa [h1, h2, h3]
  cases a with
  | beginTest =>
    simp only [sem] at ho
    split_ifs at ho with hcom hfull <;> cases ho
    · exact ⟨fun _ _ => .inl hcom, h.empty⟩
    · exact ⟨fun _ _ => .inr hfull, h.empty⟩
    · refine ⟨fun u hu => (h.reason u hu).imp id fun hroom => ?_, fun h0 => ?_⟩
      · unfold NoRoom MAXOPBLOCKS at hroom ⊢
        simp only at hroom ⊢
        omega
      · have := hi.count
        simp only at h0
        omega
  | endFirst =>
    simp only [sem] at ho
    split_ifs at ho with hcom hlast <;> cases ho
    · exact ⟨fun _ _ => .inl rfl, fun _ hc => absurd hc (by simp)⟩
    · exact ⟨fun _ hu => absurd hu (by simp), fun h0 => absurd h0 hlast⟩
  | endLast =>
    cases ho
    exact ⟨fun _ hu => absurd hu (by simp), fun _ _ => hend rfl⟩
  | logWrite i =>
    have hpos := Exclusion.Inv.outstanding_pos hi hm
    simp only [sem] at ho
    split_ifs at ho <;> cases ho
    refine ⟨fun u hu => (h.reason u hu).imp id fun hroom => ?_, fun h0 => ?_⟩
    · have := length_absorb s.lh (s.cache.buf i).blockno
      unfold NoRoom at hroom ⊢
      simp only [record]
      omega
    · simp only [record] at h0
      omega
  | clearN =>
    cases ho
    have hcom : s.committing = true := hi.committing.mpr ⟨t, hm⟩
    exact ⟨fun _ _ => .inl hcom, fun _ hc => absurd hcom (by simp [show s.committing = false from hc])⟩
  | _ => exact absurd trivial hn

lemma rightful {disk : BlockNo → Block} {c : Pool (St T × Installs) T Act Res Unit}
    (hr : Reach (watched start T) (Pins.init T disk) c) : Rightful c.shared.1 := by
  induction hr with
  | refl => exact ⟨fun t ht => absurd ht (by simp [Pins.init, init]), fun _ _ => rfl⟩
  | @tail b d hr hs ih =>
    obtain ⟨γ, hi, hmay⟩ := follows_may (follows_reach enters (follows_init disk) hr)
    obtain ⟨δ, hpins, hend⟩ := follows_may (follows_reach Pins.enters (Pins.follows_init disk) hr)
    cases hs with
    | run t hn =>
      generalize hp : b.thread t = p at hn
      cases hn with
      | @act _ a k kill r ho =>
        refine ih.step hi.1 (hmay t a ⟨k, hp⟩).1 (fun ha => ?_) (observe_ok.mp ho).1
        subst ha
        obtain ⟨hphase, -, hnil⟩ : Pins.May .endLast (δ t) := hend t _ ⟨k, hp⟩
        exact (hpins.base.head t hphase).1.trans hnil
      | loop => exact ih
    | enter t hn =>
      obtain ⟨⟨-, he, -⟩, -⟩ := hn
      simpa only [he] using ih

/-- **No process is stranded waiting for log space.** In every state of every run, between any
two critical sections of `log.lock`, a process asleep on `&log` waits for a commit or for room,
not for a log that nobody uses; and another process is still in its operation or its commit. -/
theorem space_awaited (T : Type) [DecidableEq T] (start : BlockNo) (disk : BlockNo → Block)
    {c : Pool (St T) T Act Res Unit} (hr : Reach (sys start T) (init T disk) c) {t : T}
    (ht : c.shared.asleep t = true) :
    (c.shared.committing = true ∨ NoRoom c.shared) ∧
    ¬ (c.shared.outstanding = 0 ∧ c.shared.committing = false) ∧
    ∃ u, u ≠ t ∧ (u ∈ c.shared.inside ∨ c.shared.committing = true) ∧
      ∀ v, c.thread u ≠ .ret v := by
  obtain ⟨o, hr⟩ := exists_observe (f := Pins.watch start) hr ⟨false, []⟩
  have hright : Rightful c.shared := rightful hr
  obtain ⟨γ, ⟨hi, hman⟩, hw⟩ := follows_reach enters (follows_init disk) hr
  change T → Phase × Place at γ
  have hbusy : ¬ (c.shared.outstanding = 0 ∧ c.shared.committing = false) := by
    rintro ⟨h0, hc⟩
    rcases hright.reason t ht with h | h
    · rw [h] at hc
      cases hc
    · unfold NoRoom at h
      rw [hright.empty h0 hc, h0] at h
      exact absurd h (by decide)
  have hother : ∃ u, (γ u).2 = .busy ∧ (u ∈ c.shared.inside ∨ c.shared.committing = true) := by
    cases hc : c.shared.committing with
    | true =>
      obtain ⟨u, hu⟩ := hman.commit hc
      exact ⟨u, hu, .inr rfl⟩
    | false =>
      have hne : c.shared.inside.Nonempty := by
        rw [Finset.nonempty_iff_ne_empty]
        intro hempty
        exact hbusy ⟨by simpa [hempty] using hi.count, hc⟩
      obtain ⟨u, hu⟩ := hne
      exact ⟨u, hman.inside u hu, .inl hu⟩
  obtain ⟨u, hu, hin⟩ := hother
  refine ⟨hright.reason t ht, hbusy, u, ?_, hin, fun v hv => ?_⟩
  · rintro rfl
    have := hman.asleep u ht
    simp only [hu] at this
    cases this
  · have := hw u
    rw [hv] at this
    rw [show γ u = (.out, .out) from this] at hu
    cases hu

/-- A process waits for a commit. -/
theorem space_awaited_commit : ∃ c, Reach (sys 2 (Fin 2)) (init (Fin 2) fun _ => zero) c ∧
    c.shared.asleep 1 = true ∧ c.shared.committing = true ∧ ∀ v, c.thread 0 ≠ .ret v := by
  have hs := reach_started (S := sys 2 (Fin 2)) 2 (fun _ _ cs => ⟨rfl, rfl, cs, rfl⟩)
    (fun _ => zero) fun _ => []
  obtain ⟨c, hr, hc⟩ := exists_of_schedule (sys 2 (Fin 2))
    (fun c => (c.shared.asleep 1, c.shared.committing))
    (started 2 (fun _ => zero) fun _ => []) [(0, false, 3), (1, false, 2)] (b := (true, true))
    (by decide +kernel)
  simp only [Prod.mk.injEq] at hc
  obtain ⟨-, -, u, hu, -, hv⟩ := space_awaited (Fin 2) 2 (fun _ => zero) (hs.trans hr) hc.1
  have h0 : u = 0 := by omega
  exact ⟨c, hs.trans hr, hc.1, hc.2, h0 ▸ hv⟩

end Xv6.Log.Space
