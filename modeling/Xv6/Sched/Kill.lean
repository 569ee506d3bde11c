import Xv6.Sched.Calls

/-!
Kills. `kkill` finds its victim by pid, and so sets `killed` of an `UNUSED` slot when it is
given the pid 0; `allocproc` does not reset the flag. In the runs in which that never happens
kills hit living processes only, and every process starts with `killed` reset.
-/

namespace Xv6.Sched.Kill

open Xv6.Conc Xv6.Conc.Prog Xv6.Conc.Proto Xv6.Sched.Table Xv6.Sched.Kernel Xv6.Sched.Handoff
  Xv6.Sched.Protocol Xv6.Sched.Specs Xv6.Sched.Follow Xv6.Sched.Calls

variable {NPROC NCPU : ℕ} {ι κ : Type}

/-! ### The history -/

structure History (NPROC : ℕ) (ι κ : Type) where
  /-- What each process is doing, or has done last. -/
  serving : Fin NPROC → Option (Request ι κ)
  /-- The slots in which the process has set `killed` meanwhile, with their pid and state. -/
  hits : Fin NPROC → List (Fin NPROC × ℤ × PState)
  /-- Since the slot was last allocated, its process was killed by pid, or killed itself. -/
  cause : Fin NPROC → Bool

/-- `p` sets `killed` of `q` because it was asked to kill that pid, or kills itself. -/
def named (s : St NPROC NCPU ι κ) (h : History NPROC ι κ) (p q : Fin NPROC) : Bool :=
  match h.serving p with
  | some (.kill pid) => pid = (s.proc q).pid
  | some .fault => p = q
  | _ => false

def watch : Ctx NPROC NCPU → (a : Act NPROC ι κ) → Res a → St NPROC NCPU ι κ →
    History NPROC ι κ → History NPROC ι κ
  | .proc p, .set q (.killed true), _, s, h => { h with
    hits := Function.update h.hits p (h.hits p ++ [(q, (s.proc q).pid, (s.proc q).state)])
    cause := Function.update h.cause q (h.cause q || named s h p q) }
  | _, .set q (.state .used), _, _, h => { h with cause := Function.update h.cause q false }
  | _, _, _, _, h => h

def onCall (p : Fin NPROC) (req : Option (Request ι κ)) (h : History NPROC ι κ) :
    History NPROC ι κ :=
  { h with serving := Function.update h.serving p req, hits := Function.update h.hits p [] }

/-- `killed` is set in a slot that is not in use. -/
def hitsUnused : Act NPROC ι κ → St NPROC NCPU ι κ → Bool
  | .set q (.killed true), s => (s.proc q).state = .unused
  | _, _ => false

variable [DecidableEq ι] [DecidableEq κ] (initproc : Fin NPROC)

def kills (NCPU : ℕ) : Sys (St NPROC NCPU ι κ × History NPROC ι κ) (Ctx NPROC NCPU)
    (Fin NCPU × Bool) (Act NPROC ι κ) Res ℤ :=
  calls initproc onCall NCPU watch

/-- The runs in which `killed` is set of processes only. -/
def sparing (NCPU : ℕ) : Sys (St NPROC NCPU ι κ × History NPROC ι κ) (Ctx NPROC NCPU)
    (Fin NCPU × Bool) (Act NPROC ι κ) Res ℤ :=
  (kills initproc NCPU).restrict fun _ a s => hitsUnused a s.1 = false

def boot (NCPU : ℕ) (cond : ι → Bool) :
    Pool (St NPROC NCPU ι κ × History NPROC ι κ) (Ctx NPROC NCPU) (Act NPROC ι κ) Res ℤ :=
  Calls.boot initproc NCPU cond ⟨fun _ => none, fun _ => [], fun _ => false⟩

/-! ### The invariant -/

/-- What is known of a thread: its call, the kills of that call, and the pid and the flag that
it has read, or written, of a process whose lock it holds. -/
structure Mark (NPROC : ℕ) (ι κ : Type) where
  doing : Option (Request ι κ)
  hits : List (Fin NPROC × ℤ × PState)
  look : Option (Fin NPROC × ℤ × Bool)

structure Inv (s : St NPROC NCPU ι κ) (h : History NPROC ι κ)
    (m : Ctx NPROC NCPU → Mark NPROC ι κ) : Prop where
  serving : ∀ p, (m (.proc p)).doing = h.serving p
  hits : ∀ p, (m (.proc p)).hits = h.hits p
  look : ∀ t q n b, (m t).look = some (q, n, b) →
    Holds s t (.proc q) ∧ (s.proc q).pid = n ∧ (s.proc q).killed = b
  unused : ∀ q, (s.proc q).state = .unused → (s.proc q).killed = false
  cause : ∀ q, (s.proc q).killed = true → h.cause q = true

/-- A slot is allocated with `killed` reset. -/
def May : Act NPROC ι κ → Ghost NPROC ι κ → Mark NPROC ι κ → Prop
  | .set q (.state .used), _, k => ∃ n, k.look = some (q, n, false)
  | _, _, _ => True

/-- The actions that have nothing to do with kills. -/
def Neutral : Act NPROC ι κ → Prop
  | .set _ (.killed _) | .set _ (.pid _) | .set _ (.state .used) | .set _ (.state .unused) => False
  | _ => True

section Steps

variable {s s' : St NPROC NCPU ι κ} {h h' : History NPROC ι κ} {m : Ctx NPROC NCPU → Mark NPROC ι κ}
  {t : Ctx NPROC NCPU} {k : Mark NPROC ι κ} {q : Fin NPROC} {c : Fin NCPU} {fail : Bool}
  {a : Act NPROC ι κ} {r : Res a}

omit [DecidableEq ι] [DecidableEq κ]

lemma watch_neutral (ha : Neutral a) : watch t a r s h = h := by
  cases a with
  | set q f =>
    cases f with
    | killed b => exact ha.elim
    | state st => cases st <;> first | exact ha.elim | (cases t <;> rfl)
    | _ => cases t <;> rfl
  | _ => cases t <;> rfl

/-- A thread writes to the record of a process whose lock it holds. -/
lemma Inv.write (hi : Inv s h m) (hold : Holds s t (.proc q)) {v : Proc NPROC ι κ}
    (hserving : h'.serving = h.serving) (hother : ∀ p, t ≠ .proc p → h'.hits p = h.hits p)
    (hdoing : k.doing = (m t).doing) (hhits : ∀ p, t = .proc p → k.hits = h'.hits p)
    (hlook : ∀ q' n b, k.look = some (q', n, b) → q' = q ∧ v.pid = n ∧ v.killed = b)
    (hunused : v.state = .unused → v.killed = false) (hcause : v.killed = true → h'.cause q = true)
    (hcause' : ∀ q', q' ≠ q → h'.cause q' = h.cause q') :
    Inv (setProc q v s) h' (Function.update m t k) := by
  have hproc : ∀ q', q' ≠ q → (setProc q v s).proc q' = s.proc q' := fun q' hq => by
    simp [setProc, hq]
  have hself : (setProc q v s).proc q = v := by simp [setProc]
  have hkeep : ∀ u l, Holds s u l → Holds (setProc q v s) u l := fun u l hu =>
    hu.congr rfl rfl
  refine ⟨fun p => ?_, fun p => ?_, fun u q' n b hu => ?_, fun q' hq' => ?_, fun q' hq' => ?_⟩
  · rw [hserving]
    by_cases hp : t = .proc p
    · subst hp; rw [Function.update_self, hdoing, hi.serving]
    · rw [Function.update_of_ne (Ne.symm hp), hi.serving]
  · by_cases hp : t = .proc p
    · subst hp; rw [Function.update_self, hhits p rfl]
    · rw [Function.update_of_ne (Ne.symm hp), hother p hp, hi.hits]
  · by_cases hut : u = t
    · subst hut
      rw [Function.update_self] at hu
      obtain ⟨rfl, h1, h2⟩ := hlook q' n b hu
      rw [hself]
      exact ⟨hkeep _ _ hold, h1, h2⟩
    · rw [Function.update_of_ne hut] at hu
      obtain ⟨h1, h2⟩ := hi.look u q' n b hu
      have hq : q' ≠ q := by
        rintro rfl
        exact hut (h1.excl hold)
      rw [hproc q' hq]
      exact ⟨hkeep _ _ h1, h2⟩
  · by_cases hq : q' = q
    · subst hq; rw [hself] at hq' ⊢; exact hunused hq'
    · rw [hproc q' hq] at hq' ⊢; exact hi.unused q' hq'
  · by_cases hq : q' = q
    · subst hq; rw [hself] at hq'; exact hcause hq'
    · rw [hproc q' hq] at hq'
      rw [hcause' q' hq]
      exact hi.cause q' hq'

lemma neutral_step [DecidableEq ι] [DecidableEq κ] (ha : Neutral a)
    (ho : step c fail a s = some (.ok s' r)) (q : Fin NPROC) :
    (s'.proc q).pid = (s.proc q).pid ∧ (s'.proc q).killed = (s.proc q).killed ∧
      ((s'.proc q).state = .unused → (s.proc q).state = .unused) := by
  rcases step_proc ho with ⟨q', f, rfl, rfl⟩ | hp
  · by_cases hq : q = q'
    · subst hq
      cases f with
      | killed b => exact ha.elim
      | pid n => exact ha.elim
      | state st => cases st <;> first | exact ha.elim | simp [setProc, Field.write]
      | _ => simp [setProc, Field.write]
    · simp [setProc, hq]
  · rw [hp]
    exact ⟨rfl, rfl, id⟩

lemma Inv.neutral [DecidableEq ι] [DecidableEq κ] (hi : Inv s h m) (ha : Neutral a)
    (hk : ∀ q n b, (m t).look = some (q, n, b) → ¬ Loses (.proc q) a) (hc : running s c = t)
    (ho : step c fail a s = some (.ok s' r)) : Inv s' h m := by
  have hstep := neutral_step ha ho
  refine ⟨hi.serving, hi.hits, fun u q n b hu => ?_, fun q hq => ?_, fun q hq => ?_⟩
  · obtain ⟨h1, h2, h3⟩ := hi.look u q n b hu
    refine ⟨h1.step hc ?_ ho, (hstep q).1.trans h2, (hstep q).2.1.trans h3⟩
    by_cases hut : u = t
    · subst hut; exact .inr (hk q n b hu)
    · exact .inl hut
  · rw [(hstep q).2.1]
    exact hi.unused q ((hstep q).2.2 hq)
  · rw [(hstep q).2.1] at hq
    exact hi.cause q hq

end Steps

/-! ### Specifications -/

variable {initproc} {t : Ctx NPROC NCPU} {g m : Ghost NPROC ι κ} {k : Mark NPROC ι κ}
  {p q : Fin NPROC} {a : Act NPROC ι κ} {n : ℤ} {b : Bool}

lemma tracks : Tracks (sys initproc NCPU) (sparing (ι := ι) (κ := κ) initproc NCPU) watch :=
  tracks_observe.restrict

abbrev KSpec (initproc : Fin NPROC) (t : Ctx NPROC NCPU) (a : Act NPROC ι κ)
    (g : Ghost NPROC ι κ × Mark NPROC ι κ) (Q : Res a → Ghost NPROC ι κ × Mark NPROC ι κ → Prop) :
    Prop :=
  ESpec initproc (sparing initproc NCPU) Inv May t a g Q

abbrev kwp (initproc : Fin NPROC) (t : Ctx NPROC NCPU) {β : Type} (x : P NPROC ι κ β)
    (Q : β → Ghost NPROC ι κ × Mark NPROC ι κ → Prop) (g : Ghost NPROC ι κ × Mark NPROC ι κ) : Prop :=
  ewp initproc (sparing initproc NCPU) Inv May t x Q g

omit [DecidableEq ι] [DecidableEq κ] in
lemma may_neutral (ha : Neutral a) : May a g k := by
  cases a with
  | set q f =>
    cases f with
    | state st => cases st <;> first | exact ha.elim | trivial
    | _ => trivial
  | _ => trivial

lemma spec_neutral {Q : Res a → Ghost NPROC ι κ → Prop} (ha : Neutral a)
    (hk : ∀ q n b, k.look = some (q, n, b) → ¬ Loses (.proc q) a) (hs : Spec initproc t a g Q) :
    KSpec initproc t a (g, k) fun r g' => Q r g'.1 ∧ g'.2 = k := by
  refine Spec.extend tracks hs (may_neutral ha)
    fun s o γ κ c s' r g' hi hj hg hκ hx hsem hi' hq => ?_
  obtain ⟨hc, ho⟩ := sem_ok hsem
  refine ⟨k, ?_, hq, rfl⟩
  rw [watch_neutral ha, update_of_eq hκ]
  exact hj.neutral ha (hκ ▸ hk) hc ho

/-- A neutral action whose outcome for the protocol is known. -/
lemma spec_keep {f : Res a → Ghost NPROC ι κ} (ha : Neutral a)
    (hk : ∀ q n b, k.look = some (q, n, b) → ¬ Loses (.proc q) a)
    (hs : Spec initproc t a g fun r g' => g' = f r) :
    KSpec initproc t a (g, k) fun r g' => g' = (f r, k) :=
  (spec_neutral ha hk hs).mono fun _ _ ⟨h1, h2⟩ => Prod.ext h1 h2

/-- The process with what it has seen of `q`. -/
def Mark.see (k : Mark NPROC ι κ) (q : Fin NPROC) (n : ℤ) (b : Bool) : Mark NPROC ι κ :=
  { k with look := some (q, n, b) }

/-- Reading a process under its lock. -/
lemma spec_look (hm : g.mode = .run) (hl : .proc q ∈ g.locks) :
    KSpec initproc t (.get q) (g, k) fun r g' =>
      g' = ({ g with seen := some (q, r.state, r.chan) }, k.see q r.pid r.killed) ∧
        (r.state = .unused → r.killed = false) := by
  refine Spec.extend tracks (spec_read hm hl) (by trivial)
    fun s o γ κ c s' r g' hi hj hg hκ hx hsem hi' hq => ?_
  subst hg
  obtain ⟨hc, ho⟩ := sem_ok hsem
  cases ho
  have hold : Holds s t (.proc q) := holds_of_mem hi (by rw [hm]; rfl) hl
  have hwrite : Inv (setProc q (s.proc q) s) o
      (Function.update κ t (k.see q (s.proc q).pid (s.proc q).killed)) := hj.write hold rfl (fun _ _ => rfl) (by rw [hκ]; rfl)
    (fun p hp => by subst hp; rw [← hj.hits, hκ]; rfl)
    (fun q' n b hk => by cases hk; exact ⟨rfl, rfl, rfl⟩) (hj.unused q) (hj.cause q)
    fun _ _ => rfl
  rw [show setProc q (s.proc q) s = s by simp [setProc]] at hwrite
  rw [watch_neutral (a := .get q) trivial]
  exact ⟨_, hwrite, Prod.ext hq rfl, hj.unused q⟩

/-- Writing the pid, or resetting `killed`. -/
lemma spec_write {f : Field NPROC ι κ} {n' : ℤ} {b' : Bool}
    (hf : f = .pid n' ∧ b' = b ∨ f = .killed false ∧ n' = n ∧ b' = false)
    (hs : Spec initproc t (.set q f) g fun _ g' => g' = g) (hk : k.look = some (q, n, b)) :
    KSpec initproc t (.set q f) (g, k) fun _ g' => g' = (g, k.see q n' b') := by
  have hwatch : ∀ s h, watch t (.set q f) () s h = h := fun s h => by
    rcases hf with ⟨rfl, -⟩ | ⟨rfl, -, -⟩ <;> cases t <;> rfl
  refine Spec.extend tracks hs ?_ fun s o γ κ c s' r g' hi hj hg hκ hx hsem hi' hq => ?_
  · rcases hf with ⟨rfl, -⟩ | ⟨rfl, -, -⟩ <;> trivial
  subst hg
  obtain ⟨hc, ho⟩ := sem_ok hsem
  cases ho
  obtain ⟨hold, hn, hb⟩ := hj.look t q n b (hκ ▸ hk)
  refine ⟨k.see q n' b', ?_, Prod.ext hq rfl⟩
  rw [hwatch]
  refine hj.write hold rfl (fun _ _ => rfl) (by rw [hκ]; rfl)
    (fun p hp => by subst hp; rw [← hj.hits, hκ]; rfl) (fun q₁ n₁ b₁ h₁ => ?_) ?_ ?_ fun _ _ => rfl
  · cases h₁
    rcases hf with ⟨rfl, rfl⟩ | ⟨rfl, rfl, rfl⟩
    · exact ⟨rfl, rfl, hb⟩
    · exact ⟨rfl, hn, rfl⟩
  · rcases hf with ⟨rfl, -⟩ | ⟨rfl, -, -⟩
    · exact hj.unused q
    · exact fun _ => rfl
  · rcases hf with ⟨rfl, -⟩ | ⟨rfl, -, -⟩
    · exact hj.cause q
    · exact fun h => absurd h (by simp [Field.write])

/-- A slot is taken or given up while its `killed` is reset. -/
lemma spec_slot {st : PState} (hst : st = .used ∨ st = .unused)
    (hs : Spec initproc t (.set q (.state st)) g fun _ g' => g' = m)
    (hk : k.look = some (q, n, false)) :
    KSpec initproc t (.set q (.state st)) (g, k) fun _ g' => g' = (m, k) := by
  refine Spec.extend tracks hs ?_ fun s o γ κ c s' r g' hi hj hg hκ hx hsem hi' hq => ?_
  · rcases hst with rfl | rfl
    · exact ⟨n, hk⟩
    · trivial
  subst hg
  obtain ⟨hc, ho⟩ := sem_ok hsem
  cases ho
  obtain ⟨hold, hn, hb⟩ := hj.look t q n false (hκ ▸ hk)
  refine ⟨k, ?_, Prod.ext hq rfl⟩
  have hcause : ∀ q', q' ≠ q → (watch t (.set q (.state st)) () s o).cause q' = o.cause q' := by
    intro q' hq'
    rcases hst with rfl | rfl <;> cases t <;> simp [watch, hq']
  refine hj.write hold ?_ (fun p _ => ?_) (by rw [hκ]) (fun p hp => ?_) (fun q₁ n₁ b₁ h₁ => ?_)
    (fun _ => hb) (fun h => absurd h (by simp [Field.write, hb])) hcause
  · rcases hst with rfl | rfl <;> cases t <;> rfl
  · rcases hst with rfl | rfl <;> cases t <;> rfl
  · subst hp
    rw [← hκ, hj.hits]
    rcases hst with rfl | rfl <;> rfl
  · rw [hk] at h₁
    cases h₁
    exact ⟨rfl, hn, hb⟩

omit [DecidableEq ι] [DecidableEq κ] in
/-- A process sets `killed` where it may. -/
lemma Inv.kill {s : St NPROC NCPU ι κ} {h : History NPROC ι κ} {m : Ctx NPROC NCPU → Mark NPROC ι κ}
    (hi : Inv s h m) (hold : Holds s (.proc p) (.proc q)) (hlive : (s.proc q).state ≠ .unused)
    (hnamed : named s h p q = true) :
    Inv (setProc q (Field.write (s.proc q) (.killed true)) s)
      (watch (.proc p) (.set q (.killed true)) () s h)
      (Function.update m (.proc p) { (m (.proc p)).see q (s.proc q).pid true with
        hits := (m (.proc p)).hits ++ [(q, (s.proc q).pid, (s.proc q).state)] }) := by
  refine hi.write hold rfl (fun p' hp => ?_) rfl (fun p' hp => ?_) (fun q₁ n₁ b₁ h₁ => ?_)
    (fun h => absurd h hlive) (fun _ => ?_) fun q' hq' => ?_
  · have hne : p' ≠ p := by rintro rfl; exact hp rfl
    simp [watch, hne]
  · cases hp
    simp only [watch, Function.update_self]
    rw [hi.hits]
  · cases h₁
    exact ⟨rfl, rfl, rfl⟩
  · simp [watch, hnamed]
  · simp [watch, hq']

lemma live_of_sparing {c : Fin NCPU × Bool}
    {s : St NPROC NCPU ι κ × History NPROC ι κ} {o : Outcome _ Unit}
    (h : (sparing initproc NCPU).sem t (.set q (.killed true)) c s = some o) :
    (s.1.proc q).state ≠ .unused := by
  have := (restrict_sem.mp h).1
  simpa [hitsUnused] using this

/-- `kkill` sets `killed` of the process of that pid. -/
lemma spec_kill (hk : k.look = some (q, n, b)) (hd : k.doing = some (.kill n)) :
    KSpec initproc (.proc p : Ctx NPROC NCPU) (.set q (.killed true)) (g, k) fun _ g' =>
      ∃ st, st ≠ .unused ∧
        g' = (g, { k.see q n true with hits := k.hits ++ [(q, n, st)] }) := by
  refine Spec.extend tracks (spec_setField (fun _ => ⟨rfl, rfl⟩) (by trivial)) (by trivial)
    fun s o γ κ c s' r g' hi hj hg hκ hx hsem hi' hq => ?_
  obtain ⟨hc, ho⟩ := sem_ok hsem
  cases ho
  subst hκ
  obtain ⟨hold, hn, -⟩ := hj.look _ q n b hk
  have hlive := live_of_sparing hx
  have hnamed : named s o p q = true := by
    unfold named
    rw [← hj.serving, hd]
    simp [hn]
  have := hj.kill hold hlive hnamed
  rw [hn] at this
  exact ⟨_, this, _, hlive, Prod.ext hq rfl⟩

/-- `setkilled` sets `killed` of the process itself. -/
lemma spec_setkilled (hm : g.mode = .run) (hl : .proc p ∈ g.locks) (hd : k.doing = some .fault) :
    KSpec initproc (.proc p : Ctx NPROC NCPU) (.set p (.killed true)) (g, k) fun _ g' =>
      g'.1 = g ∧ g'.2.doing = some .fault := by
  refine Spec.extend tracks (spec_setField (fun _ => ⟨rfl, rfl⟩) (by trivial)) (by trivial)
    fun s o γ κ c s' r g' hi hj hg hκ hx hsem hi' hq => ?_
  obtain ⟨hc, ho⟩ := sem_ok hsem
  cases ho
  subst hκ hg
  have hold : Holds s (.proc p) (.proc p) := holds_of_mem hi (by rw [hm]; rfl) hl
  have hnamed : named s o p p = true := by
    unfold named
    rw [← hj.serving, hd]
    simp
  exact ⟨_, hj.kill hold (live_of_sparing hx) hnamed, hq, hd⟩

/-- The process without what it has seen. -/
def Mark.blind (k : Mark NPROC ι κ) : Mark NPROC ι κ := { k with look := none }

omit [DecidableEq ι] [DecidableEq κ] in
lemma Inv.forget {s : St NPROC NCPU ι κ} {h : History NPROC ι κ}
    {m : Ctx NPROC NCPU → Mark NPROC ι κ} (hi : Inv s h m) :
    Inv s h (Function.update m t (m t).blind) := by
  refine ⟨fun p => ?_, fun p => ?_, fun u q n b hu => ?_, hi.unused, hi.cause⟩
  · by_cases hp : Ctx.proc p = t
    · subst hp; rw [Function.update_self]; exact hi.serving p
    · rw [Function.update_of_ne hp, hi.serving]
  · by_cases hp : Ctx.proc p = t
    · subst hp; rw [Function.update_self]; exact hi.hits p
    · rw [Function.update_of_ne hp, hi.hits]
  · by_cases hut : u = t
    · subst hut; simp [Mark.blind] at hu
    · rw [Function.update_of_ne hut] at hu
      exact hi.look u q n b hu

/-- A neutral action after which nothing is seen any more. -/
lemma spec_drop {f : Res a → Ghost NPROC ι κ} (ha : Neutral a)
    (hs : Spec initproc t a g fun r g' => g' = f r) :
    KSpec initproc t a (g, k) fun r g' => g' = (f r, k.blind) := by
  refine Spec.extend tracks hs (may_neutral ha)
    fun s o γ κ c s' r g' hi hj hg hκ hx hsem hi' hq => ?_
  obtain ⟨hc, ho⟩ := sem_ok hsem
  refine ⟨k.blind, ?_, Prod.ext hq rfl⟩
  rw [watch_neutral ha]
  have hf := hj.forget (t := t)
  rw [hκ] at hf
  exact hf.neutral ha (by simp [Mark.blind]) hc ho

/-! ### Programs -/

omit [DecidableEq ι] [DecidableEq κ] in
lemma neutral_of_plain (h : Plain a) : Neutral a := by
  cases a with
  | set q f =>
    cases f with
    | state st => rcases h with rfl | rfl <;> trivial
    | _ => exact h.elim
  | _ => trivial

section Neutral

lemma all_plain {β : Type} {x : P NPROC ι κ β} (hx : x.All Plain) : x.All Neutral :=
  hx.mono fun _ => neutral_of_plain

lemma all_sleep {ch : Chan NPROC ι κ} {l : Lock NPROC ι κ} : (sleep ch l).All Neutral := by
  refine all_bind (all_plain all_self) fun p => all_then trivial fun _ => all_then trivial fun _ => ?_
  refine all_then trivial fun _ => all_then trivial fun _ => ?_
  refine all_bind (all_plain all_sched) fun _ => all_then trivial fun _ => ?_
  exact ⟨trivial, fun _ => ⟨trivial, fun _ => trivial⟩⟩

lemma all_waiter {i : ι} {consume : Bool} : (waiter i consume : P NPROC ι κ Unit).All Neutral := by
  refine all_then trivial fun _ => all_bind (all_iterate.mpr fun _ => ?_) fun _ => ?_
  · refine all_then trivial fun holds => ?_
    cases holds with
    | true => trivial
    | false => exact all_bind all_sleep fun _ => trivial
  · exact all_bind (all_whenever fun _ => ⟨trivial, fun _ => trivial⟩)
      fun _ => ⟨trivial, fun _ => trivial⟩

lemma all_acquiresleep {j : κ} : (acquiresleep j : P NPROC ι κ Unit).All Neutral := by
  refine all_then trivial fun _ => all_bind (all_iterate.mpr fun _ => ?_) fun _ => ?_
  · refine all_then trivial fun locked => ?_
    cases locked with
    | true => exact all_bind all_sleep fun _ => trivial
    | false => trivial
  · refine all_then trivial fun _ => all_bind (all_plain all_self) fun p => ?_
    exact ⟨trivial, fun _ => ⟨trivial, fun _ => ⟨trivial, fun _ => trivial⟩⟩⟩

lemma all_releaseAll (held : List κ) : (releaseAll held : P NPROC ι κ Unit).All Neutral := by
  induction held with
  | nil => trivial
  | cons j held ih => exact all_bind (all_plain all_releasesleep) fun _ => ih

lemma all_runCmds (cs : List (Cmd ι κ)) (h : ∀ pid, .kill pid ∉ cs) (held : List κ) :
    (runCmds cs held : P NPROC ι κ Unit).All Neutral := by
  induction cs generalizing held with
  | nil => exact all_releaseAll held
  | cons cmd cs ih =>
    replace ih := ih fun pid hp => h pid (List.mem_cons_of_mem _ hp)
    cases cmd with
    | wait i consume => exact all_bind all_waiter fun _ => ih held
    | wake i => exact all_bind (all_plain all_waker) fun _ => ih held
    | acquire j => exact all_bind all_acquiresleep fun _ => ih _
    | release j =>
      simp only [runCmds]
      split_ifs
      · exact all_bind (all_plain all_releasesleep) fun _ => ih _
      · exact ih held
    | kill pid => exact absurd (List.mem_cons_self ..) (h pid)
    | yield => exact all_bind (all_plain all_yield) fun _ => ih held

lemma all_reparent : (reparent initproc p : P NPROC ι κ Unit).All Neutral := by
  refine all_iterate.mpr fun ps => ?_
  cases ps with
  | nil => trivial
  | cons pp ps =>
    refine all_then trivial fun pr => all_bind (all_whenever fun _ => ?_) fun _ => trivial
    exact all_then trivial fun _ => all_plain all_wakeup

lemma all_kexit {status : ℤ} : (kexit initproc status : P NPROC ι κ Unit).All Neutral := by
  refine all_bind (all_plain all_self) fun p => ?_
  split_ifs
  · exact ⟨trivial, fun r => r.elim⟩
  · refine all_then trivial fun _ => all_bind all_reparent fun _ => all_then trivial fun pr => ?_
    refine all_bind (all_plain all_wakeup) fun _ => all_then trivial fun _ => all_then trivial fun _ => ?_
    refine all_then trivial fun _ => all_then trivial fun _ => ?_
    exact all_bind (all_plain all_sched) fun _ => ⟨trivial, fun r => r.elim⟩

end Neutral

/-- A program that has nothing to do with kills. -/
lemma frame (hk : k.look = none) {β : Type} {x : P NPROC ι κ β} (hx : x.All Neutral)
    {Q : β → Ghost NPROC ι κ → Prop} (hw : wp initproc t x Q g) :
    kwp initproc t x (fun r g' => Q r g'.1 ∧ g'.2 = k) (g, k) :=
  wp_frame (fun _ _ _ ha hs => spec_neutral ha (by simp [hk]) hs) hx hw

/-- Going on after such a program. -/
lemma wp_frame_next (hk : k.look = none) {β δ : Type} {x : P NPROC ι κ β} {f : β → P NPROC ι κ δ}
    {Q : δ → Ghost NPROC ι κ × Mark NPROC ι κ → Prop} (hx : x.All Neutral)
    (hw : wp initproc t x (fun _ g' => g' = m) g) (hf : ∀ r, kwp initproc t (f r) Q (m, k)) :
    kwp initproc t (x.bind f) Q (g, k) :=
  wp_call (frame hk hx hw) fun r g' ⟨h1, h2⟩ => by
    obtain ⟨g', k'⟩ := g'
    obtain rfl : g' = m := h1
    obtain rfl : k' = k := h2
    exact hf r

section Rules

variable {β : Type} {Q : β → Ghost NPROC ι κ × Mark NPROC ι κ → Prop}

/-- A neutral action, and then the rest. -/
lemma wp_neutral {f : Res a → P NPROC ι κ β} {e : Res a → Ghost NPROC ι κ} (ha : Neutral a)
    (hk : ∀ q n b, k.look = some (q, n, b) → ¬ Loses (.proc q) a)
    (hs : Spec initproc t a g fun r g' => g' = e r) (hf : ∀ r, kwp initproc t (f r) Q (e r, k)) :
    kwp initproc t ((perform a).bind f) Q (g, k) :=
  wp_act (spec_keep ha hk hs) fun r g' hg' => by subst hg'; exact hf r

lemma wp_look {f : Proc NPROC ι κ → P NPROC ι κ β} (hm : g.mode = .run) (hl : .proc q ∈ g.locks)
    (hf : ∀ r : Proc NPROC ι κ, (r.state = .unused → r.killed = false) →
      kwp initproc t (f r) Q ({ g with seen := some (q, r.state, r.chan) }, k.see q r.pid r.killed)) :
    kwp initproc t ((perform (.get q)).bind f) Q (g, k) :=
  wp_act (spec_look hm hl) fun r g' ⟨hg', hr⟩ => by subst hg'; exact hf r hr

/-- Releasing the lock of a process. -/
lemma unlock_wp {L : List (Lock NPROC ι κ)} {R : Unit → Ghost NPROC ι κ × Mark NPROC ι κ → Prop}
    (hm : g.mode = .run) (hl : g.locks = .proc q :: L)
    (hR : R () ({ g with locks := L, seen := none }, k.blind)) :
    kwp initproc t (perform (.release (.proc q))) R (g, k) := by
  refine wp_perform (Spec.mono (spec_drop trivial (spec_release_proc hm (by simp [hl])))
    fun r g' hg' => ?_)
  rw [hl, List.erase_cons_head] at hg'
  subst hg'
  exact hR

lemma wp_unlock {L : List (Lock NPROC ι κ)} {f : Unit → P NPROC ι κ β} (hm : g.mode = .run)
    (hl : g.locks = .proc q :: L)
    (hf : kwp initproc t (f ()) Q ({ g with locks := L, seen := none }, k.blind)) :
    kwp initproc t ((perform (.release (.proc q))).bind f) Q (g, k) :=
  wp_bind (unlock_wp hm hl hf)

end Rules

variable {ow : Option (Fin NPROC × Bool)} {sl : List κ}

/-- A process that was found asleep is woken. -/
lemma wake_wp {pr : Proc NPROC ι κ} :
    kwp initproc t (whenever (pr.state = .sleeping) (act (.set q (.state .runnable))))
      (fun _ g' => ∃ r, g' = (⟨[.proc q], .run, r, none, none, ow, sl⟩, k))
      (⟨[.proc q], .run, some (q, pr.state, pr.chan), none, none, ow, sl⟩, k) := by
  unfold whenever
  split_ifs with hs
  · rw [hs]
    refine wp_perform (Spec.mono (spec_neutral (by trivial) (by simp [Loses])
      (spec_wake (k := pr.chan) rfl rfl)) fun _ g' h => ⟨_, Prod.ext h.1.2 h.2⟩)
  · exact ⟨_, rfl⟩

/-- How `kkill` ends: it has hit the process of that pid, or nobody. -/
def Killed (pid v : ℤ) (k k' : Mark NPROC ι κ) : Prop :=
  v = 0 ∧ (∃ q st, st ≠ .unused ∧ k' = { k with hits := [(q, pid, st)] }) ∨ v = -1 ∧ k' = k

lemma kkill_wp {pid : ℤ} (hd : k.doing = some (.kill pid)) (hh : k.hits = []) (hk : k.look = none) :
    kwp initproc (.proc p : Ctx NPROC NCPU) (kkill pid)
      (fun v g' => g'.1 = calm [] ow sl ∧ Killed pid v k g'.2) (calm [] ow sl, k) := by
  have hblind : ∀ q n b, (k.see q n b).blind = k := fun q n b => by
    simp only [Mark.see, Mark.blind, ← hk]
  refine wp_iterate (fun _ g' => g' = (calm [] ow sl, k)) rfl fun ps g' hg' => ?_
  subst hg'
  cases ps with
  | nil => exact ⟨rfl, .inr ⟨rfl, rfl⟩⟩
  | cons q ps =>
    refine wp_neutral trivial (by simp [hk]) (spec_acquire rfl (by simp)) fun _ => ?_
    refine wp_look rfl (by simp) fun pr _ => ?_
    split_ifs with hpid
    · refine wp_act (spec_kill (n := pid) (by rw [← hpid]; rfl) hd) fun _ g' h => ?_
      obtain ⟨st, hst, rfl⟩ := h
      refine wp_look rfl (by simp) fun pr' _ => ?_
      refine wp_call (I := fun _ (g' : Ghost NPROC ι κ × Mark NPROC ι κ) => ∃ r,
        g'.1 = ⟨[.proc q], .run, r, none, none, ow, sl⟩ ∧
          g'.2.blind = { k with hits := [(q, pid, st)] }) ?_ fun _ g' h => ?_
      · have hmark : (Mark.see { k.see q pid true with hits := k.hits ++ [(q, pid, st)] } q pr'.pid
            pr'.killed).blind = { k with hits := [(q, pid, st)] } := by
          simp only [Mark.see, Mark.blind, hh, hk, List.nil_append]
        refine wp_mono wake_wp fun _ g' h => ?_
        obtain ⟨r, rfl⟩ := h
        exact ⟨r, rfl, hmark⟩
      · obtain ⟨g', k'⟩ := g'
        obtain ⟨r, h1, h2⟩ := h
        obtain rfl : g' = _ := h1
        refine wp_unlock rfl rfl ?_
        exact ⟨rfl, .inl ⟨rfl, q, st, hst, h2⟩⟩
    · refine wp_unlock rfl rfl ?_
      rw [hblind]
      exact rfl

/-- Going on after `myproc()`. -/
lemma wp_self {β : Type} {f : Fin NPROC → P NPROC ι κ β}
    {Q : β → Ghost NPROC ι κ × Mark NPROC ι κ → Prop} (hk : k.look = none)
    (hf : kwp initproc (.proc p : Ctx NPROC NCPU) (f p) Q (g, k)) :
    kwp initproc (.proc p : Ctx NPROC NCPU) (self.bind f) Q (g, k) := by
  refine wp_call (frame hk (all_self.mono fun _ => neutral_of_plain) self_wp) fun r g' h => ?_
  obtain ⟨g', k'⟩ := g'
  obtain ⟨⟨rfl, hg⟩, rfl⟩ := h
  obtain rfl : g' = g := hg
  exact hf

lemma fault_wp (hd : k.doing = some .fault) (hk : k.look = none) :
    kwp initproc (.proc p : Ctx NPROC NCPU) (fault initproc)
      (fun _ g' => g'.1 = calm [] none sl ∧ g'.2.doing = some .fault ∧ g'.2.look = none)
      (calm [] none sl, k) := by
  refine wp_self hk ?_
  refine wp_call (I := fun _ (g' : Ghost NPROC ι κ × Mark NPROC ι κ) =>
    g'.1 = calm [] none sl ∧ g'.2.doing = some .fault ∧ g'.2.look = none) ?_ fun _ g' h => ?_
  · refine wp_neutral trivial (by simp [hk]) (spec_acquire rfl (by simp)) fun _ => ?_
    refine wp_act (spec_setkilled rfl (by simp) hd) fun _ g' h => ?_
    obtain ⟨g', k'⟩ := g'
    obtain ⟨rfl, h⟩ := h
    exact unlock_wp rfl rfl ⟨rfl, h, rfl⟩
  · obtain ⟨g', k'⟩ := g'
    obtain ⟨rfl, h1, h2⟩ := h
    refine wp_frame_next h2 (all_plain all_killed) (killed_wp (by simp)) fun b => ?_
    unfold whenever
    split_ifs
    · exact wp_mono (frame h2 all_kexit (kexit_wp (Q := fun _ _ => False))) fun _ _ h => h.1.elim
    · exact ⟨rfl, h1, h2⟩

/-! ### Creating and ending processes -/

variable {L : List (Lock NPROC ι κ)} {ch : Option (Chan NPROC ι κ)} {st : PState}

lemma freeproc_wp (ha : st = .used ∧ (∃ b, ow = some (q, b)) ∨ st = .zombie)
    (hk : k.look = some (q, n, b)) :
    kwp initproc t (freeproc q)
      (fun _ g' => g' = (⟨L, .run, some (q, .unused, none), none, none, none, sl⟩, k.see q 0 false))
      (⟨L, .run, some (q, st, ch), none, none, ow, sl⟩, k) := by
  have hrun : st ≠ .running := by rcases ha with ⟨rfl, -⟩ | rfl <;> simp
  have hsleep : st ≠ .sleeping := by rcases ha with ⟨rfl, -⟩ | rfl <;> simp
  refine wp_act (spec_write (.inl ⟨rfl, rfl⟩)
    (spec_setField (fun _ => ⟨rfl, rfl⟩) ⟨rfl, st, ch, rfl, hrun⟩) hk) fun _ g' hg' => ?_
  subst hg'
  refine wp_neutral (by trivial) (by simp [Loses])
    (spec_setField (fun _ => ⟨rfl, rfl⟩) (by trivial)) fun _ => ?_
  refine wp_neutral (by trivial) (by simp [Loses]) (spec_setChan_rest rfl rfl hsleep) fun _ => ?_
  refine wp_act (spec_write (.inr ⟨rfl, rfl, rfl⟩)
    (spec_setField (fun _ => ⟨rfl, rfl⟩) (by trivial)) rfl) fun _ g' hg' => ?_
  subst hg'
  refine wp_neutral (by trivial) (by simp [Loses])
    (spec_setField (fun _ => ⟨rfl, rfl⟩) (by trivial)) fun _ => ?_
  exact wp_perform (spec_slot (.inr rfl) (spec_free rfl rfl ha) rfl)

/-- What `allocproc` knows of the process that it returns locked. -/
def Allocated (sl : List κ) (k : Mark NPROC ι κ) (o : Option (Fin NPROC))
    (g : Ghost NPROC ι κ × Mark NPROC ι κ) : Prop :=
  match o with
  | none => g = (calm [] none sl, k)
  | some np => ∃ ch n, g =
    (⟨[.proc np], .run, some (np, .used, ch), none, none, some (np, true), sl⟩, k.see np n false)

lemma allocpid_wp {r : Option (Fin NPROC × PState × Option (Chan NPROC ι κ))} (hl : .pid ∉ L) :
    kwp initproc t allocpid (fun _ g' => g' = (⟨L, .run, r, none, none, ow, sl⟩, k))
      (⟨L, .run, r, none, none, ow, sl⟩, k) := by
  refine wp_neutral trivial (by simp [Loses]) (spec_acquire rfl hl) fun _ => ?_
  refine wp_neutral trivial (by simp [Loses]) spec_takePid fun pid => ?_
  refine wp_neutral trivial (by simp [Loses]) (spec_release (.inl rfl) (by simp) (by simp) (by simp))
    fun _ => ?_
  exact show _ = _ by rw [List.erase_cons_head]

lemma found_wp (hk : k.look = none) :
    kwp initproc t (found q) (Allocated sl k)
      (⟨[.proc q], .run, some (q, .unused, ch), none, none, none, sl⟩, k.see q n false) := by
  have hblind : ∀ q n b, (k.see q n b).blind = k := fun q n b => by
    simp only [Mark.see, Mark.blind, ← hk]
  refine wp_call (allocpid_wp (by simp)) fun pid g' hg' => ?_
  subst hg'
  refine wp_act (spec_write (.inl ⟨rfl, rfl⟩)
    (spec_setField (fun _ => ⟨rfl, rfl⟩) ⟨rfl, .unused, ch, rfl, by simp⟩) rfl) fun _ g' hg' => ?_
  subst hg'
  refine wp_act (spec_slot (.inl rfl) (spec_take rfl rfl) rfl) fun _ g' hg' => ?_
  subst hg'
  have hgiveUp : kwp initproc t
      ((freeproc q).bind fun _ => (perform (.release (.proc q))).bind fun _ => .ret none)
      (Allocated sl k)
      ((⟨[.proc q], .run, some (q, .used, ch), none, none, some (q, false), sl⟩ : Ghost NPROC ι κ),
        k.see q pid false) := by
    refine wp_call (freeproc_wp (.inl ⟨rfl, false, rfl⟩) rfl) fun _ g' hg' => ?_
    subst hg'
    refine wp_unlock rfl rfl ?_
    exact show _ = _ by rw [show ((k.see q pid false).see q 0 false).blind = k from hblind q 0 false]
  refine wp_neutral trivial (by simp [Loses]) spec_fails fun noFrame => ?_
  cases noFrame with
  | true => exact hgiveUp
  | false =>
    refine wp_neutral trivial (by simp [Loses]) spec_fails fun noTable => ?_
    cases noTable with
    | true => exact hgiveUp
    | false =>
      refine wp_neutral trivial (by simp [Loses]) (spec_initContext rfl rfl rfl) fun _ => ?_
      exact ⟨ch, pid, rfl⟩

lemma allocproc_wp (hk : k.look = none) :
    kwp initproc t allocproc (Allocated sl k) (calm [] none sl, k) := by
  have hblind : ∀ q n b, (k.see q n b).blind = k := fun q n b => by
    simp only [Mark.see, Mark.blind, ← hk]
  refine wp_iterate (fun _ g' => g' = (calm [] none sl, k)) rfl fun ps g' hg' => ?_
  subst hg'
  cases ps with
  | nil => rfl
  | cons q ps =>
    refine wp_neutral trivial (by simp [hk]) (spec_acquire rfl (by simp)) fun _ => ?_
    refine wp_look rfl (by simp) fun pr hpr => ?_
    split_ifs with hun
    · rw [hun, hpr hun]
      exact wp_call (found_wp hk) fun o g' hg' => hg'
    · refine wp_unlock rfl rfl ?_
      rw [hblind]
      exact rfl

lemma kfork_wp (hk : k.look = none) :
    kwp initproc (.proc p : Ctx NPROC NCPU) kfork (fun _ g' => g' = (calm [] none sl, k))
      (calm [] none sl, k) := by
  have hblind : ∀ q n b, (k.see q n b).blind = k := fun q n b => by
    simp only [Mark.see, Mark.blind, ← hk]
  refine wp_self hk ?_
  refine wp_call (allocproc_wp hk) fun o g' hg' => ?_
  cases o with
  | none => exact hg'
  | some np =>
    obtain ⟨ch, n, rfl⟩ := hg'
    refine wp_neutral trivial (by simp [Loses]) spec_fails fun noCopy => ?_
    cases noCopy with
    | true =>
      refine wp_call (freeproc_wp (.inl ⟨rfl, true, rfl⟩) rfl) fun _ g' hg' => ?_
      subst hg'
      refine wp_unlock rfl rfl ?_
      exact show _ = _ by rw [show ((k.see np n false).see np 0 false).blind = k from hblind np 0 false]
    | false =>
      refine wp_neutral trivial (by simp [Loses]) spec_get fun pr => ?_
      refine wp_unlock rfl rfl ?_
      rw [hblind]
      refine wp_neutral trivial (by simp [hk]) (spec_acquire rfl (by simp)) fun _ => ?_
      refine wp_neutral (by trivial) (by simp [hk])
        (spec_setField (fun _ => ⟨rfl, rfl⟩) (by trivial)) fun _ => ?_
      refine wp_neutral trivial (by simp [hk])
        (spec_release (.inl rfl) (by simp) (by simp) (by simp)) fun _ => ?_
      refine wp_neutral trivial (by simp [hk]) (spec_acquire rfl (by simp)) fun _ => ?_
      refine wp_neutral (by trivial) (by simp [hk]) (spec_launch rfl (by simp) rfl) fun _ => ?_
      refine wp_unlock rfl (L := []) (by simp) ?_
      exact show _ = _ by rw [show k.blind = k from by simp only [Mark.blind, ← hk]]

lemma reap_wp {addr : Bool} {pid : ℤ} (hk : k.look = none) :
    kwp initproc t (reap addr q pid) (fun _ g' => g' = (calm [] none sl, k))
      (⟨[.proc q, .wait], .run, some (q, .zombie, ch), none, none, none, sl⟩, k.see q n b) := by
  have hblind : ∀ q n b, (k.see q n b).blind = k := fun q n b => by
    simp only [Mark.see, Mark.blind, ← hk]
  refine wp_neutral trivial (by simp [Loses]) spec_fails fun noCopy => ?_
  split_ifs
  · refine wp_unlock rfl rfl ?_
    rw [hblind]
    refine wp_neutral trivial (by simp [hk])
      (spec_release (.inl rfl) (by simp) (by simp) (by simp)) fun _ => ?_
    exact show _ = _ by rw [List.erase_cons_head]
  · refine wp_call (freeproc_wp (.inr rfl) rfl) fun _ g' hg' => ?_
    subst hg'
    refine wp_unlock rfl rfl ?_
    rw [show ((k.see q n b).see q 0 false).blind = k from hblind q 0 false]
    refine wp_neutral trivial (by simp [hk])
      (spec_release (.inl rfl) (by simp) (by simp) (by simp)) fun _ => ?_
    exact show _ = _ by rw [List.erase_cons_head]

lemma scanKids_wp {addr : Bool} (hk : k.look = none) :
    kwp initproc t (scanKids addr p) (fun o g' => Scanned sl o g'.1 ∧ g'.2 = k)
      (calm [.wait] none sl, k) := by
  have hblind : ∀ q n b, (k.see q n b).blind = k := fun q n b => by
    simp only [Mark.see, Mark.blind, ← hk]
  refine wp_iterate (fun _ g' => g' = (calm [.wait] none sl, k)) rfl fun ps g' hg' => ?_
  subst hg'
  obtain ⟨ps, havekids⟩ := ps
  cases ps with
  | nil => exact ⟨rfl, rfl⟩
  | cons pp ps =>
    refine wp_neutral trivial (by simp [hk]) spec_get fun pr => ?_
    split_ifs
    · refine wp_neutral trivial (by simp [hk]) (spec_acquire rfl (by simp)) fun _ => ?_
      refine wp_look rfl (by simp) fun pr' _ => ?_
      split_ifs with hz
      · rw [hz]
        refine wp_call (reap_wp hk) fun r g' hg' => ?_
        subst hg'
        exact ⟨rfl, rfl⟩
      · refine wp_unlock rfl rfl ?_
        rw [hblind]
        exact rfl
    · rfl

lemma kwait_wp {addr : Bool} (hk : k.look = none) :
    kwp initproc (.proc p : Ctx NPROC NCPU) (kwait addr) (fun _ g' => g' = (calm [] none sl, k))
      (calm [] none sl, k) := by
  refine wp_self hk ?_
  refine wp_neutral trivial (by simp [hk]) (spec_acquire rfl (by simp)) fun _ => ?_
  refine wp_iterate (fun _ g' => g' = (calm [.wait] none sl, k)) rfl fun _ g' hg' => ?_
  subst hg'
  refine wp_call (scanKids_wp hk) fun o g' h => ?_
  obtain ⟨havekids, o⟩ := o
  obtain ⟨g', k'⟩ := g'
  obtain ⟨hs, hk'⟩ := h
  obtain rfl : g' = _ := hs
  obtain rfl : k' = k := hk'
  cases o with
  | some n => cases havekids <;> rfl
  | none =>
    cases havekids with
    | false =>
      refine wp_neutral trivial (by simp [hk])
        (spec_release (.inl rfl) (by simp) (by simp) (by simp)) fun _ => ?_
      exact show _ = _ by rw [List.erase_cons_head]
    | true =>
      refine wp_frame_next hk (all_plain all_killed) (killed_wp (by simp)) fun b => ?_
      cases b with
      | true =>
        refine wp_neutral trivial (by simp [hk])
          (spec_release (.inl rfl) (by simp) (by simp) (by simp)) fun _ => ?_
        exact show _ = _ by rw [List.erase_cons_head]
      | false => exact wp_frame_next hk all_sleep (sleep_wp (.inl ⟨p, rfl⟩)) fun _ => rfl

/-! ### Calls -/

/-- What is known when a call begins. -/
def begun (req : Option (Request ι κ)) : Mark NPROC ι κ := ⟨req, [], none⟩

/-- What is known when a call has returned `v`: a kill that returned 0 has hit the one process
of its pid, any other nobody. -/
def Returned (_ : Fin NPROC) (v : ℤ) (k : Mark NPROC ι κ) : Prop :=
  k.look = none ∧ ∀ pid, k.doing = some (.kill pid) →
    v = 0 ∧ (∃ q st, st ≠ .unused ∧ k.hits = [(q, pid, st)]) ∨ v = -1 ∧ k.hits = []

section Calls

variable {s s' : St NPROC NCPU ι κ} {h : History NPROC ι κ} {μ : Ctx NPROC NCPU → Mark NPROC ι κ}

omit [DecidableEq ι] [DecidableEq κ] in
lemma Inv.call (hi : Inv s h μ) (p : Fin NPROC) (req : Option (Request ι κ)) :
    Inv s (onCall p req h) (Function.update μ (.proc p) (begun req)) := by
  refine ⟨fun p' => ?_, fun p' => ?_, fun u q n b hu => ?_, hi.unused, hi.cause⟩
  · by_cases hp : p' = p
    · subst hp; simp [onCall, begun]
    · simp [onCall, hp, hi.serving]
  · by_cases hp : p' = p
    · subst hp; simp [onCall, begun]
    · simp [onCall, hp, hi.hits]
  · by_cases hut : u = .proc p
    · subst hut; simp [begun] at hu
    · rw [Function.update_of_ne hut] at hu
      exact hi.look u q n b hu

omit [DecidableEq ι] [DecidableEq κ] in
lemma Inv.congr (hi : Inv s h μ) (hp : s'.proc = s.proc) (hl : s'.lock = s.lock)
    (hr : running s' = running s) : Inv s' h μ := by
  refine ⟨hi.serving, hi.hits, fun t q n b hu => ?_, fun q => ?_, fun q => ?_⟩
  · obtain ⟨h1, h2⟩ := hi.look t q n b hu
    rw [hp]
    exact ⟨h1.congr hl hr, h2⟩
  · rw [hp]; exact hi.unused q
  · rw [hp]; exact hi.cause q

omit [DecidableEq ι] [DecidableEq κ] in
/-- A thread that may be interrupted holds no lock. -/
lemma Inv.idle {γ : Ctx NPROC NCPU → Ghost NPROC ι κ} {c : Fin NCPU} (hi : Protocol.Inv s γ)
    (hj : Inv s h μ) (hint : intr s c = true) : (μ (running s c)).look = none := by
  by_contra hne
  obtain ⟨⟨q, n, b⟩, hlook⟩ := Option.ne_none_iff_exists'.mp hne
  obtain ⟨⟨c', hc', hl⟩, -⟩ := hj.look _ q n b hlook
  rw [hi.cpus.inj hc'] at hl
  have := (hi.cpus.held c _).mp hl
  rw [hi.cpus.intr c hint] at this
  cases this

end Calls

lemma serve_wp (req : Request ι κ) :
    kwp initproc (.proc p : Ctx NPROC NCPU) (serve initproc req)
      (Done Returned (.proc p : Ctx NPROC NCPU)) (calm [] none sl, begun (some req)) := by
  have hdone : ∀ v (g' : Ghost NPROC ι κ × Mark NPROC ι κ), (∃ sl, g'.1 = calm [] none sl) →
      Returned p v g'.2 → Done Returned (.proc p : Ctx NPROC NCPU) v g' := fun v g' hg hr =>
    ⟨.inr hg, fun q hq => by cases hq; exact hr⟩
  have hother : ∀ v, (∀ pid, req ≠ .kill pid) →
      Returned p v (begun (some req) : Mark NPROC ι κ) := fun v hne =>
    ⟨rfl, fun pid hp => absurd (Option.some.inj hp) (hne pid)⟩
  cases req with
  | fork =>
    refine wp_mono (kfork_wp rfl) fun v g' hg' => hdone v g' ?_ ?_
    · rw [hg']; exact ⟨sl, rfl⟩
    · rw [hg']; exact hother v (by simp)
  | exit status =>
    exact wp_call (frame rfl all_kexit (kexit_wp (Q := fun _ _ => False))) fun _ _ h => h.1.elim
  | wait addr =>
    refine wp_mono (kwait_wp rfl) fun v g' hg' => hdone v g' ?_ ?_
    · rw [hg']; exact ⟨sl, rfl⟩
    · rw [hg']; exact hother v (by simp)
  | kill pid =>
    refine wp_mono (kkill_wp rfl rfl rfl) fun v g' ⟨h1, h2⟩ => hdone v g' ⟨sl, h1⟩ ?_
    rcases h2 with ⟨rfl, q, st, hst, h2⟩ | ⟨rfl, h2⟩
    · rw [h2]
      refine ⟨rfl, fun pid' hp => .inl ⟨rfl, q, st, hst, ?_⟩⟩
      cases hp
      rfl
    · rw [h2]
      exact ⟨rfl, fun _ _ => .inr ⟨rfl, rfl⟩⟩
  | fault =>
    refine wp_call (fault_wp rfl rfl) fun _ g' ⟨h1, h2, h3⟩ => hdone 0 g' ⟨sl, h1⟩ ?_
    exact ⟨h3, fun pid hp => by rw [h2] at hp; cases hp⟩
  | other cs h =>
    refine wp_call (frame rfl (all_runCmds cs h []) (runCmds_wp List.nil_subperm))
      fun _ g' ⟨h1, h2⟩ => hdone 0 g' h1 ?_
    rw [h2]
    exact hother 0 (by simp)

lemma tolerant : Tolerant initproc (sparing initproc NCPU) onCall
    (@Inv NPROC NCPU ι κ) May (fun k => k.look = none) Returned where
  plain t a g k Q ha hk hs := spec_neutral (neutral_of_plain ha) (by simp [hk]) hs
  congr s s' h c hj := hj.congr
  idle s γ h c k hi hj := Inv.idle hi hj
  start s h c p hj _ := ⟨begun none, rfl, ⟨rfl, by simp [begun]⟩, hj.call p none⟩
  serve s h c p v req hj _ := ⟨begun (some req), hj.call p (some req), fun sl => serve_wp req⟩

lemma enters : ((proto initproc).extend (sparing initproc NCPU) (Inv (ι := ι) (κ := κ)) May).Enters
    (Done Returned) :=
  tolerant.enters rfl

lemma follows_boot (cond : ι → Bool) :
    ((proto initproc).extend (sparing initproc NCPU) (Inv (κ := κ)) May).Follows (Done Returned)
      (boot initproc NCPU cond) := by
  refine tolerant.follows_boot (k := begun none) rfl (fun p => ⟨rfl, by simp [begun]⟩) ?_
  refine ⟨fun p => rfl, fun p => rfl, fun t q n b h => (by cases h), fun q _ => ?_, fun q hq => ?_⟩
  · simp only [Kernel.boot]
    split_ifs <;> rfl
  · simp only [Kernel.boot] at hq
    split_ifs at hq

/-! ### Whom kills hit -/

/-- What holds of kills at every point of a run. -/
structure Sound (c : Pool (St NPROC NCPU ι κ × History NPROC ι κ) (Ctx NPROC NCPU)
    (Act NPROC ι κ) Res ℤ) : Prop where
  /-- A `kkill` that has returned 0 has set `killed` of one process, which was not `UNUSED` and
  had the pid; one that has returned -1 has not set it at all. -/
  result : ∀ p pid v, c.thread (.proc p) = .ret v → c.shared.2.serving p = some (.kill pid) →
    v = 0 ∧ (∃ q st, st ≠ .unused ∧ c.shared.2.hits p = [(q, pid, st)]) ∨
      v = -1 ∧ c.shared.2.hits p = []
  /-- A process is killed in consequence of a kill that named its pid after its creation, or of
  its own `setkilled`. -/
  cause : ∀ q, (c.shared.1.proc q).killed = true →
    (c.shared.1.proc q).state ≠ .unused ∧ c.shared.2.cause q = true
  /-- A slot is given to a new process with `killed` reset. -/
  newborn : ∀ t q, Performs c t (.set q (.state .used)) → (c.shared.1.proc q).killed = false

/-- Two processes on one CPU, after boot. -/
def pair : Pool (St 2 1 (Fin 1) (Fin 1) × History 2 (Fin 1) (Fin 1)) (Ctx 2 1)
    (Act 2 (Fin 1) (Fin 1)) Res ℤ :=
  boot 0 1 fun _ => false

end Xv6.Sched.Kill
