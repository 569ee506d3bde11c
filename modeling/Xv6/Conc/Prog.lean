import Mathlib.Logic.Function.Basic
import Mathlib.Logic.Relation
import Mathlib.Tactic

/-!
Programs as trees of atomic actions, and the interleaved runs of a pool of them.

A program either returns, performs an action and goes on with its result, or runs a loop
body on a local value again and again until the body leaves the loop. Threads share one state; a step lets one thread perform its
next action. Threads may also be given new work from outside (a call, an interrupt).
-/

namespace Xv6.Conc

/-- What performing an action comes to: a new state and a result, or a panic. -/
inductive Outcome (σ ρ : Type)
  | ok (s : σ) (r : ρ)
  | panic (msg : String)

inductive Prog (A : Type) (R : A → Type) : Type → Type 1
  | ret {α : Type} (a : α) : Prog A R α
  | act {α : Type} (a : A) (k : R a → Prog A R α) : Prog A R α
  | loop {α β δ : Type} (b : β) (body : β → Prog A R (β ⊕ δ)) (k : δ → Prog A R α) : Prog A R α

namespace Prog

variable {A : Type} {R : A → Type} {α β δ ε : Type}

def bind : {α : Type} → Prog A R α → (α → Prog A R β) → Prog A R β
  | _, .ret a, f => f a
  | _, .act a k, f => .act a fun r => bind (k r) f
  | _, .loop b body k, f => .loop b body fun d => bind (k d) f

instance : Monad (Prog A R) where
  pure := .ret
  bind := bind

/-- The program that performs one action and returns its result. -/
def perform (a : A) : Prog A R (R a) := .act a .ret

/-- Run `body` on `b`, then on each value it hands on, until it yields a result. -/
def iterate (b : β) (body : β → Prog A R (β ⊕ δ)) : Prog A R δ := .loop b body .ret

/-- One round of a loop, followed by the rest of the loop or by what comes after it. -/
def unroll (b : β) (body : β → Prog A R (β ⊕ δ)) (k : δ → Prog A R α) : Prog A R α :=
  bind (body b) fun r => match r with
    | .inl b' => .loop b' body k
    | .inr d => k d

/-- What a program that is over has returned. -/
def value : Prog A R α → Option α
  | .ret a => some a
  | _ => none

lemma eq_ret_of_value {x : Prog A R α} {a : α} (h : value x = some a) : x = .ret a := by
  cases x with
  | ret b => cases h; rfl
  | _ => cases h

@[simp] lemma pure_eq (a : α) : (pure a : Prog A R α) = .ret a := rfl

@[simp] lemma bind_eq (p : Prog A R α) (f : α → Prog A R β) : (p >>= f) = bind p f := rfl

@[simp] lemma ret_bind (a : α) (f : α → Prog A R β) : bind (.ret a) f = f a := rfl

@[simp] lemma act_bind (a : A) (k : R a → Prog A R α) (f : α → Prog A R β) :
    bind (.act a k) f = .act a fun r => bind (k r) f := rfl

@[simp] lemma loop_bind (b : ε) (body : ε → Prog A R (ε ⊕ δ)) (k : δ → Prog A R α)
    (f : α → Prog A R β) : bind (.loop b body k) f = .loop b body fun d => bind (k d) f := rfl

end Prog

open Prog

/-- A system of threads `T` over a shared state `σ`. `sem t a c s` is what thread `t` makes of
the action `a` in state `s` when the environment chooses `c`, and `none` if it must wait.
`enter` says which new work a thread may be given. -/
structure Sys (σ T C A : Type) (R : A → Type) (α : Type) where
  sem : T → (a : A) → C → σ → Option (Outcome σ (R a))
  enter : T → σ → Prog A R α → σ → Prog A R α → Prop

/-- A shared state and the program each thread has still to run. -/
structure Pool (σ T A : Type) (R : A → Type) (α : Type) where
  shared : σ
  thread : T → Prog A R α

section Steps

variable {σ T C A : Type} {R : A → Type} {α : Type} [DecidableEq T] (S : Sys σ T C A R α)

/-- Thread `t` performs its next action, or opens the loop it stands at. -/
inductive Next (t : T) : σ → Prog A R α → σ → Prog A R α → Prop
  | act {s s' : σ} {a : A} {k : R a → Prog A R α} (c : C) {r : R a}
      (h : S.sem t a c s = some (.ok s' r)) : Next t s (.act a k) s' (k r)
  | loop {s : σ} {β δ : Type} (b : β) (body : β → Prog A R (β ⊕ δ)) (k : δ → Prog A R α) :
      Next t s (.loop b body k) s (unroll b body k)

/-- Thread `t` is about to perform `a`. -/
def Performs (c : Pool σ T A R α) (t : T) (a : A) : Prop :=
  ∃ k : R a → Prog A R α, c.thread t = .act a k

/-- The next action of thread `t` may panic with `msg`. -/
def Panics (t : T) (s : σ) (p : Prog A R α) (msg : String) : Prop :=
  ∃ (a : A) (k : R a → Prog A R α) (c : C), p = .act a k ∧ S.sem t a c s = some (.panic msg)

inductive Step : Pool σ T A R α → Pool σ T A R α → Prop
  | run {c : Pool σ T A R α} (t : T) {s : σ} {p : Prog A R α}
      (h : Next S t c.shared (c.thread t) s p) : Step c ⟨s, Function.update c.thread t p⟩
  | enter {c : Pool σ T A R α} (t : T) {s : σ} {p : Prog A R α}
      (h : S.enter t c.shared (c.thread t) s p) : Step c ⟨s, Function.update c.thread t p⟩

/-- There is a run from `c` to `c'`. -/
def Reach (c c' : Pool σ T A R α) : Prop := Relation.ReflTransGen (Step S) c c'

/-- The system whose actions are performed only where `cond` allows them: its runs are the
runs of `S` in which every step meets `cond`. -/
def Sys.restrict (cond : T → A → σ → Prop) [∀ t a s, Decidable (cond t a s)] :
    Sys σ T C A R α where
  sem t a c s := if cond t a s then S.sem t a c s else none
  enter := S.enter

variable {S} {cond : T → A → σ → Prop} [∀ t a s, Decidable (cond t a s)]

omit [DecidableEq T] in
lemma restrict_sem {t : T} {a : A} {c : C} {s : σ} {o : Outcome σ (R a)} :
    (S.restrict cond).sem t a c s = some o ↔ cond t a s ∧ S.sem t a c s = some o := by
  simp only [Sys.restrict]
  split_ifs with h
  · simp [h]
  · simp [h]

lemma Step.of_restrict {c c' : Pool σ T A R α} (h : Step (S.restrict cond) c c') :
    Step S c c' := by
  cases h with
  | run t h =>
    refine .run t ?_
    generalize c.thread t = p at h
    cases h with
    | act ch h => exact .act ch (restrict_sem.mp h).2
    | loop b body k => exact .loop b body k
  | enter t h => exact .enter t h

lemma Reach.of_restrict {c c' : Pool σ T A R α} (h : Reach (S.restrict cond) c c') :
    Reach S c c' :=
  h.lift id fun _ _ => Step.of_restrict

omit [DecidableEq T] in
/-- A restricted system panics where the system does and the condition is met. -/
lemma panics_restrict {t : T} {s : σ} {p : Prog A R α} {msg : String} :
    Panics (S.restrict cond) t s p msg ↔ ∃ (a : A) (k : R a → Prog A R α) (ch : C),
      p = .act a k ∧ cond t a s ∧ S.sem t a ch s = some (.panic msg) := by
  simp only [Panics, restrict_sem]

/-! ### Histories -/

section Observe

variable {H : Type} (f : T → (a : A) → R a → σ → H → H)

/-- The system with a history, which `f` brings up to date at every action and which no action
depends on. It sees the result of the action and the state before it. -/
def Sys.observe (S : Sys σ T C A R α) : Sys (σ × H) T C A R α where
  sem t a c s := match S.sem t a c s.1 with
    | some (.ok s' r) => some (.ok (s', f t a r s.1 s.2) r)
    | some (.panic msg) => some (.panic msg)
    | none => none
  enter t s p s' p' := S.enter t s.1 p s'.1 p' ∧ s'.2 = s.2

variable {f}

omit [DecidableEq T] in
lemma observe_ok {t : T} {a : A} {c : C} {s s' : σ × H} {r : R a} :
    (S.observe f).sem t a c s = some (.ok s' r) ↔
      S.sem t a c s.1 = some (.ok s'.1 r) ∧ s'.2 = f t a r s.1 s.2 := by
  obtain ⟨s1', h'⟩ := s'
  simp only [Sys.observe]
  split
  · rename_i s1 r1 hs
    simp only [hs, Option.some.injEq, Outcome.ok.injEq, Prod.mk.injEq]
    constructor
    · rintro ⟨⟨h1, h2⟩, rfl⟩
      exact ⟨⟨h1, rfl⟩, h2.symm⟩
    · rintro ⟨⟨h1, rfl⟩, h2⟩
      exact ⟨⟨h1, h2.symm⟩, rfl⟩
  · rename_i hs; simp [hs]
  · rename_i hs; simp [hs]

omit [DecidableEq T] in
lemma observe_panic {t : T} {a : A} {c : C} {s : σ × H} {msg : String} :
    (S.observe f).sem t a c s = some (.panic msg) ↔ S.sem t a c s.1 = some (.panic msg) := by
  simp only [Sys.observe]
  split <;> rename_i hs <;> simp [hs]

/-- Every run has its history. -/
lemma exists_observe {c c' : Pool σ T A R α} (h : Reach S c c') (o : H) : ∃ o',
    Reach (S.observe f) ⟨(c.shared, o), c.thread⟩ ⟨(c'.shared, o'), c'.thread⟩ := by
  induction h with
  | refl => exact ⟨o, .refl⟩
  | @tail b d _ hs ih =>
    obtain ⟨o₁, hr⟩ := ih
    cases hs with
    | run t hn =>
      generalize hp : b.thread t = q at hn
      cases hn with
      | @act _ a k ch r hsem =>
        refine ⟨f t a r b.shared o₁, hr.tail (.run t ?_)⟩
        rw [hp]
        exact .act ch (observe_ok.mpr ⟨hsem, rfl⟩)
      | loop v body k =>
        refine ⟨o₁, hr.tail (.run t ?_)⟩
        rw [hp]
        exact .loop v body k
    | enter t hn => exact ⟨o₁, hr.tail (.enter t ⟨hn, rfl⟩)⟩

end Observe

end Steps

/-! ### Scheduling threads by hand -/

section Schedule

variable {σ T C A : Type} {R : A → Type} {α : Type} [DecidableEq T] (S : Sys σ T C A R α)

/-- Let thread `t` take `n` steps, the environment always choosing `c`. -/
def advance (t : T) (c : C) : ℕ → σ → Prog A R α → Option (σ × Prog A R α)
  | 0, s, p => some (s, p)
  | _ + 1, _, .ret _ => none
  | n + 1, s, .act a k =>
    match S.sem t a c s with
    | some (.ok s' r) => advance t c n s' (k r)
    | _ => none
  | n + 1, s, .loop b body k => advance t c n s (unroll b body k)

/-- Let the threads listed take so many steps each, one after the other. -/
def schedule : List (T × C × ℕ) → Pool σ T A R α → Option (Pool σ T A R α)
  | [], c => some c
  | (t, ch, n) :: sch, c =>
    match advance S t ch n c.shared (c.thread t) with
    | some (s, p) => schedule sch ⟨s, Function.update c.thread t p⟩
    | none => none

/-- The panic, if any, that the next action of thread `t` ends in. -/
def panicNow (t : T) (ch : C) (c : Pool σ T A R α) : Option String :=
  match c.thread t with
  | .act a _ => match S.sem t a ch c.shared with
    | some (.panic msg) => some msg
    | _ => none
  | _ => none

variable {S}

lemma Reach.run {c c' : Pool σ T A R α} {t : T} {s : σ} {p : Prog A R α}
    (h : Next S t c.shared (c.thread t) s p)
    (hr : Reach S ⟨s, Function.update c.thread t p⟩ c') : Reach S c c' :=
  .head (.run t h) hr

lemma reach_of_advance {t : T} {ch : C} {n : ℕ} {s s' : σ} {p p' : Prog A R α}
    (h : advance S t ch n s p = some (s', p')) (th : T → Prog A R α) (hp : th t = p) :
    Reach S ⟨s, th⟩ ⟨s', Function.update th t p'⟩ := by
  induction n generalizing p s th with
  | zero =>
    simp only [advance, Option.some.injEq, Prod.mk.injEq] at h
    obtain ⟨rfl, rfl⟩ := h
    rw [← hp, Function.update_eq_self]
    exact .refl
  | succ n ih =>
    cases p with
    | ret b => simp [advance] at h
    | act b k =>
      rw [advance] at h
      split at h
      · rename_i s1 r hs
        have := ih h (Function.update th t (k r)) (by simp)
        rw [Function.update_idem] at this
        exact Reach.run (t := t) (by simpa only [hp] using Next.act ch hs) this
      · cases h
    | loop b body k =>
      rw [advance] at h
      have := ih h (Function.update th t (unroll b body k)) (by simp)
      rw [Function.update_idem] at this
      exact Reach.run (t := t) (by simpa only [hp] using Next.loop b body k) this

/-- What a schedule arrives at is reached by a run. -/
theorem reach_of_schedule {sch : List (T × C × ℕ)} {c c' : Pool σ T A R α}
    (h : schedule S sch c = some c') : Reach S c c' := by
  induction sch generalizing c with
  | nil => cases h; exact .refl
  | cons x sch ih =>
    obtain ⟨t, ch, n⟩ := x
    rw [schedule] at h
    split at h
    · rename_i s p hs
      exact .trans (reach_of_advance hs c.thread rfl) (ih h)
    · cases h

variable (S) in
/-- A run to where a schedule arrives, with what `f` shows there. -/
lemma exists_of_schedule {β : Type} (f : Pool σ T A R α → β) (c : Pool σ T A R α)
    (sch : List (T × C × ℕ)) {b : β} (h : (schedule S sch c).map f = some b) :
    ∃ c', Reach S c c' ∧ f c' = b := by
  obtain ⟨c', hc, hb⟩ := Option.map_eq_some_iff.mp h
  exact ⟨c', reach_of_schedule hc, hb⟩

omit [DecidableEq T] in
lemma panics_of_panicNow {t : T} {ch : C} {c : Pool σ T A R α} {msg : String}
    (h : panicNow S t ch c = some msg) : Panics S t c.shared (c.thread t) msg := by
  unfold panicNow at h
  split at h
  · rename_i a k hp
    split at h
    · rename_i m hs
      cases h
      exact ⟨a, k, ch, hp, hs⟩
    · cases h
  · cases h

end Schedule

end Xv6.Conc
