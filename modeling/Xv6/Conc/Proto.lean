import Xv6.Conc.Prog

/-!
Protocols: invariants of a pool of threads, proved one action at a time.

A protocol gives every thread a ghost value and states an invariant of the shared state and
all ghost values. A thread is followed through its program by `wp`: each action is performed
in any state that satisfies the invariant and must reestablish it, changing no ghost value
but the thread's own. Then the invariant holds in every state of every interleaved run.
-/

namespace Xv6.Conc

open Prog

variable {σ T C A : Type} {R : A → Type} {α : Type} [DecidableEq T]

structure Proto (S : Sys σ T C A R α) where
  Ghost : Type
  Inv : σ → (T → Ghost) → Prop
  /-- The actions a thread may be about to perform. -/
  May : A → Ghost → Prop
  /-- The panics that the protocol tolerates. -/
  Ok : String → Prop

namespace Proto

variable {S : Sys σ T C A R α} (P : Proto S)

/-- Thread `t` may perform `a` from the ghost value `g`: no panic but a tolerated one, and
any result `r` leaves the invariant with a ghost value that satisfies `Q r`. -/
def Spec (t : T) (a : A) (g : P.Ghost) (Q : R a → P.Ghost → Prop) : Prop :=
  P.May a g ∧ ∀ s γ c, P.Inv s γ → γ t = g → ∀ o, S.sem t a c s = some o → match o with
    | .panic msg => P.Ok msg
    | .ok s' r => ∃ g', P.Inv s' (Function.update γ t g') ∧ Q r g'

/-- What thread `t` still has to run keeps the invariant, and it ends with `Q`. -/
def wp (t : T) : {β : Type} → Prog A R β → (β → P.Ghost → Prop) → P.Ghost → Prop
  | _, .ret a, Q, g => Q a g
  | _, .act a k, Q, g => P.Spec t a g fun r g' => wp t (k r) Q g'
  | _, .loop (β := β) b body k, Q, g => ∃ I : β → P.Ghost → Prop, I b g ∧ ∀ b' g', I b' g' →
      wp t (body b') (fun r g'' => match r with
        | .inl b'' => I b'' g''
        | .inr d => wp t (k d) Q g'') g'

variable {P} {t : T}

lemma Spec.mono {a : A} {g : P.Ghost} {Q Q' : R a → P.Ghost → Prop} (h : P.Spec t a g Q)
    (hQ : ∀ r g', Q r g' → Q' r g') : P.Spec t a g Q' := by
  refine ⟨h.1, fun s γ c hi hg o ho => ?_⟩
  have := h.2 s γ c hi hg o ho
  cases o with
  | ok s' r => exact this.imp fun g' hg' => ⟨hg'.1, hQ r g' hg'.2⟩
  | panic msg => exact this

lemma update_of_eq {G : Type} {γ : T → G} {g : G} (h : γ t = g) : Function.update γ t g = γ := by
  rw [← h, Function.update_eq_self]

/-- A specification from a step lemma and a panic lemma, `f` giving the new ghost value. -/
lemma Spec.of_step {a : A} {g : P.Ghost} {f : R a → P.Ghost} (hm : P.May a g)
    (hok : ∀ s γ c s' r, P.Inv s γ → γ t = g → S.sem t a c s = some (.ok s' r) →
      P.Inv s' (Function.update γ t (f r)))
    (hpanic : ∀ s γ c msg, P.Inv s γ → γ t = g → S.sem t a c s = some (.panic msg) → P.Ok msg) :
    P.Spec t a g fun r g' => g' = f r := by
  refine ⟨hm, fun s γ c hi hg o ho => ?_⟩
  cases o with
  | ok s' r => exact ⟨f r, hok s γ c s' r hi hg ho, rfl⟩
  | panic msg => exact hpanic s γ c msg hi hg ho

@[simp] lemma wp_ret {β : Type} (a : β) (Q : β → P.Ghost → Prop) (g : P.Ghost) :
    P.wp t (.ret a) Q g ↔ Q a g := Iff.rfl

lemma wp_perform {a : A} {Q : R a → P.Ghost → Prop} {g : P.Ghost} (h : P.Spec t a g Q) :
    P.wp t (perform a) Q g := h

/-- The rule for an action with a continuation. -/
lemma wp_act {β : Type} {a : A} {f : R a → Prog A R β} {Q : β → P.Ghost → Prop} {g : P.Ghost}
    {I : R a → P.Ghost → Prop} (h : P.Spec t a g I)
    (hf : ∀ r g', I r g' → P.wp t (f r) Q g') : P.wp t ((perform a).bind f) Q g :=
  Spec.mono h hf

/-- The rule for loops, with an invariant of the local value and the ghost value. -/
lemma wp_iterate {β δ : Type} {b : β} {body : β → Prog A R (β ⊕ δ)}
    {Q : δ → P.Ghost → Prop} {g : P.Ghost} (I : β → P.Ghost → Prop) (h0 : I b g)
    (h : ∀ b' g', I b' g' → P.wp t (body b') (fun r g'' => match r with
      | .inl b'' => I b'' g''
      | .inr d => Q d g'') g') : P.wp t (iterate b body) Q g :=
  ⟨I, h0, h⟩

lemma wp_mono {β : Type} {p : Prog A R β} {Q Q' : β → P.Ghost → Prop} {g : P.Ghost}
    (h : P.wp t p Q g) (hQ : ∀ a g', Q a g' → Q' a g') : P.wp t p Q' g := by
  induction p generalizing g with
  | ret a => exact hQ a g h
  | act a k ih => exact Spec.mono h fun r g' hk => ih r hk hQ
  | loop b body k ihb ihk =>
    obtain ⟨I, h0, h1⟩ := h
    refine ⟨I, h0, fun b' g' hg' => ihb b' (h1 b' g' hg') fun r g'' hr => ?_⟩
    cases r with
    | inl b'' => exact hr
    | inr d => exact ihk d hr hQ

lemma wp_bind {β δ : Type} {p : Prog A R β} {f : β → Prog A R δ} {Q : δ → P.Ghost → Prop}
    {g : P.Ghost} (h : P.wp t p (fun a g' => P.wp t (f a) Q g') g) :
    P.wp t (p.bind f) Q g := by
  induction p generalizing g with
  | ret a => exact h
  | act a k ih => exact Spec.mono h fun r g' hk => ih r hk
  | loop b body k ihb ihk =>
    obtain ⟨I, h0, h1⟩ := h
    refine ⟨I, h0, fun b' g' hg' => wp_mono (h1 b' g' hg') fun r g'' hr => ?_⟩
    cases r with
    | inl b'' => exact hr
    | inr d => exact ihk d hr

/-- Following `p` by a specification of it already proved. -/
lemma wp_call {β δ : Type} {p : Prog A R β} {f : β → Prog A R δ} {Q : δ → P.Ghost → Prop}
    {I : β → P.Ghost → Prop} {g : P.Ghost} (h : P.wp t p I g)
    (hf : ∀ a g', I a g' → P.wp t (f a) Q g') : P.wp t (p.bind f) Q g :=
  wp_bind (wp_mono h hf)

lemma wp_unroll {β δ ε : Type} {b : ε} {body : ε → Prog A R (ε ⊕ δ)} {k : δ → Prog A R β}
    {Q : β → P.Ghost → Prop} {g : P.Ghost} (h : P.wp t (.loop b body k) Q g) :
    P.wp t (unroll b body k) Q g := by
  obtain ⟨I, h0, h1⟩ := h
  refine wp_bind (wp_mono (h1 b g h0) fun r g' hr => ?_)
  cases r with
  | inl b' => exact ⟨I, hr, h1⟩
  | inr d => exact hr

/-! ### Soundness -/

/-- The pool is within the protocol: some ghost values satisfy the invariant and account for
what every thread has still to run. -/
def Follows (P : Proto S) (Q : T → α → P.Ghost → Prop) (c : Pool σ T A R α) : Prop :=
  ∃ γ, P.Inv c.shared γ ∧ ∀ t, P.wp t (c.thread t) (Q t) (γ t)

/-- New work keeps a thread within the protocol. -/
def Enters (P : Proto S) (Q : T → α → P.Ghost → Prop) : Prop :=
  ∀ t s γ p s' p', P.Inv s γ → P.wp t p (Q t) (γ t) → S.enter t s p s' p' →
    ∃ g', P.Inv s' (Function.update γ t g') ∧ P.wp t p' (Q t) g'

variable {Q : T → α → P.Ghost → Prop}

lemma follows_update {c : Pool σ T A R α} {γ : T → P.Ghost} (t : T) {s : σ}
    {p : Prog A R α} {g : P.Ghost} (hw : ∀ u, P.wp u (c.thread u) (Q u) (γ u))
    (hi : P.Inv s (Function.update γ t g)) (hp : P.wp t p (Q t) g) :
    P.Follows Q ⟨s, Function.update c.thread t p⟩ := by
  refine ⟨_, hi, fun u => ?_⟩
  by_cases hu : u = t
  · subst hu; simpa using hp
  · simpa [Function.update_of_ne hu] using hw u

lemma follows_step (he : P.Enters Q) {c c' : Pool σ T A R α} (hf : P.Follows Q c)
    (hs : Step S c c') : P.Follows Q c' := by
  obtain ⟨γ, hi, hw⟩ := hf
  cases hs with
  | run t h =>
    have ht := hw t
    generalize c.thread t = p at h ht
    cases h with
    | act c' h =>
      obtain ⟨g', hi', hk⟩ := ht.2 _ _ _ hi rfl _ h
      exact follows_update t hw hi' hk
    | loop b body k =>
      have hi' : P.Inv c.shared (Function.update γ t (γ t)) := by
        rwa [Function.update_eq_self]
      exact follows_update t hw hi' (wp_unroll ht)
  | enter t h =>
    obtain ⟨g', hi', hp⟩ := he t _ _ _ _ _ hi (hw t) h
    exact follows_update t hw hi' hp

/-- **Soundness**: every state of every run is within the protocol. -/
theorem follows_reach (he : P.Enters Q) {c c' : Pool σ T A R α} (hf : P.Follows Q c)
    (hr : Reach S c c') : P.Follows Q c' := by
  induction hr with
  | refl => exact hf
  | tail _ hs ih => exact follows_step he ih hs

/-- A pool within the protocol panics only as tolerated. -/
theorem panics_ok {c : Pool σ T A R α} (hf : P.Follows Q c) {t : T} {msg : String}
    (h : Panics S t c.shared (c.thread t) msg) : P.Ok msg := by
  obtain ⟨γ, hi, hw⟩ := hf
  obtain ⟨a, k, ch, hp, hs⟩ := h
  have ht := hw t
  rw [hp] at ht
  exact ht.2 _ _ _ hi rfl _ hs

/-- A thread about to perform an action may do so by its ghost value. -/
lemma follows_may {c : Pool σ T A R α} (hf : P.Follows Q c) :
    ∃ γ, P.Inv c.shared γ ∧ ∀ t a, Performs c t a → P.May a (γ t) := by
  obtain ⟨γ, hi, hw⟩ := hf
  refine ⟨γ, hi, fun t a ⟨k, hk⟩ => ?_⟩
  have ht := hw t
  rw [hk] at ht
  exact ht.1

/-- A thread that has returned has its postcondition. -/
lemma follows_ret {c : Pool σ T A R α} (hf : P.Follows Q c) :
    ∃ γ, P.Inv c.shared γ ∧ ∀ t a, c.thread t = .ret a → Q t a (γ t) := by
  obtain ⟨γ, hi, hw⟩ := hf
  exact ⟨γ, hi, fun t a ht => by simpa [ht] using hw t⟩

end Proto

end Xv6.Conc
