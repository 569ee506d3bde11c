import Xv6.Conc.Prog

/-!
One thread that runs alone: what its program comes to, whatever the environment chooses.
-/

namespace Xv6.Conc.Alone

open Xv6.Conc Xv6.Conc.Prog

variable {σ T C A : Type} {R : A → Type} {α β δ ω : Type}

/-- Thread `t` comes to the end of `x` from `s`, unless it panics as `may` allows, and then `Q`
holds of what it returns and of the state. It never waits for another. -/
inductive Does (S : Sys σ T C A R ω) (may : String → Prop) (t : T) (Q : α → σ → Prop) :
    Prog A R α → σ → Prop
  | ret {a : α} {s : σ} (h : Q a s) : Does S may t Q (.ret a) s
  | act {a : A} {k : R a → Prog A R α} {s : σ} (ready : ∃ c, (S.sem t a c s).isSome)
      (panics : ∀ c msg, S.sem t a c s = some (.panic msg) → may msg)
      (next : ∀ c s' r, S.sem t a c s = some (.ok s' r) → Does S may t Q (k r) s') :
      Does S may t Q (.act a k) s
  | loop {β δ : Type} {b : β} {body : β → Prog A R (β ⊕ δ)} {k : δ → Prog A R α} {s : σ}
      (h : Does S may t Q (unroll b body k) s) : Does S may t Q (.loop b body k) s

variable {S : Sys σ T C A R ω} {may may' : String → Prop} {t : T} {s s' : σ} {Q Q' : β → σ → Prop}
  {x : Prog A R β}

lemma bind_bind {γ ε : Type} {x : Prog A R γ} (f : γ → Prog A R β) (g : β → Prog A R ε) :
    Prog.bind (Prog.bind x f) g = Prog.bind x fun a => Prog.bind (f a) g := by
  induction x with
  | ret a => rfl
  | act a k ih => simp only [act_bind, ih]
  | loop b body k _ ih => simp only [loop_bind, ih]

/-- What follows a loop follows its first round. -/
lemma bind_unroll {γ ε : Type} (b : γ) (body : γ → Prog A R (γ ⊕ ε)) (k : ε → Prog A R β)
    (f : β → Prog A R δ) :
    Prog.bind (unroll b body k) f = unroll b body fun d => Prog.bind (k d) f := by
  unfold unroll
  rw [bind_bind]
  congr 1
  funext r
  cases r with
  | inl b' => rfl
  | inr d => rfl

namespace Does

lemma mono (h : Does S may t Q x s) (hm : ∀ msg, may msg → may' msg)
    (hQ : ∀ a s', Q a s' → Q' a s') : Does S may' t Q' x s := by
  induction h with
  | ret h => exact .ret (hQ _ _ h)
  | act ready panics _ ih => exact .act ready (fun c msg h => hm msg (panics c msg h)) ih
  | loop _ ih => exact .loop ih

lemma imp (h : Does S may t Q x s) (hQ : ∀ a s', Q a s' → Q' a s') : Does S may t Q' x s :=
  h.mono (fun _ h => h) hQ

/-- What is known of `x` is used for what follows it. -/
lemma bind {f : β → Prog A R δ} {Q' : δ → σ → Prop} (h : Does S may t Q x s)
    (hf : ∀ a s', Q a s' → Does S may t Q' (f a) s') : Does S may t Q' (Prog.bind x f) s := by
  induction h with
  | ret h => exact hf _ _ h
  | act ready panics _ ih => exact .act ready panics ih
  | @loop _ _ b body k s _ ih =>
    rw [bind_unroll] at ih
    exact .loop ih

/-- One action. -/
lemma perform {a : A} {Q : R a → σ → Prop} (ready : ∃ c, (S.sem t a c s).isSome)
    (panics : ∀ c msg, S.sem t a c s = some (.panic msg) → may msg)
    (next : ∀ c s' r, S.sem t a c s = some (.ok s' r) → Q r s') :
    Does S may t Q (Prog.perform a) s :=
  .act ready panics fun c s' r h => .ret (next c s' r h)

/-- A loop whose rounds keep `Inv` and bring `size` down. -/
lemma iterate {γ : Type} {body : γ → Prog A R (γ ⊕ β)} (Inv : γ → σ → Prop) (size : γ → ℕ)
    (step : ∀ b s, Inv b s → Does S may t (fun r s' =>
      (∀ b', r = .inl b' → Inv b' s' ∧ size b' < size b) ∧ ∀ d, r = .inr d → Q d s') (body b) s)
    {b : γ} (h : Inv b s) : Does S may t Q (Prog.iterate b body) s := by
  induction hn : size b using Nat.strong_induction_on generalizing b s with
  | _ n ih =>
    subst hn
    refine .loop ((step b s h).bind fun r s' hr => ?_)
    cases r with
    | inl b' =>
      obtain ⟨h1, h2⟩ := hr.1 b' rfl
      exact ih (size b') h2 h1 rfl
    | inr d => exact .ret (hr.2 d rfl)

/-! ### Runs -/

/-- What holds of a thread that runs alone holds after each of its steps. -/
lemma step {x x' : Prog A R ω} {Q : ω → σ → Prop} (h : Does S may t Q x s)
    (hn : Next S t s x s' x') : Does S may t Q x' s' := by
  cases hn with
  | act c hs =>
    cases h with
    | act _ _ next => exact next _ _ _ hs
  | loop b body k =>
    cases h with
    | loop h => exact h

/-- **A thread that runs alone** does what is said of it: wherever it has got to, it panics as
allowed only, and when it has returned `Q` holds. -/
theorem sound {x x' : Prog A R ω} {Q : ω → σ → Prop} (h : Does S may t Q x s)
    (hr : Relation.ReflTransGen (fun a b => Next S t a.1 a.2 b.1 b.2) (s, x) (s', x')) :
    (∀ a, value x' = some a → Q a s') ∧ ∀ msg, Panics S t s' x' msg → may msg := by
  have hdoes : Does S may t Q x' s' := by
    generalize hb : (s', x') = b at hr
    induction hr generalizing s' x' with
    | refl =>
      obtain ⟨rfl, rfl⟩ := Prod.mk.inj hb
      exact h
    | tail _ hn ih =>
      subst hb
      exact (ih rfl).step hn
  refine ⟨fun a ha => ?_, fun msg ⟨a, k, c, hx, hs⟩ => ?_⟩
  · cases eq_ret_of_value ha
    cases hdoes with
    | ret h => exact h
  · subst hx
    cases hdoes with
    | act _ panics _ => exact panics c msg hs

/-- It does return. -/
theorem returns [DecidableEq T] {c : Pool σ T A R ω} {Q : ω → σ → Prop}
    (h : Does S (fun _ => False) t Q (c.thread t) c.shared) : ∃ s' a,
      Reach S c ⟨s', Function.update c.thread t (.ret a)⟩ ∧ Q a s' := by
  obtain ⟨s, th⟩ := c
  change Does S _ t Q (th t) s at h
  generalize hx : th t = x at h
  induction h generalizing th with
  | @ret a s h =>
    refine ⟨s, a, ?_, h⟩
    rw [← hx, Function.update_eq_self]
    exact .refl
  | @act a k s ready panics _ ih =>
    obtain ⟨ch, hs⟩ := ready
    obtain ⟨o, ho⟩ := Option.isSome_iff_exists.mp hs
    cases o with
    | panic msg => exact (panics ch msg ho).elim
    | ok s' r =>
      obtain ⟨s'', b, hr, hq⟩ := ih ch s' r ho (Function.update th t (k r)) (by simp)
      rw [Function.update_idem] at hr
      exact ⟨s'', b, hr.head (.run t (by simpa only [hx] using Next.act ch ho)), hq⟩
  | @loop _ _ b body k s _ ih =>
    obtain ⟨s'', d, hr, hq⟩ := ih (Function.update th t (unroll b body k)) (by simp)
    rw [Function.update_idem] at hr
    exact ⟨s'', d, hr.head (.run t (by simpa only [hx] using Next.loop b body k)), hq⟩

end Does

end Xv6.Conc.Alone
