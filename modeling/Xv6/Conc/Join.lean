import Xv6.Conc.Extend

/-!
Two kinds of actions on two kinds of state, side by side. Programs that know the first kind
only run in the joint system unchanged.
-/

namespace Xv6.Conc

open Prog

variable {σ D T C E A B : Type} {R : A → Type} {R' : B → Type} {α β : Type}

/-- The results of actions of either kind. -/
@[reducible] def Both (R : A → Type) (R' : B → Type) : A ⊕ B → Type
  | .inl a => R a
  | .inr b => R' b

namespace Prog

variable {δ : Type}

/-- A program of actions of the first kind. -/
def left : {α : Type} → Prog A R α → Prog (A ⊕ B) (Both R R') α
  | _, .ret a => .ret a
  | _, .act a k => .act (.inl a) fun r => left (k r)
  | _, .loop b body k => .loop b (fun x => left (body x)) fun d => left (k d)

@[simp] lemma left_ret (a : α) : (left (.ret a : Prog A R α) : Prog (A ⊕ B) (Both R R') α) =
    .ret a := rfl

@[simp] lemma left_bind (p : Prog A R α) (f : α → Prog A R β) :
    (left (p.bind f) : Prog (A ⊕ B) (Both R R') β) = (left p).bind fun a => left (f a) := by
  induction p with
  | ret a => rfl
  | act a k ih =>
    simp only [act_bind, left]
    exact congrArg _ (funext fun r => ih r f)
  | loop b body k _ ihk =>
    simp only [loop_bind, left]
    exact congrArg _ (funext fun d => ihk d f)

lemma all_left {N : A ⊕ B → Prop} {p : Prog A R α} :
    (left p : Prog (A ⊕ B) (Both R R') α).All N ↔ p.All fun a => N (.inl a) := by
  induction p with
  | ret a => exact Iff.rfl
  | act a k ih => exact and_congr Iff.rfl (forall_congr' fun r => ih r)
  | loop b body k ihb ihk =>
    exact and_congr (forall_congr' fun b => ihb b) (forall_congr' fun d => ihk d)

/-- The program that performs one action of the second kind. -/
def right (b : B) : Prog (A ⊕ B) (Both R R') (R' b) := .act (.inr b) .ret

lemma all_right {N : A ⊕ B → Prop} {b : B} :
    (right b : Prog (A ⊕ B) (Both R R') (R' b)).All N ↔ N (.inr b) := by
  simp [right]

end Prog

/-- The system `S` beside a state `D` on which the actions `B` work, each with a choice of the
environment of its own. -/
def Sys.join (S : Sys σ T C A R α) (dev : T → (b : B) → E → D → Option (D × R' b)) :
    Sys (σ × D) T (C × E) (A ⊕ B) (Both R R') β where
  sem t a c s := match a with
    | .inl a => (S.sem t a c.1 s.1).map fun
      | .ok s' r => .ok (s', s.2) r
      | .panic msg => .panic msg
    | .inr b => (dev t b c.2 s.2).map fun x => .ok (s.1, x.1) x.2
  enter _ _ _ _ _ := False

variable {S : Sys σ T C A R α} {dev : T → (b : B) → E → D → Option (D × R' b)} {t : T}
  {c : C × E} {s s' : σ × D}

lemma join_left {a : A} {r : R a} :
    (S.join (β := β) dev).sem t (.inl a) c s = some (.ok s' r) ↔
      S.sem t a c.1 s.1 = some (.ok s'.1 r) ∧ s'.2 = s.2 := by
  obtain ⟨s₁, d₁⟩ := s'
  simp only [Sys.join, Option.map_eq_some_iff]
  constructor
  · rintro ⟨o, ho, h⟩
    cases o with
    | ok s₂ r₂ => cases h; exact ⟨ho, rfl⟩
    | panic msg => cases h
  · rintro ⟨h, hd⟩
    exact ⟨_, h, by rw [← hd]⟩

lemma join_right {b : B} {r : R' b} :
    (S.join (β := β) dev).sem t (.inr b) c s = some (.ok s' r) ↔
      dev t b c.2 s.2 = some (s'.2, r) ∧ s'.1 = s.1 := by
  obtain ⟨s₁, d₁⟩ := s'
  simp only [Sys.join, Option.map_eq_some_iff]
  constructor
  · rintro ⟨⟨d, r₂⟩, hd, h⟩
    cases h
    exact ⟨hd, rfl⟩
  · rintro ⟨h, hs⟩
    exact ⟨_, h, by rw [← hs]⟩

namespace Proto

variable [DecidableEq T] {S : Sys σ T C (A ⊕ B) (Both R R') α} {P : Proto S} {δ ε : Type}
  {Q : δ → P.Ghost → Prop} {g : P.Ghost}

/-- The rule for an action of the first kind with a continuation. -/
lemma wp_left {a : A} {f : R a → Prog A R δ} {I : R a → P.Ghost → Prop}
    (h : P.Spec t (.inl a) g I) (hf : ∀ r g', I r g' → P.wp t (left (f r)) Q g') :
    P.wp t (left ((perform a).bind f)) Q g :=
  Spec.mono h hf

lemma wp_left_perform {a : A} {Q : R a → P.Ghost → Prop} (h : P.Spec t (.inl a) g Q) :
    P.wp t (left (perform a)) Q g := h

lemma wp_right {b : B} {f : R' b → Prog (A ⊕ B) (Both R R') δ} {I : R' b → P.Ghost → Prop}
    (h : P.Spec t (.inr b) g I) (hf : ∀ r g', I r g' → P.wp t (f r) Q g') :
    P.wp t ((right b).bind f) Q g :=
  Spec.mono h hf

lemma wp_left_iterate {b : ε} {body : ε → Prog A R (ε ⊕ δ)} (I : ε → P.Ghost → Prop)
    (h0 : I b g) (h : ∀ b' g', I b' g' → P.wp t (left (body b')) (fun r g'' => match r with
      | .inl b'' => I b'' g''
      | .inr d => Q d g'') g') : P.wp t (left (iterate b body)) Q g := by
  change P.wp t (iterate b fun x => left (body x)) Q g
  refine wp_iterate I h0 fun b' g' hg' => wp_mono (h b' g' hg') fun r g'' hr => ?_
  cases r with
  | inl b'' => exact hr
  | inr d => exact hr

lemma wp_left_call {p : Prog A R ε} {f : ε → Prog A R δ} {I : ε → P.Ghost → Prop}
    (h : P.wp t (left p) I g) (hf : ∀ a g', I a g' → P.wp t (left (f a)) Q g') :
    P.wp t (left (p.bind f)) Q g := by
  rw [left_bind]
  exact wp_call h hf

end Proto

end Xv6.Conc
