import Xv6.Conc.Proto

/-!
Knowing more. A protocol is extended by a history, by more knowledge of each thread and by a
relation of both to what the protocol says already. A program none of whose actions touches
what is new follows the extension because it follows the protocol.
-/

namespace Xv6.Conc

open Prog

variable {σ T C A : Type} {R : A → Type} {α : Type}

namespace Prog

/-- Every action that a program may perform satisfies `N`. -/
def All (N : A → Prop) : {α : Type} → Prog A R α → Prop
  | _, .ret _ => True
  | _, .act a k => N a ∧ ∀ r, All N (k r)
  | _, .loop _ body k => (∀ b, All N (body b)) ∧ ∀ d, All N (k d)

variable {N : A → Prop} {β δ : Type}

@[simp] lemma all_ret (a : α) : All N (.ret a : Prog A R α) := trivial

@[simp] lemma all_act {a : A} {k : R a → Prog A R α} :
    All N (.act a k) ↔ N a ∧ ∀ r, All N (k r) := Iff.rfl

@[simp] lemma all_perform {a : A} : All N (perform a : Prog A R (R a)) ↔ N a := by
  simp [perform]

@[simp] lemma all_iterate {b : β} {body : β → Prog A R (β ⊕ δ)} :
    All N (iterate b body) ↔ ∀ b, All N (body b) := by
  simp [iterate, All]

lemma all_bind {p : Prog A R β} {f : β → Prog A R δ} (hp : All N p) (hf : ∀ a, All N (f a)) :
    All N (p.bind f) := by
  induction p with
  | ret a => exact hf a
  | act a k ih => exact ⟨hp.1, fun r => ih r (hp.2 r) hf⟩
  | loop b body k _ ihk => exact ⟨hp.1, fun d => ihk d (hp.2 d) hf⟩

lemma all_then {a : A} {f : R a → Prog A R δ} (ha : N a) (hf : ∀ r, All N (f r)) :
    All N ((perform a).bind f) := ⟨ha, hf⟩

lemma all_ite {c : Prop} [Decidable c] {x y : Prog A R α} (hx : All N x) (hy : All N y) :
    All N (if c then x else y) := by
  split_ifs
  · exact hx
  · exact hy

lemma All.mono {M : A → Prop} (h : ∀ a, N a → M a) {p : Prog A R β} (hp : All N p) : All M p := by
  induction p with
  | ret a => trivial
  | act a k ih => exact ⟨h a hp.1, fun r => ih r (hp.2 r)⟩
  | loop b body k ihb ihk => exact ⟨fun b => ihb b (hp.1 b), fun d => ihk d (hp.2 d)⟩

end Prog

/-- The same actions, with new work of another kind. -/
def Sys.reenter {β : Type} (S : Sys σ T C A R α)
    (E : T → σ → Prog A R β → σ → Prog A R β → Prop) : Sys σ T C A R β :=
  ⟨S.sem, E⟩

/-- `S'` is `S` with the history `f`; it may allow fewer steps. -/
def Tracks {H β : Type} (S : Sys σ T C A R α) (S' : Sys (σ × H) T C A R β)
    (f : T → (a : A) → R a → σ → H → H) : Prop :=
  ∀ t a c s h o, S'.sem t a c (s, h) = some o → match o with
    | .ok s' r => S.sem t a c s = some (.ok s'.1 r) ∧ s'.2 = f t a r s h
    | .panic msg => S.sem t a c s = some (.panic msg)

section Tracks

variable {H β : Type} {S : Sys σ T C A R α} {f : T → (a : A) → R a → σ → H → H}

lemma tracks_observe {E : T → σ × H → Prog A R β → σ × H → Prog A R β → Prop} :
    Tracks S ((S.observe f).reenter E) f := by
  intro t a c s h o ho
  cases o with
  | ok s' r => exact observe_ok.mp ho
  | panic msg => exact observe_panic.mp ho

lemma Tracks.restrict {S' : Sys (σ × H) T C A R β} (hS : Tracks S S' f)
    {cond : T → A → σ × H → Prop} [∀ t a s, Decidable (cond t a s)] :
    Tracks S (S'.restrict cond) f :=
  fun t a c s h o ho => hS t a c s h o (restrict_sem.mp ho).2

end Tracks

namespace Proto

variable [DecidableEq T] {H β K : Type} {S : Sys σ T C A R α}

/-- The protocol `P` extended by what is known of each thread, `K`, which `J` relates to the
state and the history; `M` adds to what a thread may do. -/
def extend (P : Proto S) (S' : Sys (σ × H) T C A R β)
    (J : σ → H → (T → K) → Prop) (M : A → P.Ghost → K → Prop) : Proto S' where
  Ghost := P.Ghost × K
  Inv s γ := P.Inv s.1 (fun t => (γ t).1) ∧ J s.1 s.2 fun t => (γ t).2
  May a g := P.May a g.1 ∧ M a g.1 g.2
  Ok := P.Ok

variable {P : Proto S} {S' : Sys (σ × H) T C A R β} {f : T → (a : A) → R a → σ → H → H}
  {J : σ → H → (T → K) → Prop} {M : A → P.Ghost → K → Prop} {t : T}

lemma update_fst {G : Type} {γ : T → G × K} {g : G} {k : K} :
    (fun u => (Function.update γ t (g, k) u).1) = Function.update (fun u => (γ u).1) t g := by
  funext u
  by_cases hu : u = t
  · subst hu; simp
  · simp [hu]

lemma update_snd {G : Type} {γ : T → G × K} {g : G} {k : K} :
    (fun u => (Function.update γ t (g, k) u).2) = Function.update (fun u => (γ u).2) t k := by
  funext u
  by_cases hu : u = t
  · subst hu; simp
  · simp [hu]

/-- A specification in the extension, from one of the protocol and what the action does to
what is new. -/
lemma Spec.extend (hS : Tracks S S' f) {a : A} {g : P.Ghost} {k : K} {Q : R a → P.Ghost → Prop}
    {Q' : R a → P.Ghost × K → Prop} (h : P.Spec t a g Q) (hm : M a g k)
    (hJ : ∀ s o γ κ c s' r g', P.Inv s γ → J s o κ → γ t = g → κ t = k →
      S'.sem t a c (s, o) = some (.ok (s', f t a r s o) r) → S.sem t a c s = some (.ok s' r) →
      P.Inv s' (Function.update γ t g') → Q r g' →
      ∃ k', J s' (f t a r s o) (Function.update κ t k') ∧ Q' r (g', k')) :
    (P.extend S' J M).Spec t a (g, k) Q' := by
  refine ⟨⟨h.1, hm⟩, fun ⟨s, o⟩ γ c ⟨hi, hj⟩ hg x hx => ?_⟩
  have htr := hS t a c s o x hx
  have hg1 : (γ t).1 = g := congrArg Prod.fst hg
  have hg2 : (γ t).2 = k := congrArg Prod.snd hg
  cases x with
  | panic msg => exact h.2 s _ c hi hg1 _ htr
  | ok s' r =>
    obtain ⟨s', o'⟩ := s'
    obtain ⟨hsem, ho⟩ := htr
    simp only at hsem ho
    subst ho
    obtain ⟨g', hi', hq⟩ := h.2 s _ c hi hg1 _ hsem
    obtain ⟨k', hj', hq'⟩ := hJ s o _ _ c s' r g' hi hj hg1 hg2 hx hsem hi' hq
    refine ⟨(g', k'), ?_, hq'⟩
    change T → P.Ghost × K at γ
    rw [← update_fst (k := k')] at hi'
    rw [← update_snd (g := g')] at hj'
    exact ⟨hi', hj'⟩

/-- **Framing**: a program follows the extension if each of its actions keeps what is new. -/
theorem wp_frame {N : A → Prop} {k : K}
    (hN : ∀ a g Q, N a → P.Spec t a g Q →
      (P.extend S' J M).Spec t a (g, k) fun r g' => Q r g'.1 ∧ g'.2 = k)
    {δ : Type} {p : Prog A R δ} (hp : p.All N) {Q : δ → P.Ghost → Prop} {g : P.Ghost}
    (h : P.wp t p Q g) :
    (P.extend S' J M).wp t p (fun r g' => Q r g'.1 ∧ g'.2 = k) (g, k) := by
  induction p generalizing g with
  | ret a => exact ⟨h, rfl⟩
  | act a c ih =>
    refine Spec.mono (hN a g _ hp.1 h) fun r g' ⟨hw, hk⟩ => ?_
    obtain ⟨g', k'⟩ := g'
    subst hk
    exact ih r (hp.2 r) hw
  | loop b body c ihb ihc =>
    obtain ⟨I, h0, h1⟩ := h
    refine ⟨fun b g' => I b g'.1 ∧ g'.2 = k, ⟨h0, rfl⟩, fun b' g' ⟨hg', hk⟩ => ?_⟩
    obtain ⟨g', k'⟩ := g'
    subst hk
    refine wp_mono (ihb b' (hp.1 b') (h1 b' g' hg')) fun r g'' hr => ?_
    obtain ⟨g'', k''⟩ := g''
    obtain ⟨hr, rfl⟩ := hr
    cases r with
    | inl b'' => exact ⟨hr, rfl⟩
    | inr d => exact ihc d (hp.2 d) hr

end Proto

end Xv6.Conc
