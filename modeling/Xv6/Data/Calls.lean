import Xv6.Data.Effect

/-!
One call after another, and the rule for what a run of them comes to.
-/

namespace Xv6.Data.Calls

open Xv6.Data.Effect Xv6.Data.Effect.Eff

variable {σ ι α : Type} {f : ι → Eff σ α} {may : String → Prop}

/-- The calls `is`, with their answers. -/
def calls (f : ι → Eff σ α) : List ι → Eff σ (List α)
  | [] => pure []
  | i :: is => do
    let a ← f i
    let as ← calls f is
    pure (a :: as)

/-- An invariant that every call keeps holds after a run, and what the calls come to one by one adds
up to what the run comes to. -/
theorem wp_calls {I : σ → Prop} {Q : σ → ι → α → σ → Prop} {R : σ → List ι → List α → σ → Prop}
    (hstep : ∀ s i, I s → wp may (f i) (fun a s' => I s' ∧ Q s i a s') s)
    (hnil : ∀ s, I s → R s [] [] s)
    (hcons : ∀ s i a s' is as s'', I s → I s' → Q s i a s' → R s' is as s'' →
      R s (i :: is) (a :: as) s'')
    (is : List ι) (s : σ) (h : I s) : wp may (calls f is) (fun as s' => I s' ∧ R s is as s') s := by
  induction is generalizing s with
  | nil =>
    rw [calls, wp_pure]
    exact ⟨h, hnil s h⟩
  | cons i is ih =>
    rw [calls]
    refine wp_call (hstep s i h) fun a s1 h1 => ?_
    refine wp_call (ih s1 h1.1) fun as s2 h2 => ?_
    rw [wp_pure]
    exact ⟨h2.1, hcons s i a s1 is as s2 h h1.1 h1.2 h2.2⟩

end Xv6.Data.Calls
