import Mathlib.Algebra.BigOperators.Group.Finset.Basic
import Mathlib.Algebra.Order.BigOperators.Group.Multiset
import Mathlib.Data.Multiset.Basic
import Mathlib.Tactic

/-!
Things that are in use exactly when they have an owner, and have one owner at most.
-/

namespace Xv6.Data.Owner

variable {ι β : Type} [DecidableEq ι] [DecidableEq β]

/-- What is marked as used among the things `dom` is what `own` gives to someone, once. -/
structure Owns (dom : β → Prop) (used : β → Bool) (own : ι → Multiset β) : Prop where
  nodup : ∀ i, (own i).Nodup
  one : ∀ i j b, b ∈ own i → b ∈ own j → i = j
  used : ∀ b, dom b → (used b = true ↔ ∃ i, b ∈ own i)
  dom : ∀ i b, b ∈ own i → dom b

variable {dom : β → Prop} {used : β → Bool} {own : ι → Multiset β} {b : β} {i j : ι}
  {m : Multiset β}

omit [DecidableEq ι] [DecidableEq β] in
lemma Owns.not_mem (h : Owns dom used own) (hb : dom b) (hu : used b = false) (i : ι) :
    b ∉ own i := by
  intro hi
  have := (h.used b hb).mpr ⟨i, hi⟩
  rw [hu] at this
  cases this

/-- Something that is not used is given to `i`. -/
theorem Owns.alloc (h : Owns dom used own) (hb : dom b) (hu : used b = false) (i : ι) :
    Owns dom (Function.update used b true) (Function.update own i (b ::ₘ own i)) := by
  have hnot := h.not_mem hb hu
  have hmem : ∀ k x, x ∈ Function.update own i (b ::ₘ own i) k ↔ x ∈ own k ∨ k = i ∧ x = b := by
    intro k x
    by_cases hk : k = i
    · subst hk
      simp [or_comm]
    · simp [hk]
  refine ⟨fun k => ?_, fun k l x hx hy => ?_, fun x hx => ?_, fun k x hx => ?_⟩
  · by_cases hk : k = i
    · subst hk
      rw [Function.update_self, Multiset.nodup_cons]
      exact ⟨hnot k, h.nodup k⟩
    · rw [Function.update_of_ne hk]
      exact h.nodup k
  · rcases (hmem k x).mp hx with hx' | ⟨rfl, rfl⟩
    · rcases (hmem l x).mp hy with hy' | ⟨rfl, rfl⟩
      · exact h.one k l x hx' hy'
      · exact absurd hx' (hnot k)
    · rcases (hmem l x).mp hy with hy' | ⟨rfl, -⟩
      · exact absurd hy' (hnot l)
      · rfl
  · by_cases hxb : x = b
    · subst hxb
      simp only [Function.update_self, true_iff]
      exact ⟨i, (hmem i x).mpr (.inr ⟨rfl, rfl⟩)⟩
    · rw [Function.update_of_ne hxb, h.used x hx]
      refine exists_congr fun k => ?_
      rw [hmem k x]
      simp [hxb]
  · rcases (hmem k x).mp hx with hx | ⟨-, rfl⟩
    · exact h.dom k x hx
    · exact hb

/-- Something is taken from `i` and is not used any more. -/
theorem Owns.free (h : Owns dom used own) (hb : b ∈ own i) :
    Owns dom (Function.update used b false) (Function.update own i ((own i).erase b)) := by
  have hmem : ∀ k x, x ∈ Function.update own i ((own i).erase b) k ↔ x ∈ own k ∧ x ≠ b := by
    intro k x
    by_cases hk : k = i
    · subst hk
      rw [Function.update_self, (h.nodup k).mem_erase_iff]
      exact and_comm
    · rw [Function.update_of_ne hk]
      refine ⟨fun hx => ⟨hx, ?_⟩, fun hx => hx.1⟩
      rintro rfl
      exact hk (h.one k i x hx hb)
  refine ⟨fun k => ?_, fun k l x hx hy => ?_, fun x hx => ?_, fun k x hx => ?_⟩
  · by_cases hk : k = i
    · subst hk
      rw [Function.update_self]
      exact (h.nodup k).erase b
    · rw [Function.update_of_ne hk]
      exact h.nodup k
  · exact h.one k l x ((hmem k x).mp hx).1 ((hmem l x).mp hy).1
  · by_cases hxb : x = b
    · subst hxb
      simp only [Function.update_self, Bool.false_eq_true, false_iff, not_exists]
      exact fun k hk => ((hmem k x).mp hk).2 rfl
    · rw [Function.update_of_ne hxb, h.used x hx]
      refine exists_congr fun k => ?_
      rw [hmem k x]
      simp [hxb]
  · exact h.dom k x ((hmem k x).mp hx).1

omit [DecidableEq β] in
/-- Some of what `i` has is given to `j`. -/
theorem Owns.give (h : Owns dom used own) (hij : i ≠ j) {m' : Multiset β} (hm : own i = m + m') :
    Owns dom used (Function.update (Function.update own i m) j (m' + own j)) := by
  have hnod := h.nodup i
  rw [hm] at hnod
  obtain ⟨h1, h2, h3⟩ := Multiset.nodup_add.mp hnod
  have hin : ∀ x, x ∈ own i ↔ x ∈ m ∨ x ∈ m' := by
    intro x
    rw [hm, Multiset.mem_add]
  have hdis : ∀ x, x ∈ m → x ∉ m' := fun x hx hx' => Multiset.disjoint_left.mp h3 hx hx'
  have hmem : ∀ k x, x ∈ Function.update (Function.update own i m) j (m' + own j) k ↔
      (k = j ∧ x ∈ m') ∨ (x ∈ own k ∧ (k = i → x ∉ m')) := by
    intro k x
    by_cases hk : k = j
    · subst hk
      simp [Ne.symm hij]
    · by_cases hki : k = i
      · subst hki
        simp only [Function.update_of_ne hk, Function.update_self, hk, false_and, false_or, hin,
          forall_const]
        refine ⟨fun hx => ⟨.inl hx, hdis x hx⟩, fun hx => hx.1.resolve_right hx.2⟩
      · simp [hk, hki]
  refine ⟨fun k => ?_, fun k l x hx hy => ?_, fun x hx => ?_, fun k x hx => ?_⟩
  · by_cases hk : k = j
    · subst hk
      rw [Function.update_self, Multiset.nodup_add]
      refine ⟨h2, h.nodup k, Multiset.disjoint_left.mpr ?_⟩
      intro x hx hx'
      exact hij (h.one i k x ((hin x).mpr (.inr hx)) hx')
    · by_cases hki : k = i
      · subst hki
        rw [Function.update_of_ne hk, Function.update_self]
        exact h1
      · rw [Function.update_of_ne hk, Function.update_of_ne hki]
        exact h.nodup k
  · have hi' : ∀ k, k ≠ i → x ∈ own k → x ∉ m' := fun k hk hx hx' =>
      hk (h.one k i x hx ((hin x).mpr (.inr hx')))
    rcases (hmem k x).mp hx with ⟨rfl, hxm⟩ | ⟨hxk, hk⟩
    · rcases (hmem l x).mp hy with ⟨rfl, -⟩ | ⟨hyl, hl⟩
      · rfl
      · by_cases hli : l = i
        · exact absurd hxm (hl hli)
        · exact absurd hxm (hi' l hli hyl)
    · rcases (hmem l x).mp hy with ⟨rfl, hym⟩ | ⟨hyl, -⟩
      · by_cases hki : k = i
        · exact absurd hym (hk hki)
        · exact absurd hym (hi' k hki hxk)
      · exact h.one k l x hxk hyl
  · rw [h.used x hx]
    constructor
    · rintro ⟨k, hk⟩
      by_cases hxm : x ∈ m'
      · exact ⟨j, (hmem j x).mpr (.inl ⟨rfl, hxm⟩)⟩
      · exact ⟨k, (hmem k x).mpr (.inr ⟨hk, fun _ => hxm⟩)⟩
    · rintro ⟨k, hk⟩
      rcases (hmem k x).mp hk with ⟨-, hx⟩ | ⟨hx, -⟩
      · exact ⟨i, (hin x).mpr (.inr hx)⟩
      · exact ⟨k, hx⟩
  · rcases (hmem k x).mp hx with ⟨-, hx⟩ | ⟨hx, -⟩
    · exact h.dom i x ((hin x).mpr (.inr hx))
    · exact h.dom k x hx

end Xv6.Data.Owner
