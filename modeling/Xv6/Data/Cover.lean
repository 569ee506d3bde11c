import Mathlib.Algebra.BigOperators.Group.Finset.Basic
import Mathlib.Algebra.BigOperators.Group.Multiset.Basic
import Mathlib.Tactic

/-!
Ranges counted at each number they hold: an unordered cover of numbers by ranges.
-/

namespace Xv6.Data.Cover

variable {α : Type} (lo len : α → ℕ)

/-- `x` is in the range of `r`. -/
def Holds (x : ℕ) (r : α) : Prop := lo r ≤ x ∧ x < lo r + len r

instance (x : ℕ) (r : α) : Decidable (Holds lo len x r) := inferInstanceAs (Decidable (_ ∧ _))

/-- In how many of the ranges `x` is. -/
def cover (s : Multiset α) (x : ℕ) : ℕ := (s.map fun r => if Holds lo len x r then 1 else 0).sum

/-- The lengths together. -/
def total (s : Multiset α) : ℕ := (s.map len).sum

variable {lo len} {s t : Multiset α} {b c : α} {x N : ℕ}

@[simp] lemma cover_zero : cover lo len 0 x = 0 := rfl

@[simp] lemma cover_cons :
    cover lo len (b ::ₘ s) x = (if Holds lo len x b then 1 else 0) + cover lo len s x := by
  unfold cover
  rw [Multiset.map_cons, Multiset.sum_cons]

@[simp] lemma cover_add : cover lo len (s + t) x = cover lo len s x + cover lo len t x := by
  unfold cover
  rw [Multiset.map_add, Multiset.sum_add]

@[simp] lemma total_zero : total len 0 = 0 := rfl

@[simp] lemma total_cons : total len (b ::ₘ s) = len b + total len s := by
  unfold total
  rw [Multiset.map_cons, Multiset.sum_cons]

@[simp] lemma total_add : total len (s + t) = total len s + total len t := by
  unfold total
  rw [Multiset.map_add, Multiset.sum_add]

lemma one_le_cover (hb : b ∈ s) (hx : Holds lo len x b) : 1 ≤ cover lo len s x := by
  obtain ⟨t, rfl⟩ := Multiset.exists_cons_of_mem hb
  rw [cover_cons, if_pos hx]
  omega

lemma exists_of_cover (h : 0 < cover lo len s x) : ∃ b ∈ s, Holds lo len x b := by
  by_contra hne
  push Not at hne
  have hzero : cover lo len s x = 0 := by
    unfold cover
    rw [Multiset.sum_eq_zero_iff]
    intro n hn
    obtain ⟨r, hr, rfl⟩ := Multiset.mem_map.mp hn
    exact if_neg (hne r hr)
  omega

/-- A number of a range that is covered once is in no other range. -/
lemma not_holds (h : cover lo len (b ::ₘ s) x ≤ 1) (hb : Holds lo len x b) (hc : c ∈ s) :
    ¬Holds lo len x c := by
  intro hx
  have hone := one_le_cover hc hx
  rw [cover_cons, if_pos hb] at h
  omega

/-- Of two ranges that share nothing, the one that starts first ends before the other starts. -/
lemma apart (h : ∀ x, cover lo len (b ::ₘ s) x ≤ 1) (hc : c ∈ s) (hb : 0 < len b)
    (hpos : 0 < len c) :
    lo b ≠ lo c ∧ (lo b < lo c → lo b + len b ≤ lo c) ∧ (lo c < lo b → lo c + len c ≤ lo b) := by
  have hstart : Holds lo len (lo c) c := ⟨le_rfl, by omega⟩
  have hstart' : Holds lo len (lo b) b := ⟨le_rfl, by omega⟩
  have h1 : ¬Holds lo len (lo c) b := fun hx => not_holds (h _) hx hc hstart
  have h2 : ¬Holds lo len (lo b) c := not_holds (h _) hstart' hc
  unfold Holds at h1 h2
  refine ⟨fun heq => ?_, fun hlt => ?_, fun hlt => ?_⟩
  · omega
  · omega
  · omega

/-- A range counts where its two parts do. -/
lemma holds_split {b₁ b₂ : α} (hlo : lo b₁ = lo b) (hlo' : lo b₂ = lo b + len b₁)
    (hlen : len b₁ + len b₂ = len b) :
    (if Holds lo len x b then 1 else 0) =
      (if Holds lo len x b₁ then 1 else 0) + if Holds lo len x b₂ then 1 else 0 := by
  have hor : Holds lo len x b ↔ Holds lo len x b₁ ∨ Holds lo len x b₂ := by
    unfold Holds
    omega
  have hand : ¬(Holds lo len x b₁ ∧ Holds lo len x b₂) := by
    unfold Holds
    omega
  by_cases h1 : Holds lo len x b₁
  · rw [if_pos h1, if_neg fun h2 => hand ⟨h1, h2⟩, if_pos (hor.mpr (.inl h1))]
  · by_cases h2 : Holds lo len x b₂
    · rw [if_neg h1, if_pos h2, if_pos (hor.mpr (.inr h2))]
    · rw [if_neg h1, if_neg h2, if_neg fun h => (hor.mp h).elim h1 h2]

/-- **Double counting**: the lengths are how often numbers are covered. -/
theorem sum_cover (h : ∀ r ∈ s, lo r + len r ≤ N) :
    ∑ x ∈ Finset.range N, cover lo len s x = total len s := by
  induction s using Multiset.induction_on with
  | empty => simp
  | cons r s ih =>
    have hone : ∑ x ∈ Finset.range N, (if Holds lo len x r then 1 else 0) = len r := by
      have hset : (Finset.range N).filter (Holds lo len · r) =
          Finset.Ico (lo r) (lo r + len r) := by
        ext x
        have hend := h r (Multiset.mem_cons_self r s)
        rw [Finset.mem_filter, Finset.mem_range, Finset.mem_Ico]
        unfold Holds
        omega
      rw [Finset.sum_boole, hset, Nat.card_Ico]
      simp
    have hrest := ih fun r' hr' => h r' (Multiset.mem_cons_of_mem hr')
    simp only [cover_cons, total_cons, Finset.sum_add_distrib, hone, hrest]

lemma exists_bound (lo len : α → ℕ) (s : Multiset α) : ∃ N, ∀ r ∈ s, lo r + len r ≤ N := by
  induction s using Multiset.induction_on with
  | empty => exact ⟨0, fun r hr => absurd hr (Multiset.notMem_zero r)⟩
  | cons r s ih =>
    obtain ⟨N, hN⟩ := ih
    refine ⟨max N (lo r + len r), fun r' hr' => ?_⟩
    rcases Multiset.mem_cons.mp hr' with rfl | hr'
    · exact le_max_right _ _
    · exact (hN r' hr').trans (le_max_left _ _)

/-- **Two tilings of the same numbers** have the same length. -/
theorem total_congr {β : Type} {lo' len' : β → ℕ} {t : Multiset β}
    (h : ∀ x, cover lo len s x = cover lo' len' t x) : total len s = total len' t := by
  obtain ⟨N, hN⟩ := exists_bound lo len s
  obtain ⟨M, hM⟩ := exists_bound lo' len' t
  have hs : ∀ r ∈ s, lo r + len r ≤ N + M := fun r hr => (hN r hr).trans (by omega)
  have ht : ∀ r ∈ t, lo' r + len' r ≤ N + M := fun r hr => (hM r hr).trans (by omega)
  rw [← sum_cover hs, ← sum_cover ht]
  exact Finset.sum_congr rfl fun x _ => h x

end Xv6.Data.Cover
