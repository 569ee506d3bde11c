import Mathlib.Algebra.BigOperators.Group.Finset.Basic
import Mathlib.Algebra.Order.BigOperators.Group.Finset
import Mathlib.Tactic

/-!
Admission by reservation: every admitted party may spend up to `m` of a common resource, and
what is spent or reserved stays within its capacity.
-/

namespace Xv6.Conc.Quota

variable {T : Type} {cap m used : ℕ} {F : Finset T} {w w' : T → ℕ}

/-- `used` units are gone; each party `t` in `F` has spent `w t` of the `m` reserved for it. -/
def Within (cap m used : ℕ) (F : Finset T) (w : T → ℕ) : Prop :=
  used + ∑ t ∈ F, (m - w t) ≤ cap

lemma Within.used_le (h : Within cap m used F w) : used ≤ cap := by
  unfold Within at h
  omega

lemma reserved_le (F : Finset T) (w : T → ℕ) : ∑ t ∈ F, (m - w t) ≤ F.card * m := by
  calc ∑ t ∈ F, (m - w t) ≤ ∑ _t ∈ F, m := Finset.sum_le_sum fun t _ => Nat.sub_le m (w t)
    _ = F.card * m := by rw [Finset.sum_const, smul_eq_mul]

/-- Admitting one more party when there is room for all to spend their whole share. -/
lemma within_of_room (h : used + F.card * m ≤ cap) : Within cap m used F w :=
  (Nat.add_le_add_left (reserved_le F w) used).trans h

lemma Within.mono (h : Within cap m used F w) {G : Finset T} (hG : G ⊆ F)
    (hw : ∀ t ∈ G, w t ≤ w' t) : Within cap m used G w' := by
  refine le_trans (Nat.add_le_add_left ?_ used) h
  calc ∑ t ∈ G, (m - w' t) ≤ ∑ t ∈ G, (m - w t) :=
        Finset.sum_le_sum fun t ht => Nat.sub_le_sub_left (hw t ht) m
    _ ≤ ∑ t ∈ F, (m - w t) := Finset.sum_le_sum_of_subset hG

variable [DecidableEq T] {t : T}

lemma sum_split (ht : t ∈ F) (w : T → ℕ) :
    ∑ u ∈ F, (m - w u) = (m - w t) + ∑ u ∈ F.erase t, (m - w u) :=
  (Finset.add_sum_erase F (fun u => m - w u) ht).symm

/-- A party that has not spent its share still finds room. -/
lemma Within.lt (h : Within cap m used F w) (ht : t ∈ F) (hlt : w t < m) : used < cap := by
  have := sum_split (m := m) ht w
  unfold Within at h
  omega

/-- Spending one unit of a share. -/
lemma Within.spend (h : Within cap m used F w) (ht : t ∈ F) (hlt : w t < m)
    (hw : w' t = w t + 1) (hother : ∀ u, u ≠ t → w' u = w u) : Within cap m (used + 1) F w' := by
  have hrest : ∑ u ∈ F.erase t, (m - w' u) = ∑ u ∈ F.erase t, (m - w u) :=
    Finset.sum_congr rfl fun u hu => by rw [hother u (Finset.ne_of_mem_erase hu)]
  have h1 := sum_split (m := m) ht w
  have h2 := sum_split (m := m) ht w'
  unfold Within at h ⊢
  omega

end Xv6.Conc.Quota
