import Mathlib.Data.List.Basic
import Mathlib.Tactic

/-!
Ranges laid end to end.
-/

namespace Xv6.Data.Tile

variable {α : Type} (lo len : α → ℕ)

/-- The ranges of `xs`, in their order, cover the numbers from `a` up to `b`. -/
def Tiles : ℕ → List α → ℕ → Prop
  | a, [], b => a = b
  | a, x :: xs, b => lo x = a ∧ Tiles (a + len x) xs b

variable {lo len} {a b k : ℕ} {x : α} {xs : List α}

lemma Tiles.append (h : Tiles lo len a xs b) (hx : lo x = b) :
    Tiles lo len a (xs ++ [x]) (b + len x) := by
  induction xs generalizing a with
  | nil =>
    have hab : a = b := h
    subst hab
    exact ⟨hx, rfl⟩
  | cons y xs ih => exact ⟨h.1, ih h.2⟩

lemma Tiles.le (h : Tiles lo len a xs b) : a ≤ b := by
  induction xs generalizing a with
  | nil => exact le_of_eq h
  | cons y xs ih => exact (Nat.le_add_right a _).trans (ih h.2)

lemma Tiles.bounds (h : Tiles lo len a xs b) (hx : x ∈ xs) : a ≤ lo x ∧ lo x + len x ≤ b := by
  induction xs generalizing a with
  | nil => cases hx
  | cons y xs ih =>
    obtain ⟨hy, h⟩ := h
    rcases List.mem_cons.mp hx with rfl | hx
    · exact ⟨hy.ge, hy ▸ h.le⟩
    · obtain ⟨h1, h2⟩ := ih h hx
      exact ⟨by omega, h2⟩

/-- Each range ends where a later one starts, or before. -/
theorem Tiles.pairwise (h : Tiles lo len a xs b) :
    xs.Pairwise fun x y => lo x + len x ≤ lo y := by
  induction xs generalizing a with
  | nil => exact .nil
  | cons y xs ih =>
    obtain ⟨hy, h⟩ := h
    exact .cons (fun z hz => hy ▸ (h.bounds hz).1) (ih h)

/-- Every number is in one range and in no other. -/
theorem Tiles.cover (h : Tiles lo len a xs b) (ha : a ≤ k) (hb : k < b) :
    ∃! i : Fin xs.length, lo xs[i] ≤ k ∧ k < lo xs[i] + len xs[i] := by
  have hex : ∃ x ∈ xs, lo x ≤ k ∧ k < lo x + len x := by
    induction xs generalizing a with
    | nil =>
      have hab : a = b := h
      omega
    | cons y xs ih =>
      obtain ⟨hy, h⟩ := h
      rcases Nat.lt_or_ge k (a + len y) with hk | hk
      · exact ⟨y, List.mem_cons_self, by omega, by omega⟩
      · obtain ⟨x, hx, hx'⟩ := ih h hk
        exact ⟨x, List.mem_cons_of_mem y hx, hx'⟩
  obtain ⟨x, hx, hx'⟩ := hex
  obtain ⟨i, hi, rfl⟩ := List.mem_iff_getElem.mp hx
  refine ⟨⟨i, hi⟩, hx', fun j hj => ?_⟩
  have hpw := List.pairwise_iff_getElem.mp h.pairwise
  rcases Nat.lt_trichotomy j.val i with hji | hji | hji
  · have := hpw j.val i j.isLt hi hji
    simp only [Fin.getElem_fin] at hj
    omega
  · exact Fin.ext hji
  · have := hpw i j.val hi j.isLt hji
    simp only [Fin.getElem_fin] at hj
    omega

end Xv6.Data.Tile
