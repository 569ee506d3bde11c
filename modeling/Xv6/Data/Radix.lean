import Mathlib.Algebra.BigOperators.Group.Finset.Basic
import Mathlib.Algebra.Order.BigOperators.Group.Finset
import Mathlib.Algebra.Order.Group.Multiset
import Mathlib.Data.Fintype.Basic
import Mathlib.Tactic

/-!
Radix trees in a heap. A node is an array of entries, one for each index, and an entry may lead
to a child. What is said here holds of trees no two paths of which meet.
-/

namespace Xv6.Data.Radix

variable {A I E : Type}

/-- The node at the end of the path `p` from `a`. -/
def find (child : E → Option A) (H : A → I → E) : List I → A → Option A
  | [], a => some a
  | i :: p, a => (child (H a i)).bind (find child H p)

variable [Fintype I]

/-- The nodes at depth `d` at most below `a`, each as often as it is met. -/
def nodes (child : E → Option A) (H : A → I → E) : ℕ → A → Multiset A
  | 0, a => {a}
  | d + 1, a => {a} + ∑ i, (child (H a i)).elim 0 (nodes child H d)

variable {child : E → Option A} {H H' : A → I → E} {a b r : A} {d : ℕ} {i j : I} {p q : List I}

omit [Fintype I] in
lemma find_cons : find child H (i :: p) a = some b ↔
    ∃ c, child (H a i) = some c ∧ find child H p c = some b := by
  simp [find, Option.bind_eq_some_iff]

omit [Fintype I] in
lemma find_append (p q : List I) (a : A) :
    find child H (p ++ q) a = (find child H p a).bind (find child H q) := by
  induction p generalizing a with
  | nil => rfl
  | cons i p ih =>
    cases hc : child (H a i) with
    | none => simp [find, hc]
    | some c => simp [find, hc, ih]

omit [Fintype I] in
/-- One step more. -/
lemma find_snoc (h : find child H p r = some a) : find child H (p ++ [i]) r = child (H a i) := by
  rw [find_append, h, Option.bind_some]
  cases hc : child (H a i) <;> simp [find, hc]

lemma nodes_zero : nodes child H 0 a = {a} := by
  rw [nodes]

lemma nodes_succ :
    nodes child H (d + 1) a = {a} + ∑ i, (child (H a i)).elim 0 (nodes child H d) := by
  rw [nodes]

/-! ### Nodes and paths -/

lemma self_mem_nodes : r ∈ nodes child H d r := by
  cases d <;> simp [nodes]

lemma mem_nodes : a ∈ nodes child H d r ↔ ∃ p, p.length ≤ d ∧ find child H p r = some a := by
  induction d generalizing r with
  | zero =>
    simp only [nodes, Multiset.mem_singleton, Nat.le_zero, List.length_eq_zero_iff, exists_eq_left,
      find, Option.some.injEq]
    exact eq_comm
  | succ d ih =>
    simp only [nodes, Multiset.mem_add, Multiset.mem_singleton, Multiset.mem_sum, Finset.mem_univ,
      true_and]
    constructor
    · rintro (rfl | ⟨i, hi⟩)
      · exact ⟨[], by simp, rfl⟩
      · cases hc : child (H r i) with
        | none =>
          rw [hc] at hi
          simp at hi
        | some c =>
          rw [hc] at hi
          obtain ⟨p, hp, hf⟩ := ih.mp hi
          exact ⟨i :: p, by simpa using hp, find_cons.mpr ⟨c, hc, hf⟩⟩
    · rintro ⟨p, hp, hf⟩
      cases p with
      | nil =>
        simp only [find, Option.some.injEq] at hf
        exact .inl hf.symm
      | cons i p =>
        obtain ⟨c, hc, hf⟩ := find_cons.mp hf
        refine .inr ⟨i, ?_⟩
        rw [hc]
        exact ih.mpr ⟨p, by simpa using hp, hf⟩

lemma nodes_child (hc : child (H r i) = some b) (ha : a ∈ nodes child H d b) :
    a ∈ nodes child H (d + 1) r := by
  obtain ⟨p, hp, hf⟩ := mem_nodes.mp ha
  exact mem_nodes.mpr ⟨i :: p, by simpa using hp, find_cons.mpr ⟨b, hc, hf⟩⟩

/-! ### Paths do not meet -/

lemma nodup_child (h : (nodes child H (d + 1) r).Nodup) (hc : child (H r i) = some b) :
    (nodes child H d b).Nodup := by
  have hsum := (Multiset.nodup_add.mp h).2.1
  have hle : (child (H r i)).elim 0 (nodes child H d) ≤
      ∑ j, (child (H r j)).elim 0 (nodes child H d) :=
    Finset.single_le_sum (f := fun j => (child (H r j)).elim 0 (nodes child H d))
      (fun _ _ => Multiset.zero_le _) (Finset.mem_univ i)
  rw [hc] at hle
  exact Multiset.nodup_of_le hle hsum

lemma root_not_mem (h : (nodes child H (d + 1) r).Nodup) (hc : child (H r i) = some b) :
    r ∉ nodes child H d b := by
  intro hr
  have hdis := (Multiset.nodup_add.mp h).2.2
  refine Multiset.disjoint_left.mp hdis (Multiset.mem_singleton_self r) ?_
  refine Multiset.mem_sum.mpr ⟨i, Finset.mem_univ i, ?_⟩
  rwa [hc]

lemma not_mem_sibling [DecidableEq I] (h : (nodes child H (d + 1) r).Nodup) (hij : i ≠ j)
    (hi : child (H r i) = some b) {c : A} (hj : child (H r j) = some c)
    (ha : a ∈ nodes child H d b) : a ∉ nodes child H d c := by
  intro hac
  have hsum := (Multiset.nodup_add.mp h).2.1
  rw [← Finset.add_sum_erase _ _ (Finset.mem_univ i)] at hsum
  have hdis := (Multiset.nodup_add.mp hsum).2.2
  rw [hi] at hdis
  refine Multiset.disjoint_left.mp hdis ha (Multiset.mem_sum.mpr ⟨j, ?_, ?_⟩)
  · exact Finset.mem_erase.mpr ⟨hij.symm, Finset.mem_univ j⟩
  · rwa [hj]

/-- Where the nodes are distinct, a node is at the end of one path. -/
theorem find_inj (h : (nodes child H d r).Nodup) (hp : find child H p r = some a)
    (hq : find child H q r = some a) (hpd : p.length ≤ d) (hqd : q.length ≤ d) : p = q := by
  classical
  induction d generalizing r p q with
  | zero =>
    rw [List.length_eq_zero_iff.mp (Nat.le_zero.mp hpd),
      List.length_eq_zero_iff.mp (Nat.le_zero.mp hqd)]
  | succ d ih =>
    cases p with
    | nil =>
      cases q with
      | nil => rfl
      | cons j q =>
        obtain rfl : r = a := by simpa [find] using hp
        obtain ⟨c, hc, hf⟩ := find_cons.mp hq
        exact absurd (mem_nodes.mpr ⟨q, by simpa using hqd, hf⟩) (root_not_mem h hc)
    | cons i p =>
      obtain ⟨b, hb, hf⟩ := find_cons.mp hp
      have ha : a ∈ nodes child H d b := mem_nodes.mpr ⟨p, by simpa using hpd, hf⟩
      cases q with
      | nil =>
        obtain rfl : r = a := by simpa [find] using hq
        exact absurd ha (root_not_mem h hb)
      | cons j q =>
        obtain ⟨c, hc, hg⟩ := find_cons.mp hq
        by_cases hij : i = j
        · subst hij
          obtain rfl : b = c := by simpa [hb] using hc
          rw [ih (nodup_child h hb) hf hg (by simpa using hpd) (by simpa using hqd)]
        · exact absurd (mem_nodes.mpr ⟨q, by simpa using hqd, hg⟩)
            (not_mem_sibling h hij hb hc ha)

/-! ### Heaps that agree -/

/-- The nodes above the last level have the same children in `H'` as in `H`. -/
def Agree (child : E → Option A) (H H' : A → I → E) (d : ℕ) (r : A) : Prop :=
  ∀ p a, p.length < d → find child H p r = some a → ∀ i, child (H' a i) = child (H a i)

omit [Fintype I] in
lemma Agree.below (h : Agree child H H' (d + 1) r) (hc : child (H r i) = some b) :
    Agree child H H' d b := by
  intro p a hp hf j
  exact h (i :: p) a (by simpa using hp) (find_cons.mpr ⟨b, hc, hf⟩) j

omit [Fintype I] in
lemma find_congr (h : Agree child H H' d r) (hp : p.length ≤ d) :
    find child H' p r = find child H p r := by
  induction d generalizing r p with
  | zero =>
    rw [List.length_eq_zero_iff.mp (Nat.le_zero.mp hp)]
    rfl
  | succ d ih =>
    cases p with
    | nil => rfl
    | cons i p =>
      have hroot : child (H' r i) = child (H r i) := h [] r (by simp) rfl i
      cases hc : child (H r i) with
      | none => simp [find, hroot, hc]
      | some c =>
        have := ih (h.below hc) (p := p) (by simpa using hp)
        simp [find, hroot, hc, this]

lemma nodes_congr (h : Agree child H H' d r) : nodes child H' d r = nodes child H d r := by
  induction d generalizing r with
  | zero => rfl
  | succ d ih =>
    have hroot : ∀ i, child (H' r i) = child (H r i) := h [] r (by simp) rfl
    simp only [nodes, hroot]
    refine congrArg _ (Finset.sum_congr rfl fun i _ => ?_)
    cases hc : child (H r i) with
    | none => rfl
    | some c => exact ih (h.below hc)

lemma agree_of_eq (h : ∀ a ∈ nodes child H d r, H' a = H a) : Agree child H H' d r := by
  intro p a hp hf i
  rw [h a (mem_nodes.mpr ⟨p, hp.le, hf⟩)]

/-! ### One entry is set -/

variable [DecidableEq A] [DecidableEq I]

/-- Entry `i` of `a` is set to `e`. -/
def set (H : A → I → E) (a : A) (i : I) (e : E) : A → I → E :=
  Function.update H a (Function.update (H a) i e)

variable {e : E}

omit [Fintype I] in
@[simp] lemma set_self : set H a i e a i = e := by
  simp [set]

omit [Fintype I] in
lemma set_entry (h : j ≠ i) : set H a i e a j = H a j := by
  simp [set, h]

omit [Fintype I] in
lemma set_node (h : b ≠ a) : set H a i e b = H b := by
  simp [set, h]

/-- An entry of the last level may be set to anything. -/
lemma agree_set (h : (nodes child H d r).Nodup) (hp : p.length = d)
    (hf : find child H p r = some a) : Agree child H (set H a i e) d r := by
  intro q b hq hg j
  rw [set_node]
  rintro rfl
  have := find_inj h hf hg hp.le hq.le
  subst this
  omega

omit [Fintype I] in
/-- An entry that leads to no child is replaced by another. -/
lemma agree_set_leaf (hc : child (H a i) = none) (he : child e = none) :
    Agree child H (set H a i e) d r := by
  intro q b _ _ j
  by_cases hb : b = a
  · subst hb
    by_cases hj : j = i
    · subst hj
      rw [set_self, he, hc]
    · rw [set_entry hj]
  · rw [set_node hb]

omit [DecidableEq A] [DecidableEq I] in
lemma nodes_fresh (hb : ∀ j, child (H b j) = none) : nodes child H d b = {b} := by
  cases d with
  | zero => rfl
  | succ d => simp [nodes, hb]

/-- A node without children is linked: it is one more node. -/
theorem nodes_link (h : (nodes child H d r).Nodup) (hp : p.length < d)
    (hf : find child H p r = some a) (hc : child (H a i) = none) (he : child e = some b)
    (hb : b ∉ nodes child H d r) (hempty : ∀ j, child (H b j) = none) :
    nodes child (set H a i e) d r = b ::ₘ nodes child H d r := by
  induction d generalizing r p with
  | zero => omega
  | succ d ih =>
    have hba : b ≠ a := by
      rintro rfl
      exact hb (mem_nodes.mpr ⟨p, hp.le, hf⟩)
    cases p with
    | nil =>
      obtain rfl : r = a := by simpa [find] using hf
      -- the other children do not see `r`
      have hother : ∀ j ∈ Finset.univ.erase i,
          (child (set H r i e r j)).elim 0 (nodes child (set H r i e) d) =
            (child (H r j)).elim 0 (nodes child H d) := by
        intro j hj
        rw [set_entry (Finset.ne_of_mem_erase hj)]
        cases hcj : child (H r j) with
        | none => rfl
        | some c =>
          refine nodes_congr (agree_of_eq fun x hx => set_node ?_)
          rintro rfl
          exact root_not_mem h hcj hx
      have hnew : nodes child (set H r i e) d b = {b} :=
        nodes_fresh fun j => by rw [set_node hba]; exact hempty j
      have hone : (child (set H r i e r i)).elim 0 (nodes child (set H r i e) d) = {b} := by
        rw [set_self, he]
        exact hnew
      have hnone : (child (H r i)).elim 0 (nodes child H d) = 0 := by
        rw [hc]
        rfl
      unfold nodes
      rw [← Finset.add_sum_erase _ _ (Finset.mem_univ i), Finset.sum_congr rfl hother, hone,
        ← Finset.add_sum_erase (Finset.univ) _ (Finset.mem_univ i), hnone, zero_add,
        ← Multiset.singleton_add b, add_left_comm]
    | cons k p =>
      obtain ⟨c, hck, hg⟩ := find_cons.mp hf
      have hac : a ∈ nodes child H d c := mem_nodes.mpr ⟨p, by simp at hp; omega, hg⟩
      have hra : r ≠ a := by
        rintro rfl
        exact root_not_mem h hck hac
      have hbc : b ∉ nodes child H d c := fun hx => hb (nodes_child hck hx)
      have hih := ih (nodup_child h hck) (by simpa using hp) hg hbc
      have hother : ∀ j ∈ Finset.univ.erase k,
          (child (set H a i e r j)).elim 0 (nodes child (set H a i e) d) =
            (child (H r j)).elim 0 (nodes child H d) := by
        intro j hj
        rw [set_node hra]
        cases hcj : child (H r j) with
        | none => rfl
        | some c' =>
          refine nodes_congr (agree_of_eq fun x hx => set_node ?_)
          rintro rfl
          exact not_mem_sibling h (Finset.ne_of_mem_erase hj).symm hck hcj hac hx
      have hone : (child (set H a i e r k)).elim 0 (nodes child (set H a i e) d) =
          b ::ₘ (child (H r k)).elim 0 (nodes child H d) := by
        rw [set_node hra, hck]
        exact hih
      unfold nodes
      rw [← Finset.add_sum_erase _ _ (Finset.mem_univ k), Finset.sum_congr rfl hother, hone,
        Multiset.cons_add, Multiset.add_cons]
      rw [Finset.add_sum_erase _ (fun j => (child (H r j)).elim 0 (nodes child H d))
        (Finset.mem_univ k)]

omit [Fintype I] in
/-- What is at the end of a path after a node was linked. -/
theorem find_link [Fintype I] (h : (nodes child H d r).Nodup) (hp : p.length < d)
    (hf : find child H p r = some a) (hc : child (H a i) = none) (he : child e = some b)
    (hb : b ∉ nodes child H d r) (hempty : ∀ j, child (H b j) = none) (hq : q.length ≤ d) :
    find child (set H a i e) q r = if q = p ++ [i] then some b else find child H q r := by
  induction d generalizing r p q with
  | zero => omega
  | succ d ih =>
    have hba : b ≠ a := by
      rintro rfl
      exact hb (mem_nodes.mpr ⟨p, hp.le, hf⟩)
    cases q with
    | nil => simp [find]
    | cons j q =>
      cases p with
      | nil =>
        obtain rfl : r = a := by simpa [find] using hf
        by_cases hj : j = i
        · subst hj
          have hfind : find child (set H r j e) (j :: q) r = find child (set H r j e) q b := by
            simp [find, he]
          rw [hfind]
          cases q with
          | nil => simp [find]
          | cons k q => simp [find, set_node hba, hempty, hc]
        · have hne : j :: q ≠ [] ++ [i] := by simp [hj]
          rw [if_neg hne]
          cases hcj : child (H r j) with
          | none => simp [find, set_entry hj, hcj]
          | some c =>
            have hagree : Agree child H (set H r i e) d c := by
              refine agree_of_eq fun x hx => set_node ?_
              rintro rfl
              exact root_not_mem h hcj hx
            have := find_congr hagree (p := q) (by simpa using hq)
            simp [find, set_entry hj, hcj, this]
      | cons k p =>
        obtain ⟨c, hck, hg⟩ := find_cons.mp hf
        have hac : a ∈ nodes child H d c := mem_nodes.mpr ⟨p, by simp at hp; omega, hg⟩
        have hra : r ≠ a := by
          rintro rfl
          exact root_not_mem h hck hac
        by_cases hjk : j = k
        · subst hjk
          have hih := ih (nodup_child h hck) (by simpa using hp) hg
            (fun hx => hb (nodes_child hck hx)) (q := q) (by simpa using hq)
          simp [find, set_node hra, hck, hih]
        · have hne : j :: q ≠ k :: p ++ [i] := by simp [hjk]
          rw [if_neg hne]
          cases hcj : child (H r j) with
          | none => simp [find, set_node hra, hcj]
          | some c' =>
            have hagree : Agree child H (set H a i e) d c' := by
              refine agree_of_eq fun x hx => set_node ?_
              rintro rfl
              exact not_mem_sibling h (Ne.symm hjk) hck hcj hac hx
            have := find_congr hagree (p := q) (by simpa using hq)
            simp [find, set_node hra, hcj, this]

attribute [irreducible] nodes

end Xv6.Data.Radix
