import Mathlib.Data.List.Nodup
import Mathlib.Logic.Function.Basic

/-!
Doubly linked circular lists with a head: what linking and unlinking a node does to the list that
the links are.
-/

namespace Xv6.Data.Linked

variable {ι : Type} [DecidableEq ι]

/-- The links of the nodes. The node `none` is the head. -/
structure Links (ι : Type) where
  next : Option ι → Option ι
  prev : Option ι → Option ι

/-- The head alone. -/
def Links.empty : Links ι := ⟨fun _ => none, fun _ => none⟩

def Links.setNext (a b : Option ι) (l : Links ι) : Links ι :=
  { l with next := Function.update l.next a b }

def Links.setPrev (a b : Option ι) (l : Links ι) : Links ι :=
  { l with prev := Function.update l.prev a b }

/-- Puts `b` behind the head, which is already linked to the first node. -/
def Links.link (b : ι) (l : Links ι) : Links ι :=
  let l := l.setNext (some b) (l.next none)
  let l := l.setPrev (some b) none
  let l := l.setPrev (l.next none) (some b)
  l.setNext none (some b)

def Links.unlink (b : ι) (l : Links ι) : Links ι :=
  let l := l.setPrev (l.next (some b)) (l.prev (some b))
  l.setNext (l.prev (some b)) (l.next (some b))

/-- The links read the other way. -/
def Links.flip (l : Links ι) : Links ι := ⟨l.prev, l.next⟩

/-- The first node from `a` on with the property, if there is one before the head. -/
def walk (f : Option ι → Option ι) (p : ι → Bool) : (rounds : ℕ) → Option ι → Option (Option ι)
  | 0, _ => none
  | _ + 1, none => some none
  | n + 1, some i => if p i = true then some (some i) else walk f p n (f (some i))

/-- Node `b` comes right after node `a`. -/
def Joined (l : Links ι) (a b : Option ι) : Prop := l.next a = b ∧ l.prev b = a

/-- Between `a` and `b` there are the nodes listed. -/
def Path (l : Links ι) : Option ι → List ι → Option ι → Prop
  | a, [], b => Joined l a b
  | a, x :: xs, b => Joined l a (some x) ∧ Path l (some x) xs b

/-- The links are those of a list. -/
structure Circle (l : Links ι) (xs : List ι) : Prop where
  nodup : xs.Nodup
  path : Path l none xs none

variable {l l' : Links ι} {a b c : Option ι} {x y : ι} {xs ys zs : List ι} {p : ι → Bool} {n : ℕ}

section Paths

omit [DecidableEq ι]

lemma path_append : Path l a (xs ++ y :: ys) b ↔ Path l a xs (some y) ∧ Path l (some y) ys b := by
  induction xs generalizing a with
  | nil => rfl
  | cons x xs ih =>
    rw [List.cons_append, Path, Path, ih]
    exact and_assoc.symm

/-- A path is as before where the links of its nodes are as before. -/
lemma Path.congr (h : Path l a xs b) (hnext : ∀ c ∈ a :: xs.map some, l'.next c = l.next c)
    (hprev : ∀ c ∈ xs.map some ++ [b], l'.prev c = l.prev c) : Path l' a xs b := by
  induction xs generalizing a with
  | nil =>
    obtain ⟨h1, h2⟩ := h
    exact ⟨(hnext a (by simp)).trans h1, (hprev b (by simp)).trans h2⟩
  | cons x xs ih =>
    obtain ⟨⟨h1, h2⟩, hrest⟩ := h
    refine ⟨⟨(hnext a (by simp)).trans h1, (hprev (some x) (by simp)).trans h2⟩, ?_⟩
    refine ih hrest (fun c hc => hnext c ?_) fun c hc => hprev c ?_
    · rw [List.map_cons]
      exact List.mem_cons_of_mem a hc
    · rw [List.map_cons, List.cons_append]
      exact List.mem_cons_of_mem _ hc

lemma Path.flip (h : Path l a xs b) : Path l.flip b xs.reverse a := by
  induction xs generalizing a with
  | nil => exact ⟨h.2, h.1⟩
  | cons x xs ih =>
    rw [List.reverse_cons, path_append]
    exact ⟨ih h.2, h.1.2, h.1.1⟩

lemma Path.next_mem (h : Path l a xs b) : l.next a ∈ xs.map some ++ [b] := by
  cases xs with
  | nil =>
    rw [h.1]
    simp
  | cons x xs =>
    rw [h.1.1]
    simp

lemma Path.prev_mem (h : Path l a xs b) : l.prev b ∈ a :: xs.map some := by
  induction xs generalizing a with
  | nil =>
    rw [h.2]
    simp
  | cons x xs ih =>
    rw [List.map_cons]
    exact List.mem_cons_of_mem a (ih h.2)

lemma Circle.flip (h : Circle l xs) : Circle l.flip xs.reverse :=
  ⟨List.nodup_reverse.mpr h.nodup, h.path.flip⟩

/-! ### Walking -/

lemma Path.walk (h : Path l a xs none) (hn : xs.length < n) :
    walk l.next p n (l.next a) = some (xs.find? p) := by
  induction xs generalizing a n with
  | nil =>
    obtain ⟨m, rfl⟩ := Nat.exists_eq_add_of_lt hn
    rw [h.1]
    rfl
  | cons x xs ih =>
    obtain ⟨⟨h1, -⟩, hrest⟩ := h
    cases n with
    | zero => exact absurd hn (Nat.not_lt_zero _)
    | succ m =>
      rw [h1, Linked.walk, List.find?_cons]
      cases hp : p x with
      | true => rfl
      | false => exact ih hrest (Nat.lt_of_succ_lt_succ hn)

/-- **A walk along the links** finds what a search of the list finds. -/
theorem Circle.walk_next (h : Circle l xs) (hn : xs.length < n) :
    walk l.next p n (l.next none) = some (xs.find? p) := h.path.walk hn

/-- A walk against the links searches the list from its end. -/
theorem Circle.walk_prev (h : Circle l xs) (hn : xs.length < n) :
    walk l.prev p n (l.prev none) = some (xs.reverse.find? p) :=
  h.flip.path.walk (by rwa [List.length_reverse])

end Paths

/-! ### Linking and unlinking -/

omit [DecidableEq ι] in
lemma circle_empty : Circle (Links.empty : Links ι) [] := ⟨List.nodup_nil, rfl, rfl⟩

/-- **Linking** puts a node in front of the list. -/
theorem Circle.link (h : Circle l xs) (hx : x ∉ xs) : Circle (l.link x) (x :: xs) := by
  refine ⟨List.nodup_cons.mpr ⟨hx, h.nodup⟩, ?_⟩
  have hpath := h.path
  cases xs with
  | nil =>
    obtain ⟨h1, -⟩ := hpath
    refine ⟨⟨?_, ?_⟩, ?_, ?_⟩ <;> simp [Links.link, Links.setNext, Links.setPrev, h1]
  | cons y ys =>
    obtain ⟨⟨h1, -⟩, hrest⟩ := hpath
    have hxy : x ≠ y := fun he => hx (he ▸ List.mem_cons_self)
    refine ⟨⟨?_, ?_⟩, ⟨?_, ?_⟩, hrest.congr (fun c hc => ?_) fun c hc => ?_⟩
    · simp [Links.link, Links.setNext, Links.setPrev]
    · simp [Links.link, Links.setNext, Links.setPrev, h1, hxy]
    · simp [Links.link, Links.setNext, Links.setPrev, h1]
    · simp [Links.link, Links.setNext, Links.setPrev, h1]
    · -- the nodes after the new one go on to the same nodes
      have hne : c ≠ none ∧ c ≠ some x := by
        rw [← List.map_cons] at hc
        obtain ⟨z, hz, rfl⟩ := List.mem_map.mp hc
        exact ⟨Option.some_ne_none z, fun he => hx (Option.some.inj he ▸ hz)⟩
      simp [Links.link, Links.setNext, Links.setPrev, hne.1, hne.2]
    · have hne : c ≠ some x ∧ c ≠ some y := by
        rcases List.mem_append.mp hc with hc | hc
        · obtain ⟨z, hz, rfl⟩ := List.mem_map.mp hc
          refine ⟨fun he => hx ?_, fun he => (List.nodup_cons.mp h.nodup).1 ?_⟩
          · exact Option.some.inj he ▸ List.mem_cons_of_mem y hz
          · exact Option.some.inj he ▸ hz
        · rw [List.mem_singleton.mp hc]
          exact ⟨(Option.some_ne_none x).symm, (Option.some_ne_none y).symm⟩
      simp [Links.link, Links.setNext, Links.setPrev, h1, hne.1, hne.2]

/-- Linking the nodes of a list one after the other. -/
lemma Circle.link_all (h : Circle l xs) (hn : ys.Nodup) (hx : ∀ y ∈ ys, y ∉ xs) :
    Circle (ys.foldl (fun l y => l.link y) l) (ys.reverse ++ xs) := by
  induction ys generalizing l xs with
  | nil => exact h
  | cons y ys ih =>
    obtain ⟨hy, hn'⟩ := List.nodup_cons.mp hn
    rw [List.reverse_cons, List.append_assoc]
    refine ih (h.link (hx y List.mem_cons_self)) hn' fun z hz hmem => ?_
    rcases List.mem_cons.mp hmem with rfl | hmem
    · exact hy hz
    · exact hx z (List.mem_cons_of_mem y hz) hmem

lemma Links.unlink_next (hx : l.next (some x) ≠ some x) (c : Option ι) :
    (l.unlink x).next c = if c = l.prev (some x) then l.next (some x) else l.next c := by
  simp only [Links.unlink, Links.setNext, Links.setPrev, Function.update_apply]
  rw [if_neg (Ne.symm hx)]

lemma Links.unlink_prev (c : Option ι) :
    (l.unlink x).prev c = if c = l.next (some x) then l.prev (some x) else l.prev c := by
  simp only [Links.unlink, Links.setNext, Links.setPrev, Function.update_apply]

/-- Unlinking a node of a path joins its neighbours. -/
lemma Path.unlink (h : Path l a (ys ++ x :: zs) b) (hn : (ys ++ x :: zs).Nodup)
    (ha : a ∉ (ys ++ x :: zs).map some) (hb : b ∉ (ys ++ x :: zs).map some) :
    Path (l.unlink x) a (ys ++ zs) b := by
  have hx : l.next (some x) ≠ some x := by
    intro he
    have hmem := (path_append.mp h).2.next_mem
    rw [he] at hmem
    rcases List.mem_append.mp hmem with hm | hm
    · obtain ⟨z, hz, hzx⟩ := List.mem_map.mp hm
      have hnz := (List.nodup_cons.mp (List.nodup_append.mp hn).2.1).1
      exact hnz (Option.some.inj hzx ▸ hz)
    · exact hb (List.mem_singleton.mp hm ▸ List.mem_map_of_mem (by simp))
  induction ys generalizing a with
  | nil =>
    obtain ⟨⟨-, hprev⟩, hrest⟩ := h
    cases zs with
    | nil =>
      obtain ⟨h1, -⟩ := hrest
      refine ⟨?_, ?_⟩
      · rw [Links.unlink_next hx, if_pos hprev.symm, h1]
      · rw [Links.unlink_prev, if_pos h1.symm, hprev]
    | cons z zs =>
      obtain ⟨⟨h1, -⟩, hrest⟩ := hrest
      refine ⟨⟨?_, ?_⟩, hrest.congr (fun c hc => ?_) fun c hc => ?_⟩
      · rw [Links.unlink_next hx, if_pos hprev.symm, h1]
      · rw [Links.unlink_prev, if_pos h1.symm, hprev]
      · rw [Links.unlink_next hx, hprev, if_neg]
        rintro rfl
        exact ha (List.mem_cons_of_mem _ hc)
      · rw [Links.unlink_prev, h1, if_neg]
        rintro rfl
        rcases List.mem_append.mp hc with hm | hm
        · obtain ⟨u, hu, huz⟩ := List.mem_map.mp hm
          exact (List.nodup_cons.mp (List.nodup_cons.mp hn).2).1 (Option.some.inj huz ▸ hu)
        · exact hb (List.mem_singleton.mp hm ▸ List.mem_map_of_mem (by simp))
  | cons y ys ih =>
    obtain ⟨⟨h1, h2⟩, hrest⟩ := h
    obtain ⟨hy, hn'⟩ := List.nodup_cons.mp hn
    have hb' : b ∉ (ys ++ x :: zs).map some := fun hm => hb (List.mem_cons_of_mem _ hm)
    have hy' : some y ∉ (ys ++ x :: zs).map some := fun hm => by
      obtain ⟨z, hz, hzy⟩ := List.mem_map.mp hm
      exact hy (Option.some.inj hzy ▸ hz)
    obtain ⟨hbefore, hafter⟩ := path_append.mp hrest
    refine ⟨⟨?_, ?_⟩, ih hrest hn' hy' hb'⟩
    · -- `a` is not the neighbour that `x` has before it
      rw [Links.unlink_next hx, if_neg, h1]
      rintro rfl
      have hmem := hbefore.prev_mem
      rw [← List.map_cons] at hmem
      obtain ⟨u, hu, hua⟩ := List.mem_map.mp hmem
      refine ha (hua ▸ List.mem_map_of_mem ?_)
      exact List.mem_append_left _ hu
    · rw [Links.unlink_prev, if_neg, h2]
      intro he
      have hmem := hafter.next_mem
      rw [← he] at hmem
      rcases List.mem_append.mp hmem with hm | hm
      · refine hy' (List.map_append ▸ List.mem_append_right _ ?_)
        exact List.mem_cons_of_mem _ hm
      · exact hb (List.mem_singleton.mp hm ▸ List.mem_map_of_mem (by simp))

/-- **Unlinking** takes a node out of the list. -/
theorem Circle.unlink (h : Circle l xs) (hx : x ∈ xs) : Circle (l.unlink x) (xs.erase x) := by
  obtain ⟨ys, zs, hys, rfl, he⟩ := List.exists_erase_eq hx
  have hnone : none ∉ (ys ++ x :: zs).map some := fun hm => by
    obtain ⟨z, -, hz⟩ := List.mem_map.mp hm
    cases hz
  rw [he]
  refine ⟨?_, h.path.unlink h.nodup hnone hnone⟩
  rw [← he]
  exact h.nodup.erase x

end Xv6.Data.Linked
