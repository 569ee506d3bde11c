import Mathlib.Data.List.Basic
import Mathlib.Logic.Function.Basic
import Mathlib.Tactic

/-!
A finite map kept in a list of slots, each of them free or with a key and its value.
-/

namespace Xv6.Data.Slots

variable {κ ν : Type} [DecidableEq κ]

/-- The value of `x` in a slot. -/
def value (x : κ) (o : Option (κ × ν)) : Option ν := o.bind fun e => if e.1 = x then some e.2 else none

/-- The map. -/
def get (es : List (Option (κ × ν))) (x : κ) : Option ν := es.findSome? (value x)

/-- No key has two slots. -/
def Distinct (es : List (Option (κ × ν))) : Prop :=
  ∀ (i j : ℕ) (x : κ) (v w : ν), es[i]? = some (some (x, v)) → es[j]? = some (some (x, w)) → i = j

variable {es : List (Option (κ × ν))} {x y : κ} {v w : ν} {i j k : ℕ}

lemma value_eq_some {o : Option (κ × ν)} : value x o = some v ↔ o = some (x, v) := by
  cases o with
  | none => simp [value]
  | some e =>
    obtain ⟨y, w⟩ := e
    simp only [value, Option.bind_some]
    split_ifs with h
    · simp [h]
    · simp [h]

lemma get_eq_none : get es x = none ↔ ∀ (i : ℕ) (v : ν), es[i]? ≠ some (some (x, v)) := by
  rw [get, List.findSome?_eq_none_iff]
  constructor
  · intro h i v hi
    have := h _ (List.mem_of_getElem? hi)
    rw [value_eq_some.mpr rfl] at this
    cases this
  · intro h o ho
    obtain ⟨i, hi⟩ := List.getElem?_of_mem ho
    cases hv : value x o with
    | none => rfl
    | some v =>
      rw [value_eq_some.mp hv] at hi
      exact absurd hi (h i v)

lemma Distinct.get_eq_some (h : Distinct es) :
    get es x = some v ↔ ∃ i : ℕ, es[i]? = some (some (x, v)) := by
  constructor
  · intro hg
    obtain ⟨o, ho, hv⟩ := List.exists_of_findSome?_eq_some hg
    rw [value_eq_some.mp hv] at ho
    exact List.getElem?_of_mem ho
  · rintro ⟨i, hi⟩
    cases hg : get es x with
    | none => exact absurd hi (get_eq_none.mp hg i v)
    | some w =>
      obtain ⟨o, ho, hv⟩ := List.exists_of_findSome?_eq_some hg
      rw [value_eq_some.mp hv] at ho
      obtain ⟨j, hj⟩ := List.getElem?_of_mem ho
      obtain rfl := h i j x v w hi hj
      rw [hi] at hj
      cases hj
      rfl

/-- Two lists of slots that differ for the key `x` only. -/
lemma get_eq_update {es' : List (Option (κ × ν))} {o : Option ν} (h : Distinct es) (h' : Distinct es')
    (hx : ∀ v, (∃ i : ℕ, es'[i]? = some (some (x, v))) ↔ o = some v)
    (hy : ∀ y, y ≠ x → ∀ v,
      (∃ i : ℕ, es'[i]? = some (some (y, v))) ↔ ∃ i : ℕ, es[i]? = some (some (y, v))) :
    get es' = Function.update (get es) x o := by
  funext y
  by_cases hxy : y = x
  · subst hxy
    rw [Function.update_self]
    ext v
    rw [h'.get_eq_some]
    exact hx v
  · rw [Function.update_of_ne hxy]
    ext v
    rw [h'.get_eq_some, h.get_eq_some]
    exact hy y hxy v

omit [DecidableEq κ] in
lemma getElem_set {o : Option (κ × ν)} (hk : k < es.length) :
    (es.set k o)[i]? = if i = k then some o else es[i]? := by
  rw [List.getElem?_set]
  split_ifs with h1 h2 h3
  · rfl
  · exact absurd h1.symm h2
  · exact absurd h3.symm h1
  · rfl

/-- **Binding** a key that has no slot, in a slot that is free. -/
theorem Distinct.bind (h : Distinct es) (hx : get es x = none) (hk : es[k]? = some none) :
    Distinct (es.set k (some (x, v))) ∧
      get (es.set k (some (x, v))) = Function.update (get es) x (some v) := by
  have hlen : k < es.length := (List.getElem?_eq_some_iff.mp hk).1
  have hno := get_eq_none.mp hx
  have hd : Distinct (es.set k (some (x, v))) := by
    intro i j y w w' hi hj
    rw [getElem_set hlen] at hi hj
    split_ifs at hi hj with h1 h2 h2
    · rw [h1, h2]
    · cases hi
      exact absurd hj (hno j w')
    · cases hj
      exact absurd hi (hno i w)
    · exact h i j y w w' hi hj
  refine ⟨hd, get_eq_update h hd (fun w => ⟨?_, ?_⟩) fun y hy w => ⟨?_, ?_⟩⟩
  · rintro ⟨i, hi⟩
    rw [getElem_set hlen] at hi
    split_ifs at hi
    · cases hi
      rfl
    · exact absurd hi (hno i w)
  · intro hw
    cases hw
    exact ⟨k, by rw [getElem_set hlen, if_pos rfl]⟩
  · rintro ⟨i, hi⟩
    rw [getElem_set hlen] at hi
    split_ifs at hi
    · cases hi
      exact absurd rfl hy
    · exact ⟨i, hi⟩
  · rintro ⟨i, hi⟩
    refine ⟨i, ?_⟩
    rw [getElem_set hlen, if_neg, hi]
    rintro rfl
    rw [hk] at hi
    cases hi

/-- **Binding** a key in a new slot. -/
theorem Distinct.append (h : Distinct es) (hx : get es x = none) :
    Distinct (es ++ [some (x, v)]) ∧
      get (es ++ [some (x, v)]) = Function.update (get es) x (some v) := by
  -- a free slot is added first
  have hfree : Distinct (es ++ [none]) ∧ get (es ++ [none]) = get es := by
    have hget : ∀ (i : ℕ) (y : κ) (w : ν), (es ++ [none])[i]? = some (some (y, w)) ↔ es[i]? = some (some (y, w)) := by
      intro i y w
      rw [List.getElem?_append]
      split_ifs with hi
      · rfl
      · rw [List.getElem?_eq_none (Nat.le_of_not_lt hi)]
        cases hn : i - es.length with
        | zero => simp
        | succ m => simp
    have hd : Distinct (es ++ [none]) := fun i j y w w' hi hj =>
      h i j y w w' ((hget i y w).mp hi) ((hget j y w').mp hj)
    refine ⟨hd, ?_⟩
    funext y
    ext w
    rw [hd.get_eq_some, h.get_eq_some]
    simp only [hget]
  obtain ⟨h1, h2⟩ := hfree
  have hset : (es ++ [none]).set es.length (some (x, v)) = es ++ [some (x, v)] := by simp
  have hb := h1.bind (k := es.length) (v := v) (by rw [h2]; exact hx) (by simp)
  rwa [hset, h2] at hb

/-- **Freeing** the slot of a key. -/
theorem Distinct.free (h : Distinct es) (hk : es[k]? = some (some (x, v))) :
    Distinct (es.set k none) ∧ get (es.set k none) = Function.update (get es) x none := by
  have hlen : k < es.length := (List.getElem?_eq_some_iff.mp hk).1
  have hget : ∀ (i : ℕ) (y : κ) (w : ν), (es.set k none)[i]? = some (some (y, w)) ↔
      i ≠ k ∧ es[i]? = some (some (y, w)) := by
    intro i y w
    rw [getElem_set hlen]
    split_ifs with hi
    · simp [hi]
    · simp [hi]
  have hd : Distinct (es.set k none) := fun i j y w w' hi hj =>
    h i j y w w' ((hget i y w).mp hi).2 ((hget j y w').mp hj).2
  refine ⟨hd, get_eq_update h hd (fun w => ⟨?_, fun hw => (by cases hw)⟩) fun y hy w => ⟨?_, ?_⟩⟩
  · rintro ⟨i, hi⟩
    obtain ⟨h1, h2⟩ := (hget i x w).mp hi
    exact absurd (h i k x w v h2 hk) h1
  · rintro ⟨i, hi⟩
    exact ⟨i, ((hget i y w).mp hi).2⟩
  · rintro ⟨i, hi⟩
    refine ⟨i, (hget i y w).mpr ⟨?_, hi⟩⟩
    rintro rfl
    rw [hk] at hi
    cases hi
    exact hy rfl

end Xv6.Data.Slots
