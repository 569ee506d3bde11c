import Mathlib.Data.Fin.Basic
import Mathlib.Data.List.Basic
import Mathlib.Logic.Function.Basic
import Mathlib.Tactic

/-!
A ring buffer whose two counters run freely and wrap.

The counters are words of `w` bits and are never reset; they are reduced to an index when the
buffer is accessed. The size of the buffer divides `2 ^ w`, so the indices go on in turn where
a counter wraps, and it is less than `2 ^ w`, so full and empty are different.
-/

namespace Xv6.Data.Ring

variable {w N : ℕ} {α : Type} [NeZero N]

structure Ring (w N : ℕ) (α : Type) where
  data : Fin N → α
  /-- How many elements have been taken out. -/
  head : BitVec w
  /-- How many elements have been put in. -/
  tail : BitVec w

def index (n : BitVec w) : Fin N := Fin.ofNat N n.toNat

def push (x : α) (r : Ring w N α) : Ring w N α :=
  { r with data := Function.update r.data (index r.tail) x, tail := r.tail + 1 }

def front (r : Ring w N α) : α := r.data (index r.head)

def pop (r : Ring w N α) : Ring w N α := { r with head := r.head + 1 }

/-- The elements that are there, the oldest first. -/
def contents (r : Ring w N α) : List α :=
  (List.range (r.tail - r.head).toNat).map fun i => r.data (index (r.head + BitVec.ofNat w i))

/-- The elements `xs` have been put in since both counters were `n₀`, and the first `k` of them
have been taken out. -/
structure Carries (n₀ : BitVec w) (xs : List α) (k : ℕ) (r : Ring w N α) : Prop where
  head : r.head = n₀ + BitVec.ofNat w k
  tail : r.tail = n₀ + BitVec.ofNat w xs.length
  taken : k ≤ xs.length
  room : xs.length ≤ k + N
  data : ∀ i x, k ≤ i → xs[i]? = some x → r.data (index (n₀ + BitVec.ofNat w i)) = x

lemma carries_start {n₀ : BitVec w} {d : Fin N → α} : Carries n₀ [] 0 ⟨d, n₀, n₀⟩ where
  head := by simp
  tail := by simp
  taken := le_rfl
  room := by simp
  data i x _ h := by simp at h

/-! ### Counters and indices -/

lemma index_add (hN : N ∣ 2 ^ w) (n₀ : BitVec w) (i : ℕ) :
    (index (n₀ + BitVec.ofNat w i) : Fin N).val = (n₀.toNat + i) % N := by
  unfold index
  rw [Fin.val_ofNat, BitVec.toNat_add, BitVec.toNat_ofNat, Nat.mod_mod_of_dvd _ hN,
    Nat.add_mod, Nat.mod_mod_of_dvd _ hN, ← Nat.add_mod]

/-- Elements less than a round apart have different places. -/
lemma index_ne (hN : N ∣ 2 ^ w) {n₀ : BitVec w} {i j : ℕ} (hij : i < j) (hj : j < i + N) :
    (index (n₀ + BitVec.ofNat w i) : Fin N) ≠ index (n₀ + BitVec.ofNat w j) := by
  intro h
  have hval := congrArg Fin.val h
  rw [index_add hN, index_add hN] at hval
  have hdvd : N ∣ (n₀.toNat + j) - (n₀.toNat + i) :=
    (Nat.modEq_iff_dvd' (by omega)).mp hval
  have hle := Nat.le_of_dvd (by omega) hdvd
  omega

omit [NeZero N] in
/-- Counters that are not more than a buffer apart are equal only if the counts are. -/
lemma count_inj (hlt : N < 2 ^ w) {n₀ : BitVec w} {i j : ℕ} (hij : i ≤ j) (hj : j ≤ i + N)
    (h : n₀ + BitVec.ofNat w i = n₀ + BitVec.ofNat w j) : i = j := by
  have hval := congrArg BitVec.toNat ((BitVec.add_right_inj n₀).mp h)
  rw [BitVec.toNat_ofNat, BitVec.toNat_ofNat] at hval
  have hdvd : 2 ^ w ∣ j - i := (Nat.modEq_iff_dvd' hij).mp hval
  by_contra hne
  have hle := Nat.le_of_dvd (by omega) hdvd
  omega

/-! ### The operations -/

variable {n₀ : BitVec w} {xs : List α} {k : ℕ} {r : Ring w N α}

lemma Carries.empty_iff (h : Carries n₀ xs k r) (hlt : N < 2 ^ w) :
    r.head = r.tail ↔ xs.length = k := by
  rw [h.head, h.tail]
  constructor
  · intro he
    exact (count_inj hlt h.taken h.room he).symm
  · intro he
    rw [he]

lemma Carries.full_iff (h : Carries n₀ xs k r) (hlt : N < 2 ^ w) :
    r.tail = r.head + BitVec.ofNat w N ↔ xs.length = k + N := by
  rw [h.head, h.tail, BitVec.add_assoc, ← BitVec.ofNat_add]
  constructor
  · intro he
    have htaken := h.taken
    exact count_inj hlt h.room (by omega) he
  · intro he
    rw [he]

/-- The difference of the counters is the number of elements. -/
lemma Carries.length (h : Carries n₀ xs k r) (hlt : N < 2 ^ w) :
    (r.tail - r.head).toNat = xs.length - k := by
  have htaken := h.taken
  have hroom := h.room
  have hsub : r.tail - r.head = BitVec.ofNat w (xs.length - k) := by
    rw [BitVec.sub_eq_iff_eq_add, h.head, h.tail, BitVec.add_comm (BitVec.ofNat w _),
      BitVec.add_assoc, ← BitVec.ofNat_add]
    congr 2
    omega
  rw [hsub, BitVec.toNat_ofNat, Nat.mod_eq_of_lt (by omega)]

/-- Writing to the place after the last element, where there is room, overwrites nothing. -/
lemma Carries.write (h : Carries n₀ xs k r) (hN : N ∣ 2 ^ w) (hroom : xs.length < k + N) (x : α) :
    Carries n₀ xs k { r with data := Function.update r.data (index r.tail) x } := by
  refine ⟨h.head, h.tail, h.taken, h.room, fun i y hi hy => ?_⟩
  have hlen := (List.getElem?_eq_some_iff.mp hy).1
  change Function.update r.data (index r.tail) x (index (n₀ + BitVec.ofNat w i)) = y
  rw [h.tail, Function.update_of_ne (index_ne hN hlen (by omega))]
  exact h.data i y hi hy

/-- Incrementing the counter makes an element of what has been written there. -/
lemma Carries.advance (h : Carries n₀ xs k r) (hroom : xs.length < k + N) :
    Carries n₀ (xs ++ [r.data (index r.tail)]) k { r with tail := r.tail + 1 } := by
  have htaken := h.taken
  refine ⟨h.head, ?_, by simp; omega, by simp; omega, fun i y hi hy => ?_⟩
  · change r.tail + 1 = _
    rw [h.tail, BitVec.add_assoc, List.length_append, BitVec.ofNat_add]
    rfl
  · rcases Nat.lt_or_ge i xs.length with hlen | hlen
    · rw [List.getElem?_append_left hlen] at hy
      exact h.data i y hi hy
    · rw [List.getElem?_append_right hlen] at hy
      have heq : i = xs.length := by
        have := (List.getElem?_eq_some_iff.mp hy).1
        simp at this
        omega
      subst heq
      rw [Nat.sub_self, List.getElem?_cons_zero, h.tail] at hy
      exact Option.some.inj hy

/-- **Putting in** an element where there is room overwrites nothing. -/
theorem Carries.push (h : Carries n₀ xs k r) (hN : N ∣ 2 ^ w) (hlt : N < 2 ^ w)
    (hroom : r.tail ≠ r.head + BitVec.ofNat w N) (x : α) :
    Carries n₀ (xs ++ [x]) k (push x r) := by
  have hne : xs.length ≠ k + N := fun he => hroom ((h.full_iff hlt).mpr he)
  have hle := h.room
  have hput := (h.write hN (by omega) x).advance (by omega)
  simp only [Function.update_self] at hput
  exact hput

/-- **Taking out**: the front is the oldest element still there. -/
theorem Carries.pop (h : Carries n₀ xs k r) (hne : xs.length ≠ k) :
    xs[k]? = some (front r) ∧ Carries n₀ xs (k + 1) (pop r) := by
  have htaken := h.taken
  have hlt : k < xs.length := by omega
  have hk : xs[k]? = some xs[k] := List.getElem?_eq_getElem hlt
  refine ⟨?_, ?_, h.tail, hlt, ?_, fun i x hi hx => h.data i x (by omega) hx⟩
  · rw [hk, ← h.data k _ le_rfl hk]
    simp only [front, h.head]
  · change r.head + 1 = _
    rw [h.head, BitVec.add_assoc, BitVec.ofNat_add]
    rfl
  · have := h.room
    change xs.length ≤ k + 1 + N
    omega

/-- What is there is what was put in and not taken out. -/
theorem Carries.contents (h : Carries n₀ xs k r) (hlt : N < 2 ^ w) : contents r = xs.drop k := by
  apply List.ext_getElem?
  intro i
  simp only [Ring.contents, List.getElem?_map, List.getElem?_drop, h.length hlt]
  rcases Nat.lt_or_ge i (xs.length - k) with hi | hi
  · have hlen : k + i < xs.length := by omega
    rw [List.getElem?_range hi, List.getElem?_eq_getElem hlen, Option.map_some, h.head,
      BitVec.add_assoc, ← BitVec.ofNat_add]
    exact congrArg some (h.data _ _ (by omega) (List.getElem?_eq_getElem hlen))
  · rw [List.getElem?_eq_none (by simpa using hi), List.getElem?_eq_none (by omega)]
    rfl

end Xv6.Data.Ring
