import Mathlib.Logic.Function.Basic
import Mathlib.Data.List.Basic
import Mathlib.Tactic

/-!
Sequences of writes to a store, and what is left of them when they are cut short.

A store maps keys to values and a write replaces one value. Writes reach the store in issue
order, so a machine that stops leaves the store after a prefix of them.
-/

namespace Xv6.Disk.Writes

variable {K V : Type*} [DecidableEq K]

/-- The store after the writes `ws`, in issue order. -/
def apply (d : K → V) (ws : List (K × V)) : K → V :=
  ws.foldl (fun d w => Function.update d w.1 w.2) d

/-- The store a machine leaves that stops after `k` of the writes `ws`. -/
def cut (k : ℕ) (d : K → V) (ws : List (K × V)) : K → V := apply d (ws.take k)

@[simp] lemma apply_nil (d : K → V) : apply d [] = d := rfl

@[simp] lemma apply_cons (d : K → V) (w : K × V) (ws : List (K × V)) :
    apply d (w :: ws) = apply (Function.update d w.1 w.2) ws := rfl

lemma apply_append (d : K → V) (us ws : List (K × V)) :
    apply d (us ++ ws) = apply (apply d us) ws := by
  simp [apply, List.foldl_append]

/-- A key that no write names keeps its value. -/
lemma apply_of_notMem {ws : List (K × V)} {x : K} (h : x ∉ ws.map Prod.fst) (d : K → V) :
    apply d ws x = d x := by
  induction ws generalizing d with
  | nil => rfl
  | cons w ws ih =>
    simp only [List.map_cons, List.mem_cons, not_or] at h
    rw [apply_cons, ih h.2, Function.update_of_ne h.1]

/-- After the writes, a key holds the last write to it, whatever it held before. -/
lemma apply_congr {ws : List (K × V)} {x : K} {d e : K → V}
    (h : x ∉ ws.map Prod.fst → d x = e x) : apply d ws x = apply e ws x := by
  induction ws generalizing d e with
  | nil => exact h (by simp)
  | cons w ws ih =>
    rw [apply_cons, apply_cons]
    refine ih fun hx => ?_
    by_cases hw : x = w.1
    · subst hw; simp
    · rw [Function.update_of_ne hw, Function.update_of_ne hw]
      exact h (by simp [hw, hx])

/-- **Replay**: writes of which any part was already made give the same store again. -/
lemma apply_cut (k : ℕ) (d : K → V) (ws : List (K × V)) : apply (cut k d ws) ws = apply d ws := by
  funext x
  refine apply_congr fun hx => apply_of_notMem (fun hk => hx ?_) d
  obtain ⟨w, hw, rfl⟩ := List.mem_map.mp hk
  exact List.mem_map.mpr ⟨w, List.mem_of_mem_take hw, rfl⟩

/-- A write ahead of a list that writes the same key is absorbed by the list. -/
lemma apply_update_mem {ws : List (K × V)} {w : K × V} (hw : w ∈ ws) (d : K → V) :
    apply (Function.update d w.1 w.2) ws = apply d ws := by
  funext x
  refine apply_congr fun hx => Function.update_of_ne (fun h => hx ?_) _ _
  exact h ▸ List.mem_map_of_mem hw

/-- Among writes to distinct keys, each key ends with its own write. -/
lemma apply_of_mem {ws : List (K × V)} (hnd : (ws.map Prod.fst).Nodup) {w : K × V}
    (hw : w ∈ ws) (d : K → V) : apply d ws w.1 = w.2 := by
  induction ws generalizing d with
  | nil => simp at hw
  | cons v ws ih =>
    simp only [List.map_cons, List.nodup_cons] at hnd
    rw [apply_cons]
    rcases List.mem_cons.mp hw with rfl | hw'
    · rw [apply_of_notMem hnd.1]; simp
    · exact ih hnd.2 hw' _

end Xv6.Disk.Writes
