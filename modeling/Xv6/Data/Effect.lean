import Xv6.Conc.Prog

/-!
Computations on a state that may panic, and what holds after them.
-/

namespace Xv6.Data.Effect

open Xv6.Conc

variable {σ α β : Type}

def Eff (σ α : Type) : Type := σ → Outcome σ α

namespace Eff

def ret (a : α) : Eff σ α := fun s => .ok s a

def bind (x : Eff σ α) (f : α → Eff σ β) : Eff σ β := fun s => match x s with
  | .ok s' a => f a s'
  | .panic msg => .panic msg

instance : Monad (Eff σ) where
  pure := ret
  bind := bind

def look (f : σ → α) : Eff σ α := fun s => .ok s (f s)

def change (f : σ → σ) : Eff σ Unit := fun s => .ok (f s) ()

def fail (msg : String) : Eff σ α := fun _ => .panic msg

/-- `x` does not panic in `s`, but as `may` allows, and what it comes to satisfies `Q`. -/
def wp (may : String → Prop) (x : Eff σ α) (Q : α → σ → Prop) (s : σ) : Prop := match x s with
  | .ok s' a => Q a s'
  | .panic msg => may msg

variable {may : String → Prop} {Q Q' : α → σ → Prop} {s s' : σ} {x : Eff σ α}

@[simp] lemma wp_pure (a : α) : wp may (pure a) Q s ↔ Q a s := Iff.rfl

@[simp] lemma wp_look (f : σ → α) : wp may (look f) Q s ↔ Q (f s) s := Iff.rfl

@[simp] lemma wp_change (f : σ → σ) {Q : Unit → σ → Prop} : wp may (change f) Q s ↔ Q () (f s) :=
  Iff.rfl

@[simp] lemma wp_fail (msg : String) : wp may (fail msg) Q s ↔ may msg := Iff.rfl

lemma look_ok (f : σ → α) : look f s = .ok s (f s) := rfl

lemma bind_ok {f : α → Eff σ β} {a : α} (h : x s = .ok s' a) : (x >>= f) s = f a s' := by
  change bind x f s = f a s'
  simp only [bind, h]

@[simp] lemma wp_bind (f : α → Eff σ β) {Q : β → σ → Prop} :
    wp may (x >>= f) Q s ↔ wp may x (fun a s' => wp may (f a) Q s') s := by
  cases h : x s with
  | ok s' a =>
    have hb : (x >>= f) s = f a s' := bind_ok h
    simp only [wp, hb, h]
  | panic msg =>
    have hb : (x >>= f) s = .panic msg := by
      change bind x f s = .panic msg
      simp only [bind, h]
    simp only [wp, hb, h]

@[simp] lemma wp_ite {c : Prop} [Decidable c] {y : Eff σ α} :
    wp may (if c then x else y) Q s ↔ (c → wp may x Q s) ∧ (¬c → wp may y Q s) := by
  split_ifs with h <;> simp [h]

lemma wp_mono (h : wp may x Q s) (hQ : ∀ a s', Q a s' → Q' a s') : wp may x Q' s := by
  unfold wp at *
  split
  · rename_i heq
    rw [heq] at h
    exact hQ _ _ h
  · rename_i heq
    rw [heq] at h
    exact h

lemma wp_may {may' : String → Prop} (h : wp may x Q s) (hm : ∀ msg, may msg → may' msg) :
    wp may' x Q s := by
  unfold wp at *
  split <;> rename_i heq <;> rw [heq] at h
  · exact h
  · exact hm _ h

/-- Following `x` by what is known of it already. -/
lemma wp_call {f : α → Eff σ β} {Q' : β → σ → Prop} (h : wp may x Q s)
    (hf : ∀ a s', Q a s' → wp may (f a) Q' s') : wp may (x >>= f) Q' s :=
  (wp_bind f).mpr (wp_mono h hf)

lemma wp_and {may' : String → Prop} (h : wp may x Q s) (h' : wp may' x Q' s) :
    wp may x (fun a s' => Q a s' ∧ Q' a s') s := by
  unfold wp at *
  split <;> rename_i heq <;> rw [heq] at h h'
  · exact ⟨h, h'⟩
  · exact h

/-- What `x` comes to is a run of it. -/
lemma wp_of_run (h : wp may x Q s) : wp may x (fun a s' => x s = .ok s' a ∧ Q a s') s := by
  unfold wp at *
  split
  · rename_i heq
    rw [heq] at h
    exact ⟨heq, h⟩
  · rename_i heq
    rw [heq] at h
    exact h

lemma wp_of_ok {a : α} (h : x s = .ok s' a) (hQ : Q a s') : wp may x Q s := by
  unfold wp
  rw [h]
  exact hQ

lemma wp.ok {a : α} (h : wp may x Q s) (hx : x s = .ok s' a) : Q a s' := by
  unfold wp at h
  rwa [hx] at h

lemma wp.panic {msg : String} (h : wp may x Q s) (hx : x s = .panic msg) : may msg := by
  unfold wp at h
  rwa [hx] at h

/-- What `x` comes to in `s`, unless it panics. -/
def value (x : Eff σ α) (s : σ) : Option α := match x s with
  | .ok _ a => some a
  | .panic _ => none

/-- The state after `x`, or `s` where it panics. -/
def after (x : Eff σ α) (s : σ) : σ := match x s with
  | .ok s' _ => s'
  | .panic _ => s

lemma ok_of_value {a : α} (h : value x s = some a) : x s = .ok (after x s) a := by
  unfold value at h
  unfold after
  cases hx : x s with
  | ok s' b =>
    rw [hx] at h
    obtain rfl : b = a := by simpa using h
    rfl
  | panic msg =>
    rw [hx] at h
    cases h

end Eff

end Xv6.Data.Effect
