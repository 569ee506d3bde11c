import Mathlib.Algebra.BigOperators.Group.Finset.Basic
import Xv6.Conc.Alone
import Xv6.Fs.Bytes
import Xv6.Fs.Inode

/-!
The functions of `fs.c` when one process runs alone, and what they do to the inode table.
-/

namespace Xv6.Fs.Solo

open Xv6.Conc Xv6.Conc.Prog Xv6.Conc.Alone Xv6.Data.Effect Xv6.Data.Effect.Eff Xv6.Fs.Content
  Xv6.Fs.Path Xv6.Fs.Kernel Xv6.Fs.Inode Xv6.Fs.Sound Xv6.Fs.Bytes

/-- The kernel without new calls. -/
def solo (NPROC : ℕ) : Sys (State NPROC) (Fin NPROC) Choice (Act NPROC) Res ℤ where
  sem := sem
  enter _ _ _ _ _ := False

variable {NPROC : ℕ} {p : Fin NPROC} {may : String → Prop} {α β : Type} {s s' : State NPROC}
  {i : Fin NINODE} {dev inum : ℕ}

/-- Process `p` runs `x` alone from `s`. -/
abbrev Runs (may : String → Prop) (p : Fin NPROC) (x : P NPROC α) (s : State NPROC)
    (Q : α → State NPROC → Prop) : Prop := Does (solo NPROC) may p Q x s

variable {Q : α → State NPROC → Prop}

/-! ### Actions -/

def someChoice : Choice := ⟨false, 0, fun _ => none, fun _ => false, 0⟩

/-- An action that always does the same. -/
lemma runs_act {a : Act NPROC} {f : Res a → P NPROC α} {r : Res a}
    (h : ∀ c, sem p a c s = some (.ok s' r)) (hf : Runs may p (f r) s' Q) :
    Runs may p (act a >>= f) s Q := by
  refine .act ⟨someChoice, ?_⟩ (fun c msg hs => ?_) fun c s'' r' hs => ?_
  · change (sem p a someChoice s).isSome = true
    rw [h]
    rfl
  · change sem p a c s = _ at hs
    rw [h] at hs
    cases hs
  · change sem p a c s = _ at hs
    rw [h] at hs
    cases hs
    exact hf

lemma runs_call {x : P NPROC β} {f : β → P NPROC α} {Q' : β → State NPROC → Prop}
    (h : Runs may p x s Q') (hf : ∀ b s', Q' b s' → Runs may p (f b) s' Q) :
    Runs may p (x >>= f) s Q := Does.bind h hf

lemma runs_panic {msg : String} (h : may msg) : Runs may p (kpanic msg) s Q := by
  refine .act ⟨someChoice, rfl⟩ (fun c m hs => ?_) fun c s' r hs => ?_
  · cases hs
    exact h
  · cases hs

lemma runs_acquire {l : Lock} {f : Unit → P NPROC α} (h : s.lock l = none)
    (hf : Runs may p (f ()) (setLock l (some p) s) Q) : Runs may p (act (.acquire l) >>= f) s Q := by
  refine runs_act (a := .acquire l) (r := ()) (fun c => ?_) hf
  simp [sem, h]

lemma runs_release {l : Lock} {f : Unit → P NPROC α} (h : s.lock l = some p)
    (hf : Runs may p (f ()) (setLock l none s) Q) : Runs may p (act (.release l) >>= f) s Q := by
  refine runs_act (a := .release l) (r := ()) (fun c => ?_) hf
  simp [sem, h]

lemma runs_release_last {l : Lock} {Q : Unit → State NPROC → Prop} (h : s.lock l = some p)
    (hQ : Q () (setLock l none s)) : Runs may p (act (.release l)) s Q :=
  runs_release (f := .ret) h (.ret hQ)

lemma runs_beginOp {f : Unit → P NPROC α}
    (hf : Runs may p (f ()) { s with store := { s.store with outstanding := s.store.outstanding + 1 } } Q) :
    Runs may p (act .beginOp >>= f) s Q := by
  refine .act ⟨someChoice, rfl⟩ (fun c m hs => ?_) fun c s' r hs => ?_
  · change (if c.fails then none else _) = _ at hs
    split_ifs at hs
    cases hs
  · change (if c.fails then none else _) = _ at hs
    split_ifs at hs
    cases hs
    exact hf

/-- What is done to an inode on the disk. -/
lemma runs_onInode {a : Act NPROC} {f : Res a → P NPROC α} {x : Eff Store (Dinode × Res a)}
    {Q' : Dinode × Res a → Store → Prop} (h : ∀ c, sem p a c s = some (onInode i x s))
    (hx : wp Never x Q' s.store)
    (hf : ∀ d r st, Q' (d, r) st →
      Runs may p (f r) (setInode i { s.inode i with copy := d } { s with store := st }) Q) :
    Runs may p (act a >>= f) s Q := by
  unfold wp at hx
  split at hx
  · rename_i st dr hst
    obtain ⟨d, r⟩ := dr
    refine runs_act (fun c => ?_) (hf d r st hx)
    rw [h c, onInode, hst]
  · exact hx.elim

lemma runs_onStore {a : Act NPROC} {f : Res a → P NPROC α} {x : Eff Store (Res a)}
    {Q' : Res a → Store → Prop} (h : ∀ c, sem p a c s = some (onStore x s))
    (hx : wp Never x Q' s.store)
    (hf : ∀ r st, Q' r st → Runs may p (f r) { s with store := st } Q) :
    Runs may p (act a >>= f) s Q := by
  unfold wp at hx
  split at hx
  · rename_i st r hst
    refine runs_act (fun c => ?_) (hf r st hx)
    rw [h c, onStore, hst]
  · exact hx.elim

/-! ### Changes of the state -/

@[simp] lemma setInode_inode (v : Inode NPROC) (j : Fin NINODE) :
    (setInode i v s).inode j = if j = i then v else s.inode j := by
  simp [setInode, Function.update_apply]

@[simp] lemma setInode_setInode (v w : Inode NPROC) :
    setInode i w (setInode i v s) = setInode i w s := by
  simp [setInode]

@[simp] lemma setInode_self : setInode i (s.inode i) s = s := by
  simp [setInode]

@[simp] lemma setInode_lock (v : Inode NPROC) : (setInode i v s).lock = s.lock := rfl

@[simp] lemma setInode_store (v : Inode NPROC) : (setInode i v s).store = s.store := rfl

@[simp] lemma setLock_inode (l : Lock) (o : Option (Fin NPROC)) :
    (setLock l o s).inode = s.inode := rfl

@[simp] lemma setLock_lock (l : Lock) (o : Option (Fin NPROC)) : (setLock l o s).lock l = o := by
  simp [setLock]

lemma entry_locked (l : Lock) (v : Inode NPROC) :
    (setInode i v (setLock l (some p) s)).lock l = some p := by simp

/-- An entry has been changed under a lock. -/
lemma entry_unlocked {l : Lock} (hl : s.lock l = none) (v : Inode NPROC) :
    setLock l none (setInode i v (setLock l (some p) s)) = setInode i v s := by
  simp [setLock, setInode, ← hl]

/-! ### The inode table -/

/-- Entry `i` has got a reference to the inode. -/
inductive Took (dev inum : ℕ) (s : State NPROC) (i : Fin NINODE) : State NPROC → Prop
  | hit (hr : 0 < (s.inode i).ref) (hd : (s.inode i).dev = dev) (hi : (s.inode i).inum = inum) :
      Took dev inum s i (setInode i { s.inode i with ref := (s.inode i).ref + 1 } s)
  | miss (hr : (s.inode i).ref = 0)
      (hn : ∀ j, 0 < (s.inode j).ref → (s.inode j).dev = dev → (s.inode j).inum ≠ inum) :
      Took dev inum s i
        (setInode i { s.inode i with dev := dev, inum := inum, ref := 1, valid := false } s)

/-- No entry is free for a further inode. -/
def Full (s : State NPROC) : Prop := ∀ i, (s.inode i).ref ≠ 0

def TableFull (s : State NPROC) (msg : String) : Prop := msg = "iget: no inodes" ∧ Full s

lemma iget_runs (hl : s.lock .itable = none) (hm : ∀ msg, TableFull s msg → may msg) :
    Runs may p (iget dev inum) s (Took dev inum s) := by
  unfold iget
  refine runs_acquire hl (runs_act (a := .scan dev inum) (fun c => rfl) ?_)
  cases hfind : findInode (setLock .itable (some p) s) dev inum with
  | some j =>
    have hj := List.find?_some hfind
    simp only [decide_eq_true_eq] at hj
    refine runs_act (a := .incRef j) (r := ()) (fun c => rfl) (runs_release (entry_locked _ _) (.ret ?_))
    rw [entry_unlocked hl]
    exact .hit hj.1 hj.2.1 hj.2.2
  | none =>
    have hmiss := List.find?_eq_none.mp hfind
    simp only [List.mem_finRange, forall_const, decide_eq_true_eq, not_and] at hmiss
    cases hfree : freeInode (setLock .itable (some p) s) with
    | some j =>
      have hj := List.find?_some hfree
      simp only [decide_eq_true_eq] at hj
      refine runs_act (a := .claim j dev inum) (r := ()) (fun c => rfl)
        (runs_release (entry_locked _ _) (.ret ?_))
      rw [entry_unlocked hl]
      exact .miss hj hmiss
    | none =>
      have hfull := List.find?_eq_none.mp hfree
      simp only [List.mem_finRange, forall_const, decide_eq_true_eq] at hfull
      exact runs_panic (hm _ ⟨rfl, hfull⟩)

lemma idup_runs (hl : s.lock .itable = none) :
    Runs may p (idup i) s fun r s' => r = i ∧
      s' = setInode i { s.inode i with ref := (s.inode i).ref + 1 } s := by
  unfold idup
  refine runs_acquire hl (runs_act (a := .incRef i) (r := ()) (fun c => rfl)
    (runs_release (entry_locked _ _) (.ret ⟨rfl, entry_unlocked hl _⟩)))

/-- An inode that is locked has been read from the disk. -/
def locked (p : Fin NPROC) (d : Dinode) (v : Inode NPROC) : Inode NPROC :=
  { v with lock := some p, valid := true, copy := d }

lemma ilock_runs (hr : 0 < (s.inode i).ref) (hl : (s.inode i).lock = none)
    (hc : (s.inode i).valid = true → (s.inode i).copy = s.store.dinode (s.inode i).inum)
    (ht : (s.store.dinode (s.inode i).inum).type ≠ 0) :
    Runs may p (ilock i) s fun _ s' =>
      s' = setInode i (locked p (s.store.dinode (s.inode i).inum) (s.inode i)) s := by
  unfold ilock
  refine runs_act (a := .inode i) (fun c => rfl) ?_
  rw [if_neg (by omega)]
  refine runs_act (a := .acquiresleep i) (r := ()) (fun c => by simp [sem, hl]; rfl) ?_
  refine runs_act (a := .inode i) (fun c => rfl) ?_
  unfold whenever
  by_cases hv : (s.inode i).valid = true
  · rw [if_neg (by simp [hv])]
    refine .ret ?_
    congr 1
    simp [locked, ← hc hv, hv]
  · rw [if_pos (by simpa using hv)]
    refine runs_act (a := .load i) (r := ()) (fun c => rfl)
      (runs_act (a := .set i (.valid true)) (r := ()) (fun c => rfl)
      (runs_act (a := .inode i) (fun c => rfl) ?_))
    rw [if_neg (by simpa [Field.write, setInode] using ht)]
    refine .ret ?_
    simp [Field.write, locked]

lemma iunlock_runs (hr : 0 < (s.inode i).ref) (hl : (s.inode i).lock = some p) :
    Runs may p (iunlock i) s fun _ s' => s' = setInode i { s.inode i with lock := none } s := by
  unfold iunlock
  refine runs_act (a := .holdingsleep i) (fun c => rfl) (runs_act (a := .inode i) (fun c => rfl) ?_)
  rw [if_neg (by simp [hl]; omega)]
  exact runs_act (a := .releasesleep i) (r := ()) (fun c => rfl) (.ret rfl)

/-- A reference that is not the last, or that is to an inode with links, is only given up. -/
lemma iput_runs (hl : s.lock .itable = none)
    (hk : ¬((s.inode i).ref = 1 ∧ (s.inode i).valid = true ∧ (s.inode i).copy.nlink = 0)) :
    Runs may p (iput i) s fun _ s' =>
      s' = setInode i { s.inode i with ref := (s.inode i).ref - 1 } s := by
  unfold iput
  refine runs_acquire hl (runs_act (a := .inode i) (fun c => rfl) ?_)
  unfold whenever
  change Runs may p ((if (s.inode i).ref = 1 ∧ (s.inode i).valid = true ∧
    (s.inode i).copy.nlink = 0 then _ else _) >>= _) _ _
  rw [if_neg hk]
  refine runs_act (a := .decRef i) (r := ()) (fun c => rfl) ?_
  exact runs_release_last (entry_locked _ _) (entry_unlocked hl _)

end Xv6.Fs.Solo
