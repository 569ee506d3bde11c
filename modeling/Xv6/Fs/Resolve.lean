import Xv6.Fs.Dir

/-!
Path resolution by a process that runs alone.
-/

namespace Xv6.Fs.Resolve

open Xv6.Conc Xv6.Conc.Prog Xv6.Conc.Alone Xv6.Data.Slots Xv6.Disk Xv6.Fs.Content Xv6.Fs.Path
  Xv6.Fs.Kernel Xv6.Fs.Inode Xv6.Fs.Sound Xv6.Fs.Bytes Xv6.Fs.Solo Xv6.Fs.Dir

variable {NPROC : ℕ} {p : Fin NPROC} {may : String → Prop} {s s₁ s₂ : State NPROC}
  {i ip : Fin NINODE} {δ : Fin NINODE → ℤ} {dev inum k : ℕ} {name : Name} {path : Path}

/-! ### The inode table -/

/-- The entries that are referred to are for different inodes, and have what the disk has. -/
structure Tidy (s : State NPROC) : Prop where
  nonneg : ∀ i, 0 ≤ (s.inode i).ref
  unique : ∀ i j, 0 < (s.inode i).ref → 0 < (s.inode j).ref →
    (s.inode i).inum = (s.inode j).inum → i = j
  dev : ∀ i, 0 < (s.inode i).ref → (s.inode i).dev = ROOTDEV
  copy : ∀ i, 0 < (s.inode i).ref → (s.inode i).valid = true →
    (s.inode i).copy = s.store.dinode (s.inode i).inum

/-- The process has taken `δ i` references to entry `i`, and nothing else has changed but what
entries without references are for. -/
structure Moved (δ : Fin NINODE → ℤ) (s s₁ : State NPROC) : Prop where
  rest : s₁ = { s with inode := s₁.inode }
  ref : ∀ i, (s₁.inode i).ref = (s.inode i).ref + δ i
  dev : ∀ i, (s.inode i).ref ≠ 0 → (s₁.inode i).dev = (s.inode i).dev
  inum : ∀ i, (s.inode i).ref ≠ 0 → (s₁.inode i).inum = (s.inode i).inum

lemma Moved.refl (s : State NPROC) : Moved 0 s s :=
  ⟨rfl, fun _ => (add_zero _).symm, fun _ _ => rfl, fun _ _ => rfl⟩

lemma Moved.store (h : Moved δ s s₁) : s₁.store = s.store := by rw [h.rest]

lemma Moved.lock (h : Moved δ s s₁) : s₁.lock = s.lock := by rw [h.rest]

/-- An entry is locked, unlocked, read or given up. -/
lemma Moved.entry {v : Inode NPROC} {n : ℤ} (h : Moved δ s s₁)
    (hr : v.ref = (s₁.inode i).ref + n) (hd : v.dev = (s₁.inode i).dev)
    (hi : v.inum = (s₁.inode i).inum) : Moved (δ + Pi.single i n) s (setInode i v s₁) := by
  have hrest := h.rest
  refine ⟨?_, fun j => ?_, fun j hj => ?_, fun j hj => ?_⟩
  · unfold setInode
    rw [hrest]
  · have := h.ref j
    simp only [setInode_inode, Pi.add_apply, Pi.single_apply]
    split_ifs with hji
    · rw [hr, ← hji, this, add_assoc]
    · rw [this, add_zero]
  · simp only [setInode_inode]
    split_ifs with hji
    · rw [hd, ← hji, h.dev j hj]
    · exact h.dev j hj
  · simp only [setInode_inode]
    split_ifs with hji
    · rw [hi, ← hji, h.inum j hj]
    · exact h.inum j hj

lemma Moved.took (h : Moved δ s s₁) (hs : Tidy s) (hδ : ∀ j, 0 ≤ δ j)
    (ht : Took dev inum s₁ i s₂) : Moved (δ + Pi.single i 1) s s₂ := by
  cases ht with
  | hit hr hd hi => exact h.entry rfl rfl rfl
  | miss hr hn =>
    have hzero : (s.inode i).ref = 0 := by
      have h1 := h.ref i
      have h2 := hs.nonneg i
      have h3 := hδ i
      omega
    have hrest := h.rest
    refine ⟨?_, fun j => ?_, fun j hj => ?_, fun j hj => ?_⟩
    · unfold setInode
      rw [hrest]
    · have := h.ref j
      simp only [setInode_inode, Pi.add_apply, Pi.single_apply]
      split_ifs with hji
      · subst hji
        simp only
        omega
      · rw [this, add_zero]
    · have hji : j ≠ i := fun hji => hj (hji ▸ hzero)
      simp only [setInode_inode, if_neg hji]
      exact h.dev j hj
    · have hji : j ≠ i := fun hji => hj (hji ▸ hzero)
      simp only [setInode_inode, if_neg hji]
      exact h.inum j hj

lemma Tidy.entry {v : Inode NPROC} (h : Tidy s) (hold : 0 < (s.inode i).ref)
    (hr : 0 ≤ v.ref) (hd : v.dev = (s.inode i).dev) (hi : v.inum = (s.inode i).inum)
    (hc : v.valid = true → v.copy = s.store.dinode v.inum) : Tidy (setInode i v s) := by
  -- an entry that is referred to was so before, and for the same inode
  have hback : ∀ j, 0 < ((setInode i v s).inode j).ref → 0 < (s.inode j).ref ∧
      ((setInode i v s).inode j).inum = (s.inode j).inum := by
    intro j hj
    simp only [setInode_inode] at hj ⊢
    split_ifs at hj ⊢ with hji
    · subst hji
      exact ⟨hold, hi⟩
    · exact ⟨hj, rfl⟩
  refine ⟨fun j => ?_, fun j l hj hl he => ?_, fun j hj => ?_, fun j hj hv => ?_⟩
  · simp only [setInode_inode]
    split_ifs
    · exact hr
    · exact h.nonneg j
  · obtain ⟨h1, h2⟩ := hback j hj
    obtain ⟨h3, h4⟩ := hback l hl
    exact h.unique j l h1 h3 (h2.symm.trans (he.trans h4))
  · obtain ⟨h1, -⟩ := hback j hj
    have := h.dev j h1
    simp only [setInode_inode]
    split_ifs with hji
    · rw [hd, ← hji, this]
    · exact this
  · obtain ⟨h1, -⟩ := hback j hj
    simp only [setInode_inode, setInode_store] at hv ⊢
    split_ifs at hv ⊢ with hji
    · exact hc hv
    · exact h.copy j h1 hv

lemma Tidy.took (h : Tidy s) (ht : Took ROOTDEV inum s i s₁) : Tidy s₁ := by
  cases ht with
  | hit hr hd hi => exact h.entry hr (by simp only; omega) rfl rfl fun hv => h.copy i hr hv
  | miss hr hn =>
    refine ⟨fun j => ?_, fun j l hj hl he => ?_, fun j hj => ?_, fun j hj hv => ?_⟩
    · simp only [setInode_inode]
      split_ifs
      · exact Int.one_nonneg
      · exact h.nonneg j
    · simp only [setInode_inode] at hj hl he
      split_ifs at hj hl he with h1 h2 h2
      · rw [h1, h2]
      · exact absurd he.symm (hn l hl (h.dev l hl))
      · exact absurd he (hn j hj (h.dev j hj))
      · exact h.unique j l hj hl he
    · simp only [setInode_inode] at hj ⊢
      split_ifs at hj ⊢ with hji
      · rfl
      · exact h.dev j hj
    · simp only [setInode_inode, setInode_store] at hj hv ⊢
      split_ifs at hj hv ⊢ with hji
      · exact h.copy j hj hv

/-- The references to an inode. -/
def refs (s : State NPROC) (inum : ℕ) : ℤ :=
  ∑ i, if (s.inode i).inum = inum then (s.inode i).ref else 0

/-- The references by inode. -/
lemma Moved.refs {n : ℤ} (h : Moved (Pi.single i n) s s₁) :
    refs s₁ inum = refs s inum + if (s₁.inode i).inum = inum then n else 0 := by
  have hterm : ∀ j, (if (s₁.inode j).inum = inum then (s₁.inode j).ref else 0) =
      (if (s.inode j).inum = inum then (s.inode j).ref else 0) +
        if j = i then (if (s₁.inode i).inum = inum then n else 0) else 0 := by
    intro j
    have hr := h.ref j
    rw [Pi.single_apply] at hr
    by_cases hz : (s.inode j).ref = 0
    · rw [hr, hz]
      by_cases hji : j = i
      · subst hji
        simp
      · simp [hji]
    · rw [hr, h.inum j hz]
      by_cases hji : j = i
      · subst hji
        rw [h.inum j hz]
        simp only [if_true]
        split_ifs <;> omega
      · simp [hji]
  unfold Resolve.refs
  rw [Finset.sum_congr rfl fun j _ => hterm j, Finset.sum_add_distrib, Finset.sum_ite_eq']
  simp

/-! ### The tree -/

/-- The entries of directory `d` on the disk. -/
def entries (st : Store) (d : ℕ) : List (Option (Name × ℕ)) :=
  (slots st.block (st.dinode d)).map live

def find (st : Store) (d : ℕ) (name : Name) : Option ℕ := get (entries st d) (string name)

/-- Looking up one name after another. -/
def walk (st : Store) : ℕ → List Name → Option ℕ
  | d, [] => some d
  | d, name :: names =>
    if (st.dinode d).type = T_DIR then (find st d name).bind fun e => walk st e names else none

/-- The directory before the last name, and that name. -/
def walkParent (st : Store) (d : ℕ) (names : List Name) : Option (ℕ × Name) :=
  names.getLast?.bind fun name => (walk st d names.dropLast).bind fun e =>
    if (st.dinode e).type = T_DIR then some (e, name) else none

/-- Inodes among which every lookup stays. None of them can be freed. -/
structure Tree (s : State NPROC) (S : Set ℕ) : Prop where
  alive : ∀ k ∈ S, (s.store.dinode k).type ≠ 0 ∧
    ((s.store.dinode k).nlink = 0 → ∃ i, 0 < (s.inode i).ref ∧ (s.inode i).inum = k)
  file : ∀ k ∈ S, (s.store.dinode k).type = T_DIR → FileOk s.store.block (s.store.dinode k)
  whole : ∀ k ∈ S, (s.store.dinode k).type = T_DIR → (s.store.dinode k).size % DIRENT = 0
  closed : ∀ k ∈ S, (s.store.dinode k).type = T_DIR → ∀ name e, find s.store k name = some e → e ∈ S

/-- No inode is locked. -/
def Unlocked (s : State NPROC) : Prop := ∀ i, (s.inode i).lock = none

/-- The process has one reference, to entry `ip`. -/
structure At (s : State NPROC) (ip : Fin NINODE) (s₁ : State NPROC) : Prop where
  moved : Moved (Pi.single ip 1) s s₁
  tidy : Tidy s₁
  free : Unlocked s₁

/-- The process has given all references back. -/
structure Back (s s₁ : State NPROC) : Prop where
  moved : Moved 0 s s₁
  tidy : Tidy s₁
  free : Unlocked s₁

lemma At.ref (h : At s ip s₁) (hs : Tidy s) : 0 < (s₁.inode ip).ref := by
  have h1 := h.moved.ref ip
  have h2 := hs.nonneg ip
  rw [Pi.single_eq_same] at h1
  omega

/-- A reference to an inode that has links, or that others refer to, is not the last. -/
lemma not_last (h : Moved δ s s₁) (ht : Tidy s₁) (hδ : ∀ j, 0 ≤ δ j) (hip : 1 ≤ δ ip)
    (hal : (s.store.dinode (s₁.inode ip).inum).nlink = 0 →
      ∃ j, 0 < (s.inode j).ref ∧ (s.inode j).inum = (s₁.inode ip).inum) :
    ¬((s₁.inode ip).ref = 1 ∧ (s₁.inode ip).valid = true ∧ (s₁.inode ip).copy.nlink = 0) := by
  rintro ⟨h1, h2, h3⟩
  rw [ht.copy ip (by omega) h2, h.store] at h3
  obtain ⟨j, hj, hji⟩ := hal h3
  have h4 := h.ref j
  have h5 := hδ j
  have h6 := h.ref ip
  have hsame := h.inum j hj.ne'
  obtain rfl := ht.unique j ip (by omega) (by omega) (hsame.trans hji)
  omega

lemma iput_moved (h : Moved δ s s₁) (ht : Tidy s₁) (hδ : ∀ j, 0 ≤ δ j) (hip : 1 ≤ δ ip) (hs : Tidy s)
    (hl : s.lock .itable = none) (hf : Unlocked s₁) (hal : (s.store.dinode (s₁.inode ip).inum).nlink = 0 →
      ∃ j, 0 < (s.inode j).ref ∧ (s.inode j).inum = (s₁.inode ip).inum) :
    Runs may p (iput ip) s₁ fun _ s₂ => Moved (δ + Pi.single ip (-1)) s s₂ ∧ Tidy s₂ ∧ Unlocked s₂ ∧
      ∀ j, (s₂.inode j).inum = (s₁.inode j).inum := by
  refine (iput_runs (h.lock ▸ hl) (not_last h ht hδ hip hal)).imp fun _ s₂ hs₂ => ?_
  subst hs₂
  have h1 := h.ref ip
  have h2 := hs.nonneg ip
  refine ⟨h.entry rfl rfl rfl, ht.entry (by omega) (by simp only; omega) rfl rfl
    fun hv => ht.copy ip (by omega) hv, fun j => ?_, fun j => ?_⟩
  · simp only [setInode_inode]
    split_ifs with hj
    · exact hf ip
    · exact hf j
  · simp only [setInode_inode]
    split_ifs with hj
    · rw [hj]
    · rfl

/-- Entry `ip` is locked, and has been read. -/
structure Locked (p : Fin NPROC) (ip : Fin NINODE) (s₁ : State NPROC) : Prop where
  mine : (s₁.inode ip).lock = some p
  others : ∀ j, j ≠ ip → (s₁.inode j).lock = none
  valid : (s₁.inode ip).valid = true

/-- The entry is unlocked. -/
lemma iunlock_moved (h : Moved δ s s₁) (ht : Tidy s₁) (hr : 0 < (s₁.inode ip).ref)
    (hf : Locked p ip s₁) : Runs may p (iunlock ip) s₁ fun _ s₂ => Moved δ s s₂ ∧ Tidy s₂ ∧
      Unlocked s₂ ∧ ∀ j, (s₂.inode j).inum = (s₁.inode j).inum := by
  refine (iunlock_runs hr hf.mine).imp fun _ s₂ hs₂ => ?_
  subst hs₂
  have hm := h.entry (i := ip) (v := { s₁.inode ip with lock := none }) (n := 0)
    (add_zero _).symm rfl rfl
  rw [Pi.single_zero, add_zero] at hm
  refine ⟨hm, ht.entry hr hr.le rfl rfl fun hv => ht.copy ip hr hv, fun j => ?_, fun j => ?_⟩
  · simp only [setInode_inode]
    split_ifs with hj
    · rfl
    · exact hf.others j hj
  · simp only [setInode_inode]
    split_ifs with hj
    · rw [hj]
    · rfl

lemma iunlockput_moved (h : Moved δ s s₁) (ht : Tidy s₁) (hδ : ∀ j, 0 ≤ δ j) (hip : 1 ≤ δ ip)
    (hs : Tidy s) (hl : s.lock .itable = none) (hf : Locked p ip s₁)
    (hal : (s.store.dinode (s₁.inode ip).inum).nlink = 0 →
      ∃ j, 0 < (s.inode j).ref ∧ (s.inode j).inum = (s₁.inode ip).inum) :
    Runs may p (iunlockput ip) s₁ fun _ s₂ => Moved (δ + Pi.single ip (-1)) s s₂ ∧ Tidy s₂ ∧
      Unlocked s₂ ∧ ∀ j, (s₂.inode j).inum = (s₁.inode j).inum := by
  unfold iunlockput
  have h1 := h.ref ip
  have h2 := hs.nonneg ip
  refine runs_call (iunlock_moved h ht (by omega) hf) fun _ s₂ ⟨h3, h4, h5, h6⟩ => ?_
  refine (iput_moved h3 h4 hδ hip hs hl h5 (by rw [h6 ip]; exact hal)).imp
    fun _ s₃ ⟨h7, h8, h9, h10⟩ => ⟨h7, h8, h9, fun j => (h10 j).trans (h6 j)⟩

/-- A reference that is taken leaves what others refer to, and all locks. -/
lemma took_spec (ht : Took dev inum s i s₁) : (s₁.inode i).inum = inum ∧
    (∀ j, (s₁.inode j).lock = (s.inode j).lock) ∧ ∀ j, (s.inode j).ref ≠ 0 →
      (s₁.inode j).inum = (s.inode j).inum ∧ (s₁.inode j).valid = (s.inode j).valid := by
  cases ht with
  | hit hr hd hi =>
    refine ⟨by simpa using hi, fun j => ?_, fun j _ => ?_⟩
    · simp only [setInode_inode]
      split_ifs with hj
      · rw [hj]
      · rfl
    · simp only [setInode_inode]
      split_ifs with hj
      · subst hj
        exact ⟨rfl, rfl⟩
      · exact ⟨rfl, rfl⟩
  | miss hr hn =>
    refine ⟨by simp, fun j => ?_, fun j hj0 => ?_⟩
    · simp only [setInode_inode]
      split_ifs with hj
      · rw [hj]
      · rfl
    · have hj : j ≠ i := fun hj => hj0 (hj ▸ hr)
      simp [hj]

/-! ### One element of the path -/

/-- What `nameStep` does, on inode numbers. -/
def round (st : Store) (parent : Bool) (k : ℕ) (path : Path) (name : Name) :
    (ℕ × Path × Name) ⊕ Option (ℕ × Name) :=
  match skipelem path with
  | none => .inr (if parent then none else some (k, name))
  | some (name, rest) =>
    if (st.dinode k).type ≠ T_DIR then .inr none
    else if parent ∧ rest = [] then .inr (some (k, name))
    else match find st k name with
      | none => .inr none
      | some e => .inl (e, rest, name)

/-- A result in the inode table is one in inode numbers. -/
def Agrees (s s₁ : State NPROC) : (Fin NINODE × Path × Name) ⊕ Option (Fin NINODE × Name) →
    (ℕ × Path × Name) ⊕ Option (ℕ × Name) → Prop
  | .inl x, .inl y => At s x.1 s₁ ∧ (s₁.inode x.1).inum = y.1 ∧ x.2 = y.2
  | .inr (some x), .inr (some y) => At s x.1 s₁ ∧ (s₁.inode x.1).inum = y.1 ∧ x.2 = y.2
  | .inr none, .inr none => Back s s₁
  | _, _ => False

lemma lookup_get {es : List Dirent} : get (es.map live) (string name) =
    (lookup es name).bind fun k => es[k]?.map Dirent.inum := by
  induction es with
  | nil => rfl
  | cons e es ih =>
    unfold Data.Slots.get lookup at ih ⊢
    rw [List.map_cons, List.findSome?_cons, List.findIdx?_cons]
    by_cases hb : Dirent.Binds name e
    · have hv : value (string name) (live e) = some e.inum :=
        value_eq_some.mpr (live_eq_some.mpr ⟨hb.1, hb.2, rfl⟩)
      simp [hv, hb]
    · have hv : value (string name) (live e) = none := by
        cases h : value (string name) (live e) with
        | none => rfl
        | some v =>
          obtain ⟨h1, h2, -⟩ := live_eq_some.mp (value_eq_some.mp h)
          exact absurd ⟨h1, h2⟩ hb
      rw [hv]
      simp only [ih, hb, decide_false, Bool.false_eq_true, if_false]
      cases List.findIdx? (fun e => decide (Dirent.Binds name e)) es with
      | none => rfl
      | some k => simp

/-- At most one entry of the inode table is free. -/
def Crowded (s : State NPROC) : Prop := ∀ i j, (s.inode i).ref = 0 → (s.inode j).ref = 0 → i = j

def NoInodes (s : State NPROC) (msg : String) : Prop := msg = "iget: no inodes" ∧ Crowded s

lemma crowded_of_full {msg : String} (h : Moved (Pi.single ip 1) s s₁)
    (hf : TableFull s₁ msg) : NoInodes s msg := by
  have hother : ∀ i, (s.inode i).ref = 0 → i = ip := by
    intro i hi
    by_contra hne
    have h1 := h.ref i
    rw [hi, Pi.single_eq_of_ne hne] at h1
    exact hf.2 i h1
  exact ⟨hf.1, fun i j hi hj => (hother i hi).trans (hother j hj).symm⟩

/-- The inode has been locked to be looked at. -/
lemma ilock_at (hs : Tidy s) (h : At s ip s₁)
    (ht : (s.store.dinode (s₁.inode ip).inum).type ≠ 0) :
    Runs may p (ilock ip) s₁ fun _ s₂ => Moved (Pi.single ip 1) s s₂ ∧ Tidy s₂ ∧ Locked p ip s₂ ∧
      (s₂.inode ip).copy = s.store.dinode (s₁.inode ip).inum ∧
      ∀ j, (s₂.inode j).inum = (s₁.inode j).inum := by
  have href := h.ref hs
  have hst := h.moved.store
  refine (ilock_runs href (h.free ip) (h.tidy.copy ip href) (by rwa [hst])).imp fun _ s₂ hs₂ => ?_
  subst hs₂
  rw [hst]
  have hm := h.moved.entry (i := ip) (n := 0)
    (v := locked p (s.store.dinode (s₁.inode ip).inum) (s₁.inode ip)) (add_zero _).symm rfl rfl
  rw [Pi.single_zero, add_zero] at hm
  refine ⟨hm, h.tidy.entry href href.le rfl rfl fun _ => (by rw [hst]; rfl), ⟨by simp [locked],
    fun j hj => (by simp only [setInode_inode, if_neg hj]; exact h.free j), by simp [locked]⟩,
    by simp [locked], fun j => ?_⟩
  simp only [setInode_inode]
  split_ifs with hj
  · rw [hj]
    rfl
  · rfl

lemma single_nonneg (ip : Fin NINODE) : ∀ j, 0 ≤ (Pi.single ip 1 : Fin NINODE → ℤ) j := by
  intro j
  rw [Pi.single_apply]
  split_ifs <;> omega

/-- **One element of a path** is looked up in the directory, and the directory is given back. -/
lemma nameStep_runs {parent : Bool} {S : Set ℕ} (hs : Tidy s) (hl : s.lock .itable = none)
    (ht : Tree s S) (hm : ∀ msg, NoInodes s msg → may msg) (h : At s ip s₁)
    (hin : (s₁.inode ip).inum ∈ S) : Runs may p (nameStep parent ip path name) s₁ fun r s₂ =>
      Agrees s s₂ r (round s.store parent (s₁.inode ip).inum path name) := by
  have hlast : (s.store.dinode (s₁.inode ip).inum).nlink = 0 →
      ∃ j, 0 < (s.inode j).ref ∧ (s.inode j).inum = (s₁.inode ip).inum := (ht.alive _ hin).2
  have hone : (1 : ℤ) ≤ (Pi.single ip 1 : Fin NINODE → ℤ) ip := by rw [Pi.single_eq_same]
  unfold nameStep round
  cases hskip : skipelem path with
  | none =>
    simp only
    cases parent with
    | false => exact .ret ⟨h, rfl, rfl⟩
    | true =>
      refine runs_call (iput_moved h.moved h.tidy (single_nonneg ip) hone hs hl h.free hlast) ?_
      rintro _ s₂ ⟨h1, h2, h3, -⟩
      refine .ret ?_
      rw [← Pi.single_add, add_neg_cancel, Pi.single_zero] at h1
      exact ⟨h1, h2, h3⟩
  | some x =>
    obtain ⟨name', rest⟩ := x
    simp only
    refine runs_call (ilock_at hs h (ht.alive _ hin).1) ?_
    rintro _ s₂ ⟨h1, h2, h3, h4, h5⟩
    refine runs_act (a := .inode ip) (fun c => rfl) ?_
    have hal : (s.store.dinode (s₂.inode ip).inum).nlink = 0 →
        ∃ j, 0 < (s.inode j).ref ∧ (s.inode j).inum = (s₂.inode ip).inum := by
      rw [h5 ip]
      exact hlast
    -- the directory is given back without having found anything
    have hback : Runs may p (iunlockput ip) s₂ fun _ s₃ => Back s s₃ := by
      refine (iunlockput_moved h1 h2 (single_nonneg ip) hone hs hl h3 hal).imp ?_
      rintro _ s₃ ⟨h6, h7, h8, -⟩
      rw [← Pi.single_add, add_neg_cancel, Pi.single_zero] at h6
      exact ⟨h6, h7, h8⟩
    rw [h4]
    by_cases hdir : (s.store.dinode (s₁.inode ip).inum).type ≠ T_DIR
    · rw [if_pos hdir, if_pos hdir]
      exact runs_call hback fun _ s₃ hb => .ret hb
    rw [if_neg hdir, if_neg hdir]
    push Not at hdir
    by_cases hstop : parent = true ∧ rest = []
    · rw [if_pos hstop, if_pos hstop]
      have href : 0 < (s₂.inode ip).ref := by
        rw [h1.ref ip, ← h.moved.ref ip]
        exact h.ref hs
      refine runs_call (iunlock_moved h1 h2 href h3) ?_
      rintro _ s₃ ⟨h6, h7, h8, h9⟩
      exact .ret ⟨⟨h6, h7, h8⟩, (h9 ip).trans (h5 ip), rfl⟩
    rw [if_neg hstop, if_neg hstop]
    have hsearch : Searchable s₂ ip :=
      { type := by rw [h4]; exact hdir
        file := by rw [h4, h1.store]; exact ht.file _ hin hdir
        whole := by rw [h4]; exact ht.whole _ hin hdir
        lock := h1.lock ▸ hl }
    have hentries : dir s₂ ip = slots s.store.block (s.store.dinode (s₁.inode ip).inum) := by
      rw [dir, h4, h1.store]
    refine runs_call (dirlookup_runs hsearch fun msg hf => hm msg (crowded_of_full h1 hf))
      fun r s₃ hr => ?_
    have hfind : find s.store (s₁.inode ip).inum name' = (lookup (dir s₂ ip) name').bind fun k =>
        (dir s₂ ip)[k]?.map Dirent.inum := by
      rw [hentries]
      exact lookup_get
    obtain ⟨rfl, rfl, hnone⟩ | ⟨next, k, e, rfl, hsome, he, hte⟩ := hr
    · rw [hfind, hnone]
      exact runs_call hback fun _ s₃ hb => .ret hb
    · rw [hfind, hsome, Option.bind_some, he]
      have href : 0 < (s₂.inode ip).ref := by
        rw [h1.ref ip, ← h.moved.ref ip]
        exact h.ref hs
      rw [h2.dev ip href] at hte
      obtain ⟨h6, h7, h8⟩ := took_spec hte
      have hmoved := h1.took hs (single_nonneg ip) hte
      have hge : ∀ j, 0 ≤ (Pi.single ip 1 + Pi.single next 1 : Fin NINODE → ℤ) j :=
        fun j => add_nonneg (single_nonneg ip j) (single_nonneg next j)
      have hip : 1 ≤ (Pi.single ip 1 + Pi.single next 1 : Fin NINODE → ℤ) ip := by
        have := single_nonneg next ip
        rw [Pi.add_apply, Pi.single_eq_same]
        omega
      have hlocked : Locked p ip s₃ := ⟨(h7 ip).trans h3.mine, fun j hj => (h7 j).trans (h3.others j hj),
        (h8 ip href.ne').2.trans h3.valid⟩
      refine runs_call (iunlockput_moved hmoved (h2.took hte) hge hip hs hl hlocked
        (by rw [(h8 ip href.ne').1]; exact hal)) ?_
      rintro _ s₄ ⟨h9, h10, h11, h12⟩
      refine .ret ?_
      have hcancel : (Pi.single ip 1 + Pi.single next 1 + Pi.single ip (-1) : Fin NINODE → ℤ) =
          Pi.single next 1 := by
        rw [add_right_comm, ← Pi.single_add, add_neg_cancel, Pi.single_zero, zero_add]
      rw [hcancel] at h9
      exact ⟨⟨h9, h10, h11⟩, (h12 next).trans h6, rfl⟩

/-! ### Whole paths -/

lemma walkParent_one {st : Store} {d : ℕ} : walkParent st d [name] =
    if (st.dinode d).type = T_DIR then some (d, name) else none := rfl

lemma walkParent_cons {st : Store} {d : ℕ} {names : List Name} (hne : names ≠ []) :
    walkParent st d (name :: names) = if (st.dinode d).type = T_DIR then
      (find st d name).bind fun e => walkParent st e names else none := by
  unfold walkParent
  rw [List.dropLast_cons_of_ne_nil hne, List.getLast?_cons, List.getLast?_eq_some_getLast hne]
  simp only [Option.getD_some, Option.bind_some, walk]
  split_ifs
  · cases find st d name with
    | none => rfl
    | some e => rfl
  · rfl

/-- The right answer for the rest of a path. -/
def Answer (st : Store) (parent : Bool) (k : ℕ) (path : Path) (r : Option (ℕ × Name)) : Prop :=
  if parent = true then r = walkParent st k (elements path)
  else r.map Prod.fst = walk st k (elements path)

lemma answer_inr {st : Store} {parent : Bool} {r : Option (ℕ × Name)}
    (h : round st parent k path name = .inr r) : Answer st parent k path r := by
  unfold round at h
  unfold Answer
  split at h
  · rename_i hskip
    cases h
    rw [elements_none hskip]
    cases parent with
    | false => rfl
    | true => rfl
  rename_i n rest hskip
  rw [elements_some hskip]
  split_ifs at h with h1 h2
  · cases h
    cases parent with
    | false => simp [walk, h1]
    | true =>
      by_cases hne : elements rest = []
      · simp [hne, walkParent_one, h1]
      · simp [walkParent_cons hne, h1]
  · cases h
    obtain ⟨rfl, rfl⟩ := h2
    push Not at h1
    rw [if_pos rfl, elements_none rfl, walkParent_one, if_pos h1]
  · push Not at h1
    split at h
    · rename_i hfind
      cases h
      cases parent with
      | false => simp [walk, h1, hfind]
      | true =>
        have hne : elements rest ≠ [] := fun he => h2 ⟨rfl, (elements_rest hskip).mp he⟩
        simp [walkParent_cons hne, h1, hfind]
    · cases h

lemma answer_inl {st : Store} {parent : Bool} {e : ℕ} {rest : Path} {n : Name}
    (h : round st parent k path name = .inl (e, rest, n)) : rest.length < path.length ∧
      (st.dinode k).type = T_DIR ∧ find st k n = some e ∧
      ∀ r, Answer st parent e rest r → Answer st parent k path r := by
  unfold round at h
  split at h
  · cases h
  rename_i n' rest' hskip
  split_ifs at h with h1 h2
  push Not at h1
  split at h
  · cases h
  · rename_i e' hfind
    cases h
    refine ⟨skipelem_length hskip, h1, hfind, fun r hr => ?_⟩
    unfold Answer at hr ⊢
    rw [elements_some hskip]
    cases parent with
    | false => simpa [walk, h1, hfind] using hr
    | true =>
      have hne : elements rest ≠ [] := fun he => h2 ⟨rfl, (elements_rest hskip).mp he⟩
      simpa [walkParent_cons hne, h1, hfind] using hr

/-- A reference has been taken. -/
lemma at_of_took (hs : Tidy s) (hu : Unlocked s) (ht : Took ROOTDEV inum s ip s₁) :
    At s ip s₁ ∧ (s₁.inode ip).inum = inum := by
  obtain ⟨h1, h2, -⟩ := took_spec ht
  have hm := (Moved.refl s).took hs (fun _ => le_rfl) ht
  rw [zero_add] at hm
  exact ⟨⟨hm, hs.took ht, fun j => (h2 j).trans (hu j)⟩, h1⟩

/-- The inode at which a path starts. -/
def start (s : State NPROC) (p : Fin NPROC) (path : Path) : Option ℕ :=
  if path.head? = some slash then some ROOTINO
  else (s.proc p).cwd.map fun c => (s.inode c).inum

/-- The number of the inode that has been found, and the name. -/
def found (s : State NPROC) (r : Option (Fin NINODE × Name)) : Option (ℕ × Name) :=
  r.map fun x => ((s.inode x.1).inum, x.2)

/-- The only change is a reference to inode `o`, if any. -/
structure Gained (s : State NPROC) (o : Option ℕ) (s' : State NPROC) : Prop where
  rest : s' = { s with inode := s'.inode }
  free : Unlocked s'
  refs : ∀ k, refs s' k = refs s k + if o = some k then 1 else 0

lemma namex_runs {parent : Bool} {S : Set ℕ} (hs : Tidy s) (hl : s.lock .itable = none)
    (hu : Unlocked s) (ht : Tree s S) (hm : ∀ msg, NoInodes s msg → may msg)
    (hcwd : ∀ c, (s.proc p).cwd = some c → 0 < (s.inode c).ref)
    (hk : start s p path = some k) (hin : k ∈ S) :
    Runs may p (namex path parent) s fun r s' => Answer s.store parent k path (found s' r) ∧
      Gained s ((found s' r).map Prod.fst) s' := by
  unfold namex
  have hstart : Runs may p (nameStart path) s fun r s₁ =>
      ∃ ip, r = some ip ∧ At s ip s₁ ∧ (s₁.inode ip).inum = k := by
    unfold nameStart
    unfold start at hk
    split_ifs at hk ⊢ with hslash
    · cases hk
      refine runs_call (iget_runs hl fun msg hf => hm msg ⟨hf.1, fun i _ hi _ => absurd hi (hf.2 i)⟩)
        fun ip s₁ htook => .ret ⟨ip, rfl, at_of_took hs hu htook⟩
    · obtain ⟨c, hc, rfl⟩ := Option.map_eq_some_iff.mp hk
      have hr := hcwd c hc
      refine runs_act (a := .cwd) (fun c => rfl) ?_
      rw [hc]
      refine runs_call (idup_runs hl) fun r s₁ ⟨h1, h2⟩ => .ret ?_
      subst h1 h2
      exact ⟨r, rfl, at_of_took hs hu (.hit hr (hs.dev r hr) rfl)⟩
  refine runs_call hstart fun r s₁ ⟨ip, hr, hat, hinum⟩ => ?_
  subst hr hinum
  refine Does.iterate (fun x s₂ => At s x.1 s₂ ∧ (s₂.inode x.1).inum ∈ S ∧
      ∀ r, Answer s.store parent (s₂.inode x.1).inum x.2.1 r →
        Answer s.store parent (s₁.inode ip).inum path r) (fun x => x.2.1.length) (fun x s₂ hinv => ?_)
    ⟨hat, hin, fun _ h => h⟩
  obtain ⟨ip', path', name'⟩ := x
  obtain ⟨hat', hin', hans⟩ := hinv
  refine (nameStep_runs hs hl ht hm hat' hin').imp fun r s₃ hagree => ?_
  cases hround : round s.store parent (s₂.inode ip').inum path' name' with
  | inl y =>
    obtain ⟨e, rest, n⟩ := y
    rw [hround] at hagree
    obtain ⟨h1, h2, h3, h4⟩ := answer_inl hround
    cases r with
    | inl x =>
      obtain ⟨next, rest', n'⟩ := x
      obtain ⟨h5, h6, h7⟩ := hagree
      obtain ⟨rfl, rfl⟩ := Prod.mk.inj h7
      simp only at h5 h6
      refine ⟨fun b hb => ?_, fun d hd => (by cases hd)⟩
      cases hb
      simp only [h6]
      exact ⟨⟨h5, ht.closed _ hin' h2 _ _ h3, fun r hr => hans r (h4 r hr)⟩, h1⟩
    | inr o =>
      cases o with
      | none => exact hagree.elim
      | some x => exact hagree.elim
  | inr o =>
    rw [hround] at hagree
    have hanswer := hans _ (answer_inr hround)
    cases r with
    | inl x => exact hagree.elim
    | inr o' =>
      refine ⟨fun b hb => (by cases hb), fun d hd => ?_⟩
      cases hd
      cases o' with
      | none =>
        cases o with
        | some y => exact hagree.elim
        | none =>
          refine ⟨hanswer, hagree.moved.rest, hagree.free, fun k => ?_⟩
          have hm0 : Moved (Pi.single ip' 0) s s₃ := by
            rw [Pi.single_zero]
            exact hagree.moved
          rw [hm0.refs]
          simp [found]
      | some x =>
        cases o with
        | none => exact hagree.elim
        | some y =>
          obtain ⟨jp, n⟩ := x
          obtain ⟨e, n'⟩ := y
          obtain ⟨h5, h6, rfl⟩ := hagree
          simp only at h5 h6
          subst h6
          refine ⟨hanswer, h5.moved.rest, h5.free, fun k => ?_⟩
          rw [h5.moved.refs]
          simp [found]

/-- **Path resolution**: the elements of a path are looked up one after the other, and the only
reference that is kept is to the inode that is found. -/
theorem path_resolution {S : Set ℕ} (hs : Tidy s) (hl : s.lock .itable = none) (hu : Unlocked s)
    (ht : Tree s S) (hcwd : ∀ c, (s.proc p).cwd = some c → 0 < (s.inode c).ref)
    (hk : start s p path = some k) (hin : k ∈ S) :
    elements path = (runs path).map (·.take DIRSIZ) ∧
    Runs (NoInodes s) p (namei path) s (fun r s' =>
      r.map (fun ip => (s'.inode ip).inum) = walk s.store k (elements path) ∧
      Gained s (walk s.store k (elements path)) s') ∧
    Runs (NoInodes s) p (nameiparent path) s (fun r s' =>
      found s' r = walkParent s.store k (elements path) ∧
      Gained s ((walkParent s.store k (elements path)).map Prod.fst) s') := by
  refine ⟨elements_eq path, ?_, ?_⟩
  · unfold namei
    refine runs_call (namex_runs hs hl hu ht (fun _ h => h) hcwd hk hin) fun r s' ⟨h1, h2⟩ => .ret ?_
    have h1' : (found s' r).map Prod.fst = walk s.store k (elements path) := h1
    refine ⟨?_, h1' ▸ h2⟩
    rw [← h1']
    cases r with
    | none => rfl
    | some x => rfl
  · refine (namex_runs hs hl hu ht (fun _ h => h) hcwd hk hin).imp fun r s' ⟨h1, h2⟩ => ?_
    have h1' : found s' r = walkParent s.store k (elements path) := h1
    exact ⟨h1', h1' ▸ h2⟩

/-- A root directory that has itself as its only entry. -/
def rootDir : State 1 where
  store := { small with
    dinode := fun _ => ⟨T_DIR, 0, 0, 1, DIRENT, fun i => if i = 0 then 2 else 0⟩
    block := fun _ i => (encode ⟨ROOTINO, dot⟩).getD i 0 }
  inode := fun i => ⟨ROOTDEV, ROOTINO, if i = 0 then 1 else 0, none, false, .free⟩
  file := fun _ => ⟨.none, 0, false, false, 0, 0, 0, 0⟩
  pipe := fun _ => none
  proc := fun _ => ⟨.running, fun _ => none, some 0⟩
  lock := fun _ => none
  devsw := fun _ => (false, false)

lemma rootDir_tidy : Tidy rootDir where
  nonneg i := by
    simp only [rootDir]
    split_ifs <;> decide
  unique i j hi hj _ := by
    simp only [rootDir] at hi hj
    split_ifs at hi hj with h1 h2
    · rw [h1, h2]
    · exact absurd hj (lt_irrefl 0)
    · exact absurd hi (lt_irrefl 0)
    · exact absurd hi (lt_irrefl 0)
  dev _ _ := rfl
  copy i _ hv := (by cases hv)

lemma rootDir_tree : Tree rootDir {ROOTINO} where
  alive k hk := by
    obtain rfl : k = ROOTINO := hk
    exact ⟨by decide, fun h => absurd h (by decide)⟩
  file k hk _ := by
    obtain rfl : k = ROOTINO := hk
    refine ⟨fun bn hbn => ?_, by decide⟩
    have hz : bn = 0 := by
      change bn * BSIZE < DIRENT at hbn
      have : DIRENT < BSIZE := by decide
      by_contra hne
      have := Nat.le_mul_of_pos_left BSIZE (Nat.pos_of_ne_zero hne)
      omega
    subst hz
    decide
  whole k hk _ := by
    obtain rfl : k = ROOTINO := hk
    decide
  closed k hk _ name e he := by
    obtain rfl : k = ROOTINO := hk
    have hent : entries rootDir.store ROOTINO = [some (dot, ROOTINO)] := rfl
    unfold find at he
    rw [hent] at he
    simp only [Data.Slots.get, List.findSome?_cons, List.findSome?_nil] at he
    split at he
    · rename_i v hv
      cases he
      obtain ⟨-, rfl⟩ := Prod.mk.inj (Option.some.inj (value_eq_some.mp hv))
      rfl
    · cases he

/-- `"//.//a"` -/
theorem path_resolution_root : elements [47, 47, 46, 47, 47, 97] =
      (runs [47, 47, 46, 47, 47, 97]).map (·.take DIRSIZ) ∧
    Runs (NoInodes rootDir) 0 (namei [47, 47, 46, 47, 47, 97]) rootDir (fun r s' =>
      r.map (fun ip => (s'.inode ip).inum) =
        walk rootDir.store ROOTINO (elements [47, 47, 46, 47, 47, 97]) ∧
      Gained rootDir (walk rootDir.store ROOTINO (elements [47, 47, 46, 47, 47, 97])) s') ∧
    Runs (NoInodes rootDir) 0 (nameiparent [47, 47, 46, 47, 47, 97]) rootDir (fun r s' =>
      found s' r = walkParent rootDir.store ROOTINO (elements [47, 47, 46, 47, 47, 97]) ∧
      Gained rootDir ((walkParent rootDir.store ROOTINO
        (elements [47, 47, 46, 47, 47, 97])).map Prod.fst) s') :=
  path_resolution (S := {ROOTINO}) rootDir_tidy rfl (fun _ => rfl) rootDir_tree
    (fun c hc => by cases hc; decide) rfl rfl

end Xv6.Fs.Resolve
