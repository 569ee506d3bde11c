import Xv6.Fs.Resolve

/-!
The inodes that a crash has left without links, and what `ireclaim` makes of them.
-/

namespace Xv6.Fs.Reclaim

open Xv6.Conc Xv6.Conc.Prog Xv6.Conc.Alone Xv6.Data.Effect Xv6.Data.Effect.Eff Xv6.Disk
  Xv6.Fs.Content Xv6.Fs.Untouched Xv6.Fs.Kernel Xv6.Fs.Inode Xv6.Fs.Sound Xv6.Fs.Bytes Xv6.Fs.Solo
  Xv6.Fs.Resolve

variable {NPROC nmeta : ℕ} {p : Fin NPROC} {may : String → Prop} {s s' : State NPROC}
  {i : Fin NINODE} {dev inum k : ℕ}

/-- An inode that has been freed. -/
def freed (d : Dinode) : Dinode := { truncated d with type := 0 }

/-- The disk after inode `inum`, which is `d`, has been freed. -/
structure Freed (nmeta inum : ℕ) (d : Dinode) (st st' : Store) : Prop where
  frame : Frame (st.setDinode inum (freed d)) st'
  block : st'.block = st.block
  held : Held nmeta st' st'.dinode 0

/-- Freeing an inode, with the lock of the table held before and after. -/
lemma truncateAndFree_runs (hl : s.lock .itable = some p) (hi : (s.inode i).lock = none)
    (hc : CopyOf (s.inode i).copy (s.store.dinode (s.inode i).inum))
    (hheld : Held nmeta s.store s.store.dinode 0) (ho : 0 < s.store.outstanding) :
    Runs may p (truncateAndFree i) s fun _ s' => ∃ st,
      Freed nmeta (s.inode i).inum (s.inode i).copy s.store st ∧
      s' = setInode i { s.inode i with valid := false, copy := freed (s.inode i).copy }
        { s with store := st } := by
  unfold truncateAndFree
  refine runs_act (a := .acquiresleep i) (r := ()) (fun c => by simp [sem, hi]; rfl) ?_
  refine runs_release hl ?_
  have htrunc : wp Never (truncate (s.inode i).inum (s.inode i).copy) (fun r st =>
      r.1 = truncated (s.inode i).copy ∧ Frame (s.store.setDinode (s.inode i).inum r.1) st ∧
        st.block = s.store.block ∧ Held nmeta st st.dinode 0) s.store := by
    unfold truncate
    refine wp_call (itrunc_held hheld hc ho) ?_
    rintro d st ⟨h1, h2, h3, h4⟩
    subst h1
    exact ⟨rfl, h2, h3, h4⟩
  refine runs_onInode (a := .itrunc i) (x := truncate (s.inode i).inum (s.inode i).copy)
    (fun c => by simp [sem]; rfl) htrunc ?_
  rintro d r st ⟨h1, h2, h3, h4⟩
  simp only at h1
  subst h1
  refine runs_act (a := .set i (.type 0)) (r := ()) (fun c => rfl) ?_
  have hupd : wp Never (iupdate (s.inode i).inum (freed (s.inode i).copy)) (fun _ st' =>
      st' = st.setDinode (s.inode i).inum (freed (s.inode i).copy)) st :=
    wp_iupdate (by rw [h2.outstanding]; exact ho) rfl
  refine runs_onStore (a := .iupdate i) (x := iupdate (s.inode i).inum (freed (s.inode i).copy))
    (fun c => by simp [sem, Field.write, freed]) hupd fun r st' hst' => ?_
  refine runs_act (a := .set i (.valid false)) (r := ()) (fun c => rfl)
    (runs_act (a := .releasesleep i) (r := ()) (fun c => rfl) ?_)
  refine runs_act (a := .acquire .itable) (r := ()) (f := .ret)
    (fun c => by simp [sem, setInode]; rfl) (.ret ⟨st', ?_, ?_⟩)
  · subst hst'
    have hd : (st.setDinode (s.inode i).inum (freed (s.inode i).copy)).dinode =
        Function.update s.store.dinode (s.inode i).inum (freed (s.inode i).copy) := by
      have := h2.dinode
      simp only [Store.setDinode] at this ⊢
      rw [this, Function.update_idem]
    refine ⟨⟨h2.size, h2.ninodes, hd, h2.outstanding⟩, h3, h4.congr rfl rfl fun k => ?_⟩
    have hold : st.dinode (s.inode i).inum = truncated (s.inode i).copy := by
      rw [h2.dinode]
      simp [Store.setDinode]
    by_cases hk : k = (s.inode i).inum
    · subst hk
      rw [hold, inodeBlocks_none (d := truncated (s.inode i).copy) rfl, inodeBlocks_none]
      simp [Store.setDinode, freed, truncated]
    · simp only [Store.setDinode, Function.update_of_ne hk]
  · simp [Field.write, freed, setInode, setLock, hl, hi]

/-- **The last reference** to an inode without links is given up. -/
lemma iput_free_runs (hl : s.lock .itable = none) (hi : (s.inode i).lock = none)
    (hr : (s.inode i).ref = 1) (hv : (s.inode i).valid = true) (hn : (s.inode i).copy.nlink = 0)
    (hc : CopyOf (s.inode i).copy (s.store.dinode (s.inode i).inum))
    (hheld : Held nmeta s.store s.store.dinode 0) (ho : 0 < s.store.outstanding) :
    Runs may p (iput i) s fun _ s' => ∃ st,
      Freed nmeta (s.inode i).inum (s.inode i).copy s.store st ∧
      s' = setInode i { s.inode i with
        ref := 0, valid := false, copy := freed (s.inode i).copy } { s with store := st } := by
  unfold iput
  refine runs_acquire hl (runs_act (a := .inode i) (fun c => rfl) ?_)
  unfold whenever
  change Runs may p ((if (s.inode i).ref = 1 ∧ (s.inode i).valid = true ∧
    (s.inode i).copy.nlink = 0 then _ else _) >>= _) _ _
  rw [if_pos ⟨hr, hv, hn⟩]
  have hfree : Runs may p (truncateAndFree i) (setLock .itable (some p) s) fun _ s' => ∃ st,
      Freed nmeta (s.inode i).inum (s.inode i).copy s.store st ∧
      s' = setInode i { s.inode i with valid := false, copy := freed (s.inode i).copy }
        { setLock .itable (some p) s with store := st } :=
    truncateAndFree_runs (setLock_lock _ _) hi hc hheld ho
  refine runs_call hfree fun _ s₁ ⟨st, hst, hs₁⟩ => ?_
  refine runs_act (a := .decRef i) (r := ()) (fun c => rfl) ?_
  subst hs₁
  refine runs_release_last (by simp [setLock, setInode]) ⟨st, hst, ?_⟩
  simp [setLock, setInode, hr, ← hl]

/-- No entry of the inode table is in use, and nothing is locked. -/
structure Clean (nmeta : ℕ) (s : State NPROC) : Prop where
  held : Held nmeta s.store s.store.dinode 0
  empty : ∀ i, (s.inode i).ref = 0
  free : Unlocked s
  lock : s.lock .itable = none

def Orphan (d : Dinode) : Prop := d.type ≠ 0 ∧ d.nlink = 0

instance (d : Dinode) : Decidable (Orphan d) := inferInstanceAs (Decidable (_ ∧ _))

/-- The disk is as before but for the inodes, which are `dn`, and the bitmap. -/
structure Left (nmeta : ℕ) (dn : ℕ → Dinode) (s s' : State NPROC) : Prop where
  clean : Clean nmeta s'
  dinode : s'.store.dinode = dn
  block : s'.store.block = s.store.block
  size : s'.store.size = s.store.size
  ninodes : s'.store.ninodes = s.store.ninodes

/-- **One inode** is freed if it is an orphan. -/
lemma reclaim_runs (h : Clean nmeta s) : Runs may p (reclaim dev inum) s fun _ s' =>
    Left nmeta (if Orphan (s.store.dinode inum) then
      Function.update s.store.dinode inum (freed (s.store.dinode inum)) else s.store.dinode) s s' := by
  unfold reclaim
  refine runs_act (a := .dinode inum) (fun c => rfl) ?_
  unfold whenever
  change Runs may p (if Orphan (s.store.dinode inum) then _ else _) s _
  by_cases ho : Orphan (s.store.dinode inum)
  swap
  · rw [if_neg ho, if_neg ho]
    exact .ret ⟨h, rfl, rfl, rfl, rfl⟩
  rw [if_pos ho, if_pos ho]
  have hnotfull : ∀ msg, TableFull s msg → may msg := fun msg hf => absurd (h.empty 0) (hf.2 0)
  refine runs_call (iget_runs h.lock hnotfull) fun i s₁ ht => ?_
  cases ht with
  | hit hr _ _ => exact absurd (h.empty i) hr.ne'
  | miss hr hn =>
    refine runs_beginOp ?_
    obtain ⟨v, hvdef⟩ : ∃ v : Inode NPROC,
        v = { s.inode i with dev := dev, inum := inum, ref := 1, valid := false } := ⟨_, rfl⟩
    obtain ⟨st₂, hst₂⟩ : ∃ st, st = { s.store with outstanding := s.store.outstanding + 1 } := ⟨_, rfl⟩
    rw [← hvdef]
    change Runs may p _ { setInode i v s with
      store := { s.store with outstanding := s.store.outstanding + 1 } } _
    rw [← hst₂]
    obtain ⟨s₂, hs₂⟩ : ∃ s₂ : State NPROC, s₂ = { setInode i v s with store := st₂ } := ⟨_, rfl⟩
    rw [← hs₂]
    have hent : s₂.inode i = v := by
      rw [hs₂]
      simp [setInode]
    have hdn : s₂.store.dinode (s₂.inode i).inum = s.store.dinode inum := by
      rw [hent, hs₂, hst₂, hvdef]
    refine runs_call (ilock_runs (by rw [hent, hvdef]; exact Int.one_pos) ?_ ?_ ?_) fun _ s₃ hs₃ => ?_
    · rw [hent, hvdef]
      exact h.free i
    · rw [hent, hvdef]
      exact fun hv => (by cases hv)
    · rw [hdn]
      exact ho.1
    rw [hdn, hent] at hs₃
    have hent₃ : s₃.inode i = locked p (s.store.dinode inum) v := by
      rw [hs₃]
      simp
    refine runs_call (iunlock_runs (by rw [hent₃, hvdef]; exact Int.one_pos) (by rw [hent₃]; rfl))
      fun _ s₄ hs₄ => ?_
    rw [hent₃] at hs₄
    have hent₄ : s₄.inode i = { locked p (s.store.dinode inum) v with lock := none } := by
      rw [hs₄]
      simp
    have hstore₄ : s₄.store = st₂ := by
      rw [hs₄, hs₃, hs₂]
      rfl
    have hlock₄ : s₄.lock = s.lock := by
      rw [hs₄, hs₃, hs₂]
      rfl
    have hother₄ : ∀ j, j ≠ i → s₄.inode j = s.inode j := by
      intro j hj
      rw [hs₄, hs₃, hs₂]
      simp [setInode, hj]
    have hinum : (s₄.inode i).inum = inum := by
      rw [hent₄, hvdef]
      rfl
    have hdisk : s₄.store.dinode inum = s.store.dinode inum := by
      rw [hstore₄, hst₂]
    have hcopy : (s₄.inode i).copy = s.store.dinode inum := by
      rw [hent₄]
      rfl
    have hheld : Held nmeta s₄.store s₄.store.dinode 0 := by
      rw [hstore₄, hst₂]
      exact h.held.congr rfl rfl fun _ => rfl
    refine runs_call (iput_free_runs (by rw [hlock₄]; exact h.lock)
      (by rw [hent₄]) (by rw [hent₄, hvdef]; rfl) (by rw [hent₄]; rfl)
      (by rw [hcopy]; exact ho.2) ?_ hheld (by rw [hstore₄, hst₂]; exact Nat.succ_pos _)) ?_
    · rw [hinum, hdisk, hcopy]
      exact ⟨ho.1, ho.1, rfl, rfl⟩
    rintro _ s₅ ⟨st, hst, hs₅⟩
    rw [hinum, hcopy] at hst
    refine runs_act (a := .endOp) (r := ()) (f := .ret) (fun c => rfl) (.ret ?_)
    have hdn₅ : st.dinode = Function.update s.store.dinode inum (freed (s.store.dinode inum)) := by
      have := hst.frame.dinode
      rw [hstore₄, hst₂] at this
      exact this
    subst hs₅
    refine ⟨⟨?_, fun j => ?_, fun j => ?_, ?_⟩, hdn₅, ?_, ?_, ?_⟩
    · exact hst.held.congr rfl rfl fun _ => rfl
    · by_cases hj : j = i
      · subst hj
        simp [setInode]
      · simp [setInode, hj, hother₄ j hj, h.empty j]
    · by_cases hj : j = i
      · subst hj
        simp [setInode, hent₄]
      · simp [setInode, hj, hother₄ j hj, h.free j]
    · change s₄.lock .itable = none
      rw [hlock₄]
      exact h.lock
    · exact hst.block.trans (by rw [hstore₄, hst₂])
    · exact hst.frame.size.trans (by rw [hstore₄, hst₂]; rfl)
    · exact hst.frame.ninodes.trans (by rw [hstore₄, hst₂]; rfl)

/-- Inode numbers start at 1: there is no inode 0. -/
def Inum (s : State NPROC) (k : ℕ) : Prop := 0 < k ∧ k < s.store.ninodes

/-- The inodes once those below `n` have been scanned. -/
def scanned (dn : ℕ → Dinode) (n k : ℕ) : Dinode :=
  if 0 < k ∧ k < n ∧ Orphan (dn k) then freed (dn k) else dn k

lemma scanned_succ {dn : ℕ → Dinode} {n : ℕ} (hn : 0 < n) : scanned dn (n + 1) =
    if Orphan (scanned dn n n) then Function.update (scanned dn n) n (freed (scanned dn n n))
    else scanned dn n := by
  have hself : scanned dn n n = dn n := if_neg (by omega)
  rw [hself]
  funext k
  by_cases hk : k = n
  · subst hk
    split_ifs with ho
    · rw [Function.update_self]
      exact if_pos ⟨hn, by omega, ho⟩
    · rw [hself]
      exact if_neg fun h => ho h.2.2
  · have hlt : k < n + 1 ↔ k < n := by omega
    have hkeep : scanned dn (n + 1) k = scanned dn n k := by
      unfold scanned
      simp only [hlt]
    rw [hkeep]
    split_ifs
    · rw [Function.update_of_ne hk]
    · rfl

/-- The whole scan. -/
lemma ireclaim_runs (h : Clean nmeta s) : Runs Never p (ireclaim dev) s fun _ s' =>
    Left nmeta (scanned s.store.dinode s.store.ninodes) s s' := by
  unfold ireclaim
  have hstart : scanned s.store.dinode 1 = s.store.dinode := by
    funext k
    exact if_neg (by omega)
  refine Does.iterate (fun n s₁ => 0 < n ∧ n ≤ max 1 s.store.ninodes ∧
    Left nmeta (scanned s.store.dinode n) s s₁) (fun n => s.store.ninodes - n) (fun n s₁ hinv => ?_)
    ⟨Nat.one_pos, le_max_left _ _, h, hstart.symm, rfl, rfl, rfl⟩
  obtain ⟨hn, hle, hleft⟩ := hinv
  refine runs_act (a := .ninodes) (fun c => rfl) ?_
  rw [hleft.ninodes]
  split_ifs with hlt
  · refine runs_call (reclaim_runs hleft.clean) fun _ s₂ hstep => .ret ⟨fun b hb => ?_,
      fun d hd => (by cases hd)⟩
    cases hb
    have hdn := hstep.dinode
    rw [hleft.dinode, ← scanned_succ hn] at hdn
    exact ⟨⟨Nat.succ_pos n, le_max_of_le_right hlt, hstep.clean, hdn, hstep.block.trans hleft.block,
      hstep.size.trans hleft.size, hstep.ninodes.trans hleft.ninodes⟩,
      Nat.sub_lt_sub_left hlt (Nat.lt_succ_self n)⟩
  · refine .ret ⟨fun b hb => (by cases hb), fun d hd => ?_⟩
    have hend : scanned s.store.dinode n = scanned s.store.dinode s.store.ninodes := by
      funext k
      unfold scanned
      have hge : s.store.ninodes ≤ n := Nat.le_of_not_lt hlt
      have hiff : 0 < k ∧ k < n ↔ 0 < k ∧ k < s.store.ninodes := by omega
      simp only [← and_assoc, hiff]
    rw [← hend]
    exact hleft

/-- What is used afterwards. -/
lemma used_scanned {st st' : Store} {n : ℕ} (h : Held nmeta st st.dinode 0)
    (h' : Held nmeta st' st'.dinode 0) (hsize : st'.size = st.size) (hblk : st'.block = st.block)
    (hd : st'.dinode = scanned st.dinode n) {b : BlockNo} (hb : b.toNat < st.size) :
    st'.used b = true ↔ st.used b = true ∧
      ∀ k, 0 < k → k < n → Orphan (st.dinode k) → b ∉ blocks st.block (st.dinode k) := by
  rw [h.owns.used b hb, h'.owns.used b (by rw [hsize]; exact hb), hblk, hd]
  have hkept : ∀ k, ¬(0 < k ∧ k < n ∧ Orphan (st.dinode k)) →
      scanned st.dinode n k = st.dinode k := fun k hk => if_neg hk
  have hgone : ∀ k, 0 < k ∧ k < n ∧ Orphan (st.dinode k) →
      inodeBlocks st.block (scanned st.dinode n k) = 0 := by
    intro k hk
    rw [scanned, if_pos hk]
    exact inodeBlocks_none rfl
  constructor
  · rintro ⟨q, hq⟩
    have hin : b ∈ own nmeta st.block st.dinode 0 q ∧
        ∀ k, q = .inode k → ¬(0 < k ∧ k < n ∧ Orphan (st.dinode k)) := by
      cases q with
      | metadata => exact ⟨hq, fun k hk => (by cases hk)⟩
      | loose => exact ⟨hq, fun k hk => (by cases hk)⟩
      | inode k =>
        have hno : ¬(0 < k ∧ k < n ∧ Orphan (st.dinode k)) := by
          intro hyes
          simp only [own, hgone k hyes] at hq
          exact Multiset.notMem_zero b hq
        simp only [own, hkept k hno] at hq
        refine ⟨hq, fun k' hk' => ?_⟩
        cases hk'
        exact hno
    refine ⟨⟨q, hin.1⟩, fun k h0 hlt ho hmem => ?_⟩
    have hk : b ∈ own nmeta st.block st.dinode 0 (.inode k) := by
      simp only [own, inodeBlocks, if_neg ho.1]
      exact hmem
    exact hin.2 k (h.owns.one q (.inode k) b hin.1 hk) ⟨h0, hlt, ho⟩
  · rintro ⟨⟨q, hq⟩, hnot⟩
    refine ⟨q, ?_⟩
    cases q with
    | metadata => exact hq
    | loose => exact hq
    | inode k =>
      have hno : ¬(0 < k ∧ k < n ∧ Orphan (st.dinode k)) := by
        intro hyes
        simp only [own, inodeBlocks, if_neg hyes.2.2.1] at hq
        exact hnot k hyes.1 hyes.2.1 hyes.2.2 hq
      simp only [own, hkept k hno]
      exact hq

/-- **Orphans are reclaimed**: they are freed, with all their blocks, and nothing else is. -/
theorem ireclaim_exact (h : Clean nmeta s) : Runs Never p (ireclaim dev) s fun _ s' =>
    (∀ k, Inum s k → ¬Orphan (s'.store.dinode k)) ∧
    (∀ b, b.toNat < s.store.size → (s'.store.used b = true ↔ s.store.used b = true ∧
      ∀ k, Inum s k → Orphan (s.store.dinode k) → b ∉ blocks s.store.block (s.store.dinode k))) ∧
    (∀ k, ¬(Inum s k ∧ Orphan (s.store.dinode k)) → s'.store.dinode k = s.store.dinode k) ∧
    s'.store.block = s.store.block ∧ Clean nmeta s' := by
  refine (ireclaim_runs h).imp fun _ s' hleft => ⟨fun k hk ho => ?_, fun b hb => ?_, fun k hk => ?_,
    hleft.block, hleft.clean⟩
  · rw [hleft.dinode, scanned] at ho
    split_ifs at ho with hscan
    · exact ho.1 rfl
    · exact hscan ⟨hk.1, hk.2, ho⟩
  · rw [used_scanned h.held hleft.clean.held hleft.size hleft.block hleft.dinode hb]
    exact and_congr_right fun _ => ⟨fun hall k hk => hall k hk.1 hk.2, fun hall k h0 hlt => hall k ⟨h0, hlt⟩⟩
  · rw [hleft.dinode]
    exact if_neg fun hyes => hk ⟨⟨hyes.1, hyes.2.1⟩, hyes.2.2⟩

/-- The machine has crashed after the only file was unlinked, and is booted again. -/
def crashed : State 1 where
  store := { small with
    dinode := fun _ => { Dinode.free with type := T_FILE }
    outstanding := 0 }
  inode := fun _ => ⟨0, 0, 0, none, false, .free⟩
  file := fun _ => ⟨.none, 0, false, false, 0, 0, 0, 0⟩
  pipe := fun _ => none
  proc := fun _ => ⟨.running, fun _ => none, none⟩
  lock := fun _ => none
  devsw := fun _ => (false, false)

theorem ireclaim_exact_crashed : Runs Never 0 (ireclaim ROOTDEV) crashed fun _ s' =>
    (∀ k, Inum crashed k → ¬Orphan (s'.store.dinode k)) ∧
    (∀ b, b.toNat < crashed.store.size → (s'.store.used b = true ↔ crashed.store.used b = true ∧
      ∀ k, Inum crashed k → Orphan (crashed.store.dinode k) →
        b ∉ blocks crashed.store.block (crashed.store.dinode k))) ∧
    (∀ k, ¬(Inum crashed k ∧ Orphan (crashed.store.dinode k)) →
      s'.store.dinode k = crashed.store.dinode k) ∧
    s'.store.block = crashed.store.block ∧ Clean 2 s' :=
  ireclaim_exact ⟨(Intact.blank (by decide) (by decide) (by decide) (fun _ => rfl)
    fun _ => ⟨rfl, rfl⟩).held, fun _ => rfl, fun _ => rfl, rfl⟩

end Xv6.Fs.Reclaim
