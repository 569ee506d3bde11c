import Xv6.Fs.Kernel

/-!
What the operations on the content of inodes leave alone, and how far they get.
-/

namespace Xv6.Fs.Untouched

open Xv6.Conc Xv6.Data.Effect Xv6.Data.Effect.Eff Xv6.Disk Xv6.Fs.Content Xv6.Fs.Kernel

/-- Only the bitmap and the blocks may differ. -/
structure Frame (s s' : Store) : Prop where
  size : s'.size = s.size
  ninodes : s'.ninodes = s.ninodes
  dinode : s'.dinode = s.dinode
  outstanding : s'.outstanding = s.outstanding

variable {may : String → Prop} {s s' s'' : Store} {ip ip' : Dinode} {bn : ℕ}

lemma Frame.refl (s : Store) : Frame s s := ⟨rfl, rfl, rfl, rfl⟩

lemma Frame.trans (h : Frame s s') (h' : Frame s' s'') : Frame s s'' :=
  ⟨h'.size.trans h.size, h'.ninodes.trans h.ninodes, h'.dinode.trans h.dinode,
    h'.outstanding.trans h.outstanding⟩

lemma frame_setBlock (b : BlockNo) (v : Block) (s : Store) : Frame s (s.setBlock b v) :=
  ⟨rfl, rfl, rfl, rfl⟩

lemma frame_mark (b : BlockNo) (v : Bool) (s : Store) : Frame s (s.mark b v) := ⟨rfl, rfl, rfl, rfl⟩

/-- The inodes differ in their addresses only. -/
def SameButAddrs (ip ip' : Dinode) : Prop := ip' = { ip with addrs := ip'.addrs }

lemma SameButAddrs.refl (ip : Dinode) : SameButAddrs ip ip := rfl

lemma SameButAddrs.trans {ip'' : Dinode} (h : SameButAddrs ip ip') (h' : SameButAddrs ip' ip'') :
    SameButAddrs ip ip'' := by
  unfold SameButAddrs at *
  rw [h] at h'
  exact h'

lemma SameButAddrs.size (h : SameButAddrs ip ip') : ip'.size = ip.size := by
  rw [h]

lemma SameButAddrs.type (h : SameButAddrs ip ip') : ip'.type = ip.type := by
  rw [h]

/-- A panic that tells of a `log_write` outside of a transaction is the only one. -/
lemma wp_logWrite {Q : Unit → Store → Prop} (hm : may "log_write outside of trans")
    (h : Q () s) : wp may logWrite Q s := by
  unfold wp logWrite
  split_ifs
  · exact hm
  · exact h

section Anyhow

/-! The panics do not matter here. -/

abbrev Any : String → Prop := fun _ => True

lemma balloc_frame : wp Any balloc (fun _ s' => Frame s s') s := by
  unfold balloc
  rw [wp_bind, wp_look]
  split
  · rw [wp_bind, wp_change, wp_bind]
    refine wp_logWrite trivial ?_
    rw [wp_bind]
    unfold bzero
    rw [wp_bind, wp_change]
    refine wp_logWrite trivial ?_
    exact ⟨rfl, rfl, rfl, rfl⟩
  · exact Frame.refl s

lemma addrAt_frame (i : Fin (NDIRECT + 1)) :
    wp Any (addrAt ip i) (fun r s' => SameButAddrs ip r.1 ∧ Frame s s') s := by
  unfold addrAt
  rw [wp_ite]
  refine ⟨fun _ => ?_, fun _ => ⟨rfl, Frame.refl s⟩⟩
  refine wp_call balloc_frame fun b s' hs => ?_
  rw [wp_ite]
  exact ⟨fun _ => ⟨rfl, hs⟩, fun _ => ⟨rfl, hs⟩⟩

lemma entryAt_frame (addr : BlockNo) (k : ℕ) :
    wp Any (entryAt addr k) (fun _ s' => Frame s s') s := by
  unfold entryAt
  rw [wp_bind, wp_look, wp_ite]
  refine ⟨fun _ => ?_, fun _ => Frame.refl s⟩
  refine wp_call balloc_frame fun b s' hs => ?_
  rw [wp_ite]
  refine ⟨fun _ => hs, fun _ => ?_⟩
  rw [wp_bind, wp_change, wp_bind]
  exact wp_logWrite trivial (hs.trans (frame_setBlock _ _ _))

lemma bmap_frame :
    wp Any (bmap ip bn) (fun r s' => SameButAddrs ip r.1 ∧ Frame s s') s := by
  unfold bmap
  rw [wp_ite]
  refine ⟨fun _ => addrAt_frame _, fun _ => ?_⟩
  rw [wp_ite]
  refine ⟨fun _ => ?_, fun _ => trivial⟩
  refine wp_call (addrAt_frame indirect) fun r s' hr => ?_
  obtain ⟨ip', addr⟩ := r
  obtain ⟨h1, h2⟩ := hr
  change wp Any (if addr = 0 then _ else _) _ s'
  rw [wp_ite]
  refine ⟨fun _ => ⟨h1, h2⟩, fun _ => ?_⟩
  exact wp_call (entryAt_frame addr _) fun a s'' hs => ⟨h1, h2.trans hs⟩

lemma chunk_pos {n tot off : ℕ} (h : tot < n) : 0 < chunk n tot off := by
  have := Nat.mod_lt off (show 0 < BSIZE by decide)
  simp only [chunk]
  omega

lemma chunk_le (n tot off : ℕ) : chunk n tot off ≤ n - tot := Nat.min_le_left _ _

/-- What a round of reading leaves. -/
lemma readLoop_frame {writable : ℕ → Bool} {n fuel tot off : ℕ} {got : List UInt8}
    (ht : tot ≤ n) (hg : got.length = tot) :
    wp Any (readLoop writable n fuel ip tot off got) (fun r s' => SameButAddrs ip r.1 ∧
      Frame s s' ∧ ((r.2.1 = -1 ∧ ∃ i, writable i = false) ∨
        r.2.1 = r.2.2.length ∧ r.2.2.length ≤ n)) s := by
  induction fuel generalizing ip tot off got s with
  | zero => exact ⟨rfl, Frame.refl s, .inr ⟨congrArg Nat.cast hg.symm, hg ▸ ht⟩⟩
  | succ fuel ih =>
    unfold readLoop
    rw [wp_ite]
    refine ⟨fun hlt => ?_, fun _ => ⟨rfl, Frame.refl s, .inr ⟨congrArg Nat.cast hg.symm, hg ▸ ht⟩⟩⟩
    refine wp_call bmap_frame fun r s' hr => ?_
    obtain ⟨ip', addr⟩ := r
    obtain ⟨h1, h2⟩ := hr
    change wp Any (if addr = 0 then _ else _) _ s'
    rw [wp_ite]
    refine ⟨fun _ => ⟨h1, h2, .inr ⟨congrArg Nat.cast hg.symm, hg ▸ ht⟩⟩, fun _ => ?_⟩
    rw [wp_bind, wp_look, wp_ite]
    refine ⟨fun _ => ?_, fun hbad => ⟨h1, h2, .inl ⟨rfl, ?_⟩⟩⟩
    swap
    · simp only [List.all_eq_true, not_forall, Bool.not_eq_true] at hbad
      obtain ⟨k, -, hk⟩ := hbad
      exact ⟨_, hk⟩
    have hle := chunk_le n tot off
    refine wp_mono (ih (by omega) (by simp [hg, slice])) fun r s'' hr => ?_
    exact ⟨h1.trans hr.1, h2.trans hr.2.1, hr.2.2⟩

/-- **Reading** stays within the file. -/
theorem readi_frame {writable : ℕ → Bool} {off n : ℕ} :
    wp Any (readi ip writable off n) (fun r s' => SameButAddrs ip r.1 ∧ Frame s s' ∧
      ((r.2.1 = -1 ∧ ∃ i, writable i = false) ∨ r.2.1 = r.2.2.length ∧ r.2.2.length ≤ n ∧
        (0 < r.2.2.length → off + r.2.2.length ≤ ip.size))) s := by
  unfold readi
  rw [wp_ite]
  refine ⟨fun _ => ⟨rfl, Frame.refl s, .inr ⟨rfl, by simp, by simp⟩⟩, fun hoff => ?_⟩
  have hle : off ≤ ip.size := by omega
  change wp Any (readLoop writable (if off + n > ip.size then ip.size - off else n) _ ip 0 off []) _ s
  have hn : (if off + n > ip.size then ip.size - off else n) ≤ n ∧
      off + (if off + n > ip.size then ip.size - off else n) ≤ ip.size := by
    split_ifs <;> omega
  refine wp_mono (readLoop_frame (Nat.zero_le _) rfl) fun r s' ⟨h1, h2, h3⟩ => ?_
  refine ⟨h1, h2, h3.imp_right fun ⟨h4, h5⟩ => ⟨h4, by omega, fun _ => by omega⟩⟩

lemma writeLoop_frame {src : ℕ → Option UInt8} {n fuel tot off : ℕ} (ht : tot ≤ n) :
    wp Any (writeLoop src n fuel ip tot off) (fun r s' => SameButAddrs ip r.1 ∧ Frame s s' ∧
      tot ≤ r.2.1 ∧ r.2.1 ≤ n ∧ r.2.2 + tot = off + r.2.1) s := by
  induction fuel generalizing ip tot off s with
  | zero => exact ⟨rfl, Frame.refl s, le_rfl, ht, rfl⟩
  | succ fuel ih =>
    unfold writeLoop
    rw [wp_ite]
    refine ⟨fun hlt => ?_, fun _ => ⟨rfl, Frame.refl s, le_rfl, ht, rfl⟩⟩
    refine wp_call bmap_frame fun r s' hr => ?_
    obtain ⟨ip', addr⟩ := r
    obtain ⟨h1, h2⟩ := hr
    change wp Any (if addr = 0 then _ else _) _ s'
    rw [wp_ite]
    refine ⟨fun _ => ⟨h1, h2, le_rfl, ht, rfl⟩, fun _ => ?_⟩
    rw [wp_bind, wp_change, wp_ite]
    have h3 := h2.trans (frame_setBlock addr
      (patch (s'.block addr) (off % BSIZE) (copyin src tot (chunk n tot off))) s')
    refine ⟨fun _ => ?_, fun _ => ⟨h1, h3, le_rfl, ht, rfl⟩⟩
    rw [wp_bind]
    refine wp_logWrite trivial ?_
    have hle := chunk_le n tot off
    refine wp_mono (ih (by omega)) fun r s'' ⟨h4, h5, h6, h7, h8⟩ => ?_
    exact ⟨h1.trans h4, h3.trans h5, by omega, h7, by omega⟩

/-- What `writei` comes to: nothing, or so many bytes, with the inode brought up to date. -/
def Written (inum : ℕ) (ip : Dinode) (off n : ℕ) (s : Store) (r : Dinode × ℤ) (s' : Store) : Prop :=
  (r = (ip, -1) ∧ s' = s) ∨ ∃ tot ≤ n, r.2 = tot ∧ off ≤ ip.size ∧ off + tot ≤ MAXFILE * BSIZE ∧
    r.1 = { ip with addrs := r.1.addrs, size := max ip.size (off + tot) } ∧
    s'.dinode = Function.update s.dinode inum r.1 ∧ s'.outstanding = s.outstanding ∧
    s'.ninodes = s.ninodes

/-- **Writing** extends the file as far as it gets, and no further. -/
theorem writei_frame {inum : ℕ} {src : ℕ → Option UInt8} {off n : ℕ} (hn : n < 2 ^ 32)
    (ho : off < 2 ^ 32) :
    wp Any (writei inum ip src off n) (Written inum ip off n s) s := by
  unfold writei
  rw [wp_ite]
  refine ⟨fun _ => .inl ⟨rfl, rfl⟩, fun h1 => ?_⟩
  rw [wp_ite]
  refine ⟨fun _ => .inl ⟨rfl, rfl⟩, fun h2 => ?_⟩
  refine wp_call (writeLoop_frame (Nat.zero_le n)) fun r s' hr => ?_
  obtain ⟨ip', tot, off'⟩ := r
  obtain ⟨h3, h4, -, h5, h6⟩ := hr
  simp only at h3 h5 h6
  have hsz := h3.size
  have hnew : ∃ d : Dinode, d = (if off' > ip'.size then { ip' with size := off' } else ip') ∧
      d = { ip with addrs := d.addrs, size := max ip.size (off + tot) } := by
    refine ⟨_, rfl, ?_⟩
    rw [h3] at hsz ⊢
    split_ifs with hgt
    · simp only at hgt
      simp only [Dinode.mk.injEq, and_true, true_and]
      omega
    · simp only at hgt
      simp only [Dinode.mk.injEq, and_true, true_and]
      omega
  obtain ⟨d, hd, hd'⟩ := hnew
  change wp Any (iupdate inum (if off' > ip'.size then { ip' with size := off' } else ip') >>=
    fun _ => pure ((if off' > ip'.size then { ip' with size := off' } else ip'), (tot : ℤ))) _ s'
  rw [← hd]
  unfold iupdate
  rw [wp_bind, wp_bind, wp_change]
  refine wp_logWrite trivial (.inr ⟨tot, h5, rfl, by omega, by omega, hd', ?_, ?_, ?_⟩)
  · exact congrArg (fun m => Function.update m inum d) h4.dinode
  · exact h4.outstanding
  · exact h4.ninodes

end Anyhow

end Xv6.Fs.Untouched
