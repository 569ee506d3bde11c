import Mathlib.Data.Finset.Card
import Xv6.Fs.Sound

/-!
How many blocks are free, and how many a block of a file needs.
-/

namespace Xv6.Fs.Room

open Xv6.Conc Xv6.Data.Effect Xv6.Data.Effect.Eff Xv6.Disk Xv6.Fs.Content Xv6.Fs.Untouched
  Xv6.Fs.Sound

variable {nmeta inum : ℕ} {s s' s'' : Store} {ip : Dinode} {dn : ℕ → Dinode}
  {blk : BlockNo → Block} {b : BlockNo} {loose : Multiset BlockNo} {bn k m n : ℕ}

/-- The number of free blocks. -/
def spare (s : Store) : ℕ :=
  ((Finset.range s.size).filter fun k => s.used (UInt32.ofNat k) = false).card

/-- Block 0, whose number stands for no block, is in use. -/
structure Booted (s : Store) : Prop where
  zero : s.used 0 = true
  size : s.size ≤ 2 ^ 32

lemma booted_of_held (h : Held nmeta s dn loose) : Booted s := by
  have hmem : (0 : BlockNo) ∈ own nmeta s.block dn loose .metadata :=
    Multiset.mem_coe.mpr (List.mem_map.mpr ⟨0, List.mem_range.mpr h.boot, rfl⟩)
  exact ⟨(h.owns.used 0 (h.owns.dom _ _ hmem)).mpr ⟨_, hmem⟩, h.size⟩

/-- `n` of the free blocks have been taken. -/
structure Spent (n : ℕ) (s s' : Store) : Prop where
  booted : Booted s'
  spare : spare s' + n = spare s

lemma Spent.refl (h : Booted s) : Spent 0 s s := ⟨h, rfl⟩

lemma Spent.trans (h : Spent m s s') (h' : Spent n s' s'') : Spent (m + n) s s'' := by
  have h1 := h.spare
  have h2 := h'.spare
  exact ⟨h'.booted, by omega⟩

lemma unused_eq_none : s.unused = none ↔ spare s = 0 := by
  unfold Store.unused spare
  rw [List.find?_eq_none, Finset.card_eq_zero, Finset.filter_eq_empty_iff]
  simp

lemma spare_mark (h : Booted s) (hu : s.unused = some b) : b ≠ 0 ∧ spare (s.mark b true) + 1 = spare s := by
  obtain ⟨hfree, hlt⟩ := unused_spec h.size hu
  refine ⟨fun h0 => ?_, ?_⟩
  · rw [h0, h.zero] at hfree
    cases hfree
  have hsize := h.size
  have hu32 : UInt32.size = 2 ^ 32 := rfl
  have herase : ((Finset.range (s.mark b true).size).filter fun k =>
      (s.mark b true).used (UInt32.ofNat k) = false) =
      ((Finset.range s.size).filter fun k => s.used (UInt32.ofNat k) = false).erase b.toNat := by
    ext k
    simp only [Finset.mem_filter, Finset.mem_erase, Finset.mem_range, Store.mark,
      Function.update_apply]
    by_cases hk : k = b.toNat
    · subst hk
      simp
    · have hne : k < s.size → UInt32.ofNat k ≠ b := by
        rintro hlt rfl
        exact hk (UInt32.toNat_ofNat_of_lt' (by omega)).symm
      constructor
      · rintro ⟨h1, h2⟩
        rw [if_neg (hne h1)] at h2
        exact ⟨hk, h1, h2⟩
      · rintro ⟨-, h1, h2⟩
        rw [if_neg (hne h1)]
        exact ⟨h1, h2⟩
  unfold spare
  rw [herase]
  refine Finset.card_erase_add_one ?_
  rw [Finset.mem_filter, Finset.mem_range]
  exact ⟨hlt, by rw [UInt32.ofNat_toNat]; exact hfree⟩

/-- **Allocating** a block fails if and only if none is free. -/
lemma balloc_spare (h : Booted s) : wp Any balloc (fun b s' =>
    (b = 0 ∧ s' = s ∧ spare s = 0) ∨
      (b ≠ 0 ∧ Spent 1 s s' ∧ s'.block = Function.update s.block b zero)) s := by
  unfold balloc
  rw [wp_bind, wp_look]
  cases hu : s.unused with
  | none => exact .inl ⟨rfl, rfl, unused_eq_none.mp hu⟩
  | some b =>
    obtain ⟨hb, hspare⟩ := spare_mark h hu
    change wp Any (change (Store.mark b true) >>= fun _ => logWrite >>= fun _ =>
      bzero b >>= fun _ => pure b) _ s
    rw [wp_bind, wp_change, wp_bind]
    refine wp_logWrite trivial ?_
    unfold bzero
    rw [wp_bind, wp_bind, wp_change]
    refine wp_logWrite trivial (.inr ⟨hb, ⟨⟨?_, h.size⟩, hspare⟩, rfl⟩)
    change Function.update s.used b true 0 = true
    rw [Function.update_of_ne (Ne.symm hb)]
    exact h.zero

/-- How many blocks must be allocated for block `bn` of a file. -/
def need (blk : BlockNo → Block) (ip : Dinode) (bn : ℕ) : ℕ :=
  if addrOf blk ip bn ≠ 0 then 0
  else if bn < NDIRECT ∨ ip.addrs indirect ≠ 0 then 1 else 2

lemma addrAt_spare (h : Booted s) (i : Fin (NDIRECT + 1)) : wp Any (addrAt ip i) (fun r s' =>
    (ip.addrs i ≠ 0 ∧ r = (ip, ip.addrs i) ∧ s' = s) ∨ (ip.addrs i = 0 ∧ r.2 = 0 ∧ s' = s ∧ spare s = 0) ∨
      (ip.addrs i = 0 ∧ r.2 ≠ 0 ∧ Spent 1 s s' ∧ s'.block r.2 = zero)) s := by
  unfold addrAt
  rw [wp_ite]
  refine ⟨fun h0 => ?_, fun h0 => .inl ⟨h0, rfl, rfl⟩⟩
  refine wp_call (balloc_spare h) fun b s' hs => ?_
  rw [wp_ite]
  obtain ⟨hz, rfl, hnone⟩ | ⟨hb, hspent, hblk⟩ := hs
  · exact ⟨fun _ => .inr (.inl ⟨h0, rfl, rfl, hnone⟩), fun hne => absurd hz hne⟩
  · refine ⟨fun hz => absurd hz hb, fun _ => .inr (.inr ⟨h0, hb, hspent, ?_⟩)⟩
    change s'.block b = zero
    rw [hblk, Function.update_self]

lemma entryAt_spare (h : Booted s) (addr : BlockNo) (k : ℕ) : wp Any (entryAt addr k) (fun r s' =>
    (word (s.block addr) k ≠ 0 ∧ r ≠ 0 ∧ s' = s) ∨
      (word (s.block addr) k = 0 ∧ r = 0 ∧ s' = s ∧ spare s = 0) ∨
      (word (s.block addr) k = 0 ∧ r ≠ 0 ∧ Spent 1 s s')) s := by
  unfold entryAt
  rw [wp_bind, wp_look, wp_ite]
  refine ⟨fun h0 => ?_, fun h0 => .inl ⟨h0, h0, rfl⟩⟩
  refine wp_call (balloc_spare h) fun b s' hs => ?_
  rw [wp_ite]
  obtain ⟨hz, rfl, hnone⟩ | ⟨hb, hspent, -⟩ := hs
  · exact ⟨fun _ => .inr (.inl ⟨h0, rfl, rfl, hnone⟩), fun hne => absurd hz hne⟩
  · refine ⟨fun hz => absurd hz hb, fun _ => ?_⟩
    rw [wp_bind, wp_change, wp_bind]
    exact wp_logWrite trivial (.inr (.inr ⟨h0, hb, ⟨hspent.booted.zero, hspent.booted.size⟩,
      hspent.spare⟩))

/-- **The block of a file** is found or allocated if and only if enough blocks are free. -/
theorem bmap_spare (h : Booted s) (hbn : bn < MAXFILE) : wp Any (bmap ip bn) (fun r s' =>
    (r.2 ≠ 0 ∧ Spent (need s.block ip bn) s s') ∨
      (r.2 = 0 ∧ spare s < need s.block ip bn ∧ Booted s' ∧ spare s' = 0)) s := by
  unfold bmap need addrOf
  rw [wp_ite]
  refine ⟨fun h1 => ?_, fun h1 => ?_⟩
  · rw [if_pos h1, if_pos (c := bn < NDIRECT ∨ ip.addrs indirect ≠ 0) (.inl h1)]
    refine wp_mono (addrAt_spare h _) fun r s' hr => ?_
    obtain ⟨h2, rfl, rfl⟩ | ⟨h2, h3, rfl, h4⟩ | ⟨h2, h3, h4, -⟩ := hr
    · rw [if_pos h2]
      exact .inl ⟨h2, Spent.refl h⟩
    · rw [if_neg (not_not.mpr h2)]
      exact .inr ⟨h3, by omega, h, h4⟩
    · rw [if_neg (not_not.mpr h2)]
      exact .inl ⟨h3, h4⟩
  rw [if_neg h1, wp_ite]
  refine ⟨fun h2 => ?_, fun h2 => absurd hbn (by simp only [MAXFILE]; omega)⟩
  refine wp_call (addrAt_spare h indirect) fun r s' hr => ?_
  obtain ⟨ip', addr⟩ := r
  change wp Any (if addr = 0 then _ else _) _ s'
  rw [wp_ite]
  obtain ⟨h3, h4, rfl⟩ | ⟨h3, h4, rfl, h5⟩ | ⟨h3, h4, h5, h6⟩ := hr
  · -- there is an indirect block
    cases h4
    rw [if_neg h3, if_pos (c := bn < NDIRECT ∨ ip.addrs indirect ≠ 0) (.inr h3)]
    refine ⟨fun hz => absurd hz h3, fun _ => ?_⟩
    refine wp_call (entryAt_spare h _ _) fun a s'' ha => ?_
    obtain ⟨h7, h8, rfl⟩ | ⟨h7, h8, rfl, h9⟩ | ⟨h7, h8, h9⟩ := ha
    · rw [if_pos h7]
      exact .inl ⟨h8, Spent.refl h⟩
    · rw [if_neg (not_not.mpr h7)]
      exact .inr ⟨h8, by omega, h, h9⟩
    · rw [if_neg (not_not.mpr h7)]
      exact .inl ⟨h8, h9⟩
  · rw [if_pos h3, if_neg (not_not.mpr rfl), if_neg (by simp [h1, h3])]
    exact ⟨fun _ => .inr ⟨rfl, by omega, h, h5⟩, fun hne => absurd h4 hne⟩
  · -- the indirect block is new, and has no entries yet
    rw [if_pos h3, if_neg (not_not.mpr rfl), if_neg (by simp [h1, h3])]
    refine ⟨fun hz => absurd hz h4, fun _ => ?_⟩
    refine wp_call (entryAt_spare h5.booted _ _) fun a s'' ha => ?_
    have hz : word (s'.block addr) (bn - NDIRECT) = 0 := by
      have h6' : s'.block addr = zero := h6
      rw [h6', word_zero]
    have hspent := h5.spare
    obtain ⟨h7, -⟩ | ⟨-, h8, rfl, h9⟩ | ⟨-, h8, h9⟩ := ha
    · exact absurd hz h7
    · exact .inr ⟨h8, by omega, h5.booted, h9⟩
    · exact .inl ⟨h8, h5.trans h9⟩

/-! ### Which blocks have addresses -/

/-- Only block `bn` has been given an address. -/
structure Addressed (bn : ℕ) (blk : BlockNo → Block) (ip : Dinode) (blk' : BlockNo → Block)
    (ip' : Dinode) : Prop where
  only : ∀ k ≠ bn, addrOf blk' ip' k ≠ 0 → addrOf blk ip k ≠ 0
  ind : ip'.addrs indirect ≠ 0 → ip.addrs indirect ≠ 0 ∨ NDIRECT ≤ bn
  keep : ∀ i, ip.addrs i ≠ 0 → ip'.addrs i = ip.addrs i

lemma Addressed.refl : Addressed bn blk ip blk ip := ⟨fun _ _ h => h, .inl, fun _ _ => rfl⟩

/-- A block that is zeroed has no entries. -/
lemma word_zeroed {a : BlockNo} {k : ℕ} (h : word (Function.update blk b zero a) k ≠ 0) :
    word (blk a) k ≠ 0 := by
  by_cases ha : a = b
  · subst ha
    rw [Function.update_self, word_zero] at h
    exact absurd rfl h
  · rwa [Function.update_of_ne ha] at h

lemma addrOf_zeroed (h : addrOf (Function.update blk b zero) ip k ≠ 0) : addrOf blk ip k ≠ 0 := by
  unfold addrOf at h ⊢
  split_ifs at h ⊢
  · exact h
  · exact absurd rfl h
  · exact word_zeroed h

lemma addrAt_cases (h : Booted s) (i : Fin (NDIRECT + 1)) : wp Any (addrAt ip i) (fun r s' =>
    (s' = s ∧ r = (ip, ip.addrs i)) ∨ ∃ b, ip.addrs i = 0 ∧ b ≠ 0 ∧ r = (ip.setAddr i b, b) ∧
      Booted s' ∧ s'.block = Function.update s.block b zero) s := by
  unfold addrAt
  rw [wp_ite]
  refine ⟨fun h0 => ?_, fun _ => .inl ⟨rfl, rfl⟩⟩
  refine wp_call (balloc_spare h) ?_
  rintro b s' hs
  rw [wp_ite]
  obtain ⟨hz, rfl, -⟩ | ⟨hb, hspent, hblk⟩ := hs
  · refine ⟨fun _ => .inl ⟨rfl, ?_⟩, fun hne => absurd hz hne⟩
    rw [h0]
  · exact ⟨fun hz => absurd hz hb, fun _ => .inr ⟨b, h0, hb, rfl, hspent.booted, hblk⟩⟩

lemma entryAt_cases (h : Booted s) (a : BlockNo) (n : ℕ) : wp Any (entryAt a n) (fun r s' =>
    s' = s ∨ s'.block = Function.update (Function.update s.block r zero) a
      (setWord (Function.update s.block r zero a) n r)) s := by
  unfold entryAt
  rw [wp_bind, wp_look, wp_ite]
  refine ⟨fun _ => ?_, fun _ => .inl rfl⟩
  refine wp_call (balloc_spare h) ?_
  rintro b s' hs
  rw [wp_ite]
  obtain ⟨hz, rfl, -⟩ | ⟨hb, -, hblk⟩ := hs
  · exact ⟨fun _ => .inl rfl, fun hne => absurd hz hne⟩
  refine ⟨fun hz => absurd hz hb, fun _ => ?_⟩
  rw [wp_bind, wp_change, wp_bind]
  refine wp_logWrite trivial (.inr ?_)
  rw [← hblk]
  rfl

/-- A new entry gives no other block an address. -/
lemma addrOf_entry {a : BlockNo} (h : ip.addrs indirect = a) (hk : k ≠ bn) (hbn : ¬bn < NDIRECT)
    (hadd : addrOf (Function.update (Function.update blk b zero) a
      (setWord (Function.update blk b zero a) (bn - NDIRECT) b)) ip k ≠ 0) : addrOf blk ip k ≠ 0 := by
  refine addrOf_zeroed (b := b) ?_
  unfold addrOf at hadd ⊢
  split_ifs at hadd ⊢ with h1 h2
  · exact hadd
  · exact absurd rfl hadd
  · rw [h, Function.update_self, word_setWord_ne _ _ (by omega)] at hadd
    rwa [h]

/-- **The block of a file** is the only one that is given an address. -/
theorem bmap_addressed (h : Booted s) : wp Any (bmap ip bn) (fun r s' =>
    Addressed bn s.block ip s'.block r.1) s := by
  have hlast : (indirect : ℕ) = NDIRECT := rfl
  unfold bmap
  rw [wp_ite]
  refine ⟨fun h1 => ?_, fun h1 => ?_⟩
  · refine wp_mono (addrAt_cases h _) ?_
    rintro r s' (⟨rfl, rfl⟩ | ⟨b, h0, -, rfl, -, hblk⟩)
    · exact Addressed.refl
    change Addressed bn s.block ip s'.block (ip.setAddr (Fin.ofNat (NDIRECT + 1) bn) b)
    have hval : ((Fin.ofNat (NDIRECT + 1) bn : Fin (NDIRECT + 1)) : ℕ) = bn := by
      rw [Fin.val_ofNat, Nat.mod_eq_of_lt (by omega)]
    have hother : ∀ i : Fin (NDIRECT + 1), (i : ℕ) ≠ bn →
        (ip.setAddr (Fin.ofNat (NDIRECT + 1) bn) b).addrs i = ip.addrs i := by
      intro i hi
      refine Function.update_of_ne ?_ ..
      rintro rfl
      exact hi hval
    refine ⟨fun k hk hadd => ?_, fun hind => .inl ?_, fun i hi => ?_⟩
    · rw [hblk] at hadd
      have hold := addrOf_zeroed hadd
      unfold addrOf at hold ⊢
      rw [hother indirect (by omega)] at hold
      split_ifs at hold ⊢ with hd hz
      · rwa [hother _ (by rw [Fin.val_ofNat, Nat.mod_eq_of_lt (by omega)]; exact hk)] at hold
      · exact absurd rfl hold
      · exact hold
    · rwa [hother indirect (by omega)] at hind
    · by_cases hi' : (i : ℕ) = bn
      · have hii : i = Fin.ofNat (NDIRECT + 1) bn := Fin.ext (hi'.trans hval.symm)
        exact absurd h0 (hii ▸ hi)
      · exact hother i hi'
  rw [wp_ite]
  refine ⟨fun h2 => ?_, fun _ => trivial⟩
  refine wp_call (addrAt_cases h indirect) ?_
  rintro ⟨ip', a⟩ s' hs
  change wp Any (if a = 0 then _ else _) _ s'
  have hfirst : Booted s' ∧ Addressed bn s.block ip s'.block ip' ∧ ip'.addrs indirect = a := by
    obtain ⟨rfl, heq⟩ | ⟨b, h0, -, heq, hb, hblk⟩ := hs
    · cases heq
      exact ⟨h, Addressed.refl, rfl⟩
    cases heq
    have hind : (ip.setAddr indirect a).addrs indirect = a := by simp [Dinode.setAddr]
    have hother : ∀ i ≠ indirect, (ip.setAddr indirect a).addrs i = ip.addrs i :=
      fun i hi => Function.update_of_ne hi ..
    refine ⟨hb, ⟨fun k hk hadd => ?_, fun _ => .inr (not_lt.mp h1), fun i hi => ?_⟩, hind⟩
    · unfold addrOf at hadd ⊢
      by_cases hd : k < NDIRECT
      · have hne : Fin.ofNat (NDIRECT + 1) k ≠ indirect := by
          intro h3
          rw [← h3, Fin.val_ofNat, Nat.mod_eq_of_lt (by omega)] at hlast
          omega
        rw [if_pos hd] at hadd ⊢
        rwa [hother _ hne] at hadd
      · rw [if_neg hd, hind] at hadd
        rw [hblk, Function.update_self, word_zero, ite_self] at hadd
        exact absurd rfl hadd
    · refine hother i ?_
      rintro rfl
      exact hi h0
  obtain ⟨hb, haddr, hind⟩ := hfirst
  rw [wp_ite]
  refine ⟨fun _ => haddr, fun _ => ?_⟩
  refine wp_call (entryAt_cases hb a (bn - NDIRECT)) ?_
  rintro x s'' (rfl | hblk)
  · exact haddr
  refine ⟨fun k hk hadd => haddr.only k hk ?_, haddr.ind, haddr.keep⟩
  change addrOf s''.block ip' k ≠ 0 at hadd
  rw [hblk] at hadd
  exact addrOf_entry hind hk h1 hadd

end Xv6.Fs.Room
