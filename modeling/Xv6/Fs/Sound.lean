import Mathlib.Algebra.BigOperators.Fin
import Xv6.Data.Owner
import Xv6.Fs.Untouched

/-!
Who owns the blocks. A bit of the bitmap is set where the block is metadata or has one place
among the addresses of the allocated inodes and of their indirect blocks; no file has a hole.
-/

namespace Xv6.Fs.Sound

open Xv6.Conc Xv6.Data.Effect Xv6.Data.Effect.Eff Xv6.Data.Owner Xv6.Disk Xv6.Fs.Content
  Xv6.Fs.Kernel Xv6.Fs.Untouched

/-- An address is 0 where there is no block. -/
def one (a : BlockNo) : Multiset BlockNo := if a = 0 then 0 else {a}

/-- The blocks named by the entries of the indirect block. -/
def entryBlocks (blk : BlockNo → Block) (a : BlockNo) : Multiset BlockNo :=
  if a = 0 then 0 else ∑ j ∈ Finset.range NINDIRECT, one (word (blk a) j)

/-- All blocks of a file. -/
def blocks (blk : BlockNo → Block) (d : Dinode) : Multiset BlockNo :=
  (∑ i, one (d.addrs i)) + entryBlocks blk (d.addrs indirect)

/-- Where a block can be: in the metadata, in an inode, or with an operation in progress. -/
inductive Place
  | metadata
  | loose
  | inode (inum : ℕ)
  deriving DecidableEq

/-- The blocks of an inode, if it is allocated. -/
def inodeBlocks (blk : BlockNo → Block) (d : Dinode) : Multiset BlockNo :=
  if d.type = 0 then 0 else blocks blk d

/-- What there is in each place, the inodes being `dn`. -/
def own (nmeta : ℕ) (blk : BlockNo → Block) (dn : ℕ → Dinode) (loose : Multiset BlockNo) :
    Place → Multiset BlockNo
  | .metadata => ((List.range nmeta).map UInt32.ofNat : List BlockNo)
  | .loose => loose
  | .inode k => inodeBlocks blk (dn k)

structure Held (nmeta : ℕ) (s : Store) (dn : ℕ → Dinode) (loose : Multiset BlockNo) : Prop where
  boot : 0 < nmeta
  size : s.size ≤ 2 ^ 32
  owns : Owns (fun b => b.toNat < s.size) s.used (own nmeta s.block dn loose)

/-- The address of block `bn` of a file. -/
def addrOf (blk : BlockNo → Block) (d : Dinode) (bn : ℕ) : BlockNo :=
  if bn < NDIRECT then d.addrs (Fin.ofNat (NDIRECT + 1) bn)
  else if d.addrs indirect = 0 then 0
  else word (blk (d.addrs indirect)) (bn - NDIRECT)

/-- The blocks before offset `n` all have addresses. -/
def Filled (blk : BlockNo → Block) (d : Dinode) (n : ℕ) : Prop :=
  ∀ bn, bn * BSIZE < n → addrOf blk d bn ≠ 0

/-- A file as it should be. -/
structure FileOk (blk : BlockNo → Block) (d : Dinode) : Prop where
  filled : Filled blk d d.size
  size : d.size ≤ MAXFILE * BSIZE

structure Intact (nmeta : ℕ) (s : Store) : Prop where
  held : Held nmeta s s.dinode 0
  file : ∀ k, (s.dinode k).type ≠ 0 → FileOk s.block (s.dinode k)

/-! ### Blocks -/

variable {nmeta : ℕ} {s s' s'' : Store} {dn : ℕ → Dinode} {loose : Multiset BlockNo}
  {blk blk' : BlockNo → Block} {d ip ip' : Dinode} {a b : BlockNo} {bn k inum : ℕ}

lemma mem_one : b ∈ one a ↔ a ≠ 0 ∧ b = a := by
  unfold one
  split_ifs with h <;> simp [h]

lemma one_of_ne (h : a ≠ 0) : one a = {a} := if_neg h

lemma entryBlocks_congr (h : a ≠ 0 → blk' a = blk a) : entryBlocks blk' a = entryBlocks blk a := by
  unfold entryBlocks
  split_ifs with ha
  · rfl
  · rw [h ha]

lemma blocks_congr (h : d.addrs indirect ≠ 0 → blk' (d.addrs indirect) = blk (d.addrs indirect)) :
    blocks blk' d = blocks blk d := by
  unfold blocks
  rw [entryBlocks_congr h]

lemma inodeBlocks_congr
    (h : d.addrs indirect ≠ 0 → blk' (d.addrs indirect) = blk (d.addrs indirect)) :
    inodeBlocks blk' d = inodeBlocks blk d := by
  unfold inodeBlocks
  rw [blocks_congr h]

lemma addrOf_congr (h : d.addrs indirect ≠ 0 → blk' (d.addrs indirect) = blk (d.addrs indirect)) :
    addrOf blk' d bn = addrOf blk d bn := by
  unfold addrOf
  split_ifs with h1 h2
  · rfl
  · rfl
  · rw [h h2]

lemma word_big (v : Block) {k : ℕ} (hk : NINDIRECT ≤ k) : word v k = 0 := by
  have hbig : NINDIRECT * 4 = BSIZE := by decide
  have hbyte : ∀ o, 4 * k ≤ o → byte v o = 0 := fun o ho => by
    unfold byte
    rw [dif_neg (by omega)]
  unfold word
  rw [hbyte _ le_rfl, hbyte _ (by omega), hbyte _ (by omega), hbyte _ (by omega)]
  rfl

/-- A file has no blocks past the largest. -/
lemma addrOf_lt (h : addrOf blk d bn ≠ 0) : bn < MAXFILE := by
  by_contra hbig
  unfold addrOf at h
  simp only [MAXFILE] at hbig
  rw [if_neg (by omega)] at h
  split_ifs at h
  · exact h rfl
  · exact h (word_big _ (by omega))

lemma addr_mem {i : Fin (NDIRECT + 1)} (h : d.addrs i ≠ 0) : d.addrs i ∈ blocks blk d := by
  refine Multiset.mem_add.mpr (.inl ?_)
  rw [Multiset.mem_sum]
  exact ⟨i, Finset.mem_univ i, mem_one.mpr ⟨h, rfl⟩⟩

lemma entry_mem (ha : d.addrs indirect ≠ 0) (hk : k < NINDIRECT)
    (h : word (blk (d.addrs indirect)) k ≠ 0) :
    word (blk (d.addrs indirect)) k ∈ blocks blk d := by
  refine Multiset.mem_add.mpr (.inr ?_)
  unfold entryBlocks
  rw [if_neg ha, Multiset.mem_sum]
  exact ⟨k, Finset.mem_range.mpr hk, mem_one.mpr ⟨h, rfl⟩⟩

lemma addrOf_mem (hbn : bn < MAXFILE) (h : addrOf blk d bn ≠ 0) :
    addrOf blk d bn ∈ blocks blk d := by
  unfold addrOf at *
  split_ifs at * with h1 h2
  · exact addr_mem h
  · exact absurd rfl h
  · exact entry_mem h2 (by simp only [MAXFILE] at hbn; omega) h

/-- A block of data is not the indirect block. -/
lemma addrOf_ne_indirect (hn : (blocks blk d).Nodup) (hbn : bn < MAXFILE)
    (h : addrOf blk d bn ≠ 0) : addrOf blk d bn ≠ d.addrs indirect := by
  intro heq
  have hind : d.addrs indirect ≠ 0 := heq ▸ h
  unfold addrOf at heq h
  split_ifs at heq h with h1
  · -- two of the addresses in the inode
    have hne : Fin.ofNat (NDIRECT + 1) bn ≠ indirect := by
      intro hi
      have := congrArg Fin.val hi
      simp only [Fin.val_ofNat, indirect, Fin.val_last] at this
      rw [Nat.mod_eq_of_lt (by omega)] at this
      omega
    have hnod := (Multiset.nodup_add.mp hn).1
    rw [← Finset.add_sum_erase _ _ (Finset.mem_univ indirect)] at hnod
    refine Multiset.disjoint_left.mp (Multiset.nodup_add.mp hnod).2.2
      (mem_one.mpr ⟨hind, rfl⟩) ?_
    rw [Multiset.mem_sum]
    exact ⟨_, Finset.mem_erase.mpr ⟨hne, Finset.mem_univ _⟩, mem_one.mpr ⟨h, heq.symm⟩⟩
  · have hin : d.addrs indirect ∈ ∑ i, one (d.addrs i) := by
      rw [Multiset.mem_sum]
      exact ⟨indirect, Finset.mem_univ _, mem_one.mpr ⟨hind, rfl⟩⟩
    have hentry : d.addrs indirect ∈ entryBlocks blk (d.addrs indirect) := by
      unfold entryBlocks
      rw [if_neg hind, Multiset.mem_sum]
      refine ⟨bn - NDIRECT, Finset.mem_range.mpr ?_, mem_one.mpr ⟨h, heq.symm⟩⟩
      simp only [MAXFILE] at hbn
      omega
    exact Multiset.disjoint_left.mp (Multiset.nodup_add.mp hn).2.2 hin hentry

/-- A sum in which one term, which was 0, becomes the address of a block. -/
lemma sum_one_update {ι : Type} [DecidableEq ι] {t : Finset ι} {f g : ι → BlockNo} {i : ι}
    (hi : i ∈ t) (hf : f i = 0) (hg : g i = b) (hb : b ≠ 0) (hne : ∀ j ∈ t, j ≠ i → g j = f j) :
    ∑ j ∈ t, one (g j) = b ::ₘ ∑ j ∈ t, one (f j) := by
  have h1 : ∑ j ∈ t.erase i, one (g j) = ∑ j ∈ t.erase i, one (f j) := by
    refine Finset.sum_congr rfl fun j hj => ?_
    rw [hne j (Finset.mem_of_mem_erase hj) (Finset.ne_of_mem_erase hj)]
  rw [← Finset.add_sum_erase t _ hi, ← Finset.add_sum_erase t (fun j => one (f j)) hi, h1, hg, hf,
    one_of_ne hb]
  simp [one]

/-- An address of the inode is filled in. -/
lemma blocks_setAddr {i : Fin (NDIRECT + 1)} (h0 : ip.addrs i = 0) (hb : b ≠ 0)
    (hz : i = indirect → blk b = zero) : blocks blk (ip.setAddr i b) = b ::ₘ blocks blk ip := by
  unfold blocks
  have hsum : ∑ j, one ((ip.setAddr i b).addrs j) = b ::ₘ ∑ j, one (ip.addrs j) :=
    sum_one_update (Finset.mem_univ i) h0 (by simp [Dinode.setAddr]) hb fun j _ hj => by
      simp [Dinode.setAddr, hj]
  have hind : entryBlocks blk ((ip.setAddr i b).addrs indirect) =
      entryBlocks blk (ip.addrs indirect) := by
    by_cases hi : i = indirect
    · -- the new indirect block has no entries
      subst hi
      rw [h0]
      simp only [Dinode.setAddr, Function.update_self, entryBlocks, if_neg hb, if_true, hz rfl,
        word_zero]
      exact Finset.sum_eq_zero fun j _ => if_pos rfl
    · simp [Dinode.setAddr, Function.update_of_ne (Ne.symm hi)]
  rw [hsum, hind, Multiset.cons_add]

/-- An entry of the indirect block is filled in. -/
lemma blocks_setEntry (ha : ip.addrs indirect ≠ 0) (hk : k < NINDIRECT)
    (h0 : word (blk (ip.addrs indirect)) k = 0) (hb : b ≠ 0) :
    blocks (Function.update blk (ip.addrs indirect) (setWord (blk (ip.addrs indirect)) k b)) ip =
      b ::ₘ blocks blk ip := by
  unfold blocks entryBlocks
  rw [if_neg ha, if_neg ha, Function.update_self, ← Multiset.add_cons]
  congr 1
  refine sum_one_update (Finset.mem_range.mpr hk) h0 (word_setWord_same _ b ?_) hb fun j _ hj => ?_
  · have : NINDIRECT * 4 = BSIZE := by decide
    omega
  · exact word_setWord_ne _ b hj

/-! ### Allocation -/

abbrev Never : String → Prop := fun _ => False

lemma wp_log {Q : Unit → Store → Prop} (ho : 0 < s.outstanding) (h : Q () s) :
    wp Never logWrite Q s := by
  unfold wp logWrite
  rw [if_neg (by omega)]
  exact h

lemma ind_mem (ht : d.type ≠ 0) (ha : d.addrs indirect ≠ 0) :
    d.addrs indirect ∈ inodeBlocks blk d := by
  unfold inodeBlocks
  rw [if_neg ht]
  exact addr_mem ha

/-- A block that is in no inode can be overwritten. -/
lemma inodeBlocks_update (hb : b ∉ inodeBlocks blk d) (v : Block) :
    inodeBlocks (Function.update blk b v) d = inodeBlocks blk d := by
  by_cases ht : d.type = 0
  · unfold inodeBlocks
    rw [if_pos ht, if_pos ht]
  · refine inodeBlocks_congr fun ha => Function.update_of_ne ?_ ..
    intro heq
    exact hb (heq ▸ ind_mem ht ha)

lemma Held.ne_zero (h : Held nmeta s dn loose) {p : Place} (hp : p ≠ .metadata)
    (hb : b ∈ own nmeta s.block dn loose p) : b ≠ 0 := by
  rintro rfl
  refine hp (h.owns.one p .metadata 0 hb ?_)
  exact Multiset.mem_coe.mpr (List.mem_map.mpr ⟨0, List.mem_range.mpr h.boot, rfl⟩)

lemma unused_spec (h : s.size ≤ 2 ^ 32) (hu : s.unused = some b) :
    s.used b = false ∧ b.toNat < s.size := by
  unfold Store.unused at hu
  have hfree := List.find?_some hu
  obtain ⟨n, hn, rfl⟩ := List.mem_map.mp (List.mem_of_find?_eq_some hu)
  have hlt := List.mem_range.mp hn
  refine ⟨by simpa using hfree, ?_⟩
  rw [UInt32.toNat_ofNat_of_lt' (by simp only [UInt32.size]; omega)]
  exact hlt

/-- **Allocating** a block: it is zeroed, and was nowhere. -/
lemma balloc_held (h : Held nmeta s dn loose) (ho : 0 < s.outstanding) :
    wp Never balloc (fun b s' => Frame s s' ∧ ((b = 0 ∧ s' = s ∧ s.unused = none) ∨
      (b ≠ 0 ∧ s'.block = Function.update s.block b zero ∧
        Held nmeta s' dn (b ::ₘ loose) ∧ ∀ p, b ∉ own nmeta s.block dn loose p))) s := by
  unfold balloc
  rw [wp_bind, wp_look]
  cases hu : s.unused with
  | none => exact ⟨Frame.refl s, .inl ⟨rfl, rfl, rfl⟩⟩
  | some b =>
    obtain ⟨hfree, hlt⟩ := unused_spec h.size hu
    have hnot := h.owns.not_mem hlt hfree
    have hb : b ≠ 0 := by
      rintro rfl
      refine hnot .metadata ?_
      exact Multiset.mem_coe.mpr (List.mem_map.mpr ⟨0, List.mem_range.mpr h.boot, rfl⟩)
    change wp Never (change (Store.mark b true) >>= fun _ => logWrite >>= fun _ =>
      bzero b >>= fun _ => pure b) _ s
    rw [wp_bind, wp_change, wp_bind]
    refine wp_log ho ?_
    rw [wp_bind]
    unfold bzero
    rw [wp_bind, wp_change]
    refine wp_log ho ?_
    refine ⟨⟨rfl, rfl, rfl, rfl⟩, .inr ⟨hb, rfl, ⟨h.boot, h.size, ?_⟩, hnot⟩⟩
    have hown : own nmeta (Function.update s.block b zero) dn (b ::ₘ loose) =
        Function.update (own nmeta s.block dn loose) .loose
          (b ::ₘ own nmeta s.block dn loose .loose) := by
      funext p
      cases p with
      | metadata => rfl
      | loose => rfl
      | inode k => exact inodeBlocks_update (hnot (.inode k)) zero
    change Owns (fun b => b.toNat < s.size) (Function.update s.used b true)
      (own nmeta (Function.update s.block b zero) dn (b ::ₘ loose))
    rw [hown]
    exact h.owns.alloc hlt hfree .loose

/-- **Freeing** a block that an operation has. -/
lemma bfree_held (h : Held nmeta s dn (b ::ₘ loose)) (ho : 0 < s.outstanding) :
    wp Never (bfree b) (fun _ s' => Frame s s' ∧ s'.block = s.block ∧ Held nmeta s' dn loose) s := by
  unfold bfree
  have hin : b ∈ own nmeta s.block dn (b ::ₘ loose) .loose := Multiset.mem_cons_self b loose
  have hused : s.used b = true := (h.owns.used b (h.owns.dom _ b hin)).mpr ⟨_, hin⟩
  rw [wp_bind, wp_look, wp_ite]
  refine ⟨fun _ => ?_, fun hne => absurd hused hne⟩
  rw [wp_bind, wp_change]
  refine wp_log ho ⟨⟨rfl, rfl, rfl, rfl⟩, rfl, ⟨h.boot, h.size, ?_⟩⟩
  have hown : own nmeta s.block dn loose = Function.update (own nmeta s.block dn (b ::ₘ loose))
      .loose ((own nmeta s.block dn (b ::ₘ loose) .loose).erase b) := by
    funext p
    cases p with
    | metadata => rfl
    | loose => exact (Multiset.erase_cons_head b loose).symm
    | inode k => rfl
  change Owns (fun b => b.toNat < s.size) (Function.update s.used b false)
    (own nmeta s.block dn loose)
  rw [hown]
  exact h.owns.free hin

lemma freeEach_held {bs : List BlockNo} (h : Held nmeta s dn ((bs.map one).sum + loose))
    (ho : 0 < s.outstanding) : wp Never (freeEach bs)
      (fun _ s' => Frame s s' ∧ s'.block = s.block ∧ Held nmeta s' dn loose) s := by
  induction bs generalizing s with
  | nil => exact ⟨Frame.refl s, rfl, by simpa using h⟩
  | cons b bs ih =>
    rw [List.map_cons, List.sum_cons, add_assoc] at h
    unfold freeEach
    rw [wp_ite]
    refine ⟨fun hb => ?_, fun hb => ?_⟩
    · rw [hb] at h
      exact ih (by simpa [one] using h) ho
    · rw [one_of_ne hb, Multiset.singleton_add] at h
      refine wp_call (bfree_held h ho) fun _ s' ⟨h1, h2, h3⟩ => ?_
      refine wp_mono (ih h3 (h1.outstanding ▸ ho)) fun _ s'' ⟨h4, h5, h6⟩ => ?_
      exact ⟨h1.trans h4, h5.trans h2, h6⟩

/-! ### Addresses -/

/-- The blocks of the other inodes are as before. -/
def OthersKept (dn : ℕ → Dinode) (inum : ℕ) (blk blk' : BlockNo → Block) : Prop :=
  ∀ k, k ≠ inum → ∀ b ∈ inodeBlocks blk (dn k), blk' b = blk b

lemma OthersKept.same (h : OthersKept dn inum blk blk') (hk : k ≠ inum) :
    inodeBlocks blk' (dn k) = inodeBlocks blk (dn k) := by
  by_cases ht : (dn k).type = 0
  · unfold inodeBlocks
    rw [if_pos ht, if_pos ht]
  · exact inodeBlocks_congr fun ha => h k hk _ (ind_mem ht ha)

lemma OthersKept.addrOf (h : OthersKept dn inum blk blk') (hk : k ≠ inum)
    (ht : (dn k).type ≠ 0) : Sound.addrOf blk' (dn k) bn = Sound.addrOf blk (dn k) bn :=
  addrOf_congr fun ha => h k hk _ (ind_mem ht ha)

lemma OthersKept.trans {blk'' : BlockNo → Block} (h : OthersKept dn inum blk blk')
    (h' : OthersKept dn inum blk' blk'') : OthersKept dn inum blk blk'' := by
  intro k hk b hb
  rw [h' k hk b (by rwa [h.same hk]), h k hk b hb]

/-- What blocks of a file have addresses keep them. -/
def Grows (blk : BlockNo → Block) (ip : Dinode) (blk' : BlockNo → Block) (ip' : Dinode) : Prop :=
  ∀ bn, addrOf blk ip bn ≠ 0 → addrOf blk' ip' bn = addrOf blk ip bn

lemma Grows.trans {blk'' : BlockNo → Block} {ip'' : Dinode} (h : Grows blk ip blk' ip')
    (h' : Grows blk' ip' blk'' ip'') : Grows blk ip blk'' ip'' := by
  intro bn hbn
  rw [h' bn (by rwa [h bn hbn]), h bn hbn]

lemma Grows.filled {n : ℕ} (h : Grows blk ip blk' ip') (hf : Filled blk ip n) :
    Filled blk' ip' n := by
  intro bn hbn
  rw [h bn (hf bn hbn)]
  exact hf bn hbn

/-- The inode `inum`, which is `ip`, has become `ip'`. -/
structure Extends (nmeta inum : ℕ) (dn : ℕ → Dinode) (loose : Multiset BlockNo) (s : Store)
    (ip : Dinode) (s' : Store) (ip' : Dinode) : Prop where
  frame : Frame s s'
  same : SameButAddrs ip ip'
  others : OthersKept dn inum s.block s'.block
  grows : Grows s.block ip s'.block ip'
  held : Held nmeta s' (Function.update dn inum ip') loose

lemma Extends.refl (h : Held nmeta s (Function.update dn inum ip) loose) :
    Extends nmeta inum dn loose s ip s ip :=
  ⟨Frame.refl s, rfl, fun _ _ _ _ => rfl, fun _ _ => rfl, h⟩

lemma Extends.trans {ip'' : Dinode} (h : Extends nmeta inum dn loose s ip s' ip')
    (h' : Extends nmeta inum dn loose s' ip' s'' ip'') :
    Extends nmeta inum dn loose s ip s'' ip'' :=
  ⟨h.frame.trans h'.frame, h.same.trans h'.same, h.others.trans h'.others, h.grows.trans h'.grows,
    h'.held⟩

/-- The data of the file has not changed either. -/
structure Mapped (nmeta inum : ℕ) (dn : ℕ → Dinode) (loose : Multiset BlockNo) (s : Store)
    (ip : Dinode) (s' : Store) (ip' : Dinode) : Prop extends
    Extends nmeta inum dn loose s ip s' ip' where
  data : ∀ bn, addrOf s.block ip bn ≠ 0 →
    s'.block (addrOf s.block ip bn) = s.block (addrOf s.block ip bn)

lemma Mapped.refl (h : Held nmeta s (Function.update dn inum ip) loose) :
    Mapped nmeta inum dn loose s ip s ip := ⟨Extends.refl h, fun _ _ => rfl⟩

lemma Mapped.trans {ip'' : Dinode} (h : Mapped nmeta inum dn loose s ip s' ip')
    (h' : Mapped nmeta inum dn loose s' ip' s'' ip'') :
    Mapped nmeta inum dn loose s ip s'' ip'' := by
  refine ⟨h.toExtends.trans h'.toExtends, fun bn hbn => ?_⟩
  have hgrow := h.grows bn hbn
  have hdata := h'.data bn (by rwa [hgrow])
  rw [hgrow] at hdata
  rw [hdata, h.data bn hbn]

lemma own_update_ne {p : Place} (hp : p ≠ .inode inum) (x y : Dinode) :
    own nmeta blk (Function.update dn inum x) loose p =
      own nmeta blk (Function.update dn inum y) loose p := by
  cases p with
  | metadata => rfl
  | loose => rfl
  | inode k =>
    have hk : k ≠ inum := fun h => hp (h ▸ rfl)
    simp [own, Function.update_of_ne hk]

/-- A loose block becomes one of the inode's. -/
lemma Held.attach (h : Held nmeta s (Function.update dn inum ip) (b ::ₘ loose))
    (hb : inodeBlocks s.block ip' = b ::ₘ inodeBlocks s.block ip) :
    Held nmeta s (Function.update dn inum ip') loose := by
  refine ⟨h.boot, h.size, ?_⟩
  have hown : own nmeta s.block (Function.update dn inum ip') loose =
      Function.update (Function.update
        (own nmeta s.block (Function.update dn inum ip) (b ::ₘ loose)) .loose loose)
        (.inode inum) ({b} + own nmeta s.block (Function.update dn inum ip) (b ::ₘ loose)
          (.inode inum)) := by
    funext p
    cases p with
    | metadata => rfl
    | loose => rfl
    | inode k =>
      by_cases hk : k = inum
      · subst hk
        simp [own, hb, Multiset.singleton_add]
      · simp [own, hk]
  rw [hown]
  refine h.owns.give (by simp) ?_
  change b ::ₘ loose = loose + {b}
  rw [add_comm, Multiset.singleton_add]

/-- The loose block is now in the inode, in a place where there was none. -/
lemma Extends.attach (h : Held nmeta s (Function.update dn inum ip) loose) (ht : ip.type ≠ 0)
    (hframe : Frame s s') (hsame : SameButAddrs ip ip')
    (hloose : Held nmeta s' (Function.update dn inum ip) (b ::ₘ loose))
    (hkept : ∀ x, x ∉ blocks s.block ip → ∀ k, k ≠ inum → x ∈ inodeBlocks s.block (dn k) →
      s'.block x = s.block x)
    (hb : blocks s'.block ip' = b ::ₘ blocks s'.block ip) (hgrows : Grows s.block ip s'.block ip') :
    Extends nmeta inum dn loose s ip s' ip' := by
  refine ⟨hframe, hsame, fun k hk x hx => hkept x (fun hx' => hk ?_) k hk hx, hgrows,
    hloose.attach ?_⟩
  · have h1 : x ∈ own nmeta s.block (Function.update dn inum ip) loose (.inode k) := by
      simpa [own, hk] using hx
    have h2 : x ∈ own nmeta s.block (Function.update dn inum ip) loose (.inode inum) := by
      simpa [own, inodeBlocks, ht] using hx'
    have := h.owns.one _ _ x h1 h2
    simpa using this
  · have ht' : ip'.type ≠ 0 := hsame.type ▸ ht
    simp only [inodeBlocks, if_neg ht, if_neg ht', hb]

lemma mem_inode (ht : ip.type ≠ 0) (hb : b ∈ blocks blk ip) :
    b ∈ own nmeta blk (Function.update dn inum ip) loose (.inode inum) := by
  simpa [own, inodeBlocks, ht] using hb

lemma grows_setAddr {i : Fin (NDIRECT + 1)} (h0 : ip.addrs i = 0)
    (hind : ip.addrs indirect ≠ 0 → blk' (ip.addrs indirect) = blk (ip.addrs indirect)) :
    Grows blk ip blk' (ip.setAddr i b) := by
  intro bn hbn
  unfold addrOf at hbn ⊢
  by_cases h1 : bn < NDIRECT
  · rw [if_pos h1] at hbn ⊢
    rw [if_pos h1]
    have hne : Fin.ofNat (NDIRECT + 1) bn ≠ i := by
      rintro rfl
      exact hbn h0
    exact Function.update_of_ne hne ..
  · rw [if_neg h1] at hbn ⊢
    rw [if_neg h1]
    by_cases h2 : ip.addrs indirect = 0
    · rw [if_pos h2] at hbn
      exact absurd rfl hbn
    · have hne : indirect ≠ i := by
        rintro rfl
        exact h2 h0
      have hsame : (ip.setAddr i b).addrs indirect = ip.addrs indirect :=
        Function.update_of_ne hne ..
      rw [hsame, if_neg h2, if_neg h2, hind h2]

lemma addrAt_held (h : Held nmeta s (Function.update dn inum ip) loose) (ht : ip.type ≠ 0)
    (ho : 0 < s.outstanding) (i : Fin (NDIRECT + 1)) :
    wp Never (addrAt ip i) (fun r s' => Mapped nmeta inum dn loose s ip s' r.1 ∧
      (r.2 ≠ 0 → r.1.addrs i = r.2) ∧ (r.2 = 0 → s'.unused = none)) s := by
  unfold addrAt
  rw [wp_ite]
  refine ⟨fun h0 => ?_, fun h0 => ⟨Mapped.refl h, fun _ => rfl, fun hz => absurd hz h0⟩⟩
  refine wp_call (balloc_held h ho) fun b s' ⟨hframe, hs⟩ => ?_
  rw [wp_ite]
  refine ⟨fun hz => ?_, fun hb => ?_⟩
  · obtain ⟨-, rfl, hfull⟩ | ⟨hne, -⟩ := hs
    · exact ⟨Mapped.refl h, fun hne => absurd rfl hne, fun _ => hfull⟩
    · exact absurd hz hne
  · obtain ⟨hz, -⟩ | ⟨-, hblk, hheld, hnot⟩ := hs
    · exact absurd hz hb
    have hnotip : b ∉ blocks s.block ip := fun hin => hnot (.inode inum) (mem_inode ht hin)
    have hind : ip.addrs indirect ≠ 0 → s'.block (ip.addrs indirect) = s.block (ip.addrs indirect) := by
      intro ha
      rw [hblk, Function.update_of_ne]
      rintro heq
      exact hnotip (heq ▸ addr_mem ha)
    refine ⟨⟨Extends.attach h ht hframe rfl hheld (fun x _ k hk hx => ?_)
      (blocks_setAddr h0 hb fun _ => by rw [hblk, Function.update_self]) (grows_setAddr h0 hind),
      fun bn hbn => ?_⟩, fun _ => by simp [Dinode.setAddr], fun hz => absurd hz hb⟩
    · rw [hblk, Function.update_of_ne]
      rintro rfl
      exact hnot (.inode k) (by simpa [own, hk] using hx)
    · rw [hblk, Function.update_of_ne]
      rintro heq
      exact hnotip (heq ▸ addrOf_mem (addrOf_lt hbn) hbn)

lemma entryAt_held (h : Held nmeta s (Function.update dn inum ip) loose) (ht : ip.type ≠ 0)
    (ho : 0 < s.outstanding) (ha : ip.addrs indirect ≠ 0) (hk : k < NINDIRECT) :
    wp Never (entryAt (ip.addrs indirect) k) (fun r s' => Mapped nmeta inum dn loose s ip s' ip ∧
      (r ≠ 0 → word (s'.block (ip.addrs indirect)) k = r) ∧ (r = 0 → s'.unused = none)) s := by
  unfold entryAt
  rw [wp_bind, wp_look, wp_ite]
  refine ⟨fun h0 => ?_, fun h0 => ⟨Mapped.refl h, fun _ => rfl, fun hz => absurd hz h0⟩⟩
  refine wp_call (balloc_held h ho) fun b s' ⟨hframe, hs⟩ => ?_
  rw [wp_ite]
  refine ⟨fun hz => ?_, fun hb => ?_⟩
  · obtain ⟨-, rfl, hfull⟩ | ⟨hne, -⟩ := hs
    · exact ⟨Mapped.refl h, fun hne => absurd rfl hne, fun _ => hfull⟩
    · exact absurd hz hne
  · obtain ⟨hz, -⟩ | ⟨-, hblk, hheld, hnot⟩ := hs
    · exact absurd hz hb
    have hnotip : b ∉ blocks s.block ip := fun hin => hnot (.inode inum) (mem_inode ht hin)
    have hind : s'.block (ip.addrs indirect) = s.block (ip.addrs indirect) := by
      rw [hblk, Function.update_of_ne]
      rintro heq
      exact hnotip (heq ▸ addr_mem ha)
    have h0' : word (s'.block (ip.addrs indirect)) k = 0 := by rw [hind, h0]
    have hk4 : 4 * k + 3 < BSIZE := by
      have : NINDIRECT * 4 = BSIZE := by decide
      omega
    rw [wp_bind, wp_change, wp_bind]
    refine wp_log (hframe.outstanding ▸ ho) ?_
    -- the indirect block is nowhere else, so only this inode changes
    have hmine : ip.addrs indirect ∈ own nmeta s'.block (Function.update dn inum ip) (b ::ₘ loose)
        (.inode inum) := mem_inode ht (addr_mem ha)
    have hother : ∀ x, (∀ j, j ≠ inum → x ∉ inodeBlocks s'.block (dn j)) →
        ∀ v, ∀ j, j ≠ inum → inodeBlocks (Function.update s'.block x v) (dn j) =
          inodeBlocks s'.block (dn j) := fun x hx v j hj => inodeBlocks_update (hx j hj) v
    have hindother : ∀ j, j ≠ inum → ip.addrs indirect ∉ inodeBlocks s'.block (dn j) := by
      intro j hj hin
      have := hheld.owns.one (.inode j) (.inode inum) _ (by simpa [own, hj] using hin) hmine
      exact hj (by simpa using this)
    have hnod : (blocks s.block ip).Nodup := by
      have := h.owns.nodup (.inode inum)
      simpa [own, inodeBlocks, ht] using this
    refine ⟨⟨⟨hframe.trans (frame_setBlock _ _ _), rfl, fun j hj x hx => ?_, fun bn hbn => ?_,
      ⟨hheld.boot, hheld.size, ?_⟩⟩, fun bn hbn => ?_⟩, fun _ => ?_, fun hz => absurd hz hb⟩
    · have hxb : x ≠ b := by
        rintro rfl
        exact hnot (.inode j) (by simpa [own, hj] using hx)
      have hxi : x ≠ ip.addrs indirect := by
        rintro rfl
        have h1 : ip.addrs indirect ∈ own nmeta s.block (Function.update dn inum ip) loose
          (.inode j) := by simpa [own, hj] using hx
        have := h.owns.one _ _ _ h1 (mem_inode ht (addr_mem ha))
        exact hj (by simpa using this)
      simp [Store.setBlock, hxi, hblk, hxb]
    · unfold addrOf at hbn ⊢
      by_cases h1 : bn < NDIRECT
      · rw [if_pos h1, if_pos h1]
      · rw [if_neg h1, if_neg ha] at hbn ⊢
        rw [if_neg h1, if_neg ha]
        have hne : bn - NDIRECT ≠ k := by
          intro heq
          rw [heq, h0] at hbn
          exact hbn rfl
        simp only [Store.setBlock, Function.update_self]
        rw [word_setWord_ne _ _ hne, hind]
    · have hblocks := blocks_setEntry (b := b) ha hk h0' hb
      have hown : own nmeta (Function.update s'.block (ip.addrs indirect)
          (setWord (s'.block (ip.addrs indirect)) k b)) (Function.update dn inum ip) loose =
          Function.update (Function.update
            (own nmeta s'.block (Function.update dn inum ip) (b ::ₘ loose)) .loose loose)
            (.inode inum) ({b} + own nmeta s'.block (Function.update dn inum ip) (b ::ₘ loose)
              (.inode inum)) := by
        funext p
        cases p with
        | metadata => rfl
        | loose => rfl
        | inode j =>
          by_cases hj : j = inum
          · subst hj
            simp only [own, Function.update_self, inodeBlocks, if_neg ht, hblocks,
              Multiset.singleton_add]
          · simpa [own, hj] using hother _ hindother _ j hj
      change Owns _ s'.used (own nmeta (Function.update s'.block (ip.addrs indirect)
        (setWord (s'.block (ip.addrs indirect)) k b)) (Function.update dn inum ip) loose)
      rw [hown]
      refine hheld.owns.give (by simp) ?_
      change b ::ₘ loose = loose + {b}
      rw [add_comm, Multiset.singleton_add]
    · have hbn' := addrOf_lt hbn
      simp only [Store.setBlock]
      rw [Function.update_of_ne (addrOf_ne_indirect hnod hbn' hbn), hblk, Function.update_of_ne]
      rintro heq
      exact hnotip (heq ▸ addrOf_mem hbn' hbn)
    · simp only [Store.setBlock, Function.update_self]
      exact word_setWord_same _ b hk4

/-- **The block of a file**: there is one afterwards, unless the disk is full. -/
lemma bmap_held (h : Held nmeta s (Function.update dn inum ip) loose) (ht : ip.type ≠ 0)
    (ho : 0 < s.outstanding) (hbn : bn < MAXFILE) :
    wp Never (bmap ip bn) (fun r s' => Mapped nmeta inum dn loose s ip s' r.1 ∧
      (r.2 ≠ 0 → addrOf s'.block r.1 bn = r.2) ∧ (r.2 = 0 → s'.unused = none)) s := by
  unfold bmap
  rw [wp_ite]
  refine ⟨fun h1 => ?_, fun h1 => ?_⟩
  · refine wp_mono (addrAt_held h ht ho _) fun r s' ⟨hext, ha, hz⟩ => ⟨hext, fun hne => ?_, hz⟩
    unfold addrOf
    rw [if_pos h1]
    exact ha hne
  · rw [wp_ite]
    refine ⟨fun h2 => ?_, fun h2 => absurd hbn (by simp only [MAXFILE]; omega)⟩
    refine wp_call (addrAt_held h ht ho indirect) fun r s' hr => ?_
    obtain ⟨ip', addr⟩ := r
    obtain ⟨hext, ha, hz⟩ := hr
    change wp Never (if addr = 0 then _ else _) _ s'
    rw [wp_ite]
    refine ⟨fun h0 => ⟨hext, fun hne => absurd rfl hne, fun _ => hz h0⟩, fun hne => ?_⟩
    have ha' : ip'.addrs indirect = addr := ha hne
    have hind : ip'.addrs indirect ≠ 0 := ha'.symm ▸ hne
    rw [← ha']
    refine wp_call (entryAt_held hext.held (hext.same.type ▸ ht) (hext.frame.outstanding ▸ ho) hind
      h2) fun a s'' ⟨hext', he, hz'⟩ => ⟨hext.trans hext', fun hne' => ?_, hz'⟩
    change addrOf s''.block ip' bn = a
    unfold addrOf
    rw [if_neg h1, if_neg hind]
    exact he hne'

/-- A block that has an address is found without any change. -/
lemma bmap_hit (hbn : bn < MAXFILE) (h : addrOf s.block ip bn ≠ 0) :
    wp Never (bmap ip bn) (fun r s' => s' = s ∧ r = (ip, addrOf s.block ip bn)) s := by
  unfold addrOf at h ⊢
  unfold bmap
  by_cases h1 : bn < NDIRECT
  · rw [if_pos h1] at h ⊢
    unfold addrAt
    rw [if_pos h1, if_neg h]
    exact ⟨rfl, rfl⟩
  · rw [if_neg h1] at h ⊢
    rw [if_neg h1]
    by_cases h2 : ip.addrs indirect = 0
    · rw [if_pos h2] at h
      exact absurd rfl h
    · rw [if_neg h2] at h ⊢
      have h3 : bn - NDIRECT < NINDIRECT := by
        simp only [MAXFILE] at hbn
        omega
      rw [if_pos h3]
      have haddr : wp Never (addrAt ip indirect)
          (fun r s' => s' = s ∧ r = (ip, ip.addrs indirect)) s := by
        unfold addrAt
        rw [if_neg h2]
        exact ⟨rfl, rfl⟩
      refine wp_call haddr fun r s' ⟨hs, hr⟩ => ?_
      subst hs hr
      change wp Never (if ip.addrs indirect = 0 then _ else _) _ s'
      rw [if_neg h2]
      have hentry : wp Never (entryAt (ip.addrs indirect) (bn - NDIRECT)) (fun r s'' => s'' = s' ∧
          r = word (s'.block (ip.addrs indirect)) (bn - NDIRECT)) s' := by
        unfold entryAt
        rw [wp_bind, wp_look, if_neg h]
        exact ⟨rfl, rfl⟩
      refine wp_call hentry fun r s'' ⟨hs, hr⟩ => ?_
      subst hs hr
      exact ⟨rfl, rfl⟩

/-! ### Reading and writing -/

/-- **Reading** a file without holes changes nothing, and needs no transaction. -/
lemma readLoop_still {writable : ℕ → Bool} {n fuel tot off : ℕ} {got : List UInt8}
    (hf : Filled s.block ip (off + (n - tot))) (hmax : off + (n - tot) ≤ MAXFILE * BSIZE) :
    wp Never (readLoop writable n fuel ip tot off got) (fun r s' => s' = s ∧ r.1 = ip) s := by
  induction fuel generalizing tot off got with
  | zero => exact ⟨rfl, rfl⟩
  | succ fuel ih =>
    unfold readLoop
    rw [wp_ite]
    refine ⟨fun hlt => ?_, fun _ => ⟨rfl, rfl⟩⟩
    have hpos : 0 < BSIZE := by decide
    have hle := Nat.div_mul_le_self off BSIZE
    have hbn : off / BSIZE < MAXFILE := by
      rw [Nat.div_lt_iff_lt_mul hpos]
      omega
    refine wp_call (bmap_hit hbn (hf _ (by omega))) ?_
    rintro r s' ⟨hs, hr⟩
    subst hs hr
    change wp Never (if addrOf s'.block ip (off / BSIZE) = 0 then _ else _) _ s'
    rw [wp_ite]
    refine ⟨fun _ => ⟨rfl, rfl⟩, fun _ => ?_⟩
    rw [wp_bind, wp_look, wp_ite]
    refine ⟨fun _ => ?_, fun _ => ⟨rfl, rfl⟩⟩
    have hc := chunk_le n tot off
    refine ih ?_ (by omega)
    have heq : off + chunk n tot off + (n - (tot + chunk n tot off)) = off + (n - tot) := by omega
    rw [heq]
    exact hf

theorem readi_still {writable : ℕ → Bool} {off n : ℕ} (h : FileOk s.block ip) :
    wp Never (readi ip writable off n) (fun r s' => s' = s ∧ r.1 = ip) s := by
  unfold readi
  rw [wp_ite]
  refine ⟨fun _ => ⟨rfl, rfl⟩, fun hoff => ?_⟩
  have hle : off ≤ ip.size := by omega
  change wp Never (readLoop writable (if off + n > ip.size then ip.size - off else n) _ ip 0 off [])
    _ s
  have hn : off + ((if off + n > ip.size then ip.size - off else n) - 0) ≤ ip.size := by
    split_ifs <;> omega
  have hsize := h.size
  refine readLoop_still (fun bn hbn => h.filled bn (by omega)) (by omega)

/-- Overwriting a block of data. -/
lemma Extends.patch (h : Held nmeta s (Function.update dn inum ip) loose) (ht : ip.type ≠ 0)
    (hbn : bn < MAXFILE) (ha : addrOf s.block ip bn ≠ 0) (v : Block) :
    Extends nmeta inum dn loose s ip (s.setBlock (addrOf s.block ip bn) v) ip := by
  have hmem := addrOf_mem hbn ha
  have hmine : addrOf s.block ip bn ∈ own nmeta s.block (Function.update dn inum ip) loose
      (.inode inum) := mem_inode ht hmem
  have hnod : (blocks s.block ip).Nodup := by
    have := h.owns.nodup (.inode inum)
    simpa [own, inodeBlocks, ht] using this
  have hne := addrOf_ne_indirect hnod hbn ha
  have hother : ∀ j, j ≠ inum → addrOf s.block ip bn ∉ inodeBlocks s.block (dn j) := by
    intro j hj hin
    have := h.owns.one (.inode j) (.inode inum) _ (by simpa [own, hj] using hin) hmine
    exact hj (by simpa using this)
  have hind : (s.setBlock (addrOf s.block ip bn) v).block (ip.addrs indirect) =
      s.block (ip.addrs indirect) := Function.update_of_ne (Ne.symm hne) ..
  refine ⟨frame_setBlock _ _ _, rfl, fun j hj x hx => ?_, fun k _ => addrOf_congr fun _ => hind,
    ⟨h.boot, h.size, ?_⟩⟩
  · refine Function.update_of_ne ?_ ..
    rintro rfl
    exact hother j hj hx
  · have hown : own nmeta (s.setBlock (addrOf s.block ip bn) v).block (Function.update dn inum ip)
        loose = own nmeta s.block (Function.update dn inum ip) loose := by
      funext p
      cases p with
      | metadata => rfl
      | loose => rfl
      | inode j =>
        by_cases hj : j = inum
        · subst hj
          simpa [own] using inodeBlocks_congr fun _ => hind
        · simpa [own, hj, Store.setBlock] using inodeBlocks_update (hother j hj) v
    rw [hown]
    exact h.owns

lemma writeLoop_held {src : ℕ → Option UInt8} {n fuel tot off : ℕ}
    (h : Held nmeta s (Function.update dn inum ip) loose) (ht : ip.type ≠ 0)
    (ho : 0 < s.outstanding) (hf : Filled s.block ip off)
    (hmax : off + (n - tot) ≤ MAXFILE * BSIZE) :
    wp Never (writeLoop src n fuel ip tot off) (fun r s' => Extends nmeta inum dn loose s ip s' r.1 ∧
      Filled s'.block r.1 r.2.2) s := by
  induction fuel generalizing ip tot off s with
  | zero => exact ⟨Extends.refl h, hf⟩
  | succ fuel ih =>
    unfold writeLoop
    rw [wp_ite]
    refine ⟨fun hlt => ?_, fun _ => ⟨Extends.refl h, hf⟩⟩
    have hpos : 0 < BSIZE := by decide
    have hle := Nat.div_mul_le_self off BSIZE
    have hbn : off / BSIZE < MAXFILE := by
      rw [Nat.div_lt_iff_lt_mul hpos]
      omega
    refine wp_call (bmap_held h ht ho hbn) fun r s' hr => ?_
    obtain ⟨ip', addr⟩ := r
    obtain ⟨hmap, haddr, -⟩ := hr
    have hext := hmap.toExtends
    change wp Never (if addr = 0 then _ else _) _ s'
    rw [wp_ite]
    refine ⟨fun _ => ⟨hext, hext.grows.filled hf⟩, fun hne => ?_⟩
    have haddr' : addrOf s'.block ip' (off / BSIZE) = addr := haddr hne
    have ht' : ip'.type ≠ 0 := hext.same.type ▸ ht
    rw [wp_bind, wp_change]
    have hpatch := Extends.patch hext.held ht' hbn (haddr'.symm ▸ hne)
      (patch (s'.block addr) (off % BSIZE) (copyin src tot (chunk n tot off)))
    rw [haddr'] at hpatch
    have hboth := hext.trans hpatch
    rw [wp_ite]
    refine ⟨fun _ => ?_, fun _ => ⟨hboth, hboth.grows.filled hf⟩⟩
    rw [wp_bind]
    refine wp_log (hboth.frame.outstanding ▸ ho) ?_
    have hc := chunk_le n tot off
    have hcb : chunk n tot off ≤ BSIZE - off % BSIZE := Nat.min_le_right _ _
    have hfill : Filled (s'.setBlock addr (Content.patch (s'.block addr) (off % BSIZE)
        (copyin src tot (chunk n tot off)))).block ip' (off + chunk n tot off) := by
      intro k hk
      by_cases hko : k * BSIZE < off
      · exact hboth.grows.filled hf k hko
      · have hk' : k = off / BSIZE := by
          have hmod := Nat.div_add_mod off BSIZE
          have h1 : off / BSIZE ≤ k := by
            rw [Nat.div_le_iff_le_mul_add_pred hpos]
            have := Nat.mul_comm k BSIZE
            omega
          have h2 : k < off / BSIZE + 1 := by
            have h3 : k * BSIZE < (off / BSIZE + 1) * BSIZE := by
              rw [Nat.add_mul, Nat.mul_comm (off / BSIZE) BSIZE]
              have := Nat.mod_lt off hpos
              omega
            exact Nat.lt_of_mul_lt_mul_right h3
          omega
        have hkeep := hpatch.grows k (by rw [hk', haddr']; exact hne)
        rw [hkeep, hk', haddr']
        exact hne
    refine wp_mono (ih hboth.held ht' (hboth.frame.outstanding ▸ ho) hfill (by omega)) ?_
    rintro r s'' ⟨h1, h2⟩
    exact ⟨hboth.trans h1, h2⟩

/-! ### Inodes -/

/-- The copy of an allocated inode has its addresses and its size. -/
structure CopyOf (ip d : Dinode) : Prop where
  type : ip.type ≠ 0
  disk : d.type ≠ 0
  addrs : ip.addrs = d.addrs
  size : ip.size = d.size

lemma blocks_of_addrs (h : ip.addrs = d.addrs) : blocks blk ip = blocks blk d := by
  unfold blocks
  rw [h]

lemma addrOf_of_addrs (h : ip.addrs = d.addrs) : addrOf blk ip bn = addrOf blk d bn := by
  unfold addrOf
  rw [h]

lemma CopyOf.fileOk (h : CopyOf ip d) (hf : FileOk blk d) : FileOk blk ip := by
  refine ⟨fun bn hbn => ?_, h.size ▸ hf.size⟩
  rw [addrOf_of_addrs h.addrs]
  exact hf.filled bn (h.size ▸ hbn)

/-- The inodes have the same blocks. -/
lemma Held.congr {dn' : ℕ → Dinode} (h : Held nmeta s dn loose) (hused : s'.used = s.used)
    (hsize : s'.size = s.size)
    (hb : ∀ k, inodeBlocks s'.block (dn' k) = inodeBlocks s.block (dn k)) :
    Held nmeta s' dn' loose := by
  refine ⟨h.boot, hsize ▸ h.size, ?_⟩
  have hown : own nmeta s'.block dn' loose = own nmeta s.block dn loose := by
    funext p
    cases p with
    | metadata => rfl
    | loose => rfl
    | inode k => exact hb k
  rw [hown, hused, hsize]
  exact h.owns

lemma Held.copy (h : Held nmeta s dn loose) (hc : CopyOf ip (dn inum)) :
    Held nmeta s (Function.update dn inum ip) loose := by
  refine h.congr rfl rfl fun k => ?_
  by_cases hk : k = inum
  · subst hk
    rw [Function.update_self]
    unfold inodeBlocks
    rw [if_neg hc.type, if_neg hc.disk, blocks_of_addrs hc.addrs]
  · rw [Function.update_of_ne hk]

/-- The files are in order if the one that has changed is. -/
lemma Intact.of_update (h : Intact nmeta s) (hd : s'.dinode = Function.update s.dinode inum ip)
    (hheld : Held nmeta s' (Function.update s.dinode inum ip) 0)
    (hothers : OthersKept s.dinode inum s.block s'.block)
    (hfile : ip.type ≠ 0 → FileOk s'.block ip) : Intact nmeta s' := by
  refine ⟨hd ▸ hheld, fun k hk => ?_⟩
  rw [hd] at hk ⊢
  by_cases hki : k = inum
  · subst hki
    rw [Function.update_self] at hk ⊢
    exact hfile hk
  · rw [Function.update_of_ne hki] at hk ⊢
    have hok := h.file k hk
    refine ⟨fun bn hbn => ?_, hok.size⟩
    rw [hothers.addrOf hki hk]
    exact hok.filled bn hbn

/-- **Writing** keeps the disk in order, however far it gets. -/
theorem writei_intact {src : ℕ → Option UInt8} {off n : ℕ} (h : Intact nmeta s)
    (hc : CopyOf ip (s.dinode inum)) (ho : 0 < s.outstanding) (hn : n < 2 ^ 32)
    (hoff : off < 2 ^ 32) :
    wp Never (writei inum ip src off n) (fun _ s' => Intact nmeta s') s := by
  unfold writei
  rw [wp_ite]
  refine ⟨fun _ => h, fun h1 => ?_⟩
  rw [wp_ite]
  refine ⟨fun _ => h, fun h2 => ?_⟩
  have hmf : MAXFILE * BSIZE < 2 ^ 32 := by decide
  have hok := hc.fileOk (h.file inum hc.disk)
  have hfill : Filled s.block ip off := fun bn hbn => hok.filled bn (by omega)
  refine wp_call (wp_and (writeLoop_held (h.held.copy hc) hc.type ho hfill (by omega))
    (writeLoop_frame (Nat.zero_le n))) fun r s' hr => ?_
  obtain ⟨ip', tot, off'⟩ := r
  obtain ⟨⟨hext, hfill'⟩, -, -, -, htot, hsum⟩ := hr
  simp only at htot hsum hfill' hext
  have hsz := hext.same.size
  have hokold := hok.size
  have hnew : ∃ e : Dinode, e = (if off' > ip'.size then { ip' with size := off' } else ip') ∧
      e.addrs = ip'.addrs ∧ e.type = ip'.type ∧ FileOk s'.block e := by
    refine ⟨_, rfl, ?_⟩
    split_ifs with hgt
    · refine ⟨rfl, rfl, fun bn hbn => ?_, ?_⟩
      · exact hfill' bn hbn
      · change off' ≤ _
        omega
    · refine ⟨rfl, rfl, fun bn hbn => ?_, ?_⟩
      · exact hext.grows.filled hok.filled bn (hsz ▸ hbn)
      · omega
  obtain ⟨e, he, haddrs, htype, hfile⟩ := hnew
  change wp Never (iupdate inum (if off' > ip'.size then { ip' with size := off' } else ip') >>=
    fun _ => pure ((if off' > ip'.size then { ip' with size := off' } else ip'), (tot : ℤ))) _ s'
  rw [← he]
  unfold iupdate
  rw [wp_bind, wp_bind, wp_change]
  refine wp_log (hext.frame.outstanding ▸ ho) ?_
  have hd : (s'.setDinode inum e).dinode = Function.update s.dinode inum e := by
    change Function.update s'.dinode inum e = _
    rw [hext.frame.dinode]
  refine h.of_update hd ?_ hext.others fun _ => hfile
  refine hext.held.congr rfl rfl fun k => ?_
  by_cases hk : k = inum
  · subst hk
    rw [Function.update_self, Function.update_self]
    unfold inodeBlocks
    rw [htype, blocks_of_addrs haddrs]
    rfl
  · rw [Function.update_of_ne hk, Function.update_of_ne hk]
    rfl

lemma sum_direct (d : Dinode) : ∑ i, one (d.addrs i) =
    (((List.finRange NDIRECT).map fun i => d.addrs i.castSucc).map one).sum +
      one (d.addrs indirect) := by
  rw [Fin.sum_univ_castSucc, Fin.sum_univ_def, List.map_map]
  rfl

lemma sum_entries (v : Block) :
    ∑ j ∈ Finset.range NINDIRECT, one (word v j) = ((entries v).map one).sum := by
  unfold entries
  rw [List.map_map]
  rfl

lemma inodeBlocks_none (h : d.addrs = fun _ => 0) : inodeBlocks blk d = 0 := by
  unfold inodeBlocks blocks entryBlocks
  split_ifs with h1 h2
  · rfl
  · rw [h]
    simp [one]
  · exact absurd (by rw [h]) h2

/-- A disk without any data. -/
lemma Intact.blank (hboot : 0 < nmeta) (hle : nmeta ≤ s.size) (hsize : s.size ≤ 2 ^ 32)
    (hused : ∀ b, s.used b = decide (b.toNat < nmeta))
    (hd : ∀ k, (s.dinode k).addrs = (fun _ => 0) ∧ (s.dinode k).size = 0) : Intact nmeta s := by
  have hu : UInt32.size = 2 ^ 32 := rfl
  have hmeta : ∀ b : BlockNo, b ∈ own nmeta s.block s.dinode 0 .metadata ↔ b.toNat < nmeta := by
    intro b
    simp only [own, Multiset.mem_coe, List.mem_map, List.mem_range]
    constructor
    · rintro ⟨k, hk, rfl⟩
      rwa [UInt32.toNat_ofNat_of_lt' (by omega)]
    · exact fun hb => ⟨b.toNat, hb, UInt32.ofNat_toNat⟩
  have hrest : ∀ p, p ≠ .metadata → own nmeta s.block s.dinode 0 p = 0 := by
    intro p hp
    cases p with
    | metadata => exact absurd rfl hp
    | loose => rfl
    | inode k => exact inodeBlocks_none (hd k).1
  refine ⟨⟨hboot, hsize, fun p => ?_, fun p q b hp hq => ?_, fun b hb => ?_, fun p b hb => ?_⟩,
    fun k _ => ⟨fun bn hbn => ?_, ?_⟩⟩
  · by_cases hp : p = .metadata
    · subst hp
      refine Multiset.coe_nodup.mpr (List.Nodup.map_on (fun x hx y hy he => ?_) List.nodup_range)
      rw [List.mem_range] at hx hy
      have := congrArg UInt32.toNat he
      rwa [UInt32.toNat_ofNat_of_lt' (by omega), UInt32.toNat_ofNat_of_lt' (by omega)] at this
    · rw [hrest p hp]
      exact Multiset.nodup_zero
  · have hp' : p = .metadata := by
      by_contra hne
      rw [hrest p hne] at hp
      exact Multiset.notMem_zero b hp
    have hq' : q = .metadata := by
      by_contra hne
      rw [hrest q hne] at hq
      exact Multiset.notMem_zero b hq
    rw [hp', hq']
  · rw [hused b, decide_eq_true_iff]
    refine ⟨fun h => ⟨.metadata, (hmeta b).mpr h⟩, fun ⟨p, hp⟩ => ?_⟩
    by_cases hpm : p = .metadata
    · exact (hmeta b).mp (hpm ▸ hp)
    · rw [hrest p hpm] at hp
      exact absurd hp (Multiset.notMem_zero b)
  · by_cases hpm : p = .metadata
    · exact lt_of_lt_of_le ((hmeta b).mp (hpm ▸ hb)) hle
    · rw [hrest p hpm] at hb
      exact absurd hb (Multiset.notMem_zero b)
  · rw [(hd k).2] at hbn
    exact absurd hbn (Nat.not_lt_zero _)
  · rw [(hd k).2]
    exact Nat.zero_le _

/-- The inode gives all its blocks to the operation. -/
lemma Held.detach (h : Held nmeta s dn 0) (hc : CopyOf ip (dn inum)) (hz : ip'.addrs = fun _ => 0) :
    Held nmeta s (Function.update dn inum ip') (blocks s.block ip) := by
  refine ⟨h.boot, h.size, ?_⟩
  have hempty : inodeBlocks s.block ip' = 0 := inodeBlocks_none hz
  have hmine : own nmeta s.block dn 0 (.inode inum) = 0 + blocks s.block ip := by
    simp [own, inodeBlocks, hc.disk, blocks_of_addrs hc.addrs]
  have hown : own nmeta s.block (Function.update dn inum ip') (blocks s.block ip) =
      Function.update (Function.update (own nmeta s.block dn 0) (.inode inum) 0) .loose
        (blocks s.block ip + own nmeta s.block dn 0 .loose) := by
    funext p
    cases p with
    | metadata => rfl
    | loose => exact (add_zero _).symm
    | inode k =>
      by_cases hk : k = inum
      · subst hk
        simpa [own] using hempty
      · simp [own, hk]
  rw [hown]
  exact h.owns.give (by simp) hmine

/-- An inode without its blocks. -/
def truncated (ip : Dinode) : Dinode := { ip with addrs := fun _ => 0, size := 0 }

/-- **Truncating** frees every block of the inode. -/
theorem itrunc_held (h : Held nmeta s s.dinode 0) (hc : CopyOf ip (s.dinode inum))
    (ho : 0 < s.outstanding) : wp Never (itrunc inum ip) (fun r s' => r = truncated ip ∧
      Frame (s.setDinode inum (truncated ip)) s' ∧ s'.block = s.block ∧ Held nmeta s' s'.dinode 0) s := by
  unfold itrunc
  have hdet : Held nmeta s (Function.update s.dinode inum (truncated ip)) (blocks s.block ip) :=
    h.detach hc rfl
  have hdone : ∀ s' : Store, Frame s s' → s'.block = s.block →
      Held nmeta s' (Function.update s.dinode inum (truncated ip)) 0 →
      wp Never (iupdate inum (truncated ip) >>= fun _ => pure (truncated ip)) (fun r s' =>
        r = truncated ip ∧ Frame (s.setDinode inum (truncated ip)) s' ∧ s'.block = s.block ∧
          Held nmeta s' s'.dinode 0) s' := by
    intro s' hframe hblk hheld
    unfold iupdate
    rw [wp_bind, wp_bind, wp_change]
    refine wp_log (hframe.outstanding ▸ ho) ?_
    have hd : (s'.setDinode inum (truncated ip)).dinode =
        Function.update s.dinode inum (truncated ip) :=
      congrArg (fun m => Function.update m inum _) hframe.dinode
    refine ⟨rfl, ⟨hframe.size, hframe.ninodes, hd, hframe.outstanding⟩, hblk, ?_⟩
    rw [hd]
    exact hheld.congr rfl rfl fun _ => rfl
  have hsplit : blocks s.block ip =
      (((List.finRange NDIRECT).map fun i => ip.addrs i.castSucc).map one).sum +
        (one (ip.addrs indirect) + entryBlocks s.block (ip.addrs indirect)) := by
    unfold blocks
    rw [sum_direct, add_assoc]
  rw [hsplit] at hdet
  refine wp_call (freeEach_held hdet ho) fun _ s' ⟨h1, h2, h3⟩ => ?_
  rw [wp_ite]
  refine ⟨fun h0 => ?_, fun hne => ?_⟩
  · refine hdone s' h1 h2 ?_
    simpa [h0, one, entryBlocks] using h3
  · rw [wp_bind, wp_look, wp_bind]
    have hrest : one (ip.addrs indirect) + entryBlocks s.block (ip.addrs indirect) =
        ((entries (s'.block (ip.addrs indirect))).map one).sum + (ip.addrs indirect ::ₘ 0) := by
      unfold entryBlocks
      rw [if_neg hne, sum_entries, one_of_ne hne, h2, add_comm]
      rfl
    rw [hrest] at h3
    refine wp_mono (freeEach_held h3 (h1.outstanding ▸ ho)) fun _ s'' ⟨h5, h6, h7⟩ => ?_
    have h8 := h1.trans h5
    refine wp_call (bfree_held h7 (h8.outstanding ▸ ho)) fun _ s''' ⟨h9, h10, h11⟩ => ?_
    exact hdone s''' (h8.trans h9) (h10.trans (h6.trans h2)) h11

/-- Truncating keeps the disk in order. -/
theorem itrunc_intact (h : Intact nmeta s) (hc : CopyOf ip (s.dinode inum))
    (ho : 0 < s.outstanding) : wp Never (itrunc inum ip) (fun r s' => Intact nmeta s' ∧
      r = { ip with addrs := fun _ => 0, size := 0 } ∧
      s'.dinode = Function.update s.dinode inum r ∧ s'.outstanding = s.outstanding) s := by
  refine wp_mono (itrunc_held h.held hc ho) fun r s' ⟨h1, h2, h3, h4⟩ => ?_
  subst h1
  refine ⟨h.of_update h2.dinode ?_ (fun _ _ x _ => by rw [h3])
    fun _ => ⟨fun bn hbn => absurd hbn (Nat.not_lt_zero _), Nat.zero_le _⟩, rfl, h2.dinode,
    h2.outstanding⟩
  have hd := h2.dinode
  change s'.dinode = Function.update s.dinode inum (truncated ip) at hd
  rwa [hd] at h4

/-- Taking a free inode. -/
theorem tryAlloc_intact {type : Int16} (h : Intact nmeta s) (ho : 0 < s.outstanding) : wp Never (tryAlloc inum type) (fun r s' => Intact nmeta s' ∧
      ((r = false ∧ s' = s) ∨ (r = true ∧ (s.dinode inum).type = 0 ∧
        s'.dinode = Function.update s.dinode inum { Dinode.free with type := type } ∧
        s'.outstanding = s.outstanding))) s := by
  unfold tryAlloc
  rw [wp_bind, wp_look, wp_ite]
  refine ⟨fun h0 => ?_, fun _ => ⟨h, .inl ⟨rfl, rfl⟩⟩⟩
  rw [wp_bind, wp_change, wp_bind]
  refine wp_log ho ⟨h.of_update rfl ?_ (fun _ _ _ _ => rfl)
    fun _ => ⟨fun bn hbn => absurd hbn (by simp [Dinode.free]), Nat.zero_le _⟩,
    .inr ⟨rfl, h0, rfl, rfl⟩⟩
  refine h.held.congr rfl rfl fun k => ?_
  by_cases hk : k = inum
  · subst hk
    rw [Function.update_self, inodeBlocks_none rfl]
    exact (if_pos h0).symm
  · rw [Function.update_of_ne hk]
    rfl

/-- Writing back an inode whose blocks are as on the disk. -/
theorem iupdate_intact (h : Intact nmeta s) (ho : 0 < s.outstanding)
    (hd : (s.dinode inum).type ≠ 0) (ha : ip.addrs = (s.dinode inum).addrs)
    (hs : ip.size = (s.dinode inum).size) (hz : ip.type = 0 → ip.addrs = fun _ => 0) :
    wp Never (iupdate inum ip) (fun _ s' => Intact nmeta s' ∧
      s' = s.setDinode inum ip) s := by
  unfold iupdate
  rw [wp_bind, wp_change]
  refine wp_log ho ⟨h.of_update rfl ?_ (fun _ _ _ _ => rfl) fun ht => ?_, rfl⟩
  · refine h.held.congr rfl rfl fun k => ?_
    by_cases hk : k = inum
    · subst hk
      rw [Function.update_self]
      unfold inodeBlocks
      rw [if_neg hd]
      split_ifs with h0
      · -- an inode that is freed has no blocks
        have hz' : (s.dinode k).addrs = fun _ => 0 := ha ▸ hz h0
        unfold blocks entryBlocks
        rw [hz']
        simp [one]
      · exact blocks_of_addrs ha
    · rw [Function.update_of_ne hk]
      rfl
  · exact CopyOf.fileOk ⟨ht, hd, ha, hs⟩ (h.file inum hd)

end Xv6.Fs.Sound
