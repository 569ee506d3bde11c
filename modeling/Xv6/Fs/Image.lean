import Mathlib.Data.List.ReduceOption
import Xv6.Fs.Bytes
import Xv6.Fs.Mkfs
import Xv6.Fs.Room

/-!
`mkfs` appends to a file as the kernel writes at the end of one. The image under construction is
seen as a file system of the kernel, whose bitmap says which blocks are before `freeblock`.
-/

namespace Xv6.Fs.Image

open Xv6.Conc Xv6.Data.Effect Xv6.Data.Effect.Eff Xv6.Disk Xv6.Fs.Content Xv6.Fs.Layout
  Xv6.Fs.Untouched Xv6.Fs.Sound Xv6.Fs.Bytes Xv6.Fs.Room
open Xv6.Fs.Mkfs (Mkfs sb nmeta FSSIZE NINODES ninodeblocks place rsect wsect)

/-- The inodes that the blocks of inodes have room for. -/
def inodes : ℕ := ninodeblocks * IPB

/-- An inode of the image. -/
def inode (s : Mkfs) (k : ℕ) : Dinode := getDinode (s.sect (IBLOCK k sb)) (k % IPB)

def view (s : Mkfs) : Store where
  size := s.sectors
  ninodes := NINODES
  used b := decide (b.toNat < s.freeblock)
  dinode k := if k < inodes then inode s k else Dinode.free
  block b := if b.toNat < nmeta then zero else s.sect b.toNat
  outstanding := 1

def bump (s : Mkfs) : Mkfs := { s with freeblock := s.freeblock + 1 }

def put (s : Mkfs) (a : ℕ) (v : Block) : Mkfs := { s with sect := Function.update s.sect a v }

/-- What is always so of the image, between the rounds of `iappend` too. -/
structure Sane (s : Mkfs) : Prop where
  sectors : s.sectors = FSSIZE
  low : nmeta ≤ s.freeblock
  high : s.freeblock ≤ FSSIZE
  blank : ∀ b, s.freeblock ≤ b → s.sect b = zero

/-- The inodes and the rest of the metadata are as before. -/
structure Kept (s s' : Mkfs) : Prop where
  freeinode : s'.freeinode = s.freeinode
  metadata : ∀ b < nmeta, s'.sect b = s.sect b

variable {s s' s'' : Mkfs} {din : Dinode} {a : BlockNo} {dn : ℕ → Dinode} {k m n off sec : ℕ}
  {v : Block}

lemma Kept.refl : Kept s s := ⟨rfl, fun _ _ => rfl⟩

lemma Kept.trans (h : Kept s s') (h' : Kept s' s'') : Kept s s'' :=
  ⟨h'.freeinode.trans h.freeinode, fun b hb => (h'.metadata b hb).trans (h.metadata b hb)⟩

lemma kept_bump : Kept s (bump s) := ⟨rfl, fun _ _ => rfl⟩

lemma kept_put (h : nmeta ≤ k) : Kept s (put s k v) := by
  refine ⟨rfl, fun b hb => Function.update_of_ne ?_ ..⟩
  omega

/-! ### Reading and writing blocks -/

lemma place_of_lt (h : sec < FSSIZE) : place sec = sec := by
  have hf : FSSIZE * BSIZE < 2 ^ 32 := by decide
  have hlt : sec * BSIZE < 2 ^ 32 := lt_of_le_of_lt (Nat.mul_le_mul_right BSIZE h.le) hf
  unfold place
  rw [Nat.mod_eq_of_lt hlt, Nat.mul_div_cancel _ BSIZE_pos]

lemma rsect_ok (h : s.sectors = FSSIZE) (hlt : sec < FSSIZE) : rsect sec s = .ok s (s.sect sec) := by
  have hp : place sec < s.sectors := by
    rw [place_of_lt hlt, h]
    exact hlt
  change (if place sec < s.sectors then look (fun s : Mkfs => s.sect (place sec))
    else fail "read") s = _
  rw [if_pos hp, place_of_lt hlt]
  rfl

/-- The image has no block `FSSIZE`. -/
lemma rsect_end (h : s.sectors = FSSIZE) : rsect FSSIZE s = .panic "read" := by
  have hp : ¬place FSSIZE < s.sectors := by
    rw [h]
    decide
  change (if place FSSIZE < s.sectors then look (fun s : Mkfs => s.sect (place FSSIZE))
    else fail "read") s = _
  rw [if_neg hp]
  rfl

lemma wsect_ok (h : s.sectors = FSSIZE) (hlt : sec < FSSIZE) : wsect sec v s = .ok (put s sec v) () := by
  change Outcome.ok { s with
    sectors := max s.sectors (place sec + 1)
    sect := Function.update s.sect (place sec) v } () = _
  rw [place_of_lt hlt, Nat.max_eq_left (by rw [h]; exact hlt)]
  rfl

/-! ### The view -/

lemma iblock_lt (h : k < inodes) : IBLOCK k sb < nmeta ∧ IBLOCK k sb < sb.bmapstart := by
  have hlt : k / IPB < ninodeblocks := (Nat.div_lt_iff_lt_mul (by decide)).mpr h
  have hn : nmeta = 2 + Mkfs.nlog + ninodeblocks + Mkfs.nbitmap := rfl
  have hi : sb.inodestart = 2 + Mkfs.nlog := rfl
  have hb : sb.bmapstart = 2 + Mkfs.nlog + ninodeblocks := rfl
  unfold IBLOCK
  omega

lemma Kept.inode (h : Kept s s') (hk : k < inodes) : inode s' k = inode s k := by
  unfold Image.inode
  rw [h.metadata _ (iblock_lt hk).1]

lemma Kept.dinode (h : Kept s s') : (view s').dinode = (view s).dinode := by
  funext k
  change (if k < inodes then Image.inode s' k else _) = if k < inodes then Image.inode s k else _
  split_ifs with hk
  · exact h.inode hk
  · rfl

lemma view_dinode (hk : k < inodes) : (view s).dinode k = inode s k := if_pos hk

lemma view_block (h : nmeta ≤ a.toNat) : (view s).block a = s.sect a.toNat :=
  if_neg (Nat.not_lt.mpr h)

lemma view_put (h : nmeta ≤ a.toNat) : view (put s a.toNat v) = (view s).setBlock a v := by
  have hd : (view (put s a.toNat v)).dinode = (view s).dinode := (kept_put h).dinode
  have hb : (view (put s a.toNat v)).block = Function.update (view s).block a v := by
    funext b
    by_cases hba : b = a
    · subst hba
      rw [Function.update_self, view_block h]
      exact Function.update_self ..
    · have hne : b.toNat ≠ a.toNat := fun heq => hba (UInt32.toNat_inj.mp heq)
      rw [Function.update_of_ne hba]
      change (if b.toNat < nmeta then zero else Function.update s.sect a.toNat v b.toNat) = _
      rw [Function.update_of_ne hne]
      rfl
  calc view (put s a.toNat v)
      = { view s with
          dinode := (view (put s a.toNat v)).dinode
          block := (view (put s a.toNat v)).block } := rfl
    _ = (view s).setBlock a v := by rw [hd, hb]; rfl

lemma Sane.put (h : Sane s) (hlt : k < s.freeblock) : Sane (put s k v) := by
  refine ⟨h.sectors, h.low, h.high, fun b hb => ?_⟩
  rw [← h.blank b hb]
  refine Function.update_of_ne ?_ ..
  have : s.freeblock ≤ b := hb
  omega

lemma Sane.bump (h : Sane s) (hlt : s.freeblock < FSSIZE) : Sane (bump s) :=
  ⟨h.sectors, h.low.trans (Nat.le_succ _), hlt, fun b hb => h.blank b (Nat.le_of_succ_le hb)⟩

lemma toNat_of_le (h : n ≤ FSSIZE) : (UInt32.ofNat n).toNat = n := by
  have hf : FSSIZE < 2 ^ 32 := by decide
  exact UInt32.toNat_ofNat_of_lt' (by simp only [UInt32.size]; omega)

lemma toNat_next (h : Sane s) : (UInt32.ofNat s.freeblock).toNat = s.freeblock := toNat_of_le h.high

lemma find_range {α : Type} (p : α → Bool) (f : ℕ → α) (hk : k < n) (hp : p (f k) = true)
    (hmin : ∀ j < k, p (f j) = false) : ((List.range n).map f).find? p = some (f k) := by
  have hfind : (List.range n).find? (p ∘ f) = some k := by
    rw [List.find?_range_eq_some]
    exact ⟨hp, List.mem_range.mpr hk, fun j hj => by simp [hmin j hj]⟩
  rw [List.find?_map, hfind]
  rfl

/-- The kernel would allocate the same block. -/
lemma balloc_view (h : Sane s) (hlt : s.freeblock < FSSIZE) :
    Content.balloc (view s) = .ok (view (bump s)) (UInt32.ofNat s.freeblock) := by
  have hf : FSSIZE < 2 ^ 32 := by decide
  have hnext := toNat_next h
  have hunused : (view s).unused = some (UInt32.ofNat s.freeblock) := by
    refine find_range _ UInt32.ofNat (by rw [← h.sectors] at hlt; exact hlt) ?_ fun j hj => ?_
    · change (!decide ((UInt32.ofNat s.freeblock).toNat < s.freeblock)) = true
      rw [hnext]
      simp
    · change (!decide ((UInt32.ofNat j).toNat < s.freeblock)) = false
      rw [UInt32.toNat_ofNat_of_lt' (by simp only [UInt32.size]; omega)]
      simp [hj]
  have hused : Function.update (view s).used (UInt32.ofNat s.freeblock) true = (view (bump s)).used := by
    funext b
    by_cases hb : b = UInt32.ofNat s.freeblock
    · subst hb
      rw [Function.update_self]
      change true = decide ((UInt32.ofNat s.freeblock).toNat < s.freeblock + 1)
      rw [hnext]
      simp
    · have hne : b.toNat ≠ s.freeblock := by
        intro heq
        exact hb (UInt32.toNat_inj.mp (heq.trans hnext.symm))
      rw [Function.update_of_ne hb]
      change decide (b.toNat < s.freeblock) = decide (b.toNat < s.freeblock + 1)
      have hiff : b.toNat < s.freeblock ↔ b.toNat < s.freeblock + 1 := by omega
      simp only [hiff]
  have hzero : Function.update (view s).block (UInt32.ofNat s.freeblock) zero = (view s).block := by
    have hold : (view s).block (UInt32.ofNat s.freeblock) = zero := by
      have hlow := h.low
      rw [view_block (by rw [hnext]; exact hlow), hnext]
      exact h.blank _ le_rfl
    rw [← hold]
    exact Function.update_eq_self ..
  unfold Content.balloc
  rw [bind_ok (look_ok Store.unused), hunused]
  change Outcome.ok { view s with
    used := Function.update (view s).used (UInt32.ofNat s.freeblock) true
    block := Function.update (view s).block (UInt32.ofNat s.freeblock) zero } _ = _
  rw [hused, hzero]
  rfl

/-! ### The block of a file -/

variable {i : Fin (NDIRECT + 1)} {q : ℕ} {st : Store}

lemma addrAt_hit (hz : din.addrs i ≠ 0) : Mkfs.addrAt din i s = .ok s din := by
  unfold Mkfs.addrAt
  rw [if_neg hz]
  rfl

lemma addrAt_found (hz : din.addrs i ≠ 0) :
    Content.addrAt din i st = .ok st (din, din.addrs i) := by
  unfold Content.addrAt
  rw [if_neg hz]
  rfl

lemma addrAt_next (hz : din.addrs i = 0) : Mkfs.addrAt din i s =
    .ok (bump s) (din.setAddr i (UInt32.ofNat s.freeblock)) := by
  unfold Mkfs.addrAt
  rw [if_pos hz]
  rfl

lemma next_ne_zero (h : Sane s) : UInt32.ofNat s.freeblock ≠ 0 := by
  intro heq
  have hnext := toNat_next h
  have hlow := h.low
  have hpos : 0 < nmeta := by decide
  rw [heq] at hnext
  have hz : (0 : UInt32).toNat = 0 := rfl
  omega

lemma addrAt_view (h : Sane s) (hz : din.addrs i = 0) (hlt : s.freeblock < FSSIZE) :
    Content.addrAt din i (view s) = .ok (view (bump s))
      (din.setAddr i (UInt32.ofNat s.freeblock), UInt32.ofNat s.freeblock) := by
  unfold Content.addrAt
  rw [if_pos hz, bind_ok (balloc_view h hlt), if_neg (next_ne_zero h)]
  rfl

lemma entryAt_hit (h : Sane s) (hlow : nmeta ≤ a.toNat) (hlt : a.toNat < FSSIZE)
    (hw : word (s.sect a.toNat) k ≠ 0) :
    Mkfs.entryAt a k s = .ok s (word (s.sect a.toNat) k) ∧
    Content.entryAt a k (view s) = .ok (view s) (word (s.sect a.toNat) k) := by
  constructor
  · unfold Mkfs.entryAt
    rw [bind_ok (rsect_ok h.sectors hlt), if_neg hw]
    rfl
  · have hblk : word ((view s).block a) k = word (s.sect a.toNat) k := by rw [view_block hlow]
    unfold Content.entryAt
    rw [bind_ok (look_ok fun st : Store => word (st.block a) k), hblk, if_neg hw]
    rfl

lemma entryAt_next (h : s.sectors = FSSIZE) (hlt : a.toNat < FSSIZE)
    (hw : word (s.sect a.toNat) k = 0) : Mkfs.entryAt a k s =
      .ok (put (bump s) a.toNat (setWord (s.sect a.toNat) k (UInt32.ofNat s.freeblock)))
        (UInt32.ofNat s.freeblock) := by
  have hb : (bump s).sectors = FSSIZE := h
  have hnext : Mkfs.nextBlock s = .ok (bump s) (UInt32.ofNat s.freeblock) := rfl
  unfold Mkfs.entryAt
  rw [bind_ok (rsect_ok h hlt), if_pos hw,
    bind_ok hnext, bind_ok (wsect_ok hb hlt)]
  rfl

lemma entryAt_view (h : Sane s) (hlow : nmeta ≤ a.toNat) (hw : word (s.sect a.toNat) k = 0)
    (hlt : s.freeblock < FSSIZE) : Content.entryAt a k (view s) =
      .ok (view (put (bump s) a.toNat (setWord (s.sect a.toNat) k (UInt32.ofNat s.freeblock))))
        (UInt32.ofNat s.freeblock) := by
  have hblk : word ((view s).block a) k = word (s.sect a.toNat) k := by rw [view_block hlow]
  unfold Content.entryAt
  rw [bind_ok (look_ok fun st : Store => word (st.block a) k), hblk, if_pos hw,
    bind_ok (balloc_view h hlt), if_neg (next_ne_zero h), view_put hlow]
  have hsame : (view (bump s)).block a = s.sect a.toNat := view_block hlow
  rw [← hsame]
  rfl

/-- A block that `mkfs` has given to the file or to another. -/
def Data (s : Mkfs) (a : BlockNo) : Prop := nmeta ≤ a.toNat ∧ a.toNat < s.freeblock

lemma need_eq (hq : q < NDIRECT) :
    need (view s).block din q = if din.addrs (Fin.ofNat (NDIRECT + 1) q) = 0 then 1 else 0 := by
  unfold need addrOf
  rw [if_pos hq]
  by_cases hz : din.addrs (Fin.ofNat (NDIRECT + 1) q) = 0
  · rw [if_pos hz, if_neg (not_not.mpr hz), if_pos (.inl hq)]
  · rw [if_neg hz, if_pos hz]

lemma need_indirect (hq : ¬q < NDIRECT) (ha : din.addrs indirect ≠ 0)
    (hlow : nmeta ≤ (din.addrs indirect).toNat) : need (view s).block din q =
      if word (s.sect (din.addrs indirect).toNat) (q - NDIRECT) = 0 then 1 else 0 := by
  unfold need addrOf
  rw [if_neg hq, if_neg ha, view_block hlow]
  by_cases hz : word (s.sect (din.addrs indirect).toNat) (q - NDIRECT) = 0
  · rw [if_pos hz, if_neg (not_not.mpr hz), if_pos (.inr ha)]
  · rw [if_neg hz, if_pos hz]

lemma need_both (hq : ¬q < NDIRECT) (ha : din.addrs indirect = 0) :
    need (view s).block din q = 2 := by
  unfold need addrOf
  rw [if_neg hq, if_pos ha, if_neg (not_not.mpr rfl), if_neg (by simp [hq, ha])]

/-- **The block of a file**, when there is room: `mkfs` and the kernel take the same. -/
lemma blockAt_view (h : Sane s) (hq : q < MAXFILE)
    (hind : din.addrs indirect ≠ 0 → Data s (din.addrs indirect))
    (hroom : s.freeblock + need (view s).block din q ≤ FSSIZE) :
    ∃ s' r, Mkfs.blockAt din q s = .ok s' r ∧ bmap din q (view s) = .ok (view s') r ∧ Sane s' ∧
      Kept s s' := by
  have hhigh := h.high
  unfold Mkfs.blockAt bmap
  by_cases hd : q < NDIRECT
  · rw [if_pos hd, if_pos hd]
    rw [need_eq hd] at hroom
    by_cases hz : din.addrs (Fin.ofNat (NDIRECT + 1) q) = 0
    · rw [if_pos hz] at hroom
      have hlt : s.freeblock < FSSIZE := by omega
      rw [bind_ok (addrAt_next hz), addrAt_view h hz hlt]
      refine ⟨_, _, rfl, ?_, h.bump hlt, kept_bump⟩
      simp [Dinode.setAddr]
    · rw [bind_ok (addrAt_hit hz), addrAt_found hz]
      exact ⟨s, _, rfl, rfl, h, Kept.refl⟩
  have hk : q - NDIRECT < NINDIRECT := by
    unfold MAXFILE at hq
    omega
  rw [if_neg hd, if_neg hd, if_pos hk]
  by_cases hz : din.addrs indirect = 0
  · -- both blocks are new
    rw [need_both hd hz] at hroom
    have hlt : s.freeblock < FSSIZE := by omega
    have hsane := h.bump hlt
    have hnext := toNat_next h
    have hlow := h.low
    have hlt' : (bump s).freeblock < FSSIZE := by
      change s.freeblock + 1 < FSSIZE
      omega
    have hself : (din.setAddr indirect (UInt32.ofNat s.freeblock)).addrs indirect =
        UInt32.ofNat s.freeblock := by simp [Dinode.setAddr]
    have hw : word ((bump s).sect (UInt32.ofNat s.freeblock).toNat) (q - NDIRECT) = 0 := by
      change word (s.sect (UInt32.ofNat s.freeblock).toNat) (q - NDIRECT) = 0
      rw [hnext, h.blank _ le_rfl, word_zero]
    rw [bind_ok (addrAt_next hz), bind_ok (addrAt_view h hz hlt)]
    dsimp only
    rw [hself, if_neg (next_ne_zero h),
      bind_ok (entryAt_next hsane.sectors (by rw [hnext]; exact hlt) hw),
      bind_ok (entryAt_view hsane (by rw [hnext]; exact hlow) hw hlt')]
    exact ⟨_, _, rfl, rfl, (hsane.bump hlt').put (by rw [hnext]; change _ < s.freeblock + 1 + 1; omega),
      (kept_bump.trans kept_bump).trans (kept_put (by rw [hnext]; exact hlow))⟩
  obtain ⟨hlow, hltf⟩ := hind hz
  rw [need_indirect hd hz hlow] at hroom
  rw [bind_ok (addrAt_hit hz), bind_ok (addrAt_found hz)]
  dsimp only
  rw [if_neg hz]
  by_cases hw : word (s.sect (din.addrs indirect).toNat) (q - NDIRECT) = 0
  · rw [if_pos hw] at hroom
    have hlt : s.freeblock < FSSIZE := by omega
    rw [bind_ok (entryAt_next h.sectors (by omega) hw), bind_ok (entryAt_view h hlow hw hlt)]
    exact ⟨_, _, rfl, rfl, (h.bump hlt).put (by change _ < s.freeblock + 1; omega),
      kept_bump.trans (kept_put hlow)⟩
  · obtain ⟨h3, h4⟩ := entryAt_hit h hlow (by omega) hw
    rw [bind_ok h3, bind_ok h4]
    exact ⟨s, _, rfl, rfl, h, Kept.refl⟩

/-- **The block of a file**, when there is no room: it is past the end of the image. -/
lemma blockAt_full {may : String → Prop} (hmay : may "read") (h : Sane s) (hq : q < MAXFILE)
    (hind : din.addrs indirect ≠ 0 → Data s (din.addrs indirect))
    (hfull : FSSIZE < s.freeblock + need (view s).block din q) :
    wp may (Mkfs.blockAt din q) (fun r s' => s'.sectors = FSSIZE ∧ r.2.toNat = FSSIZE) s := by
  have hhigh := h.high
  have hnext := toNat_next h
  unfold Mkfs.blockAt
  rw [wp_ite]
  refine ⟨fun hd => ?_, fun hd => ?_⟩
  · rw [need_eq hd] at hfull
    split_ifs at hfull with hz
    · refine wp_of_ok (bind_ok (addrAt_next hz)) ⟨h.sectors, ?_⟩
      have hself : (din.setAddr (Fin.ofNat (NDIRECT + 1) q) (UInt32.ofNat s.freeblock)).addrs
          (Fin.ofNat (NDIRECT + 1) q) = UInt32.ofNat s.freeblock := by simp [Dinode.setAddr]
      change ((din.setAddr (Fin.ofNat (NDIRECT + 1) q) (UInt32.ofNat s.freeblock)).addrs
        (Fin.ofNat (NDIRECT + 1) q)).toNat = FSSIZE
      rw [hself, hnext]
      omega
    · omega
  by_cases hz : din.addrs indirect = 0
  · rw [need_both hd hz] at hfull
    have hself : (din.setAddr indirect (UInt32.ofNat s.freeblock)).addrs indirect =
        UInt32.ofNat s.freeblock := by simp [Dinode.setAddr]
    have hsect : (bump s).sectors = FSSIZE := h.sectors
    rw [wp_bind]
    refine wp_of_ok (addrAt_next hz) ?_
    rw [hself, wp_bind]
    obtain hlt | heq := Nat.lt_or_eq_of_le hhigh
    · -- there is one block, and it becomes the indirect block
      have hw : word ((bump s).sect (UInt32.ofNat s.freeblock).toNat) (q - NDIRECT) = 0 := by
        change word (s.sect (UInt32.ofNat s.freeblock).toNat) (q - NDIRECT) = 0
        rw [hnext, h.blank _ le_rfl, word_zero]
      refine wp_of_ok (entryAt_next hsect (by rw [hnext]; exact hlt) hw) ⟨hsect, ?_⟩
      change (UInt32.ofNat (s.freeblock + 1)).toNat = FSSIZE
      rw [toNat_of_le (by omega)]
      omega
    · unfold Mkfs.entryAt
      rw [wp_bind, hnext, heq]
      unfold wp
      rw [rsect_end hsect]
      exact hmay
  · obtain ⟨hlow, hltf⟩ := hind hz
    rw [need_indirect hd hz hlow] at hfull
    split_ifs at hfull with hw
    · rw [wp_bind]
      refine wp_of_ok (addrAt_hit hz) ?_
      rw [wp_bind]
      refine wp_of_ok (entryAt_next h.sectors (by omega) hw) ⟨h.sectors, ?_⟩
      change (UInt32.ofNat s.freeblock).toNat = FSSIZE
      rw [hnext]
      omega
    · omega

/-! ### The blocks of a file of some size -/

/-- As many blocks have addresses as `off` bytes need. -/
structure Shape (blk : BlockNo → Block) (d : Dinode) (off : ℕ) : Prop where
  addr : ∀ bn, addrOf blk d bn ≠ 0 ↔ bn * BSIZE < off
  ind : d.addrs indirect ≠ 0 ↔ NDIRECT * BSIZE < off

/-- How many blocks `off` bytes take, the indirect block included. -/
def blocksFor (off : ℕ) : ℕ :=
  (off + (BSIZE - 1)) / BSIZE + if NDIRECT * BSIZE < off then 1 else 0

variable {blk blk' : BlockNo → Block} {d d' : Dinode}

lemma blocksFor_mono (h : m ≤ n) : blocksFor m ≤ blocksFor n := by
  unfold blocksFor
  have hdiv : (m + (BSIZE - 1)) / BSIZE ≤ (n + (BSIZE - 1)) / BSIZE :=
    Nat.div_le_div_right (Nat.add_le_add_right h _)
  split_ifs <;> omega

lemma Shape.need (h : Shape blk d off) (hm : 0 < m) (hfit : off % BSIZE + m ≤ BSIZE) :
    blocksFor off + Room.need blk d (off / BSIZE) = blocksFor (off + m) := by
  unfold Room.need blocksFor
  simp only [h.addr, h.ind]
  split_ifs <;> simp only [BSIZE, NDIRECT] at * <;> omega

lemma Shape.next (h : Shape blk d off) (hm : 0 < m) (hfit : off % BSIZE + m ≤ BSIZE)
    (hadd : Addressed (off / BSIZE) blk d blk' d') (hgrow : Grows blk d blk' d')
    (hne : addrOf blk' d' (off / BSIZE) ≠ 0) : Shape blk' d' (off + m) := by
  have hbelow : ∀ bn, bn * BSIZE < off + m ↔ bn * BSIZE < off ∨ bn = off / BSIZE := by
    intro bn
    simp only [BSIZE] at *
    omega
  constructor
  · intro bn
    rw [hbelow]
    constructor
    · intro hbn
      by_cases heq : bn = off / BSIZE
      · exact .inr heq
      · exact .inl ((h.addr bn).mp (hadd.only bn heq hbn))
    · rintro (hlt | rfl)
      · have hold := (h.addr bn).mpr hlt
        rwa [hgrow bn hold]
      · exact hne
  · constructor
    · intro hind
      obtain hold | hle := hadd.ind hind
      · have := h.ind.mp hold
        omega
      · have := Nat.div_mul_le_self off BSIZE
        have := Nat.mul_le_mul_right BSIZE hle
        omega
    · intro hlt
      obtain hlt' | heq := (hbelow NDIRECT).mp hlt
      · have hold := h.ind.mpr hlt'
        rwa [hadd.keep _ hold]
      · intro hz
        refine hne ?_
        unfold addrOf
        rw [← heq, if_neg (Nat.lt_irrefl _), if_pos hz]

lemma Shape.congr (h : Shape blk d off)
    (hb : d.addrs indirect ≠ 0 → blk' (d.addrs indirect) = blk (d.addrs indirect)) :
    Shape blk' d off :=
  ⟨fun bn => by rw [addrOf_congr hb]; exact h.addr bn, h.ind⟩

lemma spare_view (h : Sane s) : spare (view s) = FSSIZE - s.freeblock := by
  have hset : ((Finset.range FSSIZE).filter fun k => decide ((UInt32.ofNat k).toNat < s.freeblock) =
      false) = Finset.Ico s.freeblock FSSIZE := by
    ext k
    rw [Finset.mem_filter, Finset.mem_range, Finset.mem_Ico]
    constructor
    · rintro ⟨h1, h2⟩
      rw [toNat_of_le h1.le] at h2
      exact ⟨Nat.le_of_not_lt (of_decide_eq_false h2), h1⟩
    · rintro ⟨h1, h2⟩
      refine ⟨h2, ?_⟩
      rw [toNat_of_le h2.le]
      exact decide_eq_false (Nat.not_lt.mpr h1)
  unfold spare
  change ((Finset.range s.sectors).filter fun k =>
    decide ((UInt32.ofNat k).toNat < s.freeblock) = false).card = _
  rw [h.sectors, hset, Nat.card_Ico]

variable {inum : ℕ} {loose : Multiset BlockNo}

lemma data_of_held (h : Held nmeta (view s) (Function.update dn inum din) loose) (ht : din.type ≠ 0)
    (ha : a ∈ blocks (view s).block din) : Data s a := by
  have hmem : a ∈ own nmeta (view s).block (Function.update dn inum din) loose (.inode inum) :=
    mem_inode ht ha
  have hdom : a.toNat < s.sectors := h.owns.dom _ a hmem
  have hused : (view s).used a = true := (h.owns.used a hdom).mpr ⟨_, hmem⟩
  refine ⟨Nat.le_of_not_lt fun hlt => ?_, of_decide_eq_true hused⟩
  have hmeta : a ∈ own nmeta (view s).block (Function.update dn inum din) loose .metadata := by
    refine Multiset.mem_coe.mpr (List.mem_map.mpr ⟨a.toNat, List.mem_range.mpr hlt, ?_⟩)
    exact UInt32.ofNat_toNat
  cases h.owns.one _ _ a hmem hmeta

/-! ### The loop of `iappend` -/

/-- The bytes as a source of `writei`. -/
def source (bs : List UInt8) (i : ℕ) : Option UInt8 := bs[i]?

lemma reduceOption_some (l : List UInt8) : (l.map some).reduceOption = l := by
  induction l with
  | nil => exact List.reduceOption_nil
  | cons b l ih => rw [List.map_cons, List.reduceOption_cons_of_some, ih]

lemma copyin_source {bs : List UInt8} {tot : ℕ} (h : tot + m ≤ bs.length) :
    copyin (source bs) tot m = (bs.drop tot).take m := by
  have hmap : (List.range m).map (fun i => source bs (tot + i)) =
      ((bs.drop tot).take m).map some := by
    refine List.ext_getElem (by simp; omega) fun i h1 h2 => ?_
    have hi : i < m := by simpa using h1
    simp [source, List.getElem?_eq_getElem (show tot + i < bs.length by omega)]
  have hall : ∀ x ∈ ((bs.drop tot).take m).map some, x.isSome = true := by
    intro x hx
    obtain ⟨b, -, rfl⟩ := List.mem_map.mp hx
    rfl
  unfold copyin
  rw [hmap, List.takeWhile_eq_self_iff.mpr hall, reduceOption_some]

/-- **The loop of `iappend`** does what the loop of `writei` does. -/
lemma iappendLoop_view {may : String → Prop} {fuel : ℕ} (bs : List UInt8) (tot : ℕ) (h : Sane s)
    (hheld : Held nmeta (view s) (Function.update dn inum din) loose) (ht : din.type ≠ 0)
    (hshape : Shape (view s).block din off) (hmax : off + (bs.length - tot) ≤ MAXFILE * BSIZE)
    (htot : tot ≤ bs.length) (hfuel : bs.length - tot ≤ fuel)
    (hroom : FSSIZE < s.freeblock + (blocksFor (off + (bs.length - tot)) - blocksFor off) →
      may "read") :
    wp may (Mkfs.iappendLoop fuel din off (bs.drop tot)) (fun r s' => Sane s' ∧ Kept s s' ∧
      r.2 = off + (bs.length - tot) ∧ Shape (view s').block r.1 r.2 ∧
      s'.freeblock + blocksFor off = s.freeblock + blocksFor r.2 ∧
      writeLoop (source bs) bs.length fuel din tot off (view s) =
        .ok (view s') (r.1, bs.length, r.2)) s := by
  induction fuel generalizing s din tot off with
  | zero =>
    have hz : tot = bs.length := by omega
    subst hz
    rw [Nat.sub_self]
    exact ⟨h, Kept.refl, rfl, hshape, rfl, rfl⟩
  | succ fuel ih =>
    unfold Mkfs.iappendLoop writeLoop
    rw [wp_ite]
    refine ⟨fun hnil => ?_, fun hcons => ?_⟩
    · have hz : tot = bs.length := by
        have := List.drop_eq_nil_iff.mp hnil
        omega
      subst hz
      rw [Nat.sub_self, if_neg (Nat.lt_irrefl _)]
      exact ⟨h, Kept.refl, rfl, hshape, rfl, rfl⟩
    have hlt : tot < bs.length := by
      by_contra hge
      exact hcons (List.drop_eq_nil_iff.mpr (Nat.le_of_not_lt hge))
    rw [if_pos hlt, wp_ite]
    have hbn : off / BSIZE < MAXFILE := by
      rw [Nat.div_lt_iff_lt_mul BSIZE_pos]
      omega
    refine ⟨fun _ => ?_, fun hbad => absurd hbn hbad⟩
    have hm : 0 < chunk bs.length tot off := chunk_pos hlt
    have hfit : off % BSIZE + chunk bs.length tot off ≤ BSIZE := chunk_fits
    have hle : chunk bs.length tot off ≤ bs.length - tot := Nat.min_le_left _ _
    have hneed := hshape.need hm hfit
    have hmono : blocksFor (off + chunk bs.length tot off) ≤
        blocksFor (off + (bs.length - tot)) := blocksFor_mono (by omega)
    have hind : din.addrs indirect ≠ 0 → Data s (din.addrs indirect) :=
      fun hi => data_of_held hheld ht (addr_mem hi)
    rw [wp_bind]
    by_cases hfull : FSSIZE < s.freeblock + need (view s).block din (off / BSIZE)
    · have hmay : may "read" := hroom (by omega)
      refine wp_mono (blockAt_full hmay h hbn hind hfull) ?_
      rintro ⟨din', x⟩ s' ⟨h1, h2⟩
      simp only at h2
      rw [wp_bind, h2]
      unfold wp
      rw [rsect_end h1]
      exact hmay
    have hspare := spare_view h
    have hhigh := h.high
    have hboot := booted_of_held hheld
    obtain ⟨s', ⟨din', x⟩, hmk, hbmap, hsane, hkept⟩ := blockAt_view h hbn hind (by omega)
    -- what is known of the kernel's `bmap`
    obtain ⟨hmap, haddr, -⟩ := (bmap_held hheld ht (Nat.one_pos : 0 < (view s).outstanding) hbn).ok hbmap
    have hadd := (bmap_addressed hboot).ok hbmap
    have hspent := (bmap_spare hboot hbn).ok hbmap
    simp only at hmap haddr hadd hspent
    obtain ⟨hx, hspent⟩ | ⟨-, hbad, -⟩ := hspent
    swap
    · omega
    have hfree : s'.freeblock = s.freeblock + need (view s).block din (off / BSIZE) := by
      have h1 := hspent.spare
      have h2 := spare_view hsane
      have h3 := hsane.high
      omega
    have ht' : din'.type ≠ 0 := hmap.same.type ▸ ht
    have hxa := haddr hx
    have hax : addrOf (view s').block din' (off / BSIZE) ≠ 0 := hxa.symm ▸ hx
    have hdata : Data s' x := data_of_held hmap.held ht' (hxa ▸ addrOf_mem hbn hax)
    have hxlt : x.toNat < FSSIZE := lt_of_lt_of_le hdata.2 hsane.high
    have hshape' := hshape.next hm hfit hadd hmap.grows hax
    -- the data
    have hoff : off - off / BSIZE * BSIZE = off % BSIZE := by
      have := Nat.div_add_mod off BSIZE
      rw [Nat.mul_comm] at this
      omega
    have hn1 : min (bs.drop tot).length ((off / BSIZE + 1) * BSIZE - off) = chunk bs.length tot off := by
      have := Nat.div_add_mod off BSIZE
      rw [List.length_drop, chunk, Nat.add_mul, Nat.one_mul, Nat.mul_comm (off / BSIZE)]
      congr 1
      omega
    have hcopy : copyin (source bs) tot (chunk bs.length tot off) =
        (bs.drop tot).take (chunk bs.length tot off) := copyin_source (by omega)
    have hlen : ((bs.drop tot).take (chunk bs.length tot off)).length = chunk bs.length tot off := by
      rw [List.length_take, List.length_drop]
      omega
    have hblk : (view s').block x = s'.sect x.toNat := view_block hdata.1
    have hpatch := Extends.patch hmap.held ht' hbn hax
      (patch (s'.sect x.toNat) (off % BSIZE) ((bs.drop tot).take (chunk bs.length tot off)))
    rw [hxa, ← view_put hdata.1] at hpatch
    have hind' : ∀ v, (Function.update (view s').block x v) (din'.addrs indirect) =
        (view s').block (din'.addrs indirect) := by
      intro v
      refine Function.update_of_ne ?_ ..
      rw [← hxa]
      exact (addrOf_ne_indirect (nodup_of_held hmap.held ht') hbn hax).symm
    have hshape'' : Shape (view (put s' x.toNat (patch (s'.sect x.toNat) (off % BSIZE)
        ((bs.drop tot).take (chunk bs.length tot off))))).block din'
        (off + chunk bs.length tot off) := by
      rw [view_put hdata.1]
      exact hshape'.congr fun _ => hind' _
    refine wp_of_ok hmk ?_
    dsimp only
    rw [hoff, hn1, wp_bind]
    refine wp_of_ok (rsect_ok hsane.sectors hxlt) ?_
    rw [wp_bind]
    refine wp_of_ok (wsect_ok hsane.sectors hxlt) ?_
    rw [List.drop_drop]
    refine wp_mono (ih _ (hsane.put hdata.2) hpatch.held ht' hshape'' (by omega) (by omega) (by omega)
      ?_) ?_
    · intro hbig
      refine hroom ?_
      change FSSIZE < s'.freeblock + _ at hbig
      have heq : off + chunk bs.length tot off + (bs.length - (tot + chunk bs.length tot off)) =
          off + (bs.length - tot) := by omega
      rw [heq] at hbig
      omega
    rintro ⟨din'', off'⟩ s'' ⟨h1, h2, h3, h4, h5, h6⟩
    simp only at h3 h4 h5 h6
    refine ⟨h1, (hkept.trans (kept_put hdata.1)).trans h2, by simp only; omega, h4, ?_, ?_⟩
    · change s''.freeblock + _ = s'.freeblock + _ at h5
      simp only
      omega
    rw [bind_ok hbmap]
    dsimp only
    rw [if_neg hx, hcopy, hlen, if_pos rfl]
    have hset : (change fun st : Store => st.setBlock x (patch (st.block x) (off % BSIZE)
        ((bs.drop tot).take (chunk bs.length tot off)))) (view s') =
        .ok (view (put s' x.toNat (patch (s'.sect x.toNat) (off % BSIZE)
          ((bs.drop tot).take (chunk bs.length tot off))))) () := by
      rw [view_put hdata.1, ← hblk]
      rfl
    rw [bind_ok hset]
    exact h6

/-! ### Inodes -/

/-- The image with inode `k` replaced. -/
def putInode (s : Mkfs) (k : ℕ) (ip : Dinode) : Mkfs :=
  put s (IBLOCK k sb) (putDinode (s.sect (IBLOCK k sb)) (k % IPB) ip)

lemma iblock_fssize (h : k < inodes) : IBLOCK k sb < FSSIZE := by
  have h1 := (iblock_lt h).1
  have h2 : nmeta ≤ FSSIZE := by decide
  omega

lemma winode_ok {ip : Dinode} (h : s.sectors = FSSIZE) (hk : IBLOCK k sb < FSSIZE) :
    Mkfs.winode k ip s = .ok (putInode s k ip) () := by
  unfold Mkfs.winode
  rw [bind_ok (rsect_ok h hk), wsect_ok h hk]
  rfl

lemma rinode_ok (h : s.sectors = FSSIZE) (hk : IBLOCK k sb < FSSIZE) :
    Mkfs.rinode k s = .ok s (inode s k) := by
  unfold Mkfs.rinode
  rw [bind_ok (rsect_ok h hk)]
  rfl

lemma inode_put_self {ip : Dinode} (hs : ip.size < 2 ^ 32) : inode (putInode s k ip) k = ip := by
  have hsect : (putInode s k ip).sect (IBLOCK k sb) =
      putDinode (s.sect (IBLOCK k sb)) (k % IPB) ip := Function.update_self ..
  unfold inode
  rw [hsect, getDinode_put (Nat.mod_lt _ (by decide)) hs]

/-- **The inodes never overwrite one another.** -/
lemma inode_put_ne {ip : Dinode} {j : ℕ} (h : j ≠ k) : inode (putInode s k ip) j = inode s j := by
  have hsect : ∀ b, (putInode s k ip).sect b = Function.update s.sect (IBLOCK k sb)
      (putDinode (s.sect (IBLOCK k sb)) (k % IPB) ip) b := fun _ => rfl
  unfold inode
  rw [hsect]
  by_cases hb : IBLOCK j sb = IBLOCK k sb
  · have hne : j % IPB ≠ k % IPB := by
      intro hmod
      have h1 := Nat.div_add_mod j IPB
      have h2 := Nat.div_add_mod k IPB
      have hdiv : j / IPB = k / IPB := Nat.add_right_cancel hb
      rw [hmod, hdiv, h2] at h1
      exact h h1.symm
    rw [hb, Function.update_self, getDinode_put_ne hne]
  · rw [Function.update_of_ne hb]

lemma view_putInode {ip : Dinode} (hk : k < inodes) (hs : ip.size < 2 ^ 32) :
    view (putInode s k ip) = (view s).setDinode k ip := by
  have hd : (view (putInode s k ip)).dinode = Function.update (view s).dinode k ip := by
    funext j
    change (if j < inodes then inode (putInode s k ip) j else _) = _
    by_cases hj : j = k
    · subst hj
      rw [Function.update_self, if_pos hk, inode_put_self hs]
    · rw [Function.update_of_ne hj, inode_put_ne hj]
      rfl
  have hb : (view (putInode s k ip)).block = (view s).block := by
    funext b
    by_cases hlt : b.toNat < nmeta
    · change (if b.toNat < nmeta then zero else _) = if b.toNat < nmeta then zero else _
      rw [if_pos hlt, if_pos hlt]
    · have hle := Nat.le_of_not_lt hlt
      have hmeta := (iblock_lt hk).1
      rw [view_block hle, view_block hle]
      refine Function.update_of_ne ?_ ..
      omega
  calc view (putInode s k ip)
      = { view s with
          dinode := (view (putInode s k ip)).dinode
          block := (view (putInode s k ip)).block } := rfl
    _ = (view s).setDinode k ip := by rw [hd, hb]; rfl

lemma Sane.putInode {ip : Dinode} (h : Sane s) (hk : k < inodes) : Sane (putInode s k ip) := by
  have hmeta := (iblock_lt hk).1
  have hlow := h.low
  exact h.put (by omega)

/-! ### The files of the image -/

/-- The image holds the files `f`, and nothing else. -/
structure Good (s : Mkfs) (f : ℕ → List UInt8) : Prop extends Sane s where
  super : s.sect 1 = sb.block
  first : 0 < s.freeinode
  last : s.freeinode ≤ inodes
  free : ∀ k < inodes, k = 0 ∨ s.freeinode ≤ k → inode s k = Dinode.free
  type : ∀ k, 0 < k → k < s.freeinode → (inode s k).type ≠ 0
  intact : Intact nmeta (view s)
  shape : ∀ k < inodes, Shape (view s).block (inode s k) (f k).length
  bytes : ∀ k < inodes, bytes (view s).block (inode s k) = f k
  count : s.freeblock = nmeta + ∑ k ∈ Finset.range inodes, blocksFor (f k).length

variable {f : ℕ → List UInt8}

lemma Good.size (h : Good s f) (hk : k < inodes) : (inode s k).size = (f k).length := by
  rw [← h.bytes k hk, length_bytes]

lemma super_put {ip : Dinode} (h : s.sect 1 = sb.block) : (putInode s k ip).sect 1 = sb.block := by
  have h1 : sb.inodestart = 2 + Mkfs.nlog := rfl
  have hne : 1 ≠ IBLOCK k sb := by
    have h2 := Nat.zero_le (k / IPB)
    unfold IBLOCK
    omega
  change Function.update s.sect (IBLOCK k sb) (putDinode (s.sect (IBLOCK k sb)) (k % IPB) ip) 1 = _
  rw [Function.update_of_ne hne, h]

/-- The sum changes by what changes for one file. -/
lemma sum_file {g : List UInt8} (hk : k < inodes) :
    ∑ j ∈ Finset.range inodes, blocksFor (Function.update f k g j).length + blocksFor (f k).length =
      ∑ j ∈ Finset.range inodes, blocksFor (f j).length + blocksFor g.length := by
  have hmem := Finset.mem_range.mpr hk
  have hsame : ∑ j ∈ (Finset.range inodes).erase k, blocksFor (Function.update f k g j).length =
      ∑ j ∈ (Finset.range inodes).erase k, blocksFor (f j).length := by
    refine Finset.sum_congr rfl fun j hj => ?_
    rw [Function.update_of_ne (Finset.ne_of_mem_erase hj)]
  rw [← Finset.add_sum_erase _ _ hmem, ← Finset.add_sum_erase (Finset.range inodes)
    (fun j => blocksFor (f j).length) hmem, hsame, Function.update_self]
  omega

lemma taken_source (bs : List UInt8) : taken (source bs) bs.length = bs := by
  refine List.ext_getElem (by simp [taken]) fun i h1 h2 => ?_
  simp [taken, source, h2]

/-- How far `iappend` has come before it writes `ip` as inode `k`. -/
structure Grown (s : Mkfs) (f : ℕ → List UInt8) (k : ℕ) (bs : List UInt8) (s₁ : Mkfs) (ip : Dinode) :
    Prop where
  sane : Sane s₁
  kept : Kept s s₁
  size : ip.size < 2 ^ 32
  type : ip.type = (inode s k).type
  shape : Shape (view s₁).block ip ((f k).length + bs.length)
  count : s₁.freeblock + blocksFor (f k).length =
    s.freeblock + blocksFor ((f k).length + bs.length)
  others : OthersKept (view s).dinode k (view s).block (view s₁).block
  write : writei k (inode s k) (source bs) (inode s k).size bs.length (view s) =
    .ok (view (putInode s₁ k ip)) (ip, bs.length)

/-- **`iappend`** does what `writei` does at the end of the file. -/
lemma iappend_view {may : String → Prop} {bs : List UInt8} (h : Good s f) (hpos : 0 < k)
    (hk : k < s.freeinode) (hmax : (f k).length + bs.length ≤ MAXFILE * BSIZE)
    (hroom : FSSIZE < s.freeblock + (blocksFor ((f k).length + bs.length) - blocksFor (f k).length) →
      may "read") :
    wp may (Mkfs.iappend k bs) (fun _ s' => ∃ s₁ ip, s' = putInode s₁ k ip ∧ Grown s f k bs s₁ ip) s := by
  have hmf : MAXFILE * BSIZE < 2 ^ 32 := by decide
  have hk' : k < inodes := lt_of_lt_of_le hk h.last
  have hsize := h.size hk'
  have htype := h.type k hpos hk
  have hdisk : (view s).dinode k = inode s k := view_dinode hk'
  have hheld : Held nmeta (view s) (Function.update (view s).dinode k (inode s k)) 0 := by
    rw [← hdisk, Function.update_eq_self]
    exact h.intact.held
  have hfill : Filled (view s).block (inode s k) (f k).length :=
    fun bn hbn => ((h.shape k hk').addr bn).mpr hbn
  unfold Mkfs.iappend
  rw [wp_bind]
  refine wp_of_ok (rinode_ok h.sectors (iblock_fssize hk')) ?_
  rw [wp_bind, hsize]
  refine wp_mono (iappendLoop_view bs 0 h.toSane hheld htype (h.shape k hk') (by omega)
    (Nat.zero_le _) (Nat.sub_le _ _) hroom) ?_
  rintro ⟨d, off⟩ s₁ ⟨h1, h2, h3, h4, h5, h6⟩
  rw [Nat.sub_zero] at h3
  simp only at h3 h4 h5 h6
  subst h3
  have hext := (writeLoop_held hheld htype (Nat.one_pos : 0 < (view s).outstanding) hfill
    (by omega)).ok h6
  have hdsize : d.size = (f k).length := hext.1.same.size.trans hsize
  refine wp_of_ok (winode_ok h1.sectors (iblock_fssize hk')) ⟨s₁, { d with size := (f k).length + bs.length }, rfl,
    h1, h2, ?_, hext.1.same.type, ⟨h4.addr, h4.ind⟩, h5, hext.1.others, ?_⟩
  · change (f k).length + bs.length < 2 ^ 32
    omega
  have hip : (if (f k).length + bs.length > d.size then { d with size := (f k).length + bs.length }
      else d) = { d with size := (f k).length + bs.length } := by
    split_ifs with hgt
    · rfl
    · have heq : (f k).length + bs.length = d.size := by omega
      rw [heq]
  unfold writei
  rw [hsize, Nat.mod_eq_of_lt (by omega), if_neg (by omega), if_neg (by omega), bind_ok h6]
  change (iupdate k (if (f k).length + bs.length > d.size then
    { d with size := (f k).length + bs.length } else d) >>= fun _ => pure
    ((if (f k).length + bs.length > d.size then { d with size := (f k).length + bs.length } else d),
      (bs.length : ℤ))) (view s₁) = _
  rw [hip, view_putInode hk' (by simp only; omega)]
  rfl

end Xv6.Fs.Image
