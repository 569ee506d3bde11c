import Xv6.Fs.Image

/-!
The image that `mkfs` makes of any sequence of allocations and appends, and what the kernel reads
in it.
-/

namespace Xv6.Fs.Format

open Xv6.Conc Xv6.Data.Effect Xv6.Data.Effect.Eff Xv6.Disk Xv6.Fs.Content Xv6.Fs.Layout
  Xv6.Fs.Untouched Xv6.Fs.Sound Xv6.Fs.Bytes Xv6.Fs.Room Xv6.Fs.Image
open Xv6.Fs.Mkfs (Mkfs sb nmeta FSSIZE ialloc iappend format start marked)

variable {s s' : Mkfs} {f : ℕ → List UInt8} {t : ℕ → Int16} {k n : ℕ} {may : String → Prop}
  {bs : List UInt8} {type : Int16}

lemma inode_free (h : Good s f) (hk : k < inodes) (ht : (inode s k).type = 0) :
    inode s k = Dinode.free := by
  by_cases hlow : k = 0 ∨ s.freeinode ≤ k
  · exact h.free k hk hlow
  · push Not at hlow
    exact absurd ht (h.type k (Nat.pos_of_ne_zero hlow.1) hlow.2)

/-- Appending to one file. -/
lemma iappend_good (h : Good s f) (hpos : 0 < k) (hk : k < s.freeinode)
    (hmax : (f k).length + bs.length ≤ MAXFILE * BSIZE)
    (hroom : FSSIZE < s.freeblock + (blocksFor ((f k).length + bs.length) - blocksFor (f k).length) →
      may "read") :
    wp may (iappend k bs) (fun _ s' => Good s' (Function.update f k (f k ++ bs)) ∧
      s'.freeinode = s.freeinode ∧ ∀ j < inodes, (inode s' j).type = (inode s j).type) s := by
  have hk' : k < inodes := lt_of_lt_of_le hk h.last
  have hsize := h.size hk'
  have htype := h.type k hpos hk
  have hdisk : ∀ j < inodes, (view s).dinode j = inode s j := fun j hj => view_dinode hj
  have hcopy : CopyOf (inode s k) ((view s).dinode k) := by
    rw [hdisk k hk']
    exact ⟨htype, htype, rfl, rfl⟩
  refine wp_mono (iappend_view h hpos hk hmax hroom) ?_
  rintro - s' ⟨s₁, ip, rfl, hg⟩
  have hkept := hg.kept
  have hwp : wp Never (writei k (inode s k) (source bs) (inode s k).size bs.length) (fun r st =>
      ∃ m : ℕ, r.2 = m ∧ Wrote nmeta k (source bs) bs.length (view s) (inode s k) (inode s k).size st
        r.1 m) (view s) :=
    writei_wrote h.intact hcopy Nat.one_pos (fun i hi => by simp [source, hi]) le_rfl
      (by rw [hsize]; exact hmax)
  obtain ⟨m, hm, hw⟩ := hwp.ok hg.write
  obtain rfl : bs.length = m := by simpa using hm
  have hblock : (view (putInode s₁ k ip)).block = (view s₁).block := by rw [view_putInode hk' hg.size]; rfl
  have hself : inode (putInode s₁ k ip) k = ip := inode_put_self hg.size
  have hother : ∀ j < inodes, j ≠ k → inode (putInode s₁ k ip) j = inode s j := by
    intro j hj hne
    rw [inode_put_ne hne, hkept.inode hj]
  refine ⟨⟨hg.sane.putInode hk', super_put ?_, ?_, ?_, ?_, ?_, hw.intact, ?_, ?_, ?_⟩, hkept.freeinode, ?_⟩
  · rw [hkept.metadata 1 (by decide)]
    exact h.super
  · exact hkept.freeinode ▸ h.first
  · exact hkept.freeinode ▸ h.last
  · intro j hj hlow
    have hlow' : j = 0 ∨ s.freeinode ≤ j := hkept.freeinode ▸ hlow
    rw [hother j hj (by omega)]
    exact h.free j hj hlow'
  · intro j hpos' hj
    have hj' : j < s.freeinode := hkept.freeinode ▸ hj
    by_cases hjk : j = k
    · subst hjk
      rw [hself, hg.type]
      exact htype
    · rw [hother j (lt_of_lt_of_le hj' h.last) hjk]
      exact h.type j hpos' hj'
  · intro j hj
    by_cases hjk : j = k
    · subst hjk
      rw [hself, hblock, Function.update_self, List.length_append]
      exact hg.shape
    · rw [hother j hj hjk, hblock, Function.update_of_ne hjk]
      refine (h.shape j hj).congr fun ha => ?_
      have ht : (inode s j).type ≠ 0 := by
        intro hz
        rw [inode_free h hj hz] at ha
        exact ha rfl
      have hmem : (inode s j).addrs indirect ∈ inodeBlocks (view s).block ((view s).dinode j) := by
        rw [hdisk j hj]
        exact ind_mem ht ha
      exact hg.others j hjk _ hmem
  · intro j hj
    by_cases hjk : j = k
    · subst hjk
      have hdrop : (bytes (view s).block (inode s j)).drop ((inode s j).size + bs.length) = [] :=
        List.drop_of_length_le (by rw [length_bytes]; omega)
      rw [hself, hw.content, hdrop, taken_source, List.append_nil, Function.update_self,
        List.take_of_length_le (by rw [length_bytes]), h.bytes j hj]
    · rw [hother j hj hjk, Function.update_of_ne hjk]
      by_cases hz : (inode s j).type = 0
      · have hfree := inode_free h hj hz
        have hnil := h.bytes j hj
        rw [hfree] at hnil ⊢
        exact hnil
      · have hkeep := hw.others j hjk (by rw [hdisk j hj]; exact hz)
        rw [hdisk j hj] at hkeep
        rw [hkeep, h.bytes j hj]
  · have hsum := sum_file (f := f) (g := f k ++ bs) hk'
    have hold := h.count
    have hcount := hg.count
    rw [List.length_append] at hsum
    change s₁.freeblock = _
    omega
  · intro j hj
    by_cases hjk : j = k
    · subst hjk
      rw [hself, hg.type]
    · rw [hother j hj hjk]

lemma shape_empty {blk : BlockNo → Block} {d : Dinode} (hd : d.addrs = fun _ => 0) : Shape blk d 0 := by
  refine ⟨fun bn => ⟨fun hne => absurd ?_ hne, fun hlt => absurd hlt (Nat.not_lt_zero _)⟩, ?_⟩
  · unfold addrOf
    rw [hd]
    split_ifs with h1 h2
    · rfl
    · rfl
    · exact absurd rfl h2
  · rw [hd]
    exact ⟨fun hne => absurd rfl hne, fun hlt => absurd hlt (Nat.not_lt_zero _)⟩

/-- Allocating an inode. -/
lemma ialloc_good (h : Good s f) (hroom : s.freeinode < inodes) (ht : type ≠ 0) :
    wp may (ialloc type) (fun k s' => k = s.freeinode ∧ Good s' f ∧ s'.freeinode = s.freeinode + 1 ∧
      ∀ j < inodes, (inode s' j).type = if j = s.freeinode then type else (inode s j).type) s := by
  have hfree := h.free _ hroom (.inr le_rfl)
  have hnil : f s.freeinode = [] := by
    have hb := h.bytes _ hroom
    rw [hfree] at hb
    exact hb.symm
  unfold ialloc
  rw [wp_bind, wp_look, wp_bind, wp_change, wp_bind]
  refine wp_of_ok (winode_ok h.sectors (iblock_fssize hroom)) ?_
  -- the image with its counter moved on looks the same
  obtain ⟨s₀, hs₀⟩ : ∃ s₀ : Mkfs, s₀ = { s with freeinode := s.freeinode + 1 } := ⟨_, rfl⟩
  obtain ⟨ip, hip⟩ : ∃ ip : Dinode, ip = { Dinode.free with type := type, nlink := 1 } := ⟨_, rfl⟩
  rw [← hs₀, ← hip]
  have hview : view s₀ = view s := by rw [hs₀]; rfl
  have hsane : Sane s₀ := by rw [hs₀]; exact ⟨h.sectors, h.low, h.high, h.blank⟩
  have hsize : ip.size < 2 ^ 32 := by rw [hip]; exact Nat.two_pow_pos 32
  have haddrs : ip.addrs = fun _ => 0 := by rw [hip]; rfl
  have hself : inode (putInode s₀ s.freeinode ip) s.freeinode = ip := inode_put_self hsize
  have hother : ∀ j ≠ s.freeinode, inode (putInode s₀ s.freeinode ip) j = inode s j := by
    intro j hj
    rw [inode_put_ne hj, hs₀]
    rfl
  have hview' : view (putInode s₀ s.freeinode ip) = (view s).setDinode s.freeinode ip := by
    rw [view_putInode hroom hsize, hview]
  have hblock : (view (putInode s₀ s.freeinode ip)).block = (view s).block := by rw [hview']; rfl
  have hnext : (putInode s₀ s.freeinode ip).freeinode = s.freeinode + 1 := by rw [hs₀]; rfl
  refine ⟨rfl, ⟨hsane.putInode hroom, super_put (by rw [hs₀]; exact h.super), ?_, ?_, ?_, ?_, ?_, ?_,
    ?_, ?_⟩, hnext, ?_⟩
  · rw [hnext]
    exact Nat.succ_pos _
  · rw [hnext]
    exact hroom
  · intro j hj hlow
    rw [hnext] at hlow
    have hpos := h.first
    rw [hother j (by omega)]
    exact h.free j hj (by omega)
  · intro j hpos hj
    rw [hnext] at hj
    by_cases hjk : j = s.freeinode
    · rw [hjk, hself, hip]
      exact ht
    · rw [hother j hjk]
      exact h.type j hpos (by omega)
  · rw [hview']
    refine h.intact.of_update rfl (h.intact.held.congr rfl rfl fun j => ?_) (fun _ _ _ _ => rfl)
      fun _ => ⟨fun bn hbn => ?_, ?_⟩
    · by_cases hjk : j = s.freeinode
      · have hdisk : (view s).dinode j = Dinode.free := by
          rw [hjk, ← hfree]
          exact if_pos hroom
        rw [hdisk, hjk, Function.update_self, inodeBlocks_none haddrs]
        exact (inodeBlocks_none rfl).symm
      · rw [Function.update_of_ne hjk]
        rfl
    · rw [hip] at hbn
      exact absurd hbn (Nat.not_lt_zero _)
    · rw [hip]
      exact Nat.zero_le _
  · intro j hj
    rw [hblock]
    by_cases hjk : j = s.freeinode
    · rw [hjk, hself, hnil]
      exact shape_empty haddrs
    · rw [hother j hjk]
      exact h.shape j hj
  · intro j hj
    rw [hblock]
    by_cases hjk : j = s.freeinode
    · rw [hjk, hself, hnil, hip]
      rfl
    · rw [hother j hjk]
      exact h.bytes j hj
  · rw [← h.count, hs₀]
    rfl
  · intro j hj
    split_ifs with hjk
    · rw [hjk, hself, hip]
    · rw [hother j hjk]

/-! ### The first image -/

lemma wipe_ok (hn : n ≤ FSSIZE) : Mkfs.wipe n start = .ok { start with sectors := n } () := by
  induction n with
  | zero => rfl
  | succ n ih =>
    unfold Mkfs.wipe
    rw [bind_ok (ih (Nat.le_of_succ_le hn))]
    unfold Mkfs.wsect
    rw [place_of_lt hn]
    have hzero : Function.update start.sect n zero = start.sect := Function.update_eq_self n start.sect
    have hmax : max n (n + 1) = n + 1 := Nat.max_eq_right (Nat.le_succ n)
    change Outcome.ok { start with
      sectors := max n (n + 1), sect := Function.update start.sect n zero } () = _
    rw [hzero, hmax]

/-- The image before there is an inode in it. -/
def blank : Mkfs := { start with
  sectors := FSSIZE, sect := Function.update (fun _ => zero) 1 sb.block }

lemma format_ok : format start = .ok blank () := by
  unfold format
  rw [bind_ok (wipe_ok le_rfl), wsect_ok rfl (by decide)]
  rfl

lemma inode_blank : inode blank k = Dinode.free := by
  have hstart : sb.inodestart = 2 + Mkfs.nlog := rfl
  have hne : IBLOCK k sb ≠ 1 := by
    have := Nat.zero_le (k / IPB)
    unfold IBLOCK
    omega
  unfold inode
  change getDinode (Function.update (fun _ => zero) 1 sb.block (IBLOCK k sb)) (k % IPB) = _
  rw [Function.update_of_ne hne]
  exact getDinode_zero

lemma blank_good : Good blank fun _ => [] where
  sectors := rfl
  low := le_rfl
  high := by decide
  blank b hb := by
    have hpos : 1 < nmeta := by decide
    have hle : nmeta ≤ b := hb
    have hne : b ≠ 1 := by omega
    change Function.update (fun _ => zero) 1 sb.block b = zero
    rw [Function.update_of_ne hne]
  super := by
    change Function.update (fun _ => zero) 1 sb.block 1 = sb.block
    rw [Function.update_self]
  first := Nat.one_pos
  last := by decide
  free _ _ _ := inode_blank
  type k hpos hk := by
    have : k < 1 := hk
    omega
  intact := by
    have hdinode : ∀ k, (view blank).dinode k = Dinode.free := by
      intro k
      change (if k < inodes then inode blank k else Dinode.free) = _
      rw [inode_blank, ite_self]
    refine Intact.blank (by decide) (by decide) (by decide) (fun _ => rfl) fun k => ?_
    rw [hdinode]
    exact ⟨rfl, rfl⟩
  shape k _ := by
    rw [inode_blank]
    exact shape_empty rfl
  bytes k _ := by
    rw [inode_blank]
    rfl
  count := by
    have hz : blocksFor ([] : List UInt8).length = 0 := rfl
    simp only [hz, Finset.sum_const_zero]
    rfl

/-! ### Any sequence of allocations and appends -/

inductive Op
  | ialloc (type : Int16)
  | iappend (inum : ℕ) (bs : List UInt8)

def Op.run : Op → Eff Mkfs Unit
  | .ialloc type => do
    let _ ← Mkfs.ialloc type
    return ()
  | .iappend inum bs => Mkfs.iappend inum bs

def runAll : List Op → Eff Mkfs Unit
  | [] => return ()
  | op :: ops => do
    op.run
    runAll ops

/-- The image of `ops`, finished with the bitmap. -/
def make (ops : List Op) : Eff Mkfs Unit := do
  format
  runAll ops
  Mkfs.balloc (← look (·.freeblock))

/-- How many inodes are allocated. -/
def allocated : List Op → ℕ
  | [] => 0
  | .ialloc _ :: ops => allocated ops + 1
  | .iappend _ _ :: ops => allocated ops

/-- What is appended to inode `k`. -/
def appended (k : ℕ) : List Op → List UInt8
  | [] => []
  | .ialloc _ :: ops => appended k ops
  | .iappend j bs :: ops => if j = k then bs ++ appended k ops else appended k ops

/-- The types of the inodes when those from `n` on are still to be allocated. -/
def types (n : ℕ) (t : ℕ → Int16) : List Op → ℕ → Int16
  | [] => t
  | .ialloc type :: ops => types (n + 1) (Function.update t n type) ops
  | .iappend _ _ :: ops => types n t ops

/-- Only inodes that have been allocated are appended to. -/
def Proper (n : ℕ) : List Op → Prop
  | [] => True
  | .ialloc type :: ops => type ≠ 0 ∧ Proper (n + 1) ops
  | .iappend k _ :: ops => 0 < k ∧ k < n ∧ Proper n ops

/-- The blocks that files of these contents take, with the metadata. -/
def total (f : ℕ → List UInt8) : ℕ := nmeta + ∑ k ∈ Finset.range inodes, blocksFor (f k).length

variable {ops : List Op}

lemma runAll_good (h : Good s f) (ht : ∀ k < inodes, (inode s k).type = t k)
    (hp : Proper s.freeinode ops) (hcap : s.freeinode + allocated ops ≤ inodes)
    (hmax : ∀ k, (f k ++ appended k ops).length ≤ MAXFILE * BSIZE)
    (hroom : FSSIZE < total (fun k => f k ++ appended k ops) → may "read") :
    wp may (runAll ops) (fun _ s' => Good s' (fun k => f k ++ appended k ops) ∧
      s'.freeinode = s.freeinode + allocated ops ∧
      ∀ k < inodes, (inode s' k).type = types s.freeinode t ops k) s := by
  induction ops generalizing s f t with
  | nil =>
    have hsame : (fun k => f k ++ appended k []) = f := funext fun k => List.append_nil _
    rw [hsame]
    exact ⟨h, rfl, ht⟩
  | cons op ops ih =>
    unfold runAll
    rw [wp_bind]
    cases op with
    | ialloc type =>
      have hlt : s.freeinode < inodes := by
        simp only [allocated] at hcap
        omega
      unfold Op.run
      rw [wp_bind]
      refine wp_mono (ialloc_good h hlt hp.1) ?_
      rintro k s₁ ⟨-, h1, h2, h3⟩
      rw [wp_pure]
      have hrec := ih (t := Function.update t s.freeinode type) h1 (fun k hk => ?_)
        (by rw [h2]; exact hp.2) (by rw [h2]; simp only [allocated] at hcap; omega) hmax hroom
      · refine wp_mono hrec ?_
        rintro - s' ⟨h4, h5, h6⟩
        refine ⟨h4, ?_, ?_⟩
        · rw [h5, h2]
          simp only [allocated]
          omega
        · rw [h2] at h6
          exact h6
      · rw [h3 k hk, Function.update_apply, ht k hk]
    | iappend k bs =>
      obtain ⟨hpos, hk, hrest⟩ := hp
      have hfun : (fun j => f j ++ appended j (.iappend k bs :: ops)) =
          fun j => Function.update f k (f k ++ bs) j ++ appended j ops := by
        funext j
        by_cases hj : j = k
        · subst hj
          rw [Function.update_self, List.append_assoc, appended, if_pos rfl]
        · rw [Function.update_of_ne hj, appended, if_neg (Ne.symm hj)]
      have hmax' : ∀ j, (Function.update f k (f k ++ bs) j ++ appended j ops).length ≤
          MAXFILE * BSIZE := fun j => by
        rw [← congrFun hfun j]
        exact hmax j
      rw [hfun] at hroom ⊢
      have hfirst := hmax' k
      rw [Function.update_self, List.length_append, List.length_append] at hfirst
      have hle : ∑ j ∈ Finset.range inodes, blocksFor (Function.update f k (f k ++ bs) j).length ≤
          ∑ j ∈ Finset.range inodes,
            blocksFor (Function.update f k (f k ++ bs) j ++ appended j ops).length := by
        refine Finset.sum_le_sum fun j _ => blocksFor_mono ?_
        exact (List.prefix_append _ _).length_le
      refine wp_mono (iappend_good h hpos hk (by omega) fun hbig => hroom ?_) ?_
      · have hsum := sum_file (f := f) (g := f k ++ bs) (lt_of_lt_of_le hk h.last)
        have hcount := h.count
        have hmono : blocksFor (f k).length ≤ blocksFor ((f k).length + bs.length) :=
          blocksFor_mono (Nat.le_add_right _ _)
        rw [List.length_append] at hsum
        change FSSIZE < nmeta + ∑ j ∈ Finset.range inodes,
          blocksFor (Function.update f k (f k ++ bs) j ++ appended j ops).length
        omega
      rintro - s₁ ⟨h1, h2, h3⟩
      refine wp_mono (ih h1 (fun j hj => (h3 j hj).trans (ht j hj)) (by rw [h2]; exact hrest)
        (by rw [h2]; exact hcap) hmax' hroom) ?_
      rintro - s' ⟨h4, h5, h6⟩
      exact ⟨h4, by rw [h5, h2]; rfl, by rw [h2] at h6; exact h6⟩

/-! ### The finished image -/

/-- The image with its bitmap. -/
def finish (s : Mkfs) : Mkfs := put s sb.bmapstart (marked s.freeblock)

lemma balloc_ok (h : Sane s) : Mkfs.balloc s.freeblock s = .ok (finish s) () := by
  have hlt : s.freeblock < BPB := lt_of_le_of_lt h.high (by decide)
  unfold Mkfs.balloc
  rw [if_pos hlt, wsect_ok h.sectors (by decide)]
  rfl

lemma bit_marked (hn : n ≤ BPB) (k : ℕ) : bit (marked n) k = decide (k < n) := by
  induction n with
  | zero => simp [marked]
  | succ n ih =>
    unfold marked
    rw [bit_setBit hn, ih (Nat.le_of_succ_le hn), ← Bool.decide_or]
    congr 1
    exact propext (by omega)

lemma finish_sect {b : ℕ} (hb : b ≠ sb.bmapstart) : (finish s).sect b = s.sect b := by
  change Function.update s.sect sb.bmapstart (marked s.freeblock) b = _
  rw [Function.update_of_ne hb]

lemma finish_super (h : s.sect 1 = sb.block) : readsb ((finish s).sect 1) = sb := by
  rw [finish_sect (by decide), h]
  exact readsb_block sb (by decide)

lemma finish_inode (h : s.sect 1 = sb.block) (hk : k < inodes) :
    readDinode (finish s).sect k = inode s k := by
  unfold readDinode
  rw [finish_super h, finish_sect (Nat.ne_of_lt (iblock_lt hk).2)]
  rfl

lemma mount_dinode (h : s.sect 1 = sb.block) : (mount (finish s).sect).dinode = (view s).dinode := by
  funext k
  change (if IBLOCK k (readsb ((finish s).sect 1)) < (readsb ((finish s).sect 1)).bmapstart then
    readDinode (finish s).sect k else Dinode.free) = if k < inodes then inode s k else Dinode.free
  rw [finish_super h]
  by_cases hk : k < inodes
  · rw [if_pos hk, if_pos (iblock_lt hk).2, finish_inode h hk]
  · have hge : ¬IBLOCK k sb < sb.bmapstart := by
      have hi : sb.inodestart = 2 + Mkfs.nlog := rfl
      have hb : sb.bmapstart = 2 + Mkfs.nlog + Mkfs.ninodeblocks := rfl
      have hdiv : Mkfs.ninodeblocks ≤ k / IPB :=
        (Nat.le_div_iff_mul_le (by decide)).mpr (Nat.le_of_not_lt hk)
      unfold IBLOCK
      omega
    rw [if_neg hk, if_neg hge]

lemma mount_block {a : BlockNo} (ha : nmeta ≤ a.toNat) :
    (mount (finish s).sect).block a = (view s).block a := by
  have hlt : sb.bmapstart < nmeta := by decide
  rw [view_block ha]
  exact finish_sect (by omega)

lemma mount_used {a : BlockNo} (h : Sane s) (hs : s.sect 1 = sb.block) (ha : a.toNat < FSSIZE) :
    (mount (finish s).sect).used a = (view s).used a := by
  have hlt : a.toNat < BPB := lt_trans ha (by decide)
  have hblock : BBLOCK a.toNat sb = sb.bmapstart := by
    unfold BBLOCK
    rw [Nat.div_eq_of_lt hlt, Nat.zero_add]
  have hsect : (finish s).sect sb.bmapstart = marked s.freeblock := by
    change Function.update s.sect sb.bmapstart (marked s.freeblock) sb.bmapstart = _
    rw [Function.update_self]
  have hle : s.freeblock ≤ BPB := h.high.trans (by decide)
  change bit ((finish s).sect (BBLOCK a.toNat (readsb ((finish s).sect 1)))) (a.toNat % BPB) = _
  rw [finish_super hs, hblock, hsect, Nat.mod_eq_of_lt hlt, bit_marked hle]
  rfl

/-- The blocks of the files are the same in the view of the image and in the image. -/
lemma mount_inode (h : Held nmeta (view s) (view s).dinode 0) {b : BlockNo}
    (hb : b ∈ inodeBlocks (view s).block ((view s).dinode k)) :
    (mount (finish s).sect).block b = (view s).block b := by
  have ht : ((view s).dinode k).type ≠ 0 := by
    intro hz
    unfold inodeBlocks at hb
    rw [if_pos hz] at hb
    exact Multiset.notMem_zero _ hb
  have hheld : Held nmeta (view s) (Function.update (view s).dinode k ((view s).dinode k)) 0 := by
    rwa [Function.update_eq_self]
  rw [inodeBlocks, if_neg ht] at hb
  exact mount_block (data_of_held hheld ht hb).1

/-- **The bitmap of the image** is right when the view is. -/
lemma mount_held (hsane : Sane s) (h : Held nmeta (view s) (view s).dinode 0)
    (hs : s.sect 1 = sb.block) :
    Held nmeta (mount (finish s).sect) (mount (finish s).sect).dinode 0 := by
  have hsize : (mount (finish s).sect).size = (view s).size := by
    change (readsb ((finish s).sect 1)).size = s.sectors
    rw [finish_super hs, hsane.sectors]
    rfl
  have hown : own nmeta (mount (finish s).sect).block (mount (finish s).sect).dinode 0 =
      own nmeta (view s).block (view s).dinode 0 := by
    rw [mount_dinode hs]
    funext p
    cases p with
    | metadata => rfl
    | loose => rfl
    | inode k =>
      by_cases ht : ((view s).dinode k).type = 0
      · change inodeBlocks _ _ = inodeBlocks _ _
        unfold inodeBlocks
        rw [if_pos ht, if_pos ht]
      · exact inodeBlocks_congr fun ha => mount_inode h (ind_mem ht ha)
  refine ⟨h.boot, hsize ▸ h.size, ?_⟩
  rw [hown, hsize]
  refine ⟨h.owns.nodup, h.owns.one, fun b hb => ?_, h.owns.dom⟩
  have hb' : b.toNat < s.sectors := hb
  rw [mount_used hsane hs (hsane.sectors ▸ hb')]
  exact h.owns.used b hb

lemma mount_file (h : Good s f) (hpos : 0 < k) (hk : k < s.freeinode) :
    FileOk (mount (finish s).sect).block (inode s k) ∧
    bytes (mount (finish s).sect).block (inode s k) = f k := by
  have hk' : k < inodes := lt_of_lt_of_le hk h.last
  have hdisk : (view s).dinode k = inode s k := view_dinode hk'
  have ht := h.type k hpos hk
  have hfile : FileOk (view s).block (inode s k) := hdisk ▸ h.intact.file k (by rwa [hdisk])
  have hsame : ∀ b ∈ blocks (view s).block (inode s k),
      (mount (finish s).sect).block b = (view s).block b := by
    intro b hb
    refine mount_inode (k := k) h.intact.held ?_
    rwa [hdisk, inodeBlocks, if_neg ht]
  exact ⟨fileOk_congr hsame hfile, (bytes_congr hsame hfile).trans (h.bytes k hk')⟩

/-- A run ends with the image of the files, or there is no room for them. -/
lemma make_good (hp : Proper 1 ops) (hcap : allocated ops < inodes)
    (hmax : ∀ k, (appended k ops).length ≤ MAXFILE * BSIZE) :
    wp (fun msg => msg = "read" ∧ FSSIZE < total fun k => appended k ops) (make ops)
      (fun _ s' => ∃ s, s' = finish s ∧ Good s (fun k => appended k ops) ∧
        s.freeinode = allocated ops + 1 ∧
        ∀ k < inodes, (inode s k).type = types 1 (fun _ => 0) ops k) start := by
  unfold make
  rw [wp_bind]
  refine wp_of_ok format_ok ?_
  rw [wp_bind]
  refine wp_mono (runAll_good (t := fun _ => 0) blank_good (fun k _ => by rw [inode_blank]; rfl) hp
    ?_ hmax fun hbig => ⟨rfl, hbig⟩) ?_
  · change 1 + allocated ops ≤ inodes
    omega
  rintro - s ⟨h1, h2, h3⟩
  rw [wp_bind, wp_look]
  refine wp_of_ok (balloc_ok h1.toSane) ⟨s, rfl, h1, ?_, h3⟩
  change s.freeinode = 1 + allocated ops at h2
  omega

/-- What the kernel reads in the image of inode `k`, which `bs` have been appended to. -/
def Reads (disk : ℕ → Block) (k : ℕ) (bs : List UInt8) : Prop :=
  ∀ (writable : ℕ → Bool) (o m : ℕ), (∀ i, writable i = true) → o < 2 ^ 32 → m < 2 ^ 32 →
    o + m < 2 ^ 32 → wp Never (readi (readDinode disk k) writable o m) (fun r st =>
      st = mount disk ∧ r.2 = ((((bs.drop o).take m).length : ℤ), (bs.drop o).take m)) (mount disk)

/-! ### More inodes than there is room for -/

lemma runAll_cons (op : Op) : runAll (op :: ops) = op.run >>= fun _ => runAll ops := rfl

lemma wp_runAll_append {ops' : List Op} {Q : Unit → Mkfs → Prop} :
    wp may (runAll (ops ++ ops')) Q s ↔ wp may (runAll ops) (fun _ s' => wp may (runAll ops') Q s') s := by
  induction ops generalizing s with
  | nil => rfl
  | cons op ops ih =>
    rw [List.cons_append, runAll_cons, runAll_cons, wp_bind, wp_bind]
    simp only [ih]

lemma allocated_replicate : allocated (List.replicate n (.ialloc type)) = n := by
  induction n with
  | zero => rfl
  | succ n ih =>
    rw [List.replicate_succ, allocated, ih]

lemma appended_replicate : appended k (List.replicate n (.ialloc type)) = [] := by
  induction n with
  | zero => rfl
  | succ n ih =>
    rw [List.replicate_succ, appended, ih]

lemma appended_append {ops' : List Op} :
    appended k (ops ++ ops') = appended k ops ++ appended k ops' := by
  induction ops with
  | nil => rfl
  | cons op ops ih =>
    cases op with
    | ialloc type => exact ih
    | iappend j bs =>
      rw [List.cons_append, appended, appended, ih]
      split_ifs
      · rw [List.append_assoc]
      · rfl

lemma proper_replicate {m : ℕ} (ht : type ≠ 0) (h : Proper (m + n) ops) :
    Proper m (List.replicate n (.ialloc type) ++ ops) := by
  induction n generalizing m with
  | zero => exact h
  | succ n ih =>
    refine ⟨ht, ih ?_⟩
    rwa [Nat.add_right_comm, Nat.add_assoc]

/-- After `n` inodes there is one more, which a byte is appended to. -/
def crowd (n : ℕ) : List Op := List.replicate n (.ialloc T_FILE) ++
  [.ialloc T_FILE, .iappend (n + 1) [7]]

lemma iblock_inodes : IBLOCK inodes sb = sb.bmapstart := by decide

/-- A byte is appended to a file that has no block yet. -/
lemma iappend_first (hs : s.sectors = FSSIZE) (hb : s.freeblock = nmeta) (hk : IBLOCK k sb < nmeta)
    (ha : (inode s k).addrs = fun _ => 0) (hz : (inode s k).size = 0) (v : UInt8) :
    wp may (iappend k [v]) (fun _ s' => s'.sectors = FSSIZE ∧ s'.freeblock = nmeta + 1 ∧
      ∀ b < nmeta, b ≠ IBLOCK k sb → s'.sect b = s.sect b) s := by
  have hlt : IBLOCK k sb < FSSIZE := lt_trans hk (by decide)
  have hmeta : (UInt32.ofNat nmeta).toNat = nmeta := toNat_of_le (by decide)
  have hnew : (inode s k).addrs (Fin.ofNat (NDIRECT + 1) 0) = 0 := by rw [ha]
  have hnext : Mkfs.addrAt (inode s k) (Fin.ofNat (NDIRECT + 1) 0) s = .ok (bump s)
      ((inode s k).setAddr (Fin.ofNat (NDIRECT + 1) 0) (UInt32.ofNat nmeta)) := by
    rw [addrAt_next hnew, hb]
  have hself : ((inode s k).setAddr (Fin.ofNat (NDIRECT + 1) 0) (UInt32.ofNat nmeta)).addrs
      (Fin.ofNat (NDIRECT + 1) 0) = UInt32.ofNat nmeta := by simp [Dinode.setAddr]
  have hbump : (bump s).sectors = FSSIZE := hs
  unfold iappend
  rw [wp_bind]
  refine wp_of_ok (rinode_ok hs hlt) ?_
  rw [wp_bind, hz]
  change wp may (Mkfs.iappendLoop (0 + 1) (inode s k) 0 [v]) _ s
  rw [Mkfs.iappendLoop, Mkfs.blockAt]
  rw [if_neg (List.cons_ne_nil _ _), if_pos (by decide), if_pos (by decide), wp_bind, wp_bind]
  refine wp_of_ok hnext ?_
  rw [wp_pure]
  dsimp only
  rw [Nat.zero_div, hself, hmeta, wp_bind]
  refine wp_of_ok (rsect_ok hbump (by decide)) ?_
  rw [wp_bind]
  refine wp_of_ok (wsect_ok hbump (by decide)) ?_
  rw [Mkfs.iappendLoop, wp_pure]
  refine wp_of_ok (winode_ok hbump hlt) ⟨hs, ?_, fun b hlow hne => ?_⟩
  · change s.freeblock + 1 = nmeta + 1
    rw [hb]
  · have hne' : b ≠ nmeta := Nat.ne_of_lt hlow
    change Function.update (Function.update s.sect nmeta _) (IBLOCK k sb) _ b = s.sect b
    rw [Function.update_of_ne hne, Function.update_of_ne hne']

lemma runAll_inodes (hn : n < inodes) (ht : type ≠ 0) :
    wp Never (runAll (List.replicate n (.ialloc type))) (fun _ s => Good s (fun _ => []) ∧
      s.freeinode = n + 1) blank := by
  have hnil : (fun k => [] ++ appended k (List.replicate n (.ialloc type))) =
      fun _ => ([] : List UInt8) := funext fun k => by rw [appended_replicate, List.append_nil]
  have hfew : ¬FSSIZE < total fun _ => [] := by
    have hz : blocksFor ([] : List UInt8).length = 0 := rfl
    unfold total
    simp only [hz, Finset.sum_const_zero]
    decide
  refine wp_mono (runAll_good (t := fun _ => 0) blank_good (fun k _ => by rw [inode_blank]; rfl)
    ?_ ?_ (fun k => ?_) ?_) ?_
  · have hp : Proper 1 (List.replicate n (.ialloc type) ++ []) := proper_replicate ht trivial
    rwa [List.append_nil] at hp
  · rw [allocated_replicate]
    change 1 + n ≤ inodes
    omega
  · rw [appended_replicate]
    exact Nat.zero_le _
  · rw [hnil]
    exact fun hbig => absurd hbig hfew
  · rintro - s ⟨h1, h2, -⟩
    rw [hnil] at h1
    rw [allocated_replicate] at h2
    change s.freeinode = 1 + n at h2
    exact ⟨h1, by omega⟩

/-- The inode that has no room is in the block of the bitmap. -/
lemma crowd_reads (hn : n + 1 = inodes) : wp Never (make (crowd n)) (fun _ s =>
    readi (readDinode s.sect (n + 1)) (fun _ => true) 0 1 (mount s.sect) =
      .ok (mount s.sect) (readDinode s.sect (n + 1), 0, [])) start := by
  have hblock : IBLOCK (n + 1) sb = sb.bmapstart := by rw [hn]; exact iblock_inodes
  have hmod : (n + 1) % IPB = 0 := by rw [hn]; decide
  have hlt : sb.bmapstart < nmeta := by decide
  unfold make crowd
  rw [wp_bind]
  refine wp_of_ok format_ok ?_
  rw [wp_bind, wp_runAll_append]
  refine wp_mono (runAll_inodes (by omega) (by decide)) ?_
  rintro - s ⟨hgood, hnext⟩
  have hfree : s.freeblock = nmeta := by
    have hz : blocksFor ([] : List UInt8).length = 0 := rfl
    have hcount := hgood.count
    simp only [hz, Finset.sum_const_zero] at hcount
    exact hcount
  obtain ⟨s₀, hs₀⟩ : ∃ s₀ : Mkfs, s₀ = { s with freeinode := n + 1 + 1 } := ⟨_, rfl⟩
  have hsect : s₀.sectors = FSSIZE := by rw [hs₀]; exact hgood.sectors
  rw [runAll_cons, wp_bind]
  unfold Op.run ialloc
  rw [wp_bind, wp_bind, wp_look, wp_bind, wp_change, wp_bind, hnext, ← hs₀]
  obtain ⟨ip, hip⟩ : ∃ ip : Dinode, ip = { Dinode.free with type := T_FILE, nlink := 1 } := ⟨_, rfl⟩
  rw [← hip]
  refine wp_of_ok (winode_ok hsect (by rw [hblock]; decide)) ?_
  rw [wp_pure, wp_pure, runAll_cons, wp_bind]
  have hself : inode (putInode s₀ (n + 1) ip) (n + 1) = ip :=
    inode_put_self (by rw [hip]; exact Nat.two_pow_pos 32)
  have hsuper : (putInode s₀ (n + 1) ip).sect 1 = sb.block := super_put (by rw [hs₀]; exact hgood.super)
  refine wp_mono (iappend_first (s := putInode s₀ (n + 1) ip) hsect (by rw [← hfree, hs₀]; rfl)
    (by rw [hblock]; exact hlt) (by rw [hself, hip]; rfl) (by rw [hself, hip]; rfl) 7) ?_
  rintro - s₁ ⟨h1, h2, h3⟩
  have hsuper' : s₁.sect 1 = sb.block := by
    rw [h3 1 (by decide) (by rw [hblock]; decide), hsuper]
  unfold runAll
  rw [wp_pure, wp_bind, wp_look, h2]
  unfold Mkfs.balloc
  rw [if_pos (by decide)]
  refine wp_of_ok (wsect_ok h1 (by decide)) ?_
  obtain ⟨disk, hdisk⟩ : ∃ disk, disk = (put s₁ sb.bmapstart (marked (nmeta + 1))).sect := ⟨_, rfl⟩
  rw [← hdisk]
  have hat : ∀ b, disk b = Function.update s₁.sect sb.bmapstart (marked (nmeta + 1)) b := by
    intro b
    rw [hdisk]
    rfl
  -- the size is read from bits that are not set
  have hsize : (readDinode disk (n + 1)).size = 0 := by
    have hsb : readsb (disk 1) = sb := by
      rw [hat, Function.update_of_ne (by decide), hsuper']
      exact readsb_block sb (by decide)
    unfold readDinode
    rw [hsb, hblock, hat, Function.update_self, hmod]
    decide
  unfold readi
  rw [hsize]
  rfl

lemma crowd_proper : Proper 1 (crowd n) ∧ appended (n + 1) (crowd n) = [7] := by
  refine ⟨proper_replicate (by decide) ⟨by decide, Nat.succ_pos n, by omega, trivial⟩, ?_⟩
  unfold crowd
  rw [appended_append, appended_replicate]
  simp [appended]

/-- A file of two bytes. -/
def pair : List Op := [.ialloc T_FILE, .iappend 1 [7, 8]]

lemma pair_proper : Proper 1 pair := ⟨by decide, by decide, by decide, trivial⟩

lemma pair_max (k : ℕ) : (appended k pair).length ≤ MAXFILE * BSIZE := by
  have htwo : 2 ≤ MAXFILE * BSIZE := by decide
  simp only [pair, appended]
  split_ifs
  · exact htwo
  · exact Nat.zero_le _

lemma pair_made : wp Never (make pair) (fun _ _ => True) start := by
  have happ : (fun k => appended k pair) = Function.update (fun _ => []) 1 [7, 8] := by
    funext k
    by_cases hk : k = 1
    · subst hk
      rw [Function.update_self]
      rfl
    · rw [Function.update_of_ne hk]
      simp [pair, appended, Ne.symm hk]
  have htotal : ¬FSSIZE < total fun k => appended k pair := by
    have hsum := sum_file (f := fun _ => []) (g := [7, 8]) (k := 1) (by decide)
    have hz : blocksFor ([] : List UInt8).length = 0 := rfl
    have hone : blocksFor ([7, 8] : List UInt8).length = 1 := rfl
    have hroom : nmeta + 1 ≤ FSSIZE := by decide
    simp only [hz, hone, Finset.sum_const_zero] at hsum
    rw [happ]
    unfold total
    omega
  refine wp_mono (wp_may (make_good pair_proper (by decide) pair_max) ?_) fun _ _ _ => trivial
  rintro msg ⟨-, hbig⟩
  exact htotal hbig

/-- With an inode too many, and with a range that goes past `2 ^ 32`, the kernel does not read what
has been appended. -/
theorem format_disagrees :
    (Proper 1 (crowd (inodes - 1)) ∧ appended inodes (crowd (inodes - 1)) = [7] ∧
      wp Never (make (crowd (inodes - 1))) (fun _ s =>
        readi (readDinode s.sect inodes) (fun _ => true) 0 1 (mount s.sect) =
          .ok (mount s.sect) (readDinode s.sect inodes, 0, [])) start) ∧
    Proper 1 pair ∧ appended 1 pair = [7, 8] ∧
      wp Never (make pair) (fun _ s =>
        readi (readDinode s.sect 1) (fun _ => true) 1 (2 ^ 32 - 1) (mount s.sect) =
          .ok (mount s.sect) (readDinode s.sect 1, 0, [])) start := by
  have hn : inodes - 1 + 1 = inodes := by decide
  have hcrowd := crowd_proper (n := inodes - 1)
  have hreads := crowd_reads hn
  rw [hn] at hcrowd hreads
  refine ⟨⟨hcrowd.1, hcrowd.2, hreads⟩, pair_proper, rfl, ?_⟩
  refine wp_mono pair_made fun _ s _ => ?_
  unfold readi
  rw [if_pos (.inr (by decide))]
  rfl

/-- **`mkfs` and the kernel agree on the format.** -/
theorem format_agrees (hp : Proper 1 ops) (hcap : allocated ops < inodes)
    (hmax : ∀ k, (appended k ops).length ≤ MAXFILE * BSIZE) :
    wp (fun msg => msg = "read" ∧ FSSIZE < total fun k => appended k ops) (make ops) (fun _ s =>
      ∀ k, 0 < k → k ≤ allocated ops → (readDinode s.sect k).type = types 1 (fun _ => 0) ops k ∧
        Reads s.sect k (appended k ops)) start := by
  refine wp_mono (make_good hp hcap hmax) ?_
  rintro - s' ⟨s, rfl, hgood, hnext, htype⟩ k hpos hle
  have hk : k < s.freeinode := by omega
  have hk' : k < inodes := lt_of_lt_of_le hk hgood.last
  obtain ⟨hfile, hbytes⟩ := mount_file hgood hpos hk
  rw [finish_inode hgood.super hk']
  refine ⟨htype k hk', fun writable o m hw ho hm hlt => ?_⟩
  rw [finish_inode hgood.super hk']
  refine wp_mono (readi_bytes hfile hw ho hm) ?_
  rintro r st ⟨h1, -, h3, h4⟩
  rw [if_pos hlt, hbytes] at h4
  refine ⟨h1, Prod.ext ?_ h4⟩
  rw [h3, h4]

/-- A file of two bytes is read. -/
theorem format_agrees_pair : wp (fun msg => msg = "read" ∧ FSSIZE < total fun k => appended k pair)
    (make pair) (fun _ s => ∀ k, 0 < k → k ≤ allocated pair →
      (readDinode s.sect k).type = types 1 (fun _ => 0) pair k ∧
        Reads s.sect k (appended k pair)) start :=
  format_agrees pair_proper (by decide) pair_max

end Xv6.Fs.Format
