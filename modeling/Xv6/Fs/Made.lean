import Xv6.Fs.Format

/-!
The image that `main` makes of the files of its command line, as the kernel finds it.
-/

namespace Xv6.Fs.Made

open Xv6.Conc Xv6.Data.Effect Xv6.Data.Effect.Eff Xv6.Disk Xv6.Fs.Content Xv6.Fs.Kernel
  Xv6.Fs.Layout Xv6.Fs.Path Xv6.Fs.Sound Xv6.Fs.Bytes Xv6.Fs.Image Xv6.Fs.Format
open Xv6.Fs.Mkfs (Mkfs Input sb nmeta FSSIZE NINODES ialloc iappend start addFile addFiles copyIn
  shortname stripped)

variable {s s' : Mkfs} {f : ℕ → List UInt8} {k n : ℕ} {may : String → Prop} {files : List Input}
  {file : Input} {ops : List Op}

/-- The bytes of a file. -/
def contents (file : Input) : List UInt8 := (file.reads.takeWhile (· ≠ [])).flatten

/-- What `copyIn` appends. -/
def copyOps (inum : ℕ) (file : Input) : List Op :=
  (file.reads.takeWhile (· ≠ [])).map (.iappend inum)

/-- What is done for a file that becomes inode `inum`. -/
def fileOps (inum : ℕ) (file : Input) : List Op :=
  .ialloc T_FILE :: .iappend ROOTINO (encode ⟨inum, stripped file.arg⟩) :: copyOps inum file

def filesOps : ℕ → List Input → List Op
  | _, [] => []
  | inum, file :: files => fileOps inum file ++ filesOps (inum + 1) files

/-- The whole of `main`, up to the size of the root and the bitmap. -/
def mainOps (files : List Input) : List Op :=
  [.ialloc T_DIR, .iappend ROOTINO (encode ⟨ROOTINO, dot⟩), .iappend ROOTINO (encode ⟨ROOTINO, dotdot⟩)]
    ++ filesOps 2 files

/-- A name that `mkfs` takes. -/
structure Named (file : Input) : Prop where
  slash : slash ∉ shortname file.arg
  short : (stripped file.arg).length ≤ DIRSIZ

lemma copyIn_eq (reads : List (List UInt8)) :
    copyIn k reads = runAll ((reads.takeWhile (· ≠ [])).map (.iappend k)) := by
  induction reads with
  | nil => rfl
  | cons buf reads ih =>
    unfold copyIn
    by_cases hnil : buf = []
    · subst hnil
      rfl
    · rw [if_neg hnil, List.takeWhile_cons_of_pos (by simpa using hnil), List.map_cons, runAll_cons, ih]
      rfl

/-- `ialloc` returns the next number. -/
lemma wp_ialloc {α : Type} {type : Int16} {g : ℕ → Eff Mkfs α} {Q : α → Mkfs → Prop} :
    wp may (ialloc type >>= g) Q s ↔ wp may (ialloc type >>= fun _ => g s.freeinode) Q s := by
  unfold ialloc
  simp only [wp_bind, wp_look, wp_change, wp_pure]

lemma wp_addFile (h : Named file) {Q : Unit → Mkfs → Prop} : wp may (addFile ROOTINO file) Q s ↔
    wp may (runAll (fileOps s.freeinode file)) Q s := by
  unfold addFile fileOps
  rw [if_neg h.slash, if_pos h.short, wp_ialloc, runAll_cons, copyIn_eq]
  simp only [Op.run, wp_bind, wp_pure, runAll_cons]
  rfl

lemma allocated_append {ops' : List Op} :
    allocated (ops ++ ops') = allocated ops + allocated ops' := by
  induction ops with
  | nil => exact (Nat.zero_add _).symm
  | cons op ops ih =>
    cases op with
    | ialloc type =>
      rw [List.cons_append, allocated, allocated, ih]
      omega
    | iappend k bs => exact ih

lemma allocated_copyOps : allocated (copyOps k file) = 0 := by
  unfold copyOps
  induction file.reads.takeWhile (· ≠ []) with
  | nil => rfl
  | cons buf reads ih => exact ih

lemma allocated_filesOps : allocated (filesOps n files) = files.length := by
  induction files generalizing n with
  | nil => rfl
  | cons file files ih =>
    rw [filesOps, allocated_append, ih, fileOps, allocated, allocated, allocated_copyOps,
      List.length_cons]
    omega

lemma total_mono {g : ℕ → List UInt8} (h : ∀ k, (f k).length ≤ (g k).length) : total f ≤ total g :=
  Nat.add_le_add_left (Finset.sum_le_sum fun k _ => blocksFor_mono (h k)) _

lemma proper_copyOps {m : ℕ} (hpos : 0 < k) (hlt : k < m) : Proper m (copyOps k file) := by
  unfold copyOps
  induction file.reads.takeWhile (· ≠ []) with
  | nil => trivial
  | cons buf reads ih => exact ⟨hpos, hlt, ih⟩

lemma proper_fileOps (hroot : ROOTINO < n) : Proper n (fileOps n file) := by
  have hpos : 0 < ROOTINO := Nat.one_pos
  exact ⟨by decide, hpos, by omega, proper_copyOps (by omega) (Nat.lt_succ_self n)⟩

/-- `addFiles` is a run of allocations and appends. -/
lemma wp_addFiles (hn : ∀ file ∈ files, Named file) (h : Good s f) (hroot : ROOTINO < s.freeinode)
    (hcap : s.freeinode + files.length ≤ inodes)
    (hmax : ∀ k, (f k ++ appended k (filesOps s.freeinode files)).length ≤ MAXFILE * BSIZE)
    (hroom : FSSIZE < total (fun k => f k ++ appended k (filesOps s.freeinode files)) → may "read") :
    wp may (addFiles ROOTINO files) (fun _ s' =>
      Good s' (fun k => f k ++ appended k (filesOps s.freeinode files)) ∧
      s'.freeinode = s.freeinode + files.length) s := by
  induction files generalizing s f with
  | nil =>
    have hsame : (fun k => f k ++ appended k (filesOps s.freeinode [])) = f :=
      funext fun k => List.append_nil _
    rw [hsame]
    exact ⟨h, rfl⟩
  | cons file files ih =>
    have hfirst : allocated (fileOps s.freeinode file) = 1 := by
      rw [fileOps, allocated, allocated, allocated_copyOps]
    have hsplit : ∀ k, f k ++ appended k (filesOps s.freeinode (file :: files)) =
        (f k ++ appended k (fileOps s.freeinode file)) ++
          appended k (filesOps (s.freeinode + 1) files) := by
      intro k
      rw [filesOps, appended_append, List.append_assoc]
    have hle : ∀ k, (f k ++ appended k (fileOps s.freeinode file)).length ≤
        (f k ++ appended k (filesOps s.freeinode (file :: files))).length := by
      intro k
      rw [hsplit k]
      exact (List.prefix_append _ _).length_le
    rw [List.length_cons] at hcap
    unfold addFiles
    rw [wp_bind, wp_addFile (hn file List.mem_cons_self)]
    refine wp_mono (runAll_good (t := fun k => (inode s k).type) h (fun _ _ => rfl)
      (proper_fileOps hroot) (by omega) (fun k => (hle k).trans (hmax k))
      fun hbig => hroom (lt_of_lt_of_le hbig (total_mono hle))) ?_
    rintro - s₁ ⟨h1, h2, -⟩
    rw [hfirst] at h2
    simp only [hsplit] at hmax hroom ⊢
    have hrec := ih (fun file' hf => hn file' (List.mem_cons_of_mem _ hf)) h1 (by omega) (by omega)
    rw [h2] at hrec
    refine wp_mono (hrec hmax hroom) ?_
    rintro - s' ⟨h3, h4⟩
    refine ⟨h3, ?_⟩
    rw [h4, List.length_cons]
    omega

/-! ### The contents -/

/-- The bytes of the root directory, with the files from `inum` on. -/
def entries (inum : ℕ) : List Input → List UInt8
  | [] => []
  | file :: files => encode ⟨inum, stripped file.arg⟩ ++ entries (inum + 1) files

lemma length_entries : (entries n files).length = DIRENT * files.length := by
  induction files generalizing n with
  | nil => rfl
  | cons file files ih =>
    rw [entries, List.length_append, length_encode, ih, List.length_cons]
    ring

lemma appended_copyOps : appended k (copyOps n file) = if n = k then contents file else [] := by
  unfold copyOps contents
  induction file.reads.takeWhile (· ≠ []) with
  | nil => exact (ite_self _).symm
  | cons buf reads ih =>
    rw [List.map_cons, appended, ih, List.flatten_cons]
    split_ifs <;> rfl

/-- What the inodes from `n` on hold in the end. -/
lemma appended_filesOps (hroot : ROOTINO < n) : appended k (filesOps n files) =
    if k = ROOTINO then entries n files
    else if k < n then [] else ((files[k - n]?).map contents).getD [] := by
  induction files generalizing n with
  | nil =>
    split_ifs <;> simp [filesOps, appended, entries]
  | cons file files ih =>
    rw [filesOps, appended_append, ih (by omega), fileOps, appended, appended, appended_copyOps]
    by_cases hk : k = ROOTINO
    · subst hk
      have hne : n ≠ ROOTINO := Nat.ne_of_gt hroot
      rw [if_pos rfl, if_pos rfl, if_pos rfl, if_neg hne, List.append_nil, entries]
    · rw [if_neg hk, if_neg hk, if_neg (Ne.symm hk)]
      by_cases hnk : n = k
      · subst hnk
        rw [if_pos rfl, if_pos (Nat.lt_succ_self n), if_neg (Nat.lt_irrefl n), List.append_nil,
          Nat.sub_self]
        rfl
      · rw [if_neg hnk, List.nil_append]
        by_cases hlt : k < n
        · rw [if_pos (Nat.lt_succ_of_lt hlt), if_pos hlt]
        · have hsub : k - n = k - (n + 1) + 1 := by omega
          rw [if_neg (by omega), if_neg hlt, hsub, List.getElem?_cons_succ]

/-- What inode `k` holds in the end. -/
lemma appended_mainOps : appended k (mainOps files) =
    if k = ROOTINO then encode ⟨ROOTINO, dot⟩ ++ encode ⟨ROOTINO, dotdot⟩ ++ entries 2 files
    else if k < 2 then [] else ((files[k - 2]?).map contents).getD [] := by
  have hroot : ROOTINO < 2 := by decide
  rw [mainOps, appended_append, appended_filesOps hroot]
  by_cases hk : k = ROOTINO
  · subst hk
    rw [if_pos rfl, if_pos rfl, appended, appended, if_pos rfl, appended, if_pos rfl, appended,
      List.append_nil]
  · rw [if_neg hk, if_neg hk, appended, appended, if_neg (Ne.symm hk), appended, if_neg (Ne.symm hk),
      appended, List.nil_append]

/-- The blocks that the image takes. -/
def room (files : List Input) : ℕ :=
  nmeta + blocksFor (DIRENT * (files.length + 2)) +
    (files.map fun file => blocksFor (contents file).length).sum

lemma sum_files (hn : files.length ≤ n) :
    ∑ k ∈ Finset.range n, blocksFor (((files[k]?).map contents).getD []).length =
      (files.map fun file => blocksFor (contents file).length).sum := by
  induction files generalizing n with
  | nil =>
    have hz : blocksFor 0 = 0 := rfl
    simp [hz]
  | cons file files ih =>
    rw [List.length_cons] at hn
    obtain ⟨m, rfl⟩ : ∃ m, n = m + 1 := ⟨n - 1, by omega⟩
    rw [Finset.sum_range_succ', List.map_cons, List.sum_cons, ← ih (n := m) (by omega), Nat.add_comm]
    rfl

lemma total_mainOps (hn : files.length + 2 ≤ inodes) :
    total (fun k => appended k (mainOps files)) = room files := by
  have hsplit : inodes = inodes - 2 + 1 + 1 := by decide
  have hzero : (appended 0 (mainOps files)).length = 0 := by
    rw [appended_mainOps, if_neg (by decide), if_pos (by decide)]
    rfl
  have hroot : (appended 1 (mainOps files)).length = DIRENT * (files.length + 2) := by
    have hone : 1 = ROOTINO := rfl
    rw [appended_mainOps, if_pos hone, List.length_append, List.length_append, length_encode,
      length_encode, length_entries]
    ring
  have hrest : ∀ k, appended (k + 1 + 1) (mainOps files) = ((files[k]?).map contents).getD [] := by
    intro k
    have hne : k + 1 + 1 ≠ ROOTINO := by
      have : ROOTINO = 1 := rfl
      omega
    rw [appended_mainOps, if_neg hne, if_neg (by omega)]
    rfl
  have hz : blocksFor 0 = 0 := rfl
  unfold total room
  rw [hsplit, Finset.sum_range_succ', Finset.sum_range_succ']
  simp only [hrest, hzero, hroot, hz]
  rw [sum_files (by omega)]
  omega

/-! ### The whole program -/

/-- Files that there is room for, with names that can be entered. -/
structure Accepted (files : List Input) : Prop where
  named : ∀ file ∈ files, Named file
  size : ∀ file ∈ files, (contents file).length ≤ MAXFILE * BSIZE
  count : files.length + 1 < NINODES
  fits : room files ≤ FSSIZE

lemma Accepted.inodes (h : Accepted files) : files.length + 2 ≤ Image.inodes := by
  have hcount := h.count
  have hle : NINODES ≤ Image.inodes := by decide
  omega

lemma Accepted.max (h : Accepted files) (k : ℕ) :
    (appended k (mainOps files)).length ≤ MAXFILE * BSIZE := by
  rw [appended_mainOps]
  split_ifs with h1 h2
  · have hcount := h.count
    have hd : DIRENT * (NINODES + 2) ≤ MAXFILE * BSIZE := by decide
    have hmul : DIRENT * (files.length + 2) ≤ DIRENT * (NINODES + 2) :=
      Nat.mul_le_mul_left _ (by omega)
    rw [List.length_append, List.length_append, length_encode, length_encode, length_entries]
    rw [Nat.mul_add] at hmul
    omega
  · exact Nat.zero_le _
  · cases hget : files[k - 2]? with
    | none => exact Nat.zero_le _
    | some file => exact h.size file (List.mem_of_getElem? hget)

/-- The root directory as `main` leaves it. -/
def rounded (d : Dinode) : Dinode := { d with size := (d.size / BSIZE + 1) * BSIZE }

/-- The image before the size of the root is changed. -/
lemma main_good (h : Accepted files) : wp Never (Mkfs.main files) (fun _ s' =>
    ∃ s, Good s (fun k => appended k (mainOps files)) ∧ ROOTINO < s.freeinode ∧
      s' = finish (putInode s ROOTINO (rounded (inode s ROOTINO)))) start := by
  have hcap := h.inodes
  have hmax := h.max
  have hfits : ¬FSSIZE < total fun k => appended k (mainOps files) := by
    rw [total_mainOps hcap]
    exact Nat.not_lt.mpr h.fits
  obtain ⟨dots, hdots⟩ : ∃ dots : List Op, dots = [.ialloc T_DIR,
    .iappend ROOTINO (encode ⟨ROOTINO, dot⟩), .iappend ROOTINO (encode ⟨ROOTINO, dotdot⟩)] := ⟨_, rfl⟩
  have hsplit : ∀ k, [] ++ appended k dots ++ appended k (filesOps 2 files) =
      appended k (mainOps files) := by
    intro k
    rw [mainOps, appended_append, List.nil_append, hdots]
  have hle : ∀ k, ([] ++ appended k dots).length ≤ (appended k (mainOps files)).length := by
    intro k
    rw [← hsplit k]
    exact (List.prefix_append _ _).length_le
  have hproper : Proper blank.freeinode dots := by
    rw [hdots]
    exact ⟨by decide, by decide, by decide, by decide, by decide, trivial⟩
  have hone : allocated dots = 1 := by rw [hdots]; rfl
  have hrun : wp Never (runAll dots) (fun _ s => Good s (fun k => [] ++ appended k dots) ∧
      s.freeinode = 2) blank := by
    refine wp_mono (runAll_good (t := fun k => (inode blank k).type) blank_good (fun _ _ => rfl)
      hproper ?_ (fun k => (hle k).trans (hmax k)) fun hbig => ?_) ?_
    · rw [hone]
      decide
    · exact absurd (lt_of_lt_of_le hbig (total_mono hle)) hfits
    · rintro - s ⟨h1, h2, -⟩
      refine ⟨h1, ?_⟩
      rw [h2, hone]
      rfl
  have hroot : blank.freeinode = ROOTINO := rfl
  unfold Mkfs.main
  rw [wp_bind]
  refine wp_of_ok format_ok ?_
  rw [wp_ialloc, hroot, if_pos rfl, wp_bind]
  rw [hdots] at hrun
  simp only [runAll_cons, Op.run, wp_bind, wp_pure] at hrun
  rw [← hdots] at hrun
  refine wp_mono hrun fun _ _ hrun => ?_
  rw [wp_bind]
  refine wp_mono hrun fun _ _ hrun => ?_
  rw [wp_bind]
  refine wp_mono hrun ?_
  rintro - s₁ ⟨hgood, hnext⟩
  rw [wp_bind]
  have hall : ∀ k, [] ++ appended k dots ++ appended k (filesOps s₁.freeinode files) =
      appended k (mainOps files) := by
    intro k
    rw [hnext]
    exact hsplit k
  refine wp_mono (wp_addFiles h.named hgood (by rw [hnext]; decide) (by rw [hnext]; omega)
    (fun k => ?_) fun hbig => ?_) ?_
  · rw [hall]
    exact hmax k
  · simp only [hall] at hbig
    exact absurd hbig hfits
  rintro - s ⟨h1, h2⟩
  simp only [hall] at h1
  have hlt : IBLOCK ROOTINO sb < FSSIZE := by decide
  rw [wp_bind]
  refine wp_of_ok (rinode_ok h1.sectors hlt) ?_
  rw [wp_bind]
  refine wp_of_ok (winode_ok h1.sectors hlt) ?_
  rw [wp_bind, wp_look]
  have hsane : Sane (putInode s ROOTINO (rounded (inode s ROOTINO))) := h1.toSane.putInode (by decide)
  refine wp_of_ok (balloc_ok hsane) ⟨s, h1, ?_, rfl⟩
  rw [h2, hnext]
  change 1 < 2 + files.length
  omega

/-- A block past the end of the directory has no address. -/
lemma rounded_ok {blk : BlockNo → Block} {d : Dinode} (hs : Shape blk d d.size)
    (hmax : (d.size / BSIZE + 1) * BSIZE ≤ MAXFILE * BSIZE) :
    FileOk blk (rounded d) ↔ d.size % BSIZE ≠ 0 := by
  have haddr : ∀ bn, addrOf blk (rounded d) bn = addrOf blk d bn := fun _ => rfl
  have hdiv := Nat.div_add_mod d.size BSIZE
  rw [Nat.mul_comm] at hdiv
  constructor
  · intro hok hz
    have hin : d.size / BSIZE * BSIZE < (rounded d).size := by
      change _ < (d.size / BSIZE + 1) * BSIZE
      exact Nat.mul_lt_mul_of_pos_right (Nat.lt_succ_self _) BSIZE_pos
    have hne := hok.filled _ hin
    rw [haddr, hs.addr] at hne
    omega
  · intro hz
    refine ⟨fun bn hbn => ?_, hmax⟩
    have hle : bn ≤ d.size / BSIZE := by
      have hlt : bn * BSIZE < (d.size / BSIZE + 1) * BSIZE := hbn
      exact Nat.lt_succ_iff.mp (Nat.lt_of_mul_lt_mul_right hlt)
    have hmul := Nat.mul_le_mul_right BSIZE hle
    rw [haddr, hs.addr]
    omega

/-- What the kernel finds is in order if and only if the root has a block for each of its places. -/
lemma finish_intact (h : Good s f) (hnext : ROOTINO < s.freeinode)
    (hmax : ((f ROOTINO).length / BSIZE + 1) * BSIZE ≤ MAXFILE * BSIZE) :
    Intact nmeta (mount (finish (putInode s ROOTINO (rounded (inode s ROOTINO)))).sect) ↔
      (f ROOTINO).length % BSIZE ≠ 0 := by
  have hk : ROOTINO < inodes := by decide
  have hsize := h.size hk
  have hmf : MAXFILE * BSIZE < 2 ^ 32 := by decide
  obtain ⟨d, hd⟩ : ∃ d, d = rounded (inode s ROOTINO) := ⟨_, rfl⟩
  obtain ⟨s₁, hs₁⟩ : ∃ s₁, s₁ = putInode s ROOTINO d := ⟨_, rfl⟩
  have hlt : d.size < 2 ^ 32 := by
    have heq : d.size = ((f ROOTINO).length / BSIZE + 1) * BSIZE := by
      rw [hd, ← hsize]
      rfl
    omega
  have hview : view s₁ = (view s).setDinode ROOTINO d := by rw [hs₁]; exact view_putInode hk hlt
  have hsane : Sane s₁ := by rw [hs₁]; exact h.toSane.putInode hk
  have hsuper : s₁.sect 1 = sb.block := by rw [hs₁]; exact super_put h.super
  have hdisk : (view s).dinode ROOTINO = inode s ROOTINO := view_dinode hk
  have htype : d.type ≠ 0 := by rw [hd]; exact h.type _ Nat.one_pos hnext
  have hother : ∀ k ≠ ROOTINO, (view s₁).dinode k = (view s).dinode k := by
    intro k hne
    rw [hview]
    change Function.update (view s).dinode ROOTINO d k = _
    rw [Function.update_of_ne hne]
  have hself : (view s₁).dinode ROOTINO = d := by
    rw [hview]
    change Function.update (view s).dinode ROOTINO d ROOTINO = d
    rw [Function.update_self]
  have hblock : (view s₁).block = (view s).block := by rw [hview]; rfl
  -- who has which blocks is as before
  have hheld : Held nmeta (view s₁) (view s₁).dinode 0 := by
    refine h.intact.held.congr (by rw [hview]; rfl) (by rw [hview]; rfl) fun k => ?_
    rw [hblock]
    by_cases hne : k = ROOTINO
    · subst hne
      have hold : (inode s ROOTINO).type ≠ 0 := h.type _ Nat.one_pos hnext
      have haddrs : d.addrs = (inode s ROOTINO).addrs := by rw [hd]; rfl
      rw [hself, hdisk, inodeBlocks, inodeBlocks, if_neg htype, if_neg hold, blocks_of_addrs haddrs]
    · rw [hother k hne]
  have hmount := mount_held hsane hheld hsuper
  have hfile : ∀ k, ((view s₁).dinode k).type ≠ 0 →
      (FileOk (mount (finish s₁).sect).block ((view s₁).dinode k) ↔
        FileOk (view s).block ((view s₁).dinode k)) := by
    intro k ht
    have hind : ((view s₁).dinode k).addrs indirect ≠ 0 →
        (mount (finish s₁).sect).block (((view s₁).dinode k).addrs indirect) =
          (view s).block (((view s₁).dinode k).addrs indirect) := by
      intro ha
      rw [mount_inode (k := k) hheld (ind_mem ht ha), hblock]
    constructor
    · exact fun hok => ⟨fun bn hbn => by rw [← addrOf_congr hind]; exact hok.filled bn hbn, hok.size⟩
    · exact fun hok => ⟨fun bn hbn => by rw [addrOf_congr hind]; exact hok.filled bn hbn, hok.size⟩
  have hroot := rounded_ok (d := inode s ROOTINO) (by rw [hsize]; exact h.shape _ hk)
    (by rw [hsize]; exact hmax)
  rw [← hd, hsize] at hroot
  rw [← hd, ← hs₁, ← hroot]
  constructor
  · intro hok
    have hroot' := hok.file ROOTINO (by rw [mount_dinode hsuper, hself]; exact htype)
    rw [mount_dinode hsuper, hfile _ (by rw [hself]; exact htype), hself] at hroot'
    exact hroot'
  · intro hok
    refine ⟨hmount, fun k ht => ?_⟩
    rw [mount_dinode hsuper] at ht ⊢
    rw [hfile k ht]
    by_cases hne : k = ROOTINO
    · rw [hne, hself]
      exact hok
    · rw [hother k hne] at ht ⊢
      exact h.intact.file k ht

lemma main_exact (h : Accepted files) : wp Never (Mkfs.main files) (fun _ s =>
    (Intact nmeta (mount s.sect) ↔ (files.length + 2) % (BSIZE / DIRENT) ≠ 0)) start := by
  refine wp_mono (main_good h) ?_
  rintro - s' ⟨s, hgood, hnext, rfl⟩
  have hlen : (appended ROOTINO (mainOps files)).length = DIRENT * (files.length + 2) := by
    rw [appended_mainOps, if_pos rfl, List.length_append, List.length_append, length_encode,
      length_encode, length_entries]
    ring
  have hcount := h.count
  have hper : BSIZE = DIRENT * (BSIZE / DIRENT) := by decide
  have hsmall : DIRENT * (NINODES + 2) / BSIZE + 1 ≤ MAXFILE := by decide
  have hmul : DIRENT * (files.length + 2) ≤ DIRENT * (NINODES + 2) := Nat.mul_le_mul_left _ (by omega)
  rw [finish_intact hgood hnext, hlen]
  · have hpos : 0 < DIRENT := by decide
    have hmod : DIRENT * (files.length + 2) % BSIZE =
        DIRENT * ((files.length + 2) % (BSIZE / DIRENT)) := by
      calc DIRENT * (files.length + 2) % BSIZE
          = DIRENT * (files.length + 2) % (DIRENT * (BSIZE / DIRENT)) := by rw [← hper]
        _ = DIRENT * ((files.length + 2) % (BSIZE / DIRENT)) := Nat.mul_mod_mul_left ..
    rw [hmod, ne_eq, Nat.mul_eq_zero, not_or]
    exact ⟨fun hne => hne.2, fun hne => ⟨hpos.ne', hne⟩⟩
  · rw [hlen]
    have hdiv := Nat.div_le_div_right (c := BSIZE) hmul
    exact Nat.mul_le_mul_right _ (by omega)

/-- **The image of `mkfs`** is one that the kernel accepts, if and only if the entries of the root
directory do not fill its last block. -/
theorem main_intact (h : Accepted files) : wp Never (Mkfs.main files) (fun _ s =>
    (Intact nmeta (mount s.sect) ↔ (files.length + 2) % (BSIZE / DIRENT) ≠ 0)) start :=
  main_exact h

/-- Empty files with different names of two characters. -/
def empties (n : ℕ) : List Input :=
  (List.range n).map fun i => ⟨[97, UInt8.ofNat (48 + i)], []⟩

lemma empties_accepted (h : n + 1 < NINODES) : Accepted (empties n) := by
  have hstrip : ∀ b : UInt8, shortname [97, b] = [97, b] ∧ stripped [97, b] = [97, b] := by
    intro b
    have hshort : shortname [97, b] = [97, b] := by
      unfold shortname
      rw [if_neg]
      simp [strncmp, Mkfs.user]
    refine ⟨hshort, ?_⟩
    unfold stripped
    rw [hshort, if_neg (by simp [Mkfs.underscore])]
  have hnil : ∀ file ∈ empties n, contents file = [] := by
    intro file hf
    obtain ⟨i, -, rfl⟩ := List.mem_map.mp hf
    rfl
  have hlen : (empties n).length = n := by simp [empties]
  refine ⟨fun file hf => ?_, fun file hf => ?_, ?_, ?_⟩
  · obtain ⟨i, hi, rfl⟩ := List.mem_map.mp hf
    have hlt := List.mem_range.mp hi
    have hval : (UInt8.ofNat (48 + i)).toNat = 48 + i := by
      have hn : NINODES = 200 := rfl
      exact UInt8.toNat_ofNat_of_lt' (by simp only [UInt8.size]; omega)
    have hne : slash ≠ UInt8.ofNat (48 + i) := by
      intro heq
      have hs : slash.toNat = 47 := rfl
      rw [heq, hval] at hs
      omega
    refine ⟨?_, ?_⟩
    · rw [(hstrip _).1]
      simp only [List.mem_cons, List.not_mem_nil, or_false, not_or]
      exact ⟨by decide, hne⟩
    · have htwo : 2 ≤ DIRSIZ := by decide
      rw [(hstrip _).2]
      exact htwo
  · rw [hnil file hf]
    exact Nat.zero_le _
  · rw [hlen]
    exact h
  · have hsum : ((empties n).map fun file => blocksFor (contents file).length).sum = 0 := by
      refine List.sum_eq_zero fun b hb => ?_
      obtain ⟨file, hf, rfl⟩ := List.mem_map.mp hb
      rw [hnil file hf]
      rfl
    have hmono : blocksFor (DIRENT * (n + 2)) ≤ blocksFor (DIRENT * (NINODES + 2)) :=
      blocksFor_mono (Nat.mul_le_mul_left _ (by omega))
    have hroom : nmeta + blocksFor (DIRENT * (NINODES + 2)) ≤ FSSIZE := by decide
    unfold room
    rw [hsum, hlen]
    omega

/-- Sixty-two files and the two entries of the root fill a block. -/
theorem main_hole : Accepted (empties 62) ∧ ((empties 62).map fun f => stripped f.arg).Nodup ∧
    wp Never (Mkfs.main (empties 62)) (fun _ s => ¬Intact nmeta (mount s.sect)) start := by
  have haccepted : Accepted (empties 62) := empties_accepted (by decide)
  refine ⟨haccepted, by decide +kernel, wp_mono (main_exact haccepted) ?_⟩
  rintro - s hiff hok
  exact hiff.mp hok rfl

/-- With a file less there is a place left. -/
theorem main_intact_less : wp Never (Mkfs.main (empties 61)) (fun _ s =>
    (Intact nmeta (mount s.sect) ↔ ((empties 61).length + 2) % (BSIZE / DIRENT) ≠ 0)) start :=
  main_intact (empties_accepted (by decide))

end Xv6.Fs.Made
