import Xv6.Log.Commit

/-!
Crash atomicity of the log.

A disk denotes an abstract image: its contents outside the log once the transaction its
header announces is installed. Every block write of a commit and of a recovery leaves the
image alone, except the header write that commits, which replaces the logged blocks in it
all at once.
-/

namespace Xv6.Log.Crash

open Xv6.Disk Xv6.Disk.Writes Xv6.Param Xv6.Log.Commit

/-! ### The header block -/

lemma fillBlocks_word_lt (bs : List BlockNo) (i j : ℕ) (hb : Block) (h : j ≤ i) :
    word (fillBlocks i bs hb) j = word hb j := by
  induction bs generalizing i hb with
  | nil => rfl
  | cons b bs ih => rw [fillBlocks, ih _ _ (by omega), word_setWord_ne _ _ (by omega)]

lemma fillBlocks_word (bs : List BlockNo) (i j : ℕ) (hb : Block) (hj : j < bs.length)
    (hlen : 4 * (i + bs.length) + 3 < BSIZE) :
    word (fillBlocks i bs hb) (i + j + 1) = bs.getD j 0 := by
  induction bs generalizing i j hb with
  | nil => simp at hj
  | cons b bs ih =>
    simp only [List.length_cons] at hj hlen
    rw [fillBlocks]
    cases j with
    | zero =>
      rw [fillBlocks_word_lt _ _ _ _ (by omega)]
      simpa using word_setWord_same hb b (i := i + 1) (by omega)
    | succ j =>
      have := ih (i + 1) j (setWord hb (i + 1) b) (by omega) (by omega)
      rw [List.getD_cons_succ, ← this]
      congr 1; omega

/-- A header written for the blocks `bs` announces exactly them. -/
lemma headBlocks_fillHead (bs : List BlockNo) (h : bs.length ≤ LOGBLOCKS) (hb : Block) :
    headCount (fillHead bs hb) = bs.length ∧ headBlocks (fillHead bs hb) = bs := by
  have h30 : bs.length ≤ 30 := h
  have hword : word (fillHead bs hb) 0 = UInt32.ofNat bs.length := by
    rw [fillHead, fillBlocks_word_lt _ _ _ _ (le_refl _), word_setWord_same _ _ (by decide)]
  have hcount : headCount (fillHead bs hb) = bs.length := by
    rw [headCount, hword, UInt32.toBitVec_ofNat', BitVec.toInt_ofNat',
      Int.bmod_eq_of_le (by omega) (by omega)]
    simp
  refine ⟨hcount, List.ext_getElem (by simp [headBlocks, hcount]) fun i h1 h2 => ?_⟩
  have hw := fillBlocks_word bs 0 i (setWord hb 0 (UInt32.ofNat bs.length)) h2
    (by simp [BSIZE]; omega)
  simp only [headBlocks, List.getElem_map, List.getElem_range]
  have hg : bs.getD i 0 = bs[i] := by simp [List.getD, h2]
  rw [fillHead, ← hg, ← hw]
  congr 1; omega

/-! ### The transaction a disk announces -/

variable (start : BlockNo)

/-- The blocks the header announces, each with the contents of its slot. -/
def pending (d : BlockNo → Block) : List (BlockNo × Block) :=
  (headBlocks (d start)).mapIdx fun i b => (b, d (slot start i))

/-- The abstract contents of the disk: what it holds once its log is installed. -/
def image (d : BlockNo → Block) : BlockNo → Block := apply d (pending start d)

/-- The log announces at most `LOGBLOCKS` blocks, all outside the log. -/
structure WellFormed (d : BlockNo → Block) : Prop where
  count : headCount (d start) ≤ LOGBLOCKS
  home : ∀ b ∈ headBlocks (d start), ¬ InLog start b

lemma headBlocks_length (hb : Block) : (headBlocks hb).length = headCount hb := by
  simp [headBlocks]

lemma pending_keys (d : BlockNo → Block) :
    (pending start d).map Prod.fst = headBlocks (d start) := by
  refine List.ext_getElem (by simp [pending]) fun i h1 h2 => ?_
  simp [pending]

lemma inLog_start : InLog start start := Or.inl rfl

lemma inLog_slot {i : ℕ} (h : i < LOGBLOCKS) : InLog start (slot start i) := Or.inr ⟨i, h, rfl⟩

lemma slot_ne_start {i : ℕ} (h : i < LOGBLOCKS) : slot start i ≠ start := by
  have h30 : i < 30 := h
  intro he
  have := congrArg UInt32.toNat (UInt32.add_eq_left.mp he)
  rw [UInt32.toNat_ofNat_of_lt' (by norm_num [UInt32.size]; omega)] at this
  simp at this

lemma slot_inj {i j : ℕ} (hi : i < LOGBLOCKS) (hj : j < LOGBLOCKS)
    (h : slot start i = slot start j) : i = j := by
  have hi30 : i < 30 := hi
  have hj30 : j < 30 := hj
  have := congrArg UInt32.toNat (UInt32.add_right_inj start |>.mp h)
  rw [UInt32.toNat_ofNat_of_lt' (by norm_num [UInt32.size]; omega),
    UInt32.toNat_ofNat_of_lt' (by norm_num [UInt32.size]; omega)] at this
  omega

/-- What a disk announces is read off the log area only. -/
lemma pending_congr {d e : BlockNo → Block} (hc : headCount (d start) ≤ LOGBLOCKS)
    (h : ∀ b, InLog start b → d b = e b) : pending start d = pending start e := by
  have hs := h start (inLog_start start)
  unfold pending
  rw [← hs]
  refine List.ext_getElem (by simp) fun i h1 h2 => ?_
  simp only [List.length_mapIdx, headBlocks_length] at h1
  simp only [List.getElem_mapIdx]
  rw [h _ (inLog_slot start (by omega))]

lemma pending_of_count_zero {d : BlockNo → Block} (h : headCount (d start) = 0) :
    pending start d = [] := by
  simp [pending, headBlocks, h]

/-- A header of count zero leaves the disk as it is. -/
lemma image_of_count_zero {d : BlockNo → Block} (h : headCount (d start) = 0) :
    image start d = d := by
  rw [image, pending_of_count_zero start h, apply_nil]

lemma writeHead_issued (m : Mach) :
    (writeHead start m).issued = m.issued ++ [(start, fillHead m.lh (m.buf start))] := by
  simp [writeHead, bwrite, setBuf]

lemma writeHead_buf_ne (m : Mach) {b : BlockNo} (h : b ≠ start) :
    (writeHead start m).buf b = m.buf b := Function.update_of_ne h _ _

/-! ### What a recovery writes -/

/-- Installing copies slots home in order; the slots themselves are not touched. -/
lemma installFrom_spec (bs : List BlockNo) (tail : ℕ) (m : Mach)
    (hout : ∀ b ∈ bs, ¬ InLog start b) (hlen : tail + bs.length ≤ LOGBLOCKS) :
    (installFrom start tail bs m).issued =
      m.issued ++ bs.mapIdx (fun i b => (b, m.buf (slot start (tail + i)))) ∧
    (∀ b, InLog start b → (installFrom start tail bs m).buf b = m.buf b) ∧
    (installFrom start tail bs m).lh = m.lh := by
  induction bs generalizing tail m with
  | nil => simp [installFrom]
  | cons b bs ih =>
    simp only [List.length_cons] at hlen
    have hb := hout b (by simp)
    have hframe : ∀ c, InLog start c →
        (bwrite b (setBuf b (m.buf (slot start tail)) m)).buf c = m.buf c := fun c hc =>
      Function.update_of_ne (by rintro rfl; exact hb hc) _ _
    obtain ⟨h1, h2, h3⟩ := ih (tail + 1) (bwrite b (setBuf b (m.buf (slot start tail)) m))
      (fun c hc => hout c (by simp [hc])) (by omega)
    refine ⟨?_, fun c hc => (h2 c hc).trans (hframe c hc), h3⟩
    have hslots : bs.mapIdx (fun i c => (c,
          (bwrite b (setBuf b (m.buf (slot start tail)) m)).buf (slot start (tail + 1 + i)))) =
        bs.mapIdx (fun i c => (c, m.buf (slot start (tail + (i + 1))))) := by
      refine List.ext_getElem (by simp) fun i hi _ => ?_
      simp only [List.length_mapIdx] at hi
      simp only [List.getElem_mapIdx]
      rw [hframe _ (inLog_slot start (by omega))]
      congr 3; omega
    rw [installFrom, h1, hslots]
    simp [bwrite, setBuf, List.mapIdx_cons]

/-- A recovery writes the announced blocks home, then clears the header. -/
lemma recover_issued {d : BlockNo → Block} (hw : WellFormed start d) :
    (recoverFromLog start (boot d)).issued =
      pending start d ++ [(start, fillHead [] (d start))] := by
  obtain ⟨h1, h2, -⟩ := installFrom_spec start (headBlocks (d start)) 0
    (readHead start (boot d)) hw.home (by rw [headBlocks_length, Nat.zero_add]; exact hw.count)
  have h3 := h2 start (inLog_start start)
  simp only [readHead, boot, List.nil_append, Nat.zero_add] at h1 h3
  simp only [recoverFromLog, installTrans, writeHead, bwrite, setBuf, readHead, boot,
    Function.update_self]
  rw [h1, h3]
  rfl

/-- The disk is what the writes made so far leave of the disk booted from. -/
def Traced (d : BlockNo → Block) (m : Mach) : Prop := m.disk = apply d m.issued

lemma traced_bwrite {d : BlockNo → Block} {m : Mach} (h : Traced d m) (b : BlockNo) :
    Traced d (bwrite b m) := by
  simp only [Traced, bwrite, apply_append, apply_cons, apply_nil] at h ⊢
  rw [h]

lemma traced_installFrom {d : BlockNo → Block} (bs : List BlockNo) (tail : ℕ) {m : Mach}
    (h : Traced d m) : Traced d (installFrom start tail bs m) := by
  induction bs generalizing tail m with
  | nil => exact h
  | cons b bs ih => exact ih _ (traced_bwrite (m := setBuf b _ m) h b)

lemma recovered_eq (d : BlockNo → Block) :
    recovered start d = apply d (recoverFromLog start (boot d)).issued :=
  traced_bwrite (m := setBuf start _ _)
    (traced_installFrom start _ 0 (m := readHead start (boot d)) (by simp [Traced, boot, readHead]))
    start

lemma headCount_cleared (hb : Block) : headCount (fillHead [] hb) = 0 :=
  (headBlocks_fillHead [] (by decide) hb).1

/-- The disk after the blocks `p` are written home and the header is cleared. -/
lemma cleared_spec {d e : BlockNo → Block} (he : headCount (e start) = 0)
    (hd : ∀ b, ¬ InLog start b → e b = image start d b) :
    WellFormed start e ∧ ∀ b, ¬ InLog start b → image start e b = image start d b := by
  refine ⟨⟨by omega, fun b hb => ?_⟩, fun b hb => ?_⟩
  · simp [headBlocks, he] at hb
  · rw [image_of_count_zero start he, hd b hb]

/-- Home writes of announced blocks leave the announcement and the image alone. -/
lemma installing_spec {d : BlockNo → Block} (hw : WellFormed start d) (k : ℕ) :
    WellFormed start (cut k d (pending start d)) ∧
    image start (cut k d (pending start d)) = image start d := by
  have hlog : ∀ b, InLog start b → d b = cut k d (pending start d) b := fun b hb => by
    refine (apply_of_notMem (fun hk => ?_) d).symm
    have hmem : b ∈ (pending start d).map Prod.fst := by
      rw [List.map_take] at hk; exact List.mem_of_mem_take hk
    rw [pending_keys] at hmem
    exact hw.home b hmem hb
  have hs := hlog start (inLog_start start)
  refine ⟨⟨hs ▸ hw.count, fun b hb => hw.home b (by rwa [hs])⟩, ?_⟩
  rw [image, ← pending_congr start hw.count hlog, apply_cut, image]

/-- Clearing the header of a disk whose blocks are home leaves the image alone. -/
lemma clearing_spec (d : BlockNo → Block) (hb : Block) :
    let e := Function.update (image start d) start (fillHead [] hb)
    headCount (e start) = 0 ∧ ∀ b, ¬ InLog start b → e b = image start d b := by
  refine ⟨by simp [headCount_cleared], fun b hb => Function.update_of_ne ?_ _ _⟩
  rintro rfl; exact hb (inLog_start _)

/-- Redoing the announced writes and clearing the header keeps the image, wherever it is
cut. -/
lemma redo_spec {d : BlockNo → Block} (hw : WellFormed start d) (hb : Block) (k : ℕ) :
    WellFormed start (cut k d (pending start d ++ [(start, fillHead [] hb)])) ∧
    ∀ b, ¬ InLog start b →
      image start (cut k d (pending start d ++ [(start, fillHead [] hb)])) b = image start d b := by
  rcases Nat.lt_or_ge (pending start d).length k with hk | hk
  · have hall : cut k d (pending start d ++ [(start, fillHead [] hb)]) =
        Function.update (image start d) start (fillHead [] hb) := by
      rw [cut, List.take_of_length_le (by simp; omega), apply_append]; rfl
    rw [hall]
    obtain ⟨h0, h1⟩ := clearing_spec start d hb
    exact cleared_spec start h0 h1
  · have hpart : cut k d (pending start d ++ [(start, fillHead [] hb)]) =
        cut k d (pending start d) := by
      rw [cut, List.take_append_of_le_length hk]; rfl
    rw [hpart]
    obtain ⟨h0, h1⟩ := installing_spec start hw k
    exact ⟨h0, fun b _ => by rw [h1]⟩

/-- **A cut recovery keeps the image**, wherever it is cut. -/
lemma recoverCut_spec {d : BlockNo → Block} (hw : WellFormed start d) (k : ℕ) :
    WellFormed start (recoverCut start d k) ∧
    ∀ b, ¬ InLog start b → image start (recoverCut start d k) b = image start d b := by
  unfold recoverCut
  rw [recover_issued start hw]
  exact redo_spec start hw _ k

/-- Any number of cut recoveries keep the image. -/
lemma recoverCuts_spec {d : BlockNo → Block} (hw : WellFormed start d) (ks : List ℕ) :
    WellFormed start (ks.foldl (recoverCut start) d) ∧
    ∀ b, ¬ InLog start b → image start (ks.foldl (recoverCut start) d) b = image start d b := by
  induction ks generalizing d with
  | nil => exact ⟨hw, fun _ _ => rfl⟩
  | cons k ks ih =>
    obtain ⟨h0, h1⟩ := recoverCut_spec start hw k
    obtain ⟨h2, h3⟩ := ih h0
    exact ⟨h2, fun b hb => (h3 b hb).trans (h1 b hb)⟩

/-- A complete recovery makes the image real and empties the log. -/
lemma recovered_spec {d : BlockNo → Block} (hw : WellFormed start d) :
    headCount (recovered start d start) = 0 ∧
    ∀ b, ¬ InLog start b → recovered start d b = image start d b := by
  have h : recovered start d =
      Function.update (image start d) start (fillHead [] (d start)) := by
    rw [recovered_eq, recover_issued start hw, apply_append]; rfl
  rw [h]
  exact clearing_spec start d (d start)

/-! ### What a commit writes -/

/-- Writing the log fills the slots in order; no other buffer changes. -/
lemma writeLogFrom_spec (bs : List BlockNo) (tail : ℕ) (m : Mach)
    (hout : ∀ b ∈ bs, ¬ InLog start b) (hlen : tail + bs.length ≤ LOGBLOCKS) :
    (writeLogFrom start tail bs m).issued =
      m.issued ++ bs.mapIdx (fun i b => (slot start (tail + i), m.buf b)) ∧
    (∀ i, i < tail → (writeLogFrom start tail bs m).buf (slot start i) = m.buf (slot start i)) ∧
    (∀ i (hi : i < bs.length),
      (writeLogFrom start tail bs m).buf (slot start (tail + i)) = m.buf bs[i]) ∧
    (writeLogFrom start tail bs m).buf start = m.buf start ∧
    (writeLogFrom start tail bs m).lh = m.lh := by
  induction bs generalizing tail m with
  | nil => simp [writeLogFrom]
  | cons b bs ih =>
    simp only [List.length_cons] at hlen
    set m' := bwrite (slot start tail) (setBuf (slot start tail) (m.buf b) m) with hm'
    have hframe : ∀ c, c ≠ slot start tail → m'.buf c = m.buf c := fun c hc =>
      Function.update_of_ne hc _ _
    have hhome : ∀ c ∈ bs, m'.buf c = m.buf c := fun c hc => hframe c fun h =>
      hout c (by simp [hc]) (h ▸ inLog_slot start (by omega))
    obtain ⟨h1, h2, h3, h4, h5⟩ := ih (tail + 1) m' (fun c hc => hout c (by simp [hc])) (by omega)
    refine ⟨?_, fun i hi => ?_, fun i hi => ?_, ?_, h5⟩
    · have hbs : bs.mapIdx (fun i c => (slot start (tail + 1 + i), m'.buf c)) =
          bs.mapIdx (fun i c => (slot start (tail + (i + 1)), m.buf c)) := by
        refine List.ext_getElem (by simp) fun i hi _ => ?_
        simp only [List.length_mapIdx] at hi
        simp only [List.getElem_mapIdx]
        rw [hhome _ (List.getElem_mem _)]
        congr 2; omega
      rw [writeLogFrom, ← hm', h1, hbs]
      simp [hm', bwrite, setBuf, List.mapIdx_cons]
    · rw [writeLogFrom, ← hm', h2 i (by omega)]
      exact hframe _ fun h => by have := slot_inj start (by omega) (by omega) h; omega
    · rw [writeLogFrom, ← hm']
      cases i with
      | zero => exact (h2 tail (by omega)).trans (by simp [hm', bwrite, setBuf])
      | succ i =>
        simp only [List.length_cons] at hi
        have hslot := h3 i (by omega)
        rw [show tail + (i + 1) = tail + 1 + i by omega, hslot, hhome _ (List.getElem_mem _)]
        rfl
    · rw [writeLogFrom, ← hm', h4]
      exact hframe _ (slot_ne_start start (by omega)).symm

section Transaction

variable {d : BlockNo → Block} {tx : List (BlockNo × Block)}

/-- The slot writes of a commit. -/
def slotWrites (tx : List (BlockNo × Block)) : List (BlockNo × Block) :=
  tx.mapIdx fun i w => (slot start i, w.2)

/-- A block of the transaction is cached with its new contents. -/
lemma ready_buf (hnd : (tx.map Prod.fst).Nodup) {w : BlockNo × Block} (hw : w ∈ tx) :
    (ready d tx).buf w.1 = w.2 := apply_of_mem hnd hw d

variable (hlen : tx.length ≤ LOGBLOCKS) (hout : ∀ b ∈ tx.map Prod.fst, ¬ InLog start b)
include hlen hout

/-- The disk on which the header of the transaction has just been written. -/
lemma committed_spec :
    let d' := apply d (slotWrites start tx ++ [(start, fillHead (tx.map Prod.fst) (d start))])
    WellFormed start d' ∧ pending start d' = tx ∧ ∀ b, ¬ InLog start b → d' b = d b := by
  intro d'
  have hb := headBlocks_fillHead (tx.map Prod.fst) (by simpa using hlen) (d start)
  have hstart : d' start = fillHead (tx.map Prod.fst) (d start) := by
    simp [d', apply_append]
  have hkeys : (slotWrites start tx).map Prod.fst =
      (List.range tx.length).map (slot start) := by
    refine List.ext_getElem (by simp [slotWrites]) fun i h1 h2 => ?_
    simp [slotWrites]
  have hslot : ∀ i (hi : i < tx.length), d' (slot start i) = tx[i].2 := fun i hi => by
    have hmem : (slot start i, tx[i].2) ∈ slotWrites start tx :=
      List.mem_mapIdx.mpr ⟨i, hi, rfl⟩
    have hnodup : ((slotWrites start tx).map Prod.fst).Nodup := by
      rw [hkeys]
      refine List.nodup_range.map_on fun i hi j hj h => ?_
      rw [List.mem_range] at hi hj
      exact slot_inj start (by omega) (by omega) h
    simp only [d', apply_append, apply_cons, apply_nil]
    rw [Function.update_of_ne (slot_ne_start start (by omega))]
    exact apply_of_mem hnodup hmem d
  refine ⟨⟨by rw [hstart, hb.1]; simpa using hlen, fun b h => ?_⟩, ?_, fun b hbl => ?_⟩
  · rw [hstart, hb.2] at h
    exact hout b h
  · unfold pending
    rw [hstart, hb.2]
    refine List.ext_getElem (by simp) fun i h1 h2 => ?_
    simp [hslot i h2]
  · refine apply_of_notMem (fun h => ?_) d
    rw [List.map_append, hkeys] at h
    simp only [List.map_cons, List.map_nil, List.mem_append, List.mem_map, List.mem_range,
      List.mem_singleton] at h
    rcases h with ⟨i, hi, rfl⟩ | rfl
    · exact hbl (inLog_slot start (by omega))
    · exact hbl (inLog_start _)

variable (hnd : (tx.map Prod.fst).Nodup)
include hnd

/-- A commit writes the slots, the header, the home blocks and the empty header. -/
lemma commit_issued (hne : tx ≠ []) :
    ∃ hb, (commit start (ready d tx)).issued = slotWrites start tx ++
      (start, fillHead (tx.map Prod.fst) (d start)) :: (tx ++ [(start, fillHead [] hb)]) := by
  have hpos : 0 < (ready d tx).lh.length := by
    simpa [ready] using List.length_pos_iff.mpr hne
  have hd : (ready d tx).buf start = d start :=
    apply_of_notMem (fun h => hout start h (inLog_start start)) d
  obtain ⟨w1, -, w3, w4, w5⟩ := writeLogFrom_spec start (tx.map Prod.fst) 0 (ready d tx) hout
    (by simpa using hlen)
  set m1 := writeLogFrom start 0 (tx.map Prod.fst) (ready d tx) with hm1
  obtain ⟨i1, i2, -⟩ := installFrom_spec start (tx.map Prod.fst) 0 (writeHead start m1) hout
    (by simpa using hlen)
  have hslots : (tx.map Prod.fst).mapIdx (fun i b => (slot start (0 + i), (ready d tx).buf b)) =
      slotWrites start tx := by
    refine List.ext_getElem (by simp [slotWrites]) fun i h1 h2 => ?_
    simp [slotWrites, ready_buf hnd (List.getElem_mem _)]
  have hhome : (tx.map Prod.fst).mapIdx
      (fun i b => (b, (writeHead start m1).buf (slot start (0 + i)))) = tx := by
    refine List.ext_getElem (by simp) fun i h1 h2 => ?_
    have hi : i < LOGBLOCKS := by omega
    have hbuf : (writeHead start m1).buf (slot start (0 + i)) = tx[i].2 := by
      have h3 := w3 i (by simpa using h2)
      simp only [List.getElem_map, ready_buf hnd (List.getElem_mem h2)] at h3
      rw [← h3]
      exact writeHead_buf_ne start m1 (by rw [Nat.zero_add]; exact slot_ne_start start hi)
    rw [List.getElem_mapIdx, hbuf, List.getElem_map]
  have hissued : (writeHead start m1).issued =
      slotWrites start tx ++ [(start, fillHead (tx.map Prod.fst) (d start))] := by
    rw [writeHead_issued, w1, w4, w5, hd, hslots]
    simp [ready]
  refine ⟨(installTrans start (writeHead start (writeLog start (ready d tx)))).buf start, ?_⟩
  have hlog : writeLog start (ready d tx) = m1 := rfl
  have hinst : installTrans start (writeHead start m1) =
      installFrom start 0 (tx.map Prod.fst) (writeHead start m1) := by
    rw [installTrans, show (writeHead start m1).lh = tx.map Prod.fst from w5]
  rw [commit, if_pos hpos, hlog, hinst, writeHead_issued]
  simp only [i1, hissued, hhome]
  simp

/-- **A cut commit leaves the old image or the new one**: the new one exactly if the cut
comes after the header write, which follows the slot writes. -/
lemma commitCut_spec (hclean : headCount (d start) = 0) (k : ℕ) :
    WellFormed start (commitCut start d tx k) ∧
    ∀ b, ¬ InLog start b → image start (commitCut start d tx k) b =
      if tx.length < k then apply d tx b else d b := by
  by_cases hne : tx = []
  · subst hne
    have h : commitCut start d [] k = d := by simp [commitCut, cut, commit, ready]
    rw [h]
    exact ⟨⟨by omega, fun b hb => by simp [headBlocks, hclean] at hb⟩,
      fun b _ => by simp [image_of_count_zero start hclean]⟩
  obtain ⟨hb, hissued⟩ := commit_issued start hlen hout hnd (d := d) hne
  have hsl : (slotWrites start tx).length = tx.length := by simp [slotWrites]
  unfold commitCut
  rw [hissued]
  split_ifs with hk
  · -- the header is on the disk: what follows redoes the announced writes
    obtain ⟨hw, hp, hframe⟩ := committed_spec start hlen hout (d := d)
    set d' := apply d (slotWrites start tx ++ [(start, fillHead (tx.map Prod.fst) (d start))])
    obtain ⟨j, rfl⟩ : ∃ j, k = tx.length + 1 + j := ⟨k - (tx.length + 1), by omega⟩
    have hcut : cut (tx.length + 1 + j) d (slotWrites start tx ++
        (start, fillHead (tx.map Prod.fst) (d start)) :: (tx ++ [(start, fillHead [] hb)])) =
        cut j d' (pending start d' ++ [(start, fillHead [] hb)]) := by
      have hl : tx.length + 1 + j = (slotWrites start tx ++
          [(start, fillHead (tx.map Prod.fst) (d start))]).length + j := by simp [hsl]
      rw [hp, cut, List.append_cons, hl, List.take_length_add_append, apply_append]
      rfl
    rw [hcut]
    obtain ⟨h0, h1⟩ := redo_spec start hw hb j
    refine ⟨h0, fun b hbl => ?_⟩
    rw [h1 b hbl, image, hp]
    exact apply_congr fun _ => hframe b hbl
  · -- only slots were written: the header still announces nothing
    have hcut : ∀ b, (∀ i < LOGBLOCKS, b ≠ slot start i) → cut k d (slotWrites start tx ++
        (start, fillHead (tx.map Prod.fst) (d start)) :: (tx ++ [(start, fillHead [] hb)])) b =
        d b := fun b hb => by
      rw [cut, List.take_append_of_le_length (by omega)]
      refine apply_of_notMem (fun h => ?_) d
      rw [List.map_take] at h
      obtain ⟨w, hw, rfl⟩ := List.mem_map.mp (List.mem_of_mem_take h)
      obtain ⟨i, hi, rfl⟩ := List.mem_mapIdx.mp hw
      exact hb i (by omega) rfl
    have h0 := hcut start fun i hi => (slot_ne_start start hi).symm
    refine ⟨⟨by rw [h0]; omega, fun b hb => ?_⟩, fun b hbl => ?_⟩
    · rw [h0] at hb; simp [headBlocks, hclean] at hb
    · rw [image_of_count_zero start (by rw [h0]; exact hclean)]
      exact hcut b fun i hi h => hbl (h ▸ inLog_slot start hi)

end Transaction

/-- **Crash atomicity.** Stop a commit after any number of block writes, then run any number
of recoveries, each cut anywhere: a complete recovery leaves every block outside the log as
it was, or with the whole transaction installed, the latter exactly if the header write, the
one after the `tx.length` log writes, reached the disk, and it leaves an empty log. -/
theorem crash_atomic {d : BlockNo → Block} {tx : List (BlockNo × Block)}
    (hclean : headCount (d start) = 0) (hlen : tx.length ≤ LOGBLOCKS)
    (hnd : (tx.map Prod.fst).Nodup) (hout : ∀ b ∈ tx.map Prod.fst, ¬ InLog start b)
    (k : ℕ) (ks : List ℕ) :
    headCount (recovered start (crashed start d tx k ks) start) = 0 ∧
    (∀ b, ¬ InLog start b → recovered start (crashed start d tx k ks) b =
      if tx.length < k then apply d tx b else d b) ∧
    (∀ b, ¬ InLog start b → b ∉ tx.map Prod.fst →
      recovered start (crashed start d tx k ks) b = d b) ∧
    (tx ≠ [] → (commit start (ready d tx)).issued[tx.length]? =
      some (start, fillHead (tx.map Prod.fst) (d start))) := by
  obtain ⟨h0, h1⟩ := commitCut_spec start hlen hout hnd hclean k
  obtain ⟨h2, h3⟩ := recoverCuts_spec start h0 ks
  obtain ⟨h4, h5⟩ := recovered_spec start h2
  have hall : ∀ b, ¬ InLog start b → recovered start (crashed start d tx k ks) b =
      if tx.length < k then apply d tx b else d b := fun b hb =>
    (h5 b hb).trans ((h3 b hb).trans (h1 b hb))
  refine ⟨h4, hall, fun b hb hmem => ?_, fun hne => ?_⟩
  · rw [hall b hb, apply_of_notMem hmem, ite_self]
  · obtain ⟨hb, hissued⟩ := commit_issued start hlen hout hnd (d := d) hne
    have hsl : (slotWrites start tx).length = tx.length := by simp [slotWrites]
    rw [hissued, List.getElem?_append_right hsl.le, hsl, Nat.sub_self, List.getElem?_cons_zero]

/-- A transaction of one block, cut after its header write; the first recovery is cut after
it has installed that block. -/
theorem crash_atomic_one : recovered 2
    (crashed 2 (fun _ => zero) [(50, fun _ => 1)] 2 [1]) 50 = fun _ => 1 := by
  have hout : ¬ InLog 2 50 := by decide +kernel
  have h := @crash_atomic 2 (fun _ => zero) [(50, fun _ => 1)] (by simp [headCount])
    (by simp [LOGBLOCKS, MAXOPBLOCKS]) (by simp) (by simpa using hout) 2 [1]
  rw [h.2.1 50 hout]
  simp

end Xv6.Log.Crash
