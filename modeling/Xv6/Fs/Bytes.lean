import Xv6.Fs.Sound

/-!
The content of a file as a sequence of bytes: what `readi` returns of it and what `writei` makes
of it, also when the disk is full or a copy from the user fails.
-/

namespace Xv6.Fs.Bytes

open Xv6.Conc Xv6.Data.Effect Xv6.Data.Effect.Eff Xv6.Disk Xv6.Fs.Content Xv6.Fs.Untouched
  Xv6.Fs.Sound

variable {nmeta inum : ℕ} {s s' : Store} {ip ip' : Dinode} {dn : ℕ → Dinode} {blk : BlockNo → Block}
  {loose : Multiset BlockNo} {n tot off fuel k : ℕ}

/-- The byte at offset `k` of a file. -/
def content (blk : BlockNo → Block) (d : Dinode) (k : ℕ) : UInt8 :=
  byte (blk (addrOf blk d (k / BSIZE))) (k % BSIZE)

/-- What a file reads as. -/
def bytes (blk : BlockNo → Block) (d : Dinode) : List UInt8 :=
  (List.range d.size).map (content blk d)

@[simp] lemma length_bytes : (bytes blk ip).length = ip.size := by
  simp [bytes]

lemma BSIZE_pos : 0 < BSIZE := by decide

/-- Within a block. -/
lemma div_mod_add {i : ℕ} (h : off % BSIZE + i < BSIZE) :
    (off + i) / BSIZE = off / BSIZE ∧ (off + i) % BSIZE = off % BSIZE + i := by
  have hmod := Nat.div_add_mod off BSIZE
  have heq : off + i = (off % BSIZE + i) + BSIZE * (off / BSIZE) := by omega
  constructor
  · rw [heq, Nat.add_mul_div_left _ _ BSIZE_pos, Nat.div_eq_of_lt h, Nat.zero_add]
  · rw [heq, Nat.add_mul_mod_self_left, Nat.mod_eq_of_lt h]

lemma content_add {i : ℕ} (h : off % BSIZE + i < BSIZE) : content blk ip (off + i) =
    byte (blk (addrOf blk ip (off / BSIZE))) (off % BSIZE + i) := by
  obtain ⟨h1, h2⟩ := div_mod_add h
  unfold content
  rw [h1, h2]

lemma chunk_fits : off % BSIZE + chunk n tot off ≤ BSIZE := by
  have h1 : chunk n tot off ≤ BSIZE - off % BSIZE := Nat.min_le_right _ _
  have h2 := Nat.mod_lt off BSIZE_pos
  omega

/-! ### Reading -/

lemma slice_eq : slice (blk (addrOf blk ip (off / BSIZE))) (off % BSIZE) (chunk n tot off) =
    (List.range (chunk n tot off)).map fun i => content blk ip (off + i) := by
  refine List.map_congr_left fun i hi => ?_
  have hfit : off % BSIZE + chunk n tot off ≤ BSIZE := chunk_fits
  rw [content_add (by have := List.mem_range.mp hi; omega)]

lemma map_range_add {α : Type} (f : ℕ → α) (a b : ℕ) : (List.range (a + b)).map f =
    (List.range a).map f ++ (List.range b).map fun i => f (a + i) := by
  rw [List.range_add, List.map_append, List.map_map]
  rfl

lemma readLoop_bytes {writable : ℕ → Bool} {got : List UInt8} (hw : ∀ i, writable i = true)
    (hf : Filled s.block ip (off + (n - tot))) (hmax : off + (n - tot) ≤ MAXFILE * BSIZE)
    (htot : tot ≤ n) (hfuel : n - tot ≤ fuel) :
    wp Never (readLoop writable n fuel ip tot off got) (fun r s' => s' = s ∧ r = (ip, (n : ℤ),
      got ++ (List.range (n - tot)).map fun i => content s.block ip (off + i))) s := by
  induction fuel generalizing tot off got with
  | zero =>
    have hz : n - tot = 0 := by omega
    have heq : tot = n := by omega
    rw [hz, heq]
    exact ⟨rfl, by simp⟩
  | succ fuel ih =>
    unfold readLoop
    rw [wp_ite]
    refine ⟨fun hlt => ?_, fun hge => ?_⟩
    swap
    · have hz : n - tot = 0 := by omega
      have heq : tot = n := by omega
      rw [hz, heq]
      exact ⟨rfl, by simp⟩
    have hle := Nat.div_mul_le_self off BSIZE
    have hbn : off / BSIZE < MAXFILE := by
      rw [Nat.div_lt_iff_lt_mul BSIZE_pos]
      omega
    have hne : addrOf s.block ip (off / BSIZE) ≠ 0 := hf _ (by omega)
    refine wp_call (bmap_hit hbn hne) ?_
    rintro r s' ⟨hs, hr⟩
    subst hs hr
    change wp Never (if addrOf s'.block ip (off / BSIZE) = 0 then _ else _) _ s'
    rw [wp_ite]
    refine ⟨fun hz => absurd hz hne, fun _ => ?_⟩
    rw [wp_bind, wp_look, wp_ite]
    refine ⟨fun _ => ?_, fun hbad => absurd (List.all_eq_true.mpr fun i _ => hw (tot + i)) hbad⟩
    have hc := chunk_le n tot off
    have hpos : 0 < chunk n tot off := chunk_pos hlt
    have heq : off + chunk n tot off + (n - (tot + chunk n tot off)) = off + (n - tot) := by omega
    refine wp_mono (ih (by rwa [heq]) (by omega) (by omega) (by omega)) ?_
    rintro r s'' ⟨h1, h2⟩
    refine ⟨h1, h2.trans ?_⟩
    have hsplit : n - tot = chunk n tot off + (n - (tot + chunk n tot off)) := by omega
    rw [slice_eq, List.append_assoc]
    conv_rhs => rw [hsplit, map_range_add]
    simp only [Nat.add_assoc]

/-- The bytes of a file from `off` on. -/
lemma drop_bytes (hoff : off ≤ ip.size) : (bytes blk ip).drop off =
    (List.range (ip.size - off)).map fun i => content blk ip (off + i) := by
  have hsplit : ip.size = off + (ip.size - off) := by omega
  unfold bytes
  conv_lhs => rw [hsplit, map_range_add]
  rw [List.drop_append_of_le_length (by simp), List.drop_of_length_le (by simp), List.nil_append]

/-- **Reading** returns the slice that is asked for, as far as the file goes. -/
theorem readi_bytes {writable : ℕ → Bool} (h : FileOk s.block ip) (hw : ∀ i, writable i = true)
    (hoff : off < 2 ^ 32) (hn : n < 2 ^ 32) :
    wp Never (readi ip writable off n) (fun r s' => s' = s ∧ r.1 = ip ∧ r.2.1 = r.2.2.length ∧
      r.2.2 = if off + n < 2 ^ 32 then ((bytes s.block ip).drop off).take n else []) s := by
  unfold readi
  rw [wp_ite]
  refine ⟨fun hbad => ⟨rfl, rfl, rfl, ?_⟩, fun hgood => ?_⟩
  · split_ifs with hlt
    · have hbig : off > ip.size := by
        rw [Nat.mod_eq_of_lt hlt] at hbad
        omega
      rw [List.drop_of_length_le (by rw [length_bytes]; omega), List.take_nil]
    · rfl
  have hle : off ≤ ip.size := by omega
  have hlt : off + n < 2 ^ 32 := by
    by_contra hge
    have hwrap : (off + n) % 2 ^ 32 = off + n - 2 ^ 32 := by
      rw [Nat.mod_eq_sub_mod (by omega), Nat.mod_eq_of_lt (by omega)]
    omega
  have hsize := h.size
  have hcut : (if off + n > ip.size then ip.size - off else n) = min n (ip.size - off) := by
    split_ifs <;> omega
  change wp Never (readLoop writable (if off + n > ip.size then ip.size - off else n) _ ip 0 off [])
    _ s
  rw [hcut]
  refine wp_mono (readLoop_bytes hw (fun bn hbn => h.filled bn (by omega)) (by omega)
    (Nat.zero_le _) le_rfl) fun r s' ⟨h1, h2⟩ => ?_
  subst h2
  refine ⟨h1, rfl, by simp, ?_⟩
  rw [if_pos hlt, drop_bytes hle, ← List.map_take, List.take_range]
  rfl

/-! ### Writing -/

/-- The bytes before the first that is missing. -/
lemma prefix_spec (l : List (Option UInt8)) :
    (l.takeWhile Option.isSome).reduceOption.length ≤ l.length ∧
    (∀ i < (l.takeWhile Option.isSome).reduceOption.length,
      l[i]? = some (some ((l.takeWhile Option.isSome).reduceOption.getD i 0))) ∧
    ((l.takeWhile Option.isSome).reduceOption.length < l.length →
      l[(l.takeWhile Option.isSome).reduceOption.length]? = some none) := by
  induction l with
  | nil => exact ⟨le_rfl, fun i hi => absurd hi (Nat.not_lt_zero i), fun h => absurd h (lt_irrefl _)⟩
  | cons o l ih =>
    cases o with
    | none => exact ⟨Nat.zero_le _, fun i hi => absurd hi (Nat.not_lt_zero i), fun _ => rfl⟩
    | some b =>
      obtain ⟨h1, h2, h3⟩ := ih
      have heq : ((some b :: l).takeWhile Option.isSome).reduceOption =
          b :: (l.takeWhile Option.isSome).reduceOption := by
        rw [List.takeWhile_cons_of_pos rfl]
        rfl
      rw [heq]
      refine ⟨Nat.succ_le_succ h1, fun i hi => ?_, fun hlt => ?_⟩
      · cases i with
        | zero => rfl
        | succ i => exact h2 i (Nat.lt_of_succ_lt_succ hi)
      · exact h3 (Nat.lt_of_succ_lt_succ hlt)

/-- What `copyin` gets: all bytes up to the first that cannot be read. -/
lemma copyin_spec (src : ℕ → Option UInt8) (tot m : ℕ) :
    (copyin src tot m).length ≤ m ∧
    (∀ i < (copyin src tot m).length, src (tot + i) = some ((copyin src tot m).getD i 0)) ∧
    ((copyin src tot m).length < m → src (tot + (copyin src tot m).length) = none) := by
  obtain ⟨h1, h2, h3⟩ := prefix_spec ((List.range m).map fun i => src (tot + i))
  have hget : ∀ i, i < m → ((List.range m).map fun i => src (tot + i))[i]? = some (src (tot + i)) :=
    fun i hi => by simp [hi]
  rw [List.length_map, List.length_range] at h1 h3
  refine ⟨h1, fun i hi => ?_, fun hlt => ?_⟩
  · have := h2 i hi
    rw [hget i (lt_of_lt_of_le hi h1)] at this
    exact Option.some.inj this
  · have := h3 hlt
    change ((List.range m).map fun i => src (tot + i))[(copyin src tot m).length]? = _ at this
    rw [hget _ hlt] at this
    exact Option.some.inj this

lemma one_inj {ι : Type} [DecidableEq ι] {t : Finset ι} {f : ι → BlockNo} {i j : ι}
    (hn : (∑ i ∈ t, one (f i)).Nodup) (hi : i ∈ t) (hj : j ∈ t) (hz : f i ≠ 0)
    (he : f i = f j) : i = j := by
  by_contra hij
  rw [← Finset.add_sum_erase t _ hi, Multiset.nodup_add] at hn
  refine Multiset.disjoint_left.mp hn.2.2 (mem_one.mpr ⟨hz, rfl⟩) ?_
  rw [Multiset.mem_sum]
  exact ⟨j, Finset.mem_erase.mpr ⟨Ne.symm hij, hj⟩, mem_one.mpr ⟨he ▸ hz, he⟩⟩

/-- Two offsets in different blocks of the file are in different blocks of the disk. -/
lemma addrOf_inj {a b : ℕ} (hn : (blocks blk ip).Nodup) (hz : addrOf blk ip a ≠ 0)
    (he : addrOf blk ip a = addrOf blk ip b) : a = b := by
  have ha := addrOf_lt hz
  have hb := addrOf_lt (he ▸ hz)
  unfold blocks at hn
  obtain ⟨hn1, hn2, hn3⟩ := Multiset.nodup_add.mp hn
  have hdir : ∀ c : ℕ, c < NDIRECT → addrOf blk ip c = ip.addrs (Fin.ofNat (NDIRECT + 1) c) :=
    fun c hc => if_pos hc
  -- an entry of the indirect block
  have hent : ∀ c : ℕ, ¬c < NDIRECT → addrOf blk ip c ≠ 0 → ip.addrs indirect ≠ 0 ∧
      addrOf blk ip c = word (blk (ip.addrs indirect)) (c - NDIRECT) := by
    intro c hc hcz
    unfold addrOf at hcz ⊢
    rw [if_neg hc] at hcz ⊢
    split_ifs at hcz ⊢ with h0
    · exact absurd rfl hcz
    · exact ⟨h0, rfl⟩
  have hmem : ∀ c : ℕ, ¬c < NDIRECT → c < MAXFILE → addrOf blk ip c ≠ 0 →
      addrOf blk ip c ∈ entryBlocks blk (ip.addrs indirect) := by
    intro c hc hlt hcz
    obtain ⟨h0, hw⟩ := hent c hc hcz
    unfold entryBlocks
    rw [if_neg h0, Multiset.mem_sum]
    exact ⟨c - NDIRECT, Finset.mem_range.mpr (by simp only [MAXFILE] at hlt; omega),
      mem_one.mpr ⟨hw ▸ hcz, hw⟩⟩
  have hin : ∀ c : ℕ, c < NDIRECT → addrOf blk ip c ≠ 0 →
      addrOf blk ip c ∈ ∑ i, one (ip.addrs i) := by
    intro c hc hcz
    rw [Multiset.mem_sum]
    exact ⟨_, Finset.mem_univ _, mem_one.mpr ⟨hdir c hc ▸ hcz, hdir c hc⟩⟩
  by_cases h1 : a < NDIRECT <;> by_cases h2 : b < NDIRECT
  · rw [hdir a h1, hdir b h2] at he
    rw [hdir a h1] at hz
    have := congrArg Fin.val (one_inj hn1 (Finset.mem_univ _) (Finset.mem_univ _) hz he)
    simp only [Fin.ofNat, Nat.mod_eq_of_lt (show a < NDIRECT + 1 by omega),
      Nat.mod_eq_of_lt (show b < NDIRECT + 1 by omega)] at this
    exact this
  · exact absurd (he ▸ hmem b h2 hb (he ▸ hz)) (Multiset.disjoint_left.mp hn3 (hin a h1 hz))
  · exact absurd (hmem a h1 ha hz) (Multiset.disjoint_left.mp hn3 (he ▸ hin b h2 (he ▸ hz)))
  · obtain ⟨h0, hwa⟩ := hent a h1 hz
    obtain ⟨-, hwb⟩ := hent b h2 (he ▸ hz)
    unfold entryBlocks at hn2
    rw [if_neg h0] at hn2
    have := one_inj hn2 (Finset.mem_range.mpr (by simp only [MAXFILE] at ha; omega))
      (Finset.mem_range.mpr (by simp only [MAXFILE] at hb; omega)) (hwa ▸ hz)
      (hwa.symm.trans (he.trans hwb))
    omega

/-- Mapping a block leaves what the file reads as where it has blocks. -/
lemma content_mapped (h : Mapped nmeta inum dn loose s ip s' ip')
    (hz : addrOf s.block ip (k / BSIZE) ≠ 0) :
    content s'.block ip' k = content s.block ip k := by
  unfold content
  rw [h.grows _ hz, h.data _ hz]

lemma byte_patch (v : Block) (o : ℕ) (bs : List UInt8) {x : ℕ} (hx : x < BSIZE) :
    byte (patch v o bs) x =
      if o ≤ x ∧ x < o + bs.length then bs.getD (x - o) 0 else byte v x := by
  unfold byte
  rw [dif_pos hx, dif_pos hx]
  rfl

lemma nodup_of_held (h : Held nmeta s (Function.update dn inum ip) loose) (ht : ip.type ≠ 0) :
    (blocks s.block ip).Nodup := by
  have := h.owns.nodup (.inode inum)
  simpa [own, inodeBlocks, ht] using this

/-- Overwriting part of the block at `off`. -/
lemma content_patch (h : Held nmeta s (Function.update dn inum ip) loose) (ht : ip.type ≠ 0)
    (ha : addrOf s.block ip (off / BSIZE) ≠ 0) {bs : List UInt8}
    (hfit : off % BSIZE + bs.length ≤ BSIZE) (hk : addrOf s.block ip (k / BSIZE) ≠ 0) :
    content (s.setBlock (addrOf s.block ip (off / BSIZE))
        (patch (s.block (addrOf s.block ip (off / BSIZE))) (off % BSIZE) bs)).block ip k =
      if off ≤ k ∧ k < off + bs.length then bs.getD (k - off) 0 else content s.block ip k := by
  have hnod := nodup_of_held h ht
  have hgrow := (Extends.patch h ht (addrOf_lt ha) ha
    (patch (s.block (addrOf s.block ip (off / BSIZE))) (off % BSIZE) bs)).grows (k / BSIZE) hk
  have hmod := Nat.div_add_mod off BSIZE
  have hmodk := Nat.div_add_mod k BSIZE
  unfold content
  rw [hgrow]
  by_cases hsame : k / BSIZE = off / BSIZE
  · rw [hsame]
    simp only [Store.setBlock, Function.update_self]
    rw [byte_patch _ _ _ (Nat.mod_lt k BSIZE_pos)]
    rw [hsame] at hmodk
    have hiff : (off % BSIZE ≤ k % BSIZE ∧ k % BSIZE < off % BSIZE + bs.length) ↔
        (off ≤ k ∧ k < off + bs.length) := by omega
    have hsub : k % BSIZE - off % BSIZE = k - off := by omega
    rw [hsub]
    simp only [hiff]
  · have hne : addrOf s.block ip (k / BSIZE) ≠ addrOf s.block ip (off / BSIZE) :=
      fun he => hsame (addrOf_inj hnod hk he)
    simp only [Store.setBlock]
    rw [Function.update_of_ne hne, if_neg]
    rintro ⟨h1, h2⟩
    apply hsame
    have hki : k = off + (k - off) := by omega
    rw [hki]
    exact (div_mod_add (by omega)).1

/-- What a write that began at `off` has made of a file when it stops at `off'`; in the round in
which a copy failed, `j` more bytes have been stored. -/
structure Stored (src : ℕ → Option UInt8) (blk : BlockNo → Block) (ip : Dinode) (tot off : ℕ)
    (blk' : BlockNo → Block) (ip' : Dinode) (off' j : ℕ) : Prop where
  new : ∀ i, off + i < off' + j → src (tot + i) = some (content blk' ip' (off + i))
  old : ∀ k, addrOf blk ip (k / BSIZE) ≠ 0 → k < off ∨ off' + j ≤ k →
    content blk' ip' k = content blk ip k

lemma Stored.same {src : ℕ → Option UInt8} {blk blk' : BlockNo → Block}
    (h : ∀ k, addrOf blk ip (k / BSIZE) ≠ 0 → content blk' ip' k = content blk ip k) :
    Stored src blk ip tot off blk' ip' off 0 where
  new i hi := absurd hi (by omega)
  old k hk _ := h k hk

/-- Why a write has stopped: it is done, the disk is full, or a byte cannot be read. -/
def Stopped (src : ℕ → Option UInt8) (n : ℕ) (s' : Store) (tot' off' j : ℕ) : Prop :=
  (tot' = n ∧ j = 0) ∨ (s'.unused = none ∧ j = 0) ∨
    (tot' < n ∧ j < chunk n tot' off' ∧ src (tot' + j) = none)

/-- No copy fails if all bytes can be read. -/
lemma Stopped.all {src : ℕ → Option UInt8} {off' j : ℕ} (h : Stopped src n s' tot off' j)
    (hsrc : ∀ i < n, (src i).isSome) : j = 0 ∧ (tot = n ∨ s'.unused = none) := by
  obtain ⟨h1, h2⟩ | ⟨h1, h2⟩ | ⟨h1, h2, h3⟩ := h
  · exact ⟨h2, .inl h1⟩
  · exact ⟨h2, .inr h1⟩
  · have := chunk_le n tot off'
    have hsome := hsrc (tot + j) (by omega)
    rw [h3] at hsome
    exact absurd hsome Bool.false_ne_true

lemma writeLoop_bytes {src : ℕ → Option UInt8}
    (h : Held nmeta s (Function.update dn inum ip) loose) (ht : ip.type ≠ 0)
    (ho : 0 < s.outstanding) (hmax : off + (n - tot) ≤ MAXFILE * BSIZE) (htot : tot ≤ n)
    (hfuel : n - tot ≤ fuel) :
    wp Never (writeLoop src n fuel ip tot off) (fun r s' => ∃ j, off ≤ r.2.2 ∧
      Stored src s.block ip tot off s'.block r.1 r.2.2 j ∧ Stopped src n s' r.2.1 r.2.2 j) s := by
  induction fuel generalizing ip tot off s with
  | zero =>
    have heq : tot = n := by omega
    exact ⟨0, le_rfl, Stored.same fun _ _ => rfl, .inl ⟨heq, rfl⟩⟩
  | succ fuel ih =>
    unfold writeLoop
    rw [wp_ite]
    refine ⟨fun hlt => ?_, fun hge => ?_⟩
    swap
    · have heq : tot = n := by omega
      exact ⟨0, le_rfl, Stored.same fun _ _ => rfl, .inl ⟨heq, rfl⟩⟩
    have hle := Nat.div_mul_le_self off BSIZE
    have hbn : off / BSIZE < MAXFILE := by
      rw [Nat.div_lt_iff_lt_mul BSIZE_pos]
      omega
    refine wp_call (bmap_held h ht ho hbn) fun r s' hr => ?_
    obtain ⟨ip', addr⟩ := r
    obtain ⟨hmap, haddr, hfull⟩ := hr
    change wp Never (if addr = 0 then _ else _) _ s'
    rw [wp_ite]
    refine ⟨fun hz => ⟨0, le_rfl, Stored.same fun k hk => content_mapped hmap hk,
      .inr (.inl ⟨hfull hz, rfl⟩)⟩, fun hne => ?_⟩
    have haddr' : addrOf s'.block ip' (off / BSIZE) = addr := haddr hne
    have hz' : addrOf s'.block ip' (off / BSIZE) ≠ 0 := haddr'.symm ▸ hne
    have ht' : ip'.type ≠ 0 := hmap.same.type ▸ ht
    obtain ⟨hlen, hgot, hmiss⟩ := copyin_spec src tot (chunk n tot off)
    have hfit : off % BSIZE + (copyin src tot (chunk n tot off)).length ≤ BSIZE := by
      have : off % BSIZE + chunk n tot off ≤ BSIZE := chunk_fits
      omega
    rw [wp_bind, wp_change]
    have hpatch := Extends.patch hmap.held ht' hbn hz'
      (patch (s'.block addr) (off % BSIZE) (copyin src tot (chunk n tot off)))
    have hcontent : ∀ k, addrOf s'.block ip' (k / BSIZE) ≠ 0 →
        content (s'.setBlock addr (patch (s'.block addr) (off % BSIZE)
          (copyin src tot (chunk n tot off)))).block ip' k =
        if off ≤ k ∧ k < off + (copyin src tot (chunk n tot off)).length then
          (copyin src tot (chunk n tot off)).getD (k - off) 0 else content s'.block ip' k := by
      intro k hk
      rw [← haddr']
      exact content_patch hmap.held ht' hz' hfit hk
    rw [haddr'] at hpatch
    -- where the bytes of this round go
    have hnew : ∀ i < (copyin src tot (chunk n tot off)).length, src (tot + i) =
        some (content (s'.setBlock addr (patch (s'.block addr) (off % BSIZE)
          (copyin src tot (chunk n tot off)))).block ip' (off + i)) := by
      intro i hi
      have hin : addrOf s'.block ip' ((off + i) / BSIZE) ≠ 0 := by
        rw [(div_mod_add (by omega)).1]
        exact hz'
      rw [hcontent _ hin, if_pos (by omega), hgot i hi, Nat.add_sub_cancel_left]
    have hold : ∀ k, addrOf s.block ip (k / BSIZE) ≠ 0 →
        k < off ∨ off + (copyin src tot (chunk n tot off)).length ≤ k →
        content (s'.setBlock addr (patch (s'.block addr) (off % BSIZE)
          (copyin src tot (chunk n tot off)))).block ip' k = content s.block ip k := by
      intro k hk hout
      rw [hcontent k (by rwa [hmap.grows _ hk]), if_neg (by omega), content_mapped hmap hk]
    rw [wp_ite]
    refine ⟨fun hall => ?_, fun hpart => ?_⟩
    swap
    · have hshort : (copyin src tot (chunk n tot off)).length < chunk n tot off := by omega
      exact ⟨_, le_rfl, ⟨fun i hi => hnew i (Nat.lt_of_add_lt_add_left hi), hold⟩,
        .inr (.inr ⟨hlt, hshort, hmiss hshort⟩)⟩
    rw [wp_bind]
    have hboth := hmap.toExtends.trans hpatch
    refine wp_log (hboth.frame.outstanding ▸ ho) ?_
    have hc := chunk_le n tot off
    have hpos : 0 < chunk n tot off := chunk_pos hlt
    refine wp_mono (ih hboth.held ht' (hboth.frame.outstanding ▸ ho) (by omega) (by omega)
      (by omega)) ?_
    rintro r s'' ⟨j, h1, h2, h3⟩
    refine ⟨j, by omega, ⟨fun i hi => ?_, fun k hk hout => ?_⟩, h3⟩
    · by_cases hi' : i < chunk n tot off
      · -- stored in this round, and not overwritten in the later ones
        have hin : addrOf (s'.setBlock addr (patch (s'.block addr) (off % BSIZE)
            (copyin src tot (chunk n tot off)))).block ip' ((off + i) / BSIZE) ≠ 0 := by
          rw [(div_mod_add (by omega)).1, hpatch.grows _ hz', haddr']
          exact hne
        rw [h2.old (off + i) hin (.inl (by omega))]
        exact hnew i (by omega)
      · have := h2.new (i - chunk n tot off) (by omega)
        have heq : tot + chunk n tot off + (i - chunk n tot off) = tot + i := by omega
        have heq' : off + chunk n tot off + (i - chunk n tot off) = off + i := by omega
        rwa [heq, heq'] at this
    · rw [h2.old k (by rwa [hboth.grows _ hk]) (by omega)]
      exact hold k hk (by omega)

lemma content_of_addrs {d : Dinode} (h : ip.addrs = d.addrs) : content blk ip k = content blk d k := by
  unfold content
  rw [addrOf_of_addrs h]

lemma wp_iupdate {Q : Unit → Store → Prop} (ho : 0 < s.outstanding) (h : Q () (s.setDinode inum ip)) :
    wp Never (iupdate inum ip) Q s := by
  unfold iupdate
  rw [wp_bind, wp_change]
  exact wp_log ho h

/-- What a write does to the bytes of the file and to those of the others. -/
structure Changed (src : ℕ → Option UInt8) (n inum : ℕ) (s : Store) (ip : Dinode) (off : ℕ)
    (s' : Store) (ip' : Dinode) (tot j : ℕ) : Prop where
  stored : Stored src s.block ip 0 off s'.block ip' (off + tot) j
  stopped : Stopped src n s' tot (off + tot) j
  others : OthersKept s.dinode inum s.block s'.block
  grows : Grows s.block ip s'.block ip'

lemma writei_changed {src : ℕ → Option UInt8} (h : Intact nmeta s) (hc : CopyOf ip (s.dinode inum))
    (ho : 0 < s.outstanding) (hle : off ≤ ip.size) (hmax : off + n ≤ MAXFILE * BSIZE) :
    wp Never (writei inum ip src off n) (fun r s' =>
      ∃ tot j, r.2 = (tot : ℕ) ∧ Changed src n inum s ip off s' r.1 tot j) s := by
  have hmf : MAXFILE * BSIZE < 2 ^ 32 := by decide
  have hmod : (off + n) % 2 ^ 32 = off + n := Nat.mod_eq_of_lt (by omega)
  unfold writei
  rw [hmod, if_neg (by omega), if_neg (by omega)]
  have hok := hc.fileOk (h.file inum hc.disk)
  have hfill : Filled s.block ip off := fun bn hbn => hok.filled bn (by omega)
  have hheld := h.held.copy hc
  refine wp_call (wp_and (writeLoop_held hheld hc.type ho hfill (by omega)) (wp_and
    (writeLoop_frame (Nat.zero_le n)) (writeLoop_bytes hheld hc.type ho (by omega)
      (Nat.zero_le n) (Nat.sub_le n 0)))) fun r s' hr => ?_
  obtain ⟨ip', tot, off'⟩ := r
  obtain ⟨⟨hext, -⟩, ⟨-, -, -, -, hsum⟩, j, -, hstored, hstopped⟩ := hr
  simp only at hsum hext hstored hstopped
  have hoff : off' = off + tot := by omega
  subst hoff
  -- the inode that is written back differs in its size only
  have hnew : ∃ e : Dinode,
      e = (if off + tot > ip'.size then { ip' with size := off + tot } else ip') ∧
      e.addrs = ip'.addrs := by
    refine ⟨_, rfl, ?_⟩
    split_ifs <;> rfl
  obtain ⟨e, he, haddrs⟩ := hnew
  change wp Never (iupdate inum (if off + tot > ip'.size then { ip' with size := off + tot }
    else ip') >>= fun _ => pure ((if off + tot > ip'.size then { ip' with size := off + tot }
    else ip'), (tot : ℤ))) _ s'
  rw [← he, wp_bind]
  refine wp_iupdate (hext.frame.outstanding ▸ ho) ⟨tot, j, rfl, ⟨fun i hi => ?_, fun k hk hout => ?_⟩,
    hstopped, hext.others, fun bn hbn => ?_⟩
  · rw [content_of_addrs haddrs]
    exact hstored.new i hi
  · rw [content_of_addrs haddrs]
    exact hstored.old k hk hout
  · rw [addrOf_of_addrs haddrs]
    exact hext.grows bn hbn

/-- A file is in its blocks. -/
lemma bytes_congr {blk' : BlockNo → Block} {d : Dinode} (h : ∀ b ∈ blocks blk d, blk' b = blk b)
    (hf : FileOk blk d) : bytes blk' d = bytes blk d := by
  have haddr : ∀ bn, addrOf blk' d bn = addrOf blk d bn :=
    fun bn => addrOf_congr fun ha => h _ (addr_mem ha)
  refine List.map_congr_left fun o ho => ?_
  have hlt : o < d.size := List.mem_range.mp ho
  have hle := Nat.div_mul_le_self o BSIZE
  have hne : addrOf blk d (o / BSIZE) ≠ 0 := hf.filled _ (by omega)
  unfold content
  rw [haddr, h _ (addrOf_mem (addrOf_lt hne) hne)]

lemma fileOk_congr {blk' : BlockNo → Block} {d : Dinode} (h : ∀ b ∈ blocks blk d, blk' b = blk b)
    (hf : FileOk blk d) : FileOk blk' d := by
  refine ⟨fun bn hbn => ?_, hf.size⟩
  rw [addrOf_congr fun ha => h _ (addr_mem ha)]
  exact hf.filled bn hbn

/-- The bytes of the others are as before. -/
lemma bytes_others {blk' : BlockNo → Block} (h : OthersKept dn inum blk blk')
    (hk : k ≠ inum) (ht : (dn k).type ≠ 0) (hf : FileOk blk (dn k)) :
    bytes blk' (dn k) = bytes blk (dn k) := by
  refine bytes_congr (fun b hb => h k hk b ?_) hf
  rwa [inodeBlocks, if_neg ht]

/-- The first `k` bytes of the source. -/
def taken (src : ℕ → Option UInt8) (k : ℕ) : List UInt8 :=
  (List.range k).map fun i => (src i).getD 0

lemma bytes_stored {src : ℕ → Option UInt8} {blk' : BlockNo → Block}
    (hf : Filled blk ip ip.size) (hle : off ≤ ip.size) (hsize : ip'.size = max ip.size (off + tot))
    (h : Stored src blk ip 0 off blk' ip' (off + tot) 0) :
    bytes blk' ip' = (bytes blk ip).take off ++ taken src tot ++ (bytes blk ip).drop (off + tot) := by
  refine List.ext_getElem ?_ fun i h1 h2 => ?_
  · simp only [length_bytes, taken, List.length_append, List.length_take, List.length_map,
      List.length_range, List.length_drop]
    omega
  have hold : ∀ k < ip.size, addrOf blk ip (k / BSIZE) ≠ 0 := by
    intro k hk
    have := Nat.div_mul_le_self k BSIZE
    exact hf _ (by omega)
  have hlt := h1
  rw [length_bytes, hsize] at hlt
  have hlen : ((bytes blk ip).take off).length = off := by
    rw [List.length_take, length_bytes]
    omega
  have hlen' : ((bytes blk ip).take off ++ taken src tot).length = off + tot := by
    rw [List.length_append, hlen, taken, List.length_map, List.length_range]
  have hlhs : (bytes blk' ip')[i] = content blk' ip' i := by
    simp [bytes]
  rw [hlhs]
  by_cases hi : i < off + tot
  · rw [List.getElem_append_left (by omega)]
    by_cases hi' : i < off
    · rw [List.getElem_append_left (by omega), h.old i (hold i (by omega)) (.inl hi')]
      simp [bytes]
    · rw [List.getElem_append_right (by omega)]
      have hnew := h.new (i - off) (by omega)
      rw [Nat.zero_add, Nat.add_sub_cancel' (by omega)] at hnew
      simp only [taken, List.getElem_map, List.getElem_range, hlen, hnew, Option.getD_some]
  · rw [List.getElem_append_right (by omega), List.getElem_drop, h.old i (hold i (by omega))
      (.inr (by omega))]
    have heq : off + tot + (i - (off + tot)) = i := by omega
    simp only [hlen', heq]
    simp [bytes]

/-- A write of the first `r` bytes of the source to a file that read as `bytes`. -/
structure Wrote (nmeta inum : ℕ) (src : ℕ → Option UInt8) (n : ℕ) (s : Store) (ip : Dinode)
    (off : ℕ) (s' : Store) (ip' : Dinode) (r : ℕ) : Prop where
  le : r ≤ n
  full : r = n ∨ s'.unused = none
  size : ip'.size = max ip.size (off + r)
  content : bytes s'.block ip' =
    (bytes s.block ip).take off ++ taken src r ++ (bytes s.block ip).drop (off + r)
  dinode : s'.dinode = Function.update s.dinode inum ip'
  others : ∀ k ≠ inum, (s.dinode k).type ≠ 0 →
    bytes s'.block (s.dinode k) = bytes s.block (s.dinode k)
  copy : CopyOf ip' (s'.dinode inum)
  intact : Intact nmeta s'

lemma writei_wrote {src : ℕ → Option UInt8} (h : Intact nmeta s) (hc : CopyOf ip (s.dinode inum))
    (ho : 0 < s.outstanding) (hsrc : ∀ i < n, (src i).isSome) (hle : off ≤ ip.size)
    (hmax : off + n ≤ MAXFILE * BSIZE) :
    wp Never (writei inum ip src off n) (fun r s' =>
      ∃ m : ℕ, r.2 = m ∧ Wrote nmeta inum src n s ip off s' r.1 m) s := by
  have hmf : MAXFILE * BSIZE < 2 ^ 32 := by decide
  have hok := hc.fileOk (h.file inum hc.disk)
  have hframe : wp Any (writei inum ip src off n) (Written inum ip off n s) s :=
    writei_frame (by omega) (by omega)
  refine wp_mono (wp_and (writei_changed h hc ho hle hmax) (wp_and
    (writei_intact h hc ho (by omega) (by omega)) hframe)) ?_
  rintro r s' ⟨⟨tot, j, hr, hch⟩, hint, hw⟩
  refine ⟨tot, hr, ?_⟩
  obtain ⟨rfl, -⟩ | ⟨tot', hle', hr', -, hfit, hip, hd, -, -⟩ := hw
  · simp only at hr
    omega
  obtain rfl : tot = tot' := by omega
  have hsize : r.1.size = max ip.size (off + tot) := by rw [hip]
  have htype : r.1.type = ip.type := by rw [hip]
  obtain ⟨rfl, hfull⟩ := hch.stopped.all hsrc
  have hself : s'.dinode inum = r.1 := by rw [hd, Function.update_self]
  refine ⟨hle', hfull, hsize, bytes_stored hok.filled hle hsize hch.stored, hd,
    fun k hk ht => bytes_others hch.others hk ht (h.file k ht), ?_, hint⟩
  rw [hself]
  exact ⟨htype ▸ hc.type, htype ▸ hc.type, rfl, rfl⟩

/-- An empty file on a disk with two blocks to spare. -/
def small : Store :=
  ⟨4, 2, fun b => b.toNat < 2, fun _ => { Dinode.free with type := T_FILE, nlink := 1 },
    fun _ => zero, 1⟩

end Xv6.Fs.Bytes
