import Mathlib.Data.Nat.Bitwise
import Xv6.Fs.Content

/-!
Where things are on the disk: the superblock, the blocks of inodes, the bitmap. `mount` is what
the kernel finds in an image.
-/

namespace Xv6.Fs.Layout

open Xv6.Disk Xv6.Fs.Content

/-- The block that holds the words `f`, in the byte order of the disk. -/
def ofWords (f : ℕ → UInt32) : Block := fun k => UInt8.ofNat ((f (k.1 / 4)).toNat / 2 ^ (8 * (k.1 % 4)))

/-- Two `short`s next to each other. -/
def shorts (a b : Int16) : UInt32 := UInt32.ofNat (a.toUInt16.toNat + 2 ^ 16 * b.toUInt16.toNat)

/-- The first of two `short`s. -/
def fst (w : UInt32) : Int16 := (UInt16.ofNat w.toNat).toInt16

/-- The second of two `short`s. -/
def snd (w : UInt32) : Int16 := (UInt16.ofNat (w.toNat / 2 ^ 16)).toInt16

/-! ### Inodes -/

/-- The words in a `struct dinode`. -/
def DWORDS : ℕ := 3 + (NDIRECT + 1)

/-- Inodes per block. -/
def IPB : ℕ := BSIZE / (4 * DWORDS)

def dinodeWord (d : Dinode) : ℕ → UInt32
  | 0 => shorts d.type d.major
  | 1 => shorts d.minor d.nlink
  | 2 => UInt32.ofNat d.size
  | j + 3 => d.addrs (Fin.ofNat (NDIRECT + 1) j)

/-- `((struct dinode*)b->data)[i]` -/
def getDinode (b : Block) (i : ℕ) : Dinode where
  type := fst (word b (DWORDS * i))
  major := snd (word b (DWORDS * i))
  minor := fst (word b (DWORDS * i + 1))
  nlink := snd (word b (DWORDS * i + 1))
  size := (word b (DWORDS * i + 2)).toNat
  addrs j := word b (DWORDS * i + 3 + j)

/-- The assignment `((struct dinode*)b->data)[i] = d`. -/
def putDinode (b : Block) (i : ℕ) (d : Dinode) : Block := fun k =>
  if k.1 / 4 / DWORDS = i then ofWords (fun j => dinodeWord d (j % DWORDS)) k else b k

/-! ### The superblock and the bitmap -/

structure Superblock where
  magic : UInt32
  size : ℕ
  nblocks : ℕ
  ninodes : ℕ
  nlog : ℕ
  logstart : ℕ
  inodestart : ℕ
  bmapstart : ℕ

def FSMAGIC : UInt32 := 0x10203040

/-- The block that begins with the superblock. -/
def Superblock.block (sb : Superblock) : Block := ofWords fun j =>
  ([sb.magic, UInt32.ofNat sb.size, UInt32.ofNat sb.nblocks, UInt32.ofNat sb.ninodes,
    UInt32.ofNat sb.nlog, UInt32.ofNat sb.logstart, UInt32.ofNat sb.inodestart,
    UInt32.ofNat sb.bmapstart] : List UInt32).getD j 0

def readsb (b : Block) : Superblock where
  magic := word b 0
  size := (word b 1).toNat
  nblocks := (word b 2).toNat
  ninodes := (word b 3).toNat
  nlog := (word b 4).toNat
  logstart := (word b 5).toNat
  inodestart := (word b 6).toNat
  bmapstart := (word b 7).toNat

/-- The block of inode `i`. -/
def IBLOCK (i : ℕ) (sb : Superblock) : ℕ := i / IPB + sb.inodestart

/-- Bits of the bitmap per block. -/
def BPB : ℕ := BSIZE * 8

/-- The block of the bit of block `b`. -/
def BBLOCK (b : ℕ) (sb : Superblock) : ℕ := b / BPB + sb.bmapstart

/-- `data[i / 8] & (1 << (i % 8))` -/
def bit (v : Block) (i : ℕ) : Bool := (byte v (i / 8)).toNat.testBit (i % 8)

/-- `data[i / 8] |= 1 << (i % 8)` -/
def setBit (v : Block) (i : ℕ) : Block := fun k =>
  if k.1 = i / 8 then UInt8.ofNat ((v k).toNat ||| 1 <<< (i % 8)) else v k

/-- What `ilock` reads of inode `i`. -/
def readDinode (disk : ℕ → Block) (i : ℕ) : Dinode :=
  getDinode (disk (IBLOCK i (readsb (disk 1)))) (i % IPB)

/-- The file system in the blocks `disk`. There are as many inodes as the blocks between
`inodestart` and `bmapstart` have room for. -/
def mount (disk : ℕ → Block) : Store where
  size := (readsb (disk 1)).size
  ninodes := (readsb (disk 1)).ninodes
  used b := bit (disk (BBLOCK b.toNat (readsb (disk 1)))) (b.toNat % BPB)
  dinode i := if IBLOCK i (readsb (disk 1)) < (readsb (disk 1)).bmapstart then readDinode disk i
    else Dinode.free
  block b := disk b.toNat
  outstanding := 0

/-! ### What is written is read -/

variable {f : ℕ → UInt32} {b b' : Block} {d : Dinode} {i j k : ℕ}

lemma word_congr (h : ∀ r < 4, byte b (4 * i + r) = byte b' (4 * i + r)) : word b i = word b' i := by
  have h0 := h 0 (by omega)
  rw [Nat.add_zero] at h0
  unfold word
  rw [h0, h 1 (by omega), h 2 (by omega), h 3 (by omega)]

lemma byte_of_lt (hk : k < BSIZE) : byte b k = b ⟨k, hk⟩ := dif_pos hk

lemma word_ofWords (hi : 4 * i + 3 < BSIZE) : word (ofWords f) i = f i := by
  rw [← word_setWord_same (ofWords f) (f i) hi]
  refine word_congr fun r hr => ?_
  have hk : 4 * i + r < BSIZE := by omega
  have hdiv : (4 * i + r) / 4 = i := by omega
  rw [byte_of_lt hk, byte_of_lt hk]
  simp only [setWord, ofWords, hdiv, if_true]

lemma fst_shorts (a c : Int16) : fst (shorts a c) = a := by
  have ha := a.toUInt16.toNat_lt
  have hc := c.toUInt16.toNat_lt
  unfold fst shorts
  have hnum : UInt16.ofNat (UInt32.ofNat (a.toUInt16.toNat + 2 ^ 16 * c.toUInt16.toNat)).toNat =
      a.toUInt16 := by
    rw [UInt32.toNat_ofNat_of_lt' (by simp only [UInt32.size]; omega), ← UInt16.toNat_inj,
      UInt16.toNat_ofNat']
    omega
  rw [hnum, Int16.toInt16_toUInt16]

lemma snd_shorts (a c : Int16) : snd (shorts a c) = c := by
  have ha := a.toUInt16.toNat_lt
  have hc := c.toUInt16.toNat_lt
  unfold snd shorts
  have hnum : UInt16.ofNat ((UInt32.ofNat (a.toUInt16.toNat + 2 ^ 16 * c.toUInt16.toNat)).toNat /
      2 ^ 16) = c.toUInt16 := by
    rw [UInt32.toNat_ofNat_of_lt' (by simp only [UInt32.size]; omega), ← UInt16.toNat_inj,
      UInt16.toNat_ofNat']
    omega
  rw [hnum, Int16.toInt16_toUInt16]

lemma word_putDinode (hi : i < IPB) (hj : j < DWORDS) :
    word (putDinode b i d) (DWORDS * i + j) = dinodeWord d j := by
  have hsize : 4 * DWORDS * IPB = BSIZE := by decide
  have hfit : DWORDS * i + j < DWORDS * IPB := by
    calc DWORDS * i + j < DWORDS * i + DWORDS := by omega
      _ = DWORDS * (i + 1) := by ring
      _ ≤ DWORDS * IPB := Nat.mul_le_mul_left _ hi
  have hmod : (DWORDS * i + j) % DWORDS = j := by
    rw [Nat.mul_add_mod, Nat.mod_eq_of_lt hj]
  have hdiv : (DWORDS * i + j) / DWORDS = i := by
    rw [Nat.mul_add_div (by decide), Nat.div_eq_of_lt hj, Nat.add_zero]
  have hblock : 4 * (DWORDS * i + j) + 3 < BSIZE := by
    rw [Nat.mul_assoc] at hsize
    omega
  calc word (putDinode b i d) (DWORDS * i + j)
      = word (ofWords fun j => dinodeWord d (j % DWORDS)) (DWORDS * i + j) := by
        refine word_congr fun r hr => ?_
        have hk : 4 * (DWORDS * i + j) + r < BSIZE := by omega
        have hq : (4 * (DWORDS * i + j) + r) / 4 = DWORDS * i + j := by omega
        rw [byte_of_lt hk, byte_of_lt hk]
        simp only [putDinode, hq, hdiv, if_true]
    _ = dinodeWord d j := by rw [word_ofWords hblock, hmod]

/-- The other inodes of the block stay. -/
lemma word_putDinode_ne (hk : k ≠ i) (hj : j < DWORDS) :
    word (putDinode b i d) (DWORDS * k + j) = word b (DWORDS * k + j) := by
  have hdiv : (DWORDS * k + j) / DWORDS = k := by
    rw [Nat.mul_add_div (by decide), Nat.div_eq_of_lt hj, Nat.add_zero]
  refine word_congr fun r hr => ?_
  have hq : (4 * (DWORDS * k + j) + r) / 4 = DWORDS * k + j := by omega
  unfold byte
  split_ifs with h
  · simp only [putDinode, hq, hdiv, if_neg hk]
  · rfl

theorem getDinode_put (hi : i < IPB) (hs : d.size < 2 ^ 32) : getDinode (putDinode b i d) i = d := by
  have h0 : word (putDinode b i d) (DWORDS * i + 0) = shorts d.type d.major :=
    word_putDinode hi (by decide)
  rw [Nat.add_zero] at h0
  have h1 : word (putDinode b i d) (DWORDS * i + 1) = shorts d.minor d.nlink :=
    word_putDinode hi (by decide)
  have h2 : word (putDinode b i d) (DWORDS * i + 2) = UInt32.ofNat d.size :=
    word_putDinode hi (by decide)
  have haddr : ∀ j : Fin (NDIRECT + 1), word (putDinode b i d) (DWORDS * i + 3 + j) = d.addrs j := by
    intro j
    have hj := j.isLt
    have hcomm : DWORDS * i + 3 + j = DWORDS * i + (j.1 + 3) := by omega
    rw [hcomm, word_putDinode hi (by unfold DWORDS; omega), dinodeWord]
    congr 1
    ext
    exact Nat.mod_eq_of_lt hj
  unfold getDinode
  rw [h0, h1, h2, fst_shorts, snd_shorts, fst_shorts, snd_shorts,
    UInt32.toNat_ofNat_of_lt' (by simp only [UInt32.size]; omega)]
  simp only [haddr]

theorem getDinode_put_ne (hk : k ≠ i) : getDinode (putDinode b i d) k = getDinode b k := by
  have haddr : ∀ j : Fin (NDIRECT + 1), word (putDinode b i d) (DWORDS * k + 3 + j) =
      word b (DWORDS * k + 3 + j) := by
    intro j
    have hj := j.isLt
    rw [Nat.add_assoc]
    exact word_putDinode_ne hk (by unfold DWORDS; omega)
  unfold getDinode
  have h0 : word (putDinode b i d) (DWORDS * k + 0) = word b (DWORDS * k + 0) :=
    word_putDinode_ne hk (by decide)
  rw [Nat.add_zero] at h0
  rw [h0, word_putDinode_ne hk (by decide : 1 < DWORDS), word_putDinode_ne hk (by decide : 2 < DWORDS)]
  simp only [haddr]

@[simp] lemma getDinode_zero : getDinode zero i = Dinode.free := by
  unfold getDinode
  simp only [word_zero]
  rfl

lemma readsb_block (sb : Superblock) (h : sb.size < 2 ^ 32 ∧ sb.nblocks < 2 ^ 32 ∧
    sb.ninodes < 2 ^ 32 ∧ sb.nlog < 2 ^ 32 ∧ sb.logstart < 2 ^ 32 ∧ sb.inodestart < 2 ^ 32 ∧
    sb.bmapstart < 2 ^ 32) : readsb sb.block = sb := by
  obtain ⟨h1, h2, h3, h4, h5, h6, h7⟩ := h
  unfold readsb Superblock.block
  rw [word_ofWords (by decide), word_ofWords (by decide), word_ofWords (by decide),
    word_ofWords (by decide), word_ofWords (by decide), word_ofWords (by decide),
    word_ofWords (by decide), word_ofWords (by decide)]
  simp only [List.getD_cons_zero, List.getD_cons_succ, UInt32.toNat_ofNat_of_lt' h1,
    UInt32.toNat_ofNat_of_lt' h2, UInt32.toNat_ofNat_of_lt' h3, UInt32.toNat_ofNat_of_lt' h4,
    UInt32.toNat_ofNat_of_lt' h5, UInt32.toNat_ofNat_of_lt' h6, UInt32.toNat_ofNat_of_lt' h7]

/-- Setting a bit sets this bit. -/
lemma bit_setBit (hi : i < BPB) : bit (setBit b i) j = (bit b j || decide (i = j)) := by
  have hmod : i % 8 < 8 := Nat.mod_lt _ (by decide)
  have hpow : 2 ^ (i % 8) < 2 ^ 8 := Nat.pow_lt_pow_right (by decide) hmod
  by_cases hj : j / 8 < BSIZE
  · unfold bit
    rw [byte_of_lt hj, byte_of_lt hj]
    unfold setBit
    by_cases hsame : j / 8 = i / 8
    · rw [if_pos hsame]
      have hold := (b ⟨j / 8, hj⟩).toNat_lt
      have hmask : 1 <<< (i % 8) = 2 ^ (i % 8) := by rw [Nat.shiftLeft_eq, Nat.one_mul]
      have hlt : (b ⟨j / 8, hj⟩).toNat ||| 1 <<< (i % 8) < 2 ^ 8 := by
        rw [hmask]
        exact Nat.or_lt_two_pow hold hpow
      rw [UInt8.toNat_ofNat_of_lt' hlt, Nat.testBit_or, hmask, Nat.testBit_two_pow]
      congr 1
      have hiff : i % 8 = j % 8 ↔ i = j := by omega
      simp only [hiff]
    · have hne : i ≠ j := by
        rintro rfl
        exact hsame rfl
      rw [if_neg hsame, decide_eq_false hne, Bool.or_false]
  · have hne : i ≠ j := by
      rintro rfl
      unfold BPB at hi
      omega
    have hout : ∀ v : Block, byte v (j / 8) = 0 := fun v => dif_neg hj
    unfold bit
    rw [hout, hout, decide_eq_false hne, Bool.or_false]

@[simp] lemma bit_zero : bit zero i = false := by
  have h : byte zero (i / 8) = 0 := by
    unfold byte zero
    split <;> rfl
  unfold bit
  rw [h]
  exact Nat.zero_testBit _

end Xv6.Fs.Layout
