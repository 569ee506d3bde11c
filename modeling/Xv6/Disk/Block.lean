import Mathlib.Tactic

/-!
Disk blocks, as arrays of bytes, and the 32-bit words the kernel reads and writes in them
through casts of `b->data` (the log header, the indirect block).
-/

namespace Xv6.Disk

def BSIZE : ℕ := 1024

/-- A `uint` naming a block of the disk. -/
abbrev BlockNo := UInt32

/-- The `BSIZE` bytes of a block. -/
abbrev Block := Fin BSIZE → UInt8

def zero : Block := fun _ => 0

/-- The byte at offset `k`, and `0` past the end. -/
def byte (b : Block) (k : ℕ) : UInt8 := if h : k < BSIZE then b ⟨k, h⟩ else 0

/-- The little-endian word `((uint*)b->data)[i]`. -/
def word (b : Block) (i : ℕ) : UInt32 :=
  UInt32.ofNat ((byte b (4 * i)).toNat + 2 ^ 8 * (byte b (4 * i + 1)).toNat +
    2 ^ 16 * (byte b (4 * i + 2)).toNat + 2 ^ 24 * (byte b (4 * i + 3)).toNat)

/-- The assignment `((uint*)b->data)[i] = v`. -/
def setWord (b : Block) (i : ℕ) (v : UInt32) : Block := fun k =>
  if k.1 / 4 = i then UInt8.ofNat (v.toNat / 2 ^ (8 * (k.1 % 4))) else b k

lemma byte_setWord_ne (b : Block) {i k : ℕ} (v : UInt32) (h : k / 4 ≠ i) :
    byte (setWord b i v) k = byte b k := by
  by_cases hk : k < BSIZE <;> simp [byte, setWord, hk, h]

lemma byte_setWord (b : Block) {i r : ℕ} (v : UInt32) (hr : r < 4) (hi : 4 * i + r < BSIZE) :
    (byte (setWord b i v) (4 * i + r)).toNat = v.toNat / 2 ^ (8 * r) % 256 := by
  have hd : (4 * i + r) / 4 = i := by omega
  have hm : (4 * i + r) % 4 = r := by omega
  simp [byte, setWord, hi, hd, hm]

@[simp] lemma word_setWord_same (b : Block) {i : ℕ} (v : UInt32) (hi : 4 * i + 3 < BSIZE) :
    word (setWord b i v) i = v := by
  have h0 := byte_setWord b v (r := 0) (by omega) (i := i) (by omega)
  have h1 := byte_setWord b v (r := 1) (by omega) (i := i) (by omega)
  have h2 := byte_setWord b v (r := 2) (by omega) (i := i) (by omega)
  have h3 := byte_setWord b v (r := 3) (by omega) (i := i) (by omega)
  have hv := v.toNat_lt
  simp only [Nat.add_zero] at h0
  unfold word
  rw [h0, h1, h2, h3]
  rw [← UInt32.toNat_inj, UInt32.toNat_ofNat_of_lt']
  · norm_num; omega
  · norm_num [UInt32.size]; omega

@[simp] lemma word_setWord_ne (b : Block) {i j : ℕ} (v : UInt32) (h : j ≠ i) :
    word (setWord b i v) j = word b j := by
  unfold word
  rw [byte_setWord_ne _ _ (by omega), byte_setWord_ne _ _ (by omega),
    byte_setWord_ne _ _ (by omega), byte_setWord_ne _ _ (by omega)]

@[simp] lemma word_zero (i : ℕ) : word zero i = 0 := by
  have h : ∀ k, byte zero k = 0 := fun k => by unfold byte zero; split <;> rfl
  simp [word, h]

end Xv6.Disk
