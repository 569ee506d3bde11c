import Mathlib.Data.Nat.Bitwise
import Mathlib.Tactic

/-!
The constants and macros of `riscv.h` for pages and page-table entries, and the pages themselves:
`PGSIZE` bytes, which the kernel also reads as 512 entries.
-/

namespace Xv6.Vm.Paging

def PGSIZE : UInt64 := 4096

/-- Round up to a page boundary, unless that is past the end of the 64 bits. -/
def PGROUNDUP (sz : UInt64) : UInt64 := (sz + PGSIZE - 1) &&& ~~~(PGSIZE - 1)

def PGROUNDDOWN (a : UInt64) : UInt64 := a &&& ~~~(PGSIZE - 1)

def PTE_V : UInt64 := (1 : UInt64) <<< 0
def PTE_R : UInt64 := (1 : UInt64) <<< 1
def PTE_W : UInt64 := (1 : UInt64) <<< 2
def PTE_X : UInt64 := (1 : UInt64) <<< 3
def PTE_U : UInt64 := (1 : UInt64) <<< 4

def PA2PTE (pa : UInt64) : UInt64 := (pa >>> 12) <<< 10

def PTE2PA (pte : UInt64) : UInt64 := (pte >>> 10) <<< 12

def PTE_FLAGS (pte : UInt64) : UInt64 := pte &&& 0x3FF

def PXSHIFT (level : ℕ) : UInt64 := UInt64.ofNat (12 + 9 * level)

lemma px_lt (level : ℕ) (va : UInt64) : ((va >>> PXSHIFT level) &&& 0x1FF).toNat < 512 := by
  rw [UInt64.toNat_and]
  exact Nat.lt_of_le_of_lt Nat.and_le_right (by decide)

/-- Index `level` of the address `va`. -/
def PX (level : ℕ) (va : UInt64) : Fin 512 :=
  ⟨((va >>> PXSHIFT level) &&& 0x1FF).toNat, px_lt level va⟩

def MAXVA : UInt64 := (1 : UInt64) <<< (9 + 9 + 9 + 12 - 1)

/-- A page-table page has entries. -/
instance entries_neZero : NeZero (512 : ℕ) := ⟨by decide⟩

/-! ### Arithmetic of addresses -/

variable {a b va sz : UInt64} {n : ℕ}

lemma and_low (n k : ℕ) : n &&& (2 ^ k - 1) = n % 2 ^ k := Nat.and_two_pow_sub_one_eq_mod n k

/-- Clearing the low bits of a number. -/
lemma and_high {n k : ℕ} (hn : n < 2 ^ 64) (hk : k ≤ 64) :
    n &&& (2 ^ 64 - 2 ^ k) = n / 2 ^ k * 2 ^ k := by
  have hmask : 2 ^ 64 - 2 ^ k = (2 ^ (64 - k) - 1) <<< k := by
    have hpow : 2 ^ (64 - k) * 2 ^ k = 2 ^ 64 := by rw [← pow_add]; congr 1; omega
    rw [Nat.shiftLeft_eq, Nat.sub_mul, hpow, one_mul]
  rw [hmask, ← Nat.shiftRight_eq_div_pow, ← Nat.shiftLeft_eq]
  apply Nat.eq_of_testBit_eq
  intro i
  simp only [Nat.testBit_and, Nat.testBit_shiftLeft, Nat.testBit_two_pow_sub_one,
    Nat.testBit_shiftRight]
  by_cases hi : k ≤ i
  · rw [Nat.add_sub_cancel' hi]
    by_cases h64 : i < 64
    · have : i - k < 64 - k := by omega
      simp [hi, this]
    · have : n.testBit i = false :=
        Nat.testBit_lt_two_pow (lt_of_lt_of_le hn (Nat.pow_le_pow_right (by omega) (by omega)))
      simp [this]
  · simp [hi]

@[simp] lemma toNat_PGSIZE : PGSIZE.toNat = 4096 := rfl

@[simp] lemma toNat_MAXVA : MAXVA.toNat = 2 ^ 38 := rfl

@[simp] lemma toNat_PGROUNDDOWN (a : UInt64) : (PGROUNDDOWN a).toNat = a.toNat / 4096 * 4096 := by
  have hmask : (~~~(PGSIZE - 1)).toNat = 2 ^ 64 - 2 ^ 12 := by decide
  rw [PGROUNDDOWN, UInt64.toNat_and, hmask]
  exact and_high a.toNat_lt (by decide)

lemma toNat_PGROUNDUP (a : UInt64) :
    (PGROUNDUP a).toNat = (a.toNat + 4095) % 2 ^ 64 / 4096 * 4096 := by
  have hsum : (a + PGSIZE - 1).toNat = (a.toNat + 4095) % 2 ^ 64 := by
    have hassoc : a + PGSIZE - 1 = a + 4095 := by
      rw [PGSIZE, UInt64.sub_eq_add_neg, UInt64.add_assoc]
      rfl
    rw [hassoc, UInt64.toNat_add]
    rfl
  have hmask : (~~~(PGSIZE - 1)).toNat = 2 ^ 64 - 2 ^ 12 := by decide
  rw [PGROUNDUP, UInt64.toNat_and, hmask, hsum]
  exact and_high (Nat.mod_lt _ (by decide)) (by decide)

/-- Rounding up where nothing is past the end. -/
lemma toNat_PGROUNDUP_of_le (h : a.toNat ≤ 2 ^ 64 - 4096) :
    (PGROUNDUP a).toNat = (a.toNat + 4095) / 4096 * 4096 := by
  rw [toNat_PGROUNDUP, Nat.mod_eq_of_lt (by omega)]

lemma PX_val {level : ℕ} (hl : level ≤ 2) (va : UInt64) :
    (PX level va).val = va.toNat / 2 ^ (12 + 9 * level) % 512 := by
  have hshift : (PXSHIFT level).toNat % 64 = 12 + 9 * level := by
    rw [PXSHIFT, UInt64.toNat_ofNat_of_lt' (by simp only [UInt64.size]; omega)]
    omega
  change ((va >>> PXSHIFT level) &&& 0x1FF).toNat = _
  rw [UInt64.toNat_and, UInt64.toNat_shiftRight, hshift, Nat.shiftRight_eq_div_pow]
  exact and_low _ 9

/-- The number of the page of an address. -/
def vpn (va : UInt64) : ℕ := va.toNat / 4096

lemma PX_zero (va : UInt64) : (PX 0 va).val = vpn va % 512 := by
  rw [PX_val (by omega), vpn]
  rfl

lemma PX_one (va : UInt64) : (PX 1 va).val = vpn va / 512 % 512 := by
  rw [PX_val (by omega), vpn, Nat.div_div_eq_div_mul]
  rfl

lemma PX_two (va : UInt64) : (PX 2 va).val = vpn va / (512 * 512) % 512 := by
  rw [PX_val (by omega), vpn, Nat.div_div_eq_div_mul]
  rfl

lemma vpn_lt (h : va < MAXVA) : vpn va < 2 ^ 26 := by
  have : va.toNat < 2 ^ 38 := h
  unfold vpn
  omega

/-- The indices tell the pages below `MAXVA` apart. -/
theorem vpn_inj {va' : UInt64} (h : va < MAXVA) (h' : va' < MAXVA) (h2 : PX 2 va = PX 2 va')
    (h1 : PX 1 va = PX 1 va') (h0 : PX 0 va = PX 0 va') : vpn va = vpn va' := by
  have hlt := vpn_lt h
  have hlt' := vpn_lt h'
  have e2 := congrArg Fin.val h2
  have e1 := congrArg Fin.val h1
  have e0 := congrArg Fin.val h0
  rw [PX_two, PX_two] at e2
  rw [PX_one, PX_one] at e1
  rw [PX_zero, PX_zero] at e0
  omega

/-! ### Entries -/

lemma toNat_PA2PTE (pa : UInt64) : (PA2PTE pa).toNat = pa.toNat / 4096 * 1024 := by
  have hlt := pa.toNat_lt
  have hmod : (PA2PTE pa).toNat = pa.toNat / 4096 * 1024 % 2 ^ 64 := by
    rw [PA2PTE, UInt64.toNat_shiftLeft, UInt64.toNat_shiftRight, Nat.shiftRight_eq_div_pow,
      Nat.shiftLeft_eq]
    rfl
  rw [hmod]
  omega

lemma or_and (x y z : UInt64) : (x ||| y) &&& z = x &&& z ||| y &&& z := by
  rw [← UInt64.toBitVec_inj]
  exact BitVec.and_or_distrib_right

/-- An address has no bits where the flags are. -/
lemma PA2PTE_high (pa : UInt64) : PA2PTE pa &&& ~~~0x3FF = PA2PTE pa := by
  have hmask : (~~~(0x3FF : UInt64)).toNat = 2 ^ 64 - 2 ^ 10 := by decide
  rw [← UInt64.toNat_inj, UInt64.toNat_and, hmask, and_high (PA2PTE pa).toNat_lt (by decide),
    toNat_PA2PTE]
  omega

lemma PA2PTE_and {f : UInt64} (hf : f.toNat < 1024) : PA2PTE a &&& f = 0 := by
  have hlow : f = 0x3FF &&& f := by
    rw [← UInt64.toNat_inj, UInt64.toNat_and, Nat.and_comm]
    exact ((and_low _ 10).trans (Nat.mod_eq_of_lt hf)).symm
  have hmask : ~~~0x3FF &&& (0x3FF : UInt64) = 0 := by decide
  calc PA2PTE a &&& f
      = PA2PTE a &&& ~~~0x3FF &&& (0x3FF &&& f) := by rw [PA2PTE_high, ← hlow]
    _ = PA2PTE a &&& (~~~0x3FF &&& 0x3FF) &&& f := by simp only [UInt64.and_assoc]
    _ = 0 := by rw [hmask, UInt64.and_zero, UInt64.zero_and]

/-- The flags of an entry. -/
lemma entry_and {f g : UInt64} (hf : f.toNat < 1024) : (PA2PTE a ||| g) &&& f = g &&& f := by
  rw [or_and, PA2PTE_and hf, UInt64.zero_or]

lemma toNat_PTE2PA (pte : UInt64) : (PTE2PA pte).toNat = pte.toNat / 1024 * 4096 % 2 ^ 64 := by
  rw [PTE2PA, UInt64.toNat_shiftLeft, UInt64.toNat_shiftRight, Nat.shiftRight_eq_div_pow,
    Nat.shiftLeft_eq]
  rfl

lemma toNat_PTE_FLAGS (pte : UInt64) : (PTE_FLAGS pte).toNat = pte.toNat % 1024 := by
  rw [PTE_FLAGS, UInt64.toNat_and]
  exact and_low _ 10

/-- An entry is an address and flags, apart from each other. -/
lemma toNat_entry {pa f : UInt64} (hf : f.toNat < 1024) :
    (PA2PTE pa ||| f).toNat = (PA2PTE pa).toNat + f.toNat := by
  rw [UInt64.toNat_or, toNat_PA2PTE]
  have hmul : pa.toNat / 4096 * 1024 = (pa.toNat / 4096) <<< 10 := by
    rw [Nat.shiftLeft_eq]
  rw [hmul, ← Nat.shiftLeft_add_eq_or_of_lt hf]

/-- An entry holds any address of a page. -/
lemma PTE2PA_entry {pa f : UInt64} (hpa : pa.toNat % 4096 = 0) (hf : f.toNat < 1024) :
    PTE2PA (PA2PTE pa ||| f) = pa := by
  have := pa.toNat_lt
  rw [← UInt64.toNat_inj, toNat_PTE2PA, toNat_entry hf, toNat_PA2PTE]
  omega

lemma FLAGS_entry {pa f : UInt64} (hf : f.toNat < 1024) : PTE_FLAGS (PA2PTE pa ||| f) = f := by
  rw [← UInt64.toNat_inj, toNat_PTE_FLAGS, toNat_entry hf, toNat_PA2PTE]
  omega

lemma PTE2PA_aligned (pte : UInt64) : (PTE2PA pte).toNat % 4096 = 0 := by
  rw [toNat_PTE2PA]
  omega

/-! ### Pages of bytes -/

/-- The bytes of a page. -/
abbrev Page := Fin 4096 → UInt8

lemma slot_lt (i : Fin 512) (j : Fin 8) : 8 * i.val + j.val < 4096 := by omega

/-- Where byte `j` of entry `i` is. -/
def slot (i : Fin 512) (j : Fin 8) : Fin 4096 := ⟨8 * i.val + j.val, slot_lt i j⟩

/-- `pagetable[i]`, little-endian. -/
def entry (pg : Page) (i : Fin 512) : UInt64 :=
  UInt64.ofNat (∑ j : Fin 8, (pg (slot i j)).toNat * 2 ^ (8 * j.val))

/-- The assignment `pagetable[i] = e`. -/
def setEntry (pg : Page) (i : Fin 512) (e : UInt64) : Page := fun k =>
  if k.val / 8 = i.val then UInt8.ofNat (e.toNat / 2 ^ (8 * (k.val % 8))) else pg k

/-- `memset(page, c, PGSIZE)` -/
def filled (c : UInt8) : Page := fun _ => c

variable {pg : Page} {i j : Fin 512} {e : UInt64}

lemma entry_setEntry_self : entry (setEntry pg i e) i = e := by
  have hbyte : ∀ j : Fin 8, (setEntry pg i e (slot i j)).toNat = e.toNat / 2 ^ (8 * j.val) % 256 := by
    intro j
    have hdiv : (slot i j).val / 8 = i.val := by simp only [slot]; omega
    have hmod : (slot i j).val % 8 = j.val := by simp only [slot]; omega
    simp only [setEntry, hdiv, hmod, if_true]
    exact UInt8.toNat_ofNat'
  have hsum : ∑ j : Fin 8, (setEntry pg i e (slot i j)).toNat * 2 ^ (8 * j.val) = e.toNat := by
    simp only [hbyte]
    have hlt := e.toNat_lt
    simp only [Fin.sum_univ_eight, Fin.val_zero, Fin.val_one, Fin.val_two]
    simp only [show ((3 : Fin 8) : ℕ) = 3 from rfl, show ((4 : Fin 8) : ℕ) = 4 from rfl,
      show ((5 : Fin 8) : ℕ) = 5 from rfl, show ((6 : Fin 8) : ℕ) = 6 from rfl,
      show ((7 : Fin 8) : ℕ) = 7 from rfl, Nat.reduceMul, Nat.reducePow]
    omega
  rw [entry, hsum, UInt64.ofNat_toNat]

lemma entry_setEntry_ne (h : j ≠ i) : entry (setEntry pg i e) j = entry pg j := by
  have hbyte : ∀ k : Fin 8, setEntry pg i e (slot j k) = pg (slot j k) := by
    intro k
    have hdiv : (slot j k).val / 8 ≠ i.val := by
      have : (slot j k).val / 8 = j.val := by simp only [slot]; omega
      rw [this]
      exact fun hv => h (Fin.ext hv)
    simp only [setEntry, hdiv, if_false]
  simp only [entry, hbyte]

@[simp] lemma entry_zero : entry (filled 0) i = 0 := by
  simp [entry, filled]

end Xv6.Vm.Paging
