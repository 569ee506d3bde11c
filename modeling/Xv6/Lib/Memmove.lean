import Mathlib.Data.UInt
import Mathlib.Logic.Function.Basic
import Mathlib.Tactic.Common

/-!
`memmove`, in the kernel (`string.c`) and in the user library (`ulib.c`). The two choose the
direction in which they copy by different tests.
-/

namespace Xv6.Lib.Memmove

/-- Memory by addresses. -/
abbrev Mem := UInt64 → UInt8

/-- `while(n-- > 0) *d++ = *s++;` in `n` rounds. -/
def upwards : ℕ → UInt64 → UInt64 → Mem → Mem
  | 0, _, _, m => m
  | n + 1, s, d, m => upwards n (s + 1) (d + 1) (Function.update m d (m s))

/-- `while(n-- > 0) *--d = *--s;` in `n` rounds. -/
def downwards : ℕ → UInt64 → UInt64 → Mem → Mem
  | 0, _, _, m => m
  | n + 1, s, d, m => downwards n (s - 1) (d - 1) (Function.update m (d - 1) (m (s - 1)))

namespace Kernel

/-- What it returns, and the memory it leaves. -/
def memmove (dst src : UInt64) (n : UInt32) (m : Mem) : UInt64 × Mem :=
  if n = 0 then (dst, m)
  else if src < dst ∧ src + n.toUInt64 > dst then
    (dst, downwards n.toNat (src + n.toUInt64) (dst + n.toUInt64) m)
  else (dst, upwards n.toNat src dst m)

end Kernel

namespace User

/-- `n` is an `int`: the loops run as long as it is positive, the pointers are moved by it whatever
its sign. -/
def memmove (dst src : UInt64) (n : Int32) (m : Mem) : UInt64 × Mem :=
  if src > dst then (dst, upwards n.toInt.toNat src dst m)
  else (dst, downwards n.toInt.toNat (src + n.toInt64.toUInt64) (dst + n.toInt64.toUInt64) m)

end User

/-! ### What has been copied -/

/-- The bytes from `lo` to `hi` of the range at `src` have been copied to the range at `dst`. -/
def copied (dst src : UInt64) (lo hi : ℕ) (m : Mem) : Mem :=
  fun a => if lo ≤ (a - dst).toNat ∧ (a - dst).toNat < hi then m (src + (a - dst)) else m a

variable {dst src : UInt64} {lo hi n : ℕ} {m : Mem}

lemma copied_self : copied dst src lo lo m = m := by
  ext a
  simp only [copied]
  rw [if_neg (by omega)]

lemma add_ofNat_sub (h : lo < 2 ^ 64) : (dst + UInt64.ofNat lo - dst).toNat = lo := by
  rw [add_sub_cancel_left, UInt64.toNat_ofNat', Nat.mod_eq_of_lt h]

/-- Where a byte is read that has not been overwritten yet. -/
lemma copied_of_notMem {a : UInt64} (h : ¬(lo ≤ (a - dst).toNat ∧ (a - dst).toNat < hi)) :
    copied dst src lo hi m a = m a :=
  if_neg h

/-- An address at distance `i` from `dst`. -/
lemma eq_add_ofNat_iff {a : UInt64} {i : ℕ} (h : i < 2 ^ 64) :
    a = dst + UInt64.ofNat i ↔ (a - dst).toNat = i := by
  constructor
  · rintro rfl
    exact add_ofNat_sub h
  · intro ha
    rw [← ha, UInt64.ofNat_toNat, add_sub_cancel]

/-- One more byte at the end. -/
lemma copied_succ (hlo : lo ≤ hi) (h : hi < 2 ^ 64)
    (hread : ¬(lo ≤ (src + UInt64.ofNat hi - dst).toNat ∧ (src + UInt64.ofNat hi - dst).toNat < hi)) :
    Function.update (copied dst src lo hi m) (dst + UInt64.ofNat hi)
      (copied dst src lo hi m (src + UInt64.ofNat hi)) = copied dst src lo (hi + 1) m := by
  ext a
  rw [copied_of_notMem hread]
  by_cases ha : a = dst + UInt64.ofNat hi
  · rw [ha, Function.update_self, copied, add_ofNat_sub h, if_pos (by omega), add_sub_cancel_left]
  · rw [Function.update_of_ne ha]
    have hne : (a - dst).toNat ≠ hi := fun hi' => ha ((eq_add_ofNat_iff h).mpr hi')
    have hiff : (lo ≤ (a - dst).toNat ∧ (a - dst).toNat < hi) ↔
        (lo ≤ (a - dst).toNat ∧ (a - dst).toNat < hi + 1) :=
      ⟨fun h => ⟨h.1, by omega⟩, fun h => ⟨h.1, by omega⟩⟩
    simp only [copied, hiff]

/-- One more byte at the beginning. -/
lemma copied_pred (hlo : lo < hi) (h : hi ≤ 2 ^ 64)
    (hread : ¬(lo + 1 ≤ (src + UInt64.ofNat lo - dst).toNat ∧
      (src + UInt64.ofNat lo - dst).toNat < hi)) :
    Function.update (copied dst src (lo + 1) hi m) (dst + UInt64.ofNat lo)
      (copied dst src (lo + 1) hi m (src + UInt64.ofNat lo)) = copied dst src lo hi m := by
  have hlo' : lo < 2 ^ 64 := by omega
  ext a
  rw [copied_of_notMem hread]
  by_cases ha : a = dst + UInt64.ofNat lo
  · rw [ha, Function.update_self, copied, add_ofNat_sub hlo', if_pos (by omega), add_sub_cancel_left]
  · rw [Function.update_of_ne ha]
    have hne : (a - dst).toNat ≠ lo := fun hi' => ha ((eq_add_ofNat_iff hlo').mpr hi')
    have hiff : (lo + 1 ≤ (a - dst).toNat ∧ (a - dst).toNat < hi) ↔
        (lo ≤ (a - dst).toNat ∧ (a - dst).toNat < hi) :=
      ⟨fun h => ⟨by omega, h.2⟩, fun h => ⟨by omega, h.2⟩⟩
    simp only [copied, hiff]

/-! ### The loops -/

/-- Copying upwards is right where no byte is written before it is read. -/
lemma upwards_eq (hn : n ≤ 2 ^ 64)
    (hread : ∀ i < n, i ≤ (src + UInt64.ofNat i - dst).toNat) :
    upwards n src dst m = copied dst src 0 n m := by
  have hloop : ∀ k i, i + k = n →
      upwards k (src + UInt64.ofNat i) (dst + UInt64.ofNat i) (copied dst src 0 i m) =
        copied dst src 0 n m := by
    intro k
    induction k with
    | zero =>
      intro i hi
      obtain rfl : i = n := hi
      rfl
    | succ k ih =>
      intro i hi
      have := hread i (by omega)
      rw [upwards, copied_succ (by omega) (by omega) (by omega), add_assoc, add_assoc,
        ← UInt64.ofNat_one, ← UInt64.ofNat_add]
      exact ih (i + 1) (by omega)
  have := hloop n 0 (by omega)
  have hzero : UInt64.ofNat 0 = 0 := rfl
  rwa [hzero, add_zero, add_zero, copied_self] at this

/-- Copying downwards is right where no byte is written before it is read. -/
lemma downwards_eq (hn : n ≤ 2 ^ 64)
    (hread : ∀ i < n, (src + UInt64.ofNat i - dst).toNat ≤ i ∨ n ≤ (src + UInt64.ofNat i - dst).toNat) :
    downwards n (src + UInt64.ofNat n) (dst + UInt64.ofNat n) m = copied dst src 0 n m := by
  have hpred : ∀ (x : UInt64) k, x + UInt64.ofNat (k + 1) - 1 = x + UInt64.ofNat k := by
    intro x k
    rw [UInt64.ofNat_add, UInt64.ofNat_one, ← add_assoc, add_sub_cancel_right]
  have hloop : ∀ k, k ≤ n → downwards k (src + UInt64.ofNat k) (dst + UInt64.ofNat k)
      (copied dst src k n m) = copied dst src 0 n m := by
    intro k
    induction k with
    | zero => exact fun _ => rfl
    | succ k ih =>
      intro hk
      have := hread k (by omega)
      rw [downwards, hpred, hpred, copied_pred (by omega) hn (by omega)]
      exact ih (by omega)
  have := hloop n le_rfl
  rwa [copied_self] at this

/-! ### The two versions -/

variable {k : Int32}

/-- How far each byte is read from where it is written. -/
lemma distance {i : ℕ} (hi : i < n) (hsrc : src.toNat + n ≤ 2 ^ 64) :
    (src + UInt64.ofNat i - dst).toNat =
      if dst.toNat ≤ src.toNat + i then src.toNat + i - dst.toNat
      else 2 ^ 64 - (dst.toNat - (src.toNat + i)) := by
  have hadd : (src + UInt64.ofNat i).toNat = src.toNat + i := by
    rw [UInt64.toNat_add, UInt64.toNat_ofNat', Nat.add_mod_mod, Nat.mod_eq_of_lt (by omega)]
  have := dst.toNat_lt
  rw [UInt64.toNat_sub, hadd]
  split_ifs <;> omega

/-- Upwards is the right direction unless `dst` is inside of the range at `src`. -/
lemma upwards_of (hsrc : src.toNat + n ≤ 2 ^ 64) (hdst : dst.toNat + n ≤ 2 ^ 64)
    (h : dst.toNat ≤ src.toNat ∨ src.toNat + n ≤ dst.toNat) :
    upwards n src dst m = copied dst src 0 n m := by
  refine upwards_eq (by omega) fun i hi => ?_
  rw [distance hi hsrc]
  split_ifs <;> omega

/-- Downwards is the right direction unless `dst` is below `src`. -/
lemma downwards_of (hsrc : src.toNat + n ≤ 2 ^ 64) (hdst : dst.toNat + n ≤ 2 ^ 64)
    (h : src.toNat ≤ dst.toNat) :
    downwards n (src + UInt64.ofNat n) (dst + UInt64.ofNat n) m = copied dst src 0 n m := by
  refine downwards_eq (by omega) fun i hi => ?_
  rw [distance hi hsrc]
  split_ifs <;> omega

namespace Kernel

lemma memmove_eq {n : UInt32} (hsrc : src.toNat + n.toNat ≤ 2 ^ 64)
    (hdst : dst.toNat + n.toNat ≤ 2 ^ 64) :
    memmove dst src n m = (dst, copied dst src 0 n.toNat m) := by
  unfold memmove
  have hn : n.toUInt64 = UInt64.ofNat n.toNat := by simp
  split_ifs with h0 h
  · subst h0
    rw [UInt32.toNat_zero, copied_self]
  · rw [hn, downwards_of hsrc hdst (UInt64.le_iff_toNat_le.mp (UInt64.le_of_lt h.1))]
  · rw [upwards_of hsrc hdst]
    rw [UInt64.lt_iff_toNat_lt, gt_iff_lt, UInt64.lt_iff_toNat_lt, UInt64.toNat_add,
      UInt32.toNat_toUInt64] at h
    -- where `src + n` is 0, `src` is not below `dst`, as the range at `dst` does not wrap
    by_cases hwrap : src.toNat + n.toNat = 2 ^ 64
    · omega
    · rw [Nat.mod_eq_of_lt (by omega)] at h
      omega

end Kernel

namespace User

lemma memmove_eq (hn : n < 2 ^ 31) (hsrc : src.toNat + n ≤ 2 ^ 64) (hdst : dst.toNat + n ≤ 2 ^ 64) :
    memmove dst src (.ofNat n) m = (dst, copied dst src 0 n m) := by
  have hlen : (Int32.ofNat n).toInt.toNat = n := by
    rw [Int32.toInt_ofNat_of_lt hn, Int.toNat_natCast]
  have hoff : (Int32.ofNat n).toInt64.toUInt64 = UInt64.ofNat n := by
    have h64 : (Int32.ofNat n).toInt64 = Int64.ofNat n := by
      apply Int64.toInt.inj
      rw [Int32.toInt_toInt64, Int32.toInt_ofNat_of_lt hn, Int64.toInt_ofNat_of_lt (by omega)]
    rw [h64, Int64.toUInt64_ofNat']
  unfold memmove
  rw [hlen, hoff]
  split_ifs with h
  · rw [upwards_of hsrc hdst (.inl (UInt64.le_iff_toNat_le.mp (UInt64.le_of_lt h)))]
  · rw [downwards_of hsrc hdst (UInt64.le_iff_toNat_le.mp (UInt64.not_lt.mp h))]

end User

/-- **Both versions of `memmove` move any two ranges** of less than 2^31 bytes that do not wrap,
however they overlap: the bytes at `dst` are those that were at `src`, and no other byte changes. -/
theorem memmove_overlap_safe (dst src : UInt64) (n : ℕ) (m : Mem) (hn : n < 2 ^ 31)
    (hsrc : src.toNat + n ≤ 2 ^ 64) (hdst : dst.toNat + n ≤ 2 ^ 64) :
    (∀ i < n, (Kernel.memmove dst src (.ofNat n) m).2 (dst + .ofNat i) = m (src + .ofNat i)) ∧
    (∀ a : UInt64, ¬(dst.toNat ≤ a.toNat ∧ a.toNat < dst.toNat + n) →
      (Kernel.memmove dst src (.ofNat n) m).2 a = m a) ∧
    User.memmove dst src (.ofNat n) m = Kernel.memmove dst src (.ofNat n) m := by
  have hlen : (UInt32.ofNat n).toNat = n := by
    rw [UInt32.toNat_ofNat', Nat.mod_eq_of_lt (by omega)]
  have hkernel : Kernel.memmove dst src (.ofNat n) m = (dst, copied dst src 0 n m) := by
    rw [Kernel.memmove_eq (by omega) (by omega), hlen]
  rw [hkernel, User.memmove_eq hn hsrc hdst]
  refine ⟨fun i hi => ?_, fun a ha => copied_of_notMem fun ⟨_, h⟩ => ha ?_, rfl⟩
  · have hi' : i < 2 ^ 64 := by omega
    simp only [copied]
    rw [add_ofNat_sub hi', if_pos ⟨Nat.zero_le i, hi⟩, add_sub_cancel_left]
  · have := a.toNat_lt
    rw [UInt64.toNat_sub] at h
    omega

/-- Four bytes are moved by one. -/
theorem memmove_overlap_safe_four :
    (∀ i < 4, (Kernel.memmove 101 100 (.ofNat 4) UInt64.toUInt8).2 (101 + .ofNat i) =
      (100 + UInt64.ofNat i).toUInt8) ∧
    (∀ a : UInt64, ¬(101 ≤ a.toNat ∧ a.toNat < 101 + 4) →
      (Kernel.memmove 101 100 (.ofNat 4) UInt64.toUInt8).2 a = a.toUInt8) ∧
    User.memmove 101 100 (.ofNat 4) UInt64.toUInt8 = Kernel.memmove 101 100 (.ofNat 4) UInt64.toUInt8 :=
  memmove_overlap_safe 101 100 4 UInt64.toUInt8 (by decide) (by decide) (by decide)

end Xv6.Lib.Memmove
