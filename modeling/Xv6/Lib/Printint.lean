import Mathlib.Data.Nat.Digits.Lemmas
import Mathlib.Data.UInt
import Mathlib.Tactic.Common

/-!
`printint` and `printptr`, in the kernel and in the user library (`printf.c` of both).
-/

namespace Xv6.Lib.Printint

/-- What has been stored in `char buf[20]`; `i` is its length. -/
structure Buf where
  bytes : List UInt8
  fits : bytes.length ≤ 20

lemma snoc_fits {bytes : List UInt8} (h : bytes.length < 20) (c : UInt8) :
    (bytes ++ [c]).length ≤ 20 := by
  rw [List.length_append, List.length_singleton]
  omega

/-- `buf[i++] = c;`, and nothing where that is outside of the array. -/
def Buf.store (b : Buf) (c : UInt8) : Option Buf :=
  if h : b.bytes.length < 20 then some ⟨b.bytes ++ [c], snoc_fits h c⟩ else none

def Buf.empty : Buf := ⟨[], Nat.zero_le 20⟩

lemma Buf.length_store {b b' : Buf} {c : UInt8} (h : b.store c = some b') :
    20 - b'.bytes.length < 20 - b.bytes.length := by
  unfold Buf.store at h
  split_ifs at h with hb
  cases h
  simp only [List.length_append, List.length_singleton]
  omega

/-- `do { buf[i++] = digits[x % base]; } while((x /= base) != 0);` -/
def generate (digits : List UInt8) (base x : UInt64) (b : Buf) : Option Buf :=
  match hb : b.store (digits.getD (x % base).toNat 0) with
  | none => none
  | some b' =>
    have := Buf.length_store hb
    if x / base ≠ 0 then generate digits base (x / base) b' else some b'
termination_by 20 - b.bytes.length

/-- `for (i = 0; i < n; i++, x <<= 4) putc(digits[x >> 60]);` -/
def nibbles (digits : List UInt8) : ℕ → UInt64 → List UInt8
  | 0, _ => []
  | n + 1, x => digits.getD (x >>> 60).toNat 0 :: nibbles digits n (x <<< 4)

/-- The characters of a string literal. -/
def chars (s : String) : List UInt8 := s.toList.map fun c => c.toNat.toUInt8

namespace Kernel

def digits : List UInt8 := chars "0123456789abcdef"

/-- The bytes that go to `consputc`; none if it leaves `buf`. -/
def printint (xx : Int64) (base : Int32) (sign : Bool) : Option (List UInt8) := do
  let sign := sign && decide (xx < 0)
  let x := if sign then (-xx).toUInt64 else xx.toUInt64
  let b ← generate digits base.toInt64.toUInt64 x Buf.empty
  let b ← if sign then b.store 45 else some b
  return b.bytes.reverse

def printptr (x : UInt64) : List UInt8 := chars "0x" ++ nibbles digits 16 x

end Kernel

namespace User

def digits : List UInt8 := chars "0123456789ABCDEF"

/-- The bytes that go to `putc`; none if it leaves `buf`. -/
def printint (xx : Int64) (base : Int32) (sgn : Bool) : Option (List UInt8) := do
  let (neg, x) := if sgn ∧ xx < 0 then (true, (-xx).toUInt64) else (false, xx.toUInt64)
  let b ← generate digits base.toInt64.toUInt64 x Buf.empty
  let b ← if neg then b.store 45 else some b
  return b.bytes.reverse

def printptr (x : UInt64) : List UInt8 := chars "0x" ++ nibbles digits 16 x

end User

/-! ### Numerals -/

/-- What is printed: a digit, of which each of the two has a glyph of its own, or any byte. -/
inductive Symbol
  | digit (d : ℕ)
  | byte (c : UInt8)
  deriving DecidableEq

def Symbol.glyph (digits : List UInt8) : Symbol → UInt8
  | .digit d => digits.getD d 0
  | .byte c => c

/-- The digits of `n`, the last one first; 0 has one digit. -/
def figures (base n : ℕ) : List ℕ := if n = 0 then [0] else Nat.digits base n

/-- **The canonical numeral** of an integer. -/
def numeral (base : ℕ) (z : ℤ) : List Symbol :=
  (if z < 0 then [.byte 45] else []) ++ (figures base z.natAbs).reverse.map .digit

variable {base : ℕ} {x : UInt64} {n : ℕ}

lemma figures_of_lt (h : n < base) : figures base n = [n] := by
  unfold figures
  split_ifs with h0
  · rw [h0]
  · exact Nat.digits_of_lt base n h0 h

lemma figures_of_le (hbase : 1 < base) (h : base ≤ n) :
    figures base n = n % base :: figures base (n / base) := by
  have hpos : 0 < n / base := Nat.div_pos h (by omega)
  unfold figures
  rw [if_neg (by omega), if_neg (by omega), Nat.digits_def' hbase (by omega)]

lemma length_figures {k : ℕ} (hbase : 1 < base) (hk : 0 < k) (h : n < base ^ k) :
    (figures base n).length ≤ k := by
  unfold figures
  split_ifs with h0
  · exact hk
  · exact (Nat.digits_length_le_iff hbase n).mpr h

/-! ### The loop -/

lemma store_eq {b : Buf} {c : UInt8} (h : b.bytes.length < 20) :
    b.store c = some ⟨b.bytes ++ [c], snoc_fits h c⟩ :=
  dif_pos h

lemma generate_step {digits : List UInt8} {b : UInt64} {buf : Buf} (h : buf.bytes.length < 20) :
    generate digits b x buf =
      if x / b ≠ 0 then
        generate digits b (x / b) ⟨buf.bytes ++ [digits.getD (x % b).toNat 0], snoc_fits h _⟩
      else some ⟨buf.bytes ++ [digits.getD (x % b).toNat 0], snoc_fits h _⟩ := by
  rw [generate]
  split
  · rename_i hb
    rw [store_eq h] at hb
    cases hb
  · rename_i b' hb
    rw [store_eq h] at hb
    cases hb
    rfl

/-- The loop appends the digits, if there is room for them. -/
lemma generate_eq (digits : List UInt8) {b : UInt64} (hb : b.toNat = base) (hbase : 1 < base)
    (hn : x.toNat = n) (buf : Buf) (hroom : buf.bytes.length + (figures base n).length ≤ 20) :
    ∃ buf', generate digits b x buf = some buf' ∧
      buf'.bytes = buf.bytes ++ (figures base n).map fun d => digits.getD d 0 := by
  induction n using Nat.strong_induction_on generalizing x buf with
  | _ n ih =>
    have hmod : (x % b).toNat = n % base := by rw [UInt64.toNat_mod, hn, hb]
    have hdiv : (x / b).toNat = n / base := by rw [UInt64.toNat_div, hn, hb]
    have hzero : x / b = 0 ↔ n < base := by
      rw [← UInt64.toNat_inj, hdiv, UInt64.toNat_zero, Nat.div_eq_zero_iff]
      omega
    by_cases hlt : n < base
    · rw [figures_of_lt hlt] at hroom ⊢
      have hlen : buf.bytes.length < 20 := by simpa using hroom
      rw [generate_step hlen, if_neg (by simpa using hzero.mpr hlt), hmod, Nat.mod_eq_of_lt hlt]
      exact ⟨_, rfl, rfl⟩
    · have hle := Nat.le_of_not_lt hlt
      rw [figures_of_le hbase hle, List.length_cons] at hroom
      have hlen : buf.bytes.length < 20 := by omega
      rw [generate_step hlen, if_pos fun h => hlt (hzero.mp h), hmod, figures_of_le hbase hle]
      have hsmaller : n / base < n := Nat.div_lt_self (by omega) hbase
      obtain ⟨buf', h1, h2⟩ := ih (n / base) hsmaller hdiv
        ⟨buf.bytes ++ [digits.getD (n % base) 0], snoc_fits hlen _⟩ (by
          rw [List.length_append, List.length_singleton]
          omega)
      refine ⟨buf', h1, ?_⟩
      rw [h2, List.map_cons, List.append_assoc, List.singleton_append]

/-! ### What is printed -/

/-- `printint` on a number of at most 20 digits, or 19 with the sign. -/
lemma printed (digits : List UInt8) {b : UInt64} (hb : b.toNat = base) (hbase : 1 < base)
    {neg : Bool} {z : ℤ} (hneg : neg = decide (z < 0)) (hx : x.toNat = z.natAbs)
    (hroom : (figures base z.natAbs).length + neg.toNat ≤ 20) :
    (do
      let buf ← generate digits b x Buf.empty
      let buf ← if neg then buf.store 45 else some buf
      return buf.bytes.reverse) = some ((numeral base z).map (Symbol.glyph digits)) := by
  obtain ⟨buf, h1, h2⟩ := generate_eq digits hb hbase hx Buf.empty (by
    rw [Buf.empty, List.length_nil]
    omega)
  rw [Buf.empty, List.nil_append] at h2
  rw [h1]
  cases neg with
  | false =>
    have hz : ¬ z < 0 := by simpa using hneg.symm
    simp [numeral, hz, h2, Symbol.glyph, List.map_reverse]
  | true =>
    have hz : z < 0 := by simpa using hneg.symm
    have hlen : buf.bytes.length < 20 := by
      rw [h2, List.length_map]
      simpa using hroom
    simp [numeral, hz, store_eq hlen, h2, Symbol.glyph, List.map_reverse]

/-- The number that a 64-bit value stands for, as a signed number or not. -/
def value (sign : Bool) (xx : Int64) : ℤ := if sign then xx.toInt else xx.toUInt64.toNat

variable {xx : Int64} {sign : Bool}

lemma toInt_eq (xx : Int64) : xx.toInt =
    if xx.toUInt64.toNat < 2 ^ 63 then (xx.toUInt64.toNat : ℤ) else xx.toUInt64.toNat - 2 ^ 64 := by
  have h := BitVec.toInt_eq_toNat_cond xx.toBitVec
  change xx.toInt = _ at h
  rw [h]
  change (if 2 * xx.toUInt64.toNat < 2 ^ 64 then _ else _) = _
  have hiff : 2 * xx.toUInt64.toNat < 2 ^ 64 ↔ xx.toUInt64.toNat < 2 ^ 63 := by omega
  simp only [hiff]
  rfl

/-- The magnitude, also of the most negative number. -/
lemma toNat_neg (h : xx < 0) : (-xx).toUInt64.toNat = xx.toInt.natAbs := by
  have hneg : (-xx).toUInt64.toNat = (2 ^ 64 - xx.toUInt64.toNat) % 2 ^ 64 := by
    change (-xx.toBitVec).toNat = _
    rw [BitVec.toNat_neg]
    rfl
  have hlt := xx.toUInt64.toNat_lt
  have hint := toInt_eq xx
  rw [Int64.lt_iff_toInt_lt, Int64.toInt_zero] at h
  rw [hneg]
  split_ifs at hint <;> omega

lemma magnitude (xx : Int64) (sign : Bool) {neg : Bool} (hneg : neg = (sign && decide (xx < 0))) :
    neg = decide (value sign xx < 0) ∧
      (if neg then (-xx).toUInt64 else xx.toUInt64).toNat = (value sign xx).natAbs := by
  have hlt : xx < 0 ↔ xx.toInt < 0 := by rw [Int64.lt_iff_toInt_lt, Int64.toInt_zero]
  subst hneg
  cases sign with
  | false => simp [value]
  | true =>
    by_cases hxx : xx < 0
    · refine ⟨by simp [value, hxx, hlt.mp hxx], ?_⟩
      simp only [value, hxx, decide_true, Bool.and_true, if_true]
      exact toNat_neg hxx
    · have hint := toInt_eq xx
      have hnonneg : ¬ xx.toInt < 0 := fun h => hxx (hlt.mpr h)
      have := xx.toUInt64.toNat_lt
      simp only [value, hxx, hnonneg, decide_false, Bool.and_false, if_true, Bool.false_eq_true, if_false,
        true_and]
      split_ifs at hint <;> omega

/-- The numerals fit into `buf`. -/
lemma numeral_fits (xx : Int64) (sign : Bool) (hbase : 10 ≤ base) :
    (figures base (value sign xx).natAbs).length + (decide (value sign xx < 0)).toNat ≤ 20 := by
  have hlt := xx.toUInt64.toNat_lt
  have hint := toInt_eq xx
  have hpow : ∀ k, 10 ^ k ≤ base ^ k := fun k => Nat.pow_le_pow_left hbase k
  by_cases hneg : value sign xx < 0
  · have hsign : sign = true := by
      cases sign with
      | true => rfl
      | false => simp [value] at hneg; omega
    subst hsign
    have hmag : (value true xx).natAbs < 10 ^ 19 := by
      simp only [value, if_true] at hneg ⊢
      split_ifs at hint <;> omega
    have := length_figures (by omega) (by omega) (lt_of_lt_of_le hmag (hpow 19))
    simp only [hneg, decide_true, Bool.toNat_true]
    omega
  · have hmag : (value sign xx).natAbs < 10 ^ 20 := by
      unfold value
      split_ifs at hint ⊢ <;> omega
    have := length_figures (by omega) (by omega) (lt_of_lt_of_le hmag (hpow 20))
    simp only [hneg, decide_false, Bool.toNat_false]
    omega

/-- **Both versions of `printint` print the canonical numeral**, in base 10 or 16, of the value as a
signed or an unsigned number, and stay within `buf`. -/
theorem printint_numeral (xx : Int64) (sign : Bool) (base : Int32) (hbase : base = 10 ∨ base = 16) :
    Kernel.printint xx base sign =
      some ((numeral base.toInt.toNat (value sign xx)).map (Symbol.glyph Kernel.digits)) ∧
    User.printint xx base sign =
      some ((numeral base.toInt.toNat (value sign xx)).map (Symbol.glyph User.digits)) := by
  have hb : base.toInt64.toUInt64.toNat = base.toInt.toNat ∧ 10 ≤ base.toInt.toNat := by
    rcases hbase with rfl | rfl <;> decide
  obtain ⟨hb, h10⟩ := hb
  obtain ⟨hneg, hmag⟩ := magnitude xx sign rfl
  have hroom := numeral_fits xx sign h10
  rw [← hneg] at hroom
  constructor
  · exact printed Kernel.digits hb (by omega) hneg hmag hroom
  · rw [← printed User.digits hb (by omega) hneg hmag hroom]
    unfold User.printint
    cases sign <;> by_cases hxx : xx < 0 <;> simp [hxx]

theorem printint_numeral_min :
    Kernel.printint Int64.minValue 10 true =
      some ((numeral 10 (value true Int64.minValue)).map (Symbol.glyph Kernel.digits)) ∧
    User.printint Int64.minValue 10 true =
      some ((numeral 10 (value true Int64.minValue)).map (Symbol.glyph User.digits)) :=
  printint_numeral Int64.minValue true 10 (.inl rfl)

end Xv6.Lib.Printint
