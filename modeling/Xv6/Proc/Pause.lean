import Mathlib.Data.UInt
import Mathlib.Tactic.Common

/-!
`sys_pause` and `sys_sleep2`: both wait for the tick counter, which is a `uint`, and compare the
ticks since the call with an `int`.
-/

namespace Xv6.Proc.Pause

/-- What a waiting process sees: the counter, whether `p->killed` is set, and whether it is asleep
on `&ticks`. `passed` is how many ticks there have been since the call. -/
structure Kernel where
  ticks : UInt32
  passed : ℕ
  killed : Bool
  asleep : Bool

/-- What can happen while it waits. A `kkill` is `killed`, and `wakeup` if it finds the process
asleep. -/
inductive Event
  | clockintr
  | killed
  | wakeup
  | run

/-- A clock interrupt wakes who is asleep on `&ticks`. -/
def clockintr (k : Kernel) : Kernel :=
  { k with ticks := k.ticks + 1, passed := k.passed + 1, asleep := false }

/-- What a call returns, and after how many ticks. -/
abbrev Outcome := UInt64 × ℕ

/-- The head of the loop with the test of `p->killed`, up to the call of `sleep`. -/
def test (busy : Kernel → Bool) (k : Kernel) : Option Outcome :=
  if busy k then
    if k.killed then some (-1, k.passed) else none
  else some (0, k.passed)

/-- The rest of the loop, from a `sleep` on: what it returns if it is over within `events`. -/
def loop (busy : Kernel → Bool) : List Event → Kernel → Option Outcome
  | [], _ => none
  | .clockintr :: es, k => loop busy es (clockintr k)
  | .killed :: es, k => loop busy es { k with killed := true }
  | .wakeup :: es, k => loop busy es { k with asleep := false }
  | .run :: es, k =>
    if k.asleep then loop busy es k
    else
      match test busy k with
      | some r => some r
      | none => loop busy es { k with asleep := true }

/-- `while(busy) { if(p->killed) return -1; sleep(&ticks, &tickslock); } return 0;` -/
def wait (busy : Kernel → Bool) (k : Kernel) (es : List Event) : Option Outcome :=
  match test busy k with
  | some r => some r
  | none => loop busy es { k with asleep := true }

/-- The kernel at the call, with the count of the ticks at 0. -/
def called (ticks0 : UInt32) (killed : Bool) : Kernel := ⟨ticks0, 0, killed, false⟩

/-- `ticks - ticks0 < n`: the `int` is converted, as the other side is unsigned. -/
def fewer (ticks0 : UInt32) (n : Int32) (k : Kernel) : Bool :=
  decide (k.ticks - ticks0 < n.toUInt32)

def sys_pause (n : Int32) (ticks0 : UInt32) (killed : Bool) (es : List Event) : Option Outcome :=
  let n := if n < 0 then 0 else n
  wait (fewer ticks0 n) (called ticks0 killed) es

def sys_sleep2 (n : Int32) (ticks0 : UInt32) (killed : Bool) (es : List Event) : Option Outcome :=
  wait (fewer ticks0 n) (called ticks0 killed) es

/-- **The purpose**: 0 once `max n 0` ticks have passed, -1 if the process is found killed before. -/
def waited (n : Int32) (ticks0 : UInt32) (killed : Bool) (es : List Event) : Option Outcome :=
  wait (fun k => decide ((k.passed : ℤ) < max n.toInt 0)) (called ticks0 killed) es

/-! ### The tests of a process that goes on waiting -/

/-- The tests made by a process that sleeps again after each: the ticks passed, and whether it is
found killed. -/
def retests : List Event → Kernel → List (ℕ × Bool)
  | [], _ => []
  | .clockintr :: es, k => retests es (clockintr k)
  | .killed :: es, k => retests es { k with killed := true }
  | .wakeup :: es, k => retests es { k with asleep := false }
  | .run :: es, k =>
    if k.asleep then retests es k else (k.passed, k.killed) :: retests es { k with asleep := true }

def tests (ticks0 : UInt32) (killed : Bool) (es : List Event) : List (ℕ × Bool) :=
  (0, killed) :: retests es { called ticks0 killed with asleep := true }

/-- The outcome of a loop whose test looks at the ticks that have passed. -/
def first (busy : ℕ → Bool) : List (ℕ × Bool) → Option Outcome
  | [] => none
  | t :: ts =>
    if busy t.1 then
      if t.2 then some (-1, t.1) else first busy ts
    else some (0, t.1)

/-- **In time**: the test that first finds `n` ticks passed, if the process has not been found
killed before, is made before the counter has gone round to less than `n` again. -/
def InTime (n : ℕ) (ts : List (ℕ × Bool)) : Prop :=
  ∀ t ∈ ts.find? (fun t => t.2 || decide (n ≤ t.1)), n ≤ t.1 → n ≤ t.1 % 2 ^ 32

section

variable {ticks0 : UInt32} {busy : Kernel → Bool} {b : ℕ → Bool} {k : Kernel} {n : Int32} {N e : ℕ}
  {killed : Bool} {es : List Event} {ts : List (ℕ × Bool)}

/-- The counter is as many ticks on as have passed. -/
def Counts (ticks0 : UInt32) (k : Kernel) : Prop := k.ticks = ticks0 + UInt32.ofNat k.passed

lemma counts_called : Counts ticks0 (called ticks0 killed) := by
  unfold Counts called
  simp

lemma counts_clockintr (h : Counts ticks0 k) : Counts ticks0 (clockintr k) := by
  unfold Counts clockintr at *
  rw [h, UInt32.ofNat_add, UInt32.add_assoc]
  rfl

lemma loop_eq_first (hb : ∀ k, Counts ticks0 k → busy k = b k.passed) (h : Counts ticks0 k) :
    loop busy es k = first b (retests es k) := by
  induction es generalizing k with
  | nil => rfl
  | cons e es ih =>
    cases e with
    | clockintr => exact ih (counts_clockintr h)
    | killed => exact ih h
    | wakeup => exact ih h
    | run =>
      rw [loop, retests]
      by_cases ha : k.asleep = true
      · rw [if_pos ha, if_pos ha]
        exact ih h
      · rw [if_neg ha, if_neg ha, first, test, hb k h]
        have hsleep : Counts ticks0 { k with asleep := true } := h
        by_cases hbusy : b k.passed = true
        · rw [if_pos hbusy, if_pos hbusy]
          by_cases hkilled : k.killed = true
          · rw [if_pos hkilled, if_pos hkilled]
          · rw [if_neg hkilled, if_neg hkilled]
            exact ih hsleep
        · rw [if_neg hbusy, if_neg hbusy]

/-- **A wait is decided by its tests.** -/
lemma wait_eq_first (hb : ∀ k, Counts ticks0 k → busy k = b k.passed) :
    wait busy (called ticks0 killed) es = first b (tests ticks0 killed es) := by
  have hstart : Counts ticks0 (called ticks0 killed) := counts_called
  have hsleep : Counts ticks0 { called ticks0 killed with asleep := true } := hstart
  rw [wait, tests, first, test, hb _ hstart]
  change (match if b 0 then if killed then some (-1, 0) else none else some (0, 0) with
    | some r => some r
    | none => loop busy es { called ticks0 killed with asleep := true }) = _
  by_cases hbusy : b 0 = true
  · rw [if_pos hbusy, if_pos hbusy]
    by_cases hkilled : killed = true
    · rw [if_pos hkilled, if_pos hkilled]
    · rw [if_neg hkilled, if_neg hkilled]
      exact loop_eq_first hb hsleep
  · rw [if_neg hbusy, if_neg hbusy]

/-- 0 is returned at a test that does not find the wait busy. -/
lemma not_busy_of_first (h : first b ts = some (0, e)) : b e = false := by
  induction ts with
  | nil => cases h
  | cons t ts ih =>
    rw [first] at h
    split_ifs at h with hb hk
    · cases h
    · exact ih h
    · cases h
      exact Bool.eq_false_iff.mpr hb

lemma inTime_cons {t : ℕ × Bool} (hlt : t.1 < N) (hk : t.2 = false) :
    InTime N (t :: ts) ↔ InTime N ts := by
  unfold InTime
  rw [List.find?_cons_of_neg (by
    rw [hk, Bool.false_or, decide_eq_true_iff]
    omega)]

/-- The count of the 32-bit counter and that of the ticks come to the same where every test is in
time. -/
lemma first_mod :
    first (fun t => decide (t % 2 ^ 32 < N)) ts = first (fun t => decide (t < N)) ts ↔
      InTime N ts := by
  induction ts with
  | nil =>
    refine ⟨fun _ t ht => ?_, fun _ => rfl⟩
    rw [List.find?_nil] at ht
    cases ht
  | cons t ts ih =>
    have hmod := Nat.mod_le t.1 (2 ^ 32)
    rw [first, first]
    by_cases hlt : t.1 < N
    · rw [if_pos (decide_eq_true hlt), if_pos (decide_eq_true (by omega))]
      by_cases hk : t.2 = true
      · rw [if_pos hk, if_pos hk]
        refine ⟨fun _ t' ht' hle => ?_, fun _ => rfl⟩
        rw [List.find?_cons_of_pos (by rw [hk, Bool.true_or]), Option.mem_some_iff] at ht'
        rw [← ht'] at hle
        omega
      · rw [if_neg hk, if_neg hk, ih, inTime_cons hlt (Bool.eq_false_iff.mpr hk)]
    · have hfind : (t :: ts).find? (fun t => t.2 || decide (N ≤ t.1)) = some t :=
        List.find?_cons_of_pos (by rw [Bool.or_eq_true, decide_eq_true_iff]; omega)
      have htime : InTime N (t :: ts) ↔ N ≤ t.1 % 2 ^ 32 := by
        unfold InTime
        rw [hfind]
        constructor
        · exact fun h => h t rfl (by omega)
        · intro h t' ht' _
          rwa [← Option.mem_some_iff.mp ht']
      have hready : ¬decide (t.1 < N) = true := by
        rw [decide_eq_true_iff]
        exact hlt
      rw [if_neg hready, htime]
      by_cases hle : N ≤ t.1 % 2 ^ 32
      · rw [if_neg (by rw [decide_eq_true_iff]; omega)]
        exact ⟨fun _ => hle, fun _ => rfl⟩
      · refine ⟨fun h => ?_, fun h => absurd h hle⟩
        rw [if_pos (decide_eq_true (by omega))] at h
        split_ifs at h with hk
        · cases h
        · have hb := not_busy_of_first h
          rw [decide_eq_false_iff_not] at hb
          omega

lemma fewer_eq (h : Counts ticks0 k) :
    fewer ticks0 n k = decide (k.passed % 2 ^ 32 < n.toUInt32.toNat) := by
  unfold fewer
  have hdiff : ticks0 + UInt32.ofNat k.passed - ticks0 = UInt32.ofNat k.passed := by
    rw [UInt32.add_comm, UInt32.add_sub_cancel]
  rw [h, hdiff, decide_eq_decide, UInt32.lt_iff_toNat_lt, UInt32.toNat_ofNat']

lemma wait_fewer (n : Int32) (ticks0 : UInt32) (killed : Bool) (es : List Event) :
    wait (fewer ticks0 n) (called ticks0 killed) es =
      first (fun t => decide (t % 2 ^ 32 < n.toUInt32.toNat)) (tests ticks0 killed es) :=
  wait_eq_first fun _ hk => fewer_eq hk

lemma toNat_toUInt32 (h : 0 ≤ n) : n.toUInt32.toNat = n.toInt.toNat :=
  Int32.toNat_toUInt32_of_le h

end

/-- `sys_pause` waits as it should, where the tests are in time. -/
lemma pause_waits (n : Int32) (ticks0 : UInt32) (killed : Bool) (es : List Event) :
    sys_pause n ticks0 killed es = waited n ticks0 killed es ↔
      InTime n.toInt.toNat (tests ticks0 killed es) := by
  have hclamp : (if n < 0 then 0 else n).toUInt32.toNat = n.toInt.toNat := by
    split_ifs with hn
    · rw [Int32.lt_iff_toInt_lt, Int32.toInt_zero] at hn
      rw [Int.toNat_of_nonpos (by omega)]
      rfl
    · exact toNat_toUInt32 (Int32.not_lt.mp hn)
  unfold sys_pause waited
  rw [wait_fewer, hclamp, ← first_mod]
  have hspec : wait (fun k => decide ((k.passed : ℤ) < max n.toInt 0)) (called ticks0 killed) es =
      first (fun t => decide (t < n.toInt.toNat)) (tests ticks0 killed es) :=
    wait_eq_first fun k _ => by
      rw [decide_eq_decide]
      omega
  rw [hspec]

/-- The two calls do the same for the `n` that `sys_pause` leaves as it is, and for no other. -/
lemma sleep2_eq_pause (n : Int32) (ticks0 : UInt32) (killed : Bool) (es : List Event) :
    sys_sleep2 n ticks0 killed es = sys_pause n ticks0 killed es ↔ 0 ≤ n := by
  unfold sys_sleep2 sys_pause
  rw [wait_fewer, wait_fewer]
  constructor
  · intro h
    by_contra hn
    rw [Int32.not_le] at hn
    rw [if_pos hn] at h
    have hzero : first (fun t => decide (t % 2 ^ 32 < (0 : Int32).toUInt32.toNat))
        (tests ticks0 killed es) = some (0, 0) := rfl
    rw [hzero] at h
    have hb := not_busy_of_first h
    rw [decide_eq_false_iff_not, Nat.zero_mod, not_lt, Nat.le_zero] at hb
    have hz : n.toUInt32 = 0 := UInt32.toNat_inj.mp hb
    have hn0 : n = 0 := by
      rw [← Int32.toInt32_toUInt32 n, hz]
      rfl
    rw [hn0] at hn
    exact absurd hn (by decide)
  · intro hn
    rw [if_neg (Int32.not_lt.mpr hn)]

/-- **`sleep2` and `pause`** return the same, after the same number of ticks: 0 once `max n 0` have
passed, -1 if the process is found killed before. It is so where `n` is not negative and the tests
are in time. -/
theorem sleep2_agrees (n : Int32) (ticks0 : UInt32) (killed : Bool) (es : List Event) :
    (sys_sleep2 n ticks0 killed es = waited n ticks0 killed es ∧
        sys_pause n ticks0 killed es = waited n ticks0 killed es) ↔
      0 ≤ n ∧ InTime n.toInt.toNat (tests ticks0 killed es) := by
  rw [← sleep2_eq_pause n ticks0 killed es, ← pause_waits]
  constructor
  · rintro ⟨h1, h2⟩
    exact ⟨h1.trans h2.symm, h2⟩
  · rintro ⟨h1, h2⟩
    exact ⟨h1.trans h2, h2⟩

/-- For -1 `pause` returns at once. `sleep2` goes to sleep, and is killed in its sleep. -/
theorem sleep2_differs :
    sys_pause (-1) 0 false [.clockintr, .killed, .run] = some (0, 0) ∧
      sys_sleep2 (-1) 0 false [.clockintr, .killed, .run] = some (-1, 1) ∧
      waited (-1) 0 false [.clockintr, .killed, .run] = some (0, 0) := by
  decide

end Xv6.Proc.Pause
