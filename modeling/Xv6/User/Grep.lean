import Xv6.User.Match

/-!
`grep.c`: lines are taken from a buffer of fixed size, which is filled up behind the line that is
not at its end yet.
-/

namespace Xv6.User.Grep

open Xv6.User.Match

def NL : UInt8 := 10

/-- `sizeof(buf)` -/
def SIZE : ℕ := 1024

/-- Where the first `c` is. -/
def strchr (c : UInt8) : List UInt8 → Option ℕ
  | [] => none
  | x :: s => if x = 0 then none else if x = c then some 0 else (strchr c s).map (· + 1)

/-- The inner loop of `grep` from `p` on: what it writes, and what it leaves. A round takes at least
one byte, so there are no more rounds than bytes. -/
def lineLoop (pattern : List UInt8) : ℕ → List UInt8 → List UInt8 × List UInt8
  | 0, p => ([], p)
  | fuel + 1, p =>
    match strchr NL p with
    | none => ([], p)
    | some q =>
      let r := lineLoop pattern fuel (p.drop (q + 1))
      (if matchText pattern (p.take q) then p.take (q + 1) ++ r.1 else r.1, r.2)

/-- How many bytes `read` returns, of `size` at most, when `want` would do. -/
def readSize (size want left : ℕ) : ℕ := min size (min left (max want 1))

/-- The loop of `grep` with `buf` as the first `m` bytes of the buffer. `input` is what is still to
be read, read number `k` brings `chunk k` bytes if it can, and `out` has been written. -/
def grepLoop (pattern : List UInt8) (chunk : ℕ → ℕ) :
    ℕ → ℕ → List UInt8 → List UInt8 → List UInt8 → List UInt8
  | 0, _, _, _, out => out
  | fuel + 1, k, buf, input, out =>
    let n := readSize (SIZE - buf.length - 1) (chunk k) input.length
    if 0 < n then
      let p := buf ++ input.take n
      let r := lineLoop pattern p.length p
      grepLoop pattern chunk fuel (k + 1) r.2 (input.drop n) (out ++ r.1)
    else out

/-- A round of the loop reads at least one byte, but for the last. -/
def grep (pattern : List UInt8) (chunk : ℕ → ℕ) (input : List UInt8) : List UInt8 :=
  grepLoop pattern chunk (input.length + 1) 0 [] input []

/-! ### Lines -/

/-- The lines with the newlines after them. -/
def text (ls : List (List UInt8)) : List UInt8 := ls.flatMap (· ++ [NL])

/-- The lines of an input, without their newlines. -/
def Lines (ls : List (List UInt8)) : Prop := ∀ l ∈ ls, NL ∉ l ∧ 0 ∉ l

/-- A line that the buffer has room for, with its newline and the NUL. -/
def Short (l : List UInt8) : Prop := l.length + 2 ≤ SIZE

instance (l : List UInt8) : Decidable (Short l) := inferInstanceAs (Decidable (_ ≤ _))

variable {pattern p rest input out l : List UInt8} {ls : List (List UInt8)} {chunk : ℕ → ℕ}
  {c : UInt8} {fuel k q : ℕ}

@[simp] lemma text_nil : text [] = [] := rfl

@[simp] lemma text_cons : text (l :: ls) = l ++ NL :: text ls := by
  simp [text]

lemma text_append {ls' : List (List UInt8)} : text (ls ++ ls') = text ls ++ text ls' :=
  List.flatMap_append

lemma strchr_some (h : strchr c p = some q) :
    p = p.take q ++ c :: p.drop (q + 1) ∧ c ∉ p.take q ∧ q < p.length := by
  induction p generalizing q with
  | nil => cases h
  | cons x s ih =>
    rw [strchr] at h
    split_ifs at h with h0 hx
    · obtain rfl : 0 = q := Option.some.inj h
      rw [hx]
      simp
    · obtain ⟨q', hq', rfl⟩ := Option.map_eq_some_iff.mp h
      obtain ⟨h1, h2, h3⟩ := ih hq'
      refine ⟨?_, ?_, Nat.succ_lt_succ h3⟩
      · rw [List.take_succ_cons, List.drop_succ_cons, List.cons_append, ← h1]
      · rw [List.take_succ_cons, List.mem_cons, not_or]
        exact ⟨fun hc => hx hc.symm, h2⟩

lemma strchr_none (h : strchr c p = none) (h0 : 0 ∉ p) : c ∉ p := by
  induction p with
  | nil => exact List.not_mem_nil
  | cons x s ih =>
    rw [List.mem_cons, not_or] at h0 ⊢
    rw [strchr, if_neg (Ne.symm h0.1)] at h
    split_ifs at h with hx
    exact ⟨fun hc => hx hc.symm, ih (Option.map_eq_none_iff.mp h) h0.2⟩

lemma zero_notMem (h : Lines ls) : 0 ∉ text ls := by
  induction ls with
  | nil => exact List.not_mem_nil
  | cons l ls ih =>
    rw [text_cons, List.mem_append, List.mem_cons, not_or, not_or]
    exact ⟨(h l List.mem_cons_self).2, by decide, ih fun l' hl' => h l' (List.mem_cons_of_mem _ hl')⟩

lemma append_inj_of_notMem {x y z w : List UInt8} (hx : c ∉ x) (hy : c ∉ y)
    (h : x ++ c :: z = y ++ c :: w) : x = y ∧ z = w := by
  induction x generalizing y with
  | nil =>
    cases y with
    | nil => exact ⟨rfl, (List.cons.inj h).2⟩
    | cons b y => exact absurd ((List.cons.inj h).1 ▸ List.mem_cons_self) hy
  | cons a x ih =>
    cases y with
    | nil => exact absurd ((List.cons.inj h).1 ▸ List.mem_cons_self) hx
    | cons b y =>
      obtain ⟨rfl, htail⟩ := List.cons.inj h
      rw [List.mem_cons, not_or] at hx hy
      obtain ⟨rfl, hz⟩ := ih hx.2 hy.2 htail
      exact ⟨rfl, hz⟩

/-- The first line is what is before the first newline. -/
lemma text_split (h : Lines ls) (hl : NL ∉ l) (heq : l ++ NL :: rest = text ls) :
    ∃ ls', ls = l :: ls' ∧ rest = text ls' := by
  cases ls with
  | nil => simp at heq
  | cons l' ls' =>
    rw [text_cons] at heq
    obtain ⟨rfl, rfl⟩ := append_inj_of_notMem hl (h l' List.mem_cons_self).1 heq
    exact ⟨ls', rfl, rfl⟩

/-- Where there is no newline, the first line is not at its end. -/
lemma text_of_notMem (hp : NL ∉ p) (heq : p ++ input = text (l :: ls)) : p.length ≤ l.length := by
  rw [text_cons] at heq
  rcases List.append_eq_append_iff.mp heq with ⟨i, hi, -⟩ | ⟨i, hi, hr⟩
  · rw [hi, List.length_append]
    omega
  · cases i with
    | nil =>
      rw [hi, List.append_nil]
    | cons x i =>
      obtain ⟨rfl, -⟩ := List.cons.inj hr
      rw [hi, List.mem_append, not_or] at hp
      exact absurd List.mem_cons_self hp.2

/-! ### The buffer -/

/-- **The inner loop** takes the complete lines, and writes those that match. -/
lemma lineLoop_spec (h : Lines ls) (heq : p ++ input = text ls) (hfuel : p.length ≤ fuel) :
    ∃ done todo, ls = done ++ todo ∧ p = text done ++ (lineLoop pattern fuel p).2 ∧
      (lineLoop pattern fuel p).2 ++ input = text todo ∧ NL ∉ (lineLoop pattern fuel p).2 ∧
      (lineLoop pattern fuel p).1 = text (done.filter (matchText pattern)) := by
  have hzero : 0 ∉ p := fun hmem => zero_notMem h (heq ▸ List.mem_append_left _ hmem)
  induction fuel generalizing p ls with
  | zero =>
    obtain rfl : p = [] := List.eq_nil_of_length_eq_zero (by omega)
    exact ⟨[], ls, rfl, rfl, heq, List.not_mem_nil, rfl⟩
  | succ fuel ih =>
    rw [lineLoop]
    cases hq : strchr NL p with
    | none => exact ⟨[], ls, rfl, rfl, heq, strchr_none hq hzero, rfl⟩
    | some q =>
      obtain ⟨hp, hline, hlt⟩ := strchr_some hq
      have hsplit : p.take q ++ NL :: (p.drop (q + 1) ++ input) = text ls := by
        rw [← heq]
        conv_rhs => rw [hp]
        rw [List.append_assoc, List.cons_append]
      obtain ⟨ls', rfl, hrest⟩ := text_split h hline hsplit
      have hlines : Lines ls' := fun l hl => h l (List.mem_cons_of_mem _ hl)
      obtain ⟨done, todo, hls, hdone, htodo, hnl, hout⟩ := ih hlines hrest (by
        rw [List.length_drop]
        omega) fun hmem => hzero (List.mem_of_mem_drop hmem)
      refine ⟨p.take q :: done, todo, ?_, ?_, htodo, hnl, ?_⟩
      · rw [hls]
        rfl
      · rw [text_cons, List.append_assoc, List.cons_append, ← hdone]
        exact hp
      · have htake : p.take (q + 1) = p.take q ++ [NL] := by
          conv_lhs => rw [hp]
          rw [List.take_append, List.take_of_length_le (by rw [List.length_take]; omega)]
          have hone : q + 1 - (p.take q).length = 1 := by
            rw [List.length_take]
            omega
          rw [hone, List.take_succ_cons, List.take_zero]
        change (if matchText pattern (p.take q) = true then
          p.take (q + 1) ++ (lineLoop pattern fuel (p.drop (q + 1))).1
          else (lineLoop pattern fuel (p.drop (q + 1))).1) = _
        rw [List.filter_cons]
        by_cases hm : matchText pattern (p.take q) = true
        · rw [if_pos hm, if_pos hm, text_cons, hout, htake, List.append_assoc]
          rfl
        · rw [if_neg hm, if_neg hm, hout]

/-- What `grep` writes of the lines: those that match, up to the first that is too long. -/
def written (pattern : List UInt8) (ls : List (List UInt8)) : List UInt8 :=
  text ((ls.takeWhile fun l => decide (Short l)).filter (matchText pattern))

lemma written_append {done todo : List (List UInt8)} (h : ∀ l ∈ done, Short l) :
    written pattern (done ++ todo) =
      text (done.filter (matchText pattern)) ++ written pattern todo := by
  unfold written
  rw [List.takeWhile_append_of_pos fun l hl => decide_eq_true (h l hl), List.filter_append,
    text_append]

lemma short_of_length (h : (text ls).length + 1 ≤ SIZE) : ∀ l ∈ ls, Short l := by
  induction ls with
  | nil => exact fun l hl => absurd hl List.not_mem_nil
  | cons l ls ih =>
    rw [text_cons, List.length_append, List.length_cons] at h
    intro l' hl'
    rcases List.mem_cons.mp hl' with rfl | hl'
    · unfold Short
      omega
    · exact ih (by omega) l' hl'

/-- **The outer loop** goes on from the beginning `buf` of a line. -/
lemma grepLoop_spec (h : Lines ls) (heq : p ++ input = text ls) (hp : NL ∉ p)
    (hroom : p.length + 1 ≤ SIZE) (hfuel : input.length < fuel) :
    grepLoop pattern chunk fuel k p input out = out ++ written pattern ls := by
  induction fuel generalizing k p input out ls with
  | zero => omega
  | succ fuel ih =>
    rw [grepLoop]
    by_cases hn : 0 < readSize (SIZE - p.length - 1) (chunk k) input.length
    · obtain ⟨n, hn'⟩ : ∃ n, n = readSize (SIZE - p.length - 1) (chunk k) input.length := ⟨_, rfl⟩
      rw [if_pos hn]
      rw [← hn'] at hn ⊢
      have hmin : n ≤ SIZE - p.length - 1 ∧ n ≤ input.length := by
        rw [hn']
        unfold readSize
        omega
      have hbuf : (p ++ input.take n).length + 1 ≤ SIZE := by
        rw [List.length_append, List.length_take]
        omega
      have hall : (p ++ input.take n) ++ input.drop n = text ls := by
        rw [List.append_assoc, List.take_append_drop, heq]
      obtain ⟨done, todo, rfl, hdone, htodo, hnl, hout⟩ := lineLoop_spec h hall le_rfl
      have hlen : (p ++ input.take n).length = (text done).length +
          (lineLoop pattern (p ++ input.take n).length (p ++ input.take n)).2.length := by
        rw [← List.length_append, ← hdone]
      have hshort : ∀ l ∈ done, Short l := short_of_length (by omega)
      have hlines : Lines todo := fun l hl => h l (List.mem_append_right _ hl)
      rw [ih hlines htodo hnl (by omega) (by rw [List.length_drop]; omega), hout,
        written_append hshort, List.append_assoc]
    · rw [if_neg hn]
      have hz : readSize (SIZE - p.length - 1) (chunk k) input.length = 0 := by omega
      cases ls with
      | nil => rw [written, List.takeWhile_nil, List.filter_nil, text_nil, List.append_nil]
      | cons l ls =>
        -- there is something to read, so the buffer is full
        have hle := text_of_notMem hp heq
        have hlen := congrArg List.length heq
        rw [text_cons, List.length_append, List.length_append, List.length_cons] at hlen
        have hlong : ¬Short l := by
          unfold readSize at hz
          unfold Short
          omega
        have hnone : written pattern (l :: ls) = [] := by
          unfold written
          rw [List.takeWhile_cons_of_neg (by rw [decide_eq_true_iff]; exact hlong), List.filter_nil,
            text_nil]
        rw [hnone, List.append_nil]

theorem grep_written (chunk : ℕ → ℕ) (h : Lines ls) :
    grep pattern chunk (text ls) = written pattern ls :=
  grepLoop_spec h rfl List.not_mem_nil (by decide) (Nat.lt_succ_self _)

lemma text_eq_nil : text ls = [] ↔ ls = [] := by
  cases ls with
  | nil => exact ⟨fun _ => rfl, fun _ => rfl⟩
  | cons l ls => simp

/-- **`grep` writes exactly the lines that match**, for any chunks, where none of them comes with or
after the first line that the buffer has no room for. -/
theorem grep_filters (pattern : List UInt8) (chunk : ℕ → ℕ) (ls : List (List UInt8)) (h : Lines ls) :
    grep pattern chunk (text ls) = text (ls.filter (matchText pattern)) ↔
      ∀ l ∈ ls.dropWhile fun l => decide (Short l), matchText pattern l = false := by
  rw [grep_written chunk h, written]
  have hsplit : ls.filter (matchText pattern) =
      (ls.takeWhile fun l => decide (Short l)).filter (matchText pattern) ++
        (ls.dropWhile fun l => decide (Short l)).filter (matchText pattern) := by
    rw [← List.filter_append, List.takeWhile_append_dropWhile]
  rw [hsplit, text_append, List.self_eq_append_right, text_eq_nil, List.filter_eq_nil_iff]
  exact forall₂_congr fun l _ => by rw [Bool.not_eq_true]

/-- `grep a` of the lines `b` and `bab`, read in chunks of three bytes. -/
theorem grep_filters_bab :
    grep [97] (fun _ => 3) (text [[98], [98, 97, 98]]) = [98, 97, 98, NL] := by
  have hlines : Lines [[98], [98, 97, 98]] := by
    unfold Lines
    decide
  have hshort : ∀ l ∈ [[98], [98, 97, 98]].dropWhile fun l => decide (Short l),
      matchText [97] l = false := by decide
  rw [(grep_filters [97] (fun _ => 3) [[98], [98, 97, 98]] hlines).mpr hshort]
  decide

/-- A line of 1023 bytes fills the buffer: nothing is written of it, nor of the line after it, though
both match. -/
theorem grep_long_line :
    Lines [List.replicate 1023 97, [97]] ∧
      grep [97] (fun _ => 512) (text [List.replicate 1023 97, [97]]) = [] ∧
      [List.replicate 1023 97, [97]].filter (matchText [97]) = [List.replicate 1023 97, [97]] := by
  have hlines : Lines [List.replicate 1023 97, [97]] := by
    intro l hl
    rcases List.mem_cons.mp hl with rfl | hl
    · constructor
      · exact fun hmem => absurd (List.eq_of_mem_replicate hmem) (by decide)
      · exact fun hmem => absurd (List.eq_of_mem_replicate hmem) (by decide)
    · rw [List.mem_singleton] at hl
      rw [hl]
      decide
  refine ⟨hlines, ?_, ?_⟩
  · have hlong : ¬Short (List.replicate 1023 97) := by
      unfold Short
      rw [List.length_replicate]
      decide
    rw [grep_written _ hlines, written,
      List.takeWhile_cons_of_neg (by rw [decide_eq_true_iff]; exact hlong)]
    rfl
  · rfl

end Xv6.User.Grep
