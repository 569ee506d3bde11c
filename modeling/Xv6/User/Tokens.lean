import Mathlib.Order.Nat
import Xv6.User.Shell

/-!
The tokens of a command line: what `gettoken` returns one time after another, and what `peek` says of
the first one.
-/

namespace Xv6.User.Tokens

open Xv6.User.Grammar Xv6.User.Shell

variable {s t : Ptr} {c : UInt8} {n m : ℕ} {toks : List UInt8} {k : Tok Span} {w : Span}
  {ts : List (Tok Span)}

def tokenOf (t : Token) : Tok Span := if t.ret = WORD then .word (t.q, t.eq) else .sym t.ret

/-- The first `n` tokens, or all. -/
def scan : ℕ → Ptr → List (Tok Span)
  | 0, _ => []
  | n + 1, s =>
    if (gettoken s).ret = 0 then [] else tokenOf (gettoken s) :: scan n (gettoken s).ps

/-- All tokens of the string. -/
def tokens (s : Ptr) : List (Tok Span) := scan s.length s

/-- What a token begins with, but for words. -/
def lead {W : Type} : Tok W → UInt8
  | .sym c => if c = APPEND then GREATER else c
  | .word _ => WORD

/-- All elements of a list, one by one. -/
lemma forall_of_all {l : List UInt8} {p : UInt8 → Prop} [DecidablePred p]
    (h : l.all (fun c => decide (p c)) = true) : ∀ c ∈ l, p c :=
  fun c hc => of_decide_eq_true (List.all_eq_true.mp h c hc)

lemma length_skip (s : Ptr) : (skip s).length ≤ s.length := (List.dropWhile_sublist _).length_le

lemma skip_head (hs : skip s = c :: t) : c ∉ whitespace := by
  have h := List.head?_dropWhile_not (fun c => decide (c ∈ whitespace)) s
  rw [← skip, hs] at h
  exact of_decide_eq_false h

lemma skip_skip (s : Ptr) : skip (skip s) = skip s := by
  cases hs : skip s with
  | nil => rfl
  | cons c t =>
    rw [skip, List.dropWhile_cons_of_neg]
    rw [decide_eq_true_iff]
    exact skip_head hs

lemma gettoken_skip (s : Ptr) : gettoken (skip s) = gettoken s := by
  rw [gettoken, gettoken, skip_skip]

lemma append_ne : APPEND ≠ 0 := by decide

lemma greater_ne : GREATER ≠ 0 := by decide

lemma word_ne : WORD ≠ 0 := by decide

/-- A token that is a symbol. -/
lemma gettoken_sym (hs : skip s = c :: t) (hc : c ∈ symbols) :
    lead (tokenOf (gettoken s)) = c ∧ (gettoken s).ret ≠ 0 ∧ (gettoken s).ps.length ≤ t.length := by
  have hne : c ≠ WORD ∧ c ≠ 0 ∧ c ≠ APPEND := by
    revert hc
    unfold symbols
    simp only [List.mem_cons, List.not_mem_nil, or_false]
    rintro (rfl | rfl | rfl | rfl | rfl | rfl | rfl) <;> decide
  have htail : (skip t.tail).length ≤ t.length := by
    have h1 := length_skip t.tail
    rw [List.length_tail] at h1
    omega
  rw [gettoken, hs]
  dsimp only
  by_cases hgt : c = GREATER
  · rw [if_pos hgt, hgt]
    split_ifs
    · exact ⟨rfl, append_ne, htail⟩
    · exact ⟨rfl, greater_ne, length_skip t⟩
  · rw [if_neg hgt, if_pos hc]
    refine ⟨?_, hne.2.1, length_skip t⟩
    rw [tokenOf, if_neg hne.1, lead, if_neg hne.2.2]

/-- A token that is a word. -/
lemma gettoken_word (hs : skip s = c :: t) (hc : c ∉ symbols) :
    gettoken s = ⟨WORD, c :: t, past t, skip (past t)⟩ := by
  have hgt : c ≠ GREATER := by
    rintro rfl
    exact hc (by decide)
  have hpast : past (c :: t) = past t := by
    rw [past, List.dropWhile_cons_of_pos]
    · rfl
    · rw [decide_eq_true_iff]
      exact ⟨skip_head hs, hc⟩
  rw [gettoken, hs]
  dsimp only
  rw [if_neg hgt, if_neg hc, hpast]

lemma gettoken_nil (hs : skip s = []) : gettoken s = ⟨0, [], [], []⟩ := by
  rw [gettoken, hs]

/-- There is a token, unless there is nothing but whitespace. -/
lemma gettoken_some (hs : skip s = c :: t) :
    (gettoken s).ret ≠ 0 ∧ (gettoken s).ps.length < s.length := by
  have hlen := length_skip s
  rw [hs, List.length_cons] at hlen
  by_cases hc : c ∈ symbols
  · obtain ⟨-, h1, h2⟩ := gettoken_sym hs hc
    exact ⟨h1, by omega⟩
  · rw [gettoken_word hs hc]
    have hpast : (past t).length ≤ t.length := (List.dropWhile_sublist _).length_le
    have hskip := length_skip (past t)
    exact ⟨word_ne, show (skip (past t)).length < s.length by omega⟩

lemma scan_nil (n : ℕ) (hs : skip s = []) : scan n s = [] := by
  cases n with
  | zero => rfl
  | succ n => rw [scan, gettoken_nil hs, if_pos rfl]

/-- As many rounds as bytes are enough. -/
lemma scan_eq (hn : s.length ≤ n) (hm : s.length ≤ m) : scan n s = scan m s := by
  induction n generalizing m s with
  | zero =>
    rw [List.length_eq_zero_iff.mp (Nat.le_zero.mp hn), scan_nil 0 rfl, scan_nil m rfl]
  | succ n ih =>
    cases hs : skip s with
    | nil => rw [scan_nil _ hs, scan_nil _ hs]
    | cons c t =>
      obtain ⟨h1, h2⟩ := gettoken_some hs
      obtain ⟨m, rfl⟩ : ∃ l, m = l + 1 := ⟨m - 1, by omega⟩
      rw [scan, scan, if_neg h1, if_neg h1, ih (m := m) (by omega) (by omega)]

lemma tokens_nil (hs : skip s = []) : tokens s = [] := scan_nil _ hs

/-- The first token and the others. -/
lemma tokens_cons (hs : skip s = c :: t) :
    tokens s = tokenOf (gettoken s) :: tokens (gettoken s).ps := by
  obtain ⟨h1, h2⟩ := gettoken_some hs
  obtain ⟨n, hn⟩ : ∃ n, s.length = n + 1 := ⟨s.length - 1, by omega⟩
  rw [tokens, hn, scan, if_neg h1, tokens, scan_eq (m := (gettoken s).ps.length) (by omega) le_rfl]

lemma tokens_skip (s : Ptr) : tokens (skip s) = tokens s := by
  cases hs : skip s with
  | nil =>
    rw [tokens_nil hs]
    rfl
  | cons c t =>
    have hs' : skip (c :: t) = c :: t := by rw [← hs, skip_skip]
    rw [tokens_cons hs, tokens_cons hs', ← hs, gettoken_skip]

lemma tokens_eq_nil : tokens s = [] ↔ skip s = [] := by
  cases hs : skip s with
  | nil => exact iff_of_true (tokens_nil hs) rfl
  | cons c t =>
    rw [tokens_cons hs]
    exact iff_of_false (List.cons_ne_nil _ _) (List.cons_ne_nil _ _)

/-- Where the first token is `k` and then come `ts`. -/
lemma tokens_of_cons (h : tokens s = k :: ts) : ∃ c t, skip s = c :: t ∧
    tokenOf (gettoken s) = k ∧ tokens (gettoken s).ps = ts ∧ (gettoken s).ps.length < s.length := by
  cases hs : skip s with
  | nil =>
    rw [tokens_nil hs] at h
    cases h
  | cons c t =>
    rw [tokens_cons hs, List.cons.injEq] at h
    exact ⟨c, t, rfl, h.1, h.2, (gettoken_some hs).2⟩

lemma tokens_of_word (h : tokens s = .word w :: ts) : (gettoken s).ret = WORD ∧
    ((gettoken s).q, (gettoken s).eq) = w ∧ tokens (gettoken s).ps = ts ∧
      (gettoken s).ps.length < s.length := by
  obtain ⟨c, t, -, hk, hts, hlen⟩ := tokens_of_cons h
  rw [tokenOf] at hk
  split_ifs at hk with hret
  exact ⟨hret, Tok.word.inj hk, hts, hlen⟩

/-- `peek` looks at what the first token begins with. -/
lemma peek_tokens (h : ∀ c ∈ toks, c ∈ symbols) (s : Ptr) :
    (peek s toks).1 = true ↔ ∃ k ts, tokens s = k :: ts ∧ lead k ∈ toks := by
  unfold peek
  cases hs : skip s with
  | nil =>
    rw [tokens_nil hs]
    refine iff_of_false (by simp) ?_
    rintro ⟨k, ts, hk, -⟩
    cases hk
  | cons c t =>
    rw [tokens_cons hs]
    have hhead : ((c :: t).head?.any fun c => decide (c ∈ toks)) = true ↔ c ∈ toks := by simp
    rw [hhead]
    by_cases hc : c ∈ symbols
    · have hlead := (gettoken_sym hs hc).1
      constructor
      · exact fun hin => ⟨_, _, rfl, by rwa [hlead]⟩
      · rintro ⟨k, ts, hk, hin⟩
        rw [List.cons.injEq] at hk
        rwa [← hk.1, hlead] at hin
    · refine iff_of_false (fun hin => hc (h c hin)) ?_
      rintro ⟨k, ts, hk, hin⟩
      rw [List.cons.injEq] at hk
      have hword : lead (tokenOf (gettoken s)) = WORD := by
        rw [gettoken_word hs hc]
        rfl
      rw [← hk.1, hword] at hin
      exact absurd (h _ hin) (by decide)

end Xv6.User.Tokens
