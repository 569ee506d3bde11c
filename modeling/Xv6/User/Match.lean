import Xv6.Data.Pattern

/-!
The matcher of `grep.c`. A string is the list of its bytes before the NUL.
-/

namespace Xv6.User.Match

open Xv6.Data.Pattern

def CARET : UInt8 := 94
def DOT : UInt8 := 46
def STAR : UInt8 := 42
def DOLLAR : UInt8 := 36

/-- Search for `c*re` at the beginning of the text, where `here` searches for `re`. -/
def matchstar (here : List UInt8 → Bool) (c : UInt8) : List UInt8 → Bool
  | [] => here []
  | t :: text => here (t :: text) || ((t == c || c == DOT) && matchstar here c text)

/-- One byte of the text, and then `next`. -/
def matchone (next : List UInt8 → Bool) (r : UInt8) : List UInt8 → Bool
  | [] => false
  | t :: text => (r == DOT || r == t) && next text

/-- Search for `re` at the beginning of the text. -/
def matchhere : List UInt8 → List UInt8 → Bool
  | [], _ => true
  | [r], text => if r = DOLLAR then text.isEmpty else matchone (matchhere []) r text
  | r :: s :: re, text =>
    if s = STAR then matchstar (matchhere re) r text else matchone (matchhere (s :: re)) r text

/-- The loop of `match`, which looks at the empty string as well. -/
def matchLoop (re : List UInt8) : List UInt8 → Bool
  | [] => matchhere re []
  | t :: text => matchhere re (t :: text) || matchLoop re text

/-- `match` -/
def matchText : List UInt8 → List UInt8 → Bool
  | [], text => matchLoop [] text
  | r :: re, text => if r = CARET then matchhere re text else matchLoop (r :: re) text

/-! ### The language of a pattern -/

def atom (c : UInt8) : Atom UInt8 := if c = DOT then .dot else .lit c

/-- A pattern as a sequence of items, and whether it ends in a lone `$`. -/
def items : List UInt8 → List (Item UInt8) × Bool
  | [] => ([], false)
  | [c] => if c = DOLLAR then ([], true) else ([.once (atom c)], false)
  | c :: d :: re =>
    if d = STAR then (.many (atom c) :: (items re).1, (items re).2)
    else (.once (atom c) :: (items (d :: re)).1, (items (d :: re)).2)

/-- A pattern with whether it begins with `^`. -/
def anchored : List UInt8 → Bool × List UInt8
  | [] => (false, [])
  | r :: re => if r = CARET then (true, re) else (false, r :: re)

/-- Some substring of `text` is in the language of `re`: a prefix if `re` begins with `^`, one that
ends where the text ends if `re` ends in `$`. -/
def Finds (re text : List UInt8) : Prop :=
  ∃ u v w, text = u ++ v ++ w ∧ v ∈ lang (items (anchored re).2).1 ∧
    ((anchored re).1 = true → u = []) ∧ ((items (anchored re).2).2 = true → w = [])

variable {re text : List UInt8} {c t : UInt8}

lemma accepts_atom : (atom c).Accepts t ↔ c = DOT ∨ c = t := by
  unfold atom
  split_ifs with h
  · exact ⟨fun _ => .inl h, fun _ => trivial⟩
  · exact ⟨fun ht => .inr (show t = c from ht).symm, fun ho => (ho.resolve_left h).symm⟩

lemma matchstar_iff {here : List UInt8 → Bool} {is : List (Item UInt8)} {stop : Bool}
    (h : ∀ text, here text = true ↔ Begins is stop text) (c : UInt8) (text : List UInt8) :
    matchstar here c text = true ↔ Begins (.many (atom c) :: is) stop text := by
  induction text with
  | nil =>
    rw [matchstar, h, begins_many]
    refine ⟨.inl, fun ho => ho.resolve_right ?_⟩
    rintro ⟨c, rest, hnil, -⟩
    cases hnil
  | cons t text ih =>
    rw [matchstar, Bool.or_eq_true, h, Bool.and_eq_true, ih]
    refine Iff.trans (or_congr_right ?_) begins_many.symm
    have hac : (t == c || c == DOT) = true ↔ (atom c).Accepts t := by
      rw [accepts_atom, Bool.or_eq_true, beq_iff_eq, beq_iff_eq, or_comm, eq_comm (a := t)]
    rw [hac]
    constructor
    · rintro ⟨h1, h2⟩
      exact ⟨t, text, rfl, h1, h2⟩
    · rintro ⟨t', text', heq, h1, h2⟩
      obtain ⟨rfl, rfl⟩ := List.cons.inj heq
      exact ⟨h1, h2⟩

lemma matchone_iff {next : List UInt8 → Bool} {is : List (Item UInt8)} {stop : Bool}
    (h : ∀ text, next text = true ↔ Begins is stop text) (r : UInt8) (text : List UInt8) :
    matchone next r text = true ↔ Begins (.once (atom r) :: is) stop text := by
  rw [begins_once]
  cases text with
  | nil =>
    rw [matchone]
    refine ⟨fun hf => absurd hf Bool.false_ne_true, ?_⟩
    rintro ⟨c, rest, hnil, -⟩
    cases hnil
  | cons t text =>
    rw [matchone, Bool.and_eq_true, h, Bool.or_eq_true, beq_iff_eq, beq_iff_eq, ← accepts_atom]
    constructor
    · rintro ⟨h1, h2⟩
      exact ⟨t, text, rfl, h1, h2⟩
    · rintro ⟨t', text', heq, h1, h2⟩
      obtain ⟨rfl, rfl⟩ := List.cons.inj heq
      exact ⟨h1, h2⟩

/-- **`matchhere`** finds what the text begins with. -/
theorem matchhere_iff (re text : List UInt8) :
    matchhere re text = true ↔ Begins (items re).1 (items re).2 text := by
  induction re using items.induct generalizing text with
  | case1 =>
    rw [matchhere, items, begins_nil]
    exact ⟨fun _ h => absurd h Bool.false_ne_true, fun _ => rfl⟩
  | case2 =>
    rw [matchhere, items, if_pos rfl, if_pos rfl, begins_nil, List.isEmpty_iff]
    exact ⟨fun h _ => h, fun h => h rfl⟩
  | case3 c hc =>
    rw [matchhere, items, if_neg hc, if_neg hc]
    refine matchone_iff (fun text => ?_) c text
    rw [matchhere, begins_nil]
    exact ⟨fun _ h => absurd h Bool.false_ne_true, fun _ => rfl⟩
  | case4 c re ih =>
    rw [matchhere, items, if_pos rfl, if_pos rfl]
    exact matchstar_iff ih c text
  | case5 c d re hd ih =>
    rw [matchhere, items, if_neg hd, if_neg hd]
    exact matchone_iff ih c text

lemma matchLoop_iff (re text : List UInt8) :
    matchLoop re text = true ↔ ∃ u v, text = u ++ v ∧ matchhere re v = true := by
  induction text with
  | nil =>
    rw [matchLoop]
    constructor
    · intro h
      exact ⟨[], [], rfl, h⟩
    · rintro ⟨u, v, heq, h⟩
      obtain ⟨-, rfl⟩ := List.append_eq_nil_iff.mp heq.symm
      exact h
  | cons t text ih =>
    rw [matchLoop, Bool.or_eq_true, ih]
    constructor
    · rintro (h | ⟨u, v, rfl, h⟩)
      · exact ⟨[], t :: text, rfl, h⟩
      · exact ⟨t :: u, v, rfl, h⟩
    · rintro ⟨u, v, heq, h⟩
      cases u with
      | nil =>
        rw [heq]
        exact .inl h
      | cons x u =>
        obtain ⟨-, rfl⟩ := List.cons.inj heq
        exact .inr ⟨u, v, rfl, h⟩

/-- **`match` is correct**: it returns 1 exactly where the text has a substring in the language of
the pattern. -/
theorem match_correct (re text : List UInt8) : matchText re text = true ↔ Finds re text := by
  have hloop : ∀ re, anchored re = (false, re) → (matchLoop re text = true ↔ Finds re text) := by
    intro re ha
    unfold Finds
    rw [matchLoop_iff, ha]
    constructor
    · rintro ⟨u, v, rfl, h⟩
      obtain ⟨x, y, rfl, hx, hy⟩ := (matchhere_iff re v).mp h
      exact ⟨u, x, y, (List.append_assoc _ _ _).symm, hx, fun hf => absurd hf Bool.false_ne_true, hy⟩
    · rintro ⟨u, x, y, rfl, hx, -, hy⟩
      exact ⟨u, x ++ y, List.append_assoc _ _ _, (matchhere_iff re _).mpr ⟨x, y, rfl, hx, hy⟩⟩
  cases re with
  | nil => exact hloop [] rfl
  | cons r re =>
    rw [matchText]
    by_cases hr : r = CARET
    · rw [if_pos hr, matchhere_iff]
      have ha : anchored (r :: re) = (true, re) := if_pos hr
      unfold Finds
      rw [ha]
      constructor
      · rintro ⟨x, y, rfl, hx, hy⟩
        exact ⟨[], x, y, rfl, hx, fun _ => rfl, hy⟩
      · rintro ⟨u, x, y, rfl, hx, hu, hy⟩
        rw [hu rfl]
        exact ⟨x, y, rfl, hx, hy⟩
    · rw [if_neg hr]
      refine hloop _ ?_
      rw [anchored, if_neg hr]

/-- The text abbc has a substring in the language of b*c$. -/
example : matchText [98, 42, 99, 36] [97, 98, 98, 99] = true := by decide

end Xv6.User.Match
