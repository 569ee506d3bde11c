import Mathlib.Computability.Language
import Mathlib.Tactic

/-!
Patterns without alternatives: sequences of letters, each once or any number of times. What a text
begins with, one item at a time.
-/

namespace Xv6.Data.Pattern

/-- What one letter is compared with. -/
inductive Atom (α : Type)
  | lit (c : α)
  | dot

/-- A letter once, or any number of times. -/
inductive Item (α : Type)
  | once (a : Atom α)
  | many (a : Atom α)

variable {α : Type} {a : Atom α} {is : List (Item α)} {stop : Bool} {text : List α}

def Atom.Accepts : Atom α → α → Prop
  | .lit c, x => x = c
  | .dot, _ => True

/-- The words of one letter. -/
def Atom.lang : Atom α → Language α
  | .lit c => {[c]}
  | .dot => {w | ∃ c, w = [c]}

def Item.lang : Item α → Language α
  | .once a => a.lang
  | .many a => KStar.kstar a.lang

/-- The words of a sequence of items. -/
def lang (is : List (Item α)) : Language α := (is.map Item.lang).prod

/-- `text` begins with a word of the items, and is that word if it has to `stop` there. -/
def Begins (is : List (Item α)) (stop : Bool) (text : List α) : Prop :=
  ∃ v w, text = v ++ w ∧ v ∈ lang is ∧ (stop = true → w = [])

lemma mem_atom {w : List α} : w ∈ a.lang ↔ ∃ c, w = [c] ∧ a.Accepts c := by
  cases a with
  | lit c =>
    constructor
    · intro h
      exact ⟨c, h, rfl⟩
    · rintro ⟨d, rfl, rfl⟩
      exact rfl
  | dot =>
    constructor
    · rintro ⟨c, rfl⟩
      exact ⟨c, rfl, trivial⟩
    · rintro ⟨c, rfl, -⟩
      exact ⟨c, rfl⟩

lemma lang_nil : lang ([] : List (Item α)) = 1 := rfl

lemma lang_cons (i : Item α) : lang (i :: is) = i.lang * lang is := by
  rw [lang, List.map_cons, List.prod_cons, lang]

lemma begins_nil : Begins ([] : List (Item α)) stop text ↔ (stop = true → text = []) := by
  unfold Begins
  rw [lang_nil]
  constructor
  · rintro ⟨v, w, rfl, hv, hw⟩ hs
    rw [(Language.mem_one v).mp hv, hw hs]
    rfl
  · intro h
    exact ⟨[], text, rfl, Language.nil_mem_one, h⟩

/-- A word of `l` and then words of the items. -/
lemma begins_atom {l : Language α} : (∃ v w, text = v ++ w ∧ v ∈ a.lang * l ∧ (stop = true → w = [])) ↔
    ∃ c rest, text = c :: rest ∧ a.Accepts c ∧
      ∃ v w, rest = v ++ w ∧ v ∈ l ∧ (stop = true → w = []) := by
  constructor
  · rintro ⟨v, w, rfl, hv, hw⟩
    obtain ⟨x, hx, y, hy, rfl⟩ := Language.mem_mul.mp hv
    obtain ⟨c, rfl, hc⟩ := mem_atom.mp hx
    exact ⟨c, y ++ w, rfl, hc, y, w, rfl, hy, hw⟩
  · rintro ⟨c, rest, rfl, hc, v, w, rfl, hv, hw⟩
    refine ⟨c :: v, w, rfl, ?_, hw⟩
    exact Language.mem_mul.mpr ⟨[c], mem_atom.mpr ⟨c, rfl, hc⟩, v, hv, rfl⟩

lemma begins_once : Begins (.once a :: is) stop text ↔
    ∃ c rest, text = c :: rest ∧ a.Accepts c ∧ Begins is stop rest := by
  unfold Begins
  rw [lang_cons]
  exact begins_atom

/-- Any number of letters is none, or one and then any number. -/
lemma begins_many : Begins (.many a :: is) stop text ↔ Begins is stop text ∨
    ∃ c rest, text = c :: rest ∧ a.Accepts c ∧ Begins (.many a :: is) stop rest := by
  have hstar : lang (.many a :: is) = lang is + a.lang * lang (.many a :: is) := by
    calc lang (.many a :: is)
        = KStar.kstar a.lang * lang is := lang_cons _
      _ = (1 + a.lang * KStar.kstar a.lang) * lang is := by
          rw [Language.one_add_self_mul_kstar_eq_kstar]
      _ = lang is + a.lang * (KStar.kstar a.lang * lang is) := by
          rw [add_mul, one_mul, mul_assoc]
      _ = lang is + a.lang * lang (.many a :: is) := by rw [lang_cons]; rfl
  have hsplit : Begins (.many a :: is) stop text ↔ Begins is stop text ∨
      ∃ v w, text = v ++ w ∧ v ∈ a.lang * lang (.many a :: is) ∧ (stop = true → w = []) := by
    unfold Begins
    constructor
    · rintro ⟨v, w, ht, hv, hw⟩
      rw [hstar, Language.mem_add] at hv
      exact hv.imp (fun h => ⟨v, w, ht, h, hw⟩) fun h => ⟨v, w, ht, h, hw⟩
    · rintro (⟨v, w, ht, hv, hw⟩ | ⟨v, w, ht, hv, hw⟩)
      · refine ⟨v, w, ht, ?_, hw⟩
        rw [hstar, Language.mem_add]
        exact .inl hv
      · refine ⟨v, w, ht, ?_, hw⟩
        rw [hstar, Language.mem_add]
        exact .inr hv
  rw [hsplit, begins_atom]
  rfl

end Xv6.Data.Pattern
