import Mathlib.Data.List.TakeWhile
import Xv6.User.Parser

/-!
The words of a parsed command as strings in memory, and a line for every command.
-/

namespace Xv6.User.Unparse

open Xv6.User.Grammar Xv6.User.Shell Xv6.User.Tokens Xv6.User.Parser

variable {s : Ptr} {t : Str} {w : Span} {c : UInt8} {cmd : Cmd Span} {bs mem : List UInt8} {i : ℕ}
  {k : Tok (List UInt8)} {ts : List (Tok (List UInt8))}

/-! ### The words of a line -/

/-- What is between the two pointers of a word. -/
def text (w : Span) : List UInt8 := w.1.take (w.1.length - w.2.length)

/-- Bytes that a word may have. -/
def Plain (c : UInt8) : Prop := c ∉ whitespace ∧ c ∉ symbols

instance (c : UInt8) : Decidable (Plain c) := inferInstanceAs (Decidable (_ ∧ _))

/-- A word of the line, as long as it can be. -/
structure Spans (s : Ptr) (w : Span) : Prop where
  suffix : w.1 <:+ s
  split : w.1 = text w ++ w.2
  ne : text w ≠ []
  plain : ∀ c ∈ text w, Plain c
  stop : ∀ c ∈ w.2.head?, ¬ Plain c

lemma Spans.mono {s' : Ptr} (h : Spans s w) (hs : s <:+ s') : Spans s' w :=
  { h with suffix := h.suffix.trans hs }

lemma text_append (bs t : List UInt8) : text (bs ++ t, t) = bs := by
  have hl : (bs ++ t).length - t.length = bs.length := by
    rw [List.length_append, Nat.add_sub_cancel]
  rw [text, hl, List.take_left]

lemma skip_suffix (s : Ptr) : skip s <:+ s := List.dropWhile_suffix _

lemma past_suffix (s : Ptr) : past s <:+ s := List.dropWhile_suffix _

lemma gettoken_suffix (s : Ptr) : (gettoken s).ps <:+ s := by
  cases hs : skip s with
  | nil =>
    rw [gettoken_nil hs]
    exact List.nil_suffix
  | cons c t =>
    have ht : t <:+ s := (List.suffix_cons c t).trans (hs ▸ skip_suffix s)
    rw [gettoken, hs]
    dsimp only
    split_ifs
    · exact ((skip_suffix _).trans (List.tail_suffix t)).trans ht
    · exact (skip_suffix t).trans ht
    · exact (skip_suffix t).trans ht
    · exact ((skip_suffix _).trans (past_suffix _)).trans (hs ▸ skip_suffix s)

lemma gettoken_spans (h : (gettoken s).ret = WORD) : Spans s ((gettoken s).q, (gettoken s).eq) := by
  cases hs : skip s with
  | nil =>
    rw [gettoken_nil hs] at h
    exact absurd h word_ne.symm
  | cons c t =>
    by_cases hc : c ∈ symbols
    · obtain ⟨hlead, -, -⟩ := gettoken_sym hs hc
      rw [tokenOf, if_pos h] at hlead
      rw [← hlead] at hc
      exact absurd hc (by decide : WORD ∉ symbols)
    · have ht : c :: t = c :: t.takeWhile (fun c => decide (c ∉ whitespace ∧ c ∉ symbols)) ++ past t :=
        congrArg (c :: ·) List.takeWhile_append_dropWhile.symm
      have htext : text (c :: t, past t) =
          c :: t.takeWhile (fun c => decide (c ∉ whitespace ∧ c ∉ symbols)) := by
        rw [ht]
        exact text_append _ _
      rw [gettoken_word hs hc]
      refine ⟨hs ▸ skip_suffix s, ?_, ?_, ?_, ?_⟩
      · rw [htext]
        exact ht
      · rw [htext]
        exact List.cons_ne_nil _ _
      · rw [htext, List.forall_mem_cons]
        refine ⟨⟨skip_head hs, hc⟩, fun d hd => ?_⟩
        have hp := List.mem_takeWhile_imp hd
        exact of_decide_eq_true hp
      · intro d hd hplain
        have hnot := List.head?_dropWhile_not (fun c => decide (c ∉ whitespace ∧ c ∉ symbols)) t
        rw [← past, Option.mem_def.mp hd] at hnot
        exact of_decide_eq_false hnot hplain

lemma scan_spans (n : ℕ) (h : .word w ∈ scan n s) : Spans s w := by
  induction n generalizing s with
  | zero => cases h
  | succ n ih =>
    rw [scan] at h
    split_ifs at h
    · cases h
    · obtain h | h := List.mem_cons.mp h
      · rw [tokenOf] at h
        split_ifs at h with hret
        rw [Tok.word.inj h]
        exact gettoken_spans hret
      · exact (ih h).mono (gettoken_suffix s)

lemma mem_spelt {W : Type} {w : W} {ts : List (Tok W)} (h : w ∈ spelt ts) : .word w ∈ ts := by
  obtain ⟨k, hk, hw⟩ := List.mem_filterMap.mp h
  cases k with
  | sym c => cases hw
  | word v => exact Option.some.inj hw ▸ hk

/-- The words of a command are words of the line. -/
lemma derives_spans (h : Derives .line (tokens s) cmd) (hw : w ∈ cmd.words) : Spans s w :=
  scan_spans _ (mem_spelt (h.words.mem_iff.mp hw))

/-! ### Strings in memory -/

/-- The string that a pointer points to. -/
def cstring (mem : List UInt8) (i : ℕ) : List UInt8 := (mem.drop i).takeWhile fun c => decide (c ≠ 0)

lemma nulterminate_eq (cmd : Cmd Span) (mem : List UInt8) : nulterminate t cmd mem =
    cmd.words.foldl (fun mem w => mem.set (t.offset w.2) 0) mem := by
  induction cmd generalizing mem with
  | exec argv => rfl
  | redir cmd file mode fd ih =>
    rw [nulterminate, ih, Cmd.words, List.foldl_append]
    rfl
  | pipe left right ihl ihr => rw [nulterminate, ihl, ihr, Cmd.words, List.foldl_append]
  | list left right ihl ihr => rw [nulterminate, ihl, ihr, Cmd.words, List.foldl_append]
  | back cmd ih => rw [nulterminate, ih, Cmd.words]

lemma foldl_set_of_notMem {ws : List Span} (h : ∀ w ∈ ws, t.offset w.2 ≠ i) :
    (ws.foldl (fun mem w => mem.set (t.offset w.2) 0) mem)[i]? = mem[i]? := by
  induction ws generalizing mem with
  | nil => rfl
  | cons w ws ih =>
    rw [List.forall_mem_cons] at h
    rw [List.foldl_cons, ih h.2, List.getElem?_set_ne h.1]

lemma foldl_set_of_mem {ws : List Span} (h : ∃ w ∈ ws, t.offset w.2 = i) (hi : i < mem.length) :
    (ws.foldl (fun mem w => mem.set (t.offset w.2) 0) mem)[i]? = some 0 := by
  induction ws generalizing mem with
  | nil =>
    obtain ⟨w, hw, -⟩ := h
    cases hw
  | cons w ws ih =>
    rw [List.foldl_cons]
    by_cases hrest : ∃ v ∈ ws, t.offset v.2 = i
    · exact ih hrest (by rwa [List.length_set])
    · have hnot : ∀ v ∈ ws, t.offset v.2 ≠ i := fun v hv he => hrest ⟨v, hv, he⟩
      obtain ⟨v, hv, he⟩ := h
      obtain rfl | hv := List.mem_cons.mp hv
      · rw [foldl_set_of_notMem hnot, he, List.getElem?_set_self hi]
      · exact absurd he (hnot v hv)

/-- A string, from its bytes and the NUL. -/
lemma cstring_eq (hz : ∀ c ∈ bs, c ≠ 0) (hbs : ∀ j < bs.length, mem[i + j]? = bs[j]?)
    (hend : mem[i + bs.length]? = some 0) : cstring mem i = bs := by
  induction bs generalizing i with
  | nil =>
    obtain ⟨hi, he⟩ := List.getElem?_eq_some_iff.mp hend
    rw [List.length_nil, Nat.add_zero] at hi
    rw [cstring, List.drop_eq_getElem_cons hi, List.takeWhile_cons_of_neg]
    rw [decide_eq_true_iff, not_not]
    exact he
  | cons c bs ih =>
    rw [List.forall_mem_cons] at hz
    have h0 : mem[i]? = some c := hbs 0 (Nat.zero_lt_succ _)
    obtain ⟨hi, he⟩ := List.getElem?_eq_some_iff.mp h0
    have hrest : cstring mem (i + 1) = bs := by
      refine ih hz.2 (fun j hj => ?_) ?_
      · rw [Nat.add_right_comm, Nat.add_assoc]
        exact hbs (j + 1) (Nat.succ_lt_succ hj)
      · rw [Nat.add_right_comm, Nat.add_assoc]
        exact hend
    rw [cstring, List.drop_eq_getElem_cons hi, he, List.takeWhile_cons_of_pos]
    · exact congrArg (c :: ·) hrest
    · exact decide_eq_true hz.1

lemma offset_append {pre p : List UInt8} (h : t.bytes = pre ++ p) : t.offset p = pre.length := by
  rw [Str.offset, h, List.length_append, Nat.add_sub_cancel]

/-- The end of a word is not inside of a word. -/
lemma Spans.apart {v : Span} (hw : Spans t.bytes w) (hv : Spans t.bytes v) {j : ℕ}
    (hj : j < (text w).length) : t.offset v.2 ≠ t.offset w.1 + j := by
  obtain ⟨pre, hpre⟩ := hw.suffix
  obtain ⟨pre', hpre'⟩ := hv.suffix
  have hcut : t.bytes = (pre' ++ text v) ++ v.2 := by
    rw [List.append_assoc, ← hv.split, hpre']
  rw [offset_append hpre.symm, offset_append hcut]
  intro he
  have hb : t.bytes[pre.length + j]? = some (text w)[j] := by
    rw [← hpre, hw.split, List.getElem?_append_right (Nat.le_add_right _ _), Nat.add_sub_cancel_left,
      List.getElem?_append_left hj, List.getElem?_eq_getElem hj]
  have hstop : v.2.head? = some (text w)[j] := by
    rw [← hb, ← he, hcut, List.getElem?_append_right le_rfl, Nat.sub_self, List.head?_eq_getElem?]
  exact hv.stop _ hstop (hw.plain _ (List.getElem_mem hj))

/-- A word is a string. -/
lemma Spans.cstring {ws : List Span} (hws : ∀ v ∈ ws, Spans t.bytes v) (hw : w ∈ ws) :
    Unparse.cstring (ws.foldl (fun mem w => mem.set (t.offset w.2) 0) t.mem) (t.offset w.1) =
      text w := by
  have h := hws w hw
  obtain ⟨pre, hpre⟩ := h.suffix
  have hcut : t.bytes = (pre ++ text w) ++ w.2 := by rw [List.append_assoc, ← h.split, hpre]
  have hoff := offset_append hpre.symm
  have hend : t.offset w.2 = t.offset w.1 + (text w).length := by
    rw [hoff, offset_append hcut, List.length_append]
  have hmem : t.mem.length = t.bytes.length + 1 := List.length_append
  refine cstring_eq (fun c hc he => ?_) (fun j hj => ?_) ?_
  · have hin : c ∈ t.bytes := by
      rw [hcut]
      exact List.mem_append_left _ (List.mem_append_right _ hc)
    exact t.chars (he ▸ hin)
  · rw [foldl_set_of_notMem fun v hv => h.apart (hws v hv) hj, hoff, Str.mem, hcut,
      List.append_assoc, List.append_assoc, List.getElem?_append_right (Nat.le_add_right _ _),
      Nat.add_sub_cancel_left, List.getElem?_append_left hj]
  · refine foldl_set_of_mem ⟨w, hw, hend⟩ ?_
    have hlen : t.bytes.length = (pre ++ text w).length + w.2.length := by
      rw [← List.length_append, ← hcut]
    rw [← hend, offset_append hcut, hmem]
    omega

/-- The command as it is in memory. -/
def strings (t : Str) (r : Cmd Span × List UInt8) : Cmd (List UInt8) :=
  r.1.map fun w => cstring r.2 (t.offset w.1)

/-- The words of a parsed command, in the line and in memory. -/
lemma parsed_words {r : Cmd Span × List UInt8} (h : parsecmd t = .ok r) :
    ∀ w ∈ r.1.words, Spans t.bytes w ∧ cstring r.2 (t.offset w.1) = text w := by
  obtain ⟨hd, hmem⟩ := parsecmd_ok h
  have hws : ∀ w ∈ r.1.words, Spans t.bytes w := fun w hw => derives_spans hd hw
  refine fun w hw => ⟨hws w hw, ?_⟩
  rw [hmem, nulterminate_eq]
  exact Spans.cstring hws hw

/-- **Every word of a parsed command is a string in memory afterwards**: its text, up to the next
byte that a word cannot have. And the words are those of the line. -/
theorem parsecmd_strings (t : Str) (r : Cmd Span × List UInt8) (h : parsecmd t = .ok r) :
    r.1.words.Perm (spelt (tokens t.bytes)) ∧
      ∀ w ∈ r.1.words, Spans t.bytes w ∧ cstring r.2 (t.offset w.1) = text w :=
  ⟨(parsecmd_ok h).1.words, parsed_words h⟩

/-- `a >b` -/
def short : Str := ⟨[0x61, 0x20, 0x3E, 0x62], by decide⟩

theorem parsecmd_strings_short : ∃ r, parsecmd short = .ok r ∧
    r.1.words.Perm (spelt (tokens short.bytes)) ∧
      ∀ w ∈ r.1.words, Spans short.bytes w ∧ cstring r.2 (short.offset w.1) = text w :=
  ⟨(.redir (.exec [([0x61, 0x20, 0x3E, 0x62], [0x20, 0x3E, 0x62])]) ([0x62], [])
    (O_WRONLY ||| O_CREATE ||| O_TRUNC) 1, [0x61, 0, 0x3E, 0x62, 0]), rfl,
    parsecmd_strings short _ rfl⟩

/-! ### A line for every command -/

/-- What can be a word. -/
def IsWord (w : List UInt8) : Prop := w ≠ [] ∧ ∀ c ∈ w, Plain c ∧ c ≠ 0

def SP : UInt8 := 0x20

/-- A token and a space. -/
def spell : Tok (List UInt8) → List UInt8
  | .sym c => if c = APPEND then [GREATER, GREATER, SP] else [c, SP]
  | .word w => w ++ [SP]

/-- A command as a line. -/
def unparse (c : Cmd (List UInt8)) : List UInt8 := c.line.flatMap spell

/-- What can be a token. -/
def IsTok : Tok (List UInt8) → Prop
  | .sym c => c ∈ symbols ∨ c = APPEND
  | .word w => IsWord w

lemma skip_of_notMem {c : UInt8} {s : Ptr} (hc : c ∉ whitespace) : skip (c :: s) = c :: s := by
  rw [skip, List.dropWhile_cons_of_neg]
  rwa [decide_eq_true_iff]

lemma skip_space (s : Ptr) : skip (SP :: s) = skip s := by
  rw [skip, List.dropWhile_cons_of_pos]
  · rfl
  · decide

lemma tokens_space (s : Ptr) : tokens (SP :: s) = tokens s := by
  rw [← tokens_skip, skip_space, tokens_skip]

lemma symbol_space {c : UInt8} (hc : c ∈ symbols) : c ∉ whitespace := by
  revert hc
  unfold symbols
  simp only [List.mem_cons, List.not_mem_nil, or_false]
  rintro (rfl | rfl | rfl | rfl | rfl | rfl | rfl) <;> decide

lemma append_word : APPEND ≠ WORD := by decide

lemma symbol_word {c : UInt8} (hc : c ∈ symbols) : c ≠ WORD := by
  rintro rfl
  exact absurd hc (by decide)

lemma append_gettoken (s : Ptr) :
    gettoken (GREATER :: GREATER :: s) = ⟨APPEND, GREATER :: GREATER :: s, s, skip s⟩ := by
  rw [gettoken, skip_of_notMem (symbol_space (c := GREATER) (by decide))]
  dsimp only
  rw [if_pos rfl, List.head?_cons, if_pos rfl, List.tail_cons]

lemma symbol_gettoken {c : UInt8} (hc : c ∈ symbols) (s : Ptr) :
    gettoken (c :: SP :: s) = ⟨c, c :: SP :: s, SP :: s, skip (SP :: s)⟩ := by
  rw [gettoken, skip_of_notMem (symbol_space hc)]
  dsimp only
  split_ifs with h1 h2
  · exact absurd (Option.some.inj h2) (by decide)
  · rw [h1]
  · rfl

/-- A token that is a symbol, and the space after it. -/
lemma tokens_symbol {c d : UInt8} {s u e v : Ptr} (hc : c ∉ whitespace) (hd : d ≠ WORD)
    (hg : gettoken (c :: s) = ⟨d, c :: s, e, skip u⟩) (hu : skip u = skip v) :
    tokens (c :: s) = .sym d :: tokens v := by
  rw [tokens_cons (skip_of_notMem hc), hg, hu, tokens_skip, tokenOf, if_neg hd]

/-- The scanner gets a token back. -/
lemma tokens_spell (hk : IsTok k) (s : Ptr) :
    ∃ u, tokens (spell k ++ s) = u :: tokens s ∧ u.map text = k := by
  cases k with
  | sym c =>
    refine ⟨.sym c, ?_, rfl⟩
    by_cases happ : c = APPEND
    · rw [spell, if_pos happ, happ]
      exact tokens_symbol (symbol_space (c := GREATER) (by decide)) append_word
        (append_gettoken (SP :: s)) (skip_space s)
    · have hc : c ∈ symbols := hk.resolve_right happ
      rw [spell, if_neg happ]
      exact tokens_symbol (symbol_space hc) (symbol_word hc) (symbol_gettoken hc s) (skip_space s)
  | word w =>
    obtain ⟨hne, hplain⟩ := hk
    cases w with
    | nil => exact absurd rfl hne
    | cons c w =>
      rw [List.forall_mem_cons] at hplain
      have hs : skip (c :: (w ++ SP :: s)) = c :: (w ++ SP :: s) := skip_of_notMem hplain.1.1.1
      have hpast : past (w ++ SP :: s) = SP :: s := by
        rw [past, List.dropWhile_append_of_pos, List.dropWhile_cons_of_neg]
        · decide
        · exact fun d hd => decide_eq_true (hplain.2 d hd).1
      have hg := gettoken_word hs hplain.1.1.2
      rw [hpast] at hg
      refine ⟨.word (c :: (w ++ SP :: s), SP :: s), ?_, ?_⟩
      · rw [spell, List.append_assoc]
        refine (tokens_cons hs).trans ?_
        rw [hg]
        exact congrArg (Tok.word _ :: ·) ((tokens_skip _).trans (tokens_space s))
      · exact congrArg Tok.word (text_append (c :: w) (SP :: s))

lemma tokens_spelling (hts : ∀ k ∈ ts, IsTok k) :
    (tokens (ts.flatMap spell)).map (Tok.map text) = ts := by
  induction ts with
  | nil => rfl
  | cons k ts ih =>
    rw [List.forall_mem_cons] at hts
    obtain ⟨u, hu, hmap⟩ := tokens_spell hts.1 (ts.flatMap spell)
    rw [List.flatMap_cons, hu, List.map_cons, hmap, ih hts.2]

/-- All tokens in a line for a command. -/
lemma line_isTok {c : Cmd (List UInt8)} (h : Proper IsWord c) : ∀ k ∈ c.line, IsTok k := by
  have hsym : ∀ d ∈ [LPAREN, RPAREN, BAR, SEMI, AMP, LESS, GREATER], IsTok (.sym d) :=
    fun d hd => .inl (forall_of_all (by decide) d hd)
  induction c with
  | exec argv =>
    intro k hk
    obtain ⟨w, hw, rfl⟩ := List.mem_map.mp hk
    exact h.2 w hw
  | redir cmd file mode fd ih =>
    have hopen : IsTok (.sym (opener mode fd)) := by
      unfold opener
      split_ifs
      · exact hsym LESS (by decide)
      · exact .inr rfl
      · exact hsym GREATER (by decide)
    rw [Cmd.line]
    simp only [List.forall_mem_cons, List.forall_mem_append]
    exact ⟨hsym LPAREN (by decide), ih h.1, hsym RPAREN (by decide), hopen, h.2.1,
      fun k hk => nomatch hk⟩
  | pipe left right ihl ihr =>
    rw [Cmd.line]
    simp only [List.forall_mem_cons, List.forall_mem_append]
    exact ⟨hsym LPAREN (by decide), ihl h.1, hsym RPAREN (by decide), hsym BAR (by decide),
      hsym LPAREN (by decide), ihr h.2, hsym RPAREN (by decide), fun k hk => nomatch hk⟩
  | list left right ihl ihr =>
    rw [Cmd.line]
    simp only [List.forall_mem_cons, List.forall_mem_append]
    exact ⟨hsym LPAREN (by decide), ihl h.1, hsym RPAREN (by decide), hsym SEMI (by decide),
      hsym LPAREN (by decide), ihr h.2, hsym RPAREN (by decide), fun k hk => nomatch hk⟩
  | back cmd ih =>
    rw [Cmd.line]
    simp only [List.forall_mem_cons, List.forall_mem_append]
    exact ⟨hsym LPAREN (by decide), ih h, hsym RPAREN (by decide), hsym AMP (by decide),
      fun k hk => nomatch hk⟩

lemma spell_ne (hk : IsTok k) : ∀ c ∈ spell k, c ≠ 0 := by
  have hsp : SP ≠ 0 := by decide
  cases k with
  | sym c =>
    have hc : c ≠ 0 := by
      rintro rfl
      exact hk.elim (by decide) (by decide)
    rw [spell]
    split_ifs
    · exact List.forall_mem_cons.mpr ⟨greater_ne, List.forall_mem_cons.mpr
        ⟨greater_ne, List.forall_mem_singleton.mpr hsp⟩⟩
    · exact List.forall_mem_cons.mpr ⟨hc, List.forall_mem_singleton.mpr hsp⟩
  | word w =>
    rw [spell, List.forall_mem_append]
    exact ⟨fun c hc => (hk.2 c hc).2, List.forall_mem_singleton.mpr hsp⟩

/-- A line without a NUL. -/
lemma unparse_ne {c : Cmd (List UInt8)} (h : Proper IsWord c) : 0 ∉ unparse c := by
  intro h0
  obtain ⟨k, hk, hin⟩ := List.mem_flatMap.mp h0
  exact spell_ne (line_isTok h k hk) 0 hin rfl

lemma map_congr {V W : Type} {f g : V → W} {c : Cmd V} (h : ∀ w ∈ c.words, f w = g w) :
    c.map f = c.map g := by
  induction c with
  | exec argv => exact congrArg Cmd.exec (List.map_congr_left h)
  | redir cmd file mode fd ih =>
    rw [Cmd.words, List.forall_mem_append] at h
    rw [Cmd.map, Cmd.map, ih h.1, h.2 file (List.mem_singleton_self file)]
  | pipe left right ihl ihr =>
    rw [Cmd.words, List.forall_mem_append] at h
    rw [Cmd.map, Cmd.map, ihl h.1, ihr h.2]
  | list left right ihl ihr =>
    rw [Cmd.words, List.forall_mem_append] at h
    rw [Cmd.map, Cmd.map, ihl h.1, ihr h.2]
  | back cmd ih => rw [Cmd.map, Cmd.map, ih h]

/-- What is in memory are the texts. -/
lemma strings_eq {r : Cmd Span × List UInt8} (h : parsecmd t = .ok r) :
    strings t r = r.1.map text := map_congr fun w hw => (parsed_words h w hw).2

lemma proper_map {V W : Type} {f : V → W} {ok : W → Prop} {c : Cmd V}
    (h : Proper (fun v => ok (f v)) c) : Proper ok (c.map f) := by
  induction c with
  | exec argv =>
    refine ⟨(List.length_map f).trans_lt h.1, fun w hw => ?_⟩
    obtain ⟨v, hv, rfl⟩ := List.mem_map.mp hw
    exact h.2 v hv
  | redir cmd file mode fd ih => exact ⟨ih h.1, h.2⟩
  | pipe left right ihl ihr => exact ⟨ihl h.1, ihr h.2⟩
  | list left right ihl ihr => exact ⟨ihl h.1, ihr h.2⟩
  | back cmd ih => exact ih h

/-- A parsed command is proper. -/
lemma strings_proper {r : Cmd Span × List UInt8} (h : parsecmd t = .ok r) :
    Proper IsWord (strings t r) := by
  rw [strings_eq h]
  refine proper_map ((parsecmd_ok h).1.proper fun w hw => ?_)
  have hspan : Spans t.bytes w := scan_spans _ (mem_spelt hw)
  refine ⟨hspan.ne, fun c hc => ⟨hspan.plain c hc, ?_⟩⟩
  rintro rfl
  refine t.chars (hspan.suffix.subset ?_)
  rw [hspan.split]
  exact List.mem_append_left _ hc

/-- The line of a proper command is parsed as this command. -/
lemma unparse_parsed {c : Cmd (List UInt8)} (h : Proper IsWord c) :
    ∃ t r, t.bytes = unparse c ∧ parsecmd t = .ok r ∧ strings t r = c := by
  obtain ⟨b, hb, hmap⟩ := (line_derives h).lift (tokens_spelling (line_isTok h))
  have hr := parsecmd_derives (s := ⟨unparse c, unparse_ne h⟩) hb
  exact ⟨_, _, rfl, hr, (strings_eq hr).trans hmap⟩

/-- **The parser returns the proper commands and no others, and each for the line that has been
made from it**. -/
theorem parsecmd_unparse (c : Cmd (List UInt8)) :
    (Proper IsWord c ↔ ∃ t r, parsecmd t = .ok r ∧ strings t r = c) ∧
      (Proper IsWord c ↔ ∃ t r, t.bytes = unparse c ∧ parsecmd t = .ok r ∧ strings t r = c) := by
  refine ⟨⟨fun h => ?_, ?_⟩, unparse_parsed, ?_⟩
  · obtain ⟨t, r, -, hr, hc⟩ := unparse_parsed h
    exact ⟨t, r, hr, hc⟩
  · rintro ⟨t, r, hr, rfl⟩
    exact strings_proper hr
  · rintro ⟨t, r, -, hr, rfl⟩
    exact strings_proper hr

end Xv6.User.Unparse
