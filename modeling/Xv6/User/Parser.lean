import Xv6.User.Tokens

/-!
The parser of the shell takes the command lines of the grammar and no others, and its result is the
command that the tokens make up.
-/

namespace Xv6.User.Parser

open Xv6.User.Grammar Xv6.User.Shell Xv6.User.Tokens

variable {s s' t : Ptr} {c : UInt8} {n m argc : ℕ} {toks : List UInt8} {cmd cmd' : Cmd Span}
  {k : Tok Span} {ts ts' rest : List (Tok Span)} {P Q : List (Tok Span) → Cmd Span → Prop}

/-! ### What a part of the parser takes -/

/-- The parser takes tokens that have `P` with its result, or panics. -/
def Takes (P : List (Tok Span) → Cmd Span → Prop) (s : Ptr) :
    Except Fault (Cmd Span × Ptr) → Prop
  | .ok r => r.2.length ≤ s.length ∧ ∃ ts, tokens s = ts ++ tokens r.2 ∧ P ts r.1
  | .error .rounds => False
  | .error (.panic _) => True

lemma Takes.mono {x : Except Fault (Cmd Span × Ptr)} (h : Takes P s x)
    (hPQ : ∀ ts c, P ts c → Q ts c) : Takes Q s x := by
  cases x with
  | error e =>
    cases e with
    | rounds => exact h
    | panic => exact h
  | ok r =>
    obtain ⟨hl, ts, ht, hP⟩ := h
    exact ⟨hl, ts, ht, hPQ _ _ hP⟩

/-- One part after another. -/
lemma Takes.bind {x : Except Fault (Cmd Span × Ptr)}
    {f : Cmd Span × Ptr → Except Fault (Cmd Span × Ptr)} (h : Takes P s x)
    (hf : ∀ ts c s', s'.length ≤ s.length → P ts c →
      Takes (fun ts' c' => Q (ts ++ ts') c') s' (f (c, s'))) : Takes Q s (x >>= f) := by
  cases x with
  | error e =>
    cases e with
    | rounds => exact h.elim
    | panic => trivial
  | ok r =>
    obtain ⟨hl, ts, ht, hP⟩ := h
    have hr := hf ts r.1 r.2 hl hP
    change Takes Q s (f (r.1, r.2))
    cases hx : f (r.1, r.2) with
    | error e =>
      rw [hx] at hr
      cases e with
      | rounds => exact hr
      | panic => trivial
    | ok r' =>
      rw [hx] at hr
      obtain ⟨hl', ts', ht', hQ⟩ := hr
      refine ⟨hl'.trans hl, ts ++ ts', ?_, hQ⟩
      rw [ht, ht', List.append_assoc]

/-- After one token. -/
lemma Takes.next {x : Except Fault (Cmd Span × Ptr)} (h : tokens s = k :: tokens s')
    (hl : s'.length ≤ s.length) (hx : Takes (fun ts c => Q (k :: ts) c) s' x) : Takes Q s x := by
  cases x with
  | error e =>
    cases e with
    | rounds => exact hx
    | panic => trivial
  | ok r =>
    obtain ⟨hl', ts, ht, hQ⟩ := hx
    refine ⟨hl'.trans hl, k :: ts, ?_, hQ⟩
    rw [h, ht, List.cons_append]

lemma takes_ok (hP : P [] cmd) (s : Ptr) : Takes P s (.ok (cmd, skip s)) := by
  refine ⟨length_skip s, [], ?_, hP⟩
  rw [List.nil_append, tokens_skip]

lemma Takes.skip {x : Except Fault (Cmd Span × Ptr)} (h : Takes P (Shell.skip s) x) :
    Takes P s x := by
  cases x with
  | error e =>
    cases e with
    | rounds => exact h
    | panic => trivial
  | ok r =>
    obtain ⟨hl, ts, ht, hP⟩ := h
    exact ⟨hl.trans (length_skip s), ts, (tokens_skip s).symm.trans ht, hP⟩

/-- A symbol that a part of the parser has been looking for. -/
lemma peeked (h : ∀ c ∈ toks, c ∈ symbols) (hp : (peek s toks).1 = true) : ∃ k,
    tokenOf (gettoken (peek s toks).2) = k ∧ lead k ∈ toks ∧
      tokens s = k :: tokens (gettoken (peek s toks).2).ps ∧
      (gettoken (peek s toks).2).ps.length < s.length := by
  obtain ⟨k, ts, htok, hlead⟩ := (peek_tokens h s).mp hp
  obtain ⟨c, t, -, h1, h2, h3⟩ := tokens_of_cons htok
  have hskip : gettoken (peek s toks).2 = gettoken s := gettoken_skip s
  rw [hskip]
  exact ⟨k, h1, hlead, by rw [htok, h2], h3⟩

/-- `peek` for one symbol. -/
lemma peeked_one (hc : c ∈ symbols) (hne : c ≠ GREATER) (hp : (peek s [c]).1 = true) :
    tokens s = .sym c :: tokens (gettoken (peek s [c]).2).ps ∧
      (gettoken (peek s [c]).2).ps.length < s.length := by
  have hall : ∀ d ∈ [c], d ∈ symbols := fun d hd => by rwa [List.mem_singleton.mp hd]
  obtain ⟨k, -, hlead, htok, hlen⟩ := peeked hall hp
  have hk : k = .sym c := by
    cases k with
    | sym d =>
      rw [List.mem_singleton, lead] at hlead
      split_ifs at hlead with hd
      · exact absurd hlead.symm hne
      · rw [hlead]
    | word w =>
      have hw : WORD = c := List.mem_singleton.mp hlead
      rw [← hw] at hc
      exact absurd hc (by decide)
  rw [hk] at htok
  exact ⟨htok, hlen⟩

/-! ### Redirections and words -/

lemma redir_symbols : ∀ c ∈ [LESS, GREATER], c ∈ symbols := forall_of_all (by decide)

/-- What `peek` finds for a redirection. -/
lemma peek_redir (hp : (peek s [LESS, GREATER]).1 = true) : ∃ mode fd,
    opens (gettoken (peek s [LESS, GREATER]).2).ret = some (mode, fd) ∧
    tokens s = .sym (gettoken (peek s [LESS, GREATER]).2).ret ::
      tokens (gettoken (peek s [LESS, GREATER]).2).ps ∧
    (gettoken (peek s [LESS, GREATER]).2).ps.length < s.length := by
  obtain ⟨k, hk, hlead, htok, hlen⟩ := peeked redir_symbols hp
  rw [tokenOf] at hk
  split_ifs at hk with hw
  · rw [← hk] at hlead
    exact absurd hlead (by decide : WORD ∉ [LESS, GREATER])
  · rw [← hk, lead] at hlead
    rw [← hk] at htok
    have hopens : ∃ m, opens (gettoken (peek s [LESS, GREATER]).2).ret = some m := by
      split_ifs at hlead with happ
      · rw [happ]
        exact ⟨_, rfl⟩
      · rcases List.mem_cons.mp hlead with hlt | hgt
        · rw [hlt]
          exact ⟨_, rfl⟩
        · rw [List.mem_singleton.mp hgt]
          exact ⟨_, rfl⟩
    obtain ⟨⟨mode, fd⟩, hm⟩ := hopens
    exact ⟨mode, fd, hm, htok, hlen⟩

/-- The branches for the kinds of redirections. -/
lemma redir_branch {α : Type} {f : ℕ → ℕ → α} {x : α} {mode fd : ℕ} (h : opens c = some (mode, fd)) :
    (if c = LESS then f O_RDONLY 0 else if c = GREATER then f (O_WRONLY ||| O_CREATE ||| O_TRUNC) 1
      else if c = APPEND then f (O_WRONLY ||| O_CREATE) 1 else x) = f mode fd := by
  unfold opens at h
  split_ifs at h with h1 h2 h3
  · rw [if_pos h1]
    cases h
    rfl
  · rw [if_neg h1, if_pos h2]
    cases h
    rfl
  · rw [if_neg h1, if_neg h2, if_pos h3]
    cases h
    rfl

/-- A round of `parseredirs`. -/
lemma parseredirs_succ (fuel : ℕ) (cmd : Cmd Span) {mode fd : ℕ}
    (hp : (peek s [LESS, GREATER]).1 = true)
    (hopens : opens (gettoken (peek s [LESS, GREATER]).2).ret = some (mode, fd)) :
    parseredirs (fuel + 1) cmd s =
      if (gettoken (gettoken (peek s [LESS, GREATER]).2).ps).ret ≠ WORD then
        .error (.panic "missing file for redirection")
      else parseredirs fuel (.redir cmd ((gettoken (gettoken (peek s [LESS, GREATER]).2).ps).q,
        (gettoken (gettoken (peek s [LESS, GREATER]).2).ps).eq) mode fd)
          (gettoken (gettoken (peek s [LESS, GREATER]).2).ps).ps := by
  rw [parseredirs]
  dsimp only
  rw [if_pos hp]
  congr 1
  exact redir_branch (f := fun mode fd => parseredirs fuel (.redir cmd _ mode fd) _) hopens

/-- A word, where `gettoken` says so. -/
lemma word_token (h : (gettoken s).ret = WORD) :
    tokens s = .word ((gettoken s).q, (gettoken s).eq) :: tokens (gettoken s).ps ∧
      (gettoken s).ps.length < s.length := by
  cases hs : skip s with
  | nil =>
    rw [gettoken_nil hs] at h
    exact absurd h (by decide)
  | cons c t =>
    refine ⟨?_, (gettoken_some hs).2⟩
    rw [tokens_cons hs, tokenOf, if_pos h]

lemma parseredirs_takes (fuel : ℕ) (cmd : Cmd Span) (s : Ptr) (hf : s.length < fuel) :
    Takes (Redirs cmd) s (parseredirs fuel cmd s) := by
  induction fuel generalizing cmd s with
  | zero => omega
  | succ fuel ih =>
    by_cases hp : (peek s [LESS, GREATER]).1 = true
    · obtain ⟨mode, fd, hopens, htok, hlen⟩ := peek_redir hp
      rw [parseredirs_succ fuel cmd hp hopens]
      split_ifs with hfile
      · trivial
      · obtain ⟨hword, hlen'⟩ := word_token (not_not.mp hfile)
        refine Takes.next htok hlen.le (Takes.next hword hlen'.le ?_)
        exact (ih _ _ (by omega)).mono fun ts c hr => .cons hopens hr
    · rw [parseredirs]
      dsimp only
      rw [if_neg hp]
      exact takes_ok (.nil cmd) s

lemma stop_symbols : ∀ c ∈ [BAR, RPAREN, AMP, SEMI], c ∈ symbols := forall_of_all (by decide)

lemma execLoop_takes (fuel argc : ℕ) (cmd : Cmd Span) (s : Ptr) (hf : s.length < fuel) :
    Takes (Words argc cmd) s (execLoop fuel argc cmd s) := by
  induction fuel generalizing argc cmd s with
  | zero => omega
  | succ fuel ih =>
    have hskip : gettoken (peek s [BAR, RPAREN, AMP, SEMI]).2 = gettoken s := gettoken_skip s
    rw [execLoop]
    dsimp only
    rw [hskip]
    split_ifs with hp hend hword hroom
    · exact takes_ok (.nil argc cmd) s
    · refine ⟨?_, [], ?_, .nil argc cmd⟩
      · cases hs : skip s with
        | nil =>
          rw [gettoken_nil hs]
          exact Nat.zero_le _
        | cons c t => exact absurd hend (gettoken_some hs).1
      · cases hs : skip s with
        | nil =>
          rw [tokens_nil hs, gettoken_nil hs]
          rfl
        | cons c t => exact absurd hend (gettoken_some hs).1
    · trivial
    · trivial
    · obtain ⟨htok, hlen⟩ := word_token (not_not.mp hword)
      refine Takes.next htok hlen.le ((parseredirs_takes fuel _ _ (by omega)).bind ?_)
      intro ts c s' hl hr
      exact (ih _ _ _ (by omega)).mono fun ts' c' hw => .cons (not_le.mp hroom) hr hw

/-! ### Soundness -/

lemma takes_pure (hP : P [] cmd) (s : Ptr) : Takes P s (.ok (cmd, s)) :=
  ⟨le_rfl, [], (List.nil_append _).symm, hP⟩

lemma backLoop_takes (fuel : ℕ) (cmd : Cmd Span) (s : Ptr) (hf : s.length < fuel) :
    Takes (fun ts c => ∃ n, ts = amps n ∧ c = backs n cmd) s (backLoop fuel cmd s) := by
  induction fuel generalizing cmd s with
  | zero => omega
  | succ fuel ih =>
    rw [backLoop]
    split_ifs with hp
    · obtain ⟨htok, hlen⟩ := peeked_one (by decide) (by decide) hp
      refine Takes.next htok hlen.le ((ih _ _ (by omega)).mono ?_)
      rintro _ _ ⟨n, rfl, rfl⟩
      exact ⟨n + 1, rfl, rfl⟩
    · exact takes_ok ⟨0, rfl, rfl⟩ s

/-- What each of the functions takes, with as much fuel. -/
lemma parse_takes (fuel : ℕ) :
    (∀ s, 4 * s.length + 8 ≤ fuel → Takes (Derives .line) s (parseline fuel s)) ∧
    (∀ s, 4 * s.length + 7 ≤ fuel → Takes (Derives .pipe) s (parsepipe fuel s)) ∧
    (∀ s, 4 * s.length + 5 ≤ fuel → Takes (Derives .exec) s (parseblock fuel s)) ∧
    ∀ s, 4 * s.length + 6 ≤ fuel → Takes (Derives .exec) s (parseexec fuel s) := by
  induction fuel with
  | zero =>
    refine ⟨fun s hs => ?_, fun s hs => ?_, fun s hs => ?_, fun s hs => ?_⟩
    all_goals omega
  | succ fuel ih =>
    obtain ⟨hline, hpipe, hblock, hexec⟩ := ih
    refine ⟨fun s hs => ?_, fun s hs => ?_, fun s hs => ?_, fun s hs => ?_⟩
    · rw [parseline]
      refine (hpipe s (by omega)).bind fun ts c s1 hl h1 => ?_
      refine (backLoop_takes fuel c s1 (by omega)).bind ?_
      rintro _ _ s2 hl2 ⟨n, rfl, rfl⟩
      dsimp only
      split_ifs with hp
      · obtain ⟨htok, hlen⟩ := peeked_one (by decide) (by decide) hp
        refine Takes.next htok hlen.le ((hline _ (by omega)).bind fun ts2 c2 s3 _ h2 => ?_)
        refine takes_pure ?_ s3
        rw [List.append_nil, ← List.append_assoc]
        exact .list n h1 h2
      · refine takes_ok ?_ s2
        rw [List.append_nil]
        exact .last n h1
    · rw [parsepipe]
      refine (hexec s (by omega)).bind fun ts c s1 hl h1 => ?_
      dsimp only
      split_ifs with hp
      · obtain ⟨htok, hlen⟩ := peeked_one (by decide) (by decide) hp
        refine Takes.next htok hlen.le ((hpipe _ (by omega)).bind fun ts2 c2 s3 _ h2 => ?_)
        refine takes_pure ?_ s3
        rw [List.append_nil]
        exact .pipe h1 h2
      · refine takes_ok ?_ s1
        rw [List.append_nil]
        exact .one h1
    · rw [parseblock]
      dsimp only
      split_ifs with hp
      · obtain ⟨htok, hlen⟩ := peeked_one (by decide) (by decide) hp
        refine Takes.next htok hlen.le ((hline _ (by omega)).bind fun ts c s1 hl h1 => ?_)
        dsimp only
        split_ifs with hq
        · obtain ⟨htok', hlen'⟩ := peeked_one (by decide) (by decide) hq
          refine Takes.next htok' hlen'.le ?_
          exact (parseredirs_takes fuel _ _ (by omega)).mono fun ts' c' hr => .block h1 hr
        · trivial
      · trivial
    · have hskip := length_skip s
      rw [parseexec]
      split_ifs with hp
      · exact (hblock (skip s) (by omega)).skip
      · refine Takes.skip ((parseredirs_takes fuel _ (skip s) (by omega)).bind ?_)
        · intro ts c s1 hl h1
          exact (execLoop_takes fuel 0 c s1 (by omega)).mono fun ts' c' h2 => .exec h1 h2

/-! ### Completeness -/

/-- The first token begins with one of the symbols. -/
def Begins {W : Type} (toks : List UInt8) (ts : List (Tok W)) : Prop :=
  ∃ k ts', ts = k :: ts' ∧ lead k ∈ toks

/-- The tokens end here, or one of the symbols is next. -/
def Stops {W : Type} (toks : List UInt8) (ts : List (Tok W)) : Prop := ts = [] ∨ Begins toks ts

@[simp]
lemma begins_cons {W : Type} {k : Tok W} {ts : List (Tok W)} :
    Begins toks (k :: ts) ↔ lead k ∈ toks := by
  constructor
  · rintro ⟨k', ts', h, hlead⟩
    cases h
    exact hlead
  · exact fun h => ⟨k, ts, rfl, h⟩

lemma Stops.begins {W : Type} {ts : List (Tok W)} {cs : List UInt8} (h : Stops cs ts)
    (hne : cs.all (fun c => decide (c ∉ toks)) = true) : ¬ Begins toks ts := by
  rintro ⟨k, ts', rfl, hin⟩
  obtain h | h := h
  · cases h
  · exact forall_of_all hne _ (begins_cons.mp h) hin

lemma Stops.mono {W : Type} {ts : List (Tok W)} {cs : List UInt8} (h : Stops cs ts)
    (hsub : cs.all (fun c => decide (c ∈ toks)) = true) : Stops toks ts := by
  obtain h | ⟨k, ts', hts, hin⟩ := h
  · exact .inl h
  · exact .inr ⟨k, ts', hts, forall_of_all hsub _ hin⟩

lemma peek_not (hall : ∀ c ∈ toks, c ∈ symbols) (h : ¬ Begins toks (tokens s)) :
    (peek s toks).1 ≠ true := mt (peek_tokens hall s).mp h

/-- The parser returns this command and leaves these tokens. -/
def Gives (x : Except Fault (Cmd Span × Ptr)) (s : Ptr) (c : Cmd Span) (rest : List (Tok Span)) :
    Prop :=
  ∃ s', x = .ok (c, s') ∧ tokens s' = rest ∧ s'.length ≤ s.length

lemma Gives.bind {x : Except Fault (Cmd Span × Ptr)}
    {f : Cmd Span × Ptr → Except Fault (Cmd Span × Ptr)} {mid : List (Tok Span)}
    (h : Gives x s cmd mid)
    (hf : ∀ s', tokens s' = mid → s'.length ≤ s.length → Gives (f (cmd, s')) s' cmd' rest) :
    Gives (x >>= f) s cmd' rest := by
  obtain ⟨s1, rfl, htok, hlen⟩ := h
  obtain ⟨s2, hx, htok', hlen'⟩ := hf s1 htok hlen
  exact ⟨s2, hx, htok', hlen'.trans hlen⟩

lemma Gives.of_le {x : Except Fault (Cmd Span × Ptr)} (h : Gives x s' cmd rest)
    (hl : s'.length ≤ s.length) : Gives x s cmd rest := by
  obtain ⟨s1, hx, htok, hlen⟩ := h
  exact ⟨s1, hx, htok, hlen.trans hl⟩

lemma gives_ok (h : tokens s = rest) : Gives (.ok (cmd, skip s)) s cmd rest :=
  ⟨skip s, rfl, (tokens_skip s).trans h, length_skip s⟩

lemma opens_symbol {mode fd : ℕ} (h : opens c = some (mode, fd)) :
    lead (.sym c : Tok Span) ∈ [LESS, GREATER] := by
  unfold opens at h
  split_ifs at h with h1 h2 h3
  · rw [h1]
    decide
  · rw [h2]
    decide
  · rw [h3]
    decide

lemma parseredirs_gives (h : Redirs cmd ts cmd') (fuel : ℕ) (s : Ptr) (hf : s.length < fuel)
    (hs : tokens s = ts ++ rest) (hrest : ¬ Begins [LESS, GREATER] rest) :
    Gives (parseredirs fuel cmd s) s cmd' rest := by
  induction h generalizing fuel s with
  | nil c =>
    obtain ⟨fuel, rfl⟩ : ∃ n, fuel = n + 1 := ⟨fuel - 1, by omega⟩
    rw [parseredirs]
    dsimp only
    rw [if_neg (peek_not redir_symbols (hs ▸ hrest))]
    exact gives_ok hs
  | @cons c c' sy mode fd w ts opening redirs ih =>
    obtain ⟨fuel, rfl⟩ : ∃ n, fuel = n + 1 := ⟨fuel - 1, by omega⟩
    have hp : (peek s [LESS, GREATER]).1 = true :=
      (peek_tokens redir_symbols s).mpr ⟨_, _, hs, opens_symbol opening⟩
    obtain ⟨mode', fd', hopens, htok, hlen⟩ := peek_redir hp
    rw [htok, List.cons_append, List.cons.injEq, Tok.sym.injEq] at hs
    rw [hs.1, opening] at hopens
    cases hopens
    rw [parseredirs_succ fuel c hp (hs.1 ▸ opening)]
    obtain ⟨hret, hw, htok', hlen'⟩ := tokens_of_word hs.2
    rw [if_neg (not_not.mpr hret), hw]
    exact (ih fuel _ (by omega) htok').of_le (hlen'.le.trans hlen.le)

lemma words_gives (h : Words argc cmd ts cmd') (fuel : ℕ) (s : Ptr) (hf : s.length < fuel)
    (hs : tokens s = ts ++ rest) (hrest : Stops [BAR, RPAREN, AMP, SEMI] rest) :
    Gives (execLoop fuel argc cmd s) s cmd' rest := by
  have hskip (s : Ptr) : gettoken (peek s [BAR, RPAREN, AMP, SEMI]).2 = gettoken s :=
    gettoken_skip s
  induction h generalizing fuel s with
  | nil argc c =>
    obtain ⟨fuel, rfl⟩ : ∃ n, fuel = n + 1 := ⟨fuel - 1, by omega⟩
    rw [List.nil_append] at hs
    rw [execLoop]
    dsimp only
    rw [hskip]
    obtain rfl | hb := hrest
    · have hend := tokens_eq_nil.mp hs
      have hp : (peek s [BAR, RPAREN, AMP, SEMI]).1 ≠ true := by
        refine peek_not stop_symbols ?_
        rw [hs]
        rintro ⟨k, ts', h, -⟩
        cases h
      rw [if_neg hp, gettoken_nil hend, if_pos rfl]
      exact ⟨[], rfl, tokens_nil rfl, Nat.zero_le _⟩
    · rw [if_pos ((peek_tokens stop_symbols s).mpr (hs ▸ hb))]
      exact gives_ok hs
  | @cons argc c c1 c' w ts ts' room redirs words ih =>
    obtain ⟨fuel, rfl⟩ : ∃ n, fuel = n + 1 := ⟨fuel - 1, by omega⟩
    rw [List.cons_append, List.append_assoc] at hs
    have hp : (peek s [BAR, RPAREN, AMP, SEMI]).1 ≠ true := by
      refine peek_not stop_symbols ?_
      rw [hs, begins_cons]
      exact (by decide : WORD ∉ [BAR, RPAREN, AMP, SEMI])
    obtain ⟨hret, hw, htok, hlen⟩ := tokens_of_word hs
    rw [execLoop]
    dsimp only
    rw [hskip, if_neg hp, if_neg (by rw [hret]; exact word_ne), if_neg (not_not.mpr hret),
      if_neg (not_le.mpr room), hw]
    refine ((parseredirs_gives redirs fuel _ (by omega) htok ?_).bind ?_).of_le hlen.le
    · cases words with
      | nil => exact hrest.begins (by decide)
      | cons =>
        rw [List.cons_append, begins_cons]
        exact (by decide : WORD ∉ [LESS, GREATER])
    · intro s1 hs1 hl1
      exact ih fuel s1 (by omega) hs1

lemma backLoop_gives (n fuel : ℕ) (cmd : Cmd Span) (s : Ptr) (hf : s.length < fuel)
    (hs : tokens s = amps n ++ rest) (hrest : ¬ Begins [AMP] rest) :
    Gives (backLoop fuel cmd s) s (backs n cmd) rest := by
  have hall : ∀ c ∈ [AMP], c ∈ symbols := forall_of_all (by decide)
  induction n generalizing fuel cmd s with
  | zero =>
    obtain ⟨fuel, rfl⟩ : ∃ n, fuel = n + 1 := ⟨fuel - 1, by omega⟩
    rw [amps, List.replicate_zero, List.nil_append] at hs
    rw [backLoop, if_neg (peek_not hall (hs ▸ hrest))]
    exact gives_ok hs
  | succ n ih =>
    obtain ⟨fuel, rfl⟩ : ∃ n, fuel = n + 1 := ⟨fuel - 1, by omega⟩
    have hp : (peek s [AMP]).1 = true :=
      (peek_tokens hall s).mpr ⟨_, _, hs, by decide⟩
    obtain ⟨htok, hlen⟩ := peeked_one (by decide) (by decide) hp
    rw [htok, amps, List.replicate_succ, List.cons_append, List.cons.injEq] at hs
    rw [backLoop, if_pos hp]
    exact (ih fuel _ _ (by omega) hs.2).of_le hlen.le

/-- The function for each kind. -/
def parse : Kind → ℕ → Ptr → Except Fault (Cmd Span × Ptr)
  | .line => parseline
  | .pipe => parsepipe
  | .exec => parseexec

/-- What comes after each kind. -/
def follow : Kind → List UInt8
  | .line => [RPAREN]
  | .pipe => [RPAREN, AMP, SEMI]
  | .exec => [RPAREN, AMP, SEMI, BAR]

def margin : Kind → ℕ
  | .line => 8
  | .pipe => 7
  | .exec => 6

lemma amps_stops (n : ℕ) (h : Stops toks rest) (hsub : AMP ∈ toks) : Stops toks (amps n ++ rest) := by
  cases n with
  | zero => exact h
  | succ n => exact .inr ⟨_, _, rfl, hsub⟩

lemma peek_one (hc : c ∈ symbols) (hne : c ≠ GREATER) (hs : tokens s = .sym c :: ts) :
    (peek s [c]).1 = true ∧ tokens (gettoken (peek s [c]).2).ps = ts ∧
      (gettoken (peek s [c]).2).ps.length < s.length := by
  have hlead : lead (.sym c : Tok Span) ∈ [c] := by
    rw [lead, if_neg]
    · exact List.mem_singleton_self c
    · rintro rfl
      exact absurd hc (by decide)
  have hall : ∀ d ∈ [c], d ∈ symbols := fun d hd => by rwa [List.mem_singleton.mp hd]
  have hp := (peek_tokens hall s).mpr ⟨_, _, hs, hlead⟩
  obtain ⟨htok, hlen⟩ := peeked_one hc hne hp
  rw [htok, List.cons.injEq] at hs
  exact ⟨hp, hs.2, hlen⟩

lemma peek_not_one (hc : c ∈ symbols) (h : ¬ Begins [c] (tokens s)) : (peek s [c]).1 ≠ true :=
  peek_not (fun d hd => by rwa [List.mem_singleton.mp hd]) h

lemma six_le_margin (kind : Kind) : 6 ≤ margin kind := by cases kind <;> decide

lemma fuel_two {kind : Kind} {l fuel : ℕ} (h : 4 * l + margin kind ≤ fuel) :
    ∃ n, fuel = n + 2 := by
  have h6 := six_le_margin kind
  exact ⟨fuel - 2, by omega⟩

lemma fuel_next {kind kind' : Kind} {l l' fuel : ℕ} (h : 4 * l + margin kind ≤ fuel + 1)
    (hl : l' < l) : 4 * l' + margin kind' ≤ fuel := by
  have h6 := six_le_margin kind
  have h8 : margin kind' ≤ 8 := by cases kind' <;> decide
  omega

/-- What may be next where a command with arguments may be. -/
lemma exec_begins (hr : Redirs (.exec []) ts cmd) (hw : Words 0 cmd ts' cmd')
    (hrest : Stops (follow .exec) rest) : ¬ Begins [LPAREN] (ts ++ (ts' ++ rest)) := by
  cases hr with
  | nil =>
    cases hw with
    | nil => exact hrest.begins (by decide)
    | cons =>
      rw [List.nil_append, List.cons_append, begins_cons]
      exact (by decide : WORD ∉ [LPAREN])
  | cons opening =>
    rw [List.cons_append, begins_cons]
    have hlead := opens_symbol opening
    intro h
    rw [List.mem_singleton.mp h] at hlead
    exact absurd hlead (by decide)

/-- A line after its first pipe. -/
lemma parseline_gives (n : ℕ) (ts : List (Tok Span)) {fuel : ℕ} (hf : 4 * s.length + 8 ≤ fuel + 1)
    (hp : Gives (parse .pipe fuel s) s cmd (amps n ++ ts)) (hts : ¬ Begins [AMP] ts)
    (hl : ∀ s', s'.length ≤ s.length → tokens s' = ts →
      Gives (if (peek s' [SEMI]).1 then do
          let l ← parseline fuel (gettoken (peek s' [SEMI]).2).ps
          pure (.list (backs n cmd) l.1, l.2)
        else pure (backs n cmd, (peek s' [SEMI]).2)) s' cmd' rest) :
    Gives (parseline (fuel + 1) s) s cmd' rest := by
  rw [parseline]
  refine hp.bind fun s1 hs1 hl1 => ?_
  refine (backLoop_gives n fuel cmd s1 (by omega) hs1 hts).bind fun s2 hs2 hl2 => ?_
  exact hl s2 (hl2.trans hl1) hs2

/-- The parser takes what the grammar derives. -/
lemma derives_gives {kind : Kind} (h : Derives kind ts cmd) (fuel : ℕ) (s : Ptr)
    (hf : 4 * s.length + margin kind ≤ fuel) (hs : tokens s = ts ++ rest)
    (hrest : Stops (follow kind) rest) : Gives (parse kind fuel s) s cmd rest := by
  induction h generalizing fuel s rest with
  | @last ts c n first ih =>
    obtain ⟨fuel, rfl⟩ := fuel_two hf
    have hsub : Stops (follow .pipe) rest := hrest.mono (by decide)
    refine parseline_gives n rest hf (ih _ s ?_ ?_ ?_) (hrest.begins (by decide)) ?_
    · exact Nat.le_of_succ_le_succ hf
    · rw [hs, List.append_assoc]
    · exact amps_stops n hsub (by decide)
    · intro s' hl hs'
      rw [if_neg (peek_not_one (by decide) (hs' ▸ hrest.begins (by decide)))]
      exact gives_ok hs'
  | @list ts ts' c c' n first line ihp ihl =>
    obtain ⟨fuel, rfl⟩ := fuel_two hf
    have hlead : lead (.sym SEMI : Tok Span) ∉ [AMP] := by decide
    refine parseline_gives n (.sym SEMI :: (ts' ++ rest)) hf (ihp _ s ?_ ?_ ?_)
      (mt begins_cons.mp hlead) ?_
    · exact Nat.le_of_succ_le_succ hf
    · rw [hs, List.append_assoc, List.append_assoc, List.cons_append]
    · exact amps_stops n (.inr ⟨_, _, rfl, by decide⟩) (by decide)
    · intro s' hl hs'
      obtain ⟨hp, htok, hlen⟩ := peek_one (by decide) (by decide) hs'
      rw [if_pos hp]
      have hr := ihl _ _ (fuel_next hf (by omega)) htok hrest
      refine (hr.bind fun s1 hs1 hl1 => ?_).of_le hlen.le
      exact ⟨s1, rfl, hs1, le_rfl⟩
  | @one ts c only ih =>
    obtain ⟨fuel, rfl⟩ := fuel_two hf
    rw [parse, parsepipe]
    refine (ih _ s (Nat.le_of_succ_le_succ hf) hs (hrest.mono (by decide))).bind ?_
    intro s1 hs1 hl1
    dsimp only
    rw [if_neg (peek_not_one (by decide) (hs1 ▸ hrest.begins (by decide)))]
    exact gives_ok hs1
  | @pipe ts ts' c c' first pipe ihe ihp =>
    obtain ⟨fuel, rfl⟩ := fuel_two hf
    rw [List.append_assoc, List.cons_append] at hs
    rw [parse, parsepipe]
    refine (ihe _ s (Nat.le_of_succ_le_succ hf) hs (.inr ⟨_, _, rfl, by decide⟩)).bind ?_
    intro s1 hs1 hl1
    obtain ⟨hp, htok, hlen⟩ := peek_one (by decide) (by decide) hs1
    dsimp only
    rw [if_pos hp]
    have hr := ihp _ _ (fuel_next hf (by omega)) htok hrest
    refine (hr.bind fun s2 hs2 hl2 => ?_).of_le hlen.le
    exact ⟨s2, rfl, hs2, le_rfl⟩
  | @block ts ts' c c' line redirs ih =>
    obtain ⟨fuel, rfl⟩ := fuel_two hf
    rw [List.cons_append, List.append_assoc, List.cons_append] at hs
    obtain ⟨hp, -, -⟩ := peek_one (by decide) (by decide) hs
    obtain ⟨hp', htok, hlen⟩ := peek_one (s := skip s) (by decide) (by decide)
      ((tokens_skip s).trans hs)
    have hskip := length_skip s
    have hf' : 4 * s.length + 6 ≤ fuel + 2 := hf
    have hr : Gives (parseblock (fuel + 1) (skip s)) (skip s) c' rest := by
      rw [parseblock]
      dsimp only
      rw [if_pos hp']
      have hline := ih fuel _ (by change 4 * _ + 8 ≤ fuel; omega) htok (.inr ⟨_, _, rfl, by decide⟩)
      refine (hline.bind fun s1 hs1 hl1 => ?_).of_le hlen.le
      obtain ⟨hq, htok', hlen'⟩ := peek_one (by decide) (by decide) hs1
      dsimp only
      rw [if_pos hq]
      exact (parseredirs_gives redirs fuel _ (by omega) htok' (hrest.begins (by decide))).of_le
        hlen'.le
    rw [parse, parseexec, if_pos hp]
    exact hr.of_le hskip
  | @exec ts ts' c c' redirs words =>
    obtain ⟨fuel, rfl⟩ := fuel_two hf
    have hskip := length_skip s
    have hf' : 4 * s.length + 6 ≤ fuel + 2 := hf
    rw [List.append_assoc] at hs
    have hp : (peek s [LPAREN]).1 ≠ true :=
      peek_not_one (by decide) (hs ▸ exec_begins redirs words hrest)
    rw [parse, parseexec, if_neg hp]
    refine ((parseredirs_gives redirs _ (skip s) (by omega) ((tokens_skip s).trans hs) ?_).bind
      ?_).of_le hskip
    · cases words with
      | nil => exact hrest.begins (by decide)
      | cons =>
        rw [List.cons_append, begins_cons]
        exact (by decide : WORD ∉ [LESS, GREATER])
    · intro s1 hs1 hl1
      exact words_gives words _ s1 (by omega) hs1 (hrest.mono (by decide))

/-- A parsed line is all of the string. -/
lemma parsecmd_ok {s : Str} {r : Cmd Span × List UInt8} (h : parsecmd s = .ok r) :
    Derives .line (tokens s.bytes) r.1 ∧ r.2 = nulterminate s r.1 s.mem := by
  have ht := (parse_takes (rounds s.bytes)).1 s.bytes le_rfl
  rw [parsecmd] at h
  cases hx : parseline (rounds s.bytes) s.bytes with
  | error e =>
    rw [hx] at h
    cases h
  | ok l =>
    rw [hx] at h ht
    obtain ⟨-, ts, hts, hd⟩ := ht
    change (if (peek l.2 []).2 ≠ [] then _ else _) = _ at h
    split_ifs at h with hend
    cases h
    rw [tokens_nil (not_not.mp hend), List.append_nil] at hts
    exact ⟨hts ▸ hd, rfl⟩

lemma parsecmd_derives {s : Str} {c : Cmd Span} (h : Derives .line (tokens s.bytes) c) :
    parsecmd s = .ok (c, nulterminate s c s.mem) := by
  obtain ⟨s', hx, htok, -⟩ := derives_gives h (rounds s.bytes) s.bytes le_rfl
    (List.append_nil _).symm (.inl rfl)
  change parseline _ _ = _ at hx
  rw [parsecmd, hx]
  change (if (peek s' []).2 ≠ [] then _ else _) = _
  have hend : (peek s' []).2 = [] := tokens_eq_nil.mp htok
  rw [if_neg (not_not.mpr hend)]
  rfl

/-- **The parser comes to an end, and takes the lines of the grammar and no others**, as the command
that they make up. -/
theorem parsecmd_grammar (s : Str) : parsecmd s ≠ .error .rounds ∧
    ∀ c, (∃ mem, parsecmd s = .ok (c, mem)) ↔ Derives .line (tokens s.bytes) c := by
  refine ⟨fun h => ?_, fun c => ⟨?_, fun h => ⟨_, parsecmd_derives h⟩⟩⟩
  · have ht := (parse_takes (rounds s.bytes)).1 s.bytes le_rfl
    rw [parsecmd] at h
    cases hx : parseline (rounds s.bytes) s.bytes with
    | error e =>
      rw [hx] at h ht
      cases h
      exact ht
    | ok l =>
      rw [hx] at h
      change (if (peek l.2 []).2 ≠ [] then _ else _) = _ at h
      split_ifs at h
      · cases h
      · cases h
  · rintro ⟨mem, h⟩
    exact (parsecmd_ok h).1

end Xv6.User.Parser
