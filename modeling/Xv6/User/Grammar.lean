import Mathlib.Data.List.Basic

/-!
Command lines as the shell (`sh.c`) takes them: commands, tokens, and which tokens make up which
command. Words are of any type.
-/

namespace Xv6.User.Grammar

/-! ### Commands -/

def MAXARGS : ℕ := 10

def O_RDONLY : ℕ := 0x000
def O_WRONLY : ℕ := 0x001
def O_CREATE : ℕ := 0x200
def O_TRUNC : ℕ := 0x400

/-- `struct cmd`, with `argv[]` up to the null pointer. -/
inductive Cmd (W : Type)
  | exec (argv : List W)
  | redir (cmd : Cmd W) (file : W) (mode fd : ℕ)
  | pipe (left right : Cmd W)
  | list (left right : Cmd W)
  | back (cmd : Cmd W)
  deriving DecidableEq

/-- One more argument, for the command below the redirections. -/
def Cmd.addArg {W : Type} (w : W) : Cmd W → Cmd W
  | .exec argv => .exec (argv ++ [w])
  | .redir cmd file mode fd => .redir (cmd.addArg w) file mode fd
  | cmd => cmd

def Cmd.map {V W : Type} (f : V → W) : Cmd V → Cmd W
  | .exec argv => .exec (argv.map f)
  | .redir cmd file mode fd => .redir (cmd.map f) (f file) mode fd
  | .pipe left right => .pipe (left.map f) (right.map f)
  | .list left right => .list (left.map f) (right.map f)
  | .back cmd => .back (cmd.map f)

/-- All words of a command. -/
def Cmd.words {W : Type} : Cmd W → List W
  | .exec argv => argv
  | .redir cmd file _ _ => cmd.words ++ [file]
  | .pipe left right => left.words ++ right.words
  | .list left right => left.words ++ right.words
  | .back cmd => cmd.words

/-! ### Tokens -/

def BAR : UInt8 := 0x7C
def LPAREN : UInt8 := 0x28
def RPAREN : UInt8 := 0x29
def SEMI : UInt8 := 0x3B
def AMP : UInt8 := 0x26
def LESS : UInt8 := 0x3C
def GREATER : UInt8 := 0x3E

/-- What `gettoken` returns for `>>`. -/
def APPEND : UInt8 := 0x2B

inductive Tok (W : Type)
  | sym (c : UInt8)
  | word (w : W)
  deriving DecidableEq

def Tok.word? {W : Type} : Tok W → Option W
  | .sym _ => none
  | .word w => some w

def Tok.map {V W : Type} (f : V → W) : Tok V → Tok W
  | .sym c => .sym c
  | .word w => .word (f w)

/-- How a redirection opens its file, and as what. -/
def opens (c : UInt8) : Option (ℕ × ℕ) :=
  if c = LESS then some (O_RDONLY, 0)
  else if c = GREATER then some (O_WRONLY ||| O_CREATE ||| O_TRUNC, 1)
  else if c = APPEND then some (O_WRONLY ||| O_CREATE, 1)
  else none

/-! ### The grammar -/

variable {W : Type}

/-- Any number of redirections. They make the second command of the first one. -/
inductive Redirs : Cmd W → List (Tok W) → Cmd W → Prop
  | nil (c : Cmd W) : Redirs c [] c
  | cons {c c' : Cmd W} {s : UInt8} {mode fd : ℕ} {w : W} {ts : List (Tok W)}
      (opening : opens s = some (mode, fd)) (rest : Redirs (.redir c w mode fd) ts c') :
      Redirs c (.sym s :: .word w :: ts) c'

/-- Words, each followed by redirections, after `argc` words. -/
inductive Words : ℕ → Cmd W → List (Tok W) → Cmd W → Prop
  | nil (argc : ℕ) (c : Cmd W) : Words argc c [] c
  | cons {argc : ℕ} {c c1 c' : Cmd W} {w : W} {ts ts' : List (Tok W)} (room : argc + 1 < MAXARGS)
      (redirs : Redirs (c.addArg w) ts c1) (rest : Words (argc + 1) c1 ts' c') :
      Words argc c (.word w :: (ts ++ ts')) c'

/-- What follows a pipe in its line: `n` times `&`. -/
def amps (n : ℕ) : List (Tok W) := List.replicate n (.sym AMP)

/-- A command with `n` times `&` after it. -/
def backs : ℕ → Cmd W → Cmd W
  | 0, c => c
  | n + 1, c => backs n (.back c)

inductive Kind
  | line
  | pipe
  | exec

/-- What the tokens make up. -/
inductive Derives : Kind → List (Tok W) → Cmd W → Prop
  | last {ts : List (Tok W)} {c : Cmd W} (n : ℕ) (first : Derives .pipe ts c) :
      Derives .line (ts ++ amps n) (backs n c)
  | list {ts ts' : List (Tok W)} {c c' : Cmd W} (n : ℕ) (first : Derives .pipe ts c)
      (rest : Derives .line ts' c') :
      Derives .line (ts ++ amps n ++ .sym SEMI :: ts') (.list (backs n c) c')
  | one {ts : List (Tok W)} {c : Cmd W} (only : Derives .exec ts c) : Derives .pipe ts c
  | pipe {ts ts' : List (Tok W)} {c c' : Cmd W} (first : Derives .exec ts c)
      (rest : Derives .pipe ts' c') : Derives .pipe (ts ++ .sym BAR :: ts') (.pipe c c')
  | block {ts ts' : List (Tok W)} {c c' : Cmd W} (line : Derives .line ts c)
      (redirs : Redirs c ts' c') : Derives .exec (.sym LPAREN :: (ts ++ .sym RPAREN :: ts')) c'
  | exec {ts ts' : List (Tok W)} {c c' : Cmd W} (redirs : Redirs (.exec []) ts c)
      (words : Words 0 c ts' c') : Derives .exec (ts ++ ts') c'

/-! ### Words of a command -/

variable {V : Type} {f : V → W} {ok : W → Prop} {c c' : Cmd W} {ts ts' : List (Tok W)}
  {kind : Kind}

/-- The words in a list of tokens. -/
def spelt (ts : List (Tok W)) : List W := ts.filterMap Tok.word?

lemma spelt_append (ts ts' : List (Tok W)) : spelt (ts ++ ts') = spelt ts ++ spelt ts' :=
  List.filterMap_append

lemma spelt_sym (c : UInt8) (ts : List (Tok W)) : spelt (.sym c :: ts) = spelt ts := rfl

lemma spelt_word (w : W) (ts : List (Tok W)) : spelt (.word w :: ts) = w :: spelt ts := rfl

lemma spelt_amps (n : ℕ) : spelt (amps n : List (Tok W)) = [] := by
  induction n with
  | zero => rfl
  | succ n ih => exact ih

lemma words_backs (n : ℕ) (c : Cmd W) : (backs n c).words = c.words := by
  induction n generalizing c with
  | zero => rfl
  | succ n ih => exact ih _

/-- A command with room for one more argument below its redirections. -/
inductive Base : ℕ → Cmd W → Prop
  | exec (argv : List W) : Base argv.length (.exec argv)
  | redir {n : ℕ} {c : Cmd W} (below : Base n c) (w : W) (mode fd : ℕ) : Base n (.redir c w mode fd)

lemma Base.addArg {n : ℕ} (h : Base n c) (w : W) : Base (n + 1) (c.addArg w) := by
  induction h with
  | exec argv =>
    have hl : (argv ++ [w]).length = argv.length + 1 := by rw [List.length_append]; rfl
    exact hl ▸ .exec (argv ++ [w])
  | redir below v mode fd ih => exact .redir ih v mode fd

lemma Base.words {n : ℕ} (h : Base n c) (w : W) : (c.addArg w).words.Perm (w :: c.words) := by
  induction h with
  | exec argv => exact List.perm_append_singleton w argv
  | redir below v mode fd ih => exact ih.append_right [v]

lemma Redirs.base {n : ℕ} (h : Redirs c ts c') (hb : Base n c) : Base n c' := by
  induction h with
  | nil => exact hb
  | cons opening rest ih => exact ih (hb.redir _ _ _)

lemma Redirs.words (h : Redirs c ts c') : c'.words.Perm (c.words ++ spelt ts) := by
  induction h with
  | nil => rw [spelt, List.filterMap_nil, List.append_nil]
  | @cons c c' s mode fd w ts opening rest ih =>
    rw [spelt_sym, spelt_word, ← List.singleton_append, ← List.append_assoc]
    exact ih

lemma Words.words {n : ℕ} (h : Words n c ts c') (hb : Base n c) :
    c'.words.Perm (c.words ++ spelt ts) := by
  induction h with
  | nil => rw [spelt, List.filterMap_nil, List.append_nil]
  | @cons argc c c1 c' w ts ts' room redirs rest ih =>
    have hc := (hb.addArg w)
    have h1 := (ih (redirs.base hc)).trans (redirs.words.append_right _)
    rw [spelt_word, spelt_append]
    refine h1.trans ?_
    rw [List.append_assoc]
    exact ((hb.words w).append_right _).trans List.perm_middle.symm

/-- **Every word of the line is in the command, once**. -/
theorem Derives.words (h : Derives kind ts c) : c.words.Perm (spelt ts) := by
  induction h with
  | last n first ih => rwa [words_backs, spelt_append, spelt_amps, List.append_nil]
  | list n first rest ihp ihl =>
    rw [Cmd.words, words_backs, spelt_append, spelt_append, spelt_amps, List.append_nil, spelt_sym]
    exact ihp.append ihl
  | one only ih => exact ih
  | pipe first rest ihe ihp =>
    rw [Cmd.words, spelt_append, spelt_sym]
    exact ihe.append ihp
  | block line redirs ih =>
    rw [spelt_sym, spelt_append, spelt_sym]
    exact redirs.words.trans (ih.append_right _)
  | exec redirs words =>
    rw [spelt_append]
    exact (words.words (redirs.base (.exec []))).trans (redirs.words.append_right _)

/-! ### Proper commands -/

/-- A command that there can be a line for. -/
def Proper (ok : W → Prop) : Cmd W → Prop
  | .exec argv => argv.length < MAXARGS ∧ ∀ w ∈ argv, ok w
  | .redir cmd file mode fd => Proper ok cmd ∧ ok file ∧ ∃ s, opens s = some (mode, fd)
  | .pipe left right => Proper ok left ∧ Proper ok right
  | .list left right => Proper ok left ∧ Proper ok right
  | .back cmd => Proper ok cmd

lemma Proper.backs (h : Proper ok c) (n : ℕ) : Proper ok (backs n c) := by
  induction n generalizing c with
  | zero => exact h
  | succ n ih => exact ih h

lemma Proper.addArg {n : ℕ} {w : W} (h : Proper ok c) (hb : Base n c) (room : n + 1 < MAXARGS)
    (hw : ok w) : Proper ok (c.addArg w) := by
  induction hb with
  | exec argv =>
    refine ⟨?_, fun v hv => ?_⟩
    · rw [List.length_append]
      exact room
    · obtain hv | hv := List.mem_append.mp hv
      · exact h.2 v hv
      · exact List.mem_singleton.mp hv ▸ hw
  | redir below v mode fd ih => exact ⟨ih h.1 room, h.2⟩

lemma Redirs.proper (h : Redirs c ts c') (hc : Proper ok c) (hts : ∀ w ∈ spelt ts, ok w) :
    Proper ok c' := by
  induction h with
  | nil => exact hc
  | cons opening rest ih =>
    rw [spelt_sym, spelt_word, List.forall_mem_cons] at hts
    exact ih ⟨hc, hts.1, _, opening⟩ hts.2

lemma Words.proper {n : ℕ} (h : Words n c ts c') (hb : Base n c) (hc : Proper ok c)
    (hts : ∀ w ∈ spelt ts, ok w) : Proper ok c' := by
  induction h with
  | nil => exact hc
  | @cons argc c c1 c' w ts ts' room redirs rest ih =>
    rw [spelt_word, spelt_append, List.forall_mem_cons, List.forall_mem_append] at hts
    have h1 := hc.addArg hb room hts.1
    exact ih (redirs.base (hb.addArg w)) (redirs.proper h1 hts.2.1) hts.2.2

lemma Derives.proper (h : Derives kind ts c) (hts : ∀ w ∈ spelt ts, ok w) : Proper ok c := by
  induction h with
  | last n first ih =>
    rw [spelt_append, List.forall_mem_append] at hts
    exact (ih hts.1).backs n
  | list n first rest ihp ihl =>
    rw [spelt_append, spelt_append, List.forall_mem_append, List.forall_mem_append, spelt_sym] at hts
    exact ⟨(ihp hts.1.1).backs n, ihl hts.2⟩
  | one only ih => exact ih hts
  | pipe first rest ihe ihp =>
    rw [spelt_append, List.forall_mem_append, spelt_sym] at hts
    exact ⟨ihe hts.1, ihp hts.2⟩
  | block line redirs ih =>
    rw [spelt_sym, spelt_append, List.forall_mem_append, spelt_sym] at hts
    exact redirs.proper (ih hts.1) hts.2
  | exec redirs words =>
    rw [spelt_append, List.forall_mem_append] at hts
    have h0 : Proper ok (.exec []) := ⟨Nat.zero_lt_succ 9, fun w hw => nomatch hw⟩
    exact words.proper (redirs.base (.exec [])) (redirs.proper h0 hts.1) hts.2

/-! ### Words of another type -/

lemma map_sym {k : Tok V} {s : UInt8} (h : k.map f = .sym s) : k = .sym s := by
  cases k with
  | sym c => exact congrArg Tok.sym (Tok.sym.inj h)
  | word v => cases h

lemma map_word {k : Tok V} {w : W} (h : k.map f = .word w) : ∃ v, k = .word v ∧ f v = w := by
  cases k with
  | sym c => cases h
  | word v => exact ⟨v, rfl, Tok.word.inj h⟩

lemma addArg_map (c : Cmd V) (v : V) : (c.addArg v).map f = (c.map f).addArg (f v) := by
  induction c with
  | exec argv => exact congrArg Cmd.exec List.map_append
  | redir cmd file mode fd ih => exact congrArg (Cmd.redir · (f file) mode fd) ih
  | pipe left right => rfl
  | list left right => rfl
  | back cmd => rfl

lemma backs_map (n : ℕ) (c : Cmd V) : (backs n c).map f = backs n (c.map f) := by
  induction n generalizing c with
  | zero => rfl
  | succ n ih => exact ih _

lemma amps_map {n : ℕ} {ts : List (Tok V)} (h : ts.map (Tok.map f) = amps n) : ts = amps n := by
  induction n generalizing ts with
  | zero => exact List.map_eq_nil_iff.mp h
  | succ n ih =>
    obtain ⟨k, ts', rfl, hk, hts⟩ := List.map_eq_cons_iff.mp h
    rw [map_sym hk, ih hts]
    rfl

lemma Redirs.lift {us : List (Tok V)} {b : Cmd V} (h : Redirs c ts c') (hc : b.map f = c)
    (hts : us.map (Tok.map f) = ts) : ∃ b', Redirs b us b' ∧ b'.map f = c' := by
  induction h generalizing b us with
  | nil c =>
    rw [List.map_eq_nil_iff.mp hts]
    exact ⟨b, .nil b, hc⟩
  | cons opening rest ih =>
    obtain ⟨k, us1, rfl, hk, hus⟩ := List.map_eq_cons_iff.mp hts
    obtain ⟨k', us2, rfl, hk', hus'⟩ := List.map_eq_cons_iff.mp hus
    obtain ⟨v, rfl, rfl⟩ := map_word hk'
    rw [map_sym hk]
    obtain ⟨b', hb, hmap⟩ := ih (b := .redir b v _ _) (congrArg (Cmd.redir · (f v) _ _) hc) hus'
    exact ⟨b', .cons opening hb, hmap⟩

lemma Words.lift {n : ℕ} {us : List (Tok V)} {b : Cmd V} (h : Words n c ts c') (hc : b.map f = c)
    (hts : us.map (Tok.map f) = ts) : ∃ b', Words n b us b' ∧ b'.map f = c' := by
  induction h generalizing b us with
  | nil argc c =>
    rw [List.map_eq_nil_iff.mp hts]
    exact ⟨b, .nil argc b, hc⟩
  | cons room redirs rest ih =>
    obtain ⟨k, us1, rfl, hk, hus⟩ := List.map_eq_cons_iff.mp hts
    obtain ⟨us2, us3, rfl, h2, h3⟩ := List.map_eq_append_iff.mp hus
    obtain ⟨v, rfl, rfl⟩ := map_word hk
    obtain ⟨b1, hb1, hmap1⟩ := redirs.lift (b := b.addArg v) (by rw [addArg_map, hc]) h2
    obtain ⟨b2, hb2, hmap2⟩ := ih hmap1 h3
    exact ⟨b2, .cons room hb1 hb2, hmap2⟩

/-- What a line makes up does not depend on its words. -/
lemma Derives.lift {us : List (Tok V)} (h : Derives kind ts c) (hts : us.map (Tok.map f) = ts) :
    ∃ b, Derives kind us b ∧ b.map f = c := by
  induction h generalizing us with
  | last n first ih =>
    obtain ⟨us1, us2, rfl, h1, h2⟩ := List.map_eq_append_iff.mp hts
    obtain ⟨b, hb, rfl⟩ := ih h1
    rw [amps_map h2]
    exact ⟨_, .last n hb, backs_map n b⟩
  | list n first rest ihp ihl =>
    obtain ⟨us1, us2, rfl, h1, h2⟩ := List.map_eq_append_iff.mp hts
    obtain ⟨us3, us4, rfl, h3, h4⟩ := List.map_eq_append_iff.mp h1
    obtain ⟨k, us5, rfl, hk, h5⟩ := List.map_eq_cons_iff.mp h2
    obtain ⟨b, hb, rfl⟩ := ihp h3
    obtain ⟨b', hb', rfl⟩ := ihl h5
    rw [map_sym hk, amps_map h4]
    exact ⟨_, .list n hb hb', congrArg (Cmd.list · (b'.map f)) (backs_map n b)⟩
  | one only ih =>
    obtain ⟨b, hb, hmap⟩ := ih hts
    exact ⟨b, .one hb, hmap⟩
  | pipe first rest ihe ihp =>
    obtain ⟨us1, us2, rfl, h1, h2⟩ := List.map_eq_append_iff.mp hts
    obtain ⟨k, us3, rfl, hk, h3⟩ := List.map_eq_cons_iff.mp h2
    obtain ⟨b, hb, rfl⟩ := ihe h1
    obtain ⟨b', hb', rfl⟩ := ihp h3
    rw [map_sym hk]
    exact ⟨_, .pipe hb hb', rfl⟩
  | block line redirs ih =>
    obtain ⟨k, us1, rfl, hk, h1⟩ := List.map_eq_cons_iff.mp hts
    obtain ⟨us2, us3, rfl, h2, h3⟩ := List.map_eq_append_iff.mp h1
    obtain ⟨k', us4, rfl, hk', h4⟩ := List.map_eq_cons_iff.mp h3
    obtain ⟨b, hb, hmap⟩ := ih h2
    obtain ⟨b', hb', hmap'⟩ := redirs.lift hmap h4
    rw [map_sym hk, map_sym hk']
    exact ⟨b', .block hb hb', hmap'⟩
  | exec redirs words =>
    obtain ⟨us1, us2, rfl, h1, h2⟩ := List.map_eq_append_iff.mp hts
    obtain ⟨b, hb, hmap⟩ := redirs.lift (b := .exec []) rfl h1
    obtain ⟨b', hb', hmap'⟩ := words.lift hmap h2
    exact ⟨b', .exec hb hb', hmap'⟩

/-! ### A line for a command -/

/-- The token that opens a file so. -/
def opener (mode fd : ℕ) : UInt8 :=
  if (mode, fd) = (O_RDONLY, 0) then LESS
  else if (mode, fd) = (O_WRONLY ||| O_CREATE, 1) then APPEND
  else GREATER

/-- A line, with each part in parentheses. -/
def Cmd.line : Cmd W → List (Tok W)
  | .exec argv => argv.map Tok.word
  | .redir cmd file mode fd =>
    .sym LPAREN :: (cmd.line ++ [.sym RPAREN, .sym (opener mode fd), .word file])
  | .pipe left right =>
    .sym LPAREN :: (left.line ++ .sym RPAREN :: .sym BAR :: .sym LPAREN ::
      (right.line ++ [.sym RPAREN]))
  | .list left right =>
    .sym LPAREN :: (left.line ++ .sym RPAREN :: .sym SEMI :: .sym LPAREN ::
      (right.line ++ [.sym RPAREN]))
  | .back cmd => .sym LPAREN :: (cmd.line ++ [.sym RPAREN, .sym AMP])

lemma opener_opens {mode fd : ℕ} {s : UInt8} (h : opens s = some (mode, fd)) :
    opens (opener mode fd) = some (mode, fd) := by
  unfold opens at h
  split_ifs at h
  all_goals
    cases h
    decide

/-- A line of one command in parentheses. -/
lemma derives_block (h : Derives .line ts c) :
    Derives .exec (.sym LPAREN :: (ts ++ [.sym RPAREN])) c := .block h (.nil c)

lemma derives_line (h : Derives .exec ts c) : Derives .line ts c := by
  have h0 := Derives.last 0 (.one h)
  rwa [amps, List.replicate_zero, List.append_nil] at h0

lemma words_argv (argv pre : List W) (h : pre.length + argv.length < MAXARGS) :
    Words pre.length (.exec pre) (argv.map Tok.word) (.exec (pre ++ argv)) := by
  induction argv generalizing pre with
  | nil =>
    rw [List.append_nil]
    exact .nil _ _
  | cons w argv ih =>
    have hl : (pre ++ [w]).length = pre.length + 1 := by rw [List.length_append]; rfl
    rw [List.length_cons] at h
    have hw := ih (pre ++ [w]) (by omega)
    rw [hl, List.append_assoc, List.singleton_append] at hw
    have h0 : Redirs ((Cmd.exec pre).addArg w) [] (.exec (pre ++ [w])) := .nil _
    exact .cons (by omega) h0 hw

/-- There is a line for each proper command. -/
lemma line_derives (h : Proper ok c) : Derives .line c.line c := by
  induction c with
  | exec argv =>
    have hw := words_argv argv [] (by rw [List.length_nil, Nat.zero_add]; exact h.1)
    have h0 : Redirs (.exec ([] : List W)) [] (.exec []) := .nil _
    exact derives_line (.exec h0 hw)
  | redir cmd file mode fd ih =>
    obtain ⟨s, hs⟩ := h.2.2
    exact derives_line (.block (ih h.1) (.cons (opener_opens hs) (.nil _)))
  | pipe left right ihl ihr =>
    have hp := Derives.pipe (derives_block (ihl h.1)) (.one (derives_block (ihr h.2)))
    have h0 := Derives.last 0 hp
    rw [amps, List.replicate_zero, List.append_nil, List.cons_append, List.append_assoc] at h0
    exact h0
  | list left right ihl ihr =>
    have h0 := Derives.list 0 (.one (derives_block (ihl h.1)))
      (derives_line (derives_block (ihr h.2)))
    rw [amps, List.replicate_zero, List.append_nil, List.cons_append, List.append_assoc] at h0
    exact h0
  | back cmd ih =>
    have h0 := Derives.last 1 (.one (derives_block (ih h)))
    rw [List.cons_append, List.append_assoc] at h0
    exact h0

end Xv6.User.Grammar
