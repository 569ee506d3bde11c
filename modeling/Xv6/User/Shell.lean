import Xv6.User.Grammar

/-!
The parser of the shell (`sh.c`). A pointer into the string that is parsed is what there is from it
up to the end, where the NUL is. `malloc` does not fail.
-/

namespace Xv6.User.Shell

open Xv6.User.Grammar

abbrev Ptr := List UInt8

/-- A word is between two pointers. -/
abbrev Span := Ptr × Ptr

def whitespace : List UInt8 := [0x20, 0x09, 0x0D, 0x0A, 0x0B]

def symbols : List UInt8 := [LESS, BAR, GREATER, AMP, SEMI, LPAREN, RPAREN]

/-- Where a parser gives up. -/
inductive Fault
  | rounds
  | panic (s : String)
  deriving DecidableEq

/-- Past whitespace. -/
def skip (s : Ptr) : Ptr := s.dropWhile fun c => decide (c ∈ whitespace)

/-- Past a word. -/
def past (s : Ptr) : Ptr := s.dropWhile fun c => decide (c ∉ whitespace ∧ c ∉ symbols)

/-- What `gettoken` returns and stores. -/
structure Token where
  ret : UInt8
  q : Ptr
  eq : Ptr
  ps : Ptr

/-- `ret` for a word. -/
def WORD : UInt8 := 0x61

def gettoken (s : Ptr) : Token :=
  match skip s with
  | [] => ⟨0, [], [], []⟩
  | c :: t =>
    if c = GREATER then
      if t.head? = some GREATER then ⟨APPEND, c :: t, t.tail, skip t.tail⟩ else ⟨GREATER, c :: t, t, skip t⟩
    else if c ∈ symbols then ⟨c, c :: t, t, skip t⟩
    else ⟨WORD, c :: t, past (c :: t), skip (past (c :: t))⟩

/-- `peek`, with what it leaves in `*ps`. -/
def peek (s : Ptr) (toks : List UInt8) : Bool × Ptr :=
  ((skip s).head?.any fun c => decide (c ∈ toks), skip s)

def parseredirs : ℕ → Cmd Span → Ptr → Except Fault (Cmd Span × Ptr)
  | 0, _, _ => .error .rounds
  | fuel + 1, cmd, s =>
    let p := peek s [LESS, GREATER]
    if p.1 then
      let tok := gettoken p.2
      let file := gettoken tok.ps
      if file.ret ≠ WORD then .error (.panic "missing file for redirection")
      else if tok.ret = LESS then
        parseredirs fuel (.redir cmd (file.q, file.eq) O_RDONLY 0) file.ps
      else if tok.ret = GREATER then
        parseredirs fuel (.redir cmd (file.q, file.eq) (O_WRONLY ||| O_CREATE ||| O_TRUNC) 1) file.ps
      else if tok.ret = APPEND then
        parseredirs fuel (.redir cmd (file.q, file.eq) (O_WRONLY ||| O_CREATE) 1) file.ps
      else parseredirs fuel cmd file.ps
    else .ok (cmd, p.2)

/-- The loop of `parseexec`. -/
def execLoop : ℕ → ℕ → Cmd Span → Ptr → Except Fault (Cmd Span × Ptr)
  | 0, _, _, _ => .error .rounds
  | fuel + 1, argc, ret, s =>
    let p := peek s [BAR, RPAREN, AMP, SEMI]
    if p.1 then .ok (ret, p.2)
    else
      let tok := gettoken p.2
      if tok.ret = 0 then .ok (ret, tok.ps)
      else if tok.ret ≠ WORD then .error (.panic "syntax")
      else if argc + 1 ≥ MAXARGS then .error (.panic "too many args")
      else do
        let r ← parseredirs fuel (ret.addArg (tok.q, tok.eq)) tok.ps
        execLoop fuel (argc + 1) r.1 r.2

/-- The loop of `parseline`. -/
def backLoop : ℕ → Cmd Span → Ptr → Except Fault (Cmd Span × Ptr)
  | 0, _, _ => .error .rounds
  | fuel + 1, cmd, s =>
    let p := peek s [AMP]
    if p.1 then backLoop fuel (.back cmd) (gettoken p.2).ps else .ok (cmd, p.2)

mutual

def parseline : ℕ → Ptr → Except Fault (Cmd Span × Ptr)
  | 0, _ => .error .rounds
  | fuel + 1, s => do
    let r ← parsepipe fuel s
    let r ← backLoop fuel r.1 r.2
    let p := peek r.2 [SEMI]
    if p.1 then do
      let l ← parseline fuel (gettoken p.2).ps
      pure (.list r.1 l.1, l.2)
    else pure (r.1, p.2)

def parsepipe : ℕ → Ptr → Except Fault (Cmd Span × Ptr)
  | 0, _ => .error .rounds
  | fuel + 1, s => do
    let r ← parseexec fuel s
    let p := peek r.2 [BAR]
    if p.1 then do
      let l ← parsepipe fuel (gettoken p.2).ps
      pure (.pipe r.1 l.1, l.2)
    else pure (r.1, p.2)

def parseblock : ℕ → Ptr → Except Fault (Cmd Span × Ptr)
  | 0, _ => .error .rounds
  | fuel + 1, s =>
    let p := peek s [LPAREN]
    if p.1 then do
      let r ← parseline fuel (gettoken p.2).ps
      let p := peek r.2 [RPAREN]
      if p.1 then parseredirs fuel r.1 (gettoken p.2).ps
      else .error (.panic "syntax - missing )")
    else .error (.panic "parseblock")

def parseexec : ℕ → Ptr → Except Fault (Cmd Span × Ptr)
  | 0, _ => .error .rounds
  | fuel + 1, s =>
    let p := peek s [LPAREN]
    if p.1 then parseblock fuel p.2
    else do
      let r ← parseredirs fuel (.exec []) p.2
      execLoop fuel 0 r.1 r.2

end

/-- As many calls within calls, and rounds, as a string of its length leads to. -/
def rounds (s : Ptr) : ℕ := 4 * s.length + 8

/-- A string in memory, without its NUL. -/
structure Str where
  bytes : List UInt8
  chars : 0 ∉ bytes

def Str.mem (s : Str) : List UInt8 := s.bytes ++ [0]

/-- Where a pointer points to. -/
def Str.offset (s : Str) (p : Ptr) : ℕ := s.bytes.length - p.length

/-- The memory after `nulterminate`. -/
def nulterminate (s : Str) : Cmd Span → List UInt8 → List UInt8
  | .exec argv, mem => argv.foldl (fun mem w => mem.set (s.offset w.2) 0) mem
  | .redir cmd file _ _, mem => (nulterminate s cmd mem).set (s.offset file.2) 0
  | .pipe left right, mem => nulterminate s right (nulterminate s left mem)
  | .list left right, mem => nulterminate s right (nulterminate s left mem)
  | .back cmd, mem => nulterminate s cmd mem

/-- The command, and the memory that its words are in. -/
def parsecmd (s : Str) : Except Fault (Cmd Span × List UInt8) := do
  let r ← parseline (rounds s.bytes) s.bytes
  let p := peek r.2 []
  if p.2 ≠ [] then .error (.panic "syntax") else pure (r.1, nulterminate s r.1 s.mem)

end Xv6.User.Shell
