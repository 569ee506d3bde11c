import Mathlib.Data.List.TakeWhile
import Xv6.Lib.Printint

/-!
`printf` of the kernel and `vprintf` of the user library (`printf.c` of both): one loop with nested
lookahead, one machine with two states.
-/

namespace Xv6.Lib.Printf

open Xv6.Lib.Printint

/-! ### The programs -/

/-- A variable argument. A string is given by its bytes up to the NUL, none for a null pointer. -/
inductive Arg
  | int (v : Int32)
  | uint32 (v : UInt32)
  | uint64 (v : UInt64)
  | str (s : Option (List UInt8))
  deriving DecidableEq

/-! `va_arg(ap, T)`: the argument and those after it. There is nothing to be had where the next
argument is of another type. -/

def vaInt : List Arg → Option (Int32 × List Arg)
  | .int v :: ap => some (v, ap)
  | _ => none

def vaUint32 : List Arg → Option (UInt32 × List Arg)
  | .uint32 v :: ap => some (v, ap)
  | _ => none

def vaUint64 : List Arg → Option (UInt64 × List Arg)
  | .uint64 v :: ap => some (v, ap)
  | _ => none

def vaStr : List Arg → Option (Option (List UInt8) × List Arg)
  | .str s :: ap => some (s, ap)
  | _ => none

/-- What the two have for printing. -/
structure Port where
  putc : UInt32 → List UInt8
  printint : Int64 → Int32 → Bool → Option (List UInt8)
  printptr : UInt64 → List UInt8

/-- `for(; *s; s++) putc(*s);` -/
def Port.puts (P : Port) : List UInt8 → List UInt8
  | [] => []
  | c :: s => if c = 0 then [] else P.putc c.toUInt32 ++ P.puts s

/-- `printint(va_arg(ap, int), base, 1)` and its like, with what is skipped of the format. -/
def Port.number (P : Port) (xx : Int64) (base : Int32) (sign : Bool) (ap : List Arg) (skip : ℕ) :
    Option (List UInt8 × List Arg × ℕ) := do
  let out ← P.printint xx base sign
  return (out, ap, skip)

/-- What follows a `%`: the bytes printed, the arguments left, and how much is added to `i`. -/
def Port.convert (P : Port) (c0 c1 c2 : UInt8) (ap : List Arg) :
    Option (List UInt8 × List Arg × ℕ) :=
  if c0 = 'd'.toUInt8 then do
    let (v, ap) ← vaInt ap
    P.number v.toInt64 10 true ap 0
  else if c0 = 'l'.toUInt8 ∧ c1 = 'd'.toUInt8 then do
    let (v, ap) ← vaUint64 ap
    P.number v.toInt64 10 true ap 1
  else if c0 = 'l'.toUInt8 ∧ c1 = 'l'.toUInt8 ∧ c2 = 'd'.toUInt8 then do
    let (v, ap) ← vaUint64 ap
    P.number v.toInt64 10 true ap 2
  else if c0 = 'u'.toUInt8 then do
    let (v, ap) ← vaUint32 ap
    P.number v.toUInt64.toInt64 10 false ap 0
  else if c0 = 'l'.toUInt8 ∧ c1 = 'u'.toUInt8 then do
    let (v, ap) ← vaUint64 ap
    P.number v.toInt64 10 false ap 1
  else if c0 = 'l'.toUInt8 ∧ c1 = 'l'.toUInt8 ∧ c2 = 'u'.toUInt8 then do
    let (v, ap) ← vaUint64 ap
    P.number v.toInt64 10 false ap 2
  else if c0 = 'x'.toUInt8 then do
    let (v, ap) ← vaUint32 ap
    P.number v.toUInt64.toInt64 16 false ap 0
  else if c0 = 'l'.toUInt8 ∧ c1 = 'x'.toUInt8 then do
    let (v, ap) ← vaUint64 ap
    P.number v.toInt64 16 false ap 1
  else if c0 = 'l'.toUInt8 ∧ c1 = 'l'.toUInt8 ∧ c2 = 'x'.toUInt8 then do
    let (v, ap) ← vaUint64 ap
    P.number v.toInt64 16 false ap 2
  else if c0 = 'p'.toUInt8 then do
    let (v, ap) ← vaUint64 ap
    return (P.printptr v, ap, 0)
  else if c0 = 'c'.toUInt8 then do
    let (v, ap) ← vaUint32 ap
    return (P.putc v, ap, 0)
  else if c0 = 's'.toUInt8 then do
    let (s, ap) ← vaStr ap
    return (P.puts (s.getD (chars "(null)")), ap, 0)
  else if c0 = '%'.toUInt8 then
    some (P.putc 37, ap, 0)
  else
    some (P.putc 37 ++ P.putc c0.toUInt32, ap, 0)

variable (fmt : List UInt8)

/-- `fmt[i]`; the string is followed by its NUL. -/
def fetch (i : ℕ) : UInt8 := fmt.getD i 0

variable {fmt} in
lemma lt_of_fetch {i : ℕ} (h : fetch fmt i ≠ 0) : i < fmt.length := by
  by_contra hle
  exact h (by simp [fetch, List.getElem?_eq_none (Nat.le_of_not_lt hle)])

/-- Prints before what is printed next. -/
def andThen (out : List UInt8) : Option (List UInt8 × List Arg) → Option (List UInt8 × List Arg) :=
  Option.map fun r => (out ++ r.1, r.2)

namespace Kernel

/-- `consputc` with `uartputc_sync`, which writes a byte. -/
def consputc (c : UInt32) : List UInt8 := if c = 0x100 then chars "\x08 \x08" else [c.toUInt8]

def port : Port := ⟨consputc, Kernel.printint, Kernel.printptr⟩

/-- `printf` from `fmt[i]` on: what is printed, and the arguments left. -/
def printf (i : ℕ) (ap : List Arg) : Option (List UInt8 × List Arg) :=
  if h : fetch fmt i = 0 then some ([], ap)
  else
    have := lt_of_fetch h
    let cx := fetch fmt i
    if cx ≠ '%'.toUInt8 then andThen (consputc cx.toUInt32) (printf (i + 1) ap)
    else
      let c0 := fetch fmt (i + 1)
      let c1 := if c0 ≠ 0 then fetch fmt (i + 1 + 1) else 0
      let c2 := if c1 ≠ 0 then fetch fmt (i + 1 + 2) else 0
      -- no conversion is spelt with a NUL, so this test may be made first
      if c0 = 0 then some ([], ap)
      else
        match port.convert c0 c1 c2 ap with
        | none => none
        | some (out, ap, skip) => andThen out (printf (i + 1 + skip + 1) ap)
termination_by fmt.length - i

end Kernel

namespace User

def putc (c : UInt32) : List UInt8 := [c.toUInt8]

def port : Port := ⟨putc, User.printint, User.printptr⟩

/-- `vprintf` from `fmt[i]` on. -/
def vprintf (i : ℕ) (state : UInt8) (ap : List Arg) : Option (List UInt8 × List Arg) :=
  if h : fetch fmt i = 0 then some ([], ap)
  else
    have := lt_of_fetch h
    let c0 := fetch fmt i
    if state = 0 then
      if c0 = '%'.toUInt8 then vprintf (i + 1) '%'.toUInt8 ap
      else andThen (putc c0.toUInt32) (vprintf (i + 1) 0 ap)
    else if state = '%'.toUInt8 then
      let c1 := if c0 ≠ 0 then fetch fmt (i + 1) else 0
      let c2 := if c1 ≠ 0 then fetch fmt (i + 2) else 0
      match port.convert c0 c1 c2 ap with
      | none => none
      | some (out, ap, skip) => andThen out (vprintf (i + skip + 1) 0 ap)
    else vprintf (i + 1) state ap
termination_by fmt.length - i

end User

/-! ### Formats -/

/-- A conversion, with the width of its argument where there are two. -/
inductive Conv
  | d (long : Bool)
  | u (long : Bool)
  | x (long : Bool)
  | p
  | c
  | s
  deriving DecidableEq

/-- A piece of a format: a byte that is printed as it is, or a conversion. -/
inductive Piece
  | byte (c : UInt8)
  | conv (k : Conv)
  deriving DecidableEq

/-- The conversion that follows a `%`, and how many bytes more than one it takes. -/
def lookup (c0 c1 c2 : UInt8) : Option (Conv × ℕ) :=
  if c0 = 'd'.toUInt8 then some (.d false, 0)
  else if c0 = 'l'.toUInt8 ∧ c1 = 'd'.toUInt8 then some (.d true, 1)
  else if c0 = 'l'.toUInt8 ∧ c1 = 'l'.toUInt8 ∧ c2 = 'd'.toUInt8 then some (.d true, 2)
  else if c0 = 'u'.toUInt8 then some (.u false, 0)
  else if c0 = 'l'.toUInt8 ∧ c1 = 'u'.toUInt8 then some (.u true, 1)
  else if c0 = 'l'.toUInt8 ∧ c1 = 'l'.toUInt8 ∧ c2 = 'u'.toUInt8 then some (.u true, 2)
  else if c0 = 'x'.toUInt8 then some (.x false, 0)
  else if c0 = 'l'.toUInt8 ∧ c1 = 'x'.toUInt8 then some (.x true, 1)
  else if c0 = 'l'.toUInt8 ∧ c1 = 'l'.toUInt8 ∧ c2 = 'x'.toUInt8 then some (.x true, 2)
  else if c0 = 'p'.toUInt8 then some (.p, 0)
  else if c0 = 'c'.toUInt8 then some (.c, 0)
  else if c0 = 's'.toUInt8 then some (.s, 0)
  else none

/-- **The pieces of a format**, up to its NUL. A `%` at the end stands for nothing, and one before
anything that is no conversion for itself, where a second `%` is dropped. -/
def pieces : List UInt8 → List Piece
  | [] => []
  | c :: s =>
    if c = 0 then []
    else if c ≠ '%'.toUInt8 then .byte c :: pieces s
    else
      let c0 := s.getD 0 0
      if c0 = 0 then []
      else
        match lookup c0 (s.getD 1 0) (s.getD 2 0) with
        | some (k, skip) => .conv k :: pieces (s.drop (skip + 1))
        | none =>
          (if c0 = '%'.toUInt8 then [.byte c0] else [.byte '%'.toUInt8, .byte c0]) ++ pieces (s.drop 1)
termination_by s => s.length
decreasing_by
  all_goals simp only [List.length_cons, List.length_drop]
  all_goals omega

/-- The arguments that a conversion takes; `%c` is given a byte. -/
def Conv.Takes : Conv → Arg → Prop
  | .d false, .int _ | .u false, .uint32 _ | .x false, .uint32 _ => True
  | .d true, .uint64 _ | .u true, .uint64 _ | .x true, .uint64 _ | .p, .uint64 _ => True
  | .c, .uint32 v => v ≤ 255
  | .s, .str _ => True
  | _, _ => False

/-- The arguments begin with what the format consumes. -/
def Fits : List Piece → List Arg → Prop
  | [], _ => True
  | .byte _ :: ps, ap => Fits ps ap
  | .conv k :: ps, a :: ap => k.Takes a ∧ Fits ps ap
  | .conv _ :: _, [] => False

/-- The digits of a pointer. -/
def hex : ℕ → UInt64 → List Symbol
  | 0, _ => []
  | n + 1, x => .digit (x >>> 60).toNat :: hex n (x <<< 4)

def text (s : List UInt8) : List Symbol := (s.takeWhile (· ≠ 0)).map .byte

/-- What a conversion prints. -/
def Conv.output : Conv → Arg → List Symbol
  | .d _, .int v => numeral 10 v.toInt
  | .d _, .uint64 v => numeral 10 v.toInt64.toInt
  | .u _, .uint32 v => numeral 10 v.toNat
  | .u _, .uint64 v => numeral 10 v.toNat
  | .x _, .uint32 v => numeral 16 v.toNat
  | .x _, .uint64 v => numeral 16 v.toNat
  | .p, .uint64 v => text (chars "0x") ++ hex 16 v
  | .c, .uint32 v => [.byte v.toUInt8]
  | .s, .str str => text (str.getD (chars "(null)"))
  | _, _ => []

/-- **What a format prints**, and the arguments it leaves. -/
def render : List Piece → List Arg → List Symbol × List Arg
  | [], ap => ([], ap)
  | .byte c :: ps, ap => (.byte c :: (render ps ap).1, (render ps ap).2)
  | .conv k :: ps, a :: ap => (k.output a ++ (render ps ap).1, (render ps ap).2)
  | .conv _ :: ps, [] => render ps []

/-! ### One equation for both -/

/-- A round of `printf`, followed by `next`. -/
def round (P : Port) (next : ℕ → List Arg → Option (List UInt8 × List Arg)) (i : ℕ) (ap : List Arg) :
    Option (List UInt8 × List Arg) :=
  let cx := fetch fmt i
  let c0 := fetch fmt (i + 1)
  let c1 := if c0 ≠ 0 then fetch fmt (i + 1 + 1) else 0
  let c2 := if c1 ≠ 0 then fetch fmt (i + 1 + 2) else 0
  if cx = 0 then some ([], ap)
  else if cx ≠ '%'.toUInt8 then andThen (P.putc cx.toUInt32) (next (i + 1) ap)
  else if c0 = 0 then some ([], ap)
  else (P.convert c0 c1 c2 ap).bind fun r => andThen r.1 (next (i + 1 + r.2.2 + 1) r.2.1)

lemma Kernel.printf_round (i : ℕ) (ap : List Arg) :
    Kernel.printf fmt i ap = round fmt Kernel.port (Kernel.printf fmt) i ap := by
  rw [Kernel.printf]
  unfold round
  by_cases h : fetch fmt i = 0
  · simp [h]
  · simp only [h, dite_false, if_false]
    by_cases hc : fetch fmt i = '%'.toUInt8
    · rw [if_neg (not_not.mpr hc), if_neg (not_not.mpr hc)]
      by_cases h0 : fetch fmt (i + 1) = 0
      · simp [h0]
      · rw [if_neg h0, if_neg h0]
        cases Kernel.port.convert _ _ _ ap <;> rfl
    · rw [if_pos hc, if_pos hc]
      rfl

/-- The two states of `vprintf` make one round. -/
lemma User.vprintf_round (i : ℕ) (ap : List Arg) :
    User.vprintf fmt i 0 ap = round fmt User.port (fun j => User.vprintf fmt j 0) i ap := by
  rw [User.vprintf]
  unfold round
  have hpercent : '%'.toUInt8 ≠ 0 := by decide
  by_cases h : fetch fmt i = 0
  · simp [h]
  · simp only [h, dite_false, if_true, if_false]
    by_cases hc : fetch fmt i = '%'.toUInt8
    · rw [if_pos hc, if_neg (not_not.mpr hc), User.vprintf]
      by_cases h0 : fetch fmt (i + 1) = 0
      · simp [h0]
      · simp only [h0, hpercent, dite_false, if_true, if_false, ne_eq, not_false_eq_true]
        cases User.port.convert _ _ _ ap <;> rfl
    · rw [if_neg hc, if_pos hc]
      rfl

/-! ### Conversions -/

/-- A port that prints bytes, numerals and pointers, with glyphs of its own for the digits. -/
structure Prints (P : Port) (digits : List UInt8) : Prop where
  putc : ∀ c : UInt32, c ≤ 255 → P.putc c = [c.toUInt8]
  number : ∀ xx base sign, base = 10 ∨ base = 16 → P.printint xx base sign =
    some ((numeral base.toInt.toNat (value sign xx)).map (Symbol.glyph digits))
  pointer : ∀ x, P.printptr x = chars "0x" ++ nibbles digits 16 x

lemma Kernel.prints : Prints Kernel.port Kernel.digits := by
  refine ⟨fun c hc => ?_, fun xx base sign hb => (printint_numeral xx sign base hb).1, fun x => rfl⟩
  have hne : c ≠ 0x100 := by
    rintro rfl
    exact absurd hc (by decide)
  exact if_neg hne

lemma User.prints : Prints User.port User.digits :=
  ⟨fun _ _ => rfl, fun xx base sign hb => (printint_numeral xx sign base hb).2, fun _ => rfl⟩

variable {P : Port} {digits : List UInt8} {c0 c1 c2 : UInt8} {ap : List Arg} {k : Conv} {skip : ℕ}

/-- What `convert` does for a conversion. -/
def Port.perform (P : Port) (skip : ℕ) : Conv → List Arg → Option (List UInt8 × List Arg × ℕ)
  | .d false, .int v :: ap => P.number v.toInt64 10 true ap skip
  | .d true, .uint64 v :: ap => P.number v.toInt64 10 true ap skip
  | .u false, .uint32 v :: ap => P.number v.toUInt64.toInt64 10 false ap skip
  | .u true, .uint64 v :: ap => P.number v.toInt64 10 false ap skip
  | .x false, .uint32 v :: ap => P.number v.toUInt64.toInt64 16 false ap skip
  | .x true, .uint64 v :: ap => P.number v.toInt64 16 false ap skip
  | .p, .uint64 v :: ap => some (P.printptr v, ap, skip)
  | .c, .uint32 v :: ap => some (P.putc v, ap, skip)
  | .s, .str s :: ap => some (P.puts (s.getD (chars "(null)")), ap, skip)
  | _, _ => none

/-- What `convert` does with what it has found. -/
def Port.outcome (P : Port) (c0 : UInt8) (ap : List Arg) :
    Option (Conv × ℕ) → Option (List UInt8 × List Arg × ℕ)
  | some (k, skip) => P.perform skip k ap
  | none => some (P.putc 37 ++ (if c0 = '%'.toUInt8 then [] else P.putc c0.toUInt32), ap, 0)

lemma convert_eq : P.convert c0 c1 c2 ap = P.outcome c0 ap (lookup c0 c1 c2) := by
  unfold lookup Port.convert
  simp only [apply_ite (P.outcome c0 ap)]
  refine if_congr .rfl ?_ (if_congr .rfl ?_ (if_congr .rfl ?_ (if_congr .rfl ?_ (if_congr .rfl ?_
    (if_congr .rfl ?_ (if_congr .rfl ?_ (if_congr .rfl ?_ (if_congr .rfl ?_ (if_congr .rfl ?_
    (if_congr .rfl ?_ (if_congr .rfl ?_ ?_)))))))))))
  rotate_right
  · unfold Port.outcome
    split_ifs <;> simp
  all_goals
    rcases ap with _ | ⟨a, ap⟩
    · rfl
    · cases a <;> rfl

/-- A look behind a NUL finds no conversion. -/
lemma lookup_short : lookup c0 c1 (if c1 ≠ 0 then c2 else 0) = lookup c0 c1 c2 := by
  by_cases h : c1 = 0
  · subst h
    have hd : (0 : UInt8) ≠ 'd'.toUInt8 := by decide
    have hl : (0 : UInt8) ≠ 'l'.toUInt8 := by decide
    have hu : (0 : UInt8) ≠ 'u'.toUInt8 := by decide
    have hx : (0 : UInt8) ≠ 'x'.toUInt8 := by decide
    simp only [lookup, hd, hl, hu, hx, false_and, and_false]
  · rw [if_pos h]

lemma toUInt8_toUInt32 (c : UInt8) : c.toUInt32 ≤ 255 ∧ c.toUInt32.toUInt8 = c := by
  refine ⟨?_, UInt8.toUInt8_toUInt32 c⟩
  rw [UInt32.le_iff_toNat_le, UInt8.toNat_toUInt32]
  exact Nat.le_of_lt_succ c.toNat_lt

lemma Prints.byte (hP : Prints P digits) (c : UInt8) : P.putc c.toUInt32 = [c] := by
  rw [hP.putc _ (toUInt8_toUInt32 c).1, (toUInt8_toUInt32 c).2]

lemma Prints.puts (hP : Prints P digits) (s : List UInt8) :
    P.puts s = (text s).map (Symbol.glyph digits) := by
  induction s with
  | nil => rfl
  | cons c s ih =>
    rw [Port.puts, text]
    by_cases hc : c = 0
    · simp [hc]
    · rw [if_neg hc, hP.byte, ih, List.takeWhile_cons_of_pos (by simpa using hc)]
      rfl

lemma nibbles_eq (n : ℕ) (x : UInt64) : nibbles digits n x = (hex n x).map (Symbol.glyph digits) := by
  induction n generalizing x with
  | zero => rfl
  | succ n ih =>
    rw [nibbles, ih]
    rfl

lemma glyph_text (s : List UInt8) (h : ∀ c ∈ s, c ≠ 0) : (text s).map (Symbol.glyph digits) = s := by
  rw [text, List.takeWhile_eq_self_iff.mpr (by simpa using h), List.map_map]
  exact List.map_id s

lemma Prints.pointer_eq (hP : Prints P digits) (x : UInt64) :
    P.printptr x = (text (chars "0x") ++ hex 16 x).map (Symbol.glyph digits) := by
  have hchars : chars "0x" = [48, 120] := rfl
  rw [hP.pointer, List.map_append, nibbles_eq, glyph_text _ (by simp [hchars])]

lemma Prints.number_eq (hP : Prints P digits) {xx : Int64} {base : Int32} {sign : Bool}
    (hb : base = 10 ∨ base = 16) : P.number xx base sign ap skip =
      some ((numeral base.toInt.toNat (value sign xx)).map (Symbol.glyph digits), ap, skip) := by
  rw [Port.number, hP.number xx base sign hb]
  rfl

lemma value_long (v : UInt64) : value false v.toInt64 = v.toNat := by
  simp [value]

lemma value_uint32 (v : UInt32) : value false v.toUInt64.toInt64 = v.toNat := by
  simp [value]

/-- A conversion prints what it should. -/
lemma Prints.perform (hP : Prints P digits) {a : Arg} (ha : k.Takes a) :
    P.perform skip k (a :: ap) = some ((k.output a).map (Symbol.glyph digits), ap, skip) := by
  cases k with
  | d long =>
    cases long with
    | false =>
      cases a with
      | int v =>
        rw [Port.perform, hP.number_eq (.inl rfl), value, if_pos rfl, Int32.toInt_toInt64]
        rfl
      | _ => exact ha.elim
    | true =>
      cases a with
      | uint64 v =>
        rw [Port.perform, hP.number_eq (.inl rfl), value, if_pos rfl]
        rfl
      | _ => exact ha.elim
  | u long =>
    cases long with
    | false =>
      cases a with
      | uint32 v =>
        rw [Port.perform, hP.number_eq (.inl rfl), value_uint32]
        rfl
      | _ => exact ha.elim
    | true =>
      cases a with
      | uint64 v =>
        rw [Port.perform, hP.number_eq (.inl rfl), value_long]
        rfl
      | _ => exact ha.elim
  | x long =>
    cases long with
    | false =>
      cases a with
      | uint32 v =>
        rw [Port.perform, hP.number_eq (.inr rfl), value_uint32]
        rfl
      | _ => exact ha.elim
    | true =>
      cases a with
      | uint64 v =>
        rw [Port.perform, hP.number_eq (.inr rfl), value_long]
        rfl
      | _ => exact ha.elim
  | p =>
    cases a with
    | uint64 v =>
      rw [Port.perform, hP.pointer_eq]
      rfl
    | _ => exact ha.elim
  | c =>
    cases a with
    | uint32 v =>
      rw [Port.perform, hP.putc v ha]
      rfl
    | _ => exact ha.elim
  | s =>
    cases a with
    | str str =>
      rw [Port.perform, hP.puts]
      rfl
    | _ => exact ha.elim

/-! ### The loop -/

variable {F : ℕ → List Arg → Option (List UInt8 × List Arg)} {fmt : List UInt8} {i : ℕ}

lemma fetch_add (i j : ℕ) : fetch fmt (i + j) = (fmt.drop i).getD j 0 := by
  simp [fetch]

lemma pieces_nul (s : List UInt8) : pieces (0 :: s) = [] := by
  rw [pieces, if_pos rfl]

lemma pieces_byte {c : UInt8} {s : List UInt8} (h0 : c ≠ 0) (hc : c ≠ '%'.toUInt8) :
    pieces (c :: s) = .byte c :: pieces s := by
  rw [pieces, if_neg h0, if_pos hc]

lemma pieces_percent (s : List UInt8) : pieces ('%'.toUInt8 :: s) =
    if s.getD 0 0 = 0 then []
    else match lookup (s.getD 0 0) (s.getD 1 0) (s.getD 2 0) with
      | some (k, skip) => .conv k :: pieces (s.drop (skip + 1))
      | none => (if s.getD 0 0 = '%'.toUInt8 then [.byte (s.getD 0 0)]
          else [.byte '%'.toUInt8, .byte (s.getD 0 0)]) ++ pieces (s.drop 1) := by
  rw [pieces, if_neg (by decide), if_neg (not_not.mpr rfl)]

/-- A round at the end of the format. -/
lemma round_nul (h : fetch fmt i = 0) : round fmt P F i ap = some ([], ap) :=
  if_pos h

/-- A round at a byte that is printed as it is. -/
lemma round_byte (hP : Prints P digits) {c : UInt8} (h : fetch fmt i = c) (h0 : c ≠ 0)
    (hc : c ≠ '%'.toUInt8) : round fmt P F i ap = andThen [c] (F (i + 1) ap) := by
  rw [round, h, if_neg h0, if_pos hc, hP.byte]

/-- A round at a `%`. -/
lemma round_percent (h : fetch fmt i = '%'.toUInt8) : round fmt P F i ap =
    if fetch fmt (i + 1) = 0 then some ([], ap)
    else (P.outcome (fetch fmt (i + 1)) ap
      (lookup (fetch fmt (i + 1)) (fetch fmt (i + 2)) (fetch fmt (i + 3)))).bind
        fun r => andThen r.1 (F (i + 1 + r.2.2 + 1) r.2.1) := by
  have hpercent : '%'.toUInt8 ≠ 0 := by decide
  rw [round, h, if_neg hpercent, if_neg (not_not.mpr rfl)]
  by_cases h0 : fetch fmt (i + 1) = 0
  · rw [if_pos h0, if_pos h0]
  · have hne : fetch fmt (i + 1) ≠ 0 := h0
    rw [if_neg h0, if_neg h0, if_pos hne, convert_eq, lookup_short]

lemma andThen_some {out out' : List UInt8} {ap' : List Arg} :
    andThen out (some (out', ap')) = some (out ++ out', ap') := rfl

/-- **Whatever satisfies the equation prints what the format says.** -/
theorem render_of_round (hP : Prints P digits) (hF : ∀ i ap, F i ap = round fmt P F i ap) (i : ℕ)
    (ap : List Arg) (hfits : Fits (pieces (fmt.drop i)) ap) :
    F i ap = some ((render (pieces (fmt.drop i)) ap).1.map (Symbol.glyph digits),
      (render (pieces (fmt.drop i)) ap).2) := by
  induction hn : fmt.length - i using Nat.strong_induction_on generalizing i ap with
  | _ n ih =>
    have hcx : fetch fmt i = (fmt.drop i).getD 0 0 := fetch_add i 0
    have hdrop : ∀ j, (fmt.drop i).drop j = fmt.drop (i + j) := fun j => List.drop_drop ..
    rw [hF]
    rcases hs : fmt.drop i with _ | ⟨c, s⟩
    · rw [round_nul (by rw [hcx, hs]; rfl), pieces]
      rfl
    have hlen : i < fmt.length := by
      by_contra hle
      rw [List.drop_eq_nil_of_le (by omega)] at hs
      cases hs
    rw [hs] at hcx hfits
    change fetch fmt i = c at hcx
    have hafter : ∀ j, s.drop j = fmt.drop (i + 1 + j) := fun j => by
      rw [Nat.add_assoc, Nat.add_comm 1 j, ← hdrop, hs, List.drop_succ_cons]
    have hget : ∀ j, s.getD j 0 = fetch fmt (i + 1 + j) := fun j => by
      rw [Nat.add_assoc, Nat.add_comm 1 j, fetch_add, hs, List.getD_cons_succ]
    by_cases h0 : c = 0
    · subst h0
      rw [round_nul hcx, pieces_nul]
      rfl
    by_cases hc : c = '%'.toUInt8
    swap
    · have hnext : s = fmt.drop (i + 1) := hafter 0
      rw [pieces_byte h0 hc, hnext] at hfits ⊢
      rw [round_byte hP hcx h0 hc, ih _ (by omega) (i + 1) ap hfits rfl]
      rfl
    subst hc
    rw [pieces_percent, hget, hget, hget] at hfits ⊢
    rw [round_percent hcx]
    simp only [Nat.add_zero, Nat.add_assoc, Nat.reduceAdd] at hfits ⊢
    by_cases hc0 : fetch fmt (i + 1) = 0
    · rw [if_pos hc0, if_pos hc0]
      rfl
    rw [if_neg hc0] at hfits
    rw [if_neg hc0, if_neg hc0]
    cases hk : lookup (fetch fmt (i + 1)) (fetch fmt (i + 2)) (fetch fmt (i + 3)) with
    | none =>
      simp only [hk] at hfits ⊢
      have hbytes : Fits (pieces (fmt.drop (i + 2))) ap := by
        rw [← hafter 1]
        by_cases hp : fetch fmt (i + 1) = '%'.toUInt8
        · rw [if_pos hp] at hfits
          exact hfits
        · rw [if_neg hp] at hfits
          exact hfits
      have hrest := ih _ (by omega) (i + 2) ap hbytes rfl
      have hpercent : P.putc 37 = ['%'.toUInt8] := hP.byte 37
      rw [Port.outcome, Option.bind_some]
      change andThen (P.putc 37 ++ _) (F (i + 2) ap) = _
      rw [hrest, andThen_some, hpercent, ← hafter 1]
      by_cases hp : fetch fmt (i + 1) = '%'.toUInt8
      · rw [if_pos hp, if_pos hp, hp]
        rfl
      · rw [if_neg hp, if_neg hp, hP.byte]
        rfl
    | some r =>
      obtain ⟨k, skip⟩ := r
      simp only [hk] at hfits ⊢
      cases ap with
      | nil => exact hfits.elim
      | cons a ap =>
        obtain ⟨ha, hfits⟩ := hfits
        rw [hafter] at hfits ⊢
        have hrest := ih _ (by omega) (i + 1 + (skip + 1)) ap hfits rfl
        rw [Port.outcome, hP.perform ha, Option.bind_some]
        change andThen _ (F (i + (1 + (skip + 1))) ap) = some (((k.output a) ++ _).map _, _)
        rw [← Nat.add_assoc i 1, hrest, andThen_some, ← List.map_append]
        rfl

/-- **`printf` and `vprintf` agree**: on arguments that fit the format both consume the same ones,
and print the same, but for the glyphs of the digits. -/
theorem printf_agrees (fmt : List UInt8) (ap : List Arg) (h : Fits (pieces fmt) ap) :
    ∃ out rest, render (pieces fmt) ap = (out, rest) ∧
      Kernel.printf fmt 0 ap = some (out.map (Symbol.glyph Kernel.digits), rest) ∧
      User.vprintf fmt 0 0 ap = some (out.map (Symbol.glyph User.digits), rest) :=
  ⟨_, _, rfl, render_of_round Kernel.prints (Kernel.printf_round fmt) 0 ap h,
    render_of_round User.prints (User.vprintf_round fmt) 0 ap h⟩

/-- The format `%lx%c%`. -/
theorem printf_agrees_cut_off : ∃ out rest,
    render (pieces [37, 108, 120, 37, 99, 37]) [.uint64 171, .uint32 10] = (out, rest) ∧
    Kernel.printf [37, 108, 120, 37, 99, 37] 0 [.uint64 171, .uint32 10] =
      some (out.map (Symbol.glyph Kernel.digits), rest) ∧
    User.vprintf [37, 108, 120, 37, 99, 37] 0 0 [.uint64 171, .uint32 10] =
      some (out.map (Symbol.glyph User.digits), rest) := by
  have hlookup : lookup 108 120 37 = some (.x true, 1) ∧ lookup 99 37 0 = some (.c, 0) := by decide
  have hpieces : pieces [37, 108, 120, 37, 99, 37] = [.conv (.x true), .conv .c] := by
    change pieces ('%'.toUInt8 :: [108, 120, 37, 99, 37]) = _
    rw [pieces_percent]
    simp only [List.getD_cons_zero, List.getD_cons_succ, hlookup.1]
    change Piece.conv (.x true) :: pieces ('%'.toUInt8 :: [99, 37]) = _
    rw [pieces_percent]
    simp only [List.getD_cons_zero, List.getD_cons_succ, List.getD_nil, hlookup.2]
    change [Piece.conv (.x true), Piece.conv .c] ++ pieces ('%'.toUInt8 :: []) = _
    rw [pieces_percent]
    rfl
  refine printf_agrees _ _ ?_
  rw [hpieces]
  exact ⟨trivial, (by decide : (10 : UInt32) ≤ 255), trivial⟩

end Xv6.Lib.Printf
