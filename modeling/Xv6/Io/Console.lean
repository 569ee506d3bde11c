import Xv6.Data.Ring
import Xv6.Ipc.Waits

/-!
The line discipline of the console (`console.c`). `consoleintr` runs under `cons.lock`, and so does
`consoleread` from its call, or the return of its `sleep`, to the next `sleep` or its end: such a
section is one step here.
-/

namespace Xv6.Io.Console

open Xv6.Data.Ring (index index_ne)
open Xv6.Ipc.Pipes (Byte)
open Xv6.Ipc.Waits (Cons place INPUT_BUF_SIZE ctrlD ctrlU ctrlP ctrlH del)

/-! ### `consoleintr` -/

lemma sub_one_lt {e w : BitVec 32} (h : e ≠ w) : (e - 1 - w).toNat < (e - w).toNat := by
  have hne : e.toNat ≠ w.toNat := fun h' => h (BitVec.eq_of_toNat_eq h')
  have he := e.isLt
  have hw := w.isLt
  rw [BitVec.toNat_sub, BitVec.toNat_sub, BitVec.toNat_sub]
  change (2 ^ 32 - w.toNat + (2 ^ 32 - 1 + e.toNat) % 2 ^ 32) % 2 ^ 32 <
    (2 ^ 32 - w.toNat + e.toNat) % 2 ^ 32
  omega

def killLine (cons : Cons) : Cons :=
  if h : cons.e ≠ cons.w ∧ cons.buf (place (cons.e - 1)) ≠ 10 then
    have := sub_one_lt h.1
    killLine { cons with e := cons.e - 1 }
  else cons
termination_by (cons.e - cons.w).toNat
decreasing_by exact this

def backspace (cons : Cons) : Cons :=
  if cons.e ≠ cons.w then { cons with e := cons.e - 1 } else cons

def typed (ch : Byte) (cons : Cons) : Cons :=
  if ch ≠ 0 ∧ cons.e - cons.r < BitVec.ofNat 32 INPUT_BUF_SIZE then
    let c : Byte := if ch = 13 then 10 else ch
    let cons : Cons := { cons with buf := Function.update cons.buf (place cons.e) c, e := cons.e + 1 }
    if c = 10 ∨ c = ctrlD ∨ cons.e - cons.r = BitVec.ofNat 32 INPUT_BUF_SIZE then
      { cons with w := cons.e }
    else cons
  else cons

/-- `consoleintr`, less the echo, the listing of the processes and the wakeup. -/
def consoleintr (ch : Byte) (cons : Cons) : Cons :=
  if ch = ctrlP then cons
  else if ch = ctrlU then killLine cons
  else if ch = ctrlH ∨ ch = del then backspace cons
  else typed ch cons

/-! ### `consoleread` -/

/-- A call of `consoleread` that sleeps: `target`, `n` and the bytes copied so far. -/
structure Call where
  target : ℕ
  n : ℕ
  got : List Byte

inductive Outcome
  | sleeps (k : Call)
  | returns (v : ℤ) (got : List Byte)

/-- The outer loop of `consoleread` from its test of `n` on, as far as it gets without sleeping. -/
def consoleread (killed : Bool) (target : ℕ) : ℕ → List Byte → Cons → Outcome × Cons
  | 0, got, cons => (.returns target got, cons)
  | n + 1, got, cons =>
    if cons.r = cons.w then
      if killed then (.returns (-1) got, cons) else (.sleeps ⟨target, n + 1, got⟩, cons)
    else
      let c := cons.buf (place cons.r)
      let cons := { cons with r := cons.r + 1 }
      if c = ctrlD then
        if n + 1 < target then
          -- `^D` is kept for the next read
          (.returns (target - (n + 1 : ℕ)) got, { cons with r := cons.r - 1 })
        else (.returns (target - (n + 1 : ℕ)) got, cons)
      else if c = 10 then (.returns (target - n) (got ++ [c]), cons)
      else consoleread killed target n (got ++ [c]) cons

/-! ### Readers and a device -/

/-- A byte arrives; `p` reads `n` bytes; a `p` that sleeps goes on, for whatever reason. -/
inductive Event (ρ : Type)
  | typed (c : Byte)
  | read (p : ρ) (n : ℤ) (killed : Bool)
  | wake (p : ρ) (killed : Bool)

/-- What a read of `n` bytes returns, and the bytes that it has copied. -/
structure Reply (ρ : Type) where
  reader : ρ
  n : ℕ
  v : ℤ
  got : List Byte

structure Device (ρ δ : Type) where
  intr : Byte → δ → δ
  read : ρ → Bool → ℕ → ℕ → List Byte → δ → Outcome × δ

/-- The calls that sleep, and the replies so far. -/
structure State (ρ δ : Type) where
  dev : δ
  call : ρ → Option Call
  log : List (Reply ρ)

variable {ρ δ δ' : Type} [DecidableEq ρ]

/-- How a section of a read of `target` bytes by `p` ends. -/
def State.settle (p : ρ) (target : ℕ) (s : State ρ δ) : Outcome × δ → State ρ δ
  | (.sleeps k, d) => ⟨d, Function.update s.call p (some k), s.log⟩
  | (.returns v got, d) => ⟨d, Function.update s.call p none, s.log ++ [⟨p, target, v, got⟩]⟩

def Device.section (D : Device ρ δ) (p : ρ) (killed : Bool) (k : Call) (s : State ρ δ) : State ρ δ :=
  s.settle p k.target (D.read p killed k.target k.n k.got s.dev)

def Device.step (D : Device ρ δ) : Event ρ → State ρ δ → State ρ δ
  | .typed c, s => { s with dev := D.intr c s.dev }
  | .read p n killed, s =>
    match s.call p with
    -- nothing is read for an `n` that is not positive
    | none => D.section p killed ⟨n.toNat, n.toNat, []⟩ s
    | some _ => s
  | .wake p killed, s =>
    match s.call p with
    | none => s
    | some k => D.section p killed k s

lemma Device.step_read {D : Device ρ δ} {s : State ρ δ} {p : ρ} (h : s.call p = none) (n : ℤ)
    (killed : Bool) : D.step (.read p n killed) s = D.section p killed ⟨n.toNat, n.toNat, []⟩ s := by
  simp only [Device.step, h]

lemma Device.step_read_busy {D : Device ρ δ} {s : State ρ δ} {p : ρ} {k : Call}
    (h : s.call p = some k) (n : ℤ) (killed : Bool) : D.step (.read p n killed) s = s := by
  simp only [Device.step, h]

lemma Device.step_wake {D : Device ρ δ} {s : State ρ δ} {p : ρ} {k : Call} (h : s.call p = some k)
    (killed : Bool) : D.step (.wake p killed) s = D.section p killed k s := by
  simp only [Device.step, h]

lemma Device.step_wake_idle {D : Device ρ δ} {s : State ρ δ} {p : ρ} (h : s.call p = none)
    (killed : Bool) : D.step (.wake p killed) s = s := by
  simp only [Device.step, h]

def Device.run (D : Device ρ δ) : List (Event ρ) → State ρ δ → State ρ δ
  | [], s => s
  | ev :: es, s => D.run es (D.step ev s)

def console : Device ρ Cons := ⟨consoleintr, fun _ => consoleread⟩

/-- The indices have a common value. -/
def start (buf : Fin INPUT_BUF_SIZE → Byte) (i : BitVec 32) : State ρ Cons :=
  ⟨⟨buf, i, i, i⟩, fun _ => none, []⟩

/-! ### The reference editor -/

/-- The lines that have been committed and not been read, the line that is typed, and all that has
been committed and taken so far. -/
structure Editor (ρ : Type) where
  queue : List Byte
  line : List Byte
  sent : List Byte
  taken : List (ρ × Byte)

namespace Editor

def insert (c : Byte) (ed : Editor ρ) : Editor ρ :=
  let line := ed.line ++ [c]
  if c = 10 ∨ c = ctrlD ∨ ed.queue.length + line.length = INPUT_BUF_SIZE then
    { ed with queue := ed.queue ++ line, line := [], sent := ed.sent ++ line }
  else { ed with line := line }

def intr (c : Byte) (ed : Editor ρ) : Editor ρ :=
  if c = ctrlP then ed
  else if c = ctrlU then { ed with line := [] }
  else if c = ctrlH ∨ c = del then { ed with line := ed.line.dropLast }
  else if c ≠ 0 ∧ ed.queue.length + ed.line.length < INPUT_BUF_SIZE then
    ed.insert (if c = 13 then 10 else c)
  else ed

/-- `p` takes the first byte of the queue. -/
def take (p : ρ) (c : Byte) (q : List Byte) (ed : Editor ρ) : Editor ρ :=
  { ed with queue := q, taken := ed.taken ++ [(p, c)] }

/-- A read takes bytes up to a newline or its `n`; `^D` is taken by a read that has no bytes yet. -/
def read (p : ρ) (killed : Bool) (target : ℕ) : ℕ → List Byte → Editor ρ → Outcome × Editor ρ
  | 0, got, ed => (.returns got.length got, ed)
  | n + 1, got, ed =>
    match ed.queue with
    | [] => if killed then (.returns (-1) got, ed) else (.sleeps ⟨target, n + 1, got⟩, ed)
    | c :: q =>
      if c = ctrlD then
        if got ≠ [] then (.returns got.length got, ed) else (.returns 0 [], ed.take p c q)
      else if c = 10 then (.returns (got.length + 1) (got ++ [c]), ed.take p c q)
      else read p killed target n (got ++ [c]) (ed.take p c q)

end Editor

def editor : Device ρ (Editor ρ) := ⟨Editor.intr, Editor.read⟩

def blank : State ρ (Editor ρ) := ⟨⟨[], [], [], []⟩, fun _ => none, []⟩

/-! ### The buffer of the editor -/

/-- From `cons.r` on the buffer has the committed bytes, up to `cons.w`, and the line that is typed,
up to `cons.e`. -/
structure Rep (cons : Cons) (queue line : List Byte) : Prop where
  write : cons.w = cons.r + BitVec.ofNat 32 queue.length
  edit : cons.e = cons.r + BitVec.ofNat 32 (queue ++ line).length
  room : (queue ++ line).length ≤ INPUT_BUF_SIZE
  data : ∀ i x, (queue ++ line)[i]? = some x → cons.buf (place (cons.r + BitVec.ofNat 32 i)) = x
  line : ∀ x ∈ line, x ≠ 10

variable {cons : Cons} {queue line : List Byte} {c x : Byte}

lemma place_ne {r : BitVec 32} {i j : ℕ} (hij : i < j) (hj : j < i + INPUT_BUF_SIZE) :
    place (r + BitVec.ofNat 32 i) ≠ place (r + BitVec.ofNat 32 j) :=
  index_ne (N := INPUT_BUF_SIZE) (by decide) hij hj

/-- Indices at most a buffer apart are equal only if they are the same. -/
lemma offset_inj {r : BitVec 32} {i j : ℕ} (hij : i ≤ j) (hj : j ≤ i + INPUT_BUF_SIZE) :
    r + BitVec.ofNat 32 i = r + BitVec.ofNat 32 j ↔ i = j :=
  ⟨Data.Ring.count_inj (by decide) hij hj, fun h => by rw [h]⟩

lemma Rep.reading (h : Rep cons queue line) : cons.r = cons.w ↔ queue = [] := by
  have hroom := h.room
  rw [List.length_append] at hroom
  have hzero : cons.r = cons.r + BitVec.ofNat 32 0 := (BitVec.add_zero _).symm
  rw [h.write, ← List.length_eq_zero_iff]
  nth_rewrite 1 [hzero]
  rw [offset_inj (by omega) (by omega), eq_comm]

lemma Rep.editing (h : Rep cons queue line) : cons.e = cons.w ↔ line = [] := by
  have hroom := h.room
  rw [List.length_append] at hroom
  rw [h.write, h.edit, eq_comm, List.length_append, offset_inj (by omega) (by omega),
    ← List.length_eq_zero_iff]
  omega

lemma Rep.used (h : Rep cons queue line) : (cons.e - cons.r).toNat = (queue ++ line).length := by
  have hroom : (queue ++ line).length ≤ 128 := h.room
  rw [h.edit, BitVec.add_comm, BitVec.add_sub_cancel, BitVec.toNat_ofNat, Nat.mod_eq_of_lt (by omega)]

lemma Rep.ready (h : Rep cons queue line) : (cons.w - cons.r).toNat = queue.length := by
  have hroom : (queue ++ line).length ≤ 128 := h.room
  rw [List.length_append] at hroom
  rw [h.write, BitVec.add_comm, BitVec.add_sub_cancel, BitVec.toNat_ofNat, Nat.mod_eq_of_lt (by omega)]

/-- The last byte of the line is before `cons.e`. -/
lemma Rep.last (h : Rep cons queue (line ++ [x])) : cons.e - 1 =
    cons.r + BitVec.ofNat 32 (queue ++ line).length ∧ cons.buf (place (cons.e - 1)) = x := by
  have hedit : cons.e - 1 = cons.r + BitVec.ofNat 32 (queue ++ line).length := by
    rw [h.edit, ← List.append_assoc, List.length_append, List.length_singleton, BitVec.ofNat_add,
      ← BitVec.add_assoc]
    exact BitVec.add_sub_cancel ..
  refine ⟨hedit, ?_⟩
  rw [hedit]
  exact h.data _ x (by rw [← List.append_assoc, List.getElem?_concat_length])

/-- One byte of the line is erased. -/
lemma Rep.erase (h : Rep cons queue (line ++ [x])) :
    Rep { cons with e := cons.e - 1 } queue line := by
  have hroom := h.room
  rw [← List.append_assoc, List.length_append] at hroom
  refine ⟨h.write, h.last.1, by omega, fun i y hi => h.data i y ?_, fun y hy => h.line y (by simp [hy])⟩
  rw [← List.append_assoc, List.getElem?_append_left (List.getElem?_eq_some_iff.mp hi).1]
  exact hi

lemma Rep.killLine (h : Rep cons queue line) : Rep (killLine cons) queue [] := by
  induction line using List.reverseRecOn generalizing cons with
  | nil =>
    rw [Console.killLine, dif_neg fun hne => hne.1 (h.editing.mpr rfl)]
    exact h
  | append_singleton line x ih =>
    have hne : cons.e ≠ cons.w := fun he => by simpa using h.editing.mp he
    have hx : cons.buf (place (cons.e - 1)) ≠ 10 := by
      rw [h.last.2]
      exact h.line x (by simp)
    rw [Console.killLine, dif_pos ⟨hne, hx⟩]
    exact ih h.erase

lemma Rep.backspace (h : Rep cons queue line) : Rep (backspace cons) queue line.dropLast := by
  rcases List.eq_nil_or_concat' line with rfl | ⟨line, x, rfl⟩
  · rw [Console.backspace, if_neg fun hne => hne (h.editing.mpr rfl)]
    exact h
  · rw [Console.backspace, if_pos fun he => by simpa using h.editing.mp he, List.dropLast_concat]
    exact h.erase

/-- A byte is stored where there is room, and overwrites nothing. -/
lemma Rep.store (h : Rep cons queue line) (hroom : (queue ++ line).length < INPUT_BUF_SIZE) :
    let cons' : Cons := { cons with buf := Function.update cons.buf (place cons.e) c, e := cons.e + 1 }
    cons'.e = cons'.r + BitVec.ofNat 32 (queue ++ (line ++ [c])).length ∧
      ∀ i x, (queue ++ (line ++ [c]))[i]? = some x →
        cons'.buf (place (cons'.r + BitVec.ofNat 32 i)) = x := by
  refine ⟨?_, fun i x hi => ?_⟩
  · change cons.e + 1 = cons.r + _
    have hlen : (queue ++ line ++ [c]).length = (queue ++ line).length + 1 := List.length_append
    rw [h.edit, ← List.append_assoc, hlen, BitVec.ofNat_add, BitVec.add_assoc]
    rfl
  · change Function.update cons.buf (place cons.e) c (place (cons.r + _)) = x
    rw [← List.append_assoc] at hi
    rw [h.edit]
    rcases Nat.lt_or_ge i (queue ++ line).length with hlen | hlen
    · rw [List.getElem?_append_left hlen] at hi
      rw [Function.update_of_ne (place_ne hlen (by omega))]
      exact h.data i x hi
    · rw [List.getElem?_append_right hlen] at hi
      obtain rfl : i = (queue ++ line).length := by
        have := (List.getElem?_eq_some_iff.mp hi).1
        rw [List.length_singleton] at this
        omega
      rw [Nat.sub_self, List.getElem?_cons_zero] at hi
      rw [Function.update_self]
      exact Option.some.inj hi

variable {ed : Editor ρ}

omit [DecidableEq ρ] in
lemma rep_insert (h : Rep cons ed.queue ed.line)
    (hroom : (ed.queue ++ ed.line).length < INPUT_BUF_SIZE) :
    let cons' : Cons := { cons with buf := Function.update cons.buf (place cons.e) c, e := cons.e + 1 }
    Rep (if c = 10 ∨ c = ctrlD ∨ cons'.e - cons'.r = BitVec.ofNat 32 INPUT_BUF_SIZE then
      { cons' with w := cons'.e } else cons') (ed.insert c).queue (ed.insert c).line := by
  intro cons'
  obtain ⟨hedit, hdata⟩ := h.store (c := c) hroom
  change cons'.e = cons'.r + _ at hedit
  change ∀ i x, _ → cons'.buf (place (cons'.r + BitVec.ofNat 32 i)) = x at hdata
  have hlen : (ed.queue ++ (ed.line ++ [c])).length = ed.queue.length + (ed.line ++ [c]).length :=
    List.length_append
  have hle : (ed.queue ++ (ed.line ++ [c])).length ≤ 128 := by
    rw [← List.append_assoc, List.length_append, List.length_singleton]
    exact hroom
  have hfull : cons'.e - cons'.r = BitVec.ofNat 32 INPUT_BUF_SIZE ↔
      ed.queue.length + (ed.line ++ [c]).length = INPUT_BUF_SIZE := by
    rw [hedit, BitVec.add_comm, BitVec.add_sub_cancel, ← hlen, ← BitVec.toNat_inj, BitVec.toNat_ofNat,
      BitVec.toNat_ofNat, Nat.mod_eq_of_lt (by omega), Nat.mod_eq_of_lt (by decide)]
  unfold Editor.insert
  by_cases hc : c = 10 ∨ c = ctrlD ∨ ed.queue.length + (ed.line ++ [c]).length = INPUT_BUF_SIZE
  · rw [if_pos (by rw [hfull]; exact hc), if_pos hc]
    refine ⟨hedit, ?_, ?_, fun i x hi => hdata i x ?_, fun x hx => by simp at hx⟩
    · change cons'.e = cons'.r + BitVec.ofNat 32 (ed.queue ++ (ed.line ++ [c]) ++ []).length
      rw [List.append_nil]
      exact hedit
    · change (ed.queue ++ (ed.line ++ [c]) ++ []).length ≤ 128
      rw [List.append_nil]
      exact hle
    · change (ed.queue ++ (ed.line ++ [c]) ++ [])[i]? = some x at hi
      rwa [List.append_nil] at hi
  · rw [if_neg (by rw [hfull]; exact hc), if_neg hc]
    refine ⟨h.write, hedit, hle, hdata, fun x hx => ?_⟩
    rcases List.mem_append.mp hx with hx | hx
    · exact h.line x hx
    · rintro rfl
      exact hc (.inl (List.mem_singleton.mp hx).symm)

omit [DecidableEq ρ] in
/-- **An interrupt does to the buffer what it does to the editor.** -/
theorem rep_intr (h : Rep cons ed.queue ed.line) :
    Rep (consoleintr c cons) (ed.intr c).queue (ed.intr c).line := by
  rw [consoleintr, Editor.intr]
  by_cases h1 : c = ctrlP
  · rw [if_pos h1, if_pos h1]
    exact h
  rw [if_neg h1, if_neg h1]
  by_cases h2 : c = ctrlU
  · rw [if_pos h2, if_pos h2]
    exact h.killLine
  rw [if_neg h2, if_neg h2]
  by_cases h3 : c = ctrlH ∨ c = del
  · rw [if_pos h3, if_pos h3]
    exact h.backspace
  rw [if_neg h3, if_neg h3]
  have hused : cons.e - cons.r < BitVec.ofNat 32 INPUT_BUF_SIZE ↔
      ed.queue.length + ed.line.length < INPUT_BUF_SIZE := by
    rw [BitVec.lt_def, h.used, List.length_append]
    rfl
  by_cases h4 : c ≠ 0 ∧ ed.queue.length + ed.line.length < INPUT_BUF_SIZE
  · rw [typed, if_pos ⟨h4.1, hused.mpr h4.2⟩, if_pos h4]
    exact rep_insert h (by rw [List.length_append]; exact h4.2)
  · rw [typed, if_neg fun h' => h4 ⟨h'.1, hused.mp h'.2⟩, if_neg h4]
    exact h

/-! ### Reading -/

lemma Rep.front (h : Rep cons (c :: queue) line) :
    cons.buf (place cons.r) = c ∧ Rep { cons with r := cons.r + 1 } queue line := by
  have hstep : ∀ n, cons.r + BitVec.ofNat 32 (n + 1) = cons.r + 1 + BitVec.ofNat 32 n := by
    intro n
    rw [Nat.add_comm n 1, BitVec.ofNat_add, ← BitVec.add_assoc]
    rfl
  have hroom := h.room
  rw [List.cons_append, List.length_cons] at hroom
  refine ⟨?_, ?_, ?_, by omega, fun i x hi => ?_, h.line⟩
  · have := h.data 0 c rfl
    have hzero : cons.r + BitVec.ofNat 32 0 = cons.r := BitVec.add_zero _
    rwa [hzero] at this
  · exact h.write.trans (hstep _)
  · exact h.edit.trans (hstep _)
  · have := h.data (i + 1) x (by rw [List.cons_append, List.getElem?_cons_succ]; exact hi)
    rwa [hstep] at this

omit [DecidableEq ρ] in
/-- **A read takes from the buffer what it takes from the editor.** -/
theorem rep_read (h : Rep cons ed.queue ed.line) (p : ρ) (killed : Bool) {target n : ℕ}
    {got : List Byte} (htarget : target = n + got.length) :
    (consoleread killed target n got cons).1 = (ed.read p killed target n got).1 ∧
      Rep (consoleread killed target n got cons).2 (ed.read p killed target n got).2.queue
        (ed.read p killed target n got).2.line := by
  induction n generalizing cons ed got with
  | zero =>
    rw [Nat.zero_add] at htarget
    subst htarget
    exact ⟨rfl, h⟩
  | succ n ih =>
    rw [consoleread, Editor.read]
    cases hq : ed.queue with
    | nil =>
      rw [if_pos (h.reading.mpr hq)]
      cases killed with
      | true => exact ⟨rfl, h⟩
      | false => exact ⟨rfl, h⟩
    | cons c q =>
      have h' : Rep cons (c :: q) ed.line := by rwa [hq] at h
      have hne : ¬ cons.r = cons.w := fun he => by simpa using h'.reading.mp he
      obtain ⟨hfront, hpop⟩ := h'.front
      simp only [if_neg hne, hfront]
      by_cases hd : c = ctrlD
      · rw [if_pos hd, if_pos hd]
        by_cases hgot : got = []
        · subst hgot
          rw [List.length_nil, Nat.add_zero] at htarget
          rw [if_neg (by omega), if_neg (not_not.mpr rfl)]
          refine ⟨?_, hpop⟩
          rw [htarget, sub_self]
        · have hpos : 0 < got.length := List.length_pos_iff.mpr hgot
          rw [if_pos (by omega), if_pos hgot]
          refine ⟨?_, ?_⟩
          · rw [htarget, Nat.cast_add, add_sub_cancel_left]
          · -- `^D` is put back
            have hback : cons.r + 1 - 1 = cons.r := BitVec.add_sub_cancel ..
            rw [hback]
            exact h
      · rw [if_neg hd, if_neg hd]
        by_cases hnl : c = 10
        · rw [if_pos hnl, if_pos hnl]
          refine ⟨?_, hpop⟩
          rw [htarget]
          push_cast
          congr 1
          omega
        · rw [if_neg hnl, if_neg hnl]
          have hpop' : Rep { cons with r := cons.r + 1 } (ed.take p c q).queue (ed.take p c q).line :=
            hpop
          refine ih hpop' ?_
          rw [htarget, List.length_append, List.length_singleton]
          omega

/-! ### What the editor's readers get -/

/-- The bytes that a read has taken from the queue: a read of `n > 0` bytes that returns 0 has taken
one `^D`, and any other read has taken the bytes that it has copied. -/
def Reply.consumed (d : Reply ρ) : List Byte := if d.v = 0 ∧ 0 < d.n then [ctrlD] else d.got

/-- No read crosses a newline or copies a `^D`, and one that is not killed returns how many bytes it
has copied. -/
structure Reply.Sane (d : Reply ρ) : Prop where
  bound : d.got.length ≤ d.n
  value : d.v = d.got.length ∨ d.v = -1
  eof : ctrlD ∉ d.got
  line : 10 ∉ d.got.dropLast

structure Call.Sane (k : Call) : Prop where
  target : k.target = k.n + k.got.length
  eof : ctrlD ∉ k.got
  line : 10 ∉ k.got

/-- The bytes that `p` has taken. -/
def Editor.takenBy (p : ρ) (ed : Editor ρ) : List Byte :=
  (ed.taken.filter fun x => x.1 = p).map Prod.snd

/-- Each committed byte is delivered once and in order, and what a process has taken is what its reads
have consumed. -/
structure Faithful (t : State ρ (Editor ρ)) : Prop where
  order : t.dev.sent = t.dev.taken.map Prod.snd ++ t.dev.queue
  taken : ∀ p, t.dev.takenBy p = ((t.log.filter fun d => d.reader = p).flatMap Reply.consumed) ++
    (t.call p).elim [] Call.got
  log : ∀ d ∈ t.log, d.Sane
  call : ∀ p k, t.call p = some k → k.Sane

/-- `xs` have been taken by a read that had `got`. -/
def Reports (p : ρ) (target : ℕ) (got xs : List Byte) : Outcome → Prop
  | .sleeps k => k.Sane ∧ k.target = target ∧ k.got = got ++ xs
  | .returns v got' => (Reply.mk p target v got').Sane ∧ (Reply.mk p target v got').consumed = got ++ xs

omit [DecidableEq ρ] in
lemma reports_cons {p : ρ} {target : ℕ} {got xs : List Byte} {o : Outcome}
    (h : Reports p target (got ++ [x]) xs o) : Reports p target got (x :: xs) o := by
  have hassoc : got ++ [x] ++ xs = got ++ x :: xs := List.append_assoc ..
  cases o with
  | sleeps k => exact ⟨h.1, h.2.1, h.2.2.trans hassoc⟩
  | returns v got' => exact ⟨h.1, h.2.trans hassoc⟩

lemma dropLast_snoc_notin {xs : List Byte} (h : 10 ∉ xs) : 10 ∉ (xs ++ [x]).dropLast := by
  rwa [List.dropLast_concat]

omit [DecidableEq ρ] in
/-- A reply with bytes, or of a killed process, has consumed what it has copied. -/
lemma consumed_of_ne {d : Reply ρ} (h : d.v ≠ 0) : d.consumed = d.got := if_neg fun h' => h h'.1

omit [DecidableEq ρ] in
lemma read_reports (ed : Editor ρ) (p : ρ) (killed : Bool) {target n : ℕ} {got : List Byte}
    (hk : Call.Sane ⟨target, n, got⟩) : ∃ xs,
      (ed.read p killed target n got).2.taken = ed.taken ++ xs.map (fun c => (p, c)) ∧
      ed.queue = xs ++ (ed.read p killed target n got).2.queue ∧
      (ed.read p killed target n got).2.sent = ed.sent ∧
      Reports p target got xs (ed.read p killed target n got).1 := by
  have htarget : target = n + got.length := hk.target
  have heof : ctrlD ∉ got := hk.eof
  have hline : 10 ∉ got := hk.line
  have hdrop : 10 ∉ got.dropLast := fun h => hline (List.dropLast_subset got h)
  induction n generalizing ed got with
  | zero =>
    refine ⟨[], (List.append_nil _).symm, rfl, rfl, ⟨?_, .inl rfl, heof, hdrop⟩, ?_⟩
    · change got.length ≤ target
      omega
    rw [List.append_nil]
    refine if_neg fun h => ?_
    have h1 : (got.length : ℤ) = 0 := h.1
    have h2 : 0 < target := h.2
    omega
  | succ n ih =>
    rw [Editor.read]
    cases hq : ed.queue with
    | nil =>
      cases killed with
      | true =>
        refine ⟨[], (List.append_nil _).symm, hq.symm, rfl, ⟨?_, .inr rfl, heof, hdrop⟩, ?_⟩
        · change got.length ≤ target
          omega
        · rw [List.append_nil]
          exact consumed_of_ne (show (-1 : ℤ) ≠ 0 by decide)
      | false => exact ⟨[], (List.append_nil _).symm, hq.symm, rfl, hk, rfl, (List.append_nil _).symm⟩
    | cons c q =>
      dsimp only
      by_cases hd : c = ctrlD
      · rw [if_pos hd]
        by_cases hgot : got = []
        · subst hgot hd
          rw [if_neg (not_not.mpr rfl)]
          refine ⟨[ctrlD], rfl, rfl, rfl, ⟨Nat.zero_le _, .inl rfl, by simp, by simp⟩, ?_⟩
          exact if_pos ⟨rfl, by change 0 < target; omega⟩
        · have hpos : 0 < got.length := List.length_pos_iff.mpr hgot
          rw [if_pos hgot]
          refine ⟨[], (List.append_nil _).symm, hq.symm, rfl, ⟨?_, .inl rfl, heof, hdrop⟩, ?_⟩
          · change got.length ≤ target
            omega
          · rw [List.append_nil]
            exact consumed_of_ne (by change (got.length : ℤ) ≠ 0; omega)
      · rw [if_neg hd]
        have heof' : ctrlD ∉ got ++ [c] := by
          rw [List.mem_append, List.mem_singleton]
          rintro (h | h)
          · exact heof h
          · exact hd h.symm
        have hlen : (got ++ [c]).length = got.length + 1 := by rw [List.length_append]; rfl
        by_cases hnl : c = 10
        · rw [if_pos hnl]
          refine ⟨[c], rfl, rfl, rfl, ⟨?_, .inl ?_, heof', ?_⟩, ?_⟩
          · change (got ++ [c]).length ≤ target
            omega
          · change (got.length + 1 : ℤ) = ((got ++ [c]).length : ℕ)
            rw [hlen]
            rfl
          · exact dropLast_snoc_notin hline
          · exact consumed_of_ne (by change (got.length + 1 : ℤ) ≠ 0; omega)
        · rw [if_neg hnl]
          have hline' : 10 ∉ got ++ [c] := by
            rw [List.mem_append, List.mem_singleton]
            rintro (h | h)
            · exact hline h
            · exact hnl h.symm
          have htarget' : target = n + (got ++ [c]).length := by omega
          have hk' : Call.Sane ⟨target, n, got ++ [c]⟩ := ⟨htarget', heof', hline'⟩
          obtain ⟨xs, htaken, hqueue, hsent, hrep⟩ := ih (ed.take p c q) hk' htarget' heof' hline'
            fun h => hline' (List.dropLast_subset _ h)
          refine ⟨c :: xs, ?_, ?_, hsent, ?_⟩
          · rw [htaken]
            change ed.taken ++ [(p, c)] ++ _ = _
            rw [List.append_assoc]
            rfl
          · change q = xs ++ _ at hqueue
            rw [List.cons_append, ← hqueue]
          · exact reports_cons hrep

lemma Editor.takenBy_append (p q : ρ) {xs : List Byte} {ed' : Editor ρ}
    (h : ed'.taken = ed.taken ++ xs.map fun c => (p, c)) :
    ed'.takenBy q = ed.takenBy q ++ if q = p then xs else [] := by
  unfold takenBy
  rw [h, List.filter_append, List.map_append]
  congr 1
  rcases eq_or_ne q p with rfl | hqp
  · have hall : ∀ x ∈ xs.map fun c => (q, c), decide (x.1 = q) = true := by
      intro x hx
      obtain ⟨c, -, rfl⟩ := List.mem_map.mp hx
      exact decide_eq_true rfl
    rw [if_pos rfl, List.filter_eq_self.mpr hall, List.map_map]
    exact List.map_id xs
  · have hnone : ∀ x ∈ xs.map fun c => (p, c), ¬ decide (x.1 = q) = true := by
      intro x hx
      obtain ⟨c, -, rfl⟩ := List.mem_map.mp hx
      exact fun h => hqp (of_decide_eq_true h).symm
    rw [if_neg hqp, List.filter_eq_nil_iff.mpr hnone]
    rfl

variable {t : State ρ (Editor ρ)}

/-- A section of a read keeps the readers faithful. -/
lemma faithful_section (h : Faithful t) (p : ρ) (killed : Bool) {k : Call} (hk : k.Sane)
    (hgot : (t.call p).elim [] Call.got = k.got) : Faithful (editor.section p killed k t) := by
  obtain ⟨xs, htaken, hqueue, hsent, hrep⟩ := read_reports t.dev p killed hk
  change Faithful (t.settle p k.target (t.dev.read p killed k.target k.n k.got))
  revert htaken hqueue hsent hrep
  generalize t.dev.read p killed k.target k.n k.got = b
  obtain ⟨o, ed'⟩ := b
  intro htaken hqueue hsent hrep
  dsimp only at htaken hqueue hsent hrep
  have horder : ed'.sent = ed'.taken.map Prod.snd ++ ed'.queue := by
    have hsnd : xs.map (Prod.snd ∘ fun c => (p, c)) = xs := List.map_id xs
    rw [hsent, h.order, hqueue, htaken, List.map_append, List.map_map, hsnd, List.append_assoc]
  have hby : ∀ q, ed'.takenBy q = t.dev.takenBy q ++ if q = p then xs else [] :=
    fun q => Editor.takenBy_append p q htaken
  cases o with
  | sleeps k' =>
    obtain ⟨hsane, -, hgot'⟩ := hrep
    refine ⟨horder, fun q => ?_, h.log, fun q kq hq => ?_⟩
    · change ed'.takenBy q = _ ++ (Function.update t.call p (some k') q).elim [] Call.got
      rw [hby, h.taken, List.append_assoc]
      rcases eq_or_ne q p with rfl | hqp
      · rw [if_pos rfl, Function.update_self, hgot]
        exact congrArg _ hgot'.symm
      · rw [if_neg hqp, Function.update_of_ne hqp, List.append_nil]
        rfl
    · change Function.update t.call p (some k') q = some kq at hq
      rcases eq_or_ne q p with rfl | hqp
      · rw [Function.update_self] at hq
        cases hq
        exact hsane
      · rw [Function.update_of_ne hqp] at hq
        exact h.call q kq hq
  | returns v got =>
    obtain ⟨hsane, hcons⟩ := hrep
    refine ⟨horder, fun q => ?_, fun d hd => ?_, fun q kq hq => ?_⟩
    · change ed'.takenBy q = ((t.log ++ [_]).filter _).flatMap _ ++
        (Function.update t.call p none q).elim [] Call.got
      rw [hby, h.taken, List.filter_append, List.flatMap_append]
      rcases eq_or_ne q p with rfl | hqp
      · rw [if_pos rfl, Function.update_self, hgot, List.filter_cons_of_pos (by simp), List.append_assoc,
          ← hcons]
        simp
      · rw [if_neg hqp, Function.update_of_ne hqp, List.filter_cons_of_neg (by simpa using Ne.symm hqp)]
        simp
    · change d ∈ t.log ++ [_] at hd
      rcases List.mem_append.mp hd with hd | hd
      · exact h.log d hd
      · rw [List.mem_singleton.mp hd]
        exact hsane
    · change Function.update t.call p none q = some kq at hq
      rcases eq_or_ne q p with rfl | hqp
      · rw [Function.update_self] at hq
        cases hq
      · rw [Function.update_of_ne hqp] at hq
        exact h.call q kq hq

omit [DecidableEq ρ] in
lemma insert_order (h : ed.sent = ed.taken.map Prod.snd ++ ed.queue) :
    (ed.insert c).sent = (ed.insert c).taken.map Prod.snd ++ (ed.insert c).queue ∧
      (ed.insert c).taken = ed.taken := by
  unfold Editor.insert
  dsimp only
  split_ifs
  · refine ⟨?_, rfl⟩
    rw [h, List.append_assoc]
  · exact ⟨h, rfl⟩

omit [DecidableEq ρ] in
/-- A byte that is typed at most moves the line to the end of the queue. -/
lemma intr_order (h : ed.sent = ed.taken.map Prod.snd ++ ed.queue) :
    (ed.intr c).sent = (ed.intr c).taken.map Prod.snd ++ (ed.intr c).queue ∧
      (ed.intr c).taken = ed.taken := by
  rw [Editor.intr]
  by_cases h1 : c = ctrlP
  · rw [if_pos h1]
    exact ⟨h, rfl⟩
  rw [if_neg h1]
  by_cases h2 : c = ctrlU
  · rw [if_pos h2]
    exact ⟨h, rfl⟩
  rw [if_neg h2]
  by_cases h3 : c = ctrlH ∨ c = del
  · rw [if_pos h3]
    exact ⟨h, rfl⟩
  rw [if_neg h3]
  by_cases h4 : c ≠ 0 ∧ ed.queue.length + ed.line.length < INPUT_BUF_SIZE
  · rw [if_pos h4]
    exact insert_order h
  · rw [if_neg h4]
    exact ⟨h, rfl⟩

lemma sane_nil (n : ℕ) : Call.Sane ⟨n, n, []⟩ :=
  ⟨(Nat.add_zero n).symm, List.not_mem_nil, List.not_mem_nil⟩

lemma faithful_intr (h : Faithful t) (c : Byte) : Faithful { t with dev := t.dev.intr c } := by
  obtain ⟨horder, htaken⟩ := intr_order (c := c) h.order
  refine ⟨horder, fun p => ?_, h.log, h.call⟩
  rw [← h.taken p]
  exact congrArg (fun l => (l.filter fun x => x.1 = p).map Prod.snd) htaken

lemma faithful_step (h : Faithful t) (ev : Event ρ) : Faithful (editor.step ev t) := by
  cases ev with
  | typed c => exact faithful_intr h c
  | read p n killed =>
    cases hk : t.call p with
    | none =>
      rw [Device.step_read hk]
      exact faithful_section h p killed (sane_nil _) (by rw [hk]; rfl)
    | some k =>
      rw [Device.step_read_busy hk]
      exact h
  | wake p killed =>
    cases hk : t.call p with
    | none =>
      rw [Device.step_wake_idle hk]
      exact h
    | some k =>
      rw [Device.step_wake hk]
      exact faithful_section h p killed (h.call p k hk) (by rw [hk]; rfl)

/-! ### The console is the editor -/

/-- The console and the editor have the same calls and the same replies. -/
structure Sim (s : State ρ Cons) (t : State ρ (Editor ρ)) : Prop where
  rep : Rep s.dev t.dev.queue t.dev.line
  call : s.call = t.call
  log : s.log = t.log

variable {s : State ρ Cons}

lemma sim_section (h : Sim s t) (p : ρ) (killed : Bool) {k : Call}
    (hk : k.target = k.n + k.got.length) :
    Sim (console.section p killed k s) (editor.section p killed k t) := by
  obtain ⟨hout, hrep⟩ := rep_read h.rep p killed hk
  change Sim (s.settle p k.target (consoleread killed k.target k.n k.got s.dev))
    (t.settle p k.target (t.dev.read p killed k.target k.n k.got))
  revert hout hrep
  generalize consoleread killed k.target k.n k.got s.dev = a
  generalize t.dev.read p killed k.target k.n k.got = b
  obtain ⟨oa, da⟩ := a
  obtain ⟨ob, db⟩ := b
  intro hout hrep
  dsimp only at hout hrep
  subst hout
  cases oa with
  | sleeps k' =>
    refine ⟨hrep, ?_, h.log⟩
    change Function.update s.call p _ = Function.update t.call p _
    rw [h.call]
  | returns v got =>
    refine ⟨hrep, ?_, ?_⟩
    · change Function.update s.call p _ = Function.update t.call p _
      rw [h.call]
    · change s.log ++ _ = t.log ++ _
      rw [h.log]

lemma sim_step (h : Sim s t) (ht : Faithful t) (ev : Event ρ) :
    Sim (console.step ev s) (editor.step ev t) := by
  have hcall : ∀ p, s.call p = t.call p := fun p => congrFun h.call p
  cases ev with
  | typed c => exact ⟨rep_intr h.rep, h.call, h.log⟩
  | read p n killed =>
    cases hk : t.call p with
    | none =>
      rw [Device.step_read hk, Device.step_read ((hcall p).trans hk)]
      exact sim_section h p killed (sane_nil _).target
    | some k =>
      rw [Device.step_read_busy hk, Device.step_read_busy ((hcall p).trans hk)]
      exact h
  | wake p killed =>
    cases hk : t.call p with
    | none =>
      rw [Device.step_wake_idle hk, Device.step_wake_idle ((hcall p).trans hk)]
      exact h
    | some k =>
      rw [Device.step_wake hk, Device.step_wake ((hcall p).trans hk)]
      exact sim_section h p killed (ht.call p k hk).target

lemma sim_run (h : Sim s t) (ht : Faithful t) (es : List (Event ρ)) :
    Sim (console.run es s) (editor.run es t) ∧ Faithful (editor.run es t) := by
  induction es generalizing s t with
  | nil => exact ⟨h, ht⟩
  | cons ev es ih => exact ih (sim_step h ht ev) (faithful_step ht ev)

omit [DecidableEq ρ] in
lemma sim_start (buf : Fin INPUT_BUF_SIZE → Byte) (i : BitVec 32) :
    Sim (ρ := ρ) (start buf i) blank := by
  refine ⟨⟨(BitVec.add_zero i).symm, (BitVec.add_zero i).symm, Nat.zero_le _, ?_, ?_⟩, rfl, rfl⟩
  · intro i x hi
    cases hi
  · intro x hx
    cases hx

lemma faithful_blank : Faithful (blank : State ρ (Editor ρ)) := by
  refine ⟨rfl, fun p => rfl, ?_, ?_⟩
  · intro d hd
    cases hd
  · intro p k hk
    cases hk

/-- **The console is a line editor.** -/
theorem console_is_editor (buf : Fin INPUT_BUF_SIZE → Byte) (i : BitVec 32) (es : List (Event ρ)) :
    let s := console.run es (start buf i)
    let t := editor.run es blank
    s.log = t.log ∧ s.call = t.call ∧ Faithful t ∧
      (s.dev.w - s.dev.r).toNat ≤ (s.dev.e - s.dev.r).toNat ∧
      (s.dev.e - s.dev.r).toNat ≤ INPUT_BUF_SIZE := by
  intro s t
  obtain ⟨hsim, ht⟩ := sim_run (sim_start buf i) faithful_blank es
  refine ⟨hsim.log, hsim.call, ht, ?_, ?_⟩
  · rw [hsim.rep.ready, hsim.rep.used, List.length_append]
    exact Nat.le_add_right _ _
  · rw [hsim.rep.used]
    exact hsim.rep.room

end Xv6.Io.Console
