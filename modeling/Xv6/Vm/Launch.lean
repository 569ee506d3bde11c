import Xv6.Vm.System

/-!
What a program finds that `kexec` has started: its arguments on the stack, and its segments.
-/

namespace Xv6.Vm.Launch

open Xv6.Data Xv6.Data.Effect Xv6.Data.Effect.Eff Xv6.Data.Calls Xv6.Vm.Paging Xv6.Vm.Memory
  Xv6.Vm.Walk
  Xv6.Vm.Grow Xv6.Vm.Copy Xv6.Vm.Space Xv6.Vm.Process Xv6.Vm.Holding Xv6.Vm.Fork Xv6.Vm.View
  Xv6.Vm.Exec Xv6.Vm.Build Xv6.Vm.Stack Xv6.Vm.System

variable {m m' m'' : Image} {a b d k n top bot : ℕ} {l : List UInt8} {src : ℕ → UInt8}
  {sp base : UInt64} {ptrs : List UInt64} {argv : List (List UInt8)} {f : File}

/-! ### Bytes of an image -/

/-- The bytes of `l` are at `a`. -/
def Holds (m : Image) (a : ℕ) (l : List UInt8) : Prop :=
  ∀ j < l.length, m.bytes (a + j) = some (l.getD j 0)

/-- Only bytes between `lo` and `hi` have changed. -/
structure Between (m m' : Image) (lo hi : ℕ) : Prop where
  sz : m'.sz = m.sz
  rights : m'.rights = m.rights
  regs : m'.regs = m.regs
  bytes : ∀ a, a < lo ∨ hi ≤ a → m'.bytes a = m.bytes a

lemma Between.refl (m : Image) (lo hi : ℕ) : Between m m lo hi := ⟨rfl, rfl, rfl, fun _ _ => rfl⟩

lemma Between.trans {lo hi mid : ℕ} (h : Between m m' mid hi) (h' : Between m' m'' lo mid)
    (h1 : lo ≤ mid) (h2 : mid ≤ hi) : Between m m'' lo hi := by
  refine ⟨h'.sz.trans h.sz, h'.rights.trans h.rights, h'.regs.trans h.regs, fun a ha => ?_⟩
  rw [h'.bytes a (by omega), h.bytes a (by omega)]

lemma between_store (h1 : a ≤ d) (h2 : d + n ≤ b) : Between m (m.store d n src) a b :=
  ⟨rfl, rfl, rfl, fun _ hx => if_neg (by omega)⟩

lemma holds_store (h : ∀ j < l.length, src j = l.getD j 0) : Holds (m.store d l.length src) d l := by
  intro j hj
  have hin : d ≤ d + j ∧ d + j < d + l.length := by omega
  change (if _ then _ else _) = _
  rw [if_pos hin, Nat.add_sub_cancel_left, h j hj]

lemma Holds.congr {lo hi : ℕ} (h : Holds m a l)
    (hb : ∀ a, a < lo ∨ hi ≤ a → m'.bytes a = m.bytes a) (ha : a + l.length ≤ lo ∨ hi ≤ a) :
    Holds m' a l := fun j hj => by
  rw [hb _ (by omega)]
  exact h j hj

/-! ### The stack -/

/-- Rounded up to what `sp` has to be a multiple of. -/
def align (n : ℕ) : ℕ := (n + 15) / 16 * 16

lemma le_align (n : ℕ) : n ≤ align n ∧ align n % 16 = 0 := by
  unfold align
  omega

lemma pushed_align (h : sp.toNat % 16 = 0) (hn : n ≤ sp.toNat) :
    (pushed sp n).toNat + align n = sp.toNat ∧ (pushed sp n).toNat % 16 = 0 := by
  rw [toNat_pushed hn]
  unfold align
  omega

/-- What the strings of `argv` take. -/
def span (argv : List (List UInt8)) : ℕ := (argv.map fun arg => align (arg.length + 1)).sum

/-- The strings of `argv`, each ended by a zero, lie between `top` and `bot`, each below the one
before it, and `ptrs` says where. -/
inductive Strings (m : Image) : ℕ → List UInt64 → List (List UInt8) → ℕ → Prop
  | nil (top : ℕ) : Strings m top [] [] top
  | cons {top bot : ℕ} {p : UInt64} {ptrs : List UInt64} {arg : List UInt8}
      {argv : List (List UInt8)} (place : p.toNat + align (arg.length + 1) = top)
      (string : Holds m p.toNat (arg ++ [0])) (rest : Strings m p.toNat ptrs argv bot) :
      Strings m top (p :: ptrs) (arg :: argv) bot

lemma Strings.span (h : Strings m top ptrs argv bot) : bot + Launch.span argv = top := by
  induction h with
  | nil top => rfl
  | @cons top bot p ptrs arg argv place _ _ ih =>
    have hcons : Launch.span (arg :: argv) = align (arg.length + 1) + Launch.span argv := by
      rw [Launch.span, List.map_cons, List.sum_cons]
      rfl
    omega

lemma Strings.length (h : Strings m top ptrs argv bot) : ptrs.length = argv.length := by
  induction h with
  | nil => rfl
  | cons _ _ _ ih => rw [List.length_cons, List.length_cons, ih]

/-- What is below the strings does not matter. -/
lemma Strings.congr {lo hi : ℕ} (h : Strings m top ptrs argv bot)
    (hb : ∀ a, a < lo ∨ hi ≤ a → m'.bytes a = m.bytes a) (hhi : hi ≤ bot) :
    Strings m' top ptrs argv bot := by
  induction h with
  | nil top => exact .nil top
  | cons place string rest ih =>
    have hspan := rest.span
    exact .cons place (string.congr hb (.inr (by omega))) (ih hhi)

/-- A stack of one page from `base` on, and what of it is in use. -/
structure Room (base sp : UInt64) : Prop where
  aligned : sp.toNat % 16 = 0
  low : 4096 ≤ base.toNat
  le : base.toNat ≤ sp.toNat

lemma char_eq (arg : List UInt8) : ∀ j < (arg ++ [0]).length, char arg j = (arg ++ [0]).getD j 0 := by
  intro j hj
  rw [List.length_append, List.length_singleton] at hj
  unfold char
  rcases Nat.lt_or_ge j arg.length with hlt | hge
  · rw [List.getD_append _ _ _ _ hlt]
  · have heq : j = arg.length := by omega
    rw [heq, List.getD_append_right _ _ _ _ le_rfl, Nat.sub_self, List.getD_eq_default _ _ le_rfl]
    rfl

/-- The arguments have been pushed, between `sp` and `sp'`. -/
structure Pushed (m m' : Image) (sp sp' : UInt64) (ptrs : List UInt64) (argv : List (List UInt8)) :
    Prop where
  between : Between m m' sp'.toNat sp.toNat
  strings : Strings m' sp.toNat ptrs argv sp'.toNat

/-- **The loop over the arguments** succeeds where there is room for the strings. -/
theorem withArgs_spec (argv : List (List UInt8)) (sp : UInt64) (ustack : List UInt64) (m : Image)
    (h : Room base sp) (hargs : ∀ arg ∈ argv, arg.length < 4096)
    (hn : ustack.length + argv.length ≤ MAXARG) :
    withArgs base argv sp ustack m = none ∧ sp.toNat < base.toNat + span argv ∨
      ∃ m' sp' ptrs, withArgs base argv sp ustack m = some (m', sp', ustack ++ ptrs) ∧
        Room base sp' ∧ Pushed m m' sp sp' ptrs argv := by
  induction argv generalizing sp ustack m with
  | nil =>
    refine .inr ⟨m, sp, [], ?_, h, Between.refl .., .nil _⟩
    rw [withArgs, List.append_nil]
  | cons arg argv ih =>
    have hlen := hargs arg List.mem_cons_self
    have hlow := h.low
    have hle := h.le
    rw [List.length_cons] at hn
    obtain ⟨hplace, haligned⟩ := pushed_align (n := arg.length + 1) h.aligned (by omega)
    have hspan : span (arg :: argv) = align (arg.length + 1) + span argv := by
      rw [span, List.map_cons, List.sum_cons]
      rfl
    have hsize := (le_align (arg.length + 1)).1
    obtain ⟨p, hp⟩ : ∃ p, p = pushed sp (arg.length + 1) := ⟨_, rfl⟩
    rw [withArgs, ← hp]
    rw [← hp] at hplace haligned
    by_cases hfits : p < base
    · rw [if_pos (.inr hfits)]
      have hfits' : p.toNat < base.toNat := hfits
      exact .inl ⟨rfl, by omega⟩
    · have hge : base.toNat ≤ p.toNat := UInt64.not_lt.mp hfits
      have hcount : ¬ustack.length ≥ MAXARG := by omega
      rw [if_neg (not_or.mpr ⟨hcount, hfits⟩)]
      have hone : (arg ++ [0]).length = arg.length + 1 := List.length_append
      have hstring : Holds (m.store p.toNat (arg.length + 1) (char arg)) p.toNat (arg ++ [0]) := by
        rw [← hone]
        exact holds_store (char_eq arg)
      have hroom : (ustack ++ [p]).length + argv.length ≤ MAXARG := by
        rw [List.length_append, List.length_singleton]
        omega
      rcases ih p (ustack ++ [p]) (m.store p.toNat (arg.length + 1) (char arg))
        ⟨haligned, hlow, hge⟩ (fun arg ha => hargs arg (List.mem_cons_of_mem _ ha)) hroom with
        ⟨hnone, hshort⟩ | ⟨m', sp', ptrs, hsome, hroom', hpushed⟩
      · exact .inl ⟨hnone, by omega⟩
      · have hbelow := hpushed.strings.span
        refine .inr ⟨m', sp', p :: ptrs, ?_, hroom', ?_, ?_⟩
        · rw [hsome, List.append_assoc, List.singleton_append]
        · exact (between_store le_rfl (by omega)).trans hpushed.between (by omega) (by omega)
        · exact .cons hplace (hstring.congr hpushed.between.bytes (.inr le_rfl)) hpushed.strings

/-- The bytes of a number, the lowest first. -/
def bytes8 (x : UInt64) : List UInt8 :=
  (List.range 8).map fun j => UInt8.ofNat (x.toNat / 2 ^ (8 * j))

lemma length_array (l : List UInt64) : (l.flatMap bytes8).length = l.length * 8 := by
  induction l with
  | nil => rfl
  | cons x l ih =>
    rw [List.flatMap_cons, List.length_append, ih, List.length_cons, bytes8, List.length_map,
      List.length_range]
    omega

lemma bytesOf_eq (l : List UInt64) (j : ℕ) (hj : j < l.length * 8) :
    bytesOf l j = (l.flatMap bytes8).getD j 0 := by
  induction l generalizing j with
  | nil => exact absurd hj (by rw [List.length_nil]; omega)
  | cons x l ih =>
    rw [List.length_cons] at hj
    have hlen : (bytes8 x).length = 8 := by
      rw [bytes8, List.length_map, List.length_range]
    rw [List.flatMap_cons]
    rcases Nat.lt_or_ge j 8 with hlt | hge
    · have hdiv : j / 8 = 0 := by omega
      have hmod : j % 8 = j := by omega
      have hj' : j < (bytes8 x).length := by omega
      rw [List.getD_append _ _ _ _ hj', bytesOf, hdiv, hmod, List.getD_cons_zero,
        List.getD_eq_getElem _ _ hj']
      simp only [bytes8, List.getElem_map, List.getElem_range]
    · have hdiv : j / 8 = (j - 8) / 8 + 1 := by omega
      have hmod : j % 8 = (j - 8) % 8 := by omega
      rw [List.getD_append_right _ _ _ _ (by omega), hlen, ← ih (j - 8) (by omega), bytesOf, bytesOf,
        hdiv, hmod, List.getD_cons_succ]

/-- What the strings and the array of pointers take. -/
def needs (argv : List (List UInt8)) : ℕ := span argv + align ((argv.length + 1) * 8)

/-- **The arguments of a program**: strings from the end of its memory down, and below them, at `sp`,
pointers to them with a null pointer at the end. -/
structure Arguments (m : Image) (argv : List (List UInt8)) (sp : UInt64) (ptrs : List UInt64)
    (bot : ℕ) : Prop where
  strings : Strings m m.sz.toNat ptrs argv bot
  place : sp.toNat + align ((argv.length + 1) * 8) = bot
  pointers : Holds m sp.toNat ((ptrs ++ [0]).flatMap bytes8)
  aligned : sp.toNat % 16 = 0
  /-- All of it is in one page. -/
  inside : m.sz.toNat ≤ sp.toNat + 4096

/-- Registers are not in memory. -/
lemma Arguments.regs {bot : ℕ} (h : Arguments m argv sp ptrs bot) (r : Fin 36 → UInt64) :
    Arguments { m with regs := r } argv sp ptrs bot := by
  have hsame : ∀ a, a < 0 ∨ 0 ≤ a → ({ m with regs := r } : Image).bytes a = m.bytes a :=
    fun _ _ => rfl
  exact ⟨h.strings.congr hsame (Nat.zero_le _), h.place,
    h.pointers.congr hsame (.inr (Nat.zero_le _)), h.aligned, h.inside⟩

/-- With its stack, which is two pages above what has been loaded, a guard page and one to write to. -/
structure Launched (m m' : Image) : Prop where
  sz : m'.sz.toNat = (pagesUp m.sz + 2) * 4096
  /-- What has been loaded is as it was. -/
  bytes : ∀ a, a / 4096 < pagesUp m.sz → m'.bytes a = m.bytes a
  rights : ∀ k < pagesUp m.sz, m'.rights k = m.rights k
  guard : ∀ a, a / 4096 = pagesUp m.sz → m'.bytes a = none
  page : m'.rights (pagesUp m.sz + 1) = PTE_R ||| PTE_U ||| PTE_W

lemma Launched.between {lo hi : ℕ} (h : Launched m m') (hb : Between m' m'' lo hi)
    (hlo : (pagesUp m.sz + 1) * 4096 ≤ lo) : Launched m m'' := by
  refine ⟨by rw [hb.sz, h.sz], fun a ha => ?_, fun k hk => ?_, fun a ha => ?_, ?_⟩
  · rw [hb.bytes a (.inl (by omega))]
    exact h.bytes a ha
  · rw [hb.rights]
    exact h.rights k hk
  · rw [hb.bytes a (.inl (by omega))]
    exact h.guard a ha
  · rw [hb.rights]
    exact h.page

lemma extend_regs (i : Image) (newsz perm : UInt64) : (extend i newsz perm).regs = i.regs := by
  unfold extend
  split_ifs <;> rfl

/-- The two pages have been allocated, and the first of them made a guard page. -/
lemma launched_guard (h : m.sz ≤ TRAPFRAME) : Launched m (guard (extend { m with sz := PGROUNDUP m.sz }
    (PGROUNDUP m.sz + (USERSTACK + 1) * PGSIZE) PTE_W) (vpn (PGROUNDUP m.sz))) := by
  obtain ⟨hrnd, hup⟩ := pagesUp_PGROUNDUP h
  obtain ⟨htwo, -⟩ := toNat_stack
  have hmax : pagesUp m.sz ≤ USER := le_TRAPFRAME.mp h
  rw [USER_eq] at hmax
  obtain ⟨newsz, hnewsz⟩ : ∃ x, x = PGROUNDUP m.sz + (USERSTACK + 1) * PGSIZE := ⟨_, rfl⟩
  have hnew : newsz.toNat = (pagesUp m.sz + 2) * 4096 := by
    rw [hnewsz, UInt64.toNat_add, htwo, hrnd]
    omega
  have hge : ¬newsz < PGROUNDUP m.sz := by
    intro hlt
    have hlt' : newsz.toNat < (PGROUNDUP m.sz).toNat := hlt
    rw [hnew, hrnd] at hlt'
    omega
  have hpages : pagesUp newsz = pagesUp m.sz + 2 := by
    have hdef : pagesUp newsz = (newsz.toNat + 4095) / 4096 := rfl
    rw [hdef, hnew]
    omega
  have hvpn : vpn (PGROUNDUP m.sz) = pagesUp m.sz := by
    unfold vpn
    rw [hrnd]
    omega
  have hext : extend { m with sz := PGROUNDUP m.sz } newsz PTE_W =
      Image.span { m with sz := PGROUNDUP m.sz } newsz (PTE_R ||| PTE_U ||| PTE_W) := if_neg hge
  rw [← hnewsz, hvpn, hext]
  refine ⟨hnew, fun a ha => ?_, fun k hk => ?_, fun a ha => ?_, ?_⟩
  · change (if a / 4096 = pagesUp m.sz then none else if a / 4096 < pagesUp newsz then
      if a / 4096 < pagesUp (PGROUNDUP m.sz) then m.bytes a else some 0 else none) = _
    rw [if_neg (by omega), if_pos (by omega), hup, if_pos ha]
  · change Function.update (fun k => if k < pagesUp newsz then
      if k < pagesUp (PGROUNDUP m.sz) then m.rights k else _ else _) (pagesUp m.sz) _ k = _
    rw [Function.update_of_ne (by omega), if_pos (by omega), hup, if_pos hk]
  · exact if_pos ha
  · change Function.update (fun k => if k < pagesUp newsz then
      if k < pagesUp (PGROUNDUP m.sz) then m.rights k else _ else _) (pagesUp m.sz) _ _ = _
    rw [Function.update_of_ne (by omega), if_pos (by omega), hup, if_neg (by omega)]

/-- **The stack of a program** is made where there is room for its arguments. -/
theorem withStack_spec (argv : Argv) (h : m.sz ≤ TRAPFRAME) :
    withStack m argv.args = none ∧ 4096 < needs argv.args ∨
      ∃ m' sp ptrs bot, withStack m argv.args = some (m', sp) ∧ needs argv.args ≤ 4096 ∧
        Launched m m' ∧ m'.regs = m.regs ∧ Arguments m' argv.args sp ptrs bot := by
  obtain ⟨hrnd, hup⟩ := pagesUp_PGROUNDUP h
  obtain ⟨htwo, hone⟩ := toNat_stack
  have hmax : pagesUp m.sz ≤ USER := le_TRAPFRAME.mp h
  rw [USER_eq] at hmax
  have hguard := launched_guard h
  obtain ⟨i, hi⟩ : ∃ i, i = guard (extend { m with sz := PGROUNDUP m.sz }
    (PGROUNDUP m.sz + (USERSTACK + 1) * PGSIZE) PTE_W) (vpn (PGROUNDUP m.sz)) := ⟨_, rfl⟩
  have hregs : i.regs = m.regs := by
    rw [hi]
    exact extend_regs _ _ _
  have hwith : withStack m argv.args =
      (withArgs (i.sz - USERSTACK * PGSIZE) argv.args i.sz [] i).bind
        (withPointers (i.sz - USERSTACK * PGSIZE)) := by
    have hsz : i.sz = (extend { m with sz := PGROUNDUP m.sz }
        (PGROUNDUP m.sz + (USERSTACK + 1) * PGSIZE) PTE_W).sz := by
      rw [hi]
      rfl
    rw [withStack_eq hsz.symm, ← hi]
  rw [← hi] at hguard
  have hsz := hguard.sz
  obtain ⟨base, hbase⟩ : ∃ b, b = i.sz - USERSTACK * PGSIZE := ⟨_, rfl⟩
  have hlow : base.toNat = (pagesUp m.sz + 1) * 4096 := by
    rw [hbase, UInt64.toNat_sub_of_le _ _ ?_, hone, hsz]
    · omega
    · change (USERSTACK * PGSIZE).toNat ≤ i.sz.toNat
      rw [hone, hsz]
      omega
  rw [hwith, ← hbase]
  have hroom : Room base i.sz := ⟨by omega, by omega, by omega⟩
  have hcount : ([] : List UInt64).length + argv.args.length ≤ MAXARG := by
    rw [List.length_nil, Nat.zero_add]
    exact argv.count.le
  have hneeds : needs argv.args = span argv.args + align ((argv.args.length + 1) * 8) := rfl
  rcases withArgs_spec argv.args i.sz [] i hroom argv.size hcount with
    ⟨hnone, hshort⟩ | ⟨m1, sp1, ptrs, hsome, hroom1, hpushed⟩
  · rw [hnone, Option.bind_none]
    exact .inl ⟨rfl, by omega⟩
  have hspan := hpushed.strings.span
  have hlength := hpushed.strings.length
  rw [hsome, Option.bind_some, withPointers, List.nil_append]
  dsimp only
  have hargs := argv.count
  unfold MAXARG at hargs
  have hlow1 := hroom1.low
  have hle1 := hroom1.le
  obtain ⟨hplace, haligned⟩ := pushed_align (n := (ptrs.length + 1) * 8) hroom1.aligned (by omega)
  obtain ⟨sp, hsp⟩ : ∃ sp, sp = pushed sp1 ((ptrs.length + 1) * 8) := ⟨_, rfl⟩
  rw [← hsp] at hplace haligned ⊢
  rw [hlength] at hplace
  have hsize := (le_align ((argv.args.length + 1) * 8)).1
  by_cases hfits : sp < base
  · have hfits' : sp.toNat < base.toNat := hfits
    rw [if_pos hfits]
    exact .inl ⟨rfl, by omega⟩
  · have hge : base.toNat ≤ sp.toNat := UInt64.not_lt.mp hfits
    rw [if_neg hfits]
    have harray : ((ptrs ++ [0]).flatMap bytes8).length = (ptrs.length + 1) * 8 := by
      rw [length_array, List.length_append, List.length_singleton]
    have hb : Between m1 (m1.store sp.toNat ((ptrs.length + 1) * 8) (bytesOf (ptrs ++ [0])))
        sp.toNat sp1.toNat := between_store le_rfl (by omega)
    refine .inr ⟨_, sp, ptrs, sp1.toNat, rfl, by omega, ?_, ?_, ?_, hplace, ?_, haligned, ?_⟩
    · refine hguard.between (hpushed.between.trans hb (by omega) (by omega)) ?_
      omega
    · rw [hb.regs, hpushed.between.regs, hregs]
    · rw [hb.sz, hpushed.between.sz]
      exact hpushed.strings.congr hb.bytes le_rfl
    · rw [← harray]
      refine holds_store fun j hj => bytesOf_eq _ _ ?_
      rw [length_array] at hj
      exact hj
    · rw [hb.sz, hpushed.between.sz]
      omega

lemma store_sz : (m.store d n src).sz = m.sz := rfl

lemma extend_le (i : Image) (newsz perm : UInt64) : i.sz ≤ (extend i newsz perm).sz := by
  rw [extend_sz]
  split_ifs with hlt
  · exact UInt64.le_refl _
  · exact UInt64.not_lt.mp hlt

/-! ### Segments -/

/-- The headers of the segments that are to be loaded. -/
def loads (f : File) : ℕ → UInt32 → List Proghdr
  | 0, _ => []
  | n + 1, off =>
    if (proghdr f off.toNat).type ≠ ELF_PROG_LOAD then loads f n (off + Proghdr.SIZE)
    else proghdr f off.toNat :: loads f n (off + Proghdr.SIZE)

/-- The headers are in the file. -/
def InFile (f : File) : ℕ → UInt32 → Prop
  | 0, _ => True
  | n + 1, off => Has f off Proghdr.SIZE ∧ InFile f n (off + Proghdr.SIZE)

/-- Segments in ascending order, from page `k` on, with no page in two of them. -/
def Ascending : ℕ → List Proghdr → Prop
  | _, [] => True
  | k, ph :: phs => k * 4096 ≤ ph.vaddr.toNat ∧
    Ascending ((ph.vaddr.toNat + ph.memsz.toNat + 4095) / 4096) phs

instance decidableAscending : (k : ℕ) → (phs : List Proghdr) → Decidable (Ascending k phs)
  | _, [] => isTrue trivial
  | k, ph :: phs =>
    have := decidableAscending ((ph.vaddr.toNat + ph.memsz.toNat + 4095) / 4096) phs
    inferInstanceAs (Decidable (k * 4096 ≤ ph.vaddr.toNat ∧ _))

/-- A segment as its header describes it. -/
structure Segment (f : File) (m : Image) (ph : Proghdr) : Prop where
  inFile : ph.filesz = 0 ∨ ph.off.toUInt32.toNat + ph.filesz.toNat ≤ f.size.toNat
  size : ph.filesz.toNat ≤ ph.memsz.toNat
  le : ph.vaddr.toNat + ph.memsz.toNat ≤ m.sz.toNat
  data : ∀ j < ph.filesz.toNat,
    m.bytes (ph.vaddr.toNat + j) = some (f.data (ph.off.toUInt32.toNat + j))
  zero : ∀ j, ph.filesz.toNat ≤ j → j < ph.memsz.toNat → m.bytes (ph.vaddr.toNat + j) = some 0
  rights : ∀ k, ph.vaddr.toNat ≤ k * 4096 → k * 4096 < ph.vaddr.toNat + ph.memsz.toNat →
    m.rights k = PTE_R ||| PTE_U ||| flags2perm ph.flags

/-- `a` is not where a segment has bytes of the file. -/
def Outside (phs : List Proghdr) (a : ℕ) : Prop :=
  ∀ ph ∈ phs, ¬(ph.vaddr.toNat ≤ a ∧ a < ph.vaddr.toNat + ph.filesz.toNat)

/-- The segments `phs` have been loaded above what was there. -/
structure Segments (f : File) (m m' : Image) (phs : List Proghdr) : Prop where
  le : m.sz ≤ m'.sz
  regs : m'.regs = m.regs
  bytes : ∀ a, a / 4096 < pagesUp m.sz → m'.bytes a = m.bytes a
  rights : ∀ k < pagesUp m.sz, m'.rights k = m.rights k
  segment : ∀ ph ∈ phs, Segment f m' ph
  rest : ∀ a, pagesUp m.sz ≤ a / 4096 → a / 4096 < pagesUp m'.sz → Outside phs a → m'.bytes a = some 0

lemma toNat_end {ph : Proghdr} (h : ¬ph.vaddr + ph.memsz < ph.vaddr) :
    (ph.vaddr + ph.memsz).toNat = ph.vaddr.toNat + ph.memsz.toNat := by
  have hadd : (ph.vaddr + ph.memsz).toNat = (ph.vaddr.toNat + ph.memsz.toNat) % 2 ^ 64 :=
    UInt64.toNat_add _ _
  have hge : ph.vaddr.toNat ≤ (ph.vaddr + ph.memsz).toNat := UInt64.not_lt.mp h
  have hv := ph.vaddr.toNat_lt
  have hm := ph.memsz.toNat_lt
  omega

/-- What a segment comes to, where it passes the checks. -/
lemma withSegment_some {ph : Proghdr} (h : withSegment f ph m = some m') :
    ¬ph.memsz < ph.filesz ∧ ¬ph.vaddr + ph.memsz < ph.vaddr ∧
      Has f ph.off.toUInt32 ph.filesz.toUInt32 ∧
      m' = (extend m (ph.vaddr + ph.memsz) (flags2perm ph.flags)).store ph.vaddr.toNat
        ph.filesz.toUInt32.toNat fun j => f.data (ph.off.toUInt32.toNat + j) := by
  unfold withSegment at h
  split at h
  · cases h
  rename_i hchecks
  obtain ⟨hmem, hchecks⟩ := not_or.mp hchecks
  dsimp only at h
  split at h
  · cases h
  rename_i hhas
  exact ⟨hmem, (not_or.mp hchecks).1, not_not.mp (not_or.mp hhas).2, (Option.some.inj h).symm⟩

/-- It ends there, above what was there. -/
lemma withSegment_sz {ph : Proghdr} (h : withSegment f ph m = some m')
    (hk : pagesUp m.sz * 4096 ≤ ph.vaddr.toNat) :
    ¬ph.vaddr + ph.memsz < m.sz ∧ m'.sz.toNat = ph.vaddr.toNat + ph.memsz.toNat := by
  obtain ⟨-, hwrap, -, rfl⟩ := withSegment_some h
  have hend := toNat_end hwrap
  have hgrow : ¬ph.vaddr + ph.memsz < m.sz := by
    intro hlt
    have hlt' : (ph.vaddr + ph.memsz).toNat < m.sz.toNat := hlt
    unfold pagesUp at hk
    omega
  refine ⟨hgrow, ?_⟩
  rw [store_sz, extend_sz, if_neg hgrow, hend]

/-- One segment, above what was there. -/
lemma withSegment_spec {ph : Proghdr} (h : withSegment f ph m = some m')
    (hk : pagesUp m.sz * 4096 ≤ ph.vaddr.toNat)
    (hsmall : ph.vaddr.toNat + ph.memsz.toNat < 2 ^ 32) : Segments f m m' [ph] := by
  obtain ⟨hgrow, -⟩ := withSegment_sz h hk
  obtain ⟨hmem, hwrap, hhas, rfl⟩ := withSegment_some h
  have hend := toNat_end hwrap
  have hle : ph.filesz.toNat ≤ ph.memsz.toNat := UInt64.not_lt.mp hmem
  have hfs : ph.filesz.toUInt32.toNat = ph.filesz.toNat := by
    rw [UInt64.toNat_toUInt32]
    exact Nat.mod_eq_of_lt (by omega)
  have hup : pagesUp (ph.vaddr + ph.memsz) = (ph.vaddr.toNat + ph.memsz.toNat + 4095) / 4096 := by
    unfold pagesUp
    rw [hend]
  rw [extend, if_neg hgrow, hfs]
  have hbytes : ∀ a, ((m.span (ph.vaddr + ph.memsz) (PTE_R ||| PTE_U ||| flags2perm ph.flags)).store
      ph.vaddr.toNat ph.filesz.toNat fun j => f.data (ph.off.toUInt32.toNat + j)).bytes a =
      if ph.vaddr.toNat ≤ a ∧ a < ph.vaddr.toNat + ph.filesz.toNat then
        some (f.data (ph.off.toUInt32.toNat + (a - ph.vaddr.toNat)))
      else if a / 4096 < pagesUp (ph.vaddr + ph.memsz) then
        if a / 4096 < pagesUp m.sz then m.bytes a else some 0 else none := fun _ => rfl
  refine ⟨?_, rfl, fun a ha => ?_, fun k hlt => ?_, ?_, fun a h1 h2 hout => ?_⟩
  · exact UInt64.not_lt.mp hgrow
  · rw [hbytes, if_neg (by omega), if_pos (by omega), if_pos ha]
  · change (if k < pagesUp (ph.vaddr + ph.memsz) then if k < pagesUp m.sz then _ else _ else _) = _
    rw [if_pos (by omega), if_pos hlt]
  · intro ph' hph
    rw [List.mem_singleton.mp hph]
    refine ⟨?_, hle, hend.ge, fun j hj => ?_, fun j h1 h2 => ?_, fun k h1 h2 => ?_⟩
    · refine hhas.imp (fun hz => ?_) fun hin => ?_
      · have hz' := congrArg UInt32.toNat hz
        rw [hfs] at hz'
        exact UInt64.toNat_inj.mp hz'
      · rwa [hfs] at hin
    · rw [hbytes, if_pos (by omega), Nat.add_sub_cancel_left]
    · rw [hbytes, if_neg (by omega), if_pos (by omega), if_neg (by omega)]
    · change (if k < pagesUp (ph.vaddr + ph.memsz) then if k < pagesUp m.sz then _ else _ else _) = _
      rw [if_pos (by omega), if_neg (by omega)]
  · have h2' : a / 4096 < pagesUp (ph.vaddr + ph.memsz) := h2
    rw [hbytes, if_neg (hout ph (List.mem_singleton_self ph)), if_pos h2', if_neg (by omega)]

/-- A segment that nothing later changes. -/
lemma Segment.later {ph : Proghdr} (h : Segment f m ph) (hle : m.sz.toNat ≤ m'.sz.toNat)
    (hbytes : ∀ a, a / 4096 < pagesUp m.sz → m'.bytes a = m.bytes a)
    (hrights : ∀ k < pagesUp m.sz, m'.rights k = m.rights k) : Segment f m' ph := by
  have hfile := h.size
  have hend := h.le
  refine ⟨h.inFile, hfile, by omega, fun j hj => ?_, fun j h1 h2 => ?_, fun k h1 h2 => ?_⟩
  · rw [hbytes _ (by unfold pagesUp; omega), h.data j hj]
  · rw [hbytes _ (by unfold pagesUp; omega), h.zero j h1 h2]
  · rw [hrights k (by unfold pagesUp; omega), h.rights k h1 h2]

lemma Segments.cons {ph : Proghdr} {phs : List Proghdr} (h : Segments f m m' [ph])
    (h' : Segments f m' m'' phs) : Segments f m m'' (ph :: phs) := by
  have hup := pagesUp_mono h.le
  refine ⟨UInt64.le_trans h.le h'.le, h'.regs.trans h.regs, fun a ha => ?_, fun k hk => ?_,
    fun ph' hph => ?_, fun a h1 h2 hout => ?_⟩
  · rw [h'.bytes a (by omega), h.bytes a ha]
  · rw [h'.rights k (by omega), h.rights k hk]
  · rcases List.mem_cons.mp hph with rfl | hph
    · exact (h.segment _ (List.mem_singleton_self _)).later h'.le h'.bytes h'.rights
    · exact h'.segment ph' hph
  · have hfirst : Outside [ph] a := fun ph' hph => by
      rw [List.mem_singleton.mp hph]
      exact hout ph List.mem_cons_self
    by_cases hlt : a / 4096 < pagesUp m'.sz
    · rw [h'.bytes a hlt, h.rest a h1 hlt hfirst]
    · exact h'.rest a (not_lt.mp hlt) h2 fun ph' hph => hout ph' (List.mem_cons_of_mem _ hph)

lemma withSegments_le (n : ℕ) (off : UInt32) (h : withSegments f n off m = some m') :
    m.sz ≤ m'.sz := by
  induction n generalizing off m with
  | zero =>
    cases h
    exact UInt64.le_refl _
  | succ n ih =>
    rw [withSegments] at h
    split at h
    · cases h
    split at h
    · exact ih _ h
    obtain ⟨m1, h1, h2⟩ := Option.bind_eq_some_iff.mp h
    refine UInt64.le_trans ?_ (ih _ h2)
    obtain ⟨-, -, -, hm1⟩ := withSegment_some h1
    rw [congrArg Image.sz hm1, store_sz]
    exact extend_le _ _ _

lemma has_of_readi {off n : UInt32} (h : ¬readi f off n ≠ n) : Has f off n :=
  (toNat_readi f off n).2.mp (not_not.mp h)

/-- **Loading** leaves what the headers describe. -/
theorem withSegments_spec (n : ℕ) (off : UInt32) (h : withSegments f n off m = some m')
    (hasc : Ascending (pagesUp m.sz) (loads f n off)) (hsmall : pagesUp m'.sz ≤ FRAMES) :
    InFile f n off ∧ Segments f m m' (loads f n off) := by
  induction n generalizing off m with
  | zero =>
    cases h
    refine ⟨trivial, UInt64.le_refl _, rfl, fun _ _ => rfl, fun _ _ => rfl,
      fun _ hph => absurd hph List.not_mem_nil, fun a h1 h2 => absurd h2 (not_lt.mpr h1)⟩
  | succ n ih =>
    rw [loads] at hasc ⊢
    rw [withSegments] at h
    split at h
    · cases h
    rename_i hread
    split at h
    · rename_i htype
      rw [if_pos htype] at hasc ⊢
      obtain ⟨hin, hs⟩ := ih _ h hasc
      exact ⟨⟨has_of_readi hread, hin⟩, hs⟩
    rename_i htype
    rw [if_neg htype] at hasc ⊢
    obtain ⟨m1, h1, h2⟩ := Option.bind_eq_some_iff.mp h
    obtain ⟨hk, hrest⟩ := hasc
    have hbound : (proghdr f off.toNat).vaddr.toNat + (proghdr f off.toNat).memsz.toNat <
        2 ^ 32 := by
      have hle : m1.sz.toNat ≤ m'.sz.toNat := withSegments_le n _ h2
      have hend := (withSegment_sz h1 hk).2
      unfold pagesUp FRAMES at hsmall
      omega
    have hsz := (withSegment_sz h1 hk).2
    have hup : pagesUp m1.sz =
        ((proghdr f off.toNat).vaddr.toNat + (proghdr f off.toNat).memsz.toNat + 4095) / 4096 := by
      unfold pagesUp
      rw [hsz]
    rw [← hup] at hrest
    obtain ⟨hin, hs⟩ := ih _ h2 hrest
    exact ⟨⟨has_of_readi hread, hin⟩, (withSegment_spec h1 hk hbound).cons hs⟩

/-! ### Programs that are started -/

variable {NPROC : ℕ} {s s' : State NPROC} {i : Fin NPROC} {im : Image} {x : Answer}

/-- What `exec` comes to, where the process finds `im`: the new program, or what was there before. -/
lemma exec_call (trampoline : UInt64) (argv : Argv) (h : Inv s) (hi : machine s i = some im) :
    ∃ x s', call trampoline (.exec i f argv) s = .ok s' x ∧
      (s'.ram.failed = s.ram.failed → Small f im.regs ∧
        (machine s', x) = alone (machine s) i (idealExec f argv)) ∧
      (s'.ram.failed ≠ s.ram.failed → x.ret = -1 ∧ machine s' = machine s) := by
  have hspec : wp (fun _ => False) (call trampoline (.exec i f argv))
      (fun x s' => Inv s' ∧ Step s s' (.exec i f argv) x) s := step_of_call h _
  obtain ⟨t, ht, rfl⟩ : ∃ t, s.procs i = some t ∧ image s.ram t = im := by
    cases ht : s.procs i with
    | none =>
      rw [machine_none ht] at hi
      cases hi
    | some t =>
      rw [machine_some ht, Option.some.injEq] at hi
      exact ⟨t, rfl, hi⟩
  have hkexec : wp (fun _ => False) (kexec trampoline f argv t) (fun r ram =>
      Execed s.ram ram t (execImage f argv (image s.ram t).regs) argv.args.length r ∧
        (ram.failed = s.ram.failed → Small f (image s.ram t).regs)) s.ram :=
    kexec_spec trampoline argv (h.good i t ht) (h.alone ht)
  have hsmall : wp (fun _ => False) (call trampoline (.exec i f argv)) (fun _ s' =>
      s'.ram.failed = s.ram.failed → Small f (image s.ram t).regs) s := by
    cases hk : kexec trampoline f argv t s.ram with
    | panic msg => exact (hkexec.panic hk).elim
    | ok ram r =>
      obtain ⟨g, hg⟩ : ∃ g : Task → Eff Ram (Answer × Option Task), g = fun t =>
          kexec trampoline f argv t >>= fun r => pure (⟨r.1, []⟩, some r.2) := ⟨_, rfl⟩
      have hcall : call trampoline (.exec i f argv) s = within i g s := by
        rw [hg]
        rfl
      have hf : g t s.ram = .ok ram (⟨r.1, []⟩, some r.2) := by
        rw [hg]
        exact bind_ok hk
      have hrun := hcall.trans (within_ok ht hf)
      exact wp_of_ok hrun (hkexec.ok hk).2
  cases hx : call trampoline (.exec i f argv) s with
  | panic msg => exact (hspec.panic hx).elim
  | ok s' x =>
    obtain ⟨-, hstep⟩ := hspec.ok hx
    refine ⟨x, s', rfl, fun hsame => ⟨hsmall.ok hx hsame, ?_⟩, fun hne => ?_⟩
    · obtain ⟨-, he | hwild⟩ | ⟨hfail, -⟩ := hstep.result
      · exact he
      · exact absurd trivial hwild.1
      · omega
    · obtain ⟨hsame, -⟩ | ⟨-, hret, hshort⟩ := hstep.result
      · exact absurd hsame hne
      · exact ⟨hret, hshort⟩

lemma small_TRAPFRAME (h : pagesUp m.sz ≤ FRAMES) : m.sz ≤ TRAPFRAME := by
  refine le_TRAPFRAME.mpr (h.trans ?_)
  rw [USER_eq]
  unfold FRAMES
  omega

/-- Where a program starts: at its entry, with `sp` in the registers for the stack and for `argv`. -/
def Starts (f : File) (regs : Fin 36 → UInt64) (m : Image) (sp : UInt64) : Prop :=
  m.regs = started regs (elfhdr f).entry sp

/-- A program of six bytes of code, in ten of memory. -/
def tiny : File where
  size := 126
  data := fun k => (([0x7F, 0x45, 0x4C, 0x46] : List UInt8) ++ List.replicate 20 0 ++ [2] ++ List.replicate 7 0 ++
    [64] ++ List.replicate 23 0 ++ [1] ++ List.replicate 7 0 ++ [1, 0, 0, 0, 5, 0, 0, 0, 120] ++
    List.replicate 23 0 ++ [6] ++ List.replicate 7 0 ++ [10] ++ List.replicate 15 0 ++
    [0x13, 0x05, 0x00, 0x00, 0x82, 0x80]).getD k 0

/-- `"hi"` and `"a"`. -/
def words : Argv := ⟨[[104, 105], [97]], by decide, by decide, by decide⟩

/-- A process that has just been made. -/
lemma started_room : ∃ (s : State 2) (im : Image), Inv s ∧ machine s 0 = some im := by
  obtain ⟨as, s, hrun, hinv, -⟩ := run_inv 0x80000000 (inv_boot pool_roomy) [(.start : Op 2)]
  have hs : after (calls (call 0x80000000) [.start]) (boot roomy : State 2) = s := by
    rw [after, hrun]
  have hsome : ((after (calls (call 0x80000000) [.start])
    (boot roomy : State 2)).procs 0).isSome := by decide +kernel
  obtain ⟨t, ht⟩ := Option.isSome_iff_exists.mp hsome
  rw [hs] at ht
  exact ⟨s, image s.ram t, hinv, machine_some ht⟩

/-- **Arguments arrive**: the program that `exec` starts finds all its arguments. Where memory
suffices and the file can be loaded, it starts if and only if they fit in a page, and otherwise the
process goes on as it was. -/
theorem exec_arguments (trampoline : UInt64) (argv : Argv) (h : Inv s) (hi : machine s i = some im) :
    ∃ x s', call trampoline (.exec i f argv) s = .ok s' x ∧
      (x.ret = -1 ∧ machine s' = machine s ∨ x.ret = argv.args.length ∧ ∃ m sp ptrs bot,
        machine s' i = some m ∧ Arguments m argv.args sp ptrs bot ∧ Starts f im.regs m sp) ∧
      (s'.ram.failed = s.ram.failed → (loaded f im.regs).isSome →
        (x.ret = argv.args.length ↔ needs argv.args ≤ 4096)) := by
  obtain ⟨x, s', hrun, hsame, hfail⟩ := exec_call trampoline (f := f) argv h hi
  refine ⟨x, s', hrun, ?_⟩
  by_cases hmem : s'.ram.failed = s.ram.failed
  swap
  · exact ⟨.inl (hfail hmem), fun hm => absurd hm hmem⟩
  obtain ⟨hsmall, hideal⟩ := hsame hmem
  have hnothing : execImage f argv im.regs = none → x.ret = -1 ∧ machine s' = machine s := by
    intro hnone
    rw [alone, hi, Option.elim_some, idealExec, hnone, Option.elim_none, ← hi,
      Function.update_eq_self, Prod.mk.injEq] at hideal
    exact ⟨congrArg Answer.ret hideal.2, hideal.1⟩
  cases hl : loaded f im.regs with
  | none => exact ⟨.inl (hnothing (by rw [execImage, hl, Option.bind_none])), fun _ hs => by cases hs⟩
  | some l =>
    rcases withStack_spec argv (small_TRAPFRAME (hsmall l hl)) with
      ⟨hnone, hneeds⟩ | ⟨m, sp, ptrs, bot, hsome, hneeds, -, -, hargs⟩
    · have hret := hnothing (by rw [execImage, hl, Option.bind_some, hnone, Option.map_none])
      exact ⟨.inl hret, fun _ _ => ⟨fun hp => by rw [hret.1] at hp; omega, fun hle => by omega⟩⟩
    · have him : execImage f argv im.regs =
          some { m with regs := started im.regs (elfhdr f).entry sp } := by
        rw [execImage, hl, Option.bind_some, hsome, Option.map_some]
      rw [alone, hi, Option.elim_some, idealExec, him, Option.elim_some, Prod.mk.injEq] at hideal
      have hret : x.ret = argv.args.length := congrArg Answer.ret hideal.2
      obtain ⟨m', hm'⟩ : ∃ m', m' = { m with regs := started im.regs (elfhdr f).entry sp } :=
        ⟨_, rfl⟩
      rw [← hm'] at hideal
      refine ⟨.inr ⟨hret, m', sp, ptrs, bot, ?_, ?_, ?_⟩, fun _ _ => iff_of_true hret hneeds⟩
      · rw [hideal.1, Function.update_self]
      · rw [hm']
        exact hargs.regs _
      · rw [hm']
        rfl

lemma pagesUp_zero : pagesUp 0 = 0 := rfl

theorem exec_arguments_room : ∃ (s : State 2) (im : Image), machine s 0 = some im ∧
    ∃ x s', call 0x80000000 (.exec 0 tiny words) s = .ok s' x ∧
      (x.ret = -1 ∧ machine s' = machine s ∨ x.ret = words.args.length ∧ ∃ m sp ptrs bot,
        machine s' 0 = some m ∧ Arguments m words.args sp ptrs bot ∧ Starts tiny im.regs m sp) ∧
      (s'.ram.failed = s.ram.failed → (loaded tiny im.regs).isSome →
        (x.ret = words.args.length ↔ needs words.args ≤ 4096)) := by
  obtain ⟨s, im, hinv, hm⟩ := started_room
  exact ⟨s, im, hm, exec_arguments 0x80000000 words hinv hm⟩

/-- The memory of a program that has been loaded: `n` pages, and two for the stack. -/
structure Loaded (f : File) (m : Image) (n : ℕ) : Prop where
  headers : InFile f (elfhdr f).phnum (elfhdr f).phoff.toUInt32
  segment : ∀ ph ∈ loads f (elfhdr f).phnum (elfhdr f).phoff.toUInt32,
    Segment f m ph ∧ ph.vaddr.toNat + ph.memsz.toNat ≤ n * 4096
  rest : ∀ a < n * 4096, Outside (loads f (elfhdr f).phnum (elfhdr f).phoff.toUInt32) a →
    m.bytes a = some 0
  guard : ∀ a, a / 4096 = n → m.bytes a = none
  stack : m.rights (n + 1) = PTE_R ||| PTE_U ||| PTE_W
  sz : m.sz.toNat = (n + 2) * 4096

lemma loaded_of_launched {l : Image} (hs : Segments f ⟨0, fun _ => 0, fun _ => none, im.regs⟩ l
      (loads f (elfhdr f).phnum (elfhdr f).phoff.toUInt32))
    (hin : InFile f (elfhdr f).phnum (elfhdr f).phoff.toUInt32) (hl : Launched l m) :
    Loaded f m (pagesUp l.sz) := by
  have hle : l.sz.toNat ≤ m.sz.toNat := by
    rw [hl.sz]
    unfold pagesUp
    omega
  refine ⟨hin, fun ph hph => ⟨(hs.segment ph hph).later hle hl.bytes hl.rights, ?_⟩,
    fun a ha hout => ?_, hl.guard, hl.page, hl.sz⟩
  · have hend := (hs.segment ph hph).le
    unfold pagesUp
    omega
  · have hlt : a / 4096 < pagesUp l.sz := by omega
    rw [hl.bytes a hlt]
    refine hs.rest a ?_ hlt hout
    change pagesUp 0 ≤ _
    rw [pagesUp_zero]
    exact Nat.zero_le _

/-- **The program arrives**: where `exec` starts a program whose segments are in ascending order and
share no pages, each of them is as its header describes it, and there is nothing else but zeros. -/
theorem exec_segments (trampoline : UInt64) (argv : Argv) (h : Inv s) (hi : machine s i = some im)
    (hasc : Ascending 0 (loads f (elfhdr f).phnum (elfhdr f).phoff.toUInt32)) :
    ∃ x s', call trampoline (.exec i f argv) s = .ok s' x ∧
      (x.ret = -1 ∧ machine s' = machine s ∨ x.ret = argv.args.length ∧ ∃ m n,
        machine s' i = some m ∧ Loaded f m n) := by
  obtain ⟨x, s', hrun, hsame, hfail⟩ := exec_call trampoline (f := f) argv h hi
  refine ⟨x, s', hrun, ?_⟩
  by_cases hmem : s'.ram.failed = s.ram.failed
  swap
  · exact .inl (hfail hmem)
  obtain ⟨hsmall, hideal⟩ := hsame hmem
  cases him : execImage f argv im.regs with
  | none =>
    rw [alone, hi, Option.elim_some, idealExec, him, Option.elim_none, ← hi,
      Function.update_eq_self, Prod.mk.injEq] at hideal
    exact .inl ⟨congrArg Answer.ret hideal.2, hideal.1⟩
  | some m =>
    rw [alone, hi, Option.elim_some, idealExec, him, Option.elim_some, Prod.mk.injEq] at hideal
    obtain ⟨l, hl, hm⟩ := Option.bind_eq_some_iff.mp him
    obtain ⟨r, hr, rfl⟩ := Option.map_eq_some_iff.mp hm
    rcases withStack_spec argv (small_TRAPFRAME (hsmall l hl)) with
      ⟨hnone, -⟩ | ⟨m, sp, ptrs, bot, hsome, -, hlaunched, -, -⟩
    · rw [hnone] at hr
      cases hr
    rw [hsome] at hr
    cases hr
    have hload : withSegments f (elfhdr f).phnum (elfhdr f).phoff.toUInt32
        ⟨0, fun _ => 0, fun _ => none, im.regs⟩ = some l := by
      unfold loaded at hl
      split at hl
      · cases hl
      · exact hl
    rw [← pagesUp_zero] at hasc
    obtain ⟨hin, hs⟩ := withSegments_spec _ _ hload hasc (hsmall l hl)
    obtain ⟨m', hm'⟩ : ∃ m', m' = { m with regs := started im.regs (elfhdr f).entry sp } := ⟨_, rfl⟩
    rw [← hm'] at hideal
    have hb : Launched l m' := by
      rw [hm']
      exact ⟨hlaunched.sz, hlaunched.bytes, hlaunched.rights, hlaunched.guard, hlaunched.page⟩
    refine .inr ⟨congrArg Answer.ret hideal.2, m', pagesUp l.sz, ?_, loaded_of_launched hs hin hb⟩
    rw [hideal.1, Function.update_self]

theorem exec_segments_room : ∃ (s : State 2) (im : Image), machine s 0 = some im ∧
    ∃ x s', call 0x80000000 (.exec 0 tiny words) s = .ok s' x ∧
      (x.ret = -1 ∧ machine s' = machine s ∨ x.ret = words.args.length ∧ ∃ m n,
        machine s' 0 = some m ∧ Loaded tiny m n) := by
  obtain ⟨s, im, hinv, hm⟩ := started_room
  exact ⟨s, im, hm, exec_segments 0x80000000 words hinv hm (by decide)⟩

end Xv6.Vm.Launch
