import Xv6.Conc.Extend
import Xv6.Data.Tile
import Xv6.Fs.Calls
import Xv6.Fs.Untouched

/-!
Processes that read and write through shared open files: the offset of a file is advanced under
the lock of its inode, so each range of the file goes to one reader or one chunk of a writer.
-/

namespace Xv6.Fs.Offset

open Xv6.Conc Xv6.Conc.Prog Xv6.Conc.Proto Xv6.Data.Effect Xv6.Data.Tile Xv6.Disk Xv6.Fs.Content
  Xv6.Fs.Path Xv6.Fs.Kernel Xv6.Fs.Inode Xv6.Fs.File Xv6.Fs.Untouched

variable {NPROC : ℕ}

/-! ### The system -/

/-- Bytes moved between a file and the memory of a process in one transaction. -/
structure Move (NPROC : ℕ) where
  who : Fin NPROC
  write : Bool
  file : Fin NFILE
  off : ℕ
  len : ℕ
  /-- Where in the memory of the process. -/
  addr : ℕ

inductive Request
  | read (fd : ℤ) (addr : ℕ) (n : ℤ)
  | write (fd : ℤ) (addr : ℕ) (n : ℤ)

def serve : Request → P NPROC ℤ
  | .read fd addr n => sysRead fd addr n
  | .write fd addr n => sysWrite fd addr n

def Request.addr : Request → ℕ
  | .read _ addr _ | .write _ addr _ => addr

def Request.count : Request → ℤ
  | .read _ _ n | .write _ _ n => n

structure Call (NPROC : ℕ) where
  req : Option Request
  moves : List (Move NPROC)

structure History (NPROC : ℕ) where
  /-- The file that a process has looked at last. -/
  cur : Fin NPROC → Option (Fin NFILE)
  moves : List (Move NPROC)
  call : Fin NPROC → Call NPROC

def History.setCall (h : History NPROC) (p : Fin NPROC) (k : Call NPROC) : History NPROC :=
  { h with call := Function.update h.call p k }

/-- The history of the moves through a file. -/
def History.through (h : History NPROC) (f : Fin NFILE) : List (Move NPROC) :=
  h.moves.filter (·.file = f)

/-- Process `p` moves `len` bytes through the file it has looked at. -/
def History.move (h : History NPROC) (p : Fin NPROC) (write : Bool) (off len addr : ℕ) :
    History NPROC :=
  match h.cur p with
  | some f =>
    if len = 0 then h
    else
      let m : Move NPROC := ⟨p, write, f, off, len, addr⟩
      { h.setCall p { h.call p with moves := (h.call p).moves ++ [m] } with moves := h.moves ++ [m] }
  | none => h

def note (p : Fin NPROC) : (a : Act NPROC) → Res a → State NPROC → History NPROC → History NPROC
  | .file f, _, _, h => { h with cur := Function.update h.cur p (some f) }
  | .readi _ (some addr) off _, r, _, h => h.move p false off r.2.length addr
  | .writei _ (.user addr) off _, r, _, h => h.move p true off r.toNat addr
  | _, _, _, h => h

/-- The copies from and to the memory of processes succeed. -/
def Choice.copying (c : Choice) : Choice :=
  { c with mem := fun a => some ((c.mem a).getD 0), writable := fun _ => true }

abbrev Shared (NPROC : ℕ) := State NPROC × History NPROC

/-- A process reads or writes, a number of bytes that is an `int` and not negative. -/
inductive Enter : Fin NPROC → Shared NPROC → P NPROC ℤ → Shared NPROC → P NPROC ℤ → Prop
  | call {p : Fin NPROC} {s : State NPROC} {h : History NPROC} {v : ℤ} (req : Request)
      (hn : 0 ≤ req.count ∧ req.count < 2 ^ 31) :
      Enter p (s, h) (.ret v) (s, h.setCall p ⟨some req, []⟩) (serve req)

/-- The calls of the kernel, with the history. -/
def kernel (NPROC : ℕ) : Sys (State NPROC) (Fin NPROC) Choice (Act NPROC) Res ℤ where
  sem p a c s := sem p a (Choice.copying c) s
  enter _ _ _ _ _ := False

def sharing (NPROC : ℕ) : Sys (Shared NPROC) (Fin NPROC) Choice (Act NPROC) Res ℤ :=
  ((kernel NPROC).observe note).reenter Enter

def start (s : State NPROC) : Pool (Shared NPROC) (Fin NPROC) (Act NPROC) Res ℤ where
  shared := (s, ⟨fun _ => none, [], fun _ => ⟨none, []⟩⟩)
  thread := fun _ => .ret 0

/-- Offsets and sizes are `uint`s, and no inode is locked. -/
structure Ready (s : State NPROC) : Prop where
  off : ∀ f, (s.file f).off < 2 ^ 32
  size : ∀ i, (s.inode i).copy.size < 2 ^ 32
  disk : ∀ inum, (s.store.dinode inum).size < 2 ^ 32
  lock : ∀ i, (s.inode i).lock = none

/-! ### Ghost state -/

structure Ghost (NPROC : ℕ) where
  cur : Option (Fin NFILE)
  /-- The inode that it has locked. -/
  lock : Option (Fin NINODE)
  /-- The offset of the file, while its inode is locked. -/
  seen : Option ℕ
  /-- How far the offset is behind. -/
  owed : ℕ
  call : Call NPROC

/-- What a ghost value says of its process. -/
structure Local (ips : Fin NFILE → Fin NINODE) (s : Shared NPROC) (p : Fin NPROC)
    (g : Ghost NPROC) : Prop where
  cur : s.2.cur p = g.cur
  call : s.2.call p = g.call
  lock : ∀ i, (s.1.inode i).lock = some p ↔ g.lock = some i
  seen : ∀ o, g.seen = some o → ∃ f, g.cur = some f ∧ g.lock = some (ips f) ∧ (s.1.file f).off = o
  owed : 0 < g.owed → ∃ f, g.cur = some f ∧ g.lock = some (ips f)

/-- How far the process leaves the offset of a file behind. -/
def Ghost.behind (g : Ghost NPROC) (f : Fin NFILE) : ℕ := if g.cur = some f then g.owed else 0

/-- The moves through a file, against its offset. -/
structure Through (o : ℕ) (s : Shared NPROC) (γ : Fin NPROC → Ghost NPROC) (f : Fin NFILE)
    (e : ℕ) : Prop where
  tiles : Tiles Move.off Move.len o (s.2.through f) e
  small : e < 2 ^ 32
  even : (∀ p, (γ p).behind f = 0) → (s.1.file f).off = e
  behind : ∀ p, 0 < (γ p).behind f → (s.1.file f).off + (γ p).behind f = e

structure Inv (s₀ : State NPROC) (s : Shared NPROC) (γ : Fin NPROC → Ghost NPROC) : Prop where
  each : ∀ p, Local (fun f => (s₀.file f).ip) s p (γ p)
  ip : ∀ f, (s.1.file f).ip = (s₀.file f).ip
  type : ∀ f, (s.1.file f).type = (s₀.file f).type
  size : ∀ i, (s.1.inode i).copy.size < 2 ^ 32
  disk : ∀ inum, (s.1.store.dinode inum).size < 2 ^ 32
  through : ∀ f, ∃ e, Through (s₀.file f).off s γ f e
  chunks : ∀ m ∈ s.2.moves, m.write = true → m.len ≤ maxWrite

def proto (s₀ : State NPROC) : Proto (sharing NPROC) where
  Ghost := Ghost NPROC
  Inv := Inv s₀
  May _ _ := True
  Ok _ := True

variable {s₀ : State NPROC} {p q : Fin NPROC} {g : Ghost NPROC}

abbrev Spec (s₀ : State NPROC) (p : Fin NPROC) (a : Act NPROC) (g : Ghost NPROC)
    (Q : Res a → Ghost NPROC → Prop) : Prop := (proto s₀).Spec p a g Q

/-! ### Steps -/

section Steps

variable {s s' : Shared NPROC} {γ : Fin NPROC → Ghost NPROC} {g' : Ghost NPROC} {f : Fin NFILE}
  {e : ℕ}

/-- No two processes have the same inode locked. -/
lemma Inv.lock_inj (hi : Inv s₀ s γ) {i : Fin NINODE} (hp : (γ p).lock = some i)
    (hq : (γ q).lock = some i) : p = q := by
  have h1 := ((hi.each p).lock i).mpr hp
  have h2 := ((hi.each q).lock i).mpr hq
  exact Option.some.inj (h1.symm.trans h2)

/-- A process that is behind with a file has its inode locked. -/
lemma Inv.lock_of_behind (hi : Inv s₀ s γ) (hp : 0 < (γ p).behind f) :
    (γ p).lock = some (s₀.file f).ip := by
  unfold Ghost.behind at hp
  split_ifs at hp with hcur
  · obtain ⟨f', h1, h2⟩ := (hi.each p).owed hp
    cases hcur.symm.trans h1
    exact h2
  · cases hp

/-- What a step of `p` does to the others: nothing to what they have locked or noted. -/
structure Rely (s₀ : State NPROC) (p : Fin NPROC) (g : Ghost NPROC) (s s' : Shared NPROC) :
    Prop where
  cur : ∀ q, q ≠ p → s'.2.cur q = s.2.cur q
  call : ∀ q, q ≠ p → s'.2.call q = s.2.call q
  lock : ∀ q i, q ≠ p → ((s'.1.inode i).lock = some q ↔ (s.1.inode i).lock = some q)
  off : ∀ f, g.lock ≠ some (s₀.file f).ip → (s'.1.file f).off = (s.1.file f).off
  ip : ∀ f, (s'.1.file f).ip = (s.1.file f).ip
  type : ∀ f, (s'.1.file f).type = (s.1.file f).type

lemma Inv.step (hi : Inv s₀ s γ) (hg : γ p = g) (hr : Rely s₀ p g s s')
    (hl : Local (fun f => (s₀.file f).ip) s' p g')
    (hsize : ∀ i, (s'.1.inode i).copy.size < 2 ^ 32)
    (hdisk : ∀ inum, (s'.1.store.dinode inum).size < 2 ^ 32)
    (hthrough : ∀ f, ∃ e, Through (s₀.file f).off s' (Function.update γ p g') f e)
    (hchunks : ∀ m ∈ s'.2.moves, m.write = true → m.len ≤ maxWrite) :
    Inv s₀ s' (Function.update γ p g') := by
  refine ⟨fun q => ?_, fun f => (hr.ip f).trans (hi.ip f), fun f => (hr.type f).trans (hi.type f),
    hsize, hdisk, hthrough, hchunks⟩
  by_cases hq : q = p
  · subst hq
    rw [Function.update_self]
    exact hl
  · rw [Function.update_of_ne hq]
    have hlq := hi.each q
    refine ⟨(hr.cur q hq).trans hlq.cur, (hr.call q hq).trans hlq.call,
      fun i => (hr.lock q i hq).trans (hlq.lock i), fun o ho => ?_, hlq.owed⟩
    obtain ⟨f, h1, h2, h3⟩ := hlq.seen o ho
    refine ⟨f, h1, h2, (hr.off f fun hf => hq ?_).trans h3⟩
    rw [← hg] at hf
    exact hi.lock_inj h2 hf

/-- Where neither the moves nor the offset of a file change, nor how far `p` is behind. -/
lemma Through.keep {o : ℕ} (h : Through o s γ f e) (hg : γ p = g)
    (hmoves : s'.2.through f = s.2.through f) (hoff : (s'.1.file f).off = (s.1.file f).off)
    (hb : g'.behind f = g.behind f) : Through o s' (Function.update γ p g') f e := by
  have hsame : ∀ q, (Function.update γ p g' q).behind f = (γ q).behind f := by
    intro q
    by_cases hq : q = p
    · subst hq
      rw [Function.update_self, hb, hg]
    · rw [Function.update_of_ne hq]
  refine ⟨hmoves ▸ h.tiles, h.small, fun hz => ?_, fun q hq => ?_⟩
  · rw [hoff]
    exact h.even fun q => (hsame q).symm.trans (hz q)
  · rw [hsame] at hq ⊢
    rw [hoff]
    exact h.behind q hq

/-- The actions that touch neither offsets nor locks nor the history. -/
def Still : Act NPROC → Prop
  | .ofile _ | .io | .devsw _ | .inode _ | .panic _ | .holdingsleep _ | .beginOp | .endOp
  | .load _ | .set _ (.valid _) => True
  | _ => False

lemma still_sem {a : Act NPROC} (ha : Still a) {c : Choice} {s s' : State NPROC} {r : Res a}
    (h : sem p a c s = some (.ok s' r)) : s'.file = s.file ∧
      (∀ i, (s'.inode i).lock = (s.inode i).lock) ∧
      (∀ i, (s'.inode i).copy = (s.inode i).copy ∨
        (s'.inode i).copy = s.store.dinode (s.inode i).inum) ∧
      s'.store.dinode = s.store.dinode := by
  have hupd : ∀ (i j : Fin NINODE) (v : Inode NPROC), v.lock = (s.inode i).lock →
      (Function.update s.inode i v j).lock = (s.inode j).lock := by
    intro i j v hv
    by_cases hj : j = i
    · subst hj
      rw [Function.update_self, hv]
    · rw [Function.update_of_ne hj]
  cases a with
  | ofile fd => cases h; exact ⟨rfl, fun _ => rfl, fun _ => .inl rfl, rfl⟩
  | io => cases h; exact ⟨rfl, fun _ => rfl, fun _ => .inl rfl, rfl⟩
  | devsw m => cases h; exact ⟨rfl, fun _ => rfl, fun _ => .inl rfl, rfl⟩
  | inode i => cases h; exact ⟨rfl, fun _ => rfl, fun _ => .inl rfl, rfl⟩
  | panic msg => exact r.elim
  | holdingsleep i => cases h; exact ⟨rfl, fun _ => rfl, fun _ => .inl rfl, rfl⟩
  | beginOp =>
    simp only [sem] at h
    split_ifs at h
    cases h
    exact ⟨rfl, fun _ => rfl, fun _ => .inl rfl, rfl⟩
  | endOp => cases h; exact ⟨rfl, fun _ => rfl, fun _ => .inl rfl, rfl⟩
  | load i =>
    cases h
    refine ⟨rfl, fun j => hupd i j _ rfl, fun j => ?_, rfl⟩
    by_cases hj : j = i
    · subst hj
      exact .inr (by simp [setInode])
    · exact .inl (by simp [setInode, hj])
  | set i fld =>
    cases fld with
    | valid v =>
      cases h
      refine ⟨rfl, fun j => hupd i j _ rfl, fun j => .inl ?_, rfl⟩
      by_cases hj : j = i
      · subst hj
        simp [setInode, Field.write]
      · simp [setInode, hj]
    | _ => exact ha.elim
  | _ => exact ha.elim

lemma note_still {a : Act NPROC} (ha : Still a) {r : Res a} {s : State NPROC} {h : History NPROC} :
    note p a r s h = h := by
  cases a <;> first | rfl | exact ha.elim

lemma sharing_ok {a : Act NPROC} {c : Choice} {r : Res a}
    (h : (sharing NPROC).sem p a c s = some (.ok s' r)) :
    sem p a (Choice.copying c) s.1 = some (.ok s'.1 r) ∧ s'.2 = note p a r s.1 s.2 :=
  observe_ok.mp h

/-- A specification from what the action does to the state and to the history. -/
lemma spec_of {a : Act NPROC} {Q : Res a → Ghost NPROC → Prop}
    (h : ∀ s γ c s' r, Inv s₀ s γ → γ p = g → sem p a (Choice.copying c) s.1 = some (.ok s'.1 r) →
      s'.2 = note p a r s.1 s.2 → ∃ g', Inv s₀ s' (Function.update γ p g') ∧ Q r g') :
    Spec s₀ p a g Q := by
  refine ⟨trivial, fun s γ c hi hg o ho => ?_⟩
  cases o with
  | panic msg => exact trivial
  | ok s' r => exact h s γ c s' r hi hg (sharing_ok ho).1 (sharing_ok ho).2

lemma spec_still {a : Act NPROC} (ha : Still a) : Spec s₀ p a g fun _ g' => g' = g := by
  refine spec_of fun s γ c s' r hi hg hs hn => ⟨g, ?_, rfl⟩
  obtain ⟨hfile, hlock, hcopy, hdisk⟩ := still_sem ha hs
  have hh : s'.2 = s.2 := hn.trans (note_still ha)
  have hl := hi.each p
  rw [hg] at hl
  refine hi.step hg ⟨?_, ?_, ?_, ?_, ?_, ?_⟩ ⟨?_, ?_, ?_, ?_, hl.owed⟩ ?_ ?_ ?_ ?_
  · exact fun q _ => by rw [hh]
  · exact fun q _ => by rw [hh]
  · exact fun q i _ => by rw [hlock]
  · exact fun f _ => by rw [hfile]
  · exact fun f => by rw [hfile]
  · exact fun f => by rw [hfile]
  · rw [hh, hl.cur]
  · rw [hh, hl.call]
  · exact fun i => by rw [hlock, hl.lock]
  · intro o ho
    rw [hfile]
    exact hl.seen o ho
  · intro i
    rcases hcopy i with h | h
    · rw [h]
      exact hi.size i
    · rw [h]
      exact hi.disk _
  · intro inum
    rw [hdisk]
    exact hi.disk inum
  · intro f
    obtain ⟨e, he⟩ := hi.through f
    exact ⟨e, he.keep hg (by rw [hh]) (by rw [hfile]) rfl⟩
  · rw [hh]
    exact hi.chunks

/-- Looking at a file, with its inode locked or not. -/
def Ghost.look (g : Ghost NPROC) (ip : Fin NINODE) (f : Fin NFILE) (v : File) : Ghost NPROC :=
  { g with cur := some f, seen := if g.lock = some ip then some v.off else none }

lemma spec_file (f : Fin NFILE) (ho : g.owed = 0) : Spec s₀ p (.file f) g fun v g' =>
    v.ip = (s₀.file f).ip ∧ v.type = (s₀.file f).type ∧ g' = g.look (s₀.file f).ip f v := by
  refine spec_of fun s γ c s' v hi hg hs hn =>
    ⟨g.look (s₀.file f).ip f v, ?_, ?_, ?_, rfl⟩
  · obtain ⟨s1, h1⟩ := s'
    cases hs
    have hl := hi.each p
    rw [hg] at hl
    have hb : ∀ f', (g.look (s₀.file f).ip f (s.1.file f)).behind f' = g.behind f' := by
      intro f'
      simp [Ghost.look, Ghost.behind, ho]
    refine hi.step hg ⟨?_, ?_, fun _ _ _ => Iff.rfl, fun _ _ => rfl, fun _ => rfl, fun _ => rfl⟩
      ⟨?_, ?_, hl.lock, ?_, ?_⟩ hi.size hi.disk ?_ ?_
    · intro q hq
      rw [hn]
      simp [note, hq]
    · intro q hq
      rw [hn]
      rfl
    · rw [hn]
      simp [note, Ghost.look]
    · rw [hn]
      exact hl.call
    · intro o hseen
      simp only [Ghost.look] at hseen ⊢
      split_ifs at hseen with hlock
      cases hseen
      exact ⟨f, rfl, hlock, rfl⟩
    · intro hpos
      simp only [Ghost.look] at hpos
      omega
    · intro f'
      obtain ⟨e, he⟩ := hi.through f'
      exact ⟨e, he.keep hg (by rw [hn]; rfl) rfl (hb f')⟩
    · rw [hn]
      exact hi.chunks
  · have hv : s.1.file f = v := (Outcome.ok.inj (Option.some.inj hs)).2
    rw [← hv]
    exact hi.ip f
  · have hv : s.1.file f = v := (Outcome.ok.inj (Option.some.inj hs)).2
    rw [← hv]
    exact hi.type f

/-- Looking again. -/
lemma spec_file_again {f : Fin NFILE} {o : ℕ} (hc : g.cur = some f) (ho : g.seen = some o) :
    Spec s₀ p (.file f) g fun v g' => v.off = o ∧ g' = g := by
  refine spec_of fun s γ c s' v hi hg hs hn => ⟨g, ?_, ?_, rfl⟩
  · obtain ⟨s1, h1⟩ := s'
    cases hs
    have hl := hi.each p
    rw [hg] at hl
    refine hi.step hg ⟨?_, ?_, fun _ _ _ => Iff.rfl, fun _ _ => rfl, fun _ => rfl, fun _ => rfl⟩
      ⟨?_, ?_, hl.lock, hl.seen, hl.owed⟩ hi.size hi.disk ?_ ?_
    · intro q hq
      rw [hn]
      simp [note, hq]
    · intro q hq
      rw [hn]
      rfl
    · rw [hn]
      simp [note, hc]
    · rw [hn]
      exact hl.call
    · intro f'
      obtain ⟨e, he⟩ := hi.through f'
      exact ⟨e, he.keep hg (by rw [hn]; rfl) rfl rfl⟩
    · rw [hn]
      exact hi.chunks
  · have hv : s.1.file f = v := (Outcome.ok.inj (Option.some.inj hs)).2
    have hl := hi.each p
    rw [hg] at hl
    obtain ⟨f', h1, -, h3⟩ := hl.seen o ho
    cases hc.symm.trans h1
    rw [← hv]
    exact h3

/-! ### Locks -/

lemma spec_acquiresleep (i : Fin NINODE) (hk : g.lock = none) (ho : g.owed = 0) :
    Spec s₀ p (.acquiresleep i) g fun _ g' => g' = { g with lock := some i, seen := none } := by
  refine spec_of fun s γ c s' v hi hg hs hn => ⟨{ g with lock := some i, seen := none }, ?_, rfl⟩
  obtain ⟨s1, h1⟩ := s'
  have hl := hi.each p
  rw [hg] at hl
  simp only [sem] at hs
  split_ifs at hs with hfree
  cases hs
  cases hn
  have hother : ∀ j, ((setInode i { s.1.inode i with lock := some p } s.1).inode j).copy =
      (s.1.inode j).copy := by
    intro j
    by_cases hj : j = i
    · subst hj
      simp [setInode]
    · simp [setInode, hj]
  refine hi.step hg ⟨fun _ _ => rfl, fun _ _ => rfl, ?_, fun _ _ => rfl, fun _ => rfl, fun _ => rfl⟩
    ⟨hl.cur, hl.call, ?_, ?_, ?_⟩ ?_ hi.disk ?_ hi.chunks
  · intro q j hq
    by_cases hj : j = i
    · subst hj
      simp only [setInode, Function.update_self]
      constructor
      · intro h
        exact absurd (Option.some.inj h).symm hq
      · intro h
        exact absurd (by rw [h]; simp) hfree
    · simp [setInode, hj]
  · intro j
    by_cases hj : j = i
    · subst hj
      simp [setInode]
    · simp only [setInode, Function.update_of_ne hj]
      rw [hl.lock j, hk]
      simp [Ne.symm hj]
  · intro o h
    cases h
  · intro h
    exact absurd h (by simp [ho])
  · intro j
    rw [hother]
    exact hi.size j
  · intro f
    obtain ⟨e, he⟩ := hi.through f
    exact ⟨e, he.keep hg rfl rfl rfl⟩

lemma spec_releasesleep {i : Fin NINODE} (hk : g.lock = some i) (ho : g.owed = 0) :
    Spec s₀ p (.releasesleep i) g fun _ g' => g' = { g with lock := none, seen := none } := by
  refine spec_of fun s γ c s' v hi hg hs hn => ⟨{ g with lock := none, seen := none }, ?_, rfl⟩
  obtain ⟨s1, h1⟩ := s'
  have hl := hi.each p
  rw [hg] at hl
  cases hs
  cases hn
  have hmine := (hl.lock i).mpr hk
  refine hi.step hg ⟨fun _ _ => rfl, fun _ _ => rfl, ?_, fun _ _ => rfl, fun _ => rfl, fun _ => rfl⟩
    ⟨hl.cur, hl.call, ?_, ?_, ?_⟩ ?_ hi.disk ?_ hi.chunks
  · intro q j hq
    by_cases hj : j = i
    · subst hj
      simp only [Function.update_self]
      constructor
      · intro h
        cases h
      · intro h
        exact absurd (Option.some.inj (h.symm.trans hmine)) hq
    · simp [hj]
  · intro j
    by_cases hj : j = i
    · subst hj
      simp
    · simp only [Function.update_of_ne hj]
      rw [hl.lock j, hk]
      simp [Ne.symm hj]
  · intro o h
    cases h
  · intro h
    exact absurd h (by simp [ho])
  · intro j
    by_cases hj : j = i
    · subst hj
      simpa [setInode] using hi.size j
    · simpa [setInode, hj] using hi.size j
  · intro f
    obtain ⟨e, he⟩ := hi.through f
    exact ⟨e, he.keep hg rfl rfl rfl⟩

/-! ### Moves -/

/-- Moving `len` bytes through the file `f`, at offset `off`. -/
def Ghost.move (g : Ghost NPROC) (p : Fin NPROC) (write : Bool) (f : Fin NFILE)
    (off len addr : ℕ) : Ghost NPROC :=
  if len = 0 then g
  else { g with
    owed := len
    call := { g.call with moves := g.call.moves ++ [⟨p, write, f, off, len, addr⟩] } }

/-- What a move makes of the invariant: the range goes on where the last one ended. -/
lemma Inv.move (hi : Inv s₀ s γ) (hg : γ p = g) {f : Fin NFILE} {o len addr : ℕ} {write : Bool}
    (hc : g.cur = some f) (hk : g.lock = some (s₀.file f).ip) (ho : g.seen = some o)
    (hz : g.owed = 0) (hlen : 0 < len → o + len < 2 ^ 32) (hmax : write = true → len ≤ maxWrite)
    (hh : s'.2 = s.2.move p write o len addr) (hfile : s'.1.file = s.1.file)
    (hlock : ∀ i, (s'.1.inode i).lock = (s.1.inode i).lock)
    (hsize : ∀ i, (s'.1.inode i).copy.size < 2 ^ 32)
    (hdisk : ∀ inum, (s'.1.store.dinode inum).size < 2 ^ 32) :
    Inv s₀ s' (Function.update γ p (g.move p write f o len addr)) := by
  have hl := hi.each p
  rw [hg] at hl
  have hcur : s.2.cur p = some f := hl.cur.trans hc
  obtain ⟨f', h1, -, hoff⟩ := hl.seen o ho
  cases hc.symm.trans h1
  have hmove : s.2.move p write o len addr = if len = 0 then s.2 else
      { s.2.setCall p { s.2.call p with moves := (s.2.call p).moves ++ [⟨p, write, f, o, len, addr⟩] }
        with moves := s.2.moves ++ [⟨p, write, f, o, len, addr⟩] } := by
    simp only [History.move, hcur]
  rw [hmove] at hh
  by_cases hpos : len = 0
  · rw [if_pos hpos] at hh
    simp only [Ghost.move, if_pos hpos]
    refine hi.step hg ⟨?_, ?_, ?_, ?_, ?_, ?_⟩ ⟨?_, ?_, ?_, ?_, hl.owed⟩ hsize hdisk ?_ ?_
    · exact fun q _ => by rw [hh]
    · exact fun q _ => by rw [hh]
    · exact fun q i _ => by rw [hlock]
    · exact fun f' _ => by rw [hfile]
    · exact fun f' => by rw [hfile]
    · exact fun f' => by rw [hfile]
    · rw [hh, hl.cur]
    · rw [hh, hl.call]
    · exact fun i => by rw [hlock, hl.lock]
    · intro o' ho'
      rw [hfile]
      exact hl.seen o' ho'
    · intro f'
      obtain ⟨e, he⟩ := hi.through f'
      exact ⟨e, he.keep hg (by rw [hh]) (by rw [hfile]) rfl⟩
    · rw [hh]
      exact hi.chunks
  · rw [if_neg hpos] at hh
    simp only [Ghost.move, if_neg hpos]
    refine hi.step hg ⟨?_, ?_, ?_, ?_, ?_, ?_⟩ ⟨?_, ?_, ?_, ?_, ?_⟩ hsize hdisk ?_ ?_
    · exact fun q _ => by rw [hh]; rfl
    · intro q hq
      rw [hh]
      simp [History.setCall, hq]
    · exact fun q i _ => by rw [hlock]
    · exact fun f' _ => by rw [hfile]
    · exact fun f' => by rw [hfile]
    · exact fun f' => by rw [hfile]
    · rw [hh]
      exact hl.cur
    · rw [hh]
      simp [History.setCall, hl.call]
    · exact fun i => by rw [hlock, hl.lock]
    · intro o' ho'
      rw [hfile]
      exact hl.seen o' ho'
    · exact fun _ => ⟨f, hc, hk⟩
    · intro f'
      obtain ⟨e, he⟩ := hi.through f'
      by_cases hf : f' = f
      · subst hf
        -- nobody is behind, since the others do not have the inode locked
        have hnone : ∀ q, (γ q).behind f' = 0 := by
          intro q
          by_contra hq
          have hlq := hi.lock_of_behind (Nat.pos_of_ne_zero hq)
          have hqp : q = p := hi.lock_inj hlq (by rw [hg, hk])
          subst hqp
          rw [hg] at hq
          simp [Ghost.behind, hc, hz] at hq
        have hend := he.even hnone
        rw [hoff] at hend
        subst hend
        have hthrough : s'.2.through f' = s.2.through f' ++ [⟨p, write, f', o, len, addr⟩] := by
          rw [hh]
          simp [History.through]
        refine ⟨o + len, ?_, hlen (Nat.pos_of_ne_zero hpos), fun hall => ?_, fun q hq => ?_⟩
        · rw [hthrough]
          exact he.tiles.append rfl
        · have := hall p
          simp only [Function.update_self, Ghost.behind, hc, if_true] at this
          exact absurd this hpos
        · by_cases hqp : q = p
          · subst hqp
            rw [hfile, hoff]
            simp [Ghost.behind, hc]
          · rw [Function.update_of_ne hqp, hnone q] at hq
            cases hq
      · refine ⟨e, he.keep hg ?_ (by rw [hfile]) ?_⟩
        · rw [hh]
          simp [History.through, Ne.symm hf]
        · simp [Ghost.behind, hc, Ne.symm hf]
    · rw [hh]
      intro m hm
      rcases List.mem_append.mp hm with hm | hm
      · exact hi.chunks m hm
      · rw [List.mem_singleton.mp hm]
        exact hmax

/-- What is put back into an entry of the inode table. -/
lemma onInode_ok {α : Type} {i : Fin NINODE} {x : Eff Store (Dinode × α)} {s s' : State NPROC}
    {a : α} (h : onInode i x s = .ok s' a) : ∃ st d, x s.store = .ok st (d, a) ∧
      s' = setInode i { s.inode i with copy := d } { s with store := st } := by
  unfold onInode at h
  split at h
  · rename_i st d a' hx
    cases h
    exact ⟨st, d, hx, rfl⟩
  · cases h

lemma spec_readi {f : Fin NFILE} {o n addr : ℕ} (hc : g.cur = some f)
    (hk : g.lock = some (s₀.file f).ip) (ho : g.seen = some o) (hz : g.owed = 0) :
    Spec s₀ p (.readi (s₀.file f).ip (some addr) o n) g fun r g' => ∃ len ≤ n, r.1 = len ∧
      g' = g.move p false f o len addr := by
  refine spec_of fun s γ c s' r hi hg hs hn => ?_
  obtain ⟨s1, h1⟩ := s'
  simp only [sem, Option.some.injEq] at hs
  obtain ⟨st, d, hx, rfl⟩ := onInode_ok hs
  obtain ⟨r, bs⟩ := r
  have hread : Eff.wp Any (readi (s.1.inode (s₀.file f).ip).copy
      (fun k => (Choice.copying c).writable (addr + k)) o n) (fun x s' =>
        SameButAddrs (s.1.inode (s₀.file f).ip).copy x.1 ∧ Frame s.1.store s' ∧
        ((x.2.1 = -1 ∧ ∃ i, (Choice.copying c).writable (addr + i) = false) ∨
          x.2.1 = x.2.2.length ∧ x.2.2.length ≤ n ∧
          (0 < x.2.2.length → o + x.2.2.length ≤ (s.1.inode (s₀.file f).ip).copy.size)))
      s.1.store := readi_frame
  have hpost : Eff.wp Any (Kernel.read (s.1.inode (s₀.file f).ip).copy
      (fun k => (Choice.copying c).writable (addr + k)) o n) (fun x s' =>
        SameButAddrs (s.1.inode (s₀.file f).ip).copy x.1 ∧ Frame s.1.store s' ∧
        ((x.2.1 = -1 ∧ ∃ i, (Choice.copying c).writable (addr + i) = false) ∨
          x.2.1 = x.2.2.length ∧ x.2.2.length ≤ n ∧
          (0 < x.2.2.length → o + x.2.2.length ≤ (s.1.inode (s₀.file f).ip).copy.size)))
      s.1.store := Eff.wp_call hread fun _ _ h => h
  obtain ⟨hd, hframe, hr⟩ := hpost.ok hx
  -- the copies succeed
  have hr' := hr.resolve_left fun ⟨_, i, hi⟩ => by cases hi
  obtain ⟨hr1, hr2, hr3⟩ := hr'
  have hlen : 0 < bs.length → o + bs.length < 2 ^ 32 := fun hpos =>
    lt_of_le_of_lt (hr3 hpos) (hi.size (s₀.file f).ip)
  refine ⟨_, hi.move hg hc hk ho hz hlen (fun h => absurd h (by simp)) hn rfl ?_ ?_ ?_,
    bs.length, hr2, hr1, rfl⟩
  · intro j
    by_cases hj : j = (s₀.file f).ip
    · subst hj
      simp [setInode]
    · simp [setInode, hj]
  · intro j
    by_cases hj : j = (s₀.file f).ip
    · subst hj
      have := hi.size (s₀.file f).ip
      simp only [setInode, Function.update_self]
      rw [hd.size]
      exact this
    · simpa [setInode, hj] using hi.size j
  · intro inum
    change (st.dinode inum).size < _
    rw [hframe.dinode]
    exact hi.disk inum

lemma spec_writei {f : Fin NFILE} {o n addr : ℕ} (hc : g.cur = some f)
    (hk : g.lock = some (s₀.file f).ip) (ho : g.seen = some o) (hz : g.owed = 0)
    (hn : n ≤ maxWrite) :
    Spec s₀ p (.writei (s₀.file f).ip (.user addr) o n) g fun r g' =>
      ∃ len ≤ n, (r = len ∨ r = -1 ∧ len = 0) ∧ g' = g.move p true f o len addr := by
  refine spec_of fun s γ c s' r hi hg hs hh => ?_
  obtain ⟨s1, h1⟩ := s'
  have hl := hi.each p
  rw [hg] at hl
  obtain ⟨f', hf', -, hoff⟩ := hl.seen o ho
  cases hc.symm.trans hf'
  have hsmall : o < 2 ^ 32 := by
    obtain ⟨e, he⟩ := hi.through f
    have := he.small
    by_cases hall : ∀ q, (γ q).behind f = 0
    · have := he.even hall
      omega
    · push Not at hall
      obtain ⟨q, hq⟩ := hall
      have := he.behind q (Nat.pos_of_ne_zero hq)
      omega
  have hmw : maxWrite < 2 ^ 32 := by decide
  simp only [sem, Option.some.injEq] at hs
  obtain ⟨st, d, hx, rfl⟩ := onInode_ok hs
  have hw : Written (s.1.inode (s₀.file f).ip).inum (s.1.inode (s₀.file f).ip).copy o n s.1.store
      (d, r) st := (writei_frame (by omega) hsmall).ok hx
  have hlock : ∀ j, ((setInode (s₀.file f).ip { s.1.inode (s₀.file f).ip with copy := d }
      { s.1 with store := st }).inode j).lock = (s.1.inode j).lock := by
    intro j
    by_cases hj : j = (s₀.file f).ip
    · subst hj
      simp [setInode]
    · simp [setInode, hj]
  have hsizes : d.size < 2 ^ 32 → ∀ j, ((setInode (s₀.file f).ip
      { s.1.inode (s₀.file f).ip with copy := d } { s.1 with store := st }).inode j).copy.size <
        2 ^ 32 := by
    intro hd j
    by_cases hj : j = (s₀.file f).ip
    · subst hj
      simpa [setInode] using hd
    · simpa [setInode, hj] using hi.size j
  rcases hw with ⟨heq, rfl⟩ | ⟨tot, h1, h2, h3, h4, h5, h6, -, -⟩
  · cases heq
    exact ⟨_, hi.move hg hc hk ho hz (by omega) (fun _ => Nat.zero_le _) hh rfl hlock
      (hsizes (hi.size _)) hi.disk, 0, Nat.zero_le n, .inr ⟨rfl, rfl⟩, rfl⟩
  · simp only at h2 h5 h6
    subst h2
    have hd : d.size < 2 ^ 32 := by
      have hmax : MAXFILE * BSIZE < 2 ^ 32 := by decide
      have := hi.size (s₀.file f).ip
      rw [h5]
      simp only
      omega
    have hmf : MAXFILE * BSIZE < 2 ^ 32 := by decide
    refine ⟨_, hi.move hg hc hk ho hz (by omega) (fun _ => h1.trans hn) (by simpa [note] using hh) rfl
      hlock (hsizes hd) ?_, tot, h1, .inl rfl, rfl⟩
    intro inum
    change (st.dinode inum).size < _
    rw [h6]
    by_cases hin : inum = (s.1.inode (s₀.file f).ip).inum
    · rw [hin, Function.update_self]
      exact hd
    · rw [Function.update_of_ne hin]
      exact hi.disk inum

/-- Bringing the offset up to date. -/
lemma spec_setOff {f : Fin NFILE} {o : ℕ} (hc : g.cur = some f)
    (hk : g.lock = some (s₀.file f).ip) (ho : g.seen = some o) (hpos : 0 < g.owed) :
    Spec s₀ p (.setOff f ((o + g.owed) % 2 ^ 32)) g fun _ g' =>
      g' = { g with seen := none, owed := 0 } := by
  refine spec_of fun s γ c s' v hi hg hs hn => ⟨{ g with seen := none, owed := 0 }, ?_, rfl⟩
  obtain ⟨s1, h1⟩ := s'
  have hl := hi.each p
  rw [hg] at hl
  obtain ⟨f', hf', -, hoff⟩ := hl.seen o ho
  cases hc.symm.trans hf'
  cases hs
  cases hn
  have hbehind : (γ p).behind f = g.owed := by
    rw [hg]
    simp [Ghost.behind, hc]
  refine hi.step hg ⟨fun _ _ => rfl, fun _ _ => rfl, fun _ _ _ => Iff.rfl, ?_, ?_, ?_⟩
    ⟨hl.cur, hl.call, hl.lock, fun _ h => absurd h (by simp), fun h => absurd h (by simp)⟩ hi.size
    hi.disk ?_ hi.chunks
  · intro f' hne
    have hff : f' ≠ f := by
      rintro rfl
      exact hne hk
    simp [hff]
  · intro f'
    by_cases hff : f' = f
    · subst hff
      simp
    · simp [hff]
  · intro f'
    by_cases hff : f' = f
    · subst hff
      simp
    · simp [hff]
  · intro f'
    obtain ⟨e, he⟩ := hi.through f'
    by_cases hff : f' = f
    · subst hff
      have hend := he.behind p (by rw [hbehind]; exact hpos)
      rw [hbehind, hoff] at hend
      refine ⟨e, he.tiles, he.small, fun _ => ?_, fun q hq => ?_⟩
      · simp only [Function.update_self, hend]
        exact Nat.mod_eq_of_lt he.small
      · by_cases hqp : q = p
        · subst hqp
          simp [Ghost.behind] at hq
        · -- only `p` was behind
          rw [Function.update_of_ne hqp] at hq
          have hlq := hi.lock_of_behind hq
          exact absurd (hi.lock_inj hlq (by rw [hg, hk])) hqp
    · refine ⟨e, he.keep hg rfl ?_ ?_⟩
      · simp [hff]
      · simp [Ghost.behind, hc, Ne.symm hff]

end Steps

/-! ### Programs -/

section Programs

variable {α β δ : Type}

abbrev wp (s₀ : State NPROC) (p : Fin NPROC) (x : P NPROC α) (Q : α → Ghost NPROC → Prop)
    (g : Ghost NPROC) : Prop := (proto s₀).wp p x Q g

lemma wp_still {a : Act NPROC} (ha : Still a) {f : Res a → P NPROC δ} {Q : δ → Ghost NPROC → Prop}
    (hf : ∀ r, wp s₀ p (f r) Q g) : wp s₀ p ((perform a).bind f) Q g := by
  refine wp_act (spec_still ha) fun r g' h => ?_
  subst h
  exact hf r

lemma wp_kpanic {msg : String} {Q : α → Ghost NPROC → Prop} : wp s₀ p (kpanic msg) Q g :=
  wp_still (by trivial) fun r => r.elim

lemma wp_whenever {c : Prop} [Decidable c] {x : P NPROC Unit} {Q : Unit → Ghost NPROC → Prop}
    (h : c → wp s₀ p x Q g) (h' : ¬c → Q () g) : wp s₀ p (whenever c x) Q g := by
  unfold whenever
  split_ifs with hc
  · exact h hc
  · exact h' hc

lemma wp_ilock {i : Fin NINODE} (hk : g.lock = none) (ho : g.owed = 0) :
    wp s₀ p (ilock i) (fun _ g' => g' = { g with lock := some i, seen := none }) g := by
  refine wp_still (by trivial) fun v => ?_
  split_ifs with href
  · exact wp_kpanic
  refine wp_act (spec_acquiresleep i hk ho) fun _ g' h => ?_
  subst h
  refine wp_still (by trivial) fun v => ?_
  refine wp_whenever (fun _ => ?_) fun _ => rfl
  refine wp_still (by trivial) fun _ => wp_still (by trivial) fun _ => wp_still (by trivial) fun v => ?_
  exact wp_whenever (fun _ => wp_kpanic) fun _ => rfl

lemma wp_iunlock {i : Fin NINODE} (hk : g.lock = some i) (ho : g.owed = 0) :
    wp s₀ p (iunlock i) (fun _ g' => g' = { g with lock := none, seen := none }) g := by
  refine wp_still (by trivial) fun held => wp_still (by trivial) fun v => ?_
  split_ifs with hbad
  · exact wp_kpanic
  · exact wp_perform (spec_releasesleep hk ho)

/-- The offset is advanced by what has been moved. -/
lemma wp_advance {f : Fin NFILE} {o len : ℕ} {r : ℤ} (hc : g.cur = some f)
    (hk : g.lock = some (s₀.file f).ip) (ho : g.seen = some o) (hr : r = len ∨ r = -1 ∧ len = 0)
    (hown : g.owed = len) :
    wp s₀ p (whenever (r > 0) (advanceOff f r)) (fun _ g' => g'.lock = g.lock ∧ g'.cur = g.cur ∧
      g'.call = g.call ∧ g'.owed = 0) g := by
  refine wp_whenever (fun hpos => ?_) fun hz => ⟨rfl, rfl, rfl, by omega⟩
  have hlen : r.toNat = g.owed := by omega
  refine wp_act (spec_file_again hc ho) fun v g' h => ?_
  obtain ⟨h1, h2⟩ := h
  subst h2
  change wp s₀ p (act (.setOff f ((v.off + r.toNat) % 2 ^ 32))) _ _
  rw [hlen, h1]
  refine wp_perform (Spec.mono (spec_setOff hc hk ho (by omega)) fun _ g' h => ?_)
  subst h
  exact ⟨rfl, rfl, rfl, rfl⟩

/-- What a call has moved when it returns `v`: `total` bytes, one after the other. Where the file
is not a pipe or a device, a call of `read` returns how many, and a call of `write` that returns
how many it was to write has written them all. -/
structure Moved (s₀ : State NPROC) (v : ℤ) (cur : Option (Fin NFILE)) (req : Request)
    (moves : List (Move NPROC)) (total : ℕ) : Prop where
  tiles : Tiles Move.addr Move.len req.addr moves (req.addr + total)
  le : (total : ℤ) ≤ req.count
  read : ∀ f fd addr n, cur = some f → (s₀.file f).type = .inode → req = .read fd addr n →
    0 ≤ v → v = total
  write : ∀ f fd addr n, cur = some f → (s₀.file f).type = .inode → req = .write fd addr n →
    v = n → (total : ℤ) = n

/-- The process is in user space. -/
structure Idle (s₀ : State NPROC) (v : ℤ) (g : Ghost NPROC) : Prop where
  lock : g.lock = none
  owed : g.owed = 0
  moved : ∀ req, g.call.req = some req → ∃ total, Moved s₀ v g.cur req g.call.moves total

/-- A call that has moved nothing, of a file that is not an inode, or that fails. -/
lemma moved_none {v : ℤ} {cur : Option (Fin NFILE)} {req : Request} (hn : 0 ≤ req.count)
    (h : v = -1 ∨ ∀ f, cur = some f → (s₀.file f).type ≠ .inode) : Moved s₀ v cur req [] 0 where
  tiles := rfl
  le := hn
  read f fd addr n hc ht hreq hv := by
    rcases h with h | h
    · omega
    · exact absurd ht (h f hc)
  write f fd addr n hc ht hreq hv := by
    rcases h with h | h
    · rw [hreq] at hn
      change 0 ≤ n at hn
      omega
    · exact absurd ht (h f hc)

lemma idle_none {v : ℤ} {req : Request} (hk : g.lock = none) (ho : g.owed = 0)
    (hreq : g.call = ⟨some req, []⟩) (hn : 0 ≤ req.count)
    (h : v = -1 ∨ ∀ f, g.cur = some f → (s₀.file f).type ≠ .inode) : Idle s₀ v g := by
  refine ⟨hk, ho, fun req' h' => ⟨0, ?_⟩⟩
  rw [hreq] at h' ⊢
  cases h'
  exact moved_none hn h

lemma wp_io {v : File} {f : Fin NFILE} {req : Request} (hk : g.lock = none) (ho : g.owed = 0)
    (hreq : g.call = ⟨some req, []⟩) (hn : 0 ≤ req.count) (hc : g.cur = some f)
    (hv : v.type = (s₀.file f).type) (ht : v.type ≠ .inode) :
    wp s₀ p (act .io) (Idle s₀) g := by
  refine wp_perform (Spec.mono (spec_still (by trivial)) fun r g' h => ?_)
  subst h
  refine idle_none hk ho hreq hn (.inr fun f' hf' => ?_)
  cases hc.symm.trans hf'
  exact hv ▸ ht

lemma wp_fileread {f : Fin NFILE} {fd : ℤ} {addr : ℕ} {n : ℤ} (hk : g.lock = none)
    (ho : g.owed = 0) (hreq : g.call = ⟨some (.read fd addr n), []⟩)
    (hn : 0 ≤ n ∧ n < 2 ^ 31) : wp s₀ p (fileread f addr n) (Idle s₀) g := by
  refine wp_act (spec_file f ho) fun v g' h => ?_
  obtain ⟨hip, htype, h⟩ := h
  subst h
  have hlook : g.look (s₀.file f).ip f v = { g with cur := some f, seen := none } := by
    simp [Ghost.look, hk]
  rw [hlook]
  change wp s₀ p (if v.readable = false then _ else _) _ _
  split_ifs with h1 h2 h3 h4
  · exact idle_none hk ho hreq hn.1 (.inl rfl)
  · exact wp_io hk ho hreq hn.1 rfl htype (by rw [h2]; simp)
  · refine wp_still (by trivial) fun dev => ?_
    split_ifs
    · exact idle_none hk ho hreq hn.1 (.inl rfl)
    · exact wp_io hk ho hreq hn.1 rfl htype (by rw [h3]; simp)
  · refine wp_call (wp_ilock hk ho) fun _ g' h => ?_
    subst h
    refine wp_act (spec_file f ho) fun w g' h => ?_
    obtain ⟨-, -, h⟩ := h
    subst h
    rw [hip]
    refine wp_act (spec_readi rfl rfl (by simp [Ghost.look]) ho) fun r g' h => ?_
    obtain ⟨len, hlen, hr, h⟩ := h
    have hcnt : uint n = n.toNat := by
      simp only [uint]
      omega
    rw [hcnt] at hlen
    have hmoved : Idle s₀ r.1 { g' with lock := none, seen := none, owed := 0 } := by
      subst h
      refine ⟨rfl, rfl, fun req hq => ⟨len, ?_⟩⟩
      unfold Ghost.move at hq ⊢
      by_cases hz : len = 0
      · simp only [if_pos hz, Ghost.look, hreq, Option.some.injEq] at hq ⊢
        subst hq
        exact ⟨by rw [hz]; rfl, by change (len : ℤ) ≤ n; omega, fun _ _ _ _ _ _ _ _ => hr,
          fun _ _ _ _ _ _ h => by cases h⟩
      · simp only [if_neg hz, Ghost.look, hreq, List.nil_append, Option.some.injEq] at hq ⊢
        subst hq
        exact ⟨⟨rfl, rfl⟩, by change (len : ℤ) ≤ n; omega, fun _ _ _ _ _ _ _ _ => hr,
          fun _ _ _ _ _ _ h => by cases h⟩
    have hrest : g'.cur = some f ∧ g'.lock = some (s₀.file f).ip ∧ g'.seen = some w.off ∧
        g'.owed = len := by
      subst h
      unfold Ghost.move
      split_ifs with hz
      · exact ⟨rfl, rfl, by simp [Ghost.look], hz ▸ ho⟩
      · exact ⟨rfl, rfl, by simp [Ghost.look], rfl⟩
    obtain ⟨e1, e2, e3, e4⟩ := hrest
    refine wp_call (wp_advance e1 e2 e3 (.inl hr) e4) fun _ g'' h' => ?_
    obtain ⟨f1, f2, f3, f4⟩ := h'
    refine wp_call (wp_iunlock (f1.trans e2) f4) fun _ g''' h'' => ?_
    subst h''
    exact ⟨rfl, f4, by rw [f2, f3]; exact hmoved.moved⟩
  · exact wp_kpanic

/-- What a call of `write` has done when `i` bytes have been moved. -/
structure Writing (g : Ghost NPROC) (f : Fin NFILE) (req : Request) (i : ℕ) : Prop where
  lock : g.lock = none
  owed : g.owed = 0
  cur : g.cur = some f
  began : g.call.req = some req
  tiles : Tiles Move.addr Move.len req.addr g.call.moves (req.addr + i)

/-- One chunk. -/
lemma wp_writeSome {f : Fin NFILE} {req : Request} {i n1 : ℕ} (hg : Writing g f req i)
    (hn : n1 ≤ maxWrite) :
    wp s₀ p (writeSome f (s₀.file f).ip (req.addr + i) n1) (fun r g' => ∃ len ≤ n1,
      (r = len ∨ r = -1 ∧ len = 0) ∧ Writing g' f req (i + len)) g := by
  refine wp_still (by trivial) fun _ => ?_
  refine wp_call (wp_ilock hg.lock hg.owed) fun _ g' h => ?_
  subst h
  refine wp_act (spec_file f hg.owed) fun w g' h => ?_
  obtain ⟨-, -, h⟩ := h
  subst h
  refine wp_act (spec_writei rfl rfl (by simp [Ghost.look]) hg.owed hn) fun r g' h => ?_
  obtain ⟨len, hlen, hr, h⟩ := h
  have hrest : g'.cur = some f ∧ g'.lock = some (s₀.file f).ip ∧ g'.seen = some w.off ∧
      g'.owed = len ∧ g'.call.req = some req ∧
      Tiles Move.addr Move.len req.addr g'.call.moves (req.addr + (i + len)) := by
    subst h
    unfold Ghost.move
    split_ifs with hz
    · subst hz
      exact ⟨rfl, rfl, by simp [Ghost.look], hg.owed, hg.began, hg.tiles⟩
    · refine ⟨rfl, rfl, by simp [Ghost.look], rfl, hg.began, ?_⟩
      rw [← Nat.add_assoc]
      exact hg.tiles.append rfl
  obtain ⟨e1, e2, e3, e4, e5, e6⟩ := hrest
  refine wp_call (wp_advance e1 e2 e3 hr e4) fun _ g'' h' => ?_
  obtain ⟨f1, f2, f3, f4⟩ := h'
  refine wp_call (wp_iunlock (f1.trans e2) f4) fun _ g''' h'' => ?_
  subst h''
  refine wp_still (by trivial) fun _ => ⟨len, hlen, hr, rfl, f4, f2.trans e1, ?_, ?_⟩
  · rw [f3]
    exact e5
  · rw [f3]
    exact e6

lemma wp_filewrite {f : Fin NFILE} {fd : ℤ} {addr : ℕ} {n : ℤ} (hk : g.lock = none)
    (ho : g.owed = 0) (hreq : g.call = ⟨some (.write fd addr n), []⟩)
    (hn : 0 ≤ n ∧ n < 2 ^ 31) : wp s₀ p (filewrite f addr n) (Idle s₀) g := by
  refine wp_act (spec_file f ho) fun v g' h => ?_
  obtain ⟨hip, htype, h⟩ := h
  subst h
  have hlook : g.look (s₀.file f).ip f v = { g with cur := some f, seen := none } := by
    simp [Ghost.look, hk]
  rw [hlook]
  change wp s₀ p (if v.writable = false then _ else _) _ _
  split_ifs with h1 h2 h3 h4
  · exact idle_none hk ho hreq hn.1 (.inl rfl)
  · exact wp_io hk ho hreq hn.1 rfl htype (by rw [h2]; simp)
  · refine wp_still (by trivial) fun dev => ?_
    split_ifs
    · exact idle_none hk ho hreq hn.1 (.inl rfl)
    · exact wp_io hk ho hreq hn.1 rfl htype (by rw [h3]; simp)
  · refine wp_iterate (fun i g => (i : ℤ) ≤ n ∧ Writing g f (.write fd addr n) i)
      ⟨hn.1, hk, ho, rfl, by rw [hreq], by simp only [hreq]; rfl⟩ fun i g' hg' => ?_
    obtain ⟨hle, hw⟩ := hg'
    have hdone : ∀ v : ℤ, ∀ g total, Writing g f (.write fd addr n) total → (total : ℤ) ≤ n →
        (v = n → (total : ℤ) = n) → Idle s₀ v g := by
      intro v g total hw hle hv
      refine ⟨hw.lock, hw.owed, fun req hq => ⟨total, ?_⟩⟩
      cases hw.began.symm.trans hq
      exact ⟨hw.tiles, hle, fun _ _ _ _ _ _ h => (by cases h), fun _ _ _ _ _ _ h h' => by
        cases h
        exact hv h'⟩
    split_ifs with hlt heq
    · rw [hip]
      refine wp_call (wp_writeSome hw (Nat.min_le_right _ _)) fun r g'' h => ?_
      obtain ⟨len, hlen, hr, hw'⟩ := h
      have hl := Nat.min_le_left (n.toNat - i) maxWrite
      split_ifs with hne
      · exact hdone (-1) g'' _ hw' (by omega) (by omega)
      · have hall : len = min (n.toNat - i) maxWrite := by omega
        rw [hall] at hw'
        exact ⟨by omega, hw'⟩
    · exact hdone n g' i hw hle fun _ => heq
    · exact hdone (-1) g' i hw hle (by omega)
  · exact wp_kpanic

lemma wp_argfd {fd : ℤ} : wp s₀ p (argfd fd) (fun _ g' => g' = g) g := by
  unfold argfd
  split_ifs
  · exact wp_still (by trivial) fun o => rfl
  · exact rfl

lemma wp_serve {req : Request} (hk : g.lock = none) (ho : g.owed = 0)
    (hreq : g.call = ⟨some req, []⟩) (hn : 0 ≤ req.count ∧ req.count < 2 ^ 31) :
    wp s₀ p (serve req) (Idle s₀) g := by
  have hnone : Idle s₀ (-1) g := idle_none hk ho hreq hn.1 (.inl rfl)
  cases req with
  | read fd addr n =>
    refine wp_call wp_argfd fun o g' h => ?_
    subst h
    cases o with
    | none => exact hnone
    | some x => exact wp_fileread hk ho hreq hn
  | write fd addr n =>
    refine wp_call wp_argfd fun o g' h => ?_
    subst h
    cases o with
    | none => exact hnone
    | some x => exact wp_filewrite hk ho hreq hn

end Programs

/-! ### Runs -/

lemma enters : (proto s₀).Enters (T := Fin NPROC) (S := sharing NPROC) fun _ => Idle s₀ := by
  intro p s γ x s' x' hi hw he
  cases he with
  | @call s h v req hn =>
    change Fin NPROC → Ghost NPROC at γ
    change Inv s₀ (s, h) γ at hi
    change Idle s₀ v (γ p) at hw
    refine ⟨{ γ p with call := ⟨some req, []⟩ }, ?_, wp_serve hw.lock hw.owed rfl hn⟩
    have hl := hi.each p
    refine hi.step rfl ⟨fun _ _ => rfl, ?_, fun _ _ _ => Iff.rfl, fun _ _ => rfl, fun _ => rfl,
      fun _ => rfl⟩ ⟨hl.cur, ?_, hl.lock, hl.seen, hl.owed⟩ hi.size hi.disk ?_ hi.chunks
    · intro q hq
      simp [History.setCall, hq]
    · simp [History.setCall]
    · intro f
      obtain ⟨e, he⟩ := hi.through f
      exact ⟨e, he.keep rfl rfl rfl rfl⟩

lemma follows_start (h : Ready s₀) : (proto s₀).Follows (fun _ => Idle s₀) (start s₀) := by
  refine ⟨fun _ => ⟨none, none, none, 0, ⟨none, []⟩⟩, ⟨fun p => ⟨rfl, rfl, fun i => ?_, ?_, ?_⟩,
    fun _ => rfl, fun _ => rfl, h.size, h.disk, fun f => ?_, ?_⟩, fun p => ⟨rfl, rfl, ?_⟩⟩
  · simp [start, h.lock i]
  · intro o ho
    cases ho
  · intro ho
    exact absurd ho (by simp)
  · exact ⟨_, rfl, h.off f, fun _ => rfl, fun p hp => absurd hp (by simp [Ghost.behind])⟩
  · intro m hm
    cases hm
  · intro req hreq
    cases hreq

/-- The moves through a file, in a run that began with the offset `o`. -/
structure Tiled (o : ℕ) (f : Fin NFILE)
    (c : Pool (Shared NPROC) (Fin NPROC) (Act NPROC) Res ℤ) : Prop where
  /-- No range overlaps a later one. -/
  disjoint : (c.shared.2.through f).Pairwise fun m m' => m.off + m.len ≤ m'.off
  /-- Every move starts where the one before it ended. -/
  tiles : ∃ e, Tiles Move.off Move.len o (c.shared.2.through f) e ∧
    ((c.shared.1.inode (c.shared.1.file f).ip).lock = none → e = (c.shared.1.file f).off)
  /-- Each byte that the offset has passed has been moved once. -/
  once : (c.shared.1.inode (c.shared.1.file f).ip).lock = none →
    ∀ k, o ≤ k → k < (c.shared.1.file f).off →
      ∃! i : Fin (c.shared.2.through f).length,
        (c.shared.2.through f)[i].off ≤ k ∧
          k < (c.shared.2.through f)[i].off + (c.shared.2.through f)[i].len
  /-- The chunks of a writer are as large as a transaction. -/
  chunk : ∀ m ∈ c.shared.2.through f, m.write = true → m.len ≤ maxWrite

/-- **Shared offsets lose no update**: whatever processes read and write through the same files,
the ranges they move are laid end to end from the first offset of the file to its last, and a
call has moved what it says. -/
theorem offset_tiles (h : Ready s₀) {c : Pool (Shared NPROC) (Fin NPROC) (Act NPROC) Res ℤ}
    (hr : Reach (sharing NPROC) (start s₀) c) :
    (∀ f, Tiled (s₀.file f).off f c) ∧
      ∀ p v, c.thread p = .ret v → ∀ req, (c.shared.2.call p).req = some req →
        ∃ total, Moved s₀ v (c.shared.2.cur p) req (c.shared.2.call p).moves total := by
  obtain ⟨γ, hi, hret⟩ := follows_ret (follows_reach enters (follows_start h) hr)
  change Fin NPROC → Ghost NPROC at γ
  change Inv s₀ c.shared γ at hi
  refine ⟨fun f => ?_, fun p v ht => ?_⟩
  · obtain ⟨e, he⟩ := hi.through f
    have hend : (c.shared.1.inode (c.shared.1.file f).ip).lock = none →
        (c.shared.1.file f).off = e := by
      intro hfree
      refine he.even fun q => ?_
      by_contra hq
      have hlock := hi.lock_of_behind (Nat.pos_of_ne_zero hq)
      have hheld := ((hi.each q).lock _).mpr hlock
      rw [← hi.ip f, hfree] at hheld
      cases hheld
    refine ⟨he.tiles.pairwise, ⟨e, he.tiles, fun hfree => (hend hfree).symm⟩, fun hfree k h1 h2 => ?_,
      fun m hm => hi.chunks m (List.mem_of_mem_filter hm)⟩
    rw [hend hfree] at h2
    exact he.tiles.cover h1 h2
  · have hidle := hret p v ht
    change Idle s₀ v (γ p) at hidle
    rw [(hi.each p).cur, (hi.each p).call]
    exact hidle.moved

/-! ### A run by hand -/

/-- Two processes share an empty file. -/
def pair : State 2 where
  store := ⟨10, 2, fun b => b.toNat < 5, fun _ => .free, fun _ => zero, 0⟩
  inode := fun _ => ⟨ROOTDEV, ROOTINO, 1, none, true, { Dinode.free with type := T_FILE, nlink := 1 }⟩
  file := fun _ => ⟨.inode, 2, true, true, 0, 0, 0, 0⟩
  pipe := fun _ => none
  proc := fun _ => ⟨.running, fun _ => some ⟨0, by decide⟩, some 0⟩
  lock := fun _ => none
  devsw := fun _ => (false, false)

def plain : Choice := ⟨false, 0, fun _ => some 7, fun _ => true, 0⟩

/-- The first writes two bytes and the second three, at the same time. -/
theorem offset_tiles_pair : ∃ c, Reach (sharing 2) (start pair) c ∧
    ∀ k, k < 5 → ∃! i : Fin (c.shared.2.through ⟨0, by decide⟩).length,
      (c.shared.2.through ⟨0, by decide⟩)[i].off ≤ k ∧
        k < (c.shared.2.through ⟨0, by decide⟩)[i].off + (c.shared.2.through ⟨0, by decide⟩)[i].len := by
  have hready : Ready pair := ⟨fun _ => show 0 < 2 ^ 32 by decide,
    fun _ => show 0 < 2 ^ 32 by decide, fun _ => show 0 < 2 ^ 32 by decide, fun _ => rfl⟩
  let c₁ : Pool (Shared 2) (Fin 2) (Act 2) Res ℤ :=
    ⟨(pair, (start pair).shared.2.setCall 0 ⟨some (.write 3 100 2), []⟩),
      Function.update (fun _ => .ret 0) 0 (serve (.write 3 100 2))⟩
  let c₂ : Pool (Shared 2) (Fin 2) (Act 2) Res ℤ :=
    ⟨(pair, c₁.shared.2.setCall 1 ⟨some (.write 3 200 3), []⟩),
      Function.update c₁.thread 1 (serve (.write 3 200 3))⟩
  have h1 : Step (sharing 2) (start pair) c₁ :=
    .enter 0 (Enter.call (.write 3 100 2) (by decide))
  have h2 : Step (sharing 2) c₁ c₂ := .enter 1 (Enter.call (.write 3 200 3) (by decide))
  obtain ⟨c, hr, hc⟩ := exists_of_schedule (sharing 2)
    (fun c => ((c.shared.1.file ⟨0, by decide⟩).off,
      (c.shared.1.inode (c.shared.1.file ⟨0, by decide⟩).ip).lock))
    c₂ [(0, plain, 8), (1, plain, 5), (0, plain, 8), (1, plain, 11)] (b := (5, none))
    (by decide +kernel)
  have hreach := (Relation.ReflTransGen.single h1).trans ((Relation.ReflTransGen.single h2).trans hr)
  obtain ⟨hoff, hlock⟩ := Prod.mk.inj hc
  refine ⟨c, hreach, fun k hk => ?_⟩
  have ht := (offset_tiles hready hreach).1 ⟨0, by decide⟩
  refine ht.once hlock k (Nat.zero_le k) ?_
  rw [hoff]
  exact hk

end Xv6.Fs.Offset
