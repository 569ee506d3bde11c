import Mathlib.Data.List.TakeWhile
import Xv6.Disk.Block

/-!
Path names and directory entries (`fs.c`).

A name is the string in a `char name[DIRSIZ]`: at most `DIRSIZ` bytes, up to the first NUL.
-/

namespace Xv6.Fs.Path

def DIRSIZ : ℕ := 14

/-- The bytes of a path, without the NUL at its end. -/
abbrev Path := List UInt8

abbrev Name := List UInt8

def slash : UInt8 := 47

/-- `while(*path == '/') path++` -/
def skipSlashes (path : Path) : Path := path.dropWhile (· = slash)

/-- The next path element and what follows it. -/
def skipelem (path : Path) : Option (Name × Path) :=
  match skipSlashes path with
  | [] => none
  | c :: s => some (((c :: s).takeWhile (· ≠ slash)).take DIRSIZ,
      skipSlashes ((c :: s).dropWhile (· ≠ slash)))

/-- The string in a field of `DIRSIZ` bytes. -/
def string (field : List UInt8) : Name := (field.take DIRSIZ).takeWhile (· ≠ 0)

/-- `strncpy(de.name, name, DIRSIZ)` -/
def strncpy (name : Name) : List UInt8 :=
  name.take DIRSIZ ++ List.replicate (DIRSIZ - name.length) 0

/-- Of two strings, whose NULs are not written. -/
def strncmp (p q : List UInt8) : ℕ → ℤ
  | 0 => 0
  | n + 1 =>
    if p.headD 0 ≠ 0 ∧ p.headD 0 = q.headD 0 then strncmp p.tail q.tail n
    else (p.headD 0).toNat - (q.headD 0).toNat

def namecmp (s t : Name) : ℤ := strncmp s t DIRSIZ

/-- `sizeof(struct dirent)` -/
def DIRENT : ℕ := 2 + DIRSIZ

structure Dirent where
  /-- A `ushort`. -/
  inum : ℕ
  name : Name

/-- A little-endian number of `k` bytes at offset `o`. -/
def number (bs : List UInt8) (o k : ℕ) : ℕ :=
  (List.range k).foldr (fun i n => (bs.getD (o + i) 0).toNat + 256 * n) 0

def decode (bs : List UInt8) : Dirent := ⟨number bs 0 2, string (bs.drop 2)⟩

def encode (de : Dirent) : List UInt8 :=
  UInt8.ofNat de.inum :: UInt8.ofNat (de.inum / 256) :: strncpy de.name

/-- `"."` -/
def dot : Name := [46]

/-- `".."` -/
def dotdot : Name := [46, 46]

/-! ### Names in entries -/

/-- The string in the first `n` bytes. -/
def field (n : ℕ) (l : List UInt8) : List UInt8 := (l.take n).takeWhile (· ≠ 0)

lemma field_succ (n : ℕ) (l : List UInt8) :
    field (n + 1) l = if l.headD 0 = 0 then [] else l.headD 0 :: field n l.tail := by
  cases l with
  | nil => rfl
  | cons c l =>
    simp only [field, List.take_succ_cons, List.headD_cons, List.tail_cons, List.takeWhile_cons]
    by_cases hc : c = 0
    · simp [hc]
    · simp [hc]

lemma strncmp_eq_zero {n : ℕ} {p q : List UInt8} : strncmp p q n = 0 ↔ field n p = field n q := by
  induction n generalizing p q with
  | zero => simp [strncmp, field]
  | succ n ih =>
    rw [strncmp, field_succ, field_succ]
    generalize p.headD 0 = a
    generalize q.headD 0 = b
    have hnat : (a.toNat : ℤ) - b.toNat = 0 ↔ a = b := by
      rw [sub_eq_zero, Int.ofNat_inj, UInt8.toNat_inj]
    by_cases ha : a = 0
    · rw [if_neg (fun h => h.1 ha), if_pos ha, hnat]
      by_cases hb : b = 0
      · simp [ha, hb]
      · rw [if_neg hb, ha]
        simpa using Ne.symm hb
    · by_cases hab : a = b
      · rw [if_pos ⟨ha, hab⟩, if_neg ha, if_neg (hab ▸ ha), ih, hab]
        simp
      · rw [if_neg (fun h => hab h.2), if_neg ha, hnat]
        refine ⟨fun h => absurd h hab, fun h => ?_⟩
        split_ifs at h
        exact absurd (List.cons.inj h).1 hab

/-- **Names** are equal if their first `DIRSIZ` bytes are. -/
theorem namecmp_eq_zero {s t : Name} : namecmp s t = 0 ↔ string s = string t := strncmp_eq_zero

@[simp] lemma string_string (name : Name) : string (string name) = string name := by
  have hlen : (string name).length ≤ DIRSIZ :=
    (List.takeWhile_prefix _).length_le.trans (List.length_take_le _ _)
  conv_lhs => rw [string, List.take_of_length_le hlen]
  unfold string
  rw [List.takeWhile_idem]

lemma length_strncpy (name : Name) : (strncpy name).length = DIRSIZ := by
  simp only [strncpy, List.length_append, List.length_take, List.length_replicate]
  omega

lemma string_strncpy (name : Name) : string (strncpy name) = string name := by
  unfold string
  rw [List.take_of_length_le (length_strncpy name).le]
  unfold strncpy
  rw [List.takeWhile_append]
  split_ifs with h
  · have hall := (List.takeWhile_prefix (· ≠ (0 : UInt8))).eq_of_length h
    rw [hall]
    cases hk : DIRSIZ - name.length with
    | zero => simp
    | succ k => simp [List.replicate_succ]
  · rfl

lemma length_encode (de : Dirent) : (encode de).length = DIRENT := by
  simp [encode, length_strncpy, DIRENT]
  omega

/-- **What is written** in an entry is read back, the name without what is too long. -/
theorem decode_encode {inum : ℕ} {name : Name} (h : inum < 2 ^ 16) :
    decode (encode ⟨inum, name⟩) = ⟨inum, string name⟩ := by
  have hn : number (encode ⟨inum, name⟩) 0 2 = inum := by
    simp [number, encode, List.range_succ]
    omega
  unfold decode
  rw [hn]
  congr 1
  exact string_strncpy name

/-! ### Path elements -/

lemma skipSlashes_length (path : Path) : (skipSlashes path).length ≤ path.length :=
  (List.dropWhile_suffix _).length_le

lemma skipSlashes_head {path s : Path} {c : UInt8} (h : skipSlashes path = c :: s) : c ≠ slash := by
  unfold skipSlashes at h
  have hhead := List.head_dropWhile_not (· = slash) (by rw [h]; exact List.cons_ne_nil c s)
  simp only [h, List.head_cons] at hhead
  simpa using hhead

lemma skipelem_length {path rest : Path} {name : Name} (h : skipelem path = some (name, rest)) :
    rest.length < path.length := by
  unfold skipelem at h
  split at h
  · cases h
  · rename_i c s hs
    cases h
    have hc : c ≠ slash := skipSlashes_head hs
    have h1 := skipSlashes_length path
    have h2 := skipSlashes_length ((c :: s).dropWhile (· ≠ slash))
    have h3 : ((c :: s).dropWhile (· ≠ slash)).length ≤ s.length := by
      rw [List.dropWhile_cons_of_pos (by simpa using hc)]
      exact (List.dropWhile_suffix _).length_le
    rw [hs, List.length_cons] at h1
    omega

/-- The elements of a path, one after the other. -/
def elements (path : Path) : List Name :=
  match _h : skipelem path with
  | none => []
  | some (name, rest) => name :: elements rest
termination_by path.length
decreasing_by exact skipelem_length _h

lemma elements_none {path : Path} (h : skipelem path = none) : elements path = [] := by
  rw [elements]
  split
  · rfl
  · rename_i h'
    rw [h] at h'
    cases h'

lemma elements_some {path rest : Path} {name : Name} (h : skipelem path = some (name, rest)) :
    elements path = name :: elements rest := by
  conv_lhs => rw [elements]
  split
  · rename_i h'
    rw [h] at h'
    cases h'
  · rename_i h'
    rw [h] at h'
    cases h'
    rfl

/-- The rest of the path is empty if there are no more elements. -/
lemma elements_rest {path rest : Path} {name : Name} (h : skipelem path = some (name, rest)) :
    elements rest = [] ↔ rest = [] := by
  refine ⟨fun he => ?_, fun hr => by subst hr; exact elements_none rfl⟩
  by_contra hne
  obtain ⟨c, r, rfl⟩ := List.exists_cons_of_ne_nil hne
  have hskip : skipSlashes (c :: r) = c :: r := by
    unfold skipelem at h
    split at h
    · cases h
    · obtain ⟨-, h2⟩ := Prod.mk.inj (Option.some.inj h)
      rw [skipSlashes, List.dropWhile_cons_of_neg (by simpa using skipSlashes_head h2)]
  have hsome : ∃ n r', skipelem (c :: r) = some (n, r') := by
    unfold skipelem
    rw [hskip]
    exact ⟨_, _, rfl⟩
  obtain ⟨n, r', hs⟩ := hsome
  rw [elements_some hs] at he
  cases he

/-- The maximal runs of other bytes than slashes. -/
def runs (path : Path) : List Path := (path.splitOn slash).filter (· ≠ [])

lemma runs_skipSlashes (path : Path) : runs (skipSlashes path) = runs path := by
  induction path with
  | nil => rfl
  | cons c s ih =>
    unfold skipSlashes at ih ⊢
    by_cases hc : c = slash
    · subst hc
      rw [List.dropWhile_cons_of_pos (by simp), ih]
      simp [runs, List.splitOn_cons_eq_if_modifyHead]
    · rw [List.dropWhile_cons_of_neg (by simpa using hc)]

/-- The first run and those after it. -/
lemma runs_cons {c : UInt8} {s : Path} (hc : c ≠ slash) : runs (c :: s) =
    (c :: s).takeWhile (· ≠ slash) :: runs ((c :: s).dropWhile (· ≠ slash)) := by
  have hsplit := List.takeWhile_append_dropWhile (p := (· ≠ slash)) (l := c :: s)
  have hw : (c :: s).takeWhile (· ≠ slash) ≠ [] := by
    rw [List.takeWhile_cons_of_pos (by simpa using hc)]
    exact List.cons_ne_nil _ _
  have hin : slash ∉ (c :: s).takeWhile (· ≠ slash) :=
    fun h => by simpa using List.mem_takeWhile_imp h
  cases hr : (c :: s).dropWhile (· ≠ slash) with
  | nil =>
    rw [hr, List.append_nil] at hsplit
    rw [hsplit] at hin ⊢
    simp [runs, List.splitOn_eq_singleton hin]
  | cons d r =>
    have hd : d = slash := by
      have hhead := List.head_dropWhile_not (· ≠ slash) (by rw [hr]; exact List.cons_ne_nil d r)
      simp only [hr, List.head_cons] at hhead
      simpa using hhead
    subst hd
    rw [hr] at hsplit
    have hrun : runs (slash :: r) = runs r := by
      simp [runs, List.splitOn_cons_eq_if_modifyHead]
    rw [hrun]
    conv_lhs => rw [← hsplit]
    rw [runs, List.splitOn_append_cons_self_of_not_mem hin, List.filter_cons_of_pos (by simpa using hw)]
    rfl

/-- **The elements of a path** are its runs, in order, each cut to `DIRSIZ` bytes. -/
theorem elements_eq (path : Path) : elements path = (runs path).map (·.take DIRSIZ) := by
  induction hn : path.length using Nat.strong_induction_on generalizing path with
  | _ n ih =>
    subst hn
    rw [elements]
    split
    · rename_i h
      unfold skipelem at h
      split at h
      · rename_i hs
        rw [← runs_skipSlashes, hs]
        rfl
      · cases h
    · rename_i name rest h
      rw [ih _ (skipelem_length h) rest rfl]
      unfold skipelem at h
      split at h
      · cases h
      · rename_i c s hs
        cases h
        rw [← runs_skipSlashes path, hs, runs_cons (skipSlashes_head hs), runs_skipSlashes]
        rfl

end Xv6.Fs.Path
