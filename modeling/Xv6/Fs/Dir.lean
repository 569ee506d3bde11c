import Xv6.Data.Slots
import Xv6.Fs.Room
import Xv6.Fs.Solo

/-!
A directory as a list of entries, and as a map from names to inode numbers.
-/

namespace Xv6.Fs.Dir

open Xv6.Conc Xv6.Conc.Prog Xv6.Conc.Alone Xv6.Data.Effect Xv6.Data.Effect.Eff Xv6.Data.Slots
  Xv6.Disk Xv6.Fs.Content Xv6.Fs.Path Xv6.Fs.Kernel Xv6.Fs.Inode Xv6.Fs.Untouched Xv6.Fs.Sound Xv6.Fs.Bytes
  Xv6.Fs.Room Xv6.Fs.Solo

variable {NPROC : ℕ} {p : Fin NPROC} {may : String → Prop} {s s' : State NPROC} {dp : Fin NINODE}
  {blk blk' : BlockNo → Block} {d d' : Dinode} {name : Name} {inum k : ℕ}

/-- Entry `k` of a directory. -/
def slot (blk : BlockNo → Block) (d : Dinode) (k : ℕ) : Dirent :=
  decode ((List.range DIRENT).map fun i => content blk d (k * DIRENT + i))

/-- A directory. -/
def slots (blk : BlockNo → Block) (d : Dinode) : List Dirent :=
  (List.range (d.size / DIRENT)).map (slot blk d)

/-- The entry is in use, and for this name. -/
def Dirent.Binds (name : Name) (e : Dirent) : Prop := e.inum ≠ 0 ∧ e.name = string name

instance (name : Name) (e : Dirent) : Decidable (Dirent.Binds name e) :=
  inferInstanceAs (Decidable (_ ∧ _))

lemma string_slot : string (slot blk d k).name = (slot blk d k).name := string_string _

lemma slot_binds : Dirent.Binds name (slot blk d k) ↔
    (slot blk d k).inum ≠ 0 ∧ namecmp name (slot blk d k).name = 0 := by
  rw [namecmp_eq_zero, string_slot, eq_comm (a := string name)]
  rfl

lemma DIRENT_pos : 0 < DIRENT := by decide

/-- An entry is within the directory. -/
lemma slot_le (hk : k < d.size / DIRENT) : k * DIRENT + DIRENT ≤ d.size := by
  have h1 := Nat.div_mul_le_self d.size DIRENT
  have h2 : (k + 1) * DIRENT ≤ d.size / DIRENT * DIRENT := Nat.mul_le_mul_right _ hk
  rw [Nat.succ_mul] at h2
  omega

/-- Reading an entry. -/
lemma readi_slot {st : Store} (hf : FileOk st.block d) (hk : k < d.size / DIRENT) :
    wp Never (Kernel.read d (fun _ => true) (k * DIRENT) DIRENT)
      (fun r st' => st' = st ∧ r.1 = d ∧ r.2.1 = DIRENT ∧ decode r.2.2 = slot st.block d k) st := by
  have hmf : MAXFILE * BSIZE < 2 ^ 32 := by decide
  have hle := slot_le hk
  have hsize := hf.size
  unfold Kernel.read
  refine wp_call (readi_bytes hf (fun _ => rfl) (by omega) (by decide)) fun r st' hr => ?_
  obtain ⟨d', n, bs⟩ := r
  obtain ⟨hst, hd, hn, hbs⟩ := hr
  simp only at hd hn hbs
  subst hst hd
  have hbytes : bs = (List.range DIRENT).map fun i => content st'.block d' (k * DIRENT + i) := by
    rw [hbs, if_pos (by omega), drop_bytes (by omega), ← List.map_take, List.take_range,
      Nat.min_eq_left (by omega)]
  refine ⟨rfl, rfl, ?_, ?_⟩
  · simp only [hn, hbytes, List.length_map, List.length_range]
  · simp only [hbytes]
    rfl

/-- What a directory must be to be searched. -/
structure Searchable (s : State NPROC) (dp : Fin NINODE) : Prop where
  type : (s.inode dp).copy.type = T_DIR
  file : FileOk s.store.block (s.inode dp).copy
  whole : (s.inode dp).copy.size % DIRENT = 0
  lock : s.lock .itable = none

/-- The entries of the directory in table entry `dp`. -/
def dir (s : State NPROC) (dp : Fin NINODE) : List Dirent := slots s.store.block (s.inode dp).copy

lemma runs_readi {α : Type} {Q : α → State NPROC → Prop} {f : ℤ × List UInt8 → P NPROC α}
    (h : Searchable s dp) (hk : k < (s.inode dp).copy.size / DIRENT)
    (hf : ∀ bs, decode bs = slot s.store.block (s.inode dp).copy k →
      Runs may p (f (DIRENT, bs)) s Q) :
    Runs may p (act (.readi dp none (k * DIRENT) DIRENT) >>= f) s Q := by
  refine runs_onInode (a := .readi dp none (k * DIRENT) DIRENT) (fun c => rfl)
    (readi_slot h.file hk) fun d r st ⟨h1, h2, h3, h4⟩ => ?_
  obtain ⟨n, bs⟩ := r
  simp only at h1 h2 h3 h4
  subst h1 h2 h3
  have hself : setInode dp { s.inode dp with copy := (s.inode dp).copy } { s with store := s.store } =
      s := setInode_self
  rw [hself]
  exact hf bs h4

lemma getElem_slots (hk : k < d.size / DIRENT) : (slots blk d)[k]? = some (slot blk d k) := by
  simp [slots, hk]

@[simp] lemma length_slots : (slots blk d).length = d.size / DIRENT := by
  simp [slots]

/-- An offset at which there is an entry. -/
lemma lt_of_offset (hw : d.size % DIRENT = 0) : k * DIRENT < d.size ↔ k < d.size / DIRENT := by
  obtain ⟨m, hm⟩ := Nat.dvd_of_mod_eq_zero hw
  rw [hm, Nat.mul_div_cancel_left m DIRENT_pos, Nat.mul_comm]
  exact Nat.mul_lt_mul_left DIRENT_pos

/-- The first entry for a name. -/
def lookup (es : List Dirent) (name : Name) : Option ℕ := es.findIdx? fun e => Dirent.Binds name e

lemma lookup_eq_none {es : List Dirent} :
    lookup es name = none ↔ ∀ e ∈ es, ¬Dirent.Binds name e := by
  rw [lookup, List.findIdx?_eq_none_iff]
  simp only [decide_eq_false_iff_not]

lemma lookup_eq_some {es : List Dirent} : lookup es name = some k ↔
    ∃ e, es[k]? = some e ∧ Dirent.Binds name e ∧
      ∀ j < k, ∀ e', es[j]? = some e' → ¬Dirent.Binds name e' := by
  rw [lookup, List.findIdx?_eq_some_iff_getElem]
  simp only [decide_eq_true_eq]
  constructor
  · rintro ⟨hk, hb, hmin⟩
    refine ⟨es[k], List.getElem?_eq_getElem hk, hb, fun j hj e' he' => ?_⟩
    obtain ⟨hj', rfl⟩ := List.getElem?_eq_some_iff.mp he'
    exact hmin j hj
  · rintro ⟨e, he, hb, hmin⟩
    obtain ⟨hk, rfl⟩ := List.getElem?_eq_some_iff.mp he
    exact ⟨hk, hb, fun j hj => hmin j hj _ (List.getElem?_eq_getElem _)⟩

/-- **Looking up** a name. -/
theorem dirlookup_runs (h : Searchable s dp) (hm : ∀ msg, TableFull s msg → may msg) :
    Runs may p (dirlookup dp name) s fun r s' =>
      (r = none ∧ s' = s ∧ lookup (dir s dp) name = none) ∨
      ∃ i k e, r = some (i, k * DIRENT) ∧ lookup (dir s dp) name = some k ∧ (dir s dp)[k]? = some e ∧
        Took (s.inode dp).dev e.inum s i s' := by
  unfold dirlookup
  refine runs_act (a := .inode dp) (fun c => rfl) ?_
  rw [if_neg (not_not.mpr h.type)]
  refine Does.iterate (fun off s₁ => s₁ = s ∧ ∃ k, off = k * DIRENT ∧
    k ≤ (s.inode dp).copy.size / DIRENT ∧
    ∀ j < k, ¬Dirent.Binds name (slot s.store.block (s.inode dp).copy j))
    (fun off => (s.inode dp).copy.size - off) (fun off s₁ hinv => ?_)
    ⟨rfl, 0, (Nat.zero_mul _).symm, Nat.zero_le _, fun j hj => absurd hj (Nat.not_lt_zero j)⟩
  obtain ⟨rfl, k, rfl, hk, hnone⟩ := hinv
  have hearlier : ∀ j < k, ∀ e', (dir s₁ dp)[j]? = some e' → ¬Dirent.Binds name e' := by
    intro j hj e' he'
    rw [dir, getElem_slots (by omega)] at he'
    cases he'
    exact hnone j hj
  refine runs_act (a := .inode dp) (fun c => rfl) ?_
  split_ifs with hlt
  · have hk' := (lt_of_offset h.whole).mp hlt
    refine runs_readi h hk' fun bs hbs => ?_
    rw [if_neg (not_not.mpr rfl), hbs]
    simp only [← slot_binds]
    split_ifs with hb
    · refine runs_call (iget_runs h.lock hm) fun i s' ht => .ret
        ⟨fun b' hb' => (by cases hb'), fun r hr => ?_⟩
      cases hr
      have hslot : (dir s₁ dp)[k]? = some _ := getElem_slots hk'
      exact .inr ⟨i, k, _, rfl, lookup_eq_some.mpr ⟨_, hslot, hb, hearlier⟩, hslot, ht⟩
    · refine .ret ⟨fun b' hb' => ?_, fun r hr => (by cases hr)⟩
      cases hb'
      have hpos := DIRENT_pos
      refine ⟨⟨rfl, k + 1, (Nat.succ_mul k DIRENT).symm, hk', fun j hj => ?_⟩, by omega⟩
      obtain hj' | rfl := Nat.lt_succ_iff_lt_or_eq.mp hj
      · exact hnone j hj'
      · exact hb
  · refine .ret ⟨fun b' hb' => (by cases hb'), fun r hr => ?_⟩
    cases hr
    refine .inl ⟨rfl, rfl, lookup_eq_none.mpr fun e he => ?_⟩
    obtain ⟨j, hj⟩ := List.getElem?_of_mem he
    refine hearlier j ?_ e hj
    have hj' := (List.getElem?_eq_some_iff.mp hj).1
    rw [dir, length_slots] at hj'
    have := (not_congr (lt_of_offset h.whole)).mp hlt
    omega

/-- The first free entry, or the end. -/
def vacant (es : List Dirent) : ℕ := es.findIdx fun e => e.inum = 0

/-- **The first free entry** is where `dirlink` writes. -/
theorem emptyEntry_runs (h : Searchable s dp) : Runs may p (emptyEntry dp) s fun r s' =>
    s' = s ∧ r = vacant (dir s dp) * DIRENT := by
  unfold emptyEntry
  refine Does.iterate (fun off s₁ => s₁ = s ∧ ∃ k, off = k * DIRENT ∧
    k ≤ (s.inode dp).copy.size / DIRENT ∧
    ∀ j < k, (slot s.store.block (s.inode dp).copy j).inum ≠ 0)
    (fun off => (s.inode dp).copy.size - off) (fun off s₁ hinv => ?_)
    ⟨rfl, 0, (Nat.zero_mul _).symm, Nat.zero_le _, fun j hj => absurd hj (Nat.not_lt_zero j)⟩
  obtain ⟨rfl, k, rfl, hk, hused⟩ := hinv
  have hearlier : ∀ j (hj : j < (dir s₁ dp).length), j < k → ¬((dir s₁ dp)[j].inum = 0) := by
    intro j hj hjk
    have := hused j hjk
    simpa [dir, slots] using this
  refine runs_act (a := .inode dp) (fun c => rfl) ?_
  split_ifs with hlt
  · have hk' := (lt_of_offset h.whole).mp hlt
    refine runs_readi h hk' fun bs hbs => ?_
    rw [if_neg (not_not.mpr rfl), hbs]
    split_ifs with hz
    · refine .ret ⟨fun b' hb' => (by cases hb'), fun r hr => ?_⟩
      cases hr
      have hlen : k < (dir s₁ dp).length := by rwa [dir, length_slots]
      refine ⟨rfl, congrArg (· * DIRENT) ((List.findIdx_eq hlen).mpr ⟨?_, fun j hj => ?_⟩).symm⟩
      · simpa [dir, slots] using hz
      · exact decide_eq_false (hearlier j (hj.trans hlen) hj)
    · refine .ret ⟨fun b' hb' => ?_, fun r hr => (by cases hr)⟩
      cases hb'
      have hpos := DIRENT_pos
      refine ⟨⟨rfl, k + 1, (Nat.succ_mul k DIRENT).symm, hk', fun j hj => ?_⟩, by omega⟩
      obtain hj' | rfl := Nat.lt_succ_iff_lt_or_eq.mp hj
      · exact hused j hj'
      · exact hz
  · refine .ret ⟨fun b' hb' => (by cases hb'), fun r hr => ?_⟩
    cases hr
    have hlen : (dir s₁ dp).length = k := by
      have := (not_congr (lt_of_offset h.whole)).mp hlt
      rw [dir, length_slots]
      omega
    refine ⟨rfl, congrArg (· * DIRENT) ?_⟩
    rw [vacant, List.findIdx_eq_length_of_false, hlen]
    intro e he
    obtain ⟨j, hj, rfl⟩ := List.getElem_of_mem he
    exact decide_eq_false (hearlier j hj (by omega))

/-! ### Writing an entry -/

variable {nmeta n off : ℕ} {st st' : Store} {src : ℕ → Option UInt8} {bs : List UInt8}

/-- A write within one block is made as a whole or not at all. -/
lemma writei_once (h : Booted st) (hsrc : ∀ i < n, (src i).isSome) (hn : 0 < n)
    (hfit : off % BSIZE + n ≤ BSIZE) (hle : off ≤ d.size) (hmax : off + n ≤ MAXFILE * BSIZE) :
    wp Any (writei inum d src off n) (fun r _ =>
      (r.2 = n ∧ need st.block d (off / BSIZE) ≤ spare st) ∨
        (r.2 = 0 ∧ spare st < need st.block d (off / BSIZE))) st := by
  have hmf : MAXFILE * BSIZE < 2 ^ 32 := by decide
  have hmod : (off + n) % 2 ^ 32 = off + n := Nat.mod_eq_of_lt (by omega)
  have hdiv := Nat.div_mul_le_self off BSIZE
  have hbn : off / BSIZE < MAXFILE := by
    rw [Nat.div_lt_iff_lt_mul BSIZE_pos]
    omega
  have hchunk : chunk n 0 off = n := by
    unfold chunk
    omega
  have hlen : (copyin src 0 n).length = n := by
    obtain ⟨h1, -, h3⟩ := copyin_spec src 0 n
    by_contra hne
    have hsome := hsrc (copyin src 0 n).length (by omega)
    rw [← Nat.zero_add (copyin src 0 n).length, h3 (by omega)] at hsome
    exact absurd hsome Bool.false_ne_true
  obtain ⟨m, rfl⟩ := Nat.exists_eq_succ_of_ne_zero hn.ne'
  unfold writei
  rw [hmod, if_neg (by omega), if_neg (by omega)]
  have hloop : wp Any (writeLoop src (m + 1) (m + 1) d 0 off) (fun r _ =>
      (r.2.1 = m + 1 ∧ need st.block d (off / BSIZE) ≤ spare st) ∨
        (r.2.1 = 0 ∧ spare st < need st.block d (off / BSIZE))) st := by
    rw [writeLoop, if_pos hn]
    refine wp_call (bmap_spare h hbn) fun r st' hr => ?_
    obtain ⟨d', addr⟩ := r
    change wp Any (if addr = 0 then _ else _) _ st'
    rw [wp_ite]
    obtain ⟨h1, h2⟩ | ⟨h1, h2, -⟩ := hr
    · refine ⟨fun hz => absurd hz h1, fun _ => ?_⟩
      have hspare := h2.spare
      rw [wp_bind, wp_change, hchunk, hlen, if_pos rfl, wp_bind]
      refine wp_logWrite trivial ?_
      cases m with
      | zero => exact .inl ⟨rfl, by omega⟩
      | succ m =>
        rw [writeLoop, if_neg (by omega)]
        exact .inl ⟨Nat.zero_add _, by omega⟩
    · exact ⟨fun _ => .inr ⟨rfl, h2⟩, fun hne => absurd h1 hne⟩
  refine wp_call hloop fun r st' hr => ?_
  obtain ⟨d', tot, off'⟩ := r
  change wp Any (iupdate inum _ >>= fun _ => pure (_, (tot : ℤ))) _ st'
  unfold iupdate
  rw [wp_bind, wp_bind, wp_change]
  refine wp_logWrite trivial ?_
  obtain ⟨h1, h2⟩ | ⟨h1, h2⟩ := hr
  · exact .inl ⟨congrArg Nat.cast h1, h2⟩
  · exact .inr ⟨congrArg Nat.cast h1, h2⟩

/-- There is room for entry `k`. -/
def Fits (st : Store) (d : Dinode) (k : ℕ) : Prop :=
  k * DIRENT + DIRENT ≤ MAXFILE * BSIZE ∧ need st.block d (k * DIRENT / BSIZE) ≤ spare st

/-- An entry does not cross the end of a block. -/
lemma entry_fits (k : ℕ) : k * DIRENT % BSIZE + DIRENT ≤ BSIZE := by
  have hb : BSIZE = 64 * DIRENT := by decide
  rw [hb, Nat.mul_mod_mul_right, ← Nat.succ_mul]
  exact Nat.mul_le_mul_right _ (Nat.mod_lt k (by decide))

lemma slot_congr {blk' : BlockNo → Block}
    (h : ∀ i < DIRENT, content blk' d' (k * DIRENT + i) = content blk d (k * DIRENT + i)) :
    slot blk' d' k = slot blk d k := by
  unfold slot
  congr 1
  exact List.map_congr_left fun i hi => h i (List.mem_range.mp hi)

/-- A directory after the write of `bs` to entry `k`: whether it has been written, and what its
entries are then. -/
structure Entered (nmeta inum : ℕ) (st : Store) (d : Dinode) (k : ℕ) (bs : List UInt8) (st' : Store)
    (d' : Dinode) (done : Bool) : Prop where
  intact : Intact nmeta st'
  dinode : st'.dinode = Function.update st.dinode inum d'
  outstanding : st'.outstanding = st.outstanding
  same : d' = { d with addrs := d'.addrs, size := d'.size }
  fits : done = true ↔ Fits st d k
  size : d'.size = if done then max d.size (k * DIRENT + DIRENT) else d.size
  written : done = true → slot st'.block d' k = decode bs
  kept : ∀ j < d.size / DIRENT, (done = true → j ≠ k) → slot st'.block d' j = slot st.block d j

theorem writei_entry (h : Intact nmeta st) (hd : st.dinode inum = d) (ht : d.type ≠ 0)
    (ho : 0 < st.outstanding) (hk : k ≤ d.size / DIRENT)
    (hbs : bs.length = DIRENT) :
    wp Never (writei inum d (fun i => bs[i]?) (k * DIRENT) DIRENT) (fun r st' =>
      Entered nmeta inum st d k bs st' r.1 (r.2 = DIRENT)) st := by
  have hmf : MAXFILE * BSIZE < 2 ^ 32 - DIRENT := by decide
  have hpos := DIRENT_pos
  have hdiv := Nat.div_mul_le_self d.size DIRENT
  have hle : k * DIRENT ≤ d.size := (Nat.mul_le_mul_right _ hk).trans hdiv
  have hfile : FileOk st.block d := hd ▸ h.file inum (hd ▸ ht)
  have hsize := hfile.size
  by_cases hmax : k * DIRENT + DIRENT ≤ MAXFILE * BSIZE
  swap
  · -- the directory is as long as a file can be
    have hmod : (k * DIRENT + DIRENT) % 2 ^ 32 = k * DIRENT + DIRENT := Nat.mod_eq_of_lt (by omega)
    unfold writei
    rw [hmod, if_neg (by omega), if_pos (by omega)]
    have hno : decide ((-1 : ℤ) = DIRENT) = false := by decide
    change Entered nmeta inum st d k bs st d (decide ((-1 : ℤ) = DIRENT))
    rw [hno]
    refine ⟨h, ?_, rfl, rfl, ?_, rfl, fun hf => (by cases hf), fun _ _ _ => rfl⟩
    · rw [← hd, Function.update_eq_self]
    · exact ⟨fun hf => (by cases hf), fun hf => absurd hf.1 hmax⟩
  have hc : CopyOf d (st.dinode inum) := ⟨ht, hd ▸ ht, by rw [hd], by rw [hd]⟩
  have hsrc : ∀ i < DIRENT, (bs[i]?).isSome := fun i hi => by simp [hbs, hi]
  have hframe : wp Any (writei inum d (fun i => bs[i]?) (k * DIRENT) DIRENT)
      (Written inum d (k * DIRENT) DIRENT st) st := writei_frame (by decide) (by omega)
  refine wp_mono (wp_and (writei_changed h hc ho hle hmax) (wp_and
    (writei_intact h hc ho (by decide) (by omega)) (wp_and hframe
    (writei_once (booted_of_held h.held) hsrc hpos (entry_fits k) hle hmax))))
    fun r st' ⟨⟨tot, j, hr, hch⟩, hint, hw, honce⟩ => ?_
  obtain ⟨rfl, -⟩ | ⟨tot', hle', hr', -, hfit, hip, hdn, hout, -⟩ := hw
  · simp only at hr
    omega
  obtain rfl : tot = tot' := by omega
  obtain ⟨rfl, -⟩ := hch.stopped.all hsrc
  have hfits : decide (r.2 = (DIRENT : ℤ)) = true ↔ Fits st d k := by
    rw [decide_eq_true_iff]
    obtain ⟨h1, h2⟩ | ⟨h1, h2⟩ := honce
    · exact ⟨fun _ => ⟨hmax, h2⟩, fun _ => h1⟩
    · refine ⟨fun hbad => ?_, fun hf => absurd hf.2 (by omega)⟩
      rw [h1] at hbad
      exact absurd hbad (by decide)
  have htot : tot = if decide (r.2 = (DIRENT : ℤ)) = true then DIRENT else 0 := by
    rw [hr]
    split_ifs with hdone
    · exact Int.ofNat_inj.mp (of_decide_eq_true hdone)
    · obtain ⟨h1, -⟩ | ⟨h1, -⟩ := honce
      · exact absurd (decide_eq_true (hr.symm.trans h1)) hdone
      · omega
  have hsz : r.1.size = max d.size (k * DIRENT + tot) := by rw [hip]
  refine ⟨hint, hdn, hout, ?_, hfits, ?_, fun hdone => ?_, fun j hj hjk => slot_congr fun i hi => ?_⟩
  · conv_lhs => rw [hip]
    rw [← hsz]
  · rw [hsz, htot]
    split_ifs
    · rfl
    · omega
  · rw [if_pos hdone] at htot
    unfold slot
    congr 1
    refine List.ext_getElem (by simp [hbs]) fun i h1 h2 => ?_
    have hnew := hch.stored.new i (by omega)
    rw [Nat.zero_add, List.getElem?_eq_getElem h2] at hnew
    simpa using (Option.some.inj hnew).symm
  · have hx : j * DIRENT + i < d.size := by
      have := slot_le hj
      omega
    have hblock := Nat.div_mul_le_self (j * DIRENT + i) BSIZE
    refine hch.stored.old _ (hfile.filled _ (by omega)) ?_
    split_ifs at htot with hdone
    · obtain hlt | hgt := Nat.lt_or_gt_of_ne (hjk hdone)
      · have : (j + 1) * DIRENT ≤ k * DIRENT := Nat.mul_le_mul_right _ hlt
        rw [Nat.succ_mul] at this
        omega
      · have : (k + 1) * DIRENT ≤ j * DIRENT := Nat.mul_le_mul_right _ hgt
        rw [Nat.succ_mul] at this
        omega
    · omega

/-- The list of entries after a write. -/
lemma slots_entered {done : Bool} (h : Entered nmeta inum st d k bs st' d' done)
    (hw : d.size % DIRENT = 0) (hk : k ≤ d.size / DIRENT) :
    d'.size % DIRENT = 0 ∧ slots st'.block d' = if done = true then
      (if k < d.size / DIRENT then (slots st.block d).set k (decode bs)
        else slots st.block d ++ [decode bs]) else slots st.block d := by
  have hpos := DIRENT_pos
  have hdm := Nat.div_add_mod' d.size DIRENT
  by_cases hdone : done = true
  swap
  · have hsize : d'.size = d.size := by rw [h.size, if_neg hdone]
    refine ⟨hsize ▸ hw, ?_⟩
    rw [if_neg hdone]
    unfold slots
    rw [hsize]
    exact List.map_congr_left fun j hj => h.kept j (List.mem_range.mp hj) fun hd => absurd hd hdone
  have hsize := h.size
  rw [if_pos hdone] at hsize ⊢
  by_cases hlt : k < d.size / DIRENT
  · have hle := slot_le hlt
    have hsize' : d'.size = d.size := by omega
    refine ⟨hsize' ▸ hw, ?_⟩
    rw [if_pos hlt]
    refine List.ext_getElem (by simp [hsize']) fun j h1 h2 => ?_
    rw [length_slots, hsize'] at h1
    rw [List.getElem_set]
    split_ifs with hj
    · subst hj
      simpa [slots] using h.written hdone
    · simpa [slots] using h.kept j h1 fun _ he => hj he.symm
  · obtain rfl : k = d.size / DIRENT := by omega
    have hsize' : d'.size = (d.size / DIRENT + 1) * DIRENT := by
      rw [Nat.succ_mul]
      omega
    have hdiv : d'.size / DIRENT = d.size / DIRENT + 1 := by
      rw [hsize', Nat.mul_div_cancel _ hpos]
    refine ⟨by rw [hsize', Nat.mul_mod_left], ?_⟩
    rw [if_neg hlt]
    unfold slots
    rw [hdiv, List.range_succ, List.map_append, List.map_singleton, h.written hdone]
    congr 1
    refine List.map_congr_left fun j hj => ?_
    have hj' := List.mem_range.mp hj
    exact h.kept j hj' fun _ => hj'.ne

/-! ### The directory as a map -/

/-- The name and the inode of an entry that is in use. -/
def live (e : Dirent) : Option (Name × ℕ) := if e.inum = 0 then none else some (e.name, e.inum)

/-- The slots of a directory. -/
def table (s : State NPROC) (dp : Fin NINODE) : List (Option (Name × ℕ)) := (dir s dp).map live

/-- Only entries of the inode table that nobody refers to have changed. -/
structure Aside (s s' : State NPROC) : Prop where
  rest : s' = { s with inode := s'.inode }
  inode : ∀ i, s'.inode i = s.inode i ∨ ((s.inode i).ref = 0 ∧ (s'.inode i).ref = 0)

/-- Process `p` has the directory locked, in an operation. -/
structure Ready (nmeta : ℕ) (p : Fin NPROC) (dp : Fin NINODE) (s : State NPROC) : Prop
    extends Searchable s dp where
  held : (s.inode dp).lock = some p
  ref : 0 < (s.inode dp).ref
  intact : Intact nmeta s.store
  copy : s.store.dinode (s.inode dp).inum = (s.inode dp).copy
  op : 0 < s.store.outstanding

lemma Aside.refl (s : State NPROC) : Aside s s := ⟨rfl, fun _ => .inl rfl⟩

lemma Aside.store (h : Aside s s') : s'.store = s.store := by rw [h.rest]

lemma Aside.lock (h : Aside s s') : s'.lock = s.lock := by rw [h.rest]

/-- What is referred to has not changed. -/
lemma Aside.same (h : Aside s s') (hr : (s.inode dp).ref ≠ 0) : s'.inode dp = s.inode dp := by
  obtain h1 | ⟨h1, -⟩ := h.inode dp
  · exact h1
  · exact absurd h1 hr

lemma Aside.ref (h : Aside s s') (i : Fin NINODE) : (s'.inode i).ref = (s.inode i).ref := by
  obtain h1 | ⟨h1, h2⟩ := h.inode i
  · rw [h1]
  · rw [h1, h2]

lemma Aside.full {msg : String} (h : Aside s s') : TableFull s' msg ↔ TableFull s msg := by
  unfold TableFull Full
  simp only [h.ref]

lemma Aside.dir (h : Aside s s') (hr : (s.inode dp).ref ≠ 0) : Dir.dir s' dp = Dir.dir s dp := by
  unfold Dir.dir
  rw [h.same hr, h.store]

lemma Ready.aside (h : Ready nmeta p dp s) (ha : Aside s s') : Ready nmeta p dp s' := by
  have hsame := ha.same h.ref.ne'
  exact
    { type := hsame ▸ h.type
      file := by rw [hsame, ha.store]; exact h.file
      whole := hsame ▸ h.whole
      lock := ha.lock ▸ h.lock
      held := hsame ▸ h.held
      ref := hsame ▸ h.ref
      intact := ha.store ▸ h.intact
      copy := by rw [hsame, ha.store]; exact h.copy
      op := ha.store ▸ h.op }

/-- A reference that has just been taken is given up. -/
lemma put_runs {i : Fin NINODE} {dev : ℕ} {s₁ : State NPROC} (hl : s.lock .itable = none)
    (ht : Took dev inum s i s₁) : Runs may p (iput i) s₁ fun _ s' => Aside s s' := by
  have hl₁ : s₁.lock .itable = none := by
    cases ht with
    | _ => exact hl
  cases ht with
  | hit hr hd hi =>
    refine (iput_runs hl₁ ?_).imp fun _ s' hs => ?_
    · simp only [setInode_inode, if_true]
      omega
    · subst hs
      have hback : ({ s.inode i with ref := (s.inode i).ref + 1 - 1 } : Inode NPROC) = s.inode i := by
        rw [Int.add_sub_cancel]
      simp only [setInode_inode, if_true, setInode_setInode]
      rw [hback, setInode_self]
      exact Aside.refl s
  | miss hr hn =>
    refine (iput_runs hl₁ ?_).imp fun _ s' hs => ?_
    · simp
    · subst hs
      simp only [setInode_inode, if_true, setInode_setInode]
      refine ⟨rfl, fun j => ?_⟩
      by_cases hj : j = i
      · subst hj
        exact .inr ⟨hr, by simp⟩
      · exact .inl (by simp [hj])

lemma live_eq_some {e : Dirent} {x : Name} {v : ℕ} :
    live e = some (x, v) ↔ e.inum ≠ 0 ∧ e.name = x ∧ e.inum = v := by
  unfold live
  split_ifs with h
  · simp [h]
  · simp [h]

lemma live_eq_none {e : Dirent} : live e = none ↔ e.inum = 0 := by
  unfold live
  split_ifs with h
  · simp [h]
  · simp [h]

lemma get_of_lookup_none (h : lookup (dir s dp) name = none) : get (table s dp) (string name) = none := by
  rw [get_eq_none]
  intro i v hi
  rw [table, List.getElem?_map, Option.map_eq_some_iff] at hi
  obtain ⟨e, he, hlive⟩ := hi
  obtain ⟨h1, h2, -⟩ := live_eq_some.mp hlive
  exact lookup_eq_none.mp h e (List.mem_of_getElem? he) ⟨h1, h2⟩

lemma slot_of_lookup {e : Dirent} (h : lookup (dir s dp) name = some k) (he : (dir s dp)[k]? = some e) :
    (table s dp)[k]? = some (some (string name, e.inum)) := by
  obtain ⟨e', he', hb, -⟩ := lookup_eq_some.mp h
  rw [he] at he'
  cases he'
  rw [table, List.getElem?_map, he]
  exact congrArg some (live_eq_some.mpr ⟨hb.1, hb.2, rfl⟩)

/-- The first free slot. -/
lemma vacant_eq : vacant (dir s dp) = (table s dp).idxOf none := by
  unfold vacant table List.idxOf
  rw [List.findIdx_map]
  congr 1
  funext e
  rw [Bool.eq_iff_iff]
  simp [live_eq_none]

lemma decode_clear : decode (List.replicate DIRENT 0) = ⟨0, []⟩ := rfl

/-- The directory after a write. -/
lemma Ready.entered {st' : Store} {d' : Dinode} {done : Bool} (h : Ready nmeta p dp s)
    (he : Entered nmeta (s.inode dp).inum s.store (s.inode dp).copy k bs st' d' done)
    (hk : k ≤ (dir s dp).length) :
    Ready nmeta p dp (setInode dp { s.inode dp with copy := d' } { s with store := st' }) ∧
      table (setInode dp { s.inode dp with copy := d' } { s with store := st' }) dp =
        if done = true then (if k < (table s dp).length then (table s dp).set k (live (decode bs))
          else table s dp ++ [live (decode bs)]) else table s dp := by
  have hk' : k ≤ (s.inode dp).copy.size / DIRENT := by rwa [dir, length_slots] at hk
  obtain ⟨hwhole, hslots⟩ := slots_entered he h.whole hk'
  have htype : d'.type = (s.inode dp).copy.type := by rw [he.same]
  have hdn : st'.dinode (s.inode dp).inum = d' := by rw [he.dinode, Function.update_self]
  have ht0 : d'.type ≠ 0 := by
    rw [htype, h.type]
    decide
  refine ⟨?_, ?_⟩
  · exact
      { type := by simpa [htype] using h.type
        file := by simpa [hdn] using he.intact.file (s.inode dp).inum (hdn.symm ▸ ht0)
        whole := by simpa using hwhole
        lock := h.lock
        held := by simpa using h.held
        ref := by simpa using h.ref
        intact := he.intact
        copy := by simpa using hdn
        op := by simpa [he.outstanding] using h.op }
  · unfold table dir
    simp only [setInode_inode, if_true, setInode_store, hslots, List.length_map, length_slots]
    split_ifs
    · rw [List.map_set]
    · rw [List.map_append, List.map_singleton]
    · rfl

/-- A write by the kernel to entry `k`. -/
lemma runs_entry {α : Type} {Q : α → State NPROC → Prop} {f : ℤ → P NPROC α}
    (h : Ready nmeta p dp s) (hk : k ≤ (dir s dp).length) (hbs : bs.length = DIRENT)
    (hf : ∀ r d' st', Entered nmeta (s.inode dp).inum s.store (s.inode dp).copy k bs st' d'
      (decide (r = (DIRENT : ℤ))) → Runs may p (f r)
        (setInode dp { s.inode dp with copy := d' } { s with store := st' }) Q) :
    Runs may p (act (.writei dp (.kernel bs) (k * DIRENT) DIRENT) >>= f) s Q := by
  have hk' : k ≤ (s.inode dp).copy.size / DIRENT := by rwa [dir, length_slots] at hk
  have ht : (s.inode dp).copy.type ≠ 0 := by
    rw [h.type]
    decide
  exact runs_onInode (a := .writei dp (.kernel bs) (k * DIRENT) DIRENT) (fun c => rfl)
    (writei_entry h.intact h.copy ht h.op hk' hbs) fun d r st he => hf r d st he

/-- What `dirlink` comes to. -/
structure Linked (s : State NPROC) (dp : Fin NINODE) (name : Name) (inum : ℕ) (r : Bool)
    (s' : State NPROC) : Prop where
  fails : r = false ↔ get (table s dp) (string name) ≠ none ∨
    (none ∉ table s dp ∧ ¬Fits s.store (s.inode dp).copy (table s dp).length)
  same : r = false → table s' dp = table s dp
  written : r = true → table s' dp = if none ∈ table s dp then
    (table s dp).set ((table s dp).idxOf none) (some (string name, inum))
    else table s dp ++ [some (string name, inum)]

/-- There is room for every entry that there is. -/
lemma fits_of_lt (h : Searchable s dp) (hk : k < (dir s dp).length) :
    Fits s.store (s.inode dp).copy k := by
  rw [dir, length_slots] at hk
  have hle := slot_le hk
  have hsize := h.file.size
  have hpos := DIRENT_pos
  have hdiv := Nat.div_mul_le_self (k * DIRENT) BSIZE
  refine ⟨by omega, ?_⟩
  unfold need
  rw [if_pos (h.file.filled _ (by omega))]
  exact Nat.zero_le _

/-- **Linking** a name. -/
theorem dirlink_runs (h : Ready nmeta p dp s) (h0 : inum ≠ 0) (hi : inum < 2 ^ 16)
    (hm : ∀ msg, TableFull s msg → may msg) :
    Runs may p (dirlink dp name inum) s fun r s' => Ready nmeta p dp s' ∧
      (∀ i, (s'.inode i).ref = (s.inode i).ref) ∧ Linked s dp name inum r s' := by
  unfold dirlink
  refine runs_call (dirlookup_runs h.toSearchable hm) fun r s₁ hr => ?_
  obtain ⟨rfl, rfl, hnone⟩ | ⟨i, k, e, rfl, hsome, he, ht⟩ := hr
  · -- the name is new
    have hget := get_of_lookup_none hnone
    refine runs_call (emptyEntry_runs h.toSearchable) fun off s₂ ⟨hs, hoff⟩ => ?_
    subst hs hoff
    have hlen : vacant (dir s₂ dp) ≤ (dir s₂ dp).length := List.findIdx_le_length
    refine runs_entry h hlen (length_encode _) fun r d' st' he => .ret ?_
    obtain ⟨hready, htable⟩ := h.entered he hlen
    have hfits := he.fits
    have hlive : live (decode (encode ⟨inum, name⟩)) = some (string name, inum) := by
      rw [decode_encode hi, live, if_neg h0]
    rw [hlive, vacant_eq] at htable
    rw [vacant_eq] at hfits
    have hmem : (table s₂ dp).idxOf none < (table s₂ dp).length ↔ none ∈ table s₂ dp :=
      List.idxOf_lt_length_iff
    refine ⟨hready, fun i => ?_, ⟨?_, fun hf => ?_, fun hd => ?_⟩⟩
    · simp only [setInode_inode]
      split_ifs with hid
      · rw [hid]
      · rfl
    · rw [← Bool.not_eq_true, hfits]
      by_cases hin : none ∈ table s₂ dp
      · have hlt := hmem.mpr hin
        simp only [table, List.length_map] at hlt
        have hyes := fits_of_lt h.toSearchable hlt
        simp only [hget, ne_eq, not_true_eq_false, hin, false_and, or_false, iff_false, not_not]
        exact hyes
      · rw [List.idxOf_eq_length hin]
        simp [hget, hin]
    · rw [htable, if_neg (by rw [hf]; exact Bool.false_ne_true)]
    · rw [htable, if_pos hd]
      simp only [hmem]
  · -- it is there
    refine runs_call (put_runs h.lock ht) fun _ s₂ ha => .ret ?_
    have hslot := slot_of_lookup hsome he
    refine ⟨h.aside ha, ha.ref, ⟨⟨fun _ => .inl fun hnone => ?_, fun _ => rfl⟩, fun _ => ?_,
      fun hf => (by cases hf)⟩⟩
    · exact get_eq_none.mp hnone _ _ hslot
    · unfold table
      rw [ha.dir h.ref.ne']

/-- What `sys_unlink` does to the directory: the entry for the name is cleared. -/
def clearEntry (dp : Fin NINODE) (name : Name) : P NPROC Bool := do
  match ← dirlookup dp name with
  | none => return false
  | some (ip, off) =>
    let r ← act (.writei dp (.kernel (List.replicate DIRENT 0)) off DIRENT)
    if r ≠ DIRENT then
      kpanic "unlink: writei"
    else
      iput ip
      return true

/-- What clearing an entry comes to. -/
structure Cleared (s : State NPROC) (dp : Fin NINODE) (name : Name) (r : Bool) (s' : State NPROC) :
    Prop where
  fails : r = false ↔ get (table s dp) (string name) = none
  same : r = false → table s' dp = table s dp
  cleared : r = true → ∃ k v, (table s dp)[k]? = some (some (string name, v)) ∧
    table s' dp = (table s dp).set k none

/-- An entry of the inode table changes, but not what the directory is. -/
lemma Ready.entry {i : Fin NINODE} {v : Inode NPROC} (h : Ready nmeta p dp s)
    (hv : i = dp → v.copy = (s.inode dp).copy ∧ v.inum = (s.inode dp).inum ∧
      v.lock = (s.inode dp).lock ∧ 0 < v.ref) :
    Ready nmeta p dp (setInode i v s) ∧ table (setInode i v s) dp = table s dp := by
  by_cases hi : i = dp
  · obtain ⟨h1, h2, h3, h4⟩ := hv hi
    subst hi
    have hself : (setInode i v s).inode i = v := by simp
    refine ⟨?_, ?_⟩
    · exact
        { type := by rw [hself, h1]; exact h.type
          file := by rw [hself, h1]; exact h.file
          whole := by rw [hself, h1]; exact h.whole
          lock := h.lock
          held := by rw [hself, h3]; exact h.held
          ref := by rw [hself]; exact h4
          intact := h.intact
          copy := by rw [hself, h1, h2]; exact h.copy
          op := h.op }
    · unfold table dir
      rw [hself, h1]
      rfl
  · have hself : (setInode i v s).inode dp = s.inode dp := by simp [Ne.symm hi]
    refine ⟨?_, ?_⟩
    · exact
        { type := by rw [hself]; exact h.type
          file := by rw [hself]; exact h.file
          whole := by rw [hself]; exact h.whole
          lock := h.lock
          held := by rw [hself]; exact h.held
          ref := by rw [hself]; exact h.ref
          intact := h.intact
          copy := by rw [hself]; exact h.copy
          op := h.op }
    · unfold table dir
      rw [hself]
      rfl

lemma Ready.took {i : Fin NINODE} {dev : ℕ} {s₁ : State NPROC} (h : Ready nmeta p dp s)
    (ht : Took dev inum s i s₁) : Ready nmeta p dp s₁ ∧ table s₁ dp = table s dp ∧
      (∀ j, (s₁.inode j).ref = (s.inode j).ref + if j = i then 1 else 0) ∧
      ((s₁.inode i).ref = 1 → (s₁.inode i).valid = false) := by
  cases ht with
  | hit hr hd hi =>
    obtain ⟨h1, h2⟩ := h.entry (i := i) (v := { s.inode i with ref := (s.inode i).ref + 1 })
      fun hi => by subst hi; exact ⟨rfl, rfl, rfl, by simp only; omega⟩
    refine ⟨h1, h2, fun j => ?_, fun h1 => ?_⟩
    · simp only [setInode_inode]
      split_ifs with hj
      · rw [hj]
      · omega
    · simp only [setInode_inode, if_true] at h1
      omega
  | miss hr hn =>
    obtain ⟨h1, h2⟩ := h.entry (i := i)
      (v := { s.inode i with dev := dev, inum := inum, ref := 1, valid := false })
      fun hi => absurd hr (by rw [hi]; exact h.ref.ne')
    refine ⟨h1, h2, fun j => ?_, fun _ => by simp⟩
    simp only [setInode_inode]
    split_ifs with hj
    · rw [hj, hr]
      rfl
    · omega

/-- **Clearing** the entry for a name. -/
theorem clearEntry_runs (h : Ready nmeta p dp s) (hm : ∀ msg, TableFull s msg → may msg) :
    Runs may p (clearEntry dp name) s fun r s' => Ready nmeta p dp s' ∧
      (∀ i, (s'.inode i).ref = (s.inode i).ref) ∧ Cleared s dp name r s' := by
  unfold clearEntry
  refine runs_call (dirlookup_runs h.toSearchable hm) fun r s₁ hr => ?_
  obtain ⟨rfl, rfl, hnone⟩ | ⟨i, k, e, rfl, hsome, he, ht⟩ := hr
  · exact .ret ⟨h, fun _ => rfl, ⟨fun _ => get_of_lookup_none hnone, fun _ => rfl⟩, fun _ => rfl,
      fun hf => (by cases hf)⟩
  · have hslot := slot_of_lookup hsome he
    obtain ⟨hready, htable, href, hfresh⟩ := h.took ht
    have hlen : k < (dir s₁ dp).length := by
      have hk := (List.getElem?_eq_some_iff.mp hslot).1
      rw [← htable] at hk
      simpa [table] using hk
    refine runs_entry hready hlen.le (by decide) fun r d' st' hent => ?_
    obtain ⟨hready', htable'⟩ := hready.entered hent hlen.le
    have hdone : decide (r = (DIRENT : ℤ)) = true :=
      hent.fits.mpr (fits_of_lt hready.toSearchable hlen)
    have hlive : live (decode (List.replicate DIRENT 0)) = none := by
      rw [decode_clear]
      rfl
    have hk' : k < (table s₁ dp).length := by simpa [table] using hlen
    rw [hdone, if_pos rfl, if_pos hk', hlive, htable] at htable'
    rw [if_neg (not_not.mpr (of_decide_eq_true hdone))]
    generalize hs₂ : setInode dp { s₁.inode dp with copy := d' } { s₁ with store := st' } = s₂
    rw [hs₂] at hready' htable'
    have hrv : ∀ j, (s₂.inode j).ref = (s₁.inode j).ref ∧ (s₂.inode j).valid = (s₁.inode j).valid := by
      intro j
      subst hs₂
      simp only [setInode_inode]
      split_ifs with hj
      · rw [hj]
        exact ⟨rfl, rfl⟩
      · exact ⟨rfl, rfl⟩
    refine runs_call (iput_runs hready'.lock ?_) fun _ s₃ hs₃ => .ret ?_
    · rintro ⟨h1, h2, -⟩
      rw [(hrv i).1] at h1
      rw [(hrv i).2, hfresh h1] at h2
      cases h2
    subst hs₃
    obtain ⟨h1, h2⟩ := hready'.entry (i := i) (v := { s₂.inode i with ref := (s₂.inode i).ref - 1 })
      fun hi => by
        subst hi
        have := h.ref
        have hr := href i
        rw [if_pos rfl] at hr
        refine ⟨rfl, rfl, rfl, ?_⟩
        simp only [(hrv i).1]
        omega
    refine ⟨h1, fun j => ?_, ⟨⟨fun hf => (by cases hf), fun hnone => ?_⟩, fun hf => (by cases hf),
      fun _ => ⟨k, e.inum, hslot, ?_⟩⟩⟩
    · have hr := href j
      simp only [setInode_inode]
      split_ifs at hr ⊢ with hj
      · subst hj
        simp only [(hrv j).1]
        omega
      · rw [(hrv j).1]
        omega
    · exact absurd hslot (get_eq_none.mp hnone _ _)
    · rw [h2, htable']

/-! ### Sequences of operations -/

lemma Linked.map {r : Bool} (h : Linked s dp name inum r s') (hd : Distinct (table s dp)) :
    Distinct (table s' dp) ∧ get (table s' dp) = if r = true then
      Function.update (get (table s dp)) (string name) (some inum) else get (table s dp) := by
  cases r with
  | false =>
    rw [h.same rfl, if_neg Bool.false_ne_true]
    exact ⟨hd, rfl⟩
  | true =>
    have hnone : get (table s dp) (string name) = none := by
      by_contra hne
      exact absurd (h.fails.mpr (.inl hne)) (by decide)
    rw [h.written rfl, if_pos rfl]
    split_ifs with hin
    · refine hd.bind hnone ?_
      rw [List.getElem?_eq_getElem (List.idxOf_lt_length_iff.mpr hin), List.getElem_idxOf]
    · exact hd.append hnone

lemma Cleared.map {r : Bool} (h : Cleared s dp name r s') (hd : Distinct (table s dp)) :
    Distinct (table s' dp) ∧
      get (table s' dp) = Function.update (get (table s dp)) (string name) none := by
  cases r with
  | false =>
    rw [h.same rfl]
    refine ⟨hd, (Function.update_eq_self_iff.mpr ?_).symm⟩
    exact (h.fails.mp rfl).symm
  | true =>
    obtain ⟨k, v, hk, heq⟩ := h.cleared rfl
    rw [heq]
    exact hd.free hk

inductive Op
  | link (name : Name) (inum : ℕ)
  | clear (name : Name)

/-- Inode numbers in directories are nonzero `ushort`s. -/
def Op.Valid : Op → Prop
  | .link _ inum => inum ≠ 0 ∧ inum < 2 ^ 16
  | .clear _ => True

def Op.run (dp : Fin NINODE) : Op → P NPROC Bool
  | .link name inum => dirlink dp name inum
  | .clear name => clearEntry dp name

def runAll (dp : Fin NINODE) : List Op → P NPROC (List Bool)
  | [] => return []
  | op :: ops => do
    let r ← op.run dp
    let rs ← runAll dp ops
    return r :: rs

/-- What an operation that returns `r` makes of a map. -/
def Op.after (m : Name → Option ℕ) : Op → Bool → Name → Option ℕ
  | .link name inum, true => Function.update m (string name) (some inum)
  | .link _ _, false => m
  | .clear name, _ => Function.update m (string name) none

def bindings (m : Name → Option ℕ) : List Op → List Bool → Name → Option ℕ
  | op :: ops, r :: rs => bindings (op.after m r) ops rs
  | _, _ => m

/-- A lookup finds the inode that the name is bound to, at the offset of its entry. -/
def LooksUp (s : State NPROC) (dp : Fin NINODE) (name : Name) (r : Option (Fin NINODE × ℕ))
    (s' : State NPROC) : Prop :=
  ∀ v, get (table s dp) (string name) = some v ↔
    ∃ i k, r = some (i, k * DIRENT) ∧ (table s dp)[k]? = some (some (string name, v)) ∧
      (s'.inode i).inum = v ∧ (s'.inode i).dev = (s.inode dp).dev ∧ 0 < (s'.inode i).ref

lemma looksUp_runs (h : Ready nmeta p dp s) (hd : Distinct (table s dp))
    (hm : ∀ msg, TableFull s msg → may msg) : Runs may p (dirlookup dp name) s (LooksUp s dp name) := by
  refine (dirlookup_runs h.toSearchable hm).imp fun r s' hr v => ?_
  obtain ⟨rfl, rfl, hnone⟩ | ⟨i, k, e, rfl, hsome, he, ht⟩ := hr
  · rw [get_of_lookup_none hnone]
    refine ⟨fun hv => (by cases hv), fun ⟨i, k, hr, _⟩ => (by cases hr)⟩
  · have hslot := slot_of_lookup hsome he
    have hent : (s'.inode i).inum = e.inum ∧ (s'.inode i).dev = (s.inode dp).dev ∧
        0 < (s'.inode i).ref := by
      cases ht with
      | hit hr hd hi =>
        simp only [setInode_inode, if_true]
        exact ⟨hi, hd, by omega⟩
      | miss hr hn =>
        simp
    constructor
    · intro hv
      obtain rfl : e.inum = v := Option.some.inj ((hd.get_eq_some.mpr ⟨k, hslot⟩).symm.trans hv)
      exact ⟨i, k, rfl, hslot, hent⟩
    · rintro ⟨i', k', -, hk', -⟩
      exact hd.get_eq_some.mpr ⟨k', hk'⟩

lemma full_of_refs (h : ∀ i, (s'.inode i).ref = (s.inode i).ref) {msg : String}
    (hf : TableFull s' msg) : TableFull s msg :=
  ⟨hf.1, fun i => h i ▸ hf.2 i⟩

/-- One operation. -/
lemma op_runs {op : Op} (h : Ready nmeta p dp s) (hd : Distinct (table s dp)) (hop : op.Valid)
    (hm : ∀ msg, TableFull s msg → may msg) : Runs may p (op.run dp) s fun r s' =>
      Ready nmeta p dp s' ∧ Distinct (table s' dp) ∧ get (table s' dp) = op.after (get (table s dp)) r ∧
      ∀ i, (s'.inode i).ref = (s.inode i).ref := by
  cases op with
  | link name inum =>
    refine (dirlink_runs h hop.1 hop.2 hm).imp fun r s' ⟨h1, h2, h3⟩ => ?_
    obtain ⟨h4, h5⟩ := h3.map hd
    refine ⟨h1, h4, h5.trans ?_, h2⟩
    cases r with
    | false => rfl
    | true => rfl
  | clear name =>
    refine (clearEntry_runs h hm).imp fun r s' ⟨h1, h2, h3⟩ => ?_
    obtain ⟨h4, h5⟩ := h3.map hd
    exact ⟨h1, h4, h5, h2⟩

lemma runAll_runs {ops : List Op} (h : Ready nmeta p dp s) (hd : Distinct (table s dp))
    (hops : ∀ op ∈ ops, op.Valid) (hm : ∀ msg, TableFull s msg → may msg) :
    Runs may p (runAll dp ops) s fun rs s' => Ready nmeta p dp s' ∧ Distinct (table s' dp) ∧
      get (table s' dp) = bindings (get (table s dp)) ops rs ∧
      ∀ i, (s'.inode i).ref = (s.inode i).ref := by
  induction ops generalizing s with
  | nil => exact .ret ⟨h, hd, rfl, fun _ => rfl⟩
  | cons op ops ih =>
    refine runs_call (op_runs h hd (hops op (List.mem_cons_self ..)) hm)
      fun r s₁ ⟨h1, h2, h3, h4⟩ => ?_
    refine runs_call (ih h1 h2 (fun o ho => hops o (List.mem_cons_of_mem _ ho))
      fun msg hf => hm msg (full_of_refs h4 hf)) fun rs s₂ ⟨h5, h6, h7, h8⟩ => .ret ?_
    refine ⟨h5, h6, ?_, fun i => (h8 i).trans (h4 i)⟩
    rw [h7, h3]
    rfl

/-- **A directory is a finite map** on names of `DIRSIZ` bytes, whatever has been done to it. -/
theorem directory_map (h : Ready nmeta p dp s) (hd : Distinct (table s dp)) (ops : List Op)
    (hops : ∀ op ∈ ops, op.Valid) : Runs (TableFull s) p (runAll dp ops) s fun rs s' =>
      Ready nmeta p dp s' ∧ Distinct (table s' dp) ∧
      get (table s' dp) = bindings (get (table s dp)) ops rs ∧
      (∀ name, Runs (TableFull s) p (dirlookup dp name) s' (LooksUp s' dp name)) ∧
      (∀ name inum, inum ≠ 0 → inum < 2 ^ 16 →
        Runs (TableFull s) p (dirlink dp name inum) s' (Linked s' dp name inum)) ∧
      ∀ name, Runs (TableFull s) p (clearEntry dp name) s' (Cleared s' dp name) := by
  refine (runAll_runs h hd hops fun _ hf => hf).imp fun rs s' ⟨h1, h2, h3, h4⟩ => ?_
  have hm : ∀ msg, TableFull s' msg → TableFull s msg := fun msg hf => full_of_refs h4 hf
  refine ⟨h1, h2, h3, fun name => looksUp_runs h1 h2 hm, fun name inum h0 hi => ?_, fun name => ?_⟩
  · exact (dirlink_runs h1 h0 hi hm).imp fun r s'' hr => hr.2.2
  · exact (clearEntry_runs h1 hm).imp fun r s'' hr => hr.2.2

/-- An empty directory, which the only process has locked. -/
def emptyDir : State 1 where
  store := { small with dinode := fun _ => { Dinode.free with type := T_DIR, nlink := 1 } }
  inode := fun i => ⟨ROOTDEV, ROOTINO, if i = 0 then 1 else 0, if i = 0 then some (Fin.last 0) else none, true,
    { Dinode.free with type := T_DIR, nlink := 1 }⟩
  file := fun _ => ⟨.none, 0, false, false, 0, 0, 0, 0⟩
  pipe := fun _ => none
  proc := fun _ => ⟨.running, fun _ => none, some 0⟩
  lock := fun _ => none
  devsw := fun _ => (false, false)

lemma emptyDir_ready : Ready 2 0 0 emptyDir where
  type := rfl
  file := ⟨fun bn hbn => absurd hbn (Nat.not_lt_zero _), Nat.zero_le _⟩
  whole := rfl
  lock := rfl
  held := rfl
  ref := by decide
  intact := Intact.blank (by decide) (by decide) (by decide) (fun _ => rfl) fun _ => ⟨rfl, rfl⟩
  copy := rfl
  op := by decide

/-- A name of more than `DIRSIZ` bytes is linked, and again without its last byte. -/
theorem directory_map_long : Runs (TableFull emptyDir) 0
    (runAll 0 [.link (List.replicate 15 97) 7, .link (List.replicate 14 97) 8,
      .clear (List.replicate 16 97)]) emptyDir fun rs s' =>
      Ready 2 0 0 s' ∧ Distinct (table s' 0) ∧
      get (table s' 0) = bindings (get (table emptyDir 0)) [.link (List.replicate 15 97) 7,
        .link (List.replicate 14 97) 8, .clear (List.replicate 16 97)] rs ∧
      (∀ name, Runs (TableFull emptyDir) 0 (dirlookup 0 name) s' (LooksUp s' 0 name)) ∧
      (∀ name inum, inum ≠ 0 → inum < 2 ^ 16 →
        Runs (TableFull emptyDir) 0 (dirlink 0 name inum) s' (Linked s' 0 name inum)) ∧
      ∀ name, Runs (TableFull emptyDir) 0 (clearEntry 0 name) s' (Cleared s' 0 name) :=
  directory_map emptyDir_ready (fun i j x v w hi => (by cases hi)) _ (by
    intro op hop
    simp only [List.mem_cons, List.not_mem_nil, or_false] at hop
    obtain rfl | rfl | rfl := hop
    · exact ⟨by decide, by decide⟩
    · exact ⟨by decide, by decide⟩
    · trivial)

end Xv6.Fs.Dir
