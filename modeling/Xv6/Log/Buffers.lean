import Xv6.Bio.Refs
import Xv6.Log.Reserve

/-!
Buffers. A buffer is in use while a process holds it and, once its block is logged, until the
commit has installed the block. `bget` finds a buffer as long as fewer than `NBUF` blocks are
in use; the admission rule of `begin_op` counts log space only and does not see to that.
-/

namespace Xv6.Log.Buffers

open Xv6.Conc Xv6.Conc.Prog Xv6.Conc.Proto Xv6.Disk Xv6.Param Xv6.Bio.Refs Xv6.Log.Group
open Xv6.Log.Exclusion (Phase Neutral logOf sem_neutral)
open Xv6.Log.Commit (slot)

variable {T : Type} [DecidableEq T]

/-- The references to a block: by processes and by the log. -/
def uses (s : St T) (b : BlockNo) : ℕ := (s.users.map Prod.snd).count b + s.pins.count b

/-- The blocks that a process holds or that are pinned. -/
def inUse (s : St T) : Finset BlockNo := (s.users.map Prod.snd ++ s.pins).toFinset

/-- What is known of a process: where it is, the buffers it holds, and, if it commits, the
header and how many of its blocks are installed. -/
structure Holds where
  phase : Phase
  held : List (BlockNo × Fin NBUF)
  lh : List BlockNo
  installed : ℕ

structure Inv (s : St T) (γ : T → Holds) : Prop where
  log : Exclusion.Inv s fun t => (γ t).phase
  refs : Counted ROOTDEV s.cache (uses s)
  users : ∀ t b, s.users.count (t, b) = ((γ t).held.map Prod.fst).count b
  held : ∀ t, ∀ x ∈ (γ t).held, Caches ROOTDEV s.cache x.2 x.1
  idle : s.committing = false → s.pins.Perm s.lh
  head : ∀ t, (γ t).phase = .commit →
    s.lh = (γ t).lh ∧ s.pins.Perm ((γ t).lh.drop (γ t).installed)

/-! ### What each action does -/

section Steps

variable {s s' : St T} {γ : T → Holds} {t : T} {g : Holds} (kill : Bool)

lemma update_phase {p : Phase} (hg : g.phase = p) :
    (fun u => (Function.update γ t g u).phase) =
      Function.update (fun u => (γ u).phase) t p := by
  funext u
  by_cases h : u = t
  · subst h; simp [hg]
  · simp [h]

lemma update_held (hg : g.held = (γ t).held) (u : T) :
    (Function.update γ t g u).held = (γ u).held := by
  by_cases h : u = t
  · subst h; simp [hg]
  · simp [h]

/-- An action on the log alone. -/
lemma Inv.log_step (hi : Inv s γ) {p : Phase} (hp : g.phase = p) (hg : g.held = (γ t).held)
    (hlog : Exclusion.Inv s' (Function.update (fun u => (γ u).phase) t p))
    (hcache : (s'.cache, s'.users, s'.pins) = (s.cache, s.users, s.pins))
    (hidle : s'.committing = false → s'.pins.Perm s'.lh)
    (hhead : ∀ u, Function.update (fun u => (γ u).phase) t p u = .commit →
      s'.lh = (Function.update γ t g u).lh ∧
        s'.pins.Perm ((Function.update γ t g u).lh.drop (Function.update γ t g u).installed)) :
    Inv s' (Function.update γ t g) := by
  simp only [Prod.mk.injEq] at hcache
  obtain ⟨h1, h2, h3⟩ := hcache
  have huses : uses s' = uses s := by funext b; rw [uses, uses, h2, h3]
  refine ⟨?_, ?_, fun u b => ?_, fun u x hx => ?_, hidle, fun u hu => hhead u ?_⟩
  · rwa [update_phase hp]
  · rw [h1, huses]
    exact hi.refs
  · rw [h2, update_held hg]
    exact hi.users u b
  · rw [update_held hg] at hx
    exact h1 ▸ hi.held u x hx
  · rwa [← update_phase hp]

/-- The actions that neither move a block or a reference nor touch the log. -/
def Still : Act → Prop
  | .awake | .readN | .readBlock _ | .acquiresleep _ | .fill _ | .bwrite _ | .releasesleep _
  | .copy _ _ | .setHead _ | .store _ _ => True
  | _ => False

lemma sem_still {a : Act} (ha : Still a) {r : Res a} (h : sem t a kill s = some (.ok s' r)) :
    logOf s' = logOf s ∧ key s'.cache = key s.cache ∧ s'.cache.lru = s.cache.lru ∧
      s'.users = s.users ∧ s'.pins = s.pins := by
  have hkey : ∀ i (v : Bio.Cache.Buf T), v.dev = (s.cache.buf i).dev →
      v.blockno = (s.cache.buf i).blockno → v.refcnt = (s.cache.buf i).refcnt →
      key (Bio.Cache.setBuf i v s.cache) = key s.cache := fun i v h1 h2 h3 => by
    funext j
    by_cases hj : j = i
    · subst hj; simp [key, h1, h2, h3]
    · simp [key, hj]
  cases a <;> simp only [Still] at ha <;> simp only [sem] at h
  all_goals first
    | (cases h; exact ⟨rfl, hkey _ _ rfl rfl rfl, rfl, rfl, rfl⟩)
    | (cases h; exact ⟨rfl, rfl, rfl, rfl, rfl⟩)
    | (split at h <;> cases h <;> exact ⟨rfl, hkey _ _ rfl rfl rfl, rfl, rfl, rfl⟩)
    | (split at h <;> cases h <;> exact ⟨rfl, rfl, rfl, rfl, rfl⟩)
    | (split at h <;> cases h <;> first
      | exact ⟨rfl, hkey _ _ rfl rfl rfl, rfl, rfl, rfl⟩
      | exact ⟨rfl, rfl, rfl, rfl, rfl⟩)

lemma step_still {a : Act} (ha : Still a) {r : Res a} (hi : Inv s γ)
    (ho : sem t a kill s = some (.ok s' r)) : Inv s' γ := by
  obtain ⟨hlog, hkey, hlru, husers, hpins⟩ := sem_still kill ha ho
  have huses : uses s' = uses s := by funext b; rw [uses, uses, husers, hpins]
  refine ⟨hi.log.congr hlog, ?_, ?_, fun u x hx => ?_, ?_, ?_⟩
  · rw [huses]
    exact hi.refs.congr hkey fun i => hlru ▸ hi.refs.lru i
  · rw [husers]
    exact hi.users
  · exact (caches_congr hkey).mpr (hi.held u x hx)
  · simp only [logOf, Prod.mk.injEq] at hlog
    rw [hlog.2.1, hlog.2.2.1, hpins]
    exact hi.idle
  · simp only [logOf, Prod.mk.injEq] at hlog
    rw [hlog.2.2.1, hpins]
    exact hi.head

lemma step_beginTest {r : Bool} (hi : Inv s γ) (hg : (γ t).phase = .out)
    (ho : sem t .beginTest kill s = some (.ok s' r)) :
    Inv s' (Function.update γ t { γ t with phase := if r then .inOp else .out }) := by
  have hlog := Exclusion.step_beginTest kill hi.log hg ho
  have hsame : (s'.cache, s'.users, s'.pins) = (s.cache, s.users, s.pins) ∧
      s'.lh = s.lh ∧ s'.committing = s.committing := by
    simp only [sem] at ho
    split_ifs at ho <;> cases ho <;> exact ⟨rfl, rfl, rfl⟩
  obtain ⟨hcache, hlh, hcom⟩ := hsame
  have hpins : s'.pins = s.pins := by simp only [Prod.mk.injEq] at hcache; exact hcache.2.2
  refine hi.log_step rfl rfl hlog hcache (by rw [hcom, hlh, hpins]; exact hi.idle) fun u hu => ?_
  have hut : u ≠ t := by rintro rfl; cases r <;> simp at hu
  rw [Function.update_of_ne hut] at hu ⊢
  rw [hlh, hpins]
  exact hi.head u hu

/-- The operation that ends last finds every block of the header pinned. -/
lemma step_endFirst {r : Bool} (hi : Inv s γ) (hg : (γ t).phase = .inOp)
    (ho : sem t .endFirst kill s = some (.ok s' r)) :
    Inv s' (Function.update γ t
      (if r then { γ t with phase := .commit, lh := s.lh, installed := 0 }
        else { γ t with phase := .out })) := by
  have hlog := Exclusion.step_endFirst kill hi.log hg ho
  have hnc := hi.log.not_committing hg
  have hsame : (s'.cache, s'.users, s'.pins) = (s.cache, s.users, s.pins) ∧
      s'.lh = s.lh ∧ s'.committing = r := by
    simp only [sem, hnc, Bool.false_eq_true, if_false] at ho
    split_ifs at ho <;> cases ho
    · exact ⟨rfl, rfl, rfl⟩
    · exact ⟨rfl, rfl, rfl⟩
  obtain ⟨hcache, hlh, hcom⟩ := hsame
  have hpins : s'.pins = s.pins := by simp only [Prod.mk.injEq] at hcache; exact hcache.2.2
  have hidle := hi.idle hnc
  refine hi.log_step ?_ ?_ hlog hcache (fun _ => by rw [hlh, hpins]; exact hidle) fun u hu => ?_
  · cases r <;> rfl
  · cases r <;> rfl
  · rw [hlh, hpins]
    by_cases hut : u = t
    · subst hut
      cases r with
      | true => simpa using hidle
      | false => simp at hu
    · rw [Function.update_of_ne hut] at hu ⊢
      exact hi.head u hu

/-- A commit ends with nothing in the header, hence nothing pinned. -/
lemma step_endLast (hi : Inv s γ) (hg : (γ t).phase = .commit) (hl : (γ t).lh = [])
    (ho : sem t .endLast kill s = some (.ok s' ())) :
    Inv s' (Function.update γ t { γ t with phase := .out }) := by
  have hlog := Exclusion.step_endLast kill hi.log hg ho
  obtain ⟨h1, h2⟩ := hi.head t hg
  cases ho
  refine hi.log_step rfl rfl hlog rfl (fun _ => ?_) fun u hu => ?_
  · rw [hl] at h1 h2
    simpa [h1] using h2
  · have hut : u ≠ t := by rintro rfl; simp at hu
    rw [Function.update_of_ne hut] at hu ⊢
    exact hi.head u hu

lemma step_clearN (hi : Inv s γ) (hg : (γ t).phase = .commit)
    (hl : (γ t).installed = (γ t).lh.length) (ho : sem t .clearN kill s = some (.ok s' ())) :
    Inv s' (Function.update γ t { γ t with lh := [], installed := 0 }) := by
  have hlog := Exclusion.step_clearN kill hi.log hg ho
  obtain ⟨h1, h2⟩ := hi.head t hg
  cases ho
  have hnil : s.pins.Perm [] := by rwa [hl, List.drop_length] at h2
  refine hi.log_step hg rfl ?_ rfl (fun _ => hnil) fun u hu => ?_
  · rwa [Function.update_eq_iff.mpr ⟨hg.symm, fun _ _ => rfl⟩]
  · have hut : u = t := by
      by_contra hne
      rw [Function.update_of_ne hne] at hu
      exact hne (hi.log.one u t hu hg)
    subst hut
    simpa using hnil

lemma count_map_erase {α β : Type} [BEq α] [LawfulBEq α] [BEq β] [LawfulBEq β] (f : α → β)
    {l : List α} {a : α} (h : a ∈ l) (b : β) :
    ((l.erase a).map f).count b = (l.map f).count b - if f a == b then 1 else 0 := by
  have hperm := ((List.perm_cons_erase h).map f).count_eq b
  rw [hperm, List.map_cons, List.count_cons]
  simp

/-- A buffer that is held has its block in use. -/
lemma Inv.held_pos (hi : Inv s γ) {x : BlockNo × Fin NBUF} (hx : x ∈ (γ t).held) :
    (t, x.1) ∈ s.users ∧ 0 < uses s x.1 := by
  have h1 : 0 < s.users.count (t, x.1) := by
    rw [hi.users]
    exact List.count_pos_iff.mpr (List.mem_map_of_mem hx)
  have hmem := List.count_pos_iff.mp h1
  have h2 : 0 < (s.users.map Prod.snd).count x.1 :=
    List.count_pos_iff.mpr (List.mem_map_of_mem hmem)
  exact ⟨hmem, by unfold uses; omega⟩

/-- An action on the references that processes hold. -/
lemma Inv.hold_step (hi : Inv s γ) {held : List (BlockNo × Fin NBUF)}
    (hlog : logOf s' = logOf s) (hpins : s'.pins = s.pins)
    (hrefs : Counted ROOTDEV s'.cache (uses s'))
    (husers : ∀ b, s'.users.count (t, b) = (held.map Prod.fst).count b)
    (hother : ∀ u b, u ≠ t → s'.users.count (u, b) = s.users.count (u, b))
    (hheld : ∀ x ∈ held, Caches ROOTDEV s'.cache x.2 x.1)
    (hframe : ∀ i b, 0 < uses s b → Caches ROOTDEV s.cache i b → Caches ROOTDEV s'.cache i b) :
    Inv s' (Function.update γ t { γ t with held := held }) := by
  have hphase : (fun u => (Function.update γ t { γ t with held := held } u).phase) =
      fun u => (γ u).phase := by
    rw [update_phase rfl, Function.update_eq_self]
  simp only [logOf, Prod.mk.injEq] at hlog
  refine ⟨?_, hrefs, fun u b => ?_, fun u x hx => ?_, ?_, fun u hu => ?_⟩
  · rw [hphase]
    exact hi.log.congr (by simp [logOf, hlog])
  · by_cases hut : u = t
    · subst hut; simpa using husers b
    · rw [hother u b hut, Function.update_of_ne hut]
      exact hi.users u b
  · by_cases hut : u = t
    · subst hut; exact hheld x (by simpa using hx)
    · rw [Function.update_of_ne hut] at hx
      exact hframe _ _ (hi.held_pos hx).2 (hi.held u x hx)
  · rw [hlog.2.1, hlog.2.2.1, hpins]
    exact hi.idle
  · rw [hlog.2.2.1, hpins]
    by_cases hut : u = t
    · subst hut
      simpa using hi.head u (by simpa using hu)
    · rw [Function.update_of_ne hut] at hu ⊢
      exact hi.head u hu

lemma step_bget {b : BlockNo} {i : Fin NBUF} (hi : Inv s γ)
    (ho : sem t (.bget b) kill s = some (.ok s' i)) :
    Inv s' (Function.update γ t { γ t with held := (b, i) :: (γ t).held }) := by
  simp only [sem] at ho
  split at ho
  · rename_i j c hg
    cases ho
    obtain ⟨h1, h2, h3⟩ := hi.refs.bget hg
    refine hi.hold_step rfl rfl ?_ (fun b' => ?_) (fun u b' hut => ?_) (fun x hx => ?_) h3
    · have huses : uses { s with cache := c, users := (t, b) :: s.users } =
          Function.update (uses s) b (uses s b + 1) := by
        funext b'
        by_cases hb : b' = b
        · subst hb; simp [uses]; omega
        · simp [uses, hb, Ne.symm hb]
      rw [huses]
      exact h1
    · simp only [List.map_cons, List.count_cons, hi.users, beq_iff_eq, Prod.mk.injEq, true_and]
    · simp [Ne.symm hut]
    · rcases List.mem_cons.mp hx with rfl | hx
      · exact h2
      · exact h3 _ _ (hi.held_pos hx).2 (hi.held t x hx)
  · cases ho

lemma step_putRef {b : BlockNo} {i : Fin NBUF} (hi : Inv s γ) (hmem : (b, i) ∈ (γ t).held)
    (ho : sem t (.putRef i) kill s = some (.ok s' ())) :
    Inv s' (Function.update γ t { γ t with held := (γ t).held.erase (b, i) }) := by
  have hc : Caches ROOTDEV s.cache i b := hi.held t _ hmem
  have huser : (t, b) ∈ s.users := (hi.held_pos hmem).1
  cases ho
  rw [hc.2]
  refine hi.hold_step rfl rfl ?_ (fun b' => ?_) (fun u b' hut => ?_) (fun x hx => ?_)
    fun j b' _ hj => caches_putRef.mpr hj
  · refine (congrArg (Counted ROOTDEV _) ?_).mp (hi.refs.putRef hc)
    funext b'
    have hcount := count_map_erase Prod.snd huser b'
    by_cases hb : b' = b
    · subst hb
      have : 0 < (s.users.map Prod.snd).count b' :=
        List.count_pos_iff.mpr (List.mem_map_of_mem huser)
      simp only [Function.update_self, uses, hcount, beq_self_eq_true, if_true]
      omega
    · simp [uses, hcount, hb, Ne.symm hb]
  · rw [count_map_erase Prod.fst hmem, ← hi.users, List.count_erase]
    have hbeq : ((t, b) == (t, b')) = (b == b') := by
      simp only [BEq.beq]; simp
    rw [hbeq]
  · rw [List.count_erase]
    simp [Ne.symm hut]
  · exact caches_putRef.mpr (hi.held t x (List.mem_of_mem_erase hx))

lemma step_logWrite {b : BlockNo} {i : Fin NBUF} (hi : Inv s γ) (hg : (γ t).phase = .inOp)
    (hmem : (b, i) ∈ (γ t).held) (ho : sem t (.logWrite i) kill s = some (.ok s' ())) :
    Inv s' γ := by
  have hlog := Exclusion.step_logWrite kill hi.log hg ho
  have hc : Caches ROOTDEV s.cache i b := hi.held t _ hmem
  have hnc := hi.log.not_committing hg
  have hnone : ∀ u, (γ u).phase ≠ .commit := fun u hu => by
    simpa [hnc] using hi.log.committing.mpr ⟨u, hu⟩
  simp only [sem] at ho
  split_ifs at ho <;> cases ho
  by_cases hb : b ∈ s.lh
  · -- absorbed: the block is pinned already
    have hcache : (record t i s).cache = s.cache := by simp [record, hc.2, hb]
    have hpins : (record t i s).pins = s.pins := by simp [record, hc.2, hb]
    have hlh : (record t i s).lh = s.lh := by simp [record, absorb, hc.2, hb]
    have huses : uses (record t i s) = uses s := by funext b'; rw [uses, uses, hpins]; rfl
    refine ⟨hlog, ?_, hi.users, ?_, fun _ => ?_, fun u hu => absurd hu (hnone u)⟩
    · rw [hcache, huses]
      exact hi.refs
    · rw [hcache]
      exact hi.held
    · rw [hlh, hpins]
      exact hi.idle hnc
  · have hcache : (record t i s).cache = Bio.Cache.bpin i s.cache := by simp [record, hc.2, hb]
    have hpins : (record t i s).pins = b :: s.pins := by simp [record, hc.2, hb]
    have hlh : (record t i s).lh = s.lh ++ [b] := by simp [record, absorb, hc.2, hb]
    have huses : uses (record t i s) = Function.update (uses s) b (uses s b + 1) := by
      funext b'
      rw [uses, hpins]
      by_cases he : b' = b
      · subst he; simp [uses, record]; omega
      · simp [uses, record, he, Ne.symm he]
    refine ⟨hlog, ?_, hi.users, ?_, fun _ => ?_, fun u hu => absurd hu (hnone u)⟩
    · rw [hcache, huses]
      exact hi.refs.bpin hc
    · rw [hcache]
      exact fun u x hx => caches_bpin.mpr (hi.held u x hx)
    · rw [hlh, hpins]
      exact ((hi.idle hnc).cons b).trans (List.perm_append_singleton b s.lh).symm

/-- `install_trans` unpins the blocks of the header one by one. -/
lemma step_bunpin {b : BlockNo} {i : Fin NBUF} (hi : Inv s γ) (hg : (γ t).phase = .commit)
    (hb : (γ t).lh[(γ t).installed]? = some b) (hmem : (b, i) ∈ (γ t).held)
    (ho : sem t (.bunpin i) kill s = some (.ok s' ())) :
    Inv s' (Function.update γ t { γ t with installed := (γ t).installed + 1 }) := by
  have hc : Caches ROOTDEV s.cache i b := hi.held t _ hmem
  obtain ⟨hlh, hperm⟩ := hi.head t hg
  obtain ⟨hlt, hget⟩ := List.getElem?_eq_some_iff.mp hb
  rw [List.drop_eq_getElem_cons hlt, hget] at hperm
  have hpin : b ∈ s.pins := hperm.mem_iff.mpr (List.mem_cons_self ..)
  have hcom : s.committing = true := hi.log.committing.mpr ⟨t, hg⟩
  have hheld : ∀ u, (Function.update γ t { γ t with installed := (γ t).installed + 1 } u).held =
      (γ u).held := update_held rfl
  cases ho
  rw [hc.2]
  refine ⟨?_, ?_, fun u b' => ?_, fun u x hx => ?_, fun h => ?_, fun u hu => ?_⟩
  · rw [update_phase rfl, Function.update_eq_self]
    exact hi.log.congr rfl
  · refine (congrArg (Counted ROOTDEV _) ?_).mp (hi.refs.bunpin hc)
    funext b'
    have hpos := List.count_pos_iff.mpr hpin
    by_cases he : b' = b
    · subst he
      simp only [Function.update_self, uses, List.count_erase_self]
      omega
    · simp [uses, he]
  · rw [hheld]
    exact hi.users u b'
  · rw [hheld] at hx
    exact caches_bunpin.mpr (hi.held u x hx)
  · exact absurd hcom (by simp at h; simp [h])
  · have hut : u = t := by
      by_contra hne
      rw [Function.update_of_ne hne] at hu
      exact hne (hi.log.one u t hu hg)
    subst hut
    simp only [Function.update_self]
    refine ⟨hlh, ?_⟩
    have := hperm.erase b
    rwa [List.erase_cons_head] at this

end Steps

/-! ### The protocol -/

variable (start : BlockNo) (T)

def proto : Proto (sys start T) where
  Ghost := Holds
  Inv := Inv
  May _ _ := True
  Ok _ := True

variable {start T} {t : T} {g : Holds}

lemma spec_still {a : Act} (ha : Still a) : (proto T start).Spec t a g fun _ g' => g' = g :=
  Spec.of_step trivial
    (fun s γ c s' r hi hg ho => by rw [update_of_eq hg]; exact step_still c ha hi ho)
    fun _ _ _ _ _ _ _ => trivial

/-- A committing process reads the header that it found. -/
lemma spec_readN (hg : g.phase = .commit) :
    (proto T start).Spec t .readN g fun n g' => n = g.lh.length ∧ g' = g := by
  refine ⟨trivial, fun s γ c hi hgt o ho => ?_⟩
  replace hi : Inv s γ := hi
  cases ho
  subst hgt
  refine ⟨_, ?_, by rw [(hi.head t hg).1], rfl⟩
  rwa [Function.update_eq_self]

lemma spec_readBlock (hg : g.phase = .commit) (tail : ℕ) :
    (proto T start).Spec t (.readBlock tail) g fun b g' => b = g.lh.getD tail 0 ∧ g' = g := by
  refine ⟨trivial, fun s γ c hi hgt o ho => ?_⟩
  replace hi : Inv s γ := hi
  cases ho
  subst hgt
  refine ⟨_, ?_, by rw [(hi.head t hg).1], rfl⟩
  rwa [Function.update_eq_self]

lemma spec_beginTest (hg : g.phase = .out) : (proto T start).Spec t .beginTest g fun r g' =>
    g' = { g with phase := if r then .inOp else .out } :=
  Spec.of_step trivial
    (fun s γ c s' r hi hgt ho => by subst hgt; exact step_beginTest c hi hg ho)
    fun _ _ _ _ _ _ _ => trivial

lemma spec_endFirst (hg : g.phase = .inOp) : (proto T start).Spec t .endFirst g fun r g' =>
    ∃ lh, g' = if r then { g with phase := .commit, lh := lh, installed := 0 }
      else { g with phase := .out } := by
  refine ⟨trivial, fun s γ c hi hgt o ho => ?_⟩
  subst hgt
  cases o with
  | ok s' r => exact ⟨_, step_endFirst c hi hg ho, s.lh, rfl⟩
  | panic msg => trivial

lemma spec_endLast (hg : g.phase = .commit) (hl : g.lh = []) :
    (proto T start).Spec t .endLast g fun _ g' => g' = { g with phase := .out } :=
  Spec.of_step trivial
    (fun s γ c s' r hi hgt ho => by subst hgt; exact step_endLast c hi hg hl ho)
    fun _ _ _ _ _ _ _ => trivial

lemma spec_clearN (hg : g.phase = .commit) (hl : g.installed = g.lh.length) :
    (proto T start).Spec t .clearN g fun _ g' => g' = { g with lh := [], installed := 0 } :=
  Spec.of_step trivial
    (fun s γ c s' r hi hgt ho => by subst hgt; exact step_clearN c hi hg hl ho)
    fun _ _ _ _ _ _ _ => trivial

lemma spec_bget (b : BlockNo) : (proto T start).Spec t (.bget b) g fun i g' =>
    g' = { g with held := (b, i) :: g.held } :=
  Spec.of_step trivial
    (fun s γ c s' i hi hgt ho => by subst hgt; exact step_bget c hi ho)
    fun _ _ _ _ _ _ _ => trivial

lemma spec_putRef {b : BlockNo} {i : Fin NBUF} (hmem : (b, i) ∈ g.held) :
    (proto T start).Spec t (.putRef i) g fun _ g' =>
      g' = { g with held := g.held.erase (b, i) } :=
  Spec.of_step trivial
    (fun s γ c s' r hi hgt ho => by subst hgt; exact step_putRef c hi hmem ho)
    fun _ _ _ _ _ _ _ => trivial

lemma spec_logWrite {b : BlockNo} {i : Fin NBUF} (hg : g.phase = .inOp) (hmem : (b, i) ∈ g.held) :
    (proto T start).Spec t (.logWrite i) g fun _ g' => g' = g :=
  Spec.of_step trivial
    (fun s γ c s' r hi hgt ho => by
      subst hgt; rw [Function.update_eq_self]; exact step_logWrite c hi hg hmem ho)
    fun _ _ _ _ _ _ _ => trivial

lemma spec_bunpin {b : BlockNo} {i : Fin NBUF} (hg : g.phase = .commit)
    (hb : g.lh[g.installed]? = some b) (hmem : (b, i) ∈ g.held) :
    (proto T start).Spec t (.bunpin i) g fun _ g' =>
      g' = { g with installed := g.installed + 1 } :=
  Spec.of_step trivial
    (fun s γ c s' r hi hgt ho => by subst hgt; exact step_bunpin c hi hg hb hmem ho)
    fun _ _ _ _ _ _ _ => trivial

/-! ### The programs follow the protocol -/

section Programs

lemma wp_still {β : Type} {a : Act} {f : Res a → P β} {Q : β → Holds → Prop} (ha : Still a)
    (hf : ∀ r, (proto T start).wp t (f r) Q g) :
    (proto T start).wp t ((perform a).bind f) Q g :=
  wp_act (spec_still ha) fun r g' hg' => by subst hg'; exact hf r

/-- Going on after a piece of program whose ghost value is known at its end. -/
lemma wp_next {β δ : Type} {p : P β} {f : β → P δ} {Q : δ → Holds → Prop} {h : β → Holds}
    (hp : (proto T start).wp t p (fun r g' => g' = h r) g)
    (hf : ∀ r, (proto T start).wp t (f r) Q (h r)) : (proto T start).wp t (p.bind f) Q g :=
  wp_call hp fun r g' hg' => by subst hg'; exact hf r

lemma bread_wp (b : BlockNo) : (proto T start).wp t (bread b)
    (fun i g' => g' = { g with held := (b, i) :: g.held }) g := by
  refine wp_act (spec_bget b) fun i g' hg' => ?_
  subst hg'
  refine wp_still trivial fun _ => ?_
  exact wp_still trivial fun _ => rfl

lemma brelse_wp {b : BlockNo} {i : Fin NBUF} (hmem : (b, i) ∈ g.held) :
    (proto T start).wp t (brelse i) (fun _ g' => g' = { g with held := g.held.erase (b, i) }) g :=
  wp_still trivial fun _ => wp_perform (spec_putRef hmem)

omit [DecidableEq T] in
lemma with_phase {p : Phase} (h : g.phase = p) : { g with phase := p } = g := by subst h; rfl

lemma with_held {l : List (BlockNo × Fin NBUF)} (h : g.held = l) : { g with held := l } = g := by
  subst h; rfl

lemma beginOp_wp (hg : g.phase = .out) :
    (proto T start).wp t beginOp (fun _ g' => g' = { g with phase := .inOp }) g := by
  refine wp_iterate (fun _ g' => g' = g) rfl fun _ g' hg' => ?_
  subst hg'
  refine wp_act (spec_beginTest hg) fun r g' hg' => ?_
  subst hg'
  cases r with
  | true => rfl
  | false => exact wp_still trivial fun _ => with_phase hg

/-- Releasing the only buffer held. -/
lemma brelse_last (b : BlockNo) (i : Fin NBUF) : (proto T start).wp t (brelse i)
    (fun _ g' => g' = { g with held := [] }) { g with held := [(b, i)] } :=
  wp_mono (brelse_wp (b := b) (by simp)) fun _ g' hg' => by simpa using hg'

lemma writeHead_wp (hg : g.held = []) :
    (proto T start).wp t (writeHead start) (fun _ g' => g' = g) g := by
  refine wp_next (bread_wp start) fun buf => ?_
  refine wp_still trivial fun _ => wp_still trivial fun _ => ?_
  rw [hg]
  exact wp_mono (brelse_last start buf) fun _ g' hg' => by rw [hg', ← hg]

lemma writeLog_wp (hp : g.phase = .commit) (hg : g.held = []) :
    (proto T start).wp t (writeLog start) (fun _ g' => g' = g) g := by
  refine wp_iterate (fun _ g' => g' = g) rfl fun tail g' hg' => ?_
  subst hg'
  refine wp_act (spec_readN hp) fun n g' hn => ?_
  obtain ⟨-, rfl⟩ := hn
  split_ifs
  · refine wp_next (bread_wp (slot start tail)) fun toBuf => ?_
    refine wp_act (spec_readBlock (by exact hp) tail) fun b g'' hb => ?_
    obtain ⟨-, rfl⟩ := hb
    refine wp_next (bread_wp b) fun fromBuf => wp_still trivial fun _ => ?_
    refine wp_still trivial fun _ => ?_
    refine wp_next (brelse_wp (b := b) (by simp)) fun _ => ?_
    refine wp_next (brelse_wp (b := slot start tail) (by simp)) fun _ => ?_
    rw [hg, List.erase_cons_head, List.erase_cons_head]
    exact with_held hg
  · rfl

/-- The loop of `install_trans` unpins every block of the header. -/
lemma installTrans_wp (hp : g.phase = .commit) (hg : g.held = []) (h0 : g.installed = 0) :
    (proto T start).wp t (installTrans start)
      (fun _ g' => g' = { g with installed := g.lh.length }) g := by
  refine wp_iterate (fun tail g' => tail ≤ g.lh.length ∧ g' = { g with installed := tail })
    ⟨Nat.zero_le _, by rw [← h0]⟩ fun tail g' hg' => ?_
  obtain ⟨hle, rfl⟩ := hg'
  refine wp_act (spec_readN hp) fun n g' hn => ?_
  obtain ⟨rfl, rfl⟩ := hn
  split_ifs with hlt
  · refine wp_next (bread_wp (slot start tail)) fun lbuf => ?_
    refine wp_act (spec_readBlock (by exact hp) tail) fun b g'' hb => ?_
    obtain ⟨rfl, rfl⟩ := hb
    refine wp_next (bread_wp _) fun dbuf => wp_still trivial fun _ => wp_still trivial fun _ => ?_
    have hb : g.lh[tail]? = some (g.lh.getD tail 0) := by simp [List.getElem?_eq_getElem hlt]
    refine wp_act (spec_bunpin (by exact hp) hb (by simp)) fun _ g'' hg'' => ?_
    subst hg''
    refine wp_next (brelse_wp (b := slot start tail) (by simp)) fun _ => ?_
    refine wp_next (brelse_wp (b := g.lh.getD tail 0) ?_) fun _ => ?_
    · -- the two buffers may be one
      by_cases he : (g.lh.getD tail 0, dbuf) = (slot start tail, lbuf)
      · rw [he, List.erase_cons_head, ← he]
        exact List.mem_cons_self ..
      · rw [List.erase_cons_tail (by simpa using he)]
        exact List.mem_cons_self ..
    · refine ⟨hlt, ?_⟩
      have hnil : (((g.lh.getD tail 0, dbuf) :: (slot start tail, lbuf) :: g.held).erase
          (slot start tail, lbuf)).erase (g.lh.getD tail 0, dbuf) = g.held := by
        rw [hg, List.erase_comm, List.erase_cons_head, List.erase_cons_head]
      rw [hnil]
  · exact show _ = _ by rw [show tail = g.lh.length from le_antisymm hle (not_lt.mp hlt)]

lemma commit_wp (hp : g.phase = .commit) (hg : g.held = []) (h0 : g.installed = 0) :
    (proto T start).wp t (commit start)
      (fun _ g' => g' = { g with lh := [], installed := 0 }) g := by
  refine wp_act (spec_readN hp) fun n g' hn => ?_
  obtain ⟨rfl, rfl⟩ := hn
  split_ifs with hpos
  · refine wp_next (writeLog_wp hp hg) fun _ => wp_next (writeHead_wp hg) fun _ => ?_
    refine wp_next (installTrans_wp hp hg h0) fun _ => ?_
    refine wp_act (spec_clearN (by exact hp) rfl) fun _ g' hg' => ?_
    subst hg'
    exact writeHead_wp hg
  · have hnil : g'.lh = [] := List.length_eq_zero_iff.mp (Nat.eq_zero_of_not_pos hpos)
    exact show g' = _ by rw [← hnil, ← h0]; rfl

/-- A process between operations: it holds no buffer. -/
def Idle (g : Holds) : Prop := g.phase = .out ∧ g.held = []

lemma endOp_wp (hp : g.phase = .inOp) (hg : g.held = []) :
    (proto T start).wp t (endOp start) (fun _ g' => Idle g') g := by
  refine wp_act (spec_endFirst hp) fun r g' hg' => ?_
  obtain ⟨lh, rfl⟩ := hg'
  cases r with
  | true =>
    refine wp_next (commit_wp rfl hg rfl) fun _ => ?_
    exact wp_perform (Spec.mono (spec_endLast rfl rfl) fun _ g' hg' => hg' ▸ ⟨rfl, hg⟩)
  | false => exact ⟨rfl, hg⟩

lemma releaseAll_wp (held : List (BlockNo × Fin NBUF)) (hg : g.held = held) :
    (proto T start).wp t (releaseAll held) (fun _ g' => g' = { g with held := [] }) g := by
  induction held generalizing g with
  | nil => exact (with_held hg).symm
  | cons x held ih =>
    refine wp_next (brelse_wp (b := x.1) (by rw [hg]; exact List.mem_cons_self ..)) fun _ => ?_
    exact @ih { g with held := g.held.erase x } (by simp only [hg, List.erase_cons_head])

lemma lookup_eraseP {held : List (BlockNo × Fin NBUF)} {b : BlockNo} {i : Fin NBUF}
    (h : held.lookup b = some i) :
    (b, i) ∈ held ∧ held.eraseP (fun x => x.1 == b) = held.erase (b, i) := by
  induction held with
  | nil => simp at h
  | cons x held ih =>
    obtain ⟨b', i'⟩ := x
    by_cases hb : b' = b
    · subst hb
      simp only [List.lookup_cons_self, Option.some.injEq] at h
      simp [h]
    · have hbeq : (b == b') = false := by simpa using Ne.symm hb
      rw [List.lookup_cons, hbeq] at h
      obtain ⟨h1, h2⟩ := ih h
      refine ⟨List.mem_cons_of_mem _ h1, ?_⟩
      rw [List.eraseP_cons_of_neg (by simpa using hb), h2, List.erase_cons_tail (by simp [hb])]

lemma runCmds_wp (cs : List Cmd) (hp : g.phase = .inOp) :
    (proto T start).wp t (runCmds cs g.held) (fun _ g' => g' = { g with held := [] }) g := by
  induction cs generalizing g with
  | nil => exact releaseAll_wp _ rfl
  | cons cmd cs ih =>
    cases cmd with
    | bread b => exact wp_next (bread_wp b) fun i => @ih { g with held := (b, i) :: g.held } hp
    | store b v =>
      simp only [runCmds]
      cases g.held.lookup b with
      | some i => exact wp_still trivial fun _ => ih hp
      | none => exact ih hp
    | logWrite b =>
      simp only [runCmds]
      cases hl : g.held.lookup b with
      | some i =>
        refine wp_act (spec_logWrite hp (lookup_eraseP hl).1) fun _ g' hg' => ?_
        subst hg'
        exact ih hp
      | none => exact ih hp
    | brelse b =>
      simp only [runCmds]
      cases hl : g.held.lookup b with
      | some i =>
        refine wp_next (brelse_wp (lookup_eraseP hl).1) fun _ => ?_
        rw [(lookup_eraseP hl).2]
        exact @ih { g with held := g.held.erase (b, i) } hp
      | none => exact ih hp

lemma operation_wp (cs : List Cmd) (hg : Idle g) :
    (proto T start).wp t (operation start cs) (fun _ g' => Idle g') g := by
  refine wp_next (beginOp_wp hg.1) fun _ => ?_
  have hnil : ({ g with phase := .inOp } : Holds).held = [] := hg.2
  rw [← hnil]
  exact wp_next (runCmds_wp cs rfl) fun _ => endOp_wp rfl rfl

end Programs

lemma enters : (proto T start).Enters fun _ _ g => Idle g := by
  rintro t s γ p s' p' hi hw ⟨rfl, rfl, cs, rfl⟩
  exact ⟨γ t, by rwa [Function.update_eq_self], operation_wp cs hw⟩

lemma inv_init (disk : BlockNo → Block) : Inv (init T disk).shared fun _ => ⟨.out, [], [], 0⟩ where
  log := Exclusion.inv_init disk
  refs := by
    refine ⟨by simp [init, Bio.Cache.binit], fun i j b hi => ?_, fun i => ?_, fun b hb => ?_⟩
    · exact absurd hi.1 (by simp [init, Bio.Cache.binit, ROOTDEV])
    · simp [init, Bio.Cache.binit, ROOTDEV]
    · simp [uses, init] at hb
  users := by simp [init]
  held := by simp
  idle := by simp [init]
  head := by simp

lemma follows_init (disk : BlockNo → Block) :
    (proto T start).Follows (fun _ _ g => Idle g) (init T disk) :=
  ⟨_, inv_init disk, fun _ => ⟨rfl, rfl⟩⟩

/-! ### When `bget` finds no buffer -/

/-- No operation logs more than `MAXOPBLOCKS` distinct blocks, and nobody asks for a third
buffer. -/
def ration (t : T) : Act → St T → Bool
  | .bget _, s => (s.users.filter fun u => u.1 = t).length < 2
  | a, s => Reserve.limit t a s

/-- `bget` is asked for a block that is not in use when `NBUF` others are. -/
def exhausting : Act → St T → Bool
  | .bget b, s => b ∉ inUse s ∧ NBUF ≤ (inUse s).card
  | _, _ => false

/-- The runs in which every process keeps to its ration. -/
def rationed (start : BlockNo) (T : Type) [DecidableEq T] : Sys (St T) T Bool Act Res Unit :=
  (sys start T).restrict fun t a s => ration t a s

/-- The runs in which, moreover, no block is asked for when too many others are in use. -/
def spared (start : BlockNo) (T : Type) [DecidableEq T] : Sys (St T) T Bool Act Res Unit :=
  (rationed start T).restrict fun _ a s => ¬ exhausting a s

end Xv6.Log.Buffers
