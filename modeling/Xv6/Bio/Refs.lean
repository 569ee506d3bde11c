import Xv6.Bio.Cache

/-!
Reference counts of the buffer cache. While `uses` counts the references to each block of a
device, from `bget` to `brelse` and by pins, a buffer's `refcnt` is the count of its block.
-/

namespace Xv6.Bio.Refs

open Xv6.Disk Xv6.Param Xv6.Bio.Cache

variable {T : Type} {dev : UInt32} {c c' : Bcache T} {uses : BlockNo → ℕ} {i j : Fin NBUF}
  {b : BlockNo}

/-- Buffer `i` is the one for block `b`. -/
def Caches (dev : UInt32) (c : Bcache T) (i : Fin NBUF) (b : BlockNo) : Prop :=
  (c.buf i).dev = dev ∧ (c.buf i).blockno = b

structure Counted (dev : UInt32) (c : Bcache T) (uses : BlockNo → ℕ) : Prop where
  lru : ∀ i, i ∈ c.lru
  inj : ∀ i j b, Caches dev c i b → Caches dev c j b → i = j
  count : ∀ i, (c.buf i).refcnt = if (c.buf i).dev = dev then uses (c.buf i).blockno else 0
  present : ∀ b, 0 < uses b → ∃ i, Caches dev c i b

@[simp] lemma setBuf_buf (i j : Fin NBUF) (v : Buf T) (c : Bcache T) :
    (setBuf i v c).buf j = if j = i then v else c.buf j := by
  simp [setBuf, Function.update_apply]

@[simp] lemma setBuf_lru (i : Fin NBUF) (v : Buf T) (c : Bcache T) :
    (setBuf i v c).lru = c.lru := rfl

lemma Counted.refcnt (h : Counted dev c uses) (hi : Caches dev c i b) : (c.buf i).refcnt = uses b := by
  rw [h.count i, if_pos hi.1, hi.2]

/-! ### Lookups -/

lemma caches_of_cached (h : cached dev b c = some i) : Caches dev c i b := by
  simpa [Caches] using List.find?_some h

lemma cached_eq_none (h : Counted dev c uses) : cached dev b c = none ↔ ∀ i, ¬ Caches dev c i b := by
  simp [cached, Caches, List.find?_eq_none, h.lru]

lemma refcnt_of_unused (h : unused c = some i) : (c.buf i).refcnt = 0 := by
  simpa using List.find?_some h

lemma unused_eq_none (h : Counted dev c uses) : unused c = none ↔ ∀ i, (c.buf i).refcnt ≠ 0 := by
  simp [unused, List.find?_eq_none, h.lru]

/-! ### Updates -/

/-- What is cached where, and how often it is referred to. -/
def key (c : Bcache T) (i : Fin NBUF) : UInt32 × BlockNo × ℕ :=
  ((c.buf i).dev, (c.buf i).blockno, (c.buf i).refcnt)

lemma caches_congr (hk : key c' = key c) : Caches dev c' i b ↔ Caches dev c i b := by
  have := congrFun hk i
  simp only [key, Prod.mk.injEq] at this
  rw [Caches, Caches, this.1, this.2.1]

/-- What neither moves a block nor a reference keeps the counts. -/
lemma Counted.congr (h : Counted dev c uses) (hk : key c' = key c) (hl : ∀ i, i ∈ c'.lru) :
    Counted dev c' uses := by
  refine ⟨hl, fun i j b hi hj => ?_, fun i => ?_, fun b hb => ?_⟩
  · exact h.inj i j b ((caches_congr hk).mp hi) ((caches_congr hk).mp hj)
  · have := congrFun hk i
    simp only [key, Prod.mk.injEq] at this
    rw [this.1, this.2.1, this.2.2, h.count i]
  · obtain ⟨i, hi⟩ := h.present b hb
    exact ⟨i, (caches_congr hk).mpr hi⟩

/-- Changing reference counts moves no block. -/
lemma caches_setCount (n : ℕ) :
    Caches dev (setBuf i { c.buf i with refcnt := n } c) j b ↔ Caches dev c j b := by
  by_cases hj : j = i
  · subst hj; simp [Caches]
  · simp [Caches, hj]

/-- Setting the reference count of the buffer for `b`. -/
lemma Counted.setCount (h : Counted dev c uses) (hi : Caches dev c i b) (n : ℕ) :
    Counted dev (setBuf i { c.buf i with refcnt := n } c) (Function.update uses b n) := by
  refine ⟨h.lru, fun j k b' hj hk => ?_, fun j => ?_, fun b' hb' => ?_⟩
  · exact h.inj j k b' ((caches_setCount n).mp hj) ((caches_setCount n).mp hk)
  · by_cases hj : j = i
    · subst hj
      obtain ⟨h1, h2⟩ := hi
      simp [h1, h2]
    · simp only [setBuf_buf, if_neg hj]
      rw [h.count j]
      split_ifs with hd
      · have hne : (c.buf j).blockno ≠ b := fun he => hj (h.inj j i b ⟨hd, he⟩ hi)
        rw [Function.update_of_ne hne]
      · rfl
  · by_cases he : b' = b
    · subst he
      exact ⟨i, (caches_setCount n).mpr hi⟩
    · rw [Function.update_of_ne he] at hb'
      obtain ⟨j, hj⟩ := h.present b' hb'
      exact ⟨j, (caches_setCount n).mpr hj⟩

/-- Recycling a buffer that nobody refers to for a block that is not cached. -/
lemma Counted.recycle (h : Counted dev c uses) (hi : (c.buf i).refcnt = 0)
    (hb : ∀ j, ¬ Caches dev c j b) : Counted dev
      (setBuf i { c.buf i with dev := dev, blockno := b, valid := false, refcnt := 1 } c)
      (Function.update uses b 1) := by
  refine ⟨h.lru, fun j k b' hj hk => ?_, fun j => ?_, fun b' hb' => ?_⟩
  · by_cases hji : j = i <;> by_cases hki : k = i
    · rw [hji, hki]
    · simp only [Caches, setBuf_buf, hji, hki, if_true, if_false, true_and] at hj hk
      exact absurd ⟨hk.1, hk.2.trans hj.symm⟩ (hb k)
    · simp only [Caches, setBuf_buf, hji, hki, if_true, if_false, true_and] at hj hk
      exact absurd ⟨hj.1, hj.2.trans hk.symm⟩ (hb j)
    · simp only [Caches, setBuf_buf, hji, hki, if_false] at hj hk
      exact h.inj j k b' hj hk
  · by_cases hj : j = i
    · simp [hj]
    · simp only [setBuf_buf, if_neg hj]
      rw [h.count j]
      split_ifs with hd
      · rw [Function.update_of_ne fun he => hb j ⟨hd, he⟩]
      · rfl
  · by_cases he : b' = b
    · exact ⟨i, by simp [Caches, he]⟩
    · rw [Function.update_of_ne he] at hb'
      obtain ⟨j, hj⟩ := h.present b' hb'
      have hji : j ≠ i := fun hji => by
        have := h.refcnt hj
        rw [hji, hi] at this
        omega
      exact ⟨j, by simpa [Caches, hji] using hj⟩

/-! ### What the cache operations do to the counts -/

lemma Counted.bget (h : Counted dev c uses) (hg : bget dev b c = some (i, c')) :
    Counted dev c' (Function.update uses b (uses b + 1)) ∧ Caches dev c' i b ∧
      ∀ j b', 0 < uses b' → Caches dev c j b' → Caches dev c' j b' := by
  unfold Cache.bget at hg
  split at hg
  · rename_i k hk
    have hc := caches_of_cached hk
    simp only [Option.some.injEq, Prod.mk.injEq] at hg
    obtain ⟨rfl, rfl⟩ := hg
    rw [h.refcnt hc]
    exact ⟨h.setCount hc _, (caches_setCount _).mpr hc, fun j b' _ hj => (caches_setCount _).mpr hj⟩
  · rename_i hk
    have hnone := (cached_eq_none h).mp hk
    have hzero : uses b = 0 := by
      by_contra hne
      obtain ⟨j, hj⟩ := h.present b (Nat.pos_of_ne_zero hne)
      exact hnone j hj
    split at hg
    · rename_i k hu
      have href := refcnt_of_unused hu
      simp only [Option.some.injEq, Prod.mk.injEq] at hg
      obtain ⟨rfl, rfl⟩ := hg
      rw [hzero]
      refine ⟨h.recycle href hnone, by simp [Caches], fun j b' hb' hj => ?_⟩
      have hjk : j ≠ k := fun hjk => by
        have := h.refcnt hj
        rw [hjk, href] at this
        omega
      simpa [Caches, hjk] using hj
    · cases hg

lemma Counted.bpin (h : Counted dev c uses) (hi : Caches dev c i b) :
    Counted dev (bpin i c) (Function.update uses b (uses b + 1)) := by
  unfold Cache.bpin
  rw [h.refcnt hi]
  exact h.setCount hi _

lemma Counted.bunpin (h : Counted dev c uses) (hi : Caches dev c i b) :
    Counted dev (bunpin i c) (Function.update uses b (uses b - 1)) := by
  unfold Cache.bunpin
  rw [h.refcnt hi]
  exact h.setCount hi _

lemma Counted.putRef (h : Counted dev c uses) (hi : Caches dev c i b) :
    Counted dev (putRef i c) (Function.update uses b (uses b - 1)) := by
  have hun := h.bunpin hi
  refine hun.congr (by unfold Cache.putRef key Cache.bunpin; dsimp only; split_ifs <;> rfl) ?_
  intro j
  unfold Cache.putRef
  dsimp only
  split_ifs with h0
  · by_cases hj : j = i
    · simp [hj]
    · exact List.mem_cons_of_mem _ ((List.mem_erase_of_ne hj).mpr (hun.lru j))
  · exact hun.lru j

lemma caches_bpin : Caches dev (bpin i c) j b ↔ Caches dev c j b := caches_setCount _

lemma caches_bunpin : Caches dev (bunpin i c) j b ↔ Caches dev c j b := caches_setCount _

lemma caches_putRef : Caches dev (putRef i c) j b ↔ Caches dev c j b := by
  unfold Cache.putRef
  dsimp only
  split_ifs
  · exact caches_setCount _
  · exact caches_setCount _

/-! ### When no buffer is left -/

end Xv6.Bio.Refs
