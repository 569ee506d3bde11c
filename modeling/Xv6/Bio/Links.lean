import Xv6.Bio.Refs
import Xv6.Data.Linked

/-!
The links of the buffer cache. The kernel keeps its buffers in a circular list through `prev` and
`next`, and its functions relink them; over any run of calls they do what the functions on the
list of buffers do, the buffer that is recycled is the one that was released longest ago, and a
block has one buffer for as long as it is referenced.
-/

namespace Xv6.Bio.Links

open Xv6.Disk Xv6.Param Xv6.Bio.Cache Xv6.Bio.Refs Xv6.Data.Linked

/-- `bcache`. `links` are the fields `prev` and `next` of the buffers and of `head`. -/
structure Chained (T : Type) where
  buf : Fin NBUF → Buf T
  links : Links (Fin NBUF)

/-- Why a call does not return. -/
inductive Stop where
  /-- A loop goes on after `NBUF` buffers. -/
  | rounds
  /-- `bget: no buffers`. -/
  | panic
  /-- A reference is given back that nobody holds, which no caller does. -/
  | unheld
  deriving DecidableEq

variable {T : Type}

def binit : Chained T where
  buf _ := ⟨0, 0, false, 0, none, zero⟩
  links := (List.finRange NBUF).foldl (fun l b => l.link b) Links.empty

def Chained.setBuf (i : Fin NBUF) (b : Buf T) (c : Chained T) : Chained T :=
  { c with buf := Function.update c.buf i b }

/-- The part of `bget` under `bcache.lock`. -/
def bget (dev : UInt32) (blockno : BlockNo) (c : Chained T) : Except Stop (Fin NBUF × Chained T) :=
  -- Is the block already cached?
  match walk c.links.next (fun i => (c.buf i).dev = dev ∧ (c.buf i).blockno = blockno) (NBUF + 1)
      (c.links.next none) with
  | none => .error .rounds
  | some (some i) => .ok (i, c.setBuf i { c.buf i with refcnt := (c.buf i).refcnt + 1 })
  | some none =>
    match walk c.links.prev (fun i => (c.buf i).refcnt = 0) (NBUF + 1) (c.links.prev none) with
    | none => .error .rounds
    | some (some i) => .ok (i, c.setBuf i
        { c.buf i with dev := dev, blockno := blockno, valid := false, refcnt := 1 })
    | some none => .error .panic

/-- The part of `brelse` under `bcache.lock`. -/
def putRef (i : Fin NBUF) (c : Chained T) : Chained T :=
  let c := c.setBuf i { c.buf i with refcnt := (c.buf i).refcnt - 1 }
  if (c.buf i).refcnt = 0 then { c with links := (c.links.unlink i).link i } else c

def bpin (i : Fin NBUF) (c : Chained T) : Chained T :=
  c.setBuf i { c.buf i with refcnt := (c.buf i).refcnt + 1 }

def bunpin (i : Fin NBUF) (c : Chained T) : Chained T :=
  c.setBuf i { c.buf i with refcnt := (c.buf i).refcnt - 1 }

/-! ### Runs -/

/-- What happens to the cache. `change` is what the holder of a buffer's sleeplock, or whoever takes
the lock, does to it outside `bcache.lock`. -/
inductive Op (T : Type) where
  | get (dev : UInt32) (blockno : BlockNo)
  | put (i : Fin NBUF)
  | pin (i : Fin NBUF)
  | unpin (i : Fin NBUF)
  | change (i : Fin NBUF) (valid : Bool) (lock : Option T) (data : Block)

def step : Op T → Chained T → Except Stop (Option (Fin NBUF) × Chained T)
  | .get dev blockno, c => (bget dev blockno c).map (Prod.map some id)
  | .put i, c => if (c.buf i).refcnt = 0 then .error .unheld else .ok (none, putRef i c)
  | .pin i, c => .ok (none, bpin i c)
  | .unpin i, c => if (c.buf i).refcnt = 0 then .error .unheld else .ok (none, bunpin i c)
  | .change i valid lock data, c =>
    .ok (none, c.setBuf i { c.buf i with valid := valid, lock := lock, data := data })

/-- `bget` on the list, as an answer or a reason to stop. -/
def listBget (dev : UInt32) (blockno : BlockNo) (a : Bcache T) :
    Except Stop (Fin NBUF × Bcache T) :=
  match Cache.bget dev blockno a with
  | some (i, a') => .ok (i, a')
  | none => .error .panic

/-- `step` with the list of the buffers for their links. -/
def listStep : Op T → Bcache T → Except Stop (Option (Fin NBUF) × Bcache T)
  | .get dev blockno, a => (listBget dev blockno a).map (Prod.map some id)
  | .put i, a => if (a.buf i).refcnt = 0 then .error .unheld else .ok (none, Cache.putRef i a)
  | .pin i, a => .ok (none, Cache.bpin i a)
  | .unpin i, a => if (a.buf i).refcnt = 0 then .error .unheld else .ok (none, Cache.bunpin i a)
  | .change i valid lock data, a =>
    .ok (none, setBuf i { a.buf i with valid := valid, lock := lock, data := data } a)

/-- The answers to a list of calls, and the cache after them. -/
def run {C : Type} (step : Op T → C → Except Stop (Option (Fin NBUF) × C)) :
    List (Op T) → C → Except Stop (List (Option (Fin NBUF)) × C)
  | [], c => .ok ([], c)
  | op :: ops, c => (step op c).bind fun r => (run step ops r.2).map (Prod.map (r.1 :: ·) id)

/-- The links are those of the list, which every buffer is in. -/
structure Shows (c : Chained T) (a : Bcache T) : Prop where
  buf : c.buf = a.buf
  circle : Circle c.links a.lru
  whole : ∀ i, i ∈ a.lru

/-- The block that a buffer is for. -/
def block (buf : Fin NBUF → Buf T) (i : Fin NBUF) : UInt32 × BlockNo :=
  ((buf i).dev, (buf i).blockno)

/-- One answer, and caches that show one another; or one reason to stop, and no loop too long. -/
def Agrees {α : Type} : Except Stop (α × Chained T) → Except Stop (α × Bcache T) → Prop
  | .ok (x, c), .ok (y, a) => x = y ∧ Shows c a
  | .error e, .error e' => e = e' ∧ e ≠ .rounds
  | _, _ => False

variable {c c' : Chained T} {a a' : Bcache T} {i j : Fin NBUF} {dev : UInt32} {blockno : BlockNo}
  {op : Op T} {ops : List (Op T)} {answer : Option (Fin NBUF)}

lemma Shows.setBuf (h : Shows c a) (i : Fin NBUF) (b : Buf T) :
    Shows (c.setBuf i b) (Cache.setBuf i b a) := by
  obtain ⟨buf, links⟩ := c
  obtain ⟨rfl, hcircle, hwhole⟩ := h
  exact ⟨rfl, hcircle, hwhole⟩

/-- What changes a buffer changes it in both. -/
lemma Shows.change (h : Shows c a) (i : Fin NBUF) (f : Buf T → Buf T) :
    Shows (c.setBuf i (f (c.buf i))) (Cache.setBuf i (f (a.buf i)) a) :=
  h.buf ▸ h.setBuf i (f (c.buf i))

lemma Shows.length (h : Shows c a) : a.lru.length < NBUF + 1 := by
  have hcard := h.circle.nodup.length_le_card
  rw [Fintype.card_fin] at hcard
  exact Nat.lt_succ_of_le hcard

lemma shows_binit : Shows (binit : Chained T) Cache.binit := by
  have hall := circle_empty.link_all (List.nodup_finRange NBUF) fun _ _ => List.not_mem_nil
  rw [List.append_nil] at hall
  exact ⟨rfl, hall, fun i => List.mem_reverse.mpr (List.mem_finRange i)⟩

/-! ### What the functions do to the list -/

lemma Shows.bget (h : Shows c a) : Agrees (bget dev blockno c) (listBget dev blockno a) := by
  have hnext := h.circle.walk_next (p := fun i => (a.buf i).dev = dev ∧ (a.buf i).blockno = blockno)
    h.length
  have hprev := h.circle.walk_prev (p := fun i => (a.buf i).refcnt = 0) h.length
  unfold Links.bget listBget Cache.bget Cache.cached Cache.unused
  rw [h.buf, hnext, hprev]
  cases List.find? (fun i => decide ((a.buf i).dev = dev ∧ (a.buf i).blockno = blockno)) a.lru with
  | some i => exact ⟨rfl, h.setBuf i _⟩
  | none =>
    cases List.find? (fun i => decide ((a.buf i).refcnt = 0)) a.lru.reverse with
    | some i => exact ⟨rfl, h.setBuf i _⟩
    | none => exact ⟨rfl, Stop.noConfusion⟩

/-- `bget` finds the block or takes an unused buffer for one that is not cached. -/
lemma listBget_cases (hwhole : ∀ i, i ∈ a.lru) (h : listBget dev blockno a = .ok (i, a')) :
    (block a.buf i = (dev, blockno) ∧
        a' = setBuf i { a.buf i with refcnt := (a.buf i).refcnt + 1 } a) ∨
      ((∀ j, block a.buf j ≠ (dev, blockno)) ∧ (a.buf i).refcnt = 0 ∧
        a' = setBuf i { a.buf i with
          dev := dev, blockno := blockno, valid := false, refcnt := 1 } a) := by
  unfold listBget Cache.bget at h
  cases hcached : cached dev blockno a with
  | some k =>
    rw [hcached] at h
    cases h
    have hk := caches_of_cached hcached
    exact Or.inl ⟨Prod.ext hk.1 hk.2, rfl⟩
  | none =>
    rw [hcached] at h
    cases hunused : unused a with
    | none => rw [hunused] at h; cases h
    | some k =>
      rw [hunused] at h
      cases h
      refine Or.inr ⟨fun j hj => ?_, refcnt_of_unused hunused, rfl⟩
      obtain ⟨hdev, hblockno⟩ := Prod.ext_iff.mp hj
      exact List.find?_eq_none.mp hcached j (hwhole j) (decide_eq_true ⟨hdev, hblockno⟩)

lemma setBuf_self (i : Fin NBUF) (b : Buf T) (a : Bcache T) : (setBuf i b a).buf i = b := by
  simp [setBuf]

/-- What a step can do. It changes one buffer, which stays with its block, or has no references and
is taken for a block that no buffer is for; and it leaves the list alone, or frees the buffer and
moves it to the front. -/
lemma listStep_cases (hwhole : ∀ i, i ∈ a.lru) (h : listStep op a = .ok (answer, a')) :
    ∃ i b, a'.buf = Function.update a.buf i b ∧
      ((b.dev = (a.buf i).dev ∧ b.blockno = (a.buf i).blockno) ∨
        ((a.buf i).refcnt = 0 ∧ ∀ j, block a.buf j ≠ (b.dev, b.blockno))) ∧
      ((op = .put i ∧ (a.buf i).refcnt = 1 ∧ a'.lru = i :: a.lru.erase i) ∨
        ((∀ j, op = .put j → (a.buf j).refcnt ≠ 1) ∧ a'.lru = a.lru)) := by
  cases op with
  | get dev blockno =>
    rw [listStep] at h
    cases hb : listBget dev blockno a with
    | error e => rw [hb] at h; cases h
    | ok r =>
      rw [hb] at h
      cases h
      rcases listBget_cases hwhole hb with ⟨-, he⟩ | ⟨hnew, hzero, he⟩
      · refine ⟨r.1, _, congrArg Bcache.buf he, Or.inl ⟨rfl, rfl⟩, Or.inr ⟨?_, ?_⟩⟩
        · exact fun _ he => nomatch he
        · exact (congrArg Bcache.lru he : r.2.lru = _)
      · refine ⟨r.1, _, congrArg Bcache.buf he, Or.inr ⟨hzero, hnew⟩, Or.inr ⟨?_, ?_⟩⟩
        · exact fun _ he => nomatch he
        · exact (congrArg Bcache.lru he : r.2.lru = _)
  | put i =>
    rw [listStep] at h
    split_ifs at h with h0
    cases h
    refine ⟨i, { a.buf i with refcnt := (a.buf i).refcnt - 1 }, ?_, Or.inl ⟨rfl, rfl⟩, ?_⟩
    · unfold Cache.putRef
      dsimp only
      split_ifs <;> rfl
    · unfold Cache.putRef
      dsimp only
      rw [setBuf_self]
      dsimp only
      split_ifs with h1
      · exact Or.inl ⟨rfl, by omega, rfl⟩
      · refine Or.inr ⟨fun j hj => ?_, rfl⟩
        cases hj
        omega
  | pin i => cases h; exact ⟨i, _, rfl, Or.inl ⟨rfl, rfl⟩, Or.inr ⟨(fun _ he => nomatch he), rfl⟩⟩
  | unpin i =>
    rw [listStep] at h
    split_ifs at h
    cases h
    exact ⟨i, _, rfl, Or.inl ⟨rfl, rfl⟩, Or.inr ⟨(fun _ he => nomatch he), rfl⟩⟩
  | change i valid lock data =>
    cases h
    exact ⟨i, _, rfl, Or.inl ⟨rfl, rfl⟩, Or.inr ⟨(fun _ he => nomatch he), rfl⟩⟩

/-- A buffer goes to the front. -/
lemma Shows.relink (h : Shows c a) (i : Fin NBUF) :
    Shows { c with links := (c.links.unlink i).link i } { a with lru := i :: a.lru.erase i } := by
  refine ⟨h.buf, ?_, fun j => ?_⟩
  · exact (h.circle.unlink (h.whole i)).link (List.Nodup.not_mem_erase h.circle.nodup)
  · by_cases hj : j = i
    · exact hj ▸ List.mem_cons_self
    · exact List.mem_cons_of_mem i ((List.mem_erase_of_ne hj).mpr (h.whole j))

lemma Shows.putRef (h : Shows c a) (i : Fin NBUF) : Shows (putRef i c) (Cache.putRef i a) := by
  obtain ⟨buf, links⟩ := c
  obtain ⟨rfl, hcircle, hwhole⟩ := h
  have hset := Shows.setBuf ⟨rfl, hcircle, hwhole⟩ i
    { a.buf i with refcnt := (a.buf i).refcnt - 1 }
  unfold Links.putRef Cache.putRef
  dsimp only
  split_ifs with h0 h1 h1
  · exact hset.relink i
  · exact absurd h0 h1
  · exact absurd h1 h0
  · exact hset

lemma Agrees.ok {α : Type} {x : α} {r : Except Stop (α × Bcache T)} (h : Agrees (.ok (x, c)) r) :
    ∃ a, r = .ok (x, a) ∧ Shows c a := by
  cases r with
  | error e => exact h.elim
  | ok y =>
    obtain ⟨y, a⟩ := y
    obtain ⟨rfl, hshows⟩ := h
    exact ⟨a, rfl, hshows⟩

lemma Agrees.error {α : Type} {e : Stop} {r : Except Stop (α × Bcache T)}
    (h : Agrees (.error e : Except Stop (α × Chained T)) r) : r = .error e ∧ e ≠ .rounds := by
  cases r with
  | error e' => exact ⟨congrArg Except.error h.1.symm, h.2⟩
  | ok y => exact h.elim

lemma Agrees.map {α β : Type} {r : Except Stop (α × Chained T)} {r' : Except Stop (α × Bcache T)}
    (h : Agrees r r') (f : α → β) : Agrees (r.map (Prod.map f id)) (r'.map (Prod.map f id)) := by
  cases r with
  | error e =>
    obtain ⟨rfl, hne⟩ := h.error
    exact ⟨rfl, hne⟩
  | ok x =>
    obtain ⟨a, rfl, hshows⟩ := h.ok
    exact ⟨rfl, hshows⟩

lemma shows_step (h : Shows c a) (op : Op T) : Agrees (step op c) (listStep op a) := by
  cases op with
  | get dev blockno => exact h.bget.map some
  | put i =>
    rw [step, listStep, h.buf]
    split_ifs
    · exact ⟨rfl, Stop.noConfusion⟩
    · exact ⟨rfl, h.putRef i⟩
  | pin i => exact ⟨rfl, h.change i fun b => { b with refcnt := b.refcnt + 1 }⟩
  | unpin i =>
    rw [step, listStep, h.buf]
    split_ifs
    · exact ⟨rfl, Stop.noConfusion⟩
    · exact ⟨rfl, h.change i fun b => { b with refcnt := b.refcnt - 1 }⟩
  | change i valid lock data =>
    exact ⟨rfl, h.change i fun b => { b with valid := valid, lock := lock, data := data }⟩

lemma shows_run (h : Shows c a) (ops : List (Op T)) :
    Agrees (run step ops c) (run listStep ops a) := by
  induction ops generalizing c a with
  | nil => exact ⟨rfl, h⟩
  | cons op ops ih =>
    have hstep := shows_step h op
    rw [run, run]
    cases hr : step op c with
    | error e =>
      rw [hr] at hstep
      obtain ⟨hr', hne⟩ := hstep.error
      rw [hr']
      exact ⟨rfl, hne⟩
    | ok r =>
      rw [hr] at hstep
      obtain ⟨a', hr', hshows⟩ := hstep.ok
      rw [hr']
      exact (ih hshows).map (r.1 :: ·)

/-- **The links refine the list**: whatever calls are made of the cache, the functions that relink
the buffers give the same answers, or stop for the same reason, as the functions on the list, and no
loop of theirs goes round. -/
theorem run_agrees (ops : List (Op T)) :
    Agrees (run step ops binit) (run listStep ops Cache.binit) :=
  shows_run shows_binit ops

/-! ### Which buffer is recycled -/

/-- The cache in the course of a run. `freed` tells when a buffer was last moved to the front, and
is 0 for one that never was. -/
structure Moment (T : Type) where
  cache : Chained T
  now : ℕ
  freed : Fin NBUF → ℕ

def start : Moment T := ⟨binit, 0, fun _ => 0⟩

/-- Whether a call is the `brelse` of the last reference to a buffer. A `bunpin` of the last
reference moves nothing. -/
def Op.frees : Op T → Chained T → Fin NBUF → Bool
  | .put i, c, j => j = i ∧ (c.buf i).refcnt = 1
  | _, _, _ => false

def tick (op : Op T) (m : Moment T) : Except Stop (Moment T) :=
  (step op m.cache).map fun r =>
    ⟨r.2, m.now + 1, fun i => if op.frees m.cache i then m.now + 1 else m.freed i⟩

def history (ops : List (Op T)) : Except Stop (Moment T) := ops.foldlM (fun m op => tick op m) start

/-- Buffer `i` was freed before `j`, or neither ever was and it comes before `j`. -/
def Older (freed : Fin NBUF → ℕ) (i j : Fin NBUF) : Prop :=
  freed i < freed j ∨ freed i = freed j ∧ i < j

/-- The list has the buffers in the order in which they were freed. -/
structure Ordered (m : Moment T) (a : Bcache T) : Prop where
  shows : Shows m.cache a
  sorted : a.lru.Pairwise fun i j => Older m.freed j i
  past : ∀ i, m.freed i ≤ m.now

variable {m m' : Moment T}

lemma ordered_start : Ordered (start : Moment T) Cache.binit := by
  refine ⟨shows_binit, ?_, fun _ => Nat.le_refl 0⟩
  refine List.pairwise_reverse.mpr ((List.pairwise_lt_finRange NBUF).imp fun hlt => ?_)
  exact Or.inr ⟨rfl, hlt⟩

/-- Freeing a buffer now makes it the youngest. -/
lemma sorted_front {freed : Fin NBUF → ℕ} {now : ℕ} {xs : List (Fin NBUF)}
    (h : xs.Pairwise fun i j => Older freed j i) (hn : xs.Nodup) (hpast : ∀ j, freed j ≤ now)
    (i : Fin NBUF) :
    (i :: xs.erase i).Pairwise fun j k => Older (Function.update freed i (now + 1)) k j := by
  refine List.pairwise_cons.mpr ⟨fun j hj => ?_, ?_⟩
  · have hne : j ≠ i := (hn.mem_erase_iff.mp hj).1
    refine Or.inl ?_
    rw [Function.update_of_ne hne, Function.update_self]
    exact Nat.lt_succ_of_le (hpast j)
  · refine (h.sublist List.erase_sublist).imp_of_mem fun {j k} hj hk hjk => ?_
    have hj' := (hn.mem_erase_iff.mp hj).1
    have hk' := (hn.mem_erase_iff.mp hk).1
    rw [Older, Function.update_of_ne hj', Function.update_of_ne hk']
    exact hjk

lemma freed_put (i : Fin NBUF) (h : (c.buf i).refcnt = 1) (now : ℕ) (freed : Fin NBUF → ℕ) :
    (fun j => if (Op.put i).frees c j then now else freed j) = Function.update freed i now := by
  funext j
  simp [Op.frees, h, Function.update_apply]

lemma freed_same (h : ∀ i, op = .put i → (c.buf i).refcnt ≠ 1) (now : ℕ) (freed : Fin NBUF → ℕ) :
    (fun j => if op.frees c j then now else freed j) = freed := by
  funext j
  refine if_neg fun hf => ?_
  cases op with
  | put i => exact h i rfl (of_decide_eq_true hf).2
  | get _ _ => cases hf
  | pin _ => cases hf
  | unpin _ => cases hf
  | change _ _ _ _ => cases hf

lemma Ordered.tick (h : Ordered m a) (ht : tick op m = .ok m') : ∃ a', Ordered m' a' := by
  have hstep := shows_step h.shows op
  rw [Links.tick] at ht
  cases hr : step op m.cache with
  | error e => rw [hr] at ht; cases ht
  | ok r =>
    rw [hr] at ht hstep
    cases ht
    obtain ⟨a', hr', hshows⟩ := hstep.ok
    refine ⟨a', hshows, ?_, fun i => ?_⟩
    · dsimp only
      obtain ⟨i, -, -, -, ⟨rfl, href, hlru⟩ | ⟨hnot, hlru⟩⟩ := listStep_cases h.shows.whole hr'
      · rw [hlru, freed_put i (h.shows.buf ▸ href)]
        exact sorted_front h.sorted h.shows.circle.nodup h.past i
      · rw [hlru, freed_same (h.shows.buf ▸ hnot)]
        exact h.sorted
    · dsimp only
      split_ifs
      · exact Nat.le_refl _
      · exact Nat.le_succ_of_le (h.past i)

lemma history_ordered (h : history ops = .ok m) : ∃ a, Ordered m a := by
  suffices hrun : ∀ m₀ : Moment T, (∃ a, Ordered m₀ a) →
      ops.foldlM (fun m op => tick op m) m₀ = .ok m → ∃ a, Ordered m a from
    hrun start ⟨_, ordered_start⟩ h
  clear h
  induction ops with
  | nil =>
    intro m₀ hm h
    cases h
    exact hm
  | cons op ops ih =>
    rintro m₀ ⟨a, ha⟩ h
    rw [List.foldlM_cons] at h
    cases ht : tick op m₀ with
    | error e => rw [ht] at h; cases h
    | ok m₁ =>
      rw [ht] at h
      exact ih m₁ (ha.tick ht) h

lemma find?_pairwise {α : Type} {R : α → α → Prop} {p : α → Bool} {xs : List α} {x y : α}
    (h : xs.Pairwise R) (hx : xs.find? p = some x) (hy : y ∈ xs) (hp : p y = true) (hne : y ≠ x) :
    R x y := by
  obtain ⟨-, before, after, rfl, hbefore⟩ := List.find?_eq_some_iff_append.mp hx
  rcases List.mem_append.mp hy with hmem | hmem
  · have hnot := hbefore y hmem
    rw [hp] at hnot
    cases hnot
  · rcases List.mem_cons.mp hmem with he | hmem
    · exact absurd he hne
    · exact (List.pairwise_cons.mp (List.pairwise_append.mp h).2.1).1 y hmem

/-- **The buffer that `bget` recycles** for a block that is not cached has no references, and of all
those it is the one that was released longest ago. -/
theorem bget_oldest (h : history ops = .ok m)
    (hnew : ∀ j, ¬ ((m.cache.buf j).dev = dev ∧ (m.cache.buf j).blockno = blockno))
    (hg : bget dev blockno m.cache = .ok (i, c')) :
    (m.cache.buf i).refcnt = 0 ∧
      ∀ j, (m.cache.buf j).refcnt = 0 → j ≠ i → Older m.freed i j := by
  obtain ⟨a, hordered⟩ := history_ordered h
  have hnext := hordered.shows.circle.walk_next
    (p := fun i => (m.cache.buf i).dev = dev ∧ (m.cache.buf i).blockno = blockno)
    hordered.shows.length
  have hprev := hordered.shows.circle.walk_prev (p := fun i => (m.cache.buf i).refcnt = 0)
    hordered.shows.length
  have hnone : a.lru.find? (fun i =>
      decide ((m.cache.buf i).dev = dev ∧ (m.cache.buf i).blockno = blockno)) = none :=
    List.find?_eq_none.mpr fun j _ hj => hnew j (of_decide_eq_true hj)
  rw [hnone] at hnext
  unfold bget at hg
  rw [hnext, hprev] at hg
  cases hfind : a.lru.reverse.find? fun i => decide ((m.cache.buf i).refcnt = 0) with
  | none => rw [hfind] at hg; cases hg
  | some k =>
    rw [hfind] at hg
    cases hg
    have hzero := List.find?_some hfind
    refine ⟨of_decide_eq_true hzero, fun j hj hne => ?_⟩
    have hsorted := List.pairwise_reverse.mpr hordered.sorted
    refine find?_pairwise hsorted hfind ?_ (decide_eq_true hj) hne
    exact List.mem_reverse.mpr (hordered.shows.whole j)

lemma bget_binit : ∃ i c', bget 1 1 (binit : Chained Unit) = .ok (i, c') := by
  have hagrees : Agrees (bget 1 1 (binit : Chained Unit)) (listBget 1 1 Cache.binit) :=
    shows_binit.bget
  cases hg : bget 1 1 (binit : Chained Unit) with
  | error e => rw [hg] at hagrees; exact hagrees.elim
  | ok r => exact ⟨r.1, r.2, rfl⟩

theorem bget_oldest_binit : ∃ i c', bget 1 1 (binit : Chained Unit) = .ok (i, c') ∧
    ∀ j, j ≠ i → Older (fun _ => 0) i j := by
  obtain ⟨i, c', hg⟩ := bget_binit
  have hnew : ∀ j, ¬ (((binit : Chained Unit).buf j).dev = 1 ∧
      ((binit : Chained Unit).buf j).blockno = 1) :=
    fun _ h => absurd h.1 (show (0 : UInt32) ≠ 1 by decide)
  have hstart : history ([] : List (Op Unit)) = .ok start := rfl
  exact ⟨i, c', hg, fun j => (bget_oldest hstart hnew hg).2 j rfl⟩

/-! ### One buffer for a block -/

/-- No two buffers are for one block. At first all of them are for block 0 of device 0, which is
none. -/
def Single (buf : Fin NBUF → Buf T) : Prop :=
  ∀ i j, (buf i).dev ≠ 0 → block buf i = block buf j → i = j

/-- Buffer `i` has a reference all through a run. -/
def Held (i : Fin NBUF) : List (Op T) → Chained T → Prop
  | [], c => 0 < (c.buf i).refcnt
  | op :: ops, c => 0 < (c.buf i).refcnt ∧ ∀ r, step op c = .ok r → Held i ops r.2

/-- What the cache is after any run. -/
structure Sound (c : Chained T) : Prop where
  shows : ∃ a, Shows c a
  single : Single c.buf

lemma block_update (buf : Fin NBUF → Buf T) (i : Fin NBUF) {b : Buf T} (hdev : b.dev = (buf i).dev)
    (hblockno : b.blockno = (buf i).blockno) : block (Function.update buf i b) = block buf := by
  funext j
  by_cases hj : j = i
  · rw [hj, block, block, Function.update_self, hdev, hblockno]
  · rw [block, block, Function.update_of_ne hj]

lemma Single.congr {buf buf' : Fin NBUF → Buf T} (h : Single buf) (he : block buf' = block buf) :
    Single buf' := by
  intro i j hdev hij
  rw [he] at hij
  have hsame : (buf' i).dev = (buf i).dev := congrArg Prod.fst (congrFun he i)
  exact h i j (hsame ▸ hdev) hij

/-- A buffer taken for a block that had none. -/
lemma Single.take {buf : Fin NBUF → Buf T} (h : Single buf) (i : Fin NBUF) {b : Buf T}
    (hnew : ∀ j, block buf j ≠ (b.dev, b.blockno)) : Single (Function.update buf i b) := by
  intro j k hdev hjk
  by_cases hj : j = i <;> by_cases hk : k = i
  · rw [hj, hk]
  · rw [hj, block, block, Function.update_self, Function.update_of_ne hk] at hjk
    exact absurd hjk.symm (hnew k)
  · rw [hk, block, block, Function.update_self, Function.update_of_ne hj] at hjk
    exact absurd hjk (hnew j)
  · rw [block, block, Function.update_of_ne hj, Function.update_of_ne hk] at hjk
    rw [Function.update_of_ne hj] at hdev
    exact h j k hdev hjk

lemma sound_binit : Sound (binit : Chained T) :=
  ⟨⟨_, shows_binit⟩, fun _ _ hdev => absurd rfl hdev⟩

/-- A step keeps the cache sound, and a buffer that has references to its block. -/
lemma sound_step (h : Sound c) {r : Option (Fin NBUF) × Chained T} (hr : step op c = .ok r) :
    Sound r.2 ∧ ∀ i, 0 < (c.buf i).refcnt → block r.2.buf i = block c.buf i := by
  obtain ⟨a, hshows⟩ := h.shows
  have hstep := shows_step hshows op
  rw [hr] at hstep
  obtain ⟨a', hr', hshows'⟩ := hstep.ok
  obtain ⟨i, b, hbuf, hblock, -⟩ := listStep_cases hshows.whole hr'
  rw [← hshows'.buf, ← hshows.buf] at hbuf
  rw [← hshows.buf] at hblock
  rcases hblock with ⟨hdev, hblockno⟩ | ⟨hzero, hnew⟩
  · have hsame := block_update c.buf i hdev hblockno
    rw [← hbuf] at hsame
    exact ⟨⟨⟨a', hshows'⟩, h.single.congr hsame⟩, fun j _ => congrFun hsame j⟩
  · rw [hbuf]
    refine ⟨⟨⟨a', hshows'⟩, hbuf ▸ h.single.take i hnew⟩, fun j hj => ?_⟩
    have hne : j ≠ i := by
      rintro rfl
      omega
    rw [block, block, Function.update_of_ne hne]

lemma run_cons {answers : List (Option (Fin NBUF))}
    (h : run step (op :: ops) c = .ok (answers, c')) :
    ∃ r answers', step op c = .ok r ∧ run step ops r.2 = .ok (answers', c') := by
  rw [run] at h
  cases hs : step op c with
  | error e => rw [hs] at h; cases h
  | ok r =>
    rw [hs, Except.bind] at h
    cases hrest : run step ops r.2 with
    | error e => rw [hrest] at h; cases h
    | ok r' =>
      rw [hrest] at h
      cases h
      exact ⟨r, r'.1, rfl, hrest⟩

/-- A run keeps the cache sound, and a buffer that has references all through it to its block. -/
lemma sound_run (h : Sound c) {answers : List (Option (Fin NBUF))}
    (hr : run step ops c = .ok (answers, c')) :
    Sound c' ∧ ∀ i, Held i ops c → block c'.buf i = block c.buf i := by
  induction ops generalizing c answers with
  | nil => cases hr; exact ⟨h, fun _ _ => rfl⟩
  | cons op ops ih =>
    obtain ⟨r, answers', hs, hrest⟩ := run_cons hr
    obtain ⟨hsound, hblock⟩ := sound_step h hs
    obtain ⟨hsound', hblock'⟩ := ih hsound hrest
    exact ⟨hsound', fun i hi => (hblock' i (hi.2 r hs)).trans (hblock i hi.1)⟩

/-- In a sound cache `bget` of a cached block answers its buffer. -/
lemma Sound.bget (h : Sound c) (hdev : dev ≠ 0) (hi : block c.buf i = (dev, blockno)) :
    bget dev blockno c = .ok (i, c.setBuf i { c.buf i with refcnt := (c.buf i).refcnt + 1 }) := by
  obtain ⟨a, hshows⟩ := h.shows
  have hnext := hshows.circle.walk_next
    (p := fun i => (c.buf i).dev = dev ∧ (c.buf i).blockno = blockno) hshows.length
  unfold Links.bget
  rw [hnext]
  cases hfind : a.lru.find? fun i => decide ((c.buf i).dev = dev ∧ (c.buf i).blockno = blockno) with
  | none =>
    have hnot := List.find?_eq_none.mp hfind i (hshows.whole i)
    exact absurd (decide_eq_true ⟨congrArg Prod.fst hi, congrArg Prod.snd hi⟩) hnot
  | some k =>
    have hk := of_decide_eq_true (p := (c.buf k).dev = dev ∧ (c.buf k).blockno = blockno)
      (List.find?_some (p := fun i => (c.buf i).dev = dev ∧ (c.buf i).blockno = blockno) hfind)
    have hki : k = i := h.single k i (hk.1 ▸ hdev) ((Prod.ext hk.1 hk.2).trans hi.symm)
    rw [hki]

/-- What `bget` answers is a buffer for the block, with a reference. -/
lemma Sound.bget_block (h : Sound c) (hg : Links.bget dev blockno c = .ok (i, c')) :
    block c'.buf i = (dev, blockno) ∧ 0 < (c'.buf i).refcnt := by
  obtain ⟨a, hshows⟩ := h.shows
  have hagrees : Agrees (Links.bget dev blockno c) (listBget dev blockno a) := hshows.bget
  rw [hg] at hagrees
  obtain ⟨a', hr, hshows'⟩ := hagrees.ok
  rw [hshows'.buf]
  rcases listBget_cases hshows.whole hr with ⟨hi, rfl⟩ | ⟨-, -, rfl⟩
  · have he := block_update a.buf i (b := { a.buf i with refcnt := (a.buf i).refcnt + 1 }) rfl rfl
    refine ⟨(congrFun he i).trans hi, ?_⟩
    rw [setBuf_self]
    exact Nat.succ_pos _
  · rw [block, setBuf_self]
    exact ⟨rfl, Nat.one_pos⟩

/-- **A block has one buffer.** From any state that a run reaches: as long as the buffer that `bget`
answered has references, whatever calls are made in the meantime, a `bget` of the same block answers
the same buffer and takes no other. -/
theorem bget_same {answers answers' : List (Option (Fin NBUF))} {ops' : List (Op T)}
    {c₁ c₂ : Chained T}
    (hdev : dev ≠ 0) (hbefore : run step ops binit = .ok (answers, c))
    (hg : bget dev blockno c = .ok (i, c₁)) (hafter : run step ops' c₁ = .ok (answers', c₂))
    (hheld : Held i ops' c₁) :
    bget dev blockno c₂ =
      .ok (i, c₂.setBuf i { c₂.buf i with refcnt := (c₂.buf i).refcnt + 1 }) := by
  have hsound := (sound_run sound_binit hbefore).1
  have hget : step (.get dev blockno) c = .ok (some i, c₁) := by
    rw [step, hg]
    rfl
  have hsound₁ := (sound_step hsound hget).1
  obtain ⟨hsound₂, hblock⟩ := sound_run hsound₁ hafter
  exact hsound₂.bget hdev ((hblock i hheld).trans (hsound.bget_block hg).1)

theorem bget_same_binit : ∃ i c' c'', bget 1 1 (binit : Chained Unit) = .ok (i, c') ∧
    bget 1 1 c' = .ok (i, c'') := by
  obtain ⟨i, c', hg⟩ := bget_binit
  have hbefore : run step [] (binit : Chained Unit) = .ok ([], binit) := rfl
  have hafter : run step [] c' = .ok ([], c') := rfl
  refine ⟨i, c', _, hg, bget_same (by decide) hbefore hg hafter ?_⟩
  exact (sound_binit.bget_block hg).2

end Xv6.Bio.Links
