import Xv6.User.Arena

/-!
The heap of a program over its whole run.
-/

namespace Xv6.User.Lifetime

open Xv6.Data.Cover Xv6.User.Umalloc Xv6.User.FreeList Xv6.User.Arena

/-- Where the memory obtained ends, how often more has been asked for, and how many bytes there
have been. -/
structure Sbrk where
  top : ℕ
  calls : ℕ
  bytes : ℕ

/-- An `sbrk` that fails or brings what is asked for, above all it has brought. Call number `k`
leaves the gap `answer k`, if any, and there are `limit` bytes in all. -/
def grower (base : ℕ) (answer : ℕ → Option ℕ) (limit : ℕ) : Machine Sbrk where
  base := base
  sbrk k n :=
    match answer k.calls with
    | some gap =>
      if 0 < n ∧ k.bytes + n.toInt.toNat ≤ limit then
        (⟨k.top + gap + n.toInt.toNat, k.calls + 1, k.bytes + n.toInt.toNat⟩, some (k.top + gap))
      else ({ k with calls := k.calls + 1 }, none)
    | none => ({ k with calls := k.calls + 1 }, none)
  ok _ _ := true

/-- A request below 2^30 bytes. -/
def Small (_ : State Sbrk) (nbytes : UInt32) : Prop := nbytes.toNat < 2 ^ 30

/-- Before the first call. -/
def Initial (M : Machine Sbrk) (s : State Sbrk) : Prop :=
  s.heap.freep = 0 ∧ s.heap.obtained = [] ∧ s.live = 0 ∧ s.heap.kernel.bytes = 0 ∧
    M.base + HEADER ≤ s.heap.kernel.top

variable {base limit : ℕ} {answer : ℕ → Option ℕ} {s s' : State Sbrk}

/-- What holds of every state: before the first call there is no list, and after it the heap is
sound. -/
structure Kept (M : Machine Sbrk) (limit : ℕ) (s : State Sbrk) : Prop where
  sound : s.heap.freep = 0 ∧ s.heap.obtained = [] ∧ s.live = 0 ∨ ∃ fs, Sound M s.heap fs s.live
  bytes : total Block.bytes s.heap.obtained = s.heap.kernel.bytes
  top : ∀ r ∈ s.heap.obtained, r.stop ≤ s.heap.kernel.top
  base : M.base + HEADER ≤ s.heap.kernel.top
  within : s.heap.kernel.bytes ≤ limit

lemma grower_none {k k' : Sbrk} {n : Int32}
    (h : (grower base answer limit).sbrk k n = (k', none)) :
    k'.top = k.top ∧ k'.bytes = k.bytes := by
  unfold grower at h
  simp only at h
  split at h
  · split_ifs at h
    · cases (Prod.mk.inj h).2
    · obtain ⟨rfl, -⟩ := Prod.mk.inj h
      exact ⟨rfl, rfl⟩
  · obtain ⟨rfl, -⟩ := Prod.mk.inj h
    exact ⟨rfl, rfl⟩

lemma grower_some {k k' : Sbrk} {n : Int32} {a : ℕ}
    (h : (grower base answer limit).sbrk k n = (k', some a)) :
    k.top ≤ a ∧ k'.top = a + n.toInt.toNat ∧ k'.bytes = k.bytes + n.toInt.toNat ∧
      k'.bytes ≤ limit := by
  unfold grower at h
  simp only at h
  split at h
  · split_ifs at h with hfit
    · obtain ⟨rfl, ha⟩ := Prod.mk.inj h
      obtain rfl := Option.some.inj ha
      exact ⟨Nat.le_add_right _ _, rfl, rfl, hfit.2⟩
    · cases (Prod.mk.inj h).2
  · cases (Prod.mk.inj h).2

lemma asked_lt {nbytes : UInt32} (hlt : nbytes.toNat < 2 ^ 30) :
    (asked (unitsFor nbytes)).toNat < 2 ^ 27 := by
  unfold asked
  split_ifs
  · decide
  · rw [unitsFor_toNat]
    omega

/-- **A sound heap serves a request.** -/
lemma sound_malloc {fs : List Block} {nbytes : UInt32} (hbase : 0 < base) (hlimit : limit < 2 ^ 36)
    (hK : Kept (grower base answer limit) limit s) (hS : Sound (grower base answer limit) s.heap fs s.live)
    (hlt : nbytes.toNat < 2 ^ 30) :
    ∃ r, Returns (fun fuel => malloc (grower base answer limit) fuel s.heap nbytes) r ∧
      Served (grower base answer limit) s.heap fs s.live (unitsFor nbytes) r := by
  have hreq := request_toInt (asked_lt hlt)
  refine malloc_returns hbase hS (fun _ => hreq) fun _ k' a hk => ?_
  obtain ⟨htop, -, hbytes, hle⟩ := grower_some hk
  have hnat : (request (asked (unitsFor nbytes))).toInt.toNat =
      HEADER * (asked (unitsFor nbytes)).toNat := by
    rw [hreq]
    rfl
  refine ⟨fun r hr => (hK.top r hr).trans htop, hK.base.trans htop, fun _ _ => rfl, fun _ _ _ => rfl,
    ?_⟩
  rw [hK.bytes, ← hnat, ← hbytes]
  exact hle.trans_lt hlimit

lemma kept_served {nbytes : UInt32} {r : Heap Sbrk × ℕ}
    (hK : Kept (grower base answer limit) limit s) {fs : List Block}
    (hS : Sound (grower base answer limit) s.heap fs s.live)
    (hlt : nbytes.toNat < 2 ^ 30)
    (hr : Served (grower base answer limit) s.heap fs s.live (unitsFor nbytes) r) :
    Kept (grower base answer limit) limit
      ⟨r.1, if r.2 = 0 then s.live else ⟨r.2 - HEADER, (unitsFor nbytes).toNat⟩ ::ₘ s.live⟩ := by
  have hnat : (request (asked (unitsFor nbytes))).toInt.toNat =
      HEADER * (asked (unitsFor nbytes)).toNat := by
    rw [request_toInt (asked_lt hlt)]
    rfl
  have hlive : ∀ b : Block, b.units = (unitsFor nbytes).toNat →
      (if b.start + HEADER = 0 then s.live
        else ⟨b.start + HEADER - HEADER, (unitsFor nbytes).toNat⟩ ::ₘ s.live) = b ::ₘ s.live := by
    intro b hb
    rw [if_neg (by unfold HEADER; omega), Nat.add_sub_cancel, ← hb]
  cases hr with
  | found h' fs' b hb hS' hk ho =>
    refine ⟨.inr ⟨fs', ?_⟩, ?_, ?_, ?_, ?_⟩
    · rw [hlive b hb]
      exact hS'
    · rw [ho, hk]
      exact hK.bytes
    · rw [ho, hk]
      exact hK.top
    · rw [hk]
      exact hK.base
    · rw [hk]
      exact hK.within
  | grown h' fs' b a hb hS' hk ho _ =>
    obtain ⟨htop, htop', hbytes, hle⟩ := grower_some hk
    have hstop : (⟨a, (asked (unitsFor nbytes)).toNat⟩ : Block).stop =
        a + HEADER * (asked (unitsFor nbytes)).toNat := rfl
    rw [hnat] at htop' hbytes
    refine ⟨.inr ⟨fs', ?_⟩, ?_, fun r hr => ?_, ?_, hle⟩
    · rw [hlive b hb]
      exact hS'
    · rw [ho, hbytes, ← hK.bytes, ← Multiset.cons_coe, total_cons, Nat.add_comm]
      rfl
    · rw [ho] at hr
      rcases List.mem_cons.mp hr with rfl | hr
      · rw [hstop, htop']
      · have hle := hK.top r hr
        rw [htop']
        omega
    · have hle := hK.base
      rw [htop']
      omega
  | refused k' hk _ =>
    obtain ⟨htop, hbytes⟩ := grower_none hk
    have hfail : Sound (grower base answer limit) { s.heap with kernel := k' } fs s.live :=
      keeps_sound hS fun _ h => h
    refine ⟨.inr ⟨fs, ?_⟩, ?_, ?_, ?_, ?_⟩
    · rw [if_pos rfl]
      exact hfail
    · rw [hbytes]
      exact hK.bytes
    · rw [htop]
      exact hK.top
    · rw [htop]
      exact hK.base
    · rw [hbytes]
      exact hK.within

/-- At every call there is a sound heap, once the list of `base` is set up. -/
lemma kept_ready (hbase : 0 < base) (hK : Kept (grower base answer limit) limit s) (nbytes : UInt32) :
    ∃ h fs, Sound (grower base answer limit) h fs s.live ∧
      Kept (grower base answer limit) limit ⟨h, s.live⟩ ∧
      ∀ fuel, malloc (grower base answer limit) fuel s.heap nbytes =
        malloc (grower base answer limit) fuel h nbytes := by
  rcases hK.sound with ⟨hfreep, ho, hlive⟩ | ⟨fs, hS⟩
  · obtain ⟨h, hstart, hS, hk, ho'⟩ := start_sound (M := grower base answer limit) hfreep ho rfl
    rw [← hlive] at hS
    refine ⟨h, [], hS, ⟨.inr ⟨[], hS⟩, ?_, ?_, ?_, ?_⟩, fun fuel => malloc_start hstart ?_ nbytes⟩
    · rw [ho', hk, ← ho]
      exact hK.bytes
    · rw [ho', hk, ← ho]
      exact hK.top
    · rw [hk]
      exact hK.base
    · rw [hk]
      exact hK.within
    · obtain ⟨b, hb, hfb⟩ := hS.listed.freep
      have hle : base ≤ b.start := hS.listed.base_le hb
      exact if_neg (by omega)
  · exact ⟨s.heap, fs, hS, hK, fun _ => rfl⟩

/-- **A step keeps the heap sound.** -/
lemma kept_step (hbase : 0 < base) (hlimit : limit < 2 ^ 36)
    (hK : Kept (grower base answer limit) limit s) (hstep : Step (grower base answer limit) Small s s') :
    Kept (grower base answer limit) limit s' := by
  cases hstep with
  | malloc nbytes h' p hlt hrun =>
    obtain ⟨h, fs, hS, hK', heq⟩ := kept_ready hbase hK nbytes
    obtain ⟨r, hr, hserved⟩ := sound_malloc hbase hlimit hK' hS hlt
    have hrun' : Returns (fun fuel => malloc (grower base answer limit) fuel h nbytes) (h', p) := by
      simp only [← heq]
      exact hrun
    rw [hr.unique hrun'] at hserved
    exact kept_served hK' hS hlt hserved
  | free b h' hb hrun =>
    rcases hK.sound with ⟨-, -, hlive⟩ | ⟨fs, hS⟩
    · rw [hlive] at hb
      exact absurd hb (Multiset.notMem_zero b)
    · have hS' := hS
      rw [← Multiset.cons_erase hb] at hS'
      have hfit : total Block.bytes s.heap.obtained < 2 ^ 36 := by
        rw [hK.bytes]
        exact hK.within.trans_lt hlimit
      obtain ⟨h'', fs', hfree, hS'', hk, ho⟩ := free_returns hS' hfit
      obtain rfl := hfree.unique hrun
      refine ⟨.inr ⟨fs', hS''⟩, ?_, ?_, ?_, ?_⟩
      · rw [ho, hk]
        exact hK.bytes
      · rw [ho, hk]
        exact hK.top
      · rw [hk]
        exact hK.base
      · rw [hk]
        exact hK.within
  | write m hsame =>
    refine ⟨?_, hK.bytes, hK.top, hK.base, hK.within⟩
    rcases hK.sound with hfirst | ⟨fs, hS⟩
    · exact .inl hfirst
    · exact .inr ⟨fs, write_sound hS hsame⟩

def blank : Heap Sbrk := ⟨⟨32, 0, 0⟩, fun _ => ⟨0, 0⟩, 0, []⟩

/-- **The heap of a program**, where `sbrk` fails or brings fresh memory, less than 2^36 bytes in all.
In every state of every run after the first call the circular list holds `base` and the free blocks,
in the order of their addresses and with a gap after each one, and they tile with the blocks in use
what has been obtained. Every call comes to an end. -/
theorem heap_sound (base limit : ℕ) (answer : ℕ → Option ℕ) (hbase : 0 < base)
    (hlimit : limit < 2 ^ 36) (s₀ s : State Sbrk) (hinit : Initial (grower base answer limit) s₀)
    (hrun : Relation.ReflTransGen (Step (grower base answer limit) Small) s₀ s) :
    (s.heap.freep = 0 ∧ s.heap.obtained = [] ∧ s.live = 0 ∨
        ∃ fs, Sound (grower base answer limit) s.heap fs s.live) ∧
      (∀ nbytes : UInt32, nbytes.toNat < 2 ^ 30 → ∃ r, Returns
        (fun fuel => malloc (grower base answer limit) fuel s.heap nbytes) r) ∧
      ∀ b ∈ s.live, ∃ h', Returns
        (fun fuel => free (grower base answer limit) fuel s.heap (b.start + HEADER)) h' := by
  have hK : Kept (grower base answer limit) limit s := by
    induction hrun with
    | refl =>
      obtain ⟨hfreep, ho, hlive, hbytes, htop⟩ := hinit
      refine ⟨.inl ⟨hfreep, ho, hlive⟩, ?_, fun r hr => ?_, htop, ?_⟩
      · rw [ho, hbytes]
        rfl
      · rw [ho] at hr
        exact absurd hr List.not_mem_nil
      · rw [hbytes]
        exact Nat.zero_le _
    | tail _ hstep ih => exact kept_step hbase hlimit ih hstep
  refine ⟨hK.sound, fun nbytes hlt => ?_, fun b hb => ?_⟩
  · obtain ⟨h, fs, hS, hK', heq⟩ := kept_ready hbase hK nbytes
    obtain ⟨r, hr, -⟩ := sound_malloc hbase hlimit hK' hS hlt
    refine ⟨r, ?_⟩
    simp only [heq]
    exact hr
  · rcases hK.sound with ⟨-, -, hlive⟩ | ⟨fs, hS⟩
    · rw [hlive] at hb
      exact absurd hb (Multiset.notMem_zero b)
    · rw [← Multiset.cons_erase hb] at hS
      have hfit : total Block.bytes s.heap.obtained < 2 ^ 36 := by
        rw [hK.bytes]
        exact hK.within.trans_lt hlimit
      obtain ⟨h', -, hfree, -⟩ := free_returns hS hfit
      exact ⟨h', hfree⟩

/-- The heap after a request of ten bytes: the block is the tail of what has been obtained. -/
theorem heap_sound_ten : ∃ fs, Sound (grower 16 (fun _ => some 0) (2 ^ 20))
    (given (grower 16 (fun _ => some 0) (2 ^ 20)) blank 10).1 fs ({⟨65536, 2⟩} : Multiset Block) := by
  have hgiven : (given (grower 16 (fun _ => some 0) (2 ^ 20)) blank 10).2 = some 65552 := by
    decide +kernel
  have hstep := Step.malloc (M := grower 16 (fun _ => some 0) (2 ^ 20)) (s := ⟨blank, 0⟩) 10 _ _
    (show Small _ _ by unfold Small; decide) (given_returns hgiven)
  have hrun := (heap_sound 16 (2 ^ 20) (fun _ => some 0) (by decide) (by decide) _ _
    ⟨rfl, rfl, rfl, rfl, by decide⟩ (.single hstep)).1
  exact hrun.resolve_left fun hfirst => absurd hfirst.1 (by decide +kernel)

/-! ### More than 2^36 bytes -/

/-- As much memory as there are units in a `uint`. -/
def vast : Machine Sbrk := grower 16 (fun _ => some 0) (2 ^ 36)

/-- Block number `k` of 2^30 bytes with its header. -/
def huge (k : ℕ) : Block := ⟨32 + 2 ^ 30 * k, 2 ^ 26⟩

/-- The heap after `k` requests. -/
def filled : ℕ → Heap Sbrk
  | 0 => blank
  | k + 1 => (given vast (filled k) (2 ^ 30 - 16)).1

/-- The heap when `k` of the 64 blocks are free, from the last on. -/
def emptied : ℕ → Heap Sbrk
  | 0 => filled 64
  | k + 1 => (freed vast (emptied k) (huge (63 - k))).1

def hugeBelow : ℕ → Multiset Block
  | 0 => 0
  | k + 1 => huge k ::ₘ hugeBelow k

lemma filled_given : ∀ k < 64, (given vast (filled k) (2 ^ 30 - 16)).2 =
    some ((huge k).start + HEADER) := by
  decide +kernel

lemma emptied_freed : ∀ k < 64, (freed vast (emptied k) (huge (63 - k))).2 = true := by
  decide +kernel

lemma filled_run {k : ℕ} (hk : k ≤ 64) :
    Relation.ReflTransGen (Step vast Small) ⟨blank, 0⟩ ⟨filled k, hugeBelow k⟩ := by
  induction k with
  | zero => exact .refl
  | succ k ih =>
    have hstep := Step.malloc (M := vast) (s := ⟨filled k, hugeBelow k⟩) (2 ^ 30 - 16) _ _
      (show Small _ _ by unfold Small; decide)
      (given_returns (filled_given k (by omega)))
    have hne : ¬(huge k).start + HEADER = 0 := Nat.succ_ne_zero _
    rw [if_neg hne, Nat.add_sub_cancel] at hstep
    exact (ih (by omega)).tail hstep

lemma emptied_run {k : ℕ} (hk : k ≤ 64) :
    Relation.ReflTransGen (Step vast Small) ⟨blank, 0⟩ ⟨emptied k, hugeBelow (64 - k)⟩ := by
  induction k with
  | zero => exact filled_run le_rfl
  | succ k ih =>
    have hlive : hugeBelow (64 - k) = huge (63 - k) ::ₘ hugeBelow (63 - k) := by
      obtain ⟨j, hj⟩ : ∃ j, j = 63 - k := ⟨_, rfl⟩
      rw [← hj, show 64 - k = j + 1 by omega]
      rfl
    have hmem : huge (63 - k) ∈ hugeBelow (64 - k) := by
      rw [hlive]
      exact Multiset.mem_cons_self _ _
    have hstep : Step vast Small ⟨emptied k, hugeBelow (64 - k)⟩ _ :=
      .free _ _ hmem (freed_returns (emptied_freed k (by omega)))
    have herase : (hugeBelow (64 - k)).erase (huge (63 - k)) = hugeBelow (64 - (k + 1)) := by
      rw [hlive, Multiset.erase_cons_head, show 64 - (k + 1) = 63 - k by omega]
    rw [← herase]
    exact (ih (by omega)).tail hstep

lemma not_sound {h : Heap Sbrk} {fs : List Block} {live : Multiset Block}
    (hptr : (h.mem 16).ptr = 32) (hsize : (h.mem 32).size.toNat = 0) : ¬Sound vast h fs live := by
  intro hS
  have hlinked := hS.listed.linked
  cases fs with
  | nil =>
    have hbase : (h.mem 16).ptr = 16 := hlinked.2.1
    omega
  | cons b fs =>
    have hfirst : (h.mem 16).ptr = b.start := hlinked.2.1
    have hunits : (h.mem b.start).size.toNat = b.units := hlinked.2.2.1
    have hpos := hS.fsPos List.mem_cons_self
    rw [← hfirst, hptr] at hunits
    omega

/-- With 64 blocks of 2^30 bytes the whole is one unit more than a size can say: when all are free
again, the one block on the list has the size 0. -/
theorem heap_wraps :
    ∃ s₀ s, Initial vast s₀ ∧ Relation.ReflTransGen (Step vast Small) s₀ s ∧ s.heap.freep ≠ 0 ∧
      ¬∃ fs, Sound vast s.heap fs s.live := by
  refine ⟨⟨blank, 0⟩, ⟨emptied 64, hugeBelow (64 - 64)⟩, ⟨rfl, rfl, rfl, rfl, by decide⟩,
    emptied_run le_rfl, by decide +kernel, ?_⟩
  rintro ⟨fs, hS⟩
  exact not_sound (by decide +kernel) (by decide +kernel) hS

end Xv6.User.Lifetime
