import Xv6.Vm.Exec

/-!
What `kexec` comes to. While it builds the new address space, in pages that were free, the process is
as it was; where it gives up, all of them are free again.
-/

namespace Xv6.Vm.Build

open Xv6.Data Xv6.Data.Effect Xv6.Data.Effect.Eff Xv6.Vm.Paging Xv6.Vm.Memory Xv6.Vm.Table
  Xv6.Vm.Tree Xv6.Vm.Walk Xv6.Vm.Maps Xv6.Vm.Grow Xv6.Vm.Copy Xv6.Vm.Space Xv6.Vm.Free
  Xv6.Vm.Process Xv6.Vm.Transfer Xv6.Vm.Holding Xv6.Vm.Fork Xv6.Vm.View Xv6.Vm.Touch Xv6.Vm.Exec

variable {s s' s'' s1 s2 : Ram} {p q q' : Proc} {t : Task} {a e va newsz xperm tf : UInt64}
  {sz1 : UInt64} {k n m : ℕ} {f : File} {off sz i : UInt32} {may : String → Prop}

/-! ### Pages of memory -/

/-- The pages of physical memory. -/
def FRAMES : ℕ := 32768

/-- There are not more free pages than pages. -/
lemma card_free (h : Pool s) : s.free.card ≤ FRAMES := by
  have hinj : Set.InjOn (fun x : UInt64 => x.toNat / 4096) s.free.toFinset := by
    intro x hx y hy hxy
    have h1 := (h.frame x (Multiset.mem_toFinset.mp hx)).1
    have h2 := (h.frame y (Multiset.mem_toFinset.mp hy)).1
    have heq : x.toNat / 4096 = y.toNat / 4096 := hxy
    exact UInt64.toNat_inj.mp (by omega)
  have hmaps : Set.MapsTo (fun x : UInt64 => x.toNat / 4096) s.free.toFinset
      (Finset.Ico 524288 557056) := by
    intro x hx
    obtain ⟨h1, h2, h3⟩ := h.frame x (Multiset.mem_toFinset.mp hx)
    have hk : KERNBASE.toNat ≤ s.kend.toNat := h.kend
    have h2' : s.kend.toNat ≤ x.toNat := h2
    have h3' : x.toNat < PHYSTOP.toNat := h3
    have hK : KERNBASE.toNat = 524288 * 4096 := rfl
    have hP : PHYSTOP.toNat = 557056 * 4096 := rfl
    rw [hK] at hk
    rw [hP] at h3'
    rw [Finset.coe_Ico, Set.mem_Ico]
    dsimp only
    omega
  have hcard := Finset.card_le_card_of_injOn _ hmaps hinj
  rw [Nat.card_Ico, Multiset.toFinset_card_of_nodup h.nodup] at hcard
  exact hcard

/-! ### An address space that is being built -/

/-- `q` is being built, in pages that were free. All its pages below the size are there. -/
structure Draft (s s' : Ram) (q : Proc) : Prop extends Later s s' where
  whole : Whole s' q
  keep : owned s' q + s'.free = s.free
  other : ∀ x, x ∉ s.free → s'.mem x = s.mem x
  full : ∀ k < pagesUp q.sz, entryOf s' q k ≠ 0

/-- There is not as much memory as there are addresses. -/
lemma Draft.room (h : Draft s s' q) (hs : Pool s) : pagesUp q.sz + s'.free.card ≤ FRAMES := by
  have hcard := card_free hs
  rw [← h.keep, Multiset.card_add, owned, Multiset.card_add, h.whole.held,
    card_held fun k _ hk => h.full k (by omega)] at hcard
  omega

lemma Draft.lt_USER (h : Draft s s' q) (hs : Pool s) : pagesUp q.sz + s'.free.card ≤ USER := by
  have hroom := h.room hs
  unfold FRAMES at hroom
  rw [USER_eq]
  omega

lemma Draft.step (h : Draft s s' q) (hk : Kept s' s'' q q')
    (hfull : ∀ k < pagesUp q'.sz, entryOf s'' q' k ≠ 0) : Draft s s'' q' := by
  refine ⟨h.toLater.trans hk.toLater, hk.whole, hk.keep.trans h.keep, fun x hx => ?_, hfull⟩
  have hout : x ∉ owned s' q + s'.free := by rwa [h.keep]
  rw [Multiset.mem_add, not_or] at hout
  rw [hk.frame x hout.1 hout.2, h.other x hx]

/-- The contents of the new pages change. -/
lemma Draft.change (h : Draft s s' q) (hch : Change s' s'' q fun _ => False) : Draft s s'' q := by
  refine h.step (kept_of_change h.whole hch) fun k hk => ?_
  rw [(hch.map k).resolve_right fun hf => hf.1]
  exact h.full k hk

/-- All pages below the size are for the program. -/
def Open (s : Ram) (q : Proc) : Prop := ∀ k < pagesUp q.sz, Mapped s q k

lemma Open.change (h : Open s q) (hch : Change s s' q fun _ => False) : Open s' q := fun k hk =>
  (Mapped.congr ((hch.map k).resolve_right fun hf => hf.1)).mpr (h k hk)

/-! ### `uvmalloc` -/

/-- What `uvmalloc` comes to here. -/
def Extended (s s1 s2 : Ram) (q : Proc) (tf newsz xperm r : UInt64) : Prop :=
  r = 0 ∧ s1.failed < s2.failed ∧ Draft s s2 q ∨
    s2.failed = s1.failed ∧ Draft s s2 ⟨r, q.pagetable⟩ ∧
      (Open s1 q → Open s2 ⟨r, q.pagetable⟩) ∧
      image s2 ⟨⟨r, q.pagetable⟩, tf⟩ = extend (image s1 ⟨q, tf⟩) newsz xperm

lemma uvmalloc_extends (h : Draft s s1 q) (hs : Pool s) (htf : tf ∉ s.free)
    (hp : xperm.toNat < 1024)
    (hx : (PTE_R ||| PTE_U ||| xperm ||| PTE_V) &&& RIGHTS = PTE_R ||| PTE_U ||| xperm) :
    wp may (uvmalloc q.pagetable q.sz newsz xperm)
      (fun r s2 => Extended s s1 s2 q tf newsz xperm r) s1 := by
  have hU : (PTE_R ||| PTE_U ||| xperm) &&& PTE_U ≠ 0 := by
    have hmask : (PTE_R ||| PTE_U) &&& PTE_U = PTE_U := by decide
    rw [or_and, hmask]
    exact fun hz => absurd (UInt64.or_eq_zero_iff.mp hz).1 (by decide)
  have hsmall : (PTE_R ||| PTE_U ||| xperm).toNat < 1024 := toNat_perm (by decide) hp
  refine wp_mono (alloc_spec h.whole hp (.inr (h.lt_USER hs))) fun r s2 hr => ?_
  rcases hr with ⟨hlt, rfl, rfl⟩ | ⟨hge, ⟨rfl, -, hg⟩ | ⟨rfl, hfail, hch, -⟩⟩
  · refine .inr ⟨rfl, h, id, ?_⟩
    have hlt' : newsz < (image s2 ⟨q, tf⟩).sz := hlt
    rw [extend, if_pos hlt']
  · have hge' : ¬r < (image s1 ⟨q, tf⟩).sz := hge
    have hentry : ∀ k, pagesUp q.sz ≤ k → k < pagesUp r → ∃ a, s1.Frame a ∧ s2.mem a = filled 0 ∧
        entryOf s2 ⟨r, q.pagetable⟩ k = PA2PTE a ||| (PTE_R ||| PTE_U ||| xperm) ||| PTE_V := by
      intro k h1 h2
      obtain ⟨a, hf, he, hz⟩ := hg.fresh k h1 h2
      exact ⟨a, hf, hz, he⟩
    have hold : ∀ k, k < pagesUp q.sz → entryOf s2 ⟨r, q.pagetable⟩ k = entryOf s1 q k :=
      fun k hk => hg.other k (by omega)
    have hnew := h.step hg.kept fun k hk => by
      by_cases hlt : k < pagesUp q.sz
      · rw [hold k hlt]
        exact h.full k hlt
      · obtain ⟨a, -, -, he⟩ := hentry k (not_lt.mp hlt) hk
        rw [he]
        exact entry_ne_zero _ _
    refine .inr ⟨hg.same, hnew, fun ho k hk => ?_, ?_⟩
    · by_cases hlt : k < pagesUp q.sz
      · have hm := ho k hlt
        unfold Mapped
        rw [hold k hlt]
        exact hm
      · obtain ⟨a, -, -, he⟩ := hentry k (not_lt.mp hlt) hk
        have hV : PTE_V &&& PTE_U = 0 := by decide
        unfold Mapped
        rw [he, UInt64.or_assoc, entry_and (by decide), or_and, hV, UInt64.or_zero]
        exact hU
    · rw [extend, if_neg hge']
      refine image_span (t := ⟨q, tf⟩) h.whole hnew.whole ?_ (fun k h1 h2 => ?_)
        (fun k h1 h2 => .inr (hentry k h1 h2)) hx hU hsmall
      · rw [hnew.other tf htf, h.other tf htf]
      · refine ⟨hold k h1, fun hm => hg.pages _ ?_⟩
        exact h.whole.mem_held (h.whole.mapped_lt hm) hm.ne_zero
  · exact .inl ⟨rfl, hfail, h.change hch⟩

/-! ### `loadseg` -/

lemma toNat_readi (f : File) (off n : UInt32) : (readi f off n).toNat ≤ n.toNat ∧
    (readi f off n = n ↔ n = 0 ∨ off.toNat + n.toNat ≤ f.size.toNat) := by
  have hs := f.size.toNat_lt
  have hadd : (off + n).toNat = (off.toNat + n.toNat) % 2 ^ 32 := UInt32.toNat_add _ _
  have hgt : off > f.size ↔ f.size.toNat < off.toNat := Iff.rfl
  have hwrap : off + n < off ↔ (off.toNat + n.toNat) % 2 ^ 32 < off.toNat := by
    rw [← hadd]
    exact Iff.rfl
  have hpast : off + n > f.size ↔ f.size.toNat < (off.toNat + n.toNat) % 2 ^ 32 := by
    rw [← hadd]
    exact Iff.rfl
  have ho := off.toNat_lt
  have hn := n.toNat_lt
  have hzero : n = 0 ↔ n.toNat = 0 := by
    rw [← UInt32.toNat_inj]
    exact Iff.rfl
  have hz : (0 : UInt32) = n ↔ n.toNat = 0 := by
    rw [eq_comm]
    exact hzero
  unfold readi
  simp only [hgt, hwrap, hpast, hzero]
  split_ifs with h1 h2
  · refine ⟨Nat.zero_le _, ?_⟩
    rw [hz]
    omega
  · have hsub : (f.size - off).toNat = f.size.toNat - off.toNat := by
      refine UInt32.toNat_sub_of_le _ _ ?_
      have hle : off.toNat ≤ f.size.toNat := by omega
      exact hle
    rw [← UInt32.toNat_inj, hsub]
    omega
  · exact ⟨le_rfl, iff_of_true rfl (by omega)⟩

/-- A `memmove` to the beginning of the page of `va`. -/
lemma move_page {src : ℕ → UInt8} (h : Sound s p) (hm : Mapped s p (vpn va))
    (hal : va.toNat % 4096 = 0) (hn : n ≤ 4096) :
    wp may (memmove (PTE2PA (entryOf s p (vpn va))) 0 n src) (fun _ s' =>
      Change s s' p (fun _ => False) ∧ s'.failed = s.failed ∧ Arrived s s' p va.toNat n src) s := by
  rw [memmove, wp_change]
  obtain ⟨pg, hpg⟩ : ∃ pg, pg = patch (s.mem (PTE2PA (entryOf s p (vpn va)))) 0 n src := ⟨_, rfl⟩
  rw [← hpg]
  obtain ⟨s', hs'⟩ : ∃ s' : Ram, s' =
    { s with mem := Function.update s.mem (PTE2PA (entryOf s p (vpn va))) pg } := ⟨_, rfl⟩
  rw [← hs']
  have hmem : s'.mem = Function.update s.mem (PTE2PA (entryOf s p (vpn va))) pg := by rw [hs']
  have hl : Later s s' := by
    rw [hs']
    exact ⟨rfl, rfl, le_rfl, le_rfl⟩
  obtain ⟨hch, hview⟩ := h.written hm hmem hl (by rw [hs'])
  refine ⟨hch, by rw [hs'], fun a => ?_⟩
  have hfirst : first va.toNat n = n := by
    unfold first
    omega
  have hp : (if a / 4096 = va.toNat / 4096 then
      some (patch (s.mem (PTE2PA (entryOf s p (vpn va)))) (va.toNat % 4096) (first va.toNat n) src
        ⟨a % 4096, low_lt a⟩) else view s p a) =
      if va.toNat ≤ a ∧ a < va.toNat + first va.toNat n then some (src (a - va.toNat))
        else view s p a := patched hm rfl
  rw [hfirst, hal] at hp
  rw [hview a, hpg]
  exact hp

/-- What has arrived in two parts. -/
lemma Arrived.append {d : ℕ} {src : ℕ → UInt8} (h : Arrived s s' p d n src)
    (h' : Arrived s' s'' p (d + n) m fun j => src (n + j)) : Arrived s s'' p d (n + m) src := by
  intro a
  rw [h' a, h a]
  by_cases h1 : d + n ≤ a ∧ a < d + n + m
  · have hsub : n + (a - (d + n)) = a - d := by omega
    rw [if_pos h1, if_pos (by omega)]
    dsimp only
    rw [hsub]
  · rw [if_neg h1]
    by_cases h2 : d ≤ a ∧ a < d + n
    · rw [if_pos h2, if_pos (by omega)]
    · rw [if_neg h2, if_neg (by omega)]

/-- What `loadseg` comes to. -/
def Loadseg (s s' : Ram) (p : Proc) (va : UInt64) (f : File) (off sz : UInt32) (r : ℤ) : Prop :=
  Change s s' p (fun _ => False) ∧ s'.failed = s.failed ∧
    (r = 0 ∧ Has f off sz ∧ Arrived s s' p va.toNat sz.toNat (fun j => f.data (off.toNat + j)) ∨
      r = -1 ∧ ¬Has f off sz)

/-- The addition of an offset, without wrapping. -/
lemma toNat_plus {x y : UInt32} (h : x.toNat + y.toNat < 2 ^ 32) :
    (x + y).toNat = x.toNat + y.toNat := by
  rw [UInt32.toNat_add]
  exact Nat.mod_eq_of_lt h

lemma loadsegLoop_spec (fuel : ℕ) (h : Sound s p) (hal : va.toNat % 4096 = 0)
    (hi : i.toNat % 4096 = 0) (hle : i.toNat ≤ sz.toNat) (hsz : sz.toNat ≤ 2 ^ 32 - 4096)
    (hva : va.toNat + sz.toNat < 2 ^ 38) (hm : ∀ k, InRange va.toNat sz.toNat k → Mapped s p k)
    (hfuel : 2 ^ 20 < fuel + i.toNat / 4096) (hoff : i = 0 ∨ off.toNat + i.toNat ≤ f.size.toNat) :
    wp may (loadsegLoop p.pagetable va f off sz fuel i) (fun r s' =>
      Change s s' p (fun _ => False) ∧ s'.failed = s.failed ∧
        (r = 0 ∧ (sz = i ∨ off.toNat + sz.toNat ≤ f.size.toNat) ∧ Arrived s s' p
            (va.toNat + i.toNat) (sz.toNat - i.toNat) (fun j => f.data (off.toNat + i.toNat + j)) ∨
          r = -1 ∧ ¬(sz = i ∨ off.toNat + sz.toNat ≤ f.size.toNat))) s := by
  induction fuel generalizing s i with
  | zero => omega
  | succ fuel ih =>
    rw [loadsegLoop]
    by_cases hlt : i < sz
    swap
    · have heq : sz = i := by
        have hge : ¬i.toNat < sz.toNat := hlt
        exact UInt32.toNat_inj.mp (by omega)
      rw [if_neg hlt, wp_pure]
      refine ⟨Change.refl h, rfl, .inl ⟨rfl, .inl heq, fun a => ?_⟩⟩
      rw [heq, Nat.sub_self, if_neg (by omega)]
    have hlt' : i.toNat < sz.toNat := hlt
    have hne : ¬sz = i := fun he => by
      rw [he] at hlt'
      omega
    -- the page that is read into
    have hsum : (va + i.toUInt64).toNat = va.toNat + i.toNat := by
      rw [UInt64.toNat_add, UInt32.toNat_toUInt64]
      exact Nat.mod_eq_of_lt (by omega)
    have hpage : Mapped s p (vpn (va + i.toUInt64)) := by
      refine hm _ ⟨va.toNat + i.toNat, by omega, by omega, ?_⟩
      unfold vpn
      rw [hsum]
    have hnz := page_ne_zero h hpage
    rw [if_pos hlt, wp_bind]
    refine wp_of_ok (walkaddr_eq s p.pagetable _) ?_
    have hval : (if mapping s.mem p.pagetable (vpn (va + i.toUInt64)) &&& PTE_U ≠ 0 then
        PTE2PA (mapping s.mem p.pagetable (vpn (va + i.toUInt64))) else 0) =
          PTE2PA (entryOf s p (vpn (va + i.toUInt64))) := if_pos hpage
    rw [hval, if_neg hnz]
    dsimp only
    obtain ⟨n, hn⟩ : ∃ n : UInt32, n = if sz - i < 4096 then sz - i else 4096 := ⟨_, rfl⟩
    have hsub : (sz - i).toNat = sz.toNat - i.toNat := UInt32.toNat_sub_of_le _ _ hle
    have hnat : n.toNat = min 4096 (sz.toNat - i.toNat) := by
      have hiff : sz - i < 4096 ↔ (sz - i).toNat < 4096 := Iff.rfl
      have h4 : (4096 : UInt32).toNat = 4096 := rfl
      rw [hn]
      by_cases hs : sz - i < 4096
      · rw [if_pos hs, hsub]
        rw [hiff] at hs
        omega
      · rw [if_neg hs]
        rw [hiff] at hs
        omega
    have hoffs := off.toNat_lt
    have hfile := f.size.toNat_lt
    have hplus : (off + i).toNat = off.toNat + i.toNat := by
      refine toNat_plus ?_
      rcases hoff with rfl | ho
      · have hz : (0 : UInt32).toNat = 0 := rfl
        omega
      · omega
    rw [← hn]
    obtain ⟨hr, hall⟩ := toNat_readi f (off + i) n
    have hal' : (va + i.toUInt64).toNat % 4096 = 0 := by omega
    refine wp_call (move_page h hpage hal' (by omega)) fun _ s2 h2 => ?_
    obtain ⟨hch, hfail, harr⟩ := h2
    have hpos : ¬n = 0 := by
      rw [← UInt32.toNat_inj]
      change ¬n.toNat = 0
      omega
    rw [wp_ite]
    refine ⟨fun hshort => ?_, fun hgot => ?_⟩
    · rw [wp_pure]
      refine ⟨hch, hfail, .inr ⟨rfl, fun hin => ?_⟩⟩
      refine hshort (hall.mpr (.inr ?_))
      have := hin.resolve_left hne
      omega
    · have hread := (hall.mp (not_not.mp hgot)).resolve_left hpos
      rw [not_not.mp hgot, hsum, hplus] at harr
      by_cases hlast : sz.toNat - i.toNat ≤ 4096
      · -- the last page
        obtain ⟨fuel, rfl⟩ : ∃ m, fuel = m + 1 := ⟨fuel - 1, by omega⟩
        have hnext : ¬i + 4096 < sz := by
          have hadd : (i + 4096).toNat = i.toNat + 4096 := toNat_plus (by
            change i.toNat + 4096 < _
            omega)
          intro hl
          have hl' : (i + 4096).toNat < sz.toNat := hl
          omega
        rw [loadsegLoop, if_neg hnext, wp_pure]
        refine ⟨hch, hfail, .inl ⟨rfl, .inr (by omega), ?_⟩⟩
        have hmin : n.toNat = sz.toNat - i.toNat := by omega
        rw [hmin] at harr
        exact harr
      · have hadd : (i + 4096).toNat = i.toNat + 4096 := toNat_plus (by
          change i.toNat + 4096 < _
          omega)
        have hfull : n.toNat = 4096 := by omega
        refine wp_mono (ih hch.sound (by omega) (by omega) (fun k hk => ?_) (by omega) (.inr ?_))
          fun r s' hr => ?_
        · exact (Mapped.congr ((hch.map k).resolve_right fun hf => hf.1)).mpr (hm k hk)
        · omega
        · obtain ⟨hch', hfail', hr⟩ := hr
          have hne' : ¬sz = i + 4096 := fun he => by
            have := congrArg UInt32.toNat he
            omega
          refine ⟨hch.trans hch', hfail'.trans hfail, hr.imp (fun hr => ?_) fun hr => ⟨hr.1, ?_⟩⟩
          · obtain ⟨hr0, hhas, harr'⟩ := hr
            refine ⟨hr0, .inr (hhas.resolve_left hne'), ?_⟩
            have hcut : sz.toNat - i.toNat = n.toNat + (sz.toNat - (i + 4096).toNat) := by omega
            rw [hcut]
            refine Arrived.append harr ?_
            rw [hfull, Nat.add_assoc, ← hadd]
            have hsrc : (fun j => f.data (off.toNat + i.toNat + (4096 + j))) =
                fun j => f.data (off.toNat + (i + 4096).toNat + j) := by
              funext j
              have hj : off.toNat + i.toNat + (4096 + j) = off.toNat + (i + 4096).toNat + j := by
                omega
              rw [hj]
            rw [hsrc]
            exact harr'
          · exact fun hin => hr.2 (.inr (hin.resolve_left hne))

/-- **`loadseg`** reads a segment of the file, where the file has it. -/
theorem loadseg_spec (h : Sound s p) (hal : va.toNat % 4096 = 0) (hsz : sz.toNat ≤ 2 ^ 32 - 4096)
    (hva : va.toNat + sz.toNat < 2 ^ 38) (hm : ∀ k, InRange va.toNat sz.toNat k → Mapped s p k) :
    wp may (loadseg p.pagetable va f off sz) (fun r s' => Loadseg s s' p va f off sz r) s := by
  have hz : (0 : UInt32).toNat = 0 := rfl
  have hrounds : 2 ^ 20 < ROUNDS32 := by
    rw [ROUNDS32]
    omega
  have hfuel : 2 ^ 20 < ROUNDS32 + (0 : UInt32).toNat / 4096 := by
    rw [hz]
    omega
  have hi : (0 : UInt32).toNat % 4096 = 0 := by rw [hz]
  have hle : (0 : UInt32).toNat ≤ sz.toNat := by
    rw [hz]
    exact Nat.zero_le _
  have hloop : wp may (loadsegLoop p.pagetable va f off sz ROUNDS32 0) (fun r s' =>
      Change s s' p (fun _ => False) ∧ s'.failed = s.failed ∧
        (r = 0 ∧ (sz = 0 ∨ off.toNat + sz.toNat ≤ f.size.toNat) ∧ Arrived s s' p
            (va.toNat + (0 : UInt32).toNat) (sz.toNat - (0 : UInt32).toNat)
            (fun j => f.data (off.toNat + (0 : UInt32).toNat + j)) ∨
          r = -1 ∧ ¬(sz = 0 ∨ off.toNat + sz.toNat ≤ f.size.toNat))) s :=
    loadsegLoop_spec ROUNDS32 h hal hi hle hsz hva hm hfuel (.inl rfl)
  rw [hz, Nat.add_zero, Nat.add_zero, Nat.sub_zero] at hloop
  exact hloop

/-! ### Segments -/

lemma flags_perm (flags : ℕ) : (flags2perm flags).toNat < 1024 ∧
    (PTE_R ||| PTE_U ||| flags2perm flags ||| PTE_V) &&& RIGHTS =
      PTE_R ||| PTE_U ||| flags2perm flags := by
  unfold flags2perm
  split_ifs <;> decide

lemma extend_sz (i : Image) (newsz perm : UInt64) :
    (extend i newsz perm).sz = if newsz < i.sz then i.sz else newsz := by
  unfold extend
  split_ifs <;> rfl

/-- Bytes have arrived in the new address space. -/
lemma Draft.arrived {src : ℕ → UInt8} {d : ℕ} (h : Draft s s1 q) (htf : tf ∉ s.free)
    (hch : Change s1 s2 q fun _ => False) (ha : Arrived s1 s2 q d n src) :
    image s2 ⟨q, tf⟩ = (image s1 ⟨q, tf⟩).store d n src := by
  have hframe : s2.mem tf = s1.mem tf := by rw [(h.change hch).other tf htf, h.other tf htf]
  have him : image s2 ⟨q, tf⟩ = { image s1 ⟨q, tf⟩ with bytes := view s2 q } :=
    image_of_change hch hframe
  rw [him, funext ha]
  rfl

/-- What a part of `kexec` comes to that makes the image `o` of `im`, or gives up. -/
def Makes (s s1 s2 : Ram) (pt tf : UInt64) (o : Option Image) (done : Bool) (sz : UInt64) : Prop :=
  Draft s s2 ⟨sz, pt⟩ ∧
    (s2.failed = s1.failed ∧ (done = true ∧ Open s2 ⟨sz, pt⟩ ∧ o = some (image s2 ⟨⟨sz, pt⟩, tf⟩) ∨
        done = false ∧ o = none) ∨
      s1.failed < s2.failed ∧ done = false)

lemma toNat_toUInt32 (x : UInt64) : x.toUInt32.toNat ≤ x.toNat := by
  rw [UInt64.toNat_toUInt32]
  exact Nat.mod_le _ _

/-- What `loadseg` of a segment comes to in the new address space. -/
def Loads (s s1 s2 : Ram) (q : Proc) (tf va : UInt64) (f : File) (off sz : UInt32) (r : ℤ) : Prop :=
  Draft s s2 q ∧ Open s2 q ∧ s2.failed = s1.failed ∧
    (r = 0 ∧ Has f off sz ∧ image s2 ⟨q, tf⟩ =
        (image s1 ⟨q, tf⟩).store va.toNat sz.toNat (fun j => f.data (off.toNat + j)) ∨
      r = -1 ∧ ¬Has f off sz)

/-- `loadseg` of what is below the size. -/
lemma loadseg_loads (h : Draft s s1 q) (ho : Open s1 q) (hs : Pool s) (htf : tf ∉ s.free)
    (hal : va.toNat % 4096 = 0) (hle : va.toNat + sz.toNat ≤ q.sz.toNat) :
    wp may (loadseg q.pagetable va f off sz) (fun r s2 => Loads s s1 s2 q tf va f off sz r) s1 := by
  have hroom := h.room hs
  have hcount : pagesUp q.sz ≤ FRAMES := by omega
  unfold pagesUp FRAMES at hcount
  have hmaps : ∀ k, InRange va.toNat sz.toNat k → Mapped s1 q k := by
    rintro k ⟨a, ha1, ha2, rfl⟩
    refine ho _ ?_
    unfold pagesUp
    omega
  refine wp_mono (loadseg_spec h.whole.toSound hal (by omega) (by omega) hmaps) fun r s2 hr => ?_
  obtain ⟨hch, hfail, hr⟩ := hr
  refine ⟨h.change hch, ho.change hch, hfail, hr.imp_left fun hr => ⟨hr.1, hr.2.1, ?_⟩⟩
  exact h.arrived htf hch hr.2.2

/-- A segment that passes the checks ends at or below the size. -/
lemma segment_le {ph : Proghdr} (h1 : ¬ph.memsz < ph.filesz)
    (h2 : ¬ph.vaddr + ph.memsz < ph.vaddr) (hle : ph.vaddr + ph.memsz ≤ sz1) :
    ph.vaddr.toNat + ph.filesz.toUInt32.toNat ≤ sz1.toNat := by
  have hsize := toNat_toUInt32 ph.filesz
  have hmem : ph.filesz.toNat ≤ ph.memsz.toNat := UInt64.not_lt.mp h1
  have hadd : (ph.vaddr + ph.memsz).toNat = (ph.vaddr.toNat + ph.memsz.toNat) % 2 ^ 64 :=
    UInt64.toNat_add _ _
  have hge : ph.vaddr.toNat ≤ (ph.vaddr + ph.memsz).toNat := UInt64.not_lt.mp h2
  have hv := ph.vaddr.toNat_lt
  have hm := ph.memsz.toNat_lt
  have hle' : (ph.vaddr + ph.memsz).toNat ≤ sz1.toNat := hle
  omega

lemma segments_spec {pt : UInt64} (hs : Pool s) (htf : tf ∉ s.free) (n : ℕ) (off : UInt32)
    (sz : UInt64) (h : Draft s s1 ⟨sz, pt⟩) (ho : Open s1 ⟨sz, pt⟩) :
    wp may (segments pt f n off sz) (fun r s2 =>
      Makes s s1 s2 pt tf (withSegments f n off (image s1 ⟨⟨sz, pt⟩, tf⟩)) r.1 r.2) s1 := by
  induction n generalizing s1 off sz with
  | zero =>
    rw [segments, wp_pure]
    exact ⟨h, .inl ⟨rfl, .inl ⟨rfl, ho, rfl⟩⟩⟩
  | succ n ih =>
    have hbad : withSegments f (n + 1) off (image s1 ⟨⟨sz, pt⟩, tf⟩) = none →
        wp may (pure (false, sz)) (fun r s2 =>
          Makes s s1 s2 pt tf (withSegments f (n + 1) off (image s1 ⟨⟨sz, pt⟩, tf⟩)) r.1 r.2) s1 := by
      intro hz
      rw [wp_pure, hz]
      exact ⟨h, .inl ⟨rfl, .inr ⟨rfl, rfl⟩⟩⟩
    rw [segments]
    by_cases hread : readi f off Proghdr.SIZE ≠ Proghdr.SIZE
    · rw [if_pos hread]
      exact hbad (by rw [withSegments, if_pos hread])
    rw [if_neg hread]
    by_cases htype : (proghdr f off.toNat).type ≠ ELF_PROG_LOAD
    · rw [if_pos htype]
      have hskip : withSegments f (n + 1) off (image s1 ⟨⟨sz, pt⟩, tf⟩) =
          withSegments f n (off + Proghdr.SIZE) (image s1 ⟨⟨sz, pt⟩, tf⟩) := by
        rw [withSegments, if_neg hread, if_pos htype]
      rw [hskip]
      exact ih _ _ h ho
    rw [if_neg htype]
    obtain ⟨ph, hph⟩ : ∃ ph, ph = proghdr f off.toNat := ⟨_, rfl⟩
    have hload : withSegments f (n + 1) off (image s1 ⟨⟨sz, pt⟩, tf⟩) =
        (withSegment f ph (image s1 ⟨⟨sz, pt⟩, tf⟩)).bind
          (withSegments f n (off + Proghdr.SIZE)) := by
      rw [withSegments, if_neg hread, if_neg htype, hph]
    rw [← hph]
    rw [hload] at hbad ⊢
    -- the checks of the header
    by_cases h1 : ph.memsz < ph.filesz
    · rw [if_pos h1]
      exact hbad (by rw [withSegment, if_pos (.inl h1)]; rfl)
    rw [if_neg h1]
    by_cases h2 : ph.vaddr + ph.memsz < ph.vaddr
    · rw [if_pos h2]
      exact hbad (by rw [withSegment, if_pos (.inr (.inl h2))]; rfl)
    rw [if_neg h2]
    by_cases h3 : ph.vaddr % PGSIZE ≠ 0
    · rw [if_pos h3]
      exact hbad (by rw [withSegment, if_pos (.inr (.inr h3))]; rfl)
    rw [if_neg h3]
    have hchecks : ¬(ph.memsz < ph.filesz ∨ ph.vaddr + ph.memsz < ph.vaddr ∨
        ph.vaddr % PGSIZE ≠ 0) := by
      rintro (hc | hc | hc)
      · exact h1 hc
      · exact h2 hc
      · exact h3 hc
    obtain ⟨hperm, hrights⟩ := flags_perm ph.flags
    have halloc : wp may (uvmalloc pt sz (ph.vaddr + ph.memsz) (flags2perm ph.flags)) (fun r s2 =>
        Extended s s1 s2 ⟨sz, pt⟩ tf (ph.vaddr + ph.memsz) (flags2perm ph.flags) r) s1 :=
      uvmalloc_extends h hs htf hperm hrights
    refine wp_call halloc fun sz1 s2 hx => ?_
    rcases hx with ⟨rfl, hfail, hd⟩ | ⟨hfail, hd, hopen, him⟩
    · rw [if_pos rfl, wp_pure]
      exact ⟨hd, .inr ⟨hfail, rfl⟩⟩
    have hsz : sz1 = if ph.vaddr + ph.memsz < sz then sz else ph.vaddr + ph.memsz := by
      have := congrArg Image.sz him
      rw [extend_sz] at this
      exact this
    have hle : ph.vaddr + ph.memsz ≤ sz1 := by
      rw [hsz]
      split_ifs with hlt
      · exact UInt64.le_of_lt hlt
      · exact UInt64.le_refl _
    rw [wp_ite]
    refine ⟨fun hz => ?_, fun hnz => ?_⟩
    · -- the first segment is empty
      have hzero : sz = 0 := by
        rw [hz] at hsz
        split_ifs at hsz with hlt
        · exact hsz.symm
        · rw [← hsz] at hlt
          have hlt' : ¬0 < sz.toNat := hlt
          exact UInt64.toNat_inj.mp (by
            change sz.toNat = 0
            omega)
      rw [hz] at hd him
      rw [wp_pure, hzero]
      refine ⟨hd, .inl ⟨hfail, .inr ⟨rfl, ?_⟩⟩⟩
      rw [hzero] at him
      rw [withSegment, if_neg hchecks, ← him]
      exact congrArg (fun o : Option Image => o.bind _) (if_pos (.inl rfl))
    · have hloads : wp may (loadseg pt ph.vaddr f ph.off.toUInt32 ph.filesz.toUInt32)
          (fun r s3 => Loads s s2 s3 ⟨sz1, pt⟩ tf ph.vaddr f ph.off.toUInt32 ph.filesz.toUInt32 r)
          s2 :=
        loadseg_loads (q := ⟨sz1, pt⟩) hd (hopen ho) hs htf (mod_PGSIZE.mp (not_not.mp h3))
          (segment_le h1 h2 hle)
      refine wp_call hloads fun r s3 hr => ?_
      obtain ⟨hd3, ho3, hfail3, ⟨rfl, hhas, him3⟩ | ⟨rfl, hno⟩⟩ := hr
      · rw [if_neg (by decide)]
        have hseg : withSegment f ph (image s1 ⟨⟨sz, pt⟩, tf⟩) =
            some (image s3 ⟨⟨sz1, pt⟩, tf⟩) := by
          rw [withSegment, if_neg hchecks, ← him, him3]
          refine if_neg ?_
          rintro (hz | hno)
          · exact hnz hz
          · exact hno hhas
        rw [hseg, Option.bind_some]
        refine wp_mono (ih _ _ hd3 ho3) fun r s4 hr => ?_
        unfold Makes at hr ⊢
        rw [hfail3, hfail] at hr
        exact hr
      · rw [if_pos (by decide), wp_pure]
        refine ⟨hd3, .inl ⟨hfail3.trans hfail, .inr ⟨rfl, ?_⟩⟩⟩
        rw [withSegment, if_neg hchecks, ← him]
        exact congrArg (fun o : Option Image => o.bind _) (if_pos (.inr hno))

end Xv6.Vm.Build
