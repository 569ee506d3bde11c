import Xv6.Vm.Transfer

/-!
`copyinstr` beside `copyin`. They find the same bytes, except in a page that has not been
allocated: `copyin` allocates it, and `copyinstr` gives up.
-/

namespace Xv6.Vm.Strings

open Xv6.Data Xv6.Data.Effect Xv6.Data.Effect.Eff Xv6.Vm.Paging Xv6.Vm.Memory Xv6.Vm.Table
  Xv6.Vm.Tree Xv6.Vm.Walk Xv6.Vm.Maps Xv6.Vm.Grow Xv6.Vm.Copy Xv6.Vm.Space Xv6.Vm.Transfer

/-- The bytes of `f` from `d` up to the first 0, within `n`. -/
def cstring (f : ℕ → Option UInt8) : ℕ → ℕ → Option (List UInt8)
  | _, 0 => none
  | d, n + 1 => (f d).bind fun c => if c = 0 then some [0] else (cstring f (d + 1) n).map (c :: ·)

/-- The byte at `va`, where no page has to be allocated for it. -/
def direct (s : Ram) (p : Proc) (va : ℕ) : Option UInt8 :=
  if Mapped s p (va / 4096) then view s p va else none

/-- Read a string with `copyin`, one byte at a time. -/
def readString (p : Proc) (pagetable : UInt64) :
    ℕ → UInt64 → List UInt8 → Eff Ram (Option (List UInt8))
  | 0, _, _ => pure none
  | max + 1, srcva, dst => do
    let r ← copyin p pagetable srcva 1
    if r.1 ≠ 0 then pure none
    else if r.2 = [0] then pure (some (dst ++ r.2))
    else readString p pagetable max (srcva + 1) (dst ++ r.2)

variable {s s' : Ram} {p : Proc} {srcva max : UInt64} {d n : ℕ} {f g : ℕ → Option UInt8} {c : UInt8}
  {bs : List UInt8} {may : String → Prop}

/-! ### Strings -/

lemma cstring_none (h : f d = none) : cstring f d n = none := by
  cases n with
  | zero => rfl
  | succ n => rw [cstring, h, Option.bind_none]

lemma cstring_nul (h : f d = some 0) : cstring f d (n + 1) = some [0] := by
  rw [cstring, h, Option.bind_some, if_pos rfl]

lemma cstring_cons (h : f d = some c) (hc : c ≠ 0) :
    cstring f d (n + 1) = (cstring f (d + 1) n).map (c :: ·) := by
  rw [cstring, h, Option.bind_some, if_neg hc]

lemma copyChars_length (bs : List UInt8) : (copyChars bs).1.length ≤ bs.length := by
  induction bs with
  | nil => exact le_rfl
  | cons c cs ih =>
    unfold copyChars
    split_ifs
    · exact Nat.le_add_left 1 _
    · exact Nat.succ_le_succ ih

/-- The inner loop of `copyinstr` goes over the first bytes of a string. -/
lemma cstring_chars (hbs : bs.map some = (List.range bs.length).map fun j => f (d + j))
    (hn : bs.length ≤ n) :
    ((copyChars bs).2 = true → cstring f d n = some (copyChars bs).1) ∧
      ((copyChars bs).2 = false → (copyChars bs).1 = bs ∧
        cstring f d n = (cstring f (d + bs.length) (n - bs.length)).map (bs ++ ·)) := by
  induction bs generalizing d n with
  | nil => exact ⟨fun h => (Bool.false_ne_true h).elim, fun _ => ⟨rfl, by simp⟩⟩
  | cons c cs ih =>
    obtain ⟨n, rfl⟩ : ∃ m, n = m + 1 := ⟨n - 1, by rw [List.length_cons] at hn; omega⟩
    rw [List.length_cons, List.range_succ_eq_map, List.map_cons, List.map_cons, List.map_map] at hbs
    obtain ⟨hc, hcs⟩ := List.cons.inj hbs
    have hfirst : f d = some c := hc.symm
    have hrest : cs.map some = (List.range cs.length).map fun j => f (d + 1 + j) := by
      rw [hcs]
      refine List.map_congr_left fun j _ => ?_
      change f (d + (j + 1)) = f (d + 1 + j)
      congr 1
      omega
    obtain ⟨htrue, hfalse⟩ := ih hrest (Nat.le_of_succ_le_succ hn)
    by_cases hz : c = 0
    · subst hz
      rw [copyChars, if_pos rfl]
      exact ⟨fun _ => cstring_nul hfirst, fun h => (Bool.false_ne_true h.symm).elim⟩
    · rw [copyChars, if_neg hz, cstring_cons hfirst hz]
      refine ⟨fun h => by rw [htrue h, Option.map_some], fun h => ?_⟩
      obtain ⟨hsame, heq⟩ := hfalse h
      refine ⟨congrArg _ hsame, ?_⟩
      rw [heq, Option.map_map, List.length_cons, Nat.add_sub_add_right, ← Nat.add_assoc,
        Nat.add_right_comm]
      rfl

/-! ### `copyinstr` -/

lemma direct_mapped (h : Mapped s p (d / 4096)) : direct s p d = view s p d := if_pos h

lemma direct_none (h : ¬Mapped s p (d / 4096)) : direct s p d = none := if_neg h

/-- What `copyinstr` comes to. -/
def CopiedStr (s : Ram) (p : Proc) (d n : ℕ) (r : ℤ) (out : List UInt8) : Prop :=
  out.length ≤ n ∧ (r = 0 ∧ cstring (direct s p) d n = some out ∨
    r = -1 ∧ cstring (direct s p) d n = none)

lemma copyinstrLoop_spec (fuel : ℕ) (dst : List UInt8) (h : Sound s p) (hfuel : 0 < fuel)
    (hrounds : PGROUNDDOWN srcva < MAXVA → PAGES + 1 ≤ fuel + vpn srcva) :
    wp may (copyinstrLoop p.pagetable fuel srcva max dst) (fun r s' => s' = s ∧
      ∃ out, r.2 = dst ++ out ∧ CopiedStr s p srcva.toNat max.toNat r.1 out) s := by
  induction fuel generalizing srcva max dst with
  | zero => omega
  | succ fuel ih =>
    rw [copyinstrLoop, wp_ite]
    refine ⟨fun hpos => ?_, fun hz => ?_⟩
    · have hn : 0 < max.toNat := hpos
      rw [wp_bind]
      refine wp_of_ok (walkaddr_eq s p.pagetable (PGROUNDDOWN srcva)) ?_
      rw [vpn_down]
      by_cases hM : Mapped s p (vpn srcva)
      · obtain ⟨a, ha⟩ : ∃ a, a = PTE2PA (entryOf s p (vpn srcva)) := ⟨_, rfl⟩
        have hval : (if mapping s.mem p.pagetable (vpn srcva) &&& PTE_U ≠ 0 then
            PTE2PA (mapping s.mem p.pagetable (vpn srcva)) else 0) = a := (if_pos hM).trans ha.symm
        have hne : a ≠ 0 := by
          rw [ha]
          exact page_ne_zero h hM
        rw [hval, if_neg hne, wp_bind, wp_look, toNat_off, toNat_inPage]
        obtain ⟨bs, hbs⟩ : ∃ bs, bs = slice (s.mem a) (srcva.toNat % 4096)
          (first srcva.toNat max.toNat) := ⟨_, rfl⟩
        have hlen : bs.length = first srcva.toNat max.toNat := by
          rw [hbs, slice, List.length_map, List.length_range]
        have hbytes : bs.map some = (List.range bs.length).map
            fun j => direct s p (srcva.toNat + j) := by
          rw [hlen, hbs, slice_view hM ha.symm]
          refine List.map_congr_left fun j hj => (direct_mapped ?_).symm
          have hk : (srcva.toNat + j) / 4096 = vpn srcva := by
            have hlt := List.mem_range.mp hj
            unfold first at hlt
            unfold vpn
            omega
          rwa [hk]
        have hle : bs.length ≤ max.toNat := by
          rw [hlen]
          unfold first
          omega
        obtain ⟨htrue, hfalse⟩ := cstring_chars hbytes hle
        have hshort := copyChars_length bs
        rw [← hbs, wp_ite]
        refine ⟨fun hnul => ?_, fun hnul => ?_⟩
        · rw [wp_pure]
          exact ⟨rfl, _, rfl, hshort.trans hle, .inl ⟨rfl, htrue hnul⟩⟩
        · obtain ⟨hsame, heq⟩ := hfalse (Bool.not_eq_true _ ▸ hnul)
          have hva : PGROUNDDOWN srcva < MAXVA := by
            refine lt_MAXVA.mpr ?_
            rw [vpn_down]
            exact (h.mapped_lt hM).trans USER_lt
          obtain ⟨hnext, hmax⟩ := toNat_next max hva
          have hpast := lt_MAXVA.mp hva
          rw [vpn_down] at hpast
          have hfuel' := hrounds hva
          have hvpn : vpn (PGROUNDDOWN srcva + PGSIZE) = vpn srcva + 1 := by
            unfold vpn
            rw [hnext]
            omega
          rw [hsame]
          refine wp_mono (ih _ (by omega) (by rw [hvpn]; intro _; omega)) fun r s' hr => ?_
          obtain ⟨rfl, out, hout, hlt, hcase⟩ := hr
          rw [hnext, hmax] at hcase
          rw [hmax] at hlt
          refine ⟨rfl, bs ++ out, hout.trans (List.append_assoc _ _ _), ?_, ?_⟩
          · rw [List.length_append, hlen]
            unfold first at hlt ⊢
            omega
          · rw [heq, hlen]
            -- the string goes on in the next page, or `max` is reached
            have hgo : cstring (direct s' p) (srcva.toNat + first srcva.toNat max.toNat)
                (max.toNat - first srcva.toNat max.toNat) =
                cstring (direct s' p) ((srcva.toNat / 4096 + 1) * 4096)
                  (max.toNat - first srcva.toNat max.toNat) := by
              by_cases hend : first srcva.toNat max.toNat = max.toNat
              · rw [hend, Nat.sub_self]
                rfl
              · have hat : srcva.toNat + first srcva.toNat max.toNat =
                    (srcva.toNat / 4096 + 1) * 4096 := by
                  unfold first at hend ⊢
                  omega
                rw [hat]
            rw [hgo]
            rcases hcase with ⟨hr, hs⟩ | ⟨hr, hs⟩
            · exact .inl ⟨hr, by rw [hs, Option.map_some]⟩
            · exact .inr ⟨hr, by rw [hs, Option.map_none]⟩
      · have hval : (if mapping s.mem p.pagetable (vpn srcva) &&& PTE_U ≠ 0 then
            PTE2PA (mapping s.mem p.pagetable (vpn srcva)) else 0) = 0 := if_neg hM
        rw [hval, if_pos rfl, wp_pure]
        exact ⟨rfl, [], (List.append_nil _).symm, Nat.zero_le _,
          .inr ⟨rfl, cstring_none (direct_none hM)⟩⟩
    · have hz' : max.toNat = 0 := by
        have : ¬0 < max.toNat := hz
        omega
      rw [wp_pure, hz']
      exact ⟨rfl, [], (List.append_nil _).symm, le_rfl, .inr ⟨rfl, rfl⟩⟩

theorem copyinstr_spec (h : Sound s p) :
    wp may (copyinstr p.pagetable srcva max) (fun r s' => s' = s ∧
      CopiedStr s p srcva.toNat max.toNat r.1 r.2) s := by
  refine wp_mono (copyinstrLoop_spec ROUNDS [] h (by decide) fun _ => ?_) fun r s' hr => ?_
  · rw [PAGES_eq, ROUNDS]
    omega
  · obtain ⟨hs, out, hout, hcopied⟩ := hr
    rw [hout, List.nil_append]
    exact ⟨hs, hcopied⟩

/-! ### Byte by byte -/

lemma copyin_byte (h : Sound s p) : wp may (copyin p p.pagetable srcva 1) (fun r s' =>
    Sound s' p ∧ (∀ a, view s' p a = view s p a) ∧ s.failed ≤ s'.failed ∧
      ((∃ c, r = (0, [c]) ∧ view s p srcva.toNat = some c ∧ s'.failed = s.failed) ∨
        r.1 ≠ 0 ∧ (view s p srcva.toNat = none ∨ s.failed < s'.failed))) s := by
  refine wp_mono (copyin_spec h) fun r s' hr => ?_
  obtain ⟨hch, hview, ⟨m, hm, hout, hall⟩, -, hiff, -⟩ := hr
  refine ⟨hch.sound, hview, hch.failed, ?_⟩
  have hone : (1 : UInt64).toNat = 1 := rfl
  rw [hone] at hm hall hiff
  by_cases hz : r.1 = 0
  · rw [hall hz] at hout
    obtain ⟨c, hc⟩ : ∃ c, r.2 = [c] := List.length_eq_one_iff.mp (by
      have := congrArg List.length hout
      simpa using this)
    rw [hc] at hout
    refine .inl ⟨c, Prod.ext hz hc, ?_, (hiff.mp hz).2⟩
    simpa using hout.symm
  · refine .inr ⟨hz, ?_⟩
    by_cases hfail : s'.failed = s.failed
    · refine .inl ?_
      have hbad : ¬∀ k, InRange srcva.toNat 1 k → Mapped s p k ∨ Lazy s p k :=
        fun hg => hz (hiff.mpr ⟨hg, hfail⟩)
      push Not at hbad
      obtain ⟨k, ⟨va, h1, h2, rfl⟩, hM, hL⟩ := hbad
      obtain rfl : va = srcva.toNat := by omega
      exact view_none hM hL
    · exact .inr (by have := hch.failed; omega)

lemma view_lt (h : Sound s p) (hv : view s p d = some c) : d < 2 ^ 38 := by
  have hk : d / 4096 < USER := by
    by_cases hM : Mapped s p (d / 4096)
    · exact h.mapped_lt hM
    · by_cases hL : Lazy s p (d / 4096)
      · exact h.lazy_lt hL
      · rw [view_none hM hL] at hv
        cases hv
  rw [USER_eq] at hk
  omega

lemma readString_spec (n : ℕ) (dst : List UInt8) (h : Sound s p) :
    wp may (readString p p.pagetable n srcva dst) (fun o s' => s.failed ≤ s'.failed ∧
      (s'.failed = s.failed → o = (cstring (view s p) srcva.toNat n).map (dst ++ ·))) s := by
  induction n generalizing s srcva dst with
  | zero => exact ⟨le_rfl, fun _ => rfl⟩
  | succ n ih =>
    rw [readString]
    refine wp_call (copyin_byte h) fun r s1 hr => ?_
    obtain ⟨hs1, hview, hle, ⟨c, rfl, hc, hfail⟩ | ⟨hne, hbad⟩⟩ := hr
    · rw [if_neg (not_not.mpr rfl), wp_ite]
      refine ⟨fun hnul => ?_, fun hnul => ?_⟩
      · obtain rfl : c = 0 := List.cons.inj hnul |>.1
        rw [wp_pure]
        exact ⟨hle, fun _ => by rw [cstring_nul hc, Option.map_some]⟩
      · have hnz : c ≠ 0 := fun hz => hnul (by rw [hz])
        have hnext : (srcva + 1).toNat = srcva.toNat + 1 := by
          have := view_lt h hc
          rw [UInt64.toNat_add]
          change (srcva.toNat + 1) % 2 ^ 64 = _
          omega
        refine wp_mono (ih _ hs1) fun o s' ho => ⟨hle.trans ho.1, fun hf => ?_⟩
        have hfun : view s1 p = view s p := funext hview
        have hrest := ho.2 (by omega)
        rw [hnext, hfun] at hrest
        rw [hrest, cstring_cons hc hnz, Option.map_map]
        congr 1
        funext l
        exact List.append_assoc _ _ _
    · rw [if_pos hne, wp_pure]
      refine ⟨hle, fun hf => ?_⟩
      have hnone := hbad.resolve_right (by omega)
      rw [cstring_none hnone, Option.map_none]

/-! ### Where they agree -/

/-- `copyinstr` finds the string that reading byte by byte does, and writes no more than `max`
bytes. -/
def Agree (s : Ram) (p : Proc) (srcva max : UInt64) : Prop :=
  ∃ r s' o s'', copyinstr p.pagetable srcva max s = .ok s' r ∧
    readString p p.pagetable max.toNat srcva [] s = .ok s'' o ∧
    (∀ str, r = (0, str) ↔ o = some str) ∧ (o = none → r.1 = -1) ∧ r.2.length ≤ max.toNat

/-- The bytes before the `i`-th are all there and none is 0. -/
def Reaches (s : Ram) (p : Proc) (d i : ℕ) : Prop :=
  ∀ j < i, ∃ c, direct s p (d + j) = some c ∧ c ≠ 0

lemma reaches_succ (h : direct s p d = some c) (hc : c ≠ 0) (i : ℕ) :
    Reaches s p d (i + 1) ↔ Reaches s p (d + 1) i := by
  have hadd : ∀ j, d + (j + 1) = d + 1 + j := fun j => by omega
  refine ⟨fun hr j hj => ?_, fun hr j hj => ?_⟩
  · rw [← hadd]
    exact hr (j + 1) (by omega)
  · cases j with
    | zero => exact ⟨c, h, hc⟩
    | succ j =>
      rw [hadd]
      exact hr j (by omega)

/-- The strings differ exactly where one runs into a page that has not been allocated. -/
lemma cstring_direct (s : Ram) (p : Proc) (d n : ℕ) :
    cstring (direct s p) d n = cstring (view s p) d n ↔
      ∀ i < n, Reaches s p d i → ¬Lazy s p ((d + i) / 4096) := by
  induction n generalizing d with
  | zero => exact ⟨fun _ i hi => absurd hi (Nat.not_lt_zero i), fun _ => rfl⟩
  | succ n ih =>
    by_cases hM : Mapped s p (d / 4096)
    · have hnl : ¬Lazy s p (d / 4096) := fun hl => hM.ne_zero hl.2
      have hd := direct_mapped hM
      obtain ⟨c, hc⟩ : ∃ c, view s p d = some c := ⟨_, view_mapped hM⟩
      rw [hc] at hd
      by_cases hz : c = 0
      · subst hz
        rw [cstring_nul hd, cstring_nul hc]
        refine ⟨fun _ i _ hr => ?_, fun _ => rfl⟩
        cases i with
        | zero => exact hnl
        | succ i =>
          obtain ⟨c, hc', hne⟩ := hr 0 (by omega)
          rw [Nat.add_zero, hd] at hc'
          exact absurd (Option.some.inj hc').symm hne
      · have hinj : Function.Injective (Option.map (c :: ·)) :=
          Option.map_injective fun _ _ h => (List.cons.inj h).2
        rw [cstring_cons hd hz, cstring_cons hc hz, hinj.eq_iff, ih]
        have hadd : ∀ j, d + (j + 1) = d + 1 + j := fun j => by omega
        refine ⟨fun hall i hi hr => ?_, fun hall i hi hr => ?_⟩
        · cases i with
          | zero => exact hnl
          | succ i =>
            rw [hadd]
            exact hall i (by omega) ((reaches_succ hd hz i).mp hr)
        · rw [← hadd]
          exact hall (i + 1) (by omega) ((reaches_succ hd hz i).mpr hr)
    · rw [cstring_none (direct_none hM)]
      by_cases hL : Lazy s p (d / 4096)
      · rw [cstring_nul (view_lazy hL)]
        refine ⟨fun h => absurd h.symm (Option.some_ne_none _), fun hall => ?_⟩
        exact absurd hL (hall 0 (Nat.succ_pos n) fun j hj => absurd hj (Nat.not_lt_zero j))
      · rw [cstring_none (view_none hM hL)]
        refine ⟨fun _ i _ hr => ?_, fun _ => rfl⟩
        cases i with
        | zero => exact hL
        | succ i =>
          obtain ⟨c, hc, -⟩ := hr 0 (by omega)
          rw [Nat.add_zero, direct_none hM] at hc
          exact absurd hc.symm (Option.some_ne_none c)

/-- **`copyinstr` agrees with `copyin`** exactly where the string does not run into a page below
`sz` that has not been allocated. -/
theorem copyinstr_agrees (s : Ram) (p : Proc) (srcva max : UInt64) (h : Sound s p)
    (henough : (after (readString p p.pagetable max.toNat srcva []) s).failed = s.failed) :
    Agree s p srcva max ↔ ∀ i < max.toNat, Reaches s p srcva.toNat i →
      ¬Lazy s p ((srcva.toNat + i) / 4096) := by
  rw [← cstring_direct]
  have hstr : wp (fun _ => False) (copyinstr p.pagetable srcva max) (fun r s' => s' = s ∧
      CopiedStr s p srcva.toNat max.toNat r.1 r.2) s := copyinstr_spec h
  have hread : wp (fun _ => False) (readString p p.pagetable max.toNat srcva [])
      (fun o s' => s.failed ≤ s'.failed ∧
        (s'.failed = s.failed → o = (cstring (view s p) srcva.toNat max.toNat).map ([] ++ ·))) s :=
    readString_spec _ _ h
  unfold Agree
  cases hx : copyinstr p.pagetable srcva max s with
  | panic msg => exact (hstr.panic hx).elim
  | ok s' r =>
    cases hy : readString p p.pagetable max.toNat srcva [] s with
    | panic msg => exact (hread.panic hy).elim
    | ok s'' o =>
      obtain ⟨-, hlen, hcase⟩ := hstr.ok hx
      rw [after, hy] at henough
      have ho := (hread.ok hy).2 henough
      have hid : ∀ w : Option (List UInt8), w.map ([] ++ ·) = w := fun w => by cases w <;> rfl
      rw [hid] at ho
      constructor
      · rintro ⟨r', t', o', t'', hr', ho', hagree, -, -⟩
        injection hr' with _ hr'
        injection ho' with _ ho'
        subst hr' ho'
        rw [← ho]
        rcases hcase with ⟨hr, hs⟩ | ⟨hr, hs⟩
        · rw [hs]
          exact ((hagree r.2).mp (Prod.ext hr rfl)).symm
        · rw [hs]
          cases hov : o with
          | none => rfl
          | some str =>
            have := (hagree str).mpr hov
            rw [this] at hr
            exact absurd hr (by norm_num)
      · intro heq
        rw [← ho] at heq
        refine ⟨r, s', o, s'', rfl, rfl, fun str => ?_, fun hnone => ?_, hlen⟩
        · rcases hcase with ⟨hr, hs⟩ | ⟨hr, hs⟩
          · rw [← heq, hs, Option.some_inj]
            exact ⟨fun he => by rw [he], fun he => Prod.ext hr he⟩
          · rw [← heq, hs]
            refine ⟨fun he => ?_, fun he => absurd he.symm (Option.some_ne_none _)⟩
            rw [he] at hr
            exact absurd hr (by norm_num)
        · rcases hcase with ⟨hr, hs⟩ | ⟨hr, hs⟩
          · rw [hnone, hs] at heq
            exact absurd heq (Option.some_ne_none _)
          · exact hr

/-- `young` after three letters and a 0 have been put at the end of its first page. -/
def lettered : Ram :=
  after (copyout young young.pagetable 4092 (fun j => if j = 3 then 0 else 65) 4) room

lemma sound_lettered : Sound lettered young := by
  have hspec : wp (fun _ => False) (copyout young young.pagetable 4092
      (fun j => if j = 3 then 0 else 65) 4) (fun _ s' => Sound s' young) room :=
    wp_mono (copyout_spec sound_young) fun _ _ hr => hr.change.sound
  unfold lettered after
  split
  · rename_i heq
    exact hspec.ok heq
  · exact sound_young

theorem copyinstr_agrees_lettered : Agree lettered young 4092 8 := by
  refine (copyinstr_agrees lettered young 4092 8 sound_lettered (by decide +kernel)).mpr
    fun i _ hr => ?_
  -- the fourth byte is the 0
  have hnul : direct lettered young (4092 + 3) = some 0 := by decide +kernel
  by_cases hi : i < 4
  · have hthere : ∀ i < 4, ¬Lazy lettered young ((4092 + i) / 4096) := by decide +kernel
    exact hthere i hi
  · obtain ⟨c, hc, hne⟩ := hr 3 (by omega)
    have h4092 : (4092 : UInt64).toNat = 4092 := rfl
    rw [h4092, hnul] at hc
    exact absurd (Option.some.inj hc).symm hne

/-- A page that has not been allocated reads as the empty string, for which `copyinstr` fails. -/
theorem copyinstr_lazy : Sound room young ∧
    (after (readString young young.pagetable 1 0 []) room).failed = room.failed ∧
    ¬Agree room young 0 1 := by
  refine ⟨sound_young, by decide +kernel, ?_⟩
  rintro ⟨r, s', o, s'', hr, ho, hagree, -, -⟩
  have hval : value (copyinstr young.pagetable 0 1) room = some (-1, []) := by decide +kernel
  have hread : value (readString young young.pagetable 1 0 []) room = some (some [0]) := by
    decide +kernel
  change readString young young.pagetable 1 0 [] room = _ at ho
  rw [value, hr] at hval
  rw [value, ho] at hread
  obtain rfl : r = (-1, []) := Option.some.inj hval
  have hbad := (hagree [0]).mpr (Option.some.inj hread)
  exact absurd (congrArg Prod.fst hbad) (by decide)

end Xv6.Vm.Strings
