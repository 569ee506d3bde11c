import Xv6.Vm.Grow

/-!
What a page table is for: a partial map from virtual pages to physical pages with permissions.
Whatever sequence of calls built the table, `walk` finds what the map says.
-/

namespace Xv6.Vm.PartialMap

open Xv6.Conc Xv6.Data Xv6.Data.Effect Xv6.Data.Effect.Eff Xv6.Vm.Paging Xv6.Vm.Memory
  Xv6.Vm.Table Xv6.Vm.Tree Xv6.Vm.Walk Xv6.Vm.Maps Xv6.Vm.Grow

/-! ### The map -/

/-- For each virtual page, the physical page and the permissions it is mapped to. -/
abbrev PageMap := ℕ → Option (UInt64 × UInt64)

/-- The pages from `lo` are mapped to `pa 0`, `pa 1` and so on, `n` of them. -/
def PageMap.assign (m : PageMap) (lo n : ℕ) (pa : ℕ → UInt64) (perm : UInt64) : PageMap := fun k =>
  if lo ≤ k ∧ k < lo + n then some (pa (k - lo), perm) else m k

def PageMap.remove (m : PageMap) (lo n : ℕ) : PageMap := fun k =>
  if lo ≤ k ∧ k < lo + n then none else m k

def PageMap.unmapped (m : PageMap) (lo n : ℕ) : Prop := ∀ k, lo ≤ k → k < lo + n → m k = none

/-- Page `j` from `pa` on. -/
def pageFrom (pa : UInt64) (j : ℕ) : UInt64 := PGROUNDDOWN (pa + UInt64.ofNat (j * 4096))

/-! ### The calls -/

/-- A call with a page table. An `int perm` is a set of flags. -/
inductive Op
  | mappages (va size pa perm : UInt64)
  | uvmunmap (va npages : UInt64) (do_free : Bool)
  | uvmalloc (oldsz newsz xperm : UInt64)
  | uvmdealloc (oldsz newsz : UInt64)
  | uvmclear (va : UInt64)

/-- What a call returns. -/
inductive Res
  | void
  | int (r : ℤ)
  | size (r : UInt64)
deriving DecidableEq

def Op.run (pt : UInt64) : Op → Eff Ram Res
  | mappages va size pa perm => do pure (.int (← Table.mappages pt va size pa perm))
  | uvmunmap va npages do_free => do
    Table.uvmunmap pt va npages do_free
    pure .void
  | uvmalloc oldsz newsz xperm => do pure (.size (← Table.uvmalloc pt oldsz newsz xperm))
  | uvmdealloc oldsz newsz => do pure (.size (← Table.uvmdealloc pt oldsz newsz))
  | uvmclear va => do
    Table.uvmclear pt va
    pure .void

/-- What a call does to the map, of which `free` are the pages not in use. -/
def Op.does (free : Multiset UInt64) (m : PageMap) : Op → Res → PageMap → Prop
  | mappages va size pa perm, .int r, m' => ∃ j, m.unmapped (vpn va) j ∧
      m' = m.assign (vpn va) j (pageFrom pa) perm ∧
      (r = 0 ∧ j = size.toNat / 4096 ∨ r = -1 ∧ j < size.toNat / 4096)
  | uvmunmap va npages _, .void, m' => m' = m.remove (vpn va) npages.toNat
  | uvmalloc oldsz newsz xperm, .size r, m' =>
      newsz < oldsz ∧ r = oldsz ∧ m' = m ∨ oldsz ≤ newsz ∧ r = 0 ∧ m' = m ∨
      oldsz ≤ newsz ∧ r = newsz ∧ m.unmapped (pagesUp oldsz) (pagesUp newsz - pagesUp oldsz) ∧
        ∃ pa : ℕ → UInt64, (∀ j < pagesUp newsz - pagesUp oldsz, pa j ∈ free) ∧
          m' = m.assign (pagesUp oldsz) (pagesUp newsz - pagesUp oldsz) pa (PTE_R ||| PTE_U ||| xperm)
  | uvmdealloc oldsz newsz, .size r, m' => r = (if newsz ≥ oldsz then oldsz else newsz) ∧
      m' = m.remove (pagesUp newsz) (pagesUp oldsz - pagesUp newsz)
  | uvmclear va, .void, m' =>
      m' = Function.update m (vpn va) ((m (vpn va)).map fun e => (e.1, e.2 &&& ~~~PTE_U))
  | _, _, _ => False

/-- The pages that `n` virtual pages from `lo` are mapped to may be freed: none of them is a page
of the page table or free already, and none is freed twice. -/
def Disposable (s : Ram) (pt : UInt64) (lo n : ℕ) : Prop :=
  (tables s.mem pt + s.free + held (mapping s.mem pt) lo n).Nodup

/-- Flags are flags, ranges end within the 64 bits, what is freed may be freed, and the number of
pages that `uvmdealloc` frees is an `int`. -/
def Op.Lawful (s : Ram) (pt : UInt64) : Op → Prop
  | mappages _ _ _ perm => perm.toNat < 1024
  | uvmunmap va npages do_free => va.toNat + npages.toNat * 4096 < 2 ^ 64 ∧
      (do_free = true → Disposable s pt (vpn va) npages.toNat)
  | uvmalloc _ _ xperm => xperm.toNat < 1024
  | uvmdealloc oldsz newsz => pagesUp oldsz - pagesUp newsz < 2 ^ 31 ∧
      Disposable s pt (pagesUp newsz) (pagesUp oldsz - pagesUp newsz)
  | uvmclear _ => True

/-! ### Runs -/

/-- What was called, with what it returned and the pages that were free before, last call first. -/
abbrev History := List (Op × Res × Multiset UInt64)

/-- `uvmcreate` made the page table `pt`, and the calls of a history, which `ok` allows, none of
which panicked, led to `s`. -/
inductive Run (ok : Ram → UInt64 → Op → Prop) (pt : UInt64) : History → Ram → Prop
  | create {s s' : Ram} : Pool s → uvmcreate s = .ok s' pt → pt ≠ 0 → Run ok pt [] s'
  | call {h : History} {s s' : Ram} {op : Op} {r : Res} : Run ok pt h s → ok s pt op →
      op.run pt s = .ok s' r → Run ok pt ((op, r, s.free) :: h) s'

/-- The maps that a history may lead to. -/
inductive Meaning : History → PageMap → Prop
  | empty : Meaning [] fun _ => none
  | call {h : History} {m m' : PageMap} {op : Op} {r : Res} {free : Multiset UInt64} :
      Meaning h m → op.does free m r m' → Meaning ((op, r, free) :: h) m'

/-! ### Finding an entry -/

/-- The valid entry that `walk` finds. -/
def lookup (pagetable va : UInt64) : Eff Ram (Option UInt64) := do
  match ← walk pagetable va false with
  | none => pure none
  | some (t, i) => do
    let pte ← fetch t i
    if pte &&& PTE_V = 0 then pure none else pure (some pte)

/-- The entry for a physical page with permissions. -/
def pte (e : UInt64 × UInt64) : UInt64 := PA2PTE e.1 ||| e.2 ||| PTE_V

/-- `lookup` finds what `m` says, on every page. -/
def Shows (pt : UInt64) (s : Ram) (m : PageMap) : Prop :=
  ∀ va, va.toNat % 4096 = 0 → va < MAXVA → lookup pt va s = .ok s ((m (vpn va)).map pte)

/-- The same, of the entries themselves. -/
structure Agrees (pt : UInt64) (s : Ram) (m : PageMap) : Prop where
  entry : ∀ k, mapping s.mem pt k = ((m k).map pte).getD 0
  aligned : ∀ k e, m k = some e → e.1.toNat % 4096 = 0 ∧ e.2.toNat < 1024

variable {s s' : Ram} {pt va : UInt64} {m m' : PageMap} {k lo n : ℕ} {may : String → Prop}

lemma pte_ne_zero (e : UInt64 × UInt64) : pte e ≠ 0 := entry_ne_zero e.1 e.2

lemma lookup_mapping (hva : va < MAXVA) : lookup pt va s =
    .ok s (if mapping s.mem pt (vpn va) = 0 then none else some (mapping s.mem pt (vpn va))) := by
  have hk := lt_MAXVA.mp hva
  unfold lookup
  rw [bind_ok (walk_leaf hva), leaf]
  cases ht : table s.mem pt (vpn va) with
  | none =>
    rw [mapping_of_none ht]
    rfl
  | some t =>
    rw [mapping_of_table hk ht]
    change (fetch t (Fin.ofNat 512 (vpn va)) >>= _) s = _
    rw [fetch_bind]
    by_cases hv : entry (s.mem t) (Fin.ofNat 512 (vpn va)) &&& PTE_V = 0
    · rw [if_pos hv, if_neg (not_not.mpr hv)]
      rfl
    · have hne : entry (s.mem t) (Fin.ofNat 512 (vpn va)) ≠ 0 := by
        intro hz
        rw [hz] at hv
        exact hv rfl
      rw [if_neg hv, if_pos hv, if_neg hne]
      rfl

lemma Agrees.shows (h : Agrees pt s m) : Shows pt s m := by
  intro va _ hva
  rw [lookup_mapping hva, h.entry]
  cases hm : m (vpn va) with
  | none => rfl
  | some e =>
    simp only [Option.map_some, Option.getD_some]
    rw [if_neg (pte_ne_zero e)]

lemma Agrees.zero_iff (h : Agrees pt s m) : mapping s.mem pt k = 0 ↔ m k = none := by
  rw [h.entry]
  cases m k with
  | none => simp
  | some e => simp [pte_ne_zero e]

lemma Agrees.clear (h : Agrees pt s m) (hmap : mapping s'.mem pt = Maps.clear (mapping s.mem pt) lo n) :
    Agrees pt s' (m.remove lo n) := by
  refine ⟨fun k => ?_, fun k e hk => ?_⟩
  · rw [hmap]
    unfold Maps.clear PageMap.remove
    split_ifs
    · rfl
    · exact h.entry k
  · unfold PageMap.remove at hk
    split_ifs at hk
    exact h.aligned k e hk

lemma PA2PTE_down (a : UInt64) : PA2PTE (PGROUNDDOWN a) = PA2PTE a := by
  rw [← UInt64.toNat_inj, toNat_PA2PTE, toNat_PA2PTE, toNat_PGROUNDDOWN]
  omega

lemma Agrees.mapsTo {pa perm : UInt64} (h : Agrees pt s m) (hp : perm.toNat < 1024)
    (hmap : mapping s'.mem pt = Maps.mapsTo (mapping s.mem pt) lo n pa perm) :
    Agrees pt s' (m.assign lo n (pageFrom pa) perm) := by
  refine ⟨fun k => ?_, fun k e hk => ?_⟩
  · rw [hmap]
    unfold Maps.mapsTo PageMap.assign
    split_ifs
    · simp only [Option.map_some, Option.getD_some, pte, pageFrom, PA2PTE_down]
    · exact h.entry k
  · unfold PageMap.assign at hk
    split_ifs at hk
    · simp only [Option.some.injEq] at hk
      rw [← hk]
      refine ⟨?_, hp⟩
      rw [pageFrom, toNat_PGROUNDDOWN]
      omega
    · exact h.aligned k e hk

lemma Agrees.filled {perm : UInt64} (h : Agrees pt s m) (hs : Proper 2 s pt)
    (hp : perm.toNat < 1024) (hf : Filled s s' pt lo n perm) :
    ∃ pa : ℕ → UInt64, (∀ j < n, pa j ∈ s.free) ∧ Agrees pt s' (m.assign lo n pa perm) := by
  have hpage : ∀ j, ∃ p, j < n → p ∈ s.free ∧ mapping s'.mem pt (lo + j) = pte (p, perm) := by
    intro j
    by_cases hj : j < n
    · obtain ⟨p, hfree, hmap, -⟩ := hf.fresh (lo + j) (by omega) (by omega)
      exact ⟨p, fun _ => ⟨hfree, hmap⟩⟩
    · exact ⟨0, fun hj' => absurd hj' hj⟩
  choose pa hpa using hpage
  refine ⟨pa, fun j hj => (hpa j hj).1, fun k => ?_, fun k e hk => ?_⟩
  · unfold PageMap.assign
    by_cases hk : lo ≤ k ∧ k < lo + n
    · have hval := (hpa (k - lo) (by omega)).2
      rw [Nat.add_sub_cancel' hk.1] at hval
      rw [if_pos hk, hval]
      rfl
    · rw [if_neg hk, hf.other k hk]
      exact h.entry k
  · unfold PageMap.assign at hk
    split_ifs at hk with hin
    · simp only [Option.some.injEq] at hk
      rw [← hk]
      exact ⟨(hs.frame _ (Multiset.mem_add.mpr (.inr (hpa (k - lo) (by omega)).1))).1, hp⟩
    · exact h.aligned k e hk

lemma Agrees.same (h : Agrees pt s m) (hmap : mapping s'.mem pt = mapping s.mem pt) :
    Agrees pt s' m := ⟨fun k => by rw [hmap, h.entry k], h.aligned⟩

lemma and_not_pte {pa perm : UInt64} :
    pte (pa, perm) &&& ~~~PTE_U = pte (pa, perm &&& ~~~PTE_U) := by
  have haddr : PA2PTE pa &&& ~~~PTE_U = PA2PTE pa := by
    have hmask : ~~~0x3FF &&& ~~~PTE_U = ~~~(0x3FF : UInt64) := by decide
    calc PA2PTE pa &&& ~~~PTE_U
        = PA2PTE pa &&& ~~~0x3FF &&& ~~~PTE_U := by rw [PA2PTE_high]
      _ = PA2PTE pa := by rw [UInt64.and_assoc, hmask, PA2PTE_high]
  have hvalid : PTE_V &&& ~~~PTE_U = PTE_V := by decide
  unfold pte
  rw [or_and, or_and, haddr, hvalid]

lemma Agrees.cleared (h : Agrees pt s m) (hmap : mapping s'.mem pt =
    Function.update (mapping s.mem pt) k (mapping s.mem pt k &&& ~~~PTE_U)) :
    Agrees pt s' (Function.update m k ((m k).map fun e => (e.1, e.2 &&& ~~~PTE_U))) := by
  refine ⟨fun l => ?_, fun l e hl => ?_⟩
  · rw [hmap]
    by_cases hlk : l = k
    · subst hlk
      rw [Function.update_self, Function.update_self, h.entry]
      cases m l with
      | none => exact UInt64.zero_and
      | some e => exact and_not_pte
    · rw [Function.update_of_ne hlk, Function.update_of_ne hlk, h.entry]
  · by_cases hlk : l = k
    · subst hlk
      rw [Function.update_self] at hl
      obtain ⟨e', he', rfl⟩ := Option.map_eq_some_iff.mp hl
      obtain ⟨h1, h2⟩ := h.aligned l e' he'
      refine ⟨h1, ?_⟩
      rw [UInt64.toNat_and]
      exact lt_of_le_of_lt Nat.and_le_left h2
    · rw [Function.update_of_ne hlk] at hl
      exact h.aligned l e hl

/-! ### One call -/

/-- The panics of the kernel. -/
def Excused (msg : String) : Prop := msg ≠ "rounds"

instance : DecidablePred Excused := fun msg => inferInstanceAs (Decidable (msg ≠ "rounds"))

/-- **One call** does to the page table what it does to the map. -/
theorem call_spec (op : Op) (hs : Proper 2 s pt) (h : Agrees pt s m) (hop : op.Lawful s pt) :
    wp Excused (op.run pt) (fun r s' => Proper 2 s' pt ∧ ∃ m', op.does s.free m r m' ∧
      Agrees pt s' m') s := by
  cases op with
  | mappages va size pa perm =>
    rw [Op.run]
    refine wp_call (mappages_spec hs (.inr (by decide)) (.inr (by decide)) (.inr (by decide))
      (.inr (by decide)) (.inr (by decide))) fun r s' hr => ?_
    obtain ⟨j, hj, hedit, hcase, hfresh, -⟩ := hr
    rw [wp_pure]
    refine ⟨hedit.proper, _, ⟨j, fun k h1 h2 => ?_, rfl, ?_⟩, h.mapsTo hop hedit.map⟩
    · exact h.zero_iff.mp (hfresh k h1 h2)
    · exact hcase.imp (fun hc => ⟨hc.1, hc.2.1⟩) fun hc => ⟨hc.1, hc.2.1⟩
  | uvmunmap va npages do_free =>
    obtain ⟨hwrap, hdisp⟩ := hop
    rw [Op.run]
    refine wp_call (uvmunmap_spec hs (.inr (by decide)) hwrap (.inr (by decide))
      (fun _ => .inr (by decide)) hdisp) fun _ s' hr => ?_
    rw [wp_pure]
    exact ⟨hr.2.proper, _, rfl, h.clear hr.2.map⟩
  | uvmalloc oldsz newsz xperm =>
    have hperm : (PTE_R ||| PTE_U ||| xperm).toNat < 1024 := toNat_perm (by decide) hop
    rw [Op.run]
    refine wp_call (uvmalloc_spec hs hop (.inr (by decide)) (.inr (by decide))) fun r s' hr => ?_
    rw [wp_pure]
    rcases hr with ⟨hlt, hr, rfl⟩ | ⟨hge, ⟨hr, hf⟩ | ⟨hr, -, hedit⟩⟩
    · exact ⟨hs, m, .inl ⟨hlt, hr, rfl⟩, h⟩
    · have hle : oldsz ≤ newsz := UInt64.not_lt.mp hge
      have hlo : vpn (PGROUNDUP oldsz) = pagesUp oldsz := by
        by_cases hpast : oldsz.toNat ≤ 2 ^ 64 - 4096
        · exact vpn_PGROUNDUP hpast
        · -- the pages from 0 on would all be mapped
          have hz : PGROUNDUP oldsz = 0 := PGROUNDUP_past (by omega)
          have hz' : vpn 0 = 0 := rfl
          have hle' : oldsz.toNat ≤ newsz.toNat := hle
          have hbound := hf.bound (by rw [hz, hz']; unfold pagesUp; omega)
          rw [hz, hz', PAGES_eq] at hbound
          unfold pagesUp at hbound
          omega
      rw [hlo] at hf
      obtain ⟨pa, hfree, hag⟩ := h.filled hs hperm hf
      refine ⟨hf.edit.proper, _, .inr (.inr ⟨hle, hr, fun k h1 h2 => ?_, pa, hfree, rfl⟩), hag⟩
      exact h.zero_iff.mp (hf.before k h1 h2)
    · exact ⟨hedit.proper, m, .inr (.inl ⟨UInt64.not_lt.mp hge, hr, rfl⟩), h.same hedit.map⟩
  | uvmdealloc oldsz newsz =>
    obtain ⟨hcount, hdisp⟩ := hop
    rw [Op.run]
    refine wp_call (uvmdealloc_spec hs hcount (.inr (by decide)) (.inr (by decide)) hdisp)
      fun r s' hr => ?_
    obtain ⟨hr, -, hedit⟩ := hr
    rw [wp_pure]
    exact ⟨hedit.proper, _, ⟨hr, rfl⟩, h.clear hedit.map⟩
  | uvmclear va =>
    rw [Op.run]
    refine wp_call (uvmclear_spec hs (.inr (by decide)) (.inr (by decide))) fun _ s' hr => ?_
    rw [wp_pure]
    exact ⟨hr.2.2.proper, _, rfl, h.cleared hr.2.2.map⟩

/-! ### Any run -/

lemma walk_found {p : UInt64 × Fin 512} (h : walk pt va false s = .ok s' (some p)) :
    vpn va < PAGES ∧ table s.mem pt (vpn va) = some p.1 ∧ Fin.ofNat 512 (vpn va) = p.2 := by
  by_cases hva : va < MAXVA
  · rw [walk_leaf hva] at h
    injection h with _ hleaf
    obtain ⟨t, ht, hp⟩ := Option.map_eq_some_iff.mp hleaf
    rw [← hp]
    exact ⟨lt_MAXVA.mp hva, ht, rfl⟩
  · rw [walk, if_pos (UInt64.not_lt.mp hva)] at h
    cases h

lemma run_spec {h : History} (hr : Run Op.Lawful pt h s) :
    Proper 2 s pt ∧ ∃ m, Meaning h m ∧ Agrees pt s m := by
  induction hr with
  | create hp hc hne =>
    have hspec : wp Excused uvmcreate _ _ := uvmcreate_spec hp
    obtain ⟨-, ⟨hz, -⟩ | ⟨-, -, -, -, hproper, -, hmap, -⟩⟩ := hspec.ok hc
    · exact absurd hz hne
    · refine ⟨hproper, _, .empty, fun k => ?_, fun k e hk => by cases hk⟩
      rw [hmap]
      rfl
  | call hr hop hc ih =>
    obtain ⟨hproper, m, hm, hag⟩ := ih
    obtain ⟨hproper', m', hdoes, hag'⟩ := (call_spec _ hproper hag hop).ok hc
    exact ⟨hproper', m', .call hm hdoes, hag'⟩

/-- **A page table is a partial map.** After any calls, `walk` finds for each page what the calls
mean for the map; no two pages have one entry; a walk that allocates changes no translation; and
no call goes round a loop for ever. -/
theorem partial_map {h : History} (hr : Run Op.Lawful pt h s) :
    (∃ m, Meaning h m ∧ Shows pt s m ∧
      (∀ va s' p, walk pt va true s = .ok s' p → Shows pt s' m) ∧
      ∀ k e, m k = some e → PTE2PA (pte e) = e.1 ∧ PTE_FLAGS (pte e) = e.2 ||| PTE_V) ∧
    (∀ va va' p, va.toNat % 4096 = 0 → va'.toNat % 4096 = 0 → walk pt va false s = .ok s (some p) →
      walk pt va' false s = .ok s (some p) → va = va') ∧
    ∀ op : Op, op.Lawful s pt → op.run pt s ≠ .panic "rounds" := by
  obtain ⟨hproper, m, hm, hag⟩ := run_spec hr
  refine ⟨⟨m, hm, hag.shows, fun va s' p hw => ?_, fun k e hk => ?_⟩,
    fun va va' p ha ha' hw hw' => ?_, fun op hop hp => ?_⟩
  · have hspec : wp Excused (walk pt va true) _ s := walk_alloc hproper (.inr (by decide))
    exact (hag.same (hspec.ok hw).2.1.map).shows
  · obtain ⟨h1, h2⟩ := hag.aligned k e hk
    have hf : (e.2 ||| PTE_V).toNat < 1024 := toNat_perm h2 (by decide)
    rw [pte, UInt64.or_assoc]
    exact ⟨PTE2PA_entry h1 hf, FLAGS_entry hf⟩
  · obtain ⟨hk, ht, hi⟩ := walk_found hw
    obtain ⟨hk', ht', hi'⟩ := walk_found hw'
    have hvpn := leaf_inj hproper hk hk' ht ht' (hi.trans hi'.symm)
    unfold vpn at hvpn
    rw [← UInt64.toNat_inj]
    omega
  · exact (call_spec op hproper hag hop).panic hp rfl

/-! ### Runs on three free pages -/

/-- Three pages are free, and are found in this order. -/
def start : Ram where
  mem _ := filled 0
  free := {0x80001000, 0x80002000, 0x80003000}
  pick n := UInt64.ofNat (0x80001000 + 4096 * n)
  calls := 0
  failed := 0
  kend := 0x80001000

/-- The page table that `uvmcreate` makes. -/
def root : UInt64 := 0x80001000

lemma pool_start : Pool start := by
  have hall : ∀ p ∈ start.free, start.Frame p := by
    simp only [start, Multiset.insert_eq_cons, Multiset.forall_mem_cons, Multiset.mem_singleton,
      forall_eq]
    decide +kernel
  exact ⟨by decide +kernel, hall, by decide +kernel⟩

/-- The state after `uvmcreate`. -/
def created : Ram := after uvmcreate start

/-- The state after the calls `ops` as well. -/
def afterAll (ops : List Op) : Ram := ops.foldl (fun s op => after (op.run root) s) created

lemma run_created {ok : Ram → UInt64 → Op → Prop} : Run ok root [] created :=
  .create pool_start (ok_of_value (a := root) (by decide +kernel)) (by decide)

theorem partial_map_mapped : ∃ h s, Run Op.Lawful root h s ∧
    (∃ m, Meaning h m ∧ Shows root s m) ∧ lookup root 0 s = .ok s (some 0x20001013) := by
  have hval : value ((Op.mappages 0 4096 0x80004000 (PTE_R ||| PTE_U)).run root) created =
      some (.int 0) := by decide +kernel
  have hperm : (Op.mappages 0 4096 0x80004000 (PTE_R ||| PTE_U)).Lawful created root := by
    change (PTE_R ||| PTE_U).toNat < 1024
    decide
  have hrun := Run.call run_created hperm (ok_of_value hval)
  obtain ⟨⟨m, hm, hshows, -⟩, -⟩ := partial_map hrun
  refine ⟨_, _, hrun, ⟨m, hm, hshows⟩, ?_⟩
  have hfound : value (lookup root 0) (after ((Op.mappages 0 4096 0x80004000
      (PTE_R ||| PTE_U)).run root) created) = some (some 0x20001013) := by decide +kernel
  have := hshows 0 rfl (by decide)
  rw [value, this] at hfound
  rw [this]
  exact congrArg _ (Option.some.inj hfound)

/-- Calls are made that panic nowhere, after which the table does not show what they mean. -/
def Differs (ops : List Op) : Prop :=
  ∃ h s, Run (fun _ _ _ => True) root h s ∧ h.map Prod.fst = ops.reverse ∧
    ¬∃ m, Meaning h m ∧ Shows root s m

lemma not_shows {h : History} (va : UInt64) (r : Option UInt64) (ha : va.toNat % 4096 = 0)
    (hva : va < MAXVA) (hl : value (lookup root va) s = some r)
    (hm : ∀ m, Meaning h m → (m (vpn va)).map pte ≠ r) : ¬∃ m, Meaning h m ∧ Shows root s m := by
  rintro ⟨m, hmean, hs⟩
  rw [value, hs va ha hva] at hl
  exact hm m hmean (Option.some.inj hl)

/-- A range that wraps around unmaps nothing; a page of the table that is freed takes translations
with it; and 2 to the 32 pages are none to `uvmdealloc`. -/
theorem partial_map_differs :
    Differs [.mappages 0 4096 0x80004000 PTE_R, .uvmunmap 0 (UInt64.ofNat (2 ^ 52)) false] ∧
    Differs [.mappages 0 4096 root PTE_R, .mappages 4096 4096 0x80004000 PTE_R,
      .uvmunmap 0 1 true] ∧
    Differs [.mappages 0 4096 0x80004000 PTE_R, .uvmdealloc (UInt64.ofNat (2 ^ 44)) 0] := by
  have hmap : value ((Op.mappages 0 4096 0x80004000 PTE_R).run root) created = some (.int 0) := by
    decide +kernel
  have hroot : value ((Op.mappages 0 4096 root PTE_R).run root) created = some (.int 0) := by
    decide +kernel
  refine ⟨?_, ?_, ?_⟩
  · have hcall : value ((Op.uvmunmap 0 (UInt64.ofNat (2 ^ 52)) false).run root)
        (afterAll [.mappages 0 4096 0x80004000 PTE_R]) = some .void := by decide +kernel
    refine ⟨_, _, .call (.call run_created trivial (ok_of_value hmap)) trivial (ok_of_value hcall),
      rfl, not_shows 0 (some 0x20001003) rfl (by decide) (by decide +kernel) ?_⟩
    intro m hm
    cases hm with
    | call _ hdoes =>
      rw [show _ = _ from hdoes, PageMap.remove, if_pos (by decide)]
      exact (Option.some_ne_none _).symm
  · have hcall : value ((Op.mappages 4096 4096 0x80004000 PTE_R).run root)
        (afterAll [.mappages 0 4096 root PTE_R]) = some (.int 0) := by decide +kernel
    have hfree : value ((Op.uvmunmap 0 1 true).run root) (afterAll [.mappages 0 4096 root PTE_R,
        .mappages 4096 4096 0x80004000 PTE_R]) = some .void := by decide +kernel
    refine ⟨_, _, .call (.call (.call run_created trivial (ok_of_value hroot))
      trivial (ok_of_value hcall)) trivial (ok_of_value hfree), rfl,
      not_shows 4096 none rfl (by decide) (by decide +kernel) ?_⟩
    intro m hm
    cases hm with
    | call hm hdoes =>
      cases hm with
      | call _ hmap =>
        obtain ⟨j, -, rfl, ⟨-, rfl⟩ | ⟨hr, -⟩⟩ := hmap
        · rw [show _ = _ from hdoes]
          exact Option.some_ne_none _
        · exact absurd hr (by decide)
  · have hcall : value ((Op.uvmdealloc (UInt64.ofNat (2 ^ 44)) 0).run root)
        (afterAll [.mappages 0 4096 0x80004000 PTE_R]) = some (.size 0) := by decide +kernel
    refine ⟨_, _, .call (.call run_created trivial (ok_of_value hmap)) trivial (ok_of_value hcall),
      rfl, not_shows 0 (some 0x20001003) rfl (by decide) (by decide +kernel) ?_⟩
    intro m hm
    cases hm with
    | call _ hdoes =>
      rw [hdoes.2, PageMap.remove, if_pos (by decide)]
      exact (Option.some_ne_none _).symm

end Xv6.Vm.PartialMap
