import Xv6.User.Umalloc

/-!
The circular list in memory, and the loop of `free` that walks it.
-/

namespace Xv6.User.FreeList

open Xv6.User.Umalloc

variable {κ : Type} {M : Machine κ} {h h' : Heap κ} {m m' : ℕ → Header} {b c p q : Block}
  {L pre post us bs cs : List Block} {z a bp fuel : ℕ}

/-- Where a list begins that goes on to `z`. -/
def first : List Block → ℕ → ℕ
  | [], z => z
  | b :: _, _ => b.start

/-- The blocks have their headers in memory, each with a link to the next one. -/
def Linked (m : ℕ → Header) : List Block → ℕ → Prop
  | [], _ => True
  | b :: bs, z => (m b.start).size.toNat = b.units ∧ (m b.start).ptr = first bs z ∧ Linked m bs z

@[simp] lemma first_nil : first [] z = z := rfl

@[simp] lemma first_cons : first (b :: bs) z = b.start := rfl

lemma first_append : first (bs ++ cs) z = first bs (first cs z) := by
  cases bs with
  | nil => rfl
  | cons b bs => rfl

lemma linked_append : Linked m (bs ++ cs) z ↔ Linked m bs (first cs z) ∧ Linked m cs z := by
  induction bs with
  | nil => exact ⟨fun h => ⟨trivial, h⟩, fun h => h.2⟩
  | cons b bs ih =>
    rw [List.cons_append, Linked, Linked, first_append, ih]
    tauto

/-- A list is linked as before where its headers are as before. -/
lemma Linked.transport (hl : Linked m bs z) (hsame : ∀ b ∈ bs, m' b.start = m b.start) :
    Linked m' bs z := by
  induction bs with
  | nil => trivial
  | cons b bs ih =>
    obtain ⟨hsize, hptr, hrest⟩ := hl
    refine ⟨?_, ?_, ih hrest fun c hc => hsame c (List.mem_cons_of_mem _ hc)⟩
    · rw [hsame b List.mem_cons_self]
      exact hsize
    · rw [hsame b List.mem_cons_self]
      exact hptr

/-- A list is what its links and sizes say. -/
lemma Linked.unique (hb : Linked m bs z) (hc : Linked m cs z) (hfirst : first bs z = first cs z)
    (hbz : ∀ b ∈ bs, b.start ≠ z) (hcz : ∀ c ∈ cs, c.start ≠ z) : bs = cs := by
  induction bs generalizing cs with
  | nil =>
    cases cs with
    | nil => rfl
    | cons c cs => exact absurd hfirst.symm (hcz c List.mem_cons_self)
  | cons b bs ih =>
    cases cs with
    | nil => exact absurd hfirst (hbz b List.mem_cons_self)
    | cons c cs =>
      obtain ⟨bstart, bunits⟩ := b
      obtain ⟨cstart, cunits⟩ := c
      obtain rfl : bstart = cstart := hfirst
      obtain ⟨hbsize, hbptr, hbrest⟩ := hb
      obtain ⟨hcsize, hcptr, hcrest⟩ := hc
      obtain rfl : bunits = cunits := hbsize.symm.trans hcsize
      rw [ih hbrest hcrest (hbptr.symm.trans hcptr) (fun b hb => hbz b (List.mem_cons_of_mem _ hb))
        fun c hc => hcz c (List.mem_cons_of_mem _ hc)]

lemma Linked.size (hl : Linked m bs z) (hb : b ∈ bs) : (m b.start).size.toNat = b.units := by
  obtain ⟨xs, ys, rfl⟩ := List.append_of_mem hb
  exact (linked_append.mp hl).2.1

/-- **The free list**: the list that starts at `base`, in the order of the addresses and with a gap
after each block. -/
structure Listed (M : Machine κ) (h : Heap κ) (L : List Block) : Prop where
  base : ∃ fs, L = ⟨M.base, 0⟩ :: fs ∧ ∀ b ∈ fs, 0 < b.units
  linked : Linked h.mem L M.base
  sorted : L.Pairwise fun b c => b.stop < c.start
  freep : ∃ b ∈ L, h.freep = b.start
  ok : ∀ b ∈ L, touches M h.kernel b.start = true

lemma stop_eq (b : Block) : b.stop = b.start + 16 * b.units := rfl

lemma start_le_stop (b : Block) : b.start ≤ b.stop := Nat.le_add_right _ _

lemma Listed.first (hL : Listed M h L) : first L M.base = M.base := by
  obtain ⟨fs, rfl, -⟩ := hL.base
  rfl

lemma Listed.base_le (hL : Listed M h L) (hb : b ∈ L) : M.base ≤ b.start := by
  obtain ⟨fs, rfl, -⟩ := hL.base
  rcases List.mem_cons.mp hb with rfl | hb
  · exact le_rfl
  · have hlt := List.rel_of_pairwise_cons hL.sorted hb
    exact (start_le_stop _).trans hlt.le

/-- A block with another before it is not `base`. -/
lemma Listed.pos {seg : List Block} (hL : Listed M h (pre ++ q :: seg)) (hb : b ∈ seg) :
    0 < b.units := by
  obtain ⟨fs, hfs, hfspos⟩ := hL.base
  cases pre with
  | nil =>
    obtain ⟨-, rfl⟩ := List.cons.inj hfs
    exact hfspos b hb
  | cons b₀ pre =>
    obtain ⟨-, rfl⟩ := List.cons.inj hfs
    exact hfspos b (List.mem_append_right _ (List.mem_cons_of_mem _ hb))

/-- There is one list from `base` in memory. -/
lemma Listed.unique {fs fs' : List Block} (hL : Listed M h (⟨M.base, 0⟩ :: fs))
    (hL' : Listed M h (⟨M.base, 0⟩ :: fs')) : fs = fs' := by
  have hne : ∀ fs, Listed M h (⟨M.base, 0⟩ :: fs) → ∀ b ∈ fs, b.start ≠ M.base := by
    intro fs hL b hb
    have hlt := List.rel_of_pairwise_cons hL.sorted hb
    have hlt' : M.base + 0 < b.start := hlt
    omega
  exact Linked.unique hL.linked.2.2 hL'.linked.2.2 (hL.linked.2.1.symm.trans hL'.linked.2.1)
    (hne fs hL) (hne fs' hL')

/-- **The list is edited** from one of its blocks on, which stays where it is and comes to be where
the search starts. -/
lemma Listed.edit {q' : Block} {seg seg' : List Block} (hL : Listed M h (pre ++ q :: seg))
    (hstart : q'.start = q.start) (hzero : q.units = 0 ↔ q'.units = 0)
    (hpos : ∀ d ∈ seg', 0 < d.units) (hl : Linked m (q' :: seg') M.base)
    (hs : (q' :: seg').Pairwise fun b c => b.stop < c.start)
    (hpre : ∀ c ∈ pre, m c.start = h.mem c.start)
    (hok : ∀ d ∈ seg', touches M h.kernel d.start = true) :
    Listed M { h with mem := m, freep := q.start } (pre ++ q' :: seg') := by
  have hsorted := List.pairwise_append.mp hL.sorted
  refine ⟨?_, ?_, ?_, ⟨q', List.mem_append_right _ List.mem_cons_self, hstart.symm⟩, ?_⟩
  · obtain ⟨fs, hfs, hfspos⟩ := hL.base
    cases pre with
    | nil =>
      obtain ⟨hq, -⟩ := List.cons.inj hfs
      rw [hq] at hstart hzero
      refine ⟨seg', ?_, hpos⟩
      have hq' : q' = ⟨M.base, 0⟩ := by
        cases q' with
        | mk start units =>
          rw [Block.mk.injEq]
          exact ⟨hstart, hzero.mp rfl⟩
      rw [hq', List.nil_append]
    | cons b₀ pre =>
      obtain ⟨rfl, rfl⟩ := List.cons.inj hfs
      refine ⟨pre ++ q' :: seg', rfl, fun d hd => ?_⟩
      have hqpos := hfspos q (List.mem_append_right _ List.mem_cons_self)
      rcases List.mem_append.mp hd with hd | hd
      · exact hfspos d (List.mem_append_left _ hd)
      · rcases List.mem_cons.mp hd with rfl | hd
        · omega
        · exact hpos d hd
  · refine linked_append.mpr ⟨?_, hl⟩
    rw [first_cons, hstart]
    exact (linked_append.mp hL.linked).1.transport hpre
  · refine List.pairwise_append.mpr ⟨hsorted.1, hs, fun c hc d hd => ?_⟩
    have hcq := hsorted.2.2 c hc q List.mem_cons_self
    rcases List.mem_cons.mp hd with rfl | hd
    · omega
    · have hqd := List.rel_of_pairwise_cons hs hd
      have hle := start_le_stop q'
      omega
  · intro d hd
    rcases List.mem_append.mp hd with hd | hd
    · exact hL.ok d (List.mem_append_left _ hd)
    · rcases List.mem_cons.mp hd with rfl | hd
      · rw [hstart]
        exact hL.ok q (List.mem_append_right _ List.mem_cons_self)
      · exact hok d hd

/-- The list around an address at which no block of it starts. -/
lemma exists_split (hs : L.Pairwise fun b c => b.stop < c.start) (hne : ∀ b ∈ L, b.start ≠ a)
    (hfirst : first L a < a) :
    ∃ pre p post, L = pre ++ p :: post ∧ p.start < a ∧ ∀ q ∈ post, a < q.start := by
  induction L with
  | nil => exact absurd hfirst (Nat.lt_irrefl a)
  | cons b L ih =>
    rw [List.pairwise_cons] at hs
    by_cases hnext : FreeList.first L a < a
    · obtain ⟨pre, p, post, rfl, hp, hpost⟩ :=
        ih hs.2 (fun c hc => hne c (List.mem_cons_of_mem _ hc)) hnext
      exact ⟨b :: pre, p, post, rfl, hp, hpost⟩
    · refine ⟨[], b, L, rfl, hfirst, fun q hq => ?_⟩
      cases L with
      | nil => exact absurd hq List.not_mem_nil
      | cons c L =>
        have hc : a < c.start := by
          have hcne := hne c (List.mem_cons_of_mem _ List.mem_cons_self)
          rw [first_cons] at hnext
          omega
        rcases List.mem_cons.mp hq with rfl | hq
        · exact hc
        · have hlt := List.rel_of_pairwise_cons hs.2 hq
          have hle := start_le_stop c
          omega

lemma load_ok (hok : touches M h.kernel a = true) : load M h a = .ok (h.mem a) := if_pos hok

lemma store_ok {x : Header} (hok : touches M h.kernel a = true) :
    store M h a x = .ok { h with mem := Function.update h.mem a x } := if_pos hok

@[simp] lemma ok_bind {α β : Type} {x : α} {f : α → Except Stop β} : (Except.ok x >>= f) = f x := rfl

/-- Below its place, the loop of `free` goes up to it. -/
lemma findLoop_below (hl : Linked h.mem (us ++ p :: post) z)
    (hs : (us ++ p :: post).Pairwise fun b c => b.stop < c.start)
    (hok : ∀ b ∈ us, touches M h.kernel b.start = true) (hp : p.start < bp) :
    findLoop M h bp (fuel + us.length) (first (us ++ p :: post) z) =
      findLoop M h bp fuel p.start := by
  induction us with
  | nil => rfl
  | cons q us ih =>
    obtain ⟨-, hptr, hrest⟩ : _ ∧ (h.mem q.start).ptr = first (us ++ p :: post) z ∧ _ := hl
    rw [List.cons_append, List.pairwise_cons] at hs
    have hnext : q.start < first (us ++ p :: post) z ∧ first (us ++ p :: post) z ≤ p.start := by
      have hqp := hs.1 p (List.mem_append_right _ List.mem_cons_self)
      have hq := start_le_stop q
      cases us with
      | nil => exact ⟨by rw [List.nil_append, first_cons]; omega, le_rfl⟩
      | cons c us =>
        rw [List.cons_append, first_cons]
        have hqc := hs.1 c List.mem_cons_self
        rw [List.cons_append] at hs
        have hcp := List.rel_of_pairwise_cons hs.2 (List.mem_append_right _ List.mem_cons_self)
        have hc := start_le_stop c
        omega
    rw [List.cons_append, first_cons, List.length_cons, ← Nat.add_assoc, findLoop,
      load_ok (hok q List.mem_cons_self), ok_bind, hptr, if_neg (by omega), if_neg (by omega)]
    exact ih hrest hs.2 fun b hb => hok b (List.mem_cons_of_mem _ hb)

/-- Above its place, the loop of `free` goes to the end and on to `base`. -/
lemma findLoop_above (hl : Linked h.mem us z) (hs : us.Pairwise fun b c => b.stop < c.start)
    (hok : ∀ b ∈ us, touches M h.kernel b.start = true) (habove : ∀ b ∈ us, bp < b.start)
    (hz : z < bp) :
    findLoop M h bp (fuel + us.length) (first us z) = findLoop M h bp fuel z := by
  induction us with
  | nil => rfl
  | cons q us ih =>
    obtain ⟨-, hptr, hrest⟩ := hl
    rw [List.pairwise_cons] at hs
    have hq := habove q List.mem_cons_self
    have hnext : first us z ≤ z ∨ q.start < first us z := by
      cases us with
      | nil => exact .inl le_rfl
      | cons c us =>
        have hqc := hs.1 c List.mem_cons_self
        have hle := start_le_stop q
        rw [first_cons]
        omega
    rw [first_cons, List.length_cons, ← Nat.add_assoc, findLoop,
      load_ok (hok q List.mem_cons_self), ok_bind, hptr, if_neg (by omega), if_neg (by omega)]
    exact ih hrest hs.2 (fun b hb => hok b (List.mem_cons_of_mem _ hb))
      fun b hb => habove b (List.mem_cons_of_mem _ hb)

/-- At its place the loop of `free` ends. -/
lemma findLoop_here (hl : Linked h.mem (p :: post) M.base)
    (hok : touches M h.kernel p.start = true) (hbase : M.base ≤ p.start) (hp : p.start < bp)
    (hpost : ∀ q ∈ post, bp < q.start) : findLoop M h bp (fuel + 1) p.start = .ok p.start := by
  obtain ⟨-, hptr, -⟩ := hl
  rw [findLoop, load_ok hok, ok_bind, hptr]
  cases post with
  | nil =>
    rw [first_nil, if_neg (by omega), if_pos (by omega)]
    rfl
  | cons q post =>
    have hq := hpost q List.mem_cons_self
    rw [first_cons, if_pos (by omega)]
    rfl

/-- **The loop of `free`** ends, wherever on the circle it starts, at the last block before the one
that is freed. -/
theorem findLoop_spec (hL : Listed M h (pre ++ p :: post)) (hp : p.start < bp)
    (hpost : ∀ q ∈ post, bp < q.start) (hfuel : (pre ++ p :: post).length ≤ fuel) :
    findLoop M h bp fuel h.freep = .ok p.start := by
  have hbase : M.base ≤ p.start := hL.base_le (List.mem_append_right _ List.mem_cons_self)
  have hlinked := linked_append.mp hL.linked
  have hsorted := List.pairwise_append.mp hL.sorted
  have hpre : ∀ b ∈ pre, touches M h.kernel b.start = true := fun b hb =>
    hL.ok b (List.mem_append_left _ hb)
  have hpok := hL.ok p (List.mem_append_right _ List.mem_cons_self)
  rw [List.length_append, List.length_cons] at hfuel
  obtain ⟨f, hf, hfreep⟩ := hL.freep
  rw [hfreep]
  rcases List.mem_append.mp hf with hf | hf
  · obtain ⟨xs, us, rfl⟩ := List.append_of_mem hf
    have hsuffix : Linked h.mem ((f :: us) ++ p :: post) M.base := by
      have hall := hL.linked
      rw [List.append_assoc] at hall
      exact (linked_append.mp hall).2
    have hsort : ((f :: us) ++ p :: post).Pairwise fun b c => b.stop < c.start := by
      have hall := hL.sorted
      rw [List.append_assoc] at hall
      exact (List.pairwise_append.mp hall).2.1
    rw [List.length_append] at hfuel
    obtain ⟨n, rfl⟩ : ∃ n, fuel = n + 1 + (f :: us).length := ⟨fuel - 1 - (f :: us).length, by omega⟩
    have hwalk : findLoop M h bp (n + 1 + (f :: us).length) f.start =
        findLoop M h bp (n + 1) p.start :=
      findLoop_below hsuffix hsort (fun b hb => hpre b (List.mem_append_right _ hb)) hp
    rw [hwalk]
    exact findLoop_here hlinked.2 hpok hbase hp hpost
  · rcases List.mem_cons.mp hf with rfl | hf
    · obtain ⟨n, rfl⟩ : ∃ n, fuel = n + 1 := ⟨fuel - 1, by omega⟩
      exact findLoop_here hlinked.2 hpok hbase hp hpost
    · obtain ⟨xs, us, rfl⟩ := List.append_of_mem hf
      have hsuffix : Linked h.mem (f :: us) M.base := (linked_append.mp hlinked.2.2.2).2
      have hsort : (f :: us).Pairwise fun b c => b.stop < c.start :=
        (List.pairwise_append.mp (List.pairwise_cons.mp hsorted.2.1).2).2.1
      rw [List.length_append] at hfuel
      obtain ⟨n, rfl⟩ : ∃ n, fuel = n + 1 + pre.length + (f :: us).length :=
        ⟨fuel - 1 - pre.length - (f :: us).length, by omega⟩
      have hwalk : findLoop M h bp (n + 1 + pre.length + (f :: us).length) f.start =
          findLoop M h bp (n + 1 + pre.length) M.base :=
        findLoop_above hsuffix hsort
          (fun b hb => hL.ok b (List.mem_append_right _ (List.mem_cons_of_mem _
            (List.mem_append_right _ hb))))
          (fun b hb => hpost b (List.mem_append_right _ hb)) (by omega)
      have hround : findLoop M h bp (n + 1 + pre.length) (FreeList.first (pre ++ p :: (xs ++ f :: us)) M.base) =
          findLoop M h bp (n + 1) p.start :=
        findLoop_below hL.linked hL.sorted hpre hp
      rw [hL.first] at hround
      rw [hwalk, hround]
      exact findLoop_here hlinked.2 hpok hbase hp hpost

end Xv6.User.FreeList
