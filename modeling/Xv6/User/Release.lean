import Xv6.User.FreeList

/-!
`free`: the block goes to its place on the list, joined with the blocks that it touches.
-/

namespace Xv6.User.Release

open Xv6.User.Umalloc Xv6.User.FreeList

variable {κ : Type} {M : Machine κ} {h : Heap κ} {b c p q : Block}
  {pre post rest : List Block} {fuel : ℕ}

/-- What comes of `b` with the blocks `post` after it. -/
def above (b : Block) : List Block → Block × List Block
  | [] => (b, [])
  | q :: post => if b.stop = q.start then (⟨b.start, b.units + q.units⟩, post) else (b, q :: post)

/-- What comes of `p` before `c`. -/
def join (p c : Block) (rest : List Block) : List Block :=
  if p.stop = c.start then ⟨p.start, p.units + c.units⟩ :: rest else p :: c :: rest

/-- The list from `p` on with `b` behind `p`. -/
def give (p b : Block) (post : List Block) : List Block :=
  join p (above b post).1 (above b post).2

lemma above_start : (above b post).1.start = b.start := by
  cases post with
  | nil => rfl
  | cons q post =>
    rw [above]
    split_ifs <;> rfl

lemma mem_above (hq : q ∈ (above b post).2) : q ∈ post := by
  cases post with
  | nil => exact hq
  | cons c post =>
    rw [above] at hq
    split_ifs at hq
    · exact List.mem_cons_of_mem _ hq
    · exact hq

lemma above_units : b.units ≤ (above b post).1.units ∧
    (above b post).1.units ≤ b.units + (post.map Block.units).sum := by
  cases post with
  | nil => exact ⟨le_rfl, Nat.le_add_right _ _⟩
  | cons q post =>
    rw [above]
    rw [List.map_cons, List.sum_cons]
    split_ifs
    · change b.units ≤ b.units + q.units ∧ b.units + q.units ≤ _
      omega
    · exact ⟨le_rfl, Nat.le_add_right _ _⟩

/-- Where `b` ends before the blocks after it, there is a gap then. -/
lemma above_sorted (hs : post.Pairwise fun b c => b.stop < c.start)
    (hpost : ∀ q ∈ post, b.stop ≤ q.start) :
    ((above b post).1 :: (above b post).2).Pairwise fun b c => b.stop < c.start := by
  cases post with
  | nil => exact List.pairwise_singleton _ _
  | cons q post =>
    have hq := hpost q List.mem_cons_self
    rw [above]
    split_ifs with heq
    · rw [List.pairwise_cons] at hs ⊢
      refine ⟨fun c hc => ?_, hs.2⟩
      have hc' := hs.1 c hc
      rw [stop_eq] at hc' heq ⊢
      change b.start + 16 * (b.units + q.units) < c.start
      omega
    · rw [List.pairwise_cons]
      refine ⟨fun c hc => ?_, hs⟩
      change b.stop < c.start
      rcases List.mem_cons.mp hc with rfl | hc
      · omega
      · have hlt := List.rel_of_pairwise_cons hs hc
        have hle := start_le_stop q
        omega

lemma join_sorted (hs : (c :: rest).Pairwise fun b c => b.stop < c.start) (hp : p.stop ≤ c.start) :
    (join p c rest).Pairwise fun b c => b.stop < c.start := by
  have hs' := List.pairwise_cons.mp hs
  have hc := start_le_stop c
  unfold join
  split_ifs with heq
  · refine List.pairwise_cons.mpr ⟨fun d hd => ?_, hs'.2⟩
    have hd' := hs'.1 d hd
    rw [stop_eq] at hd' heq ⊢
    change p.start + 16 * (p.units + c.units) < d.start
    omega
  · refine List.pairwise_cons.mpr ⟨fun d hd => ?_, hs⟩
    rcases List.mem_cons.mp hd with rfl | hd
    · omega
    · have hd' := hs'.1 d hd
      omega

lemma toNat_add {x y : UInt32} (h : x.toNat + y.toNat < 2 ^ 32) :
    (x + y).toNat = x.toNat + y.toNat := by
  rw [UInt32.toNat_add, Nat.mod_eq_of_lt h]

lemma linkAbove_spec (hl : Linked h.mem (p :: post) M.base)
    (hsize : (h.mem b.start).size.toNat = b.units) (hb : touches M h.kernel b.start = true)
    (hok : ∀ q ∈ p :: post, touches M h.kernel q.start = true) (hbase : M.base < b.start)
    (hfit : b.units + (post.map Block.units).sum < 2 ^ 32) :
    ∃ x : Header, x.ptr = first (above b post).2 M.base ∧ x.size.toNat = (above b post).1.units ∧
      linkAbove M h b.start p.start = .ok { h with mem := Function.update h.mem b.start x } := by
  obtain ⟨-, hptr, hrest⟩ := hl
  have hle := start_le_stop b
  have hstop : b.start + HEADER * (h.mem b.start).size.toNat = b.stop := by
    rw [hsize]
    rfl
  unfold linkAbove
  rw [load_ok hb, ok_bind, load_ok (hok p List.mem_cons_self), ok_bind, hstop, hptr]
  cases post with
  | nil =>
    rw [first_nil, if_neg (by omega), store_ok hb]
    exact ⟨⟨M.base, (h.mem b.start).size⟩, rfl, hsize, rfl⟩
  | cons q post =>
    obtain ⟨hqsize, hqptr, -⟩ := hrest
    rw [first_cons]
    rw [above]
    split_ifs with heq
    · rw [load_ok (hok q (List.mem_cons_of_mem _ List.mem_cons_self)), ok_bind, store_ok hb]
      refine ⟨⟨(h.mem q.start).ptr, (h.mem b.start).size + (h.mem q.start).size⟩, hqptr, ?_, rfl⟩
      rw [List.map_cons, List.sum_cons] at hfit
      rw [toNat_add (by omega), hsize, hqsize]
    · rw [store_ok hb]
      exact ⟨⟨q.start, (h.mem b.start).size⟩, rfl, hsize, rfl⟩

lemma linkBelow_spec {x : Header} (hptr : x.ptr = first rest M.base)
    (hsize : x.size.toNat = c.units) (hmem : h.mem c.start = x)
    (hp : (h.mem p.start).size.toNat = p.units) (hc : touches M h.kernel c.start = true)
    (hok : touches M h.kernel p.start = true) (hfit : p.units + c.units < 2 ^ 32)
    (hne : p.start ≠ c.start) (hrest : ∀ q ∈ rest, q.start ≠ p.start)
    (hl : Linked h.mem rest M.base) :
    ∃ y : Header, linkBelow M h c.start p.start =
        .ok { h with mem := Function.update h.mem p.start y } ∧
      Linked (Function.update h.mem p.start y) (join p c rest) M.base := by
  have hstop : p.start + HEADER * (h.mem p.start).size.toNat = p.stop := by
    rw [hp]
    rfl
  have hrest' : ∀ y, Linked (Function.update h.mem p.start y) rest M.base := fun y =>
    hl.transport fun q hq => Function.update_of_ne (hrest q hq) _ _
  unfold linkBelow join
  rw [load_ok hok, ok_bind, hstop]
  split_ifs with heq
  · rw [load_ok hc, ok_bind, store_ok hok, hmem]
    refine ⟨_, rfl, ?_, ?_, hrest' _⟩
    · rw [Function.update_self, toNat_add (by omega), hp, hsize]
    · rw [Function.update_self]
      exact hptr
  · rw [store_ok hok]
    refine ⟨_, rfl, ?_, ?_, ?_, ?_, hrest' _⟩
    · rw [Function.update_self]
      exact hp
    · rw [Function.update_self]
      rfl
    · rw [Function.update_of_ne hne.symm, hmem]
      exact hsize
    · rw [Function.update_of_ne hne.symm, hmem]
      exact hptr

/-- **`free`** of a block behind `p` and before the blocks `post`. -/
theorem free_spec (hL : Listed M h (pre ++ p :: post)) (hp : p.start < b.start)
    (hstop : p.stop ≤ b.start) (hpost : ∀ q ∈ post, b.stop ≤ q.start) (hpos : 0 < b.units)
    (hsize : (h.mem b.start).size.toNat = b.units) (hb : touches M h.kernel b.start = true)
    (hfit : p.units + b.units + (post.map Block.units).sum < 2 ^ 32)
    (hfuel : (pre ++ p :: post).length ≤ fuel) :
    ∃ m, free M fuel h (b.start + HEADER) = .ok { h with mem := m, freep := p.start } ∧
      Listed M { h with mem := m, freep := p.start } (pre ++ give p b post) ∧
      ∀ a, a ≠ b.start → a ≠ p.start → m a = h.mem a := by
  have hlinked := linked_append.mp hL.linked
  have hsorted := List.pairwise_append.mp hL.sorted
  have hsorted' := List.pairwise_cons.mp hsorted.2.1
  have hpok := hL.ok p (List.mem_append_right _ List.mem_cons_self)
  have hbase : M.base ≤ p.start := hL.base_le (List.mem_append_right _ List.mem_cons_self)
  have hbstop : b.start < b.stop := by
    unfold Block.stop Block.bytes HEADER
    omega
  obtain ⟨x, hxptr, hxsize, habove⟩ := linkAbove_spec hlinked.2 hsize hb
    (fun q hq => hL.ok q (List.mem_append_right _ hq)) (by omega) (by omega)
  obtain ⟨c, hc⟩ : ∃ c, c = (above b post).1 := ⟨_, rfl⟩
  obtain ⟨rest, hrest⟩ : ∃ rest, rest = (above b post).2 := ⟨_, rfl⟩
  have hcstart : c.start = b.start := hc ▸ above_start
  have hcunits : b.units ≤ c.units ∧ c.units ≤ b.units + (post.map Block.units).sum :=
    hc ▸ above_units
  have hmem : ∀ q ∈ rest, q ∈ post := fun q hq => mem_above (hrest ▸ hq)
  have hcrest : (c :: rest).Pairwise fun b c => b.stop < c.start := by
    rw [hc, hrest]
    exact above_sorted hsorted'.2 hpost
  have hafter : ∀ q ∈ rest, q.start ≠ b.start ∧ q.start ≠ p.start := by
    intro q hq
    have h1 := hpost q (hmem q hq)
    omega
  have hlrest : Linked (Function.update h.mem b.start x) rest M.base := by
    have hl : Linked h.mem rest M.base := by
      rw [hrest]
      cases post with
      | nil => trivial
      | cons q post =>
        rw [above]
        split_ifs
        · exact hlinked.2.2.2.2.2
        · exact hlinked.2.2.2
    exact hl.transport fun q hq => Function.update_of_ne (hafter q hq).1 _ _
  rw [← hc] at hxsize
  rw [← hrest] at hxptr
  have hself : (Function.update h.mem b.start x) c.start = x := by
    rw [hcstart, Function.update_self]
  have hpself : (Function.update h.mem b.start x) p.start = h.mem p.start :=
    Function.update_of_ne (by omega) _ _
  have hpsize : ((Function.update h.mem b.start x) p.start).size.toNat = p.units := by
    rw [hpself]
    exact hlinked.2.1
  obtain ⟨y, hbelow, hjoin⟩ := linkBelow_spec (M := M)
    (h := { h with mem := Function.update h.mem b.start x }) (p := p) hxptr hxsize hself hpsize (by rw [hcstart]; exact hb) hpok (by omega) (by omega)
    (fun q hq => (hafter q hq).2) hlrest
  refine ⟨Function.update (Function.update h.mem b.start x) p.start y, ?_, ?_, ?_⟩
  · rw [hcstart] at hbelow
    have hsub : b.start + HEADER - HEADER = b.start := Nat.add_sub_cancel _ _
    unfold free
    simp only [hsub]
    rw [findLoop_spec hL hp (fun q hq => hbstop.trans_le (hpost q hq)) hfuel, ok_bind, habove,
      ok_bind, hbelow, ok_bind]
    rfl
  · obtain ⟨m, hm⟩ : ∃ m, m = Function.update (Function.update h.mem b.start x) p.start y := ⟨_, rfl⟩
    have hpre : ∀ q ∈ pre, m q.start = h.mem q.start := by
      intro q hq
      have hqp := hsorted.2.2 q hq p List.mem_cons_self
      have hqle := start_le_stop q
      rw [hm, Function.update_of_ne (by omega), Function.update_of_ne (by omega)]
    have hrestpos : ∀ q ∈ rest, 0 < q.units := fun q hq => hL.pos (hmem q hq)
    have hrestok : ∀ q ∈ rest, touches M h.kernel q.start = true := fun q hq =>
      hL.ok q (List.mem_append_right _ (List.mem_cons_of_mem _ (hmem q hq)))
    have hpsorted := join_sorted hcrest (show p.stop ≤ c.start by omega)
    have hgive : give p b post = join p c rest := by rw [give, hc, hrest]
    rw [hgive]
    rw [← hm] at hjoin ⊢
    unfold join at hjoin hpsorted ⊢
    split_ifs at hjoin hpsorted ⊢ with heq
    · refine hL.edit rfl ⟨fun hz => ?_, fun hz => ?_⟩ hrestpos hjoin hpsorted hpre hrestok
      · rw [stop_eq, hz, hcstart] at heq
        omega
      · exact (Nat.add_eq_zero_iff.mp hz).1
    · refine hL.edit rfl Iff.rfl (fun q hq => ?_) hjoin hpsorted hpre fun q hq => ?_
      · rcases List.mem_cons.mp hq with rfl | hq
        · omega
        · exact hrestpos q hq
      · rcases List.mem_cons.mp hq with rfl | hq
        · rw [hcstart]
          exact hb
        · exact hrestok q hq
  · intro a hab hap
    rw [Function.update_of_ne hap, Function.update_of_ne hab]

end Xv6.User.Release
