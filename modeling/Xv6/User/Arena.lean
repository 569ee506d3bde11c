import Xv6.User.Allot

/-!
The free blocks and the blocks in use tile the memory that `sbrk` has brought.
-/

namespace Xv6.User.Arena

open Xv6.Data.Cover Xv6.User.Umalloc Xv6.User.FreeList Xv6.User.Release Xv6.User.Allot

variable {κ : Type} {M : Machine κ} {h : Heap κ} {b c p q : Block} {bs cs fs pre post : List Block}
  {live : Multiset Block} {k x fuel : ℕ} {n : UInt32}

/-- How many of the blocks hold the byte `x`. -/
abbrev count (s : Multiset Block) (x : ℕ) : ℕ := cover Block.start Block.bytes s x

/-- **What holds of the heap** between two calls: `fs` is free and `live` is in use. -/
structure Sound (M : Machine κ) (h : Heap κ) (fs : List Block) (live : Multiset Block) : Prop where
  listed : Listed M h (⟨M.base, 0⟩ :: fs)
  pos : ∀ b ∈ live, 0 < b.units
  size : ∀ b ∈ live, (h.mem b.start).size.toNat = b.units
  tile : ∀ x, count (fs + live) x = count h.obtained x
  once : ∀ x, count h.obtained x ≤ 1
  above : ∀ r ∈ h.obtained, M.base + HEADER ≤ r.start
  ok : ∀ x, 0 < count h.obtained x → M.ok h.kernel x = true

lemma holds_start (hb : 0 < b.units) : Holds Block.start Block.bytes b.start b :=
  ⟨le_rfl, Nat.lt_add_of_pos_right (Nat.mul_pos (by decide) hb)⟩

lemma count_base : (if Holds Block.start Block.bytes x ⟨k, 0⟩ then 1 else 0) = 0 :=
  if_neg fun h => absurd (lt_of_le_of_lt h.1 h.2) (Nat.lt_irrefl _)

lemma count_append : count (bs ++ cs : List Block) x = count bs x + count cs x := by
  rw [← Multiset.coe_add, count, cover_add]

lemma count_cons : count (b :: bs : List Block) x =
    (if Holds Block.start Block.bytes x b then 1 else 0) + count bs x := by
  rw [← Multiset.cons_coe, count, cover_cons]

lemma total_list : total Block.bytes (bs : Multiset Block) = 16 * (bs.map Block.units).sum := by
  induction bs with
  | nil => rfl
  | cons b bs ih =>
    rw [← Multiset.cons_coe, total_cons, ih, List.map_cons, List.sum_cons, Nat.mul_add]
    rfl

/-- A block that is given back holds what it held, joined or not. -/
lemma count_give :
    count (give p b post) x =
      (if Holds Block.start Block.bytes x b then 1 else 0) + count (p :: post) x := by
  have habove : count ((above b post).1 :: (above b post).2) x = count (b :: post) x := by
    cases post with
    | nil => rfl
    | cons q post =>
      rw [above]
      split_ifs with heq
      · have hsplit : (if Holds Block.start Block.bytes x ⟨b.start, b.units + q.units⟩ then 1 else 0) =
            (if Holds Block.start Block.bytes x b then 1 else 0) +
              if Holds Block.start Block.bytes x q then 1 else 0 :=
          holds_split rfl heq.symm (Nat.mul_add _ _ _).symm
        rw [count_cons, count_cons, count_cons, hsplit, Nat.add_assoc]
      · rfl
  have hjoin : ∀ c rest, count (join p c rest) x = count (p :: c :: rest) x := by
    intro c rest
    unfold join
    split_ifs with heq
    · have hsplit : (if Holds Block.start Block.bytes x ⟨p.start, p.units + c.units⟩ then 1 else 0) =
          (if Holds Block.start Block.bytes x p then 1 else 0) +
            if Holds Block.start Block.bytes x c then 1 else 0 :=
        holds_split rfl heq.symm (Nat.mul_add _ _ _).symm
      rw [count_cons, count_cons, count_cons, hsplit, Nat.add_assoc]
    · rfl
  rw [give, hjoin, count_cons, habove, count_cons, count_cons]
  omega

/-- A block that is cut holds what its parts hold. -/
lemma count_cut {n : ℕ} (hn : n ≤ b.units) :
    count (left b n) x + (if Holds Block.start Block.bytes x (taken b n) then 1 else 0) =
      if Holds Block.start Block.bytes x b then 1 else 0 := by
  by_cases heq : b.units = n
  · have hall : taken b n = b := by
      unfold taken
      rw [← heq, Nat.sub_self]
      rfl
    rw [left, if_pos heq, hall]
    exact Nat.zero_add _
  · have hsplit : (if Holds Block.start Block.bytes x b then 1 else 0) =
        (if Holds Block.start Block.bytes x ⟨b.start, b.units - n⟩ then 1 else 0) +
          if Holds Block.start Block.bytes x (taken b n) then 1 else 0 :=
      holds_split rfl rfl (by
        unfold Block.bytes taken
        rw [← Nat.mul_add, Nat.sub_add_cancel hn])
    rw [left, if_neg heq, count_cons, hsplit]
    rfl

/-! ### Where the blocks are -/

lemma Sound.fsPos (hS : Sound M h fs live) (hb : b ∈ fs) : 0 < b.units := by
  have hL : Listed M h ([] ++ ⟨M.base, 0⟩ :: fs) := hS.listed
  exact hL.pos hb

lemma Sound.le_one (hS : Sound M h fs live) (x : ℕ) : count (fs + live) x ≤ 1 := by
  rw [hS.tile]
  exact hS.once x

/-- The blocks are memory that has been obtained. -/
lemma Sound.held (hS : Sound M h fs live) (hb : b ∈ (fs : Multiset Block) + live)
    (hx : Holds Block.start Block.bytes x b) : 0 < count h.obtained x := by
  rw [← hS.tile]
  exact one_le_cover hb hx

lemma Sound.base_lt (hS : Sound M h fs live) (hb : b ∈ (fs : Multiset Block) + live)
    (hpos : 0 < b.units) : M.base + HEADER ≤ b.start := by
  obtain ⟨r, hr, hx⟩ := exists_of_cover (hS.held hb (holds_start hpos))
  exact (hS.above r (Multiset.mem_coe.mp hr)).trans hx.1

lemma Sound.touches (hS : Sound M h fs live) (hb : b ∈ (fs : Multiset Block) + live)
    (hx : b.start ≤ x) (hx' : x + HEADER ≤ b.stop) : touches M h.kernel x = true := by
  unfold Umalloc.touches HEADER at *
  rw [Bool.and_eq_true]
  constructor
  · exact hS.ok _ (hS.held hb ⟨hx, by unfold Block.stop at hx'; omega⟩)
  · exact hS.ok _ (hS.held hb ⟨by omega, by unfold Block.stop at hx'; omega⟩)

lemma bytes_pos (hb : 0 < b.units) : 0 < b.bytes := Nat.mul_pos (by decide) hb

/-- Two blocks do not overlap. -/
lemma Sound.apart {s : Multiset Block} (hS : Sound M h fs live)
    (hs : (fs : Multiset Block) + live = b ::ₘ s) (hc : c ∈ s) (hb : 0 < b.units)
    (hpos : 0 < c.units) :
    b.start ≠ c.start ∧ (b.start < c.start → b.stop ≤ c.start) ∧
      (c.start < b.start → c.stop ≤ b.start) :=
  Data.Cover.apart (fun x => hs ▸ hS.le_one x) hc (bytes_pos hb) (bytes_pos hpos)

/-- A block in use is not on the list. -/
lemma Sound.off (hS : Sound M h fs live) (hb : b ∈ live) (hq : q ∈ (⟨M.base, 0⟩ : Block) :: fs) :
    b.start ≠ q.start ∧ (q.start < b.start → q.stop ≤ b.start) ∧
      (b.start < q.start → b.stop ≤ q.start) := by
  have hbmem : b ∈ (fs : Multiset Block) + live := Multiset.mem_add.mpr (.inr hb)
  have hbpos := hS.pos b hb
  rcases List.mem_cons.mp hq with rfl | hq
  · have hbase := hS.base_lt hbmem hbpos
    rw [stop_eq]
    change b.start ≠ M.base ∧ (_ → M.base + 0 ≤ _) ∧ (b.start < M.base → _)
    unfold HEADER at hbase
    omega
  · obtain ⟨t, ht⟩ := Multiset.exists_cons_of_mem hb
    have hsplit : (fs : Multiset Block) + live = b ::ₘ (fs + t) := by
      rw [ht, Multiset.add_cons]
    have hq' : q ∈ (fs : Multiset Block) + t :=
      Multiset.mem_add.mpr (.inl (Multiset.mem_coe.mpr hq))
    obtain ⟨h1, h2, h3⟩ := hS.apart hsplit hq' hbpos (hS.fsPos hq)
    exact ⟨h1, h3, h2⟩

/-- The units of the blocks together are those that have been obtained. -/
lemma Sound.total (hS : Sound M h fs live) :
    16 * (fs.map Block.units).sum + total Block.bytes live = total Block.bytes h.obtained := by
  rw [← total_congr hS.tile, total_add, total_list]

lemma exists_cons {L : List Block} (hL : Listed M h L) : ∃ fs, L = ⟨M.base, 0⟩ :: fs := by
  obtain ⟨fs, hfs, -⟩ := hL.base
  exact ⟨fs, hfs⟩

lemma mem_give (post : List Block) : ∃ c ∈ give p b post, b.units ≤ c.units := by
  have hunits : b.units ≤ (above b post).1.units := above_units.1
  unfold give join
  split_ifs
  · exact ⟨_, List.mem_cons_self, hunits.trans (Nat.le_add_left _ _)⟩
  · exact ⟨_, List.mem_cons_of_mem _ List.mem_cons_self, hunits⟩

lemma length_give : (give p b post).length ≤ post.length + 2 := by
  have habove : (above b post).2.length ≤ post.length := by
    cases post with
    | nil => exact le_rfl
    | cons q post =>
      rw [above]
      split_ifs
      · exact Nat.le_succ _
      · exact le_rfl
  unfold give join
  split_ifs
  · exact Nat.succ_le_succ (habove.trans (Nat.le_succ _))
  · exact Nat.succ_le_succ (Nat.succ_le_succ habove)

/-- **`free` keeps the heap sound**: what it is given is on the list then. -/
theorem free_sound (hS : Sound M h fs (b ::ₘ live)) (hfit : total Block.bytes h.obtained < 2 ^ 36)
    (hfuel : fs.length + 1 ≤ fuel) :
    ∃ m f fs', free M fuel h (b.start + HEADER) = .ok { h with mem := m, freep := f } ∧
      Sound M { h with mem := m, freep := f } fs' live ∧ (∃ c ∈ fs', b.units ≤ c.units) ∧
      fs'.length ≤ fs.length + 1 := by
  have hbmem : b ∈ (fs : Multiset Block) + b ::ₘ live :=
    Multiset.mem_add.mpr (.inr (Multiset.mem_cons_self b live))
  have hbpos := hS.pos b (Multiset.mem_cons_self b live)
  have hbase := hS.base_lt hbmem hbpos
  have hbstop : b.stop = b.start + 16 * b.units := rfl
  have hH : HEADER = 16 := rfl
  have hoff : ∀ c ∈ (⟨M.base, 0⟩ : Block) :: fs, _ := fun c hc =>
    hS.off (Multiset.mem_cons_self b live) hc
  have hne : ∀ c ∈ (⟨M.base, 0⟩ : Block) :: fs, c.start ≠ b.start := fun c hc => (hoff c hc).1.symm
  obtain ⟨pre, p, post, heq, hp, hpost⟩ := exists_split hS.listed.sorted hne
    (show M.base < b.start by omega)
  have hL := hS.listed
  rw [heq] at hL
  have hpmem : p ∈ (⟨M.base, 0⟩ : Block) :: fs := by
    rw [heq]
    exact List.mem_append_right _ List.mem_cons_self
  have hpstop : p.stop ≤ b.start := (hoff p hpmem).2.1 hp
  have hpostmem : ∀ q ∈ post, q ∈ (⟨M.base, 0⟩ : Block) :: fs := by
    intro q hq
    rw [heq]
    exact List.mem_append_right _ (List.mem_cons_of_mem _ hq)
  have hpoststop : ∀ q ∈ post, b.stop ≤ q.start := fun q hq =>
    (hoff q (hpostmem q hq)).2.2 (hpost q hq)
  have hbok : Umalloc.touches M h.kernel b.start = true := hS.touches hbmem le_rfl (by omega)
  have htotal := hS.total
  rw [total_cons] at htotal
  have hunits : (fs.map Block.units).sum =
      (pre.map Block.units).sum + (p.units + (post.map Block.units).sum) := by
    have hsum := congrArg (fun L => (L.map Block.units).sum) heq
    rw [List.map_cons, List.sum_cons, Nat.zero_add] at hsum
    rw [hsum, List.map_append, List.sum_append, List.map_cons, List.sum_cons]
  have hbbytes : b.bytes = 16 * b.units := rfl
  have hlen := congrArg List.length heq
  rw [List.length_cons, List.length_append, List.length_cons] at hlen
  have hround : (pre ++ p :: post).length ≤ fuel := by
    rw [List.length_append, List.length_cons]
    omega
  obtain ⟨m, hfree, hlisted, hsame⟩ := free_spec hL hp hpstop hpoststop hbpos
    (hS.size b (Multiset.mem_cons_self b live)) hbok (by omega) hround
  obtain ⟨fs', hfs'⟩ := exists_cons hlisted
  have hcount : ∀ x, count fs' x =
      (if Holds Block.start Block.bytes x b then 1 else 0) + count fs x := by
    intro x
    have hnew : count (pre ++ give p b post : List Block) x = count fs' x := by
      rw [hfs', count_cons, count_base, Nat.zero_add]
    have hold : count (pre ++ p :: post : List Block) x = count fs x := by
      rw [← heq, count_cons, count_base, Nat.zero_add]
    rw [← hnew, ← hold, count_append, count_append, count_give]
    omega
  refine ⟨m, p.start, fs', hfree, ⟨hfs' ▸ hlisted, ?_, ?_, fun x => ?_, hS.once, hS.above, hS.ok⟩,
    ?_, ?_⟩
  · exact fun d hd => hS.pos d (Multiset.mem_cons_of_mem hd)
  · intro d hd
    have hdlive := Multiset.mem_cons_of_mem (a := d) (b := b) hd
    have hsplit : (fs : Multiset Block) + b ::ₘ live = b ::ₘ (fs + live) := Multiset.add_cons _ _ _
    have hdb := (hS.apart hsplit (Multiset.mem_add.mpr (.inr hd)) hbpos (hS.pos d hdlive)).1
    have hdp := (hS.off hdlive hpmem).1
    change (m d.start).size.toNat = d.units
    rw [hsame d.start hdb.symm hdp]
    exact hS.size d hdlive
  · have hx := hS.tile x
    rw [count, cover_add, cover_cons] at hx
    rw [count, cover_add, ← hx]
    have hx' := hcount x
    unfold count at hx'
    omega
  · obtain ⟨c, hc, hcb⟩ := mem_give (p := p) (b := b) post
    have hmem : c ∈ (⟨M.base, 0⟩ : Block) :: fs' := by
      rw [← hfs']
      exact List.mem_append_right _ hc
    rcases List.mem_cons.mp hmem with rfl | hmem
    · exact absurd (lt_of_lt_of_le hbpos hcb) (Nat.lt_irrefl 0)
    · exact ⟨c, hmem, hcb⟩
  · have hlen' := congrArg List.length hfs'
    have hgive : (give p b post).length ≤ post.length + 2 := length_give
    rw [List.length_append, List.length_cons] at hlen'
    omega

/-! ### `malloc` -/

lemma taken_stop {k : ℕ} (hk : k ≤ b.units) : (taken b k).stop = b.stop := by
  unfold taken Block.stop Block.bytes HEADER
  change b.start + 16 * (b.units - k) + 16 * k = b.start + 16 * b.units
  omega

/-- **A block is taken** from the list. -/
lemma take_sound (hS : Sound M h fs live) (hL : (⟨M.base, 0⟩ : Block) :: fs = pre ++ p :: b :: post)
    (hn : 0 < n.toNat) (hle : n.toNat ≤ b.units) :
    ∃ m fs', take M h p.start b.start n =
        .ok ({ h with mem := m, freep := p.start }, (taken b n.toNat).start + HEADER) ∧
      Sound M { h with mem := m, freep := p.start } fs' (taken b n.toNat ::ₘ live) ∧
      fs'.length ≤ fs.length := by
  have hlisted := hS.listed
  rw [hL] at hlisted
  have hbL : b ∈ (⟨M.base, 0⟩ : Block) :: fs := by
    rw [hL]
    exact List.mem_append_right _ (List.mem_cons_of_mem _ List.mem_cons_self)
  have hpL : p ∈ (⟨M.base, 0⟩ : Block) :: fs := by
    rw [hL]
    exact List.mem_append_right _ List.mem_cons_self
  have hbfs : b ∈ fs := by
    rcases List.mem_cons.mp hbL with rfl | hbfs
    · exact absurd (lt_of_lt_of_le hn hle) (Nat.lt_irrefl 0)
    · exact hbfs
  have hbmem : b ∈ (fs : Multiset Block) + live :=
    Multiset.mem_add.mpr (.inl (Multiset.mem_coe.mpr hbfs))
  have hstop := taken_stop hle
  have hbytes : (taken b n.toNat).stop = (taken b n.toNat).start + 16 * n.toNat := rfl
  have hH : HEADER = 16 := rfl
  have hstart : b.start ≤ (taken b n.toNat).start := Nat.le_add_right _ _
  have htok : Umalloc.touches M h.kernel (taken b n.toNat).start = true :=
    hS.touches hbmem hstart (by omega)
  obtain ⟨m, htake, hlisted', hsize, hsame⟩ := take_spec hlisted hn hle fun _ => htok
  obtain ⟨fs', hfs'⟩ := exists_cons hlisted'
  have hcount : ∀ x, count fs' x +
      (if Holds Block.start Block.bytes x (taken b n.toNat) then 1 else 0) = count fs x := by
    intro x
    have hnew : count (pre ++ p :: (left b n.toNat ++ post) : List Block) x = count fs' x := by
      rw [hfs', count_cons, count_base, Nat.zero_add]
    have hold : count (pre ++ p :: b :: post : List Block) x = count fs x := by
      rw [← hL, count_cons, count_base, Nat.zero_add]
    rw [← hnew, ← hold, count_append, count_append, count_cons, count_cons, count_append, count_cons,
      ← count_cut hle]
    omega
  refine ⟨m, fs', htake, ⟨hfs' ▸ hlisted', ?_, ?_, fun x => ?_, hS.once, hS.above, hS.ok⟩, ?_⟩
  · intro d hd
    rcases Multiset.mem_cons.mp hd with rfl | hd
    · exact hn
    · exact hS.pos d hd
  · intro d hd
    rcases Multiset.mem_cons.mp hd with rfl | hd
    · change (m (taken b n.toNat).start).size.toNat = n.toNat
      rw [hsize]
    · have hdb := hS.off hd hbL
      have hdp := (hS.off hd hpL).1
      change (m d.start).size.toNat = d.units
      rw [hsame d.start hdp hdb.1 (by omega)]
      exact hS.size d hd
  · have hx := hS.tile x
    have hx' := hcount x
    unfold count at *
    rw [cover_add] at hx
    rw [cover_add, cover_cons, ← hx]
    omega
  · have hlen := congrArg List.length hL
    have hlen' := congrArg List.length hfs'
    have hleft : (left b n.toNat).length ≤ 1 := by
      unfold left
      split_ifs
      · exact Nat.zero_le 1
      · exact le_rfl
    rw [List.length_append, List.length_cons, List.length_append, List.length_cons] at hlen'
    rw [List.length_append, List.length_cons, List.length_cons, List.length_cons] at hlen
    omega

/-- The loop of `malloc` where there is a block that is large enough. -/
lemma loop_sound (hS : Sound M h fs live) (hn : 0 < n.toNat) (hlarge : ∃ b ∈ fs, n.toNat ≤ b.units)
    (hfuel : fs.length + 1 ≤ fuel) :
    ∃ m f fs' b, mallocLoop M fuel h h.freep (h.mem h.freep).ptr n =
        .ok ({ h with mem := m, freep := f }, b.start + HEADER) ∧ b.units = n.toNat ∧
      Sound M { h with mem := m, freep := f } fs' (b ::ₘ live) ∧ fs'.length ≤ fs.length := by
  obtain ⟨k, hk⟩ : ∃ k, fuel = k + ((⟨M.base, 0⟩ : Block) :: fs).length :=
    ⟨fuel - (fs.length + 1), by rw [List.length_cons]; omega⟩
  rw [hk]
  rcases search hS.listed hn k with ⟨us, p, b, vs, hL, hle, hloop⟩ | ⟨hsmall, -⟩
  · obtain ⟨m, fs', htake, hS', hlen⟩ := take_sound hS hL hn hle
    exact ⟨m, p.start, fs', taken b n.toNat, hloop.trans htake, rfl, hS', hlen⟩
  · obtain ⟨b, hb, hle⟩ := hlarge
    have hb' := hsmall b (List.mem_cons_of_mem _ hb)
    omega

/-- What `morecore` asks for. -/
def asked (n : UInt32) : UInt32 := if n < 4096 then 4096 else n

lemma le_asked : n.toNat ≤ (asked n).toNat := by
  unfold asked
  split_ifs with hlt
  · rw [UInt32.lt_iff_toNat_lt] at hlt
    exact hlt.le
  · exact le_rfl

/-- **Fresh memory** at `p`, behind all that has been obtained. -/
structure Fresh (M : Machine κ) (h : Heap κ) (k' : κ) (p nu : ℕ) : Prop where
  behind : ∀ r ∈ h.obtained, r.stop ≤ p
  base : M.base + HEADER ≤ p
  keeps : ∀ a, M.ok h.kernel a = true → M.ok k' a = true
  ok : ∀ a, p ≤ a → a < p + HEADER * nu → M.ok k' a = true
  fits : total Block.bytes (h.obtained : Multiset Block) + HEADER * nu < 2 ^ 36

lemma keeps_listed {L : List Block} {k' : κ} (hL : Listed M h L)
    (hk : ∀ a, M.ok h.kernel a = true → M.ok k' a = true) (o : List Block) :
    Listed M { h with kernel := k', obtained := o } L := by
  refine ⟨hL.base, hL.linked, hL.sorted, hL.freep, fun b hb => ?_⟩
  have hok := hL.ok b hb
  unfold Umalloc.touches at *
  rw [Bool.and_eq_true] at *
  exact ⟨hk _ hok.1, hk _ hok.2⟩

/-- The heap is sound with another state of the kernel that lets it access as much. -/
lemma keeps_sound {k' : κ} (hS : Sound M h fs live)
    (hk : ∀ a, M.ok h.kernel a = true → M.ok k' a = true) :
    Sound M { h with kernel := k' } fs live :=
  ⟨keeps_listed hS.listed hk _, hS.pos, hS.size, hS.tile, hS.once, hS.above,
    fun x hx => hk x (hS.ok x hx)⟩

/-- The fresh memory as a block in use, once it has its header. -/
lemma fresh_sound {k' : κ} {a : ℕ} {x : Header} {nu : UInt32} (hS : Sound M h fs live)
    (hF : Fresh M h k' a nu.toNat) (hnu : 0 < nu.toNat) (hx : x.size = nu) :
    Sound M
      { h with
        kernel := k'
        mem := Function.update h.mem a x
        obtained := ⟨a, nu.toNat⟩ :: h.obtained }
      fs (⟨a, nu.toNat⟩ ::ₘ live) := by
  have hbelow : ∀ b ∈ (fs : Multiset Block) + live, 0 < b.units → b.start < a := by
    intro b hb hpos
    obtain ⟨r, hr, hxr⟩ := exists_of_cover (hS.held hb (holds_start hpos))
    exact lt_of_lt_of_le hxr.2 (hF.behind r (Multiset.mem_coe.mp hr))
  have hlist := keeps_listed hS.listed hF.keeps (⟨a, nu.toNat⟩ :: h.obtained)
  refine ⟨⟨hlist.base, ?_, hlist.sorted, hlist.freep, hlist.ok⟩, ?_, ?_, fun y => ?_, fun y => ?_, ?_,
    fun y hy => ?_⟩
  · refine hS.listed.linked.transport fun b hb => Function.update_of_ne ?_ _ _
    rcases List.mem_cons.mp hb with rfl | hb
    · have hbase := hF.base
      unfold HEADER at hbase
      change M.base ≠ a
      omega
    · exact (hbelow b (Multiset.mem_add.mpr (.inl (Multiset.mem_coe.mpr hb))) (hS.fsPos hb)).ne
  · intro b hb
    rcases Multiset.mem_cons.mp hb with rfl | hb
    · exact hnu
    · exact hS.pos b hb
  · intro b hb
    rcases Multiset.mem_cons.mp hb with rfl | hb
    · change (Function.update h.mem a x a).size.toNat = nu.toNat
      rw [Function.update_self, hx]
    · have hne := (hbelow b (Multiset.mem_add.mpr (.inr hb)) (hS.pos b hb)).ne
      change (Function.update h.mem a x b.start).size.toNat = b.units
      rw [Function.update_of_ne hne]
      exact hS.size b hb
  · have hy := hS.tile y
    rw [Multiset.add_cons, count_cons, ← hy]
    exact cover_cons
  · change count (⟨a, nu.toNat⟩ :: h.obtained : List Block) y ≤ 1
    rw [count_cons]
    by_cases hy : Holds Block.start Block.bytes y ⟨a, nu.toNat⟩
    · have hnone : count h.obtained y = 0 := by
        by_contra hne
        obtain ⟨r, hr, hyr⟩ := exists_of_cover (Nat.pos_of_ne_zero hne)
        have hle := hF.behind r (Multiset.mem_coe.mp hr)
        have h1 : a ≤ y := hy.1
        have h2 : y < r.stop := hyr.2
        omega
      rw [if_pos hy, hnone]
    · rw [if_neg hy, Nat.zero_add]
      exact hS.once y
  · intro r hr
    rcases List.mem_cons.mp hr with rfl | hr
    · exact hF.base
    · exact hS.above r hr
  · change 0 < count (⟨a, nu.toNat⟩ :: h.obtained : List Block) y at hy
    rw [count_cons] at hy
    by_cases hya : Holds Block.start Block.bytes y ⟨a, nu.toNat⟩
    · exact hF.ok y hya.1 hya.2
    · rw [if_neg hya, Nat.zero_add] at hy
      exact hF.keeps y (hS.ok y hy)

/-- `f` comes to `a`, with enough fuel. -/
def Returns {α : Type} (f : ℕ → Except Stop α) (a : α) : Prop := ∃ N, ∀ fuel, N ≤ fuel → f fuel = .ok a

lemma Returns.unique {α : Type} {f : ℕ → Except Stop α} {a a' : α} (h : Returns f a)
    (h' : Returns f a') : a = a' := by
  obtain ⟨N, hN⟩ := h
  obtain ⟨N', hN'⟩ := h'
  have heq := (hN (max N N') (le_max_left _ _)).symm.trans (hN' (max N N') (le_max_right _ _))
  exact Except.ok.inj heq

/-- **What a call of `malloc` has come to**: it has found a block, or got fresh memory and taken a
block of it, or there was none to be had. -/
inductive Served (M : Machine κ) (h : Heap κ) (fs : List Block) (live : Multiset Block) (n : UInt32) :
    Heap κ × ℕ → Prop
  | found (h' : Heap κ) (fs' : List Block) (b : Block) (hb : b.units = n.toNat)
      (hS : Sound M h' fs' (b ::ₘ live)) (hk : h'.kernel = h.kernel)
      (ho : h'.obtained = h.obtained) : Served M h fs live n (h', b.start + HEADER)
  | grown (h' : Heap κ) (fs' : List Block) (b : Block) (a : ℕ) (hb : b.units = n.toNat)
      (hS : Sound M h' fs' (b ::ₘ live))
      (hk : M.sbrk h.kernel (request (asked n)) = (h'.kernel, some a))
      (ho : h'.obtained = ⟨a, (asked n).toNat⟩ :: h.obtained)
      (hsmall : ∀ b ∈ fs, b.units < n.toNat) : Served M h fs live n (h', b.start + HEADER)
  | refused (k' : κ) (hk : M.sbrk h.kernel (request (asked n)) = (k', none))
      (hsmall : ∀ b ∈ fs, b.units < n.toNat) :
      Served M h fs live n ({ h with kernel := k' }, 0)

lemma morecore_none {k' : κ} (hk : M.sbrk h.kernel (request (asked n)) = (k', none)) :
    morecore M fuel h n = .ok ({ h with kernel := k' }, 0) := by
  unfold asked at hk
  unfold morecore
  simp only [hk]
  rfl

lemma morecore_some {k' : κ} {a : ℕ} {h₁ h₂ : Heap κ}
    (hk : M.sbrk h.kernel (request (asked n)) = (k', some a))
    (ho : h₁ = { h with kernel := k', obtained := brought a (request (asked n)) ++ h.obtained })
    (hok : touches M k' a = true)
    (hfree : free M fuel { h₁ with mem := Function.update h.mem a ⟨(h.mem a).ptr, asked n⟩ }
      (a + HEADER) = .ok h₂) :
    morecore M fuel h n = .ok (h₂, h₂.freep) := by
  have hload : load M h₁ a = .ok (h₁.mem a) := load_ok (by rw [ho]; exact hok)
  have hstore : store M h₁ a ⟨(h₁.mem a).ptr, asked n⟩ =
      .ok { h₁ with mem := Function.update h.mem a ⟨(h.mem a).ptr, asked n⟩ } := by
    rw [store_ok (by rw [ho]; exact hok), ho]
  have hunfold : morecore M fuel h n = (do
      let x ← load M h₁ a
      let h ← store M h₁ a ⟨x.ptr, asked n⟩
      let h ← free M fuel h (a + HEADER)
      return (h, h.freep)) := by
    rw [ho]
    unfold asked at hk ⊢
    unfold morecore
    simp only [hk]
  rw [hunfold, hload, ok_bind, hstore, ok_bind, hfree, ok_bind]
  rfl

lemma brought_eq {a : ℕ} {nu : UInt32} (hreq : (request nu).toInt = HEADER * nu.toNat)
    (hnu : 0 < nu.toNat) : brought a (request nu) = [⟨a, nu.toNat⟩] := by
  have hH : HEADER = 16 := rfl
  rw [hH] at hreq
  have hpos : 0 < request nu := by
    rw [Int32.lt_iff_toInt_lt, hreq, Int32.toInt_zero]
    omega
  have hunits : (request nu).toInt.toNat / HEADER = nu.toNat := by
    rw [hreq, hH]
    omega
  rw [brought, if_pos hpos, hunits]

/-- **The circle is gone round**: the kernel is asked, and what it gives is enough. -/
lemma refill_sound (hbase : 0 < M.base) (hS : Sound M h fs live) (hn : 0 < n.toNat)
    (hreq : (request (asked n)).toInt = HEADER * (asked n).toNat)
    (hgrant : ∀ k' a, M.sbrk h.kernel (request (asked n)) = (k', some a) →
      Fresh M h k' a (asked n).toNat)
    (hsmall : ∀ b ∈ fs, b.units < n.toNat) (hfuel : fs.length + 2 ≤ fuel) :
    ∃ r, refill M fuel h n = .ok r ∧ Served M h fs live n r := by
  have hnu : 0 < (asked n).toNat := lt_of_lt_of_le hn le_asked
  unfold refill
  rcases hsb : M.sbrk h.kernel (request (asked n)) with ⟨k', _ | a⟩
  · rw [morecore_none hsb, ok_bind, if_pos rfl]
    exact ⟨_, rfl, .refused k' hsb hsmall⟩
  · have hF := hgrant k' a hsb
    have hH : HEADER * (asked n).toNat = 16 * (asked n).toNat := rfl
    have hok : touches M k' a = true := by
      unfold touches
      rw [Bool.and_eq_true]
      exact ⟨hF.ok a le_rfl (by omega), hF.ok (a + 11) (by omega) (by omega)⟩
    have hS₁ := fresh_sound (x := ⟨(h.mem a).ptr, asked n⟩) hS hF hnu rfl
    have hfit : total Block.bytes ((⟨a, (asked n).toNat⟩ :: h.obtained : List Block) : Multiset Block) <
        2 ^ 36 := by
      rw [← Multiset.cons_coe, total_cons]
      have hbytes : (⟨a, (asked n).toNat⟩ : Block).bytes = HEADER * (asked n).toNat := rfl
      have hfits := hF.fits
      omega
    obtain ⟨m, f, fs', hfree, hS₂, ⟨c, hc, hle⟩, hlen⟩ := free_sound hS₁ hfit
      (show fs.length + 1 ≤ fuel by omega)
    have hmore := morecore_some hsb rfl hok (by rw [brought_eq hreq hnu]; exact hfree)
    rw [hmore, ok_bind]
    obtain ⟨b, hb, hfb⟩ := hS₂.listed.freep
    have hfb' : f = b.start := hfb
    have hfle := hS₂.listed.base_le hb
    have hlarge : ∃ b ∈ fs', n.toNat ≤ b.units := ⟨c, hc, le_asked.trans hle⟩
    have hround : fs'.length + 1 ≤ fuel := by omega
    obtain ⟨m', f', fs'', d, hloop, hd, hS₃, -⟩ := loop_sound hS₂ hn hlarge hround
    have hload := load_ok (hS₂.listed.ok b hb)
    rw [← hfb] at hload
    rw [if_neg (show ¬f = 0 by omega)]
    refine ⟨_, ?_, .grown _ fs'' d a hd hS₃ hsb rfl hsmall⟩
    dsimp only at hload hloop ⊢
    rw [hload, ok_bind]
    exact hloop

/-- There is no memory to be had. -/
lemma refused_returns {k' : κ} (hS : Sound M h fs live) (hn : 0 < n.toNat)
    (hsmall : ∀ b ∈ fs, b.units < n.toNat)
    (hk : M.sbrk h.kernel (request (asked n)) = (k', none)) (k : ℕ) :
    mallocLoop M (k + (fs.length + 1)) h h.freep (h.mem h.freep).ptr n =
      .ok ({ h with kernel := k' }, 0) := by
  rcases search hS.listed hn k with ⟨us, q, b, vs, heq, hle, -⟩ | ⟨-, hsearch⟩
  · have hb : b ∈ (⟨M.base, 0⟩ : Block) :: fs := by
      rw [heq]
      exact List.mem_append_right _ (List.mem_cons_of_mem _ List.mem_cons_self)
    rcases List.mem_cons.mp hb with rfl | hb
    · exact absurd (lt_of_lt_of_le hn hle) (Nat.lt_irrefl 0)
    · exact absurd hle (Nat.not_le.mpr (hsmall b hb))
  · rw [List.length_cons] at hsearch
    rw [hsearch]
    unfold refill
    rw [morecore_none hk, ok_bind, if_pos rfl]
    rfl

/-! ### Fuel -/

lemma bind_mono {α β : Type} {x x' : Except Stop α} {f f' : α → Except Stop β} {r : β}
    (h : (x >>= f) = .ok r) (hx : ∀ a, x = .ok a → x' = .ok a)
    (hf : ∀ a, f a = .ok r → f' a = .ok r) : (x' >>= f') = .ok r := by
  cases hxa : x with
  | error e =>
    rw [hxa] at h
    cases h
  | ok a =>
    rw [hxa] at h
    rw [hx a hxa]
    exact hf a h

lemma findLoop_mono {bp a r : ℕ} (h' : findLoop M h bp fuel a = .ok r) :
    findLoop M h bp (fuel + 1) a = .ok r := by
  induction fuel generalizing a with
  | zero => cases h'
  | succ fuel ih =>
    rw [findLoop] at h' ⊢
    refine bind_mono h' (fun x hx => hx) fun x hx => ?_
    by_cases h1 : a < bp ∧ bp < x.ptr
    · rw [if_pos h1] at hx ⊢
      exact hx
    rw [if_neg h1] at hx ⊢
    by_cases h2 : x.ptr ≤ a ∧ (a < bp ∨ bp < x.ptr)
    · rw [if_pos h2] at hx ⊢
      exact hx
    rw [if_neg h2] at hx ⊢
    exact ih hx

lemma free_mono {a : ℕ} {h' : Heap κ} (hf : free M fuel h a = .ok h') :
    free M (fuel + 1) h a = .ok h' :=
  bind_mono hf (fun _ => findLoop_mono) fun _ h => h

lemma morecore_mono {r : Heap κ × ℕ} (hr : morecore M fuel h n = .ok r) :
    morecore M (fuel + 1) h n = .ok r := by
  unfold morecore at hr ⊢
  rcases hsb : M.sbrk h.kernel (request (if n < 4096 then 4096 else n)) with ⟨k', _ | a⟩
  · simp only [hsb] at hr ⊢
    exact hr
  · simp only [hsb] at hr ⊢
    exact bind_mono hr (fun _ h => h) fun _ hx =>
      bind_mono hx (fun _ h => h) fun _ hy => bind_mono hy (fun _ => free_mono) fun _ h => h

lemma mallocLoop_mono {a b : ℕ} {r : Heap κ × ℕ} (hr : mallocLoop M fuel h a b n = .ok r) :
    mallocLoop M (fuel + 1) h a b n = .ok r := by
  induction fuel generalizing h a b with
  | zero => cases hr
  | succ fuel ih =>
    rw [mallocLoop] at hr ⊢
    refine bind_mono hr (fun x hx => hx) fun x hx => ?_
    by_cases h1 : n ≤ x.size
    · rw [if_pos h1] at hx ⊢
      exact hx
    rw [if_neg h1] at hx ⊢
    by_cases h2 : b = h.freep
    · rw [if_pos h2] at hx ⊢
      refine bind_mono hx (fun _ => morecore_mono) fun s hs => ?_
      by_cases h3 : s.2 = 0
      · rw [if_pos h3] at hs ⊢
        exact hs
      · rw [if_neg h3] at hs ⊢
        exact bind_mono hs (fun _ h => h) fun _ hy => ih hy
    · rw [if_neg h2] at hx ⊢
      exact ih hx

lemma malloc_mono {r : Heap κ × ℕ} {nbytes : UInt32} (hr : malloc M fuel h nbytes = .ok r) :
    malloc M (fuel + 1) h nbytes = .ok r :=
  bind_mono hr (fun _ h => h) fun _ hx => bind_mono hx (fun _ h => h) fun _ hy => mallocLoop_mono hy

/-- A run that ends ends with more fuel as well. -/
lemma Returns.of_mono {α : Type} {f : ℕ → Except Stop α} {a : α} {N : ℕ} (h : f N = .ok a)
    (hmono : ∀ fuel, f fuel = .ok a → f (fuel + 1) = .ok a) : Returns f a := by
  refine ⟨N, fun fuel hfuel => ?_⟩
  induction fuel, hfuel using Nat.le_induction with
  | base => exact h
  | succ fuel _ ih => exact hmono fuel ih

/-- **The loop of `malloc`** comes to an end. -/
lemma mallocLoop_sound (hbase : 0 < M.base) (hS : Sound M h fs live) (hn : 0 < n.toNat)
    (hreq : (∀ b ∈ fs, b.units < n.toNat) →
      (request (asked n)).toInt = HEADER * (asked n).toNat)
    (hgrant : (∀ b ∈ fs, b.units < n.toNat) →
      ∀ k' a, M.sbrk h.kernel (request (asked n)) = (k', some a) → Fresh M h k' a (asked n).toNat) :
    ∃ r, Returns (fun fuel => mallocLoop M fuel h h.freep (h.mem h.freep).ptr n) r ∧
      Served M h fs live n r := by
  by_cases hlarge : ∃ b ∈ fs, n.toNat ≤ b.units
  · obtain ⟨m, f, fs', b, hloop, hb, hS', -⟩ := loop_sound hS hn hlarge le_rfl
    exact ⟨_, Returns.of_mono hloop fun _ => mallocLoop_mono, .found _ fs' b hb hS' rfl rfl⟩
  · push Not at hlarge
    rcases search hS.listed hn (fs.length + 2) with ⟨us, p, b, vs, hL, hle, -⟩ | ⟨-, hloop⟩
    · have hbL : b ∈ (⟨M.base, 0⟩ : Block) :: fs := by
        rw [hL]
        exact List.mem_append_right _ (List.mem_cons_of_mem _ List.mem_cons_self)
      rcases List.mem_cons.mp hbL with rfl | hb
      · exact absurd (lt_of_lt_of_le hn hle) (Nat.lt_irrefl 0)
      · exact absurd hle (Nat.not_le.mpr (hlarge b hb))
    · obtain ⟨r, hr, hserved⟩ := refill_sound hbase hS hn (hreq hlarge) (hgrant hlarge) hlarge le_rfl
      exact ⟨r, Returns.of_mono (hloop.trans hr) fun _ => mallocLoop_mono, hserved⟩

/-! ### The calls -/

lemma unitsFor_toNat (nbytes : UInt32) :
    (unitsFor nbytes).toNat = (nbytes.toNat + 15) / 16 + 1 := by
  have hlt := nbytes.toNat_lt
  have hsum : (nbytes.toUInt64 + 16 - 1).toNat = nbytes.toNat + 15 := by
    have hadd : (nbytes.toUInt64 + 16).toNat = nbytes.toNat + 16 := by
      rw [UInt64.toNat_add, UInt32.toNat_toUInt64]
      have h16 : (16 : UInt64).toNat = 16 := rfl
      rw [h16]
      omega
    have h1 : (1 : UInt64).toNat = 1 := rfl
    have hle : (1 : UInt64) ≤ nbytes.toUInt64 + 16 := by
      rw [UInt64.le_iff_toNat_le, hadd, h1]
      omega
    rw [UInt64.toNat_sub_of_le _ _ hle, hadd, h1]
    omega
  have hdiv : ((nbytes.toUInt64 + 16 - 1) / 16).toNat = (nbytes.toNat + 15) / 16 := by
    rw [UInt64.toNat_div, hsum]
    rfl
  unfold unitsFor
  rw [UInt64.toNat_toUInt32, UInt64.toNat_add, hdiv]
  have h1 : (1 : UInt64).toNat = 1 := rfl
  rw [h1]
  omega

lemma request_bmod (nu : UInt32) :
    (request nu).toInt = ((16 * nu.toNat % 2 ^ 32 : ℕ) : ℤ).bmod (2 ^ 32) := by
  have hmul : (nu.toUInt64 * 16).toUInt32.toNat = 16 * nu.toNat % 2 ^ 32 := by
    rw [UInt64.toNat_toUInt32, UInt64.toNat_mul, UInt32.toNat_toUInt64]
    have h16 : (16 : UInt64).toNat = 16 := rfl
    rw [h16]
    omega
  rw [← hmul]
  exact BitVec.toInt_eq_toNat_bmod _

/-- The request is the number of bytes asked for, where that is an `int`. -/
lemma request_toInt {nu : UInt32} (h : nu.toNat < 2 ^ 27) :
    (request nu).toInt = HEADER * nu.toNat := by
  unfold HEADER
  rw [request_bmod, Int.bmod_def]
  omega

/-- **`free`** of a block in use. -/
theorem free_returns (hS : Sound M h fs (b ::ₘ live))
    (hfit : total Block.bytes h.obtained < 2 ^ 36) :
    ∃ h' fs', Returns (fun fuel => free M fuel h (b.start + HEADER)) h' ∧ Sound M h' fs' live ∧
      h'.kernel = h.kernel ∧ h'.obtained = h.obtained := by
  obtain ⟨m, f, fs', hfree, hS', -, -⟩ := free_sound hS hfit le_rfl
  exact ⟨_, fs', Returns.of_mono hfree fun _ => free_mono, hS', rfl, rfl⟩

lemma malloc_eq (hbase : 0 < M.base) (hS : Sound M h fs live) (nbytes : UInt32) (fuel : ℕ) :
    malloc M fuel h nbytes =
      mallocLoop M fuel h h.freep (h.mem h.freep).ptr (unitsFor nbytes) := by
  obtain ⟨b, hb, hfb⟩ := hS.listed.freep
  have hle := hS.listed.base_le hb
  have hok := hS.listed.ok b hb
  rw [← hfb] at hok
  have hstart : start M h = .ok h := if_neg (by omega)
  change (start M h >>= fun h => load M h h.freep >>= fun x =>
    mallocLoop M fuel h h.freep x.ptr (unitsFor nbytes)) = _
  rw [hstart, ok_bind, load_ok hok, ok_bind]

lemma unitsFor_pos (nbytes : UInt32) : 0 < (unitsFor nbytes).toNat := by
  rw [unitsFor_toNat]
  exact Nat.succ_pos _

/-- **`malloc`** on a sound heap. -/
theorem malloc_returns {nbytes : UInt32} (hbase : 0 < M.base) (hS : Sound M h fs live)
    (hreq : (∀ b ∈ fs, b.units < (unitsFor nbytes).toNat) →
      (request (asked (unitsFor nbytes))).toInt = HEADER * (asked (unitsFor nbytes)).toNat)
    (hgrant : (∀ b ∈ fs, b.units < (unitsFor nbytes).toNat) →
      ∀ k' a, M.sbrk h.kernel (request (asked (unitsFor nbytes))) = (k', some a) →
        Fresh M h k' a (asked (unitsFor nbytes)).toNat) :
    ∃ r, Returns (fun fuel => malloc M fuel h nbytes) r ∧
      Served M h fs live (unitsFor nbytes) r := by
  simp only [malloc_eq hbase hS]
  exact mallocLoop_sound hbase hS (unitsFor_pos nbytes) hreq hgrant

/-- The first call sets up a list of `base` alone. -/
theorem start_sound (hfreep : h.freep = 0) (ho : h.obtained = [])
    (hok : touches M h.kernel M.base = true) :
    ∃ h', start M h = .ok h' ∧ Sound M h' [] 0 ∧ h'.kernel = h.kernel ∧ h'.obtained = [] := by
  refine ⟨{ h with mem := Function.update h.mem M.base ⟨M.base, 0⟩, freep := M.base }, ?_,
    ⟨⟨⟨[], rfl, fun b hb => absurd hb List.not_mem_nil⟩, ⟨?_, ?_, trivial⟩,
      List.pairwise_singleton _ _, ⟨_, List.mem_singleton_self _, rfl⟩, fun b hb => ?_⟩,
      fun b hb => absurd hb (Multiset.notMem_zero b), fun b hb => absurd hb (Multiset.notMem_zero b),
      fun x => ?_, fun x => ?_, fun r hr => ?_, fun x hx => ?_⟩, rfl, ho⟩
  · unfold start
    rw [if_pos hfreep, store_ok hok, ok_bind]
    rfl
  · change (Function.update h.mem M.base ⟨M.base, 0⟩ M.base).size.toNat = 0
    rw [Function.update_self]
    rfl
  · change (Function.update h.mem M.base ⟨M.base, 0⟩ M.base).ptr = M.base
    rw [Function.update_self]
  · rw [List.mem_singleton.mp hb]
    exact hok
  · change _ = count h.obtained x
    rw [ho]
    rfl
  · change count h.obtained x ≤ 1
    rw [ho]
    exact Nat.zero_le 1
  · change r ∈ h.obtained at hr
    rw [ho] at hr
    exact absurd hr List.not_mem_nil
  · change 0 < count h.obtained x at hx
    rw [ho] at hx
    exact absurd hx (Nat.lt_irrefl 0)

lemma malloc_start {h' : Heap κ} (hs : start M h = .ok h') (hs' : start M h' = .ok h')
    (nbytes : UInt32) : malloc M fuel h nbytes = malloc M fuel h' nbytes := by
  unfold malloc
  simp only [hs, hs']

/-- What the program writes into its blocks is nothing to the heap. -/
theorem write_sound {m : ℕ → Header} (hS : Sound M h fs live)
    (hsame : ∀ a, (∀ b ∈ live, ¬(b.start < a ∧ a < b.stop)) → m a = h.mem a) :
    Sound M { h with mem := m } fs live := by
  have hlist : ∀ q ∈ (⟨M.base, 0⟩ : Block) :: fs, m q.start = h.mem q.start := fun q hq =>
    hsame _ fun b hb => by
      have hoff := hS.off hb hq
      omega
  have hlive : ∀ d ∈ live, m d.start = h.mem d.start := fun d hd => hsame _ fun b hb => by
    by_cases heq : b = d
    · rw [heq]
      omega
    · obtain ⟨t, ht⟩ := Multiset.exists_cons_of_mem hb
      have hsplit : (fs : Multiset Block) + live = b ::ₘ (fs + t) := by
        rw [ht, Multiset.add_cons]
      have hdt : d ∈ t := by
        rw [ht, Multiset.mem_cons] at hd
        exact hd.resolve_left (Ne.symm heq)
      have hapart := hS.apart hsplit (Multiset.mem_add.mpr (.inr hdt)) (hS.pos b hb) (hS.pos d hd)
      omega
  refine ⟨⟨hS.listed.base, hS.listed.linked.transport hlist, hS.listed.sorted, hS.listed.freep,
    hS.listed.ok⟩, hS.pos, fun d hd => ?_, hS.tile, hS.once, hS.above, hS.ok⟩
  change (m d.start).size.toNat = d.units
  rw [hlive d hd]
  exact hS.size d hd

/-! ### Programs -/

/-- The heap after a request, and the address it has got. -/
def given (M : Machine κ) (h : Heap κ) (nbytes : UInt32) : Heap κ × Option ℕ :=
  match malloc M 10 h nbytes with
  | .ok r => (r.1, some r.2)
  | .error _ => (h, none)

/-- The heap after a block is freed, and whether it is. -/
def freed (M : Machine κ) (h : Heap κ) (b : Block) : Heap κ × Bool :=
  match free M 10 h (b.start + HEADER) with
  | .ok h' => (h', true)
  | .error _ => (h, false)

lemma given_returns {nbytes : UInt32} {p : ℕ} (hp : (given M h nbytes).2 = some p) :
    Returns (fun fuel => malloc M fuel h nbytes) ((given M h nbytes).1, p) := by
  unfold given at *
  split at hp
  · next r hr =>
    obtain rfl := Option.some.inj hp
    exact Returns.of_mono hr fun _ => malloc_mono
  · cases hp

lemma freed_returns (hb : (freed M h b).2 = true) :
    Returns (fun fuel => free M fuel h (b.start + HEADER)) (freed M h b).1 := by
  unfold freed at *
  split at hb
  · next h' hf => exact Returns.of_mono hf fun _ => free_mono
  · cases hb

/-- A program's heap, and the blocks it has in use. -/
structure State (κ : Type) where
  heap : Heap κ
  live : Multiset Block

/-- A program allocates as it `may`, frees what it has in use, and writes to it. -/
inductive Step (M : Machine κ) (may : State κ → UInt32 → Prop) (s : State κ) : State κ → Prop
  | malloc (nbytes : UInt32) (h' : Heap κ) (p : ℕ) (hmay : may s nbytes)
      (hrun : Returns (fun fuel => malloc M fuel s.heap nbytes) (h', p)) :
      Step M may s ⟨h', if p = 0 then s.live else ⟨p - HEADER, (unitsFor nbytes).toNat⟩ ::ₘ s.live⟩
  | free (b : Block) (h' : Heap κ) (hb : b ∈ s.live)
      (hrun : Returns (fun fuel => free M fuel s.heap (b.start + HEADER)) h') :
      Step M may s ⟨h', s.live.erase b⟩
  | write (m : ℕ → Header)
      (hsame : ∀ a, (∀ b ∈ s.live, ¬(b.start < a ∧ a < b.stop)) → m a = s.heap.mem a) :
      Step M may s ⟨{ s.heap with mem := m }, s.live⟩

end Xv6.User.Arena
