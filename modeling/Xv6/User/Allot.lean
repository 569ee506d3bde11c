import Xv6.User.Release

/-!
`malloc`: the first block that is large enough, from behind the last one used.
-/

namespace Xv6.User.Allot

open Xv6.User.Umalloc Xv6.User.FreeList Xv6.User.Release

variable {κ : Type} {M : Machine κ} {h : Heap κ} {b c p q : Block}
  {L pre post bs us : List Block} {n : UInt32} {z : ℕ}

/-- What is taken of `b`: its tail. -/
def taken (b : Block) (n : ℕ) : Block := ⟨b.start + HEADER * (b.units - n), n⟩

/-- What is left of `b`. -/
def left (b : Block) (n : ℕ) : List Block :=
  if b.units = n then [] else [⟨b.start, b.units - n⟩]

lemma mem_left {k : ℕ} (hc : c ∈ left b k) : c = ⟨b.start, b.units - k⟩ ∧ b.units ≠ k := by
  unfold left at hc
  split_ifs at hc with heq
  · exact absurd hc List.not_mem_nil
  · exact ⟨List.mem_singleton.mp hc, heq⟩

/-- **A block that is large enough** is taken off the list, or is cut down. -/
theorem take_spec (hL : Listed M h (pre ++ q :: b :: post)) (hn : 0 < n.toNat)
    (hle : n.toNat ≤ b.units)
    (hok : b.units ≠ n.toNat → touches M h.kernel (taken b n.toNat).start = true) :
    ∃ m, take M h q.start b.start n =
        .ok ({ h with mem := m, freep := q.start }, (taken b n.toNat).start + HEADER) ∧
      Listed M { h with mem := m, freep := q.start } (pre ++ q :: (left b n.toNat ++ post)) ∧
      (m (taken b n.toNat).start).size = n ∧
      ∀ a, a ≠ q.start → a ≠ b.start → a ≠ (taken b n.toNat).start → m a = h.mem a := by
  have hq : q ∈ pre ++ q :: b :: post := List.mem_append_right _ List.mem_cons_self
  have hb : b ∈ pre ++ q :: b :: post :=
    List.mem_append_right _ (List.mem_cons_of_mem _ List.mem_cons_self)
  have hlinked := linked_append.mp hL.linked
  obtain ⟨hqsize, -, hbsize, hbptr, hpost⟩ := hlinked.2
  have hsorted := List.pairwise_append.mp hL.sorted
  have hqs := List.pairwise_cons.mp hsorted.2.1
  have hbs := List.pairwise_cons.mp hqs.2
  have hqb := hqs.1 b List.mem_cons_self
  have hqstart := start_le_stop q
  have hbstop := stop_eq b
  have hbefore : ∀ c ∈ pre, c.start < q.start := by
    intro c hc
    have hcq := hsorted.2.2 c hc q List.mem_cons_self
    have hcs := start_le_stop c
    omega
  have hpostpos : ∀ c ∈ post, 0 < c.units := fun c hc => hL.pos (List.mem_cons_of_mem _ hc)
  have hpostok : ∀ c ∈ post, touches M h.kernel c.start = true := fun c hc =>
    hL.ok c (List.mem_append_right _ (List.mem_cons_of_mem _ (List.mem_cons_of_mem _ hc)))
  unfold take
  rw [load_ok (hL.ok b hb), ok_bind]
  by_cases heq : b.units = n.toNat
  · have hsize : (h.mem b.start).size = n := UInt32.toNat_inj.mp (hbsize.trans heq)
    have htaken : (taken b n.toNat).start = b.start := by
      unfold taken
      rw [heq, Nat.sub_self]
      rfl
    rw [if_pos hsize, load_ok (hL.ok q hq), ok_bind, store_ok (hL.ok q hq), ok_bind, htaken]
    obtain ⟨m, hm⟩ : ∃ m, m = Function.update h.mem q.start
        ⟨(h.mem b.start).ptr, (h.mem q.start).size⟩ := ⟨_, rfl⟩
    have hmq : m q.start = ⟨(h.mem b.start).ptr, (h.mem q.start).size⟩ := by
      rw [hm, Function.update_self]
    have hother : ∀ a, a ≠ q.start → m a = h.mem a := by
      intro a ha
      rw [hm, Function.update_of_ne ha]
    rw [← hm]
    refine ⟨m, rfl, ?_, ?_, fun a haq _ _ => hother a haq⟩
    · rw [left, if_pos heq, List.nil_append]
      refine hL.edit rfl Iff.rfl hpostpos ⟨?_, ?_, ?_⟩ ?_ (fun c hc => hother _ (hbefore c hc).ne)
        hpostok
      · rw [hmq]
        exact hqsize
      · rw [hmq]
        exact hbptr
      · refine hpost.transport fun c hc => hother _ ?_
        have hc' := hbs.1 c hc
        omega
      · exact List.pairwise_cons.mpr ⟨fun c hc => hqs.1 c (List.mem_cons_of_mem _ hc), hbs.2⟩
    · rw [hother _ (by omega)]
      exact hsize
  · have hsize : ¬(h.mem b.start).size = n := fun hs => heq (by rw [← hbsize, hs])
    have hsub : ((h.mem b.start).size - n).toNat = b.units - n.toNat := by
      rw [UInt32.toNat_sub_of_le _ _ (by rw [UInt32.le_iff_toNat_le, hbsize]; exact hle), hbsize]
    have hcarve : b.start + HEADER * ((h.mem b.start).size - n).toNat = (taken b n.toNat).start := by
      rw [hsub]
      rfl
    obtain ⟨t, ht⟩ : ∃ t, t = (taken b n.toNat).start := ⟨_, rfl⟩
    have htstart : t = b.start + 16 * (b.units - n.toNat) := ht
    rw [← ht] at hcarve hok ⊢
    obtain ⟨m₁, hm₁⟩ : ∃ m, m = Function.update h.mem b.start
        ⟨(h.mem b.start).ptr, (h.mem b.start).size - n⟩ := ⟨_, rfl⟩
    obtain ⟨m, hm⟩ : ∃ m, m = Function.update m₁ t ⟨(m₁ t).ptr, n⟩ := ⟨_, rfl⟩
    have hother : ∀ a, a ≠ b.start → a ≠ t → m a = h.mem a := by
      intro a ha hat
      rw [hm, Function.update_of_ne hat, hm₁, Function.update_of_ne ha]
    have hmb : m b.start = ⟨(h.mem b.start).ptr, (h.mem b.start).size - n⟩ := by
      rw [hm, Function.update_of_ne (by omega), hm₁, Function.update_self]
    have hload : load M { h with mem := m₁ } t = .ok (m₁ t) := load_ok (hok heq)
    have hstore : store M { h with mem := m₁ } t ⟨(m₁ t).ptr, n⟩ = .ok { h with mem := m } := by
      rw [hm]
      exact store_ok (hok heq)
    rw [if_neg hsize, store_ok (hL.ok b hb), ok_bind, hcarve, ← hm₁]
    dsimp only
    rw [hload, ok_bind, hstore, ok_bind]
    refine ⟨m, rfl, ?_, ?_, fun a _ hab hat => hother a hab hat⟩
    · rw [left, if_neg heq, List.singleton_append]
      refine hL.edit rfl Iff.rfl (fun c hc => ?_) ⟨?_, ?_, ?_, ?_, ?_⟩ ?_ (fun c hc => ?_)
        fun c hc => ?_
      · rcases List.mem_cons.mp hc with rfl | hc
        · change 0 < b.units - n.toNat
          omega
        · exact hpostpos c hc
      · rw [hother _ (by omega) (by omega)]
        exact hqsize
      · rw [hother _ (by omega) (by omega)]
        exact (linked_append.mp hL.linked).2.2.1
      · change (m b.start).size.toNat = b.units - n.toNat
        rw [hmb, hsub]
      · change (m b.start).ptr = _
        rw [hmb]
        exact hbptr
      · refine hpost.transport fun c hc => ?_
        have hc' := hbs.1 c hc
        exact hother _ (by omega) (by omega)
      · refine List.pairwise_cons.mpr ⟨fun c hc => ?_, List.pairwise_cons.mpr ⟨fun c hc => ?_, hbs.2⟩⟩
        · rcases List.mem_cons.mp hc with rfl | hc
          · exact hqb
          · exact hqs.1 c (List.mem_cons_of_mem _ hc)
        · have hc' := hbs.1 c hc
          change b.start + 16 * (b.units - n.toNat) < c.start
          omega
      · have hc' := hbefore c hc
        exact hother _ (by omega) (by omega)
      · rcases List.mem_cons.mp hc with rfl | hc
        · exact hL.ok b hb
        · exact hpostok c hc
    · rw [hm, Function.update_self]

/-- **The search of `malloc`** along the list ends at the first block that is large enough, or else
behind the list. -/
lemma scan (fuel : ℕ) (hl : Linked h.mem (q :: bs) z) (hne : ∀ b ∈ bs, b.start ≠ h.freep)
    (hok : ∀ b ∈ bs, touches M h.kernel b.start = true) :
    (∃ us p b vs, q :: bs = us ++ p :: b :: vs ∧ n.toNat ≤ b.units ∧
        mallocLoop M (fuel + bs.length) h q.start (first bs z) n = take M h p.start b.start n) ∨
      ((∀ b ∈ bs, b.units < n.toNat) ∧ ∃ us p, q :: bs = us ++ [p] ∧
        mallocLoop M (fuel + bs.length) h q.start (first bs z) n = mallocLoop M fuel h p.start z n) := by
  induction bs generalizing q with
  | nil => exact .inr ⟨fun b hb => absurd hb List.not_mem_nil, [], q, rfl, rfl⟩
  | cons c bs ih =>
    obtain ⟨-, -, hrest⟩ := hl
    have hstep : mallocLoop M (fuel + (c :: bs).length) h q.start c.start n =
        if n ≤ (h.mem c.start).size then take M h q.start c.start n
        else mallocLoop M (fuel + bs.length) h c.start (first bs z) n := by
      rw [List.length_cons, ← Nat.add_assoc, mallocLoop, load_ok (hok c List.mem_cons_self), ok_bind,
        if_neg (hne c List.mem_cons_self), hrest.2.1]
    have hsize : n ≤ (h.mem c.start).size ↔ n.toNat ≤ c.units := by
      rw [UInt32.le_iff_toNat_le, hrest.1]
    rw [first_cons, hstep]
    by_cases hle : n ≤ (h.mem c.start).size
    · rw [if_pos hle]
      exact .inl ⟨[], q, c, bs, rfl, hsize.mp hle, rfl⟩
    · rw [if_neg hle]
      rcases ih hrest (fun b hb => hne b (List.mem_cons_of_mem _ hb))
          fun b hb => hok b (List.mem_cons_of_mem _ hb) with
        ⟨us, p, b, vs, heq, hb, htake⟩ | ⟨hsmall, us, p, heq, hend⟩
      · exact .inl ⟨q :: us, p, b, vs, by rw [heq]; rfl, hb, htake⟩
      · refine .inr ⟨fun b hb => ?_, q :: us, p, by rw [heq]; rfl, hend⟩
        rcases List.mem_cons.mp hb with rfl | hb
        · rw [hsize] at hle
          omega
        · exact hsmall b hb

/-- What `malloc` does when it has been all around the list. -/
def refill (M : Machine κ) (fuel : ℕ) (h : Heap κ) (n : UInt32) : Except Stop (Heap κ × ℕ) := do
  let r ← morecore M fuel h n
  if r.2 = 0 then return (r.1, 0)
  else
    let y ← load M r.1 r.2
    mallocLoop M fuel r.1 r.2 y.ptr n

lemma Listed.base_of_nil (hL : Listed M h (b :: bs)) : b.units = 0 ∧ b.start = M.base := by
  obtain ⟨fs, hfs, -⟩ := hL.base
  obtain ⟨rfl, -⟩ := List.cons.inj hfs
  exact ⟨rfl, rfl⟩

/-- **The loop of `malloc`** ends at a block that is large enough, or asks for memory where there is
none. -/
theorem search (hL : Listed M h L) (hn : 0 < n.toNat) (fuel : ℕ) :
    (∃ us p b vs, L = us ++ p :: b :: vs ∧ n.toNat ≤ b.units ∧
        mallocLoop M (fuel + L.length) h h.freep (h.mem h.freep).ptr n =
          take M h p.start b.start n) ∨
      ((∀ b ∈ L, b.units < n.toNat) ∧
        mallocLoop M (fuel + L.length) h h.freep (h.mem h.freep).ptr n = refill M fuel h n) := by
  obtain ⟨f, hf, hfreep⟩ := hL.freep
  obtain ⟨xs, ys, rfl⟩ := List.append_of_mem hf
  have hlinked := linked_append.mp hL.linked
  have hsorted := List.pairwise_append.mp hL.sorted
  have hsort := List.pairwise_cons.mp hsorted.2.1
  have hfle := start_le_stop f
  have hlen : fuel + (xs ++ f :: ys).length = fuel + 1 + xs.length + ys.length := by
    rw [List.length_append, List.length_cons]
    omega
  have hstart : (h.mem h.freep).ptr = first ys M.base := by
    rw [hfreep]
    exact hlinked.2.2.1
  rw [hstart, hlen, hfreep]
  have hys : ∀ b ∈ ys, b.start ≠ h.freep := by
    intro b hb
    have hfb := hsort.1 b hb
    omega
  have hxs : ∀ b ∈ xs, b.start ≠ h.freep := by
    intro b hb
    have hbf := hsorted.2.2 b hb f List.mem_cons_self
    have hle := start_le_stop b
    omega
  -- from behind `freep` to the end
  rcases scan (n := n) (fuel + 1 + xs.length) hlinked.2 hys (fun b hb =>
      hL.ok b (List.mem_append_right _ (List.mem_cons_of_mem _ hb))) with
    ⟨us, p, b, vs, heq, hb, htake⟩ | ⟨hsmall, us, p, heq, hend⟩
  · refine .inl ⟨xs ++ us, p, b, vs, ?_, hb, htake⟩
    rw [heq, List.append_assoc]
  rw [hend]
  have hp : Linked h.mem (p :: xs) f.start := by
    have hlast := hlinked.2
    rw [heq] at hlast
    obtain ⟨hsize, hptr, -⟩ := (linked_append.mp hlast).2
    refine ⟨hsize, ?_, hlinked.1⟩
    rw [hptr]
    cases xs with
    | nil => exact (Listed.base_of_nil hL).2.symm
    | cons x xs => exact (Listed.base_of_nil hL).2.symm
  have hfirst : first xs f.start = M.base := by
    cases xs with
    | nil => exact (Listed.base_of_nil hL).2
    | cons x xs => exact (Listed.base_of_nil hL).2
  -- from `base` on to `freep`
  rcases scan (n := n) (fuel + 1) hp hxs (fun b hb => hL.ok b (List.mem_append_left _ hb))
    with ⟨us', p', b, vs, heq', hb, htake⟩ | ⟨hsmall', us', p', heq', hend'⟩
  · rw [hfirst] at htake
    rw [htake]
    cases us' with
    | nil =>
      obtain ⟨rfl, rfl⟩ := List.cons.inj heq'
      have hzero := (Listed.base_of_nil hL).1
      omega
    | cons c us' =>
      obtain ⟨-, rfl⟩ := List.cons.inj heq'
      exact .inl ⟨us', p', b, vs ++ f :: ys, by simp, hb, rfl⟩
  rw [hfirst] at hend'
  rw [hend']
  have hfok := hL.ok f (List.mem_append_right _ List.mem_cons_self)
  have hsize : n ≤ (h.mem f.start).size ↔ n.toNat ≤ f.units := by
    rw [UInt32.le_iff_toNat_le, hlinked.2.1]
  rw [mallocLoop, load_ok hfok, ok_bind]
  by_cases hle : n ≤ (h.mem f.start).size
  · rw [if_pos hle]
    cases us' with
    | nil =>
      obtain ⟨-, rfl⟩ := List.cons.inj heq'
      have hzero := (Listed.base_of_nil hL).1
      rw [hsize] at hle
      omega
    | cons c us' =>
      obtain ⟨-, rfl⟩ := List.cons.inj heq'
      exact .inl ⟨us', p', f, ys, by simp, hsize.mp hle, rfl⟩
  · rw [if_neg hle, if_pos hfreep.symm]
    refine .inr ⟨fun b hb => ?_, rfl⟩
    rcases List.mem_append.mp hb with hb | hb
    · exact hsmall' b hb
    · rcases List.mem_cons.mp hb with rfl | hb
      · rw [hsize] at hle
        omega
      · exact hsmall b hb

end Xv6.User.Allot
