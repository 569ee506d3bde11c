import Xv6.Io.Reads

/-!
What a read has stored, and what each of its steps adds to that.
-/

namespace Xv6.Io.Stores

open Xv6.Data.Effect Xv6.Data.Effect.Eff Xv6.Vm.Paging Xv6.Vm.Memory Xv6.Vm.Copy Xv6.Vm.Space
  Xv6.Vm.Transfer Xv6.Io.Reads
open Xv6.Disk Xv6.Fs.Content Xv6.Fs.Sound

variable {α : Type} {s s' s0 : Sys} {p : Proc} {env : Others p} {d m n : ℕ} {dst len : UInt64}
  {src src' : ℕ → UInt8} {may : String → Prop}

lemma wp_onRam {x : Eff Ram α} {Q : α → Sys → Prop} :
    wp may (onRam x) Q s ↔ wp may x (fun a ram => Q a { s with ram := ram }) s.ram := by
  unfold wp onRam
  cases x s.ram <;> rfl

lemma wp_onStore {x : Eff Store α} {Q : α → Sys → Prop} :
    wp may (onStore x) Q s ↔ wp may x (fun a store => Q a { s with store := store }) s.store := by
  unfold wp onStore
  cases x s.store <;> rfl

/-- User memory from `d` on holds what has been stored, and is otherwise as it was in `s0`. -/
structure Account (p : Proc) (s0 : Sys) (d : ℕ) (s : Sys) : Prop where
  sound : Sound s.ram p
  arrived : Arrived s0.ram s.ram p d s.stored.length (fun j => s.stored.getD j 0)
  /-- What has been stored is below `MAXVA`. -/
  below : s.stored = [] ∨ d + s.stored.length ≤ 2 ^ 38

lemma account_start (h : Sound s.ram p) (hs : s.stored = []) : Account p s d s := by
  refine ⟨h, fun va => ?_, .inl hs⟩
  rw [hs, List.length_nil, if_neg (by omega)]

lemma Account.keep (h : Account p s0 d s) (hk : Kept p s s') : Account p s0 d s' := by
  refine ⟨hk.sound h.sound, fun va => ?_, ?_⟩
  · rw [hk.view, hk.stored]
    exact h.arrived va
  · rw [hk.stored]
    exact h.below

lemma kept_slept (env : Others p) (s : Sys) : Kept p s (slept env s) := by
  obtain ⟨h1, h2, h3, h4, h5, h6⟩ := env.keeps s.naps s
  exact ⟨h1, h2, h3, h4, h5, h6⟩

/-- More bytes after those that have been stored. -/
lemma Account.more (h : Account p s0 d s) {ram : Ram} {o : Option UInt8} (hs : Sound ram p)
    (ha : Arrived s.ram ram p (d + s.stored.length) m src)
    (hb : m = 0 ∨ d + s.stored.length + m ≤ 2 ^ 38) :
    Account p s0 d { s with ram := ram, stored := s.stored ++ (List.range m).map src,
                            unstored := o } := by
  have hlen : (s.stored ++ (List.range m).map src).length = s.stored.length + m := by
    rw [List.length_append, List.length_map, List.length_range]
  refine ⟨hs, fun va => ?_, ?_⟩
  · change view ram p va = if d ≤ va ∧ va < d + (s.stored ++ (List.range m).map src).length then
      some ((s.stored ++ (List.range m).map src).getD (va - d) 0) else _
    rw [ha va, h.arrived va, hlen]
    by_cases hnew : d + s.stored.length ≤ va ∧ va < d + s.stored.length + m
    · rw [if_pos hnew, if_pos (by omega), List.getD_append_right _ _ _ _ (by omega),
        List.getD_eq_getElem _ _ (by rw [List.length_map, List.length_range]; omega),
        List.getElem_map, List.getElem_range]
      congr 2
      omega
    · rw [if_neg hnew]
      by_cases hold : d ≤ va ∧ va < d + s.stored.length
      · rw [if_pos hold, if_pos (by omega), List.getD_append _ _ _ _ (by omega)]
      · rw [if_neg hold, if_neg (by omega)]
  · change s.stored ++ (List.range m).map src = [] ∨ d + (s.stored ++ (List.range m).map src).length ≤ _
    rw [hlen]
    rcases hb with rfl | hb
    · rcases h.below with hnil | hle
      · exact .inl (by rw [hnil]; rfl)
      · exact .inr (by omega)
    · exact .inr (by omega)

/-- Where the next byte goes. -/
def Next (d : ℕ) (s : Sys) (dst : UInt64) : Prop :=
  d < 2 ^ 64 ∧ dst.toNat = (d + s.stored.length) % 2 ^ 64

lemma Account.next (h : Account p s0 d s) (hd : Next d s dst) : dst.toNat = d + s.stored.length := by
  obtain ⟨hlt, heq⟩ := hd
  rw [heq]
  rcases h.below with hnil | hle
  · rw [hnil, List.length_nil, Nat.add_zero, Nat.mod_eq_of_lt hlt]
  · omega

/-- What `either_copyout` comes to. -/
def Put (s s' : Sys) (p : Proc) (dst len : UInt64) (src : ℕ → UInt8) (r : ℤ) : Prop :=
  ∃ m ram, (r = 0 ∧ m = len.toNat ∨ r = -1 ∧ m < len.toNat) ∧
    (0 < len → (0 < m ↔ Takes s.ram p dst)) ∧
    s' = { s with ram := ram, stored := s.stored ++ (List.range m).map src,
                  unstored := if r = -1 then some (src m) else s.unstored }

/-- **Storing** adds to what has been stored. -/
theorem either_copyout_spec (h : Account p s0 d s) (hd : Next d s dst) :
    wp may (either_copyout p dst src len)
      (fun r s' => Account p s0 d s' ∧ Put s s' p dst len src r) s := by
  unfold either_copyout
  rw [wp_bind, wp_onRam]
  have hspec : wp may (copyout p p.pagetable dst src len) (fun r ram =>
      CopiedOut s.ram ram p dst.toNat len.toNat src r.1 r.2 ∧
        (0 < len → (0 < r.2 ↔ Takes s.ram p dst))) s.ram := by
    by_cases hn : 0 < len
    · refine wp_mono (wp_and (copyout_spec h.sound) (copyout_takes h.sound hn :
        wp may (copyout p p.pagetable dst src len) _ s.ram)) ?_
      rintro r ram ⟨h1, h2⟩
      exact ⟨h1, fun _ => h2⟩
    · exact wp_mono (copyout_spec h.sound) fun r ram hr => ⟨hr, fun hlt => absurd hlt hn⟩
  refine wp_mono hspec ?_
  rintro r ram ⟨hc, htakes⟩
  rw [wp_bind, wp_change, wp_pure]
  have harr := hc.arrived
  rw [h.next hd] at harr
  have hbelow : r.2 = 0 ∨ d + s.stored.length + r.2 ≤ 2 ^ 38 := by
    by_cases hz : r.2 = 0
    · exact .inl hz
    · refine .inr ?_
      have hlast := harr (d + s.stored.length + (r.2 - 1))
      rw [if_pos (by omega)] at hlast
      have hlt : (d + s.stored.length + (r.2 - 1)) / 4096 < USER := by
        by_cases hM : Mapped ram p ((d + s.stored.length + (r.2 - 1)) / 4096)
        · exact hc.change.sound.mapped_lt hM
        · by_cases hL : Lazy ram p ((d + s.stored.length + (r.2 - 1)) / 4096)
          · exact hc.change.sound.lazy_lt hL
          · rw [view_none hM hL] at hlast
            cases hlast
      rw [USER_eq] at hlt
      omega
  refine ⟨h.more hc.change.sound harr hbelow, r.2, ram, ?_, htakes, rfl⟩
  rcases hc.result with hr | hr
  · exact .inl ⟨hr, hc.all.mp hr⟩
  · refine .inr ⟨hr, lt_of_le_of_ne hc.le fun heq => ?_⟩
    rw [hc.all.mpr heq] at hr
    exact absurd hr (by decide)

/-- What `either_copyout` comes to for one byte. -/
def PutByte (s s' : Sys) (p : Proc) (dst : UInt64) (c : UInt8) (r : ℤ) : Prop :=
  ∃ ram, (r = 0 ∧ Takes s.ram p dst ∧ s' = { s with ram := ram, stored := s.stored ++ [c] }) ∨
    (r = -1 ∧ ¬Takes s.ram p dst ∧ s' = { s with ram := ram, unstored := some c })

lemma put_byte {c : UInt8} (h : Account p s0 d s) (hd : Next d s dst) :
    wp may (either_copyout p dst (fun _ => c) 1)
      (fun r s' => Account p s0 d s' ∧ PutByte s s' p dst c r) s := by
  refine wp_mono (either_copyout_spec h hd) ?_
  rintro r s' ⟨hacc, m, ram, hm, htakes, rfl⟩
  refine ⟨hacc, ram, ?_⟩
  have hone : (1 : UInt64).toNat = 1 := rfl
  have htakes := htakes (by decide)
  rcases hm with ⟨rfl, rfl⟩ | ⟨rfl, hm⟩
  · exact .inl ⟨rfl, htakes.mp (by decide), rfl⟩
  · rw [hone] at hm
    obtain rfl : m = 0 := by omega
    refine .inr ⟨rfl, fun ht => absurd (htakes.mpr ht) (lt_irrefl 0), ?_⟩
    rw [if_pos rfl, List.range_zero, List.map_nil, List.append_nil]

/-- The byte after the one that has been stored. -/
lemma next_succ {c : UInt8} {ram : Ram} (hd : Next d s dst) :
    Next d { s with ram := ram, stored := s.stored ++ [c] } (dst + 1) := by
  refine ⟨hd.1, ?_⟩
  change (dst + 1).toNat = (d + (s.stored ++ [c]).length) % 2 ^ 64
  rw [UInt64.toNat_add, hd.2, List.length_append]
  change ((d + s.stored.length) % 2 ^ 64 + 1) % 2 ^ 64 = (d + (s.stored.length + 1)) % 2 ^ 64
  omega

/-- Nothing has been read yet. -/
structure Fresh (s : Sys) : Prop where
  taken : s.taken = []
  stored : s.stored = []
  unstored : s.unstored = none

lemma Kept.refl (p : Proc) (s : Sys) : Kept p s s := ⟨id, fun _ => rfl, id, rfl, rfl, rfl⟩

lemma Kept.trans {s'' : Sys} (h : Kept p s s') (h' : Kept p s' s'') : Kept p s s'' :=
  ⟨fun hs => h'.sound (h.sound hs), fun va => (h'.view va).trans (h.view va),
    fun hf => h'.file (h.file hf), h'.taken.trans h.taken, h'.stored.trans h.stored,
    h'.unstored.trans h.unstored⟩

/-- The only way in which a call does not return is to sleep for ever. -/
def Asleep (msg : String) : Prop := msg = "asleep"

lemma emptyLoop_spec (fuel : ℕ) : wp Asleep (emptyLoop env fuel) (fun _ s' => Kept p s s') s := by
  induction fuel generalizing s with
  | zero => exact rfl
  | succ fuel ih =>
    rw [emptyLoop, wp_bind, wp_look, wp_ite]
    refine ⟨fun _ => ?_, fun _ => Kept.refl p s⟩
    rw [wp_bind, killed, wp_look, wp_ite]
    refine ⟨fun _ => Kept.refl p s, fun _ => ?_⟩
    rw [wp_bind, sleep, wp_change]
    exact wp_mono ih fun _ s' hk => Kept.trans (kept_slept env s) hk

end Xv6.Io.Stores
