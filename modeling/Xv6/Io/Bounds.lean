import Xv6.Io.Faults

/-!
How much a read stores. All kinds of files keep to the range that was asked for, but `readi` takes
a negative count for a large one.
-/

namespace Xv6.Io.Bounds

open Xv6.Data.Effect Xv6.Data.Effect.Eff Xv6.Vm.Memory Xv6.Vm.Copy Xv6.Vm.Space Xv6.Vm.Transfer
  Xv6.Io.Reads Xv6.Io.Stores Xv6.Io.Faults
open Xv6.Disk Xv6.Fs.Content Xv6.Fs.Untouched Xv6.Fs.Sound
open Xv6.Fs.Kernel (FileType)

variable {p : Proc} {env : Others p} {s s' s0 : Sys} {d tot off n fuel : ℕ} {addr dst : UInt64}

/-! ### `readi` -/

/-- What `readi` comes to, which is to store up to `most` bytes. -/
structure Read (p : Proc) (s0 : Sys) (d most : ℕ) (r : ℤ) (s : Sys) : Prop where
  account : Account p s0 d s
  most : s.stored.length ≤ most
  result : 0 ≤ r → r = s.stored.length

lemma bmapAt_spec {bn : ℕ} {Q : BlockNo → Sys → Prop} (hbn : bn < MAXFILE)
    (h : addrOf s.store.block s.ip bn ≠ 0) (hQ : Q (addrOf s.store.block s.ip bn) s) :
    wp Never (bmapAt bn) Q s := by
  rw [bmapAt, wp_bind, wp_look, wp_bind, wp_onStore]
  refine wp_mono (bmap_hit hbn h) ?_
  rintro r store ⟨rfl, rfl⟩
  exact hQ

lemma next_chunk {m : ℕ} {src : ℕ → UInt8} {ram : Ram} {o : Option UInt8} (hd : Next d s dst) :
    Next d { s with ram := ram, stored := s.stored ++ (List.range m).map src, unstored := o }
      (dst + UInt64.ofNat m) := by
  refine ⟨hd.1, ?_⟩
  have hlen : (s.stored ++ (List.range m).map src).length = s.stored.length + m := by
    rw [List.length_append, List.length_map, List.length_range]
  change (dst + UInt64.ofNat m).toNat = (d + (s.stored ++ (List.range m).map src).length) % 2 ^ 64
  rw [UInt64.toNat_add, hd.2, hlen, UInt64.toNat_ofNat']
  omega

lemma readiLoop_spec (h : Account p s0 d s) (hd : Next d s dst) (hlen : s.stored.length = tot)
    (hf : FileOk s.store.block s.ip) (hsize : off + (n - tot) ≤ s.ip.size) (hn : tot ≤ n)
    (hfuel : n - tot ≤ fuel) :
    wp Never (readiLoop p n fuel dst tot off) (fun r s' => Read p s0 d n r s' ∧
      tot ≤ s'.stored.length ∧ (tot < n → (tot < s'.stored.length ↔ Takes s.ram p dst))) s := by
  induction fuel generalizing s dst tot off with
  | zero => exact ⟨⟨h, by omega, fun _ => by rw [hlen]⟩, hlen.ge, fun hlt => by omega⟩
  | succ fuel ih =>
    rw [readiLoop, wp_ite]
    refine ⟨fun hlt => ?_, fun hge => ⟨⟨h, by omega, fun _ => by rw [hlen]⟩, hlen.ge,
      fun hlt => absurd hlt hge⟩⟩
    have hB : BSIZE = 1024 := rfl
    have hmax := hf.size
    have hbn : off / BSIZE < MAXFILE := by
      rw [Nat.div_lt_iff_lt_mul (by decide)]
      omega
    have haddr : addrOf s.store.block s.ip (off / BSIZE) ≠ 0 := by
      refine hf.filled _ ?_
      have := Nat.div_mul_le_self off BSIZE
      omega
    rw [wp_bind]
    refine bmapAt_spec hbn haddr ?_
    rw [if_neg haddr, wp_bind, wp_look]
    have hpos : 0 < chunk n tot off := chunk_pos hlt
    have hle : chunk n tot off ≤ n - tot := Nat.min_le_left _ _
    have hsmall : chunk n tot off ≤ 1024 := (Nat.min_le_right _ _).trans (Nat.sub_le _ _)
    have hm : (UInt64.ofNat (chunk n tot off)).toNat = chunk n tot off := by
      rw [UInt64.toNat_ofNat']
      omega
    have hlen0 : 0 < UInt64.ofNat (chunk n tot off) := by
      change (0 : ℕ) < (UInt64.ofNat (chunk n tot off)).toNat
      omega
    refine wp_call (either_copyout_spec h hd) ?_
    rintro r s1 ⟨hacc, m, ram, hcase, htakes, rfl⟩
    have htakes := htakes hlen0
    have hgrow : ∀ src : ℕ → UInt8,
        (s.stored ++ (List.range m).map src).length = tot + m := fun src => by
      rw [List.length_append, List.length_map, List.length_range, hlen]
    rw [hm] at hcase
    rcases hcase with ⟨rfl, rfl⟩ | ⟨rfl, hlt'⟩
    · rw [if_neg (by decide)]
      have hrest : off + chunk n tot off + (n - (tot + chunk n tot off)) ≤ s.ip.size := by omega
      have hfew : n - (tot + chunk n tot off) ≤ fuel := by omega
      refine wp_mono (ih hacc (next_chunk hd) (hgrow _) hf hrest (by omega) hfew) ?_
      rintro r s' ⟨hread, hmore, -⟩
      exact ⟨hread, by omega, fun _ => ⟨fun _ => htakes.mp hpos, fun _ => by omega⟩⟩
    · rw [if_pos rfl, wp_pure]
      refine ⟨⟨hacc, ?_, fun hr => absurd hr (by decide)⟩, ?_, fun _ => ?_⟩
      · exact (hgrow _).trans_le (by omega)
      · exact (Nat.le_add_right _ _).trans (hgrow _).ge
      · rw [← htakes]
        change tot < (s.stored ++ (List.range m).map _).length ↔ _
        rw [hgrow]
        omega

/-- How much of the file `readi` goes for. -/
def wanted (size off n : ℕ) : ℕ :=
  if off > size ∨ (off + n) % 2 ^ 32 < off then 0 else if off + n > size then size - off else n

lemma readiTo_spec (h : Account p s0 d s) (hd : Next d s dst) (hs : s.stored = [])
    (hf : FileOk s.store.block s.ip) :
    wp Never (readiTo p dst off n) (fun r s' => Read p s0 d (wanted s.ip.size off n) r s' ∧
      (0 < wanted s.ip.size off n → (s'.stored ≠ [] ↔ Takes s.ram p dst))) s := by
  have hlen : s.stored.length = 0 := by rw [hs]; rfl
  rw [readiTo, wp_bind, wp_look, wp_ite]
  refine ⟨fun hpast => ?_, fun hin => ?_⟩
  · have hz : wanted s.ip.size off n = 0 := if_pos hpast
    rw [wp_pure, hz]
    exact ⟨⟨h, hlen.le, fun _ => by rw [hlen]; rfl⟩, fun hlt => absurd hlt (lt_irrefl 0)⟩
  · have hw : wanted s.ip.size off n = if off + n > s.ip.size then s.ip.size - off else n :=
      if_neg hin
    rw [hw]
    have hle : off ≤ s.ip.size := by omega
    refine wp_mono (readiLoop_spec h hd hlen hf ?_ (Nat.zero_le _) (Nat.sub_le _ _)) ?_
    · split_ifs <;> omega
    · rintro r s' ⟨hread, -, htakes⟩
      refine ⟨hread, fun hlt => ?_⟩
      rw [← htakes hlt, List.length_pos_iff]

/-! ### `fileread` -/

/-- As many bytes as were asked for are stored at most, all in the range, and returned as a count. -/
def Bounded (p : Proc) (s : Sys) (addr : UInt64) (n : Int32) (r : ℤ) (s' : Sys) : Prop :=
  Account p s addr.toNat s' ∧ (s'.stored.length : ℤ) ≤ max n.toInt 0 ∧
    (0 ≤ r → r = s'.stored.length)

/-- The count is negative, and `f->off` is before the end of the file and so small that the sum of
the two is negative as well; and something can be stored. -/
def Overrun (env : Others p) (f : File) (s : Sys) (addr : UInt64) (n : Int32) : Prop :=
  f.readable = true ∧ f.type = .inode ∧ n.toInt < 0 ∧
    (slept env s).off.toNat < (slept env s).ip.size ∧ (slept env s).off.toNat + n.toInt < 0 ∧
    Takes (slept env s).ram p addr

lemma toNat_uint (n : Int32) :
    (n.toUInt32.toNat : ℤ) = if n.toInt < 0 then n.toInt + 2 ^ 32 else n.toInt := by
  have h : n.toInt = if 2 * n.toUInt32.toNat < 2 ^ 32 then (n.toUInt32.toNat : ℤ)
      else (n.toUInt32.toNat : ℤ) - (2 ^ 32 : ℕ) := BitVec.toInt_eq_toNat_cond _
  have hlt := n.toUInt32.toNat_lt
  rw [h]
  split_ifs <;> omega

lemma bounded_read {r : ℤ} {n : Int32} {most : ℕ} (h : Read p s addr.toNat most r s')
    (hm : (most : ℤ) ≤ max n.toInt 0) : Bounded p s addr n r s' := by
  have := h.most
  exact ⟨h.account, by omega, h.result⟩

lemma consoleread_spec {n : Int32} (h : Sound s.ram p) (hs : Fresh s) :
    wp Asleep (consoleread env fuel addr n) (fun r s' => Bounded p s addr n r s') s := by
  have hnext : Next addr.toNat s addr := by
    refine ⟨addr.toNat_lt, ?_⟩
    rw [hs.stored, List.length_nil, Nat.add_zero, Nat.mod_eq_of_lt addr.toNat_lt]
  have hzero : n.toInt - n.toInt = s.stored.length := by rw [hs.stored, sub_self]; rfl
  have hstart : (s.stored.length : ℤ) = 0 := by rw [hs.stored]; rfl
  refine wp_call (lineLoop_spec fuel (account_start h hs.stored) hnext
    (hs.taken.trans hs.stored.symm) hs.unstored hzero) ?_
  rintro (r | rest) s' ⟨hr, hread⟩
  · have hmost := hread.most
    exact ⟨hread.account, by omega, fun hpos => absurd hpos (by rw [hr]; decide)⟩
  · have hmost := hread.most
    exact ⟨hread.account, by omega, fun _ => hr⟩

lemma inode_read {f : File} {n : Int32} (hr : f.readable = true) (ht : f.type = .inode)
    (h : Sound s.ram p) (hs : Fresh s) (hf : FileOk s.store.block s.ip) :
    wp Never (fileread env f fuel addr n) (fun r s' =>
      Read p s addr.toNat (wanted (slept env s).ip.size (slept env s).off.toNat n.toUInt32.toNat)
        r s' ∧ (0 < wanted (slept env s).ip.size (slept env s).off.toNat n.toUInt32.toNat →
          (s'.stored ≠ [] ↔ Takes (slept env s).ram p addr))) s := by
  have hk := kept_slept env s
  have hst : (slept env s).stored = [] := hk.stored.trans hs.stored
  have hnext : Next addr.toNat (slept env s) addr := by
    refine ⟨addr.toNat_lt, ?_⟩
    rw [hst, List.length_nil, Nat.add_zero, Nat.mod_eq_of_lt addr.toNat_lt]
  unfold fileread
  rw [if_neg (by rw [hr]; decide), ht, wp_bind, sleep, wp_change, wp_bind, wp_look]
  refine wp_call (readiTo_spec ((account_start h hs.stored).keep hk) hnext hst (hk.file hf)) ?_
  rintro r s' ⟨hread, htakes⟩
  change wp Never (if r > 0 then _ else _) _ s'
  rw [wp_ite]
  refine ⟨fun _ => ?_, fun _ => ⟨hread, htakes⟩⟩
  rw [wp_bind, wp_change]
  exact ⟨⟨⟨hread.account.sound, hread.account.arrived, hread.account.below⟩, hread.most,
    hread.result⟩, htakes⟩

lemma wanted_nonneg {n : Int32} {size : ℕ} {off : UInt32} (hn : 0 ≤ n.toInt) :
    (wanted size off.toNat n.toUInt32.toNat : ℤ) ≤ max n.toInt 0 := by
  have hu := toNat_uint n
  rw [if_neg (by omega)] at hu
  unfold wanted
  split_ifs <;> omega

/-- A negative count is more than the rest of the file, unless the sum with `off` wraps. -/
lemma wanted_neg {n : Int32} {size : ℕ} {off : UInt32} (hn : n.toInt < 0)
    (hsize : size ≤ MAXFILE * BSIZE) : 0 < wanted size off.toNat n.toUInt32.toNat ↔
      off.toNat < size ∧ (off.toNat : ℤ) + n.toInt < 0 := by
  have hu := toNat_uint n
  rw [if_pos hn] at hu
  have hlt := n.toUInt32.toNat_lt
  have hoff := off.toNat_lt
  have hmin : -2 ^ 31 ≤ n.toInt := n.le_toInt
  have hmax : MAXFILE * BSIZE = 274432 := rfl
  unfold wanted
  split_ifs <;> omega

/-- **A read stores no more than it was asked for**, except where it is asked for a negative count
of the bytes of an inode. -/
theorem read_bounded (env : Others p) (f : File) (s : Sys) (addr : UInt64) (n : Int32)
    (h : Sound s.ram p) (hs : Fresh s) (hf : FileOk s.store.block s.ip) :
    (∀ fuel r s', fileread env f fuel addr n s = .ok s' r → Bounded p s addr n r s') ↔
      ¬Overrun env f s addr n := by
  have hsize : (slept env s).ip.size ≤ MAXFILE * BSIZE := ((kept_slept env s).file hf).size
  constructor
  · rintro hall ⟨hr, ht, hn, hoff, hsum, htakes⟩
    have hspec : wp Never (fileread env f 0 addr n) (fun r s' => Read p s addr.toNat (wanted
        (slept env s).ip.size (slept env s).off.toNat n.toUInt32.toNat) r s' ∧
        (0 < wanted (slept env s).ip.size (slept env s).off.toNat n.toUInt32.toNat →
          (s'.stored ≠ [] ↔ Takes (slept env s).ram p addr))) s := inode_read hr ht h hs hf
    cases hrun : fileread env f 0 addr n s with
    | panic msg => exact (hspec.panic hrun).elim
    | ok s' r =>
      have hne := ((hspec.ok hrun).2 ((wanted_neg hn hsize).mpr ⟨hoff, hsum⟩)).mpr htakes
      have hbound := (hall 0 r s' hrun).2.1
      have hlen := List.length_pos_iff.mpr hne
      omega
  · intro hno fuel r s' hrun
    by_cases hr : f.readable = true
    · cases ht : f.type with
      | pipe =>
        unfold fileread at hrun
        rw [if_neg (by rw [hr]; decide), ht] at hrun
        have hread := (piperead_spec h hs).ok hrun
        have hmost := hread.most
        exact ⟨hread.account, by omega, hread.result⟩
      | device =>
        unfold fileread at hrun
        rw [if_neg (by rw [hr]; decide), ht] at hrun
        change (if _ then _ else _ : Eff Sys ℤ) s = _ at hrun
        split_ifs at hrun
        · injection hrun with hs' hr'
          rw [← hs', ← hr']
          refine ⟨account_start h hs.stored, ?_, fun hbad => absurd hbad (by decide)⟩
          rw [hs.stored]
          exact le_max_right _ _
        · exact (consoleread_spec h hs).ok hrun
      | none =>
        unfold fileread at hrun
        rw [if_neg (by rw [hr]; decide), ht] at hrun
        cases hrun
      | inode =>
        obtain ⟨hread, htakes⟩ := (inode_read hr ht h hs hf).ok hrun
        by_cases hn : 0 ≤ n.toInt
        · exact bounded_read hread (wanted_nonneg hn)
        · by_cases hw : 0 < wanted (slept env s).ip.size (slept env s).off.toNat n.toUInt32.toNat
          · obtain ⟨hoff, hsum⟩ := (wanted_neg (by omega) hsize).mp hw
            have hnil : s'.stored = [] := by
              by_contra hne
              exact hno ⟨hr, ht, by omega, hoff, hsum, (htakes hw).mp hne⟩
            refine ⟨hread.account, ?_, hread.result⟩
            rw [hnil]
            exact le_max_right _ _
          · refine bounded_read hread ?_
            have hz : wanted (slept env s).ip.size (slept env s).off.toNat n.toUInt32.toNat = 0 := by
              omega
            rw [hz]
            exact le_max_right _ _
    · unfold fileread at hrun
      rw [if_pos (Bool.not_eq_true _ ▸ hr)] at hrun
      injection hrun with hs' hr'
      rw [← hs', ← hr']
      refine ⟨account_start h hs.stored, ?_, fun hbad => absurd hbad (by decide)⟩
      rw [hs.stored]
      exact le_max_right _ _

/-! ### A file of three bytes -/

/-- Its inode, whose first block is block 5. -/
def small : Dinode := { Dinode.free with type := T_FILE, size := 3, addrs := fun i =>
  if i = 0 then 5 else 0 }

def opened : Sys := { typed with ip := small }

def inodeFile : File := ⟨.inode, true, 0⟩

lemma fileOk_opened : FileOk opened.store.block opened.ip := by
  refine ⟨fun bn hbn => ?_, by decide⟩
  have hlt : bn * 1024 < 3 := hbn
  obtain rfl : bn = 0 := by omega
  decide

theorem read_bounded_opened : ∃ s', fileread (alone young) inodeFile 0 0 2 opened = .ok s' 2 ∧
    Bounded young opened 0 2 2 s' := by
  have hval : value (fileread (alone young) inodeFile 0 0 2) opened = some 2 := by decide +kernel
  refine ⟨_, ok_of_value hval, (read_bounded (alone young) inodeFile opened 0 2 sound_young
    ⟨rfl, rfl, rfl⟩ fileOk_opened).mpr ?_ 0 2 _ (ok_of_value hval)⟩
  rintro ⟨-, -, hn, -⟩
  exact absurd hn (by decide)

/-- A count of -1 reads the whole file. -/
theorem read_unbounded : Sound opened.ram young ∧ Fresh opened ∧
    ∃ s', fileread (alone young) inodeFile 0 0 (-1) opened = .ok s' 3 ∧ s'.stored.length = 3 ∧
      ¬Bounded young opened 0 (-1) 3 s' := by
  have hval : value (fileread (alone young) inodeFile 0 0 (-1)) opened = some 3 := by
    decide +kernel
  have hlen : (after (fileread (alone young) inodeFile 0 0 (-1)) opened).stored.length = 3 := by
    decide +kernel
  refine ⟨sound_young, ⟨rfl, rfl, rfl⟩, _, ok_of_value hval, hlen, fun hb => ?_⟩
  have hle := hb.2.1
  rw [hlen] at hle
  exact absurd hle (by decide)

end Xv6.Io.Bounds
