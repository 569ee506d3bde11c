import Xv6.Io.Stores

/-!
Reads that come to a byte of the destination that cannot be written to. `piperead` looks at the
next byte and takes it out after it has been stored; `consoleread` takes it out before.
-/

namespace Xv6.Io.Faults

open Xv6.Data.Effect Xv6.Data.Effect.Eff Xv6.Vm.Memory Xv6.Vm.Copy Xv6.Vm.Space Xv6.Vm.Transfer
  Xv6.Io.Reads Xv6.Io.Stores
open Xv6.Data.Ring (index)
open Xv6.Ipc.Waits (place ctrlD)
open Xv6.Disk Xv6.Fs.Content

/-- The next byte of the pipe. -/
def pipeByte (s : Sys) : UInt8 := UInt8.ofBitVec (s.pipe.data (index s.pipe.nread))

/-- The next byte of the console. -/
def consByte (s : Sys) : UInt8 := UInt8.ofBitVec (s.cons.buf (place s.cons.r))

def EOF : UInt8 := UInt8.ofBitVec ctrlD

variable {p : Proc} {env : Others p} {s s' s0 : Sys} {d i left : ℕ} {addr dst : UInt64} {n target : ℤ}

/-! ### `piperead` -/

/-- What `piperead` comes to when it has stored what it took. -/
structure PipeRead (p : Proc) (s0 : Sys) (d : ℕ) (most : ℕ) (r : ℤ) (s : Sys) : Prop where
  account : Account p s0 d s
  taken : s.taken = s.stored
  most : s.stored.length ≤ most
  result : 0 ≤ r → r = s.stored.length
  next : ∀ c, s.unstored = some c → s.pipe.nread ≠ s.pipe.nwrite ∧ pipeByte s = c

lemma next_add (hi : s.stored.length = i) : Next addr.toNat s (addr + UInt64.ofNat i) := by
  refine ⟨addr.toNat_lt, ?_⟩
  rw [UInt64.toNat_add, hi, UInt64.toNat_ofNat']
  omega

lemma copyLoop_spec (h : Account p s0 addr.toNat s) (hi : s.stored.length = i)
    (ht : s.taken = s.stored) (hu : s.unstored = none) :
    wp Asleep (copyLoop p addr left i) (PipeRead p s0 addr.toNat (i + left)) s := by
  induction left generalizing s i with
  | zero =>
    exact ⟨h, ht, by omega, fun _ => by rw [hi], fun c hc => by rw [hu] at hc; cases hc⟩
  | succ left ih =>
    rw [copyLoop, wp_bind, wp_look, wp_ite]
    refine ⟨fun _ => ?_, fun hne => ?_⟩
    · rw [wp_pure]
      exact ⟨h, ht, by omega, fun _ => by rw [hi], fun c hc => by rw [hu] at hc; cases hc⟩
    refine wp_call (put_byte h (next_add hi)) ?_
    rintro r s1 ⟨hacc, ram, ⟨rfl, -, rfl⟩ | ⟨rfl, -, rfl⟩⟩
    · rw [if_neg (by decide), wp_bind, wp_change]
      have hlen : (s.stored ++ [pipeByte s]).length = i + 1 := by
        rw [List.length_append, hi]
        rfl
      have hacc' : Account p s0 addr.toNat
          (Sys.advance (pipeByte s) { s with ram := ram, stored := s.stored ++ [pipeByte s] }) :=
        ⟨hacc.sound, hacc.arrived, hacc.below⟩
      have hgo := ih hacc' hlen (by rw [Sys.advance, ht]) hu
      rw [Nat.add_right_comm, Nat.add_assoc] at hgo
      exact hgo
    · rw [if_pos rfl, wp_pure]
      refine ⟨hacc, ht, ?_, fun hr => ?_, fun c hc => ⟨hne, Option.some.inj hc⟩⟩
      · change s.stored.length ≤ _
        omega
      · split_ifs at hr ⊢ with hz
        · exact absurd hr (by decide)
        · exact congrArg Nat.cast hi.symm

theorem piperead_spec {fuel : ℕ} {n : Int32} (h : Sound s.ram p) (hs : Fresh s) :
    wp Asleep (piperead env fuel addr n) (PipeRead p s addr.toNat n.toInt.toNat) s := by
  unfold piperead
  refine wp_call (emptyLoop_spec fuel) fun dead s1 hk => ?_
  have hacc := (account_start h hs.stored).keep hk (d := addr.toNat)
  have hst : s1.stored = [] := hk.stored.trans hs.stored
  have hta : s1.taken = s1.stored := by
    rw [hst]
    exact hk.taken.trans hs.taken
  have hun : s1.unstored = none := hk.unstored.trans hs.unstored
  rw [wp_ite]
  refine ⟨fun _ => ?_, fun _ => ?_⟩
  · rw [wp_pure]
    refine ⟨hacc, hta, ?_, fun hr => absurd hr (by decide), fun c hc => by rw [hun] at hc; cases hc⟩
    rw [hst]
    exact Nat.zero_le _
  · have hgo : wp Asleep (copyLoop p addr n.toInt.toNat 0)
        (PipeRead p s addr.toNat (0 + n.toInt.toNat)) s1 :=
      copyLoop_spec hacc (by rw [hst]; rfl) hta hun
    rw [Nat.zero_add] at hgo
    exact hgo

/-! ### `consoleread` -/

/-- The read comes to a byte, before the end of the line and the end of the file, whose place in
user memory cannot be written to. -/
inductive Faults (env : Others p) : Sys → UInt64 → ℤ → Prop
  | nap {s : Sys} {dst : UInt64} {n : ℤ} (hn : 0 < n) (he : s.cons.r = s.cons.w)
      (hk : env.killed s.naps = false) (h : Faults env (slept env s) dst n) : Faults env s dst n
  | next {s s' : Sys} {dst : UInt64} {n : ℤ} (hn : 0 < n) (he : s.cons.r ≠ s.cons.w)
      (hd : consByte s ≠ EOF) (hl : consByte s ≠ 10)
      (hc : either_copyout p dst (fun _ => consByte s) 1 (s.take (consByte s)) = .ok s' 0)
      (h : Faults env s' (dst + 1) (n - 1)) : Faults env s dst n
  | fault {s : Sys} {dst : UInt64} {n : ℤ} (hn : 0 < n) (he : s.cons.r ≠ s.cons.w)
      (hd : consByte s ≠ EOF) (hf : ¬Takes s.ram p dst) : Faults env s dst n

/-- What `consoleread` comes to from `start`, where it stores at `dst` what is left of `target`. -/
structure ConsRead (env : Others p) (s0 : Sys) (d : ℕ) (start : Sys) (dst : UInt64) (n : ℤ)
    (s : Sys) : Prop where
  account : Account p s0 d s
  most : (s.stored.length : ℤ) ≤ start.stored.length + max n 0
  whole : s.unstored = none → s.taken = s.stored ∨ s.taken = [EOF] ∧ s.stored = []
  lost : ∀ c, s.unstored = some c → s.taken = s.stored ++ [c] ∧ Faults env start dst n

/-- What its loops come to. -/
def LineRead (env : Others p) (s0 : Sys) (d : ℕ) (start : Sys) (dst : UInt64) (target n : ℤ) :
    Except ℤ ℤ → Sys → Prop
  | .error r, s => r = -1 ∧ ConsRead env s0 d start dst n s
  | .ok rest, s => target - rest = s.stored.length ∧ ConsRead env s0 d start dst n s

lemma take_account {c : UInt8} (h : Account p s0 d s) : Account p s0 d (s.take c) :=
  ⟨h.sound, h.arrived, h.below⟩

lemma lineLoop_spec (fuel : ℕ) (h : Account p s0 d s) (hd : Next d s dst) (ht : s.taken = s.stored)
    (hu : s.unstored = none) (hn : target - n = s.stored.length) :
    wp Asleep (lineLoop env target fuel dst n) (LineRead env s0 d s dst target n) s := by
  induction fuel generalizing s dst n with
  | zero => exact rfl
  | succ fuel ih =>
    have hsame : ConsRead env s0 d s dst n s :=
      ⟨h, by omega, fun _ => .inl ht, fun c hc => by rw [hu] at hc; cases hc⟩
    rw [lineLoop, wp_ite]
    refine ⟨fun hpos => ?_, fun _ => ⟨hn, hsame⟩⟩
    rw [wp_bind, wp_look, wp_ite]
    refine ⟨fun hempty => ?_, fun hne => ?_⟩
    · rw [wp_bind, killed, wp_look, wp_ite]
      refine ⟨fun _ => ⟨rfl, hsame⟩, fun halive => ?_⟩
      rw [wp_bind, sleep, wp_change]
      have hk := kept_slept env s
      have hst := hk.stored
      refine wp_mono (ih (h.keep hk) ⟨hd.1, by rw [hst]; exact hd.2⟩
        (by rw [hk.taken, hst]; exact ht) (hk.unstored.trans hu) (by rw [hst]; exact hn)) ?_
      have hrest : ∀ s', ConsRead env s0 d (slept env s) dst n s' → ConsRead env s0 d s dst n s' :=
        fun s' hr => ⟨hr.account, by rw [← hst]; exact hr.most, hr.whole, fun c hc =>
          ⟨(hr.lost c hc).1, .nap hpos hempty (Bool.not_eq_true _ ▸ halive) (hr.lost c hc).2⟩⟩
      rintro (r | rest) s' ⟨h1, h2⟩
      · exact ⟨h1, hrest s' h2⟩
      · exact ⟨h1, hrest s' h2⟩
    · rw [wp_bind, wp_change]
      change wp Asleep (if consByte s = EOF then _ else _) _ (s.take (consByte s))
      rw [wp_ite]
      refine ⟨fun heof => ?_, fun hdata => ?_⟩
      · rw [wp_ite]
        refine ⟨fun _ => ?_, fun hfirst => ?_⟩
        · rw [wp_bind, wp_change, wp_pure]
          refine ⟨hn, ⟨h.sound, h.arrived, h.below⟩, hsame.most, fun _ => .inl ?_, fun c hc =>
            absurd (hu.symm.trans hc) (Option.some_ne_none c).symm⟩
          change (s.taken ++ [consByte s]).dropLast = s.stored
          rw [List.dropLast_concat, ht]
        · rw [wp_pure]
          have hnil : s.stored = [] := List.eq_nil_of_length_eq_zero (by omega)
          refine ⟨hn, take_account h, hsame.most, fun _ => .inr ⟨?_, hnil⟩, fun c hc => ?_⟩
          · change s.taken ++ [consByte s] = [EOF]
            rw [ht, hnil, heof]
            rfl
          · rw [show (s.take (consByte s)).unstored = s.unstored from rfl, hu] at hc
            cases hc
      refine wp_call (wp_of_run (put_byte (take_account h) hd)) ?_
      rintro r s1 ⟨hrun, hacc, ram, ⟨rfl, htk, rfl⟩ | ⟨rfl, htk, rfl⟩⟩
      · rw [if_neg (by decide), wp_ite]
        have hlen : (s.stored ++ [consByte s]).length = s.stored.length + 1 := by
          rw [List.length_append]
          rfl
        refine ⟨fun hl => ?_, fun hl => ?_⟩
        · rw [wp_pure]
          refine ⟨?_, hacc, ?_, fun _ => .inl ?_, fun c hc => ?_⟩
          · change target - (n - 1) = ((s.stored ++ [consByte s]).length : ℤ)
            rw [hlen]
            push_cast
            omega
          · change ((s.stored ++ [consByte s]).length : ℤ) ≤ _
            rw [hlen]
            push_cast
            omega
          · change s.taken ++ [consByte s] = s.stored ++ [consByte s]
            rw [ht]
          · exact absurd (hu.symm.trans hc) (Option.some_ne_none c).symm
        · refine wp_mono (ih hacc (next_succ hd) ?_ hu ?_) ?_
          · change s.taken ++ [consByte s] = s.stored ++ [consByte s]
            rw [ht]
          · change target - (n - 1) = ((s.stored ++ [consByte s]).length : ℤ)
            rw [hlen]
            push_cast
            omega
          · have hrest : ∀ s', ConsRead env s0 d _ (dst + 1) (n - 1) s' →
                ConsRead env s0 d s dst n s' := fun s' hr => by
              refine ⟨hr.account, hr.most.trans ?_, hr.whole, fun c hc => ⟨(hr.lost c hc).1,
                .next hpos hne hdata hl hrun (hr.lost c hc).2⟩⟩
              change ((s.stored ++ [consByte s]).length : ℤ) + max (n - 1) 0 ≤ _
              rw [hlen]
              push_cast
              omega
            rintro (r | rest) s' ⟨h1, h2⟩
            · exact ⟨h1, hrest s' h2⟩
            · exact ⟨h1, hrest s' h2⟩
      · rw [if_pos rfl, wp_pure]
        refine ⟨hn, hacc, hsame.most, fun hc => absurd hc (Option.some_ne_none _), fun c hc => ?_⟩
        obtain rfl := Option.some.inj hc
        refine ⟨?_, .fault hpos hne hdata htk⟩
        change s.taken ++ [consByte s] = s.stored ++ [consByte s]
        rw [ht]

/-- Nothing happens in the meantime. -/
def alone (p : Proc) : Others p := ⟨fun _ s => s, fun _ => false, fun _ s => Kept.refl p s⟩

/-- The letter a and a newline are in the console. -/
def typed : Sys where
  ram := room
  pipe := ⟨fun _ => 0, 0, 0, true, true⟩
  cons := ⟨fun i => if i = 0 then 97 else 10, 0, 2, 2⟩
  store := ⟨0, 0, fun _ => false, fun _ => Dinode.free, fun _ => zero, 0⟩
  ip := Dinode.free
  off := 0
  naps := 0
  taken := []
  stored := []
  unstored := none

end Xv6.Io.Faults
