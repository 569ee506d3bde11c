import Xv6.Conc.Proto
import Xv6.Log.Group

/-!
Group commit never splits an operation.

A process is outside any operation, inside one, or committing. The operations in progress
are as many as `outstanding` says, and while a process commits there are none, so nothing
changes the header under it although it holds no lock.
-/

namespace Xv6.Log.Exclusion

open Xv6.Conc Xv6.Conc.Prog Xv6.Conc.Proto Xv6.Disk Xv6.Param Xv6.Log.Group

/-- Where a process is with respect to the log. -/
inductive Phase | out | inOp | commit
  deriving DecidableEq

variable {T : Type} [DecidableEq T]

/-- The `log_write`s made so far, against the header and the committed transactions. -/
structure History (s : St T) : Prop where
  nodup : s.lh.Nodup
  commit_le : ∀ w ∈ s.written, w.commit ≤ s.commits.length
  op_le : ∀ w ∈ s.written, w.op ≤ s.ops w.who
  current : ∀ w ∈ s.written, w.commit = s.commits.length → w.block ∈ s.lh
  past : ∀ w ∈ s.written, ∀ bs, s.commits[w.commit]? = some bs → w.block ∈ bs
  together : ∀ w ∈ s.written, ∀ w' ∈ s.written, w.who = w'.who → w.op = w'.op →
    w.commit = w'.commit

structure Inv (s : St T) (γ : T → Phase) : Prop where
  inside : ∀ t, t ∈ s.inside ↔ γ t = .inOp
  count : s.outstanding = s.inside.card
  committing : s.committing = true ↔ ∃ t, γ t = .commit
  one : ∀ t u, γ t = .commit → γ u = .commit → t = u
  excl : s.committing = true → s.outstanding = 0
  hist : History s
  live : ∀ t, γ t = .inOp → ∀ w ∈ s.written, w.who = t → w.op = s.ops t →
    w.commit = s.commits.length

/-- The actions that only a committing process performs. -/
def OfCommit : Act → Prop
  | .endLast | .readN | .readBlock _ | .clearN | .setHead _ | .bunpin _ | .bwrite _
  | .copy _ _ => True
  | _ => False

def May : Act → Phase → Prop
  | .beginTest, g | .awake, g => g = .out
  | .endFirst, g | .logWrite _, g | .store _ _, g => g = .inOp
  | .endLast, g | .readN, g | .readBlock _, g | .clearN, g | .setHead _, g | .bunpin _, g
  | .bwrite _, g | .copy _ _, g => g = .commit
  | _, g => g ≠ .out

variable {t : T}

/-! ### What each action does to the log -/

/-- The fields of the log and its history, which the actions on buffers leave alone. -/
def logOf (s : St T) :
    ℤ × Bool × List BlockNo × Finset T × (T → ℕ) × List (Logged T) × List (List BlockNo) :=
  (s.outstanding, s.committing, s.lh, s.inside, s.ops, s.written, s.commits)

omit [DecidableEq T] in
lemma Inv.congr {s s' : St T} {γ : T → Phase} (hi : Inv s γ) (h : logOf s' = logOf s) :
    Inv s' γ := by
  simp only [logOf, Prod.mk.injEq] at h
  obtain ⟨h1, h2, h3, h4, h5, h6, h7⟩ := h
  obtain ⟨a, b, c, d, e, ⟨f1, f2, f3, f4, f5, f6⟩, g⟩ := hi
  rw [← h1, ← h2] at *
  exact ⟨h4 ▸ a, h4 ▸ b, c, d, e, ⟨h3 ▸ f1, h6 ▸ h7 ▸ f2, h6 ▸ h5 ▸ f3, h6 ▸ h7 ▸ h3 ▸ f4,
    h6 ▸ h7 ▸ f5, h6 ▸ f6⟩, h6 ▸ h5 ▸ h7 ▸ g⟩

/-- The actions that leave the log's own fields alone. -/
def Neutral : Act → Prop
  | .beginTest | .endFirst | .endLast | .logWrite _ | .clearN => False
  | _ => True

lemma sem_neutral {t : T} {a : Act} (ha : Neutral a) {kill : Bool} {s s' : St T} {r : Res a}
    (h : sem t a kill s = some (.ok s' r)) : logOf s' = logOf s := by
  cases a <;> simp only [Neutral] at ha <;> simp only [sem] at h
  all_goals first
    | (cases h; rfl)
    | (split at h <;> cases h <;> rfl)

lemma panic_neutral {t : T} {a : Act} (ha : Neutral a) {kill : Bool} {s : St T} {msg : String}
    (h : sem t a kill s = some (.panic msg)) :
    msg = "bget: no buffers" ∨ msg = "bwrite" ∨ msg = "brelse" := by
  cases a <;> simp only [Neutral] at ha <;> simp only [sem] at h
  all_goals first
    | cases h
    | (split at h <;> cases h <;> simp)

section Count

variable {γ : T → Phase} {F : Finset T}

lemma count_enter (hF : ∀ u, u ∈ F ↔ γ u = .inOp) (u : T) :
    u ∈ insert t F ↔ Function.update γ t .inOp u = .inOp := by
  by_cases h : u = t
  · simp [h]
  · simp [h, hF]

lemma count_leave (hF : ∀ u, u ∈ F ↔ γ u = .inOp) {g : Phase} (hg : g ≠ .inOp) (u : T) :
    u ∈ F.erase t ↔ Function.update γ t g u = .inOp := by
  by_cases h : u = t
  · simp [h, hg]
  · simp [h, hF]

lemma count_keep (hF : ∀ u, u ∈ F ↔ γ u = .inOp) (ht : γ t ≠ .inOp) {g : Phase}
    (hg : g ≠ .inOp) (u : T) : u ∈ F ↔ Function.update γ t g u = .inOp := by
  by_cases h : u = t
  · subst h; simp [hg, hF, ht]
  · simp [h, hF]

end Count

omit [DecidableEq T] in
/-- A process that is inside an operation keeps the others from committing. -/
lemma Inv.not_committing {s : St T} {γ : T → Phase} (hi : Inv s γ) (ht : γ t = .inOp) :
    s.committing = false := by
  by_contra hne
  have h0 := hi.excl (by simpa using hne)
  have hempty : s.inside = ∅ := Finset.card_eq_zero.mp (by have := hi.count; omega)
  simpa [hempty] using (hi.inside t).mpr ht

omit [DecidableEq T] in
lemma Inv.outstanding_pos {s : St T} {γ : T → Phase} (hi : Inv s γ) (ht : γ t = .inOp) :
    1 ≤ s.outstanding := by
  have := Finset.card_pos.mpr ⟨t, (hi.inside t).mpr ht⟩
  have := hi.count
  omega

variable {s s' : St T} {γ : T → Phase} (kill : Bool)

lemma step_beginTest {r : Bool} (hi : Inv s γ) (hg : γ t = .out)
    (ho : sem t .beginTest kill s = some (.ok s' r)) :
    Inv s' (Function.update γ t (if r then .inOp else .out)) := by
  simp only [sem] at ho
  split_ifs at ho with hcom hfull
  · cases ho
    rw [if_neg (by simp), update_of_eq hg]
    exact hi.congr rfl
  · cases ho
    rw [if_neg (by simp), update_of_eq hg]
    exact hi.congr rfl
  · cases ho
    simp only [if_true]
    have htF : t ∉ s.inside := by simp [hi.inside, hg]
    have hother : ∀ u, Function.update γ t Phase.inOp u = .commit → γ u = .commit := fun u hu => by
      by_cases h : u = t
      · subst h; simp at hu
      · simpa [h] using hu
    obtain ⟨h1, h2, h3, h4, h5, h6⟩ := hi.hist
    refine ⟨count_enter hi.inside, by simp [htF, hi.count], ?_, ?_, fun h => absurd h hcom,
      ⟨h1, h2, fun w hw => ?_, h4, h5, h6⟩, fun u hu w hw hwho hop => ?_⟩
    · refine iff_of_false hcom fun ⟨u, hu⟩ => hcom (hi.committing.mpr ⟨u, hother u hu⟩)
    · exact fun u v hu hv => hi.one u v (hother u hu) (hother v hv)
    · have := h3 w hw
      by_cases h : w.who = t
      · simp only [h, Function.update_self] at this ⊢; omega
      · simpa [h] using this
    · by_cases h : u = t
      · -- the operation has only just begun
        subst h
        have hle := h3 w hw
        simp only [Function.update_self, hwho] at hop hle
        omega
      · simp only [Function.update_of_ne h] at hu hop
        exact hi.live u hu w hw hwho hop

lemma step_endFirst {r : Bool} (hi : Inv s γ) (hg : γ t = .inOp)
    (ho : sem t .endFirst kill s = some (.ok s' r)) :
    Inv s' (Function.update γ t (if r then .commit else .out)) := by
  have hnc := hi.not_committing hg
  have hcard : ((s.inside.erase t).card : ℤ) = s.outstanding - 1 := by
    have := Finset.card_erase_add_one ((hi.inside t).mpr hg)
    have := hi.count
    omega
  have hnone : ∀ u, γ u ≠ .commit := fun u hu => by
    simpa [hnc] using hi.committing.mpr ⟨u, hu⟩
  simp only [sem, hnc, Bool.false_eq_true, if_false] at ho
  split_ifs at ho with hlast
  · cases ho
    simp only [if_true]
    have hself : ∀ u, Function.update γ t Phase.commit u = .commit → u = t := fun u hu => by
      by_contra h; exact hnone u (by simpa [h] using hu)
    refine ⟨count_leave hi.inside (by simp), hcard.symm, ?_, ?_, fun _ => hlast,
      ⟨hi.hist.1, hi.hist.2, hi.hist.3, hi.hist.4, hi.hist.5, hi.hist.6⟩, fun u hu => ?_⟩
    · exact iff_of_true rfl ⟨t, by simp⟩
    · exact fun u v hu hv => (hself u hu).trans (hself v hv).symm
    · by_cases h : u = t
      · subst h; simp at hu
      · exact hi.live u (by simpa [h] using hu)
  · cases ho
    simp only [Bool.false_eq_true, if_false]
    refine ⟨count_leave hi.inside (by simp), hcard.symm, ?_, ?_,
      fun h => absurd h (by simp),
      ⟨hi.hist.1, hi.hist.2, hi.hist.3, hi.hist.4, hi.hist.5, hi.hist.6⟩, fun u hu => ?_⟩
    · refine iff_of_false (by simp) fun ⟨u, hu⟩ => ?_
      by_cases h : u = t
      · subst h; simp at hu
      · exact hnone u (by simpa [h] using hu)
    · intro u v hu
      by_cases h : u = t
      · subst h; simp at hu
      · exact absurd (by simpa [h] using hu) (hnone u)
    · by_cases h : u = t
      · subst h; simp at hu
      · exact hi.live u (by simpa [h] using hu)

lemma step_endLast (hi : Inv s γ) (hg : γ t = .commit)
    (ho : sem t .endLast kill s = some (.ok s' ())) : Inv s' (Function.update γ t .out) := by
  cases ho
  have hnone : ∀ u, Function.update γ t Phase.out u ≠ .commit := fun u hu => by
    by_cases h : u = t
    · subst h; simp at hu
    · exact h (hi.one u t (by simpa [h] using hu) hg)
  refine ⟨count_keep hi.inside (by simp [hg]) (by simp), hi.count, ?_, fun u v hu => absurd hu (hnone u),
    by simp, ⟨hi.hist.1, hi.hist.2, hi.hist.3, hi.hist.4, hi.hist.5, hi.hist.6⟩, fun u hu => ?_⟩
  · exact iff_of_false (by simp) fun ⟨u, hu⟩ => hnone u hu
  · by_cases h : u = t
    · subst h; simp at hu
    · exact hi.live u (by simpa [h] using hu)

lemma mem_absorb {lh : List BlockNo} {b c : BlockNo} : c ∈ absorb lh b ↔ c ∈ lh ∨ c = b := by
  unfold absorb
  split_ifs with h
  · exact ⟨Or.inl, fun hc => hc.elim id fun hb => hb ▸ h⟩
  · simp

lemma nodup_absorb {lh : List BlockNo} (h : lh.Nodup) (b : BlockNo) : (absorb lh b).Nodup := by
  unfold absorb
  split_ifs with hb
  · exact h
  · exact List.nodup_append.mpr ⟨h, by simp, by rintro c hc d hd rfl; simp_all⟩

lemma step_logWrite {i : Fin NBUF} (hi : Inv s γ) (hg : γ t = .inOp)
    (ho : sem t (.logWrite i) kill s = some (.ok s' ())) : Inv s' γ := by
  simp only [sem] at ho
  split_ifs at ho with hfull hpos <;> cases ho
  · obtain ⟨h1, h2, h3, h4, h5, h6⟩ := hi.hist
    refine ⟨hi.inside, hi.count, hi.committing, hi.one, hi.excl, ⟨nodup_absorb h1 _, ?_, ?_, ?_, ?_, ?_⟩, ?_⟩
    · exact List.forall_mem_cons.mpr ⟨le_refl _, h2⟩
    · exact List.forall_mem_cons.mpr ⟨le_refl _, h3⟩
    · refine List.forall_mem_cons.mpr ⟨fun _ => mem_absorb.mpr (Or.inr rfl), fun w hw he => ?_⟩
      exact mem_absorb.mpr (Or.inl (h4 w hw he))
    · refine List.forall_mem_cons.mpr ⟨fun bs hbs => ?_, h5⟩
      simp [record] at hbs
    · -- earlier writes of this operation were made under the same transaction
      have hown : ∀ w ∈ s.written, w.who = t → w.op = s.ops t → w.commit = s.commits.length :=
        hi.live t hg
      refine List.forall_mem_cons.mpr ⟨List.forall_mem_cons.mpr ⟨fun _ _ => rfl, ?_⟩, ?_⟩
      · exact fun w hw hwho hop => (hown w hw hwho.symm hop.symm).symm
      · exact fun w hw => List.forall_mem_cons.mpr ⟨fun hwho hop => hown w hw hwho hop, h6 w hw⟩
    · exact fun u hu => List.forall_mem_cons.mpr ⟨fun _ _ => rfl, hi.live u hu⟩

lemma step_clearN (hi : Inv s γ) (hg : γ t = .commit)
    (ho : sem t .clearN kill s = some (.ok s' ())) : Inv s' γ := by
  cases ho
  obtain ⟨h1, h2, h3, h4, h5, h6⟩ := hi.hist
  have hcom : s.committing = true := hi.committing.mpr ⟨t, hg⟩
  refine ⟨hi.inside, hi.count, hi.committing, hi.one, hi.excl, ⟨List.nodup_nil, ?_, h3, ?_, ?_, h6⟩, ?_⟩
  · exact fun w hw => by have := h2 w hw; simp; omega
  · exact fun w hw he => by have := h2 w hw; simp at he; omega
  · intro w hw bs hbs
    rcases Nat.lt_or_ge w.commit s.commits.length with hlt | hge
    · rw [List.getElem?_append_left hlt] at hbs
      exact h5 w hw bs hbs
    · have heq : w.commit = s.commits.length := le_antisymm (h2 w hw) hge
      simp only [heq, List.getElem?_concat_length, Option.some.injEq] at hbs
      exact hbs ▸ h4 w hw heq
  · exact fun u hu => absurd hcom (by simp [hi.not_committing hu])

/-! ### The protocol -/

variable (start : BlockNo)

def proto (T : Type) [DecidableEq T] : Proto (sys start T) where
  Ghost := Phase
  Inv := Inv
  May := May
  Ok msg := msg ≠ "log.committing" ∧ msg ≠ "log_write outside of trans"


variable {start}

lemma spec_neutral {a : Act} {g : Phase} (ha : Neutral a) (hm : May a g) :
    (proto start T).Spec t a g fun _ g' => g' = g :=
  Spec.of_step hm
    (fun s γ c s' r hi hg ho => by
      rw [update_of_eq hg]; exact Inv.congr hi (sem_neutral ha ho))
    (fun s γ c msg hi hg ho => by
      rcases panic_neutral ha ho with rfl | rfl | rfl <;> simp [proto])

lemma spec_beginTest : (proto start T).Spec t .beginTest .out fun r g' =>
    g' = if r then .inOp else .out :=
  Spec.of_step rfl (fun _ _ c _ _ hi hg ho => step_beginTest c hi hg ho)
    (fun s γ c msg hi hg ho => by
      simp only [sys, sem] at ho
      split_ifs at ho <;> cases ho)

lemma spec_endFirst : (proto start T).Spec t .endFirst .inOp fun r g' =>
    g' = if r then .commit else .out :=
  Spec.of_step rfl (fun _ _ c _ _ hi hg ho => step_endFirst c hi hg ho)
    (fun s γ c msg hi hg ho => by
      simp only [sys, sem, Inv.not_committing hi hg, Bool.false_eq_true, if_false] at ho
      split_ifs at ho <;> cases ho)

lemma spec_endLast : (proto start T).Spec t .endLast .commit fun _ g' => g' = .out :=
  Spec.of_step rfl (fun _ _ c _ _ hi hg ho => step_endLast c hi hg ho)
    (fun s γ c msg hi hg ho => by cases ho)

lemma spec_logWrite (i : Fin NBUF) :
    (proto start T).Spec t (.logWrite i) .inOp fun _ g' => g' = .inOp :=
  Spec.of_step rfl
    (fun s γ c s' r hi hg ho => by rw [update_of_eq hg]; exact step_logWrite c hi hg ho)
    (fun s γ c msg hi hg ho => by
      have hpos := Inv.outstanding_pos hi hg
      simp only [sys, sem, if_neg (show ¬ s.outstanding < 1 by omega)] at ho
      split_ifs at ho <;> cases ho
      simp [proto])

lemma spec_clearN : (proto start T).Spec t .clearN .commit fun _ g' => g' = .commit :=
  Spec.of_step rfl
    (fun s γ c s' r hi hg ho => by rw [update_of_eq hg]; exact step_clearN c hi hg ho)
    (fun s γ c msg hi hg ho => by cases ho)

/-! ### The programs follow the protocol -/

section Programs

variable {g : Phase}

lemma wp_neutral {β : Type} {a : Act} {f : Res a → P β} {Q : β → Phase → Prop}
    (ha : Neutral a) (hm : May a g) (hf : ∀ r, (proto start T).wp t (f r) Q g) :
    (proto start T).wp t ((perform a).bind f) Q g :=
  wp_act (spec_neutral ha hm) fun r g' hg' => by subst hg'; exact hf r

/-- Going on after a piece of program that keeps the phase. -/
lemma wp_keep {β δ : Type} {p : P β} {f : β → P δ} {Q : δ → Phase → Prop}
    (h : (proto start T).wp t p (fun _ g' => g' = g) g)
    (hf : ∀ r, (proto start T).wp t (f r) Q g) :
    (proto start T).wp t (p.bind f) Q g :=
  wp_call h fun r g' hg' => by subst hg'; exact hf r

lemma bread_wp (b : BlockNo) (hg : g ≠ .out) :
    (proto start T).wp t (bread b) (fun _ g' => g' = g) g := by
  refine wp_neutral trivial hg fun i => ?_
  refine wp_neutral trivial hg fun _ => ?_
  exact wp_neutral trivial hg fun _ => rfl

lemma brelse_wp (i : Fin NBUF) (hg : g ≠ .out) :
    (proto start T).wp t (brelse i) (fun _ g' => g' = g) g :=
  wp_neutral trivial hg fun _ => wp_perform (spec_neutral trivial hg)

lemma beginOp_wp : (proto start T).wp t beginOp (fun _ g' => g' = .inOp) .out := by
  refine wp_iterate (fun _ g' => g' = .out) rfl fun _ g' hg' => ?_
  subst hg'
  refine wp_act spec_beginTest fun r g' hg' => ?_
  subst hg'
  cases r with
  | true => rfl
  | false => exact wp_neutral trivial rfl fun _ => rfl

lemma writeHead_wp : (proto start T).wp t (writeHead start) (fun _ g' => g' = .commit)
    .commit := by
  refine wp_keep (bread_wp _ (by simp)) fun buf => ?_
  refine wp_neutral trivial rfl fun _ => ?_
  exact wp_neutral trivial (by simp [May]) fun _ => brelse_wp buf (by simp)

lemma writeLog_wp : (proto start T).wp t (writeLog start) (fun _ g' => g' = .commit)
    .commit := by
  refine wp_iterate (fun _ g' => g' = .commit) rfl fun tail g' hg' => ?_
  subst hg'
  refine wp_neutral trivial rfl fun n => ?_
  split_ifs
  · refine wp_keep (bread_wp _ (by simp)) fun toBuf => wp_neutral trivial rfl fun b => ?_
    refine wp_keep (bread_wp b (by simp)) fun fromBuf => wp_neutral trivial rfl fun _ => ?_
    refine wp_neutral trivial (by simp [May]) fun _ => ?_
    exact wp_keep (brelse_wp _ (by simp)) fun _ => wp_keep (brelse_wp _ (by simp)) fun _ => rfl
  · rfl

lemma installTrans_wp : (proto start T).wp t (installTrans start)
    (fun _ g' => g' = .commit) .commit := by
  refine wp_iterate (fun _ g' => g' = .commit) rfl fun tail g' hg' => ?_
  subst hg'
  refine wp_neutral trivial rfl fun n => ?_
  split_ifs
  · refine wp_keep (bread_wp _ (by simp)) fun lbuf => wp_neutral trivial rfl fun b => ?_
    refine wp_keep (bread_wp b (by simp)) fun dbuf => wp_neutral trivial rfl fun _ => ?_
    refine wp_neutral trivial (by simp [May]) fun _ => wp_neutral trivial rfl fun _ => ?_
    exact wp_keep (brelse_wp _ (by simp)) fun _ => wp_keep (brelse_wp _ (by simp)) fun _ => rfl
  · rfl

lemma commit_wp : (proto start T).wp t (commit start) (fun _ g' => g' = .commit)
    .commit := by
  refine wp_neutral trivial rfl fun n => ?_
  split_ifs
  · refine wp_keep writeLog_wp fun _ => wp_keep writeHead_wp fun _ => ?_
    refine wp_keep installTrans_wp fun _ => wp_act spec_clearN fun _ g' hg' => ?_
    subst hg'
    exact writeHead_wp
  · rfl

lemma endOp_wp : (proto start T).wp t (endOp start) (fun _ g' => g' = .out) .inOp := by
  refine wp_act spec_endFirst fun r g' hg' => ?_
  subst hg'
  cases r with
  | true => exact wp_keep commit_wp fun _ => wp_perform spec_endLast
  | false => rfl

lemma releaseAll_wp (held : List (BlockNo × Fin NBUF)) :
    (proto start T).wp t (releaseAll held) (fun _ g' => g' = .inOp) .inOp := by
  induction held with
  | nil => rfl
  | cons h held ih => exact wp_keep (brelse_wp _ (by simp)) fun _ => ih

lemma runCmds_wp (cs : List Cmd) (held : List (BlockNo × Fin NBUF)) :
    (proto start T).wp t (runCmds cs held) (fun _ g' => g' = .inOp) .inOp := by
  induction cs generalizing held with
  | nil => exact releaseAll_wp held
  | cons cmd cs ih =>
    cases cmd with
    | bread b => exact wp_keep (bread_wp b (by simp)) fun _ => ih _
    | store b v =>
      simp only [runCmds]
      cases held.lookup b with
      | some i => exact wp_neutral trivial rfl fun _ => ih _
      | none => exact ih _
    | logWrite b =>
      simp only [runCmds]
      cases held.lookup b with
      | some i => exact wp_act (spec_logWrite i) fun _ g' hg' => by subst hg'; exact ih _
      | none => exact ih _
    | brelse b =>
      simp only [runCmds]
      cases held.lookup b with
      | some i => exact wp_keep (brelse_wp i (by simp)) fun _ => ih _
      | none => exact ih _

lemma operation_wp (cs : List Cmd) :
    (proto start T).wp t (operation start cs) (fun _ g' => g' = .out) .out := by
  refine wp_call beginOp_wp fun _ g' hg' => ?_
  subst hg'
  exact wp_keep (runCmds_wp cs []) fun _ => endOp_wp

end Programs

/-- Every process ends an operation outside of any. -/
def Q (_ : T) (_ : Unit) (g : Phase) : Prop := g = .out

lemma enters : (proto start T).Enters Q := by
  rintro t s γ p s' p' hi hw ⟨rfl, rfl, cs, rfl⟩
  have hout : γ t = .out := hw
  exact ⟨.out, by rwa [update_of_eq hout], operation_wp cs⟩

omit [DecidableEq T] in
lemma inv_init (disk : BlockNo → Block) : Inv (init T disk).shared fun _ => .out where
  inside := by simp [init]
  count := by simp [init]
  committing := by simp [init]
  one := by simp
  excl := by simp [init]
  hist := ⟨by simp [init], by simp [init], by simp [init], by simp [init], by simp [init],
    by simp [init]⟩
  live := by simp

lemma follows_init (disk : BlockNo → Block) :
    (proto start T).Follows Q (init T disk) :=
  ⟨_, inv_init disk, fun _ => rfl⟩

/-- While a process commits, a step admits no operation and logs nothing, and only the end of
the commit clears `committing`. -/
lemma sem_committing {a : Act} (ha : ∀ i, a ≠ .logWrite i) {r : Res a}
    (hc : s.committing = true) (h : sem t a kill s = some (.ok s' r)) :
    s'.ops = s.ops ∧ s'.outstanding = s.outstanding ∧ s'.written = s.written ∧
      (s'.committing = true ∨ a = .endLast) := by
  by_cases hn : Neutral a
  · have := sem_neutral hn h
    simp only [logOf, Prod.mk.injEq] at this
    obtain ⟨h1, h2, -, -, h4, h5, -⟩ := this
    exact ⟨h4, h1, h5, .inl (h2.trans hc)⟩
  cases a with
  | beginTest =>
    rw [sem, if_pos hc] at h
    cases h
    exact ⟨rfl, rfl, rfl, .inl hc⟩
  | endFirst => simp [sem, hc] at h
  | endLast =>
    cases h
    exact ⟨rfl, rfl, rfl, .inr rfl⟩
  | logWrite i => exact absurd rfl (ha i)
  | clearN =>
    cases h
    exact ⟨rfl, rfl, rfl, .inl hc⟩
  | _ => exact absurd trivial hn

/-- **Group commit never splits an operation**, in any run of any number of processes. -/
theorem group_commit (T : Type) [DecidableEq T] (start : BlockNo) (disk : BlockNo → Block)
    {c : Pool (St T) T Act Res Unit}
    (hr : Reach (sys start T) (init T disk) c) :
    -- one process at a time commits, and nothing is outstanding then
    (∀ t a, Performs c t a → OfCommit a → c.shared.committing = true) ∧
    (∀ t u a b, Performs c t a → OfCommit a → Performs c u b → OfCommit b → t = u) ∧
    (c.shared.committing = true → c.shared.outstanding = 0) ∧
    -- until `committing` is cleared nobody is admitted and nobody logs
    (c.shared.committing = true → (∀ t i, ¬ Performs c t (.logWrite i)) ∧
      ∀ c', Step (sys start T) c c' → c'.shared.ops = c.shared.ops ∧
        c'.shared.outstanding = 0 ∧ c'.shared.written = c.shared.written ∧
        (c'.shared.committing = true ∨ ∃ t, Performs c t .endLast)) ∧
    -- the blocks of one operation are in the header of one and the same commit
    (∀ w ∈ c.shared.written, ∀ w' ∈ c.shared.written, w.who = w'.who → w.op = w'.op →
      w.commit = w'.commit) ∧
    (∀ w ∈ c.shared.written, (w.commit = c.shared.commits.length ∧ w.block ∈ c.shared.lh) ∨
      ∃ bs, c.shared.commits[w.commit]? = some bs ∧ w.block ∈ bs) ∧
    c.shared.lh.Nodup ∧ 0 ≤ c.shared.outstanding ∧
    ∀ t, ¬ Panics (sys start T) t c.shared (c.thread t) "log.committing" := by
  have hf := follows_reach (P := proto start T) enters (follows_init disk) hr
  obtain ⟨γ, hi, hmay⟩ := follows_may hf
  replace hi : Inv c.shared γ := hi
  have hcommit : ∀ t a, Performs c t a → OfCommit a → γ t = .commit := fun t a hp ha => by
    have hm : May a (γ t) := hmay t a hp
    cases a <;> first | exact hm | exact absurd ha id
  have hlog : c.shared.committing = true → ∀ t i, ¬ Performs c t (.logWrite i) := fun hc t i hp => by
    have hm : γ t = .inOp := hmay t _ hp
    simp [hi.not_committing hm] at hc
  refine ⟨fun t a hp ha => hi.committing.mpr ⟨t, hcommit t a hp ha⟩,
    fun t u a b ht ha hu hb => hi.one t u (hcommit t a ht ha) (hcommit u b hu hb), hi.excl,
    fun hc => ⟨hlog hc, fun c' hs => ?_⟩, hi.hist.together, fun w hw => ?_, hi.hist.nodup, ?_,
    fun t hp => (panics_ok hf hp).1 rfl⟩
  · cases hs with
    | run t h =>
      generalize hp : c.thread t = p at h
      cases h with
      | @act _ a k kill r h =>
        have ha : ∀ i, a ≠ .logWrite i := by rintro i rfl; exact hlog hc t i ⟨k, hp⟩
        obtain ⟨h1, h2, h3, h4⟩ := sem_committing kill ha hc h
        exact ⟨h1, h2.trans (hi.excl hc), h3, h4.imp id fun he => ⟨t, by subst he; exact ⟨k, hp⟩⟩⟩
      | loop b body k => exact ⟨rfl, hi.excl hc, rfl, .inl hc⟩
    | enter t h =>
      obtain ⟨-, rfl, -⟩ := h
      exact ⟨rfl, hi.excl hc, rfl, .inl hc⟩
  · rcases (hi.hist.commit_le w hw).lt_or_eq with hlt | heq
    · refine .inr ⟨_, List.getElem?_eq_getElem hlt, ?_⟩
      exact hi.hist.past w hw _ (List.getElem?_eq_getElem hlt)
    · exact .inl ⟨heq, hi.hist.current w hw heq⟩
  · exact hi.count ▸ Int.natCast_nonneg _

/-- Two overlapping operations: the one that ends last is about to commit the blocks of both. -/
theorem group_commit_overlap : ∃ c,
    Reach (sys 2 (Fin 2)) (init (Fin 2) fun _ => zero) c ∧
    c.shared.lh = [51, 50] ∧ c.shared.committing = true ∧ c.shared.outstanding = 0 := by
  let ops (t : Fin 2) : List Cmd := [.bread (.ofNat (50 + t)), .logWrite (.ofNat (50 + t))]
  have hs := reach_started (S := sys 2 (Fin 2)) 2 (fun _ _ cs => ⟨rfl, rfl, cs, rfl⟩) (fun _ => zero)
    ops
  obtain ⟨c, hr, hc⟩ := exists_of_schedule (sys 2 (Fin 2))
    (fun c => (c.shared.lh, c.shared.committing)) (started 2 (fun _ => zero) ops)
    [(0, false, 2), (1, false, 9), (0, false, 7)] (b := ([51, 50], true)) (by decide +kernel)
  simp only [Prod.mk.injEq] at hc
  have h := group_commit (Fin 2) 2 (fun _ => zero) (hs.trans hr)
  exact ⟨c, hs.trans hr, hc.1, hc.2, h.2.2.1 hc.2⟩

end Xv6.Log.Exclusion
