import Xv6.Log.Buffers
import Xv6.Log.Crash

/-!
Log pins. A block is pinned from the `log_write` that adds it to the header until
`install_trans` has written it to its home, and no longer; so it stays cached for that long.
-/

namespace Xv6.Log.Pins

open Xv6.Conc Xv6.Conc.Prog Xv6.Conc.Proto Xv6.Disk Xv6.Param Xv6.Bio.Refs Xv6.Log.Group
open Xv6.Log.Exclusion (Phase OfCommit)
open Xv6.Log.Buffers (Holds Still Idle)
open Xv6.Log.Commit (slot)

variable {T : Type} [DecidableEq T]

/-! ### Which blocks have been installed -/

/-- History: whether the header of the transaction is on disk, and the blocks that have been
written since, which is to their homes. -/
structure Installs where
  headed : Bool
  home : List BlockNo
  deriving DecidableEq

/-- A commit writes the blocks of the log, then the header, then the homes, until it starts
over with an empty header. -/
def watch (start : BlockNo) (_ : T) : (a : Act) → Res a → St T → Installs → Installs
  | .bwrite i, _, s, h =>
    let b := (s.cache.buf i).blockno
    if h.headed then { h with home := h.home ++ [b] }
    else if b = start then ⟨true, []⟩
    else h
  | .clearN, _, _, _ | .endLast, _, _, _ => ⟨false, []⟩
  | _, _, _, h => h

/-- The processes of `Group.sys`, with that history. -/
def watched (start : BlockNo) (T : Type) [DecidableEq T] :
    Sys (St T × Installs) T Bool Act Res Unit :=
  (sys start T).observe (watch start)

def init (T : Type) (disk : BlockNo → Block) : Pool (St T × Installs) T Act Res Unit :=
  ⟨((Group.init T disk).shared, ⟨false, []⟩), (Group.init T disk).thread⟩

/-! ### The invariant -/

/-- What is known of a process; if it commits, whether the header is written and how many
blocks are at home. -/
structure Progress where
  base : Holds
  headed : Bool
  home : ℕ

/-- No more than the last block written home can still be pinned. -/
def Lag (g : Progress) : Prop := g.base.installed ≤ g.home ∧ g.home ≤ g.base.installed + 1

structure Inv (s : St T × Installs) (γ : T → Progress) : Prop where
  base : Buffers.Inv s.1 fun t => (γ t).base
  room : s.1.lh.length ≤ LOGBLOCKS
  idle : s.1.committing = false → s.2 = ⟨false, []⟩
  commit : ∀ t, (γ t).base.phase = .commit →
    s.2 = ⟨(γ t).headed, (γ t).base.lh.take (γ t).home⟩
  lag : ∀ t, (γ t).base.phase = .commit → Lag (γ t)

/-- A committing process unpins a block when it has written it home, before anything else. -/
def May : Act → Progress → Prop
  | .bunpin i, g => g.base.phase = .commit ∧ g.home = g.base.installed + 1 ∧
    ∃ b, (b, i) ∈ g.base.held ∧ g.base.lh[g.base.installed]? = some b
  | .endLast, g => g.base.phase = .commit ∧ g.home = g.base.installed ∧ g.base.lh = []
  | a, g => OfCommit a → g.base.phase = .commit ∧ g.home = g.base.installed

variable (start : BlockNo) (T) in
def proto : Proto (watched start T) where
  Ghost := Progress
  Inv := Inv
  May := May
  Ok _ := True

variable {start : BlockNo} {s s' : St T} {h h' : Installs} {γ : T → Progress} {t : T}
  {g : Progress} {kill : Bool}

lemma base_update (g : Progress) :
    (fun u => (Function.update γ t g u).base) =
      Function.update (fun u => (γ u).base) t g.base := by
  funext u
  by_cases hu : u = t
  · subst hu; simp
  · simp [hu]

/-- `log_write` checks that there is room in the header. -/
lemma room_step {a : Act} {r : Res a} (hroom : s.lh.length ≤ LOGBLOCKS)
    (ho : sem t a kill s = some (.ok s' r)) : s'.lh.length ≤ LOGBLOCKS := by
  cases a with
  | logWrite i =>
    simp only [sem] at ho
    split_ifs at ho with h1 <;> cases ho
    simp only [record, absorb]
    split_ifs
    · exact hroom
    · simp only [List.length_append, List.length_singleton]
      omega
  | clearN =>
    cases ho
    exact Nat.zero_le _
  | _ =>
    simp only [sem] at ho
    first
      | (cases ho; exact hroom)
      | (split at ho <;> cases ho <;> exact hroom)
      | (split_ifs at ho <;> cases ho <;> exact hroom)

/-- What the steps of the base protocol come to here. -/
lemma Inv.step {a : Act} {r : Res a} (hi : Inv (s, h) γ)
    (ho : sem t a kill s = some (.ok s' r))
    (hbase : Buffers.Inv s' (Function.update (fun u => (γ u).base) t g.base))
    (hidle : s'.committing = false → h' = ⟨false, []⟩)
    (hcommit : g.base.phase = .commit → h' = ⟨g.headed, g.base.lh.take g.home⟩ ∧ Lag g)
    (hother : (∃ u, u ≠ t ∧ (γ u).base.phase = .commit) → h' = h) :
    Inv (s', h') (Function.update γ t g) := by
  refine ⟨?_, room_step hi.room ho, hidle, fun u hu => ?_, fun u hu => ?_⟩
  · rw [base_update]; exact hbase
  · by_cases hut : u = t
    · subst hut
      simpa using (hcommit (by simpa using hu)).1
    · rw [Function.update_of_ne hut] at hu ⊢
      rw [show ((s', h') : St T × Installs).2 = h' from rfl, hother ⟨u, hut, hu⟩]
      exact hi.commit u hu
  · by_cases hut : u = t
    · subst hut
      simpa using (hcommit (by simpa using hu)).2
    · rw [Function.update_of_ne hut] at hu ⊢
      exact hi.lag u hu

/-- A specification of the base protocol whose action is not part of the history. -/
lemma lift {a : Act} {Q : Res a → Holds → Prop} (hm : May a g)
    (hs : (Buffers.proto T start).Spec t a g.base Q)
    (ha : ∀ r (s : St T) h, watch start t a r s h = h)
    (hQ : ∀ r b, Q r b → b.phase = .commit →
      g.base.phase = .commit ∧ b.lh = g.base.lh ∧ (Lag g → Lag { g with base := b }))
    (hend : ∀ r b, Q r b → g.base.phase = .commit → b.phase = .commit) :
    (proto T start).Spec t a g fun r g' => Q r g'.base ∧ g' = { g with base := g'.base } := by
  refine ⟨hm, fun ⟨s, h⟩ γ kill hi hg o ho => ?_⟩
  change T → Progress at γ
  change Inv (s, h) γ at hi
  cases o with
  | panic msg => trivial
  | ok s' r =>
    obtain ⟨s1, h1⟩ := s'
    obtain ⟨hsem, hwatch⟩ := observe_ok.mp ho
    simp only [ha] at hwatch hsem
    subst hwatch
    obtain ⟨b, hbase, hb⟩ := hs.2 s (fun u => (γ u).base) kill hi.base
      (congrArg Progress.base hg) _ hsem
    change Holds at b
    change Buffers.Inv s1 (Function.update (fun u => (γ u).base) t b) at hbase
    subst hg
    refine ⟨{ γ t with base := b }, Inv.step hi hsem hbase (fun hc => ?_) (fun hp => ?_)
      fun _ => rfl, hb, rfl⟩
    · -- nobody stops committing
      refine hi.idle ?_
      by_contra hne
      obtain ⟨u, hu⟩ := hi.base.log.committing.mp (by simpa using hne)
      have hstill : (Function.update (fun u => (γ u).base) t b u).phase = .commit := by
        by_cases hut : u = t
        · subst hut
          rw [Function.update_self]
          exact hend r b hb hu
        · rw [Function.update_of_ne hut]
          exact hu
      have := hbase.log.committing.mpr ⟨u, hstill⟩
      rw [this] at hc
      cases hc
    · obtain ⟨h1, h2, h3⟩ := hQ r b hb hp
      rw [h2]
      exact ⟨hi.commit t h1, h3 (hi.lag t h1)⟩

/-! ### Specifications -/

/-- The conditions on a committing process between two of its steps. -/
def Steady (g : Progress) : Prop := g.base.phase = .commit ∧ g.home = g.base.installed

lemma Steady.lag (hg : Steady g) : Lag g := ⟨hg.2.ge, hg.2.le.trans (Nat.le_succ _)⟩

lemma may_of {a : Act} (ha : ∀ i, a ≠ .bunpin i) (hl : a ≠ .endLast) (hm : OfCommit a → Steady g) :
    May a g := by
  cases a with
  | bunpin i => exact absurd rfl (ha i)
  | endLast => exact absurd rfl hl
  | _ => exact hm

lemma may_free {a : Act} (ha : ¬ OfCommit a) : May a g := by
  cases a with
  | bunpin i => exact absurd trivial ha
  | endLast => exact absurd trivial ha
  | _ => exact fun h => absurd h ha

lemma spec_still {a : Act} (ha : Still a) (hw : ∀ i, a ≠ .bwrite i) (hm : OfCommit a → Steady g) :
    (proto T start).Spec t a g fun _ g' => g' = g := by
  refine (lift (may_of (by rintro i rfl; exact ha) (by rintro rfl; exact ha) hm) (Buffers.spec_still ha) (fun r s h => ?_)
    (fun _ b hb hp => ?_) fun _ b hb hp => ?_).mono fun _ g' hg' => ?_
  · cases a with
    | bwrite i => exact absurd rfl (hw i)
    | _ => first | exact absurd ha id | rfl
  · subst hb; exact ⟨hp, rfl, id⟩
  · subst hb; exact hp
  · rw [hg'.2, hg'.1]

lemma spec_readN (hg : Steady g) :
    (proto T start).Spec t .readN g fun n g' =>
      n = g.base.lh.length ∧ n ≤ LOGBLOCKS ∧ g' = g := by
  refine ⟨fun _ => hg, fun ⟨s, h⟩ γ kill hi hgt o ho => ?_⟩
  change T → Progress at γ
  change Inv (s, h) γ at hi
  cases ho
  subst hgt
  refine ⟨γ t, ?_, ?_, hi.room, rfl⟩
  · change Inv (s, h) (Function.update γ t (γ t))
    rwa [Function.update_eq_self]
  · exact congrArg List.length (hi.base.head t hg.1).1

lemma spec_readBlock (hg : Steady g) (tail : ℕ) :
    (proto T start).Spec t (.readBlock tail) g fun b g' =>
      b = g.base.lh.getD tail 0 ∧ g' = g := by
  refine (lift (may_of (by simp) (by simp) fun _ => hg) (Buffers.spec_readBlock hg.1 tail) (fun _ _ _ => rfl) (fun _ b hb hp => ?_)
    fun _ b hb hp => ?_).mono fun _ g' hg' => ⟨hg'.1.1, ?_⟩
  · rw [hb.2]; exact ⟨hg.1, rfl, id⟩
  · rw [hb.2]; exact hp
  · rw [hg'.2, hg'.1.2]

lemma spec_beginTest (hg : g.base.phase = .out) :
    (proto T start).Spec t .beginTest g fun r g' =>
      g' = { g with base := { g.base with phase := if r then .inOp else .out } } := by
  refine (lift (may_free id) (Buffers.spec_beginTest hg) (fun _ _ _ => rfl) (fun r b hb hp => ?_)
    fun r b hb hp => ?_).mono fun _ g' hg' => ?_
  · subst hb; cases r <;> simp at hp
  · rw [hg] at hp; cases hp
  · rw [hg'.2, hg'.1]

lemma spec_bget (b : BlockNo) : (proto T start).Spec t (.bget b) g fun i g' =>
    g' = { g with base := { g.base with held := (b, i) :: g.base.held } } := by
  refine (lift (may_free id) (Buffers.spec_bget b) (fun _ _ _ => rfl) (fun i x hx hp => ?_)
    fun i x hx hp => ?_).mono fun _ g' hg' => ?_
  · subst hx; exact ⟨hp, rfl, id⟩
  · subst hx; exact hp
  · rw [hg'.2, hg'.1]

lemma spec_putRef {b : BlockNo} {i : Fin NBUF} (hmem : (b, i) ∈ g.base.held) :
    (proto T start).Spec t (.putRef i) g fun _ g' =>
      g' = { g with base := { g.base with held := g.base.held.erase (b, i) } } := by
  refine (lift (may_free id) (Buffers.spec_putRef hmem) (fun _ _ _ => rfl) (fun i x hx hp => ?_)
    fun i x hx hp => ?_).mono fun _ g' hg' => ?_
  · subst hx; exact ⟨hp, rfl, id⟩
  · subst hx; exact hp
  · rw [hg'.2, hg'.1]

lemma spec_logWrite {b : BlockNo} {i : Fin NBUF} (hg : g.base.phase = .inOp)
    (hmem : (b, i) ∈ g.base.held) :
    (proto T start).Spec t (.logWrite i) g fun _ g' => g' = g := by
  refine (lift (may_free id) (Buffers.spec_logWrite hg hmem) (fun _ _ _ => rfl)
    (fun i x hx hp => ?_) fun i x hx hp => ?_).mono fun _ g' hg' => ?_
  · subst hx; exact ⟨hp, rfl, id⟩
  · subst hx; exact hp
  · rw [hg'.2, hg'.1]

lemma spec_bunpin {b : BlockNo} {i : Fin NBUF} (hg : g.base.phase = .commit)
    (hh : g.home = g.base.installed + 1) (hb : g.base.lh[g.base.installed]? = some b)
    (hmem : (b, i) ∈ g.base.held) :
    (proto T start).Spec t (.bunpin i) g fun _ g' =>
      g' = { g with base := { g.base with installed := g.base.installed + 1 } } := by
  refine (lift (show May (.bunpin i) g from ⟨hg, hh, b, hmem, hb⟩) (Buffers.spec_bunpin hg hb hmem) (fun _ _ _ => rfl)
    (fun i x hx hp => ?_) fun i x hx hp => ?_).mono fun _ g' hg' => ?_
  · subst hx; exact ⟨hp, rfl, fun _ => ⟨hh.ge, by simp [hh]⟩⟩
  · subst hx; exact hp
  · rw [hg'.2, hg'.1]

/-- While a process commits the history is about its transaction. -/
lemma Inv.alone (hi : Inv (s, h) γ) (hg : (γ t).base.phase = .commit) :
    ¬ ∃ u, u ≠ t ∧ (γ u).base.phase = .commit := by
  rintro ⟨u, hut, hu⟩
  exact hut (hi.base.log.one u t hu hg)

/-- A `bwrite` of a commit; `m` is what is known after it. -/
lemma spec_bwrite {b : BlockNo} {i : Fin NBUF} {m : Progress} (hg : Steady g)
    (hmem : (b, i) ∈ g.base.held) (hb : m.base = g.base) (hlag : Lag m)
    (hw : ∀ (s : St T), (s.cache.buf i).blockno = b →
      watch start t (.bwrite i) () s ⟨g.headed, g.base.lh.take g.home⟩ =
        ⟨m.headed, g.base.lh.take m.home⟩) :
    (proto T start).Spec t (.bwrite i) g fun _ g' => g' = m := by
  refine ⟨fun _ => hg, fun ⟨s, h⟩ γ kill hi hgt o ho => ?_⟩
  change T → Progress at γ
  change Inv (s, h) γ at hi
  cases o with
  | panic msg => trivial
  | ok s' r =>
    obtain ⟨s1, h1⟩ := s'
    obtain ⟨hsem, hwatch⟩ := observe_ok.mp ho
    simp only at hwatch hsem
    change sem t (.bwrite i) kill s = _ at hsem
    subst hgt
    have hbase : Buffers.Inv s1 (Function.update (fun u => (γ u).base) t m.base) := by
      rw [hb, Function.update_eq_self t fun u => (γ u).base]
      exact Buffers.step_still kill (by trivial) hi.base hsem
    refine ⟨m, Inv.step hi hsem hbase (fun hc => ?_) (fun _ => ?_) fun hu => absurd hu (hi.alone hg.1),
      rfl⟩
    · have := hbase.log.committing.mpr ⟨t, by rw [Function.update_self, hb]; exact hg.1⟩
      rw [this] at hc
      cases hc
    · have hh := hi.commit t hg.1
      simp only at hh
      rw [hwatch, hh, hb]
      exact ⟨hw s (hi.base.held t _ hmem).2, hlag⟩

/-- A process that must commit starts with nothing installed. -/
lemma spec_endFirst (hg : g.base.phase = .inOp) :
    (proto T start).Spec t .endFirst g fun r g' => ∃ lh, g' =
      if r then ⟨{ g.base with phase := .commit, lh := lh, installed := 0 }, false, 0⟩
      else { g with base := { g.base with phase := .out } } := by
  refine ⟨show May .endFirst g from may_free id, fun ⟨s, h⟩ γ kill hi hgt o ho => ?_⟩
  change T → Progress at γ
  change Inv (s, h) γ at hi
  cases o with
  | panic msg => trivial
  | ok s' r =>
    obtain ⟨s1, h1⟩ := s'
    obtain ⟨hsem, hwatch⟩ := observe_ok.mp ho
    simp only at hwatch hsem
    change sem t (.endFirst) kill s = _ at hsem
    subst hgt
    have hnc := hi.base.log.not_committing hg
    have hh : h = ⟨false, []⟩ := hi.idle hnc
    have hbase := Buffers.step_endFirst kill hi.base hg hsem
    refine ⟨_, Inv.step hi hsem ?_ (fun _ => ?_) (fun _ => ?_) (fun _ => ?_), s.lh, rfl⟩
    · cases r <;> exact hbase
    · rw [hwatch, hh]; rfl
    · rw [hwatch, hh]
      cases r with
      | true => simp [watch, Lag]
      | false => rename_i hp; simp at hp
    · rw [hwatch]; rfl

lemma spec_clearN (hg : Steady g) (hl : g.base.installed = g.base.lh.length) :
    (proto T start).Spec t .clearN g fun _ g' =>
      g' = ⟨{ g.base with lh := [], installed := 0 }, false, 0⟩ := by
  refine ⟨fun _ => hg, fun ⟨s, h⟩ γ kill hi hgt o ho => ?_⟩
  change T → Progress at γ
  change Inv (s, h) γ at hi
  cases o with
  | panic msg => trivial
  | ok s' r =>
    obtain ⟨s1, h1⟩ := s'
    obtain ⟨hsem, hwatch⟩ := observe_ok.mp ho
    simp only at hwatch hsem
    change sem t (.clearN) kill s = _ at hsem
    subst hgt
    refine ⟨_, Inv.step hi hsem (Buffers.step_clearN kill hi.base hg.1 hl hsem) (fun _ => ?_)
      (fun _ => ?_) (fun hu => absurd hu (hi.alone hg.1)), rfl⟩
    · rw [hwatch]; rfl
    · rw [hwatch]; exact ⟨rfl, le_refl _, Nat.zero_le _⟩

lemma spec_endLast (hg : Steady g) (hl : g.base.lh = []) :
    (proto T start).Spec t .endLast g fun _ g' =>
      g' = { g with base := { g.base with phase := .out } } := by
  refine ⟨⟨hg.1, hg.2, hl⟩, fun ⟨s, h⟩ γ kill hi hgt o ho => ?_⟩
  change T → Progress at γ
  change Inv (s, h) γ at hi
  cases o with
  | panic msg => trivial
  | ok s' r =>
    obtain ⟨s1, h1⟩ := s'
    obtain ⟨hsem, hwatch⟩ := observe_ok.mp ho
    simp only at hwatch hsem
    change sem t (.endLast) kill s = _ at hsem
    subst hgt
    refine ⟨_, Inv.step hi hsem (Buffers.step_endLast kill hi.base hg.1 hl hsem) (fun _ => ?_)
      (fun hp => ?_) (fun hu => absurd hu (hi.alone hg.1)), rfl⟩
    · rw [hwatch]; rfl
    · cases hp

/-! ### The programs follow the protocol -/

section Programs

/-- The process with these buffers. -/
def Progress.hold (g : Progress) (held : List (BlockNo × Fin NBUF)) : Progress :=
  { g with base := { g.base with held := held } }

lemma hold_self (g : Progress) : g.hold g.base.held = g := rfl

lemma Steady.hold (hg : Steady g) (held : List (BlockNo × Fin NBUF)) : Steady (g.hold held) := hg

lemma wp_still {β : Type} {a : Act} {f : Res a → P β} {Q : β → Progress → Prop} (ha : Still a)
    (hw : ∀ i, a ≠ .bwrite i) (hm : OfCommit a → Steady g)
    (hf : ∀ r, (proto T start).wp t (f r) Q g) :
    (proto T start).wp t ((perform a).bind f) Q g :=
  wp_act (spec_still ha hw hm) fun r g' hg' => by subst hg'; exact hf r

/-- Going on after a piece of program whose ghost value is known at its end. -/
lemma wp_next {β δ : Type} {p : P β} {f : β → P δ} {Q : δ → Progress → Prop} {h : β → Progress}
    (hp : (proto T start).wp t p (fun r g' => g' = h r) g)
    (hf : ∀ r, (proto T start).wp t (f r) Q (h r)) : (proto T start).wp t (p.bind f) Q g :=
  wp_call hp fun r g' hg' => by subst hg'; exact hf r

lemma bread_wp (b : BlockNo) : (proto T start).wp t (bread b)
    (fun i g' => g' = g.hold ((b, i) :: g.base.held)) g := by
  refine wp_act (spec_bget b) fun i g' hg' => ?_
  subst hg'
  refine wp_still trivial (by simp) (by simp [OfCommit]) fun _ => ?_
  exact wp_still trivial (by simp) (by simp [OfCommit]) fun _ => rfl

lemma brelse_wp {b : BlockNo} {i : Fin NBUF} (hmem : (b, i) ∈ g.base.held) :
    (proto T start).wp t (brelse i) (fun _ g' => g' = g.hold (g.base.held.erase (b, i))) g :=
  wp_still trivial (by simp) (by simp [OfCommit]) fun _ => wp_perform (spec_putRef hmem)

lemma beginOp_wp (hg : g.base.phase = .out) :
    (proto T start).wp t beginOp
      (fun _ g' => g' = { g with base := { g.base with phase := .inOp } }) g := by
  refine wp_iterate (fun _ g' => g' = g) rfl fun _ g' hg' => ?_
  subst hg'
  refine wp_act (spec_beginTest hg) fun r g' hg' => ?_
  subst hg'
  cases r with
  | true => rfl
  | false =>
    refine wp_still trivial (by simp) (by simp [OfCommit]) fun _ => ?_
    change _ = _
    rw [← hg]
    rfl

/-- Writing the header: the blocks of the transaction can now go home. -/
lemma writeHead_wp {m : Progress} (hg : Steady g) (hh : g.base.held = []) (hb : m.base = g.base)
    (hlag : Lag m)
    (hw : ∀ (s : St T) i, (s.cache.buf i).blockno = start →
      watch start t (.bwrite i) () s ⟨g.headed, g.base.lh.take g.home⟩ =
        ⟨m.headed, g.base.lh.take m.home⟩) :
    (proto T start).wp t (writeHead start) (fun _ g' => g' = m) g := by
  refine wp_next (bread_wp start) fun buf => ?_
  refine wp_still trivial (by simp) (fun _ => hg.hold _) fun _ => ?_
  refine wp_act (spec_bwrite (m := m.hold [(start, buf)]) (b := start) (hg.hold _)
    (List.mem_cons_self ..) ?_ hlag fun s => hw s buf) fun _ g' hg' => ?_
  · simp only [Progress.hold, hb, hh]
  · subst hg'
    refine wp_mono (brelse_wp (b := start) (List.mem_cons_self ..)) fun _ g' hg' => ?_
    rw [hg']
    simp only [Progress.hold, List.erase_cons_head, ← hh, ← hb]
    rfl

/-- The blocks of the log are not the header. -/
lemma writeLog_wp (hg : Steady g) (hh : g.base.held = []) (hd : g.headed = false) :
    (proto T start).wp t (writeLog start) (fun _ g' => g' = g) g := by
  refine wp_iterate (fun _ g' => g' = g) rfl fun tail g' hg' => ?_
  subst hg'
  refine wp_act (spec_readN hg) fun n g' hn => ?_
  obtain ⟨-, hroom, rfl⟩ := hn
  split_ifs with hlt
  · have hne : slot start tail ≠ start := Crash.slot_ne_start start (lt_of_lt_of_le hlt hroom)
    refine wp_next (bread_wp (slot start tail)) fun toBuf => ?_
    refine wp_act (spec_readBlock (hg.hold _) tail) fun b g'' hb => ?_
    obtain ⟨-, rfl⟩ := hb
    refine wp_next (bread_wp b) fun fromBuf => ?_
    refine wp_still trivial (by simp) (fun _ => hg) fun _ => ?_
    refine wp_act (spec_bwrite (b := slot start tail) (m := _) hg (by simp [Progress.hold]) rfl
      hg.lag fun s hs => ?_) fun _ g'' hg'' => ?_
    · simp [watch, Progress.hold, hd, hs, hne]
    · subst hg''
      refine wp_next (brelse_wp (b := b) (by simp [Progress.hold])) fun _ => ?_
      refine wp_next (brelse_wp (b := slot start tail) (by simp [Progress.hold])) fun _ => ?_
      change _ = _
      simp only [Progress.hold, List.erase_cons_head, hh]
      rw [← hh]
      rfl
  · rfl

/-- The header after `tail` rounds of `install_trans`. -/
def Progress.atHome (g : Progress) (tail : ℕ) : Progress :=
  { g with base := { g.base with installed := tail }, home := tail }

/-- Each round of `install_trans` writes a block home and unpins it at once. -/
lemma installTrans_wp (hg : Steady g) (hh : g.base.held = []) (hd : g.headed = true)
    (h0 : g.home = 0) : (proto T start).wp t (installTrans start)
      (fun _ g' => g' = g.atHome g.base.lh.length) g := by
  have hstart : g = g.atHome 0 := by
    unfold Progress.atHome
    rw [← h0]
    nth_rewrite 1 [hg.2]
    rfl
  refine wp_iterate (fun tail g' => tail ≤ g.base.lh.length ∧ g' = g.atHome tail)
    ⟨Nat.zero_le _, hstart⟩ fun tail g' hg' => ?_
  obtain ⟨hle, rfl⟩ := hg'
  have hs : Steady (g.atHome tail) := ⟨hg.1, rfl⟩
  refine wp_act (spec_readN hs) fun n g' hn => ?_
  obtain ⟨rfl, -, rfl⟩ := hn
  split_ifs with hlt
  · refine wp_next (bread_wp (slot start tail)) fun lbuf => ?_
    refine wp_act (spec_readBlock (hs.hold _) tail) fun b g'' hb => ?_
    obtain ⟨rfl, rfl⟩ := hb
    refine wp_next (bread_wp _) fun dbuf => ?_
    refine wp_still trivial (by simp) (fun _ => hs) fun _ => ?_
    have hlt' : tail < g.base.lh.length := hlt
    have hb : g.base.lh[tail]? = some (g.base.lh.getD tail 0) := by
      simp [List.getElem?_eq_getElem hlt']
    refine wp_act (spec_bwrite (b := g.base.lh.getD tail 0) hs (List.mem_cons_self ..)
      (m := { (g.atHome tail).hold _ with home := tail + 1 }) rfl
      ⟨Nat.le_succ _, le_refl _⟩ fun s hsb => ?_) fun _ g'' hg'' => ?_
    · simp only [watch, hsb, Progress.hold, Progress.atHome, hd, if_true, List.take_add_one, hb,
        Option.toList_some]
    subst hg''
    refine wp_act (spec_bunpin hg.1 rfl hb (List.mem_cons_self ..)) fun _ g'' hg'' => ?_
    subst hg''
    refine wp_next (brelse_wp (b := slot start tail) (by simp [Progress.hold])) fun _ => ?_
    refine wp_next (brelse_wp (b := g.base.lh.getD tail 0) ?_) fun _ => ?_
    · -- the two buffers may be one
      simp only [Progress.hold, Progress.atHome]
      by_cases he : (g.base.lh.getD tail 0, dbuf) = (slot start tail, lbuf)
      · rw [he, List.erase_cons_head, ← he]
        exact List.mem_cons_self ..
      · rw [List.erase_cons_tail (by simpa using he)]
        exact List.mem_cons_self ..
    · refine ⟨hlt', ?_⟩
      simp only [Progress.hold, Progress.atHome, hh]
      rw [List.erase_comm, List.erase_cons_head, List.erase_cons_head, ← hh]
  · exact show _ = _ by rw [show tail = g.base.lh.length from le_antisymm hle (not_lt.mp hlt)]

lemma commit_wp (hg : Steady g) (hh : g.base.held = []) (hd : g.headed = false)
    (h0 : g.home = 0) : (proto T start).wp t (commit start)
      (fun _ g' => Steady g' ∧ g'.base.held = [] ∧ g'.base.lh = []) g := by
  refine wp_act (spec_readN hg) fun n g' hn => ?_
  obtain ⟨rfl, -, rfl⟩ := hn
  split_ifs with hpos
  · refine wp_next (writeLog_wp hg hh hd) fun _ => ?_
    refine wp_next (writeHead_wp (m := { g' with headed := true }) hg hh rfl hg.lag fun s i hs => ?_)
      fun _ => ?_
    · simp [watch, hd, h0, hs]
    refine wp_next (installTrans_wp (by exact hg) hh rfl h0) fun _ => ?_
    refine wp_act (spec_clearN (by exact ⟨hg.1, rfl⟩) rfl) fun _ g'' hg'' => ?_
    subst hg''
    refine wp_mono (writeHead_wp (m := ⟨{ g'.base with lh := [], installed := 0 }, true, 0⟩)
      (by exact ⟨hg.1, rfl⟩) hh rfl ⟨le_refl _, Nat.zero_le _⟩ fun s i hs => ?_) fun _ g'' hg'' => ?_
    · simp [watch, hs]
    · subst hg''
      exact ⟨⟨hg.1, rfl⟩, hh, rfl⟩
  · have hnil : g'.base.lh = [] := List.length_eq_zero_iff.mp (Nat.eq_zero_of_not_pos hpos)
    exact ⟨hg, hh, hnil⟩

/-- A process between operations. -/
def AtRest (g : Progress) : Prop := Idle g.base

lemma endOp_wp (hp : g.base.phase = .inOp) (hh : g.base.held = []) :
    (proto T start).wp t (endOp start) (fun _ g' => AtRest g') g := by
  refine wp_act (spec_endFirst hp) fun r g' hg' => ?_
  obtain ⟨lh, rfl⟩ := hg'
  cases r with
  | true =>
    refine wp_call (commit_wp (by exact ⟨rfl, rfl⟩) hh rfl rfl) fun _ g' hg' => ?_
    obtain ⟨hs, hheld, hl⟩ := hg'
    exact wp_perform (Spec.mono (spec_endLast hs hl) fun _ g' hg' => hg' ▸ ⟨rfl, hheld⟩)
  | false => exact ⟨rfl, hh⟩

lemma releaseAll_wp (held : List (BlockNo × Fin NBUF)) (hg : g.base.held = held) :
    (proto T start).wp t (releaseAll held) (fun _ g' => g' = g.hold []) g := by
  induction held generalizing g with
  | nil => exact show g = g.hold [] by rw [← hg]; rfl
  | cons x held ih =>
    refine wp_next (brelse_wp (b := x.1) (by rw [hg]; exact List.mem_cons_self ..)) fun _ => ?_
    exact @ih (g.hold (g.base.held.erase x)) (by simp only [Progress.hold, hg, List.erase_cons_head])

lemma runCmds_wp (cs : List Cmd) (hp : g.base.phase = .inOp) :
    (proto T start).wp t (runCmds cs g.base.held) (fun _ g' => g' = g.hold []) g := by
  induction cs generalizing g with
  | nil => exact releaseAll_wp _ rfl
  | cons cmd cs ih =>
    cases cmd with
    | bread b => exact wp_next (bread_wp b) fun i => @ih (g.hold ((b, i) :: g.base.held)) hp
    | store b v =>
      simp only [runCmds]
      cases g.base.held.lookup b with
      | some i => exact wp_still trivial (by simp) (by simp [OfCommit]) fun _ => ih hp
      | none => exact ih hp
    | logWrite b =>
      simp only [runCmds]
      cases hl : g.base.held.lookup b with
      | some i =>
        refine wp_act (spec_logWrite hp (Buffers.lookup_eraseP hl).1) fun _ g' hg' => ?_
        subst hg'
        exact ih hp
      | none => exact ih hp
    | brelse b =>
      simp only [runCmds]
      cases hl : g.base.held.lookup b with
      | some i =>
        refine wp_next (brelse_wp (Buffers.lookup_eraseP hl).1) fun _ => ?_
        rw [(Buffers.lookup_eraseP hl).2]
        exact @ih (g.hold (g.base.held.erase (b, i))) hp
      | none => exact ih hp

lemma operation_wp (cs : List Cmd) (hg : AtRest g) :
    (proto T start).wp t (operation start cs) (fun _ g' => AtRest g') g := by
  refine wp_next (beginOp_wp hg.1) fun _ => ?_
  have hnil : ({ g with base := { g.base with phase := .inOp } } : Progress).base.held = [] := hg.2
  rw [← hnil]
  exact wp_next (runCmds_wp cs rfl) fun _ => endOp_wp rfl rfl

end Programs

lemma enters : (proto T start).Enters fun _ _ g => AtRest g := by
  rintro t ⟨s, h⟩ γ p ⟨s', h'⟩ p' hi hw ⟨⟨rfl, he, cs, rfl⟩, hh⟩
  simp only at he hh
  subst he hh
  exact ⟨γ t, by rwa [Function.update_eq_self], operation_wp cs hw⟩

lemma inv_init (disk : BlockNo → Block) :
    Inv (init T disk).shared fun _ => ⟨⟨.out, [], [], 0⟩, false, 0⟩ where
  base := Buffers.inv_init disk
  room := by simp [init, Group.init]
  idle := by simp [init]
  commit := by simp
  lag := by simp

lemma follows_init (disk : BlockNo → Block) :
    (proto T start).Follows (fun _ _ g => AtRest g) (init T disk) :=
  ⟨_, inv_init disk, fun _ => ⟨rfl, rfl⟩⟩

/-! ### The pins at every point of a run -/

/-- No action takes a buffer away from a block that is in use. -/
lemma caches_step {a : Act} {r : Res a} {i : Fin NBUF} {b : BlockNo}
    (hc : Counted ROOTDEV s.cache (Buffers.uses s)) (hb : 0 < Buffers.uses s b)
    (hi : Caches ROOTDEV s.cache i b) (ho : sem t a kill s = some (.ok s' r)) :
    Caches ROOTDEV s'.cache i b := by
  by_cases ha : Still a
  · exact (caches_congr (Buffers.sem_still kill ha ho).2.1).mpr hi
  cases a with
  | bget b' =>
    simp only [sem] at ho
    split at ho <;> cases ho
    rename_i hg
    exact (hc.bget hg).2.2 i b hb hi
  | putRef j => cases ho; exact caches_putRef.mpr hi
  | bunpin j => cases ho; exact caches_bunpin.mpr hi
  | logWrite j =>
    simp only [sem] at ho
    split_ifs at ho <;> cases ho
    simp only [record]
    split_ifs
    · exact hi
    · exact caches_bpin.mpr hi
  | beginTest | endFirst =>
    simp only [sem] at ho
    split_ifs at ho <;> cases ho <;> exact hi
  | endLast | clearN => cases ho; exact hi
  | _ => exact absurd trivial ha

/-- What holds of the pins between any two actions. -/
structure Balanced (start : BlockNo) (c : Pool (St T × Installs) T Act Res Unit) : Prop where
  /-- A pin is a reference to the block's buffer that is nobody's. -/
  refcnt : ∀ i, (c.shared.1.cache.buf i).dev = ROOTDEV → (c.shared.1.cache.buf i).refcnt =
    (c.shared.1.users.map Prod.snd).count (c.shared.1.cache.buf i).blockno +
      c.shared.1.pins.count (c.shared.1.cache.buf i).blockno
  logged : ∀ b ∈ c.shared.1.lh, b ∉ c.shared.2.home → c.shared.1.pins.count b = 1
  unlogged : ∀ b ∉ c.shared.1.lh, c.shared.1.pins.count b = 0
  /-- The block last written home may still be pinned, but then it is unpinned next. -/
  home : ∀ b ∈ c.shared.2.home, b ∈ c.shared.1.lh ∧ (c.shared.1.pins.count b = 0 ∨
    c.shared.1.pins.count b = 1 ∧ c.shared.2.home.getLast? = some b ∧
      ∀ t a, Performs c t a → OfCommit a →
        ∃ i, a = .bunpin i ∧ Caches ROOTDEV c.shared.1.cache i b)
  /-- A block that is not home yet is cached, and the next step leaves it so. -/
  kept : ∀ b ∈ c.shared.1.lh, b ∉ c.shared.2.home →
    ∃ i, Caches ROOTDEV c.shared.1.cache i b ∧
      ∀ c', Step (watched start T) c c' → Caches ROOTDEV c'.shared.1.cache i b
  ended : ∀ t, Performs c t .endLast → c.shared.1.pins = []

/-- The pins are those of the header from some block on, and all before it are at home. -/
lemma Inv.pins (hi : Inv (s, h) γ) : ∃ k m, s.pins.Perm (s.lh.drop k) ∧ h.home = s.lh.take m ∧
    (m = k ∨ m = k + 1 ∧ ∃ t, (γ t).base.phase = .commit ∧ (γ t).base.lh = s.lh ∧
      (γ t).base.installed = k ∧ (γ t).home = m) := by
  cases hcom : s.committing with
  | false =>
    refine ⟨0, 0, hi.base.idle hcom, ?_, .inl rfl⟩
    rw [show h = ⟨false, []⟩ from hi.idle hcom]
    rfl
  | true =>
    obtain ⟨t, ht⟩ := hi.base.log.committing.mp hcom
    obtain ⟨hlh, hperm⟩ := hi.base.head t ht
    obtain ⟨hle, hlt⟩ := hi.lag t ht
    refine ⟨(γ t).base.installed, (γ t).home, ?_, ?_, ?_⟩
    · rw [show s.lh = (γ t).base.lh from hlh]; exact hperm
    · rw [show s.lh = (γ t).base.lh from hlh, show h = _ from hi.commit t ht]
    · rcases Nat.lt_or_ge (γ t).base.installed (γ t).home with hl | hl
      · exact .inr ⟨le_antisymm hlt hl, t, ht, hlh.symm, rfl, rfl⟩
      · exact .inl (le_antisymm hl hle)

lemma count_drop {l pins : List BlockNo} {k : ℕ} {b : BlockNo} (hn : l.Nodup)
    (hp : pins.Perm (l.drop k)) : pins.count b = if b ∈ l.drop k then 1 else 0 := by
  rw [hp.count_eq]
  exact (hn.sublist (List.drop_sublist k l)).count

lemma mem_drop_of_notMem_take {l : List BlockNo} {k : ℕ} {b : BlockNo} (hb : b ∈ l)
    (h : b ∉ l.take k) : b ∈ l.drop k := by
  rw [← List.take_append_drop k l, List.mem_append] at hb
  exact hb.resolve_left h

lemma balanced {disk : BlockNo → Block} {c : Pool (St T × Installs) T Act Res Unit}
    (hr : Reach (watched start T) (init T disk) c) : Balanced start c := by
  obtain ⟨γ, hi, hmay⟩ := follows_may (follows_reach enters (follows_init disk) hr)
  change T → Progress at γ
  change Inv (c.shared.1, c.shared.2) γ at hi
  obtain ⟨k, m, hpins, hhome, hkm⟩ := hi.pins
  have hnodup := hi.base.log.hist.nodup
  have hcount := fun b => count_drop (b := b) hnodup hpins
  have hlogged : ∀ b ∈ c.shared.1.lh, b ∉ c.shared.2.home → b ∈ c.shared.1.lh.drop k := by
    intro b hb hh
    refine mem_drop_of_notMem_take hb fun hk => hh ?_
    rw [hhome]
    refine (List.take_subset_take_left _ ?_) hk
    omega
  have hpos : ∀ b ∈ c.shared.1.lh, b ∉ c.shared.2.home → 0 < Buffers.uses c.shared.1 b := by
    intro b hb hh
    have : c.shared.1.pins.count b = 1 := by rw [hcount, if_pos (hlogged b hb hh)]
    unfold Buffers.uses
    omega
  refine ⟨fun i hdev => ?_, fun b hb hh => ?_, fun b hb => ?_, fun b hb => ?_, fun b hb hh => ?_,
    fun t ht => ?_⟩
  · rw [hi.base.refs.count i, if_pos hdev]
    rfl
  · rw [hcount, if_pos (hlogged b hb hh)]
  · rw [hcount, if_neg fun h => hb (List.mem_of_mem_drop h)]
  · rw [hhome] at hb ⊢
    refine ⟨List.mem_of_mem_take hb, ?_⟩
    rcases hkm with rfl | ⟨rfl, t, ht, hlh, hk, hm⟩
    · left
      rw [hcount, if_neg (List.disjoint_take_drop hnodup (le_refl m) hb)]
    · rw [List.take_add_one, List.mem_append] at hb
      rcases hb with hb | hb
      · left
        rw [hcount, if_neg (List.disjoint_take_drop hnodup (le_refl k) hb)]
      · -- the block at home that is still pinned
        right
        have hget : c.shared.1.lh[k]? = some b := by simpa using hb
        obtain ⟨hlt, hb'⟩ := List.getElem?_eq_some_iff.mp hget
        refine ⟨?_, ?_, fun u a hu ha => ?_⟩
        · rw [hcount, List.drop_eq_getElem_cons hlt, hb', if_pos (List.mem_cons_self ..)]
        · rw [List.take_succ_eq_append_getElem hlt, hb', List.getLast?_concat]
        · have hum := hmay u a hu
          have hsteady : ¬ Steady (γ u) := fun hs => by
            obtain rfl := hi.base.log.one u t hs.1 ht
            have := hs.2
            omega
          cases a with
          | bunpin i =>
            obtain ⟨hp, -, b', hmem, hb'⟩ := hum
            obtain rfl := hi.base.log.one u t hp ht
            rw [hlh, hk, hget] at hb'
            cases hb'
            exact ⟨i, rfl, hi.base.held u _ hmem⟩
          | endLast => exact absurd ⟨hum.1, hum.2.1⟩ hsteady
          | _ => exact absurd (hum ha) hsteady
  · obtain ⟨i, hi'⟩ := hi.base.refs.present b (hpos b hb hh)
    refine ⟨i, hi', fun c' hs => ?_⟩
    cases hs with
    | run t hn =>
      generalize c.thread t = p at hn
      cases hn with
      | act kill ho => exact caches_step hi.base.refs (hpos b hb hh) hi' (observe_ok.mp ho).1
      | loop => exact hi'
    | enter t hn =>
      obtain ⟨⟨-, he, -⟩, -⟩ := hn
      simpa only [he] using hi'
  · obtain ⟨hp, -, hl⟩ := hmay t _ ht
    have hperm := (hi.base.head t hp).2
    rw [hl, List.drop_nil] at hperm
    exact hperm.eq_nil

/-- **Log pins balance.** Between any two actions a block is pinned once if it is in the header
and not at home, and not at all otherwise, save that the block last written home may be pinned
until the commit's next action unpins it. A block that is not at home stays cached, and a
commit ends with no pin. -/
theorem pins_balance (T : Type) [DecidableEq T] (start : BlockNo) (disk : BlockNo → Block) :
    ∀ c, Reach (watched start T) (init T disk) c → Balanced start c :=
  fun _ hr => balanced hr

/-- An operation that logs block 100, so many steps after it has begun. -/
lemma exists_logged (n : ℕ) {β : Type} (f : St (Fin 1) × Installs → β) {v : β}
    (h : (schedule (watched 2 (Fin 1)) [(0, false, n)]
      ⟨(init (Fin 1) fun _ => zero).shared, Function.update (init (Fin 1) fun _ => zero).thread 0
        (operation 2 [.bread 100, .logWrite 100, .brelse 100])⟩).map (fun c => f c.shared) = some v) :
    ∃ c, Reach (watched 2 (Fin 1)) (init (Fin 1) fun _ => zero) c ∧ f c.shared = v := by
  obtain ⟨c, hr, hc⟩ := exists_of_schedule (watched 2 (Fin 1)) (fun c => f c.shared) _ _ h
  exact ⟨c, .head (.enter 0 ⟨⟨rfl, rfl, _, rfl⟩, rfl⟩) hr, hc⟩

/-- When the commit is about to write the header nothing is at home. -/
theorem pins_balance_logged : ∃ c, Reach (watched 2 (Fin 1)) (init (Fin 1) fun _ => zero) c ∧
    (100 : BlockNo) ∈ c.shared.1.lh ∧ c.shared.1.pins.count 100 = 1 := by
  obtain ⟨c, hr, hc⟩ := exists_logged 31 (fun s => (s.1.lh, s.2.home))
    (v := ([100], [])) (by decide +kernel)
  simp only [Prod.mk.injEq] at hc
  have hmem : (100 : BlockNo) ∈ c.shared.1.lh := by simp [hc.1]
  have hhome : (100 : BlockNo) ∉ c.shared.2.home := by simp [hc.2]
  exact ⟨c, hr, hmem, (pins_balance (Fin 1) 2 (fun _ => zero) c hr).logged 100 hmem hhome⟩

/-- **A pin outlives the installation**: block 100 is at home and still pinned between the
`bwrite` and the `bunpin` of `install_trans`. -/
theorem pinned_at_home : ∃ c, Reach (watched 2 (Fin 1)) (init (Fin 1) fun _ => zero) c ∧
    (100 : BlockNo) ∈ c.shared.1.lh ∧ (100 : BlockNo) ∈ c.shared.2.home ∧
      c.shared.1.pins.count 100 = 1 := by
  obtain ⟨c, hr, hc⟩ := exists_logged 45 (fun s => (s.1.lh, s.2.home, s.1.pins))
    (v := ([100], [100], [100])) (by decide +kernel)
  simp only [Prod.mk.injEq] at hc
  exact ⟨c, hr, by simp [hc.1], by simp [hc.2.1], by simp [hc.2.2]⟩

end Xv6.Log.Pins
