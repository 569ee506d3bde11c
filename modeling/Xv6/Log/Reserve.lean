import Xv6.Conc.Quota
import Xv6.Log.Exclusion

/-!
Log space. `begin_op` admits an operation only if every operation in progress could still log
`MAXOPBLOCKS` blocks. That suffices for the blocks a transaction gains; it does not for those
it absorbs, since `log_write` checks for room before it looks for the block.
-/

namespace Xv6.Log.Reserve

open Xv6.Conc Xv6.Conc.Prog Xv6.Conc.Proto Xv6.Disk Xv6.Param Xv6.Log.Group Xv6.Log.Exclusion

variable {T : Type} [DecidableEq T]

/-- The blocks that the current operation of `t` has logged. -/
def opBlocks (s : St T) (t : T) : Finset BlockNo :=
  ((s.written.filter fun w => w.who = t ∧ w.op = s.ops t).map Logged.block).toFinset

/-- The block that `log_write(b)` logs, for the buffer `i`. -/
def blockOf (s : St T) (i : Fin NBUF) : BlockNo := (s.cache.buf i).blockno

/-- No operation logs more than `MAXOPBLOCKS` distinct blocks. -/
def limit (t : T) : Act → St T → Bool
  | .logWrite i, s => (insert (blockOf s i) (opBlocks s t)).card ≤ MAXOPBLOCKS
  | _, _ => true

/-- The log is full, and `log_write` is given a block that it holds already. -/
def fullAbsorb : Act → St T → Bool
  | .logWrite i, s => s.lh.length = LOGBLOCKS ∧ blockOf s i ∈ s.lh
  | _, _ => false

/-- The runs in which every operation keeps to its share. -/
def limited (start : BlockNo) (T : Type) [DecidableEq T] : Sys (St T) T Bool Act Res Unit :=
  (sys start T).restrict fun t a s => limit t a s

/-- What is logged or reserved fits the log. -/
def Fits (s : St T) : Prop :=
  Quota.Within LOGBLOCKS MAXOPBLOCKS s.lh.length s.inside fun t => (opBlocks s t).card

variable {s s' : St T} {γ : T → Phase} {t : T} {kill : Bool}

lemma mem_opBlocks {b : BlockNo} :
    b ∈ opBlocks s t ↔ ∃ w ∈ s.written, w.who = t ∧ w.op = s.ops t ∧ w.block = b := by
  simp [opBlocks, and_assoc]

/-- What an operation in progress has logged is in the current transaction. -/
lemma opBlocks_subset (hi : Exclusion.Inv s γ) (ht : γ t = .inOp) {b : BlockNo}
    (hb : b ∈ opBlocks s t) : b ∈ s.lh := by
  obtain ⟨w, hw, hwho, hop, rfl⟩ := mem_opBlocks.mp hb
  exact hi.hist.current w hw (hi.live t ht w hw hwho hop)

lemma opBlocks_record (i : Fin NBUF) (u : T) : opBlocks (record t i s) u =
    if u = t then insert (blockOf s i) (opBlocks s u) else opBlocks s u := by
  ext b
  split_ifs with hu
  · subst hu
    simp [mem_opBlocks, record, blockOf, eq_comm]
  · simp [mem_opBlocks, record, Ne.symm hu]

lemma fits_record (hi : Exclusion.Inv s γ) (ht : γ t = .inOp) (i : Fin NBUF)
    (hlim : limit t (.logWrite i) s) (h : Fits s) : Fits (record t i s) := by
  have hin : t ∈ s.inside := (hi.inside t).mpr ht
  have hmono : ∀ u, (opBlocks s u).card ≤ (opBlocks (record t i s) u).card := fun u => by
    rw [opBlocks_record]
    split_ifs
    · exact Finset.card_le_card (Finset.subset_insert _ _)
    · exact le_refl _
  by_cases hb : blockOf s i ∈ s.lh
  · -- absorbed: the header does not grow
    have hlh : (record t i s).lh = s.lh := if_pos hb
    unfold Fits
    rw [hlh]
    exact h.mono (Finset.Subset.refl _) fun u _ => hmono u
  · have hlh : (record t i s).lh = s.lh ++ [blockOf s i] := if_neg hb
    have hnew : blockOf s i ∉ opBlocks s t := fun hmem => hb (opBlocks_subset hi ht hmem)
    have hcard := Finset.card_insert_of_notMem hnew
    unfold Fits
    rw [hlh, List.length_append]
    refine Quota.Within.spend h hin ?_ ?_ fun u hu => by rw [opBlocks_record, if_neg hu]
    · have := of_decide_eq_true hlim
      omega
    · rw [opBlocks_record, if_pos rfl, hcard]

/-- Every action within the limit keeps the log space sufficient. -/
lemma fits_step {a : Act} {r : Res a} (hi : Exclusion.Inv s γ) (hm : Exclusion.May a (γ t))
    (hlim : limit t a s) (h : Fits s) (ho : sem t a kill s = some (.ok s' r)) : Fits s' := by
  by_cases hn : Neutral a
  · have hlog := sem_neutral hn ho
    simp only [logOf, Prod.mk.injEq] at hlog
    obtain ⟨-, -, h3, h4, h5, h6, -⟩ := hlog
    unfold Fits opBlocks at h ⊢
    rwa [h3, h4, h5, h6]
  cases a with
  | beginTest =>
    simp only [sem] at ho
    split_ifs at ho with hcom hfull <;> cases ho
    · exact h
    · exact h
    · -- admission asks for room for every operation's whole share
      have hout : t ∉ s.inside := by simp [hi.inside, show γ t = .out from hm]
      refine Quota.within_of_room ?_
      rw [Finset.card_insert_of_notMem hout]
      rw [hi.count] at hfull
      exact_mod_cast not_lt.mp hfull
  | endFirst =>
    simp only [sem] at ho
    split_ifs at ho <;> cases ho <;>
      exact h.mono (Finset.erase_subset _ _) fun u _ => le_refl _
  | endLast => cases ho; exact h
  | logWrite i =>
    simp only [sem] at ho
    split_ifs at ho <;> cases ho
    exact fits_record hi hm i hlim h
  | clearN =>
    cases ho
    exact (Nat.add_le_add_right (Nat.zero_le _) _).trans h
  | _ => exact absurd trivial hn

variable {start : BlockNo} {c c' : Pool (St T) T Act Res Unit}

lemma fits_pool_step (hf : (proto start T).Follows Exclusion.Q c) (h : Fits c.shared)
    (hs : Step (limited start T) c c') : Fits c'.shared := by
  obtain ⟨γ, hi, hmay⟩ := follows_may hf
  cases hs with
  | run t hn =>
    generalize hp : c.thread t = p at hn
    cases hn with
    | act kill ho =>
      obtain ⟨hlim, ho⟩ := restrict_sem.mp ho
      exact fits_step hi (hmay t _ ⟨_, hp⟩) hlim h ho
    | loop b body k => exact h
  | enter t he =>
    obtain ⟨-, rfl, -⟩ := he
    exact h

lemma reach_follows {disk : BlockNo → Block} (hr : Reach (limited start T) (init T disk) c) :
    (proto start T).Follows Exclusion.Q c :=
  follows_reach enters (follows_init disk) hr.of_restrict

lemma reach_fits {disk : BlockNo → Block} (hr : Reach (limited start T) (init T disk) c) :
    Fits c.shared := by
  induction hr with
  | refl => simp [Fits, Quota.Within, init]
  | tail hr hs ih => exact fits_pool_step (reach_follows hr) ih hs

/-- In a run within the limit, the log overflows exactly where a full log is given a block
that it holds. -/
lemma overflow_iff {disk : BlockNo → Block} (hr : Reach (limited start T) (init T disk) c) (t : T) :
    Panics (limited start T) t c.shared (c.thread t) "too big a transaction" ↔
      ∃ a, Performs c t a ∧ limit t a c.shared ∧ fullAbsorb a c.shared := by
  obtain ⟨γ, hi, hmay⟩ := follows_may (reach_follows hr)
  have hfits := reach_fits hr
  rw [limited, panics_restrict]
  constructor
  · rintro ⟨a, k, kill, hp, hlim, ho⟩
    have hn : ¬ Neutral a := fun hn => by simpa using panic_neutral hn ho
    cases a with
    | logWrite i =>
      have hfull : LOGBLOCKS ≤ c.shared.lh.length := by
        simp only [sys, sem] at ho
        split_ifs at ho with h1 h2
        · exact h1
        · simp at ho
        · simp at ho
      refine ⟨_, ⟨k, hp⟩, hlim, decide_eq_true ⟨le_antisymm hfits.used_le hfull, ?_⟩⟩
      by_contra hb
      -- a block that is new to the log is paid for by the operation's share
      have ht : γ t = .inOp := hmay t _ ⟨k, hp⟩
      have hnew : blockOf c.shared i ∉ opBlocks c.shared t := fun h => hb (opBlocks_subset hi ht h)
      have hlim' := of_decide_eq_true hlim
      rw [Finset.card_insert_of_notMem hnew] at hlim'
      exact absurd (hfits.lt ((hi.inside t).mpr ht) hlim') (not_lt.mpr hfull)
    | beginTest => simp only [sys, sem] at ho; split_ifs at ho <;> simp at ho
    | endFirst => simp only [sys, sem] at ho; split_ifs at ho <;> simp at ho
    | endLast => simp [sys, sem] at ho
    | clearN => simp [sys, sem] at ho
    | _ => exact absurd trivial hn
  · rintro ⟨a, ⟨k, hp⟩, hlim, habs⟩
    cases a with
    | logWrite i => exact ⟨_, k, false, hp, hlim, if_pos (of_decide_eq_true habs).1.ge⟩
    | _ => cases habs

/-- The runs in which, moreover, no `log_write` into a full log is of a block it holds. -/
def spared (start : BlockNo) (T : Type) [DecidableEq T] : Sys (St T) T Bool Act Res Unit :=
  (limited start T).restrict fun _ a s => ¬ fullAbsorb a s

/-- **When the reservation suffices.** In every run in which each operation logs at most
`MAXOPBLOCKS` distinct blocks, a process is about to fail with "too big a transaction" exactly
if it logs, into a full log, a block that the log holds already. In the runs without such a
`log_write` nobody ever fails so. -/
theorem overflow_exact (T : Type) [DecidableEq T] (start : BlockNo) (disk : BlockNo → Block) :
    (∀ c, Reach (limited start T) (init T disk) c → ∀ t,
      (Panics (limited start T) t c.shared (c.thread t) "too big a transaction" ↔
        ∃ a, Performs c t a ∧ limit t a c.shared ∧ fullAbsorb a c.shared)) ∧
    ∀ c, Reach (spared start T) (init T disk) c → ∀ t,
      ¬ Panics (spared start T) t c.shared (c.thread t) "too big a transaction" := by
  refine ⟨fun c hr t => overflow_iff hr t, fun c hr t hp => ?_⟩
  obtain ⟨a, k, kill, hk, hnot, ho⟩ := panics_restrict.mp hp
  obtain ⟨b, ⟨k', hk'⟩, -, habs⟩ := (overflow_iff hr.of_restrict t).mp ⟨a, k, kill, hk, ho⟩
  rw [hk] at hk'
  cases hk'
  exact hnot habs

/-! ### Three operations that use their whole share -/

/-- Thread `t` logs ten blocks of its own, and the last one logs its last block once more. -/
def fillLog (t : Fin 3) : List Cmd :=
  ((List.range 10).flatMap fun i =>
    let b : BlockNo := .ofNat (100 + 10 * t + i)
    [.bread b, .logWrite b, .brelse b]) ++
  if t = 2 then [.bread 129, .logWrite 129] else []

/-- The schedule up to where the three operations have filled the log. -/
lemma exists_full : ∃ c, Reach (limited 2 (Fin 3)) (init (Fin 3) fun _ => zero) c ∧
    panicNow (limited 2 (Fin 3)) 2 false c = some "too big a transaction" := by
  have hs := reach_started (S := limited 2 (Fin 3)) 2 (fun _ _ cs => ⟨rfl, rfl, cs, rfl⟩)
    (fun _ => zero) fillLog
  obtain ⟨c, hr, hc⟩ := exists_of_schedule (limited 2 (Fin 3))
    (panicNow (limited 2 (Fin 3)) 2 false) (started 2 (fun _ => zero) fillLog)
    [(0, false, 2), (1, false, 2), (2, false, 2), (0, false, 60), (1, false, 60), (2, false, 63)]
    (b := some "too big a transaction") (by decide +kernel)
  exact ⟨c, hs.trans hr, hc⟩

theorem overflow_exact_full : ∃ c, Reach (limited 2 (Fin 3)) (init (Fin 3) fun _ => zero) c ∧
    ∃ a, Performs c 2 a ∧ fullAbsorb a c.shared := by
  obtain ⟨c, hr, hp⟩ := exists_full
  obtain ⟨a, ha, -, habs⟩ :=
    ((overflow_exact (Fin 3) 2 fun _ => zero).1 c hr 2).mp (panics_of_panicNow hp)
  exact ⟨c, hr, a, ha, habs⟩

/-- **The reservation is not sufficient**: three operations of ten blocks each fill the log,
and then one of them fails when it logs one of its blocks again. -/
theorem overflow_reached : ∃ c, Reach (limited 2 (Fin 3)) (init (Fin 3) fun _ => zero) c ∧
    Panics (limited 2 (Fin 3)) 2 c.shared (c.thread 2) "too big a transaction" := by
  obtain ⟨c, hr, hp⟩ := exists_full
  exact ⟨c, hr, panics_of_panicNow hp⟩

end Xv6.Log.Reserve
