import Xv6.Disk.Flight

/-!
Descriptor accounting of the disk driver. The programs follow the protocol of `vdisk_lock`, so
at every point of every run free descriptors and requests in flight share out the descriptors,
and the driver does not panic.
-/

namespace Xv6.Disk.Driver

open Xv6.Conc Xv6.Conc.Prog Xv6.Conc.Proto Xv6.Data.Ring Xv6.Disk.Virtio Xv6.Disk.Flight

variable {P C B : Type} [DecidableEq P] [DecidableEq C] [DecidableEq B]

/-! ### Specifications -/

/-- Only a process that owns no descriptor waits for one, and the handler clears `b->disk` of
the buffer that it has found. -/
def May : Act B → Ghost B → Prop
  | .sleep .free, g => g.own = [] ∧ g.holds = true
  | .clearDisk b, g => ∃ i, g.look = .found i b
  | _, _ => True

def proto (P C B : Type) [DecidableEq P] [DecidableEq C] [DecidableEq B] (n m : BitVec 16) :
    Proto (disk P C B) where
  Ghost := Ghost B
  Inv s := Inv s n m
  May := May
  Ok _ := False

variable {n m : BitVec 16} {t : Ctx P C} {p : P} {g : Ghost B} {s s' : State P C B}
  {γ : Ctx P C → Ghost B}

/-- What an action does to the invariant. -/
lemma spec_base {a : Act B} {Q : Res a → Ghost B → Prop} (hm : May a g)
    (h : ∀ (s : State P C B) γ c, Inv s n m γ → γ t = g → Local s t g →
      (∀ msg, sem t a c s.1 ≠ some (.panic msg)) ∧ ∀ w r, sem t a c s.1 = some (.ok w r) →
        ∃ g', Inv (w, watch t a r s.1 s.2) n m (Function.update γ t g') ∧ Q r g') :
    (proto P C B n m).Spec t a g Q := by
  refine ⟨hm, fun s γ c hi hg o ho => ?_⟩
  change Ctx P C → Ghost B at γ
  obtain ⟨hpanic, hok⟩ := h s γ c hi hg (hg ▸ hi.each t)
  cases o with
  | panic msg => exact hpanic msg (observe_panic.mp ho)
  | ok s' r =>
    obtain ⟨w, h'⟩ := s'
    obtain ⟨hsem, hw⟩ := observe_ok.mp ho
    simp only at hsem hw
    subst hw
    exact hok w r hsem

/-- An action that changes nothing but locks and who is asleep. -/
lemma spec_quiet {a : Act B} {Q : Res a → Ghost B → Prop} (hm : May a g)
    (hw : ∀ r (s : St P C B) h, watch t a r s h = h)
    (h : ∀ (s : State P C B) c, Local s t g →
      (∀ msg, sem t a c s.1 ≠ some (.panic msg)) ∧ ∀ w r, sem t a c s.1 = some (.ok w r) →
        Quiet t s (w, s.2) ∧ ∃ g', Local (w, s.2) t g' ∧ g'.own = g.own ∧ g'.trip = g.trip ∧
          (g.look = .cleared → g'.look = .cleared) ∧ Q r g') :
    (proto P C B n m).Spec t a g Q := by
  refine spec_base hm fun s γ c hi hg hl => ?_
  obtain ⟨hpanic, hok⟩ := h s c hl
  refine ⟨hpanic, fun w r hsem => ?_⟩
  obtain ⟨hq, g', hl', hown, htrip, hlook, hQ⟩ := hok w r hsem
  rw [hw]
  exact ⟨g', hi.quiet hg hq hl' hown htrip hlook, hQ⟩

omit [DecidableEq P] [DecidableEq C] [DecidableEq B] in
lemma quiet_refl : Quiet t s s := ⟨rfl, rfl, fun _ _ => Iff.rfl, fun _ _ _ h => h⟩

lemma spec_acquire (hl : g.look = .none)
    (ht : ∀ r, g.trip = some r → r.stage = .flying) :
    (proto P C B n m).Spec t .acquire g fun _ g' => g' = { g with holds := true } := by
  refine spec_quiet trivial (fun _ _ _ => by cases t <;> rfl) fun s c hloc => ?_
  simp only [sem]
  constructor
  · intro msg hp
    split_ifs at hp
    cases hp
  · intro w r hsem
    split_ifs at hsem with hfree
    cases hsem
    have hq : Quiet t s ({ s.1 with lock := some t }, s.2) := by
      refine ⟨rfl, rfl, fun u hu => ?_, fun _ _ _ h => h⟩
      simp [hfree, Ne.symm hu]
    refine ⟨hq, { g with holds := true }, ?_, rfl, rfl, fun h => h, rfl⟩
    exact hloc.quiet hq (by simp) hloc.buf (fun r hr => ⟨rfl, .inl (ht r hr)⟩)
      (fun h => by cases h) (by rw [hl]; trivial)

lemma spec_release (hh : g.holds = true) (hl : g.look = .none) (ho : g.own = [])
    (ht : g.trip = none) :
    (proto P C B n m).Spec t .release g fun _ g' => g' = { g with holds := false } := by
  refine spec_quiet trivial (fun _ _ _ => by cases t <;> rfl) fun s c hloc => ?_
  have hlock := hloc.lock.mp hh
  simp only [sem, if_pos hlock]
  refine ⟨fun msg => by simp, fun w r hsem => ?_⟩
  cases hsem
  have hq : Quiet t s ({ s.1 with lock := none }, s.2) := by
    refine ⟨rfl, rfl, fun u hu => ?_, fun _ _ _ h => h⟩
    simp [hlock, Ne.symm hu]
  refine ⟨hq, { g with holds := false }, ?_, rfl, rfl, fun h => h, rfl⟩
  exact hloc.quiet hq (by simp) hloc.buf (fun r hr => by rw [ht] at hr; cases hr)
    (fun _ => .inl ho) (by rw [hl]; trivial)

lemma spec_sleep {c : Chan B} (hh : g.holds = true) (hl : g.look = .none)
    (ho : c = .free → g.own = []) (ht : ∀ r, g.trip = some r → r.stage = .flying)
    (hout : g.own = [] ∨ ∃ r, g.trip = some r) :
    (proto P C B n m).Spec (.proc p) (.sleep c) g fun _ g' => g' = { g with holds := false } := by
  refine spec_quiet (by cases c with
    | free => exact ⟨ho rfl, hh⟩
    | buf b => trivial) (fun _ _ _ => rfl) fun s ch hloc => ?_
  have hlock := hloc.lock.mp hh
  simp only [sem, if_pos hlock]
  refine ⟨fun msg => by simp, fun w r hsem => ?_⟩
  cases hsem
  have hq : Quiet (.proc p) s ({ s.1 with
      lock := none, asleep := Function.update s.1.asleep p (some c) }, s.2) := by
    refine ⟨rfl, rfl, fun u hu => ?_, fun _ _ _ h => h⟩
    simp [hlock, Ne.symm hu]
  refine ⟨hq, { g with holds := false }, ?_, rfl, rfl, fun h => h, rfl⟩
  exact hloc.quiet hq (by simp) hloc.buf (fun r hr => ⟨rfl, .inl (ht r hr)⟩)
    (fun _ => hout) (by rw [hl]; trivial)

omit [DecidableEq P] [DecidableEq C] [DecidableEq B] in
/-- A thread's knowledge when only who is asleep changes. -/
lemma local_asleep {f : P → Option (Chan B)} (hl : Local s t g) :
    Local ({ s.1 with asleep := f }, s.2) t g := by
  obtain ⟨h1, h2, h3, h4, h5, h6, h7, h8⟩ := hl
  refine ⟨h1, h2, h3, fun hg => (h4 hg).congr fun _ _ => rfl, fun r hr => ?_, h6, h7, ?_⟩
  · obtain ⟨e1, e2, e3, e4, e5⟩ := h5 r hr
    refine ⟨e1, e2, ⟨e3.desc0, e3.desc1, e3.desc2, e3.ops, e3.info⟩, e4, ?_⟩
    cases hs : r.stage <;> rw [hs] at e5 <;> exact e5
  · cases hs : g.look <;> rw [hs] at h8 <;> exact h8

lemma spec_awake :
    (proto P C B n m).Spec (.proc p) .awake g fun _ g' => g' = g := by
  refine spec_quiet trivial (fun _ _ _ => rfl) fun s ch hloc => ?_
  simp only [sem]
  constructor
  · intro msg hp
    split_ifs at hp
    cases hp
  · intro w r hsem
    split_ifs at hsem
    cases hsem
    exact ⟨⟨rfl, rfl, fun _ _ => Iff.rfl, fun _ _ _ h => h⟩, g, local_asleep hloc, rfl, rfl,
      fun h => h, rfl⟩

lemma spec_wakeup (c : Chan B) :
    (proto P C B n m).Spec t (.wakeup c) g fun _ g' => g' = g := by
  refine spec_quiet trivial (fun _ _ _ => by cases t <;> rfl) fun s ch hloc => ?_
  refine ⟨fun msg => by simp [sem], fun w r hsem => ?_⟩
  cases t <;> cases hsem <;>
    exact ⟨⟨rfl, rfl, fun _ _ => Iff.rfl, fun _ _ _ h => h⟩, g, local_asleep hloc, rfl, rfl,
      fun h => h, rfl⟩

/-! The sleeplock of a buffer. -/

omit [DecidableEq P] [DecidableEq C] in
lemma quiet_setBuf {b : B} {v : Buf P} (hd : v.disk = (s.1.buf b).disk)
    (hl : ∀ p, t ≠ .proc p → (s.1.buf b).lock = some p → v.lock = some p) :
    Quiet t s (setBuf b v s.1, s.2) := by
  have hdisk : (fun b' => ((Function.update s.1.buf b v) b').disk) =
      fun b' => (s.1.buf b').disk := by
    funext b'
    by_cases hb : b' = b
    · rw [hb, Function.update_self, hd]
    · rw [Function.update_of_ne hb]
  refine ⟨?_, rfl, fun _ _ => Iff.rfl, fun b' p hp hl' => ?_⟩
  · simp only [core, setBuf, hdisk]
  · by_cases hb : b' = b
    · subst hb
      simpa [setBuf] using hl p hp hl'
    · simpa [setBuf, hb] using hl'

lemma spec_acquiresleep (b : B) (ht : g.trip = none) (hl : g.look = .none) (ho : g.own = []) :
    (proto P C B n m).Spec (.proc p) (.acquiresleep b) g fun _ g' =>
      g' = { g with buf := some b } := by
  refine spec_quiet trivial (fun _ _ _ => rfl) fun s ch hloc => ?_
  simp only [sem]
  constructor
  · intro msg hp
    split_ifs at hp
    cases hp
  · intro w r hsem
    split_ifs at hsem with hfree
    cases hsem
    have hq : Quiet (.proc p) s
        (setBuf b { s.1.buf b with lock := some p } s.1, s.2) :=
      quiet_setBuf rfl fun q hq h => by rw [hfree] at h; cases h
    refine ⟨hq, { g with buf := some b }, ?_, rfl, rfl, fun h => h, rfl⟩
    refine hloc.quiet hq hloc.lock (fun b' hb' => ?_) (fun r hr => by rw [ht] at hr; cases hr)
      (fun _ => .inl ho) (by rw [hl]; trivial)
    cases hb'
    exact ⟨p, rfl, by simp [setBuf]⟩

lemma spec_releasesleep {b : B} (hb : g.buf = some b) (ht : g.trip = none) (hl : g.look = .none)
    (ho : g.own = []) :
    (proto P C B n m).Spec t (.releasesleep b) g fun _ g' => g' = { g with buf := none } := by
  refine spec_quiet trivial (fun _ _ _ => by cases t <;> rfl) fun s ch hloc => ?_
  refine ⟨fun msg => by cases t <;> simp [sem], fun w r hsem => ?_⟩
  have hw : w = setBuf b { s.1.buf b with lock := none } s.1 := by cases t <;> cases hsem <;> rfl
  subst hw
  obtain ⟨p, rfl, hp⟩ := hloc.buf b hb
  have hq : Quiet (.proc p) s (setBuf b { s.1.buf b with lock := none } s.1, s.2) := by
    refine quiet_setBuf rfl fun q hq h => absurd ?_ hq
    rw [hp] at h
    rw [Option.some.inj h]
  refine ⟨hq, { g with buf := none }, ?_, rfl, rfl, fun h => h, rfl⟩
  exact hloc.quiet hq hloc.lock (fun b' hb' => by cases hb')
    (fun r hr => by rw [ht] at hr; cases hr) (fun _ => .inl ho) (by rw [hl]; trivial)

lemma spec_setBlockno {b : B} (k : BlockNo) (ht : g.trip = none) (hl : g.look = .none)
    (ho : g.own = []) :
    (proto P C B n m).Spec t (.setBlockno b k) g fun _ g' => g' = g := by
  refine spec_quiet trivial (fun _ _ _ => by cases t <;> rfl) fun s ch hloc => ?_
  refine ⟨fun msg => by cases t <;> simp [sem], fun w r hsem => ?_⟩
  have hw : w = setBuf b { s.1.buf b with blockno := k } s.1 := by
    cases t <;> cases hsem <;> rfl
  subst hw
  have hq : Quiet t s (setBuf b { s.1.buf b with blockno := k } s.1, s.2) :=
    quiet_setBuf rfl fun _ _ h => h
  refine ⟨hq, { g with buf := g.buf }, ?_, rfl, rfl, fun h => h, rfl⟩
  refine hloc.quiet hq hloc.lock (fun b' hb' => ?_) (fun r hr => by rw [ht] at hr; cases hr)
    (fun _ => .inl ho) (by rw [hl]; trivial)
  obtain ⟨p, hp, h⟩ := hloc.buf b' hb'
  refine ⟨p, hp, ?_⟩
  by_cases hbb : b' = b
  · subst hbb
    simpa [setBuf] using h
  · simpa [setBuf, hbb] using h

/-! Reading. -/

/-- An action that only reads. -/
lemma spec_read {a : Act B} {Q : Res a → Ghost B → Prop} (hm : May a g)
    (hw : ∀ r (s : St P C B) h, watch t a r s h = h)
    (hs : ∀ (s : State P C B) c o, Local s t g → sem t a c s.1 = some o →
      ∃ r, o = .ok s.1 r ∧ Q r g) : (proto P C B n m).Spec t a g Q := by
  refine spec_quiet hm hw fun s c hloc => ⟨fun msg hp => ?_, fun w r hsem => ?_⟩
  · obtain ⟨r, hr, -⟩ := hs s c _ hloc hp
    cases hr
  · obtain ⟨r', hr, hq⟩ := hs s c _ hloc hsem
    cases hr
    exact ⟨quiet_refl, g, hloc, rfl, rfl, fun h => h, hq⟩

lemma spec_blockno (b : B) : (proto P C B n m).Spec t (.blockno b) g fun _ g' => g' = g := by
  refine spec_read trivial (fun _ _ _ => by cases t <;> rfl) fun s c o _ ho => ?_
  cases t <;> cases ho <;> exact ⟨_, rfl, rfl⟩

omit [DecidableEq P] [DecidableEq C] [DecidableEq B] in
lemma chained_head {i : Fin NUM} {l : List (Fin NUM)} (h : Chained s (i :: l)) :
    (l = [] ∧ (descAt s.1 i).flags &&& VRING_DESC_F_NEXT = 0) ∨
      ∃ j l', l = j :: l' ∧ (descAt s.1 i).flags &&& VRING_DESC_F_NEXT ≠ 0 ∧
        (descAt s.1 i).next.toNat = j ∧ Chained s l := by
  have hd : descAt s.1 i = s.1.desc i := by simp [descAt]
  rw [hd]
  cases l with
  | nil => exact .inl ⟨rfl, h⟩
  | cons j l => exact .inr ⟨j, l, rfl, h⟩

/-- Following a chain of its own, a process comes to its next descriptor. -/
lemma spec_link {i : Fin NUM} {l : List (Fin NUM)} (hl : g.linked = true) (ho : g.own = i :: l) :
    (proto P C B n m).Spec t (.link i) g fun r g' => g' = g ∧
      ((l = [] ∧ r.1 &&& VRING_DESC_F_NEXT = 0) ∨
        ∃ j l', l = j :: l' ∧ r.1 &&& VRING_DESC_F_NEXT ≠ 0 ∧ r.2.toNat = j) := by
  refine spec_read trivial (fun _ _ _ => by cases t <;> rfl) fun s c o hloc hs => ?_
  have hch := hloc.linked hl
  rw [ho] at hch
  have hr : o = .ok s.1 ((descAt s.1 i).flags, (descAt s.1 i).next) := by
    cases t <;> cases hs <;> rfl
  refine ⟨_, hr, rfl, ?_⟩
  rcases chained_head hch with h | ⟨j, l', h1, h2, h3, -⟩
  · exact .inl h
  · exact .inr ⟨j, l', h1, h2, h3⟩

/-! The handler looks at the used ring. -/

omit [DecidableEq P] [DecidableEq C] [DecidableEq B] in
lemma local_look {l : Look B} (hloc : Local s t g) (hl : LookOk s t l) :
    Local s t { g with look := l } := by
  obtain ⟨h1, h2, h3, h4, h5, h6, h7, -⟩ := hloc
  refine ⟨h1, h2, h3, h4, fun r hr => ?_, h6, h7, hl⟩
  obtain ⟨e1, e2, e3, e4, e5⟩ := h5 r hr
  exact ⟨e1, e2, e3, e4, e5⟩

/-- An action that only reads, and from which the handler learns something. -/
lemma spec_learn {a : Act B} {Q : Res a → Ghost B → Prop} (hm : May a g)
    (hw : ∀ r (s : St P C B) h, watch t a r s h = h) (hnot : g.look ≠ .cleared)
    (hs : ∀ (s : State P C B) γ c o, Inv s n m γ → γ t = g → Local s t g →
      sem t a c s.1 = some o → ∃ r l, o = .ok s.1 r ∧ LookOk s t l ∧ Q r { g with look := l }) :
    (proto P C B n m).Spec t a g Q := by
  refine spec_base hm fun s γ c hi hg hloc => ⟨fun msg hp => ?_, fun w r hsem => ?_⟩
  · obtain ⟨r, l, hr, -⟩ := hs s γ c _ hi hg hloc hp
    cases hr
  · obtain ⟨r', l, hr, hl, hq⟩ := hs s γ c _ hi hg hloc hsem
    cases hr
    rw [hw]
    exact ⟨{ g with look := l }, hi.quiet hg quiet_refl (local_look hloc hl) rfl rfl
      (fun h => absurd h hnot), hq⟩

omit [DecidableEq P] [DecidableEq C] [DecidableEq B] in
lemma two_pow : NUM ∣ 2 ^ 16 ∧ NUM < 2 ^ 16 := by decide

omit [DecidableEq P] [DecidableEq C] [DecidableEq B] in
/-- The handler has nothing half done unless somebody knows of it. -/
lemma seen_of (hi : Inv s n m γ) (hg : γ t = g) (hlock : s.1.lock = some t)
    (hnot : g.look ≠ .cleared) : s.2.processed.length = s.2.seen := by
  rcases hi.rings.seen with h | ⟨-, u, hu⟩
  · exact h
  · have hlook := (hi.each u).look
    rw [hu] at hlook
    have hut : u = t := Option.some.inj (hlook.1.symm.trans hlock)
    rw [hut, hg] at hu
    exact absurd hu hnot

lemma spec_pending (hh : g.holds = true) (hl : g.look = .none) :
    (proto P C B n m).Spec t .pending g fun r g' =>
      g' = { g with look := if r then .pending else .none } := by
  refine spec_learn trivial (fun _ _ _ => by cases t <;> rfl) (by simp [hl])
    fun s γ c o hi hg hloc ho => ?_
  have hlock := hloc.lock.mp hh
  have hseen := seen_of hi hg hlock (by simp [hl])
  have hr : o = .ok s.1 (decide (s.1.used.head ≠ s.1.used.tail)) := by
    cases t <;> cases ho <;> rfl
  have hempty := hi.rings.used.empty_iff two_pow.2
  have htaken := hi.rings.used.taken
  by_cases he : s.1.used.head = s.1.used.tail
  · refine ⟨_, .none, hr, trivial, ?_⟩
    simp only [he, ne_eq, not_true_eq_false, decide_false]
    rfl
  · refine ⟨_, .pending, hr, ⟨hlock, ?_, hseen⟩, ?_⟩
    · rw [hempty] at he
      omega
    · simp only [he, ne_eq, not_false_eq_true, decide_true]
      rfl

lemma spec_usedId (hl : g.look = .pending) :
    (proto P C B n m).Spec t .usedId g fun i g' => g' = { g with look := .entry i } := by
  refine spec_learn trivial (fun _ _ _ => by cases t <;> rfl) (by simp [hl])
    fun s γ c o hi hg hloc ho => ?_
  have hlook := hloc.look
  rw [hl] at hlook
  obtain ⟨h1, h2, h3⟩ := hlook
  have hr : o = .ok s.1 (front s.1.used) := by cases t <;> cases ho <;> rfl
  exact ⟨_, .entry (front s.1.used), hr, ⟨h1, (hi.rings.used.pop (by omega)).1, h3⟩, rfl⟩

omit [DecidableEq P] [DecidableEq C] [DecidableEq B] in
/-- The entry that the handler looks at is one that it has not processed. -/
lemma mem_unprocessed {i : Fin NUM} (h2 : s.2.posted[s.2.seen]? = some i)
    (h3 : s.2.processed.length = s.2.seen) : i ∈ s.2.posted.drop s.2.processed.length := by
  rw [h3]
  exact List.mem_of_getElem? (i := 0) (by rw [List.getElem?_drop, Nat.add_zero]; exact h2)

lemma spec_status {i : Fin NUM} (hl : g.look = .entry i) :
    (proto P C B n m).Spec t (.status i) g fun r g' => r = 0 ∧ g' = g := by
  refine (spec_learn (a := .status i) (Q := fun r g' => r = 0 ∧ g' = { g with look := .entry i })
    trivial
    (fun _ _ _ => by cases t <;> rfl) (by simp [hl])
    fun s γ c o hi hg hloc ho => ?_).mono fun r g' hg' => ⟨hg'.1, by rw [hg'.2, ← hl]⟩
  have hlook := hloc.look
  rw [hl] at hlook
  obtain ⟨h1, h2, h3⟩ := hlook
  have hr : o = .ok s.1 (s.1.info i).status := by cases t <;> cases ho <;> rfl
  exact ⟨_, .entry i, hr, ⟨h1, h2, h3⟩, hi.rings.status i (.inr (mem_unprocessed h2 h3)), rfl⟩

omit [DecidableEq P] [DecidableEq C] [DecidableEq B] in
/-- The request whose chain the device has. -/
lemma waits_of_mem {i : Fin NUM} (hi : Inv s n m γ) (hm : i ∈ inDevice s) :
    ∃ u r, (γ u).trip = some r ∧ r.stage = .flying ∧ r.idx.i0 = i ∧
      (s.1.buf r.order.buf).disk = true ∧ TripOk s u (γ u) r := by
  obtain ⟨u, r, h1, h2, h3, h4⟩ := (hi.rings.mem i).mp hm
  exact ⟨u, r, h1, h2, h3, h4, (hi.each u).trip r h1⟩

lemma spec_infoBuf {i : Fin NUM} (hl : g.look = .entry i) :
    (proto P C B n m).Spec t (.infoBuf i) g fun b g' => g' = { g with look := .found i b } := by
  refine spec_learn trivial (fun _ _ _ => by cases t <;> rfl) (by simp [hl])
    fun s γ c o hi hg hloc ho => ?_
  have hlook := hloc.look
  rw [hl] at hlook
  obtain ⟨h1, h2, h3⟩ := hlook
  have hmem : i ∈ inDevice s := List.mem_append_right _ (mem_unprocessed h2 h3)
  obtain ⟨u, r, -, -, hidx, -, htrip⟩ := waits_of_mem hi hmem
  have hb : (s.1.info i).b = some r.order.buf := hidx ▸ htrip.chain.info
  have hr : o = .ok s.1 r.order.buf := by
    cases t <;> simp only [sem, hb] at ho <;> cases ho <;> rfl
  exact ⟨_, .found i r.order.buf, hr, ⟨h1, h2, h3, hb⟩, rfl⟩

/-- The process sees whether the device is done with its buffer. -/
lemma spec_onDisk {r : Trip B} (hh : g.holds = true) (ht : g.trip = some r) :
    (proto P C B n m).Spec t (.onDisk r.order.buf) g fun d g' =>
      g' = if d then g else { g with trip := some { r with stage := .landed } } := by
  refine spec_base trivial fun s γ c hi hg hloc => ?_
  refine ⟨fun msg => by cases t <;> simp [sem], fun w d hsem => ?_⟩
  have hw : w = s.1 ∧ d = (s.1.buf r.order.buf).disk ∧
      watch t (.onDisk r.order.buf) d s.1 s.2 = s.2 := by
    cases t <;> cases hsem <;> exact ⟨rfl, rfl, rfl⟩
  obtain ⟨rfl, hd, hwatch⟩ := hw
  rw [hwatch]
  cases hdisk : (s.1.buf r.order.buf).disk with
  | true =>
    refine ⟨g, ?_, by rw [hd, hdisk]; rfl⟩
    rw [update_of_eq hg]
    exact hi
  | false =>
    refine ⟨{ g with trip := some { r with stage := .landed } }, ?_, by rw [hd, hdisk]; rfl⟩
    have hl : Local s t { g with trip := some { r with stage := .landed } } := by
      obtain ⟨h1, h2, h3, h4, h5, -, h7, h8⟩ := hloc
      refine ⟨h1, h2, h3, h4, fun r' hr' => ?_, fun h => absurd h (by simp), fun _ => .inr ⟨_, rfl⟩,
        h8⟩
      cases hr'
      obtain ⟨e1, e2, e3, e4, -⟩ := h5 r ht
      exact ⟨e1, e2, e3, e4, h1.mp hh, hdisk⟩
    refine hi.step hg (quiet_refl.rely g.own) hl (fun i h => .inl h) (fun i => ?_)
      (Rings.keep hi hg rfl hi.rings.avail (fun _ _ => rfl) (fun i => ?_) (fun _ _ _ _ _ => rfl)
        (fun _ _ => rfl) (fun q r' _ hr' hs => ?_) fun h => h)
    · refine ⟨fun hf => ⟨fun h => (hi.free i).mp hf t (by rw [hg]; exact h), .inr hf⟩,
        fun hf => hf.2.resolve_left hf.1⟩
    · constructor
      · rintro ⟨r', hr', hs, -⟩
        cases hr'
        cases hs
      · rintro ⟨r', hr', -, -, hd'⟩
        rw [ht] at hr'
        cases hr'
        rw [hdisk] at hd'
        cases hd'
    · cases hr'
      cases hs

/-! Taking and giving back descriptors. -/

omit [DecidableEq P] [DecidableEq C] [DecidableEq B] in
lemma local_none (ht : g.trip = none) (hloc : Local s t g) {own : List (Fin NUM)} {linked : Bool}
    (hlock : s'.1.lock = s.1.lock) (hbuf : s'.1.buf = s.1.buf) (hflight : s'.2.flight = s.2.flight)
    (hh : g.holds = true) (hown : own.Nodup) (hlinked : linked = true → Chained s' own)
    (hlook : g.look = .none) : Local s' t { g with own := own, linked := linked } := by
  refine ⟨by rw [hlock]; exact hloc.lock, by rw [hbuf]; exact hloc.buf, hown, hlinked,
    fun r hr => absurd (ht.symm.trans hr) (by simp),
    fun _ p hp => by rw [hflight]; exact hloc.none ht p hp,
    fun h => absurd (hh.symm.trans h) (by simp), by rw [hlook]; trivial⟩

/-- What `alloc_desc` makes of a thread. -/
def took : Option (Fin NUM) → Ghost B → Ghost B
  | some i, g => { g with own := g.own ++ [i], linked := false }
  | none, g => g

lemma spec_allocDesc (hh : g.holds = true) (hl : g.look = .none) (ht : g.trip = none) :
    (proto P C B n m).Spec t .allocDesc g fun o g' => g' = took o g := by
  refine spec_base trivial fun s γ c hi hg hloc => ?_
  have hwatch : ∀ r, watch t .allocDesc r s.1 s.2 = s.2 := fun r => by cases t <;> rfl
  cases hf : firstFree s.1 with
  | none =>
    have hsem : sem t .allocDesc c s.1 = some (.ok s.1 none) := by
      cases t <;> simp only [sem, hf]
    rw [hsem]
    refine ⟨fun msg => by simp, fun w r hr => ?_⟩
    cases hr
    rw [hwatch]
    exact ⟨g, by rw [update_of_eq hg]; exact hi, rfl⟩
  | some i =>
    have hsem : sem t .allocDesc c s.1 =
        some (.ok { s.1 with free := Function.update s.1.free i false } (some i)) := by
      cases t <;> simp only [sem, hf]
    rw [hsem]
    refine ⟨fun msg => by simp, fun w r hr => ?_⟩
    cases hr
    rw [hwatch]
    have hfree : s.1.free i = true := by
      simpa using List.find?_some hf
    have hnot : i ∉ g.own := by
      rw [← hg]
      exact (hi.free i).mp hfree t
    refine ⟨{ g with own := g.own ++ [i], linked := false }, ?_, rfl⟩
    have hr : Rely t g.own s ({ s.1 with free := Function.update s.1.free i false }, s.2) :=
      ⟨fun _ _ => Iff.rfl, fun _ _ => ⟨rfl, rfl, rfl⟩, fun _ _ _ h => h,
        fun _ _ _ => ⟨fun _ => rfl, fun _ => rfl, rfl, rfl, rfl, rfl⟩, ⟨[], by simp⟩,
        fun _ _ => rfl⟩
    refine hi.step hg hr (local_none ht hloc rfl rfl rfl hh ?_ (fun h => by cases h) hl)
      (fun j hj => ?_) (fun j => ?_) (Rings.keep hi hg rfl hi.rings.avail (fun _ _ => rfl)
        (fun _ => by simp [Waits, ht]) (fun _ _ _ _ _ => rfl) (fun _ _ => rfl)
        (fun q r _ hr _ => absurd hr (by simp [ht])) fun h => h)
    · exact List.nodup_append.mpr ⟨hloc.own, List.nodup_singleton i, fun a ha b hb => by
        rw [List.mem_singleton.mp hb]
        rintro rfl
        exact hnot ha⟩
    · rcases List.mem_append.mp hj with h | h
      · exact .inl h
      · rw [List.mem_singleton.mp h]
        exact .inr hfree
    · simp only [List.mem_append, List.mem_singleton, not_or]
      by_cases hji : j = i
      · subst hji
        simp
      · rw [Function.update_of_ne hji]
        refine ⟨fun h => ⟨⟨fun hj => ?_, hji⟩, .inr h⟩, fun h => h.2.resolve_left h.1.1⟩
        rw [← hg] at hj
        exact (hi.free j).mp h t hj

lemma spec_freeDesc {i : Fin NUM} {l : List (Fin NUM)} (hh : g.holds = true) (hl : g.look = .none)
    (ht : g.trip = none) (ho : g.own = i :: l) :
    (proto P C B n m).Spec t (.freeDesc i) g fun _ g' => g' = { g with own := l } := by
  refine spec_base trivial fun s γ c hi hg hloc => ?_
  have hmine : i ∈ g.own := by simp [ho]
  have hfree : s.1.free i = false := by
    rw [Bool.eq_false_iff]
    intro h
    exact (hi.free i).mp h t (by rw [hg]; exact hmine)
  have hsem : sem t (.freeDesc i) c s.1 = some (.ok (clearDesc i s.1) ()) := by
    cases t <;> simp [sem, hfree]
  have hwatch : watch t (.freeDesc i) () s.1 s.2 = s.2 := by cases t <;> rfl
  rw [hsem]
  refine ⟨fun msg => by simp, fun w r hr => ?_⟩
  cases hr
  rw [hwatch]
  have hnodup := hloc.own
  rw [ho, List.nodup_cons] at hnodup
  refine ⟨{ g with own := l }, ?_, rfl⟩
  have hdesc : ∀ j, j ≠ i → (clearDesc i s.1).desc j = s.1.desc j := fun j hj =>
    Function.update_of_ne hj ..
  have hr : Rely t g.own s (clearDesc i s.1, s.2) := by
    refine ⟨fun _ _ => Iff.rfl, fun j hj => ⟨hdesc j fun h => hj (h ▸ hmine), rfl, rfl⟩,
      fun _ _ _ h => h, fun _ _ _ => ⟨fun _ => rfl, fun _ => rfl, rfl, rfl, rfl, rfl⟩,
      ⟨[], by simp⟩, fun _ _ => rfl⟩
  have hchain : g.linked = true → Chained (clearDesc i s.1, s.2) l := by
    intro hlk
    have hch := hloc.linked hlk
    rw [ho] at hch
    rcases chained_head hch with ⟨rfl, -⟩ | ⟨j, l', -, -, -, h⟩
    · trivial
    · exact h.congr fun k hk => hdesc k fun h => hnodup.1 (h ▸ hk)
  refine hi.step hg hr (local_none ht hloc rfl rfl rfl hh hnodup.2 hchain hl)
    (fun j hj => .inl ?_) (fun j => ?_) (Rings.keep hi hg rfl hi.rings.avail (fun _ _ => rfl)
      (fun _ => by simp [Waits, ht]) (fun _ _ _ _ _ => rfl) (fun _ _ => rfl)
      (fun q r _ hr _ => absurd hr (by simp [ht])) fun h => h)
  · rw [ho]
    exact List.mem_cons_of_mem _ hj
  · change Function.update s.1.free i true j = true ↔ _
    rw [ho, List.mem_cons]
    by_cases hji : j = i
    · subst hji
      simp [hnodup.1]
    · rw [Function.update_of_ne hji]
      simp only [hji, false_or]
      refine ⟨fun h => ⟨fun hj => ?_, .inr h⟩, fun h => h.2.resolve_left h.1⟩
      refine (hi.free j).mp h t ?_
      rw [hg, ho]
      exact List.mem_cons_of_mem _ hj

/-! Making a request. -/

omit [DecidableEq P] [DecidableEq C] [DecidableEq B] in
/-- The device has no descriptor of a thread that has not sent its request. -/
lemma notMem_inDevice (hi : Inv s n m γ) {i : Fin NUM} (hown : i ∈ (γ t).own)
    (ht : ∀ r, (γ t).trip = some r → r.stage ≠ .flying) : i ∉ inDevice s := by
  intro hm
  obtain ⟨u, r, hr, hst, rfl, -, htrip⟩ := waits_of_mem hi hm
  have hut : u = t := hi.own u t r.idx.i0 (by rw [htrip.own]; simp) hown
  subst hut
  exact ht r hr hst

omit [DecidableEq P] [DecidableEq C] [DecidableEq B] in
lemma free_same (hi : Inv s n m γ) (hg : γ t = g) {own : List (Fin NUM)} (hown : own = g.own)
    (i : Fin NUM) : s.1.free i = true ↔ i ∉ own ∧ (i ∈ g.own ∨ s.1.free i = true) := by
  subst hown
  refine ⟨fun h => ⟨fun hm => (hi.free i).mp h t (by rw [hg]; exact hm), .inr h⟩,
    fun h => h.2.resolve_left h.1⟩

lemma spec_format {idx : Idx} {b : B} {write : Bool} {sector : UInt64} (hh : g.holds = true)
    (hl : g.look = .none) (ht : g.trip = none) (hb : g.buf = some b)
    (ho : g.own = [idx.i0, idx.i1, idx.i2]) :
    (proto P C B n m).Spec (.proc p) (.format idx b write sector) g fun _ g' =>
      g' = { g with linked := false, trip := some ⟨idx, ⟨b, write, sector⟩, .formed⟩ } := by
  refine spec_base trivial fun s γ c hi hg hloc => ⟨fun msg => by simp [sem], fun w r hr => ?_⟩
  cases hr
  have hnodup := hloc.own
  rw [ho] at hnodup
  simp only [List.nodup_cons, List.mem_cons, List.not_mem_nil, or_false, not_or, List.nodup_nil,
    not_false_eq_true, and_true] at hnodup
  obtain ⟨⟨h01, h02⟩, h12⟩ := hnodup
  have hdesc : ∀ j, j ∉ g.own → (format idx b write sector s.1).desc j = s.1.desc j := by
    intro j hj
    simp only [ho, List.mem_cons, List.not_mem_nil, or_false, not_or] at hj
    simp [format, setDisk, setBuf, hj.1, hj.2.1, hj.2.2]
  have hother : ∀ j, j ≠ idx.i0 → (format idx b write sector s.1).ops j = s.1.ops j ∧
      (format idx b write sector s.1).info j = s.1.info j := fun j hj => by
    simp [format, setDisk, setBuf, hj]
  have hi0 : idx.i0 ∈ g.own := by simp [ho]
  have hdisk : ∀ b', b' ≠ b →
      ((format idx b write sector s.1).buf b').disk = (s.1.buf b').disk := fun b' hb' => by
    simp [format, setDisk, setBuf, hb']
  have hlockb : ∀ b', ((format idx b write sector s.1).buf b').lock = (s.1.buf b').lock := by
    intro b'
    by_cases hbb : b' = b
    · simp [format, setDisk, setBuf, hbb]
    · simp [format, setDisk, setBuf, hbb]
  have hlock := hloc.lock.mp hh
  refine ⟨{ g with linked := false, trip := some ⟨idx, ⟨b, write, sector⟩, .formed⟩ },
    hi.step hg ?_ ?_ (fun j hj => .inl hj) (fun j => free_same hi hg rfl j)
    (Rings.keep hi hg rfl hi.rings.avail (fun j hj => ?_) (fun j => ?_) (fun u r hu hr hst => ?_)
      (fun q hq => ?_) (fun q r _ hr hst => ?_) fun h => h), rfl⟩
  · refine ⟨fun _ _ => Iff.rfl, fun j hj => ?_, fun b' q _ h => (hlockb b').trans h,
      fun u hu h => ?_, ⟨[], by simp [watch]⟩, fun q hq => ?_⟩
    · have hj0 : j ≠ idx.i0 := fun h => hj (h ▸ hi0)
      exact ⟨hdesc j hj, (hother j hj0).1, by rw [(hother j hj0).2]⟩
    · rw [hlock] at h
      exact absurd (Option.some.inj h).symm hu
    · have hqp : q ≠ p := fun h => hq (by rw [h])
      simp [watch, hqp]
  · refine ⟨hloc.lock, fun b' hb' => ?_, hloc.own, fun h => absurd h (by simp), fun r hr => ?_,
      fun h => absurd h (by simp), fun h => absurd (hh.symm.trans h) (by simp),
      by rw [hl]; trivial⟩
    · obtain ⟨q, hq, h⟩ := hloc.buf b' hb'
      exact ⟨q, hq, (hlockb b').trans h⟩
    · cases hr
      refine ⟨hb, ho, ⟨?_, ?_, ?_, ?_, ?_⟩, fun q hq => ?_, hlock, ?_⟩
      · simp [format, setDisk, setBuf, h01, h02]
      · simp [format, setDisk, setBuf, h12]
      · simp [format, setDisk, setBuf]
      · simp [format, setDisk, setBuf]
      · simp [format, setDisk, setBuf]
      · cases hq
        exact ⟨none, by simp [watch]⟩
      · simp [format, setDisk, setBuf]
  · have hj0 : j ≠ idx.i0 := by
      rintro rfl
      exact notMem_inDevice hi (by rw [hg]; exact hi0) (by simp [hg, ht]) hj
    rw [(hother j hj0).2]
  · constructor
    · rintro ⟨r, hr, hst, -⟩
      cases hr
      cases hst
    · rintro ⟨r, hr, -⟩
      rw [ht] at hr
      cases hr
  · refine hdisk _ fun hb' => hu ?_
    refine hi.buf_inj (b := b) ?_ (by rw [hg]; exact hb)
    rw [← hb']
    exact ((hi.each u).trip r hr).buf
  · have hqp : q ≠ p := fun h => hq (by rw [h])
    simp [watch, hqp]
  · cases hr
    cases hst

omit [DecidableEq P] [DecidableEq C] [DecidableEq B] in
/-- There is room in the available ring for one more head. -/
lemma avail_room (hi : Inv s n m γ) {i : Fin NUM} (h : i ∉ inDevice s) :
    s.2.sent.length < s.2.fetched + NUM := by
  have hle := (List.nodup_cons.mpr ⟨h, hi.rings.nodup⟩).length_le_card
  rw [Fintype.card_fin] at hle
  simp only [inDevice, List.length_cons, List.length_append, List.length_drop] at hle
  omega

omit [DecidableEq P] [DecidableEq C] [DecidableEq B] in
/-- What the process knows of its request while it sends it. -/
lemma tripOk_stage {r : Trip B} {st : Stage} (h : TripOk s t g r) (hd : s'.1.desc = s.1.desc)
    (ho : s'.1.ops = s.1.ops) (hi : s'.1.info = s.1.info) (hf : s'.2.flight = s.2.flight)
    (hst : StageOk s' t r st) :
    TripOk s' t { g with trip := some { r with stage := st } } { r with stage := st } :=
  ⟨h.buf, h.own, h.chain.congr fun j _ => by rw [hd, ho, hi]; exact ⟨rfl, rfl, rfl⟩,
    fun q hq => by rw [hf]; exact h.flight q hq, hst⟩

lemma spec_putAvail {r : Trip B} (hh : g.holds = true) (hl : g.look = .none)
    (hk : g.linked = false) (ht : g.trip = some r) (hst : r.stage = .formed) :
    (proto P C B n m).Spec t (.putAvail r.idx.i0) g fun _ g' =>
      g' = { g with trip := some { r with stage := .placed } } := by
  refine spec_base trivial fun s γ c hi hg hloc => ?_
  have hsem : sem t (.putAvail r.idx.i0) c s.1 = some (.ok { s.1 with avail := { s.1.avail with
      data := Function.update s.1.avail.data (index s.1.avail.tail) r.idx.i0 } } ()) := by
    cases t <;> rfl
  have hwatch : watch t (.putAvail r.idx.i0) () s.1 s.2 = s.2 := by cases t <;> rfl
  rw [hsem]
  refine ⟨fun msg => by simp, fun w x hx => ?_⟩
  cases hx
  rw [hwatch]
  have htrip := hloc.trip r ht
  have hstage := htrip.stage
  rw [hst] at hstage
  obtain ⟨hlock, hdisk⟩ := hstage
  have hnot : r.idx.i0 ∉ inDevice s := by
    refine notMem_inDevice hi (by rw [hg, htrip.own]; simp) fun r' hr' => ?_
    rw [hg, ht] at hr'
    cases hr'
    simp [hst]
  refine ⟨{ g with trip := some { r with stage := .placed } },
    hi.step hg ⟨fun _ _ => Iff.rfl, fun _ _ => ⟨rfl, rfl, rfl⟩, fun _ _ _ h => h,
      fun u hu h => ?_, ⟨[], by simp⟩, fun _ _ => rfl⟩
    ⟨hloc.lock, hloc.buf, hloc.own, fun h => ?_, fun r' hr' => ?_, fun h => ?_, fun h => ?_, ?_⟩
    (fun j hj => .inl hj) (fun j => free_same hi hg rfl j)
    (Rings.keep hi hg rfl (hi.rings.avail.write two_pow.1 (avail_room hi hnot) _)
      (fun _ _ => rfl) (fun j => ?_) (fun _ _ _ _ _ => rfl) (fun _ _ => rfl)
      (fun q r' _ hr' hs => ?_) fun h => h), rfl⟩
  · rw [hlock] at h
    exact absurd (Option.some.inj h).symm hu
  · rw [hk] at h
    cases h
  · cases hr'
    exact tripOk_stage htrip rfl rfl rfl rfl ⟨hlock, hdisk, Function.update_self ..⟩
  · cases h
  · rw [hh] at h
    cases h
  · rw [hl]
    trivial
  · constructor
    · rintro ⟨r', hr', hs, -⟩
      cases hr'
      cases hs
    · rintro ⟨r', hr', hs, -⟩
      rw [ht] at hr'
      cases hr'
      rw [hst] at hs
      cases hs
  · cases hr'
    cases hs

lemma spec_bumpAvail {r : Trip B} (hh : g.holds = true) (hl : g.look = .none)
    (hk : g.linked = false) (ht : g.trip = some r) (hst : r.stage = .placed) :
    (proto P C B n m).Spec t .bumpAvail g fun _ g' =>
      g' = { g with trip := some { r with stage := .flying } } := by
  refine spec_base trivial fun s γ c hi hg hloc => ?_
  have htrip := hloc.trip r ht
  have hstage := htrip.stage
  rw [hst] at hstage
  obtain ⟨hlock, hdisk, hput⟩ := hstage
  have hsem : sem t .bumpAvail c s.1 = some (.ok { s.1 with avail := { s.1.avail with
      tail := s.1.avail.tail + 1 } } ()) := by
    cases t <;> rfl
  have hwatch : watch t .bumpAvail () s.1 s.2 = { s.2 with sent := s.2.sent ++ [r.idx.i0] } := by
    cases t <;> simp only [watch, hput]
  rw [hsem]
  refine ⟨fun msg => by simp, fun w x hx => ?_⟩
  cases hx
  rw [hwatch]
  have hnot : r.idx.i0 ∉ inDevice s := by
    refine notMem_inDevice hi (by rw [hg, htrip.own]; simp) fun r' hr' => ?_
    rw [hg, ht] at hr'
    cases hr'
    simp [hst]
  have hroom := avail_room hi hnot
  have hav := hi.rings.avail.advance hroom
  rw [hput] at hav
  have hdrop : (s.2.sent ++ [r.idx.i0]).drop s.2.fetched = s.2.sent.drop s.2.fetched ++ [r.idx.i0] :=
    List.drop_append_of_le_length hi.rings.avail.taken
  refine ⟨{ g with trip := some { r with stage := .flying } },
    hi.step hg ⟨fun _ _ => Iff.rfl, fun _ _ => ⟨rfl, rfl, rfl⟩, fun _ _ _ h => h,
      fun u hu h => ?_, ⟨[], by simp⟩, fun _ _ => rfl⟩
    ⟨hloc.lock, hloc.buf, hloc.own, fun h => ?_, fun r' hr' => ?_, fun h => ?_, fun h => ?_, ?_⟩
    (fun j hj => .inl hj) (fun j => free_same hi hg rfl j)
    ⟨hav, hi.rings.used, hi.rings.processed, ?_, ?_, fun j => ?_, hi.rings.status,
      fun q r' hr' hs => ?_⟩, rfl⟩
  · rw [hlock] at h
    exact absurd (Option.some.inj h).symm hu
  · rw [hk] at h
    cases h
  · cases hr'
    exact tripOk_stage htrip rfl rfl rfl rfl trivial
  · cases h
  · rw [hh] at h
    cases h
  · rw [hl]
    trivial
  · refine hi.rings.seen.imp id fun ⟨h, u, hu⟩ => ⟨h, u, ?_⟩
    have hut : u ≠ t := by
      rintro rfl
      rw [hg, hl] at hu
      cases hu
    rwa [Function.update_of_ne hut]
  · have hnodup := List.nodup_cons.mpr ⟨hnot, hi.rings.nodup⟩
    simp only [inDevice, hdrop, List.append_assoc, List.singleton_append] at hnodup ⊢
    exact List.perm_middle.nodup_iff.mpr hnodup
  · have hmem : ∀ j, j ∈ inDevice (({ s.1 with avail := { s.1.avail with
        tail := s.1.avail.tail + 1 } }, { s.2 with sent := s.2.sent ++ [r.idx.i0] }) :
        State P C B) ↔ j = r.idx.i0 ∨ j ∈ inDevice s := fun j => by
      simp only [inDevice, hdrop, List.mem_append, List.mem_singleton]
      tauto
    rw [hmem, hi.rings.mem]
    constructor
    · rintro (rfl | ⟨u, hu⟩)
      · exact ⟨t, { r with stage := .flying }, by rw [Function.update_self], rfl, rfl, hdisk⟩
      · refine ⟨u, ?_⟩
        have hut : u ≠ t := by
          rintro rfl
          obtain ⟨r', hr', hs, -⟩ := hu
          rw [hg, ht] at hr'
          cases hr'
          rw [hst] at hs
          cases hs
        rwa [Function.update_of_ne hut]
    · rintro ⟨u, hu⟩
      by_cases hut : u = t
      · rw [hut, Function.update_self] at hu
        obtain ⟨r', hr', -, hidx, -⟩ := hu
        cases hr'
        exact .inl hidx.symm
      · rw [Function.update_of_ne hut] at hu
        exact .inr ⟨u, hu⟩
  · simp only [hdrop, List.mem_append, List.mem_singleton]
    by_cases hq : t = .proc q
    · subst hq
      rw [Function.update_self] at hr'
      cases hr'
      exact .inl (.inr rfl)
    · rw [Function.update_of_ne (Ne.symm hq)] at hr'
      exact (hi.rings.served q r' hr' hs).imp .inl id

/-! The request is over. -/

omit [DecidableEq P] [DecidableEq C] [DecidableEq B] in
lemma toNat_index (i : Fin NUM) : BitVec.toNat (BitVec.ofNat 16 i.val) = i.val := by
  have hlt : i.val < 8 := i.isLt
  exact Nat.mod_eq_of_lt (by omega)

lemma next_flag : VRING_DESC_F_NEXT &&& VRING_DESC_F_NEXT ≠ 0 := by decide

lemma write_flag : VRING_DESC_F_WRITE &&& VRING_DESC_F_NEXT = 0 := by decide

lemma data_flag (write : Bool) :
    ((if write then 0 else VRING_DESC_F_WRITE) ||| VRING_DESC_F_NEXT) &&& VRING_DESC_F_NEXT ≠ 0 := by
  cases write <;> decide

omit [DecidableEq P] [DecidableEq C] [DecidableEq B] in
/-- The process has its chain back. -/
lemma chained_of_trip {r : Trip B} (h : TripOk s t g r) (hd : s'.1.desc = s.1.desc) :
    Chained s' g.own := by
  rw [h.own]
  refine ⟨?_, ?_, ?_, ?_, ?_⟩
  · rw [hd, h.chain.desc0]
    exact next_flag
  · rw [hd, h.chain.desc0]
    exact toNat_index r.idx.i1
  · rw [hd, h.chain.desc1]
    exact data_flag r.order.write
  · rw [hd, h.chain.desc1]
    exact toNat_index r.idx.i2
  · change (s'.1.desc r.idx.i2).flags &&& _ = 0
    rw [hd, h.chain.desc2]
    exact write_flag

lemma spec_clearInfo {r : Trip B} (hh : g.holds = true) (hl : g.look = .none)
    (ht : g.trip = some r) (hst : r.stage = .landed) :
    (proto P C B n m).Spec t (.clearInfo r.idx.i0) g fun _ g' =>
      g' = { g with trip := none, linked := true } := by
  refine spec_base trivial fun s γ c hi hg hloc => ?_
  have htrip := hloc.trip r ht
  obtain ⟨p, rfl, hp⟩ := hloc.buf _ htrip.buf
  refine ⟨fun msg => by simp [sem], fun w x hx => ?_⟩
  cases hx
  have hlock := hloc.lock.mp hh
  have hown : r.idx.i0 ∈ g.own := by rw [htrip.own]; simp
  have hstatus : ∀ j, (Function.update s.1.info r.idx.i0
      { s.1.info r.idx.i0 with b := none } j).status = (s.1.info j).status := by
    intro j
    by_cases hj : j = r.idx.i0
    · rw [hj, Function.update_self]
    · rw [Function.update_of_ne hj]
  have hflight : ∀ q, Ctx.proc p ≠ Ctx.proc (C := C) q →
      Function.update s.2.flight p none q = s.2.flight q := fun q hq => by
    have hqp : q ≠ p := fun h => hq (by rw [h])
    rw [Function.update_of_ne hqp]
  refine ⟨{ g with trip := none, linked := true },
    hi.step hg ⟨fun _ _ => Iff.rfl, fun j hj => ⟨rfl, rfl, ?_⟩, fun _ _ _ h => h,
      fun u hu h => ?_, ⟨[], by simp [watch]⟩, fun q hq => ?_⟩
    ⟨hloc.lock, hloc.buf, hloc.own, fun _ => ?_, fun r' hr' => ?_,
      fun _ q hq => ?_, fun h => ?_, ?_⟩
    (fun j hj => .inl hj) (fun j => free_same hi hg rfl j)
    (Rings.keep hi hg rfl hi.rings.avail (fun j _ => hstatus j) (fun j => ?_)
      (fun _ _ _ _ _ => rfl) (fun q hq => hflight q hq) (fun q r' _ hr' hs => ?_) fun h => h), rfl⟩
  · have hj : j ≠ r.idx.i0 := fun h => hj (h ▸ hown)
    simp [hj]
  · rw [hlock] at h
    exact absurd (Option.some.inj h).symm hu
  · simp only [watch, hflight q hq]
  · change Chained _ g.own
    exact chained_of_trip htrip rfl
  · cases hr'
  · cases hq
    simp [watch]
  · rw [hh] at h
    cases h
  · rw [hl]
    trivial
  · constructor
    · rintro ⟨r', hr', -⟩
      cases hr'
    · rintro ⟨r', hr', hs, -⟩
      rw [ht] at hr'
      cases hr'
      rw [hst] at hs
      cases hs
  · cases hr'

/-! The handler takes an entry from the used ring. -/

lemma spec_clearDisk {i : Fin NUM} {b : B} (hh : g.holds = true) (ht : g.trip = none)
    (hl : g.look = .found i b) :
    (proto P C B n m).Spec t (.clearDisk b) g fun _ g' => g' = { g with look := .cleared } := by
  refine spec_base ⟨i, hl⟩ fun s γ c hi hg hloc => ?_
  have hlook := hloc.look
  rw [hl] at hlook
  obtain ⟨hlock, hget, hlen, hinfo⟩ := hlook
  have hlt : s.2.seen < s.2.posted.length := (List.getElem?_eq_some_iff.mp hget).1
  have hfront : front s.1.used = i :=
    (Option.some.inj (hget.symm.trans (hi.rings.used.pop (by omega)).1)).symm
  have hsem : sem t (.clearDisk b) c s.1 = some (.ok (setDisk b false s.1) ()) := by
    cases t <;> rfl
  have hwatch : watch t (.clearDisk b) () s.1 s.2 =
      { s.2 with processed := s.2.processed ++ [i] } := by
    cases t <;> simp only [watch, hfront]
  rw [hsem]
  refine ⟨fun msg => by simp, fun w x hx => ?_⟩
  cases hx
  rw [hwatch]
  have hdrop : s.2.posted.drop s.2.processed.length =
      i :: s.2.posted.drop (s.2.processed.length + 1) := by
    rw [hlen, List.drop_eq_getElem_cons hlt, (List.getElem?_eq_some_iff.mp hget).2]
  -- the request whose entry this is
  have hmem : i ∈ inDevice s := List.mem_append_right _ (mem_unprocessed hget hlen)
  obtain ⟨u, r, hr, hst, hidx, hdisk, htrip⟩ := waits_of_mem hi hmem
  have hb : r.order.buf = b := by
    have := htrip.chain.info
    rw [hidx, hinfo] at this
    exact (Option.some.inj this).symm
  have hut : u ≠ t := by
    rintro rfl
    rw [hg, ht] at hr
    cases hr
  have hbuf : ∀ b', ((setDisk b false s.1).buf b').lock = (s.1.buf b').lock := by
    intro b'
    by_cases hbb : b' = b
    · simp [setDisk, setBuf, hbb]
    · simp [setDisk, setBuf, hbb]
  have hdisk' : ∀ b', ((setDisk b false s.1).buf b').disk = true ↔
      b' ≠ b ∧ (s.1.buf b').disk = true := by
    intro b'
    by_cases hbb : b' = b
    · simp [setDisk, setBuf, hbb]
    · simp [setDisk, setBuf, hbb]
  -- nobody else waits for that buffer
  have hsame : ∀ v j, Waits s (γ v) j →
      (Waits (setDisk b false s.1, { s.2 with processed := s.2.processed ++ [i] }) (γ v) j ↔
        j ≠ i) := by
    rintro v j ⟨r', hr', hs', hj', hd'⟩
    constructor
    · rintro ⟨r'', hr'', -, -, hd''⟩ rfl
      rw [hr'] at hr''
      cases hr''
      have hvu : v = u := by
        refine hi.own v u r'.idx.i0 ?_ ?_
        · rw [((hi.each v).trip r' hr').own]
          simp
        · rw [hj', ← hidx, htrip.own]
          simp
      rw [hvu, hr] at hr'
      cases hr'
      exact ((hdisk' _).mp hd'').1 hb
    · intro hji
      refine ⟨r', hr', hs', hj', (hdisk' _).mpr ⟨fun hbb => hji ?_, hd'⟩⟩
      have hvu : v = u := by
        refine hi.buf_inj (b := b) ?_ ?_
        · rw [← hbb]
          exact ((hi.each v).trip r' hr').buf
        · rw [← hb]
          exact htrip.buf
      rw [hvu, hr] at hr'
      cases hr'
      exact hj'.symm.trans hidx
  have hnone : ∀ j, ¬ Waits s { g with look := .cleared } j := by
    rintro j ⟨r', hr', -⟩
    rw [ht] at hr'
    cases hr'
  refine ⟨{ g with look := .cleared }, hi.step hg ⟨fun _ _ => Iff.rfl, fun j _ => ⟨rfl, rfl, rfl⟩,
      fun b' q _ h => (hbuf b').trans h, fun v hv h => ?_, ⟨[], by simp⟩, fun _ _ => rfl⟩
    ⟨hloc.lock, fun b' hb' => ?_, hloc.own, fun h => (hloc.linked h).congr fun _ _ => rfl,
      fun r' hr' => ?_, hloc.none, fun h => ?_, hlock, hlt, ?_⟩
    (fun j hj => .inl hj) (fun j => free_same hi hg rfl j)
    ⟨hi.rings.avail, hi.rings.used, ?_, ?_, ?_, fun j => ?_, fun j hj => ?_,
      fun q r' hr' hs => ?_⟩, rfl⟩
  · rw [hlock] at h
    exact absurd (Option.some.inj h).symm hv
  · obtain ⟨q, hq, h⟩ := hloc.buf b' hb'
    exact ⟨q, hq, (hbuf b').trans h⟩
  · rw [ht] at hr'
    cases hr'
  · rw [hh] at h
    cases h
  · simp only [List.length_append, List.length_singleton, hlen]
  · simp only [List.length_append, List.length_singleton]
    rw [List.take_add_one, ← hi.rings.processed, hlen, hget]
    rfl
  · right
    refine ⟨by simp only [List.length_append, List.length_singleton, hlen], t, ?_⟩
    rw [Function.update_self]
  · have hnodup := hi.rings.nodup
    simp only [inDevice, hdrop] at hnodup
    simp only [inDevice, List.length_append, List.length_singleton]
    exact (List.nodup_cons.mp (List.perm_middle.nodup_iff.mp hnodup)).2
  · have hnodup := hi.rings.nodup
    have hperm : (inDevice s).Perm (i :: inDevice (P := P) (B := B)
        (setDisk b false s.1, { s.2 with processed := s.2.processed ++ [i] })) := by
      simp only [inDevice, hdrop, List.length_append, List.length_singleton]
      exact List.perm_middle
    have hcons := hperm.nodup_iff.mp hnodup
    have hiff : j ∈ inDevice (P := P) (B := B)
        (setDisk b false s.1, { s.2 with processed := s.2.processed ++ [i] }) ↔
        j ∈ inDevice s ∧ j ≠ i := by
      rw [hperm.mem_iff, List.mem_cons]
      refine ⟨fun h => ⟨.inr h, fun hji => ?_⟩, fun h => h.1.resolve_left h.2⟩
      exact (List.nodup_cons.mp hcons).1 (hji ▸ h)
    rw [hiff, hi.rings.mem]
    constructor
    · rintro ⟨⟨v, hv⟩, hji⟩
      have hvt : v ≠ t := by
        rintro rfl
        exact hnone j (by rw [hg] at hv; exact hv)
      refine ⟨v, ?_⟩
      rw [Function.update_of_ne hvt]
      exact (hsame v j hv).mpr hji
    · rintro ⟨v, hv⟩
      by_cases hvt : v = t
      · rw [hvt, Function.update_self] at hv
        obtain ⟨r', hr', -⟩ := hv
        rw [ht] at hr'
        cases hr'
      · rw [Function.update_of_ne hvt] at hv
        have hv' : Waits s (γ v) j := by
          obtain ⟨r', h1, h2, h3, h4⟩ := hv
          exact ⟨r', h1, h2, h3, ((hdisk' _).mp h4).2⟩
        exact ⟨⟨v, hv'⟩, (hsame v j hv').mp hv⟩
  · refine hi.rings.status j (hj.imp id fun h => ?_)
    simp only [List.length_append, List.length_singleton] at h
    rw [hdrop]
    exact List.mem_cons_of_mem _ h
  · by_cases hq : t = .proc q
    · subst hq
      rw [Function.update_self] at hr'
      rw [ht] at hr'
      cases hr'
    · rw [Function.update_of_ne (Ne.symm hq)] at hr'
      exact hi.rings.served q r' hr' hs

lemma spec_bumpUsed (hh : g.holds = true) (ht : g.trip = none) (hl : g.look = .cleared) :
    (proto P C B n m).Spec t .bumpUsed g fun _ g' => g' = { g with look := .none } := by
  refine spec_base trivial fun s γ c hi hg hloc => ?_
  have hlook := hloc.look
  rw [hl] at hlook
  obtain ⟨hlock, hlt, hlen⟩ := hlook
  have hsem : sem t .bumpUsed c s.1 = some (.ok { s.1 with used := pop s.1.used } ()) := by
    cases t <;> rfl
  have hwatch : watch t .bumpUsed () s.1 s.2 = { s.2 with seen := s.2.seen + 1 } := by
    cases t <;> rfl
  rw [hsem]
  refine ⟨fun msg => by simp, fun w x hx => ?_⟩
  cases hx
  rw [hwatch]
  refine ⟨{ g with look := .none }, hi.step hg ⟨fun _ _ => Iff.rfl, fun j _ => ⟨rfl, rfl, rfl⟩,
      fun _ _ _ h => h, fun v hv h => ?_, ⟨[], by simp⟩, fun _ _ => rfl⟩
    ⟨hloc.lock, hloc.buf, hloc.own, fun h => (hloc.linked h).congr fun _ _ => rfl,
      fun r' hr' => ?_, hloc.none, fun h => ?_, trivial⟩
    (fun j hj => .inl hj) (fun j => free_same hi hg rfl j)
    ⟨hi.rings.avail, (hi.rings.used.pop (by omega)).2, hi.rings.processed, .inl hlen,
      hi.rings.nodup, fun j => ?_, hi.rings.status, fun q r' hr' hs => ?_⟩, rfl⟩
  · rw [hlock] at h
    exact absurd (Option.some.inj h).symm hv
  · rw [ht] at hr'
    cases hr'
  · rw [hh] at h
    cases h
  · refine (hi.rings.mem j).trans ?_
    refine exists_congr fun v => ?_
    by_cases hvt : v = t
    · rw [hvt, Function.update_self, hg]
      exact Iff.rfl
    · rw [Function.update_of_ne hvt]
      exact Iff.rfl
  · by_cases hq : t = .proc q
    · subst hq
      rw [Function.update_self] at hr'
      rw [ht] at hr'
      cases hr'
    · rw [Function.update_of_ne (Ne.symm hq)] at hr'
      exact hi.rings.served q r' hr' hs

/-! The device. -/

omit [DecidableEq P] [DecidableEq C] [DecidableEq B] in
/-- The device understands the chain of a request. -/
lemma follow_of_trip {r : Trip B} (h : TripOk s t g r) :
    follow s.1 r.idx.i0 = some (r.order, r.idx.i0) := by
  have h1 : descAt s.1 (s.1.desc r.idx.i0).next.toNat = s.1.desc r.idx.i1 := by
    rw [h.chain.desc0, toNat_index, descAt, dif_pos r.idx.i1.isLt]
  have h2 : descAt s.1 (s.1.desc r.idx.i1).next.toNat = s.1.desc r.idx.i2 := by
    rw [h.chain.desc1, toNat_index, descAt, dif_pos r.idx.i2.isLt]
  rcases hr : r.order with ⟨b, write, sector⟩
  simp only [follow, h1, h2]
  rw [h.chain.desc0, h.chain.desc1, h.chain.desc2]
  simp only [h.chain.ops, hr]
  cases write
  · rw [if_neg (by decide), if_neg (by decide), if_pos (by decide)]
  · rw [if_neg (by decide), if_pos (by decide)]

omit [DecidableEq B] in
/-- The device has done something, which does not concern the descriptors. -/
lemma device_step (hi : Inv s n m γ) (hg : γ .device = g) (hown : g.own = [])
    (htrip : g.trip = none) (hlook : g.look = .none)
    (hlock : s'.1.lock = s.1.lock) (hbuf : s'.1.buf = s.1.buf) (hfree : s'.1.free = s.1.free)
    (hdesc : ∀ i, s'.1.desc i = s.1.desc i ∧ s'.1.ops i = s.1.ops i ∧
      (s'.1.info i).b = (s.1.info i).b)
    (havail : s'.1.avail.data = s.1.avail.data ∧ s'.1.avail.tail = s.1.avail.tail)
    (hseen : s'.2.seen = s.2.seen ∧ s'.2.processed = s.2.processed)
    (hposted : ∃ l, s'.2.posted = s.2.posted ++ l)
    (hflight : ∀ p, (s'.2.flight p).map (fun f => (f.idx, f.order)) =
      (s.2.flight p).map fun f => (f.idx, f.order))
    (hrings : Rings s' n m γ) : Inv s' n m (Function.update γ .device g) := by
  have hr : Rely (.device : Ctx P C) g.own s s' :=
    ⟨fun u _ => by rw [hlock], fun i _ => hdesc i, fun b p _ h => by rwa [hbuf],
      fun u _ _ => ⟨fun b => by rw [hbuf], fun i => (hdesc i).2.2, havail.1, havail.2, hseen.1,
        hseen.2⟩, hposted, fun p _ => hflight p⟩
  have hloc : Local s .device g := hg ▸ hi.each .device
  have hl : Local s' .device g :=
    ⟨by rw [hlock]; exact hloc.lock, by rw [hbuf]; exact hloc.buf, hloc.own,
      fun _ => by rw [hown]; trivial, fun r h => absurd (htrip.symm.trans h) (by simp),
      fun _ p hp => absurd hp (by simp), fun _ => .inl hown, by rw [hlook]; trivial⟩
  refine hi.step hg hr hl (fun i h => .inl h) (fun i => ?_) ?_
  · rw [hfree]
    exact free_same hi hg rfl i
  · rwa [update_of_eq hg]

omit [DecidableEq P] [DecidableEq C] [DecidableEq B] in
/-- A head goes from one place to another, and the heads that the device has are the same. -/
lemma rings_move (hi : Inv s n m γ) (x : State P C B) (hperm : (inDevice x).Perm (inDevice s))
    (hbuf : x.1.buf = s.1.buf) : (inDevice x).Nodup ∧
      ∀ i, i ∈ inDevice x ↔ ∃ t, Waits x (γ t) i := by
  refine ⟨hperm.nodup_iff.mpr hi.rings.nodup, fun i => ?_⟩
  rw [hperm.mem_iff, hi.rings.mem]
  simp only [Waits, hbuf]

omit [DecidableEq P] [DecidableEq C] [DecidableEq B] in
lemma perm_eraseIdx {l : List (Fin NUM)} {k : ℕ} {i : Fin NUM} (h : l[k]? = some i) :
    l.Perm (i :: l.eraseIdx k) := by
  obtain ⟨hlt, hget⟩ := List.getElem?_eq_some_iff.mp h
  rw [← hget]
  exact (List.getElem_cons_eraseIdx_perm hlt).symm

omit [DecidableEq P] [DecidableEq C] [DecidableEq B] in
/-- With every head that the device has there is a descriptor that it does not have a head at. -/
lemma length_inDevice (hi : Inv s n m γ) {i : Fin NUM} (h : i ∈ inDevice s) :
    (inDevice s).length < NUM := by
  obtain ⟨u, r, hr, hst, hidx, -, htrip⟩ := waits_of_mem hi h
  have hnodup := (hi.each u).own
  rw [htrip.own] at hnodup
  have hnot : r.idx.i1 ∉ inDevice s := by
    intro hm
    obtain ⟨v, r', hr', -, hidx', -, htrip'⟩ := waits_of_mem hi hm
    have hvu : v = u := by
      refine hi.own v u r.idx.i1 ?_ ?_
      · rw [htrip'.own, ← hidx']
        simp
      · rw [htrip.own]
        simp
    rw [hvu, hr] at hr'
    cases hr'
    rw [hidx'] at hnodup
    simp at hnodup
  have hle := (List.nodup_cons.mpr ⟨hnot, hi.rings.nodup⟩).length_le_card
  rw [Fintype.card_fin, List.length_cons] at hle
  exact hle

section Device

variable (hi : Inv s n m γ) (hg : γ .device = g) (hown : g.own = []) (htrip : g.trip = none)
  (hlook : g.look = .none)

include hi hg hown htrip hlook

omit [DecidableEq B] in
lemma device_fetch (hne : s.1.avail.head ≠ s.1.avail.tail) :
    Inv ({ s.1 with
      avail := pop s.1.avail
      taken := s.1.taken ++ [front s.1.avail] }, { s.2 with fetched := s.2.fetched + 1 }) n m
      (Function.update γ .device g) := by
  have htaken := hi.rings.avail.taken
  have hlt : s.2.sent.length ≠ s.2.fetched := fun h =>
    hne ((hi.rings.avail.empty_iff two_pow.2).mpr h)
  obtain ⟨hget, hpop⟩ := hi.rings.avail.pop hlt
  have hdrop : s.2.sent.drop s.2.fetched =
      front s.1.avail :: s.2.sent.drop (s.2.fetched + 1) := by
    obtain ⟨h1, h2⟩ := List.getElem?_eq_some_iff.mp hget
    rw [List.drop_eq_getElem_cons h1, h2]
  have hmove := rings_move hi (({ s.1 with
      avail := pop s.1.avail
      taken := s.1.taken ++ [front s.1.avail] }, { s.2 with fetched := s.2.fetched + 1 })) (by
    simp only [inDevice, hdrop, List.append_assoc, List.cons_append, List.nil_append]
    rw [← List.append_assoc]
    refine List.perm_middle.trans ?_
    rw [List.append_assoc]) rfl
  refine device_step hi hg hown htrip hlook rfl rfl rfl (fun _ => ⟨rfl, rfl, rfl⟩) ⟨rfl, rfl⟩
    ⟨rfl, rfl⟩ ⟨[], by simp⟩ (fun _ => rfl) ⟨hpop, hi.rings.used, hi.rings.processed, hi.rings.seen,
      hmove.1, hmove.2, hi.rings.status, fun p r hr hst => ?_⟩
  have hs := hi.rings.served p r hr hst
  rw [hdrop, List.mem_cons] at hs
  simp only [List.mem_append, List.mem_singleton]
  tauto

omit [DecidableEq B] in
lemma device_finish {k : ℕ} {i : Fin NUM} (hk : s.1.taken[k]? = some i) :
    ∃ o, follow s.1 i = some (o, i) ∧ Inv ({ s.1 with
      info := Function.update s.1.info i { s.1.info i with status := 0 }
      taken := s.1.taken.eraseIdx k
      done := s.1.done ++ [i] },
      { s.2 with flight := fun p => (s.2.flight p).map (serve i o) }) n m
      (Function.update γ .device g) := by
  have hperm := perm_eraseIdx hk
  have hmem : i ∈ inDevice s := by
    simp only [inDevice, List.mem_append]
    exact .inl (.inl (.inr (hperm.mem_iff.mpr (List.mem_cons_self ..))))
  obtain ⟨u, r, hr, hst, hidx, hdisk, hu⟩ := waits_of_mem hi hmem
  refine ⟨r.order, hidx ▸ follow_of_trip hu, ?_⟩
  have hmap : ∀ o : Option (Flight B), (o.map (serve i r.order)).map (fun f => (f.idx, f.order)) =
      o.map fun f => (f.idx, f.order) := by
    intro o
    cases o with
    | none => rfl
    | some f =>
      simp only [Option.map_some, serve]
      split_ifs <;> rfl
  have hmove := rings_move hi (({ s.1 with
      info := Function.update s.1.info i { s.1.info i with status := 0 }
      taken := s.1.taken.eraseIdx k
      done := s.1.done ++ [i] },
      { s.2 with flight := fun p => (s.2.flight p).map (serve i r.order) })) (by
    simp only [inDevice]
    refine List.Perm.append_right _ ?_
    rw [List.append_assoc, List.append_assoc]
    refine List.Perm.append_left _ ?_
    rw [← List.append_assoc]
    refine (List.perm_append_singleton i _).trans ?_
    exact (hperm.append_right s.1.done).symm) rfl
  refine device_step hi hg hown htrip hlook rfl rfl rfl (fun j => ⟨rfl, rfl, ?_⟩) ⟨rfl, rfl⟩
    ⟨rfl, rfl⟩ ⟨[], by simp⟩ (fun p => hmap _) ⟨hi.rings.avail, hi.rings.used, hi.rings.processed,
      hi.rings.seen, hmove.1, hmove.2, fun j hj => ?_, fun p r' hr' hst' => ?_⟩
  · by_cases hji : j = i
    · simp [hji]
    · simp [hji]
  · by_cases hji : j = i
    · simp [hji]
    · simp only [Function.update_of_ne hji]
      refine hi.rings.status j (hj.imp (fun h => ?_) id)
      simpa [hji] using h
  · obtain ⟨v, hv⟩ := ((hi.each (.proc p)).trip r' hr').flight p rfl
    by_cases hri : r'.idx.i0 = i
    · -- this is the request that has been carried out
      have hpu : Ctx.proc p = u := by
        refine hi.own _ u i ?_ ?_
        · rw [((hi.each (.proc p)).trip r' hr').own, hri]
          simp
        · rw [hu.own, hidx]
          simp
      rw [hpu, hr] at hr'
      cases hr'
      refine .inr (.inr ?_)
      simp [hv, serve, hidx]
    · have hs := hi.rings.served p r' hr' hst'
      rw [hperm.mem_iff, List.mem_cons] at hs
      rcases hs with h | h | h
      · exact .inl h
      · exact .inr (.inl (h.resolve_left hri))
      · exact .inr (.inr (by simp [h, serve, hri]))

omit [DecidableEq B] in
lemma device_post {k : ℕ} {i : Fin NUM} (hk : s.1.done[k]? = some i) :
    Inv ({ s.1 with used := push i s.1.used, done := s.1.done.eraseIdx k },
      { s.2 with posted := s.2.posted ++ [i] }) n m (Function.update γ .device g) := by
  have hperm := perm_eraseIdx hk
  have hmemd : i ∈ s.1.done := hperm.mem_iff.mpr (List.mem_cons_self ..)
  have hmem : i ∈ inDevice s := by
    simp only [inDevice, List.mem_append]
    exact .inl (.inr hmemd)
  have hlen := length_inDevice hi hmem
  have hle : s.2.processed.length ≤ s.2.seen + 1 := by
    rcases hi.rings.seen with h | ⟨h, -⟩ <;> omega
  have hpl : s.2.processed.length ≤ s.2.posted.length := by
    conv_lhs => rw [hi.rings.processed]
    exact (List.length_take_le' ..)
  have hroom : s.2.posted.length < s.2.seen + NUM := by
    have hpos := List.length_pos_of_mem hmemd
    simp only [inDevice, List.length_append, List.length_drop] at hlen
    omega
  have hused := (hi.rings.used.write two_pow.1 hroom i).advance hroom
  simp only [Function.update_self] at hused
  have hdrop : (s.2.posted ++ [i]).drop s.2.processed.length =
      s.2.posted.drop s.2.processed.length ++ [i] := List.drop_append_of_le_length hpl
  have hmove := rings_move hi (({ s.1 with
      used := push i s.1.used, done := s.1.done.eraseIdx k },
      { s.2 with posted := s.2.posted ++ [i] })) (by
    simp only [inDevice, hdrop]
    rw [List.append_assoc (_ ++ _) (s.1.done.eraseIdx k), List.append_assoc (_ ++ _) s.1.done]
    refine List.Perm.append_left _ ?_
    rw [← List.append_assoc]
    refine (List.perm_append_singleton i _).trans ?_
    exact (hperm.append_right _).symm) rfl
  refine device_step hi hg hown htrip hlook rfl rfl rfl (fun _ => ⟨rfl, rfl, rfl⟩) ⟨rfl, rfl⟩
    ⟨rfl, rfl⟩ ⟨[i], rfl⟩ (fun _ => rfl) ⟨hi.rings.avail, hused, ?_, hi.rings.seen,
      hmove.1, hmove.2, fun j hj => ?_, hi.rings.served⟩
  · rw [List.take_append_of_le_length hpl]
    exact hi.rings.processed
  · refine hi.rings.status j ?_
    rw [hdrop, List.mem_append, List.mem_singleton] at hj
    rcases hj with h | h | h
    · exact .inl ((List.eraseIdx_subset) h)
    · exact .inr h
    · exact .inl (h ▸ hmemd)

end Device

lemma spec_device (hown : g.own = []) (htrip : g.trip = none) (hlook : g.look = .none) :
    (proto P C B n m).Spec .device .device g fun _ g' => g' = g := by
  refine spec_base trivial fun s γ c hi hg hloc => ?_
  simp only [sem]
  cases c with
  | plain | kill => exact ⟨fun msg h => (by cases h), fun w r h => (by cases h)⟩
  | fetch =>
    simp only [deviceStep]
    constructor
    · intro msg h
      split_ifs at h
      cases h
    · intro w r h
      split_ifs at h with hne
      cases h
      exact ⟨g, device_fetch hi hg hown htrip hlook hne, rfl⟩
  | finish k =>
    simp only [deviceStep]
    cases hk : s.1.taken[k]? with
    | none => exact ⟨fun msg h => (by cases h), fun w r h => (by cases h)⟩
    | some i =>
      obtain ⟨o, ho, hinv⟩ := device_finish hi hg hown htrip hlook hk
      simp only [ho]
      refine ⟨fun msg h => (by cases h), fun w r h => ?_⟩
      cases h
      exact ⟨g, hinv, rfl⟩
  | post k =>
    simp only [deviceStep]
    cases hk : s.1.done[k]? with
    | none => exact ⟨fun msg h => (by cases h), fun w r h => (by cases h)⟩
    | some i =>
      refine ⟨fun msg h => (by cases h), fun w r h => ?_⟩
      cases h
      exact ⟨g, device_post hi hg hown htrip hlook hk, rfl⟩

end Xv6.Disk.Driver
