import Xv6.Conc.Proto
import Xv6.Disk.Virtio

/-!
The protocol of `vdisk_lock`. Every descriptor that is not free belongs to one thread, which
has taken it and not given it back. A process waits with its three descriptors for the device,
which has the head of the chain from when it is put into the available ring until the handler
clears `b->disk`.
-/

namespace Xv6.Disk.Flight

open Xv6.Conc Xv6.Conc.Prog Xv6.Conc.Proto Xv6.Data.Ring Xv6.Disk.Virtio

variable {P C B : Type}

/-! ### Ghost state -/

/-- How far a request has come: its descriptors are filled in, its head is in the ring, it is the
device's, its process has seen that the device is done. -/
inductive Stage
  | formed
  | placed
  | flying
  | landed

/-- How far the handler is with an entry of the used ring. -/
inductive Look (B : Type)
  | none
  | pending
  | entry (i : Fin NUM)
  | found (i : Fin NUM) (b : B)
  | cleared

/-- A request of a process. -/
structure Trip (B : Type) where
  idx : Idx
  order : Order B
  stage : Stage

structure Ghost (B : Type) where
  /-- The buffer that it has locked. -/
  buf : Option B
  /-- It holds `vdisk_lock`. -/
  holds : Bool
  /-- The descriptors that it has taken. -/
  own : List (Fin NUM)
  /-- They are a chain. -/
  linked : Bool
  trip : Option (Trip B)
  look : Look B

section Facts

variable (s : State P C B)

/-- The chain of a request as `virtio_disk_rw` fills it in. -/
structure Formatted (idx : Idx) (o : Order B) : Prop where
  desc0 : s.1.desc idx.i0 = ⟨.ops idx.i0, 16, VRING_DESC_F_NEXT, BitVec.ofNat 16 idx.i1⟩
  desc1 : s.1.desc idx.i1 = ⟨.data o.buf, UInt32.ofNat BSIZE,
    (if o.write then 0 else VRING_DESC_F_WRITE) ||| VRING_DESC_F_NEXT, BitVec.ofNat 16 idx.i2⟩
  desc2 : s.1.desc idx.i2 = ⟨.status idx.i0, 1, VRING_DESC_F_WRITE, 0⟩
  ops : s.1.ops idx.i0 = ⟨if o.write then VIRTIO_BLK_T_OUT else VIRTIO_BLK_T_IN, o.sector⟩
  info : (s.1.info idx.i0).b = some o.buf

/-- Descriptors of which each names the next. -/
def Chained : List (Fin NUM) → Prop
  | [] => True
  | [i] => (s.1.desc i).flags &&& VRING_DESC_F_NEXT = 0
  | i :: j :: l => (s.1.desc i).flags &&& VRING_DESC_F_NEXT ≠ 0 ∧
      (s.1.desc i).next.toNat = j ∧ Chained (j :: l)

def StageOk (t : Ctx P C) (r : Trip B) : Stage → Prop
  | .formed => s.1.lock = some t ∧ (s.1.buf r.order.buf).disk = true
  | .placed => s.1.lock = some t ∧ (s.1.buf r.order.buf).disk = true ∧
      s.1.avail.data (index s.1.avail.tail) = r.idx.i0
  | .flying => True
  | .landed => s.1.lock = some t ∧ (s.1.buf r.order.buf).disk = false

structure TripOk (t : Ctx P C) (g : Ghost B) (r : Trip B) : Prop where
  buf : g.buf = some r.order.buf
  own : g.own = [r.idx.i0, r.idx.i1, r.idx.i2]
  chain : Formatted s r.idx r.order
  flight : ∀ p, t = .proc p → ∃ v, s.2.flight p = some ⟨r.idx, r.order, v⟩
  stage : StageOk s t r r.stage

def LookOk (t : Ctx P C) : Look B → Prop
  | .none => True
  | .pending => s.1.lock = some t ∧ s.2.seen < s.2.posted.length ∧
      s.2.processed.length = s.2.seen
  | .entry i => s.1.lock = some t ∧ s.2.posted[s.2.seen]? = some i ∧
      s.2.processed.length = s.2.seen
  | .found i b => s.1.lock = some t ∧ s.2.posted[s.2.seen]? = some i ∧
      s.2.processed.length = s.2.seen ∧ (s.1.info i).b = some b
  | .cleared => s.1.lock = some t ∧ s.2.seen < s.2.posted.length ∧
      s.2.processed.length = s.2.seen + 1

/-- What a ghost value says of its thread. -/
structure Local (t : Ctx P C) (g : Ghost B) : Prop where
  lock : g.holds = true ↔ s.1.lock = some t
  buf : ∀ b, g.buf = some b → ∃ p, t = .proc p ∧ (s.1.buf b).lock = some p
  own : g.own.Nodup
  linked : g.linked = true → Chained s g.own
  trip : ∀ r, g.trip = some r → TripOk s t g r
  none : g.trip = none → ∀ p, t = .proc p → s.2.flight p = none
  out : g.holds = false → g.own = [] ∨ ∃ r, g.trip = some r
  look : LookOk s t g.look

/-- The heads that are in the rings or with the device. -/
def inDevice : List (Fin NUM) :=
  s.2.sent.drop s.2.fetched ++ s.1.taken ++ s.1.done ++ s.2.posted.drop s.2.processed.length

/-- The process waits for the device. -/
def Waits (g : Ghost B) (i : Fin NUM) : Prop :=
  ∃ r, g.trip = some r ∧ r.stage = .flying ∧ r.idx.i0 = i ∧ (s.1.buf r.order.buf).disk = true

/-- The rings and the device. -/
structure Rings (n m : BitVec 16) (γ : Ctx P C → Ghost B) : Prop where
  avail : Carries n s.2.sent s.2.fetched s.1.avail
  used : Carries m s.2.posted s.2.seen s.1.used
  processed : s.2.processed = s.2.posted.take s.2.processed.length
  seen : s.2.processed.length = s.2.seen ∨
    s.2.processed.length = s.2.seen + 1 ∧ ∃ t, (γ t).look = .cleared
  nodup : (inDevice s).Nodup
  mem : ∀ i, i ∈ inDevice s ↔ ∃ t, Waits s (γ t) i
  status : ∀ i, i ∈ s.1.done ∨ i ∈ s.2.posted.drop s.2.processed.length →
    (s.1.info i).status = 0
  served : ∀ p r, (γ (.proc p)).trip = some r → r.stage = .flying →
    r.idx.i0 ∈ s.2.sent.drop s.2.fetched ∨ r.idx.i0 ∈ s.1.taken ∨
      s.2.flight p = some ⟨r.idx, r.order, some r.order⟩

structure Inv (n m : BitVec 16) (γ : Ctx P C → Ghost B) : Prop where
  each : ∀ t, Local s t (γ t)
  own : ∀ t u i, i ∈ (γ t).own → i ∈ (γ u).own → t = u
  free : ∀ i, s.1.free i = true ↔ ∀ t, i ∉ (γ t).own
  rings : Rings s n m γ

end Facts

/-! ### Steps -/

section Steps

variable {s s' : State P C B} {γ : Ctx P C → Ghost B} {t u : Ctx P C} {g g' : Ghost B}
  {n m : BitVec 16}

/-- What the other threads may rely on when `t`, which has taken `mine`, makes a step. -/
structure Rely (t : Ctx P C) (mine : List (Fin NUM)) (s s' : State P C B) : Prop where
  lock : ∀ u, u ≠ t → (s'.1.lock = some u ↔ s.1.lock = some u)
  desc : ∀ i, i ∉ mine → s'.1.desc i = s.1.desc i ∧ s'.1.ops i = s.1.ops i ∧
    (s'.1.info i).b = (s.1.info i).b
  buf : ∀ b p, t ≠ .proc p → (s.1.buf b).lock = some p → (s'.1.buf b).lock = some p
  locked : ∀ u, u ≠ t → s.1.lock = some u → (∀ b, (s'.1.buf b).disk = (s.1.buf b).disk) ∧
    (∀ i, (s'.1.info i).b = (s.1.info i).b) ∧ s'.1.avail.data = s.1.avail.data ∧
    s'.1.avail.tail = s.1.avail.tail ∧ s'.2.seen = s.2.seen ∧ s'.2.processed = s.2.processed
  posted : ∃ l, s'.2.posted = s.2.posted ++ l
  flight : ∀ p, t ≠ .proc p → (s'.2.flight p).map (fun f => (f.idx, f.order)) =
    (s.2.flight p).map fun f => (f.idx, f.order)

lemma Formatted.congr {idx : Idx} {o : Order B} (h : Formatted s idx o)
    (hs : ∀ i ∈ [idx.i0, idx.i1, idx.i2], s'.1.desc i = s.1.desc i ∧ s'.1.ops i = s.1.ops i ∧
      (s'.1.info i).b = (s.1.info i).b) : Formatted s' idx o := by
  obtain ⟨d0, o0, i0⟩ := hs idx.i0 (by simp)
  obtain ⟨d1, -, -⟩ := hs idx.i1 (by simp)
  obtain ⟨d2, -, -⟩ := hs idx.i2 (by simp)
  exact ⟨d0.trans h.desc0, d1.trans h.desc1, d2.trans h.desc2, o0.trans h.ops, i0.trans h.info⟩

lemma Chained.congr {l : List (Fin NUM)} (h : Chained s l)
    (hs : ∀ i ∈ l, s'.1.desc i = s.1.desc i) : Chained s' l := by
  induction l with
  | nil => trivial
  | cons i l ih =>
    cases l with
    | nil =>
      change (s'.1.desc i).flags &&& _ = 0
      rw [hs i (by simp)]
      exact h
    | cons j l =>
      obtain ⟨h1, h2, h3⟩ := h
      have hd := hs i (by simp)
      refine ⟨by rwa [hd], by rwa [hd], ih h3 fun k hk => hs k (List.mem_cons_of_mem _ hk)⟩

lemma LookOk.stable {mine : List (Fin NUM)} {l : Look B} (h : LookOk s u l)
    (hr : Rely t mine s s') (hu : u ≠ t) : LookOk s' u l := by
  obtain ⟨new, hnew⟩ := hr.posted
  have hlen : s.2.posted.length ≤ s'.2.posted.length := by simp [hnew]
  have hget : ∀ (k : ℕ) x, s.2.posted[k]? = some x → s'.2.posted[k]? = some x := by
    intro k x hx
    rw [hnew, List.getElem?_append_left (List.getElem?_eq_some_iff.mp hx).1]
    exact hx
  cases l with
  | none => trivial
  | pending =>
    obtain ⟨h1, h2, h3⟩ := h
    obtain ⟨-, -, -, -, e1, e2⟩ := hr.locked u hu h1
    refine ⟨(hr.lock u hu).mpr h1, ?_, ?_⟩
    · rw [e1]
      omega
    · rw [e1, e2]
      exact h3
  | entry i =>
    obtain ⟨h1, h2, h3⟩ := h
    obtain ⟨-, -, -, -, e1, e2⟩ := hr.locked u hu h1
    refine ⟨(hr.lock u hu).mpr h1, ?_, ?_⟩
    · rw [e1]
      exact hget _ _ h2
    · rw [e1, e2]
      exact h3
  | found i b =>
    obtain ⟨h1, h2, h3, h4⟩ := h
    obtain ⟨-, e0, -, -, e1, e2⟩ := hr.locked u hu h1
    refine ⟨(hr.lock u hu).mpr h1, ?_, ?_, (e0 i).trans h4⟩
    · rw [e1]
      exact hget _ _ h2
    · rw [e1, e2]
      exact h3
  | cleared =>
    obtain ⟨h1, h2, h3⟩ := h
    obtain ⟨-, -, -, -, e1, e2⟩ := hr.locked u hu h1
    refine ⟨(hr.lock u hu).mpr h1, ?_, ?_⟩
    · rw [e1]
      omega
    · rw [e1, e2]
      exact h3

/-- What a thread knows survives the steps of the others. -/
lemma Local.stable {mine : List (Fin NUM)} (h : Local s u g) (hr : Rely t mine s s')
    (hu : u ≠ t) (hmine : ∀ i ∈ g.own, i ∉ mine) : Local s' u g := by
  have hother : ∀ p, u = .proc p → t ≠ .proc p := fun p hp ht => hu (hp.trans ht.symm)
  refine ⟨h.lock.trans (hr.lock u hu).symm, fun b hb => ?_, h.own, fun hl => ?_, fun r hg => ?_,
    fun hg p hp => ?_, h.out, h.look.stable hr hu⟩
  · obtain ⟨p, hp, hl⟩ := h.buf b hb
    exact ⟨p, hp, hr.buf b p (hother p hp) hl⟩
  · exact (h.linked hl).congr fun i hi => (hr.desc i (hmine i hi)).1
  · obtain ⟨h1, h2, h3, h4, h5⟩ := h.trip r hg
    refine ⟨h1, h2, h3.congr fun i hi => hr.desc i (hmine i (h2 ▸ hi)), fun p hp => ?_, ?_⟩
    · obtain ⟨v, hv⟩ := h4 p hp
      have hf := hr.flight p (hother p hp)
      rw [hv] at hf
      obtain ⟨f, hf1, hf2⟩ := Option.map_eq_some_iff.mp hf
      obtain ⟨idx, o, v'⟩ := f
      simp only [Prod.mk.injEq] at hf2
      obtain ⟨rfl, rfl⟩ := hf2
      exact ⟨v', hf1⟩
    · cases hst : r.stage with
      | flying => trivial
      | formed =>
        rw [hst] at h5
        obtain ⟨hl, hd⟩ := h5
        obtain ⟨e, -⟩ := hr.locked u hu hl
        exact ⟨(hr.lock u hu).mpr hl, (e _).trans hd⟩
      | placed =>
        rw [hst] at h5
        obtain ⟨hl, hd, ha⟩ := h5
        obtain ⟨e, -, e1, e2, -⟩ := hr.locked u hu hl
        refine ⟨(hr.lock u hu).mpr hl, (e _).trans hd, ?_⟩
        rw [e1, e2]
        exact ha
      | landed =>
        rw [hst] at h5
        obtain ⟨hl, hd⟩ := h5
        obtain ⟨e, -⟩ := hr.locked u hu hl
        exact ⟨(hr.lock u hu).mpr hl, (e _).trans hd⟩
  · have hf := hr.flight p (hother p hp)
    rw [h.none hg p hp] at hf
    exact Option.map_eq_none_iff.mp hf

/-- Two processes do not have the same buffer. -/
lemma Inv.buf_inj (hi : Inv s n m γ) {b : B} (ht : (γ t).buf = some b) (hu : (γ u).buf = some b) :
    t = u := by
  obtain ⟨p, rfl, hp⟩ := (hi.each t).buf b ht
  obtain ⟨q, rfl, hq⟩ := (hi.each u).buf b hu
  rw [hp] at hq
  rw [Option.some.inj hq]

variable [DecidableEq P] [DecidableEq C]

/-- **A step keeps the invariant** if it keeps to what the others rely on, takes free descriptors
only and gives back its own only. -/
lemma Inv.step (hi : Inv s n m γ) (hg : γ t = g) (hr : Rely t g.own s s') (hl : Local s' t g')
    (hown : ∀ i ∈ g'.own, i ∈ g.own ∨ s.1.free i = true)
    (hfree : ∀ i, s'.1.free i = true ↔ i ∉ g'.own ∧ (i ∈ g.own ∨ s.1.free i = true))
    (hrings : Rings s' n m (Function.update γ t g')) : Inv s' n m (Function.update γ t g') := by
  have hapart : ∀ u i, u ≠ t → i ∈ (γ u).own → i ∉ g.own ∧ s.1.free i ≠ true := by
    intro u i hu hiu
    refine ⟨fun hit => hu (hi.own u t i hiu (by rw [hg]; exact hit)), fun hf => ?_⟩
    exact (hi.free i).mp hf u hiu
  have hnew : ∀ u i, u ≠ t → i ∈ (γ u).own → i ∉ g'.own := by
    intro u i hu hiu hit
    obtain ⟨h1, h2⟩ := hapart u i hu hiu
    exact (hown i hit).elim h1 h2
  refine ⟨fun u => ?_, fun u v i hu hv => ?_, fun i => ?_, hrings⟩
  · by_cases hu : u = t
    · rw [hu, Function.update_self]
      exact hl
    · rw [Function.update_of_ne hu]
      exact (hi.each u).stable hr hu fun i hiu => (hapart u i hu hiu).1
  · by_cases hut : u = t
    · by_cases hvt : v = t
      · rw [hut, hvt]
      · rw [hut, Function.update_self] at hu
        rw [Function.update_of_ne hvt] at hv
        exact absurd hu (hnew v i hvt hv)
    · rw [Function.update_of_ne hut] at hu
      by_cases hvt : v = t
      · rw [hvt, Function.update_self] at hv
        exact absurd hv (hnew u i hut hu)
      · rw [Function.update_of_ne hvt] at hv
        exact hi.own u v i hu hv
  · rw [hfree]
    constructor
    · rintro ⟨h1, h2⟩ u hu
      by_cases hut : u = t
      · rw [hut, Function.update_self] at hu
        exact h1 hu
      · rw [Function.update_of_ne hut] at hu
        obtain ⟨h3, h4⟩ := hapart u i hut hu
        exact h2.elim h3 h4
    · intro h
      have ht := h t
      rw [Function.update_self] at ht
      refine ⟨ht, ?_⟩
      by_contra hne
      push Not at hne
      obtain ⟨h1, h2⟩ := hne
      refine h2 ((hi.free i).mpr fun u hu => ?_)
      by_cases hut : u = t
      · rw [hut, hg] at hu
        exact h1 hu
      · have := h u
        rw [Function.update_of_ne hut] at this
        exact this hu

/-! What becomes of the rings. -/

/-- The history and the state of the device. -/
def tally (s : State P C B) : List (Fin NUM) × ℕ × List (Fin NUM) × List (Fin NUM) × ℕ ×
    List (Fin NUM) × List (Fin NUM) × Ring 16 NUM (Fin NUM) :=
  (s.2.sent, s.2.fetched, s.2.posted, s.2.processed, s.2.seen, s.1.taken, s.1.done, s.1.used)

/-- A step that moves no request on. -/
lemma Rings.keep (hi : Inv s n m γ) (hg : γ t = g) (htally : tally s' = tally s)
    (havail : Carries n s.2.sent s.2.fetched s'.1.avail)
    (hstatus : ∀ i ∈ inDevice s, (s'.1.info i).status = (s.1.info i).status)
    (hwait : ∀ i, Waits s' g' i ↔ Waits s g i)
    (hothers : ∀ u r, u ≠ t → (γ u).trip = some r → r.stage = .flying →
      (s'.1.buf r.order.buf).disk = (s.1.buf r.order.buf).disk)
    (hflight : ∀ p, t ≠ .proc p → s'.2.flight p = s.2.flight p)
    (hmine : ∀ p r, t = .proc p → g'.trip = some r → r.stage = .flying →
      g.trip = some r ∧ s'.2.flight p = s.2.flight p)
    (hlook : g.look = .cleared → g'.look = .cleared) :
    Rings s' n m (Function.update γ t g') := by
  simp only [tally, Prod.mk.injEq] at htally
  obtain ⟨h1, h2, h3, h4, h5, h6, h7, h8⟩ := htally
  have hdev : inDevice s' = inDevice s := by simp only [inDevice, h1, h2, h3, h4, h6, h7]
  refine ⟨by rw [h1, h2]; exact havail, by rw [h3, h5, h8]; exact hi.rings.used,
    by rw [h3, h4]; exact hi.rings.processed, ?_, by rw [hdev]; exact hi.rings.nodup,
    fun i => ?_, fun i hi' => ?_, fun p r hr hst => ?_⟩
  · rw [h4, h5]
    rcases hi.rings.seen with h | ⟨h, u, hu⟩
    · exact .inl h
    · refine .inr ⟨h, u, ?_⟩
      by_cases hut : u = t
      · rw [hut, Function.update_self]
        exact hlook (by rw [← hg, ← hut]; exact hu)
      · rwa [Function.update_of_ne hut]
  · rw [hdev, hi.rings.mem]
    refine exists_congr fun u => ?_
    by_cases hut : u = t
    · rw [hut, Function.update_self, hg]
      exact (hwait i).symm
    · rw [Function.update_of_ne hut]
      constructor
      · rintro ⟨r, hr, hst, hidx, hdisk⟩
        exact ⟨r, hr, hst, hidx, (hothers u r hut hr hst).trans hdisk⟩
      · rintro ⟨r, hr, hst, hidx, hdisk⟩
        exact ⟨r, hr, hst, hidx, (hothers u r hut hr hst).symm.trans hdisk⟩
  · rw [h3, h4, h7] at hi'
    have hmem : i ∈ inDevice s := by
      simp only [inDevice, List.mem_append]
      exact hi'.elim (fun h => .inl (.inr h)) .inr
    rw [hstatus i hmem]
    exact hi.rings.status i hi'
  · rw [h1, h2, h6]
    by_cases hp : t = .proc p
    · subst hp
      rw [Function.update_self] at hr
      obtain ⟨e1, e2⟩ := hmine p r rfl hr hst
      rw [e2]
      exact hi.rings.served p r (by rw [hg]; exact e1) hst
    · rw [Function.update_of_ne (Ne.symm hp)] at hr
      rw [hflight p hp]
      exact hi.rings.served p r hr hst

/-! Steps that leave the driver's and the device's data alone. -/

/-- All but the locks and who is asleep. -/
def core (s : State P C B) : (Fin NUM → Desc B) × Ring 16 NUM (Fin NUM) × (Fin NUM → Bool) ×
    (Fin NUM → Info B) × (Fin NUM → BlkReq) × (B → Bool) × History P B :=
  (s.1.desc, s.1.avail, s.1.free, s.1.info, s.1.ops, fun b => (s.1.buf b).disk, s.2)

structure Quiet (t : Ctx P C) (s s' : State P C B) : Prop where
  core : core s' = core s
  tally : tally s' = tally s
  lock : ∀ u, u ≠ t → (s'.1.lock = some u ↔ s.1.lock = some u)
  buf : ∀ b p, t ≠ .proc p → (s.1.buf b).lock = some p → (s'.1.buf b).lock = some p

omit [DecidableEq P] [DecidableEq C] in
lemma Quiet.disk (hq : Quiet t s s') (b : B) : (s'.1.buf b).disk = (s.1.buf b).disk := by
  have h := hq.core
  simp only [Flight.core, Prod.mk.injEq] at h
  exact congrFun h.2.2.2.2.2.1 b

omit [DecidableEq P] [DecidableEq C] in
lemma Quiet.rely (hq : Quiet t s s') (mine : List (Fin NUM)) : Rely t mine s s' := by
  have h := hq.core
  simp only [Flight.core, Prod.mk.injEq] at h
  obtain ⟨h1, h2, h3, h4, h5, -, h7⟩ := h
  refine ⟨hq.lock, fun i _ => by rw [h1, h4, h5]; exact ⟨rfl, rfl, rfl⟩, hq.buf, fun u _ _ => ?_,
    ⟨[], by rw [h7, List.append_nil]⟩, fun p _ => by rw [h7]⟩
  rw [h2, h4, h7]
  exact ⟨hq.disk, fun _ => rfl, rfl, rfl, rfl, rfl⟩

omit [DecidableEq P] [DecidableEq C] in
lemma Local.quiet (hl : Local s t g) (hq : Quiet t s s') {x : Bool} {b : Option B} {l : Look B}
    (hx : x = true ↔ s'.1.lock = some t)
    (hb : ∀ b', b = some b' → ∃ p, t = .proc p ∧ (s'.1.buf b').lock = some p)
    (htrip : ∀ r, g.trip = some r → b = g.buf ∧ (r.stage = .flying ∨ x = true))
    (hout : x = false → g.own = [] ∨ ∃ r, g.trip = some r) (hlook : LookOk s' t l) :
    Local s' t { g with holds := x, buf := b, look := l } := by
  have h := hq.core
  simp only [Flight.core, Prod.mk.injEq] at h
  obtain ⟨h1, h2, h3, h4, h5, -, h7⟩ := h
  refine ⟨hx, hb, hl.own, fun hg => (hl.linked hg).congr fun i _ => by rw [h1], fun r hr => ?_,
    fun hn p hp => by rw [h7]; exact hl.none hn p hp, hout, hlook⟩
  obtain ⟨e1, e2, e3, e4, e5⟩ := hl.trip r hr
  obtain ⟨hbuf, hst⟩ := htrip r hr
  refine ⟨hbuf.trans e1, e2, e3.congr fun i _ => by rw [h1, h4, h5]; exact ⟨rfl, rfl, rfl⟩,
    fun p hp => by rw [h7]; exact e4 p hp, ?_⟩
  cases hs : r.stage with
  | flying => trivial
  | formed =>
    rw [hs] at e5 hst
    exact ⟨hx.mp (hst.resolve_left (by simp)), (hq.disk _).trans e5.2⟩
  | placed =>
    rw [hs] at e5 hst
    exact ⟨hx.mp (hst.resolve_left (by simp)), (hq.disk _).trans e5.2.1, by rw [h2]; exact e5.2.2⟩
  | landed =>
    rw [hs] at e5 hst
    exact ⟨hx.mp (hst.resolve_left (by simp)), (hq.disk _).trans e5.2⟩

lemma Inv.quiet (hi : Inv s n m γ) (hg : γ t = g) (hq : Quiet t s s') (hl : Local s' t g')
    (hown : g'.own = g.own) (htrip : g'.trip = g.trip)
    (hlook : g.look = .cleared → g'.look = .cleared) : Inv s' n m (Function.update γ t g') := by
  have h := hq.core
  simp only [Flight.core, Prod.mk.injEq] at h
  obtain ⟨h1, h2, h3, h4, h5, -, h7⟩ := h
  have hfree : ∀ i, s.1.free i = true → i ∉ g.own := fun i hf => by
    rw [← hg]
    exact (hi.free i).mp hf t
  refine hi.step hg (hq.rely g.own) hl (fun i hi' => .inl (hown ▸ hi')) (fun i => ?_)
    (Rings.keep hi hg hq.tally (by rw [h2]; exact hi.rings.avail) (fun i _ => by rw [h4])
      (fun i => ?_) (fun u r _ _ _ => hq.disk _) (fun p _ => by rw [h7])
      (fun p r _ hr _ => ⟨htrip ▸ hr, by rw [h7]⟩) hlook)
  · rw [h3, hown]
    exact ⟨fun hf => ⟨hfree i hf, .inr hf⟩, fun hf => hf.2.resolve_left hf.1⟩
  · simp only [Waits, htrip, hq.disk]

end Steps

end Xv6.Disk.Flight
