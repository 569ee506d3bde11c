import Xv6.Disk.Driver

/-!
Descriptor accounting. Between two critical sections the descriptors are shared out between the
free ones and the chains of three of the requests in flight; the device's completions are taken
from the used ring once each; and a buffer is handed back when its own request is done.
-/

namespace Xv6.Disk.Account

open Xv6.Conc Xv6.Conc.Prog Xv6.Conc.Proto Xv6.Data.Ring Xv6.Disk.Virtio Xv6.Disk.Flight
  Xv6.Disk.Driver

variable {P C B : Type} [DecidableEq P] [DecidableEq C] [DecidableEq B] {n m : BitVec 16}
  {t : Ctx P C} {p : P} {g : Ghost B} {b : B}

/-! ### The programs follow the protocol -/

/-- In no request, with `vdisk_lock` held or not. -/
abbrev plain (b : Option B) (holds : Bool) (own : List (Fin NUM)) (linked : Bool) : Ghost B :=
  ⟨b, holds, own, linked, none, .none⟩

lemma sleep_wp {c : Chan B} (hh : g.holds = true) (hl : g.look = .none)
    (ho : c = .free → g.own = []) (ht : ∀ r, g.trip = some r → r.stage = .flying)
    (hout : g.own = [] ∨ ∃ r, g.trip = some r) :
    (proto P C B n m).wp (.proc p) (sleep c) (fun _ g' => g' = g) g := by
  refine wp_act (spec_sleep hh hl ho ht hout) fun _ g' hg' => ?_
  subst hg'
  refine wp_act spec_awake fun _ g' hg' => ?_
  subst hg'
  refine wp_perform ?_
  refine Spec.mono (spec_acquire (g := { g with holds := false }) hl ht) fun _ g' hg' => ?_
  rw [hg', ← hh]

lemma freeAll_wp (k : Bool) (idx : List (Fin NUM)) :
    (proto P C B n m).wp t (freeAll idx) (fun _ g' => g' = plain (some b) true [] k)
      (plain (some b) true idx k) := by
  refine wp_iterate (fun l g' => g' = plain (some b) true l k) rfl fun l g' hg' => ?_
  subst hg'
  cases l with
  | nil => rfl
  | cons i l =>
    refine wp_act (spec_freeDesc rfl rfl rfl rfl) fun _ g' hg' => ?_
    subst hg'
    rfl

/-- What `alloc3_desc` leaves its caller with: three descriptors, or none. -/
def Got (b : B) : Option Idx → Ghost B → Prop
  | some idx, g => ∃ k, g = plain (some b) true [idx.i0, idx.i1, idx.i2] k
  | none, g => ∃ k, g = plain (some b) true [] k

/-- What a round of its loop leaves it with. -/
def Round (b : B) : List (Fin NUM) ⊕ Option Idx → Ghost B → Prop
  | .inl idx, g => ∃ k, g = plain (some b) true idx k
  | .inr o, g => Got b o g

lemma allocNext_wp (k : Bool) (idx : List (Fin NUM)) :
    (proto P C B n m).wp t (allocNext idx) (Round b) (plain (some b) true idx k) := by
  refine wp_act (spec_allocDesc rfl rfl rfl) fun o g' hg' => ?_
  cases o with
  | some i =>
    subst hg'
    exact ⟨false, rfl⟩
  | none =>
    subst hg'
    exact wp_call (freeAll_wp k idx) fun _ g' hg' => ⟨k, hg'⟩

/-- **A failed `alloc3_desc` returns everything it took.** -/
lemma alloc3Desc_wp (k : Bool) :
    (proto P C B n m).wp t alloc3Desc (Got b) (plain (some b) true [] k) := by
  refine wp_iterate (fun idx g' => ∃ k', g' = plain (some b) true idx k') ⟨k, rfl⟩
    fun idx g' hg' => ?_
  obtain ⟨k', rfl⟩ := hg'
  have hnext := allocNext_wp (P := P) (C := C) (b := b) (n := n) (m := m) (t := t) k' idx
  match idx with
  | [i0, i1, i2] => exact ⟨k', rfl⟩
  | [] => exact wp_mono hnext fun r _ hr => by cases r <;> exact hr
  | [_] => exact wp_mono hnext fun r _ hr => by cases r <;> exact hr
  | [_, _] => exact wp_mono hnext fun r _ hr => by cases r <;> exact hr
  | _ :: _ :: _ :: _ :: _ => exact wp_mono hnext fun r _ hr => by cases r <;> exact hr

lemma freeChain_wp {i : Fin NUM} {l : List (Fin NUM)} :
    (proto P C B n m).wp t (freeChain i) (fun _ g' => g' = plain (some b) true [] true)
      (plain (some b) true (i :: l) true) := by
  refine wp_iterate (fun (k : ℕ) g' => ∃ (i : Fin NUM) (l : List (Fin NUM)), k = i ∧
    g' = plain (some b) true (i :: l) true) ⟨i, l, rfl, rfl⟩ fun k g' hg' => ?_
  obtain ⟨i, l, rfl, rfl⟩ := hg'
  refine wp_act (spec_link rfl rfl) fun r g' hg' => ?_
  obtain ⟨rfl, hr⟩ := hg'
  refine wp_act (spec_freeDesc rfl rfl rfl rfl) fun _ g' hg' => ?_
  subst hg'
  rcases hr with ⟨rfl, hr⟩ | ⟨j, l', rfl, hr, hj⟩
  · rw [if_neg (not_not.mpr hr)]
    rfl
  · rw [if_pos hr]
    exact ⟨j, l', hj, rfl⟩

lemma rw_wp (write k : Bool) :
    (proto P C B n m).wp (.proc p) (virtioDiskRw b write)
      (fun _ g' => ∃ k', g' = plain (some b) false [] k') (plain (some b) false [] k) := by
  refine wp_act (spec_blockno b) fun blockno g' hg' => ?_
  subst hg'
  refine wp_act (spec_acquire rfl (by simp)) fun _ g' hg' => ?_
  subst hg'
  refine wp_call (I := fun (idx : Idx) g' => ∃ k', g' =
    plain (some b) true [idx.i0, idx.i1, idx.i2] k') ?_ fun idx g' hg' => ?_
  · refine wp_iterate (fun _ g' => ∃ k', g' = plain (some b) true [] k') ⟨k, rfl⟩
      fun _ g' hg' => ?_
    obtain ⟨k', rfl⟩ := hg'
    refine wp_call (alloc3Desc_wp k') fun o g' hg' => ?_
    cases o with
    | some idx => exact hg'
    | none =>
      obtain ⟨k'', rfl⟩ := hg'
      refine wp_call (sleep_wp rfl rfl (fun _ => rfl) (by simp) (.inl rfl)) fun _ g' hg' => ?_
      exact ⟨k'', hg'⟩
  obtain ⟨k', rfl⟩ := hg'
  generalize (blockno * UInt32.ofNat (BSIZE / 512)).toUInt64 = sector
  refine wp_act (spec_format rfl rfl rfl rfl rfl) fun _ g' hg' => ?_
  subst hg'
  refine wp_act (spec_putAvail (r := ⟨idx, ⟨b, write, sector⟩, .formed⟩) rfl rfl rfl rfl rfl) fun _ g' hg' => ?_
  subst hg'
  refine wp_act (spec_bumpAvail (r := ⟨idx, ⟨b, write, sector⟩, .placed⟩) rfl rfl rfl rfl rfl) fun _ g' hg' => ?_
  subst hg'
  let r : Trip B := ⟨idx, ⟨b, write, sector⟩, .flying⟩
  let flying : Ghost B := ⟨some b, true, [idx.i0, idx.i1, idx.i2], false, some r, .none⟩
  let landed : Ghost B := { flying with trip := some { r with stage := .landed } }
  refine wp_call (I := fun _ g' => g' = landed) ?_ fun _ g' hg' => ?_
  · refine wp_iterate (fun _ g' => g' = flying) rfl fun _ g' hg' => ?_
    subst hg'
    refine wp_act (spec_onDisk (r := r) rfl rfl) fun d g' hg' => ?_
    cases d with
    | true =>
      obtain rfl : g' = flying := hg'
      refine wp_call (sleep_wp rfl rfl (by simp) ?_ (.inr ⟨r, rfl⟩)) fun _ g' hg' => hg'
      rintro r' hr'
      cases hr'
      rfl
    | false => exact hg'
  subst hg'
  refine wp_act (spec_clearInfo (r := { r with stage := .landed }) rfl rfl rfl rfl) fun _ g' hg' => ?_
  subst hg'
  refine wp_call (freeChain_wp (b := b) (l := [idx.i1, idx.i2])) fun _ g' hg' => ?_
  subst hg'
  exact wp_perform ((spec_release rfl rfl rfl rfl).mono fun _ g' hg' => ⟨true, hg'⟩)

lemma intr_wp : (proto P C B n m).wp t virtioDiskIntr (fun _ g' => g' = plain none false [] false)
    (plain none false [] false) := by
  refine wp_act (spec_acquire rfl (by simp)) fun _ g' hg' => ?_
  subst hg'
  refine wp_call (I := fun _ g' => g' = plain none true [] false) ?_ fun _ g' hg' => ?_
  · refine wp_iterate (fun _ g' => g' = plain none true [] false) rfl fun _ g' hg' => ?_
    subst hg'
    refine wp_act (spec_pending rfl rfl) fun r g' hg' => ?_
    subst hg'
    cases r with
    | false => rfl
    | true =>
      refine wp_act (spec_usedId rfl) fun i g' hg' => ?_
      subst hg'
      refine wp_act (spec_status rfl) fun st g' hg' => ?_
      obtain ⟨rfl, rfl⟩ := hg'
      refine wp_act (spec_infoBuf rfl) fun b g' hg' => ?_
      subst hg'
      refine wp_act (spec_clearDisk rfl rfl rfl) fun _ g' hg' => ?_
      subst hg'
      refine wp_act (spec_wakeup _) fun _ g' hg' => ?_
      subst hg'
      refine wp_act (spec_bumpUsed rfl rfl rfl) fun _ g' hg' => ?_
      subst hg'
      rfl
  subst hg'
  exact wp_perform (spec_release rfl rfl rfl rfl)

lemma session_wp (k : BlockNo) (ops : List Bool) (l : Bool) :
    (proto P C B n m).wp (.proc p) (session b k ops)
      (fun _ g' => ∃ l', g' = plain none false [] l') (plain none false [] l) := by
  refine wp_act (spec_acquiresleep b rfl rfl rfl) fun _ g' hg' => ?_
  subst hg'
  refine wp_act (spec_setBlockno k rfl rfl rfl) fun _ g' hg' => ?_
  subst hg'
  refine wp_call (I := fun _ g' => ∃ l', g' = plain (some b) false [] l') ?_ fun _ g' hg' => ?_
  · refine wp_iterate (fun _ g' => ∃ l', g' = plain (some b) false [] l') ⟨l, rfl⟩
      fun ops g' hg' => ?_
    obtain ⟨l', rfl⟩ := hg'
    cases ops with
    | nil => exact ⟨l', rfl⟩
    | cons write ops =>
      exact wp_call (rw_wp write l') fun _ g' hg' => hg'
  obtain ⟨l', rfl⟩ := hg'
  exact wp_perform ((spec_releasesleep rfl rfl rfl rfl).mono fun _ g' hg' => ⟨l', hg'⟩)

lemma deviceLoop_wp (Q : Unit → Ghost B → Prop) :
    (proto P C B n m).wp .device deviceLoop Q (plain none false [] false) := by
  refine wp_iterate (fun _ g' => g' = plain none false [] false) rfl fun _ g' hg' => ?_
  subst hg'
  refine wp_act (spec_device rfl rfl rfl) fun _ g' hg' => ?_
  subst hg'
  rfl

/-! ### Every run -/

/-- What a thread is left with by its work. -/
def Done : Ctx P C → Unit → Ghost B → Prop
  | .proc _, _, g => ∃ k, g = plain none false [] k
  | _, _, g => g = plain none false [] false

lemma enters : (proto P C B n m).Enters Done := by
  rintro t s γ q s' q' hi hw he
  change Ctx P C → Ghost B at γ
  refine ⟨γ t, ?_, ?_⟩
  · change Inv s' n m (Function.update γ t (γ t))
    rw [Function.update_eq_self]
    cases he <;> exact hi
  · cases he with
    | @call p _ b k ops =>
      obtain ⟨l, hl⟩ : ∃ l, γ (.proc p) = plain none false [] l := hw
      rw [hl]
      exact session_wp k ops l
    | interrupt =>
      rw [show γ _ = plain none false [] false from hw]
      exact intr_wp
    | device =>
      rw [show γ _ = plain none false [] false from hw]
      exact deviceLoop_wp _

omit [DecidableEq P] [DecidableEq C] [DecidableEq B] in
lemma inDevice_init : inDevice (init P C B n m).shared = [] := rfl

lemma follows_init : (proto P C B n m).Follows Done (init P C B n m) := by
  refine ⟨fun _ => plain none false [] false, ⟨fun t => ?_, ?_, ?_, ?_⟩, fun t => ?_⟩
  · exact ⟨by simp [init], by simp, by simp, by simp, by simp, fun _ _ _ => rfl, by simp, trivial⟩
  · simp
  · simp [init]
  · refine ⟨carries_start, carries_start, rfl, .inl rfl, List.nodup_nil, fun i => ?_, ?_, ?_⟩
    · rw [inDevice_init]
      simp [Waits]
    · simp [init]
    · simp
  · cases t with
    | proc p => exact ⟨false, rfl⟩
    | _ => rfl

/-- The descriptors of a request. -/
def chain (f : Flight B) : List (Fin NUM) := [f.idx.i0, f.idx.i1, f.idx.i2]

section Reading

variable {s : State P C B} {γ : Ctx P C → Ghost B}

omit [DecidableEq P] [DecidableEq C] [DecidableEq B] in
/-- A request in flight is known to its process. -/
lemma trip_of_flight (hi : Inv s n m γ) {f : Flight B} (hf : s.2.flight p = some f) :
    ∃ r, (γ (.proc p)).trip = some r ∧ f.idx = r.idx ∧ f.order = r.order ∧
      (γ (.proc p)).own = chain f := by
  cases hr : (γ (.proc p)).trip with
  | none =>
    rw [(hi.each (.proc p)).none hr p rfl] at hf
    cases hf
  | some r =>
    have htrip := (hi.each (.proc p)).trip r hr
    obtain ⟨v, hv⟩ := htrip.flight p rfl
    rw [hv] at hf
    cases hf
    exact ⟨r, rfl, rfl, rfl, htrip.own⟩

omit [DecidableEq P] [DecidableEq C] [DecidableEq B] in
/-- Where nobody is taking or giving back descriptors, they are free or in a request's chain. -/
lemma shared_out (hi : Inv s n m γ)
    (hq : ∀ t, (γ t).own = [] ∨ ∃ r, (γ t).trip = some r) (i : Fin NUM) :
    (s.1.free i = true ∧ ∀ p f, s.2.flight p = some f → i ∉ chain f) ∨
      (s.1.free i = false ∧ ∃! p, ∃ f, s.2.flight p = some f ∧ i ∈ chain f) := by
  have hown : ∀ p f, s.2.flight p = some f → i ∈ chain f → i ∈ (γ (.proc p)).own := by
    intro p f hf hif
    obtain ⟨r, -, -, -, ho⟩ := trip_of_flight hi hf
    rwa [ho]
  cases hfree : s.1.free i with
  | true =>
    exact .inl ⟨rfl, fun p f hf hif => (hi.free i).mp hfree (.proc p) (hown p f hf hif)⟩
  | false =>
    right
    have hnot : ¬ ∀ t, i ∉ (γ t).own := fun h => by
      rw [(hi.free i).mpr h] at hfree
      cases hfree
    push Not at hnot
    obtain ⟨t, ht⟩ := hnot
    obtain ⟨r, hr⟩ : ∃ r, (γ t).trip = some r := (hq t).resolve_left fun h => by simp [h] at ht
    have htrip := (hi.each t).trip r hr
    obtain ⟨p, rfl, -⟩ := (hi.each t).buf _ htrip.buf
    obtain ⟨v, hv⟩ := htrip.flight p rfl
    refine ⟨rfl, p, ⟨_, hv, ?_⟩, fun q ⟨f, hf, hif⟩ => ?_⟩
    · rw [htrip.own] at ht
      exact ht
    · cases hi.own _ _ i (hown q f hf hif) ht
      rfl

omit [DecidableEq P] [DecidableEq C] [DecidableEq B] in
/-- The entry that the handler has found is that of a request which the device has carried out. -/
lemma served_of_found (hi : Inv s n m γ) {i : Fin NUM} (hl : (γ t).look = .found i b) :
    ∃ p f, s.2.flight p = some f ∧ f.order.buf = b ∧ f.served = some f.order := by
  have hlook := (hi.each t).look
  rw [hl] at hlook
  obtain ⟨-, hget, hlen, hinfo⟩ := hlook
  have hpost := mem_unprocessed hget hlen
  have hmem : i ∈ inDevice s := List.mem_append_right _ hpost
  obtain ⟨u, r, hr, hst, hidx, -, htrip⟩ := waits_of_mem hi hmem
  obtain ⟨p, rfl, -⟩ := (hi.each u).buf _ htrip.buf
  have hb := htrip.chain.info
  rw [hidx, hinfo] at hb
  have hnodup := hi.rings.nodup
  simp only [inDevice, List.nodup_append, List.mem_append] at hnodup
  rcases hi.rings.served p r hr hst with h | h | h
  · rw [hidx] at h
    exact absurd rfl (hnodup.2.2 i (.inl (.inl h)) i hpost)
  · rw [hidx] at h
    exact absurd rfl (hnodup.2.2 i (.inl (.inr h)) i hpost)
  · exact ⟨p, _, h, (Option.some.inj hb).symm, rfl⟩

end Reading

omit [DecidableEq P] [DecidableEq C] in
lemma disk_setBuf {s : St P C B} {b' : B} {v : Buf P} (hv : v.disk = (s.buf b').disk) :
    ((setBuf b' v s).buf b).disk = (s.buf b).disk := by
  by_cases hb : b = b'
  · subst hb
    simp [setBuf, hv]
  · simp [setBuf, hb]

/-- No action but the handler's clears `b->disk`. -/
lemma disk_step {a : Act B} {c : Choice} {s s' : St P C B} {r : Res a}
    (hs : sem t a c s = some (.ok s' r)) (h : (s.buf b).disk = true)
    (h' : (s'.buf b).disk = false) : a = .clearDisk b := by
  have hsame : s'.buf = s.buf → a = .clearDisk b := fun he => by
    rw [he, h] at h'
    cases h'
  have hset : ∀ {b' : B} {v : Buf P}, s' = setBuf b' v s → v.disk = (s.buf b').disk →
      a = .clearDisk b := fun he hv => by
    rw [he, disk_setBuf hv, h] at h'
    cases h'
  cases a with
  | clearDisk b' =>
    by_cases hb : b = b'
    · rw [hb]
    · have he : s' = setDisk b' false s := by cases t <;> cases hs <;> rfl
      rw [he] at h'
      simp [setDisk, setBuf, hb, h] at h'
  | acquiresleep b' =>
    cases t with
    | proc p =>
      simp only [sem] at hs
      split_ifs at hs
      cases hs
      exact hset rfl rfl
    | _ => cases hs
  | releasesleep b' =>
    have he : s' = setBuf b' { s.buf b' with lock := none } s := by cases t <;> cases hs <;> rfl
    exact hset he rfl
  | setBlockno b' k =>
    have he : s' = setBuf b' { s.buf b' with blockno := k } s := by cases t <;> cases hs <;> rfl
    exact hset he rfl
  | format idx b' write sector =>
    have he : s' = format idx b' write sector s := by cases t <;> cases hs <;> rfl
    rw [he] at h'
    by_cases hb : b = b'
    · simp [format, setDisk, setBuf, hb] at h'
    · simp [format, setDisk, setBuf, hb, h] at h'
  | device =>
    refine hsame ?_
    have hdev : deviceStep s c = some (.ok s' r) := by cases t <;> exact hs
    cases c with
    | plain | kill => cases hdev
    | fetch =>
      simp only [deviceStep] at hdev
      split_ifs at hdev
      cases hdev
      rfl
    | finish k =>
      simp only [deviceStep] at hdev
      split at hdev
      · split at hdev
        · cases hdev
          rfl
        · cases hdev
      · cases hdev
    | post k =>
      simp only [deviceStep] at hdev
      split at hdev
      · cases hdev
        rfl
      · cases hdev
  | _ =>
    refine hsame ?_
    cases t <;> simp only [sem] at hs
    all_goals first
      | (cases hs <;> rfl)
      | (split at hs <;> cases hs <;> rfl)
      | (split_ifs at hs <;> cases hs <;> rfl)

/-- What holds between any two actions. -/
structure Accounted (n m : BitVec 16) (c : Pool (State P C B) (Ctx P C) (Act B) Res Unit) :
    Prop where
  /-- When nobody is at work with the descriptors, or when `alloc3_desc` has just failed, each of
  them is free or in the chain of one request. -/
  shared : c.shared.1.lock = none ∨ (∃ t, Performs c t (.sleep .free)) → ∀ i,
    (c.shared.1.free i = true ∧ ∀ p f, c.shared.2.flight p = some f → i ∉ chain f) ∨
    (c.shared.1.free i = false ∧ ∃! p, ∃ f, c.shared.2.flight p = some f ∧ i ∈ chain f)
  /-- A chain has three descriptors. -/
  chains : ∀ p f, c.shared.2.flight p = some f → (chain f).Nodup
  /-- A buffer is handed back when the device has carried out its own request. -/
  handed : ∀ c', Step (disk P C B) c c' → ∀ b, (c.shared.1.buf b).disk = true →
    (c'.shared.1.buf b).disk = false →
    ∃ p f, c.shared.2.flight p = some f ∧ f.order.buf = b ∧ f.served = some f.order
  /-- The entries of the used ring are processed in turn, each once. -/
  once : c.shared.2.processed <+: c.shared.2.posted
  /-- The handler stops when it has processed all. -/
  caught : c.shared.1.lock = none →
    c.shared.1.used.head = m + BitVec.ofNat 16 c.shared.2.processed.length ∧
    c.shared.1.used.tail = m + BitVec.ofNat 16 c.shared.2.posted.length ∧
    (c.shared.1.used.head = c.shared.1.used.tail ↔ c.shared.2.processed = c.shared.2.posted)
  /-- The device takes the heads in the order in which they were sent. -/
  sent : c.shared.1.avail.head = n + BitVec.ofNat 16 c.shared.2.fetched ∧
    c.shared.1.avail.tail = n + BitVec.ofNat 16 c.shared.2.sent.length
  unfailing : ∀ t msg, ¬ Panics (disk P C B) t c.shared (c.thread t) msg

/-- **Virtio descriptor accounting**, in every run of any number of processes, interrupts and
steps of the device, from any value of the 16-bit indices. -/
theorem accounted (P C B : Type) [DecidableEq P] [DecidableEq C] [DecidableEq B] (n m : BitVec 16)
    {c : Pool (State P C B) (Ctx P C) (Act B) Res Unit}
    (hr : Reach (disk P C B) (init P C B n m) c) : Accounted n m c := by
  have hf := follows_reach (P := proto P C B n m) enters follows_init hr
  obtain ⟨γ, hi, hmay⟩ := follows_may hf
  change Ctx P C → Ghost B at γ
  change Inv c.shared n m γ at hi
  refine ⟨fun hq => shared_out hi fun t => ?_, fun p f hfl => ?_, fun c' hs b hd hd' => ?_, ?_,
    fun hlock => ?_, ⟨hi.rings.avail.head, hi.rings.avail.tail⟩, fun t msg hp => panics_ok hf hp⟩
  · by_cases hh : (γ t).holds = true
    · -- the holder of the lock is the one that is about to sleep
      have hlock := (hi.each t).lock.mp hh
      rcases hq with h | ⟨u, hu⟩
      · rw [hlock] at h
        cases h
      · obtain ⟨hown, hheld⟩ : (γ u).own = [] ∧ (γ u).holds = true := hmay u _ hu
        have hut : u = t := Option.some.inj (((hi.each u).lock.mp hheld).symm.trans hlock)
        exact .inl (hut ▸ hown)
    · exact (hi.each t).out (by simpa using hh)
  · obtain ⟨r, -, -, -, ho⟩ := trip_of_flight hi hfl
    rw [← ho]
    exact (hi.each (.proc p)).own
  · cases hs with
    | run t hn =>
      generalize hp : c.thread t = q at hn
      cases hn with
      | @act _ a k ch r ho =>
        obtain ⟨hsem, -⟩ := observe_ok.mp ho
        obtain rfl := disk_step hsem hd hd'
        obtain ⟨i, hi'⟩ : ∃ i, (γ t).look = .found i b := hmay t _ ⟨k, hp⟩
        exact served_of_found hi hi'
      | loop =>
        rw [hd] at hd'
        cases hd'
    | enter t he =>
      generalize c.thread t = q at he
      cases he <;>
      · rw [hd] at hd'
        cases hd'
  · rw [hi.rings.processed]
    exact List.take_prefix ..
  · have hlen : c.shared.2.processed.length = c.shared.2.seen := by
      rcases hi.rings.seen with h | ⟨-, t, ht⟩
      · exact h
      · have hlook := (hi.each t).look
        rw [ht] at hlook
        have hheld : c.shared.1.lock = some t := hlook.1
        rw [hlock] at hheld
        cases hheld
    refine ⟨by rw [hlen]; exact hi.rings.used.head, hi.rings.used.tail, ?_⟩
    rw [hi.rings.used.empty_iff two_pow.2, ← hlen]
    constructor
    · intro h
      rw [hi.rings.processed, ← h, List.take_length]
    · intro h
      rw [h]

/-- One process, one CPU and one buffer; the process writes the buffer's block, and both indices
are about to wrap. -/
def one : Pool (State (Fin 1) (Fin 1) (Fin 1)) (Ctx (Fin 1) (Fin 1)) (Act (Fin 1)) Res Unit :=
  init (Fin 1) (Fin 1) (Fin 1) 65535 65535

/-- All three at work. -/
def busy : Pool (State (Fin 1) (Fin 1) (Fin 1)) (Ctx (Fin 1) (Fin 1)) (Act (Fin 1)) Res Unit :=
  ⟨one.shared, Function.update (Function.update (Function.update one.thread
    (.proc 0) (session 0 5 [true])) (.intr 0) virtioDiskIntr) .device deviceLoop⟩

lemma reach_busy : Reach (disk (Fin 1) (Fin 1) (Fin 1)) one busy := by
  have h1 : Step (disk (Fin 1) (Fin 1) (Fin 1)) one
      ⟨one.shared, Function.update one.thread (.proc 0) (session 0 5 [true])⟩ :=
    Step.enter (Ctx.proc 0) (Enter.call (p := 0) 0 5 [true])
  exact .head h1 (.head (Step.enter (Ctx.intr 0) .interrupt)
    (.head (Step.enter Ctx.device .device) .refl))

/-- The request is in flight, the device has carried it out, and the handler has noted this. -/
theorem accounted_wraps : ∃ c, Reach (disk (Fin 1) (Fin 1) (Fin 1)) one c ∧
    c.shared.1.lock = none ∧ c.shared.2.processed = [0] ∧ c.shared.1.used.head = 0 ∧
    ∃! p, ∃ f, c.shared.2.flight p = some f ∧ 1 ∈ chain f := by
  obtain ⟨c, hr, hc⟩ := exists_of_schedule (disk (Fin 1) (Fin 1) (Fin 1))
    (fun c => (c.shared.1.lock, c.shared.2.processed, c.shared.1.free 1)) busy
    [(.proc 0, .plain, 19), (.device, .fetch, 2), (.device, .finish 0, 2), (.device, .post 0, 2),
      (.intr 0, .plain, 12)] (b := (none, [0], false)) (by decide +kernel)
  simp only [Prod.mk.injEq] at hc
  obtain ⟨hlock, hproc, hfree⟩ := hc
  have h := accounted (Fin 1) (Fin 1) (Fin 1) 65535 65535 (reach_busy.trans hr)
  refine ⟨c, reach_busy.trans hr, hlock, hproc, ?_, ?_⟩
  · rw [(h.caught hlock).1, hproc]
    decide
  · rcases h.shared (.inl hlock) 1 with ⟨hf, -⟩ | ⟨-, hu⟩
    · rw [hfree] at hf
      cases hf
    · exact hu

end Xv6.Disk.Account
