import Xv6.Conc.Prog
import Xv6.Data.Ring
import Xv6.Disk.Block

/-!
The disk driver (`virtio_disk.c`) and the device: calls of `virtio_disk_rw` by any number of
processes, the interrupt handler on any number of CPUs, and a device that takes requests from
the available ring, carries them out in any order and puts them into the used ring.

`disk.vdisk_lock` is a lock of the model. What the device does with memory, the rings, the
descriptors and the status bytes, may happen between any two actions of the driver. A sleep
ends with a `wakeup` or, when the environment so chooses, with a kill. `QUEUE_NOTIFY` and
`INTERRUPT_ACK` are left out: the device may look at the available ring, and the handler at the
used ring, at any time.
-/

namespace Xv6.Disk.Virtio

open Xv6.Conc Xv6.Conc.Prog Xv6.Data.Ring

abbrev NUM : ℕ := 8

instance : NeZero NUM := ⟨by decide⟩

def VRING_DESC_F_NEXT : BitVec 16 := 1

def VRING_DESC_F_WRITE : BitVec 16 := 2

def VIRTIO_BLK_T_IN : UInt32 := 0

def VIRTIO_BLK_T_OUT : UInt32 := 1

/-- What the address in a descriptor points to, for buffers `B`. -/
inductive Addr (B : Type)
  | null
  | ops (i : Fin NUM)
  | data (b : B)
  | status (i : Fin NUM)
  deriving DecidableEq

structure Desc (B : Type) where
  addr : Addr B
  len : UInt32
  flags : BitVec 16
  next : BitVec 16

def Desc.zero {B : Type} : Desc B := ⟨.null, 0, 0, 0⟩

/-- `struct virtio_blk_req`; `reserved` is always zero. -/
structure BlkReq where
  type : UInt32
  sector : UInt64
  deriving DecidableEq

/-- `disk.info[i]`. -/
structure Info (B : Type) where
  b : Option B
  status : UInt8

/-- The fields of `struct buf` that the driver uses, and the holder of its sleeplock. -/
structure Buf (P : Type) where
  disk : Bool
  blockno : BlockNo
  lock : Option P

/-- The channels `&disk.free[0]` and `b`. -/
inductive Chan (B : Type)
  | free
  | buf (b : B)
  deriving DecidableEq

/-- A process in the kernel, the interrupt handler on a CPU, and the device. -/
inductive Ctx (P C : Type)
  | proc (p : P)
  | intr (c : C)
  | device
  deriving DecidableEq

/-- The `idx` of `virtio_disk_rw`. -/
structure Idx where
  i0 : Fin NUM
  i1 : Fin NUM
  i2 : Fin NUM
  deriving DecidableEq

structure St (P C B : Type) where
  /-- The holder of `disk.vdisk_lock`. -/
  lock : Option (Ctx P C)
  desc : Fin NUM → Desc B
  /-- `disk.avail`: its tail is `idx`, and its head is how far the device has come. -/
  avail : Ring 16 NUM (Fin NUM)
  /-- The `id`s in `disk.used`: its tail is `idx`, and its head is `disk.used_idx`. -/
  used : Ring 16 NUM (Fin NUM)
  free : Fin NUM → Bool
  info : Fin NUM → Info B
  ops : Fin NUM → BlkReq
  buf : B → Buf P
  asleep : P → Option (Chan B)
  /-- The device: the heads of the chains that it has taken. -/
  taken : List (Fin NUM)
  /-- The device: those of them that are done and not yet in the used ring. -/
  done : List (Fin NUM)

/-- What a chain of descriptors asks of the device. -/
structure Order (B : Type) where
  buf : B
  write : Bool
  sector : UInt64
  deriving DecidableEq

/-- What the device did. -/
inductive Event (B : Type)
  | fetch (head : Fin NUM)
  | finish (head : Fin NUM) (order : Order B)
  | post (head : Fin NUM)

inductive Act (B : Type)
  | acquire
  | release
  /-- `sleep` up to where the process is asleep and `disk.vdisk_lock` is free. -/
  | sleep (c : Chan B)
  /-- Returning from it, up to where it acquires the lock again. -/
  | awake
  | acquiresleep (b : B)
  | releasesleep (b : B)
  /-- `b->blockno = n`, by the process that has locked the buffer. -/
  | setBlockno (b : B) (n : BlockNo)
  /-- Reading `b->blockno`. -/
  | blockno (b : B)
  | allocDesc
  | freeDesc (i : ℕ)
  /-- Reading `disk.desc[i].flags` and `disk.desc[i].next`. -/
  | link (i : ℕ)
  /-- Filling in the descriptors and what they point to, `b->disk` and `disk.info`. -/
  | format (idx : Idx) (b : B) (write : Bool) (sector : UInt64)
  /-- `disk.avail->ring[disk.avail->idx % NUM] = i`. -/
  | putAvail (i : Fin NUM)
  /-- `disk.avail->idx += 1`. -/
  | bumpAvail
  /-- Reading `b->disk`. -/
  | onDisk (b : B)
  /-- `disk.info[i].b = 0`. -/
  | clearInfo (i : Fin NUM)
  /-- The test `disk.used_idx != disk.used->idx`. -/
  | pending
  /-- Reading `disk.used->ring[disk.used_idx % NUM].id`. -/
  | usedId
  /-- Reading `disk.info[id].status`. -/
  | status (id : Fin NUM)
  /-- Reading `disk.info[id].b`. -/
  | infoBuf (id : Fin NUM)
  /-- `b->disk = 0`. -/
  | clearDisk (b : B)
  | wakeup (c : Chan B)
  /-- `disk.used_idx += 1`. -/
  | bumpUsed
  | panic (msg : String)
  /-- A step of the device. -/
  | device

@[reducible] def Res {B : Type} : Act B → Type
  | .blockno _ => BlockNo
  | .allocDesc => Option (Fin NUM)
  | .link _ => BitVec 16 × BitVec 16
  | .onDisk _ | .pending => Bool
  | .usedId => Fin NUM
  | .status _ => UInt8
  | .infoBuf _ => B
  | .panic _ => Empty
  | .device => Event B
  | _ => Unit

/-- The environment's choice: that a kill wakes a process, or what the device does. -/
inductive Choice
  | plain
  | kill
  | fetch
  | finish (k : ℕ)
  | post (k : ℕ)
  deriving DecidableEq

section Semantics

variable {P C B : Type} [DecidableEq P] [DecidableEq C] [DecidableEq B]

def wake (c : Chan B) (s : St P C B) : St P C B :=
  { s with asleep := fun p => if s.asleep p = some c then none else s.asleep p }

def setBuf (b : B) (v : Buf P) (s : St P C B) : St P C B :=
  { s with buf := Function.update s.buf b v }

def setDisk (b : B) (v : Bool) (s : St P C B) : St P C B := setBuf b { s.buf b with disk := v } s

/-- The first descriptor that is free. -/
def firstFree (s : St P C B) : Option (Fin NUM) := (List.finRange NUM).find? fun i => s.free i

/-- The page of `disk.desc` is zero after the `NUM` descriptors. -/
def descAt (s : St P C B) (i : ℕ) : Desc B := if h : i < NUM then s.desc ⟨i, h⟩ else Desc.zero

def clearDesc (i : Fin NUM) (s : St P C B) : St P C B :=
  wake .free { s with
    desc := Function.update s.desc i Desc.zero
    free := Function.update s.free i true }

def format (idx : Idx) (b : B) (write : Bool) (sector : UInt64) (s : St P C B) : St P C B :=
  let ops := Function.update s.ops idx.i0
    ⟨if write then VIRTIO_BLK_T_OUT else VIRTIO_BLK_T_IN, sector⟩
  let desc := Function.update s.desc idx.i0
    ⟨.ops idx.i0, 16, VRING_DESC_F_NEXT, BitVec.ofNat 16 idx.i1⟩
  let desc := Function.update desc idx.i1
    ⟨.data b, UInt32.ofNat BSIZE, (if write then 0 else VRING_DESC_F_WRITE) ||| VRING_DESC_F_NEXT,
      BitVec.ofNat 16 idx.i2⟩
  let desc := Function.update desc idx.i2 ⟨.status idx.i0, 1, VRING_DESC_F_WRITE, 0⟩
  setDisk b true { s with ops, desc, info := Function.update s.info idx.i0 ⟨some b, 0xff⟩ }

/-- The device follows a chain of three descriptors: the order, and where the status goes. -/
def follow (s : St P C B) (head : Fin NUM) : Option (Order B × Fin NUM) :=
  let d0 := s.desc head
  let d1 := descAt s d0.next.toNat
  let d2 := descAt s d1.next.toNat
  if d0.flags &&& VRING_DESC_F_NEXT = 0 ∨ d1.flags &&& VRING_DESC_F_NEXT = 0 ∨
      d2.flags &&& VRING_DESC_F_NEXT ≠ 0 ∨ d2.flags &&& VRING_DESC_F_WRITE = 0 ∨
      d1.len ≠ UInt32.ofNat BSIZE then none
  else match d0.addr, d1.addr, d2.addr with
    | .ops i, .data b, .status j =>
      if (s.ops i).type = VIRTIO_BLK_T_OUT ∧ d1.flags &&& VRING_DESC_F_WRITE = 0 then
        some (⟨b, true, (s.ops i).sector⟩, j)
      else if (s.ops i).type = VIRTIO_BLK_T_IN ∧ d1.flags &&& VRING_DESC_F_WRITE ≠ 0 then
        some (⟨b, false, (s.ops i).sector⟩, j)
      else none
    | _, _, _ => none

/-- The device takes the next request, carries one out, or reports one that is done. It breaks
down over a chain that it does not understand. -/
def deviceStep (s : St P C B) : Choice → Option (Outcome (St P C B) (Event B))
  | .fetch =>
    if s.avail.head = s.avail.tail then none
    else some (.ok { s with avail := pop s.avail, taken := s.taken ++ [front s.avail] }
      (.fetch (front s.avail)))
  | .finish k => match s.taken[k]? with
    | some head => match follow s head with
      | some (order, i) => some (.ok { s with
          info := Function.update s.info i { s.info i with status := 0 }
          taken := s.taken.eraseIdx k
          done := s.done ++ [head] } (.finish head order))
      | none => some (.panic "device needs reset")
    | none => none
  | .post k => match s.done[k]? with
    | some head => some (.ok { s with used := push head s.used, done := s.done.eraseIdx k }
        (.post head))
    | none => none
  | _ => none

/-- What a thread makes of an action. A null pointer ends in a `kerneltrap`, and so does a
`sleep` outside of a process. -/
def sem : Ctx P C → (a : Act B) → Choice → St P C B → Option (Outcome (St P C B) (Res a))
  | t, .acquire, _, s => if s.lock = none then some (.ok { s with lock := some t } ()) else none
  | t, .release, _, s =>
    if s.lock = some t then some (.ok { s with lock := none } ()) else some (.panic "release")
  | .proc p, .sleep c, _, s =>
    if s.lock = some (.proc p) then
      some (.ok { s with lock := none, asleep := Function.update s.asleep p (some c) } ())
    else some (.panic "release")
  | _, .sleep _, _, _ => some (.panic "kerneltrap")
  | .proc p, .awake, c, s =>
    if s.asleep p ≠ none ∧ c ≠ .kill then none
    else some (.ok { s with asleep := Function.update s.asleep p none } ())
  | _, .awake, _, s => some (.ok s ())
  | .proc p, .acquiresleep b, _, s =>
    if (s.buf b).lock = none then some (.ok (setBuf b { s.buf b with lock := some p } s) ())
    else none
  | _, .acquiresleep _, _, _ => some (.panic "kerneltrap")
  | _, .releasesleep b, _, s => some (.ok (setBuf b { s.buf b with lock := none } s) ())
  | _, .setBlockno b n, _, s => some (.ok (setBuf b { s.buf b with blockno := n } s) ())
  | _, .blockno b, _, s => some (.ok s (s.buf b).blockno)
  | _, .allocDesc, _, s => match firstFree s with
    | some i => some (.ok { s with free := Function.update s.free i false } (some i))
    | none => some (.ok s none)
  | _, .freeDesc i, _, s =>
    if h : i < NUM then
      if s.free ⟨i, h⟩ then some (.panic "free_desc 2")
      else some (.ok (clearDesc ⟨i, h⟩ s) ())
    else some (.panic "free_desc 1")
  | _, .link i, _, s => some (.ok s ((descAt s i).flags, (descAt s i).next))
  | _, .format idx b write sector, _, s => some (.ok (format idx b write sector s) ())
  | _, .putAvail i, _, s =>
    some (.ok { s with avail := { s.avail with
      data := Function.update s.avail.data (index s.avail.tail) i } } ())
  | _, .bumpAvail, _, s =>
    some (.ok { s with avail := { s.avail with tail := s.avail.tail + 1 } } ())
  | _, .onDisk b, _, s => some (.ok s (s.buf b).disk)
  | _, .clearInfo i, _, s =>
    some (.ok { s with info := Function.update s.info i { s.info i with b := none } } ())
  | _, .pending, _, s => some (.ok s (decide (s.used.head ≠ s.used.tail)))
  | _, .usedId, _, s => some (.ok s (front s.used))
  | _, .status id, _, s => some (.ok s (s.info id).status)
  | _, .infoBuf id, _, s => match (s.info id).b with
    | some b => some (.ok s b)
    | none => some (.panic "kerneltrap")
  | _, .clearDisk b, _, s => some (.ok (setDisk b false s) ())
  | _, .wakeup c, _, s => some (.ok (wake c s) ())
  | _, .bumpUsed, _, s => some (.ok { s with used := pop s.used } ())
  | _, .panic msg, _, _ => some (.panic msg)
  | _, .device, c, s => deviceStep s c

end Semantics

/-! ### The functions of `virtio_disk.c` -/

variable {B : Type}

abbrev VP (B : Type) := Prog (Act B) (Res (B := B))

abbrev act (a : Act B) : VP B (Res a) := perform a

def sleep (c : Chan B) : VP B Unit := do
  act (.sleep c)
  act .awake
  act .acquire

/-- The loop of `free_chain`. -/
def freeChain (i : ℕ) : VP B Unit :=
  iterate i fun i => do
    let d ← act (.link i)
    act (.freeDesc i)
    if d.1 &&& VRING_DESC_F_NEXT ≠ 0 then return .inl d.2.toNat else return .inr ()

/-- Giving back the descriptors that `alloc3_desc` has taken. -/
def freeAll (idx : List (Fin NUM)) : VP B Unit :=
  iterate idx fun
    | [] => return .inr ()
    | i :: is => do
      act (.freeDesc i)
      return .inl is

/-- One round of the loop of `alloc3_desc`, with what is in `idx` so far. -/
def allocNext (idx : List (Fin NUM)) : VP B (List (Fin NUM) ⊕ Option Idx) := do
  let o ← act .allocDesc
  match o with
  | some i => return .inl (idx ++ [i])
  | none =>
    freeAll idx
    return .inr none

def alloc3Desc : VP B (Option Idx) :=
  iterate ([] : List (Fin NUM)) fun
    | [i0, i1, i2] => return .inr (some ⟨i0, i1, i2⟩)
    | idx => allocNext idx

def virtioDiskRw (b : B) (write : Bool) : VP B Unit := do
  let blockno ← act (.blockno b)
  let sector : UInt64 := (blockno * UInt32.ofNat (BSIZE / 512)).toUInt64
  act .acquire
  let idx ← iterate () fun _ => do
    let o ← alloc3Desc
    match o with
    | some idx => return .inr idx
    | none =>
      sleep .free
      return .inl ()
  act (.format idx b write sector)
  act (.putAvail idx.i0)
  act .bumpAvail
  iterate () fun _ => do
    let onDisk ← act (.onDisk b)
    if onDisk then
      sleep (.buf b)
      return .inl ()
    else return .inr ()
  act (.clearInfo idx.i0)
  freeChain idx.i0
  act .release

def virtioDiskIntr : VP B Unit := do
  act .acquire
  iterate () fun _ => do
    let pending ← act .pending
    if pending then
      let id ← act .usedId
      let status ← act (.status id)
      if status ≠ 0 then
        let r ← act (.panic "virtio_disk_intr status")
        return r.elim
      else
        let b ← act (.infoBuf id)
        act (.clearDisk b)
        act (.wakeup (.buf b))
        act .bumpUsed
        return .inl ()
    else return .inr ()
  act .release

/-! ### The system -/

/-- A process locks a buffer (`bread`, `bwrite`), which has been given a block by then, and reads
or writes it any number of times. -/
def session (b : B) (n : BlockNo) (ops : List Bool) : VP B Unit := do
  act (.acquiresleep b)
  act (.setBlockno b n)
  iterate ops fun
    | [] => return .inr ()
    | write :: ops => do
      virtioDiskRw b write
      return .inl ops
  act (.releasesleep b)

def deviceLoop : VP B Unit :=
  iterate () fun _ => do
    let _ ← act .device
    return .inl ()

/-- A call of `virtio_disk_rw` that has filled in its descriptors: its order, and the one that
the device has carried out for it. -/
structure Flight (B : Type) where
  idx : Idx
  order : Order B
  served : Option (Order B)

structure History (P B : Type) where
  flight : P → Option (Flight B)
  /-- The heads that have been put into the available ring. -/
  sent : List (Fin NUM)
  /-- How many of them the device has taken. -/
  fetched : ℕ
  /-- The `id`s that the device has put into the used ring. -/
  posted : List (Fin NUM)
  /-- Those for which the handler has cleared `b->disk`. -/
  processed : List (Fin NUM)
  /-- How often `disk.used_idx` has been incremented. -/
  seen : ℕ

section System

variable {P C : Type} [DecidableEq P] [DecidableEq C] [DecidableEq B]

/-- The device has carried out an order that it found at `head`. -/
def serve (head : Fin NUM) (order : Order B) (f : Flight B) : Flight B :=
  if f.idx.i0 = head then { f with served := some order } else f

def watch : Ctx P C → (a : Act B) → Res a → St P C B → History P B → History P B
  | .proc p, .format idx b write sector, _, _, h =>
    { h with flight := Function.update h.flight p (some ⟨idx, ⟨b, write, sector⟩, none⟩) }
  | _, .bumpAvail, _, s, h => { h with sent := h.sent ++ [s.avail.data (index s.avail.tail)] }
  | .proc p, .clearInfo _, _, _, h => { h with flight := Function.update h.flight p none }
  | _, .clearDisk _, _, s, h => { h with processed := h.processed ++ [front s.used] }
  | _, .bumpUsed, _, _, h => { h with seen := h.seen + 1 }
  | _, .device, .fetch _, _, h => { h with fetched := h.fetched + 1 }
  | _, .device, .finish head order, _, h =>
    { h with flight := fun p => (h.flight p).map (serve head order) }
  | _, .device, .post head, _, h => { h with posted := h.posted ++ [head] }
  | _, _, _, _, h => h

abbrev State (P C B : Type) := St P C B × History P B

inductive Enter : Ctx P C → State P C B → VP B Unit → State P C B → VP B Unit → Prop
  | call {p : P} {s : State P C B} (b : B) (n : BlockNo) (ops : List Bool) :
      Enter (.proc p) s (.ret ()) s (session b n ops)
  | interrupt {c : C} {s : State P C B} : Enter (.intr c) s (.ret ()) s virtioDiskIntr
  | device {s : State P C B} : Enter .device s (.ret ()) s deviceLoop

def disk (P C B : Type) [DecidableEq P] [DecidableEq C] [DecidableEq B] :
    Sys (State P C B) (Ctx P C) Choice (Act B) Res Unit where
  sem := ((⟨sem, fun _ _ _ _ _ => False⟩ : Sys (St P C B) (Ctx P C) Choice (Act B) Res Unit).observe
    watch).sem
  enter := Enter

/-- After `virtio_disk_init`, with the counters at any value. -/
def init (P C B : Type) (n m : BitVec 16) : Pool (State P C B) (Ctx P C) (Act B) Res Unit where
  shared :=
    ({ lock := none
       desc := fun _ => Desc.zero
       avail := ⟨fun _ => 0, n, n⟩
       used := ⟨fun _ => 0, m, m⟩
       free := fun _ => true
       info := fun _ => ⟨none, 0⟩
       ops := fun _ => ⟨0, 0⟩
       buf := fun _ => ⟨false, 0, none⟩
       asleep := fun _ => none
       taken := []
       done := [] }, ⟨fun _ => none, [], 0, [], [], 0⟩)
  thread := fun _ => .ret ()

end System

end Xv6.Disk.Virtio
