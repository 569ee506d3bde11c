import Xv6.Fs.Kernel

/-!
Inodes, directories and path names: the functions of `fs.c` as programs.
-/

namespace Xv6.Fs.Inode

open Xv6.Conc Xv6.Conc.Prog Xv6.Fs.Content Xv6.Fs.Path Xv6.Fs.Kernel

variable {NPROC : ℕ} {α : Type}

abbrev P (NPROC : ℕ) (α : Type) := Prog (Act NPROC) Res α

abbrev act (a : Act NPROC) : P NPROC (Res a) := perform a

def kpanic (msg : String) : P NPROC α := (perform (.panic msg)).bind Empty.elim

def whenever (c : Prop) [Decidable c] (x : P NPROC Unit) : P NPROC Unit := if c then x else return ()

def iget (dev inum : ℕ) : P NPROC (Fin NINODE) := do
  act (.acquire .itable)
  match ← act (.scan dev inum) with
  | (some ip, _) =>
    act (.incRef ip)
    act (.release .itable)
    return ip
  | (none, some ip) =>
    act (.claim ip dev inum)
    act (.release .itable)
    return ip
  | (none, none) => kpanic "iget: no inodes"

def idup (ip : Fin NINODE) : P NPROC (Fin NINODE) := do
  act (.acquire .itable)
  act (.incRef ip)
  act (.release .itable)
  return ip

def ilock (ip : Fin NINODE) : P NPROC Unit := do
  let v ← act (.inode ip)
  if v.ref < 1 then
    kpanic "ilock"
  else
    act (.acquiresleep ip)
    let v ← act (.inode ip)
    whenever (v.valid = false) do
      act (.load ip)
      act (.set ip (.valid true))
      let v ← act (.inode ip)
      whenever (v.copy.type = 0) (kpanic "ilock: no type")

def iunlock (ip : Fin NINODE) : P NPROC Unit := do
  let held ← act (.holdingsleep ip)
  let v ← act (.inode ip)
  if held = false ∨ v.ref < 1 then
    kpanic "iunlock"
  else
    act (.releasesleep ip)

/-- What `iput` does for the last reference to an inode without links. -/
def truncateAndFree (ip : Fin NINODE) : P NPROC Unit := do
  act (.acquiresleep ip)
  act (.release .itable)
  act (.itrunc ip)
  act (.set ip (.type 0))
  act (.iupdate ip)
  act (.set ip (.valid false))
  act (.releasesleep ip)
  act (.acquire .itable)

def iput (ip : Fin NINODE) : P NPROC Unit := do
  act (.acquire .itable)
  let v ← act (.inode ip)
  whenever (v.ref = 1 ∧ v.valid = true ∧ v.copy.nlink = 0) (truncateAndFree ip)
  act (.decRef ip)
  act (.release .itable)

def iunlockput (ip : Fin NINODE) : P NPROC Unit := do
  iunlock ip
  iput ip

def ialloc (dev : ℕ) (type : Int16) : P NPROC (Option (Fin NINODE)) := do
  let ninodes ← act .ninodes
  iterate 1 fun inum => do
    if inum < ninodes then
      if ← act (.ialloc inum type) then
        let ip ← iget dev inum
        return .inr (some ip)
      else
        return .inl (inum + 1)
    else
      return .inr none

/-- A round of `ireclaim`. -/
def reclaim (dev inum : ℕ) : P NPROC Unit := do
  let dip ← act (.dinode inum)
  whenever (dip.type ≠ 0 ∧ dip.nlink = 0) do
    let ip ← iget dev inum
    act .beginOp
    ilock ip
    iunlock ip
    iput ip
    act .endOp

/-- Frees the inodes that a crash has left without links. -/
def ireclaim (dev : ℕ) : P NPROC Unit :=
  iterate 1 fun inum => do
    let ninodes ← act .ninodes
    if inum < ninodes then
      reclaim dev inum
      return .inl (inum + 1)
    else
      return .inr ()

/-! ### Directories -/

/-- The entry of a directory with the name, and its offset. -/
def dirlookup (dp : Fin NINODE) (name : Name) : P NPROC (Option (Fin NINODE × ℕ)) := do
  let d ← act (.inode dp)
  if d.copy.type ≠ T_DIR then
    kpanic "dirlookup not DIR"
  else
    iterate 0 fun off => do
      let d ← act (.inode dp)
      if off < d.copy.size then
        let r ← act (.readi dp none off DIRENT)
        if r.1 ≠ DIRENT then
          kpanic "dirlookup read"
        else
          let de := decode r.2
          if de.inum ≠ 0 ∧ namecmp name de.name = 0 then
            let ip ← iget d.dev de.inum
            return .inr (some (ip, off))
          else
            return .inl (off + DIRENT)
      else
        return .inr none

/-- The offset of the first empty entry, or the size. -/
def emptyEntry (dp : Fin NINODE) : P NPROC ℕ :=
  iterate 0 fun off => do
    let d ← act (.inode dp)
    if off < d.copy.size then
      let r ← act (.readi dp none off DIRENT)
      if r.1 ≠ DIRENT then
        kpanic "dirlink read"
      else if (decode r.2).inum = 0 then
        return .inr off
      else
        return .inl (off + DIRENT)
    else
      return .inr off

/-- Whether the entry could be written. -/
def dirlink (dp : Fin NINODE) (name : Name) (inum : ℕ) : P NPROC Bool := do
  match ← dirlookup dp name with
  | some (ip, _) =>
    iput ip
    return false
  | none =>
    let off ← emptyEntry dp
    let r ← act (.writei dp (.kernel (encode ⟨inum, name⟩)) off DIRENT)
    return r = DIRENT

/-! ### Paths -/

/-- The start of a path. -/
def nameStart (path : Path) : P NPROC (Option (Fin NINODE)) := do
  if path.head? = some slash then
    let ip ← iget ROOTDEV ROOTINO
    return some ip
  else
    match ← act .cwd with
    | some ip =>
      let ip ← idup ip
      return some ip
    | none => return none

/-- One element of the path. The loop hands on an inode, the rest of the path and the name
read last. -/
def nameStep (parent : Bool) (ip : Fin NINODE) (path : Path) (name : Name) :
    P NPROC ((Fin NINODE × Path × Name) ⊕ Option (Fin NINODE × Name)) := do
  match skipelem path with
  | some (name, path) =>
    ilock ip
    let v ← act (.inode ip)
    if v.copy.type ≠ T_DIR then
      iunlockput ip
      return .inr none
    else if parent ∧ path = [] then
      iunlock ip
      return .inr (some (ip, name))
    else
      match ← dirlookup ip name with
      | none =>
        iunlockput ip
        return .inr none
      | some (next, _) =>
        iunlockput ip
        return .inl (next, path, name)
  | none =>
    if parent then
      iput ip
      return .inr none
    else
      return .inr (some (ip, name))

/-- The inode of a path, or of its parent and the last element. -/
def namex (path : Path) (parent : Bool) : P NPROC (Option (Fin NINODE × Name)) := do
  match ← nameStart path with
  | some ip => iterate (ip, path, []) fun x => nameStep parent x.1 x.2.1 x.2.2
  | none => kpanic "idup"

def namei (path : Path) : P NPROC (Option (Fin NINODE)) := do
  let r ← namex path false
  return r.map Prod.fst

def nameiparent (path : Path) : P NPROC (Option (Fin NINODE × Name)) := namex path true

end Xv6.Fs.Inode
