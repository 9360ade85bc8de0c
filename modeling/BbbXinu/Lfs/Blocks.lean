import BbbXinu.Kernel.State
import BbbXinu.Lib.Layouts
import BbbXinu.Lib.Programs

/-!
# The local file system: disk, control blocks and blocks

The structures of the local file system under the names of its header, and how
those that stand on the disk lie in a sector of 512 bytes.  Block identifiers
are the 32-bit patterns of the code, with {lit}`-1` as the null pointer.

The disk device transfers one sector at a time and reports no failure.  Each
transfer and each wait for a semaphore is a scheduling point.
-/

namespace BbbXinu

open Layouts

/-!
## Constants
-/

def EOF : Int := -2
def Nlfl : Nat := 6
def LF_MODE_R : UInt32 := 0x01
def LF_MODE_W : UInt32 := 0x02
def LF_MODE_RW : UInt32 := 0x03
def LF_MODE_N : UInt32 := 0x04
def LF_MODE_O : UInt32 := 0x08
def LF_BLKSIZ : Nat := 512
def LF_NAME_LEN : Nat := 16
def LF_NUM_DIR_ENT : Nat := 20
def LF_INULL : UInt32 := 0xFFFFFFFF
def LF_DNULL : UInt32 := 0xFFFFFFFF
def LF_IBLEN : Nat := 16
def LF_IDATA : UInt32 := 8192
def LF_IMASK : UInt32 := 0x00001fff
def LF_DMASK : UInt32 := 0x000001ff
def LF_AREA_IB : Nat := 1
def LF_AREA_DIR : Nat := 0
def LF_CTL_TRUNC : Int := 2

instance : NeZero Nlfl := ⟨by decide⟩

instance : NeZero LF_NUM_DIR_ENT := ⟨by decide⟩

/-!
## Structures on the disk
-/

/-- The contents of a disk sector. -/
abbrev Sector : Type := Fin LF_BLKSIZ → UInt8

/-- {lit}`struct lfiblk`: an index block. -/
structure Lfiblk where
  ibNext : UInt32
  ibOffset : UInt32
  ibDba : Fin LF_IBLEN → UInt32

/-- {lit}`struct ldentry`: the directory entry of one file. -/
structure Ldentry where
  ldSize : UInt32
  ldIlist : UInt32
  ldName : Fin LF_NAME_LEN → UInt8

/-- {lit}`struct lfdbfree`: a data block on the free list. -/
structure Lfdbfree where
  lfNextdb : UInt32
  lfUnused : Fin 508 → UInt8

/-- {lit}`struct lfdir`: the directory. -/
structure Lfdir where
  lfdDfree : UInt32
  lfdIfree : UInt32
  lfdNfiles : UInt32
  lfdFiles : Fin LF_NUM_DIR_ENT → Ldentry
  padding : Fin 20 → UInt8

def Lfiblk.layout : Layout Lfiblk 72 :=
  Equiv.trans
    { toFun := fun b => ((b.ibNext, b.ibOffset), b.ibDba)
      invFun := fun t => { ibNext := t.1.1, ibOffset := t.1.2, ibDba := t.2 }
      left_inv := fun _ => rfl
      right_inv := fun _ => rfl }
    (pair (pair word word) (array word LF_IBLEN))

def Ldentry.layout : Layout Ldentry 24 :=
  Equiv.trans
    { toFun := fun e => ((e.ldSize, e.ldIlist), e.ldName)
      invFun := fun t => { ldSize := t.1.1, ldIlist := t.1.2, ldName := t.2 }
      left_inv := fun _ => rfl
      right_inv := fun _ => rfl }
    (pair (pair word word) (bytes LF_NAME_LEN))

def Lfdbfree.layout : Layout Lfdbfree LF_BLKSIZ :=
  Equiv.trans
    { toFun := fun b => (b.lfNextdb, b.lfUnused)
      invFun := fun t => { lfNextdb := t.1, lfUnused := t.2 }
      left_inv := fun _ => rfl
      right_inv := fun _ => rfl }
    (pair word (bytes 508))

def Lfdir.layout : Layout Lfdir LF_BLKSIZ :=
  Equiv.trans
    { toFun := fun d => ((((d.lfdDfree, d.lfdIfree), d.lfdNfiles), d.lfdFiles), d.padding)
      invFun := fun t =>
        { lfdDfree := t.1.1.1.1, lfdIfree := t.1.1.1.2, lfdNfiles := t.1.1.2,
          lfdFiles := t.1.2, padding := t.2 }
      left_inv := fun _ => rfl
      right_inv := fun _ => rfl }
    (pair (pair (pair (pair word word) word) (array Ldentry.layout LF_NUM_DIR_ENT)) (bytes 20))

/-- The directory entry after {lit}`memset` to zero. -/
def Ldentry.zero : Ldentry := { ldSize := 0, ldIlist := 0, ldName := fun _ => 0 }

/-- The directory after {lit}`memset` to zero. -/
def Lfdir.zero : Lfdir :=
  { lfdDfree := 0, lfdIfree := 0, lfdNfiles := 0, lfdFiles := fun _ => Ldentry.zero,
    padding := fun _ => 0 }

/-!
## Control blocks
-/

/-- {lit}`struct lflcblk`: the control block of a file pseudo-device.  The directory entry
is given by its index, the byte pointer by its distance from the start of the data block,
and the semaphore by its count.  {lit}`lfdirptr` has no meaning while the block is free. -/
structure Lflcblk where
  lfstate : EntryState
  lfdev : Int
  lfmutex : Nat
  lfdirptr : Fin LF_NUM_DIR_ENT
  lfmode : UInt32
  lfpos : UInt32
  lfname : Fin LF_NAME_LEN → UInt8
  lfinum : UInt32
  lfiblock : Lfiblk
  lfdnum : UInt32
  lfdblock : Sector
  lfbyte : Nat
  lfibdirty : Bool
  lfdbdirty : Bool

/-- The disk, the master device's data and the control blocks.  {lit}`stack` is what the
buffers hold that the code declares and does not fill, in the order of their use. -/
structure Lfs where
  disk : Nat → Sector
  lfMutex : Nat
  lfDir : Lfdir
  lfDirpresent : Bool
  lfDirdirty : Bool
  lfltab : Fin Nlfl → Lflcblk
  stack : Nat → Fin 508 → UInt8

namespace Lfs

variable (s : Lfs)

def setDir (u : Lfdir → Lfdir) : Lfs := { s with lfDir := u s.lfDir }

def setDirdirty (b : Bool) : Lfs := { s with lfDirdirty := b }

def setEntry (e : Fin LF_NUM_DIR_ENT) (u : Ldentry → Ldentry) : Lfs :=
  s.setDir fun d => { d with lfdFiles := upd d.lfdFiles e (u (d.lfdFiles e)) }

def setBlk (d : Fin Nlfl) (u : Lflcblk → Lflcblk) : Lfs :=
  { s with lfltab := upd s.lfltab d (u (s.lfltab d)) }

def setDisk (blk : Nat) (b : Sector) : Lfs := { s with disk := upd s.disk blk b }

/-- The directory entry of the file that is open on a device. -/
def entryOf (d : Fin Nlfl) : Ldentry := s.lfDir.lfdFiles (s.lfltab d).lfdirptr

end Lfs

/-!
## The disk device and the semaphores
-/

namespace Lfs

open Prog

/-- {lit}`read` into a buffer of the caller. -/
def readDisk (blk : Nat) : Prog Lfs Sector := do
  let s ← await (fun _ => true) id
  return s.disk blk

/-- {lit}`read` into a buffer in shared memory. -/
def readInto (blk : Nat) (into : Sector → Lfs → Lfs) : Prog Lfs Unit := do
  let _ ← await (fun _ => true) fun s => into (s.disk blk) s
  return ()

/-- {lit}`write` from a buffer, whose contents are read when the sector is transferred. -/
def writeDisk (blk : Nat) (buff : Lfs → Sector) : Prog Lfs Unit := do
  let _ ← await (fun _ => true) fun s => s.setDisk blk (buff s)
  return ()

def writeDir : Prog Lfs Unit := writeDisk LF_AREA_DIR fun s => Lfdir.layout s.lfDir

/-- {lit}`wait` for the mutex of the directory. -/
def waitMutex : Prog Lfs Unit := do
  let _ ← await (fun s => decide (0 < s.lfMutex)) fun s => { s with lfMutex := s.lfMutex - 1 }
  return ()

def signalMutex : Prog Lfs Unit := modify fun s => { s with lfMutex := s.lfMutex + 1 }

/-- {lit}`wait` for the mutex of a file. -/
def waitFile (d : Fin Nlfl) : Prog Lfs Unit := do
  let _ ← await (fun s => decide (0 < (s.lfltab d).lfmutex)) fun s =>
    s.setBlk d fun b => { b with lfmutex := b.lfmutex - 1 }
  return ()

def signalFile (d : Fin Nlfl) : Prog Lfs Unit :=
  modify fun s => s.setBlk d fun b => { b with lfmutex := b.lfmutex + 1 }

/-!
## Blocks

Reading and writing index blocks, the two free lists, the flush of a control
block, and {lit}`lfsetup`, which brings the index block and the data block of the
current position into memory.
-/

/-- Rounds after which a loop over a list of blocks is taken not to end. -/
def chainFuel : Nat := 4294967296

/-!
## Index blocks
-/

def ib2sect (ib : UInt32) : Nat := ib.toNat / 7 + LF_AREA_IB

def ib2disp (ib : UInt32) : Nat := ib.toNat % 7 * 72

theorem ib2disp_le (ib : UInt32) : ib2disp ib + 72 ≤ LF_BLKSIZ := by
  unfold ib2disp LF_BLKSIZ
  omega

def lfibget (inum : UInt32) : Prog Lfs Lfiblk := do
  let dbuff ← readDisk (ib2sect inum)
  return Lfiblk.layout.symm (piece dbuff (ib2disp inum) 72 (ib2disp_le inum))

/-- {lit}`lfibput` from a buffer that is copied after the sector has been read. -/
def lfibput (inum : UInt32) (ibuff : Lfs → Lfiblk) : Prog Lfs Unit := do
  let dbuff ← readDisk (ib2sect inum)
  let s ← get
  writeDisk (ib2sect inum) fun _ => patch dbuff (ib2disp inum) (Lfiblk.layout (ibuff s))

/-- {lit}`lfibclear`: the index block for a file offset, without data blocks. -/
def lfibclear (offset : UInt32) : Lfiblk :=
  { ibNext := LF_INULL, ibOffset := offset, ibDba := fun _ => LF_DNULL }

/-!
## Free lists
-/

/-- Allocate an index block from the free list. -/
def lfiballoc : Prog Lfs UInt32 := do
  let s ← get
  let ibnum := s.lfDir.lfdIfree
  if ibnum = LF_INULL then halt
  else do
    let iblock ← lfibget ibnum
    modify fun s => s.setDir fun dir => { dir with lfdIfree := iblock.ibNext }
    writeDir
    modify fun s => s.setDirdirty false
    return ibnum

def DFILL : UInt8 := 43

/-- Allocate a data block from the free list, with the data block of a control block as
the buffer. -/
def lfdballoc (d : Fin Nlfl) : Prog Lfs UInt32 := do
  let s ← get
  let dnum := s.lfDir.lfdDfree
  if dnum = LF_DNULL then halt
  else do
    readInto dnum.toNat fun b s => s.setBlk d fun blk => { blk with lfdblock := b }
    modify fun s => s.setDir fun dir =>
      { dir with lfdDfree := (Lfdbfree.layout.symm (s.lfltab d).lfdblock).lfNextdb }
    writeDir
    modify fun s => s.setDirdirty false
    modify fun s => s.setBlk d fun blk => { blk with lfdblock := fun _ => DFILL }
    return dnum

/-- Put a data block back on the free list. -/
def lfdbfree (dnum : UInt32) : Prog Lfs Unit := do
  let s ← get
  let buf : Lfdbfree := { lfNextdb := s.lfDir.lfdDfree, lfUnused := s.stack 0 }
  modify fun s => { s with stack := fun n => s.stack (n + 1) }
  modify fun s => s.setDir fun dir => { dir with lfdDfree := dnum }
  writeDisk dnum.toNat fun _ => Lfdbfree.layout buf
  writeDir

/-!
## Flushing and setting up
-/

def lfflush (d : Fin Nlfl) : Prog Lfs Int := do
  let s ← get
  if (s.lfltab d).lfstate = .free then return SYSERR
  else do
    when s.lfDirdirty do
      writeDir
      modify fun s => s.setDirdirty false
    let s ← get
    when (s.lfltab d).lfdbdirty do
      writeDisk (s.lfltab d).lfdnum.toNat fun s => (s.lfltab d).lfdblock
      modify fun s => s.setBlk d fun blk => { blk with lfdbdirty := false }
    let s ← get
    when (s.lfltab d).lfibdirty do
      lfibput (s.lfltab d).lfinum fun s => (s.lfltab d).lfiblock
      modify fun s => s.setBlk d fun blk => { blk with lfibdirty := false }
    return OK

/-- Set the index block in memory. -/
def setIblock (d : Fin Nlfl) (inum : UInt32) (ib : Lfiblk) (s : Lfs) : Lfs :=
  s.setBlk d fun blk => { blk with lfinum := inum, lfiblock := ib }

/-- The part of {lit}`lfsetup` that brings some index block of the file into memory. -/
def firstIblock (d : Fin Nlfl) : Prog Lfs Unit := do
  let s ← get
  if (s.lfltab d).lfinum = LF_INULL then do
    let ibnum := (s.entryOf d).ldIlist
    if ibnum = LF_INULL then do
      let ibnum ← lfiballoc
      modify fun s => setIblock d (s.lfltab d).lfinum (lfibclear 0) s
      modify fun s => s.setEntry (s.lfltab d).lfdirptr fun e => { e with ldIlist := ibnum }
      modify fun s => s.setBlk d fun blk => { blk with lfibdirty := true, lfinum := ibnum }
    else do
      let ib ← lfibget ibnum
      modify (setIblock d ibnum ib)
  else if (s.lfltab d).lfpos < (s.lfltab d).lfiblock.ibOffset then do
    let ibnum := (s.entryOf d).ldIlist
    let ib ← lfibget ibnum
    modify (setIblock d ibnum ib)
  else return ()

/-- Go on to the next index block of the file, which is allocated when there is none. -/
def followIblock (d : Fin Nlfl) (ib : Lfiblk) : Prog Lfs Unit :=
  if ib.ibNext = LF_INULL then do
    let ibnum ← lfiballoc
    modify fun s => setIblock d (s.lfltab d).lfinum
      { (s.lfltab d).lfiblock with ibNext := ibnum } s
    let s ← get
    lfibput (s.lfltab d).lfinum fun s => (s.lfltab d).lfiblock
    modify fun s => setIblock d ibnum (lfibclear ((s.lfltab d).lfiblock.ibOffset + LF_IDATA)) s
    modify fun s => s.setBlk d fun blk => { blk with lfibdirty := true }
  else do
    let nib ← lfibget ib.ibNext
    modify (setIblock d ib.ibNext nib)

/-- One round of the loop of {lit}`lfsetup` that follows, or extends, the list of index
blocks up to the one that covers the position. -/
def nextIblock (d : Fin Nlfl) : Prog Lfs (Unit ⊕ Unit) := do
  let s ← get
  let ib := (s.lfltab d).lfiblock
  if (s.lfltab d).lfpos &&& ~~~LF_IMASK ≤ ib.ibOffset then return .inr ()
  else do
    followIblock d ib
    modify fun s => s.setBlk d fun blk => { blk with lfdnum := LF_DNULL }
    return .inl ()

theorem dindex_lt (pos : UInt32) : ((pos &&& LF_IMASK) >>> 9).toNat < LF_IBLEN := by
  have hand : (pos &&& LF_IMASK).toNat ≤ 8191 := by
    rw [UInt32.toNat_and]
    exact Nat.and_le_right
  rw [UInt32.toNat_shiftRight, Nat.shiftRight_eq_div_pow]
  change (pos &&& LF_IMASK).toNat / 512 < 16
  omega

/-- The place of the data block of a file position in its index block. -/
def dindex (pos : UInt32) : Fin LF_IBLEN := ⟨((pos &&& LF_IMASK) >>> 9).toNat, dindex_lt pos⟩

/-- The part of {lit}`lfsetup` that brings the data block of the position into memory. -/
def dataBlock (d : Fin Nlfl) : Prog Lfs Unit := do
  let s ← get
  let i := dindex (s.lfltab d).lfpos
  let dnum := (s.lfltab d).lfiblock.ibDba i
  if dnum = LF_DNULL then do
    let dnum ← lfdballoc d
    modify fun s => s.setBlk d fun blk =>
      { blk with
        lfiblock := { blk.lfiblock with ibDba := upd blk.lfiblock.ibDba i dnum },
        lfibdirty := true }
    modify fun s => s.setBlk d fun blk => { blk with lfdnum := dnum }
  else do
    when (dnum ≠ (s.lfltab d).lfdnum) do
      readInto dnum.toNat fun b s => s.setBlk d fun blk => { blk with lfdblock := b }
      modify fun s => s.setBlk d fun blk => { blk with lfdbdirty := false }
    modify fun s => s.setBlk d fun blk => { blk with lfdnum := dnum }

/-- The part of {lit}`lfsetup` that runs with the directory's mutex held. -/
def setupBlocks (d : Fin Nlfl) : Prog Lfs Unit := do
  let s ← get
  when ((s.lfltab d).lfibdirty || (s.lfltab d).lfdbdirty) do
    let _ ← lfflush d
    return ()
  firstIblock d
  loop (fun _ => nextIblock d) chainFuel ()
  dataBlock d
  modify fun s => s.setBlk d fun blk => { blk with lfbyte := (blk.lfpos &&& LF_DMASK).toNat }

/-- Set a file's index block and data block for its current position. -/
def lfsetup (d : Fin Nlfl) : Prog Lfs Int := do
  waitMutex
  setupBlocks d
  signalMutex
  return OK

end Lfs
end BbbXinu
