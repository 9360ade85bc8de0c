import BbbXinu.Lfs.Spec

/-!
# The local file system: a machine

What sets the file system up, and the calls that processes make.
-/

namespace BbbXinu
namespace Lfs

open Prog Layouts

/-!
## Formatting and starting

{lit}`lfscreate` formats a disk; {lit}`lfsinit` and {lit}`lflinit` set up the
master device and the pseudo-devices.
-/

/-- The directory that {lit}`lfscreate` writes. -/
def emptyDir (dfree : UInt32) : Lfdir := { Lfdir.zero with lfdNfiles := 0, lfdDfree := dfree }

/-- A free data block as {lit}`lfscreate` writes it. -/
def freeBlock (next : UInt32) : Lfdbfree := { lfNextdb := next, lfUnused := fun _ => 0 }

/-- Index blocks in a sector. -/
def ibpersector : UInt32 := 7

/-- Sectors of index blocks for the given number of index blocks. -/
def ibsectors (lfiblks : UInt32) : UInt32 := (lfiblks + (ibpersector - 1)) / ibpersector

/-- Create an initially-empty file system. -/
def lfscreate (lfiblks dsiz : UInt32) : Prog Lfs Int :=
  let sectors := dsiz / 512
  let ibsectors := ibsectors lfiblks
  let lfiblks := ibsectors * ibpersector
  if sectors / 2 < ibsectors then return SYSERR
  else do
    let dbindex := ibsectors + 1
    let dblks := sectors - ibsectors - 1
    writeDisk LF_AREA_DIR fun _ => Lfdir.layout (emptyDir dbindex)
    forEach (fun i => lfibput (UInt32.ofNat i) fun _ =>
        { lfibclear 0 with ibNext := UInt32.ofNat (i + 1) })
      (List.range (lfiblks - 1).toNat)
    lfibput (lfiblks - 1) fun _ => { lfibclear 0 with ibNext := LF_INULL }
    forEach (fun i => writeDisk (dbindex + UInt32.ofNat i).toNat fun _ =>
        Lfdbfree.layout (freeBlock (dbindex + UInt32.ofNat i + 1)))
      (List.range (dblks - 1).toNat)
    writeDisk (dbindex + (dblks - 1)).toNat fun _ => Lfdbfree.layout (freeBlock LF_DNULL)
    return OK

/-- The master device after {lit}`lfsinit`. -/
def lfsinit (s : Lfs) : Lfs :=
  { s with lfMutex := 1, lfDir := Lfdir.zero, lfDirpresent := false, lfDirdirty := false }

/-- The control block of a pseudo-device after {lit}`lflinit`. -/
def lflinit (dvnum : Int) : Lflcblk :=
  { lfstate := .free, lfdev := dvnum, lfmutex := 1, lfdirptr := 0, lfmode := 0, lfpos := 0,
    lfname := fun _ => 0, lfinum := LF_INULL,
    lfiblock := { ibNext := 0, ibOffset := 0, ibDba := fun _ => 0 }, lfdnum := 0,
    lfdblock := fun _ => 0, lfbyte := LF_BLKSIZ, lfibdirty := false, lfdbdirty := false }

end Lfs

/-!
## Calls

The calls as labels, what each does to the file system when it runs without
interruption, and what it does to the files of the specification.
-/

inductive LfsCall where
  | lfsopen (name mode : List UInt8)
  | lflclose (d : Fin Nlfl)
  | lflgetc (d : Fin Nlfl)
  | lflputc (d : Fin Nlfl) (ch : UInt8)
  | lflread (d : Fin Nlfl) (count : Int)
  | lflwrite (d : Fin Nlfl) (buff : Nat → UInt8) (count : Int)
  | lflseek (d : Fin Nlfl) (offset : UInt32)
  | lflcontrol (d : Fin Nlfl) (func : Int)

/-- What a call returns: its value, and the bytes that it stored in the caller's buffer. -/
abbrev Reply : Type := Int × List UInt8

namespace Lfs

open Prog

/-- A call that stores nothing in a buffer. -/
def plain (p : Prog Lfs Int) : Prog Lfs Reply := do
  let r ← p
  return (r, [])

def code : LfsCall → Prog Lfs Reply
  | .lfsopen name mode => plain (lfsopen name mode)
  | .lflclose d => plain (lflclose d)
  | .lflgetc d => plain (lflgetc d)
  | .lflputc d ch => plain (lflputc d ch)
  | .lflread d count => lflread d count
  | .lflwrite d buff count => plain (lflwrite d buff count)
  | .lflseek d offset => plain (lflseek d offset)
  | .lflcontrol d func => plain (lflcontrol d func)

/-- One call, from start to end. -/
def step (s : Lfs) (c : LfsCall) : Option Lfs := (run (code c) s).map Prod.fst

/-- Calls one after the other, with what they return. -/
def replies : List LfsCall → Lfs → Option (Lfs × List Reply)
  | [], s => some (s, [])
  | c :: l, s => (run (code c) s).bind fun t => (replies l t.1).map fun u => (u.1, t.2 :: u.2)

/-- The system as it is started, with any disk. -/
structure Started (s : Lfs) : Prop where
  master : s = lfsinit s
  slaves : ∀ d, s.lfltab d = lflinit (s.lfltab d).lfdev

/-- The system as it is started on a disk that {lit}`lfscreate` has formatted. -/
structure Formatted (lfiblks dsiz : UInt32) (s : Lfs) : Prop where
  started : Started s
  formatted : ∃ s₀, Started s₀ ∧ run (lfscreate lfiblks dsiz) s₀ = some (s, OK)

end Lfs

namespace FileSys

/-- A call of the specification, with what it returns. -/
def call (dev : Fin Nlfl → Int) (f : FileSys) : LfsCall → FileSys × Reply
  | .lfsopen name mode => let r := f.openFile dev name mode; (r.1, r.2, [])
  | .lflclose d => let r := f.close d; (r.1, r.2, [])
  | .lflgetc d => let r := f.getc d; (r.1, r.2, [])
  | .lflputc d ch => let r := f.putc d ch; (r.1, r.2, [])
  | .lflread d count => f.read d count
  | .lflwrite d buff count => let r := f.write d buff count; (r.1, r.2, [])
  | .lflseek d offset => let r := f.seek d offset.toNat; (r.1, r.2, [])
  | .lflcontrol d func => let r := f.control d func; (r.1, r.2, [])

/-- The files after a list of calls. -/
def after (dev : Fin Nlfl → Int) (f : FileSys) (calls : List LfsCall) : FileSys :=
  calls.foldl (fun f c => (f.call dev c).1) f

/-- What a list of calls returns. -/
def replies (dev : Fin Nlfl → Int) : List LfsCall → FileSys → List Reply
  | [], _ => []
  | c :: l, f => (f.call dev c).2 :: replies dev l (f.call dev c).1

end FileSys
end BbbXinu
