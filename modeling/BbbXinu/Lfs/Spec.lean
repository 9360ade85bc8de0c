import BbbXinu.Lfs.Files

/-!
# What the local file system is for

A file is a name with an array of bytes.  An open file is a position in one of
the files, never beyond its end.  The calls read the byte at the position,
overwrite or append a byte there, move the position, empty the file, and open
and close.  No blocks, buffers or disks are left here.
-/

namespace BbbXinu

/-- The files in the order of their creation, and for each device the number of the file
that is open on it with the position. -/
structure FileSys where
  files : List (List UInt8 × List UInt8)
  opens : Fin Nlfl → Option (Nat × Nat)

/-- A byte is stored at a position up to the end. -/
def putByte (bytes : List UInt8) (p : Nat) (ch : UInt8) : List UInt8 :=
  if p < bytes.length then bytes.set p ch else bytes ++ [ch]

/-- Bytes are stored one after the other. -/
def putBytes : List UInt8 → Nat → List UInt8 → List UInt8
  | bytes, _, [] => bytes
  | bytes, p, ch :: l => putBytes (putByte bytes p ch) (p + 1) l

namespace FileSys

variable (f : FileSys)

def empty : FileSys := { files := [], opens := fun _ => none }

/-- The bytes of a file. -/
def content (i : Nat) : List UInt8 := ((f.files[i]?).map Prod.snd).getD []

def setContent (i : Nat) (bytes : List UInt8) : FileSys :=
  { f with files := f.files.modify i fun e => (e.1, bytes) }

def setOpen (d : Fin Nlfl) (o : Option (Nat × Nat)) : FileSys :=
  { f with opens := upd f.opens d o }

/-!
## The calls
-/

def getc (d : Fin Nlfl) : FileSys × Int :=
  match f.opens d with
  | none => (f, SYSERR)
  | some (i, pos) =>
      match (f.content i)[pos]? with
      | none => (f, EOF)
      | some b => (f.setOpen d (some (i, pos + 1)), b.toNat)

def putc (d : Fin Nlfl) (ch : UInt8) : FileSys × Int :=
  match f.opens d with
  | none => (f, SYSERR)
  | some (i, pos) =>
      ((f.setContent i (putByte (f.content i) pos ch)).setOpen d (some (i, pos + 1)), OK)

/-- The bytes that are left from the position on, as many as are asked for. -/
def read (d : Fin Nlfl) (count : Int) : FileSys × Int × List UInt8 :=
  if count < 0 then (f, SYSERR, [])
  else if count = 0 then (f, 0, [])
  else
    match f.opens d with
    | none => (f, SYSERR, [])
    | some (i, pos) =>
        match ((f.content i).drop pos).take count.toNat with
        | [] => (f, EOF, [])
        | b :: l =>
            (f.setOpen d (some (i, pos + (l.length + 1))), ((l.length + 1 : Nat) : Int), b :: l)

def write (d : Fin Nlfl) (buff : Nat → UInt8) (count : Int) : FileSys × Int :=
  if count < 0 then (f, SYSERR)
  else if count = 0 then (f, 0)
  else
    match f.opens d with
    | none => (f, SYSERR)
    | some (i, pos) =>
        let w := (List.range count.toNat).map buff
        ((f.setContent i (putBytes (f.content i) pos w)).setOpen d (some (i, pos + w.length)), count)

def seek (d : Fin Nlfl) (offset : Nat) : FileSys × Int :=
  match f.opens d with
  | none => (f, SYSERR)
  | some (i, _) =>
      if offset ≤ (f.content i).length then (f.setOpen d (some (i, offset)), OK)
      else (f, SYSERR)

def control (d : Fin Nlfl) (func : Int) : FileSys × Int :=
  match f.opens d with
  | none => (f, SYSERR)
  | some (i, _) =>
      if func = LF_CTL_TRUNC then ((f.setContent i []).setOpen d (some (i, 0)), OK)
      else (f, SYSERR)

def close (d : Fin Nlfl) : FileSys × Int :=
  match f.opens d with
  | none => (f, SYSERR)
  | some _ => (f.setOpen d none, OK)

/-- The number of the file with the given name. -/
def lookup (name : List UInt8) : Option Nat := f.files.findIdx? fun e => e.1 = name

/-- The file with the given number is open. -/
def isOpen (i : Nat) : Bool := (List.finRange Nlfl).any fun d => (f.opens d).map Prod.fst = some i

/-- The first device on which no file is open. -/
def freeDevice : Option (Fin Nlfl) := (List.finRange Nlfl).find? fun d => f.opens d = none

/-- Open a file by name: it must not be open already, a device must be free, and the mode
can ask for an old file or a new one. -/
def openFile (dev : Fin Nlfl → Int) (name mode : List UInt8) : FileSys × Int :=
  if LF_NAME_LEN ≤ (Lfs.cname name).length then (f, SYSERR)
  else
    match Lfs.lfgetmode mode, f.freeDevice with
    | some mbits, some d =>
        match f.lookup (Lfs.cname name) with
        | none =>
            if mbits &&& LF_MODE_O ≠ 0 ∨ LF_NUM_DIR_ENT ≤ f.files.length then (f, SYSERR)
            else
              ({ files := f.files ++ [(Lfs.cname name, [])],
                 opens := upd f.opens d (some (f.files.length, 0)) }, dev d)
        | some i =>
            if f.isOpen i ∨ mbits &&& LF_MODE_N ≠ 0 then (f, SYSERR)
            else (f.setOpen d (some (i, 0)), dev d)
    | _, _ => (f, SYSERR)

/-!
## How much room the files take
-/

/-- Data blocks of 512 bytes. -/
def dataBlocks : Nat := (f.files.map fun e => (e.2.length + 511) / 512).sum

/-- Index blocks, one for 16 data blocks. -/
def indexBlocks : Nat := (f.files.map fun e => (e.2.length + 8191) / 8192).sum

end FileSys
end BbbXinu
