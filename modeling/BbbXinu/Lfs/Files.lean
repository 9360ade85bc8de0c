import BbbXinu.Lfs.Blocks

/-!
# The local file system: files

The calls on an open file, {lit}`lftruncate`, and the call of the master device
that opens one.
-/

namespace BbbXinu
namespace Lfs

open Prog Layouts

/-!
## Reading, writing and seeking
-/

/-- The byte of a data block that a byte pointer shows to. -/
def byteAt (b : Sector) (i : Nat) : UInt8 := if h : i < LF_BLKSIZ then b ⟨i, h⟩ else 0

def storeByte (b : Sector) (i : Nat) (ch : UInt8) : Sector := fun j => if j.val = i then ch else b j

def lflgetc (d : Fin Nlfl) : Prog Lfs Int := do
  waitFile d
  let s ← get
  if (s.lfltab d).lfstate ≠ .used then do
    signalFile d
    return SYSERR
  else if (s.entryOf d).ldSize ≤ (s.lfltab d).lfpos then do
    signalFile d
    return EOF
  else do
    when (LF_BLKSIZ ≤ (s.lfltab d).lfbyte) do
      let _ ← lfsetup d
      return ()
    let s ← get
    let onebyte := byteAt (s.lfltab d).lfdblock (s.lfltab d).lfbyte
    modify fun s => s.setBlk d fun blk =>
      { blk with lfbyte := blk.lfbyte + 1, lfpos := blk.lfpos + 1 }
    signalFile d
    return onebyte.toNat

def lflputc (d : Fin Nlfl) (ch : UInt8) : Prog Lfs Int := do
  waitFile d
  let s ← get
  if (s.lfltab d).lfstate ≠ .used then do
    signalFile d
    return SYSERR
  else if (s.entryOf d).ldSize < (s.lfltab d).lfpos then do
    signalFile d
    return SYSERR
  else do
    when (LF_BLKSIZ ≤ (s.lfltab d).lfbyte) do
      let _ ← lfsetup d
      return ()
    let s ← get
    when ((s.entryOf d).ldSize ≤ (s.lfltab d).lfpos) do
      modify fun s => s.setEntry (s.lfltab d).lfdirptr fun e => { e with ldSize := e.ldSize + 1 }
      modify fun s => s.setDirdirty true
    modify fun s => s.setBlk d fun blk =>
      { blk with
        lfdblock := storeByte blk.lfdblock blk.lfbyte ch, lfbyte := blk.lfbyte + 1,
        lfpos := blk.lfpos + 1, lfdbdirty := true }
    signalFile d
    return OK

/-- The result and the bytes stored in the buffer. -/
def lflread (d : Fin Nlfl) (count : Int) : Prog Lfs (Int × List UInt8) :=
  if count < 0 then return (SYSERR, [])
  else
    loop (fun (buff : List UInt8) =>
      if count ≤ buff.length then return .inr ((buff.length : Int), buff)
      else do
        let nxtbyte ← lflgetc d
        if nxtbyte = SYSERR then return .inr (SYSERR, buff)
        else if nxtbyte = EOF then
          if buff.length = 0 then return .inr (EOF, buff)
          else return .inr ((buff.length : Int), buff)
        else return .inl (buff ++ [UInt8.ofNat nxtbyte.toNat]))
      (count.toNat + 1) []

def lflwrite (d : Fin Nlfl) (buff : Nat → UInt8) (count : Int) : Prog Lfs Int :=
  if count < 0 then return SYSERR
  else
    loop (fun (i : Nat) =>
      if count ≤ i then return .inr count
      else do
        let r ← lflputc d (buff i)
        if r = SYSERR then return .inr SYSERR
        else return .inl (i + 1))
      (count.toNat + 1) 0

def lflseek (d : Fin Nlfl) (offset : UInt32) : Prog Lfs Int := do
  waitFile d
  let s ← get
  if (s.lfltab d).lfstate ≠ .used then do
    signalFile d
    return SYSERR
  else if (s.entryOf d).ldSize < offset then do
    signalFile d
    return SYSERR
  else do
    modify fun s => s.setBlk d fun blk => { blk with lfpos := offset, lfbyte := LF_BLKSIZ }
    signalFile d
    return OK

/-!
## Truncating
-/

/-- What {lit}`lftruncate` writes over an index block of the file. -/
def disposed (ifree : UInt32) (ib : Lfiblk) : Lfiblk :=
  { ibNext := if ib.ibNext = LF_INULL then ifree else ib.ibNext, ibOffset := 0,
    ibDba := fun _ => LF_DNULL }

/-- One round of the loop of {lit}`lftruncate` over the index blocks of the file. -/
def disposeIblock (ifree nextib : UInt32) : Prog Lfs (UInt32 ⊕ Unit) :=
  if nextib = ifree then return .inr ()
  else do
    let iblock ← lfibget nextib
    forEach (fun i => when (iblock.ibDba i ≠ LF_DNULL) (lfdbfree (iblock.ibDba i)))
      (List.finRange LF_IBLEN)
    lfibput nextib fun _ => disposed ifree iblock
    return .inl (disposed ifree iblock).ibNext

def lftruncate (d : Fin Nlfl) : Prog Lfs Int := do
  let s ← get
  if (s.entryOf d).ldSize = 0 then return OK
  else do
    when ((s.lfltab d).lfibdirty || (s.lfltab d).lfdbdirty) do
      let _ ← lfflush d
      return ()
    modify fun s => s.setBlk d fun blk =>
      { blk with lfpos := 0, lfinum := LF_INULL, lfdnum := LF_DNULL, lfbyte := LF_BLKSIZ }
    let s ← get
    let ifree := s.lfDir.lfdIfree
    let firstib := (s.entryOf d).ldIlist
    modify fun s => s.setEntry (s.lfltab d).lfdirptr fun e =>
      { e with ldIlist := LF_INULL, ldSize := 0 }
    modify fun s => s.setDirdirty true
    loop (disposeIblock ifree) chainFuel firstib
    modify fun s => s.setDir fun dir => { dir with lfdIfree := firstib }
    modify fun s => s.setDirdirty true
    return OK

def lflcontrol (d : Fin Nlfl) (func : Int) : Prog Lfs Int := do
  waitFile d
  let s ← get
  if (s.lfltab d).lfstate ≠ .used then do
    signalFile d
    return SYSERR
  else if func = LF_CTL_TRUNC then do
    waitMutex
    let retval ← lftruncate d
    signalMutex
    signalFile d
    return retval
  else do
    signalFile d
    return SYSERR

/-!
## Opening and closing
-/

def lflclose (d : Fin Nlfl) : Prog Lfs Int := do
  waitFile d
  let s ← get
  if (s.lfltab d).lfstate ≠ .used then do
    signalFile d
    return SYSERR
  else do
    when (s.lfDirdirty || (s.lfltab d).lfdbdirty || (s.lfltab d).lfibdirty) do
      let _ ← lfflush d
      return ()
    modify fun s => s.setBlk d fun blk => { blk with lfstate := .free }
    signalFile d
    return OK

/-- The characters of a string up to its null character. -/
def cname (name : List UInt8) : List UInt8 := name.takeWhile fun c => c ≠ 0

/-- The loop that compares two strings, of which the first ends the loop. -/
def sameName : List UInt8 → List UInt8 → Bool
  | [], cmp => cmp.headD 0 = 0
  | c :: nam, cmp =>
      if c = 0 then cmp.headD 0 = 0
      else if c ≠ cmp.headD 0 then false
      else sameName nam cmp.tail

/-- The loop that copies a string with its null character over an array. -/
def copyName (name : List UInt8) (dst : Fin LF_NAME_LEN → UInt8) : Fin LF_NAME_LEN → UInt8 :=
  fun i => if i.val ≤ (cname name).length then (cname name).getD i.val 0 else dst i

/-- The body of the loop of {lit}`lfgetmode`; {lit}`none` stands for {lit}`SYSERR`. -/
def modeBit (mbits : UInt32) (ch : UInt8) : Option UInt32 :=
  if ch = 114 then
    if mbits &&& LF_MODE_R ≠ 0 then none else some (mbits ||| LF_MODE_R)
  else if ch = 119 then
    if mbits &&& LF_MODE_W ≠ 0 then none else some (mbits ||| LF_MODE_W)
  else if ch = 111 then
    if mbits &&& LF_MODE_O ≠ 0 ∨ mbits &&& LF_MODE_N ≠ 0 then none
    else some (mbits ||| LF_MODE_O)
  else if ch = 110 then
    if mbits &&& LF_MODE_O ≠ 0 ∨ mbits &&& LF_MODE_N ≠ 0 then none
    else some (mbits ||| LF_MODE_N)
  else none

def modeBits : UInt32 → List UInt8 → Option UInt32
  | mbits, [] => some mbits
  | mbits, ch :: mode =>
      if ch = 0 then some mbits else (modeBit mbits ch).bind fun m => modeBits m mode

/-- The mode bits of a mode string, or {lit}`none` for {lit}`SYSERR`. -/
def lfgetmode (mode : List UInt8) : Option UInt32 :=
  (modeBits 0 mode).map fun mbits =>
    if mbits &&& LF_MODE_RW = 0 then mbits ||| LF_MODE_RW else mbits

/-- The search through the pseudo-devices: {lit}`none` when a file with the name is open,
and otherwise the first free device, if there is one. -/
def unusedDevice (tab : Fin Nlfl → Lflcblk) (name : List UInt8) : Option (Option (Fin Nlfl)) :=
  if (List.finRange Nlfl).any fun i =>
      (tab i).lfstate ≠ .free ∧ sameName name (List.ofFn (tab i).lfname) then none
  else some ((List.finRange Nlfl).find? fun i => (tab i).lfstate = .free)

/-- The search of the directory for a name. -/
def findEntry (dir : Lfdir) (name : List UInt8) : Option (Fin LF_NUM_DIR_ENT) :=
  (List.finRange LF_NUM_DIR_ENT).find? fun i =>
    i.val < dir.lfdNfiles.toNat ∧ sameName name (List.ofFn (dir.lfdFiles i).ldName)

/-- The entry for a new, empty file. -/
def newEntry (name : List UInt8) (e : Ldentry) : Ldentry :=
  { ldSize := 0, ldIlist := LF_INULL, ldName := copyName name e.ldName }

/-- The end of {lit}`lfsopen`: claim the device for a directory entry and release the
mutex. -/
def claimDevice (name : List UInt8) (mbits : UInt32) (lfnext : Fin Nlfl)
    (e : Fin LF_NUM_DIR_ENT) : Prog Lfs Int := do
  modify fun s => s.setBlk lfnext fun blk =>
    { blk with
      lfstate := .used, lfdirptr := e, lfmode := mbits &&& LF_MODE_RW, lfpos := 0,
      lfname := copyName name blk.lfname, lfinum := LF_INULL, lfdnum := LF_DNULL,
      lfbyte := LF_BLKSIZ, lfibdirty := false, lfdbdirty := false }
  signalMutex
  let s ← get
  return (s.lfltab lfnext).lfdev

/-- The part of {lit}`lfsopen` that runs with the directory in memory and its mutex
held. -/
def openEntry (name : List UInt8) (mbits : UInt32) (lfnext : Fin Nlfl) : Prog Lfs Int := do
  let s ← get
  match findEntry s.lfDir name with
  | none =>
      if mbits &&& LF_MODE_O ≠ 0 then do
        signalMutex
        return SYSERR
      else if h : s.lfDir.lfdNfiles.toNat < LF_NUM_DIR_ENT then do
        let e : Fin LF_NUM_DIR_ENT := ⟨s.lfDir.lfdNfiles.toNat, h⟩
        modify fun s => s.setDir fun dir => { dir with lfdNfiles := dir.lfdNfiles + 1 }
        modify fun s => s.setEntry e (newEntry name)
        claimDevice name mbits lfnext e
      else do
        signalMutex
        return SYSERR
  | some e =>
      if mbits &&& LF_MODE_N ≠ 0 then do
        signalMutex
        return SYSERR
      else claimDevice name mbits lfnext e

/-- The part of {lit}`lfsopen` from the wait for the directory's mutex on. -/
def lockedOpen (name : List UInt8) (mbits : UInt32) (lfnext : Fin Nlfl) : Prog Lfs Int := do
  waitMutex
  let s ← get
  when (!s.lfDirpresent) do
    readInto LF_AREA_DIR fun b s => s.setDir fun _ => Lfdir.layout.symm b
    modify fun s => { s with lfDirpresent := true }
  openEntry name mbits lfnext

def lfsopen (name mode : List UInt8) : Prog Lfs Int :=
  if LF_NAME_LEN ≤ (cname name).length then return SYSERR
  else
    match lfgetmode mode with
    | none => return SYSERR
    | some mbits => do
        let s ← get
        match unusedDevice s.lfltab name with
        | none => return SYSERR
        | some none => return SYSERR
        | some (some lfnext) => lockedOpen name mbits lfnext

end Lfs
end BbbXinu
