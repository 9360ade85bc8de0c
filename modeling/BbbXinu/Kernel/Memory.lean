import BbbXinu.Kernel.State

/-!
# Memory

{lit}`getstk.c` and {lit}`freestk.c`, which walk the list of free blocks backwards from
{lit}`memlist`, and {lit}`getmem.c` and {lit}`freemem.c`, which walk it forwards.  Addresses
are unsigned 32-bit words and {lit}`NULL` is zero; there are fewer blocks than addresses, which
bounds the walks.
-/

namespace BbbXinu

/-- The macro {lit}`roundmb`. -/
def roundmb (x : Nat) : Nat := uint32 (x + (MIN_BLOCKSIZE - 1)) / MIN_BLOCKSIZE * MIN_BLOCKSIZE

/-- The macro {lit}`roundew` of {lit}`create.c`. -/
def roundew (x : Nat) : Nat := uint32 (x + 3) / 4 * 4

namespace Mem

/-- More steps than a free list has blocks. -/
def listFuel : Nat := 4294967296

def setBlock (m : Mem) (addr : Nat) (f : Memblk → Memblk) : Mem :=
  { m with block := upd m.block addr (f (m.block addr)) }

/-- The scan of {lit}`getstk`: the chosen block and the block after it. -/
def getstkScan (m : Mem) (alloc nbytes : Nat) :
    Nat → Nat → Nat → Nat → Nat → Nat × Nat
  | 0, _, _, fits, fitsprev => (fits, fitsprev)
  | fuel + 1, prev, curr, fits, fitsprev =>
      if curr ≠ m.memlist then
        let take :=
          nbytes ≤ (m.block curr).mlength ∧
            (alloc = MEMALLOC_FIRSTFIT ∨ fits = 0 ∨
              (m.block curr).mlength = nbytes ∨
              (m.block curr).mlength < (m.block fits).mlength)
        getstkScan m alloc nbytes fuel curr (m.block curr).mprev
          (if take then curr else fits) (if take then prev else fitsprev)
      else (fits, fitsprev)

/-- {lit}`getstk` under the given value of {lit}`EV_MEMALLOC`; no address stands
for {lit}`SYSERR`. -/
def getstk (m : Mem) (alloc nbytes : Nat) : Option Nat × Mem :=
  if nbytes = 0 then (none, m)
  else
    let nbytes := roundmb nbytes
    let found := m.getstkScan alloc nbytes listFuel m.memlist
      (m.block m.memlist).mprev 0 0
    let fits := found.1
    let fitsprev := found.2
    if fits = 0 then (none, m)
    else
      let r :=
        if nbytes = (m.block fits).mlength then
          let prev := (m.block fits).mprev
          let m := m.setBlock fitsprev fun b => { b with mprev := prev }
          (fits, m.setBlock prev fun b => { b with mnext := fitsprev })
        else
          let m := m.setBlock fits fun b => { b with mlength := uint32 (b.mlength - nbytes) }
          (uint32 (fits + (m.block fits).mlength), m)
      let m := r.2.setBlock r.2.memlist fun b =>
        { b with mlength := uint32 (b.mlength - nbytes) }
      (some (uint32 (r.1 + nbytes - 4)), m)

/-- The search of {lit}`freestk`: the free blocks after and before the address. -/
def freestkScan (m : Mem) (block : Nat) : Nat → Nat → Nat → Nat × Nat
  | 0, next, curr => (next, curr)
  | fuel + 1, next, curr =>
      if curr ≠ m.memlist ∧ block < curr then
        freestkScan m block fuel curr (m.block curr).mprev
      else (next, curr)

def freestk (m : Mem) (stkaddr nbytes : Nat) : Mem :=
  let block := uint32 (stkaddr - nbytes + 4)
  if nbytes = 0 ∨ block < m.minheap ∨ m.maxheap < block then m
  else
    let nbytes := roundmb nbytes
    let found := m.freestkScan block listFuel m.memlist (m.block m.memlist).mprev
    let next := found.1
    let curr := found.2
    let top := if curr = m.memlist then 0 else uint32 (curr + (m.block curr).mlength)
    if (curr ≠ m.memlist ∧ block < top) ∨
        (next ≠ m.memlist ∧ next < uint32 (block + nbytes)) then m
    else
      let m := m.setBlock m.memlist fun b =>
        { b with mlength := uint32 (b.mlength + nbytes) }
      let r :=
        if top = block then
          (curr, m.setBlock curr fun b => { b with mlength := uint32 (b.mlength + nbytes) })
        else
          let m := m.setBlock block fun b => { b with mnext := next }
          let m := m.setBlock next fun b => { b with mprev := block }
          let m := m.setBlock block fun b => { b with mlength := nbytes, mprev := curr }
          (block, m.setBlock curr fun b => { b with mnext := block })
      let block := r.1
      let m := r.2
      if uint32 (block + (m.block block).mlength) = next then
        let after := (m.block next).mnext
        let m := m.setBlock block fun b =>
          { b with mlength := uint32 (b.mlength + (m.block next).mlength), mnext := after }
        m.setBlock after fun b => { b with mprev := block }
      else m

/-!
## Heap memory
-/

/-- The search of {lit}`getmem`: the block of the exact size with the block
before it, or else the best block that is larger. -/
def getmemScan (m : Mem) (alloc nbytes : Nat) :
    Nat → Nat → Nat → Nat → Option (Nat × Nat) × Nat
  | 0, _, _, best => (none, best)
  | fuel + 1, prev, curr, best =>
      if curr ≠ m.memlist then
        if (m.block curr).mlength = nbytes then (some (prev, curr), best)
        else if nbytes < (m.block curr).mlength then
          let best :=
            if best = 0 ∨ (m.block curr).mlength < (m.block best).mlength then curr
            else best
          if alloc = MEMALLOC_FIRSTFIT then (none, best)
          else getmemScan m alloc nbytes fuel curr (m.block curr).mnext best
        else getmemScan m alloc nbytes fuel curr (m.block curr).mnext best
      else (none, best)

/-- {lit}`getmem` under the given value of {lit}`EV_MEMALLOC`; no address stands
for {lit}`SYSERR`. -/
def getmem (m : Mem) (alloc nbytes : Nat) : Option Nat × Mem :=
  if nbytes = 0 then (none, m)
  else
    let nbytes := roundmb nbytes
    let found := m.getmemScan alloc nbytes listFuel m.memlist (m.block m.memlist).mnext 0
    match found.1 with
    | some (prev, curr) =>
        let next := (m.block curr).mnext
        let m := m.setBlock prev fun b => { b with mnext := next }
        let m := m.setBlock next fun b => { b with mprev := prev }
        let m := m.setBlock m.memlist fun b => { b with mlength := uint32 (b.mlength - nbytes) }
        (some curr, m)
    | none =>
        let best := found.2
        if best ≠ 0 then
          let prev := (m.block best).mprev
          let leftover := uint32 (best + nbytes)
          let m := m.setBlock prev fun b => { b with mnext := leftover }
          let m := m.setBlock leftover fun b => { b with mprev := prev }
          let m := m.setBlock leftover fun b => { b with mnext := (m.block best).mnext }
          let next := (m.block best).mnext
          let m := m.setBlock next fun b => { b with mprev := leftover }
          let m := m.setBlock leftover fun b =>
            { b with mlength := uint32 ((m.block best).mlength - nbytes) }
          let m := m.setBlock m.memlist fun b => { b with mlength := uint32 (b.mlength - nbytes) }
          (some best, m)
        else (none, m)

/-- The search of {lit}`freemem`: the free blocks before and after the address. -/
def freememScan (m : Mem) (block : Nat) : Nat → Nat → Nat → Nat × Nat
  | 0, prev, next => (prev, next)
  | fuel + 1, prev, next =>
      if next ≠ m.memlist ∧ next < block then
        freememScan m block fuel next (m.block next).mnext
      else (prev, next)

def freemem (m : Mem) (blkaddr nbytes : Nat) : Int × Mem :=
  if nbytes = 0 ∨ blkaddr < m.minheap ∨ m.maxheap < blkaddr then (SYSERR, m)
  else
    let nbytes := roundmb nbytes
    let block := blkaddr
    let found := m.freememScan block listFuel m.memlist (m.block m.memlist).mnext
    let prev := found.1
    let next := found.2
    let top := if prev = m.memlist then 0 else uint32 (prev + (m.block prev).mlength)
    -- the end of the list is memlist, not NULL
    if (prev ≠ m.memlist ∧ block < top) ∨ (next ≠ 0 ∧ next < uint32 (block + nbytes)) then
      (SYSERR, m)
    else
      let m := m.setBlock m.memlist fun b =>
        { b with mlength := uint32 (b.mlength + nbytes) }
      let r :=
        if top = block then
          (prev, m.setBlock prev fun b => { b with mlength := uint32 (b.mlength + nbytes) })
        else
          let m := m.setBlock block fun b => { b with mnext := next }
          let m := m.setBlock next fun b => { b with mprev := block }
          let m := m.setBlock block fun b => { b with mlength := nbytes, mprev := prev }
          (block, m.setBlock prev fun b => { b with mnext := block })
      let block := r.1
      let m := r.2
      let m :=
        if uint32 (block + (m.block block).mlength) = next then
          let after := (m.block next).mnext
          let m := m.setBlock block fun b =>
            { b with mlength := uint32 (b.mlength + (m.block next).mlength), mnext := after }
          m.setBlock after fun b => { b with mprev := block }
        else m
      (OK, m)

/-- {lit}`meminit`, less the bounds that the linker gives: one block from
{lit}`minheap` to {lit}`maxheap`. -/
def meminit (m : Mem) : Mem :=
  let minheap := m.minheap
  let m := m.setBlock m.memlist fun b => { b with mnext := minheap }
  let m := m.setBlock m.memlist fun b => { b with mprev := minheap }
  let memptr := (m.block m.memlist).mnext
  let m := m.setBlock memptr fun b => { b with mprev := m.memlist }
  let m := m.setBlock memptr fun b => { b with mnext := m.memlist }
  m.setBlock memptr fun b => { b with mlength := uint32 (m.maxheap - minheap) }

end Mem

end BbbXinu
