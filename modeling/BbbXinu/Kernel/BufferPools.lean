import BbbXinu.Kernel.Ports
import BbbXinu.Lib.Chains

/-!
# Buffer pools in use

{lit}`mkbufpool`, {lit}`getbuf` and {lit}`freebuf`, called by any processes.  All three run with
interrupts disabled, so a process is switched out only where {lit}`getbuf` waits for the
semaphore of a pool, and it may then be held up for any time after it was released.  The first
word of a buffer is the link to the next free buffer of its pool, or the hidden number of the
pool while the buffer is in use; its address is the address that {lit}`getbuf` returns less 4.
Words are kept by the address of their first byte.

Where {lit}`getmem` finds the memory for a pool, and whether {lit}`semcreate` has a semaphore
for it, is up to the step.  The addresses that {lit}`getbuf` returned and {lit}`freebuf` did not
get back, and those of all buffers that were linked into a pool, are not part of the code.
-/

namespace BbbXinu

/-- {lit}`struct bpentry` with its semaphore. -/
structure Bufpool where
  bpnext : Nat
  bpsem : Turnstile Int
  bpsize : Nat

structure BufferPools where
  word : Nat → Nat
  buftab : Int → Bufpool
  nbpools : Int
  waiting : Int → Option Int
  inUse : List Nat
  buffers : Int → List Nat

inductive BufferLabel where
  | mkbufpool (bufsiz numbufs : Int) (buf : Option Nat) (sem : Bool)
  | getbuf (pid poolid : Int)
  | resume (pid : Int)
  | freebuf (bufaddr : Nat)
  | store (addr value : Nat)

namespace BufferPools

def setPool (t : BufferPools) (poolid : Int) (e : Bufpool) : BufferPools :=
  { t with buftab := upd t.buftab poolid e }

/-- {lit}`mkbufpool` with what {lit}`getmem` returns.  Without a semaphore the pool is given up,
though its entry and the memory are not as before. -/
def mkbufpool (t : BufferPools) (bufsiz numbufs : Int) (buf : Option Nat) (sem : Bool) :
    BufferPools :=
  if bufsiz < BP_MINB ∨ BP_MAXB < bufsiz ∨ numbufs < 1 ∨ BP_MAXN < numbufs ∨
      NBPOOLS ≤ t.nbpools then t
  else
    let bufsiz := (bufsiz + 3) / 4 * 4
    match buf with
    | none => t
    | some buf =>
        let e := { t.buftab t.nbpools with bpnext := buf, bpsize := uint32 bufsiz }
        if sem then
          { t.setPool t.nbpools { e with bpsem := Turnstile.idle numbufs.toNat } with
            nbpools := t.nbpools + 1
            word := Pools.linkBuffers (uint32 (bufsiz + 4)) (numbufs - 1).toNat buf t.word
            buffers := upd t.buffers t.nbpools
              (Chains.blocks (uint32 (bufsiz + 4)) buf numbufs.toNat) }
        else t.setPool t.nbpools e

/-- {lit}`getbuf` after the wait: the first buffer is unlinked and its pool recorded. -/
def take (t : BufferPools) (poolid : Int) : BufferPools :=
  let bufptr := (t.buftab poolid).bpnext
  { t.setPool poolid { t.buftab poolid with bpnext := t.word bufptr } with
    word := upd t.word bufptr (uint32 poolid)
    inUse := uint32 (bufptr + 4) :: t.inUse }

def getbuf (t : BufferPools) (pid poolid : Int) : BufferPools :=
  if poolid < 0 ∨ t.nbpools ≤ poolid then t
  else
    let T := (t.buftab poolid).bpsem
    let t := t.setPool poolid { t.buftab poolid with bpsem := T.enter pid }
    if T.Open then t.take poolid else { t with waiting := upd t.waiting pid (some poolid) }

/-- {lit}`getbuf` after a wait. -/
def getbufResume (t : BufferPools) (pid poolid : Int) : BufferPools :=
  let t := t.setPool poolid { t.buftab poolid with bpsem := (t.buftab poolid).bpsem.resume pid }
  { t with waiting := upd t.waiting pid none }.take poolid

def freebuf (t : BufferPools) (bufaddr : Nat) : BufferPools :=
  let buf := uint32 (bufaddr - 4)
  let poolid := int32 (t.word buf)
  if poolid < 0 ∨ t.nbpools ≤ poolid then t
  else
    let e := t.buftab poolid
    { t.setPool poolid { e with bpnext := buf, bpsem := e.bpsem.signal 1 } with
      word := upd t.word buf e.bpnext
      inUse := t.inUse.erase bufaddr }

def step (t : BufferPools) : BufferLabel → Option BufferPools
  | .mkbufpool bufsiz numbufs buf sem => some (t.mkbufpool bufsiz numbufs buf sem)
  | .getbuf pid poolid => if t.waiting pid = none then some (t.getbuf pid poolid) else none
  | .resume pid =>
      match t.waiting pid with
      | none => none
      | some poolid =>
          if pid ∈ (t.buftab poolid).bpsem.granted then some (t.getbufResume pid poolid) else none
  | .freebuf bufaddr => some (t.freebuf bufaddr)
  | .store addr value => some { t with word := upd t.word addr value }

/-- What {lit}`bufinit` leaves.  Nothing is known of the table. -/
structure Init (t : BufferPools) : Prop where
  nbpools : t.nbpools = 0
  waiting : ∀ pid, t.waiting pid = none
  inUse : t.inUse = []

end BufferPools
end BbbXinu
