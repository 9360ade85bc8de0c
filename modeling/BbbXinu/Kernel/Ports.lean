import BbbXinu.Kernel.Memory
import BbbXinu.Kernel.Semaphore
import BbbXinu.Lib.Runs
import BbbXinu.Lib.Turnstiles

/-!
# Buffer pools and ports

{lit}`mkbufpool.c` and {lit}`ptcreate.c`, which take a place in a table, memory and
semaphores.  Both run with interrupts disabled.  The other routines for ports are those of a
single port.
-/

namespace BbbXinu

def NBPOOLS : Int := 20
def BP_MINB : Int := 8
def BP_MAXB : Int := 8192
def BP_MAXN : Int := 2048
def NPORTS : Int := 30

/-- {lit}`PT_FREE`, {lit}`PT_LIMBO` and {lit}`PT_ALLOC`. -/
inductive PtState where
  | free | limbo | alloc
  deriving DecidableEq, Repr

/-- Entry of the buffer pool table. -/
structure Bpentry where
  bpnext : Nat
  bpsem : Int
  bpsize : Nat
  deriving DecidableEq, Repr

/-- Entry of the port table; {lit}`ptmaxcnt` is unsigned with 16 bits. -/
structure Ptentry where
  ptssem : Int
  ptrsem : Int
  ptstate : PtState
  ptmaxcnt : Nat
  ptseq : Int
  pthead : Nat
  pttail : Nat
  deriving DecidableEq, Repr

/-- The kernel with the two tables, and the first word of each buffer by its address. -/
structure Pools where
  xinu : Xinu
  buftab : Int → Bpentry
  nbpools : Int
  bpnext : Nat → Nat
  porttab : Int → Ptentry
  ptnextid : Int

namespace Pools

def setMem (t : Pools) (m : Mem) : Pools := { t with xinu := t.xinu.setMem m }
def setNbpools (t : Pools) (n : Int) : Pools := { t with nbpools := n }

def setPool (t : Pools) (poolid : Int) (f : Bpentry → Bpentry) : Pools :=
  { t with buftab := upd t.buftab poolid (f (t.buftab poolid)) }

def setPort (t : Pools) (ptnum : Int) (f : Ptentry → Ptentry) : Pools :=
  { t with porttab := upd t.porttab ptnum (f (t.porttab ptnum)) }

/-- A call of {lit}`semcreate`: the value that it returns. -/
def semcreate (t : Pools) (count : Int) : Int × Pools :=
  let x := t.xinu.semcreate count
  (x.retval x.currpid, { t with xinu := x })

/-- The loop that links the buffers, once for each buffer but the last. -/
def linkBuffers (bufsiz : Nat) : Nat → Nat → (Nat → Nat) → Nat → Nat
  | 0, buf, bpnext => upd bpnext buf 0
  | numbufs + 1, buf, bpnext =>
      linkBuffers bufsiz numbufs (uint32 (buf + bufsiz)) (upd bpnext buf (uint32 (buf + bufsiz)))

def mkbufpool (t : Pools) (bufsiz numbufs : Int) : Int × Pools :=
  if bufsiz < BP_MINB ∨ BP_MAXB < bufsiz ∨ numbufs < 1 ∨ BP_MAXN < numbufs ∨
      NBPOOLS ≤ t.nbpools then (SYSERR, t)
  else
    let bufsiz := (bufsiz + 3) / 4 * 4
    let r := t.xinu.mem.getmem (t.xinu.envtab EV_MEMALLOC) (uint32 (numbufs * (bufsiz + 4)))
    match r.1 with
    | none => (SYSERR, t.setMem r.2)
    | some buf =>
        let poolid := t.nbpools
        let t := (t.setMem r.2).setNbpools (t.nbpools + 1)
        let t := t.setPool poolid fun e => { e with bpnext := buf, bpsize := uint32 bufsiz }
        let r := t.semcreate numbufs
        let t := r.2.setPool poolid fun e => { e with bpsem := r.1 }
        if r.1 = SYSERR then (SYSERR, t.setNbpools (t.nbpools - 1))
        else
          (poolid, { t with
            bpnext := linkBuffers (uint32 (bufsiz + 4)) (numbufs - 1).toNat buf t.bpnext })

/-- What {lit}`ptcreate` does with a free entry. -/
def ptcreateAt (t : Pools) (ptnum count : Int) : Pools :=
  let t := t.setPort ptnum fun e => { e with ptstate := .alloc }
  let r := t.semcreate count
  let t := r.2.setPort ptnum fun e => { e with ptssem := r.1 }
  let r := t.semcreate 0
  let t := r.2.setPort ptnum fun e => { e with ptrsem := r.1 }
  t.setPort ptnum fun e =>
    { e with pthead := 0, pttail := 0, ptseq := int32 (e.ptseq + 1), ptmaxcnt := uint16 count }

/-- The loop of {lit}`ptcreate`. -/
def ptcreateLoop (count : Int) : Nat → Pools → Int × Pools
  | 0, t => (SYSERR, t)
  | n + 1, t =>
      let ptnum := t.ptnextid
      let t := { t with ptnextid := if NPORTS ≤ t.ptnextid + 1 then 0 else t.ptnextid + 1 }
      if (t.porttab ptnum).ptstate = .free then (ptnum, t.ptcreateAt ptnum count)
      else ptcreateLoop count n t

def ptcreate (t : Pools) (count : Int) : Int × Pools :=
  if count < 0 then (SYSERR, t) else ptcreateLoop count NPORTS.toNat t

end Pools

end BbbXinu

/-!
## A port

{lit}`ptsend`, {lit}`ptrecv` and {lit}`ptreset` on one port, from its creation on.  All run
with interrupts disabled, so a process is switched out only where it waits for a semaphore,
and in {lit}`ptreset` where a reset semaphore has released others.  A semaphore that
{lit}`semcreate` did not give is {lit}`SYSERR`, and every operation on it fails.  Message
nodes are always there, the disposal function leaves the port alone, and the sequence number
does not overflow.

The log has the numbers of messages that were sent and received since the port was created or
last reset, and the number of resets.
-/

namespace BbbXinu

/-- Where a process is in a call. -/
inductive PortPhase where
  | outside
  | sending (seq : Int) (msg : Nat)
  | receiving (seq : Int)
  | clearing
  | cleared
  deriving DecidableEq, Repr

/-- {lit}`struct ptentry` with its semaphores and its list of messages. -/
structure MessagePort where
  ptssem : Option (Turnstile Int)
  ptrsem : Option (Turnstile Int)
  ptstate : PtState
  ptmaxcnt : Nat
  ptseq : Int
  messages : List Nat
  phase : Int → PortPhase
  sent : Nat
  received : Nat
  resets : Nat

inductive PortLabel where
  | send (pid : Int) (msg : Nat)
  | recv (pid : Int)
  | resume (pid : Int)
  | reset (pid : Int)
  | clear (pid : Int)
  | leave (pid : Int)

namespace MessagePort

def setPhase (p : MessagePort) (pid : Int) (phase : PortPhase) : MessagePort :=
  { p with phase := upd p.phase pid phase }

/-- A message is linked into the queue, and the receivers are signalled. -/
def deposit (p : MessagePort) (msg : Nat) : MessagePort :=
  { p with
    messages := p.messages ++ [msg]
    ptrsem := p.ptrsem.map fun T => T.signal 1
    sent := p.sent + 1 }

/-- The first message is taken, and the senders are signalled. -/
def take (p : MessagePort) : MessagePort :=
  { p with
    messages := p.messages.tail
    ptssem := p.ptssem.map fun T => T.signal 1
    received := p.received + 1 }

def ptsend (p : MessagePort) (pid : Int) (msg : Nat) : MessagePort :=
  if p.ptstate ≠ .alloc then p
  else
    match p.ptssem with
    | none => p
    | some T =>
        let p := { p with ptssem := some (T.enter pid) }
        if T.Open then p.deposit msg else p.setPhase pid (.sending p.ptseq msg)

/-- {lit}`ptsend` after a wait: the message is sent unless the port was reset. -/
def ptsendResume (p : MessagePort) (pid : Int) (T : Turnstile Int) (seq : Int) (msg : Nat) :
    MessagePort :=
  let p := { p with ptssem := some (T.resume pid) }.setPhase pid .outside
  if p.ptstate ≠ .alloc ∨ p.ptseq ≠ seq then p else p.deposit msg

def ptrecv (p : MessagePort) (pid : Int) : MessagePort :=
  if p.ptstate ≠ .alloc then p
  else
    match p.ptrsem with
    | none => p
    | some T =>
        let p := { p with ptrsem := some (T.enter pid) }
        if T.Open then p.take else p.setPhase pid (.receiving p.ptseq)

/-- {lit}`ptrecv` after a wait. -/
def ptrecvResume (p : MessagePort) (pid : Int) (T : Turnstile Int) (seq : Int) : MessagePort :=
  let p := { p with ptrsem := some (T.resume pid) }.setPhase pid .outside
  if p.ptstate ≠ .alloc ∨ p.ptseq ≠ seq then p else p.take

/-- {lit}`ptreset` up to the return from {lit}`semreset` of the sender semaphore. -/
def ptreset (p : MessagePort) (pid : Int) : MessagePort :=
  if p.ptstate ≠ .alloc then p
  else
    { p with
      ptstate := .limbo
      ptseq := p.ptseq + 1
      messages := []
      ptssem := p.ptssem.map fun T : Turnstile Int => T.reset p.ptmaxcnt
      sent := 0
      received := 0
      resets := p.resets + 1 }.setPhase pid .clearing

/-- The processes that go on: one that was released from a semaphore, and one in
{lit}`ptreset`, which resets the receiver semaphore and then gives the port its new state. -/
def step (p : MessagePort) : PortLabel → Option MessagePort
  | .send pid msg => if p.phase pid = .outside then some (p.ptsend pid msg) else none
  | .recv pid => if p.phase pid = .outside then some (p.ptrecv pid) else none
  | .resume pid =>
      match p.phase pid, p.ptssem, p.ptrsem with
      | .sending seq msg, some T, _ =>
          if pid ∈ T.granted then some (p.ptsendResume pid T seq msg) else none
      | .receiving seq, _, some T =>
          if pid ∈ T.granted then some (p.ptrecvResume pid T seq) else none
      | _, _, _ => none
  | .reset pid => if p.phase pid = .outside then some (p.ptreset pid) else none
  | .clear pid =>
      if p.phase pid = .clearing then
        some ({ p with ptrsem := p.ptrsem.map fun T : Turnstile Int => T.reset 0 }.setPhase pid .cleared)
      else none
  | .leave pid =>
      if p.phase pid = .cleared then
        some ({ p with ptstate := .alloc }.setPhase pid .outside)
      else none

/-- The port that {lit}`ptcreate` leaves, with each of the semaphores or without it.
{lit}`ptmaxcnt` has 16 bits. -/
def create (count : Int) (ssem rsem : Bool) (ptseq : Int) : MessagePort where
  ptssem := if ssem then some (Turnstile.idle count.toNat) else none
  ptrsem := if rsem then some (Turnstile.idle 0) else none
  ptstate := .alloc
  ptmaxcnt := uint16 count
  ptseq := ptseq
  messages := []
  phase := fun _ => .outside
  sent := 0
  received := 0
  resets := 0

/-- A new port for some messages. -/
def Init (count : Int) (ssem rsem : Bool) (p : MessagePort) : Prop :=
  ∃ ptseq, p = create count ssem rsem ptseq

end MessagePort

end BbbXinu
