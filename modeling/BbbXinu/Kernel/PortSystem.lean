import BbbXinu.Kernel.Ports
import BbbXinu.Lib.Chains

/-!
# The port system

All ports with their message nodes: {lit}`ptinit`, {lit}`ptcreate`, {lit}`ptsend`,
{lit}`ptrecv`, {lit}`ptreset` and {lit}`ptdelete` with {lit}`_ptclear`, called by any processes.
They run with interrupts disabled, so a process is switched out only where it waits for a
semaphore, and in {lit}`_ptclear` where a semaphore has released others.  It may then be held up
for any time.  A node is known by its address.  The semaphores of a port are always there, and
the disposal function leaves the ports alone.

Who was released from a semaphore that was deleted stands with those who were released from the
next one of the same port.

The log is not part of the code.  It has the nodes that {lit}`ptinit` linked, the capacities of
the ports that are not deleted, the messages sent and received since a port was created or last
cleared, and those that were disposed of.
-/

namespace BbbXinu

/-- The index of an entry of {lit}`porttab`. -/
abbrev PortId := Fin 30

/-- {lit}`isbadport` -/
def port? (portid : Int) : Option PortId :=
  if h : 0 ≤ portid ∧ portid < NPORTS then
    some ⟨portid.toNat, by have h' : portid < 30 := h.2; omega⟩
  else none

/-- Where a process is in a call; {lit}`_ptclear` goes from one semaphore to the other. -/
inductive PortCall where
  | outside
  | sending (p : PortId) (seq : Int) (msg : Nat)
  | receiving (p : PortId) (seq : Int)
  | clearing (p : PortId) (newstate : PtState)
  | cleared (p : PortId) (newstate : PtState)
  deriving DecidableEq, Repr

/-- {lit}`struct ptentry` with its semaphores. -/
structure PortEntry where
  ptssem : Turnstile Int
  ptrsem : Turnstile Int
  ptstate : PtState
  ptmaxcnt : Nat
  ptseq : Int
  pthead : Nat
  pttail : Nat

structure PortLog where
  capacity : Nat
  sent : List Nat
  received : List Nat
  disposed : List Nat

structure PortSystem where
  ptnext : Nat → Nat
  ptmsg : Nat → Nat
  ptfree : Nat
  porttab : PortId → PortEntry
  ptnextid : PortId
  phase : Int → PortCall
  panicked : Bool
  nodes : List Nat
  log : PortId → PortLog

inductive PortEvent where
  | create (count : Int)
  | send (pid portid : Int) (msg : Nat)
  | recv (pid portid : Int)
  | resume (pid : Int)
  | reset (pid portid : Int)
  | delete (pid portid : Int)
  | clear (pid : Int)
  | leave (pid : Int)

namespace PortSystem

def setEntry (t : PortSystem) (p : PortId) (f : PortEntry → PortEntry) : PortSystem :=
  { t with porttab := upd t.porttab p (f (t.porttab p)) }

def setLog (t : PortSystem) (p : PortId) (f : PortLog → PortLog) : PortSystem :=
  { t with log := upd t.log p (f (t.log p)) }

def setPhase (t : PortSystem) (pid : Int) (phase : PortCall) : PortSystem :=
  { t with phase := upd t.phase pid phase }

/-- The next entry to try. -/
def following (p : PortId) : PortId := if h : p.val + 1 < 30 then ⟨p.val + 1, h⟩ else 0

/-- What {lit}`ptcreate` does with a free entry. -/
def createAt (t : PortSystem) (p : PortId) (count : Nat) : PortSystem :=
  (t.setEntry p fun e =>
    { ptssem := e.ptssem.reset count
      ptrsem := e.ptrsem.reset 0
      ptstate := .alloc
      ptmaxcnt := uint16 count
      ptseq := int32 (e.ptseq + 1)
      pthead := 0
      pttail := 0 }).setLog p fun g =>
    { capacity := count, sent := [], received := [], disposed := g.disposed }

def createLoop (count : Nat) : Nat → PortSystem → PortSystem
  | 0, t => t
  | n + 1, t =>
      let p := t.ptnextid
      let t := { t with ptnextid := following p }
      if (t.porttab p).ptstate = .free then t.createAt p count else createLoop count n t

def ptcreate (t : PortSystem) (count : Int) : PortSystem :=
  if count < 0 then t else createLoop count.toNat NPORTS.toNat t

/-- The rest of {lit}`ptsend` when there is room: a node is unlinked from the free list and
linked into the queue, and the receivers are signalled. -/
def deposit (t : PortSystem) (p : PortId) (msg : Nat) : PortSystem :=
  if t.ptfree = 0 then { t with panicked := true }
  else
    let msgnode := t.ptfree
    let tailnode := (t.porttab p).pttail
    let t := { t with
      ptfree := t.ptnext msgnode
      ptnext := upd t.ptnext msgnode 0
      ptmsg := upd t.ptmsg msgnode msg }
    let t :=
      if tailnode = 0 then t.setEntry p fun e => { e with pthead := msgnode, pttail := msgnode }
      else { t with ptnext := upd t.ptnext tailnode msgnode }.setEntry p fun e =>
        { e with pttail := msgnode }
    (t.setEntry p fun e => { e with ptrsem := e.ptrsem.signal 1 }).setLog p fun g =>
      { g with sent := g.sent ++ [msg] }

/-- The rest of {lit}`ptrecv` when there is a message: its node goes back to the free list, and
the senders are signalled. -/
def take (t : PortSystem) (p : PortId) : PortSystem :=
  let e := t.porttab p
  let msgnode := e.pthead
  let t :=
    if e.pthead = e.pttail then t.setEntry p fun e => { e with pthead := 0, pttail := 0 }
    else t.setEntry p fun e => { e with pthead := t.ptnext msgnode }
  let t := { t with ptnext := upd t.ptnext msgnode t.ptfree, ptfree := msgnode }
  (t.setEntry p fun e => { e with ptssem := e.ptssem.signal 1 }).setLog p fun g =>
    { g with received := g.received ++ [t.ptmsg msgnode] }

def ptsend (t : PortSystem) (pid portid : Int) (msg : Nat) : PortSystem :=
  match port? portid with
  | none => t
  | some p =>
      let e := t.porttab p
      if e.ptstate ≠ .alloc then t
      else
        let t := t.setEntry p fun e => { e with ptssem := e.ptssem.enter pid }
        if e.ptssem.Open then t.deposit p msg else t.setPhase pid (.sending p e.ptseq msg)

/-- {lit}`ptsend` after a wait: the message is sent unless the port was reset. -/
def ptsendResume (t : PortSystem) (pid : Int) (p : PortId) (seq : Int) (msg : Nat) : PortSystem :=
  let t := (t.setEntry p fun e => { e with ptssem := e.ptssem.resume pid }).setPhase pid .outside
  if (t.porttab p).ptstate ≠ .alloc ∨ (t.porttab p).ptseq ≠ seq then t else t.deposit p msg

def ptrecv (t : PortSystem) (pid portid : Int) : PortSystem :=
  match port? portid with
  | none => t
  | some p =>
      let e := t.porttab p
      if e.ptstate ≠ .alloc then t
      else
        let t := t.setEntry p fun e => { e with ptrsem := e.ptrsem.enter pid }
        if e.ptrsem.Open then t.take p else t.setPhase pid (.receiving p e.ptseq)

/-- {lit}`ptrecv` after a wait. -/
def ptrecvResume (t : PortSystem) (pid : Int) (p : PortId) (seq : Int) : PortSystem :=
  let t := (t.setEntry p fun e => { e with ptrsem := e.ptrsem.resume pid }).setPhase pid .outside
  if (t.porttab p).ptstate ≠ .alloc ∨ (t.porttab p).ptseq ≠ seq then t else t.take p

/-- The loop of {lit}`_ptclear` over the messages; no list is longer than there are nodes. -/
def walk (t : PortSystem) : Nat → Nat → List Nat
  | 0, _ => []
  | n + 1, node => if node = 0 then [] else t.ptmsg node :: walk t n (t.ptnext node)

/-- {lit}`_ptclear` up to the return from {lit}`semreset` or {lit}`semdelete` of the sender
semaphore. -/
def ptclear (t : PortSystem) (pid : Int) (p : PortId) (newstate : PtState) : PortSystem :=
  let e := t.porttab p
  let messages := t.walk t.nodes.length e.pthead
  let t :=
    if e.pthead ≠ 0 then
      { t with ptnext := upd t.ptnext e.pttail t.ptfree, ptfree := e.pthead }
    else t
  let e := { e with ptstate := .limbo, ptseq := int32 (e.ptseq + 1) }
  let e :=
    if newstate = .alloc then
      { e with pthead := 0, pttail := 0, ptssem := e.ptssem.reset e.ptmaxcnt }
    else { e with ptssem := e.ptssem.reset 0 }
  ((t.setEntry p fun _ => e).setLog p fun g =>
    { capacity := if newstate = .alloc then g.capacity else 0
      sent := []
      received := []
      disposed := g.disposed ++ messages }).setPhase pid (.clearing p newstate)

/-- {lit}`ptreset` and {lit}`ptdelete`. -/
def clearPort (t : PortSystem) (pid portid : Int) (newstate : PtState) : PortSystem :=
  match port? portid with
  | none => t
  | some p => if (t.porttab p).ptstate ≠ .alloc then t else t.ptclear pid p newstate

def step (t : PortSystem) (event : PortEvent) : Option PortSystem :=
  if t.panicked then none
  else
    match event with
    | .create count => some (t.ptcreate count)
    | .send pid portid msg => if t.phase pid = .outside then some (t.ptsend pid portid msg) else none
    | .recv pid portid => if t.phase pid = .outside then some (t.ptrecv pid portid) else none
    | .resume pid =>
        match t.phase pid with
        | .sending p seq msg =>
            if pid ∈ (t.porttab p).ptssem.granted then some (t.ptsendResume pid p seq msg) else none
        | .receiving p seq =>
            if pid ∈ (t.porttab p).ptrsem.granted then some (t.ptrecvResume pid p seq) else none
        | _ => none
    | .reset pid portid =>
        if t.phase pid = .outside then some (t.clearPort pid portid .alloc) else none
    | .delete pid portid =>
        if t.phase pid = .outside then some (t.clearPort pid portid .free) else none
    | .clear pid =>
        match t.phase pid with
        | .clearing p newstate =>
            some ((t.setEntry p fun e => { e with ptrsem := e.ptrsem.reset 0 }).setPhase pid
              (.cleared p newstate))
        | _ => none
    | .leave pid =>
        match t.phase pid with
        | .cleared p newstate =>
            let t := (t.setEntry p fun e => { e with ptstate := newstate }).setPhase pid .outside
            some (if newstate = .free then { t with ptnextid := p } else t)
        | _ => none

/-- What {lit}`ptinit` leaves, with at least one node, not at the null pointer.  Its loop is that
of {lit}`mkbufpool`, for nodes of 8 bytes. -/
structure Init (t : PortSystem) : Prop where
  nodes : ∃ maxmsgs ptnext, 0 < maxmsgs ∧ 0 < t.ptfree ∧ t.ptfree + maxmsgs * 8 ≤ 4294967296 ∧
    t.ptnext = Pools.linkBuffers 8 (maxmsgs - 1) t.ptfree ptnext ∧
    t.nodes = Chains.blocks 8 t.ptfree maxmsgs
  sems : ∀ p, (t.porttab p).ptssem = Turnstile.idle 0 ∧ (t.porttab p).ptrsem = Turnstile.idle 0
  ptstate : ∀ p, (t.porttab p).ptstate = .free
  ptseq : ∀ p, (t.porttab p).ptseq = 0
  phase : ∀ pid, t.phase pid = .outside
  panicked : t.panicked = false
  log : ∀ p, (t.log p).capacity = 0

end PortSystem
end BbbXinu
