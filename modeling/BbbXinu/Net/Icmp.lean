import BbbXinu.Lib.Runs
import BbbXinu.Net.Packet
import BbbXinu.Lib.Turnstiles

/-!
# The queues of echo replies

{lit}`icmptab` with {lit}`icmp_register`, {lit}`icmp_recv`, {lit}`icmp_release` and the
part of {lit}`icmp_in` that treats echo replies.  Interrupts are disabled in all of
them, so each is one step, but for {lit}`icmp_recv`, which may wait for a message in the
middle.  Any process may send any message to any other at any time.

The log of a slot is not part of the code.  It has the packets that were put into the
queue since the slot was registered, and those that were taken out.
-/

namespace BbbXinu
namespace Net

def ICMP_SLOTS : Int := 10
def ICMP_QSIZ : Nat := 8
def ICMP_ECHOREPLY : UInt8 := 0
def ICMP_ECHOREQST : UInt8 := 8

/-- {lit}`ICMP_FREE`, {lit}`ICMP_USED` and {lit}`ICMP_RECV`. -/
inductive IcState where
  | free | used | recv
  deriving DecidableEq, Repr

/-- {lit}`struct icmpentry`.  What {lit}`icqueue` has behind its {lit}`ICMP_QSIZ` entries is
not part of the entry. -/
structure IcmpEntry where
  icstate : IcState
  icremip : UInt32
  ichead : Nat
  ictail : Nat
  iccount : Int
  icpid : Int
  icqueue : Nat → Packet

namespace IcmpEntry

/-- A packet is queued, as in {lit}`icmp_in`. -/
def enqueue (e : IcmpEntry) (pkt : Packet) : IcmpEntry :=
  { e with
    iccount := e.iccount + 1
    icqueue := upd e.icqueue e.ictail pkt
    ictail := if ICMP_QSIZ ≤ e.ictail + 1 then 0 else e.ictail + 1 }

/-- The packet at {lit}`ichead` is taken, as in {lit}`icmp_recv` and {lit}`icmp_release`.
The index wraps at the number of slots. -/
def dequeue (e : IcmpEntry) : IcmpEntry :=
  { e with
    ichead := if ICMP_SLOTS ≤ e.ichead + 1 then 0 else e.ichead + 1
    iccount := e.iccount - 1 }

/-- The loop of {lit}`icmp_release`, and the packets that it frees. -/
def drain : Nat → IcmpEntry → IcmpEntry × List Packet
  | 0, e => (e, [])
  | n + 1, e => ((drain n e.dequeue).1, e.icqueue e.ichead :: (drain n e.dequeue).2)

/-- {lit}`icmp_register` fills in an entry. -/
def register (e : IcmpEntry) (remip : UInt32) : IcmpEntry :=
  { e with icstate := .used, icremip := remip, iccount := 0, ichead := 0, ictail := 0,
           icpid := -1 }

end IcmpEntry

/-- How a packet left a queue. -/
inductive Leave where
  | returned | freed
  deriving DecidableEq, Repr

structure IcmpLog where
  queued : List Packet
  left : List (Packet × Leave)

structure Icmp where
  icmptab : Int → IcmpEntry
  waits : Waits
  log : Int → IcmpLog

namespace Icmp

def setEntry (s : Icmp) (slot : Int) (e : IcmpEntry) : Icmp :=
  { s with icmptab := upd s.icmptab slot e }

def setLog (s : Icmp) (slot : Int) (l : IcmpLog) : Icmp := { s with log := upd s.log slot l }

/-- The slot that takes an arriving packet, if one does. -/
def slotOf (s : Icmp) (pkt : Packet) : Option Int :=
  let slot : Int := (get16 pkt net_icident).toNat
  if pkt net_ictype ≠ ICMP_ECHOREPLY then none
  else if slot < 0 ∨ ICMP_SLOTS ≤ slot then none
  else if (s.icmptab slot).icstate = .free ∨
      get32 pkt net_ipsrc ≠ (s.icmptab slot).icremip then none
  else some slot

/-- {lit}`icmp_in` for a packet with its headers in host byte order.  A request is answered
and not queued. -/
def icmpIn (s : Icmp) (pkt : Packet) : Icmp :=
  match s.slotOf pkt with
  | none => s
  | some slot =>
      let e := (s.icmptab slot).enqueue pkt
      let s := s.setLog slot { s.log slot with queued := (s.log slot).queued ++ [pkt] }
      if e.icstate = .recv then
        { s.setEntry slot { e with icstate := .used } with waits := s.waits.send e.icpid OK }
      else s.setEntry slot e

/-- The first free slot, unless the address is registered already. -/
def freeslot (s : Icmp) (remip : UInt32) : Option Int :=
  let slots := (List.range ICMP_SLOTS.toNat).map Int.ofNat
  if slots.any fun i => decide ((s.icmptab i).icstate ≠ .free ∧ (s.icmptab i).icremip = remip)
  then none
  else slots.find? fun i => decide ((s.icmptab i).icstate = .free)

def icmpRegister (s : Icmp) (remip : UInt32) : Icmp :=
  match s.freeslot remip with
  | none => s
  | some slot =>
      (s.setEntry slot ((s.icmptab slot).register remip)).setLog slot { queued := [], left := [] }

/-- The end of {lit}`icmp_recv`: the first packet is dequeued. -/
def icmpTake (s : Icmp) (icmpid : Int) : Icmp :=
  let e := s.icmptab icmpid
  (s.setEntry icmpid e.dequeue).setLog icmpid
    { s.log icmpid with left := (s.log icmpid).left ++ [(e.icqueue e.ichead, .returned)] }

/-- {lit}`icmp_recv`, up to the place where it waits if it has to. -/
def icmpRecv (s : Icmp) (pid icmpid maxwait : Int) : Icmp :=
  if icmpid < 0 ∨ ICMP_SLOTS ≤ icmpid then s
  else if (s.icmptab icmpid).icstate ≠ .used then s
  else if (s.icmptab icmpid).iccount = 0 then
    if maxwait < 0 then
      { s.setEntry icmpid { s.icmptab icmpid with icstate := .used, icpid := pid } with
        waits := s.waits.refuse pid }
    else
      { s.setEntry icmpid { s.icmptab icmpid with icstate := .recv, icpid := pid } with
        waits := s.waits.wait pid icmpid }
  else s.icmpTake icmpid

/-- {lit}`icmp_recv` after its wait, with the message that {lit}`recvtime` returns. -/
def icmpWake (s : Icmp) (pid icmpid : Int) : Icmp :=
  let msg := s.waits.message pid
  let s := { s.setEntry icmpid { s.icmptab icmpid with icstate := .used } with
    waits := s.waits.wake pid }
  if msg = TIMEOUT then s else if msg ≠ OK then s else s.icmpTake icmpid

def icmpRelease (s : Icmp) (icmpid : Int) : Icmp :=
  if icmpid < 0 ∨ ICMP_SLOTS ≤ icmpid then s
  else if (s.icmptab icmpid).icstate ≠ .used then s
  else
    let e := s.icmptab icmpid
    let (e', freed) := e.drain e.iccount.toNat
    (s.setEntry icmpid { e' with icstate := .free }).setLog icmpid
      { s.log icmpid with left := (s.log icmpid).left ++ freed.map fun p => (p, .freed) }

end Icmp

inductive IcmpLabel where
  | arrive (pkt : Packet)
  | register (remip : UInt32)
  | recv (pid icmpid maxwait : Int)
  | wake (pid : Int)
  | release (icmpid : Int)
  | message (pid msg : Int)

namespace Icmp

/-- A waiting process makes no call; one that does not wait cannot wake up. -/
def step (s : Icmp) : IcmpLabel → Option Icmp
  | .arrive pkt => some (s.icmpIn pkt)
  | .register remip => some (s.icmpRegister remip)
  | .recv pid icmpid maxwait =>
      if s.waits.slot pid = none then some (s.icmpRecv pid icmpid maxwait) else none
  | .wake pid => (s.waits.slot pid).map fun icmpid => s.icmpWake pid icmpid
  | .release icmpid => some (s.icmpRelease icmpid)
  | .message pid msg => some { s with waits := s.waits.send pid msg }

/-- What {lit}`icmp_init` leaves of a table of zeros. -/
def init : Icmp where
  icmptab := fun _ => { icstate := .free, icremip := 0, ichead := 0, ictail := 0, iccount := 0,
                        icpid := 0, icqueue := fun _ _ => 0 }
  waits := Waits.none
  log := fun _ => { queued := [], left := [] }

def Init (s : Icmp) : Prop := s = init

end Icmp

end Net
end BbbXinu

/-!
# The IP output queue

{lit}`ipoqueue` with {lit}`ip_enqueue`, which any process may call, and the process
{lit}`ipout`, the only one that waits for the semaphore of the queue.  A packet is the
address of its buffer.  Interrupts are disabled in {lit}`ip_enqueue`, so it is one step;
{lit}`ipout` can be interrupted between its wait and the removal of a packet.

The two lists of packets are not part of the code: the packets whose {lit}`ip_enqueue`
returned {lit}`OK`, and those that {lit}`ipout` took from the queue.
-/

namespace BbbXinu
namespace Net

def IP_OQSIZ : Nat := 8

/-- Where {lit}`ipout` is: it sends a packet and will wait next, it waits, or it is past the
wait and will take a packet. -/
inductive OutPhase where
  | sending | waiting | taking
  deriving DecidableEq, Repr

/-- {lit}`struct iqentry`, and {lit}`ipout`. -/
structure IpQueue where
  iqhead : Nat
  iqtail : Nat
  iqsem : Turnstile Unit
  iqbuf : Nat → Nat
  phase : OutPhase
  enqueued : List Nat
  taken : List Nat

inductive IpQueueLabel where
  | enqueue (pktptr : Nat)
  | wait
  | wake
  | take

namespace IpQueue

/-- {lit}`ip_enqueue`, which returns {lit}`SYSERR` and frees the packet when the count of the
semaphore says that the queue is full. -/
def ipEnqueue (s : IpQueue) (pktptr : Nat) : IpQueue :=
  if IP_OQSIZ ≤ s.iqsem.queue.count then s
  else
    { s with
      iqbuf := upd s.iqbuf s.iqtail pktptr
      iqtail := if IP_OQSIZ ≤ s.iqtail + 1 then 0 else s.iqtail + 1
      iqsem := s.iqsem.signal 1
      enqueued := s.enqueued ++ [pktptr] }

/-- The call of {lit}`wait` in {lit}`ipout`. -/
def ipoutWait (s : IpQueue) : IpQueue :=
  if s.iqsem.Open then { s with iqsem := s.iqsem.enter (), phase := .taking }
  else { s with iqsem := s.iqsem.enter (), phase := .waiting }

/-- What {lit}`ipout` does with the queue when {lit}`wait` has returned. -/
def ipoutTake (s : IpQueue) : IpQueue :=
  { s with
    iqhead := if IP_OQSIZ ≤ s.iqhead + 1 then 0 else s.iqhead + 1
    phase := .sending
    taken := s.taken ++ [s.iqbuf s.iqhead] }

def step (s : IpQueue) : IpQueueLabel → Option IpQueue
  | .enqueue pktptr => some (s.ipEnqueue pktptr)
  | .wait => if s.phase = .sending then some s.ipoutWait else none
  | .wake =>
      if s.phase = .waiting ∧ () ∈ s.iqsem.granted then
        some { s with iqsem := s.iqsem.resume (), phase := .taking }
      else none
  | .take => if s.phase = .taking then some s.ipoutTake else none

/-- The queue as {lit}`net_init` makes it, before {lit}`ipout` runs. -/
def init : IpQueue where
  iqhead := 0
  iqtail := 0
  iqsem := Turnstile.idle 0
  iqbuf := fun _ => 0
  phase := .sending
  enqueued := []
  taken := []

def Init (s : IpQueue) : Prop := s = init

end IpQueue

end Net
end BbbXinu
