import BbbXinu.Lib.Runs
import BbbXinu.Net.Packet

/-!
# UDP endpoints

{lit}`udptab` with {lit}`udp_in`, {lit}`udp_register`, {lit}`udp_recv`,
{lit}`udp_recvaddr` and {lit}`udp_release`.  Interrupts are disabled in all of them, so
each is one step, but for the receivers, which may wait for a message in the middle.  Any
process may send any message to any other at any time.

The log of a slot is not part of the code.  It says whether the slot is registered, and
which packets were put into the queue and taken out since it was.
-/

namespace BbbXinu
namespace Net

def UDP_SLOTS : Int := 6
def UDP_QSIZ : Nat := 8

/-- {lit}`UDP_FREE`, {lit}`UDP_USED` and {lit}`UDP_RECV`. -/
inductive UdState where
  | free | used | recv
  deriving DecidableEq, Repr

/-- {lit}`struct udpentry`. -/
structure UdpEntry where
  udstate : UdState
  udremip : UInt32
  udremport : UInt16
  udlocport : UInt16
  udhead : Nat
  udtail : Nat
  udcount : Int
  udpid : Int
  udqueue : Nat → Packet

namespace UdpEntry

/-- An entry matches an incoming packet whose headers are in host byte order. -/
def Matches (e : UdpEntry) (pktptr : Packet) : Prop :=
  e.udstate ≠ .free ∧ get16 pktptr net_udpdport = e.udlocport ∧
    (e.udremport = 0 ∨ get16 pktptr net_udpsport = e.udremport) ∧
    (e.udremip = 0 ∨ get32 pktptr net_ipsrc = e.udremip)

instance (e : UdpEntry) (pktptr : Packet) : Decidable (e.Matches pktptr) :=
  inferInstanceAs (Decidable (_ ≠ _ ∧ _ = _ ∧ (_ ∨ _) ∧ (_ ∨ _)))

def enqueue (e : UdpEntry) (pktptr : Packet) : UdpEntry :=
  { e with
    udcount := e.udcount + 1
    udqueue := upd e.udqueue e.udtail pktptr
    udtail := if UDP_QSIZ ≤ e.udtail + 1 then 0 else e.udtail + 1 }

/-- The packet at {lit}`udhead` is taken. -/
def dequeue (e : UdpEntry) : UdpEntry :=
  { e with
    udhead := if UDP_QSIZ ≤ e.udhead + 1 then 0 else e.udhead + 1
    udcount := e.udcount - 1 }

/-- The loop of {lit}`udp_release`, and the packets that it frees. -/
def drain : Nat → UdpEntry → UdpEntry × List Packet
  | 0, e => (e, [])
  | n + 1, e => ((drain n e.dequeue).1, e.udqueue e.udhead :: (drain n e.dequeue).2)

def register (e : UdpEntry) (remip : UInt32) (remport locport : UInt16) : UdpEntry :=
  { e with udlocport := locport, udremport := remport, udremip := remip, udcount := 0,
           udhead := 0, udtail := 0, udpid := -1, udstate := .used }

end UdpEntry

/-- How a packet left a queue: a process received it, or it was freed. -/
inductive Departure where
  | received (pid : Int)
  | freed
  deriving DecidableEq, Repr

structure UdpLog where
  registered : Bool
  queued : List Packet
  left : List (Packet × Departure)

structure Udp where
  udptab : Int → UdpEntry
  waits : Waits
  log : Int → UdpLog

namespace Udp

def slots : List Int := (List.range UDP_SLOTS.toNat).map Int.ofNat

def setEntry (s : Udp) (slot : Int) (e : UdpEntry) : Udp :=
  { s with udptab := upd s.udptab slot e }

def setLog (s : Udp) (slot : Int) (l : UdpLog) : Udp := { s with log := upd s.log slot l }

/-- The first entry that matches a packet and has room for it. -/
def slotOf (s : Udp) (pktptr : Packet) : Option Int :=
  slots.find? fun i =>
    decide ((s.udptab i).Matches pktptr ∧ (s.udptab i).udcount < UDP_QSIZ)

/-- {lit}`udp_in`.  A packet that no entry takes is freed. -/
def udpIn (s : Udp) (pktptr : Packet) : Udp :=
  match s.slotOf pktptr with
  | none => s
  | some slot =>
      let e := (s.udptab slot).enqueue pktptr
      let s := s.setLog slot { s.log slot with queued := (s.log slot).queued ++ [pktptr] }
      if e.udstate = .recv then
        { s.setEntry slot { e with udstate := .used } with waits := s.waits.send e.udpid OK }
      else s.setEntry slot e

/-- The first free slot, unless there is an entry for the same addresses. -/
def freeSlot (s : Udp) (remip : UInt32) (remport locport : UInt16) : Option Int :=
  if slots.any fun i => decide ((s.udptab i).udstate ≠ .free ∧
      (s.udptab i).udremport = remport ∧ (s.udptab i).udlocport = locport ∧
      (s.udptab i).udremip = remip) then none
  else slots.find? fun i => decide ((s.udptab i).udstate = .free)

def udpRegister (s : Udp) (remip : UInt32) (remport locport : UInt16) : Udp :=
  match s.freeSlot remip remport locport with
  | none => s
  | some slot =>
      (s.setEntry slot ((s.udptab slot).register remip remport locport)).setLog slot
        { registered := true, queued := [], left := [] }

/-- The end of a receive: the first packet is dequeued. -/
def take (s : Udp) (pid slot : Int) : Udp :=
  let e := s.udptab slot
  (s.setEntry slot e.dequeue).setLog slot
    { s.log slot with left := (s.log slot).left ++ [(e.udqueue e.udhead, .received pid)] }

/-- {lit}`udp_recv` up to the place where it waits, if it has to.  As far as the table is
concerned {lit}`udp_recvaddr` is the same; it also stores the addresses of the packet. -/
def udpRecv (s : Udp) (pid slot maxwait : Int) : Udp :=
  if slot < 0 ∨ UDP_SLOTS ≤ slot then s
  else if (s.udptab slot).udstate ≠ .used then s
  else if (s.udptab slot).udcount = 0 then
    if maxwait < 0 then
      { s.setEntry slot { s.udptab slot with udstate := .used, udpid := pid } with
        waits := s.waits.refuse pid }
    else
      { s.setEntry slot { s.udptab slot with udstate := .recv, udpid := pid } with
        waits := s.waits.wait pid slot }
  else s.take pid slot

/-- {lit}`udp_recv` and {lit}`udp_recvaddr` after the wait, with the message that
{lit}`recvtime` returns. -/
def udpWake (s : Udp) (pid slot : Int) : Udp :=
  let msg := s.waits.message pid
  let s := { s.setEntry slot { s.udptab slot with udstate := .used } with
    waits := s.waits.wake pid }
  if msg = TIMEOUT then s else if msg ≠ OK then s else s.take pid slot

def udpRelease (s : Udp) (slot : Int) : Udp :=
  if slot < 0 ∨ UDP_SLOTS ≤ slot then s
  else if (s.udptab slot).udstate = .free then s
  else
    let e := s.udptab slot
    let (e', freed) := e.drain e.udcount.toNat
    (s.setEntry slot { e' with udstate := .free }).setLog slot
      { s.log slot with
        registered := false
        left := (s.log slot).left ++ freed.map fun p => (p, .freed) }

end Udp

inductive UdpLabel where
  | arrive (pktptr : Packet)
  | register (remip : UInt32) (remport locport : UInt16)
  | recv (pid slot maxwait : Int)
  | wake (pid : Int)
  | release (slot : Int)
  | message (pid msg : Int)

namespace Udp

/-- A waiting process makes no call; one that does not wait cannot wake up. -/
def step (s : Udp) : UdpLabel → Option Udp
  | .arrive pktptr => some (s.udpIn pktptr)
  | .register remip remport locport => some (s.udpRegister remip remport locport)
  | .recv pid slot maxwait =>
      if s.waits.slot pid = none then some (s.udpRecv pid slot maxwait) else none
  | .wake pid => (s.waits.slot pid).map fun slot => s.udpWake pid slot
  | .release slot => some (s.udpRelease slot)
  | .message pid msg => some { s with waits := s.waits.send pid msg }

/-- What {lit}`udp_init` leaves of a table of zeros. -/
def init : Udp where
  udptab := fun _ => { udstate := .free, udremip := 0, udremport := 0, udlocport := 0,
                       udhead := 0, udtail := 0, udcount := 0, udpid := 0,
                       udqueue := fun _ _ => 0 }
  waits := Waits.none
  log := fun _ => { registered := false, queued := [], left := [] }

def Init (s : Udp) : Prop := s = init

end Udp

end Net
end BbbXinu
