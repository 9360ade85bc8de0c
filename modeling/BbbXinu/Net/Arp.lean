import BbbXinu.Net.Packet

/-!
# Address resolution

{lit}`arp_resolve`, {lit}`arp_in` and {lit}`arp_alloc`.  They run with interrupts
disabled, so another process runs only while {lit}`arp_resolve` transmits its request and
waits in {lit}`recvtime`.  There the process may be held up for any time, and it goes on
with the message that it got meanwhile, from whomever, or with {lit}`TIMEOUT`.  In that
time it holds the index of its cache entry, whatever becomes of the entry.

The log is not part of the code.  It has the packets that arrived and were sent, and what
{lit}`arp_resolve` returned.
-/

namespace BbbXinu
namespace Net

def ETH_ADDR_LEN : Nat := 6
def ETH_ARP : UInt16 := 0x0806
def ARP_HALEN : UInt8 := 6
def ARP_PALEN : UInt8 := 4
def ARP_HTYPE : UInt16 := 1
def ARP_PTYPE : UInt16 := 0x0800
def ARP_OP_REQ : UInt16 := 1
def ARP_OP_RPLY : UInt16 := 2
def ARP_SIZ : Nat := 16
def ARP_RETRY : Nat := 3

/-!
## Packets

The offsets of the fields of {lit}`struct arppacket`.
-/

def arp_ethdst : Nat := 0
def arp_ethsrc : Nat := 6
def arp_ethtype : Nat := 12
def arp_htype : Nat := 14
def arp_ptype : Nat := 16
def arp_hlen : Nat := 18
def arp_plen : Nat := 19
def arp_op : Nat := 20
def arp_sndha : Nat := 22
def arp_sndpa : Nat := 28
def arp_tarha : Nat := 32
def arp_tarpa : Nat := 38

/-- An Ethernet address. -/
abbrev Mac := Vector UInt8 ETH_ADDR_LEN

def getMac (p : Packet) (o : Nat) : Mac := Vector.ofFn fun i => p (o + i)

def setMac (p : Packet) (o : Nat) (mac : Mac) : Packet :=
  fun i => if h : o ≤ i ∧ i - o < ETH_ADDR_LEN then mac.get ⟨i - o, h.2⟩ else p i

def zeroMac : Mac := Vector.ofFn fun _ => 0

/-- {lit}`arp_ntoh`, which is also {lit}`arp_hton`. -/
def arpNtoh (p : Packet) : Packet :=
  swap32 arp_tarpa (swap32 arp_sndpa (swap16 arp_op (swap16 arp_ptype (swap16 arp_htype p))))

/-- {lit}`struct network`: what address resolution reads of it. -/
structure EthNetwork extends Network where
  ethucast : Mac
  ethbcast : Mac

/-- The fields of a packet that do not depend on what it is for. -/
def arpHeader (net : EthNetwork) (dst : Mac) (op : UInt16) : Packet :=
  let p := setMac (setMac (fun _ => 0) arp_ethdst dst) arp_ethsrc net.ethucast
  let p := set16 (set16 (set16 p arp_ethtype ETH_ARP) arp_htype ARP_HTYPE) arp_ptype ARP_PTYPE
  let p := set16 (upd (upd p arp_hlen ARP_HALEN) arp_plen ARP_PALEN) arp_op op
  set32 (setMac p arp_sndha net.ethucast) arp_sndpa net.ipucast

/-- The request of {lit}`arp_resolve`, in network byte order. -/
def arpRequest (net : EthNetwork) (nxthop : UInt32) : Packet :=
  let p := setMac (arpHeader net net.ethbcast ARP_OP_REQ) arp_tarha zeroMac
  ethHton (arpNtoh (set32 p arp_tarpa nxthop))

/-- The reply of {lit}`arp_in` to a packet in host byte order, in network byte order. -/
def arpReply (net : EthNetwork) (pkt : Packet) : Packet :=
  let p := arpHeader net (getMac pkt arp_sndha) ARP_OP_RPLY
  let p := setMac p arp_tarha (getMac pkt arp_sndha)
  ethHton (arpNtoh (set32 p arp_tarpa (get32 pkt arp_sndpa)))

/-!
## The cache
-/

inductive ArState where
  | free | pending | resolved
  deriving DecidableEq, Repr

/-- {lit}`struct arpentry`. -/
structure ArpEntry where
  arstate : ArState
  arpaddr : UInt32
  arpid : Int
  arhaddr : Mac

/-- An entry after {lit}`memset`. -/
def ArpEntry.zero : ArpEntry where
  arstate := .free
  arpaddr := 0
  arpid := 0
  arhaddr := zeroMac

/-- The entry in use for an address. -/
def arpSearch (cache : Nat → ArpEntry) (ip : UInt32) : Option Nat :=
  (List.range ARP_SIZ).find? fun i => (cache i).arstate ≠ .free ∧ (cache i).arpaddr = ip

/-- The entry that {lit}`arp_alloc` takes, a free one or else a resolved one. -/
def arpVictim (cache : Nat → ArpEntry) : Option Nat :=
  ((List.range ARP_SIZ).find? fun slot => (cache slot).arstate = .free).or
    ((List.range ARP_SIZ).find? fun slot => (cache slot).arstate = .resolved)

/-- {lit}`arp_alloc`. -/
def arpAlloc (cache : Nat → ArpEntry) : Option (Nat × (Nat → ArpEntry)) :=
  (arpVictim cache).map fun slot => (slot, upd cache slot ArpEntry.zero)

/-!
## The machine
-/

/-- A call of {lit}`arp_resolve` that waits for an answer, for the {lit}`i`-th time. -/
structure Resolving where
  nxthop : UInt32
  slot : Nat
  i : Nat

/-- What {lit}`arp_resolve` returned, what it stored, and the network at that time. -/
structure Resolved where
  net : EthNetwork
  nxthop : UInt32
  status : Int
  mac : Option Mac

structure Arp where
  net : EthNetwork
  arpcache : Nat → ArpEntry
  calls : Int → Option Resolving
  mail : Int → Option Int
  arrived : List Packet
  sent : List Packet
  returned : List Resolved

inductive ArpLabel where
  | resolve (pid : Int) (nxthop : UInt32)
  | resume (pid : Int)
  | arpIn (pkt : Packet)
  | send (pid msg : Int)
  | receive (pid : Int)
  | network (net : EthNetwork)

namespace Arp

def setEntry (s : Arp) (slot : Nat) (e : ArpEntry) : Arp :=
  { s with arpcache := upd s.arpcache slot e }

def send (s : Arp) (pid msg : Int) : Arp :=
  if (s.mail pid).isSome then s else { s with mail := upd s.mail pid (some msg) }

/-- {lit}`recvclr`. -/
def recvclr (s : Arp) (pid : Int) : Arp := { s with mail := upd s.mail pid none }

/-- What {lit}`recvtime` returns to a process that goes on now. -/
def message (s : Arp) (pid : Int) : Int := (s.mail pid).getD TIMEOUT

def write (s : Arp) (pkt : Packet) : Arp := { s with sent := s.sent ++ [pkt] }

/-- A call returns. -/
def finish (s : Arp) (pid : Int) (nxthop : UInt32) (status : Int) (mac : Option Mac) : Arp :=
  { s with
    calls := upd s.calls pid none
    returned := s.returned ++ [{ net := s.net, nxthop, status, mac }] }

/-- A request is sent, and the process waits. -/
def transmit (s : Arp) (pid : Int) (r : Resolving) : Arp :=
  { s.write (arpRequest s.net r.nxthop) with calls := upd s.calls pid (some r) }

/-- The part of {lit}`arp_resolve` for an address that is not in the cache. -/
def arpMiss (s : Arp) (pid : Int) (nxthop : UInt32) : Arp :=
  match arpAlloc s.arpcache with
  | none => s.finish pid nxthop SYSERR none
  | some (slot, cache) =>
      let e : ArpEntry :=
        { cache slot with arstate := .pending, arpaddr := nxthop, arpid := pid }
      ((({ s with arpcache := cache }.setEntry slot e).recvclr pid).transmit pid
        { nxthop, slot, i := 0 })

/-- {lit}`arp_resolve`, up to the place where it waits if it has to. -/
def arpResolve (s : Arp) (pid : Int) (nxthop : UInt32) : Arp :=
  if nxthop = IP_BCAST then s.finish pid nxthop OK (some s.net.ethbcast)
  else if nxthop = s.net.ipbcast then s.finish pid nxthop OK (some s.net.ethbcast)
  else
    match arpSearch s.arpcache nxthop with
    | none => s.arpMiss pid nxthop
    | some i =>
        if (s.arpcache i).arstate = .resolved then
          s.finish pid nxthop OK (some (s.arpcache i).arhaddr)
        else if (s.arpcache i).arstate = .pending then s.finish pid nxthop SYSERR none
        else s.arpMiss pid nxthop

/-- {lit}`arp_resolve` after its wait. -/
def arpResume (s : Arp) (pid : Int) (r : Resolving) : Arp :=
  let msg := s.message pid
  let s := s.recvclr pid
  if msg = TIMEOUT then
    if r.i + 1 < ARP_RETRY then s.transmit pid { r with i := r.i + 1 }
    else
      (s.setEntry r.slot { s.arpcache r.slot with arstate := .free }).finish pid r.nxthop TIMEOUT
        none
  else if msg = SYSERR then s.finish pid r.nxthop SYSERR none
  else s.finish pid r.nxthop OK (some (s.arpcache r.slot).arhaddr)

/-- The part of {lit}`arp_in` for a sender that is in the cache. -/
def arpFound (s : Arp) (pkt : Packet) (slot : Nat) : Arp :=
  let e := { s.arpcache slot with arhaddr := getMac pkt arp_sndha }
  if e.arstate = .pending then
    (s.setEntry slot { e with arstate := .resolved }).send e.arpid OK
  else s.setEntry slot e

/-- The part of {lit}`arp_in` for a sender that is not in the cache. -/
def arpAdd (s : Arp) (pkt : Packet) : Arp :=
  match arpAlloc s.arpcache with
  | none => s
  | some (slot, cache) =>
      let e : ArpEntry :=
        { cache slot with
          arpaddr := get32 pkt arp_sndpa
          arhaddr := getMac pkt arp_sndha
          arstate := .resolved }
      ({ s with arpcache := cache }.setEntry slot e).write (arpReply s.net pkt)

/-- The part of {lit}`arp_in` for a request. -/
def arpAnswer (s : Arp) (pkt : Packet) (found : Option Nat) : Arp :=
  if get16 pkt arp_op = ARP_OP_RPLY then s
  else if !s.net.ipvalid ∨ get32 pkt arp_tarpa ≠ s.net.ipucast then s
  else
    match found with
    | none => s.arpAdd pkt
    | some _ => s.write (arpReply s.net pkt)

/-- {lit}`arp_in`.  The process that {lit}`send` makes ready may run at once, but the rest
of {lit}`arp_in` does not look at the cache then. -/
def arpIn (s : Arp) (pkt : Packet) : Arp :=
  let s := { s with arrived := s.arrived ++ [pkt] }
  let pkt := arpNtoh pkt
  if get16 pkt arp_htype ≠ ARP_HTYPE ∨ get16 pkt arp_ptype ≠ ARP_PTYPE then s
  else
    match arpSearch s.arpcache (get32 pkt arp_sndpa) with
    | none => s.arpAnswer pkt none
    | some slot => (s.arpFound pkt slot).arpAnswer pkt (some slot)

def step (s : Arp) : ArpLabel → Option Arp
  | .resolve pid nxthop => if (s.calls pid).isSome then none else some (s.arpResolve pid nxthop)
  | .resume pid => (s.calls pid).map fun r => s.arpResume pid r
  | .arpIn pkt => some (s.arpIn pkt)
  | .send pid msg => some (s.send pid msg)
  | .receive pid => if (s.calls pid).isSome then none else some (s.recvclr pid)
  | .network net => some { s with net := net }

/-- The cache is empty and nobody waits. -/
def Init (s : Arp) : Prop :=
  (∀ slot, (s.arpcache slot).arstate = .free) ∧ (∀ pid, s.calls pid = none) ∧ s.returned = []

end Arp

end Net
end BbbXinu
