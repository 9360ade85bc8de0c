import BbbXinu.Kernel.Resched
import BbbXinu.Lib.Masks
import BbbXinu.Net.Dhcp

/-!
# Routines that disable interrupts

{lit}`ip_send`, {lit}`icmp_send` and {lit}`setprio` with the status register.  The routines
that they call and that restore it wherever they return are given by what they do in between,
which may be anything: other processes run while they wait, and they need not return.
-/

namespace BbbXinu
namespace Net

open Masks

/-- {lit}`intr.S`: {lit}`cpsid i` sets bit 7, and {lit}`restore` takes all but some bits from
the mask. -/
def arm : Controls 32 where
  irq := 7
  own := 0x01f00220
  irq_lt := by decide
  irq_restored := by decide

/-- What these routines read and write besides the register: the kernel, {lit}`NetData`, the
counter of {lit}`icmp_mkpkt`, and what the others work on. -/
structure System (ω : Type) where
  xinu : Xinu
  net : BootNetwork
  ipident : UInt32
  others : ω

/-- A routine of the system. -/
abbrev Sys (ω α : Type) : Type := Routine 32 (System ω) α

/-- What routines do between {lit}`disable` and {lit}`restore`. -/
structure Callees (ω : Type) where
  freebufBody : Packet → Sys ω Int
  getbufBody : Sys ω (Option Packet)
  udpInBody : Packet → Sys ω Unit
  icmpInBody : Packet → Sys ω Unit
  arpResolveBody : UInt32 → Sys ω (Int × Mac)
  writeBody : Packet → Nat → Sys ω Int

section

variable {ω : Type}

/-- {lit}`NetData`. -/
def netData : Sys ω BootNetwork := do
  let s ← rest
  return s.net

namespace Callees

variable (W : Callees ω)

def freebuf (pktptr : Packet) : Sys ω Int := critical arm (W.freebufBody pktptr)

/-- Nothing when {lit}`SYSERR` is returned. -/
def getbuf : Sys ω (Option Packet) := critical arm W.getbufBody

/-- {lit}`write` to the Ethernet device. -/
def write (frame : Packet) (len : Nat) : Sys ω Int := critical arm (W.writeBody frame len)

/-- The address is stored when the value is {lit}`OK`. -/
def arpResolve (nxthop : UInt32) : Sys ω (Int × Mac) := do
  let net ← netData
  if nxthop = IP_BCAST then return (OK, net.ethbcast)
  else if nxthop = net.ipbcast then return (OK, net.ethbcast)
  else critical arm (W.arpResolveBody nxthop)

/-!
## IP
-/

def ipLocal (pktptr : Packet) : Sys ω Unit :=
  match Net.ipLocal pktptr with
  | .udpIn p => critical arm (W.udpInBody p)
  | .icmpIn p => critical arm (W.icmpInBody p)
  | _ => do
      let _ ← W.freebuf pktptr
      return ()

def ipOut (pktptr : Packet) : Sys ω Int := do
  let r := Net.ipOut pktptr
  let retval ← W.write r.1 r.2
  let _ ← W.freebuf r.1
  if retval = SYSERR then return SYSERR else return OK

/-- The end of {lit}`ip_send`, for a packet that leaves the machine. -/
def ipRoute (mask : BitVec 32) (nxthop : UInt32) (pktptr : Packet) : Sys ω Int := do
  if nxthop = 0 then
    let _ ← W.freebuf pktptr
    return SYSERR
  else
    let r ← W.arpResolve nxthop
    if r.1 ≠ OK then
      let _ ← W.freebuf pktptr
      return SYSERR
    else
      let retval ← W.ipOut (setMac pktptr net_ethdst r.2)
      restore arm mask
      return retval

def ipSend (pktptr : Packet) : Sys ω Int := do
  let mask ← disable arm
  let net ← netData
  let dest := get32 pktptr net_ipdst
  if dest &&& 0xff000000 = 0x7f000000 then
    W.ipLocal pktptr
    restore arm mask
    return OK
  else if dest = net.ipucast then
    W.ipLocal pktptr
    restore arm mask
    return OK
  else if dest = IP_BCAST ∨ dest = net.ipbcast then
    let retval ← W.ipOut (setMac pktptr net_ethdst net.ethbcast)
    restore arm mask
    return retval
  else
    let nxthop := if dest &&& net.ipmask = net.ipprefix then dest else net.iprouter
    W.ipRoute mask nxthop pktptr

/-!
## ICMP
-/

/-- {lit}`panic`: interrupts are disabled and the processor loops. -/
def panic {α : Type} : Sys ω α := do
  let _ ← disable arm
  halt

/-- The message that {lit}`icmp_mkpkt` fills in.  The length is that of the data. -/
def icmpMessage (net : BootNetwork) (ipid : UInt32) (remip : UInt32) (type ident seq : UInt16)
    (buf : Nat → UInt8) (len : Int) (pkt : Packet) : Packet :=
  let p := set16 (setMac pkt net_ethsrc net.ethucast) net_ethtype 0x800
  let p := upd (upd p net_ipvh IP_VH) net_iptos 0
  let p := set16 p net_iplen (UInt16.ofInt (IP_HDR_LEN + ICMP_HDR_LEN + len))
  let p := set16 (set16 p net_ipid ipid.toUInt16) net_ipfrag 0
  let p := set16 (upd (upd p net_ipttl 0xff) net_ipproto IP_ICMP) net_ipcksum 0
  let p := set32 (set32 p net_ipsrc net.ipucast) net_ipdst remip
  let p := set16 (upd (upd p net_ictype type.toUInt8) net_iccode 0) net_iccksum 0
  let p := set16 (set16 p net_icident ident) net_icseq seq
  fun i => if net_icdata ≤ i ∧ i - net_icdata < (UInt32.ofInt len).toNat then buf (i - net_icdata)
    else p i

/-- {lit}`icmp_mkpkt`.  Its caller expects that it may return {lit}`SYSERR`. -/
def icmpMkpkt (remip : UInt32) (type ident seq : UInt16) (buf : Nat → UInt8) (len : Int) :
    Sys ω (Option Packet) := do
  let pkt ← W.getbuf
  match pkt with
  | none => panic
  | some pkt =>
      let s ← rest
      setRest { s with ipident := s.ipident + 1 }
      return some (icmpMessage s.net s.ipident remip type ident seq buf len pkt)

def icmpSend (remip : UInt32) (type ident seq : UInt16) (buf : Nat → UInt8) (len : Int) :
    Sys ω Int := do
  let mask ← disable arm
  let pkt ← W.icmpMkpkt remip type ident seq buf len
  match pkt with
  | none => return SYSERR
  | some pkt =>
      let retval ← W.ipSend pkt
      restore arm mask
      return retval

end Callees

/-!
## Priorities
-/

/-- The kernel, and how it changes. -/
def kernel : Sys ω Xinu := do
  let s ← rest
  return s.xinu

def setKernel (x : Xinu) : Sys ω Unit := do
  let s ← rest
  setRest { s with xinu := x }

/-- {lit}`record_cpuqdata` restores the register if it disables interrupts. -/
def recordCpuqdata (pid : Int) : Sys ω Unit := do
  let x ← kernel
  if x.envtab EV_CPUQDATA ≠ 0 ∨ x.envtab EV_SCHEDULER = QTYPE_SJF then
    critical arm (setKernel (x.recordCpuqdata pid))
  else return ()

/-- The switch of {lit}`setprio`. -/
def computePrio (pid : Int) : Sys ω Nat := do
  let x ← kernel
  if x.envtab EV_SCHEDULER = QTYPE_SJF then
    recordCpuqdata pid
    let x ← kernel
    let tmptime := (x.proctab pid).statetimes QTYPE_SJF PrState.curr
    return SHRT_MAX - INT16 tmptime.prttime
  else if x.envtab EV_SCHEDULER = QTYPE_RAND then
    let r := x.takeRand
    setKernel r.2
    return r.1 % 99 + 1
  else if x.envtab EV_SCHEDULER = QTYPE_PRIORITY then
    return uint32 (x.proctab pid).prprio0
  else return 0

def setprio (pid : Int) : Sys ω Int := do
  let mask ← disable arm
  let x ← kernel
  if x.isbadpid pid then
    restore arm mask
    return SYSERR
  else if pid = NULLPROC then return 0
  else
    let prio ← computePrio pid
    restore arm mask
    return (INT16 prio : Nat)

/-!
## Calls
-/

/-- A call of one of these routines. -/
inductive MaskedCall where
  | ipSend (pktptr : Packet)
  | icmpSend (remip : UInt32) (type ident seq : UInt16) (buf : Nat → UInt8) (len : Int)
  | setprio (pid : Int)

namespace MaskedCall

def run (W : Callees ω) : MaskedCall → Sys ω Int
  | .ipSend pktptr => W.ipSend pktptr
  | .icmpSend remip type ident seq buf len => W.icmpSend remip type ident seq buf len
  | .setprio pid => Net.setprio pid

/-- A call, if it returns. -/
def step (W : Callees ω) (s : Cpu 32 (System ω)) (c : MaskedCall) : Option (Cpu 32 (System ω)) :=
  (c.run W s).map fun r => r.2

end MaskedCall

end

end Net
end BbbXinu
