import BbbXinu.Lib.Layouts
import BbbXinu.Net.Arp
import BbbXinu.Net.Udp

/-!
# Obtaining an address

{lit}`dhcp.c`.  A message lies in a buffer of the size of {lit}`struct dhcpmsg`, and the
offsets are those of its fields.  What {lit}`udp_recv` returns and stores, and what becomes of
the table of UDP endpoints until it returns, are not up to this code.
-/

namespace BbbXinu
namespace Net

open Labels

def DHCP_RETRY : Nat := 5
def DHCP_SERVER_ID : UInt8 := 54
def UDP_DHCP_CPORT : UInt16 := 68
def UDP_DHCP_SPORT : UInt16 := 67

/-!
## Messages
-/

def dc_bop : Nat := 0
def dc_htype : Nat := 1
def dc_hlen : Nat := 2
def dc_xid : Nat := 4
def dc_yip : Nat := 16
def dc_sip : Nat := 20
def dc_chaddr : Nat := 28
def dc_sname : Nat := 44
def dc_bootfile : Nat := 108
def dc_cookie : Nat := 236
def dc_opt : Nat := 240

/-- The size of {lit}`struct dhcpmsg`. -/
def DHCP_MSG_SIZE : Nat := 1264

/-- The size of {lit}`bootfile`. -/
def DHCP_BOOTFILE_SIZE : UInt32 := 128

/-- The loop of {lit}`get_dhcp_option_value`: the place of the value, if the option is found
before the last byte of the message. -/
def optionLoop (p : Packet) (dmsgSize : Nat) (optionKey : UInt8) (o : Nat) : Option Nat :=
  if o + 1 < dmsgSize then
    if p o = optionKey then some (o + 2)
    else optionLoop p dmsgSize optionKey (o + 1 + ((p (o + 1)).toNat + 1))
  else none
termination_by dmsgSize - o

def getDhcpOptionValue (p : Packet) (dmsgSize : Nat) (optionKey : UInt8) : Option Nat :=
  optionLoop p dmsgSize optionKey dc_opt

/-- The fields that both messages to a server have: the address of the server, and the bytes of
the options, which are stored one after the other. -/
def dhcpMessage (ethucast : Mac) (sip : UInt32) (opts : List UInt8) : Packet :=
  let xid := get32 (setMac (fun _ => 0) 0 ethucast) 0
  let p := upd (upd (upd (fun _ => 0) dc_bop 1) dc_htype 1) dc_hlen 6
  let p := set32 (set32 p dc_xid (htonl xid)) dc_sip sip
  let p := set32 (setMac p dc_chaddr ethucast) dc_cookie (htonl 0x63825363)
  stored p dc_opt opts

/-- The message and its length. -/
def buildDhcpDiscover (ethucast : Mac) : Packet × Int :=
  let opts : List UInt8 := [53, 1, 1, 0, 55, 2, 1, 3]
  (dhcpMessage ethucast 0 opts, dc_opt + opts.length + 1)

/-- The four bytes at a place. -/
def bytes4 (p : Packet) (o : Nat) : List UInt8 := [p o, p (o + 1), p (o + 2), p (o + 3)]

/-- The message and its length, or nothing when {lit}`SYSERR` is returned. -/
def buildDhcpRequest (ethucast : Mac) (offer : Packet) (offerSize : Nat) : Option (Packet × Int) :=
  (getDhcpOptionValue offer offerSize DHCP_SERVER_ID).map fun serverIp =>
    let opts := [53, 1, 3, 0, 0, 0, 50, 4] ++ bytes4 offer dc_yip ++ [0, 0, 54, 4] ++
      bytes4 offer serverIp
    (dhcpMessage ethucast (get32 offer dc_sip) opts, dc_opt + opts.length + 1)

/-!
## The options of an answer
-/

structure BootOptions where
  msgtype : UInt8
  addrmask : UInt32
  routeraddr : UInt32
  deriving DecidableEq

/-- What an option sets. -/
def BootOptions.set (b : BootOptions) (p : Packet) (o : Nat) : BootOptions :=
  if p o = 53 then { b with msgtype := p (o + 2) }
  else if p o = 1 then { b with addrmask := htonl (get32 p (o + 2)) }
  else if p o = 3 then { b with routeraddr := htonl (get32 p (o + 2)) }
  else b

/-- The loop over the options in {lit}`getlocalip_boot`. -/
def bootOptionLoop (p : Packet) (inlen : Nat) (b : BootOptions) (o : Nat) : BootOptions :=
  if o + 1 < inlen then
    bootOptionLoop p inlen (b.set p o) (o + 1 + ((p (o + 1)).toNat + 1))
  else b
termination_by inlen - o

def bootOptions (p : Packet) (inlen : Nat) : BootOptions :=
  bootOptionLoop p inlen { msgtype := 0, addrmask := 0, routeraddr := 0 } dc_opt

/-!
## The exchange
-/

/-- {lit}`struct network`: what else is set here. -/
structure BootNetwork extends EthNetwork where
  ipmask : UInt32
  ipprefix : UInt32
  iprouter : UInt32

/-- The same endpoints are registered, for the same addresses. -/
def SameEndpoints (s t : Udp) : Prop :=
  ∀ i, ((s.udptab i).udstate = .free ↔ (t.udptab i).udstate = .free) ∧
    ((s.udptab i).udstate ≠ .free → (t.udptab i).udremip = (s.udptab i).udremip ∧
      (t.udptab i).udremport = (s.udptab i).udremport ∧
      (t.udptab i).udlocport = (s.udptab i).udlocport)

/-- How a call of {lit}`udp_recv` ends: the value, the bytes that are stored, and what has
become of the table of endpoints, in which nobody else registers or releases one. -/
structure Received where
  inlen : Int
  bytes : List UInt8
  others : Udp → Udp
  length : bytes.length = inlen.toNat
  fits : inlen ≤ DHCP_MSG_SIZE
  same : ∀ s, SameEndpoints s (others s)

/-- What the caller gets about a boot server. -/
structure BootArgs where
  bootServer : UInt32
  bootFile : Packet
  size : UInt32

/-- The variables of {lit}`getlocalip_boot`, and what it has done. -/
structure Boot where
  net : BootNetwork
  udp : Udp
  dmsgSnd : Packet
  dmsgRvc : Packet
  len : Int
  args : Option BootArgs
  sent : List (Packet × Int)
  released : List Int

namespace Boot

/-- {lit}`udp_sendto` to all hosts. -/
def sendto (B : Boot) : Boot := { B with sent := B.sent ++ [(B.dmsgSnd, B.len)] }

def release (B : Boot) (slot : Int) : Boot :=
  { B with udp := B.udp.udpRelease slot, released := B.released ++ [slot] }

/-- The addresses of an acknowledgement are taken over. -/
def configure (B : Boot) (b : BootOptions) : Boot :=
  let ipmask := if b.addrmask ≠ 0 then b.addrmask else B.net.ipmask
  let ipucast := htonl (get32 B.dmsgRvc dc_yip)
  { B with net := { B.net with
    ipmask
    iprouter := if b.routeraddr ≠ 0 then b.routeraddr else B.net.iprouter
    ipucast
    ipprefix := ipucast &&& ipmask
    ipbcast := (ipucast &&& ipmask) ||| ~~~ipmask
    ipvalid := true } }

/-- The name of the boot server in dotted decimal, and whatever is behind it in the message. -/
def serverName (B : Boot) : List UInt8 :=
  (List.range (DHCP_MSG_SIZE - dc_sname)).map fun i => B.dmsgRvc (dc_sname + i)

/-- The name and the size of the boot file. -/
def bootfile (B : Boot) (a : BootArgs) (bootServer : UInt32) : Boot :=
  let size := if a.size < DHCP_BOOTFILE_SIZE then a.size else DHCP_BOOTFILE_SIZE
  { B with args := some {
    bootServer := bootServer
    bootFile := fun i => if i < size.toNat then B.dmsgRvc (dc_bootfile + i) else a.bootFile i
    size := size } }

/-- The boot server, its file and the value that is returned, after the release. -/
def bootServer (B : Boot) : Boot × UInt32 :=
  match B.args with
  | none => (B, B.net.ipucast)
  | some a =>
      let r := dot2ip B.serverName a.bootServer
      if r.1 = OK then (B.bootfile a r.2, B.net.ipucast)
      else
        match getDhcpOptionValue B.dmsgRvc B.len.toNat DHCP_SERVER_ID with
        | none => (B, UInt32.ofInt SYSERR)
        | some serverIp => (B.bootfile a (htonl (get32 B.dmsgRvc serverIp)), B.net.ipucast)

/-- One round of the loop over the answers, with the value if it returns. -/
def answer (B : Boot) (slot : Int) (r : Received) : Boot × Option UInt32 :=
  let B := { B with udp := r.others B.udp, dmsgRvc := stored B.dmsgRvc 0 r.bytes }
  if r.inlen = TIMEOUT then (B, none)
  else if r.inlen = SYSERR then (B, some (UInt32.ofInt SYSERR))
  else if htonl (get32 B.dmsgRvc dc_xid) ≠ htonl (get32 B.dmsgSnd dc_xid) then (B, none)
  else
    let b := bootOptions B.dmsgRvc r.inlen.toNat
    if b.msgtype = 2 then
      match buildDhcpRequest B.net.ethucast B.dmsgRvc r.inlen.toNat with
      | none => ({ B with len := SYSERR }, some (UInt32.ofInt SYSERR))
      | some (dmsgSnd, len) => (sendto { B with dmsgSnd, len }, none)
    else if B.dmsgRvc (dc_opt + 2) ≠ 5 then (B, none)
    else
      let r := ((B.configure b).release slot).bootServer
      (r.1, some r.2)

/-- The loop over the answers, of which {lit}`k` have been received before. -/
def answers (slot : Int) (recv : Nat → Received) : Nat → Nat → Boot → Boot × Option UInt32
  | 0, _, B => (B, none)
  | j + 1, k, B =>
      match B.answer slot (recv k) with
      | (B, none) => answers slot recv j (k + 1) B
      | (B, some v) => (B, some v)

/-- The loop that sends the message again. -/
def retries (slot : Int) (recv : Nat → Received) : Nat → Nat → Boot → Boot × Option UInt32
  | 0, _, B => (B, none)
  | i + 1, k, B =>
      match answers slot recv 3 k B.sendto with
      | (B, none) => retries slot recv i (k + 3) B
      | (B, some v) => (B, some v)

/-- Use DHCP to obtain an IP address. -/
def getlocalipBoot (B : Boot) (recv : Nat → Received) : Boot × UInt32 :=
  match B.udp.freeSlot 0 UDP_DHCP_SPORT UDP_DHCP_CPORT with
  | none => (B, UInt32.ofInt SYSERR)
  | some slot =>
      let r := buildDhcpDiscover B.net.ethucast
      let B := { B with
        udp := B.udp.udpRegister 0 UDP_DHCP_SPORT UDP_DHCP_CPORT, dmsgSnd := r.1, len := r.2 }
      match retries slot recv DHCP_RETRY 0 B with
      | (B, some v) => (B, v)
      | (B, none) => (B.release slot, UInt32.ofInt SYSERR)

end Boot

end Net
end BbbXinu
