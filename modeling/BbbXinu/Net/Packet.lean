import BbbXinu.Kernel.State

/-!
# Packets and processes that wait for them

A receiver that finds no packet clears its message with {lit}`recvclr` and waits in
{lit}`recvtime`.  It goes on with the message that it got meanwhile, from whomever, or
with {lit}`TIMEOUT`.  A process has at most one message, and {lit}`send` fails while there
is one.
-/

namespace BbbXinu
namespace Net

/-- The slot that each process waits for, and the message that each process has. -/
structure Waits where
  slot : Int → Option Int
  mail : Int → Option Int

namespace Waits

def none : Waits := { slot := fun _ => .none, mail := fun _ => .none }

def send (w : Waits) (pid msg : Int) : Waits :=
  if (w.mail pid).isSome then w else { w with mail := upd w.mail pid (some msg) }

/-- {lit}`recvclr`, and {lit}`recvtime` up to the place where it waits. -/
def wait (w : Waits) (pid slot : Int) : Waits :=
  { slot := upd w.slot pid (some slot), mail := upd w.mail pid .none }

/-- {lit}`recvclr`, and {lit}`recvtime` with a time that it refuses. -/
def refuse (w : Waits) (pid : Int) : Waits := { w with mail := upd w.mail pid .none }

/-- What {lit}`recvtime` returns to a process that goes on now. -/
def message (w : Waits) (pid : Int) : Int := (w.mail pid).getD TIMEOUT

def wake (w : Waits) (pid : Int) : Waits :=
  { slot := upd w.slot pid .none, mail := upd w.mail pid .none }

end Waits

/-!
## Packets

A packet as it lies in its buffer, byte by byte, with the fields of
{lit}`struct netpacket` at their offsets.  The processor is little-endian, and the
conversions between host and network byte order exchange the bytes of a field in
place.  The two checksums are computed as the code does, in 32-bit arithmetic.
-/

/-- A packet buffer, by the offset from its start. -/
abbrev Packet : Type := Nat → UInt8

/-!
## Constants
-/

def ETH_HDR_LEN : Nat := 14
def IP_HDR_LEN : Nat := 20
def ICMP_HDR_LEN : Nat := 8
def UDP_HDR_LEN : Nat := 8
def IP_BCAST : UInt32 := 0xffffffff
def IP_ICMP : UInt8 := 1
def IP_UDP : UInt8 := 17
def IP_VH : UInt8 := 0x45

/-!
## Offsets of the fields
-/

def net_ethdst : Nat := 0
def net_ethsrc : Nat := 6
def net_ethtype : Nat := 12
def net_ipvh : Nat := 14
def net_iptos : Nat := 15
def net_iplen : Nat := 16
def net_ipid : Nat := 18
def net_ipfrag : Nat := 20
def net_ipttl : Nat := 22
def net_ipproto : Nat := 23
def net_ipcksum : Nat := 24
def net_ipsrc : Nat := 26
def net_ipdst : Nat := 30
def net_udpsport : Nat := 34
def net_udpdport : Nat := 36
def net_udplen : Nat := 38
def net_udpcksum : Nat := 40
def net_ictype : Nat := 34
def net_iccode : Nat := 35
def net_iccksum : Nat := 36
def net_icident : Nat := 38
def net_icseq : Nat := 40
def net_icdata : Nat := 42

/-!
## Fields
-/

/-- A 16-bit field as the processor loads it. -/
def get16 (p : Packet) (o : Nat) : UInt16 := UInt16.ofNat ((p o).toNat + 256 * (p (o + 1)).toNat)

def set16 (p : Packet) (o : Nat) (w : UInt16) : Packet :=
  upd (upd p o (UInt8.ofNat (w.toNat % 256))) (o + 1) (UInt8.ofNat (w.toNat / 256))

def get32 (p : Packet) (o : Nat) : UInt32 :=
  UInt32.ofNat ((get16 p o).toNat + 65536 * (get16 p (o + 2)).toNat)

def set32 (p : Packet) (o : Nat) (w : UInt32) : Packet :=
  set16 (set16 p o (UInt16.ofNat (w.toNat % 65536))) (o + 2) (UInt16.ofNat (w.toNat / 65536))

/-- {lit}`htons`, which is also {lit}`ntohs`. -/
def htons (x : UInt16) : UInt16 := ((x >>> 8) &&& (0xff : UInt16)) ||| ((x &&& (0xff : UInt16)) <<< 8)

/-- {lit}`htonl`, which is also {lit}`ntohl`. -/
def htonl (x : UInt32) : UInt32 :=
  ((x >>> 24) &&& (0x000000ff : UInt32)) ||| ((x >>> 8) &&& (0x0000ff00 : UInt32)) |||
    ((x <<< 8) &&& (0x00ff0000 : UInt32)) ||| ((x <<< 24) &&& (0xff000000 : UInt32))

def swap16 (o : Nat) (p : Packet) : Packet := set16 p o (htons (get16 p o))

def swap32 (o : Nat) (p : Packet) : Packet := set32 p o (htonl (get32 p o))

/-!
## Byte order
-/

def ipHton (p : Packet) : Packet :=
  swap32 net_ipdst (swap32 net_ipsrc (swap16 net_ipfrag (swap16 net_ipid (swap16 net_iplen p))))

def ipNtoh (p : Packet) : Packet :=
  swap32 net_ipdst (swap32 net_ipsrc (swap16 net_ipfrag (swap16 net_ipid (swap16 net_iplen p))))

def udpHton (p : Packet) : Packet :=
  swap16 net_udplen (swap16 net_udpdport (swap16 net_udpsport p))

def udpNtoh (p : Packet) : Packet :=
  swap16 net_udplen (swap16 net_udpdport (swap16 net_udpsport p))

def icmpHton (p : Packet) : Packet :=
  swap16 net_icseq (swap16 net_icident (swap16 net_iccksum p))

def icmpNtoh (p : Packet) : Packet :=
  swap16 net_icseq (swap16 net_icident (swap16 net_iccksum p))

def ethHton (p : Packet) : Packet := swap16 net_ethtype p

/-!
## Checksums
-/

/-- The sum of some 16-bit words, each in network byte order, modulo 2^32. -/
def wordSum (p : Packet) (start n : Nat) : UInt32 :=
  (List.range n).foldl (fun cksum i => cksum + (htons (get16 p (start + 2 * i))).toUInt32) 0

def ipcksum (p : Packet) : UInt16 :=
  let cksum := wordSum p net_ipvh 10
  let cksum := cksum + (cksum >>> 16)
  let cksum := (~~~cksum) &&& 0xffff
  let cksum := if cksum = 0xffff then 0 else cksum
  (cksum &&& 0xffff).toUInt16

/-- {lit}`icmp_cksum` of the bytes from {lit}`start` on.  A {lit}`char` is unsigned on this
machine. -/
def icmpCksum (p : Packet) (start : Nat) (buflen : Int) : UInt16 :=
  let scount := (buflen / 2).toNat
  let cksum := wordSum p start scount
  let cksum :=
    if buflen % 2 ≠ 0 then cksum + ((p (start + 2 * scount)).toUInt32 <<< 8) else cksum
  let cksum := cksum + (cksum >>> 16)
  let cksum := (~~~cksum) &&& 0xffff
  (cksum &&& 0xffff).toUInt16

end Net
end BbbXinu

/-!
## Sending and receiving IP packets

{lit}`ip_in` and {lit}`ip_local` as far as the question what becomes of a packet,
and {lit}`ip_out` as far as the frame that it hands to the Ethernet device.
-/

namespace BbbXinu
namespace Net

/-- {lit}`struct network`: what {lit}`ip_in` reads of it. -/
structure Network where
  ipucast : UInt32
  ipbcast : UInt32
  ipvalid : Bool

/-- What becomes of a received packet: it is freed, for one of several reasons, or handed
on with its headers in host byte order. -/
inductive Fate where
  | badCksum
  | badVersion
  | badIcmp
  | notForUs
  | unknown
  | udpIn (p : Packet)
  | icmpIn (p : Packet)

def ipLocal (p : Packet) : Fate :=
  if p net_ipproto = IP_UDP then .udpIn p
  else if p net_ipproto = IP_ICMP then .icmpIn p
  else .unknown

/-- The end of {lit}`ip_in`: is the packet for us? -/
def ipDeliver (net : Network) (p : Packet) : Fate :=
  if get32 p net_ipdst = IP_BCAST then ipLocal p
  else if !net.ipvalid then
    if p net_ipproto = IP_UDP then ipLocal p else .notForUs
  else if get32 p net_ipdst = net.ipucast ∨ get32 p net_ipdst = net.ipbcast ∨
      get32 p net_ipdst = IP_BCAST then ipLocal p
  else .notForUs

def ipIn (net : Network) (p : Packet) : Fate :=
  if ipcksum p ≠ 0 then .badCksum
  else
    let p := ipNtoh p
    if p net_ipvh ≠ IP_VH then .badVersion
    else if p net_ipproto = IP_UDP then ipDeliver net (udpNtoh p)
    else if p net_ipproto = IP_ICMP then
      let icmplen : Int := (get16 p net_iplen).toNat - IP_HDR_LEN
      if icmpCksum p net_ictype icmplen ≠ 0 then .badIcmp
      else ipDeliver net (icmpNtoh p)
    else ipDeliver net p

/-- The part of {lit}`ip_out` that treats the encapsulated packet. -/
def protoOut (p : Packet) : Packet :=
  if p net_ipproto = IP_UDP then udpHton (set16 p net_udpcksum 0)
  else if p net_ipproto = IP_ICMP then
    let p := set16 (icmpHton p) net_iccksum 0
    let len : Int := (get16 p net_iplen).toNat - IP_HDR_LEN
    set16 p net_iccksum (htons (icmpCksum p net_ictype len))
  else p

/-- The frame that {lit}`ip_out` writes, and its length. -/
def ipOut (p : Packet) : Packet × Nat :=
  let pktlen := (get16 p net_iplen).toNat + ETH_HDR_LEN
  let p := ipHton (protoOut p)
  let p := set16 p net_ipcksum 0
  let p := set16 p net_ipcksum (htons (ipcksum p))
  (ethHton p, pktlen)

end Net
end BbbXinu

/-!
## Dotted decimal

{lit}`dot2ip.c`.  A string is the list of its characters, and behind the last one there is a
null byte.
-/

namespace BbbXinu
namespace Net

/-- The character {lit}`'.'`. -/
def DOT : UInt8 := 46

/-- The characters of one segment, of which {lit}`nch` were read: the value of the segment,
the character that ends it, and what is behind that one.  The loop ends at the fourth
character at the latest, since that one is an error unless it ends the segment. -/
def dotSegment (nch val : Nat) : List UInt8 → Option (Nat × UInt8 × List UInt8)
  | [] => if nch = 0 then none else some (val, 0, [])
  | ch :: dotted =>
      if ch = 0 ∨ ch = DOT then if nch = 0 then none else some (val, ch, dotted)
      else if 3 ≤ nch ∨ ch < 48 ∨ 57 < ch then none
      else dotSegment (nch + 1) (10 * val + (ch.toNat - 48)) dotted

/-- The loop over the segments, with the number of them that may still come. -/
def dotSegments : Nat → UInt32 → List UInt8 → Option UInt32
  | 0, _, _ => none
  | seg + 1, ipaddr, dotted =>
      match dotSegment 0 0 dotted with
      | none => none
      | some (val, ch, dotted) =>
          if 255 < val then none
          else
            let ipaddr := (ipaddr <<< 8) ||| UInt32.ofNat val
            if ch = 0 then some ipaddr else dotSegments seg ipaddr dotted

/-- Convert a string of dotted decimal to an unsigned integer: what is returned, and what is
at the location of the result then. -/
def dot2ip (dotted : List UInt8) (result : UInt32) : Int × UInt32 :=
  match dotSegments 4 0 dotted with
  | none => (SYSERR, result)
  | some ipaddr => (OK, ipaddr)

end Net
end BbbXinu
