import BbbXinu.Invariant.PacketBytes
import BbbXinu.Net.Icmp
import BbbXinu.Net.Udp

/-!
# Malformed packets

When all that is touched on behalf of a received frame lies inside its buffer and the
buffer of the receiver, and the length that the receiver gets is one.
-/

/-!
## What is touched of a packet

The bytes that the routines on the path of a received frame read and write: in the
buffer that holds it, in the buffer of an echo reply, and in the buffer of the caller
of {lit}`udp_recv`.  Each list follows its routine, and stops where the routine returns.
-/

namespace BbbXinu
namespace Net

/-- {lit}`sizeof(struct netpacket)`: the size of the buffers of {lit}`netbufpool`. -/
def PACKLEN : Nat := 1514

def net_udpdata : Nat := 42

/-- A byte of one of the three buffers. -/
inductive Place where
  | frame (o : Nat)
  | reply (o : Nat)
  | user (o : Nat)
  deriving DecidableEq, Repr

/-- The place lies in its buffer, where the caller's buffer has {lit}`len` bytes. -/
def Place.Inside (len : Nat) : Place → Prop
  | .frame o => o < PACKLEN
  | .reply o => o < PACKLEN
  | .user o => o < len

def AllInside (len : Nat) (l : List Place) : Prop := ∀ a ∈ l, a.Inside len

/-- A field of some bytes in the frame. -/
def field (o n : Nat) : List Place := (List.range n).map fun i => .frame (o + i)

/-!
## Checksums and byte order
-/

def ipcksumPlaces : List Place := field net_ipvh 20

def icmpCksumPlaces (start : Nat) (buflen : Int) : List Place :=
  let scount := (buflen / 2).toNat
  field start (2 * scount) ++ if buflen % 2 ≠ 0 then field (start + 2 * scount) 1 else []

def ipNtohPlaces : List Place :=
  field net_iplen 2 ++ field net_ipid 2 ++ field net_ipfrag 2 ++ field net_ipsrc 4 ++
    field net_ipdst 4

def udpNtohPlaces : List Place :=
  field net_udpsport 2 ++ field net_udpdport 2 ++ field net_udplen 2

def icmpNtohPlaces : List Place :=
  field net_iccksum 2 ++ field net_icident 2 ++ field net_icseq 2

/-!
## Receiving
-/

def ipDeliverPlaces (net : Network) (p : Packet) : List Place :=
  field net_ipdst 4 ++
    if get32 p net_ipdst = IP_BCAST then field net_ipproto 1
    else if !net.ipvalid then field net_ipproto 1
    else if get32 p net_ipdst = net.ipucast ∨ get32 p net_ipdst = net.ipbcast ∨
        get32 p net_ipdst = IP_BCAST then field net_ipproto 1
    else []

def ipInPlaces (net : Network) (p : Packet) : List Place :=
  ipcksumPlaces ++
    if ipcksum p ≠ 0 then []
    else
      let p := ipNtoh p
      ipNtohPlaces ++ field net_ipvh 1 ++
        if p net_ipvh ≠ IP_VH then []
        else
          field net_ipproto 1 ++
            if p net_ipproto = IP_UDP then udpNtohPlaces ++ ipDeliverPlaces net (udpNtoh p)
            else if p net_ipproto = IP_ICMP then
              let icmplen : Int := (get16 p net_iplen).toNat - IP_HDR_LEN
              field net_iplen 2 ++ icmpCksumPlaces net_ictype icmplen ++
                if icmpCksum p net_ictype icmplen ≠ 0 then []
                else icmpNtohPlaces ++ ipDeliverPlaces net (icmpNtoh p)
            else ipDeliverPlaces net p

/-- The length of the data is an {lit}`int32`, and {lit}`memcpy` copies nothing when it is
negative.  The fields from {lit}`net_ethsrc` to {lit}`net_icseq` are all written. -/
def icmpMkpktPlaces (len : Int) : List Place :=
  (List.range (net_icdata - net_ethsrc)).map (fun i => .reply (net_ethsrc + i)) ++
    (List.range len.toNat).flatMap fun i => [.frame (net_icdata + i), .reply (net_icdata + i)]

def icmpInPlaces (s : Icmp) (pkt : Packet) : List Place :=
  field net_ictype 1 ++
    if pkt net_ictype ≠ ICMP_ECHOREPLY ∧ pkt net_ictype ≠ ICMP_ECHOREQST then []
    else if pkt net_ictype = ICMP_ECHOREQST then
      field net_ipsrc 4 ++ field net_icident 2 ++ field net_icseq 2 ++ field net_iplen 2 ++
        icmpMkpktPlaces ((get16 pkt net_iplen).toNat - IP_HDR_LEN - ICMP_HDR_LEN)
    else
      let slot : Int := (get16 pkt net_icident).toNat
      field net_icident 2 ++
        if slot < 0 ∨ ICMP_SLOTS ≤ slot then []
        else if (s.icmptab slot).icstate = .free then []
        else field net_ipsrc 4

/-- The length that {lit}`udp_recv` computes from the packet that it has dequeued, and
returns. -/
def udpRecvLen (pkt : Packet) (len : Nat) : Int :=
  let msglen : Int := (get16 pkt net_udplen).toNat - UDP_HDR_LEN
  if (len : Int) < msglen then len else msglen

def udpRecvPlaces (pkt : Packet) (len : Nat) : List Place :=
  field net_udplen 2 ++ (List.range (udpRecvLen pkt len).toNat).flatMap fun i =>
    [.frame (net_udpdata + i), .user i]

/-- The packet that a receiver gets to see, when a frame arrives: the one that
{lit}`udp_in` puts into a queue. -/
def delivered (net : Network) (udp : Udp) (p : Packet) : Option Packet :=
  match ipIn net p with
  | .udpIn pkt => if (udp.slotOf pkt).isSome then some pkt else none
  | _ => none

/-- All that is touched on behalf of a frame, up to the end of {lit}`udp_recv`. -/
def framePlaces (net : Network) (icmp : Icmp) (udp : Udp) (p : Packet) (len : Nat) : List Place :=
  ipInPlaces net p ++
    (match ipIn net p with
      | .icmpIn pkt => icmpInPlaces icmp pkt
      | _ => []) ++
    (match delivered net udp p with
      | some pkt => udpRecvPlaces pkt len
      | none => [])

end Net
end BbbXinu

namespace BbbXinu
namespace Net

/-!
## Lists of places
-/

section Places

variable {len o n start : Nat} {l m : List Place}

theorem AllInside.nil : AllInside len [] := nofun

theorem allInside_append : AllInside len (l ++ m) ↔ AllInside len l ∧ AllInside len m :=
  List.forall_mem_append

/-- A field that is not empty lies inside when its end does. -/
theorem allInside_field : AllInside len (field o n) ↔ n = 0 ∨ o + n ≤ PACKLEN := by
  constructor
  · intro h
    by_cases hn : n = 0
    · exact Or.inl hn
    · have hlast : (Place.frame (o + (n - 1))).Inside len :=
        h _ (List.mem_map.mpr ⟨n - 1, List.mem_range.mpr (by omega), rfl⟩)
      change o + (n - 1) < PACKLEN at hlast
      omega
  · rintro h a ha
    obtain ⟨i, hi, rfl⟩ := List.mem_map.mp ha
    have hi' := List.mem_range.mp hi
    change o + i < PACKLEN
    omega

theorem field_inside (h : o + n ≤ PACKLEN) : AllInside len (field o n) :=
  allInside_field.mpr (Or.inr h)

/-- The checksum of a message reads just its bytes, or one byte when the length is negative
and odd. -/
theorem allInside_icmpCksum {buflen : Nat} :
    AllInside len (icmpCksumPlaces net_ictype ((buflen : Int) - IP_HDR_LEN)) ↔ buflen ≤ 1500 := by
  unfold icmpCksumPlaces net_ictype IP_HDR_LEN
  rw [allInside_append, allInside_field]
  by_cases hodd : ((buflen : Int) - (20 : Nat)) % 2 ≠ 0
  · rw [if_pos hodd, allInside_field]
    unfold PACKLEN
    omega
  · rw [if_neg hodd]
    have hnil : AllInside len [] := AllInside.nil
    unfold PACKLEN
    constructor
    · rintro ⟨h, -⟩
      omega
    · intro h
      exact ⟨by omega, hnil⟩

theorem ipcksumPlaces_inside : AllInside len ipcksumPlaces := field_inside (by decide)

theorem ipNtohPlaces_inside : AllInside len ipNtohPlaces := by
  unfold ipNtohPlaces
  simp only [allInside_append]
  exact ⟨⟨⟨⟨field_inside (by decide), field_inside (by decide)⟩, field_inside (by decide)⟩,
    field_inside (by decide)⟩, field_inside (by decide)⟩

theorem udpNtohPlaces_inside : AllInside len udpNtohPlaces := by
  unfold udpNtohPlaces
  simp only [allInside_append]
  exact ⟨⟨field_inside (by decide), field_inside (by decide)⟩, field_inside (by decide)⟩

theorem icmpNtohPlaces_inside : AllInside len icmpNtohPlaces := by
  unfold icmpNtohPlaces
  simp only [allInside_append]
  exact ⟨⟨field_inside (by decide), field_inside (by decide)⟩, field_inside (by decide)⟩

theorem ipDeliverPlaces_inside (net : Network) (p : Packet) :
    AllInside len (ipDeliverPlaces net p) := by
  have hproto : AllInside len (field net_ipproto 1) := field_inside (by decide)
  unfold ipDeliverPlaces
  refine allInside_append.mpr ⟨field_inside (by decide), ?_⟩
  split
  · exact hproto
  · split
    · exact hproto
    · split
      · exact hproto
      · exact AllInside.nil

/-- The reply is built inside its buffer, and from inside the frame, whenever the length of
the request is one that the buffer has room for. -/
theorem icmpInPlaces_inside (s : Icmp) {pkt : Packet}
    (h : (get16 pkt net_iplen).toNat ≤ 1500) : AllInside len (icmpInPlaces s pkt) := by
  unfold icmpInPlaces
  refine allInside_append.mpr ⟨field_inside (by decide), ?_⟩
  split
  · exact AllInside.nil
  · split
    · simp only [allInside_append]
      refine ⟨⟨⟨⟨field_inside (by decide), field_inside (by decide)⟩, field_inside (by decide)⟩,
        field_inside (by decide)⟩, ?_⟩
      refine allInside_append.mpr ⟨fun a ha => ?_, fun a ha => ?_⟩
      · obtain ⟨i, hi, rfl⟩ := List.mem_map.mp ha
        have hi' := List.mem_range.mp hi
        change net_ethsrc + i < PACKLEN
        unfold net_icdata net_ethsrc at *
        unfold PACKLEN
        omega
      · obtain ⟨i, hi, hmem⟩ := List.mem_flatMap.mp ha
        have hi' : i < 1472 := by
          have := List.mem_range.mp hi
          unfold IP_HDR_LEN ICMP_HDR_LEN at this
          omega
        have hlt : net_icdata + i < PACKLEN := by
          unfold net_icdata PACKLEN
          omega
        obtain rfl | hmem := List.mem_cons.mp hmem
        · exact hlt
        · rw [List.mem_singleton.mp hmem]
          exact hlt
    · refine allInside_append.mpr ⟨field_inside (by decide), ?_⟩
      split
      · exact AllInside.nil
      · split
        · exact AllInside.nil
        · exact field_inside (by decide)

/-- The receiver copies as many bytes as it returns, if that is a number of bytes. -/
theorem allInside_udpRecv {pkt : Packet} :
    AllInside len (udpRecvPlaces pkt len) ↔ udpRecvLen pkt len ≤ 1472 := by
  have hmax : udpRecvLen pkt len ≤ len := by
    unfold udpRecvLen
    simp only
    omega
  unfold udpRecvPlaces
  rw [allInside_append]
  constructor
  · rintro ⟨-, h⟩
    by_contra hlen
    have hmem : Place.frame (net_udpdata + 1472) ∈
        (List.range (udpRecvLen pkt len).toNat).flatMap fun i =>
          [Place.frame (net_udpdata + i), Place.user i] :=
      List.mem_flatMap.mpr ⟨1472, List.mem_range.mpr (by omega), List.mem_cons_self⟩
    have hlast : net_udpdata + 1472 < PACKLEN := h _ hmem
    exact absurd hlast (by decide)
  · intro hlen
    refine ⟨field_inside (by decide), fun a ha => ?_⟩
    obtain ⟨i, hi, hmem⟩ := List.mem_flatMap.mp ha
    have hi' := List.mem_range.mp hi
    obtain rfl | hmem := List.mem_cons.mp hmem
    · change net_udpdata + i < PACKLEN
      unfold net_udpdata PACKLEN
      omega
    · rw [List.mem_singleton.mp hmem]
      change i < len
      omega

end Places

/-!
## What becomes of a frame
-/

section Fates

variable {net : Network} {p q : Packet} {i : Nat}

/-- A packet whose header is in host byte order is for us. -/
def Addressed (net : Network) (p : Packet) : Prop :=
  get32 p net_ipdst = IP_BCAST ∨
    if net.ipvalid then get32 p net_ipdst = net.ipucast ∨ get32 p net_ipdst = net.ipbcast
    else p net_ipproto = IP_UDP

instance (net : Network) (p : Packet) : Decidable (Addressed net p) :=
  inferInstanceAs (Decidable (_ ∨ _))

theorem ipDeliver_eq (net : Network) (p : Packet) :
    ipDeliver net p = if Addressed net p then ipLocal p else .notForUs := by
  unfold ipDeliver
  by_cases hbcast : get32 p net_ipdst = IP_BCAST
  · have haddr : Addressed net p := Or.inl hbcast
    rw [if_pos hbcast, if_pos haddr]
  · by_cases hvalid : net.ipvalid
    · simp [Addressed, hbcast, hvalid]
    · simp [Addressed, hbcast, hvalid]

/-- Where a packet goes does not depend on its message. -/
theorem addressed_congr (h : ∀ i < net_ictype, p i = q i) : Addressed net p ↔ Addressed net q := by
  have hdst : get32 p net_ipdst = get32 q net_ipdst :=
    get32_congr fun i hi => h _ (by unfold net_ipdst net_ictype; omega)
  have hproto : p net_ipproto = q net_ipproto := h _ (by decide)
  unfold Addressed
  rw [hdst, hproto]

theorem udpNtoh_of_lt (h : i < net_ictype) : udpNtoh p i = p i := by
  unfold net_ictype at h
  unfold udpNtoh
  rw [swap16_of_ne (by unfold net_udplen; omega) (by unfold net_udplen; omega),
    swap16_of_ne (by unfold net_udpdport; omega) (by unfold net_udpdport; omega),
    swap16_of_ne (by unfold net_udpsport; omega) (by unfold net_udpsport; omega)]

theorem icmpNtoh_of_lt (h : i ≤ net_ictype) : icmpNtoh p i = p i := by
  unfold net_ictype at h
  unfold icmpNtoh
  rw [swap16_of_ne (by unfold net_icseq; omega) (by unfold net_icseq; omega),
    swap16_of_ne (by unfold net_icident; omega) (by unfold net_icident; omega),
    swap16_of_ne (by unfold net_iccksum; omega) (by unfold net_iccksum; omega)]

theorem ipLocal_udp_iff : ipLocal p = .udpIn q ↔ p net_ipproto = IP_UDP ∧ p = q := by
  unfold ipLocal
  by_cases hudp : p net_ipproto = IP_UDP
  · simp [hudp]
  · by_cases hicmp : p net_ipproto = IP_ICMP
    · simp [hicmp, show IP_ICMP ≠ IP_UDP by decide]
    · simp [hudp, hicmp]

theorem ipLocal_icmp_iff : ipLocal p = .icmpIn q ↔ p net_ipproto = IP_ICMP ∧ p = q := by
  unfold ipLocal
  by_cases hudp : p net_ipproto = IP_UDP
  · simp [hudp, show IP_UDP ≠ IP_ICMP by decide]
  · by_cases hicmp : p net_ipproto = IP_ICMP
    · simp [hicmp, show IP_ICMP ≠ IP_UDP by decide]
    · simp [hudp, hicmp]

theorem ipDeliver_udp_iff :
    ipDeliver net p = .udpIn q ↔ Addressed net p ∧ p net_ipproto = IP_UDP ∧ p = q := by
  rw [ipDeliver_eq]
  by_cases h : Addressed net p
  · simp [h, ipLocal_udp_iff]
  · simp [h]

theorem ipDeliver_icmp_iff :
    ipDeliver net p = .icmpIn q ↔ Addressed net p ∧ p net_ipproto = IP_ICMP ∧ p = q := by
  rw [ipDeliver_eq]
  by_cases h : Addressed net p
  · simp [h, ipLocal_icmp_iff]
  · simp [h]

/-- A header that {lit}`ip_in` accepts.  The conversion to host byte order leaves the version
and the protocol alone. -/
def Accepted (p : Packet) (proto : UInt8) : Prop :=
  ipcksum p = 0 ∧ p net_ipvh = IP_VH ∧ p net_ipproto = proto

instance (p : Packet) (proto : UInt8) : Decidable (Accepted p proto) :=
  inferInstanceAs (Decidable (_ ∧ _))

theorem ipIn_udp (h : Accepted p IP_UDP) : ipIn net p = ipDeliver net (udpNtoh (ipNtoh p)) := by
  obtain ⟨hcksum, hvh, hproto⟩ := h
  have hvh' : ipNtoh p net_ipvh = IP_VH := hvh
  have hproto' : ipNtoh p net_ipproto = IP_UDP := hproto
  simp [ipIn, hcksum, hvh', hproto']

theorem ipIn_icmp (h : Accepted p IP_ICMP) : ipIn net p =
    if icmpCksum (ipNtoh p) net_ictype ((get16 (ipNtoh p) net_iplen).toNat - IP_HDR_LEN) ≠ 0
    then .badIcmp else ipDeliver net (icmpNtoh (ipNtoh p)) := by
  obtain ⟨hcksum, hvh, hproto⟩ := h
  have hvh' : ipNtoh p net_ipvh = IP_VH := hvh
  have hproto' : ipNtoh p net_ipproto = IP_ICMP := hproto
  simp [ipIn, hcksum, hvh', hproto', show IP_ICMP ≠ IP_UDP by decide]

/-- Packets of other protocols, and those whose header is not accepted, are dropped. -/
theorem ipIn_other (hudp : ¬Accepted p IP_UDP) (hicmp : ¬Accepted p IP_ICMP) :
    (∀ q, ipIn net p ≠ .udpIn q) ∧ ∀ q, ipIn net p ≠ .icmpIn q := by
  by_cases hcksum : ipcksum p = 0
  · by_cases hvh : ipNtoh p net_ipvh = IP_VH
    · have hnudp : ipNtoh p net_ipproto ≠ IP_UDP := fun h => hudp ⟨hcksum, hvh, h⟩
      have hnicmp : ipNtoh p net_ipproto ≠ IP_ICMP := fun h => hicmp ⟨hcksum, hvh, h⟩
      have hin : ipIn net p = ipDeliver net (ipNtoh p) := by
        simp [ipIn, hcksum, hvh, hnudp, hnicmp]
      constructor
      · intro q hq
        rw [hin, ipDeliver_udp_iff] at hq
        exact hnudp hq.2.1
      · intro q hq
        rw [hin, ipDeliver_icmp_iff] at hq
        exact hnicmp hq.2.1
    · simp [ipIn, hcksum, hvh]
  · simp [ipIn, hcksum]

/-- What is handed to {lit}`udp_in`. -/
theorem ipIn_udp_iff : ipIn net p = .udpIn q ↔
    Accepted p IP_UDP ∧ Addressed net (ipNtoh p) ∧ udpNtoh (ipNtoh p) = q := by
  by_cases hudp : Accepted p IP_UDP
  · have haddr : Addressed net (udpNtoh (ipNtoh p)) ↔ Addressed net (ipNtoh p) :=
      addressed_congr fun i hi => udpNtoh_of_lt hi
    have hproto : udpNtoh (ipNtoh p) net_ipproto = IP_UDP := hudp.2.2
    rw [ipIn_udp hudp, ipDeliver_udp_iff, haddr]
    exact ⟨fun h => ⟨hudp, h.1, h.2.2⟩, fun h => ⟨h.2.1, hproto, h.2.2⟩⟩
  · refine ⟨fun hq => ?_, fun h => absurd h.1 hudp⟩
    by_cases hicmp : Accepted p IP_ICMP
    · rw [ipIn_icmp hicmp] at hq
      split at hq
      · cases hq
      · have hproto : icmpNtoh (ipNtoh p) net_ipproto = IP_ICMP := hicmp.2.2
        rw [ipDeliver_udp_iff, hproto] at hq
        exact absurd hq.2.1 (by decide)
    · exact absurd hq ((ipIn_other hudp hicmp).1 q)

/-- What is handed to {lit}`icmp_in` has been accepted, and its length has not changed. -/
theorem accepted_of_icmpIn (h : ipIn net p = .icmpIn q) :
    Accepted p IP_ICMP ∧ get16 q net_iplen = get16 (ipNtoh p) net_iplen := by
  by_cases hicmp : Accepted p IP_ICMP
  · refine ⟨hicmp, ?_⟩
    rw [ipIn_icmp hicmp] at h
    split at h
    · cases h
    · rw [ipDeliver_icmp_iff] at h
      rw [← h.2.2]
      exact get16_congr (icmpNtoh_of_lt (by decide)) (icmpNtoh_of_lt (by decide))
  · by_cases hudp : Accepted p IP_UDP
    · rw [ipIn_udp hudp, ipDeliver_icmp_iff] at h
      have hproto : udpNtoh (ipNtoh p) net_ipproto = IP_UDP := hudp.2.2
      rw [hproto] at h
      exact absurd h.2.1 (by decide)
    · exact absurd h ((ipIn_other hudp hicmp).2 q)

theorem delivered_eq (net : Network) (udp : Udp) (p q : Packet) :
    delivered net udp p = some q ↔ Accepted p IP_UDP ∧ Addressed net (ipNtoh p) ∧
      (udp.slotOf q).isSome ∧ udpNtoh (ipNtoh p) = q := by
  have hiff : ipIn net p = .udpIn q ↔ _ := ipIn_udp_iff
  unfold delivered
  constructor
  · intro h
    split at h
    · rename_i r hr
      obtain ⟨hslot, hsome⟩ := Option.ite_none_right_eq_some.mp h
      cases hsome
      obtain ⟨hacc, haddr, heq⟩ := hiff.mp hr
      exact ⟨hacc, haddr, hslot, heq⟩
    · cases h
  · rintro ⟨hacc, haddr, hslot, heq⟩
    rw [hiff.mpr ⟨hacc, haddr, heq⟩]
    exact if_pos hslot

end Fates

/-!
## When a frame is harmless
-/

section Harmless

variable {net : Network} {p q : Packet} {len : Nat}

/-- Nothing outside the buffers is touched, and a receiver gets a length that it cannot take
for anything else. -/
def Harmless (net : Network) (icmp : Icmp) (udp : Udp) (p : Packet) (len : Nat) : Prop :=
  AllInside len (framePlaces net icmp udp p len) ∧
    ∀ q, delivered net udp p = some q →
      0 ≤ udpRecvLen q len ∧ udpRecvLen q len ≤ len ∧ udpRecvLen q len ≠ SYSERR ∧
        udpRecvLen q len ≠ TIMEOUT

/-- A packet of UDP, in host byte order. -/
def udpPart (p : Packet) : Packet := udpNtoh (ipNtoh p)

/-- The total length of an ICMP packet fits the buffer, and the UDP length of a packet that an
endpoint takes is no less than the header, and not more than the buffer has room for. -/
def LengthsFit (net : Network) (udp : Udp) (p : Packet) (len : Nat) : Prop :=
  (Accepted p IP_ICMP → (get16 (ipNtoh p) net_iplen).toNat ≤ PACKLEN - ETH_HDR_LEN) ∧
    (Accepted p IP_UDP → Addressed net (ipNtoh p) → (udp.slotOf (udpPart p)).isSome →
      UDP_HDR_LEN ≤ (get16 (udpPart p) net_udplen).toNat ∧
        min ((get16 (udpPart p) net_udplen).toNat - UDP_HDR_LEN) len ≤ PACKLEN - net_udpdata)

instance (net : Network) (udp : Udp) (p : Packet) (len : Nat) :
    Decidable (LengthsFit net udp p len) :=
  inferInstanceAs (Decidable ((_ → _) ∧ (_ → _ → _ → _)))

/-- {lit}`ip_in` itself goes wrong with the total length of an ICMP packet only. -/
theorem ipInPlaces_inside_iff : AllInside len (ipInPlaces net p) ↔
    (Accepted p IP_ICMP → (get16 (ipNtoh p) net_iplen).toNat ≤ 1500) := by
  have hvhField : AllInside len (field net_ipvh 1) := field_inside (by decide)
  have hprotoField : AllInside len (field net_ipproto 1) := field_inside (by decide)
  have hlenField : AllInside len (field net_iplen 2) := field_inside (by decide)
  unfold ipInPlaces
  simp only [allInside_append, ipcksumPlaces_inside, true_and]
  by_cases hcksum : ipcksum p = 0
  · rw [if_neg (not_not.mpr hcksum)]
    simp only [allInside_append, ipNtohPlaces_inside, hvhField, true_and]
    by_cases hvh : ipNtoh p net_ipvh = IP_VH
    · rw [if_neg (not_not.mpr hvh)]
      simp only [allInside_append, hprotoField, true_and]
      by_cases hudp : ipNtoh p net_ipproto = IP_UDP
      · have hicmp : ¬Accepted p IP_ICMP := fun h =>
          absurd (hudp.symm.trans h.2.2) (by decide)
        rw [if_pos hudp]
        simp only [allInside_append, udpNtohPlaces_inside, ipDeliverPlaces_inside, true_and,
          true_iff]
        exact fun h => absurd h hicmp
      · by_cases hproto : ipNtoh p net_ipproto = IP_ICMP
        · have hrest : AllInside len
              (if icmpCksum (ipNtoh p) net_ictype
                ((get16 (ipNtoh p) net_iplen).toNat - IP_HDR_LEN) ≠ 0 then []
              else icmpNtohPlaces ++ ipDeliverPlaces net (icmpNtoh (ipNtoh p))) := by
            split
            · exact AllInside.nil
            · exact allInside_append.mpr ⟨icmpNtohPlaces_inside, ipDeliverPlaces_inside net _⟩
          rw [if_neg hudp, if_pos hproto]
          simp only [allInside_append, hlenField, hrest, allInside_icmpCksum, true_and, and_true]
          exact ⟨fun h _ => h, fun h => h ⟨hcksum, hvh, hproto⟩⟩
        · rw [if_neg hudp, if_neg hproto]
          exact ⟨fun _ h => absurd h.2.2 hproto, fun _ => ipDeliverPlaces_inside net _⟩
    · rw [if_pos hvh]
      exact ⟨fun _ h => absurd h.2.1 hvh, fun _ => AllInside.nil⟩
  · rw [if_pos hcksum]
    exact ⟨fun _ h => absurd h.1 hcksum, fun _ => AllInside.nil⟩

/-- {lit}`icmp_in` is safe once {lit}`ip_in` has been. -/
theorem icmpIn_inside (icmp : Icmp) (h : AllInside len (ipInPlaces net p)) :
    AllInside len (match ipIn net p with
      | .icmpIn pkt => icmpInPlaces icmp pkt
      | _ => []) := by
  split
  · rename_i pkt hpkt
    obtain ⟨hacc, hlen⟩ := accepted_of_icmpIn hpkt
    refine icmpInPlaces_inside icmp ?_
    rw [hlen]
    exact ipInPlaces_inside_iff.mp h hacc
  · exact AllInside.nil

/-- A receiver is served well when the UDP length is one. -/
theorem udpRecv_iff : (udpRecvLen q len ≤ 1472 ∧ 0 ≤ udpRecvLen q len ∧
      udpRecvLen q len ≤ len ∧ udpRecvLen q len ≠ SYSERR ∧ udpRecvLen q len ≠ TIMEOUT) ↔
    UDP_HDR_LEN ≤ (get16 q net_udplen).toNat ∧
      min ((get16 q net_udplen).toNat - UDP_HDR_LEN) len ≤ PACKLEN - net_udpdata := by
  unfold udpRecvLen UDP_HDR_LEN PACKLEN net_udpdata SYSERR TIMEOUT
  simp only
  omega

/-- A frame is harmless exactly when its lengths fit: nothing on the way of a packet checks
them. -/
theorem harmless_iff (net : Network) (icmp : Icmp) (udp : Udp) (p : Packet) (len : Nat) :
    Harmless net icmp udp p len ↔ LengthsFit net udp p len := by
  have hdelivered : ∀ q, delivered net udp p = some q ↔ (Accepted p IP_UDP ∧
      Addressed net (ipNtoh p) ∧ (udp.slotOf (udpPart p)).isSome) ∧ udpPart p = q := fun q => by
    rw [delivered_eq]
    constructor
    · rintro ⟨hacc, haddr, hslot, rfl⟩
      exact ⟨⟨hacc, haddr, hslot⟩, rfl⟩
    · rintro ⟨⟨hacc, haddr, hslot⟩, rfl⟩
      exact ⟨hacc, haddr, hslot, rfl⟩
  constructor
  · rintro ⟨hinside, hlength⟩
    obtain ⟨hhead, hrecv⟩ := allInside_append.mp hinside
    refine ⟨ipInPlaces_inside_iff.mp (allInside_append.mp hhead).1, fun hacc haddr hslot => ?_⟩
    have hq := (hdelivered (udpPart p)).mpr ⟨⟨hacc, haddr, hslot⟩, rfl⟩
    rw [hq] at hrecv
    exact udpRecv_iff.mp ⟨allInside_udpRecv.mp hrecv, hlength _ hq⟩
  · rintro ⟨hicmp, hudp⟩
    have hin : AllInside len (ipInPlaces net p) := ipInPlaces_inside_iff.mpr hicmp
    have hserved : ∀ q, delivered net udp p = some q → UDP_HDR_LEN ≤ (get16 q net_udplen).toNat ∧
        min ((get16 q net_udplen).toNat - UDP_HDR_LEN) len ≤ PACKLEN - net_udpdata := by
      intro q hq
      obtain ⟨⟨hacc, haddr, hslot⟩, rfl⟩ := (hdelivered q).mp hq
      exact hudp hacc haddr hslot
    refine ⟨allInside_append.mpr ⟨allInside_append.mpr ⟨hin, icmpIn_inside icmp hin⟩, ?_⟩,
      fun q hq => (udpRecv_iff.mpr (hserved q hq)).2⟩
    split
    · rename_i q hq
      exact allInside_udpRecv.mpr (udpRecv_iff.mpr (hserved q hq)).1
    · exact AllInside.nil

/-- A broadcast of UDP with a correct header and a UDP length of five. -/
def shortUdp : Packet :=
  let bytes : List UInt8 := [0, 0, 0, 0, 0, 0, 0, 0, 0, 0, 0, 0, 0, 8, 0x45, 0, 0, 28, 0, 0,
    0, 0, 0x40, 17, 0x70, 0xd0, 10, 0, 0, 2, 0xff, 0xff, 0xff, 0xff, 0, 67, 0, 68, 0, 5, 0, 0]
  fun i => bytes.getD i 0

/-- A receiver with a buffer of 1472 bytes is told that it has waited in vain. -/
theorem harmful_short_udp :
    let net : Network := { ipucast := 0, ipbcast := 0, ipvalid := false }
    let udp := Udp.init.udpRegister 0 67 68
    delivered net udp shortUdp = some (udpPart shortUdp) ∧
      udpRecvLen (udpPart shortUdp) 1472 = TIMEOUT ∧
      ¬Harmless net Icmp.init udp shortUdp 1472 := by
  intro net udp
  have hq : delivered net udp shortUdp = some (udpPart shortUdp) :=
    (delivered_eq net udp shortUdp _).mpr
      ⟨by decide +kernel, by decide +kernel, by decide +kernel, rfl⟩
  have hlen : udpRecvLen (udpPart shortUdp) 1472 = TIMEOUT := by decide +kernel
  exact ⟨hq, hlen, fun h => (h.2 _ hq).2.2.2 hlen⟩

end Harmless

end Net
end BbbXinu
